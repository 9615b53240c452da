import Vidsilo.Library.Procedure

/-!
# The calls of a pool at named stages

A stage stands for a request and for what is left of its procedure. `Tracks` says that every
call in progress is at a stage; a step of the pool moves one call to another stage. Nothing
here depends on the repository.
-/
namespace Vidsilo.Library.Stages

variable {Id τ ι α σ Stage : Type} {Op : Type → Type}

/-- Where every call in progress stands. -/
abbrev Places (Id Stage : Type) := Id → Option Stage

def Tracks (request : Stage → τ) (rest : Stage → Procedure Op α) (p : Pool Id τ Op α σ)
    (places : Places Id Stage) : Prop :=
  ∀ id, p.calls id = (places id).map fun s => ⟨request s, rest s⟩

theorem tracks_idle (request : Stage → τ) (rest : Stage → Procedure Op α) (world : σ) :
    Tracks request rest (Pool.idle world : Pool Id τ Op α σ) fun _ => none := fun _ => rfl

theorem Tracks.calls {request : Stage → τ} {rest : Stage → Procedure Op α}
    {p : Pool Id τ Op α σ} {places : Places Id Stage} {id : Id} {s : Stage}
    (h : Tracks request rest p places) (found : places id = some s) :
    p.calls id = some ⟨request s, rest s⟩ := by
  rw [h, found]
  rfl

/-- How many of the calls stand at a stage that meets the condition. -/
def tally (ids : List Id) (places : Places Id Stage) (p : Stage → Bool) : Nat :=
  ids.countP fun i => (places i).any p

theorem tally_or {p q : Stage → Bool} (ids : List Id) (places : Places Id Stage)
    (apart : ∀ s, p s = true → q s = false) :
    tally ids places (fun s => p s || q s) = tally ids places p + tally ids places q := by
  induction ids with
  | nil => rfl
  | cons i ids ih =>
    simp only [tally, List.countP_cons] at ih ⊢
    rw [ih]
    cases places i with
    | none => rfl
    | some s =>
      have notBoth := apart s
      cases isP : p s with
      | false => simp [isP, Nat.add_assoc]
      | true =>
        simp only [Option.any_some, isP, notBoth isP, Bool.or_false, if_true, if_false,
          Bool.false_eq_true]
        omega

/-- A call is one of those that it counts among. -/
theorem toNat_le_tally {ids : List Id} {places : Places Id Stage} {i : Id} {s : Stage}
    (mem : i ∈ ids) (here : places i = some s) (p : Stage → Bool) :
    (p s).toNat ≤ tally ids places p := by
  cases meets : p s with
  | false => exact Nat.zero_le _
  | true => exact List.countP_pos_iff.mpr ⟨i, mem, by rw [here]; exact meets⟩

variable [DecidableEq Id]

def Places.set (places : Places Id Stage) (id : Id) (s : Option Stage) : Places Id Stage :=
  fun i => if i = id then s else places i

@[simp] theorem set_self (places : Places Id Stage) (id : Id) (s : Option Stage) :
    places.set id s id = s := if_pos rfl

theorem set_ne (places : Places Id Stage) {id i : Id} (s : Option Stage) (h : i ≠ id) :
    places.set id s i = places i := if_neg h

/-- A stage after a call has moved is its new one or an old one of another call. -/
theorem set_cases {places : Places Id Stage} {id i : Id} {next : Option Stage} {s : Stage}
    (h : places.set id next i = some s) : (i = id ∧ next = some s) ∨ (i ≠ id ∧ places i = some s) := by
  by_cases here : i = id
  · subst here
    rw [set_self] at h
    exact .inl ⟨rfl, h⟩
  · rw [set_ne _ _ here] at h
    exact .inr ⟨here, h⟩

theorem tally_set_new (places : Places Id Stage) {ids : List Id} {i : Id} (new : i ∉ ids)
    (next : Option Stage) (p : Stage → Bool) :
    tally ids (places.set i next) p = tally ids places p := by
  apply List.countP_congr
  intro j mem
  rw [set_ne]
  rintro rfl
  exact new mem

/-- A new call counts where it starts. -/
theorem tally_cons_set (places : Places Id Stage) {ids : List Id} {i : Id} (new : i ∉ ids)
    (next : Option Stage) (p : Stage → Bool) :
    tally (i :: ids) (places.set i next) p = tally ids places p + (next.any p).toNat := by
  have others := tally_set_new places new next p
  simp only [tally, List.countP_cons, set_self] at others ⊢
  rw [others]
  cases next.any p with
  | _ => rfl

/-- A call that moves counts where it comes to and no longer where it was. -/
theorem tally_set (places : Places Id Stage) {ids : List Id} (distinct : ids.Nodup) {i : Id}
    (mem : i ∈ ids) (next : Option Stage) (p : Stage → Bool) :
    tally ids (places.set i next) p + ((places i).any p).toNat =
      tally ids places p + (next.any p).toNat := by
  induction ids with
  | nil => cases mem
  | cons j ids ih =>
    obtain ⟨notThere, distinct⟩ := List.nodup_cons.mp distinct
    simp only [tally, List.countP_cons] at ih ⊢
    rcases List.mem_cons.mp mem with rfl | later
    · have others := tally_set_new places notThere next p
      simp only [tally] at others
      rw [others, set_self]
      cases (places i).any p with
      | _ =>
        cases next.any p with
        | _ => simp
    · have other : j ≠ i := by
        rintro rfl
        exact notThere later
      have same := ih distinct later
      rw [set_ne _ _ other]
      omega

variable {request : Stage → τ} {rest : Stage → Procedure Op α} {body : τ → Procedure Op α}
  {move : Id → Procedure Op α → ι → σ → Option (Procedure Op α × σ)}
  {p p' : Pool Id τ Op α σ} {places : Places Id Stage} {id : Id} {s : Stage}

/-- A call moves to a stage. -/
theorem Tracks.set (h : Tracks request rest p places) (id : Id) (next : Option Stage) (world : σ) :
    Tracks request rest
      { p.setCall id (next.map fun s => ⟨request s, rest s⟩) with world := world }
      (places.set id next) := by
  intro i
  by_cases here : i = id
  · subst here
    simp [Pool.setCall]
  · simpa [Pool.setCall, here, set_ne] using h i

theorem Tracks.start {r : τ} (h : Tracks request rest p places)
    (isRequest : request s = r) (isBody : rest s = body r)
    (taken : p.step body move (.start id r : Pool.Action Id τ ι) = some p') :
    places id = none ∧ p'.world = p.world ∧ Tracks request rest p' (places.set id (some s)) := by
  obtain ⟨free, rfl⟩ := Pool.start_cases taken
  subst isRequest
  refine ⟨?_, rfl, ?_⟩
  · rw [h] at free
    exact Option.map_eq_none_iff.mp free
  · have moved := h.set id (some s) p.world
    rw [Option.map_some, isBody] at moved
    exact moved

theorem Tracks.finish (h : Tracks request rest p places)
    (taken : p.step body move (.finish id : Pool.Action Id τ ι) = some p') :
    ∃ s value, places id = some s ∧ rest s = .ret value ∧ p'.world = p.world ∧
      Tracks request rest p' (places.set id none) := by
  obtain ⟨r, value, found, rfl⟩ := Pool.finish_cases taken
  rw [h] at found
  obtain ⟨s, here, same⟩ := Option.map_eq_some_iff.mp found
  exact ⟨s, value, here, congrArg Call.rest same, rfl, h.set id none p.world⟩

theorem Tracks.advance {outcome : ι} (h : Tracks request rest p places)
    (taken : p.step body move (.advance id outcome) = some p') :
    ∃ s after, places id = some s ∧ move id (rest s) outcome p.world = some (after, p'.world) ∧
      ∀ s', request s' = request s → rest s' = after →
        Tracks request rest p' (places.set id (some s')) := by
  obtain ⟨call, after, world, found, moved, rfl⟩ := Pool.advance_cases taken
  rw [h] at found
  obtain ⟨s, here, rfl⟩ := Option.map_eq_some_iff.mp found
  refine ⟨s, after, here, moved, ?_⟩
  intro s' isRequest isAfter
  subst isAfter
  have step := h.set id (some s') world
  rw [Option.map_some, isRequest] at step
  exact step

end Vidsilo.Library.Stages
