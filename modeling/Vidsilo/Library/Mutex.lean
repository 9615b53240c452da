import Vidsilo.Library.Procedure

/-!
# A mutex taken and given back inside procedures

An operation may acquire or release one mutex. `Balanced` says of a procedure that, on
every path whose replies are allowed, it acquires the mutex only when it does not hold it,
releases it only when it does, and does not return with it. A pool of balanced procedures
releases the mutex only through its owner, and leaves it free when no call is in progress.
`atomically` runs what a call does between an acquire and its release as one step.
Nothing here depends on the repository.
-/
namespace Vidsilo.Library.Mutex

inductive Use where
  | acquire | release | other
  deriving DecidableEq

variable {Op : Type → Type} {α ι σ Id τ : Type} (use : {β : Type} → Op β → Use)

def Balanced (allowed : {β : Type} → Op β → β → Prop) : Bool → Procedure Op α → Prop
  | held, .ret _ => held = false
  | held, .call op next =>
    match use op with
    | .acquire => held = false ∧ ∀ b, allowed op b → Balanced allowed true (next b)
    | .release => held = true ∧ ∀ b, allowed op b → Balanced allowed false (next b)
    | .other => ∀ b, allowed op b → Balanced allowed held (next b)

variable {use} in
/-- What returns without the mutex is followed by what starts without it. -/
theorem balanced_bind {β : Type} {allowed : {β : Type} → Op β → β → Prop} {held : Bool}
    {p : Procedure Op α} {k : α → Procedure Op β} (h : Balanced use allowed held p)
    (rest : ∀ a, Balanced use allowed false (k a)) : Balanced use allowed held (p >>= k) := by
  induction p generalizing held with
  | ret value =>
    unfold Balanced at h
    rw [h]
    exact rest value
  | call op next ih =>
    change Balanced use allowed held (.call op fun b => next b >>= k)
    unfold Balanced at h ⊢
    split at h
    · exact ⟨h.1, fun b allow => ih b (h.2 b allow)⟩
    · exact ⟨h.1, fun b allow => ih b (h.2 b allow)⟩
    · exact fun b allow => ih b (h b allow)

/-- The operations act on the mutex as they say, and no other operation does. -/
structure Guards (perform : Id → {β : Type} → Op β → ι → σ → Option (β × σ))
    (owner : σ → Option Id) : Prop where
  acquire : ∀ {id : Id} {β : Type} {op : Op β} {i : ι} {s s' : σ} {b : β}, use op = .acquire →
    perform id op i s = some (b, s') → owner s = none ∧ owner s' = some id
  release : ∀ {id : Id} {β : Type} {op : Op β} {i : ι} {s s' : σ} {b : β}, use op = .release →
    perform id op i s = some (b, s') → owner s' = none
  other : ∀ {id : Id} {β : Type} {op : Op β} {i : ι} {s s' : σ} {b : β}, use op = .other →
    perform id op i s = some (b, s') → owner s' = owner s

/-- Every call in progress is balanced from where it stands, and the owner is among them. -/
structure Held [DecidableEq Id] (allowed : {β : Type} → Op β → β → Prop) (owner : σ → Option Id)
    (p : Pool Id τ Op α σ) : Prop where
  balanced : ∀ id call, p.calls id = some call →
    Balanced use allowed (decide (owner p.world = some id)) call.rest
  inProgress : ∀ id, owner p.world = some id → p.calls id ≠ none

section Pools
variable [DecidableEq Id] {allowed : {β : Type} → Op β → β → Prop} {owner : σ → Option Id}
  {perform : Id → {β : Type} → Op β → ι → σ → Option (β × σ)} {body : τ → Procedure Op α}
  {use}

theorem held_idle {s : σ} (free : owner s = none) :
    Held use allowed owner (Pool.idle s : Pool Id τ Op α σ) where
  balanced _ _ found := nomatch found
  inProgress id held := by
    rw [Pool.idle, free] at held
    cases held

theorem Held.start {p p' : Pool Id τ Op α σ} {id : Id} {request : τ}
    (h : Held use allowed owner p) (balanced : Balanced use allowed false (body request))
    (taken : p.step body (fun id => Procedure.advance (perform id))
      (.start id request : Pool.Action Id τ ι) = some p') :
    Held use allowed owner p' := by
  obtain ⟨free, rfl⟩ := Pool.start_cases taken
  have notOwner : owner p.world ≠ some id := fun owns => h.inProgress id owns free
  constructor
  · intro i call found
    by_cases same : i = id
    · subst same
      rw [Pool.setCall_self, Option.some.injEq] at found
      subst found
      simpa [notOwner] using balanced
    · rw [Pool.setCall_ne _ _ same] at found
      exact h.balanced i call found
  · intro i owns
    have same : i ≠ id := by
      rintro rfl
      exact notOwner owns
    rw [Pool.setCall_ne _ _ same]
    exact h.inProgress i owns

/-- A call that returns does not hold the mutex. -/
theorem Held.finish {p p' : Pool Id τ Op α σ} {id : Id} (h : Held use allowed owner p)
    (taken : p.step body (fun id => Procedure.advance (perform id))
      (.finish id : Pool.Action Id τ ι) = some p') :
    Held use allowed owner p' := by
  obtain ⟨request, value, found, rfl⟩ := Pool.finish_cases taken
  have notOwner : owner p.world ≠ some id := by
    have returned := h.balanced id _ found
    simpa [Balanced] using returned
  constructor
  · intro i call found'
    have same : i ≠ id := by
      rintro rfl
      rw [Pool.setCall_self] at found'
      cases found'
    rw [Pool.setCall_ne _ _ same] at found'
    exact h.balanced i call found'
  · intro i owns
    have same : i ≠ id := by
      rintro rfl
      exact notOwner owns
    rw [Pool.setCall_ne _ _ same]
    exact h.inProgress i owns

/-- A call takes a step after which it is balanced again, and nobody else gains or loses
the mutex. -/
theorem Held.moved {p : Pool Id τ Op α σ} {id : Id} {request : τ} {before rest : Procedure Op α}
    {world : σ} (h : Held use allowed owner p) (found : p.calls id = some ⟨request, before⟩)
    (balanced : Balanced use allowed (decide (owner world = some id)) rest)
    (others : ∀ i, i ≠ id → (owner world = some i ↔ owner p.world = some i)) :
    Held use allowed owner { p.setCall id (some ⟨request, rest⟩) with world := world } := by
  constructor
  · intro i call found'
    by_cases same : i = id
    · subst same
      have now : call = ⟨request, rest⟩ := by simpa [Pool.setCall] using found'.symm
      rw [now]
      exact balanced
    · have old : p.calls i = some call := by simpa [Pool.setCall, same] using found'
      simpa only [others i same] using h.balanced i call old
  · intro i owns
    by_cases same : i = id
    · simp [Pool.setCall, same]
    · simpa [Pool.setCall, same] using h.inProgress i ((others i same).mp owns)

/-- One operation of a balanced call, with a reply that is allowed. -/
theorem Held.advance {p p' : Pool Id τ Op α σ} {id : Id} {outcome : ι}
    (guards : Guards use perform owner) (h : Held use allowed owner p)
    (reply : ∀ request β (op : Op β) next b s', p.calls id = some ⟨request, .call op next⟩ →
      perform id op outcome p.world = some (b, s') → allowed op b)
    (taken : p.step body (fun id => Procedure.advance (perform id))
      (.advance id outcome) = some p') : Held use allowed owner p' := by
  obtain ⟨⟨request, rest⟩, rest', world, found, moved, rfl⟩ := Pool.advance_cases taken
  cases rest with
  | ret value => cases moved
  | call op next =>
    obtain ⟨b, performed, rfl⟩ := Procedure.advance_call moved
    have allow := reply request _ op next b world found performed
    have before := h.balanced id _ found
    unfold Balanced at before
    cases hu : use op with
    | acquire =>
      obtain ⟨free, owns⟩ := guards.acquire hu performed
      rw [hu] at before
      apply h.moved found
      · simpa [owns] using before.2 b allow
      · intro i other
        simp [free, owns, Ne.symm other]
    | release =>
      have released := guards.release hu performed
      rw [hu] at before
      have owned : owner p.world = some id := by simpa using before.1
      apply h.moved found
      · simpa [released] using before.2 b allow
      · intro i other
        simp [owned, released, Ne.symm other]
    | other =>
      have kept := guards.other hu performed
      rw [hu] at before
      apply h.moved found
      · simpa [kept] using before b allow
      · intro i _
        rw [kept]

/-- The mutex is released by its owner. -/
theorem Held.owns_of_release {p : Pool Id τ Op α σ} (h : Held use allowed owner p) {id : Id}
    {request : τ} {β : Type} {op : Op β} {next : β → Procedure Op α}
    (found : p.calls id = some ⟨request, .call op next⟩) (releases : use op = .release) :
    owner p.world = some id := by
  have balanced := h.balanced id _ found
  unfold Balanced at balanced
  rw [releases] at balanced
  simpa using balanced.1

theorem Held.free_of_idle {p : Pool Id τ Op α σ} (h : Held use allowed owner p)
    (idle : ∀ id, p.calls id = none) : owner p.world = none := by
  cases owned : owner p.world with
  | none => rfl
  | some id => exact absurd (idle id) (h.inProgress id owned)

end Pools

section Sections
variable (perform : {β : Type} → Op β → ι → σ → Option (β × σ))

/-- Up to and with the operation that releases the mutex. -/
def untilRelease : Procedure Op α → ι → σ → Option (Procedure Op α × σ)
  | .ret value, _, s => some (.ret value, s)
  | .call op next, i, s =>
    (perform op i s).bind fun r =>
      if use op = .release then some (next r.1, r.2) else untilRelease (next r.1) i r.2

/-- One operation, or a whole critical section. -/
def atomically : Procedure Op α → ι → σ → Option (Procedure Op α × σ)
  | .ret _, _, _ => none
  | .call op next, i, s =>
    (perform op i s).bind fun r =>
      if use op = .acquire then untilRelease use perform (next r.1) i r.2
      else some (next r.1, r.2)

end Sections

end Vidsilo.Library.Mutex
