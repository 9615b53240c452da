import Vidsilo.Library.Transition
import Mathlib.Logic.Function.Basic

/-!
# The transcode slot of an entry

Source: internal/jobs/jobs.go:55-105 (`entrySem`, `acquireTranscodeSem`).

Any number of calls are in progress, and their steps interleave as they like. What a call
does between `transcodeMu.Lock` and `Unlock` is one step; a send on the channel, a receive
from it and the end of a context are steps of their own. A `nil` map reads as an empty
one, so it is not told apart from it. A pointer to an `entrySem` is a number, and
semaphores that nothing points to any more stay where they are.
-/
namespace Vidsilo.Jobs.TranscodeSlots
open Library.Transition

structure EntrySem where
  /-- The token is in the channel. -/
  ch : Bool
  active : Int
  deriving DecidableEq, Repr

inductive Phase where
  /-- In the select. -/
  | waiting
  /-- The token is sent; the caller has the release function. -/
  | holding
  /-- The token is received back, the counter not yet lowered. -/
  | releasing
  | released
  /-- The select took `ctx.Done`, the counter is not yet lowered. -/
  | cancelling
  | cancelled
  deriving DecidableEq, Repr

structure Caller where
  entryID : Int
  /-- The semaphore that the call found or made. -/
  sem : Nat
  phase : Phase
  deriving DecidableEq, Repr

structure Runner where
  sems : Nat → EntrySem
  /-- The semaphores made so far. -/
  made : Nat
  transcodeSems : Int → Option Nat
  callers : List Caller

/-- No call yet. -/
def new : Runner := ⟨fun _ => ⟨false, 0⟩, 0, fun _ => none, []⟩

inductive Action where
  /-- The first locked section of a new call. -/
  | call (entryID : Int)
  /-- The select sends the token. -/
  | acquire (caller : Nat)
  /-- The context has ended and the select takes it. -/
  | cancel (caller : Nat)
  /-- The release function is called, for the first time or again. -/
  | release (caller : Nat)
  /-- The last locked section of a call. -/
  | leave (caller : Nat)

/-- `active++` on the semaphore of the map. -/
def Runner.join (r : Runner) (entryID : Int) (p : Nat) : Runner :=
  { r with
    sems := Function.update r.sems p { r.sems p with active := (r.sems p).active + 1 }
    callers := r.callers ++ [⟨entryID, p, .waiting⟩] }

/-- A new semaphore in the map, with one active caller. -/
def Runner.make (r : Runner) (entryID : Int) : Runner where
  sems := Function.update r.sems r.made ⟨false, 1⟩
  made := r.made + 1
  transcodeSems := Function.update r.transcodeSems entryID (some r.made)
  callers := r.callers ++ [⟨entryID, r.made, .waiting⟩]

def Runner.enter (r : Runner) (entryID : Int) : Runner :=
  match r.transcodeSems entryID with
  | some p => r.join entryID p
  | none => r.make entryID

/-- The caller moves to a phase, and its channel is left as given. -/
def Runner.move (r : Runner) (i : Nat) (c : Caller) (ch : Bool) (phase : Phase) : Runner :=
  { r with
    sems := Function.update r.sems c.sem { r.sems c.sem with ch := ch }
    callers := r.callers.set i { c with phase := phase } }

/-- `active--`, and the delete when that was the last. -/
def Runner.leave (r : Runner) (i : Nat) (c : Caller) (phase : Phase) : Runner :=
  let active := (r.sems c.sem).active - 1
  { r with
    sems := Function.update r.sems c.sem { r.sems c.sem with active := active }
    transcodeSems :=
      if active = 0 then Function.update r.transcodeSems c.entryID none else r.transcodeSems
    callers := r.callers.set i { c with phase := phase } }

def step (r : Runner) : Action → Option Runner
  | .call entryID => some (r.enter entryID)
  | .acquire i =>
    match r.callers[i]? with
    | some c =>
      if c.phase = .waiting ∧ (r.sems c.sem).ch = false then some (r.move i c true .holding)
      else none
    | none => none
  | .cancel i =>
    match r.callers[i]? with
    | some c =>
      if c.phase = .waiting then some (r.move i c (r.sems c.sem).ch .cancelling) else none
    | none => none
  | .release i =>
    match r.callers[i]? with
    | some c =>
      match c.phase with
      -- Blocks while the channel is empty.
      | .holding => if (r.sems c.sem).ch then some (r.move i c false .releasing) else none
      -- `once.Do` runs nothing again.
      | .releasing | .released => some r
      | .waiting | .cancelling | .cancelled => none
    | none => none
  | .leave i =>
    match r.callers[i]? with
    | some c =>
      match c.phase with
      | .releasing => some (r.leave i c .released)
      | .cancelling => some (r.leave i c .cancelled)
      | .waiting | .holding | .released | .cancelled => none
    | none => none

/-- Between the first and the last locked section of the call. -/
def Phase.counted : Phase → Bool
  | .released | .cancelled => false
  | _ => true

def Phase.holds : Phase → Bool
  | .holding => true
  | _ => false

def Phase.holdsOrWaits : Phase → Bool
  | .holding | .waiting => true
  | _ => false

/-- On the way to the last locked section. -/
def Phase.leaving : Phase → Bool
  | .releasing | .cancelling => true
  | _ => false

def Caller.among (entryID : Int) (phases : Phase → Bool) (c : Caller) : Bool :=
  c.entryID = entryID && phases c.phase

/-- The callers of the entry in one of the phases. -/
def Runner.among (r : Runner) (entryID : Int) (phases : Phase → Bool) : Nat :=
  r.callers.countP (Caller.among entryID phases)

def Runner.phases (r : Runner) : List Phase := r.callers.map (·.phase)

/-- The counter of the entry: that of its map entry, zero when there is none. -/
def Runner.counter (r : Runner) (entryID : Int) : Int :=
  match r.transcodeSems entryID with
  | some p => (r.sems p).active
  | none => 0

theorem countP_set_add {α : Type} {p : α → Bool} {l : List α} {i : Nat} {a b : α}
    (found : l[i]? = some a) :
    (l.set i b).countP p + (if p a then 1 else 0) = l.countP p + (if p b then 1 else 0) := by
  obtain ⟨bound, rfl⟩ := List.getElem?_eq_some_iff.mp found
  rw [List.countP_set bound]
  have counted : p l[i] = true → 0 < l.countP p := fun h =>
    List.countP_pos_iff.mpr ⟨l[i], List.getElem_mem bound, h⟩
  split <;> grind

/-- A caller changes its phase, and the numbers of its entry with it. -/
theorem among_set {r s : Runner} {i : Nat} {c : Caller} {phase : Phase}
    (found : r.callers[i]? = some c) (moved : s.callers = r.callers.set i { c with phase := phase })
    (e : Int) (phases : Phase → Bool) :
    s.among e phases + (if c.entryID = e ∧ phases c.phase then 1 else 0) =
      r.among e phases + (if c.entryID = e ∧ phases phase then 1 else 0) := by
  have counted := countP_set_add (p := Caller.among e phases) (b := { c with phase := phase }) found
  rw [← moved] at counted
  simpa [Caller.among, Runner.among] using counted

theorem among_append {r s : Runner} {c : Caller} (more : s.callers = r.callers ++ [c]) (e : Int)
    (phases : Phase → Bool) :
    s.among e phases =
      r.among e phases + (if c.entryID = e ∧ phases c.phase then 1 else 0) := by
  simp [Runner.among, more, Caller.among, List.countP_append, List.countP_singleton]

theorem among_pos {r : Runner} {c : Caller} {phases : Phase → Bool} (mem : c ∈ r.callers)
    (phase : phases c.phase) : 0 < r.among c.entryID phases :=
  List.countP_pos_iff.mpr ⟨c, mem, by simp [Caller.among, phase]⟩

structure Inv (r : Runner) : Prop where
  /-- A counted caller uses the semaphore in the map. -/
  shared : ∀ c ∈ r.callers, c.phase.counted → r.transcodeSems c.entryID = some c.sem
  separate : ∀ e e' p, r.transcodeSems e = some p → r.transcodeSems e' = some p → e = e'
  made : ∀ e p, r.transcodeSems e = some p → p < r.made
  active : ∀ e p, r.transcodeSems e = some p →
    (r.sems p).active = r.among e Phase.counted ∧ 0 < r.among e Phase.counted
  ch : ∀ e p, r.transcodeSems e = some p →
    (if (r.sems p).ch then 1 else 0) = r.among e Phase.holds

theorem inv_new : Inv new where
  shared := by simp [new]
  separate := by simp [new]
  made := by simp [new]
  active := by simp [new]
  ch := by simp [new]

theorem among_eq_zero {r : Runner} {e : Int} (inv : Inv r) (missing : r.transcodeSems e = none) :
    r.among e Phase.counted = 0 := by
  refine List.countP_eq_zero.mpr fun c mem counts => ?_
  simp only [Caller.among, Bool.and_eq_true, decide_eq_true_eq] at counts
  have here := inv.shared c mem counts.2
  rw [counts.1, missing] at here
  cases here

theorem holds_le_counted (r : Runner) (e : Int) :
    r.among e Phase.holds ≤ r.among e Phase.counted := by
  refine List.countP_mono_left fun c _ h => ?_
  simp only [Caller.among, Bool.and_eq_true, decide_eq_true_eq] at h ⊢
  refine ⟨h.1, ?_⟩
  revert h
  cases c.phase <;> simp [Phase.holds, Phase.counted]

theorem Inv.join {r : Runner} (inv : Inv r) {entryID : Int} {p : Nat}
    (here : r.transcodeSems entryID = some p) : Inv (r.join entryID p) where
  shared c mem counts := by
    rcases List.mem_append.mp mem with old | last
    · exact inv.shared c old counts
    · obtain rfl := List.mem_singleton.mp last
      exact here
  separate := inv.separate
  made := inv.made
  active e q found := by
    have before := inv.active e q found
    rw [among_append (s := r.join entryID p) rfl]
    by_cases same : e = entryID
    · subst same
      obtain rfl := Option.some.inj (here.symm.trans found)
      simp only [Runner.join, Function.update_self, Phase.counted, and_true, if_true]
      omega
    · have other : q ≠ p := fun h => same (inv.separate _ _ _ (h ▸ found) here)
      simpa [Runner.join, Function.update_of_ne other, Ne.symm same] using before
  ch e q found := by
    have before := inv.ch e q found
    rw [among_append (s := r.join entryID p) rfl]
    by_cases other : q = p
    · subst other
      simpa [Runner.join, Phase.holds] using before
    · simpa [Runner.join, Function.update_of_ne other, Phase.holds] using before

theorem make_cases {r : Runner} (inv : Inv r) {entryID e : Int} {q : Nat}
    (found : (r.make entryID).transcodeSems e = some q) :
    (e = entryID ∧ q = r.made) ∨ (e ≠ entryID ∧ q ≠ r.made ∧ r.transcodeSems e = some q) := by
  simp only [Runner.make, Function.update_apply] at found
  split at found
  · next same => exact .inl ⟨same, (Option.some.inj found).symm⟩
  · next ne => exact .inr ⟨ne, Nat.ne_of_lt (inv.made e q found), found⟩

theorem Inv.make {r : Runner} (inv : Inv r) {entryID : Int}
    (missing : r.transcodeSems entryID = none) : Inv (r.make entryID) where
  shared c mem counts := by
    rcases List.mem_append.mp mem with old | last
    · have here := inv.shared c old counts
      have ne : c.entryID ≠ entryID := by
        intro same
        rw [same, missing] at here
        cases here
      exact (Function.update_of_ne ne _ _).trans here
    · obtain rfl := List.mem_singleton.mp last
      exact Function.update_self ..
  separate e e' q found found' := by
    rcases make_cases inv found with ⟨rfl, rfl⟩ | ⟨_, ne, old⟩
    · rcases make_cases inv found' with ⟨rfl, _⟩ | ⟨_, ne, _⟩
      · rfl
      · exact absurd rfl ne
    · rcases make_cases inv found' with ⟨_, same⟩ | ⟨_, _, old'⟩
      · exact absurd same ne
      · exact inv.separate e e' q old old'
  made e q found := by
    rcases make_cases inv found with ⟨_, rfl⟩ | ⟨_, _, old⟩
    · exact Nat.lt_succ_self _
    · exact Nat.lt_succ_of_lt (inv.made e q old)
  active e q found := by
    rw [among_append (s := r.make entryID) rfl]
    rcases make_cases inv found with ⟨rfl, rfl⟩ | ⟨other, ne, old⟩
    · simp [Runner.make, among_eq_zero inv missing, Phase.counted]
    · simpa [Runner.make, Function.update_of_ne ne, Ne.symm other] using inv.active e q old
  ch e q found := by
    rw [among_append (s := r.make entryID) rfl]
    rcases make_cases inv found with ⟨rfl, rfl⟩ | ⟨other, ne, old⟩
    · have few := holds_le_counted r e
      rw [among_eq_zero inv missing] at few
      simp [Runner.make, Nat.le_zero.mp few, Phase.holds]
    · simpa [Runner.make, Function.update_of_ne ne, Phase.holds] using inv.ch e q old

theorem Inv.enter {r : Runner} (inv : Inv r) (entryID : Int) : Inv (r.enter entryID) := by
  unfold Runner.enter
  split
  · next p here => exact inv.join here
  · next missing => exact inv.make missing

/-- The channel is full after the move exactly if the caller or another then holds the slot. -/
theorem Inv.move {r : Runner} (inv : Inv r) {i : Nat} {c : Caller} {ch : Bool} {phase : Phase}
    (found : r.callers[i]? = some c) (before : c.phase.counted) (after : phase.counted)
    (token : (if ch then 1 else 0) + (if c.phase.holds then 1 else 0) =
      (if (r.sems c.sem).ch then 1 else 0) + (if phase.holds then 1 else 0)) :
    Inv (r.move i c ch phase) where
  shared x mem counts := by
    rcases List.mem_or_eq_of_mem_set mem with old | rfl
    · exact inv.shared x old counts
    · exact inv.shared c (List.mem_of_getElem? found) before
  separate := inv.separate
  made := inv.made
  active e p here := by
    have numbers := among_set (s := r.move i c ch phase) found rfl e Phase.counted
    simp only [before, after, and_true, Nat.add_right_cancel_iff] at numbers
    have same : ((r.move i c ch phase).sems p).active = (r.sems p).active := by
      by_cases h : p = c.sem
      · subst h
        simp [Runner.move]
      · simp [Runner.move, Function.update_of_ne h]
    rw [numbers, same]
    exact inv.active e p here
  ch e p here := by
    have numbers := among_set (s := r.move i c ch phase) found rfl e Phase.holds
    have old := inv.ch e p here
    have own := inv.shared c (List.mem_of_getElem? found) before
    by_cases h : c.entryID = e
    · subst h
      obtain rfl := Option.some.inj (own.symm.trans here)
      simp only [Runner.move, Function.update_self, true_and] at numbers ⊢
      omega
    · have ne : p ≠ c.sem := fun same => h (inv.separate _ _ _ own (same ▸ here))
      simp only [h, false_and, if_false, Nat.add_zero] at numbers
      rw [numbers, ← old]
      simp [Runner.move, Function.update_of_ne ne]

theorem leave_cases {r : Runner} {i : Nat} {c : Caller} {phase : Phase} {e : Int} {p : Nat}
    (found : (r.leave i c phase).transcodeSems e = some p) :
    r.transcodeSems e = some p ∧ (e = c.entryID → (r.sems c.sem).active ≠ 1) := by
  simp only [Runner.leave] at found
  split at found
  · next last =>
    rw [Function.update_apply] at found
    split at found
    · cases found
    · next ne => exact ⟨found, fun same => absurd same ne⟩
  · next more => exact ⟨found, fun _ one => more (by omega)⟩

/-- The map entry goes with the last counted caller. -/
theorem Inv.leave {r : Runner} (inv : Inv r) {i : Nat} {c : Caller} {phase : Phase}
    (found : r.callers[i]? = some c) (before : c.phase.counted) (free : c.phase.holds = false)
    (after : phase.counted = false) (gone : phase.holds = false) : Inv (r.leave i c phase) := by
  have own := inv.shared c (List.mem_of_getElem? found) before
  have lowered := inv.active c.entryID c.sem own
  have numbers := among_set (s := r.leave i c phase) found rfl
  refine ⟨?_, ?_, ?_, ?_, ?_⟩
  · intro x mem counts
    have old : r.transcodeSems x.entryID = some x.sem := by
      rcases List.mem_or_eq_of_mem_set mem with old | rfl
      · exact inv.shared x old counts
      · rw [after] at counts
        cases counts
    have left := numbers x.entryID Phase.counted
    have here := among_pos mem counts
    simp only [Runner.leave]
    split
    · next last =>
      rw [Function.update_apply, if_neg, old]
      intro same
      rw [same] at left here
      simp only [before, after, true_and, Bool.false_eq_true, if_true, if_false] at left
      omega
    · exact old
  · intro e e' p here here'
    exact inv.separate e e' p (leave_cases here).1 (leave_cases here').1
  · intro e p here
    exact inv.made e p (leave_cases here).1
  · intro e p here
    obtain ⟨here, more⟩ := leave_cases here
    have left := numbers e Phase.counted
    have old := inv.active e p here
    by_cases h : e = c.entryID
    · subst h
      obtain rfl := Option.some.inj (own.symm.trans here)
      have several := more rfl
      simp only [before, after, true_and, Bool.false_eq_true, if_true, if_false] at left
      have down : ((r.leave i c phase).sems c.sem).active = (r.sems c.sem).active - 1 := by
        simp [Runner.leave]
      omega
    · have ne : p ≠ c.sem := fun same => h (inv.separate _ _ _ (same ▸ here) own)
      simp only [Ne.symm h, false_and, if_false, Nat.add_zero] at left
      rw [left]
      simpa [Runner.leave, Function.update_of_ne ne] using old
  · intro e p here
    obtain ⟨here, _⟩ := leave_cases here
    have left := numbers e Phase.holds
    simp only [free, gone, Bool.false_eq_true, and_false, if_false, Nat.add_zero] at left
    rw [left, ← inv.ch e p here]
    by_cases h : p = c.sem
    · subst h
      simp [Runner.leave]
    · simp [Runner.leave, Function.update_of_ne h]

theorem inv_step {r r' : Runner} {a : Action} (inv : Inv r) (h : step r a = some r') : Inv r' := by
  cases a with
  | call entryID =>
    cases h
    exact inv.enter entryID
  | acquire i =>
    simp only [step] at h
    split at h
    · next c found =>
      split at h
      · next free =>
        cases h
        refine inv.move found ?_ rfl ?_
        · rw [free.1]
          rfl
        · rw [free.1, free.2]
          rfl
      · cases h
    · cases h
  | cancel i =>
    simp only [step] at h
    split at h
    · next c found =>
      split at h
      · next waits =>
        cases h
        refine inv.move found ?_ rfl ?_
        · rw [waits]
          rfl
        · rw [waits]
          rfl
      · cases h
    · cases h
  | release i =>
    simp only [step] at h
    split at h
    · next c found =>
      split at h
      · next holds =>
        split at h
        · next full =>
          cases h
          refine inv.move found ?_ rfl ?_
          · rw [holds]
            rfl
          · rw [holds, full]
            rfl
        · cases h
      all_goals cases h
      all_goals exact inv
    · cases h
  | leave i =>
    simp only [step] at h
    split at h
    · next c found =>
      split at h
      · next phase =>
        cases h
        exact inv.leave found (by rw [phase]; rfl) (by rw [phase]; rfl) rfl rfl
      · next phase =>
        cases h
        exact inv.leave found (by rw [phase]; rfl) (by rw [phase]; rfl) rfl rfl
      all_goals cases h
    · cases h

theorem inv_run {trace : List Action} {r : Runner} (h : Run step Always new trace r) : Inv r :=
  h.invariant Inv inv_new fun _ _ _ inv _ taken => inv_step inv taken

structure Exclusive (r : Runner) (e : Int) : Prop where
  one : r.among e Phase.holds ≤ 1
  counter : r.counter e = r.among e Phase.holdsOrWaits + r.among e Phase.leaving
  mapped : (r.transcodeSems e).isSome = true ↔ 0 < r.counter e
  /-- No counted caller uses a semaphore that the map has lost. -/
  shared : ∀ c ∈ r.callers, c.entryID = e → c.phase.counted → r.transcodeSems e = some c.sem
  /-- The receive of a release finds the token. -/
  released : ∀ i c, r.callers[i]? = some c → c.entryID = e → c.phase = .holding →
    (step r (.release i)).isSome = true

theorem counted_split (r : Runner) (e : Int) :
    r.among e Phase.counted = r.among e Phase.holdsOrWaits + r.among e Phase.leaving := by
  simp only [Runner.among]
  induction r.callers with
  | nil => rfl
  | cons c rest ih =>
    simp only [List.countP_cons, ih, Caller.among, Bool.and_eq_true, decide_eq_true_eq]
    cases c.phase <;> simp [Phase.counted, Phase.holdsOrWaits, Phase.leaving] <;> omega

theorem counter_eq {r : Runner} (inv : Inv r) (e : Int) :
    r.counter e = r.among e Phase.counted := by
  unfold Runner.counter
  split
  · next p here => exact (inv.active e p here).1
  · next missing => rw [among_eq_zero inv missing, Int.ofNat_zero]

theorem holds_le_one {r : Runner} (inv : Inv r) (e : Int) : r.among e Phase.holds ≤ 1 := by
  cases here : r.transcodeSems e with
  | none =>
    have few := holds_le_counted r e
    have none := among_eq_zero inv here
    omega
  | some p =>
    rw [← inv.ch e p here]
    split <;> omega

theorem full_of_holding {r : Runner} (inv : Inv r) {c : Caller} (mem : c ∈ r.callers)
    (holds : c.phase = .holding) : (r.sems c.sem).ch = true := by
  have counts : c.phase.counted = true := by
    rw [holds]
    rfl
  have token := inv.ch _ _ (inv.shared c mem counts)
  have held : 0 < r.among c.entryID Phase.holds := by
    refine among_pos mem ?_
    rw [holds]
    rfl
  split at token
  · assumption
  · omega

/-- In every interleaving of calls, cancellations and releases, at most one caller holds
the slot of an entry; its counter is the number of callers that hold the slot, wait for it
or have still to lower the counter; and the map entry is there exactly while the counter
is positive, so that all these callers use one semaphore. -/
theorem slot_exclusive {trace : List Action} {r : Runner} (h : Run step Always new trace r)
    (e : Int) : Exclusive r e := by
  have inv := inv_run h
  refine ⟨holds_le_one inv e, ?_, ?_, ?_, ?_⟩
  · rw [counter_eq inv, counted_split, Int.natCast_add]
  · rw [counter_eq inv]
    cases here : r.transcodeSems e with
    | none => simp [among_eq_zero inv here]
    | some p => simpa using (inv.active e p here).2
  · rintro c mem rfl counts
    exact inv.shared c mem counts
  · intro i c found _ holds
    have full := full_of_holding inv (List.mem_of_getElem? found) holds
    simp [step, found, holds, full]

/-- The slot passes to a caller that waited, and the first release is called twice. -/
theorem slot_exclusive_handed_over :
    ∃ r, Run step Always new
      [.call 7, .acquire 0, .call 7, .call 8, .release 0, .acquire 1, .leave 0, .release 0] r ∧
    r.phases = [.released, .holding, .waiting] ∧ Exclusive r 7 := by
  have hrun : ∃ r, Run step Always new
      [.call 7, .acquire 0, .call 7, .call 8, .release 0, .acquire 1, .leave 0, .release 0] r ∧
      decide (r.phases = [.released, .holding, .waiting]) = true :=
    exists_always (by decide)
  obtain ⟨r, run, phases⟩ := hrun
  exact ⟨r, run, of_decide_eq_true phases, slot_exclusive run 7⟩

/-- Between the receive of a release and the locked section after it, the counter is one
and no caller holds the slot or waits for it. If the caller were still said to hold it,
the next caller would hold it at the same time. -/
theorem released_still_counted :
    (∃ r, Run step Always new [.call 7, .acquire 0, .release 0] r ∧
      r.counter 7 = 1 ∧ r.among 7 Phase.holdsOrWaits = 0) ∧
    ∃ r, Run step Always new [.call 7, .acquire 0, .call 7, .release 0, .acquire 1] r ∧
      r.phases = [.releasing, .holding] := by
  have hcounter : ∃ r, Run step Always new [.call 7, .acquire 0, .release 0] r ∧
      decide (r.counter 7 = 1 ∧ r.among 7 Phase.holdsOrWaits = 0) = true :=
    exists_always (by decide)
  have htwo : ∃ r, Run step Always new [.call 7, .acquire 0, .call 7, .release 0, .acquire 1] r ∧
      decide (r.phases = [.releasing, .holding]) = true :=
    exists_always (by decide)
  obtain ⟨r, run, numbers⟩ := hcounter
  obtain ⟨r', run', phases⟩ := htwo
  exact ⟨⟨r, run, of_decide_eq_true numbers⟩, r', run', of_decide_eq_true phases⟩

end Vidsilo.Jobs.TranscodeSlots
