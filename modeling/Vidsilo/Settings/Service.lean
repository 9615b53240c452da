import Mathlib.Logic.Function.Basic
import Vidsilo.Library.Transition

/-!
# Settings in memory

Source: internal/settings/settings.go (Service, New, Reload, Update, the accessors). A statement
on the database is one step, and so is a section under `mu`, which is also the last one of its
call. Values are JSON values. No other node writes.
-/
namespace Vidsilo.Settings.Service
open Library.Transition

/-- The value of a key, if it has one, and how many calls of `Update` had written it by then. The
count is for the proofs only. -/
structure Row (V : Type) where
  value : Option V
  version : Nat
  deriving DecidableEq, Repr

inductive UpdatePhase where
  | called
  /-- The statement has run. -/
  | wrote (version : Nat)
  | returned (version : Nat)
  | failed
  deriving DecidableEq, Repr

inductive ReloadPhase (Key V : Type) where
  | called
  /-- The rows have been read. -/
  | read (cache : Key → Row V)
  | returned
  | failed

inductive Call (Key V : Type) where
  | update (key : Key) (value : V) (phase : UpdatePhase)
  | reload (phase : ReloadPhase Key V)

def Call.isDone {Key V : Type} : Call Key V → Bool
  | .update _ _ (.returned _) => true
  | .update _ _ .failed => true
  | .reload .returned => true
  | .reload .failed => true
  | _ => false

structure State (Key V : Type) where
  /-- The settings table. -/
  table : Key → Row V
  cache : Key → Row V
  calls : List (Call Key V)

variable {Key V : Type}

/-- After `New`. -/
def new (settings : Key → Option V) : State Key V where
  table key := ⟨settings key, 0⟩
  cache key := ⟨settings key, 0⟩
  calls := []

def Row.read {α : Type} (row : Row V) (decode : V → Option α) (dflt : α) : α :=
  match row.value with
  | some v => (decode v).getD dflt
  | none => dflt

/-- `String`, `Bool`, `Int`, `Int64` and `StringSlice`, each with its decoder. -/
def State.accessor {α : Type} (s : State Key V) (decode : V → Option α) (key : Key) (dflt : α) :
    α :=
  (s.cache key).read decode dflt

def State.setCall (s : State Key V) (i : Nat) (call : Call Key V) : State Key V :=
  { s with calls := s.calls.set i call }

inductive Action (Key V : Type) where
  | update (key : Key) (value : V)
  /-- The INSERT of an `Update`. -/
  | exec (i : Nat) (ok : Bool)
  /-- `s.cache[key] = value`. -/
  | assign (i : Nat)
  | reload
  /-- The SELECT of a `Reload`. -/
  | select (i : Nat) (ok : Bool)
  /-- `s.cache = cache`. -/
  | swap (i : Nat)
  deriving DecidableEq, Repr

variable [DecidableEq Key]

def step (s : State Key V) : Action Key V → Option (State Key V)
  | .update key value => some { s with calls := s.calls ++ [.update key value .called] }
  | .exec i ok =>
    s.calls[i]?.bind fun
      | .update key value .called =>
        if ok then
          let version := (s.table key).version + 1
          some { s.setCall i (.update key value (.wrote version)) with
            table := Function.update s.table key ⟨some value, version⟩ }
        else some (s.setCall i (.update key value .failed))
      | _ => none
  | .assign i =>
    s.calls[i]?.bind fun
      | .update key value (.wrote version) =>
        some { s.setCall i (.update key value (.returned version)) with
          cache := Function.update s.cache key ⟨some value, version⟩ }
      | _ => none
  | .reload => some { s with calls := s.calls ++ [.reload .called] }
  | .select i ok =>
    s.calls[i]?.bind fun
      | .reload .called => some (s.setCall i (.reload (if ok then .read s.table else .failed)))
      | _ => none
  | .swap i =>
    s.calls[i]?.bind fun
      | .reload (.read cache) => some { s.setCall i (.reload .returned) with cache := cache }
      | _ => none

/-- No `Update` or `Reload` is in progress. -/
def Quiet (s : State Key V) : Prop := ∀ call ∈ s.calls, call.isDone = true

structure Current (s : State Key V) : Prop where
  settled : Quiet s → ∀ key, (s.cache key).value = (s.table key).value
  /-- What the accessors read is what an `Update` that returned wrote, or newer. -/
  fresh : ∀ key value version, .update key value (.returned version) ∈ s.calls →
    version ≤ (s.cache key).version

/-- Every `Update` of the key that has returned wrote no later than this version. -/
def Newest (s : State Key V) (key : Key) (version : Nat) : Prop :=
  ∀ value returned, .update key value (.returned returned) ∈ s.calls → returned ≤ version

/-- What is put in the cache is not older than what an `Update` has put there. -/
def InOrder (s : State Key V) : Action Key V → Prop
  | .assign i => ∀ key value version, s.calls[i]? = some (.update key value (.wrote version)) →
      Newest s key version
  | .swap i => ∀ cache, s.calls[i]? = some (.reload (.read cache)) →
      ∀ key, Newest s key (cache key).version
  | _ => True

/-- The same row, or an earlier one. -/
def Behind (row latest : Row V) : Prop := row = latest ∨ row.version < latest.version

omit [DecidableEq Key] in
theorem Behind.le {row latest : Row V} (h : Behind row latest) : row.version ≤ latest.version := by
  obtain rfl | lt := h
  · exact Nat.le_refl _
  · exact Nat.le_of_lt lt

/-- The table moves on. -/
theorem Behind.write {row : Row V} {table : Key → Row V} {key : Key} (h : Behind row (table key))
    (written : Key) (value : V) :
    Behind row (Function.update table written
      ⟨some value, (table written).version + 1⟩ key) := by
  by_cases here : key = written
  · subst here
    rw [Function.update_self]
    exact .inr (Nat.lt_succ_of_le h.le)
  · rw [Function.update_of_ne here]
    exact h

/-- What a call knows of the table. -/
def Call.Tracked (table : Key → Row V) : Call Key V → Prop
  | .update key value (.wrote version) => Behind ⟨some value, version⟩ (table key)
  | .reload (.read cache) => ∀ key, Behind (cache key) (table key)
  | _ => True

theorem Call.Tracked.write {table : Key → Row V} {call : Call Key V} (h : call.Tracked table)
    (written : Key) (value : V) :
    call.Tracked (Function.update table written ⟨some value, (table written).version + 1⟩) := by
  unfold Call.Tracked at *
  split <;> simp only at h
  · exact h.write written value
  · exact fun key => (h key).write written value
  · trivial

/-- The call has written this version of the key. -/
def Call.Wrote (key : Key) (version : Nat) : Call Key V → Prop
  | .update k _ (.wrote v) => k = key ∧ v = version
  | .update k _ (.returned v) => k = key ∧ v = version
  | _ => False

structure Tracked (s : State Key V) : Prop where
  cache : ∀ key, Behind (s.cache key) (s.table key)
  calls : ∀ call ∈ s.calls, call.Tracked s.table
  /-- The `Update` that wrote the table last has returned or will put its value in the cache. -/
  latest : ∀ key, (s.table key).version = 0 ∨ ∃ call ∈ s.calls, call.Wrote key (s.table key).version
  fresh : ∀ key value version, .update key value (.returned version) ∈ s.calls →
    version ≤ (s.cache key).version

omit [DecidableEq Key] in
theorem tracked_new (settings : Key → Option V) : Tracked (new settings) where
  cache key := .inl rfl
  calls call mem := by simp [new] at mem
  latest key := .inl rfl
  fresh key value version mem := by simp [new] at mem

omit [DecidableEq Key] in
theorem Tracked.current {s : State Key V} (h : Tracked s) : Current s := by
  refine ⟨fun quiet key => ?_, h.fresh⟩
  have reached : (s.table key).version ≤ (s.cache key).version := by
    obtain initial | ⟨call, mem, wrote⟩ := h.latest key
    · omega
    · have done := quiet call mem
      unfold Call.Wrote at wrote
      split at wrote
      · simp [Call.isDone] at done
      · next k value version =>
        obtain ⟨rfl, rfl⟩ := wrote
        exact h.fresh k value _ mem
      · exact wrote.elim
  obtain same | older := h.cache key
  · rw [same]
  · omega

omit [DecidableEq Key] in
theorem Current.accessor {α : Type} {s : State Key V} (h : Current s) (quiet : Quiet s)
    (decode : V → Option α) (key : Key) (dflt : α) :
    s.accessor decode key dflt = (s.table key).read decode dflt := by
  unfold State.accessor Row.read
  rw [h.settled quiet key]

omit [DecidableEq Key] in
/-- The writer of a version is still there when a call goes on. -/
theorem wrote_set {calls : List (Call Key V)} {i version : Nat} {old call : Call Key V} {key : Key}
    (found : calls[i]? = some old) (keeps : old.Wrote key version → call.Wrote key version)
    (h : ∃ c ∈ calls, c.Wrote key version) : ∃ c ∈ calls.set i call, c.Wrote key version := by
  obtain ⟨c, mem, wrote⟩ := h
  obtain ⟨j, at_j⟩ := List.getElem?_of_mem mem
  by_cases here : j = i
  · subst here
    cases found.symm.trans at_j
    have inside := (List.getElem?_eq_some_iff.mp found).1
    exact ⟨call, List.mem_set inside call, keeps wrote⟩
  · refine ⟨c, List.mem_of_getElem? (i := j) ?_, wrote⟩
    rw [List.getElem?_set_ne (Ne.symm here), at_j]

section
variable {s s' : State Key V} {i : Nat} {old call : Call Key V}

omit [DecidableEq Key] in
theorem Tracked.start (h : Tracked s) (new : call.Tracked s.table)
    (unreturned : ∀ key value version, call ≠ .update key value (.returned version)) :
    Tracked { s with calls := s.calls ++ [call] } where
  cache := h.cache
  calls c mem := by
    obtain before | only := List.mem_append.mp mem
    · exact h.calls c before
    · exact List.mem_singleton.mp only ▸ new
  latest key := by
    obtain initial | ⟨c, mem, wrote⟩ := h.latest key
    · exact .inl initial
    · exact .inr ⟨c, List.mem_append_left _ mem, wrote⟩
  fresh key value version mem := by
    obtain before | only := List.mem_append.mp mem
    · exact h.fresh key value version before
    · exact absurd (List.mem_singleton.mp only).symm (unreturned key value version)

omit [DecidableEq Key] in
/-- A call goes on without the table and the cache. -/
theorem Tracked.replace (h : Tracked s) (found : s.calls[i]? = some old)
    (tracked : call.Tracked s.table) (unwritten : ∀ key version, ¬old.Wrote key version)
    (unreturned : ∀ key value version, call ≠ .update key value (.returned version)) :
    Tracked (s.setCall i call) where
  cache := h.cache
  calls c mem := by
    obtain before | rfl := List.mem_or_eq_of_mem_set mem
    · exact h.calls c before
    · exact tracked
  latest key := by
    obtain initial | writer := h.latest key
    · exact .inl initial
    · exact .inr (wrote_set found (fun wrote => absurd wrote (unwritten _ _)) writer)
  fresh key value version mem := by
    obtain before | same := List.mem_or_eq_of_mem_set mem
    · exact h.fresh key value version before
    · exact absurd same.symm (unreturned key value version)

theorem Tracked.exec (h : Tracked s) {key : Key} {value : V}
    (found : s.calls[i]? = some (.update key value .called)) :
    Tracked { s.setCall i (.update key value (.wrote ((s.table key).version + 1))) with
      table := Function.update s.table key ⟨some value, (s.table key).version + 1⟩ } where
  cache k := (h.cache k).write key value
  calls c mem := by
    obtain before | rfl := List.mem_or_eq_of_mem_set mem
    · exact (h.calls c before).write key value
    · simp [Call.Tracked, Behind]
  latest k := by
    by_cases here : k = key
    · subst here
      have inside := (List.getElem?_eq_some_iff.mp found).1
      refine .inr ⟨_, List.mem_set inside _, rfl, ?_⟩
      simp only [Function.update_self]
    · simp only [Function.update_of_ne here]
      obtain initial | writer := h.latest k
      · exact .inl initial
      · exact .inr (wrote_set found False.elim writer)
  fresh k v version mem := by
    obtain before | same := List.mem_or_eq_of_mem_set mem
    · exact h.fresh k v version before
    · cases same

theorem Tracked.assign (h : Tracked s) {key : Key} {value : V} {version : Nat}
    (found : s.calls[i]? = some (.update key value (.wrote version)))
    (newest : Newest s key version) :
    Tracked { s.setCall i (.update key value (.returned version)) with
      cache := Function.update s.cache key ⟨some value, version⟩ } where
  cache k := by
    by_cases here : k = key
    · subst here
      simp only [Function.update_self]
      exact h.calls _ (List.mem_of_getElem? found)
    · simp only [Function.update_of_ne here]
      exact h.cache k
  calls c mem := by
    obtain before | rfl := List.mem_or_eq_of_mem_set mem
    · exact h.calls c before
    · trivial
  latest k := by
    obtain initial | writer := h.latest k
    · exact .inl initial
    · exact .inr (wrote_set found id writer)
  fresh k v n mem := by
    by_cases here : k = key
    · subst here
      simp only [Function.update_self]
      obtain before | same := List.mem_or_eq_of_mem_set mem
      · exact newest v n before
      · cases same
        exact Nat.le_refl _
    · simp only [Function.update_of_ne here]
      obtain before | same := List.mem_or_eq_of_mem_set mem
      · exact h.fresh k v n before
      · cases same
        exact absurd rfl here

omit [DecidableEq Key] in
theorem Tracked.swap (h : Tracked s) {cache : Key → Row V}
    (found : s.calls[i]? = some (.reload (.read cache)))
    (newest : ∀ key, Newest s key (cache key).version) :
    Tracked { s.setCall i (.reload .returned) with cache := cache } where
  cache := h.calls _ (List.mem_of_getElem? found)
  calls c mem := by
    obtain before | rfl := List.mem_or_eq_of_mem_set mem
    · exact h.calls c before
    · trivial
  latest key := by
    obtain initial | writer := h.latest key
    · exact .inl initial
    · exact .inr (wrote_set found False.elim writer)
  fresh key value version mem := by
    obtain before | same := List.mem_or_eq_of_mem_set mem
    · exact newest key value version before
    · cases same

theorem Tracked.step {a : Action Key V} (h : Tracked s) (inOrder : InOrder s a)
    (taken : Service.step s a = some s') : Tracked s' := by
  cases a with
  | update key value =>
    cases taken
    exact h.start trivial (by simp)
  | exec i ok =>
    obtain ⟨call, found, taken⟩ := Option.bind_eq_some_iff.mp taken
    split at taken
    · split at taken
      · cases taken
        exact h.exec found
      · cases taken
        exact h.replace found trivial (by simp [Call.Wrote]) (by simp)
    · cases taken
  | assign i =>
    obtain ⟨call, found, taken⟩ := Option.bind_eq_some_iff.mp taken
    split at taken
    · next key value version =>
      cases taken
      exact h.assign found (inOrder key value version found)
    · cases taken
  | reload =>
    cases taken
    exact h.start trivial (by simp)
  | select i ok =>
    obtain ⟨call, found, taken⟩ := Option.bind_eq_some_iff.mp taken
    split at taken
    · cases taken
      refine h.replace found ?_ (by simp [Call.Wrote]) (by simp)
      cases ok with
      | false => trivial
      | true => exact fun key => .inl rfl
    · cases taken
  | swap i =>
    obtain ⟨call, found, taken⟩ := Option.bind_eq_some_iff.mp taken
    split at taken
    · next cache =>
      cases taken
      exact h.swap found (inOrder cache found)
    · cases taken

omit [DecidableEq Key] in
/-- An `Update` that has returned stays in the list when another call goes on. -/
theorem returned_setCall {key : Key} {value : V} {version : Nat} (found : s.calls[i]? = some old)
    (other : old.isDone = false) (mem : .update key value (.returned version) ∈ s.calls) :
    .update key value (.returned version) ∈ (s.setCall i call).calls := by
  obtain ⟨j, at_j⟩ := List.getElem?_of_mem mem
  have different : j ≠ i := by
    rintro rfl
    cases found.symm.trans at_j
    simp [Call.isDone] at other
  refine List.mem_of_getElem? (i := j) ?_
  rw [State.setCall, List.getElem?_set_ne (Ne.symm different), at_j]

/-- A step leads to a current state only if it puts nothing older in the cache. -/
theorem current_step_iff {a : Action Key V} (h : Tracked s)
    (taken : Service.step s a = some s') : Current s' ↔ InOrder s a := by
  refine ⟨fun current => ?_, fun inOrder => (h.step inOrder taken).current⟩
  cases a with
  | assign i =>
    intro key value version found value' returned mem
    obtain ⟨call, found', taken⟩ := Option.bind_eq_some_iff.mp taken
    cases found.symm.trans found'
    cases taken
    have fresh := current.fresh key value' returned (returned_setCall found rfl mem)
    simpa using fresh
  | swap i =>
    intro cache found key value' returned mem
    obtain ⟨call, found', taken⟩ := Option.bind_eq_some_iff.mp taken
    cases found.symm.trans found'
    cases taken
    exact current.fresh key value' returned (returned_setCall found rfl mem)
  | _ => trivial

/-- In a run in which nothing older is put over what an `Update` has put in the cache, the cache
is the table whenever no call is in progress, and no accessor goes back behind an `Update`. -/
theorem settings_current {settings : Key → Option V} {trace : List (Action Key V)}
    (h : Run step InOrder (new settings) trace s) : Current s := by
  have tracked : Tracked s :=
    h.invariant Tracked (tracked_new settings) fun _ _ _ tracked inOrder taken =>
      tracked.step inOrder taken
  exact tracked.current

end

/-- Nothing is set. -/
def unset : Nat → Row Nat := fun _ => ⟨none, 0⟩

/-- Key 7 has been set to 5. -/
def changed : Nat → Row Nat := Function.update unset 7 ⟨some 5, 1⟩

/-- A key is set, and then all of them are read. -/
def setAndReload : List (Action Nat Nat) :=
  [.update 7 5, .exec 0 true, .assign 0, .reload, .select 1 true, .swap 1]

theorem settings_current_reloaded : Run step InOrder (new fun _ => none) setAndReload
      ⟨changed, changed, [.update 7 5 (.returned 1), .reload .returned]⟩ ∧
    Current ⟨changed, changed, [.update 7 5 (.returned 1), .reload .returned]⟩ := by
  have wrote : Run step InOrder (new fun _ => none) [.update 7 5, .exec 0 true]
    ⟨changed, unset, [.update 7 5 (.wrote 1)]⟩ := .next (.next .start trivial rfl) trivial rfl
  have assigned : Run step InOrder (new fun _ => none) [.update 7 5, .exec 0 true, .assign 0]
    ⟨changed, changed, [.update 7 5 (.returned 1)]⟩ :=
    .next wrote (by simp [InOrder, Newest]) rfl
  have reloading : Run step InOrder (new fun _ => none)
      [.update 7 5, .exec 0 true, .assign 0, .reload]
    ⟨changed, changed, [.update 7 5 (.returned 1), .reload .called]⟩ := .next assigned trivial rfl
  have read : Run step InOrder (new fun _ => none)
      [.update 7 5, .exec 0 true, .assign 0, .reload, .select 1 true]
    ⟨changed, changed, [.update 7 5 (.returned 1), .reload (.read changed)]⟩ :=
    .next reloading trivial rfl
  have swapped : Run step InOrder (new fun _ => none) setAndReload
      ⟨changed, changed, [.update 7 5 (.returned 1), .reload .returned]⟩ := by
    refine .next read ?_ rfl
    intro cache found key value version mem
    cases found
    simp only [List.mem_cons, Call.update.injEq, UpdatePhase.returned.injEq, reduceCtorEq,
      List.not_mem_nil, or_false] at mem
    obtain ⟨rfl, rfl, rfl⟩ := mem
    exact Nat.le_refl _
  exact ⟨swapped, settings_current swapped⟩

/-- A `Reload` that read the table before an `Update` wrote it swaps the cache after it. -/
theorem staleReload_undoes : ∃ s : State Nat Nat, Run step Always (new fun _ => none)
    [.reload, .select 0 true, .update 7 5, .exec 1 true, .assign 1, .swap 0] s ∧ Quiet s ∧
    (s.table 7).value = some 5 ∧ (s.cache 7).value = none ∧ ¬Current s := by
  have run : Run step Always (new fun _ => none)
      [.reload, .select 0 true, .update 7 5, .exec 1 true, .assign 1, .swap 0]
      ⟨changed, unset, [.reload .returned, .update 7 5 (.returned 1)]⟩ :=
    always_of_exec rfl
  have quiet : Quiet (⟨changed, unset, [.reload .returned, .update 7 5 (.returned 1)]⟩ :
      State Nat Nat) := by
    simp [Quiet, Call.isDone]
  refine ⟨_, run, quiet, rfl, rfl, fun current => ?_⟩
  exact absurd (current.settled quiet 7) (by decide)

end Vidsilo.Settings.Service
