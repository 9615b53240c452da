import Vidsilo.Library.Transition
import Vidsilo.Storage.Fallback

/-!
# Migration between stores

Source: internal/store/migrate.go, cmd/vidsilo/store.go:12-30. Workers take the listed keys
from a channel and copy them one by one; the operations of different keys take turns in any
order, and each may fail. What has become of a key depends on its own operations only
(`Sound.running`, `Sound.settled`).
-/
namespace Vidsilo.Storage.Migration
open Library Library.Procedure Library.SlashPath Library.Transition Drivers Operations Fallback

variable {Id : Type}

/-- What `buildStore` returns without a settings service. -/
inductive Target (Id : Type) where
  | plain (store : Id)
  | fallback (primary legacy : Id)

namespace Target

/-- The store that new writes go to. -/
def primary : Target Id → Id
  | .plain store => store
  | .fallback primary _ => primary

def put (dst : Target Id) (key : Text) (bytes : Bytes) (size : Int) :
    Procedure (StoreOp Id) (Except StoreError Unit) :=
  match dst with
  | .plain store => ask (.put store key bytes size)
  | .fallback primary _ => fallbackPut primary key bytes size

def stat (dst : Target Id) (key : Text) : Procedure (StoreOp Id) (Except StoreError Nat) :=
  match dst with
  | .plain store => ask (.stat store key)
  | .fallback primary legacy => fallbackStat primary legacy key

end Target

structure MigrateOptions where
  workers : Int
  force : Bool
  prune : Bool

structure MigrateResult where
  copied : Nat
  skipped : Nat
  failed : Nat
  deriving DecidableEq, Repr

/-- `(copied, err)`. -/
abbrev Migrated := Bool × Option StoreError

/-- The end of `migrateKey`. -/
def pruneKey (src : Id) (key : Text) (prune : Bool) : Procedure (StoreOp Id) Migrated :=
  if prune then do
    match ← ask (.delete src key) with
    | .error err => pure (true, some err)
    | .ok _ => pure (true, none)
  else
    pure (true, none)

/-- The part of `migrateKey` after the skip test. -/
def copyKey (src : Id) (dst : Target Id) (key : Text) (prune : Bool) :
    Procedure (StoreOp Id) Migrated := do
  match ← ask (.open src key) with
  | .error err => pure (false, some err)
  | .ok rc =>
    match ← ask (.stat src key) with
    | .error err => pure (false, some err)
    | .ok fi =>
      match ← dst.put key rc fi with
      | .error err => pure (false, some err)
      | .ok _ => pruneKey src key prune

def migrateKey (src : Id) (dst : Target Id) (key : Text) (force prune : Bool) :
    Procedure (StoreOp Id) Migrated :=
  if force then
    copyKey src dst key prune
  else do
    match ← dst.stat key with
    | .ok _ => pure (false, none)
    | .error _ => copyKey src dst key prune

def body (src : Id) (dst : Target Id) (opts : MigrateOptions) (key : Text) :
    Procedure (StoreOp Id) Migrated :=
  migrateKey src dst key opts.force opts.prune

def MigrateOptions.workerCount (opts : MigrateOptions) : Nat :=
  if opts.workers ≤ 0 then 4 else opts.workers.toNat

def MigrateResult.count (res : MigrateResult) : Migrated → MigrateResult
  | (_, some _) => { res with failed := res.failed + 1 }
  | (true, none) => { res with copied := res.copied + 1 }
  | (false, none) => { res with skipped := res.skipped + 1 }

/-- `todo` are the keys that are still to be sent; a cancelled sender has closed the channel. -/
structure Migrating (Id : Type) : Type 1 where
  pool : Pool Nat Text (StoreOp Id) Migrated (Stores Id)
  todo : List Text
  result : MigrateResult
  cancelled : Bool

/-- A worker receives the next key, takes a step with it, or counts its result; the sender
sees that the context is done. -/
inductive Action where
  | take (worker : Nat)
  | advance (worker : Nat) (outcome : Outcome)
  | count (worker : Nat)
  | cancel

def start (w : Stores Id) (keys : List Text) : Migrating Id :=
  ⟨⟨w, fun _ => none⟩, keys, ⟨0, 0, 0⟩, false⟩

/-- The sender is through and every worker has ended; `Migrate` returns `nil` unless it was
cancelled. -/
def Migrating.Returned (m : Migrating Id) (opts : MigrateOptions) : Prop :=
  (m.todo = [] ∨ m.cancelled = true) ∧
    ∀ worker < opts.workerCount, (m.pool.calls worker).isNone = true

instance (m : Migrating Id) (opts : MigrateOptions) : Decidable (m.Returned opts) :=
  inferInstanceAs (Decidable (_ ∧ _))

/-- The stores agree on a key. -/
def SameAt (key : Text) (w w' : Stores Id) : Prop := ∀ s, w.object s key = w'.object s key

theorem SameAt.trans {key : Text} {u v w : Stores Id} (h : SameAt key w v) (h' : SameAt key v u) :
    SameAt key w u := fun s => (h s).trans (h' s)

/-- The operation is on the key. -/
def onKey (key : Text) : {β : Type} → StoreOp Id β → Prop
  | _, .put _ k _ _ => k = key
  | _, .open _ k => k = key
  | _, .stat _ k => k = key
  | _, .delete _ k => k = key
  | _, .list _ _ => False
  | _, .promoted => True

theorem put_eq (dst : Target Id) (key : Text) (bytes : Bytes) (size : Int) :
    dst.put key bytes size = ask (.put dst.primary key bytes size) := by
  cases dst with
  | _ => rfl

theorem uses_put (dst : Target Id) (key : Text) (bytes : Bytes) (size : Int) :
    (dst.put key bytes size).Uses (onKey key) := by
  rw [put_eq]
  exact ⟨rfl, fun _ => trivial⟩

theorem uses_stat (dst : Target Id) (key : Text) : (dst.stat key).Uses (onKey key) := by
  cases dst with
  | plain store => exact ⟨rfl, fun _ => trivial⟩
  | fallback primary legacy =>
    refine ⟨rfl, fun reply => ?_⟩
    cases reply with
    | ok fi => trivial
    | error err =>
      cases err with
      | failed => trivial
      | notFound => exact ⟨rfl, fun _ => trivial⟩

theorem uses_copyKey (src : Id) (dst : Target Id) (key : Text) (prune : Bool) :
    (copyKey src dst key prune).Uses (onKey key) := by
  refine ⟨rfl, fun opened => ?_⟩
  cases opened with
  | error err => trivial
  | ok rc =>
    refine ⟨rfl, fun info => ?_⟩
    cases info with
    | error err => trivial
    | ok fi =>
      apply uses_bind (uses_put dst key rc fi)
      intro written
      cases written with
      | error err => trivial
      | ok _ =>
        cases prune with
        | false => trivial
        | true =>
          refine ⟨rfl, fun deleted => ?_⟩
          cases deleted with
          | _ => trivial

theorem uses_body (src : Id) (dst : Target Id) (opts : MigrateOptions) (key : Text) :
    (body src dst opts key).Uses (onKey key) := by
  unfold body migrateKey
  split
  · exact uses_copyKey src dst key opts.prune
  · apply uses_bind (uses_stat dst key)
    intro info
    cases info with
    | ok fi => trivial
    | error err => exact uses_copyKey src dst key opts.prune

variable [DecidableEq Id]

section Step
variable (selects : Id → Text → Text → Bool) (src : Id) (dst : Target Id) (opts : MigrateOptions)

def move (_ : Nat) (rest : Procedure (StoreOp Id) Migrated) (outcome : Outcome) (w : Stores Id) :
    Option (Procedure (StoreOp Id) Migrated × Stores Id) :=
  rest.advance (perform selects) outcome w

def poolStep (pool : Pool Nat Text (StoreOp Id) Migrated (Stores Id))
    (a : Pool.Action Nat Text Outcome) : Option (Pool Nat Text (StoreOp Id) Migrated (Stores Id)) :=
  pool.step (body src dst opts) (move selects) a

def step (m : Migrating Id) : Action → Option (Migrating Id)
  | .take worker =>
    match m.todo with
    | [] => none
    | key :: rest =>
      if worker < opts.workerCount ∧ m.cancelled = false then
        (poolStep selects src dst opts m.pool (.start worker key)).map fun pool =>
          { m with pool := pool, todo := rest }
      else none
  | .advance worker outcome =>
    (poolStep selects src dst opts m.pool (.advance worker outcome)).map fun pool =>
      { m with pool := pool }
  | .count worker =>
    match m.pool.calls worker with
    | some ⟨_, .ret reply⟩ =>
      (poolStep selects src dst opts m.pool (.finish worker)).map fun pool =>
        { m with pool := pool, result := m.result.count reply }
    | _ => none
  | .cancel =>
    if m.todo ≠ [] ∧ m.cancelled = false then some { m with cancelled := true } else none

end Step

variable {selects : Id → Text → Text → Bool} {src : Id} {dst : Target Id} {opts : MigrateOptions}
  {key k : Text} {w w' v v' : Stores Id}

theorem perform_other {β : Type} {op : StoreOp Id β} {outcome : Outcome} {b : β}
    (isOn : onKey key op) (other : k ≠ key)
    (taken : perform selects op outcome w = some (b, w')) : SameAt k w w' := by
  intro s
  cases op with
  | put store key' bytes size =>
    obtain rfl : key' = key := isOn
    cases outcome with
    | ok =>
      cases taken
      simp [object_insert, other]
    | fails =>
      cases taken
      rfl
  | delete store key' =>
    obtain rfl : key' = key := isOn
    cases outcome with
    | ok =>
      cases taken
      simp [object_erase, other]
    | fails =>
      cases taken
      rfl
  | list store listPrefix => cases isOn
  | promoted =>
    cases taken
    rfl
  | _ =>
    cases outcome with
    | _ =>
      cases taken
      rfl

theorem perform_same {β : Type} {op : StoreOp Id β} {outcome : Outcome} {b : β}
    (isOn : onKey key op) (same : SameAt key w v)
    (taken : perform selects op outcome v = some (b, v')) :
    ∃ w', perform selects op outcome w = some (b, w') ∧ SameAt key w' v' := by
  have lookup (s : Id) : (w.contents s).lookup key = (v.contents s).lookup key := same s
  cases op with
  | put store key' bytes size =>
    obtain rfl : key' = key := isOn
    cases outcome with
    | ok =>
      cases taken
      refine ⟨_, rfl, fun s => ?_⟩
      rw [object_insert, object_insert, same s]
    | fails =>
      cases taken
      exact ⟨w, rfl, same⟩
  | delete store key' =>
    obtain rfl : key' = key := isOn
    cases outcome with
    | ok =>
      cases taken
      refine ⟨_, rfl, fun s => ?_⟩
      rw [object_erase, object_erase, same s]
    | fails =>
      cases taken
      exact ⟨w, rfl, same⟩
  | «open» store key' =>
    obtain rfl : key' = key := isOn
    cases outcome with
    | ok =>
      cases taken
      exact ⟨w, by simp [perform, attempt, lookup], same⟩
    | fails =>
      cases taken
      exact ⟨w, rfl, same⟩
  | stat store key' =>
    obtain rfl : key' = key := isOn
    cases outcome with
    | ok =>
      cases taken
      exact ⟨w, by simp [perform, attempt, lookup], same⟩
    | fails =>
      cases taken
      exact ⟨w, rfl, same⟩
  | list store listPrefix => cases isOn
  | promoted =>
    cases taken
    exact ⟨_, rfl, same⟩

theorem advance_on {rest rest' : Procedure (StoreOp Id) Migrated} {outcome : Outcome}
    (uses : rest.Uses (onKey key)) (same : SameAt key w v)
    (taken : rest.advance (perform selects) outcome v = some (rest', v')) :
    (∃ w', rest.advance (perform selects) outcome w = some (rest', w') ∧ SameAt key w' v') ∧
      ∀ k, k ≠ key → SameAt k v v' := by
  cases rest with
  | ret reply => cases taken
  | call op next =>
    obtain ⟨b, performed, rfl⟩ := advance_call taken
    constructor
    · obtain ⟨w', again, same'⟩ := perform_same uses.1 same performed
      exact ⟨w', by rw [Procedure.advance, again]; rfl, same'⟩
    · exact fun k other => perform_other uses.1 other performed

inductive Progress where
  | waiting
  | running (worker : Nat)
  | settled (reply : Migrated)

/-- Progress of every key. -/
abbrev Log := Text → Progress

def Log.set (log : Log) (key : Text) (p : Progress) : Log :=
  fun k => if k = key then p else log k

def tally (log : Log) : List Text → MigrateResult
  | [] => ⟨0, 0, 0⟩
  | k :: rest =>
    match log k with
    | .settled reply => (tally log rest).count reply
    | _ => tally log rest

theorem count_comm (res : MigrateResult) (r r' : Migrated) :
    (res.count r).count r' = (res.count r').count r := by
  obtain ⟨ok, err⟩ := r
  obtain ⟨ok', err'⟩ := r'
  cases err with
  | some e =>
    cases err' with
    | some e' => rfl
    | none =>
      cases ok' with
      | _ => rfl
  | none =>
    cases err' with
    | some e' =>
      cases ok with
      | _ => rfl
    | none =>
      cases ok with
      | _ =>
        cases ok' with
        | _ => rfl

theorem tally_set_not_mem {log : Log} {keys : List Text} {p : Progress} (absent : key ∉ keys) :
    tally (log.set key p) keys = tally log keys := by
  induction keys with
  | nil => rfl
  | cons x rest ih =>
    rw [List.mem_cons, not_or] at absent
    have same : log.set key p x = log x := if_neg (Ne.symm absent.1)
    simp only [tally, same, ih absent.2]

/-- A key that is not settled makes no difference. -/
theorem tally_set {log : Log} {keys : List Text} {p : Progress}
    (before : ∀ r, log key ≠ .settled r) (after : ∀ r, p ≠ .settled r) :
    tally (log.set key p) keys = tally log keys := by
  induction keys with
  | nil => rfl
  | cons x rest ih =>
    by_cases here : x = key
    · subst here
      have now : log.set x p x = p := if_pos rfl
      cases old : log x with
      | settled r => exact absurd old (before r)
      | _ =>
        cases p with
        | settled r => exact absurd rfl (after r)
        | _ => simp only [tally, now, old, ih]
    · have same : log.set key p x = log x := if_neg here
      simp only [tally, same, ih]

theorem tally_settle {log : Log} {keys : List Text} {reply : Migrated} (distinct : keys.Nodup)
    (listed : key ∈ keys) (before : ∀ r, log key ≠ .settled r) :
    tally (log.set key (.settled reply)) keys = (tally log keys).count reply := by
  induction keys with
  | nil => cases listed
  | cons x rest ih =>
    obtain ⟨new, distinct'⟩ := List.nodup_cons.mp distinct
    by_cases here : x = key
    · subst here
      have now : log.set x (.settled reply) x = .settled reply := if_pos rfl
      cases old : log x with
      | settled r => exact absurd old (before r)
      | _ => simp only [tally, now, old, tally_set_not_mem new]
    · have later : key ∈ rest := by
        rcases List.mem_cons.mp listed with same | later
        · exact absurd same.symm here
        · exact later
      have same : log.set key (.settled reply) x = log x := if_neg here
      cases old : log x with
      | settled r => simp only [tally, same, old, ih distinct' later, count_comm]
      | _ => simp only [tally, same, old, ih distinct' later]

/-- A failure of a listed key is counted. -/
theorem failed_tally {log : Log} {keys : List Text} {ok : Bool} {err : StoreError}
    (listed : key ∈ keys) (settled : log key = .settled (ok, some err)) :
    0 < (tally log keys).failed := by
  induction keys with
  | nil => cases listed
  | cons x rest ih =>
    rcases List.mem_cons.mp listed with rfl | later
    · simp only [tally, settled, MigrateResult.count]
      omega
    · have counted := ih later
      simp only [tally]
      cases log x with
      | settled r =>
        obtain ⟨ok', err'⟩ := r
        cases err' with
        | some e =>
          simp only [MigrateResult.count]
          omega
        | none =>
          cases ok' with
          | _ => exact counted
      | _ => exact counted

/-- A key that waits is as it was; the stores agree on any other one with what its operations
so far make of the first stores. -/
structure Sound (selects : Id → Text → Text → Bool) (src : Id) (dst : Target Id) (opts : MigrateOptions)
    (w : Stores Id) (keys : List Text) (log : Log) (m : Migrating Id) : Prop where
  distinct : m.todo.Nodup
  todo : ∀ k, k ∈ m.todo ↔ k ∈ keys ∧ log k = .waiting
  called : ∀ i call, m.pool.calls i = some call →
    i < opts.workerCount ∧ call.request ∈ keys ∧ log call.request = .running i
  waiting : ∀ k, log k = .waiting → SameAt k w m.pool.world
  running : ∀ k i, log k = .running i → ∃ rest outcomes w',
    m.pool.calls i = some ⟨k, rest⟩ ∧
      (body src dst opts k).steps (perform selects) outcomes w = some (rest, w') ∧
      SameAt k w' m.pool.world
  settled : ∀ k reply, log k = .settled reply → ∃ outcomes w',
    (body src dst opts k).steps (perform selects) outcomes w = some (.ret reply, w') ∧
      SameAt k w' m.pool.world
  counted : m.result = tally log keys

section Steps
variable {keys : List Text} {log : Log} {m m' : Migrating Id} {i : Nat}

theorem Log.set_self (log : Log) (key : Text) (p : Progress) : log.set key p key = p := if_pos rfl

theorem Log.set_ne (log : Log) (p : Progress) (other : k ≠ key) : log.set key p k = log k :=
  if_neg other

theorem Log.set_cases {p q : Progress} (h : log.set key p k = q) :
    (k = key ∧ p = q) ∨ (k ≠ key ∧ log k = q) := by
  by_cases same : k = key
  · subst same
    exact .inl ⟨rfl, (Log.set_self log k p).symm.trans h⟩
  · exact .inr ⟨same, (Log.set_ne log p same).symm.trans h⟩

theorem sound_start (listed : keys.Nodup) :
    Sound selects src dst opts w keys (fun _ => .waiting) (start w keys) := by
  refine ⟨listed, ?_, ?_, ?_, ?_, ?_, ?_⟩
  · simp [start]
  · exact fun _ _ none => nomatch none
  · exact fun _ _ _ => rfl
  · exact fun _ _ no => nomatch no
  · exact fun _ _ no => nomatch no
  · have zero (l : List Text) : tally (fun _ => .waiting) l = ⟨0, 0, 0⟩ := by
      induction l with
      | nil => rfl
      | cons x rest ih => exact ih
    exact (zero keys).symm

theorem Sound.take (h : Sound selects src dst opts w keys log m)
    (taken : step selects src dst opts m (.take i) = some m') :
    ∃ key ∈ keys, Sound selects src dst opts w keys (log.set key (.running i)) m' ∧
      m'.pool = m.pool.setCall i (some ⟨key, body src dst opts key⟩) ∧ log key = .waiting := by
  cases isTodo : m.todo with
  | nil =>
    rw [step, isTodo] at taken
    cases taken
  | cons key rest =>
    simp only [step, isTodo] at taken
    split at taken
    · next able =>
      obtain ⟨pool, started, rfl⟩ := Option.map_eq_some_iff.mp taken
      obtain ⟨free, rfl⟩ := Pool.start_cases started
      have distinct := h.distinct
      rw [isTodo, List.nodup_cons] at distinct
      obtain ⟨listed, waits⟩ := (h.todo key).mp (isTodo ▸ List.mem_cons_self)
      have other {k : Text} {p : Progress} (isLog : log k = p) (now : p ≠ .waiting) : k ≠ key := by
        rintro rfl
        exact now (isLog.symm.trans waits)
      refine ⟨key, listed, ⟨distinct.2, ?_, ?_, ?_, ?_, ?_, ?_⟩, rfl, waits⟩
      · intro k
        by_cases same : k = key
        · subst same
          simp [distinct.1, Log.set_self]
        · have member := h.todo k
          rw [isTodo, List.mem_cons] at member
          rw [Log.set_ne _ _ same, ← member]
          simp [same]
      · refine Pool.forall_setCall (fun call isCall => ?_) fun j call here found => ?_
        · cases isCall
          exact ⟨able.1, listed, Log.set_self ..⟩
        · obtain ⟨worker, mem, runs⟩ := h.called j call found
          refine ⟨worker, mem, ?_⟩
          rw [Log.set_ne _ _ (other runs (by simp)), runs]
      · intro k waits'
        rcases Log.set_cases waits' with ⟨_, now⟩ | ⟨_, old⟩
        · cases now
        · exact h.waiting k old
      · intro k j runs
        rcases Log.set_cases runs with ⟨rfl, now⟩ | ⟨_, old⟩
        · cases now
          exact ⟨_, [], w, Pool.setCall_self .., rfl, h.waiting k waits⟩
        · obtain ⟨rest', outcomes, w', found, steps, agree⟩ := h.running k j old
          have ne : j ≠ i := by
            rintro rfl
            exact nomatch free.symm.trans found
          exact ⟨rest', outcomes, w', (Pool.setCall_ne _ _ ne).trans found, steps, agree⟩
      · intro k reply ended
        rcases Log.set_cases ended with ⟨_, now⟩ | ⟨_, old⟩
        · cases now
        · exact h.settled k reply old
      · rw [h.counted]
        exact (tally_set (by simp [waits]) (by simp)).symm
    · cases taken

theorem Sound.advance {outcome : Outcome} (h : Sound selects src dst opts w keys log m)
    (taken : step selects src dst opts m (.advance i outcome) = some m') :
    Sound selects src dst opts w keys log m' := by
  obtain ⟨pool, advanced, rfl⟩ := Option.map_eq_some_iff.mp taken
  obtain ⟨⟨key, rest₀⟩, rest, world, found, moved, rfl⟩ := Pool.advance_cases advanced
  obtain ⟨_, _, runs⟩ := h.called i _ found
  obtain ⟨_, outcomes, w₀, found₀, steps, agree⟩ := h.running _ i runs
  cases found.symm.trans found₀
  have uses := uses_steps (uses_body src dst opts key) steps
  obtain ⟨⟨w₁, again, agree'⟩, others⟩ := advance_on uses agree moved
  refine ⟨h.distinct, h.todo, ?_, ?_, ?_, ?_, h.counted⟩
  · refine Pool.forall_setCall (fun call isCall => ?_) fun j call _ => h.called j call
    cases isCall
    have old := h.called i _ found
    exact old
  · intro k waits
    apply (h.waiting k waits).trans
    apply others k
    rintro rfl
    exact nomatch waits.symm.trans runs
  · intro k j runs'
    by_cases same : k = key
    · subst same
      cases runs.symm.trans runs'
      exact ⟨rest, _, w₁, Pool.setCall_self .., steps_concat steps again, agree'⟩
    · obtain ⟨rest', outcomes', w', found', steps', before⟩ := h.running k j runs'
      have ne : j ≠ i := by
        rintro rfl
        have isCall := Option.some.inj (found'.symm.trans found)
        exact same (congrArg Call.request isCall)
      exact ⟨rest', outcomes', w', (Pool.setCall_ne _ _ ne).trans found', steps',
        before.trans (others k same)⟩
  · intro k reply ended
    obtain ⟨outcomes', w', steps', before⟩ := h.settled k reply ended
    refine ⟨outcomes', w', steps', before.trans (others k ?_)⟩
    rintro rfl
    exact nomatch ended.symm.trans runs

theorem Sound.count (h : Sound selects src dst opts w keys log m) (listed : keys.Nodup)
    (taken : step selects src dst opts m (.count i) = some m') :
    ∃ key ∈ keys, ∃ reply, Sound selects src dst opts w keys (log.set key (.settled reply)) m' ∧
      m.pool.calls i = some ⟨key, .ret reply⟩ ∧ m'.pool = m.pool.setCall i none := by
  simp only [step] at taken
  split at taken
  · next key reply found =>
    obtain ⟨pool, finished, rfl⟩ := Option.map_eq_some_iff.mp taken
    obtain ⟨_, _, _, rfl⟩ := Pool.finish_cases finished
    obtain ⟨_, mem, runs⟩ := h.called i _ found
    obtain ⟨_, outcomes, w', at', steps, agree⟩ := h.running _ i runs
    cases found.symm.trans at'
    have other {k : Text} {p : Progress} (isLog : log k = p) (now : p ≠ .running i) : k ≠ key := by
      rintro rfl
      exact now (isLog.symm.trans runs)
    refine ⟨key, mem, reply, ⟨h.distinct, ?_, ?_, ?_, ?_, ?_, ?_⟩, found, rfl⟩
    · intro k
      by_cases same : k = key
      · subst same
        simp [h.todo, runs, Log.set_self]
      · rw [Log.set_ne _ _ same]
        exact h.todo k
    · refine Pool.forall_setCall (fun call isCall => ?_) fun j call here found' => ?_
      · cases isCall
      · obtain ⟨worker, mem', runs'⟩ := h.called j call found'
        refine ⟨worker, mem', ?_⟩
        rw [Log.set_ne _ _ (other runs' (by simpa using here)), runs']
    · intro k waits
      rcases Log.set_cases waits with ⟨_, now⟩ | ⟨_, old⟩
      · cases now
      · exact h.waiting k old
    · intro k j runs'
      rcases Log.set_cases runs' with ⟨_, now⟩ | ⟨same, old⟩
      · cases now
      · obtain ⟨rest', outcomes', w', found', steps', before⟩ := h.running k j old
        have ne : j ≠ i := by
          rintro rfl
          have isCall := Option.some.inj (found'.symm.trans found)
          exact same (congrArg Call.request isCall)
        exact ⟨rest', outcomes', w', (Pool.setCall_ne _ _ ne).trans found', steps', before⟩
    · intro k r ended
      rcases Log.set_cases ended with ⟨rfl, now⟩ | ⟨_, old⟩
      · cases now
        exact ⟨outcomes, w', steps, agree⟩
      · exact h.settled k r old
    · have counted := h.counted
      change m.result.count reply = _
      rw [counted, tally_settle listed mem]
      intro r no
      exact nomatch runs.symm.trans no
  · cases taken

theorem sound_run (listed : keys.Nodup) {cond : Migrating Id → Action → Prop} {trace : List Action}
    (h : Run (step selects src dst opts) cond (start w keys) trace m) :
    ∃ log, Sound selects src dst opts w keys log m := by
  apply h.invariant fun m => ∃ log, Sound selects src dst opts w keys log m
  · exact ⟨_, sound_start listed⟩
  · rintro m a m' ⟨log, sound⟩ _ taken
    cases a with
    | take i =>
      obtain ⟨key, _, sound', _⟩ := sound.take taken
      exact ⟨_, sound'⟩
    | advance i outcome => exact ⟨log, sound.advance taken⟩
    | count i =>
      obtain ⟨key, _, reply, sound', _⟩ := sound.count listed taken
      exact ⟨_, sound'⟩
    | cancel =>
      simp only [step] at taken
      split at taken
      · cases taken
        exact ⟨log, sound.distinct, sound.todo, sound.called, sound.waiting, sound.running,
          sound.settled, sound.counted⟩
      · cases taken

/-- When `Migrate` returns `nil`, every key is settled. -/
theorem Sound.returned (h : Sound selects src dst opts w keys log m) (returned : m.Returned opts)
    (isNil : m.cancelled = false) (listed : k ∈ keys) : ∃ reply, log k = .settled reply := by
  obtain ⟨through, idle⟩ := returned
  cases isLog : log k with
  | waiting =>
    have waits : k ∈ m.todo := (h.todo k).mpr ⟨listed, isLog⟩
    rcases through with none | cancelled
    · rw [none] at waits
      cases waits
    · exact nomatch isNil.symm.trans cancelled
  | running i =>
    obtain ⟨_, _, _, found, _⟩ := h.running k i isLog
    have none := idle i (h.called i _ found).1
    rw [found] at none
    cases none
  | settled reply => exact ⟨reply, rfl⟩

end Steps

end Vidsilo.Storage.Migration
