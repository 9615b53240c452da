import Vidsilo.Storage.Migration

/-!
# What a migration leaves in the primary

Source: internal/store/migrate.go:69-98. A `nil` result without failures says of a key that it
was copied, or that the target's `Stat` answered and it was skipped.
-/
namespace Vidsilo.Storage.Retirement
open Library Library.Procedure Library.SlashPath Library.Transition Drivers Operations Migration
open Fallback (Side clip poster)

variable {Id : Type} [DecidableEq Id]

/-- Every listed key has the source's bytes in the primary. -/
def Retires (selects : Id → Text → Text → Bool) (src : Id) (dst : Target Id) (opts : MigrateOptions)
    (w : Stores Id) : Prop :=
  ∀ (keys : List Text) (trace : List Action) (m : Migrating Id),
    perform selects (.list src Keys.entriesRoot) .ok w = some (.ok keys, w) →
    Run (step selects src dst opts) Always (start w keys) trace m → m.Returned opts →
    m.cancelled = false → m.result.failed = 0 →
    ∀ key ∈ keys, m.pool.world.object dst.primary key = w.object src key

/-- `Stat` of a fallback finds the key in the legacy store only. -/
def answeredByLegacy (dst : Target Id) (w : Stores Id) (key : Text) : Bool :=
  match dst with
  | .plain _ => false
  | .fallback primary legacy => (w.object primary key).isNone && (w.object legacy key).isSome

/-- The primary has the source's bytes or, without `Force`, the object it had. -/
def Stored (src : Id) (dst : Target Id) (opts : MigrateOptions) (w w' : Stores Id) (key : Text) :
    Prop :=
  w'.object dst.primary key = w.object src key ∨
    (opts.force = false ∧ (w.object dst.primary key).isSome = true ∧
      w'.object dst.primary key = w.object dst.primary key)

abbrev anyOutcome : {β : Type} → StoreOp Id β → Outcome → Stores Id → Bool := fun _ _ _ => true

variable {selects : Id → Text → Text → Bool} {src : Id} {dst : Target Id} {opts : MigrateOptions}
  {key : Text} {w : Stores Id} {bytes : Bytes}

theorem wp_pruneKey {prune : Bool} (apart : prune = true → src ≠ dst.primary)
    (written : w.object dst.primary key = some bytes) :
    (pruneKey src key prune).Wp (perform selects) anyOutcome
      (fun _ w' => w'.object dst.primary key = some bytes) w := by
  cases prune with
  | false => exact written
  | true =>
    intro outcome r w' _ taken
    cases outcome with
    | ok =>
      cases taken
      change (w.set src _).object dst.primary key = some bytes
      rw [object_erase, if_neg (fun both => apart rfl both.1.symm)]
      exact written
    | fails =>
      cases taken
      exact written

theorem wp_copyKey {prune : Bool} (listed : w.object src key = some bytes)
    (apart : prune = true → src ≠ dst.primary) :
    (copyKey src dst key prune).Wp (perform selects) anyOutcome
      (fun r w' => r.2 = none → w'.object dst.primary key = some bytes) w := by
  have lookup : (w.contents src).lookup key = some bytes := listed
  unfold copyKey
  simp only [put_eq]
  intro outcome opened w₁ _ taken
  cases outcome with
  | fails =>
    cases taken
    exact fun no => nomatch no
  | ok =>
    cases taken
    simp only [lookup]
    intro outcome info w₂ _ taken
    cases outcome with
    | fails =>
      cases taken
      exact fun no => nomatch no
    | ok =>
      cases taken
      simp only [lookup]
      intro outcome written w₃ _ taken
      cases outcome with
      | fails =>
        cases taken
        exact fun no => nomatch no
      | ok =>
        cases taken
        have stored : (w.set dst.primary ((w.contents dst.primary).insert key bytes)).object
            dst.primary key = some bytes := by
          rw [object_insert, if_pos ⟨rfl, rfl⟩]
        exact wp_mono (wp_pruneKey apart stored) fun _ _ stored _ => stored

/-- When the skip test succeeds, the primary has the key, or only the legacy store has it. -/
theorem wp_stat (dst : Target Id) (key : Text) (w : Stores Id) :
    (dst.stat key).Wp (perform selects) anyOutcome
      (fun r w' => w' = w ∧ ∀ fi, r = .ok fi →
        (w.object dst.primary key).isSome = true ∨ answeredByLegacy dst w key = true) w := by
  have answers (s : Id) (fi : Nat)
      (here : found (((w.contents s).lookup key).map List.length) = .ok fi) :
      (w.object s key).isSome = true := by
    unfold Stores.object
    cases lookup : (w.contents s).lookup key with
    | none =>
      rw [lookup] at here
      cases here
    | some bytes => rfl
  cases dst with
  | plain store =>
    intro outcome r w' _ taken
    cases outcome with
    | fails =>
      cases taken
      exact ⟨rfl, fun _ no => nomatch no⟩
    | ok =>
      cases taken
      exact ⟨rfl, fun fi here => .inl (answers store fi here)⟩
  | fallback primary legacy =>
    intro outcome r w' _ taken
    cases outcome with
    | fails =>
      cases taken
      exact ⟨rfl, fun _ no => nomatch no⟩
    | ok =>
      cases taken
      cases lookup : (w.contents primary).lookup key with
      | some bytes =>
        refine ⟨rfl, fun _ _ => .inl ?_⟩
        change ((w.contents primary).lookup key).isSome = true
        rw [lookup]
        rfl
      | none =>
        intro outcome r w' _ taken
        cases outcome with
        | fails =>
          cases taken
          exact ⟨rfl, fun _ no => nomatch no⟩
        | ok =>
          cases taken
          refine ⟨rfl, fun fi here => .inr ?_⟩
          have absent : w.object primary key = none := lookup
          simp [answeredByLegacy, absent, answers legacy fi here]

theorem wp_body (listed : w.object src key = some bytes)
    (apart : opts.prune = true → src ≠ dst.primary)
    (asked : opts.force = true ∨ answeredByLegacy dst w key = false) :
    (body src dst opts key).Wp (perform selects) anyOutcome
      (fun r w' => r.2 = none → Stored src dst opts w w' key) w := by
  have copied : (copyKey src dst key opts.prune).Wp (perform selects) anyOutcome
      (fun r w' => r.2 = none → Stored src dst opts w w' key) w :=
    wp_mono (wp_copyKey listed apart) fun r w' stored isNil => .inl ((stored isNil).trans listed.symm)
  unfold body migrateKey
  cases force : opts.force with
  | true => exact copied
  | false =>
    apply wp_bind
    apply wp_mono (wp_stat dst key w)
    rintro r w' ⟨rfl, skips⟩
    cases r with
    | error err => exact copied
    | ok fi =>
      intro _
      right
      refine ⟨force, ?_, rfl⟩
      rcases skips fi rfl with primary | legacy
      · exact primary
      · rcases asked with forced | no
        · exact nomatch force.symm.trans forced
        · exact nomatch no.symm.trans legacy

/-- When `Migrate` returns `nil` and counts no failure, the primary has of every listed key the
source's bytes or, without `Force`, the object that it had; except for the keys that only the
legacy store of the target answers for. -/
theorem listed_keys_stored (selects : Id → Text → Text → Bool) (src : Id) (dst : Target Id)
    (opts : MigrateOptions) (w : Stores Id) (apart : opts.prune = true → src ≠ dst.primary)
    (keys : List Text)
    (listed : perform selects (.list src Keys.entriesRoot) .ok w = some (.ok keys, w))
    (trace : List Action) (m : Migrating Id)
    (h : Run (step selects src dst opts) Always (start w keys) trace m)
    (returned : m.Returned opts) (isNil : m.cancelled = false) (failures : m.result.failed = 0)
    (key : Text) (mem : key ∈ keys)
    (asked : opts.force = true ∨ answeredByLegacy dst w key = false) :
    Stored src dst opts w m.pool.world key := by
  simp only [perform, attempt, Option.some.injEq, Prod.mk.injEq, Except.ok.injEq] at listed
  obtain ⟨rfl, _⟩ := listed
  have distinct : ((w.contents src).keys.filter (selects src Keys.entriesRoot)).Nodup :=
    (w.contents src).keys_nodup.filter _
  obtain ⟨bytes, stored⟩ : ∃ bytes, w.object src key = some bytes :=
    Option.isSome_iff_exists.mp
      (AList.lookup_isSome.mpr (AList.mem_keys.mp (List.mem_of_mem_filter mem)))
  obtain ⟨log, sound⟩ := sound_run distinct h
  obtain ⟨⟨ok, err⟩, settled⟩ := sound.returned returned isNil mem
  obtain ⟨outcomes, w', steps, agree⟩ := sound.settled key (ok, err) settled
  cases err with
  | some err =>
    have counted := failed_tally mem settled
    rw [← sound.counted, failures] at counted
    omega
  | none =>
    have post : Stored src dst opts w w' key :=
      wp_steps (wp_body stored apart asked) steps rfl
    unfold Stored at post ⊢
    rw [← agree dst.primary]
    exact post

/-- A worker takes the next key, all `n` operations succeed, and it counts the result. -/
def migrates (worker n : Nat) : List Action :=
  [.take worker] ++ List.replicate n (.advance worker .ok) ++ [.count worker]

/-- Store 0 is the source; the primary 1 has another version of one key. -/
def halfMigrated : Stores (Fin 3) where
  contents := fun s =>
    if s = 0 then ((∅ : Bucket).insert clip [2]).insert poster [3]
    else if s = 1 then (∅ : Bucket).insert clip [1]
    else ∅
  promoted := 0

def pruning : MigrateOptions := ⟨0, false, true⟩

/-- One key is copied and pruned while another is skipped. -/
theorem listed_keys_stored_pruned :
    ∃ m : Migrating (Fin 3), m.result = ⟨1, 1, 0⟩ ∧
      Stored 0 (.fallback 1 2) pruning halfMigrated m.pool.world poster := by
  have listed : perform (fun _ _ _ => true) (.list (0 : Fin 3) Keys.entriesRoot) .ok halfMigrated =
      some (.ok [poster, clip], halfMigrated) := rfl
  obtain ⟨m, run, done⟩ : ∃ m, Run (step (fun _ _ _ => true) 0 (.fallback 1 2) pruning) Always
      (start halfMigrated [poster, clip])
      ([.take 1] ++ migrates 0 1 ++ List.replicate 6 (.advance 1 .ok) ++ [.count 1]) m ∧
        decide (m.Returned pruning ∧ m.cancelled = false ∧ m.result = ⟨1, 1, 0⟩) = true :=
    exists_always (by decide +kernel)
  obtain ⟨returned, isNil, result⟩ := of_decide_eq_true done
  exact ⟨m, result, listed_keys_stored (fun _ _ _ => true) 0 (.fallback 1 2) pruning halfMigrated
    (fun _ => by decide) [poster, clip] listed _ m run returned isNil (by rw [result]) poster
    (by decide) (.inr (by decide))⟩

theorem not_retires (keys : List Text) (trace : List Action)
    (listed : perform selects (.list src Keys.entriesRoot) .ok w = some (.ok keys, w))
    (h : (exec (step selects src dst opts) (fun _ _ => true) (start w keys) trace).any
      (fun m => decide (m.Returned opts ∧ m.cancelled = false ∧ m.result.failed = 0 ∧
        ∃ key ∈ keys, m.pool.world.object dst.primary key ≠ w.object src key)) = true) :
    ¬ Retires selects src dst opts w := by
  intro retires
  obtain ⟨m, run, done⟩ : ∃ m, Run (step selects src dst opts) Always (start w keys) trace m ∧ _ :=
    exists_always h
  obtain ⟨returned, isNil, failures, key, mem, differs⟩ := of_decide_eq_true done
  exact differs (retires keys trace m listed run returned isNil failures key mem)

def oneKey (objects : Bucket) : Stores Side where
  contents := fun
    | .legacy => (∅ : Bucket).insert clip [2]
    | .primary => objects
  promoted := 0

def defaults : MigrateOptions := ⟨4, false, false⟩

/-- An existing key is skipped, also when the legacy store of the target is the source and
answers for it; and a store migrated into itself is pruned. -/
theorem skips_leave_the_source :
    ¬ Retires (fun _ _ _ => true) .legacy (.plain Side.primary) defaults
        (oneKey ((∅ : Bucket).insert clip [1])) ∧
      ¬ Retires (fun _ _ _ => true) .legacy (.fallback Side.primary .legacy) defaults (oneKey ∅) ∧
      ¬ Retires (fun _ _ _ => true) .primary (.plain Side.primary) ⟨4, true, true⟩
        (oneKey ((∅ : Bucket).insert clip [1])) := by
  refine ⟨?_, ?_, ?_⟩
  · exact not_retires [clip] (migrates 0 1) rfl (by decide +kernel)
  · exact not_retires [clip] (migrates 0 2) rfl (by decide +kernel)
  · exact not_retires [clip] (migrates 0 4) rfl (by decide +kernel)

end Vidsilo.Storage.Retirement
