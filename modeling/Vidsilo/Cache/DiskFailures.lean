import Vidsilo.Cache.Reads

/-!
# Reads with a failing cache disk

Source: internal/store/cache.go:165-207.

Where the object cannot be cached, `Open` means to serve the backend's reader, but the deferred
Close is still pending (`serves_despite_iff`). Creating the directory, creating the temporary file
and renaming it may fail; everything else succeeds.
-/
namespace Vidsilo.Cache.DiskFailures
open Library Library.Procedure Library.SlashPath Storage.Drivers Index Calls Reads

/-- Which of the operations succeed. -/
structure Disk where
  mkdirAll : Bool
  createTemp : Bool
  rename : Bool
  deriving DecidableEq, Repr

def Disk.sound (disk : Disk) : Bool := disk.mkdirAll && disk.createTemp && disk.rename

def outcomeOf (succeeds : Bool) : Outcome := if succeeds then .ok else .fails 0

def Disk.outcome (disk : Disk) : {β : Type} → CacheOp β → Outcome
  | _, .mkdirAll _ => outcomeOf disk.mkdirAll
  | _, .createTemp _ => outcomeOf disk.createTemp
  | _, .rename _ _ => outcomeOf disk.rename
  | _, _ => .ok

/-- A read that no other call overlaps. -/
def openWith (disk : Disk) (key : Text) (w : World) : Option (Except StoreError Reader × World) :=
  (cacheOpen key).follow (perform 0) disk.outcome w

/-- The reader is open and yields the object. -/
def Serves (disk : Disk) (w : World) (key : Text) (v : Bytes) : Prop :=
  ∃ w', openWith disk key w = some (.ok (.opened v), w')

@[simp] theorem isOk_outcomeOf (succeeds : Bool) : (outcomeOf succeeds).isOk = succeeds := by
  cases succeeds with
  | false => rfl
  | true => rfl

/-- Without a failure it is a read as before. -/
theorem follow_ok {choose : {β : Type} → CacheOp β → Outcome}
    (ok : ∀ {β : Type} (op : CacheOp β), choose op = .ok) (p : Procedure CacheOp α) (w : World) :
    p.follow (perform 0) choose w = runOk p w := by
  induction p generalizing w with
  | ret value => rfl
  | call op next ih =>
    rw [follow, runOk_call, ok op]
    exact congrArg _ (funext fun r => ih r.1 r.2)

theorem outcome_sound {disk : Disk} (sound : disk.sound = true) {β : Type} (op : CacheOp β) :
    disk.outcome op = .ok := by
  simp only [Disk.sound, Bool.and_eq_true] at sound
  cases op with
  | mkdirAll key => simp [Disk.outcome, outcomeOf, sound]
  | createTemp key => simp [Disk.outcome, outcomeOf, sound]
  | rename key bytes => simp [Disk.outcome, outcomeOf, sound]
  | _ => rfl

/-- A hit does not write. -/
theorem openWith_hit {disk : Disk} {w : World} {key : Text} (free : w.mutex = none)
    (mem : key ∈ w.cache.entries) :
    (openWith disk key w).map Prod.fst = (w.file key).map fun bytes => .ok (.opened bytes) := by
  obtain ⟨size, found⟩ := moveToFront_indexed mem
  unfold openWith cacheOpen
  simp only [ask_bind, follow, Disk.outcome, perform, free, if_true, Option.bind_some, found,
    reduceCtorEq, if_false, attempt, Outcome.isOk, file_touched]
  cases w.file key with
  | some bytes => rfl
  | none => rfl

theorem openWith_absent {disk : Disk} {w : World} {key : Text} (free : w.mutex = none)
    (absent : key ∉ w.cache.entries) :
    openWith disk key w = (fetch key).follow (perform 0) disk.outcome w := by
  have same : ({ w with mutex := none } : World) = w := by rw [← free]
  unfold openWith cacheOpen
  simp only [ask_bind, follow, perform, free, if_true, Option.bind_some, moveToFront_absent absent,
    reduceCtorEq, if_false, same]

/-- Whichever of the three fails, the reader that is returned has been closed. -/
theorem follow_fetch {disk : Disk} {w : World} {key : Text} {v : Bytes}
    (stored : w.backend.lookup key = some v) (fails : disk.sound = false) :
    (fetch key).follow (perform 0) disk.outcome w = some (.ok .closed, w) := by
  have opened : perform 0 (.backendOpen key) .ok w = some (.ok v, w) := by
    simp [perform, attempt, Outcome.isOk, stored, Storage.Drivers.found]
  obtain ⟨made, created, renamed⟩ := disk
  unfold fetch
  rw [ask_bind, follow]
  change (perform 0 (.backendOpen key) .ok w).bind _ = _
  rw [opened, Option.bind_some]
  cases made with
  | false => rfl
  | true =>
    cases created with
    | false => rfl
    | true =>
      cases renamed with
      | false => rfl
      | true => cases fails

/-- A read of an object that the backend has yields the object if and only if the key is indexed
and its file holds the object, or it is not, the disk does not fail, and evicting some of the oldest
entries, none of which is kept under its path, makes room for the object. -/
theorem serves_despite_iff (disk : Disk) (w : World) (key : Text) (v : Bytes)
    (free : w.mutex = none) (stored : w.backend.lookup key = some v) :
    Serves disk w key v ↔
      if key ∈ w.cache.entries then w.file key = some v
      else disk.sound = true ∧ MakesRoom w key v.length := by
  unfold Serves
  split
  · next mem => exact reads_file_iff (openWith_hit free mem)
  · next absent =>
    cases sound : disk.sound with
    | true =>
      rw [openWith, follow_ok (outcome_sound sound), runOk_miss_iff free absent stored]
      simp
    | false =>
      rw [openWith_absent free absent, follow_fetch stored sound]
      simp

/-- The object is cached, in the place of another. -/
theorem serves_despite_evicted :
    Serves ⟨true, true, true⟩ (oneCached 2 (by decide)) "b.ts".toList [1, 2] := by
  refine (serves_despite_iff _ _ _ _ rfl (by decide)).mpr ?_
  rw [if_neg (by decide)]
  exact ⟨rfl, [⟨"a.ts".toList, 1⟩], List.suffix_rfl, by decide, by decide⟩

/-- The object fits, but the directory cannot be created. -/
theorem unwritable_disk_closes_reader :
    ∃ (w : World) (disk : Disk) (key : Text) (v : Bytes), newCache twoBytes emptyDir 2 [] = some w ∧
      w.mutex = none ∧ w.backend.lookup key = some v ∧ v.length ≤ w.maxSize ∧
      openWith disk key w = some (.ok .closed, w) ∧ ¬ Serves disk w key v := by
  obtain ⟨w, built, closed⟩ : ∃ w, newCache twoBytes emptyDir 2 [] = some w ∧
      (w.mutex = none ∧ w.backend.lookup "b.ts".toList = some [1, 2] ∧ w.maxSize = 2 ∧
        openWith ⟨false, true, true⟩ "b.ts".toList w = some (.ok .closed, w)) :=
    ⟨_, rfl, rfl, rfl, rfl, rfl⟩
  obtain ⟨free, stored, size, run⟩ := closed
  refine ⟨w, _, _, _, built, free, stored, by simp [size], run, ?_⟩
  rintro ⟨w', served⟩
  rw [run] at served
  cases served

end Vidsilo.Cache.DiskFailures
