import Vidsilo.Cache.Calls

/-!
# What a read through the cache yields

A miss opens its file only after its insertion has evicted others, so an object larger
than the limit evicts itself and the read fails (`serves_backend_iff`).
-/
namespace Vidsilo.Cache.Reads
open Library Library.Procedure Library.SlashPath Storage.Drivers Index Calls

/-- No operation fails. -/
def runOk (p : Procedure CacheOp α) (w : World) : Option (α × World) :=
  p.run (perform 0) .ok [] w

theorem runOk_call (op : CacheOp β) (next : β → Procedure CacheOp α) (w : World) :
    runOk (.call op next) w = (perform 0 op .ok w).bind fun r => runOk (next r.1) r.2 := rfl

def dropFiles (w : World) (keys : List Text) : World := keys.foldl World.removeFile w

theorem runOk_removeFiles (keys : List Text) (k : Unit → Procedure CacheOp α) (w : World) :
    runOk (removeFiles keys >>= k) w = runOk (k ()) (dropFiles w keys) := by
  induction keys generalizing w with
  | nil => rfl
  | cons key rest ih => exact ih (w.removeFile key)

theorem file_dropFiles (keys : List Text) (w : World) (key : Text) :
    (dropFiles w keys).file key =
      if ∃ k ∈ keys, w.cache.pathForKey k = w.cache.pathForKey key then none else w.file key := by
  induction keys generalizing w with
  | nil => simp [dropFiles]
  | cons k rest ih =>
    have path (key : Text) : (w.removeFile k).cache.pathForKey key = w.cache.pathForKey key := rfl
    change (dropFiles (w.removeFile k) rest).file key = _
    rw [ih, file_removeFile]
    simp only [path]
    by_cases here : w.cache.pathForKey k = w.cache.pathForKey key
    · simp [here]
    · simp [here]

theorem dropFiles_mutex (keys : List Text) (w : World) : (dropFiles w keys).mutex = w.mutex := by
  induction keys generalizing w with
  | nil => rfl
  | cons key rest ih => exact ih (w.removeFile key)

/-- Removing some of the oldest entries makes room for `size` more, and none of them is kept
under the path of the key. -/
def MakesRoom (w : World) (key : Text) (size : Int) : Prop :=
  ∃ older, older <:+ w.cache.lru ∧
    (∀ e ∈ older, w.cache.pathForKey e.key ≠ w.cache.pathForKey key) ∧
    w.cache.size + size - sizes older ≤ w.maxSize

/-- The evicted keys of an insertion under a new key. -/
def evicted (w : World) (key : Text) (size : Int) : List CacheEntry :=
  overflow w.maxSize (⟨key, size⟩ :: w.cache.lru).reverse (w.cache.size + size)

theorem spared_iff (w : World) (key : Text) (size : Int) :
    (¬ ∃ k ∈ keys (evicted w key size), w.cache.pathForKey k = w.cache.pathForKey key) ↔
      MakesRoom w key size := by
  constructor
  · intro spared
    have clear : ∀ e ∈ evicted w key size, w.cache.pathForKey e.key ≠ w.cache.pathForKey key :=
      fun e mem same => spared ⟨e.key, List.mem_map_of_mem mem, same⟩
    have part : evicted w key size <+: (⟨key, size⟩ :: w.cache.lru).reverse := overflow_isPrefix _ _ _
    rcases overflow_fits w.maxSize (⟨key, size⟩ :: w.cache.lru).reverse (w.cache.size + size)
      with fits | all
    · refine ⟨(evicted w key size).reverse, ?_, ?_, ?_⟩
      · rw [List.reverse_cons] at part
        rcases List.prefix_concat_iff.mp part with whole | inner
        · have self : (⟨key, size⟩ : CacheEntry) ∈ evicted w key size := by
            rw [whole]
            simp
          exact absurd rfl (clear _ self)
        · simpa using List.reverse_suffix.mpr inner
      · exact fun e mem => clear e (List.mem_reverse.mp mem)
      · rw [sizes_reverse]
        exact fits
    · have self : (⟨key, size⟩ : CacheEntry) ∈ evicted w key size := by
        unfold evicted
        rw [all]
        simp
      exact absurd rfl (clear _ self)
  · rintro ⟨older, suffix, clear, fits⟩ ⟨k, mem, same⟩
    have least : evicted w key size <+: older.reverse := by
      apply overflow_least
      · rw [List.reverse_cons]
        exact (List.reverse_prefix.mpr suffix).trans (List.prefix_append _ _)
      · rw [sizes_reverse]
        exact fits
    obtain ⟨e, inEvicted, rfl⟩ := List.mem_map.mp mem
    exact clear e (List.mem_reverse.mp (least.subset inEvicted)) same

theorem evicted_insertLocked {w : World} {key : Text} {n : Nat} (absent : key ∉ w.cache.entries) :
    (Index.insertLocked w.maxSize w.cache key n).2 = keys (evicted w key n) := by
  simp [Index.insertLocked, absent, evictLocked, evicted]

theorem runOk_serveFetched {w : World} {key : Text} {n : Nat} (free : w.mutex = none)
    (absent : key ∉ w.cache.entries) :
    ∃ w', runOk (serveFetched key n) w =
      some (served (if ∃ k ∈ keys (evicted w key n), w.cache.pathForKey k = w.cache.pathForKey key
        then none else w.file key), w') := by
  let inserted : World :=
    { w with
      cache := (Index.insertLocked w.maxSize w.cache key n).1
      mutex := some 0 }
  have path (k : Text) : inserted.cache.pathForKey k = w.cache.pathForKey k :=
    pathForKey_root (root_insertLocked _ _ _ _) k
  have file : inserted.file key = w.file key := by
    unfold World.file
    rw [path, files_insertLocked]
  have dropped := file_dropFiles (keys (evicted w key n)) inserted key
  simp only [path, file] at dropped
  have locked : runOk (serveFetched key n) w =
      runOk (removeFiles (Index.insertLocked w.maxSize w.cache key n).2 >>= fun _ =>
        Procedure.call .unlock fun _ => .call (.openFetched key) fun f => .ret (served f))
        inserted := by
    unfold serveFetched
    simp only [ask_bind, runOk_call, perform, free, if_true, Option.bind_some]
    rfl
  have held : (dropFiles inserted (keys (evicted w key n))).mutex = some 0 := dropFiles_mutex _ _
  rw [locked, evicted_insertLocked absent, runOk_removeFiles]
  refine ⟨{ dropFiles inserted (keys (evicted w key n)) with mutex := none }, ?_⟩
  rw [runOk_call]
  simp only [perform, held, reduceCtorEq, if_false, Option.bind_some]
  rw [← dropped]
  rfl

/-- Moving a key to the front leaves its file. -/
theorem file_touched (w : World) (key : Text) (mutex : Option CallId) :
    ({ w with cache := (Index.moveToFront w.cache key).2, mutex := mutex } : World).file key =
      w.file key := by
  change (Index.moveToFront w.cache key).2.files.lookup _ = _
  rw [files_moveToFront, pathForKey_root (root_moveToFront _ _)]
  rfl

theorem runOk_hit {w : World} {key : Text} (free : w.mutex = none)
    (mem : key ∈ w.cache.entries) :
    (runOk (cacheOpen key) w).map Prod.fst = (w.file key).map fun bytes => .ok (.opened bytes) := by
  obtain ⟨size, found⟩ := moveToFront_indexed mem
  unfold cacheOpen
  simp only [ask_bind, runOk_call, perform, free, if_true, Option.bind_some, found, reduceCtorEq,
    if_false, attempt, Outcome.isOk, file_touched]
  cases w.file key with
  | some bytes => rfl
  | none => rfl

theorem runOk_miss {w : World} {key : Text} {v : Bytes} (free : w.mutex = none)
    (absent : key ∉ w.cache.entries) (stored : w.backend.lookup key = some v) :
    runOk (cacheOpen key) w = runOk (serveFetched key v.length) (w.setFile key v) := by
  unfold cacheOpen fetch
  simp only [ask_bind, runOk_call, perform, free, if_true, Option.bind_some,
    moveToFront_absent absent, reduceCtorEq, if_false, attempt, Outcome.isOk, stored, Storage.Drivers.found]
  have same : ({ w with mutex := none } : World) = w := by
    rw [← free]
  rw [same]

theorem sizes_nonneg {entries : List CacheEntry} (h : ∀ e ∈ entries, 0 ≤ e.size) :
    0 ≤ sizes entries := by
  induction entries with
  | nil => exact Int.le_refl 0
  | cons e rest ih =>
    have first := h e (.head _)
    have others := ih fun f mem => h f (.tail _ mem)
    simp only [sizes, List.map_cons, List.sum_cons] at others ⊢
    omega

/-- In a consistent cache whose entries have files of their own, there is room for whatever
is within the limit. -/
theorem makesRoom_iff {w : World} {key : Text} {size : Int} (h : Bounded w.maxSize w.cache)
    (alone : ∀ e ∈ w.cache.lru, w.cache.pathForKey e.key ≠ w.cache.pathForKey key) :
    MakesRoom w key size ↔ size ≤ w.maxSize := by
  constructor
  · rintro ⟨older, ⟨newer, split⟩, _, fits⟩
    have total := congrArg sizes split
    rw [sizes_append, ← h.size] at total
    have rest : 0 ≤ sizes newer := by
      apply sizes_nonneg
      intro e mem
      apply h.nonneg
      rw [← split]
      exact List.mem_append_left _ mem
    omega
  · intro fits
    refine ⟨w.cache.lru, List.suffix_rfl, alone, ?_⟩
    rw [← h.size]
    omega

/-- A result whose reader is that of the file. -/
theorem reads_file_iff {r : Option (Except StoreError Reader × World)} {file : Option Bytes}
    {v : Bytes} (hit : r.map Prod.fst = file.map fun bytes => .ok (.opened bytes)) :
    (∃ w', r = some (.ok (.opened v), w')) ↔ file = some v := by
  constructor
  · rintro ⟨w', run⟩
    rw [run, Option.map_some] at hit
    obtain ⟨bytes, file, same⟩ := Option.map_eq_some_iff.mp hit.symm
    cases same
    exact file
  · intro file
    rw [file, Option.map_some] at hit
    obtain ⟨⟨r, w'⟩, run, rfl⟩ := Option.map_eq_some_iff.mp hit
    exact ⟨w', run⟩

theorem runOk_miss_iff {w : World} {key : Text} {v : Bytes} (free : w.mutex = none)
    (absent : key ∉ w.cache.entries) (stored : w.backend.lookup key = some v) :
    (∃ w', runOk (cacheOpen key) w = some (.ok (.opened v), w')) ↔ MakesRoom w key v.length := by
  rw [runOk_miss free absent stored, ← spared_iff]
  obtain ⟨w', run⟩ := runOk_serveFetched (w := w.setFile key v) (n := v.length) free absent
  rw [run, file_setFile]
  change (∃ w'', some (served (if ∃ k ∈ keys (evicted w key v.length),
    w.cache.pathForKey k = w.cache.pathForKey key then none else some v), w') = _) ↔ _
  split
  · next gone =>
    constructor
    · rintro ⟨w'', same⟩
      cases same
    · exact fun spared => absurd gone spared
  · next spared => exact ⟨fun _ => spared, fun _ => ⟨w', rfl⟩⟩

/-- With no disk failure and no concurrent call, a read of an object that the backend has
yields the object if and only if the key is indexed and its file holds the object, or it is
not and evicting some of the oldest entries, none of which is kept under its path, makes room
for the object. -/
theorem serves_backend_iff (w : World) (key : Text) (v : Bytes) (free : w.mutex = none)
    (stored : w.backend.lookup key = some v) :
    (∃ w', (cacheOpen key).run (perform 0) .ok [] w = some (.ok (.opened v), w')) ↔
      if key ∈ w.cache.entries then w.file key = some v else MakesRoom w key v.length := by
  change (∃ w', runOk (cacheOpen key) w = some (.ok (.opened v), w')) ↔ _
  split
  · next mem => exact reads_file_iff (runOk_hit free mem)
  · next absent => exact runOk_miss_iff free absent stored

def twoBytes : Bucket := (∅ : Bucket).insert "b.ts".toList [1, 2]

/-- A cache with one file, and a backend with another object. -/
def oneCached (maxSize : Int) (positive : 0 < maxSize) : World where
  backend := twoBytes
  cache :=
    { root := ["cache".toList]
      files := (∅ : AList fun _ : List Text => Bytes).insert ["cache".toList, "a.ts".toList] [7]
      size := 1, entries := ["a.ts".toList], lru := [⟨"a.ts".toList, 1⟩] }
  maxSize := maxSize
  positive := positive
  mutex := none

/-- The cached file makes room for the object. -/
theorem serves_backend_iff_eviction :
    ∃ w', (cacheOpen "b.ts".toList).run (perform 0) .ok [] (oneCached 2 (by decide)) =
      some (.ok (.opened [1, 2]), w') := by
  refine (serves_backend_iff (oneCached 2 (by decide)) "b.ts".toList [1, 2] rfl (by decide)).mpr ?_
  rw [if_neg (by decide)]
  exact ⟨[⟨"a.ts".toList, 1⟩], List.suffix_rfl, by decide, by decide⟩

/-- An object larger than the limit evicts its own file before it is opened. -/
theorem large_object_unreadable :
    ∃ (w : World) (key : Text) (v : Bytes), newCache twoBytes emptyDir 1 [] = some w ∧
      w.mutex = none ∧ w.backend.lookup key = some v ∧
      ¬ ∃ r w', (cacheOpen key).run (perform 0) .ok [] w = some (.ok r, w') := by
  obtain ⟨w, built, fails⟩ : ∃ w, newCache twoBytes emptyDir 1 [] = some w ∧
      (w.mutex = none ∧ w.backend.lookup "b.ts".toList = some [1, 2] ∧
        (runOk (cacheOpen "b.ts".toList) w).map Prod.fst = some (.error .failed)) :=
    ⟨_, rfl, rfl, rfl, rfl⟩
  refine ⟨w, "b.ts".toList, [1, 2], built, fails.1, fails.2.1, ?_⟩
  rintro ⟨r, w', run⟩
  have refused := fails.2.2
  unfold runOk at refused
  rw [run] at refused
  cases refused

end Vidsilo.Cache.Reads
