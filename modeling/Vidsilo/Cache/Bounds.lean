import Vidsilo.Cache.Calls

/-!
# The recorded size of the cache

`insertLocked` gives an entry that is there a new size without counting it. As long as
every entry that is inserted again has the size on record, the recorded size is the sum
of the entries' sizes and stays within the limit, whatever fails.
-/
namespace Vidsilo.Cache.Bounds
open Library Library.Procedure Library.SlashPath Library.Transition Storage.Drivers Index Calls

/-- The operation does not give an entry that is there another size. -/
def sameSize : {β : Type} → CacheOp β → Outcome → World → Bool
  | _, .insertLocked key size, _, w =>
    key ∉ w.cache.entries || recorded w.cache key = some (size : Int)
  | _, _, _, _ => true

def keepsSizes (w : World) (a : Invocation) : Bool :=
  (body a.request).check (perform 0) .ok sameSize a.outcomes w

def Bounded (w : World) : Prop := Index.Bounded w.maxSize w.cache

/-- The index says nothing about the files. -/
theorem bounded_files {maxSize : Int} {c : Cache} (h : Index.Bounded maxSize c)
    (files : AList fun _ : List Text => Bytes) : Index.Bounded maxSize { c with files := files } :=
  ⟨⟨h.size, h.same, h.unique⟩, h.bound, h.nonneg⟩

theorem bounded_perform {id : CallId} {β : Type} (op : CacheOp β) (outcome : Outcome)
    (w : World) (b : β) (w' : World) (h : Bounded w) (same : sameSize op outcome w = true)
    (taken : perform id op outcome w = some (b, w')) : Bounded w' := by
  cases perform_effect taken with
  | nothing => exact h
  | owner => exact h
  | touch key => exact bounded_moveToFront key h
  | insert key size =>
    apply bounded_insertLocked w.positive h
    intro mem
    simpa [sameSize, mem] using same
  | drop key => exact bounded_removeLocked key h
  | create key => exact bounded_files h _
  | copy key bytes written => exact bounded_files h _
  | rename key bytes => exact bounded_files h _
  | remove key => exact bounded_files h _
  | put key bytes => exact h
  | delete key => exact h

theorem bounded_invoke {w w' : World} {a : Invocation} (h : Bounded w)
    (same : keepsSizes w a = true) (taken : invoke w a = some w') : Bounded w' := by
  obtain ⟨⟨reply, last⟩, run, rfl⟩ := Option.map_eq_some_iff.mp taken
  exact run_keeps bounded_perform h same run

theorem bounded_emptied {w w' : World} (h : Bounded w) (emptied : Emptied w w') :
    Bounded w' := by
  obtain ⟨files, rfl, _⟩ := emptied
  exact bounded_files h files

/-- Every file is inserted once. -/
theorem bounded_rebuildIndex {names : List Text} {outcomes : List Outcome} {w w' : World}
    (distinct : names.Nodup) (new : ∀ k ∈ names, k ∉ w.cache.entries) (h : Bounded w)
    (run : (rebuildIndex names).run (perform 0) .ok outcomes w = some ((), w')) : Bounded w' := by
  induction names generalizing outcomes w with
  | nil =>
    cases run
    exact h
  | cons key rest ih =>
    obtain ⟨notLater, distinct⟩ := List.nodup_cons.mp distinct
    have newRest : ∀ k ∈ rest, k ∉ w.cache.entries := fun k mem => new k (.tail _ mem)
    obtain ⟨size, m, stat, run⟩ := run_call run
    have same : m = w := by
      rcases attempt_cases stat with ⟨_, _, unchanged⟩ | ⟨_, _, unchanged⟩
      · exact unchanged
      · exact unchanged
    subst same
    cases size with
    | none => exact ih distinct newRest h run
    | some size =>
      obtain ⟨_, run⟩ := run_lock run
      obtain ⟨inserted, later, emptied, run⟩ := run_insertLocked run
      obtain ⟨_, run⟩ := run_unlock run
      have fits : Bounded { inserted with mutex := none } := by
        change Bounded inserted
        refine bounded_emptied ?_ emptied
        apply bounded_insertLocked m.positive h
        intro mem
        exact absurd mem (new key (.head _))
      refine ih distinct ?_ fits run
      intro k mem inside
      obtain ⟨files, rfl, _⟩ := emptied
      rcases mem_insertLocked inside with rfl | old
      · exact notLater mem
      · exact newRest k mem old

theorem listCacheFiles_nodup (dir : Local) : (listCacheFiles dir).Nodup := by
  apply List.Nodup.map_on _ dir.files.nodupKeys
  intro p hp q hq same
  obtain ⟨hne, hseg⟩ := dir.segments p hp
  obtain ⟨hne', hseg'⟩ := dir.segments q hq
  rw [← components_joinSlash p hne fun c hc => (hseg c hc).2, same,
    components_joinSlash q hne' fun c hc => (hseg' c hc).2]

theorem bounded_newCache {backend : Bucket} {dir : Local} {maxSize : Int}
    {outcomes : List Outcome} {w : World} (h : newCache backend dir maxSize outcomes = some w) :
    Bounded w := by
  unfold newCache at h
  split at h
  · next positive =>
    obtain ⟨⟨_, last⟩, run, rfl⟩ := Option.map_eq_some_iff.mp h
    apply bounded_rebuildIndex (listCacheFiles_nodup dir) _ _ run
    · intro k _ inside
      cases inside
    · refine ⟨⟨rfl, List.Perm.refl [], List.nodup_nil⟩, Int.le_of_lt positive, ?_⟩
      intro e mem
      cases mem
  · cases h

/-- In every run on a cache built from any directory whose calls insert no entry again
under another size, the recorded size is the sum of the entries' sizes and within the
limit, and the map and the list hold the same keys, each once. -/
theorem recorded_size_exact (backend : Bucket) (dir : Local) (maxSize : Int)
    (outcomes : List Outcome) (fresh : World)
    (built : newCache backend dir maxSize outcomes = some fresh) (trace : List Invocation)
    (w : World) (h : Run invoke (fun w a => keepsSizes w a = true) fresh trace w) :
    w.cache.size = (w.cache.lru.map CacheEntry.size).sum ∧
      (w.cache.lru.map CacheEntry.key).Perm w.cache.entries ∧ w.cache.entries.Nodup ∧
      w.cache.size ≤ w.maxSize := by
  have bounded : Bounded w := h.invariant Bounded (bounded_newCache built)
    fun _ _ _ before same taken => bounded_invoke before same taken
  exact ⟨bounded.size, bounded.same, bounded.unique, bounded.bound⟩

/-- A file of three bytes, left from an earlier process. -/
def oneFile : Local where
  root := emptyDir.root
  rooted := emptyDir.rooted
  files := (∅ : AList fun _ : FilePath => Bytes).insert ["a.ts".toList] [1, 1, 1]
  segments := by decide

/-- The old file is evicted; the same playlist is put twice. -/
def sameSizeTrace : List Invocation :=
  [⟨.put "master.m3u8".toList [2, 2], []⟩, ⟨.put "master.m3u8".toList [3, 3], []⟩,
    ⟨.open "a.ts".toList, []⟩, ⟨.stat "master.m3u8".toList, []⟩, ⟨.delete "b.ts".toList, []⟩]

theorem recorded_size_exact_eviction :
    ∃ w : World, w.cache.entries = ["master.m3u8".toList] ∧
      w.cache.size = (w.cache.lru.map CacheEntry.size).sum ∧
      (w.cache.lru.map CacheEntry.key).Perm w.cache.entries ∧ w.cache.entries.Nodup ∧
      w.cache.size ≤ w.maxSize := by
  obtain ⟨fresh, built, runs⟩ : ∃ fresh, newCache ∅ oneFile 4 [] = some fresh ∧
      ((exec invoke keepsSizes fresh sameSizeTrace).any
        (·.cache.entries = ["master.m3u8".toList])) = true := by
    refine (Option.any_eq_true (fun fresh => (exec invoke keepsSizes fresh sameSizeTrace).any
      (·.cache.entries = ["master.m3u8".toList])) _).mp ?_
    decide +kernel
  obtain ⟨w, run, entries⟩ := exists_run (fun _ _ h => h) runs
  exact ⟨w, of_decide_eq_true entries,
    recorded_size_exact ∅ oneFile 4 [] fresh built sameSizeTrace w run⟩

/-- The master playlist is built again and is longer. -/
def growingTrace : List Invocation :=
  [⟨.put "master.m3u8".toList [1], []⟩, ⟨.put "master.m3u8".toList [1, 2], []⟩]

theorem rewritten_object_not_counted :
    ∃ (backend : Bucket) (dir : Local) (maxSize : Int) (outcomes : List Outcome) (fresh w : World)
      (trace : List Invocation), newCache backend dir maxSize outcomes = some fresh ∧
        Run invoke Always fresh trace w ∧
        w.cache.size ≠ (w.cache.lru.map CacheEntry.size).sum := by
  obtain ⟨fresh, built, runs⟩ : ∃ fresh, newCache ∅ emptyDir 10 [] = some fresh ∧
      ((exec invoke (fun _ _ => true) fresh growingTrace).any
        fun w => w.cache.size ≠ (w.cache.lru.map CacheEntry.size).sum) = true := by
    refine (Option.any_eq_true (fun fresh => (exec invoke (fun _ _ => true) fresh growingTrace).any
      fun w => w.cache.size ≠ (w.cache.lru.map CacheEntry.size).sum) _).mp ?_
    decide +kernel
  obtain ⟨w, run, differs⟩ := exists_always runs
  exact ⟨∅, emptyDir, 10, [], fresh, w, growingTrace, built, run, of_decide_eq_true differs⟩

end Vidsilo.Cache.Bounds
