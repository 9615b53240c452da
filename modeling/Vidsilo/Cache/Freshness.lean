import Vidsilo.Cache.Bounds

/-!
# Reads after a Put or a Delete

After its backend write, `Put` takes every failure for a harmless miss and returns nil,
also when the index still has the key: the file of the older object stays and is served.
`Open` returns a reader that its own defer has closed when it cannot cache the object.
Without these, an object that was put is read back until the next `Put` or `Delete` of its
key, and a deleted one is not (`reads_follow_writes`).
-/
namespace Vidsilo.Cache.Freshness
open Library Library.Procedure Library.SlashPath Library.Transition Storage.Drivers Calls

/-- A `Put` of a key that is indexed reads back and writes, or else removes, its file. -/
def replaces : {β : Type} → CacheOp β → Outcome → World → Bool
  | _, .backendOpen key, outcome, w => outcome.isOk || key ∉ w.cache.entries
  | _, .mkdirAll key, outcome, w => outcome.isOk || key ∉ w.cache.entries
  | _, .create key, outcome, w => outcome.isOk || key ∉ w.cache.entries
  | _, .remove key, outcome, w => outcome.isOk || key ∉ w.cache.entries
  | _, _, _, _ => true

/-- A miss can cache its object. -/
def caches : {β : Type} → CacheOp β → Outcome → World → Bool
  | _, .mkdirAll _, outcome, _ => outcome.isOk
  | _, .createTemp _, outcome, _ => outcome.isOk
  | _, .rename _ _, outcome, _ => outcome.isOk
  | _, _, _, _ => true

/-- No `Put` or `Delete` of the key, and no `Put` or `Open` of another key whose file is the
same. -/
def apart (key : Text) (w : World) (a : Invocation) : Bool :=
  match a.request with
  | .put k _ => k ≠ key && w.cache.pathForKey k ≠ w.cache.pathForKey key
  | .open k => k = key || w.cache.pathForKey k ≠ w.cache.pathForKey key
  | .stat _ => true
  | .delete k => k ≠ key

/-- No `Put` of the key. -/
def notPut (key : Text) (_ : World) (a : Invocation) : Bool :=
  match a.request with
  | .put k _ => k ≠ key
  | _ => true

/-- The backend has the object, and nothing else is in the file of the key while the key is
indexed. -/
structure Fresh (key : Text) (v : Bytes) (root : List Text) (w : World) : Prop where
  root : w.cache.root = root
  backend : w.backend.lookup key = some v
  file : key ∈ w.cache.entries → ∀ b, w.file key = some b → b = v

/-- Indexed or not, nothing else is in the file. -/
structure Clean (key : Text) (v : Bytes) (root : List Text) (w : World) : Prop
    extends Fresh key v root w where
  clean : ∀ b, w.file key = some b → b = v

structure Gone (key : Text) (w : World) : Prop where
  backend : w.backend.lookup key = none
  index : key ∉ w.cache.entries

/-- The operation writes neither the object nor the file of the key. -/
def Spares (key : Text) (c : Cache) : {β : Type} → CacheOp β → Prop
  | _, .backendPut k _ => k ≠ key
  | _, .backendDelete k => k ≠ key
  | _, .insertLocked k _ => k ≠ key
  | _, .create k => c.pathForKey k ≠ c.pathForKey key
  | _, .copy k _ => c.pathForKey k ≠ c.pathForKey key
  | _, .rename k _ => c.pathForKey k ≠ c.pathForKey key
  | _, _ => True

variable {key : Text} {v : Bytes} {root : List Text} {w w' : World}

theorem Fresh.emptied (h : Fresh key v root w) (less : Emptied w w') : Fresh key v root w' := by
  obtain ⟨files, rfl, old⟩ := less
  exact ⟨h.root, h.backend, fun mem b found => h.file mem b (old _ b found)⟩

theorem Fresh.setFile (h : Fresh key v root w) {k : Text} (bytes : Bytes)
    (other : w.cache.pathForKey k ≠ w.cache.pathForKey key) :
    Fresh key v root (w.setFile k bytes) := by
  refine ⟨h.root, h.backend, fun mem b found => ?_⟩
  rw [file_setFile_ne w bytes other] at found
  exact h.file mem b found

theorem Clean.emptied (h : Clean key v root w) (less : Emptied w w') : Clean key v root w' := by
  refine ⟨h.toFresh.emptied less, fun b found => ?_⟩
  obtain ⟨files, rfl, old⟩ := less
  exact h.clean b (old _ b found)

/-- The index may lose the key, and the files stay. -/
theorem Fresh.index (h : Fresh key v root w) {c : Cache} (sameRoot : c.root = w.cache.root)
    (sameFiles : c.files = w.cache.files)
    (fewer : key ∈ c.entries → key ∈ w.cache.entries) :
    Fresh key v root { w with cache := c } := by
  refine ⟨sameRoot.trans h.root, h.backend, fun mem b found => ?_⟩
  apply h.file (fewer mem) b
  unfold World.file at found ⊢
  rwa [pathForKey_root sameRoot, sameFiles] at found

theorem fresh_perform {c : Cache} {id : CallId} {β : Type} (op : CacheOp β) (outcome : Outcome)
    (w : World) (b : β) (w' : World) (h : Fresh key v c.root w) (spares : Spares key c op)
    (taken : perform id op outcome w = some (b, w')) : Fresh key v c.root w' := by
  have other {k : Text} (apart : c.pathForKey k ≠ c.pathForKey key) :
      w.cache.pathForKey k ≠ w.cache.pathForKey key := by
    rwa [pathForKey_root h.root, pathForKey_root h.root]
  cases perform_effect taken with
  | nothing => exact h
  | owner => exact ⟨h.root, h.backend, h.file⟩
  | touch k =>
    apply h.index
    · exact root_moveToFront _ _
    · exact files_moveToFront _ _
    · exact fun mem => entries_moveToFront w.cache k ▸ mem
  | insert k size =>
    apply h.index
    · exact root_insertLocked _ _ _ _
    · exact files_insertLocked _ _ _ _
    · intro mem
      rcases Index.mem_insertLocked mem with rfl | old
      · exact absurd rfl spares
      · exact old
  | drop k =>
    apply h.index
    · exact root_removeLocked _ _
    · exact files_removeLocked _ _
    · exact mem_removeLocked
  | create k => exact h.setFile [] (other spares)
  | copy k bytes written => exact h.setFile written (other spares)
  | rename k bytes => exact h.setFile bytes (other spares)
  | remove k => exact h.emptied (emptied_removeFile w k)
  | put k bytes =>
    exact ⟨h.root, (AList.lookup_insert_ne (Ne.symm spares)).trans h.backend, h.file⟩
  | delete k =>
    exact ⟨h.root, (AList.lookup_erase_ne (Ne.symm spares)).trans h.backend, h.file⟩

theorem fresh_absent (same : w.cache.root = root) (stored : w.backend.lookup key = some v)
    (absent : key ∉ w.cache.entries) : Fresh key v root w :=
  ⟨same, stored, fun mem => absurd mem absent⟩

theorem wp_removeFiles {ok : {β : Type} → CacheOp β → Outcome → World → Bool}
    {post : Unit → World → Prop} {keys : List Text} {w : World}
    (h : ∀ w', Emptied w w' → post () w') :
    (removeFiles keys).Wp (perform 0) ok post w := by
  induction keys generalizing w with
  | nil => exact h w (.refl w)
  | cons k rest ih =>
    intro outcome _ w' _ taken
    apply ih
    intro w'' emptied
    apply h
    rcases attempt_cases taken with ⟨_, _, rfl⟩ | ⟨_, _, rfl⟩
    · exact (emptied_removeFile w k).trans emptied
    · exact emptied

/-- After the file is written, an insertion leaves nothing else in it. -/
theorem wp_insertLocked {ok : {β : Type} → CacheOp β → Outcome → World → Bool} {size : Nat}
    {w : World} (same : w.cache.root = root) (stored : w.backend.lookup key = some v)
    (written : w.file key = some v) :
    (insertLocked key size).Wp (perform 0) ok (fun _ w' => Clean key v root w') w := by
  intro outcome evicted w' _ taken
  cases taken
  apply wp_removeFiles
  intro w'' emptied
  have clean : ∀ b, World.file { w with
      cache := (Index.insertLocked w.maxSize w.cache key size).1 } key = some b → b = v := by
    intro b found
    unfold World.file at found written
    rw [pathForKey_root (root_insertLocked _ _ _ _), files_insertLocked, written] at found
    exact (Option.some.inj found).symm
  have inserted : Clean key v root
      { w with cache := (Index.insertLocked w.maxSize w.cache key size).1 } :=
    ⟨⟨(root_insertLocked _ _ _ _).trans same, stored, fun _ => clean⟩, clean⟩
  exact inserted.emptied emptied

theorem wp_unlock {ok : {β : Type} → CacheOp β → Outcome → World → Bool}
    {next : Unit → Procedure CacheOp α} {post : α → World → Prop}
    (h : (next ()).Wp (perform 0) ok post { w with mutex := none }) :
    (Procedure.call .unlock next).Wp (perform 0) ok post w := by
  intro outcome _ w' _ taken
  simp only [perform] at taken
  split at taken
  · cases taken
  · cases taken
    exact h

theorem wp_lock {ok : {β : Type} → CacheOp β → Outcome → World → Bool}
    {s : Section} {next : Unit → Procedure CacheOp α} {post : α → World → Prop}
    (h : (next ()).Wp (perform 0) ok post { w with mutex := some 0 }) :
    (Procedure.call (.lock s) next).Wp (perform 0) ok post w := by
  intro outcome _ w' _ taken
  simp only [perform] at taken
  split at taken
  · cases taken
    exact h
  · cases taken

/-- The part under the mutex, once the backend has the object. -/
theorem wp_storeCopy {size : Nat} {w : World} (same : w.cache.root = root)
    (stored : w.backend.lookup key = some v) :
    (storeCopy key v size).Wp (perform 0) replaces (fun _ w' => Fresh key v root w') w := by
  have failed {outcome : Outcome} (pass : (outcome.isOk || decide (key ∉ w.cache.entries)) = true)
      (fails : outcome.isOk = false) : key ∉ w.cache.entries := by
    simpa [fails] using pass
  intro mkdir _ w₁ pass made
  rcases attempt_cases made with ⟨_, rfl, rfl⟩ | ⟨fails, rfl, rfl⟩
  swap
  · exact fresh_absent same stored (failed pass fails)
  intro create _ w₂ pass created
  rcases attempt_cases created with ⟨_, rfl, rfl⟩ | ⟨fails, rfl, rfl⟩
  swap
  · exact fresh_absent same stored (failed pass fails)
  intro copy _ w₃ _ copied
  cases copy with
  | ok =>
    cases copied
    exact wp_mono (wp_insertLocked same stored (file_setFile _ key v)) fun _ _ => Clean.toFresh
  | fails written =>
    cases copied
    intro remove _ w₄ pass removed
    rcases attempt_cases removed with ⟨_, _, rfl⟩ | ⟨fails, _, rfl⟩
    · refine ⟨same, stored, fun _ b found => ?_⟩
      rw [file_removeFile, if_pos rfl] at found
      cases found
    · exact fresh_absent same stored (failed pass fails)

theorem wp_cachePut (key : Text) (v : Bytes) (w : World) :
    (cachePut key v).Wp (perform 0) replaces
      (fun r w' => r = .ok () → Fresh key v w.cache.root w') w := by
  intro put _ w₁ _ taken
  rcases attempt_cases taken with ⟨_, rfl, rfl⟩ | ⟨_, rfl, rfl⟩
  swap
  · exact fun refused => nomatch refused
  have stored : (w.backend.insert key v).lookup key = some v := AList.lookup_insert _
  intro back _ w₂ pass opened
  rcases attempt_cases opened with ⟨_, rfl, rfl⟩ | ⟨fails, rfl, rfl⟩
  swap
  · have absent : key ∉ w.cache.entries := by simpa [replaces, fails] using pass
    exact fun _ => fresh_absent rfl stored absent
  simp only [stored, found]
  intro stat fi w₃ _ read
  obtain rfl := perform_quiet rfl read
  apply wp_lock
  change Wp _ _ _ (storeCopy key v _ >>= _) _
  refine wp_bind (wp_mono (wp_storeCopy rfl stored) ?_)
  intro _ w' fresh
  apply wp_unlock
  exact fun _ => ⟨fresh.root, fresh.backend, fresh.file⟩

/-- The object, or a closed reader. -/
def Yields (v : Bytes) (r : Except StoreError Reader) : Prop :=
  ∀ reader, r = .ok reader → reader = .opened v ∨ reader = .closed

variable {ok : {β : Type} → CacheOp β → Outcome → World → Bool}

/-- A miss fetches the object. -/
theorem wp_fetch (h : Fresh key v root w) :
    (fetch key).Wp (perform 0) ok (fun r w' => Fresh key v root w' ∧ Yields v r) w := by
  have closed : Yields v (.ok .closed) := fun _ same => .inr (Except.ok.inj same).symm
  have failed : Yields v (.error .failed) := fun _ same => nomatch same
  intro back _ w₁ _ opened
  rcases attempt_cases opened with ⟨_, rfl, rfl⟩ | ⟨_, rfl, rfl⟩
  swap
  · exact ⟨h, failed⟩
  simp only [h.backend, found]
  intro _ made w₁ _ quiet
  obtain rfl := perform_quiet rfl quiet
  cases made with
  | false => exact ⟨h, closed⟩
  | true =>
  intro _ made w₁ _ quiet
  obtain rfl := perform_quiet rfl quiet
  cases made with
  | false => exact ⟨h, closed⟩
  | true =>
  intro _ made w₁ _ quiet
  obtain rfl := perform_quiet rfl quiet
  cases made with
  | false => exact ⟨h, failed⟩
  | true =>
  intro _ made w₁ _ quiet
  obtain rfl := perform_quiet rfl quiet
  cases made with
  | false => exact ⟨h, failed⟩
  | true =>
  intro rename _ w₂ _ renamed
  rcases attempt_cases renamed with ⟨_, rfl, rfl⟩ | ⟨_, rfl, rfl⟩
  swap
  · exact ⟨h, closed⟩
  have written : (w₁.setFile key v).file key = some v := file_setFile w₁ key v
  apply wp_lock
  change Wp _ _ _ (insertLocked key v.length >>= _) _
  refine wp_bind (wp_mono (wp_insertLocked h.root h.backend written) ?_)
  intro _ w' clean
  apply wp_unlock
  intro opening f w'' _ opened
  have fresh : Fresh key v root w' := clean.toFresh
  rcases attempt_cases opened with ⟨_, rfl, rfl⟩ | ⟨_, rfl, rfl⟩
  · refine ⟨⟨fresh.root, fresh.backend, fresh.file⟩, ?_⟩
    change Yields v (served (w'.file key))
    cases file : w'.file key with
    | none => exact failed
    | some b =>
      obtain rfl := clean.clean b file
      exact fun _ same => .inl (Except.ok.inj same).symm
  · exact ⟨⟨fresh.root, fresh.backend, fresh.file⟩, failed⟩

theorem Fresh.mutex (h : Fresh key v root w) (owner : Option CallId) :
    Fresh key v root { w with mutex := owner } := ⟨h.root, h.backend, h.file⟩

theorem wp_cacheOpen (h : Fresh key v root w) :
    (cacheOpen key).Wp (perform 0) ok (fun r w' => Fresh key v root w' ∧ Yields v r) w := by
  apply wp_lock
  intro _ size w₁ _ moved
  cases moved
  have touched : Fresh key v root { w with cache := (Index.moveToFront w.cache key).2 } := by
    apply h.index
    · exact root_moveToFront _ _
    · exact files_moveToFront _ _
    · exact fun mem => entries_moveToFront w.cache key ▸ mem
  by_cases mem : key ∈ w.cache.entries
  · obtain ⟨size, hit⟩ := Index.moveToFront_indexed mem
    simp only [hit]
    apply wp_unlock
    intro _ f w₂ _ opened
    have served : w₂ = { w with cache := (Index.moveToFront w.cache key).2, mutex := none } ∧
        ∀ b, f = some b → b = v := by
      rcases attempt_cases opened with ⟨_, rfl, rfl⟩ | ⟨_, rfl, rfl⟩
      · exact ⟨rfl, touched.file ((entries_moveToFront w.cache key).symm ▸ mem)⟩
      · refine ⟨rfl, ?_⟩
        intro b none
        cases none
    obtain ⟨rfl, served⟩ := served
    cases f with
    | some b =>
      refine ⟨touched.mutex none, fun _ same => .inl ?_⟩
      rw [← Except.ok.inj same, served b rfl]
    | none =>
      -- The second Unlock ends the process.
      apply wp_lock
      intro _ _ w₃ _ removed
      cases removed
      apply wp_unlock
      intro _ _ w₄ _ died
      cases died
  · simp only [Index.moveToFront_absent mem]
    apply wp_unlock
    exact wp_fetch (h.mutex none)

/-- A reader that is returned closed comes from a miss that could not be cached. -/
theorem wp_fetch_caches (key : Text) (w : World) :
    (fetch key).Wp (perform 0) caches (fun r _ => r ≠ .ok .closed) w := by
  intro _ back w₁ _ _
  cases back with
  | error err => exact fun same => nomatch same
  | ok rc =>
  intro _ made w₂ able taken
  rcases attempt_cases taken with ⟨_, rfl, _⟩ | ⟨fails, _, _⟩
  swap
  · exact absurd (able.symm.trans fails) (by decide)
  intro _ made w₃ able taken
  rcases attempt_cases taken with ⟨_, rfl, _⟩ | ⟨fails, _, _⟩
  swap
  · exact absurd (able.symm.trans fails) (by decide)
  intro _ copied w₄ _ _
  cases copied with
  | false => exact fun same => nomatch same
  | true =>
  intro _ closed w₅ _ _
  cases closed with
  | false => exact fun same => nomatch same
  | true =>
  intro _ made w₆ able taken
  rcases attempt_cases taken with ⟨_, rfl, _⟩ | ⟨fails, _, _⟩
  swap
  · exact absurd (able.symm.trans fails) (by decide)
  apply wp_lock
  change Wp _ _ _ (insertLocked key rc.length >>= _) _
  refine wp_bind (wp_any ?_)
  intro _ w₇
  apply wp_unlock
  intro _ f w₈ _ _
  cases f with
  | none => exact fun same => nomatch same
  | some bytes => exact fun same => nomatch same

theorem wp_cacheOpen_caches (key : Text) (w : World) :
    (cacheOpen key).Wp (perform 0) caches (fun r _ => r ≠ .ok .closed) w := by
  apply wp_lock
  intro _ size w₁ _ _
  cases size with
  | none =>
    apply wp_unlock
    exact wp_fetch_caches key _
  | some size =>
    apply wp_unlock
    intro _ f w₂ _ _
    cases f with
    | some bytes => exact fun same => nomatch same
    | none =>
      apply wp_lock
      intro _ _ w₃ _ _
      apply wp_unlock
      apply wp_unlock
      exact wp_fetch_caches key _

/-- The operation writes nothing under another key, but for the files that an eviction
removes. -/
def Writes (key : Text) : {β : Type} → CacheOp β → Prop
  | _, .backendPut k _ => k = key
  | _, .backendDelete k => k = key
  | _, .insertLocked k _ => k = key
  | _, .create k => k = key
  | _, .copy k _ => k = key
  | _, .rename k _ => k = key
  | _, _ => True

theorem writes_removeFiles (keys : List Text) : (removeFiles keys).Uses (Writes key) := by
  induction keys with
  | nil => trivial
  | cons k rest ih => exact ⟨trivial, fun _ => ih⟩

theorem writes_insertLocked (key : Text) (size : Nat) :
    (insertLocked key size).Uses (Writes key) := ⟨rfl, fun evicted => writes_removeFiles evicted⟩

theorem writes_storeCopy (key : Text) (rc : Bytes) (size : Nat) :
    (storeCopy key rc size).Uses (Writes key) := by
  refine ⟨trivial, fun made => ?_⟩
  cases made with
  | false => trivial
  | true =>
    refine ⟨rfl, fun created => ?_⟩
    cases created with
    | false => trivial
    | true =>
      refine ⟨rfl, fun copied => ?_⟩
      cases copied with
      | false => exact ⟨trivial, fun _ => trivial⟩
      | true => exact writes_insertLocked key size

theorem writes_cachePut (key : Text) (bytes : Bytes) :
    (cachePut key bytes).Uses (Writes key) := by
  refine ⟨rfl, fun put => ?_⟩
  cases put with
  | error err => trivial
  | ok _ =>
    refine ⟨trivial, fun opened => ?_⟩
    cases opened with
    | error err => trivial
    | ok rc =>
      refine ⟨trivial, fun fi => ⟨trivial, fun _ => ?_⟩⟩
      change (storeCopy key rc _ >>= _).Uses _
      exact uses_bind (writes_storeCopy key rc _) fun _ => ⟨trivial, fun _ => trivial⟩

theorem writes_fetch (key : Text) : (fetch key).Uses (Writes key) := by
  refine ⟨trivial, fun opened => ?_⟩
  cases opened with
  | error err => trivial
  | ok rc =>
    refine ⟨trivial, fun made => ?_⟩
    cases made with
    | false => trivial
    | true =>
      refine ⟨trivial, fun created => ?_⟩
      cases created with
      | false => trivial
      | true =>
        refine ⟨trivial, fun copied => ?_⟩
        cases copied with
        | false => trivial
        | true =>
          refine ⟨trivial, fun closed => ?_⟩
          cases closed with
          | false => trivial
          | true =>
            refine ⟨rfl, fun renamed => ?_⟩
            cases renamed with
            | false => trivial
            | true =>
              refine ⟨trivial, fun _ => ?_⟩
              change (insertLocked key _ >>= _).Uses _
              refine uses_bind (writes_insertLocked key _) fun _ => ?_
              exact ⟨trivial, fun _ => ⟨trivial, fun _ => trivial⟩⟩

theorem writes_cacheOpen (key : Text) : (cacheOpen key).Uses (Writes key) := by
  refine ⟨trivial, fun _ => ⟨trivial, fun size => ?_⟩⟩
  cases size with
  | none => exact ⟨trivial, fun _ => writes_fetch key⟩
  | some size =>
    refine ⟨trivial, fun _ => ⟨trivial, fun opened => ?_⟩⟩
    cases opened with
    | some bytes => trivial
    | none =>
      exact ⟨trivial, fun _ => ⟨trivial, fun _ => ⟨trivial, fun _ => ⟨trivial, fun _ =>
        writes_fetch key⟩⟩⟩⟩

theorem spares_of_writes {c : Cache} {k : Text} {β : Type} (op : CacheOp β) (other : k ≠ key)
    (path : c.pathForKey k ≠ c.pathForKey key) (h : Writes k op) : Spares key c op := by
  cases op with
  | backendPut k' bytes => exact h ▸ other
  | backendDelete k' => exact h ▸ other
  | insertLocked k' size => exact h ▸ other
  | create k' => exact h ▸ path
  | copy k' bytes => exact h ▸ path
  | rename k' bytes => exact h ▸ path
  | _ => trivial

/-- Calls apart from the key spare its object and its file. -/
theorem uses_spares {a : Invocation} (h : apart key w a = true)
    (other : a.request ≠ .open key) : (body a.request).Uses (Spares key w.cache) := by
  obtain ⟨request, outcomes⟩ := a
  cases request with
  | put k bytes =>
    simp only [apart, ne_eq, decide_not, Bool.and_eq_true, Bool.not_eq_true',
      decide_eq_false_iff_not] at h
    refine uses_bind ?_ fun _ => trivial
    exact uses_mono (writes_cachePut k bytes) fun op => spares_of_writes op h.1 h.2
  | «open» k =>
    have apartKey : k ≠ key := by
      rintro rfl
      exact other rfl
    have path : w.cache.pathForKey k ≠ w.cache.pathForKey key := by
      simpa [apart, apartKey] using h
    refine uses_bind ?_ fun _ => trivial
    exact uses_mono (writes_cacheOpen k) fun op => spares_of_writes op apartKey path
  | stat k =>
    refine uses_bind ?_ fun _ => trivial
    refine ⟨trivial, fun _ => ⟨trivial, fun size => ?_⟩⟩
    cases size with
    | none => exact ⟨trivial, fun _ => ⟨trivial, fun _ => trivial⟩⟩
    | some size => exact ⟨trivial, fun _ => trivial⟩
  | delete k =>
    have apartKey : k ≠ key := by simpa [apart] using h
    refine uses_bind ?_ fun _ => trivial
    exact ⟨trivial, fun _ => ⟨trivial, fun _ => ⟨trivial, fun _ => ⟨trivial, fun _ =>
      ⟨apartKey, fun _ => trivial⟩⟩⟩⟩⟩

theorem fresh_invoke {a : Invocation} (h : Fresh key v root w) (other : apart key w a = true)
    (taken : invoke w a = some w') : Fresh key v root w' := by
  obtain ⟨⟨reply, last⟩, run, rfl⟩ := Option.map_eq_some_iff.mp taken
  by_cases own : a.request = .open key
  · rw [own] at run
    obtain ⟨r, m, later, opened, rest⟩ := run_bind run
    cases rest
    exact (wp_run (wp_cacheOpen h) (check_always _ _ _) opened).1
  · have root : w.cache.root = root := h.root
    subst root
    exact run_uses fresh_perform h (uses_spares other own) run

/-- The operation does not bring the key back. -/
def Withholds (key : Text) : {β : Type} → CacheOp β → Prop
  | _, .backendPut k _ => k ≠ key
  | _, .insertLocked k _ => k ≠ key
  | _, _ => True

theorem gone_perform {id : CallId} {β : Type} (op : CacheOp β) (outcome : Outcome)
    (w : World) (b : β) (w' : World) (h : Gone key w) (withholds : Withholds key op)
    (taken : perform id op outcome w = some (b, w')) : Gone key w' := by
  cases perform_effect taken with
  | nothing => exact h
  | owner => exact ⟨h.backend, h.index⟩
  | touch k => exact ⟨h.backend, fun mem => h.index (entries_moveToFront w.cache k ▸ mem)⟩
  | insert k size =>
    refine ⟨h.backend, fun mem => ?_⟩
    rcases Index.mem_insertLocked mem with rfl | old
    · exact withholds rfl
    · exact h.index old
  | drop k => exact ⟨h.backend, fun mem => h.index (mem_removeLocked mem)⟩
  | create k => exact ⟨h.backend, h.index⟩
  | copy k bytes written => exact ⟨h.backend, h.index⟩
  | rename k bytes => exact ⟨h.backend, h.index⟩
  | remove k => exact ⟨h.backend, h.index⟩
  | put k bytes =>
    exact ⟨(AList.lookup_insert_ne (Ne.symm withholds)).trans h.backend, h.index⟩
  | delete k =>
    refine ⟨?_, h.index⟩
    by_cases same : key = k
    · subst same
      exact AList.lookup_erase _ _
    · exact (AList.lookup_erase_ne same).trans h.backend

theorem withholds_of_writes {k : Text} {β : Type} (op : CacheOp β) (other : k ≠ key)
    (h : Writes k op) : Withholds key op := by
  cases op with
  | backendPut k' bytes => exact h ▸ other
  | insertLocked k' size => exact h ▸ other
  | _ => trivial

/-- A key that is gone cannot be opened. -/
theorem wp_cacheOpen_gone (h : Gone key w) :
    (cacheOpen key).Wp (perform 0) ok (fun r w' => Gone key w' ∧ ∃ err, r = .error err) w := by
  apply wp_lock
  intro _ size w₁ _ moved
  cases moved
  simp only [Index.moveToFront_absent h.index]
  apply wp_unlock
  intro _ back w₂ _ opened
  rcases attempt_cases opened with ⟨_, rfl, rfl⟩ | ⟨_, rfl, rfl⟩
  · simp only [h.backend, found]
    exact ⟨⟨h.backend, h.index⟩, _, rfl⟩
  · exact ⟨⟨h.backend, h.index⟩, _, rfl⟩

theorem uses_withholds {a : Invocation} (h : notPut key w a = true)
    (other : a.request ≠ .open key) : (body a.request).Uses (Withholds key) := by
  obtain ⟨request, outcomes⟩ := a
  cases request with
  | put k bytes =>
    have apartKey : k ≠ key := by simpa [notPut] using h
    refine uses_bind ?_ fun _ => trivial
    exact uses_mono (writes_cachePut k bytes) fun op => withholds_of_writes op apartKey
  | «open» k =>
    have apartKey : k ≠ key := by
      rintro rfl
      exact other rfl
    refine uses_bind ?_ fun _ => trivial
    exact uses_mono (writes_cacheOpen k) fun op => withholds_of_writes op apartKey
  | stat k =>
    refine uses_bind ?_ fun _ => trivial
    refine ⟨trivial, fun _ => ⟨trivial, fun size => ?_⟩⟩
    cases size with
    | none => exact ⟨trivial, fun _ => ⟨trivial, fun _ => trivial⟩⟩
    | some size => exact ⟨trivial, fun _ => trivial⟩
  | delete k =>
    refine uses_bind ?_ fun _ => trivial
    exact ⟨trivial, fun _ => ⟨trivial, fun _ => ⟨trivial, fun _ => ⟨trivial, fun _ =>
      ⟨trivial, fun _ => trivial⟩⟩⟩⟩⟩

theorem gone_invoke {a : Invocation} (h : Gone key w) (other : notPut key w a = true)
    (taken : invoke w a = some w') : Gone key w' := by
  obtain ⟨⟨reply, last⟩, run, rfl⟩ := Option.map_eq_some_iff.mp taken
  by_cases own : a.request = .open key
  · rw [own] at run
    obtain ⟨r, m, later, opened, rest⟩ := run_bind run
    cases rest
    exact (wp_run (wp_cacheOpen_gone h) (check_always _ _ _) opened).1
  · exact run_uses gone_perform h (uses_withholds other own) run

theorem nodup_perform {id : CallId} {β : Type} (op : CacheOp β) (outcome : Outcome)
    (w : World) (b : β) (w' : World) (h : w.cache.entries.Nodup)
    (taken : perform id op outcome w = some (b, w')) : w'.cache.entries.Nodup := by
  cases perform_effect taken with
  | touch k => exact (entries_moveToFront w.cache k).symm ▸ h
  | insert k size => exact Index.nodup_insertLocked _ _ _ h
  | drop k => exact Index.nodup_removeLocked k h
  | _ => exact h

theorem nodup_invoke {a : Invocation} (h : w.cache.entries.Nodup)
    (taken : invoke w a = some w') : w'.cache.entries.Nodup := by
  obtain ⟨⟨reply, last⟩, run, rfl⟩ := Option.map_eq_some_iff.mp taken
  have keeps : ∀ {β : Type} (op : CacheOp β) (i : Outcome) (s : World) (b : β) (s' : World),
      s.cache.entries.Nodup → true = true → perform 0 op i s = some (b, s') →
      s'.cache.entries.Nodup := fun op i s b s' before _ => nodup_perform op i s b s' before
  exact run_keeps keeps h (check_always _ _ _) run

theorem wp_cacheDelete (unique : w.cache.entries.Nodup) :
    (cacheDelete key).Wp (perform 0) ok (fun r w' => r = .ok () → Gone key w') w := by
  apply wp_lock
  intro _ _ w₁ _ removed
  cases removed
  apply wp_unlock
  intro _ _ w₂ _ removed _ r w₃ _ deleted
  have absent : key ∉ w₂.cache.entries := by
    rcases attempt_cases removed with ⟨_, _, rfl⟩ | ⟨_, _, rfl⟩
    · exact Index.not_mem_removeLocked unique
    · exact Index.not_mem_removeLocked unique
  rcases attempt_cases deleted with ⟨_, rfl, rfl⟩ | ⟨_, rfl, rfl⟩
  · exact fun _ => ⟨AList.lookup_erase _ _, absent⟩
  · exact fun refused => nomatch refused

/-- In every run on a cache built from any directory: once a `Put` that writes its copy, or
removes the old one, returns nil, and until the next `Put` or `Delete` of the key, an `Open`
that succeeds, and can cache what it fetches, yields the object; and once a `Delete` returns
nil, no `Open` succeeds until the next `Put` of the key. -/
theorem reads_follow_writes (backend : Bucket) (dir : Local) (maxSize : Int)
    (started : List Outcome) (new : World) (built : newCache backend dir maxSize started = some new)
    (earlier : List Invocation) (w : World) (before : Run invoke Always new earlier w)
    (key : Text) :
    (∀ (v : Bytes) (outcomes : List Outcome) (w₁ : World),
      (cachePut key v).run (perform 0) .ok outcomes w = some (.ok (), w₁) →
      (cachePut key v).check (perform 0) .ok replaces outcomes w = true →
      ∀ (later : List Invocation) (w₂ : World),
        Run invoke (fun w a => apart key w a = true) w₁ later w₂ →
        ∀ (outcomes' : List Outcome) (reader : Reader) (w₃ : World),
          (cacheOpen key).run (perform 0) .ok outcomes' w₂ = some (.ok reader, w₃) →
          (cacheOpen key).check (perform 0) .ok caches outcomes' w₂ = true →
          reader = .opened v) ∧
    ∀ (outcomes : List Outcome) (w₁ : World),
      (cacheDelete key).run (perform 0) .ok outcomes w = some (.ok (), w₁) →
      ∀ (later : List Invocation) (w₂ : World),
        Run invoke (fun w a => notPut key w a = true) w₁ later w₂ →
        ∀ (outcomes' : List Outcome) (r : Except StoreError Reader) (w₃ : World),
          (cacheOpen key).run (perform 0) .ok outcomes' w₂ = some (r, w₃) →
          ∃ err, r = .error err := by
  have unique : w.cache.entries.Nodup := by
    apply before.invariant (fun w => w.cache.entries.Nodup)
    · exact (Bounds.bounded_newCache built).unique
    · exact fun _ _ _ h _ taken => nodup_invoke h taken
  constructor
  · intro v outcomes w₁ put replaced later w₂ calls outcomes' reader w₃ opened cached
    have written : Fresh key v w.cache.root w₁ := wp_run (wp_cachePut key v w) replaced put rfl
    have still : Fresh key v w.cache.root w₂ := calls.invariant (Fresh key v w.cache.root) written
      fun _ _ _ h other taken => fresh_invoke h other taken
    have yields := (wp_run (wp_cacheOpen still) (check_always _ _ _) opened).2
    rcases yields reader rfl with object | closed
    · exact object
    · subst closed
      exact absurd rfl (wp_run (wp_cacheOpen_caches key w₂) cached opened)
  · intro outcomes w₁ deleted later w₂ calls outcomes' r w₃ opened
    have gone : Gone key w₁ := wp_run (wp_cacheDelete unique) (check_always _ _ _) deleted rfl
    have still : Gone key w₂ := calls.invariant (Gone key) gone
      fun _ _ _ h other taken => gone_invoke h other taken
    exact (wp_run (wp_cacheOpen_gone still) (check_always _ _ _) opened).2

def playlist : Text := "master.m3u8".toList

def putOnce : List Invocation := [⟨.put playlist [1], []⟩]

def readAnother : List Invocation := [⟨.open "a.ts".toList, []⟩]

/-- The playlist is put again, another object is read, and the playlist is read. -/
theorem reads_follow_writes_rewritten :
    ∃ (w w₁ w₂ w₃ : World) (reader : Reader), playlist ∈ w.cache.entries ∧
      (cachePut playlist [2, 2]).run (perform 0) .ok [] w = some (.ok (), w₁) ∧
      Run invoke (fun w a => apart playlist w a = true) w₁ readAnother w₂ ∧
      (cacheOpen playlist).run (perform 0) .ok [] w₂ = some (.ok reader, w₃) ∧
      reader = .opened [2, 2] := by
  have runs : ((newCache ∅ emptyDir 10 []).any fun new =>
      (exec invoke (fun _ _ => true) new putOnce).any fun w => playlist ∈ w.cache.entries &&
        (cachePut playlist [2, 2]).check (perform 0) .ok replaces [] w &&
        ((cachePut playlist [2, 2]).run (perform 0) .ok [] w).any fun put => put.1 = .ok () &&
          (exec invoke (apart playlist) put.2 readAnother).any fun w₂ =>
            (cacheOpen playlist).check (perform 0) .ok caches [] w₂ &&
            ((cacheOpen playlist).run (perform 0) .ok [] w₂).any fun read =>
              read.1 = .ok (.opened [2, 2])) = true := by
    decide +kernel
  simp only [Option.any_eq_true, Bool.and_eq_true, decide_eq_true_eq, Prod.exists] at runs
  obtain ⟨new, built, w, before, ⟨mem, replaced⟩, _, w₁, put, rfl, w₂, later, cached, _, w₃,
    opened, rfl⟩ := runs
  have first : Run invoke Always new putOnce w := run_of_exec (fun _ _ _ => trivial) before
  have others : Run invoke (fun w a => apart playlist w a = true) w₁ readAnother w₂ :=
    run_of_exec (fun _ _ h => h) later
  refine ⟨w, w₁, w₂, w₃, .opened [2, 2], mem, put, others, opened, ?_⟩
  exact (reads_follow_writes ∅ emptyDir 10 [] new built putOnce w first playlist).1 [2, 2] [] w₁
    put replaced readAnother w₂ others [] (.opened [2, 2]) w₃ opened cached

/-- The backend cannot be read back after the second Put. -/
theorem old_object_read_after_put :
    ∃ (new w w₁ w₃ : World) (key : Text) (v : Bytes) (reader : Reader) (outcomes : List Outcome),
      newCache ∅ emptyDir 10 [] = some new ∧ Run invoke Always new putOnce w ∧
      (cachePut key v).run (perform 0) .ok outcomes w = some (.ok (), w₁) ∧
      (cacheOpen key).run (perform 0) .ok [] w₁ = some (.ok reader, w₃) ∧ reader ≠ .opened v := by
  have runs : ((newCache ∅ emptyDir 10 []).any fun new =>
      (exec invoke (fun _ _ => true) new putOnce).any fun w =>
        ((cachePut playlist [2, 2]).run (perform 0) .ok [.ok, .fails 0] w).any fun put =>
          put.1 = .ok () && ((cacheOpen playlist).run (perform 0) .ok [] put.2).any fun read =>
            read.1 = .ok (.opened [1])) = true := by
    decide +kernel
  simp only [Option.any_eq_true, Bool.and_eq_true, decide_eq_true_eq, Prod.exists] at runs
  obtain ⟨new, built, w, before, _, w₁, put, rfl, _, w₃, opened, rfl⟩ := runs
  have first : Run invoke Always new putOnce w := run_of_exec (fun _ _ _ => trivial) before
  exact ⟨new, w, w₁, w₃, playlist, [2, 2], .opened [1], [.ok, .fails 0], built, first, put, opened,
    by decide⟩

end Vidsilo.Cache.Freshness
