import Vidsilo.Cache.Index
import Vidsilo.Library.Mutex

/-!
# Calls on the disk cache

Source: internal/store/cache.go:37-93, 124-247. Every call is a procedure over the
operations of the backend, of the cache directory, of the index and of the mutex, in the
order of the source; `perform` is what one of them does. The backend holds one object a
key. A reader yields the bytes the object had when it was opened. The outcome of a call
outside the process is an input: a directory in the way of a file, a full disk and an
unreachable backend are failures alike. Temporary files are known to their call only.
-/
namespace Vidsilo.Cache.Calls
open Library Library.Procedure Library.SlashPath Library.Mutex Storage.Drivers

abbrev CallId := Nat

structure World where
  backend : Bucket
  cache : Cache
  maxSize : Int
  /-- Checked by `NewCache`. -/
  positive : 0 < maxSize
  mutex : Option CallId

inductive Outcome where
  | ok
  /-- A copy has written this much before it fails. -/
  | fails (written : Nat)
  deriving DecidableEq, Repr

def Outcome.isOk : Outcome → Bool
  | .ok => true
  | .fails _ => false

/-- What `Open` returns with a nil error. -/
inductive Reader where
  | opened (bytes : Bytes)
  /-- A reader that the deferred Close has closed; it yields only an error. -/
  | closed
  deriving DecidableEq, Repr

/-- The critical sections of the source. -/
inductive Section where
  | rebuild | lookup | drop | insert | store | stat | forget
  deriving DecidableEq, Repr

inductive CacheOp : Type → Type where
  | lock (s : Section) : CacheOp Unit
  | unlock : CacheOp Unit
  | moveToFront (key : Text) : CacheOp (Option Int)
  /-- The index only; gives the keys whose files `evictLocked` goes on to remove. -/
  | insertLocked (key : Text) (size : Nat) : CacheOp (List Text)
  | removeLocked (key : Text) : CacheOp Unit
  | backendPut (key : Text) (bytes : Bytes) : CacheOp (Except StoreError Unit)
  | backendOpen (key : Text) : CacheOp (Except StoreError Bytes)
  | backendStat (key : Text) : CacheOp (Except StoreError Nat)
  | backendDelete (key : Text) : CacheOp (Except StoreError Unit)
  /-- `os.Stat` while the index is rebuilt. -/
  | statFile (key : Text) : CacheOp (Option Nat)
  | mkdirAll (key : Text) : CacheOp Bool
  /-- `os.Create` and `io.Copy` of `Put`. -/
  | create (key : Text) : CacheOp Bool
  | copy (key : Text) (bytes : Bytes) : CacheOp Bool
  /-- `os.CreateTemp`, `io.Copy`, `Close` and `os.Rename` of a miss. -/
  | createTemp (key : Text) : CacheOp Bool
  | copyTemp (key : Text) (bytes : Bytes) : CacheOp Bool
  | closeTemp (key : Text) : CacheOp Bool
  | rename (key : Text) (bytes : Bytes) : CacheOp Bool
  /-- `os.Open` of a hit. -/
  | openCached (key : Text) : CacheOp (Option Bytes)
  /-- `os.Open` at the end of a miss. -/
  | openFetched (key : Text) : CacheOp (Option Bytes)
  /-- `os.Remove`, best effort. -/
  | remove (key : Text) : CacheOp Unit

def use : {β : Type} → CacheOp β → Use
  | _, .lock _ => .acquire
  | _, .unlock => .release
  | _, _ => .other

def removeFiles : List Text → Procedure CacheOp Unit
  | [] => pure ()
  | key :: rest => do
    ask (.remove key)
    removeFiles rest

/-- `insertLocked` with the removals of `evictLocked`. -/
def insertLocked (key : Text) (size : Nat) : Procedure CacheOp Unit := do
  let evicted ← ask (.insertLocked key size)
  removeFiles evicted

/-- The part of `Put` under the mutex. -/
def storeCopy (key : Text) (rc : Bytes) (size : Nat) : Procedure CacheOp Unit := do
  if ← ask (.mkdirAll key) then
    if ← ask (.create key) then
      if ← ask (.copy key rc) then insertLocked key size
      else ask (.remove key)
    else pure ()
  else pure ()

def cachePut (key : Text) (bytes : Bytes) : Procedure CacheOp (Except StoreError Unit) := do
  match ← ask (.backendPut key bytes) with
  | .error err => pure (.error err)
  | .ok _ =>
    match ← ask (.backendOpen key) with
    | .error _ => pure (.ok ()) -- cache miss is fine
    | .ok rc => do
      let fi ← ask (.backendStat key)
      ask (.lock .store)
      storeCopy key rc (fi.toOption.getD 0)
      ask .unlock
      pure (.ok ())

def served : Option Bytes → Except StoreError Reader
  | some bytes => .ok (.opened bytes)
  | none => .error .failed

/-- The end of a miss: the object is in the directory. -/
def serveFetched (key : Text) (n : Nat) : Procedure CacheOp (Except StoreError Reader) := do
  ask (.lock .insert)
  insertLocked key n
  ask .unlock
  let f ← ask (.openFetched key)
  pure (served f)

/-- A miss. Where the object cannot be cached, `rc` is returned and closed by the defer. -/
def fetch (key : Text) : Procedure CacheOp (Except StoreError Reader) := do
  match ← ask (.backendOpen key) with
  | .error err => pure (.error err)
  | .ok rc =>
    if ← ask (.mkdirAll key) then
      if ← ask (.createTemp key) then
        if ← ask (.copyTemp key rc) then
          if ← ask (.closeTemp key) then
            if ← ask (.rename key rc) then serveFetched key rc.length
            else pure (.ok .closed)
          else pure (.error .failed)
        else pure (.error .failed)
      else pure (.ok .closed)
    else pure (.ok .closed)

def cacheOpen (key : Text) : Procedure CacheOp (Except StoreError Reader) := do
  ask (.lock .lookup)
  match ← ask (.moveToFront key) with
  | some _ => do
    ask .unlock
    match ← ask (.openCached key) with
    | some bytes => pure (.ok (.opened bytes))
    | none => do
      ask (.lock .drop)
      ask (.removeLocked key)
      ask .unlock
      -- The branch falls through to the Unlock of a miss.
      ask .unlock
      fetch key
  | none => do
    ask .unlock
    fetch key

def cacheStat (key : Text) : Procedure CacheOp (Except StoreError Int) := do
  ask (.lock .stat)
  match ← ask (.moveToFront key) with
  | some size => do
    ask .unlock
    pure (.ok size)
  | none => do
    ask .unlock
    let fi ← ask (.backendStat key)
    pure (fi.map fun n => (n : Int))

def cacheDelete (key : Text) : Procedure CacheOp (Except StoreError Unit) := do
  ask (.lock .forget)
  ask (.removeLocked key)
  ask .unlock
  ask (.remove key)
  ask (.backendDelete key)

inductive Request where
  | put (key : Text) (bytes : Bytes)
  | «open» (key : Text)
  | stat (key : Text)
  | delete (key : Text)
  deriving DecidableEq

inductive Reply where
  | done (r : Except StoreError Unit)
  | reader (r : Except StoreError Reader)
  | info (r : Except StoreError Int)

def body : Request → Procedure CacheOp Reply
  | .put key bytes => do return .done (← cachePut key bytes)
  | .open key => do return .reader (← cacheOpen key)
  | .stat key => do return .info (← cacheStat key)
  | .delete key => do return .done (← cacheDelete key)

def Request.key : Request → Text
  | .put key _ => key
  | .open key => key
  | .stat key => key
  | .delete key => key

abbrev CachePool := Pool CallId Request CacheOp Reply World

def World.file (w : World) (key : Text) : Option Bytes :=
  w.cache.files.lookup (w.cache.pathForKey key)

def World.setFile (w : World) (key : Text) (bytes : Bytes) : World :=
  { w with cache := { w.cache with files := w.cache.files.insert (w.cache.pathForKey key) bytes } }

def World.removeFile (w : World) (key : Text) : World :=
  { w with cache := w.cache.removeFile key }

/-- A call outside the process that may fail without effect. -/
def attempt (outcome : Outcome) (w : World) (reply : α) (failed : α) (after : World) :
    Option (α × World) :=
  if outcome.isOk then some (reply, after) else some (failed, w)

def perform (id : CallId) : {β : Type} → CacheOp β → Outcome → World → Option (β × World)
  | _, .lock _, _, w => if w.mutex = none then some ((), { w with mutex := some id }) else none
  -- Unlocking a mutex that is free ends the process.
  | _, .unlock, _, w => if w.mutex = none then none else some ((), { w with mutex := none })
  | _, .moveToFront key, _, w =>
    some ((Index.moveToFront w.cache key).1, { w with cache := (Index.moveToFront w.cache key).2 })
  | _, .insertLocked key size, _, w =>
    some ((Index.insertLocked w.maxSize w.cache key size).2,
      { w with cache := (Index.insertLocked w.maxSize w.cache key size).1 })
  | _, .removeLocked key, _, w => some ((), { w with cache := w.cache.removeLocked key })
  | _, .backendPut key bytes, outcome, w =>
    attempt outcome w (.ok ()) (.error .failed) { w with backend := w.backend.insert key bytes }
  | _, .backendOpen key, outcome, w =>
    attempt outcome w (found (w.backend.lookup key)) (.error .failed) w
  | _, .backendStat key, outcome, w =>
    attempt outcome w (found ((w.backend.lookup key).map List.length)) (.error .failed) w
  | _, .backendDelete key, outcome, w =>
    attempt outcome w (.ok ()) (.error .failed) { w with backend := w.backend.erase key }
  | _, .statFile key, outcome, w => attempt outcome w ((w.file key).map List.length) none w
  | _, .mkdirAll _, outcome, w => attempt outcome w true false w
  | _, .create key, outcome, w => attempt outcome w true false (w.setFile key [])
  | _, .copy key bytes, .ok, w => some (true, w.setFile key bytes)
  | _, .copy key bytes, .fails written, w => some (false, w.setFile key (bytes.take written))
  | _, .createTemp _, outcome, w => attempt outcome w true false w
  | _, .copyTemp _ _, outcome, w => attempt outcome w true false w
  | _, .closeTemp _, outcome, w => attempt outcome w true false w
  | _, .rename key bytes, outcome, w => attempt outcome w true false (w.setFile key bytes)
  | _, .openCached key, outcome, w => attempt outcome w (w.file key) none w
  | _, .openFetched key, outcome, w => attempt outcome w (w.file key) none w
  | _, .remove key, outcome, w => attempt outcome w () () (w.removeFile key)

/-- A call that no other overlaps, with the outcomes of its operations. -/
structure Invocation where
  request : Request
  outcomes : List Outcome

/-- None when the process dies. -/
def invoke (w : World) (a : Invocation) : Option World :=
  ((body a.request).run (perform 0) .ok a.outcomes w).map Prod.snd

/-- The loop of `rebuildIndex`. -/
def rebuildIndex : List Text → Procedure CacheOp Unit
  | [] => pure ()
  | key :: rest => do
    match ← ask (.statFile key) with
    | none => rebuildIndex rest
    | some size => do
      ask (.lock .rebuild)
      insertLocked key size
      ask .unlock
      rebuildIndex rest

def listCacheFiles (dir : Local) : List Text := dir.files.keys.map joinSlash

/-- The files below the root, by their absolute paths. -/
def absolute (dir : Local) : AList fun _ : List Text => Bytes where
  entries := dir.files.entries.map fun f => ⟨dir.root ++ f.1, f.2⟩
  nodupKeys := by
    have keys : (dir.files.entries.map fun f =>
        (⟨dir.root ++ f.1, f.2⟩ : Sigma fun _ : List Text => Bytes)).keys =
        dir.files.keys.map (dir.root ++ ·) := by
      simp [List.keys, AList.keys, Function.comp_def]
    unfold List.NodupKeys
    rw [keys]
    exact dir.files.nodupKeys.map (List.append_right_injective dir.root)

def newCache (backend : Bucket) (dir : Local) (maxSize : Int) (outcomes : List Outcome) :
    Option World :=
  if h : 0 < maxSize then
    ((rebuildIndex (listCacheFiles dir)).run (perform 0) .ok outcomes
      { backend := backend
        cache := { root := dir.root, files := absolute dir, size := 0, entries := [], lru := [] }
        maxSize := maxSize, positive := h, mutex := none }).map Prod.snd
  else none

def emptyDir : Local := ⟨["cache".toList], by decide, ∅, by simp⟩

@[simp] theorem root_insertLocked (maxSize : Int) (c : Cache) (key : Text) (size : Int) :
    (Index.insertLocked maxSize c key size).1.root = c.root := by
  unfold Index.insertLocked
  split
  · rfl
  · rfl

@[simp] theorem files_insertLocked (maxSize : Int) (c : Cache) (key : Text) (size : Int) :
    (Index.insertLocked maxSize c key size).1.files = c.files := by
  unfold Index.insertLocked
  split
  · rfl
  · rfl

@[simp] theorem root_moveToFront (c : Cache) (key : Text) :
    (Index.moveToFront c key).2.root = c.root := by
  unfold Index.moveToFront
  split
  · split
    · rfl
    · rfl
  · rfl

@[simp] theorem files_moveToFront (c : Cache) (key : Text) :
    (Index.moveToFront c key).2.files = c.files := by
  unfold Index.moveToFront
  split
  · split
    · rfl
    · rfl
  · rfl

@[simp] theorem entries_moveToFront (c : Cache) (key : Text) :
    (Index.moveToFront c key).2.entries = c.entries := by
  unfold Index.moveToFront
  split
  · split
    · rfl
    · rfl
  · rfl

@[simp] theorem root_removeLocked (c : Cache) (key : Text) :
    (c.removeLocked key).root = c.root := by
  unfold Cache.removeLocked
  split
  · rfl
  · rfl

@[simp] theorem files_removeLocked (c : Cache) (key : Text) :
    (c.removeLocked key).files = c.files := by
  unfold Cache.removeLocked
  split
  · rfl
  · rfl

theorem mem_removeLocked {c : Cache} {key k : Text} (h : k ∈ (c.removeLocked key).entries) :
    k ∈ c.entries := by
  unfold Cache.removeLocked at h
  split at h
  · exact List.mem_of_mem_erase h
  · exact h

/-- The path depends on the root alone. -/
theorem pathForKey_root {c c' : Cache} (h : c'.root = c.root) (key : Text) :
    c'.pathForKey key = c.pathForKey key := by
  unfold Cache.pathForKey
  rw [h]

@[simp] theorem file_setFile (w : World) (key : Text) (bytes : Bytes) :
    (w.setFile key bytes).file key = some bytes := AList.lookup_insert _

theorem file_setFile_ne (w : World) {key k : Text} (bytes : Bytes)
    (h : w.cache.pathForKey key ≠ w.cache.pathForKey k) :
    (w.setFile key bytes).file k = w.file k := AList.lookup_insert_ne fun same => h same.symm

theorem file_removeFile (w : World) (key k : Text) :
    (w.removeFile key).file k =
      if w.cache.pathForKey key = w.cache.pathForKey k then none else w.file k := by
  by_cases same : w.cache.pathForKey key = w.cache.pathForKey k
  · rw [if_pos same]
    change (w.cache.files.erase (w.cache.pathForKey key)).lookup (w.cache.pathForKey k) = none
    rw [same, AList.lookup_erase]
  · rw [if_neg same]
    exact AList.lookup_erase_ne fun e => same e.symm

theorem attempt_cases {outcome : Outcome} {w after w' : World} {reply failed b : α}
    (h : attempt outcome w reply failed after = some (b, w')) :
    (outcome.isOk = true ∧ b = reply ∧ w' = after) ∨
      (outcome.isOk = false ∧ b = failed ∧ w' = w) := by
  unfold attempt at h
  split at h
  · next ok =>
    cases h
    exact .inl ⟨ok, rfl, rfl⟩
  · next fails =>
    cases h
    exact .inr ⟨by simpa using fails, rfl, rfl⟩

/-- Operations that only look. -/
def quiet : {β : Type} → CacheOp β → Bool
  | _, .backendOpen _ => true
  | _, .backendStat _ => true
  | _, .statFile _ => true
  | _, .mkdirAll _ => true
  | _, .createTemp _ => true
  | _, .copyTemp _ _ => true
  | _, .closeTemp _ => true
  | _, .openCached _ => true
  | _, .openFetched _ => true
  | _, _ => false

theorem perform_quiet {id : CallId} {β : Type} {op : CacheOp β} {outcome : Outcome} {w w' : World}
    {b : β} (h : quiet op = true) (taken : perform id op outcome w = some (b, w')) : w' = w := by
  cases op with
  | lock s => cases h
  | unlock => cases h
  | moveToFront key => cases h
  | insertLocked key size => cases h
  | removeLocked key => cases h
  | backendPut key bytes => cases h
  | backendDelete key => cases h
  | create key => cases h
  | copy key bytes => cases h
  | rename key bytes => cases h
  | remove key => cases h
  | _ =>
    rcases attempt_cases taken with ⟨_, _, same⟩ | ⟨_, _, same⟩
    · exact same
    · exact same

/-- What an operation does to the world, if anything, whatever its outcome. -/
inductive Effect (w : World) : {β : Type} → CacheOp β → World → Prop where
  | nothing {β : Type} (op : CacheOp β) : Effect w op w
  | owner {β : Type} (op : CacheOp β) (mutex : Option CallId) :
    Effect w op { w with mutex := mutex }
  | touch (key : Text) :
    Effect w (.moveToFront key) { w with cache := (Index.moveToFront w.cache key).2 }
  | insert (key : Text) (size : Nat) :
    Effect w (.insertLocked key size)
      { w with cache := (Index.insertLocked w.maxSize w.cache key size).1 }
  | drop (key : Text) : Effect w (.removeLocked key) { w with cache := w.cache.removeLocked key }
  | create (key : Text) : Effect w (.create key) (w.setFile key [])
  | copy (key : Text) (bytes written : Bytes) : Effect w (.copy key bytes) (w.setFile key written)
  | rename (key : Text) (bytes : Bytes) : Effect w (.rename key bytes) (w.setFile key bytes)
  | remove (key : Text) : Effect w (.remove key) (w.removeFile key)
  | put (key : Text) (bytes : Bytes) :
    Effect w (.backendPut key bytes) { w with backend := w.backend.insert key bytes }
  | delete (key : Text) : Effect w (.backendDelete key) { w with backend := w.backend.erase key }

theorem effect_attempt {β : Type} {op : CacheOp β} {outcome : Outcome} {w after w' : World}
    {reply failed b : β} (h : Effect w op after)
    (taken : attempt outcome w reply failed after = some (b, w')) : Effect w op w' := by
  rcases attempt_cases taken with ⟨_, _, rfl⟩ | ⟨_, _, rfl⟩
  · exact h
  · exact .nothing op

theorem perform_effect {id : CallId} {β : Type} {op : CacheOp β} {outcome : Outcome}
    {w w' : World} {b : β} (taken : perform id op outcome w = some (b, w')) : Effect w op w' := by
  cases op with
  | lock s =>
    simp only [perform] at taken
    split at taken
    · cases taken
      exact .owner _ _
    · cases taken
  | unlock =>
    simp only [perform] at taken
    split at taken
    · cases taken
    · cases taken
      exact .owner _ _
  | moveToFront key =>
    cases taken
    exact .touch key
  | insertLocked key size =>
    cases taken
    exact .insert key size
  | removeLocked key =>
    cases taken
    exact .drop key
  | copy key bytes =>
    cases outcome with
    | ok =>
      cases taken
      exact .copy key bytes bytes
    | fails written =>
      cases taken
      exact .copy key bytes (bytes.take written)
  | create key => exact effect_attempt (.create key) taken
  | rename key bytes => exact effect_attempt (.rename key bytes) taken
  | remove key => exact effect_attempt (.remove key) taken
  | backendPut key bytes => exact effect_attempt (.put key bytes) taken
  | backendDelete key => exact effect_attempt (.delete key) taken
  | _ => exact effect_attempt (.nothing _) taken

/-- The same world but for files that are gone. -/
def Emptied (w w' : World) : Prop :=
  ∃ files : AList fun _ : List Text => Bytes,
    w' = { w with cache := { w.cache with files := files } } ∧
      ∀ p b, files.lookup p = some b → w.cache.files.lookup p = some b

theorem Emptied.refl (w : World) : Emptied w w := ⟨w.cache.files, rfl, fun _ _ h => h⟩

theorem Emptied.trans {a b c : World} (h : Emptied a b) (h' : Emptied b c) : Emptied a c := by
  obtain ⟨files, rfl, old⟩ := h
  obtain ⟨files', rfl, old'⟩ := h'
  exact ⟨files', rfl, fun p b found => old p b (old' p b found)⟩

theorem emptied_removeFile (w : World) (key : Text) : Emptied w (w.removeFile key) := by
  refine ⟨_, rfl, fun p b found => ?_⟩
  by_cases same : p = w.cache.pathForKey key
  · subst same
    rw [AList.lookup_erase] at found
    cases found
  · rwa [AList.lookup_erase_ne same] at found

theorem run_removeFiles {k : Unit → Procedure CacheOp α} {keys : List Text}
    {outcomes : List Outcome} {w w' : World} {a : α}
    (h : (removeFiles keys >>= k).run (perform 0) .ok outcomes w = some (a, w')) :
    ∃ m later, Emptied w m ∧ (k ()).run (perform 0) .ok later m = some (a, w') := by
  induction keys generalizing outcomes w with
  | nil => exact ⟨w, outcomes, .refl w, h⟩
  | cons key rest ih =>
    obtain ⟨_, m, first, later⟩ := run_call h
    obtain ⟨m', outcomes', emptied, run⟩ := ih later
    rcases attempt_cases first with ⟨_, _, rfl⟩ | ⟨_, _, rfl⟩
    · exact ⟨m', outcomes', (emptied_removeFile w key).trans emptied, run⟩
    · exact ⟨m', outcomes', emptied, run⟩

/-- An insertion changes the index, and then removes files. -/
theorem run_insertLocked {k : Unit → Procedure CacheOp α} {key : Text} {size : Nat}
    {outcomes : List Outcome} {w w' : World} {a : α}
    (h : (insertLocked key size >>= k).run (perform 0) .ok outcomes w = some (a, w')) :
    ∃ m later, Emptied
      { w with cache := (Index.insertLocked w.maxSize w.cache key size).1 } m ∧
        (k ()).run (perform 0) .ok later m = some (a, w') := by
  obtain ⟨evicted, m, index, rest⟩ := run_call h
  cases index
  exact run_removeFiles rest

theorem run_lock {next : Unit → Procedure CacheOp α} {s : Section} {outcomes : List Outcome}
    {w w' : World} {a : α}
    (h : (Procedure.call (.lock s) next).run (perform 0) .ok outcomes w = some (a, w')) :
    w.mutex = none ∧
      (next ()).run (perform 0) .ok outcomes.tail { w with mutex := some 0 } = some (a, w') := by
  obtain ⟨_, m, lock, rest⟩ := run_call h
  simp only [perform] at lock
  split at lock
  · next free =>
    cases lock
    exact ⟨free, rest⟩
  · cases lock

theorem run_unlock {next : Unit → Procedure CacheOp α} {outcomes : List Outcome}
    {w w' : World} {a : α}
    (h : (Procedure.call .unlock next).run (perform 0) .ok outcomes w = some (a, w')) :
    w.mutex ≠ none ∧
      (next ()).run (perform 0) .ok outcomes.tail { w with mutex := none } = some (a, w') := by
  obtain ⟨_, m, unlock, rest⟩ := run_call h
  simp only [perform] at unlock
  split at unlock
  · cases unlock
  · next held =>
    cases unlock
    exact ⟨held, rest⟩

end Vidsilo.Cache.Calls
