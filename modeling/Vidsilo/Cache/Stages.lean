import Vidsilo.Cache.Reads

/-!
# Where a call on the cache stands

With every critical section one step and no failure, a call is at one of the stages below,
and `Moves` says what its next step does to the stage and to the world.
-/
namespace Vidsilo.Cache.Stages
open Library Library.Procedure Library.SlashPath Library.Mutex Storage.Drivers Calls Reads

/-- A backend call, a file operation or a whole critical section; none fails. -/
def move (id : CallId) (rest : Procedure CacheOp Reply) (_ : Unit) (w : World) :
    Option (Procedure CacheOp Reply × World) :=
  atomically use (perform id) rest .ok w

def storeLocked (key : Text) (rc : Bytes) (size : Nat) :
    Procedure CacheOp (Except StoreError Unit) := do
  ask (.lock .store)
  storeCopy key rc size
  ask .unlock
  pure (.ok ())

def sizeOf (key : Text) (rc : Bytes) : Procedure CacheOp (Except StoreError Unit) := do
  let fi ← ask (.backendStat key)
  storeLocked key rc (fi.toOption.getD 0)

def readBack (key : Text) : Procedure CacheOp (Except StoreError Unit) := do
  match ← ask (.backendOpen key) with
  | .error _ => pure (.ok ())
  | .ok rc => sizeOf key rc

def renameTemp (key : Text) (rc : Bytes) : Procedure CacheOp (Except StoreError Reader) := do
  if ← ask (.rename key rc) then serveFetched key rc.length else pure (.ok .closed)

def closeTemp (key : Text) (rc : Bytes) : Procedure CacheOp (Except StoreError Reader) := do
  if ← ask (.closeTemp key) then renameTemp key rc else pure (.error .failed)

def copyTemp (key : Text) (rc : Bytes) : Procedure CacheOp (Except StoreError Reader) := do
  if ← ask (.copyTemp key rc) then closeTemp key rc else pure (.error .failed)

def createTemp (key : Text) (rc : Bytes) : Procedure CacheOp (Except StoreError Reader) := do
  if ← ask (.createTemp key) then copyTemp key rc else pure (.ok .closed)

def makeDir (key : Text) (rc : Bytes) : Procedure CacheOp (Except StoreError Reader) := do
  if ← ask (.mkdirAll key) then createTemp key rc else pure (.ok .closed)

def serve (key : Text) : Procedure CacheOp (Except StoreError Reader) := do
  let f ← ask (.openFetched key)
  pure (served f)

/-- After a hit whose file is gone. -/
def drop (key : Text) : Procedure CacheOp (Except StoreError Reader) := do
  ask (.lock .drop)
  ask (.removeLocked key)
  ask .unlock
  ask .unlock
  fetch key

def unlockAgain (key : Text) : Procedure CacheOp (Except StoreError Reader) := do
  ask .unlock
  fetch key

def openHit (key : Text) : Procedure CacheOp (Except StoreError Reader) := do
  match ← ask (.openCached key) with
  | some bytes => pure (.ok (.opened bytes))
  | none => drop key

inductive PutAt where
  | begin
  | readBack
  | size (rc : Bytes)
  | store (rc : Bytes) (size : Nat)

inductive OpenAt where
  | begin | hit | drop | unlockAgain | miss
  | makeDir (rc : Bytes)
  | createTemp (rc : Bytes)
  | copyTemp (rc : Bytes)
  | closeTemp (rc : Bytes)
  | rename (rc : Bytes)
  | insert (n : Nat)
  | serve

inductive DeleteAt where
  | begin | remove | delete

inductive Stage where
  | put (key : Text) (bytes : Bytes) (point : PutAt)
  | «open» (key : Text) (point : OpenAt)
  | delete (key : Text) (point : DeleteAt)
  | stat (key : Text) (missed : Bool)
  | done (request : Request) (reply : Reply)

namespace Stage

def request : Stage → Request
  | .put key bytes _ => .put key bytes
  | .open key _ => .open key
  | .delete key _ => .delete key
  | .stat key _ => .stat key
  | .done request _ => request

def ofRequest : Request → Stage
  | .put key bytes => .put key bytes .begin
  | .open key => .open key .begin
  | .delete key => .delete key .begin
  | .stat key => .stat key false

def putRest (key : Text) (bytes : Bytes) : PutAt → Procedure CacheOp (Except StoreError Unit)
  | .begin => cachePut key bytes
  | .readBack => Stages.readBack key
  | .size rc => sizeOf key rc
  | .store rc size => storeLocked key rc size

def openRest (key : Text) : OpenAt → Procedure CacheOp (Except StoreError Reader)
  | .begin => cacheOpen key
  | .hit => openHit key
  | .drop => Stages.drop key
  | .unlockAgain => Stages.unlockAgain key
  | .miss => fetch key
  | .makeDir rc => Stages.makeDir key rc
  | .createTemp rc => Stages.createTemp key rc
  | .copyTemp rc => Stages.copyTemp key rc
  | .closeTemp rc => Stages.closeTemp key rc
  | .rename rc => renameTemp key rc
  | .insert n => serveFetched key n
  | .serve => Stages.serve key

def deleteRest (key : Text) : DeleteAt → Procedure CacheOp (Except StoreError Unit)
  | .begin => cacheDelete key
  | .remove => do
    ask (.remove key)
    ask (.backendDelete key)
  | .delete => ask (.backendDelete key)

def statRest (key : Text) : Bool → Procedure CacheOp (Except StoreError Int)
  | false => cacheStat key
  | true => do
    let fi ← ask (.backendStat key)
    pure (fi.map fun n => (n : Int))

def rest : Stage → Procedure CacheOp Reply
  | .put key bytes point => do return .done (← putRest key bytes point)
  | .open key point => do return .reader (← openRest key point)
  | .delete key point => do return .done (← deleteRest key point)
  | .stat key missed => do return .info (← statRest key missed)
  | .done _ reply => pure reply

theorem rest_ofRequest (request : Request) : (ofRequest request).rest = body request := by
  cases request with
  | put key bytes => rfl
  | «open» key => rfl
  | delete key => rfl
  | stat key => rfl

theorem request_ofRequest (request : Request) : (ofRequest request).request = request := by
  cases request with
  | _ => rfl

end Stage

/-- The index after an insertion, without the files that it evicts. -/
def inserted (w : World) (key : Text) (size : Nat) : World :=
  dropFiles { w with cache := (Index.insertLocked w.maxSize w.cache key size).1 }
    (Index.insertLocked w.maxSize w.cache key size).2

def touched (w : World) (key : Text) : World :=
  { w with cache := (Index.moveToFront w.cache key).2 }

theorem dropFiles_files (keys : List Text) (w : World) :
    ∃ files, dropFiles w keys = { w with cache := { w.cache with files := files } } := by
  induction keys generalizing w with
  | nil => exact ⟨w.cache.files, rfl⟩
  | cons key rest ih => exact ih (w.removeFile key)

theorem inserted_index (w : World) (key : Text) (size : Nat) :
    ∃ files, inserted w key size = { w with
      cache := { (Index.insertLocked w.maxSize w.cache key size).1 with files := files } } :=
  dropFiles_files _ _

theorem file_inserted (w : World) (key k : Text) (size : Nat) :
    (inserted w key size).file k =
      if ∃ e ∈ (Index.insertLocked w.maxSize w.cache key size).2,
        w.cache.pathForKey e = w.cache.pathForKey k then none else w.file k := by
  have path (k : Text) := pathForKey_root (root_insertLocked w.maxSize w.cache key size) k
  have dropped := file_dropFiles (Index.insertLocked w.maxSize w.cache key size).2
    { w with cache := (Index.insertLocked w.maxSize w.cache key size).1 } k
  simp only [path] at dropped
  rw [inserted, dropped]
  unfold World.file
  rw [path, files_insertLocked]

theorem untilRelease_removeFiles (id : CallId) (keys : List Text)
    (k : Unit → Procedure CacheOp α) (w : World) :
    untilRelease use (perform id) (removeFiles keys >>= k) .ok w =
      untilRelease use (perform id) (k ()) .ok (dropFiles w keys) := by
  induction keys generalizing w with
  | nil => rfl
  | cons key rest ih => exact ih (w.removeFile key)

theorem untilRelease_insertLocked (id : CallId) (key : Text) (size : Nat)
    (k : Unit → Procedure CacheOp α) (w : World) :
    untilRelease use (perform id) (Calls.insertLocked key size >>= k) .ok w =
      untilRelease use (perform id) (k ()) .ok (inserted w key size) :=
  untilRelease_removeFiles id _ k _

/-- A `Put` has written the backend and not yet its copy. -/
def Stage.pending : Stage → Bool
  | .put _ _ .begin => false
  | .put _ _ _ => true
  | _ => false

/-- An `Open` has renamed its file and not yet inserted the key. -/
def Stage.inserting : Stage → Bool
  | .open _ (.insert _) => true
  | _ => false

theorem Stage.inserting_ofRequest (request : Request) :
    (Stage.ofRequest request).inserting = false := by
  cases request with
  | _ => rfl

inductive Moves (w : World) : Stage → Stage → World → Prop where
  | put (key : Text) (bytes : Bytes) :
    Moves w (.put key bytes .begin) (.put key bytes .readBack)
      { w with backend := w.backend.insert key bytes }
  | unread (key : Text) (bytes : Bytes) (reply : Reply) (absent : w.backend.lookup key = none) :
    Moves w (.put key bytes .readBack) (.done (.put key bytes) reply) w
  | store (key : Text) (bytes rc : Bytes) (size : Nat) (reply : Reply) :
    Moves w (.put key bytes (.store rc size)) (.done (.put key bytes) reply)
      (inserted (w.setFile key rc) key size)
  | rename (key : Text) (rc : Bytes) :
    Moves w (.open key (.rename rc)) (.open key (.insert rc.length)) (w.setFile key rc)
  | insert (key : Text) (n : Nat) :
    Moves w (.open key (.insert n)) (.open key .serve) (inserted w key n)
  | drop (key : Text) :
    Moves w (.open key .drop) (.open key .unlockAgain)
      { w with cache := w.cache.removeLocked key }
  | forget (key : Text) :
    Moves w (.delete key .begin) (.delete key .remove) { w with cache := w.cache.removeLocked key }
  | remove (key : Text) : Moves w (.delete key .remove) (.delete key .delete) (w.removeFile key)
  | delete (key : Text) (reply : Reply) :
    Moves w (.delete key .delete) (.done (.delete key) reply)
      { w with backend := w.backend.erase key }
  -- The index keeps its keys, and nothing is written.
  | look {s s' : Stage} {w' : World} (same : w' = w ∨ ∃ key, w' = touched w key)
    (pending : s'.pending = s.pending) (before : s.inserting = false)
    (after : s'.inserting = false) (request : s'.request = s.request) : Moves w s s' w'

theorem request_moves {w w' : World} {s s' : Stage} (h : Moves w s s' w') :
    s'.request = s.request := by
  cases h with
  | look _ _ _ _ same => exact same
  | _ => rfl

theorem lock_free {id : CallId} {s : Section} {w : World} (free : w.mutex = none) :
    perform id (.lock s) .ok w = some ((), { w with mutex := some id }) := by
  simp [perform, free]

variable {id : CallId} {w w' : World}

theorem move_readBack (id : CallId) (w : World) (key : Text) (bytes : Bytes) :
    move id (Stage.put key bytes .readBack).rest () w = some
      (match w.backend.lookup key with
        | none => (Stage.done (.put key bytes) (.done (.ok ()))).rest
        | some rc => (Stage.put key bytes (.size rc)).rest, w) := by
  change some (_, w) = _
  cases stored : w.backend.lookup key with
  | none =>
    rfl
  | some rc =>
    rfl

theorem move_miss (id : CallId) (w : World) (key : Text) :
    move id (Stage.open key .miss).rest () w = some
      (match w.backend.lookup key with
        | none => (Stage.done (.open key) (.reader (.error .notFound))).rest
        | some rc => (Stage.open key (.makeDir rc)).rest, w) := by
  change some (_, w) = _
  cases stored : w.backend.lookup key with
  | none =>
    rfl
  | some rc =>
    rfl

theorem setFile_setFile (w : World) (key : Text) (old bytes : Bytes) :
    (w.setFile key old).setFile key bytes = w.setFile key bytes := by
  unfold World.setFile
  simp only [Cache.pathForKey, AList.insert_insert]

theorem dropFiles_owner (keys : List Text) (w : World) (owner : Option CallId) :
    dropFiles { w with mutex := owner } keys = { dropFiles w keys with mutex := owner } := by
  induction keys generalizing w with
  | nil => rfl
  | cons key rest ih => exact ih (w.removeFile key)

theorem untilRelease_unlock (free : w.mutex = none) (next : Unit → Procedure CacheOp α) :
    untilRelease use (perform id) (.call .unlock next) .ok { w with mutex := some id } =
      some (next (), w) := by
  obtain ⟨backend, cache, maxSize, positive, mutex⟩ := w
  subst free
  rfl

/-- The end of a critical section that inserts a key. -/
theorem untilRelease_inserts (free : w.mutex = none) (key : Text) (size : Nat)
    (next : Unit → Procedure CacheOp α) :
    untilRelease use (perform id) (Calls.insertLocked key size >>= fun _ => .call .unlock next) .ok
      { w with mutex := some id } = some (next (), inserted w key size) := by
  have held := dropFiles_owner (Index.insertLocked w.maxSize w.cache key size).2
    { w with cache := (Index.insertLocked w.maxSize w.cache key size).1 } (some id)
  have after : (inserted w key size).mutex = none := (dropFiles_mutex _ _).trans free
  rw [untilRelease_insertLocked]
  unfold inserted at after ⊢
  rw [held]
  exact untilRelease_unlock after next

theorem move_store (free : w.mutex = none) (key : Text) (bytes rc : Bytes) (size : Nat) :
    move id (Stage.put key bytes (.store rc size)).rest () w = some
      ((Stage.done (.put key bytes) (.done (.ok ()))).rest,
        inserted (w.setFile key rc) key size) := by
  have copied : move id (Stage.put key bytes (.store rc size)).rest () w =
      untilRelease use (perform id) ((Calls.insertLocked key size >>= fun _ =>
        .call .unlock fun _ => .ret (.ok ())) >>= fun r => .ret (.done r)) .ok
        { (w.setFile key []).setFile key rc with mutex := some id } := by
    change (perform id (.lock .store) .ok w).bind _ = _
    rw [lock_free free]
    rfl
  rw [copied, Procedure.bind_assoc, setFile_setFile]
  exact untilRelease_inserts (w := w.setFile key rc) free key size _

theorem move_insert (free : w.mutex = none) (key : Text) (n : Nat) :
    move id (Stage.open key (.insert n)).rest () w = some
      ((Stage.open key .serve).rest, inserted w key n) := by
  have locked : move id (Stage.open key (.insert n)).rest () w =
      untilRelease use (perform id) ((Calls.insertLocked key n >>= fun _ =>
        .call .unlock fun _ => serve key) >>= fun r => .ret (.reader r)) .ok
        { w with mutex := some id } := by
    change (perform id (.lock .insert) .ok w).bind _ = _
    rw [lock_free free]
    rfl
  rw [locked, Procedure.bind_assoc]
  exact untilRelease_inserts free key n _

/-- A critical section that looks a key up. -/
theorem move_lookup (free : w.mutex = none) {s : Section} {key : Text}
    {after : Option Int → Procedure CacheOp Reply} {next : Procedure CacheOp Reply}
    (unlocks : after (Index.moveToFront w.cache key).1 = .call .unlock fun _ => next) :
    move id (.call (.lock s) fun _ => .call (.moveToFront key) after) () w =
      some (next, touched w key) := by
  change (perform id (.lock s) .ok w).bind _ = _
  rw [lock_free free]
  change untilRelease use (perform id) (after (Index.moveToFront w.cache key).1) .ok _ = _
  rw [unlocks]
  exact untilRelease_unlock (w := touched w key) free fun _ => next

theorem move_remove (free : w.mutex = none) (s : Section) (key : Text)
    (next : Procedure CacheOp Reply) :
    move id (.call (.lock s) fun _ => .call (.removeLocked key) fun _ =>
      .call .unlock fun _ => next) () w =
      some (next, { w with cache := w.cache.removeLocked key }) := by
  change (perform id (.lock s) .ok w).bind _ = _
  rw [lock_free free]
  exact untilRelease_unlock (w := { w with cache := w.cache.removeLocked key }) free fun _ => next

theorem put_moves {key : Text} {bytes : Bytes} {point : PutAt} {rest : Procedure CacheOp Reply}
    (free : w.mutex = none)
    (taken : move id (Stage.put key bytes point).rest () w = some (rest, w')) :
    ∃ s', rest = s'.rest ∧ Moves w (Stage.put key bytes point) s' w' := by
  cases point with
  | begin =>
    cases taken
    exact ⟨.put key bytes .readBack, rfl, .put key bytes⟩
  | readBack =>
    rw [move_readBack] at taken
    cases stored : w.backend.lookup key with
    | none =>
      simp only [stored] at taken
      cases taken
      exact ⟨_, rfl, .unread key bytes _ stored⟩
    | some rc =>
      simp only [stored] at taken
      cases taken
      exact ⟨.put key bytes (.size rc), rfl, .look (.inl rfl) rfl rfl rfl rfl⟩
  | size rc =>
    cases taken
    exact ⟨.put key bytes (.store rc _), rfl, .look (.inl rfl) rfl rfl rfl rfl⟩
  | store rc size =>
    rw [move_store free] at taken
    cases taken
    exact ⟨_, rfl, .store key bytes rc size _⟩

/-- The key is looked up, and moves to the front if it is there. -/
theorem open_begin_moves {key : Text} {rest : Procedure CacheOp Reply}
    (free : w.mutex = none) (taken : move id (Stage.open key .begin).rest () w = some (rest, w')) :
    ∃ s', rest = s'.rest ∧ Moves w (Stage.open key .begin) s' w' := by
  cases size : (Index.moveToFront w.cache key).1 with
  | none =>
    have looked : move id (Stage.open key .begin).rest () w =
        some ((Stage.open key .miss).rest, touched w key) := by
      apply move_lookup free
      rw [size]
      rfl
    rw [looked] at taken
    cases taken
    exact ⟨.open key .miss, rfl, .look (.inr ⟨key, rfl⟩) rfl rfl rfl rfl⟩
  | some size' =>
    have looked : move id (Stage.open key .begin).rest () w =
        some ((Stage.open key .hit).rest, touched w key) := by
      apply move_lookup free
      rw [size]
      rfl
    rw [looked] at taken
    cases taken
    exact ⟨.open key .hit, rfl, .look (.inr ⟨key, rfl⟩) rfl rfl rfl rfl⟩

theorem open_moves {key : Text} {point : OpenAt} {rest : Procedure CacheOp Reply}
    (free : w.mutex = none) (taken : move id (Stage.open key point).rest () w = some (rest, w')) :
    ∃ s', rest = s'.rest ∧ Moves w (Stage.open key point) s' w' := by
  cases point with
  | begin =>
    exact open_begin_moves free taken
  | hit =>
    change some (_, w) = _ at taken
    cases file : w.file key with
    | none =>
      simp only [file] at taken
      cases taken
      exact ⟨.open key .drop, rfl, .look (.inl rfl) rfl rfl rfl rfl⟩
    | some bytes =>
      simp only [file] at taken
      cases taken
      exact ⟨.done (.open key) _, rfl, .look (.inl rfl) rfl rfl rfl rfl⟩
  | drop =>
    have dropped : move id (Stage.open key .drop).rest () w =
        some ((Stage.open key .unlockAgain).rest, { w with cache := w.cache.removeLocked key }) :=
      move_remove free .drop key _
    rw [dropped] at taken
    cases taken
    exact ⟨_, rfl, .drop key⟩
  | unlockAgain =>
    -- Nobody holds the mutex.
    change (perform id .unlock .ok w).bind _ = _ at taken
    simp [perform, free] at taken
  | miss =>
    rw [move_miss] at taken
    cases stored : w.backend.lookup key with
    | none =>
      simp only [stored] at taken
      cases taken
      exact ⟨.done (.open key) _, rfl, .look (.inl rfl) rfl rfl rfl rfl⟩
    | some rc =>
      simp only [stored] at taken
      cases taken
      exact ⟨.open key (.makeDir rc), rfl, .look (.inl rfl) rfl rfl rfl rfl⟩
  | makeDir rc =>
    cases taken
    exact ⟨.open key (.createTemp rc), rfl, .look (.inl rfl) rfl rfl rfl rfl⟩
  | createTemp rc =>
    cases taken
    exact ⟨.open key (.copyTemp rc), rfl, .look (.inl rfl) rfl rfl rfl rfl⟩
  | copyTemp rc =>
    cases taken
    exact ⟨.open key (.closeTemp rc), rfl, .look (.inl rfl) rfl rfl rfl rfl⟩
  | closeTemp rc =>
    cases taken
    exact ⟨.open key (.rename rc), rfl, .look (.inl rfl) rfl rfl rfl rfl⟩
  | rename rc =>
    cases taken
    exact ⟨.open key (.insert rc.length), rfl, .rename key rc⟩
  | insert n =>
    rw [move_insert free] at taken
    cases taken
    exact ⟨.open key .serve, rfl, .insert key n⟩
  | serve =>
    cases taken
    exact ⟨.done (.open key) _, rfl, .look (.inl rfl) rfl rfl rfl rfl⟩

theorem delete_moves {key : Text} {point : DeleteAt} {rest : Procedure CacheOp Reply}
    (free : w.mutex = none) (taken : move id (Stage.delete key point).rest () w = some (rest, w')) :
    ∃ s', rest = s'.rest ∧ Moves w (Stage.delete key point) s' w' := by
  cases point with
  | begin =>
    have forgot : move id (Stage.delete key .begin).rest () w =
        some ((Stage.delete key .remove).rest, { w with cache := w.cache.removeLocked key }) :=
      move_remove free .forget key _
    rw [forgot] at taken
    cases taken
    exact ⟨_, rfl, .forget key⟩
  | remove =>
    cases taken
    exact ⟨.delete key .delete, rfl, .remove key⟩
  | delete =>
    cases taken
    exact ⟨.done (.delete key) _, rfl, .delete key _⟩

theorem stat_moves {key : Text} {missed : Bool} {rest : Procedure CacheOp Reply}
    (free : w.mutex = none) (taken : move id (Stage.stat key missed).rest () w = some (rest, w')) :
    ∃ s', rest = s'.rest ∧ Moves w (Stage.stat key missed) s' w' := by
  cases missed with
  | true =>
    cases taken
    exact ⟨.done (.stat key) _, rfl, .look (.inl rfl) rfl rfl rfl rfl⟩
  | false =>
    cases size : (Index.moveToFront w.cache key).1 with
    | none =>
      have looked : move id (Stage.stat key false).rest () w =
          some ((Stage.stat key true).rest, touched w key) := by
        apply move_lookup free
        rw [size]
        rfl
      rw [looked] at taken
      cases taken
      exact ⟨.stat key true, rfl, .look (.inr ⟨key, rfl⟩) rfl rfl rfl rfl⟩
    | some size' =>
      have looked : move id (Stage.stat key false).rest () w =
          some ((Stage.done (.stat key) (.info (.ok size'))).rest, touched w key) := by
        apply move_lookup free
        rw [size]
        rfl
      rw [looked] at taken
      cases taken
      exact ⟨.done (.stat key) _, rfl, .look (.inr ⟨key, rfl⟩) rfl rfl rfl rfl⟩

theorem stage_moves {s : Stage} {rest : Procedure CacheOp Reply}
    (free : w.mutex = none) (taken : move id s.rest () w = some (rest, w')) :
    ∃ s', rest = s'.rest ∧ Moves w s s' w' := by
  cases s with
  | put key bytes point => exact put_moves free taken
  | «open» key point => exact open_moves free taken
  | delete key point => exact delete_moves free taken
  | stat key missed => exact stat_moves free taken
  | done request reply => cases taken

end Vidsilo.Cache.Stages
