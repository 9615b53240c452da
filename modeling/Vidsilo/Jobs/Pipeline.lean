import Vidsilo.Jobs.Runner
import Vidsilo.Library.Transition

/-!
# The pipeline from upload to ready

Source: cmd/vidsilo/worker.go:203-251 (`runJob`), internal/queue/queue.go,
internal/upload/upload.go:63-110, 221-268, internal/api/entries.go:252-356, 455-500,
internal/api/fromurl.go:96-155, internal/api/activity.go:118-180,
internal/api/catalog.go:94-170, internal/jobs/jobs.go.

Requests and handlers are programs that take the database one statement at a time; what
`runJob` does after its handler is `ending`. A program has the clock of its first statement.
-/
namespace Vidsilo.Jobs.Pipeline
open Library Library.SlashPath Library.Transition Queue.Table Queue.Claim Tables Runner

def Database.updateJobs (db : Database) (u : Update) : Database :=
  { db with jobs := db.jobs.updateWhere u }

/-- Nothing uploaded; the flavors are any. -/
def start (flavors : List Flavor) (nextFlavorId : Int) : Database where
  entries _ := none
  nextEntryId := 1
  flavors := flavors
  nextFlavorId := nextFlavorId
  entryFlavors := .empty
  jobs := Jobs.empty

def insertEntry : Db (Except String Int) :=
  Program.statement Database.insertEntry (fun db => .ok db.nextEntryId) (.error contextEnded)

/-- One URL of `handleFromURL`. -/
def fromURL (now : Int) : Db (Option String) := do
  match ← insertEntry with
  | .error err => pure (some err)
  | .ok entryId => do
    let res ← enqueue .download entryId none 2 now
    pure (errorOf res)

def finishUpload (env : Env) (entryId : Int) (ext : Text) (size now : Int) : Db (Option String) :=
  match env.put with
  | .error err => pure (some err)
  | .ok _ => handOff entryId (Storage.Keys.originalKey entryId ext) size false now

/-- The UPDATE to probing; its error is dropped. -/
def reprobe (entryId : Int) : Db Unit := do
  let _ ← execute fun db => db.setEntry entryId fun e => { e with status := .probing, error := none }

/-- A probe job, and only then the status. -/
def requeueProbe (entryId now : Int) : Db (Option String) := do
  match ← enqueue .probe entryId none 3 now with
  | .error err => pure (some err)
  | .ok _ => do
    reprobe entryId
    pure none

/-- `handleEntryReprocess`, and with `bulk` one entry of `handleEntriesReprocess`, which
does not ask whether it is still uploading. -/
def handleEntryReprocess (bulk : Bool) (entryId now : Int) : Db (Option String) := do
  match ← entryByID entryId with
  | .error err => pure (some err)
  | .ok e =>
    if (!bulk && e.status = .uploading) || e.sourceKey = [] then
      pure (some "entry has no source media yet")
    else requeueProbe entryId now

/-- The foreign keys of a flavor row. -/
def admits (db : Database) (entryId flavorId : Int) : Bool :=
  (db.entries entryId).isSome && (db.flavorByID flavorId).isSome

def insertFlavorRow (entryId flavorId : Int) : Db (Except String Unit) :=
  Program.statement
    (fun db => if admits db entryId flavorId then
      { db with entryFlavors := db.entryFlavors.upsert entryId flavorId .pending none } else db)
    (fun db => if admits db entryId flavorId then .ok () else .error "foreign key violation")
    (.error contextEnded)

def prepareFlavor (entryId flavorId now : Int) : Db (Option String) := do
  match ← insertFlavorRow entryId flavorId with
  | .error err => pure (some err)
  | .ok _ => do
    let res ← enqueue .transcode entryId (some flavorId) 3 now
    pure (errorOf res)

def prepareFlavors (entryId now : Int) : List Int → Db (Option String)
  | [] => pure none
  | f :: rest => do
    match ← prepareFlavor entryId f now with
    | some err => pure (some err)
    | none => prepareFlavors entryId now rest

/-- The files of the flavor are left out. -/
def removeFlavor (entryId flavorId : Int) : Db (Option String) := do
  match ← flavorByID flavorId with
  | .error err => pure (some err)
  | .ok _ => do
    let res ← execute fun db =>
      { db with
        entryFlavors := db.entryFlavors.deleteWhere fun r => r.key = (entryId, flavorId) }
    pure (errorOf res)

def removeFlavors (entryId : Int) : List Int → Db (Option String)
  | [] => pure none
  | f :: rest => do
    match ← removeFlavor entryId f with
    | some err => pure (some err)
    | none => removeFlavors entryId rest

/-- The end of `applyFlavors` for a pure removal. -/
def failWithoutRenditions (entryId : Int) : Db (Option String) := do
  match ← query fun db => .ok (db.doneCount entryId) with
  | .error err => pure (some err)
  | .ok doneCount =>
    if doneCount = 0 then do
      let res ← execute fun db => db.setEntry entryId fun e =>
        { e with status := .failed, error := some "no enabled flavors produce renditions" }
      pure (errorOf res)
    else pure none

/-- `applyFlavors` once the flavor rows are written; `rebuildMaster` asks and writes what
`buildMaster` does. -/
def finishApply (env : Env) (entryId : Int) (grown : Bool) : Db (Option String) := do
  match ← entryByID entryId with
  | .error err => pure (some err)
  | .ok _ => do
    if grown then reprobe entryId
    match ← buildMaster env with
    | some err => pure (some err)
    | none => if grown then pure none else failWithoutRenditions entryId

def applyFlavors (env : Env) (entryId : Int) (flavorIds : List Int) (now : Int) :
    Db (Option String) := do
  match ← query fun db => .ok ((db.flavorRows entryId).map (·.flavorId)) with
  | .error err => pure (some err)
  | .ok current => do
    let added := flavorIds.filter (· ∉ current)
    match ← prepareFlavors entryId now added with
    | some err => pure (some err)
    | none =>
      match ← removeFlavors entryId (current.filter (· ∉ flavorIds)) with
      | some err => pure (some err)
      | none => finishApply env entryId (added ≠ [])

/-- `Queue.Get`. -/
def getJob (jobId : JobId) : Db (Except String Job) :=
  query fun db => match db.jobs.row jobId with
    | some job => .ok job
    | none => .error notFound

/-- `Get` and the handler; none when the job was not loaded. -/
def loadAndHandle (env : Env) (jobId : JobId) (now : Int) : Db (Option (Option String)) := do
  match ← getJob jobId with
  | .error _ => pure none
  | .ok job => do
    let err ← handle env now job
    pure (some err)

/-- The statement by which `runJob` ends the row. -/
inductive Ending where
  /-- None, or one on a context that has ended. -/
  | kept
  | done
  | cancelled
  | failed (errMsg : String) (attempts : Nat) (maxAttempts : Int)
  deriving DecidableEq, Repr

def cancelRequested (db : Database) (jobId : JobId) : Bool :=
  (db.jobs.row jobId).any (·.cancelRequestedAt.isSome)

/-- What `runJob` does after the handler, while its context lives for `left` statements. The
flag and `Cancel` go by the worker's context, `Fail` and `Done` by that of the job, which
ends with it. -/
def ending (db : Database) (value : Option (Option String)) (left : Nat) (parentLive : Bool)
    (jobId : JobId) : Ending :=
  let left := if parentLive then left else 0
  match value with
  | none => .kept
  | some none => if left = 0 then .kept else .done
  | some (some err) =>
    if parentLive && cancelRequested db jobId then .cancelled
    else if left < 2 then .kept
    else match db.jobs.row jobId with
      | none => .kept
      | some j => .failed err j.attempts j.maxAttempts

def Ending.update (jobId : JobId) (now : Int) : Ending → Option Update
  | .kept => none
  | .done => some (Queue.Table.done jobId now)
  | .cancelled => some (Queue.Table.cancel jobId "cancelled by user" now)
  | .failed errMsg attempts maxAttempts =>
    some (Queue.Table.failWrite jobId errMsg attempts maxAttempts now)

/-- The database after it. -/
def Ending.written (last : Ending) (db : Database) (jobId : JobId) (now : Int) : Database :=
  match last.update jobId now with
  | none => db
  | some u => Database.updateJobs db u

/-- `RequeueStale`: the flavors are reverted only when a row was requeued. -/
def requeueStale (db : Database) (staleAfter now : Int) : Database :=
  if db.jobs.exists fun _ j => isStale staleAfter now j then
    (Database.updateJobs db (Queue.Table.requeueStale staleAfter now)).revertFlavors
  else db

theorem ending_done {db : Database} {value : Option (Option String)} {left : Nat}
    {parentLive : Bool} {jobId : JobId} (h : ending db value left parentLive jobId = .done) :
    value = some none ∧ left ≠ 0 := by
  unfold ending at h
  dsimp only at h
  split at h
  · cases h
  · refine ⟨rfl, fun zero => ?_⟩
    have none_left : (if parentLive = true then left else 0) = 0 := by
      rw [zero, ite_self]
    rw [if_pos none_left] at h
    cases h
  · grind

section Written
variable {db : Database} {jobId : JobId} {now : Int} {last : Ending}

theorem update_own {u : Update} (h : last.update jobId now = some u) :
    (∀ id j, u.applies id j = true → id = jobId) ∧ ∀ j, (u.set j).entryId = j.entryId := by
  cases last with
  | kept => cases h
  | done =>
    cases h
    exact ⟨fun _ _ applies => of_decide_eq_true applies, fun _ => rfl⟩
  | cancelled =>
    cases h
    exact ⟨fun _ _ applies => of_decide_eq_true applies, fun _ => rfl⟩
  | failed errMsg attempts maxAttempts =>
    cases h
    unfold failWrite
    split
    · exact ⟨fun _ _ applies => of_decide_eq_true applies, fun _ => rfl⟩
    · exact ⟨fun _ _ applies => of_decide_eq_true applies, fun _ => rfl⟩

theorem entries_written : (last.written db jobId now).entries = db.entries ∧
    (last.written db jobId now).entryFlavors = db.entryFlavors := by
  unfold Ending.written
  split
  · exact ⟨rfl, rfl⟩
  · exact ⟨rfl, rfl⟩

theorem row_written {id : JobId} {j' : Job}
    (h : (last.written db jobId now).jobs.row id = some j') :
    ∃ j, db.jobs.row id = some j ∧ j'.entryId = j.entryId := by
  unfold Ending.written at h
  split at h
  · exact ⟨j', h, rfl⟩
  · next u update =>
    obtain ⟨j, row, rfl⟩ := Jobs.row_updateWhere.mp h
    refine ⟨j, row, ?_⟩
    split
    · exact (update_own update).2 j
    · rfl

theorem row_written_of_ne {id : JobId} {j : Job} (other : id ≠ jobId)
    (row : db.jobs.row id = some j) : (last.written db jobId now).jobs.row id = some j := by
  unfold Ending.written
  split
  · exact row
  · next u update =>
    refine Jobs.row_updateWhere.mpr ⟨j, row, ?_⟩
    rw [if_neg fun applies => other ((update_own update).1 id j applies)]

end Written

end Vidsilo.Jobs.Pipeline
