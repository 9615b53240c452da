import Vidsilo.Jobs.Coverage

/-!
# Requests and executions, one statement at a time

Source: internal/api/entries.go:252-335, 455-500, cmd/vidsilo/worker.go:165-251,
internal/jobs/jobs.go. A request or an execution takes one statement a step, and the steps
of all of them interleave as they like; a claim has any clock. Nothing is requeued:
heartbeats stay away from no job.
-/
namespace Vidsilo.Jobs.Threads
open Library Queue.Table Queue.Claim Tables Runner

abbrev RequestId := Nat

structure State where
  db : Database
  /-- The requests under way, with the entry they are about. -/
  requests : RequestId → Option (Int × Thread Database (Option String))
  /-- The executions of claimed jobs. -/
  executions : JobId → Option (Thread Database (Option (Option String)))

/-- No request and no execution under way. -/
def start (db : Database) : State := ⟨db, fun _ => none, fun _ => none⟩

inductive Action where
  | reprocess (request : RequestId) (bulk : Bool) (entryId now : Int)
  | applyFlavors (request : RequestId) (env : Env) (entryId : Int) (flavorIds : List Int)
      (now : Int)
  /-- The next statement of a request. -/
  | request (request : RequestId)
  /-- The context of a request ends. -/
  | disconnect (request : RequestId)
  | claim (workerId : WorkerId) (limit : Nat) (exclude : List JobType) (envs : JobId → Env)
      (now : Int)
  /-- The next statement of an execution. -/
  | statement (jobId : JobId)
  /-- The context of an execution ends. -/
  | expire (jobId : JobId)
  /-- What `runJob` does after the handler; `left` is used while the context is live. -/
  | finish (jobId : JobId) (left : Nat) (parentLive : Bool) (now : Int)

def State.setRequest (s : State) (request : RequestId)
    (r : Option (Int × Thread Database (Option String))) : State :=
  { s with requests := fun i => if i = request then r else s.requests i }

def State.setExecution (s : State) (jobId : JobId)
    (t : Option (Thread Database (Option (Option String)))) : State :=
  { s with executions := fun i => if i = jobId then t else s.executions i }

def State.begin (s : State) (request : RequestId) (entryId : Int) (program : Db (Option String)) :
    Option State :=
  if (s.requests request).isSome then none
  else some (s.setRequest request (some (entryId, ⟨program, true⟩)))

/-- The rows `Claim` takes. -/
def claimed (db : Database) (limit : Nat) (exclude : List JobType) (now : Int) : List JobId :=
  keepFirst db.jobs [] (selectDue db.jobs limit exclude now fun _ => false)

/-- The handler has returned without error on a live context: only `Done` is to come. -/
def spent (t : Thread Database (Option (Option String))) : Bool :=
  t.live && match t.rest with
    | .ret (some none) => true
    | _ => false

/-- How `runJob` ends the row, once the handler has returned. Only the row of the job is read
and written, and no other statement here writes a running row, so this is one step. -/
def lastWrite (s : State) (jobId : JobId) (left : Nat) (parentLive : Bool) :
    Option Pipeline.Ending :=
  (s.executions jobId).bind fun t =>
    match t.rest with
    | .ret value =>
      some (Pipeline.ending s.db value (if t.live then left else 0) parentLive jobId)
    | .stmt .. => none

def step (s : State) : Action → Option State
  | .reprocess request bulk entryId now =>
    s.begin request entryId (Pipeline.handleEntryReprocess bulk entryId now)
  | .applyFlavors request env entryId flavorIds now =>
    s.begin request entryId (Pipeline.applyFlavors env entryId flavorIds now)
  | .request request =>
    (s.requests request).bind fun r =>
      (r.2.step s.db).map fun after =>
        { s.setRequest request (some (r.1, after.1)) with db := after.2 }
  | .disconnect request =>
    (s.requests request).map fun r =>
      s.setRequest request (some (r.1, { r.2 with live := false }))
  | .claim workerId limit exclude envs now =>
    let ids := claimed s.db limit exclude now
    some { s with
      db := Pipeline.Database.updateJobs s.db (Queue.Table.start ids workerId now)
      executions := fun id =>
        if id ∈ ids then some ⟨Pipeline.loadAndHandle (envs id) id now, true⟩
        else s.executions id }
  | .statement jobId =>
    (s.executions jobId).bind fun t =>
      (t.step s.db).map fun after =>
        { s.setExecution jobId (some after.1) with db := after.2 }
  | .expire jobId =>
    (s.executions jobId).map fun t => s.setExecution jobId (some { t with live := false })
  | .finish jobId left parentLive now =>
    (lastWrite s jobId left parentLive).map fun last =>
      { s.setExecution jobId none with db := last.written s.db jobId now }

theorem queued_of_claimed {db : Database} {limit : Nat} {exclude : List JobType} {now : Int}
    {id : JobId} (h : id ∈ claimed db limit exclude now) :
    ∃ j, db.jobs.row id = some j ∧ j.status = .queued := by
  have selected := (keepFirst_sublist _ _ _).subset h
  obtain ⟨_, j, row, claimable⟩ := mem_selectDue selected
  exact ⟨j, row, claimable_queued claimable⟩

theorem row_claimed {db : Database} {ids : List JobId} {workerId : WorkerId} {now : Int}
    {id : JobId} {j : Job} (row : db.jobs.row id = some j) :
    ∃ j', (Pipeline.Database.updateJobs db (Queue.Table.start ids workerId now)).jobs.row id =
        some j' ∧ j'.entryId = j.entryId ∧
        if id ∈ ids then j'.status = .running else j' = j := by
  refine ⟨_, Jobs.row_updateWhere.mpr ⟨j, row, rfl⟩, ?_⟩
  by_cases taken : id ∈ ids
  · simp [Queue.Table.start, taken]
  · simp [Queue.Table.start, taken]

theorem spent_loadAndHandle (env : Env) (id : JobId) (now : Int) :
    spent ⟨Pipeline.loadAndHandle env id now, true⟩ = false := rfl

theorem rest_of_spent {t : Thread Database (Option (Option String))} (h : spent t = true) :
    t.live = true ∧ t.rest = .ret (some none) := by
  unfold spent at h
  grind

end Vidsilo.Jobs.Threads
