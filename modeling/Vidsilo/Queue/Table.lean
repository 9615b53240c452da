import Mathlib.Data.Int.Basic
import Mathlib.Data.List.Range
import Mathlib.Tactic.Linarith

/-!
# The jobs table and the statements that write it

Source: internal/queue/queue.go:43-59 (`EnqueueAt`), 178-353 (the writes of `Claim`,
`Heartbeat`, `Pause`, `Resume`, `RequestCancel`, `Cancel`, `Done`, `Fail`,
`RequeueStale`), internal/api/activity.go:118-139 (`handleJobRetry`), migrations
0001, 0009 and 0010. Every write of a row is an `Update`: a WHERE clause and a SET
clause, executed at the `now()` of its transaction.

Times are nanoseconds on the database clock. Of the payload only `flavorId` is kept;
`progress`, `created_at` and `updated_at` are left out, as no statement here reads them.
-/
namespace Vidsilo.Queue.Table

abbrev JobId := Nat
abbrev WorkerId := Nat

def second : Int := 1000000000
def minute : Int := 60 * second

inductive JobType where
  | probe | transcode | download
  | other (name : String)
  deriving DecidableEq, Repr

inductive JobStatus where
  | queued | running | done | failed | cancelled
  deriving DecidableEq, Repr

structure Job where
  type : JobType
  entryId : Option Int
  /-- `payload->>'flavorId'`. -/
  flavorId : Option Int
  status : JobStatus
  attempts : Nat
  maxAttempts : Int
  runAt : Int
  startedAt : Option Int
  finishedAt : Option Int
  heartbeatAt : Option Int
  workerId : Option WorkerId
  pauseRequestedAt : Option Int
  cancelRequestedAt : Option Int
  error : Option String
  deriving DecidableEq, Repr

/-- The table: ids below `nextId` have been drawn from the sequence. -/
structure Jobs where
  row : JobId → Option Job
  nextId : JobId
  drawn : ∀ id, nextId ≤ id → row id = none

def Jobs.empty : Jobs := ⟨fun _ => none, 0, fun _ _ => rfl⟩

/-- An INSERT takes its id when it executes and is seen when it commits. -/
def Jobs.reserve (jobs : Jobs) : Jobs :=
  ⟨jobs.row, jobs.nextId + 1, fun id h => jobs.drawn id (Nat.le_of_succ_le h)⟩

def Jobs.insert (jobs : Jobs) (id : JobId) (h : id < jobs.nextId) (j : Job) : Jobs where
  row := fun i => if i = id then some j else jobs.row i
  nextId := jobs.nextId
  drawn := fun i hi => by
    rw [if_neg (Nat.ne_of_gt (Nat.lt_of_lt_of_le h hi))]
    exact jobs.drawn i hi

structure Update where
  /-- WHERE -/
  applies : JobId → Job → Bool
  /-- SET -/
  set : Job → Job

def Jobs.updateWhere (jobs : Jobs) (u : Update) : Jobs where
  row := fun id => (jobs.row id).map fun j => if u.applies id j then u.set j else j
  nextId := jobs.nextId
  drawn := fun id h => by rw [jobs.drawn id h]; rfl

/-- Ids of the rows satisfying a condition, in id order. -/
def Jobs.matching (jobs : Jobs) (p : JobId → Job → Bool) : List JobId :=
  (List.range jobs.nextId).filter fun id => (jobs.row id).any (p id)

def Jobs.exists (jobs : Jobs) (p : JobId → Job → Bool) : Bool :=
  (List.range jobs.nextId).any fun id => (jobs.row id).any (p id)

/-- The row that `EnqueueAt` inserts; no `runAt` stamps the database clock. -/
def enqueueAt (jobType : JobType) (entryId flavorId : Option Int) (maxAttempts : Int)
    (runAt : Option Int) (now : Int) : Job where
  type := jobType
  entryId := entryId
  flavorId := flavorId
  status := .queued
  attempts := 0
  maxAttempts := if maxAttempts ≤ 0 then 5 else maxAttempts
  runAt := runAt.getD now
  startedAt := none
  finishedAt := none
  heartbeatAt := none
  workerId := none
  pauseRequestedAt := none
  cancelRequestedAt := none
  error := none

/-- The UPDATE of `Claim`. -/
def start (ids : List JobId) (workerId : WorkerId) (now : Int) : Update where
  applies id _ := id ∈ ids
  set j := { j with
    status := .running, startedAt := some now, attempts := j.attempts + 1
    workerId := some workerId, heartbeatAt := some now }

def heartbeat (workerId : WorkerId) (now : Int) : Update where
  applies _ j := j.workerId = some workerId ∧ j.status = .running
  set j := { j with heartbeatAt := some now }

def pause (jobId : JobId) (now : Int) : Update where
  applies id j := id = jobId ∧ j.status = .queued
  set j := { j with pauseRequestedAt := some now }

def resume (jobId : JobId) : Update where
  applies id _ := id = jobId
  set j := { j with pauseRequestedAt := none }

/-- The SELECT … FOR UPDATE and the UPDATE it decides on: the row is locked in between. -/
def requestCancel (jobId : JobId) (now : Int) : Update where
  applies id _ := id = jobId
  set j :=
    if j.status = .queued then
      { j with
        status := .cancelled, workerId := none, heartbeatAt := none
        error := some "cancelled by user", finishedAt := some now }
    else { j with cancelRequestedAt := some now }

def cancel (jobId : JobId) (reason : String) (now : Int) : Update where
  applies id _ := id = jobId
  set j := { j with
    status := .cancelled, error := some reason, workerId := none
    heartbeatAt := none, cancelRequestedAt := none, finishedAt := some now }

def done (jobId : JobId) (now : Int) : Update where
  applies id _ := id = jobId
  set j := { j with
    status := .done, workerId := none, heartbeatAt := none
    finishedAt := some now }

/-- `Fail` when the attempts it read are used up. -/
def deadLetter (jobId : JobId) (errMsg : String) (now : Int) : Update where
  applies id _ := id = jobId
  set j := { j with
    status := .failed, workerId := none, heartbeatAt := none
    error := some errMsg, finishedAt := some now }

/-- `time.Duration(1<<uint(attempts)) * time.Second`, capped; both wrap at 64 bits. -/
def backoff (attempts : Nat) : Int :=
  let d := Int.bmod (Int.bmod (2 ^ attempts) (2 ^ 64) * second) (2 ^ 64)
  if 300 * second < d then 300 * second else d

/-- `Fail` otherwise. -/
def requeue (jobId : JobId) (errMsg : String) (attempts : Nat) (now : Int) : Update where
  applies id _ := id = jobId
  set j := { j with
    status := .queued, workerId := none, heartbeatAt := none
    error := some errMsg, runAt := now + backoff attempts }

/-- The second statement of `Fail`, for the attempts and the bound its first one read. -/
def failWrite (jobId : JobId) (errMsg : String) (attempts : Nat) (maxAttempts : Int)
    (now : Int) : Update :=
  if maxAttempts ≤ attempts then deadLetter jobId errMsg now
  else requeue jobId errMsg attempts now

def isStale (staleAfter : Int) (now : Int) (j : Job) : Bool :=
  j.status = .running && ((j.heartbeatAt.or j.startedAt).any fun t => decide (t < now - staleAfter))

def requeueStale (staleAfter : Int) (now : Int) : Update where
  applies _ j := isStale staleAfter now j
  set j := { j with
    status := .queued, workerId := none, heartbeatAt := none, startedAt := none
    runAt := now + 5 * second }

def retryable (j : Job) : Bool := j.status = .failed || j.status = .cancelled

/-- The UPDATE of `handleJobRetry`. -/
def retry (jobId : JobId) (now : Int) : Update where
  applies id j := id = jobId && retryable j
  set j := { j with
    status := .queued, attempts := 0, error := none, runAt := now
    startedAt := none, finishedAt := none }

theorem Jobs.lt_nextId {jobs : Jobs} {id : JobId} {j : Job} (h : jobs.row id = some j) :
    id < jobs.nextId := by
  by_contra hle
  rw [jobs.drawn id (Nat.le_of_not_lt hle)] at h
  cases h

@[simp] theorem Jobs.row_reserve (jobs : Jobs) : jobs.reserve.row = jobs.row := rfl

theorem Jobs.row_insert (jobs : Jobs) {id : JobId} (h : id < jobs.nextId) (j : Job) (i : JobId) :
    (jobs.insert id h j).row i = if i = id then some j else jobs.row i := rfl

theorem Jobs.row_updateWhere {jobs : Jobs} {u : Update} {id : JobId} {j' : Job} :
    (jobs.updateWhere u).row id = some j' ↔
      ∃ j, jobs.row id = some j ∧ (if u.applies id j then u.set j else j) = j' :=
  Option.map_eq_some_iff

theorem Jobs.mem_matching {jobs : Jobs} {p : JobId → Job → Bool} {id : JobId} :
    id ∈ jobs.matching p ↔ ∃ j, jobs.row id = some j ∧ p id j = true := by
  simp only [Jobs.matching, List.mem_filter, List.mem_range]
  constructor
  · rintro ⟨_, h⟩
    cases hrow : jobs.row id with
    | none => simp [hrow] at h
    | some j => exact ⟨j, rfl, by simpa [hrow] using h⟩
  · rintro ⟨j, hrow, h⟩
    exact ⟨Jobs.lt_nextId hrow, by simpa [hrow] using h⟩

theorem Jobs.exists_iff {jobs : Jobs} {p : JobId → Job → Bool} :
    jobs.exists p = true ↔ ∃ id j, jobs.row id = some j ∧ p id j = true := by
  simp only [Jobs.exists, List.any_eq_true, List.mem_range]
  constructor
  · rintro ⟨id, _, h⟩
    cases hrow : jobs.row id with
    | none => simp [hrow] at h
    | some j => exact ⟨id, j, hrow, by simpa [hrow] using h⟩
  · rintro ⟨id, j, hrow, h⟩
    exact ⟨id, Jobs.lt_nextId hrow, by simpa [hrow] using h⟩

theorem Jobs.nodup_matching (jobs : Jobs) (p : JobId → Job → Bool) : (jobs.matching p).Nodup :=
  List.nodup_range.filter _

end Vidsilo.Queue.Table
