import Vidsilo.Jobs.Threads
import Vidsilo.Library.KeyMap

/-!
# Every entry in a processing state has a job that could finish it

Source: cmd/vidsilo/worker.go:165-251, internal/queue/queue.go, internal/upload/upload.go:63-110,
221-268, internal/api/entries.go:252-356, 455-500, internal/api/fromurl.go:96-155,
internal/api/activity.go:118-180, internal/api/catalog.go:94-170, internal/jobs/jobs.go.

Any number of requests and executions of jobs are under way. A step is one statement of
one of them, one transaction of the queue, or the end of a context, in any order.
`keepsWork` excludes the steps that leave an entry in a processing state without a job: the
last job it has is cancelled, dead-lettered or done, a request sets the status after its
jobs have ended, or a program is cut off between a status and the `Enqueue` that goes with it.
-/
namespace Vidsilo.Jobs.Unfinished
open Library Library.SlashPath Library.Transition Queue.Table Tables Runner Pipeline Coverage
open Threads (RequestId claimed spent spent_loadAndHandle rest_of_spent row_claimed)

/-- The requests of more than one statement. -/
inductive Operation where
  | fromURL (now : Int)
  | finishUpload (env : Env) (entryId : Int) (ext : Text) (size now : Int)
  | reprocess (bulk : Bool) (entryId now : Int)
  | applyFlavors (env : Env) (entryId : Int) (flavorIds : List Int) (now : Int)

def Operation.program : Operation → Db (Option String)
  | .fromURL now => Pipeline.fromURL now
  | .finishUpload env entryId ext size now => Pipeline.finishUpload env entryId ext size now
  | .reprocess bulk entryId now => handleEntryReprocess bulk entryId now
  | .applyFlavors env entryId flavorIds now => Pipeline.applyFlavors env entryId flavorIds now

/-- The entry that it may set to probing. -/
def Operation.entry : Operation → Option Int
  | .fromURL _ => none
  | .finishUpload _ entryId _ _ _ => some entryId
  | .reprocess _ entryId _ => some entryId
  | .applyFlavors _ entryId _ _ => some entryId

/-- It sets the status after it has enqueued. -/
def Operation.late : Operation → Bool
  | .fromURL .. | .finishUpload .. => false
  | .reprocess .. | .applyFlavors .. => true

structure Request where
  operation : Operation
  thread : Thread Database (Option String)

inductive Stage where
  | handling (thread : Thread Database (Option (Option String)))
  /-- The handler has failed, and the SELECT of `Fail` is to come. -/
  | failing (errMsg : String)
  /-- One UPDATE is to come. -/
  | closing (last : Ending)

/-- A call of `runJob`, with the entry of its job. -/
structure Execution where
  jobId : JobId
  entryId : Option Int
  stage : Stage

abbrev ExecutionId := Nat

structure State where
  db : Database
  requests : KeyMap RequestId Request
  executions : KeyMap ExecutionId Execution

/-- Nothing uploaded and nothing under way; the flavors are any. -/
def start (flavors : List Flavor) (nextFlavorId : Int) : State :=
  ⟨Pipeline.start flavors nextFlavorId, ∅, ∅⟩

/-- The requests and the calls of the queue that are one transaction. -/
inductive Transaction where
  | newUpload
  | deleteEntry (entryId : Int)
  | createFlavor (f : Flavor)
  | updateFlavor (f : Flavor)
  | deleteFlavor (flavorId : Int)
  | heartbeat (workerId : WorkerId) (now : Int)
  | pause (jobId : JobId) (now : Int)
  | resume (jobId : JobId)
  | requestCancel (jobId : JobId) (now : Int)
  | retry (jobId : JobId) (now : Int)
  | requeueStale (staleAfter now : Int)

def Transaction.commit (db : Database) : Transaction → Database
  | .newUpload => db.insertEntry
  | .deleteEntry entryId => db.deleteEntry entryId
  | .createFlavor f => db.createFlavor f
  | .updateFlavor f => db.updateFlavor f
  | .deleteFlavor flavorId => db.deleteFlavor flavorId
  | .heartbeat workerId now => Database.updateJobs db (Queue.Table.heartbeat workerId now)
  | .pause jobId now => Database.updateJobs db (Queue.Table.pause jobId now)
  | .resume jobId => Database.updateJobs db (Queue.Table.resume jobId)
  | .requestCancel jobId now => Database.updateJobs db (Queue.Table.requestCancel jobId now)
  | .retry jobId now => Database.updateJobs db (Queue.Table.retry jobId now)
  | .requeueStale staleAfter now => Pipeline.requeueStale db staleAfter now

inductive Action where
  | transaction (t : Transaction)
  | begin (request : RequestId) (operation : Operation)
  /-- The next statement of a request. -/
  | request (request : RequestId)
  /-- The context of a request ends. -/
  | disconnect (request : RequestId)
  | returned (request : RequestId)
  | claim (workerId : WorkerId) (limit : Nat) (exclude : List JobType)
      (slots : JobId → ExecutionId) (envs : JobId → Env) (now : Int)
  /-- The next statement of a handler. -/
  | statement (execution : ExecutionId)
  /-- The context of a job ends. -/
  | expire (execution : ExecutionId)
  /-- `runJob` returns without a further write: its worker dies, or its contexts end. -/
  | abandon (execution : ExecutionId)
  /-- The handler has returned. -/
  | conclude (execution : ExecutionId)
  /-- The SELECT of `Fail`. -/
  | select (execution : ExecutionId)
  /-- The UPDATE of `Done`, `Cancel` or `Fail`. -/
  | write (execution : ExecutionId) (now : Int)

/-- The execution of a job that was claimed, before its first statement. -/
def launched (jobs : Jobs) (envs : JobId → Env) (now : Int) (id : JobId) : Execution :=
  ⟨id, (jobs.row id).bind (·.entryId), .handling ⟨loadAndHandle (envs id) id now, true⟩⟩

/-- An execution for each job that was claimed; one whose id is taken dies at once. -/
def launch (jobs : Jobs) (slots : JobId → ExecutionId) (envs : JobId → Env) (now : Int)
    (executions : KeyMap ExecutionId Execution) : List JobId → KeyMap ExecutionId Execution
  | [] => executions
  | id :: rest =>
    if (executions.lookup (slots id)).isSome then launch jobs slots envs now executions rest
    else launch jobs slots envs now (executions.insert (slots id) (launched jobs envs now id)) rest

/-- The request goes on as this thread. -/
def State.resume (s : State) (request : RequestId) (r : Request)
    (t : Thread Database (Option String)) : State :=
  { s with requests := s.requests.insert request { r with thread := t } }

/-- The handler that an execution is in. -/
def State.handling (s : State) (execution : ExecutionId) :
    Option (Execution × Thread Database (Option (Option String))) :=
  (s.executions.lookup execution).bind fun x =>
    match x.stage with
    | .handling t => some (x, t)
    | _ => none

/-- Without a further stage the execution is over. -/
def State.restage (s : State) (execution : ExecutionId) (x : Execution) : Option Stage → State
  | none => { s with executions := s.executions.erase execution }
  | some stage =>
    { s with executions := s.executions.insert execution { x with stage := stage } }

/-- What is left to `runJob` once its handler has returned: the flag is read with the
worker's context, `Fail` and `Done` go by that of the job. -/
def concluded (db : Database) (jobId : JobId) (live : Bool) : Option (Option String) → Option Stage
  | none => none
  | some none => if live then some (.closing .done) else none
  | some (some err) =>
    if cancelRequested db jobId then some (.closing .cancelled)
    else if live then some (.failing err) else none

def step (s : State) : Action → Option State
  | .transaction t => some { s with db := t.commit s.db }
  | .begin request operation =>
    if (s.requests.lookup request).isSome then none
    else some { s with
      requests := s.requests.insert request ⟨operation, ⟨operation.program, true⟩⟩ }
  | .request request =>
    (s.requests.lookup request).bind fun r =>
      (r.thread.step s.db).map fun after =>
        { s.resume request r after.1 with db := after.2 }
  | .disconnect request =>
    (s.requests.lookup request).map fun r =>
      s.resume request r { r.thread with live := false }
  | .returned request =>
    (s.requests.lookup request).bind fun r =>
      match r.thread.rest with
      | .ret _ => some { s with requests := s.requests.erase request }
      | .stmt .. => none
  | .claim workerId limit exclude slots envs now =>
    let ids := claimed s.db limit exclude now
    some { s with
      db := Database.updateJobs s.db (Queue.Table.start ids workerId now)
      executions := launch s.db.jobs slots envs now s.executions ids }
  | .statement execution =>
    (s.handling execution).bind fun (x, t) =>
      (t.step s.db).map fun after =>
        { s.restage execution x (some (.handling after.1)) with db := after.2 }
  | .expire execution =>
    (s.handling execution).map fun (x, t) =>
      s.restage execution x (some (.handling { t with live := false }))
  | .abandon execution =>
    (s.executions.lookup execution).map fun x => s.restage execution x none
  | .conclude execution =>
    (s.handling execution).bind fun (x, t) =>
      match t.rest with
      | .ret value => some (s.restage execution x (concluded s.db x.jobId t.live value))
      | .stmt .. => none
  | .select execution =>
    (s.executions.lookup execution).bind fun x =>
      match x.stage with
      | .failing errMsg =>
        some (s.restage execution x ((s.db.jobs.row x.jobId).map fun j =>
          .closing (.failed errMsg j.attempts j.maxAttempts)))
      | _ => none
  | .write execution now =>
    (s.executions.lookup execution).bind fun x =>
      match x.stage with
      | .closing last =>
        some { s.restage execution x none with db := last.written s.db x.jobId now }
      | _ => none

/-- Its handler has returned without error: only `Done` is to come. -/
def Execution.spent (x : Execution) : Bool :=
  match x.stage with
  | .handling t => Threads.spent t
  | .closing .done => true
  | _ => false

def State.spent (s : State) (jobId : JobId) : Bool :=
  s.executions.entries.any fun e => e.2.jobId = jobId && e.2.spent

/-- A queued or running probe or transcode job of the entry that no execution has finished. -/
def atWork (s : State) (entryId : Int) (id : JobId) (j : Job) : Bool :=
  finisher entryId j && !s.spent id

def worked (s : State) (entryId : Int) : Bool := s.db.jobs.exists (atWork s entryId)

/-- Another such job. -/
def another (s : State) (entryId : Int) (jobId : JobId) : Bool :=
  s.db.jobs.exists fun id j => id ≠ jobId && atWork s entryId id j

/-- The entry of the job can do without it. -/
def spare (s : State) (jobId : JobId) : Bool :=
  (s.db.jobs.row jobId).all fun j => j.entryId.all fun k =>
    !(underway s.db k && finisher k j) || another s k jobId

/-- The next statement is an `Enqueue` for the entry. -/
def enqueues (db : Database) (entryId : Int) (t : Thread Database α) : Bool :=
  t.live && (t.step db).any fun after =>
    (after.2.jobs.row db.jobs.nextId).any (finisher entryId)

/-- A program that is cut off here leaves no `Enqueue` undone that an entry needs. -/
def whole (s : State) (entryId : Option Int) (t : Thread Database α) : Bool :=
  entryId.all fun k => !(underway s.db k && enqueues s.db k t) || worked s k

/-- A statement of a request that enqueues first takes the entry to a processing state only
while a job is there for it. -/
def inTime (s : State) (r : Request) (after : Database) : Bool :=
  !r.operation.late || r.operation.entry.all fun k =>
    underway s.db k || !underway after k || worked s k

/-- A handler does not count open flavor rows of an entry that nobody else works for, and
return. -/
def relieved (s : State) (x : Execution) (t t' : Thread Database (Option (Option String))) : Bool :=
  !Threads.spent t' || x.entryId.all fun k =>
    enqueues s.db k t || !underway s.db k || s.db.remaining k = 0 || another s k x.jobId

def keepsWork (s : State) : Action → Bool
  | .transaction (.requestCancel jobId _) =>
    !(s.db.jobs.row jobId).any (·.status = .queued) || spare s jobId
  | .request request =>
    (s.requests.lookup request).all fun r =>
      (r.thread.step s.db).all fun after => inTime s r after.2
  | .disconnect request =>
    (s.requests.lookup request).all fun r => r.operation.late || whole s r.operation.entry r.thread
  | .statement execution =>
    (s.handling execution).all fun (x, t) =>
      (t.step s.db).all fun after => relieved s x t after.1
  | .expire execution | .abandon execution =>
    (s.handling execution).all fun (x, t) => whole s x.entryId t
  | .write execution _ =>
    (s.executions.lookup execution).all fun x =>
      match x.stage with
      | .closing .cancelled => spare s x.jobId
      | .closing (.failed _ attempts maxAttempts) =>
        decide ((attempts : Int) < maxAttempts) || spare s x.jobId
      | _ => true
  | _ => true

/-- No request about the entry and no execution of its jobs is under way. -/
def quiet (s : State) (entryId : Int) : Bool :=
  (s.requests.entries.all fun r => r.2.operation.entry ≠ some entryId) &&
    s.executions.entries.all fun x => x.2.entryId ≠ some entryId

def Spent (s : State) (id : JobId) : Prop :=
  s.executions.Any fun x => x.jobId = id ∧ x.spent = true

theorem spent_iff {s : State} {id : JobId} : s.spent id = true ↔ Spent s id := by
  simp only [State.spent, Spent, KeyMap.any_entries_iff (p := fun x : Execution => x.jobId = id && x.spent),
    Bool.and_eq_true, decide_eq_true_eq]

def AtWork (s : State) (k : Int) : Prop :=
  ∃ id j, s.db.jobs.row id = some j ∧ finisher k j = true ∧ ¬ Spent s id

theorem atWork_iff {s : State} {k : Int} {id : JobId} {j : Job} :
    atWork s k id j = true ↔ finisher k j = true ∧ ¬ Spent s id := by
  rw [← spent_iff]
  simp [atWork]

theorem worked_iff {s : State} {k : Int} : worked s k = true ↔ AtWork s k := by
  simp only [worked, AtWork, Jobs.exists_iff, atWork_iff]

theorem another_iff {s : State} {k : Int} {id : JobId} :
    another s k id = true ↔ ∃ id' j, id' ≠ id ∧ s.db.jobs.row id' = some j ∧
      finisher k j = true ∧ ¬ Spent s id' := by
  simp only [another, Jobs.exists_iff, Bool.and_eq_true, decide_eq_true_eq, atWork_iff]
  grind

/-- The request still has to enqueue for an entry in a processing state. -/
structure Request.Owes (k : Int) (r : Request) : Prop where
  entry : r.operation.entry = some k
  upload : r.operation.late = false
  live : r.thread.live = true
  next : Coverage.Owes k r.thread.rest

/-- So has the handler of the execution. -/
structure Execution.Owes (k : Int) (x : Execution) : Prop where
  entry : x.entryId = some k
  next : ∃ t, x.stage = .handling t ∧ t.live = true ∧ Coverage.Owes k t.rest

def Owed (s : State) (k : Int) : Prop :=
  s.requests.Any (Request.Owes k) ∨ s.executions.Any (Execution.Owes k)

/-- What a statement of a request does, with what is then left of it. -/
structure Makes (operation : Operation) (rest : Db (Option String)) (db db' : Database) :
    Prop where
  grows : Grows db db'
  sends : ∀ k, underway db' k = true → underway db k = true ∨
    operation.entry = some k ∧ (operation.late = false → Coverage.Owes k rest)

def Request.Orderly (r : Request) : Prop := r.thread.Keeps (fun _ => True) (Makes r.operation)

structure Execution.Orderly (db : Database) (x : Execution) : Prop where
  drawn : x.jobId < db.jobs.nextId
  holds : Holds x.jobId x.entryId db
  promised : ∀ t, x.stage = .handling t → Promised x.jobId x.entryId t

structure Inv (s : State) : Prop where
  requests : s.requests.All Request.Orderly
  executions : s.executions.All (Execution.Orderly s.db)
  working : ∀ k, underway s.db k = true → AtWork s k ∨ Owed s k

/-- Jobs keep their entries, and ids are drawn once. -/
structure Owners (db db' : Database) : Prop where
  owner : ∀ id j', id < db.jobs.nextId → db'.jobs.row id = some j' →
    ∃ j, db.jobs.row id = some j ∧ j'.entryId = j.entryId
  next : db.jobs.nextId ≤ db'.jobs.nextId

variable {s s' : State} {db db' : Database} {k : Int} {id : JobId}

theorem owners_of_grows (h : Grows db db') : Owners db db' where
  owner id j' drawn row := ⟨j', h.old id j' drawn row, rfl⟩
  next := h.next

theorem Execution.Orderly.move {x : Execution} (h : x.Orderly db) (owners : Owners db db') :
    x.Orderly db' where
  drawn := Nat.lt_of_lt_of_le h.drawn owners.next
  holds j' row := by
    obtain ⟨j, row, same⟩ := owners.owner x.jobId j' h.drawn row
    rw [same]
    exact h.holds j row
  promised := h.promised

theorem makes_of_apart {operation : Operation} {i : Int} (entry : operation.entry = some i)
    (late : operation.late = true) (rest : Db (Option String)) (db db' : Database)
    (apart : Apart (some i) db db') : Makes operation rest db db' where
  grows := apart.toGrows
  sends k under := by
    by_cases own : some i = some k
    · refine .inr ⟨entry.trans own, fun early => ?_⟩
      rw [late] at early
      cases early
    · exact .inl (by rwa [underway_congr (apart.entry k own)] at under)

/-- A new row takes no entry to a processing state. -/
structure Still (db db' : Database) : Prop extends Grows db db' where
  calm : ∀ k, underway db' k = true → underway db k = true

theorem underway_insertEntry (under : underway db.insertEntry k = true) :
    underway db k = true := by
  simp only [underway, Database.insertEntry] at under ⊢
  split at under
  · cases under
  · exact under

theorem still_enqueue (jobType : JobType) (entryId : Int) (flavorId : Option Int)
    (maxAttempts now : Int) (db : Database) :
    Still db (db.enqueue jobType entryId flavorId maxAttempts now) where
  toGrows := (apart_enqueue jobType flavorId maxAttempts now db).toGrows
  calm k under := by
    rwa [underway_congr (congrFun (entries_enqueue jobType flavorId maxAttempts now db) k)] at under

theorem still_fromURL (now : Int) : (Pipeline.fromURL now).Within Still := by
  refine Program.within_try (Program.within_statement _ _ fun db => ?_)
    (fun _ => Program.within_pure _) ?_
  · have grows : Grows db db.insertEntry := ⟨fun _ _ row => row, fun _ _ _ row => row, le_refl _⟩
    exact { toGrows := grows, calm := fun _ under => underway_insertEntry under }
  · intro entryId
    exact Program.within_bind (Program.within_statement _ _ (still_enqueue _ _ _ _ _))
      fun _ => Program.within_pure _

theorem orderly_program (operation : Operation) :
    Request.Orderly ⟨operation, ⟨operation.program, true⟩⟩ := by
  intro _
  cases operation with
  | fromURL now =>
    apply Program.among_of_within (still_fromURL now)
    exact fun rest db db' still => ⟨still.toGrows, fun k under => .inl (still.calm k under)⟩
  | finishUpload env entryId ext size now =>
    simp only [Operation.program, Pipeline.finishUpload]
    split
    · exact Program.among_pure _
    · have among : (handOff entryId (Storage.Keys.originalKey entryId ext) size false now).Among
          (fun _ => True) (Step (some entryId) (· = none)) := by
        intro db guard
        have left : Leaves (fun _ => True) entryId
          (handOff entryId (Storage.Keys.originalKey entryId ext) size false now) db db :=
          leaves_handOff _ _ _ _
        exact left.among db guard
      apply Program.among_mono among
      intro rest db db' stepped
      refine ⟨stepped.apart.toGrows, fun k under => ?_⟩
      exact (stepped.sends k under).imp_right fun own => ⟨own.1, fun _ => own.2⟩
  | reprocess bulk entryId now =>
    exact Program.among_of_within (within_handleEntryReprocess bulk now)
      (makes_of_apart rfl rfl)
  | applyFlavors env entryId flavorIds now =>
    exact Program.among_of_within (within_applyFlavors env flavorIds now)
      (makes_of_apart rfl rfl)

theorem present_of_underway (h : underway db k = true) : (db.entries k).isSome = true := by
  obtain ⟨e, found, _⟩ := (Option.any_eq_true _ _).mp h
  simp [found]

theorem fresh_of_owes {t t' : Thread Database α} {after : Database}
    (owes : Coverage.Owes k t.rest) (live : t.live = true) (taken : t.step db = some (t', after))
    (under : underway db k = true) :
    (after.jobs.row db.jobs.nextId).any (finisher k) = true := by
  obtain ⟨rest, alive⟩ := t
  cases live
  cases rest with
  | ret value => cases owes
  | stmt set onLive onDead =>
    cases taken
    exact owes db (present_of_underway under)

theorem enqueues_of_owes {t : Thread Database α} (owes : Coverage.Owes k t.rest)
    (live : t.live = true) (under : underway db k = true) : enqueues db k t = true := by
  cases next : t.step db with
  | none =>
    obtain ⟨rest, alive⟩ := t
    cases live
    cases rest with
    | ret value => cases owes
    | stmt set onLive onDead => cases next
  | some after => simp [enqueues, live, next, fresh_of_owes owes live next under]

/-- A program that is cut off leaves nothing undone, or a job is there. -/
theorem atWork_of_whole {t : Thread Database α} (h : whole s (some k) t = true)
    (owes : Coverage.Owes k t.rest) (live : t.live = true) (under : underway s.db k = true) :
    AtWork s k := by
  apply worked_iff.mp
  simpa [whole, under, enqueues_of_owes owes live under] using h

theorem AtWork.move (h : AtWork s k)
    (jobs : ∀ id j, s.db.jobs.row id = some j → finisher k j = true →
      ∃ j', s'.db.jobs.row id = some j' ∧ finisher k j' = true)
    (spent : ∀ id, Spent s' id → Spent s id) : AtWork s' k := by
  obtain ⟨id, j, row, fin, unspent⟩ := h
  obtain ⟨j', row', fin'⟩ := jobs id j row fin
  exact ⟨id, j', row', fin', fun ended => unspent (spent id ended)⟩

/-- The new row of an `Enqueue` has no execution yet. -/
theorem atWork_fresh (drawn : s'.executions.All fun x => x.jobId < db.jobs.nextId)
    (fresh : (s'.db.jobs.row db.jobs.nextId).any (finisher k) = true) : AtWork s' k := by
  obtain ⟨j, row, fin⟩ := (Option.any_eq_true _ _).mp fresh
  refine ⟨db.jobs.nextId, j, row, fin, ?_⟩
  rintro ⟨e, x, found, same, _⟩
  exact absurd same (Nat.ne_of_lt (drawn e x found))

theorem Inv.drawn (inv : Inv s) : s.executions.All fun x => x.jobId < s.db.jobs.nextId :=
  inv.executions.mono fun _ orderly => orderly.drawn

section Requests
variable {i : RequestId} {r : Request} {t' : Thread Database (Option String)} {after : Database}

theorem not_owes_returned {err : Option String} (ret : r.thread.rest = .ret err) :
    ¬ r.Owes k := by
  intro owes
  have next := owes.next
  rw [ret] at next
  cases next

theorem inv_begin (inv : Inv s) (absent : s.requests.lookup i = none) (operation : Operation) :
    Inv { s with
      requests := s.requests.insert i ⟨operation, ⟨operation.program, true⟩⟩ } where
  requests := inv.requests.insert (orderly_program operation)
  executions := inv.executions
  working k under := by
    refine (inv.working k under).imp_right fun owed => owed.imp_left fun any => any.insert ?_
    intro old found
    rw [absent] at found
    cases found

theorem owed_resume (owed : s.requests.Any (Request.Owes k)) (found : s.requests.lookup i = some r)
    (own : ¬ r.Owes k) : (s.resume i r t').requests.Any (Request.Owes k) := by
  apply owed.insert
  intro old found' owes
  rw [found] at found'
  cases found'
  exact absurd owes own

/-- A statement of a request on a live context. -/
theorem inv_request (inv : Inv s) (found : s.requests.lookup i = some r)
    (live : r.thread.live = true) (taken : r.thread.step s.db = some (t', after))
    (ok : inTime s r after = true) : Inv { s.resume i r t' with db := after } := by
  obtain ⟨makes, keeps, live'⟩ :=
    Thread.Keeps.step (inv.requests i r found) live trivial taken
  have executions : s.executions.All (Execution.Orderly after) :=
    inv.executions.mono fun _ orderly => orderly.move (owners_of_grows makes.grows)
  have moved {k : Int} (work : AtWork s k) : AtWork { s.resume i r t' with db := after } k :=
    work.move (fun id j row fin => ⟨j, makes.grows.kept id j row, fin⟩) fun _ ended => ended
  have still {k : Int} (before : underway s.db k = true) :
      AtWork { s.resume i r t' with db := after } k ∨
        Owed { s.resume i r t' with db := after } k := by
    rcases inv.working k before with work | byRequest | byExecution
    · exact .inl (moved work)
    · by_cases own : r.Owes k
      · exact .inl (atWork_fresh inv.drawn (fresh_of_owes own.next live taken before))
      · exact .inr (.inl (owed_resume byRequest found own))
    · exact .inr (.inr byExecution)
  refine ⟨inv.requests.insert keeps, executions, fun k under => ?_⟩
  rcases makes.sends k under with before | ⟨entry, owes⟩
  · exact still before
  · cases late : r.operation.late with
    | true =>
      simp only [inTime, late, entry, under, Option.all_some, Bool.not_true, Bool.false_or,
        Bool.or_false, Bool.or_eq_true, worked_iff] at ok
      exact ok.elim still fun work => .inl (moved work)
    | false => exact .inr (.inl (KeyMap.any_insert_self ⟨entry, late, live', owes late⟩))

/-- The context of a request has ended. -/
theorem inv_disconnected (inv : Inv s) (found : s.requests.lookup i = some r)
    (dead : t'.live = false) (whole : ∀ k, underway s.db k = true → r.Owes k → AtWork s k) :
    Inv (s.resume i r t') where
  requests := inv.requests.insert (Thread.keeps_dead dead)
  executions := inv.executions
  working k under := by
    rcases inv.working k under with work | byRequest | byExecution
    · exact .inl work
    · by_cases own : r.Owes k
      · exact .inl (whole k under own)
      · exact .inr (.inl (owed_resume byRequest found own))
    · exact .inr (.inr byExecution)

theorem inv_returned (inv : Inv s) (found : s.requests.lookup i = some r) {err : Option String}
    (ret : r.thread.rest = .ret err) : Inv { s with requests := s.requests.erase i } where
  requests := inv.requests.erase
  executions := inv.executions
  working k under := by
    refine (inv.working k under).imp_right fun owed => owed.imp_left fun any => any.erase ?_
    intro old found'
    rw [found] at found'
    cases found'
    exact not_owes_returned ret

end Requests

section Executions
variable {e : ExecutionId} {x : Execution} {t t' : Thread Database (Option (Option String))}

theorem handling_iff :
    s.handling e = some (x, t) ↔ s.executions.lookup e = some x ∧ x.stage = .handling t := by
  simp only [State.handling, Option.bind_eq_some_iff]
  constructor
  · rintro ⟨x', found, same⟩
    split at same
    · next stage =>
      cases same
      exact ⟨found, stage⟩
    · cases same
  · rintro ⟨found, stage⟩
    exact ⟨x, found, by rw [stage]⟩

theorem not_owes_of_stage {stage : Stage} (here : x.stage = stage)
    (other : ∀ t, stage ≠ .handling t) : ¬ x.Owes k := by
  rintro ⟨_, t, handling, _⟩
  exact other t (here.symm.trans handling)

/-- The handler that owes is the one that the execution is in. -/
theorem Execution.Owes.thread (owes : x.Owes k) (stage : x.stage = .handling t) :
    t.live = true ∧ Coverage.Owes k t.rest := by
  obtain ⟨_, same, live, next⟩ := owes.next
  rw [stage] at same
  cases same
  exact ⟨live, next⟩

theorem owed_restage {stage : Stage} (owed : s.executions.Any (Execution.Owes k))
    (found : s.executions.lookup e = some x) (own : ¬ x.Owes k) :
    (s.restage e x (some stage)).executions.Any (Execution.Owes k) := by
  apply owed.insert
  intro old found' owes
  rw [found] at found'
  cases found'
  exact absurd owes own

/-- The stage of an execution alone changes, or it is over. -/
theorem inv_restage {next : Option Stage} (inv : Inv s) (found : s.executions.lookup e = some x)
    (spent : ∀ stage ∈ next, Execution.spent { x with stage := stage } = true → x.spent = true)
    (promised : ∀ t, .handling t ∈ next → Promised x.jobId x.entryId t)
    (whole : ∀ k, underway s.db k = true → x.Owes k → AtWork s k) :
    Inv (s.restage e x next) := by
  have orderly : x.Orderly s.db := inv.executions e x found
  cases next with
  | none =>
    refine ⟨inv.requests, inv.executions.erase, fun k under => ?_⟩
    rcases inv.working k under with work | byRequest | byExecution
    · exact .inl (work.move (fun id j row fin => ⟨j, row, fin⟩) fun _ ended => ended.of_erase)
    · exact .inr (.inl byRequest)
    · by_cases own : x.Owes k
      · exact .inl ((whole k under own).move (fun id j row fin => ⟨j, row, fin⟩)
          fun _ ended => ended.of_erase)
      · refine .inr (.inr (byExecution.erase fun old found' => ?_))
        rw [found] at found'
        cases found'
        exact own
  | some stage =>
    have ended (id : JobId) (h : Spent (s.restage e x (some stage)) id) : Spent s id := by
      rcases h.of_insert with ⟨same, late⟩ | other
      · exact ⟨e, x, found, same, spent stage rfl late⟩
      · exact other
    have next : Execution.Orderly s.db { x with stage := stage } :=
      ⟨orderly.drawn, orderly.holds, fun t same => promised t (congrArg some same)⟩
    refine ⟨inv.requests, inv.executions.insert next, fun k under => ?_⟩
    rcases inv.working k under with work | byRequest | byExecution
    · exact .inl (work.move (fun id j row fin => ⟨j, row, fin⟩) ended)
    · exact .inr (.inl byRequest)
    · by_cases own : x.Owes k
      · exact .inl ((whole k under own).move (fun id j row fin => ⟨j, row, fin⟩) ended)
      · exact .inr (.inr (owed_restage byExecution found own))

/-- The condition on a handler that is cut off. -/
theorem whole_execution (handling : s.handling e = some (x, t))
    (ok : whole s x.entryId t = true) (k : Int) (under : underway s.db k = true)
    (owes : x.Owes k) : AtWork s k := by
  obtain ⟨live, next⟩ := owes.thread (handling_iff.mp handling).2
  rw [owes.entry] at ok
  exact atWork_of_whole ok next live under

theorem spent_concluded {value : Option (Option String)} {stage : Stage}
    (h : stage ∈ concluded s.db x.jobId t.live value) :
    (∀ t', stage ≠ .handling t') ∧
      (Execution.spent { x with stage := stage } = true → t.live = true ∧ value = some none) := by
  unfold concluded at h
  grind [Execution.spent]

/-- The context of a handler has ended. -/
theorem inv_expired (inv : Inv s) (handling : s.handling e = some (x, t)) (dead : t'.live = false)
    (whole : ∀ k, underway s.db k = true → x.Owes k → AtWork s k) :
    Inv (s.restage e x (some (.handling t'))) := by
  apply inv_restage inv (handling_iff.mp handling).1
  · rintro stage ⟨⟩ late
    simp [Execution.spent, Threads.spent, dead] at late
  · rintro t'' ⟨⟩
    exact Thread.keeps_dead dead
  · exact whole

/-- The handler has returned: what is to come is no more than was. -/
theorem inv_conclude (inv : Inv s) (handling : s.handling e = some (x, t))
    {value : Option (Option String)} (ret : t.rest = .ret value) :
    Inv (s.restage e x (concluded s.db x.jobId t.live value)) := by
  obtain ⟨found, stage⟩ := handling_iff.mp handling
  apply inv_restage inv found
  · intro next mem late
    obtain ⟨live, isNone⟩ := (spent_concluded mem).2 late
    simp [Execution.spent, stage, Threads.spent, live, ret, isNone]
  · intro t' mem
    exact absurd rfl ((spent_concluded mem).1 t')
  · intro k _ owes
    have next := (owes.thread stage).2
    rw [ret] at next
    cases next

/-- `Fail` knows the attempts, or finds no row. -/
theorem inv_selected {errMsg : String} (inv : Inv s) (found : s.executions.lookup e = some x)
    (stage : x.stage = .failing errMsg) :
    Inv (s.restage e x ((s.db.jobs.row x.jobId).map fun j =>
      .closing (.failed errMsg j.attempts j.maxAttempts))) := by
  apply inv_restage inv found
  · intro next mem late
    obtain ⟨j, _, rfl⟩ := Option.map_eq_some_iff.mp mem
    cases late
  · intro t' mem
    obtain ⟨j, _, same⟩ := Option.map_eq_some_iff.mp mem
    cases same
  · intro k _ owes
    refine absurd owes (not_owes_of_stage stage fun t same => ?_)
    cases same

theorem inv_ended (inv : Inv s) (found : s.executions.lookup e = some x)
    (whole : ∀ k, underway s.db k = true → x.Owes k → AtWork s k) :
    Inv (s.restage e x none) := by
  apply inv_restage inv found _ _ whole
  · intro next mem
    cases mem
  · intro t' mem
    cases mem

/-- When a handler returns without error, its last statement enqueued a job for an entry in a
processing state, or another job is there. -/
theorem job_of_relieved {after : Database} (attended : Attended x.entryId s.db after)
    (entry : x.entryId = some k) (before : underway s.db k = true)
    (under : underway after k = true) (late : Threads.spent t' = true)
    (taken : t.step s.db = some (t', after)) (ok : relieved s x t t' = true) :
    (after.jobs.row s.db.jobs.nextId).any (finisher k) = true ∨
      ∃ id j, id ≠ x.jobId ∧ s.db.jobs.row id = some j ∧ finisher k j = true ∧ ¬ Spent s id := by
  rcases attended k entry (busy_of_underway under) with fresh | ⟨_, unfinished⟩
  · exact .inl fresh
  · simp only [relieved, late, entry, before, Option.all_some, Bool.not_true, Bool.false_or,
      Bool.or_false, Bool.or_eq_true, decide_eq_true_eq, another_iff] at ok
    rcases ok with (enqueued | settled) | other
    · simp only [enqueues, taken, Option.any_some, Bool.and_eq_true] at enqueued
      exact .inl enqueued.2
    · omega
    · exact .inr other

/-- A statement of a handler on a live context: the job stays at work, or the handler returns
without error and leaves its entry attended. -/
theorem inv_statement {after : Database} (inv : Inv s) (handling : s.handling e = some (x, t))
    (live : t.live = true) (taken : t.step s.db = some (t', after))
    (ok : relieved s x t t' = true) :
    Inv { s.restage e x (some (.handling t')) with db := after } := by
  obtain ⟨found, stage⟩ := handling_iff.mp handling
  have orderly : x.Orderly s.db := inv.executions e x found
  obtain ⟨stepped, keeps, live'⟩ :=
    Thread.Keeps.step (orderly.promised t stage) live orderly.holds taken
  have owners : Owners s.db after := owners_of_grows stepped.apart.toGrows
  have next : Execution.Orderly after { x with stage := .handling t' } := by
    have moved := orderly.move owners
    refine ⟨moved.drawn, moved.holds, fun t'' same => ?_⟩
    cases same
    exact keeps
  have executions : (s.restage e x (some (.handling t'))).executions.All
      (Execution.Orderly after) :=
    (inv.executions.mono fun _ orderly => orderly.move owners).insert next
  have drawn : (s.restage e x (some (.handling t'))).executions.All
      fun x => x.jobId < s.db.jobs.nextId := inv.drawn.insert orderly.drawn
  have kept {id : JobId} {j : Job} (row : s.db.jobs.row id = some j) :
      after.jobs.row id = some j := stepped.apart.kept id j row
  have ended {id : JobId} (h : Spent (s.restage e x (some (.handling t'))) id) :
      Threads.spent t' = true ∧ id = x.jobId ∨ Spent s id := by
    rcases h.of_insert with ⟨same, late⟩ | other
    · exact .inl ⟨late, same.symm⟩
    · exact .inr other
  refine ⟨inv.requests, executions, fun k under => ?_⟩
  rcases stepped.sends k under with before | ⟨entry, owes⟩
  · rcases inv.working k before with ⟨id, j, row, fin, unspent⟩ | byRequest | byExecution
    · by_cases last : Threads.spent t' = true ∧ id = x.jobId
      · obtain ⟨late, rfl⟩ := last
        have entry : x.entryId = some k :=
          (orderly.holds j row).symm.trans (finisher_iff.mp fin).2.1
        have attended : Attended x.entryId s.db after :=
          stepped.attended _ (rest_of_spent late).2 rfl
        rcases job_of_relieved attended entry before under late taken ok with
          fresh | ⟨id, j, other, row, fin, unspent⟩
        · exact .inl (atWork_fresh drawn fresh)
        · refine .inl ⟨id, j, kept row, fin, fun h => ?_⟩
          exact (ended h).elim (fun same => other same.2) unspent
      · refine .inl ⟨id, j, kept row, fin, fun h => (ended h).elim last unspent⟩
    · exact .inr (.inl byRequest)
    · by_cases own : x.Owes k
      · have owes := (own.thread stage).2
        exact .inl (atWork_fresh drawn (fresh_of_owes owes live taken before))
      · exact .inr (.inr (owed_restage byExecution found own))
  · exact .inr (.inr (KeyMap.any_insert_self ⟨entry, t', rfl, live', owes⟩))

end Executions

/-- No entry gets into a processing state, and the jobs of those that stay in one are kept, but
for the lost ones. -/
structure Steady (lost : JobId → Prop) (db db' : Database) : Prop extends Owners db db' where
  entry : ∀ k, underway db' k = true → underway db k = true
  jobs : ∀ k id j, underway db' k = true → ¬ lost id → db.jobs.row id = some j →
    finisher k j = true → ∃ j', db'.jobs.row id = some j' ∧ finisher k j' = true

section Steadiness
variable {lost : JobId → Prop} {jobId : JobId}

theorem inv_steady (inv : Inv s) (steady : Steady lost s.db db')
    (spared : ∀ k id j, underway s.db k = true → lost id → s.db.jobs.row id = some j →
      finisher k j = true → ¬ Spent s id →
      ∃ id' j', ¬ lost id' ∧ s.db.jobs.row id' = some j' ∧ finisher k j' = true ∧ ¬ Spent s id') :
    Inv { s with db := db' } := by
  have kept {k : Int} {id : JobId} {j : Job} (under : underway db' k = true) (stays : ¬ lost id)
      (row : s.db.jobs.row id = some j) (fin : finisher k j = true) (unspent : ¬ Spent s id) :
      AtWork { s with db := db' } k := by
    obtain ⟨j', row', fin'⟩ := steady.jobs k id j under stays row fin
    exact ⟨id, j', row', fin', unspent⟩
  refine ⟨inv.requests, inv.executions.mono fun _ orderly => orderly.move steady.toOwners, ?_⟩
  intro k under
  refine (inv.working k (steady.entry k under)).imp_left ?_
  rintro ⟨id, j, row, fin, unspent⟩
  by_cases gone : lost id
  · obtain ⟨id', j', stays, row', fin', unspent'⟩ :=
      spared k id j (steady.entry k under) gone row fin unspent
    exact kept under stays row' fin' unspent'
  · exact kept under gone row fin unspent

/-- Nothing is lost. -/
theorem inv_calm (inv : Inv s) (steady : Steady (fun _ => False) s.db db') :
    Inv { s with db := db' } := inv_steady inv steady fun _ _ _ _ gone => gone.elim

theorem spared_of_spare (h : spare s jobId = true) {j : Job} (under : underway s.db k = true)
    (row : s.db.jobs.row jobId = some j) (fin : finisher k j = true) :
    ∃ id' j', id' ≠ jobId ∧ s.db.jobs.row id' = some j' ∧ finisher k j' = true ∧
      ¬ Spent s id' := by
  have entry : j.entryId = some k := (finisher_iff.mp fin).2.1
  apply another_iff.mp
  simpa [spare, row, entry, under, fin] using h

theorem Steady.refl (lost : JobId → Prop) (db : Database) : Steady lost db db where
  owner _ j' _ row := ⟨j', row, rfl⟩
  next := le_refl _
  entry _ under := under
  jobs _ _ j _ _ row fin := ⟨j, row, fin⟩

/-- Only the entries and the jobs count. -/
theorem Steady.congr {db'' : Database} (h : Steady lost db db') (entries : db''.entries = db'.entries)
    (jobs : db''.jobs = db'.jobs) : Steady lost db db'' where
  owner := jobs ▸ h.owner
  next := jobs ▸ h.next
  entry k under := h.entry k (by rwa [underway_congr (congrFun entries k)] at under)
  jobs := by
    intro k id j under
    rw [underway_congr (congrFun entries k)] at under
    rw [jobs]
    exact h.jobs k id j under

theorem steady_updateJobs {u : Update} (entry : ∀ j, (u.set j).entryId = j.entryId)
    (kept : ∀ id j k, ¬ lost id → db.jobs.row id = some j → u.applies id j = true →
      finisher k j = true → finisher k (u.set j) = true) :
    Steady lost db (Database.updateJobs db u) where
  owner id j' _ row' := by
    obtain ⟨j, row, rfl⟩ := Jobs.row_updateWhere.mp row'
    refine ⟨j, row, ?_⟩
    split_ifs
    · exact entry j
    · rfl
  next := le_refl _
  entry _ under := under
  jobs k id j _ stays row fin := by
    refine ⟨_, Jobs.row_updateWhere.mpr ⟨j, row, rfl⟩, ?_⟩
    split
    · next applies => exact kept id j k stays row applies fin
    · exact fin

theorem steady_insertEntry (db : Database) : Steady lost db db.insertEntry where
  owner _ j' _ row := ⟨j', row, rfl⟩
  next := le_refl _
  entry _ under := underway_insertEntry under
  jobs _ _ j _ _ row fin := ⟨j, row, fin⟩

theorem steady_deleteEntry (entryId : Int) (db : Database) :
    Steady lost db (db.deleteEntry entryId) where
  owner id j' _ row := by
    obtain ⟨isRow, _⟩ := Option.filter_eq_some_iff.mp row
    exact ⟨j', isRow, rfl⟩
  next := le_refl _
  entry k under := by
    simp only [underway, Database.deleteEntry] at under ⊢
    split at under
    · cases under
    · exact under
  jobs k id j under _ row fin := by
    have other : k ≠ entryId := by
      rintro rfl
      simp [underway, Database.deleteEntry] at under
    refine ⟨j, Option.filter_eq_some_iff.mpr ⟨row, ?_⟩, fin⟩
    simpa [(finisher_iff.mp fin).2.1] using other

theorem steady_requestCancel (now : Int) :
    Steady (fun id => id = jobId ∧ (db.jobs.row jobId).any (·.status = .queued) = true) db
      (Database.updateJobs db (Queue.Table.requestCancel jobId now)) := by
  apply steady_updateJobs
  · intro j
    simp only [Queue.Table.requestCancel]
    split
    · rfl
    · rfl
  · intro id j k stays row applies fin
    obtain rfl : id = jobId := of_decide_eq_true applies
    have running : ¬ j.status = .queued := by simpa [row] using stays
    simp only [Queue.Table.requestCancel, if_neg running]
    exact fin

theorem inv_transaction {t : Transaction} (inv : Inv s)
    (ok : keepsWork s (.transaction t) = true) : Inv { s with db := t.commit s.db } := by
  have calm {u : Update} (entry : ∀ j, (u.set j).entryId = j.entryId)
      (kept : ∀ j k, finisher k j = true → finisher k (u.set j) = true) :
      Inv { s with db := Database.updateJobs s.db u } :=
    inv_calm inv (steady_updateJobs entry fun _ j k _ _ _ fin => kept j k fin)
  cases t with
  | newUpload => exact inv_calm inv (steady_insertEntry s.db)
  | deleteEntry entryId => exact inv_calm inv (steady_deleteEntry entryId s.db)
  | createFlavor f => exact inv_calm inv ((Steady.refl _ s.db).congr rfl rfl)
  | updateFlavor f => exact inv_calm inv ((Steady.refl _ s.db).congr rfl rfl)
  | deleteFlavor flavorId => exact inv_calm inv ((Steady.refl _ s.db).congr rfl rfl)
  | heartbeat workerId now => exact calm (fun _ => rfl) fun _ _ fin => fin
  | pause jobId now => exact calm (fun _ => rfl) fun _ _ fin => fin
  | resume jobId => exact calm (fun _ => rfl) fun _ _ fin => fin
  | requestCancel jobId now =>
    apply inv_steady inv (steady_requestCancel now)
    rintro k id j under ⟨rfl, queued⟩ row fin _
    have free : spare s id = true := by simpa [keepsWork, queued] using ok
    obtain ⟨id', j', other, row', fin', unspent⟩ := spared_of_spare free under row fin
    exact ⟨id', j', fun gone => other gone.1, row', fin', unspent⟩
  | retry jobId now =>
    exact calm (fun _ => rfl) fun _ _ fin => finisher_same fin (.inl rfl) rfl rfl
  | requeueStale staleAfter now =>
    apply inv_calm inv
    simp only [Transaction.commit, Pipeline.requeueStale]
    split
    · refine Steady.congr (steady_updateJobs (u := Queue.Table.requeueStale staleAfter now) ?_ ?_)
        rfl rfl
      · exact fun _ => rfl
      · exact fun _ _ _ _ _ _ fin => finisher_same fin (.inl rfl) rfl rfl
    · exact .refl _ _

/-- The row of the job is written last, and other rows stay. -/
theorem steady_written {last : Ending} {now : Int}
    (kept : ∀ j k, ¬ lost jobId → db.jobs.row jobId = some j → finisher k j = true →
      ∃ j', (last.written db jobId now).jobs.row jobId = some j' ∧ finisher k j' = true) :
    Steady lost db (last.written db jobId now) where
  owner id j' _ row := row_written row
  next := by
    unfold Ending.written
    split
    · exact le_refl _
    · exact le_refl _
  entry k under := by rwa [underway_congr (congrFun entries_written.1 k)] at under
  jobs k id j _ stays row fin := by
    by_cases own : id = jobId
    · subst own
      exact kept j k stays row fin
    · exact ⟨j, row_written_of_ne own row, fin⟩

theorem inv_written {last : Ending} {now : Int} {e : ExecutionId} {x : Execution} (inv : Inv s)
    (found : s.executions.lookup e = some x) (stage : x.stage = .closing last)
    (ok : keepsWork s (.write e now) = true) :
    Inv { s with db := last.written s.db x.jobId now } := by
  simp only [keepsWork, found, Option.all_some, stage] at ok
  have lastJob : Steady (· = x.jobId) s.db (last.written s.db x.jobId now) :=
    steady_written fun _ _ stays => absurd rfl stays
  have spared (free : spare s x.jobId = true) :
      Inv { s with db := last.written s.db x.jobId now } := by
    apply inv_steady inv lastJob
    rintro k id j under rfl row fin _
    exact spared_of_spare free under row fin
  cases last with
  | kept => exact inv_calm inv (.refl _ _)
  | done =>
    apply inv_steady inv lastJob
    rintro k id j under rfl row fin unspent
    exact absurd ⟨e, x, found, rfl, by simp [Execution.spent, stage]⟩ unspent
  | cancelled => exact spared ok
  | failed errMsg attempts maxAttempts =>
    rcases (Bool.or_eq_true _ _).mp ok with more | free
    · apply inv_calm inv
      apply steady_written
      intro j k _ row fin
      refine ⟨(requeue x.jobId errMsg attempts now).set j, ?_, ?_⟩
      · refine Jobs.row_updateWhere.mpr ⟨j, row, ?_⟩
        simp [failWrite, Int.not_le.mpr (of_decide_eq_true more), requeue]
      · exact finisher_same fin (.inl rfl) rfl rfl
    · exact spared free

end Steadiness

section Claiming
variable {slots : JobId → ExecutionId} {envs : JobId → Env} {now : Int} {jobs : Jobs}
  {executions : KeyMap ExecutionId Execution} {ids : List JobId} {P : Execution → Prop}

theorem all_launch (h : executions.All P) (new : ∀ id ∈ ids, P (launched jobs envs now id)) :
    (launch jobs slots envs now executions ids).All P := by
  induction ids generalizing executions with
  | nil => exact h
  | cons id rest ih =>
    have later : ∀ id ∈ rest, P (launched jobs envs now id) :=
      fun id mem => new id (List.mem_cons_of_mem _ mem)
    simp only [launch]
    split
    · exact ih h later
    · exact ih (h.insert (new id List.mem_cons_self)) later

theorem any_launch (h : executions.Any P) : (launch jobs slots envs now executions ids).Any P := by
  induction ids generalizing executions with
  | nil => exact h
  | cons id rest ih =>
    simp only [launch]
    split
    · exact ih h
    · next free =>
      apply ih
      apply h.insert
      intro old found
      simp [found] at free

theorem inv_launch (inv : Inv s) (drawn : ∀ id ∈ ids, (s.db.jobs.row id).isSome = true) :
    Inv { s with executions := launch s.db.jobs slots envs now s.executions ids } := by
  have orderly (id : JobId) (mem : id ∈ ids) :
      (launched s.db.jobs envs now id).Orderly s.db := by
    obtain ⟨j, row⟩ := Option.isSome_iff_exists.mp (drawn id mem)
    refine ⟨Jobs.lt_nextId row, fun j' row' => ?_, fun t same => ?_⟩
    · have isRow : s.db.jobs.row id = some j' := row'
      simp only [launched, isRow, Option.bind_some]
    · cases same
      exact promised_loadAndHandle _ _ _ _
  have ended (id : JobId)
      (h : Spent { s with executions := launch s.db.jobs slots envs now s.executions ids } id) :
      Spent s id := by
    by_contra unspent
    obtain ⟨e, x, found, late⟩ := h
    have none : s.executions.All fun x => ¬ (x.jobId = id ∧ x.spent = true) :=
      fun e x found late => unspent ⟨e, x, found, late⟩
    refine all_launch none (fun id' _ => ?_) e x found late
    rintro ⟨_, late⟩
    cases late
  refine ⟨inv.requests, all_launch inv.executions orderly, fun k under => ?_⟩
  rcases inv.working k under with work | byRequest | byExecution
  · exact .inl (work.move (fun id j row fin => ⟨j, row, fin⟩) ended)
  · exact .inr (.inl byRequest)
  · exact .inr (.inr (any_launch byExecution))

end Claiming

theorem inv_start (flavors : List Flavor) (nextFlavorId : Int) :
    Inv (start flavors nextFlavorId) where
  requests i r found := by cases found
  executions e x found := by cases found
  working k under := by cases under

theorem inv_step {a : Action} (inv : Inv s) (ok : keepsWork s a = true)
    (taken : step s a = some s') : Inv s' := by
  cases a with
  | transaction t =>
    cases taken
    exact inv_transaction inv ok
  | begin request operation =>
    simp only [step] at taken
    split at taken
    · cases taken
    · next free =>
      cases taken
      exact inv_begin inv (Option.not_isSome_iff_eq_none.mp free) operation
  | request request =>
    obtain ⟨r, found, taken⟩ := Option.bind_eq_some_iff.mp taken
    obtain ⟨⟨t', after⟩, stepped, rfl⟩ := Option.map_eq_some_iff.mp taken
    cases live : r.thread.live with
    | true => exact inv_request inv found live stepped (by simpa [keepsWork, found, stepped] using ok)
    | false =>
      obtain ⟨rfl, dead⟩ := Thread.step_dead live stepped
      refine inv_disconnected inv found dead fun k _ owes => ?_
      rw [owes.live] at live
      cases live
  | disconnect request =>
    obtain ⟨r, found, rfl⟩ := Option.map_eq_some_iff.mp taken
    refine inv_disconnected inv found rfl fun k under owes => ?_
    simp only [keepsWork, found, Option.all_some, owes.upload, owes.entry, Bool.false_or] at ok
    exact atWork_of_whole ok owes.next owes.live under
  | returned request =>
    obtain ⟨r, found, taken⟩ := Option.bind_eq_some_iff.mp taken
    split at taken
    · next err ret =>
      cases taken
      exact inv_returned inv found ret
    · cases taken
  | claim workerId limit exclude slots envs now =>
    cases taken
    have rows : ∀ id ∈ claimed s.db limit exclude now, (s.db.jobs.row id).isSome = true := by
      intro id mem
      obtain ⟨j, row, _⟩ := Threads.queued_of_claimed mem
      simp [row]
    refine inv_calm (inv_launch inv rows) (steady_updateJobs (fun _ => rfl) ?_)
    exact fun _ _ _ _ _ _ fin => finisher_same fin (.inr rfl) rfl rfl
  | statement execution =>
    obtain ⟨⟨x, t⟩, handling, taken⟩ := Option.bind_eq_some_iff.mp taken
    obtain ⟨⟨t', after⟩, stepped, rfl⟩ := Option.map_eq_some_iff.mp taken
    cases live : t.live with
    | true =>
      exact inv_statement inv handling live stepped (by simpa [keepsWork, handling, stepped] using ok)
    | false =>
      obtain ⟨rfl, dead⟩ := Thread.step_dead live stepped
      refine inv_expired inv handling dead fun k _ owes => ?_
      rw [(owes.thread (handling_iff.mp handling).2).1] at live
      cases live
  | expire execution =>
    obtain ⟨⟨x, t⟩, handling, rfl⟩ := Option.map_eq_some_iff.mp taken
    refine inv_expired inv handling rfl (whole_execution handling ?_)
    simpa [keepsWork, handling] using ok
  | abandon execution =>
    obtain ⟨x, found, rfl⟩ := Option.map_eq_some_iff.mp taken
    apply inv_ended inv found
    intro k under owes
    obtain ⟨t, stage, _⟩ := owes.next
    have handling : s.handling execution = some (x, t) := handling_iff.mpr ⟨found, stage⟩
    exact whole_execution handling (by simpa [keepsWork, handling] using ok) k under owes
  | conclude execution =>
    obtain ⟨⟨x, t⟩, handling, taken⟩ := Option.bind_eq_some_iff.mp taken
    dsimp only at taken
    split at taken
    · next value ret =>
      cases taken
      exact inv_conclude inv handling ret
    · cases taken
  | select execution =>
    obtain ⟨x, found, taken⟩ := Option.bind_eq_some_iff.mp taken
    split at taken
    · next errMsg stage =>
      cases taken
      exact inv_selected inv found stage
    · cases taken
  | write execution now =>
    obtain ⟨x, found, taken⟩ := Option.bind_eq_some_iff.mp taken
    split at taken
    · next last stage =>
      cases taken
      refine inv_ended (inv_written inv found stage ok) found fun k _ owes => ?_
      refine absurd owes (not_owes_of_stage stage fun t same => ?_)
      cases same
    · cases taken

/-- Everything outside the database succeeds; the source has 1080 lines. -/
def allWell : Env where
  spool := .ok ()
  probe := .ok ⟨60000, 1080⟩
  outputDir := .ok ()
  transcodeFlavor := .ok ()
  publishFlavor := .ok ()
  master := .ok ()
  fetch := .ok ("mp4".toList, 1000)
  put := .ok ()

def flavor720 : Flavor := ⟨1, "720p".toList, 720, true, 0⟩

/-- An upload, with the probe job that it leaves. -/
def uploaded : List Action :=
  [.transaction .newUpload, .begin 0 (.finishUpload allWell 1 "mp4".toList 1000 0), .request 0,
    .request 0, .returned 0]

def claimAt (env : Env) (now : Int) : Action := .claim 7 1 [] (fun jobId => jobId) (fun _ => env) now

/-- A job is claimed and its handler makes so many statements. -/
def handled (env : Env) (jobId : JobId) (statements : Nat) (now : Int) : List Action :=
  claimAt env now :: List.replicate statements (.statement jobId)

/-- A job that ends with `Done`. -/
def finished (jobId : JobId) (statements : Nat) (now : Int) : List Action :=
  handled allWell jobId statements now ++ [.conclude jobId, .write jobId now]

/-- One attempt of a job that ends with `Fail`. -/
def failed (env : Env) (jobId : JobId) (statements : Nat) (now : Int) : List Action :=
  handled env jobId statements now ++ [.conclude jobId, .select jobId, .write jobId now]

/-- An upload without a flavor, which is ready after its probe. -/
def published : List Action := uploaded ++ finished 0 6 0

end Vidsilo.Jobs.Unfinished
