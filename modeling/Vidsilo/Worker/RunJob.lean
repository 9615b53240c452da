import Vidsilo.Library.Transition
import Vidsilo.Queue.Table

/-!
# One run of a claimed job

Source: cmd/vidsilo/worker.go:203-251 (`runJob`), internal/queue/queue.go:194-201,
219-312. Three contexts meet here: the worker's (`parent`), that of the job, which the
deadline of four hours and the watcher end, and the handler's, which is the job's. A
database call fails exactly when its context has ended.

The handler may return at any time and with any result: `finalizeTranscode` returns
nil when it cannot read the entry, so also without an error on an ended context. It
does not write the row. The rows of other jobs and the log are left out.
-/
namespace Vidsilo.Worker.RunJob
open Queue.Table Library.Transition

inductive Watcher where
  | polling
  /-- It has read the flag and is about to call `cancel`. -/
  | firing
  | stopped
  deriving DecidableEq, Repr

/-- Where `runJob` stands. -/
inductive Pc where
  | load
  | handling
  | checking (err : String)
  | cancelling
  | failRead (err : String)
  | failWrite (err : String) (attempts : Nat) (maxAttempts : Int)
  | finishing
  | returned
  deriving DecidableEq, Repr

structure JobRun where
  workerId : WorkerId
  jobId : JobId
  row : Job
  parentLive : Bool
  jobLive : Bool
  watcher : Watcher
  pc : Pc
  deriving DecidableEq, Repr

inductive Action where
  | load
  /-- `runner.Handle` returns; none is nil. -/
  | handle (err : Option String)
  | checkCancel
  | cancel (now : Int)
  | failRead
  | failWrite (now : Int)
  | done (now : Int)
  | watcherPoll
  | watcherFire
  | requestCancel (now : Int)
  | heartbeat (now : Int)
  | deadline
  | shutdown
  deriving DecidableEq, Repr

/-- `runJob` returns and its deferred `cancel` ends the context of the job. -/
def JobRun.ret (s : JobRun) : JobRun := { s with jobLive := false, pc := .returned }

/-- A write of the row, when its context is live. -/
def JobRun.write (s : JobRun) (live : Bool) (u : Update) : JobRun :=
  if live && u.applies s.jobId s.row then { s with row := u.set s.row } else s

def step (s : JobRun) : Action → Option JobRun
  | .load =>
    if s.pc = .load then some (if s.jobLive then { s with pc := .handling } else s.ret) else none
  | .handle err =>
    if s.pc = .handling then
      some { s with pc := match err with | some e => .checking e | none => .finishing }
    else none
  | .checkCancel =>
    match s.pc with
    | .checking err =>
      if s.parentLive && s.row.cancelRequestedAt.isSome then some { s with pc := .cancelling }
      else some { s with pc := .failRead err }
    | _ => none
  | .cancel now =>
    if s.pc = .cancelling then
      some (s.write s.parentLive (Queue.Table.cancel s.jobId "cancelled by user" now)).ret
    else none
  | .failRead =>
    match s.pc with
    | .failRead err =>
      some (if s.jobLive then { s with pc := .failWrite err s.row.attempts s.row.maxAttempts }
        else s.ret)
    | _ => none
  | .failWrite now =>
    match s.pc with
    | .failWrite err attempts maxAttempts =>
      some (s.write s.jobLive (Queue.Table.failWrite s.jobId err attempts maxAttempts now)).ret
    | _ => none
  | .done now =>
    if s.pc = .finishing then
      some (s.write s.jobLive (Queue.Table.done s.jobId now)).ret
    else none
  | .watcherPoll =>
    if s.watcher = .polling ∧ s.pc ≠ .load then
      if s.jobLive then
        some (if s.row.cancelRequestedAt.isSome then { s with watcher := .firing } else s)
      else some { s with watcher := .stopped }
    else none
  | .watcherFire =>
    if s.watcher = .firing then some { s with watcher := .stopped, jobLive := false } else none
  | .requestCancel now => some (s.write true (Queue.Table.requestCancel s.jobId now))
  | .heartbeat now => some (s.write true (Queue.Table.heartbeat s.workerId now))
  | .deadline => some { s with jobLive := false }
  | .shutdown => some { s with jobLive := false, parentLive := false }

/-- A run of a job that the worker has claimed at `now`. -/
def start (workerId : WorkerId) (jobId : JobId) (row : Job) (now : Int) : JobRun where
  workerId := workerId
  jobId := jobId
  row := (Queue.Table.start [jobId] workerId now).set row
  parentLive := true
  jobLive := true
  watcher := .polling
  pc := .load

/-- The row runs under this worker. -/
def Mine (s : JobRun) : Prop := s.row.status = .running ∧ s.row.workerId = some s.workerId

/-- The calls by which `runJob` loads or ends the job are made on a live context: the
job's, or the worker's for `Cancel`. -/
def endsLive (s : JobRun) : Action → Bool
  | .load | .failRead | .failWrite _ | .done _ => s.jobLive
  | .cancel _ => s.parentLive
  | _ => true

theorem mine_of_row {s s' : JobRun} (row : s'.row = s.row) (worker : s'.workerId = s.workerId) :
    Mine s' ↔ Mine s := by
  unfold Mine
  rw [row, worker]

/-- The statements that end the job leave it with the worker only by failing. -/
theorem mine_ret_write (s : JobRun) (live : Bool) (u : Update) (mine : Mine s)
    (applies : u.applies s.jobId s.row = true) (ends : (u.set s.row).status ≠ .running) :
    Mine (s.write live u).ret ↔ live = false := by
  cases live with
  | false =>
    have row : (s.write false u).ret.row = s.row := by simp [JobRun.write, JobRun.ret]
    have worker : (s.write false u).ret.workerId = s.workerId := by
      simp [JobRun.write, JobRun.ret]
    simp only [mine_of_row row worker, mine]
  | true =>
    have row : (s.write true u).ret.row = u.set s.row := by
      simp [JobRun.write, JobRun.ret, applies]
    simp [Mine, row, ends]

theorem failWrite_ends (id : JobId) (err : String) (attempts : Nat) (maxAttempts : Int) (now : Int)
    (j : Job) : (Queue.Table.failWrite id err attempts maxAttempts now).applies id j = true ∧
      ((Queue.Table.failWrite id err attempts maxAttempts now).set j).status ≠ .running := by
  unfold Queue.Table.failWrite
  split
  · simp [deadLetter]
  · simp [requeue]

/-- The cancel flag of a running job does not move it, and neither does a flag or a
cancellation that comes after it has ended. -/
theorem mine_requestCancel (s : JobRun) (now : Int) :
    Mine (s.write true (Queue.Table.requestCancel s.jobId now)) ↔ Mine s := by
  by_cases queued : s.row.status = .queued
  · have row : (s.write true (Queue.Table.requestCancel s.jobId now)).row.status = .cancelled := by
      simp [JobRun.write, Queue.Table.requestCancel, queued]
    simp [Mine, row, queued]
  · simp [Mine, JobRun.write, Queue.Table.requestCancel, queued]

theorem mine_heartbeat (s : JobRun) (now : Int) :
    Mine (s.write true (Queue.Table.heartbeat s.workerId now)) ↔ Mine s := by
  unfold JobRun.write
  split
  · exact Iff.rfl
  · exact Iff.rfl

@[simp, grind =] theorem write_workerId (s : JobRun) (live : Bool) (u : Update) :
    (s.write live u).workerId = s.workerId := by
  unfold JobRun.write
  split
  · rfl
  · rfl

@[simp] theorem write_pc (s : JobRun) (live : Bool) (u : Update) : (s.write live u).pc = s.pc := by
  unfold JobRun.write
  split
  · rfl
  · rfl

/-- A read of the row goes on, or finds its context ended. -/
theorem read_before_return {s s' : JobRun} {next : Pc} (mine : Mine s) (goesOn : next ≠ .returned)
    (h : (if s.jobLive = true then { s with pc := next } else s.ret) = s') :
    (s'.pc ≠ .returned ∧ Mine s' ∧ s.jobLive = true) ∨
      (s'.pc = .returned ∧ (Mine s' ↔ s.jobLive = false)) := by
  subst h
  cases live : s.jobLive with
  | true => exact .inl ⟨goesOn, mine, rfl⟩
  | false => exact .inr ⟨rfl, iff_of_true mine rfl⟩

/-- A step before the return: either `runJob` goes on, still holding the row, or it
returns, and then it holds the row if and only if its last call found its context
ended. -/
theorem step_before_return {s s' : JobRun} {a : Action} (h : step s a = some s') (mine : Mine s)
    (before : s.pc ≠ .returned) :
    (s'.pc ≠ .returned ∧ Mine s' ∧ endsLive s a = true) ∨
      (s'.pc = .returned ∧ (Mine s' ↔ endsLive s a = false)) := by
  cases a with
  | load =>
    simp only [step] at h
    split at h
    · exact read_before_return mine (by simp) (Option.some.inj h)
    · cases h
  | handle err =>
    simp only [step] at h
    split at h
    · simp only [Option.some.injEq] at h
      subst h
      refine .inl ⟨?_, mine, rfl⟩
      cases err with
      | none => simp
      | some e => simp
    · cases h
  | checkCancel =>
    simp only [step] at h
    split at h
    · split at h
      · cases h
        exact .inl ⟨by simp, mine, rfl⟩
      · cases h
        exact .inl ⟨by simp, mine, rfl⟩
    · cases h
  | cancel now =>
    simp only [step] at h
    split at h
    · cases h
      refine .inr ⟨rfl, ?_⟩
      exact mine_ret_write s s.parentLive _ mine (by simp [Queue.Table.cancel])
        (by simp [Queue.Table.cancel])
    · cases h
  | failRead =>
    simp only [step] at h
    split at h
    · exact read_before_return mine (by simp) (Option.some.inj h)
    · cases h
  | failWrite now =>
    simp only [step] at h
    split at h
    · next err attempts maxAttempts _ =>
      cases h
      have ends := failWrite_ends s.jobId err attempts maxAttempts now s.row
      exact .inr ⟨rfl, mine_ret_write s s.jobLive _ mine ends.1 ends.2⟩
    · cases h
  | done now =>
    simp only [step] at h
    split at h
    · cases h
      refine .inr ⟨rfl, ?_⟩
      exact mine_ret_write s s.jobLive _ mine (by simp [Queue.Table.done])
        (by simp [Queue.Table.done])
    · cases h
  | watcherPoll =>
    simp only [step] at h
    split at h
    · split at h
      · split at h
        · cases h
          exact .inl ⟨before, mine, rfl⟩
        · cases h
          exact .inl ⟨before, mine, rfl⟩
      · cases h
        exact .inl ⟨before, mine, rfl⟩
    · cases h
  | watcherFire =>
    simp only [step] at h
    split at h
    · cases h
      exact .inl ⟨before, mine, rfl⟩
    · cases h
  | requestCancel now =>
    cases h
    exact .inl ⟨by simpa using before, (mine_requestCancel s now).mpr mine, rfl⟩
  | heartbeat now =>
    cases h
    exact .inl ⟨by simpa using before, (mine_heartbeat s now).mpr mine, rfl⟩
  | deadline =>
    cases h
    exact .inl ⟨before, mine, rfl⟩
  | shutdown =>
    cases h
    exact .inl ⟨before, mine, rfl⟩

/-- After the return only the watcher and the surroundings still move, and none of them
takes the row or gives it back. -/
theorem step_after_return {s s' : JobRun} {a : Action} (h : step s a = some s')
    (after : s.pc = .returned) :
    s'.pc = .returned ∧ (Mine s' ↔ Mine s) ∧ endsLive s a = true := by
  cases a with
  | load => simp [step, after] at h
  | handle err => simp [step, after] at h
  | checkCancel => simp [step, after] at h
  | cancel now => simp [step, after] at h
  | failRead => simp [step, after] at h
  | failWrite now => simp [step, after] at h
  | done now => simp [step, after] at h
  | watcherPoll =>
    simp only [step] at h
    split at h
    · split at h
      · split at h
        · cases h
          exact ⟨after, Iff.rfl, rfl⟩
        · cases h
          exact ⟨after, Iff.rfl, rfl⟩
      · cases h
        exact ⟨after, Iff.rfl, rfl⟩
    · cases h
  | watcherFire =>
    simp only [step] at h
    split at h
    · cases h
      exact ⟨after, Iff.rfl, rfl⟩
    · cases h
  | requestCancel now =>
    cases h
    exact ⟨by simpa using after, mine_requestCancel s now, rfl⟩
  | heartbeat now =>
    cases h
    exact ⟨by simpa using after, mine_heartbeat s now, rfl⟩
  | deadline =>
    cases h
    exact ⟨after, Iff.rfl, rfl⟩
  | shutdown =>
    cases h
    exact ⟨after, Iff.rfl, rfl⟩

/-- `runJob` holds the row until it returns, and no longer. -/
def HoldsUntilReturn (s : JobRun) : Prop := Mine s ↔ s.pc ≠ .returned

theorem workerId_step {s s' : JobRun} {a : Action} (h : step s a = some s') :
    s'.workerId = s.workerId := by
  unfold step at h
  grind [JobRun.ret]

theorem workerId_run {workerId : WorkerId} {jobId : JobId} {row : Job} {now : Int}
    {trace : List Action} {s : JobRun} (h : Run step Always (start workerId jobId row now) trace s) :
    s.workerId = workerId := by
  apply h.invariant (fun s => s.workerId = workerId) rfl
  intro s a s' same _ taken
  rw [workerId_step taken, same]

theorem holds_start (workerId : WorkerId) (jobId : JobId) (row : Job) (now : Int) :
    HoldsUntilReturn (start workerId jobId row now) := by
  simp [HoldsUntilReturn, Mine, start, Queue.Table.start]

/-- One step on a live context. -/
theorem holds_step {s s' : JobRun} {a : Action} (inv : HoldsUntilReturn s)
    (live : endsLive s a = true) (h : step s a = some s') : HoldsUntilReturn s' := by
  by_cases returned : s.pc = .returned
  · obtain ⟨pc, same, _⟩ := step_after_return h returned
    simpa [HoldsUntilReturn, pc, same, returned] using inv
  · rcases step_before_return h (inv.mpr returned) returned with ⟨pc, mine, _⟩ | ⟨pc, mine⟩
    · exact iff_of_true mine pc
    · simp [HoldsUntilReturn, pc, mine, live]

theorem holds_run {workerId : WorkerId} {jobId : JobId} {row : Job} {now : Int}
    {trace : List Action} {s : JobRun}
    (h : Run step (fun s a => endsLive s a = true) (start workerId jobId row now) trace s) :
    HoldsUntilReturn s :=
  h.invariant HoldsUntilReturn (holds_start workerId jobId row now) fun _ _ _ => holds_step

/-- Either all the calls found their contexts live, or one of them failed, and with it
the last chance to end the row. -/
theorem live_or_kept {workerId : WorkerId} {jobId : JobId} {row : Job} {now : Int}
    {trace : List Action} {s : JobRun} (h : Run step Always (start workerId jobId row now) trace s) :
    Run step (fun s a => endsLive s a = true) (start workerId jobId row now) trace s ∨
      (s.pc = .returned ∧ Mine s) := by
  induction h with
  | start => exact .inl .start
  | @next trace s s' a before _ taken ih =>
    rcases ih with run | ⟨returned, mine⟩
    · cases live : endsLive s a with
      | true => exact .inl (.next run live taken)
      | false =>
        by_cases returned : s.pc = .returned
        · have alive := (step_after_return taken returned).2.2
          rw [live] at alive
          cases alive
        · have mine : Mine s := (holds_run run).mpr returned
          rcases step_before_return taken mine returned with ⟨_, _, alive⟩ | ⟨pc, kept⟩
          · rw [live] at alive
            cases alive
          · exact .inr ⟨pc, kept.mpr live⟩
    · obtain ⟨pc, same, _⟩ := step_after_return taken returned
      exact .inr ⟨pc, same.mpr mine⟩

/-- When `runJob` has returned, whatever the job, the handler's result and the order of
events, the row has left the worker if and only if the context was live at each call that
loads or ends the job. -/
theorem returned_row_iff (workerId : WorkerId) (jobId : JobId) (row : Job) (now : Int)
    (trace : List Action) (s : JobRun) (h : Run step Always (start workerId jobId row now) trace s)
    (returned : s.pc = .returned) :
    ¬ (s.row.status = .running ∧ s.row.workerId = some workerId) ↔
      Run step (fun s a => endsLive s a = true) (start workerId jobId row now) trace s := by
  have mine : Mine s ↔ s.row.status = .running ∧ s.row.workerId = some workerId := by
    unfold Mine
    rw [workerId_run h]
  rw [← mine]
  constructor
  · intro gone
    rcases live_or_kept h with run | ⟨_, kept⟩
    · exact run
    · exact absurd kept gone
  · intro run kept
    exact (holds_run run).mp kept returned

def someRow : Job := enqueueAt .transcode (some 1) (some 1) 3 (some 0) 0

theorem returned_row_after_success :
    ∃ s : JobRun, s.pc = .returned ∧
      (¬ (s.row.status = .running ∧ s.row.workerId = some 7) ↔
        Run step (fun s a => endsLive s a = true) (start 7 1 someRow 0)
          [.load, .requestCancel 1, .handle none, .heartbeat 2, .done 3, .watcherPoll] s) := by
  obtain ⟨s, run, returned⟩ : ∃ s : JobRun, Run step Always (start 7 1 someRow 0)
      [.load, .requestCancel 1, .handle none, .heartbeat 2, .done 3, .watcherPoll] s ∧
        decide (s.pc = .returned) = true :=
    exists_always (by decide +kernel)
  have pc : s.pc = .returned := of_decide_eq_true returned
  exact ⟨s, pc, returned_row_iff 7 1 someRow 0 _ s run pc⟩

/-- The deadline ends the context while the handler works, and the `Fail` that should
requeue the job runs on the same context. -/
theorem expired_run_keeps_row :
    ∃ (workerId : WorkerId) (jobId : JobId) (row : Job) (now : Int) (trace : List Action)
      (s : JobRun), Run step Always (start workerId jobId row now) trace s ∧ s.pc = .returned ∧
        s.row.status = .running ∧ s.row.workerId = some workerId := by
  obtain ⟨s, run, kept⟩ : ∃ s : JobRun, Run step Always (start 7 1 someRow 0)
      [.load, .deadline, .handle (some "context deadline exceeded"), .checkCancel, .failRead] s ∧
        decide (s.pc = .returned ∧ s.row.status = .running ∧ s.row.workerId = some 7) = true :=
    exists_always (by decide +kernel)
  exact ⟨7, 1, someRow, 0, _, s, run, of_decide_eq_true kept⟩

end Vidsilo.Worker.RunJob
