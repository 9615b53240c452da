import Vidsilo.Library.Transition
import Vidsilo.Queue.Claim

/-!
# Workers, claim transactions and the API on one jobs table

Source: internal/queue/queue.go, cmd/vidsilo/worker.go:174-251, internal/api/activity.go:118-180.
The state is the committed table, the open claim transactions with the locks they
hold, and the runs of claimed jobs that have not returned. One action is one
statement; actions of different workers interleave freely.

Postgres is READ COMMITTED: a statement sees what is committed when it runs. The
`now()` of a single statement is any time up to the clock, since a statement may
take effect after it began; that of a claim is the start of its transaction. A write
of a row that an open claim has selected waits, so it is not enabled.
`busy` names the rows that transactions other than claims hold locked.
-/
namespace Vidsilo.Queue.Machine
open Table Claim Library.Transition

abbrev TxId := Nat

inductive Phase where
  | begun
  /-- Entries whose advisory locks are still to be taken. -/
  | locking (remaining : List Int)
  /-- Rows locked by the second statement, and those kept by the loop after it. -/
  | selected (locked claimed : List JobId)
  deriving DecidableEq, Repr

structure ClaimTx where
  workerId : WorkerId
  limit : Nat
  exclude : List JobType
  now : Int
  phase : Phase
  deriving DecidableEq, Repr

/-- A claimed job whose `runJob` has not returned. `read` is what the first statement
of `Fail` has seen. -/
structure ActiveRun where
  workerId : WorkerId
  jobId : JobId
  read : Option (Nat × Int)
  deriving DecidableEq, Repr

structure System where
  clock : Int
  jobs : Jobs
  tx : TxId → Option ClaimTx
  rowLock : JobId → Option TxId
  advisory : Int → Option TxId
  runs : List ActiveRun

/-- Nothing enqueued, claimed or running yet. -/
def initial (clock : Int) : System where
  clock := clock
  jobs := Jobs.empty
  tx _ := none
  rowLock _ := none
  advisory _ := none
  runs := []

/-- The writes that are a transaction of their own. The last three are issued by a run. -/
inductive Statement where
  | heartbeat (workerId : WorkerId)
  | pause (jobId : JobId)
  | resume (jobId : JobId)
  | requestCancel (jobId : JobId)
  | requeueStale (staleAfter : Int)
  | retry (jobId : JobId)
  | done (workerId : WorkerId) (jobId : JobId)
  | cancel (workerId : WorkerId) (jobId : JobId) (reason : String)
  | failWrite (workerId : WorkerId) (jobId : JobId) (errMsg : String) (attempts : Nat)
      (maxAttempts : Int)
  deriving DecidableEq, Repr

def Statement.update (now : Int) : Statement → Update
  | .heartbeat w => Table.heartbeat w now
  | .pause id => Table.pause id now
  | .resume id => Table.resume id
  | .requestCancel id => Table.requestCancel id now
  | .requeueStale staleAfter => Table.requeueStale staleAfter now
  | .retry id => Table.retry id now
  | .done _ id => Table.done id now
  | .cancel _ id reason => Table.cancel id reason now
  | .failWrite _ id errMsg attempts maxAttempts =>
    Table.failWrite id errMsg attempts maxAttempts now

/-- The row of a `WHERE id = $1`. -/
def Statement.target : Statement → Option JobId
  | .heartbeat _ | .requeueStale _ => none
  | .pause id | .resume id | .requestCancel id | .retry id | .done _ id | .cancel _ id _
  | .failWrite _ id _ _ _ => some id

/-- The run that issues the statement and returns after it. -/
def Statement.issuer : Statement → Option ActiveRun
  | .done w id | .cancel w id _ => some ⟨w, id, none⟩
  | .failWrite w id _ attempts maxAttempts => some ⟨w, id, some (attempts, maxAttempts)⟩
  | _ => none

/-- A retry of a row that is not retryable answers 409 and is no action. -/
def Statement.accepted (jobs : Jobs) : Statement → Bool
  | .retry id => (jobs.row id).any retryable
  | _ => true

inductive Action where
  | tick (d : Nat)
  | reserve
  | enqueue (id : JobId) (began : Int) (jobType : JobType) (entryId flavorId : Option Int)
      (maxAttempts : Int) (runAt : Option Int)
  | execute (st : Statement) (began : Int)
  | beginClaim (t : TxId) (workerId : WorkerId) (limit : Nat) (exclude : List JobType)
  | readEntries (t : TxId)
  | lockEntry (t : TxId)
  | select (t : TxId) (busy : List JobId)
  | commit (t : TxId) (ids : List JobId)
  | rollback (t : TxId)
  | failRead (workerId : WorkerId) (jobId : JobId)
  /-- The run ends without a write: its context is gone or its process died. -/
  | abandon (run : ActiveRun)
  deriving DecidableEq, Repr

def System.setPhase (s : System) (t : TxId) (c : ClaimTx) (phase : Phase) : System :=
  { s with tx := fun i => if i = t then some { c with phase := phase } else s.tx i }

/-- The end of a transaction releases all it holds. -/
def System.close (s : System) (t : TxId) : System :=
  { s with
    tx := fun i => if i = t then none else s.tx i
    rowLock := fun id => if s.rowLock id = some t then none else s.rowLock id
    advisory := fun e => if s.advisory e = some t then none else s.advisory e }

/-- Rows that `SKIP LOCKED` skips. -/
def System.isLocked (s : System) (busy : List JobId) (id : JobId) : Bool :=
  (s.rowLock id).isSome || decide (id ∈ busy)

/-- The second statement of a claim and the loop after it; without a row the
transaction is rolled back. -/
def System.selectRows (s : System) (t : TxId) (c : ClaimTx) (busy : List JobId) : System :=
  let locked := selectDue s.jobs c.limit c.exclude c.now (s.isLocked busy)
  if locked = [] then s.close t
  else
    { s.setPhase t c (.selected locked (keepFirst s.jobs [] locked)) with
      rowLock := fun id => if id ∈ locked then some t else s.rowLock id }

/-- The UPDATE of a claim with its COMMIT; every claimed job gets a run. -/
def System.commitClaim (s : System) (t : TxId) (c : ClaimTx) (claimed : List JobId) : System :=
  { s.close t with
    jobs := s.jobs.updateWhere (start claimed c.workerId c.now)
    runs := s.runs ++ claimed.map fun id => ⟨c.workerId, id, none⟩ }

def step (s : System) : Action → Option System
  | .tick d => some { s with clock := s.clock + d }
  | .reserve => some { s with jobs := s.jobs.reserve }
  | .enqueue id began jobType entryId flavorId maxAttempts runAt =>
    if h : id < s.jobs.nextId then
      if s.jobs.row id = none ∧ began ≤ s.clock then
        some { s with
          jobs := s.jobs.insert id h (enqueueAt jobType entryId flavorId maxAttempts runAt began) }
      else none
    else none
  | .execute st began =>
    if began ≤ s.clock ∧ (∀ id ∈ st.target, s.rowLock id = none) ∧
        (∀ r ∈ st.issuer, r ∈ s.runs) ∧ st.accepted s.jobs = true then
      some { s with
        jobs := s.jobs.updateWhere (st.update began)
        runs := st.issuer.elim s.runs s.runs.erase }
    else none
  | .beginClaim t workerId limit exclude =>
    if s.tx t = none then
      some (s.setPhase t ⟨workerId, limit, exclude, s.clock, .begun⟩ .begun)
    else none
  | .readEntries t =>
    match s.tx t with
    | some c =>
      if c.phase = .begun then some (s.setPhase t c (.locking (dueTranscodeEntries s.jobs c.now)))
      else none
    | none => none
  | .lockEntry t =>
    match s.tx t with
    | some c =>
      match c.phase with
      | .locking (e :: remaining) =>
        if s.advisory e = none ∨ s.advisory e = some t then
          some { s.setPhase t c (.locking remaining) with
            advisory := fun i => if i = e then some t else s.advisory i }
        else none
      | _ => none
    | none => none
  | .select t busy =>
    match s.tx t with
    | some c => if c.phase = .locking [] then some (s.selectRows t c busy) else none
    | none => none
  | .commit t ids =>
    match s.tx t with
    | some c =>
      match c.phase with
      | .selected _ claimed => if ids = claimed then some (s.commitClaim t c claimed) else none
      | _ => none
    | none => none
  | .rollback t => if s.tx t = none then none else some (s.close t)
  | .failRead w id =>
    match s.jobs.row id with
    | some j =>
      if (⟨w, id, none⟩ : ActiveRun) ∈ s.runs then
        some { s with
          runs := ⟨w, id, some (j.attempts, j.maxAttempts)⟩ :: s.runs.erase ⟨w, id, none⟩ }
      else none
    | none => none
  | .abandon run => if run ∈ s.runs then some { s with runs := s.runs.erase run } else none

/-- Transaction `t` has selected rows and claims these. -/
def Claims (s : System) (t : TxId) (claimed : List JobId) : Prop :=
  ∃ c locked, s.tx t = some c ∧ c.phase = .selected locked claimed

/-- No run is new, and the jobs of the runs stay distinct. -/
def RunsFrom (s s' : System) : Prop :=
  (∀ r ∈ s'.runs, ∃ r₀ ∈ s.runs, r₀.workerId = r.workerId ∧ r₀.jobId = r.jobId) ∧
  ((s.runs.map (·.jobId)).Nodup → (s'.runs.map (·.jobId)).Nodup)

/-- The actions that write committed rows. -/
def Action.writes : Action → Bool
  | .enqueue .. | .execute .. | .commit .. => true
  | _ => false

/-- The kinds of steps, with all that they change of rows, claims and locks. -/
inductive Effect (s s' : System) : Action → Prop where
  /-- No row, claim or row lock changes; advisory locks are only gained. -/
  | idle {a : Action} (quiet : a.writes = false) (row : s'.jobs.row = s.jobs.row) (rowLock : s'.rowLock = s.rowLock)
      (claims : ∀ t claimed, Claims s' t claimed → Claims s t claimed)
      (advisory : ∀ e t, s.advisory e = some t → s'.advisory e = some t)
      (runs : RunsFrom s s') : Effect s s' a
  | enqueued {id : JobId} {began : Int} {jobType : JobType} {entryId flavorId : Option Int}
      {maxAttempts : Int} {runAt : Option Int} (new : s.jobs.row id = none)
      (row : ∀ i, s'.jobs.row i = if i = id then
        some (enqueueAt jobType entryId flavorId maxAttempts runAt began) else s.jobs.row i)
      (rowLock : s'.rowLock = s.rowLock) (tx : s'.tx = s.tx) (advisory : s'.advisory = s.advisory)
      (runs : s'.runs = s.runs) :
      Effect s s' (.enqueue id began jobType entryId flavorId maxAttempts runAt)
  | executed {st : Statement} {began : Int} (row : s'.jobs = s.jobs.updateWhere (st.update began))
      (free : ∀ id ∈ st.target, s.rowLock id = none) (issued : ∀ r ∈ st.issuer, r ∈ s.runs)
      (accepted : st.accepted s.jobs = true)
      (rowLock : s'.rowLock = s.rowLock) (tx : s'.tx = s.tx) (advisory : s'.advisory = s.advisory)
      (runs : s'.runs = st.issuer.elim s.runs s.runs.erase) : Effect s s' (.execute st began)
  | selected {t : TxId} {busy : List JobId} {c : ClaimTx} (tx : s.tx t = some c)
      (phase : c.phase = .locking [])
      (after : s' = { s.setPhase t c (.selected
          (selectDue s.jobs c.limit c.exclude c.now (s.isLocked busy))
          (keepFirst s.jobs [] (selectDue s.jobs c.limit c.exclude c.now (s.isLocked busy)))) with
        rowLock := fun id => if id ∈ selectDue s.jobs c.limit c.exclude c.now (s.isLocked busy)
          then some t else s.rowLock id }) : Effect s s' (.select t busy)
  | committed {t : TxId} {c : ClaimTx} {locked claimed : List JobId} (tx : s.tx t = some c)
      (phase : c.phase = .selected locked claimed) (after : s' = s.commitClaim t c claimed) :
      Effect s s' (.commit t claimed)
  | closed {a : Action} {t : TxId} (quiet : a.writes = false) (after : s' = s.close t) : Effect s s' a

theorem RunsFrom.of_eq {s s' : System} (h : s'.runs = s.runs) : RunsFrom s s' := by
  rw [RunsFrom, h]
  exact ⟨fun r hr => ⟨r, hr, rfl, rfl⟩, id⟩

theorem RunsFrom.erase {s s' : System} {run : ActiveRun} (h : s'.runs = s.runs.erase run) :
    RunsFrom s s' := by
  rw [RunsFrom, h]
  exact ⟨fun r hr => ⟨r, List.mem_of_mem_erase hr, rfl, rfl⟩,
    fun hn => hn.sublist (List.erase_sublist.map _)⟩

/-- `Fail` remembers what it read in place of the run. -/
theorem RunsFrom.read {s s' : System} {w : WorkerId} {id : JobId} {seen : Option (Nat × Int)}
    (hr : (⟨w, id, none⟩ : ActiveRun) ∈ s.runs)
    (h : s'.runs = ⟨w, id, seen⟩ :: s.runs.erase ⟨w, id, none⟩) : RunsFrom s s' := by
  rw [RunsFrom, h]
  constructor
  · intro r hmem
    rcases List.mem_cons.mp hmem with rfl | hmem
    · exact ⟨_, hr, rfl, rfl⟩
    · exact ⟨r, List.mem_of_mem_erase hmem, rfl, rfl⟩
  · intro hn
    exact ((List.perm_cons_erase hr).map (·.jobId)).nodup_iff.mp hn

theorem claims_setPhase {s : System} {t : TxId} {c : ClaimTx} {phase : Phase}
    (hphase : ∀ locked claimed, phase ≠ .selected locked claimed) {i : TxId} {claimed : List JobId}
    (h : Claims (s.setPhase t c phase) i claimed) : Claims s i claimed := by
  obtain ⟨c', locked, htx, hsel⟩ := h
  simp only [System.setPhase] at htx
  split at htx
  · rw [← Option.some.inj htx] at hsel
    exact absurd hsel (hphase locked claimed)
  · exact ⟨c', locked, htx, hsel⟩

section Effects
variable {s s' : System}

theorem effect_enqueue {id : JobId} {began : Int} {jobType : JobType} {entryId flavorId : Option Int}
    {maxAttempts : Int} {runAt : Option Int}
    (h : step s (.enqueue id began jobType entryId flavorId maxAttempts runAt) = some s') :
    Effect s s' (.enqueue id began jobType entryId flavorId maxAttempts runAt) := by
  unfold step at h
  dsimp only at h
  split at h
  next hid =>
    split at h
    next hnew =>
      cases h
      exact .enqueued hnew.1 (fun i => rfl) rfl rfl rfl rfl
    · cases h
  · cases h

theorem effect_execute {st : Statement} {began : Int}
    (h : step s (.execute st began) = some s') : Effect s s' (.execute st began) := by
  unfold step at h
  dsimp only at h
  split at h
  next hok =>
    cases h
    exact .executed rfl hok.2.1 hok.2.2.1 hok.2.2.2 rfl rfl rfl rfl
  · cases h

theorem effect_beginClaim {t : TxId} {workerId : WorkerId} {limit : Nat} {exclude : List JobType}
    (h : step s (.beginClaim t workerId limit exclude) = some s') :
    Effect s s' (.beginClaim t workerId limit exclude) := by
  unfold step at h
  dsimp only at h
  split at h
  · cases h
    exact .idle rfl rfl rfl (fun _ _ hc => claims_setPhase (by simp) hc) (fun _ _ he => he)
      (.of_eq rfl)
  · cases h

theorem effect_readEntries {t : TxId}
    (h : step s (.readEntries t) = some s') : Effect s s' (.readEntries t) := by
  unfold step at h
  dsimp only at h
  split at h
  next c htx =>
    split at h
    · cases h
      exact .idle rfl rfl rfl (fun _ _ hc => claims_setPhase (by simp) hc) (fun _ _ he => he)
        (.of_eq rfl)
    · cases h
  · cases h

theorem effect_lockEntry {t : TxId}
    (h : step s (.lockEntry t) = some s') : Effect s s' (.lockEntry t) := by
  unfold step at h
  dsimp only at h
  split at h
  next c htx =>
    split at h
    next e remaining hphase =>
      split at h
      next hfree =>
        cases h
        have hclaims : ∀ i claimed, Claims (s.setPhase t c (.locking remaining)) i claimed →
            Claims s i claimed := fun _ _ hc => claims_setPhase (by simp) hc
        refine .idle rfl rfl rfl hclaims ?_ (.of_eq rfl)
        intro i t' hi
        by_cases hie : i = e
        · subst hie
          rcases hfree with hfree | hfree
          · rw [hi] at hfree; cases hfree
          · rw [hi] at hfree; simp [hfree]
        · simp [hie, hi]
      · cases h
    · cases h
  · cases h

theorem effect_select {t : TxId} {busy : List JobId}
    (h : step s (.select t busy) = some s') : Effect s s' (.select t busy) := by
  unfold step at h
  dsimp only at h
  split at h
  next c htx =>
    split at h
    next hphase =>
      cases h
      dsimp only [System.selectRows]
      split
      · exact .closed rfl rfl
      · exact .selected htx hphase rfl
    · cases h
  · cases h

theorem effect_commit {t : TxId} {ids : List JobId}
    (h : step s (.commit t ids) = some s') : Effect s s' (.commit t ids) := by
  unfold step at h
  dsimp only at h
  split at h
  next c htx =>
    split at h
    next locked claimed hphase =>
      split at h
      next hids =>
        cases h
        subst hids
        exact .committed htx hphase rfl
      · cases h
    · cases h
  · cases h

theorem effect_rollback {t : TxId}
    (h : step s (.rollback t) = some s') : Effect s s' (.rollback t) := by
  unfold step at h
  dsimp only at h
  split at h
  · cases h
  · cases h
    exact .closed rfl rfl

theorem effect_failRead {w : WorkerId} {id : JobId}
    (h : step s (.failRead w id) = some s') : Effect s s' (.failRead w id) := by
  unfold step at h
  dsimp only at h
  split at h
  next j hrow =>
    split at h
    next hr =>
      cases h
      exact .idle rfl rfl rfl (fun _ _ hc => hc) (fun _ _ he => he) (.read hr rfl)
    · cases h
  · cases h

theorem effect_abandon {run : ActiveRun}
    (h : step s (.abandon run) = some s') : Effect s s' (.abandon run) := by
  unfold step at h
  dsimp only at h
  split at h
  · cases h
    exact .idle rfl rfl rfl (fun _ _ hc => hc) (fun _ _ he => he) (.erase rfl)
  · cases h

end Effects

theorem step_effect {s s' : System} {a : Action} (h : step s a = some s') : Effect s s' a := by
  cases a with
  | tick d =>
    cases h
    exact .idle rfl rfl rfl (fun _ _ hc => hc) (fun _ _ he => he) (.of_eq rfl)
  | reserve =>
    cases h
    exact .idle rfl rfl rfl (fun _ _ hc => hc) (fun _ _ he => he) (.of_eq rfl)
  | enqueue id began jobType entryId flavorId maxAttempts runAt => exact effect_enqueue h
  | execute st began => exact effect_execute h
  | beginClaim t workerId limit exclude => exact effect_beginClaim h
  | readEntries t => exact effect_readEntries h
  | lockEntry t => exact effect_lockEntry h
  | select t busy => exact effect_select h
  | commit t ids => exact effect_commit h
  | rollback t => exact effect_rollback h
  | failRead w id => exact effect_failRead h
  | abandon run => exact effect_abandon h

/-- Where a row after a step comes from. -/
inductive RowStep (s : System) (id : JobId) (j' : Job) : Action → Prop where
  | kept {a : Action} (row : s.jobs.row id = some j') : RowStep s id j' a
  | enqueued {began : Int} {jobType : JobType} {entryId flavorId : Option Int} {maxAttempts : Int}
      {runAt : Option Int} (new : s.jobs.row id = none)
      (set : j' = enqueueAt jobType entryId flavorId maxAttempts runAt began) :
      RowStep s id j' (.enqueue id began jobType entryId flavorId maxAttempts runAt)
  | written {st : Statement} {began : Int} {j : Job} (row : s.jobs.row id = some j)
      (applies : (st.update began).applies id j = true) (set : j' = (st.update began).set j) :
      RowStep s id j' (.execute st began)
  | started {t : TxId} {c : ClaimTx} {locked claimed : List JobId} {j : Job} (tx : s.tx t = some c)
      (phase : c.phase = .selected locked claimed) (row : s.jobs.row id = some j)
      (mem : id ∈ claimed) (set : j' = (start claimed c.workerId c.now).set j) :
      RowStep s id j' (.commit t claimed)

theorem row_step {s s' : System} {a : Action} (he : Effect s s' a) {id : JobId} {j' : Job}
    (hrow : s'.jobs.row id = some j') : RowStep s id j' a := by
  cases he with
  | idle quiet row => exact .kept (row ▸ hrow)
  | enqueued new row =>
    rw [row] at hrow
    split at hrow
    next hid =>
      subst hid
      exact .enqueued new (Option.some.inj hrow).symm
    · exact .kept hrow
  | @executed st began row =>
    rw [row, Jobs.row_updateWhere] at hrow
    obtain ⟨j, hj, hset⟩ := hrow
    split at hset
    next happ => exact .written hj happ hset.symm
    · exact .kept (hset ▸ hj)
  | selected tx phase after =>
    subst after
    exact .kept hrow
  | @committed t c locked claimed tx phase after =>
    subst after
    obtain ⟨j, hj, hset⟩ := Jobs.row_updateWhere.mp hrow
    split at hset
    next happ => exact .started tx phase hj (of_decide_eq_true happ) hset.symm
    · exact .kept (hset ▸ hj)
  | closed quiet after =>
    subst after
    exact .kept hrow

/-- The writes of runs are those of active runs. -/
theorem Effect.issued {s s' : System} {st : Statement} {began : Int}
    (he : Effect s s' (.execute st began)) : ∀ r ∈ st.issuer, r ∈ s.runs := by
  cases he with
  | executed row free issued => exact issued
  | idle quiet => cases quiet
  | closed quiet => cases quiet

/-- A commit is that of an open claim. -/
theorem Effect.claims {s s' : System} {t : TxId} {claimed : List JobId}
    (he : Effect s s' (.commit t claimed)) : Claims s t claimed := by
  cases he with
  | committed tx phase => exact ⟨_, _, tx, phase⟩
  | idle quiet => cases quiet
  | closed quiet => cases quiet

theorem Statement.applies {st : Statement} {now : Int} {id : JobId} {j : Job}
    (h : (st.update now).applies id j = true) :
    st.target = some id ∨ (st.target = none ∧ j.status = .running) := by
  cases st with
  | heartbeat w =>
    simp only [Statement.update, Table.heartbeat, decide_eq_true_eq] at h
    exact Or.inr ⟨rfl, h.2⟩
  | requeueStale staleAfter =>
    simp only [Statement.update, Table.requeueStale, isStale, Bool.and_eq_true,
      decide_eq_true_eq] at h
    exact Or.inr ⟨rfl, h.1⟩
  | pause i =>
    simp only [Statement.update, Table.pause, decide_eq_true_eq] at h
    exact Or.inl (congrArg some h.1.symm)
  | retry i =>
    simp only [Statement.update, Table.retry, Bool.and_eq_true, decide_eq_true_eq] at h
    exact Or.inl (congrArg some h.1.symm)
  | failWrite w i errMsg attempts maxAttempts =>
    refine Or.inl (congrArg some (Eq.symm ?_))
    simp only [Statement.update, Table.failWrite] at h
    split at h <;> simpa [deadLetter, requeue] using h
  | resume i => exact Or.inl (congrArg some (of_decide_eq_true h).symm)
  | requestCancel i => exact Or.inl (congrArg some (of_decide_eq_true h).symm)
  | done w i => exact Or.inl (congrArg some (of_decide_eq_true h).symm)
  | cancel w i reason => exact Or.inl (congrArg some (of_decide_eq_true h).symm)

/-- No statement but the UPDATE of a claim makes a row `running`. -/
theorem Statement.calm (st : Statement) (now : Int) (j : Job) :
    ((st.update now).set j).type = j.type ∧ ((st.update now).set j).entryId = j.entryId ∧
      (((st.update now).set j).status = .running → j.status = .running) := by
  cases st with
  | heartbeat w => exact ⟨rfl, rfl, id⟩
  | pause i => exact ⟨rfl, rfl, id⟩
  | resume i => exact ⟨rfl, rfl, id⟩
  | requestCancel i =>
    simp only [Statement.update, Table.requestCancel]
    split
    · exact ⟨rfl, rfl, by simp⟩
    · exact ⟨rfl, rfl, id⟩
  | requeueStale staleAfter => exact ⟨rfl, rfl, by simp [Statement.update, Table.requeueStale]⟩
  | retry i => exact ⟨rfl, rfl, by simp [Statement.update, Table.retry]⟩
  | done w i => exact ⟨rfl, rfl, by simp [Statement.update, Table.done]⟩
  | cancel w i reason => exact ⟨rfl, rfl, by simp [Statement.update, Table.cancel]⟩
  | failWrite w i errMsg attempts maxAttempts =>
    simp only [Statement.update, Table.failWrite]
    split
    · exact ⟨rfl, rfl, by simp [deadLetter]⟩
    · exact ⟨rfl, rfl, by simp [requeue]⟩

end Vidsilo.Queue.Machine
