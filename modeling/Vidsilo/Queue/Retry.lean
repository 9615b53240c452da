import Vidsilo.Queue.Attempts

/-!
# A retried job beside a fresh one

Source: internal/api/activity.go:118-139 (`handleJobRetry`), internal/queue/queue.go:115-119,
213-262 and cmd/vidsilo/worker.go:213-234. A retry resets a failed or cancelled row, but not
its two request columns: `Pause` sets one on a queued row that a later `RequestCancel` may
cancel, and `RequestCancel` sets the other on a row in any other status. The rest of the
row is as `EnqueueAt` leaves it, since a row that is not running has no worker (`Tidy`).
-/
namespace Vidsilo.Queue.Retry
open Table Claim Machine Attempts Library.Transition

/-- `CancelRequested`, which the abort watcher of `runJob` polls. -/
def cancelRequested (jobs : Jobs) (id : JobId) : Option Bool :=
  (jobs.row id).map (·.cancelRequestedAt.isSome)

/-- The part of the WHERE clause of a claim that is about its worker and the other rows. -/
def inTurn (jobs : Jobs) (exclude : List JobType) (id : JobId) (j : Job) : Bool :=
  decide (j.type ∉ exclude) &&
  ((decide (j.type ∉ serialized) ||
    (!jobs.exists fun _ j2 => j2.type = j.type && j2.status = .running) &&
    !jobs.exists fun id2 j2 => j2.type = j.type && j2.status = .queued && decide (id2 < id)) &&
  (decide (j.type ≠ .transcode) ||
    !jobs.exists fun _ j2 => j2.type = .transcode && j2.status = .running &&
      j.entryId.isSome && j2.entryId = j.entryId))

theorem claimable_eq (jobs : Jobs) (exclude : List JobType) (now : Int) (id : JobId) (j : Job) :
    claimable jobs exclude now id j =
      (j.status = .queued && decide (j.runAt ≤ now) && j.pauseRequestedAt.isNone &&
        inTurn jobs exclude id j) := by
  simp only [claimable, inTurn, Bool.and_assoc]

/-- After a retry of `j`: the row is one that `EnqueueAt` inserts, so a claim has only to wait
for its turn and the next run of the job is not told to abort. -/
structure Restored (jobs : Jobs) (id : JobId) (j : Job) (began : Int) : Prop where
  fresh : jobs.row id = some (enqueueAt j.type j.entryId j.flavorId j.maxAttempts none began)
  claimed : ∀ j' exclude now, jobs.row id = some j' → began ≤ now →
    claimable jobs exclude now id j' = inTurn jobs exclude id j'
  unaborted : cancelRequested jobs id = some false

theorem Restored.of_fresh {jobs : Jobs} {id : JobId} {j : Job} {began : Int}
    (h : jobs.row id = some (enqueueAt j.type j.entryId j.flavorId j.maxAttempts none began)) :
    Restored jobs id j began where
  fresh := h
  claimed j' exclude now hj' hnow := by
    rw [h, Option.some.injEq] at hj'
    subst hj'
    simp [claimable_eq, enqueueAt, hnow]
  unaborted := by
    rw [cancelRequested, h]
    rfl

/-- A row that a retry has left paused is never claimed before a `Resume`. -/
theorem claimable_paused {j : Job} (h : j.pauseRequestedAt ≠ none) (jobs : Jobs)
    (exclude : List JobType) (now : Int) (id : JobId) :
    claimable jobs exclude now id j = false := by
  obtain ⟨requested, hpause⟩ := Option.ne_none_iff_exists'.mp h
  simp [claimable_eq, hpause]

/-- The bound of a row is positive, and only a running row has a worker. -/
structure Tidy (j : Job) : Prop where
  positive : 1 ≤ j.maxAttempts
  unowned : j.status ≠ .running → j.workerId = none ∧ j.heartbeatAt = none

theorem tidy_enqueueAt (jobType : JobType) (entryId flavorId : Option Int) (maxAttempts : Int)
    (runAt : Option Int) (now : Int) :
    Tidy (enqueueAt jobType entryId flavorId maxAttempts runAt now) where
  positive := by
    simp only [enqueueAt]
    split <;> omega
  unowned _ := by simp [enqueueAt]

theorem Tidy.start {j : Job} (h : Tidy j) (ids : List JobId) (workerId : WorkerId) (now : Int) :
    Tidy ((start ids workerId now).set j) where
  positive := h.positive
  unowned hne := absurd rfl hne

/-- A row that is not running after a statement has lost its worker, by the statement or before. -/
theorem Tidy.unowned_set {st : Statement} {began : Int} {id : JobId} {j : Job} (h : Tidy j)
    (happ : (st.update began).applies id j = true)
    (hne : ((st.update began).set j).status ≠ .running) :
    ((st.update began).set j).workerId = none ∧ ((st.update began).set j).heartbeatAt = none := by
  cases st with
  | heartbeat w =>
    simp only [Statement.update, Table.heartbeat, decide_eq_true_eq] at happ
    exact absurd happ.2 hne
  | pause i => exact h.unowned hne
  | resume i => exact h.unowned hne
  | requestCancel i =>
    simp only [Statement.update, Table.requestCancel] at hne ⊢
    split
    · exact ⟨rfl, rfl⟩
    next hqueued =>
      rw [if_neg hqueued] at hne
      exact h.unowned hne
  | requeueStale staleAfter => exact ⟨rfl, rfl⟩
  | retry i =>
    simp only [Statement.update, Table.retry, retryable, Bool.and_eq_true, Bool.or_eq_true,
      decide_eq_true_eq] at happ
    have hrun : j.status ≠ .running := by
      rcases happ.2 with hs | hs <;> simp [hs]
    exact h.unowned hrun
  | done w i => exact ⟨rfl, rfl⟩
  | cancel w i reason => exact ⟨rfl, rfl⟩
  | failWrite w i errMsg attempts maxAttempts =>
    simp only [Statement.update, Table.failWrite]
    split <;> exact ⟨rfl, rfl⟩

theorem Tidy.set {st : Statement} {began : Int} {id : JobId} {j : Job} (h : Tidy j)
    (happ : (st.update began).applies id j = true) : Tidy ((st.update began).set j) where
  positive := by
    rw [(attempts_set st began j).1]
    exact h.positive
  unowned := h.unowned_set happ

/-- Every row of the table is tidy. -/
def AllTidy (s : System) : Prop := ∀ id j, s.jobs.row id = some j → Tidy j

theorem AllTidy.step {s s' : System} {a : Action} (h : AllTidy s) (he : Effect s s' a) :
    AllTidy s' := by
  intro id j' hrow
  cases row_step he hrow with
  | kept row => exact h id j' row
  | enqueued new set =>
    subst set
    exact tidy_enqueueAt _ _ _ _ _ _
  | written row applies set =>
    subst set
    exact (h id _ row).set applies
  | started tx phase row mem set =>
    subst set
    exact (h id _ row).start _ _ _

theorem allTidy {clock : Int} {trace : List Action} {s : System}
    (h : Run Machine.step Always (initial clock) trace s) : AllTidy s := by
  refine h.invariant AllTidy ?_ fun s a s' ht _ taken => ht.step (step_effect taken)
  intro id j hrow
  simp [initial, Jobs.empty] at hrow

theorem row_retry {s s' : System} {id : JobId} {j : Job} {began : Int}
    (hrow : s.jobs.row id = some j)
    (taken : Machine.step s (.execute (.retry id) began) = some s') :
    retryable j = true ∧ s'.jobs.row id = some ((Table.retry id began).set j) := by
  cases step_effect taken with
  | idle quiet => cases quiet
  | closed quiet => cases quiet
  | executed row free issued accepted =>
    have hretryable : retryable j = true := by simpa [Statement.accepted, hrow] using accepted
    refine ⟨hretryable, ?_⟩
    rw [row]
    refine Jobs.row_updateWhere.mpr ⟨j, hrow, if_pos ?_⟩
    simp [Statement.update, Table.retry, hretryable]

/-- The columns that a retry does not reset, of a row that it takes. -/
theorem retry_eq_enqueueAt {j : Job} (h : Tidy j) (id : JobId) (began : Int)
    (hretryable : retryable j = true) :
    (Table.retry id began).set j = enqueueAt j.type j.entryId j.flavorId j.maxAttempts none began ↔
      j.pauseRequestedAt = none ∧ j.cancelRequestedAt = none := by
  have hrun : j.status ≠ .running := by
    simp only [retryable, Bool.or_eq_true, decide_eq_true_eq] at hretryable
    rcases hretryable with hs | hs <;> simp [hs]
  obtain ⟨hworker, hheartbeat⟩ := h.unowned hrun
  have hmax : ¬ j.maxAttempts ≤ 0 := by
    have hpositive := h.positive
    omega
  simp [Table.retry, enqueueAt, hworker, hheartbeat, hmax]

/-- Whatever came before, a retry leaves a row like a fresh one exactly when neither a pause
nor a cancel request is left in it. -/
theorem restored_iff {clock : Int} {trace : List Action} {s s' : System} {id : JobId} {j : Job}
    {began : Int} (h : Run Machine.step Always (initial clock) trace s)
    (hrow : s.jobs.row id = some j)
    (taken : Machine.step s (.execute (.retry id) began) = some s') :
    Restored s'.jobs id j began ↔ j.pauseRequestedAt = none ∧ j.cancelRequestedAt = none := by
  obtain ⟨hretryable, hrow'⟩ := row_retry hrow taken
  rw [← retry_eq_enqueueAt (allTidy h id j hrow) id began hretryable]
  constructor
  · intro hr
    exact Option.some.inj (hrow'.symm.trans hr.fresh)
  · intro heq
    exact .of_fresh (hrow'.trans (congrArg some heq))

/-- A job that is paused, resumed, claimed and dead-lettered is retried into a fresh row. -/
theorem restored_dead_letter : ∃ s s' j, s.jobs.row 0 = some j ∧ retryable j = true ∧
    Machine.step s (.execute (.retry 0) 0) = some s' ∧ Restored s'.jobs 0 j 0 := by
  have hrun : ∃ s, Run Machine.step Always (initial 0)
      ([Action.reserve, .enqueue 0 0 .probe (some 1) none 1 none, .execute (.pause 0) 0,
        .execute (.resume 0) 0] ++ startJob 0 7 ++
        [Action.failRead 7 0, .execute (.failWrite 7 0 "boom" 1 1) 0]) s ∧
      ((s.jobs.row 0).any fun j => retryable j && j.pauseRequestedAt.isNone &&
        j.cancelRequestedAt.isNone) && (Machine.step s (.execute (.retry 0) 0)).isSome = true :=
    exists_always (by decide +kernel)
  obtain ⟨s, hs, hp⟩ := hrun
  obtain ⟨hp, hstep⟩ := Bool.and_eq_true_iff.mp hp
  obtain ⟨j, hrow, hp⟩ := (Option.any_eq_true _ _).mp hp
  obtain ⟨s', taken⟩ := Option.isSome_iff_exists.mp (of_decide_eq_true hstep)
  simp only [Bool.and_eq_true, Option.isNone_iff_eq_none] at hp
  exact ⟨s, s', j, hrow, hp.1.1, taken, (restored_iff hs hrow taken).mpr ⟨hp.1.2, hp.2⟩⟩

/-- A queued job is paused, cancelled, and cancelled once more. Its retry is accepted, but no
claim takes the job, and a run of it would be aborted. -/
theorem not_restored : ∃ trace s s' j, Run Machine.step Always (initial 0) trace s ∧
    s.jobs.row 0 = some j ∧ Machine.step s (.execute (.retry 0) 0) = some s' ∧
    ¬ Restored s'.jobs 0 j 0 ∧ cancelRequested s'.jobs 0 = some true ∧
    ∀ j' exclude now, s'.jobs.row 0 = some j' → claimable s'.jobs exclude now 0 j' = false := by
  have hrun : ∃ s, Run Machine.step Always (initial 0)
      [.reserve, .enqueue 0 0 .probe (some 1) none 1 none, .execute (.pause 0) 0,
        .execute (.requestCancel 0) 0, .execute (.requestCancel 0) 0] s ∧
      ((s.jobs.row 0).any fun j => j.pauseRequestedAt.isSome && j.cancelRequestedAt.isSome) &&
        (Machine.step s (.execute (.retry 0) 0)).isSome = true :=
    exists_always (by decide +kernel)
  obtain ⟨s, hs, hp⟩ := hrun
  obtain ⟨hp, hstep⟩ := Bool.and_eq_true_iff.mp hp
  obtain ⟨j, hrow, hp⟩ := (Option.any_eq_true _ _).mp hp
  obtain ⟨s', taken⟩ := Option.isSome_iff_exists.mp (of_decide_eq_true hstep)
  simp only [Bool.and_eq_true, Option.isSome_iff_ne_none] at hp
  obtain ⟨_, hrow'⟩ := row_retry hrow taken
  have hcancel : cancelRequested s'.jobs 0 = some true := by
    rw [cancelRequested, hrow']
    simpa [Table.retry, Option.isSome_iff_ne_none] using hp.2
  refine ⟨_, s, s', j, hs, hrow, taken, ?_, hcancel, ?_⟩
  · intro h
    rw [h.unaborted] at hcancel
    cases hcancel
  · intro j' exclude now hj'
    rw [hrow', Option.some.injEq] at hj'
    subst hj'
    have hpaused : ((Table.retry 0 0).set j).pauseRequestedAt ≠ none := hp.1
    exact claimable_paused hpaused s'.jobs exclude now 0

end Vidsilo.Queue.Retry
