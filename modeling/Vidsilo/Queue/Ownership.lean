import Vidsilo.Queue.OpenClaims

/-!
# A finishing write hits the row of its own run

Source: internal/queue/queue.go:219-333, cmd/vidsilo/worker.go:203-251. `Done`, `Fail`
and `Cancel` name the row by its id alone. That they write only a row which is still
`running` under the worker of the run follows when `RequeueStale` takes no row whose
run has not returned: it is the one statement that takes a running row away from a
worker (`Owned`).
-/
namespace Vidsilo.Queue.Ownership
open Table Claim Machine OpenClaims Library.Transition

/-- `RequeueStale` takes only rows whose run has ended. -/
def staleRunsEnded (s : System) : Action → Bool
  | .execute (.requeueStale staleAfter) began => ! s.jobs.exists fun id j =>
      isStale staleAfter began j && s.runs.any fun r => decide (r.jobId = id)
  | _ => true

/-- Every run has a row of its own, running under its worker. -/
structure Owned (s : System) : Prop where
  distinct : (s.runs.map (·.jobId)).Nodup
  row : ∀ r ∈ s.runs, ∃ j, s.jobs.row r.jobId = some j ∧ j.status = .running ∧
    j.workerId = some r.workerId

def terminal (j : Job) : Prop := j.status = .done ∨ j.status = .failed ∨ j.status = .cancelled

/-- A finishing write of a run reaches a row that is running under the run's worker. -/
def WritesOwnRow (s : System) (a : Action) : Prop :=
  ∀ st began, a = .execute st began → ∀ r ∈ st.issuer, ∀ id j, s.jobs.row id = some j →
    (st.update began).applies id j = true → j.status = .running ∧ j.workerId = some r.workerId

/-- A finished job changes its status through a retry only. -/
def FinishedUntilRetry (s s' : System) (a : Action) : Prop :=
  ∀ id j j', s.jobs.row id = some j → terminal j → s'.jobs.row id = some j' →
    j'.status ≠ j.status → ∃ began, a = .execute (.retry id) began

theorem owned_initial (clock : Int) : Owned (initial clock) where
  distinct := by simp [initial]
  row r hr := by simp [initial] at hr

/-- A statement that no run issues leaves a running row to its worker, unless it
takes the row as stale. -/
theorem running_kept {st : Statement} {began : Int} {id : JobId} {j : Job}
    (hissuer : st.issuer = none) (happ : (st.update began).applies id j = true)
    (hrun : j.status = .running)
    (hfresh : ∀ staleAfter, st = .requeueStale staleAfter → isStale staleAfter began j = false) :
    ((st.update began).set j).status = .running ∧
      ((st.update began).set j).workerId = j.workerId := by
  cases st with
  | heartbeat w => exact ⟨hrun, rfl⟩
  | pause i => exact ⟨hrun, rfl⟩
  | resume i => exact ⟨hrun, rfl⟩
  | requestCancel i =>
    have hne : ¬ j.status = .queued := by simp [hrun]
    simp only [Statement.update, Table.requestCancel, if_neg hne]
    exact ⟨hrun, trivial⟩
  | requeueStale staleAfter =>
    simp only [Statement.update, Table.requeueStale, hfresh staleAfter rfl] at happ
    cases happ
  | retry i =>
    simp [Statement.update, Table.retry, retryable, hrun] at happ
  | done w i => cases hissuer
  | cancel w i reason => cases hissuer
  | failWrite w i errMsg attempts maxAttempts => cases hissuer

/-- A statement that no run issues changes the status of a finished row by a retry only. -/
theorem finished_kept {st : Statement} {began : Int} {id : JobId} {j : Job}
    (hissuer : st.issuer = none) (happ : (st.update began).applies id j = true)
    (hterm : terminal j) (hne : ((st.update began).set j).status ≠ j.status) : st = .retry id := by
  have hnotrun : j.status ≠ .running := by rcases hterm with h | h | h <;> simp [h]
  have hnotqueued : j.status ≠ .queued := by rcases hterm with h | h | h <;> simp [h]
  cases st with
  | heartbeat w => exact absurd rfl hne
  | pause i => exact absurd rfl hne
  | resume i => exact absurd rfl hne
  | requestCancel i =>
    simp only [Statement.update, Table.requestCancel, if_neg hnotqueued] at hne
    exact absurd rfl hne
  | requeueStale staleAfter =>
    simp only [Statement.update, Table.requeueStale, isStale, Bool.and_eq_true,
      decide_eq_true_eq] at happ
    exact absurd happ.1 hnotrun
  | retry i =>
    simp only [Statement.update, Table.retry, Bool.and_eq_true, decide_eq_true_eq] at happ
    rw [happ.1]
  | done w i => cases hissuer
  | cancel w i reason => cases hissuer
  | failWrite w i errMsg attempts maxAttempts => cases hissuer

/-- The statements of a run name its row. -/
theorem Statement.target_of_issuer {st : Statement} {r : ActiveRun} (h : r ∈ st.issuer) :
    st.target = some r.jobId := by
  cases st <;> simp_all [Statement.issuer, Statement.target] <;> rw [← h]

theorem applies_of_issuer {st : Statement} {r : ActiveRun} (h : r ∈ st.issuer) {began : Int}
    {id : JobId} {j : Job} (happ : (st.update began).applies id j = true) : id = r.jobId := by
  have htarget := Statement.target_of_issuer h
  rcases Statement.applies happ with hid | ⟨hnone, _⟩
  · exact Option.some.inj (hid.symm.trans htarget)
  · rw [htarget] at hnone
    cases hnone

theorem Owned.executed {s s' : System} {st : Statement} {began : Int} (h : Owned s)
    (hcond : staleRunsEnded s (.execute st began) = true)
    (row : s'.jobs = s.jobs.updateWhere (st.update began))
    (issued : ∀ r ∈ st.issuer, r ∈ s.runs)
    (runs : s'.runs = st.issuer.elim s.runs s.runs.erase) : Owned s' := by
  cases hissuer : st.issuer with
  | none =>
    rw [hissuer, Option.elim_none] at runs
    refine ⟨by rw [runs]; exact h.distinct, fun r hr => ?_⟩
    rw [runs] at hr
    obtain ⟨j, hrow, hrun, hworker⟩ := h.row r hr
    have hfresh : ∀ staleAfter, st = .requeueStale staleAfter → isStale staleAfter began j = false := by
      rintro staleAfter rfl
      by_contra hstale
      simp only [staleRunsEnded, Bool.not_eq_true', ← Bool.not_eq_true, Jobs.exists_iff] at hcond
      refine hcond ⟨r.jobId, j, hrow, ?_⟩
      simp only [Bool.and_eq_true, List.any_eq_true, decide_eq_true_eq]
      exact ⟨by simpa using hstale, r, hr, rfl⟩
    rw [row]
    cases happ : (st.update began).applies r.jobId j with
    | false => exact ⟨j, Jobs.row_updateWhere.mpr ⟨j, hrow, by simp [happ]⟩, hrun, hworker⟩
    | true =>
      obtain ⟨hrun', hworker'⟩ := running_kept hissuer happ hrun hfresh
      exact ⟨_, Jobs.row_updateWhere.mpr ⟨j, hrow, by rw [if_pos happ]⟩, hrun',
        hworker'.trans hworker⟩
  | some r₀ =>
    rw [hissuer, Option.elim_some] at runs
    have hr₀ : r₀ ∈ s.runs := issued r₀ hissuer
    refine ⟨by rw [runs]; exact h.distinct.sublist (List.erase_sublist.map _), fun r hr => ?_⟩
    rw [runs, h.distinct.of_map.mem_erase_iff] at hr
    obtain ⟨j, hrow, hrun, hworker⟩ := h.row r hr.2
    -- the write names the row of `r₀`, and no other run has that row
    have happ : (st.update began).applies r.jobId j = false := by
      by_contra happ
      have hid := applies_of_issuer (r := r₀) hissuer (by simpa using happ)
      exact hr.1 (List.inj_on_of_nodup_map h.distinct hr.2 hr₀ hid)
    rw [row]
    exact ⟨j, Jobs.row_updateWhere.mpr ⟨j, hrow, by simp [happ]⟩, hrun, hworker⟩

theorem Owned.committed {s : System} {t : TxId} {c : ClaimTx} {locked claimed : List JobId}
    (hc : Coherent s) (hd : DistinctClaims s) (h : Owned s) (tx : s.tx t = some c)
    (phase : c.phase = .selected locked claimed) : Owned (s.commitClaim t c claimed) := by
  have hclaims : Claims s t claimed := ⟨c, locked, tx, phase⟩
  have hapart : ∀ r ∈ s.runs, r.jobId ∉ claimed := by
    intro r hr hid
    obtain ⟨j, hrow, hrun, _⟩ := h.row r hr
    rw [hc.queued hclaims hid hrow] at hrun
    cases hrun
  constructor
  · have hids : (s.commitClaim t c claimed).runs.map (·.jobId) = s.runs.map (·.jobId) ++ claimed := by
      simp [System.commitClaim, Function.comp_def]
    rw [hids, List.nodup_append]
    refine ⟨h.distinct, hd t claimed hclaims, ?_⟩
    rintro id hid id' hid' rfl
    obtain ⟨r, hr, rfl⟩ := List.mem_map.mp hid
    exact hapart r hr hid'
  · intro r hr
    rcases List.mem_append.mp hr with hr | hr
    · obtain ⟨j, hrow, hrun, hworker⟩ := h.row r hr
      exact ⟨j, Jobs.row_updateWhere.mpr ⟨j, hrow, by simp [start, hapart r hr]⟩, hrun, hworker⟩
    · obtain ⟨id, hid, rfl⟩ := List.mem_map.mp hr
      obtain ⟨_, j, hrow, _⟩ := hc t claimed hclaims id hid
      exact ⟨_, Jobs.row_updateWhere.mpr ⟨j, hrow, rfl⟩, by simp [start, hid], by simp [start, hid]⟩

theorem Owned.step {s s' : System} {a : Action} (hc : Coherent s) (hd : DistinctClaims s)
    (h : Owned s) (hcond : staleRunsEnded s a = true) (he : Effect s s' a) : Owned s' := by
  cases he with
  | idle quiet row rowLock claims advisory runs =>
    refine ⟨runs.2 h.distinct, fun r hr => ?_⟩
    obtain ⟨r₀, hr₀, hworker, hjob⟩ := runs.1 r hr
    rw [row, ← hworker, ← hjob]
    exact h.row r₀ hr₀
  | enqueued new row rowLock tx advisory runs =>
    refine ⟨by rw [runs]; exact h.distinct, fun r hr => ?_⟩
    rw [runs] at hr
    obtain ⟨j, hrow, hown⟩ := h.row r hr
    refine ⟨j, ?_, hown⟩
    rw [row, if_neg (by rintro heq; rw [heq, new] at hrow; cases hrow)]
    exact hrow
  | executed row free issued accepted rowLock tx advisory runs =>
    exact h.executed hcond row issued runs
  | selected tx phase after => subst after; exact ⟨h.distinct, h.row⟩
  | committed tx phase after => subst after; exact h.committed hc hd tx phase
  | closed quiet after => subst after; exact ⟨h.distinct, h.row⟩

theorem owned_invariant {clock : Int} {trace : List Action} {s : System}
    (h : Run step (fun s a => staleRunsEnded s a = true) (initial clock) trace s) :
    Coherent s ∧ DistinctClaims s ∧ Owned s := by
  refine h.invariant (fun s => Coherent s ∧ DistinctClaims s ∧ Owned s)
    ⟨coherent_initial clock, ?_, owned_initial clock⟩ ?_
  · exact fun t claimed hclaims => absurd hclaims (not_claims_initial clock t claimed)
  · rintro s a s' ⟨hc, hd, ho⟩ hcond hstep
    have he := step_effect hstep
    exact ⟨hc.step he, hd.step hc he, ho.step hc hd hcond he⟩

theorem Owned.writesOwnRow {s s' : System} {a : Action} (h : Owned s)
    (hstep : Machine.step s a = some s') : WritesOwnRow s a := by
  rintro st began rfl r hr id j hrow happ
  obtain ⟨j', hrow', hrun, hworker⟩ := h.row r ((step_effect hstep).issued r hr)
  rw [applies_of_issuer hr happ, hrow', Option.some.injEq] at hrow
  subst hrow
  exact ⟨hrun, hworker⟩

theorem Owned.finishedUntilRetry {s s' : System} {a : Action} (hc : Coherent s) (h : Owned s)
    (he : Effect s s' a) : FinishedUntilRetry s s' a := by
  intro id j j' hrow hterm hrow' hne
  cases row_step he hrow' with
  | kept row =>
    rw [hrow, Option.some.injEq] at row
    exact absurd (congrArg Job.status row.symm) hne
  | enqueued new =>
    rw [new] at hrow
    cases hrow
  | @written st began j₀ row applies set =>
    rw [hrow, Option.some.injEq] at row
    subst row set
    cases hissuer : st.issuer with
    | none => exact ⟨began, by rw [finished_kept hissuer applies hterm hne]⟩
    | some r =>
      -- the row of an active run is running, so it is not a finished one
      obtain ⟨j', hj', hrun, _⟩ := h.row r (he.issued r hissuer)
      rw [← applies_of_issuer (r := r) hissuer applies, hrow, Option.some.injEq] at hj'
      subst hj'
      rcases hterm with hs | hs | hs <;> rw [hs] at hrun <;> cases hrun
  | started tx phase row mem =>
    have hqueued := hc.queued he.claims mem hrow
    rcases hterm with hs | hs | hs <;> rw [hs] at hqueued <;> cases hqueued

/-- When `RequeueStale` takes only rows whose run has ended, every finishing write hits
the row of its own run and finished jobs stay finished until they are retried. -/
theorem finishing_writes_own {clock : Int} {trace : List Action} {s : System}
    (h : Run Machine.step (fun s a => staleRunsEnded s a = true) (initial clock) trace s)
    {a : Action} {s' : System} (hstep : Machine.step s a = some s') :
    WritesOwnRow s a ∧ FinishedUntilRetry s s' a := by
  obtain ⟨hc, _, ho⟩ := owned_invariant h
  exact ⟨ho.writesOwnRow hstep, ho.finishedUntilRetry hc (step_effect hstep)⟩

/-- Worker 7 claims a job and its process dies; the job is reclaimed and worker 8, which
claims it, finishes it. -/
def reclaimed : List Action :=
  [.reserve, .enqueue 0 0 .probe (some 1) none 3 none, .beginClaim 0 7 2 [], .readEntries 0,
    .select 0 [], .commit 0 [0]]

def reclaimedBy8 : List Action :=
  [.tick 181000000000, .execute (.requeueStale (3 * minute)) 181000000000, .tick 5000000000,
    .beginClaim 1 8 2 [], .readEntries 1, .select 1 [], .commit 1 [0]]

theorem finishing_writes_own_after_crash : ∃ s s', WritesOwnRow s (.execute (.done 8 0) 0) ∧
    FinishedUntilRetry s s' (.execute (.done 8 0) 0) ∧
    ((s'.jobs.row 0).any fun j => j.status = .done) = true := by
  have hrun : ∃ s, Run Machine.step (fun s a => staleRunsEnded s a = true) (initial 0)
      (reclaimed ++ [.abandon ⟨7, 0, none⟩] ++ reclaimedBy8) s ∧
      ((Machine.step s (.execute (.done 8 0) 0)).any fun s' =>
        (s'.jobs.row 0).any fun j => j.status = .done) = true :=
    exists_run (fun _ _ h => h) (by decide +kernel)
  obtain ⟨s, hs, hp⟩ := hrun
  obtain ⟨s', hstep, hp⟩ := (Option.any_eq_true _ _).mp hp
  obtain ⟨hown, hfinished⟩ := finishing_writes_own hs hstep
  exact ⟨s, s', hown, hfinished, hp⟩

/-- Worker 7 is alive and still runs the job when it is reclaimed; its `Done` ends the
run of worker 8. -/
theorem done_of_reclaimed_run : ∃ trace s a s', Run Machine.step Always (initial 0) trace s ∧
    Machine.step s a = some s' ∧ ¬ WritesOwnRow s a := by
  have hrun : ∃ s, Run Machine.step Always (initial 0) (reclaimed ++ reclaimedBy8) s ∧
      ((Machine.step s (.execute (.done 7 0) 0)).any fun _ =>
        (s.jobs.row 0).any fun j => j.workerId = some 8) = true :=
    exists_always (by decide +kernel)
  obtain ⟨s, hs, hp⟩ := hrun
  obtain ⟨s', hstep, hp⟩ := (Option.any_eq_true _ _).mp hp
  obtain ⟨j, hrow, hworker⟩ := (Option.any_eq_true _ _).mp hp
  refine ⟨_, s, _, s', hs, hstep, fun h => ?_⟩
  obtain ⟨_, hown⟩ := h _ _ rfl ⟨7, 0, none⟩ rfl 0 j hrow rfl
  rw [of_decide_eq_true hworker] at hown
  exact absurd hown (by decide)

end Vidsilo.Queue.Ownership
