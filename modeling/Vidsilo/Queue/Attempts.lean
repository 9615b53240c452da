import Vidsilo.Queue.OpenClaims

/-!
# The attempts of a job

Source: internal/queue/queue.go:178-191 (`Claim`), 284-333 (`Fail`, `RequeueStale`),
internal/api/activity.go:118-139. `Claim` raises the counter, `Fail` compares it with
`max_attempts`, and `RequeueStale` is a second way back to `queued` that does not. A
trace counts the starts of a job since its last retry; the column agrees with it.
-/
namespace Vidsilo.Queue.Attempts
open Table Claim Machine OpenClaims Library.Transition

/-- How often a trace starts a job after the last retry of it. -/
def startsSinceRetry (id : JobId) (trace : List Action) : Nat :=
  trace.foldl (fun n a => match a with
    | .commit _ ids => if id ∈ ids then n + 1 else n
    | .execute (.retry i) _ => if i = id then 0 else n
    | _ => n) 0

/-- Neither way back to `queued` is taken by a row whose attempts are used up:
`RequeueStale` takes none, and `Fail` requeues none whose attempts have been used up
since it read them. -/
def attemptsLeft (s : System) : Action → Bool
  | .execute (.requeueStale staleAfter) began => ! s.jobs.exists fun _ j =>
      isStale staleAfter began j && decide (j.maxAttempts ≤ (j.attempts : Int))
  | .execute (.failWrite _ id _ attempts maxAttempts) _ => decide (maxAttempts ≤ (attempts : Int)) ||
      (s.jobs.row id).all fun j => decide ((j.attempts : Int) < j.maxAttempts)
  | _ => true

/-- The counter is the number of starts, bounded, and a queued job has one left. -/
structure Counted (trace : List Action) (s : System) : Prop where
  absent : ∀ id, s.jobs.row id = none → startsSinceRetry id trace = 0
  positive : ∀ id j, s.jobs.row id = some j → 1 ≤ j.maxAttempts
  starts : ∀ id j, s.jobs.row id = some j → j.attempts = startsSinceRetry id trace
  bounded : ∀ id j, s.jobs.row id = some j → j.attempts ≤ j.maxAttempts
  queued : ∀ id j, s.jobs.row id = some j → j.status = .queued → j.attempts < j.maxAttempts

theorem startsSinceRetry_snoc (id : JobId) (trace : List Action) (a : Action) :
    startsSinceRetry id (trace ++ [a]) = match a with
      | .commit _ ids => if id ∈ ids then startsSinceRetry id trace + 1 else startsSinceRetry id trace
      | .execute (.retry i) _ => if i = id then 0 else startsSinceRetry id trace
      | _ => startsSinceRetry id trace := by
  simp only [startsSinceRetry, List.foldl_append, List.foldl_cons, List.foldl_nil]

/-- What a statement does to the counter: only a retry touches it. -/
theorem attempts_set (st : Statement) (began : Int) (j : Job) :
    ((st.update began).set j).maxAttempts = j.maxAttempts ∧
      ((st.update began).set j).attempts =
        match st with | .retry _ => 0 | _ => j.attempts := by
  cases st with
  | requestCancel i =>
    simp only [Statement.update, Table.requestCancel]
    split <;> exact ⟨rfl, rfl⟩
  | failWrite w i errMsg attempts maxAttempts =>
    simp only [Statement.update, Table.failWrite]
    split <;> exact ⟨rfl, rfl⟩
  | heartbeat w => exact ⟨rfl, rfl⟩
  | pause i => exact ⟨rfl, rfl⟩
  | resume i => exact ⟨rfl, rfl⟩
  | requeueStale staleAfter => exact ⟨rfl, rfl⟩
  | retry i => exact ⟨rfl, rfl⟩
  | done w i => exact ⟨rfl, rfl⟩
  | cancel w i reason => exact ⟨rfl, rfl⟩

/-- A row that a statement leaves `queued` has an attempt left. -/
theorem attempts_left {s : System} {st : Statement} {began : Int} {id : JobId} {j : Job}
    (hcond : attemptsLeft s (.execute st began) = true) (hrow : s.jobs.row id = some j)
    (hmax : 1 ≤ j.maxAttempts) (hbefore : j.status = .queued → j.attempts < j.maxAttempts)
    (happ : (st.update began).applies id j = true)
    (hqueued : ((st.update began).set j).status = .queued) :
    ((st.update began).set j).attempts < ((st.update began).set j).maxAttempts := by
  obtain ⟨hsame, hattempts⟩ := attempts_set st began j
  rw [hsame, hattempts]
  cases st with
  | heartbeat w => exact hbefore hqueued
  | pause i => exact hbefore hqueued
  | resume i => exact hbefore hqueued
  | requestCancel i =>
    simp only [Statement.update, Table.requestCancel] at hqueued
    split at hqueued
    · cases hqueued
    · exact hbefore hqueued
  | requeueStale staleAfter =>
    by_contra hge
    simp only [attemptsLeft, Bool.not_eq_true', ← Bool.not_eq_true, Jobs.exists_iff] at hcond
    refine hcond ⟨id, j, hrow, ?_⟩
    simp only [Bool.and_eq_true, decide_eq_true_eq]
    exact ⟨happ, not_lt.mp hge⟩
  | retry i => exact Int.lt_of_lt_of_le Int.zero_lt_one hmax
  | done w i => cases hqueued
  | cancel w i reason => cases hqueued
  | failWrite w i errMsg attempts maxAttempts =>
    have htarget : some i = some id := by
      rcases Statement.applies happ with h | ⟨h, _⟩
      · exact h
      · cases h
    cases htarget
    simp only [Statement.update, Table.failWrite] at hqueued
    split at hqueued
    · cases hqueued
    next hlt =>
      simp only [attemptsLeft, hrow, Option.all_some, Bool.or_eq_true, decide_eq_true_eq] at hcond
      exact hcond.resolve_left hlt

/-- What a step leaves of a row keeps its bounds. -/
theorem Counted.bounds {trace : List Action} {s s' : System} {a : Action} (hc : Coherent s)
    (h : Counted trace s) (hcond : attemptsLeft s a = true) (he : Effect s s' a) {id : JobId}
    {j' : Job} (hrow : s'.jobs.row id = some j') :
    1 ≤ j'.maxAttempts ∧ j'.attempts ≤ j'.maxAttempts ∧
      (j'.status = .queued → j'.attempts < j'.maxAttempts) := by
  cases row_step he hrow with
  | kept row => exact ⟨h.positive id j' row, h.bounded id j' row, h.queued id j' row⟩
  | @enqueued began jobType entryId flavorId maxAttempts runAt new set =>
    subst set
    have hmax : 1 ≤ (enqueueAt jobType entryId flavorId maxAttempts runAt began).maxAttempts := by
      simp only [enqueueAt]
      split <;> omega
    refine ⟨hmax, Int.le_trans (by decide : (0 : Int) ≤ 1) hmax, fun _ => ?_⟩
    exact Int.lt_of_lt_of_le Int.zero_lt_one hmax
  | @written st began j row applies set =>
    subst set
    have hmax := h.positive id j row
    obtain ⟨hsame, hattempts⟩ := attempts_set st began j
    refine ⟨by rw [hsame]; exact hmax, ?_, attempts_left hcond row hmax (h.queued id j row) applies⟩
    rw [hsame, hattempts]
    split
    · exact Int.le_trans (by decide : (0 : Int) ≤ 1) hmax
    · exact h.bounded id j row
  | @started t c locked claimed j tx phase row mem set =>
    subst set
    have hlt := h.queued id j row (hc.queued he.claims mem row)
    refine ⟨h.positive id j row, ?_, nofun⟩
    simp only [start, Nat.cast_add, Nat.cast_one]
    omega

/-- Rows are not deleted. -/
theorem absent_before {s s' : System} {a : Action} (he : Effect s s' a) {id : JobId}
    (hnone : s'.jobs.row id = none) : s.jobs.row id = none := by
  cases he with
  | idle quiet row => rwa [row] at hnone
  | enqueued new row =>
    rw [row] at hnone
    split at hnone
    · cases hnone
    · exact hnone
  | executed row =>
    rw [row] at hnone
    exact Option.map_eq_none_iff.mp hnone
  | selected tx phase after =>
    subst after
    exact hnone
  | committed tx phase after =>
    subst after
    exact Option.map_eq_none_iff.mp hnone
  | closed quiet after =>
    subst after
    exact hnone

/-- A job without a row has not been started. -/
theorem Counted.absent_step {trace : List Action} {s s' : System} {a : Action} (hc : Coherent s)
    (h : Counted trace s) (he : Effect s s' a) {id : JobId} (hnone : s'.jobs.row id = none) :
    startsSinceRetry id (trace ++ [a]) = 0 := by
  have hbefore := absent_before he hnone
  have hzero := h.absent id hbefore
  rw [startsSinceRetry_snoc]
  cases a with
  | commit t ids =>
    have hid : id ∉ ids := by
      intro hid
      obtain ⟨_, j, hrow, _⟩ := hc t ids he.claims id hid
      rw [hbefore] at hrow
      cases hrow
    exact (if_neg hid).trans hzero
  | execute st began =>
    cases st with
    | retry i =>
      dsimp only
      split
      · rfl
      · exact hzero
    | _ => exact hzero
  | _ => exact hzero

/-- The count after a statement, for a row that it leaves alone and one it writes. -/
theorem starts_executed {trace : List Action} {s : System} {st : Statement} {began : Int}
    {id : JobId} {j : Job} (h : Counted trace s) (accepted : st.accepted s.jobs = true)
    (hrow : s.jobs.row id = some j) :
    (if (st.update began).applies id j then (st.update began).set j else j).attempts =
      startsSinceRetry id (trace ++ [.execute st began]) := by
  rw [startsSinceRetry_snoc]
  obtain ⟨_, hattempts⟩ := attempts_set st began j
  have hstarts := h.starts id j hrow
  by_cases hretry : st = .retry id
  · -- an accepted retry finds its row retryable
    subst hretry
    simp only [Statement.accepted, hrow, Option.any_some] at accepted
    have happ : ((Statement.retry id).update began).applies id j = true := by
      simp [Statement.update, Table.retry, accepted]
    rw [if_pos happ, hattempts]
    simp
  · have hcount : (match Action.execute st began with
        | .commit _ ids => if id ∈ ids then startsSinceRetry id trace + 1
          else startsSinceRetry id trace
        | .execute (.retry i) _ => if i = id then 0 else startsSinceRetry id trace
        | _ => startsSinceRetry id trace) = startsSinceRetry id trace := by
      cases st with
      | retry i => exact if_neg fun hi => hretry (by rw [hi])
      | _ => rfl
    rw [hcount, ← hstarts]
    cases happ : (st.update began).applies id j with
    | false => rfl
    | true =>
      rw [if_pos rfl, hattempts]
      cases st with
      | retry i =>
        rcases Statement.applies happ with hid | ⟨hnone, _⟩
        · exact absurd (by rw [Option.some.inj hid]) hretry
        · cases hnone
      | _ => rfl

theorem startsSinceRetry_quiet {a : Action} (quiet : a.writes = false) (trace : List Action)
    (id : JobId) : startsSinceRetry id (trace ++ [a]) = startsSinceRetry id trace := by
  rw [startsSinceRetry_snoc]
  cases a with
  | commit t ids => cases quiet
  | execute st began => cases quiet
  | _ => rfl

/-- The column agrees with the count after every step. -/
theorem Counted.starts_step {trace : List Action} {s s' : System} {a : Action}
    (h : Counted trace s) (he : Effect s s' a) {id : JobId} {j' : Job}
    (hrow : s'.jobs.row id = some j') : j'.attempts = startsSinceRetry id (trace ++ [a]) := by
  cases he with
  | idle quiet row =>
    rw [startsSinceRetry_quiet quiet]
    exact h.starts id j' (row ▸ hrow)
  | enqueued new row =>
    rw [startsSinceRetry_snoc]
    rw [row] at hrow
    split at hrow
    next hid =>
      subst hid
      rw [← Option.some.inj hrow]
      exact (h.absent id new).symm
    · exact h.starts id j' hrow
  | executed row free issued accepted =>
    rw [row, Jobs.row_updateWhere] at hrow
    obtain ⟨j, hj, rfl⟩ := hrow
    exact starts_executed h accepted hj
  | selected tx phase after =>
    subst after
    rw [startsSinceRetry_quiet rfl]
    exact h.starts id j' hrow
  | @committed t c locked claimed tx phase after =>
    subst after
    obtain ⟨j, hj, rfl⟩ := Jobs.row_updateWhere.mp hrow
    rw [startsSinceRetry_snoc, ← h.starts id j hj]
    by_cases hid : id ∈ claimed <;> simp [start, hid]
  | closed quiet after =>
    subst after
    rw [startsSinceRetry_quiet quiet]
    exact h.starts id j' hrow

theorem Counted.step {trace : List Action} {s s' : System} {a : Action} (hc : Coherent s)
    (h : Counted trace s) (hcond : attemptsLeft s a = true) (he : Effect s s' a) :
    Counted (trace ++ [a]) s' where
  absent _ hnone := h.absent_step hc he hnone
  positive _ _ hrow := (h.bounds hc hcond he hrow).1
  starts _ _ hrow := h.starts_step he hrow
  bounded _ _ hrow := (h.bounds hc hcond he hrow).2.1
  queued _ _ hrow := (h.bounds hc hcond he hrow).2.2

/-- While neither `RequeueStale` nor `Fail` queues a job whose attempts are used up, no
job is started more often than its bound between two retries. -/
theorem attempts_bounded {clock : Int} {trace : List Action} {s : System}
    (h : Run Machine.step (fun s a => attemptsLeft s a = true) (initial clock) trace s) :
    ∀ id j, s.jobs.row id = some j → j.attempts ≤ j.maxAttempts ∧
      startsSinceRetry id trace ≤ j.maxAttempts ∧
      (j.status = .queued → j.attempts < j.maxAttempts) := by
  have hinv : Coherent s ∧ Counted trace s := by
    refine h.trace_invariant (fun trace s => Coherent s ∧ Counted trace s) ⟨coherent_initial clock, ?_⟩ ?_
    · constructor <;> intro id <;> simp [initial, Jobs.empty, startsSinceRetry]
    · rintro trace s a s' ⟨hc, hcount⟩ hcond hstep
      have he := step_effect hstep
      exact ⟨hc.step he, hcount.step hc hcond he⟩
  intro id j hrow
  have hle := hinv.2.bounded id j hrow
  refine ⟨hle, ?_, hinv.2.queued id j hrow⟩
  rw [← hinv.2.starts id j hrow]
  exact hle

def startJob (t : TxId) (workerId : WorkerId) : List Action :=
  [.beginClaim t workerId 1 [], .readEntries t, .select t [], .commit t [0]]

/-- A job that fails twice is dead-lettered after its second start. -/
theorem attempts_bounded_dead_letter : ∃ (s : System) (j : Job), s.jobs.row 0 = some j ∧
    j.status = .failed ∧ (j.attempts : Int) ≤ j.maxAttempts ∧ j.attempts = 2 := by
  have hrun : ∃ s, Run Machine.step (fun s a => attemptsLeft s a = true) (initial 0)
      ([Action.reserve, .enqueue 0 0 .probe (some 1) none 2 none] ++ startJob 0 7 ++
        [Action.failRead 7 0, .execute (.failWrite 7 0 "boom" 1 2) 0, .tick 2000000000] ++ startJob 1 7 ++
        [Action.failRead 7 0, .execute (.failWrite 7 0 "boom twice" 2 2) 2000000000]) s ∧
      ((s.jobs.row 0).any fun j => j.status = .failed && j.attempts = 2) = true :=
    exists_run (fun _ _ h => h) (by decide +kernel)
  obtain ⟨s, hs, hp⟩ := hrun
  obtain ⟨j, hrow, hp⟩ := (Option.any_eq_true _ _).mp hp
  simp only [Bool.and_eq_true, decide_eq_true_eq] at hp
  exact ⟨s, j, hrow, hp.1, (attempts_bounded hs 0 j hrow).1, hp.2⟩

/-- A job with one attempt whose worker crashes is requeued and started again. -/
theorem poison_job_restarted : ∃ trace s j, Run Machine.step Always (initial 0) trace s ∧
    s.jobs.row 0 = some j ∧ 1 ≤ j.maxAttempts ∧ j.maxAttempts < j.attempts := by
  have hrun : ∃ s, Run Machine.step Always (initial 0)
      ([Action.reserve, .enqueue 0 0 .probe (some 1) none 1 none] ++ startJob 0 7 ++
        [Action.abandon ⟨7, 0, none⟩, .tick 181000000000,
        .execute (.requeueStale (3 * minute)) 181000000000, .tick 5000000000] ++ startJob 1 8) s ∧
      ((s.jobs.row 0).any fun j => decide (1 ≤ j.maxAttempts) &&
        decide (j.maxAttempts < (j.attempts : Int))) = true :=
    exists_always (by decide +kernel)
  obtain ⟨s, hs, hp⟩ := hrun
  obtain ⟨j, hrow, hp⟩ := (Option.any_eq_true _ _).mp hp
  simp only [Bool.and_eq_true, decide_eq_true_eq] at hp
  exact ⟨_, s, j, hs, hrow, hp.1, hp.2⟩

end Vidsilo.Queue.Attempts
