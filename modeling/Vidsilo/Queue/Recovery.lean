import Mathlib.Data.Finset.Order
import Vidsilo.Queue.Claimed
import Vidsilo.Queue.Ownership

/-!
# One worker finishes what the others leave

Source: internal/queue/queue.go:60-192, 249-354 and cmd/vidsilo/worker.go:184-251. A worker may
die anywhere in a claim or in a run. The server then ends its transaction, and its
running rows stay until their heartbeat is old enough. From every state that this leaves, one
worker that requeues, claims and runs its jobs brings every unfinished job to an end, but for the
paused ones and the downloads behind a paused one: `Claim` starts a download only when it is the
earliest queued one, and a paused row counts there.
-/
namespace Vidsilo.Queue.Recovery
open Table Claim Claimed Machine Library.Transition

/-- Still to be done. -/
def unfinished (j : Job) : Bool := j.status = .queued || j.status = .running

/-- Paused, or a download that comes after a paused one. -/
def heldUp (jobs : Jobs) (id : JobId) (j : Job) : Bool :=
  j.pauseRequestedAt.isSome ||
    j.type = .download && jobs.exists fun id2 j2 =>
      j2.type = .download && unfinished j2 && j2.pauseRequestedAt.isSome && decide (id2 < id)

/-- How `runJob` ends: a job that is to be aborted is, and any other one succeeds. -/
def outcome (j : Job) : JobStatus := if j.cancelRequestedAt.isSome then .cancelled else .done

def opened (s : System) (w : WorkerId) (t : TxId) : Prop := ∃ c, s.tx t = some c ∧ c.workerId = w

/-- The steps of worker `w` when the other workers are dead. -/
def By (w : WorkerId) (concurrency : Nat) (staleAfter : Int) (s : System) : Action → Prop
  | .tick _ | .rollback _ => True
  | .beginClaim _ workerId limit exclude => workerId = w ∧ limit = concurrency ∧ exclude = []
  | .readEntries t | .lockEntry t | .commit t _ => opened s w t
  | .select t busy => opened s w t ∧ busy = []
  | .execute (.requeueStale d) _ => d = staleAfter
  | .execute (.done workerId id) _ =>
    workerId = w ∧ (s.jobs.row id).any (·.cancelRequestedAt.isNone)
  | .execute (.cancel workerId id reason) _ => workerId = w ∧ reason = "cancelled by user" ∧
      (s.jobs.row id).any (·.cancelRequestedAt.isSome)
  | _ => False

structure Recovered (jobs jobs' : Jobs) : Prop where
  finished : ∀ id j, jobs.row id = some j → unfinished j = false → jobs'.row id = some j
  ended : ∀ id j, jobs.row id = some j → unfinished j = true → heldUp jobs id j = false →
    ∃ j', jobs'.row id = some j' ∧ j'.status = outcome j
  held : ∀ id j, jobs.row id = some j → unfinished j = true → heldUp jobs id j = true →
    ∃ j', jobs'.row id = some j' ∧ j'.status = .queued ∧ j'.pauseRequestedAt = j.pauseRequestedAt
  /-- What is held up stays so. -/
  idle : ∀ n now, claim jobs' n now = []

/-- Locks belong to open transactions, of which there are finitely many. -/
structure Locks (s : System) : Prop where
  rowLock : ∀ id t, s.rowLock id = some t → s.tx t ≠ none
  advisory : ∀ e t, s.advisory e = some t → s.tx t ≠ none
  bounded : ∃ n, ∀ t, n ≤ t → s.tx t = none

theorem tx_setPhase (s : System) (t : TxId) (c : ClaimTx) (phase : Phase) (i : TxId) :
    (s.setPhase t c phase).tx i = if i = t then some { c with phase := phase } else s.tx i := rfl

theorem tx_close (s : System) (t i : TxId) :
    (s.close t).tx i = if i = t then none else s.tx i := rfl

theorem rowLock_close {s : System} {t i : TxId} {id : JobId} (h : (s.close t).rowLock id = some i) :
    s.rowLock id = some i ∧ i ≠ t := by
  simp only [System.close] at h
  split at h
  · cases h
  next other =>
    rw [h, Option.some.injEq] at other
    exact ⟨h, other⟩

theorem advisory_close {s : System} {t i : TxId} {e : Int} (h : (s.close t).advisory e = some i) :
    s.advisory e = some i ∧ i ≠ t := by
  simp only [System.close] at h
  split at h
  · cases h
  next other =>
    rw [h, Option.some.injEq] at other
    exact ⟨h, other⟩

theorem tx_setPhase_ne_none {s : System} {t i : TxId} {c : ClaimTx} {phase : Phase}
    (h : s.tx i ≠ none) : (s.setPhase t c phase).tx i ≠ none := by
  rw [tx_setPhase]
  split
  · simp
  · exact h

theorem Locks.setPhase {s : System} (h : Locks s) (t : TxId) (c : ClaimTx) (phase : Phase) :
    Locks (s.setPhase t c phase) where
  rowLock id i lock := tx_setPhase_ne_none (h.rowLock id i lock)
  advisory e i lock := tx_setPhase_ne_none (h.advisory e i lock)
  bounded := by
    obtain ⟨n, none⟩ := h.bounded
    refine ⟨max n (t + 1), fun i later => ?_⟩
    obtain ⟨enough, other⟩ := Nat.max_le.mp later
    rw [tx_setPhase, if_neg (Nat.ne_of_gt other)]
    exact none i enough

theorem Locks.close {s : System} (h : Locks s) (t : TxId) : Locks (s.close t) where
  rowLock id i lock := by
    obtain ⟨was, other⟩ := rowLock_close lock
    rw [tx_close, if_neg other]
    exact h.rowLock id i was
  advisory e i lock := by
    obtain ⟨was, other⟩ := advisory_close lock
    rw [tx_close, if_neg other]
    exact h.advisory e i was
  bounded := by
    obtain ⟨n, none⟩ := h.bounded
    refine ⟨n, fun i later => ?_⟩
    rw [tx_close]
    split
    · rfl
    · exact none i later

theorem Locks.selectRows {s : System} (h : Locks s) (t : TxId) (c : ClaimTx) (busy : List JobId) :
    Locks (s.selectRows t c busy) := by
  dsimp only [System.selectRows]
  split
  · exact h.close t
  · constructor
    · intro id i lock
      dsimp only at lock
      split at lock
      · cases lock
        simp [tx_setPhase]
      · exact tx_setPhase_ne_none (h.rowLock id i lock)
    · exact (h.setPhase t c _).advisory
    · exact (h.setPhase t c _).bounded

theorem Locks.step {s s' : System} {a : Action} (h : Locks s) (taken : step s a = some s') :
    Locks s' := by
  cases a with
  | tick d =>
    cases taken
    exact ⟨h.rowLock, h.advisory, h.bounded⟩
  | reserve =>
    cases taken
    exact ⟨h.rowLock, h.advisory, h.bounded⟩
  | enqueue id began jobType entryId flavorId maxAttempts runAt =>
    simp only [Machine.step] at taken
    split at taken
    · split at taken
      · cases taken
        exact ⟨h.rowLock, h.advisory, h.bounded⟩
      · cases taken
    · cases taken
  | execute st began =>
    simp only [Machine.step] at taken
    split at taken
    · cases taken
      exact ⟨h.rowLock, h.advisory, h.bounded⟩
    · cases taken
  | beginClaim t workerId limit exclude =>
    simp only [Machine.step] at taken
    split at taken
    · cases taken
      exact h.setPhase t _ _
    · cases taken
  | readEntries t =>
    simp only [Machine.step] at taken
    split at taken
    next c tx =>
      split at taken
      · cases taken
        exact h.setPhase t c _
      · cases taken
    · cases taken
  | lockEntry t =>
    simp only [Machine.step] at taken
    split at taken
    next c tx =>
      split at taken
      next e remaining phase =>
        split at taken
        · cases taken
          constructor
          · exact (h.setPhase t c _).rowLock
          · intro i t' lock
            dsimp only at lock
            split at lock
            · cases lock
              simp [tx_setPhase]
            · exact tx_setPhase_ne_none (h.advisory i t' lock)
          · exact (h.setPhase t c _).bounded
        · cases taken
      · cases taken
    · cases taken
  | select t busy =>
    simp only [Machine.step] at taken
    split at taken
    next c tx =>
      split at taken
      · cases taken
        exact h.selectRows t c busy
      · cases taken
    · cases taken
  | commit t ids =>
    simp only [Machine.step] at taken
    split at taken
    next c tx =>
      split at taken
      · split at taken
        · cases taken
          have closed := h.close t
          exact ⟨closed.rowLock, closed.advisory, closed.bounded⟩
        · cases taken
      · cases taken
    · cases taken
  | rollback t =>
    simp only [Machine.step] at taken
    split at taken
    · cases taken
    · cases taken
      exact h.close t
  | failRead w id =>
    simp only [Machine.step] at taken
    split at taken
    · split at taken
      · cases taken
        exact ⟨h.rowLock, h.advisory, h.bounded⟩
      · cases taken
    · cases taken
  | abandon run =>
    simp only [Machine.step] at taken
    split at taken
    · cases taken
      exact ⟨h.rowLock, h.advisory, h.bounded⟩
    · cases taken

/-- `coalesce(heartbeat_at, started_at)` of a running row is not null. -/
def Stamped (s : System) : Prop :=
  ∀ id j, s.jobs.row id = some j → j.status = .running → j.heartbeatAt.or j.startedAt ≠ none

theorem stamped_set {st : Statement} {began : Int} {j : Job}
    (h : j.status = .running → j.heartbeatAt.or j.startedAt ≠ none)
    (running : ((st.update began).set j).status = .running) :
    ((st.update began).set j).heartbeatAt.or ((st.update began).set j).startedAt ≠ none := by
  cases st with
  | heartbeat w => simp [Statement.update, Table.heartbeat]
  | pause id => exact h running
  | resume id => exact h running
  | requestCancel id =>
    simp only [Statement.update, Table.requestCancel] at running ⊢
    split at running
    · cases running
    next notQueued =>
      rw [if_neg notQueued]
      exact h running
  | requeueStale staleAfter => cases running
  | retry id => cases running
  | done w id => cases running
  | cancel w id reason => cases running
  | failWrite w id errMsg attempts maxAttempts =>
    simp only [Statement.update, Table.failWrite] at running
    split at running <;> cases running

theorem Stamped.step {s s' : System} {a : Action} (h : Stamped s) (taken : step s a = some s') :
    Stamped s' := by
  intro id j' isRow running
  cases row_step (step_effect taken) isRow with
  | kept row => exact h id j' row running
  | enqueued new set =>
    subst set
    cases running
  | @written st began j row applies set =>
    subst set
    exact stamped_set (h id j row) running
  | started tx phase row mem set =>
    subst set
    simp [start]

theorem locks_stamped {clock : Int} {before : List Action} {s : System}
    (h : Run step Always (initial clock) before s) : Locks s ∧ Stamped s := by
  apply h.invariant (fun s => Locks s ∧ Stamped s)
  · constructor
    · constructor <;> simp [initial]
    · simp [Stamped, initial, Jobs.empty]
  · intro s a s' inv _ taken
    exact ⟨inv.1.step taken, inv.2.step taken⟩

section Worker
variable {w : WorkerId} {concurrency : Nat} {staleAfter : Int}

/-- Worker `w` can bring the system there by itself. -/
def Brings (w : WorkerId) (concurrency : Nat) (staleAfter : Int) (s s' : System) : Prop :=
  ∃ trace, Run step (By w concurrency staleAfter) s trace s'

theorem Brings.refl (s : System) : Brings w concurrency staleAfter s s := ⟨[], .start⟩

theorem Brings.next {s m s' : System} (a : Action) (meets : By w concurrency staleAfter s a)
    (taken : step s a = some m) (h : Brings w concurrency staleAfter m s') :
    Brings w concurrency staleAfter s s' := by
  obtain ⟨trace, run⟩ := h
  exact ⟨a :: trace, .prepend meets taken run⟩

theorem Brings.trans {s m s' : System} (h : Brings w concurrency staleAfter s m)
    (h' : Brings w concurrency staleAfter m s') : Brings w concurrency staleAfter s s' := by
  obtain ⟨early, run⟩ := h
  obtain ⟨later, run'⟩ := h'
  exact ⟨early ++ later, run.append run'⟩

/-- No open transaction and no lock. -/
structure Calm (s : System) : Prop where
  tx : ∀ t, s.tx t = none
  rowLock : ∀ id, s.rowLock id = none
  advisory : ∀ e, s.advisory e = none

theorem Locks.calm {s : System} (h : Locks s) (none : ∀ t, s.tx t = none) : Calm s where
  tx := none
  rowLock id := by
    by_contra locked
    obtain ⟨t, lock⟩ := Option.ne_none_iff_exists'.mp locked
    exact h.rowLock id t lock (none t)
  advisory e := by
    by_contra locked
    obtain ⟨t, lock⟩ := Option.ne_none_iff_exists'.mp locked
    exact h.advisory e t lock (none t)

/-- By induction on a bound of the transactions: the last one is rolled back first. -/
theorem rolledBack (n : Nat) {s : System} (h : Locks s) (none : ∀ t, n ≤ t → s.tx t = none) :
    ∃ s', Brings w concurrency staleAfter s s' ∧ Calm s' ∧ s'.jobs = s.jobs := by
  induction n generalizing s with
  | zero => exact ⟨s, .refl s, h.calm fun t => none t (Nat.zero_le t), rfl⟩
  | succ n ih =>
    cases last : s.tx n with
    | none =>
      apply ih h
      intro t later
      rcases Nat.eq_or_lt_of_le later with rfl | later
      · exact last
      · exact none t later
    | some c =>
      have taken : step s (.rollback n) = some (s.close n) := by simp [step, last]
      obtain ⟨s', brings, calm, jobs⟩ := ih (h.close n) (by
        intro t later
        rw [tx_close]
        split
        · rfl
        next other => exact none t (Nat.lt_of_le_of_ne later (Ne.symm other)))
      exact ⟨s', .next (.rollback n) trivial taken brings, calm, jobs⟩

/-- No row runs, and the queued ones are due. -/
structure Settled (s : System) : Prop where
  idle : ∀ id j, s.jobs.row id = some j → j.status ≠ .running
  due : ∀ id j, s.jobs.row id = some j → j.status = .queued → j.runAt ≤ s.clock

/-- The clock passes any time that depends on the row. -/
theorem exists_clock (jobs : Jobs) (now : Int) (stamp : Job → Int) :
    ∃ d : Nat, ∀ id j, jobs.row id = some j → stamp j ≤ now + d := by
  obtain ⟨latest, bound⟩ := Finset.exists_le
    ((Finset.range jobs.nextId).image fun id => ((jobs.row id).map stamp).getD now)
  refine ⟨(latest - now).toNat, fun id j isRow => ?_⟩
  have early : stamp j ≤ latest := by
    apply bound
    rw [Finset.mem_image]
    exact ⟨id, Finset.mem_range.mpr (Jobs.lt_nextId isRow), by simp [isRow]⟩
  omega

theorem requeued {s : System} (calm : Calm s) (stamped : Stamped s) :
    ∃ s' now, Brings w concurrency staleAfter s s' ∧ Calm s' ∧ Settled s' ∧
      (∀ id j, s.jobs.row id = some j → j.status = .running → isStale staleAfter now j = true) ∧
      s'.jobs = s.jobs.updateWhere (requeueStale staleAfter now) := by
  obtain ⟨d, late⟩ := exists_clock s.jobs s.clock
    fun j => (j.heartbeatAt.or j.startedAt).getD 0 + staleAfter + 1
  have stale : ∀ id j, s.jobs.row id = some j → j.status = .running →
      isStale staleAfter (s.clock + d) j = true := by
    intro id j isRow running
    obtain ⟨t, stamp⟩ := Option.ne_none_iff_exists'.mp (stamped id j isRow running)
    have old := late id j isRow
    rw [stamp, Option.getD_some] at old
    simp only [isStale, running, stamp, decide_true, Option.any_some, Bool.true_and,
      decide_eq_true_eq]
    omega
  obtain ⟨d', due⟩ := exists_clock (s.jobs.updateWhere (requeueStale staleAfter (s.clock + d)))
    (s.clock + d) fun j => j.runAt
  refine ⟨{ s with
      clock := s.clock + d + d'
      jobs := s.jobs.updateWhere (requeueStale staleAfter (s.clock + d)) }, s.clock + d, ?_,
    ⟨calm.tx, calm.rowLock, calm.advisory⟩, ⟨?_, fun id j isRow _ => due id j isRow⟩, stale, rfl⟩
  · apply Brings.next (.tick d) trivial rfl
    apply Brings.next (.execute (.requeueStale staleAfter) (s.clock + d)) rfl
      (by simp [step, Statement.target, Statement.issuer, Statement.accepted]; rfl)
    exact Brings.next (.tick d') trivial rfl (.refl _)
  · intro id j' isRow
    obtain ⟨j, was, set⟩ := Jobs.row_updateWhere.mp isRow
    split at set
    · subst set
      simp [requeueStale]
    next fresh =>
      subst set
      intro running
      exact fresh (stale id j was running)

/-- Transaction 0 is the only one, and holds all locks. -/
structure Alone (s : System) (c : ClaimTx) : Prop where
  tx : s.tx 0 = some c
  others : ∀ t, t ≠ 0 → s.tx t = none
  rowLock : ∀ id, s.rowLock id = none ∨ s.rowLock id = some 0
  advisory : ∀ e, s.advisory e = none ∨ s.advisory e = some 0

theorem Alone.setPhase {s : System} {c : ClaimTx} (h : Alone s c) (phase : Phase) :
    Alone (s.setPhase 0 c phase) { c with phase := phase } where
  tx := by rw [tx_setPhase, if_pos rfl]
  others t other := by
    rw [tx_setPhase, if_neg other]
    exact h.others t other
  rowLock := h.rowLock
  advisory := h.advisory

theorem Alone.close {s : System} {c : ClaimTx} (h : Alone s c) : Calm (s.close 0) where
  tx t := by
    rw [tx_close]
    split
    · rfl
    next other => exact h.others t other
  rowLock id := by
    simp only [System.close]
    split
    · rfl
    next other => exact (h.rowLock id).resolve_right other
  advisory e := by
    simp only [System.close]
    split
    · rfl
    next other => exact (h.advisory e).resolve_right other

/-- `pg_advisory_xact_lock` in a loop. -/
theorem locksEntries {s : System} {c : ClaimTx} (alone : Alone s c) (own : c.workerId = w)
    (free : ∀ id, s.rowLock id = none) {remaining : List Int}
    (phase : c.phase = .locking remaining) :
    ∃ s', Brings w concurrency staleAfter s s' ∧ Alone s' { c with phase := .locking [] } ∧
      (∀ id, s'.rowLock id = none) ∧ s'.jobs = s.jobs ∧ s'.clock = s.clock := by
  induction remaining generalizing s c with
  | nil =>
    rw [← phase]
    exact ⟨s, .refl s, alone, free, rfl, rfl⟩
  | cons e rest ih =>
    have taken : step s (.lockEntry 0) = some { s.setPhase 0 c (.locking rest) with
        advisory := fun i => if i = e then some 0 else s.advisory i } := by
      simp [step, alone.tx, phase, alone.advisory e]
    have alone' := alone.setPhase (.locking rest)
    obtain ⟨s', brings, last, free', jobs, clock⟩ := ih
      (s := { s.setPhase 0 c (.locking rest) with
        advisory := fun i => if i = e then some 0 else s.advisory i })
      (c := { c with phase := .locking rest })
      ⟨alone'.tx, alone'.others, alone'.rowLock, fun i => by
        dsimp only
        split
        · exact .inr rfl
        · exact alone.advisory i⟩ own free rfl
    exact ⟨s', .next (.lockEntry 0) ⟨c, alone.tx, own⟩ taken brings, last, free', jobs, clock⟩

/-- The write that ends the run of a job. -/
def finish (w : WorkerId) (id : JobId) (j : Job) : Statement :=
  if j.cancelRequestedAt.isSome then .cancel w id "cancelled by user" else .done w id

theorem finish_outcome (w : WorkerId) (id : JobId) (j : Job) (now : Int) :
    (((finish w id j).update now).set j).status = outcome j := by
  unfold finish outcome
  split <;> rfl

theorem finish_applies (w : WorkerId) (id : JobId) (j : Job) (now : Int) (i : JobId) (j' : Job) :
    ((finish w id j).update now).applies i j' = decide (i = id) := by
  unfold finish
  split <;> rfl

theorem finish_by {s : System} {id : JobId} {j : Job} (isRow : s.jobs.row id = some j) :
    By w concurrency staleAfter s (.execute (finish w id j) s.clock) := by
  unfold finish
  split
  next aborted => exact ⟨rfl, rfl, by simpa [isRow] using aborted⟩
  next going => exact ⟨rfl, by simpa [isRow] using going⟩

theorem finish_step {s : System} (calm : Calm s) {id : JobId} (j : Job)
    (running : (⟨w, id, none⟩ : ActiveRun) ∈ s.runs) :
    step s (.execute (finish w id j) s.clock) = some { s with
      jobs := s.jobs.updateWhere ((finish w id j).update s.clock)
      runs := s.runs.erase ⟨w, id, none⟩ } := by
  unfold finish
  split <;>
    simp [step, Statement.target, Statement.issuer, Statement.accepted, calm.rowLock, running]

/-- The claimed jobs end one after the other. -/
theorem finishes {s : System} (calm : Calm s) {ids : List JobId} (distinct : ids.Nodup)
    (running : ∀ id ∈ ids, (⟨w, id, none⟩ : ActiveRun) ∈ s.runs) :
    ∃ s', Brings w concurrency staleAfter s s' ∧ Calm s' ∧ s'.clock = s.clock ∧
      (∀ id ∈ ids, ∀ j, s.jobs.row id = some j →
        ∃ j', s'.jobs.row id = some j' ∧ j'.status = outcome j) ∧
      ∀ id, id ∉ ids → s'.jobs.row id = s.jobs.row id := by
  induction ids generalizing s with
  | nil => exact ⟨s, .refl s, calm, rfl, by simp, fun _ _ => rfl⟩
  | cons first rest ih =>
    obtain ⟨once, distinct⟩ := List.nodup_cons.mp distinct
    cases isRow : s.jobs.row first with
    | none =>
      obtain ⟨s', brings, calm', clock, ended, kept⟩ :=
        ih calm distinct fun id mem => running id (List.mem_cons_of_mem _ mem)
      refine ⟨s', brings, calm', clock, fun id mem j here => ?_, fun id other => ?_⟩
      · rcases List.mem_cons.mp mem with rfl | mem
        · rw [isRow] at here
          cases here
        · exact ended id mem j here
      · exact kept id fun mem => other (List.mem_cons_of_mem _ mem)
    | some j =>
      have taken := finish_step calm j (running first List.mem_cons_self)
      obtain ⟨s', brings, calm', clock, ended, kept⟩ := ih
        (s := { s with
          jobs := s.jobs.updateWhere ((finish w first j).update s.clock)
          runs := s.runs.erase ⟨w, first, none⟩ })
        ⟨calm.tx, calm.rowLock, calm.advisory⟩ distinct (by
          intro id mem
          have other : id ≠ first := fun same => once (same ▸ mem)
          have here := running id (List.mem_cons_of_mem _ mem)
          exact (List.mem_erase_of_ne (by simpa using other)).mpr here)
      have row : ∀ id, (s.jobs.updateWhere ((finish w first j).update s.clock)).row id =
          if id = first then some (((finish w first j).update s.clock).set j)
          else s.jobs.row id := by
        intro id
        by_cases same : id = first
        · subst same
          simp [Jobs.updateWhere, finish_applies, isRow]
        · simp [Jobs.updateWhere, finish_applies, same]
      refine ⟨s', .next _ (finish_by isRow) taken brings, calm', clock, fun id mem j' here => ?_,
        fun id other => ?_⟩
      · rcases List.mem_cons.mp mem with rfl | mem
        · rw [isRow, Option.some.injEq] at here
          subst here
          refine ⟨_, ?_, finish_outcome w id j s.clock⟩
          rw [kept id once, row, if_pos rfl]
        · apply ended id mem j'
          have other : id ≠ first := fun same => once (same ▸ mem)
          rw [row, if_neg other, here]
      · rw [List.mem_cons, not_or] at other
        rw [kept id other.2, row, if_neg other.1]

/-- The transaction up to its second statement. -/
theorem begins {s : System} (calm : Calm s) :
    ∃ m, Brings w concurrency staleAfter s m ∧ Alone m ⟨w, concurrency, [], s.clock, .locking []⟩ ∧
      (∀ id, m.rowLock id = none) ∧ m.jobs = s.jobs ∧ m.clock = s.clock := by
  have begun : Alone (s.setPhase 0 ⟨w, concurrency, [], s.clock, .begun⟩ .begun)
      ⟨w, concurrency, [], s.clock, .begun⟩ :=
    ⟨by rw [tx_setPhase, if_pos rfl], fun t other => by rw [tx_setPhase, if_neg other, calm.tx],
      fun id => .inl (calm.rowLock id), fun e => .inl (calm.advisory e)⟩
  have read := begun.setPhase (.locking (dueTranscodeEntries s.jobs s.clock))
  obtain ⟨m, locking, locked, free, jobs, clock⟩ := locksEntries read rfl calm.rowLock rfl
  refine ⟨m, ?_, locked, free, jobs, clock⟩
  apply Brings.next (.beginClaim 0 w concurrency []) ⟨rfl, rfl, rfl⟩ (if_pos (calm.tx 0))
  apply Brings.next (.readEntries 0) ⟨_, begun.tx, rfl⟩ _ locking
  simp only [step, begun.tx, if_true]
  rfl

/-- The second statement: no row is locked, so it takes what `claim` says. -/
theorem takes {m : System} {c : ClaimTx} (locked : Alone m c) (phase : c.phase = .locking [])
    (own : c.workerId = w) (everything : c.exclude = []) (free : ∀ id, m.rowLock id = none)
    (some : claim m.jobs c.limit c.now ≠ []) :
    ∃ m' rows, Brings w concurrency staleAfter m m' ∧
      Alone m' { c with phase := .selected rows (claim m.jobs c.limit c.now) } ∧
      m'.jobs = m.jobs ∧ m'.clock = m.clock := by
  have unlocked : m.isLocked [] = fun _ => false := by
    funext id
    simp [System.isLocked, free id]
  have found : selectDue m.jobs c.limit [] c.now (fun _ => false) ≠ [] := by
    intro nothing
    exact some (by rw [claim, nothing, keepFirst])
  have taken : step m (.select 0 []) = .some { m.setPhase 0 c
        (.selected (selectDue m.jobs c.limit [] c.now fun _ => false)
          (claim m.jobs c.limit c.now)) with
      rowLock := fun id => if id ∈ selectDue m.jobs c.limit [] c.now (fun _ => false)
        then .some 0 else m.rowLock id } := by
    simp only [step, locked.tx, phase, if_true, System.selectRows, everything, unlocked,
      if_neg found, claim]
  have selected := locked.setPhase (.selected (selectDue m.jobs c.limit [] c.now fun _ => false)
    (claim m.jobs c.limit c.now))
  refine ⟨_, selectDue m.jobs c.limit [] c.now fun _ => false,
    .next (.select 0 []) ⟨⟨c, locked.tx, own⟩, rfl⟩ taken (.refl _),
    ⟨selected.tx, selected.others, ?_, selected.advisory⟩, rfl, rfl⟩
  intro id
  dsimp only
  split
  · exact .inr rfl
  · exact .inl (free id)

theorem commits {m : System} {c : ClaimTx} {rows claimed : List JobId} (holding : Alone m c)
    (phase : c.phase = .selected rows claimed) (own : c.workerId = w) :
    ∃ m', Brings w concurrency staleAfter m m' ∧ Calm m' ∧
      m'.jobs = m.jobs.updateWhere (start claimed w c.now) ∧ m'.clock = m.clock ∧
      ∀ id ∈ claimed, (⟨w, id, none⟩ : ActiveRun) ∈ m'.runs := by
  have taken : step m (.commit 0 claimed) = some (m.commitClaim 0 c claimed) := by
    simp only [step, holding.tx, phase, if_true]
  have released := holding.close
  subst own
  refine ⟨m.commitClaim 0 c claimed, .next (.commit 0 claimed) ⟨c, holding.tx, rfl⟩ taken (.refl _),
    ⟨released.tx, released.rowLock, released.advisory⟩, rfl, rfl, fun id mem => ?_⟩
  exact List.mem_append_right _ (List.mem_map.mpr ⟨id, mem, rfl⟩)

/-- One `claimRound` that claims something, with the runs of what it claims. -/
theorem round {s : System} (calm : Calm s) (some : claim s.jobs concurrency s.clock ≠ []) :
    ∃ s', Brings w concurrency staleAfter s s' ∧ Calm s' ∧ s'.clock = s.clock ∧
      (∀ id ∈ claim s.jobs concurrency s.clock, ∀ j, s.jobs.row id = .some j →
        ∃ j', s'.jobs.row id = .some j' ∧ j'.status = outcome j) ∧
      ∀ id, id ∉ claim s.jobs concurrency s.clock → s'.jobs.row id = s.jobs.row id := by
  obtain ⟨m₁, begin, locked, free, jobs₁, clock₁⟩ := begins (w := w) calm
  obtain ⟨m₂, rows, take, holding, jobs₂, clock₂⟩ :=
    takes locked rfl rfl rfl free (by rw [jobs₁]; exact some)
  obtain ⟨m₃, commit, calm₃, jobs₃, clock₃, running⟩ := commits holding rfl rfl
  rw [jobs₁] at running jobs₃
  have distinct : (claim s.jobs concurrency s.clock).Nodup :=
    (nodup_selectDue _ _ _ _ _).sublist (keepFirst_sublist _ _ _)
  obtain ⟨s', ends, calm', clock', ended, kept⟩ := finishes calm₃ distinct running
  rw [jobs₃, jobs₂, jobs₁] at ended kept
  refine ⟨s', ((begin.trans take).trans commit).trans ends, calm',
    clock'.trans (clock₃.trans (clock₂.trans clock₁)), ?_, ?_⟩
  · intro id mem j here
    apply ended id mem ((start (claim s.jobs concurrency s.clock) w s.clock).set j)
    exact Jobs.row_updateWhere.mpr ⟨j, here, if_pos (decide_eq_true mem)⟩
  · intro id other
    have idle : (start (claim s.jobs concurrency s.clock) w s.clock).applies id =
        fun _ => false := by
      funext j
      exact decide_eq_false other
    rw [kept id other]
    simp [Jobs.updateWhere, idle]

/-- A job that was unfinished has ended, or waits with what decides over its claim unchanged. -/
def Pending (jobs : Jobs) (now : Int) (id : JobId) (j j' : Job) : Prop :=
  (j'.status = outcome j ∧ heldUp jobs id j = false) ∨
  (j'.status = .queued ∧ j'.runAt ≤ now ∧ j'.type = j.type ∧
    j'.pauseRequestedAt = j.pauseRequestedAt ∧ j'.cancelRequestedAt = j.cancelRequestedAt)

/-- What the rounds keep of the table that they started from. -/
structure Settling (jobs : Jobs) (now : Int) (jobs' : Jobs) : Prop where
  known : ∀ id j', jobs'.row id = some j' → ∃ j, jobs.row id = some j
  finished : ∀ id j, jobs.row id = some j → unfinished j = false → jobs'.row id = some j
  pending : ∀ id j, jobs.row id = some j → unfinished j = true →
    ∃ j', jobs'.row id = some j' ∧ Pending jobs now id j j'

theorem unfinished_iff {j : Job} :
    unfinished j = true ↔ j.status = .queued ∨ j.status = .running := by
  simp [unfinished]

theorem outcome_finished (j : Job) : outcome j ≠ .queued ∧ outcome j ≠ .running := by
  unfold outcome
  split <;> simp

theorem heldUp_iff {jobs : Jobs} {id : JobId} {j : Job} : heldUp jobs id j = true ↔
    j.pauseRequestedAt ≠ none ∨ (j.type = .download ∧ ∃ id2 j2, jobs.row id2 = some j2 ∧
      j2.type = .download ∧ unfinished j2 = true ∧ j2.pauseRequestedAt ≠ none ∧ id2 < id) := by
  simp [heldUp, Jobs.exists_iff, Option.isSome_iff_ne_none, and_assoc]

section Settling
variable {jobs jobs' : Jobs} {now : Int}

/-- A queued row was unfinished, and waits. -/
theorem Settling.queued (h : Settling jobs now jobs') {id : JobId} {j' : Job}
    (isRow : jobs'.row id = some j') (queued : j'.status = .queued) :
    ∃ j, jobs.row id = some j ∧ unfinished j = true ∧ j'.runAt ≤ now ∧ j'.type = j.type ∧
      j'.pauseRequestedAt = j.pauseRequestedAt ∧ j'.cancelRequestedAt = j.cancelRequestedAt := by
  obtain ⟨j, was⟩ := h.known id j' isRow
  cases open' : unfinished j with
  | false =>
    have same := h.finished id j was open'
    rw [isRow, Option.some.injEq] at same
    subst same
    rw [unfinished_iff.mpr (.inl queued)] at open'
    cases open'
  | true =>
    obtain ⟨j'', row, ended | waits⟩ := h.pending id j was open'
    · rw [isRow, Option.some.injEq] at row
      subst row
      exact absurd (ended.1.symm.trans queued) (outcome_finished j).1
    · rw [isRow, Option.some.injEq] at row
      subst row
      exact ⟨j, was, open', waits.2⟩

theorem Settling.idle (h : Settling jobs now jobs') {id : JobId} {j' : Job}
    (isRow : jobs'.row id = some j') : j'.status ≠ .running := by
  intro running
  obtain ⟨j, was⟩ := h.known id j' isRow
  cases open' : unfinished j with
  | false =>
    have same := h.finished id j was open'
    rw [isRow, Option.some.injEq] at same
    subst same
    rw [unfinished_iff.mpr (.inr running)] at open'
    cases open'
  | true =>
    obtain ⟨j'', row, ended | waits⟩ := h.pending id j was open'
    · rw [isRow, Option.some.injEq] at row
      subst row
      exact (outcome_finished j).2 (ended.1.symm.trans running)
    · rw [isRow, Option.some.injEq] at row
      subst row
      rw [running] at waits
      cases waits.1

/-- What a claim takes is held up by nothing, at any time. -/
theorem Settling.claimed (h : Settling jobs now jobs') {n : Nat} {time : Int} {id : JobId}
    (mem : id ∈ claim jobs' n time) : ∃ j j', jobs.row id = some j ∧ unfinished j = true ∧
      heldUp jobs id j = false ∧ jobs'.row id = some j' ∧ j'.status = .queued ∧
      outcome j' = outcome j := by
  obtain ⟨_, j', isRow, can⟩ := mem_selectDue ((keepFirst_sublist _ _ _).subset mem)
  have queued := claimable_queued can
  obtain ⟨due, first, _⟩ := (claimable_iff isRow).mp can
  obtain ⟨j, was, open', _, sameType, samePause, sameCancel⟩ := h.queued isRow queued
  refine ⟨j, j', was, open', ?_, isRow, queued, by rw [outcome, outcome, sameCancel]⟩
  by_contra held
  rw [Bool.not_eq_false, heldUp_iff] at held
  rcases held with paused | ⟨isDownload, id2, j2, row2, isDownload2, open2, paused2, earlier⟩
  · rw [← samePause] at paused
    exact paused (due_iff.mp due).2.2
  · obtain ⟨j2', row2', ended | waits⟩ := h.pending id2 j2 row2 open2
    · rw [heldUp_iff.mpr (.inl paused2)] at ended
      cases ended.2
    · have least := (head_queuedDownloads.mp (first (sameType.trans isDownload)).2).2 id2
        (mem_queuedDownloads.mpr ⟨j2', row2', waits.2.2.1.trans isDownload2, waits.1⟩)
      exact Nat.not_lt.mpr least earlier

theorem claim_ne_nil {n : Nat} (slots : 0 < n) {id : JobId} {j : Job} (isRow : jobs.row id = some j)
    (can : claimable jobs [] now id j = true) : claim jobs n now ≠ [] := by
  rw [claim_eq]
  have mem : id ∈ candidates jobs now := mem_candidates.mpr ⟨j, isRow, can⟩
  obtain ⟨n, rfl⟩ := Nat.exists_eq_add_of_lt slots
  cases list : candidates jobs now with
  | nil =>
    rw [list] at mem
    cases mem
  | cons first rest =>
    rw [Nat.zero_add, List.take_succ_cons, keepFirst]
    split <;> simp

/-- As long as a job that nothing holds up waits, a claim takes some job: this one, or the first
download. -/
theorem Settling.takes (h : Settling jobs now jobs') {n : Nat} (slots : 0 < n) {id : JobId}
    {j j' : Job} (was : jobs.row id = some j) (free : heldUp jobs id j = false)
    (isRow : jobs'.row id = some j') (queued : j'.status = .queued) :
    claim jobs' n now ≠ [] := by
  have nothingRuns : ∀ p : Job → Bool,
      (jobs'.exists fun _ j2 => p j2 && j2.status = .running) = false := by
    intro p
    rw [← Bool.not_eq_true, Jobs.exists_iff]
    intro ⟨id2, j2, row2, runs⟩
    exact h.idle row2 (by simpa using (Bool.and_eq_true_iff.mp runs).2)
  have idle : downloadRuns jobs' = false := nothingRuns fun j2 => j2.type = .download
  have alone : ∀ e, (jobs'.exists fun _ j2 =>
      j2.type = .transcode && j2.status = .running && j2.entryId = some e) = false := by
    intro e
    rw [← Bool.not_eq_true, Jobs.exists_iff]
    intro ⟨id2, j2, row2, runs⟩
    simp only [Bool.and_eq_true, decide_eq_true_eq] at runs
    exact h.idle row2 runs.1.2
  have clear : ¬ (heldUp jobs id j = true) := by simp [free]
  rw [heldUp_iff, not_or] at clear
  obtain ⟨j₀, was', open', ready, sameType, samePause, _⟩ := h.queued isRow queued
  rw [was, Option.some.injEq] at was'
  subst was'
  by_cases isDownload : j'.type = .download
  · have mem := mem_queuedDownloads.mpr ⟨j', isRow, isDownload, queued⟩
    obtain ⟨first, head⟩ : ∃ first, (queuedDownloads jobs').head? = some first := by
      cases list : queuedDownloads jobs' with
      | nil =>
        rw [list] at mem
        cases mem
      | cons first rest => exact ⟨first, rfl⟩
    obtain ⟨mem', least⟩ := head_queuedDownloads.mp head
    obtain ⟨j1, row1, download1, queued1⟩ := mem_queuedDownloads.mp mem'
    obtain ⟨j1₀, was1, open1, ready1, sameType1, samePause1, _⟩ := h.queued row1 queued1
    have unpaused : j1.pauseRequestedAt = none := by
      by_contra paused
      rcases Nat.lt_or_eq_of_le (least id mem) with earlier | same
      · rw [samePause1] at paused
        exact clear.2 ⟨sameType ▸ isDownload, first, j1₀, was1, sameType1 ▸ download1, open1,
          paused, earlier⟩
      · subst same
        rw [row1, Option.some.injEq] at isRow
        subst isRow
        rw [samePause] at paused
        exact clear.1 paused
    apply claim_ne_nil slots row1
    rw [claimable_iff row1]
    exact ⟨due_iff.mpr ⟨queued1, ready1, unpaused⟩, fun _ => ⟨idle, head⟩, fun _ e _ => alone e⟩
  · have unpaused : j'.pauseRequestedAt = none := by
      rw [samePause]
      exact not_not.mp clear.1
    apply claim_ne_nil slots isRow
    rw [claimable_iff isRow]
    exact ⟨due_iff.mpr ⟨queued, ready, unpaused⟩, fun download => absurd download isDownload,
      fun _ e _ => alone e⟩

theorem Settling.round {jobs'' : Jobs} (h : Settling jobs now jobs') {n : Nat}
    (ended : ∀ id ∈ claim jobs' n now, ∀ j, jobs'.row id = some j →
      ∃ j', jobs''.row id = some j' ∧ j'.status = outcome j)
    (kept : ∀ id, id ∉ claim jobs' n now → jobs''.row id = jobs'.row id) :
    Settling jobs now jobs'' where
  known id j'' isRow := by
    by_cases mem : id ∈ claim jobs' n now
    · obtain ⟨j, _, was, _⟩ := h.claimed mem
      exact ⟨j, was⟩
    · rw [kept id mem] at isRow
      exact h.known id j'' isRow
  finished id j was ended := by
    rw [kept id fun mem => ?_]
    · exact h.finished id j was ended
    · obtain ⟨j', _, was', open', _⟩ := h.claimed mem
      rw [was, Option.some.injEq] at was'
      rw [was', open'] at ended
      cases ended
  pending id j was open' := by
    by_cases mem : id ∈ claim jobs' n now
    · obtain ⟨j₀, j', was', _, free, isRow, _, same⟩ := h.claimed mem
      rw [was, Option.some.injEq] at was'
      subst was'
      obtain ⟨j'', row, status⟩ := ended id mem j' isRow
      exact ⟨j'', row, .inl ⟨status.trans same, free⟩⟩
    · rw [kept id mem]
      exact h.pending id j was open'

/-- Rows that wait. -/
def waiting (jobs : Jobs) : Finset JobId := (jobs.matching fun _ j => j.status = .queued).toFinset

theorem mem_waiting {id : JobId} :
    id ∈ waiting jobs ↔ ∃ j, jobs.row id = some j ∧ j.status = .queued := by
  simp [waiting, Jobs.mem_matching]

theorem Settling.fewer {jobs'' : Jobs} (h : Settling jobs now jobs') {n : Nat}
    (some : claim jobs' n now ≠ [])
    (ended : ∀ id ∈ claim jobs' n now, ∀ j, jobs'.row id = .some j →
      ∃ j', jobs''.row id = .some j' ∧ j'.status = outcome j)
    (kept : ∀ id, id ∉ claim jobs' n now → jobs''.row id = jobs'.row id) :
    (waiting jobs'').card < (waiting jobs').card := by
  have gone : ∀ id ∈ claim jobs' n now, id ∉ waiting jobs'' := by
    intro id mem still
    obtain ⟨_, j', _, _, _, isRow, _⟩ := h.claimed mem
    obtain ⟨j'', row, status⟩ := ended id mem j' isRow
    obtain ⟨j, row', queued⟩ := mem_waiting.mp still
    rw [row, Option.some.injEq] at row'
    subst row'
    exact (outcome_finished j').1 (status.symm.trans queued)
  apply Finset.card_lt_card
  rw [Finset.ssubset_iff_of_subset]
  · obtain ⟨id, mem⟩ := List.exists_mem_of_ne_nil _ some
    obtain ⟨_, j', _, _, _, isRow, queued, _⟩ := h.claimed mem
    exact ⟨id, mem_waiting.mpr ⟨j', isRow, queued⟩, gone id mem⟩
  · intro id still
    have other : id ∉ claim jobs' n now := fun mem => gone id mem still
    rw [mem_waiting] at still ⊢
    rwa [kept id other] at still

theorem settling_requeued {staleAfter time : Int} {s : System} (settled : Settled s)
    (stale : ∀ id j, jobs.row id = some j → j.status = .running → isStale staleAfter time j = true)
    (requeued : s.jobs = jobs.updateWhere (requeueStale staleAfter time)) :
    Settling jobs s.clock s.jobs := by
  have row : ∀ id j, jobs.row id = some j → s.jobs.row id =
      some (if isStale staleAfter time j then (requeueStale staleAfter time).set j else j) := by
    intro id j was
    rw [requeued]
    exact Jobs.row_updateWhere.mpr ⟨j, was, rfl⟩
  have fresh : ∀ j : Job, j.status ≠ .running → isStale staleAfter time j = false := by
    intro j idle
    simp [isStale, idle]
  constructor
  · intro id j' isRow
    rw [requeued] at isRow
    obtain ⟨j, was, _⟩ := Jobs.row_updateWhere.mp isRow
    exact ⟨j, was⟩
  · intro id j was ended
    have idle : j.status ≠ .running := by
      intro running
      rw [unfinished_iff.mpr (.inr running)] at ended
      cases ended
    rw [row id j was, fresh j idle, if_neg Bool.false_ne_true]
  · intro id j was open'
    refine ⟨_, row id j was, .inr ?_⟩
    rcases unfinished_iff.mp open' with queued | running
    · have idle : j.status ≠ .running := by simp [queued]
      have isRow := row id j was
      rw [fresh j idle, if_neg Bool.false_ne_true] at isRow ⊢
      exact ⟨queued, settled.due id j isRow queued, rfl, rfl, rfl⟩
    · have isRow := row id j was
      rw [stale id j was running, if_pos rfl] at isRow ⊢
      exact ⟨rfl, settled.due id _ isRow rfl, rfl, rfl, rfl⟩

end Settling

/-- By induction on how many rows wait: a round that claims something ends some of them. -/
theorem settles {jobs : Jobs} (n : Nat) {s : System} (calm : Calm s)
    (h : Settling jobs s.clock s.jobs) (bound : (waiting s.jobs).card ≤ n) :
    ∃ s', Brings w concurrency staleAfter s s' ∧ Settling jobs s'.clock s'.jobs ∧
      claim s'.jobs concurrency s'.clock = [] := by
  induction n generalizing s with
  | zero =>
    refine ⟨s, .refl s, h, ?_⟩
    by_contra some
    obtain ⟨id, mem⟩ := List.exists_mem_of_ne_nil _ some
    obtain ⟨_, j', _, _, _, isRow, queued, _⟩ := h.claimed mem
    have waits : id ∈ waiting s.jobs := mem_waiting.mpr ⟨j', isRow, queued⟩
    rw [Finset.card_eq_zero.mp (Nat.le_zero.mp bound)] at waits
    exact absurd waits (Finset.notMem_empty id)
  | succ n ih =>
    by_cases nothing : claim s.jobs concurrency s.clock = []
    · exact ⟨s, .refl s, h, nothing⟩
    · obtain ⟨m, brings, calm', clock, ended, kept⟩ :=
        @round w concurrency staleAfter s calm nothing
      have fewer := h.fewer nothing ended kept
      have next := h.round ended kept
      rw [← clock] at next
      obtain ⟨s', later, settled, done⟩ := ih calm' next (by omega)
      exact ⟨s', brings.trans later, settled, done⟩

/-- From every reachable state, a worker with at least one slot brings every unfinished job that is
neither paused nor a download behind a paused one to its end, without touching a finished job;
what is left cannot be claimed. -/
theorem recovered {clock : Int} {before : List Action} {s : System}
    (h : Run step Always (initial clock) before s) (w : WorkerId) (concurrency : Nat)
    (slots : 0 < concurrency) (staleAfter : Int) :
    ∃ s', Brings w concurrency staleAfter s s' ∧ Recovered s.jobs s'.jobs := by
  obtain ⟨locks, stamped⟩ := locks_stamped h
  obtain ⟨n, none⟩ := locks.bounded
  obtain ⟨m₁, rolls, calm₁, jobs₁⟩ := rolledBack n locks none
  have stamped₁ : Stamped m₁ := by
    rw [Stamped, jobs₁]
    exact stamped
  obtain ⟨m₂, time, requeues, calm₂, settled, stale, jobs₂⟩ := requeued calm₁ stamped₁
  rw [jobs₁] at stale jobs₂
  obtain ⟨s', rounds, settling, nothing⟩ :=
    settles _ calm₂ (settling_requeued settled stale jobs₂) (Nat.le_refl _)
  refine ⟨s', (rolls.trans requeues).trans rounds, settling.finished, ?_, ?_, ?_⟩
  · intro id j was open' free
    obtain ⟨j', isRow, ended | waits⟩ := settling.pending id j was open'
    · exact ⟨j', isRow, ended.1⟩
    · exact absurd nothing (settling.takes slots was free isRow waits.1)
  · intro id j was open' held
    obtain ⟨j', isRow, ended | waits⟩ := settling.pending id j was open'
    · rw [held] at ended
      cases ended.2
    · exact ⟨j', isRow, waits.1, waits.2.2.2.1⟩
  · intro n now
    by_contra some
    obtain ⟨id, mem⟩ := List.exists_mem_of_ne_nil _ some
    obtain ⟨j, j', was, _, free, isRow, queued, _⟩ := settling.claimed mem
    exact settling.takes slots was free isRow queued nothing

end Worker

/-- Worker 7 dies in the run of job 0 and worker 9 in a claim of the transcode of job 1; of two
downloads the first is paused. -/
def crashed : List Action :=
  [.reserve, .enqueue 0 0 .probe (some 1) none 3 none,
    .reserve, .enqueue 1 0 .transcode (some 1) (some 1) 3 none,
    .reserve, .enqueue 2 0 .download (some 2) none 3 none,
    .reserve, .enqueue 3 0 .download (some 3) none 3 none, .execute (.pause 2) 0,
    .beginClaim 0 7 1 [], .readEntries 0, .lockEntry 0, .select 0 [], .commit 0 [0],
    .beginClaim 1 9 2 [], .readEntries 1, .lockEntry 1, .select 1 []]

theorem recovered_crashed : ∃ s s', Run step Always (initial 0) crashed s ∧
    (s.rowLock 1 = some 1 ∧ (s.jobs.row 0).map (·.status) = some .running) ∧
    Brings 8 2 (3 * minute) s s' ∧ Recovered s.jobs s'.jobs := by
  have run : ∃ s, Run step Always (initial 0) crashed s ∧
      decide (s.rowLock 1 = some 1 ∧ (s.jobs.row 0).map (·.status) = some .running) = true :=
    exists_always (by decide +kernel)
  obtain ⟨s, reached, left⟩ := run
  obtain ⟨s', brings, done⟩ := recovered reached 8 2 (by decide) (3 * minute)
  exact ⟨s, s', reached, of_decide_eq_true left, brings, done⟩

end Vidsilo.Queue.Recovery
