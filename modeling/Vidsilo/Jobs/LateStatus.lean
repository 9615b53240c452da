import Vidsilo.Jobs.Threads
import Vidsilo.Jobs.Unfinished

/-!
# A status that is set after its jobs

`handleEntryReprocess` and `applyFlavors` enqueue first and set the entry to probing
afterwards. Whether the workers then still finish the entry depends on where their
statements fall: the entry has to wait for a job that is at work, or for an open flavor
row, whenever it is set to a status that is not final. Source: as `Threads`.
-/
namespace Vidsilo.Jobs.LateStatus
open Library Library.Transition Queue.Table Tables Coverage Threads
open Pipeline (entries_written row_written row_written_of_ne)

/-- A queued or running job of the entry whose handler may still do something for it. -/
def atWork (s : State) (entryId : Int) (id : JobId) (j : Job) : Bool :=
  live j && j.entryId = some entryId && !(s.executions id).any spent

def jobWaits (s : State) (entryId : Int) : Bool := s.db.jobs.exists (atWork s entryId)

def waits (s : State) (entryId : Int) : Bool :=
  jobWaits s entryId || decide (0 < s.db.remaining entryId)

def waitsWithout (s : State) (entryId : Int) (jobId : JobId) : Bool :=
  (s.db.jobs.exists fun id j => id ≠ jobId && atWork s entryId id j) ||
    decide (0 < s.db.remaining entryId)

/-- A statement of a request about the entry, with the database it leaves. It takes the
entry out of a final status only while something is to come, and the last open flavor row
from an entry that is not in one only while a job is at work. -/
def guarded (s : State) (entryId : Int) (after : Database) : Bool :=
  (busy s.db entryId || !busy after entryId || waits s entryId) &&
    (!busy s.db entryId || decide (s.db.remaining entryId = 0) ||
      decide (0 < after.remaining entryId) || jobWaits s entryId)

/-- The entry of the job can do without it. -/
def spare (s : State) (jobId : JobId) : Bool :=
  (s.db.jobs.row jobId).all fun j => j.entryId.all fun k =>
    !busy s.db k || waitsWithout s k jobId

/-- No step leaves an entry in a status that is not final with nothing to come. -/
def inTime (s : State) : Action → Bool
  | .request request =>
    (s.requests request).all fun r => (r.2.step s.db).all fun after => guarded s r.1 after.2
  | .finish jobId left parentLive _ =>
    (lastWrite s jobId left parentLive).all fun last =>
      match last with
      | .kept => true
      | .done => true
      | .cancelled => spare s jobId
      | .failed _ attempts maxAttempts => decide ((attempts : Int) < maxAttempts) || spare s jobId
  | _ => true

def Waits (s : State) (k : Int) : Prop :=
  (∃ id j, s.db.jobs.row id = some j ∧ atWork s k id j = true) ∨ 0 < s.db.remaining k

theorem waits_iff {s : State} {k : Int} : waits s k = true ↔ Waits s k := by
  simp [waits, jobWaits, Waits, Jobs.exists_iff]

theorem remaining_pos_iff {db : Database} {k : Int} :
    0 < db.remaining k ↔
      ∃ r ∈ db.entryFlavors.rows, r.entryId = k ∧ r.status.unfinished = true := by
  simp [Database.remaining, List.countP_pos_iff]

/-- An entry has had a job enqueued since the ids stood at `first`. -/
def Enqueued (first : JobId) (db : Database) (k : Int) : Prop :=
  ∃ id j, first ≤ id ∧ db.jobs.row id = some j ∧ j.entryId = some k

/-- Executions are of running jobs, and every thread keeps what it has promised. -/
structure Orderly (s : State) : Prop where
  request : ∀ i r, s.requests i = some r → r.2.rest.Within (Apart (some r.1))
  execution : ∀ id t, s.executions id = some t →
    ∃ j, s.db.jobs.row id = some j ∧ j.status = .running ∧ Promised id j.entryId t

structure Inv (first : JobId) (s : State) : Prop where
  orderly : Orderly s
  waiting : ∀ k, Enqueued first s.db k → busy s.db k = true → Waits s k

variable {first : JobId} {s s' : State} {k : Int}

theorem Orderly.idle {id : JobId} (h : Orderly s)
    (notRunning : ∀ j, s.db.jobs.row id = some j → j.status ≠ .running) :
    s.executions id = none := by
  cases found : s.executions id with
  | none => rfl
  | some t =>
    obtain ⟨j, row, running, _⟩ := h.execution id t found
    exact absurd running (notRunning j row)

theorem waits_of_queued {id : JobId} {j : Job} (h : Orderly s) (row : s.db.jobs.row id = some j)
    (queued : j.status = .queued) (entry : j.entryId = some k) : Waits s k := by
  have idle : s.executions id = none := by
    apply h.idle
    intro j' row' running
    rw [row] at row'
    cases row'
    rw [queued] at running
    cases running
  exact .inl ⟨id, j, row, by simp [atWork, live, queued, entry, idle]⟩

theorem waits_of_attended {owner : Option Int} {before : Database} (h : Orderly s)
    (apart : Apart owner before s.db) (attended : Attended owner before s.db)
    (own : owner = some k) (working : busy s.db k = true) : Waits s k := by
  rcases attended k own working with fresh | ⟨same, unfinished⟩
  · obtain ⟨j, row, _⟩ := (Option.any_eq_true _ _).mp fresh
    obtain ⟨queued, entry⟩ := apart.fresh _ j (before.jobs.drawn _ (le_refl _)) row
    exact waits_of_queued h row queued (entry.trans own)
  · exact .inr (same ▸ unfinished)

/-- A statement apart from the entry, or one that leaves its flavor rows: what it waited for
is still to come, if its jobs are still at work. -/
theorem Waits.move (h : Waits s k)
    (jobs : ∀ id j, s.db.jobs.row id = some j → atWork s k id j = true →
      ∃ j', s'.db.jobs.row id = some j' ∧ atWork s' k id j' = true)
    (rows : ∀ r ∈ s.db.entryFlavors.rows, r.entryId = k → r ∈ s'.db.entryFlavors.rows) :
    Waits s' k := by
  rcases h with ⟨id, j, row, work⟩ | unfinished
  · obtain ⟨j', row', work'⟩ := jobs id j row work
    exact .inl ⟨id, j', row', work'⟩
  · obtain ⟨r, mem, entry, status⟩ := remaining_pos_iff.mp unfinished
    exact .inr (remaining_pos_iff.mpr ⟨r, rows r mem entry, entry, status⟩)

/-- After a statement within `Apart`, an entry with a new job waits for it; the others had
theirs before. -/
theorem enqueued_apart {owner : Option Int} (orderly : Orderly s')
    (apart : Apart owner s.db s'.db) (h : Enqueued first s'.db k) :
    Waits s' k ∨ Enqueued first s.db k := by
  obtain ⟨id, j', later, row', entry⟩ := h
  cases row : s.db.jobs.row id with
  | none =>
    obtain ⟨queued, _⟩ := apart.fresh id j' row row'
    exact .inl (waits_of_queued orderly row' queued entry)
  | some j =>
    have same := apart.kept id j row
    rw [row'] at same
    cases same
    exact .inr ⟨id, j', later, row, entry⟩

theorem orderly_start (db : Database) : Orderly (start db) where
  request i r found := by cases found
  execution id t found := by cases found

/-- Statements of others leave the rows of running jobs as they are. -/
theorem Orderly.execution_kept (h : Orderly s)
    (kept : ∀ id j, s.db.jobs.row id = some j → s'.db.jobs.row id = some j) (id : JobId)
    (t : Thread Database (Option (Option String))) (found : s.executions id = some t) :
    ∃ j, s'.db.jobs.row id = some j ∧ j.status = .running ∧ Promised id j.entryId t := by
  obtain ⟨j, row, running, promised⟩ := h.execution id t found
  exact ⟨j, kept id j row, running, promised⟩

theorem Orderly.request_set (h : Orderly s) {i : RequestId} {k : Int}
    {t : Thread Database (Option String)} (within : t.rest.Within (Apart (some k)))
    (i' : RequestId) (r : Int × Thread Database (Option String))
    (found : (s.setRequest i (some (k, t))).requests i' = some r) :
    r.2.rest.Within (Apart (some r.1)) := by
  simp only [State.setRequest] at found
  split at found
  · cases found
    exact within
  · exact h.request i' r found

theorem inv_begin {request : RequestId} {entryId : Int} {program : Runner.Db (Option String)}
    (inv : Inv first s) (within : program.Within (Apart (some entryId)))
    (taken : s.begin request entryId program = some s') : Inv first s' := by
  unfold State.begin at taken
  split at taken
  · cases taken
  · cases taken
    exact ⟨⟨inv.orderly.request_set within, inv.orderly.execution⟩, inv.waiting⟩

/-- What a guarded statement leaves to come for its own entry. -/
theorem waits_guarded {after : Database} (apart : Apart (some k) s.db after)
    (db : s'.db = after) (executions : s'.executions = s.executions)
    (ok : guarded s k after = true) (before : busy s.db k = true → Waits s k)
    (working : busy after k = true) : Waits s' k := by
  subst db
  simp only [guarded, working, waits_iff, Bool.not_true, Bool.or_false, Bool.and_eq_true,
    Bool.or_eq_true, Bool.not_eq_true', decide_eq_true_eq] at ok
  obtain ⟨raised, stripped⟩ := ok
  have waiting : Waits s k := raised.elim before id
  have jobs (id : JobId) (j : Job) (row : s.db.jobs.row id = some j)
      (work : atWork s k id j = true) :
      ∃ j', s'.db.jobs.row id = some j' ∧ atWork s' k id j' = true :=
    ⟨j, apart.kept id j row, by simpa only [atWork, executions] using work⟩
  rcases apart.single with entries | rows
  · -- The entry was in this status before, so its last open row is not taken for nothing.
    have same : busy s.db k = true := by rwa [← busy_congr (congrFun entries k)]
    rcases stripped with ((settled | none) | open_) | atwork
    · rw [same] at settled
      cases settled
    · rcases waiting with ⟨id, j, row, work⟩ | unfinished
      · obtain ⟨j', row', work'⟩ := jobs id j row work
        exact .inl ⟨id, j', row', work'⟩
      · omega
    · exact .inr open_
    · obtain ⟨id, j, row, work⟩ := Jobs.exists_iff.mp atwork
      obtain ⟨j', row', work'⟩ := jobs id j row work
      exact .inl ⟨id, j', row', work'⟩
  · apply waiting.move jobs
    intro r mem _
    rwa [rows]

theorem inv_request {i : RequestId} {r : Int × Thread Database (Option String)}
    {t : Thread Database (Option String)} {after : Database} (inv : Inv first s)
    (found : s.requests i = some r) (taken : r.2.step s.db = some (t, after))
    (ok : guarded s r.1 after = true) :
    Inv first { s.setRequest i (some (r.1, t)) with db := after } := by
  obtain ⟨related, within⟩ := Thread.step_within (inv.orderly.request i r found) taken
  have apart : Apart (some r.1) s.db after := by
    rcases related with rfl | apart
    · exact .refl _ _
    · exact apart
  have orderly : Orderly { s.setRequest i (some (r.1, t)) with db := after } :=
    ⟨inv.orderly.request_set within, inv.orderly.execution_kept apart.kept⟩
  refine ⟨orderly, fun k enqueued working => ?_⟩
  rcases enqueued_apart orderly apart enqueued with waits | before
  · exact waits
  · by_cases own : k = r.1
    · subst own
      exact waits_guarded apart rfl rfl ok (inv.waiting _ before) working
    · have other : some r.1 ≠ some k := fun same => own (Option.some.inj same).symm
      have same : busy s.db k = true := (busy_congr (apart.entry k other)).symm.trans working
      apply (inv.waiting k before same).move
      · exact fun id j row work => ⟨j, apart.kept id j row, work⟩
      · intro row mem entry
        exact (apart.row row (by rwa [entry])).mpr mem

theorem Orderly.execution_set (h : Orderly s) {id : JobId} {j : Job}
    {t : Thread Database (Option (Option String))} (row : s.db.jobs.row id = some j)
    (running : j.status = .running) (promised : Promised id j.entryId t) (id' : JobId)
    (t' : Thread Database (Option (Option String)))
    (found : (s.setExecution id (some t)).executions id' = some t') :
    ∃ j', s.db.jobs.row id' = some j' ∧ j'.status = .running ∧ Promised id' j'.entryId t' := by
  simp only [State.setExecution] at found
  split at found
  · next same =>
    cases found
    subst same
    exact ⟨j, row, running, promised⟩
  · exact h.execution id' t' found

/-- A thread whose context has ended owes nothing, and its job is at work until it ends. -/
theorem inv_dead {id : JobId} {t t' : Thread Database (Option (Option String))}
    (inv : Inv first s) (found : s.executions id = some t) (dead : t'.live = false) :
    Inv first (s.setExecution id (some t')) := by
  obtain ⟨j, row, running, _⟩ := inv.orderly.execution id t found
  have promised : Promised id j.entryId t' := by
    intro live
    rw [dead] at live
    cases live
  refine ⟨⟨inv.orderly.request, inv.orderly.execution_set row running promised⟩, ?_⟩
  intro k enqueued working
  apply (inv.waiting k enqueued working).move
  · intro id' j' row' work
    refine ⟨j', row', ?_⟩
    simp only [atWork, State.setExecution, Bool.and_eq_true, Bool.not_eq_true'] at work ⊢
    refine ⟨work.1, ?_⟩
    split
    · simp [spent, dead]
    · exact work.2
  · exact fun r mem _ => mem

/-- A statement on a live context: the job is still at work, or it leaves its entry attended. -/
theorem inv_statement {id : JobId} {t t' : Thread Database (Option (Option String))}
    {after : Database} (inv : Inv first s) (found : s.executions id = some t)
    (live : t.live = true) (taken : t.step s.db = some (t', after)) :
    Inv first { s.setExecution id (some t') with db := after } := by
  obtain ⟨j, row, running, promised⟩ := inv.orderly.execution id t found
  have held : Holds id j.entryId s.db := by
    intro j' row'
    rw [row] at row'
    cases row'
    rfl
  obtain ⟨stepped, keeps, _⟩ := Thread.Keeps.step promised live held taken
  have apart : Apart j.entryId s.db after := stepped.apart
  have row' : after.jobs.row id = some j := apart.kept id j row
  have orderly : Orderly { s.setExecution id (some t') with db := after } := by
    refine ⟨inv.orderly.request, ?_⟩
    intro id' u hu
    obtain ⟨j', old, running', promised'⟩ := inv.orderly.execution_set row running keeps id' u hu
    exact ⟨j', apart.kept id' j' old, running', promised'⟩
  refine ⟨orderly, fun k enqueued working => ?_⟩
  rcases enqueued_apart orderly apart enqueued with waits | before
  · exact waits
  · by_cases own : j.entryId = some k
    · by_cases last : spent t' = true
      · have attended : Attended j.entryId s.db after :=
          stepped.attended _ (rest_of_spent last).2 rfl
        exact waits_of_attended orderly apart attended own working
      · refine .inl ⟨id, j, row', ?_⟩
        simp [atWork, Coverage.live, running, own, State.setExecution, last]
    · have same : busy s.db k = true := (busy_congr (apart.entry k own)).symm.trans working
      apply (inv.waiting k before same).move
      · intro id' j' old work
        have other : id' ≠ id := by
          rintro rfl
          rw [row] at old
          cases old
          simp [atWork, own] at work
        exact ⟨j', apart.kept id' j' old, by simpa [atWork, State.setExecution, other] using work⟩
      · intro r mem entry
        exact (apart.row r (by rwa [entry])).mpr mem

theorem inv_claim {workerId : WorkerId} {limit : Nat} {exclude : List JobType}
    {envs : JobId → Runner.Env} {now : Int} (inv : Inv first s)
    (taken : step s (.claim workerId limit exclude envs now) = some s') : Inv first s' := by
  cases taken
  constructor
  · refine ⟨inv.orderly.request, fun id t found => ?_⟩
    dsimp only at found
    split at found
    · next mem =>
      cases found
      obtain ⟨j, row, _⟩ := queued_of_claimed mem
      obtain ⟨j', row', _, status⟩ := row_claimed row
      exact ⟨j', row', by rwa [if_pos mem] at status, promised_loadAndHandle _ _ _ _⟩
    · next other =>
      obtain ⟨j, row, running, promised⟩ := inv.orderly.execution id t found
      obtain ⟨j', row', _, same⟩ := row_claimed row
      rw [if_neg other] at same
      subst same
      exact ⟨j', row', running, promised⟩
  · intro k enqueued working
    obtain ⟨id, j', later, row', entry⟩ := enqueued
    obtain ⟨j, row, _⟩ := Jobs.row_updateWhere.mp row'
    obtain ⟨j'', row'', sameEntry, _⟩ := row_claimed row
    have sameRow := row''.symm.trans row'
    cases sameRow
    apply (inv.waiting k ⟨id, j, later, row, sameEntry ▸ entry⟩ working).move
    · intro id j row work
      obtain ⟨j', row', entry, status⟩ := row_claimed row
      refine ⟨j', row', ?_⟩
      simp only [atWork, live, Bool.and_eq_true, decide_eq_true_eq, entry] at work ⊢
      split at status
      · next mem => simp [mem, status, work.1.2, spent_loadAndHandle]
      · next other =>
        subst status
        simpa [other] using work
    · exact fun r mem _ => mem

variable {jobId : JobId} {now : Int} {last : Pipeline.Ending}

/-- The state after the end of a job. -/
def finished (s : State) (jobId : JobId) (now : Int) (last : Pipeline.Ending) : State :=
  { s.setExecution jobId none with db := last.written s.db jobId now }

/-- What the entry waited for next to this job is still to come. -/
theorem waits_without (h : waitsWithout s k jobId = true) : Waits (finished s jobId now last) k := by
  simp only [waitsWithout, Bool.or_eq_true, decide_eq_true_eq] at h
  rcases h with another | unfinished
  · obtain ⟨id, j, row, work⟩ := Jobs.exists_iff.mp another
    simp only [Bool.and_eq_true, decide_eq_true_eq] at work
    refine .inl ⟨id, j, row_written_of_ne work.1 row, ?_⟩
    simpa [atWork, finished, State.setExecution, work.1] using work.2
  · refine .inr ?_
    unfold Database.remaining finished at *
    simpa only [entries_written.2] using unfinished

/-- A job that was at work is so after its end, or it ended for good. -/
theorem waits_finished {j : Job} {left : Nat} {parentLive : Bool} (row : s.db.jobs.row jobId = some j)
    (work : atWork s k jobId j = true) (working : busy s.db k = true)
    (ended : lastWrite s jobId left parentLive = some last)
    (ok : inTime s (.finish jobId left parentLive now) = true) :
    Waits (finished s jobId now last) k := by
  simp only [atWork, Bool.and_eq_true, Bool.not_eq_true', decide_eq_true_eq] at work
  obtain ⟨⟨alive, entry⟩, unspent⟩ := work
  simp only [inTime, ended, Option.all_some] at ok
  have free (h : spare s jobId = true) : Waits (finished s jobId now last) k := by
    apply waits_without
    simpa [spare, row, entry, working] using h
  cases last with
  | kept =>
    refine .inl ⟨jobId, j, row, ?_⟩
    simp [atWork, alive, entry, finished, State.setExecution]
  | done =>
    obtain ⟨t, found, returned⟩ := Option.bind_eq_some_iff.mp ended
    split at returned
    · next value hrest =>
      obtain ⟨hvalue, hleft⟩ := Pipeline.ending_done (Option.some.inj returned)
      have live : t.live = true := by
        by_contra dead
        simp [dead] at hleft
      subst hvalue
      simp [found, spent, live, hrest] at unspent
    · cases returned
  | cancelled => exact free ok
  | failed errMsg attempts maxAttempts =>
    simp only [Bool.or_eq_true, decide_eq_true_eq] at ok
    rcases ok with more | spared
    · refine .inl ⟨jobId, (requeue jobId errMsg attempts now).set j, ?_, ?_⟩
      · refine Jobs.row_updateWhere.mpr ⟨j, row, ?_⟩
        simp [failWrite, Int.not_le.mpr more, requeue]
      · simp [atWork, live, requeue, entry, finished, State.setExecution]
    · exact free spared

theorem inv_finish {left : Nat} {parentLive : Bool} (inv : Inv first s)
    (ended : lastWrite s jobId left parentLive = some last)
    (ok : inTime s (.finish jobId left parentLive now) = true) :
    Inv first (finished s jobId now last) := by
  constructor
  · refine ⟨inv.orderly.request, fun id t found => ?_⟩
    simp only [finished, State.setExecution] at found
    split at found
    · cases found
    · next other =>
      obtain ⟨j, row, running, promised⟩ := inv.orderly.execution id t found
      exact ⟨j, row_written_of_ne other row, running, promised⟩
  · intro k enqueued working
    obtain ⟨id, j', later, row', entry⟩ := enqueued
    obtain ⟨j, row, same⟩ := row_written row'
    have entries : (finished s jobId now last).db.entries k = s.db.entries k :=
      congrFun entries_written.1 k
    have before : busy s.db k = true := (busy_congr entries).symm.trans working
    rcases inv.waiting k ⟨id, j, later, row, same ▸ entry⟩ before with ⟨id, j, row, work⟩ | unfinished
    · by_cases own : id = jobId
      · subst own
        exact waits_finished row work before ended ok
      · refine .inl ⟨id, j, row_written_of_ne own row, ?_⟩
        simpa [atWork, finished, State.setExecution, own] using work
    · apply waits_without
      simp [waitsWithout, unfinished]

theorem inv_start (db : Database) : Inv db.jobs.nextId (start db) where
  orderly := orderly_start db
  waiting k enqueued _ := by
    obtain ⟨id, j, later, row, _⟩ := enqueued
    have drawn := Jobs.lt_nextId row
    exact absurd later (Nat.not_le.mpr drawn)

theorem inv_step {a : Action} (inv : Inv first s) (ok : inTime s a = true)
    (taken : step s a = some s') : Inv first s' := by
  cases a with
  | reprocess request bulk entryId now =>
    exact inv_begin inv (within_handleEntryReprocess bulk now) taken
  | applyFlavors request env entryId flavorIds now =>
    exact inv_begin inv (within_applyFlavors env flavorIds now) taken
  | request request =>
    obtain ⟨r, found, taken⟩ := Option.bind_eq_some_iff.mp taken
    obtain ⟨after, stepped, rfl⟩ := Option.map_eq_some_iff.mp taken
    exact inv_request inv found stepped (by simpa [inTime, found, stepped] using ok)
  | disconnect request =>
    obtain ⟨r, found, rfl⟩ := Option.map_eq_some_iff.mp taken
    exact ⟨⟨inv.orderly.request_set (inv.orderly.request request r found),
      inv.orderly.execution⟩, inv.waiting⟩
  | claim workerId limit exclude envs now => exact inv_claim inv taken
  | statement jobId =>
    obtain ⟨t, found, taken⟩ := Option.bind_eq_some_iff.mp taken
    obtain ⟨after, stepped, rfl⟩ := Option.map_eq_some_iff.mp taken
    cases live : t.live with
    | true => exact inv_statement inv found live stepped
    | false =>
      obtain ⟨same, dead⟩ := Thread.step_dead live stepped
      have next : Inv first (s.setExecution jobId (some after.1)) := inv_dead inv found dead
      rw [same]
      exact next
  | expire jobId =>
    obtain ⟨t, found, rfl⟩ := Option.map_eq_some_iff.mp taken
    exact inv_dead inv found rfl
  | finish jobId left parentLive now =>
    obtain ⟨last, ended, rfl⟩ := Option.map_eq_some_iff.mp taken
    exact inv_finish inv ended ok

/-- However the statements of requests and workers interleave in time: once every job of an
entry has finished and every flavor row is final, the entry is ready or failed. -/
theorem finished_entries_settled (db₀ : Database) (trace : List Action) (s : State)
    (h : Run step (fun s a => inTime s a = true) (start db₀) trace s) (entryId : Int) (e : Entry)
    (found : s.db.entries entryId = some e)
    (enqueued : ∃ id j, db₀.jobs.nextId ≤ id ∧ s.db.jobs.row id = some j ∧
      j.entryId = some entryId)
    (jobs : ∀ id j, s.db.jobs.row id = some j → j.entryId = some entryId →
      j.status ≠ .queued ∧ j.status ≠ .running)
    (flavors : ∀ r ∈ s.db.entryFlavors.rows, r.entryId = entryId →
      r.status ≠ .pending ∧ r.status ≠ .transcoding) :
    e.status = .ready ∨ e.status = .failed := by
  have inv : Inv db₀.jobs.nextId s :=
    h.invariant (Inv db₀.jobs.nextId) (inv_start db₀) fun _ _ _ inv ok taken => inv_step inv ok taken
  by_contra open_
  have working : busy s.db entryId = true := by
    simpa [busy, found, not_or] using open_
  rcases inv.waiting entryId enqueued working with ⟨id, j, row, work⟩ | unfinished
  · simp only [atWork, live, Bool.and_eq_true, Bool.or_eq_true, decide_eq_true_eq] at work
    obtain ⟨queued, running⟩ := jobs id j row work.1.2
    exact work.1.1.elim queued running
  · obtain ⟨r, mem, entry, status⟩ := remaining_pos_iff.mp unfinished
    obtain ⟨pending, transcoding⟩ := flavors r mem entry
    simp [EntryFlavorStatus.unfinished, pending, transcoding] at status

open Unfinished (allWell flavor720)

/-- One entry that is ready, and an enabled flavor it does not have yet. -/
def oneEntry : Database where
  entries i := if i = 1 then some ⟨.ready, "sources/1/original.mp4".toList, some 1000, none, none⟩
    else none
  nextEntryId := 2
  flavors := [flavor720]
  nextFlavorId := 2
  entryFlavors := .empty
  jobs := Jobs.empty

/-- A worker claims the probe job, then the transcode job, and runs each to its end. -/
def workerSteps : List Action :=
  [.claim 7 1 [] (fun _ => allWell) 0] ++ List.replicate 8 (.statement 0) ++
    [.finish 0 1 true 0, .claim 7 1 [] (fun _ => allWell) 0] ++
    List.replicate 14 (.statement 1) ++ [.finish 1 1 true 0]

/-- Every job of the entry has finished, and every flavor row is final. -/
def allDone (db : Database) (entryId : Int) : Bool :=
  !(db.jobs.exists fun _ j => live j && j.entryId = some entryId) &&
    db.remaining entryId = 0

theorem jobs_of_allDone {db : Database} (h : allDone db k = true) {id : JobId} {j : Job}
    (row : db.jobs.row id = some j) (entry : j.entryId = some k) :
    j.status ≠ .queued ∧ j.status ≠ .running := by
  simp only [allDone, Bool.and_eq_true, Bool.not_eq_true'] at h
  have idle : ¬ live j = true := by
    intro alive
    have unfinished : db.jobs.exists (fun _ j => live j && j.entryId = some k) = true :=
      Jobs.exists_iff.mpr ⟨id, j, row, by simp [alive, entry]⟩
    rw [h.1] at unfinished
    cases unfinished
  simpa [live, not_or] using idle

theorem flavors_of_allDone {db : Database} (h : allDone db k = true) {r : EntryFlavor}
    (mem : r ∈ db.entryFlavors.rows) (entry : r.entryId = k) :
    r.status ≠ .pending ∧ r.status ≠ .transcoding := by
  simp only [allDone, Bool.and_eq_true, decide_eq_true_eq] at h
  have final : ¬ r.status.unfinished = true := by
    intro unfinished
    have open_ : 0 < db.remaining k := remaining_pos_iff.mpr ⟨r, mem, entry, unfinished⟩
    omega
  simpa [EntryFlavorStatus.unfinished, not_or] using final

/-- The request has completed before the worker claims its job. -/
theorem finished_entries_settled_reprocess :
    ∃ (s : State) (e : Entry), Run step (fun s a => inTime s a = true) (start oneEntry)
        ([.reprocess 0 false 1 0, .request 0, .request 0, .request 0] ++ workerSteps) s ∧
      s.db.entries 1 = some e ∧ (e.status = .ready ∨ e.status = .failed) := by
  obtain ⟨s, run, check⟩ : ∃ s : State, Run step (fun s a => inTime s a = true) (start oneEntry)
      ([.reprocess 0 false 1 0, .request 0, .request 0, .request 0] ++ workerSteps) s ∧
        (allDone s.db 1 && (s.db.entries 1).isSome &&
          s.db.jobs.exists fun _ j => j.entryId = some 1) = true :=
    exists_run (fun _ _ h => h) (by decide +kernel)
  simp only [Bool.and_eq_true] at check
  obtain ⟨⟨settled, present⟩, enqueued⟩ := check
  obtain ⟨e, found⟩ := Option.isSome_iff_exists.mp present
  obtain ⟨id, j, row, entry⟩ := Jobs.exists_iff.mp enqueued
  refine ⟨s, e, run, found, ?_⟩
  apply finished_entries_settled oneEntry _ s run 1 e found
  · exact ⟨id, j, Nat.zero_le id, row, of_decide_eq_true entry⟩
  · exact fun id j row entry => jobs_of_allDone settled row entry
  · exact fun r mem entry => flavors_of_allDone settled mem entry

/-- The worker probes, transcodes and finalizes between the `Enqueue` of the request and its
UPDATE, and the entry is probing for ever. -/
theorem late_status_strands_entry :
    ∃ (db₀ : Database) (trace : List Action) (s : State) (i : Int) (e : Entry),
      Run step Always (start db₀) trace s ∧ s.db.entries i = some e ∧
      (∃ id j, db₀.jobs.nextId ≤ id ∧ s.db.jobs.row id = some j ∧ j.entryId = some i) ∧
      (∀ id j, s.db.jobs.row id = some j → j.entryId = some i →
        j.status ≠ .queued ∧ j.status ≠ .running) ∧
      (∀ r ∈ s.db.entryFlavors.rows, r.entryId = i →
        r.status ≠ .pending ∧ r.status ≠ .transcoding) ∧
      ¬ (e.status = .ready ∨ e.status = .failed) := by
  obtain ⟨s, run, check⟩ : ∃ s : State, Run step Always (start oneEntry)
      ([.reprocess 0 false 1 0, .request 0, .request 0] ++ workerSteps ++ [.request 0]) s ∧
        (allDone s.db 1 && (s.db.entries 1).any (·.status = .probing) &&
          s.db.jobs.exists fun _ j => j.entryId = some 1) = true :=
    exists_always (by decide +kernel)
  simp only [Bool.and_eq_true] at check
  obtain ⟨⟨settled, stuck⟩, enqueued⟩ := check
  obtain ⟨e, found, probing⟩ := (Option.any_eq_true _ _).mp stuck
  obtain ⟨id, j, row, entry⟩ := Jobs.exists_iff.mp enqueued
  refine ⟨oneEntry, _, s, 1, e, run, found, ?_, ?_, ?_, ?_⟩
  · exact ⟨id, j, Nat.zero_le id, row, of_decide_eq_true entry⟩
  · exact fun id j row entry => jobs_of_allDone settled row entry
  · exact fun r mem entry => flavors_of_allDone settled mem entry
  · simp [of_decide_eq_true probing]

end Vidsilo.Jobs.LateStatus
