import Mathlib.Data.List.Perm.Subperm
import Vidsilo.Web.BatchRuns

/-!
# The loop of `startAll`

Source: web/lib/upload-store.ts:221-299, web/lib/idb.ts:41-55. A pending job is picked again and again
until its status changes, and a job whose file is nowhere keeps its status.
-/
namespace Vidsilo.Web.UploadStore
open Library Library.SlashPath Library.Transition

variable {Id : Type}

/-- How many jobs wait to be started. -/
def State.pending (s : State Id) : Nat := s.jobs.list.countP UploadJob.isPending

def Jobs.Pending (jobs : Jobs Id) (id : Id) : Prop :=
  ∃ job ∈ jobs.list, job.id = id ∧ job.isPending = true

def Jobs.pendingIds (jobs : Jobs Id) : List Id :=
  (jobs.list.filter UploadJob.isPending).map UploadJob.id

theorem mem_pendingIds {jobs : Jobs Id} {id : Id} : id ∈ jobs.pendingIds ↔ jobs.Pending id := by
  simp only [Jobs.pendingIds, Jobs.Pending, List.mem_map, List.mem_filter]
  constructor
  · rintro ⟨job, ⟨mem, pending⟩, same⟩
    exact ⟨job, mem, same, pending⟩
  · rintro ⟨job, mem, same, pending⟩
    exact ⟨job, ⟨mem, pending⟩, same⟩

theorem nodup_pendingIds (jobs : Jobs Id) : jobs.pendingIds.Nodup :=
  jobs.distinct.sublist (List.Sublist.map _ List.filter_sublist)

theorem length_pendingIds (s : State Id) : s.jobs.pendingIds.length = s.pending := by
  rw [Jobs.pendingIds, List.length_map, State.pending, List.countP_eq_length_filter]

theorem pending_le {s s' : State Id} (still : ∀ id, s'.jobs.Pending id → s.jobs.Pending id) :
    s'.pending ≤ s.pending := by
  have subset : s'.jobs.pendingIds ⊆ s.jobs.pendingIds :=
    fun id mem => mem_pendingIds.mpr (still id (mem_pendingIds.mp mem))
  rw [← length_pendingIds, ← length_pendingIds]
  exact (List.subperm_of_subset (nodup_pendingIds _) subset).length_le

/-- The job with the id has ceased to wait. -/
theorem pending_lt {s s' : State Id} (id : Id)
    (still : ∀ id, s'.jobs.Pending id → s.jobs.Pending id) (before : s.jobs.Pending id)
    (after : ¬ s'.jobs.Pending id) : s'.pending < s.pending := by
  have subset : id :: s'.jobs.pendingIds ⊆ s.jobs.pendingIds := by
    intro other mem
    rcases List.mem_cons.mp mem with rfl | mem
    · exact mem_pendingIds.mpr before
    · exact mem_pendingIds.mpr (still other (mem_pendingIds.mp mem))
  have nodup : (id :: s'.jobs.pendingIds).Nodup :=
    List.nodup_cons.mpr ⟨fun mem => after (mem_pendingIds.mp mem), nodup_pendingIds _⟩
  have shorter := (List.subperm_of_subset nodup subset).length_le
  rw [List.length_cons, length_pendingIds, length_pendingIds] at shorter
  exact shorter

/-- The patch makes a job wait. -/
def Patch.requeues (patch : Patch) : Bool :=
  patch.status = some .queued || patch.status = some .interrupted

theorem isPending_patch {job : UploadJob Id} {patch : Patch} (settled : patch.requeues = false)
    (pending : (job.patch patch).isPending = true) : job.isPending = true ∧ patch.status = none := by
  unfold UploadJob.isPending UploadJob.patch at pending
  unfold Patch.requeues at settled
  cases status : patch.status with
  | none => simpa [UploadJob.isPending, status] using pending
  | some now => cases now <;> simp [status] at settled pending

theorem pending_filter {jobs : Jobs Id} {keep : UploadJob Id → Bool} {other : Id}
    (pending : (jobs.filter keep).Pending other) :
    ∃ job ∈ jobs.list, keep job = true ∧ job.id = other ∧ job.isPending = true := by
  obtain ⟨job, mem, same, isPending⟩ := pending
  obtain ⟨mem, kept⟩ := List.mem_filter.mp mem
  exact ⟨job, mem, kept, same, isPending⟩

theorem not_pending_none (id : Id) : ¬ (Jobs.none : Jobs Id).Pending id := by
  simp [Jobs.Pending, Jobs.none]

/-- No file is added, no job is made to wait again, and the page and `startAll` are not started
again. -/
def Quiet (_ : State Id) : Action Id → Prop
  | .addFiles _ _ | .reload _ | .startAll => False
  | .updateJob _ patch _ => patch.requeues = false
  | _ => True

/-- Jobs cease to wait, and those that go on waiting keep their files. -/
structure Settles (s s' : State Id) : Prop where
  pending : ∀ id, s'.jobs.Pending id → s.jobs.Pending id
  files : ∀ id, s'.jobs.Pending id → id ∈ s.files → id ∈ s'.files
  idb : ∀ id, s'.jobs.Pending id → id ∈ s.idb → id ∈ s'.idb

theorem settles_same {s s' : State Id} (jobs : s'.jobs = s.jobs) (files : s'.files = s.files)
    (idb : s'.idb = s.idb) : Settles s s' := by
  refine ⟨fun id pending => ?_, fun id _ mem => ?_, fun id _ mem => ?_⟩
  · rwa [jobs] at pending
  · rwa [files]
  · rwa [idb]

theorem settles_empty {s s' : State Id} (jobs : s'.jobs = .none) : Settles s s' := by
  have none : ∀ id, ¬ s'.jobs.Pending id := by
    rw [jobs]
    exact not_pending_none
  exact ⟨fun id h => absurd h (none id), fun id h => absurd h (none id),
    fun id h => absurd h (none id)⟩

variable [DecidableEq Id]

theorem pending_update {jobs : Jobs Id} (patch : Patch) {id other : Id}
    (settled : patch.requeues = false) (pending : (jobs.update id patch).Pending other) :
    jobs.Pending other ∧ (other = id → patch.status = none) := by
  obtain ⟨job, mem, same, isPending⟩ := pending
  obtain ⟨old, listed, rfl⟩ := List.mem_map.mp mem
  by_cases own : old.id = id
  · simp only [own, if_true] at same isPending
    obtain ⟨isPending, unchanged⟩ := isPending_patch settled isPending
    exact ⟨⟨old, listed, same, isPending⟩, fun _ => unchanged⟩
  · simp only [own, if_false] at same isPending
    exact ⟨⟨old, listed, same, isPending⟩, fun isId => absurd (same.trans isId) own⟩

theorem pending_update_other {jobs : Jobs Id} {patch : Patch} {id other : Id} (ne : other ≠ id)
    (pending : jobs.Pending other) : (jobs.update id patch).Pending other := by
  obtain ⟨job, mem, rfl, isPending⟩ := pending
  exact ⟨_, List.mem_map_of_mem mem, by simp [ne], by simp [ne, isPending]⟩

theorem settles_update {s s' : State Id} (patch : Patch) {id : Id} (settled : patch.requeues = false)
    (jobs : s'.jobs = s.jobs.update id patch) (files : ∀ other, other ∈ s.files → other ∈ s'.files)
    (idb : ∀ other, (other = id → patch.status = none) → other ∈ s.idb → other ∈ s'.idb) :
    Settles s s' := by
  refine ⟨fun other pending => ?_, fun other _ => files other, fun other pending => ?_⟩
  · rw [jobs] at pending
    exact (pending_update patch settled pending).1
  · rw [jobs] at pending
    exact idb other (pending_update patch settled pending).2

theorem settles_launch {s t : State Id} (job : UploadJob Id) (file : File) (stored : Bool)
    (jobs : t.jobs = s.jobs) (files : ∀ id, id ∈ s.files → id ∈ t.files) (idb : t.idb = s.idb) :
    Settles s (t.launch job file stored).1 ∧ ¬ (t.launch job file stored).1.jobs.Pending job.id := by
  obtain ⟨jobs', files', idb', -⟩ := launch_eq job file stored t
  constructor
  · refine settles_update started rfl (jobs'.trans (by rw [jobs])) ?_ ?_
    · rw [files']
      exact files
    · rw [idb', idb]
      exact fun _ _ mem => mem
  · rw [jobs']
    intro pending
    cases (pending_update started rfl pending).2 rfl

theorem settles_callback {s : State Id} {number now : Nat} {upload : Upload Id} {stored : Bool}
    (call : Callback) : Settles s (s.callback number upload now stored call) := by
  cases call with
  | onProgress bytesSent bytesTotal =>
    exact settles_update _ (by rfl) (updateJob_jobs _ _ _ _) (by simp [State.callback])
      (by simp [State.callback])
  | onUploadUrlAvailable url =>
    exact settles_update _ (by rfl) (updateJob_jobs _ _ _ _) (by simp [State.callback])
      (by simp [State.callback])
  | onSuccess =>
    refine settles_update _ (by rfl) (updateJob_jobs _ _ _ _) (by simp [State.callback, State.settle]) ?_
    simp only [State.callback, State.settle, updateJob_idb, AList.mem_erase]
    intro other own mem
    refine ⟨fun same => ?_, mem⟩
    cases own same
  | onError message =>
    exact settles_update _ (by rfl) (updateJob_jobs _ _ _ _) (by simp [State.callback, State.settle])
      (by simp [State.callback, State.settle])

theorem settles_startJob (s : State Id) (id : Id) (stored : Bool) :
    Settles s (s.startJob id stored).1 := by
  obtain ⟨returns, -⟩ | ⟨job, -, -, -, ⟨-, reads⟩ | ⟨file, -, launches⟩⟩ := startJob_cases s id stored
  · rw [returns]
    exact settles_same rfl rfl rfl
  · rw [reads]
    exact settles_same rfl rfl rfl
  · rw [launches]
    exact (settles_launch job file stored rfl (fun _ mem => mem) rfl).1

theorem settles_resume {s : State Id} {stored : Bool} {await : Await Id}
    {next : State Id × Option (Await Id)} (ends : s.resume stored await = some next) :
    Settles s next.1 := by
  obtain ⟨job, -, rfl⟩ | ⟨job, -, rfl⟩ | ⟨job, file, -, rfl⟩ | ⟨number, upload, -, -, -, rfl⟩ :=
    resume_cases ends
  · exact settles_same rfl rfl rfl
  · exact settles_same rfl rfl rfl
  · refine (settles_launch (s := s) (t := { s with files := s.files.insert job.id file }) job file
      stored rfl (fun id mem => ?_) rfl).1
    exact (AList.mem_insert _).mpr (.inr mem)
  · exact settles_same rfl rfl rfl

theorem settles_removeJob (s : State Id) (id : Id) (stored : Bool) :
    Settles s (s.removeJob id stored) := by
  have listed : ∀ other, (s.removeJob id stored).jobs.Pending other →
      other ≠ id ∧ s.jobs.Pending other := by
    intro other pending
    have jobs : (s.removeJob id stored).jobs = s.jobs.filter (·.id ≠ id) := by
      cases active : s.activeUploads.lookup id <;> simp [State.removeJob, active, State.abort]
    rw [jobs] at pending
    obtain ⟨job, mem, kept, rfl, isPending⟩ := pending_filter pending
    exact ⟨by simpa using kept, job, mem, rfl, isPending⟩
  refine ⟨fun other pending => (listed other pending).2, fun other pending mem => ?_,
    fun other pending mem => ?_⟩
  · have ne := (listed other pending).1
    cases active : s.activeUploads.lookup id <;>
      simp [State.removeJob, active, State.abort, AList.mem_erase, ne, mem]
  · have ne := (listed other pending).1
    cases active : s.activeUploads.lookup id <;>
      simp [State.removeJob, active, State.abort, AList.mem_erase, ne, mem]

/-- Every job that waits has its file in memory or in IndexedDB. -/
def Stocked (s : State Id) : Prop :=
  ∀ job ∈ s.jobs.list, job.isPending = true → job.id ∈ s.files ∨ job.id ∈ s.idb

/-- The job that the batch is about to launch. -/
def State.held (s : State Id) : Option Id :=
  match s.batch with
  | .inside (.blob job) | .inside (.file job (some _)) => some job.id
  | _ => none

/-- An upper bound of the iterations to come. -/
def State.left (s : State Id) : Nat :=
  if s.batch = .idle then 0
  else
    match s.held with
    | some id => if id ∈ s.jobs.pendingIds then s.pending else s.pending + 1
    | none => s.pending + 1

/-- The file of a job that the batch reads is there, as long as the job waits. -/
structure Good (s : State Id) : Prop where
  stocked : Stocked s
  reads : ∀ job, s.batch = .inside (.blob job) → s.jobs.Pending job.id → job.id ∈ s.idb

def Action.isNext : Action Id → Bool
  | .next _ => true
  | _ => false

omit [DecidableEq Id] in
theorem Good.settles {s s' : State Id} (good : Good s) (settles : Settles s s')
    (reads : ∀ job, s'.batch = .inside (.blob job) → s'.jobs.Pending job.id → job.id ∈ s'.idb) :
    Good s' := by
  refine ⟨fun job mem isPending => ?_, reads⟩
  have pending : s'.jobs.Pending job.id := ⟨job, mem, rfl, isPending⟩
  obtain ⟨old, listed, same, waited⟩ := settles.pending job.id pending
  rcases good.stocked old listed waited with inMemory | inIdb
  · exact .inl (settles.files job.id pending (same ▸ inMemory))
  · exact .inr (settles.idb job.id pending (same ▸ inIdb))

/-- Where the batch stays where it is. -/
theorem Good.stays {s s' : State Id} (good : Good s) (settles : Settles s s')
    (batch : s'.batch = s.batch) : Good s' ∧ s'.left ≤ s.left := by
  refine ⟨good.settles settles fun job reading pending => ?_, ?_⟩
  · exact settles.idb job.id pending
      (good.reads job (batch.symm.trans reading) (settles.pending job.id pending))
  · have fewer := pending_le settles.pending
    have sameHeld : s'.held = s.held := by
      rw [State.held, State.held, batch]
    unfold State.left
    rw [batch, sameHeld]
    split
    · exact Nat.le_refl 0
    · cases s.held with
      | none => exact Nat.succ_le_succ fewer
      | some id =>
        dsimp only
        have still : id ∈ s'.jobs.pendingIds → id ∈ s.jobs.pendingIds :=
          fun after => mem_pendingIds.mpr (settles.pending id (mem_pendingIds.mp after))
        by_cases after : id ∈ s'.jobs.pendingIds
        · rw [if_pos after, if_pos (still after)]
          exact fewer
        · rw [if_neg after]
          split
          next before =>
            exact pending_lt _ settles.pending (mem_pendingIds.mp before)
              fun pending => after (mem_pendingIds.mpr pending)
          · omega

omit [DecidableEq Id] in
theorem pending_waiting (t : State Id) (batch : Batch Id) :
    { t with batch := batch }.pending = t.pending := rfl

theorem left_waiting (t : State Id) (number : Nat) :
    (State.goOn .startAll (t, some (.upload number))).left = t.pending + 1 := by
  simp [State.left, State.held, State.goOn, pending_waiting]

/-- A new iteration starts with the file of the next job. -/
theorem Good.next {s s' : State Id} {stored : Bool} (good : Good s)
    (taken : step s (.next stored) = some s') : Good s' ∧ s'.left + 1 ≤ s.left := by
  obtain ⟨atHead, ⟨-, rfl⟩ | ⟨job, found, rfl⟩⟩ := next_cases taken
  · refine ⟨good.settles (settles_same rfl rfl rfl) fun job reading => ?_, ?_⟩
    · cases reading
    · simp [State.left, State.held, atHead]
  · have mem := List.mem_of_find?_eq_some found
    have isPending := List.find?_some found
    have own := find?_id mem
    have whole : s.left = s.pending + 1 := by
      simp [State.left, State.held, atHead]
    obtain ⟨-, begun⟩ | ⟨job', found', -, -, ⟨none, reads⟩ | ⟨file, -, launches⟩⟩ :=
      startJob_cases s job.id stored
    · rcases begun job own with status | status <;> simp [UploadJob.isPending, status] at isPending
    · cases own.symm.trans found'
      rw [reads, whole]
      refine ⟨good.settles (settles_same rfl rfl rfl) fun held reading pending => ?_, ?_⟩
      · cases reading
        refine (good.stocked job mem isPending).resolve_left fun inMemory => ?_
        exact absurd inMemory (AList.lookup_eq_none.mp none)
      · have waits : job.id ∈ s.jobs.pendingIds := mem_pendingIds.mpr ⟨job, mem, rfl, isPending⟩
        have left : State.left (State.goOn .startAll (s, some (.blob job))) = s.pending := by
          simp [State.left, State.held, State.goOn, waits, State.pending]
        omega
    · cases own.symm.trans found'
      obtain ⟨settles, launched⟩ := settles_launch (s := s) job file stored rfl (fun _ mem => mem) rfl
      have less := pending_lt _ settles.pending ⟨job, mem, rfl, isPending⟩ launched
      obtain ⟨-, -, -, waits⟩ := launch_eq job file stored s
      rw [launches, whole]
      generalize s.launch job file stored = next at *
      obtain ⟨t, await⟩ := next
      cases waits
      refine ⟨good.settles ⟨settles.pending, settles.files, settles.idb⟩ fun held reading => ?_, ?_⟩
      · cases reading
      · rw [left_waiting]
        exact Nat.succ_le_succ less

/-- The call of the current iteration goes on. -/
theorem Good.resume {s s' : State Id} {stored : Bool} (good : Good s)
    (taken : step s (.resume .startAll stored) = some s') : Good s' ∧ s'.left ≤ s.left := by
  obtain ⟨await, waits, ends⟩ := Option.bind_eq_some_iff.mp taken
  obtain ⟨next, ended, rfl⟩ := Option.map_eq_some_iff.mp ends
  have inside : s.batch = .inside await := by
    unfold State.await at waits
    dsimp only at waits
    split at waits
    · cases waits
      assumption
    · cases waits
  obtain ⟨job, rfl, rfl⟩ | ⟨job, rfl, rfl⟩ | ⟨job, file, rfl, rfl⟩ | ⟨number, upload, rfl, -, -, rfl⟩ :=
    resume_cases ended
  · refine ⟨good.settles (settles_same rfl rfl rfl) fun held reading => ?_, ?_⟩
    · cases reading
    · cases read : s.idb.lookup job.id with
      | some file =>
        simp only [State.left, State.held, State.goOn, State.pending, inside, reduceCtorEq, if_false]
        exact Nat.le_refl _
      | none =>
        have gone : job.id ∉ s.jobs.pendingIds := by
          intro mem
          have there := good.reads job inside (mem_pendingIds.mp mem)
          exact AList.lookup_eq_none.mp read there
        simp [State.left, State.held, State.goOn, State.pending, inside, gone]
  · refine ⟨good.settles (settles_same rfl rfl rfl) fun held reading => ?_, ?_⟩
    · cases reading
    · simp [State.left, State.held, State.goOn, State.pending, inside]
  · obtain ⟨settles, launched⟩ := settles_launch (s := s)
      (t := { s with files := s.files.insert job.id file }) job file stored rfl
      (fun id mem => (AList.mem_insert _).mpr (.inr mem)) rfl
    have fewer := pending_le settles.pending
    have less (mem : job.id ∈ s.jobs.pendingIds) :=
      pending_lt _ settles.pending (mem_pendingIds.mp mem) launched
    obtain ⟨-, -, -, waits⟩ := launch_eq job file stored { s with files := s.files.insert job.id file }
    generalize { s with files := s.files.insert job.id file }.launch job file stored = next at *
    obtain ⟨t, await⟩ := next
    cases waits
    refine ⟨good.settles ⟨settles.pending, settles.files, settles.idb⟩ fun held reading => ?_, ?_⟩
    · cases reading
    · have whole : s.left = if job.id ∈ s.jobs.pendingIds then s.pending else s.pending + 1 := by
        simp [State.left, State.held, inside]
      rw [left_waiting, whole]
      split
      next mem => exact less mem
      · exact Nat.succ_le_succ fewer
  · refine ⟨good.settles (settles_same rfl rfl rfl) fun held reading => ?_, ?_⟩
    · cases reading
    · simp [State.left, State.held, State.goOn, State.pending, inside]

theorem quiet_step {s s' : State Id} {action : Action Id} (good : Good s) (quiet : Quiet s action)
    (taken : step s action = some s') :
    Good s' ∧ s'.left + [action].countP Action.isNext ≤ s.left := by
  cases action with
  | addFiles newFiles stored => cases quiet
  | reload now => cases quiet
  | startAll => cases quiet
  | next stored => exact good.next taken
  | updateJob id patch stored =>
    cases taken
    refine good.stays (settles_update _ quiet (updateJob_jobs _ _ _ _) ?_ ?_) (updateJob_batch _ _ _ _)
    · simp
    · simp
  | removeJob id stored =>
    cases taken
    refine good.stays (settles_removeJob s id stored) ?_
    cases active : s.activeUploads.lookup id <;> simp [State.removeJob, active, State.abort]
  | resetIdle stored =>
    cases taken
    unfold State.resetIdle
    split
    · exact good.stays (settles_empty (persist_jobs _ _)) (persist_batch _ _)
    · exact good.stays (settles_same rfl rfl rfl) rfl
  | clearUploads stored =>
    cases taken
    refine good.stays (settles_empty (persist_jobs _ _)) ?_
    simpa [State.clearUploads] using congrArg State.batch (abortAll_eq s)
  | clearAllUploads stored =>
    cases taken
    refine good.stays (settles_empty (persist_jobs _ _)) ?_
    simpa [State.clearAllUploads] using congrArg State.batch (abortAll_eq s)
  | startJob id stored =>
    have settles := settles_startJob s id stored
    have batch := (grows_startJob s id stored).batch
    unfold step at taken
    dsimp only at taken
    split at taken
    all_goals
      next made =>
        rw [made] at settles batch
        cases taken
        exact good.stays ⟨settles.pending, settles.files, settles.idb⟩ batch
  | resume who stored =>
    cases who with
    | startAll => exact good.resume taken
    | other i =>
      obtain ⟨await, -, ends⟩ := Option.bind_eq_some_iff.mp taken
      obtain ⟨next, ended, rfl⟩ := Option.map_eq_some_iff.mp ends
      have settles := settles_resume ended
      have batch := (grows_resume ended).batch
      refine good.stays ⟨?_, ?_, ?_⟩ ?_
      · simpa using settles.pending
      · simpa using settles.files
      · simpa using settles.idb
      · obtain ⟨t, await⟩ := next
        cases await <;> exact batch
  | callback number now stored call =>
    obtain ⟨upload, -, -, rfl⟩ := callback_cases taken
    refine good.stays (settles_callback call) ?_
    cases call <;> simp [State.callback, State.settle]

/-- The end of an iteration that began in the first state. -/
def Iteration (s s' : State Id) : Prop :=
  s'.batch = .head ∧ ∃ stored mid trace, step s (.next stored) = some mid ∧
    Run step (fun t action => Quiet t action ∧ action.isNext = false) mid trace s'

/-- A call of `startAll` has finitely many iterations, and each leaves fewer jobs to start or ends
the loop. -/
structure LoopEnds (s : State Id) : Prop where
  bounded : ∃ bound, ∀ trace s', Run step Quiet { s with batch := .head } trace s' →
    trace.countP Action.isNext ≤ bound
  decreases : ∀ trace t t', Run step Quiet { s with batch := .head } trace t → Iteration t t' →
    t'.pending < t.pending

theorem run_left {s s' : State Id} {trace : List (Action Id)} {cond : State Id → Action Id → Prop}
    (quiet : ∀ t action, cond t action → Quiet t action) (good : Good s)
    (run : Run step cond s trace s') : Good s' ∧ s'.left + trace.countP Action.isNext ≤ s.left := by
  refine run.trace_invariant (fun trace t => Good t ∧ t.left + trace.countP Action.isNext ≤ s.left)
    ⟨good, Nat.le_refl _⟩ fun before t action t' holds meets taken => ?_
  obtain ⟨good', less⟩ := quiet_step holds.1 (quiet t action meets) taken
  rw [List.countP_append]
  have sofar := holds.2
  exact ⟨good', by omega⟩

omit [DecidableEq Id] in
theorem good_head {s : State Id} (stocked : Stocked s) : Good { s with batch := .head } := by
  refine ⟨stocked, fun job reading => ?_⟩
  cases reading

theorem left_head {s : State Id} (atHead : s.batch = .head) : s.left = s.pending + 1 := by
  simp [State.left, State.held, atHead]

theorem loopEnds {s : State Id} (stocked : Stocked s) : LoopEnds s := by
  have good := good_head stocked
  refine ⟨⟨s.pending + 1, fun trace s' run => ?_⟩, fun trace t t' run iteration => ?_⟩
  · have all := (run_left (fun _ _ quiet => quiet) good run).2
    have whole : State.left { s with batch := .head } = s.pending + 1 := left_head rfl
    omega
  · obtain ⟨atHead, stored, mid, later, begins, rest⟩ := iteration
    have goodT := (run_left (fun _ _ quiet => quiet) good run).1
    obtain ⟨fromHead, -⟩ := next_cases begins
    obtain ⟨goodMid, first⟩ := goodT.next begins
    have after := (run_left (fun _ _ meets => meets.1) goodMid rest).2
    rw [left_head atHead] at after
    rw [left_head fromHead] at first
    omega

def failing (message : Text) (now : Nat) : Patch :=
  { Patch.nothing with status := some .failed, error := some (some message), finishedAt := some now }

/-- An upload that is launched may fail, and the loop comes back to its head. -/
theorem fails (s : State Id) (job : UploadJob Id) (file : File) :
    ∃ trace s', Run step Quiet (State.goOn .startAll (s.launch job file true)) trace s' ∧
      s'.batch = .head ∧ s'.jobs = (s.jobs.update job.id started).update job.id (failing [] 0) ∧
      s'.files = s.files ∧ s'.idb = s.idb := by
  obtain ⟨jobs, files, idb, waits⟩ := launch_eq job file true s
  have uploads : (s.launch job file true).1.uploads =
      s.uploads ++ [⟨job.id, file, job.uploadUrl, .running⟩] := by
    simp [State.launch]
  generalize s.launch job file true = next at *
  obtain ⟨t, await⟩ := next
  cases waits
  dsimp only at jobs files idb uploads
  have found : t.uploads[s.uploads.length]? = some ⟨job.id, file, job.uploadUrl, .running⟩ := by
    rw [uploads]
    exact List.getElem?_concat_length
  let inside : State Id := { t with batch := .inside (.upload s.uploads.length) }
  let failed : State Id := inside.callback s.uploads.length ⟨job.id, file, job.uploadUrl, .running⟩ 0
    true (.onError [])
  have first : step inside (.callback s.uploads.length 0 true (.onError [])) = some failed := by
    simp [step, inside, failed, found]
  have second : step failed (.resume .startAll true) = some { failed with batch := .head } := by
    simp [step, inside, failed, State.callback, State.settle, State.await, State.resume, State.goOn,
      found]
  have run : Run step Quiet inside [.callback s.uploads.length 0 true (.onError []),
      .resume .startAll true] { failed with batch := .head } :=
    .next (.next .start trivial first) trivial second
  refine ⟨_, _, run, rfl, ?_, ?_, ?_⟩
  · simp [failed, inside, State.callback, State.settle, jobs, failing]
  · simp [failed, inside, State.callback, State.settle, files]
  · simp [failed, inside, State.callback, State.settle, idb]

/-- One iteration whose file is there and whose upload fails. -/
theorem upload_round {s : State Id} {job : UploadJob Id} (atHead : s.batch = .head)
    (found : s.jobs.list.find? UploadJob.isPending = some job)
    (blob : job.id ∈ s.files ∨ job.id ∈ s.idb) :
    ∃ trace s', Run step Quiet s trace s' ∧ s'.batch = .head ∧
      s'.jobs = (s.jobs.update job.id started).update job.id (failing [] 0) ∧
      (∀ id, id ≠ job.id → id ∈ s'.files → id ∈ s.files) ∧ s'.idb = s.idb := by
  have own := find?_id (List.mem_of_find?_eq_some found)
  have isPending := List.find?_some found
  have idle : ¬ (job.status = .uploading ∨ job.status = .done) := by
    rintro (status | status) <;> simp [UploadJob.isPending, status] at isPending
  cases inMemory : s.files.lookup job.id with
  | some file =>
    have first : step s (.next true) = some (State.goOn .startAll (s.launch job file true)) := by
      simp [step, atHead, found, State.startJob, own, idle, inMemory]
    obtain ⟨trace, s', run, atHead', jobs, files, idb⟩ := fails s job file
    have whole : Run step Quiet s (.next true :: trace) s' := run.prepend trivial first
    refine ⟨_, s', whole, atHead', jobs, fun id _ => ?_, idb⟩
    rw [files]
    exact fun mem => mem
  | none =>
    have missing : job.id ∉ s.files := AList.lookup_eq_none.mp inMemory
    obtain ⟨file, inIdb⟩ := Option.isSome_iff_exists.mp
      (AList.lookup_isSome.mpr (blob.resolve_left missing))
    let reading : State Id := { s with batch := .inside (.blob job) }
    let read : State Id := { s with batch := .inside (.file job (some file)) }
    have first : step s (.next true) = some reading := by
      simp [step, atHead, found, State.startJob, own, idle, inMemory, reading, State.goOn]
    have second : step reading (.resume .startAll true) = some read := by
      simp [step, reading, read, State.await, State.resume, State.goOn, inIdb]
    have third : step read (.resume .startAll true) = some (State.goOn .startAll
        ({ read with files := s.files.insert job.id file }.launch job file true)) := by
      simp [step, read, State.await, State.resume]
    obtain ⟨trace, s', run, atHead', jobs, files, idb⟩ :=
      fails { read with files := s.files.insert job.id file } job file
    have fromRead : Run step Quiet read (.resume .startAll true :: trace) s' :=
      run.prepend trivial third
    have fromReading : Run step Quiet reading
        (.resume .startAll true :: .resume .startAll true :: trace) s' :=
      fromRead.prepend trivial second
    have whole : Run step Quiet s
        (.next true :: .resume .startAll true :: .resume .startAll true :: trace) s' :=
      fromReading.prepend trivial first
    refine ⟨_, s', whole, atHead', jobs, fun id ne => ?_, idb⟩
    rw [files, AList.mem_insert]
    exact fun mem => mem.resolve_left ne

/-- One iteration whose file is nowhere changes nothing. -/
theorem empty_round {s : State Id} {job : UploadJob Id} (atHead : s.batch = .head)
    (found : s.jobs.list.find? UploadJob.isPending = some job) (noFile : job.id ∉ s.files)
    (noBlob : job.id ∉ s.idb) : Iteration s s := by
  have own := find?_id (List.mem_of_find?_eq_some found)
  have isPending := List.find?_some found
  have idle : ¬ (job.status = .uploading ∨ job.status = .done) := by
    rintro (status | status) <;> simp [UploadJob.isPending, status] at isPending
  have inMemory := AList.lookup_eq_none.mpr noFile
  have inIdb := AList.lookup_eq_none.mpr noBlob
  let reading : State Id := { s with batch := .inside (.blob job) }
  let read : State Id := { s with batch := .inside (.file job none) }
  have first : step s (.next true) = some reading := by
    simp [step, atHead, found, State.startJob, own, idle, inMemory, reading, State.goOn]
  have second : step reading (.resume .startAll true) = some read := by
    simp [step, reading, read, State.await, State.resume, State.goOn, inIdb]
  have third : step read (.resume .startAll true) = some s := by
    simp [step, read, State.await, State.resume, State.goOn, ← atHead]
  refine ⟨atHead, true, reading, [.resume .startAll true, .resume .startAll true], first, ?_⟩
  exact .next (.next .start ⟨trivial, rfl⟩ second) ⟨trivial, rfl⟩ third

/-- A job without a file is reached once those before it have failed. The induction is on the number
of jobs that wait. -/
theorem reaches_missing {s : State Id} {id : Id} (atHead : s.batch = .head)
    (waits : s.jobs.Pending id) (noFile : id ∉ s.files) (noBlob : id ∉ s.idb) :
    ∃ trace t, Run step Quiet s trace t ∧ Iteration t t := by
  induction count : s.pending using Nat.strong_induction_on generalizing s with
  | _ n ih =>
    subst count
    obtain ⟨missing, listed, rfl, isPending⟩ := waits
    cases found : s.jobs.list.find? UploadJob.isPending with
    | none => exact absurd isPending (List.find?_eq_none.mp found missing listed)
    | some job =>
      by_cases blob : job.id ∈ s.files ∨ job.id ∈ s.idb
      · obtain ⟨trace, s', run, atHead', jobs, files, idb⟩ := upload_round atHead found blob
        have ne : missing.id ≠ job.id := by
          intro same
          rw [← same] at blob
          exact blob.elim noFile noBlob
        have still : s'.jobs.Pending missing.id := by
          rw [jobs]
          exact pending_update_other ne (pending_update_other ne ⟨missing, listed, rfl, isPending⟩)
        have fewer : s'.pending < s.pending := by
          refine pending_lt job.id (fun other pending => ?_)
            ⟨job, List.mem_of_find?_eq_some found, rfl, List.find?_some found⟩ fun pending => ?_
          · rw [jobs] at pending
            exact (pending_update started rfl
              (pending_update (failing [] 0) rfl pending).1).1
          · rw [jobs] at pending
            cases (pending_update (failing [] 0) rfl pending).2 rfl
        obtain ⟨later, t, run', stuck⟩ := ih _ fewer atHead' still
          (fun mem => noFile (files _ ne mem)) (fun mem => noBlob (idb ▸ mem)) rfl
        exact ⟨_, t, run.append run', stuck⟩
      · rw [not_or] at blob
        exact ⟨[], s, .start, empty_round atHead found blob.1 blob.2⟩

/-- The loop of `startAll` ends exactly where every job that waits has its file. -/
theorem startAll_ends_iff (s : State Id) : LoopEnds s ↔ Stocked s := by
  constructor
  · intro ends job mem isPending
    by_contra missing
    rw [not_or] at missing
    obtain ⟨trace, t, run, stuck⟩ := reaches_missing (s := { s with batch := .head }) rfl
      ⟨job, mem, rfl, isPending⟩ missing.1 missing.2
    exact Nat.lt_irrefl _ (ends.decreases trace t t run stuck)
  · exact loopEnds

/-- A page after a reload with an interrupted job whose blob is gone. -/
def blobGone : State Nat :=
  { State.first with
    jobs := ⟨[{ newJob 0 ⟨"a.mp4".toList, 1⟩ with status := .interrupted }], by simp⟩ }

theorem blobGone_loops : Iteration { blobGone with batch := .head } { blobGone with batch := .head } ∧
    ¬ LoopEnds blobGone := by
  have stuck : Iteration { blobGone with batch := .head } { blobGone with batch := .head } :=
    empty_round rfl rfl (by simp [blobGone, State.first]) (by simp [blobGone, State.first])
  exact ⟨stuck, fun ends => Nat.lt_irrefl _ (ends.decreases [] _ _ .start stuck)⟩

end Vidsilo.Web.UploadStore
