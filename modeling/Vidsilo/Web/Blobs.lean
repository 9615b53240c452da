import Vidsilo.Web.BatchRuns

/-!
# The blobs of dropped and finished jobs

Source: web/lib/upload-store.ts:77-99, 181-219, 262-272, 307-344. A blob is kept under the id of its
job in the map `files` and in IndexedDB.
-/
namespace Vidsilo.Web.UploadStore
open Library Library.SlashPath Library.Transition

variable {Id : Type}

/-- A job with the id is listed and not done. -/
def Jobs.Open (jobs : Jobs Id) (id : Id) : Prop :=
  ∃ job ∈ jobs.list, job.id = id ∧ job.status ≠ .done

/-- Every blob belongs to a job of the list that is not done. -/
structure Released (s : State Id) : Prop where
  files : ∀ id, id ∈ s.files → s.jobs.Open id
  idb : ∀ id, id ∈ s.idb → s.jobs.Open id

theorem not_open_none (id : Id) : ¬ (Jobs.none : Jobs Id).Open id := by
  simp [Jobs.Open, Jobs.none]

theorem open_add {jobs : Jobs Id} {job : UploadJob Id} {fresh : job.id ∉ jobs.list.map UploadJob.id}
    {id : Id} : (jobs.add job fresh).Open id ↔ jobs.Open id ∨ (job.id = id ∧ job.status ≠ .done) := by
  simp only [Jobs.Open, Jobs.add, List.mem_append, List.mem_singleton]
  constructor
  · rintro ⟨found, old | rfl, same, state⟩
    · exact .inl ⟨found, old, same, state⟩
    · exact .inr ⟨same, state⟩
  · rintro (⟨found, old, same, state⟩ | ⟨same, state⟩)
    · exact ⟨found, .inl old, same, state⟩
    · exact ⟨job, .inr rfl, same, state⟩

theorem open_filter {jobs : Jobs Id} {keep : UploadJob Id → Bool} {id : Id} :
    (jobs.filter keep).Open id ↔
      ∃ job ∈ jobs.list, keep job = true ∧ job.id = id ∧ job.status ≠ .done := by
  simp only [Jobs.Open, Jobs.filter, List.mem_filter, and_assoc]

/-- A reload turns running jobs into interrupted ones and keeps the rest. -/
theorem restored_eq (job : UploadJob Id) : job.restored.id = job.id ∧
    (job.restored.status = .done ↔ job.status = .done) ∧
    (job.restored.status = .failed ↔ job.status = .failed) ∧
    job.restored.finishedAt = job.finishedAt := by
  unfold UploadJob.restored
  split
  next status => rcases status with status | status <;> simp [status]
  · exact ⟨rfl, Iff.rfl, Iff.rfl, rfl⟩

/-- Whether `load` keeps a job that is not done. -/
def UploadJob.survives (now : Nat) (job : UploadJob Id) : Prop :=
  job.status = .failed → job.finishedAt.any (now ≤ · + day) = true

theorem isRecent_restored {now : Nat} {job : UploadJob Id} (state : job.status ≠ .done) :
    job.restored.isRecent now = true ↔ job.survives now := by
  obtain ⟨-, isDone, isFailed, finished⟩ := restored_eq job
  unfold UploadJob.isRecent UploadJob.survives
  simp only [finished, ne_eq, isDone, isFailed]
  by_cases failed : job.status = .failed <;> simp [failed, state]

theorem open_load (now : Nat) {saved : Jobs Id} {id : Id} : (load now saved).Open id ↔
    ∃ job ∈ saved.list, job.id = id ∧ job.status ≠ .done ∧ job.survives now := by
  rw [load, open_filter]
  constructor
  · rintro ⟨_, mem, recent, same, state⟩
    obtain ⟨job, listed, rfl⟩ := List.mem_map.mp mem
    obtain ⟨sameId, isDone, -, -⟩ := restored_eq job
    rw [ne_eq, isDone] at state
    exact ⟨job, listed, sameId ▸ same, state, (isRecent_restored state).mp recent⟩
  · rintro ⟨job, listed, rfl, state, survives⟩
    obtain ⟨sameId, isDone, -, -⟩ := restored_eq job
    refine ⟨_, List.mem_map_of_mem listed, (isRecent_restored state).mpr survives, sameId, ?_⟩
    rwa [ne_eq, isDone]

theorem released_congr {s s' : State Id} (jobs : ∀ id, s'.jobs.Open id ↔ s.jobs.Open id)
    (files : ∀ id, id ∈ s'.files ↔ id ∈ s.files) (idb : ∀ id, id ∈ s'.idb ↔ id ∈ s.idb) :
    Released s' ↔ Released s := by
  constructor
  · intro released
    exact ⟨fun id mem => (jobs id).mp (released.files id ((files id).mpr mem)),
      fun id mem => (jobs id).mp (released.idb id ((idb id).mpr mem))⟩
  · intro released
    exact ⟨fun id mem => (jobs id).mpr (released.files id ((files id).mp mem)),
      fun id mem => (jobs id).mpr (released.idb id ((idb id).mp mem))⟩

theorem released_empty_iff {s : State Id} (jobs : s.jobs = .none) :
    Released s ↔ (∀ id, id ∉ s.files) ∧ ∀ id, id ∉ s.idb := by
  have none : ∀ id, ¬ s.jobs.Open id := by
    rw [jobs]
    exact not_open_none
  constructor
  · intro released
    exact ⟨fun id mem => none id (released.files id mem), fun id mem => none id (released.idb id mem)⟩
  · rintro ⟨files, idb⟩
    exact ⟨fun id mem => absurd mem (files id), fun id mem => absurd mem (idb id)⟩

variable [DecidableEq Id]

theorem open_update_other {jobs : Jobs Id} {patch : Patch} {id other : Id} (ne : other ≠ id) :
    (jobs.update id patch).Open other ↔ jobs.Open other := by
  constructor
  · rintro ⟨_, mem, same, state⟩
    obtain ⟨job, listed, rfl⟩ := List.mem_map.mp mem
    by_cases own : job.id = id
    · simp only [own, if_true] at same
      exact absurd (same.symm.trans own) ne
    · simp only [own, if_false] at same state
      exact ⟨job, listed, same, state⟩
  · rintro ⟨job, listed, rfl, state⟩
    exact ⟨_, List.mem_map_of_mem listed, by simp [ne], by simp [ne, state]⟩

theorem open_update_own {jobs : Jobs Id} {patch : Patch} {id : Id} :
    (jobs.update id patch).Open id ↔
      ∃ job ∈ jobs.list, job.id = id ∧ patch.status.getD job.status ≠ .done := by
  constructor
  · rintro ⟨_, mem, same, state⟩
    obtain ⟨job, listed, rfl⟩ := List.mem_map.mp mem
    by_cases own : job.id = id
    · simp only [own, if_true] at state
      exact ⟨job, listed, own, state⟩
    · rw [if_neg own] at same
      exact absurd same own
  · rintro ⟨job, listed, rfl, state⟩
    refine ⟨_, List.mem_map_of_mem listed, ?_, ?_⟩
    · simp [UploadJob.patch]
    · simpa [UploadJob.patch] using state

/-- The step leaves no blob behind. -/
def Keeps (s : State Id) : Action Id → Prop
  | .updateJob id patch _ => patch.status = some .done → id ∉ s.files ∧ id ∉ s.idb
  | .resetIdle _ => s.isActive = false → s.jobs.list ≠ [] → ∀ id, id ∉ s.idb
  | .clearUploads _ => ∀ id, id ∈ s.idb → id ∈ s.activeUploads
  | .clearAllUploads _ => ∀ id, id ∉ s.idb
  | .reload now => ∀ id, id ∈ s.idb → ∃ job ∈ s.saved.list, job.id = id ∧ job.status ≠ .done ∧
      job.survives now
  | .resume who _ => ∀ job file, s.await who = some (.file job (some file)) →
      ∃ listed ∈ s.jobs.list, listed.id = job.id
  | .callback number _ _ .onSuccess => ∀ upload, s.uploads[number]? = some upload →
      upload.id ∉ s.files
  | _ => True

/-- A change of one job. -/
theorem released_update_iff {s s' : State Id} (id : Id) {patch : Patch} (released : Released s)
    (jobs : s'.jobs = s.jobs.update id patch)
    (files : ∀ other, other ≠ id → (other ∈ s'.files ↔ other ∈ s.files))
    (idb : ∀ other, other ≠ id → (other ∈ s'.idb ↔ other ∈ s.idb)) :
    Released s' ↔ (id ∈ s'.files ∨ id ∈ s'.idb →
      ∃ job ∈ s.jobs.list, job.id = id ∧ patch.status.getD job.status ≠ .done) := by
  constructor
  · intro released' kept
    rw [← open_update_own, ← jobs]
    exact kept.elim (released'.files id) (released'.idb id)
  · intro own
    refine ⟨fun other mem => ?_, fun other mem => ?_⟩
    · rw [jobs]
      by_cases same : other = id
      · subst same
        exact open_update_own.mpr (own (.inl mem))
      · exact (open_update_other same).mpr (released.files other ((files other same).mp mem))
    · rw [jobs]
      by_cases same : other = id
      · subst same
        exact open_update_own.mpr (own (.inr mem))
      · exact (open_update_other same).mpr (released.idb other ((idb other same).mp mem))

theorem released_addFile {slots : Nat} {s s' : State Id} {result result' : AddFilesResult}
    {selected : Selected Id} (released : Released s)
    (added : addFile slots s result selected = some (s', result')) : Released s' := by
  unfold addFile at added
  dsimp only at added
  split at added
  next job found =>
    cases added
    have listed := List.mem_of_find?_eq_some found
    refine (released_update_iff job.id released (persist_jobs _ _) ?_ ?_).mpr fun _ => ?_
    · intro other ne
      simp [ne]
    · intro other ne
      simp [ne]
    · exact ⟨job, listed, rfl, by simp⟩
  · split at added
    · cases added
      exact released
    · split at added
      · cases added
        exact released
      · split at added
        · cases added
          have isOpen : ∀ id, id = selected.id ∨ s.jobs.Open id →
              (s.jobs.add (newJob selected.id selected.file) ‹_›).Open id := by
            rintro id (rfl | old)
            · exact open_add.mpr (.inr ⟨rfl, by simp [newJob]⟩)
            · exact open_add.mpr (.inl old)
          constructor
          · intro id mem
            exact isOpen id (((AList.mem_insert _).mp mem).imp_right (released.files id))
          · intro id mem
            exact isOpen id (((AList.mem_insert _).mp mem).imp_right (released.idb id))
        · cases added

theorem released_addFiles {s s' : State Id} {newFiles : List (Selected Id)} {stored : Bool}
    (released : Released s) (taken : step s (.addFiles newFiles stored) = some s') : Released s' := by
  simp only [step, State.addFiles, Option.map_map, Option.map_eq_some_iff] at taken
  obtain ⟨⟨mid, count⟩, added, rfl⟩ := taken
  have kept := addFilesLoop_invariant Released (fun holds one => released_addFile holds one) released
    added
  exact (released_congr (by simp) (by simp) (by simp)).mpr kept

theorem released_updateJob_iff {s : State Id} (id : Id) (patch : Patch) (stored : Bool)
    (released : Released s) : Released (s.updateJob id patch stored) ↔
      (patch.status = some .done → id ∉ s.files ∧ id ∉ s.idb) := by
  rw [released_update_iff _ released (updateJob_jobs _ _ _ _) (by simp) (by simp)]
  simp only [updateJob_files, updateJob_idb]
  constructor
  · intro kept isDone
    rw [← not_or]
    intro mem
    obtain ⟨job, -, -, state⟩ := kept mem
    simp [isDone] at state
  · intro free mem
    obtain ⟨job, listed, same, state⟩ : s.jobs.Open id := mem.elim (released.files id) (released.idb id)
    refine ⟨job, listed, same, ?_⟩
    cases status : patch.status with
    | none => exact state
    | some now =>
      intro isDone
      obtain ⟨noFile, noBlob⟩ := free (status.trans (congrArg some isDone))
      exact mem.elim noFile noBlob

theorem released_removeJob {s : State Id} (id : Id) (stored : Bool) (released : Released s) :
    Released (s.removeJob id stored) := by
  have parts : (s.removeJob id stored).jobs = s.jobs.filter (·.id ≠ id) ∧
      (s.removeJob id stored).files = s.files.erase id ∧
      (s.removeJob id stored).idb = s.idb.erase id := by
    cases active : s.activeUploads.lookup id <;> simp [State.removeJob, active, State.abort]
  obtain ⟨jobs, files, idb⟩ := parts
  have isOpen : ∀ other, other ≠ id → s.jobs.Open other → (s.removeJob id stored).jobs.Open other := by
    rintro other ne ⟨job, listed, rfl, state⟩
    rw [jobs, open_filter]
    exact ⟨job, listed, by simpa using ne, rfl, state⟩
  constructor
  · intro other mem
    rw [files, AList.mem_erase] at mem
    exact isOpen other mem.1 (released.files other mem.2)
  · intro other mem
    rw [idb, AList.mem_erase] at mem
    exact isOpen other mem.1 (released.idb other mem.2)

omit [DecidableEq Id] in
theorem released_resetIdle_iff {s : State Id} (stored : Bool) (released : Released s) :
    Released (s.resetIdle stored) ↔
      (s.isActive = false → s.jobs.list ≠ [] → ∀ id, id ∉ s.idb) := by
  unfold State.resetIdle
  split
  next clears =>
    simp only [Bool.and_eq_true, Bool.not_eq_true', decide_eq_true_eq, List.length_pos_iff] at clears
    rw [released_empty_iff (persist_jobs _ _)]
    simp [clears.1, clears.2]
  next stays =>
    simp only [Bool.and_eq_true, Bool.not_eq_true', decide_eq_true_eq, List.length_pos_iff,
      not_and] at stays
    exact iff_of_true released fun idle filled => absurd filled (stays idle)

theorem released_clearUploads_iff (s : State Id) (stored : Bool) :
    Released (s.clearUploads stored) ↔ ∀ id, id ∈ s.idb → id ∈ s.activeUploads := by
  have idb (id : Id) : id ∈ (s.clearUploads stored).idb ↔ id ∈ s.idb ∧ id ∉ s.activeUploads := by
    have isIdb : (s.clearUploads stored).idb = s.idb.keep fun id _ => id ∉ s.activeUploads := by
      have active := congrArg State.activeUploads (abortAll_eq s)
      have blobs := congrArg State.idb (abortAll_eq s)
      simp only [State.clearUploads, persist_idb, active, blobs]
    rw [isIdb, ← AList.lookup_isSome, KeyMap.lookup_keep, ← AList.lookup_isSome (s := s.idb)]
    cases s.idb.lookup id <;> simp [Option.filter]
  rw [released_empty_iff (persist_jobs _ _)]
  simp only [idb, not_and, not_not]
  exact and_iff_right (by simp [State.clearUploads])

omit [DecidableEq Id] in
theorem released_clearAllUploads_iff (s : State Id) (stored : Bool) :
    Released (s.clearAllUploads stored) ↔ ∀ id, id ∉ s.idb := by
  have idb : (s.clearAllUploads stored).idb = s.idb := by
    simpa [State.clearAllUploads] using congrArg State.idb (abortAll_eq s)
  rw [released_empty_iff (persist_jobs _ _), idb]
  exact and_iff_right (by simp [State.clearAllUploads])

omit [DecidableEq Id] in
theorem released_reload_iff (s : State Id) (now : Nat) : Released (s.reload now) ↔
    ∀ id, id ∈ s.idb → ∃ job ∈ s.saved.list, job.id = id ∧ job.status ≠ .done ∧
      job.survives now := by
  simp only [← open_load now]
  constructor
  · exact fun released => released.idb
  · intro kept
    refine ⟨fun id mem => ?_, kept⟩
    exact absurd mem (by simp [State.reload])

theorem released_launch_iff {s t : State Id} {job : UploadJob Id} {file : File} {stored : Bool}
    (released : Released s) (jobs : t.jobs = s.jobs) (idb : t.idb = s.idb)
    (files : ∀ other, other ≠ job.id → (other ∈ t.files ↔ other ∈ s.files))
    (kept : job.id ∈ t.files) :
    Released (t.launch job file stored).1 ↔ ∃ listed ∈ s.jobs.list, listed.id = job.id := by
  obtain ⟨jobs', files', idb', -⟩ := launch_eq job file stored t
  rw [jobs] at jobs'
  rw [released_update_iff _ released jobs' (by rw [files']; exact files) (by rw [idb', idb]; simp), files',
    idb']
  simp [kept, started]

theorem released_startJob {s : State Id} (id : Id) (stored : Bool) (released : Released s) :
    Released (s.startJob id stored).1 := by
  obtain ⟨returns, -⟩ | ⟨job, found, -, -, ⟨-, reads⟩ | ⟨file, inMemory, launches⟩⟩ :=
    startJob_cases s id stored
  · rw [returns]
    exact released
  · rw [reads]
    exact released
  · have own : job.id = id := by simpa using List.find?_some found
    rw [launches]
    refine (released_launch_iff released rfl rfl (fun _ _ => Iff.rfl) ?_).mpr
      ⟨job, List.mem_of_find?_eq_some found, rfl⟩
    rw [own]
    exact AList.lookup_isSome.mp (Option.isSome_of_eq_some inMemory)

theorem released_resume_iff {s : State Id} {stored : Bool} {await : Await Id}
    {next : State Id × Option (Await Id)} (released : Released s)
    (ends : s.resume stored await = some next) : Released next.1 ↔
      ∀ job file, await = .file job (some file) → ∃ listed ∈ s.jobs.list, listed.id = job.id := by
  obtain ⟨job, rfl, rfl⟩ | ⟨job, rfl, rfl⟩ | ⟨job, file, rfl, rfl⟩ | ⟨number, upload, rfl, -, -, rfl⟩ :=
    resume_cases ends
  · exact iff_of_true released (by simp)
  · exact iff_of_true released (by simp)
  · rw [released_launch_iff (t := { s with files := s.files.insert job.id file }) released rfl rfl
      (fun other ne => by simp [ne]) (by simp)]
    simp
  · exact iff_of_true released (by simp)

omit [DecidableEq Id] in
theorem released_goOn_iff (who : Caller) (next : State Id × Option (Await Id)) :
    Released (State.goOn who next) ↔ Released next.1 :=
  released_congr (by simp) (by simp) (by simp)

theorem released_callback_iff {s : State Id} {number now : Nat} {upload : Upload Id} {stored : Bool}
    (call : Callback) (released : Released s) :
    Released (s.callback number upload now stored call) ↔ (call = .onSuccess → upload.id ∉ s.files) := by
  cases call with
  | onProgress bytesSent bytesTotal =>
    exact iff_of_true ((released_updateJob_iff _ _ _ released).mpr (by simp [Patch.nothing])) (by simp)
  | onUploadUrlAvailable url =>
    exact iff_of_true ((released_updateJob_iff _ _ _ released).mpr (by simp [Patch.nothing])) (by simp)
  | onError message =>
    have settled : Released (s.settle number upload) := ⟨released.files, released.idb⟩
    exact iff_of_true ((released_updateJob_iff _ _ _ settled).mpr (by simp)) (by simp)
  | onSuccess =>
    have settled : Released { s.settle number upload with idb := s.idb.erase upload.id } :=
      ⟨released.files, fun id mem => released.idb id (AList.mem_erase.mp mem).2⟩
    rw [State.callback, released_updateJob_iff _ _ _ settled]
    simp [State.settle]

theorem released_step_iff {s s' : State Id} {action : Action Id} (released : Released s)
    (taken : step s action = some s') : Released s' ↔ Keeps s action := by
  cases action with
  | addFiles newFiles stored => exact iff_of_true (released_addFiles released taken) trivial
  | updateJob id patch stored =>
    cases taken
    exact released_updateJob_iff id patch stored released
  | removeJob id stored =>
    cases taken
    exact iff_of_true (released_removeJob id stored released) trivial
  | resetIdle stored =>
    cases taken
    exact released_resetIdle_iff stored released
  | clearUploads stored =>
    cases taken
    exact released_clearUploads_iff s stored
  | clearAllUploads stored =>
    cases taken
    exact released_clearAllUploads_iff s stored
  | reload now =>
    cases taken
    exact released_reload_iff s now
  | startAll =>
    cases taken
    refine iff_of_true ?_ trivial
    split
    · exact ⟨released.files, released.idb⟩
    · exact released
  | next stored =>
    refine iff_of_true ?_ trivial
    obtain ⟨-, ⟨-, rfl⟩ | ⟨job, -, rfl⟩⟩ := next_cases taken
    · exact ⟨released.files, released.idb⟩
    · exact (released_goOn_iff _ _).mpr (released_startJob job.id stored released)
  | startJob id stored =>
    refine iff_of_true ?_ trivial
    have kept := released_startJob id stored released
    unfold step at taken
    dsimp only at taken
    split at taken
    all_goals
      next made =>
        rw [made] at kept
        cases taken
        exact ⟨kept.files, kept.idb⟩
  | resume who stored =>
    obtain ⟨await, waits, ends⟩ := Option.bind_eq_some_iff.mp taken
    obtain ⟨next, ended, rfl⟩ := Option.map_eq_some_iff.mp ends
    rw [released_goOn_iff, released_resume_iff released ended]
    simp only [Keeps, waits, Option.some.injEq]
  | callback number now stored call =>
    obtain ⟨upload, found, -, rfl⟩ := callback_cases taken
    rw [released_callback_iff call released]
    cases call <;> simp [Keeps, found]

/-- In a run whose steps all leave no blob behind, every blob has its job. -/
theorem blobs_released {s : State Id} {trace : List (Action Id)}
    (run : Run step Keeps State.first trace s) : Released s := by
  refine run.invariant Released ⟨fun id mem => ?_, fun id mem => ?_⟩
    fun t action t' released keeps taken => ?_
  · exact absurd mem (by simp [State.first])
  · exact absurd mem (by simp [State.first])
  · exact (released_step_iff released taken).mpr keeps

/-- Operations that never leave a blob behind. -/
def releasing : Action Nat → Bool
  | .addFiles _ _ | .removeJob _ _ | .startAll | .next _ => true
  | _ => false

/-- The first of two files is removed while it is on its way. -/
theorem blobs_released_removed : ∃ s : State Nat,
    Run step Keeps State.first (firstOnItsWay ++ [.removeJob 0 true]) s ∧ 1 ∈ s.files ∧ Released s := by
  have keeps (s : State Nat) (action : Action Nat) (allowed : releasing action = true) :
      Keeps s action := by
    cases action <;> trivial
  have made : (exec step (fun _ action => releasing action) State.first
      (firstOnItsWay ++ [.removeJob 0 true])).any (fun s => decide (1 ∈ s.files)) = true := by
    decide
  obtain ⟨s, run, kept⟩ := exists_run keeps made
  exact ⟨s, run, of_decide_eq_true kept, blobs_released run⟩

/-- The File of a job that is done. -/
def keepsDone (s : State Nat) : Bool :=
  0 ∈ s.files && s.jobs.list.all fun job => job.id ≠ 0 || job.status = .done

/-- The blob of a job that is not listed. -/
def keepsDropped (s : State Nat) : Bool := 0 ∈ s.idb && s.jobs.list.isEmpty

/-- A finished upload keeps its File, and a failed one its blob once the dialog has reset the list. -/
theorem blobs_stay :
    (∃ s : State Nat, Run step Always State.first
      (firstOnItsWay ++ [.callback 0 0 true .onSuccess]) s ∧ ¬ Released s) ∧
    ∃ s : State Nat, Run step Always State.first
      [.addFiles [⟨fileA, 0, true⟩] true, .startAll, .next true, .callback 0 0 true (.onError []),
        .resume .startAll true, .next true, .resetIdle true] s ∧ ¬ Released s := by
  constructor
  · have made : (exec step (fun _ _ => true) State.first
        (firstOnItsWay ++ [.callback 0 0 true .onSuccess])).any keepsDone = true := by
      decide
    obtain ⟨s, run, kept⟩ := exists_run (fun _ _ _ => trivial) made
    simp only [keepsDone, Bool.and_eq_true, decide_eq_true_eq, List.all_eq_true, Bool.or_eq_true] at kept
    refine ⟨s, run, fun released => ?_⟩
    obtain ⟨job, listed, same, state⟩ := released.files 0 kept.1
    exact (kept.2 job listed).elim (fun ne => ne same) state
  · have made : (exec step (fun _ _ => true) State.first
        [.addFiles [⟨fileA, 0, true⟩] true, .startAll, .next true, .callback 0 0 true (.onError []),
          .resume .startAll true, .next true, .resetIdle true]).any keepsDropped = true := by
      decide
    obtain ⟨s, run, kept⟩ := exists_run (fun _ _ _ => trivial) made
    simp only [keepsDropped, Bool.and_eq_true, decide_eq_true_eq, List.isEmpty_iff] at kept
    refine ⟨s, run, fun released => ?_⟩
    obtain ⟨job, listed, -⟩ := released.idb 0 kept.1
    rw [kept.2] at listed
    cases listed

end Vidsilo.Web.UploadStore
