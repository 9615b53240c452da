import Vidsilo.Web.DownloadStore

/-!
# What a further start of the downloads takes up

Source: web/lib/url-download-store.ts:69-89 (`load`), 143-269 (`checkUrls`, `startDownloads`,
`submitOne`, `waitForEntry`, `pollUntilIdle`), over `Web.DownloadStore`.
-/
namespace Vidsilo.Web.DownloadResume
open Library Library.Transition DownloadStore

variable {Id : Type}

/-- One of the loops of `startDownloads` looks for the job. -/
def resumable (job : UrlDownloadJob Id) : Bool :=
  job.status = .queued || (job.status = .downloading && job.entryId.isSome)

def Settled (job : UrlDownloadJob Id) : Prop := job.isFinished = true ∨ resumable job = true

/-- Every job but the one that is being submitted is settled. -/
def Sound (s : State Id) : Prop :=
  ∀ job ∈ s.jobs.list, Settled job ∨ (s.start = .submitting job.id ∧ job.status = .downloading)

def AllSettled (s : State Id) : Prop := ∀ job ∈ s.jobs.list, Settled job

/-- A reload finds no unfinished job saved; a submission throws only for a job that was removed. -/
def Keeps (s : State Id) : Action Id → Prop
  | .reload _ => ∀ job ∈ s.saved.list, job.isFinished = true
  | .submitted .throws _ _ => ∀ job ∈ s.jobs.list, s.start ≠ .submitting job.id
  | _ => True

theorem settled_failed {job : UrlDownloadJob Id} (failed : job.status = .failed) : Settled job :=
  .inl (by simp [UrlDownloadJob.isFinished, failed])

theorem settled_queued {job : UrlDownloadJob Id} (queued : job.status = .queued) : Settled job :=
  .inr (by simp [resumable, queued])

/-- Settling depends on status and entry only. -/
theorem settled_congr {job job' : UrlDownloadJob Id} (status : job'.status = job.status)
    (entryId : job'.entryId = job.entryId) : Settled job' ↔ Settled job := by
  unfold Settled UrlDownloadJob.isFinished resumable
  rw [status, entryId]

theorem settled_finish (entry : EntryStatus) (now : Nat) (job : UrlDownloadJob Id) :
    (entry.finish now job).isFinished = true := by
  unfold EntryStatus.finish
  split <;> rfl

theorem sound_of_settled {s : State Id} (settled : AllSettled s) : Sound s :=
  fun job mem => .inl (settled job mem)

theorem settled_of_sound {s : State Id} (sound : Sound s)
    (start : ∀ job ∈ s.jobs.list, s.start ≠ .submitting job.id) : AllSettled s := by
  intro job mem
  rcases sound job mem with settled | ⟨submitting, -⟩
  · exact settled
  · exact absurd submitting (start job mem)

section
variable {s s' : State Id}

/-- The jobs change one by one, and only in what does not matter or to settled ones. -/
theorem sound_of_jobs (sound : Sound s) (start : s'.start = s.start)
    (jobs : ∀ job' ∈ s'.jobs.list, Settled job' ∨ ∃ job ∈ s.jobs.list,
      job'.id = job.id ∧ job'.status = job.status ∧ job'.entryId = job.entryId) : Sound s' := by
  intro job' mem
  rcases jobs job' mem with settled | ⟨job, old, id, status, entryId⟩
  · exact .inl settled
  · rw [settled_congr status entryId, start, id, status]
    exact sound job old

theorem sound_of_sublist (sound : Sound s) (start : s'.start = s.start)
    (jobs : s'.jobs.list ⊆ s.jobs.list) : Sound s' :=
  sound_of_jobs sound start fun job mem => .inr ⟨job, jobs mem, rfl, rfl, rfl⟩

theorem sound_pollNext (settled : AllSettled s) : Sound s.pollNext := by
  apply sound_of_settled
  unfold State.pollNext
  split
  · exact settled
  · exact settled

end

variable [DecidableEq Id] {s s' : State Id} {stored : Bool}

theorem mem_update {id : Id} {set : UrlDownloadJob Id → UrlDownloadJob Id} {job' : UrlDownloadJob Id} :
    job' ∈ (s.update id set stored).jobs.list ↔ ∃ job ∈ s.jobs.list,
      { (if job.id = id then set job else job) with id := job.id } = job' := by
  unfold State.update
  rw [setJobs_jobs]
  exact List.mem_map

/-- An update of one job to a settled one. -/
theorem settled_update {id : Id} {set : UrlDownloadJob Id → UrlDownloadJob Id}
    (others : ∀ job ∈ s.jobs.list, job.id ≠ id → Settled job)
    (own : ∀ job ∈ s.jobs.list, job.id = id → Settled (set job)) :
    AllSettled (s.update id set stored) := by
  intro job' mem
  obtain ⟨job, old, rfl⟩ := mem_update.mp mem
  split
  · next same => exact (settled_congr rfl rfl).mpr (own job old same)
  · next other => exact others job old other

theorem sound_update {id : Id} {set : UrlDownloadJob Id → UrlDownloadJob Id} (sound : Sound s)
    (own : ∀ job, Settled (set job) ∨
      ((set job).status = job.status ∧ (set job).entryId = job.entryId)) :
    Sound (s.update id set stored) := by
  refine sound_of_jobs sound (update_start _ _ _ _) fun job' mem => ?_
  obtain ⟨job, old, rfl⟩ := mem_update.mp mem
  split
  · rcases own job with settled | ⟨status, entryId⟩
    · exact .inl ((settled_congr rfl rfl).mpr settled)
    · exact .inr ⟨job, old, rfl, status, entryId⟩
  · exact .inr ⟨job, old, rfl, rfl, rfl⟩

theorem sound_submitNext (settled : AllSettled s) : Sound (s.submitNext stored) := by
  unfold State.submitNext
  split
  · exact sound_pollNext settled
  · next next found =>
    intro job' mem
    obtain ⟨job, old, rfl⟩ := mem_update.mp mem
    split
    · next same => exact .inr ⟨by rw [same], rfl⟩
    · exact .inl (settled job old)

/-- The loops end exactly when no job is resumable. -/
theorem submitNext_idle_iff :
    (s.submitNext stored).start = .idle ↔ ∀ job ∈ s.jobs.list, resumable job = false := by
  have polled (job : UrlDownloadJob Id) :
      job.polled = none ↔ (job.status = .downloading && job.entryId.isSome) = false := by
    unfold UrlDownloadJob.polled
    split
    · next downloading => simp [downloading]
    · next other => simp [other]
  unfold State.submitNext
  cases found : s.jobs.list.find? (·.status = .queued) with
  | some next =>
    refine iff_of_false (by simp) fun none => ?_
    have queued := List.find?_some found
    have := none next (List.mem_of_find?_eq_some found)
    simp [resumable, of_decide_eq_true queued] at this
  | none =>
    have unqueued (job) (mem : job ∈ s.jobs.list) : job.status ≠ .queued := by
      simpa using List.find?_eq_none.mp found job mem
    unfold State.pollNext
    dsimp only
    cases polling : s.jobs.list.findSome? UrlDownloadJob.polled with
    | none =>
      refine iff_of_true rfl fun job mem => ?_
      have := (polled job).mp (List.findSome?_eq_none_iff.mp polling job mem)
      simp [resumable, unqueued job mem, this]
    | some next =>
      refine iff_of_false (by simp) fun none => ?_
      obtain ⟨job, mem, found⟩ := List.exists_of_findSome?_eq_some polling
      have := none job mem
      simp only [resumable, Bool.or_eq_false_iff] at this
      rw [(polled job).mpr this.2] at found
      cases found

theorem mem_addChecked {results : List (CheckResult Id)} {jobs : Jobs Id} {counts : CheckUrlsResult}
    {next : Jobs Id × CheckUrlsResult} (checked : addChecked results jobs counts = some next)
    {job : UrlDownloadJob Id} (mem : job ∈ next.1.list) : job ∈ jobs.list ∨ job.status = .queued := by
  induction results generalizing jobs counts with
  | nil =>
    cases checked
    exact .inl mem
  | cons r rest ih =>
    unfold addChecked at checked
    split at checked
    · exact ih checked
    · split at checked
      · exact ih checked
      · split at checked
        · rcases ih checked with old | queued
          · rcases List.mem_append.mp old with before | last
            · exact .inl before
            · rw [List.mem_singleton.mp last]
              exact .inr rfl
          · exact .inr queued
        · cases checked

theorem settled_submitOne {id : Id} {now : Nat} {answer : Submission} (sound : Sound s)
    (start : s.start = .submitting id) (keeps : Keeps s (.submitted answer now stored)) :
    Sound (s.submitOne id now stored answer) := by
  have others : ∀ job ∈ s.jobs.list, job.id ≠ id → Settled job := by
    intro job mem other
    rcases sound job mem with settled | ⟨submitting, -⟩
    · exact settled
    · rw [start] at submitting
      cases submitting
      exact absurd rfl other
  cases answer with
  | throws =>
    have settled : AllSettled s := settled_of_sound sound keeps
    exact sound_of_settled settled
  | refused reason =>
    apply sound_submitNext
    exact settled_update others fun job _ _ => settled_failed rfl
  | accepted entryId =>
    apply sound_of_settled
    change AllSettled (s.update id (fun job => { job with entryId := some entryId }) stored)
    refine settled_update others fun job mem same => ?_
    rcases sound job mem with settled | ⟨-, downloading⟩
    · rcases settled with finished | resumes
      · exact .inl finished
      · rw [resumable, Bool.or_eq_true, Bool.and_eq_true] at resumes
        rcases resumes with queued | ⟨downloading, -⟩
        · exact settled_queued (of_decide_eq_true queued)
        · exact .inr (by simp [resumable, of_decide_eq_true downloading])
    · exact .inr (by simp [resumable, downloading])

theorem sound_step {action : Action Id} (sound : Sound s) (keeps : Keeps s action)
    (taken : step s action = some s') : Sound s' := by
  cases action with
  | checkUrls results stored =>
    obtain ⟨next, checked, rfl⟩ := checkUrls_cases taken
    refine sound_of_jobs sound (setJobs_start _ _ _) fun job mem => ?_
    rw [setJobs_jobs] at mem
    rcases mem_addChecked checked mem with old | queued
    · exact .inr ⟨job, old, rfl, rfl, rfl⟩
    · exact .inl (settled_queued queued)
  | edit id title category stored =>
    cases taken
    exact sound_update sound fun job => .inr ⟨rfl, rfl⟩
  | removeUrlDownload id stored =>
    cases taken
    refine sound_of_sublist sound (setJobs_start _ _ _) ?_
    unfold State.removeUrlDownload
    rw [setJobs_jobs]
    exact List.filter_subset_self _
  | clear stored =>
    cases taken
    refine sound_of_sublist sound (setJobs_start _ _ _) ?_
    unfold State.clear
    rw [setJobs_jobs]
    exact List.nil_subset _
  | resetIdleDownloads stored =>
    cases taken
    unfold State.resetIdleDownloads
    split
    · exact sound
    · refine sound_of_sublist sound (setJobs_start _ _ _) ?_
      rw [setJobs_jobs]
      exact List.nil_subset _
  | reload now =>
    cases taken
    apply sound_of_settled
    intro job mem
    have loaded : job ∈ (load now s.saved).list := mem
    obtain ⟨old, saved, rfl⟩ := List.mem_map.mp (List.mem_of_mem_filter loaded)
    have finished := keeps old saved
    unfold UrlDownloadJob.isFinished at finished
    have unchanged : old.restored = old := by
      unfold UrlDownloadJob.restored
      refine if_neg fun unfinished => ?_
      rcases unfinished with queued | downloading
      · simp [queued] at finished
      · simp [downloading] at finished
    rw [unchanged]
    exact .inl finished
  | startDownloads stored =>
    cases taken
    split
    · next idle => exact sound_submitNext (settled_of_sound sound fun job _ => by simp [idle])
    · exact sound
  | submitted answer now stored =>
    obtain ⟨id, start, rfl⟩ := submitted_cases taken
    exact settled_submitOne sound start keeps
  | pauseOver =>
    obtain ⟨id, entryId, start, rfl⟩ := pauseOver_cases taken
    have settled := settled_of_sound sound fun job _ => by simp [start]
    exact sound_of_settled settled
  | goOn stored =>
    obtain ⟨number, start, -, rfl⟩ | ⟨number, start, -, rfl⟩ := goOn_cases taken
    · exact sound_submitNext (settled_of_sound sound fun job _ => by simp [start])
    · exact sound_pollNext (settled_of_sound sound fun job _ => by simp [start])
  | tick number =>
    obtain ⟨wait, -, -, rfl⟩ := tick_cases taken
    exact sound
  | listReply number i rows stored =>
    obtain ⟨wait, -, rfl⟩ := Option.map_eq_some_iff.mp taken
    have progressed (row : ActiveDownload) :
        Sound (s.update wait.job (fun job => { job with progress := row.progress }) stored) :=
      sound_update sound fun job => .inr ⟨rfl, rfl⟩
    unfold State.listReply
    split
    · exact sound
    · split
      · next row _ =>
        split
        · exact progressed row
        · exact sound
      · exact sound
  | entryReply number i entry now stored =>
    obtain ⟨wait, -, rfl⟩ := Option.map_eq_some_iff.mp taken
    cases entry with
    | none => exact sound
    | some entry =>
      have finished : Sound (s.update wait.job (entry.finish now) stored) :=
        sound_update sound fun job => .inl (.inl (settled_finish entry now job))
      exact finished

/-- In a run whose reloads and failing requests leave no job behind: when `startDownloads` has ended,
every job is finished or resumable, and a further call ends at once only when all are finished. -/
theorem ended_resumable {trace : List (Action Id)} (run : Run step Keeps State.first trace s)
    (ended : s.start = .idle) :
    (∀ job ∈ s.jobs.list, job.isFinished = true ∨ resumable job = true) ∧
      ∀ stored s', step s (.startDownloads stored) = some s' →
        (s'.start = .idle ↔ ∀ job ∈ s.jobs.list, job.isFinished = true) := by
  have sound : Sound s := run.invariant Sound nofun fun t action t' sound keeps taken =>
    sound_step sound keeps taken
  have settled : AllSettled s := settled_of_sound sound fun job _ => by simp [ended]
  refine ⟨settled, fun stored s' taken => ?_⟩
  simp only [step, if_pos ended, Option.some.injEq] at taken
  rw [← taken, submitNext_idle_iff]
  constructor
  · intro none job mem
    exact (settled job mem).resolve_right (by simp [none job mem])
  · intro finished job mem
    have := finished job mem
    unfold UrlDownloadJob.isFinished at this
    unfold resumable
    cases status : job.status <;> simp_all

def clip : CheckResult Nat := ⟨"https://example.com/a.mp4".toList, true, none, 0⟩

def checked : List (Action Nat) := [.checkUrls [clip] true]

theorem ended_resumable_checked : ∃ s : State Nat, Run step Keeps State.first checked s ∧
    s.start = .idle ∧ (∀ job ∈ s.jobs.list, job.isFinished = true ∨ resumable job = true) ∧
      ∀ stored s', step s (.startDownloads stored) = some s' →
        (s'.start = .idle ↔ ∀ job ∈ s.jobs.list, job.isFinished = true) := by
  obtain ⟨s, taken, idle⟩ : ∃ s, step State.first (.checkUrls [clip] true) = some s ∧
      s.start = .idle := ⟨_, rfl, rfl⟩
  have run : Run step Keeps State.first checked s := .next .start trivial taken
  exact ⟨s, run, idle, ended_resumable run idle⟩

/-- A job that no further `startDownloads` takes up. -/
def leftBehind (s : State Nat) : Bool :=
  s.start = .idle && s.jobs.list.any fun job => !job.isFinished && !resumable job

/-- The request of a submission throws, or the page is reloaded with a queued job. -/
theorem job_left_behind :
    (∃ s, Run step Always State.first
      (checked ++ [.startDownloads true, .submitted .throws 0 true]) s ∧ leftBehind s = true) ∧
    ∃ s, Run step Always State.first (checked ++ [.reload 0]) s ∧ leftBehind s = true :=
  ⟨exists_always (by decide), exists_always (by decide)⟩

end Vidsilo.Web.DownloadResume
