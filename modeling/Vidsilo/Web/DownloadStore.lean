import Vidsilo.Library.Transition
import Vidsilo.Web.UploadStore

/-!
# The URL download store of the browser

Source: web/lib/url-download-store.ts, web/components/upload-dialog.tsx (who calls it). One step is
what runs between two `await`s; localStorage may be full. Ids are those of `crypto.randomUUID`, which
never repeat. A submitted URL that is accepted has an entry. The listeners of the view, the mark of a
completed batch and the PATCH of title and category, whose answer nothing waits for, are left out.
-/
namespace Vidsilo.Web.DownloadStore
open Library Library.SlashPath Library.Transition

inductive UrlDownloadStatus where
  | checking | queued | downloading | done | failed
  deriving DecidableEq, Repr

/-- Of an entry; never empty. -/
abbrev PublicId := { text : Text // text ≠ [] }

structure UrlDownloadJob (Id : Type) where
  id : Id
  url : Text
  fileName : Text
  title : Option Text
  category : Option Text
  status : UrlDownloadStatus
  /-- At most 100, and -1 for indeterminate. -/
  progress : Int
  error : Option Text
  entryId : Option PublicId
  /-- In milliseconds. -/
  finishedAt : Option Nat
  deriving DecidableEq, Repr

section
variable {Id : Type}

def UrlDownloadJob.isFinished (job : UrlDownloadJob Id) : Bool :=
  job.status = .done || job.status = .failed

/-- A job list, each id once. -/
structure Jobs (Id : Type) where
  list : List (UrlDownloadJob Id)
  distinct : (list.map UrlDownloadJob.id).Nodup

def Jobs.none : Jobs Id := ⟨[], List.nodup_nil⟩

def Jobs.filter (jobs : Jobs Id) (keep : UrlDownloadJob Id → Bool) : Jobs Id where
  list := jobs.list.filter keep
  distinct := jobs.distinct.sublist (List.Sublist.map _ List.filter_sublist)

/-- A map over the jobs; the ids stay. -/
def Jobs.map (jobs : Jobs Id) (f : UrlDownloadJob Id → UrlDownloadJob Id) : Jobs Id where
  list := jobs.list.map fun job => { f job with id := job.id }
  distinct := by
    have ids : (UrlDownloadJob.id ∘ fun job => { f job with id := job.id }) = UrlDownloadJob.id := rfl
    rw [List.map_map, ids]
    exact jobs.distinct

def Jobs.add (jobs : Jobs Id) (job : UrlDownloadJob Id)
    (fresh : job.id ∉ jobs.list.map UrlDownloadJob.id) : Jobs Id where
  list := jobs.list ++ [job]
  distinct := by
    rw [List.map_append, List.map_singleton]
    exact jobs.distinct.append (List.nodup_singleton _) (List.disjoint_singleton.mpr fresh)

/-- The mapping of `load`. -/
def UrlDownloadJob.restored (job : UrlDownloadJob Id) : UrlDownloadJob Id :=
  if job.status = .queued ∨ job.status = .downloading then
    { job with status := .checking, progress := -1 }
  else job

/-- The filter of `load`. -/
def UrlDownloadJob.isRecent (now : Nat) (job : UrlDownloadJob Id) : Bool :=
  if job.status ≠ .done ∧ job.status ≠ .failed then true
  else job.finishedAt.any fun finished => now ≤ finished + UploadStore.day

def load (now : Nat) (saved : Jobs Id) : Jobs Id :=
  (saved.map UrlDownloadJob.restored).filter (UrlDownloadJob.isRecent now)

/-- Where a callback of the timer waits. -/
inductive Callback where
  /-- For `/api/url-downloads`. -/
  | list
  /-- For the entry. -/
  | entry
  deriving DecidableEq, Repr

/-- A call of `waitForEntry`. -/
structure Wait (Id : Type) where
  publicId : PublicId
  job : Id
  /-- The interval timer is armed. -/
  timer : Bool
  callbacks : List Callback
  /-- The promise is. -/
  resolved : Bool
  deriving DecidableEq, Repr

/-- Where `startDownloads` is; `polling` is set unless it is idle. -/
inductive Start (Id : Type) where
  | idle
  /-- `submitOne` waits for the answer. -/
  | submitting (job : Id)
  /-- `submitOne` waits for the entry. -/
  | submitted (wait : Nat)
  /-- `pollUntilIdle` waits before it polls. -/
  | pausing (job : Id) (entryId : PublicId)
  | polling (wait : Nat)
  deriving DecidableEq, Repr

structure State (Id : Type) where
  jobs : Jobs Id
  /-- The list in localStorage. -/
  saved : Jobs Id
  /-- The calls of `waitForEntry` on the page by number. -/
  waits : List (Wait Id)
  start : Start Id

/-- A first visit. -/
def State.first : State Id := ⟨.none, .none, [], .idle⟩

/-- `stored` says whether localStorage had room. -/
def State.persist (stored : Bool) (s : State Id) : State Id :=
  if stored then { s with saved := s.jobs } else s

def State.setJobs (jobs : Jobs Id) (stored : Bool) (s : State Id) : State Id :=
  { s with jobs := jobs }.persist stored

def State.setWait (number : Nat) (wait : Wait Id) (s : State Id) : State Id :=
  { s with waits := s.waits.set number wait }

section
variable (s : State Id) (jobs : Jobs Id) (stored : Bool)

@[simp] theorem setJobs_jobs : (s.setJobs jobs stored).jobs = jobs := by
  unfold State.setJobs State.persist; split <;> rfl

@[simp] theorem setJobs_waits : (s.setJobs jobs stored).waits = s.waits := by
  unfold State.setJobs State.persist; split <;> rfl

@[simp] theorem setJobs_start : (s.setJobs jobs stored).start = s.start := by
  unfold State.setJobs State.persist; split <;> rfl

end

variable [DecidableEq Id]

def State.update (id : Id) (set : UrlDownloadJob Id → UrlDownloadJob Id) (stored : Bool)
    (s : State Id) : State Id :=
  s.setJobs (s.jobs.map fun job => if job.id = id then set job else job) stored

@[simp] theorem update_waits (s : State Id) (id : Id) (set : UrlDownloadJob Id → UrlDownloadJob Id)
    (stored : Bool) : (s.update id set stored).waits = s.waits := setJobs_waits _ _ _

@[simp] theorem update_start (s : State Id) (id : Id) (set : UrlDownloadJob Id → UrlDownloadJob Id)
    (stored : Bool) : (s.update id set stored).start = s.start := setJobs_start _ _ _

/-- A row of the answer of the check, with the id that `randomUUID` gives if it is called for it. -/
structure CheckResult (Id : Type) where
  url : Text
  ok : Bool
  fileName : Option Text
  id : Id
  deriving DecidableEq, Repr

structure CheckUrlsResult where
  added : Nat
  failed : Nat
  deriving DecidableEq, Repr

def CheckResult.job (r : CheckResult Id) : UrlDownloadJob Id :=
  let name := r.fileName.getD r.url
  ⟨r.id, r.url, name, some (UploadStore.defaultTitle name), some [], .queued, 0, none, none, none⟩

/-- The loop of `checkUrls`. -/
def addChecked : List (CheckResult Id) → Jobs Id → CheckUrlsResult →
    Option (Jobs Id × CheckUrlsResult)
  | [], jobs, result => some (jobs, result)
  | r :: rest, jobs, result =>
    if r.ok = false then addChecked rest jobs { result with failed := result.failed + 1 }
    else if jobs.list.any (·.url = r.url) then addChecked rest jobs result
    else if fresh : r.id ∉ jobs.list.map UrlDownloadJob.id then
      addChecked rest (jobs.add r.job fresh) { result with added := result.added + 1 }
    else none

def State.checkUrls (results : List (CheckResult Id)) (stored : Bool) (s : State Id) :
    Option (State Id × CheckUrlsResult) :=
  (addChecked results s.jobs ⟨0, 0⟩).map fun next => (s.setJobs next.1 stored, next.2)

/-- `updateUrlDownload` as the form of a job calls it. -/
def State.edit (id : Id) (title category : Option Text) (stored : Bool) (s : State Id) : State Id :=
  s.update id (fun job => { job with title := title.or job.title, category := category.or job.category })
    stored

def State.removeUrlDownload (id : Id) (stored : Bool) (s : State Id) : State Id :=
  s.setJobs (s.jobs.filter (·.id ≠ id)) stored

/-- `clearUrlDownloads` and `clearAllUrlDownloads`. -/
def State.clear (stored : Bool) (s : State Id) : State Id := s.setJobs .none stored

def State.resetIdleDownloads (stored : Bool) (s : State Id) : State Id :=
  if s.jobs.list.any (fun job => !job.isFinished) || s.jobs.list = [] then s
  else s.setJobs .none stored

/-- The page goes and comes back. -/
def State.reload (now : Nat) (s : State Id) : State Id := ⟨load now s.saved, s.saved, [], .idle⟩

/-- What `pollUntilIdle` looks for. -/
def UrlDownloadJob.polled (job : UrlDownloadJob Id) : Option (Id × PublicId) :=
  if job.status = .downloading then job.entryId.map fun entryId => (job.id, entryId) else none

/-- The head of the loop of `pollUntilIdle`; `startDownloads` ends after it. -/
def State.pollNext (s : State Id) : State Id :=
  match s.jobs.list.findSome? UrlDownloadJob.polled with
  | none => { s with start := .idle }
  | some (id, entryId) => { s with start := .pausing id entryId }

/-- The head of the loop of `startDownloads`. -/
def State.submitNext (stored : Bool) (s : State Id) : State Id :=
  match s.jobs.list.find? (·.status = .queued) with
  | none => s.pollNext
  | some next =>
    { s.update next.id (fun job => { job with status := .downloading, progress := -1, error := none })
        stored with start := .submitting next.id }

/-- A call of `waitForEntry`. -/
def State.waitForEntry (publicId : PublicId) (job : Id) (s : State Id) : State Id :=
  { s with waits := s.waits ++ [⟨publicId, job, true, [], false⟩] }

/-- How the request of `submitOne` ends, with the first row of its answer. -/
inductive Submission where
  | throws
  | refused (reason : Option Text)
  | accepted (entryId : PublicId)
  deriving DecidableEq, Repr

/-- `submitOne` from the answer on. -/
def State.submitOne (id : Id) (now : Nat) (stored : Bool) (s : State Id) : Submission → State Id
  | .throws => { s with start := .idle }
  | .refused reason =>
    (s.update id (fun job =>
      { job with
        status := .failed
        error := some (reason.getD "request failed".toList)
        finishedAt := some now }) stored).submitNext stored
  | .accepted entryId =>
    { (s.update id (fun job => { job with entryId := some entryId }) stored).waitForEntry entryId id with
      start := .submitted s.waits.length }

/-- A row of `/api/url-downloads`. -/
structure ActiveDownload where
  publicId : Text
  bytes : Nat
  totalBytes : Int
  deriving DecidableEq, Repr

/-- The percentage, rounded half up. -/
def ActiveDownload.progress (row : ActiveDownload) : Int :=
  min 99 ((200 * row.bytes + row.totalBytes) / (2 * row.totalBytes))

structure EntryStatus where
  status : Text
  error : Option Text
  deriving DecidableEq, Repr

def Wait.ended (wait : Wait Id) (i : Nat) : Wait Id :=
  { wait with callbacks := wait.callbacks.eraseIdx i }

/-- The callback from the answer of `/api/url-downloads` on; nothing if the request fails. -/
def State.listReply (number : Nat) (wait : Wait Id) (i : Nat) (rows : Option (List ActiveDownload))
    (stored : Bool) (s : State Id) : State Id :=
  match rows with
  | none => s.setWait number (wait.ended i)
  | some active =>
    match active.find? (·.publicId = wait.publicId.1) with
    | some row =>
      (if 0 < row.totalBytes then
        s.update wait.job (fun job => { job with progress := row.progress }) stored
      else s).setWait number (wait.ended i)
    | none => s.setWait number { wait with timer := false, callbacks := wait.callbacks.set i .entry }

/-- What becomes of the job. -/
def EntryStatus.finish (entry : EntryStatus) (now : Nat) (job : UrlDownloadJob Id) : UrlDownloadJob Id :=
  if entry.status = "failed".toList then
    { job with
      status := .failed
      error := some (entry.error.getD "download failed".toList)
      progress := -1
      finishedAt := some now }
  else { job with status := .done, progress := 100, finishedAt := some now }

/-- The callback from the answer for the entry on. -/
def State.entryReply (number : Nat) (wait : Wait Id) (i : Nat) (entry : Option EntryStatus)
    (now : Nat) (stored : Bool) (s : State Id) : State Id :=
  match entry with
  | none => s.setWait number (wait.ended i)
  | some entry =>
    (s.update wait.job (entry.finish now) stored).setWait number { wait.ended i with resolved := true }

inductive Action (Id : Type) where
  | checkUrls (results : List (CheckResult Id)) (stored : Bool)
  | edit (id : Id) (title category : Option Text) (stored : Bool)
  | removeUrlDownload (id : Id) (stored : Bool)
  | clear (stored : Bool)
  | resetIdleDownloads (stored : Bool)
  | reload (now : Nat)
  | startDownloads (stored : Bool)
  | submitted (answer : Submission) (now : Nat) (stored : Bool)
  /-- The pause of `pollUntilIdle` is over. -/
  | pauseOver
  /-- The promise that `startDownloads` waits for is resolved. -/
  | goOn (stored : Bool)
  /-- The timer of a wait fires. -/
  | tick (number : Nat)
  | listReply (number i : Nat) (rows : Option (List ActiveDownload)) (stored : Bool)
  | entryReply (number i : Nat) (entry : Option EntryStatus) (now : Nat) (stored : Bool)
  deriving DecidableEq, Repr

def State.callback (number i : Nat) (at' : Callback) (s : State Id) : Option (Wait Id) :=
  s.waits[number]?.filter fun wait => wait.callbacks[i]? = some at'

def State.isResolved (number : Nat) (s : State Id) : Bool := s.waits[number]?.any Wait.resolved

def step (s : State Id) : Action Id → Option (State Id)
  | .checkUrls results stored => (s.checkUrls results stored).map Prod.fst
  | .edit id title category stored => some (s.edit id title category stored)
  | .removeUrlDownload id stored => some (s.removeUrlDownload id stored)
  | .clear stored => some (s.clear stored)
  | .resetIdleDownloads stored => some (s.resetIdleDownloads stored)
  | .reload now => some (s.reload now)
  | .startDownloads stored => some (if s.start = .idle then s.submitNext stored else s)
  | .submitted answer now stored =>
    match s.start with
    | .submitting id => some (s.submitOne id now stored answer)
    | _ => none
  | .pauseOver =>
    match s.start with
    | .pausing id entryId => some { s.waitForEntry entryId id with start := .polling s.waits.length }
    | _ => none
  | .goOn stored =>
    match s.start with
    | .submitted number => if s.isResolved number then some (s.submitNext stored) else none
    | .polling number => if s.isResolved number then some s.pollNext else none
    | _ => none
  | .tick number =>
    (s.waits[number]?.filter Wait.timer).map fun wait =>
      s.setWait number { wait with callbacks := wait.callbacks ++ [.list] }
  | .listReply number i rows stored =>
    (s.callback number i .list).map fun wait => s.listReply number wait i rows stored
  | .entryReply number i entry now stored =>
    (s.callback number i .entry).map fun wait => s.entryReply number wait i entry now stored

variable {s s' : State Id} {stored : Bool}

theorem checkUrls_cases {results : List (CheckResult Id)}
    (taken : step s (.checkUrls results stored) = some s') :
    ∃ next, addChecked results s.jobs ⟨0, 0⟩ = some next ∧ s' = s.setJobs next.1 stored := by
  simp only [step, State.checkUrls, Option.map_map, Option.map_eq_some_iff] at taken
  obtain ⟨next, checked, rfl⟩ := taken
  exact ⟨next, checked, rfl⟩

theorem submitted_cases {answer : Submission} {now : Nat}
    (taken : step s (.submitted answer now stored) = some s') :
    ∃ id, s.start = .submitting id ∧ s' = s.submitOne id now stored answer := by
  simp only [step] at taken
  split at taken
  · next id start =>
    cases taken
    exact ⟨id, start, rfl⟩
  · cases taken

theorem pauseOver_cases (taken : step s .pauseOver = some s') : ∃ id entryId,
    s.start = .pausing id entryId ∧
      s' = { s.waitForEntry entryId id with start := .polling s.waits.length } := by
  simp only [step] at taken
  split at taken
  · next id entryId start =>
    cases taken
    exact ⟨id, entryId, start, rfl⟩
  · cases taken

theorem goOn_cases (taken : step s (.goOn stored) = some s') :
    (∃ number, s.start = .submitted number ∧ s.isResolved number = true ∧ s' = s.submitNext stored) ∨
      ∃ number, s.start = .polling number ∧ s.isResolved number = true ∧ s' = s.pollNext := by
  simp only [step] at taken
  split at taken
  · next number start =>
    split at taken
    · next resolved =>
      cases taken
      exact .inl ⟨number, start, resolved, rfl⟩
    · cases taken
  · next number start =>
    split at taken
    · next resolved =>
      cases taken
      exact .inr ⟨number, start, resolved, rfl⟩
    · cases taken
  · cases taken

theorem tick_cases {number : Nat} (taken : step s (.tick number) = some s') : ∃ wait,
    s.waits[number]? = some wait ∧ wait.timer = true ∧
      s' = s.setWait number { wait with callbacks := wait.callbacks ++ [.list] } := by
  simp only [step, Option.map_eq_some_iff, Option.filter_eq_some_iff] at taken
  obtain ⟨wait, ⟨found, armed⟩, rfl⟩ := taken
  exact ⟨wait, found, armed, rfl⟩

end

end Vidsilo.Web.DownloadStore
