import Vidsilo.Library.KeyMap
import Vidsilo.Library.SlashPath
import Vidsilo.Library.Transition

/-!
# The upload store of the browser

Source: web/lib/upload-store.ts, web/lib/idb.ts, web/components/upload-dialog.tsx (who calls them).
One step is what runs between two `await`s. IndexedDB succeeds, localStorage may be full. Ids are
those of `crypto.randomUUID`, which never repeat. One tab is open. The listeners of the view, the mark
of a completed batch and the percentage of an empty file are left out.
-/
namespace Vidsilo.Web.UploadStore
open Library Library.SlashPath Library.Transition

inductive UploadStatus where
  | queued | uploading | done | failed | interrupted
  deriving DecidableEq, Repr

/-- Name and size of the selected file; the bytes play no part. -/
structure File where
  name : Text
  size : Nat
  deriving DecidableEq, Repr

structure UploadJob (Id : Type) where
  id : Id
  fileName : Text
  fileSize : Nat
  title : Text
  description : Text
  category : Text
  progress : Nat
  status : UploadStatus
  error : Option Text
  uploadUrl : Option Text
  /-- In milliseconds. -/
  finishedAt : Option Nat
  deriving DecidableEq, Repr

/-- `Partial<UploadJob>`; an inner `none` is `undefined`. -/
structure Patch where
  title : Option Text
  description : Option Text
  category : Option Text
  progress : Option Nat
  status : Option UploadStatus
  error : Option (Option Text)
  uploadUrl : Option Text
  finishedAt : Option Nat
  deriving DecidableEq, Repr

def Patch.nothing : Patch := ⟨none, none, none, none, none, none, none, none⟩

section
variable {Id : Type}

def UploadJob.patch (job : UploadJob Id) (patch : Patch) : UploadJob Id where
  id := job.id
  fileName := job.fileName
  fileSize := job.fileSize
  title := patch.title.getD job.title
  description := patch.description.getD job.description
  category := patch.category.getD job.category
  progress := patch.progress.getD job.progress
  status := patch.status.getD job.status
  error := patch.error.getD job.error
  uploadUrl := patch.uploadUrl.or job.uploadUrl
  finishedAt := patch.finishedAt.or job.finishedAt

/-- A job that the batch still has to start. -/
def UploadJob.isPending (job : UploadJob Id) : Bool :=
  job.status = .queued || job.status = .interrupted

/-- A job list, each id once. -/
structure Jobs (Id : Type) where
  list : List (UploadJob Id)
  distinct : (list.map UploadJob.id).Nodup

def Jobs.none : Jobs Id := ⟨[], List.nodup_nil⟩

def Jobs.filter (jobs : Jobs Id) (keep : UploadJob Id → Bool) : Jobs Id where
  list := jobs.list.filter keep
  distinct := jobs.distinct.sublist (List.Sublist.map _ List.filter_sublist)

/-- A map over the jobs that keeps every id. -/
def Jobs.map (jobs : Jobs Id) (f : UploadJob Id → UploadJob Id) (same : ∀ job, (f job).id = job.id) :
    Jobs Id where
  list := jobs.list.map f
  distinct := by
    have ids : UploadJob.id ∘ f = UploadJob.id := funext same
    rw [List.map_map, ids]
    exact jobs.distinct

def Jobs.add (jobs : Jobs Id) (job : UploadJob Id) (fresh : job.id ∉ jobs.list.map UploadJob.id) :
    Jobs Id where
  list := jobs.list ++ [job]
  distinct := by
    rw [List.map_append, List.map_singleton]
    exact jobs.distinct.append (List.nodup_singleton _) (List.disjoint_singleton.mpr fresh)

def day : Nat := 24 * 60 * 60 * 1000

/-- The mapping of `load`. -/
def UploadJob.restored (job : UploadJob Id) : UploadJob Id :=
  if job.status = .uploading ∨ job.status = .queued then { job with status := .interrupted } else job

/-- The filter of `load`. -/
def UploadJob.isRecent (now : Nat) (job : UploadJob Id) : Bool :=
  if job.status ≠ .done ∧ job.status ≠ .failed then true
  else job.finishedAt.any fun finished => now ≤ finished + day

def load (now : Nat) (saved : Jobs Id) : Jobs Id :=
  (saved.map UploadJob.restored fun job => by unfold UploadJob.restored; split <;> rfl).filter
    (UploadJob.isRecent now)

def defaultTitle (name : Text) : Text :=
  let extension := name.reverse.takeWhile (· ≠ '.')
  match name.reverse.drop extension.length with
  | [] => name
  | _ :: base => if extension = [] then name else base.reverse

def maxBatch : Nat := 10

inductive UploadState where
  | running
  /-- Stopped, with no callback. -/
  | aborted
  /-- `onSuccess` or `onError` has run and resolved the promise. -/
  | finished
  deriving DecidableEq, Repr

/-- A `tus.Upload`. -/
structure Upload (Id : Type) where
  id : Id
  file : File
  uploadUrl : Option Text
  state : UploadState
  deriving DecidableEq, Repr

/-- Where a call of `startJob` waits, with the job object it holds. -/
inductive Await (Id : Type) where
  /-- For the read of IndexedDB. -/
  | blob (job : UploadJob Id)
  /-- To go on with what was read. -/
  | file (job : UploadJob Id) (file : Option File)
  /-- For the promise of an upload. -/
  | upload (number : Nat)
  deriving DecidableEq, Repr

/-- Where `startAll` is, and whether `batchRunning` is set. -/
inductive Batch (Id : Type) where
  | idle
  /-- Before it looks for the next job. -/
  | head
  | inside (await : Await Id)
  deriving DecidableEq, Repr

structure State (Id : Type) where
  jobs : Jobs Id
  files : KeyMap Id File
  activeUploads : KeyMap Id Nat
  /-- The uploads of the page by number. -/
  uploads : List (Upload Id)
  batch : Batch Id
  /-- Calls of `startJob` by others than `startAll`. -/
  others : List (Await Id)
  idb : KeyMap Id File
  /-- The list in localStorage. -/
  saved : Jobs Id

/-- A first visit. -/
def State.first : State Id := ⟨.none, ∅, ∅, [], .idle, [], ∅, .none⟩

/-- `stored` says whether localStorage had room. -/
def State.persist (stored : Bool) (s : State Id) : State Id :=
  if stored then { s with saved := s.jobs } else s

section
variable (s : State Id) (stored : Bool)

@[simp] theorem persist_jobs : (s.persist stored).jobs = s.jobs := by
  unfold State.persist; split <;> rfl

@[simp] theorem persist_files : (s.persist stored).files = s.files := by
  unfold State.persist; split <;> rfl

@[simp] theorem persist_idb : (s.persist stored).idb = s.idb := by
  unfold State.persist; split <;> rfl

@[simp] theorem persist_activeUploads : (s.persist stored).activeUploads = s.activeUploads := by
  unfold State.persist; split <;> rfl

@[simp] theorem persist_uploads : (s.persist stored).uploads = s.uploads := by
  unfold State.persist; split <;> rfl

@[simp] theorem persist_batch : (s.persist stored).batch = s.batch := by
  unfold State.persist; split <;> rfl

@[simp] theorem persist_others : (s.persist stored).others = s.others := by
  unfold State.persist; split <;> rfl

end

variable [DecidableEq Id]

def Jobs.update (jobs : Jobs Id) (id : Id) (patch : Patch) : Jobs Id :=
  jobs.map (fun job => if job.id = id then job.patch patch else job)
    fun job => by split <;> rfl

def State.updateJob (id : Id) (patch : Patch) (stored : Bool) (s : State Id) : State Id :=
  { s with jobs := s.jobs.update id patch }.persist stored

structure AddFilesResult where
  added : Nat
  duplicates : Nat
  overLimit : Nat
  deriving DecidableEq, Repr

def UploadJob.isOf (f : File) (job : UploadJob Id) : Bool :=
  job.fileName = f.name && job.fileSize = f.size

def State.resumable (f : File) (s : State Id) : Option (UploadJob Id) :=
  s.jobs.list.find? fun job => job.isOf f && job.status = .interrupted && job.uploadUrl.any (· ≠ [])

def State.isDuplicate (f : File) (s : State Id) : Bool :=
  s.jobs.list.any fun job => job.isOf f && job.status ≠ .done && job.status ≠ .failed

def State.slots (s : State Id) : Nat :=
  maxBatch - (s.jobs.list.filter fun job => job.status ≠ .done && job.status ≠ .failed).length

def newJob (id : Id) (f : File) : UploadJob Id :=
  ⟨id, f.name, f.size, defaultTitle f.name, [], [], 0, .queued, none, none, none⟩

/-- A file of `addFiles`, the id that `randomUUID` gives if it is called for it, and whether the
list is stored if the file resumes a job. -/
structure Selected (Id : Type) where
  file : File
  id : Id
  stored : Bool
  deriving DecidableEq, Repr

/-- The loop of `addFiles`. -/
def addFile (slots : Nat) (s : State Id) (result : AddFilesResult) (selected : Selected Id) :
    Option (State Id × AddFilesResult) :=
  let f := selected.file
  let id := selected.id
  match s.resumable f with
  | some job =>
    some ({ s with
      files := s.files.insert job.id f
      idb := s.idb.insert job.id f
      jobs := s.jobs.update job.id { Patch.nothing with status := some .queued } }.persist
        selected.stored, { result with added := result.added + 1 })
  | none =>
    if s.isDuplicate f then some (s, { result with duplicates := result.duplicates + 1 })
    else if slots ≤ result.added then some (s, { result with overLimit := result.overLimit + 1 })
    else if fresh : id ∉ s.jobs.list.map UploadJob.id then
      some ({ s with
        files := s.files.insert id f
        idb := s.idb.insert id f
        jobs := s.jobs.add (newJob id f) fresh },
        { result with added := result.added + 1 })
    else none

def addFilesLoop (slots : Nat) : List (Selected Id) → State Id → AddFilesResult →
    Option (State Id × AddFilesResult)
  | [], s, result => some (s, result)
  | selected :: rest, s, result =>
    (addFile slots s result selected).bind fun next => addFilesLoop slots rest next.1 next.2

def State.addFiles (newFiles : List (Selected Id)) (stored : Bool) (s : State Id) :
    Option (State Id × AddFilesResult) :=
  (addFilesLoop s.slots newFiles s ⟨0, 0, 0⟩).map fun next => (next.1.persist stored, next.2)

def Upload.abort (upload : Upload Id) : Upload Id :=
  if upload.state = .running then { upload with state := .aborted } else upload

def State.abort (s : State Id) (number : Nat) : State Id :=
  { s with uploads := s.uploads.modify number Upload.abort }

def State.abortAll (s : State Id) : State Id :=
  (s.activeUploads.entries.map fun e => e.2).foldl State.abort s

def State.removeJob (id : Id) (stored : Bool) (s : State Id) : State Id :=
  let s := (s.activeUploads.lookup id).elim s s.abort
  { s with
    activeUploads := s.activeUploads.erase id
    jobs := s.jobs.filter (·.id ≠ id)
    files := s.files.erase id
    idb := s.idb.erase id }.persist stored

def State.isActive (s : State Id) : Bool :=
  s.jobs.list.any fun job =>
    job.status = .uploading || job.status = .queued || job.status = .interrupted

def State.resetIdle (stored : Bool) (s : State Id) : State Id :=
  if !s.isActive && 0 < s.jobs.list.length then
    { s with jobs := .none, files := ∅ }.persist stored
  else s

def State.clearUploads (stored : Bool) (s : State Id) : State Id :=
  let s := s.abortAll
  { s with
    idb := s.idb.keep fun id _ => id ∉ s.activeUploads
    activeUploads := ∅
    files := ∅
    jobs := .none }.persist stored

def State.clearAllUploads (stored : Bool) (s : State Id) : State Id :=
  { s.abortAll with activeUploads := ∅, jobs := .none, files := ∅ }.persist stored

/-- The page goes and comes back. -/
def State.reload (now : Nat) (s : State Id) : State Id :=
  ⟨load now s.saved, ∅, ∅, [], .idle, [], s.idb, s.saved⟩

/-- The patch that an upload starts with. -/
def started : Patch := { Patch.nothing with status := some .uploading, error := some none }

/-- `startJob` from the patch of the status to the wait for the upload. -/
def State.launch (job : UploadJob Id) (file : File) (stored : Bool) (s : State Id) :
    State Id × Option (Await Id) :=
  let s := s.updateJob job.id started stored
  ({ s with
    uploads := s.uploads ++ [⟨job.id, file, job.uploadUrl, .running⟩]
    activeUploads := s.activeUploads.insert job.id s.uploads.length },
    some (.upload s.uploads.length))

/-- A call of `startJob` up to its first wait, if it comes to one. -/
def State.startJob (id : Id) (stored : Bool) (s : State Id) : State Id × Option (Await Id) :=
  match s.jobs.list.find? (·.id = id) with
  | none => (s, none)
  | some job =>
    if job.status = .uploading ∨ job.status = .done then (s, none)
    else match s.files.lookup id with
      | some file => s.launch job file stored
      | none => (s, some (.blob job))

inductive Caller where
  | startAll
  | other (i : Nat)
  deriving DecidableEq, Repr

def State.await (s : State Id) : Caller → Option (Await Id)
  | .startAll =>
    match s.batch with
    | .inside await => some await
    | _ => none
  | .other i => s.others[i]?

/-- The call waits again, or returns. -/
def State.goOn (who : Caller) (next : State Id × Option (Await Id)) : State Id :=
  match who, next with
  | .startAll, (s, some await) => { s with batch := .inside await }
  | .startAll, (s, none) => { s with batch := .head }
  | .other i, (s, some await) => { s with others := s.others.set i await }
  | .other i, (s, none) => { s with others := s.others.eraseIdx i }

/-- A wait of `startJob` ends. -/
def State.resume (stored : Bool) (s : State Id) : Await Id → Option (State Id × Option (Await Id))
  | .blob job => some (s, some (.file job (s.idb.lookup job.id)))
  | .file _ none => some (s, none)
  | .file job (some file) =>
    some ({ s with files := s.files.insert job.id file }.launch job file stored)
  | .upload number =>
    match s.uploads[number]? with
    | some upload => if upload.state = .finished then some (s, none) else none
    | none => none

def percent (bytesSent bytesTotal : Nat) : Nat := (200 * bytesSent + bytesTotal) / (2 * bytesTotal)

inductive Callback where
  | onProgress (bytesSent bytesTotal : Nat)
  | onUploadUrlAvailable (url : Text)
  | onSuccess
  | onError (message : Text)
  deriving DecidableEq, Repr

def State.settle (number : Nat) (upload : Upload Id) (s : State Id) : State Id :=
  { s with
    uploads := s.uploads.modify number fun upload => { upload with state := .finished }
    activeUploads := s.activeUploads.erase upload.id }

def State.callback (number : Nat) (upload : Upload Id) (now : Nat) (stored : Bool) (s : State Id) :
    Callback → State Id
  | .onProgress bytesSent bytesTotal =>
    s.updateJob upload.id { Patch.nothing with progress := some (percent bytesSent bytesTotal) } stored
  | .onUploadUrlAvailable url =>
    s.updateJob upload.id { Patch.nothing with uploadUrl := some url } stored
  | .onSuccess =>
    { s.settle number upload with idb := s.idb.erase upload.id }.updateJob upload.id
      { Patch.nothing with progress := some 100, status := some .done, finishedAt := some now } stored
  | .onError message =>
    (s.settle number upload).updateJob upload.id
      { Patch.nothing with status := some .failed, error := some (some message), finishedAt := some now }
      stored

inductive Action (Id : Type) where
  | addFiles (newFiles : List (Selected Id)) (stored : Bool)
  | updateJob (id : Id) (patch : Patch) (stored : Bool)
  | removeJob (id : Id) (stored : Bool)
  | resetIdle (stored : Bool)
  | clearUploads (stored : Bool)
  | clearAllUploads (stored : Bool)
  | reload (now : Nat)
  /-- A call of `startAll`. -/
  | startAll
  /-- One iteration of its loop starts. -/
  | next (stored : Bool)
  /-- A call of `startJob` by the view. -/
  | startJob (id : Id) (stored : Bool)
  | resume (who : Caller) (stored : Bool)
  | callback (number : Nat) (now : Nat) (stored : Bool) (call : Callback)
  deriving DecidableEq, Repr

def step (s : State Id) : Action Id → Option (State Id)
  | .addFiles newFiles stored => (s.addFiles newFiles stored).map Prod.fst
  | .updateJob id patch stored => some (s.updateJob id patch stored)
  | .removeJob id stored => some (s.removeJob id stored)
  | .resetIdle stored => some (s.resetIdle stored)
  | .clearUploads stored => some (s.clearUploads stored)
  | .clearAllUploads stored => some (s.clearAllUploads stored)
  | .reload now => some (s.reload now)
  | .startAll => some (if s.batch = .idle then { s with batch := .head } else s)
  | .next stored =>
    if s.batch = .head then
      match s.jobs.list.find? UploadJob.isPending with
      | none => some { s with batch := .idle }
      | some job => some (State.goOn .startAll (s.startJob job.id stored))
    else none
  | .startJob id stored =>
    match s.startJob id stored with
    | (s', none) => some s'
    | (s', some await) => some { s' with others := s'.others ++ [await] }
  | .resume who stored =>
    (s.await who).bind fun await => (s.resume stored await).map (State.goOn who)
  | .callback number now stored call =>
    match s.uploads[number]? with
    | some upload => if upload.state = .running then some (s.callback number upload now stored call) else none
    | none => none

section
variable (s : State Id) (stored : Bool) (id : Id) (patch : Patch)

@[simp] theorem updateJob_jobs : (s.updateJob id patch stored).jobs = s.jobs.update id patch :=
  persist_jobs _ _

@[simp] theorem updateJob_files : (s.updateJob id patch stored).files = s.files :=
  persist_files _ _

@[simp] theorem updateJob_idb : (s.updateJob id patch stored).idb = s.idb :=
  persist_idb _ _

@[simp] theorem updateJob_activeUploads :
    (s.updateJob id patch stored).activeUploads = s.activeUploads :=
  persist_activeUploads _ _

@[simp] theorem updateJob_uploads : (s.updateJob id patch stored).uploads = s.uploads :=
  persist_uploads _ _

@[simp] theorem updateJob_batch : (s.updateJob id patch stored).batch = s.batch :=
  persist_batch _ _

@[simp] theorem updateJob_others : (s.updateJob id patch stored).others = s.others :=
  persist_others _ _

end

omit [DecidableEq Id] in
@[simp] theorem goOn_jobs (who : Caller) (next : State Id × Option (Await Id)) :
    (State.goOn who next).jobs = next.1.jobs := by
  obtain ⟨s, await⟩ := next
  cases who <;> cases await <;> rfl

omit [DecidableEq Id] in
@[simp] theorem goOn_files (who : Caller) (next : State Id × Option (Await Id)) :
    (State.goOn who next).files = next.1.files := by
  obtain ⟨s, await⟩ := next
  cases who <;> cases await <;> rfl

omit [DecidableEq Id] in
@[simp] theorem goOn_idb (who : Caller) (next : State Id × Option (Await Id)) :
    (State.goOn who next).idb = next.1.idb := by
  obtain ⟨s, await⟩ := next
  cases who <;> cases await <;> rfl

theorem launch_eq (job : UploadJob Id) (file : File) (stored : Bool) (s : State Id) :
    (s.launch job file stored).1.jobs = s.jobs.update job.id started ∧
      (s.launch job file stored).1.files = s.files ∧ (s.launch job file stored).1.idb = s.idb ∧
      (s.launch job file stored).2 = some (.upload s.uploads.length) := by
  simp [State.launch]

/-- An id finds its job. -/
theorem find?_id {jobs : Jobs Id} {job : UploadJob Id} (mem : job ∈ jobs.list) :
    jobs.list.find? (·.id = job.id) = some job := by
  cases found : jobs.list.find? (·.id = job.id) with
  | none =>
    have differs := List.find?_eq_none.mp found job mem
    simp at differs
  | some other =>
    have same : other.id = job.id := by simpa using List.find?_some found
    rw [List.inj_on_of_nodup_map jobs.distinct (List.mem_of_find?_eq_some found) mem same]

/-- What `startJob` comes to before its first wait. -/
theorem startJob_cases (s : State Id) (id : Id) (stored : Bool) :
    (s.startJob id stored = (s, none) ∧ ∀ job ∈ s.jobs.list.find? (·.id = id),
      job.status = .uploading ∨ job.status = .done) ∨
    ∃ job, s.jobs.list.find? (·.id = id) = some job ∧ job.status ≠ .uploading ∧ job.status ≠ .done ∧
      ((s.files.lookup id = none ∧ s.startJob id stored = (s, some (.blob job))) ∨
        ∃ file, s.files.lookup id = some file ∧ s.startJob id stored = s.launch job file stored) := by
  unfold State.startJob
  cases found : s.jobs.list.find? (·.id = id) with
  | none => exact .inl ⟨rfl, by simp⟩
  | some job =>
    dsimp only
    by_cases started : job.status = .uploading ∨ job.status = .done
    · rw [if_pos started]
      refine .inl ⟨rfl, fun job' same => ?_⟩
      cases same
      exact started
    · rw [if_neg started]
      rw [not_or] at started
      refine .inr ⟨job, rfl, started.1, started.2, ?_⟩
      cases s.files.lookup id with
      | none => exact .inl ⟨rfl, rfl⟩
      | some file => exact .inr ⟨file, rfl, rfl⟩

theorem resume_cases {s : State Id} {stored : Bool} {await : Await Id}
    {next : State Id × Option (Await Id)} (ends : s.resume stored await = some next) :
    (∃ job, await = .blob job ∧ next = (s, some (.file job (s.idb.lookup job.id)))) ∨
    (∃ job, await = .file job none ∧ next = (s, none)) ∨
    (∃ job file, await = .file job (some file) ∧
      next = { s with files := s.files.insert job.id file }.launch job file stored) ∨
    ∃ number upload, await = .upload number ∧ s.uploads[number]? = some upload ∧
      upload.state = .finished ∧ next = (s, none) := by
  cases await with
  | blob job =>
    cases ends
    exact .inl ⟨job, rfl, rfl⟩
  | file job file =>
    cases file with
    | none =>
      cases ends
      exact .inr (.inl ⟨job, rfl, rfl⟩)
    | some file =>
      cases ends
      exact .inr (.inr (.inl ⟨job, file, rfl, rfl⟩))
  | upload number =>
    unfold State.resume at ends
    dsimp only at ends
    split at ends
    next upload found =>
      split at ends
      next finished =>
        cases ends
        exact .inr (.inr (.inr ⟨number, upload, rfl, found, finished, rfl⟩))
      · cases ends
    · cases ends

theorem next_cases {s s' : State Id} {stored : Bool} (taken : step s (.next stored) = some s') :
    s.batch = .head ∧
      ((s.jobs.list.find? UploadJob.isPending = none ∧ s' = { s with batch := .idle }) ∨
        ∃ job, s.jobs.list.find? UploadJob.isPending = some job ∧
          s' = State.goOn .startAll (s.startJob job.id stored)) := by
  unfold step at taken
  dsimp only at taken
  split at taken
  next atHead =>
    refine ⟨atHead, ?_⟩
    split at taken
    next noJob =>
      cases taken
      exact .inl ⟨noJob, rfl⟩
    next job found =>
      cases taken
      exact .inr ⟨job, found, rfl⟩
  · cases taken

theorem callback_cases {s s' : State Id} {number now : Nat} {stored : Bool} {call : Callback}
    (taken : step s (.callback number now stored call) = some s') :
    ∃ upload, s.uploads[number]? = some upload ∧ upload.state = .running ∧
      s' = s.callback number upload now stored call := by
  unfold step at taken
  dsimp only at taken
  split at taken
  next upload found =>
    split at taken
    next running =>
      cases taken
      exact ⟨upload, found, running, rfl⟩
    · cases taken
  · cases taken

omit [DecidableEq Id] in
/-- Aborting stops uploads and does nothing else. -/
theorem abortAll_eq (s : State Id) : s.abortAll = { s with uploads := s.abortAll.uploads } := by
  have loop (numbers : List Nat) (t : State Id) : numbers.foldl State.abort t =
      { t with uploads := (numbers.foldl State.abort t).uploads } := by
    induction numbers generalizing t with
    | nil => rfl
    | cons number rest ih =>
      rw [List.foldl_cons]
      exact ih (t.abort number)
  exact loop _ s

/-- Adding files touches the list and the two stores of blobs only. -/
theorem addFile_frame {slots : Nat} {s s' : State Id} {result result' : AddFilesResult}
    {selected : Selected Id} (added : addFile slots s result selected = some (s', result')) :
    s'.uploads = s.uploads ∧ s'.activeUploads = s.activeUploads ∧ s'.batch = s.batch ∧
      s'.others = s.others := by
  unfold addFile at added
  dsimp only at added
  split at added
  · cases added
    simp
  · split at added
    · cases added
      exact ⟨rfl, rfl, rfl, rfl⟩
    · split at added
      · cases added
        exact ⟨rfl, rfl, rfl, rfl⟩
      · split at added
        · cases added
          exact ⟨rfl, rfl, rfl, rfl⟩
        · cases added

/-- What every file of the loop keeps, the loop keeps. -/
theorem addFilesLoop_invariant {slots : Nat} (inv : State Id → Prop)
    (keeps : ∀ {s s' : State Id} {result result' : AddFilesResult} {selected : Selected Id}, inv s →
      addFile slots s result selected = some (s', result') → inv s')
    {newFiles : List (Selected Id)} {s s' : State Id} {result result' : AddFilesResult} (holds : inv s)
    (added : addFilesLoop slots newFiles s result = some (s', result')) : inv s' := by
  induction newFiles generalizing s result with
  | nil =>
    cases added
    exact holds
  | cons selected rest ih =>
    obtain ⟨⟨mid, count⟩, one, later⟩ := Option.bind_eq_some_iff.mp added
    exact ih (keeps holds one) later

theorem addFiles_frame {s s' : State Id} {newFiles : List (Selected Id)} {stored : Bool}
    (taken : step s (.addFiles newFiles stored) = some s') :
    s'.uploads = s.uploads ∧ s'.activeUploads = s.activeUploads ∧ s'.batch = s.batch ∧
      s'.others = s.others := by
  simp only [step, State.addFiles, Option.map_map, Option.map_eq_some_iff] at taken
  obtain ⟨⟨mid, count⟩, added, rfl⟩ := taken
  have same := addFilesLoop_invariant (fun t => t.uploads = s.uploads ∧
    t.activeUploads = s.activeUploads ∧ t.batch = s.batch ∧ t.others = s.others)
    (fun holds one => by
      obtain ⟨uploads, active, batch, others⟩ := addFile_frame one
      exact ⟨uploads.trans holds.1, active.trans holds.2.1, batch.trans holds.2.2.1,
        others.trans holds.2.2.2⟩)
    ⟨rfl, rfl, rfl, rfl⟩ added
  simpa using same

end

end Vidsilo.Web.UploadStore
