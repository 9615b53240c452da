import Vidsilo.Jobs.Tables
import Vidsilo.Library.Procedure

/-!
# The sweep of stale uploads

Source: cmd/vidsilo/cleanup.go, internal/upload/upload.go (NewUpload, GetUpload, WriteChunk,
FinishUpload, Terminate), internal/api/fromurl.go (handleFromURLSubmit), internal/jobs/jobs.go
(Download, as what it does to the status of the entry). Every statement and every operation on the
spool is one step; calls take turns, and time passes. `now()` is the time of the step. The queue may
set a download job to any status. `url_downloads` and the probe jobs play no part.
-/
namespace Vidsilo.Worker.Cleanup
open Library Library.Procedure Library.Transition Queue.Table Jobs.Tables

/-- In microseconds. -/
def day : Nat := 24 * 60 * 60 * 1000000

structure Entry where
  status : EntryStatus
  createdAt : Nat
  deriving DecidableEq, Repr

/-- The row of an upload; which statement deleted it is for the proofs only. -/
inductive UploadRow where
  | present
  /-- By `cleanupStaleUploads`. -/
  | swept
  | deleted
  deriving DecidableEq, Repr

structure Upload where
  entryId : Nat
  createdAt : Nat
  row : UploadRow
  /-- The spool file exists. -/
  spool : Bool
  /-- When `WriteChunk` last wrote. -/
  lastChunk : Option Nat
  deriving DecidableEq, Repr

structure DownloadJob where
  entryId : Nat
  status : JobStatus
  deriving DecidableEq, Repr

/-- A paused job is a queued one. -/
def DownloadJob.isActive (job : DownloadJob) : Bool :=
  job.status = .queued || job.status = .running

/-- Ids are positions; a deleted entry leaves `none`. -/
structure World where
  now : Nat
  entries : List (Option Entry)
  uploads : List Upload
  jobs : List DownloadJob
  deriving DecidableEq, Repr

def new (now : Nat) : World := ⟨now, [], [], []⟩

def World.entry (w : World) (id : Nat) : Option Entry := w.entries[id]?.join

def World.setUpload (w : World) (u : Nat) (f : Upload → Upload) : World :=
  { w with uploads := w.uploads.modify u f }

def Upload.isStale (now : Nat) (up : Upload) : Bool := up.createdAt + day < now

/-- What the sweep selects. -/
def World.staleUploads (w : World) : List Nat :=
  (List.range w.uploads.length).filter fun u =>
    w.uploads[u]?.any fun up => up.row = .present && up.isStale w.now

/-- What the last statement of the sweep deletes. -/
def World.isStuck (w : World) (id : Nat) (e : Entry) : Bool :=
  e.status = .uploading && e.createdAt + day < w.now &&
    !w.uploads.any fun up => up.row = .present && up.entryId = id

inductive Outcome where
  | ok | failed
  /-- Of a chunk: the upload is complete. -/
  | last
  deriving DecidableEq, Repr

inductive Op : Type → Type where
  | wait (micros : Nat) : Op Unit
  | insertEntry : Op (Option Nat)
  | insertUpload (entryId : Nat) : Op (Option Nat)
  /-- `CreateURLDownload` -/
  | registerDownload : Op Bool
  | enqueueDownload (entryId : Nat) : Op Bool
  | setJob (job : Nat) (status : JobStatus) : Op Unit
  /-- The transfer of `Download`, and the `Put` of the original. -/
  | fetch : Op Bool
  | setStatus (entryId : Nat) (status : EntryStatus) : Op Bool
  | enqueueProbe : Op Bool
  /-- The entry of an upload that has a row. -/
  | getUpload (u : Nat) : Op (Option Nat)
  /-- Whether the upload is complete. -/
  | writeChunk (u : Nat) : Op (Option Bool)
  /-- Of the spool file into the store. -/
  | moveIn (u : Nat) : Op Bool
  | removeSpool (u : Nat) : Op Unit
  | deleteUpload (u : Nat) : Op Bool
  /-- `DELETE FROM entries WHERE id = $1 AND status = 'uploading'` -/
  | deleteUploading (entryId : Nat) : Op Unit
  | selectStale : Op (Option (List Nat))
  /-- `removeSpool` and `deleteUpload` by the sweep. -/
  | sweepSpool (u : Nat) : Op Unit
  | sweepUpload (u : Nat) : Op Bool
  | deleteStuck : Op Bool

def perform : {β : Type} → Op β → Outcome → World → Option (β × World)
  | _, .wait micros, _, w => some ((), { w with now := w.now + micros })
  | _, .insertEntry, o, w =>
    if o = .failed then some (none, w)
    else some (some w.entries.length,
      { w with entries := w.entries ++ [some ⟨.uploading, w.now⟩] })
  | _, .insertUpload entryId, o, w =>
    if o = .failed ∨ w.entry entryId = none then some (none, w)
    else some (some w.uploads.length,
      { w with uploads := w.uploads ++ [⟨entryId, w.now, .present, false, none⟩] })
  | _, .registerDownload, o, w => some (o ≠ .failed, w)
  | _, .enqueueDownload entryId, o, w =>
    if o = .failed ∨ w.entry entryId = none then some (false, w)
    else some (true, { w with jobs := w.jobs ++ [⟨entryId, .queued⟩] })
  | _, .setJob job status, _, w =>
    some ((), { w with jobs := w.jobs.modify job fun j => { j with status := status } })
  | _, .fetch, o, w => some (o ≠ .failed, w)
  | _, .setStatus entryId status, o, w =>
    if o = .failed then some (false, w)
    else some (true, { w with
      entries := w.entries.modify entryId fun e => e.map fun e => { e with status := status } })
  | _, .enqueueProbe, o, w => some (o ≠ .failed, w)
  | _, .getUpload u, o, w =>
    if o = .failed then some (none, w)
    else some (w.uploads[u]?.bind fun up => if up.row = .present then some up.entryId else none, w)
  | _, .writeChunk u, o, w =>
    if o = .failed then some (none, w)
    else some (some (o = .last),
      w.setUpload u fun up => { up with spool := true, lastChunk := some w.now })
  | _, .moveIn u, o, w =>
    if o = .failed ∨ w.uploads[u]?.all (fun up => !up.spool) = true then some (false, w)
    else some (true, w.setUpload u fun up => { up with spool := false })
  | _, .removeSpool u, o, w =>
    if o = .failed then some ((), w)
    else some ((), w.setUpload u fun up => { up with spool := false })
  | _, .deleteUpload u, o, w =>
    if o = .failed then some (false, w)
    else some (true, w.setUpload u fun up => { up with row := .deleted })
  | _, .deleteUploading entryId, o, w =>
    if o ≠ .failed ∧ (w.entry entryId).any (fun e => e.status = .uploading) = true then
      some ((), { w with
        entries := w.entries.set entryId none
        uploads := w.uploads.map fun up =>
          if up.entryId = entryId then { up with row := .deleted } else up })
    else some ((), w)
  | _, .selectStale, o, w => some (if o = .failed then none else some w.staleUploads, w)
  | _, .sweepSpool u, o, w =>
    if o = .failed then some ((), w)
    else some ((), w.setUpload u fun up => { up with spool := false })
  | _, .sweepUpload u, o, w =>
    if o = .failed then some (false, w)
    else some (true, w.setUpload u fun up =>
      if up.row = .present then { up with row := .swept } else up)
  | _, .deleteStuck, o, w =>
    if o = .failed then some (false, w)
    else some (true, { w with
      entries := w.entries.mapIdx fun id e => e.filter fun e => !w.isStuck id e })

inductive Request where
  | wait (micros : Nat)
  | newUpload
  /-- A PATCH. -/
  | patch (u : Nat)
  | terminate (u : Nat)
  | fromURL
  /-- The queue sets the status of a download job. -/
  | setJob (job : Nat) (status : JobStatus)
  | download (entryId : Nat)
  | cleanup
  deriving DecidableEq, Repr

def newUpload : Procedure Op Unit := do
  match ← ask .insertEntry with
  | none => pure ()
  | some entryId =>
    let _ ← ask (.insertUpload entryId)
    pure ()

def finishUpload (u entryId : Nat) : Procedure Op Unit := do
  match ← ask (.moveIn u) with
  | false => pure ()
  | true =>
    match ← ask (.setStatus entryId .probing) with
    | false => pure ()
    | true =>
      match ← ask .enqueueProbe with
      | false => pure ()
      | true =>
        let _ ← ask (.deleteUpload u)
        pure ()

def patch (u : Nat) : Procedure Op Unit := do
  match ← ask (.getUpload u) with
  | none => pure ()
  | some entryId =>
    match ← ask (.writeChunk u) with
    | some true => finishUpload u entryId
    | _ => pure ()

def terminate (u : Nat) : Procedure Op Unit := do
  match ← ask (.getUpload u) with
  | none => pure ()
  | some entryId =>
    ask (.removeSpool u)
    let _ ← ask (.deleteUpload u)
    ask (.deleteUploading entryId)

/-- `handleFromURLSubmit`, for one URL. -/
def fromURL : Procedure Op Unit := do
  match ← ask .insertEntry with
  | none => pure ()
  | some entryId =>
    match ← ask .registerDownload with
    | false => pure ()
    | true =>
      let _ ← ask (.enqueueDownload entryId)
      pure ()

def download (entryId : Nat) : Procedure Op Unit := do
  match ← ask .fetch with
  | false =>
    let _ ← ask (.setStatus entryId .failed)
    pure ()
  | true =>
    match ← ask (.setStatus entryId .probing) with
    | false => pure ()
    | true =>
      let _ ← ask .enqueueProbe
      pure ()

/-- The loop over the ids, and the last statement. -/
def sweep : List Nat → Procedure Op Unit
  | [] => do
    let _ ← ask .deleteStuck
    pure ()
  | u :: rest => do
    ask (.sweepSpool u)
    match ← ask (.sweepUpload u) with
    | false => pure ()
    | true => sweep rest

def cleanupStaleUploads : Procedure Op Unit := do
  match ← ask .selectStale with
  | none => pure ()
  | some ids => sweep ids

def body : Request → Procedure Op Unit
  | .wait micros => ask (.wait micros)
  | .newUpload => newUpload
  | .patch u => patch u
  | .terminate u => terminate u
  | .fromURL => fromURL
  | .setJob job status => ask (.setJob job status)
  | .download entryId => download entryId
  | .cleanup => cleanupStaleUploads

abbrev State := Pool Nat Request Op Unit World

abbrev Action := Pool.Action Nat Request Outcome

def step : State → Action → Option State :=
  Pool.step body fun _ p o w => p.advance perform o w

/-- A chunk came within the last 24 hours, and the entry still waits for the file. -/
def World.onItsWay (w : World) (up : Upload) : Bool :=
  up.row ≠ .deleted && up.lastChunk.any (fun t => w.now ≤ t + day) &&
    (w.entry up.entryId).any fun e => e.status = .uploading

/-- From one state to the next, no entry and no spool file whose data is on its way goes. -/
structure Spares (w w' : World) : Prop where
  uploads : ∀ id, w.entry id ≠ none → w'.entry id = none →
    ∀ up ∈ w.uploads, up.entryId = id → w.onItsWay up = false
  downloads : ∀ id e, w.entry id = some e → w'.entry id = none → e.status = .uploading →
    ∀ job ∈ w.jobs, job.entryId = id → job.isActive = false
  spools : ∀ (u : Nat) (up : Upload), w.uploads[u]? = some up → w.onItsWay up = true →
    up.spool = true → (w'.uploads[u]?.any fun up => up.spool) = true

/-- What is on its way was begun within the last 24 hours. -/
structure Prompt (w : World) : Prop where
  uploads : ∀ up ∈ w.uploads, w.onItsWay up = true → up.isStale w.now = false
  downloads : ∀ job ∈ w.jobs, job.isActive = true → ∀ e, w.entry job.entryId = some e →
    e.status = .uploading → w.now ≤ e.createdAt + day

/-- The sweep removes spool files and entries only while everything on its way is prompt. -/
def OnTime (w : World) : {β : Type} → Op β → Prop
  | _, .sweepSpool _ => Prompt w
  | _, .deleteStuck => Prompt w
  | _, _ => True

def AllOnTime (p : State) : Action → Prop
  | .advance id _ => ∀ call, p.calls id = some call → call.rest.Starts (OnTime p.world)
  | _ => True

def isSweeping : {β : Type} → Op β → Bool
  | _, .selectStale => true
  | _, .sweepSpool _ => true
  | _, .sweepUpload _ => true
  | _, .deleteStuck => true
  | _, _ => false

/-- The step is one of `cleanupStaleUploads`. -/
def Sweeps (p : State) : Action → Prop
  | .advance id _ => ∃ call, p.calls id = some call ∧ call.rest.asks isSweeping = true
  | _ => False

def Old (w : World) (u : Nat) : Prop :=
  ∃ up, w.uploads[u]? = some up ∧ up.isStale w.now = true

def Later (w w' : World) : Prop := ∀ u, Old w u → Old w' u

theorem Later.refl (w : World) : Later w w := fun _ old => old

theorem Later.trans {w w' w'' : World} (h : Later w w') (h' : Later w' w'') : Later w w'' :=
  fun u old => h' u (h u old)

/-- The sweep touches old uploads only. -/
def Touches (w : World) : {β : Type} → Op β → Prop
  | _, .sweepSpool u => Old w u
  | _, .sweepUpload u => Old w u
  | _, _ => True

def Selects (w : World) : {β : Type} → Op β → β → Prop
  | _, .selectStale, reply => ∀ ids, reply = some ids → ∀ u ∈ ids, Old w u
  | _, _, _ => True

theorem sweep_touches {w : World} {ids : List Nat} (old : ∀ u ∈ ids, Old w u) :
    (sweep ids).UsesGiven (Touches w) (Selects w) := by
  induction ids with
  | nil => simp [sweep, UsesGiven, Touches]
  | cons u rest ih =>
    have first : Old w u := old u List.mem_cons_self
    have others := ih fun v mem => old v (List.mem_cons_of_mem _ mem)
    simp only [sweep, ask_bind, UsesGiven, Touches]
    refine ⟨first, fun _ _ => ⟨first, fun deleted _ => ?_⟩⟩
    cases deleted with
    | false => trivial
    | true => exact others

def Apart {β : Type} (op : Op β) : Prop := isSweeping op = false

theorem newUpload_apart : newUpload.Uses Apart := by
  refine ⟨rfl, fun entryId => ?_⟩
  cases entryId with
  | none => trivial
  | some entryId => exact ⟨rfl, fun _ => trivial⟩

theorem finishUpload_apart (u entryId : Nat) : (finishUpload u entryId).Uses Apart := by
  refine ⟨rfl, fun moved => ?_⟩
  cases moved with
  | false => trivial
  | true =>
    refine ⟨rfl, fun set => ?_⟩
    cases set with
    | false => trivial
    | true =>
      refine ⟨rfl, fun enqueued => ?_⟩
      cases enqueued with
      | false => trivial
      | true => exact ⟨rfl, fun _ => trivial⟩

theorem patch_apart (u : Nat) : (patch u).Uses Apart := by
  refine ⟨rfl, fun entryId => ?_⟩
  cases entryId with
  | none => trivial
  | some entryId =>
    refine ⟨rfl, fun complete => ?_⟩
    cases complete with
    | none => trivial
    | some complete =>
      cases complete with
      | false => trivial
      | true => exact finishUpload_apart u entryId

theorem terminate_apart (u : Nat) : (terminate u).Uses Apart := by
  refine ⟨rfl, fun entryId => ?_⟩
  cases entryId with
  | none => trivial
  | some entryId => exact ⟨rfl, fun _ => ⟨rfl, fun _ => ⟨rfl, fun _ => trivial⟩⟩⟩

theorem fromURL_apart : fromURL.Uses Apart := by
  refine ⟨rfl, fun entryId => ?_⟩
  cases entryId with
  | none => trivial
  | some entryId =>
    refine ⟨rfl, fun registered => ?_⟩
    cases registered with
    | false => trivial
    | true => exact ⟨rfl, fun _ => trivial⟩

theorem download_apart (entryId : Nat) : (download entryId).Uses Apart := by
  refine ⟨rfl, fun fetched => ?_⟩
  cases fetched with
  | false => exact ⟨rfl, fun _ => trivial⟩
  | true =>
    refine ⟨rfl, fun set => ?_⟩
    cases set with
    | false => trivial
    | true => exact ⟨rfl, fun _ => trivial⟩

theorem apart_touches {w : World} {p : Procedure Op Unit} (h : p.Uses Apart) :
    p.UsesGiven (Touches w) (Selects w) := by
  induction p with
  | ret value => trivial
  | call op next ih =>
    refine ⟨?_, fun b _ => ih b (h.2 b)⟩
    have apart : isSweeping op = false := h.1
    cases op <;> trivial

theorem body_touches (w : World) (request : Request) :
    (body request).UsesGiven (Touches w) (Selects w) := by
  cases request with
  | wait micros => exact apart_touches ⟨rfl, fun _ => trivial⟩
  | newUpload => exact apart_touches newUpload_apart
  | patch u => exact apart_touches (patch_apart u)
  | terminate u => exact apart_touches (terminate_apart u)
  | fromURL => exact apart_touches fromURL_apart
  | setJob job status => exact apart_touches ⟨rfl, fun _ => trivial⟩
  | download entryId => exact apart_touches (download_apart entryId)
  | cleanup =>
    refine ⟨trivial, fun reply selected => ?_⟩
    cases reply with
    | none => trivial
    | some ids => exact sweep_touches (selected ids rfl)

/-- The rows that this operation marks as swept. -/
def Marks {β : Type} (op : Op β) (u : Nat) : Prop :=
  match op with
  | .sweepUpload v => u = v
  | _ => False

theorem old_of_marks {β : Type} {op : Op β} {w : World} {u : Nat} (marks : Marks op u)
    (touches : Touches w op) : Old w u := by
  cases op with
  | sweepUpload v =>
    obtain rfl : u = v := marks
    exact touches
  | _ => exact marks.elim

structure Keeps (mark : Nat → Prop) (w w' : World) : Prop where
  later : Later w w'
  swept : ∀ (u : Nat) (up : Upload), w'.uploads[u]? = some up → up.row = .swept →
    mark u ∨ ∃ before, w.uploads[u]? = some before ∧ before.row = .swept

theorem keeps_same {w w' : World} {mark : Nat → Prop} (now : w.now ≤ w'.now)
    (same : w'.uploads = w.uploads) : Keeps mark w w' where
  later u old := by
    obtain ⟨up, found, stale⟩ := old
    refine ⟨up, same ▸ found, ?_⟩
    simp only [Upload.isStale, decide_eq_true_eq] at *
    omega
  swept u up found swept := .inr ⟨up, same ▸ found, swept⟩

theorem keeps_setUpload {w : World} {mark : Nat → Prop} (u : Nat) {f : Upload → Upload}
    (created : ∀ up, (f up).createdAt = up.createdAt)
    (swept : ∀ up, (f up).row = .swept → mark u ∨ up.row = .swept) :
    Keeps mark w (w.setUpload u f) where
  later v old := by
    obtain ⟨up, found, stale⟩ := old
    refine ⟨if u = v then f up else up, ?_, ?_⟩
    · simp [World.setUpload, List.getElem?_modify, found]
    · split
      · simpa [Upload.isStale, World.setUpload, created] using stale
      · exact stale
  swept v up found isSwept := by
    simp only [World.setUpload, List.getElem?_modify, Option.map_eq_map,
      Option.map_eq_some_iff] at found
    obtain ⟨before, at_v, rfl⟩ := found
    split at isSwept
    · next same =>
      subst same
      exact (swept before isSwept).imp_right fun h => ⟨before, at_v, h⟩
    · exact .inr ⟨before, at_v, isSwept⟩

theorem keeps_insert {w : World} {mark : Nat → Prop} (entryId : Nat) :
    Keeps mark w { w with uploads := w.uploads ++ [⟨entryId, w.now, .present, false, none⟩] } where
  later u old := by
    obtain ⟨up, found, stale⟩ := old
    have inside := (List.getElem?_eq_some_iff.mp found).1
    exact ⟨up, (List.getElem?_append_left inside).trans found, stale⟩
  swept u up found isSwept := by
    rw [List.getElem?_append] at found
    split at found
    · exact .inr ⟨up, found, isSwept⟩
    · have mem := List.mem_of_getElem? found
      simp_all

theorem keeps_cascade {w : World} {mark : Nat → Prop} (entryId : Nat)
    (entries : List (Option Entry)) :
    Keeps mark w { w with
      entries := entries
      uploads := w.uploads.map fun up =>
        if up.entryId = entryId then { up with row := .deleted } else up } where
  later u old := by
    obtain ⟨up, found, stale⟩ := old
    refine ⟨if up.entryId = entryId then { up with row := .deleted } else up, ?_, ?_⟩
    · simp [found]
    · split <;> exact stale
  swept u up found isSwept := by
    obtain ⟨before, at_u, rfl⟩ := by simpa using found
    split at isSwept
    · cases isSwept
    · exact .inr ⟨before, at_u, isSwept⟩

theorem keeps_ite {w v w' : World} {mark : Nat → Prop} {β : Type} {c : Prop} [Decidable c]
    {x y b : β} (taken : (if c then some (x, w) else some (y, v)) = some (b, w'))
    (kept : Keeps mark w v) : Keeps mark w w' := by
  split at taken <;> cases taken
  · exact keeps_same (Nat.le_refl _) rfl
  · exact kept

theorem perform_keeps {β : Type} {op : Op β} {o : Outcome} {w w' : World} {b : β}
    (taken : perform op o w = some (b, w')) : Keeps (Marks op) w w' := by
  cases op with
  | wait micros =>
    cases taken
    exact keeps_same (Nat.le_add_right _ _) rfl
  | insertUpload entryId => exact keeps_ite taken (keeps_insert entryId)
  | writeChunk u => exact keeps_ite taken (keeps_setUpload u (fun _ => rfl) fun _ => .inr)
  | moveIn u => exact keeps_ite taken (keeps_setUpload u (fun _ => rfl) fun _ => .inr)
  | removeSpool u => exact keeps_ite taken (keeps_setUpload u (fun _ => rfl) fun _ => .inr)
  | sweepSpool u => exact keeps_ite taken (keeps_setUpload u (fun _ => rfl) fun _ => .inr)
  | deleteUpload u => exact keeps_ite taken (keeps_setUpload u (fun _ => rfl) (by simp))
  | sweepUpload u =>
    refine keeps_ite taken (keeps_setUpload u (fun up => ?_) fun _ _ => .inl rfl)
    split <;> rfl
  | deleteUploading entryId =>
    simp only [perform] at taken
    split at taken <;> cases taken
    · exact keeps_cascade entryId _
    · exact keeps_same (Nat.le_refl _) rfl
  | insertEntry => exact keeps_ite taken (keeps_same (Nat.le_refl _) rfl)
  | enqueueDownload entryId => exact keeps_ite taken (keeps_same (Nat.le_refl _) rfl)
  | setStatus entryId status => exact keeps_ite taken (keeps_same (Nat.le_refl _) rfl)
  | getUpload u => exact keeps_ite taken (keeps_same (Nat.le_refl _) rfl)
  | deleteStuck => exact keeps_ite taken (keeps_same (Nat.le_refl _) rfl)
  | _ =>
    cases taken
    exact keeps_same (Nat.le_refl _) rfl

/-- Whatever time passes, the call touches uploads only that are old then. -/
def Careful (w : World) (p : Procedure Op Unit) : Prop :=
  ∀ w', Later w w' → p.UsesGiven (Touches w') (Selects w')

theorem selects_stale {w : World} {u : Nat} (mem : u ∈ w.staleUploads) : Old w u := by
  have found := (List.mem_filter.mp mem).2
  obtain ⟨up, at_u, stale⟩ := (Option.any_eq_true _ _).mp found
  exact ⟨up, at_u, (Bool.and_eq_true_iff.mp stale).2⟩

theorem perform_selects {β : Type} {op : Op β} {o : Outcome} {w w' w'' : World} {b : β}
    (taken : perform op o w = some (b, w')) (later : Later w' w'') : Selects w'' op b := by
  cases op with
  | selectStale =>
    cases taken
    intro ids reply u mem
    split at reply
    · cases reply
    · cases reply
      exact later u (selects_stale mem)
  | _ => trivial

structure Inv (p : State) : Prop where
  calls : ∀ id call, p.calls id = some call → Careful p.world call.rest
  swept : ∀ (u : Nat) (up : Upload), p.world.uploads[u]? = some up → up.row = .swept →
    Old p.world u

theorem inv_idle (now : Nat) : Inv (Pool.idle (new now)) where
  calls id call found := by cases found
  swept u up found := by simp [Pool.idle, new] at found

theorem Inv.step {p p' : State} {a : Action} (h : Inv p) (taken : Cleanup.step p a = some p') :
    Inv p' := by
  cases a with
  | start id request =>
    obtain ⟨_, rfl⟩ := Pool.start_cases taken
    refine ⟨Pool.forall_setCall (fun call isCall => ?_) fun i call _ => h.calls i call, h.swept⟩
    cases isCall
    exact fun w' _ => body_touches w' request
  | finish id =>
    obtain ⟨_, _, _, rfl⟩ := Pool.finish_cases taken
    refine ⟨Pool.forall_setCall (fun call isCall => ?_) fun i call _ => h.calls i call, h.swept⟩
    cases isCall
  | advance id outcome =>
    obtain ⟨⟨request, rest⟩, next, world, found, moved, rfl⟩ := Pool.advance_cases taken
    cases rest with
    | ret value => cases moved
    | call op go =>
      obtain ⟨b, performed, rfl⟩ := advance_call moved
      have keeps := perform_keeps performed
      have careful := h.calls id _ found
      refine ⟨Pool.forall_setCall (fun call isCall => ?_) fun i call _ before => ?_,
        fun u up at_u swept => ?_⟩
      · cases isCall
        intro w' later
        exact (careful w' (keeps.later.trans later)).2 b (perform_selects performed later)
      · exact fun w' later => h.calls i call before w' (keeps.later.trans later)
      · obtain marked | ⟨up', before, isSwept⟩ := keeps.swept u up at_u swept
        · have touches := (careful p.world (Later.refl _)).1
          exact keeps.later u (old_of_marks marked touches)
        · exact keeps.later u (h.swept u up' before isSwept)

theorem inv_run {now : Nat} {trace : List Action} {p : State}
    (h : Run Cleanup.step AllOnTime (Pool.idle (new now)) trace p) : Inv p :=
  h.invariant Inv (inv_idle now) fun _ _ _ inv _ taken => inv.step taken

theorem spares_same {w w' : World} (entries : w'.entries = w.entries)
    (spools : ∀ (u : Nat) (up : Upload), w.uploads[u]? = some up → w.onItsWay up = true →
      up.spool = true → (w'.uploads[u]?.any fun up => up.spool) = true) : Spares w w' where
  uploads id there gone := absurd (by simpa [World.entry, entries] using gone) there
  downloads id e there gone := by
    have same : w'.entry id = w.entry id := by rw [World.entry, World.entry, entries]
    rw [same, there] at gone
    cases gone
  spools := spools

theorem Spares.refl (w : World) : Spares w w :=
  spares_same rfl fun u up found _ spool => by simp [found, spool]

theorem spares_ite {w v w' : World} {β : Type} {c : Prop} [Decidable c] {x y b : β}
    (taken : (if c then some (x, w) else some (y, v)) = some (b, w')) (spares : Spares w v) :
    Spares w w' := by
  split at taken <;> cases taken
  · exact .refl w
  · exact spares

theorem spares_sweepSpool {w : World} {u : Nat} (old : Old w u) (prompt : Prompt w) :
    Spares w (w.setUpload u fun up => { up with spool := false }) := by
  refine spares_same rfl fun v up found onItsWay spool => ?_
  have other : u ≠ v := by
    rintro rfl
    obtain ⟨up', found', stale⟩ := old
    cases found.symm.trans found'
    have young := prompt.uploads up (List.mem_of_getElem? found) onItsWay
    simp [young] at stale
  simp [World.setUpload, other, found, spool]

theorem spares_sweepUpload (w : World) (u : Nat) :
    Spares w (w.setUpload u fun up =>
      if up.row = .present then { up with row := .swept } else up) := by
  refine spares_same rfl fun v up found _ spool => ?_
  simp only [World.setUpload, List.getElem?_modify, found, Option.map_eq_map, Option.map_some,
    Option.any_some]
  split
  · split <;> exact spool
  · exact spool

/-- What the last statement deletes is stuck. -/
theorem entry_deleteStuck {w : World} {id : Nat} {e : Entry} {uploads : List Upload}
    {jobs : List DownloadJob} (there : w.entry id = some e)
    (gone : World.entry ⟨w.now, w.entries.mapIdx fun id e => e.filter fun e => !w.isStuck id e,
      uploads, jobs⟩ id = none) : w.isStuck id e = true := by
  have found : w.entries[id]? = some (some e) := Option.join_eq_some_iff.mp there
  simpa [World.entry, found, Option.filter] using gone

theorem spares_deleteStuck {w : World} (prompt : Prompt w)
    (swept : ∀ (u : Nat) (up : Upload), w.uploads[u]? = some up → up.row = .swept → Old w u) :
    Spares w { w with
      entries := w.entries.mapIdx fun id e => e.filter fun e => !w.isStuck id e } where
  uploads id there gone up mem isEntry := by
    obtain ⟨e, isThere⟩ := Option.ne_none_iff_exists'.mp there
    have stuck := entry_deleteStuck isThere gone
    simp only [World.isStuck, Bool.and_eq_true, Bool.not_eq_true', List.any_eq_false] at stuck
    by_contra onItsWay
    rw [Bool.not_eq_false] at onItsWay
    have young := prompt.uploads up mem onItsWay
    have noRow : up.row ≠ .present := by
      intro present
      simpa [present, isEntry] using stuck.2 up mem
    cases row : up.row with
    | present => exact noRow row
    | deleted => simp [World.onItsWay, row] at onItsWay
    | swept =>
      obtain ⟨u, at_u⟩ := List.getElem?_of_mem mem
      obtain ⟨up', at_u', stale⟩ := swept u up at_u row
      cases at_u.symm.trans at_u'
      simp [young] at stale
  downloads id e there gone uploading job mem isEntry := by
    have stuck := entry_deleteStuck there gone
    by_contra active
    rw [Bool.not_eq_false] at active
    have young := prompt.downloads job mem active e (isEntry ▸ there) uploading
    simp only [World.isStuck, Bool.and_eq_true, decide_eq_true_eq] at stuck
    omega
  spools u up found _ spool := by simp [found, spool]

/-- In a run in which the sweep deletes only while all that is on its way is prompt, none of its
steps deletes what is on its way. -/
theorem sweep_spares {now : Nat} {trace : List Action} {p p' : State} {a : Action}
    (h : Run step AllOnTime (Pool.idle (new now)) trace p) (onTime : AllOnTime p a)
    (sweeps : Sweeps p a) (taken : step p a = some p') : Spares p.world p'.world := by
  have inv := inv_run h
  cases a with
  | start id request => exact sweeps.elim
  | finish id => exact sweeps.elim
  | advance id outcome =>
    obtain ⟨⟨request, rest⟩, next, world, found, moved, rfl⟩ := Pool.advance_cases taken
    obtain ⟨call, found', asks⟩ := sweeps
    cases found.symm.trans found'
    cases rest with
    | ret value => cases moved
    | call op go =>
      obtain ⟨b, performed, rfl⟩ := advance_call moved
      have prompt : OnTime p.world op := onTime _ found
      have touches := (inv.calls id _ found p.world (Later.refl _)).1
      cases op with
      | selectStale =>
        cases performed
        exact .refl _
      | sweepSpool u => exact spares_ite performed (spares_sweepSpool touches prompt)
      | sweepUpload u => exact spares_ite performed (spares_sweepUpload p.world u)
      | deleteStuck => exact spares_ite performed (spares_deleteStuck prompt inv.swept)
      | _ => cases asks

instance (w : World) : Decidable (Prompt w) :=
  decidable_of_iff ((∀ up ∈ w.uploads, w.onItsWay up = true → up.isStale w.now = false) ∧
      ∀ job ∈ w.jobs, job.isActive = true → ∀ e ∈ w.entry job.entryId,
        e.status = .uploading → w.now ≤ e.createdAt + day)
    ⟨fun h => ⟨h.1, h.2⟩, fun h => ⟨h.uploads, h.downloads⟩⟩

theorem Prompt.onTime {w : World} (h : Prompt w) {β : Type} (op : Op β) : OnTime w op := by
  cases op with
  | sweepSpool u => exact h
  | deleteStuck => exact h
  | _ => trivial

theorem Prompt.allOnTime {p : State} (h : Prompt p.world) (a : Action) : AllOnTime p a := by
  cases a with
  | advance id outcome =>
    intro call _
    cases call.rest with
    | ret value => trivial
    | call op go => exact h.onTime op
  | _ => trivial

def hours (n : Nat) : Nat := n * (60 * 60 * 1000000)

/-- An upload begins and gets a chunk, and 23 hours later the sweep runs. -/
def promptUpload : List Action :=
  [.start 0 .newUpload, .advance 0 .ok, .advance 0 .ok,
    .start 1 (.patch 0), .advance 1 .ok, .advance 1 .ok,
    .start 2 (.wait (hours 23)), .advance 2 .ok, .start 3 .cleanup, .advance 3 .ok]

theorem sweep_spares_prompt : ∃ p p', Run step AllOnTime (Pool.idle (new 0)) promptUpload p ∧
    Sweeps p (.advance 3 .ok) ∧ step p (.advance 3 .ok) = some p' ∧
    Spares p.world p'.world := by
  have run : ∃ p, Run step AllOnTime (Pool.idle (new 0)) promptUpload p ∧
      (decide (Prompt p.world) && (p.calls 3).any (fun call => call.rest.asks isSweeping) &&
        (step p (.advance 3 .ok)).isSome) = true :=
    exists_run (fun p a (h : decide (Prompt p.world) = true) =>
      (of_decide_eq_true h).allOnTime a) (by decide)
  obtain ⟨p, run, check⟩ := run
  simp only [Bool.and_eq_true, decide_eq_true_eq, Option.isSome_iff_exists] at check
  obtain ⟨⟨prompt, asks⟩, p', taken⟩ := check
  have sweeps : Sweeps p (.advance 3 .ok) := by
    obtain ⟨call, found, asks⟩ := (Option.any_eq_true _ _).mp asks
    exact ⟨call, found, asks⟩
  exact ⟨p, p', run, sweeps, taken, sweep_spares run (prompt.allOnTime _) sweeps taken⟩

/-- An upload that has taken 25 hours gets a chunk. -/
def slowUpload : List Action :=
  [.start 0 .newUpload, .advance 0 .ok, .advance 0 .ok,
    .start 1 (.wait (hours 25)), .advance 1 .ok,
    .start 2 (.patch 0), .advance 2 .ok, .advance 2 .ok, .start 3 .cleanup, .advance 3 .ok]

/-- A download has been queued for 25 hours. -/
def queuedImport : List Action :=
  [.start 0 .fromURL, .advance 0 .ok, .advance 0 .ok, .advance 0 .ok,
    .start 1 (.wait (hours 25)), .advance 1 .ok, .start 3 .cleanup, .advance 3 .ok]

/-- The next step of the sweep deletes what is on its way. -/
def Loses (trace : List Action) : Prop :=
  ∃ p p', Run step Always (Pool.idle (new 0)) trace p ∧ Sweeps p (.advance 3 .ok) ∧
    step p (.advance 3 .ok) = some p' ∧ ¬Spares p.world p'.world

theorem loses_of_check {trace : List Action} {w w' : World} (lost : ¬Spares w w')
    (check : (Transition.exec step (fun _ _ => true) (Pool.idle (new 0)) trace).any (fun p =>
      p.world = w && (p.calls 3).any (fun call => call.rest.asks isSweeping) &&
        (step p (.advance 3 .ok)).any fun p' => p'.world = w') = true) : Loses trace := by
  obtain ⟨p, run, check⟩ := exists_always check
  simp only [Bool.and_eq_true, decide_eq_true_eq, Option.any_eq_true] at check
  obtain ⟨⟨rfl, call, found, asks⟩, p', taken, rfl⟩ := check
  exact ⟨p, p', run, ⟨call, found, asks⟩, taken, lost⟩

theorem slow_uploads_and_imports_lost : Loses slowUpload ∧ Loses queuedImport := by
  constructor
  · have lost : ¬Spares
        ⟨hours 25, [some ⟨.uploading, 0⟩], [⟨0, 0, .present, true, some (hours 25)⟩], []⟩
        ⟨hours 25, [some ⟨.uploading, 0⟩], [⟨0, 0, .present, false, some (hours 25)⟩], []⟩ := by
      intro spares
      exact absurd (spares.spools 0 _ rfl (by decide) rfl) (by decide)
    exact loses_of_check lost (by decide)
  · have lost : ¬Spares ⟨hours 25, [some ⟨.uploading, 0⟩], [], [⟨0, .queued⟩]⟩
        ⟨hours 25, [none], [], [⟨0, .queued⟩]⟩ := by
      intro spares
      have active := spares.downloads 0 ⟨.uploading, 0⟩ (by decide) (by decide) (by decide)
        ⟨0, .queued⟩ (by simp) (by decide)
      exact absurd active (by decide)
    exact loses_of_check lost (by decide +kernel)

end Vidsilo.Worker.Cleanup
