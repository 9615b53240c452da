import Vidsilo.Jobs.Tables
import Vidsilo.Library.Program

/-!
# The job handlers as programs on the database

Source: internal/jobs/jobs.go:109-266 (`Handle`, `Download`), 284-358 (`spoolSource`),
365-493 (`Probe`), 520-640 (`Transcode`, `finalizeTranscode`), 694-747 (`buildMaster`,
`failEntry`, `markFlavor`, `markFlavorDone`). What is not the database (the store, the
spool, ffmpeg, the remote server) answers as the environment `Env` says. A handler's
error is `some` text. Progress lines, posters, sprites and the log are left out.
-/
namespace Vidsilo.Jobs.Runner
open Library Library.SlashPath Queue.Table Tables

abbrev Db := Program Database

structure ProbeResult where
  durationMs : Int
  height : Int
  deriving DecidableEq, Repr

/-- What the calls outside the database return during one step. -/
structure Env where
  /-- `spoolSource`, for an entry that has a source. -/
  spool : Except String Unit
  /-- `media.Probe`. -/
  probe : Except String ProbeResult
  /-- `flavorOutputDir`. -/
  outputDir : Except String Unit
  /-- `media.TranscodeFlavor`. -/
  transcodeFlavor : Except String Unit
  publishFlavor : Except String Unit
  /-- `BuildMasterPlaylist` and the `Put` of the master. -/
  master : Except String Unit
  /-- The URL download up to its temporary file: the extension and the size. -/
  fetch : Except String (Text × Int)
  /-- The `Put` or `MoveIn` of the original. -/
  put : Except String Unit

/-- What a statement answers once its context has ended. -/
def contextEnded : String := "context canceled"

def notFound : String := "not found"

def query (read : Database → Except String α) : Db (Except String α) :=
  Program.statement id read (.error contextEnded)

def execute (set : Database → Database) : Db (Except String Unit) :=
  Program.statement set (fun _ => .ok ()) (.error contextEnded)

def errorOf : Except String Unit → Option String
  | .ok _ => none
  | .error err => some err

def entryByID (id : Int) : Db (Except String Entry) :=
  query fun db => match db.entries id with
    | some e => .ok e
    | none => .error notFound

def flavorByID (id : Int) : Db (Except String Flavor) :=
  query fun db => match db.flavorByID id with
    | some f => .ok f
    | none => .error notFound

/-- An INSERT that the foreign key on the entry may refuse. -/
def enqueue (jobType : JobType) (entryId : Int) (flavorId : Option Int) (maxAttempts now : Int) :
    Db (Except String Unit) :=
  Program.statement (fun db => db.enqueue jobType entryId flavorId maxAttempts now)
    (fun db => if (db.entries entryId).isSome then .ok () else .error "foreign key violation")
    (.error contextEnded)

def spoolSource (env : Env) (e : Entry) : Except String Unit :=
  if e.sourceKey = [] then .error "entry has no source media" else env.spool

/-- The error of the UPDATE is dropped. -/
def failEntry (id : Int) (msg : String) : Db Unit := do
  let _ ← execute fun db => db.setEntry id fun e => { e with status := .failed, error := some msg }

/-- The UPDATE of a flavor row, inserted when it is new; the error is dropped. -/
def tickFlavor (entryId flavorId : Int) (status : EntryFlavorStatus) (error : Option String) :
    Db Unit := do
  let _ ← execute fun db =>
    { db with entryFlavors := db.entryFlavors.upsert entryId flavorId status error }

/-- The loop over the enabled flavors; its result is `pending`. -/
def effectiveFlavors (entryId height : Int) (ticked : List Int) : List Flavor → Db (List Int)
  | [] => pure []
  | f :: rest =>
    if ticked ≠ [] ∧ f.id ∉ ticked then effectiveFlavors entryId height ticked rest
    else if height < f.height then do
      tickFlavor entryId f.id .skipped (some "source is shorter than flavor height")
      effectiveFlavors entryId height ticked rest
    else do
      tickFlavor entryId f.id .pending none
      let pending ← effectiveFlavors entryId height ticked rest
      pure (f.id :: pending)

/-- One transcode job per pending flavor. -/
def enqueueTranscodes (entryId now : Int) : List Int → Db (Option String)
  | [] => pure none
  | f :: rest => do
    match ← enqueue .transcode entryId (some f) 3 now with
    | .error err => pure (some err)
    | .ok _ => enqueueTranscodes entryId now rest

def setReady (e : Entry) : Entry := { e with status := .ready, error := none }

/-- The end of `Probe`: to transcoding, or published as it is (the playlist, whose error is
dropped, is left out). -/
def startTranscodes (entryId durationMs now : Int) (pending : List Int) : Db (Option String) :=
  if pending = [] then do
    let _ ← execute fun db => db.setEntry entryId fun e =>
      { setReady e with durationMs := some durationMs }
    pure none
  else do
    match ← execute fun db => db.setEntry entryId fun e =>
      { e with status := .transcoding, durationMs := some durationMs, error := none } with
    | .error err => pure (some err)
    | .ok _ => enqueueTranscodes entryId now pending

/-- `Probe` once the source has been probed. -/
def probed (entryId : Int) (res : ProbeResult) (now : Int) : Db (Option String) := do
  match ← entryByID entryId with
  | .error _ => pure (some "entry deleted during probing")
  | .ok _ =>
    match ← query fun db => .ok db.enabledFlavors with
    | .error err => pure (some err)
    | .ok enabled =>
      match ← query fun db => .ok ((db.flavorRows entryId).map (·.flavorId)) with
      | .error err => pure (some err)
      | .ok ticked => do
        let pending ← effectiveFlavors entryId res.height ticked enabled
        startTranscodes entryId res.durationMs now pending

def probe (env : Env) (now : Int) (job : Job) : Db (Option String) :=
  match job.entryId with
  | none => pure (some "probe job without entry")
  | some entryId => do
    match ← entryByID entryId with
    | .error err => pure (some err)
    | .ok e =>
      if e.sourceKey = [] then pure (some "entry has no source media") else
      match spoolSource env e with
      | .error err => pure (some err)
      | .ok _ =>
        match env.probe with
        | .error err => do
          failEntry entryId ("probe failed: " ++ err)
          pure (some err)
        | .ok res => probed entryId res now

def markFlavor (entryId flavorId : Int) (status : EntryFlavorStatus) (errMsg : String) :
    Db Unit := do
  let _ ← execute fun db =>
    { db with
      entryFlavors := db.entryFlavors.updateWhere (fun r => r.key = (entryId, flavorId))
        status (some errMsg) none }

def markFlavorDone (entryId flavorId : Int) (playlistKey : Text) : Db Unit := do
  let _ ← execute fun db =>
    { db with
      entryFlavors := db.entryFlavors.updateWhere (fun r => r.key = (entryId, flavorId))
        .done none (some playlistKey) }

/-- `buildMaster`, with its queries for the flavor rows and the subtitles. -/
def buildMaster (env : Env) : Db (Option String) := do
  match ← query fun _ => .ok () with
  | .error err => pure (some err)
  | .ok _ =>
    match ← query fun _ => .ok () with
    | .error err => pure (some err)
    | .ok _ => pure (errorOf env.master)

def finalizeTranscode (env : Env) (entryId : Int) : Db (Option String) := do
  match ← entryByID entryId with
  -- Entry deleted, or the context has ended: nothing to finalize.
  | .error _ => pure none
  | .ok _ =>
    match ← query fun db => .ok (db.remaining entryId) with
    | .error err => pure (some err)
    | .ok remaining =>
      if 0 < remaining then pure none else
      match ← query fun db => .ok (db.doneCount entryId) with
      | .error err => pure (some err)
      | .ok done =>
        if done = 0 then do
          failEntry entryId "all flavors failed"
          pure (some "all flavors failed")
        else
          match ← buildMaster env with
          | some err => pure (some err)
          | none => do
            let res ← execute fun db => db.setEntry entryId setReady
            pure (errorOf res)

/-- The UPDATE after a failure of this flavor, and what follows it. -/
def flavorFailed (env : Env) (entryId flavorId : Int) (err : String) : Db (Option String) := do
  markFlavor entryId flavorId .failed err
  finalizeTranscode env entryId

/-- `Transcode` once the output directory is there. -/
def encode (env : Env) (entryId flavorId : Int) (f : Flavor) : Db (Option String) :=
  match env.transcodeFlavor with
  | .error err => flavorFailed env entryId flavorId err
  | .ok _ => do
    match ← entryByID entryId with
    | .error _ => pure (some "entry deleted during transcoding")
    | .ok _ =>
      match env.publishFlavor with
      | .error err => flavorFailed env entryId flavorId err
      | .ok _ => do
        markFlavorDone entryId flavorId (Storage.Keys.flavorPlaylistKey entryId f.name)
        finalizeTranscode env entryId

/-- `Transcode` with the slot of the entry. -/
def transcodeWithSlot (env : Env) (entryId flavorId : Int) : Db (Option String) := do
  match ← flavorByID flavorId with
  | .error err => flavorFailed env entryId flavorId err
  | .ok f => do
    markFlavor entryId flavorId .transcoding ""
    match ← entryByID entryId with
    | .error _ => pure (some "entry deleted during transcoding")
    | .ok _ =>
      match env.outputDir with
      | .error err => flavorFailed env entryId flavorId err
      | .ok _ => encode env entryId flavorId f

/-- The flavor of the payload; an absent one is Go's zero. -/
def flavorParam (job : Job) : Int := job.flavorId.getD 0

def transcode (env : Env) (job : Job) : Db (Option String) :=
  match job.entryId with
  | none => pure (some "transcode job without entry")
  | some entryId => do
    match ← entryByID entryId with
    | .error err => pure (some err)
    | .ok e =>
      match spoolSource env e with
      | .error err => do
        failEntry entryId ("transcode failed: " ++ err)
        pure (some err)
      | .ok _ =>
        -- `acquireTranscodeSem` fails only when the context ends.
        match ← query fun _ => .ok () with
        | .error err => pure (some err)
        | .ok _ => transcodeWithSlot env entryId (flavorParam job)

/-- The source is in the store: the entry goes to probing. -/
def toProbing (key : Text) (size : Int) (clearError : Bool) (e : Entry) : Entry :=
  { e with
    status := .probing, sourceKey := key, sourceSize := some size
    error := if clearError then none else e.error }

/-- The end of `Download` and of `FinishUpload`: the UPDATE and the `Enqueue`. -/
def handOff (entryId : Int) (key : Text) (size : Int) (clearError : Bool) (now : Int) :
    Db (Option String) := do
  match ← execute fun db => db.setEntry entryId (toProbing key size clearError) with
  | .error err => pure (some err)
  | .ok _ => do
    let res ← enqueue .probe entryId none 3 now
    pure (errorOf res)

def downloadFailed (entryId : Int) (msg : String) : Db (Option String) := do
  failEntry entryId ("download failed: " ++ msg)
  pure (some ("download failed: " ++ msg))

def download (env : Env) (now : Int) (job : Job) : Db (Option String) :=
  match job.entryId with
  | none => pure (some "download job without entry")
  | some entryId => do
    match ← entryByID entryId with
    | .error err => pure (some err)
    | .ok _ =>
      match env.fetch with
      | .error err => downloadFailed entryId err
      | .ok (ext, written) =>
        match ← entryByID entryId with
        | .error _ => pure (some "entry deleted during download")
        | .ok _ =>
          match env.put with
          | .error err => downloadFailed entryId err
          | .ok _ => handOff entryId (Storage.Keys.originalKey entryId ext) written true now

def handle (env : Env) (now : Int) (job : Job) : Db (Option String) :=
  match job.type with
  | .probe => probe env now job
  | .transcode => transcode env job
  | .download => download env now job
  | .other name => pure (some ("unknown job type " ++ name.quote))

/-- The handler of a job without an entry refuses it at once. -/
theorem handle_without_entry (env : Env) (now : Int) {job : Job} (h : job.entryId = none) :
    ∃ text, handle env now job = pure (some text) := by
  unfold handle
  cases job.type with
  | probe => exact ⟨"probe job without entry", by simp only [probe, h]⟩
  | transcode => exact ⟨"transcode job without entry", by simp only [transcode, h]⟩
  | download => exact ⟨"download job without entry", by simp only [download, h]⟩
  | other name => exact ⟨_, rfl⟩

section Related
open Program

variable {R : Database → Database → Prop}

theorem related_query (refl : ∀ db, R db db) (read : Database → Except String α) :
    (query read).Within R := within_statement _ _ refl

theorem related_buildMaster (refl : ∀ db, R db db) (env : Env) : (buildMaster env).Within R := by
  refine within_try (related_query refl _) (fun _ => within_pure _) ?_
  intro _
  exact within_try (related_query refl _) (fun _ => within_pure _) fun _ => within_pure _

end Related

end Vidsilo.Jobs.Runner
