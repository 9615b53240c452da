import Vidsilo.Api.MediaAcl
import Vidsilo.Api.MediaRemoval
import Vidsilo.Categories.Table
import Vidsilo.Jobs.Runner

/-!
# The master playlist and what it is made of

Source: internal/media/media.go:284-335, internal/jobs/jobs.go:110-655, 694-747,
internal/api/entries.go:252-335, 337-402, 410-500, 522-579, internal/db/flavors.go:75-107,
internal/db/entries.go:300-395, internal/queue/queue.go:330-345, internal/store/keys.go:54-72.
One entry. Besides the tables the world has what is stored under `MasterKey`, as the playlist that
was rendered. Operations on other entries write nothing of it, but they remove files, by prefixes
that may take its master with them. The queue, the other files and the texts of errors that are only
logged are left out.
-/
namespace Vidsilo.Jobs.Master
open Library Library.SlashPath Library.Decimal
open Storage.Drivers (Local Bucket.selects)
open Storage.Keys Tables Runner

structure Rendition where
  name : Text
  height : Int
  bitrate : Int
  playlistKey : Text
  deriving DecidableEq, Repr

structure SubtitleRendition where
  lang : Text
  label : Text
  uri : Text
  deriving DecidableEq, Repr

structure Playlist where
  renditions : List Rendition
  subtitles : List SubtitleRendition
  deriving DecidableEq, Repr

/-- What the calls of a store do to a key that it has. -/
structure Backend where
  /-- A listing of the prefix reports the key. -/
  lists : Text → Text → Bool
  /-- `RemoveTree` of the local driver that `LocalOf` finds takes the key. -/
  removesTree : Text → Text → Bool
  /-- The root, where the store is a `*store.Local` itself. -/
  bareRoot : Option (List Text)

def bucket : Backend := ⟨Bucket.selects, fun _ _ => false, none⟩

def disk (root : List Text) : Backend where
  lists := Local.selects root
  removesTree := fun treePrefix key =>
    (Local.pathForKey (trimSlash treePrefix)).any (· <+: components key)
  bareRoot := some root

def escapeQuoted (s : Text) : Text :=
  (s.flatMap fun c => if c = '\\' then ['\\', '\\'] else [c]).flatMap fun c =>
    if c = '"' then ['\\', '"'] else [c]

def quoted (s : Text) : Text := '"' :: s ++ ['"']

def SubtitleRendition.line (sub : SubtitleRendition) : Text :=
  "#EXT-X-MEDIA:TYPE=SUBTITLES,GROUP-ID=".toList ++ quoted "subs".toList ++ ",NAME=".toList ++
    quoted (escapeQuoted sub.label) ++
    ",DEFAULT=YES,AUTOSELECT=YES,FORCED=NO,LANGUAGE=".toList ++ quoted sub.lang ++ ",URI=".toList ++
    quoted sub.uri ++ "\n".toList

def Rendition.bandwidth (r : Rendition) : Int :=
  if r.bitrate * 1024 = 0 then 1000000 else r.bitrate * 1024

def Rendition.line (r : Rendition) : Text :=
  "#EXT-X-STREAM-INF:BANDWIDTH=".toList ++ formatInt r.bandwidth ++ ",RESOLUTION=0x".toList ++
    formatInt r.height ++ ",NAME=".toList ++ quoted (escapeQuoted r.name) ++
    ",SUBTITLES=".toList ++ quoted "subs".toList ++ "\n".toList ++ r.playlistKey ++ "\n".toList

def buildMasterPlaylist (p : Playlist) : Text :=
  "#EXTM3U\n".toList ++ "#EXT-X-VERSION:3\n".toList ++ p.subtitles.flatMap SubtitleRendition.line ++
    p.renditions.flatMap Rendition.line

structure Flavor extends Tables.Flavor where
  videoBitrate : Option Int
  deriving DecidableEq, Repr

structure Subtitle where
  id : Int
  lang : Text
  label : Text
  vttKey : Text
  deriving DecidableEq, Repr

structure World where
  row : Option Entry
  flavors : List Flavor
  nextFlavorId : Int
  /-- The rows of the entry. -/
  rows : EntryFlavors
  /-- By id, which is the order of the inserts. -/
  subtitles : List Subtitle
  nextSubtitleId : Int
  master : Option Playlist

/-- An entry without media and without flavors. -/
def start : World := ⟨some ⟨.uploading, [], none, none, none⟩, [], 1, .empty, [], 1, none⟩

def World.setRow (w : World) (set : Entry → Entry) : World := { w with row := w.row.map set }

def World.flavorByID (w : World) (id : Int) : Option Flavor := w.flavors.find? fun f => f.id = id

def World.enabledFlavors (w : World) : List Flavor :=
  (w.flavors.filter (·.enabled)).insertionSort
    fun f g => f.position < g.position ∨ (f.position = g.position ∧ f.id ≤ g.id)

def World.entryFlavors (w : World) : List EntryFlavor :=
  w.rows.rows.insertionSort fun r q => r.flavorId ≤ q.flavorId

def World.remaining (w : World) : Nat := w.rows.rows.countP fun r => r.status.unfinished

def World.doneCount (w : World) : Nat := w.rows.rows.countP fun r => r.status = .done

abbrev Db := Program World

def query (read : World → Except String α) : Db (Except String α) :=
  Program.statement id read (.error contextEnded)

def execute (set : World → World) : Db (Except String Unit) :=
  Program.statement set (fun _ => .ok ()) (.error contextEnded)

def entryByID : Db (Except String Entry) :=
  query fun w => match w.row with
    | some e => .ok e
    | none => .error notFound

def flavorByID (id : Int) : Db (Except String Flavor) :=
  query fun w => match w.flavorByID id with
    | some f => .ok f
    | none => .error notFound

def entryFlavors : Db (Except String (List EntryFlavor)) := query fun w => .ok w.entryFlavors

def listSubtitles : Db (Except String (List Subtitle)) := query fun w => .ok w.subtitles

/-- The foreign key on the entry may refuse the job. -/
def enqueue : Db (Except String Unit) :=
  query fun w => if w.row.isSome then .ok () else .error "foreign key violation"

/-- An INSERT of a flavor row or its UPDATE, with the foreign keys. -/
def insertFlavorRow (entry flavorId : Int) (status : EntryFlavorStatus) (error : Option String) :
    Db (Except String Unit) :=
  Program.statement
    (fun w => if w.row.isSome && (w.flavorByID flavorId).isSome then
      { w with rows := w.rows.upsert entry flavorId status error } else w)
    (fun w => if w.row.isSome && (w.flavorByID flavorId).isSome then .ok ()
      else .error "foreign key violation")
    (.error contextEnded)

def updateFlavorRow (entry flavorId : Int) (status : EntryFlavorStatus) (error : Option String)
    (playlistKey : Option Text) : Db (Except String Unit) :=
  execute fun w =>
    { w with
      rows := w.rows.updateWhere (fun r => r.key = (entry, flavorId)) status error playlistKey }

/-- The error is dropped. -/
def markFlavor (entry flavorId : Int) (status : EntryFlavorStatus) (errMsg : String) : Db Unit := do
  let _ ← updateFlavorRow entry flavorId status (some errMsg) none

def markFlavorDone (entry flavorId : Int) (playlistKey : Text) : Db Unit := do
  let _ ← updateFlavorRow entry flavorId .done none (some playlistKey)

def failEntry (msg : String) : Db Unit := do
  let _ ← execute fun w => w.setRow fun e => { e with status := .failed, error := some msg }

def putMaster (p : Playlist) : Db (Except String Unit) := execute fun w => { w with master := some p }

/-- The master is one of the files that a call removes; its error is dropped. -/
def removeMasterIf (selected : Bool) : Db Unit :=
  if selected then do
    let _ ← execute fun w => { w with master := none }
  else pure ()

section Removal
variable (entry : Int) (backend : Backend)

/-- `List` under a prefix, and `Delete` of each key that it reports. -/
def deleteListed (listPrefix : Text) : Db Unit := do
  match ← query fun w => .ok w.master.isSome with
  | .error _ => pure ()
  | .ok stored => removeMasterIf (stored && backend.lists listPrefix (masterKey entry))

/-- In `handleEntryDelete` of the entry with this id. -/
def deleteMedia (id : Int) : Db Unit := do
  let listPrefix := Api.MediaRemoval.entryPrefix id
  deleteListed entry backend listPrefix
  removeMasterIf (backend.removesTree listPrefix (masterKey entry))

/-- In `removeFlavor` of the entry with this id. -/
def removeFlavorFiles (id : Int) (name : Text) : Db Unit := do
  deleteListed entry backend (flavorDir id name)
  removeMasterIf
    (backend.bareRoot.isSome && backend.removesTree (flavorDir id name) (masterKey entry))

/-- What `flavorOutputDir` returns for the entry with this id: a directory of the store is removed
with all that is below it. -/
def cleanup (id : Int) (name : Text) : Db Unit :=
  removeMasterIf
    (backend.bareRoot.any fun root => Local.selects root (flavorDir id name) (masterKey entry))

end Removal

def mediaURI (key : Text) : Text := "/media/".toList ++ Api.MediaAcl.trimPrefixSlash key

/-- `orZeroI`; a key that is NULL is read as empty. -/
def rendition (f : Flavor) (r : EntryFlavor) : Rendition :=
  ⟨f.name, f.height, f.videoBitrate.getD 0, mediaURI (r.playlistKey.getD [])⟩

def subtitleRendition (s : Subtitle) : SubtitleRendition := ⟨s.lang, s.label, mediaURI s.vttKey⟩

def renditions : List EntryFlavor → Db (List Rendition)
  | [] => pure []
  | r :: rest =>
    if r.status ≠ .done then renditions rest
    else do
      match ← flavorByID r.flavorId with
      | .error _ => renditions rest
      | .ok f => do
        let more ← renditions rest
        pure (rendition f r :: more)

def buildMaster : Db (Option String) := do
  match ← entryFlavors with
  | .error err => pure (some err)
  | .ok flavors =>
    match ← listSubtitles with
    | .error err => pure (some err)
    | .ok subs => do
      let rends ← renditions flavors
      let res ← putMaster ⟨rends, subs.map subtitleRendition⟩
      pure (errorOf res)

/-- The same queries and the same `Put` in the API. -/
def rebuildMaster : Db (Option String) := buildMaster

def sourceRendition (sourceKey : Text) : Rendition := ⟨"source".toList, 0, 0, mediaURI sourceKey⟩

def publishSourcePlaylist (e : Entry) : Db (Option String) := do
  match ← listSubtitles with
  | .error err => pure (some err)
  | .ok subs => do
    let rends := if e.sourceKey = [] then [] else [sourceRendition e.sourceKey]
    let res ← putMaster ⟨rends, subs.map subtitleRendition⟩
    pure (errorOf res)

def finalizeTranscode : Db (Option String) := do
  match ← entryByID with
  | .error _ => pure none
  | .ok _ =>
    match ← query fun w => .ok w.remaining with
    | .error err => pure (some err)
    | .ok remaining =>
      if 0 < remaining then pure none else
      match ← query fun w => .ok w.doneCount with
      | .error err => pure (some err)
      | .ok done =>
        if done = 0 then do
          failEntry "all flavors failed"
          pure (some "all flavors failed")
        else
          match ← buildMaster with
          | some err => pure (some err)
          | none => do
            let res ← execute fun w => w.setRow setReady
            pure (errorOf res)

def flavorFailed (entry flavorId : Int) (err : String) : Db (Option String) := do
  markFlavor entry flavorId .failed err
  finalizeTranscode

/-- `Transcode` once the output directory is there. -/
def encode (entry : Int) (backend : Backend) (env : Env) (flavorId : Int) (f : Flavor) :
    Db (Option String) :=
  match env.transcodeFlavor with
  | .error err => do
    cleanup entry backend entry f.name
    flavorFailed entry flavorId err
  | .ok _ => do
    match ← entryByID with
    | .error _ => do
      cleanup entry backend entry f.name
      pure (some "entry deleted during transcoding")
    | .ok _ =>
      match env.publishFlavor with
      | .error err => do
        cleanup entry backend entry f.name
        flavorFailed entry flavorId err
      | .ok _ => do
        markFlavorDone entry flavorId (flavorPlaylistKey entry f.name)
        finalizeTranscode

/-- `Transcode` with the slot of the entry. -/
def transcodeWithSlot (entry : Int) (backend : Backend) (env : Env) (flavorId : Int) :
    Db (Option String) := do
  match ← flavorByID flavorId with
  | .error err => flavorFailed entry flavorId err
  | .ok f => do
    markFlavor entry flavorId .transcoding ""
    match ← entryByID with
    | .error _ => pure (some "entry deleted during transcoding")
    | .ok _ =>
      match env.outputDir with
      | .error err => flavorFailed entry flavorId err
      | .ok _ => encode entry backend env flavorId f

def transcode (entry : Int) (backend : Backend) (env : Env) (flavorId : Int) :
    Db (Option String) := do
  match ← entryByID with
  | .error err => pure (some err)
  | .ok e =>
    match spoolSource env e with
    | .error err => do
      failEntry ("transcode failed: " ++ err)
      pure (some err)
    | .ok _ => transcodeWithSlot entry backend env flavorId

/-- The error is dropped. -/
def tickFlavor (entry flavorId : Int) (status : EntryFlavorStatus) (error : Option String) :
    Db Unit := do
  let _ ← insertFlavorRow entry flavorId status error

/-- The flavors that are considered at all. -/
def considered (ticked : List Int) (f : Flavor) : Bool := ticked = [] || f.id ∈ ticked

/-- The loop over the enabled flavors; its result is `pending`. -/
def effectiveFlavors (entry height : Int) (ticked : List Int) : List Flavor → Db (List Int)
  | [] => pure []
  | f :: rest =>
    if considered ticked f = false then effectiveFlavors entry height ticked rest
    else if height < f.height then do
      tickFlavor entry f.id .skipped (some "source is shorter than flavor height")
      effectiveFlavors entry height ticked rest
    else do
      tickFlavor entry f.id .pending none
      let pending ← effectiveFlavors entry height ticked rest
      pure (f.id :: pending)

def enqueueTranscodes : List Int → Db (Option String)
  | [] => pure none
  | _ :: rest => do
    match ← enqueue with
    | .error err => pure (some err)
    | .ok _ => enqueueTranscodes rest

def startTranscodes (e : Entry) (durationMs : Int) (pending : List Int) : Db (Option String) :=
  if pending = [] then do
    -- The error of the playlist and that of the UPDATE are dropped.
    let _ ← publishSourcePlaylist e
    let _ ← execute fun w => w.setRow fun e => { setReady e with durationMs := some durationMs }
    pure none
  else do
    match ← execute fun w => w.setRow fun e =>
      { e with status := .transcoding, durationMs := some durationMs, error := none } with
    | .error err => pure (some err)
    | .ok _ => enqueueTranscodes pending

/-- `Probe` once the source has been probed. -/
def probed (entry : Int) (e : Entry) (res : ProbeResult) : Db (Option String) := do
  match ← entryByID with
  | .error _ => pure (some "entry deleted during probing")
  | .ok _ =>
    match ← query fun w => .ok w.enabledFlavors with
    | .error err => pure (some err)
    | .ok enabled =>
      match ← entryFlavors with
      | .error err => pure (some err)
      | .ok ticked => do
        let pending ← effectiveFlavors entry res.height (ticked.map (·.flavorId)) enabled
        startTranscodes e res.durationMs pending

def probe (entry : Int) (env : Env) : Db (Option String) := do
  match ← entryByID with
  | .error err => pure (some err)
  | .ok e =>
    if e.sourceKey = [] then pure (some "entry has no source media") else
    match spoolSource env e with
    | .error err => pure (some err)
    | .ok _ =>
      match env.probe with
      | .error err => do
        failEntry ("probe failed: " ++ err)
        pure (some err)
      | .ok res => probed entry e res

def prepareFlavor (entry flavorId : Int) : Db (Option String) := do
  match ← insertFlavorRow entry flavorId .pending none with
  | .error err => pure (some err)
  | .ok _ => do
    let res ← enqueue
    pure (errorOf res)

def prepareFlavors (entry : Int) : List Int → Db (Option String)
  | [] => pure none
  | f :: rest => do
    match ← prepareFlavor entry f with
    | some err => pure (some err)
    | none => prepareFlavors entry rest

def removeFlavor (entry : Int) (backend : Backend) (flavorId : Int) : Db (Option String) := do
  match ← flavorByID flavorId with
  | .error err => pure (some err)
  | .ok f => do
    removeFlavorFiles entry backend entry f.name
    let res ← execute fun w =>
      { w with rows := w.rows.deleteWhere fun r => r.key = (entry, flavorId) }
    pure (errorOf res)

def removeFlavors (entry : Int) (backend : Backend) : List Int → Db (Option String)
  | [] => pure none
  | f :: rest => do
    match ← removeFlavor entry backend f with
    | some err => pure (some err)
    | none => removeFlavors entry backend rest

/-- The UPDATE to probing; its error is dropped. -/
def reprobe : Db Unit := do
  let _ ← execute fun w => w.setRow fun e => { e with status := .probing, error := none }

def failWithoutRenditions : Db (Option String) := do
  match ← query fun w => .ok w.doneCount with
  | .error err => pure (some err)
  | .ok doneCount =>
    if doneCount = 0 then do
      let res ← execute fun w => w.setRow fun e =>
        { e with status := .failed, error := some "no enabled flavors produce renditions" }
      pure (errorOf res)
    else pure none

/-- `applyFlavors` once the flavor rows are written. -/
def finishApply (grown : Bool) : Db (Option String) := do
  match ← entryByID with
  | .error err => pure (some err)
  | .ok _ => do
    if grown then reprobe
    match ← rebuildMaster with
    | some err => pure (some err)
    | none => if grown then pure none else failWithoutRenditions

def applyFlavors (entry : Int) (backend : Backend) (flavorIds : List Int) :
    Db (Option String) := do
  match ← entryFlavors with
  | .error err => pure (some err)
  | .ok rows => do
    let current := rows.map (·.flavorId)
    let added := flavorIds.filter (· ∉ current)
    match ← prepareFlavors entry added with
    | some err => pure (some err)
    | none =>
      match ← removeFlavors entry backend (current.filter (· ∉ flavorIds)) with
      | some err => pure (some err)
      | none => finishApply (added ≠ [])

def sanitizeLang (lang : Text) : Text :=
  let lang := Categories.trim Categories.isSpace (lang.map Categories.toLower)
  if lang.all (fun r => ('a' ≤ r && r ≤ 'z') || ('0' ≤ r && r ≤ '9') || r = '-' || r = '_') then
    if lang = [] then "en".toList else lang
  else "en".toList

def subtitleKey (entry : Int) (lang : Text) : Text :=
  join [entryDir entry, "subs".toList, sanitizeLang lang ++ ".vtt".toList]

def addSubtitle (lang label vttKey : Text) : Db (Except String Unit) :=
  Program.statement
    (fun w => if w.row.isSome then
      { w with
        subtitles := w.subtitles ++ [⟨w.nextSubtitleId, lang, label, vttKey⟩]
        nextSubtitleId := w.nextSubtitleId + 1 } else w)
    (fun w => if w.row.isSome then .ok () else .error "foreign key violation")
    (.error contextEnded)

/-- The form once it is read; the `Put` of the file is a statement that changes nothing here. -/
def handleEntrySubtitleAdd (entry : Int) (lang label : Text) : Db (Option String) := do
  match ← entryByID with
  | .error err => pure (some err)
  | .ok _ => do
    let lang := if lang = [] then "en".toList else lang
    match ← query fun _ => .ok () with
    | .error err => pure (some err)
    | .ok _ => do
      let res ← addSubtitle lang label (subtitleKey entry lang)
      pure (errorOf res)

def deleteSubtitle (id : Int) : Db (Except String Unit) :=
  Program.statement
    (fun w => { w with subtitles := w.subtitles.filter fun s => s.id ≠ id })
    (fun w => if w.subtitles.any (·.id = id) then .ok () else .error notFound)
    (.error contextEnded)

/-- The deletion of the file changes nothing here, and its error is dropped. -/
def handleEntrySubtitleDelete (id : Int) : Db (Option String) := do
  match ← entryByID with
  | .error err => pure (some err)
  | .ok _ =>
    match ← listSubtitles with
    | .error err => pure (some err)
    | .ok _ => do
      let res ← deleteSubtitle id
      pure (errorOf res)

def createFlavor (f : Flavor) : Db (Option String) := do
  let res ← execute fun w =>
    { w with
      flavors := w.flavors ++ [{ f with id := w.nextFlavorId }]
      nextFlavorId := w.nextFlavorId + 1 }
  pure (errorOf res)

def updateFlavor (f : Flavor) : Db (Option String) := do
  let res ← execute fun w => { w with flavors := w.flavors.map fun g => if g.id = f.id then f else g }
  pure (errorOf res)

/-- The flavor rows go with it. -/
def deleteFlavor (id : Int) : Db (Option String) := do
  let res ← execute fun w =>
    { w with
      flavors := w.flavors.filter fun f => f.id ≠ id
      rows := w.rows.deleteWhere fun r => r.flavorId = id }
  pure (errorOf res)

/-- The end of an upload and of a download: the source is in the store. -/
def handOff (entry : Int) (ext : Text) (size : Int) (clearError : Bool) : Db (Option String) := do
  match ← execute fun w => w.setRow (toProbing (originalKey entry ext) size clearError) with
  | .error err => pure (some err)
  | .ok _ => do
    let res ← enqueue
    pure (errorOf res)

def downloadFailed (msg : String) : Db (Option String) := do
  failEntry ("download failed: " ++ msg)
  pure (some ("download failed: " ++ msg))

def download (entry : Int) (env : Env) : Db (Option String) := do
  match ← entryByID with
  | .error err => pure (some err)
  | .ok _ =>
    match env.fetch with
    | .error err => downloadFailed err
    | .ok (ext, written) =>
      match ← entryByID with
      | .error _ => pure (some "entry deleted during download")
      | .ok _ =>
        match env.put with
        | .error err => downloadFailed err
        | .ok _ => handOff entry ext written true

def handleEntryReprocess (bulk : Bool) : Db (Option String) := do
  match ← entryByID with
  | .error err => pure (some err)
  | .ok e =>
    if (!bulk && e.status = .uploading) || e.sourceKey = [] then
      pure (some "entry has no source media yet")
    else
      match ← enqueue with
      | .error err => pure (some err)
      | .ok _ => do
        reprobe
        pure none

/-- The rows go with the entry. -/
def handleEntryDelete (entry : Int) (backend : Backend) : Db (Option String) := do
  match ← entryByID with
  | .error err => pure (some err)
  | .ok _ => do
    deleteMedia entry backend entry
    match ← execute fun w => { w with row := none, rows := .empty, subtitles := [] } with
    | .error err => pure (some err)
    | .ok _ => do
      deleteMedia entry backend entry
      pure none

/-- `handleEntryDelete` of another entry, whose row is not here. -/
def deleteOther (entry : Int) (backend : Backend) (other : Int) : Db (Option String) := do
  deleteMedia entry backend other
  match ← query fun _ => .ok () with
  | .error err => pure (some err)
  | .ok _ => do
    deleteMedia entry backend other
    pure none

/-- `removeFlavor` of another entry. -/
def removeOtherFlavor (entry : Int) (backend : Backend) (other flavorId : Int) :
    Db (Option String) := do
  match ← flavorByID flavorId with
  | .error err => pure (some err)
  | .ok f => do
    removeFlavorFiles entry backend other f.name
    let res ← query fun _ => .ok ()
    pure (errorOf res)

/-- A `Transcode` of another entry that gives up what it has written. -/
def giveUpOther (entry : Int) (backend : Backend) (other flavorId : Int) : Db (Option String) := do
  match ← flavorByID flavorId with
  | .error err => pure (some err)
  | .ok f => do
    cleanup entry backend other f.name
    pure none

/-- `RequeueStale` on the flavors that no running job transcodes. -/
def revertFlavors (flavorIds : List Int) : Db (Option String) := do
  let res ← execute fun w =>
    { w with
      rows := w.rows.updateWhere (fun r => r.status = .transcoding && r.flavorId ∈ flavorIds)
        .pending none none }
  pure (errorOf res)

inductive Operation where
  | finishUpload (ext : Text) (size : Int)
  | download (env : Env)
  | reprocess (bulk : Bool)
  | deleteEntry
  | applyFlavors (flavorIds : List Int)
  | probe (env : Env)
  | transcode (env : Env) (flavorId : Int)
  | revertFlavors (flavorIds : List Int)
  | addSubtitle (lang label : Text)
  | deleteSubtitle (id : Int)
  | createFlavor (f : Flavor)
  | updateFlavor (f : Flavor)
  | deleteFlavor (id : Int)
  | deleteOther (other : Int)
  | removeOtherFlavor (other flavorId : Int)
  | giveUpOther (other flavorId : Int)

/-- The other entry that an operation is on. -/
def Operation.other : Operation → Option Int
  | .deleteOther other => some other
  | .removeOtherFlavor other _ => some other
  | .giveUpOther other _ => some other
  | _ => none

def program (entry : Int) (backend : Backend) : Operation → Db (Option String)
  | .finishUpload ext size => handOff entry ext size false
  | .download env => download entry env
  | .reprocess bulk => handleEntryReprocess bulk
  | .deleteEntry => handleEntryDelete entry backend
  | .applyFlavors flavorIds => applyFlavors entry backend flavorIds
  | .probe env => probe entry env
  | .transcode env flavorId => transcode entry backend env flavorId
  | .revertFlavors flavorIds => revertFlavors flavorIds
  | .addSubtitle lang label => handleEntrySubtitleAdd entry lang label
  | .deleteSubtitle id => handleEntrySubtitleDelete id
  | .createFlavor f => createFlavor f
  | .updateFlavor f => updateFlavor f
  | .deleteFlavor id => deleteFlavor id
  | .deleteOther other => deleteOther entry backend other
  | .removeOtherFlavor other flavorId => removeOtherFlavor entry backend other flavorId
  | .giveUpOther other flavorId => giveUpOther entry backend other flavorId

structure Call where
  id : Nat
  operation : Operation
  /-- What is left of the program. -/
  rest : Db (Option String)

structure State where
  world : World
  calls : List Call

def idle (w : World) : State := ⟨w, []⟩

inductive Action where
  | start (id : Nat) (operation : Operation)
  /-- The next statement of an operation, which may fail. -/
  | statement (id : Nat) (succeeds : Bool)
  | finish (id : Nat)

def State.others (s : State) (id : Nat) : List Call := s.calls.filter (·.id ≠ id)

def step (entry : Int) (backend : Backend) (s : State) : Action → Option State
  | .start id operation =>
    if s.calls.any (·.id = id) || operation.other = some entry then none
    else some { s with calls := ⟨id, operation, program entry backend operation⟩ :: s.calls }
  | .statement id succeeds =>
    (s.calls.find? (·.id = id)).bind fun call =>
      (call.rest.advance succeeds s.world).map fun after =>
        ⟨after.2, { call with rest := after.1 } :: s.others id⟩
  | .finish id =>
    match s.calls.find? (·.id = id) with
    | some ⟨_, _, .ret _⟩ => some { s with calls := s.others id }
    | _ => none

end Vidsilo.Jobs.Master
