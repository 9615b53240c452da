import Vidsilo.Jobs.Tables

/-!
# The output directories of one transcode

Source: internal/jobs/jobs.go:515-603 (`Transcode`), 642-692 (`flavorOutputDir`, `publishFlavor`),
737-747, internal/media/media.go:234-282 (`TranscodeFlavor`). Every call that can fail answers as the
environment says. Nothing else touches the two directories meanwhile. Progress lines, the log and what
`finalizeTranscode` does to other rows and to the spool are left out.
-/
namespace Vidsilo.Jobs.OutputDirs
open Library.SlashPath Storage.Keys Tables

/-- What the calls of `publishFlavor` return for one file. -/
structure OutputFile where
  stat : Except String Unit
  /-- `filepath.Rel`. -/
  rel : Except String Text
  opened : Except String Unit
  put : Except String Unit

structure Env where
  /-- The root of the store, if it is a `*store.Local`. -/
  localRoot : Option Text
  /-- `json.Unmarshal`: the flavor of the payload. -/
  params : Except String Int
  /-- `EntryByID`, at the start of the job. -/
  entry : Except String Unit
  spoolSource : Except String Unit
  acquireTranscodeSem : Except String Unit
  /-- The query of `FlavorByID`. -/
  flavorByID : Except String Unit
  /-- `EntryByID` before the encoding, and after it. -/
  beforeEncoding : Except String Unit
  afterEncoding : Except String Unit
  mkdirTemp : Except String Text
  /-- `os.MkdirAll` in `TranscodeFlavor`. -/
  mkdirAll : Except String Unit
  ffmpeg : Except String Unit
  /-- What `filepath.Walk` finds. -/
  files : List OutputFile
  removeAll : Bool
  /-- Whether the UPDATE of the flavor row to a status runs. -/
  updates : EntryFlavorStatus → Bool
  finalizeTranscode : Option String

structure World where
  /-- The directories that exist, of those that output goes to. -/
  dirs : List Text
  /-- The name of the flavor, while there is one with the id. -/
  name : Option Text
  /-- Of the entry and the flavor. -/
  row : Option EntryFlavor
  uploaded : List Text
  /-- The directory that `os.MkdirTemp` made, and the statuses that the row got. For the proofs only. -/
  made : Option Text
  marks : List EntryFlavorStatus

/-- Before the job. -/
def start (dirs : List Text) (name : Option Text) (row : Option EntryFlavor) : World :=
  ⟨dirs, name, row, [], none, []⟩

variable (env : Env)

def World.mark (w : World) (status : EntryFlavorStatus) (error : Option String)
    (playlistKey : Option Text) : World :=
  if env.updates status && w.row.isSome then
    { w with
      row := w.row.map fun r => r.set status error playlistKey
      marks := w.marks ++ [status] }
  else w

def markFlavor (status : EntryFlavorStatus) (errMsg : String) (w : World) : World :=
  w.mark env status (some errMsg) none

def markFlavorDone (playlistKey : Text) (w : World) : World :=
  w.mark env .done none (some playlistKey)

def World.mkdir (w : World) (dir : Text) : World := { w with dirs := dir :: w.dirs }

/-- The closure of `flavorOutputDir`; the error is dropped. -/
def cleanup (dir : Text) (w : World) : World :=
  if env.removeAll then { w with dirs := w.dirs.filter (· ≠ dir) } else w

def localDir (root : Text) (entry : Int) (name : Text) : Text := root ++ '/' :: flavorDir entry name

def flavorOutputDir (entry : Int) (name : Text) (w : World) : Except String Text × World :=
  match env.localRoot with
  | some root => (.ok (localDir root entry name), w)
  | none =>
    match env.mkdirTemp with
    | .error err => (.error err, w)
    | .ok dir => (.ok dir, { w.mkdir dir with made := some dir })

/-- `media.TranscodeFlavor`. -/
def transcodeFlavor (dir : Text) (w : World) : Except String Unit × World :=
  match env.mkdirAll with
  | .error err => (.error err, w)
  | .ok _ => (env.ffmpeg, w.mkdir dir)

/-- The loop of `publishFlavor`. -/
def uploadFiles (entry : Int) (name : Text) : List OutputFile → World → Except String Unit × World
  | [], w => (.ok (), w)
  | f :: rest, w =>
    match f.stat, f.rel, f.opened, f.put with
    | .error err, _, _, _ => (.error err, w)
    | _, .error err, _, _ => (.error err, w)
    | _, _, .error err, _ => (.error err, w)
    | _, _, _, .error err => (.error err, w)
    | .ok _, .ok rel, .ok _, .ok _ =>
      uploadFiles entry name rest
        { w with uploaded := w.uploaded ++ [flavorSegmentKey entry name rel] }

/-- It does not call the closure that it gets. -/
def publishFlavor (entry : Int) (name : Text) (w : World) : Except String Text × World :=
  match env.localRoot with
  | some _ => (.ok (flavorPlaylistKey entry name), w)
  | none =>
    match uploadFiles entry name env.files w with
    | (.error err, w) => (.error err, w)
    | (.ok _, w) => (.ok (flavorPlaylistKey entry name), w)

def flavorFailed (err : String) (w : World) : Option String × World :=
  (env.finalizeTranscode, markFlavor env .failed err w)

/-- `Transcode` with the output directory. -/
def encode (entry : Int) (name dir : Text) (w : World) : Option String × World :=
  match transcodeFlavor env dir w with
  | (.error err, w) => flavorFailed env err (cleanup env dir w)
  | (.ok _, w) =>
    match env.afterEncoding with
    | .error _ => (some "entry deleted during transcoding", cleanup env dir w)
    | .ok _ =>
      match publishFlavor env entry name w with
      | (.error err, w) => flavorFailed env err (cleanup env dir w)
      | (.ok playlistKey, w) => (env.finalizeTranscode, markFlavorDone env playlistKey w)

/-- `Transcode` with the slot of the entry. -/
def transcodeWithSlot (entry : Int) (w : World) : Option String × World :=
  match env.flavorByID, w.name with
  | .error err, _ => flavorFailed env err w
  | .ok _, none => flavorFailed env "not found" w
  | .ok _, some name =>
    let w := markFlavor env .transcoding "" w
    match env.beforeEncoding with
    | .error _ => (some "entry deleted during transcoding", w)
    | .ok _ =>
      match flavorOutputDir env entry name w with
      | (.error err, w) => flavorFailed env err w
      | (.ok dir, w) => encode env entry name dir w

/-- For a job of an entry. -/
def transcode (entryId : Option Int) (w : World) : Option String × World :=
  match entryId with
  | none => (some "transcode job without entry", w)
  | some entry =>
    match env.params, env.entry, env.spoolSource, env.acquireTranscodeSem with
    | .error err, _, _, _ => (some err, w)
    | _, .error err, _, _ => (some err, w)
    | _, _, .error err, _ => (some err, w)
    | _, _, _, .error err => (some err, w)
    | .ok _, .ok _, .ok _, .ok _ => transcodeWithSlot env entry w

/-- When the job has returned: the temporary directory is gone, and the directory of the flavor in the
tree is there exactly when the job marked the flavor done. -/
structure Tidy (entryId : Option Int) (w w' : World) : Prop where
  temp : env.localRoot = none → ∀ dir, w'.made = some dir → dir ∉ w'.dirs
  flavor : ∀ root entry name, env.localRoot = some root → entryId = some entry →
    w.name = some name → (localDir root entry name ∈ w'.dirs ↔ .done ∈ w'.marks)

/-- The tree has no directory of the flavor. -/
def Absent (entryId : Option Int) (w : World) : Prop :=
  ∀ root entry name, env.localRoot = some root → entryId = some entry → w.name = some name →
    localDir root entry name ∉ w.dirs

/-- The job gets as far as an output directory. -/
def Env.reachesOutput (entryId : Option Int) (name : Option Text) : Bool :=
  entryId.isSome && env.params.isOk && env.entry.isOk && env.spoolSource.isOk &&
    env.acquireTranscodeSem.isOk && env.flavorByID.isOk && name.isSome && env.beforeEncoding.isOk &&
    (env.localRoot.isSome || env.mkdirTemp.isOk)

def OutputFile.uploads (f : OutputFile) : Bool :=
  f.stat.isOk && f.rel.isOk && f.opened.isOk && f.put.isOk

/-- The output is encoded, wanted and published. -/
def Env.finishes : Bool :=
  env.mkdirAll.isOk && env.ffmpeg.isOk && env.afterEncoding.isOk &&
    (env.localRoot.isSome || env.files.all OutputFile.uploads)

def Fits (entryId : Option Int) (w : World) : Prop :=
  if env.reachesOutput entryId w.name then
    if env.finishes then env.localRoot.isSome ∧ env.updates .done ∧ w.row.isSome
    else env.removeAll ∨ (env.localRoot.isSome ∧ env.mkdirAll.isOk = false ∧ Absent env entryId w)
  else Absent env entryId w

variable {env} {w w' : World} {entryId : Option Int} {entry : Int} {name dir : Text}

@[simp] theorem isOk_error (err : String) : (Except.error err : Except String α).isOk = false := rfl

@[simp] theorem isOk_ok (a : α) : (Except.ok a : Except String α).isOk = true := rfl

@[simp] theorem dirs_mark (status : EntryFlavorStatus) (error : Option String)
    (playlistKey : Option Text) : (w.mark env status error playlistKey).dirs = w.dirs := by
  unfold World.mark
  split <;> rfl

@[simp] theorem made_mark (status : EntryFlavorStatus) (error : Option String)
    (playlistKey : Option Text) : (w.mark env status error playlistKey).made = w.made := by
  unfold World.mark
  split <;> rfl

@[simp] theorem row_mark (status : EntryFlavorStatus) (error : Option String)
    (playlistKey : Option Text) :
    (w.mark env status error playlistKey).row.isSome = w.row.isSome := by
  unfold World.mark
  split
  · exact Option.isSome_map
  · rfl

theorem done_mark {status : EntryFlavorStatus} (error : Option String)
    (playlistKey : Option Text) (other : status ≠ .done) :
    .done ∈ (w.mark env status error playlistKey).marks ↔ .done ∈ w.marks := by
  unfold World.mark
  split
  · simp [other.symm]
  · rfl

theorem done_markFlavorDone (env : Env) (playlistKey : Text) (unmarked : .done ∉ w.marks) :
    .done ∈ (markFlavorDone env playlistKey w).marks ↔ env.updates .done = true ∧ w.row.isSome := by
  unfold markFlavorDone World.mark
  split
  · next runs => simpa using runs
  · next fails => simpa [unmarked] using fails

/-- Without an output directory of its own, the job leaves the tree as it found it. -/
theorem tidy_untouched (dirs : w'.dirs = w.dirs) (made : w'.made = none)
    (unmarked : .done ∉ w'.marks) : Tidy env entryId w w' ↔ Absent env entryId w := by
  constructor
  · intro tidy root entry name isLocal found named there
    exact unmarked ((tidy.flavor root entry name isLocal found named).mp (dirs ▸ there))
  · intro absent
    constructor
    · intro _ dir mine
      cases made.symm.trans mine
    · intro root entry name isLocal found named
      rw [dirs]
      exact iff_of_false (absent root entry name isLocal found named) unmarked

theorem uploadFiles_spec (entry : Int) (name : Text) (files : List OutputFile) (w : World) :
    ∃ uploaded,
    (uploadFiles entry name files w).2 = { w with uploaded := uploaded } ∧
      (uploadFiles entry name files w).1.isOk = files.all OutputFile.uploads := by
  induction files generalizing w with
  | nil => exact ⟨w.uploaded, rfl, rfl⟩
  | cons f rest ih =>
    unfold uploadFiles
    rw [List.all_cons, OutputFile.uploads]
    cases stat : f.stat with
    | error err => exact ⟨w.uploaded, rfl, rfl⟩
    | ok _ =>
      cases found : f.rel with
      | error err => exact ⟨w.uploaded, rfl, rfl⟩
      | ok rel =>
        cases opened : f.opened with
        | error err => exact ⟨w.uploaded, rfl, rfl⟩
        | ok _ =>
          cases put : f.put with
          | error err => exact ⟨w.uploaded, rfl, rfl⟩
          | ok _ =>
            obtain ⟨uploaded, same, ok⟩ := ih { w with
              uploaded := w.uploaded ++ [flavorSegmentKey entry name rel] }
            exact ⟨uploaded, same, by simp [ok]⟩

theorem publishFlavor_spec (env : Env) (entry : Int) (name : Text) (w : World) : ∃ uploaded,
    (publishFlavor env entry name w).2 = { w with uploaded := uploaded } ∧
      (publishFlavor env entry name w).1.isOk =
        (env.localRoot.isSome || env.files.all OutputFile.uploads) := by
  unfold publishFlavor
  cases env.localRoot with
  | some root => exact ⟨w.uploaded, rfl, rfl⟩
  | none =>
    obtain ⟨uploaded, same, ok⟩ := uploadFiles_spec entry name env.files w
    generalize uploadFiles entry name env.files w = result at same ok
    obtain ⟨outcome, w'⟩ := result
    cases outcome with
    | error err => exact ⟨uploaded, same, ok⟩
    | ok _ => exact ⟨uploaded, same, ok⟩

theorem encode_finished (finishes : env.finishes = true) (entry : Int) (name dir : Text) (w : World) :
    ∃ uploaded playlistKey,
    (encode env entry name dir w).2 =
      markFlavorDone env playlistKey { w.mkdir dir with uploaded := uploaded } := by
  simp only [Env.finishes, Bool.and_eq_true] at finishes
  obtain ⟨⟨⟨made, encoded⟩, live⟩, published⟩ := finishes
  obtain ⟨uploaded, same, ok⟩ := publishFlavor_spec env entry name (w.mkdir dir)
  unfold encode transcodeFlavor
  cases hMade : env.mkdirAll with
  | error err => simp [hMade] at made
  | ok _ =>
    cases hEncoded : env.ffmpeg with
    | error err => simp [hEncoded] at encoded
    | ok _ =>
      cases hLive : env.afterEncoding with
      | error err => simp [hLive] at live
      | ok _ =>
        rw [published] at ok
        dsimp only
        generalize publishFlavor env entry name (w.mkdir dir) = result at same ok ⊢
        obtain ⟨outcome, w'⟩ := result
        cases outcome with
        | error err => cases ok
        | ok playlistKey => exact ⟨uploaded, playlistKey, by rw [← same]⟩

/-- What `encode` leaves behind when it fails. -/
structure Failed (env : Env) (dir : Text) (w w' : World) : Prop where
  dirs : w'.dirs = (cleanup env dir (if env.mkdirAll.isOk then w.mkdir dir else w)).dirs
  made : w'.made = w.made
  marks : .done ∈ w'.marks ↔ .done ∈ w.marks

theorem encode_failed (fails : env.finishes = false) :
    Failed env dir w (encode env entry name dir w).2 := by
  have cleaned (err : String) (w₁ : World) (dirs : w₁.dirs =
      (if env.mkdirAll.isOk then w.mkdir dir else w).dirs) (made : w₁.made = w.made)
      (marks : w₁.marks = w.marks) :
      Failed env dir w (flavorFailed env err (cleanup env dir w₁)).2 ∧
        Failed env dir w (cleanup env dir w₁) := by
    have after : Failed env dir w (cleanup env dir w₁) := by
      unfold cleanup
      constructor
      · unfold cleanup
        split <;> simp [dirs]
      · split <;> exact made
      · split <;> simp [marks]
    refine ⟨⟨?_, ?_, ?_⟩, after⟩
    · simpa [flavorFailed, markFlavor] using after.dirs
    · simpa [flavorFailed, markFlavor] using after.made
    · simpa [flavorFailed, markFlavor, done_mark] using after.marks
  unfold encode transcodeFlavor
  cases hMade : env.mkdirAll with
  | error err => exact (cleaned err w (by simp [hMade]) rfl rfl).1
  | ok _ =>
    cases hEncoded : env.ffmpeg with
    | error err => exact (cleaned err (w.mkdir dir) (by simp [hMade]) rfl rfl).1
    | ok _ =>
      cases hLive : env.afterEncoding with
      | error err => exact (cleaned err (w.mkdir dir) (by simp [hMade]) rfl rfl).2
      | ok _ =>
        obtain ⟨uploaded, same, ok⟩ := publishFlavor_spec env entry name (w.mkdir dir)
        simp only [Env.finishes, hMade, hEncoded, hLive, isOk_ok, Bool.true_and] at fails
        rw [fails] at ok
        dsimp only
        generalize publishFlavor env entry name (w.mkdir dir) = result at same ok ⊢
        obtain ⟨outcome, w'⟩ := result
        obtain rfl : w' = { w.mkdir dir with uploaded := uploaded } := same
        cases outcome with
        | error err =>
          exact (cleaned err { w.mkdir dir with uploaded := uploaded } (by simp [hMade]) rfl rfl).1
        | ok _ => cases ok

/-- What the job has done by then. -/
structure Ready (env : Env) (entryId : Option Int) (entry : Int) (name dir : Text) (w w' : World) :
    Prop where
  isEntry : entryId = some entry
  named : w.name = some name
  isLocal : ∀ root, env.localRoot = some root →
    dir = localDir root entry name ∧ w'.made = none ∧ w'.dirs = w.dirs
  isRemote : env.localRoot = none → w'.made = some dir ∧ dir ∈ w'.dirs
  row : w'.row.isSome = w.row.isSome
  unmarked : .done ∉ w'.marks

theorem Ready.tidy_iff {w₁ : World} (h : Ready env entryId entry name dir w w₁)
    (made : w'.made = w₁.made) : Tidy env entryId w w' ↔
      (dir ∈ w'.dirs ↔ env.localRoot.isSome = true ∧ .done ∈ w'.marks) := by
  cases isLocal : env.localRoot with
  | none =>
    have mine : w'.made = some dir := made.trans (h.isRemote isLocal).1
    constructor
    · intro tidy
      exact iff_of_false (tidy.temp isLocal dir mine) (by simp)
    · intro gone
      constructor
      · intro _ dir' mine'
        cases mine.symm.trans mine'
        simpa using gone
      · intro root entry' name' isLocal'
        cases isLocal.symm.trans isLocal'
  | some root =>
    obtain ⟨rfl, nothing, _⟩ := h.isLocal root isLocal
    constructor
    · intro tidy
      simpa using tidy.flavor root entry name isLocal h.isEntry h.named
    · intro exactly
      constructor
      · intro isRemote
        cases isLocal.symm.trans isRemote
      · intro root' entry' name' isLocal' isEntry named
        cases isLocal.symm.trans isLocal'
        cases h.isEntry.symm.trans isEntry
        cases h.named.symm.trans named
        simpa using exactly

theorem Ready.finished {w₁ : World} (h : Ready env entryId entry name dir w w₁)
    (finishes : env.finishes = true) : Tidy env entryId w (encode env entry name dir w₁).2 ↔
      env.localRoot.isSome = true ∧ env.updates .done = true ∧ w.row.isSome = true := by
  obtain ⟨uploaded, playlistKey, same⟩ := encode_finished finishes entry name dir w₁
  have there : dir ∈ (encode env entry name dir w₁).2.dirs := by
    simp [same, markFlavorDone, World.mkdir]
  have marked := done_markFlavorDone env playlistKey
    (w := { w₁.mkdir dir with uploaded := uploaded }) h.unmarked
  rw [h.tidy_iff (by simp [same, markFlavorDone, World.mkdir])]
  simp only [there, true_iff]
  rw [same, marked, ← h.row]
  rfl

theorem Ready.failed {w₁ : World} (h : Ready env entryId entry name dir w w₁)
    (fails : env.finishes = false) : Tidy env entryId w (encode env entry name dir w₁).2 ↔
      env.removeAll = true ∨
        (env.localRoot.isSome = true ∧ env.mkdirAll.isOk = false ∧ Absent env entryId w) := by
  have left : Failed env dir w₁ (encode env entry name dir w₁).2 := encode_failed fails
  rw [h.tidy_iff left.made, left.marks, left.dirs]
  simp only [h.unmarked, and_false, iff_false]
  unfold cleanup
  cases removed : env.removeAll with
  | true => simp
  | false =>
    cases made : env.mkdirAll.isOk with
    | true => simp [World.mkdir]
    | false =>
      cases isLocal : env.localRoot with
      | none => simp [(h.isRemote isLocal).2]
      | some root =>
        obtain ⟨rfl, _, same⟩ := h.isLocal root isLocal
        simp only [Bool.false_eq_true, if_false, same, Option.isSome_some, true_and, false_or]
        constructor
        · intro absent root' entry' name' isLocal' isEntry named
          cases isLocal.symm.trans isLocal'
          cases h.isEntry.symm.trans isEntry
          cases h.named.symm.trans named
          exact absent
        · intro absent
          exact absent root entry name isLocal h.isEntry h.named

theorem Ready.encode_iff {w₁ : World} (h : Ready env entryId entry name dir w w₁)
    (reaches : env.reachesOutput entryId w.name = true) :
    Tidy env entryId w (encode env entry name dir w₁).2 ↔ Fits env entryId w := by
  unfold Fits
  rw [if_pos reaches]
  cases finishes : env.finishes with
  | true => simpa using h.finished finishes
  | false => simpa using h.failed finishes

/-- The job ends before it has an output directory. -/
theorem untouched_iff (dirs : w'.dirs = w.dirs) (made : w'.made = none) (unmarked : .done ∉ w'.marks)
    (early : env.reachesOutput entryId w.name = false) :
    Tidy env entryId w w' ↔ Fits env entryId w := by
  unfold Fits
  rw [early]
  exact tidy_untouched dirs made unmarked

theorem transcodeWithSlot_iff (entry : Int) (dirs : List Text) (name : Option Text)
    (row : Option EntryFlavor) (admitted : (env.params.isOk && env.entry.isOk &&
      env.spoolSource.isOk && env.acquireTranscodeSem.isOk) = true) :
    Tidy env (some entry) (start dirs name row) (transcodeWithSlot env entry (start dirs name row)).2 ↔
      Fits env (some entry) (start dirs name row) := by
  have reaches : env.reachesOutput (some entry) (start dirs name row).name =
      (env.flavorByID.isOk && name.isSome && env.beforeEncoding.isOk &&
        (env.localRoot.isSome || env.mkdirTemp.isOk)) := by
    simp only [Bool.and_eq_true] at admitted
    simp [Env.reachesOutput, admitted, start]
  unfold transcodeWithSlot
  cases found : env.flavorByID with
  | error err =>
    apply untouched_iff
    · simp [flavorFailed, markFlavor]
    · simp [flavorFailed, markFlavor, start]
    · simp [flavorFailed, markFlavor, done_mark, start]
    · simp [reaches, found]
  | ok _ =>
    cases name with
    | none =>
      apply untouched_iff
      · simp [flavorFailed, markFlavor, start]
      · simp [flavorFailed, markFlavor, start]
      · simp [flavorFailed, markFlavor, done_mark, start]
      · simp [reaches]
    | some name =>
      dsimp only [start]
      cases live : env.beforeEncoding with
      | error err =>
        apply untouched_iff
        · simp [markFlavor]
        · simp [markFlavor]
        · simp [markFlavor, done_mark]
        · simpa [start, live] using reaches
      | ok _ =>
        unfold flavorOutputDir
        cases isLocal : env.localRoot with
        | some root =>
          apply Ready.encode_iff
          · constructor
            · rfl
            · rfl
            · intro root' isLocal'
              cases isLocal.symm.trans isLocal'
              simp [markFlavor]
            · intro isRemote
              cases isLocal.symm.trans isRemote
            · simp [markFlavor]
            · simp [markFlavor, done_mark]
          · simpa [start, live, found, isLocal] using reaches
        | none =>
          cases temp : env.mkdirTemp with
          | error err =>
            apply untouched_iff
            · simp [flavorFailed, markFlavor]
            · simp [flavorFailed, markFlavor]
            · simp [flavorFailed, markFlavor, done_mark]
            · simpa [start, temp, isLocal] using reaches
          | ok dir =>
            apply Ready.encode_iff
            · constructor
              · rfl
              · rfl
              · intro root' isLocal'
                cases isLocal.symm.trans isLocal'
              · intro isRemote
                simp [World.mkdir]
              · simp [World.mkdir, markFlavor]
              · simp [World.mkdir, markFlavor, done_mark]
            · simpa [start, live, found, temp] using reaches

/-- Whatever the calls return, the output is cleaned up as it should be exactly when: a job that
finishes has its output in the tree and marks the flavor done; a removal works, or has nothing to
remove; and a job that gets no output directory finds none of the flavor in the tree. -/
theorem outputs_tidy_iff (env : Env) (entryId : Option Int) (dirs : List Text) (name : Option Text)
    (row : Option EntryFlavor) : Tidy env entryId (start dirs name row)
      (transcode env entryId (start dirs name row)).2 ↔ Fits env entryId (start dirs name row) := by
  have early (fails : env.reachesOutput entryId name = false) :
      Tidy env entryId (start dirs name row) (start dirs name row) ↔
        Fits env entryId (start dirs name row) :=
    untouched_iff rfl rfl (by simp [start]) fails
  cases entryId with
  | none => exact early rfl
  | some entry =>
    unfold transcode
    cases params : env.params with
    | error err => exact early (by simp [Env.reachesOutput, params])
    | ok flavorId =>
      cases there : env.entry with
      | error err => exact early (by simp [Env.reachesOutput, there])
      | ok _ =>
        cases spooled : env.spoolSource with
        | error err => exact early (by simp [Env.reachesOutput, spooled])
        | ok _ =>
          cases slot : env.acquireTranscodeSem with
          | error err => exact early (by simp [Env.reachesOutput, slot])
          | ok _ =>
            apply transcodeWithSlot_iff
            simp [params, there, spooled, slot]

/-- Nothing fails; the output is a playlist and a segment. -/
def bucket : Env where
  localRoot := none
  params := .ok 3
  entry := .ok ()
  spoolSource := .ok ()
  acquireTranscodeSem := .ok ()
  flavorByID := .ok ()
  beforeEncoding := .ok ()
  afterEncoding := .ok ()
  mkdirTemp := .ok "/tmp/vidsilo-flavor-1".toList
  mkdirAll := .ok ()
  ffmpeg := .ok ()
  files := [⟨.ok (), .ok "index.m3u8".toList, .ok (), .ok ()⟩,
    ⟨.ok (), .ok "seg_00000.ts".toList, .ok (), .ok ()⟩]
  removeAll := true
  updates := fun _ => true
  finalizeTranscode := none

def row : EntryFlavor := ⟨7, 3, .pending, none, none⟩

/-- The flavor is done, and the temporary directory stays. -/
theorem finished_bucket_keeps_temp :
    (transcode bucket (some 7) (start [] (some "720p".toList) (some row))).1 = none ∧
      ¬ Tidy bucket (some 7) (start [] (some "720p".toList) (some row))
        (transcode bucket (some 7) (start [] (some "720p".toList) (some row))).2 := by
  refine ⟨by decide, fun tidy => ?_⟩
  have made : (transcode bucket (some 7) (start [] (some "720p".toList) (some row))).2.made =
      some "/tmp/vidsilo-flavor-1".toList := by decide
  exact absurd (tidy.temp rfl _ made) (by decide)

end Vidsilo.Jobs.OutputDirs
