import Vidsilo.Jobs.Master
import Vidsilo.Library.Json
import Vidsilo.Library.StateError
import Vidsilo.Storage.Writes

/-!
# Patching an entry

Source: internal/api/entries.go:144-213 (`handleEntryPatch`), 251-400 (`applyFlavors`, `prepareFlavor`,
`removeFlavor`, `rebuildMaster`), internal/db/entries.go:221-295, internal/media/media.go:191-214
(`ExtractPoster`). The entry exists, and no other request changes anything meanwhile. The environment
says which statements and calls fail; one that fails has no effect. The store is either of the two
drivers with no wrapper. The audit and the log are left out.
-/
namespace Vidsilo.Api.Entries
open Library Library.SlashPath Library.StateError
open Storage.Keys Storage.Drivers Jobs Jobs.Tables Queue.Table

/-- Whether the key is present, and its value if that is not null. -/
structure OptInt64 where
  set : Bool
  value : Option Int
  deriving DecidableEq, Repr

structure EntryPatch where
  title : Option Text
  description : Option Text
  categoryId : OptInt64
  isPublic : Option Bool
  domainAclId : OptInt64
  accessDenied : Option Bool
  flavorIds : Option (List Int)
  posterFrame : Option Int
  playerId : OptInt64
  deriving DecidableEq, Repr

structure Row where
  title : Text
  description : Text
  categoryId : Option Int
  isPublic : Bool
  domainAclId : Option Int
  accessDenied : Bool
  playerId : Option Int
  /-- Keys are empty where the column is NULL. -/
  posterKey : Text
  posterFrame : Int
  spriteKey : Text
  spriteFrames : Int
  status : EntryStatus
  error : Option String
  updatedAt : Int
  deriving DecidableEq, Repr

structure World where
  row : Row
  /-- `now()` of the next statement. -/
  now : Int
  past : row.updatedAt < now
  /-- The flavor rows of the entry. -/
  rows : EntryFlavors
  jobs : Jobs
  store : Driver

/-- An UPDATE of the row, with `updated_at = now()`. -/
def World.updateRow (set : Row → Row) (w : World) : World :=
  { w with
    row := { set w.row with updatedAt := w.now }
    now := w.now + 1
    past := Int.lt_succ w.now }

def OptInt64.apply (o : OptInt64) (old : Option Int) : Option Int :=
  match o.value with
  | some v => some v
  | none => if o.set then none else old

/-- The SET clause of `UpdateEntry`. -/
def EntryPatch.apply (patch : EntryPatch) (row : Row) : Row :=
  { row with
    title := patch.title.getD row.title
    description := patch.description.getD row.description
    categoryId := patch.categoryId.apply row.categoryId
    isPublic := patch.isPublic.getD row.isPublic
    domainAclId := patch.domainAclId.apply row.domainAclId
    accessDenied := patch.accessDenied.getD row.accessDenied
    playerId := patch.playerId.apply row.playerId }

/-- By `flavor_id`. -/
def World.currentFlavors (w : World) : List EntryFlavor :=
  w.rows.rows.insertionSort fun r q => r.flavorId ≤ q.flavorId

def World.doneCount (w : World) : Nat := w.rows.rows.countP fun r => r.status = .done

/-- The statements and calls of a request; those of a loop by their place in it, or by what they are
about. -/
inductive Step where
  | loadEntry | acl | player | extractPoster
  | updateEntry | loadUpdated | posterColumns | loadPoster
  | currentFlavors
  | insertFlavor (place : Nat)
  | enqueue (place : Nat)
  | flavorByID (flavorId : Int)
  | listFiles (flavorId : Int)
  | deleteFile (key : Text)
  | removeTree (flavorId : Int)
  | deleteRow (flavorId : Int)
  | loadApplied | reprobe
  | masterFlavors | masterSubtitles
  | masterFlavor (flavorId : Int)
  | putMaster | countDone | failEntry | loadFinished
  deriving DecidableEq, Repr

structure Env where
  entryId : Int
  fails : Step → Bool
  categories : List Int
  acls : List Int
  players : List Int
  flavors : List Master.Flavor
  subtitles : List Master.Subtitle
  /-- What `ffmpeg` crops out of the sprite. -/
  poster : Int → Bytes

/-- What the response says instead of 200. -/
inductive Refusal where
  | badRequest (message : String)
  | conflict (message : String)
  | internal (message : String)
  deriving DecidableEq, Repr

abbrev Request (ε α : Type) := EStateM ε World α

variable (env : Env)

def runs (step : Step) : Request String Unit := guardOr (!env.fails step) "statement failed"

/-- `EntryByID`. -/
def entryByID (step : Step) : Request String Row := do
  runs env step
  pure (← get).row

/-- `FlavorByID`. -/
def Env.flavor (flavorId : Int) : Option Master.Flavor := env.flavors.find? fun f => f.id = flavorId

/-- The checks of the handler, in their order. -/
def EntryPatch.check (patch : EntryPatch) (e : Row) : Option Refusal :=
  if patch.domainAclId.set && patch.domainAclId.value.any fun id => env.fails .acl || id ∉ env.acls then
    some (.badRequest "unknown domain acl")
  else if patch.playerId.set && patch.playerId.value.any fun id =>
      env.fails .player || id ∉ env.players then
    some (.badRequest "unknown player")
  else
    match patch.posterFrame with
    | none => none
    | some frame =>
      if e.spriteKey = [] ∨ e.spriteFrames = 0 then some (.conflict "no sprite sheet available yet")
      else if frame < 0 ∨ e.spriteFrames ≤ frame then some (.badRequest "poster frame out of range")
      else none

/-- The handler up to the poster. -/
def checkPatch (body : Option EntryPatch) : Request Refusal EntryPatch := fun w =>
  if env.fails .loadEntry then .error (.internal "load entry") w
  else
    match body with
    | none => .error (.badRequest "invalid JSON body") w
    | some patch =>
      match patch.check env w.row with
      | some refusal => .error refusal w
      | none => .ok patch w

def World.putPoster (frame : Int) (w : World) : World :=
  { w with store := w.store.put (posterKey env.entryId) (env.poster frame) }

def extractPoster (frame : Int) : Request String Unit := do
  runs env .extractPoster
  modify (·.putPoster env frame)

/-- The foreign keys of the row. -/
def EntryPatch.references (patch : EntryPatch) : Bool :=
  patch.categoryId.value.all (· ∈ env.categories) && patch.domainAclId.value.all (· ∈ env.acls) &&
    patch.playerId.value.all (· ∈ env.players)

/-- The UPDATE of `UpdateEntry`. -/
def writeEntry (patch : EntryPatch) : Request String Unit := do
  runs env .updateEntry
  guardOr (patch.references env) "foreign key violation"
  modify (·.updateRow patch.apply)

def setPosterColumns (frame : Int) : Request String Unit := do
  runs env .posterColumns
  modify (·.updateRow fun row =>
    { row with posterKey := Storage.Keys.posterKey env.entryId, posterFrame := frame })

def prepareFlavor (place : Nat) (flavorId : Int) : Request String Unit := do
  runs env (.insertFlavor place)
  guardOr (env.flavor flavorId).isSome "foreign key violation"
  modify fun w => { w with rows := w.rows.upsert env.entryId flavorId .pending none }
  runs env (.enqueue place)
  modify fun w => { w with
    jobs := addJob w.jobs (enqueueAt .transcode (some env.entryId) (some flavorId) 3 none w.now) }

def prepareFlavors : Nat → List Int → Request String Unit
  | _, [] => pure ()
  | place, id :: rest => do
    prepareFlavor env place id
    prepareFlavors (place + 1) rest

/-- The files of the flavor, of which some may stay. -/
def deleteFiles (flavorId : Int) (name : Text) (d : Driver) : Driver :=
  let dir := flavorDir env.entryId name
  let listed := if env.fails (.listFiles flavorId) then [] else d.list dir
  let d := listed.foldl (fun d key => if env.fails (.deleteFile key) then d else d.delete key) d
  if env.fails (.removeTree flavorId) then d else d.removeTree dir

def removeFlavor (flavorId : Int) : Request String Unit := do
  runs env (.flavorByID flavorId)
  match env.flavor flavorId with
  | none => throw "not found"
  | some f => do
    modify fun w => { w with store := deleteFiles env flavorId f.name w.store }
    runs env (.deleteRow flavorId)
    modify fun w => { w with rows := w.rows.deleteWhere fun r => r.flavorId = flavorId }

def removeFlavors : List Int → Request String Unit
  | [] => pure ()
  | id :: rest => do
    removeFlavor env id
    removeFlavors rest

/-- A flavor that cannot be read is passed over. -/
def World.playlist (w : World) : Master.Playlist where
  renditions := (w.currentFlavors.filter fun r => r.status = .done).filterMap fun r =>
    if env.fails (.masterFlavor r.flavorId) then none
    else (env.flavor r.flavorId).map fun f => Master.rendition f r
  subtitles := env.subtitles.map Master.subtitleRendition

def rebuildMaster : Request String Unit := do
  runs env .masterFlavors
  runs env .masterSubtitles
  runs env .putMaster
  modify fun w => { w with
    store := w.store.put (masterKey env.entryId)
      (Json.toUtf8 (Master.buildMasterPlaylist (w.playlist env))) }

def failWithoutRenditions : Request String Unit := do
  runs env .countDone
  let w ← get
  if w.doneCount = 0 then do
    runs env .failEntry
    modify (·.updateRow fun row =>
      { row with status := .failed, error := some "no enabled flavors produce renditions" })

/-- The UPDATE to probing; its error is dropped. -/
def reprobe (w : World) : World :=
  if env.fails .reprobe then w
  else w.updateRow fun row => { row with status := .probing, error := none }

/-- `applyFlavors` once the flavor rows are written. -/
def finishApply (grown : Bool) : Request String Unit := do
  runs env .loadApplied
  modify fun w => if grown then reprobe env w else w
  rebuildMaster env
  if grown then pure () else failWithoutRenditions env

def World.added (w : World) (flavorIds : List Int) : List Int :=
  flavorIds.filter (· ∉ w.currentFlavors.map (·.flavorId))

def World.removed (w : World) (flavorIds : List Int) : List Int :=
  (w.currentFlavors.map (·.flavorId)).filter (· ∉ flavorIds)

def applyFlavors (flavorIds : List Int) : Request String Unit := do
  runs env .currentFlavors
  let w ← get
  prepareFlavors env 0 (w.added flavorIds)
  removeFlavors env (w.removed flavorIds)
  finishApply env (w.added flavorIds ≠ [])

/-- An error inside the request is answered with 500 and this message. -/
def orInternal (message : String) (p : Request String α) : Request Refusal α :=
  EStateM.adaptExcept (fun _ => .internal message) p

def replacePoster (patch : EntryPatch) : Request Refusal Unit :=
  match patch.posterFrame with
  | none => pure ()
  | some frame => orInternal "extract poster" (extractPoster env frame)

/-- The columns of the poster. -/
def updatePoster (patch : EntryPatch) (updated : Row) : Request Refusal Row :=
  match patch.posterFrame with
  | none => pure updated
  | some frame => do
    orInternal "update poster key" (setPosterColumns env frame)
    orInternal "reload entry" (entryByID env .loadPoster)

def updateFlavors (patch : EntryPatch) (updated : Row) : Request Refusal Row :=
  match patch.flavorIds with
  | none => pure updated
  | some flavorIds => do
    orInternal "apply flavors" (applyFlavors env flavorIds)
    orInternal "reload entry" (entryByID env .loadFinished)

/-- The handler after the UPDATE. -/
def finishPatch (patch : EntryPatch) : Request Refusal Row := do
  let updated ← orInternal "update entry" (entryByID env .loadUpdated)
  let updated ← updatePoster env patch updated
  updateFlavors env patch updated

def handleEntryPatch (body : Option EntryPatch) : Request Refusal Row := do
  let patch ← checkPatch env body
  replacePoster env patch
  orInternal "update entry" (writeEntry env patch)
  finishPatch env patch

structure Same (w w' : World) : Prop where
  row : w'.row = w.row
  rows : w'.rows = w.rows
  jobs : w'.jobs = w.jobs
  files : ∀ key, w'.store.lookup key = w.store.lookup key

/-- A request that is answered with an error leaves all as it was. -/
def Untouched (body : Option EntryPatch) (w : World) : Prop :=
  ∀ refusal w', (handleEntryPatch env body).run w = .error refusal w' → Same w w'

/-- The request passes the checks. -/
def EntryPatch.admitted (patch : EntryPatch) (row : Row) : Bool :=
  !env.fails .loadEntry && (patch.check env row).isNone

/-- The UPDATE of `UpdateEntry` runs. -/
def Env.writes (patch : EntryPatch) : Bool := !env.fails .updateEntry && patch.references env

def Env.prepares : Nat → List Int → Bool
  | _, [] => true
  | place, id :: rest =>
    (!env.fails (.insertFlavor place) && (env.flavor id).isSome && !env.fails (.enqueue place)) &&
      Env.prepares (place + 1) rest

def Env.removes (flavorIds : List Int) : Bool :=
  flavorIds.all fun id =>
    !env.fails (.flavorByID id) && (env.flavor id).isSome && !env.fails (.deleteRow id)

/-- A flavor that is done stays. -/
def World.keepsDone (w : World) (flavorIds : List Int) : Bool :=
  w.rows.rows.any fun r => r.status = .done && r.flavorId ∈ flavorIds

/-- Every statement of `applyFlavors` whose error it returns runs. -/
def Env.applies (flavorIds : List Int) (w : World) : Bool :=
  !env.fails .currentFlavors && env.prepares 0 (w.added flavorIds) &&
    env.removes (w.removed flavorIds) && !env.fails .loadApplied && !env.fails .masterFlavors &&
    !env.fails .masterSubtitles && !env.fails .putMaster &&
    (w.added flavorIds ≠ [] ||
      (!env.fails .countDone && (w.keepsDone flavorIds || !env.fails .failEntry)))

/-- So does every statement after the UPDATE. -/
def Env.finishes (patch : EntryPatch) (w : World) : Bool :=
  !env.fails .loadUpdated &&
    (patch.posterFrame.all fun _ => !env.fails .posterColumns && !env.fails .loadPoster) &&
    patch.flavorIds.all fun flavorIds => env.applies flavorIds w && !env.fails .loadFinished

/-- Once the row is updated, nothing fails any more; and when the UPDATE fails, the poster was not
replaced by another one. -/
def Harmless (body : Option EntryPatch) (w : World) : Prop :=
  ∀ patch, body = some patch → patch.admitted env w.row = true →
    (patch.posterFrame.all fun _ => !env.fails .extractPoster) = true →
    if env.writes patch then env.finishes patch w = true
    else ∀ frame, patch.posterFrame = some frame →
      ∀ key, (w.putPoster env frame).store.lookup key = w.store.lookup key

variable {env} {w : World}

def Later (w w' : World) : Prop := w.row.updatedAt ≤ w'.row.updatedAt

theorem later_refl (w : World) : Later w w := le_refl _

theorem later_trans (w₁ w₂ w₃ : World) (h : Later w₁ w₂) (h' : Later w₂ w₃) : Later w₁ w₃ :=
  le_trans h h'

theorem later_updateRow (set : Row → Row) (w : World) : Later w (w.updateRow set) := le_of_lt w.past

theorem later_seq {p : Request ε α} {k : α → Request ε β} (first : Within Later p)
    (rest : ∀ a, Within Later (k a)) : Within Later (p >>= k) := within_bind later_trans first rest

theorem later_runs (step : Step) : Within Later (runs env step) := within_guardOr later_refl _ _

theorem later_entryByID (step : Step) : Within Later (entryByID env step) :=
  later_seq (later_runs step) fun _ => later_seq (within_get later_refl) fun _ =>
    within_pure later_refl _

theorem later_setPosterColumns (frame : Int) : Within Later (setPosterColumns env frame) :=
  later_seq (later_runs _) fun _ => within_modify (later_updateRow _)

theorem later_prepareFlavor (place : Nat) (flavorId : Int) :
    Within Later (prepareFlavor env place flavorId) := by
  refine later_seq (later_runs _) fun _ => later_seq (within_guardOr later_refl _ _) fun _ => ?_
  refine later_seq (within_modify fun w => later_refl w) fun _ => later_seq (later_runs _) fun _ => ?_
  exact within_modify fun w => later_refl w

theorem later_prepareFlavors (place : Nat) (flavorIds : List Int) :
    Within Later (prepareFlavors env place flavorIds) := by
  induction flavorIds generalizing place with
  | nil => exact within_pure later_refl _
  | cons id rest ih => exact later_seq (later_prepareFlavor place id) fun _ => ih (place + 1)

theorem later_removeFlavor (flavorId : Int) : Within Later (removeFlavor env flavorId) := by
  apply later_seq (later_runs _)
  intro _
  cases env.flavor flavorId with
  | none => exact within_throw later_refl _
  | some f =>
    dsimp only
    apply later_seq
    · exact within_modify fun w => le_refl _
    · intro _
      exact later_seq (later_runs _) fun _ => within_modify fun w => le_refl _

theorem later_removeFlavors (flavorIds : List Int) : Within Later (removeFlavors env flavorIds) := by
  induction flavorIds with
  | nil => exact within_pure later_refl _
  | cons id rest ih => exact later_seq (later_removeFlavor id) fun _ => ih

theorem later_reprobe (grown : Bool) (w : World) : Later w (if grown then reprobe env w else w) := by
  unfold reprobe
  split
  · split
    · exact later_refl w
    · exact later_updateRow _ w
  · exact later_refl w

theorem later_finishApply (grown : Bool) : Within Later (finishApply env grown) := by
  apply later_seq (later_runs _)
  intro _
  apply later_seq (within_modify (later_reprobe grown))
  intro _
  apply later_seq
  · refine later_seq (later_runs _) fun _ => later_seq (later_runs _) fun _ => ?_
    exact later_seq (later_runs _) fun _ => within_modify fun w => later_refl w
  · intro _
    apply within_ite (within_pure later_refl _)
    refine later_seq (later_runs _) fun _ => later_seq (within_get later_refl) fun w => ?_
    apply within_ite
    · exact later_seq (later_runs _) fun _ => within_modify (later_updateRow _)
    · exact within_pure later_refl _

theorem later_applyFlavors (flavorIds : List Int) : Within Later (applyFlavors env flavorIds) := by
  refine later_seq (later_runs _) fun _ => later_seq (within_get later_refl) fun w => ?_
  refine later_seq (later_prepareFlavors 0 _) fun _ => ?_
  exact later_seq (later_removeFlavors _) fun _ => later_finishApply _

theorem later_updatePoster (patch : EntryPatch) (updated : Row) :
    Within Later (updatePoster env patch updated) := by
  unfold updatePoster
  split
  · exact within_pure later_refl _
  · next frame _ =>
    exact later_seq (within_adapt (later_setPosterColumns frame)) fun _ =>
      within_adapt (later_entryByID _)

theorem later_updateFlavors (patch : EntryPatch) (updated : Row) :
    Within Later (updateFlavors env patch updated) := by
  unfold updateFlavors
  split
  · exact within_pure later_refl _
  · next flavorIds _ =>
    exact later_seq (within_adapt (later_applyFlavors flavorIds)) fun _ =>
      within_adapt (later_entryByID _)

theorem later_finishPatch (patch : EntryPatch) : Within Later (finishPatch env patch) := by
  refine later_seq (within_adapt (later_entryByID _)) fun _ => ?_
  exact later_seq (later_updatePoster patch _) fun _ => later_updateFlavors patch _

@[simp] theorem succeeds_runs (step : Step) : succeeds (runs env step) w = !env.fails step :=
  succeeds_guardOr _ _

@[simp] theorem after_runs (step : Step) : after (runs env step) w = w := after_guardOr _ _

@[simp] theorem succeeds_runs_bind (step : Step) (k : Unit → Request String α) :
    succeeds (runs env step >>= k) w = (!env.fails step && succeeds (k ()) w) :=
  succeeds_guardOr_bind _ _ _

@[simp] theorem succeeds_entryByID (step : Step) :
    succeeds (entryByID env step) w = !env.fails step := by
  unfold entryByID
  rw [succeeds_runs_bind]
  exact Bool.and_true _

theorem succeeds_prepareFlavor (place : Nat) (flavorId : Int) :
    succeeds (prepareFlavor env place flavorId) w =
      (!env.fails (.insertFlavor place) && (env.flavor flavorId).isSome &&
        !env.fails (.enqueue place)) := by
  unfold prepareFlavor
  simp [Bool.and_assoc]

theorem succeeds_prepareFlavors (place : Nat) (flavorIds : List Int) :
    succeeds (prepareFlavors env place flavorIds) w = env.prepares place flavorIds := by
  induction flavorIds generalizing place w with
  | nil => rfl
  | cons id rest ih =>
    rw [prepareFlavors, succeeds_seq, succeeds_prepareFlavor, ih]
    rfl

theorem succeeds_removeFlavor (flavorId : Int) : succeeds (removeFlavor env flavorId) w =
    (!env.fails (.flavorByID flavorId) && (env.flavor flavorId).isSome &&
      !env.fails (.deleteRow flavorId)) := by
  unfold removeFlavor
  cases found : env.flavor flavorId with
  | none => simp
  | some f => simp

theorem succeeds_removeFlavors (flavorIds : List Int) :
    succeeds (removeFlavors env flavorIds) w = env.removes flavorIds := by
  induction flavorIds generalizing w with
  | nil => rfl
  | cons id rest ih =>
    rw [removeFlavors, succeeds_seq, succeeds_removeFlavor, ih]
    rfl

theorem rows_removeFlavor {flavorId : Int} (ok : succeeds (removeFlavor env flavorId) w = true) :
    (after (removeFlavor env flavorId) w).rows.rows =
      w.rows.rows.filter fun r => r.flavorId ≠ flavorId := by
  rw [succeeds_removeFlavor] at ok
  simp only [Bool.and_eq_true] at ok
  obtain ⟨⟨found, there⟩, deleted⟩ := ok
  unfold removeFlavor
  rw [after_seq (by simpa using found), after_runs]
  cases flavor : env.flavor flavorId with
  | none => simp [flavor] at there
  | some f =>
    dsimp only
    rw [after_seq (succeeds_modify _), after_modify, after_seq (by simpa using deleted), after_runs,
      after_modify]
    simp [EntryFlavors.deleteWhere]

theorem rows_removeFlavors {flavorIds : List Int}
    (ok : succeeds (removeFlavors env flavorIds) w = true) :
    (after (removeFlavors env flavorIds) w).rows.rows =
      w.rows.rows.filter fun r => r.flavorId ∉ flavorIds := by
  induction flavorIds generalizing w with
  | nil => exact (List.filter_eq_self.mpr (by simp)).symm
  | cons id rest ih =>
    rw [removeFlavors, succeeds_seq, Bool.and_eq_true] at ok
    rw [removeFlavors, after_seq ok.1, ih ok.2, rows_removeFlavor ok.1, List.filter_filter]
    apply List.filter_congr
    intro r _
    simp [Bool.and_comm]

theorem succeeds_rebuildMaster : succeeds (rebuildMaster env) w =
    (!env.fails .masterFlavors && !env.fails .masterSubtitles && !env.fails .putMaster) := by
  unfold rebuildMaster
  simp [Bool.and_assoc]

theorem rows_rebuildMaster : (after (rebuildMaster env) w).rows = w.rows := by
  unfold rebuildMaster runs
  cases env.fails .masterFlavors with
  | true => rfl
  | false =>
    cases env.fails .masterSubtitles with
    | true => rfl
    | false => cases env.fails .putMaster <;> rfl

theorem succeeds_failWithoutRenditions : succeeds (failWithoutRenditions env) w =
    (!env.fails .countDone && (w.doneCount ≠ 0 || !env.fails .failEntry)) := by
  unfold failWithoutRenditions
  rw [succeeds_runs_bind, succeeds_get_bind]
  split
  · next none => simp [none]
  · next some => simp [some]

theorem succeeds_finishApply (grown : Bool) : succeeds (finishApply env grown) w =
    (!env.fails .loadApplied && !env.fails .masterFlavors && !env.fails .masterSubtitles &&
      !env.fails .putMaster &&
      (grown || (!env.fails .countDone && (w.doneCount ≠ 0 || !env.fails .failEntry)))) := by
  have rows (w : World) : (if grown = true then reprobe env w else w).rows = w.rows := by
    unfold reprobe
    split
    · split <;> rfl
    · rfl
  unfold finishApply
  rw [succeeds_runs_bind, succeeds_modify_bind, succeeds_seq, succeeds_rebuildMaster]
  cases grown with
  | true => simp [Bool.and_assoc]
  | false =>
    have count : (after (rebuildMaster env) w).doneCount = w.doneCount := by
      unfold World.doneCount
      rw [rows_rebuildMaster]
    simp [succeeds_failWithoutRenditions, count, Bool.and_assoc]

/-- Rows go by their flavors, and those that stay are of flavors that are asked for. -/
theorem removed_iff {flavorIds : List Int} {r : EntryFlavor} (mem : r ∈ w.rows.rows) :
    r.flavorId ∈ w.removed flavorIds ↔ r.flavorId ∉ flavorIds := by
  simp only [World.removed, World.currentFlavors, List.mem_filter, List.mem_map,
    List.mem_insertionSort, decide_not, Bool.not_eq_true', decide_eq_false_iff_not, and_iff_right_iff_imp]
  exact fun _ => ⟨r, mem, rfl⟩

theorem doneCount_removed {flavorIds : List Int}
    (ok : succeeds (removeFlavors env (w.removed flavorIds)) w = true) :
    decide ((after (removeFlavors env (w.removed flavorIds)) w).doneCount ≠ 0) =
      w.keepsDone flavorIds := by
  unfold World.doneCount World.keepsDone
  rw [rows_removeFlavors ok, Bool.eq_iff_iff]
  simp only [ne_eq, List.countP_eq_zero, List.mem_filter, decide_eq_true_eq, List.any_eq_true,
    Bool.and_eq_true, not_forall, not_not]
  constructor
  · rintro ⟨r, ⟨mem, stays⟩, done⟩
    exact ⟨r, mem, done, not_not.mp fun absent => stays ((removed_iff mem).mpr absent)⟩
  · rintro ⟨r, mem, done, asked⟩
    exact ⟨r, ⟨mem, fun gone => (removed_iff mem).mp gone asked⟩, done⟩

theorem succeeds_applyFlavors (flavorIds : List Int) :
    succeeds (applyFlavors env flavorIds) w = env.applies flavorIds w := by
  unfold applyFlavors Env.applies
  rw [succeeds_runs_bind, succeeds_get_bind, succeeds_seq, succeeds_seq, succeeds_prepareFlavors,
    succeeds_removeFlavors, succeeds_finishApply]
  cases added : w.added flavorIds with
  | cons id rest => simp [Bool.and_assoc]
  | nil =>
    cases removes : env.removes (w.removed flavorIds) with
    | false => simp
    | true =>
      have ok : succeeds (removeFlavors env (w.removed flavorIds)) w = true :=
        (succeeds_removeFlavors _).trans removes
      have same : after (prepareFlavors env 0 []) w = w := rfl
      rw [same, doneCount_removed ok]
      simp [Bool.and_assoc]

theorem succeeds_orInternal (message : String) (p : Request String α) :
    succeeds (orInternal message p) w = succeeds p w := succeeds_adapt _ p

/-- Nothing but `applyFlavors` writes flavor rows. -/
def SameRows (w w' : World) : Prop := w'.rows = w.rows

theorem sameRows_seq {p : Request ε α} {k : α → Request ε β} (first : Within SameRows p)
    (rest : ∀ a, Within SameRows (k a)) : Within SameRows (p >>= k) :=
  within_bind (fun _ _ _ h h' => h'.trans h) first rest

theorem sameRows_runs (step : Step) : Within SameRows (runs env step) :=
  within_guardOr (R := SameRows) (fun _ => rfl) _ _

theorem sameRows_entryByID (step : Step) : Within SameRows (entryByID env step) :=
  sameRows_seq (sameRows_runs step) fun _ => fun _ => rfl

theorem sameRows_updatePoster (env : Env) (patch : EntryPatch) (updated : Row) :
    Within SameRows (updatePoster env patch updated) := by
  unfold updatePoster
  split
  · exact fun _ => rfl
  · apply sameRows_seq
    · apply within_adapt
      exact sameRows_seq (sameRows_runs _) fun _ => within_modify fun _ => rfl
    · exact fun _ => within_adapt (sameRows_entryByID _)

theorem succeeds_updatePoster (patch : EntryPatch) (updated : Row) :
    succeeds (updatePoster env patch updated) w =
      patch.posterFrame.all fun _ => !env.fails .posterColumns && !env.fails .loadPoster := by
  unfold updatePoster
  cases patch.posterFrame with
  | none => rfl
  | some frame =>
    dsimp only
    rw [succeeds_seq, succeeds_orInternal, succeeds_orInternal, succeeds_entryByID]
    simp [setPosterColumns]

theorem succeeds_updateFlavors (patch : EntryPatch) (updated : Row) :
    succeeds (updateFlavors env patch updated) w =
      patch.flavorIds.all fun flavorIds => env.applies flavorIds w && !env.fails .loadFinished := by
  unfold updateFlavors
  cases patch.flavorIds with
  | none => rfl
  | some flavorIds =>
    dsimp only
    rw [succeeds_seq, succeeds_orInternal, succeeds_orInternal, succeeds_entryByID,
      succeeds_applyFlavors]
    rfl

theorem applies_congr {w' : World} (same : SameRows w w') (flavorIds : List Int) :
    env.applies flavorIds w' = env.applies flavorIds w := by
  unfold Env.applies World.keepsDone World.added World.removed World.currentFlavors
  rw [same]

theorem succeeds_finishPatch (patch : EntryPatch) :
    succeeds (finishPatch env patch) w = env.finishes patch w := by
  unfold finishPatch
  rw [succeeds_bind_of (c := (patch.posterFrame.all fun _ =>
    !env.fails .posterColumns && !env.fails .loadPoster) && patch.flavorIds.all fun flavorIds =>
      env.applies flavorIds w && !env.fails .loadFinished)]
  · rw [succeeds_orInternal, succeeds_entryByID]
    simp only [Env.finishes, Bool.and_assoc]
  · intro updated
    have loaded : SameRows w (after (orInternal "update entry" (entryByID env .loadUpdated)) w) :=
      within_adapt (sameRows_entryByID _) w
    rw [succeeds_bind_of, succeeds_updatePoster]
    intro updated'
    rw [succeeds_updateFlavors]
    have rows : SameRows w (after (updatePoster env patch updated)
        (after (orInternal "update entry" (entryByID env .loadUpdated)) w)) :=
      (sameRows_updatePoster env patch updated _).trans loaded
    simp only [applies_congr rows]

theorem checkPatch_some (loaded : env.fails .loadEntry = false) (patch : EntryPatch) :
    (checkPatch env (some patch)).run w =
      match patch.check env w.row with
      | some refusal => .error refusal w
      | none => .ok patch w := by
  unfold EStateM.run checkPatch
  rw [loaded]
  rfl

theorem checkPatch_admitted {patch : EntryPatch} (admitted : patch.admitted env w.row = true) :
    (checkPatch env (some patch)).run w = .ok patch w := by
  simp only [EntryPatch.admitted, Bool.and_eq_true, Bool.not_eq_true', Option.isNone_iff_eq_none]
    at admitted
  rw [checkPatch_some admitted.1, admitted.2]

theorem checkPatch_refused {body : Option EntryPatch}
    (refused : ∀ patch, body = some patch → patch.admitted env w.row = false) :
    ∃ refusal, (checkPatch env body).run w = .error refusal w := by
  by_cases loaded : env.fails .loadEntry = true
  · refine ⟨.internal "load entry", ?_⟩
    unfold EStateM.run checkPatch
    rw [if_pos loaded]
  · rw [Bool.not_eq_true] at loaded
    cases body with
    | none =>
      refine ⟨.badRequest "invalid JSON body", ?_⟩
      unfold EStateM.run checkPatch
      rw [loaded]
      rfl
    | some patch =>
      have stopped := refused patch rfl
      simp only [EntryPatch.admitted, loaded, Bool.not_false, Bool.true_and, Option.isNone_eq_false_iff,
        Option.isSome_iff_exists] at stopped
      obtain ⟨refusal, stopped⟩ := stopped
      exact ⟨refusal, by rw [checkPatch_some loaded, stopped]⟩

theorem run_replacePoster (env : Env) (patch : EntryPatch) (w : World) :
    if (patch.posterFrame.all fun _ => !env.fails .extractPoster) = true then
      (replacePoster env patch).run w =
        .ok () (match patch.posterFrame with
          | none => w
          | some frame => w.putPoster env frame)
    else ∃ refusal, (replacePoster env patch).run w = .error refusal w := by
  unfold replacePoster extractPoster orInternal runs
  cases patch.posterFrame with
  | none => rfl
  | some frame =>
    cases env.fails .extractPoster with
    | true => exact ⟨_, rfl⟩
    | false => rfl

theorem run_writeEntry (env : Env) (patch : EntryPatch) (w : World) :
    if env.writes patch = true then
      (orInternal "update entry" (writeEntry env patch)).run w = .ok () (w.updateRow patch.apply)
    else ∃ refusal, (orInternal "update entry" (writeEntry env patch)).run w = .error refusal w := by
  unfold Env.writes writeEntry orInternal runs
  cases env.fails .updateEntry with
  | true => exact ⟨_, rfl⟩
  | false =>
    cases patch.references env with
    | true => rfl
    | false => exact ⟨_, rfl⟩

theorem same_refl (w : World) : Same w w := ⟨rfl, rfl, rfl, fun _ => rfl⟩

/-- The request after its checks. -/
theorem untouched_iff {patch : EntryPatch} (admitted : patch.admitted env w.row = true) :
    Untouched env (some patch) w ↔ ∀ refusal w', (do
      replacePoster env patch
      orInternal "update entry" (writeEntry env patch)
      finishPatch env patch : Request Refusal Row).run w = .error refusal w' → Same w w' := by
  unfold Untouched handleEntryPatch
  rw [EStateM.run_bind, checkPatch_admitted admitted]

/-- The world once the poster is replaced, if the request replaces it. -/
def World.withPoster (env : Env) (patch : EntryPatch) (w : World) : World :=
  match patch.posterFrame with
  | none => w
  | some frame => w.putPoster env frame

theorem same_withPoster_iff (patch : EntryPatch) : Same w (w.withPoster env patch) ↔
    ∀ frame, patch.posterFrame = some frame →
      ∀ key, (w.putPoster env frame).store.lookup key = w.store.lookup key := by
  unfold World.withPoster
  cases patch.posterFrame with
  | none => exact iff_of_true (same_refl w) nofun
  | some frame =>
    constructor
    · rintro same _ ⟨⟩
      exact same.files
    · exact fun files => ⟨rfl, rfl, rfl, files frame rfl⟩

/-- Once the row is updated, an error shows. -/
theorem finishPatch_iff (env : Env) (patch : EntryPatch) {w' : World} (rows : SameRows w w')
    (newer : w.row.updatedAt < w'.row.updatedAt) :
    (∀ refusal last, (finishPatch env patch).run w' = .error refusal last → Same w last) ↔
      env.finishes patch w = true := by
  have ends : succeeds (finishPatch env patch) w' = env.finishes patch w := by
    rw [succeeds_finishPatch]
    simp only [Env.finishes, applies_congr rows]
  constructor
  · intro untouched
    rw [← ends]
    by_contra fails
    obtain ⟨refusal, run⟩ := not_succeeds_iff.mp (Bool.not_eq_true _ ▸ fails)
    have same := untouched refusal _ run
    have later : Later w' (after (finishPatch env patch) w') := later_finishPatch patch w'
    rw [Later, same.row] at later
    omega
  · intro finishes refusal last run
    have succeeded : succeeds (finishPatch env patch) w' = true := ends.trans finishes
    obtain ⟨row, ended⟩ := succeeds_iff.mp succeeded
    exact nomatch run.symm.trans ended

/-- Whichever steps fail: a request that is answered with an error leaves all as it was exactly when it
is harmless. -/
theorem patch_untouched_iff (env : Env) (body : Option EntryPatch) (w : World) :
    Untouched env body w ↔ Harmless env body w := by
  by_cases passes : ∃ patch, body = some patch ∧ patch.admitted env w.row = true
  · obtain ⟨patch, rfl, admitted⟩ := passes
    have harmless : Harmless env (some patch) w ↔
        ((patch.posterFrame.all fun _ => !env.fails .extractPoster) = true →
          if env.writes patch then env.finishes patch w = true
          else Same w (w.withPoster env patch)) := by
      unfold Harmless
      rw [same_withPoster_iff]
      constructor
      · exact fun h => h patch rfl admitted
      · rintro h _ ⟨⟩ _
        exact h
    rw [untouched_iff admitted, harmless, EStateM.run_bind]
    have poster := run_replacePoster env patch w
    split at poster
    · next extracted =>
      rw [poster]
      change (∀ refusal w', (orInternal "update entry" (writeEntry env patch) >>= fun _ =>
        finishPatch env patch).run (w.withPoster env patch) = .error refusal w' → Same w w') ↔ _
      have written := run_writeEntry env patch (w.withPoster env patch)
      have rows : SameRows w (w.withPoster env patch) ∧
          (w.withPoster env patch).row = w.row ∧ (w.withPoster env patch).now = w.now := by
        unfold World.withPoster
        split <;> exact ⟨rfl, rfl, rfl⟩
      rw [EStateM.run_bind]
      split at written
      · next writes =>
        rw [written]
        have newer : w.row.updatedAt < ((w.withPoster env patch).updateRow patch.apply).row.updatedAt := by
          simp only [World.updateRow, rows.2.2]
          exact w.past
        have later : SameRows w ((w.withPoster env patch).updateRow patch.apply) := rows.1
        have finished := finishPatch_iff env patch later newer
        simpa [extracted, writes] using finished
      · next blocked =>
        obtain ⟨refusal, written⟩ := written
        rw [written]
        simp [extracted, blocked]
    · next fails =>
      obtain ⟨refusal, poster⟩ := poster
      rw [poster]
      simp [fails, same_refl]
  · have refused : ∀ patch, body = some patch → patch.admitted env w.row = false := by
      intro patch same
      by_contra admitted
      exact passes ⟨patch, same, Bool.not_eq_false _ ▸ admitted⟩
    obtain ⟨refusal, checked⟩ := checkPatch_refused refused
    have left : Untouched env body w := by
      unfold Untouched handleEntryPatch
      rw [EStateM.run_bind, checked]
      rintro _ _ ⟨⟩
      exact same_refl w
    refine iff_of_true left fun patch same admitted => ?_
    exact absurd admitted (by simp [refused patch same])

/-- Nothing fails, and there are no categories. -/
def reliable : Env := ⟨7, fun _ => false, [], [], [], [], [], fun _ => [1]⟩

def ready : World where
  row := ⟨"clip".toList, [], none, true, none, false, none, [], 0, "sprite.jpg".toList, 9, .ready,
    none, 0⟩
  now := 1
  past := by decide
  rows := .empty
  jobs := ⟨fun _ => none, 1, fun _ _ => rfl⟩
  store := emptyBucket

def framed : EntryPatch := ⟨none, none, ⟨true, some 5⟩, none, ⟨false, none⟩, none, none, some 3, ⟨false, none⟩⟩

/-- A frame in range and an unknown category. -/
theorem refused_patch_replaces_poster : ¬ Untouched reliable (some framed) ready := by
  intro untouched
  have run : (handleEntryPatch reliable (some framed)).run ready =
      .error (.internal "update entry") (ready.putPoster reliable 3) := rfl
  have files := (untouched _ _ run).files (posterKey 7)
  have stored : (ready.putPoster reliable 3).store.lookup (posterKey 7) = some [1] :=
    AList.lookup_insert _
  rw [stored] at files
  cases files

end Vidsilo.Api.Entries
