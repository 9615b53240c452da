import Vidsilo.Api.MediaRemoval
import Vidsilo.Library.Procedure
import Vidsilo.Storage.Writes

/-!
# Deleting an entry while its jobs run

Source: internal/api/entries.go:402-453 (`handleEntryDelete`), internal/jobs/jobs.go:130-266
(`Download`), 353-488 (`Probe`), 517-729 (`Transcode`), internal/media/media.go:121-190. The calls of
the store and the queries of one entry, with either of the two drivers and no wrapper. Statements
that change neither the row nor the store are left out, and so is what a file holds. What the
queries of the flavors give, and whether ffmpeg succeeds, is open.
-/
namespace Vidsilo.Jobs.Deletion
open Library Library.Procedure Library.SlashPath Library.Decimal Library.Transition
open Storage.Keys Storage.Drivers Api.MediaRemoval

inductive DeletionOp : Type → Type where
  /-- The source key of the row, where there is one. -/
  | entryByID : DeletionOp (Option Text)
  | deleteEntry : DeletionOp Unit
  | setSource (key : Text) : DeletionOp Unit
  | list (listPrefix : Text) : DeletionOp (List Text)
  | delete (key : Text) : DeletionOp Unit
  /-- Of the driver that `LocalOf` finds. -/
  | removeTree (treePrefix : Text) : DeletionOp Unit
  | put (key : Text) : DeletionOp Unit
  /-- The type assertion `Store.(*store.Local)`. -/
  | isLocal : DeletionOp Bool
  /-- ffmpeg creates a file in the directory. -/
  | create (dir name : Text) : DeletionOp Unit
  /-- `os.RemoveAll`. -/
  | removeAll (dir : Text) : DeletionOp Unit
  /-- Work outside of the store and the database: whether it succeeds. -/
  | work : DeletionOp Bool
  /-- The height that `media.Probe` finds. -/
  | height : DeletionOp (Option Int)
  /-- The files that ffmpeg is going to write. -/
  | outputs : DeletionOp (List Text)
  /-- Ids and heights of the enabled flavors. -/
  | enabledFlavors : DeletionOp (List (Int × Int))
  | entryFlavors : DeletionOp (List Int)
  | flavorName (id : Int) : DeletionOp (Option Text)
  /-- A `count(*)`. -/
  | count : DeletionOp Nat

inductive Answer where
  | status (code : Nat)
  /-- The error of a job, where it has one. -/
  | returned (error : Option String)
  deriving DecidableEq, Repr

abbrev Handler := Procedure DeletionOp Answer

def fail (error : String) : Handler := pure (.returned (some error))

def finished : Handler := pure (.returned none)

def deleteAll : List Text → Handler → Handler
  | [], next => next
  | key :: keys, next => do
    ask (.delete key)
    deleteAll keys next

/-- The end of `deleteMedia`, after the listing. -/
def deleteListed (id : Int) (keys : List Text) (next : Handler) : Handler :=
  deleteAll keys do
    ask (.removeTree (entryPrefix id))
    next

def deleteMedia (id : Int) (next : Handler) : Handler := do
  let keys ← ask (.list (entryPrefix id))
  deleteListed id keys next

def deleted : Handler := pure (.status 204)

def deleteRow (id : Int) : Handler := do
  ask .deleteEntry
  deleteMedia id deleted

def handleEntryDelete (id : Int) : Handler := do
  match ← ask .entryByID with
  | none => pure (.status 404)
  | some _ => deleteMedia id (deleteRow id)

/-- `Download`, once the file is there. -/
def storeOriginal (id : Int) (ext : Text) : Handler := do
  match ← ask .entryByID with
  | none => fail "entry deleted during download"
  | some _ =>
    ask (.put (originalKey id ext))
    ask (.setSource (originalKey id ext))
    finished

def download (id : Int) (ext : Text) : Handler := do
  match ← ask .entryByID with
  | none => fail "not found"
  | some _ =>
    match ← ask .work with
    | false => fail "download failed"
    | true => storeOriginal id ext

/-- Extracts an image and puts it under the key; a failure is logged. -/
def extract (key : Text) (next : Handler) : Handler := do
  match ← ask .work with
  | false => next
  | true =>
    ask (.put key)
    next

/-- Enabled, ticked where any are, and not higher than the source. -/
def pending (enabled : List (Int × Int)) (ticked : List Int) (height : Int) : List (Int × Int) :=
  enabled.filter fun f => (ticked = [] || f.1 ∈ ticked) && f.2 ≤ height

/-- The end of `Probe`: `publishSourcePlaylist` when there is nothing to transcode. -/
def publish (id height : Int) : Handler := do
  let enabled ← ask .enabledFlavors
  let ticked ← ask .entryFlavors
  if pending enabled ticked height = [] then do
    ask (.put (masterKey id))
    finished
  else finished

def probed (id height : Int) : Handler := do
  match ← ask .entryByID with
  | none => fail "entry deleted during probing"
  | some _ => extract (posterKey id) (extract (spriteKey id) (publish id height))

def probe (id : Int) : Handler := do
  match ← ask .entryByID with
  | none => fail "not found"
  | some sourceKey =>
    if sourceKey = [] then fail "entry has no source media"
    else
      match ← ask .work with
      | false => fail "cannot open the source"
      | true =>
        match ← ask .height with
        | none => fail "probe failed"
        | some height => probed id height

/-- Statuses `pending` and `transcoding` are counted first, then `done`. -/
def finalizeTranscode (id : Int) : Handler := do
  match ← ask .entryByID with
  | none => finished
  | some _ =>
    match ← ask .count with
    | _ + 1 => finished
    | 0 =>
      match ← ask .count with
      | 0 => fail "all flavors failed"
      | _ + 1 =>
        ask (.put (masterKey id))
        finished

/-- A temporary directory is not below the root. -/
def cleanup (isLocal : Bool) (dir : Text) (next : Handler) : Handler :=
  if isLocal then do
    ask (.removeAll dir)
    next
  else next

def putAll (id : Int) (name : Text) : List Text → Handler → Handler
  | [], next => next
  | file :: files, next => do
    ask (.put (flavorSegmentKey id name file))
    putAll id name files next

/-- `publishFlavor`, and what follows it. -/
def publishFlavor (id : Int) (name : Text) (isLocal : Bool) (files : List Text) : Handler :=
  if isLocal then finalizeTranscode id else putAll id name files (finalizeTranscode id)

def checkEncoded (id : Int) (name : Text) (isLocal : Bool) (files : List Text) : Handler := do
  match ← ask .entryByID with
  | none => cleanup isLocal (flavorDir id name) (fail "entry deleted during transcoding")
  | some _ => publishFlavor id name isLocal files

/-- ffmpeg ends. -/
def encoded (id : Int) (name : Text) (isLocal : Bool) (files : List Text) : Handler := do
  match ← ask .work with
  | false => cleanup isLocal (flavorDir id name) (finalizeTranscode id)
  | true => checkEncoded id name isLocal files

def createAll (dir : Text) : List Text → Handler → Handler
  | [], next => next
  | file :: files, next => do
    ask (.create dir file)
    createAll dir files next

/-- `flavorOutputDir` and `TranscodeFlavor`. -/
def encode (id : Int) (name : Text) : Handler := do
  let isLocal ← ask .isLocal
  let files ← ask .outputs
  if isLocal then createAll (flavorDir id name) files (encoded id name true files)
  else encoded id name false files

def transcodeFlavor (id : Int) (name : Text) : Handler := do
  match ← ask .entryByID with
  | none => fail "entry deleted during transcoding"
  | some _ => encode id name

def transcode (id flavorID : Int) : Handler := do
  match ← ask .entryByID with
  | none => fail "not found"
  | some _ =>
    match ← ask .work with
    | false => fail "transcode failed"
    | true =>
      match ← ask (.flavorName flavorID) with
      | none => finalizeTranscode id
      | some name => transcodeFlavor id name

inductive Request where
  | delete
  | probe
  | transcode (flavorID : Int)
  | download (ext : Text)
  deriving DecidableEq, Repr

def body (id : Int) : Request → Handler
  | .delete => handleEntryDelete id
  | .probe => probe id
  | .transcode flavorID => transcode id flavorID
  | .download ext => download id ext

/-- Where the deletion is once the row is gone: before the second listing, before the deletion of
these keys and of the tree, or behind it. -/
inductive Sweep where
  | due
  | deleting (keys : List Text)
  | over
  deriving DecidableEq, Repr

structure World where
  row : Option Text
  store : Driver
  sweep : Sweep

def start (source : Text) (store : Driver) : World := ⟨some source, store, .due⟩

inductive Outcome where
  | ok
  | works (succeeds : Bool)
  | height (found : Option Int)
  | files (names : List Text)
  | flavors (enabled : List (Int × Int))
  | ids (ticked : List Int)
  | name (found : Option Text)
  | count (n : Nat)
  deriving DecidableEq, Repr

def Sweep.listed (keys : List Text) : Sweep → Sweep
  | .due => .deleting keys
  | other => other

def Sweep.deleted (key : Text) : Sweep → Sweep
  | .deleting keys => .deleting (keys.filter (· ≠ key))
  | other => other

def Sweep.treeRemoved : Sweep → Sweep
  | .deleting _ => .over
  | other => other

/-- The second pass begins when the row is gone. -/
def World.swept (w : World) (next : Sweep → Sweep) : Sweep :=
  if w.row = none then next w.sweep else w.sweep

def perform : {β : Type} → DeletionOp β → Outcome → World → Option (β × World)
  | _, .entryByID, .ok, w => some (w.row, w)
  | _, .deleteEntry, .ok, w => some ((), { w with row := none })
  | _, .setSource key, .ok, w => some ((), { w with row := w.row.map fun _ => key })
  | _, .list listPrefix, .ok, w =>
    let keys := w.store.list listPrefix
    some (keys, { w with sweep := w.swept (·.listed keys) })
  | _, .delete key, .ok, w =>
    some ((), { w with store := w.store.delete key, sweep := w.swept (·.deleted key) })
  | _, .removeTree treePrefix, .ok, w =>
    some ((), { w with store := w.store.removeTree treePrefix, sweep := w.swept (·.treeRemoved) })
  | _, .put key, .ok, w => some ((), { w with store := w.store.put key [] })
  | _, .isLocal, .ok, w => some (w.store.isDisk, w)
  | _, .create dir name, .ok, w => some ((), { w with store := w.store.create dir name [] })
  | _, .removeAll dir, .ok, w => some ((), { w with store := w.store.removeAll dir })
  | _, .work, .works succeeds, w => some (succeeds, w)
  | _, .height, .height found, w => some (found, w)
  | _, .outputs, .files names, w => some (names, w)
  | _, .enabledFlavors, .flavors enabled, w => some (enabled, w)
  | _, .entryFlavors, .ids ticked, w => some (ticked, w)
  | _, .flavorName _, .name found, w => some (found, w)
  | _, .count, .count n, w => some (n, w)
  | _, _, _, _ => none

/-- The deletion and the jobs of the entry. -/
inductive Actor where
  | deleter
  | job (i : Nat)
  deriving DecidableEq, Repr

inductive Action where
  | delete
  | probe (i : Nat)
  | transcode (i : Nat) (flavorID : Int)
  | download (i : Nat) (ext : Text)
  | advance (actor : Actor) (outcome : Outcome)
  | answer (actor : Actor)
  deriving DecidableEq, Repr

abbrev Serving := Pool Actor Request DeletionOp Answer World

def move (_ : Actor) (rest : Handler) (outcome : Outcome) (w : World) : Option (Handler × World) :=
  rest.advance perform outcome w

/-- What an action is to the pool. -/
def Action.turn : Action → Pool.Action Actor Request Outcome
  | .delete => .start .deleter .delete
  | .probe i => .start (.job i) .probe
  | .transcode i flavorID => .start (.job i) (.transcode flavorID)
  | .download i ext => .start (.job i) (.download ext)
  | .advance actor outcome => .advance actor outcome
  | .answer actor => .finish actor

def step (id : Int) (m : Serving) (a : Action) : Option Serving := m.step (body id) move a.turn

/-- Once the deletion and all jobs have returned and the row is gone, no key of the entry is
stored. -/
def LeavesNothing (id : Int) (cond : Serving → Action → Prop) (store : Driver) : Prop :=
  ∀ source trace m, Run (step id) cond (.idle (start source store)) trace m →
    (∀ actor, m.calls actor = none) → m.world.row = none →
      ∀ stored, OfEntry id stored → ¬ m.world.store.Stores stored

/-- The deletion, if it is carried out, still comes to the key. -/
def World.covers (w : World) (stored : Text) : Bool :=
  w.row.isSome ||
    match w.sweep with
    | .due => true
    | .deleting keys => w.store.isDisk || stored ∈ keys
    | .over => false

instance (id : Int) (key : Text) : Decidable (OfEntry id key) :=
  inferInstanceAs (Decidable (_ <+: _))

/-- A key of the entry is put while the deletion still comes to it. -/
def Covered (id : Int) (w : World) : {β : Type} → DeletionOp β → Prop
  | _, .put key => ∀ stored ∈ w.store.resolve key, OfEntry id stored → w.covers stored = true
  | _, _ => True

instance (id : Int) (w : World) : {β : Type} → (op : DeletionOp β) → Decidable (Covered id w op)
  | _, .put key => inferInstanceAs (Decidable (∀ stored ∈ w.store.resolve key, _))
  | _, .entryByID | _, .deleteEntry | _, .setSource _ | _, .list _ | _, .delete _
  | _, .removeTree _ | _, .isLocal | _, .create _ _ | _, .removeAll _ | _, .work | _, .height
  | _, .outputs | _, .enabledFlavors | _, .entryFlavors | _, .flavorName _ | _, .count =>
    isTrue trivial

/-- Jobs put keys of the entry only where the deletion still comes. -/
def InTime (id : Int) (m : Serving) : Action → Prop
  | .advance actor _ => ∀ call ∈ m.calls actor, call.rest.Starts (Covered id m.world)
  | _ => True

instance (id : Int) (m : Serving) : (a : Action) → Decidable (InTime id m a)
  | .advance actor _ => inferInstanceAs (Decidable (∀ call ∈ m.calls actor, _))
  | .delete | .probe _ | .transcode _ _ | .download _ _ | .answer _ => isTrue trivial

/-- Files that a job creates in a directory are removed unless the row is found afterwards; the
directory with such files is the first argument. -/
def Tidy : Option Text → Handler → Prop
  | untidy, .ret _ => untidy = none
  | untidy, .call .entryByID next => Tidy untidy (next none) ∧ ∀ key, Tidy none (next (some key))
  | untidy, .call (.create dir _) next => untidy ∈ [none, some dir] ∧ Tidy (some dir) (next ())
  | untidy, .call (.removeAll dir) next => Tidy (if untidy = some dir then none else untidy) (next ())
  | untidy, .call (.setSource _) next | untidy, .call (.put _) next => Tidy untidy (next ())
  | untidy, .call .isLocal next | untidy, .call .work next => ∀ b, Tidy untidy (next b)
  | untidy, .call .height next => ∀ b, Tidy untidy (next b)
  | untidy, .call .outputs next => ∀ b, Tidy untidy (next b)
  | untidy, .call .enabledFlavors next => ∀ b, Tidy untidy (next b)
  | untidy, .call .entryFlavors next => ∀ b, Tidy untidy (next b)
  | untidy, .call (.flavorName _) next => ∀ b, Tidy untidy (next b)
  | untidy, .call .count next => ∀ b, Tidy untidy (next b)
  | _, .call .deleteEntry _ | _, .call (.list _) _ | _, .call (.delete _) _
  | _, .call (.removeTree _) _ => False

variable {id : Int} {untidy : Option Text} {dir name : Text} {rest rest' : Handler} {w w' : World}
  {outcome : Outcome}

theorem tidy_finalizeTranscode (id : Int) : Tidy none (finalizeTranscode id) := by
  refine ⟨rfl, fun _ remaining => ?_⟩
  cases remaining with
  | succ n => rfl
  | zero =>
    intro done
    cases done with
    | zero => rfl
    | succ n => rfl

theorem tidy_cleanup (isLocal : Bool) (tidy : Tidy none rest) : Tidy none (cleanup isLocal dir rest) := by
  cases isLocal with
  | false => exact tidy
  | true => exact tidy

theorem tidy_cleanup_own (tidy : Tidy none rest) : Tidy (some dir) (cleanup true dir rest) := by
  change Tidy (if some dir = some dir then none else some dir) rest
  rw [if_pos rfl]
  exact tidy

theorem tidy_putAll (id : Int) (name : Text) (files : List Text) (tidy : Tidy none rest) :
    Tidy none (putAll id name files rest) := by
  induction files with
  | nil => exact tidy
  | cons file files ih => exact ih

theorem tidy_publishFlavor (id : Int) (name : Text) (isLocal : Bool) (files : List Text) :
    Tidy none (publishFlavor id name isLocal files) := by
  unfold publishFlavor
  split
  · exact tidy_finalizeTranscode id
  · exact tidy_putAll id name files (tidy_finalizeTranscode id)

theorem tidy_encoded (id : Int) (name : Text) (isLocal : Bool) (files : List Text) :
    Tidy none (encoded id name isLocal files) := by
  intro succeeds
  cases succeeds with
  | false => exact tidy_cleanup isLocal (tidy_finalizeTranscode id)
  | true => exact ⟨tidy_cleanup isLocal rfl, fun _ => tidy_publishFlavor id name isLocal files⟩

/-- The files of the encoder are removed when it fails, and when the row is gone. -/
theorem tidy_encoded_own (id : Int) (name : Text) (files : List Text) :
    Tidy (some (flavorDir id name)) (encoded id name true files) := by
  intro succeeds
  cases succeeds with
  | false => exact tidy_cleanup_own (tidy_finalizeTranscode id)
  | true => exact ⟨tidy_cleanup_own rfl, fun _ => tidy_publishFlavor id name true files⟩

theorem tidy_createAll_own (files : List Text) (tidy : Tidy (some dir) rest) :
    Tidy (some dir) (createAll dir files rest) := by
  induction files with
  | nil => exact tidy
  | cons file files ih => exact ⟨by simp, ih⟩

theorem tidy_createAll (files : List Text) (tidy : Tidy none rest) (own : Tidy (some dir) rest) :
    Tidy none (createAll dir files rest) := by
  cases files with
  | nil => exact tidy
  | cons file files => exact ⟨by simp, tidy_createAll_own files own⟩

theorem tidy_encode (id : Int) (name : Text) : Tidy none (encode id name) := by
  intro isLocal files
  cases isLocal with
  | false => exact tidy_encoded id name false files
  | true =>
    exact tidy_createAll files (tidy_encoded id name true files) (tidy_encoded_own id name files)

theorem tidy_transcode (id flavorID : Int) : Tidy none (transcode id flavorID) := by
  refine ⟨rfl, fun _ succeeds => ?_⟩
  cases succeeds with
  | false => rfl
  | true =>
    intro found
    cases found with
    | none => exact tidy_finalizeTranscode id
    | some name => exact ⟨rfl, fun _ => tidy_encode id name⟩

theorem tidy_extract (key : Text) (tidy : Tidy none rest) : Tidy none (extract key rest) := by
  intro succeeds
  cases succeeds with
  | false => exact tidy
  | true => exact tidy

theorem tidy_publish (id height : Int) : Tidy none (publish id height) := by
  intro enabled ticked
  change Tidy none (if _ then _ else _)
  split
  · rfl
  · rfl

theorem tidy_probe (id : Int) : Tidy none (probe id) := by
  refine ⟨rfl, fun sourceKey => ?_⟩
  change Tidy none (if _ then _ else _)
  split
  · rfl
  · intro succeeds
    cases succeeds with
    | false => rfl
    | true =>
      intro found
      cases found with
      | none => rfl
      | some height => exact ⟨rfl, fun _ => tidy_extract _ (tidy_extract _ (tidy_publish id height))⟩

theorem tidy_download (id : Int) (ext : Text) : Tidy none (download id ext) := by
  refine ⟨rfl, fun _ succeeds => ?_⟩
  cases succeeds with
  | false => rfl
  | true => exact ⟨rfl, fun _ => rfl⟩

def putsAt (w : World) (stored : Text) : {β : Type} → DeletionOp β → Prop
  | _, .put key => w.store.resolve key = some stored
  | _, _ => False

/-- Whoever has files in a directory still has to clean up, or has found the row. -/
def KeepsTidying (w : World) (rest rest' : Handler) (stored : Text) : Prop :=
  ∀ dir, Tidy (some dir) rest → w.store.Below dir stored → w.row ≠ none ∨ Tidy (some dir) rest'

structure Effect (w w' : World) (rest rest' : Handler) : Prop where
  row : w'.row = none ↔ w.row = none
  sweep : w'.sweep = w.sweep
  same : w.store.Same w'.store
  stored : ∀ stored, w'.store.Stores stored →
    (w.store.Stores stored ∧ KeepsTidying w rest rest' stored) ∨
      rest.Starts (putsAt w stored) ∨ ∃ dir, Tidy (some dir) rest' ∧ w.store.Below dir stored

theorem effect_unchanged (keeps : ∀ dir, Tidy (some dir) rest → w.row ≠ none ∨ Tidy (some dir) rest') :
    Effect w w rest rest' where
  row := Iff.rfl
  sweep := rfl
  same := ⟨rfl, rfl⟩
  stored := fun _ stores => .inl ⟨stores, fun dir tidy _ => keeps dir tidy⟩

theorem tidy_advance (tidy : Tidy untidy rest)
    (taken : rest.advance perform outcome w = some (rest', w')) :
    (∃ untidy', Tidy untidy' rest') ∧ Effect w w' rest rest' := by
  cases rest with
  | ret answer => cases taken
  | call op next =>
    obtain ⟨b, performed, rfl⟩ := advance_call taken
    cases op with
    | entryByID =>
      cases outcome with
      | ok =>
        cases performed
        cases found : w.row with
        | none => exact ⟨⟨untidy, tidy.1⟩, effect_unchanged fun dir tidy => .inr tidy.1⟩
        | some key =>
          refine ⟨⟨none, tidy.2 key⟩, effect_unchanged fun dir _ => .inl ?_⟩
          exact fun no => nomatch found.symm.trans no
      | _ => cases performed
    | create dir name =>
      cases outcome with
      | ok =>
        cases performed
        refine ⟨⟨some dir, tidy.2⟩, Iff.rfl, rfl, Driver.same_create dir name [] w.store, ?_⟩
        intro stored stores
        rcases Driver.stored_create stores with old | below
        · refine .inl ⟨old, fun dir' tidy' _ => .inr ?_⟩
          have same : dir' = dir := by simpa using tidy'.1
          exact same ▸ tidy'.2
        · exact .inr (.inr ⟨dir, tidy.2, below⟩)
      | _ => cases performed
    | removeAll dir =>
      cases outcome with
      | ok =>
        cases performed
        refine ⟨⟨_, tidy⟩, Iff.rfl, rfl, Driver.same_removeAll dir w.store, ?_⟩
        intro stored stores
        obtain ⟨old, outside⟩ := Driver.stored_removeAll stores
        refine .inl ⟨old, fun dir' tidy' below => .inr ?_⟩
        have other : some dir' ≠ some dir := by
          intro same
          cases same
          exact outside below
        have tidy' : Tidy (if some dir' = some dir then none else some dir') (next ()) := tidy'
        rw [if_neg other] at tidy'
        exact tidy'
      | _ => cases performed
    | setSource key =>
      cases outcome with
      | ok =>
        cases performed
        refine ⟨⟨untidy, tidy⟩, Option.map_eq_none_iff, rfl, ⟨rfl, rfl⟩, ?_⟩
        exact fun stored stores => .inl ⟨stores, fun dir tidy _ => .inr tidy⟩
      | _ => cases performed
    | put key =>
      cases outcome with
      | ok =>
        cases performed
        refine ⟨⟨untidy, tidy⟩, Iff.rfl, rfl, Driver.same_put key [] w.store, ?_⟩
        intro stored stores
        rcases Driver.stored_put stores with old | new
        · exact .inl ⟨old, fun dir tidy _ => .inr tidy⟩
        · exact .inr (.inl new)
      | _ => cases performed
    | deleteEntry => cases tidy
    | list listPrefix => cases tidy
    | delete key => cases tidy
    | removeTree treePrefix => cases tidy
    | _ =>
      cases outcome with
      | _ =>
        cases performed
        all_goals exact ⟨⟨untidy, tidy _⟩, effect_unchanged fun dir tidy => .inr (tidy _)⟩

theorem removeTree_entry {d : Driver} {stored : Text} (isDisk : d.isDisk = true)
    (own : OfEntry id stored) : ¬ (d.removeTree (entryPrefix id)).Stores stored := by
  rw [entryPrefix_eq]
  apply Driver.removeTree_joinSlash isDisk (by simp) (segments_entryDir id) _
    (Driver.reaches_of_below (by simp) own)
  intro c mem dots
  rcases List.mem_cons.mp mem with rfl | mem
  · revert dots
    decide
  · rw [List.mem_singleton.mp mem] at dots
    exact not_mem_formatInt id (by decide) (by decide) (dots.subset List.mem_cons_self)

theorem listed_entry {d : Driver} {stored : Text} (own : OfEntry id stored)
    (stores : d.Stores stored) : stored ∈ d.list (entryPrefix id) := by
  rw [entryPrefix_eq, Driver.mem_list_joinSlash (by simp) (segments_entryDir id)]
  exact ⟨stores, Driver.reaches_of_below (by simp) own⟩

/-- Behind the deletion, or before it. -/
def Settled (w : World) : Prop := w.row = none → w.sweep = .over

inductive DeleteAt (id : Int) (w : World) : Handler → Prop where
  | find (settled : Settled w) : DeleteAt id w (handleEntryDelete id)
  | ended (settled : Settled w) (answer : Answer) : DeleteAt id w (.ret answer)
  | list (present : w.row ≠ none) : DeleteAt id w (deleteMedia id (deleteRow id))
  | first (present : w.row ≠ none) (keys : List Text) :
    DeleteAt id w (deleteListed id keys (deleteRow id))
  | row (present : w.row ≠ none) : DeleteAt id w (deleteRow id)
  | again (gone : w.row = none) (due : w.sweep = .due) : DeleteAt id w (deleteMedia id deleted)
  | second (gone : w.row = none) {left : List Text} (keys : List Text)
    (deleting : w.sweep = .deleting left) (all : left ⊆ keys) :
    DeleteAt id w (deleteListed id keys deleted)

/-- What the deletion has still to cover, it covers after the step, or it is gone. -/
structure Sweeps (id : Int) (w w' : World) : Prop where
  early : w'.row ≠ none → w'.sweep = .due
  same : w.store.Same w'.store
  stored : ∀ stored, OfEntry id stored → w'.store.Stores stored →
    w.store.Stores stored ∧ (w.covers stored = true → w'.covers stored = true)

theorem covers_present {stored : Text} (present : w.row ≠ none) : w.covers stored = true := by
  cases isRow : w.row with
  | none => exact absurd isRow present
  | some key => simp [World.covers, isRow]

theorem swept_present (present : w.row ≠ none) (early : w.row ≠ none → w.sweep = .due)
    (change : Sweep → Sweep) : w.swept change = .due := by
  simp only [World.swept, if_neg present]
  exact early present

theorem find_advance (settled : Settled w) (early : w.row ≠ none → w.sweep = .due)
    (taken : (handleEntryDelete id).advance perform outcome w = some (rest', w')) :
    DeleteAt id w' rest' ∧ Sweeps id w w' := by
  obtain ⟨found, performed, rfl⟩ := advance_call taken
  cases outcome with
  | ok =>
    cases performed
    refine ⟨?_, early, ⟨rfl, rfl⟩, fun _ _ stores => ⟨stores, fun covered => covered⟩⟩
    cases isRow : w.row with
    | none => exact .ended settled _
    | some key => exact .list fun no => nomatch isRow.symm.trans no
  | _ => cases performed

theorem list_advance (present : w.row ≠ none) (early : w.row ≠ none → w.sweep = .due)
    (taken : (deleteMedia id (deleteRow id)).advance perform outcome w = some (rest', w')) :
    DeleteAt id w' rest' ∧ Sweeps id w w' := by
  obtain ⟨keys, performed, rfl⟩ := advance_call taken
  cases outcome with
  | ok =>
    cases performed
    exact ⟨.first (by exact present) _, fun _ => swept_present present early _, ⟨rfl, rfl⟩,
      fun _ _ stores => ⟨stores, fun _ => covers_present present⟩⟩
  | _ => cases performed

/-- The files that the first sweep removes are still to be swept again. -/
theorem first_advance (present : w.row ≠ none) (early : w.row ≠ none → w.sweep = .due)
    (keys : List Text)
    (taken : (deleteListed id keys (deleteRow id)).advance perform outcome w = some (rest', w')) :
    DeleteAt id w' rest' ∧ Sweeps id w w' := by
  cases keys with
  | nil =>
    obtain ⟨_, performed, rfl⟩ := advance_call taken
    cases outcome with
    | ok =>
      cases performed
      exact ⟨.row (by exact present), fun _ => swept_present present early _,
        Driver.same_removeTree _ _,
        fun _ _ stores => ⟨Driver.stored_removeTree stores, fun _ => covers_present present⟩⟩
    | _ => cases performed
  | cons key keys =>
    obtain ⟨_, performed, rfl⟩ := advance_call taken
    cases outcome with
    | ok =>
      cases performed
      exact ⟨.first (by exact present) keys, fun _ => swept_present present early _,
        Driver.same_delete _ _,
        fun _ _ stores => ⟨(Driver.stored_delete stores).1, fun _ => covers_present present⟩⟩
    | _ => cases performed

theorem row_advance (present : w.row ≠ none) (early : w.row ≠ none → w.sweep = .due)
    (taken : (deleteRow id).advance perform outcome w = some (rest', w')) :
    DeleteAt id w' rest' ∧ Sweeps id w w' := by
  obtain ⟨_, performed, rfl⟩ := advance_call taken
  cases outcome with
  | ok =>
    cases performed
    refine ⟨.again rfl (early present), fun no => absurd rfl no, ⟨rfl, rfl⟩, fun stored _ stores =>
      ⟨stores, fun _ => ?_⟩⟩
    simp [World.covers, early present]
  | _ => cases performed

/-- The second list is taken when the row is gone: it has every key that is left. -/
theorem again_advance (gone : w.row = none) (due : w.sweep = .due)
    (taken : (deleteMedia id deleted).advance perform outcome w = some (rest', w')) :
    DeleteAt id w' rest' ∧ Sweeps id w w' := by
  obtain ⟨keys, performed, rfl⟩ := advance_call taken
  cases outcome with
  | ok =>
    cases performed
    have next : w.swept (·.listed (w.store.list (entryPrefix id))) =
        .deleting (w.store.list (entryPrefix id)) := by
      simp only [World.swept, if_pos gone, due, Sweep.listed]
    refine ⟨.second (by exact gone) _ (by exact next) (List.Subset.refl _),
      fun no => absurd gone no, ⟨rfl, rfl⟩, ?_⟩
    intro stored own stores
    refine ⟨stores, fun _ => ?_⟩
    cases isDisk : w.store.isDisk with
    | true => simp [World.covers, next, isDisk]
    | false => simp [World.covers, next, listed_entry own stores]
  | _ => cases performed

theorem tree_advance (gone : w.row = none) {left : List Text} (deleting : w.sweep = .deleting left)
    (all : left ⊆ [])
    (taken : (deleteListed id [] deleted).advance perform outcome w = some (rest', w')) :
    DeleteAt id w' rest' ∧ Sweeps id w w' := by
  obtain ⟨_, performed, rfl⟩ := advance_call taken
  cases outcome with
  | ok =>
    cases performed
    have next : w.swept (·.treeRemoved) = .over := by
      simp only [World.swept, if_pos gone, deleting, Sweep.treeRemoved]
    refine ⟨.ended (fun _ => next) _, fun no => absurd gone no, Driver.same_removeTree _ _, ?_⟩
    intro stored own stores
    refine ⟨Driver.stored_removeTree stores, fun covered => ?_⟩
    cases isDisk : w.store.isDisk with
    | true => exact absurd stores (removeTree_entry isDisk own)
    | false =>
      have mem : stored ∈ left := by simpa [World.covers, gone, deleting, isDisk] using covered
      exact absurd (all mem) List.not_mem_nil
  | _ => cases performed

theorem delete_advance (gone : w.row = none) {left : List Text} {key : Text} {keys : List Text}
    (deleting : w.sweep = .deleting left) (all : left ⊆ key :: keys)
    (taken : (deleteListed id (key :: keys) deleted).advance perform outcome w = some (rest', w')) :
    DeleteAt id w' rest' ∧ Sweeps id w w' := by
  obtain ⟨_, performed, rfl⟩ := advance_call taken
  cases outcome with
  | ok =>
    cases performed
    have next : w.swept (·.deleted key) = .deleting (left.filter (· ≠ key)) := by
      simp only [World.swept, if_pos gone, deleting, Sweep.deleted]
    have all' : left.filter (· ≠ key) ⊆ keys := by
      intro k mem
      obtain ⟨mem, other⟩ := List.mem_filter.mp mem
      exact (List.mem_cons.mp (all mem)).resolve_left (of_decide_eq_true other)
    refine ⟨.second (by exact gone) keys (by exact next) all', fun no => absurd gone no,
      Driver.same_delete _ _, ?_⟩
    intro stored own stores
    obtain ⟨old, other⟩ := Driver.stored_delete stores
    refine ⟨old, fun covered => ?_⟩
    cases store : w.store with
    | disk l => simp [World.covers, next, Driver.delete, Driver.isDisk]
    | bucket objects =>
      have mem : stored ∈ left := by
        simpa [World.covers, gone, deleting, store, Driver.isDisk] using covered
      have other : stored ≠ key := by
        rintro rfl
        rw [store] at other
        exact other rfl
      simp [World.covers, next, mem, other]
  | _ => cases performed

theorem DeleteAt.advance (h : DeleteAt id w rest) (early : w.row ≠ none → w.sweep = .due)
    (taken : rest.advance perform outcome w = some (rest', w')) :
    DeleteAt id w' rest' ∧ Sweeps id w w' := by
  cases h with
  | find settled => exact find_advance settled early taken
  | ended settled answer => cases taken
  | list present => exact list_advance present early taken
  | first present keys => exact first_advance present early keys taken
  | row present => exact row_advance present early taken
  | again gone due => exact again_advance gone due taken
  | second gone keys deleting all =>
    cases keys with
    | nil => exact tree_advance gone deleting all taken
    | cons key keys => exact delete_advance gone deleting all taken

/-- A job has still to clean up the directory with the key. -/
def Cleaned (m : Serving) (stored : Text) : Prop :=
  ∃ i call dir, m.calls (.job i) = some call ∧ Tidy (some dir) call.rest ∧
    m.world.store.Below dir stored

structure Inv (id : Int) (m : Serving) : Prop where
  early : m.world.row ≠ none → m.world.sweep = .due
  idle : m.calls .deleter = none → Settled m.world
  deleter : ∀ call, m.calls .deleter = some call → DeleteAt id m.world call.rest
  jobs : ∀ i call, m.calls (.job i) = some call → ∃ untidy, Tidy untidy call.rest
  kept : ∀ stored, OfEntry id stored → m.world.store.Stores stored →
    m.world.covers stored = true ∨ Cleaned m stored

variable {m m' : Serving} {i : Nat}

theorem Inv.deleter_advance (h : Inv id m)
    (taken : m.step (body id) move (.advance .deleter outcome) = some m') : Inv id m' := by
  obtain ⟨⟨request, rest⟩, rest', w', found, moved, rfl⟩ := Pool.advance_cases taken
  obtain ⟨isAt, sweeps⟩ := (h.deleter _ found).advance h.early moved
  have here : (m.setCall .deleter (some ⟨request, rest'⟩)).calls .deleter = some ⟨request, rest'⟩ :=
    Pool.setCall_self m _ _
  have others : ∀ i, ((m.setCall .deleter (some ⟨request, rest'⟩)).calls (.job i)) =
      m.calls (.job i) := fun i => Pool.setCall_ne m _ (by simp)
  constructor
  · exact sweeps.early
  · exact fun idle => nomatch here.symm.trans idle
  · intro call isCall
    obtain rfl := Option.some.inj (here.symm.trans isCall)
    exact isAt
  · intro i call isCall
    exact h.jobs i call ((others i).symm.trans isCall)
  · intro stored own stores
    obtain ⟨old, covers⟩ := sweeps.stored stored own stores
    refine (h.kept stored own old).imp covers ?_
    rintro ⟨i, call, dir, isCall, tidy, below⟩
    exact ⟨i, call, dir, (others i).trans isCall, tidy, sweeps.same.symm.below below⟩

/-- Nothing but the row counts for the deletion, and where it is. -/
theorem DeleteAt.transfer (h : DeleteAt id w rest) (row : w'.row = none ↔ w.row = none)
    (sweep : w'.sweep = w.sweep) : DeleteAt id w' rest := by
  have settled (h : Settled w) : Settled w' := fun gone => sweep.trans (h (row.mp gone))
  cases h with
  | find before => exact .find (settled before)
  | ended before answer => exact .ended (settled before) answer
  | list present => exact .list fun gone => present (row.mp gone)
  | first present keys => exact .first (fun gone => present (row.mp gone)) keys
  | row present => exact .row fun gone => present (row.mp gone)
  | again gone due => exact .again (row.mpr gone) (sweep.trans due)
  | second gone keys deleting all => exact .second (row.mpr gone) keys (sweep.trans deleting) all

theorem covers_transfer {stored : Text} (row : w'.row = none ↔ w.row = none)
    (sweep : w'.sweep = w.sweep) (same : w.store.Same w'.store) :
    w'.covers stored = w.covers stored := by
  have isSome : w'.row.isSome = w.row.isSome := by
    cases isRow : w.row with
    | none => rw [row.mpr isRow]
    | some key =>
      have other : w'.row ≠ none := fun gone => nomatch (row.mp gone).symm.trans isRow
      exact Option.isSome_iff_ne_none.mpr other
  simp only [World.covers, isSome, sweep, same.isDisk]

theorem Inv.job_advance (h : Inv id m) (inTime : InTime id m (.advance (.job i) outcome))
    (taken : m.step (body id) move (.advance (.job i) outcome) = some m') : Inv id m' := by
  obtain ⟨⟨request, rest⟩, rest', w', found, moved, rfl⟩ := Pool.advance_cases taken
  have covered : rest.Starts (Covered id m.world) := inTime _ found
  obtain ⟨untidy, tidy⟩ := h.jobs i _ found
  obtain ⟨tidy', effect⟩ := tidy_advance tidy moved
  have here : (m.setCall (.job i) (some ⟨request, rest'⟩)).calls (.job i) = some ⟨request, rest'⟩ :=
    Pool.setCall_self m _ _
  have others : ∀ actor, actor ≠ .job i →
      (m.setCall (.job i) (some ⟨request, rest'⟩)).calls actor = m.calls actor :=
    fun actor other => Pool.setCall_ne m _ other
  have same : ∀ stored, w'.covers stored = m.world.covers stored :=
    fun stored => covers_transfer effect.row effect.sweep effect.same
  constructor
  · exact fun present => effect.sweep.trans (h.early fun gone => present (effect.row.mpr gone))
  · intro idle gone
    exact effect.sweep.trans (h.idle ((others _ (by simp)).symm.trans idle) (effect.row.mp gone))
  · intro call isCall
    exact (h.deleter call ((others _ (by simp)).symm.trans isCall)).transfer effect.row effect.sweep
  · intro j call isCall
    by_cases isJob : j = i
    · subst isJob
      obtain rfl := Option.some.inj (here.symm.trans isCall)
      exact tidy'
    · exact h.jobs j call ((others _ (by simpa using isJob)).symm.trans isCall)
  · intro stored own stores
    change w'.covers stored = true ∨ _
    rw [same]
    rcases effect.stored stored stores with ⟨old, keeps⟩ | puts | ⟨dir, tidy, below⟩
    · rcases h.kept stored own old with covers | ⟨j, call, dir, isCall, tidy, below⟩
      · exact .inl covers
      · by_cases isJob : j = i
        · subst isJob
          obtain rfl := Option.some.inj (found.symm.trans isCall)
          rcases keeps dir tidy below with present | tidy'
          · exact .inl (covers_present present)
          · exact .inr ⟨j, _, dir, here, tidy', effect.same.symm.below below⟩
        · exact .inr ⟨j, call, dir, (others _ (by simpa using isJob)).trans isCall, tidy,
            effect.same.symm.below below⟩
    · cases rest with
      | ret answer => cases moved
      | call op next =>
        cases op with
        | put key => exact .inl (covered stored puts own)
        | _ => cases puts
    · exact .inr ⟨i, _, dir, here, tidy, effect.same.symm.below below⟩

/-- A call that starts or ends; one that ends has cleaned up. -/
theorem Inv.set (h : Inv id m) {actor : Actor} {call : Option (Call Request DeletionOp Answer)}
    (tidied : ∀ c dir, m.calls actor = some c → ¬ Tidy (some dir) c.rest)
    (settled : Settled m.world ∨ actor ≠ .deleter)
    (deleter : ∀ c, actor = .deleter → call = some c → DeleteAt id m.world c.rest)
    (job : ∀ c, actor ≠ .deleter → call = some c → ∃ untidy, Tidy untidy c.rest) :
    Inv id (m.setCall actor call) := by
  constructor
  · exact h.early
  · intro idle
    rcases settled with settled | other
    · exact settled
    · exact h.idle ((Pool.setCall_ne m call (Ne.symm other)).symm.trans idle)
  · intro c isCall
    by_cases same : actor = .deleter
    · subst same
      exact deleter c rfl ((Pool.setCall_self m _ _).symm.trans isCall)
    · exact h.deleter c ((Pool.setCall_ne m call (Ne.symm same)).symm.trans isCall)
  · intro j c isCall
    by_cases same : actor = .job j
    · subst same
      exact job c (by simp) ((Pool.setCall_self m _ _).symm.trans isCall)
    · exact h.jobs j c ((Pool.setCall_ne m call (Ne.symm same)).symm.trans isCall)
  · intro stored own stores
    refine (h.kept stored own stores).imp_right ?_
    rintro ⟨j, c, dir, isCall, tidy, below⟩
    have other : .job j ≠ actor := by
      rintro rfl
      exact tidied c dir isCall tidy
    exact ⟨j, c, dir, (Pool.setCall_ne m call other).trans isCall, tidy, below⟩

theorem tidy_body {request : Request} (isJob : request ≠ .delete) : Tidy none (body id request) := by
  cases request with
  | delete => exact absurd rfl isJob
  | probe => exact tidy_probe id
  | transcode flavorID => exact tidy_transcode id flavorID
  | download ext => exact tidy_download id ext

theorem Inv.job_start (h : Inv id m) {request : Request} (isJob : request ≠ .delete)
    (taken : m.step (body id) move (.start (.job i) request) = some m') : Inv id m' := by
  obtain ⟨free, rfl⟩ := Pool.start_cases taken
  refine h.set (fun c dir isCall => nomatch isCall.symm.trans free) (.inr nofun) nofun ?_
  intro c _ isCall
  cases isCall
  exact ⟨none, tidy_body isJob⟩

theorem Inv.step (h : Inv id m) {a : Action} (inTime : InTime id m a)
    (taken : step id m a = some m') : Inv id m' := by
  cases a with
  | delete =>
    have taken : m.step (body id) move (.start .deleter .delete) = some m' := taken
    obtain ⟨free, rfl⟩ := Pool.start_cases taken
    have settled := h.idle free
    refine h.set (fun c dir isCall => nomatch isCall.symm.trans free) (.inl settled) ?_ (by simp)
    intro c _ isCall
    cases isCall
    exact .find settled
  | probe i =>
    have isJob : Request.probe ≠ .delete := nofun
    exact h.job_start isJob taken
  | transcode i flavorID =>
    have isJob : Request.transcode flavorID ≠ .delete := nofun
    exact h.job_start isJob taken
  | download i ext =>
    have isJob : Request.download ext ≠ .delete := nofun
    exact h.job_start isJob taken
  | advance actor outcome =>
    cases actor with
    | deleter => exact h.deleter_advance taken
    | job i => exact h.job_advance inTime taken
  | answer actor =>
    have taken : m.step (body id) move (.finish actor) = some m' := taken
    obtain ⟨request, answer, found, rfl⟩ := Pool.finish_cases taken
    refine h.set ?_ ?_ nofun nofun
    · intro c dir isCall
      obtain rfl := Option.some.inj (isCall.symm.trans found)
      exact nofun
    · by_cases isDeleter : actor = .deleter
      · subst isDeleter
        have isAt := h.deleter _ found
        generalize isRest : Procedure.ret answer = rest at isAt
        cases isAt with
        | ended settled _ => exact .inl settled
        | first _ keys =>
          cases keys with
          | _ => cases isRest
        | second _ keys =>
          cases keys with
          | _ => cases isRest
        | _ => cases isRest
      · exact .inr isDeleter

/-- In every run in which the jobs put keys of the entry only where the deletion still comes, no key
of the entry is stored once the row is gone and all have returned. -/
theorem nothing_left_in_time (id : Int) (source : Text) (store : Driver) (trace : List Action)
    (m : Serving) (h : Run (step id) (InTime id) (.idle (start source store)) trace m)
    (returned : ∀ actor, m.calls actor = none) (gone : m.world.row = none) (stored : Text)
    (own : OfEntry id stored) : ¬ m.world.store.Stores stored := by
  have init : Inv id (.idle (start source store) : Serving) :=
    ⟨fun _ => rfl, fun _ => nofun, nofun, nofun, fun _ _ _ => .inl rfl⟩
  have inv : Inv id m := h.invariant (Inv id) init fun _ _ _ inv inTime taken => inv.step inTime taken
  intro stores
  rcases inv.kept stored own stores with covers | ⟨i, call, _, isCall, _⟩
  · simp [World.covers, gone, inv.idle (returned .deleter) gone] at covers
  · exact nomatch (returned (.job i)).symm.trans isCall

def advances (actor : Actor) (outcomes : List Outcome) : List Action :=
  outcomes.map (.advance actor)

/-- The deletion of an entry without media, on either driver. -/
def deletion : List Action := .delete :: advances .deleter (List.replicate 6 .ok) ++ [.answer .deleter]

/-- ffmpeg writes into the tree after the deletion; the transcode removes the files. -/
def lateEncoder : List Action :=
  .transcode 0 7 :: advances (.job 0)
      [.ok, .works true, .name (some "720p".toList), .ok, .ok, .files ["index.m3u8".toList]] ++
    deletion ++ advances (.job 0) [.ok, .works true, .ok, .ok] ++ [.answer (.job 0)]

/-- All have returned when the two that were started have. -/
theorem calls_returned {cond : Serving → Action → Prop} {source : Text} {store : Driver}
    {trace : List Action} (h : Run (step id) cond (.idle (start source store)) trace m)
    (only : ∀ i request, i ≠ 0 → .start (.job i) request ∉ trace.map Action.turn)
    (deleter : m.calls .deleter = none) (job : m.calls (.job 0) = none) (actor : Actor) :
    m.calls actor = none := by
  cases actor with
  | deleter => exact deleter
  | job i =>
    by_cases first : i = 0
    · exact first ▸ job
    · have run : Run (Pool.step (body id) move) Always (.idle (start source store))
          (trace.map Action.turn) m := h.map Action.turn fun _ _ => rfl
      exact Pool.calls_none run fun request => only i request first

def returned (m : Serving) : Bool :=
  (m.calls .deleter).isNone && (m.calls (.job 0)).isNone && m.world.row.isNone

theorem nothing_left_late_encoder : ∃ m, (Run (step 1) (InTime 1)
    (.idle (start ['s'] emptyDisk)) lateEncoder m ∧ ∀ actor, m.calls actor = none) ∧
    ∀ stored, OfEntry 1 stored → ¬ m.world.store.Stores stored := by
  have executed : (exec (step 1) (fun m a => decide (InTime 1 m a))
      (.idle (start ['s'] emptyDisk)) lateEncoder).any returned = true := by
    decide +kernel
  obtain ⟨m, run, isReturned⟩ := exists_run (fun _ _ => of_decide_eq_true) executed
  simp only [returned, Bool.and_eq_true, Option.isNone_iff_eq_none] at isReturned
  have all : ∀ actor, m.calls actor = none := by
    apply calls_returned run _ isReturned.1.1 isReturned.1.2
    intro i request other
    simp [lateEncoder, deletion, advances, Action.turn, other]
  exact ⟨m, ⟨run, all⟩, fun stored own =>
    nothing_left_in_time 1 ['s'] emptyDisk lateEncoder m run all isReturned.2 stored own⟩

/-- The entry is deleted after the probe has looked for it. -/
def latePoster : List Action :=
  .probe 0 :: advances (.job 0) [.ok, .works true, .height (some 720), .ok, .works true] ++
    deletion ++ advances (.job 0) [.ok, .works false, .flavors [], .ids [], .ok] ++
    [.answer (.job 0)]

/-- The same with the segments of a flavor, which go to a bucket after the encoding. -/
def lateSegments : List Action :=
  .transcode 0 7 :: advances (.job 0) [.ok, .works true, .name (some "720p".toList), .ok, .ok,
      .files ["index.m3u8".toList], .works true, .ok] ++
    deletion ++ advances (.job 0) [.ok, .ok] ++ [.answer (.job 0)]

/-- What a job writes behind the second pass stays. -/
theorem late_writes_stay :
    ¬ LeavesNothing 1 Always emptyDisk ∧ ¬ LeavesNothing 1 Always emptyBucket := by
  have stays (store : Driver) (trace : List Action) (stored : Text) (own : OfEntry 1 stored)
      (only : ∀ i request, i ≠ 0 → .start (.job i) request ∉ trace.map Action.turn)
      (executed : (exec (step 1) (fun _ _ => true) (.idle (start ['s'] store)) trace).any
        (fun m => returned m && (m.world.store.lookup stored).isSome) = true) :
      ¬ LeavesNothing 1 Always store := by
    intro leaves
    have sound (m : Serving) (a : Action) (_ : true = true) : Always m a := trivial
    obtain ⟨m, run, isLeft⟩ := exists_run sound executed
    simp only [returned, Bool.and_eq_true, Option.isNone_iff_eq_none] at isLeft
    have all := calls_returned run only isLeft.1.1.1 isLeft.1.1.2
    exact leaves ['s'] trace m run all isLeft.1.2 stored own (Option.isSome_iff_ne_none.mp isLeft.2)
  constructor
  · refine stays emptyDisk latePoster (posterKey 1) (by decide +kernel) ?_ (by decide +kernel)
    intro i request other
    simp [latePoster, deletion, advances, Action.turn, other]
  · refine stays emptyBucket lateSegments (flavorSegmentKey 1 "720p".toList "index.m3u8".toList)
      (by decide +kernel) ?_ (by decide +kernel)
    intro i request other
    simp [lateSegments, deletion, advances, Action.turn, other]

end Vidsilo.Jobs.Deletion
