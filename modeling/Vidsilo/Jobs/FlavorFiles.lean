import Vidsilo.Jobs.Pipeline
import Vidsilo.Storage.Writes

/-!
# The directories of the flavors of one entry

Source: internal/db/flavors.go:75-102, internal/api/entries.go:322-356 (`prepareFlavor`,
`removeFlavor`), internal/jobs/jobs.go:517-692 (`Transcode`, `finalizeTranscode`, `flavorOutputDir`,
`publishFlavor`) and 731-747. Requests and transcodes take turns between their statements and calls
of the store, which is either of the two drivers with no wrapper. The entry is there all the time.
-/
namespace Vidsilo.Jobs.FlavorFiles
open Library.SlashPath Library.Decimal Library.Transition
open Storage.Keys Storage.Drivers Tables

/-- `removeFlavor` behind the listing, with the keys that it still has to delete. -/
structure Removal where
  flavorID : Int
  name : Text
  keys : List Text
  deriving DecidableEq, Repr

structure World where
  db : Database
  store : Driver
  /-- Transcodes that write: the flavor, and its name when they read it. -/
  encoding : List (Int × Text)
  finalizing : List Int
  removals : List Removal
  /-- The key and the flavor of every file that a transcode wrote, the latest first. -/
  log : List (Text × Int)

def start (store : Driver) : World := ⟨Pipeline.start [] 1, store, [], [], [], []⟩

/-- The flavors whose transcodes wrote the key, the latest first. -/
def World.writers (w : World) (stored : Text) : List Int :=
  (w.log.filter fun write => write.1 = stored).map (·.2)

/-- ffmpeg writes into the tree of the local driver; other output is put afterwards. -/
def outputFile (entry : Int) (name file : Text) (d : Driver) : Driver :=
  if d.isDisk then d.create (flavorDir entry name) file []
  else d.put (flavorSegmentKey entry name file) []

inductive Action where
  | createFlavor (f : Flavor)
  | updateFlavor (f : Flavor)
  | prepareFlavor (id : Int)
  | transcode (id : Int)
  | output (id : Int) (name file : Text)
  | markFlavorDone (id : Int) (name : Text)
  /-- An error of ffmpeg or of an upload: `cleanup` and `markFlavor`. -/
  | fail (id : Int) (name : Text)
  | finalizeTranscode (id : Int)
  | removeFlavor (id : Int)
  | delete (r : Removal)
  /-- The end of `removeFlavor`. -/
  | deleteRow (r : Removal)
  deriving DecidableEq, Repr

/-- UNIQUE (name). -/
def nameTaken (db : Database) (id : Int) (name : Text) : Bool :=
  db.flavors.any fun f => f.id ≠ id && f.name = name

def markFlavor (entry id : Int) (status : EntryFlavorStatus) (db : Database) : Database :=
  { db with
    entryFlavors := db.entryFlavors.updateWhere (fun r => r.key = (entry, id)) status (some "") none }

def finalized (entry : Int) (w : World) : Driver :=
  if w.db.remaining entry = 0 ∧ 0 < w.db.doneCount entry then w.store.put (masterKey entry) []
  else w.store

def step (entry : Int) (w : World) : Action → Option World
  | .createFlavor f =>
    if 0 < f.height ∧ nameTaken w.db w.db.nextFlavorId f.name = false then
      some { w with db := w.db.createFlavor f }
    else none
  | .updateFlavor f =>
    if 0 < f.height ∧ nameTaken w.db f.id f.name = false then
      some { w with db := w.db.updateFlavor f }
    else none
  | .prepareFlavor id =>
    if (w.db.flavorByID id).isSome then
      let rows := w.db.entryFlavors.upsert entry id .pending none
      some { w with db := { w.db with entryFlavors := rows } }
    else none
  | .transcode id =>
    match w.db.flavorByID id with
    | none =>
      some { w with
        db := markFlavor entry id .failed w.db
        finalizing := id :: w.finalizing }
    | some f =>
      some { w with
        db := markFlavor entry id .transcoding w.db
        encoding := (id, f.name) :: w.encoding }
  | .output id name file =>
    if (id, name) ∈ w.encoding ∧ Segment file then
      some { w with
        store := outputFile entry name file w.store
        log := (flavorSegmentKey entry name file, id) :: w.log }
    else none
  | .markFlavorDone id name =>
    if (id, name) ∈ w.encoding then
      let rows := w.db.entryFlavors.updateWhere (fun r => r.key = (entry, id)) .done none
        (some (flavorPlaylistKey entry name))
      some { w with
        db := { w.db with entryFlavors := rows }
        encoding := w.encoding.erase (id, name)
        finalizing := id :: w.finalizing }
    else none
  | .fail id name =>
    if (id, name) ∈ w.encoding then
      some { w with
        db := markFlavor entry id .failed w.db
        store := w.store.removeAll (flavorDir entry name)
        encoding := w.encoding.erase (id, name)
        finalizing := id :: w.finalizing }
    else none
  | .finalizeTranscode id =>
    if id ∈ w.finalizing then
      some { w with store := finalized entry w, finalizing := w.finalizing.erase id }
    else none
  | .removeFlavor id =>
    (w.db.flavorByID id).map fun f =>
      { w with removals := ⟨id, f.name, w.store.list (flavorDir entry f.name)⟩ :: w.removals }
  | .delete r =>
    match r.keys with
    | [] => none
    | key :: keys =>
      if r ∈ w.removals then
        some { w with
          store := w.store.delete key
          removals := { r with keys := keys } :: w.removals.erase r }
      else none
  | .deleteRow r =>
    if r ∈ w.removals ∧ r.keys = [] then
      let rows := w.db.entryFlavors.deleteWhere fun q => q.key = (entry, r.flavorID)
      some { w with
        db := { w.db with entryFlavors := rows }
        store := w.store.removeTree (flavorDir entry r.name)
        removals := w.removals.erase r }
    else none

/-- The flavor that an action is an operation on. -/
def Action.flavorID : Action → Option Int
  | .createFlavor _ => none
  | .updateFlavor f => some f.id
  | .prepareFlavor id | .transcode id | .output id _ _ | .markFlavorDone id _ | .fail id _
  | .finalizeTranscode id | .removeFlavor id => some id
  | .delete r | .deleteRow r => some r.flavorID

/-- The key is stored as before. -/
def Kept (w w' : World) (stored : Text) : Prop :=
  w'.store.lookup stored = w.store.lookup stored ∧ w'.writers stored = w.writers stored

/-- The files below the directory of a done row are left to the operations on its flavor, and
`removeFlavor` leaves no file that a transcode of its flavor wrote last. -/
structure Separate (w : World) (a : Action) (w' : World) : Prop where
  kept : ∀ r ∈ w.db.entryFlavors.rows, r.status = .done → ∀ key, r.playlistKey = some key →
    a.flavorID ≠ some r.flavorId → ∀ stored, w.store.Stores stored →
      (components key).dropLast <+: components stored → Kept w w' stored
  removed : ∀ r, a = .deleteRow r → ∀ stored, w'.store.Stores stored →
    (w'.writers stored).head? ≠ some r.flavorID

def StaysSeparate (entry : Int) (cond : World → Action → Prop) (store : Driver) : Prop :=
  ∀ trace w, Run (step entry) cond (start store) trace w → ∀ a w', cond w a →
    step entry w a = some w' → Separate w a w'

/-- One segment of a path, which the local driver does not take for a traversal. -/
def SafeName (d : Driver) (name : Text) : Prop :=
  Segment name ∧ (d.isDisk = true → ¬ dotdot <:+: name)

/-- A bucket lists by the text of a prefix. -/
def Apart (d : Driver) (name name' : Text) : Prop :=
  name ≠ name' ∧ (d.isDisk = false → ¬ name <+: name' ∧ ¬ name' <+: name)

def Fits (w : World) (id : Int) (name : Text) : Prop :=
  SafeName w.store name ∧ ∀ f ∈ w.db.flavors, f.id ≠ id → Apart w.store name f.name

/-- The flavor has no files, and nothing is going on that knows its name. -/
structure Unused (w : World) (id : Int) : Prop where
  files : ∀ write ∈ w.log, (w.writers write.1).head? = some id → ¬ w.store.Stores write.1
  rows : ∀ r ∈ w.db.entryFlavors.rows, r.flavorId = id → r.status ≠ .done
  encoding : ∀ write ∈ w.encoding, write.1 ≠ id
  removals : ∀ r ∈ w.removals, r.flavorID ≠ id

/-- New names fit, only unused flavors are renamed, and no transcode writes while its flavor is being
removed. -/
def Careful (w : World) : Action → Prop
  | .createFlavor f => Fits w w.db.nextFlavorId f.name
  | .updateFlavor f =>
    (∀ g ∈ w.db.flavors, g.id = f.id → g.name = f.name) ∨ Fits w f.id f.name ∧ Unused w f.id
  | .output id _ _ => ∀ r ∈ w.removals, r.flavorID ≠ id
  | _ => True

instance (d : Driver) (name : Text) : Decidable (SafeName d name) :=
  inferInstanceAs (Decidable (_ ∧ _))

instance (d : Driver) (name name' : Text) : Decidable (Apart d name name') :=
  inferInstanceAs (Decidable (_ ∧ _))

instance (w : World) (id : Int) (name : Text) : Decidable (Fits w id name) :=
  inferInstanceAs (Decidable (_ ∧ _))

instance (d : Driver) (stored : Text) : Decidable (d.Stores stored) :=
  inferInstanceAs (Decidable (_ ≠ _))

instance (w : World) (id : Int) : Decidable (Unused w id) :=
  decidable_of_iff
    ((∀ write ∈ w.log, (w.writers write.1).head? = some id → ¬ w.store.Stores write.1) ∧
      (∀ r ∈ w.db.entryFlavors.rows, r.flavorId = id → r.status ≠ .done) ∧
      (∀ write ∈ w.encoding, write.1 ≠ id) ∧ ∀ r ∈ w.removals, r.flavorID ≠ id)
    ⟨fun ⟨files, rows, encoding, removals⟩ => ⟨files, rows, encoding, removals⟩,
      fun h => ⟨h.files, h.rows, h.encoding, h.removals⟩⟩

instance (w : World) : (a : Action) → Decidable (Careful w a)
  | .createFlavor f => inferInstanceAs (Decidable (Fits w w.db.nextFlavorId f.name))
  | .updateFlavor f =>
    inferInstanceAs (Decidable ((∀ g ∈ w.db.flavors, g.id = f.id → g.name = f.name) ∨ _))
  | .output id _ _ => inferInstanceAs (Decidable (∀ r ∈ w.removals, r.flavorID ≠ id))
  | .prepareFlavor _ | .transcode _ | .markFlavorDone _ _ | .fail _ _ | .finalizeTranscode _
  | .removeFlavor _ | .delete _ | .deleteRow _ => isTrue trivial

def flavorPath (entry : Int) (name : Text) : List Text :=
  [entriesRoot, formatInt entry, "flavors".toList, name]

variable {entry : Int} {name name' file stored : Text} {d d' : Driver}

theorem segments_flavorPath (entry : Int) (h : Segment name) : ∀ c ∈ flavorPath entry name, Segment c := by
  intro c mem
  simp only [flavorPath, List.mem_cons, List.not_mem_nil, or_false] at mem
  rcases mem with rfl | rfl | rfl | rfl
  · exact segment_entriesRoot
  · exact segment_formatInt entry
  · decide
  · exact h

theorem flavorDir_path (entry : Int) (h : Segment name) :
    flavorDir entry name = joinSlash (flavorPath entry name) := flavorDir_eq entry h

theorem join_flavorPath (entry : Int) (h : Segment name) (hf : Segment file) :
    join [flavorDir entry name, file] = joinSlash (flavorPath entry name ++ [file]) := by
  rw [flavorDir_path entry h]
  apply join_below (by simp [flavorPath]) (by simp) (segments_flavorPath entry h)
  simpa using hf

theorem segment_index : Segment "index.m3u8".toList := by decide

/-- The directory of a playlist key. -/
theorem dropLast_flavorPlaylistKey (entry : Int) (h : Segment name) :
    (components (flavorPlaylistKey entry name)).dropLast = flavorPath entry name := by
  rw [flavorPlaylistKey, join_flavorPath entry h segment_index, components_joinSlash _ (by simp)]
  · exact List.dropLast_concat
  · intro c mem
    rcases List.mem_append.mp mem with mem | mem
    · exact (segments_flavorPath entry h c mem).2
    · rw [List.mem_singleton.mp mem]
      decide

theorem prefix_flavorSegmentKey (entry : Int) (h : Segment name) (hf : Segment file) :
    flavorPath entry name <+: components (flavorSegmentKey entry name file) := by
  rw [flavorSegmentKey, join_flavorPath entry h hf, components_joinSlash _ (by simp)]
  · exact List.prefix_append _ _
  · intro c mem
    rcases List.mem_append.mp mem with mem | mem
    · exact (segments_flavorPath entry h c mem).2
    · rw [List.mem_singleton.mp mem]
      exact hf.2

theorem joinSlash_flavorPath (entry : Int) (name : Text) :
    joinSlash (flavorPath entry name) =
      joinSlash [entriesRoot, formatInt entry, "flavors".toList] ++ '/' :: name := by
  have split : flavorPath entry name =
      [entriesRoot, formatInt entry, "flavors".toList] ++ [name] := rfl
  rw [split, joinSlash_append (by simp) (by simp), joinSlash_singleton]

theorem Apart.symm (h : Apart d name name') : Apart d name' name :=
  ⟨Ne.symm h.1, fun isBucket => (h.2 isBucket).symm⟩

/-- No file is below the directories of two names that are apart. -/
theorem Apart.disjoint (h : Apart d name name') (reaches : d.Reaches (flavorPath entry name) stored) :
    ¬ d.Reaches (flavorPath entry name') stored := by
  intro reaches'
  cases d with
  | disk l =>
    have before : flavorPath entry name <+: flavorPath entry name' :=
      List.prefix_of_prefix_length_le reaches reaches' le_rfl
    exact h.1 (by simpa [flavorPath] using before.eq_of_length rfl)
  | bucket objects =>
    have reaches : joinSlash (flavorPath entry name) <+: stored := reaches
    have reaches' : joinSlash (flavorPath entry name') <+: stored := reaches'
    rw [joinSlash_flavorPath] at reaches reaches'
    obtain ⟨first, second⟩ := h.2 rfl
    rcases List.prefix_or_prefix_of_prefix reaches reaches' with before | before
    · rw [List.prefix_append_right_inj, List.cons_prefix_cons] at before
      exact first before.2
    · rw [List.prefix_append_right_inj, List.cons_prefix_cons] at before
      exact second before.2

theorem SafeName.of_same (h : d.Same d') (safe : SafeName d name) : SafeName d' name :=
  ⟨safe.1, fun isDisk => safe.2 (h.isDisk.symm.trans isDisk)⟩

theorem Apart.of_same (h : d.Same d') (apart : Apart d name name') : Apart d' name name' :=
  ⟨apart.1, fun isBucket => apart.2 (h.isDisk.symm.trans isBucket)⟩

theorem segments_masterKey (entry : Int) :
    ∀ c ∈ [entriesRoot, formatInt entry, "master.m3u8".toList], Segment c := by
  intro c mem
  simp only [List.mem_cons, List.not_mem_nil, or_false] at mem
  rcases mem with rfl | rfl | rfl
  · exact segment_entriesRoot
  · exact segment_formatInt entry
  · decide

theorem masterKey_eq (entry : Int) :
    masterKey entry = joinSlash [entriesRoot, formatInt entry, "master.m3u8".toList] := by
  rw [masterKey, entryDir_eq]
  apply join_below (by simp) (by simp) (segments_entryDir entry)
  intro c mem
  rw [List.mem_singleton.mp mem]
  decide

theorem resolve_masterKey (h : d.resolve (masterKey entry) = some stored) : stored = masterKey entry := by
  rw [masterKey_eq] at h ⊢
  cases d with
  | disk l =>
    obtain ⟨p, isPath, rfl⟩ := Option.map_eq_some_iff.mp h
    rw [pathForKey_joinSlash (by simp) (segments_masterKey entry) isPath]
  | bucket objects => exact (Option.some.inj h).symm

theorem masterKey_outside (h : flavorPath entry name <+: components stored) :
    stored ≠ masterKey entry := by
  rintro rfl
  rw [masterKey_eq, components_joinSlash _ (by simp) fun c mem => (segments_masterKey entry c mem).2] at h
  simpa [flavorPath] using h.length_le

variable {w w' : World} {id : Int}

/-- Files are written or removed below the directory of the name only, and written by the flavor. -/
structure Writes (entry id : Int) (name : Text) (w w' : World) : Prop where
  same : w.store.Same w'.store
  files : ∀ stored, Kept w w' stored ∨ w.store.Reaches (flavorPath entry name) stored ∧
    (w'.store.Stores stored → (w'.writers stored).head? = some id)

/-- Nothing is written. -/
structure Removes (entry : Int) (name : Text) (w w' : World) : Prop where
  same : w.store.Same w'.store
  files : ∀ stored, Kept w w' stored ∨
    w.store.Reaches (flavorPath entry name) stored ∧ ¬ w'.store.Stores stored

theorem Removes.writes (h : Removes entry name w w') (id : Int) : Writes entry id name w w' :=
  ⟨h.same, fun stored => (h.files stored).imp_right fun gone =>
    ⟨gone.1, fun stores => absurd stores gone.2⟩⟩

/-- The log is as before. -/
theorem removes_of_lookup (log : w'.log = w.log) (same : w.store.Same w'.store)
    (files : ∀ stored, w'.store.lookup stored = w.store.lookup stored ∨
      w.store.Reaches (flavorPath entry name) stored ∧ ¬ w'.store.Stores stored) :
    Removes entry name w w' := by
  refine ⟨same, fun stored => (files stored).imp_left fun kept => ⟨kept, ?_⟩⟩
  rw [World.writers, log]
  rfl

theorem same_outputFile (entry : Int) (name file : Text) (d : Driver) :
    d.Same (outputFile entry name file d) := by
  unfold outputFile
  split
  · exact Driver.same_create _ _ _ _
  · exact Driver.same_put _ _ _

theorem lookup_outputFile (h : Segment name) (hf : Segment file)
    (other : stored ≠ flavorSegmentKey entry name file) :
    (outputFile entry name file d).lookup stored = d.lookup stored := by
  rw [flavorSegmentKey, join_flavorPath entry h hf] at other
  unfold outputFile
  split
  · rw [flavorDir_path entry h]
    exact Driver.lookup_create_ne [] (by simp [flavorPath]) (segments_flavorPath entry h) other
  next isBucket =>
    apply Driver.lookup_put
    cases d with
    | disk l => exact absurd rfl isBucket
    | bucket objects =>
      rw [flavorSegmentKey, join_flavorPath entry h hf]
      exact fun same => other (Option.some.inj same).symm

theorem output_writes (h : Segment name) (hf : Segment file) : Writes entry id name w
    { w with
      store := outputFile entry name file w.store
      log := (flavorSegmentKey entry name file, id) :: w.log } := by
  refine ⟨same_outputFile entry name file w.store, fun stored => ?_⟩
  by_cases own : stored = flavorSegmentKey entry name file
  · refine .inr ⟨?_, fun _ => ?_⟩
    · rw [own]
      exact Driver.reaches_of_below (by simp [flavorPath]) (prefix_flavorSegmentKey entry h hf)
    · simp [World.writers, own]
  · refine .inl ⟨lookup_outputFile h hf own, ?_⟩
    simp [World.writers, Ne.symm own]

theorem removeAll_removes (h : Segment name) (log : w'.log = w.log)
    (store : w'.store = w.store.removeAll (flavorDir entry name)) : Removes entry name w w' := by
  refine removes_of_lookup log (store ▸ Driver.same_removeAll _ w.store) fun stored => ?_
  rw [Driver.Stores, store, flavorDir_path entry h]
  by_cases below : w.store.Below (joinSlash (flavorPath entry name)) stored
  · refine .inr ⟨Driver.below_joinSlash (by simp [flavorPath]) (segments_flavorPath entry h) below, ?_⟩
    exact fun stores => (Driver.stored_removeAll stores).2 below
  · exact .inl (Driver.lookup_removeAll below)

theorem delete_removes {key : Text} (reaches : w.store.Reaches (flavorPath entry name) key)
    (plain : ∀ stored, w.store.resolve key = some stored → stored = key) (log : w'.log = w.log)
    (store : w'.store = w.store.delete key) : Removes entry name w w' := by
  refine removes_of_lookup log (store ▸ Driver.same_delete key w.store) fun stored => ?_
  rw [Driver.Stores, store, Driver.lookup_delete]
  split
  next own =>
    obtain rfl := plain stored own
    exact .inr ⟨reaches, fun stores => stores rfl⟩
  · exact .inl rfl

theorem removeTree_removes (h : Segment name) (log : w'.log = w.log)
    (store : w'.store = w.store.removeTree (flavorDir entry name)) : Removes entry name w w' := by
  have segments := segments_flavorPath entry h
  refine removes_of_lookup log (store ▸ Driver.same_removeTree _ w.store) fun stored => ?_
  rw [Driver.Stores, store]
  by_cases kept : (w.store.removeTree (flavorDir entry name)).lookup stored = w.store.lookup stored
  · exact .inl kept
  · obtain ⟨gone, p, isPath, below⟩ := Driver.lookup_removeTree _ _ stored kept
    rw [flavorDir_path entry h, trimSlash_joinSlash (by simp [flavorPath]) segments] at isPath
    rw [pathForKey_joinSlash (by simp [flavorPath]) segments isPath] at below
    exact .inr ⟨Driver.reaches_of_below (by simp [flavorPath]) below, fun stores => stores gone⟩

/-- The local driver removes the whole tree of a safe name. -/
theorem removeTree_disk (isDisk : d.isDisk = true) (safe : SafeName d name)
    (reaches : d.Reaches (flavorPath entry name) stored) :
    ¬ (d.removeTree (flavorDir entry name)).Stores stored := by
  rw [flavorDir_path entry safe.1]
  apply Driver.removeTree_joinSlash isDisk (by simp [flavorPath]) (segments_flavorPath entry safe.1)
    _ reaches
  intro c mem dots
  simp only [flavorPath, List.mem_cons, List.not_mem_nil, or_false] at mem
  rcases mem with rfl | rfl | rfl | rfl
  · revert dots
    decide
  · exact not_mem_formatInt entry (by decide) (by decide) (dots.subset List.mem_cons_self)
  · revert dots
    decide
  · exact safe.2 isDisk dots

/-- The name of the flavor. -/
def World.Has (w : World) (id : Int) (name : Text) : Prop :=
  ∃ f ∈ w.db.flavors, f.id = id ∧ f.name = name

structure RemovalAt (entry : Int) (w : World) (r : Removal) : Prop where
  name : w.Has r.flavorID r.name
  keys : ∀ key ∈ r.keys, w.store.Reaches (flavorPath entry r.name) key ∧
    ∀ stored, w.store.resolve key = some stored → stored = key
  all : w.store.isDisk = false → ∀ stored, w.store.Stores stored →
    (w.writers stored).head? = some r.flavorID → stored ∈ r.keys

structure Inv (entry : Int) (w : World) : Prop where
  drawn : ∀ f ∈ w.db.flavors, f.id < w.db.nextFlavorId
  ids : ∀ f ∈ w.db.flavors, ∀ g ∈ w.db.flavors, f.id = g.id → f.name = g.name
  safe : ∀ f ∈ w.db.flavors, SafeName w.store f.name
  apart : ∀ f ∈ w.db.flavors, ∀ g ∈ w.db.flavors, f.id ≠ g.id → Apart w.store f.name g.name
  done : ∀ r ∈ w.db.entryFlavors.rows, r.status = .done →
    ∃ name, w.Has r.flavorId name ∧ r.playlistKey = some (flavorPlaylistKey entry name)
  encoding : ∀ write ∈ w.encoding, w.Has write.1 write.2
  removals : ∀ r ∈ w.removals, RemovalAt entry w r
  logged : ∀ write ∈ w.log, write.1 ≠ masterKey entry
  owned : ∀ stored id, w.store.Stores stored → (w.writers stored).head? = some id →
    ∃ name, w.Has id name ∧ w.store.Reaches (flavorPath entry name) stored

/-- Each flavor has the name it had. -/
def SameNames (w w' : World) : Prop := ∀ id name, w.Has id name → w'.Has id name

theorem sameNames_of_flavors (h : w'.db.flavors = w.db.flavors) : SameNames w w' := by
  intro id name ⟨f, mem, isFlavor⟩
  exact ⟨f, h ▸ mem, isFlavor⟩

theorem Inv.segment (h : Inv entry w) (has : w.Has id name) : Segment name := by
  obtain ⟨f, mem, rfl, rfl⟩ := has
  exact (h.safe f mem).1

/-- Two flavors have no file in common. -/
theorem Inv.disjoint (h : Inv entry w) {id id' : Int} (has : w.Has id name) (has' : w.Has id' name')
    (other : id ≠ id') (reaches : w.store.Reaches (flavorPath entry name) stored) :
    ¬ w.store.Reaches (flavorPath entry name') stored := by
  obtain ⟨f, mem, rfl, rfl⟩ := has
  obtain ⟨g, mem', rfl, rfl⟩ := has'
  exact (h.apart f mem g mem' other).disjoint reaches

theorem flavorByID_has {f : Flavor} (h : w.db.flavorByID id = some f) : w.Has id f.name :=
  ⟨f, List.mem_of_find?_eq_some h, by simpa using List.find?_some h, rfl⟩

/-- Whoever wrote a file last is in the log. -/
theorem mem_log_of_writers (h : (w.writers stored).head? = some id) : (stored, id) ∈ w.log := by
  have mem := List.mem_of_head? h
  simp only [World.writers, List.mem_map, List.mem_filter, decide_eq_true_eq] at mem
  obtain ⟨⟨key, writer⟩, ⟨logged, rfl⟩, rfl⟩ := mem
  exact logged

/-- What is stored with this writer was stored so before. -/
theorem RemovalAt.transfer {r : Removal} (h : RemovalAt entry w r) (name : w'.Has r.flavorID r.name)
    (same : w.store.Same w'.store) (old : ∀ stored, w'.store.Stores stored →
      (w'.writers stored).head? = some r.flavorID →
      w.store.Stores stored ∧ (w.writers stored).head? = some r.flavorID) : RemovalAt entry w' r := by
  refine ⟨name, ?_, ?_⟩
  · intro key mem
    rw [Driver.resolve_same same]
    exact ⟨Driver.reaches_of_same same.symm (h.keys key mem).1, (h.keys key mem).2⟩
  · intro isBucket stored stores writer
    obtain ⟨stores, writer⟩ := old stored stores writer
    exact h.all (same.isDisk.symm.trans isBucket) stored stores writer

theorem Kept.stores (h : Kept w w' stored) (stores : w'.store.Stores stored) : w.store.Stores stored := by
  rw [Driver.Stores, h.1] at stores
  exact stores

/-- An operation of a flavor on the files of its name. -/
theorem Inv.owned_writes (h : Inv entry w) (writes : Writes entry id name w w') (has : w.Has id name)
    (names : SameNames w w') (stored : Text) (writer : Int) (stores : w'.store.Stores stored)
    (wrote : (w'.writers stored).head? = some writer) :
    ∃ n, w'.Has writer n ∧ w'.store.Reaches (flavorPath entry n) stored := by
  rcases writes.files stored with kept | ⟨reaches, own⟩
  · rw [kept.2] at wrote
    obtain ⟨n, has', reaches⟩ := h.owned stored writer (kept.stores stores) wrote
    exact ⟨n, names _ _ has', Driver.reaches_of_same writes.same.symm reaches⟩
  · obtain rfl := Option.some.inj ((own stores).symm.trans wrote)
    exact ⟨name, names _ _ has, Driver.reaches_of_same writes.same.symm reaches⟩

theorem RemovalAt.removes {r : Removal} (h : RemovalAt entry w r) (removes : Removes entry name w w')
    (names : SameNames w w') : RemovalAt entry w' r := by
  refine h.transfer (names _ _ h.name) removes.same fun stored stores writer => ?_
  rcases removes.files stored with kept | ⟨_, gone⟩
  · exact ⟨kept.stores stores, kept.2 ▸ writer⟩
  · exact absurd stores gone

/-- Done rows of flavors that have the name of their playlist. -/
def Listed (entry : Int) (w : World) (rows : EntryFlavors) : Prop :=
  ∀ r ∈ rows.rows, r.status = .done →
    ∃ name, w.Has r.flavorId name ∧ r.playlistKey = some (flavorPlaylistKey entry name)

/-- An operation that leaves the flavors. -/
theorem Inv.with_flavors (h : Inv entry w) (same : w.store.Same w'.store)
    (flavors : w'.db.flavors = w.db.flavors) (next : w'.db.nextFlavorId = w.db.nextFlavorId)
    (done : Listed entry w w'.db.entryFlavors) (encoding : ∀ write ∈ w'.encoding, w.Has write.1 write.2)
    (removals : ∀ r ∈ w'.removals, RemovalAt entry w' r)
    (logged : ∀ write ∈ w'.log, write.1 ≠ masterKey entry)
    (owned : ∀ stored id, w'.store.Stores stored → (w'.writers stored).head? = some id →
      ∃ name, w'.Has id name ∧ w'.store.Reaches (flavorPath entry name) stored) : Inv entry w' := by
  have names : SameNames w w' := sameNames_of_flavors flavors
  constructor
  · rw [flavors, next]
    exact h.drawn
  · rw [flavors]
    exact h.ids
  · rw [flavors]
    exact fun f mem => (h.safe f mem).of_same same
  · rw [flavors]
    exact fun f mem g mem' other => (h.apart f mem g mem' other).of_same same
  · intro r mem isDone
    obtain ⟨name, has, isKey⟩ := done r mem isDone
    exact ⟨name, names _ _ has, isKey⟩
  · exact fun write mem => names _ _ (encoding write mem)
  · exact removals
  · exact logged
  · exact owned

/-- An operation that leaves the flavors and the files. -/
theorem Inv.with_rows (h : Inv entry w) (store : w'.store = w.store) (log : w'.log = w.log)
    (flavors : w'.db.flavors = w.db.flavors) (next : w'.db.nextFlavorId = w.db.nextFlavorId)
    (done : Listed entry w w'.db.entryFlavors) (encoding : ∀ write ∈ w'.encoding, w.Has write.1 write.2)
    (removals : ∀ r ∈ w'.removals, RemovalAt entry w r) : Inv entry w' := by
  have names : SameNames w w' := sameNames_of_flavors flavors
  have same : w.store.Same w'.store := store ▸ ⟨rfl, rfl⟩
  have writers : w'.writers = w.writers := by
    funext stored
    rw [World.writers, log]
    rfl
  refine h.with_flavors same flavors next done encoding ?_ (log ▸ h.logged) ?_
  · intro r mem
    refine (removals r mem).transfer (names _ _ (removals r mem).name) same fun stored stores wrote => ?_
    rw [writers] at wrote
    exact ⟨store ▸ stores, wrote⟩
  · intro stored id stores wrote
    rw [writers] at wrote
    obtain ⟨name, has, reaches⟩ := h.owned stored id (store ▸ stores) wrote
    exact ⟨name, names _ _ has, Driver.reaches_of_same same.symm reaches⟩

/-- An operation on the files of one name that leaves the flavors and writes nothing. -/
theorem Inv.with_removes (h : Inv entry w) (removes : Removes entry name w w') (has : w.Has id name)
    (log : w'.log = w.log) (flavors : w'.db.flavors = w.db.flavors)
    (next : w'.db.nextFlavorId = w.db.nextFlavorId) (done : Listed entry w w'.db.entryFlavors)
    (encoding : ∀ write ∈ w'.encoding, w.Has write.1 write.2)
    (removals : ∀ r ∈ w'.removals, RemovalAt entry w' r) : Inv entry w' :=
  h.with_flavors removes.same flavors next done encoding removals (log ▸ h.logged)
    (h.owned_writes (removes.writes id) has (sameNames_of_flavors flavors))

theorem Listed.updateWhere {rows : EntryFlavors} (h : Listed entry w rows) (p : EntryFlavor → Bool)
    {status : EntryFlavorStatus} (notDone : status ≠ .done) (error : Option String) :
    Listed entry w (rows.updateWhere p status error none) := by
  intro r mem isDone
  obtain ⟨q, old, _, isRow⟩ := EntryFlavors.mem_updateWhere mem
  split at isRow
  · exact absurd (isRow.symm.trans isDone) notDone
  · exact h r (isRow ▸ old) isDone

theorem Listed.upsert {rows : EntryFlavors} (h : Listed entry w rows) (flavorId : Int) :
    Listed entry w (rows.upsert entry flavorId .pending none) := by
  intro r mem isDone
  have isRow := EntryFlavors.mem_upsert mem
  split at isRow
  · cases isRow.symm.trans isDone
  · exact h r isRow isDone

theorem Listed.deleteWhere {rows : EntryFlavors} (h : Listed entry w rows) (p : EntryFlavor → Bool) :
    Listed entry w (rows.deleteWhere p) :=
  fun r mem => h r (List.mem_of_mem_filter mem)

theorem Listed.markFlavorDone {rows : EntryFlavors} (h : Listed entry w rows) (has : w.Has id name) :
    Listed entry w (rows.updateWhere (fun r => r.key = (entry, id)) .done none
      (some (flavorPlaylistKey entry name))) := by
  intro r mem isDone
  obtain ⟨q, old, rfl⟩ := List.mem_map.mp mem
  by_cases own : q.key = (entry, id)
  · have isFlavor : q.flavorId = id := congrArg Prod.snd own
    simp only [own, decide_true, if_true]
    exact ⟨name, isFlavor ▸ has, rfl⟩
  · simp only [own, decide_false, Bool.false_eq_true, if_false] at isDone ⊢
    exact h q old isDone

theorem listed_markFlavor (h : Inv entry w) (id : Int) {status : EntryFlavorStatus}
    (notDone : status ≠ .done) : Listed entry w (markFlavor entry id status w.db).entryFlavors :=
  Listed.updateWhere h.done _ notDone _

variable {f : Flavor}

theorem guarded {p : Prop} [Decidable p] {next : World}
    (taken : (if p then some next else none) = some w') : p ∧ next = w' := by
  split at taken
  next holds => exact ⟨holds, Option.some.inj taken⟩
  · cases taken

theorem Inv.createFlavor (h : Inv entry w) (fits : Fits w w.db.nextFlavorId f.name) :
    Inv entry { w with db := w.db.createFlavor f } := by
  have added : ∀ g, g ∈ (w.db.createFlavor f).flavors ↔
      g ∈ w.db.flavors ∨ g = { f with id := w.db.nextFlavorId } := by
    simp [Database.createFlavor]
  have names : SameNames w { w with db := w.db.createFlavor f } := by
    intro id name ⟨g, mem, isFlavor⟩
    exact ⟨g, (added g).mpr (.inl mem), isFlavor⟩
  have new : ∀ g ∈ w.db.flavors, Apart w.store f.name g.name := by
    intro g mem
    have before := h.drawn g mem
    exact fits.2 g mem (by omega)
  constructor
  · intro g mem
    change g.id < w.db.nextFlavorId + 1
    rcases (added g).mp mem with old | rfl
    · have before := h.drawn g old
      omega
    · exact lt_add_one _
  · intro g mem g' mem' same
    rcases (added g).mp mem with old | rfl
    · have before := h.drawn g old
      rcases (added g').mp mem' with old' | rfl
      · exact h.ids g old g' old' same
      · exact absurd same (ne_of_lt before)
    · rcases (added g').mp mem' with old' | rfl
      · exact absurd same (ne_of_gt (h.drawn g' old'))
      · rfl
  · intro g mem
    rcases (added g).mp mem with old | rfl
    · exact h.safe g old
    · exact fits.1
  · intro g mem g' mem' other
    rcases (added g).mp mem with old | rfl
    · rcases (added g').mp mem' with old' | rfl
      · exact h.apart g old g' old' other
      · exact (new g old).symm
    · rcases (added g').mp mem' with old' | rfl
      · exact new g' old'
      · exact absurd rfl other
  · intro r mem isDone
    obtain ⟨name, has, isKey⟩ := h.done r mem isDone
    exact ⟨name, names _ _ has, isKey⟩
  · exact fun write mem => names _ _ (h.encoding write mem)
  · intro r mem
    have old := h.removals r mem
    exact old.transfer (names _ _ old.name) ⟨rfl, rfl⟩ fun stored stores wrote => ⟨stores, wrote⟩
  · exact h.logged
  · intro stored id stores wrote
    obtain ⟨name, has, reaches⟩ := h.owned stored id stores wrote
    exact ⟨name, names _ _ has, reaches⟩

theorem mem_updateFlavor {db : Database} {g : Flavor} (mem : g ∈ (db.updateFlavor f).flavors) :
    ∃ old ∈ db.flavors, g.id = old.id ∧ if old.id = f.id then g = f else g = old := by
  obtain ⟨old, isOld, rfl⟩ := List.mem_map.mp mem
  refine ⟨old, isOld, ?_, ?_⟩
  · split
    next same => exact same.symm
    · rfl
  · split
    · rfl
    · rfl

/-- Only the name of the one flavor changes. -/
theorem has_updateFlavor (has : w.Has id name) (kept : id = f.id → name = f.name) :
    World.Has { w with db := w.db.updateFlavor f } id name := by
  obtain ⟨g, mem, rfl, rfl⟩ := has
  refine ⟨if g.id = f.id then f else g, List.mem_map.mpr ⟨g, mem, rfl⟩, ?_⟩
  split
  next same => exact ⟨same.symm, (kept same).symm⟩
  · exact ⟨rfl, rfl⟩

theorem Inv.updateFlavor (h : Inv entry w) (fits : Fits w f.id f.name)
    (renamed : (∀ g ∈ w.db.flavors, g.id = f.id → g.name = f.name) ∨ Unused w f.id) :
    Inv entry { w with db := w.db.updateFlavor f } := by
  have names (id : Int) (name : Text) (has : w.Has id name) (used : id = f.id → ¬ Unused w f.id) :
      World.Has { w with db := w.db.updateFlavor f } id name := by
    refine has_updateFlavor has fun same => ?_
    obtain ⟨g, mem, rfl, rfl⟩ := has
    exact renamed.elim (fun keeps => keeps g mem same) fun unused => absurd unused (used same)
  constructor
  · intro g mem
    obtain ⟨old, isOld, sameId, _⟩ := mem_updateFlavor mem
    exact sameId ▸ h.drawn old isOld
  · intro g mem g' mem' same
    obtain ⟨old, isOld, sameId, isRow⟩ := mem_updateFlavor mem
    obtain ⟨old', isOld', sameId', isRow'⟩ := mem_updateFlavor mem'
    have sameOld : old.id = old'.id := by omega
    split at isRow
    next own =>
      rw [if_pos (sameOld ▸ own)] at isRow'
      rw [isRow, isRow']
    next foreign =>
      rw [if_neg (sameOld ▸ foreign)] at isRow'
      rw [isRow, isRow']
      exact h.ids old isOld old' isOld' sameOld
  · intro g mem
    obtain ⟨old, isOld, _, isRow⟩ := mem_updateFlavor mem
    split at isRow
    · exact isRow ▸ fits.1
    · exact isRow ▸ h.safe old isOld
  · intro g mem g' mem' other
    obtain ⟨old, isOld, sameId, isRow⟩ := mem_updateFlavor mem
    obtain ⟨old', isOld', sameId', isRow'⟩ := mem_updateFlavor mem'
    split at isRow
    next own =>
      split at isRow'
      next own' => exact absurd (by omega) other
      next other' =>
        rw [isRow, isRow']
        exact fits.2 old' isOld' other'
    next foreign =>
      split at isRow'
      next own' =>
        rw [isRow, isRow']
        exact (fits.2 old isOld foreign).symm
      · rw [isRow, isRow']
        exact h.apart old isOld old' isOld' (by omega)
  · intro r mem isDone
    obtain ⟨name, has, isKey⟩ := h.done r mem isDone
    exact ⟨name, names _ _ has fun same unused => unused.rows r mem same isDone, isKey⟩
  · intro write mem
    exact names _ _ (h.encoding write mem) fun same unused => unused.encoding write mem same
  · intro r mem
    have old := h.removals r mem
    refine old.transfer (names _ _ old.name fun same unused => unused.removals r mem same) ⟨rfl, rfl⟩ ?_
    exact fun stored stores wrote => ⟨stores, wrote⟩
  · exact h.logged
  · intro stored id stores wrote
    obtain ⟨name, has, reaches⟩ := h.owned stored id stores wrote
    refine ⟨name, names _ _ has fun same unused => ?_, reaches⟩
    exact unused.files _ (mem_log_of_writers wrote) (same ▸ wrote) stores

theorem updateFlavor_none {db : Database} (none : ∀ g ∈ db.flavors, g.id ≠ f.id) :
    db.updateFlavor f = db := by
  have kept : ∀ g ∈ db.flavors, (if g.id = f.id then f else g) = id g :=
    fun g mem => if_neg (none g mem)
  rw [Database.updateFlavor, List.map_congr_left kept, List.map_id]

/-- An update that keeps the name, or that gives a fitting one to an unused flavor. -/
theorem Inv.updateFlavor_careful (h : Inv entry w) (careful : Careful w (.updateFlavor f)) :
    Inv entry { w with db := w.db.updateFlavor f } := by
  rcases careful with keeps | ⟨fits, unused⟩
  · by_cases present : ∃ g ∈ w.db.flavors, g.id = f.id
    · obtain ⟨g, mem, same⟩ := present
      refine h.updateFlavor ⟨keeps g mem same ▸ h.safe g mem, fun g' mem' other => ?_⟩ (.inl keeps)
      rw [← keeps g mem same]
      exact h.apart g mem g' mem' (by omega)
    · rw [updateFlavor_none fun g mem same => present ⟨g, mem, same⟩]
      exact h
  · exact h.updateFlavor fits (.inr unused)

theorem Inv.transcode (h : Inv entry w) (taken : step entry w (.transcode id) = some w') :
    Inv entry w' := by
  unfold step at taken
  dsimp only at taken
  split at taken
  · cases taken
    exact h.with_rows rfl rfl rfl rfl (listed_markFlavor h id nofun) h.encoding h.removals
  next f found =>
    cases taken
    refine h.with_rows rfl rfl rfl rfl (listed_markFlavor h id nofun) ?_ h.removals
    intro write mem
    rcases List.mem_cons.mp mem with rfl | mem
    · exact flavorByID_has found
    · exact h.encoding write mem

theorem Inv.output (h : Inv entry w) (running : (id, name) ∈ w.encoding) (hf : Segment file)
    (idle : ∀ r ∈ w.removals, r.flavorID ≠ id) : Inv entry
    { w with
      store := outputFile entry name file w.store
      log := (flavorSegmentKey entry name file, id) :: w.log } := by
  have has := h.encoding _ running
  have writes : Writes entry id name w _ := output_writes (h.segment has) hf
  refine h.with_flavors writes.same rfl rfl h.done h.encoding ?_ ?_
    (h.owned_writes writes has (sameNames_of_flavors rfl))
  · intro r mem
    refine (h.removals r mem).transfer (h.removals r mem).name writes.same fun stored stores wrote => ?_
    rcases writes.files stored with kept | ⟨_, own⟩
    · exact ⟨kept.stores stores, kept.2 ▸ wrote⟩
    · exact absurd (Option.some.inj ((own stores).symm.trans wrote)).symm (idle r mem)
  · intro write mem
    rcases List.mem_cons.mp mem with rfl | mem
    · exact masterKey_outside (prefix_flavorSegmentKey entry (h.segment has) hf)
    · exact h.logged write mem

theorem Inv.fail (h : Inv entry w) (taken : step entry w (.fail id name) = some w') : Inv entry w' := by
  unfold step at taken
  dsimp only at taken
  split at taken
  next running =>
    have has := h.encoding _ running
    cases taken
    have segment := h.segment has
    refine h.with_removes (removeAll_removes segment rfl rfl) has rfl rfl rfl
      (listed_markFlavor h id nofun) ?_ ?_
    · exact fun write mem => h.encoding write (List.mem_of_mem_erase mem)
    · intro r mem
      exact (h.removals r mem).removes (removeAll_removes segment rfl rfl) (sameNames_of_flavors rfl)
  · cases taken

theorem lookup_finalized (other : stored ≠ masterKey entry) :
    (finalized entry w).lookup stored = w.store.lookup stored := by
  unfold finalized
  split
  · exact Driver.lookup_put [] fun same => other (resolve_masterKey same)
  · rfl

theorem same_finalized (entry : Int) (w : World) : w.store.Same (finalized entry w) := by
  unfold finalized
  split
  · exact Driver.same_put _ _ _
  · exact ⟨rfl, rfl⟩

/-- No transcode logs the master playlist. -/
theorem Inv.finalized_old (h : Inv entry w) (stores : (finalized entry w).Stores stored)
    (wrote : (w.writers stored).head? = some id) : w.store.Stores stored := by
  have other : stored ≠ masterKey entry := h.logged _ (mem_log_of_writers wrote)
  rw [Driver.Stores, lookup_finalized other] at stores
  exact stores

theorem Inv.finalizeTranscode (h : Inv entry w) (id : Int) :
    Inv entry { w with store := finalized entry w, finalizing := w.finalizing.erase id } := by
  refine h.with_flavors (same_finalized entry w) rfl rfl h.done h.encoding ?_ h.logged ?_
  · intro r mem
    refine (h.removals r mem).transfer (h.removals r mem).name (same_finalized entry w) ?_
    exact fun stored stores wrote => ⟨h.finalized_old stores wrote, wrote⟩
  · intro stored writer stores wrote
    obtain ⟨name, has, reaches⟩ := h.owned stored writer (h.finalized_old stores wrote) wrote
    exact ⟨name, has, Driver.reaches_of_same (same_finalized entry w).symm reaches⟩

/-- What the flavor wrote last is below the directory of its name. -/
theorem Inv.owned_below (h : Inv entry w) (has : w.Has id name) (stores : w.store.Stores stored)
    (wrote : (w.writers stored).head? = some id) : w.store.Reaches (flavorPath entry name) stored := by
  obtain ⟨n, ⟨g, mem', same, rfl⟩, reaches⟩ := h.owned stored id stores wrote
  obtain ⟨f, mem, rfl, rfl⟩ := has
  rw [h.ids f mem g mem' same.symm]
  exact reaches

theorem Inv.removalAt (h : Inv entry w) (found : w.db.flavorByID id = some f) :
    RemovalAt entry w ⟨id, f.name, w.store.list (flavorDir entry f.name)⟩ := by
  have has := flavorByID_has found
  have listed (key : Text) : key ∈ w.store.list (flavorDir entry f.name) ↔
      w.store.Stores key ∧ w.store.Reaches (flavorPath entry f.name) key := by
    rw [flavorDir_path entry (h.segment has)]
    exact Driver.mem_list_joinSlash (by simp [flavorPath]) (segments_flavorPath entry (h.segment has))
  refine ⟨has, ?_, ?_⟩
  · intro key mem
    obtain ⟨stores, reaches⟩ := (listed key).mp mem
    exact ⟨reaches, fun stored => Driver.resolve_stored stores⟩
  · intro _ stored stores wrote
    exact (listed stored).mpr ⟨stores, h.owned_below has stores wrote⟩

theorem Inv.removeFlavor (h : Inv entry w) (taken : step entry w (.removeFlavor id) = some w') :
    Inv entry w' := by
  obtain ⟨f, found, rfl⟩ := Option.map_eq_some_iff.mp taken
  refine h.with_rows rfl rfl rfl rfl h.done h.encoding ?_
  intro r mem
  rcases List.mem_cons.mp mem with rfl | mem
  · exact h.removalAt found
  · exact h.removals r mem

theorem delete_cases {r : Removal} (taken : step entry w (.delete r) = some w') :
    ∃ key keys, r.keys = key :: keys ∧ r ∈ w.removals ∧ w' = { w with
      store := w.store.delete key
      removals := { r with keys := keys } :: w.removals.erase r } := by
  unfold step at taken
  dsimp only at taken
  split at taken
  · cases taken
  next key keys isKeys =>
    split at taken
    next running => exact ⟨key, keys, isKeys, running, (Option.some.inj taken).symm⟩
    · cases taken

theorem Inv.delete (h : Inv entry w) {r : Removal} (taken : step entry w (.delete r) = some w') :
    Inv entry w' := by
  obtain ⟨key, keys, isKeys, running, rfl⟩ := delete_cases taken
  have isAt := h.removals r running
  obtain ⟨reaches, plain⟩ := isAt.keys key (isKeys ▸ List.mem_cons_self)
  refine h.with_removes (delete_removes reaches plain rfl rfl) isAt.name rfl rfl rfl h.done h.encoding ?_
  intro r' mem
  rcases List.mem_cons.mp mem with rfl | mem
  · have after : RemovalAt entry { w with
        store := w.store.delete key
        removals := { r with keys := keys } :: w.removals.erase r } r :=
      isAt.removes (delete_removes reaches plain rfl rfl) (sameNames_of_flavors rfl)
    refine ⟨after.name, fun k mem => after.keys k (isKeys ▸ List.mem_cons_of_mem key mem), ?_⟩
    intro isBucket stored stores wrote
    have mem := after.all isBucket stored stores wrote
    rw [isKeys] at mem
    refine (List.mem_cons.mp mem).resolve_left ?_
    rintro rfl
    have isDisk : w.store.isDisk = false := (Driver.same_delete stored w.store).isDisk.symm.trans isBucket
    exact (Driver.stored_delete stores).2 (Driver.resolve_bucket isDisk stored)
  · exact (h.removals r' (List.mem_of_mem_erase mem)).removes
      (delete_removes reaches plain rfl rfl) (sameNames_of_flavors rfl)

theorem deleteRow_cases {r : Removal} (taken : step entry w (.deleteRow r) = some w') :
    (r ∈ w.removals ∧ r.keys = []) ∧ w' = { w with
      db := { w.db with
        entryFlavors := w.db.entryFlavors.deleteWhere fun q => q.key = (entry, r.flavorID) }
      store := w.store.removeTree (flavorDir entry r.name)
      removals := w.removals.erase r } := by
  unfold step at taken
  dsimp only at taken
  split at taken
  next running => exact ⟨running, (Option.some.inj taken).symm⟩
  · cases taken

theorem Inv.deleteRow (h : Inv entry w) {r : Removal} (taken : step entry w (.deleteRow r) = some w') :
    Inv entry w' := by
  obtain ⟨⟨running, _⟩, rfl⟩ := deleteRow_cases taken
  have isAt := h.removals r running
  have segment := h.segment isAt.name
  refine h.with_removes (removeTree_removes segment rfl rfl) isAt.name rfl rfl rfl
    (Listed.deleteWhere h.done _) h.encoding ?_
  intro r' mem
  exact (h.removals r' (List.mem_of_mem_erase mem)).removes (removeTree_removes segment rfl rfl)
    (sameNames_of_flavors rfl)

theorem Inv.next (h : Inv entry w) {a : Action} (careful : Careful w a)
    (taken : step entry w a = some w') : Inv entry w' := by
  cases a with
  | createFlavor f =>
    obtain ⟨_, rfl⟩ := guarded taken
    exact h.createFlavor careful
  | updateFlavor f =>
    obtain ⟨_, rfl⟩ := guarded taken
    exact h.updateFlavor_careful careful
  | prepareFlavor id =>
    obtain ⟨_, rfl⟩ := guarded taken
    exact h.with_rows rfl rfl rfl rfl (Listed.upsert h.done id) h.encoding h.removals
  | transcode id => exact h.transcode taken
  | output id name file =>
    obtain ⟨⟨running, segment⟩, rfl⟩ := guarded taken
    exact h.output running segment careful
  | markFlavorDone id name =>
    obtain ⟨running, rfl⟩ := guarded taken
    refine h.with_rows rfl rfl rfl rfl (Listed.markFlavorDone h.done (h.encoding _ running)) ?_ h.removals
    exact fun write mem => h.encoding write (List.mem_of_mem_erase mem)
  | fail id name => exact h.fail taken
  | finalizeTranscode id =>
    obtain ⟨_, rfl⟩ := guarded taken
    exact h.finalizeTranscode id
  | removeFlavor id => exact h.removeFlavor taken
  | delete r => exact h.delete taken
  | deleteRow r => exact h.deleteRow taken

theorem inv_start (entry : Int) (store : Driver) : Inv entry (start store) where
  drawn := nofun
  ids := nofun
  safe := nofun
  apart := nofun
  done := nofun
  encoding := nofun
  removals := nofun
  logged := nofun
  owned := nofun

/-- What a flavor does to the files of its name is none of another flavor's concern. -/
theorem Inv.kept (h : Inv entry w) (writes : Writes entry id name w w') (has : w.Has id name)
    {id' : Int} (other : id ≠ id') (has' : w.Has id' name')
    (reaches : w.store.Reaches (flavorPath entry name') stored) : Kept w w' stored := by
  rcases writes.files stored with kept | ⟨own, _⟩
  · exact kept
  · exact absurd reaches (h.disjoint has has' other own)

theorem Inv.next_kept (h : Inv entry w) {a : Action} (taken : step entry w a = some w') {id' : Int}
    (other : a.flavorID ≠ some id') (has' : w.Has id' name')
    (below : flavorPath entry name' <+: components stored) : Kept w w' stored := by
  have reaches : w.store.Reaches (flavorPath entry name') stored :=
    Driver.reaches_of_below (by simp [flavorPath]) below
  have differ {id : Int} (own : a.flavorID = some id) : id ≠ id' := by
    rintro rfl
    exact other own
  cases a with
  | createFlavor f =>
    obtain ⟨_, rfl⟩ := guarded taken
    exact ⟨rfl, rfl⟩
  | updateFlavor f =>
    obtain ⟨_, rfl⟩ := guarded taken
    exact ⟨rfl, rfl⟩
  | prepareFlavor id =>
    obtain ⟨_, rfl⟩ := guarded taken
    exact ⟨rfl, rfl⟩
  | transcode id =>
    unfold step at taken
    dsimp only at taken
    split at taken
    · cases taken
      exact ⟨rfl, rfl⟩
    · cases taken
      exact ⟨rfl, rfl⟩
  | output id name file =>
    obtain ⟨⟨running, segment⟩, rfl⟩ := guarded taken
    have has := h.encoding _ running
    exact h.kept (output_writes (h.segment has) segment) has (differ rfl) has' reaches
  | markFlavorDone id name =>
    obtain ⟨_, rfl⟩ := guarded taken
    exact ⟨rfl, rfl⟩
  | fail id name =>
    obtain ⟨running, rfl⟩ := guarded taken
    have has := h.encoding _ running
    refine h.kept (Removes.writes ?_ id) has (differ rfl) has' reaches
    exact removeAll_removes (h.segment has) rfl rfl
  | finalizeTranscode id =>
    obtain ⟨_, rfl⟩ := guarded taken
    exact ⟨lookup_finalized (masterKey_outside below), rfl⟩
  | removeFlavor id =>
    obtain ⟨f, _, rfl⟩ := Option.map_eq_some_iff.mp taken
    exact ⟨rfl, rfl⟩
  | delete r =>
    obtain ⟨key, keys, isKeys, running, rfl⟩ := delete_cases taken
    have isAt := h.removals r running
    obtain ⟨own, plain⟩ := isAt.keys key (isKeys ▸ List.mem_cons_self)
    refine h.kept (Removes.writes ?_ r.flavorID) isAt.name (differ rfl) has' reaches
    exact delete_removes own plain rfl rfl
  | deleteRow r =>
    obtain ⟨⟨running, _⟩, rfl⟩ := deleteRow_cases taken
    have isAt := h.removals r running
    refine h.kept (Removes.writes ?_ r.flavorID) isAt.name (differ rfl) has' reaches
    exact removeTree_removes (h.segment isAt.name) rfl rfl

/-- Nothing that the flavor wrote last is left when `removeFlavor` returns. -/
theorem Inv.removed (h : Inv entry w) {r : Removal} (taken : step entry w (.deleteRow r) = some w')
    (stores : w'.store.Stores stored) : (w'.writers stored).head? ≠ some r.flavorID := by
  obtain ⟨⟨running, empty⟩, rfl⟩ := deleteRow_cases taken
  have isAt := h.removals r running
  intro wrote
  have old : w.store.Stores stored := Driver.stored_removeTree stores
  cases isDisk : w.store.isDisk with
  | false =>
    have mem := isAt.all isDisk stored old wrote
    rw [empty] at mem
    cases mem
  | true =>
    obtain ⟨f, mem, _, isName⟩ := isAt.name
    refine removeTree_disk isDisk ?_ (h.owned_below isAt.name old wrote) stores
    exact isName ▸ h.safe f mem

/-- In every run whose names are kept apart, whose renamed flavors are unused and whose transcodes do
not write while their flavor is removed, every operation leaves the done files of the other flavors,
and a flavor that is removed has no files left. -/
theorem files_stay_separate (entry : Int) (store : Driver) (trace : List Action) (w w' : World)
    (a : Action) (h : Run (step entry) Careful (start store) trace w) (careful : Careful w a)
    (taken : step entry w a = some w') : Separate w a w' := by
  have inv : Inv entry w := h.invariant (Inv entry) (inv_start entry store)
    fun _ _ _ inv careful taken => inv.next careful taken
  constructor
  · intro r mem isDone key isKey other stored _ below
    obtain ⟨name, has, isPlaylist⟩ := inv.done r mem isDone
    obtain rfl := Option.some.inj (isPlaylist.symm.trans isKey)
    rw [dropLast_flavorPlaylistKey entry (inv.segment has)] at below
    exact inv.next_kept taken other has below
  · intro r isRow stored stores
    subst isRow
    exact inv.removed taken stores

def flavor (id : Int) (name : String) : Flavor := ⟨id, name.toList, 720, true, 0⟩

def index : Text := "index.m3u8".toList

/-- The flavor is ticked and transcoded. -/
def transcoded (id : Int) (name : String) : List Action :=
  [.prepareFlavor id, .transcode id, .output id name.toList index, .markFlavorDone id name.toList,
    .finalizeTranscode id]

/-- A flavor that was renamed before it had files, and one that is removed. -/
def carefulRun : List Action :=
  [.createFlavor (flavor 0 "720p"), .createFlavor (flavor 0 "480p"),
    .updateFlavor (flavor 1 "1080p")] ++ transcoded 1 "1080p" ++ transcoded 2 "480p" ++
  [.removeFlavor 2, .delete ⟨2, "480p".toList, [flavorSegmentKey 1 "480p".toList index]⟩]

theorem files_stay_separate_removal : ∃ w w', (Run (step 1) Careful (start emptyBucket) carefulRun w ∧
      Careful w (.deleteRow ⟨2, "480p".toList, []⟩) ∧
      step 1 w (.deleteRow ⟨2, "480p".toList, []⟩) = some w') ∧
    Separate w (.deleteRow ⟨2, "480p".toList, []⟩) w' := by
  have executed : (exec (step 1) (fun w a => decide (Careful w a)) (start emptyBucket) carefulRun).any
      (fun w => (step 1 w (.deleteRow ⟨2, "480p".toList, []⟩)).isSome) = true := by
    decide +kernel
  obtain ⟨w, run, enabled⟩ := exists_run (fun _ _ => of_decide_eq_true) executed
  obtain ⟨w', taken⟩ := Option.isSome_iff_exists.mp enabled
  exact ⟨w, w', ⟨run, trivial, taken⟩,
    files_stay_separate 1 emptyBucket carefulRun w w' _ run trivial taken⟩

/-- Flavor 1 is transcoded as `720p` and renamed, and flavor 2 gets its old name. -/
def reusedName : List Action :=
  .createFlavor (flavor 0 "720p") :: transcoded 1 "720p" ++
    [.updateFlavor (flavor 1 "1080p"), .createFlavor (flavor 0 "720p"), .prepareFlavor 2, .transcode 2]

/-- Flavor 1 is transcoded as `720p` and removed as `1080p`. -/
def removedAfterRename : List Action :=
  .createFlavor (flavor 0 "720p") :: transcoded 1 "720p" ++
    [.updateFlavor (flavor 1 "1080p"), .removeFlavor 1]

/-- The listing of `720p` has the files of `720p-h264`. -/
def longerName : List Action :=
  [.createFlavor (flavor 0 "720p"), .createFlavor (flavor 0 "720p-h264")] ++
    transcoded 2 "720p-h264" ++ [.prepareFlavor 1, .removeFlavor 1]

def takesFrom (w : World) (a : Action) (w' : World) (stored : Text) : Bool :=
  w.db.entryFlavors.rows.any (fun r => r.status = .done && a.flavorID ≠ some r.flavorId &&
      r.playlistKey.any fun key => (components key).dropLast.isPrefixOf (components stored)) &&
    (w.store.lookup stored).isSome &&
    (w'.store.lookup stored ≠ w.store.lookup stored || w'.writers stored ≠ w.writers stored)

theorem not_separate {a : Action} (h : takesFrom w a w' stored = true) : ¬ Separate w a w' := by
  intro separate
  simp only [takesFrom, Bool.and_eq_true, List.any_eq_true, Bool.or_eq_true, decide_eq_true_eq,
    List.isPrefixOf_iff_prefix, Option.any_eq_true] at h
  obtain ⟨⟨⟨r, mem, ⟨isDone, other⟩, key, isKey, below⟩, stores⟩, changed⟩ := h
  obtain ⟨same, wrote⟩ := separate.kept r mem isDone key isKey other stored
    (Option.isSome_iff_ne_none.mp stores) below
  exact changed.elim (fun differs => differs same) fun differs => differs wrote

/-- A run and one more action. -/
theorem exists_step {store : Driver} {trace : List Action} {a : Action} {p : World → World → Bool}
    (executed : (exec (step entry) (fun _ _ => true) (start store) trace).any
      (fun w => (step entry w a).any (p w)) = true) :
    ∃ w w', Run (step entry) Always (start store) trace w ∧ step entry w a = some w' ∧ p w w' = true := by
  have sound (w : World) (a : Action) (_ : true = true) : Always w a := trivial
  obtain ⟨w, run, reached⟩ := exists_run sound executed
  obtain ⟨w', taken, meets⟩ := (Option.any_eq_true _ _).mp reached
  exact ⟨w, w', run, taken, meets⟩

theorem not_staysSeparate {store : Driver} (trace : List Action) (a : Action) (stored : Text)
    (executed : (exec (step entry) (fun _ _ => true) (start store) trace).any
      (fun w => (step entry w a).any fun w' => takesFrom w a w' stored) = true) :
    ¬ StaysSeparate entry Always store := by
  intro separate
  obtain ⟨w, w', run, taken, takes⟩ := exists_step executed
  exact not_separate takes (separate trace w run a w' trivial taken)

/-- The old name of a flavor is given to another one, which overwrites its files; a flavor is removed
with the files of a longer name, and one that was renamed is removed without its files. -/
theorem directories_shared :
    ¬ StaysSeparate 1 Always emptyDisk ∧ ¬ StaysSeparate 1 Always emptyBucket ∧
    ∃ trace w w' r, Run (step 1) Always (start emptyDisk) trace w ∧
      step 1 w (.deleteRow r) = some w' ∧ ∃ stored, w'.store.Stores stored ∧
        (w'.writers stored).head? = some r.flavorID := by
  refine ⟨?_, ?_, ?_⟩
  · apply not_staysSeparate reusedName (.output 2 "720p".toList index)
      (flavorSegmentKey 1 "720p".toList index)
    decide +kernel
  · apply not_staysSeparate longerName
      (.delete ⟨1, "720p".toList, [flavorSegmentKey 1 "720p-h264".toList index]⟩)
      (flavorSegmentKey 1 "720p-h264".toList index)
    decide +kernel
  · have executed : (exec (step 1) (fun _ _ => true) (start emptyDisk) removedAfterRename).any
        (fun w => (step 1 w (.deleteRow ⟨1, "1080p".toList, []⟩)).any fun w' =>
          decide (w'.store.Stores (flavorSegmentKey 1 "720p".toList index) ∧
            (w'.writers (flavorSegmentKey 1 "720p".toList index)).head? = some 1)) = true := by
      decide +kernel
    obtain ⟨w, w', run, taken, left⟩ := exists_step executed
    exact ⟨_, w, w', _, run, taken, _, of_decide_eq_true left⟩

end Vidsilo.Jobs.FlavorFiles
