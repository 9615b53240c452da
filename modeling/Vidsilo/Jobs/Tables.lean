import Mathlib.Data.List.Sort
import Vidsilo.Queue.Claim
import Vidsilo.Storage.Keys

/-!
# Entries, flavors and jobs in one database

Source: migrations 0001, 0003, 0007 and 0008, internal/db/models.go:36-110, entries.go,
flavors.go:11-107, internal/queue/queue.go:26-60 (`Enqueue`). Columns that no handler of
the pipeline reads or writes, and the tables of subtitles, uploads and URL downloads,
are left out; so are posters and sprites.
-/
namespace Vidsilo.Jobs.Tables
open Library.SlashPath Queue.Table

inductive EntryStatus where
  | uploading | probing | transcoding | ready | failed
  deriving DecidableEq, Repr

inductive EntryFlavorStatus where
  | pending | transcoding | done | failed | skipped
  deriving DecidableEq, Repr

structure Entry where
  status : EntryStatus
  /-- Empty where the column is NULL. -/
  sourceKey : Text
  sourceSize : Option Int
  durationMs : Option Int
  error : Option String
  deriving DecidableEq, Repr

structure Flavor where
  id : Int
  name : Text
  height : Int
  enabled : Bool
  position : Int
  deriving DecidableEq, Repr

structure EntryFlavor where
  entryId : Int
  flavorId : Int
  status : EntryFlavorStatus
  error : Option String
  playlistKey : Option Text
  deriving DecidableEq, Repr

def EntryFlavor.key (r : EntryFlavor) : Int × Int := (r.entryId, r.flavorId)

/-- The rows with their PRIMARY KEY. -/
structure EntryFlavors where
  rows : List EntryFlavor
  unique : (rows.map EntryFlavor.key).Nodup

structure Database where
  entries : Int → Option Entry
  nextEntryId : Int
  flavors : List Flavor
  nextFlavorId : Int
  entryFlavors : EntryFlavors
  jobs : Jobs

def EntryFlavors.empty : EntryFlavors := ⟨[], List.nodup_nil⟩

/-- SET status, error and, where given, playlist_key. -/
def EntryFlavor.set (r : EntryFlavor) (status : EntryFlavorStatus) (error : Option String)
    (playlistKey : Option Text) : EntryFlavor :=
  { r with status := status, error := error, playlistKey := playlistKey.or r.playlistKey }

def EntryFlavors.updateWhere (t : EntryFlavors) (p : EntryFlavor → Bool)
    (status : EntryFlavorStatus) (error : Option String) (playlistKey : Option Text) :
    EntryFlavors where
  rows := t.rows.map fun r => if p r then r.set status error playlistKey else r
  unique := by
    have keys : EntryFlavor.key ∘ (fun r => if p r then r.set status error playlistKey else r) =
        EntryFlavor.key := by
      funext r
      simp only [Function.comp_apply]
      split
      · rfl
      · rfl
    rw [List.map_map, keys]
    exact t.unique

def EntryFlavors.deleteWhere (t : EntryFlavors) (p : EntryFlavor → Bool) : EntryFlavors where
  rows := t.rows.filter fun r => ! p r
  unique := t.unique.sublist (List.filter_sublist.map _)

/-- INSERT … ON CONFLICT (entry_id, flavor_id) DO UPDATE. -/
def EntryFlavors.upsert (t : EntryFlavors) (entryId flavorId : Int) (status : EntryFlavorStatus)
    (error : Option String) : EntryFlavors :=
  if h : (entryId, flavorId) ∈ t.rows.map EntryFlavor.key then
    t.updateWhere (fun r => r.key = (entryId, flavorId)) status error none
  else
    { rows := t.rows ++ [⟨entryId, flavorId, status, error, none⟩]
      unique := by
        rw [List.map_append]
        apply t.unique.append (List.nodup_singleton _)
        simpa [EntryFlavor.key] using h }

/-- UPDATE entries … WHERE id = $1. -/
def Database.setEntry (db : Database) (id : Int) (set : Entry → Entry) : Database :=
  { db with entries := fun i => if i = id then (db.entries i).map set else db.entries i }

def Database.insertEntry (db : Database) : Database :=
  { db with
    entries := fun i =>
      if i = db.nextEntryId then some ⟨.uploading, [], none, none, none⟩ else db.entries i
    nextEntryId := db.nextEntryId + 1 }

/-- INSERT of a row and its COMMIT. -/
def addJob (jobs : Jobs) (j : Job) : Jobs :=
  jobs.reserve.insert jobs.nextId (Nat.lt_succ_self _) j

/-- `Enqueue`: the foreign key refuses a job of an entry that is gone. -/
def Database.enqueue (db : Database) (jobType : JobType) (entryId : Int) (flavorId : Option Int)
    (maxAttempts now : Int) : Database :=
  if (db.entries entryId).isSome then
    { db with
      jobs := addJob db.jobs (enqueueAt jobType (some entryId) flavorId maxAttempts none now) }
  else db

def deleteJobs (jobs : Jobs) (p : Job → Bool) : Jobs where
  row := fun id => (jobs.row id).filter fun j => ! p j
  nextId := jobs.nextId
  drawn := fun id h => by rw [jobs.drawn id h]; rfl

/-- DELETE FROM entries: jobs and flavor rows go with the entry. -/
def Database.deleteEntry (db : Database) (id : Int) : Database :=
  { db with
    entries := fun i => if i = id then none else db.entries i
    entryFlavors := db.entryFlavors.deleteWhere fun r => r.entryId = id
    jobs := deleteJobs db.jobs fun j => j.entryId = some id }

def Database.updateFlavor (db : Database) (f : Flavor) : Database :=
  { db with flavors := db.flavors.map fun g => if g.id = f.id then f else g }

def Database.createFlavor (db : Database) (f : Flavor) : Database :=
  { db with
    flavors := db.flavors ++ [{ f with id := db.nextFlavorId }]
    nextFlavorId := db.nextFlavorId + 1 }

/-- DELETE FROM flavors: the flavor rows go with it. -/
def Database.deleteFlavor (db : Database) (id : Int) : Database :=
  { db with
    flavors := db.flavors.filter fun f => f.id ≠ id
    entryFlavors := db.entryFlavors.deleteWhere fun r => r.flavorId = id }

/-- The second UPDATE of `RequeueStale`, after rows were requeued: a flavor row is no
longer transcoding when no running job transcodes it. -/
def Database.revertFlavors (db : Database) : Database :=
  { db with
    entryFlavors := db.entryFlavors.updateWhere
      (fun r => r.status = .transcoding && !db.jobs.exists fun _ j =>
        j.type = .transcode && j.status = .running && j.entryId = some r.entryId &&
          j.flavorId.getD (-1) = r.flavorId)
      .pending none none }

/-- `EnabledFlavors`. -/
def Database.enabledFlavors (db : Database) : List Flavor :=
  (db.flavors.filter (·.enabled)).insertionSort
    fun f g => f.position < g.position ∨ (f.position = g.position ∧ f.id ≤ g.id)

def Database.flavorByID (db : Database) (id : Int) : Option Flavor :=
  db.flavors.find? fun f => f.id = id

/-- `EntryFlavors`. -/
def Database.flavorRows (db : Database) (entryId : Int) : List EntryFlavor :=
  (db.entryFlavors.rows.filter fun r => r.entryId = entryId).insertionSort
    fun r q => r.flavorId ≤ q.flavorId

def EntryFlavorStatus.unfinished (s : EntryFlavorStatus) : Bool :=
  s = .pending || s = .transcoding

/-- `count(*) … WHERE status IN ('pending', 'transcoding')`. -/
def Database.remaining (db : Database) (entryId : Int) : Nat :=
  db.entryFlavors.rows.countP fun r => r.entryId = entryId && r.status.unfinished

def Database.doneCount (db : Database) (entryId : Int) : Nat :=
  db.entryFlavors.rows.countP fun r => r.entryId = entryId && r.status = .done

theorem EntryFlavors.mem_updateWhere {t : EntryFlavors} {p : EntryFlavor → Bool}
    {status : EntryFlavorStatus} {error : Option String} {playlistKey : Option Text}
    {r : EntryFlavor} (h : r ∈ (t.updateWhere p status error playlistKey).rows) :
    ∃ q ∈ t.rows, r.key = q.key ∧ if p q then r.status = status else r = q := by
  obtain ⟨q, hq, rfl⟩ := List.mem_map.mp h
  refine ⟨q, hq, ?_, ?_⟩
  · split
    · rfl
    · rfl
  · split
    · rfl
    · rfl

theorem EntryFlavors.mem_upsert {t : EntryFlavors} {entryId flavorId : Int}
    {status : EntryFlavorStatus} {error : Option String} {r : EntryFlavor}
    (h : r ∈ (t.upsert entryId flavorId status error).rows) :
    if r.key = (entryId, flavorId) then r.status = status else r ∈ t.rows := by
  unfold EntryFlavors.upsert at h
  split at h
  · obtain ⟨q, hq, hkey, hr⟩ := EntryFlavors.mem_updateWhere h
    rw [hkey]
    by_cases same : q.key = (entryId, flavorId)
    · simpa [same] using hr
    · have hrq : r = q := by simpa [same] using hr
      simpa [same, hrq] using hq
  · rcases List.mem_append.mp h with old | new
    · split
      · next same habsent =>
        exact absurd (List.mem_map.mpr ⟨r, old, habsent⟩) same
      · exact old
    · obtain rfl := List.mem_singleton.mp new
      simp [EntryFlavor.key]

theorem row_addJob (jobs : Jobs) (j : Job) (id : JobId) :
    (addJob jobs j).row id = if id = jobs.nextId then some j else jobs.row id := rfl

end Vidsilo.Jobs.Tables
