import Mathlib
import Vidsilo.Api.Pages
import Vidsilo.Jobs.ServedKeys
import Vidsilo.Library.Grouping
import Vidsilo.Library.Unordered
import Vidsilo.Storage.Fallback
import Vidsilo.Storage.Listings

/-!
# The storage page

Source: internal/api/storage.go:52-259 (`classifyFile`, `handleStorageFiles`, `systemUsage`),
internal/api/dashboard.go:118-146 (`storageUsed`), internal/store/usage.go:28-221. The page groups the
media files by entry and by kind; what is beside the media tree of a local driver is a row of its
own. The walks are taken to meet no error, and a list in memory to have fewer than 2^62 rows. The
capacity of the disk is left out.
-/
namespace Vidsilo.Storage.Accounting
open Library Library.SlashPath Library.Decimal Library.Grouping Keys Drivers Listings

/-- The files of a local driver that a walk finds, under their paths from its root. -/
def walked (l : Local) (listPrefix : Text) : List (FilePath × Nat) :=
  let base := cleanComponents true (l.root ++ components (trimSlash listPrefix))
  (l.files.entries.filter fun f => base <+: l.root ++ f.1).map fun f => (f.1, f.2.length)

def listSizesOf (listPrefix : Text) : Store → List FileEntry
  | .local l => (walked l listPrefix).map fun f => ⟨joinSlash f.1, f.2⟩
  | .s3 objects => Listings.listSizes objects listPrefix
  | .cache backend _ => listSizesOf listPrefix backend
  | .fallback primary _ => listSizesOf listPrefix primary

structure Usage where
  usedBytes : Nat
  objectCount : Nat
  deriving DecidableEq, Repr

def usageOf : Store → Usage
  | .local l => ⟨weight Prod.snd (walked l []), (walked l []).length⟩
  | .s3 objects => ⟨weight (fun o => o.2.length) objects.entries, objects.entries.length⟩
  | .cache backend _ => usageOf backend
  | .fallback primary _ => usageOf primary

def localOf : Store → Option Local
  | .local l => some l
  | .s3 _ => none
  | .cache backend _ => localOf backend
  | .fallback primary _ => localOf primary

def mediaPrefix : Text := entriesRoot ++ ['/']

def storageUsed (s : Store) : Nat :=
  match localOf s with
  | some l => weight Prod.snd (walked l entriesRoot)
  | none => weight FileEntry.size (listSizesOf mediaPrefix s)

inductive Label where
  | source | poster | flavors | subtitles | other | system
  deriving DecidableEq, Repr

structure StorageEntryFile where
  label : Label
  name : Text
  bytes : Nat
  count : Nat
  deriving DecidableEq, Repr

structure StorageEntry where
  publicId : Text
  title : Text
  status : Text
  totalBytes : Nat
  files : List StorageEntryFile
  deriving DecidableEq, Repr

/-- The columns of an entry that the page reads. -/
structure Entry where
  id : Int
  publicId : Text
  title : Text
  status : Text
  deriving DecidableEq, Repr

abbrev Kind := Label × Text

def classifyFile (key : Text) : Kind :=
  let base := (components key).getLastD []
  let parts := components key
  if "original.".toList <+: base then (.source, [])
  else if "poster.".toList <+: base ∨ "sprite.".toList <+: base then (.poster, [])
  else if 4 ≤ parts.length ∧ parts[2]? = some "flavors".toList then (.flavors, parts.getD 3 [])
  else if "/subs/".toList <:+: key then (.subtitles, [])
  else (.other, [])

/-- What Go leaves open on the way to one answer. -/
structure Choices where
  groups : Int → Ranging Kind
  flavorRows : Int → Sorting fun a b : StorageEntryFile => !textLe b.name a.name
  entries : Sorting fun a b : StorageEntry => decide (b.totalBytes < a.totalBytes)
  tops : Ranging Text

/-- The entry that a media file is filed under. -/
def entryOf (f : FileEntry) : Option Int :=
  match components f.key with
  | _ :: second :: _ :: _ => parseInt second
  | _ => none

def mediaFiles (s : Store) : List FileEntry := listSizesOf mediaPrefix s

/-- The files of an entry. -/
def filesOf (id : Int) (files : List FileEntry) : List FileEntry :=
  files.filter (entryOf · = some id)

/-- The ids in the order in which they are first met. -/
def order (files : List FileEntry) : List Int := keys id (files.filterMap entryOf)

/-- The last entry of that id wins. -/
def byId (entries : List Entry) (id : Int) : Option Entry := entries.reverse.find? (·.id = id)

def kindOf (f : FileEntry) : Kind := classifyFile f.key

def groupRow (files : List FileEntry) (k : Kind) : StorageEntryFile :=
  ⟨k.1, k.2, weight FileEntry.size (group kindOf files k), (group kindOf files k).length⟩

def isFlavor (row : StorageEntryFile) : Bool := row.label = .flavors

section Choosing
variable (c : Choices)

def fileRows (id : Int) (files : List FileEntry) : List StorageEntryFile :=
  let rows := ((c.groups id).visit (keys kindOf files)).map (groupRow files)
  rows.filter (!isFlavor ·) ++ (c.flavorRows id).sort (rows.filter isFlavor)

def entryRow (e : Entry) (files : List FileEntry) : StorageEntry :=
  let rows := fileRows c e.id (filesOf e.id files)
  ⟨e.publicId, e.title, e.status, weight StorageEntryFile.bytes rows, rows⟩

def entryRows (entries : List Entry) (files : List FileEntry) : List StorageEntry :=
  let rows := (order files).filterMap fun id => (byId entries id).map fun e => entryRow c e files
  c.entries.sort (rows.filter fun row => ¬ (row.totalBytes = 0 ∧ row.files = []))

/-- The files beside the media tree, under the first name of their path. -/
def besideMedia (l : Local) : List (Text × Nat) :=
  ((walked l []).filter fun f =>
    ¬ (joinSlash f.1 = entriesRoot ∨ mediaPrefix <+: joinSlash f.1)).map fun f =>
      ((components (joinSlash f.1)).headD [], f.2)

def knownTops : List Text := ["uploads".toList, "logs".toList, "cache".toList]

def topRow (rows : List (Text × Nat)) (top : Text) : StorageEntryFile :=
  ⟨.system, top, weight Prod.snd (group Prod.fst rows top), (group Prod.fst rows top).length⟩

def systemUsage (l : Local) : StorageEntry :=
  let rows := besideMedia l
  let tops := keys Prod.fst rows
  let known := (knownTops.filter (· ∈ tops)).map (topRow rows)
  let others := ((c.tops.visit tops).filter (· ∉ knownTops)).map (topRow rows)
  let rest : StorageEntryFile :=
    ⟨.system, "other".toList, weight StorageEntryFile.bytes others, weight StorageEntryFile.count others⟩
  let files := if 0 < rest.bytes then known ++ [rest] else known
  ⟨[], "System".toList, [], weight StorageEntryFile.bytes files, files⟩

def storageRows (entries : List Entry) (s : Store) : List StorageEntry :=
  let rows := entryRows c entries (mediaFiles s)
  match localOf s with
  | some l => if 0 < (systemUsage c l).totalBytes then rows ++ [systemUsage c l] else rows
  | none => rows

end Choosing

inductive Answer where
  | all (items : List StorageEntry)
  | page (items : List StorageEntry) (total : Nat) (page limit : Int)
  deriving DecidableEq, Repr

/-- `out[start:end]`, which panics outside the list. -/
def slice {α : Type} (out : List α) (first last : Int) : Option (List α) :=
  if 0 ≤ first ∧ first ≤ last ∧ last ≤ out.length then
    some ((out.take last.toNat).drop first.toNat)
  else none

def paginate (out : List StorageEntry) (page limit : Int) : Option Answer :=
  if 0 < page then
    let limit := if limit ≤ 0 ∨ 200 < limit then 50 else limit
    let start := Api.Pages.offset page limit
    let start := if start < 0 ∨ out.length < start then (out.length : Int) else start
    let last := if (out.length : Int) < start + limit then (out.length : Int) else start + limit
    (slice out start last).map fun items => .page items out.length page limit
  else some (.all out)

/-- None where it panics. -/
def handleStorageFiles (c : Choices) (entries : List Entry) (s : Store) (page limit : Text) :
    Option Answer :=
  paginate (storageRows c entries s) (atoi page) (atoi limit)

section Walks
variable (l : Local)

theorem walked_all : walked l [] = l.files.entries.map fun f => (f.1, f.2.length) := by
  have base : cleanComponents true (l.root ++ components (trimSlash [])) = l.root :=
    ((spells_self l.root l.rooted).append_neutral (.skip (.inl rfl) .nil)).clean true
  rw [walked, base, List.filter_eq_self.mpr fun f _ => decide_eq_true (List.prefix_append _ _)]

/-- The media tree, with or without the slash. -/
theorem walked_media {listPrefix : Text} (h : trimSlash listPrefix = entriesRoot) :
    walked l listPrefix =
      (walked l []).filter fun f => f.1.head? = some entriesRoot := by
  have named : ∀ c ∈ l.root ++ [entriesRoot], Named c := by
    intro c mem
    rcases List.mem_append.mp mem with above | here
    · exact l.rooted c above
    · exact List.mem_singleton.mp here ▸ segment_entriesRoot.1
  have base : cleanComponents true (l.root ++ components (trimSlash listPrefix)) =
      l.root ++ [entriesRoot] := by
    rw [h, show components entriesRoot = [entriesRoot] by decide]
    exact (spells_self _ named).clean true
  rw [walked_all, walked, base, List.filter_map]
  congr 1
  refine List.filter_congr fun f _ => decide_eq_decide.mpr ?_
  rw [List.prefix_append_right_inj]
  obtain ⟨path, bytes⟩ := f
  cases path with
  | nil => simp
  | cons c rest => simp [eq_comm]

theorem walked_path {f : FilePath × Nat} (mem : f ∈ walked l []) :
    f.1 ≠ [] ∧ ∀ c ∈ f.1, Segment c := by
  rw [walked_all] at mem
  obtain ⟨g, isFile, rfl⟩ := List.mem_map.mp mem
  exact l.segments g.1 (List.mem_map_of_mem isFile)

/-- A file of the media tree by its text. -/
theorem media_iff {p : FilePath} (ne : p ≠ []) (segments : ∀ c ∈ p, Segment c) :
    (joinSlash p = entriesRoot ∨ mediaPrefix <+: joinSlash p) ↔ p.head? = some entriesRoot := by
  have slashes : ∀ c ∈ p, '/' ∉ c := fun c mem => (segments c mem).2
  constructor
  · rintro (root | ⟨rest, below⟩)
    · have same := components_joinSlash p ne slashes
      rw [root, show components entriesRoot = [entriesRoot] by decide] at same
      rw [← same]
      rfl
    · have same := components_joinSlash p ne slashes
      rw [← below, mediaPrefix, List.append_assoc, List.singleton_append,
        components_append_slash _ _ (by decide)] at same
      rw [← same]
      rfl
  · intro head
    cases p with
    | nil => cases head
    | cons c rest =>
      obtain rfl := Option.some.inj head
      cases rest with
      | nil => exact .inl (joinSlash_singleton _)
      | cons d rest =>
        refine .inr ⟨joinSlash (d :: rest), ?_⟩
        rw [joinSlash_cons, mediaPrefix, List.append_assoc]
        rfl

theorem storageUsed_local (s : Store) (h : localOf s = some l) :
    storageUsed s = weight FileEntry.size (mediaFiles s) ∧
      (usageOf s).usedBytes = weight Prod.snd (walked l []) := by
  have list : mediaFiles s = (walked l mediaPrefix).map fun f => ⟨joinSlash f.1, f.2⟩ := by
    unfold mediaFiles
    induction s with
    | «local» l' =>
      cases h
      rfl
    | s3 objects => cases h
    | cache backend c ih => exact ih h
    | fallback primary legacy ih _ => exact ih h
  have usage : usageOf s = ⟨weight Prod.snd (walked l []), (walked l []).length⟩ := by
    induction s with
    | «local» l' =>
      cases h
      rfl
    | s3 objects => cases h
    | cache backend c ih => exact ih h list
    | fallback primary legacy ih _ => exact ih h list
  refine ⟨?_, congrArg _ usage⟩
  rw [storageUsed, h, list, weight_map, walked_media l (by decide : trimSlash mediaPrefix = entriesRoot)]
  exact congrArg (weight Prod.snd) (walked_media l (by decide : trimSlash entriesRoot = entriesRoot))

theorem storageUsed_eq (s : Store) : storageUsed s = weight FileEntry.size (mediaFiles s) := by
  cases h : localOf s with
  | some l => exact (storageUsed_local l s h).1
  | none => rw [storageUsed, h]; rfl

/-- The media tree and what is beside it. -/
theorem weight_besideMedia :
    weight Prod.snd (walked l entriesRoot) + weight Prod.snd (besideMedia l) =
      weight Prod.snd (walked l []) := by
  rw [walked_media l (by decide : trimSlash entriesRoot = entriesRoot), besideMedia, weight_map,
    ← weight_filter_not Prod.snd (fun f => decide (f.1.head? = some entriesRoot)) (walked l [])]
  congr 2
  refine List.filter_congr fun f mem => ?_
  obtain ⟨ne, segments⟩ := walked_path l mem
  rw [decide_eq_decide.mpr (not_congr (media_iff ne segments)), decide_not]

end Walks

section Rows
variable (c : Choices)

theorem fileRows_perm (id : Int) (files : List FileEntry) :
    (fileRows c id files).Perm ((keys kindOf files).map (groupRow files)) := by
  have visited := ((c.groups id).perm (keys kindOf files)).map (groupRow files)
  have flavors := (c.flavorRows id).perm
    ((((c.groups id).visit (keys kindOf files)).map (groupRow files)).filter isFlavor)
  refine ((flavors.append_left _).trans ?_).trans visited
  exact (List.perm_append_comm).trans (List.filter_append_perm isFlavor _)

/-- The rows of the kinds hold all bytes and all files. -/
theorem weight_fileRows (id : Int) (files : List FileEntry) :
    weight StorageEntryFile.bytes (fileRows c id files) = weight FileEntry.size files ∧
      weight StorageEntryFile.count (fileRows c id files) = files.length := by
  constructor
  · rw [weight_perm _ (fileRows_perm c id files), weight_map]
    exact weight_keys kindOf FileEntry.size files
  · rw [weight_perm _ (fileRows_perm c id files), weight_map, length_eq_weight,
      ← weight_keys kindOf]
    refine congrArg List.sum (List.map_congr_left fun k _ => ?_)
    exact length_eq_weight _

/-- There is one row for each kind. -/
theorem nodup_fileRows (entryId : Int) (files : List FileEntry) :
    ((fileRows c entryId files).map fun row => (row.label, row.name)).Nodup := by
  have perm := (fileRows_perm c entryId files).map fun row => (row.label, row.name)
  have same : (fun row : StorageEntryFile => (row.label, row.name)) ∘ groupRow files = id := rfl
  rw [List.map_map, same, List.map_id] at perm
  exact perm.nodup_iff.mpr (nodup_keys kindOf files)

theorem entryRow_total (e : Entry) (files : List FileEntry) :
    (entryRow c e files).totalBytes = weight FileEntry.size (filesOf e.id files) :=
  (weight_fileRows c e.id _).1

end Rows

section Page
variable (c : Choices) (entries : List Entry)

def hasRow (f : FileEntry) : Bool := ((entryOf f).bind (byId entries)).isSome

/-- The media files of no entry. -/
def skipped (files : List FileEntry) : List FileEntry := files.filter (!hasRow entries ·)

theorem mem_order {files : List FileEntry} {id : Int} :
    id ∈ order files ↔ ∃ f ∈ files, entryOf f = some id := by
  simp [order, mem_keys]

theorem nodup_order (files : List FileEntry) : (order files).Nodup := nodup_keys _ _

theorem byId_id {id : Int} {e : Entry} (h : byId entries id = some e) : e.id = id :=
  by simpa using List.find?_some h

/-- The rows before they are sorted. -/
theorem entryRows_perm (files : List FileEntry) :
    (entryRows c entries files).Perm ((order files).filterMap fun id =>
      (byId entries id).map fun e => entryRow c e files) := by
  refine (c.entries.perm _).trans (.of_eq (List.filter_eq_self.mpr fun row mem => ?_))
  obtain ⟨id, isId, found⟩ := List.mem_filterMap.mp mem
  obtain ⟨e, isEntry, rfl⟩ := Option.map_eq_some_iff.mp found
  obtain ⟨f, isFile, filed⟩ := mem_order.mp isId
  have mine : f ∈ filesOf e.id files :=
    List.mem_filter.mpr ⟨isFile, decide_eq_true (byId_id entries isEntry ▸ filed)⟩
  have counted := (weight_fileRows c e.id (filesOf e.id files)).2
  have present := List.length_pos_of_mem mine
  refine decide_eq_true fun ⟨_, noRows⟩ => ?_
  have empty : fileRows c e.id (filesOf e.id files) = [] := noRows
  rw [empty] at counted
  exact absurd counted (by simp only [weight, List.map_nil, List.sum_nil]; omega)

theorem sum_found (ids : List Int) (files : List FileEntry) :
    weight StorageEntry.totalBytes (ids.filterMap fun id =>
        (byId entries id).map fun e => entryRow c e files) =
      ((ids.filter fun id => (byId entries id).isSome).map fun id =>
        weight FileEntry.size (filesOf id files)).sum := by
  induction ids with
  | nil => rfl
  | cons id rest ih =>
    cases found : byId entries id with
    | none => simpa [found] using ih
    | some e =>
      obtain rfl := byId_id entries found
      have total := entryRow_total c e files
      unfold weight at ih total ⊢
      simp only [List.filterMap_cons, found, Option.map_some, List.filter_cons, Option.isSome_some,
        if_true, List.map_cons, List.sum_cons, ih, total]

/-- The rows hold the bytes of the media files that have one. -/
theorem weight_entryRows (files : List FileEntry) :
    weight StorageEntry.totalBytes (entryRows c entries files) +
      weight FileEntry.size (skipped entries files) = weight FileEntry.size files := by
  let ids := (order files).filter fun id => (byId entries id).isSome
  have nodup : (ids.map some).Nodup :=
    ((nodup_order files).filter _).map (Option.some_injective _)
  have shown (f : FileEntry) (mem : f ∈ files) : hasRow entries f = true ↔ entryOf f ∈ ids.map some := by
    cases filed : entryOf f with
    | none => simp [hasRow, filed]
    | some id =>
      have isId : id ∈ order files := mem_order.mpr ⟨f, mem, filed⟩
      simp [hasRow, filed, ids, isId]
  have kept := weight_chosen entryOf FileEntry.size nodup shown
  rw [List.map_map] at kept
  rw [weight_perm _ (entryRows_perm c entries files), sum_found,
    ← weight_filter_not FileEntry.size (hasRow entries) files, ← kept]
  rfl

theorem mem_knownTops_perm {tops : List Text} (nodup : tops.Nodup) :
    (knownTops.filter (· ∈ tops)).Perm (tops.filter (· ∈ knownTops)) := by
  refine (List.perm_ext_iff_of_nodup (List.Nodup.filter _ (by decide)) (nodup.filter _)).mpr fun top => ?_
  simp [and_comm]

/-- The system row holds what is beside the media tree. -/
theorem systemUsage_total (l : Local) :
    (systemUsage c l).totalBytes = weight Prod.snd (besideMedia l) := by
  have known := weight_perm StorageEntryFile.bytes ((mem_knownTops_perm
    (nodup_keys Prod.fst (besideMedia l))).map (topRow (besideMedia l)))
  have visited := weight_perm StorageEntryFile.bytes
    (((c.tops.perm (keys Prod.fst (besideMedia l))).filter (· ∉ knownTops)).map (topRow (besideMedia l)))
  have all := weight_filter_not (fun top => weight Prod.snd (group Prod.fst (besideMedia l) top))
    (· ∈ knownTops) (keys Prod.fst (besideMedia l))
  have total := weight_keys Prod.fst Prod.snd (besideMedia l)
  simp only [weight_map, topRow] at known visited
  change weight _ (keys Prod.fst (besideMedia l)) = _ at total
  simp only [← decide_not] at all
  simp only [systemUsage]
  split
  · rw [weight_append, weight_map, show weight StorageEntryFile.bytes [_] = _ from Nat.add_zero _]
    simp only [topRow, weight_map]
    omega
  next none =>
    simp only [weight_map, topRow] at none ⊢
    omega

end Page

section Accounted
variable (c : Choices) (entries : List Entry) (s : Store)

theorem entryRows_total : storageUsed s =
    weight StorageEntry.totalBytes (entryRows c entries (mediaFiles s)) +
      weight FileEntry.size (skipped entries (mediaFiles s)) := by
  rw [weight_entryRows, storageUsed_eq]

theorem storageRows_total {l : Local} (h : localOf s = some l) : (usageOf s).usedBytes =
    weight StorageEntry.totalBytes (storageRows c entries s) +
      weight FileEntry.size (skipped entries (mediaFiles s)) := by
  obtain ⟨media, used⟩ := storageUsed_local l s h
  have beside := weight_besideMedia l
  have system := systemUsage_total c l
  have rows := entryRows_total c entries s
  have tree : storageUsed s = weight Prod.snd (walked l entriesRoot) := by rw [storageUsed, h]
  simp only [storageRows, h]
  split
  · rw [weight_append, show weight StorageEntry.totalBytes [systemUsage c l] = _ from Nat.add_zero _]
    omega
  · omega

theorem mem_entryRows {f : FileEntry} (mem : f ∈ mediaFiles s) (has : hasRow entries f = true) :
    ∃ e, entryOf f = some e.id ∧ byId entries e.id = some e ∧
      entryRow c e (mediaFiles s) ∈ entryRows c entries (mediaFiles s) := by
  obtain ⟨e, found⟩ := Option.isSome_iff_exists.mp has
  obtain ⟨id, filed, isEntry⟩ := Option.bind_eq_some_iff.mp found
  obtain rfl := byId_id entries isEntry
  refine ⟨e, filed, isEntry, (entryRows_perm c entries _).mem_iff.mpr ?_⟩
  exact List.mem_filterMap.mpr ⟨e.id, mem_order.mpr ⟨f, mem, filed⟩, by rw [isEntry]; rfl⟩

theorem mem_storageRows {row : StorageEntry} (h : row ∈ entryRows c entries (mediaFiles s)) :
    row ∈ storageRows c entries s := by
  unfold storageRows
  split
  · split
    · exact List.mem_append_left _ h
    · exact h
  · exact h

/-- The line of a file in the row of its entry. -/
theorem exists_line {f : FileEntry} {e : Entry} (mem : f ∈ mediaFiles s)
    (filed : entryOf f = some e.id) : ∃ line ∈ (entryRow c e (mediaFiles s)).files,
      (line.label, line.name) = kindOf f ∧
      line.bytes = weight FileEntry.size ((mediaFiles s).filter fun g =>
        entryOf g = some e.id ∧ kindOf g = kindOf f) := by
  have mine : f ∈ filesOf e.id (mediaFiles s) := List.mem_filter.mpr ⟨mem, decide_eq_true filed⟩
  refine ⟨groupRow (filesOf e.id (mediaFiles s)) (kindOf f), ?_, rfl, ?_⟩
  · exact (fileRows_perm c e.id _).mem_iff.mpr
      (List.mem_map_of_mem (mem_keys.mpr ⟨f, mine, rfl⟩))
  · refine congrArg (weight FileEntry.size) ?_
    rw [group, filesOf, List.filter_filter]
    refine List.filter_congr fun g _ => ?_
    rw [← Bool.decide_and]
    exact decide_eq_decide.mpr and_comm

/-- The totals of the rows, in the order in which the entries are met. -/
theorem totals_perm : ((entryRows c entries (mediaFiles s)).map (·.totalBytes)).Perm
    ((order (mediaFiles s)).filterMap fun id => (byId entries id).map fun e =>
      weight FileEntry.size (filesOf e.id (mediaFiles s))) := by
  refine ((entryRows_perm c entries (mediaFiles s)).map (·.totalBytes)).trans (.of_eq ?_)
  rw [List.map_filterMap]
  refine List.filterMap_congr fun id _ => ?_
  rw [Option.map_map]
  exact congrFun (congrArg _ (funext fun e => entryRow_total c e _)) _

theorem totals_sorted :
    (entryRows c entries (mediaFiles s)).Pairwise fun a b => b.totalBytes ≤ a.totalBytes :=
  (c.entries.sorted _).imp fun less => by simpa using less

/-- The totals do not depend on the order in which maps are visited and equals are sorted. -/
theorem totals_unique (c' : Choices) : (storageRows c entries s).map (·.totalBytes) =
    (storageRows c' entries s).map (·.totalBytes) := by
  have same : (entryRows c entries (mediaFiles s)).map (·.totalBytes) =
      (entryRows c' entries (mediaFiles s)).map (·.totalBytes) :=
    ((totals_perm c entries s).trans (totals_perm c' entries s).symm).eq_of_pairwise
      (fun _ _ _ _ le ge => Nat.le_antisymm ge le) (List.pairwise_map.mpr (totals_sorted c entries s))
      (List.pairwise_map.mpr (totals_sorted c' entries s))
  have system (l : Local) : (systemUsage c l).totalBytes = (systemUsage c' l).totalBytes := by
    rw [systemUsage_total, systemUsage_total]
  unfold storageRows
  cases localOf s with
  | none => exact same
  | some l =>
    simp only [system l]
    split
    · rw [List.map_append, List.map_append, same, List.map_singleton, List.map_singleton, system l]
    · exact same

/-- Whatever Go chooses, the rows of the entries and the media files of no entry add up to what the
dashboard shows, and on a local driver all rows and those files to the usage of the driver. A file of
an entry is in one line of its row, beside the files of its kind, and the lines add up to the row.
The totals of the page are always the same, the greatest first. -/
theorem storage_accounted :
    storageUsed s = weight StorageEntry.totalBytes (entryRows c entries (mediaFiles s)) +
      weight FileEntry.size (skipped entries (mediaFiles s)) ∧
    (∀ l, localOf s = some l → (usageOf s).usedBytes =
      weight StorageEntry.totalBytes (storageRows c entries s) +
        weight FileEntry.size (skipped entries (mediaFiles s))) ∧
    (∀ f ∈ mediaFiles s, f ∉ skipped entries (mediaFiles s) → ∃ e row, e ∈ entries ∧
      entryOf f = some e.id ∧ row ∈ storageRows c entries s ∧ row.publicId = e.publicId ∧
      row.totalBytes = weight StorageEntryFile.bytes row.files ∧
      (row.files.map fun line => (line.label, line.name)).Nodup ∧
      ∃ line ∈ row.files, (line.label, line.name) = kindOf f ∧
        line.bytes = weight FileEntry.size ((mediaFiles s).filter fun g =>
          entryOf g = some e.id ∧ kindOf g = kindOf f)) ∧
    ((entryRows c entries (mediaFiles s)).Pairwise fun a b => b.totalBytes ≤ a.totalBytes) ∧
    ∀ c' : Choices, (storageRows c entries s).map (·.totalBytes) =
      (storageRows c' entries s).map (·.totalBytes) := by
  refine ⟨entryRows_total c entries s, fun l => storageRows_total c entries s, fun f mem shown => ?_,
    totals_sorted c entries s, totals_unique c entries s⟩
  have has : hasRow entries f = true := by
    by_contra absent
    exact shown (List.mem_filter.mpr ⟨mem, by simpa using absent⟩)
  obtain ⟨e, filed, isEntry, isRow⟩ := mem_entryRows c entries s mem has
  exact ⟨e, _, List.mem_reverse.mp (List.mem_of_find?_eq_some isEntry), filed,
    mem_storageRows c entries s isRow, rfl, rfl, nodup_fileRows c e.id _, exists_line c s mem filed⟩

end Accounted

section Pages
variable {out : List StorageEntry} {page limit : Int}

/-- The limit of a page. -/
def limitOf (limit : Int) : Int := if limit ≤ 0 ∨ 200 < limit then 50 else limit

theorem limitOf_bounds (limit : Int) : 1 ≤ limitOf limit ∧ limitOf limit ≤ 200 := by
  unfold limitOf
  split <;> omega

/-- Where the page starts. -/
def startOf (out : List StorageEntry) (page limit : Int) : Int :=
  let start := Api.Pages.offset page (limitOf limit)
  if start < 0 ∨ out.length < start then out.length else start

variable (out page limit) in
theorem startOf_bounds : 0 ≤ startOf out page limit ∧ startOf out page limit ≤ out.length := by
  unfold startOf
  dsimp only
  split <;> omega

/-- No page is outside the list, however far the product has wrapped. -/
theorem paginate_eq (h : 0 < page) : paginate out page limit =
    some (.page ((out.drop (startOf out page limit).toNat).take (limitOf limit).toNat)
      out.length page (limitOf limit)) := by
  have bounds := limitOf_bounds limit
  have start := startOf_bounds out page limit
  have step : paginate out page limit =
      (slice out (startOf out page limit)
        (if (out.length : Int) < startOf out page limit + limitOf limit then (out.length : Int)
          else startOf out page limit + limitOf limit)).map
        fun items => .page items out.length page (limitOf limit) := if_pos h
  rw [step, slice, if_pos (by split <;> omega), Option.map_some, List.drop_take]
  congr 2
  split
  next beyond =>
    rw [List.take_of_length_le, List.take_of_length_le]
    · rw [List.length_drop]
      omega
    · rw [List.length_drop]
      omega
  next within => congr 1; omega

/-- Where the page starts, while the product fits. -/
theorem drop_startOf (fits : (page - 1) * limitOf limit < 2 ^ 63) (h : 0 < page) :
    out.drop (startOf out page limit).toNat = out.drop ((page - 1) * limitOf limit).toNat := by
  have nonneg : 0 ≤ (page - 1) * limitOf limit :=
    Int.mul_nonneg (by omega) (by have := limitOf_bounds limit; omega)
  have same : Api.Pages.offset page (limitOf limit) = (page - 1) * limitOf limit :=
    Api.Pages.bmod_of_fits nonneg fits
  unfold startOf
  rw [same]
  dsimp only
  split
  · rw [List.drop_of_length_le (by omega), List.drop_of_length_le (by omega)]
  · rfl

/-- What a page shows; nothing where it panics. -/
def Answer.items : Option Answer → List StorageEntry
  | some (.all items) => items
  | some (.page items _ _ _) => items
  | none => []

theorem items_page {i : Nat} (fits : i * limitOf limit < 2 ^ 63) :
    Answer.items (paginate out (i + 1) limit) =
      (out.drop (i * (limitOf limit).toNat)).take (limitOf limit).toNat := by
  have bounds := limitOf_bounds limit
  have product : ((i : Int) + 1 - 1) * limitOf limit = i * limitOf limit := by rw [Int.add_sub_cancel]
  have index : ((i : Int) * limitOf limit).toNat = i * (limitOf limit).toNat := by
    rw [Int.toNat_mul (by omega) (by omega), Int.toNat_natCast]
  rw [paginate_eq (by omega)]
  change List.take _ (List.drop _ _) = _
  rw [drop_startOf (product.symm ▸ fits) (by omega), product, index]

/-- A request for a page is answered whatever it asks for, and the pages from the first on show the
rows of the list, each once. -/
theorem pages_cover (c : Choices) (entries : List Entry) (s : Store) (limit : Text) (n : Nat)
    (fits : n * limitOf (atoi limit) < 2 ^ 63) :
    (∀ page, (handleStorageFiles c entries s page limit).isSome) ∧
    (List.range n).flatMap (fun i =>
        Answer.items (handleStorageFiles c entries s (formatInt (i + 1 : Nat)) limit)) =
      (storageRows c entries s).take (n * (limitOf (atoi limit)).toNat) := by
  have bounds := limitOf_bounds (atoi limit)
  constructor
  · intro page
    unfold handleStorageFiles
    by_cases paged : 0 < atoi page
    · rw [paginate_eq paged]
      rfl
    · rw [paginate, if_neg paged]
      rfl
  · induction n with
    | zero => rw [Nat.zero_mul, List.take_zero]; rfl
    | succ n ih =>
      have less : (n : Int) * limitOf (atoi limit) ≤ (n + 1 : Nat) * limitOf (atoi limit) :=
        Int.mul_le_mul_of_nonneg_right (by omega) (by omega)
      have pages : ((n + 1 : Nat) : Int) * 1 ≤ (n + 1 : Nat) * limitOf (atoi limit) :=
        Int.mul_le_mul_of_nonneg_left bounds.1 (by omega)
      have number : atoi (formatInt (n + 1 : Nat)) = n + 1 := atoi_formatInt (by unfold cutoff; omega)
      rw [List.range_succ, List.flatMap_append, ih (by omega), List.flatMap_singleton,
        handleStorageFiles, number, items_page (by omega), Nat.succ_mul, List.take_add]

end Pages

section Keys
variable {id : Int}

/-- The names that the page takes for a source or a picture, wherever they are. -/
def special (name : Text) : Option Label :=
  if "original.".toList <+: name then some .source
  else if "poster.".toList <+: name ∨ "sprite.".toList <+: name then some .poster
  else none

/-- A file below the directory of an entry. -/
def below (id : Int) (dirs : List Text) (name : Text) : Text :=
  joinSlash ([entriesRoot, formatInt id] ++ dirs ++ [name])

theorem components_below {dirs : List Text} {name : Text} (segments : ∀ c ∈ dirs ++ [name], Segment c) :
    components (below id dirs name) = [entriesRoot, formatInt id] ++ dirs ++ [name] := by
  refine components_joinSlash _ (by simp) fun c mem => ?_
  rw [List.append_assoc] at mem
  rcases List.mem_append.mp mem with dir | own
  · exact (segments_entryDir id c dir).2
  · exact (segments c own).2

theorem entryOf_below {dirs : List Text} {name : Text} (segments : ∀ c ∈ dirs ++ [name], Segment c)
    (low : -(cutoff : Int) ≤ id) (high : id < cutoff) (size : Nat) :
    entryOf ⟨below id dirs name, size⟩ = some id := by
  unfold entryOf
  rw [components_below segments]
  cases dirs with
  | nil => exact parseInt_formatInt id low high
  | cons d rest => exact parseInt_formatInt id low high

/-- A special name decides, whatever the directory. -/
theorem classifyFile_special {dirs : List Text} {name : Text} {l : Label}
    (segments : ∀ c ∈ dirs ++ [name], Segment c) (h : special name = some l) :
    classifyFile (below id dirs name) = (l, []) := by
  simp only [classifyFile, components_below segments, List.getLastD_concat]
  unfold special at h
  split at h
  next original => rw [if_pos original, ← Option.some.inj h]
  next plain =>
    split at h
    next picture => rw [if_neg plain, if_pos picture, ← Option.some.inj h]
    · cases h

/-- Else the first directory decides. -/
theorem classifyFile_plain {dirs : List Text} {name : Text}
    (segments : ∀ c ∈ dirs ++ [name], Segment c) (h : special name = none) :
    classifyFile (below id dirs name) =
      if dirs.head? = some "flavors".toList then (.flavors, (dirs ++ [name]).getD 1 [])
      else if "/subs/".toList <:+: below id dirs name then (.subtitles, []) else (.other, []) := by
  simp only [classifyFile, components_below segments, List.getLastD_concat]
  unfold special at h
  split at h
  · cases h
  next plain =>
    split at h
    · cases h
    next noPicture =>
      rw [if_neg plain, if_neg noPicture]
      cases dirs with
      | nil => rfl
      | cons d rest => simp

/-- A directory `subs` stands between two names. -/
theorem infix_subs {key : Text} (h : "/subs/".toList <:+: key) :
    ∃ a b, components key = components a ++ "subs".toList :: components b := by
  obtain ⟨a, b, rfl⟩ := h
  refine ⟨a, b, ?_⟩
  rw [List.append_assoc, show "/subs/".toList ++ b = '/' :: ("subs".toList ++ '/' :: b) from rfl,
    components_append, components_append_slash _ _ (by decide)]

theorem not_infix_subs {name : Text} (segment : Segment name) :
    ¬ "/subs/".toList <:+: below id [] name := by
  intro inside
  obtain ⟨a, b, parts⟩ := infix_subs inside
  have key : components (below id [] name) = [entriesRoot, formatInt id, name] :=
    components_below (by simpa using segment)
  rw [key] at parts
  have left : components a ≠ [] := List.splitOn_ne_nil _ _
  have right : components b ≠ [] := List.splitOn_ne_nil _ _
  cases first : components a with
  | nil => exact left first
  | cons x rest =>
    rw [first] at parts
    cases rest with
    | nil =>
      have dir : formatInt id = "subs".toList := (List.cons.inj (List.cons.inj parts).2).1
      exact not_mem_formatInt id (c := 's') (by decide) (by decide) (dir ▸ by decide)
    | cons y rest =>
      have long := congrArg List.length parts
      have some_right := List.length_pos_of_ne_nil right
      simp only [List.length_cons, List.length_append, List.length_nil] at long
      omega

/-- The files that are stored for an entry. -/
inductive Piece where
  | original (ext : Text)
  | poster
  | sprite
  | master
  | playlist (flavor : Text)
  | segment (flavor name : Text)
  | subtitle (lang : Text)

def Piece.key (id : Int) : Piece → Text
  | .original ext => originalKey id ext
  | .poster => posterKey id
  | .sprite => spriteKey id
  | .master => masterKey id
  | .playlist flavor => flavorPlaylistKey id flavor
  | .segment flavor name => flavorSegmentKey id flavor name
  | .subtitle lang => Jobs.Master.subtitleKey id lang

/-- The names it is made of are single path segments. -/
def Piece.Plain : Piece → Prop
  | .original ext => '/' ∉ ext
  | .playlist flavor => Segment flavor
  | .segment flavor name => Segment flavor ∧ Segment name
  | _ => True

/-- The kind of file that it is. -/
def Piece.kind : Piece → Kind
  | .original _ => (.source, [])
  | .poster | .sprite => (.poster, [])
  | .master => (.other, [])
  | .playlist flavor | .segment flavor _ => (.flavors, flavor)
  | .subtitle _ => (.subtitles, [])

/-- The label that the name of a segment or of subtitles gives it, whatever it is. -/
def Piece.misnamed : Piece → Option Label
  | .segment _ name => special name
  | .subtitle lang => special (Jobs.Master.sanitizeLang lang ++ ".vtt".toList)
  | _ => none

/-- Where it is shown. Subtitles in a language called `poster` are taken for a picture. -/
def Piece.shownAs (p : Piece) : Kind :=
  match p.misnamed with
  | some l => (l, [])
  | none => p.kind

theorem special_cases {name : Text} {l : Label} (h : special name = some l) :
    l = .source ∨ l = .poster := by
  unfold special at h
  split at h
  · exact .inl (Option.some.inj h).symm
  · split at h
    · exact .inr (Option.some.inj h).symm
    · cases h

theorem Piece.shownAs_eq_kind_iff (p : Piece) : p.shownAs = p.kind ↔ p.misnamed = none := by
  unfold shownAs
  cases named : p.misnamed with
  | none => simp
  | some l =>
    refine ⟨fun same => ?_, nofun⟩
    have label := congrArg Prod.fst same
    cases p with
    | segment flavor name => rcases special_cases named with rfl | rfl <;> cases label
    | subtitle lang => rcases special_cases named with rfl | rfl <;> cases label
    | _ => cases named

theorem segments_flavor {flavor name : Text} (segments : Segment flavor ∧ Segment name) :
    ∀ c ∈ ["flavors".toList, flavor] ++ [name], Segment c := by
  intro c mem
  simp only [List.cons_append, List.nil_append, List.mem_cons, List.not_mem_nil, or_false] at mem
  rcases mem with rfl | rfl | rfl
  · decide
  · exact segments.1
  · exact segments.2

theorem classifyFile_flavor {flavor name : Text} (id : Int) (segments : Segment flavor ∧ Segment name) :
    flavorSegmentKey id flavor name = below id ["flavors".toList, flavor] name ∧
    classifyFile (flavorSegmentKey id flavor name) = (Piece.segment flavor name).shownAs := by
  have all := segments_flavor segments
  have key : flavorSegmentKey id flavor name = below id ["flavors".toList, flavor] name := by
    rw [flavorSegmentKey, flavorDir_eq id segments.1, join_below (by simp) (by simp)]
    · rfl
    · intro c mem
      rcases List.mem_append.mp (show c ∈ [entriesRoot, formatInt id] ++ ["flavors".toList, flavor] from mem)
        with dir | own
      · exact segments_entryDir id c dir
      · exact all c (List.mem_append_left _ own)
    · simpa using segments.2
  refine ⟨key, ?_⟩
  rw [key, Piece.shownAs, Piece.misnamed]
  cases h : special name with
  | some l => exact classifyFile_special all h
  | none =>
    rw [classifyFile_plain all h]
    exact if_pos rfl

/-- Every file of an entry is filed under the entry. -/
theorem Piece.filed {p : Piece} (id : Int) (plain : p.Plain) : classifyFile (p.key id) = p.shownAs ∧
    ∃ dirs name, (∀ c ∈ dirs ++ [name], Segment c) ∧ p.key id = below id dirs name := by
  cases p with
  | original ext =>
    obtain ⟨name, isSegment, original, -, key⟩ := Jobs.Master.originalKey_eq id plain
    have segments : ∀ c ∈ ([] : List Text) ++ [name], Segment c := by simpa using isSegment
    have isSource : special name = some .source := if_pos (List.isPrefixOf_iff_prefix.mp original)
    change classifyFile (originalKey id ext) = _ ∧ _
    refine ⟨?_, [], name, segments, key⟩
    rw [key]
    exact classifyFile_special segments isSource
  | poster =>
    have key : posterKey id = below id [] "poster.jpg".toList := by
      rw [posterKey, entryDir_eq, join_below (by simp) (by simp) (segments_entryDir id) (by decide)]
      rfl
    change classifyFile (posterKey id) = _ ∧ _
    exact ⟨key ▸ classifyFile_special (by decide) (by decide), [], _, by decide, key⟩
  | sprite =>
    have key : spriteKey id = below id [] "sprite.jpg".toList := by
      rw [spriteKey, entryDir_eq, join_below (by simp) (by simp) (segments_entryDir id) (by decide)]
      rfl
    change classifyFile (spriteKey id) = _ ∧ _
    exact ⟨key ▸ classifyFile_special (by decide) (by decide), [], _, by decide, key⟩
  | master =>
    have key : masterKey id = below id [] "master.m3u8".toList := Jobs.Master.masterKey_eq id
    change classifyFile (masterKey id) = _ ∧ _
    refine ⟨?_, [], _, by decide, key⟩
    rw [key, classifyFile_plain (by decide) (by decide), if_neg (by simp)]
    exact if_neg (not_infix_subs (by decide))
  | playlist flavor =>
    have segments : Segment flavor ∧ Segment "index.m3u8".toList := ⟨plain, by decide⟩
    obtain ⟨key, shown⟩ := classifyFile_flavor id segments
    exact ⟨shown, _, _, segments_flavor segments, key⟩
  | segment flavor name =>
    obtain ⟨key, shown⟩ := classifyFile_flavor id plain
    exact ⟨shown, _, _, segments_flavor plain, key⟩
  | subtitle lang =>
    obtain ⟨isSegment, key⟩ := Jobs.Master.subtitleKey_eq id lang
    have segments : ∀ c ∈ ["subs".toList] ++ [Jobs.Master.sanitizeLang lang ++ ".vtt".toList], Segment c := by
      intro c mem
      rcases List.mem_append.mp mem with dir | own
      · exact List.mem_singleton.mp dir ▸ (by decide : Segment "subs".toList)
      · exact List.mem_singleton.mp own ▸ isSegment
    replace key : Jobs.Master.subtitleKey id lang =
      below id ["subs".toList] (Jobs.Master.sanitizeLang lang ++ ".vtt".toList) := key
    change classifyFile (Jobs.Master.subtitleKey id lang) = _ ∧ _
    refine ⟨?_, _, _, segments, key⟩
    rw [key, Piece.shownAs, Piece.misnamed]
    cases h : special (Jobs.Master.sanitizeLang lang ++ ".vtt".toList) with
    | some l => exact classifyFile_special segments h
    | none =>
      rw [classifyFile_plain segments h, if_neg (by decide)]
      refine if_pos ⟨joinSlash [entriesRoot, formatInt id], Jobs.Master.sanitizeLang lang ++ ".vtt".toList, ?_⟩
      simp [below, joinSlash_cons, joinSlash_singleton]

/-- A stored file of an entry is counted in the row of the entry, in a line that is that of its kind
unless a segment or subtitles have the name of an original or of a picture. -/
theorem piece_shown (c : Choices) (entries : List Entry) (s : Store) {e : Entry} {p : Piece} {size : Nat}
    (isEntry : byId entries e.id = some e) (low : -(cutoff : Int) ≤ e.id) (high : e.id < cutoff)
    (plain : p.Plain) (stored : ⟨p.key e.id, size⟩ ∈ mediaFiles s) :
    ∃ row ∈ storageRows c entries s, row.publicId = e.publicId ∧
      ∃ line ∈ row.files, ((line.label, line.name) = p.kind ↔ p.misnamed = none) ∧
        kindOf ⟨p.key e.id, size⟩ = (line.label, line.name) ∧
        line.bytes = weight FileEntry.size ((mediaFiles s).filter fun f =>
          entryOf f = some e.id ∧ kindOf f = (line.label, line.name)) := by
  obtain ⟨kind, dirs, name, segments, key⟩ := Piece.filed e.id plain
  have filed : entryOf ⟨p.key e.id, size⟩ = some e.id := by
    rw [key]
    exact entryOf_below segments low high size
  have has : hasRow entries ⟨p.key e.id, size⟩ = true := by
    rw [hasRow, filed, Option.bind_some, isEntry]
    rfl
  obtain ⟨e', filed', isEntry', isRow⟩ := mem_entryRows c entries s stored has
  obtain rfl : e' = e := by
    rw [← Option.some.inj (filed.symm.trans filed')] at isEntry'
    exact Option.some.inj (isEntry'.symm.trans isEntry)
  obtain ⟨line, isLine, ofKind, bytes⟩ := exists_line c s stored filed
  refine ⟨_, mem_storageRows c entries s isRow, rfl, line, isLine, ?_, ofKind.symm, ?_⟩
  · rw [ofKind, ← p.shownAs_eq_kind_iff, ← kind]
    rfl
  · rw [bytes, ofKind]

end Keys

def firstMet : Choices where
  groups _ := ⟨id, .refl⟩
  flavorRows _ := Sorting.stable
    (fun a b c h h' => by
      simp only [Bool.not_not] at h h' ⊢
      exact Fallback.textLe_trans _ _ _ h h')
    (fun a b => by
      simp only [Bool.not_not]
      exact Fallback.textLe_total _ _)
  entries := Sorting.stable (by simp; omega) (by simp; omega)
  tops := ⟨id, .refl⟩

/-- A poster, a file of no entry and a log. -/
def threeFiles : Store := .local
  { root := ["disk".toList]
    rooted := by decide
    files := ⟨[⟨["entries".toList, "1".toList, "poster.jpg".toList], [0, 0, 0]⟩,
      ⟨["entries".toList, "2".toList, "original.mp4".toList], [0]⟩, ⟨["logs".toList, "a".toList], [0]⟩],
      by rw [List.NodupKeys]; decide⟩
    segments := by decide }

def firstEntry : Entry := ⟨1, "a".toList, [], "ready".toList⟩

theorem piece_shown_threeFiles : ∃ row ∈ storageRows firstMet [firstEntry] threeFiles,
    row.publicId = "a".toList ∧ ∃ line ∈ row.files, (line.label, line.name) = (.poster, []) := by
  obtain ⟨row, isRow, isEntry, line, isLine, ofKind, _⟩ :=
    piece_shown firstMet [firstEntry] threeFiles (e := firstEntry) (p := .poster) (by decide) (by decide)
      (by decide) trivial (by decide : (⟨Piece.poster.key 1, 3⟩ : FileEntry) ∈ mediaFiles threeFiles)
  exact ⟨row, isRow, isEntry, line, isLine, ofKind.mpr rfl⟩

theorem pages_cover_threeFiles : (List.range 2).flatMap (fun i => Answer.items
    (handleStorageFiles firstMet [firstEntry] threeFiles (formatInt (i + 1 : Nat)) "1".toList)) =
      (storageRows firstMet [firstEntry] threeFiles).take 2 :=
  (pages_cover firstMet [firstEntry] threeFiles "1".toList 2 (by decide)).2

end Vidsilo.Storage.Accounting
