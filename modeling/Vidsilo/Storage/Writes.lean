import Vidsilo.Storage.Drivers

/-!
# Writing to the drivers

Source: internal/store/local.go:44-65 (`Put`), internal/store/s3.go:47-55, and the programs that
jobs.go:642-652 (`flavorOutputDir`) lets write below the root of the local driver.
-/
namespace Vidsilo.Storage.Drivers
open Library.SlashPath Storage.Keys

theorem Local.segments_insert (l : Local) {p : FilePath} (bytes : Bytes)
    (named : p ≠ [] ∧ ∀ c ∈ p, Segment c) :
    ∀ q ∈ (l.files.insert p bytes).keys, q ≠ [] ∧ ∀ c ∈ q, Segment c := by
  intro q mem
  have mem : q ∈ l.files.insert p bytes := mem
  rcases (AList.mem_insert l.files).mp mem with rfl | old
  · exact named
  · exact l.segments q old

def Local.insert (l : Local) (p : FilePath) (bytes : Bytes) : Local :=
  if named : p ≠ [] ∧ ∀ c ∈ p, Segment c then
    { l with files := l.files.insert p bytes, segments := l.segments_insert bytes named }
  else l

def Local.put (key : Text) (bytes : Bytes) (l : Local) : Local :=
  match Local.pathForKey key with
  | none => l
  | some p => l.insert p bytes

/-- The directory below the root, as an absolute path. -/
def Local.tree (l : Local) (dir : Text) : List Text := cleanComponents true (l.root ++ components dir)

/-- A program creates a file in a directory below the root. -/
def Local.create (dir name : Text) (bytes : Bytes) (l : Local) : Local :=
  let path := l.tree dir ++ [name]
  if l.root <+: path then l.insert (path.drop l.root.length) bytes else l

/-- `os.RemoveAll`. -/
def Local.removeAll (dir : Text) (l : Local) : Local := l.keep fun p => ¬ l.tree dir <+: l.root ++ p

def emptyDisk : Driver :=
  .disk ⟨["media".toList], by decide, ∅, fun _ mem => absurd mem List.not_mem_nil⟩

def emptyBucket : Driver := .bucket ∅

def Driver.put (key : Text) (bytes : Bytes) : Driver → Driver
  | .disk l => .disk (l.put key bytes)
  | .bucket objects => .bucket (objects.insert key bytes)

/-- Nothing but the local driver has a directory. -/
def Driver.create (dir name : Text) (bytes : Bytes) : Driver → Driver
  | .disk l => .disk (l.create dir name bytes)
  | .bucket objects => .bucket objects

def Driver.removeAll (dir : Text) : Driver → Driver
  | .disk l => .disk (l.removeAll dir)
  | .bucket objects => .bucket objects

def Driver.isDisk : Driver → Bool
  | .disk _ => true
  | .bucket _ => false

def Driver.root : Driver → List Text
  | .disk l => l.root
  | .bucket _ => []

/-- The file is in the directory. -/
def Driver.Below (dir stored : Text) (d : Driver) : Prop :=
  d.isDisk = true ∧ cleanComponents true (d.root ++ components dir) <+: d.root ++ components stored

/-- The stored keys. -/
def Driver.Stores (d : Driver) (stored : Text) : Prop := d.lookup stored ≠ none

/-- The same driver: what differs is what it stores. -/
structure Driver.Same (d d' : Driver) : Prop where
  isDisk : d'.isDisk = d.isDisk
  root : d'.root = d.root

theorem Driver.Same.below {d d' : Driver} (h : d.Same d') {dir stored : Text}
    (below : d'.Below dir stored) : d.Below dir stored := by
  rw [Driver.Below, h.isDisk, h.root] at below
  exact below

theorem Driver.Same.symm {d d' : Driver} (h : d.Same d') : d'.Same d :=
  ⟨h.isDisk.symm, h.root.symm⟩

theorem Local.insert_root (l : Local) (p : FilePath) (bytes : Bytes) :
    (l.insert p bytes).root = l.root := by
  unfold Local.insert
  split
  · rfl
  · rfl

theorem lookup_insert_ne {l : Local} {p q : FilePath} (bytes : Bytes) (h : q ≠ p) :
    (l.insert p bytes).files.lookup q = l.files.lookup q := by
  unfold Local.insert
  split
  · exact AList.lookup_insert_ne h
  · rfl

theorem Driver.same_put (key : Text) (bytes : Bytes) (d : Driver) : d.Same (d.put key bytes) := by
  cases d with
  | disk l =>
    refine ⟨rfl, ?_⟩
    change (l.put key bytes).root = l.root
    unfold Local.put
    split
    · rfl
    · exact Local.insert_root l _ bytes
  | bucket objects => exact ⟨rfl, rfl⟩

theorem Driver.same_create (dir name : Text) (bytes : Bytes) (d : Driver) :
    d.Same (d.create dir name bytes) := by
  cases d with
  | disk l =>
    refine ⟨rfl, ?_⟩
    change (l.create dir name bytes).root = l.root
    unfold Local.create
    dsimp only
    split
    · exact Local.insert_root l _ bytes
    · rfl
  | bucket objects => exact ⟨rfl, rfl⟩

theorem Driver.same_removeAll (dir : Text) (d : Driver) : d.Same (d.removeAll dir) := by
  cases d with
  | _ => exact ⟨rfl, rfl⟩

theorem Driver.same_delete (key : Text) (d : Driver) : d.Same (d.delete key) := by
  cases d with
  | disk l =>
    refine ⟨rfl, ?_⟩
    change (l.delete key).root = l.root
    unfold Local.delete
    split
    · rfl
    · rfl
  | bucket objects => exact ⟨rfl, rfl⟩

theorem Driver.same_removeTree (treePrefix : Text) (d : Driver) : d.Same (d.removeTree treePrefix) := by
  cases d with
  | disk l =>
    refine ⟨rfl, ?_⟩
    change (l.removeTree treePrefix).root = l.root
    unfold Local.removeTree
    split
    · rfl
    · rfl
  | bucket objects => exact ⟨rfl, rfl⟩

/-- A `Put` changes nothing but its key. -/
theorem Driver.lookup_put {d : Driver} {key stored : Text} (bytes : Bytes)
    (other : d.resolve key ≠ some stored) : (d.put key bytes).lookup stored = d.lookup stored := by
  cases d with
  | disk l =>
    change (l.put key bytes).files.lookup (components stored) = _
    unfold Local.put
    split
    · rfl
    next p isPath =>
      apply lookup_insert_ne
      rintro rfl
      apply other
      simp only [Driver.resolve, isPath, Option.map_some, joinSlash_components]
  | bucket objects =>
    exact AList.lookup_insert_ne fun same => other (congrArg some same.symm)

/-- A program changes nothing outside of its directory. -/
theorem Driver.lookup_create {d : Driver} {dir stored : Text} (name : Text) (bytes : Bytes)
    (outside : ¬ d.Below dir stored) : (d.create dir name bytes).lookup stored = d.lookup stored := by
  cases d with
  | disk l =>
    change (l.create dir name bytes).files.lookup (components stored) = _
    unfold Local.create
    dsimp only
    split
    next inside =>
      apply lookup_insert_ne
      intro same
      obtain ⟨p, isPath⟩ := inside
      rw [← isPath, List.drop_left] at same
      refine outside ⟨rfl, ?_⟩
      change l.tree dir <+: l.root ++ components stored
      rw [same, isPath]
      exact List.prefix_append _ _
    · rfl
  | bucket objects => rfl

theorem Driver.lookup_removeAll {d : Driver} {dir stored : Text} (outside : ¬ d.Below dir stored) :
    (d.removeAll dir).lookup stored = d.lookup stored := by
  cases d with
  | disk l =>
    have kept : ¬ l.tree dir <+: l.root ++ components stored := fun inside => outside ⟨rfl, inside⟩
    change (l.removeAll dir).files.lookup (components stored) = _
    rw [Local.removeAll, lookup_keep, if_pos (decide_eq_true kept)]
    rfl
  | bucket objects => rfl

theorem Driver.stored_put {d : Driver} {key stored : Text} {bytes : Bytes}
    (h : (d.put key bytes).Stores stored) : d.Stores stored ∨ d.resolve key = some stored := by
  by_cases own : d.resolve key = some stored
  · exact .inr own
  · rw [Driver.Stores, Driver.lookup_put bytes own] at h
    exact .inl h

theorem Driver.stored_create {d : Driver} {dir name stored : Text} {bytes : Bytes}
    (h : (d.create dir name bytes).Stores stored) : d.Stores stored ∨ d.Below dir stored := by
  by_cases below : d.Below dir stored
  · exact .inr below
  · rw [Driver.Stores, Driver.lookup_create name bytes below] at h
    exact .inl h

theorem Driver.stored_removeAll {d : Driver} {dir stored : Text}
    (h : (d.removeAll dir).Stores stored) : d.Stores stored ∧ ¬ d.Below dir stored := by
  by_cases below : d.Below dir stored
  · cases d with
    | disk l =>
      refine absurd ?_ h
      change (l.removeAll dir).files.lookup (components stored) = none
      rw [Local.removeAll, lookup_keep, if_neg]
      exact fun kept => of_decide_eq_true kept below.2
    | bucket objects => cases below.1
  · rw [Driver.Stores, Driver.lookup_removeAll below] at h
    exact ⟨h, below⟩

theorem Driver.stored_delete {d : Driver} {key stored : Text} (h : (d.delete key).Stores stored) :
    d.Stores stored ∧ d.resolve key ≠ some stored := by
  rw [Driver.Stores, Driver.lookup_delete] at h
  split at h
  · exact absurd rfl h
  next other => exact ⟨h, other⟩

theorem Driver.stored_removeTree {d : Driver} {treePrefix stored : Text}
    (h : (d.removeTree treePrefix).Stores stored) : d.Stores stored := by
  by_cases same : (d.removeTree treePrefix).lookup stored = d.lookup stored
  · exact fun none => h (same.trans none)
  · exact absurd (Driver.lookup_removeTree d treePrefix stored same).1 h

/-- The file is below the directory; in a bucket, its text goes on from the directory's. -/
def Driver.Reaches (dir : List Text) (stored : Text) : Driver → Prop
  | .disk _ => dir <+: components stored
  | .bucket _ => joinSlash dir <+: stored

section Directories

variable {dir : List Text} {d : Driver} {stored : Text}

theorem Local.clean_below (l : Local) (h : ∀ c ∈ dir, Segment c) :
    cleanComponents true (l.root ++ dir) = l.root ++ dir := by
  apply Spells.clean
  apply spells_self
  intro c mem
  rcases List.mem_append.mp mem with root | mem
  · exact l.rooted c root
  · exact (h c mem).1

theorem Local.tree_joinSlash (l : Local) (hne : dir ≠ []) (h : ∀ c ∈ dir, Segment c) :
    l.tree (joinSlash dir) = l.root ++ dir := by
  rw [Local.tree, components_joinSlash dir hne fun c mem => (h c mem).2, l.clean_below h]

theorem Driver.reaches_of_below (hne : dir ≠ []) (below : dir <+: components stored) :
    d.Reaches dir stored := by
  cases d with
  | disk l => exact below
  | bucket objects =>
    obtain ⟨rest, isPath⟩ := below
    change joinSlash dir <+: stored
    rw [← joinSlash_components stored, ← isPath]
    by_cases last : rest = []
    · rw [last, List.append_nil]
    · rw [joinSlash_append hne last]
      exact List.prefix_append _ _

theorem Driver.reaches_of_same {d d' : Driver} (h : d.Same d') (reaches : d'.Reaches dir stored) :
    d.Reaches dir stored := by
  have isDisk := h.isDisk
  cases d with
  | disk l =>
    cases d' with
    | disk l' => exact reaches
    | bucket objects => cases isDisk
  | bucket objects =>
    cases d' with
    | disk l' => cases isDisk
    | bucket objects => exact reaches

theorem Driver.resolve_same {d d' : Driver} (h : d.Same d') : d'.resolve = d.resolve := by
  have isDisk := h.isDisk
  cases d with
  | disk l =>
    cases d' with
    | disk l' => rfl
    | bucket objects => cases isDisk
  | bucket objects =>
    cases d' with
    | disk l' => cases isDisk
    | bucket objects => rfl

theorem Driver.resolve_bucket {d : Driver} (isBucket : d.isDisk = false) (key : Text) :
    d.resolve key = some key := by
  cases d with
  | disk l => cases isBucket
  | bucket objects => rfl

theorem Driver.below_joinSlash (hne : dir ≠ []) (h : ∀ c ∈ dir, Segment c)
    (below : d.Below (joinSlash dir) stored) : d.Reaches dir stored := by
  cases d with
  | disk l =>
    have inside : l.tree (joinSlash dir) <+: l.root ++ components stored := below.2
    rw [l.tree_joinSlash hne h] at inside
    exact (List.prefix_append_right_inj l.root).mp inside
  | bucket objects => cases below.1

/-- A program creates the one file. -/
theorem Driver.lookup_create_ne {name : Text} (bytes : Bytes) (hne : dir ≠ [])
    (h : ∀ c ∈ dir, Segment c) (other : stored ≠ joinSlash (dir ++ [name])) :
    (d.create (joinSlash dir) name bytes).lookup stored = d.lookup stored := by
  cases d with
  | disk l =>
    change (l.create (joinSlash dir) name bytes).files.lookup (components stored) = _
    unfold Local.create
    rw [l.tree_joinSlash hne h, List.append_assoc]
    dsimp only
    rw [if_pos (List.prefix_append _ _), List.drop_left]
    apply lookup_insert_ne
    intro same
    apply other
    rw [← same, joinSlash_components]
  | bucket objects => rfl

/-- The listing of a directory. -/
theorem Driver.mem_list_joinSlash (hne : dir ≠ []) (h : ∀ c ∈ dir, Segment c) :
    stored ∈ d.list (joinSlash dir) ↔ d.Stores stored ∧ d.Reaches dir stored := by
  rw [Driver.mem_list]
  cases d with
  | disk l =>
    simp only [Driver.Selects, trimSlash_joinSlash hne h,
      components_joinSlash dir hne fun c mem => (h c mem).2, l.clean_below h,
      List.prefix_append_right_inj]
    constructor
    · rintro ⟨p, mem, isKey, below⟩
      have isPath : components stored = p := by
        rw [isKey]
        exact components_joinSlash p (l.segments p mem).1 fun c m => ((l.segments p mem).2 c m).2
      constructor
      · change l.files.lookup (components stored) ≠ none
        rw [isPath, ← Option.isSome_iff_ne_none]
        exact AList.lookup_isSome.mpr mem
      · change dir <+: components stored
        rw [isPath]
        exact below
    · rintro ⟨stores, below⟩
      refine ⟨components stored, ?_, (joinSlash_components stored).symm, below⟩
      have stores : l.files.lookup (components stored) ≠ none := stores
      rw [← Option.isSome_iff_ne_none] at stores
      exact AList.lookup_isSome.mp stores
  | bucket objects =>
    simp only [Driver.Selects, trimSlash_joinSlash hne h, Driver.Reaches]
    refine and_congr_left fun _ => ?_
    change _ ↔ objects.lookup stored ≠ none
    rw [← Option.isSome_iff_ne_none, AList.lookup_isSome]
    rfl

/-- The local driver removes the whole tree, unless it takes a name for a traversal. -/
theorem Driver.removeTree_joinSlash (isDisk : d.isDisk = true) (hne : dir ≠ [])
    (h : ∀ c ∈ dir, Segment c) (dots : ∀ c ∈ dir, ¬ dotdot <:+: c) (reaches : d.Reaches dir stored) :
    ¬ (d.removeTree (joinSlash dir)).Stores stored := by
  cases d with
  | bucket objects => cases isDisk
  | disk l =>
    have isPath : Local.pathForKey (trimSlash (joinSlash dir)) = some dir := by
      rw [trimSlash_joinSlash hne h, pathForKey_iff,
        components_joinSlash dir hne fun c mem => (h c mem).2]
      exact ⟨head_joinSlash hne h, spells_self dir fun c mem => (h c mem).1, hne, dots⟩
    have reaches : dir <+: components stored := reaches
    intro stores
    have stores : (l.removeTree (joinSlash dir)).files.lookup (components stored) ≠ none := stores
    rw [Local.removeTree, isPath] at stores
    simp [lookup_keep, reaches] at stores

/-- A stored key leads nowhere else. -/
theorem Driver.resolve_stored {key : Text} (stores : d.Stores key)
    (h : d.resolve key = some stored) : stored = key := by
  cases d with
  | disk l =>
    have stores : l.files.lookup (components key) ≠ none := stores
    rw [← Option.isSome_iff_ne_none] at stores
    obtain ⟨hne, segments⟩ := l.segments _ (AList.lookup_isSome.mp stores)
    obtain ⟨p, isPath, rfl⟩ := Option.map_eq_some_iff.mp h
    rw [← joinSlash_components key] at isPath
    rw [pathForKey_joinSlash hne segments isPath, joinSlash_components]
  | bucket objects => exact (Option.some.inj h).symm

end Directories

end Vidsilo.Storage.Drivers
