import Mathlib.Data.List.AList
import Mathlib.Data.List.Dedup
import Vidsilo.Storage.Keys

/-!
# Storage drivers: what a listing reports and what a deletion removes

Source: internal/store/local.go:32-161, s3.go:203-229, cache.go:54-57,209-241,
fallback.go:80-113, usage.go:57-69. A local driver is the tree of files below its
root, an S3 driver the objects of its bucket. A prefix is a directory for the
first and a raw text for the second (`Local.list`, `Bucket.list`).
I/O failures, empty directories and files outside a root are not modelled: none of
them is a stored key. The cache's directory and index are kept beside its backend.
-/
namespace Vidsilo.Storage.Drivers
open Library.SlashPath Keys

abbrev Bytes := List UInt8

/-- `ErrNotFound`, and every other error of a driver. -/
inductive StoreError where
  | notFound | failed
  deriving DecidableEq, Repr

def found {α : Type} (o : Option α) : Except StoreError α :=
  match o with
  | some a => .ok a
  | none => .error .notFound

/-- A file below the root, outermost directory first. -/
abbrev FilePath := List Text

structure Local where
  /-- Components of the root directory, an absolute path. -/
  root : List Text
  rooted : ∀ c ∈ root, Named c
  files : AList fun _ : FilePath => Bytes
  segments : ∀ p ∈ files.keys, p ≠ [] ∧ ∀ c ∈ p, Segment c

/-- `pathForKey`: the components that the driver joins to its root. -/
def Local.pathForKey (key : Text) : Option FilePath :=
  if key = [] ∨ key.head? = some '/' then none
  else
    let cleaned := clean key
    if cleaned = dot ∨ dotdot <:+: cleaned then none else some (components cleaned)

def Local.keep (l : Local) (p : FilePath → Bool) : Local where
  root := l.root
  rooted := l.rooted
  files := ⟨l.files.entries.filter fun f => p f.1, l.files.nodupKeys.sublist List.filter_sublist⟩
  segments := fun q hq => l.segments q ((List.Sublist.map _ List.filter_sublist).subset hq)

def Local.delete (l : Local) (key : Text) : Local :=
  match Local.pathForKey key with
  | none => l
  | some p => l.keep (· ≠ p)

def Local.removeTree (l : Local) (treePrefix : Text) : Local :=
  match Local.pathForKey (trimSlash treePrefix) with
  | none => l
  | some p => l.keep fun q => ¬ p <+: q

/-- The walk starts at `filepath.Join(root, prefix)`, which may climb above the root. -/
def Local.list (l : Local) (listPrefix : Text) : List Text :=
  let base := cleanComponents true (l.root ++ components (trimSlash listPrefix))
  (l.files.keys.filter fun p => base <+: l.root ++ p).map joinSlash

abbrev Bucket := AList fun _ : Text => Bytes

def Bucket.list (objects : Bucket) (listPrefix : Text) : List Text :=
  objects.keys.filter fun k => trimSlash listPrefix <+: k

/-- Whether a listing of the prefix reports the key. -/
def Local.selects (root : List Text) (listPrefix key : Text) : Bool :=
  cleanComponents true (root ++ components (trimSlash listPrefix)) <+: root ++ components key

def Bucket.selects (listPrefix key : Text) : Bool := trimSlash listPrefix <+: key

theorem Local.list_eq (l : Local) (listPrefix : Text) :
    l.list listPrefix = (l.files.keys.map joinSlash).filter (Local.selects l.root listPrefix) := by
  rw [List.filter_map]
  change List.map joinSlash (l.files.keys.filter _) = _
  congr 1
  refine List.filter_congr fun p mem => ?_
  have segments := l.segments p mem
  simp only [Function.comp_apply, Local.selects,
    components_joinSlash p segments.1 fun c inPath => (segments.2 c inPath).2]

theorem Bucket.list_eq (objects : Bucket) (listPrefix : Text) :
    Bucket.list objects listPrefix = objects.keys.filter (Bucket.selects listPrefix) := rfl

structure CacheEntry where
  key : Text
  size : Int
  deriving DecidableEq, Repr

structure Cache where
  root : List Text
  files : AList fun _ : List Text => Bytes
  size : Int
  /-- Keys of the index map. -/
  entries : List Text
  /-- Front first: most recently used. -/
  lru : List CacheEntry

def Cache.pathForKey (c : Cache) (key : Text) : List Text :=
  cleanComponents true
    (c.root ++ components (if ['/'].isPrefixOf key then key.drop 1 else key))

def Cache.removeLocked (c : Cache) (key : Text) : Cache :=
  if key ∈ c.entries then
    { c with
      lru := c.lru.eraseP (·.key = key)
      entries := c.entries.erase key
      size := c.size - ((c.lru.find? (·.key = key)).map CacheEntry.size).getD 0 }
  else c

def Cache.removeFile (c : Cache) (key : Text) : Cache :=
  { c with files := c.files.erase (c.pathForKey key) }

inductive Store where
  | local (l : Local)
  | s3 (objects : Bucket)
  | cache (backend : Store) (c : Cache)
  | fallback (primary legacy : Store)

def Store.delete (key : Text) : Store → Store
  | .local l => .local (l.delete key)
  | .s3 objects => .s3 (objects.erase key)
  | .cache backend c => .cache (backend.delete key) ((c.removeLocked key).removeFile key)
  | .fallback primary legacy => .fallback (primary.delete key) (legacy.delete key)

/-- The order of `sort.Strings`. -/
def textLe (a b : Text) : Bool := ! List.lex b a fun x y => decide (x < y)

def Store.list (listPrefix : Text) : Store → List Text
  | .local l => l.list listPrefix
  | .s3 objects => objects.list listPrefix
  | .cache backend _ => backend.list listPrefix
  | .fallback primary legacy =>
    ((primary.list listPrefix ++ legacy.list listPrefix).dedup).mergeSort textLe

/-- An operation on the driver that `LocalOf` finds, nothing when it finds none. -/
def Store.modifyLocalOf (f : Local → Local) : Store → Store
  | .local l => .local (f l)
  | .s3 objects => .s3 objects
  | .cache backend c => .cache (backend.modifyLocalOf f) c
  | .fallback primary legacy => .fallback (primary.modifyLocalOf f) legacy

/-- An operation behind the type assertion `store.(*store.Local)`. -/
def Store.modifyBare (f : Local → Local) : Store → Store
  | .local l => .local (f l)
  | other => other

inductive Driver where
  | disk (l : Local)
  | bucket (objects : Bucket)

def Store.drivers : Store → List Driver
  | .local l => [.disk l]
  | .s3 objects => [.bucket objects]
  | .cache backend _ => backend.drivers
  | .fallback primary legacy => primary.drivers ++ legacy.drivers

/-- The bytes stored under a key. -/
def Driver.lookup : Driver → Text → Option Bytes
  | .disk l, key => l.files.lookup (components key)
  | .bucket objects, key => objects.lookup key

def Driver.delete (key : Text) : Driver → Driver
  | .disk l => .disk (l.delete key)
  | .bucket objects => .bucket (objects.erase key)

def Driver.list (listPrefix : Text) : Driver → List Text
  | .disk l => l.list listPrefix
  | .bucket objects => objects.list listPrefix

def Driver.removeTree (treePrefix : Text) : Driver → Driver
  | .disk l => .disk (l.removeTree treePrefix)
  | .bucket objects => .bucket objects

/-- The stored key that a call with `key` reaches. -/
def Driver.resolve : Driver → Text → Option Text
  | .disk _, key => (Local.pathForKey key).map joinSlash
  | .bucket _, key => some key

theorem pathForKey_eq_some {key : Text} {p : FilePath} (h : Local.pathForKey key = some p) :
    Spells p (components key) ∧ p ≠ [] := by
  unfold Local.pathForKey at h
  split at h
  · cases h
  next hkey =>
    simp only [not_or] at hkey
    have hroot : (key.head? == some '/') = false := by simpa using hkey.2
    dsimp only at h
    split at h
    · cases h
    next hclean =>
      simp only [not_or] at hclean
      have hout : clean key = joinSlash (cleanComponents false (components key)) := by
        by_cases hnil : joinSlash (cleanComponents false (components key)) = []
        · exact absurd (by simp [clean, hroot, hnil]) hclean.1
        · simp [clean, hroot, hnil]
      have hdots : dotdot ∉ cleanComponents false (components key) := by
        intro hm
        apply hclean.2
        rw [hout, infix_joinSlash_iff (by decide) (by decide)]
        exact ⟨dotdot, hm, List.infix_rfl⟩
      have hspells := spells_of_clean (components key) hdots
      have hne : cleanComponents false (components key) ≠ [] := by
        intro hnil
        rw [hnil] at hout
        exact hclean.1 (by simp [clean, hroot, hnil, joinSlash])
      have hslash : ∀ c ∈ cleanComponents false (components key), '/' ∉ c :=
        fun c hc => slash_not_mem_components key c (hspells.mem c hc)
      rw [hout, components_joinSlash _ hne hslash, Option.some.injEq] at h
      subst h
      exact ⟨hspells, hne⟩

/-- The keys that the local driver accepts, and the file it makes of them: the key
spells the file from the root, and no name on the way holds two dots. -/
theorem pathForKey_iff (key : Text) (p : FilePath) :
    Local.pathForKey key = some p ↔
      key.head? ≠ some '/' ∧ Spells p (components key) ∧ p ≠ [] ∧ ∀ c ∈ p, ¬ dotdot <:+: c := by
  constructor
  · intro h
    obtain ⟨hs, hne⟩ := pathForKey_eq_some h
    unfold Local.pathForKey at h
    split at h
    · cases h
    next hkey =>
      simp only [not_or] at hkey
      dsimp only at h
      split at h
      · cases h
      next hclean =>
        simp only [not_or] at hclean
        rw [clean_of_spells hkey.2 hne hs, infix_joinSlash_iff (by decide) (by decide)] at hclean
        exact ⟨hkey.2, hs, hne, fun c hc hi => hclean.2 ⟨c, hc, hi⟩⟩
  · rintro ⟨hhead, hs, hne, hdots⟩
    have hkey : ¬ (key = [] ∨ key.head? = some '/') := by
      rintro (rfl | h)
      · obtain ⟨c, cs, rfl⟩ := List.exists_cons_of_ne_nil hne
        have hm := hs.mem c (by simp)
        simp only [components, List.splitOn_nil, List.mem_singleton] at hm
        exact (hs.named c (by simp)).1 hm
      · exact hhead h
    have hslash : ∀ c ∈ p, '/' ∉ c := fun c hc => slash_not_mem_components key c (hs.mem c hc)
    have hclean : clean key = joinSlash p := clean_of_spells hhead hne hs
    have hok : ¬ (joinSlash p = dot ∨ dotdot <:+: joinSlash p) := by
      rintro (h | h)
      · have hcs := components_joinSlash p hne hslash
        rw [h] at hcs
        have hd : Named dot := hs.named dot (by rw [← hcs]; decide)
        exact hd.2.1 rfl
      · obtain ⟨c, hc, hi⟩ := (infix_joinSlash_iff (by decide) (by decide) p).mp h
        exact hdots c hc hi
    simp only [Local.pathForKey, if_neg hkey, hclean, if_neg hok,
      components_joinSlash p hne hslash]

theorem pathForKey_segments {key : Text} {p : FilePath} (h : Local.pathForKey key = some p) :
    ∀ c ∈ p, Segment c := by
  obtain ⟨_, hs, _, _⟩ := (pathForKey_iff key p).mp h
  exact fun c hc => ⟨hs.named c hc, slash_not_mem_components key c (hs.mem c hc)⟩

/-- A stored file is reached by its own key, if by any. -/
theorem pathForKey_joinSlash {p q : FilePath} (hne : p ≠ []) (h : ∀ c ∈ p, Segment c)
    (hq : Local.pathForKey (joinSlash p) = some q) : q = p := by
  obtain ⟨_, hs, _, _⟩ := (pathForKey_iff _ _).mp hq
  rw [components_joinSlash p hne (fun c hc => (h c hc).2)] at hs
  exact hs.unique (spells_self p (fun c hc => (h c hc).1))

theorem lookup_keep (l : Local) (keep : FilePath → Bool) (p : FilePath) :
    (l.keep keep).files.lookup p = if keep p then l.files.lookup p else none := by
  apply Option.ext
  intro b
  have hmem := List.mem_dlookup_iff (a := p) (b := b) l.files.nodupKeys
  have hkeep := List.mem_dlookup_iff (a := p) (b := b) (l.keep keep).files.nodupKeys
  simp only [AList.lookup, ← Option.mem_def] at *
  rw [hkeep]
  by_cases hp : keep p
  · simp [hp, Local.keep, hmem]
  · simp [hp, Local.keep]

/-- A deletion empties the one key it resolves to. -/
theorem Driver.lookup_delete (d : Driver) (key stored : Text) :
    (d.delete key).lookup stored = if d.resolve key = some stored then none
      else d.lookup stored := by
  cases d with
  | disk l =>
    cases hp : Local.pathForKey key with
    | none => simp [Driver.delete, Driver.lookup, Driver.resolve, Local.delete, hp]
    | some p =>
      have hseg := pathForKey_segments hp
      have hne : p ≠ [] := (pathForKey_eq_some hp).2
      have heq : joinSlash p = stored ↔ components stored = p := by
        constructor
        · rintro rfl
          exact components_joinSlash p hne (fun c hc => (hseg c hc).2)
        · rintro rfl
          exact joinSlash_components stored
      simp only [Driver.delete, Driver.lookup, Driver.resolve, Local.delete, hp, lookup_keep,
        Option.map_some, Option.some.injEq, heq]
      by_cases hc : components stored = p <;> simp [hc]
  | bucket objects =>
    simp only [Driver.delete, Driver.lookup, Driver.resolve, Option.some.injEq]
    by_cases hk : key = stored
    · subst hk
      simp
    · rw [if_neg hk, AList.lookup_erase_ne (fun e => hk e.symm)]

@[simp] theorem Driver.resolve_delete (d : Driver) (key : Text) :
    (d.delete key).resolve = d.resolve := by
  cases d <;> rfl

theorem Driver.lookup_deleteAll (keys : List Text) (d : Driver) (stored : Text) :
    (keys.foldl (fun d key => d.delete key) d).lookup stored =
      if ∃ key ∈ keys, d.resolve key = some stored then none else d.lookup stored := by
  induction keys generalizing d with
  | nil => simp
  | cons key rest ih =>
    rw [List.foldl_cons, ih, Driver.resolve_delete, Driver.lookup_delete]
    by_cases hk : d.resolve key = some stored
    · simp [hk]
    · simp [hk]

/-- Removing a tree empties exactly the keys of the files below it. -/
theorem Driver.lookup_removeTree (d : Driver) (treePrefix stored : Text)
    (h : (d.removeTree treePrefix).lookup stored ≠ d.lookup stored) :
    (d.removeTree treePrefix).lookup stored = none ∧
      ∃ p, Local.pathForKey (trimSlash treePrefix) = some p ∧ p <+: components stored := by
  cases d with
  | disk l =>
    cases hp : Local.pathForKey (trimSlash treePrefix) with
    | none => exact absurd (by simp [Driver.removeTree, Local.removeTree, hp]) h
    | some p =>
      simp only [Driver.removeTree, Driver.lookup, Local.removeTree, hp, lookup_keep] at h ⊢
      by_cases hc : p <+: components stored
      · exact ⟨by simp [hc], p, rfl, hc⟩
      · exact absurd (by simp [hc]) h
  | bucket objects => exact absurd rfl h

/-- A prefix selects, on disk, the files at or below the directory it leads to and,
in a bucket, every key that starts with its text. -/
def Driver.Selects (listPrefix : Text) : Driver → Text → Prop
  | .disk l, key => ∃ p ∈ l.files.keys, key = joinSlash p ∧
      cleanComponents true (l.root ++ components (trimSlash listPrefix)) <+: l.root ++ p
  | .bucket objects, key => key ∈ objects.keys ∧ trimSlash listPrefix <+: key

theorem Driver.mem_list (listPrefix key : Text) (d : Driver) :
    key ∈ d.list listPrefix ↔ d.Selects listPrefix key := by
  cases d with
  | disk l =>
    simp only [Driver.list, Local.list, Driver.Selects, List.mem_map, List.mem_filter,
      decide_eq_true_eq]
    constructor
    · rintro ⟨p, ⟨hp, hbase⟩, rfl⟩
      exact ⟨p, hp, rfl, hbase⟩
    · rintro ⟨p, hp, rfl, hbase⟩
      exact ⟨p, ⟨hp, hbase⟩, rfl⟩
  | bucket objects => simp [Driver.list, Bucket.list, Driver.Selects]

theorem Store.drivers_delete (key : Text) (s : Store) :
    (s.delete key).drivers = s.drivers.map (Driver.delete key) := by
  induction s with
  | «local» l => rfl
  | s3 objects => rfl
  | cache backend c ih => exact ih
  | fallback primary legacy ihp ihl => simp [Store.delete, Store.drivers, ihp, ihl]

theorem Store.mem_list (listPrefix : Text) (s : Store) (key : Text) :
    key ∈ s.list listPrefix ↔ ∃ d ∈ s.drivers, key ∈ d.list listPrefix := by
  induction s with
  | «local» l => simp [Store.list, Store.drivers, Driver.list]
  | s3 objects => simp [Store.list, Store.drivers, Driver.list]
  | cache backend c ih => exact ih
  | fallback primary legacy ihp ihl =>
    simp only [Store.list, Store.drivers, List.mem_mergeSort, List.mem_dedup, List.mem_append,
      ihp, ihl, or_and_right, exists_or]

/-- `LocalOf` finds the first driver, or none. -/
theorem Store.drivers_modifyLocalOf (treePrefix : Text) (s : Store) :
    (s.modifyLocalOf (·.removeTree treePrefix)).drivers =
      s.drivers.modifyHead (Driver.removeTree treePrefix) := by
  have hne : ∀ s : Store, s.drivers ≠ [] := by
    intro s
    induction s with
    | «local» l => simp [Store.drivers]
    | s3 objects => simp [Store.drivers]
    | cache backend c ih => exact ih
    | fallback primary legacy ihp _ => simp [Store.drivers, ihp]
  induction s with
  | «local» l => rfl
  | s3 objects => rfl
  | cache backend c ih => exact ih
  | fallback primary legacy ihp _ =>
    simp only [Store.modifyLocalOf, Store.drivers, ihp]
    obtain ⟨d, ds, hd⟩ := List.exists_cons_of_ne_nil (hne primary)
    simp [hd]

end Vidsilo.Storage.Drivers
