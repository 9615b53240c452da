import Vidsilo.Storage.Drivers

/-!
# One prefix, two drivers

Source: internal/store/local.go:137-161 (`List`), s3.go:210-229 (`List`), usage.go:113-221
(`ListSizes`). The walk of the local driver starts at the path that the prefix cleans to, and fails
where a file is on the way; a bucket compares texts. Here the disk has other files than those of the
store. Limits of the operating system on names are left out.
-/
namespace Vidsilo.Storage.Listings
open Library.SlashPath Keys Drivers

structure FileEntry where
  key : Text
  size : Nat
  deriving DecidableEq, Repr

/-- The store's files below its root, and the other files of the disk under their absolute paths. -/
structure Disk where
  store : Local
  others : AList fun _ : FilePath => Bytes
  named : ∀ f ∈ others.keys, ∀ c ∈ f, Segment c
  outside : ∀ f ∈ others.keys, ¬ store.root <+: f ∧ ¬ f <+: store.root
  /-- No file is a directory of another. -/
  apart : ∀ p ∈ store.files.keys, ∀ q ∈ store.files.keys, p <+: q → p = q

/-- `filepath.Rel` on absolute paths. -/
def rel : List Text → FilePath → FilePath
  | [], path => path
  | root, [] => List.replicate root.length dotdot
  | r :: root, p :: path =>
    if r = p then rel root path else List.replicate (root.length + 1) dotdot ++ p :: path

/-- All files with their absolute paths and sizes. -/
def Disk.files (d : Disk) : List (FilePath × Nat) :=
  d.store.files.entries.map (fun f => (d.store.root ++ f.1, f.2.length)) ++
    d.others.entries.map fun f => (f.1, f.2.length)

/-- `filepath.Join(root, prefix)`. -/
def Disk.base (d : Disk) (listPrefix : Text) : FilePath :=
  cleanComponents true (d.store.root ++ components (trimSlash listPrefix))

/-- `filepath.WalkDir` down to the files. A base that does not exist has none. -/
def Disk.walk (d : Disk) (listPrefix : Text) : Except StoreError (List (FilePath × Nat)) :=
  if d.files.any fun f => f.1 <+: d.base listPrefix && f.1 ≠ d.base listPrefix then .error .failed
  else .ok (d.files.filter fun f => d.base listPrefix <+: f.1)

def Disk.key (d : Disk) (f : FilePath) : Text := joinSlash (rel d.store.root f)

def Disk.list (d : Disk) (listPrefix : Text) : Except StoreError (List Text) :=
  (d.walk listPrefix).map fun found => found.map fun f => d.key f.1

def Disk.listSizes (d : Disk) (listPrefix : Text) : Except StoreError (List FileEntry) :=
  (d.walk listPrefix).map fun found => found.map fun f => ⟨d.key f.1, f.2⟩

def listSizes (objects : Bucket) (listPrefix : Text) : List FileEntry :=
  (objects.entries.filter fun object => trimSlash listPrefix <+: object.1).map fun object =>
    ⟨object.1, object.2.length⟩

theorem keys_nodup (l : Local) : (l.files.keys.map joinSlash).Nodup := by
  have distinct : l.files.keys.Nodup := l.files.keys_nodup
  refine distinct.map_on fun p mem q mem' same => ?_
  have left := components_joinSlash p (l.segments p mem).1 fun c m => ((l.segments p mem).2 c m).2
  have right := components_joinSlash q (l.segments q mem').1 fun c m => ((l.segments q mem').2 c m).2
  rw [← left, same, right]

/-- A bucket with the same keys and the same bytes. -/
def Disk.bucket (d : Disk) : Bucket where
  entries := d.store.files.entries.map fun f => ⟨joinSlash f.1, f.2⟩
  nodupKeys := by
    have keys := keys_nodup d.store
    rw [AList.keys, List.keys, List.map_map] at keys
    rw [List.NodupKeys, List.keys, List.map_map]
    exact keys

/-- The two drivers list the same keys and the same sizes, and each its own keys in both. -/
def Agree (d : Disk) (listPrefix : Text) : Prop :=
  ∃ keys files, d.list listPrefix = .ok keys ∧ d.listSizes listPrefix = .ok files ∧
    (∀ key, key ∈ keys ↔ key ∈ d.bucket.list listPrefix) ∧
    (∀ file, file ∈ files ↔ file ∈ listSizes d.bucket listPrefix) ∧
    keys = files.map FileEntry.key ∧
    d.bucket.list listPrefix = (listSizes d.bucket listPrefix).map FileEntry.key

/-- The names in the prefix; none at the root. -/
def names (listPrefix : Text) : List Text :=
  if trimSlash listPrefix = [] then [] else components (trimSlash listPrefix)

/-- No stored key goes on within the last name of the prefix, and none is a file on the way to it. -/
def Bounded (d : Disk) (listPrefix : Text) : Prop :=
  (∀ p ∈ d.store.files.keys, trimSlash listPrefix <+: joinSlash p → names listPrefix <+: p) ∧
    ∀ p ∈ d.store.files.keys, p <+: names listPrefix → p = names listPrefix

/-- No file of the disk is on the way to the base, and what is at the base or below it is stored under
keys that start with the prefix. -/
def Covered (d : Disk) (listPrefix : Text) : Prop :=
  (∀ f ∈ d.files, f.1 <+: d.base listPrefix → f.1 = d.base listPrefix) ∧
    ∀ f ∈ d.files, d.base listPrefix <+: f.1 →
      ∃ p ∈ d.store.files.keys, f.1 = d.store.root ++ p ∧ trimSlash listPrefix <+: joinSlash p

/-- A prefix with `.`, `..` or an empty name in it starts its walk elsewhere. -/
def Fits (d : Disk) (listPrefix : Text) : Prop :=
  if ∀ c ∈ names listPrefix, Segment c then Bounded d listPrefix else Covered d listPrefix

/-- The files that the walk finds are those of the keys that the bucket finds. -/
structure Coincides (d : Disk) (listPrefix : Text) : Prop where
  way : ∀ f ∈ d.files, f.1 <+: d.base listPrefix → f.1 = d.base listPrefix
  others : ∀ f ∈ d.others.keys, ¬ d.base listPrefix <+: f
  stored : ∀ p ∈ d.store.files.keys,
    (d.base listPrefix <+: d.store.root ++ p ↔ trimSlash listPrefix <+: joinSlash p)

theorem rel_append (root path : List Text) : rel root (root ++ path) = path := by
  induction root with
  | nil => rfl
  | cons r root ih => simp [rel, ih]

/-- Outside the root the way leads up first. -/
theorem rel_outside {root f : List Text} (notBelow : ¬ root <+: f) : (rel root f).head? = some dotdot := by
  induction root generalizing f with
  | nil => exact absurd List.nil_prefix notBelow
  | cons r root ih =>
    cases f with
    | nil => rfl
    | cons p path =>
      unfold rel
      split
      next same =>
        subst same
        exact ih fun below => notBelow ((List.prefix_cons_inj r).mpr below)
      · rfl

theorem mem_rel {root f : List Text} {c : Text} (mem : c ∈ rel root f) : c = dotdot ∨ c ∈ f := by
  induction root generalizing f with
  | nil => exact .inr mem
  | cons r root ih =>
    cases f with
    | nil => exact .inl (List.eq_of_mem_replicate mem)
    | cons p path =>
      unfold rel at mem
      split at mem
      · exact (ih mem).imp_right (List.mem_cons_of_mem p)
      · rcases List.mem_append.mp mem with up | down
        · exact .inl (List.eq_of_mem_replicate up)
        · exact .inr down

variable {d : Disk} {listPrefix : Text}

theorem key_stored (d : Disk) (p : FilePath) : d.key (d.store.root ++ p) = joinSlash p := by
  rw [Disk.key, rel_append]

/-- The key of another file is none that is stored. -/
theorem key_other {f p : FilePath} (isOther : f ∈ d.others.keys) (isStored : p ∈ d.store.files.keys) :
    d.key f ≠ joinSlash p := by
  intro same
  have up := rel_outside (d.outside f isOther).1
  obtain ⟨hne, segments⟩ := d.store.segments p isStored
  have ne : rel d.store.root f ≠ [] := by
    intro none
    rw [none] at up
    cases up
  have left : components (d.key f) = rel d.store.root f := by
    refine components_joinSlash _ ne fun c mem => ?_
    rcases mem_rel mem with rfl | mem
    · decide
    · exact (d.named f isOther c mem).2
  have right := components_joinSlash p hne fun c mem => (segments c mem).2
  rw [← left, same, right] at up
  exact (segments dotdot (List.mem_of_mem_head? up)).1.2.2 rfl

theorem mem_files_stored {p : FilePath} (mem : p ∈ d.store.files.keys) :
    ∃ f ∈ d.files, f.1 = d.store.root ++ p := by
  obtain ⟨f, inEntries, rfl⟩ := List.mem_map.mp mem
  exact ⟨_, List.mem_append_left _ (List.mem_map_of_mem inEntries), rfl⟩

theorem mem_files_other {f : FilePath} (mem : f ∈ d.others.keys) : ∃ g ∈ d.files, g.1 = f := by
  obtain ⟨g, inEntries, rfl⟩ := List.mem_map.mp mem
  exact ⟨_, List.mem_append_right _ (List.mem_map_of_mem inEntries), rfl⟩

theorem mem_files {f : FilePath × Nat} (mem : f ∈ d.files) :
    (∃ p ∈ d.store.files.keys, f.1 = d.store.root ++ p) ∨ f.1 ∈ d.others.keys := by
  rcases List.mem_append.mp mem with inStore | inOthers
  · obtain ⟨g, inEntries, rfl⟩ := List.mem_map.mp inStore
    exact .inl ⟨g.1, List.mem_map_of_mem inEntries, rfl⟩
  · obtain ⟨g, inEntries, rfl⟩ := List.mem_map.mp inOthers
    exact .inr (List.mem_map_of_mem inEntries)

/-- Where the walk succeeds, what it finds. -/
theorem walk_ok {found : List (FilePath × Nat)} (ok : d.walk listPrefix = .ok found) :
    (∀ f ∈ d.files, f.1 <+: d.base listPrefix → f.1 = d.base listPrefix) ∧
      found = d.files.filter fun f => d.base listPrefix <+: f.1 := by
  unfold Disk.walk at ok
  split at ok
  · cases ok
  next clear =>
    cases ok
    refine ⟨fun f mem below => ?_, rfl⟩
    by_contra ne
    exact clear (List.any_eq_true.mpr ⟨f, mem, by simp [below, ne]⟩)

theorem walk_eq (way : ∀ f ∈ d.files, f.1 <+: d.base listPrefix → f.1 = d.base listPrefix) :
    d.walk listPrefix = .ok (d.files.filter fun f => d.base listPrefix <+: f.1) := by
  have clear : ¬ d.files.any fun f => f.1 <+: d.base listPrefix && f.1 ≠ d.base listPrefix := by
    simp only [List.any_eq_true, Bool.and_eq_true, decide_eq_true_eq, not_exists, not_and]
    intro f mem below ne
    exact ne (way f mem below)
  rw [Disk.walk, if_neg clear]

theorem list_ok {keys : List Text} (ok : d.list listPrefix = .ok keys) :
    (∀ f ∈ d.files, f.1 <+: d.base listPrefix → f.1 = d.base listPrefix) ∧
      ∀ key, key ∈ keys ↔ ∃ f ∈ d.files, d.base listPrefix <+: f.1 ∧ d.key f.1 = key := by
  unfold Disk.list at ok
  cases walked : d.walk listPrefix with
  | error e =>
    rw [walked] at ok
    cases ok
  | ok found =>
    obtain ⟨way, rfl⟩ := walk_ok walked
    rw [walked] at ok
    cases ok
    refine ⟨way, fun key => ?_⟩
    simp [and_assoc]

theorem mem_bucket_list {key : Text} : key ∈ d.bucket.list listPrefix ↔
    (∃ p ∈ d.store.files.keys, joinSlash p = key) ∧ trimSlash listPrefix <+: key := by
  have keys : d.bucket.keys = d.store.files.keys.map joinSlash := by
    simp [AList.keys, List.keys, Disk.bucket]
  simp [Bucket.list, keys]

theorem joinSlash_stored {p q : FilePath} (mem : p ∈ d.store.files.keys)
    (mem' : q ∈ d.store.files.keys) (same : joinSlash p = joinSlash q) : p = q :=
  List.inj_on_of_nodup_map (keys_nodup d.store) mem mem' same

/-- Equal listings find the same files. -/
theorem coincides (agree : Agree d listPrefix) : Coincides d listPrefix := by
  obtain ⟨keys, -, ok, -, same, -⟩ := agree
  obtain ⟨way, found⟩ := list_ok ok
  have other : ∀ f ∈ d.others.keys, ¬ d.base listPrefix <+: f := by
    intro f mem below
    obtain ⟨g, inFiles, rfl⟩ := mem_files_other mem
    have listed := (found _).mpr ⟨g, inFiles, below, rfl⟩
    obtain ⟨⟨p, stored, eq⟩, -⟩ := mem_bucket_list.mp ((same _).mp listed)
    exact key_other mem stored eq.symm
  refine ⟨way, other, fun p mem => ⟨fun below => ?_, fun text => ?_⟩⟩
  · obtain ⟨f, inFiles, eq⟩ := mem_files_stored mem
    have listed := (found (joinSlash p)).mpr ⟨f, inFiles, eq ▸ below, by rw [eq, key_stored]⟩
    exact (mem_bucket_list.mp ((same _).mp listed)).2
  · have listed := (same _).mpr (mem_bucket_list.mpr ⟨⟨p, mem, rfl⟩, text⟩)
    obtain ⟨f, inFiles, below, eq⟩ := (found _).mp listed
    rcases mem_files inFiles with ⟨q, stored, path⟩ | isOther
    · rw [path, key_stored] at eq
      rwa [← joinSlash_stored stored mem eq, ← path]
    · exact absurd eq (key_other isOther mem)

/-- The files of the walk, in the order of the store. -/
theorem found_eq (fits : Coincides d listPrefix) :
    (d.files.filter fun f => d.base listPrefix <+: f.1) =
      (d.store.files.entries.filter fun f => trimSlash listPrefix <+: joinSlash f.1).map
        fun f => (d.store.root ++ f.1, f.2.length) := by
  have none : (d.others.entries.map fun f => (f.1, f.2.length)).filter
      (fun f : FilePath × Nat => d.base listPrefix <+: f.1) = [] := by
    rw [List.filter_eq_nil_iff]
    intro f mem
    obtain ⟨g, inEntries, rfl⟩ := List.mem_map.mp mem
    simpa using fits.others g.1 (List.mem_map_of_mem inEntries)
  rw [Disk.files, List.filter_append, none, List.append_nil, List.filter_map]
  refine congrArg (List.map _) (List.filter_congr fun f mem => ?_)
  simpa using fits.stored f.1 (List.mem_map_of_mem mem)

theorem list_eq (fits : Coincides d listPrefix) :
    d.list listPrefix = .ok (d.bucket.list listPrefix) := by
  rw [Disk.list, walk_eq fits.way, found_eq fits]
  simp [Except.map, key_stored, Bucket.list, Disk.bucket, AList.keys, List.keys, List.filter_map,
    Function.comp_def]

theorem listSizes_eq (fits : Coincides d listPrefix) :
    d.listSizes listPrefix = .ok (listSizes d.bucket listPrefix) := by
  rw [Disk.listSizes, walk_eq fits.way, found_eq fits]
  simp [Except.map, key_stored, listSizes, Disk.bucket, List.filter_map, Function.comp_def]

theorem agree_iff : Agree d listPrefix ↔ Coincides d listPrefix := by
  constructor
  · exact coincides
  · intro fits
    have own : d.bucket.list listPrefix = (listSizes d.bucket listPrefix).map FileEntry.key := by
      simp [Bucket.list, listSizes, AList.keys, List.keys, List.filter_map, Function.comp_def]
    exact ⟨_, _, list_eq fits, listSizes_eq fits, fun _ => Iff.rfl, fun _ => Iff.rfl, own, own⟩

/-- All but the last component of a text stay when the text goes on. -/
theorem dropLast_components (a b : Text) : (components a).dropLast <+: components (a ++ b) := by
  induction a with
  | nil => simp [components]
  | cons x xs ih =>
    have ne : components xs ≠ [] := List.splitOn_ne_nil _ _
    simp only [components, List.cons_append, List.splitOn_cons_eq_if_modifyHead] at ih ne ⊢
    split
    · rw [List.dropLast_cons_of_ne_nil ne]
      exact (List.prefix_cons_inj []).mpr ih
    · obtain ⟨w, ws, split⟩ := List.exists_cons_of_ne_nil ne
      rw [split] at ih ⊢
      cases ws with
      | nil => exact List.nil_prefix
      | cons v vs =>
        obtain ⟨rest, eq⟩ := ih
        rw [← eq]
        simp

theorem base_root (d : Disk) : Spells d.store.root d.store.root :=
  spells_self _ d.store.rooted

/-- The walk of plain names starts at their directory. -/
theorem base_eq (plain : ∀ c ∈ names listPrefix, Segment c) :
    d.base listPrefix = d.store.root ++ names listPrefix := by
  unfold Disk.base
  unfold names at plain ⊢
  split
  next empty =>
    rw [empty, List.append_nil]
    exact ((base_root d).append_neutral (.skip (.inl rfl) .nil)).clean true
  next filled =>
    rw [if_neg filled] at plain
    have named : ∀ c ∈ d.store.root ++ components (trimSlash listPrefix), Named c := by
      intro c mem
      rcases List.mem_append.mp mem with mem | mem
      · exact d.store.rooted c mem
      · exact (plain c mem).1
    exact (spells_self _ named).clean true

/-- The names of a directory on the way to a key are the start of its text. -/
theorem text_of_names {p : FilePath} (below : names listPrefix <+: p) :
    trimSlash listPrefix <+: joinSlash p := by
  unfold names at below
  split at below
  next empty =>
    rw [empty]
    exact List.nil_prefix
  next filled =>
    obtain ⟨rest, rfl⟩ := below
    cases rest with
    | nil => rw [List.append_nil, joinSlash_components]
    | cons c rest =>
      have ne : components (trimSlash listPrefix) ≠ [] := List.splitOn_ne_nil _ _
      rw [joinSlash_append ne (by simp), joinSlash_components]
      exact List.prefix_append _ _

/-- With plain names no file outside the root matters. -/
theorem coincides_iff_bounded (plain : ∀ c ∈ names listPrefix, Segment c) :
    Coincides d listPrefix ↔ Bounded d listPrefix := by
  have base := base_eq (d := d) plain
  constructor
  · intro fits
    refine ⟨fun p mem text => ?_, fun p mem above => ?_⟩
    · have below := (fits.stored p mem).mpr text
      rwa [base, List.prefix_append_right_inj] at below
    · obtain ⟨f, inFiles, eq⟩ := mem_files_stored mem
      have same := fits.way f inFiles (by
        rw [eq, base]
        exact (List.prefix_append_right_inj _).mpr above)
      rw [eq, base] at same
      exact List.append_cancel_left same
  · intro bounded
    refine ⟨fun f mem above => ?_, fun f mem below => ?_, fun p mem => ?_⟩
    · rw [base] at above ⊢
      rcases mem_files mem with ⟨p, stored, eq⟩ | other
      · rw [eq] at above ⊢
        rw [bounded.2 p stored ((List.prefix_append_right_inj _).mp above)]
      · rcases List.prefix_or_prefix_of_prefix (List.prefix_append _ _) above with below | above
        · exact absurd below (d.outside f.1 other).1
        · exact absurd above (d.outside f.1 other).2
    · rw [base] at below
      exact (d.outside f mem).1 ((List.prefix_append _ _).trans below)
    · rw [base, List.prefix_append_right_inj]
      exact ⟨text_of_names, bounded.1 p mem⟩

/-- A last component that is no name leads at most up. -/
theorem clean_odd {dir : List Text} {c : Text} (named : ∀ d ∈ dir, Named d) (odd : ¬ Named c) :
    cleanComponents true (dir ++ [c]) <+: dir := by
  have spelled := spells_self dir named
  rw [cleanComponents, List.foldl_append, spelled.fold, List.append_nil, List.foldl_cons,
    List.foldl_nil]
  rcases component_cases c with skip | rfl | name
  · rw [cleanStep_skip skip, List.reverse_reverse]
  · cases reversed : dir.reverse with
    | nil => exact List.nil_prefix
    | cons d rest =>
      have mem : d ∈ dir := List.mem_reverse.mp (reversed ▸ List.mem_cons_self)
      rw [cleanStep_pop (named d mem).2.2, ← List.reverse_reverse dir, reversed, List.reverse_cons]
      exact List.prefix_append _ _
  · exact absurd name odd

/-- Where another name stands in the prefix, only its last can be one, and the walk starts at the
directory before it or higher. -/
theorem below_of_text (odd : ¬ ∀ c ∈ names listPrefix, Segment c) {p : FilePath}
    (mem : p ∈ d.store.files.keys) (text : trimSlash listPrefix <+: joinSlash p) :
    d.base listPrefix <+: d.store.root ++ p := by
  obtain ⟨ne, segments⟩ := d.store.segments p mem
  have init : (components (trimSlash listPrefix)).dropLast <+: p := by
    obtain ⟨rest, eq⟩ := text
    have start := dropLast_components (trimSlash listPrefix) rest
    rwa [eq, components_joinSlash p ne fun c mem => (segments c mem).2] at start
  have filled : components (trimSlash listPrefix) ≠ [] := List.splitOn_ne_nil _ _
  have named : ∀ c ∈ d.store.root ++ (components (trimSlash listPrefix)).dropLast, Named c := by
    intro c mem
    rcases List.mem_append.mp mem with mem | mem
    · exact d.store.rooted c mem
    · exact (segments c (init.subset mem)).1
  have last : ¬ Named ((components (trimSlash listPrefix)).getLast filled) := by
    intro name
    apply odd
    intro c mem
    unfold names at mem
    split at mem
    · cases mem
    · rw [← List.dropLast_append_getLast filled] at mem
      rcases List.mem_append.mp mem with mem | mem
      · exact segments c (init.subset mem)
      · rw [List.mem_singleton] at mem
        subst mem
        exact ⟨name, slash_not_mem_components _ _ (List.getLast_mem filled)⟩
  have base := clean_odd named last
  rw [List.append_assoc, List.dropLast_append_getLast filled] at base
  exact base.trans ((List.prefix_append_right_inj _).mpr init)

theorem coincides_iff_covered (odd : ¬ ∀ c ∈ names listPrefix, Segment c) :
    Coincides d listPrefix ↔ Covered d listPrefix := by
  constructor
  · intro fits
    refine ⟨fits.way, fun f mem below => ?_⟩
    rcases mem_files mem with ⟨p, stored, eq⟩ | other
    · exact ⟨p, stored, eq, (fits.stored p stored).mp (eq ▸ below)⟩
    · exact absurd below (fits.others f.1 other)
  · intro covered
    refine ⟨covered.1, fun f mem below => ?_, fun p mem => ⟨fun below => ?_, below_of_text odd mem⟩⟩
    · obtain ⟨g, inFiles, rfl⟩ := mem_files_other mem
      obtain ⟨p, -, eq, -⟩ := covered.2 g inFiles below
      exact (d.outside g.1 mem).1 (eq ▸ List.prefix_append _ _)
    · obtain ⟨f, inFiles, eq⟩ := mem_files_stored mem
      obtain ⟨q, -, same, text⟩ := covered.2 f inFiles (eq ▸ below)
      rw [eq] at same
      rwa [List.append_cancel_left same]

/-- The drivers agree on a prefix exactly where it fits what is stored. -/
theorem listings_agree_iff (d : Disk) (listPrefix : Text) :
    Agree d listPrefix ↔ Fits d listPrefix := by
  rw [agree_iff]
  unfold Fits
  split
  next plain => exact coincides_iff_bounded plain
  next odd => exact coincides_iff_covered odd

/-- A file of entry 1 and one of entry 12. -/
def twoEntries : Disk where
  store :=
    { root := ["data".toList]
      rooted := by decide
      files := ⟨[⟨["entries".toList, "1".toList, "a".toList], [0]⟩,
        ⟨["entries".toList, "12".toList, "b".toList], [0]⟩], by rw [List.NodupKeys]; decide⟩
      segments := by decide }
  others := ∅
  named := by decide
  outside := by decide
  apart := by decide

/-- The prefix of entry 1 brings the files of entry 12 from a bucket only, and a prefix below a file
is an error on disk only. -/
theorem entry_prefix_differs :
    twoEntries.list "entries/1".toList = .ok ["entries/1/a".toList] ∧
      twoEntries.bucket.list "entries/1".toList = ["entries/1/a".toList, "entries/12/b".toList] ∧
      twoEntries.list "entries/1/a/x".toList = .error .failed ∧
      ¬ Agree twoEntries "entries/1".toList := by
  have onDisk : twoEntries.list "entries/1".toList = .ok ["entries/1/a".toList] := by decide
  refine ⟨onDisk, by decide, by decide, ?_⟩
  rintro ⟨keys, -, ok, -, same, -⟩
  rw [onDisk] at ok
  cases ok
  exact absurd ((same "entries/12/b".toList).mpr (by decide)) (by decide)

end Vidsilo.Storage.Listings
