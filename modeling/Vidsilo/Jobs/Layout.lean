import Vidsilo.Jobs.ServedKeys

/-!
# Where the keys of an entry lie

Source: internal/store/keys.go:10-83, internal/db/flavors.go:75-102 (any text is a name),
internal/jobs/jobs.go:673-690 (segment paths are relative paths of names).
-/
namespace Vidsilo.Jobs.Layout
open Library.SlashPath Library.Decimal Storage.Keys Master

def flavorsName : Text := "flavors".toList

/-- `entries/{id}/flavors/` -/
def flavorsDir (id : Int) : List Text := [entriesRoot, formatInt id, flavorsName]

/-- The key is a path of names strictly below the directory. -/
def LiesBelow (dir : List Text) (key : Text) : Prop :=
  ∃ below, below ≠ [] ∧ (∀ c ∈ below, Segment c) ∧ key = joinSlash (dir ++ below)

/-- A key of the entry, from which its id is read back. -/
def KeyOf (id : Int) (key : Text) : Prop :=
  LiesBelow [entriesRoot, formatInt id] key ∧ entryIDFromMediaKey key = some id

/-- Neither directory is the other or lies in it. -/
def Apart (dir dir' : Text) : Prop :=
  ¬ components dir <+: components dir' ∧ ¬ components dir' <+: components dir

/-- The layout of an entry whose flavors have these names. -/
structure LaidOut (id : Int) (names : List Text) : Prop where
  original : ∀ ext, '/' ∉ ext → KeyOf id (originalKey id ext)
  poster : KeyOf id (posterKey id)
  sprite : KeyOf id (spriteKey id)
  master : KeyOf id (masterKey id)
  subtitle : ∀ lang, KeyOf id (subtitleKey id lang)
  playlist : ∀ name ∈ names,
    LiesBelow (flavorsDir id) (flavorPlaylistKey id name) ∧ KeyOf id (flavorPlaylistKey id name)
  segment : ∀ name ∈ names, ∀ path, path ≠ [] → (∀ c ∈ path, Segment c) →
    LiesBelow (flavorsDir id) (flavorSegmentKey id name (joinSlash path)) ∧
      KeyOf id (flavorSegmentKey id name (joinSlash path))
  apart : ∀ name ∈ names, ∀ other ∈ names, name ≠ other →
    Apart (flavorDir id name) (flavorDir id other)

/-- Where a name leads from `flavors/`, as long as it stays there or comes straight back. -/
def innerPath (name : Text) : Option (List Text) :=
  let cleaned := cleanComponents false (components name)
  if cleaned.head? ≠ some dotdot then some cleaned
  else if [dotdot, flavorsName] <+: cleaned then some (cleaned.drop 2)
  else none

/-- Every name stays in `flavors/`, and no two lead to one directory or into each other's. -/
def Contained (names : List Text) : Prop :=
  (∀ name ∈ names, (innerPath name).isSome) ∧
    ∀ name ∈ names, ∀ other ∈ names, name ≠ other →
      ∀ inner ∈ innerPath name, ∀ inner' ∈ innerPath other, ¬ inner <+: inner'

theorem segments_flavorsDir (id : Int) : ∀ c ∈ flavorsDir id, Segment c := by
  intro c mem
  have parts : flavorsDir id = [entriesRoot, formatInt id] ++ [flavorsName] := rfl
  rw [parts] at mem
  rcases List.mem_append.mp mem with dir | last
  · exact segments_entryDir id c dir
  · rw [List.mem_singleton.mp last]
    decide

section Ids
variable {id : Int} (low : -(cutoff : Int) ≤ id) (high : id < cutoff)
include low high

theorem keyOf_joinSlash (below : List Text) (ne : below ≠ []) (segments : ∀ c ∈ below, Segment c) :
    KeyOf id (joinSlash ([entriesRoot, formatInt id] ++ below)) :=
  ⟨⟨below, ne, segments, rfl⟩,
    entryIDFromMediaKey_joinSlash id low high below fun c mem => (segments c mem).2⟩

theorem keyOf_join {name : Text} (isSegment : Segment name) : KeyOf id (join [entryDir id, name]) := by
  rw [entryDir_eq, join_below (by simp) (by simp) (segments_entryDir id) (by simpa using isSegment)]
  exact keyOf_joinSlash low high _ (by simp) (by simpa using isSegment)

theorem keyOf_original {ext : Text} (noSlash : '/' ∉ ext) : KeyOf id (originalKey id ext) := by
  obtain ⟨name, isSegment, -, -, key⟩ := originalKey_eq id noSlash
  rw [key]
  exact keyOf_joinSlash low high _ (by simp) (by simpa using isSegment)

theorem keyOf_subtitle (lang : Text) : KeyOf id (subtitleKey id lang) := by
  obtain ⟨isSegment, key⟩ := subtitleKey_eq id lang
  rw [key]
  refine keyOf_joinSlash low high ["subs".toList, _] (by simp) fun c mem => ?_
  rcases List.mem_cons.mp mem with rfl | mem
  · decide
  · rw [List.mem_singleton.mp mem]
    exact isSegment

theorem keyOf_flavor {inner path : List Text} (segments : ∀ c ∈ inner, Segment c) (ne : path ≠ [])
    (isPath : ∀ c ∈ path, Segment c) :
    LiesBelow (flavorsDir id) (joinSlash (flavorsDir id ++ inner ++ path)) ∧
      KeyOf id (joinSlash (flavorsDir id ++ inner ++ path)) := by
  have all : ∀ c ∈ inner ++ path, Segment c := by
    intro c mem
    rcases List.mem_append.mp mem with mem | mem
    · exact segments c mem
    · exact isPath c mem
  rw [List.append_assoc]
  refine ⟨⟨inner ++ path, by simp [ne], all, rfl⟩, ?_⟩
  refine keyOf_joinSlash low high (flavorsName :: (inner ++ path)) (by simp) fun c mem => ?_
  rcases List.mem_cons.mp mem with rfl | mem
  · decide
  · exact all c mem

end Ids

/-- The steps and the names of a flavor's name, and the directory they lead to. -/
theorem name_parts (name : Text) : ∃ (up : Nat) (down : List Text), (∀ c ∈ down, Segment c) ∧
    cleanComponents false (components name) = List.replicate up dotdot ++ down ∧
    ∀ id, flavorDir id name =
      relative (List.replicate (up - 3) dotdot ++ ((flavorsDir id).take (3 - up) ++ down)) := by
  obtain ⟨up, down, named, cleaned⟩ := clean_below (components name)
  have start : cleanComponents false (components name) = List.replicate up dotdot ++ down := by
    simpa using cleaned [] (by simp)
  refine ⟨up, down, fun c mem => ⟨(named c mem).1, slash_not_mem_components name c (named c mem).2⟩,
    start, fun id => ?_⟩
  have entry := components_joinSlash [entriesRoot, formatInt id] (by simp)
    fun c mem => (segments_entryDir id c mem).2
  have filled : joinSlash [entriesRoot, formatInt id] ≠ [] :=
    joinSlash_ne_nil (by simp) fun c mem => (segments_entryDir id c mem).1.1
  have parts : ([joinSlash [entriesRoot, formatInt id], "flavors".toList, name]).flatMap components =
      flavorsDir id ++ components name := by
    rw [List.flatMap_cons, entry, List.flatMap_cons, List.flatMap_singleton]
    rfl
  rw [flavorDir, entryDir_eq, join_relative _ filled (head_joinSlash (by simp) (segments_entryDir id)),
    parts, cleaned _ fun c mem => (segments_flavorsDir id c mem).1, List.append_assoc]
  rfl

theorem innerPath_eq {name : Text} {up : Nat} {down : List Text} (segments : ∀ c ∈ down, Segment c)
    (cleaned : cleanComponents false (components name) = List.replicate up dotdot ++ down) :
    innerPath name = if up = 0 then some down
      else if up = 1 ∧ [flavorsName] <+: down then some (down.drop 1) else none := by
  have other : ¬ flavorsName = dotdot := by decide
  unfold innerPath
  rw [cleaned]
  cases up with
  | zero =>
    have head : down.head? ≠ some dotdot := by
      intro first
      exact (segments dotdot (List.mem_of_head? first)).1.2.2 rfl
    simp [head]
  | succ up =>
    cases up with
    | zero => simp [List.prefix_cons_iff]
    | succ up => simp [List.replicate_succ, List.prefix_cons_iff, other]

/-- A name that stays in `flavors/` leads to the directory of its inner path. -/
theorem flavorDir_inner {name : Text} {inner : List Text} (stays : innerPath name = some inner) :
    (∀ c ∈ inner, Segment c) ∧ ∀ id, flavorDir id name = relative (flavorsDir id ++ inner) := by
  obtain ⟨up, down, segments, cleaned, dir⟩ := name_parts name
  rw [innerPath_eq segments cleaned] at stays
  split at stays
  next none =>
    cases stays
    subst none
    exact ⟨segments, dir⟩
  · split at stays
    next back =>
      obtain ⟨rfl, rest, rfl⟩ := back
      cases stays
      exact ⟨fun c mem => segments c (List.mem_cons_of_mem _ mem), dir⟩
    · cases stays

theorem segments_inner (id : Int) {inner : List Text} (segments : ∀ c ∈ inner, Segment c) :
    ∀ c ∈ flavorsDir id ++ inner, Segment c := by
  intro c mem
  rcases List.mem_append.mp mem with dir | mem
  · exact segments_flavorsDir id c dir
  · exact segments c mem

theorem flavorSegmentKey_inner {name : Text} {inner path : List Text}
    (stays : innerPath name = some inner) (id : Int) (ne : path ≠ [])
    (isPath : ∀ c ∈ path, Segment c) :
    flavorSegmentKey id name (joinSlash path) = joinSlash (flavorsDir id ++ inner ++ path) := by
  obtain ⟨segments, dir⟩ := flavorDir_inner stays
  rw [flavorSegmentKey, dir]
  exact join_steps 0 (segments_inner id segments) ne isPath

/-- A playlist is a segment of this path. -/
theorem flavorPlaylistKey_eq (id : Int) (name : Text) :
    flavorPlaylistKey id name = flavorSegmentKey id name (joinSlash ["index.m3u8".toList]) := rfl

theorem components_flavorDir {name : Text} {inner : List Text} (stays : innerPath name = some inner)
    (id : Int) : components (flavorDir id name) = flavorsDir id ++ inner := by
  obtain ⟨segments, dir⟩ := flavorDir_inner stays
  have all := segments_inner id segments
  rw [dir, relative_eq (by simp [flavorsDir]) fun c mem => (all c mem).1.1]
  exact components_joinSlash _ (by simp [flavorsDir]) fun c mem => (all c mem).2

theorem LiesBelow.parent {dir : List Text} {key : Text} (lies : LiesBelow dir key)
    (segments : ∀ c ∈ dir, Segment c) : ∃ below, below ≠ [] ∧ components key = dir ++ below := by
  obtain ⟨below, ne, segments', rfl⟩ := lies
  refine ⟨below, ne, components_joinSlash _ (by simp [ne]) fun c mem => ?_⟩
  rcases List.mem_append.mp mem with mem | mem
  · exact (segments c mem).2
  · exact (segments' c mem).2

/-- Another name misplaces the playlist of entry 0 or that of entry 1. -/
theorem misplaced {name : Text} (leaves : innerPath name = none)
    (lies : ∀ id ∈ [0, 1], LiesBelow (flavorsDir id) (flavorPlaylistKey id name) ∧
      KeyOf id (flavorPlaylistKey id name)) : False := by
  obtain ⟨up, down, segments, cleaned, dir⟩ := name_parts name
  rw [innerPath_eq segments cleaned] at leaves
  have index : ∀ c ∈ ["index.m3u8".toList], Segment c := by decide
  cases up with
  | zero => cases leaves
  | succ up =>
    cases up with
    | zero =>
      have all : ∀ c ∈ [entriesRoot, formatInt 0] ++ down, Segment c := by
        intro c mem
        rcases List.mem_append.mp mem with mem | mem
        · exact segments_entryDir 0 c mem
        · exact segments c mem
      have key : flavorPlaylistKey 0 name =
          joinSlash ([entriesRoot, formatInt 0] ++ down ++ ["index.m3u8".toList]) := by
        rw [flavorPlaylistKey_eq, flavorSegmentKey, dir]
        exact join_steps 0 all (by simp) index
      obtain ⟨below, ne, parts⟩ := (lies 0 (by simp)).1.parent (segments_flavorsDir 0)
      have noSlash : ∀ c ∈ [entriesRoot, formatInt 0] ++ down ++ ["index.m3u8".toList], '/' ∉ c := by
        intro c mem
        rcases List.mem_append.mp mem with mem | mem
        · exact (all c mem).2
        · exact (index c mem).2
      rw [key, components_joinSlash _ (by simp) noSlash] at parts
      cases down with
      | nil => exact absurd (List.cons.inj (List.cons.inj (List.cons.inj parts).2).2).1 (by decide)
      | cons c rest =>
        have first : c = flavorsName := (List.cons.inj (List.cons.inj (List.cons.inj parts).2).2).1
        simp [first] at leaves
    | succ up =>
      have same : flavorPlaylistKey 0 name = flavorPlaylistKey 1 name := by
        rw [flavorPlaylistKey, dir, flavorPlaylistKey, dir]
        cases up with
        | zero => rfl
        | succ up =>
          have none : 3 - (up + 1 + 1 + 1) = 0 := by omega
          rw [none]
          rfl
      have zero := (lies 0 (by simp)).2.2
      have one := (lies 1 (by simp)).2.2
      rw [same, one] at zero
      cases zero

/-- The layout holds for every entry exactly when the names are contained. -/
theorem laidOut_iff (names : List Text) :
    (∀ id, -(cutoff : Int) ≤ id → id < cutoff → LaidOut id names) ↔ Contained names := by
  constructor
  · intro laidOut
    refine ⟨fun name mem => ?_, fun name mem other mem' ne inner stays inner' stays' nested => ?_⟩
    · by_contra leaves
      rw [Bool.not_eq_true, Option.isSome_eq_false_iff, Option.isNone_iff_eq_none] at leaves
      refine misplaced leaves fun id small => ?_
      simp only [List.mem_cons, List.not_mem_nil, or_false] at small
      exact (laidOut id (by rcases small with rfl | rfl <;> decide)
        (by rcases small with rfl | rfl <;> decide)).playlist name mem
    · have apart := (laidOut 0 (by decide) (by decide)).apart name mem other mem' ne
      rw [Apart, components_flavorDir stays, components_flavorDir stays'] at apart
      exact apart.1 ((List.prefix_append_right_inj _).mpr nested)
  · intro contained id low high
    have stays : ∀ name ∈ names, ∃ inner, innerPath name = some inner :=
      fun name mem => Option.isSome_iff_exists.mp (contained.1 name mem)
    have segment : ∀ name ∈ names, ∀ path, path ≠ [] → (∀ c ∈ path, Segment c) →
        LiesBelow (flavorsDir id) (flavorSegmentKey id name (joinSlash path)) ∧
          KeyOf id (flavorSegmentKey id name (joinSlash path)) := by
      intro name mem path ne isPath
      obtain ⟨inner, stays⟩ := stays name mem
      rw [flavorSegmentKey_inner stays id ne isPath]
      exact keyOf_flavor low high (flavorDir_inner stays).1 ne isPath
    exact
      { original := fun ext => keyOf_original low high
        poster := keyOf_join low high (by decide)
        sprite := keyOf_join low high (by decide)
        master := keyOf_join low high (by decide)
        subtitle := keyOf_subtitle low high
        playlist := fun name mem => segment name mem ["index.m3u8".toList] (by simp) (by decide)
        segment := segment
        apart := fun name mem other mem' ne => by
          obtain ⟨inner, stays₁⟩ := stays name mem
          obtain ⟨inner', stays₂⟩ := stays other mem'
          rw [Apart, components_flavorDir stays₁, components_flavorDir stays₂,
            List.prefix_append_right_inj, List.prefix_append_right_inj]
          exact ⟨contained.2 name mem other mem' ne inner stays₁ inner' stays₂,
            contained.2 other mem' name mem (Ne.symm ne) inner' stays₂ inner stays₁⟩ }

/-- A name of a flavor of entry 1 that reaches entry 2, and two whose directories are nested. -/
theorem names_escape :
    entryIDFromMediaKey (flavorPlaylistKey 1 "../../2/flavors/720p".toList) = some 2 ∧
      ¬ LaidOut 1 ["../../2/flavors/720p".toList] ∧ ¬ LaidOut 1 ["hd".toList, "hd/low".toList] := by
  have other : entryIDFromMediaKey (flavorPlaylistKey 1 "../../2/flavors/720p".toList) = some 2 := by
    decide
  refine ⟨other, fun laidOut => ?_, fun laidOut => ?_⟩
  · have own := (laidOut.playlist _ List.mem_cons_self).2.2
    rw [other] at own
    cases own
  · exact (laidOut.apart "hd".toList (by decide) "hd/low".toList (by decide) (by decide)).1 (by decide)

end Vidsilo.Jobs.Layout
