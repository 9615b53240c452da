import Mathlib.Data.List.DropRight
import Vidsilo.Library.Decimal
import Vidsilo.Library.SlashPath

/-!
# Storage key layout

Source: internal/store/keys.go:12-83. Keys are texts; every constructor is a
`path.Join`, so a key whose identifiers are single path segments is clean
(`flavorDir_eq`). Flavor names reach `flavorDir` unchecked: no result here assumes
that they are segments unless it says so.
-/
namespace Vidsilo.Storage.Keys
open Library.SlashPath Library.Decimal

def entriesRoot : Text := "entries".toList

def entryDir (id : Int) : Text := join [entriesRoot, formatInt id]

def originalKey (id : Int) (ext : Text) : Text :=
  join [entryDir id, "original.".toList ++ (if ['.'].isPrefixOf ext then ext.drop 1 else ext)]

def posterKey (id : Int) : Text := join [entryDir id, "poster.jpg".toList]

def spriteKey (id : Int) : Text := join [entryDir id, "sprite.jpg".toList]

def masterKey (id : Int) : Text := join [entryDir id, "master.m3u8".toList]

def flavorDir (id : Int) (flavor : Text) : Text :=
  join [entryDir id, "flavors".toList, flavor]

def flavorPlaylistKey (id : Int) (flavor : Text) : Text :=
  join [flavorDir id flavor, "index.m3u8".toList]

def flavorSegmentKey (id : Int) (flavor segment : Text) : Text :=
  join [flavorDir id flavor, segment]

/-- Go's `strings.Trim(s, "/")`. -/
def trimSlash (s : Text) : Text := (s.dropWhile (· == '/')).rdropWhile (· == '/')

/-- `EntryIDFromMediaKey`, with the error text dropped. -/
def entryIDFromMediaKey (mediaKey : Text) : Option Int :=
  match components (trimSlash mediaKey) with
  | first :: second :: _ => if first = entriesRoot then parseInt second else none
  | _ => none

theorem segment_of_chars {c : Text} (hne : c ≠ []) (hdot : '.' ∉ c) (hslash : '/' ∉ c) :
    Segment c := by
  refine ⟨⟨hne, ?_, ?_⟩, hslash⟩
  · rintro rfl; simp [dot] at hdot
  · rintro rfl; simp [dotdot] at hdot

theorem segment_formatInt (id : Int) : Segment (formatInt id) :=
  segment_of_chars (formatInt_ne_nil id) (not_mem_formatInt id (by decide) (by decide))
    (not_mem_formatInt id (by decide) (by decide))

theorem segment_entriesRoot : Segment entriesRoot := by decide

/-- Joining segments puts slashes between them and cleans nothing away. -/
theorem join_segments {cs : List Text} (hne : cs ≠ []) (h : ∀ c ∈ cs, Segment c) :
    join cs = joinSlash cs := by
  have hkept : cs.filter (· ≠ []) = cs := by
    rw [List.filter_eq_self]
    intro c hc
    simpa using (h c hc).1.1
  simp only [join, hkept, if_neg hne]
  exact clean_joinSlash hne h

theorem entryDir_eq (id : Int) : entryDir id = joinSlash [entriesRoot, formatInt id] := by
  apply join_segments (by simp)
  intro c hc
  simp only [List.mem_cons, List.not_mem_nil, or_false] at hc
  rcases hc with rfl | rfl
  · exact segment_entriesRoot
  · exact segment_formatInt id

/-- Joining below an already joined directory appends the segments. -/
theorem join_below {dir cs : List Text} (hdir : dir ≠ []) (hne : cs ≠ [])
    (hd : ∀ d ∈ dir, Segment d) (h : ∀ c ∈ cs, Segment c) :
    join (joinSlash dir :: cs) = joinSlash (dir ++ cs) := by
  have hfirst : joinSlash dir ≠ [] := joinSlash_ne_nil hdir (fun d hm => (hd d hm).1.1)
  have hkept : (joinSlash dir :: cs).filter (· ≠ []) = joinSlash dir :: cs := by
    rw [List.filter_eq_self]
    intro c hc
    rcases List.mem_cons.mp hc with rfl | hc
    · simpa using hfirst
    · simpa using (h c hc).1.1
  have htext : joinSlash (joinSlash dir :: cs) = joinSlash (dir ++ cs) := by
    obtain ⟨c, cs, rfl⟩ := List.exists_cons_of_ne_nil hne
    rw [joinSlash_cons, joinSlash_append hdir (by simp)]
  simp only [join, hkept, if_neg (List.cons_ne_nil _ _), htext]
  apply clean_joinSlash (by simp [hdir])
  intro c hc
  rcases List.mem_append.mp hc with hc | hc
  · exact hd c hc
  · exact h c hc

theorem segments_entryDir (id : Int) : ∀ d ∈ [entriesRoot, formatInt id], Segment d := by
  intro d hd
  simp only [List.mem_cons, List.not_mem_nil, or_false] at hd
  rcases hd with rfl | rfl
  · exact segment_entriesRoot
  · exact segment_formatInt id

theorem flavorDir_eq (id : Int) {flavor : Text} (hf : Segment flavor) :
    flavorDir id flavor = joinSlash [entriesRoot, formatInt id, "flavors".toList, flavor] := by
  rw [flavorDir, entryDir_eq, join_below (by simp) (by simp) (segments_entryDir id)]
  · rfl
  · intro c hc
    simp only [List.mem_cons, List.not_mem_nil, or_false] at hc
    rcases hc with rfl | rfl
    · decide
    · exact hf

theorem dropWhile_slash {key : Text} (h : key.head? ≠ some '/') :
    key.dropWhile (· == '/') = key := by
  cases key with
  | nil => rfl
  | cons x xs =>
    have hx : (x == '/') = false := by simpa using h
    simp [hx]

theorem components_append_slashes (p : Text) (n : Nat) :
    components (p ++ List.replicate n '/') = components p ++ List.replicate n [] := by
  induction n with
  | zero => simp
  | succ n ih =>
    have hsplit : components ((p ++ List.replicate n '/') ++ '/' :: []) =
        components (p ++ List.replicate n '/') ++ components [] :=
      List.splitOn_append_cons_self _ _
    rw [List.replicate_succ', ← List.append_assoc, hsplit, ih, List.replicate_succ',
      ← List.append_assoc]
    rfl

/-- A key is its right-trimmed text and some slashes. -/
theorem rdropWhile_slash (p : Text) :
    ∃ n, p = p.rdropWhile (· == '/') ++ List.replicate n '/' := by
  induction p using List.reverseRecOn with
  | nil => exact ⟨0, rfl⟩
  | append_singleton p c ih =>
    by_cases hc : c = '/'
    · obtain ⟨n, hn⟩ := ih
      subst hc
      refine ⟨n + 1, ?_⟩
      rw [List.rdropWhile_concat_pos _ _ _ (by simp), List.replicate_succ', ← List.append_assoc,
        ← hn]
    · exact ⟨0, by rw [List.rdropWhile_concat_neg _ _ _ (by simpa using hc)]; simp⟩

/-- There is nothing to trim on joined segments. -/
theorem trimSlash_joinSlash {cs : List Text} (hne : cs ≠ []) (h : ∀ c ∈ cs, Segment c) :
    trimSlash (joinSlash cs) = joinSlash cs := by
  rw [trimSlash, dropWhile_slash (head_joinSlash hne h)]
  obtain ⟨n, hn⟩ := rdropWhile_slash (joinSlash cs)
  cases n with
  | zero => simpa using hn.symm
  | succ n =>
    have hcomp := components_joinSlash cs hne (fun c hc => (h c hc).2)
    rw [hn, components_append_slashes] at hcomp
    have hempty : [] ∈ cs := by rw [← hcomp]; simp
    exact absurd rfl (h _ hempty).1.1

/-- On a key that does not start with a slash, trimming does not change the two
components that the entry id is read from. -/
theorem entryIDFromMediaKey_iff {key : Text} (h : key.head? ≠ some '/') (id : Int) :
    entryIDFromMediaKey key = some id ↔
      ∃ c rest, components key = entriesRoot :: c :: rest ∧ parseInt c = some id := by
  obtain ⟨n, hn⟩ := rdropWhile_slash key
  have hkey : components key =
      components (trimSlash key) ++ List.replicate n [] := by
    rw [← components_append_slashes, trimSlash, dropWhile_slash h, ← hn]
  have hne : components (trimSlash key) ≠ [] := List.splitOn_ne_nil _ _
  rw [hkey, entryIDFromMediaKey]
  constructor
  · intro hid
    split at hid
    next first second rest hc =>
      split at hid
      next hf =>
        subst hf
        exact ⟨second, rest ++ List.replicate n [], by simp [hc], hid⟩
      · cases hid
    · cases hid
  · rintro ⟨c, rest, hc, hid⟩
    cases hs : components (trimSlash key) with
    | nil => exact absurd hs hne
    | cons first tail =>
      cases tail with
      | nil =>
        rw [hs] at hc
        cases n with
        | zero => simp at hc
        | succ n =>
          simp only [List.replicate_succ, List.cons_append, List.nil_append,
            List.cons.injEq] at hc
          rw [← hc.2.1] at hid
          simp [parseInt, parseUint] at hid
      | cons second tail =>
        rw [hs] at hc
        simp only [List.cons_append, List.cons.injEq] at hc
        obtain ⟨rfl, rfl, _⟩ := hc
        simpa using hid

/-- The media route reads the entry id back from a key of that entry. -/
theorem entryIDFromMediaKey_joinSlash (id : Int) (hlo : -(cutoff : Int) ≤ id) (hhi : id < cutoff)
    (rest : List Text) (hr : ∀ c ∈ rest, '/' ∉ c) :
    entryIDFromMediaKey (joinSlash (entriesRoot :: formatInt id :: rest)) = some id := by
  have hhead : (joinSlash (entriesRoot :: formatInt id :: rest)).head? ≠ some '/' := by
    have hroot : entriesRoot.head? = some 'e' := rfl
    rw [joinSlash_cons, List.head?_append, hroot, Option.some_or]
    decide
  rw [entryIDFromMediaKey_iff hhead]
  refine ⟨formatInt id, rest, ?_, parseInt_formatInt id hlo hhi⟩
  apply components_joinSlash _ (by simp)
  intro c hc
  simp only [List.mem_cons] at hc
  rcases hc with rfl | rfl | hc
  · decide
  · exact (segment_formatInt id).2
  · exact hr c hc

end Vidsilo.Storage.Keys
