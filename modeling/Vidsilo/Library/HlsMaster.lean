import Vidsilo.Library.Decimal
import Vidsilo.Library.SlashPath

/-!
# HLS master playlists as text

A playlist is read line by line; a line ends with a line feed, before which a carriage return
may stand. A tag has a list of attributes. The text in quotes is taken as it stands: it holds no
quote and no line break, and a backslash in it means nothing else. `parse_text` and
`parse_wellFormed` say that the texts of the well-formed playlists, and no other playlists, are
read. Tags other than those two are ignored, and so are blank lines and comments. At the end stand
the groups of renditions that a stream may name. Nothing here depends on the repository.
-/
namespace Vidsilo.Library.HlsMaster
open SlashPath

inductive Value where
  | bare (s : Text)
  | quoted (s : Text)
  deriving DecidableEq, Repr

structure Attribute where
  name : Text
  value : Value
  deriving DecidableEq, Repr

/-- An `EXT-X-STREAM-INF` with the line that follows it. -/
structure Stream where
  attributes : List Attribute
  uri : Text
  deriving DecidableEq, Repr

structure Master where
  media : List (List Attribute)
  streams : List Stream
  deriving DecidableEq, Repr

def breaks (c : Char) : Bool := c = '\r' || c = '\n'

def unbroken (s : Text) : Bool := s.all fun c => !breaks c

def quotable (s : Text) : Bool := s.all fun c => c ≠ '"' && !breaks c

def bareChar (c : Char) : Bool := c ≠ '"' && c ≠ ',' && !c.isWhitespace

def nameChar (c : Char) : Bool := c.isUpper || c.isDigit || c = '-'

def uriLine (s : Text) : Bool := s ≠ [] && s.head? ≠ some '#' && unbroken s

/-- A piece ends at a comma outside of quotes. -/
def pieces : Bool → Text → List Text
  | _, [] => [[]]
  | inside, c :: rest =>
    if c = ',' ∧ inside = false then [] :: pieces false rest
    else (pieces (if c = '"' then !inside else inside) rest).modifyHead (c :: ·)

def readValue : Text → Option Value
  | [] => none
  | c :: rest =>
    if c = '"' then
      if rest.getLast? = some '"' ∧ quotable rest.dropLast then some (.quoted rest.dropLast)
      else none
    else if (c :: rest).all bareChar then some (.bare (c :: rest))
    else none

def readAttribute (s : Text) : Option Attribute :=
  let name := s.takeWhile (· ≠ '=')
  match s.dropWhile (· ≠ '=') with
  | [] => none
  | _ :: rest =>
    if name ≠ [] ∧ name.all nameChar then (readValue rest).map (⟨name, ·⟩) else none

/-- No name occurs twice. -/
def readList (s : Text) : Option (List Attribute) :=
  ((pieces false s).mapM readAttribute).bind fun as =>
    if (as.map (·.name)).Nodup then some as else none

def chomp (line : Text) : Text := if line.getLast? = some '\r' then line.dropLast else line

def lines (t : Text) : List Text :=
  let parts := t.splitOn '\n'
  (if parts.getLast? = some [] then parts.dropLast else parts).map chomp

def tagValue (tag line : Text) : Option Text :=
  if tag <+: line then some (line.drop tag.length) else none

def headerLine : Text := "#EXTM3U".toList
def mediaTag : Text := "#EXT-X-MEDIA:".toList
def streamTag : Text := "#EXT-X-STREAM-INF:".toList

/-- The lines after the header; `pending` has been read on the line before. -/
def items (pending : Option (List Attribute)) : List Text → Option Master
  | [] => match pending with
    | some _ => none
    | none => some ⟨[], []⟩
  | line :: rest =>
    match pending with
    | some as =>
      if uriLine line then
        (items none rest).map fun m => { m with streams := ⟨as, line⟩ :: m.streams }
      else none
    | none =>
      match tagValue streamTag line with
      | some list => (readList list).bind fun as => items (some as) rest
      | none =>
        match tagValue mediaTag line with
        | some list => (readList list).bind fun as =>
          (items none rest).map fun m => { m with media := as :: m.media }
        | none => if line = [] ∨ line.head? = some '#' then items none rest else none

def parse (t : Text) : Option Master :=
  match lines t with
  | [] => none
  | first :: rest => if first = headerLine then items none rest else none

def Value.string : Value → Option Text
  | .quoted s => some s
  | .bare _ => none

def Value.keyword : Value → Option Text
  | .bare s => some s
  | .quoted _ => none

def Value.integer (v : Value) : Option Nat := v.keyword.bind Decimal.parseUint

/-- The width and the height. -/
def Value.resolution (v : Value) : Option (Nat × Nat) :=
  v.keyword.bind fun s =>
    match s.dropWhile (· ≠ 'x') with
    | [] => none
    | _ :: height => (Decimal.parseUint (s.takeWhile (· ≠ 'x'))).bind fun w =>
      (Decimal.parseUint height).map (w, ·)

def valueOf (name : String) (as : List Attribute) : Option Value :=
  (as.find? (·.name = name.toList)).map (·.value)

theorem valueOf_self (name : String) (v : Value) (rest : List Attribute) :
    valueOf name (⟨name.toList, v⟩ :: rest) = some v := by
  rw [valueOf, List.find?_cons_of_pos]
  · rfl
  · exact decide_eq_true rfl

theorem valueOf_other {name : String} {other : Text} (h : other ≠ name.toList) (v : Value)
    (rest : List Attribute) : valueOf name (⟨other, v⟩ :: rest) = valueOf name rest := by
  rw [valueOf, valueOf, List.find?_cons_of_neg]
  exact fun same => h (of_decide_eq_true same)

def Value.text : Value → Text
  | .bare s => s
  | .quoted s => '"' :: s ++ ['"']

def Attribute.text (a : Attribute) : Text := a.name ++ '=' :: a.value.text

def listText : List Attribute → Text
  | [] => []
  | [a] => a.text
  | a :: rest => a.text ++ ',' :: listText rest

def Stream.lines (s : Stream) : List Text := [streamTag ++ listText s.attributes, s.uri]

/-- `others` are the lines with other tags, which stand first. -/
def Master.lines (m : Master) (others : List Text) : List Text :=
  headerLine :: (others ++ m.media.map (mediaTag ++ listText ·) ++ m.streams.flatMap Stream.lines)

def Master.text (m : Master) (others : List Text) : Text :=
  (m.lines others).flatMap (· ++ ['\n'])

def Value.WellFormed : Value → Prop
  | .bare s => s ≠ [] ∧ s.all bareChar
  | .quoted s => quotable s

instance : (v : Value) → Decidable v.WellFormed
  | .bare s => inferInstanceAs (Decidable (s ≠ [] ∧ s.all bareChar))
  | .quoted s => inferInstanceAs (Decidable (quotable s))

structure Attribute.WellFormed (a : Attribute) : Prop where
  named : a.name ≠ []
  name : a.name.all nameChar
  value : a.value.WellFormed

structure ListWellFormed (as : List Attribute) : Prop where
  some : as ≠ []
  distinct : (as.map (·.name)).Nodup
  each : ∀ a ∈ as, a.WellFormed

structure Master.WellFormed (m : Master) : Prop where
  media : ∀ as ∈ m.media, ListWellFormed as
  streams : ∀ s ∈ m.streams, ListWellFormed s.attributes ∧ uriLine s.uri

/-- A line that is read and ignored. -/
structure Ignored (line : Text) : Prop where
  unbroken : unbroken line
  comment : line.head? = some '#'
  media : ¬ mediaTag <+: line
  stream : ¬ streamTag <+: line

theorem ne_of_all {p : Char → Bool} {s : Text} {c d : Char} (h : s.all p = true) (mem : c ∈ s)
    (bad : p d = false) : c ≠ d := by
  rintro rfl
  have := List.all_eq_true.mp h c mem
  rw [bad] at this
  cases this

theorem readValue_wellFormed {s : Text} {v : Value} (h : readValue s = some v) : v.WellFormed := by
  cases s with
  | nil => cases h
  | cons c rest =>
    rw [readValue] at h
    split at h
    · split at h
      · next closed =>
        cases h
        exact closed.2
      · cases h
    · split at h
      · next bare =>
        cases h
        exact ⟨List.cons_ne_nil _ _, bare⟩
      · cases h

theorem readAttribute_wellFormed {s : Text} {a : Attribute} (h : readAttribute s = some a) :
    a.WellFormed := by
  rw [readAttribute] at h
  split at h
  · cases h
  · split at h
    · next named =>
      obtain ⟨v, isValue, rfl⟩ := Option.map_eq_some_iff.mp h
      exact ⟨named.1, named.2, readValue_wellFormed isValue⟩
    · cases h

theorem pieces_ne_nil (inside : Bool) (s : Text) : pieces inside s ≠ [] := by
  induction s generalizing inside with
  | nil => exact List.cons_ne_nil _ _
  | cons c rest ih =>
    rw [pieces]
    split
    · exact List.cons_ne_nil _ _
    · simpa using ih _

theorem mapM_eq_some_iff {α β : Type} {f : α → Option β} {xs : List α} {ys : List β} :
    xs.mapM f = some ys ↔ xs.map f = ys.map some := by
  induction xs generalizing ys with
  | nil => cases ys <;> simp
  | cons x xs ih =>
    rw [List.mapM_cons]
    cases ys with
    | nil => cases f x <;> cases List.mapM f xs <;> simp
    | cons y ys =>
      rw [List.map_cons, List.map_cons, List.cons.injEq, ← ih]
      cases f x <;> cases List.mapM f xs <;> simp

theorem readList_wellFormed {s : Text} {as : List Attribute} (h : readList s = some as) :
    ListWellFormed as := by
  obtain ⟨read, all, unique⟩ := Option.bind_eq_some_iff.mp h
  split at unique
  · next distinct =>
    cases unique
    have each := mapM_eq_some_iff.mp all
    refine ⟨?_, distinct, fun a mem => ?_⟩
    · rintro rfl
      exact pieces_ne_nil false s (List.map_eq_nil_iff.mp each)
    · have found : some a ∈ (pieces false s).map readAttribute :=
        each ▸ List.mem_map_of_mem mem
      obtain ⟨piece, _, isRead⟩ := List.mem_map.mp found
      exact readAttribute_wellFormed isRead
  · cases unique

theorem items_wellFormed {pending : Option (List Attribute)} {ls : List Text} {m : Master}
    (before : ∀ as, pending = some as → ListWellFormed as) (h : items pending ls = some m) :
    m.WellFormed := by
  induction ls generalizing pending m with
  | nil =>
    cases pending with
    | some as => cases h
    | none =>
      cases h
      exact ⟨nofun, nofun⟩
  | cons line rest ih =>
    cases pending with
    | some as =>
      rw [items] at h
      split at h
      · next isUri =>
        obtain ⟨m', isRest, rfl⟩ := Option.map_eq_some_iff.mp h
        have wf := ih (by nofun) isRest
        refine ⟨wf.media, fun s mem => ?_⟩
        rcases List.mem_cons.mp mem with rfl | mem
        · exact ⟨before as rfl, isUri⟩
        · exact wf.streams s mem
      · cases h
    | none =>
      rw [items] at h
      split at h
      · next list _ =>
        obtain ⟨as, isList, isRest⟩ := Option.bind_eq_some_iff.mp h
        exact ih (fun as' eq => Option.some.inj eq ▸ readList_wellFormed isList) isRest
      · split at h
        · obtain ⟨as, isList, added⟩ := Option.bind_eq_some_iff.mp h
          obtain ⟨m', isRest, rfl⟩ := Option.map_eq_some_iff.mp added
          have wf := ih (by nofun) isRest
          refine ⟨fun as' mem => ?_, wf.streams⟩
          rcases List.mem_cons.mp mem with rfl | mem
          · exact readList_wellFormed isList
          · exact wf.media as' mem
        · split at h
          · exact ih (by nofun) h
          · cases h

theorem parse_wellFormed {t : Text} {m : Master} (h : parse t = some m) : m.WellFormed := by
  rw [parse] at h
  split at h
  · cases h
  · split at h
    · exact items_wellFormed (by nofun) h
    · cases h

theorem readValue_text {v : Value} (h : v.WellFormed) : readValue v.text = some v := by
  cases v with
  | bare s =>
    cases s with
    | nil => exact absurd rfl h.1
    | cons c rest =>
      have first : c ≠ '"' := ne_of_all h.2 (List.mem_cons_self ..) rfl
      rw [Value.text, readValue, if_neg first, if_pos h.2]
  | quoted s =>
    rw [Value.text, List.cons_append, readValue, if_pos rfl, List.getLast?_concat,
      List.dropLast_concat, if_pos ⟨rfl, h⟩]

theorem readAttribute_text {a : Attribute} (h : a.WellFormed) :
    readAttribute a.text = some a := by
  have plain : '=' ∉ a.name := fun mem => ne_of_all h.name mem rfl rfl
  obtain ⟨name, value⟩ := cut_append plain a.value.text
  rw [readAttribute, Attribute.text, name, value]
  dsimp only
  rw [if_pos ⟨h.named, h.name⟩, readValue_text h.value]
  rfl

theorem pieces_append {inside : Bool} {s : Text} (rest : Text)
    (h : ∀ c ∈ s, c ≠ '"' ∧ (c = ',' → inside = true)) :
    pieces inside (s ++ rest) = (pieces inside rest).modifyHead (s ++ ·) := by
  induction s with
  | nil =>
    rw [List.nil_append]
    cases pieces inside rest <;> rfl
  | cons c s ih =>
    have first := h c (List.mem_cons_self ..)
    have comma : ¬ (c = ',' ∧ inside = false) := by
      rintro ⟨rfl, out⟩
      simp [first.2 rfl] at out
    rw [List.cons_append, pieces, if_neg comma, if_neg first.1,
      ih fun c mem => h c (List.mem_cons_of_mem _ mem), List.modifyHead_modifyHead]
    rfl

theorem pieces_value {v : Value} (h : v.WellFormed) (rest : Text) :
    pieces false (v.text ++ rest) = (pieces false rest).modifyHead (v.text ++ ·) := by
  cases v with
  | bare s =>
    exact pieces_append _ fun c mem =>
      ⟨ne_of_all h.2 mem rfl, fun comma => absurd comma (ne_of_all h.2 mem rfl)⟩
  | quoted s =>
    have inside : ∀ c ∈ s, c ≠ '"' ∧ (c = ',' → true = true) := fun c mem =>
      ⟨ne_of_all h mem rfl, fun _ => rfl⟩
    have split : (Value.quoted s).text ++ rest = '"' :: (s ++ '"' :: rest) := by
      simp [Value.text]
    have quote : ∀ {q : Bool} {t : Text}, pieces q ('"' :: t) =
        (pieces (!q) t).modifyHead ('"' :: ·) := fun {q t} => if_neg (by simp)
    rw [split, quote, Bool.not_false, pieces_append _ inside, quote, Bool.not_true,
      List.modifyHead_modifyHead, List.modifyHead_modifyHead]
    simp [Value.text, Function.comp_def]

theorem pieces_attribute {a : Attribute} (h : a.WellFormed) (rest : Text) :
    pieces false (a.text ++ rest) = (pieces false rest).modifyHead (a.text ++ ·) := by
  have name : ∀ c ∈ a.name ++ ['='], c ≠ '"' ∧ (c = ',' → false = true) := by
    intro c mem
    rcases List.mem_append.mp mem with mem | mem
    · exact ⟨ne_of_all h.name mem rfl, fun comma => absurd comma (ne_of_all h.name mem rfl)⟩
    · rw [List.mem_singleton.mp mem]
      decide
  have split : a.text ++ rest = a.name ++ ['='] ++ (a.value.text ++ rest) := by
    simp [Attribute.text]
  rw [split, pieces_append _ name, pieces_value h.value, List.modifyHead_modifyHead]
  simp [Attribute.text, Function.comp_def]

theorem pieces_text {as : List Attribute} (some : as ≠ []) (h : ∀ a ∈ as, a.WellFormed) :
    pieces false (listText as) = as.map Attribute.text := by
  induction as with
  | nil => exact absurd rfl some
  | cons a rest ih =>
    cases rest with
    | nil =>
      have := pieces_attribute (h a (List.mem_cons_self ..)) []
      simpa [pieces, listText] using this
    | cons b rest =>
      rw [listText, pieces_attribute (h a (List.mem_cons_self ..)), pieces, if_pos ⟨rfl, rfl⟩,
        ih (List.cons_ne_nil _ _) fun a mem => h a (List.mem_cons_of_mem _ mem)]
      · simp
      · exact List.cons_ne_nil _ _

theorem readList_text {as : List Attribute} (h : ListWellFormed as) :
    readList (listText as) = some as := by
  have each : (as.map Attribute.text).mapM readAttribute = some as := by
    rw [mapM_eq_some_iff, List.map_map]
    exact List.map_congr_left fun a mem => readAttribute_text (h.each a mem)
  rw [readList, pieces_text h.some h.each, each]
  exact if_pos h.distinct

theorem chomp_unbroken {line : Text} (h : unbroken line) : chomp line = line := by
  exact if_neg fun last => ne_of_all h (List.mem_of_getLast? last) rfl rfl

theorem splitOn_lines {ls : List Text} (h : ∀ line ∈ ls, unbroken line) :
    (ls.flatMap (· ++ ['\n'])).splitOn '\n' = ls ++ [[]] := by
  induction ls with
  | nil => rfl
  | cons line rest ih =>
    have whole : '\n' ∉ line := fun mem =>
      ne_of_all (h line (List.mem_cons_self ..)) mem rfl rfl
    rw [List.flatMap_cons, List.append_assoc, List.singleton_append,
      List.splitOn_append_cons_self_of_not_mem whole,
      ih fun line mem => h line (List.mem_cons_of_mem _ mem), List.cons_append]

theorem lines_flatMap {ls : List Text} (h : ∀ line ∈ ls, unbroken line) :
    lines (ls.flatMap (· ++ ['\n'])) = ls := by
  rw [lines, splitOn_lines h, if_pos List.getLast?_concat, List.dropLast_concat]
  exact (List.map_congr_left fun line mem => chomp_unbroken (h line mem)).trans (List.map_id ls)

@[simp]
theorem unbroken_append (s t : Text) : unbroken (s ++ t) = (unbroken s && unbroken t) :=
  List.all_append

@[simp]
theorem unbroken_cons (c : Char) (s : Text) : unbroken (c :: s) = (!breaks c && unbroken s) :=
  List.all_cons

theorem unbroken_of_all {p : Char → Bool} {s : Text} (h : s.all p = true) (cr : p '\r' = false)
    (lf : p '\n' = false) : unbroken s = true := by
  refine List.all_eq_true.mpr fun c mem => ?_
  simp [breaks, ne_of_all h mem cr, ne_of_all h mem lf]

theorem quotable_of_all {p : Char → Bool} {s : Text} (h : s.all p = true) (quote : p '"' = false)
    (cr : p '\r' = false) (lf : p '\n' = false) : quotable s = true := by
  refine List.all_eq_true.mpr fun c mem => ?_
  simp [breaks, ne_of_all h mem quote, ne_of_all h mem cr, ne_of_all h mem lf]

theorem unbroken_value {v : Value} (h : v.WellFormed) : unbroken v.text = true := by
  cases v with
  | bare s => exact unbroken_of_all h.2 rfl rfl
  | quoted s =>
    have inside : unbroken s = true := unbroken_of_all h rfl rfl
    rw [Value.text, List.cons_append, unbroken_cons, unbroken_append, inside]
    rfl

theorem unbroken_attribute {a : Attribute} (h : a.WellFormed) : unbroken a.text = true := by
  rw [Attribute.text, unbroken_append, unbroken_cons, unbroken_value h.value,
    unbroken_of_all h.name rfl rfl]
  rfl

theorem unbroken_listText {as : List Attribute} (h : ∀ a ∈ as, a.WellFormed) :
    unbroken (listText as) = true := by
  induction as with
  | nil => rfl
  | cons a rest ih =>
    have first := unbroken_attribute (h a (List.mem_cons_self ..))
    cases rest with
    | nil => exact first
    | cons b rest =>
      rw [listText, unbroken_append, unbroken_cons, first,
        ih fun a mem => h a (List.mem_cons_of_mem _ mem)]
      · rfl
      · exact List.cons_ne_nil _ _

theorem unbroken_lines {m : Master} {others : List Text} (h : m.WellFormed)
    (ignored : ∀ line ∈ others, Ignored line) : ∀ line ∈ m.lines others, unbroken line = true := by
  intro line mem
  rw [Master.lines, List.mem_cons, List.mem_append, List.mem_append, List.mem_map,
    List.mem_flatMap] at mem
  rcases mem with rfl | (other | ⟨as, isMedia, rfl⟩) | ⟨s, isStream, mem⟩
  · rfl
  · exact (ignored line other).unbroken
  · rw [unbroken_append, unbroken_listText (h.media as isMedia).each]
    rfl
  · obtain ⟨list, uri⟩ := h.streams s isStream
    simp only [Stream.lines, List.mem_cons, List.not_mem_nil, or_false] at mem
    rcases mem with rfl | rfl
    · rw [unbroken_append, unbroken_listText list.each]
      rfl
    · simp only [uriLine, Bool.and_eq_true] at uri
      exact uri.2

theorem lines_text {m : Master} {others : List Text} (h : m.WellFormed)
    (ignored : ∀ line ∈ others, Ignored line) : lines (m.text others) = m.lines others :=
  lines_flatMap (unbroken_lines h ignored)

theorem length_lines (m : Master) (others : List Text) :
    (m.lines others).length = 1 + others.length + m.media.length + 2 * m.streams.length := by
  have streams : (m.streams.flatMap Stream.lines).length = 2 * m.streams.length := by
    induction m.streams with
    | nil => rfl
    | cons s rest ih =>
      rw [List.flatMap_cons, List.length_append, ih, List.length_cons, Stream.lines]
      simp only [List.length_cons, List.length_nil]
      omega
  rw [Master.lines, List.length_cons, List.length_append, List.length_append, List.length_map,
    streams]
  omega

theorem tagValue_append (tag list : Text) : tagValue tag (tag ++ list) = some list := by
  rw [tagValue, if_pos (List.prefix_append tag list), List.drop_left]

theorem items_streams {ss : List Stream}
    (h : ∀ s ∈ ss, ListWellFormed s.attributes ∧ uriLine s.uri) :
    items none (ss.flatMap Stream.lines) = some ⟨[], ss⟩ := by
  induction ss with
  | nil => rfl
  | cons s rest ih =>
    obtain ⟨list, uri⟩ := h s (List.mem_cons_self ..)
    rw [List.flatMap_cons, Stream.lines, List.cons_append, List.singleton_append, items,
      tagValue_append]
    dsimp only
    rw [readList_text list, Option.bind_some, items, if_pos uri,
      ih fun s mem => h s (List.mem_cons_of_mem _ mem)]
    rfl

theorem items_media {as : List Attribute} (h : ListWellFormed as) (rest : List Text) :
    items none ((mediaTag ++ listText as) :: rest) =
      (items none rest).map fun m => { m with media := as :: m.media } := by
  have other : tagValue streamTag (mediaTag ++ listText as) = none := by
    refine if_neg ?_
    rintro ⟨t, same⟩
    have letter := congrArg (·[7]?) same
    rw [List.getElem?_append_left (by decide), List.getElem?_append_left (by decide)] at letter
    exact absurd letter (by decide)
  rw [items, other]
  dsimp only
  rw [tagValue_append]
  dsimp only
  rw [readList_text h, Option.bind_some]

theorem items_ignored {line : Text} (h : Ignored line) (rest : List Text) :
    items none (line :: rest) = items none rest := by
  rw [items, tagValue, if_neg h.stream]
  dsimp only
  rw [tagValue, if_neg h.media]
  exact if_pos (Or.inr h.comment)

theorem parse_text {m : Master} {others : List Text} (h : m.WellFormed)
    (ignored : ∀ line ∈ others, Ignored line) : parse (m.text others) = some m := by
  have media : ∀ {lists : List (List Attribute)}, (∀ as ∈ lists, ListWellFormed as) →
      items none (lists.map (mediaTag ++ listText ·) ++ m.streams.flatMap Stream.lines) =
        some ⟨lists, m.streams⟩ := by
    intro lists each
    induction lists with
    | nil => exact items_streams h.streams
    | cons as rest ih =>
      rw [List.map_cons, List.cons_append, items_media (each as (List.mem_cons_self ..)),
        ih fun as mem => each as (List.mem_cons_of_mem _ mem)]
      rfl
  have before : ∀ {ls rest : List Text}, (∀ line ∈ ls, Ignored line) →
      items none (ls ++ rest) = items none rest := by
    intro ls rest each
    induction ls with
    | nil => rfl
    | cons line ls ih =>
      rw [List.cons_append, items_ignored (each line (List.mem_cons_self ..)),
        ih fun line mem => each line (List.mem_cons_of_mem _ mem)]
  rw [parse, lines_text h ignored, Master.lines]
  dsimp only
  rw [if_pos rfl, List.append_assoc, before ignored, media h.media]

/-- The group that a stream names for a type of renditions. -/
def Stream.group (type : String) (s : Stream) : Option Text :=
  (valueOf type s.attributes).bind Value.string

def inGroup (type : String) (group : Text) (as : List Attribute) : Bool :=
  valueOf "TYPE" as = some (.bare type.toList) && valueOf "GROUP-ID" as = some (.quoted group)

def isDefault (as : List Attribute) : Bool := valueOf "DEFAULT" as = some (.bare "YES".toList)

/-- The groups that are named exist, and a group has one default at most. -/
structure Master.Consistent (type : String) (m : Master) : Prop where
  defined : ∀ s ∈ m.streams, ∀ group, s.group type = some group →
    ∃ as ∈ m.media, inGroup type group as = true
  oneDefault : ∀ group, m.media.countP (fun as => inGroup type group as && isDefault as) ≤ 1

/-- A playlist with a single group, in which every rendition is a default. -/
theorem Master.consistent_iff {type : String} {group : Text} {m : Master}
    (named : ∀ s ∈ m.streams, s.group type = some group)
    (members : ∀ as ∈ m.media, inGroup type group as = true ∧ isDefault as = true) :
    m.Consistent type ↔ m.media.length ≤ 1 ∧ (m.streams ≠ [] → m.media ≠ []) := by
  constructor
  · intro consistent
    constructor
    · have all : m.media.countP (fun as => inGroup type group as && isDefault as) =
          m.media.length := List.countP_eq_length.mpr fun as mem => by
        rw [(members as mem).1, (members as mem).2]
        rfl
      rw [← all]
      exact consistent.oneDefault group
    · intro some none
      obtain ⟨s, isStream⟩ := List.exists_mem_of_ne_nil _ some
      obtain ⟨as, isMedia, _⟩ := consistent.defined s isStream group (named s isStream)
      rw [none] at isMedia
      cases isMedia
  · rintro ⟨few, both⟩
    constructor
    · intro s isStream other isGroup
      rw [named s isStream, Option.some.injEq] at isGroup
      subst isGroup
      obtain ⟨as, isMedia⟩ := List.exists_mem_of_ne_nil _ (both (List.ne_nil_of_mem isStream))
      exact ⟨as, isMedia, (members as isMedia).1⟩
    · intro other
      exact le_trans List.countP_le_length few

end Vidsilo.Library.HlsMaster
