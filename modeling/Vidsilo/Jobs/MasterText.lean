import Vidsilo.Jobs.ServedKeys
import Vidsilo.Library.HlsMaster

/-!
# What a player reads in the master playlist

Source: internal/media/media.go:284-335. `readMaster` is the reading of a player: the playlists
of the format whose attributes have the types that the tags give them. `written` is what
`BuildMasterPlaylist` writes, where the labels and names have the backslashes of `escapeQuoted`.
-/
namespace Vidsilo.Jobs.MasterText
open Library Library.SlashPath Library.Decimal Library.HlsMaster
open Master (Rendition SubtitleRendition Playlist buildMasterPlaylist escapeQuoted)

def readSubtitle (as : List Attribute) : Option SubtitleRendition :=
  if valueOf "TYPE" as = some (.bare "SUBTITLES".toList) ∧
      valueOf "GROUP-ID" as = some (.quoted "subs".toList) then
    ((valueOf "LANGUAGE" as).bind Value.string).bind fun lang =>
      ((valueOf "NAME" as).bind Value.string).bind fun label =>
        ((valueOf "URI" as).bind Value.string).map fun uri => ⟨lang, label, uri⟩
  else none

/-- A bandwidth of 1000000 is that of no bitrate. -/
def bitrate (bandwidth : Nat) : Int := if bandwidth = 1000000 then 0 else bandwidth / 1024

def readRendition (s : Stream) : Option Rendition :=
  ((valueOf "BANDWIDTH" s.attributes).bind Value.integer).bind fun bandwidth =>
    ((valueOf "RESOLUTION" s.attributes).bind Value.resolution).bind fun resolution =>
      ((valueOf "NAME" s.attributes).bind Value.string).map fun name =>
        ⟨name, resolution.2, bitrate bandwidth, s.uri⟩

def readMaster (t : Text) : Option Playlist :=
  (parse t).bind fun m =>
    (m.streams.mapM readRendition).bind fun renditions =>
      (m.media.mapM readSubtitle).map fun subtitles => ⟨renditions, subtitles⟩

def mediaNames : List Text :=
  ["TYPE".toList, "GROUP-ID".toList, "NAME".toList, "DEFAULT".toList, "AUTOSELECT".toList,
    "FORCED".toList, "LANGUAGE".toList, "URI".toList]

def streamNames : List Text :=
  ["BANDWIDTH".toList, "RESOLUTION".toList, "NAME".toList, "SUBTITLES".toList]

structure Recovered (p : Playlist) : Prop where
  lists : readMaster (buildMasterPlaylist p) = some p
  media : ∀ m, parse (buildMasterPlaylist p) = some m →
    ∀ as ∈ m.media, as.map (·.name) = mediaNames
  streams : ∀ m, parse (buildMasterPlaylist p) = some m →
    ∀ s ∈ m.streams, s.attributes.map (·.name) = streamNames
  lines : (lines (buildMasterPlaylist p)).length =
    2 + p.subtitles.length + 2 * p.renditions.length

def writtenSubtitle (sub : SubtitleRendition) : List Attribute :=
  [⟨"TYPE".toList, .bare "SUBTITLES".toList⟩, ⟨"GROUP-ID".toList, .quoted "subs".toList⟩,
    ⟨"NAME".toList, .quoted (escapeQuoted sub.label)⟩, ⟨"DEFAULT".toList, .bare "YES".toList⟩,
    ⟨"AUTOSELECT".toList, .bare "YES".toList⟩, ⟨"FORCED".toList, .bare "NO".toList⟩,
    ⟨"LANGUAGE".toList, .quoted sub.lang⟩, ⟨"URI".toList, .quoted sub.uri⟩]

def writtenRendition (r : Rendition) : Stream where
  attributes :=
    [⟨"BANDWIDTH".toList, .bare (formatInt r.bandwidth)⟩,
      ⟨"RESOLUTION".toList, .bare ("0x".toList ++ formatInt r.height)⟩,
      ⟨"NAME".toList, .quoted (escapeQuoted r.name)⟩, ⟨"SUBTITLES".toList, .quoted "subs".toList⟩]
  uri := r.playlistKey

def written (p : Playlist) : HlsMaster.Master where
  media := p.subtitles.map writtenSubtitle
  streams := p.renditions.map writtenRendition

def versionLine : Text := "#EXT-X-VERSION:3".toList

theorem ignored_version : ∀ line ∈ [versionLine], Ignored line := by
  intro line mem
  rw [List.mem_singleton.mp mem]
  exact ⟨by decide, by decide, by decide, by decide⟩

theorem subtitle_line (sub : SubtitleRendition) :
    mediaTag ++ listText (writtenSubtitle sub) ++ ['\n'] = sub.line := by
  unfold SubtitleRendition.line Master.quoted writtenSubtitle mediaTag
  simp only [listText, Attribute.text, Value.text, String.reduceToList, List.append_assoc,
    List.cons_append, List.nil_append]

theorem rendition_lines (r : Rendition) :
    (writtenRendition r).lines.flatMap (· ++ ['\n']) = r.line := by
  unfold Rendition.line Master.quoted writtenRendition Stream.lines streamTag
  simp only [listText, Attribute.text, Value.text, String.reduceToList, List.flatMap_cons,
    List.flatMap_nil, List.append_nil, List.append_assoc, List.cons_append, List.nil_append]

theorem build_eq (p : Playlist) : buildMasterPlaylist p = (written p).text [versionLine] := by
  have media : ((written p).media.map (mediaTag ++ listText ·)).flatMap (· ++ ['\n']) =
      p.subtitles.flatMap SubtitleRendition.line := by
    rw [written, List.map_map, List.flatMap_map]
    exact List.flatMap_congr fun sub _ => subtitle_line sub
  have streams : ((written p).streams.flatMap Stream.lines).flatMap (· ++ ['\n']) =
      p.renditions.flatMap Rendition.line := by
    rw [written, List.flatMap_map, List.flatMap_assoc]
    exact List.flatMap_congr fun r _ => rendition_lines r
  unfold buildMasterPlaylist HlsMaster.Master.text HlsMaster.Master.lines headerLine versionLine
  rw [List.flatMap_cons, List.flatMap_append, List.flatMap_append, media, streams]
  simp only [String.reduceToList, List.flatMap_cons, List.flatMap_nil, List.append_nil,
    List.cons_append, List.nil_append]

theorem escapeQuoted_of_not_mem {s : Text} (h : '"' ∉ s) :
    escapeQuoted s = s.flatMap fun c => if c = '\\' then ['\\', '\\'] else [c] := by
  have same : ∀ {t : Text}, '"' ∉ t →
      (t.flatMap fun c => if c = '"' then ['\\', '"'] else [c]) = t := by
    intro t without
    induction t with
    | nil => rfl
    | cons c t ih =>
      rw [List.mem_cons, not_or] at without
      rw [List.flatMap_cons, if_neg (Ne.symm without.1), ih without.2, List.singleton_append]
  rw [escapeQuoted]
  refine same fun mem => ?_
  obtain ⟨c, isChar, mem⟩ := List.mem_flatMap.mp mem
  split at mem
  · simp at mem
  · rw [List.mem_singleton.mp mem] at h
    exact h isChar

theorem quotable_escapeQuoted {s : Text} (h : quotable s = true) :
    quotable (escapeQuoted s) = true := by
  rw [escapeQuoted_of_not_mem fun mem => ne_of_all h mem rfl rfl, quotable, List.all_flatMap]
  refine List.all_eq_true.mpr fun c mem => ?_
  split
  · rfl
  · rw [List.all_cons, List.all_nil, Bool.and_true]
    exact List.all_eq_true.mp h c mem

theorem mem_escapeQuoted {s : Text} {c : Char} (mem : c ∈ s) : c ∈ escapeQuoted s := by
  have self : ∀ d : Char, c ∈ if c = d then ['\\', d] else [c] := by
    intro d
    split
    next same => simp [same]
    next => exact List.mem_singleton_self c
  exact List.mem_flatMap.mpr ⟨c, List.mem_flatMap.mpr ⟨c, mem, self '\\'⟩, self '"'⟩

theorem quotable_of_escapeQuoted {s : Text} (h : quotable (escapeQuoted s) = true) :
    quotable s = true :=
  List.all_eq_true.mpr fun c mem => List.all_eq_true.mp h c (mem_escapeQuoted mem)

theorem escapeQuoted_eq_self_iff {s : Text} (h : quotable s = true) :
    escapeQuoted s = s ↔ '\\' ∉ s := by
  have grows : (s.flatMap fun c => if c = '\\' then ['\\', '\\'] else [c]).length =
      s.length + s.count '\\' := by
    clear h
    induction s with
    | nil => rfl
    | cons c s ih =>
      rw [List.flatMap_cons, List.length_append, ih, List.length_cons, List.count_cons]
      by_cases slash : c = '\\'
      · simp [slash]
        omega
      · simp [slash]
        omega
  rw [escapeQuoted_of_not_mem fun mem => ne_of_all h mem rfl rfl]
  constructor
  · intro same mem
    rw [same] at grows
    have := List.count_pos_iff.mpr mem
    omega
  · intro without
    have each : ∀ c ∈ s, (if c = '\\' then ['\\', '\\'] else [c]) = [c] := fun c mem =>
      if_neg (by rintro rfl; exact without mem)
    rw [List.flatMap_congr each, List.flatMap_singleton']

structure Readable (p : Playlist) : Prop where
  subtitles : ∀ sub ∈ p.subtitles, quotable sub.label ∧ quotable sub.lang ∧ quotable sub.uri
  renditions : ∀ r ∈ p.renditions,
    quotable r.name ∧ 0 ≤ r.height ∧ 0 ≤ r.bitrate ∧ uriLine r.playlistKey

/-- The texts stay in their places, whatever the numbers are. -/
structure Legible (p : Playlist) : Prop where
  subtitles : ∀ sub ∈ p.subtitles, quotable sub.label ∧ quotable sub.lang ∧ quotable sub.uri
  renditions : ∀ r ∈ p.renditions, quotable r.name ∧ uriLine r.playlistKey

theorem Readable.legible {p : Playlist} (h : Readable p) : Legible p where
  subtitles := h.subtitles
  renditions r mem := ⟨(h.renditions r mem).1, (h.renditions r mem).2.2.2⟩

theorem valueOf_quotable {as : List Attribute} (wf : ∀ a ∈ as, a.WellFormed) {name : String}
    {s : Text} (h : (valueOf name as).bind Value.string = some s) : quotable s := by
  obtain ⟨v, isValue, isString⟩ := Option.bind_eq_some_iff.mp h
  obtain ⟨a, isFound, rfl⟩ := Option.map_eq_some_iff.mp isValue
  have := (wf a (List.mem_of_find?_eq_some isFound)).value
  cases isQuoted : a.value with
  | bare t =>
    rw [isQuoted] at isString
    cases isString
  | quoted t =>
    rw [isQuoted] at isString this
    cases isString
    exact this

theorem readSubtitle_readable {as : List Attribute} (wf : ∀ a ∈ as, a.WellFormed)
    {sub : SubtitleRendition} (h : readSubtitle as = some sub) :
    quotable sub.label ∧ quotable sub.lang ∧ quotable sub.uri := by
  rw [readSubtitle] at h
  split at h
  · obtain ⟨lang, isLang, h⟩ := Option.bind_eq_some_iff.mp h
    obtain ⟨label, isLabel, h⟩ := Option.bind_eq_some_iff.mp h
    obtain ⟨uri, isUri, rfl⟩ := Option.map_eq_some_iff.mp h
    exact ⟨valueOf_quotable wf isLabel, valueOf_quotable wf isLang, valueOf_quotable wf isUri⟩
  · cases h

theorem bitrate_nonneg (bandwidth : Nat) : 0 ≤ bitrate bandwidth := by
  rw [bitrate]
  split
  · exact le_refl _
  · omega

theorem readRendition_readable {s : Stream} (wf : ∀ a ∈ s.attributes, a.WellFormed)
    (isLine : uriLine s.uri) {r : Rendition} (h : readRendition s = some r) :
    quotable r.name ∧ 0 ≤ r.height ∧ 0 ≤ r.bitrate ∧ uriLine r.playlistKey := by
  obtain ⟨bandwidth, _, h⟩ := Option.bind_eq_some_iff.mp h
  obtain ⟨resolution, _, h⟩ := Option.bind_eq_some_iff.mp h
  obtain ⟨name, isName, rfl⟩ := Option.map_eq_some_iff.mp h
  exact ⟨valueOf_quotable wf isName, Int.natCast_nonneg _, bitrate_nonneg _, isLine⟩

/-- Nothing else is ever read. -/
theorem readMaster_readable {t : Text} {p : Playlist} (h : readMaster t = some p) :
    Readable p := by
  obtain ⟨m, isParsed, h⟩ := Option.bind_eq_some_iff.mp h
  obtain ⟨renditions, areRenditions, h⟩ := Option.bind_eq_some_iff.mp h
  obtain ⟨subtitles, areSubtitles, rfl⟩ := Option.map_eq_some_iff.mp h
  have wf := parse_wellFormed isParsed
  constructor
  · intro sub mem
    have found : some sub ∈ m.media.map readSubtitle :=
      mapM_eq_some_iff.mp areSubtitles ▸ List.mem_map_of_mem mem
    obtain ⟨as, isMedia, isRead⟩ := List.mem_map.mp found
    exact readSubtitle_readable (wf.media as isMedia).each isRead
  · intro r mem
    have found : some r ∈ m.streams.map readRendition :=
      mapM_eq_some_iff.mp areRenditions ▸ List.mem_map_of_mem mem
    obtain ⟨s, isStream, isRead⟩ := List.mem_map.mp found
    obtain ⟨list, isLine⟩ := wf.streams s isStream
    exact readRendition_readable list.each isLine isRead

def escapedSubtitle (sub : SubtitleRendition) : SubtitleRendition :=
  { sub with label := escapeQuoted sub.label }

def escapedRendition (r : Rendition) : Rendition := { r with name := escapeQuoted r.name }

def escaped (p : Playlist) : Playlist :=
  ⟨p.renditions.map escapedRendition, p.subtitles.map escapedSubtitle⟩

theorem readSubtitle_written (sub : SubtitleRendition) :
    readSubtitle (writtenSubtitle sub) = some (escapedSubtitle sub) := by
  rw [readSubtitle, writtenSubtitle]
  simp (disch := decide) only [valueOf_self, valueOf_other, and_self, if_true, Option.bind_some,
    Option.map_some, Value.string, escapedSubtitle]

theorem bandwidth_of_nonneg {r : Rendition} (h : 0 ≤ r.bitrate) :
    ∃ n : Nat, r.bandwidth = n ∧ bitrate n = r.bitrate := by
  rw [Rendition.bandwidth]
  split
  · refine ⟨1000000, rfl, ?_⟩
    rw [bitrate, if_pos rfl]
    omega
  · obtain ⟨n, isBitrate⟩ := Int.eq_ofNat_of_zero_le h
    refine ⟨n * 1024, by omega, ?_⟩
    rw [bitrate, if_neg (by omega)]
    omega

theorem readRendition_written {r : Rendition} (height : 0 ≤ r.height) (rate : 0 ≤ r.bitrate) :
    readRendition (writtenRendition r) = some (escapedRendition r) := by
  obtain ⟨bandwidth, isBandwidth, same⟩ := bandwidth_of_nonneg rate
  obtain ⟨n, isHeight⟩ := Int.eq_ofNat_of_zero_le height
  have integer : (Value.bare (formatInt r.bandwidth)).integer = some bandwidth := by
    rw [isBandwidth]
    exact parseUint_toDigits bandwidth
  have resolution : (Value.bare ("0x".toList ++ formatInt r.height)).resolution = some (0, n) := by
    rw [isHeight]
    have zero : parseUint ['0'] = some 0 := by decide
    have digits : parseUint (formatInt n) = some n := parseUint_toDigits n
    simp [Value.resolution, Value.keyword, zero, digits]
  rw [readRendition, writtenRendition]
  simp (disch := decide) only [valueOf_self, valueOf_other, Option.bind_some, Option.map_some,
    Value.string, integer, resolution, same, ← isHeight, escapedRendition]

theorem formatInt_wellFormed (n : Int) : (Value.bare (formatInt n)).WellFormed := by
  have chars : (formatInt n).all (fun c => c.isDigit || c = '-') = true :=
    List.all_eq_true.mpr fun c mem => by simpa using formatInt_chars n c mem
  refine ⟨formatInt_ne_nil n, List.all_eq_true.mpr fun c mem => ?_⟩
  have other : ∀ d : Char, (d.isDigit || decide (d = '-')) = false → c ≠ d := fun d bad =>
    ne_of_all chars mem bad
  simp [bareChar, Char.isWhitespace, other '"' rfl, other ',' rfl, other ' ' rfl, other '\t' rfl,
    other '\r' rfl, other '\n' rfl]

theorem listWellFormed {as : List Attribute} {names : List Text}
    (isNames : as.map (·.name) = names) (some : names ≠ []) (distinct : names.Nodup)
    (chars : ∀ name ∈ names, name ≠ [] ∧ name.all nameChar)
    (values : ∀ a ∈ as, a.value.WellFormed) : ListWellFormed as := by
  subst isNames
  refine ⟨fun none => some (by rw [none]; rfl), distinct, fun a mem => ?_⟩
  obtain ⟨named, isName⟩ := chars a.name (List.mem_map_of_mem mem)
  exact ⟨named, isName, values a mem⟩

theorem writtenSubtitle_wellFormed {sub : SubtitleRendition}
    (h : quotable sub.label ∧ quotable sub.lang ∧ quotable sub.uri) :
    ListWellFormed (writtenSubtitle sub) := by
  have isNames : (writtenSubtitle sub).map (·.name) = mediaNames := rfl
  refine listWellFormed isNames (by decide) (by decide +kernel) (by decide +kernel) ?_
  simp only [writtenSubtitle, List.forall_mem_cons]
  exact ⟨by decide, by decide, quotable_escapeQuoted h.1, by decide, by decide, by decide, h.2.1,
    h.2.2, nofun⟩

theorem writtenRendition_wellFormed {r : Rendition} (h : quotable r.name) :
    ListWellFormed (writtenRendition r).attributes := by
  have isNames : (writtenRendition r).attributes.map (·.name) = streamNames := rfl
  refine listWellFormed isNames (by decide) (by decide +kernel) (by decide +kernel) ?_
  simp only [writtenRendition, List.forall_mem_cons]
  refine ⟨formatInt_wellFormed _, ⟨?_, ?_⟩, quotable_escapeQuoted h, by decide, nofun⟩
  · simp
  · rw [List.all_append, (formatInt_wellFormed r.height).2]
    decide

theorem written_wellFormed {p : Playlist} (h : Legible p) : (written p).WellFormed := by
  constructor
  · intro as mem
    obtain ⟨sub, isSub, rfl⟩ := List.mem_map.mp mem
    exact writtenSubtitle_wellFormed (h.subtitles sub isSub)
  · intro s mem
    obtain ⟨r, isRendition, rfl⟩ := List.mem_map.mp mem
    obtain ⟨name, isLine⟩ := h.renditions r isRendition
    exact ⟨writtenRendition_wellFormed name, isLine⟩

theorem legible_of_wellFormed {p : Playlist} (h : (written p).WellFormed) : Legible p := by
  constructor
  · intro sub mem
    have each := (h.media _ (List.mem_map_of_mem mem)).each
    simp only [writtenSubtitle, List.forall_mem_cons] at each
    obtain ⟨_, _, label, _, _, _, lang, uri, _⟩ := each
    exact ⟨quotable_of_escapeQuoted label.value, lang.value, uri.value⟩
  · intro r mem
    obtain ⟨list, isLine⟩ := h.streams _ (List.mem_map_of_mem mem)
    have each := list.each
    simp only [writtenRendition, List.forall_mem_cons] at each
    obtain ⟨_, _, name, _⟩ := each
    exact ⟨quotable_of_escapeQuoted name.value, isLine⟩

theorem parse_build {p : Playlist} (h : Legible p) :
    parse (buildMasterPlaylist p) = some (written p) := by
  rw [build_eq]
  exact parse_text (written_wellFormed h) ignored_version

/-- The tags are read as they are written exactly where the texts stay in their places. -/
theorem parse_build_iff (p : Playlist) :
    parse (buildMasterPlaylist p) = some (written p) ↔ Legible p :=
  ⟨fun read => legible_of_wellFormed (parse_wellFormed read), parse_build⟩

theorem readMaster_build {p : Playlist} (h : Readable p) :
    readMaster (buildMasterPlaylist p) = some (escaped p) := by
  have renditions : (written p).streams.mapM readRendition = some (escaped p).renditions := by
    rw [mapM_eq_some_iff, written, escaped, List.map_map, List.map_map]
    refine List.map_congr_left fun r mem => ?_
    obtain ⟨_, height, rate, _⟩ := h.renditions r mem
    exact readRendition_written height rate
  have subtitles : (written p).media.mapM readSubtitle = some (escaped p).subtitles := by
    rw [mapM_eq_some_iff, written, escaped, List.map_map, List.map_map]
    exact List.map_congr_left fun sub _ => readSubtitle_written sub
  rw [readMaster, parse_build h.legible, Option.bind_some, renditions, Option.bind_some, subtitles]
  rfl

/-- The texts in quotes hold no quote and no line break, labels and names no backslash either,
the numbers are not negative, and the lines of the renditions are those of URIs. -/
structure Verbatim (p : Playlist) : Prop extends Readable p where
  labels : ∀ sub ∈ p.subtitles, '\\' ∉ sub.label
  names : ∀ r ∈ p.renditions, '\\' ∉ r.name

theorem map_eq_self_iff {α : Type} {f : α → α} {l : List α} :
    l.map f = l ↔ ∀ a ∈ l, f a = a := by
  induction l with
  | nil => simp
  | cons a l ih => rw [List.map_cons, List.cons.injEq, ih, List.forall_mem_cons]

theorem escaped_eq_self_iff {p : Playlist} (h : Readable p) : escaped p = p ↔ Verbatim p := by
  have subtitle : ∀ sub ∈ p.subtitles, escapedSubtitle sub = sub ↔ '\\' ∉ sub.label := by
    intro sub mem
    rw [← escapeQuoted_eq_self_iff (h.subtitles sub mem).1]
    exact ⟨congrArg SubtitleRendition.label, fun same => by rw [escapedSubtitle, same]⟩
  have rendition : ∀ r ∈ p.renditions, escapedRendition r = r ↔ '\\' ∉ r.name := by
    intro r mem
    rw [← escapeQuoted_eq_self_iff (h.renditions r mem).1]
    exact ⟨congrArg Rendition.name, fun same => by rw [escapedRendition, same]⟩
  constructor
  · intro same
    have subtitles := map_eq_self_iff.mp (congrArg Playlist.subtitles same)
    have renditions := map_eq_self_iff.mp (congrArg Playlist.renditions same)
    exact ⟨h, fun sub mem => (subtitle sub mem).mp (subtitles sub mem),
      fun r mem => (rendition r mem).mp (renditions r mem)⟩
  · intro verbatim
    rw [escaped, map_eq_self_iff.mpr fun r mem => (rendition r mem).mpr (verbatim.names r mem),
      map_eq_self_iff.mpr fun sub mem => (subtitle sub mem).mpr (verbatim.labels sub mem)]

theorem recovered_iff (p : Playlist) : Recovered p ↔ Verbatim p := by
  constructor
  · intro recovered
    have readable := readMaster_readable recovered.lists
    have same := recovered.lists
    rw [readMaster_build readable] at same
    exact (escaped_eq_self_iff readable).mp (Option.some.inj same)
  · intro h
    have readable := h.toReadable
    constructor
    · rw [readMaster_build readable, (escaped_eq_self_iff readable).mpr h]
    · intro m isParsed as mem
      rw [parse_build readable.legible] at isParsed
      cases isParsed
      obtain ⟨sub, _, rfl⟩ := List.mem_map.mp mem
      rfl
    · intro m isParsed s mem
      rw [parse_build readable.legible] at isParsed
      cases isParsed
      obtain ⟨r, _, rfl⟩ := List.mem_map.mp mem
      rfl
    · rw [build_eq, lines_text (written_wellFormed readable.legible) ignored_version, length_lines, written,
        List.length_map, List.length_map, List.length_singleton]

/-- The language of a form, with the key of its file. -/
def extraAttribute : Playlist :=
  ⟨[], [⟨"en\",CHANNELS=\"2".toList, "English".toList, "/media/entries/1/subs/en.vtt".toList⟩]⟩

theorem attribute_added : ¬ Recovered extraAttribute ∧
    (parse (buildMasterPlaylist extraAttribute)).map (fun m => m.media.map (·.map (·.name))) =
      some [["TYPE".toList, "GROUP-ID".toList, "NAME".toList, "DEFAULT".toList,
        "AUTOSELECT".toList, "FORCED".toList, "LANGUAGE".toList, "CHANNELS".toList,
        "URI".toList]] := by
  have names : (parse (buildMasterPlaylist extraAttribute)).map
      (fun m => m.media.map (·.map (·.name))) = some [["TYPE".toList, "GROUP-ID".toList,
        "NAME".toList, "DEFAULT".toList, "AUTOSELECT".toList, "FORCED".toList, "LANGUAGE".toList,
        "CHANNELS".toList, "URI".toList]] := by
    decide +kernel
  refine ⟨fun recovered => ?_, names⟩
  obtain ⟨m, isParsed, isNames⟩ := Option.map_eq_some_iff.mp names
  obtain ⟨as, mem, nine⟩ := List.mem_map.mp (isNames ▸ List.mem_singleton_self _)
  have eight := congrArg List.length (recovered.media m isParsed as mem)
  rw [nine] at eight
  exact absurd eight (by decide)

theorem quotable_mediaURI {key : Text} (h : quotable key = true) :
    quotable (Master.mediaURI key) = true := by
  unfold quotable Master.mediaURI Api.MediaAcl.trimPrefixSlash at *
  rw [List.all_append, Bool.and_eq_true]
  refine ⟨by decide, List.all_eq_true.mpr fun c mem => List.all_eq_true.mp h c ?_⟩
  split at mem
  · exact List.mem_of_mem_drop mem
  · exact mem

/-- The file of a subtitle never breaks its attribute; the language of the form, which is stored
beside it, may. -/
theorem quotable_subtitle_uri (entry : Int) (lang : Text) :
    quotable (Master.mediaURI (Master.subtitleKey entry lang)) = true := by
  have number : quotable (formatInt entry) = true :=
    quotable_of_all (formatInt_wellFormed entry).2 rfl (by decide) (by decide)
  have file : quotable (Master.sanitizeLang lang) = true :=
    quotable_of_all (Master.sanitizeLang_chars lang) (by decide) (by decide) (by decide)
  refine quotable_mediaURI ?_
  rw [(Master.subtitleKey_eq entry lang).2]
  simp only [joinSlash_cons, joinSlash_singleton]
  unfold quotable at *
  simp only [List.all_append, List.all_cons, number, file]
  decide

end Vidsilo.Jobs.MasterText
