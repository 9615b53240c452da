import Vidsilo.Jobs.Master
import Vidsilo.Library.UriPath

/-!
# The guard of the media route on the keys of an entry

Source: internal/api/embed_acl.go:108-154, internal/store/keys.go:22-72, internal/jobs/jobs.go:694-729.
The playlist has the keys as they are. What a request for one of its URIs binds to the key is read
from the URI: its query is cut off, and its escapes are decoded.
-/
namespace Vidsilo.Jobs.Master
open Library.SlashPath Library.Decimal Library.UriPath Storage.Keys Api.MediaAcl

/-- The guard lets every visitor through to the key whom it lets through to the master. -/
def Served (entry : Int) (key : Text) : Prop :=
  (entriesRoot ++ ['/']) <+: key ∧
    entryIDFromMediaKey key = entryIDFromMediaKey (masterKey entry) ∧ isOriginalKey key = false

instance (entry : Int) (key : Text) : Decidable (Served entry key) :=
  inferInstanceAs (Decidable (_ ∧ _))

def mediaRoute : Text := "/media/".toList

/-- What `/media/{key...}` binds to the key. -/
def routed (uri : Text) : Option Text :=
  (requestPath uri).bind fun path =>
    if mediaRoute.isPrefixOf path then some (path.drop mediaRoute.length) else none

/-- The guard serves the key, and a URI spells it as it is. -/
def Offered (entry : Int) (key : Text) : Prop := Served entry key ∧ key.all literal = true

instance (entry : Int) (key : Text) : Decidable (Offered entry key) :=
  inferInstanceAs (Decidable (_ ∧ _))

/-- The visitor gets what the URI names. -/
def Admits (server : Server) (visitor : Request) (uri : Text) : Prop :=
  ∃ value, routed uri = some value ∧ mediaACL server { visitor with pathValue := value } = .ok ()

def Playlist.uris (p : Playlist) : List Text :=
  p.renditions.map (·.playlistKey) ++ p.subtitles.map (·.uri)

def ServedUri (entry : Int) (uri : Text) : Prop :=
  ∃ value, routed uri = some value ∧ Served entry (trimPrefixSlash value)

instance (entry : Int) (uri : Text) : Decidable (ServedUri entry uri) :=
  decidable_of_iff ((routed uri).any (fun value => Served entry (trimPrefixSlash value)) = true) (by
    simp [ServedUri, Option.any_eq_true])

theorem literal_trimPrefixSlash {key : Text} (h : key.all literal = true) :
    (trimPrefixSlash key).all literal = true := by
  unfold trimPrefixSlash
  split
  · rw [List.all_eq_true] at h ⊢
    exact fun c mem => h c (List.mem_of_mem_drop mem)
  · exact h

theorem routed_mediaURI {key : Text} (h : key.all literal = true) :
    routed (mediaURI key) = some (trimPrefixSlash key) := by
  have spelled : (mediaURI key).all literal = true := by
    unfold mediaURI
    rw [List.all_append]
    exact Bool.and_eq_true_iff.mpr ⟨by decide, literal_trimPrefixSlash h⟩
  rw [routed, requestPath_literal spelled, Option.bind_some, if_pos]
  · exact congrArg some List.drop_left
  · exact List.isPrefixOf_iff_prefix.mpr (List.prefix_append _ _)

theorem trimPrefixSlash_of_entries {key : Text} (h : (entriesRoot ++ ['/']) <+: key) :
    trimPrefixSlash key = key := by
  obtain ⟨rest, rfl⟩ := h
  rfl

theorem Offered.mediaURI {entry : Int} {key : Text} (h : Offered entry key) :
    ServedUri entry (mediaURI key) := by
  refine ⟨_, routed_mediaURI h.2, ?_⟩
  rw [trimPrefixSlash_of_entries h.1.1, trimPrefixSlash_of_entries h.1.1]
  exact h.1

theorem literal_formatInt (n : Int) : (formatInt n).all literal = true := by
  rw [List.all_eq_true]
  intro c mem
  rcases formatInt_chars n c mem with digit | rfl
  · simp [literal, Char.isAlphanum, digit]
  · decide

theorem literal_joinSlash {cs : List Text} (h : ∀ c ∈ cs, c.all literal = true) :
    (joinSlash cs).all literal = true := by
  induction cs with
  | nil => rfl
  | cons c rest ih =>
    have ih := ih fun d mem => h d (List.mem_cons_of_mem c mem)
    cases rest with
    | nil =>
      rw [joinSlash_singleton]
      exact h c List.mem_cons_self
    | cons d rest =>
      rw [joinSlash_cons, List.all_append, List.all_cons, ih, h c List.mem_cons_self]
      decide

/-- Below the directory of the entry. -/
theorem literal_below (entry : Int) {below : List Text} (h : ∀ c ∈ below, c.all literal = true) :
    (joinSlash ([entriesRoot, formatInt entry] ++ below)).all literal = true := by
  refine literal_joinSlash fun c mem => ?_
  rcases List.mem_append.mp mem with dir | mem
  · simp only [List.mem_cons, List.not_mem_nil, or_false] at dir
    rcases dir with rfl | rfl
    · decide
    · exact literal_formatInt entry
  · exact h c mem

theorem masterKey_eq (entry : Int) :
    masterKey entry = joinSlash [entriesRoot, formatInt entry, "master.m3u8".toList] := by
  rw [masterKey, entryDir_eq, join_below (by simp) (by simp) (segments_entryDir entry)]
  · rfl
  · decide

theorem trimPrefixSlash_masterKey (entry : Int) :
    trimPrefixSlash (masterKey entry) = masterKey entry := by
  rw [masterKey_eq]
  rfl

/-- The id of an entry is that of its master. -/
theorem entryID_masterKey {entry : Int} (low : -(cutoff : Int) ≤ entry) (high : entry < cutoff) :
    entryIDFromMediaKey (masterKey entry) = some entry := by
  rw [masterKey_eq]
  exact entryIDFromMediaKey_joinSlash entry low high _ (by decide)

/-- A server that has only the entry, which is public. -/
def onlyServer (entryID : Int) : Server :=
  { publicServer with
    entryByID := fun id => if id = entryID then some ⟨false, true, none⟩ else none }

/-- The base name of a key with these components. -/
theorem isOriginalKey_joinSlash {pre : List Text} {name : Text} (segments : ∀ c ∈ pre, Segment c)
    (isSegment : Segment name) :
    isOriginalKey (joinSlash (pre ++ [name])) = originalPrefix.isPrefixOf name := by
  rw [isOriginalKey, baseName_of_components (components_joinSlash _ (by simp) ?_)]
  intro c mem
  rcases List.mem_append.mp mem with old | new
  · exact (segments c old).2
  · rw [List.mem_singleton.mp new]
    exact isSegment.2

/-- The id is read from the second component alone. -/
theorem entryID_joinSlash {c : Text} (rest other : List Text) (isSegment : Segment c)
    (segments : ∀ d ∈ rest, Segment d) (others : ∀ d ∈ other, Segment d) :
    entryIDFromMediaKey (joinSlash (entriesRoot :: c :: rest)) =
      entryIDFromMediaKey (joinSlash (entriesRoot :: c :: other)) := by
  have read (rest : List Text) (segments : ∀ d ∈ rest, Segment d) (id : Int) :
      entryIDFromMediaKey (joinSlash (entriesRoot :: c :: rest)) = some id ↔ parseInt c = some id := by
    have all : ∀ d ∈ entriesRoot :: c :: rest, Segment d := by
      intro d mem
      rcases List.mem_cons.mp mem with rfl | mem
      · exact segment_entriesRoot
      · rcases List.mem_cons.mp mem with rfl | mem
        · exact isSegment
        · exact segments d mem
    rw [entryIDFromMediaKey_iff (head_joinSlash (by simp) all),
      components_joinSlash _ (by simp) fun d mem => (all d mem).2]
    constructor
    · rintro ⟨d, more, same, isId⟩
      cases same
      exact isId
    · exact fun isId => ⟨c, rest, rfl, isId⟩
  apply Option.ext
  intro id
  rw [read rest segments, read other others]

/-- A key below the directory of the entry that is no original. -/
theorem served_joinSlash (entry : Int) (below : List Text) {name : Text}
    (segments : ∀ c ∈ below, Segment c) (isSegment : Segment name)
    (notOriginal : originalPrefix.isPrefixOf name = false) :
    Served entry (joinSlash ([entriesRoot, formatInt entry] ++ below ++ [name])) := by
  have all : ∀ c ∈ [entriesRoot, formatInt entry] ++ below, Segment c := by
    intro c mem
    rcases List.mem_append.mp mem with dir | mem
    · exact segments_entryDir entry c dir
    · exact segments c mem
  refine ⟨?_, ?_, ?_⟩
  · refine ⟨joinSlash (formatInt entry :: (below ++ [name])), ?_⟩
    change _ = joinSlash (entriesRoot :: formatInt entry :: (below ++ [name]))
    rw [joinSlash_cons, List.append_assoc]
    rfl
  · rw [masterKey_eq]
    refine entryID_joinSlash (below ++ [name]) _ (segment_formatInt entry) ?_ (by decide)
    intro c mem
    rcases List.mem_append.mp mem with old | new
    · exact segments c old
    · rw [List.mem_singleton.mp new]
      exact isSegment
  · rw [isOriginalKey_joinSlash all isSegment]
    exact notOriginal

theorem flavorPlaylistKey_eq (entry : Int) {name : Text} (isSegment : Segment name) :
    flavorPlaylistKey entry name =
      joinSlash ([entriesRoot, formatInt entry] ++ ["flavors".toList, name, "index.m3u8".toList]) := by
  have segments : ∀ c ∈ [entriesRoot, formatInt entry, "flavors".toList, name], Segment c := by
    intro c mem
    simp only [List.mem_cons, List.not_mem_nil, or_false] at mem
    rcases mem with rfl | rfl | rfl | rfl
    · exact segment_entriesRoot
    · exact segment_formatInt entry
    · decide
    · exact isSegment
  rw [flavorPlaylistKey, flavorDir_eq entry isSegment,
    join_below (by simp) (by simp) segments (by decide)]
  rfl

/-- The playlist of a flavor whose name is a single path segment that a URI carries as it is. -/
theorem offered_flavorPlaylistKey (entry : Int) {name : Text} (isSegment : Segment name)
    (spelled : name.all literal = true) : Offered entry (flavorPlaylistKey entry name) := by
  rw [flavorPlaylistKey_eq entry isSegment]
  constructor
  · refine served_joinSlash entry ["flavors".toList, name] ?_ (by decide) (by decide)
    intro c mem
    simp only [List.mem_cons, List.not_mem_nil, or_false] at mem
    rcases mem with rfl | rfl
    · decide
    · exact isSegment
  · refine literal_below entry fun c mem => ?_
    simp only [List.mem_cons, List.not_mem_nil, or_false] at mem
    rcases mem with rfl | rfl | rfl
    · decide
    · exact spelled
    · decide

/-- A name with a character other than the dot. -/
theorem segment_of_mem {name : Text} {x : Char} (mem : x ∈ name) (other : x ≠ '.')
    (noSlash : '/' ∉ name) : Segment name := by
  have differs (n : Nat) : name ≠ List.replicate n '.' :=
    fun same => other (List.eq_of_mem_replicate (same ▸ mem))
  exact ⟨⟨differs 0, differs 1, differs 2⟩, noSlash⟩

def langChar (c : Char) : Bool :=
  ('a' ≤ c && c ≤ 'z') || ('0' ≤ c && c ≤ '9') || c = '-' || c = '_'

theorem sanitizeLang_chars (lang : Text) : (sanitizeLang lang).all langChar = true := by
  unfold sanitizeLang
  dsimp only
  split
  next allowed =>
    split
    · decide
    · exact allowed
  · decide

theorem literal_of_langChar {c : Char} (h : langChar c = true) : literal c = true := by
  unfold langChar at h
  simp only [Bool.or_eq_true, Bool.and_eq_true, decide_eq_true_eq] at h
  rcases h with ((lower | digit) | rfl) | rfl
  · have isLower : c.isLower = true :=
      Bool.and_eq_true_iff.mpr ⟨decide_eq_true lower.1, decide_eq_true lower.2⟩
    have isAlpha : c.isAlpha = true := (Bool.or_eq_true _ _).mpr (.inr isLower)
    simp [literal, Char.isAlphanum, isAlpha]
  · have isDigit : c.isDigit = true :=
      Bool.and_eq_true_iff.mpr ⟨decide_eq_true digit.1, decide_eq_true digit.2⟩
    simp [literal, Char.isAlphanum, isDigit]
  · decide
  · decide

theorem not_mem_sanitizeLang (lang : Text) {c : Char} (other : langChar c = false) :
    c ∉ sanitizeLang lang := by
  intro mem
  cases other.symm.trans (List.all_eq_true.mp (sanitizeLang_chars lang) c mem)

theorem subtitleKey_eq (entry : Int) (lang : Text) : Segment (sanitizeLang lang ++ ".vtt".toList) ∧
    subtitleKey entry lang =
      joinSlash [entriesRoot, formatInt entry, "subs".toList, sanitizeLang lang ++ ".vtt".toList] := by
  have isSegment : Segment (sanitizeLang lang ++ ".vtt".toList) := by
    have long : 't' ∈ sanitizeLang lang ++ ".vtt".toList := List.mem_append_right _ (by decide)
    refine segment_of_mem long (by decide) fun mem => ?_
    rcases List.mem_append.mp mem with own | ext
    · exact not_mem_sanitizeLang lang (by decide) own
    · exact absurd ext (by decide)
  refine ⟨isSegment, ?_⟩
  rw [subtitleKey, entryDir_eq, join_below (by simp) (by simp) (segments_entryDir entry)]
  · rfl
  · intro c mem
    simp only [List.mem_cons, List.not_mem_nil, or_false] at mem
    rcases mem with rfl | rfl
    · decide
    · exact isSegment

/-- `original` is the one language whose file has the name of an original. -/
theorem original_vtt_iff (lang : Text) :
    originalPrefix.isPrefixOf (sanitizeLang lang ++ ".vtt".toList) = true ↔
      sanitizeLang lang = "original".toList := by
  rw [List.isPrefixOf_iff_prefix]
  constructor
  · intro ⟨rest, same⟩
    have noDot : '.' ∉ sanitizeLang lang := not_mem_sanitizeLang lang (by decide)
    have left := (cut_append (by decide : '.' ∉ "original".toList) rest).1
    have right := (cut_append noDot "vtt".toList).1
    exact right.symm.trans ((congrArg _ same.symm).trans left)
  · intro same
    rw [same]
    decide

theorem literal_subtitleKey (entry : Int) (lang : Text) :
    (subtitleKey entry lang).all literal = true := by
  rw [(subtitleKey_eq entry lang).2]
  refine literal_below entry fun c mem => ?_
  simp only [List.mem_cons, List.not_mem_nil, or_false] at mem
  rcases mem with rfl | rfl
  · decide
  · rw [List.all_append, List.all_eq_true.mpr fun c isLang =>
      literal_of_langChar (List.all_eq_true.mp (sanitizeLang_chars lang) c isLang)]
    decide

theorem offered_subtitleKey_iff (entry : Int) (lang : Text) :
    Offered entry (subtitleKey entry lang) ↔ sanitizeLang lang ≠ "original".toList := by
  obtain ⟨isSegment, key⟩ := subtitleKey_eq entry lang
  have segments : ∀ c ∈ ["subs".toList], Segment c := by decide
  rw [Offered, and_iff_left (literal_subtitleKey entry lang), key, ← not_iff_not, not_not,
    ← original_vtt_iff]
  constructor
  · intro refused
    by_contra notOriginal
    exact refused (served_joinSlash entry _ segments isSegment (Bool.eq_false_iff.mpr notOriginal))
  · intro isOriginal ⟨_, _, notOriginal⟩
    have all : ∀ c ∈ [entriesRoot, formatInt entry] ++ ["subs".toList], Segment c := by
      intro c mem
      rcases List.mem_append.mp mem with dir | sub
      · exact segments_entryDir entry c dir
      · exact segments c sub
    have read : isOriginalKey
        (joinSlash ([entriesRoot, formatInt entry] ++ ["subs".toList] ++ [_])) = _ :=
      isOriginalKey_joinSlash all isSegment
    cases notOriginal.symm.trans (read.trans isOriginal)

theorem originalKey_eq (entry : Int) {ext : Text} (noSlash : '/' ∉ ext) : ∃ name, Segment name ∧
    originalPrefix.isPrefixOf name = true ∧ (ext.all literal = true → name.all literal = true) ∧
      originalKey entry ext = joinSlash ([entriesRoot, formatInt entry] ++ [name]) := by
  have noSlash : '/' ∉ if ['.'].isPrefixOf ext then ext.drop 1 else ext := by
    split
    · exact fun mem => noSlash (List.mem_of_mem_drop mem)
    · exact noSlash
  have spelled : ext.all literal = true →
      (if ['.'].isPrefixOf ext then ext.drop 1 else ext).all literal = true := by
    rw [List.all_eq_true, List.all_eq_true]
    split
    · exact fun h c mem => h c (List.mem_of_mem_drop mem)
    · exact fun h => h
  unfold originalKey
  generalize (if ['.'].isPrefixOf ext then ext.drop 1 else ext) = rest at noSlash spelled
  have long : 'o' ∈ "original.".toList ++ rest := List.mem_append_left _ (by decide)
  have isSegment : Segment ("original.".toList ++ rest) := by
    refine segment_of_mem long (by decide) fun mem => ?_
    rcases List.mem_append.mp mem with own | inExt
    · exact absurd own (by decide)
    · exact noSlash inExt
  refine ⟨_, isSegment, List.isPrefixOf_iff_prefix.mpr (List.prefix_append originalPrefix rest),
    fun h => ?_, ?_⟩
  · rw [List.all_append, spelled h]
    decide
  · rw [entryDir_eq,
      join_below (by simp) (by simp) (segments_entryDir entry) (by simpa using isSegment)]

theorem originalKey_ne_nil (entry : Int) {ext : Text} (noSlash : '/' ∉ ext) :
    originalKey entry ext ≠ [] := by
  obtain ⟨name, isSegment, _, _, key⟩ := originalKey_eq entry noSlash
  rw [key]
  exact joinSlash_ne_nil (by simp) (by simpa using ⟨segment_entriesRoot.1.1,
    (segment_formatInt entry).1.1, isSegment.1.1⟩)

/-- The source is never served. -/
theorem source_not_served (entry : Int) {ext : Text} (noSlash : '/' ∉ ext)
    (spelled : ext.all literal = true) : ¬ ServedUri entry (mediaURI (originalKey entry ext)) := by
  intro ⟨value, isRouted, _, _, notOriginal⟩
  obtain ⟨name, isSegment, isOriginal, literalName, key⟩ := originalKey_eq entry noSlash
  have literalKey : (joinSlash ([entriesRoot, formatInt entry] ++ [name])).all literal = true :=
    literal_below entry (by simpa using literalName spelled)
  rw [key, routed_mediaURI literalKey] at isRouted
  cases isRouted
  have isKey : trimPrefixSlash (trimPrefixSlash (joinSlash ([entriesRoot, formatInt entry] ++ [name]))) =
      joinSlash ([entriesRoot, formatInt entry] ++ [name]) := rfl
  rw [isKey, isOriginalKey_joinSlash (segments_entryDir entry) isSegment] at notOriginal
  cases notOriginal.symm.trans isOriginal

theorem ServedUri.admits {entry : Int} {uri : Text} (h : ServedUri entry uri) {server : Server}
    {visitor : Request}
    (ok : mediaACL server { visitor with pathValue := masterKey entry } = .ok ()) :
    Admits server visitor uri := by
  obtain ⟨value, isRouted, isEntry, sameId, notOriginal⟩ := h
  obtain ⟨_, id, e, isId, found, login, _, allowed⟩ := (mediaACL_ok_iff _ _).mp ok
  refine ⟨value, isRouted, (mediaACL_ok_iff _ _).mpr ?_⟩
  have isId' : entryIDFromMediaKey (trimPrefixSlash value) = some id :=
    sameId.trans ((congrArg _ (trimPrefixSlash_masterKey entry)).symm.trans isId)
  exact ⟨isEntry, id, e, isId', found, login, notOriginal, allowed⟩

/-- Nothing else passes with the master of an entry whose id is read back. -/
theorem served_of_admits {entry entryID : Int} {uri : Text}
    (isMaster : entryIDFromMediaKey (masterKey entry) = some entryID)
    (h : ∀ server visitor, mediaACL server { visitor with pathValue := masterKey entry } = .ok () →
      Admits server visitor uri) : ServedUri entry uri := by
  have master : Served entry (masterKey entry) := by
    rw [masterKey_eq]
    exact served_joinSlash entry [] nofun (by decide) (by decide)
  have ok : mediaACL (onlyServer entryID) { anonymous [] with pathValue := masterKey entry } =
      .ok () := by
    rw [mediaACL_ok_iff]
    change _ <+: trimPrefixSlash (masterKey entry) ∧ ∃ id e,
      entryIDFromMediaKey (trimPrefixSlash (masterKey entry)) = some id ∧ _
    rw [trimPrefixSlash_masterKey]
    refine ⟨master.1, entryID, ⟨false, true, none⟩, isMaster, by simp [onlyServer], ?_, ?_, rfl⟩
    · have mode : libraryMode publicServer ≠ "login_only".toList := by decide
      exact fun signIn => mode signIn.1
    · change isOriginalKey (trimPrefixSlash (masterKey entry)) = false
      rw [trimPrefixSlash_masterKey]
      exact master.2.2
  obtain ⟨value, isRouted, passed⟩ := h (onlyServer entryID) (anonymous []) ok
  obtain ⟨isEntry, id, e, isId, found, _, notOriginal, _⟩ := (mediaACL_ok_iff _ _).mp passed
  refine ⟨value, isRouted, isEntry, ?_, notOriginal⟩
  have same : id = entryID := by
    by_contra other
    simp [onlyServer, other] at found
  rw [isMaster, ← same]
  exact isId

end Vidsilo.Jobs.Master
