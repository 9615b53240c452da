import Vidsilo.Storage.Drivers

/-!
# The guard of the media route and the file it lets through

Source: internal/api/embed_acl.go:12-75 (`entryAllowed`, `refererHost`), 108-154
(`mediaACL`, `isOriginalKey`), media.go:383-393 (`handleMedia`), viewers.go:376-381
(`libraryMode`), settings.go:62-70. The guard reads the raw key; the local driver
opens `filepath.Clean` of it. The key is any text, as the percent-decoded rest of
the route may be.

Sessions are resolved before the guard and enter as the user and viewer of the
request. Rate limiting, response headers and analytics are not modelled.
-/
namespace Vidsilo.Api.MediaAcl
open Library.SlashPath Library.Decimal Storage.Keys Storage.Drivers

inductive Role where
  | admin | editor | uploader | viewer
  deriving DecidableEq, Repr

/-- `id = 0` and no role: the zero value of a request without a session. -/
structure User where
  id : Int
  role : Option Role
  deriving DecidableEq, Repr

/-- The columns of an entry that decide who may load it. -/
structure Entry where
  accessDenied : Bool
  isPublic : Bool
  domainACLID : Option Int
  deriving DecidableEq, Repr

structure DomainACL where
  whitelist : List Text
  blocklist : List Text
  deriving DecidableEq, Repr

structure Request where
  /-- `r.PathValue("key")`. -/
  pathValue : Text
  referer : Text
  origin : Text
  user : User
  viewerID : Int

/-- What the handlers read: the two tables, the settings service (string values
only; none when it is not configured) and the host that `url.Parse` reports. -/
structure Server where
  entryByID : Int → Option Entry
  aclByID : Int → Option DomainACL
  settings : Option (Text → Option Text)
  urlHost : Text → Option Text

structure Refusal where
  status : Nat
  code : String
  message : String
  deriving DecidableEq, Repr

def notFound : Refusal := ⟨404, "not_found", "not found"⟩

/-- Go's `strings.TrimPrefix(s, "/")`. -/
def trimPrefixSlash (s : Text) : Text := if ['/'].isPrefixOf s then s.drop 1 else s

def Request.key (req : Request) : Text := trimPrefixSlash req.pathValue

def libraryMode (s : Server) : Text :=
  match s.settings with
  | none => "enabled".toList
  | some lookup => (lookup "library.mode".toList).getD "disabled".toList

def refererHost (s : Server) (req : Request) : Text :=
  let hosts := [req.referer, req.origin].filterMap fun v =>
    if v = [] then none else (s.urlHost v).filter (· ≠ [])
  hosts.head?.getD []

/-- The host is the domain or a name below it. -/
def hostMatches (host d : Text) : Bool := host = d || (('.' :: d).isSuffixOf host)

def entryAllowed (s : Server) (req : Request) (e : Entry) : Bool :=
  if e.accessDenied then
    decide (0 < req.user.id) && (req.user.role = some .admin || req.user.role = some .editor)
  else if 0 < req.user.id then true
  else if ¬ e.isPublic then false
  else match e.domainACLID with
    | none => true
    | some id => match s.aclByID id with
      | none => false
      | some acl =>
        let host := refererHost s req
        if host = [] then false
        else if acl.blocklist.any (hostMatches host) then false
        else if acl.whitelist = [] then true
        else acl.whitelist.any (hostMatches host)

def originalPrefix : Text := "original.".toList

/-- The text after the last slash, as `isOriginalKey` cuts it. -/
def baseName (key : Text) : Text := key.rtakeWhile (· ≠ '/')

def isOriginalKey (key : Text) : Bool := originalPrefix.isPrefixOf (baseName key)

def mediaACL (s : Server) (req : Request) : Except Refusal Unit :=
  if req.key = [] ∨ ¬ (entriesRoot ++ ['/']) <+: req.key then .error notFound
  else match entryIDFromMediaKey req.key with
    | none => .error notFound
    | some entryID => match s.entryByID entryID with
      | none => .error notFound
      | some e =>
        if libraryMode s = "login_only".toList ∧ req.user.id = 0 ∧ req.viewerID = 0 then
          .error ⟨401, "unauthorized", "library requires sign-in"⟩
        else if isOriginalKey req.key then
          .error ⟨403, "forbidden", "source files are not downloadable"⟩
        else if entryAllowed s req e then .ok ()
        else .error ⟨403, "forbidden", "embedding not allowed for this domain"⟩

/-- The file below the root that `handleMedia` opens on a local driver. -/
def openedFile (req : Request) : Option FilePath := Local.pathForKey req.key

theorem mediaACL_ok_iff (s : Server) (req : Request) :
    mediaACL s req = .ok () ↔
      (entriesRoot ++ ['/']) <+: req.key ∧ ∃ entryID e,
        entryIDFromMediaKey req.key = some entryID ∧ s.entryByID entryID = some e ∧
        ¬ (libraryMode s = "login_only".toList ∧ req.user.id = 0 ∧ req.viewerID = 0) ∧
        isOriginalKey req.key = false ∧ entryAllowed s req e = true := by
  unfold mediaACL
  constructor
  · intro h
    split at h
    · cases h
    next hpre =>
      simp only [not_or, not_not] at hpre
      split at h
      · cases h
      next entryID hid =>
        split at h
        · cases h
        next e he =>
          split at h
          · cases h
          next hlogin =>
            split at h
            · cases h
            next horiginal =>
              split at h
              next hallowed =>
                exact ⟨hpre.2, entryID, e, hid, he, hlogin, by simpa using horiginal, hallowed⟩
              · cases h
  · rintro ⟨hpre, entryID, e, hid, he, hlogin, horiginal, hallowed⟩
    have hne : req.key ≠ [] := by
      rintro hnil
      rw [hnil, List.prefix_nil] at hpre
      exact absurd hpre (by decide)
    rw [if_neg (by simp only [hne, hpre, not_true, or_self, not_false_eq_true])]
    simp only [hid, he, if_neg hlogin, horiginal, hallowed, if_true]
    rfl

/-- A server on which every entry is public and nothing asks for a sign-in. -/
def publicServer : Server where
  entryByID _ := some ⟨false, true, none⟩
  aclByID _ := none
  settings := none
  urlHost _ := none

def anonymous (value : Text) : Request where
  pathValue := value
  referer := []
  origin := []
  user := ⟨0, none⟩
  viewerID := 0

theorem mediaACL_publicServer {value : Text} {entryID : Int}
    (hpre : (entriesRoot ++ ['/']) <+: trimPrefixSlash value)
    (hid : entryIDFromMediaKey (trimPrefixSlash value) = some entryID)
    (horiginal : isOriginalKey (trimPrefixSlash value) = false) :
    mediaACL publicServer (anonymous value) = .ok () := by
  rw [mediaACL_ok_iff]
  refine ⟨hpre, entryID, ⟨false, true, none⟩, hid, rfl, ?_, horiginal, rfl⟩
  rintro ⟨hmode, _⟩
  exact absurd hmode (by decide)

/-- The base name is the last component. -/
theorem baseName_of_components {key : Text} {pre : List Text} {o : Text}
    (h : components key = pre ++ [o]) : baseName key = o := by
  have hslash : '/' ∉ o := slash_not_mem_components key o (by simp [h])
  have hall : ∀ x ∈ o.reverse, decide (x ≠ '/') = true := by
    intro x hx
    have hxo := List.mem_reverse.mp hx
    exact decide_eq_true fun e => hslash (e ▸ hxo)
  have hkey := joinSlash_components key
  rw [h] at hkey
  cases pre with
  | nil =>
    rw [List.nil_append, joinSlash_singleton] at hkey
    rw [← hkey, baseName, List.rtakeWhile, List.takeWhile_eq_self_iff.mpr hall, List.reverse_reverse]
  | cons c cs =>
    rw [joinSlash_append (by simp) (by simp), joinSlash_singleton] at hkey
    rw [← hkey, baseName, List.rtakeWhile, List.reverse_append, List.reverse_cons,
      List.append_assoc, List.takeWhile_append_of_pos hall]
    simp

/-- A relative key with a readable entry id starts with `entries/`. -/
theorem entries_of_id {key : Text} {entryID : Int} (hhead : key.head? ≠ some '/')
    (hid : entryIDFromMediaKey key = some entryID) : (entriesRoot ++ ['/']) <+: key := by
  obtain ⟨c, rest, hc, _⟩ := (entryIDFromMediaKey_iff hhead entryID).mp hid
  have hkey := joinSlash_components key
  rw [hc, joinSlash_cons] at hkey
  exact ⟨joinSlash (c :: rest), by rw [← hkey]; simp⟩

/-- What follows a kept name may only undo itself. -/
theorem opened_last {pre post p : List Text} {o : Text} (h : Spells p (pre ++ o :: post))
    (ho : Named o) (hpost : Neutral post) : ∃ dir, p = dir ++ [o] := by
  have hclean := h.clean false
  simp only [cleanComponents, List.foldl_append, List.foldl_cons, cleanStep_push ho,
    hpost.fold] at hclean
  exact ⟨_, by rw [← hclean, List.reverse_cons]⟩

/-- No request with this path value gets an original source file opened. -/
def OriginalsHidden (value : Text) : Prop :=
  ∀ s req, req.pathValue = value → mediaACL s req = .ok () →
    ∀ dir base, openedFile req = some (dir ++ [base]) → ¬ originalPrefix <+: base

/-- A name that starts with `original.` is followed by something, and all of that is
cleaned away. -/
def OriginalThenNeutral (key : Text) : Prop :=
  ∃ pre o post, components key = pre ++ o :: post ∧ originalPrefix <+: o ∧ post ≠ [] ∧ Neutral post

/-- The guard reads an entry id from the key and the driver accepts it. -/
def Addressable (key : Text) : Prop :=
  (∃ entryID, entryIDFromMediaKey key = some entryID) ∧ ∃ p, Local.pathForKey key = some p

theorem named_of_originalPrefix {o : Text} (h : originalPrefix <+: o) : Named o := by
  have hlen := h.length_le
  have hnine : originalPrefix.length = 9 := rfl
  refine ⟨?_, ?_, ?_⟩ <;> rintro rfl <;> simp [hnine, dot, dotdot] at hlen

/-- The guard keeps originals hidden for exactly the keys that it or the driver refuses
and those in which no `original.` name is followed by components that clean away. -/
theorem originals_hidden_iff (value : Text) :
    OriginalsHidden value ↔
      ¬ (Addressable (trimPrefixSlash value) ∧ OriginalThenNeutral (trimPrefixSlash value)) := by
  constructor
  · rintro h ⟨⟨⟨entryID, hid⟩, p, hp⟩, pre, o, post, hc, ho, hpost, hneutral⟩
    obtain ⟨hhead, hspells, _, _⟩ := (pathForKey_iff _ _).mp hp
    have hshape := hspells
    rw [hc] at hshape
    obtain ⟨dir, rfl⟩ := opened_last hshape (named_of_originalPrefix ho) hneutral
    refine h publicServer (anonymous value) rfl ?_ dir o hp ho
    refine mediaACL_publicServer (entries_of_id hhead hid) hid ?_
    -- the last component is neutral, so the guard sees no `original.` base name
    obtain ⟨init, last, rfl⟩ := (List.eq_nil_or_concat' post).resolve_left hpost
    have hbase : components (trimPrefixSlash value) = (pre ++ o :: init) ++ [last] := by simp [hc]
    rw [isOriginalKey, baseName_of_components hbase]
    rcases hneutral.getLast last (by simp) with rfl | rfl | rfl <;> decide
  · intro h s req hreq hok dir base hp hbase
    subst hreq
    obtain ⟨_, entryID, _, hid, _, _, horiginal, _⟩ := (mediaACL_ok_iff s req).mp hok
    obtain ⟨_, hspells, _, _⟩ := (pathForKey_iff _ _).mp hp
    obtain ⟨pre, post, hc, _, hneutral⟩ := hspells.last
    refine h ⟨⟨⟨entryID, hid⟩, _, hp⟩, pre, base, post, hc, hbase, ?_, hneutral⟩
    rintro rfl
    rw [isOriginalKey, baseName_of_components hc] at horiginal
    exact absurd (List.isPrefixOf_iff_prefix.mpr hbase) (by simp [horiginal])

/-- A trailing slash after the file name is enough: anyone reads the source of a
public entry. -/
theorem original_behind_slash : ¬ OriginalsHidden "entries/1/original.mp4/".toList := by
  intro h
  exact h publicServer (anonymous "entries/1/original.mp4/".toList) rfl (by decide)
    ["entries".toList, "1".toList] "original.mp4".toList (by decide) (by decide)

/-- Whenever a request with this path value passes on the policy of an entry, the file
opened lies below the directory of that entry. -/
def ServesCheckedEntry (value : Text) : Prop :=
  ∀ s req entryID, req.pathValue = value → entryIDFromMediaKey req.key = some entryID →
    mediaACL s req = .ok () → ∀ p, openedFile req = some p →
      ∃ file ≠ [], p = entriesRoot :: formatInt entryID :: file

/-- The components of the key name `entries`, the decimal id and something below, in
this order, and whatever else they hold undoes itself. -/
def SpellsBelowEntry (entryID : Int) (key : Text) : Prop :=
  ∃ file ≠ [], Spells (entriesRoot :: formatInt entryID :: file) (components key)

/-- The checked entry is the served entry for exactly the keys that are refused as an
original or by the driver and those that spell a path below the directory of the id
read from them. -/
theorem serves_checked_entry_iff (value : Text) :
    ServesCheckedEntry value ↔
      ∀ entryID, entryIDFromMediaKey (trimPrefixSlash value) = some entryID →
        isOriginalKey (trimPrefixSlash value) = false →
        Local.pathForKey (trimPrefixSlash value) ≠ none →
        SpellsBelowEntry entryID (trimPrefixSlash value) := by
  constructor
  · intro h entryID hid horiginal haccepted
    obtain ⟨p, hp⟩ := Option.ne_none_iff_exists'.mp haccepted
    obtain ⟨hhead, hspells, _, _⟩ := (pathForKey_iff _ _).mp hp
    have hok := mediaACL_publicServer (entries_of_id hhead hid) hid horiginal
    obtain ⟨file, hne, rfl⟩ := h publicServer (anonymous value) entryID rfl hid hok p hp
    exact ⟨file, hne, hspells⟩
  · intro h s req entryID hreq hid hok p hp
    subst hreq
    obtain ⟨_, _, _, _, _, _, horiginal, _⟩ := (mediaACL_ok_iff s req).mp hok
    have haccepted : Local.pathForKey req.key ≠ none := by
      rw [openedFile] at hp
      simp [hp]
    obtain ⟨file, hne, hspells⟩ := h entryID hid horiginal haccepted
    obtain ⟨_, hopened, _, _⟩ := (pathForKey_iff _ _).mp hp
    exact ⟨file, hne, hopened.unique hspells⟩

/-- The policy of entry 1 is checked and a segment of entry 2 is served. -/
theorem dot_segments_leave_entry :
    ¬ ServesCheckedEntry "entries/1/../2/flavors/720p-h264/seg_0.ts".toList := by
  intro h
  obtain ⟨file, _, hp⟩ := h publicServer
    (anonymous "entries/1/../2/flavors/720p-h264/seg_0.ts".toList) 1 rfl (by decide) (by decide)
    ["entries".toList, "2".toList, "flavors".toList, "720p-h264".toList, "seg_0.ts".toList]
    (by decide)
  exact absurd (List.cons.inj (List.cons.inj hp).2).1 (by decide)

end Vidsilo.Api.MediaAcl
