import Vidsilo.Api.Pages
import Vidsilo.Categories.Catalog
import Vidsilo.Jobs.ServedKeys
import Vidsilo.Library.Grouping
import Vidsilo.Library.Unordered

/-!
# What a visitor finds, opens and loads

Source: internal/api/media.go:138-283 (`handleCatalog`, `slugifyTitle`), 433-560 (`playInfo`,
`handlePlayInfo`, `handlePlayPage`, `handleEmbedPage`), embed_acl.go:77-106 (`optionalAuth`,
`embedACL`), viewers.go:376-381. Every answer reads the tables of one moment; a statement that
fails is left out. A uuid comes in the spelling in which it is stored. The design of the player is a
text that the handler passes on.
-/
namespace Vidsilo.Api.Watching
open Library Library.SlashPath Library.Decimal Storage.Keys MediaAcl
open Jobs.Tables (EntryStatus)
open Jobs.Master (mediaURI Admits ServedUri)

/-- The columns of an entry that the public pages read; a key that is NULL is empty. -/
structure EntryRow where
  id : Int64
  publicId : Text
  title : Text
  description : Text
  status : EntryStatus
  categoryId : Option Int64
  accessDenied : Bool
  isPublic : Bool
  domainACLID : Option Int
  durationMs : Option Int
  createdAt : Int
  posterKey : Text
  spriteKey : Text
  spriteFrames : Int
  playerId : Option Int64
  deriving DecidableEq, Repr

structure Subtitle where
  lang : Text
  label : Text
  vttKey : Text
  deriving DecidableEq, Repr

def EntryRow.acl (e : EntryRow) : Entry := ⟨e.accessDenied, e.isPublic, e.domainACLID⟩

def EntryRow.counted (e : EntryRow) : Categories.Catalog.Entry :=
  ⟨e.id, e.categoryId, e.status, e.accessDenied, e.isPublic⟩

/-- The tables at one moment. -/
structure Site where
  categories : Categories.Table
  rows : List EntryRow
  ids : (rows.map EntryRow.id).Nodup
  publicIds : (rows.map EntryRow.publicId).Nodup
  drawn : ∀ e ∈ rows, 0 < e.id
  filed : ∀ e ∈ rows, ∀ k ∈ e.categoryId, k ∈ categories.rows.map Categories.Row.id
  subtitles : Int64 → List Subtitle
  aclByID : Int → Option DomainACL
  settings : Option (Text → Option Text)
  urlHost : Text → Option Text
  /-- `resolvedPlayerConfig` and `proxiedPlayerConfig`. -/
  resolvedPlayerConfig : Option Int64 → Text
  proxiedPlayerConfig : Text → Text
  /-- The operator `ILIKE` with a pattern that has a percent sign at both ends. -/
  ilike : Text → Text → Bool
  /-- The order of the database's texts. -/
  titleLess : Text → Text → Bool

def Site.server (site : Site) : Server where
  entryByID id := (site.rows.find? (·.id.toInt = id)).map EntryRow.acl
  aclByID := site.aclByID
  settings := site.settings
  urlHost := site.urlHost

/-- Who asks, after `optionalViewer` and `optionalAuth`. -/
structure Visitor where
  user : User
  viewerID : Int
  referer : Text
  origin : Text

def Visitor.request (v : Visitor) (value : Text) : Request :=
  ⟨value, v.referer, v.origin, v.user, v.viewerID⟩

structure SubtitleOut where
  lang : Text
  label : Text
  url : Text
  deriving DecidableEq, Repr

/-- Fields with `omitempty` are none where they are left out. -/
structure PlayInfo where
  title : Text
  description : Text
  status : EntryStatus
  durationMs : Option Int
  master : Option Text
  poster : Option Text
  sprite : Option Text
  spriteFrames : Int
  subtitles : List SubtitleOut
  embedURL : Text
  player : Option Text
  deriving DecidableEq, Repr

def entryByPublicID (site : Site) (uuid : Text) : Option EntryRow :=
  site.rows.find? (·.publicId = uuid)

def embedURL (e : EntryRow) : Text := "/embed/".toList ++ e.publicId

/-- An entry that is not ready is shown by its title and status. -/
def waiting (e : EntryRow) : PlayInfo where
  title := e.title
  description := []
  status := e.status
  durationMs := none
  master := none
  poster := none
  sprite := none
  spriteFrames := 0
  subtitles := []
  embedURL := embedURL e
  player := none

def ready (site : Site) (e : EntryRow) : PlayInfo where
  title := e.title
  description := e.description
  status := e.status
  durationMs := e.durationMs
  master := some (mediaURI (masterKey e.id.toInt))
  poster := if e.posterKey = [] then none else some (mediaURI e.posterKey)
  sprite := if e.spriteKey ≠ [] ∧ 0 < e.spriteFrames then some (mediaURI e.spriteKey) else none
  spriteFrames := e.spriteFrames
  subtitles := (site.subtitles e.id).map fun sub => ⟨sub.lang, sub.label, mediaURI sub.vttKey⟩
  embedURL := embedURL e
  player :=
    let cfg := site.resolvedPlayerConfig e.playerId
    if 2 < cfg.length then some (site.proxiedPlayerConfig cfg) else none

def handlePlayInfo (site : Site) (v : Visitor) (uuid : Text) : Except Refusal PlayInfo :=
  match entryByPublicID site uuid with
  | none => .error ⟨404, "not_found", "entry not found"⟩
  | some e =>
    if libraryMode site.server = "login_only".toList ∧ v.user.id = 0 ∧ v.viewerID = 0 then
      .error ⟨401, "unauthorized", "library requires sign-in"⟩
    else if e.accessDenied ∧ (v.user.id = 0 ∨ v.user.role ≠ some .admin ∧ v.user.role ≠ some .editor) then
      .error ⟨403, "forbidden", "video access denied"⟩
    else if ¬ e.accessDenied ∧ ¬ e.isPublic ∧ v.user.id = 0 then
      .error ⟨403, "forbidden", "video access denied"⟩
    else if e.status ≠ .ready then .ok (waiting e)
    else .ok (ready site e)

inductive Page where
  | redirect (location : String)
  | static (file : String)
  deriving DecidableEq, Repr

def handlePlayPage (site : Site) : Page :=
  if libraryMode site.server = "disabled".toList then .redirect "/admin/login" else .static "play.html"

/-- `embedACL` before `handleEmbedPage`. -/
def handleEmbedPage (site : Site) (v : Visitor) (uuid : Text) : Except Refusal Page :=
  if uuid = [] then .error notFound
  else match entryByPublicID site uuid with
    | none => .error notFound
    | some e =>
      if entryAllowed site.server (v.request []) e.acl then .ok (.static "embed.html")
      else .error ⟨403, "forbidden", "embedding not allowed for this domain"⟩

structure CatalogEntry where
  id : Text
  title : Text
  slug : Text
  categoryId : Option Int64
  category : Text
  poster : Option Text
  durationMs : Option Int
  createdAt : Int
  deriving DecidableEq, Repr

/-- A run of other characters becomes one dash, and none at the ends. -/
def dashed : Text → Text → Text
  | out, [] => out
  | out, r :: rest =>
    if ('a' ≤ r && r ≤ 'z') || ('0' ≤ r && r ≤ '9') then dashed (out ++ [r]) rest
    else if out ≠ [] ∧ out.getLast? ≠ some '-' then dashed (out ++ ['-']) rest
    else dashed out rest

def slugifyTitle (s : Text) : Text :=
  let out := Categories.trim (· = '-')
    (dashed [] ((Categories.trim Categories.isSpace s).map Categories.toLower))
  if out = [] then "video".toList else out

/-- The parameters of a request, empty when they are absent. -/
structure CatalogQuery where
  q : Text
  category : Text
  sort : Text
  page : Text
  limit : Text

structure CatalogPage where
  items : List CatalogEntry
  total : Nat
  page : Int
  limit : Int
  deriving DecidableEq, Repr

/-- The id or slug of the request. -/
def categoryID (t : Categories.Table) (raw : Text) : Int64 :=
  if raw = [] then 0
  else match parseInt raw with
    | some id => Int64.ofInt id
    | none => ((t.rows.find? (·.slug = raw)).map Categories.Row.id).getD 0

/-- `ORDER BY`; a duration that is NULL comes last. -/
def sortLess (site : Site) (sort : Text) (a b : EntryRow) : Bool :=
  if sort = "title".toList then site.titleLess a.title b.title
  else if sort = "oldest".toList then a.createdAt < b.createdAt
  else if sort = "duration".toList then
    match a.durationMs, b.durationMs with
    | some m, some n => n < m
    | some _, none => true
    | none, _ => false
  else b.createdAt < a.createdAt

/-- The gate of the library. -/
def gate (site : Site) (v : Visitor) : Except Refusal Unit :=
  if libraryMode site.server = "disabled".toList ∧ v.user.id = 0 then
    .error ⟨403, "forbidden", "library disabled"⟩
  else if libraryMode site.server = "login_only".toList ∧ v.user.id = 0 ∧ v.viewerID = 0 then
    .error ⟨401, "unauthorized", "library requires sign-in"⟩
  else .ok ()

/-- The conditions of the query; `below` are the categories of the subtree, none for all. -/
def conds (site : Site) (v : Visitor) (q : Text) (below : Option (List Int64)) (e : EntryRow) : Bool :=
  e.status = .ready && !e.accessDenied && (v.user.id ≠ 0 || e.isPublic) &&
    (q = [] || site.ilike e.title q || site.ilike e.description q) &&
    below.all fun ids => e.categoryId.any (· ∈ ids)

def item (site : Site) (e : EntryRow) : CatalogEntry where
  id := e.publicId
  title := e.title
  slug := slugifyTitle e.title
  categoryId := e.categoryId
  category := (e.categoryId.bind fun k =>
    (site.categories.rows.find? (·.id = k)).map Categories.Row.name).getD []
  poster := if e.posterKey = [] then none else some (mediaURI e.posterKey)
  durationMs := e.durationMs
  createdAt := e.createdAt

/-- The rows of the request; none as long as the recursive query runs. -/
def found (site : Site) (v : Visitor) (query : CatalogQuery) (fuel : Nat) : Option (List EntryRow) :=
  let id := categoryID site.categories query.category
  if 0 < id then (Categories.subtree site.categories fuel id).map fun ids =>
    site.rows.filter (conds site v query.q (some ids))
  else some (site.rows.filter (conds site v query.q none))

def handleCatalog (site : Site) (orders : ∀ sort, Sorting (sortLess site sort)) (v : Visitor)
    (query : CatalogQuery) (fuel : Nat) : Option (Except Refusal CatalogPage) :=
  let pages := Pages.handleCatalog query.page query.limit
  match gate site v with
  | .error refusal => some (.error refusal)
  | .ok () => (found site v query fuel).map fun rows =>
    .ok {
      items := ((((orders query.sort).sort rows).drop pages.offset.toNat).take pages.limit.toNat).map
        (item site)
      total := rows.length
      page := Pages.sanitizedPage (atoi query.page)
      limit := pages.limit }

section Watching
variable {site : Site} {v : Visitor} {e : EntryRow}

theorem entryByPublicID_self (mem : e ∈ site.rows) : entryByPublicID site e.publicId = some e :=
  Grouping.find?_of_nodup site.publicIds mem

theorem entryByID_self (mem : e ∈ site.rows) : site.server.entryByID e.id.toInt = some e.acl := by
  have ids : (site.rows.map fun r => r.id.toInt).Nodup := by
    have nodup := site.ids.map (f := Int64.toInt) fun _ _ => Int64.toInt_inj.mp
    rwa [List.map_map] at nodup
  exact congrArg (Option.map _) (Grouping.find?_of_nodup ids mem)

/-- Playback needs a session. -/
def NeedsSignIn (site : Site) (v : Visitor) : Prop :=
  libraryMode site.server = "login_only".toList ∧ v.user.id = 0 ∧ v.viewerID = 0

/-- Who may see the player, wherever it is embedded. -/
def MayWatch (site : Site) (v : Visitor) (e : EntryRow) : Prop :=
  ¬ NeedsSignIn site v ∧
    if e.accessDenied then v.user.id ≠ 0 ∧ (v.user.role = some .admin ∨ v.user.role = some .editor)
    else e.isPublic = true ∨ v.user.id ≠ 0

/-- The policy of the embedding domain. -/
def domainAllows (s : Server) (req : Request) : Option Int → Bool
  | none => true
  | some id => match s.aclByID id with
    | none => false
    | some acl =>
      let host := refererHost s req
      if host = [] then false
      else if acl.blocklist.any (hostMatches host) then false
      else if acl.whitelist = [] then true
      else acl.whitelist.any (hostMatches host)

/-- The domain counts for visitors without a staff session. -/
def Placed (site : Site) (v : Visitor) (e : EntryRow) : Prop :=
  v.user.id ≠ 0 ∨ domainAllows site.server (v.request []) e.domainACLID = true

theorem entryAllowed_iff (isId : 0 ≤ v.user.id) :
    entryAllowed site.server (v.request []) e.acl = true ↔
      (if e.accessDenied then v.user.id ≠ 0 ∧ (v.user.role = some .admin ∨ v.user.role = some .editor)
        else e.isPublic = true ∨ v.user.id ≠ 0) ∧ Placed site v e := by
  have positive : 0 < v.user.id ↔ v.user.id ≠ 0 := by omega
  unfold entryAllowed
  change (if e.accessDenied = true then (decide (0 < v.user.id) && _)
    else if 0 < v.user.id then true
    else if ¬ e.isPublic = true then false else domainAllows site.server (v.request []) e.domainACLID) =
      true ↔ _
  by_cases denied : e.accessDenied = true
  · rw [if_pos denied, if_pos denied]
    simp only [Visitor.request, Bool.and_eq_true, Bool.or_eq_true, decide_eq_true_eq, positive]
    constructor
    · exact fun h => ⟨⟨h.1, h.2.imp of_decide_eq_true of_decide_eq_true⟩, .inl h.1⟩
    · exact fun h => ⟨h.1.1, h.1.2.imp decide_eq_true decide_eq_true⟩
  · rw [if_neg denied, if_neg denied]
    by_cases staff : 0 < v.user.id
    · rw [if_pos staff]
      exact iff_of_true rfl ⟨.inr (positive.mp staff), .inl (positive.mp staff)⟩
    · have nobody : ¬ v.user.id ≠ 0 := fun ne => staff (positive.mpr ne)
      rw [if_neg staff]
      by_cases isPublic : e.isPublic = true
      · simp [isPublic, Placed, nobody]
      · simp [isPublic, nobody]

/-- The player is shown to whoever may watch. -/
theorem handlePlayInfo_ok (mem : e ∈ site.rows) {info : PlayInfo} :
    handlePlayInfo site v e.publicId = .ok info ↔
      MayWatch site v e ∧ info = if e.status = .ready then ready site e else waiting e := by
  have answer : (if e.status ≠ .ready then .ok (waiting e) else .ok (ready site e)) =
      (.ok (if e.status = .ready then ready site e else waiting e) : Except Refusal PlayInfo) := by
    by_cases done : e.status = .ready
    · rw [if_neg (not_not.mpr done), if_pos done]
    · rw [if_pos done, if_neg done]
  unfold handlePlayInfo MayWatch NeedsSignIn
  rw [entryByPublicID_self mem]
  dsimp only
  rw [answer]
  by_cases signIn : libraryMode site.server = "login_only".toList ∧ v.user.id = 0 ∧ v.viewerID = 0
  · rw [if_pos signIn]
    exact iff_of_false nofun fun h => h.1.1 signIn
  rw [if_neg signIn]
  by_cases denied : e.accessDenied = true
  · rw [if_pos denied]
    by_cases staff : v.user.id ≠ 0 ∧ (v.user.role = some .admin ∨ v.user.role = some .editor)
    · rw [if_neg (by tauto), if_neg (by tauto)]
      exact ⟨fun h => ⟨⟨signIn, staff⟩, (Except.ok.inj h).symm⟩, fun h => congrArg _ h.2.symm⟩
    · rw [if_pos ⟨denied, by tauto⟩]
      exact iff_of_false nofun fun h => staff h.1.2
  · rw [if_neg (by tauto), if_neg denied]
    by_cases shown : e.isPublic = true ∨ v.user.id ≠ 0
    · rw [if_neg (by tauto)]
      exact ⟨fun h => ⟨⟨signIn, shown⟩, (Except.ok.inj h).symm⟩, fun h => congrArg _ h.2.symm⟩
    · rw [if_pos ⟨denied, by tauto⟩]
      exact iff_of_false nofun fun h => shown h.1.2

/-- A file of the entry is served to whoever may watch, where the entry may be embedded. -/
theorem admits_iff (isId : 0 ≤ v.user.id) (mem : e ∈ site.rows) {uri : Text}
    (served : ServedUri e.id.toInt uri) :
    Admits site.server (v.request []) uri ↔ MayWatch site v e ∧ Placed site v e := by
  obtain ⟨value, isRouted, isEntry, sameId, notOriginal⟩ := served
  have low : -(cutoff : Int) ≤ e.id.toInt := Int64.le_toInt e.id
  have high : e.id.toInt < cutoff := Int64.toInt_lt e.id
  have isId' : entryIDFromMediaKey (trimPrefixSlash value) = some e.id.toInt :=
    sameId.trans (Jobs.Master.entryID_masterKey low high)
  have found := entryByID_self mem
  have passes : Admits site.server (v.request []) uri ↔
      mediaACL site.server (v.request value) = .ok () := by
    constructor
    · rintro ⟨value', isRouted', ok⟩
      obtain rfl := Option.some.inj (isRouted.symm.trans isRouted')
      exact ok
    · exact fun ok => ⟨value, isRouted, ok⟩
  rw [passes, mediaACL_ok_iff, MayWatch, and_assoc, ← entryAllowed_iff isId]
  constructor
  · rintro ⟨-, id, acl, same, isAcl, noSignIn, -, allowed⟩
    obtain rfl := Option.some.inj (isId'.symm.trans same)
    obtain rfl := Option.some.inj (found.symm.trans isAcl)
    exact ⟨noSignIn, allowed⟩
  · rintro ⟨noSignIn, allowed⟩
    exact ⟨isEntry, e.id.toInt, e.acl, isId', found, noSignIn, notOriginal, allowed⟩

end Watching

def PlayInfo.uris (info : PlayInfo) : List Text :=
  info.master.toList ++ info.poster.toList ++ info.sprite.toList ++ info.subtitles.map SubtitleOut.url

section Agreement
variable {site : Site} {v : Visitor} {e : EntryRow}

theorem served_master (id : Int) : ServedUri id (mediaURI (masterKey id)) := by
  refine Jobs.Master.Offered.mediaURI ?_
  rw [Jobs.Master.masterKey_eq]
  exact ⟨Jobs.Master.served_joinSlash id [] nofun (by decide) (by decide),
    Jobs.Master.literal_below id (by decide)⟩

theorem conds_iff : conds site v [] none e = true ↔
    e.status = .ready ∧ e.accessDenied = false ∧ (e.isPublic = true ∨ v.user.id ≠ 0) := by
  simp only [conds, Option.all_none, Bool.and_true, decide_true, Bool.true_or, Bool.and_eq_true,
    decide_eq_true_eq, Bool.not_eq_true', Bool.or_eq_true, and_assoc]
  rw [or_comm]

theorem gate_iff : gate site v = .ok () ↔ ¬ NeedsSignIn site v ∧
    (libraryMode site.server = "disabled".toList → v.user.id ≠ 0) := by
  unfold gate NeedsSignIn
  split
  next closed => exact iff_of_false nofun fun h => h.2 closed.1 closed.2
  next open_ =>
    split
    next signIn => exact iff_of_false nofun fun h => h.1 signIn
    next free => exact iff_of_true rfl ⟨free, fun disabled id => open_ ⟨disabled, id⟩⟩

theorem handleEmbedPage_ok (isId : 0 ≤ v.user.id) (mem : e ∈ site.rows) (named : e.publicId ≠ []) :
    handleEmbedPage site v e.publicId = .ok (.static "embed.html") ∧ ¬ NeedsSignIn site v ↔
      MayWatch site v e ∧ Placed site v e := by
  rw [handleEmbedPage, if_neg named, entryByPublicID_self mem, MayWatch, and_assoc, ← entryAllowed_iff isId,
    and_comm]
  refine and_congr_right fun _ => ?_
  dsimp only
  split
  next allowed => exact iff_of_true rfl allowed
  next refused => exact iff_of_false nofun refused

/-- The player, the media route, the embed page and the catalog agree on who sees an entry: the file of
a playing entry is served where its player is shown, up to the policy of the embedding domain; with the
master goes everything the player names that the media route serves at all; the embed page opens for
those who get the master, without asking for a session itself; and the catalog lists what can be played and is not denied,
unless the library is disabled. -/
theorem surfaces_agree (site : Site) (v : Visitor) (e : EntryRow) (isId : 0 ≤ v.user.id)
    (mem : e ∈ site.rows) (named : e.publicId ≠ []) :
    (Admits site.server (v.request []) (mediaURI (masterKey e.id.toInt)) ↔
      (∃ info, handlePlayInfo site v e.publicId = .ok info) ∧ Placed site v e) ∧
    (∀ info, handlePlayInfo site v e.publicId = .ok info →
      (info.master = some (mediaURI (masterKey e.id.toInt)) ↔ e.status = .ready) ∧
      ∀ uri ∈ info.uris, ServedUri e.id.toInt uri →
        (Admits site.server (v.request []) uri ↔ Placed site v e)) ∧
    (handleEmbedPage site v e.publicId = .ok (.static "embed.html") ∧ ¬ NeedsSignIn site v ↔
      Admits site.server (v.request []) (mediaURI (masterKey e.id.toInt))) ∧
    (gate site v = .ok () ∧ conds site v [] none e = true ↔
      (∃ info, handlePlayInfo site v e.publicId = .ok info) ∧ e.status = .ready ∧
        e.accessDenied = false ∧ (libraryMode site.server = "disabled".toList → v.user.id ≠ 0)) := by
  have watches : (∃ info, handlePlayInfo site v e.publicId = .ok info) ↔ MayWatch site v e := by
    simp only [handlePlayInfo_ok mem, exists_and_left, exists_eq, and_true]
  have master := admits_iff isId mem (served_master e.id.toInt)
  refine ⟨master.trans (and_congr_left' watches.symm), fun info shown => ⟨?_, fun uri _ served => ?_⟩,
    (handleEmbedPage_ok isId mem named).trans master.symm, ?_⟩
  · obtain ⟨-, rfl⟩ := (handlePlayInfo_ok mem).mp shown
    split
    next done => exact iff_of_true rfl done
    next other => exact iff_of_false nofun other
  · have may := ((handlePlayInfo_ok mem).mp shown).1
    rw [admits_iff isId mem served]
    exact and_iff_right may
  · rw [gate_iff, conds_iff, watches, MayWatch]
    constructor
    · rintro ⟨⟨free, staff⟩, done, allowed, shown⟩
      exact ⟨⟨free, by rwa [if_neg (by simp [allowed])]⟩, done, allowed, staff⟩
    · rintro ⟨⟨free, shown⟩, done, allowed, staff⟩
      rw [if_neg (by simp [allowed])] at shown
      exact ⟨⟨free, staff⟩, done, allowed, shown⟩

end Agreement

section Catalog
variable {site : Site} {v : Visitor} {query : CatalogQuery} {fuel : Nat} {rows : List EntryRow}
  {orders : ∀ sort, Sorting (sortLess site sort)}

/-- The limit of the request. -/
def CatalogQuery.rowsPerPage (query : CatalogQuery) : Int := Pages.sanitizedLimit 24 (atoi query.limit)

theorem handleCatalog_ok (isOpen : gate site v = .ok ()) (isFound : found site v query fuel = some rows) :
    handleCatalog site orders v query fuel = some (.ok {
      items := ((((orders query.sort).sort rows).drop
        (Pages.guardedOffset (Pages.sanitizedPage (atoi query.page)) query.rowsPerPage).toNat).take
          query.rowsPerPage.toNat).map (item site)
      total := rows.length
      page := Pages.sanitizedPage (atoi query.page)
      limit := query.rowsPerPage }) := by
  unfold handleCatalog
  rw [isOpen, isFound]
  rfl

/-- The items of an answer. -/
def itemsOf : Option (Except Refusal CatalogPage) → List CatalogEntry
  | some (.ok page) => page.items
  | _ => []

theorem items_page (isOpen : gate site v = .ok ()) (isFound : found site v query fuel = some rows) {i : Nat}
    (fits : (i + 1 : Nat) * query.rowsPerPage < 2 ^ 63) :
    itemsOf (handleCatalog site orders v { query with page := formatInt (i + 1 : Nat) } fuel) =
      ((((orders query.sort).sort rows).drop (i * query.rowsPerPage.toNat)).take
        query.rowsPerPage.toNat).map (item site) := by
  have isFound' : found site v { query with page := formatInt (i + 1 : Nat) } fuel = some rows := isFound
  have least : 1 ≤ query.rowsPerPage := Pages.sanitizedLimit_pos (by decide) _
  have pages : ((i + 1 : Nat) : Int) * 1 ≤ (i + 1 : Nat) * query.rowsPerPage :=
    Int.mul_le_mul_of_nonneg_left least (by omega)
  have number : atoi (formatInt (i + 1 : Nat)) = (i + 1 : Nat) := atoi_formatInt (by unfold cutoff; omega)
  have page : Pages.sanitizedPage (i + 1 : Nat) = (i + 1 : Nat) := if_neg (by omega)
  have product : (((i + 1 : Nat) : Int) - 1) * query.rowsPerPage = i * query.rowsPerPage := by
    rw [show ((i + 1 : Nat) : Int) - 1 = i by omega]
  have nonneg : 0 ≤ (i : Int) * query.rowsPerPage := Int.mul_nonneg (by omega) (by omega)
  have less : (i : Int) * query.rowsPerPage ≤ (i + 1 : Nat) * query.rowsPerPage :=
    Int.mul_le_mul_of_nonneg_right (by omega) (by omega)
  have offset : Pages.guardedOffset (i + 1 : Nat) query.rowsPerPage = i * query.rowsPerPage := by
    have exact' : Pages.offset (i + 1 : Nat) query.rowsPerPage = i * query.rowsPerPage := by
      rw [Pages.offset, product]
      exact Pages.bmod_of_fits nonneg (by omega)
    rw [Pages.guardedOffset, exact', if_neg (by omega)]
  rw [handleCatalog_ok isOpen isFound', itemsOf]
  dsimp only
  rw [number, page]
  change List.map _ (List.take query.rowsPerPage.toNat (List.drop
    (Pages.guardedOffset (i + 1 : Nat) query.rowsPerPage).toNat _)) = _
  rw [offset, Int.toNat_mul (by omega) (by omega), Int.toNat_natCast]

/-- As long as no two entries compare equal, the pages show every entry of the request once, however
each answer is sorted, and every page knows how many there are. -/
theorem catalog_pages (orders : Nat → ∀ sort, Sorting (sortLess site sort)) (isOpen : gate site v = .ok ())
    (isFound : found site v query fuel = some rows)
    (apart : ∀ a ∈ rows, ∀ b ∈ rows, sortLess site query.sort b a = false →
      sortLess site query.sort a b = false → a = b)
    (n : Nat) (fits : n * query.rowsPerPage < 2 ^ 63) :
    ∃ sorted : List EntryRow, sorted.Perm rows ∧
      sorted.Pairwise (fun a b => sortLess site query.sort b a = false) ∧
      (List.range n).flatMap (fun i => itemsOf
        (handleCatalog site (orders i) v { query with page := formatInt (i + 1 : Nat) } fuel)) =
          (sorted.take (n * query.rowsPerPage.toNat)).map (item site) ∧
      ∀ i page answer, handleCatalog site (orders i) v { query with page := page } fuel = some (.ok answer) →
        answer.total = rows.length := by
  refine ⟨(orders 0 query.sort).sort rows, (orders 0 query.sort).perm rows,
    (orders 0 query.sort).sorted rows, ?_, fun i page answer answered => ?_⟩
  · induction n with
    | zero => rw [Nat.zero_mul, List.take_zero]; rfl
    | succ n ih =>
      have least : 1 ≤ query.rowsPerPage := Pages.sanitizedLimit_pos (by decide) _
      have less : (n : Int) * query.rowsPerPage ≤ (n + 1 : Nat) * query.rowsPerPage :=
        Int.mul_le_mul_of_nonneg_right (by omega) (by omega)
      have same := (orders n query.sort).sort_unique (orders 0 query.sort) apart
      rw [List.range_succ, List.flatMap_append, ih (by omega), List.flatMap_singleton,
        items_page isOpen isFound fits, same, ← List.map_append, Nat.succ_mul, List.take_add]
  · have isFound' : found site v { query with page := page } fuel = some rows := isFound
    rw [handleCatalog_ok isOpen isFound'] at answered
    cases answered
    rfl

end Catalog

section Navigation
open Categories Library.Ancestry Relation

variable {site : Site} {v : Visitor} {query : CatalogQuery} {k : Int64} {node : Catalog.Item}
  {orders : ∀ sort, Sorting (sortLess site sort)} {fuel : Nat} {out : List Catalog.CatNode}

/-- The entries as the navigation counts them. -/
def Site.entries (site : Site) : Catalog.Entries site.categories where
  rows := site.rows.map EntryRow.counted
  ids := by
    rw [List.map_map]
    exact site.ids
  drawn e mem := by
    obtain ⟨row, isRow, rfl⟩ := List.mem_map.mp mem
    exact site.drawn row isRow
  categories e mem := by
    obtain ⟨row, isRow, rfl⟩ := List.mem_map.mp mem
    exact site.filed row isRow

theorem mem_subtree {t : Table} {ids : List Int64} (h : subtree t fuel k = some ids) {c : Int64}
    (isCategory : c ∈ t.rows.map Row.id) : c ∈ ids ↔ ReflTransGen (Link (parentOf t)) c k := by
  rw [mem_recursive (fun _ _ => mem_childrenOf) h]
  constructor
  · rintro ⟨x, mem, path⟩
    obtain ⟨row, isRow, rfl⟩ := List.mem_map.mp mem
    obtain rfl : row.id = k := of_decide_eq_true (List.mem_filter.mp isRow).2
    exact path
  · intro path
    have isRow : k ∈ t.rows.map Row.id := by
      rcases ReflTransGen.cases_tail path with rfl | ⟨d, -, link⟩
      · exact isCategory
      · exact link_mem link
    obtain ⟨row, mem, rfl⟩ := List.mem_map.mp isRow
    exact ⟨row.id, List.mem_map.mpr ⟨row, List.mem_filter.mpr ⟨mem, decide_eq_true rfl⟩, rfl⟩, path⟩

/-- Without a staff session the rows of a category are its visible entries and those below it. -/
theorem found_category (acyclic : Acyclic (parentOf site.categories)) (nobody : v.user.id = 0)
    (noText : query.q = []) (isId : categoryID site.categories query.category = k) (positive : 0 < k) :
    ∃ fuel rows, found site v query fuel = some rows ∧
      rows.length = Catalog.subtreeCount site.entries k := by
  obtain ⟨fuel, ended⟩ := (ends_iff.mpr acyclic).descends k
  obtain ⟨ids, isSubtree⟩ := Option.isSome_iff_exists.mp ended
  refine ⟨fuel, site.rows.filter (conds site v query.q (some ids)), ?_, ?_⟩
  · rw [found, isId]
    simp only [if_pos positive, isSubtree, Option.map_some]
  · rw [← List.countP_eq_length_filter, Catalog.subtreeCount]
    change _ = List.countP _ (site.rows.map EntryRow.counted)
    rw [List.countP_map]
    refine List.countP_congr fun e mem => ?_
    have inTree : (e.categoryId.any (· ∈ ids) = true) ↔
        ∃ c ∈ e.categoryId, ReflTransGen (Link (parentOf site.categories)) c k := by
      rw [Option.any_eq_true]
      refine exists_congr fun c => and_congr_right fun isCategory => ?_
      rw [decide_eq_true_iff, mem_subtree isSubtree (site.filed e mem c isCategory)]
    have isVisible : e.counted.isVisible = (e.status = .ready && !e.accessDenied && e.isPublic) := rfl
    rw [Function.comp_apply, isVisible]
    simp only [conds, noText, nobody, ne_eq, not_true_eq_false, decide_true, decide_false, Bool.false_or,
      Bool.true_or, Bool.and_true, Option.all_some, Bool.and_eq_true, inTree]
    rw [and_comm]
    classical
    exact and_congr_left fun _ => decide_eq_true_iff.symm

/-- What the request names by an id, or by a slug that is not a number. -/
theorem categoryID_id (t : Table) (id : Int64) : categoryID t (formatInt id.toInt) = id := by
  have read := parseInt_formatInt id.toInt (Int64.le_toInt id) (Int64.toInt_lt id)
  rw [categoryID, if_neg (formatInt_ne_nil _), read]
  exact Int64.ofInt_toInt id

theorem categoryID_slug {t : Table} {c : Row} (mem : c ∈ t.rows) (named : c.slug ≠ [])
    (noNumber : parseInt c.slug = none) : categoryID t c.slug = c.id := by
  rw [categoryID, if_neg named, noNumber]
  dsimp only
  rw [Grouping.find?_of_nodup t.valid.slugs mem]
  rfl

/-- The navigation shows for a category how many entries its catalog lists for visitors without a
staff session, as long as parents are displayed first. -/
theorem navigation_counts (acyclic : Acyclic (parentOf site.categories))
    (first : Catalog.ParentsFirst site.entries) (drawn : ∀ c ∈ site.categories.rows, 0 < c.id)
    (isOpen : gate site v = .ok ()) (nobody : v.user.id = 0) (noText : query.q = [])
    (h : Catalog.handleCatalogCategories site.categories site.entries fuel = some out)
    (mem : node ∈ Catalog.itemsOf none out)
    (asked : query.category = formatInt node.id.toInt ∨
      query.category = node.slug ∧ node.slug ≠ [] ∧ parseInt node.slug = none) :
    ∃ fuel page, handleCatalog site orders v query fuel = some (.ok page) ∧
      (page.total : Int) = node.count := by
  have right := Catalog.right_of_parentsFirst acyclic first h
  obtain ⟨c, isShown, rfl⟩ := List.mem_map.mp (right.mem_iff.mp mem)
  have isRow : c ∈ site.categories.rows :=
    mem_listCategories.mp (List.mem_of_mem_filter isShown)
  have isId : categoryID site.categories query.category = c.id := by
    rcases asked with byId | ⟨bySlug, named, noNumber⟩
    · rw [byId]
      exact categoryID_id _ _
    · rw [bySlug]
      exact categoryID_slug isRow named noNumber
  obtain ⟨fuel, rows, isFound, total⟩ :=
    found_category acyclic nobody noText isId (drawn c isRow)
  refine ⟨fuel, _, handleCatalog_ok isOpen isFound, ?_⟩
  exact congrArg Int.ofNat total

end Navigation

/-- A public entry below three categories, in a library that is open to everyone. -/
def oneVideo : Site where
  categories := Categories.Catalog.inOrder
  rows := [⟨1, "u".toList, "Clip".toList, [], .ready, some 3, false, true, none, none, 0, [], [], 0, none⟩]
  ids := by decide
  publicIds := by decide
  drawn := by decide
  filed e mem k isCategory := by
    obtain rfl := List.mem_singleton.mp mem
    obtain rfl := Option.mem_some.mp isCategory
    decide
  subtitles _ := []
  aclByID _ := none
  settings := none
  urlHost _ := none
  resolvedPlayerConfig _ := "\x7b\x7d".toList
  proxiedPlayerConfig := id
  ilike text pattern := pattern <:+: text
  titleLess _ _ := false

def visitor : Visitor := ⟨⟨0, none⟩, 0, [], []⟩

def anyOrder (sort : Text) : Sorting (sortLess oneVideo sort) := by
  refine Sorting.stable (fun a b c => ?_) fun a b => ?_
  · unfold sortLess
    split
    · exact fun _ _ => rfl
    · split
      · simp only [Bool.not_eq_true', decide_eq_false_iff_not]
        omega
      · split
        · cases a.durationMs <;> cases b.durationMs <;> cases c.durationMs <;> simp
          omega
        · simp only [Bool.not_eq_true', decide_eq_false_iff_not]
          omega
  · unfold sortLess
    split
    · rfl
    · split
      · simp only [Bool.or_eq_true, Bool.not_eq_true', decide_eq_false_iff_not]
        omega
      · split
        · cases a.durationMs <;> cases b.durationMs <;> simp
          omega
        · simp only [Bool.or_eq_true, Bool.not_eq_true', decide_eq_false_iff_not]
          omega

def theVideo : EntryRow :=
  ⟨1, "u".toList, "Clip".toList, [], .ready, some 3, false, true, none, none, 0, [], [], 0, none⟩

theorem surfaces_agree_oneVideo :
    (∃ info, handlePlayInfo oneVideo visitor "u".toList = .ok info) ∧
      Admits oneVideo.server (visitor.request []) (mediaURI (masterKey 1)) := by
  have agree := surfaces_agree oneVideo visitor theVideo (by decide) (by decide) (by decide)
  have shown : ∃ info, handlePlayInfo oneVideo visitor "u".toList = .ok info := ⟨_, rfl⟩
  exact ⟨shown, agree.1.mpr ⟨shown, .inr rfl⟩⟩

def everything : CatalogQuery := ⟨[], [], [], [], []⟩

theorem catalog_pages_oneVideo : ∃ sorted : List EntryRow, sorted.Perm [theVideo] ∧
    (List.range 2).flatMap (fun i => itemsOf (handleCatalog oneVideo anyOrder visitor
      { everything with page := formatInt (i + 1 : Nat) } 0)) =
        (sorted.take (2 * everything.rowsPerPage.toNat)).map (item oneVideo) := by
  have isFound : found oneVideo visitor everything 0 = some [theVideo] := by decide
  obtain ⟨sorted, perm, -, pages, -⟩ := catalog_pages (fun _ => anyOrder) rfl isFound
    (fun a mem b mem' _ _ => (List.mem_singleton.mp mem).trans (List.mem_singleton.mp mem').symm)
    2 (by decide)
  exact ⟨sorted, perm, pages⟩

theorem navigation_counts_oneVideo : ∃ fuel page,
    handleCatalog oneVideo anyOrder visitor { everything with category := "1".toList } fuel =
      some (.ok page) ∧ (page.total : Int) = 1 := by
  have response : ((Categories.Catalog.handleCatalogCategories oneVideo.categories oneVideo.entries 4).map
      (Categories.Catalog.itemsOf none)) = some [⟨none, 1, ['a'], ['a'], 1⟩,
        ⟨some 1, 2, ['b'], ['b'], 1⟩, ⟨some 2, 3, ['c'], ['c'], 1⟩] := by
    decide +kernel
  obtain ⟨out, isOut, items⟩ := Option.map_eq_some_iff.mp response
  have first : ∀ x ∈ oneVideo.categories.rows, x.parentId ≠ none → ∀ d ∈ oneVideo.categories.rows,
      0 < Categories.Catalog.count oneVideo.entries d.id → Categories.Displayed x d := by
    decide +kernel
  exact navigation_counts (Categories.Catalog.acyclic_of_lt (by decide +kernel))
    (fun x mem nested d dmem _ counts => first x mem nested d dmem counts) (by decide +kernel) rfl
    (show visitor.user.id = 0 from rfl)
    (show ({ everything with category := "1".toList } : CatalogQuery).q = [] from rfl) isOut (items ▸ List.mem_cons_self) (.inl (by decide +kernel))

end Vidsilo.Api.Watching
