import Mathlib
import Vidsilo.Api.Entries
import Vidsilo.Api.Sessions
import Vidsilo.Fetch.SafeUrl
import Vidsilo.Library.Contracts

/-!
# Player designs

Source: internal/db/players.go, internal/api/players.go:23-126, internal/api/entries.go:144-213 (the
player of a PATCH), internal/api/media.go:353-379 and 532 (the design in the play info),
internal/db/entries.go:221-249, migration 0013. A number stands for the float64 that it decodes to,
which from JSON is finite. `escape` stands for `url.QueryEscape`. Times, the roles that a route
requires, the other columns of an entry and what else a PATCH can ask for are left out. Any
statement may fail.
-/
namespace Vidsilo.Api.Players
open Library Library.Procedure Library.SlashPath Library.Transition Library.Decimal Library.Contract
open Guards (Refusal)
open Sessions (Lookup)
open Entries (OptInt64)
open Fetch.SafeUrl (Url)
open Categories (trim isSpace)

/-- A decoded JSON value; of arrays and objects nothing is read. -/
inductive Any where
  | null
  | bool (b : Bool)
  | number (q : ℚ)
  | string (s : Text)
  | composite
  deriving DecidableEq

/-- A JSON object with distinct keys. -/
abbrev Object := List (Text × Any)

section Sanitize
variable (o : Object)

def str (k fallback : Text) : Text :=
  match o.lookup k with
  | some (.string s) => s
  | _ => fallback

def num (k : Text) (fallback min max : ℚ) : ℚ :=
  match o.lookup k with
  | some (.number f) => if f < min ∨ max < f then fallback else f
  | _ => fallback

def bool (k : Text) (fallback : Bool) : Bool :=
  match o.lookup k with
  | some (.bool b) => b
  | _ => fallback

def positions : List Text :=
  ["top-left".toList, "top-right".toList, "bottom-left".toList, "bottom-right".toList]

/-- The keys in the order of `json.Marshal`. -/
def sanitizePlayerConfig : Object :=
  let position := str o "logoPosition".toList "top-right".toList
  [("accentColor".toList, .string (str o "accentColor".toList [])),
    ("autoHideControls".toList, .bool (bool o "autoHideControls".toList true)),
    ("logoHref".toList, .string (str o "logoHref".toList [])),
    ("logoOpacity".toList, .number (num o "logoOpacity".toList (4 / 5) 0 1)),
    ("logoPosition".toList, .string (if position ∈ positions then position else "top-right".toList)),
    ("logoSize".toList, .number (num o "logoSize".toList 64 16 512)),
    ("logoUrl".toList, .string (str o "logoUrl".toList [])),
    ("showLoader".toList, .bool (bool o "showLoader".toList true))]

end Sanitize

/-- What a player can show: a value of each kind that is accepted. -/
structure Design where
  accentColor : Text
  logoUrl : Text
  logoHref : Text
  logoPosition : Text
  position : logoPosition ∈ positions
  logoSize : ℚ
  size : 16 ≤ logoSize ∧ logoSize ≤ 512
  logoOpacity : ℚ
  opacity : 0 ≤ logoOpacity ∧ logoOpacity ≤ 1
  showLoader : Bool
  autoHideControls : Bool

def Design.object (d : Design) : Object :=
  [("accentColor".toList, .string d.accentColor), ("autoHideControls".toList, .bool d.autoHideControls),
    ("logoHref".toList, .string d.logoHref), ("logoOpacity".toList, .number d.logoOpacity),
    ("logoPosition".toList, .string d.logoPosition), ("logoSize".toList, .number d.logoSize),
    ("logoUrl".toList, .string d.logoUrl), ("showLoader".toList, .bool d.showLoader)]

theorem num_bounds (o : Object) (k : Text) {fallback min max : ℚ} (h : min ≤ fallback ∧ fallback ≤ max) :
    min ≤ num o k fallback min max ∧ num o k fallback min max ≤ max := by
  unfold num
  split
  · split
    · exact h
    · next inside => exact ⟨not_lt.mp fun low => inside (.inl low), not_lt.mp fun high => inside (.inr high)⟩
  · exact h

/-- Whatever is sent, what is stored is a design. -/
def designOf (o : Object) : Design where
  accentColor := str o "accentColor".toList []
  logoUrl := str o "logoUrl".toList []
  logoHref := str o "logoHref".toList []
  logoPosition := if str o "logoPosition".toList "top-right".toList ∈ positions then
    str o "logoPosition".toList "top-right".toList else "top-right".toList
  position := by
    split
    · assumption
    · decide
  logoSize := num o "logoSize".toList 64 16 512
  size := num_bounds o _ (by norm_num)
  logoOpacity := num o "logoOpacity".toList (4 / 5) 0 1
  opacity := num_bounds o _ (by norm_num)
  showLoader := bool o "showLoader".toList true
  autoHideControls := bool o "autoHideControls".toList true

theorem sanitize_eq (o : Object) : sanitizePlayerConfig o = (designOf o).object := rfl

/-- A design that is stored and sent back stays as it is. -/
theorem sanitize_object (d : Design) : sanitizePlayerConfig d.object = d.object := by
  have position : (if d.logoPosition ∈ positions then d.logoPosition else "top-right".toList) =
      d.logoPosition := if_pos d.position
  have size : (if d.logoSize < 16 ∨ 512 < d.logoSize then 64 else d.logoSize) = d.logoSize :=
    if_neg fun out => out.elim (fun low => absurd d.size.1 (not_le.mpr low))
      fun high => absurd d.size.2 (not_le.mpr high)
  have opacity : (if d.logoOpacity < 0 ∨ 1 < d.logoOpacity then 4 / 5 else d.logoOpacity) =
      d.logoOpacity :=
    if_neg fun out => out.elim (fun low => absurd d.opacity.1 (not_le.mpr low))
      fun high => absurd d.opacity.2 (not_le.mpr high)
  obtain ⟨o, stored⟩ : ∃ o, o = d.object := ⟨_, rfl⟩
  have accentColor : o.lookup "accentColor".toList = some (.string d.accentColor) := by rw [stored]; rfl
  have logoUrl : o.lookup "logoUrl".toList = some (.string d.logoUrl) := by rw [stored]; rfl
  have logoHref : o.lookup "logoHref".toList = some (.string d.logoHref) := by rw [stored]; rfl
  have logoPosition : o.lookup "logoPosition".toList = some (.string d.logoPosition) := by rw [stored]; rfl
  have logoSize : o.lookup "logoSize".toList = some (.number d.logoSize) := by rw [stored]; rfl
  have logoOpacity : o.lookup "logoOpacity".toList = some (.number d.logoOpacity) := by rw [stored]; rfl
  have showLoader : o.lookup "showLoader".toList = some (.bool d.showLoader) := by rw [stored]; rfl
  have autoHideControls : o.lookup "autoHideControls".toList = some (.bool d.autoHideControls) := by
    rw [stored]
    rfl
  rw [← stored]
  simp only [sanitizePlayerConfig, str, num, bool, accentColor, logoUrl, logoHref, logoPosition, logoSize,
    logoOpacity, showLoader, autoHideControls, position, size, opacity]
  exact stored.symm

/-- The configuration of a player that was never saved, or a design. -/
def Valid (config : Object) : Prop := config = [] ∨ ∃ d : Design, config = d.object

theorem valid_sanitize (o : Object) : Valid (sanitizePlayerConfig o) := .inr ⟨designOf o, sanitize_eq o⟩

structure Player where
  id : Int
  name : Text
  isDefault : Bool
  config : Object
  deriving DecidableEq

structure Entry where
  publicId : Text
  playerId : Option Int
  deriving DecidableEq

structure World where
  players : List Player
  ids : (players.map Player.id).Nodup
  entries : List Entry
  publicIds : (entries.map Entry.publicId).Nodup
  references : ∀ e ∈ entries, ∀ p ∈ e.playerId, p ∈ players.map Player.id
  /-- The sequence of the ids. -/
  nextId : Int
  fresh : ∀ p ∈ players, p.id < nextId

inductive Outcome where
  | ok | fails
  deriving DecidableEq, Repr

inductive PlayerOp : Type → Type where
  | list : PlayerOp (Option (List Player))
  | default : PlayerOp (Lookup Player)
  | byID (id : Int) : PlayerOp (Lookup Player)
  | insert (name : Text) (config : Object) : PlayerOp (Option Player)
  /-- Whether a row was affected. -/
  | update (id : Int) (name : Text) (config : Object) : PlayerOp (Option Bool)
  | delete (id : Int) : PlayerOp (Option Bool)
  | entry (publicId : Text) : PlayerOp (Lookup Entry)
  | updateEntry (publicId : Text) (playerId : OptInt64) : PlayerOp Bool

/-- Text and JSONB hold no zero character. -/
def storable (name : Text) (config : Object) : Bool :=
  decide ('\x00' ∉ name) && config.all fun field =>
    match field.2 with
    | .string s => decide ('\x00' ∉ s)
    | _ => true

def firstRow {α : Type} (rows : List α) (p : α → Bool) : Lookup α :=
  match rows.find? p with
  | none => .missing
  | some row => .found row

namespace World
variable (w : World)

/-- `ORDER BY is_default DESC, id`. -/
def listed : List Player :=
  w.players.insertionSort fun a b =>
    (a.isDefault ∧ ¬ b.isDefault) ∨ (a.isDefault = b.isDefault ∧ a.id ≤ b.id)

def inserted (name : Text) (config : Object) : Player := ⟨w.nextId, name, false, config⟩

def insert (name : Text) (config : Object) : World :=
  { w with
    players := w.players ++ [w.inserted name config]
    ids := by
      rw [List.map_append, List.nodup_append]
      refine ⟨w.ids, List.nodup_singleton _, ?_⟩
      intro i mem j new same
      obtain ⟨p, isPlayer, rfl⟩ := List.mem_map.mp mem
      rw [List.map_singleton, List.mem_singleton] at new
      have old := w.fresh p isPlayer
      simp only [inserted] at new
      omega
    references := fun e mem p has => by
      rw [List.map_append]
      exact List.mem_append_left _ (w.references e mem p has)
    nextId := w.nextId + 1
    fresh := fun p mem => by
      rcases List.mem_append.mp mem with old | new
      · have := w.fresh p old
        omega
      · rw [List.mem_singleton.mp new]
        simp only [inserted]
        omega }

def saveRow (id : Int) (name : Text) (config : Object) (p : Player) : Player :=
  if p.id = id then { p with name := name, config := config } else p

@[simp] theorem saveRow_id (id : Int) (name : Text) (config : Object) (p : Player) :
    (saveRow id name config p).id = p.id := by
  rw [saveRow]
  split <;> rfl

@[simp] theorem saveRow_isDefault (id : Int) (name : Text) (config : Object) (p : Player) :
    (saveRow id name config p).isDefault = p.isDefault := by
  rw [saveRow]
  split <;> rfl

theorem ids_saved (id : Int) (name : Text) (config : Object) :
    (w.players.map (saveRow id name config)).map Player.id = w.players.map Player.id := by
  rw [List.map_map]
  exact List.map_congr_left fun p _ => saveRow_id id name config p

def update (id : Int) (name : Text) (config : Object) : World :=
  { w with
    players := w.players.map (saveRow id name config)
    ids := by
      rw [ids_saved]
      exact w.ids
    references := fun e mem p has => by
      rw [ids_saved]
      exact w.references e mem p has
    fresh := fun p mem => by
      obtain ⟨old, isPlayer, rfl⟩ := List.mem_map.mp mem
      rw [saveRow_id]
      exact w.fresh old isPlayer }

def has (id : Int) : Bool := w.players.any fun p => decide (p.id = id)

/-- `WHERE id = $1 AND NOT is_default`. -/
def deletes (id : Int) (p : Player) : Bool := decide (p.id = id) && !p.isDefault

/-- `ON DELETE SET NULL`. -/
def release (id : Int) (e : Entry) : Entry :=
  if e.playerId = some id then { e with playerId := none } else e

@[simp] theorem release_publicId (id : Int) (e : Entry) : (release id e).publicId = e.publicId := by
  rw [release]
  split <;> rfl

theorem release_playerId (id : Int) (e : Entry) :
    (release id e).playerId = e.playerId.filter (· ≠ id) := by
  rw [release]
  split
  · next same => simp [same, Option.filter]
  · next other =>
    rcases h : e.playerId with _ | p
    · rfl
    · have apart : p ≠ id := fun same => other (h.trans (congrArg some same))
      simp [Option.filter, apart]

def delete (id : Int) : World :=
  if w.players.any (deletes id) then
    { w with
      players := w.players.filter fun p => decide (p.id ≠ id)
      ids := w.ids.sublist (List.filter_sublist.map Player.id)
      entries := w.entries.map (release id)
      publicIds := by
        have same : (w.entries.map (release id)).map Entry.publicId = w.entries.map Entry.publicId := by
          rw [List.map_map]
          exact List.map_congr_left fun e _ => release_publicId id e
        rw [same]
        exact w.publicIds
      references := fun e mem p has => by
        obtain ⟨old, isEntry, rfl⟩ := List.mem_map.mp mem
        rw [release_playerId] at has
        obtain ⟨had, other⟩ := Option.mem_filter_iff.mp has
        obtain ⟨row, isPlayer, rfl⟩ := List.mem_map.mp (w.references old isEntry p had)
        exact List.mem_map_of_mem (List.mem_filter.mpr ⟨isPlayer, other⟩)
      fresh := fun p mem => w.fresh p (List.mem_filter.mp mem).1 }
  else w

/-- The foreign key. -/
def refers (o : OptInt64) : Bool := o.value.all w.has

def assignRow (publicId : Text) (o : OptInt64) (e : Entry) : Entry :=
  if e.publicId = publicId then { e with playerId := o.apply e.playerId } else e

@[simp] theorem assignRow_publicId (publicId : Text) (o : OptInt64) (e : Entry) :
    (assignRow publicId o e).publicId = e.publicId := by
  rw [assignRow]
  split <;> rfl

theorem mem_ids {id : Int} : id ∈ w.players.map Player.id ↔ w.has id = true := by
  simp [has]

def assign (publicId : Text) (o : OptInt64) (refers : w.refers o = true) : World :=
  { w with
    entries := w.entries.map (assignRow publicId o)
    publicIds := by
      have same : (w.entries.map (assignRow publicId o)).map Entry.publicId =
          w.entries.map Entry.publicId := by
        rw [List.map_map]
        exact List.map_congr_left fun e _ => assignRow_publicId publicId o e
      rw [same]
      exact w.publicIds
    references := fun e mem p has => by
      obtain ⟨old, isEntry, rfl⟩ := List.mem_map.mp mem
      simp only [assignRow] at has
      split at has
      · simp only [OptInt64.apply] at has
        split at has
        · next value =>
          cases has
          rw [World.refers, value] at refers
          exact w.mem_ids.mpr refers
        · split at has
          · cases has
          · exact w.references old isEntry p has
      · exact w.references old isEntry p has }

end World

def perform {β : Type} (op : PlayerOp β) (outcome : Outcome) (w : World) : Option (β × World) :=
  match op, outcome with
  | .list, .fails => some (none, w)
  | .list, .ok => some (some w.listed, w)
  | .default, .fails => some (.failed, w)
  | .default, .ok => some (firstRow w.listed fun p => p.isDefault, w)
  | .byID _, .fails => some (.failed, w)
  | .byID id, .ok => some (firstRow w.players fun p => decide (p.id = id), w)
  | .insert _ _, .fails => some (none, w)
  | .insert name config, .ok =>
    if storable name config then some (some (w.inserted name config), w.insert name config)
    else some (none, w)
  | .update _ _ _, .fails => some (none, w)
  | .update id name config, .ok =>
    if storable name config then some (some (w.has id), w.update id name config)
    else some (none, w)
  | .delete _, .fails => some (none, w)
  | .delete id, .ok => some (some (w.players.any (World.deletes id)), w.delete id)
  | .entry _, .fails => some (.failed, w)
  | .entry publicId, .ok => some (firstRow w.entries fun e => decide (e.publicId = publicId), w)
  | .updateEntry _ _, .fails => some (false, w)
  | .updateEntry publicId o, .ok =>
    if refers : w.refers o = true then some (true, w.assign publicId o refers) else some (false, w)

structure Body where
  name : Text
  config : Object

inductive Answer where
  | refused (r : Refusal)
  | players (rows : List Player)
  | player (status : Nat) (p : Player)
  | noContent
  | entry (e : Entry)
  /-- The design in the play info, if there is one. -/
  | playing (design : Option Object)
  deriving DecidableEq

abbrev Handler := Procedure PlayerOp Answer

def refuse (status : Nat) (error message : String) : Answer := .refused ⟨status, error, message⟩

def internalError : Answer := refuse 500 "internal" "internal error"

def handlePlayerList : Handler := do
  match ← ask .list with
  | none => pure internalError
  | some players => pure (.players players)

/-- A body with a name that is not blank. -/
def checkBody (body : Option Body) (next : Text → Object → Handler) : Handler :=
  match body with
  | none => pure (refuse 400 "bad_request" "invalid JSON body")
  | some body =>
    if trim isSpace body.name = [] then pure (refuse 400 "bad_request" "name is required")
    else next (trim isSpace body.name) (sanitizePlayerConfig body.config)

def handlePlayerCreate (body : Option Body) : Handler :=
  checkBody body fun name config => do
    match ← ask (.insert name config) with
    | none => pure internalError
    | some player => pure (.player 201 player)

def checkID (id : Text) (next : Int → Handler) : Handler :=
  match parseInt id with
  | none => pure (refuse 400 "bad_request" "invalid player id")
  | some id => next id

def notFound : Answer := refuse 404 "not_found" "player not found"

def handlePlayerUpdate (id : Text) (body : Option Body) : Handler :=
  checkID id fun id => checkBody body fun name config => do
    match ← ask (.update id name config) with
    | none => pure internalError
    | some false => pure notFound
    | some true =>
      match ← ask (.byID id) with
      | .failed => pure internalError
      | .missing => pure notFound
      | .found player => pure (.player 200 player)

def handlePlayerDelete (id : Text) : Handler :=
  checkID id fun id => do
    match ← ask (.delete id) with
    | none => pure internalError
    | some true => pure .noContent
    | some false =>
      match ← ask (.byID id) with
      | .found _ => pure (refuse 409 "conflict" "the Default player can never be deleted")
      | _ => pure notFound

/-- `entryOr404`. -/
def entryOr404 (publicId : Text) (next : Entry → Handler) : Handler :=
  if publicId = [] then pure (refuse 400 "bad_request" "invalid entry id")
  else do
    match ← ask (.entry publicId) with
    | .failed => pure internalError
    | .missing => pure (refuse 404 "not_found" "entry not found")
    | .found e => next e

/-- `UpdateEntry`, which reads the row again. -/
def updateEntry (e : Entry) (playerID : OptInt64) : Handler := do
  match ← ask (.updateEntry e.publicId playerID) with
  | false => pure internalError
  | true =>
    match ← ask (.entry e.publicId) with
    | .found updated => pure (.entry updated)
    | _ => pure internalError

/-- A body that sets at most the player. -/
def handleEntryPatch (publicId : Text) (playerID : OptInt64) : Handler :=
  entryOr404 publicId fun e =>
    match playerID.set, playerID.value with
    | true, some id => do
      match ← ask (.byID id) with
      | .found _ => updateEntry e playerID
      | _ => pure (refuse 400 "bad_request" "unknown player")
    | _, _ => updateEntry e playerID

def resolvedPlayerConfig (playerID : Option Int) (next : Object → Handler) : Handler := do
  match ← ask .default with
  | .found player =>
    match playerID with
    | none => next player.config
    | some id =>
      match ← ask (.byID id) with
      | .found p => next p.config
      | _ => next player.config
  | _ => next []

section Proxied
variable (parse : Text → Except Text Url) (escape : Text → Text)

def proxyLogoURL (raw : Text) : Text :=
  match parse raw with
  | .error _ => raw
  | .ok u => if u.scheme ≠ "https".toList then raw else "/media/branding/logo?url=".toList ++ escape raw

def setLogo (logo : Text) (field : Text × Any) : Text × Any :=
  if field.1 = "logoUrl".toList then (field.1, .string logo) else field

def proxiedPlayerConfig (cfg : Object) : Object :=
  let logo := str cfg "logoUrl".toList []
  if logo = [] then cfg else cfg.map (setLogo (proxyLogoURL parse escape logo))

/-- The play info of an entry that is ready and may be watched. -/
def handlePlayInfo (publicId : Text) : Handler :=
  entryOr404 publicId fun e => resolvedPlayerConfig e.playerId fun cfg =>
    -- the text of an object is longer than two bytes unless it is empty
    pure (.playing (if cfg = [] then none else some (proxiedPlayerConfig parse escape cfg)))

inductive Request where
  | list
  | create (body : Option Body)
  | update (id : Text) (body : Option Body)
  | delete (id : Text)
  | patch (publicId : Text) (playerID : OptInt64)
  | play (publicId : Text)

def handle : Request → Handler
  | .list => handlePlayerList
  | .create body => handlePlayerCreate body
  | .update id body => handlePlayerUpdate id body
  | .delete id => handlePlayerDelete id
  | .patch publicId playerID => handleEntryPatch publicId playerID
  | .play publicId => handlePlayInfo parse escape publicId

end Proxied

/-- One player is the default: the first that was made. -/
structure Sound (w : World) : Prop where
  default : ∃ p ∈ w.players, p.id = 1 ∧ p.isDefault = true
  others : ∀ p ∈ w.players, p.isDefault = true → p.id = 1
  configs : ∀ p ∈ w.players, Valid p.config
  forward : 1 < w.nextId

/-- After the migration, with the entries that there are. -/
def installed (publicIds : List Text) (nodup : publicIds.Nodup) : World where
  players := [⟨1, "Default".toList, true, []⟩]
  ids := List.nodup_singleton _
  entries := publicIds.map (⟨·, none⟩)
  publicIds := by
    rw [List.map_map]
    exact (List.map_id _).symm ▸ nodup
  references := fun e mem p has => by
    obtain ⟨publicId, _, rfl⟩ := List.mem_map.mp mem
    cases has
  nextId := 2
  fresh := by simp

theorem sound_installed (publicIds : List Text) (nodup : publicIds.Nodup) :
    Sound (installed publicIds nodup) where
  default := ⟨_, List.mem_singleton_self _, rfl, rfl⟩
  others := by simp [installed]
  configs := by simp [installed, Valid]
  forward := by simp [installed]

/-- Only what `SanitizePlayerConfig` gives is saved. -/
def contract : Contract PlayerOp where
  allowed {_} op :=
    match op with
    | .insert _ config | .update _ _ config => Valid config
    | _ => True
  promises {_} op reply :=
    match op, reply with
    | .list, reply => ∀ rows ∈ reply, ∀ p ∈ rows, Valid p.config
    | .default, reply => ∀ p, reply = .found p → p.id = 1 ∧ p.isDefault = true ∧ Valid p.config
    | .byID id, reply => ∀ p, reply = .found p → p.id = id ∧ Valid p.config
    | .insert name config, reply => ∀ p ∈ reply, p.name = name ∧ p.config = config ∧
        p.isDefault = false ∧ 1 < p.id
    | .update _ _ _, _ => True
    | .delete id, reply => reply = some true → id ≠ 1
    | .entry publicId, reply => ∀ e, reply = .found e → e.publicId = publicId
    | .updateEntry _ _, _ => True

theorem firstRow_found {α : Type} {rows : List α} {p : α → Bool} {row : α}
    (h : firstRow rows p = .found row) : row ∈ rows ∧ p row = true := by
  simp only [firstRow] at h
  split at h
  · cases h
  · next found =>
    cases h
    exact ⟨List.mem_of_find?_eq_some found, List.find?_some found⟩

theorem mem_listed {w : World} {p : Player} : p ∈ w.listed ↔ p ∈ w.players := by
  simp [World.listed]

theorem Sound.insert {w : World} (h : Sound w) (name : Text) {config : Object} (valid : Valid config) :
    Sound (w.insert name config) where
  default := h.default.imp fun p has => ⟨List.mem_append_left _ has.1, has.2⟩
  others p mem isDefault := by
    rcases List.mem_append.mp mem with old | new
    · exact h.others p old isDefault
    · rw [List.mem_singleton.mp new] at isDefault
      cases isDefault
  configs p mem := by
    rcases List.mem_append.mp mem with old | new
    · exact h.configs p old
    · rw [List.mem_singleton.mp new]
      exact valid
  forward := by
    have := h.forward
    simp only [World.insert]
    omega

theorem Sound.update {w : World} (h : Sound w) (id : Int) (name : Text) {config : Object}
    (valid : Valid config) : Sound (w.update id name config) where
  default := by
    obtain ⟨p, mem, isFirst, isDefault⟩ := h.default
    exact ⟨_, List.mem_map_of_mem mem, by simpa using isFirst, by simpa using isDefault⟩
  others p mem isDefault := by
    obtain ⟨old, isPlayer, rfl⟩ := List.mem_map.mp mem
    rw [World.saveRow_isDefault] at isDefault
    rw [World.saveRow_id]
    exact h.others old isPlayer isDefault
  configs p mem := by
    obtain ⟨old, isPlayer, rfl⟩ := List.mem_map.mp mem
    rw [World.saveRow]
    split
    · exact valid
    · exact h.configs old isPlayer
  forward := h.forward

/-- The row that goes is not the default's. -/
theorem Sound.ne_default {w : World} (h : Sound w) {id : Int}
    (deletes : w.players.any (World.deletes id) = true) : id ≠ 1 := by
  rintro rfl
  obtain ⟨row, isPlayer, goes⟩ := List.any_eq_true.mp deletes
  obtain ⟨p, mem, isFirst, isDefault⟩ := h.default
  simp only [World.deletes, Bool.and_eq_true, decide_eq_true_eq, Bool.not_eq_true'] at goes
  have same : row = p := List.inj_on_of_nodup_map w.ids isPlayer mem (goes.1.trans isFirst.symm)
  rw [same, isDefault] at goes
  exact nomatch goes.2

theorem Sound.delete {w : World} (h : Sound w) (id : Int) : Sound (w.delete id) := by
  rw [World.delete]
  split
  next deletes =>
    obtain ⟨p, mem, isFirst, isDefault⟩ := h.default
    have apart : p.id ≠ id := isFirst.symm ▸ (h.ne_default deletes).symm
    exact {
      default := ⟨p, List.mem_filter.mpr ⟨mem, by simpa using apart⟩, isFirst, isDefault⟩
      others := fun p mem => h.others p (List.mem_filter.mp mem).1
      configs := fun p mem => h.configs p (List.mem_filter.mp mem).1
      forward := h.forward }
  · exact h

theorem kept : contract.Kept perform Sound := by
  intro β op outcome w w' reply sound meets taken
  cases op with
  | list =>
    cases outcome <;> cases taken
    · exact ⟨sound, fun rows same p mem => sound.configs p (mem_listed.mp (Option.some.inj same ▸ mem))⟩
    · exact ⟨sound, fun rows none => nomatch none⟩
  | default =>
    cases outcome <;> cases taken
    · refine ⟨sound, fun p found => ?_⟩
      obtain ⟨mem, isDefault⟩ := firstRow_found found
      have isPlayer := mem_listed.mp mem
      exact ⟨sound.others p isPlayer isDefault, isDefault, sound.configs p isPlayer⟩
    · exact ⟨sound, fun p none => nomatch none⟩
  | byID id =>
    cases outcome <;> cases taken
    · refine ⟨sound, fun p found => ?_⟩
      obtain ⟨mem, same⟩ := firstRow_found found
      exact ⟨of_decide_eq_true same, sound.configs p mem⟩
    · exact ⟨sound, fun p none => nomatch none⟩
  | insert name config =>
    cases outcome <;> simp only [perform] at taken
    · split at taken <;> cases taken
      · refine ⟨sound.insert name meets, ?_⟩
        rintro p ⟨⟩
        exact ⟨rfl, rfl, rfl, sound.forward⟩
      · exact ⟨sound, fun p none => nomatch none⟩
    · cases taken
      exact ⟨sound, fun p none => nomatch none⟩
  | update id name config =>
    cases outcome <;> simp only [perform] at taken
    · split at taken <;> cases taken
      · exact ⟨sound.update id name meets, trivial⟩
      · exact ⟨sound, trivial⟩
    · cases taken
      exact ⟨sound, trivial⟩
  | delete id =>
    cases outcome <;> cases taken
    · exact ⟨sound.delete id, fun goes => sound.ne_default (Option.some.inj goes)⟩
    · exact ⟨sound, fun none => nomatch none⟩
  | entry publicId =>
    cases outcome <;> cases taken
    · exact ⟨sound, fun e found => of_decide_eq_true (firstRow_found found).2⟩
    · exact ⟨sound, fun e none => nomatch none⟩
  | updateEntry publicId o =>
    cases outcome <;> simp only [perform] at taken
    · split at taken <;> cases taken
      · exact ⟨⟨sound.default, sound.others, sound.configs, sound.forward⟩, trivial⟩
      · exact ⟨sound, trivial⟩
    · cases taken
      exact ⟨sound, trivial⟩

/-- An answer that is right whatever other requests do. -/
def Right : Request → Answer → Prop
  | .list, .players rows => ∀ p ∈ rows, Valid p.config
  | .create body, .player status p => status = 201 ∧ p.isDefault = false ∧ p.id ≠ 1 ∧
      ∃ b ∈ body, p.name = trim isSpace b.name ∧ p.config = sanitizePlayerConfig b.config
  | .update id _, .player status p => status = 200 ∧ parseInt id = some p.id ∧ Valid p.config
  | .delete id, .noContent => parseInt id ≠ some 1
  | .patch publicId _, .entry e => e.publicId = publicId
  | .play _, .playing design => ∀ cfg ∈ design, ∃ d : Design, cfg = d.object
  | _, .refused _ => True
  | _, _ => False

section Meets
variable {good : Answer → Prop}

theorem meets_checkBody (refused : ∀ r, good (.refused r)) {body : Option Body} {next : Text → Object → Handler}
    (later : ∀ b ∈ body,
      (next (trim isSpace b.name) (sanitizePlayerConfig b.config)).Meets contract good) :
    (checkBody body next).Meets contract good := by
  cases body with
  | none => exact refused _
  | some b =>
    rw [checkBody]
    split
    · exact refused _
    · exact later b rfl

theorem meets_checkID (refused : ∀ r, good (.refused r)) {id : Text} {next : Int → Handler}
    (later : ∀ n, parseInt id = some n → (next n).Meets contract good) :
    (checkID id next).Meets contract good := by
  rw [checkID]
  split
  · exact refused _
  · next n number => exact later n number

theorem meets_entryOr404 (refused : ∀ r, good (.refused r)) {publicId : Text} {next : Entry → Handler}
    (later : ∀ e : Entry, e.publicId = publicId → (next e).Meets contract good) :
    (entryOr404 publicId next).Meets contract good := by
  rw [entryOr404]
  split
  · exact refused _
  · refine ⟨trivial, fun reply found => ?_⟩
    cases reply with
    | failed => exact refused _
    | missing => exact refused _
    | found e => exact later e (found e rfl)

theorem meets_updateEntry (refused : ∀ r, good (.refused r)) {e : Entry} {o : OptInt64}
    (later : ∀ e' : Entry, e'.publicId = e.publicId → good (.entry e')) :
    (updateEntry e o).Meets contract good := by
  refine ⟨trivial, fun done _ => ?_⟩
  cases done with
  | false => exact refused _
  | true =>
    refine ⟨trivial, fun reply found => ?_⟩
    cases reply with
    | failed => exact refused _
    | missing => exact refused _
    | found e' => exact later e' (found e' rfl)

theorem meets_resolved {playerID : Option Int} {next : Object → Handler}
    (later : ∀ cfg, Valid cfg → (next cfg).Meets contract good) :
    (resolvedPlayerConfig playerID next).Meets contract good := by
  refine ⟨trivial, fun reply found => ?_⟩
  cases reply with
  | failed => exact later [] (.inl rfl)
  | missing => exact later [] (.inl rfl)
  | found player =>
    have fallback := later player.config (found player rfl).2.2
    cases playerID with
    | none => exact fallback
    | some id =>
      refine ⟨trivial, fun reply found => ?_⟩
      cases reply with
      | failed => exact fallback
      | missing => exact fallback
      | found p => exact later p.config (found p rfl).2

end Meets

section Served
variable (parse : Text → Except Text Url) (escape : Text → Text)

/-- The design with its logo behind the proxy. -/
def Design.proxied (d : Design) : Design :=
  if d.logoUrl = [] then d else { d with logoUrl := proxyLogoURL parse escape d.logoUrl }

theorem str_object (d : Design) : str d.object "logoUrl".toList [] = d.logoUrl := rfl

theorem proxied_object (d : Design) :
    proxiedPlayerConfig parse escape d.object = (d.proxied parse escape).object := by
  rw [proxiedPlayerConfig, str_object, Design.proxied]
  by_cases empty : d.logoUrl = []
  · rw [if_pos empty, if_pos empty]
  · rw [if_neg empty, if_neg empty]
    rfl

theorem handle_meets (request : Request) :
    (handle parse escape request).Meets contract (Right request) := by
  cases request with
  | list =>
    refine ⟨trivial, fun reply listed => ?_⟩
    cases reply with
    | none => trivial
    | some rows => exact listed rows rfl
  | create body =>
    rw [handle, handlePlayerCreate]
    refine meets_checkBody (fun _ => trivial) fun b has => ⟨valid_sanitize b.config, fun reply made => ?_⟩
    cases reply with
    | none => trivial
    | some p =>
      obtain ⟨named, saved, isDefault, later⟩ := made p rfl
      exact ⟨rfl, isDefault, by omega, b, has, named, saved⟩
  | update id body =>
    rw [handle, handlePlayerUpdate]
    refine meets_checkID (fun _ => trivial) fun n number =>
      meets_checkBody (fun _ => trivial) fun b _ => ⟨valid_sanitize b.config, fun reply _ => ?_⟩
    cases reply with
    | none => trivial
    | some affected =>
      cases affected with
      | false => trivial
      | true =>
        refine ⟨trivial, fun reply found => ?_⟩
        cases reply with
        | failed => trivial
        | missing => trivial
        | found p =>
          obtain ⟨same, valid⟩ := found p rfl
          exact ⟨rfl, same ▸ number, valid⟩
  | delete id =>
    rw [handle, handlePlayerDelete]
    refine meets_checkID (fun _ => trivial) fun n number => ⟨trivial, fun reply gone => ?_⟩
    cases reply with
    | none => trivial
    | some affected =>
      cases affected with
      | true => exact fun first => gone rfl (Option.some.inj (number.symm.trans first))
      | false =>
        refine ⟨trivial, fun reply _ => ?_⟩
        cases reply <;> trivial
  | patch publicId o =>
    rw [handle, handleEntryPatch]
    refine meets_entryOr404 (fun _ => trivial) fun e named => ?_
    have written : (updateEntry e o).Meets contract (Right (.patch publicId o)) :=
      meets_updateEntry (fun _ => trivial) fun e' same => same.trans named
    split
    · refine ⟨trivial, fun reply _ => ?_⟩
      cases reply with
      | failed => trivial
      | missing => trivial
      | found _ => exact written
    · exact written
  | play publicId =>
    rw [handle, handlePlayInfo]
    refine meets_entryOr404 (fun _ => trivial) fun e _ => meets_resolved fun cfg valid => ?_
    obtain rfl | ⟨d, rfl⟩ := valid
    · exact fun cfg none => nomatch none
    · rintro cfg ⟨⟩
      exact ⟨d.proxied parse escape, proxied_object parse escape d⟩

variable {parse escape}

/-- However requests take turns and whichever statements fail, the default player stays the one with
the first id, all that is saved or shown are designs, every entry's player exists, and what a finished
request answers is right. -/
theorem designs_sound {publicIds : List Text} (nodup : publicIds.Nodup)
    {trace : List (Pool.Action Nat Request Outcome)} {p : Pool Nat Request PlayerOp Answer World}
    (run : Run (Pool.step (handle parse escape) fun _ q i s => q.advance perform i s) Always
      (Pool.idle (installed publicIds nodup)) trace p) :
    Sound p.world ∧ (∀ e ∈ p.world.entries, ∀ id ∈ e.playerId, p.world.has id = true) ∧
      ∀ id request answer, p.calls id = some ⟨request, .ret answer⟩ → Right request answer := by
  obtain ⟨sound, calls⟩ := kept.pool (handle_meets parse escape) (sound_installed publicIds nodup) run
  exact ⟨sound, fun e mem id has => p.world.mem_ids.mp (p.world.references e mem id has),
    fun id request answer found => calls id _ found⟩

end Served

def plainUrl (_ : Text) : Except Text Url := .error []

def oneVideo : World := installed ["v".toList] (List.nodup_singleton _)

def body : Body := ⟨"blue".toList, []⟩

def chosen : OptInt64 := ⟨true, some 2⟩

def crossing : List (Pool.Action Nat Request Outcome) :=
  [.start 0 (.create (some body)), .advance 0 .ok, .finish 0, .start 1 (.patch "v".toList chosen),
    .advance 1 .ok, .advance 1 .ok, .start 2 (.delete "2".toList), .advance 2 .ok, .advance 1 .ok]

theorem designs_sound_crossing : ∃ p : Pool Nat Request PlayerOp Answer World,
    Run (Pool.step (handle plainUrl id) fun _ q i s => q.advance perform i s) Always
      (Pool.idle oneVideo) crossing p ∧ p.world.players.length = 1 ∧ Sound p.world := by
  obtain ⟨p, run, one⟩ : ∃ p : Pool Nat Request PlayerOp Answer World,
      Run (Pool.step (handle plainUrl id) fun _ q i s => q.advance perform i s) Always
        (Pool.idle oneVideo) crossing p ∧ decide (p.world.players.length = 1) = true :=
    exists_always (by decide +kernel)
  exact ⟨p, run, of_decide_eq_true one, (designs_sound (List.nodup_singleton _) run).1⟩

end Vidsilo.Api.Players
