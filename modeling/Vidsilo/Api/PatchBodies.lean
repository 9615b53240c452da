import Vidsilo.Api.AccessTokens
import Vidsilo.Api.Entries

/-!
# The body of a PATCH

Source: internal/db/entries.go:221-295 (`UpdateEntry`, `OptInt64`, `EntryPatch`),
internal/api/server.go:421-426 (`decodeJSON`). A body is decoded as `encoding/json` does it: keys
match without regard to case, of equal ones the last counts, and an unknown one is an error; what
follows the first value is not read. The bound on the length of a body is left out.
-/
namespace Vidsilo.Api.PatchBodies
open Library Library.SlashPath Library.Json Library.Decimal
open AccessTokens Entries Jobs.Tables

inductive Field where
  | title | description | categoryId | isPublic | domainAclId | accessDenied | flavorIds
  | posterFrame | playerId
  deriving DecidableEq, Repr

def Field.name : Field → Text
  | .title => "title".toList
  | .description => "description".toList
  | .categoryId => "categoryId".toList
  | .isPublic => "isPublic".toList
  | .domainAclId => "domainAclId".toList
  | .accessDenied => "accessDenied".toList
  | .flavorIds => "flavorIds".toList
  | .posterFrame => "posterFrame".toList
  | .playerId => "playerId".toList

def fields : List Field :=
  [.title, .description, .categoryId, .isPublic, .domainAclId, .accessDenied, .flavorIds,
    .posterFrame, .playerId]

/-- Two other runes fold to a letter; the rest never match a name. -/
def foldRune (c : Char) : Char :=
  if c = '\u017f' then 'S' else if c = '\u212a' then 'K' else c.toUpper

def foldName (key : Text) : Text := key.map foldRune

/-- The exact name first. -/
def fieldOf (key : Text) : Option Field :=
  (fields.find? fun f => f.name = key).or (fields.find? fun f => foldName f.name = foldName key)

def intOf : Value → Option Int
  | .number literal => parseInt literal
  | _ => none

def textOf : Value → Option Text
  | .string s => some s
  | _ => none

def boolOf : Value → Option Bool
  | .bool b => some b
  | _ => none

def pointer {α : Type} (read : Value → Option α) : Value → Option (Option α)
  | .null => some none
  | value => (read value).map some

/-- `OptInt64.UnmarshalJSON`. -/
def optInt64 : Value → Option OptInt64
  | .null => some ⟨true, none⟩
  | value => (intOf value).map fun n => ⟨true, some n⟩

/-- The numbers of an array. A `null` leaves what an earlier array has put there. -/
def elements : List Int → List Value → Option (List Int)
  | _, [] => some []
  | backing, value :: rest => do
    let n ← match value with
      | .null => some (backing.headD 0)
      | value => intOf value
    let ns ← elements backing.tail rest
    pure (n :: ns)

/-- A patch, and the array behind its flavors. -/
structure Decoding where
  patch : EntryPatch
  backing : List Int
  deriving DecidableEq, Repr

def Decoding.setFlavors (d : Decoding) : Value → Option Decoding
  | .null => some ⟨{ d.patch with flavorIds := none }, []⟩
  | .array [] => some ⟨{ d.patch with flavorIds := some [] }, []⟩
  | .array items => (elements d.backing items).map fun ns =>
    ⟨{ d.patch with flavorIds := some ns }, ns ++ d.backing.drop ns.length⟩
  | _ => none

def Decoding.set (d : Decoding) (key : Text) (value : Value) : Option Decoding :=
  match fieldOf key with
  | none => none
  | some .title => (pointer textOf value).map fun x => { d with patch := { d.patch with title := x } }
  | some .description =>
    (pointer textOf value).map fun x => { d with patch := { d.patch with description := x } }
  | some .categoryId =>
    (optInt64 value).map fun x => { d with patch := { d.patch with categoryId := x } }
  | some .isPublic =>
    (pointer boolOf value).map fun x => { d with patch := { d.patch with isPublic := x } }
  | some .domainAclId =>
    (optInt64 value).map fun x => { d with patch := { d.patch with domainAclId := x } }
  | some .accessDenied =>
    (pointer boolOf value).map fun x => { d with patch := { d.patch with accessDenied := x } }
  | some .flavorIds => d.setFlavors value
  | some .posterFrame =>
    (pointer intOf value).map fun x => { d with patch := { d.patch with posterFrame := x } }
  | some .playerId => (optInt64 value).map fun x => { d with patch := { d.patch with playerId := x } }

/-- The zero value of `EntryPatch`. -/
def zero : EntryPatch where
  title := none
  description := none
  categoryId := ⟨false, none⟩
  isPublic := none
  domainAclId := ⟨false, none⟩
  accessDenied := none
  flavorIds := none
  posterFrame := none
  playerId := ⟨false, none⟩

/-- The first value of the body. -/
def bodyValue (body : List UInt8) : Option Value :=
  (parseValue ((ofUtf8 body).length + 1) (ofUtf8 body)).map Prod.fst

def decodeJSON (body : List UInt8) : Option EntryPatch :=
  (bodyValue body).bind fun value => (unmarshal ⟨zero, []⟩ Decoding.set value).map (·.patch)

/-- A row of `entries`. -/
structure EntryRow where
  id : Int
  publicId : Text
  categoryId : Option Int
  uploadedBy : Option Int
  title : Text
  description : Text
  status : EntryStatus
  durationMs : Option Int
  sourceKey : Option Text
  sourceSize : Option Int
  isPublic : Bool
  posterKey : Option Text
  spriteKey : Option Text
  spriteFrames : Int
  error : Option String
  createdAt : Int
  updatedAt : Int
  domainAclId : Option Int
  accessDenied : Bool
  posterFrame : Int
  playerId : Option Int
  deriving DecidableEq, Repr

/-- The ids that the row can refer to. -/
structure Refs where
  categories : List Int
  acls : List Int
  players : List Int

/-- `CASE WHEN value IS NOT NULL THEN value WHEN value IS NULL AND present THEN NULL ELSE old END`. -/
def caseColumn (value : Option Int) (present : Bool) (old : Option Int) : Option Int :=
  if value.isSome then value else if value.isNone ∧ present then none else old

/-- The SET clause; `getD` is `COALESCE`. -/
def setClause (now : Int) (patch : EntryPatch) (row : EntryRow) : EntryRow :=
  { row with
    title := patch.title.getD row.title
    description := patch.description.getD row.description
    categoryId := caseColumn patch.categoryId.value patch.categoryId.set row.categoryId
    isPublic := patch.isPublic.getD row.isPublic
    domainAclId := caseColumn patch.domainAclId.value patch.domainAclId.set row.domainAclId
    accessDenied := patch.accessDenied.getD row.accessDenied
    playerId := caseColumn patch.playerId.value patch.playerId.set row.playerId
    updatedAt := now }

inductive DbError where
  | invalidText | foreignKey
  deriving DecidableEq, Repr

/-- A text of Postgres has no character zero. -/
def storable (s : Option Text) : Bool := s.all fun s => decide ('\x00' ∉ s)

def refers (ids : List Int) (o : OptInt64) : Bool := o.value.all fun id => decide (id ∈ ids)

/-- Why the statement fails. -/
def refusal (refs : Refs) (patch : EntryPatch) : Option DbError :=
  if storable patch.title = false ∨ storable patch.description = false then some .invalidText
  else if refers refs.categories patch.categoryId ∧ refers refs.acls patch.domainAclId ∧
      refers refs.players patch.playerId then none
  else some .foreignKey

/-- `UpdateEntry`, on the row with the id. -/
def updateEntry (refs : Refs) (now : Int) (patch : EntryPatch) (row : EntryRow) :
    Except DbError EntryRow :=
  match refusal refs patch with
  | some err => .error err
  | none => .ok (setClause now patch row)

/-- The row after the statement. -/
def stored (refs : Refs) (now : Int) (patch : EntryPatch) (row : EntryRow) : EntryRow :=
  match updateEntry refs now patch row with
  | .ok after => after
  | .error _ => row

/-- The columns that a request reads. -/
def EntryRow.view (row : EntryRow) : Row where
  title := row.title
  description := row.description
  categoryId := row.categoryId
  isPublic := row.isPublic
  domainAclId := row.domainAclId
  accessDenied := row.accessDenied
  playerId := row.playerId
  posterKey := row.posterKey.getD []
  posterFrame := row.posterFrame
  spriteKey := row.spriteKey.getD []
  spriteFrames := row.spriteFrames
  status := row.status
  error := row.error
  updatedAt := row.updatedAt

theorem apply_eq (o : OptInt64) (old : Option Int) : o.apply old = caseColumn o.value o.set old := by
  unfold OptInt64.apply caseColumn
  cases o.value with
  | none => simp
  | some v => rfl

/-- The SET clause is the one of the request. -/
theorem view_setClause (now : Int) (patch : EntryPatch) (row : EntryRow) :
    (setClause now patch row).view = { patch.apply row.view with updatedAt := now } := by
  simp only [EntryPatch.apply, apply_eq]
  rfl

theorem fieldOf_iff (key : Text) (f : Field) :
    fieldOf key = some f ↔ foldName key = foldName f.name := by
  have distinct : ∀ f g : Field, foldName f.name = foldName g.name → f = g := by
    intro f g
    cases f <;> cases g <;> decide
  have all (f : Field) : f ∈ fields := by
    cases f <;> decide
  have sound {g : Field} (h : fieldOf key = some g) : foldName g.name = foldName key := by
    rcases Option.or_eq_some_iff.mp h with isName | ⟨_, isFolded⟩
    · have name := List.find?_some isName
      exact congrArg foldName (of_decide_eq_true name)
    · have folded := List.find?_some isFolded
      exact of_decide_eq_true folded
  constructor
  · exact fun h => (sound h).symm
  · intro same
    have found : (fieldOf key).isSome = true := by
      rw [fieldOf, Option.isSome_or, Bool.or_eq_true, List.find?_isSome, List.find?_isSome]
      exact .inr ⟨f, all f, decide_eq_true same.symm⟩
    obtain ⟨g, isField⟩ := Option.isSome_iff_exists.mp found
    rw [isField, distinct g f ((sound isField).trans same)]

/-- The members of the object; a body of `null` has none. -/
def members (body : List UInt8) : List (Text × Value) :=
  match bodyValue body with
  | some (.object ms) => ms
  | _ => []

/-- The value of the last key that matches the field. -/
def lastValue (ms : List (Text × Value)) (f : Field) : Option Value :=
  ((ms.filter fun m => decide (foldName m.1 = foldName f.name)).getLast?).map Prod.snd

theorem lastValue_concat (ms : List (Text × Value)) (m : Text × Value) (f : Field) :
    lastValue (ms ++ [m]) f = if fieldOf m.1 = some f then some m.2 else lastValue ms f := by
  unfold lastValue
  rw [List.filter_append]
  split
  · next same => simp [(fieldOf_iff m.1 f).mp same]
  · next other => simp [mt (fieldOf_iff m.1 f).mpr other]

/-- A pointer is nil without its key. -/
def pointerField {α : Type} (read : Value → Option α) : Option Value → Option (Option α)
  | none => some none
  | some value => pointer read value

def optField : Option Value → Option OptInt64
  | none => some ⟨false, none⟩
  | some value => optInt64 value

/-- The fields that `UpdateEntry` reads are what the last keys say. -/
structure Agrees (ms : List (Text × Value)) (patch : EntryPatch) : Prop where
  title : pointerField textOf (lastValue ms .title) = some patch.title
  description : pointerField textOf (lastValue ms .description) = some patch.description
  categoryId : optField (lastValue ms .categoryId) = some patch.categoryId
  isPublic : pointerField boolOf (lastValue ms .isPublic) = some patch.isPublic
  domainAclId : optField (lastValue ms .domainAclId) = some patch.domainAclId
  accessDenied : pointerField boolOf (lastValue ms .accessDenied) = some patch.accessDenied
  playerId : optField (lastValue ms .playerId) = some patch.playerId

theorem setFlavors_eq {d d' : Decoding} {value : Value} (h : d.setFlavors value = some d') :
    ∃ flavorIds, d'.patch = { d.patch with flavorIds := flavorIds } := by
  unfold Decoding.setFlavors at h
  split at h
  · cases h
    exact ⟨_, rfl⟩
  · cases h
    exact ⟨_, rfl⟩
  · obtain ⟨ns, _, rfl⟩ := Option.map_eq_some_iff.mp h
    exact ⟨_, rfl⟩
  · cases h

/-- A key changes its own field. -/
theorem Agrees.set {ms : List (Text × Value)} {d d' : Decoding} {m : Text × Value}
    (h : Agrees ms d.patch) (step : d.set m.1 m.2 = some d') : Agrees (ms ++ [m]) d'.patch := by
  unfold Decoding.set at step
  cases isField : fieldOf m.1 with
  | none =>
    rw [isField] at step
    cases step
  | some f =>
    rw [isField] at step
    have value (g : Field) :
        lastValue (ms ++ [m]) g = if f = g then some m.2 else lastValue ms g := by
      rw [lastValue_concat, isField]
      simp only [Option.some.injEq]
    cases f with
    | title =>
      obtain ⟨x, read, rfl⟩ := Option.map_eq_some_iff.mp step
      constructor <;> rw [value]
      exacts [read, h.description, h.categoryId, h.isPublic, h.domainAclId, h.accessDenied,
        h.playerId]
    | description =>
      obtain ⟨x, read, rfl⟩ := Option.map_eq_some_iff.mp step
      constructor <;> rw [value]
      exacts [h.title, read, h.categoryId, h.isPublic, h.domainAclId, h.accessDenied, h.playerId]
    | categoryId =>
      obtain ⟨x, read, rfl⟩ := Option.map_eq_some_iff.mp step
      constructor <;> rw [value]
      exacts [h.title, h.description, read, h.isPublic, h.domainAclId, h.accessDenied, h.playerId]
    | isPublic =>
      obtain ⟨x, read, rfl⟩ := Option.map_eq_some_iff.mp step
      constructor <;> rw [value]
      exacts [h.title, h.description, h.categoryId, read, h.domainAclId, h.accessDenied, h.playerId]
    | domainAclId =>
      obtain ⟨x, read, rfl⟩ := Option.map_eq_some_iff.mp step
      constructor <;> rw [value]
      exacts [h.title, h.description, h.categoryId, h.isPublic, read, h.accessDenied, h.playerId]
    | accessDenied =>
      obtain ⟨x, read, rfl⟩ := Option.map_eq_some_iff.mp step
      constructor <;> rw [value]
      exacts [h.title, h.description, h.categoryId, h.isPublic, h.domainAclId, read, h.playerId]
    | playerId =>
      obtain ⟨x, read, rfl⟩ := Option.map_eq_some_iff.mp step
      constructor <;> rw [value]
      exacts [h.title, h.description, h.categoryId, h.isPublic, h.domainAclId, h.accessDenied, read]
    | flavorIds =>
      obtain ⟨flavorIds, same⟩ := setFlavors_eq step
      rw [same]
      constructor <;> rw [value]
      exacts [h.title, h.description, h.categoryId, h.isPublic, h.domainAclId, h.accessDenied,
        h.playerId]
    | posterFrame =>
      obtain ⟨x, read, rfl⟩ := Option.map_eq_some_iff.mp step
      constructor <;> rw [value]
      exacts [h.title, h.description, h.categoryId, h.isPublic, h.domainAclId, h.accessDenied,
        h.playerId]

theorem agrees_members {ms : List (Text × Value)} {d : Decoding}
    (h : ms.foldlM (fun d m => d.set m.1 m.2) ⟨zero, []⟩ = some d) : Agrees ms d.patch := by
  induction ms using List.reverseRecOn generalizing d with
  | nil =>
    cases h
    exact ⟨rfl, rfl, rfl, rfl, rfl, rfl, rfl⟩
  | append_singleton ms m ih =>
    rw [List.foldlM_append] at h
    obtain ⟨before, earlier, last⟩ := Option.bind_eq_some_iff.mp h
    exact (ih earlier).set (by simpa using last)

theorem agrees_body {body : List UInt8} {patch : EntryPatch} (h : decodeJSON body = some patch) :
    Agrees (members body) patch := by
  obtain ⟨value, parsed, decoded⟩ := Option.bind_eq_some_iff.mp h
  obtain ⟨d, unmarshalled, rfl⟩ := Option.map_eq_some_iff.mp decoded
  unfold members
  rw [parsed]
  cases value with
  | null =>
    cases unmarshalled
    exact ⟨rfl, rfl, rfl, rfl, rfl, rfl, rfl⟩
  | object ms => exact agrees_members unmarshalled
  | bool b => cases unmarshalled
  | number literal => cases unmarshalled
  | string s => cases unmarshalled
  | array items => cases unmarshalled

def setText (old : Text) : Option Value → Text
  | some (.string s) => s
  | _ => old

def setFlag (old : Bool) : Option Value → Bool
  | some (.bool b) => b
  | _ => old

/-- `null` clears the column. -/
def setId (old : Option Int) : Option Value → Option Int
  | none => old
  | some .null => none
  | some value => intOf value

/-- The row with what the keys of a body say. -/
def patched (now : Int) (last : Field → Option Value) (row : EntryRow) : EntryRow :=
  { row with
    title := setText row.title (last .title)
    description := setText row.description (last .description)
    categoryId := setId row.categoryId (last .categoryId)
    isPublic := setFlag row.isPublic (last .isPublic)
    domainAclId := setId row.domainAclId (last .domainAclId)
    accessDenied := setFlag row.accessDenied (last .accessDenied)
    playerId := setId row.playerId (last .playerId)
    updatedAt := now }

/-- No title and no description has a character that Postgres does not store. -/
def Clean (last : Field → Option Value) : Prop :=
  ∀ s, last .title = some (.string s) ∨ last .description = some (.string s) → '\x00' ∉ s

/-- The referenced rows exist. -/
def Referenced (refs : Refs) (patch : EntryPatch) : Prop :=
  refers refs.categories patch.categoryId = true ∧ refers refs.acls patch.domainAclId = true ∧
    refers refs.players patch.playerId = true

/-- The same in every column but `updated_at`. -/
def Same (row row' : EntryRow) : Prop := { row with updatedAt := row'.updatedAt } = row'

section Columns
variable {value : Option Value}

theorem pointerField_cases {α : Type} {read : Value → Option α} {x : Option α}
    (h : pointerField read value = some x) :
    (x = none ∧ (value = none ∨ value = some .null)) ∨
      ∃ v a, value = some v ∧ read v = some a ∧ x = some a := by
  cases value with
  | none =>
    cases h
    exact .inl ⟨rfl, .inl rfl⟩
  | some v =>
    cases v with
    | null =>
      cases h
      exact .inl ⟨rfl, .inr rfl⟩
    | _ =>
      obtain ⟨a, isRead, rfl⟩ := Option.map_eq_some_iff.mp h
      exact .inr ⟨_, a, rfl, isRead, rfl⟩

theorem textOf_eq_some {v : Value} {s : Text} (h : textOf v = some s) : v = .string s := by
  cases v with
  | string t => exact congrArg Value.string (Option.some.inj h)
  | _ => cases h

theorem boolOf_eq_some {v : Value} {b : Bool} (h : boolOf v = some b) : v = .bool b := by
  cases v with
  | bool c => exact congrArg Value.bool (Option.some.inj h)
  | _ => cases h

theorem getD_text {x : Option Text} (h : pointerField textOf value = some x) (old : Text) :
    x.getD old = setText old value := by
  rcases pointerField_cases h with ⟨rfl, rfl | rfl⟩ | ⟨v, s, rfl, isText, rfl⟩
  · rfl
  · rfl
  · rw [textOf_eq_some isText]
    rfl

theorem getD_flag {x : Option Bool} (h : pointerField boolOf value = some x) (old : Bool) :
    x.getD old = setFlag old value := by
  rcases pointerField_cases h with ⟨rfl, rfl | rfl⟩ | ⟨v, b, rfl, isBool, rfl⟩
  · rfl
  · rfl
  · rw [boolOf_eq_some isBool]
    rfl

theorem caseColumn_id {o : OptInt64} (h : optField value = some o) (old : Option Int) :
    caseColumn o.value o.set old = setId old value := by
  cases value with
  | none =>
    cases h
    rfl
  | some v =>
    cases v with
    | null =>
      cases h
      rfl
    | number literal =>
      obtain ⟨n, isInt, rfl⟩ := Option.map_eq_some_iff.mp h
      exact isInt.symm
    | _ => cases h

theorem storable_iff {x : Option Text} (h : pointerField textOf value = some x) :
    storable x = true ↔ ∀ s, value = some (.string s) → '\x00' ∉ s := by
  rcases pointerField_cases h with ⟨rfl, rfl | rfl⟩ | ⟨v, s, rfl, isText, rfl⟩
  · exact ⟨fun _ => nofun, fun _ => rfl⟩
  · exact ⟨fun _ => nofun, fun _ => rfl⟩
  · rw [textOf_eq_some isText]
    simp [storable]

end Columns

section Rows
variable {ms : List (Text × Value)} {patch : EntryPatch} {refs : Refs}

theorem Agrees.setClause (h : Agrees ms patch) (now : Int) (row : EntryRow) :
    setClause now patch row = patched now (lastValue ms) row := by
  simp only [PatchBodies.setClause, patched, getD_text h.title, getD_text h.description,
    getD_flag h.isPublic, getD_flag h.accessDenied, caseColumn_id h.categoryId,
    caseColumn_id h.domainAclId, caseColumn_id h.playerId]

theorem Agrees.clean_iff (h : Agrees ms patch) :
    Clean (lastValue ms) ↔ storable patch.title = true ∧ storable patch.description = true := by
  rw [storable_iff h.title, storable_iff h.description, Clean]
  simp only [or_imp, forall_and]

theorem refusal_clean (h : Agrees ms patch) (exist : Referenced refs patch)
    (clean : Clean (lastValue ms)) : refusal refs patch = none := by
  obtain ⟨title, description⟩ := h.clean_iff.mp clean
  rw [refusal, if_neg (by simp [title, description])]
  exact if_pos exist

theorem refusal_unclean (h : Agrees ms patch) (unclean : ¬ Clean (lastValue ms)) :
    refusal refs patch = some .invalidText := by
  rw [h.clean_iff, not_and_or, Bool.not_eq_true, Bool.not_eq_true] at unclean
  rw [refusal, if_pos unclean]

theorem updateEntry_ok {now : Int} {row : EntryRow} (h : refusal refs patch = none) :
    updateEntry refs now patch row = .ok (PatchBodies.setClause now patch row) := by
  rw [updateEntry, h]

theorem updateEntry_error {now : Int} {row : EntryRow} {err : DbError}
    (h : refusal refs patch = some err) : updateEntry refs now patch row = .error err := by
  rw [updateEntry, h]

theorem stored_ok {now : Int} {row : EntryRow} (h : refusal refs patch = none) :
    stored refs now patch row = PatchBodies.setClause now patch row := by
  rw [stored, updateEntry_ok h]

theorem stored_error {now : Int} {row : EntryRow} {err : DbError}
    (h : refusal refs patch = some err) : stored refs now patch row = row := by
  rw [stored, updateEntry_error h]

end Rows

theorem caseColumn_twice (o : OptInt64) (old : Option Int) :
    caseColumn o.value o.set (caseColumn o.value o.set old) = caseColumn o.value o.set old := by
  unfold caseColumn
  split_ifs <;> rfl

theorem getD_twice {α : Type} (a : Option α) (old : α) : a.getD (a.getD old) = a.getD old := by
  cases a with
  | none => rfl
  | some _ => rfl

theorem setClause_twice (now now' : Int) (patch : EntryPatch) (row : EntryRow) :
    setClause now' patch (setClause now patch row) = setClause now' patch row := by
  simp only [setClause, caseColumn_twice, getD_twice]

theorem getD_comm {α : Type} {a b : Option α} (apart : a = none ∨ b = none) (old : α) :
    b.getD (a.getD old) = a.getD (b.getD old) := by
  rcases apart with rfl | rfl
  · rfl
  · rfl

theorem caseColumn_absent (old : Option Int) : caseColumn none false old = old := rfl

theorem caseColumn_comm {o o' : OptInt64} (apart : o = ⟨false, none⟩ ∨ o' = ⟨false, none⟩)
    (old : Option Int) :
    caseColumn o'.value o'.set (caseColumn o.value o.set old) =
      caseColumn o.value o.set (caseColumn o'.value o'.set old) := by
  rcases apart with rfl | rfl
  · simp only [caseColumn_absent]
  · simp only [caseColumn_absent]

/-- The bodies have no key in common. -/
def Apart (ms ms' : List (Text × Value)) : Prop :=
  ∀ f, lastValue ms f = none ∨ lastValue ms' f = none

section Pairs
variable {ms ms' : List (Text × Value)} {patch patch' : EntryPatch}

theorem pointers_apart {α : Type} {read : Value → Option α} {v v' : Option Value} {x x' : Option α}
    (h : pointerField read v = some x) (h' : pointerField read v' = some x')
    (apart : v = none ∨ v' = none) : x = none ∨ x' = none := by
  rcases apart with rfl | rfl
  · exact .inl (Option.some.inj h).symm
  · exact .inr (Option.some.inj h').symm

theorem opts_apart {v v' : Option Value} {o o' : OptInt64} (h : optField v = some o)
    (h' : optField v' = some o') (apart : v = none ∨ v' = none) :
    o = ⟨false, none⟩ ∨ o' = ⟨false, none⟩ := by
  rcases apart with rfl | rfl
  · exact .inl (Option.some.inj h).symm
  · exact .inr (Option.some.inj h').symm

theorem setClause_comm (h : Agrees ms patch) (h' : Agrees ms' patch') (apart : Apart ms ms')
    (n₁ n₂ n₃ n₄ : Int) (row : EntryRow) :
    Same (setClause n₂ patch' (setClause n₁ patch row))
      (setClause n₄ patch (setClause n₃ patch' row)) := by
  simp only [Same, setClause,
    getD_comm (pointers_apart h.title h'.title (apart .title)),
    getD_comm (pointers_apart h.description h'.description (apart .description)),
    getD_comm (pointers_apart h.isPublic h'.isPublic (apart .isPublic)),
    getD_comm (pointers_apart h.accessDenied h'.accessDenied (apart .accessDenied)),
    caseColumn_comm (opts_apart h.categoryId h'.categoryId (apart .categoryId)),
    caseColumn_comm (opts_apart h.domainAclId h'.domainAclId (apart .domainAclId)),
    caseColumn_comm (opts_apart h.playerId h'.playerId (apart .playerId))]

end Pairs

/-- A statement that fails, fails on every row. -/
theorem stored_twice (refs : Refs) (patch : EntryPatch) (n₁ n₂ n₃ : Int) (row : EntryRow) :
    Same (stored refs n₂ patch (stored refs n₁ patch row)) (stored refs n₃ patch row) := by
  cases refused : refusal refs patch with
  | none =>
    rw [stored_ok refused, stored_ok refused, stored_ok refused, setClause_twice]
    rfl
  | some err =>
    rw [stored_error refused, stored_error refused, stored_error refused]
    rfl

theorem stored_comm {ms ms' : List (Text × Value)} {patch patch' : EntryPatch}
    (h : Agrees ms patch) (h' : Agrees ms' patch') (apart : Apart ms ms') (refs : Refs)
    (n₁ n₂ n₃ n₄ : Int) (row : EntryRow) :
    Same (stored refs n₂ patch' (stored refs n₁ patch row))
      (stored refs n₄ patch (stored refs n₃ patch' row)) := by
  cases refused : refusal refs patch with
  | some err =>
    cases refused' : refusal refs patch' with
    | some err' =>
      simp only [stored_error refused, stored_error refused']
      rfl
    | none =>
      simp only [stored_error refused, stored_ok refused']
      rfl
  | none =>
    cases refused' : refusal refs patch' with
    | some err' =>
      simp only [stored_ok refused, stored_error refused']
      rfl
    | none =>
      simp only [stored_ok refused, stored_ok refused']
      exact setClause_comm h h' apart n₁ n₂ n₃ n₄ row

theorem update_of_bodies (refs : Refs) (row : EntryRow) (body body' : List UInt8)
    (patch patch' : EntryPatch) (accepted : decodeJSON body = some patch)
    (accepted' : decodeJSON body' = some patch') (exist : Referenced refs patch) :
    (∀ now, Clean (lastValue (members body)) →
      updateEntry refs now patch row = .ok (patched now (lastValue (members body)) row)) ∧
    (∀ now, ¬ Clean (lastValue (members body)) →
      updateEntry refs now patch row = .error .invalidText) ∧
    (∀ n₁ n₂ n₃,
      Same (stored refs n₂ patch (stored refs n₁ patch row)) (stored refs n₃ patch row)) ∧
    (Apart (members body) (members body') → ∀ n₁ n₂ n₃ n₄,
      Same (stored refs n₂ patch' (stored refs n₁ patch row))
        (stored refs n₄ patch (stored refs n₃ patch' row))) := by
  have agrees := agrees_body accepted
  have agrees' := agrees_body accepted'
  refine ⟨?_, ?_, ?_, ?_⟩
  · intro now clean
    rw [updateEntry_ok (refusal_clean agrees exist clean), agrees.setClause]
  · intro now unclean
    exact updateEntry_error (refusal_unclean agrees unclean)
  · exact fun n₁ n₂ n₃ => stored_twice refs patch n₁ n₂ n₃ row
  · exact fun apart n₁ n₂ n₃ n₄ => stored_comm agrees agrees' apart refs n₁ n₂ n₃ n₄ row

def someRow : EntryRow where
  id := 1
  publicId := []
  categoryId := some 3
  uploadedBy := none
  title := "old".toList
  description := []
  status := .ready
  durationMs := none
  sourceKey := none
  sourceSize := none
  isPublic := true
  posterKey := none
  spriteKey := none
  spriteFrames := 0
  error := none
  createdAt := 0
  updatedAt := 0
  domainAclId := none
  accessDenied := false
  posterFrame := 0
  playerId := none

def titleAndNull : List UInt8 := toUtf8 "\x7b\"title\":\"new\",\"categoryId\":null\x7d".toList

def playerOnly : List UInt8 := toUtf8 "\x7b\"playerId\":2\x7d".toList

theorem update_of_bodies_titleAndNull :
    ∃ patch, decodeJSON titleAndNull = some patch ∧
      updateEntry ⟨[3], [], [2]⟩ 5 patch someRow =
        .ok { someRow with title := "new".toList, categoryId := none, updatedAt := 5 } := by
  have accepted : decodeJSON titleAndNull =
      some { zero with title := some "new".toList, categoryId := ⟨true, none⟩ } := by
    decide +kernel
  have accepted' : decodeJSON playerOnly = some { zero with playerId := ⟨true, some 2⟩ } := by
    decide +kernel
  have agrees := agrees_body accepted
  have clean : Clean (lastValue (members titleAndNull)) :=
    agrees.clean_iff.mpr ⟨by decide, by decide⟩
  refine ⟨_, accepted, ?_⟩
  rw [(update_of_bodies ⟨[3], [], [2]⟩ someRow titleAndNull playerOnly _ _ accepted accepted'
    ⟨rfl, rfl, rfl⟩).1 5 clean, ← agrees.setClause]
  rfl

/-- A title that Postgres does not store. -/
def zeroTitle : List UInt8 := toUtf8 "\x7b\"title\":\"\\u0000\"\x7d".toList

theorem zero_title_refused :
    ∃ patch, decodeJSON zeroTitle = some patch ∧ Referenced ⟨[], [], []⟩ patch ∧
      (lastValue (members zeroTitle) .title).bind textOf = some ['\x00'] ∧
      updateEntry ⟨[], [], []⟩ 5 patch someRow = .error .invalidText ∧
      (stored ⟨[], [], []⟩ 5 patch someRow).title ≠ ['\x00'] := by
  refine ⟨{ zero with title := some ['\x00'] }, by decide +kernel, ⟨rfl, rfl, rfl⟩,
    by decide +kernel, ?_, ?_⟩
  · decide +kernel
  · decide +kernel

end Vidsilo.Api.PatchBodies
