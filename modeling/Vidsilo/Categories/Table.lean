import Mathlib.Algebra.Ring.Int.Defs
import Mathlib.Data.List.Nodup
import Mathlib.Data.List.Sort
import Vidsilo.Library.SlashPath
import Vidsilo.Library.Transition

/-!
# The categories table

Source: internal/db/categories.go, internal/db/models.go:32-39, and the table in
internal/db/migrations/0001_init.sql:15-22. Every function is one statement, which takes effect
as a whole or fails and changes nothing. `created_at` is left out.
-/
namespace Vidsilo.Categories
open Library.SlashPath

/-- A `Category` without its children. -/
structure Row where
  id : Int64
  parentId : Option Int64
  name : Text
  slug : Text
  position : Int64
  deriving DecidableEq, Repr

/-- The primary key and the foreign key. -/
structure Linked (rows : List Row) : Prop where
  ids : (rows.map Row.id).Nodup
  parents : ∀ row ∈ rows, ∀ p ∈ row.parentId, p ∈ rows.map Row.id

/-- The constraints of the table. -/
structure Valid (rows : List Row) : Prop extends Linked rows where
  slugs : (rows.map Row.slug).Nodup
  positions : ∀ row ∈ rows, -2 ^ 31 ≤ row.position.toInt ∧ row.position.toInt < 2 ^ 31

/-- The same, decided row by row. -/
theorem linked_iff {rows : List Row} : Linked rows ↔ (rows.map Row.id).Nodup ∧
    (rows.all fun row => row.parentId.all fun p => decide (p ∈ rows.map Row.id)) = true := by
  simp only [List.all_eq_true, Option.all_eq_true, decide_eq_true_eq]
  exact ⟨fun h => ⟨h.ids, h.parents⟩, fun h => ⟨h.1, h.2⟩⟩

instance (rows : List Row) : Decidable (Linked rows) := decidable_of_iff _ linked_iff.symm

theorem valid_iff {rows : List Row} : Valid rows ↔ Linked rows ∧ (rows.map Row.slug).Nodup ∧
    ∀ row ∈ rows, -2 ^ 31 ≤ row.position.toInt ∧ row.position.toInt < 2 ^ 31 :=
  ⟨fun h => ⟨h.toLinked, h.slugs, h.positions⟩, fun h => ⟨h.1, h.2.1, h.2.2⟩⟩

instance (rows : List Row) : Decidable (Valid rows) := decidable_of_iff _ valid_iff.symm

structure Table where
  rows : List Row
  valid : Valid rows

theorem valid_nil : Valid [] := ⟨⟨List.nodup_nil, nofun⟩, List.nodup_nil, nofun⟩

def Table.empty : Table := ⟨[], valid_nil⟩

inductive DbError where
  /-- `category cannot be its own parent`. -/
  | ownParent
  /-- `ErrNotFound`. -/
  | notFound
  /-- A constraint refused the statement. -/
  | constraint
  deriving DecidableEq, Repr

/-- What a statement leaves behind is checked against the constraints. -/
def store (rows : List Row) : Except DbError Table :=
  if valid : Valid rows then .ok ⟨rows, valid⟩ else .error .constraint

/-- `unicode.IsSpace`. -/
def isSpace (c : Char) : Bool :=
  (9 ≤ c.toNat && c.toNat ≤ 13) || c.toNat ∈ [0x20, 0x85, 0xA0, 0x1680, 0x2028, 0x2029, 0x202F,
    0x205F, 0x3000] || (0x2000 ≤ c.toNat && c.toNat ≤ 0x200A)

/-- `unicode.ToLower`, as far as its results are ASCII. -/
def toLower (c : Char) : Char :=
  if c.toNat = 0x130 then 'i' else if c.toNat = 0x212A then 'k' else c.toLower

/-- `strings.Trim` of the characters of a kind. -/
def trim (cut : Char → Bool) (s : Text) : Text :=
  ((s.dropWhile cut).reverse.dropWhile cut).reverse

def slugify (s : Text) : Text :=
  let lower := (trim isSpace s).map toLower
  let out := trim (· = '-') (lower.map fun r =>
    if ('a' ≤ r && r ≤ 'z') || ('0' ≤ r && r ≤ '9') then r else '-')
  if out = [] then ['c', 'a', 't', 'e', 'g', 'o', 'r', 'y'] else out

/-- `id` is the next value of the sequence. -/
def createCategory (t : Table) (id : Int64) (parentID : Option Int64) (name : Text)
    (position : Int64) : Except DbError (Row × Table) :=
  let row : Row := ⟨id, parentID, name, slugify name, position⟩
  (store (t.rows ++ [row])).map fun t' => (row, t')

/-- The columns that the update sets, in the row with the id. -/
def setRow (id : Int64) (row : Row) (old : Row) : Row := if old.id = id then row else old

def updateCategory (t : Table) (id : Int64) (parentID : Option Int64) (name : Text)
    (position : Int64) : Except DbError (Row × Table) :=
  if parentID = some id then .error .ownParent
  else if id ∈ t.rows.map Row.id then
    let row : Row := ⟨id, parentID, name, slugify name, position⟩
    (store (t.rows.map (setRow id row))).map fun t' => (row, t')
  else .error .notFound

/-- `ON DELETE SET NULL`. -/
def orphan (id : Int64) (row : Row) : Row :=
  if row.parentId = some id then { row with parentId := none } else row

def removed (id : Int64) (rows : List Row) : List Row :=
  (rows.filter fun row => row.id ≠ id).map (orphan id)

@[simp] theorem orphan_id (id : Int64) (row : Row) : (orphan id row).id = row.id := by
  rw [orphan]
  split
  · rfl
  · rfl

@[simp] theorem orphan_slug (id : Int64) (row : Row) : (orphan id row).slug = row.slug := by
  rw [orphan]
  split
  · rfl
  · rfl

@[simp] theorem orphan_position (id : Int64) (row : Row) :
    (orphan id row).position = row.position := by
  rw [orphan]
  split
  · rfl
  · rfl

theorem mem_orphan_parentId {id p : Int64} {row : Row} :
    p ∈ (orphan id row).parentId ↔ p ∈ row.parentId ∧ p ≠ id := by
  rw [orphan]
  split
  · next same =>
    simp only [Option.mem_def, reduceCtorEq, same, Option.some.injEq, ne_eq, false_iff, not_and,
      not_not]
    exact Eq.symm
  · next other =>
    simp only [Option.mem_def, ne_eq, iff_self_and]
    rintro isParent rfl
    exact other isParent

theorem map_removed {β : Type} {f : Row → β} {id : Int64} (rows : List Row)
    (same : ∀ row, f (orphan id row) = f row) :
    (removed id rows).map f = (rows.filter fun row => row.id ≠ id).map f := by
  rw [removed, List.map_map]
  exact List.map_congr_left fun row _ => same row

/-- A delete never violates a constraint. -/
theorem valid_removed {rows : List Row} (valid : Valid rows) (id : Int64) :
    Valid (removed id rows) := by
  have sub : (rows.filter fun row => row.id ≠ id).Sublist rows := List.filter_sublist
  refine ⟨⟨?_, ?_⟩, ?_, ?_⟩
  · rw [map_removed rows (orphan_id id)]
    exact valid.ids.sublist (sub.map _)
  · intro row mem p isParent
    obtain ⟨old, oldMem, rfl⟩ := List.mem_map.mp mem
    obtain ⟨isParent, other⟩ := mem_orphan_parentId.mp isParent
    obtain ⟨parent, parentMem, rfl⟩ :=
      List.mem_map.mp (valid.parents old (sub.subset oldMem) p isParent)
    rw [map_removed rows (orphan_id id)]
    exact List.mem_map_of_mem (List.mem_filter.mpr ⟨parentMem, by simpa using other⟩)
  · rw [map_removed rows (orphan_slug id)]
    exact valid.slugs.sublist (sub.map _)
  · intro row mem
    obtain ⟨old, oldMem, rfl⟩ := List.mem_map.mp mem
    rw [orphan_position]
    exact valid.positions old (sub.subset oldMem)

def deleteCategory (t : Table) (id : Int64) : Except DbError Table :=
  if id ∈ t.rows.map Row.id then .ok ⟨removed id t.rows, valid_removed t.valid id⟩
  else .error .notFound

/-- `ORDER BY position, id`. -/
def Displayed (a b : Row) : Prop := a.position < b.position ∨ (a.position = b.position ∧ a.id ≤ b.id)

instance : DecidableRel Displayed := fun _ _ => inferInstanceAs (Decidable (_ ∨ _))

def listCategories (t : Table) : List Row := t.rows.insertionSort Displayed

theorem displayed_iff {a b : Row} : Displayed a b ↔ a.position.toInt < b.position.toInt ∨
    (a.position.toInt = b.position.toInt ∧ a.id.toInt ≤ b.id.toInt) := by
  rw [Displayed, Int64.lt_iff_toInt_lt, Int64.le_iff_toInt_le, Int64.toInt_inj]

instance : IsTrans Row Displayed where
  trans a b c first second := by
    rw [displayed_iff] at *
    omega

instance : Std.Total Displayed where
  total a b := by
    rw [displayed_iff, displayed_iff]
    omega

theorem mem_listCategories {t : Table} {row : Row} : row ∈ listCategories t ↔ row ∈ t.rows :=
  List.mem_insertionSort Displayed

theorem linked_listCategories (t : Table) : Linked (listCategories t) := by
  have perm : (listCategories t).Perm t.rows := List.perm_insertionSort Displayed t.rows
  constructor
  · exact (perm.map Row.id).nodup_iff.mpr t.valid.ids
  · intro row mem p isParent
    exact (perm.map Row.id).mem_iff.mpr (t.valid.parents row (perm.mem_iff.mp mem) p isParent)

end Vidsilo.Categories
