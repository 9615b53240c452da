import Mathlib.Algebra.BigOperators.Fin
import Mathlib.Algebra.BigOperators.Group.Finset.Piecewise
import Mathlib.Algebra.Order.BigOperators.Group.Finset
import Mathlib.Algebra.Order.Group.Multiset
import Vidsilo.Categories.Table

/-!
# The category tree

Source: internal/db/categories.go:35-67. The loop appends a copy of each category to the children
of its parent, in display order. What is copied is what the category holds then, so the proof
follows the contents of those cells that are still to be copied.
-/
namespace Vidsilo.Categories

inductive Category where
  | node (row : Row) (children : List Category)

def Category.row : Category → Row
  | .node row _ => row

/-- `p.Children = append(p.Children, *c)`. -/
def Category.append (c : Category) : Category → Category
  | .node row children => .node row (children ++ [c])

/-- `byID` in `CategoryTree`: the last index with the id. -/
def byID (flat : List Row) (id : Int64) : Option Nat :=
  (flat.zipIdx.reverse.find? fun cell => cell.1.id = id).map Prod.snd

/-- One iteration of the first loop. -/
def attach (flat : List Row) (cells : List Category) (i : Nat) : List Category :=
  match cells[i]? with
  | none => cells
  | some c =>
    match c.row.parentId.bind (byID flat) with
    | none => cells
    | some j => cells.modify j (Category.append c)

/-- The second loop also keeps categories whose parent is missing. -/
def isRoot (flat : List Row) (c : Category) : Bool :=
  match c.row.parentId with
  | none => true
  | some p => (byID flat p).isNone

/-- `CategoryTree` of the listed rows. -/
def categoryTree (flat : List Row) : List Category :=
  ((List.range flat.length).foldl (attach flat) (flat.map (.node · []))).filter (isRoot flat)

mutual

/-- Every row of a tree with the id of the category it is below. -/
def Category.placed (parent : Option Int64) : Category → List (Option Int64 × Row)
  | .node row children => (parent, row) :: placedAll (some row.id) children

def placedAll (parent : Option Int64) : List Category → List (Option Int64 × Row)
  | [] => []
  | c :: rest => c.placed parent ++ placedAll parent rest

end

/-- Every category occurs exactly once, below its own parent. -/
def Faithful (flat : List Row) : Prop :=
  (placedAll none (categoryTree flat)).Perm (flat.map fun row => (row.parentId, row))

/-- Categories with a grandparent are displayed before their parent. -/
def DeepFirst (flat : List Row) : Prop :=
  ∀ row ∈ flat, ∀ p ∈ flat, row.parentId = some p.id → p.parentId ≠ none →
    flat.idxOf row < flat.idxOf p

instance (flat : List Row) : Decidable (Faithful flat) := inferInstanceAs (Decidable (List.Perm _ _))

instance (flat : List Row) : Decidable (DeepFirst flat) :=
  inferInstanceAs (Decidable (∀ row ∈ flat, ∀ p ∈ flat, _ → _ → _))

theorem placedAll_append (parent : Option Int64) (cs ds : List Category) :
    placedAll parent (cs ++ ds) = placedAll parent cs ++ placedAll parent ds := by
  induction cs with
  | nil => rw [List.nil_append, placedAll, List.nil_append]
  | cons c cs ih => rw [List.cons_append, placedAll, placedAll, ih, List.append_assoc]

section Flat
variable {flat : List Row} {id : Int64} {i j n : Nat} {row p : Row}

theorem byID_some (h : byID flat id = some j) : ∃ row, flat[j]? = some row ∧ row.id = id := by
  obtain ⟨⟨row, k⟩, found, rfl⟩ := Option.map_eq_some_iff.mp h
  have mem := List.mem_reverse.mp (List.mem_of_find?_eq_some found)
  have same := List.find?_some found
  exact ⟨row, List.mk_mem_zipIdx_iff_getElem?.mp mem, of_decide_eq_true same⟩

theorem byID_isSome (mem : row ∈ flat) : ∃ j, byID flat row.id = some j := by
  obtain ⟨i, hi, rfl⟩ := List.mem_iff_getElem.mp mem
  have inZip : (flat[i], i) ∈ flat.zipIdx :=
    List.mk_mem_zipIdx_iff_getElem?.mpr (List.getElem?_eq_getElem hi)
  have found : (flat.zipIdx.reverse.find? fun cell => cell.1.id = flat[i].id).isSome :=
    List.find?_isSome.mpr ⟨_, List.mem_reverse.mpr inZip, decide_eq_true rfl⟩
  obtain ⟨cell, isCell⟩ := Option.isSome_iff_exists.mp found
  exact ⟨cell.2, by rw [byID, isCell, Option.map_some]⟩

/-- The parent of a row, and its index. -/
theorem byID_parent (linked : Linked flat) (mem : row ∈ flat) (isParent : row.parentId = some id) :
    ∃ j p, byID flat id = some j ∧ flat[j]? = some p ∧ p.id = id := by
  obtain ⟨p, parentMem, rfl⟩ := List.mem_map.mp (linked.parents row mem id isParent)
  obtain ⟨j, isIndex⟩ := byID_isSome parentMem
  obtain ⟨p', isRow, same⟩ := byID_some isIndex
  exact ⟨j, p', isIndex, isRow, same⟩

theorem nodup (linked : Linked flat) : flat.Nodup := List.Nodup.of_map _ linked.ids

theorem eq_of_id (linked : Linked flat) (mem : row ∈ flat) (mem' : p ∈ flat)
    (same : row.id = p.id) : row = p :=
  List.inj_on_of_nodup_map linked.ids mem mem' same

theorem idxOf_eq (linked : Linked flat) (isRow : flat[i]? = some row) : flat.idxOf row = i := by
  obtain ⟨hi, rfl⟩ := List.getElem?_eq_some_iff.mp isRow
  exact (nodup linked).idxOf_getElem i hi

end Flat

section Cells
variable (flat : List Row)

/-- The cells before the iteration. -/
def cellsAt (i : Nat) : List Category :=
  (List.range i).foldl (attach flat) (flat.map (.node · []))

/-- What a cell holds. -/
def contents (cells : List Category) (k : Nat) : Multiset (Option Int64 × Row) :=
  match cells[k]? with
  | none => 0
  | some c => c.placed c.row.parentId

/-- The cell is still to be copied, by the iteration or a later one or as a root. -/
def waits (i k : Nat) : Bool := i ≤ k || flat[k]?.all (·.parentId.isNone)

def total (i : Nat) (cells : List Category) : Multiset (Option Int64 × Row) :=
  ∑ k ∈ Finset.range flat.length, if waits flat i k then contents cells k else 0

/-- What an iteration copies into a cell that has been copied itself. -/
def lost (i : Nat) : Multiset (Option Int64 × Row) :=
  match (flat[i]?.bind Row.parentId).bind (byID flat) with
  | none => 0
  | some j => if waits flat (i + 1) j then 0 else contents (cellsAt flat i) i

variable {flat} {cells : List Category} {c d : Category} {i j k : Nat} {row : Row} {id : Int64}

theorem cellsAt_succ : cellsAt flat (i + 1) = attach flat (cellsAt flat i) i := by
  rw [cellsAt, List.range_succ, List.foldl_append]
  rfl

theorem row_append : (Category.append c d).row = d.row := by
  cases d
  rfl

theorem placed_append {parent : Option Int64} : (Category.append c d).placed parent =
    d.placed parent ++ c.placed (some d.row.id) := by
  cases d
  simp [Category.append, Category.placed, placedAll_append, placedAll, Category.row]

theorem rows_attach : (attach flat cells i).map Category.row = cells.map Category.row := by
  rw [attach]
  split
  · rfl
  · split
    · rfl
    · next j _ =>
      apply List.ext_getElem?
      intro k
      simp only [List.getElem?_map, List.getElem?_modify]
      split
      · cases cells[k]? with
        | none => rfl
        | some d => exact congrArg some row_append
      · cases cells[k]? with
        | none => rfl
        | some d => rfl

theorem rows_cellsAt (flat : List Row) (i : Nat) : (cellsAt flat i).map Category.row = flat := by
  induction i with
  | zero =>
    rw [cellsAt, List.range_zero, List.foldl_nil, List.map_map]
    exact List.map_id flat
  | succ i ih => rw [cellsAt_succ, rows_attach, ih]

theorem row_cell (isCell : (cellsAt flat i)[k]? = some c) : flat[k]? = some c.row := by
  rw [← rows_cellsAt flat i, List.getElem?_map, isCell, Option.map_some]

theorem cell_of_row (isRow : flat[k]? = some row) :
    ∃ c, (cellsAt flat i)[k]? = some c ∧ c.row = row := by
  rw [← rows_cellsAt flat i, List.getElem?_map] at isRow
  exact Option.map_eq_some_iff.mp isRow

theorem contents_some (isCell : cells[k]? = some c) :
    contents cells k = c.placed c.row.parentId := by
  rw [contents, isCell]

theorem contents_ne_zero (isCell : cells[k]? = some c) : contents cells k ≠ 0 := by
  rw [contents_some isCell]
  cases c
  simp [Category.placed]

/-- The copy of a child adds what the child holds. -/
theorem contents_modify (isParent : c.row.parentId = some id) (isCell : cells[i]? = some c)
    (isCell' : cells[j]? = some d) (same : d.row.id = id) :
    contents (cells.modify j (Category.append c)) k =
      contents cells k + if k = j then contents cells i else 0 := by
  by_cases here : k = j
  · subst here
    have appended : (cells.modify k (Category.append c))[k]? = some (Category.append c d) := by
      simp [isCell']
    rw [contents_some appended, contents_some isCell', contents_some isCell, if_pos rfl,
      row_append, placed_append, same, isParent, Multiset.coe_add]
  · have there : j ≠ k := fun h => here h.symm
    rw [if_neg here, add_zero, contents, contents, List.getElem?_modify]
    simp [there]

/-- Nothing but the copied cell stops waiting. -/
theorem waits_succ (isRow : flat[i]? = some row) : waits flat i k =
    (waits flat (i + 1) k || (k = i && row.parentId.isSome)) := by
  by_cases here : k = i
  · subst here
    cases isParent : row.parentId with
    | none => simp [waits, isRow, isParent]
    | some p => simp [waits, isRow, isParent]
  · have after : (decide (i ≤ k)) = decide (i + 1 ≤ k) := by
      rw [decide_eq_decide]
      omega
    simp [waits, here, after]

theorem total_add {x : Multiset (Option Int64 × Row)} (inside : j < flat.length) :
    total flat i cells + x = ∑ k ∈ Finset.range flat.length,
      ((if waits flat i k then contents cells k else 0) + if k = j then x else 0) := by
  rw [Finset.sum_add_distrib, Finset.sum_ite_eq', if_pos (Finset.mem_range.mpr inside), total]

/-- The contents of the waiting cells, and what is lost, stay together. -/
theorem conserved (linked : Linked flat) (i : Nat) (isRow : flat[i]? = some row) :
    total flat (i + 1) (cellsAt flat (i + 1)) + lost flat i = total flat i (cellsAt flat i) := by
  obtain ⟨c, isCell, rfl⟩ := cell_of_row (i := i) isRow
  have mem := List.mem_of_getElem? isRow
  have inside : i < flat.length := (List.getElem?_eq_some_iff.mp isRow).1
  rw [cellsAt_succ, attach, isCell]
  cases isParent : c.row.parentId with
  | none =>
    have kept (k : Nat) : waits flat (i + 1) k = waits flat i k := by
      rw [waits_succ isRow, isParent]
      simp
    simp [total, lost, isRow, isParent, kept]
  | some id =>
    obtain ⟨j, p, isIndex, isRow', same⟩ := byID_parent linked mem isParent
    obtain ⟨d, isCell', rfl⟩ := cell_of_row (i := i) isRow'
    have inside' : j < flat.length := (List.getElem?_eq_some_iff.mp isRow').1
    have copied : waits flat (i + 1) i = false := by
      simp [waits, isRow, isParent]
    have before : total flat i (cellsAt flat i) =
        total flat (i + 1) (cellsAt flat i) + contents (cellsAt flat i) i := by
      rw [total_add inside]
      apply Finset.sum_congr rfl
      intro k _
      rw [waits_succ isRow, isParent]
      by_cases here : k = i
      · subst here
        simp [copied]
      · simp [here]
    have after : total flat (i + 1) ((cellsAt flat i).modify j (Category.append c)) =
        total flat (i + 1) (cellsAt flat i) +
          if waits flat (i + 1) j then contents (cellsAt flat i) i else 0 := by
      rw [total_add inside']
      apply Finset.sum_congr rfl
      intro k _
      rw [contents_modify isParent isCell isCell' same]
      by_cases here : k = j
      · subst here
        by_cases waiting : waits flat (i + 1) k = true
        · simp [waiting]
        · simp [waiting]
      · simp [here]
    simp only [isParent, Option.bind_some, isIndex, lost, isRow, before, after]
    split
    · rw [add_zero]
    · rw [add_zero]

theorem conserved_run (linked : Linked flat) (n : Nat) (h : n ≤ flat.length) :
    total flat n (cellsAt flat n) + ∑ i ∈ Finset.range n, lost flat i =
      total flat 0 (cellsAt flat 0) := by
  induction n with
  | zero => rw [Finset.range_zero, Finset.sum_empty, add_zero]
  | succ n ih =>
    have step := conserved linked n (List.getElem?_eq_getElem (show n < flat.length by omega))
    rw [Finset.sum_range_succ, ← ih (by omega), ← step, add_assoc,
      add_comm (lost flat n)]

/-- Every row is in its own cell at first. -/
theorem total_start : total flat 0 (cellsAt flat 0) = flat.map fun row => (row.parentId, row) := by
  have cell (i : Fin flat.length) : (if waits flat 0 i then contents (cellsAt flat 0) i else 0) =
      {(flat[i.1].parentId, flat[i.1])} := by
    simp [waits, contents, cellsAt, Category.placed, placedAll, Category.row]
  rw [total, Finset.sum_range, Finset.sum_congr rfl fun i _ => cell i,
    Fin.sum_univ_fun_getElem flat fun row => {(row.parentId, row)}]
  have singles := Multiset.sum_map_singleton
    (flat.map fun row => (row.parentId, row) : Multiset (Option Int64 × Row))
  rw [Multiset.map_coe, Multiset.sum_coe, List.map_map] at singles
  exact singles

theorem placedAll_filter (root : Category → Bool) (cs : List Category) :
    (placedAll none (cs.filter root) : Multiset (Option Int64 × Row)) =
      (cs.map fun c => if root c then (c.placed none : Multiset (Option Int64 × Row)) else 0).sum := by
  induction cs with
  | nil => rfl
  | cons c cs ih =>
    rw [List.map_cons, List.sum_cons, ← ih, List.filter_cons]
    split
    · rw [placedAll, Multiset.coe_add]
    · rw [zero_add]

theorem isRoot_iff (linked : Linked flat) (isRow : flat[k]? = some c.row) :
    isRoot flat c = c.row.parentId.isNone := by
  rw [isRoot]
  cases isParent : c.row.parentId with
  | none => rfl
  | some id =>
    obtain ⟨j, _, isIndex, _, _⟩ := byID_parent linked (List.mem_of_getElem? isRow) isParent
    simp [isIndex]

/-- The roots are what waits in the end. -/
theorem total_end (linked : Linked flat) :
    total flat flat.length (cellsAt flat flat.length) =
      (placedAll none (categoryTree flat) : Multiset (Option Int64 × Row)) := by
  rw [categoryTree, ← cellsAt, placedAll_filter]
  generalize isCells : cellsAt flat flat.length = cells
  have same : flat.length = cells.length := by
    rw [← isCells, ← List.length_map Category.row, rows_cellsAt]
  have cell (k : Fin cells.length) :
      (if waits flat flat.length k then contents cells k else 0) =
        if isRoot flat cells[k.1] then
          (cells[k.1].placed none : Multiset (Option Int64 × Row)) else 0 := by
    have isCell : cells[k.1]? = some cells[k.1] := List.getElem?_eq_getElem k.2
    have isRow : flat[k.1]? = some cells[k.1].row := by
      apply row_cell (i := flat.length)
      rw [isCells, isCell]
    have waiting : waits flat flat.length k = cells[k.1].row.parentId.isNone := by
      have later : ¬ flat.length ≤ k.1 := by omega
      simp [waits, isRow, later]
    rw [isRoot_iff linked isRow, waiting, contents_some isCell]
    split
    · next none => rw [Option.isNone_iff_eq_none.mp none]
    · rfl
  have ranges : Finset.range flat.length = Finset.range cells.length := by rw [same]
  rw [total, ranges, Finset.sum_range, Finset.sum_congr rfl fun k _ => cell k,
    Fin.sum_univ_fun_getElem cells fun c =>
      if isRoot flat c then (c.placed none : Multiset (Option Int64 × Row)) else 0]

/-- An iteration loses something when the parent has a parent and has been copied. -/
theorem lost_eq_zero_iff (linked : Linked flat) (isRow : flat[i]? = some row) :
    lost flat i = 0 ↔ ∀ p ∈ flat, row.parentId = some p.id → p.parentId ≠ none →
      flat.idxOf row < flat.idxOf p := by
  obtain ⟨c, isCell, rfl⟩ := cell_of_row (i := i) isRow
  have mem := List.mem_of_getElem? isRow
  rw [lost, isRow, idxOf_eq linked isRow]
  cases isParent : c.row.parentId with
  | none => simp [isParent]
  | some id =>
    obtain ⟨j, p, isIndex, isRow', rfl⟩ := byID_parent linked mem isParent
    have waiting : waits flat (i + 1) j = true ↔ (p.parentId ≠ none → i < j) := by
      simp only [waits, isRow', Option.all_some, Bool.or_eq_true, decide_eq_true_eq,
        Option.isNone_iff_eq_none]
      tauto
    simp only [Option.bind_some, isParent, isIndex, ite_eq_left_iff, contents_ne_zero isCell,
      imp_false, Classical.not_not, waiting, Option.some.injEq]
    constructor
    · intro deep p' mem' same nested
      obtain rfl := eq_of_id linked (List.mem_of_getElem? isRow') mem' same
      rw [idxOf_eq linked isRow']
      exact deep nested
    · intro deep nested
      have before := deep p (List.mem_of_getElem? isRow') rfl nested
      rwa [idxOf_eq linked isRow'] at before

/-- What is displayed and what the iterations lose make up all the rows. -/
theorem faithful_iff_lost (linked : Linked flat) :
    Faithful flat ↔ ∀ i < flat.length, lost flat i = 0 := by
  have all := conserved_run linked flat.length le_rfl
  rw [total_end linked, total_start] at all
  rw [Faithful, ← Multiset.coe_eq_coe, ← all, left_eq_add, Finset.sum_eq_zero_iff]
  simp only [Finset.mem_range]

theorem lost_iff_deepFirst (linked : Linked flat) :
    (∀ i < flat.length, lost flat i = 0) ↔ DeepFirst flat := by
  constructor
  · intro nothing row mem
    obtain ⟨i, hi, rfl⟩ := List.mem_iff_getElem.mp mem
    exact (lost_eq_zero_iff linked (List.getElem?_eq_getElem hi)).mp (nothing i hi)
  · intro deep i hi
    have isRow := List.getElem?_eq_getElem hi
    exact (lost_eq_zero_iff linked isRow).mpr (deep _ (List.mem_of_getElem? isRow))

/-- The tree of the rows has every category once, below its own parent, exactly when categories
with a grandparent are displayed before their parent. -/
theorem faithful_iff_deepFirst (linked : Linked flat) : Faithful flat ↔ DeepFirst flat :=
  (faithful_iff_lost linked).trans (lost_iff_deepFirst linked)

end Cells

/-- Ids decide between equal positions. -/
theorem idxOf_listCategories {t : Table} {row p : Row} (mem : row ∈ t.rows) (mem' : p ∈ t.rows) :
    (listCategories t).idxOf row < (listCategories t).idxOf p ↔ Displayed row p ∧ row ≠ p := by
  have sorted : (listCategories t).Pairwise Displayed := List.pairwise_insertionSort Displayed t.rows
  have linked := linked_listCategories t
  obtain ⟨i, hi, isRow⟩ := List.mem_iff_getElem.mp (mem_listCategories.mpr mem)
  obtain ⟨j, hj, isRow'⟩ := List.mem_iff_getElem.mp (mem_listCategories.mpr mem')
  rw [idxOf_eq linked (List.getElem?_eq_some_iff.mpr ⟨hi, isRow⟩),
    idxOf_eq linked (List.getElem?_eq_some_iff.mpr ⟨hj, isRow'⟩)]
  constructor
  · intro before
    have displayed := List.pairwise_iff_getElem.mp sorted i j hi hj before
    rw [isRow, isRow'] at displayed
    refine ⟨displayed, ?_⟩
    rintro rfl
    have same := (nodup linked).getElem_inj_iff.mp (isRow.trans isRow'.symm)
    omega
  · rintro ⟨displayed, other⟩
    by_contra later
    have differs : i ≠ j := by
      rintro rfl
      exact other (isRow.symm.trans isRow')
    have reversed := List.pairwise_iff_getElem.mp sorted j i hj hi (by omega)
    rw [isRow, isRow', displayed_iff] at reversed
    rw [displayed_iff] at displayed
    apply other
    apply eq_of_id linked (mem_listCategories.mpr mem) (mem_listCategories.mpr mem')
    apply Int64.toInt_inj.mp
    omega

theorem faithful_listCategories (t : Table) : Faithful (listCategories t) ↔
    ∀ row ∈ t.rows, ∀ p ∈ t.rows, row.parentId = some p.id → p.parentId ≠ none →
      Displayed row p ∧ row ≠ p := by
  have linked := linked_listCategories t
  rw [faithful_iff_lost linked, lost_iff_deepFirst linked, DeepFirst]
  simp only [mem_listCategories]
  constructor
  · intro deep row mem p mem' isParent nested
    exact (idxOf_listCategories mem mem').mp (deep row mem p mem' isParent nested)
  · intro deep row mem p mem' isParent nested
    exact (idxOf_listCategories mem mem').mpr (deep row mem p mem' isParent nested)

/-- A category below a category below a category. -/
def nested (a b c : Int64) : List Row :=
  [⟨a, some b, [], [], 0⟩, ⟨b, some c, [], [], 1⟩, ⟨c, none, [], [], 2⟩]

theorem faithful_nested : Faithful (nested 3 2 1) :=
  (faithful_iff_deepFirst (by decide +kernel : Linked (nested 3 2 1))).mpr (by decide +kernel)

/-- In the order in which they are usually created the third is lost. -/
theorem not_faithful_reversed : Linked (nested 3 2 1).reverse ∧ ¬ Faithful (nested 3 2 1).reverse := by
  decide +kernel

end Vidsilo.Categories
