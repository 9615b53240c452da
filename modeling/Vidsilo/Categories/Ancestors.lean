import Mathlib.Data.Finset.Dedup
import Vidsilo.Library.Ancestry
import Vidsilo.Categories.Tree

/-!
# Runs of category changes

Source: internal/db/categories.go:69-116, internal/api/media.go:87-102 and 209-214,
internal/db/entries.go:116-128. The ancestor walk and the recursive query take fuel; they end
when some fuel is enough.
-/
namespace Vidsilo.Categories
open Library.SlashPath Library.Transition Library.Ancestry Relation

inductive Request where
  | create (id : Int64) (parentID : Option Int64) (name : Text) (position : Int64)
  | update (id : Int64) (parentID : Option Int64) (name : Text) (position : Int64)
  | delete (id : Int64)

def handle (t : Table) : Request → Except DbError Table
  | .create id parentID name position => (createCategory t id parentID name position).map Prod.snd
  | .update id parentID name position => (updateCategory t id parentID name position).map Prod.snd
  | .delete id => deleteCategory t id

/-- A request that fails changes nothing. -/
def step (t : Table) (request : Request) : Option Table :=
  some ((handle t request).toOption.getD t)

def parentOf (t : Table) (id : Int64) : Option Int64 :=
  (t.rows.find? (·.id = id)).bind Row.parentId

/-- No category is created below its own id or moved below itself. -/
def KeepsOrder (t : Table) : Request → Prop
  | .create id parentID _ _ => parentID ≠ some id
  | .update id parentID _ _ => ∀ p ∈ parentID, ¬ Above (parentOf t) p id
  | .delete _ => True

/-- The maps of `handleCatalogCategories`. -/
structure Tally where
  counts : Int64 → Int64
  visible : Int64 → Bool

def Tally.add (tally : Tally) (cur own : Int64) : Tally where
  counts := Function.update tally.counts cur (tally.counts cur + tally.counts own)
  visible := Function.update tally.visible cur true

/-- The walk from the parent of a category. -/
def climb (flat : List Row) (own : Int64) : Nat → Option Int64 → Tally → Option Tally
  | _, none, tally => some tally
  | 0, some _, _ => none
  | fuel + 1, some cur, tally =>
    match (byID flat cur).bind fun i => flat[i]? with
    | none => some (tally.add cur own)
    | some p => climb flat own fuel p.parentId (tally.add cur own)

/-- One iteration of the loop that rolls the counts up. -/
def visit (flat : List Row) (fuel : Nat) (tally : Tally) (c : Row) : Option Tally :=
  if tally.counts c.id = 0 then some tally else climb flat c.id fuel c.parentId tally

def rollUp (flat : List Row) (fuel : Nat) (tally : Tally) : Option Tally :=
  flat.foldlM (visit flat fuel) tally

def childrenOf (t : Table) (id : Int64) : List Int64 :=
  (t.rows.filter (·.parentId = some id)).map Row.id

/-- The subtree in the queries of `ListEntries` and `handleCatalog`. -/
def subtree (t : Table) (fuel : Nat) (id : Int64) : Option (List Int64) :=
  recursive (childrenOf t) fuel ((t.rows.filter (·.id = id)).map Row.id)

/-- Every walk and every query ends. -/
structure Ends (t : Table) : Prop where
  climbs : ∀ tally, ∃ fuel, (rollUp (listCategories t) fuel tally).isSome = true
  descends : ∀ id, ∃ fuel, (subtree t fuel id).isSome = true

section Parents
variable {t t' : Table} {id p : Int64} {parentID : Option Int64} {name : Text} {position : Int64}
  {row : Row}

theorem link_iff : Link (parentOf t) id p ↔ ∃ row ∈ t.rows, row.id = id ∧ row.parentId = some p := by
  constructor
  · intro link
    obtain ⟨row, found, isParent⟩ := Option.bind_eq_some_iff.mp link
    exact ⟨row, List.mem_of_find?_eq_some found, by simpa using List.find?_some found, isParent⟩
  · rintro ⟨row, mem, rfl, isParent⟩
    have found : (t.rows.find? (·.id = row.id)).isSome :=
      List.find?_isSome.mpr ⟨row, mem, decide_eq_true rfl⟩
    obtain ⟨row', isRow'⟩ := Option.isSome_iff_exists.mp found
    have same : row'.id = row.id := by simpa using List.find?_some isRow'
    have equal := eq_of_id t.valid.toLinked (List.mem_of_find?_eq_some isRow') mem same
    rw [Link, parentOf, isRow', equal, Option.bind_some, isParent]

theorem map_ok {ε α β : Type} {f : α → β} {r : Except ε α} {b : β} (h : r.map f = .ok b) :
    ∃ a, r = .ok a ∧ f a = b := by
  cases r with
  | error e => cases h
  | ok a =>
    cases h
    exact ⟨a, rfl, rfl⟩

theorem store_ok {rows : List Row} (h : store rows = .ok t) : t.rows = rows := by
  rw [store] at h
  split at h
  · cases h
    rfl
  · cases h

theorem createCategory_ok (h : createCategory t id parentID name position = .ok (row, t')) :
    t'.rows = t.rows ++ [row] ∧ row.id = id ∧ row.parentId = parentID := by
  cases stored : store (t.rows ++ [⟨id, parentID, name, slugify name, position⟩]) with
  | error e =>
    rw [createCategory, stored] at h
    cases h
  | ok t'' =>
    rw [createCategory, stored] at h
    cases h
    exact ⟨store_ok stored, rfl, rfl⟩

theorem updateCategory_ok (h : updateCategory t id parentID name position = .ok (row, t')) :
    parentID ≠ some id ∧ id ∈ t.rows.map Row.id ∧ t'.rows = t.rows.map (setRow id row) ∧
      row.id = id ∧ row.parentId = parentID := by
  rw [updateCategory] at h
  split at h
  · cases h
  · next other =>
    split at h
    · next present =>
      cases stored : store (t.rows.map
          (setRow id ⟨id, parentID, name, slugify name, position⟩)) with
      | error e =>
        simp only [stored] at h
        cases h
      | ok t'' =>
        simp only [stored] at h
        cases h
        exact ⟨other, present, store_ok stored, rfl, rfl⟩
    · cases h

theorem parentOf_eq (h : ∀ x p, Link (parentOf t') x p ↔
    (x = id ∧ parentID = some p) ∨ (x ≠ id ∧ Link (parentOf t) x p)) :
    parentOf t' = Function.update (parentOf t) id parentID := by
  funext x
  apply Option.ext
  intro p
  exact (h x p).trans link_update.symm

/-- No category refers to an id that is not there. -/
theorem link_mem (h : Link (parentOf t) id p) : p ∈ t.rows.map Row.id := by
  obtain ⟨row, mem, _, isParent⟩ := link_iff.mp h
  exact t.valid.parents row mem p isParent

theorem parentOf_create (h : createCategory t id parentID name position = .ok (row, t')) :
    id ∉ t.rows.map Row.id ∧ parentOf t' = Function.update (parentOf t) id parentID := by
  obtain ⟨rows, isId, isParent⟩ := createCategory_ok h
  have ids := t'.valid.ids
  rw [rows, List.map_append, List.nodup_append] at ids
  have fresh : id ∉ t.rows.map Row.id := fun mem =>
    ids.2.2 id mem id (by simp [isId]) rfl
  refine ⟨fresh, parentOf_eq fun x p => ?_⟩
  rw [link_iff, rows, link_iff]
  constructor
  · rintro ⟨old, mem, rfl, link⟩
    rcases List.mem_append.mp mem with before | new
    · refine .inr ⟨?_, old, before, rfl, link⟩
      rintro rfl
      exact fresh (List.mem_map_of_mem before)
    · obtain rfl := List.mem_singleton.mp new
      exact .inl ⟨isId, isParent ▸ link⟩
  · rintro (⟨rfl, isNew⟩ | ⟨_, old, mem, isOld, link⟩)
    · exact ⟨row, by simp, isId, isParent.trans isNew⟩
    · exact ⟨old, List.mem_append_left _ mem, isOld, link⟩

theorem parentOf_update (h : updateCategory t id parentID name position = .ok (row, t')) :
    parentID ≠ some id ∧ parentOf t' = Function.update (parentOf t) id parentID := by
  obtain ⟨other, present, rows, isId, isParent⟩ := updateCategory_ok h
  refine ⟨other, parentOf_eq fun x p => ?_⟩
  rw [link_iff, rows, link_iff]
  constructor
  · rintro ⟨new, mem, rfl, link⟩
    obtain ⟨old, oldMem, rfl⟩ := List.mem_map.mp mem
    rw [setRow] at link ⊢
    split at link
    · next same =>
      rw [if_pos same]
      exact .inl ⟨isId, isParent ▸ link⟩
    · next differs =>
      rw [if_neg differs]
      exact .inr ⟨differs, old, oldMem, rfl, link⟩
  · rintro (⟨rfl, isNew⟩ | ⟨differs, old, mem, rfl, link⟩)
    · obtain ⟨old, mem, same⟩ := List.mem_map.mp present
      refine ⟨row, ?_, isId, isParent.trans isNew⟩
      exact List.mem_map.mpr ⟨old, mem, if_pos same⟩
    · exact ⟨old, List.mem_map.mpr ⟨old, mem, if_neg differs⟩, rfl, link⟩

theorem link_delete (h : deleteCategory t id = .ok t') {x : Int64}
    (link : Link (parentOf t') x p) : Link (parentOf t) x p := by
  rw [deleteCategory] at h
  split at h
  · cases h
    obtain ⟨row, mem, isId, isParent⟩ := link_iff.mp link
    obtain ⟨old, oldMem, rfl⟩ := List.mem_map.mp mem
    rw [orphan_id] at isId
    exact link_iff.mpr ⟨old, List.mem_of_mem_filter oldMem, isId, (mem_orphan_parentId.mp isParent).1⟩
  · cases h

theorem acyclic_create (acyclic : Acyclic (parentOf t))
    (h : createCategory t id parentID name position = .ok (row, t')) :
    Acyclic (parentOf t') ↔ parentID ≠ some id := by
  obtain ⟨fresh, isParent⟩ := parentOf_create h
  rw [isParent, acyclic_update_iff acyclic]
  constructor
  · rintro free rfl
    exact free id rfl .refl
  · rintro other p rfl path
    rcases reflTransGen_iff.mp path with rfl | above
    · exact other rfl
    · obtain ⟨c, _, link⟩ := above.child
      exact fresh (link_mem link)

theorem acyclic_change (acyclic : Acyclic (parentOf t))
    (h : updateCategory t id parentID name position = .ok (row, t')) :
    Acyclic (parentOf t') ↔ ∀ p ∈ parentID, ¬ Above (parentOf t) p id := by
  obtain ⟨other, isParent⟩ := parentOf_update h
  rw [isParent, acyclic_update_iff acyclic]
  constructor
  · intro free p isNew above
    exact free p isNew above.to_reflTransGen
  · rintro free p rfl path
    rcases reflTransGen_iff.mp path with rfl | above
    · exact other rfl
    · exact free p rfl above

/-- A request keeps the parent relation acyclic if it keeps the order. -/
theorem acyclic_step {request : Request} (acyclic : Acyclic (parentOf t))
    (keeps : KeepsOrder t request) (taken : step t request = some t') :
    Acyclic (parentOf t') := by
  cases taken
  cases isDone : handle t request with
  | error e => exact acyclic
  | ok t' =>
    change Acyclic (parentOf t')
    cases request with
    | create id parentID name position =>
      obtain ⟨⟨row, t''⟩, created, rfl⟩ := map_ok isDone
      exact (acyclic_create acyclic created).mpr keeps
    | update id parentID name position =>
      obtain ⟨⟨row, t''⟩, updated, rfl⟩ := map_ok isDone
      exact (acyclic_change acyclic updated).mpr keeps
    | delete id => exact acyclic.mono fun _ _ link => link_delete isDone link

end Parents

section Ends
variable {t : Table} {flat rows : List Row} {id own : Int64} {n m : Nat} {tally : Tally}

/-- The walk goes to the parent of a category that is there. -/
theorem climb_some : climb flat own (n + 1) (some id) tally =
    climb flat own n (((byID flat id).bind fun i => flat[i]?).bind Row.parentId)
      (tally.add id own) := by
  rw [climb]
  split
  · next none =>
    rw [none, Option.bind_none]
    cases n with
    | zero => rfl
    | succ n => rfl
  · next p found => rw [found, Option.bind_some]

theorem link_byID {p : Int64}
    (h : ((byID (listCategories t) id).bind fun i => (listCategories t)[i]?).bind Row.parentId =
      some p) : Link (parentOf t) id p := by
  obtain ⟨row, found, isParent⟩ := Option.bind_eq_some_iff.mp h
  obtain ⟨i, isIndex, isRow⟩ := Option.bind_eq_some_iff.mp found
  obtain ⟨row', isRow', isId⟩ := byID_some isIndex
  cases isRow.symm.trans isRow'
  exact link_iff.mpr ⟨row, mem_listCategories.mp (List.mem_of_getElem? isRow), isId, isParent⟩

/-- The walk from a category ends, whatever the tally. -/
theorem climb_ends (wf : WellFounded fun b a => Link (parentOf t) a b) (own : Int64)
    (cur : Option Int64) : ∃ n, ∀ m, n ≤ m → ∀ tally,
      (climb (listCategories t) own m cur tally).isSome = true := by
  cases cur with
  | none =>
    refine ⟨0, fun m _ tally => ?_⟩
    cases m with
    | zero => rfl
    | succ m => rfl
  | some id =>
    induction id using wf.induction with
    | _ id ih =>
      cases isNext : ((byID (listCategories t) id).bind fun i =>
          (listCategories t)[i]?).bind Row.parentId with
      | none =>
        refine ⟨1, fun m enough tally => ?_⟩
        obtain ⟨m, rfl⟩ : ∃ k, m = k + 1 := ⟨m - 1, by omega⟩
        rw [climb_some, isNext]
        cases m with
        | zero => rfl
        | succ m => rfl
      | some p =>
        obtain ⟨n, ended⟩ := ih p (link_byID isNext)
        refine ⟨n + 1, fun m enough tally => ?_⟩
        obtain ⟨m, rfl⟩ : ∃ k, m = k + 1 := ⟨m - 1, by omega⟩
        rw [climb_some, isNext]
        exact ended m (by omega) _

theorem fold_ends (each : ∀ c ∈ rows, ∃ n, ∀ m, n ≤ m → ∀ tally,
    (climb flat c.id m c.parentId tally).isSome = true) :
    ∃ n, ∀ m, n ≤ m → ∀ tally, (rows.foldlM (visit flat m) tally).isSome = true := by
  induction rows with
  | nil => exact ⟨0, fun _ _ _ => rfl⟩
  | cons c rows ih =>
    obtain ⟨n, walk⟩ := each c List.mem_cons_self
    obtain ⟨k, rest⟩ := ih fun c' mem => each c' (List.mem_cons_of_mem c mem)
    refine ⟨max n k, fun m enough tally => ?_⟩
    have visited : (visit flat m tally c).isSome = true := by
      rw [visit]
      split
      · rfl
      · exact walk m (by omega) tally
    obtain ⟨tally', isNext⟩ := Option.isSome_iff_exists.mp visited
    rw [List.foldlM_cons, isNext]
    exact rest m (by omega) tally'

theorem mem_childrenOf {a b : Int64} : a ∈ childrenOf t b ↔ Link (parentOf t) a b := by
  rw [link_iff, childrenOf, List.mem_map]
  constructor
  · rintro ⟨row, mem, isId⟩
    obtain ⟨inside, isParent⟩ := List.mem_filter.mp mem
    exact ⟨row, inside, isId, of_decide_eq_true isParent⟩
  · rintro ⟨row, mem, isId, isParent⟩
    exact ⟨row, List.mem_filter.mpr ⟨mem, decide_eq_true isParent⟩, isId⟩

theorem link_mem_left {a b : Int64} (h : Link (parentOf t) a b) : a ∈ t.rows.map Row.id := by
  obtain ⟨row, mem, rfl, _⟩ := link_iff.mp h
  exact List.mem_map_of_mem mem

/-- The walks and the queries end exactly in an acyclic table. -/
theorem ends_iff : Ends t ↔ Acyclic (parentOf t) := by
  constructor
  · intro ends a cycle
    obtain ⟨fuel, ended⟩ := ends.descends a
    obtain ⟨c, _, link⟩ := cycle.child
    obtain ⟨row, mem, isId⟩ := List.mem_map.mp (link_mem link)
    have start : a ∈ (t.rows.filter (·.id = a)).map Row.id :=
      List.mem_map.mpr ⟨row, List.mem_filter.mpr ⟨mem, decide_eq_true isId⟩, isId⟩
    have endless := not_recursive_ends (fun _ _ => mem_childrenOf) cycle start fuel
    rw [subtree, endless] at ended
    cases ended
  · intro acyclic
    constructor
    · intro tally
      have wf := acyclic.climbs (t.rows.map Row.id).toFinset fun a b link =>
        List.mem_toFinset.mpr (link_mem link)
      obtain ⟨fuel, ended⟩ := fold_ends fun (c : Row) (_ : c ∈ listCategories t) =>
        climb_ends wf c.id c.parentId
      exact ⟨fuel, ended fuel le_rfl tally⟩
    · intro id
      have wf := acyclic.descends (t.rows.map Row.id).toFinset fun a b link =>
        List.mem_toFinset.mpr (link_mem_left link)
      exact recursive_ends (fun _ _ => mem_childrenOf) wf _

end Ends

theorem acyclic_empty : Acyclic (parentOf Table.empty) := by
  intro a cycle
  obtain ⟨c, _, link⟩ := cycle.child
  cases link

/-- In every run whose requests keep the order the parent relation stays acyclic, and the walks
and queries end. -/
theorem acyclic_runs {trace : List Request} {t : Table}
    (h : Run step KeepsOrder Table.empty trace t) : Acyclic (parentOf t) ∧ Ends t := by
  have acyclic := h.invariant (fun t => Acyclic (parentOf t)) acyclic_empty
    fun _ _ _ acyclic keeps taken => acyclic_step acyclic keeps taken
  exact ⟨acyclic, ends_iff.mpr acyclic⟩

/-- A sufficient check of the order: categories are moved below categories without a parent. -/
def movesBelowRoots (t : Table) : Request → Bool
  | .create id parentID _ _ => decide (parentID ≠ some id)
  | .update _ parentID _ _ => parentID.all fun p => (parentOf t p).isNone
  | .delete _ => true

theorem keepsOrder_of_roots {t : Table} {request : Request}
    (h : movesBelowRoots t request = true) : KeepsOrder t request := by
  cases request with
  | create id parentID name position =>
    have below : parentID ≠ some id := of_decide_eq_true h
    exact below
  | update id parentID name position =>
    rintro root rfl
    exact not_above_root (Option.isNone_iff_eq_none.mp h)
  | delete id => trivial

/-- A category is moved below a third one. -/
theorem acyclic_runs_moved : ∃ t, parentOf t 2 = some 3 ∧ Acyclic (parentOf t) ∧ Ends t := by
  obtain ⟨t, run, moved⟩ : ∃ t, Run step KeepsOrder Table.empty
      [.create 1 none ['a'] 0, .create 2 (some 1) ['b'] 0, .create 3 none ['c'] 1,
        .update 2 (some 3) ['b'] 0] t ∧ decide (parentOf t 2 = some 3) = true :=
    exists_run (fun _ _ => keepsOrder_of_roots) (by decide +kernel)
  exact ⟨t, of_decide_eq_true moved, acyclic_runs run⟩

/-- Two categories, each below the other. -/
theorem not_acyclic_runs : ∃ trace t, Run step Always Table.empty trace t ∧
    ¬ Acyclic (parentOf t) ∧ ¬ Ends t := by
  obtain ⟨t, run, looped⟩ : ∃ t, Run step Always Table.empty
      [.create 1 none ['a'] 0, .create 2 (some 1) ['b'] 0, .update 1 (some 2) ['a'] 0] t ∧
        decide (parentOf t 1 = some 2 ∧ parentOf t 2 = some 1) = true :=
    exists_always (by decide +kernel)
  obtain ⟨up, down⟩ := of_decide_eq_true looped
  have cyclic : ¬ Acyclic (parentOf t) := fun acyclic => acyclic 1 (.head up (.single down))
  exact ⟨_, t, run, cyclic, mt ends_iff.mp cyclic⟩

end Vidsilo.Categories
