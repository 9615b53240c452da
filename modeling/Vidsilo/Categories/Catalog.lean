import Vidsilo.Categories.Ancestors
import Vidsilo.Jobs.Tables
import Vidsilo.Library.RollUp

/-!
# The category tree of the catalog

Source: internal/api/media.go:44-134 (`handleCatalogCategories`), internal/db/migrations
0001 and 0006.

Counts are rolled up in the map that is iterated over, in display order, so that a category
passes on what it has been given before. The counts are 64-bit integers and wrap.
-/
namespace Vidsilo.Categories.Catalog
open Library.SlashPath Library.Ancestry Relation
open Jobs.Tables (EntryStatus)

/-- The columns of `entries` that the query reads. -/
structure Entry where
  id : Int64
  categoryId : Option Int64
  status : EntryStatus
  accessDenied : Bool
  isPublic : Bool
  deriving DecidableEq, Repr

def Entry.isVisible (e : Entry) : Bool := e.status = .ready && ! e.accessDenied && e.isPublic

/-- The constraints of the table: `bigserial PRIMARY KEY` and the foreign key. -/
structure Entries (t : Table) where
  rows : List Entry
  ids : (rows.map Entry.id).Nodup
  drawn : ∀ e ∈ rows, 0 < e.id
  categories : ∀ e ∈ rows, ∀ k ∈ e.categoryId, k ∈ t.rows.map Row.id

variable {t : Table}

/-- The count of the query. -/
def count (entries : Entries t) (id : Int64) : Nat :=
  entries.rows.countP fun e => e.categoryId = some id && e.isVisible

/-- The maps after the scan and the loop that marks categories with entries. -/
def scan (flat : List Row) (entries : Entries t) : Tally :=
  let counts : Int64 → Int64 := flat.foldl
    (fun counts c => Function.update counts c.id (Int64.ofNat (count entries c.id))) fun _ => 0
  { counts := counts
    visible := flat.foldl
      (fun visible c => if 0 < counts c.id then Function.update visible c.id true else visible)
      fun _ => false }

inductive CatNode where
  | node (id : Int64) (name slug : Text) (count : Int64) (children : List CatNode)

def build (flat : List Row) (tally : Tally) : Nat → Option Int64 → Option (List CatNode)
  | 0, _ => none
  | fuel + 1, parent =>
    (flat.filter fun c => c.parentId = parent && tally.visible c.id).mapM fun c =>
      (build flat tally fuel (some c.id)).map (.node c.id c.name c.slug (tally.counts c.id))

def handleCatalogCategories (t : Table) (entries : Entries t) (fuel : Nat) :
    Option (List CatNode) :=
  let flat := listCategories t
  (rollUp flat fuel (scan flat entries)).bind fun tally => build flat tally fuel none

/-- A category of the response, with the category that it is below. -/
structure Item where
  parent : Option Int64
  id : Int64
  name : Text
  slug : Text
  count : Int
  deriving DecidableEq, Repr

mutual

def CatNode.items (parent : Option Int64) : CatNode → List Item
  | .node id name slug count children =>
    ⟨parent, id, name, slug, count.toInt⟩ :: itemsOf (some id) children

def itemsOf (parent : Option Int64) : List CatNode → List Item
  | [] => []
  | c :: rest => c.items parent ++ itemsOf parent rest

end

open Classical in
/-- The visible entries of a category and its descendants. -/
noncomputable def subtreeCount (entries : Entries t) (id : Int64) : Nat :=
  entries.rows.countP fun e =>
    decide (∃ k ∈ e.categoryId, ReflTransGen (Link (parentOf t)) k id) && e.isVisible

/-- The categories with a visible entry in their subtree, each once with the number of them. -/
def Right (entries : Entries t) (out : List CatNode) : Prop :=
  (itemsOf none out).Perm (((listCategories t).filter fun c => 0 < subtreeCount entries c.id).map
    fun c => ⟨c.parentId, c.id, c.name, c.slug, subtreeCount entries c.id⟩)

/-- A category that is below another is displayed before its descendants with visible entries. -/
def ParentsFirst (entries : Entries t) : Prop :=
  ∀ x ∈ t.rows, x.parentId ≠ none → ∀ d ∈ t.rows, Above (parentOf t) d.id x.id →
    0 < count entries d.id → Displayed x d

section Scan
variable {entries : Entries t} {id : Int64}

theorem length_lt (entries : Entries t) : entries.rows.length < 2 ^ 63 := by
  have positive : ∀ e ∈ entries.rows, 0 < e.id.toInt := fun e mem =>
    Int64.lt_iff_toInt_lt.mp (entries.drawn e mem)
  have nodup : (entries.rows.map fun e => e.id.toInt.toNat - 1).Nodup := by
    refine (List.nodup_map_iff_inj_on (List.Nodup.of_map _ entries.ids)).mpr ?_
    intro e mem e' mem' same
    apply List.inj_on_of_nodup_map entries.ids mem mem'
    have one := positive e mem
    have other := positive e' mem'
    exact Int64.toInt_inj.mp (by omega)
  have bounded : ∀ n ∈ entries.rows.map fun e => e.id.toInt.toNat - 1,
      n ∈ List.range (2 ^ 63 - 1) := by
    intro n mem
    obtain ⟨e, emem, rfl⟩ := List.mem_map.mp mem
    have one := positive e emem
    have least := e.id.toInt_lt
    exact List.mem_range.mpr (by omega)
  have few := (List.subperm_of_subset nodup bounded).length_le
  rw [List.length_map, List.length_range] at few
  omega

theorem count_lt (entries : Entries t) (id : Int64) : count entries id < 2 ^ 63 :=
  Nat.lt_of_le_of_lt List.countP_le_length (length_lt entries)

theorem count_missing (missing : id ∉ t.rows.map Row.id) : count entries id = 0 := by
  refine List.countP_eq_zero.mpr fun e mem counts => ?_
  simp only [Bool.and_eq_true, decide_eq_true_eq] at counts
  exact missing (entries.categories e mem id counts.1)

theorem ofNat_pos_iff {n : Nat} (h : n < 2 ^ 63) : 0 < Int64.ofNat n ↔ 0 < n := by
  rw [Int64.lt_iff_toInt_lt, Int64.toInt_ofNat_of_lt h]
  exact Int.natCast_pos

theorem ofNat_eq_zero_iff {n : Nat} (h : n < 2 ^ 63) : Int64.ofNat n = 0 ↔ n = 0 := by
  rw [← Int64.toInt_inj, Int64.toInt_ofNat_of_lt h]
  exact Int.natCast_eq_zero

theorem foldl_update {β : Type} (p : Int64 → Prop) [DecidablePred p] (value : Int64 → β)
    (rows : List Row) (f : Int64 → β) (id : Int64) :
    rows.foldl (fun f c => if p c.id then Function.update f c.id (value c.id) else f) f id =
      if id ∈ rows.map Row.id ∧ p id then value id else f id := by
  induction rows generalizing f with
  | nil => simp
  | cons c rows ih =>
    simp only [List.foldl_cons, ih, List.map_cons, List.mem_cons]
    by_cases later : id ∈ rows.map Row.id ∧ p id
    · rw [if_pos later, if_pos ⟨.inr later.1, later.2⟩]
    · rw [if_neg later]
      by_cases here : id = c.id
      · subst here
        by_cases holds : p c.id
        · rw [if_pos holds, if_pos ⟨.inl rfl, holds⟩, Function.update_self]
        · rw [if_neg holds, if_neg fun both => holds both.2]
      · have missing : ¬ ((id = c.id ∨ id ∈ rows.map Row.id) ∧ p id) := fun both =>
          later ⟨both.1.resolve_left here, both.2⟩
        rw [if_neg missing]
        split
        · exact Function.update_of_ne here _ _
        · rfl

theorem map_id_list : ∀ id, id ∈ (listCategories t).map Row.id ↔ id ∈ t.rows.map Row.id := by
  intro id
  simp only [List.mem_map, mem_listCategories]

theorem scan_counts (entries : Entries t) (id : Int64) :
    (scan (listCategories t) entries).counts id = Int64.ofNat (count entries id) := by
  have folded := foldl_update (fun _ => True) (fun id => Int64.ofNat (count entries id))
    (listCategories t) (fun _ => 0) id
  simp only [if_true, and_true] at folded
  refine folded.trans ?_
  split
  · rfl
  · next missing =>
    rw [count_missing (mt (map_id_list id).mpr missing)]
    rfl

theorem scan_visible (entries : Entries t) (id : Int64) :
    (scan (listCategories t) entries).visible id = true ↔ 0 < count entries id := by
  have folded := foldl_update (fun id => 0 < (scan (listCategories t) entries).counts id)
    (fun _ => true) (listCategories t) (fun _ => false) id
  change (scan (listCategories t) entries).visible id = _ at folded
  rw [folded]
  simp only [scan_counts, ofNat_pos_iff (count_lt entries id)]
  by_cases here : id ∈ t.rows.map Row.id
  · simp [(map_id_list id).mpr here]
  · simp [count_missing here]

end Scan

section Walks
variable {entries : Entries t} {tally tally' : Tally} {fuel : Nat} {rows : List Row} {p : Int64}

/-- The parent that the walk goes to. -/
theorem parent_byID (id : Int64) :
    ((byID (listCategories t) id).bind fun i => (listCategories t)[i]?).bind Row.parentId =
      parentOf t id := by
  apply Option.ext
  intro p
  constructor
  · exact link_byID
  · intro link
    obtain ⟨row, mem, rfl, isParent⟩ := link_iff.mp link
    obtain ⟨j, isIndex⟩ := byID_isSome (mem_listCategories.mpr mem)
    obtain ⟨row', isRow, same⟩ := byID_some isIndex
    obtain rfl := eq_of_id t.valid.toLinked (mem_listCategories.mp (List.mem_of_getElem? isRow))
      mem same
    rw [isIndex, Option.bind_some, isRow, Option.bind_some]
    exact isParent

/-- What a walk has reached. -/
def Reached (t : Table) (cur : Option Int64) (p : Int64) : Prop :=
  ∃ k ∈ cur, ReflTransGen (Link (parentOf t)) k p

open Classical in
/-- A walk adds the count of the category to every category it reaches. -/
theorem climb_spec (acyclic : Acyclic (parentOf t)) {own : Int64} {cur : Option Int64}
    (apart : ¬ Reached t cur own) (h : climb (listCategories t) own fuel cur tally = some tally')
    (p : Int64) :
    tally'.counts p = (if Reached t cur p then tally.counts p + tally.counts own else tally.counts p) ∧
      (tally'.visible p = true ↔ tally.visible p = true ∨ Reached t cur p) := by
  induction fuel generalizing cur tally with
  | zero =>
    cases cur with
    | none =>
      cases h
      simp [Reached]
    | some id => cases h
  | succ fuel ih =>
    cases cur with
    | none =>
      cases h
      simp [Reached]
    | some id =>
      rw [climb_some, parent_byID] at h
      have next : ∀ q, Reached t (some id) q ↔ q = id ∨ Reached t (parentOf t id) q := by
        intro q
        simp only [Reached, Option.mem_some_iff, exists_eq_left']
        constructor
        · intro path
          rcases ReflTransGen.cases_head path with same | ⟨k, link, rest⟩
          · exact .inl same.symm
          · exact .inr ⟨k, link, rest⟩
        · rintro (rfl | ⟨k, link, rest⟩)
          · exact .refl
          · exact .head link rest
      have once : ¬ Reached t (parentOf t id) id := by
        rintro ⟨k, link, rest⟩
        exact acyclic id (TransGen.head' link rest)
      have other : own ≠ id := fun same => apart ((next own).mpr (.inl same))
      obtain ⟨counts, visible⟩ := ih (fun reached => apart ((next own).mpr (.inr reached))) h
      simp only [Tally.add, Function.update_of_ne other] at counts
      rw [counts, visible, next p]
      by_cases here : p = id
      · subst here
        simp [once, Tally.add]
      · simp [here, Tally.add]

theorem reached_iff {c : Row} (mem : c ∈ t.rows) (p : Int64) :
    Reached t c.parentId p ↔ Above (parentOf t) c.id p := by
  have link : ∀ k, k ∈ c.parentId ↔ Link (parentOf t) c.id k := by
    intro k
    rw [link_iff]
    constructor
    · exact fun isParent => ⟨c, mem, rfl, isParent⟩
    · rintro ⟨row, rowMem, same, isParent⟩
      exact eq_of_id t.valid.toLinked rowMem mem same ▸ isParent
  simp only [Reached, link]
  exact TransGen.head'_iff.symm

open Classical in
/-- A visit adds the count to all ancestors, also when it is zero. -/
theorem visit_spec (acyclic : Acyclic (parentOf t)) {c : Row} (mem : c ∈ t.rows)
    (h : visit (listCategories t) fuel tally c = some tally') (p : Int64) :
    tally'.counts p = (if Above (parentOf t) c.id p then tally.counts p + tally.counts c.id
        else tally.counts p) ∧
      (tally'.visible p = true ↔ tally.visible p = true ∨
        (tally.counts c.id ≠ 0 ∧ Above (parentOf t) c.id p)) := by
  rw [visit] at h
  split at h
  · next zero =>
    cases h
    rw [zero]
    simp
  · next counted =>
    have apart : ¬ Reached t c.parentId c.id := fun reached =>
      acyclic c.id ((reached_iff mem c.id).mp reached)
    have spec := climb_spec acyclic apart h p
    simp only [reached_iff mem] at spec
    simpa [counted] using spec

/-- The counts after the visits, in natural numbers. -/
noncomputable def rolled (entries : Entries t) (rows : List Row) : Int64 → ℕ :=
  Library.RollUp.rollUp (parentOf t) (count entries) (rows.map Row.id)

/-- The count of a category when it is visited. -/
noncomputable def seen (entries : Entries t) (rows : List Row) : Int64 → ℕ :=
  Library.RollUp.seen (parentOf t) (count entries) (rows.map Row.id)

theorem rollUp_spec (acyclic : Acyclic (parentOf t)) (inside : ∀ c ∈ rows, c ∈ t.rows)
    (nodup : (rows.map Row.id).Nodup)
    (h : rows.foldlM (visit (listCategories t) fuel) (scan (listCategories t) entries) =
      some tally) (p : Int64) :
    tally.counts p = Int64.ofNat (rolled entries rows p) ∧
      (tally.visible p = true ↔ 0 < count entries p ∨
        ∃ c ∈ rows, Int64.ofNat (seen entries rows c.id) ≠ 0 ∧ Above (parentOf t) c.id p) := by
  induction rows using List.reverseRecOn generalizing tally p with
  | nil =>
    cases h
    rw [scan_counts, scan_visible]
    simp [rolled, Library.RollUp.rollUp]
  | append_singleton rows c ih =>
    rw [List.foldlM_append] at h
    obtain ⟨before, isBefore, h⟩ := Option.bind_eq_some_iff.mp h
    rw [List.foldlM_cons] at h
    obtain ⟨after, isAfter, h⟩ := Option.bind_eq_some_iff.mp h
    cases h
    rw [List.map_append, List.nodup_append] at nodup
    have ih := fun p => ih (fun c mem => inside c (List.mem_append_left _ mem)) nodup.1 isBefore p
    have fresh : c.id ∉ rows.map Row.id := fun mem => nodup.2.2 _ mem _ (by simp) rfl
    obtain ⟨counts, visible⟩ := visit_spec acyclic (inside c (by simp)) isAfter p
    have last : seen entries (rows ++ [c]) c.id = rolled entries rows c.id := by
      rw [seen, List.map_append]
      exact Library.RollUp.seen_last fresh
    have earlier : ∀ c' ∈ rows, seen entries (rows ++ [c]) c'.id = seen entries rows c'.id := by
      intro c' mem
      rw [seen, List.map_append]
      exact Library.RollUp.seen_append (List.mem_map_of_mem mem)
    constructor
    · rw [counts, (ih p).1, (ih c.id).1]
      simp only [rolled, List.map_append, List.map_cons, List.map_nil]
      rw [Library.RollUp.rollUp_append]
      split
      · rw [Int64.ofNat_add]
      · rw [Nat.add_zero]
    · rw [visible, (ih p).2, (ih c.id).1, ← last, or_assoc]
      refine or_congr Iff.rfl ?_
      constructor
      · rintro (⟨c', mem, counted, above⟩ | ⟨counted, above⟩)
        · exact ⟨c', by simp [mem], earlier c' mem ▸ counted, above⟩
        · exact ⟨c, by simp, counted, above⟩
      · rintro ⟨c', mem, counted, above⟩
        rcases List.mem_append.mp mem with mem | mem
        · exact .inl ⟨c', mem, earlier c' mem ▸ counted, above⟩
        · obtain rfl := List.mem_singleton.mp mem
          exact .inr ⟨counted, above⟩

end Walks

section Sums
variable {entries : Entries t} {tally : Tally} {fuel : Nat} {p : Int64}

/-- The ids in display order. -/
def displayed (t : Table) : List Int64 := (listCategories t).map Row.id

theorem nodup_displayed (t : Table) : (displayed t).Nodup := (linked_listCategories t).ids

theorem mem_displayed : p ∈ displayed t ↔ ∃ row ∈ t.rows, row.id = p := by
  simp [displayed, mem_listCategories]

open Classical in
theorem sum_countP (rows : List Entry) (s : Finset Int64) :
    ∑ d ∈ s, rows.countP (fun e => e.categoryId = some d && e.isVisible) =
      rows.countP fun e => decide (∃ k ∈ e.categoryId, k ∈ s) && e.isVisible := by
  induction rows with
  | nil => simp
  | cons e rows ih =>
    simp only [List.countP_cons, Finset.sum_add_distrib, ih]
    congr 1
    cases e.isVisible with
    | false => simp
    | true =>
      cases e.categoryId with
      | none => simp
      | some k => simp [Finset.sum_ite_eq]

open Library.RollUp (below mem_below) in
/-- The sum over the subtree counts every visible entry in it once. -/
theorem total_eq (acyclic : Acyclic (parentOf t)) (p : Int64) :
    Library.RollUp.total (parentOf t) (count entries) (displayed t) p = subtreeCount entries p := by
  have apart : p ∉ below (parentOf t) (displayed t) p := fun own =>
    acyclic p (mem_below.mp own).2
  rw [Library.RollUp.total, ← Finset.sum_insert apart]
  simp only [count]
  rw [sum_countP, subtreeCount]
  refine List.countP_congr fun e emem => ?_
  simp only [Bool.and_eq_true, decide_eq_true_eq, Finset.mem_insert]
  refine and_congr_left fun _ => exists_congr fun k => and_congr_right fun isCategory => ?_
  obtain ⟨row, rowMem, isId⟩ := List.mem_map.mp (entries.categories e emem k isCategory)
  rw [mem_below, reflTransGen_iff]
  exact or_congr eq_comm (and_iff_right (mem_displayed.mpr ⟨row, rowMem, isId⟩))

theorem subtreeCount_lt (entries : Entries t) (p : Int64) : subtreeCount entries p < 2 ^ 63 :=
  Nat.lt_of_le_of_lt List.countP_le_length (length_lt entries)

theorem idxOf_displayed {row : Row} (mem : row ∈ t.rows) :
    (displayed t).idxOf row.id = (listCategories t).idxOf row := by
  obtain ⟨i, hi, rfl⟩ := List.mem_iff_getElem.mp (mem_listCategories.mpr mem)
  rw [idxOf_eq (linked_listCategories t) (List.getElem?_eq_getElem hi)]
  have here := (nodup_displayed t).idxOf_getElem i (by simpa [displayed] using hi)
  simpa [displayed] using here

theorem topFirst_iff (acyclic : Acyclic (parentOf t)) :
    Library.RollUp.TopFirst (parentOf t) (count entries) (displayed t) ↔ ParentsFirst entries := by
  constructor
  · intro first x mem nested d dmem under counts
    obtain ⟨p, isParent⟩ := Option.ne_none_iff_exists'.mp nested
    have before := first p x.id (mem_displayed.mpr ⟨x, mem, rfl⟩)
      (link_iff.mpr ⟨x, mem, rfl, isParent⟩) d.id (mem_displayed.mpr ⟨d, dmem, rfl⟩) under
      (Nat.ne_of_gt counts)
    rw [idxOf_displayed mem, idxOf_displayed dmem] at before
    exact ((idxOf_listCategories mem dmem).mp before).1
  · intro first p x _ link d dmem under counts
    obtain ⟨x, mem, rfl, isParent⟩ := link_iff.mp link
    obtain ⟨d, isRow, rfl⟩ := mem_displayed.mp dmem
    rw [idxOf_displayed mem, idxOf_displayed isRow, idxOf_listCategories mem isRow]
    refine ⟨first x mem (by simp [isParent]) d isRow under (Nat.pos_of_ne_zero counts), ?_⟩
    rintro rfl
    exact acyclic _ under

/-- The tally that a response is built from. -/
theorem tally_spec (acyclic : Acyclic (parentOf t))
    (h : rollUp (listCategories t) fuel (scan (listCategories t) entries) = some tally)
    (p : Int64) :
    tally.counts p = Int64.ofNat (rolled entries (listCategories t) p) ∧
      (tally.visible p = true ↔ 0 < count entries p ∨ ∃ c ∈ listCategories t,
        Int64.ofNat (seen entries (listCategories t) c.id) ≠ 0 ∧ Above (parentOf t) c.id p) :=
  rollUp_spec acyclic (fun _ mem => mem_listCategories.mp mem) (nodup_displayed t) h p

end Sums

section Tree
variable {tally : Tally} {fuel : Nat} {q : Option Int64} {out : List CatNode} {c : Row}

/-- The category is at or below a child of the node. -/
def Under (t : Table) (q : Option Int64) (c : Row) : Prop :=
  ∃ y ∈ t.rows, y.parentId = q ∧ ReflTransGen (Link (parentOf t)) c.id y.id

/-- The children of a node that are in the response. -/
def shown (t : Table) (tally : Tally) (q : Option Int64) : List Row :=
  (listCategories t).filter fun c => c.parentId = q && tally.visible c.id

def itemOf (tally : Tally) (q : Option Int64) (c : Row) : Item :=
  ⟨q, c.id, c.name, c.slug, (tally.counts c.id).toInt⟩

theorem mem_shown : c ∈ shown t tally q ↔
    c ∈ t.rows ∧ c.parentId = q ∧ tally.visible c.id = true := by
  simp [shown, mem_listCategories]

/-- The nodes below a category in the response. -/
def childrenNodes (t : Table) (tally : Tally) (fuel : Nat) (c : Row) : List CatNode :=
  (build (listCategories t) tally fuel (some c.id)).getD []

theorem mapM_some {α β γ : Type} {g : α → Option β} {f : α → β → γ} (d : β) {xs : List α}
    {ys : List γ} (h : xs.mapM (fun x => (g x).map (f x)) = some ys) :
    (∀ x ∈ xs, g x = some ((g x).getD d)) ∧ ys = xs.map fun x => f x ((g x).getD d) := by
  induction xs generalizing ys with
  | nil =>
    cases h
    exact ⟨nofun, rfl⟩
  | cons x xs ih =>
    rw [List.mapM_cons] at h
    obtain ⟨y, first, h⟩ := Option.bind_eq_some_iff.mp h
    obtain ⟨rest, isRest, h⟩ := Option.bind_eq_some_iff.mp h
    cases h
    obtain ⟨b, isB, rfl⟩ := Option.map_eq_some_iff.mp first
    obtain ⟨each, rfl⟩ := ih isRest
    simp only [List.forall_mem_cons, List.map_cons, isB, Option.getD_some]
    exact ⟨⟨trivial, each⟩, trivial⟩

/-- The response below a node, child by child. -/
theorem build_succ (h : build (listCategories t) tally (fuel + 1) q = some out) :
    (∀ c ∈ shown t tally q, build (listCategories t) tally fuel (some c.id) =
        some (childrenNodes t tally fuel c)) ∧
      itemsOf q out = (shown t tally q).flatMap fun c =>
        itemOf tally q c :: itemsOf (some c.id) (childrenNodes t tally fuel c) := by
  obtain ⟨each, rfl⟩ := mapM_some [] h
  refine ⟨each, ?_⟩
  change itemsOf q ((shown t tally q).map _) = _
  induction shown t tally q with
  | nil => rfl
  | cons c rest ih =>
    rw [List.map_cons, itemsOf, ih, List.flatMap_cons, CatNode.items]
    rfl

theorem link_row {y : Row} (mem : y ∈ t.rows) {p : Int64} (isParent : y.parentId = some p) :
    Link (parentOf t) y.id p := link_iff.mpr ⟨y, mem, rfl, isParent⟩

/-- Everything in the response is a visible category, with its count. -/
theorem mem_build (h : build (listCategories t) tally fuel q = some out) {item : Item}
    (mem : item ∈ itemsOf q out) : ∃ c ∈ t.rows, tally.visible c.id = true ∧ Under t q c ∧
      item = itemOf tally c.parentId c := by
  induction fuel generalizing q out item with
  | zero => cases h
  | succ fuel ih =>
    obtain ⟨each, items⟩ := build_succ h
    rw [items, List.mem_flatMap] at mem
    obtain ⟨y, isShown, mem⟩ := mem
    obtain ⟨inside, isParent, visible⟩ := mem_shown.mp isShown
    rcases List.mem_cons.mp mem with rfl | mem
    · exact ⟨y, inside, visible, ⟨y, inside, isParent, .refl⟩, by rw [isParent]⟩
    · obtain ⟨c, cmem, cvisible, ⟨z, zmem, isChild, path⟩, rfl⟩ := ih (each y isShown) mem
      exact ⟨c, cmem, cvisible, ⟨y, inside, isParent, path.tail (link_row zmem isChild)⟩, rfl⟩

/-- Visible categories whose ancestors are visible are in the response. -/
theorem build_mem (upward : ∀ a b, Link (parentOf t) a b → tally.visible a = true →
      tally.visible b = true)
    (h : build (listCategories t) tally fuel q = some out) (cmem : c ∈ t.rows)
    (visible : tally.visible c.id = true) (under : Under t q c) :
    itemOf tally c.parentId c ∈ itemsOf q out := by
  induction fuel generalizing q out with
  | zero => cases h
  | succ fuel ih =>
    obtain ⟨each, items⟩ := build_succ h
    obtain ⟨y, ymem, isParent, path⟩ := under
    have yvisible : tally.visible y.id = true :=
      ReflTransGen.head_induction_on path id (fun link _ rest before => rest (upward _ _ link before))
        visible
    have isShown : y ∈ shown t tally q := mem_shown.mpr ⟨ymem, isParent, yvisible⟩
    rw [items, List.mem_flatMap]
    refine ⟨y, isShown, ?_⟩
    rcases reflTransGen_iff.mp path with same | above
    · obtain rfl := eq_of_id t.valid.toLinked ymem cmem same
      rw [isParent]
      exact List.mem_cons_self
    · obtain ⟨z, rest, link⟩ := above.child
      obtain ⟨zrow, zmem, rfl, isChild⟩ := link_iff.mp link
      exact List.mem_cons_of_mem _ (ih (each y isShown) ⟨zrow, zmem, isChild, rest⟩)

/-- A category is under one child of a node only. -/
theorem under_unique (acyclic : Acyclic (parentOf t)) {x y : Row} (xmem : x ∈ t.rows)
    (ymem : y ∈ t.rows) (isParent : x.parentId = y.parentId) {a : Int64}
    (ax : ReflTransGen (Link (parentOf t)) a x.id) (ay : ReflTransGen (Link (parentOf t)) a y.id) :
    x = y := by
  apply eq_of_id t.valid.toLinked xmem ymem
  cases hq : x.parentId with
  | some p => exact acyclic.child_unique (link_row xmem hq) (link_row ymem (isParent ▸ hq)) ax ay
  | none =>
    have functional : Relator.RightUnique (Link (parentOf t)) := fun _ _ _ first second =>
      Option.some.inj (first.symm.trans second)
    have root : ∀ {z : Row}, z ∈ t.rows → z.parentId = none → ∀ {b},
        ReflTransGen (Link (parentOf t)) z.id b → z.id = b := by
      intro z zmem top b path
      rcases ReflTransGen.cases_head path with same | ⟨k, link, _⟩
      · exact same
      · obtain ⟨row, mem, same, isChild⟩ := link_iff.mp link
        rw [eq_of_id t.valid.toLinked mem zmem same, top] at isChild
        cases isChild
    rcases ReflTransGen.total_of_right_unique functional ax ay with path | path
    · exact root xmem hq path
    · exact (root ymem (isParent ▸ hq) path).symm

theorem nodup_build (acyclic : Acyclic (parentOf t))
    (h : build (listCategories t) tally fuel q = some out) : (itemsOf q out).Nodup := by
  induction fuel generalizing q out with
  | zero => cases h
  | succ fuel ih =>
    obtain ⟨each, items⟩ := build_succ h
    have below : ∀ y ∈ shown t tally q, ∀ item ∈ itemOf tally q y ::
        itemsOf (some y.id) (childrenNodes t tally fuel y),
        ReflTransGen (Link (parentOf t)) item.id y.id := by
      intro y isShown item mem
      rcases List.mem_cons.mp mem with rfl | mem
      · exact .refl
      · obtain ⟨c, _, _, ⟨z, zmem, isChild, path⟩, rfl⟩ := mem_build (each y isShown) mem
        exact path.tail (link_row zmem isChild)
    rw [items, List.nodup_flatMap]
    constructor
    · intro y isShown
      refine List.nodup_cons.mpr ⟨fun mem => ?_, ih (each y isShown)⟩
      obtain ⟨c, _, _, ⟨z, zmem, isChild, path⟩, same⟩ := mem_build (each y isShown) mem
      have own : y.id = c.id := congrArg Item.id same
      exact acyclic y.id (TransGen.tail' (own ▸ path) (link_row zmem isChild))
    · refine List.Nodup.pairwise_of_forall_ne ((nodup (linked_listCategories t)).filter _) ?_
      intro x isX y isY differ
      refine List.disjoint_left.mpr fun item memX memY => differ ?_
      obtain ⟨xmem, xparent, _⟩ := mem_shown.mp isX
      obtain ⟨ymem, yparent, _⟩ := mem_shown.mp isY
      exact under_unique acyclic xmem ymem (xparent.trans yparent.symm) (below x isX item memX)
        (below y isY item memY)

end Tree

section Ends
variable {tally : Tally} {q : Option Int64}

theorem exists_bound {α : Type} {P : α → Nat → Prop} {xs : List α}
    (each : ∀ x ∈ xs, ∃ n, ∀ m, n ≤ m → P x m) : ∃ n, ∀ m, n ≤ m → ∀ x ∈ xs, P x m := by
  induction xs with
  | nil => exact ⟨0, nofun⟩
  | cons x xs ih =>
    obtain ⟨n, first⟩ := each x List.mem_cons_self
    obtain ⟨k, rest⟩ := ih fun y mem => each y (List.mem_cons_of_mem x mem)
    refine ⟨max n k, fun m enough => List.forall_mem_cons.mpr ⟨first m (by omega), ?_⟩⟩
    exact rest m (by omega)

theorem isSome_mapM {α β : Type} {f : α → Option β} {xs : List α}
    (each : ∀ x ∈ xs, (f x).isSome = true) : (xs.mapM f).isSome = true := by
  induction xs with
  | nil => rfl
  | cons x xs ih =>
    obtain ⟨y, first⟩ := Option.isSome_iff_exists.mp (each x List.mem_cons_self)
    obtain ⟨ys, rest⟩ := Option.isSome_iff_exists.mp
      (ih fun y mem => each y (List.mem_cons_of_mem x mem))
    rw [List.mapM_cons, first, rest]
    rfl

/-- The response below a node is built when those below its children are. -/
theorem build_ends_of (each : ∀ c ∈ t.rows.filter (·.parentId = q), ∃ n, ∀ m, n ≤ m → ∀ tally,
    (build (listCategories t) tally m (some c.id)).isSome = true) :
    ∃ n, ∀ m, n ≤ m → ∀ tally, (build (listCategories t) tally m q).isSome = true := by
  obtain ⟨n, enough⟩ := exists_bound each
  refine ⟨n + 1, fun m more tally => ?_⟩
  obtain ⟨m, rfl⟩ : ∃ k, m = k + 1 := ⟨m - 1, by omega⟩
  refine isSome_mapM fun c mem => ?_
  obtain ⟨inside, isParent, _⟩ := mem_shown.mp mem
  rw [Option.isSome_map]
  exact enough m (by omega) c (List.mem_filter.mpr ⟨inside, decide_eq_true isParent⟩) tally

theorem build_ends (acyclic : Acyclic (parentOf t)) : ∃ n, ∀ m, n ≤ m → ∀ tally,
    (build (listCategories t) tally m none).isSome = true := by
  have wf := acyclic.descends (t.rows.map Row.id).toFinset fun a b link =>
    List.mem_toFinset.mpr (link_mem_left link)
  have each : ∀ p, ∃ n, ∀ m, n ≤ m → ∀ tally,
      (build (listCategories t) tally m (some p)).isSome = true := by
    intro p
    induction p using wf.induction with
    | _ p ih =>
      refine build_ends_of fun c mem => ih c.id ?_
      obtain ⟨inside, isParent⟩ := List.mem_filter.mp mem
      exact link_row inside (of_decide_eq_true isParent)
  exact build_ends_of fun c _ => each c.id

theorem handler_ends (acyclic : Acyclic (parentOf t)) (entries : Entries t) :
    ∃ fuel, (handleCatalogCategories t entries fuel).isSome = true := by
  have wf := acyclic.climbs (t.rows.map Row.id).toFinset fun a b link =>
    List.mem_toFinset.mpr (link_mem link)
  obtain ⟨n, rolls⟩ := fold_ends fun (c : Row) (_ : c ∈ listCategories t) =>
    climb_ends wf c.id c.parentId
  obtain ⟨k, builds⟩ := build_ends acyclic
  obtain ⟨tally, isTally⟩ := Option.isSome_iff_exists.mp
    (rolls (max n k) (by omega) (scan (listCategories t) entries))
  refine ⟨max n k, ?_⟩
  simp only [handleCatalogCategories, rollUp, isTally, Option.bind_some]
  exact builds (max n k) (by omega) tally

end Ends

section Result
variable {entries : Entries t} {fuel : Nat} {out : List CatNode} {tally : Tally} {p : Int64}

theorem rolled_eq (acyclic : Acyclic (parentOf t)) (first : ParentsFirst entries) (p : Int64) :
    rolled entries (listCategories t) p = subtreeCount entries p := by
  rw [← total_eq acyclic]
  exact Library.RollUp.rollUp_of_topFirst (nodup_displayed t) ((topFirst_iff acyclic).mpr first)

theorem seen_eq (acyclic : Acyclic (parentOf t)) (first : ParentsFirst entries) {c : Row}
    (mem : c ∈ t.rows) (above : Above (parentOf t) c.id p) :
    seen entries (listCategories t) c.id = count entries c.id := by
  obtain ⟨q, link, _⟩ := TransGen.head'_iff.mp above
  exact Library.RollUp.seen_eq_own
    ((topFirst_iff acyclic).mpr first q c.id (mem_displayed.mpr ⟨c, mem, rfl⟩) link)

theorem subtreeCount_pos_iff (acyclic : Acyclic (parentOf t)) : 0 < subtreeCount entries p ↔
    0 < count entries p ∨ ∃ c ∈ t.rows, count entries c.id ≠ 0 ∧ Above (parentOf t) c.id p := by
  rw [← total_eq acyclic, Library.RollUp.total, Nat.add_pos_iff_pos_or_pos]
  refine or_congr Iff.rfl ?_
  simp only [Nat.pos_iff_ne_zero, ne_eq, Finset.sum_eq_zero_iff, not_forall, exists_prop]
  constructor
  · rintro ⟨d, mem, counts⟩
    obtain ⟨inside, under⟩ := Library.RollUp.mem_below.mp mem
    obtain ⟨c, cmem, rfl⟩ := mem_displayed.mp inside
    exact ⟨c, cmem, counts, under⟩
  · rintro ⟨c, cmem, counts, under⟩
    exact ⟨c.id, Library.RollUp.mem_below.mpr ⟨mem_displayed.mpr ⟨c, cmem, rfl⟩, under⟩, counts⟩

theorem visible_iff (acyclic : Acyclic (parentOf t)) (first : ParentsFirst entries)
    (h : rollUp (listCategories t) fuel (scan (listCategories t) entries) = some tally) :
    tally.visible p = true ↔ 0 < subtreeCount entries p := by
  rw [(tally_spec acyclic h p).2, subtreeCount_pos_iff acyclic]
  refine or_congr Iff.rfl (exists_congr fun c => ?_)
  rw [mem_listCategories]
  refine and_congr_right fun mem => and_congr_left fun above => not_congr ?_
  rw [seen_eq acyclic first mem above, ofNat_eq_zero_iff (count_lt entries c.id)]

theorem subtreeCount_mono {a b : Int64} (link : Link (parentOf t) a b) :
    subtreeCount entries a ≤ subtreeCount entries b := by
  refine List.countP_mono_left fun e _ h => ?_
  simp only [Bool.and_eq_true, decide_eq_true_eq] at h ⊢
  obtain ⟨⟨k, isCategory, path⟩, visible⟩ := h
  exact ⟨⟨k, isCategory, path.tail link⟩, visible⟩

/-- Every category is below one without a parent, or is one. -/
theorem under_root (acyclic : Acyclic (parentOf t)) {c : Row} (mem : c ∈ t.rows) :
    Under t none c := by
  have wf := acyclic.climbs (t.rows.map Row.id).toFinset fun a b link =>
    List.mem_toFinset.mpr (link_mem link)
  induction hid : c.id using wf.induction generalizing c with
  | _ id ih =>
    cases hp : c.parentId with
    | none => exact ⟨c, mem, hp, .refl⟩
    | some p =>
      have link := link_row mem hp
      obtain ⟨parent, pmem, rfl⟩ := List.mem_map.mp (t.valid.parents c mem p hp)
      obtain ⟨y, ymem, top, path⟩ := ih parent.id (hid ▸ link) pmem rfl
      exact ⟨y, ymem, top, .head link path⟩

theorem right_of_parentsFirst (acyclic : Acyclic (parentOf t)) (first : ParentsFirst entries)
    (h : handleCatalogCategories t entries fuel = some out) : Right entries out := by
  obtain ⟨tally, isTally, built⟩ := Option.bind_eq_some_iff.mp h
  have item : ∀ c, itemOf tally c.parentId c =
      ⟨c.parentId, c.id, c.name, c.slug, subtreeCount entries c.id⟩ := by
    intro c
    rw [itemOf, (tally_spec acyclic isTally c.id).1, rolled_eq acyclic first,
      Int64.toInt_ofNat_of_lt (subtreeCount_lt entries c.id)]
  have distinct : (((listCategories t).filter fun c => 0 < subtreeCount entries c.id).map
      fun c => (⟨c.parentId, c.id, c.name, c.slug, subtreeCount entries c.id⟩ : Item)).Nodup := by
    apply List.Nodup.of_map Item.id
    rw [List.map_map]
    exact (nodup_displayed t).sublist (List.filter_sublist.map _)
  rw [Right, List.perm_ext_iff_of_nodup (nodup_build acyclic built) distinct]
  intro i
  rw [List.mem_map]
  constructor
  · intro mem
    obtain ⟨c, cmem, visible, _, rfl⟩ := mem_build built mem
    refine ⟨c, List.mem_filter.mpr ⟨mem_listCategories.mpr cmem, ?_⟩, (item c).symm⟩
    exact decide_eq_true ((visible_iff acyclic first isTally).mp visible)
  · rintro ⟨c, mem, rfl⟩
    obtain ⟨cmem, counted⟩ := List.mem_filter.mp mem
    rw [← item c]
    refine build_mem ?_ built (mem_listCategories.mp cmem)
      ((visible_iff acyclic first isTally).mpr (of_decide_eq_true counted))
      (under_root acyclic (mem_listCategories.mp cmem))
    intro a b link visible
    rw [visible_iff acyclic first isTally] at visible ⊢
    exact visible.trans_le (subtreeCount_mono link)

theorem toInt_ofNat_ne {n k : Nat} (more : n < k) (double : k ≤ 2 * n) (small : n < 2 ^ 63) :
    (Int64.ofNat k).toInt ≠ n := by
  intro same
  rw [Int64.toInt_ofNat'] at same
  have wrapped : (n : Int) % Int64.size = k % Int64.size := by
    rw [← same]
    exact Int.bmod_emod
  simp only [Int64.size] at wrapped
  omega

theorem parentsFirst_of_right (acyclic : Acyclic (parentOf t))
    (h : handleCatalogCategories t entries fuel = some out) (right : Right entries out) :
    ParentsFirst entries := by
  obtain ⟨tally, isTally, built⟩ := Option.bind_eq_some_iff.mp h
  have wf := acyclic.descends (t.rows.map Row.id).toFinset fun a b link =>
    List.mem_toFinset.mpr (link_mem_left link)
  by_contra later
  obtain ⟨p, x, _, link, more, double⟩ := Library.RollUp.exists_excess acyclic wf
    (nodup_displayed t) (mt (topFirst_iff acyclic).mp later)
  rw [total_eq acyclic] at more double
  obtain ⟨row, mem, rfl⟩ := List.mem_map.mp (link_mem link)
  -- the category is in the response, with the count that is too large
  have expected : (⟨row.parentId, row.id, row.name, row.slug, subtreeCount entries row.id⟩ : Item) ∈
      itemsOf none out := by
    refine right.mem_iff.mpr (List.mem_map.mpr ⟨row, List.mem_filter.mpr ⟨?_, ?_⟩, rfl⟩)
    · exact mem_listCategories.mpr mem
    · exact decide_eq_true (by omega)
  obtain ⟨c, _, _, _, same⟩ := mem_build built expected
  obtain ⟨_, sameId, _, _, sameCount⟩ := Item.mk.inj same
  rw [← sameId, (tally_spec acyclic isTally row.id).1] at sameCount
  exact toInt_ofNat_ne more double (subtreeCount_lt entries row.id) sameCount.symm

/-- The handler returns, and what it returns is right exactly when every category that is
below another is displayed before its descendants with visible entries. -/
theorem catalog_right_iff (acyclic : Acyclic (parentOf t)) (entries : Entries t) :
    (∃ fuel, (handleCatalogCategories t entries fuel).isSome = true) ∧
      ∀ fuel out, handleCatalogCategories t entries fuel = some out →
        (Right entries out ↔ ParentsFirst entries) :=
  ⟨handler_ends acyclic entries, fun _ _ h =>
    ⟨parentsFirst_of_right acyclic h, fun first => right_of_parentsFirst acyclic first h⟩⟩

theorem acyclic_of_lt
    (lower : ∀ row ∈ t.rows, row.parentId.all fun p => decide (p.toInt < row.id.toInt)) :
    Acyclic (parentOf t) := by
  have below : ∀ row ∈ t.rows, ∀ p ∈ row.parentId, p.toInt < row.id.toInt := by
    intro row mem p isParent
    have := lower row mem
    rw [Option.mem_def.mp isParent] at this
    exact of_decide_eq_true this
  have smaller : ∀ a b, Above (parentOf t) a b → b.toInt < a.toInt := by
    intro a b above
    induction above with
    | single link =>
      obtain ⟨row, mem, rfl, isParent⟩ := link_iff.mp link
      exact below row mem _ isParent
    | tail _ link ih =>
      obtain ⟨row, mem, rfl, isParent⟩ := link_iff.mp link
      exact (below row mem _ isParent).trans ih
  exact fun a cycle => lt_irrefl _ (smaller a a cycle)

/-- Category 3 is below 2 and 2 below 1, at these positions. -/
def chain (second third : Int64) : List Row :=
  [⟨1, none, ['a'], ['a'], 0⟩, ⟨2, some 1, ['b'], ['b'], second⟩, ⟨3, some 2, ['c'], ['c'], third⟩]

def inOrder : Table := ⟨chain 1 2, by decide +kernel⟩
def outOfOrder : Table := ⟨chain 2 1, by decide +kernel⟩

/-- One public entry in category 3. -/
def oneEntry (t : Table) (mem : (3 : Int64) ∈ t.rows.map Row.id) : Entries t where
  rows := [⟨1, some 3, .ready, false, true⟩]
  ids := by decide
  drawn := by decide
  categories := by simpa using mem

/-- The counts of a chain that is displayed from the top. -/
theorem catalog_right_in_order : ∃ fuel out,
    handleCatalogCategories inOrder (oneEntry inOrder (by decide +kernel)) fuel = some out ∧
      Right (oneEntry inOrder (by decide +kernel)) out := by
  have acyclic : Acyclic (parentOf inOrder) := acyclic_of_lt (by decide +kernel)
  obtain ⟨⟨fuel, returned⟩, right⟩ :=
    catalog_right_iff acyclic (oneEntry inOrder (by decide +kernel))
  obtain ⟨out, isOut⟩ := Option.isSome_iff_exists.mp returned
  refine ⟨fuel, out, isOut, (right fuel out isOut).mpr fun x mem nested d dmem _ counts => ?_⟩
  have first : ∀ x ∈ inOrder.rows, x.parentId ≠ none → ∀ d ∈ inOrder.rows,
      0 < count (oneEntry inOrder (by decide +kernel)) d.id → Displayed x d := by decide +kernel
  exact first x mem nested d dmem counts

/-- With the third category displayed before the second, its entry is counted twice in the
first. -/
theorem entry_counted_twice : ∃ t, ∃ entries : Entries t, ∃ fuel out, Acyclic (parentOf t) ∧
    entries.rows.length = 1 ∧ handleCatalogCategories t entries fuel = some out ∧
    (itemsOf none out).map (fun i => (i.id, i.count)) = [(1, 2), (2, 1), (3, 1)] ∧
    ¬ Right entries out := by
  have response : ((handleCatalogCategories outOfOrder
      (oneEntry outOfOrder (by decide +kernel)) 4).map fun out =>
        (itemsOf none out).map fun i => (i.id, i.count)) = some [(1, 2), (2, 1), (3, 1)] := by
    decide +kernel
  obtain ⟨out, isOut, items⟩ := Option.map_eq_some_iff.mp response
  refine ⟨_, _, 4, out, acyclic_of_lt (by decide +kernel), rfl, isOut, items, fun right => ?_⟩
  -- no subtree has two entries
  have two : ((1 : Int64), (2 : Int)) ∈ (itemsOf none out).map fun i => (i.id, i.count) := by
    rw [items]
    exact List.mem_cons_self
  obtain ⟨i, mem, isItem⟩ := List.mem_map.mp two
  obtain ⟨c, _, rfl⟩ := List.mem_map.mp (right.mem_iff.mp mem)
  have most : subtreeCount (oneEntry outOfOrder (by decide +kernel)) c.id ≤ 1 :=
    List.countP_le_length
  have double := (Prod.mk.inj isItem).2
  simp only at double
  omega

end Result

end Vidsilo.Categories.Catalog
