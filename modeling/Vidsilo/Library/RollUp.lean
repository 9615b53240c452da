import Mathlib.Algebra.BigOperators.Group.Finset.Piecewise
import Mathlib.Algebra.Order.BigOperators.Group.Finset
import Mathlib.Data.Finset.Dedup
import Vidsilo.Library.Ancestry

/-!
# Counts rolled up a forest in place

The nodes of a forest are visited in some order, and the count that a node has at that
moment is added to all its ancestors. When every node is visited before those of its
descendants that count, the result is the sum over each subtree. In any other order some
node ends above that sum, and not above twice the sum. Nothing here depends on the
repository.
-/
namespace Vidsilo.Library.RollUp
open Ancestry Relation

section Visits
variable {α : Type*} (parent : α → Option α)

open Classical in
/-- The visit of a node. -/
noncomputable def add (counts : α → ℕ) (c : α) : α → ℕ :=
  fun p => if Above parent c p then counts p + counts c else counts p

noncomputable def rollUp (own : α → ℕ) (order : List α) : α → ℕ := order.foldl (add parent) own

variable {parent} {own : α → ℕ} {order later : List α} {c d p : α}

open Classical in
theorem rollUp_append : rollUp parent own (order ++ [c]) p =
    rollUp parent own order p + if Above parent c p then rollUp parent own order c else 0 := by
  simp only [rollUp, List.foldl_append, List.foldl_cons, List.foldl_nil, add]
  split <;> rfl

theorem rollUp_le_append : rollUp parent own order p ≤ rollUp parent own (order ++ later) p := by
  induction later using List.reverseRecOn with
  | nil => rw [List.append_nil]
  | append_singleton later c ih =>
    rw [← List.append_assoc, rollUp_append]
    exact ih.trans (Nat.le_add_right _ _)

theorem own_le_rollUp : own p ≤ rollUp parent own order p := by
  have grown : rollUp parent own [] p ≤ rollUp parent own ([] ++ order) p := rollUp_le_append
  exact grown

/-- When no visited node below counts, nothing below has changed. -/
theorem rollUp_clean (clean : ∀ c ∈ order, Above parent c p → own c = 0)
    (below : ReflTransGen (Link parent) d p) : rollUp parent own order d = own d := by
  induction order using List.reverseRecOn generalizing d with
  | nil => rfl
  | append_singleton order c ih =>
    have before : ∀ c ∈ order, Above parent c p → own c = 0 := fun x mem =>
      clean x (List.mem_append_left _ mem)
    rw [rollUp_append, ih before below]
    split
    · next above =>
      have under : Above parent c p := TransGen.trans_left above below
      rw [ih before under.to_reflTransGen, clean c (by simp) under, Nat.add_zero]
    · rw [Nat.add_zero]

end Visits

section Sums
variable {α : Type*} [DecidableEq α] (parent : α → Option α)

open Classical in
/-- The nodes below a node. -/
noncomputable def below (order : List α) (p : α) : Finset α :=
  order.toFinset.filter fun d => Above parent d p

/-- The sum over the subtree. -/
noncomputable def total (own : α → ℕ) (order : List α) (p : α) : ℕ :=
  own p + ∑ d ∈ below parent order p, own d

/-- The count of a node when it is visited. -/
noncomputable def seen (own : α → ℕ) (order : List α) (d : α) : ℕ :=
  rollUp parent own (order.take (order.idxOf d)) d

variable {parent} {own : α → ℕ} {order : List α} {c d e p x y : α}

theorem mem_below : d ∈ below parent order p ↔ d ∈ order ∧ Above parent d p := by
  simp [below]

theorem own_le_seen : own d ≤ seen parent own order d := own_le_rollUp

theorem seen_le_rollUp : seen parent own order d ≤ rollUp parent own order d := by
  have grown : rollUp parent own (order.take (order.idxOf d)) d ≤
      rollUp parent own (order.take (order.idxOf d) ++ order.drop (order.idxOf d)) d :=
    rollUp_le_append
  rwa [List.take_append_drop] at grown

open Classical in
theorem below_append : below parent (order ++ [c]) p =
    if Above parent c p then insert c (below parent order p) else below parent order p := by
  ext d
  simp only [mem_below, List.mem_append, List.mem_singleton]
  split
  · next above =>
    rw [Finset.mem_insert, mem_below]
    constructor
    · rintro ⟨old | rfl, under⟩
      · exact .inr ⟨old, under⟩
      · exact .inl rfl
    · rintro (rfl | ⟨old, under⟩)
      · exact ⟨.inr rfl, above⟩
      · exact ⟨.inl old, under⟩
  · next aside =>
    rw [mem_below]
    constructor
    · rintro ⟨old | rfl, under⟩
      · exact ⟨old, under⟩
      · exact absurd under aside
    · rintro ⟨old, under⟩
      exact ⟨.inl old, under⟩

theorem seen_append (mem : d ∈ order) :
    seen parent own (order ++ [c]) d = seen parent own order d := by
  rw [seen, seen, List.idxOf_append_of_mem mem,
    List.take_append_of_le_length (List.idxOf_lt_length_of_mem mem).le]

theorem seen_last (fresh : c ∉ order) :
    seen parent own (order ++ [c]) c = rollUp parent own order c := by
  rw [seen, List.idxOf_append_of_notMem fresh, List.idxOf_cons_self, Nat.add_zero,
    List.take_left]

/-- The result in terms of what is added. -/
theorem rollUp_eq_sum (nodup : order.Nodup) : rollUp parent own order p =
    own p + ∑ d ∈ below parent order p, seen parent own order d := by
  induction order using List.reverseRecOn with
  | nil => simp [rollUp, below]
  | append_singleton order c ih =>
    have fresh : c ∉ order := fun mem =>
      (List.nodup_append.mp nodup).2.2 c mem c (List.mem_singleton_self c) rfl
    have same : ∑ d ∈ below parent order p, seen parent own (order ++ [c]) d =
        ∑ d ∈ below parent order p, seen parent own order d :=
      Finset.sum_congr rfl fun d mem => seen_append (mem_below.mp mem).1
    rw [rollUp_append, ih (List.nodup_append.mp nodup).1, below_append]
    split
    · rw [Finset.sum_insert fun mem => fresh (mem_below.mp mem).1, seen_last fresh, same]
      omega
    · rw [same, Nat.add_zero]

variable (parent own order) in
/-- A node that is below another is visited before the nodes below it that count. -/
def TopFirst : Prop := ∀ p x, x ∈ order → Link parent x p → ∀ d ∈ order, Above parent d x →
  own d ≠ 0 → order.idxOf x < order.idxOf d

theorem mem_take_idxOf : d ∈ order.take (order.idxOf e) ↔
    d ∈ order ∧ order.idxOf d < order.idxOf e := by
  constructor
  · intro mem
    have inside := List.mem_of_mem_take mem
    exact ⟨inside, (List.mem_take_iff_idxOf_lt inside).mp mem⟩
  · rintro ⟨inside, first⟩
    exact (List.mem_take_iff_idxOf_lt inside).mpr first

/-- No node that counts is visited before the node and is below it. -/
theorem seen_eq_own (clean : ∀ d ∈ order, Above parent d e → own d ≠ 0 →
    order.idxOf e < order.idxOf d) : seen parent own order e = own e := by
  refine rollUp_clean (fun c mem above => ?_) .refl
  obtain ⟨inside, first⟩ := mem_take_idxOf.mp mem
  by_contra counts
  exact Nat.lt_asymm first (clean c inside above counts)

/-- The result when the nodes below are not changed before their visits. -/
theorem rollUp_eq_total (nodup : order.Nodup)
    (clean : ∀ d ∈ order, Above parent d p → seen parent own order d = own d) :
    rollUp parent own order p = total parent own order p := by
  rw [rollUp_eq_sum nodup, total]
  congr 1
  refine Finset.sum_congr rfl fun d mem => ?_
  obtain ⟨inside, under⟩ := mem_below.mp mem
  exact clean d inside under

theorem rollUp_of_topFirst (nodup : order.Nodup) (first : TopFirst parent own order) :
    rollUp parent own order p = total parent own order p := by
  refine rollUp_eq_total nodup fun d inside under => seen_eq_own ?_
  obtain ⟨q, link, _⟩ := TransGen.head'_iff.mp under
  exact first q d inside link

/-- A node visited after a node below it that counts. -/
theorem own_lt_seen (nodup : order.Nodup) (inside : d ∈ order) (under : Above parent d x)
    (counts : own d ≠ 0) (first : order.idxOf d < order.idxOf x) :
    own x < seen parent own order x := by
  rw [seen, rollUp_eq_sum (nodup.sublist (List.take_sublist _ _))]
  have mem : d ∈ below parent (order.take (order.idxOf x)) x :=
    mem_below.mpr ⟨mem_take_idxOf.mpr ⟨inside, first⟩, under⟩
  have large := Finset.single_le_sum
    (f := seen parent own (order.take (order.idxOf x))) (fun _ _ => Nat.zero_le _) mem
  have least : own d ≤ seen parent own (order.take (order.idxOf x)) d := own_le_seen
  omega

/-- A node is below at most one child of another. -/
theorem disjoint_below (acyclic : Acyclic parent) (hx : Link parent x p) (hy : Link parent y p)
    (differ : x ≠ y) : Disjoint (below parent order x) (below parent order y) := by
  rw [Finset.disjoint_left]
  intro d dx dy
  exact differ (acyclic.child_unique hx hy (mem_below.mp dx).2.to_reflTransGen
    (mem_below.mp dy).2.to_reflTransGen)

open Classical in
/-- What the children of a node have below them is below the node. -/
theorem sum_children_le (acyclic : Acyclic parent) :
    ∑ x ∈ (below parent order p).filter (Link parent · p), ∑ d ∈ below parent order x, own d ≤
      ∑ d ∈ below parent order p, own d := by
  rw [← Finset.sum_biUnion]
  · refine Finset.sum_le_sum_of_subset fun d mem => ?_
    obtain ⟨x, child, mem⟩ := Finset.mem_biUnion.mp mem
    obtain ⟨inside, under⟩ := mem_below.mp mem
    exact mem_below.mpr ⟨inside, under.tail (Finset.mem_filter.mp child).2⟩
  · intro x hx y hy differ
    exact disjoint_below acyclic (Finset.mem_filter.mp hx).2 (Finset.mem_filter.mp hy).2 differ

variable (parent own order) in
/-- A child of the node is visited after a node below it that counts. -/
def Late (p : α) : Prop := ∃ x ∈ order, Link parent x p ∧ ∃ d ∈ order, Above parent d x ∧
  own d ≠ 0 ∧ order.idxOf d < order.idxOf x

theorem exists_late (acyclic : Acyclic parent) (h : ¬ TopFirst parent own order) :
    ∃ p, Late parent own order p := by
  by_contra none
  refine h fun p x inside link d dmem under counts => ?_
  by_contra first
  have differ : order.idxOf d ≠ order.idxOf x := fun same =>
    acyclic x (List.idxOf_inj dmem |>.mp same ▸ under)
  exact none ⟨p, x, inside, link, d, dmem, under, counts, by omega⟩

open Classical in
/-- What the nodes below have when they are visited, if only the children of the node are
visited late. -/
theorem sum_seen_le (acyclic : Acyclic parent) (nodup : order.Nodup)
    (quiet : ∀ e ∈ order, ∀ q, Link parent e q → Above parent q p →
      seen parent own order e = own e) :
    ∑ d ∈ below parent order p, seen parent own order d ≤
      2 * ∑ d ∈ below parent order p, own d := by
  have each : ∀ d ∈ below parent order p, seen parent own order d ≤
      own d + if Link parent d p then ∑ e ∈ below parent order d, own e else 0 := by
    intro d mem
    obtain ⟨inside, under⟩ := mem_below.mp mem
    split
    · next child =>
      refine seen_le_rollUp.trans (Nat.le_of_eq (rollUp_eq_total nodup fun e emem above => ?_))
      obtain ⟨q, link, path⟩ := TransGen.head'_iff.mp above
      exact quiet e emem q link (TransGen.tail' path child)
    · next deep =>
      obtain ⟨q, link, path⟩ := TransGen.head'_iff.mp under
      rcases reflTransGen_iff.mp path with rfl | above
      · exact absurd link deep
      · exact (quiet d inside q link above).le
  calc ∑ d ∈ below parent order p, seen parent own order d
      ≤ ∑ d ∈ below parent order p,
          (own d + if Link parent d p then ∑ e ∈ below parent order d, own e else 0) :=
        Finset.sum_le_sum each
    _ = ∑ d ∈ below parent order p, own d +
          ∑ d ∈ (below parent order p).filter (Link parent · p),
            ∑ e ∈ below parent order d, own e := by
        rw [Finset.sum_add_distrib, Finset.sum_filter]
    _ ≤ ∑ d ∈ below parent order p, own d + ∑ d ∈ below parent order p, own d :=
        Nat.add_le_add_left (sum_children_le acyclic) _
    _ = 2 * ∑ d ∈ below parent order p, own d := (Nat.two_mul _).symm

/-- In any order but those from the top, some node with a child ends above its sum, and not
above twice its sum. -/
theorem exists_excess (acyclic : Acyclic parent) (wf : WellFounded (Link parent))
    (nodup : order.Nodup) (h : ¬ TopFirst parent own order) :
    ∃ p x, x ∈ order ∧ Link parent x p ∧ total parent own order p < rollUp parent own order p ∧
      rollUp parent own order p ≤ 2 * total parent own order p := by
  -- the lowest node with a late child
  obtain ⟨p, late, least⟩ := wf.transGen.has_min {p | Late parent own order p} (exists_late acyclic h)
  obtain ⟨x, inside, child, d, dmem, under, counts, first⟩ := late
  have quiet : ∀ e ∈ order, ∀ q, Link parent e q → Above parent q p →
      seen parent own order e = own e := by
    intro e emem q link above
    refine seen_eq_own fun f fmem funder fcounts => ?_
    by_contra fails
    have differ : order.idxOf f ≠ order.idxOf e := fun same =>
      acyclic e (List.idxOf_inj fmem |>.mp same ▸ funder)
    exact least q ⟨e, emem, link, f, fmem, funder, fcounts, by omega⟩ above
  refine ⟨p, x, inside, child, ?_, ?_⟩
  · rw [rollUp_eq_sum nodup, total]
    refine Nat.add_lt_add_left (Finset.sum_lt_sum (fun _ _ => own_le_seen) ⟨x, ?_, ?_⟩) _
    · exact mem_below.mpr ⟨inside, .single child⟩
    · exact own_lt_seen nodup dmem under counts first
  · have twice := sum_seen_le acyclic nodup quiet
    rw [rollUp_eq_sum nodup, total]
    omega

end Sums

end Vidsilo.Library.RollUp
