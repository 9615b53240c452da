import Mathlib.Data.Finset.Card
import Mathlib.Logic.Function.Basic
import Mathlib.Logic.Relation

/-!
# Parents and ancestors

A parent function sends every node to at most one other node. Acyclic parent functions can be
climbed and, from below, traversed level by level. `recursive` is the evaluation of a recursive
query with `UNION ALL`. Nothing here depends on the repository.
-/
namespace Vidsilo.Library.Ancestry
open Relation

section Acyclic
variable {α : Type*} (parent : α → Option α)

/-- The second node is the parent of the first. -/
def Link (a b : α) : Prop := parent a = some b

/-- The second node is an ancestor of the first. -/
def Above : α → α → Prop := TransGen (Link parent)

def Acyclic : Prop := ∀ a, ¬ Above parent a a

variable {parent} {parent' : α → Option α} {a b c : α}

theorem Acyclic.mono (h : Acyclic parent) (sub : ∀ a b, Link parent' a b → Link parent a b) :
    Acyclic parent' := by
  intro a cycle
  exact h a (TransGen.mono sub a a cycle)

/-- The last step to an ancestor. -/
theorem Above.child (h : Above parent a b) : ∃ c, ReflTransGen (Link parent) a c ∧ Link parent c b :=
  TransGen.tail'_iff.mp h

/-- Nothing is above a node without a parent. -/
theorem not_above_root (root : parent a = none) : ¬ Above parent a b := by
  intro above
  obtain ⟨c, link, _⟩ := TransGen.head'_iff.mp above
  rw [Link, root] at link
  cases link

theorem reflTransGen_iff : ReflTransGen (Link parent) a b ↔ b = a ∨ Above parent a b :=
  reflTransGen_iff_eq_or_transGen

/-- A node is at or below at most one child of another. -/
theorem Acyclic.child_unique (h : Acyclic parent) {p x y : α} (hx : Link parent x p)
    (hy : Link parent y p) (ax : ReflTransGen (Link parent) a x)
    (ay : ReflTransGen (Link parent) a y) : x = y := by
  have functional : Relator.RightUnique (Link parent) := fun _ _ _ first second =>
    Option.some.inj (first.symm.trans second)
  have apart : ∀ {x y}, Link parent x p → Link parent y p → ReflTransGen (Link parent) x y →
      x = y := by
    intro x y hx hy path
    rcases ReflTransGen.cases_head path with same | ⟨c, link, rest⟩
    · exact same
    · -- the parent of the first is above the second, which is its child
      obtain rfl := functional hx link
      exact absurd (TransGen.head' hy rest) (h y)
  rcases ReflTransGen.total_of_right_unique functional ax ay with path | path
  · exact apart hx hy path
  · exact (apart hy hx path).symm

variable [DecidableEq α]

theorem link_update {new : Option α} {x y : α} : Link (Function.update parent a new) x y ↔
    (x = a ∧ new = some y) ∨ (x ≠ a ∧ Link parent x y) := by
  by_cases here : x = a
  · subst here
    simp [Link]
  · simp [Link, here]

/-- A path after a change of one parent is an old path or goes once through the new link. -/
theorem above_update {new : Option α} (free : ∀ b ∈ new, ¬ ReflTransGen (Link parent) b a)
    {x y : α} (h : Above (Function.update parent a new) x y) :
    Above parent x y ∨
      ReflTransGen (Link parent) x a ∧ ∃ b ∈ new, ReflTransGen (Link parent) b y := by
  induction h with
  | single link =>
    rcases link_update.mp link with ⟨rfl, isNew⟩ | ⟨_, old⟩
    · exact .inr ⟨.refl, _, isNew, .refl⟩
    · exact .inl (.single old)
  | tail _ link ih =>
    rcases link_update.mp link with ⟨rfl, isNew⟩ | ⟨_, old⟩
    · rcases ih with path | ⟨_, b, isNew', back⟩
      · exact .inr ⟨path.to_reflTransGen, _, isNew, .refl⟩
      · exact absurd back (free b isNew')
    · rcases ih with path | ⟨before, b, isNew, after⟩
      · exact .inl (path.tail old)
      · exact .inr ⟨before, b, isNew, after.tail old⟩

/-- The old path up to the node whose parent changes stays. -/
theorem reflTransGen_update {new : Option α} {x : α} (h : ReflTransGen (Link parent) x a) :
    ReflTransGen (Link (Function.update parent a new)) x a := by
  induction h using ReflTransGen.head_induction_on with
  | refl => exact .refl
  | @head x y link _ ih =>
    by_cases here : x = a
    · subst here
      exact .refl
    · exact .head (link_update.mpr (.inr ⟨here, link⟩)) ih

/-- A new parent closes a cycle exactly when it is the node itself or below it. -/
theorem acyclic_update_iff (h : Acyclic parent) {new : Option α} :
    Acyclic (Function.update parent a new) ↔ ∀ b ∈ new, ¬ ReflTransGen (Link parent) b a := by
  constructor
  · intro acyclic b isNew path
    apply acyclic a
    exact TransGen.head' (link_update.mpr (.inl ⟨rfl, isNew⟩)) (reflTransGen_update path)
  · intro free x cycle
    rcases above_update free cycle with old | ⟨before, b, isNew, after⟩
    · exact h x old
    · exact free b isNew (after.trans before)

end Acyclic

section Termination
variable {α : Type*} {parent : α → Option α}

open Classical in
/-- Climbing ends: the ancestors get fewer. -/
theorem Acyclic.climbs (h : Acyclic parent) (nodes : Finset α)
    (closed : ∀ a b, Link parent a b → b ∈ nodes) : WellFounded fun b a => Link parent a b := by
  apply Subrelation.wf _ (measure fun a => (nodes.filter (Above parent a)).card).wf
  intro b a link
  apply Finset.card_lt_card
  rw [Finset.ssubset_iff_of_subset]
  · refine ⟨b, Finset.mem_filter.mpr ⟨closed a b link, .single link⟩, ?_⟩
    intro mem
    exact h b (Finset.mem_filter.mp mem).2
  · intro c mem
    obtain ⟨inside, above⟩ := Finset.mem_filter.mp mem
    exact Finset.mem_filter.mpr ⟨inside, .head link above⟩

open Classical in
/-- Descending ends: the descendants get fewer. -/
theorem Acyclic.descends (h : Acyclic parent) (nodes : Finset α)
    (closed : ∀ a b, Link parent a b → a ∈ nodes) : WellFounded (Link parent) := by
  apply Subrelation.wf _ (measure fun a => (nodes.filter fun c => Above parent c a).card).wf
  intro a b link
  apply Finset.card_lt_card
  rw [Finset.ssubset_iff_of_subset]
  · refine ⟨a, Finset.mem_filter.mpr ⟨closed a b link, .single link⟩, ?_⟩
    intro mem
    exact h a (Finset.mem_filter.mp mem).2
  · intro c mem
    obtain ⟨inside, above⟩ := Finset.mem_filter.mp mem
    exact Finset.mem_filter.mpr ⟨inside, above.tail link⟩

end Termination

section Recursive
variable {α : Type*} (children : α → List α)

/-- Replaces the working table by the children of its rows until it is empty. -/
def recursive : Nat → List α → Option (List α)
  | 0, working => if working.isEmpty then some [] else none
  | fuel + 1, working =>
    if working.isEmpty then some []
    else (recursive fuel (working.flatMap children)).map (working ++ ·)

variable {children} {n m : Nat} {xs ys : List α}

theorem recursive_nil (n : Nat) : recursive children n [] = some [] := by
  cases n with
  | zero => rfl
  | succ n => rfl

theorem isSome_recursive_succ : (recursive children (n + 1) xs).isSome =
    (recursive children n (xs.flatMap children)).isSome := by
  cases xs with
  | nil => rw [recursive_nil, List.flatMap_nil, recursive_nil]
  | cons x xs => rw [recursive, List.isEmpty_cons, if_neg (by decide), Option.isSome_map]

theorem isSome_recursive_append : (recursive children n (xs ++ ys)).isSome =
    ((recursive children n xs).isSome && (recursive children n ys).isSome) := by
  induction n generalizing xs ys with
  | zero =>
    cases xs with
    | nil => rw [List.nil_append, recursive_nil, Option.isSome_some, Bool.true_and]
    | cons x xs => rfl
  | succ n ih =>
    rw [isSome_recursive_succ, isSome_recursive_succ, isSome_recursive_succ, List.flatMap_append, ih]

theorem recursive_mono (h : n ≤ m) (ended : (recursive children n xs).isSome = true) :
    (recursive children m xs).isSome = true := by
  induction n generalizing m xs with
  | zero =>
    cases xs with
    | nil => rw [recursive_nil, Option.isSome_some]
    | cons x xs => cases ended
  | succ n ih =>
    obtain ⟨m, rfl⟩ : ∃ k, m = k + 1 := ⟨m - 1, by omega⟩
    rw [isSome_recursive_succ] at ended ⊢
    exact ih (by omega) ended

/-- Enough fuel for every row of the working table. -/
theorem recursive_all (each : ∀ x ∈ xs, ∃ n, (recursive children n [x]).isSome = true) :
    ∃ n, (recursive children n xs).isSome = true := by
  induction xs with
  | nil => exact ⟨0, rfl⟩
  | cons x xs ih =>
    obtain ⟨n, first⟩ := each x List.mem_cons_self
    obtain ⟨m, rest⟩ := ih fun y mem => each y (List.mem_cons_of_mem x mem)
    refine ⟨max n m, ?_⟩
    rw [← List.singleton_append, isSome_recursive_append,
      recursive_mono (Nat.le_max_left n m) first, recursive_mono (Nat.le_max_right n m) rest]
    rfl

variable {parent : α → Option α} (inverse : ∀ a b, a ∈ children b ↔ Link parent a b)
include inverse

theorem recursive_ends (wf : WellFounded (Link parent)) (xs : List α) :
    ∃ n, (recursive children n xs).isSome = true := by
  apply recursive_all
  intro x mem
  clear mem
  induction x using wf.induction with
  | _ x ih =>
    have each (c : α) (mem : c ∈ children x) := ih c ((inverse c x).mp mem)
    obtain ⟨n, ended⟩ := recursive_all each
    refine ⟨n + 1, ?_⟩
    rw [isSome_recursive_succ, List.flatMap_singleton, ended]

/-- A query that ends finds what is at or below a row of the working table. -/
theorem mem_recursive {out : List α} (h : recursive children n xs = some out) {y : α} :
    y ∈ out ↔ ∃ x ∈ xs, ReflTransGen (Link parent) y x := by
  induction n generalizing xs out with
  | zero =>
    cases xs with
    | nil =>
      cases h
      simp
    | cons x xs => cases h
  | succ n ih =>
    cases xs with
    | nil =>
      rw [recursive_nil] at h
      cases h
      simp
    | cons x xs =>
      obtain ⟨below, found, rfl⟩ := Option.map_eq_some_iff.mp h
      rw [List.mem_append, ih found]
      constructor
      · rintro (here | ⟨c, mem, path⟩)
        · exact ⟨y, here, .refl⟩
        · obtain ⟨z, isRow, isChild⟩ := List.mem_flatMap.mp mem
          exact ⟨z, isRow, path.tail ((inverse c z).mp isChild)⟩
      · rintro ⟨z, isRow, path⟩
        rcases ReflTransGen.cases_tail path with rfl | ⟨c, path, link⟩
        · exact .inl isRow
        · exact .inr ⟨c, List.mem_flatMap.mpr ⟨z, isRow, (inverse c z).mpr link⟩, path⟩

/-- From a node on a cycle the query runs forever. -/
theorem not_recursive_ends {a : α} (cycle : Above parent a a) (mem : a ∈ xs) (n : Nat) :
    (recursive children n xs).isSome = false := by
  induction n generalizing a xs with
  | zero =>
    obtain ⟨x, rest, rfl⟩ := List.exists_cons_of_ne_nil (List.ne_nil_of_mem mem)
    rfl
  | succ n ih =>
    obtain ⟨c, path, link⟩ := cycle.child
    rw [isSome_recursive_succ]
    apply ih (TransGen.head' link path)
    exact List.mem_flatMap.mpr ⟨a, mem, (inverse c a).mpr link⟩

end Recursive

end Vidsilo.Library.Ancestry
