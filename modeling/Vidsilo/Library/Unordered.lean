import Mathlib.Data.List.Sort

/-!
# Orders that a runtime leaves open

A map is visited in any order, and a sort that is not stable puts equals in any order. Nothing here
depends on the repository.
-/
namespace Vidsilo.Library

/-- The order in which the keys of a map are visited. -/
structure Ranging (κ : Type) where
  visit : List κ → List κ
  perm : ∀ ks, (visit ks).Perm ks

/-- A sort that puts equal elements in any order. -/
structure Sorting {α : Type} (less : α → α → Bool) where
  sort : List α → List α
  perm : ∀ l, (sort l).Perm l
  sorted : ∀ l, (sort l).Pairwise fun a b => less b a = false

namespace Sorting
variable {α : Type} {less : α → α → Bool}

/-- One that keeps equals in their order. -/
def stable (trans : ∀ a b c, (!less b a) = true → (!less c b) = true → (!less c a) = true)
    (total : ∀ a b, (!less b a || !less a b) = true) : Sorting less where
  sort l := l.mergeSort fun a b => !less b a
  perm l := List.mergeSort_perm l _
  sorted l := (List.pairwise_mergeSort trans total l).imp fun le => by simpa using le

theorem mem_sort (s : Sorting less) {l : List α} {a : α} : a ∈ s.sort l ↔ a ∈ l := (s.perm l).mem_iff

/-- Where no two elements are equal, the result does not depend on the sort. -/
theorem sort_unique (s s' : Sorting less) {l : List α}
    (apart : ∀ a ∈ l, ∀ b ∈ l, less b a = false → less a b = false → a = b) : s.sort l = s'.sort l := by
  refine ((s.perm l).trans (s'.perm l).symm).eq_of_pairwise (fun a b mem mem' le ge => ?_)
    (s.sorted l) (s'.sorted l)
  exact apart a (s.mem_sort.mp mem) b (s'.mem_sort.mp mem') le ge

end Sorting

end Vidsilo.Library
