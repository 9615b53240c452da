import Mathlib.Algebra.BigOperators.Group.List.Basic
import Mathlib.Data.List.Nodup
import Mathlib.Data.List.Perm.Basic

/-!
# Rows in groups

The rows of a table fall into groups by a key; the keys are listed in the order in which they
first occur. The weights of the groups add up to the weight of the rows, in whatever order the
groups are visited. Nothing here depends on the repository.
-/
namespace Vidsilo.Library.Grouping

variable {α κ M : Type*} [DecidableEq κ] [AddCommMonoid M] (key : α → κ)

/-- The keys that occur, each once. -/
def keys : List α → List κ
  | [] => []
  | a :: rest => key a :: (keys rest).filter (· ≠ key a)

def group (rows : List α) (k : κ) : List α := rows.filter (key · = k)

def weight (w : α → M) (rows : List α) : M := (rows.map w).sum

variable {key} {rows : List α} {ks ks' : List κ} {k : κ} {w : α → M}

theorem mem_keys : k ∈ keys key rows ↔ ∃ a ∈ rows, key a = k := by
  induction rows with
  | nil => simp [keys]
  | cons a rest ih =>
    rw [keys, List.mem_cons, List.mem_filter, ih]
    by_cases here : k = key a
    · subst here
      simp
    · simp [here, Ne.symm here]

variable (key) in
theorem nodup_keys (rows : List α) : (keys key rows).Nodup := by
  induction rows with
  | nil => exact List.nodup_nil
  | cons a rest ih =>
    refine List.nodup_cons.mpr ⟨fun mem => ?_, ih.filter _⟩
    simpa using (List.mem_filter.mp mem).2

theorem mem_group {a : α} : a ∈ group key rows k ↔ a ∈ rows ∧ key a = k := by
  rw [group, List.mem_filter, decide_eq_true_iff]

theorem weight_append (w : α → M) (rows rows' : List α) :
    weight w (rows ++ rows') = weight w rows + weight w rows' := by
  rw [weight, List.map_append, List.sum_append]
  rfl

theorem weight_perm {rows' : List α} (w : α → M) (h : rows.Perm rows') :
    weight w rows = weight w rows' :=
  (h.map w).sum_eq

theorem weight_map {β : Type*} (w : α → M) (f : β → α) (bs : List β) :
    weight w (bs.map f) = weight (fun b => w (f b)) bs := by
  rw [weight, List.map_map]
  rfl

theorem weight_filter_not (w : α → M) (p : α → Bool) (rows : List α) :
    weight w (rows.filter p) + weight w (rows.filter (!p ·)) = weight w rows := by
  rw [← weight_append]
  exact weight_perm w (List.filter_append_perm p rows)

theorem length_eq_weight (rows : List α) : rows.length = weight (fun _ => 1) rows := by
  simp [weight]

/-- Rows of which no one passes both checks. -/
theorem weight_filter_or {p q : α → Bool} (apart : ∀ a ∈ rows, ¬ (p a = true ∧ q a = true)) :
    weight w (rows.filter fun a => p a || q a) =
      weight w (rows.filter p) + weight w (rows.filter q) := by
  induction rows with
  | nil => exact (add_zero _).symm
  | cons a rest ih =>
    obtain ⟨here, later⟩ := List.forall_mem_cons.mp apart
    have rest_eq := ih later
    unfold weight at rest_eq ⊢
    cases first : p a with
    | true =>
      have second : q a = false := by simpa [first] using here
      simp [first, second, rest_eq, add_assoc]
    | false =>
      cases second : q a with
      | true => simp [first, second, rest_eq, add_left_comm]
      | false => simp [first, second, rest_eq]

variable (key rows w) in
/-- The groups of some keys weigh as much as the rows that have one of them. -/
theorem weight_groups (nodup : ks.Nodup) :
    (ks.map fun k => weight w (group key rows k)).sum =
      weight w (rows.filter fun a => key a ∈ ks) := by
  induction ks with
  | nil => simp [weight]
  | cons k rest ih =>
    obtain ⟨new, nodup⟩ := List.nodup_cons.mp nodup
    rw [List.map_cons, List.sum_cons, ih nodup, group, ← weight_filter_or]
    · congr 1
      refine List.filter_congr fun a _ => ?_
      rw [← Bool.decide_or]
      exact decide_eq_decide.mpr List.mem_cons.symm
    · rintro a - ⟨isKey, isRest⟩
      simp only [decide_eq_true_eq] at isKey isRest
      exact new (isKey ▸ isRest)

variable (key w) in
theorem weight_chosen {p : α → Bool} (nodup : ks.Nodup)
    (chosen : ∀ a ∈ rows, p a = true ↔ key a ∈ ks) :
    (ks.map fun k => weight w (group key rows k)).sum = weight w (rows.filter p) := by
  rw [weight_groups key rows w nodup]
  refine congrArg _ (List.filter_congr fun a mem => ?_)
  rw [Bool.eq_iff_iff, decide_eq_true_iff, chosen a mem]

variable (key) in
/-- All groups together. -/
theorem weight_keys (w : α → M) (rows : List α) :
    ((keys key rows).map fun k => weight w (group key rows k)).sum = weight w rows := by
  rw [weight_groups key rows w (nodup_keys key rows), List.filter_eq_self.mpr]
  exact fun a mem => decide_eq_true (mem_keys.mpr ⟨a, mem, rfl⟩)

/-- Where every key occurs once, a row is found by it. -/
theorem find?_of_nodup (h : (rows.map key).Nodup) {a : α} (mem : a ∈ rows) :
    rows.find? (key · = key a) = some a := by
  induction rows with
  | nil => cases mem
  | cons b rest ih =>
    rw [List.map_cons, List.nodup_cons] at h
    rcases List.mem_cons.mp mem with rfl | later
    · exact List.find?_cons_of_pos (decide_eq_true rfl)
    · have other : key b ≠ key a := fun same => h.1 (same ▸ List.mem_map_of_mem later)
      rw [List.find?_cons_of_neg (by simpa using other)]
      exact ih h.2 later

end Vidsilo.Library.Grouping
