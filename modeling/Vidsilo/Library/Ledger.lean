import Mathlib.Algebra.BigOperators.Group.List.Basic
import Mathlib.Data.List.Nodup

/-!
# Ledgers

A ledger has a row of amounts for each key that something was added to, in no particular
order. Nothing here depends on the repository.
-/
namespace Vidsilo.Library

abbrev Ledger (κ M : Type) := List (κ × M)

namespace Ledger

variable {κ M : Type} [AddCommMonoid M]

/-- The sum of the rows whose key passes. -/
def sumOn (p : κ → Bool) : Ledger κ M → M
  | [] => 0
  | (k, m) :: rest => (if p k then m else 0) + sumOn p rest

theorem sumOn_perm {p : κ → Bool} {l l' : Ledger κ M} (h : l.Perm l') : sumOn p l = sumOn p l' := by
  induction h with
  | nil => rfl
  | cons row _ ih => simp only [sumOn, ih]
  | swap row row' rest => simp only [sumOn, add_left_comm]
  | trans _ _ ih ih' => exact ih.trans ih'

theorem sumOn_zero {p : κ → Bool} {l : Ledger κ M} (h : ∀ row ∈ l, p row.1 = false) :
    sumOn p l = 0 := by
  induction l with
  | nil => rfl
  | cons row rest ih =>
    have first := h row List.mem_cons_self
    have later := ih fun row mem => h row (List.mem_cons_of_mem _ mem)
    simp [sumOn, first, later]

theorem sumOn_append (p : κ → Bool) (l l' : Ledger κ M) :
    sumOn p (l ++ l') = sumOn p l + sumOn p l' := by
  induction l with
  | nil => rw [List.nil_append, sumOn, zero_add]
  | cons row rest ih => rw [List.cons_append, sumOn, ih, sumOn, add_assoc]

/-- The rows that stay and those that are dropped. -/
theorem sumOn_filter (p : κ → Bool) (stays : κ × M → Bool) (l : Ledger κ M) :
    sumOn p (l.filter stays) + sumOn p (l.filter fun row => !stays row) = sumOn p l := by
  induction l with
  | nil => exact add_zero _
  | cons row rest ih =>
    cases here : stays row with
    | true => simp [here, sumOn, ← ih, add_assoc]
    | false => simp [here, sumOn, ← ih, add_left_comm]

variable [DecidableEq κ]

/-- Adds to the row of a key, or makes one. -/
def add (key : κ) (amount : M) : Ledger κ M → Ledger κ M
  | [] => [(key, amount)]
  | (k, m) :: rest => if k = key then (k, m + amount) :: rest else (k, m) :: add key amount rest

theorem sumOn_add (p : κ → Bool) (key : κ) (amount : M) (l : Ledger κ M) :
    sumOn p (add key amount l) = sumOn p l + if p key then amount else 0 := by
  induction l with
  | nil => simp [add, sumOn]
  | cons row rest ih =>
    obtain ⟨k, m⟩ := row
    unfold add
    split
    · next same =>
      subst same
      cases here : p k with
      | true => simp only [sumOn, here, if_true, add_right_comm]
      | false => simp [sumOn, here]
    · simp only [sumOn, ih, add_assoc]

theorem mem_add {key k : κ} {amount m : M} {l : Ledger κ M} (h : (k, m) ∈ add key amount l) :
    k = key ∨ ∃ m', (k, m') ∈ l := by
  induction l with
  | nil =>
    simp only [add, List.mem_singleton, Prod.mk.injEq] at h
    exact .inl h.1
  | cons row rest ih =>
    obtain ⟨k', m'⟩ := row
    unfold add at h
    split at h
    · next same =>
      rcases List.mem_cons.mp h with first | later
      · exact .inl ((Prod.mk.inj first).1.trans same)
      · exact .inr ⟨m, List.mem_cons_of_mem _ later⟩
    · rcases List.mem_cons.mp h with first | later
      · obtain ⟨rfl, rfl⟩ := Prod.mk.inj first
        exact .inr ⟨m, List.mem_cons_self⟩
      · exact (ih later).imp_right fun ⟨m'', mem⟩ => ⟨m'', List.mem_cons_of_mem _ mem⟩

/-- The row of a key. -/
def balance (key : κ) : Ledger κ M → M
  | [] => 0
  | (k, m) :: rest => if k = key then m else balance key rest

theorem balance_add (key k : κ) (amount : M) (l : Ledger κ M) :
    balance k (add key amount l) = balance k l + if key = k then amount else 0 := by
  induction l with
  | nil => simp [add, balance]
  | cons row rest ih =>
    obtain ⟨k', m⟩ := row
    unfold add
    split
    · next same =>
      subst same
      by_cases here : k' = k
      · simp [balance, here]
      · simp [balance, here]
    · next other =>
      by_cases here : k' = k
      · subst here
        simp [balance, Ne.symm other]
      · simp only [balance, here, if_false, ih]

theorem balance_zero {key : κ} {l : Ledger κ M} (h : ∀ row ∈ l, row.1 ≠ key) :
    balance key l = 0 := by
  induction l with
  | nil => rfl
  | cons row rest ih =>
    have first := h row List.mem_cons_self
    have later := ih fun row mem => h row (List.mem_cons_of_mem _ mem)
    simp [balance, first, later]

/-- Dropping the rows of another key. -/
theorem balance_filter {key k : κ} (other : k ≠ key) (l : Ledger κ M) :
    balance k (l.filter fun row => row.1 ≠ key) = balance k l := by
  induction l with
  | nil => rfl
  | cons row rest ih =>
    obtain ⟨k', m⟩ := row
    by_cases drop : k' = key
    · have ne : k' ≠ k := fun same => other (same.symm.trans drop)
      simpa [drop, balance, ne, Ne.symm other] using ih
    · by_cases here : k' = k
      · simp [balance, here, other]
      · simpa [drop, balance, here] using ih

theorem balance_filter_keep {k : κ} (stays : κ → Bool) (kept : stays k = true) (l : Ledger κ M) :
    balance k (l.filter fun row => stays row.1) = balance k l := by
  induction l with
  | nil => rfl
  | cons row rest ih =>
    obtain ⟨k', m⟩ := row
    by_cases here : k' = k
    · subst here
      simp [balance, kept]
    · cases stay : stays k' with
      | true => simpa [stay, balance, here] using ih
      | false => simpa [stay, balance, here] using ih

theorem keys_add (key : κ) (amount : M) (l : Ledger κ M) :
    (add key amount l).map Prod.fst = if key ∈ l.map Prod.fst then l.map Prod.fst
      else l.map Prod.fst ++ [key] := by
  induction l with
  | nil => rfl
  | cons row rest ih =>
    obtain ⟨k, m⟩ := row
    unfold add
    by_cases here : k = key
    · simp [here]
    · rw [if_neg here, List.map_cons, ih]
      simp only [List.map_cons, List.mem_cons, Ne.symm here, false_or]
      split <;> rfl

/-- There is one row for each key. -/
theorem nodup_add {key : κ} {amount : M} {l : Ledger κ M} (h : (l.map Prod.fst).Nodup) :
    ((add key amount l).map Prod.fst).Nodup := by
  rw [keys_add]
  split
  · exact h
  next new =>
    rw [List.nodup_append]
    refine ⟨h, List.nodup_singleton _, fun k mem k' mem' same => ?_⟩
    rw [List.mem_singleton.mp mem'] at same
    exact new (same ▸ mem)

theorem balance_of_mem {k : κ} {m : M} {l : Ledger κ M} (h : (l.map Prod.fst).Nodup)
    (mem : (k, m) ∈ l) : balance k l = m := by
  induction l with
  | nil => cases mem
  | cons row rest ih =>
    obtain ⟨k', m'⟩ := row
    rw [List.map_cons, List.nodup_cons] at h
    rcases List.mem_cons.mp mem with first | later
    · cases first
      exact if_pos rfl
    · have isKey : k ∈ rest.map Prod.fst := List.mem_map.mpr ⟨(k, m), later, rfl⟩
      have other : k' ≠ k := fun same => h.1 (same ▸ isKey)
      rw [balance, if_neg other]
      exact ih h.2 later

end Ledger

end Vidsilo.Library
