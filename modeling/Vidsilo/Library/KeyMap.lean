import Mathlib.Data.List.AList

/-!
# Finite maps and the number of their entries

Association lists with distinct keys whose values have one type, with the entries that a
condition keeps, how many meet a condition, and whether all or any do. Nothing here depends
on the repository.
-/
namespace Vidsilo.Library

abbrev KeyMap (α β : Type) := AList fun _ : α => β

namespace KeyMap

variable {α β : Type}

def size (m : KeyMap α β) : Nat := m.entries.length

/-- How many entries meet the condition. -/
def count (m : KeyMap α β) (p : α → β → Bool) : Nat := m.entries.countP fun e => p e.1 e.2

/-- The entries that meet the condition. -/
def keep (m : KeyMap α β) (stays : α → β → Bool) : KeyMap α β where
  entries := m.entries.filter fun e => stays e.1 e.2
  nodupKeys := m.nodupKeys.sublist List.filter_sublist

/-- Nothing that stays meets a condition that keeps it out. -/
theorem count_keep_not (m : KeyMap α β) (p : α → β → Bool) :
    (m.keep fun a b => !p a b).count p = 0 := by
  rw [count, List.countP_eq_zero]
  intro e mem
  have stays := List.of_mem_filter mem
  simpa using stays

theorem keep_eq_self {m : KeyMap α β} {stays : α → β → Bool}
    (h : ∀ e ∈ m.entries, stays e.1 e.2 = true) : m.keep stays = m :=
  AList.ext (List.filter_eq_self.mpr h)

/-- The entries are those that meet a condition and those that do not. -/
theorem size_eq_count (m : KeyMap α β) (p : α → β → Bool) :
    m.size = m.count p + m.count fun a b => !p a b := by
  rw [size, count, count, List.length_eq_countP_add_countP fun e : (_ : α) × β => p e.1 e.2]
  simp only [Bool.not_eq_true, Bool.decide_eq_false]

variable [DecidableEq α]

theorem lookup_keep (m : KeyMap α β) (stays : α → β → Bool) (a : α) :
    (m.keep stays).lookup a = (m.lookup a).filter (stays a) := by
  apply Option.ext
  intro b
  simp only [← Option.mem_def, AList.mem_lookup_iff, Option.mem_filter_iff, keep,
    List.mem_filter]

theorem size_insert_le (m : KeyMap α β) (a : α) (b : β) : size (m.insert a b) ≤ m.size + 1 := by
  have shorter := (List.kerase_sublist a m.entries).length_le
  simp only [size, AList.entries_insert, List.length_cons]
  omega

theorem size_insert_new {m : KeyMap α β} {a : α} (h : a ∉ m) (b : β) :
    size (m.insert a b) = m.size + 1 := by
  rw [size, AList.entries_insert_of_notMem h, List.length_cons]
  rfl

theorem size_insert_mem {m : KeyMap α β} {a : α} (h : a ∈ m) (b : β) :
    size (m.insert a b) = m.size := by
  have same := List.length_erase_of_mem (AList.mem_keys.mp h)
  have some_entry := List.length_pos_of_mem (AList.mem_keys.mp h)
  have isKeys := congrArg List.length (AList.keys_insert (b := b) (a := a) m)
  rw [List.length_cons, same] at isKeys
  simp only [AList.keys, List.keys, List.length_map] at isKeys some_entry
  simp only [size]
  omega

theorem size_erase_le (m : KeyMap α β) (a : α) : size (m.erase a) ≤ m.size :=
  (List.kerase_sublist a m.entries).length_le

theorem count_erase_le (m : KeyMap α β) (a : α) (p : α → β → Bool) :
    count (m.erase a) p ≤ m.count p :=
  (List.kerase_sublist a m.entries).countP_le

/-- An entry that does not meet the condition adds nothing to the count. -/
theorem count_insert_le (m : KeyMap α β) {a : α} {b : β} {p : α → β → Bool} (h : p a b = false) :
    count (m.insert a b) p ≤ m.count p := by
  rw [count, AList.entries_insert, List.countP_cons_of_neg (by simp [h])]
  exact (List.kerase_sublist a m.entries).countP_le

theorem count_insert_le_add (m : KeyMap α β) (a : α) (b : β) (p : α → β → Bool) :
    count (m.insert a b) p ≤ m.count p + if p a b then 1 else 0 := by
  have others : (List.kerase a m.entries).countP (fun e => p e.1 e.2) ≤ m.count p :=
    (List.kerase_sublist a m.entries).countP_le
  rw [count, AList.entries_insert, List.countP_cons]
  exact Nat.add_le_add_right others _

omit [DecidableEq α] in
theorem count_keep_le (m : KeyMap α β) (stays p : α → β → Bool) :
    count (m.keep stays) p ≤ m.count p :=
  List.filter_sublist.countP_le

/-- All entries meet the condition. -/
theorem size_eq_count_of_forall {m : KeyMap α β} {p : α → β → Bool}
    (h : ∀ a, ∀ b ∈ m.lookup a, p a b = true) : m.size = m.count p := by
  refine (List.countP_eq_length.mpr ?_).symm
  intro e mem
  exact h e.1 e.2 (AList.mem_lookup_iff.mpr mem)

def All (m : KeyMap α β) (P : β → Prop) : Prop := ∀ a b, m.lookup a = some b → P b

def Any (m : KeyMap α β) (P : β → Prop) : Prop := ∃ a b, m.lookup a = some b ∧ P b

section Quantified
variable {m : KeyMap α β} {P Q : β → Prop} {a : α} {b : β}

theorem any_entries_iff {p : β → Bool} :
    (m.entries.any fun e => p e.2) = true ↔ m.Any fun b => p b = true := by
  rw [List.any_eq_true]
  constructor
  · rintro ⟨⟨a, b⟩, mem, meets⟩
    exact ⟨a, b, AList.mem_lookup_iff.mpr mem, meets⟩
  · rintro ⟨a, b, found, meets⟩
    exact ⟨⟨a, b⟩, AList.mem_lookup_iff.mp found, meets⟩

theorem All.mono (h : m.All P) (weaker : ∀ b, P b → Q b) : m.All Q :=
  fun a b found => weaker b (h a b found)

theorem All.insert (h : m.All P) (new : P b) : All (AList.insert a b m) P := by
  intro a' b' found
  by_cases same : a' = a
  · subst same
    rw [AList.lookup_insert, Option.some.injEq] at found
    exact found ▸ new
  · rw [AList.lookup_insert_ne same] at found
    exact h a' b' found

theorem All.erase (h : m.All P) : All (AList.erase a m) P := by
  intro a' b' found
  by_cases same : a' = a
  · subst same
    rw [AList.lookup_erase] at found
    cases found
  · rw [AList.lookup_erase_ne same] at found
    exact h a' b' found

/-- What is replaced met the condition only if the new value does. -/
theorem Any.insert (h : m.Any P) (replaced : ∀ old, m.lookup a = some old → P old → P b) :
    Any (AList.insert a b m) P := by
  obtain ⟨a', b', found, meets⟩ := h
  by_cases same : a' = a
  · subst same
    exact ⟨a', b, AList.lookup_insert _, replaced b' found meets⟩
  · exact ⟨a', b', by rwa [AList.lookup_insert_ne same], meets⟩

theorem Any.erase (h : m.Any P) (gone : ∀ old, m.lookup a = some old → ¬ P old) :
    Any (AList.erase a m) P := by
  obtain ⟨a', b', found, meets⟩ := h
  by_cases same : a' = a
  · subst same
    exact absurd meets (gone b' found)
  · exact ⟨a', b', by rwa [AList.lookup_erase_ne same], meets⟩

theorem any_insert_self (new : P b) : Any (AList.insert a b m) P :=
  ⟨a, b, AList.lookup_insert m, new⟩

theorem Any.of_insert (h : Any (AList.insert a b m) P) : P b ∨ m.Any P := by
  obtain ⟨a', b', found, meets⟩ := h
  by_cases same : a' = a
  · subst same
    rw [AList.lookup_insert, Option.some.injEq] at found
    exact .inl (found ▸ meets)
  · rw [AList.lookup_insert_ne same] at found
    exact .inr ⟨a', b', found, meets⟩

theorem Any.of_erase (h : Any (AList.erase a m) P) : m.Any P := by
  obtain ⟨a', b', found, meets⟩ := h
  by_cases same : a' = a
  · subst same
    rw [AList.lookup_erase] at found
    cases found
  · rw [AList.lookup_erase_ne same] at found
    exact ⟨a', b', found, meets⟩

end Quantified

end KeyMap

end Vidsilo.Library
