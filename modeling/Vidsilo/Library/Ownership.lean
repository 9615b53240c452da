import Mathlib.Logic.Function.Basic

/-!
# Resources with one owner

Owners hold at most one resource each, and every resource that is there is held by exactly one
of them: what creating, removing and handing over a resource keeps. Nothing here depends on the
repository.
-/
namespace Vidsilo.Library.Ownership

variable {ω ρ : Type*}

structure Exact (holds : ω → Option ρ) (present : ρ → Prop) : Prop where
  single : ∀ {o o' : ω} {r : ρ}, holds o = some r → holds o' = some r → o = o'
  owned : ∀ {r : ρ}, present r → ∃ o, holds o = some r
  there : ∀ {o : ω} {r : ρ}, holds o = some r → present r

variable {holds : ω → Option ρ} {present present' : ρ → Prop} {o o' : ω} {r : ρ}

theorem exact_nothing : Exact (fun _ : ω => (none : Option ρ)) fun _ => False :=
  ⟨by simp, by simp, by simp⟩

theorem Exact.congr (h : Exact holds present) (same : ∀ r, present' r ↔ present r) :
    Exact holds present' :=
  ⟨h.single, fun there => h.owned ((same _).mp there), fun held => (same _).mpr (h.there held)⟩

/-- Another owner holds another resource. -/
theorem Exact.ne (h : Exact holds present) {r' : ρ} (held : holds o = some r)
    (held' : holds o' = some r') (other : o ≠ o') : r ≠ r' := by
  rintro rfl
  exact other (h.single held held')

variable [DecidableEq ω]

theorem Exact.create (h : Exact holds present) (absent : ¬present r) (free : holds o = none)
    (grown : ∀ q, present' q ↔ q = r ∨ present q) :
    Exact (Function.update holds o (some r)) present' where
  single {a b q} held held' := by
    by_cases ha : a = o <;> by_cases hb : b = o <;>
      simp only [ha, hb, Function.update_self, Function.update_of_ne, ne_eq, not_false_eq_true,
        Option.some.injEq] at held held'
    · exact ha.trans hb.symm
    · exact absurd (h.there held') (held ▸ absent)
    · exact absurd (h.there held) (held' ▸ absent)
    · exact h.single held held'
  owned {q} there := by
    by_cases here : q = r
    · exact ⟨o, by simp [here]⟩
    · obtain ⟨a, held⟩ := h.owned (((grown q).mp there).resolve_left here)
      have other : a ≠ o := by
        rintro rfl
        simp [free] at held
      exact ⟨a, by simpa [Function.update_of_ne other] using held⟩
  there {a q} held := by
    by_cases ha : a = o
    · subst ha
      rw [Function.update_self, Option.some.injEq] at held
      exact (grown q).mpr (.inl held.symm)
    · rw [Function.update_of_ne ha] at held
      exact (grown q).mpr (.inr (h.there held))

theorem Exact.remove (h : Exact holds present) (has : holds o = some r)
    (shrunk : ∀ q, present' q ↔ q ≠ r ∧ present q) :
    Exact (Function.update holds o none) present' where
  single {a b q} held held' := by
    by_cases ha : a = o
    · simp [ha] at held
    · by_cases hb : b = o
      · simp [hb] at held'
      · rw [Function.update_of_ne ha] at held
        rw [Function.update_of_ne hb] at held'
        exact h.single held held'
  owned {q} there := by
    obtain ⟨different, before⟩ := (shrunk q).mp there
    obtain ⟨a, held⟩ := h.owned before
    have other : a ≠ o := by
      rintro rfl
      exact different (Option.some.inj (held.symm.trans has))
    exact ⟨a, by rw [Function.update_of_ne other, held]⟩
  there {a q} held := by
    by_cases ha : a = o
    · simp [ha] at held
    · rw [Function.update_of_ne ha] at held
      exact (shrunk q).mpr ⟨h.ne held has ha, h.there held⟩

theorem Exact.hand (h : Exact holds present) (has : holds o = some r) (free : holds o' = none) :
    Exact (Function.update (Function.update holds o none) o' (some r)) present := by
  have gone : Exact (Function.update holds o none) fun q => q ≠ r ∧ present q :=
    h.remove has fun _ => Iff.rfl
  have free' : Function.update holds o none o' = none := by
    by_cases same : o' = o
    · rw [same, Function.update_self]
    · rw [Function.update_of_ne same, free]
  refine gone.create (by simp) free' fun q => ?_
  by_cases here : q = r
  · simp [here, h.there has]
  · simp [here]

end Vidsilo.Library.Ownership
