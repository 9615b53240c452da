import Vidsilo.Library.Transition

/-!
# States that a run has passed

What a component knows is often not true of the present state but was true of an earlier one, as
with a value that was read some time ago. `Passed` says so of a run, so that an invariant can carry
it along. Nothing here depends on the repository.
-/
namespace Vidsilo.Library.Transition

variable {σ α : Type*} {step : σ → α → Option σ} {cond : σ → α → Prop} {s₀ s s' : σ}
  {trace : List α} {P Q : σ → Prop}

/-- The run to `s` has passed a state with the property. -/
def Passed (step : σ → α → Option σ) (cond : σ → α → Prop) (s₀ : σ) (trace : List α) (s : σ)
    (P : σ → Prop) : Prop :=
  ∃ early m later, trace = early ++ later ∧ Run step cond s₀ early m ∧ Run step cond m later s ∧ P m

theorem Passed.here (run : Run step cond s₀ trace s) (now : P s) : Passed step cond s₀ trace s P :=
  ⟨trace, s, [], (List.append_nil trace).symm, run, .start, now⟩

theorem Passed.next (h : Passed step cond s₀ trace s P) {a : α} (meets : cond s a)
    (taken : step s a = some s') : Passed step cond s₀ (trace ++ [a]) s' P := by
  obtain ⟨early, m, later, rfl, before, after, past⟩ := h
  exact ⟨early, m, later ++ [a], List.append_assoc _ _ _, before, .next after meets taken, past⟩

theorem Passed.mono (h : Passed step cond s₀ trace s P) (weaker : ∀ m, P m → Q m) :
    Passed step cond s₀ trace s Q := by
  obtain ⟨early, m, later, split, before, after, past⟩ := h
  exact ⟨early, m, later, split, before, after, weaker m past⟩

end Vidsilo.Library.Transition
