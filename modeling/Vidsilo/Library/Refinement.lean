import Vidsilo.Library.Transition

/-!
# Refinement of runs

An abstract system may be loose: a step relates its states. A machine refines it when every step from
related states is matched; then every run of the machine is matched by one of the abstract system with
the same labels. Nothing here depends on the repository.
-/
namespace Vidsilo.Library.Refinement

open Transition

variable {σ τ α : Type*} {step : σ → α → Option σ} {cond : σ → α → Prop} {follows : τ → α → τ → Prop}

/-- The states that the labels can lead to. -/
inductive Followed (follows : τ → α → τ → Prop) (t₀ : τ) : List α → τ → Prop where
  | start : Followed follows t₀ [] t₀
  | step {trace : List α} {t t' : τ} {a : α} (before : Followed follows t₀ trace t)
      (last : follows t a t') : Followed follows t₀ (trace ++ [a]) t'

theorem followed {rel : τ → σ → Prop} {t₀ : τ} {s₀ s : σ} {trace : List α}
    (run : Run step cond s₀ trace s) (init : rel t₀ s₀)
    (matched : ∀ t s a s', rel t s → cond s a → step s a = some s' → ∃ t', follows t a t' ∧ rel t' s') :
    ∃ t, Followed follows t₀ trace t ∧ rel t s := by
  refine run.trace_invariant (fun trace s => ∃ t, Followed follows t₀ trace t ∧ rel t s)
    ⟨t₀, .start, init⟩ ?_
  rintro trace s a s' ⟨t, before, related⟩ meets taken
  obtain ⟨t', last, later⟩ := matched t s a s' related meets taken
  exact ⟨t', before.step last, later⟩

end Vidsilo.Library.Refinement
