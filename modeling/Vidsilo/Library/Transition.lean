import Mathlib.Data.List.Induction
import Mathlib.Tactic.TypeStar

/-!
# Runs of a deterministic transition function

`step s a = none` means that action `a` is not enabled in `s`. A run is a list of
actions, oldest first; `Run` also carries a condition that every step meets in the
state it is taken from, so that results "in every run whose steps all meet the
condition" are stated with one relation. Nothing here depends on the repository.
-/
namespace Vidsilo.Library.Transition

variable {σ α : Type*} (step : σ → α → Option σ)

inductive Run (cond : σ → α → Prop) (s₀ : σ) : List α → σ → Prop where
  | start : Run cond s₀ [] s₀
  | next {trace : List α} {s s' : σ} {a : α} (before : Run cond s₀ trace s)
      (meets : cond s a) (taken : step s a = some s') : Run cond s₀ (trace ++ [a]) s'

/-- No condition on the steps. -/
def Always (_ : σ) (_ : α) : Prop := True

variable {step} {cond : σ → α → Prop} {s₀ s : σ} {trace : List α}

/-- What holds at the start and is preserved by every step meeting the condition
holds in every state reached. -/
theorem Run.invariant (inv : σ → Prop) (h : Run step cond s₀ trace s) (init : inv s₀)
    (preserved : ∀ s a s', inv s → cond s a → step s a = some s' → inv s') : inv s := by
  induction h with
  | start => exact init
  | next _ meets taken ih => exact preserved _ _ _ ih meets taken

/-- The same with a fact about the trace carried along. -/
theorem Run.trace_invariant (inv : List α → σ → Prop) (h : Run step cond s₀ trace s)
    (init : inv [] s₀)
    (preserved : ∀ trace s a s', inv trace s → cond s a → step s a = some s' →
      inv (trace ++ [a]) s') : inv trace s := by
  induction h with
  | start => exact init
  | next _ meets taken ih => exact preserved _ _ _ _ ih meets taken

variable (step) in
/-- Runs the actions in order, refusing one that fails the check. -/
def exec (ok : σ → α → Bool) (s : σ) : List α → Option σ
  | [] => some s
  | a :: rest => if ok s a then (step s a).bind fun s' => exec ok s' rest else none

theorem Run.prepend {a : α} {s' : σ} (meets : cond s₀ a) (taken : step s₀ a = some s')
    (h : Run step cond s' trace s) : Run step cond s₀ (a :: trace) s := by
  induction h with
  | start => exact .next .start meets taken
  | next _ m t ih => exact .next ih m t

theorem Run.append {later : List α} {s' : σ} (h : Run step cond s₀ trace s)
    (h' : Run step cond s later s') : Run step cond s₀ (trace ++ later) s' := by
  induction h' with
  | start =>
    rw [List.append_nil]
    exact h
  | next _ meets taken ih =>
    rw [← List.append_assoc]
    exact .next ih meets taken

/-- The last step of a run. -/
theorem Run.last {a : α} (h : Run step cond s₀ (trace ++ [a]) s) :
    ∃ m, Run step cond s₀ trace m ∧ cond m a ∧ step m a = some s := by
  generalize joined : trace ++ [a] = whole at h
  cases h with
  | start => simp at joined
  | @next before m _ b run meets taken =>
    obtain ⟨rfl, same⟩ := List.append_inj' joined rfl
    obtain rfl := List.singleton_inj.mp same
    exact ⟨m, run, meets, taken⟩

theorem Run.eq_start (h : Run step cond s₀ [] s) : s = s₀ := by
  generalize empty : ([] : List α) = whole at h
  cases h with
  | start => rfl
  | next => simp at empty

theorem Run.split {early later : List α} (h : Run step cond s₀ (early ++ later) s) :
    ∃ m, Run step cond s₀ early m ∧ Run step cond m later s := by
  induction later using List.reverseRecOn generalizing s with
  | nil => exact ⟨s, List.append_nil early ▸ h, .start⟩
  | append_singleton later a ih =>
    rw [← List.append_assoc] at h
    obtain ⟨m, run, meets, taken⟩ := h.last
    obtain ⟨t, first, second⟩ := ih run
    exact ⟨t, first, .next second meets taken⟩

/-- The actions decide the state that a run reaches. -/
theorem Run.unique {cond' : σ → α → Prop} {s' : σ} (h : Run step cond s₀ trace s)
    (h' : Run step cond' s₀ trace s') : s = s' := by
  induction trace using List.reverseRecOn generalizing s s' with
  | nil => rw [h.eq_start, h'.eq_start]
  | append_singleton trace a ih =>
    obtain ⟨m, run, _, taken⟩ := h.last
    obtain ⟨m', run', _, taken'⟩ := h'.last
    rw [ih run run'] at taken
    exact Option.some.inj (taken.symm.trans taken')

/-- A run of a function that the actions are translated for. -/
theorem Run.map {β : Type*} {step' : σ → β → Option σ} (f : α → β)
    (same : ∀ s a, step s a = step' s (f a)) (h : Run step cond s₀ trace s) :
    Run step' Always s₀ (trace.map f) s := by
  induction h with
  | start => exact .start
  | @next trace s s' a _ _ taken ih =>
    rw [List.map_append, List.map_singleton]
    exact .next ih trivial ((same s a).symm.trans taken)

variable (step) in
/-- What the actions report, one after another. -/
def reported {β : Type*} (report : σ → α → Option β) (s : σ) : List α → List β
  | [] => []
  | a :: rest => (report s a).toList ++ ((step s a).map fun s' => reported report s' rest).getD []

theorem Run.reported_concat {β : Type*} {report : σ → α → Option β}
    (h : Run step cond s₀ trace s) (a : α) :
    reported step report s₀ (trace ++ [a]) =
      reported step report s₀ trace ++ (report s a).toList := by
  induction trace generalizing s₀ with
  | nil =>
    obtain rfl := h.eq_start
    cases next : step s a <;> simp [reported, next]
  | cons b rest ih =>
    have whole : Run step cond s₀ ([b] ++ rest) s := h
    obtain ⟨m, first, later⟩ := whole.split
    have single : Run step cond s₀ ([] ++ [b]) m := first
    obtain ⟨m', isStart, _, taken⟩ := single.last
    obtain rfl := isStart.eq_start
    simp only [List.cons_append, reported, taken, Option.map_some, Option.getD_some, ih later,
      List.append_assoc]

theorem run_of_exec {ok : σ → α → Bool} (sound : ∀ s a, ok s a = true → cond s a)
    (h : exec step ok s₀ trace = some s) : Run step cond s₀ trace s := by
  induction trace generalizing s₀ with
  | nil =>
    simp only [exec, Option.some.injEq] at h
    subst h
    exact .start
  | cons a rest ih =>
    simp only [exec] at h
    split at h
    next hok =>
      obtain ⟨s', hs, hrest⟩ := Option.bind_eq_some_iff.mp h
      exact .prepend (sound _ _ hok) hs (ih hrest)
    · cases h

/-- A run found by execution, ending in a state that passes a check. -/
theorem exists_run {ok : σ → α → Bool} {p : σ → Bool} (sound : ∀ s a, ok s a = true → cond s a)
    (h : (exec step ok s₀ trace).any p = true) : ∃ s, Run step cond s₀ trace s ∧ p s = true := by
  obtain ⟨s, hs, hp⟩ := (Option.any_eq_true _ _).mp h
  exact ⟨s, run_of_exec sound hs, hp⟩

theorem always_of_exec (h : exec step (fun _ _ => true) s₀ trace = some s) :
    Run step Always s₀ trace s :=
  run_of_exec (fun _ _ _ => trivial) h

theorem exists_always {p : σ → Bool} (h : (exec step (fun _ _ => true) s₀ trace).any p = true) :
    ∃ s, Run step Always s₀ trace s ∧ p s = true :=
  exists_run (fun _ _ _ => trivial) h

end Vidsilo.Library.Transition
