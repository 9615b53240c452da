import Mathlib.Logic.Basic

/-!
# Programs whose state survives their errors

`EStateM` programs, of which an error keeps the state that it was raised in: relations between the
states before and after a program, however it ends, and the states in which it ends without an error.
Nothing here depends on the repository.
-/
namespace Vidsilo.Library.StateError

universe u

variable {ε ε' σ α β : Type u}

/-- The state in which a program ends, with or without an error. -/
def after (p : EStateM ε σ α) (s : σ) : σ :=
  match p.run s with
  | .ok _ s' => s'
  | .error _ s' => s'

def succeeds (p : EStateM ε σ α) (s : σ) : Bool :=
  match p.run s with
  | .ok _ _ => true
  | .error _ _ => false

/-- Fails with the error unless the condition holds. -/
def guardOr (c : Bool) (err : ε) : EStateM ε σ PUnit := if c then pure .unit else throw err

theorem run_bind_ok {p : EStateM ε σ α} {k : α → EStateM ε σ β} {a : α} {s s' : σ}
    (first : p.run s = .ok a s') : (p >>= k).run s = (k a).run s' := by
  rw [EStateM.run_bind, first]

theorem run_bind_error {p : EStateM ε σ α} {k : α → EStateM ε σ β} {err : ε} {s s' : σ}
    (first : p.run s = .error err s') : (p >>= k).run s = .error err s' := by
  rw [EStateM.run_bind, first]

/-- However the program ends, its last state is related to its first one. -/
def Within (R : σ → σ → Prop) (p : EStateM ε σ α) : Prop := ∀ s, R s (after p s)

variable {R : σ → σ → Prop}

theorem within_pure (refl : ∀ s, R s s) (a : α) : Within R (pure a : EStateM ε σ α) := fun s => refl s

theorem within_throw (refl : ∀ s, R s s) (err : ε) : Within R (throw err : EStateM ε σ α) :=
  fun s => refl s

theorem within_get (refl : ∀ s, R s s) : Within R (get : EStateM ε σ σ) := fun s => refl s

theorem within_modify {f : σ → σ} (h : ∀ s, R s (f s)) : Within R (modify f : EStateM ε σ PUnit) :=
  fun s => h s

theorem within_guardOr (refl : ∀ s, R s s) (c : Bool) (err : ε) :
    Within R (guardOr c err : EStateM ε σ PUnit) := by
  unfold guardOr
  split
  · exact within_pure refl _
  · exact within_throw refl err

theorem within_bind {p : EStateM ε σ α} {k : α → EStateM ε σ β}
    (trans : ∀ s₁ s₂ s₃, R s₁ s₂ → R s₂ s₃ → R s₁ s₃) (first : Within R p)
    (rest : ∀ a, Within R (k a)) : Within R (p >>= k) := by
  intro s
  have begun := first s
  unfold after at begun ⊢
  rw [EStateM.run_bind]
  cases run : p.run s with
  | error err s' => simpa only [run] using begun
  | ok a s' =>
    rw [run] at begun
    exact trans s s' _ begun (rest a s')

theorem within_adapt {p : EStateM ε σ α} {f : ε → ε'} (h : Within R p) :
    Within R (EStateM.adaptExcept f p) := by
  intro s
  have ended := h s
  unfold after at ended ⊢
  rw [EStateM.run_adaptExcept]
  cases run : p.run s with
  | error err s' => simpa only [run] using ended
  | ok a s' => simpa only [run] using ended

theorem within_ite {c : Prop} [Decidable c] {p q : EStateM ε σ α} (yes : Within R p)
    (no : Within R q) : Within R (if c then p else q) := by
  split
  · exact yes
  · exact no

variable {s : σ}

theorem succeeds_iff {p : EStateM ε σ α} :
    succeeds p s = true ↔ ∃ a, p.run s = .ok a (after p s) := by
  unfold succeeds after
  cases p.run s with
  | error err s' => simp
  | ok a s' => simp

theorem not_succeeds_iff {p : EStateM ε σ α} :
    succeeds p s = false ↔ ∃ err, p.run s = .error err (after p s) := by
  unfold succeeds after
  cases p.run s with
  | error err s' => simp
  | ok a s' => simp

@[simp] theorem succeeds_pure (a : α) : succeeds (pure a : EStateM ε σ α) s = true := rfl

@[simp] theorem succeeds_throw (err : ε) : succeeds (throw err : EStateM ε σ α) s = false := rfl

@[simp] theorem succeeds_modify (f : σ → σ) :
    succeeds (modify f : EStateM ε σ PUnit) s = true := rfl

@[simp] theorem succeeds_guardOr (c : Bool) (err : ε) :
    succeeds (guardOr c err : EStateM ε σ PUnit) s = c := by
  cases c <;> rfl

@[simp] theorem succeeds_get_bind (k : σ → EStateM ε σ β) :
    succeeds (get >>= k) s = succeeds (k s) s := rfl

@[simp] theorem succeeds_modify_bind (f : σ → σ) (k : PUnit → EStateM ε σ β) :
    succeeds (modify f >>= k) s = succeeds (k .unit) (f s) := rfl

@[simp] theorem succeeds_guardOr_bind (c : Bool) (err : ε) (k : PUnit → EStateM ε σ β) :
    succeeds (guardOr c err >>= k) s = (c && succeeds (k .unit) s) := by
  cases c <;> rfl

@[simp] theorem succeeds_adapt (f : ε → ε') (p : EStateM ε σ α) :
    succeeds (EStateM.adaptExcept f p) s = succeeds p s := by
  unfold succeeds
  rw [EStateM.run_adaptExcept]
  cases p.run s <;> rfl

/-- What follows a program succeeds or fails whatever the program returns. -/
theorem succeeds_bind_of {p : EStateM ε σ α} {k : α → EStateM ε σ β} {c : Bool}
    (rest : ∀ a, succeeds (k a) (after p s) = c) : succeeds (p >>= k) s = (succeeds p s && c) := by
  unfold succeeds after at *
  rw [EStateM.run_bind]
  cases run : p.run s with
  | error err s' => rfl
  | ok a s' =>
    rw [run] at rest
    exact (rest a).trans (Bool.true_and c).symm

theorem succeeds_seq {p : EStateM ε σ α} {q : EStateM ε σ β} :
    succeeds (p >>= fun _ => q) s = (succeeds p s && succeeds q (after p s)) :=
  succeeds_bind_of fun _ => rfl

theorem after_seq {p : EStateM ε σ α} {q : EStateM ε σ β} (ok : succeeds p s = true) :
    after (p >>= fun _ => q) s = after q (after p s) := by
  obtain ⟨a, run⟩ := succeeds_iff.mp ok
  unfold after
  rw [EStateM.run_bind, run]

@[simp] theorem after_guardOr (c : Bool) (err : ε) :
    after (guardOr c err : EStateM ε σ PUnit) s = s := by
  cases c <;> rfl

@[simp] theorem after_modify (f : σ → σ) : after (modify f : EStateM ε σ PUnit) s = f s := rfl

end Vidsilo.Library.StateError
