import Mathlib.Logic.Basic

/-!
# Programs of statements whose context may end

A program reads and writes a store one statement at a time. Its context may end between
two statements: from then on every statement fails and the program goes on with the
branch it has for that. Nothing here depends on the repository.
-/
namespace Vidsilo.Library

universe u v

inductive Program (σ : Type u) (α : Type v) where
  | ret (value : α)
  /-- On a live context: `set` writes, and `live` goes on with what it read before. -/
  | stmt (set : σ → σ) (live : σ → Program σ α) (dead : Program σ α)

namespace Program

variable {σ : Type u} {α β γ : Type v}

def bind : Program σ α → (α → Program σ β) → Program σ β
  | .ret value, k => k value
  | .stmt set live dead, k => .stmt set (fun s => (live s).bind k) (dead.bind k)

instance : Monad (Program σ) where
  pure := .ret
  bind := Program.bind

/-- One statement, with its result on a live context and its failure. -/
def statement (set : σ → σ) (result : σ → α) (failed : α) : Program σ α :=
  .stmt set (fun s => .ret (result s)) (.ret failed)

/-- The run whose context never ends. -/
def exec : Program σ α → σ → α × σ
  | .ret value, s => (value, s)
  | .stmt set live _, s => (live s).exec (set s)

@[simp] theorem exec_bind (p : Program σ α) (k : α → Program σ β) (s : σ) :
    (p >>= k).exec s = (k (p.exec s).1).exec (p.exec s).2 := by
  induction p generalizing s with
  | ret value => rfl
  | stmt set live dead ihLive _ => exact ihLive s (set s)

@[simp] theorem exec_statement (set : σ → σ) (result : σ → α) (failed : α) (s : σ) :
    (statement set result failed).exec s = (result s, set s) := rfl

@[simp] theorem exec_pure (a : α) (s : σ) : (pure a : Program σ α).exec s = (a, s) := rfl

/-- The next statement succeeds or fails, whatever became of the others. -/
def advance : Program σ α → Bool → σ → Option (Program σ α × σ)
  | .ret _, _, _ => none
  | .stmt set live _, true, s => some (live s, set s)
  | .stmt _ _ dead, false, s => some (dead, s)

theorem exec_advance {p p' : Program σ α} {s s' : σ} (taken : p.advance true s = some (p', s')) :
    p'.exec s' = p.exec s := by
  cases p with
  | ret value => cases taken
  | stmt set live dead =>
    cases taken
    rfl

/-- Whatever else is done to the store between two statements, as long as it keeps the invariant:
every statement keeps it, and the value is as promised. -/
def Guards (inv : σ → Prop) (post : α → Prop) : Program σ α → Prop
  | .ret a => post a
  | .stmt set live dead => (∀ s, inv s → inv (set s) ∧ (live s).Guards inv post) ∧ dead.Guards inv post

/-- The same, for statements that succeed only where they may; the value may be any. -/
def GuardsWhile (may : Program σ α → σ → Prop) (inv : σ → Prop) : Program σ α → Prop
  | .ret _ => True
  | .stmt set live dead =>
    (∀ s, inv s → may (.stmt set live dead) s → inv (set s) ∧ (live s).GuardsWhile may inv) ∧
      dead.GuardsWhile may inv

section Guarding
variable {inv : σ → Prop} {post : α → Prop} {may : Program σ α → σ → Prop}

theorem GuardsWhile.advance {p p' : Program σ α} {succeeds : Bool} {s s' : σ}
    (h : p.GuardsWhile may inv) (holds : inv s) (allowed : succeeds = true → may p s)
    (taken : p.advance succeeds s = some (p', s')) : inv s' ∧ p'.GuardsWhile may inv := by
  cases p with
  | ret value => cases taken
  | stmt set live dead =>
    cases succeeds with
    | true =>
      cases taken
      exact h.1 s holds (allowed rfl)
    | false =>
      cases taken
      exact ⟨holds, h.2⟩

theorem Guards.guardsWhile {p : Program σ α} (h : p.Guards inv post) : p.GuardsWhile may inv := by
  induction p with
  | ret value => trivial
  | stmt set live dead ihLive ihDead =>
    refine ⟨fun s holds _ => ?_, ihDead h.2⟩
    obtain ⟨kept, rest⟩ := h.1 s holds
    exact ⟨kept, ihLive s rest⟩

/-- Alone, when all its statements succeed. -/
theorem Guards.exec {p : Program σ α} (h : p.Guards inv post) {s : σ} (holds : inv s) :
    inv (p.exec s).2 ∧ post (p.exec s).1 := by
  induction p generalizing s with
  | ret value => exact ⟨holds, h⟩
  | stmt set live dead ihLive _ =>
    obtain ⟨kept, rest⟩ := h.1 s holds
    exact ihLive s rest kept

theorem guardsWhile_bind {between : β → Prop} {p : Program σ β} {k : β → Program σ α}
    (h : p.Guards inv between) (rest : ∀ b, between b → (k b).GuardsWhile may inv) :
    (p >>= k).GuardsWhile may inv := by
  induction p with
  | ret value => exact rest value h
  | stmt set live dead ihLive ihDead =>
    refine ⟨fun s holds _ => ?_, ihDead h.2⟩
    obtain ⟨kept, later⟩ := h.1 s holds
    exact ⟨kept, ihLive s later⟩

theorem guards_pure {a : α} (h : post a) : (pure a : Program σ α).Guards inv post := h

theorem guards_statement {set : σ → σ} {result : σ → α} {failed : α} (failing : post failed)
    (h : ∀ s, inv s → inv (set s) ∧ post (result s)) :
    (statement set result failed).Guards inv post := ⟨h, failing⟩

theorem guards_bind {between : β → Prop} {p : Program σ β} {k : β → Program σ α}
    (h : p.Guards inv between) (rest : ∀ b, between b → (k b).Guards inv post) :
    (p >>= k).Guards inv post := by
  induction p with
  | ret value => exact rest value h
  | stmt set live dead ihLive ihDead =>
    refine ⟨fun s holds => ?_, ihDead h.2⟩
    obtain ⟨kept, later⟩ := h.1 s holds
    exact ⟨kept, ihLive s later⟩

/-- A call that may fail, and the two ways to go on. -/
theorem guards_try {ε : Type v} {between : γ → Prop} {p : Program σ (Except ε γ)}
    {k : Except ε γ → Program σ α}
    (h : p.Guards inv fun res => ∀ a, res = .ok a → between a)
    (refused : ∀ err, (k (.error err)).Guards inv post)
    (go : ∀ a, between a → (k (.ok a)).Guards inv post) : (p >>= k).Guards inv post := by
  refine guards_bind h fun res promised => ?_
  cases res with
  | error err => exact refused err
  | ok a => exact go a (promised a rfl)

end Guarding

/-- Every statement relates the store before it to the store after it. -/
def Within (R : σ → σ → Prop) : Program σ α → Prop
  | .ret _ => True
  | .stmt set live dead => (∀ s, R s (set s)) ∧ (∀ s, (live s).Within R) ∧ dead.Within R

variable {R : σ → σ → Prop}

theorem within_pure (a : α) : (pure a : Program σ α).Within R := trivial

theorem within_statement {set : σ → σ} (result : σ → α) (failed : α) (h : ∀ s, R s (set s)) :
    (statement set result failed).Within R := ⟨h, fun _ => trivial, trivial⟩

theorem within_bind {p : Program σ α} {k : α → Program σ β} (h : p.Within R)
    (hk : ∀ a, (k a).Within R) : (p >>= k).Within R := by
  induction p with
  | ret value => exact hk value
  | stmt set live dead ihLive ihDead =>
    exact ⟨h.1, fun s => ihLive s (h.2.1 s), ihDead h.2.2⟩

/-- A call that may fail, and the two ways to go on. -/
theorem within_try {ε : Type v} {p : Program σ (Except ε α)} {k : Except ε α → Program σ β}
    (h : p.Within R) (refused : ∀ err, (k (.error err)).Within R)
    (go : ∀ a, (k (.ok a)).Within R) : (p >>= k).Within R := by
  apply within_bind h
  intro res
  cases res with
  | error err => exact refused err
  | ok a => exact go a

/-- Whatever else is done to the store between two statements, as long as it keeps `G`: every
statement on a live context relates what is left of the program after it, the store before
it and the store after it. -/
def Among (G : σ → Prop) (S : Program σ α → σ → σ → Prop) : Program σ α → Prop
  | .ret _ => True
  | .stmt set live _ => ∀ s, G s → S (live s) s (set s) ∧ (live s).Among G S

variable {G : σ → Prop} {S : Program σ α → σ → σ → Prop}

theorem among_pure (a : α) : (pure a : Program σ α).Among G S := trivial

theorem among_mono {S' : Program σ α → σ → σ → Prop} {p : Program σ α} (h : p.Among G S)
    (weaker : ∀ rest s s', S rest s s' → S' rest s s') : p.Among G S' := by
  induction p with
  | ret value => trivial
  | stmt set live dead ihLive _ =>
    intro s guard
    obtain ⟨related, rest⟩ := h s guard
    exact ⟨weaker _ _ _ related, ihLive s rest⟩

theorem among_of_within {p : Program σ α} (h : p.Within R)
    (related : ∀ rest s s', R s s' → S rest s s') : p.Among G S := by
  induction p with
  | ret value => trivial
  | stmt set live dead ihLive _ =>
    exact fun s _ => ⟨related _ _ _ (h.1 s), ihLive s (h.2.1 s)⟩

/-- What is done with the value at the end makes no statement. -/
theorem among_map {S' : Program σ β → σ → σ → Prop} {p : Program σ α} {f : α → β}
    (h : p.Among G S)
    (related : ∀ rest s s', S rest s s' → S' (rest >>= fun a => pure (f a)) s s') :
    (p >>= fun a => pure (f a)).Among G S' := by
  induction p with
  | ret value => trivial
  | stmt set live dead ihLive _ =>
    intro s guard
    obtain ⟨now, rest⟩ := h s guard
    exact ⟨related _ _ _ now, ihLive s rest⟩

end Program

/-- A program between two of its statements. -/
structure Thread (σ : Type u) (α : Type v) where
  rest : Program σ α
  live : Bool

namespace Thread

variable {σ : Type u} {α : Type v}

/-- The next statement; none once the program has returned. -/
def step (t : Thread σ α) (s : σ) : Option (Thread σ α × σ) :=
  match t.rest with
  | .ret _ => none
  | .stmt set live dead => if t.live then some (⟨live s, true⟩, set s) else some (⟨dead, false⟩, s)

variable {G : σ → Prop} {R : σ → σ → Prop} {S : Program σ α → σ → σ → Prop}
  {t t' : Thread σ α} {s s' : σ}

theorem step_within (h : t.rest.Within R) (taken : t.step s = some (t', s')) :
    (s' = s ∨ R s s') ∧ t'.rest.Within R := by
  obtain ⟨rest, live⟩ := t
  cases rest with
  | ret value => cases taken
  | stmt set onLive onDead =>
    cases live with
    | true =>
      cases taken
      exact ⟨.inr (h.1 s), h.2.1 s⟩
    | false =>
      cases taken
      exact ⟨.inl rfl, h.2.2⟩

theorem step_dead (dead : t.live = false) (taken : t.step s = some (t', s')) :
    s' = s ∧ t'.live = false := by
  obtain ⟨rest, live⟩ := t
  subst dead
  cases rest with
  | ret value => cases taken
  | stmt set onLive onDead =>
    cases taken
    exact ⟨rfl, rfl⟩

/-- What is promised of the statements to come; none once the context has ended. -/
def Keeps (G : σ → Prop) (S : Program σ α → σ → σ → Prop) (t : Thread σ α) : Prop :=
  t.live = true → t.rest.Among G S

theorem keeps_dead (dead : t.live = false) : t.Keeps G S := by
  intro live
  rw [dead] at live
  cases live

theorem Keeps.step (h : t.Keeps G S) (live : t.live = true) (guard : G s)
    (taken : t.step s = some (t', s')) : S t'.rest s s' ∧ t'.Keeps G S ∧ t'.live = true := by
  have among := h live
  obtain ⟨rest, alive⟩ := t
  cases live
  cases rest with
  | ret value => cases taken
  | stmt set onLive onDead =>
    cases taken
    obtain ⟨related, later⟩ := among s guard
    exact ⟨related, fun _ => later, rfl⟩

end Thread

end Vidsilo.Library
