import Vidsilo.Library.Procedure

/-!
# Procedures that take turns over one world

A contract says which operations may be asked for and what their replies promise. A procedure meets
it when it asks for nothing else and its result is right for all replies that are promised. Where
every allowed operation keeps an invariant of the world and replies as promised, the invariant holds
in every order of steps of such procedures, and every result is right. Nothing here depends on the
repository.
-/
namespace Vidsilo.Library

open Transition

structure Contract (Op : Type → Type) where
  allowed : {β : Type} → Op β → Prop
  promises : {β : Type} → Op β → β → Prop

namespace Procedure

variable {Op : Type → Type} {α β ι σ : Type} {c : Contract Op} {good : α → Prop}

def Meets (c : Contract Op) (good : α → Prop) : Procedure Op α → Prop
  | .ret value => good value
  | .call op next => c.allowed op ∧ ∀ b, c.promises op b → (next b).Meets c good

end Procedure

namespace Contract

variable {Op : Type → Type} {α β ι σ Id τ : Type}

/-- An allowed operation keeps the invariant and replies as promised. -/
def Kept (c : Contract Op) (perform : {β : Type} → Op β → ι → σ → Option (β × σ)) (inv : σ → Prop) :
    Prop :=
  ∀ {β : Type} (op : Op β) (i : ι) (s s' : σ) (b : β), inv s → c.allowed op →
    perform op i s = some (b, s') → inv s' ∧ c.promises op b

variable {c : Contract Op} {perform : {β : Type} → Op β → ι → σ → Option (β × σ)} {inv : σ → Prop}

theorem Kept.advance (kept : c.Kept perform inv) {good : α → Prop} {p p' : Procedure Op α} {i : ι}
    {s s' : σ} (h : inv s) (meets : p.Meets c good) (taken : p.advance perform i s = some (p', s')) :
    inv s' ∧ p'.Meets c good := by
  cases p with
  | ret value => cases taken
  | call op next =>
    obtain ⟨b, performed, rfl⟩ := Procedure.advance_call taken
    obtain ⟨still, promised⟩ := kept op i s s' b h meets.1 performed
    exact ⟨still, meets.2 b promised⟩

theorem Kept.run (kept : c.Kept perform inv) {usual : ι} {good : α → Prop} {p : Procedure Op α}
    {outcomes : List ι} {s s' : σ} {a : α} (h : inv s) (meets : p.Meets c good)
    (run : p.run perform usual outcomes s = some (a, s')) : inv s' ∧ good a := by
  induction p generalizing outcomes s with
  | ret value =>
    cases run
    exact ⟨h, meets⟩
  | call op next ih =>
    obtain ⟨b, m, first, rest⟩ := Procedure.run_call run
    obtain ⟨still, promised⟩ := kept op _ s m b h meets.1 first
    exact ih b still (meets.2 b promised) rest

/-- Whatever the order of their steps, calls that meet the contract keep the invariant, and what
each one returns is right for its request. -/
theorem Kept.pool [DecidableEq Id] (kept : c.Kept perform inv) {body : τ → Procedure Op α}
    {good : τ → α → Prop} (bodies : ∀ request, (body request).Meets c (good request))
    {cond : Pool Id τ Op α σ → Pool.Action Id τ ι → Prop} {s : σ} {trace : List (Pool.Action Id τ ι)}
    {p : Pool Id τ Op α σ} (init : inv s)
    (run : Run (Pool.step body fun _ q i s => q.advance perform i s) cond (Pool.idle s) trace p) :
    inv p.world ∧ ∀ id call, p.calls id = some call → call.rest.Meets c (good call.request) := by
  refine run.invariant (fun p => inv p.world ∧
    ∀ id call, p.calls id = some call → call.rest.Meets c (good call.request))
    ⟨init, fun _ _ none => nomatch none⟩ ?_
  rintro p a p' ⟨holds, calls⟩ - taken
  cases a with
  | start id request =>
    obtain ⟨-, rfl⟩ := Pool.start_cases taken
    refine ⟨holds, Pool.forall_setCall ?_ fun i call _ found => calls i call found⟩
    rintro call ⟨⟩
    exact bodies request
  | advance id outcome =>
    obtain ⟨call, rest, world, found, moved, rfl⟩ := Pool.advance_cases taken
    obtain ⟨still, later⟩ := kept.advance holds (calls id call found) moved
    refine ⟨still, Pool.forall_setCall (p := p) ?_ fun i call _ found => calls i call found⟩
    rintro call' ⟨⟩
    exact later
  | finish id =>
    obtain ⟨request, value, found, rfl⟩ := Pool.finish_cases taken
    exact ⟨holds, Pool.forall_setCall (fun _ none => nomatch none) fun i call _ found => calls i call found⟩

end Contract

end Vidsilo.Library
