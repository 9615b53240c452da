import Vidsilo.Library.Transition

/-!
# Procedures over typed operations

A procedure asks for one operation at a time and goes on with its reply. What an
operation does to the world and what it replies depends on an outcome that the
environment chooses, such as a failure; an operation that gives nothing blocks, or ends
the process. A procedure runs alone (`run`), or as one call of a pool whose calls take
turns. Nothing here depends on the repository.
-/
namespace Vidsilo.Library

inductive Procedure (Op : Type → Type) (α : Type) : Type 1 where
  | ret (value : α)
  | call {β : Type} (op : Op β) (next : β → Procedure Op α)

namespace Procedure

variable {Op : Type → Type} {α β ι σ : Type}

def bind : Procedure Op α → (α → Procedure Op β) → Procedure Op β
  | .ret value, k => k value
  | .call op next, k => .call op fun b => (next b).bind k

instance : Monad (Procedure Op) where
  pure := .ret
  bind := Procedure.bind

def ask (op : Op β) : Procedure Op β := .call op .ret

@[simp] theorem pure_eq (a : α) : (pure a : Procedure Op α) = .ret a := rfl

@[simp] theorem ask_bind (op : Op β) (k : β → Procedure Op α) : (ask op >>= k) = .call op k := rfl

@[simp] theorem ret_bind (a : α) (k : α → Procedure Op β) :
    ((.ret a : Procedure Op α) >>= k) = k a := rfl

@[simp] theorem call_bind {γ : Type} (op : Op γ) (next : γ → Procedure Op α)
    (k : α → Procedure Op β) : (.call op next >>= k) = .call op fun c => next c >>= k := rfl

theorem bind_assoc {γ : Type} (p : Procedure Op α) (k : α → Procedure Op β)
    (k' : β → Procedure Op γ) : (p >>= k) >>= k' = p >>= fun a => k a >>= k' := by
  induction p with
  | ret value => rfl
  | call op next ih => exact congrArg (Procedure.call op) (funext fun b => ih b)

section Alone
variable (perform : {β : Type} → Op β → ι → σ → Option (β × σ)) (usual : ι)

/-- The outcomes of the operations in order, and the usual one when there are no more. -/
def run : Procedure Op α → List ι → σ → Option (α × σ)
  | .ret value, _, s => some (value, s)
  | .call op next, outcomes, s =>
    (perform op (outcomes.headD usual) s).bind fun r => (next r.1).run outcomes.tail r.2

/-- Every operation performed passes the check. -/
def check (ok : {β : Type} → Op β → ι → σ → Bool) : Procedure Op α → List ι → σ → Bool
  | .ret _, _, _ => true
  | .call op next, outcomes, s =>
    ok op (outcomes.headD usual) s &&
      match perform op (outcomes.headD usual) s with
      | none => true
      | some r => (next r.1).check ok outcomes.tail r.2

variable {perform} {usual}

theorem run_call {op : Op β} {next : β → Procedure Op α} {outcomes : List ι} {s s' : σ} {a : α}
    (h : (Procedure.call op next).run perform usual outcomes s = some (a, s')) :
    ∃ b m, perform op (outcomes.headD usual) s = some (b, m) ∧
      (next b).run perform usual outcomes.tail m = some (a, s') := by
  obtain ⟨⟨b, m⟩, first, rest⟩ := Option.bind_eq_some_iff.mp h
  exact ⟨b, m, first, rest⟩

/-- What every operation that passes the check keeps, a run of such operations keeps. -/
theorem run_keeps {ok : {β : Type} → Op β → ι → σ → Bool} {inv : σ → Prop}
    (keeps : ∀ {β : Type} (op : Op β) (i : ι) (s : σ) (b : β) (s' : σ), inv s →
      ok op i s = true → perform op i s = some (b, s') → inv s')
    {p : Procedure Op α} {outcomes : List ι} {s s' : σ} {a : α} (init : inv s)
    (checked : p.check perform usual ok outcomes s = true)
    (h : p.run perform usual outcomes s = some (a, s')) : inv s' := by
  induction p generalizing outcomes s with
  | ret value =>
    simp only [run, Option.some.injEq, Prod.mk.injEq] at h
    exact h.2 ▸ init
  | call op next ih =>
    obtain ⟨b, m, first, rest⟩ := run_call h
    simp only [check, first, Bool.and_eq_true] at checked
    exact ih b (keeps op _ s b m init checked.1 first) checked.2 rest

/-- A run of a sequence is a run of its first part and one of the rest. -/
theorem run_bind {p : Procedure Op α} {k : α → Procedure Op β} {outcomes : List ι} {s s' : σ}
    {b : β} (h : (p >>= k).run perform usual outcomes s = some (b, s')) :
    ∃ a m later, p.run perform usual outcomes s = some (a, m) ∧
      (k a).run perform usual later m = some (b, s') := by
  induction p generalizing outcomes s with
  | ret value => exact ⟨value, s, outcomes, rfl, h⟩
  | call op next ih =>
    obtain ⟨c, m, first, rest⟩ := run_call h
    obtain ⟨a, m', later, run, final⟩ := ih c rest
    refine ⟨a, m', later, ?_, final⟩
    rw [Procedure.run, first]
    exact run

end Alone

/-- The outcome of every operation is the one that is chosen for it. -/
def follow (perform : {β : Type} → Op β → ι → σ → Option (β × σ))
    (choose : {β : Type} → Op β → ι) : Procedure Op α → σ → Option (α × σ)
  | .ret value, s => some (value, s)
  | .call op next, s =>
    (perform op (choose op) s).bind fun r => (next r.1).follow perform choose r.2

/-- What holds of the first operation, if there is one. -/
def Starts (p : {β : Type} → Op β → Prop) : Procedure Op α → Prop
  | .ret _ => True
  | .call op _ => p op

theorem Starts.mono {p q : {β : Type} → Op β → Prop} (sub : ∀ {β : Type} (op : Op β), p op → q op)
    {x : Procedure Op α} (h : x.Starts p) : x.Starts q := by
  cases x with
  | ret value => trivial
  | call op next => exact sub op h

instance (p : {β : Type} → Op β → Prop) [d : ∀ {β : Type} (op : Op β), Decidable (p op)] :
    (x : Procedure Op α) → Decidable (x.Starts p)
  | .ret _ => isTrue trivial
  | .call op _ => d op

/-- There is a first operation, and it meets the condition. -/
def asks (p : {β : Type} → Op β → Bool) : Procedure Op α → Bool
  | .ret _ => false
  | .call op _ => p op

def Uses (allowed : {β : Type} → Op β → Prop) : Procedure Op α → Prop
  | .ret _ => True
  | .call op next => allowed op ∧ ∀ b, (next b).Uses allowed

theorem uses_bind {allowed : {β : Type} → Op β → Prop} {p : Procedure Op α}
    {k : α → Procedure Op β} (h : p.Uses allowed) (rest : ∀ a, (k a).Uses allowed) :
    (p >>= k).Uses allowed := by
  induction p with
  | ret value => exact rest value
  | call op next ih => exact ⟨h.1, fun b => ih b (h.2 b)⟩

theorem uses_mono {allowed allowed' : {β : Type} → Op β → Prop} {p : Procedure Op α}
    (h : p.Uses allowed) (weaker : ∀ {β : Type} (op : Op β), allowed op → allowed' op) :
    p.Uses allowed' := by
  induction p with
  | ret value => trivial
  | call op next ih => exact ⟨weaker op h.1, fun b => ih b (h.2 b)⟩

/-- What every allowed operation keeps, a run of allowed operations keeps. -/
theorem run_uses {perform : {β : Type} → Op β → ι → σ → Option (β × σ)} {usual : ι}
    {allowed : {β : Type} → Op β → Prop} {inv : σ → Prop}
    (keeps : ∀ {β : Type} (op : Op β) (i : ι) (s : σ) (b : β) (s' : σ), inv s → allowed op →
      perform op i s = some (b, s') → inv s')
    {p : Procedure Op α} {outcomes : List ι} {s s' : σ} {a : α} (init : inv s)
    (uses : p.Uses allowed) (h : p.run perform usual outcomes s = some (a, s')) : inv s' := by
  induction p generalizing outcomes s with
  | ret value =>
    simp only [run, Option.some.injEq, Prod.mk.injEq] at h
    exact h.2 ▸ init
  | call op next ih =>
    obtain ⟨b, m, first, rest⟩ := run_call h
    exact ih b (keeps op _ s b m init uses.1 first) (uses.2 b) rest

/-- The same for replies that are to be expected. -/
def UsesGiven (allowed : {β : Type} → Op β → Prop) (gets : {β : Type} → Op β → β → Prop) :
    Procedure Op α → Prop
  | .ret _ => True
  | .call op next => allowed op ∧ ∀ b, gets op b → (next b).UsesGiven allowed gets

def lift {Op' : Type → Type} (f : {β : Type} → Op β → Op' β) : Procedure Op α → Procedure Op' α
  | .ret value => .ret value
  | .call op next => .call (f op) fun b => (next b).lift f

theorem uses_lift {Op' : Type → Type} {f : {β : Type} → Op β → Op' β}
    {allowed : {β : Type} → Op' β → Prop} (h : ∀ {β : Type} (op : Op β), allowed (f op))
    (p : Procedure Op α) : (p.lift f).Uses allowed := by
  induction p with
  | ret value => trivial
  | call op next ih => exact ⟨h op, ih⟩

/-- Whatever passes the check on the way, the result and the last state meet `post`. -/
def Wp (perform : {β : Type} → Op β → ι → σ → Option (β × σ))
    (ok : {β : Type} → Op β → ι → σ → Bool) (post : α → σ → Prop) : Procedure Op α → σ → Prop
  | .ret value, s => post value s
  | .call op next, s => ∀ i b s', ok op i s = true → perform op i s = some (b, s') →
      (next b).Wp perform ok post s'

section Postconditions
variable {perform : {β : Type} → Op β → ι → σ → Option (β × σ)}
  {ok : {β : Type} → Op β → ι → σ → Bool} {post : α → σ → Prop}

theorem wp_bind {post : β → σ → Prop} {p : Procedure Op α} {k : α → Procedure Op β} {s : σ}
    (h : p.Wp perform ok (fun a s' => (k a).Wp perform ok post s') s) :
    (p >>= k).Wp perform ok post s := by
  induction p generalizing s with
  | ret value => exact h
  | call op next ih => exact fun i b s' pass taken => ih b (h i b s' pass taken)

theorem wp_mono {post' : α → σ → Prop} {p : Procedure Op α} {s : σ}
    (h : p.Wp perform ok post s) (weaker : ∀ a s', post a s' → post' a s') :
    p.Wp perform ok post' s := by
  induction p generalizing s with
  | ret value => exact weaker value s h
  | call op next ih => exact fun i b s' pass taken => ih b (h i b s' pass taken)

theorem wp_any {p : Procedure Op α} {s : σ} (h : ∀ a s', post a s') :
    p.Wp perform ok post s := by
  induction p generalizing s with
  | ret value => exact h value s
  | call op next ih => exact fun _ b _ _ _ => ih b

theorem wp_run {usual : ι} {p : Procedure Op α} {outcomes : List ι} {s s' : σ} {a : α}
    (h : p.Wp perform ok post s) (checked : p.check perform usual ok outcomes s = true)
    (run : p.run perform usual outcomes s = some (a, s')) : post a s' := by
  induction p generalizing outcomes s with
  | ret value =>
    simp only [Procedure.run, Option.some.injEq, Prod.mk.injEq] at run
    obtain ⟨rfl, rfl⟩ := run
    exact h
  | call op next ih =>
    obtain ⟨b, m, first, rest⟩ := run_call run
    simp only [check, first, Bool.and_eq_true] at checked
    exact ih b (h _ b m checked.1 first) checked.2 rest

theorem check_always {usual : ι} (p : Procedure Op α) (outcomes : List ι) (s : σ) :
    p.check perform usual (fun _ _ _ => true) outcomes s = true := by
  induction p generalizing outcomes s with
  | ret value => rfl
  | call op next ih =>
    simp only [check, Bool.true_and]
    split
    · rfl
    · exact ih _ _ _

/-- When every outcome is the usual one, so is that of every operation. -/
theorem check_usual [DecidableEq ι] {usual : ι} {outcomes : List ι}
    (h : ∀ o ∈ outcomes, o = usual) (p : Procedure Op α) (s : σ) :
    p.check perform usual (fun _ o _ => o = usual) outcomes s = true := by
  induction p generalizing outcomes s with
  | ret value => rfl
  | call op next ih =>
    have first : outcomes.headD usual = usual := by
      cases outcomes with
      | nil => rfl
      | cons o rest => exact h o List.mem_cons_self
    simp only [check, first, decide_true, Bool.true_and]
    split
    · rfl
    · exact ih _ (fun o mem => h o (List.mem_of_mem_tail mem)) _

end Postconditions

/-- The first operation of a procedure. -/
def advance (perform : {β : Type} → Op β → ι → σ → Option (β × σ)) :
    Procedure Op α → ι → σ → Option (Procedure Op α × σ)
  | .ret _, _, _ => none
  | .call op next, i, s => (perform op i s).map fun r => (next r.1, r.2)

theorem advance_call {perform : {β : Type} → Op β → ι → σ → Option (β × σ)} {op : Op β}
    {next : β → Procedure Op α} {i : ι} {s s' : σ} {p : Procedure Op α}
    (h : (Procedure.call op next).advance perform i s = some (p, s')) :
    ∃ b, perform op i s = some (b, s') ∧ p = next b := by
  obtain ⟨⟨b, m⟩, taken, same⟩ := Option.map_eq_some_iff.mp h
  obtain ⟨rfl, rfl⟩ := Prod.mk.inj same
  exact ⟨b, taken, rfl⟩

theorem follow_advance {perform : {β : Type} → Op β → ι → σ → Option (β × σ)}
    {choose : {β : Type} → Op β → ι} {p p' : Procedure Op α} {i : ι} {s s' : σ}
    (chosen : p.Starts fun op => i = choose op) (taken : p.advance perform i s = some (p', s')) :
    p.follow perform choose s = p'.follow perform choose s' := by
  cases p with
  | ret value => cases taken
  | call op next =>
    obtain ⟨b, performed, rfl⟩ := advance_call taken
    obtain rfl : i = choose op := chosen
    rw [follow, performed]
    rfl

/-- The first operations of a procedure, with these outcomes. -/
def steps (perform : {β : Type} → Op β → ι → σ → Option (β × σ)) :
    Procedure Op α → List ι → σ → Option (Procedure Op α × σ)
  | p, [], s => some (p, s)
  | p, i :: rest, s => (p.advance perform i s).bind fun r => r.1.steps perform rest r.2

theorem steps_concat {perform : {β : Type} → Op β → ι → σ → Option (β × σ)}
    {p m p' : Procedure Op α} {outcomes : List ι} {i : ι} {s t s' : σ}
    (h : p.steps perform outcomes s = some (m, t)) (taken : m.advance perform i t = some (p', s')) :
    p.steps perform (outcomes ++ [i]) s = some (p', s') := by
  induction outcomes generalizing p s with
  | nil =>
    cases h
    rw [List.nil_append, steps, taken]
    rfl
  | cons j rest ih =>
    obtain ⟨⟨q, u⟩, first, later⟩ := Option.bind_eq_some_iff.mp h
    rw [List.cons_append, steps, first]
    exact ih later

theorem uses_advance {perform : {β : Type} → Op β → ι → σ → Option (β × σ)}
    {allowed : {β : Type} → Op β → Prop} {p p' : Procedure Op α} {i : ι} {s s' : σ}
    (h : p.Uses allowed) (taken : p.advance perform i s = some (p', s')) : p'.Uses allowed := by
  cases p with
  | ret value => cases taken
  | call op next =>
    obtain ⟨b, _, rfl⟩ := advance_call taken
    exact h.2 b

theorem uses_steps {perform : {β : Type} → Op β → ι → σ → Option (β × σ)}
    {allowed : {β : Type} → Op β → Prop} {p p' : Procedure Op α} {outcomes : List ι} {s s' : σ}
    (h : p.Uses allowed) (run : p.steps perform outcomes s = some (p', s')) : p'.Uses allowed := by
  induction outcomes generalizing p s with
  | nil =>
    cases run
    exact h
  | cons i rest ih =>
    obtain ⟨⟨q, t⟩, first, later⟩ := Option.bind_eq_some_iff.mp run
    exact ih (uses_advance h first) later

theorem wp_steps {perform : {β : Type} → Op β → ι → σ → Option (β × σ)} {post : α → σ → Prop}
    {p p' : Procedure Op α} {outcomes : List ι} {s s' : σ}
    (h : p.Wp perform (fun _ _ _ => true) post s)
    (run : p.steps perform outcomes s = some (p', s')) :
    p'.Wp perform (fun _ _ _ => true) post s' := by
  induction outcomes generalizing p s with
  | nil =>
    cases run
    exact h
  | cons i rest ih =>
    obtain ⟨⟨q, t⟩, first, later⟩ := Option.bind_eq_some_iff.mp run
    cases p with
    | ret value => cases first
    | call op next =>
      obtain ⟨b, taken, rfl⟩ := advance_call first
      exact ih (h i b t rfl taken) later

end Procedure

structure Call (τ : Type) (Op : Type → Type) (α : Type) : Type 1 where
  request : τ
  rest : Procedure Op α

structure Pool (Id τ : Type) (Op : Type → Type) (α σ : Type) : Type 1 where
  world : σ
  calls : Id → Option (Call τ Op α)

namespace Pool

variable {Id τ ι α σ : Type} {Op : Type → Type} [DecidableEq Id]

inductive Action (Id τ ι : Type) where
  | start (id : Id) (request : τ)
  | advance (id : Id) (outcome : ι)
  | finish (id : Id)

def setCall (p : Pool Id τ Op α σ) (id : Id) (call : Option (Call τ Op α)) : Pool Id τ Op α σ :=
  { p with calls := fun i => if i = id then call else p.calls i }

def idle (s : σ) : Pool Id τ Op α σ := ⟨s, fun _ => none⟩

variable (body : τ → Procedure Op α)
  (move : Id → Procedure Op α → ι → σ → Option (Procedure Op α × σ))

/-- A call starts, takes its next step, or returns. -/
def step (p : Pool Id τ Op α σ) : Action Id τ ι → Option (Pool Id τ Op α σ)
  | .start id request =>
    if (p.calls id).isNone then some (p.setCall id (some ⟨request, body request⟩)) else none
  | .advance id outcome =>
    (p.calls id).bind fun call =>
      (move id call.rest outcome p.world).map fun r =>
        { p.setCall id (some ⟨call.request, r.1⟩) with world := r.2 }
  | .finish id =>
    (p.calls id).bind fun call =>
      match call.rest with
      | .ret _ => some (p.setCall id none)
      | .call _ _ => none

variable {body move}

@[simp] theorem setCall_world (p : Pool Id τ Op α σ) (id : Id) (call : Option (Call τ Op α)) :
    (p.setCall id call).world = p.world := rfl

@[simp] theorem setCall_self (p : Pool Id τ Op α σ) (id : Id) (call : Option (Call τ Op α)) :
    (p.setCall id call).calls id = call := if_pos rfl

theorem setCall_ne (p : Pool Id τ Op α σ) {id i : Id} (call : Option (Call τ Op α)) (h : i ≠ id) :
    (p.setCall id call).calls i = p.calls i := if_neg h

/-- What holds of a new call, and of the others, holds of all. -/
theorem forall_setCall {p : Pool Id τ Op α σ} {id : Id} {call : Option (Call τ Op α)}
    {holds : Id → Call τ Op α → Prop} (fits : ∀ c, call = some c → holds id c)
    (others : ∀ i c, i ≠ id → p.calls i = some c → holds i c) (i : Id) (c : Call τ Op α)
    (found : (p.setCall id call).calls i = some c) : holds i c := by
  by_cases here : i = id
  · subst here
    exact fits c ((setCall_self p i call).symm.trans found)
  · exact others i c here ((setCall_ne p call here).symm.trans found)

theorem start_cases {p p' : Pool Id τ Op α σ} {id : Id} {request : τ}
    (h : p.step body move (.start id request : Action Id τ ι) = some p') :
    p.calls id = none ∧ p' = p.setCall id (some ⟨request, body request⟩) := by
  simp only [step] at h
  split at h
  · next free => exact ⟨Option.isNone_iff_eq_none.mp free, (Option.some.inj h).symm⟩
  · cases h

theorem advance_cases {p p' : Pool Id τ Op α σ} {id : Id} {outcome : ι}
    (h : p.step body move (.advance id outcome) = some p') :
    ∃ call rest world, p.calls id = some call ∧
      move id call.rest outcome p.world = some (rest, world) ∧
      p' = { p.setCall id (some ⟨call.request, rest⟩) with world := world } := by
  obtain ⟨call, found, h⟩ := Option.bind_eq_some_iff.mp h
  obtain ⟨⟨rest, world⟩, moved, same⟩ := Option.map_eq_some_iff.mp h
  exact ⟨call, rest, world, found, moved, same.symm⟩

theorem finish_cases {p p' : Pool Id τ Op α σ} {id : Id}
    (h : p.step body move (.finish id : Action Id τ ι) = some p') :
    ∃ request value, p.calls id = some ⟨request, .ret value⟩ ∧ p' = p.setCall id none := by
  obtain ⟨⟨request, rest⟩, found, h⟩ := Option.bind_eq_some_iff.mp h
  cases rest with
  | ret value => exact ⟨request, value, found, (Option.some.inj h).symm⟩
  | call op next => cases h

/-- A call that was never started is not in progress. -/
theorem calls_none {cond : Pool Id τ Op α σ → Action Id τ ι → Prop} {s : σ}
    {trace : List (Action Id τ ι)} {p : Pool Id τ Op α σ} {id : Id}
    (h : Transition.Run (step body move) cond (idle s) trace p)
    (never : ∀ request, .start id request ∉ trace) : p.calls id = none := by
  refine h.trace_invariant (fun trace p =>
    (∀ request, .start id request ∉ trace) → p.calls id = none) (fun _ => rfl) ?_ never
  intro trace p a p' before _ taken never
  have old : p.calls id = none := before fun request mem =>
    never request (List.mem_append_left _ mem)
  cases a with
  | start i request =>
    have other : id ≠ i := by
      rintro rfl
      exact never request (by simp)
    obtain ⟨_, rfl⟩ := start_cases taken
    exact (setCall_ne p _ other).trans old
  | advance i outcome =>
    obtain ⟨call, rest, world, found, _, rfl⟩ := advance_cases taken
    have other : id ≠ i := by
      rintro rfl
      exact nomatch found.symm.trans old
    exact (setCall_ne p _ other).trans old
  | finish i =>
    obtain ⟨request, value, found, rfl⟩ := finish_cases taken
    have other : id ≠ i := by
      rintro rfl
      exact nomatch found.symm.trans old
    exact (setCall_ne p _ other).trans old

end Pool

end Vidsilo.Library
