import Vidsilo.Library.Procedure

/-!
# Procedures behind layers

A layer does each operation of a procedure by a procedure over the operations below, and keeps a
state of its own. A procedure behind a layer runs as it would over a machine that holds both
states (`eval_through`), so what is proved of one operation, an invariant or a simulation, holds of
the whole procedure, however many layers there are. Every operation has one outcome here, or stops
the procedure. Nothing depends on the repository.
-/
namespace Vidsilo.Library.Procedure

variable {Op Op' : Type → Type} {α β σ σ' τ : Type}

def eval (perform : {β : Type} → Op β → σ → Option (β × σ)) : Procedure Op α → σ → Option (α × σ)
  | .ret value, s => some (value, s)
  | .call op next, s => (perform op s).bind fun r => (next r.1).eval perform r.2

/-- The last state, and the result unless an operation stopped the procedure. -/
def last (perform : {β : Type} → Op β → σ → Option (β × σ)) : Procedure Op α → σ → Option α × σ
  | .ret value, s => (some value, s)
  | .call op next, s =>
    match perform op s with
    | none => (none, s)
    | some r => (next r.1).last perform r.2

/-- Every operation that is reached passes the check. -/
def passes (perform : {β : Type} → Op β → σ → Option (β × σ)) (ok : {β : Type} → Op β → σ → Bool) :
    Procedure Op α → σ → Bool
  | .ret _, _ => true
  | .call op next, s => ok op s &&
      match perform op s with
      | none => true
      | some r => (next r.1).passes perform ok r.2

def through (layer : {β : Type} → Op β → τ → Procedure Op' (β × τ)) :
    Procedure Op α → τ → Procedure Op' (α × τ)
  | .ret value, t => .ret (value, t)
  | .call op next, t => layer op t >>= fun r => (next r.1).through layer r.2

/-- What an operation does to the state of the layer and to the one below. -/
def stack (layer : {β : Type} → Op β → τ → Procedure Op' (β × τ))
    (perform : {β : Type} → Op' β → σ → Option (β × σ)) {β : Type} (op : Op β) (s : τ × σ) :
    Option (β × τ × σ) :=
  ((layer op s.1).eval perform s.2).map fun r => (r.1.1, r.1.2, r.2)

/-- A caught operation ends the procedure, and another one goes on. -/
def rescue (caught : {β : Type} → Op β → Bool) :
    Procedure Op α → Procedure Op α → Procedure Op α
  | .ret value, _ => .ret value
  | .call op next, instead =>
    if caught op then instead else .call op fun b => (next b).rescue caught instead

theorem uses_all {allowed : {β : Type} → Op β → Prop} (h : ∀ {β : Type} (op : Op β), allowed op)
    (p : Procedure Op α) : p.Uses allowed := by
  induction p with
  | ret value => trivial
  | call op next ih => exact ⟨h op, ih⟩

theorem passes_all {perform : {β : Type} → Op β → σ → Option (β × σ)} (p : Procedure Op α) (s : σ) :
    p.passes perform (fun _ _ => true) s = true := by
  induction p generalizing s with
  | ret value => rfl
  | call op next ih =>
    rw [passes, Bool.true_and]
    split
    · rfl
    · exact ih _ _

section Eval
variable {perform : {β : Type} → Op β → σ → Option (β × σ)}

theorem eval_call {op : Op β} {next : β → Procedure Op α} {s s' : σ} {b : β}
    (h : perform op s = some (b, s')) :
    (Procedure.call op next).eval perform s = (next b).eval perform s' := by
  rw [eval, h, Option.bind_some]

theorem eval_bind (p : Procedure Op α) (k : α → Procedure Op β) (s : σ) :
    (p >>= k).eval perform s = (p.eval perform s).bind fun r => (k r.1).eval perform r.2 := by
  induction p generalizing s with
  | ret value => rfl
  | call op next ih =>
    rw [call_bind, eval, eval, Option.bind_assoc]
    exact congrArg _ (funext fun r => ih r.1 r.2)

/-- A procedure of operations that are always performed comes to its end. -/
theorem eval_isSome {allowed : {β : Type} → Op β → Prop} {p : Procedure Op α}
    (total : ∀ {β : Type} (op : Op β) (s : σ), allowed op → (perform op s).isSome)
    (uses : p.Uses allowed) (s : σ) : (p.eval perform s).isSome := by
  induction p generalizing s with
  | ret value => rfl
  | call op next ih =>
    obtain ⟨r, taken⟩ := Option.isSome_iff_exists.mp (total op s uses.1)
    rw [eval_call taken]
    exact ih r.1 (uses.2 r.1) r.2

/-- What every allowed operation keeps, a procedure of them keeps. -/
theorem eval_keeps {allowed : {β : Type} → Op β → Prop} (inv : σ → Prop) {p : Procedure Op α}
    {s s' : σ} {a : α}
    (keeps : ∀ {β : Type} (op : Op β) (s s' : σ) (b : β), allowed op → inv s →
      perform op s = some (b, s') → inv s')
    (uses : p.Uses allowed) (init : inv s) (h : p.eval perform s = some (a, s')) : inv s' := by
  induction p generalizing s with
  | ret value =>
    cases h
    exact init
  | call op next ih =>
    obtain ⟨⟨b, m⟩, taken, rest⟩ := Option.bind_eq_some_iff.mp h
    exact ih b (uses.2 b) (keeps op s m b uses.1 init taken) rest

/-- As long as an operation gives the same over two machines and keeps their states related, so
does a procedure. -/
theorem eval_simulates {perform' : {β : Type} → Op β → σ' → Option (β × σ')}
    {ok : {β : Type} → Op β → σ → Bool} {rel : σ → σ' → Prop}
    (sim : ∀ {β : Type} (op : Op β) (s m : σ) (s' : σ') (b : β), rel s s' → ok op s = true →
      perform op s = some (b, m) → ∃ m', perform' op s' = some (b, m') ∧ rel m m')
    {p : Procedure Op α} {s m : σ} {s' : σ'} {a : α} (related : rel s s')
    (passed : p.passes perform ok s = true) (h : p.eval perform s = some (a, m)) :
    ∃ m', p.eval perform' s' = some (a, m') ∧ rel m m' := by
  induction p generalizing s s' with
  | ret value =>
    cases h
    exact ⟨s', rfl, related⟩
  | call op next ih =>
    obtain ⟨⟨b, n⟩, taken, rest⟩ := Option.bind_eq_some_iff.mp h
    simp only [passes, taken, Bool.and_eq_true] at passed
    obtain ⟨n', taken', still⟩ := sim op s n s' b related passed.1 taken
    obtain ⟨m', run, final⟩ := ih b still passed.2 rest
    exact ⟨m', (eval_call taken').trans run, final⟩

/-- The same for a procedure that may be stopped. -/
theorem last_simulates {perform' : {β : Type} → Op β → σ' → Option (β × σ')} {rel : σ → σ' → Prop}
    (stops : ∀ {β : Type} (op : Op β) (s : σ) (s' : σ'), rel s s' → perform op s = none →
      perform' op s' = none)
    (sim : ∀ {β : Type} (op : Op β) (s m : σ) (s' : σ') (b : β), rel s s' →
      perform op s = some (b, m) → ∃ m', perform' op s' = some (b, m') ∧ rel m m')
    (p : Procedure Op α) {s : σ} {s' : σ'} (related : rel s s') :
    (p.last perform' s').1 = (p.last perform s).1 ∧
      rel (p.last perform s).2 (p.last perform' s').2 := by
  induction p generalizing s s' with
  | ret value => exact ⟨rfl, related⟩
  | call op next ih =>
    cases taken : perform op s with
    | none =>
      simp only [last, taken, stops op s s' related taken]
      exact ⟨trivial, related⟩
    | some r =>
      obtain ⟨m', taken', still⟩ := sim op s r.2 s' r.1 related taken
      simp only [last, taken, taken']
      exact ih r.1 still

/-- Where exactly the caught operations stop a procedure, the other one goes on from there. -/
theorem eval_rescue {caught : {β : Type} → Op β → Bool}
    (stops : ∀ {β : Type} (op : Op β) (s : σ), perform op s = none ↔ caught op = true)
    (p instead : Procedure Op α) (s : σ) :
    (p.rescue caught instead).eval perform s =
      match p.last perform s with
      | (some a, m) => some (a, m)
      | (none, m) => instead.eval perform m := by
  induction p generalizing s with
  | ret value => rfl
  | call op next ih =>
    cases taken : perform op s with
    | none =>
      simp only [rescue, last, taken]
      rw [if_pos ((stops op s).mp taken)]
    | some r =>
      have free : ¬ caught op = true := fun h => nomatch ((stops op s).mpr h).symm.trans taken
      simp only [rescue, last, taken]
      rw [if_neg free, eval_call taken]
      exact ih r.1 r.2

end Eval

section Layer
variable {layer : {β : Type} → Op β → τ → Procedure Op' (β × τ)}
  {perform : {β : Type} → Op' β → σ → Option (β × σ)}

theorem eval_through (p : Procedure Op α) (t : τ) (s : σ) :
    (p.through layer t).eval perform s =
      (p.eval (stack layer perform) (t, s)).map fun r => ((r.1, r.2.1), r.2.2) := by
  induction p generalizing t s with
  | ret value => rfl
  | call op next ih =>
    rw [through, eval_bind, eval, stack, Option.bind_map, Option.map_bind]
    exact congrArg _ (funext fun r => ih r.1.1 r.1.2 r.2)

theorem uses_through {allowed : {β : Type} → Op β → Prop} {allowed' : {β : Type} → Op' β → Prop}
    (keeps : ∀ {β : Type} (op : Op β) (t : τ), allowed op → (layer op t).Uses allowed')
    {p : Procedure Op α} (uses : p.Uses allowed) (t : τ) : (p.through layer t).Uses allowed' := by
  induction p generalizing t with
  | ret value => trivial
  | call op next ih => exact uses_bind (keeps op t uses.1) fun r => ih r.1 (uses.2 r.1) r.2

end Layer

theorem uses_rescue {caught : {β : Type} → Op β → Bool} {allowed : {β : Type} → Op β → Prop}
    {p instead : Procedure Op α} (uses : p.Uses fun op => caught op = false → allowed op)
    (other : instead.Uses allowed) : (p.rescue caught instead).Uses allowed := by
  induction p with
  | ret value => trivial
  | call op next ih =>
    rw [rescue]
    split
    · exact other
    · next free => exact ⟨uses.1 (Bool.not_eq_true _ ▸ free), fun b => ih b (uses.2 b)⟩

end Vidsilo.Library.Procedure
