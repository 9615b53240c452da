import Vidsilo.Library.SlashPath
import Vidsilo.Library.Transition

/-!
# Renewing the session after a 401

Source: web/lib/api.ts:12-67 (`tryRefresh`, `api`). The arrival of a response and what the code does
with it are two steps, so that other responses may come in between; a refresh is in flight from its
request until its `finally` callback. What a call returns or throws in the end is left out.
-/
namespace Vidsilo.Web.SilentRefresh
open Library.SlashPath Library.Transition

def loginPath : Text := "/api/auth/login".toList

def refreshPath : Text := "/api/auth/refresh".toList

def noRefresh (path : Text) : Bool := loginPath <:+: path || refreshPath <:+: path

/-- A refresh of `tryRefresh`, with `r.ok`. -/
inductive Refresh where
  | sent
  | answered (ok : Bool)
  /-- Its `finally` callback has run. -/
  | done (ok : Bool)
  deriving DecidableEq, Repr

def Refresh.inFlight : Refresh → Bool
  | .sent | .answered _ => true
  | .done _ => false

/-- Where a call of `api` is. A status is missing when `fetch` rejects. -/
inductive Phase where
  /-- Its own request is on its way. -/
  | requesting (retried : Bool)
  | answered (retried : Bool) (status : Option Nat)
  /-- For the promise of a refresh. -/
  | waiting (refresh : Nat)
  | ended
  deriving DecidableEq, Repr

/-- How many refreshes were started when a call got its first 401, and which were in flight. -/
structure Unauthorized where
  started : Nat
  inFlight : List Nat
  deriving DecidableEq, Repr

structure Call where
  path : Text
  phase : Phase
  /-- Its own requests so far. -/
  sent : Nat
  /-- Recorded at the first 401 of a call that is not exempt. -/
  unauthorized : Option Unauthorized
  /-- The refresh that it has waited or waits for. -/
  waitedFor : Option Nat
  deriving DecidableEq, Repr

structure State where
  calls : List Call
  /-- By number, in the order of their requests. -/
  refreshes : List Refresh
  refreshing : Option Nat
  deriving DecidableEq, Repr

def State.idle : State := ⟨[], [], none⟩

def State.inFlight (s : State) : List Nat :=
  (List.range s.refreshes.length).filter fun r => s.refreshes[r]?.any Refresh.inFlight

inductive Action where
  | api (path : Text)
  /-- The response to a call's own request. -/
  | respond (i : Nat) (status : Option Nat)
  /-- The call goes on with it. -/
  | resume (i : Nat)
  /-- The response to a refresh. -/
  | answer (r : Nat) (ok : Bool)
  /-- Its `finally` callback. -/
  | finish (r : Nat)
  /-- A call goes on after a refresh. -/
  | wake (i : Nat)
  deriving DecidableEq, Repr

def State.setCall (i : Nat) (call : Call) (s : State) : State := { s with calls := s.calls.set i call }

def State.setRefresh (r : Nat) (refresh : Refresh) (s : State) : State :=
  { s with refreshes := s.refreshes.set r refresh }

/-- The first 401 of a call that is not exempt. -/
def expires (path : Text) (retried : Bool) (status : Option Nat) : Bool :=
  status = some 401 && !noRefresh path && !retried

def Call.received (call : Call) (retried : Bool) (status : Option Nat) (s : State) : Call :=
  { call with
    phase := .answered retried status
    unauthorized := if expires call.path retried status then some ⟨s.refreshes.length, s.inFlight⟩
      else call.unauthorized }

def Call.wait (call : Call) (r : Nat) : Call := { call with phase := .waiting r, waitedFor := some r }

/-- The call `i` waits for what `tryRefresh` returns. -/
def State.tryRefresh (i : Nat) (call : Call) (s : State) : State :=
  match s.refreshing with
  | some r => s.setCall i (call.wait r)
  | none =>
    { s.setCall i (call.wait s.refreshes.length) with
      refreshes := s.refreshes ++ [.sent]
      refreshing := some s.refreshes.length }

def step (s : State) : Action → Option State
  | .api path => some { s with calls := s.calls ++ [⟨path, .requesting false, 1, none, none⟩] }
  | .respond i status =>
    s.calls[i]?.bind fun call =>
      match call.phase with
      | .requesting retried => some (s.setCall i (call.received retried status s))
      | _ => none
  | .resume i =>
    s.calls[i]?.bind fun call =>
      match call.phase with
      | .answered retried status =>
        if expires call.path retried status then some (s.tryRefresh i call)
        else some (s.setCall i { call with phase := .ended })
      | _ => none
  | .answer r ok =>
    if s.refreshes[r]? = some .sent then some (s.setRefresh r (.answered ok)) else none
  | .finish r =>
    match s.refreshes[r]? with
    | some (.answered ok) => some { s.setRefresh r (.done ok) with refreshing := none }
    | _ => none
  | .wake i =>
    s.calls[i]?.bind fun call =>
      match call.phase with
      | .waiting r =>
        match s.refreshes[r]? with
        | some (.done true) =>
          some (s.setCall i { call with phase := .requesting true, sent := call.sent + 1 })
        | some (.done false) => some (s.setCall i { call with phase := .ended })
        | _ => none
      | _ => none

/-- Calls whose own request, now on its way, goes to the refresh endpoint. -/
def State.ownRefreshes (s : State) : Nat :=
  s.calls.countP fun call =>
    refreshPath <:+: call.path && (call.phase = .requesting false || call.phase = .requesting true)

/-- Requests to the refresh endpoint that are on their way. -/
def State.refreshRequests (s : State) : Nat := s.refreshes.countP (· = .sent) + s.ownRefreshes

/-- The refresh was in flight at the 401, or it was started later. -/
def Unauthorized.Covers (seen : Unauthorized) (r : Nat) : Prop := r ∈ seen.inFlight ∨ seen.started ≤ r

structure SingleFlight (s : State) : Prop where
  /-- Besides what calls to the refresh endpoint send themselves. -/
  requests : s.refreshRequests ≤ s.ownRefreshes + 1
  refreshes : s.refreshes.countP Refresh.inFlight ≤ 1
  /-- A call has waited for a refresh, or it has not gone on with its response yet. -/
  waits : ∀ call ∈ s.calls, ∀ seen, call.unauthorized = some seen →
    call.phase = .answered false (some 401) ∨ ∃ r, call.waitedFor = some r ∧ seen.Covers r
  sent : ∀ call ∈ s.calls, call.sent ≤ 2

def Call.HasWaited (call : Call) : Prop :=
  ∀ seen, call.unauthorized = some seen → ∃ r, call.waitedFor = some r ∧ seen.Covers r

/-- By the phase of the call. -/
def Call.Sound (call : Call) (s : State) : Prop :=
  match call.phase with
  | .requesting false => call.sent = 1 ∧ call.unauthorized = none
  | .answered false status => call.sent = 1 ∧ ∀ seen, call.unauthorized = some seen →
      expires call.path false status = true ∧ seen.started ≤ s.refreshes.length ∧
        ∀ r, s.refreshing = some r → seen.Covers r
  | .waiting _ => call.sent = 1 ∧ call.HasWaited
  | .requesting true | .answered true _ | .ended => call.sent ≤ 2 ∧ call.HasWaited

structure Inv (s : State) : Prop where
  /-- The variable holds the one refresh that is in flight. -/
  refreshing : ∀ r, s.refreshes[r]?.any Refresh.inFlight = true ↔ s.refreshing = some r
  calls : ∀ call ∈ s.calls, call.Sound s

theorem inv_idle : Inv .idle := ⟨fun r => by simp [State.idle], nofun⟩

theorem mem_inFlight {s : State} {r : Nat} :
    r ∈ s.inFlight ↔ s.refreshes[r]?.any Refresh.inFlight = true := by
  unfold State.inFlight
  rw [List.mem_filter, List.mem_range]
  constructor
  · exact And.right
  · intro flying
    refine ⟨?_, flying⟩
    by_contra outside
    rw [List.getElem?_eq_none (Nat.le_of_not_lt outside)] at flying
    cases flying

section
variable {s s' : State} {call : Call}

/-- What a call depends on: which refresh may be in flight now. -/
theorem sound_mono (sound : call.Sound s) (grows : s.refreshes.length ≤ s'.refreshes.length)
    (later : ∀ r, s'.refreshing = some r → s.refreshing = some r ∨ s.refreshes.length ≤ r) :
    call.Sound s' := by
  unfold Call.Sound at *
  cases phase : call.phase with
  | requesting retried =>
    rw [phase] at sound
    cases retried <;> exact sound
  | answered retried status =>
    rw [phase] at sound
    cases retried with
    | true => exact sound
    | false =>
      refine ⟨sound.1, fun seen found => ?_⟩
      obtain ⟨expired, started, covers⟩ := sound.2 seen found
      refine ⟨expired, by omega, fun r now => ?_⟩
      rcases later r now with old | new
      · exact covers r old
      · exact .inr (by omega)
  | waiting r =>
    rw [phase] at sound
    exact sound
  | ended =>
    rw [phase] at sound
    exact sound

end

/-- A step that changes one call. -/
theorem inv_setCall {s : State} {i : Nat} {call : Call} (inv : Inv s) (sound : call.Sound s) :
    Inv (s.setCall i call) := by
  refine ⟨inv.refreshing, fun other mem => ?_⟩
  have same : other.Sound s := by
    rcases List.mem_or_eq_of_mem_set mem with old | rfl
    · exact inv.calls other old
    · exact sound
  exact sound_mono same le_rfl fun r now => .inl now

/-- A step that changes the refresh in flight. -/
theorem inv_setRefresh {s : State} {r : Nat} {old new : Refresh} (inv : Inv s)
    (found : s.refreshes[r]? = some old) (flying : old.inFlight = true) :
    Inv { s.setRefresh r new with refreshing := if new.inFlight then s.refreshing else none } := by
  have inside : r < s.refreshes.length := (List.getElem?_eq_some_iff.mp found).1
  have current : s.refreshing = some r := (inv.refreshing r).mp (by rw [found]; exact flying)
  constructor
  · intro other
    change (s.refreshes.set r new)[other]?.any Refresh.inFlight = true ↔ _
    rw [List.getElem?_set, if_pos inside]
    split
    · next same =>
      subst same
      cases flight : new.inFlight <;> simp [flight, current]
    · next other_ne =>
      rw [inv.refreshing other, current]
      cases new.inFlight <;> simp [other_ne]
  · intro call mem
    refine sound_mono (inv.calls call mem) (by simp [State.setRefresh]) fun q now => .inl ?_
    dsimp only at now
    split at now
    · exact now
    · cases now

theorem covers_of_refreshing {s : State} {seen : Unauthorized} {r : Nat} (inv : Inv s)
    (recorded : seen = ⟨s.refreshes.length, s.inFlight⟩) (now : s.refreshing = some r) :
    seen.Covers r := by
  rw [recorded]
  exact .inl (mem_inFlight.mpr ((inv.refreshing r).mpr now))

theorem inv_respond {s : State} {i : Nat} {call : Call} {retried : Bool} (inv : Inv s)
    (mem : call ∈ s.calls) (phase : call.phase = .requesting retried) (status : Option Nat) :
    Inv (s.setCall i (call.received retried status s)) := by
  apply inv_setCall inv
  have sound := inv.calls call mem
  unfold Call.Sound at *
  rw [phase] at sound
  cases retried with
  | true =>
    have same : expires call.path true status = false := by simp [expires]
    simpa [Call.received, Call.HasWaited, same] using sound
  | false =>
    refine ⟨sound.1, fun seen found => ?_⟩
    unfold Call.received at found
    dsimp only at found
    split at found
    · next expired =>
      cases found
      exact ⟨expired, le_rfl, fun r now => covers_of_refreshing inv rfl now⟩
    · rw [sound.2] at found
      cases found

theorem inv_tryRefresh {s : State} {i : Nat} {call : Call} {status : Option Nat} (inv : Inv s)
    (mem : call ∈ s.calls) (phase : call.phase = .answered false status) :
    Inv (s.tryRefresh i call) := by
  have sound := inv.calls call mem
  unfold Call.Sound at sound
  rw [phase] at sound
  obtain ⟨one, covers⟩ := sound
  have waits (r : Nat) (good : ∀ seen, call.unauthorized = some seen → seen.Covers r) :
      (call.wait r).Sound s :=
    ⟨one, fun seen found => ⟨r, rfl, good seen found⟩⟩
  unfold State.tryRefresh
  cases current : s.refreshing with
  | some r =>
    exact inv_setCall inv (waits r fun seen found => (covers seen found).2.2 r current)
  | none =>
    have moved := inv_setCall (i := i) inv
      (waits s.refreshes.length fun seen found => .inr (covers seen found).2.1)
    constructor
    · intro r
      change (s.refreshes ++ [Refresh.sent])[r]?.any Refresh.inFlight = true ↔
        some s.refreshes.length = some r
      rw [List.getElem?_append]
      split
      · next old =>
        rw [inv.refreshing r, current]
        simp
        omega
      · next new =>
        rw [List.getElem?_singleton]
        split
        · next last =>
          have here : s.refreshes.length = r := by omega
          simp [here, Refresh.inFlight]
        · next beyond =>
          simp
          omega
    · intro other old
      refine sound_mono (moved.calls other old) (by simp [State.setCall]) fun r now => .inr ?_
      cases now
      exact le_rfl

theorem inv_resume {s : State} {i : Nat} {call : Call} {retried : Bool} {status : Option Nat}
    (inv : Inv s) (mem : call ∈ s.calls) (phase : call.phase = .answered retried status) :
    Inv (if expires call.path retried status then s.tryRefresh i call
      else s.setCall i { call with phase := .ended }) := by
  split
  · next expired =>
    cases retried with
    | true => simp [expires] at expired
    | false => exact inv_tryRefresh inv mem phase
  · next exempt =>
    apply inv_setCall inv
    have sound := inv.calls call mem
    unfold Call.Sound at *
    rw [phase] at sound
    cases retried with
    | true => exact sound
    | false =>
      obtain ⟨one, covers⟩ := sound
      refine ⟨by dsimp only; omega, fun seen found => ?_⟩
      exact absurd (covers seen found).1 exempt

theorem inv_step {s s' : State} {action : Action} (inv : Inv s) (taken : step s action = some s') :
    Inv s' := by
  cases action with
  | api path =>
    cases taken
    refine ⟨inv.refreshing, fun call mem => ?_⟩
    rcases List.mem_append.mp mem with old | new
    · exact sound_mono (inv.calls call old) le_rfl fun r now => .inl now
    · rw [List.mem_singleton.mp new]
      exact ⟨rfl, rfl⟩
  | respond i status =>
    obtain ⟨call, found, taken⟩ := Option.bind_eq_some_iff.mp taken
    split at taken
    · next retried phase =>
      cases taken
      exact inv_respond inv (List.mem_of_getElem? found) phase status
    · cases taken
  | resume i =>
    obtain ⟨call, found, taken⟩ := Option.bind_eq_some_iff.mp taken
    split at taken
    · next retried status phase =>
      have next := inv_resume (i := i) inv (List.mem_of_getElem? found) phase
      split at taken
      · next expired =>
        cases taken
        rw [if_pos expired] at next
        exact next
      · next exempt =>
        cases taken
        rw [if_neg exempt] at next
        exact next
    · cases taken
  | answer r ok =>
    simp only [step] at taken
    split at taken
    · next sent =>
      cases taken
      exact inv_setRefresh (r := r) inv sent rfl
    · cases taken
  | finish r =>
    simp only [step] at taken
    split at taken
    · next ok answered =>
      cases taken
      exact inv_setRefresh (r := r) inv answered rfl
    · cases taken
  | wake i =>
    obtain ⟨call, found, taken⟩ := Option.bind_eq_some_iff.mp taken
    split at taken
    · next r phase =>
      have sound := inv.calls call (List.mem_of_getElem? found)
      unfold Call.Sound at sound
      rw [phase] at sound
      split at taken
      · cases taken
        exact inv_setCall inv ⟨by dsimp only; omega, sound.2⟩
      · cases taken
        exact inv_setCall inv ⟨by dsimp only; omega, sound.2⟩
      · cases taken
    · cases taken

/-- One element at most where the places of two are the same. -/
theorem countP_le_one {α : Type} {p : α → Bool} {l : List α}
    (unique : ∀ i j : Nat, l[i]?.any p = true → l[j]?.any p = true → i = j) : l.countP p ≤ 1 := by
  induction l with
  | nil => exact Nat.zero_le 1
  | cons a rest ih =>
    have later := ih fun i j first second =>
      Nat.succ_injective (unique (i + 1) (j + 1) (by simpa using first) (by simpa using second))
    rw [List.countP_cons]
    split
    · next holds =>
      have none : rest.countP p = 0 := by
        rw [List.countP_eq_zero]
        intro b mem other
        obtain ⟨i, found⟩ := List.getElem?_of_mem mem
        have same := unique 0 (i + 1) (by simpa using holds) (by simp [found, other])
        omega
      omega
    · omega

theorem Inv.refreshes {s : State} (inv : Inv s) : s.refreshes.countP Refresh.inFlight ≤ 1 := by
  apply countP_le_one
  intro i j first second
  rw [inv.refreshing] at first second
  exact Option.some.inj (first.symm.trans second)

theorem Inv.singleFlight {s : State} (inv : Inv s) : SingleFlight s := by
  constructor
  · have fewer : s.refreshes.countP (· = .sent) ≤ s.refreshes.countP Refresh.inFlight := by
      apply List.countP_mono_left
      intro refresh _ sent
      rw [of_decide_eq_true sent]
      rfl
    have := inv.refreshes
    unfold State.refreshRequests
    omega
  · exact inv.refreshes
  · intro call mem seen found
    have sound := inv.calls call mem
    unfold Call.Sound at sound
    cases phase : call.phase with
    | requesting retried =>
      rw [phase] at sound
      cases retried with
      | true => exact .inr (sound.2 seen found)
      | false => exact nomatch sound.2.symm.trans found
    | answered retried status =>
      rw [phase] at sound
      cases retried with
      | true => exact .inr (sound.2 seen found)
      | false =>
        have expired := (sound.2 seen found).1
        simp only [expires, Bool.and_eq_true, decide_eq_true_eq] at expired
        rw [expired.1.1]
        exact .inl rfl
    | waiting r =>
      rw [phase] at sound
      exact .inr (sound.2 seen found)
    | ended =>
      rw [phase] at sound
      exact .inr (sound.2 seen found)
  · intro call mem
    have sound := inv.calls call mem
    unfold Call.Sound at sound
    split at sound <;> omega

/-- In every run: one refresh at a time, which every call with a first 401 waits for, and at most one
retry. -/
theorem single_flight {s : State} {trace : List Action} (run : Run step Always .idle trace s) :
    SingleFlight s :=
  (run.invariant Inv inv_idle fun _ _ _ inv _ taken => inv_step inv taken).singleFlight

def entriesPath : Text := "/api/entries".toList

/-- Two calls share a refresh, and one of them is refused again. -/
def refusedAgain : List Action :=
  [.api entriesPath, .api entriesPath, .respond 0 (some 401), .resume 0, .respond 1 (some 401),
    .resume 1, .answer 0 true, .finish 0, .wake 0, .wake 1, .respond 0 (some 401), .resume 0]

/-- A call was sent twice and is over, with no other refresh than the first. -/
def refused (s : State) : Bool :=
  s.refreshes = [.done true] && s.calls[0]?.any fun call => call.phase = .ended && call.sent = 2

theorem single_flight_refusedAgain : ∃ s, Run step Always .idle refusedAgain s ∧ refused s = true ∧
    SingleFlight s := by
  obtain ⟨s, run, last⟩ : ∃ s, Run step Always .idle refusedAgain s ∧ refused s = true :=
    exists_always (by decide)
  exact ⟨s, run, last, single_flight run⟩

/-- Two calls to the refresh endpoint are on their way together; and a call gets a second 401 and waits
for no further refresh. -/
theorem refresh_calls_overlap :
    (∃ s, Run step Always .idle [.api refreshPath, .api refreshPath] s ∧ s.refreshRequests = 2) ∧
      ∃ s, Run step Always .idle refusedAgain s ∧ refused s = true := by
  refine ⟨?_, exists_always (by decide)⟩
  have made : (exec step (fun _ _ => true) .idle [.api refreshPath, .api refreshPath]).any
      (fun s => decide (s.refreshRequests = 2)) = true := by
    decide
  obtain ⟨s, run, two⟩ := exists_always made
  exact ⟨s, run, of_decide_eq_true two⟩

end Vidsilo.Web.SilentRefresh
