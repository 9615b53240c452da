import Vidsilo.Api.LoginGuard
import Vidsilo.Categories.Table
import Vidsilo.Library.Stages

/-!
# Sign-ins that take turns

Source: internal/api/auth.go:113-162 (`handleLogin`), internal/api/viewers.go:63-97
(`handleViewerLogin`). Both handlers ask one guard before they look the account up, and report to
it after the password has been verified. The verifications, the lockouts and the successes are
logged in the order in which they happen.
-/
namespace Vidsilo.Api.LoginRuns
open Library Library.Procedure Library.SlashPath Library.Stages Library.Transition Sessions
open LoginGuard
open Categories (trim isSpace)

structure Attempt where
  kind : Kind
  email : Text
  password : Text
  deriving DecidableEq, Repr

/-- An answer, and the `Retry-After` header where it has one. -/
structure Reply where
  answer : Answer
  retryAfter : Option Int
  deriving DecidableEq, Repr

/-- The calls of the guard, the lookup of the account and the verification of a password. -/
inductive SignInOp : Type → Type where
  | locked (email : Text) : SignInOp (Option Time)
  | failure (email : Text) : SignInOp Unit
  | success (email : Text) : SignInOp Unit
  /-- `UserByEmail` and `ViewerByEmail`. -/
  | lookUp (kind : Kind) (email : Text) : SignInOp (Lookup Account)
  | verify (email password hash : Text) : SignInOp (Bool × Bool)

/-- These, and what follows a success. -/
abbrev LoginOp (β : Type) := SignInOp β ⊕ SessionOp β

abbrev Handler := Procedure LoginOp Reply

def plain (answer : Answer) : Reply := ⟨answer, none⟩

def invalidCredentials : Reply := plain (refuse 401 "unauthorized" "invalid credentials")

def tooManyAttempts (left : Time) : Reply :=
  ⟨refuse 429 "too_many_attempts" "too many failed sign-in attempts — try again later",
    some (left / 1000000000 + 1)⟩

def dummyHash : Text :=
  ("$argon2id$v=19,m=65536,t=1,p=4$AAAAAAAAAAAAAAAAAAAAAA$" ++
    "AAAAAAAAAAAAAAAAAAAAAAAAAAAAAAAAAAAAAAAAAAA").toList

section Handlers
variable (digest : Text → Text)

def countFailure (email : Text) : Handler := do
  ask (.inl (.failure email))
  pure invalidCredentials

def finishLogin (kind : Kind) (email password : Text) (account : Account) (upgrade : Bool) :
    Handler := do
  ask (.inl (.success email))
  lift .inr (rehash kind account password upgrade)
  let answer ← lift .inr (issue digest kind account)
  pure (plain answer)

def verifyAccount (kind : Kind) (email password : Text) (account : Account) : Handler := do
  match ← ask (.inl (.verify email password account.passwordHash)) with
  | (false, _) => countFailure email
  | (true, upgrade) =>
    if account.disabled then pure (plain (refuse 403 "forbidden" "account disabled"))
    else finishLogin digest kind email password account upgrade

def burnVerify (email password : Text) : Handler := do
  let _ ← ask (.inl (.verify email password dummyHash))
  countFailure email

def lookUpAccount (kind : Kind) (email password : Text) : Handler := do
  match ← ask (.inl (.lookUp kind email)) with
  | .missing => burnVerify email password
  | .failed => pure (plain internalError)
  | .found account => verifyAccount digest kind email password account

def guarded (kind : Kind) (email password : Text) : Handler := do
  match ← ask (.inl (.locked email)) with
  | some left => pure (tooManyAttempts left)
  | none => lookUpAccount digest kind email password

def signIn (kind : Kind) (email password : Text) : Handler :=
  let email := trim isSpace email
  if email = [] ∨ password = [] then
    pure (plain (refuse 400 "bad_request" "email and password are required"))
  else guarded digest kind email password

def handleLogin (email password : Text) : Handler := signIn digest .staff email password

def handleViewerLogin (email password : Text) : Handler := signIn digest .viewer email password

def body : Attempt → Handler
  | ⟨.staff, email, password⟩ => handleLogin digest email password
  | ⟨.viewer, email, password⟩ => handleViewerLogin digest email password

end Handlers

inductive Event where
  | verified (key : Text) (right : Bool) (now : Time)
  | succeeded (key : Text)
  | lockedOut (key : Text) (now : Time)
  deriving DecidableEq, Repr

def Event.key : Event → Text
  | .verified key _ _ | .succeeded key | .lockedOut key _ => key

structure World where
  guard : Guard
  sessions : Sessions.World
  log : List Event

def World.clock (w : World) : Time := w.sessions.clock

/-- A failure leaves no counter exactly when it has locked the key out. -/
def failed (fold : Text → Text) (w : World) (email : Text) : World :=
  let guard := w.guard.failure fold w.clock email
  let event := if (guard.failures.lookup (fold email)).isNone then
    [Event.lockedOut (fold email) w.clock] else []
  { w with guard := guard, log := w.log ++ event }

def succeeded (fold : Text → Text) (w : World) (email : Text) : World :=
  { w with guard := w.guard.success fold email, log := w.log ++ [.succeeded (fold email)] }

def verified (fold : Text → Text) (w : World) (email : Text) (right : Bool) : World :=
  { w with log := w.log ++ [.verified (fold email) right w.clock] }

section Step
variable (digest : Text → Text) (verify : Text → Text → Bool × Bool) (lower fold : Text → Text)

def perform : {β : Type} → LoginOp β → Outcome → World → Option (β × World)
  | _, .inl (.locked email), _, w =>
    let r := w.guard.locked fold w.clock email
    some (r.1, { w with guard := r.2 })
  | _, .inl (.failure email), _, w => some ((), failed fold w email)
  | _, .inl (.success email), _, w => some ((), succeeded fold w email)
  | _, .inl (.lookUp kind email), outcome, w =>
    (Sessions.perform lower (.accountByEmail kind email) outcome w.sessions).map fun r =>
      (r.1, { w with sessions := r.2 })
  | _, .inl (.verify email password hash), _, w =>
    let r := verify password hash
    some (r, verified fold w email r.1)
  | _, .inr op, outcome, w =>
    (Sessions.perform lower op outcome w.sessions).map fun r => (r.1, { w with sessions := r.2 })

/-- The requests in progress, and the ids of all requests so far. -/
structure Serving : Type 1 where
  pool : Pool Nat Attempt LoginOp Reply World
  ids : List Nat

/-- A step of a request; the clock advances; other endpoints change the tables. -/
inductive Action where
  | receive (id : Nat) (attempt : Attempt)
  | advance (id : Nat) (outcome : Outcome)
  | answer (id : Nat)
  | elapse (d : Nat)
  | tables (accounts : Kind → List Account) (tokens : Kind → Table)

def start (sessions : Sessions.World) : Serving := ⟨Pool.idle ⟨.empty, sessions, []⟩, []⟩

def move (_ : Nat) (rest : Handler) (outcome : Outcome) (w : World) : Option (Handler × World) :=
  rest.advance (perform verify lower fold) outcome w

def poolStep (pool : Pool Nat Attempt LoginOp Reply World)
    (a : Pool.Action Nat Attempt Outcome) : Option (Pool Nat Attempt LoginOp Reply World) :=
  pool.step (body digest) (move verify lower fold) a

def step (m : Serving) : Action → Option Serving
  | .receive id attempt =>
    if id ∈ m.ids then none
    else (poolStep digest verify lower fold m.pool (.start id attempt)).map fun pool =>
      ⟨pool, id :: m.ids⟩
  | .advance id outcome =>
    (poolStep digest verify lower fold m.pool (.advance id outcome)).map fun pool =>
      { m with pool := pool }
  | .answer id =>
    (poolStep digest verify lower fold m.pool (.finish id)).map fun pool => { m with pool := pool }
  | .elapse d => some { m with pool.world.sessions.clock := m.pool.world.clock + d }
  | .tables accounts tokens =>
    some { m with pool.world.sessions := ⟨m.pool.world.clock, accounts, tokens⟩ }

end Step

/-- How many wrong passwords have been verified since the last success or lockout, and when the
last lockout was. -/
structure Policy where
  wrong : Nat
  lockedAt : Option Time

namespace Policy

def fresh : Policy := ⟨0, none⟩

/-- While the key is locked out nothing is verified, and no sixth wrong password is verified before
it is. -/
def next (p : Policy) : Event → Option Policy
  | .verified _ right now =>
    if p.lockedAt.any fun locked => now - locked < loginLockout then none
    else if right then some p
    else if p.wrong < 5 then some { p with wrong := p.wrong + 1 }
    else none
  | .succeeded _ => some fresh
  | .lockedOut _ now => some ⟨0, some now⟩

/-- The events of the key, one after the other. -/
def watch (key : Text) (p : Option Policy) (event : Event) : Option Policy :=
  if event.key = key then p.bind (·.next event) else p

def follow (key : Text) (log : List Event) : Option Policy := log.foldl (watch key) (some fresh)

end Policy

/-- In every run, and for every key, the policy is kept. -/
def Throttles (digest : Text → Text) (verify : Text → Text → Bool × Bool) (lower fold : Text → Text)
    (cond : Serving → Action → Prop) : Prop :=
  ∀ sessions trace m, Run (step digest verify lower fold) cond (start sessions) trace m →
    ∀ key, (Policy.follow key m.pool.world.log).isSome = true

/-- A request at such an operation has passed the check and has not reported yet. -/
def between (fold : Text → Text) (key : Text) : {β : Type} → LoginOp β → Bool
  | _, .inl (.lookUp _ email) | _, .inl (.verify email _ _) | _, .inl (.failure email)
  | _, .inl (.success email) => fold email = key
  | _, .inl (.locked _) | _, .inr _ => false

def inFlight (fold : Text → Text) (m : Serving) (key : Text) : Nat :=
  m.ids.countP fun i => (m.pool.calls i).any fun call => call.rest.asks (between fold key)

def counter (w : World) (key : Text) : Int := (w.guard.failures.lookup key).getD 0

/-- The failures counted for the key and the requests that may add to them are fewer than five. -/
def hasTries (fold : Text → Text) (m : Serving) : {β : Type} → LoginOp β → Bool
  | _, .inl (.locked email) =>
    counter m.pool.world (fold email) + inFlight fold m (fold email) < loginMaxFailures
  | _, _ => true

/-- A request that asks the guard finds a failure left for it. -/
def Paced (fold : Text → Text) (m : Serving) : Action → Prop
  | .advance id _ => ∀ call ∈ m.pool.calls id,
      call.rest.Starts fun op => hasTries fold m op = true
  | _ => True

instance (fold : Text → Text) (m : Serving) : (a : Action) → Decidable (Paced fold m a)
  | .advance id _ => inferInstanceAs (Decidable (∀ call ∈ m.pool.calls id, _))
  | .receive _ _ | .answer _ | .elapse _ | .tables _ _ => isTrue trivial

variable {digest : Text → Text} {verify : Text → Text → Bool × Bool} {lower fold : Text → Text}
  {key : Text} {now : Time} {g g' g'' : Guard}

/-- The entries of the key stay, except for a lock that has run out and what goes with it. -/
structure Kept (key : Text) (now : Time) (g g' : Guard) : Prop where
  locks : g'.lockedAt.lookup key = g.lockedAt.lookup key ∨
    (g'.lockedAt.lookup key = none ∧ ∀ t ∈ g.lockedAt.lookup key, Guard.ranOut now t = true)
  failures : g.lockedAt.lookup key = none → g'.failures.lookup key = g.failures.lookup key
  gone : g.failures.lookup key = none → g'.failures.lookup key = none

theorem Kept.unlocked (h : Kept key now g g') (unlocked : g.lockedAt.lookup key = none) :
    g'.lockedAt.lookup key = none := by
  rcases h.locks with same | ⟨isNone, _⟩
  · rw [same, unlocked]
  · exact isNone

theorem Kept.trans (h : Kept key now g g') (h' : Kept key now g' g'') : Kept key now g g'' := by
  constructor
  · rcases h.locks with same | ⟨isNone, ranOut⟩
    · rcases h'.locks with same' | ⟨isNone', ranOut'⟩
      · exact .inl (same'.trans same)
      · exact .inr ⟨isNone', same ▸ ranOut'⟩
    · exact .inr ⟨h'.unlocked isNone, ranOut⟩
  · intro unlocked
    rw [h'.failures (h.unlocked unlocked), h.failures unlocked]
  · intro missing
    exact h'.gone (h.gone missing)

theorem kept_prune (counted : g.Counted) (key : Text) (now : Time) : Kept key now g (g.prune now) := by
  constructor
  · unfold Guard.prune
    split
    · exact .inl rfl
    · simp only [KeyMap.lookup_keep]
      cases held : g.lockedAt.lookup key with
      | none => exact .inl rfl
      | some t =>
        cases out : Guard.ranOut now t with
        | false => exact .inl (by simp [out])
        | true => exact .inr (by simp [out])
  · intro unlocked
    exact Guard.lookup_prune_failures counted now (by rw [unlocked]; rfl)
  · intro missing
    cases held : (g.prune now).failures.lookup key with
    | none => rfl
    | some n => exact nomatch missing.symm.trans (g.lookup_prune_failures_le now held)

/-- Entries of another key are erased, or a lock that has run out. -/
theorem kept_erase {other : Text}
    (h : other = key → ∃ t, g.lockedAt.lookup key = some t ∧ Guard.ranOut now t = true) :
    Kept key now g ⟨g.failures.erase other, g.lockedAt.erase other⟩ := by
  by_cases same : key = other
  · subst same
    obtain ⟨t, held, out⟩ := h rfl
    constructor
    · refine .inr ⟨AList.lookup_erase key _, ?_⟩
      intro t' held'
      rw [held, Option.mem_some_iff] at held'
      exact held' ▸ out
    · intro unlocked
      exact nomatch unlocked.symm.trans held
    · intro _
      exact AList.lookup_erase key _
  · constructor
    · exact .inl (AList.lookup_erase_ne same)
    · intro _
      exact AList.lookup_erase_ne same
    · intro missing
      exact (AList.lookup_erase_ne same).trans missing

theorem kept_locked (counted : g.Counted) (key : Text) (now : Time) (email : Text) :
    Kept key now g (g.locked fold now email).2 := by
  have pruned := kept_prune counted key now
  simp only [Guard.locked]
  generalize g.prune now = g' at pruned
  split
  · exact pruned
  next t held =>
    split
    · exact pruned
    next out =>
      refine pruned.trans (kept_erase ?_)
      rintro rfl
      refine ⟨t, held, ?_⟩
      simp only [Guard.ranOut, decide_eq_true_eq]
      exact Int.not_lt.mp out

/-- A check that lets through leaves no lock. -/
theorem unlocked_of_locked (email : Text) (h : (g.locked fold now email).1 = none) :
    (g.locked fold now email).2.lockedAt.lookup (fold email) = none := by
  simp only [Guard.locked] at h ⊢
  generalize g.prune now = g' at h
  cases held : g'.lockedAt.lookup (fold email) with
  | none => simp only [held]
  | some t =>
    simp only [held] at h ⊢
    split at h
    · cases h
    next out =>
      rw [if_neg out]
      exact AList.lookup_erase _ _

theorem kept_failure (counted : g.Counted) {email : Text} (other : fold email ≠ key) (now : Time) :
    Kept key now g (g.failure fold now email) := by
  have pruned := kept_prune counted key now
  have ne := Ne.symm other
  refine pruned.trans ?_
  simp only [Guard.failure]
  generalize g.prune now = g'
  split
  · constructor
    · exact .inl (AList.lookup_insert_ne ne)
    · intro _
      rw [AList.lookup_erase_ne ne, AList.lookup_insert_ne ne]
    · intro missing
      rw [AList.lookup_erase_ne ne, AList.lookup_insert_ne ne, missing]
  · constructor
    · exact .inl rfl
    · intro _
      exact AList.lookup_insert_ne ne
    · intro missing
      exact (AList.lookup_insert_ne ne).trans missing

theorem kept_success {email : Text} (other : fold email ≠ key) (now : Time) :
    Kept key now g (g.success fold email) :=
  kept_erase fun same => absurd same other

/-- `hand` requests have passed the check and are not known to be wrong, `wrong` requests have
verified a wrong password that is not counted yet. -/
structure Agrees (key : Text) (w : World) (p : Policy) (hand wrong : Nat) : Prop where
  wrongs : (p.wrong : Int) ≤ counter w key + wrong
  cap : counter w key + hand + wrong ≤ 5
  locks : ∀ t ∈ w.guard.lockedAt.lookup key,
    p.lockedAt = some t ∧ hand = 0 ∧ wrong = 0 ∧ w.guard.failures.lookup key = none
  free : w.guard.lockedAt.lookup key = none → ∀ t ∈ p.lockedAt, loginLockout ≤ w.clock - t

structure Throttled (key : Text) (w : World) (hand wrong : Nat) : Prop where
  counted : w.guard.Counted
  policy : ∃ p, Policy.follow key w.log = some p ∧ Agrees key w p hand wrong

variable {w : World} {p : Policy} {hand wrong : Nat} {email : Text}

theorem follow_other (event : Event) (log : List Event) (other : event.key ≠ key) :
    Policy.follow key (log ++ [event]) = Policy.follow key log := by
  simp only [Policy.follow, List.foldl_append, List.foldl_cons, List.foldl_nil]
  rw [Policy.watch, if_neg other]

theorem follow_own (event : Event) {log : List Event} (own : event.key = key)
    (followed : Policy.follow key log = some p) :
    Policy.follow key (log ++ [event]) = p.next event := by
  simp only [Policy.follow, List.foldl_append, List.foldl_cons, List.foldl_nil] at followed ⊢
  rw [Policy.watch, if_pos own, followed]
  rfl

theorem ranOut_iff (now t : Time) : Guard.ranOut now t = true ↔ loginLockout ≤ now - t := by
  rw [Guard.ranOut, decide_eq_true_iff]
  constructor
  · exact Int.le_of_sub_nonpos
  · exact Int.sub_nonpos_of_le

theorem counter_nonneg (counted : w.guard.Counted) (key : Text) : 0 ≤ counter w key := by
  unfold counter
  cases held : w.guard.failures.lookup key with
  | none => exact Int.le_refl 0
  | some n =>
    have positive := (counted key n held).1
    simp only [Option.getD_some]
    omega

theorem Agrees.counter_kept (h : Agrees key w p hand wrong) (kept : Kept key w.clock w.guard g) :
    counter { w with guard := g } key = counter w key := by
  simp only [counter]
  cases lock : w.guard.lockedAt.lookup key with
  | none => rw [kept.failures lock]
  | some t =>
    have none := (h.locks t lock).2.2.2
    rw [none, kept.gone none]

theorem Agrees.kept (h : Agrees key w p hand wrong) (kept : Kept key w.clock w.guard g) :
    Agrees key { w with guard := g } p hand wrong := by
  have same := h.counter_kept kept
  constructor
  · rw [same]
    exact h.wrongs
  · rw [same]
    exact h.cap
  · intro t held
    rcases kept.locks with isSame | ⟨isNone, _⟩
    · obtain ⟨isLock, noHand, noWrong, none⟩ := h.locks t (isSame ▸ held)
      exact ⟨isLock, noHand, noWrong, kept.gone none⟩
    · exact nomatch isNone.symm.trans held
  · intro unlocked t isLock
    rcases kept.locks with isSame | ⟨_, ranOut⟩
    · exact h.free (isSame ▸ unlocked) t isLock
    · cases lock : w.guard.lockedAt.lookup key with
      | none => exact h.free lock t isLock
      | some t' =>
        have isT := (h.locks t' lock).1.symm.trans isLock
        cases isT
        exact (ranOut_iff w.clock t).mp (ranOut t lock)

/-- A request passes the check. -/
theorem Agrees.enter (h : Agrees key w p hand wrong) (unlocked : w.guard.lockedAt.lookup key = none)
    (room : counter w key + hand + wrong < 5) : Agrees key w p (hand + 1) wrong := by
  refine ⟨h.wrongs, by omega, ?_, h.free⟩
  intro t held
  exact nomatch unlocked.symm.trans held

/-- A request ends without a report. -/
theorem Agrees.leave (h : Agrees key w p (hand + 1) wrong) : Agrees key w p hand wrong := by
  have cap := h.cap
  refine ⟨h.wrongs, by omega, ?_, h.free⟩
  intro t held
  exact absurd (h.locks t held).2.1 (Nat.succ_ne_zero hand)

theorem Agrees.unlocked (h : Agrees key w p hand wrong) (some_request : 0 < hand + wrong) :
    w.guard.lockedAt.lookup key = none := by
  cases lock : w.guard.lockedAt.lookup key with
  | none => rfl
  | some t =>
    obtain ⟨_, noHand, noWrong, _⟩ := h.locks t lock
    omega

/-- A request in hand is going to report a failure. -/
theorem Agrees.err (h : Agrees key w p (hand + 1) wrong) : Agrees key w p hand (wrong + 1) := by
  have cap := h.cap
  have wrongs := h.wrongs
  refine ⟨by omega, by omega, ?_, h.free⟩
  intro t held
  exact absurd (h.locks t held).2.1 (Nat.succ_ne_zero hand)

theorem Throttled.leave (h : Throttled key w (hand + 1) wrong) : Throttled key w hand wrong := by
  obtain ⟨p, followed, agrees⟩ := h.policy
  exact ⟨h.counted, p, followed, agrees.leave⟩

theorem Throttled.err (h : Throttled key w (hand + 1) wrong) :
    Throttled key w hand (wrong + 1) := by
  obtain ⟨p, followed, agrees⟩ := h.policy
  exact ⟨h.counted, p, followed, agrees.err⟩

theorem Throttled.locked (h : Throttled key w hand wrong) (email : Text) :
    Throttled key { w with guard := (w.guard.locked fold w.clock email).2 } hand wrong := by
  obtain ⟨p, followed, agrees⟩ := h.policy
  exact ⟨Guard.counted_locked h.counted _ _, p, followed,
    agrees.kept (kept_locked h.counted key w.clock email)⟩

/-- The check lets a request through. -/
theorem Throttled.admitted (h : Throttled (fold email) w hand wrong)
    (passed : (w.guard.locked fold w.clock email).1 = none)
    (room : counter w (fold email) + hand + wrong < 5) :
    Throttled (fold email) { w with guard := (w.guard.locked fold w.clock email).2 } (hand + 1)
      wrong := by
  obtain ⟨p, followed, agrees⟩ := h.policy
  have kept : Kept (fold email) w.clock w.guard (w.guard.locked fold w.clock email).2 :=
    kept_locked h.counted (fold email) w.clock email
  refine ⟨Guard.counted_locked h.counted _ _, p, followed,
    (agrees.kept kept).enter (unlocked_of_locked email passed) ?_⟩
  rw [agrees.counter_kept kept]
  exact room

theorem Throttled.verified_other (h : Throttled key w hand wrong) (other : fold email ≠ key)
    (right : Bool) : Throttled key (verified fold w email right) hand wrong := by
  obtain ⟨p, followed, agrees⟩ := h.policy
  exact ⟨h.counted, p, (follow_other (.verified _ right w.clock) w.log other).trans followed,
    agrees.wrongs, agrees.cap, agrees.locks, agrees.free⟩

/-- A verified password is in order: the key is not locked out. -/
theorem next_verified (agrees : Agrees key w p hand wrong) (some_request : 0 < hand + wrong)
    (right : Bool) :
    p.next (.verified key right w.clock) =
      if right then some p else if p.wrong < 5 then some { p with wrong := p.wrong + 1 } else none := by
  have free := agrees.free (agrees.unlocked some_request)
  have open_key : (p.lockedAt.any fun locked => w.clock - locked < loginLockout) = false := by
    cases lock : p.lockedAt with
    | none => rfl
    | some t =>
      simp only [Option.any_some, decide_eq_false_iff_not]
      exact Int.not_lt.mpr (free t lock)
  rw [Policy.next, open_key]
  rfl

theorem Throttled.verified_right (h : Throttled (fold email) w (hand + 1) wrong) :
    Throttled (fold email) (verified fold w email true) (hand + 1) wrong := by
  obtain ⟨p, followed, agrees⟩ := h.policy
  refine ⟨h.counted, p, (follow_own (.verified _ true w.clock) rfl followed).trans ?_,
    agrees.wrongs, agrees.cap, agrees.locks, agrees.free⟩
  rw [next_verified agrees (by omega), if_pos rfl]

theorem Throttled.verified_wrong (h : Throttled (fold email) w (hand + 1) wrong) :
    Throttled (fold email) (verified fold w email false) hand (wrong + 1) := by
  obtain ⟨p, followed, agrees⟩ := h.policy
  have wrongs := agrees.wrongs
  have cap := agrees.cap
  have unlocked := agrees.unlocked (by omega)
  have room : p.wrong < 5 := by omega
  refine ⟨h.counted, { p with wrong := p.wrong + 1 },
    (follow_own (.verified _ false w.clock) rfl followed).trans ?_, ?_, ?_, ?_, agrees.free⟩
  · rw [next_verified agrees (by omega), if_neg (by decide), if_pos room]
  · change ((p.wrong + 1 : Nat) : Int) ≤ counter w (fold email) + ((wrong + 1 : Nat) : Int)
    omega
  · change counter w (fold email) + (hand : Int) + ((wrong + 1 : Nat) : Int) ≤ 5
    omega
  · intro t held
    exact nomatch unlocked.symm.trans held

theorem Throttled.succeeded_other (h : Throttled key w hand wrong) (other : fold email ≠ key) :
    Throttled key (succeeded fold w email) hand wrong := by
  obtain ⟨p, followed, agrees⟩ := h.policy
  have kept := agrees.kept (kept_success other w.clock)
  exact ⟨Guard.counted_success h.counted email, p,
    (follow_other (.succeeded (fold email)) w.log other).trans followed, kept.wrongs, kept.cap,
    kept.locks, kept.free⟩

theorem Throttled.succeeded (h : Throttled (fold email) w (hand + 1) wrong) :
    Throttled (fold email) (succeeded fold w email) hand wrong := by
  obtain ⟨p, followed, agrees⟩ := h.policy
  have cap := agrees.cap
  have nonneg := counter_nonneg h.counted (fold email)
  have isZero : counter (LoginRuns.succeeded fold w email) (fold email) = 0 := by
    simp [counter, LoginRuns.succeeded, Guard.success, AList.lookup_erase]
  refine ⟨Guard.counted_success h.counted email, .fresh,
    follow_own (.succeeded (fold email)) rfl followed, ?_, ?_, ?_, ?_⟩
  · rw [isZero]
    simp [Policy.fresh]
  · rw [isZero]
    omega
  · intro t held
    cases (AList.lookup_erase (fold email) w.guard.lockedAt).symm.trans held
  · intro _ t isLock
    cases isLock

/-- A failure of the key that is not locked out counts one more, or locks it out. -/
theorem failure_own (counted : g.Counted) (unlocked : g.lockedAt.lookup (fold email) = none)
    (now : Time) :
    let n := (g.failures.lookup (fold email)).getD 0 + 1
    let g' := g.failure fold now email
    (5 ≤ n ∧ g'.failures.lookup (fold email) = none ∧ g'.lockedAt.lookup (fold email) = some now) ∨
      (n < 5 ∧ g'.failures.lookup (fold email) = some n ∧
        g'.lockedAt.lookup (fold email) = none) := by
  have notOut : (g.lockedAt.lookup (fold email)).any (Guard.ranOut now) = false := by
    rw [unlocked]
    rfl
  have same := Guard.lookup_prune_failures counted now notOut
  have still := (kept_prune counted (fold email) now).unlocked unlocked
  simp only [Guard.failure]
  rw [same]
  generalize g.prune now = g' at still
  split
  next full => exact .inl ⟨full, AList.lookup_erase _ _, AList.lookup_insert _⟩
  next below => exact .inr ⟨Int.not_le.mp below, AList.lookup_insert _, still⟩

theorem Throttled.failed_other (h : Throttled key w hand wrong) (other : fold email ≠ key) :
    Throttled key (failed fold w email) hand wrong := by
  obtain ⟨p, followed, agrees⟩ := h.policy
  have kept := agrees.kept (kept_failure h.counted other w.clock)
  refine ⟨Guard.counted_failure h.counted w.clock email, p, ?_, kept.wrongs, kept.cap, kept.locks,
    kept.free⟩
  simp only [failed]
  split
  · exact (follow_other (.lockedOut (fold email) w.clock) w.log other).trans followed
  · rw [List.append_nil]
    exact followed

theorem Throttled.failed (h : Throttled (fold email) w hand (wrong + 1)) :
    Throttled (fold email) (failed fold w email) hand wrong := by
  obtain ⟨p, followed, agrees⟩ := h.policy
  have cap := agrees.cap
  have wrongs := agrees.wrongs
  have counted : (w.guard.failure fold w.clock email).Counted :=
    Guard.counted_failure h.counted w.clock email
  rcases failure_own h.counted (agrees.unlocked (by omega)) w.clock with
    ⟨full, noCounter, locked⟩ | ⟨below, isCounter, unlocked⟩
  · have none_left : hand = 0 ∧ wrong = 0 := by
      simp only [counter] at cap
      omega
    obtain ⟨rfl, rfl⟩ := none_left
    have isZero : counter (LoginRuns.failed fold w email) (fold email) = 0 := by
      simp only [counter, LoginRuns.failed, noCounter, Option.getD_none]
    refine ⟨counted, ⟨0, some w.clock⟩, ?_, ?_, ?_, ?_, ?_⟩
    · simp only [LoginRuns.failed, noCounter, Option.isNone_none, if_true]
      exact follow_own (.lockedOut (fold email) w.clock) rfl followed
    · rw [isZero]
      exact Int.le_refl 0
    · rw [isZero]
      decide
    · intro t held
      have isNow : t = w.clock := Option.some.inj (held.symm.trans locked)
      subst isNow
      exact ⟨rfl, rfl, rfl, noCounter⟩
    · intro unlocked
      exact nomatch unlocked.symm.trans locked
  · have isNext : counter (LoginRuns.failed fold w email) (fold email) =
        counter w (fold email) + 1 := by
      simp only [counter, LoginRuns.failed, isCounter, Option.getD_some]
    have wasUnlocked := agrees.unlocked (by omega)
    refine ⟨counted, p, ?_, ?_, ?_, ?_, fun _ => agrees.free wasUnlocked⟩
    · simp only [LoginRuns.failed, isCounter, Option.isNone_some, Bool.false_eq_true, if_false,
        List.append_nil]
      exact followed
    · rw [isNext]
      omega
    · rw [isNext]
      omega
    · intro t held
      exact nomatch unlocked.symm.trans held

/-- The clock advances; the tables are not the guard's. -/
theorem Throttled.later (h : Throttled key w hand wrong) {sessions : Sessions.World}
    (later : w.clock ≤ sessions.clock) : Throttled key { w with sessions := sessions } hand wrong := by
  obtain ⟨p, followed, agrees⟩ := h.policy
  refine ⟨h.counted, p, followed, agrees.wrongs, agrees.cap, agrees.locks, ?_⟩
  intro unlocked t isLock
  have waited := agrees.free unlocked t isLock
  exact Int.le_trans waited (Int.sub_le_sub_right later t)

/-- Where a request stands: before the check, in hand after it, with a wrong password that is to be
counted, or past its report. -/
inductive Phase where
  | waiting (key : Text)
  | inHand (key : Text)
  | wrong (key : Text)
  | ended

def Phase.holds (key : Text) : Phase → Bool
  | .inHand k => k = key
  | _ => false

def Phase.errs (key : Text) : Phase → Bool
  | .wrong k => k = key
  | _ => false

/-- What follows a report or a refusal leaves the guard alone. -/
def harmless {β : Type} : LoginOp β → Prop
  | .inl _ => False
  | .inr _ => True

inductive At (digest : Text → Text) (fold : Text → Text) : Phase → Handler → Prop where
  | check (kind : Kind) (email password : Text) :
    At digest fold (.waiting (fold email)) (guarded digest kind email password)
  | lookUp (kind : Kind) (email password : Text) :
    At digest fold (.inHand (fold email)) (lookUpAccount digest kind email password)
  | burn (email password : Text) : At digest fold (.inHand (fold email)) (burnVerify email password)
  | verify (kind : Kind) (email password : Text) (account : Account) :
    At digest fold (.inHand (fold email)) (verifyAccount digest kind email password account)
  | count (email : Text) : At digest fold (.wrong (fold email)) (countFailure email)
  | settle (kind : Kind) (email password : Text) (account : Account) (upgrade : Bool) :
    At digest fold (.inHand (fold email)) (finishLogin digest kind email password account upgrade)
  | ended {rest : Handler} (uses : rest.Uses harmless) : At digest fold .ended rest

variable {phase phase' : Phase} {rest rest' : Handler} {w' : World} {outcome : Outcome}

theorem at_ret (digest fold : Text → Text) (reply : Reply) : At digest fold .ended (.ret reply) :=
  .ended trivial

theorem at_body (digest fold : Text → Text) (attempt : Attempt) :
    ∃ phase, At digest fold phase (body digest attempt) ∧
      ∀ key, phase.holds key = false ∧ phase.errs key = false := by
  have start (kind : Kind) (email password : Text) :
      ∃ phase, At digest fold phase (signIn digest kind email password) ∧
        ∀ key, phase.holds key = false ∧ phase.errs key = false := by
    simp only [signIn]
    split
    · exact ⟨.ended, at_ret digest fold _, fun _ => ⟨rfl, rfl⟩⟩
    · exact ⟨_, .check kind _ password, fun _ => ⟨rfl, rfl⟩⟩
  obtain ⟨kind, email, password⟩ := attempt
  cases kind with
  | staff => exact start .staff email password
  | viewer => exact start .viewer email password

/-- A request between the check and the report is one in hand or with a wrong password. -/
theorem At.asks (h : At digest fold phase rest) (key : Text) :
    rest.asks (between fold key) = (phase.holds key || phase.errs key) := by
  cases h with
  | check kind email password => rfl
  | lookUp kind email password =>
    simp [Phase.holds, Phase.errs, lookUpAccount, Procedure.asks, between]
  | burn email password => simp [Phase.holds, Phase.errs, burnVerify, Procedure.asks, between]
  | verify kind email password account =>
    simp [Phase.holds, Phase.errs, verifyAccount, Procedure.asks, between]
  | count email => simp [Phase.holds, Phase.errs, countFailure, Procedure.asks, between]
  | settle kind email password account upgrade =>
    simp [Phase.holds, Phase.errs, finishLogin, Procedure.asks, between]
  | ended uses =>
    cases rest with
    | ret reply => rfl
    | call op next =>
      cases op with
      | inl op => exact uses.1.elim
      | inr op => rfl

/-- A check that is for the key finds a failure left beside those of `n` requests. -/
def leavesRoom (fold : Text → Text) (key : Text) (w : World) (n : Nat) :
    {β : Type} → LoginOp β → Prop
  | _, .inl (.locked email) => fold email = key → counter w key + n < 5
  | _, _ => True

theorem deletes_clock {sessions sessions' : Sessions.World} {kind : Kind}
    {stays : TokenRow → Bool} {b : Unit}
    (h : deletes outcome sessions (sessions.keep kind stays) = some (b, sessions')) :
    sessions'.clock = sessions.clock := by
  rcases deletes_cases h with ⟨_, rfl⟩ | ⟨_, rfl⟩
  · rfl
  · rfl

/-- The statements do not move the clock. -/
theorem perform_clock {β : Type} {op : SessionOp β} {sessions sessions' : Sessions.World} {b : β}
    (h : Sessions.perform lower op outcome sessions = some (b, sessions')) :
    sessions'.clock = sessions.clock := by
  cases op with
  | deleteToken kind id => exact deletes_clock h
  | deleteHash kind hash => exact deletes_clock h
  | deleteOwned kind owner => exact deletes_clock h
  | deleteOthers kind owner hash => exact deletes_clock h
  | insertToken kind owner hash expiresAt =>
    rcases writes_cases h with inserted | ⟨_, rfl⟩
    · simp only [Sessions.World.insert] at inserted
      split at inserted
      · obtain ⟨t, _, rfl⟩ := Option.map_eq_some_iff.mp inserted
        rfl
      · cases inserted
    · rfl
  | setPassword kind account hash =>
    rcases writes_cases h with updated | ⟨_, rfl⟩
    · cases updated
      rfl
    · rfl
  | now =>
    cases h
    rfl
  | randomToken n => rw [draws_same h]
  | hashPassword password => rw [draws_same h]
  | findToken kind hash => rw [selects_same h]
  | account kind id => rw [selects_same h]
  | accountByEmail kind email => rw [selects_same h]

/-- What the step of a request makes of a key, beside `hand` and `wrong` other requests that leave
room for a check. -/
def Keeps (room : Text → Nat → Prop) (w w' : World) (phase phase' : Phase) : Prop :=
  ∀ key hand wrong, room key (hand + wrong) →
    Throttled key w (hand + (phase.holds key).toNat) (wrong + (phase.errs key).toNat) →
    Throttled key w' (hand + (phase'.holds key).toNat) (wrong + (phase'.errs key).toNat)

variable {room : Text → Nat → Prop} {kind : Kind} {password : Text}

theorem keeps_check (taken : (guarded digest kind email password).advance
      (perform verify lower fold) outcome w = some (rest', w')) :
    ∃ phase', At digest fold phase' rest' ∧
      Keeps (fun key n => fold email = key → counter w key + n < 5) w w' (.waiting (fold email))
        phase' := by
  obtain ⟨left, performed, rfl⟩ := advance_call taken
  cases performed
  cases passed : (w.guard.locked fold w.clock email).1 with
  | some t =>
    refine ⟨.ended, at_ret digest fold _, ?_⟩
    intro key hand wrong _ inv
    exact inv.locked email
  | none =>
    refine ⟨.inHand (fold email), .lookUp kind email password, ?_⟩
    intro key hand wrong room inv
    by_cases own : fold email = key
    · subst own
      have inv : Throttled (fold email) w hand wrong := inv
      have left : counter w (fold email) + ((hand + wrong : Nat) : Int) < 5 := room rfl
      have entered := inv.admitted passed (by omega)
      simpa [Phase.holds, Phase.errs] using entered
    · simpa [Phase.holds, Phase.errs, own] using inv.locked email

/-- After a wrong password a failure is reported; after a right one too when there is no account. -/
theorem keeps_verified {right : Bool}
    (isPhase : phase' = .wrong (fold email) ∨
      (right = true ∧ (phase' = .inHand (fold email) ∨ phase' = .ended))) :
    Keeps room w (verified fold w email right) (.inHand (fold email)) phase' := by
  intro key hand wrong _ inv
  by_cases own : fold email = key
  · subst own
    have inv : Throttled (fold email) w (hand + 1) wrong := by
      simpa [Phase.holds, Phase.errs] using inv
    rcases isPhase with rfl | ⟨rfl, rfl | rfl⟩
    · have err : Throttled (fold email) (verified fold w email right) hand (wrong + 1) := by
        cases right with
        | false => exact inv.verified_wrong
        | true => exact inv.verified_right.err
      simpa [Phase.holds, Phase.errs] using err
    · simpa [Phase.holds, Phase.errs] using inv.verified_right
    · simpa [Phase.holds, Phase.errs] using inv.verified_right.leave
  · have inv : Throttled key w hand wrong := by simpa [Phase.holds, Phase.errs, own] using inv
    have still := inv.verified_other own right
    rcases isPhase with rfl | ⟨_, rfl | rfl⟩
    · simpa [Phase.holds, Phase.errs, own] using still
    · simpa [Phase.holds, Phase.errs, own] using still
    · simpa [Phase.holds, Phase.errs, own] using still

/-- A request in hand goes on, or ends without a report. -/
theorem keeps_hand (isPhase : phase' = .inHand key ∨ phase' = .ended) {sessions : Sessions.World}
    (clock : sessions.clock = w.clock) :
    Keeps room w { w with sessions := sessions } (.inHand key) phase' := by
  intro key' hand wrong _ inv
  have inv := inv.later (Int.le_of_eq clock.symm)
  rcases isPhase with rfl | rfl
  · exact inv
  · by_cases own : key = key'
    · subst own
      have inv : Throttled key { w with sessions := sessions } (hand + 1) wrong := by
        simpa [Phase.holds, Phase.errs] using inv
      exact inv.leave
    · simpa [Phase.holds, Phase.errs, own] using inv

theorem keeps_count : Keeps room w (failed fold w email) (.wrong (fold email)) .ended := by
  intro key hand wrong _ inv
  by_cases own : fold email = key
  · subst own
    have inv : Throttled (fold email) w hand (wrong + 1) := by
      simpa [Phase.holds, Phase.errs] using inv
    exact inv.failed
  · have inv : Throttled key w hand wrong := by simpa [Phase.holds, Phase.errs, own] using inv
    exact inv.failed_other own

theorem keeps_settle : Keeps room w (succeeded fold w email) (.inHand (fold email)) .ended := by
  intro key hand wrong _ inv
  by_cases own : fold email = key
  · subst own
    have inv : Throttled (fold email) w (hand + 1) wrong := by
      simpa [Phase.holds, Phase.errs] using inv
    exact inv.succeeded
  · have inv : Throttled key w hand wrong := by simpa [Phase.holds, Phase.errs, own] using inv
    exact inv.succeeded_other own

theorem harmless_finish (account : Account) (upgrade : Bool) :
    Uses harmless ((lift .inr (rehash kind account password upgrade) : Procedure LoginOp Unit) >>=
      fun _ => lift .inr (issue digest kind account) >>= fun answer => pure (plain answer)) := by
  apply uses_bind (uses_lift (fun _ => trivial) _)
  intro _
  apply uses_bind (uses_lift (fun _ => trivial) _)
  intro answer
  trivial

theorem At.advance (h : At digest fold phase rest)
    (taken : rest.advance (perform verify lower fold) outcome w = some (rest', w')) :
    ∃ phase', At digest fold phase' rest' ∧
      Keeps (fun key n => rest.Starts (leavesRoom fold key w n)) w w' phase phase' := by
  cases h with
  | check kind email password => exact keeps_check taken
  | lookUp kind email password =>
    obtain ⟨found, performed, rfl⟩ := advance_call taken
    obtain ⟨⟨row, sessions⟩, selected, same⟩ := Option.map_eq_some_iff.mp performed
    cases same
    have clock := perform_clock selected
    cases row with
    | failed => exact ⟨.ended, at_ret digest fold _, keeps_hand (.inr rfl) clock⟩
    | missing =>
      exact ⟨.inHand (fold email), .burn email password, keeps_hand (.inl rfl) clock⟩
    | found account =>
      exact ⟨.inHand (fold email), .verify kind email password account,
        keeps_hand (.inl rfl) clock⟩
  | burn email password =>
    obtain ⟨_, performed, rfl⟩ := advance_call taken
    cases performed
    exact ⟨.wrong (fold email), .count email, keeps_verified (.inl rfl)⟩
  | verify kind email password account =>
    obtain ⟨answer, performed, rfl⟩ := advance_call taken
    obtain ⟨isAnswer, rfl⟩ := Prod.mk.inj (Option.some.inj performed)
    rw [isAnswer]
    obtain ⟨right, upgrade⟩ := answer
    cases right with
    | false => exact ⟨.wrong (fold email), .count email, keeps_verified (.inl rfl)⟩
    | true =>
      change ∃ phase', At digest fold phase' (if account.disabled then
          .ret (plain (refuse 403 "forbidden" "account disabled"))
        else finishLogin digest kind email password account upgrade) ∧ _
      split
      · exact ⟨.ended, at_ret digest fold _, keeps_verified (.inr ⟨rfl, .inr rfl⟩)⟩
      · exact ⟨.inHand (fold email), .settle kind email password account upgrade,
          keeps_verified (.inr ⟨rfl, .inl rfl⟩)⟩
  | count email =>
    obtain ⟨_, performed, rfl⟩ := advance_call taken
    cases performed
    exact ⟨.ended, at_ret digest fold _, keeps_count⟩
  | settle kind email password account upgrade =>
    obtain ⟨_, performed, rfl⟩ := advance_call taken
    cases performed
    exact ⟨.ended, .ended (harmless_finish account upgrade), keeps_settle⟩
  | ended uses =>
    cases rest with
    | ret reply => cases taken
    | call op next =>
      obtain ⟨b, performed, rfl⟩ := advance_call taken
      cases op with
      | inl op => exact uses.1.elim
      | inr op =>
        obtain ⟨⟨b', sessions⟩, stated, same⟩ := Option.map_eq_some_iff.mp performed
        cases same
        refine ⟨.ended, .ended (uses.2 _), ?_⟩
        intro key hand wrong _ inv
        exact inv.later (Int.le_of_eq (perform_clock stated).symm)

structure Placed (digest fold : Text → Text) (m : Serving) (places : Places Nat Phase) : Prop where
  distinct : m.ids.Nodup
  known : ∀ i call, m.pool.calls i = some call → i ∈ m.ids
  here : ∀ i call, m.pool.calls i = some call →
    ∃ phase, places i = some phase ∧ At digest fold phase call.rest
  gone : ∀ i, m.pool.calls i = none → places i = none

structure Inv (digest fold : Text → Text) (m : Serving) (places : Places Nat Phase) : Prop extends
    Placed digest fold m places where
  throttled : ∀ key, Throttled key m.pool.world (tally m.ids places (·.holds key))
    (tally m.ids places (·.errs key))

variable {m m' : Serving} {places : Places Nat Phase} {i : Nat}

theorem Placed.inFlight (h : Placed digest fold m places) (key : Text) :
    inFlight fold m key = tally m.ids places (·.holds key) + tally m.ids places (·.errs key) := by
  have apart : ∀ phase : Phase, phase.holds key = true → phase.errs key = false := by
    intro phase holds
    cases phase with
    | inHand k => rfl
    | _ => cases holds
  rw [← tally_or m.ids places apart]
  apply List.countP_congr
  intro i _
  cases call : m.pool.calls i with
  | none => rw [h.gone i call, Option.any_none, Option.any_none]
  | some c =>
    obtain ⟨phase, isPhase, there⟩ := h.here i c call
    rw [isPhase, Option.any_some, Option.any_some, there.asks key]

/-- A call starts, moves on or ends. -/
theorem Placed.set (h : Placed digest fold m places)
    (call : Option (Call Attempt LoginOp Reply)) (next : Option Phase) (world : World)
    {ids : List Nat}
    (fits : ∀ c, call = some c → ∃ phase, next = some phase ∧ At digest fold phase c.rest)
    (free : call = none → next = none) (distinct : ids.Nodup) (sub : ∀ j ∈ m.ids, j ∈ ids)
    (known : i ∈ ids) :
    Placed digest fold ⟨{ m.pool.setCall i call with world := world }, ids⟩
      (places.set i next) := by
  constructor
  · exact distinct
  · intro j c found
    by_cases same : j = i
    · exact same ▸ known
    · exact sub j (h.known j c ((Pool.setCall_ne m.pool call same).symm.trans found))
  · intro j c found
    by_cases same : j = i
    · subst same
      rw [set_self]
      exact fits c ((Pool.setCall_self m.pool j call).symm.trans found)
    · rw [set_ne places next same]
      exact h.here j c ((Pool.setCall_ne m.pool call same).symm.trans found)
  · intro j none
    by_cases same : j = i
    · subst same
      rw [set_self]
      exact free ((Pool.setCall_self m.pool j call).symm.trans none)
    · rw [set_ne places next same]
      exact h.gone j ((Pool.setCall_ne m.pool call same).symm.trans none)

theorem inv_start (digest fold : Text → Text) (sessions : Sessions.World) :
    Inv digest fold (start sessions) fun _ => none := by
  constructor
  · exact ⟨List.nodup_nil, nofun, nofun, fun _ _ => rfl⟩
  · intro key
    refine ⟨Guard.counted_empty, .fresh, rfl, Int.le_refl 0, ?_, ?_, ?_⟩
    · change (0 : Int) ≤ 5
      decide
    · intro t held
      cases held
    · intro _ t isLock
      cases isLock

variable {attempt : Attempt}

theorem Inv.receive (h : Inv digest fold m places)
    (taken : step digest verify lower fold m (.receive i attempt) = some m') :
    ∃ places', Inv digest fold m' places' := by
  simp only [step] at taken
  split at taken
  · cases taken
  next new =>
    obtain ⟨pool, started, rfl⟩ := Option.map_eq_some_iff.mp taken
    obtain ⟨_, rfl⟩ := Pool.start_cases started
    obtain ⟨phase, isAt, outside⟩ := at_body digest fold attempt
    refine ⟨places.set i (some phase), ?_, ?_⟩
    · refine h.set (some ⟨attempt, body digest attempt⟩) (some phase) m.pool.world ?_ ?_
        (List.nodup_cons.mpr ⟨new, h.distinct⟩) (fun j mem => List.mem_cons_of_mem i mem)
        List.mem_cons_self
      · intro c isCall
        cases isCall
        exact ⟨phase, rfl, isAt⟩
      · intro no
        cases no
    · intro key
      have holds := tally_cons_set places new (some phase) (·.holds key)
      have errs := tally_cons_set places new (some phase) (·.errs key)
      rw [Option.any_some, (outside key).1] at holds
      rw [Option.any_some, (outside key).2] at errs
      change Throttled key m.pool.world _ _
      rw [holds, errs]
      exact h.throttled key

theorem Inv.advance (h : Inv digest fold m places) (paced : Paced fold m (.advance i outcome))
    (taken : step digest verify lower fold m (.advance i outcome) = some m') :
    ∃ places', Inv digest fold m' places' := by
  obtain ⟨pool, advanced, rfl⟩ := Option.map_eq_some_iff.mp taken
  obtain ⟨call, rest', world, found, moved, rfl⟩ := Pool.advance_cases advanced
  obtain ⟨phase, here, isAt⟩ := h.here i call found
  have known := h.known i call found
  obtain ⟨phase', isAt', keeps⟩ := isAt.advance moved
  refine ⟨places.set i (some phase'), ?_, ?_⟩
  · refine h.set (some ⟨call.request, rest'⟩) (some phase') world ?_ ?_ h.distinct
      (fun _ mem => mem) known
    · intro c isCall
      cases isCall
      exact ⟨phase', rfl, isAt'⟩
    · intro no
      cases no
  · intro key
    have holds := tally_set places h.distinct known (some phase') (·.holds key)
    have errs := tally_set places h.distinct known (some phase') (·.errs key)
    have total := h.inFlight key
    have old := h.throttled key
    have isHand := toNat_le_tally known here (·.holds key)
    have isWrong := toNat_le_tally known here (·.errs key)
    rw [here, Option.any_some, Option.any_some] at holds errs
    change Throttled key world _ _
    generalize tally m.ids (places.set i (some phase')) (·.holds key) = hand' at holds
    generalize tally m.ids (places.set i (some phase')) (·.errs key) = wrong' at errs
    generalize tally m.ids places (·.holds key) = hand at holds total old isHand
    generalize tally m.ids places (·.errs key) = wrong at errs total old isWrong
    obtain ⟨hand, rfl⟩ := Nat.exists_eq_add_of_le' isHand
    obtain ⟨wrong, rfl⟩ := Nat.exists_eq_add_of_le' isWrong
    obtain rfl : hand' = hand + (phase'.holds key).toNat := by omega
    obtain rfl : wrong' = wrong + (phase'.errs key).toNat := by omega
    refine keeps key hand wrong ?_ old
    refine (paced call found).mono fun op tries => ?_
    cases op with
    | inl op =>
      cases op with
      | locked email =>
        rintro rfl
        have tries : counter m.pool.world (fold email) + inFlight fold m (fold email) <
            loginMaxFailures := of_decide_eq_true tries
        rw [total] at tries
        simp only [loginMaxFailures] at tries
        omega
      | _ => trivial
    | inr op => trivial

theorem Inv.answer (h : Inv digest fold m places)
    (taken : step digest verify lower fold m (.answer i) = some m') :
    ∃ places', Inv digest fold m' places' := by
  obtain ⟨pool, finished, rfl⟩ := Option.map_eq_some_iff.mp taken
  obtain ⟨request, reply, found, rfl⟩ := Pool.finish_cases finished
  obtain ⟨phase, here, isAt⟩ := h.here i _ found
  have known := h.known i _ found
  refine ⟨places.set i none, ?_, ?_⟩
  · exact h.set none none m.pool.world nofun (fun _ => rfl) h.distinct (fun _ mem => mem) known
  · intro key
    have silent := isAt.asks key
    have holds := tally_set places h.distinct known none (·.holds key)
    have errs := tally_set places h.distinct known none (·.errs key)
    have none_left : phase.holds key = false ∧ phase.errs key = false := by
      simpa [Procedure.asks] using silent
    rw [here, Option.any_some, none_left.1] at holds
    rw [here, Option.any_some, none_left.2] at errs
    change Throttled key m.pool.world _ _
    simp only [Option.any_none, Bool.toNat_false, Nat.add_zero] at holds errs
    rw [holds, errs]
    exact h.throttled key

theorem Inv.later (h : Inv digest fold m places) {sessions : Sessions.World}
    (later : m.pool.world.clock ≤ sessions.clock) :
    Inv digest fold { m with pool.world.sessions := sessions } places :=
  ⟨⟨h.distinct, h.known, h.here, h.gone⟩, fun key => (h.throttled key).later later⟩

theorem inv_run {sessions : Sessions.World} {trace : List Action}
    (run : Run (step digest verify lower fold) (Paced fold) (start sessions) trace m) :
    ∃ places, Inv digest fold m places := by
  refine run.invariant (fun m => ∃ places, Inv digest fold m places)
    ⟨_, inv_start digest fold sessions⟩ ?_
  rintro m a m' ⟨places, inv⟩ paced taken
  cases a with
  | receive i attempt => exact inv.receive taken
  | advance i outcome => exact inv.advance paced taken
  | answer i => exact inv.answer taken
  | elapse d =>
    cases taken
    exact ⟨places, inv.later (Int.le_add_of_nonneg_right (Int.natCast_nonneg d))⟩
  | tables accounts tokens =>
    cases taken
    exact ⟨places, inv.later (Int.le_refl _)⟩

/-- In every run in which each request that asks the guard finds fewer failures and undecided
requests than it takes to lock the key out, no sixth wrong password is verified before the lockout,
and nothing is verified while it lasts. -/
theorem throttled_while_paced (digest : Text → Text) (verify : Text → Text → Bool × Bool)
    (lower fold : Text → Text) (sessions : Sessions.World) (trace : List Action) (m : Serving)
    (run : Run (step digest verify lower fold) (Paced fold) (start sessions) trace m)
    (key : Text) : (Policy.follow key m.pool.world.log).isSome = true := by
  obtain ⟨places, inv⟩ := inv_run run
  obtain ⟨p, followed, _⟩ := (inv.throttled key).policy
  rw [followed]
  rfl

/-- No accounts, no tokens. -/
def nobody : Sessions.World := ⟨0, fun _ => [], fun _ => .empty⟩

/-- The first steps of a sign-in. -/
def attempts (id steps : Nat) : List Action :=
  .receive id ⟨.staff, ['a'], ['p']⟩ :: List.replicate steps (.advance id .ok)

/-- Five wrong passwords one after the other, a sixth sign-in that is turned away, and another one
when the lockout is over. -/
def patient : List Action :=
  (List.range 5).flatMap (fun i => attempts i 4) ++ attempts 5 1 ++ [.elapse 600000000000] ++
    attempts 6 4

theorem throttled_after_lockout : ∃ m, Run (step id (fun _ _ => (false, false)) id id) (Paced id)
    (start nobody) patient m ∧ (Policy.follow ['a'] m.pool.world.log).isSome = true := by
  have executed : (exec (step id (fun _ _ => (false, false)) id id)
      (fun m a => decide (Paced id m a)) (start nobody) patient).any (fun _ => true) = true := by
    decide +kernel
  obtain ⟨m, run, _⟩ := exists_run (fun _ _ => of_decide_eq_true) executed
  exact ⟨m, run, throttled_while_paced id (fun _ _ => (false, false)) id id nobody _ m run ['a']⟩

/-- Six sign-ins pass the check before the first of them has failed. -/
theorem sixth_guess_verified :
    ¬ ∀ digest verify lower fold, Throttles digest verify lower fold Always := by
  intro claimed
  have executed : (exec (step id (fun _ _ => (false, false)) id id) (fun _ _ => true)
      (start nobody) ((List.range 6).flatMap fun i => attempts i 3)).any
        (fun m => (Policy.follow ['a'] m.pool.world.log).isNone) = true := by
    decide +kernel
  obtain ⟨m, run, broken⟩ := exists_run (fun _ _ _ => trivial) executed
  have kept := claimed id (fun _ _ => (false, false)) id id nobody _ m run ['a']
  rw [Option.isNone_iff_eq_none] at broken
  rw [broken] at kept
  cases kept

end Vidsilo.Api.LoginRuns
