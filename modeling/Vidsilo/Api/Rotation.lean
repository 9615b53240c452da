import Mathlib.Logic.Function.Basic
import Vidsilo.Api.Sessions

/-!
# How often a refresh token is exchanged

Source: internal/api/auth.go:164-208, internal/api/viewers.go:99-134. Between the lookup of the
token and the `DELETE` whose row count is ignored, other requests take their turns.
-/
namespace Vidsilo.Api.Rotation
open Library Library.Procedure Library.SlashPath Library.Transition Sessions

/-- The answers with a new session to requests that present the token. -/
def sessions (kind : Kind) (token : Text) (answered : List (Request × Answer)) : Nat :=
  answered.countP fun r => r.1 = .refresh kind (some token) && r.2.isSession

/-- The `DELETE` of an exchange is carried out. -/
def carriedOut (kind : Kind) (outcome : Outcome) : {β : Type} → SessionOp β → Bool
  | _, .deleteToken k _ => k ≠ kind || outcome = .ok
  | _, _ => true

/-- The `DELETE` of an exchange is carried out and still finds the row. -/
def finds (kind : Kind) (outcome : Outcome) (w : World) : {β : Type} → SessionOp β → Bool
  | _, .deleteToken k id => k ≠ kind || (outcome = .ok && (w.tokens kind).rows.any (·.id = id))
  | _, _ => true

/-- No token that is issued is the one in question again. -/
def Issues (digest : Text → Text) (kind : Kind) (token : Text) (m : Serving) : Action → Prop
  | .advance id _ => ∀ call ∈ m.pool.calls id,
      call.rest.Starts fun op => fresh kind (digest token) op = true
  | _ => True

/-- The `DELETE` of every exchange is carried out. -/
def Deletes (kind : Kind) (m : Serving) : Action → Prop
  | .advance id outcome => ∀ call ∈ m.pool.calls id,
      call.rest.Starts fun op => carriedOut kind outcome op = true
  | _ => True

/-- The `DELETE` of every exchange finds its row. -/
def Rotates (kind : Kind) (m : Serving) : Action → Prop
  | .advance id outcome => ∀ call ∈ m.pool.calls id,
      call.rest.Starts fun op => finds kind outcome m.pool.world op = true
  | _ => True

/-- No token issued is the one in question, and every `DELETE` of an exchange is carried out. -/
def Carried (digest : Text → Text) (kind : Kind) (token : Text) (m : Serving) (a : Action) :
    Prop :=
  Issues digest kind token m a ∧ Deletes kind m a

/-- No token issued is the one in question, and every `DELETE` of an exchange finds its row. -/
def Exchanges (digest : Text → Text) (kind : Kind) (token : Text) (m : Serving) (a : Action) :
    Prop :=
  Issues digest kind token m a ∧ Rotates kind m a

instance (digest : Text → Text) (kind : Kind) (token : Text) (m : Serving) :
    (a : Action) → Decidable (Issues digest kind token m a)
  | .advance id _ => inferInstanceAs (Decidable (∀ call ∈ m.pool.calls id, _))
  | .receive _ _ | .answer _ | .elapse _ | .accounts _ _ => isTrue trivial

instance (kind : Kind) (m : Serving) : (a : Action) → Decidable (Deletes kind m a)
  | .advance id _ => inferInstanceAs (Decidable (∀ call ∈ m.pool.calls id, _))
  | .receive _ _ | .answer _ | .elapse _ | .accounts _ _ => isTrue trivial

instance (kind : Kind) (m : Serving) : (a : Action) → Decidable (Rotates kind m a)
  | .advance id _ => inferInstanceAs (Decidable (∀ call ∈ m.pool.calls id, _))
  | .receive _ _ | .answer _ | .elapse _ | .accounts _ _ => isTrue trivial

instance (digest : Text → Text) (kind : Kind) (token : Text) (m : Serving) (a : Action) :
    Decidable (Carried digest kind token m a) :=
  inferInstanceAs (Decidable (_ ∧ _))

instance (digest : Text → Text) (kind : Kind) (token : Text) (m : Serving) (a : Action) :
    Decidable (Exchanges digest kind token m a) :=
  inferInstanceAs (Decidable (_ ∧ _))

/-- At most one request that presents the token is answered with a new session. -/
def AtMostOnce (digest : Text → Text) (verify : Text → Text → Bool × Bool) (lower : Text → Text)
    (cond : Serving → Action → Prop) (kind : Kind) (token : Text) (w : World) : Prop :=
  ∀ trace m, Run (step digest verify lower) cond (start w) trace m →
    sessions kind token m.answered ≤ 1

section Parts
variable (digest : Text → Text) (kind : Kind)

def useAccount (disabled : Answer) (row : TokenRow) : Handler := do
  match ← ask (.account kind row.owner) with
  | .found account => if account.disabled then pure disabled else rotate digest kind row.id account
  | _ => pure (refuse 401 "unauthorized" "invalid refresh token")

def revokeFamily (owner : Nat) : Handler := do
  ask (.deleteOwned kind owner)
  pure (.failure 401 "unauthorized" "session revoked" true)

def useRow (disabled : Answer) (row : TokenRow) : Handler := do
  let now ← ask .now
  if row.revoked = true ∨ row.expiresAt < now then revokeFamily kind row.owner
  else useAccount digest kind disabled row

def insertAt (account : Account) (raw : Text) (now : Time) : Handler := do
  match ← ask (.insertToken kind account.id (digest raw) (now + refreshTTL)) with
  | false => pure internalError
  | true => pure (.session account raw)

def store (account : Account) (raw : Text) : Handler := do
  let now ← ask .now
  insertAt digest kind account raw now

/-- `holding` is the id that the `DELETE` will have; a request that is `spent` has had it. -/
inductive Phase where
  | begin
  | holding (id : Nat)
  | spent
  | over

inductive At (token : Text) : Phase → Handler → Prop where
  | find {disabled : Answer} (refused : disabled.isSession = false) (given : token ≠ []) :
    At token .begin (refresh digest kind disabled (some token))
  | check {disabled : Answer} (refused : disabled.isSession = false) (row : TokenRow) :
    At token (.holding row.id) (useRow digest kind disabled row)
  | revoke (owner : Nat) : At token .over (revokeFamily kind owner)
  | account {disabled : Answer} (refused : disabled.isSession = false) (row : TokenRow) :
    At token (.holding row.id) (useAccount digest kind disabled row)
  | rotate (id : Nat) (account : Account) : At token (.holding id) (rotate digest kind id account)
  | issue (account : Account) : At token .spent (issue digest kind account)
  | store (account : Account) (raw : Text) : At token .spent (store digest kind account raw)
  | insert (account : Account) (raw : Text) (now : Time) :
    At token .spent (insertAt digest kind account raw now)
  | session (account : Account) (raw : Text) : At token .spent (.ret (.session account raw))
  | refused {answer : Answer} (refused : answer.isSession = false) : At token .over (.ret answer)

end Parts

/-- The id belongs to the row with the hash, if there still is one. -/
def Phase.Ok (kind : Kind) (hash : Text) (w : World) : Phase → Prop
  | .holding id => id < (w.tokens kind).nextId ∧
      ∀ row ∈ (w.tokens kind).rows, row.id = id ↔ row.tokenHash = hash
  | _ => True

variable {digest : Text → Text} {verify : Text → Text → Bool × Bool} {lower : Text → Text}
  {kind : Kind} {token hash : Text} {w w' : World} {outcome : Outcome} {phase : Phase}
  {rest rest' : Handler}

def Absent (kind : Kind) (hash : Text) (w : World) : Prop :=
  ∀ row ∈ (w.tokens kind).rows, row.tokenHash ≠ hash

theorem carriedOut_of_finds {β : Type} {op : SessionOp β} (h : finds kind outcome w op = true) :
    carriedOut kind outcome op = true := by
  cases op with
  | deleteToken k id =>
    simp only [finds, carriedOut, Bool.or_eq_true, Bool.and_eq_true] at h ⊢
    exact h.imp_right And.left
  | _ => rfl

theorem Exchanges.carried {m : Serving} {a : Action} (h : Exchanges digest kind token m a) :
    Carried digest kind token m a := by
  obtain ⟨issues, rotates⟩ := h
  refine ⟨issues, ?_⟩
  cases a with
  | advance id outcome =>
    intro call mem
    exact (rotates call mem).mono fun _ found => carriedOut_of_finds found
  | _ => trivial

theorem Phase.Ok.evolves (h : phase.Ok kind hash w) (evolves : Evolves kind hash w w') :
    phase.Ok kind hash w' := by
  cases phase with
  | holding id =>
    obtain ⟨below, only⟩ := h
    refine ⟨Nat.lt_of_lt_of_le below evolves.grows, fun row mem => ?_⟩
    rcases evolves.rows row mem with old | ⟨other, new⟩
    · exact only row old
    · constructor
      · intro isId
        omega
      · exact fun isHash => absurd isHash other
  | _ => trivial

theorem Absent.evolves (h : Absent kind hash w) (evolves : Evolves kind hash w w') :
    Absent kind hash w' := by
  intro row mem
  rcases evolves.rows row mem with old | ⟨other, _⟩
  · exact h row old
  · exact other

theorem at_body (digest : Text → Text) (verify : Text → Text → Bool × Bool) (kind : Kind)
    (token : Text) :
    ∃ phase, At digest kind token phase (body digest verify (.refresh kind (some token))) ∧
      (phase = .begin ∨ phase = .over) := by
  cases token with
  | nil =>
    cases kind with
    | _ => exact ⟨.over, .refused rfl, .inr rfl⟩
  | cons c token =>
    cases kind with
    | _ => exact ⟨.begin, .find rfl (List.cons_ne_nil c token), .inl rfl⟩

/-- The `DELETE` leaves no row with the hash. -/
theorem absent_deleted {id : Nat} (ok : (Phase.holding id).Ok kind hash w) :
    Absent kind hash (w.keep kind (·.id ≠ id)) := by
  intro row mem isHash
  have isTable : (w.keep kind (·.id ≠ id)).tokens kind = (w.tokens kind).keep (·.id ≠ id) :=
    if_pos rfl
  rw [isTable] at mem
  obtain ⟨old, stays⟩ := List.mem_filter.mp mem
  exact of_decide_eq_true stays ((ok.2 row old).mpr isHash)

/-- What the next step of a request makes of its phase: it is spent only by a `DELETE`, after
which there is no row any more; one that finds the row shows that there was one. -/
def Moves (kind : Kind) (hash : Text) (found : Prop) (w w' : World) (phase phase' : Phase) :
    Prop :=
  phase'.Ok kind hash w' ∧ (phase' = .spent →
    phase = .spent ∨ (Absent kind hash w' ∧ (found → ¬ Absent kind hash w)))

theorem At.advance (h : At digest kind token phase rest)
    (ok : phase.Ok kind (digest token) w)
    (isCarried : rest.Starts fun op => carriedOut kind outcome op = true)
    (taken : rest.advance (perform lower) outcome w = some (rest', w')) :
    ∃ phase', At digest kind token phase' rest' ∧ Moves kind (digest token)
      (rest.Starts fun op => finds kind outcome w op = true) w w' phase phase' := by
  cases h with
  | @find disabled refused given =>
    obtain ⟨c, later, rfl⟩ := List.exists_cons_of_ne_nil given
    obtain ⟨found, performed, rfl⟩ := advance_call taken
    obtain rfl := selects_same performed
    cases found with
    | failed => exact ⟨.over, .refused rfl, trivial, nofun⟩
    | missing => exact ⟨.over, .refused rfl, trivial, nofun⟩
    | found row =>
      refine ⟨.holding row.id, .check refused row, ?_, nofun⟩
      have isRow := selects_found performed
      have mem := List.mem_of_find?_eq_some isRow
      have isHash : row.tokenHash = digest (c :: later) := by simpa using List.find?_some isRow
      refine ⟨(w'.tokens kind).below row mem, fun row' mem' => ?_⟩
      constructor
      · intro same
        rw [List.inj_on_of_nodup_map (w'.tokens kind).ids mem' mem same]
        exact isHash
      · intro same
        rw [List.inj_on_of_nodup_map (w'.tokens kind).hashes mem' mem (same.trans isHash.symm)]
  | @check disabled refused row =>
    obtain ⟨now, performed, rfl⟩ := advance_call taken
    cases performed
    change ∃ phase', At digest kind token phase'
      (if row.revoked = true ∨ row.expiresAt < w.clock then revokeFamily kind row.owner
        else useAccount digest kind disabled row) ∧ _
    split
    · exact ⟨.over, .revoke row.owner, trivial, nofun⟩
    · exact ⟨.holding row.id, .account refused row, ok, nofun⟩
  | revoke owner =>
    obtain ⟨_, _, rfl⟩ := advance_call taken
    exact ⟨.over, .refused rfl, trivial, nofun⟩
  | @account disabled refused row =>
    obtain ⟨found, performed, rfl⟩ := advance_call taken
    obtain rfl := selects_same performed
    cases found with
    | found account =>
      change ∃ phase', At digest kind token phase'
        (if account.disabled then .ret disabled else Sessions.rotate digest kind row.id account) ∧ _
      split
      · exact ⟨.over, .refused refused, trivial, nofun⟩
      · exact ⟨.holding row.id, .rotate row.id account, ok, nofun⟩
    | _ => exact ⟨.over, .refused rfl, trivial, nofun⟩
  | rotate id account =>
    obtain ⟨_, performed, rfl⟩ := advance_call taken
    obtain rfl : outcome = .ok := by
      have isCarried : carriedOut kind outcome (.deleteToken kind id) = true := isCarried
      simpa [carriedOut] using isCarried
    cases performed
    refine ⟨.spent, .issue account, trivial, fun _ => .inr ⟨absent_deleted ok, ?_⟩⟩
    intro found absent
    have found : finds kind .ok w (.deleteToken kind id) = true := found
    obtain ⟨row, mem, isId⟩ : ∃ row ∈ (w.tokens kind).rows, row.id = id := by
      simpa [finds] using found
    exact absent row mem ((ok.2 row mem).mp isId)
  | issue account =>
    obtain ⟨drawn, _, rfl⟩ := advance_call taken
    cases drawn with
    | none => exact ⟨.over, .refused rfl, trivial, nofun⟩
    | some raw => exact ⟨.spent, .store account raw, trivial, fun _ => .inl rfl⟩
  | store account raw =>
    obtain ⟨now, _, rfl⟩ := advance_call taken
    exact ⟨.spent, .insert account raw now, trivial, fun _ => .inl rfl⟩
  | insert account raw now =>
    obtain ⟨written, _, rfl⟩ := advance_call taken
    cases written with
    | false => exact ⟨.over, .refused rfl, trivial, nofun⟩
    | true => exact ⟨.spent, .session account raw, trivial, fun _ => .inl rfl⟩
  | session account raw => cases taken
  | refused _ => cases taken

theorem At.answered {reply : Answer} (h : At digest kind token phase rest)
    (isReply : rest = .ret reply) (isSession : reply.isSession = true) : phase = .spent := by
  cases h with
  | find refused given =>
    obtain ⟨c, later, rfl⟩ := List.exists_cons_of_ne_nil given
    cases isReply
  | session account raw => rfl
  | refused refused =>
    cases isReply
    exact nomatch isSession.symm.trans refused
  | _ => cases isReply

/-- `phases` says where the requests that present the token are. -/
structure Placed (digest : Text → Text) (kind : Kind) (token : Text) (phases : Nat → Phase)
    (pool : Pool Nat Request SessionOp Answer World) : Prop where
  here : ∀ i rest, pool.calls i = some ⟨.refresh kind (some token), rest⟩ →
    At digest kind token (phases i) rest ∧ (phases i).Ok kind (digest token) pool.world
  elsewhere : ∀ i, (∀ rest, pool.calls i ≠ some ⟨.refresh kind (some token), rest⟩) →
    phases i = .over

/-- Once the token has been exchanged, its row is gone. -/
structure Gone (digest : Text → Text) (kind : Kind) (token : Text) (phases : Nat → Phase)
    (m : Serving) : Prop where
  placed : Placed digest kind token phases m.pool
  absent : (0 < sessions kind token m.answered ∨ ∃ i, phases i = .spent) →
    Absent kind (digest token) m.pool.world

structure Once (digest : Text → Text) (kind : Kind) (token : Text) (phases : Nat → Phase)
    (m : Serving) : Prop extends Gone digest kind token phases m where
  last : 0 < sessions kind token m.answered → ∀ i, phases i ≠ .spent
  alone : ∀ i j, phases i = .spent → phases j = .spent → i = j
  once : sessions kind token m.answered ≤ 1

/-- What a step does: request `i` comes to `phase'`, or a spent one is answered with a session. -/
structure Turn (digest : Text → Text) (kind : Kind) (token : Text) (found : Prop)
    (phases : Nat → Phase) (m m' : Serving) (i : Nat) (phase' : Phase) : Prop where
  evolves : Evolves kind (digest token) m.pool.world m'.pool.world
  placed : Placed digest kind token (Function.update phases i phase') m'.pool
  spends : phase' = .spent → phases i = .spent ∨
    (Absent kind (digest token) m'.pool.world ∧
      (found → ¬ Absent kind (digest token) m.pool.world))
  answers : sessions kind token m'.answered = sessions kind token m.answered ∨
    (sessions kind token m'.answered = sessions kind token m.answered + 1 ∧
      phases i = .spent ∧ phase' = .over)

variable {phases : Nat → Phase} {m m' : Serving} {i : Nat} {phase' : Phase} {found : Prop}
  {pool : Pool Nat Request SessionOp Answer World} {request : Request} {a : Action}

theorem gone_start (w : World) : Gone digest kind token (fun _ => .over) (start w) := by
  refine ⟨⟨nofun, fun _ _ => rfl⟩, ?_⟩
  rintro (no | ⟨_, no⟩)
  · cases no
  · cases no

theorem Placed.set (h : Placed digest kind token phases pool)
    (evolves : Evolves kind (digest token) pool.world w')
    {call : Option (Call Request SessionOp Answer)}
    (fits : ∀ rest, call = some ⟨.refresh kind (some token), rest⟩ →
      At digest kind token phase' rest ∧ phase'.Ok kind (digest token) w')
    (other : (∀ rest, call ≠ some ⟨.refresh kind (some token), rest⟩) → phase' = .over) :
    Placed digest kind token (Function.update phases i phase')
      { pool.setCall i call with world := w' } := by
  constructor
  · intro j rest found
    by_cases same : j = i
    · subst same
      rw [Function.update_self]
      exact fits rest ((Pool.setCall_self pool j call).symm.trans found)
    · rw [Function.update_of_ne same]
      obtain ⟨there, ok⟩ := h.here j rest ((Pool.setCall_ne pool call same).symm.trans found)
      exact ⟨there, ok.evolves evolves⟩
  · intro j none
    by_cases same : j = i
    · subst same
      rw [Function.update_self]
      exact other fun rest isCall =>
        none rest ((Pool.setCall_self pool j call).trans isCall)
    · rw [Function.update_of_ne same]
      exact h.elsewhere j fun rest found =>
        none rest ((Pool.setCall_ne pool call same).trans found)

theorem Placed.receive (h : Placed digest kind token phases m.pool)
    (taken : step digest verify lower m (.receive i request) = some m') :
    ∃ phase', Turn digest kind token found phases m m' i phase' := by
  obtain ⟨pool, started, rfl⟩ := Option.map_eq_some_iff.mp taken
  obtain ⟨_, rfl⟩ := Pool.start_cases started
  have still : Evolves kind (digest token) m.pool.world m.pool.world := evolves_same rfl
  by_cases ours : request = .refresh kind (some token)
  · subst ours
    obtain ⟨phase, here, isPhase⟩ := at_body digest verify kind token
    refine ⟨phase, still, h.set still ?_ ?_, ?_, .inl rfl⟩
    · intro rest isCall
      cases isCall
      refine ⟨here, ?_⟩
      rcases isPhase with rfl | rfl
      · trivial
      · trivial
    · exact fun none => absurd rfl (none _)
    · rintro rfl
      rcases isPhase with no | no
      · cases no
      · cases no
  · refine ⟨.over, still, h.set still ?_ fun _ => rfl, nofun, .inl rfl⟩
    intro rest isCall
    cases isCall
    exact absurd rfl ours

theorem Placed.advance (h : Placed digest kind token phases m.pool)
    (carried : Carried digest kind token m (.advance i outcome))
    (taken : step digest verify lower m (.advance i outcome) = some m') :
    ∃ phase', Turn digest kind token (Rotates kind m (.advance i outcome)) phases m m' i
      phase' := by
  obtain ⟨issues, deletes⟩ := carried
  obtain ⟨pool, advanced, rfl⟩ := Option.map_eq_some_iff.mp taken
  obtain ⟨⟨request, rest₀⟩, rest, world, found, moved, rfl⟩ := Pool.advance_cases advanced
  have evolves : Evolves kind (digest token) m.pool.world world := by
    have fresh := issues _ found
    cases rest₀ with
    | ret answer => cases moved
    | call op next =>
      obtain ⟨b, performed, _⟩ := advance_call moved
      exact perform_evolves fresh performed
  by_cases ours : request = .refresh kind (some token)
  · subst ours
    obtain ⟨here, ok⟩ := h.here i rest₀ found
    obtain ⟨phase', here', ok', spends⟩ := here.advance ok (deletes _ found) moved
    refine ⟨phase', evolves, h.set evolves ?_ ?_, ?_, .inl rfl⟩
    · intro rest' isCall
      cases isCall
      exact ⟨here', ok'⟩
    · exact fun none => absurd rfl (none _)
    · intro spent
      rcases spends spent with before | ⟨gone, present⟩
      · exact .inl before
      · exact .inr ⟨gone, fun rotates => present (rotates _ found)⟩
  · refine ⟨.over, evolves, h.set evolves ?_ fun _ => rfl, nofun, .inl rfl⟩
    intro rest' isCall
    cases isCall
    exact absurd rfl ours

theorem Placed.answer (h : Placed digest kind token phases m.pool)
    (taken : step digest verify lower m (.answer i) = some m') :
    ∃ phase', Turn digest kind token found phases m m' i phase' := by
  simp only [step] at taken
  split at taken
  · next request reply isCall =>
    obtain ⟨pool, finished, rfl⟩ := Option.map_eq_some_iff.mp taken
    obtain ⟨_, _, _, rfl⟩ := Pool.finish_cases finished
    have still : Evolves kind (digest token) m.pool.world m.pool.world := evolves_same rfl
    refine ⟨.over, still, h.set still nofun fun _ => rfl, nofun, ?_⟩
    by_cases issued : request = .refresh kind (some token) ∧ reply.isSession = true
    · obtain ⟨rfl, isSession⟩ := issued
      obtain ⟨here, _⟩ := h.here i _ isCall
      refine .inr ⟨?_, here.answered rfl isSession, rfl⟩
      rw [sessions, List.countP_append]
      simp [sessions, isSession]
    · left
      rw [sessions, List.countP_append]
      simpa [sessions] using issued
  · cases taken

theorem Placed.environment (h : Placed digest kind token phases m.pool)
    (evolves : Evolves kind (digest token) m.pool.world w') :
    Turn digest kind token found phases m { m with pool.world := w' } 0 (phases 0) := by
  refine ⟨evolves, ?_, .inl, .inl rfl⟩
  rw [Function.update_eq_self]
  refine ⟨fun i rest isCall => ?_, h.elsewhere⟩
  obtain ⟨here, ok⟩ := h.here i rest isCall
  exact ⟨here, ok.evolves evolves⟩

theorem Placed.turn (h : Placed digest kind token phases m.pool)
    (carried : Carried digest kind token m a) (taken : step digest verify lower m a = some m') :
    ∃ i phase', Turn digest kind token (Rotates kind m a) phases m m' i phase' := by
  cases a with
  | receive i request => exact ⟨i, h.receive taken⟩
  | advance i outcome => exact ⟨i, h.advance carried taken⟩
  | answer i => exact ⟨i, h.answer taken⟩
  | elapse d =>
    cases taken
    exact ⟨0, phases 0, h.environment (evolves_same rfl)⟩
  | accounts k rows =>
    cases taken
    obtain ⟨grows, kept⟩ := evolves_keep kind (digest token) m.pool.world k
      fun row => rows.any (·.id = row.owner)
    exact ⟨0, phases 0, h.environment ⟨grows, kept⟩⟩

theorem Gone.turn (h : Gone digest kind token phases m)
    (turn : Turn digest kind token found phases m m' i phase') :
    Gone digest kind token (Function.update phases i phase') m' := by
  refine ⟨turn.placed, ?_⟩
  rintro (answered | ⟨j, spent⟩)
  · refine (h.absent ?_).evolves turn.evolves
    rcases turn.answers with same | ⟨_, before, _⟩
    · exact .inl (same ▸ answered)
    · exact .inr ⟨i, before⟩
  · by_cases here : j = i
    · subst here
      rw [Function.update_self] at spent
      rcases turn.spends spent with before | ⟨gone, _⟩
      · exact (h.absent (.inr ⟨j, before⟩)).evolves turn.evolves
      · exact gone
    · rw [Function.update_of_ne here] at spent
      exact (h.absent (.inr ⟨j, spent⟩)).evolves turn.evolves

/-- A newly spent request has found the row, so there was no spent one and no session before. -/
theorem Once.turn (h : Once digest kind token phases m)
    (turn : Turn digest kind token found phases m m' i phase') (isFound : found) :
    Once digest kind token (Function.update phases i phase') m' := by
  have old {j : Nat} (spent : Function.update phases i phase' j = .spent) :
      phases j = .spent ∨ (j = i ∧ ¬ Absent kind (digest token) m.pool.world) := by
    by_cases here : j = i
    · subst here
      rw [Function.update_self] at spent
      rcases turn.spends spent with before | ⟨_, present⟩
      · exact .inl before
      · exact .inr ⟨rfl, present isFound⟩
    · rw [Function.update_of_ne here] at spent
      exact .inl spent
  refine ⟨h.toGone.turn turn, ?_, ?_, ?_⟩
  · intro answered j spent
    rcases turn.answers with same | ⟨_, before, ended⟩
    · rcases old spent with earlier | ⟨_, present⟩
      · exact h.last (same ▸ answered) j earlier
      · exact present (h.absent (.inl (same ▸ answered)))
    · -- the answered request was the only spent one
      by_cases here : j = i
      · subst here
        rw [Function.update_self, ended] at spent
        cases spent
      · rw [Function.update_of_ne here] at spent
        exact here (h.alone j i spent before)
  · intro j k spent spent'
    rcases old spent with before | ⟨isJ, present⟩
    · rcases old spent' with before' | ⟨_, present⟩
      · exact h.alone j k before before'
      · exact absurd (h.absent (.inr ⟨j, before⟩)) present
    · rcases old spent' with before' | ⟨isK, _⟩
      · exact absurd (h.absent (.inr ⟨k, before'⟩)) present
      · rw [isJ, isK]
  · have bound := h.once
    rcases turn.answers with same | ⟨more, before, _⟩
    · omega
    · have none : ¬ 0 < sessions kind token m.answered := fun answered => h.last answered i before
      omega

theorem gone_run {trace : List Action}
    (h : Run (step digest verify lower) (Carried digest kind token) (start w) trace m) :
    ∃ phases, Gone digest kind token phases m := by
  apply h.invariant fun m => ∃ phases, Gone digest kind token phases m
  · exact ⟨_, gone_start w⟩
  · rintro m a m' ⟨phases, gone⟩ carried taken
    obtain ⟨i, phase', turn⟩ := gone.placed.turn carried taken
    exact ⟨_, gone.turn turn⟩

theorem once_run {trace : List Action}
    (h : Run (step digest verify lower) (Exchanges digest kind token) (start w) trace m) :
    ∃ phases, Once digest kind token phases m := by
  apply h.invariant fun m => ∃ phases, Once digest kind token phases m
  · exact ⟨_, gone_start w, nofun, nofun, Nat.zero_le 1⟩
  · rintro m a m' ⟨phases, once⟩ exchanges taken
    obtain ⟨i, phase', turn⟩ := once.placed.turn exchanges.carried taken
    exact ⟨_, once.turn turn exchanges.2⟩

/-- In every run in which the `DELETE` of every exchange finds its row, at most one request that
presents the token is answered with a new session. -/
theorem exchanged_once (digest : Text → Text) (verify : Text → Text → Bool × Bool)
    (lower : Text → Text) (kind : Kind) (token : Text) (w : World) :
    AtMostOnce digest verify lower (Exchanges digest kind token) kind token w := by
  intro trace m h
  obtain ⟨phases, once⟩ := once_run h
  exact once.once

/-- An account with one token, whose hash is the token itself. -/
def signedIn (kind : Kind) : World where
  clock := 0
  accounts := onKind (fun _ => []) kind [⟨1, ['e'], ['n'], ['h'], false⟩]
  tokens := onKind (fun _ => .empty) kind ((Table.empty.insert 1 ['a'] refreshTTL).getD .empty)

/-- A request up to its `DELETE`. -/
def looksUp (id : Nat) (kind : Kind) : List Action :=
  .receive id (.refresh kind (some ['a'])) :: List.replicate 3 (.advance id .ok)

/-- The rest of it, with the token drawn. -/
def rotates (id : Nat) (raw : Text) : List Action :=
  [.advance id .ok, .advance id (.drawn raw), .advance id .ok, .advance id .ok, .answer id]

def twoRequests (kind : Kind) : List Action :=
  looksUp 0 kind ++ looksUp 1 kind ++ rotates 0 ['b'] ++ rotates 1 ['c']

theorem not_atMostOnce {verify : Text → Text → Bool × Bool} {lower : Text → Text}
    (trace : List Action)
    (h : (exec (step id verify lower) (fun m a => decide (Issues id kind ['a'] m a))
      (start (signedIn kind)) trace).any
        (fun m => decide (1 < sessions kind ['a'] m.answered)) = true) :
    ¬ AtMostOnce id verify lower (Issues id kind ['a']) kind ['a'] (signedIn kind) := by
  intro once
  obtain ⟨m, run, many⟩ := exists_run (fun _ _ => of_decide_eq_true) h
  have bound := once trace m run
  have many := of_decide_eq_true many
  omega

def oneByOne : List Action :=
  looksUp 0 .staff ++ rotates 0 ['b'] ++
    [.receive 1 (.refresh .staff (some ['a'])), .advance 1 .ok, .answer 1]

/-- One request after the other: the first is answered with a session, the second is not. -/
theorem exchanged_once_run :
    ∃ m, Run (step id (fun _ _ => (true, false)) id) (Exchanges id .staff ['a'])
        (start (signedIn .staff)) oneByOne m ∧
      m.answered.length = 2 ∧ 0 < sessions .staff ['a'] m.answered ∧
      sessions .staff ['a'] m.answered ≤ 1 := by
  obtain ⟨m, run, done⟩ : ∃ m, Run (step id (fun _ _ => (true, false)) id)
      (Exchanges id .staff ['a']) (start (signedIn .staff)) oneByOne m ∧
        decide (m.answered.length = 2 ∧ 0 < sessions .staff ['a'] m.answered) = true :=
    exists_run (fun _ _ => of_decide_eq_true) (by decide +kernel)
  obtain ⟨two, one⟩ := of_decide_eq_true done
  exact ⟨m, run, two, one, exchanged_once _ _ _ _ _ _ _ _ run⟩

/-- Both requests find the row before either deletes it, and both are answered with a session. -/
theorem exchanged_twice :
    ¬ AtMostOnce id (fun _ _ => (true, false)) id (Issues id .staff ['a']) .staff ['a']
        (signedIn .staff) ∧
      ¬ AtMostOnce id (fun _ _ => (true, false)) id (Issues id .viewer ['a']) .viewer ['a']
        (signedIn .viewer) := by
  constructor
  · exact not_atMostOnce (twoRequests .staff) (by decide +kernel)
  · exact not_atMostOnce (twoRequests .viewer) (by decide +kernel)

end Vidsilo.Api.Rotation
