import Vidsilo.Api.Rotation

/-!
# A refresh token that is presented again

Source: internal/api/auth.go:170-208, internal/api/viewers.go:105-134. The row of an exchanged
token is gone, nothing sets `revoked`, and a token without a row is only refused.
-/
namespace Vidsilo.Api.Replay
open Library Library.Procedure Library.SlashPath Library.Transition Sessions Rotation

/-- The owner has a token that would be exchanged now. -/
def hasValid (kind : Kind) (owner : Nat) (w : World) : Bool :=
  (w.tokens kind).rows.any fun row =>
    row.owner = owner && !row.revoked && !decide (row.expiresAt < w.clock)

/-- A request that presents the token is carried out, and its statements end with the outcomes. -/
def Presented (digest : Text → Text) (verify : Text → Text → Bool × Bool) (lower : Text → Text)
    (kind : Kind) (token : Text) (w : World) (outcomes : List Outcome) (answer : Answer)
    (w' : World) : Prop :=
  (body digest verify (.refresh kind (some token))).run (perform lower) .ok outcomes w =
    some (answer, w')

/-- In every run in which no `DELETE` of an exchange fails: once a request has exchanged the
token, presenting it again leaves its owner without a valid token. -/
def Revokes (digest : Text → Text) (verify : Text → Text → Bool × Bool) (lower : Text → Text)
    (kind : Kind) (token : Text) (w₀ : World) : Prop :=
  ∀ trace m account raw,
    Run (step digest verify lower) (Carried digest kind token) (start w₀) trace m →
    (.refresh kind (some token), .session account raw) ∈ m.answered →
    ∀ outcomes answer w', Presented digest verify lower kind token m.pool.world outcomes answer w' →
      hasValid kind account.id w' = false

variable {digest : Text → Text} {verify : Text → Text → Bool × Bool} {lower : Text → Text}
  {kind : Kind} {token : Text} {w w' : World} {outcomes : List Outcome} {answer : Answer}
  {m : Serving}

/-- Once a request has been answered with a session, the row of its token is gone. -/
theorem absent_of_session {account : Account} {raw : Text} {trace : List Action}
    (h : Run (step digest verify lower) (Carried digest kind token) (start w) trace m)
    (exchanged : (.refresh kind (some token), .session account raw) ∈ m.answered) :
    Absent kind (digest token) m.pool.world := by
  obtain ⟨phases, gone⟩ := gone_run h
  have answered : 0 < sessions kind token m.answered :=
    List.countP_pos_iff.mpr ⟨_, exchanged, by simp [Answer.isSession]⟩
  exact gone.absent (.inl answered)

/-- A request whose token has no row is refused, and leaves the tables as they are. -/
theorem presented_absent (absent : Absent kind (digest token) w)
    (h : Presented digest verify lower kind token w outcomes answer w') :
    w' = w ∧ answer.isSession = false := by
  cases token with
  | nil =>
    cases kind with
    | _ =>
      cases h
      exact ⟨rfl, rfl⟩
  | cons c token =>
    have refused (disabled : Answer) (h : (refresh digest kind disabled (some (c :: token))).run
        (perform lower) .ok outcomes w = some (answer, w')) :
        w' = w ∧ answer.isSession = false := by
      obtain ⟨found, m, performed, later⟩ := run_call h
      obtain rfl := selects_same performed
      cases found with
      | found row =>
        have isRow := selects_found performed
        have isHash : row.tokenHash = digest (c :: token) := by
          simpa using List.find?_some isRow
        exact absurd isHash (absent row (List.mem_of_find?_eq_some isRow))
      | _ =>
        cases later
        exact ⟨rfl, rfl⟩
    cases kind with
    | staff => exact refused _ h
    | viewer => exact refused _ h

/-- A replay revokes nothing: afterwards the owner has no valid token exactly when it had none
before. -/
theorem replay_revokes_iff (digest : Text → Text) (verify : Text → Text → Bool × Bool)
    (lower : Text → Text) (kind : Kind) (token : Text) (w₀ : World) (trace : List Action)
    (m : Serving) (account : Account) (raw : Text)
    (h : Run (step digest verify lower) (Carried digest kind token) (start w₀) trace m)
    (exchanged : (.refresh kind (some token), .session account raw) ∈ m.answered)
    (outcomes : List Outcome) (answer : Answer) (w' : World)
    (replay : Presented digest verify lower kind token m.pool.world outcomes answer w') :
    hasValid kind account.id w' = false ↔ hasValid kind account.id m.pool.world = false := by
  obtain ⟨rfl, _⟩ := presented_absent (absent_of_session h exchanged) replay
  exact Iff.rfl

def exchanges (kind : Kind) : List Action := looksUp 0 kind ++ rotates 0 ['b']

/-- The token that it was exchanged for is given up by a logout. -/
def logsOut (kind : Kind) : List Action :=
  [.receive 1 (.logout kind (some ['b'])), .advance 1 .ok, .answer 1]

/-- The token has been exchanged, and it can be presented again. -/
def replayable (kind : Kind) (m : Serving) : Bool :=
  decide ((.refresh kind (some ['a']), .session ⟨1, ['e'], ['n'], ['h'], false⟩ ['b']) ∈
      m.answered) &&
    ((body id (fun _ _ => (true, false)) (.refresh kind (some ['a']))).run (perform id) .ok []
      m.pool.world).isSome

theorem exists_replay (kind : Kind) (cond : Serving → Bool) (trace : List Action)
    (h : (exec (step id (fun _ _ => (true, false)) id)
      (fun m a => decide (Carried id kind ['a'] m a)) (start (signedIn kind)) trace).any
        (fun m => replayable kind m && cond m) = true) :
    ∃ m, Run (step id (fun _ _ => (true, false)) id) (Carried id kind ['a'])
        (start (signedIn kind)) trace m ∧
      (.refresh kind (some ['a']), .session ⟨1, ['e'], ['n'], ['h'], false⟩ ['b']) ∈ m.answered ∧
      (∃ answer w', Presented id (fun _ _ => (true, false)) id kind ['a'] m.pool.world []
        answer w') ∧ cond m = true := by
  obtain ⟨m, run, done⟩ := exists_run (fun _ _ => of_decide_eq_true) h
  simp only [replayable, Bool.and_eq_true, decide_eq_true_eq] at done
  obtain ⟨⟨exchanged, presented⟩, holds⟩ := done
  obtain ⟨⟨answer, w'⟩, replay⟩ := Option.isSome_iff_exists.mp presented
  exact ⟨m, run, exchanged, ⟨answer, w', replay⟩, holds⟩

/-- The owner has logged out before the replay. -/
theorem replay_after_logout : ∃ (m : Serving) (answer : Answer) (w' : World),
    Presented id (fun _ _ => (true, false)) id .staff ['a'] m.pool.world [] answer w' ∧
      hasValid .staff 1 w' = false := by
  obtain ⟨m, run, exchanged, ⟨answer, w', replay⟩, none⟩ :=
    exists_replay .staff (fun m => !hasValid .staff 1 m.pool.world)
      (exchanges .staff ++ logsOut .staff) (by decide +kernel)
  rw [Bool.not_eq_true'] at none
  exact ⟨m, answer, w', replay, (replay_revokes_iff id (fun _ _ => (true, false)) id .staff ['a']
    (signedIn .staff) _ m _ _ run exchanged [] answer w' replay).mpr none⟩

theorem not_revokes (h : (exec (step id (fun _ _ => (true, false)) id)
    (fun m a => decide (Carried id kind ['a'] m a)) (start (signedIn kind))
      (exchanges kind)).any (fun m => replayable kind m && hasValid kind 1 m.pool.world) = true) :
    ¬ Revokes id (fun _ _ => (true, false)) id kind ['a'] (signedIn kind) := by
  intro revokes
  obtain ⟨m, run, exchanged, ⟨answer, w', replay⟩, valid⟩ :=
    exists_replay kind (fun m => hasValid kind 1 m.pool.world) (exchanges kind) h
  have none := revokes _ m _ _ run exchanged [] answer w' replay
  obtain ⟨rfl, _⟩ := presented_absent (absent_of_session run exchanged) replay
  exact nomatch valid.symm.trans none

/-- After a replay of the exchanged token the new one is still good. -/
theorem replay_revokes_nothing :
    ¬ Revokes id (fun _ _ => (true, false)) id .staff ['a'] (signedIn .staff) ∧
      ¬ Revokes id (fun _ _ => (true, false)) id .viewer ['a'] (signedIn .viewer) := by
  constructor
  · exact not_revokes (by decide +kernel)
  · exact not_revokes (by decide +kernel)

end Vidsilo.Api.Replay
