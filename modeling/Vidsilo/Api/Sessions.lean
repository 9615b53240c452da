import Mathlib.Algebra.Ring.Nat
import Mathlib.Data.List.Nodup
import Vidsilo.Library.Procedure
import Vidsilo.Library.SlashPath

/-!
# Sessions with refresh tokens

Source: internal/api/auth.go:112-294, internal/api/viewers.go:50-180, internal/db/users.go,
internal/db/viewers.go, migrations 0002 and 0016. Staff and viewers have tables of their own and
handlers of the same shape. `digest` stands for the hex of a SHA-256 sum, `verify` for
`password.Verify`, `lower` for the database's `lower`. A statement may fail; the handlers ignore
the result of most of them. Requests that are turned away before their first statement and the
access token that goes with a refresh token are left out.
-/
namespace Vidsilo.Api.Sessions
open Library Library.Procedure Library.SlashPath Library.Transition

inductive Kind where
  | staff | viewer
  deriving DecidableEq, Repr

/-- Nanoseconds. -/
abbrev Time := Int

def refreshTTL : Time := 7 * 24 * 3600 * 1000000000

structure Account where
  id : Nat
  email : Text
  nameSurname : Text
  passwordHash : Text
  disabled : Bool
  deriving DecidableEq, Repr

structure TokenRow where
  id : Nat
  owner : Nat
  tokenHash : Text
  expiresAt : Time
  revoked : Bool
  deriving DecidableEq, Repr

/-- The result of a `SELECT` of one row. -/
inductive Lookup (α : Type) where
  | failed
  | missing
  | found (row : α)

/-- The statements of the handlers, the clock and the random source. -/
inductive SessionOp : Type → Type where
  | findToken (kind : Kind) (tokenHash : Text) : SessionOp (Lookup TokenRow)
  | deleteToken (kind : Kind) (id : Nat) : SessionOp Unit
  | deleteHash (kind : Kind) (tokenHash : Text) : SessionOp Unit
  | deleteOwned (kind : Kind) (owner : Nat) : SessionOp Unit
  /-- All tokens of the owner except the one with this hash. -/
  | deleteOthers (kind : Kind) (owner : Nat) (tokenHash : Text) : SessionOp Unit
  | insertToken (kind : Kind) (owner : Nat) (tokenHash : Text) (expiresAt : Time) : SessionOp Bool
  | account (kind : Kind) (id : Nat) : SessionOp (Lookup Account)
  | accountByEmail (kind : Kind) (email : Text) : SessionOp (Lookup Account)
  | setPassword (kind : Kind) (account : Account) (hash : Text) : SessionOp Bool
  | now : SessionOp Time
  | randomToken (n : Nat) : SessionOp (Option Text)
  | hashPassword (password : Text) : SessionOp (Option Text)

inductive Answer where
  /-- `writeError`; some refusals also clear the cookies. -/
  | failure (status : Nat) (error message : String) (cleared : Bool)
  | session (account : Account) (refresh : Text)
  /-- Status 204. -/
  | noContent (cleared : Bool)
  deriving DecidableEq, Repr

def Answer.isSession : Answer → Bool
  | .session _ _ => true
  | _ => false

abbrev Handler := Procedure SessionOp Answer

def refuse (status : Nat) (error message : String) : Answer := .failure status error message false

def internalError : Answer := refuse 500 "internal" "internal error"

section Handlers
variable (digest : Text → Text) (verify : Text → Text → Bool × Bool)

/-- `issueSession` and `issueViewerSession`. -/
def issue (kind : Kind) (account : Account) : Handler := do
  match ← ask (.randomToken 32) with
  | none => pure internalError
  | some raw =>
    let now ← ask .now
    match ← ask (.insertToken kind account.id (digest raw) (now + refreshTTL)) with
    | false => pure internalError
    | true => pure (.session account raw)

/-- Replaces a legacy hash; a failure is ignored. -/
def rehash (kind : Kind) (account : Account) (password : Text) (upgrade : Bool) :
    Procedure SessionOp Unit :=
  if upgrade then do
    match ← ask (.hashPassword password) with
    | none => pure ()
    | some hash =>
      let _ ← ask (.setPassword kind account hash)
      pure ()
  else
    pure ()

def login (kind : Kind) (email password : Text) : Handler := do
  match ← ask (.accountByEmail kind email) with
  | .missing => pure (refuse 401 "unauthorized" "invalid credentials")
  | .failed => pure internalError
  | .found account =>
    match verify password account.passwordHash with
    | (false, _) => pure (refuse 401 "unauthorized" "invalid credentials")
    | (true, upgrade) =>
      if account.disabled then
        pure (refuse 403 "forbidden" "account disabled")
      else do
        rehash kind account password upgrade
        issue digest kind account

def handleLogin (email password : Text) : Handler := login digest verify .staff email password

def handleViewerLogin (email password : Text) : Handler :=
  login digest verify .viewer email password

/-- The exchange of a token that is good: the old row is deleted, a new one inserted. -/
def rotate (kind : Kind) (tokenID : Nat) (account : Account) : Handler := do
  ask (.deleteToken kind tokenID)
  issue digest kind account

/-- `disabled` is the answer for a disabled account. -/
def refresh (kind : Kind) (disabled : Answer) : Option Text → Handler
  | none | some [] => pure (refuse 401 "unauthorized" "no refresh token")
  | some token => do
    match ← ask (.findToken kind (digest token)) with
    | .missing => pure (refuse 401 "unauthorized" "invalid refresh token")
    | .failed => pure internalError
    | .found row =>
      let now ← ask .now
      if row.revoked = true ∨ row.expiresAt < now then do
        ask (.deleteOwned kind row.owner)
        pure (.failure 401 "unauthorized" "session revoked" true)
      else
        match ← ask (.account kind row.owner) with
        | .found account =>
          if account.disabled then pure disabled else rotate digest kind row.id account
        | _ => pure (refuse 401 "unauthorized" "invalid refresh token")

def handleRefresh (cookie : Option Text) : Handler :=
  refresh digest .staff (refuse 403 "forbidden" "account disabled") cookie

def handleViewerRefresh (cookie : Option Text) : Handler :=
  refresh digest .viewer (refuse 401 "unauthorized" "invalid refresh token") cookie

def logout (kind : Kind) : Option Text → Handler
  | none | some [] => pure (.noContent true)
  | some token => do
    ask (.deleteHash kind (digest token))
    pure (.noContent true)

def handleLogout (cookie : Option Text) : Handler := logout digest .staff cookie

def handleViewerLogout (cookie : Option Text) : Handler := logout digest .viewer cookie

/-- `len`. -/
def byteLength (text : Text) : Nat := (text.map Char.utf8Size).sum

/-- The end of `handleChangePassword`. -/
def revokeOthers (u : Account) : Option Text → Handler
  | none | some [] => do
    ask (.deleteOwned .staff u.id)
    pure (.noContent false)
  | some token => do
    ask (.deleteOthers .staff u.id (digest token))
    pure (.noContent false)

/-- `u` is what `requireAuth` has read. -/
def handleChangePassword (u : Account) (current new : Text) (cookie : Option Text) : Handler :=
  if byteLength new < 8 then
    pure (refuse 400 "bad_request" "new password must be at least 8 characters")
  else if (verify current u.passwordHash).1 = false then
    pure (refuse 401 "unauthorized" "current password is incorrect")
  else do
    match ← ask (.hashPassword new) with
    | none => pure internalError
    | some hash =>
      match ← ask (.setPassword .staff u hash) with
      | false => pure internalError
      | true => revokeOthers digest u cookie

inductive Request where
  | login (kind : Kind) (email password : Text)
  | refresh (kind : Kind) (cookie : Option Text)
  | logout (kind : Kind) (cookie : Option Text)
  | changePassword (u : Account) (current new : Text) (cookie : Option Text)
  deriving DecidableEq, Repr

def body : Request → Handler
  | .login .staff email password => handleLogin digest verify email password
  | .login .viewer email password => handleViewerLogin digest verify email password
  | .refresh .staff cookie => handleRefresh digest cookie
  | .refresh .viewer cookie => handleViewerRefresh digest cookie
  | .logout .staff cookie => handleLogout digest cookie
  | .logout .viewer cookie => handleViewerLogout digest cookie
  | .changePassword u current new cookie => handleChangePassword digest verify u current new cookie

end Handlers

/-- Rows of a table of tokens: `id` is the primary key, `token_hash` is `UNIQUE`, and the
sequence of the `id` column is ahead. -/
structure Table where
  rows : List TokenRow
  nextId : Nat
  ids : (rows.map (·.id)).Nodup
  hashes : (rows.map (·.tokenHash)).Nodup
  below : ∀ row ∈ rows, row.id < nextId

namespace Table

def empty : Table := ⟨[], 1, List.nodup_nil, List.nodup_nil, fun _ no => nomatch no⟩

/-- The rows that stay. -/
def keep (t : Table) (stays : TokenRow → Bool) : Table where
  rows := t.rows.filter stays
  nextId := t.nextId
  ids := t.ids.sublist (List.filter_sublist.map _)
  hashes := t.hashes.sublist (List.filter_sublist.map _)
  below := fun row mem => t.below row (List.mem_of_mem_filter mem)

def added (t : Table) (owner : Nat) (tokenHash : Text) (expiresAt : Time) : List TokenRow :=
  t.rows ++ [⟨t.nextId, owner, tokenHash, expiresAt, false⟩]

theorem insert_ids (t : Table) (owner : Nat) (tokenHash : Text) (expiresAt : Time) :
    ((t.added owner tokenHash expiresAt).map (·.id)).Nodup := by
  rw [added, List.map_append, List.nodup_append]
  refine ⟨t.ids, List.nodup_singleton _, ?_⟩
  intro id mem id' mem'
  obtain ⟨row, here, rfl⟩ := List.mem_map.mp mem
  have bound := t.below row here
  simp only [List.map_cons, List.map_nil, List.mem_singleton] at mem'
  omega

theorem insert_hashes (t : Table) (owner : Nat) {tokenHash : Text} (expiresAt : Time)
    (fresh : ∀ row ∈ t.rows, row.tokenHash ≠ tokenHash) :
    ((t.added owner tokenHash expiresAt).map (·.tokenHash)).Nodup := by
  rw [added, List.map_append, List.nodup_append]
  refine ⟨t.hashes, List.nodup_singleton _, ?_⟩
  intro hash mem hash' mem'
  obtain ⟨row, here, rfl⟩ := List.mem_map.mp mem
  simp only [List.map_cons, List.map_nil, List.mem_singleton] at mem'
  subst mem'
  exact fresh row here

theorem insert_below (t : Table) (owner : Nat) (tokenHash : Text) (expiresAt : Time) :
    ∀ row ∈ t.added owner tokenHash expiresAt, row.id < t.nextId + 1 := by
  intro row mem
  rcases List.mem_append.mp mem with old | new
  · have bound := t.below row old
    omega
  · rw [List.mem_singleton] at new
    subst new
    exact Nat.lt_succ_self _

def insert (t : Table) (owner : Nat) (tokenHash : Text) (expiresAt : Time) : Option Table :=
  if fresh : ∀ row ∈ t.rows, row.tokenHash ≠ tokenHash then
    some ⟨t.added owner tokenHash expiresAt, t.nextId + 1, t.insert_ids owner tokenHash expiresAt,
      t.insert_hashes owner expiresAt fresh, t.insert_below owner tokenHash expiresAt⟩
  else none

end Table

structure World where
  clock : Time
  accounts : Kind → List Account
  tokens : Kind → Table

/-- What the environment decides about an operation; `drawn` answers the random source. -/
inductive Outcome where
  | ok
  | fails
  | drawn (text : Text)
  deriving DecidableEq, Repr

def onKind {α : Type} (f : Kind → α) (kind : Kind) (value : α) : Kind → α :=
  fun k => if k = kind then value else f k

def World.keep (w : World) (kind : Kind) (stays : TokenRow → Bool) : World :=
  { w with tokens := onKind w.tokens kind ((w.tokens kind).keep stays) }

/-- The owner is referenced. -/
def World.insert (w : World) (kind : Kind) (owner : Nat) (tokenHash : Text) (expiresAt : Time) :
    Option World :=
  if (w.accounts kind).any (·.id = owner) then
    ((w.tokens kind).insert owner tokenHash expiresAt).map fun t =>
      { w with tokens := onKind w.tokens kind t }
  else none

/-- `UpdateUserPassword`, and `UpdateViewer` as the handlers call it. -/
def World.setPassword (w : World) (kind : Kind) (account : Account) (hash : Text) : World :=
  let update (row : Account) : Account :=
    if row.id = account.id then
      match kind with
      | .staff => { row with passwordHash := hash }
      | .viewer => { account with passwordHash := hash }
    else row
  { w with accounts := onKind w.accounts kind ((w.accounts kind).map update) }

def lookup {α : Type} : Option α → Lookup α
  | none => .missing
  | some row => .found row

/-- A `DELETE`, whose result is ignored. -/
def deletes (outcome : Outcome) (w after : World) : Option (Unit × World) :=
  match outcome with
  | .ok => some ((), after)
  | .fails => some ((), w)
  | .drawn _ => none

def selects {α : Type} (outcome : Outcome) (w : World) (row : Option α) :
    Option (Lookup α × World) :=
  match outcome with
  | .ok => some (lookup row, w)
  | .fails => some (.failed, w)
  | .drawn _ => none

def draws (outcome : Outcome) (w : World) : Option (Option Text × World) :=
  match outcome with
  | .ok => none
  | .fails => some (none, w)
  | .drawn text => some (some text, w)

/-- A statement that reports whether it succeeded; one that gives nothing violates a constraint. -/
def writes (outcome : Outcome) (w : World) (after : Option World) : Option (Bool × World) :=
  match outcome with
  | .ok => some (after.isSome, after.getD w)
  | .fails => some (false, w)
  | .drawn _ => none

def perform (lower : Text → Text) :
    {β : Type} → SessionOp β → Outcome → World → Option (β × World)
  | _, .findToken kind tokenHash, outcome, w =>
    selects outcome w ((w.tokens kind).rows.find? (·.tokenHash = tokenHash))
  | _, .deleteToken kind id, outcome, w => deletes outcome w (w.keep kind (·.id ≠ id))
  | _, .deleteHash kind tokenHash, outcome, w =>
    deletes outcome w (w.keep kind (·.tokenHash ≠ tokenHash))
  | _, .deleteOwned kind owner, outcome, w => deletes outcome w (w.keep kind (·.owner ≠ owner))
  | _, .deleteOthers kind owner tokenHash, outcome, w =>
    deletes outcome w (w.keep kind fun row => row.owner ≠ owner || row.tokenHash = tokenHash)
  | _, .insertToken kind owner tokenHash expiresAt, outcome, w =>
    writes outcome w (w.insert kind owner tokenHash expiresAt)
  | _, .account kind id, outcome, w => selects outcome w ((w.accounts kind).find? (·.id = id))
  | _, .accountByEmail kind email, outcome, w =>
    selects outcome w ((w.accounts kind).find? fun row => lower row.email = lower email)
  | _, .setPassword kind account hash, outcome, w =>
    writes outcome w (some (w.setPassword kind account hash))
  | _, .now, _, w => some (w.clock, w)
  | _, .randomToken _, outcome, w => draws outcome w
  | _, .hashPassword _, outcome, w => draws outcome w

/-- The requests in progress and the answers given. -/
structure Serving : Type 1 where
  pool : Pool Nat Request SessionOp Answer World
  answered : List (Request × Answer)

/-- A step of a request; the clock advances; the accounts change by other endpoints, with the
tokens of a deleted one. -/
inductive Action where
  | receive (id : Nat) (request : Request)
  | advance (id : Nat) (outcome : Outcome)
  | answer (id : Nat)
  | elapse (d : Nat)
  | accounts (kind : Kind) (rows : List Account)

def start (w : World) : Serving := ⟨Pool.idle w, []⟩

def move (lower : Text → Text) (_ : Nat) (rest : Handler) (outcome : Outcome) (w : World) :
    Option (Handler × World) :=
  rest.advance (perform lower) outcome w

/-- `ON DELETE CASCADE`. -/
def World.setAccounts (w : World) (kind : Kind) (rows : List Account) : World :=
  { (w.keep kind fun row => rows.any (·.id = row.owner)) with
    accounts := onKind w.accounts kind rows }

section Step
variable (digest : Text → Text) (verify : Text → Text → Bool × Bool) (lower : Text → Text)

def poolStep (pool : Pool Nat Request SessionOp Answer World)
    (a : Pool.Action Nat Request Outcome) : Option (Pool Nat Request SessionOp Answer World) :=
  pool.step (body digest verify) (move lower) a

def step (m : Serving) : Action → Option Serving
  | .receive id request =>
    (poolStep digest verify lower m.pool (.start id request)).map fun pool =>
      { m with pool := pool }
  | .advance id outcome =>
    (poolStep digest verify lower m.pool (.advance id outcome)).map fun pool =>
      { m with pool := pool }
  | .answer id =>
    match m.pool.calls id with
    | some ⟨request, .ret reply⟩ =>
      (poolStep digest verify lower m.pool (.finish id)).map fun pool =>
        ⟨pool, m.answered ++ [(request, reply)]⟩
    | _ => none
  | .elapse d => some { m with pool.world.clock := m.pool.world.clock + d }
  | .accounts kind rows => some { m with pool.world := m.pool.world.setAccounts kind rows }

end Step

/-- No row with this hash is inserted. -/
def fresh (kind : Kind) (hash : Text) : {β : Type} → SessionOp β → Bool
  | _, .insertToken k _ tokenHash _ => k ≠ kind || tokenHash ≠ hash
  | _, _ => true

/-- Rows go, and rows with another hash and a new id come. -/
structure Evolves (kind : Kind) (hash : Text) (w w' : World) : Prop where
  grows : (w.tokens kind).nextId ≤ (w'.tokens kind).nextId
  rows : ∀ row ∈ (w'.tokens kind).rows, row ∈ (w.tokens kind).rows ∨
    (row.tokenHash ≠ hash ∧ (w.tokens kind).nextId ≤ row.id)

variable {kind : Kind} {hash : Text} {w w' : World} {lower : Text → Text} {outcome : Outcome}

theorem evolves_same (same : w'.tokens = w.tokens) : Evolves kind hash w w' := by
  constructor
  · rw [same]
  · intro row mem
    rw [same] at mem
    exact .inl mem

theorem evolves_keep (kind : Kind) (hash : Text) (w : World) (k : Kind)
    (stays : TokenRow → Bool) :
    Evolves kind hash w (w.keep k stays) := by
  by_cases same : kind = k
  · subst same
    have isTable : (w.keep kind stays).tokens kind = (w.tokens kind).keep stays := if_pos rfl
    constructor
    · rw [isTable]
      exact Nat.le_refl _
    · intro row mem
      rw [isTable] at mem
      exact .inl (List.mem_of_mem_filter mem)
  · have isTable : (w.keep k stays).tokens kind = w.tokens kind := if_neg same
    constructor
    · rw [isTable]
    · intro row mem
      rw [isTable] at mem
      exact .inl mem

theorem insert_cases {k : Kind} {owner : Nat} {tokenHash : Text} {expiresAt : Time}
    (h : w.insert k owner tokenHash expiresAt = some w') :
    (w'.tokens k).rows = (w.tokens k).added owner tokenHash expiresAt ∧
      (w'.tokens k).nextId = (w.tokens k).nextId + 1 ∧
      ∀ k', k' ≠ k → w'.tokens k' = w.tokens k' := by
  simp only [World.insert] at h
  split at h
  · obtain ⟨t, inserted, rfl⟩ := Option.map_eq_some_iff.mp h
    simp only [Table.insert] at inserted
    split at inserted
    · cases inserted
      refine ⟨?_, ?_, fun k' other => if_neg other⟩
      · simp [onKind]
      · simp [onKind]
    · cases inserted
  · cases h

theorem evolves_insert {k : Kind} {owner : Nat} {tokenHash : Text} {expiresAt : Time}
    (fresh : k = kind → tokenHash ≠ hash) (h : w.insert k owner tokenHash expiresAt = some w') :
    Evolves kind hash w w' := by
  obtain ⟨rows, next, others⟩ := insert_cases h
  by_cases same : kind = k
  · subst same
    constructor
    · omega
    · intro row mem
      rw [rows, Table.added, List.mem_append, List.mem_singleton] at mem
      rcases mem with old | rfl
      · exact .inl old
      · exact .inr ⟨fresh rfl, Nat.le_refl _⟩
  · constructor
    · rw [others kind same]
    · intro row mem
      rw [others kind same] at mem
      exact .inl mem

theorem selects_same {α : Type} {row : Option α} {b : Lookup α}
    (h : selects outcome w row = some (b, w')) : w' = w := by
  cases outcome with
  | drawn text => cases h
  | _ =>
    cases h
    rfl

theorem selects_found {α : Type} {found : Option α} {row : α}
    (h : selects outcome w found = some (.found row, w')) : found = some row := by
  cases outcome with
  | ok =>
    cases found with
    | none => cases h
    | some row' =>
      cases h
      rfl
  | _ => cases h

theorem draws_same {b : Option Text} (h : draws outcome w = some (b, w')) : w' = w := by
  cases outcome with
  | ok => cases h
  | _ =>
    cases h
    rfl

theorem deletes_cases {after : World} {b : Unit} (h : deletes outcome w after = some (b, w')) :
    (outcome = .ok ∧ w' = after) ∨ (outcome = .fails ∧ w' = w) := by
  cases outcome with
  | ok =>
    cases h
    exact .inl ⟨rfl, rfl⟩
  | fails =>
    cases h
    exact .inr ⟨rfl, rfl⟩
  | drawn text => cases h

theorem writes_cases {after : Option World} {b : Bool}
    (h : writes outcome w after = some (b, w')) : after = some w' ∨ (b = false ∧ w' = w) := by
  cases outcome with
  | ok =>
    cases after with
    | none =>
      cases h
      exact .inr ⟨rfl, rfl⟩
    | some written =>
      cases h
      exact .inl rfl
  | fails =>
    cases h
    exact .inr ⟨rfl, rfl⟩
  | drawn text => cases h

theorem evolves_deletes {k : Kind} {stays : TokenRow → Bool} {b : Unit}
    (h : deletes outcome w (w.keep k stays) = some (b, w')) : Evolves kind hash w w' := by
  rcases deletes_cases h with ⟨_, rfl⟩ | ⟨_, rfl⟩
  · exact evolves_keep kind hash w k stays
  · exact evolves_same rfl

theorem perform_evolves {β : Type} {op : SessionOp β} {b : β} (isFresh : fresh kind hash op = true)
    (taken : perform lower op outcome w = some (b, w')) : Evolves kind hash w w' := by
  cases op with
  | deleteToken k id => exact evolves_deletes taken
  | deleteHash k tokenHash => exact evolves_deletes taken
  | deleteOwned k owner => exact evolves_deletes taken
  | deleteOthers k owner tokenHash => exact evolves_deletes taken
  | insertToken k owner tokenHash expiresAt =>
    rcases writes_cases taken with inserted | ⟨_, rfl⟩
    · apply evolves_insert _ inserted
      simpa [fresh, imp_iff_not_or] using isFresh
    · exact evolves_same rfl
  | setPassword k account hash =>
    rcases writes_cases taken with updated | ⟨_, rfl⟩
    · cases updated
      exact evolves_same rfl
    · exact evolves_same rfl
  | now =>
    cases taken
    exact evolves_same rfl
  | randomToken n => exact evolves_same (congrArg World.tokens (draws_same taken))
  | hashPassword password => exact evolves_same (congrArg World.tokens (draws_same taken))
  | _ => exact evolves_same (congrArg World.tokens (selects_same taken))

end Vidsilo.Api.Sessions
