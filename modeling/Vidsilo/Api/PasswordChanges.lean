import Vidsilo.Api.Admins
import Vidsilo.Api.Rotation

/-!
# Sessions that outlive a password

Source: internal/api/auth.go:164-267, internal/api/users.go:97-156 (`handleUsersPatch`),
internal/api/viewers.go:311-349 (`handleViewerUpdate`), internal/db/viewers.go:86-96. The requests
of Sessions take turns with those of an administrator, who sets the passwords of others. What is
read to let the administrator in is left out.
-/
namespace Vidsilo.Api.PasswordChanges
open Library Library.Procedure Library.SlashPath Library.Transition Library.Decimal Sessions
open AccessTokens (Role)
open Guards (Refusal)
open Admins (User UserBody UserOp Write)
open Categories (trim isSpace)

structure ViewerBody where
  email : Text
  nameSurname : Text
  password : Text
  disabled : Bool
  deriving DecidableEq, Repr

inductive ViewerWrite where
  | failed
  /-- `isUniqueViolation`. -/
  | taken
  | missing
  | stored (v : Account)

inductive ViewerOp : Type → Type where
  | hashPassword (password : Text) : ViewerOp (Option Text)
  | updateViewer (id : Int) (email nameSurname hash : Text) (disabled : Bool) :
    ViewerOp ViewerWrite

inductive ViewerAnswer where
  | refused (refusal : Refusal)
  | viewer (v : Account)
  deriving DecidableEq, Repr

abbrev ViewerHandler := Procedure ViewerOp ViewerAnswer

def viewerBadRequest (message : String) : ViewerHandler :=
  pure (.refused ⟨400, "bad_request", message⟩)

def viewerInternalError : ViewerHandler := pure (.refused ⟨500, "internal", "internal error"⟩)

/-- No password is the hash `""`. -/
def viewerHash (password : Text) (next : Text → ViewerHandler) : ViewerHandler :=
  if password = [] then next []
  else do
    match ← ask (.hashPassword password) with
    | none => viewerInternalError
    | some hash => next hash

def storeViewer (id : Int) (email nameSurname : Text) (disabled : Bool) (hash : Text) :
    ViewerHandler := do
  match ← ask (.updateViewer id email nameSurname hash disabled) with
  | .taken => pure (.refused ⟨409, "conflict", "email already in use"⟩)
  | .missing => pure (.refused ⟨404, "not_found", "viewer not found"⟩)
  | .failed => viewerInternalError
  | .stored v => pure (.viewer v)

def handleViewerUpdate (pathID : Text) (body : Option ViewerBody) : ViewerHandler :=
  match parseInt pathID with
  | none => viewerBadRequest "invalid viewer id"
  | some id =>
    match body with
    | none => viewerBadRequest "invalid JSON body"
    | some body =>
      let email := trim isSpace body.email
      let nameSurname := trim isSpace body.nameSurname
      if email = [] then viewerBadRequest "email is required"
      else viewerHash body.password (storeViewer id email nameSurname body.disabled)

/-- `me` is what `requireRole` has read. -/
inductive AdminRequest where
  | usersPatch (me : User) (pathID : Text) (body : Option UserBody)
  | viewerUpdate (pathID : Text) (body : Option ViewerBody)
  deriving DecidableEq, Repr

abbrev AdminOp (β : Type) := UserOp β ⊕ ViewerOp β

abbrev AdminAnswer := Admins.Answer ⊕ ViewerAnswer

def adminBody : AdminRequest → Procedure AdminOp AdminAnswer
  | .usersPatch me pathID body => do
    let answer ← lift .inl (Admins.handleUsersPatch pathID body me)
    pure (.inl answer)
  | .viewerUpdate pathID body => do
    let answer ← lift .inr (handleViewerUpdate pathID body)
    pure (.inr answer)

/-- Viewers have no role. -/
structure Accounts where
  sessions : World
  roles : Nat → Role

def Accounts.user (w : Accounts) (id : Int) : Option User :=
  ((w.sessions.accounts .staff).find? (·.id = id)).map fun a =>
    ⟨a.id, a.email, a.nameSurname, a.passwordHash, w.roles a.id, a.disabled⟩

/-- Another row has the address, in the sense of the unique index. -/
def taken (lower : Text → Text) (rows : List Account) (id : Int) (email : Text) : Bool :=
  rows.any (·.id = id) && rows.any fun a => a.id ≠ id && lower a.email = lower email

def updateRow (w : World) (kind : Kind) (id : Int) (change : Account → Account) : World :=
  let update (a : Account) : Account := if a.id = id then change a else a
  { w with accounts := onKind w.accounts kind ((w.accounts kind).map update) }

def Accounts.updateUser (lower : Text → Text) (w : Accounts) (id : Int) (email nameSurname : Text)
    (role : Role) (disabled : Bool) : Write Unit × Accounts :=
  if taken lower (w.sessions.accounts .staff) id email then (.taken, w)
  else (.stored (), {
    sessions := updateRow w.sessions .staff id fun a =>
      { a with email := email, nameSurname := nameSurname, disabled := disabled }
    roles := fun i => if i = id then role else w.roles i })

def updateViewer (lower : Text → Text) (w : World) (id : Int) (email nameSurname hash : Text)
    (disabled : Bool) : ViewerWrite × World :=
  match (w.accounts .viewer).find? (·.id = id) with
  | none => (.missing, w)
  | some v =>
    if taken lower (w.accounts .viewer) id email then (.taken, w)
    else
      let change (a : Account) : Account :=
        ⟨a.id, email, nameSurname, if hash = [] then a.passwordHash else hash, disabled⟩
      (.stored (change v), updateRow w .viewer id change)

/-- The other statements of the users' table belong to other endpoints. -/
def performUser (lower : Text → Text) :
    {β : Type} → UserOp β → Outcome → Accounts → Option (β × Accounts)
  | _, .userByID _ id, outcome, w =>
    (selects outcome w.sessions (w.user id)).map fun r => (r.1, w)
  | _, .updateUserPassword id hash, outcome, w =>
    (writes outcome w.sessions
      (some (updateRow w.sessions .staff id fun a => { a with passwordHash := hash }))).map
        fun r => (r.1, { w with sessions := r.2 })
  | _, .updateUser id email nameSurname role disabled, .ok, w =>
    some (w.updateUser lower id email nameSurname role disabled)
  | _, .updateUser _ _ _ _ _, .fails, w => some (.failed, w)
  | _, .updateUser _ _ _ _ _, .drawn _, _ => none
  | _, .hashPassword _, outcome, w => (draws outcome w.sessions).map fun r => (r.1, w)
  | _, .createUser _ _ _ _, _, _ | _, .deleteUser _, _, _ => none

def performViewer (lower : Text → Text) :
    {β : Type} → ViewerOp β → Outcome → World → Option (β × World)
  | _, .hashPassword _, outcome, w => draws outcome w
  | _, .updateViewer id email nameSurname hash disabled, .ok, w =>
    some (updateViewer lower w id email nameSurname hash disabled)
  | _, .updateViewer _ _ _ _ _, .fails, w => some (.failed, w)
  | _, .updateViewer _ _ _ _ _, .drawn _, _ => none

def performAdmin (lower : Text → Text) :
    {β : Type} → AdminOp β → Outcome → Accounts → Option (β × Accounts)
  | _, .inl op, outcome, w => performUser lower op outcome w
  | _, .inr op, outcome, w =>
    (performViewer lower op outcome w.sessions).map fun r => (r.1, { w with sessions := r.2 })

inductive Event where
  | issued (kind : Kind) (hash : Text)
  /-- The refresh request has found the token. -/
  | found (request : Nat) (kind : Kind) (hash : Text) (owner : Int)
  /-- A refresh request that presents the token has stored a new session. -/
  | obtained (kind : Kind) (owner : Int) (hash : Text)
  | changed (kind : Kind) (owner : Int) (kept : Option Text)
  /-- The request has changed its user's password. -/
  | revoking (request : Nat)
  deriving DecidableEq, Repr

/-- The token of the request's cookie. -/
def kept (digest : Text → Text) : Option Text → Option Text
  | none | some [] => none
  | some token => some (digest token)

def obtains (digest : Text → Text) (owner : Nat) : Request → List Event
  | .refresh kind (some token) => [.obtained kind owner (digest token)]
  | _ => []

def changes (digest : Text → Text) (i : Nat) : Request → List Event
  | .changePassword u _ _ cookie => [.changed .staff u.id (kept digest cookie), .revoking i]
  | _ => []

def tokenEvents (digest : Text → Text) (i : Nat) (request : Request) :
    {β : Type} → SessionOp β → β → List Event
  | _, .findToken kind hash, .found row => [.found i kind hash row.owner]
  | _, .insertToken kind owner hash _, true => obtains digest owner request ++ [.issued kind hash]
  | _, .setPassword _ _ _, true => changes digest i request
  | _, _, _ => []

def userEvents : {β : Type} → UserOp β → β → List Event
  | _, .updateUserPassword id _, true => [.changed .staff id none]
  | _, _, _ => []

def viewerEvents : {β : Type} → ViewerOp β → β → List Event
  | _, .updateViewer id _ _ hash _, .stored _ => if hash = [] then [] else [.changed .viewer id none]
  | _, _, _ => []

def adminEvents : {β : Type} → AdminOp β → β → List Event
  | _, .inl op, b => userEvents op b
  | _, .inr op, b => viewerEvents op b

/-- The events of the next operation of a call. -/
def observed {Op : Type → Type} {α σ : Type}
    (perform : {β : Type} → Op β → Outcome → σ → Option (β × σ))
    (events : {β : Type} → Op β → β → List Event) (outcome : Outcome) (w : σ) :
    Procedure Op α → List Event
  | .ret _ => []
  | .call op _ => ((perform op outcome w).map fun r => events op r.1).getD []

structure Serving : Type 1 where
  sessions : Sessions.Serving
  admin : Nat → Option (Call AdminRequest AdminOp AdminAnswer)
  roles : Nat → Role
  log : List Event

inductive Action where
  | session (a : Sessions.Action)
  | admin (a : Pool.Action Nat AdminRequest Outcome)

def start (w : World) (roles : Nat → Role) : Serving := ⟨Sessions.start w, fun _ => none, roles, []⟩

def Serving.world (m : Serving) : World := m.sessions.pool.world

def Serving.adminPool (m : Serving) : Pool Nat AdminRequest AdminOp AdminAnswer Accounts :=
  ⟨⟨m.world, m.roles⟩, m.admin⟩

/-- What the requests of the administrator leave. -/
def Serving.withAdmin (m : Serving) (pool : Pool Nat AdminRequest AdminOp AdminAnswer Accounts)
    (events : List Event) : Serving where
  sessions := { m.sessions with pool := { m.sessions.pool with world := pool.world.sessions } }
  admin := pool.calls
  roles := pool.world.roles
  log := m.log ++ events

section Step
variable (digest : Text → Text) (verify : Text → Text → Bool × Bool) (lower : Text → Text)

def sessionLog (m : Serving) : Sessions.Action → List Event
  | .advance i outcome =>
    ((m.sessions.pool.calls i).map fun call =>
      observed (perform lower) (tokenEvents digest i call.request) outcome m.world call.rest).getD []
  | _ => []

def adminLog (m : Serving) : Pool.Action Nat AdminRequest Outcome → List Event
  | .advance i outcome =>
    ((m.admin i).map fun call =>
      observed (performAdmin lower) adminEvents outcome m.adminPool.world call.rest).getD []
  | _ => []

def adminMove (_ : Nat) (rest : Procedure AdminOp AdminAnswer) (outcome : Outcome) (w : Accounts) :
    Option (Procedure AdminOp AdminAnswer × Accounts) :=
  rest.advance (performAdmin lower) outcome w

def step (m : Serving) : Action → Option Serving
  | .session a => (Sessions.step digest verify lower m.sessions a).map fun sessions =>
    { m with sessions := sessions, log := m.log ++ sessionLog digest lower m a }
  | .admin a => (m.adminPool.step adminBody (adminMove lower) a).map fun pool =>
    m.withAdmin pool (adminLog lower m a)

end Step

/-- How an event changes whether the token was issued before a change of the password, by someone
who did not present it. -/
def mark (kind : Kind) (owner : Int) (hash : Text) (stale : Bool) : Event → Bool
  | .changed k o kept => stale || (k = kind && o = owner && kept ≠ some hash)
  | .issued k h => stale && !(k = kind && h = hash)
  | _ => stale

def stale (kind : Kind) (owner : Int) (hash : Text) (log : List Event) : Bool :=
  log.foldl (mark kind owner hash) false

/-- No token obtains a new session of an account whose password was changed after it was issued. -/
def Clean (log : List Event) : Prop :=
  ∀ before kind owner hash after, log = before ++ .obtained kind owner hash :: after →
    stale kind owner hash before = false

def RevokesStale (cond : (Text → Text) → Serving → Action → Prop) : Prop :=
  ∀ digest verify lower w roles trace m,
    Run (step digest verify lower) (cond digest) (start w roles) trace m → Clean m.log

section Conditions
variable (digest : Text → Text)

def presents (kind : Kind) (hash : Text) : Request → Bool
  | .refresh k (some token) => k = kind && digest token = hash
  | _ => false

def looksUp : {β : Type} → SessionOp β → Bool
  | _, .findToken _ _ => true
  | _, _ => false

def deletesFamily : {β : Type} → SessionOp β → Bool
  | _, .deleteOwned _ _ | _, .deleteOthers _ _ _ => true
  | _, _ => false

/-- The call has found the token and has statements to make. -/
def exchanging (kind : Kind) (hash : Text) (call : Call Request SessionOp Answer) : Bool :=
  presents digest kind hash call.request && call.rest.asks fun op => !looksUp op

/-- The call has changed the password, and the token is to be deleted next. -/
def deletesNext (kind : Kind) (owner : Int) (hash : Text) (call : Call Request SessionOp Answer) :
    Bool :=
  match kind, call.request with
  | .staff, .changePassword u _ _ cookie =>
    u.id = owner && kept digest cookie ≠ some hash && call.rest.asks deletesFamily
  | _, _ => false

/-- A token of the account, other than the one kept, is being exchanged. -/
def Event.disturbs (m : Serving) (kind : Kind) (owner : Int) (kept : Option Text) : Event → Bool
  | .found i k hash o => k = kind && o = owner && kept ≠ some hash &&
    (m.sessions.pool.calls i).any (exchanging digest kind hash)
  | _ => false

def Event.dooms (m : Serving) (kind : Kind) (owner : Int) (hash : Text) : Event → Bool
  | .revoking i => (m.sessions.pool.calls i).any (deletesNext digest kind owner hash)
  | _ => false

def Undisturbed (m : Serving) (kind : Kind) (owner : Int) (kept : Option Text) : Prop :=
  ∀ e ∈ m.log, e.disturbs digest m kind owner kept = false

/-- The account has no tokens, and none is being exchanged. -/
def Unused (m : Serving) (kind : Kind) (owner : Int) : Prop :=
  (∀ row ∈ (m.world.tokens kind).rows, (row.owner : Int) ≠ owner) ∧
    Undisturbed digest m kind owner none

def isChange : Request → Bool
  | .changePassword _ _ _ _ => true
  | _ => false

/-- No token is found that a change of the password is about to delete; while a password is
changed, no other token of the user is being exchanged; the `DELETE` is carried out. -/
def Spares (m : Serving) (request : Request) (outcome : Outcome) : {β : Type} → SessionOp β → Prop
  | _, .findToken kind hash => ∀ row ∈ (m.world.tokens kind).rows, row.tokenHash = hash →
    ∀ e ∈ m.log, e.dooms digest m kind row.owner hash = false
  | _, .setPassword _ _ _ =>
    match request with
    | .changePassword u _ _ cookie => Undisturbed digest m .staff u.id (kept digest cookie)
    | _ => True
  | _, .deleteOwned _ _ | _, .deleteOthers _ _ _ => isChange request = true → outcome = .ok
  | _, _ => True

/-- The passwords of others are changed while they have no sessions. -/
def SparesOthers (m : Serving) : {β : Type} → AdminOp β → Prop
  | _, .inl (.updateUserPassword id _) => Unused digest m .staff id
  | _, .inr (.updateViewer id _ _ hash _) => hash ≠ [] → Unused digest m .viewer id
  | _, _ => True

def Apart (m : Serving) : Action → Prop
  | .session (.advance i outcome) => ∀ call ∈ m.sessions.pool.calls i,
      call.rest.Starts (Spares digest m call.request outcome)
  | .admin (.advance i _) => ∀ call ∈ m.admin i, call.rest.Starts (SparesOthers digest m)
  | _ => True

instance (m : Serving) (kind : Kind) (owner : Int) (kept : Option Text) :
    Decidable (Undisturbed digest m kind owner kept) := inferInstanceAs (Decidable (∀ e ∈ m.log, _))

instance (m : Serving) (kind : Kind) (owner : Int) : Decidable (Unused digest m kind owner) :=
  inferInstanceAs (Decidable (_ ∧ _))

instance (m : Serving) (request : Request) (outcome : Outcome) :
    {β : Type} → (op : SessionOp β) → Decidable (Spares digest m request outcome op)
  | _, .findToken kind _ => inferInstanceAs (Decidable (∀ row ∈ (m.world.tokens kind).rows, _))
  | _, .setPassword _ _ _ =>
    match request with
    | .changePassword _ _ _ _ => inferInstanceAs (Decidable (Undisturbed _ _ _ _ _))
    | .login _ _ _ | .refresh _ _ | .logout _ _ => isTrue trivial
  | _, .deleteOwned _ _ | _, .deleteOthers _ _ _ => inferInstanceAs (Decidable (_ → _))
  | _, .deleteToken _ _ | _, .deleteHash _ _ | _, .insertToken _ _ _ _ | _, .account _ _
  | _, .accountByEmail _ _ | _, .now | _, .randomToken _ | _, .hashPassword _ => isTrue trivial

instance (m : Serving) : {β : Type} → (op : AdminOp β) → Decidable (SparesOthers digest m op)
  | _, .inl (.updateUserPassword _ _) => inferInstanceAs (Decidable (Unused _ _ _ _))
  | _, .inr (.updateViewer _ _ _ _ _) => inferInstanceAs (Decidable (_ → _))
  | _, .inl (.userByID _ _) | _, .inl (.createUser _ _ _ _) | _, .inl (.updateUser _ _ _ _ _)
  | _, .inl (.deleteUser _) | _, .inl (.hashPassword _) | _, .inr (.hashPassword _) => isTrue trivial

instance (m : Serving) : (a : Action) → Decidable (Apart digest m a)
  | .session (.advance i _) => inferInstanceAs (Decidable (∀ call ∈ m.sessions.pool.calls i, _))
  | .admin (.advance i _) => inferInstanceAs (Decidable (∀ call ∈ m.admin i, _))
  | .session (.receive _ _) | .session (.answer _) | .session (.elapse _)
  | .session (.accounts _ _) | .admin (.start _ _) | .admin (.finish _) => isTrue trivial

end Conditions

section Log
variable {kind : Kind} {owner : Int} {hash : Text} {log events : List Event} {e : Event}

theorem stale_append (log events : List Event) : stale kind owner hash (log ++ events) =
    events.foldl (mark kind owner hash) (stale kind owner hash log) := List.foldl_append

/-- A token becomes stale only by a change that does not keep it. -/
theorem stale_cases (h : stale kind owner hash (log ++ events) = true) :
    stale kind owner hash log = true ∨
      ∃ kept, .changed kind owner kept ∈ events ∧ kept ≠ some hash := by
  induction events generalizing log with
  | nil => exact .inl (by simpa using h)
  | cons e events ih =>
    rw [List.append_cons] at h
    rcases ih h with before | ⟨kept, mem, other⟩
    · rw [stale_append] at before
      cases e with
      | changed k o kept =>
        simp only [List.foldl_cons, List.foldl_nil, mark, Bool.or_eq_true, Bool.and_eq_true,
          decide_eq_true_eq] at before
        rcases before with before | ⟨⟨rfl, rfl⟩, other⟩
        · exact .inl before
        · exact .inr ⟨kept, List.mem_cons_self, other⟩
      | issued k h =>
        simp only [List.foldl_cons, List.foldl_nil, mark, Bool.and_eq_true] at before
        exact .inl before.1
      | _ => exact .inl before
    · exact .inr ⟨kept, List.mem_cons_of_mem _ mem, other⟩

theorem fresh_issued (log events : List Event) (kind : Kind) (owner : Int) (hash : Text) :
    stale kind owner hash (log ++ (events ++ [.issued kind hash])) = false := by
  simp [stale_append, mark]

theorem Clean.concat (h : Clean log)
    (obtained : ∀ kind owner hash, e = .obtained kind owner hash →
      stale kind owner hash log = false) : Clean (log ++ [e]) := by
  intro before kind owner hash after same
  rcases List.eq_nil_or_concat after with rfl | ⟨after, last, rfl⟩
  · obtain ⟨rfl, isEvent⟩ := List.append_inj' same rfl
    exact obtained kind owner hash (List.singleton_inj.mp isEvent)
  · rw [List.concat_eq_append, ← List.cons_append, ← List.append_assoc] at same
    obtain ⟨isLog, _⟩ := List.append_inj' same rfl
    exact h before kind owner hash after isLog

/-- Only the first of the events may obtain a session. -/
theorem Clean.append (h : Clean log)
    (first : ∀ kind owner hash, events.head? = some (.obtained kind owner hash) →
      stale kind owner hash log = false)
    (later : ∀ kind owner hash, .obtained kind owner hash ∉ events.tail) :
    Clean (log ++ events) := by
  cases events with
  | nil => exact (List.append_nil log).symm ▸ h
  | cons e events =>
    have begun : Clean (log ++ [e]) :=
      h.concat fun kind owner hash isEvent => first kind owner hash (congrArg some isEvent)
    rw [List.append_cons]
    clear first
    induction events generalizing log e with
    | nil => exact (List.append_nil (log ++ [e])).symm ▸ begun
    | cons e' events ih =>
      rw [List.append_cons]
      have rest : ∀ kind owner hash, .obtained kind owner hash ∉ events :=
        fun kind owner hash mem => later kind owner hash (List.mem_cons_of_mem _ mem)
      refine ih begun e' rest (begun.concat fun kind owner hash isEvent => ?_)
      exact absurd (isEvent ▸ List.mem_cons_self) (later kind owner hash)

end Log

section Parts
variable (digest : Text → Text)

/-- Where a request is that presents the token; the owner is that of the session it may store. -/
inductive At (kind : Kind) (token : Text) : Option Nat → Handler → Prop where
  | find (disabled : Answer) (given : token ≠ []) :
    At kind token none (refresh digest kind disabled (some token))
  | check (disabled : Answer) (row : TokenRow) :
    At kind token (some row.owner) (Rotation.useRow digest kind disabled row)
  | revoke (owner : Nat) : At kind token none (Rotation.revokeFamily kind owner)
  | account (disabled : Answer) (row : TokenRow) :
    At kind token (some row.owner) (Rotation.useAccount digest kind disabled row)
  | rotate (id : Nat) (account : Account) :
    At kind token (some account.id) (rotate digest kind id account)
  | issue (account : Account) : At kind token (some account.id) (issue digest kind account)
  | store (account : Account) (raw : Text) :
    At kind token (some account.id) (Rotation.store digest kind account raw)
  | insert (account : Account) (raw : Text) (now : Time) :
    At kind token (some account.id) (Rotation.insertAt digest kind account raw now)
  | ended (answer : Answer) : At kind token none (.ret answer)

def storePassword (u : Account) (cookie : Option Text) (hash : Text) : Handler := do
  match ← ask (.setPassword .staff u hash) with
  | false => pure internalError
  | true => revokeOthers digest u cookie

def hashNew (u : Account) (cookie : Option Text) (new : Text) : Handler := do
  match ← ask (.hashPassword new) with
  | none => pure internalError
  | some hash => storePassword digest u cookie hash

inductive ChangeAt (u : Account) (cookie : Option Text) : Handler → Prop where
  | hash (new : Text) : ChangeAt u cookie (hashNew digest u cookie new)
  | store (hash : Text) : ChangeAt u cookie (storePassword digest u cookie hash)
  | revoke : ChangeAt u cookie (revokeOthers digest u cookie)
  | ended (answer : Answer) : ChangeAt u cookie (.ret answer)

/-- The call is about to delete the token. -/
inductive Dooms (owner : Int) (hash : Text) : Call Request SessionOp Answer → Prop where
  | revoke (u : Account) (current new : Text) (cookie : Option Text) (own : (u.id : Int) = owner)
    (other : kept digest cookie ≠ some hash) :
    Dooms owner hash ⟨.changePassword u current new cookie, revokeOthers digest u cookie⟩

/-- What is known of a call in progress. -/
structure Fits (log : List Event) (i : Nat) (call : Call Request SessionOp Answer) : Prop where
  exchange : ∀ kind token, call.request = .refresh kind (some token) →
    ∃ holder, At digest kind token holder call.rest ∧ ∀ owner : Nat, holder = some owner →
      .found i kind (digest token) owner ∈ log ∧ stale kind owner (digest token) log = false
  change : ∀ u current new cookie, call.request = .changePassword u current new cookie →
    ChangeAt digest u cookie call.rest

end Parts

variable {digest : Text → Text} {verify : Text → Text → Bool × Bool} {lower : Text → Text}
  {kind : Kind} {owner : Int} {token hash : Text} {w w' : World} {outcome : Outcome}
  {holder : Option Nat} {rest rest' : Handler} {log events : List Event} {i : Nat}
  {request : Request} {call : Call Request SessionOp Answer}

theorem At.asks {o : Nat} (h : At digest kind token (some o) rest) :
    rest.asks (fun op => !looksUp op) = true := by
  cases h with
  | _ => rfl

theorem at_body (kind : Kind) (token : Text) :
    At digest kind token none (body digest verify (.refresh kind (some token))) := by
  cases token with
  | nil =>
    cases kind with
    | _ => exact .ended _
  | cons c token =>
    cases kind with
    | _ => exact .find _ (List.cons_ne_nil c token)

theorem changeAt_body (u : Account) (current new : Text) (cookie : Option Text) :
    ChangeAt digest u cookie (body digest verify (.changePassword u current new cookie)) := by
  change ChangeAt digest u cookie (handleChangePassword digest verify u current new cookie)
  unfold handleChangePassword
  split
  · exact .ended _
  · split
    · exact .ended _
    · exact .hash new

theorem fits_body (log : List Event) (i : Nat) (request : Request) :
    Fits digest log i ⟨request, body digest verify request⟩ := by
  constructor
  · rintro kind token rfl
    exact ⟨none, at_body kind token, nofun⟩
  · rintro u current new cookie rfl
    exact changeAt_body u current new cookie

/-- A request that holds a token is past its lookup. -/
theorem Fits.append (h : Fits digest log i call)
    (spared : ∀ kind owner kept hash, .changed kind owner kept ∈ events → kept ≠ some hash →
      .found i kind hash owner ∈ log → exchanging digest kind hash call = false) :
    Fits digest (log ++ events) i call := by
  refine ⟨fun kind token isRefresh => ?_, h.change⟩
  obtain ⟨holder, isAt, held⟩ := h.exchange kind token isRefresh
  refine ⟨holder, isAt, fun owner isHolder => ?_⟩
  obtain ⟨found, good⟩ := held owner isHolder
  refine ⟨List.mem_append_left _ found, ?_⟩
  by_contra isStale
  rcases stale_cases (Bool.not_eq_false _ ▸ isStale) with before | ⟨kept, changed, other⟩
  · exact nomatch before.symm.trans good
  · subst isHolder
    have busy : exchanging digest kind (digest token) call = true := by
      simp only [exchanging, isRefresh, presents, decide_true, Bool.true_and]
      exact isAt.asks
    exact nomatch busy.symm.trans (spared kind owner kept _ changed other found)

theorem observed_call {Op : Type → Type} {α β σ : Type} {w w' : σ} {op : Op β} {b : β}
    {next : β → Procedure Op α} {perform : {β : Type} → Op β → Outcome → σ → Option (β × σ)}
    (events : {β : Type} → Op β → β → List Event)
    (performed : perform op outcome w = some (b, w')) :
    observed perform events outcome w (.call op next) = events op b := by
  simp only [observed, performed, Option.map_some, Option.getD_some]

theorem observed_starts {Op : Type → Type} {α σ : Type} {w : σ} {p : Procedure Op α} {e : Event}
    {perform : {β : Type} → Op β → Outcome → σ → Option (β × σ)}
    {events : {β : Type} → Op β → β → List Event} (h : e ∈ observed perform events outcome w p) :
    p.Starts fun op => ∃ b w', perform op outcome w = some (b, w') ∧ e ∈ events op b := by
  cases p with
  | ret value => trivial
  | call op next =>
    cases performed : perform op outcome w with
    | none =>
      simp only [observed, performed] at h
      cases h
    | some r =>
      rw [observed_call events performed] at h
      exact ⟨r.1, r.2, performed, h⟩

theorem writes_false {after : Option World} (h : writes outcome w after = some (false, w')) :
    w' = w := by
  rcases writes_cases h with rfl | ⟨_, same⟩
  · cases outcome with
    | ok => cases h
    | fails =>
      cases h
      rfl
    | drawn text => cases h
  · exact same

/-- A row that was not there before has just been issued. -/
theorem row_before (digest : Text → Text) (i : Nat) (request : Request) {row : TokenRow}
    (taken : rest.advance (perform lower) outcome w = some (rest', w'))
    (mem : row ∈ (w'.tokens kind).rows) : row ∈ (w.tokens kind).rows ∨
      ∃ events, observed (perform lower) (tokenEvents digest i request) outcome w rest =
        events ++ [.issued kind row.tokenHash] := by
  cases rest with
  | ret answer => cases taken
  | call op next =>
    obtain ⟨b, performed, rfl⟩ := advance_call taken
    rw [observed_call _ performed]
    by_cases isFresh : fresh kind row.tokenHash op = true
    · rcases (perform_evolves isFresh performed).rows row mem with old | ⟨other, _⟩
      · exact .inl old
      · exact absurd rfl other
    · cases op with
      | insertToken k owner tokenHash expiresAt =>
        simp only [fresh, Bool.or_eq_true, decide_eq_true_eq, not_or, ne_eq, not_not] at isFresh
        obtain ⟨rfl, rfl⟩ := isFresh
        cases b with
        | false =>
          obtain rfl := writes_false performed
          exact .inl mem
        | true => exact .inr ⟨obtains digest owner request, rfl⟩
      | _ => exact absurd rfl isFresh

/-- After the password has been set the other sessions are next. -/
theorem ChangeAt.changed {u : Account} {cookie : Option Text} {kept' : Option Text}
    (h : ChangeAt digest u cookie rest)
    (taken : rest.advance (perform lower) outcome w = some (rest', w'))
    (mem : .changed kind owner kept' ∈
      observed (perform lower) (tokenEvents digest i request) outcome w rest) :
    rest' = revokeOthers digest u cookie := by
  cases h with
  | hash new =>
    obtain ⟨_, _, _, mem⟩ := observed_starts mem
    cases mem
  | store hash =>
    obtain ⟨b, performed, rfl⟩ := advance_call taken
    obtain ⟨b', _, performed', mem⟩ := observed_starts mem
    obtain ⟨rfl, _⟩ := Prod.mk.inj (Option.some.inj (performed.symm.trans performed'))
    cases b with
    | false => cases mem
    | true => rfl
  | revoke =>
    cases cookie with
    | none =>
      obtain ⟨_, _, _, mem⟩ := observed_starts mem
      cases mem
    | some token =>
      cases token with
      | _ =>
        obtain ⟨_, _, _, mem⟩ := observed_starts mem
        cases mem
  | ended answer => cases mem

/-- A password is changed by a request of its user. -/
theorem changed_cases {kept' : Option Text}
    (taken : rest.advance (perform lower) outcome w = some (rest', w'))
    (mem : .changed kind owner kept' ∈
      observed (perform lower) (tokenEvents digest i request) outcome w rest) :
    ∃ u current new cookie, request = .changePassword u current new cookie ∧ kind = .staff ∧
      owner = u.id ∧ kept' = kept digest cookie ∧
      .revoking i ∈ observed (perform lower) (tokenEvents digest i request) outcome w rest ∧
      ∀ m, rest.Starts (Spares digest m request outcome) →
        Undisturbed digest m .staff u.id (kept digest cookie) := by
  cases rest with
  | ret answer => cases taken
  | call op next =>
    obtain ⟨b, performed, rfl⟩ := advance_call taken
    rw [observed_call _ performed] at mem ⊢
    cases op with
    | setPassword k account hash =>
      cases b with
      | false => cases mem
      | true =>
        cases request with
        | changePassword u current new cookie =>
          have isEvent : Event.changed kind owner kept' = .changed .staff u.id (kept digest cookie) := by
            simpa [tokenEvents, changes] using mem
          cases isEvent
          exact ⟨u, current, new, cookie, rfl, rfl, rfl, rfl, by simp [tokenEvents, changes],
            fun m spares => spares⟩
        | _ => cases mem
    | findToken k h =>
      cases b with
      | found row => simp [tokenEvents] at mem
      | _ => cases mem
    | insertToken k o h expiresAt =>
      cases b with
      | false => cases mem
      | true =>
        simp only [tokenEvents, List.mem_append, List.mem_singleton, reduceCtorEq, or_false] at mem
        unfold obtains at mem
        split at mem
        · simp at mem
        · cases mem
    | _ => cases mem

/-- A token is held once it has been found, while nothing is about to delete it. -/
theorem At.advance {m : Serving} (h : At digest kind token holder rest)
    (spares : rest.Starts (Spares digest m request outcome))
    (taken : rest.advance (perform lower) outcome m.world = some (rest', w')) :
    ∃ holder', At digest kind token holder' rest' ∧ ∀ o : Nat, holder' = some o →
      holder = some o ∨
        (.found i kind (digest token) o ∈
            observed (perform lower) (tokenEvents digest i request) outcome m.world rest ∧
          ∃ row ∈ (m.world.tokens kind).rows, row.tokenHash = digest token ∧ row.owner = o ∧
            ∀ e ∈ m.log, e.dooms digest m kind o (digest token) = false) := by
  cases h with
  | find disabled given =>
    obtain ⟨c, later, rfl⟩ := List.exists_cons_of_ne_nil given
    obtain ⟨found, performed, rfl⟩ := advance_call taken
    cases found with
    | failed => exact ⟨none, .ended _, nofun⟩
    | missing => exact ⟨none, .ended _, nofun⟩
    | found row =>
      refine ⟨some row.owner, .check disabled row, fun o isOwner => .inr ?_⟩
      obtain rfl := Option.some.inj isOwner
      have isRow := selects_found performed
      have mem := List.mem_of_find?_eq_some isRow
      have isHash : row.tokenHash = digest (c :: later) := by simpa using List.find?_some isRow
      refine ⟨?_, row, mem, isHash, rfl, spares row mem isHash⟩
      have isEvents : observed (perform lower) (tokenEvents digest i request) outcome m.world
          (refresh digest kind disabled (some (c :: later))) = _ := observed_call _ performed
      rw [isEvents]
      exact List.mem_singleton_self _
  | check disabled row =>
    obtain ⟨now, _, rfl⟩ := advance_call taken
    change ∃ holder', At digest kind token holder'
      (if row.revoked = true ∨ row.expiresAt < now then Rotation.revokeFamily kind row.owner
        else Rotation.useAccount digest kind disabled row) ∧ _
    split
    · exact ⟨none, .revoke row.owner, nofun⟩
    · exact ⟨some row.owner, .account disabled row, fun o same => .inl same⟩
  | revoke owner =>
    obtain ⟨_, _, rfl⟩ := advance_call taken
    exact ⟨none, .ended _, nofun⟩
  | account disabled row =>
    obtain ⟨found, performed, rfl⟩ := advance_call taken
    cases found with
    | found account =>
      have isOwner : account.id = row.owner := by
        simpa using List.find?_some (selects_found performed)
      change ∃ holder', At digest kind token holder'
        (if account.disabled then .ret disabled else Sessions.rotate digest kind row.id account) ∧ _
      split
      · exact ⟨none, .ended _, nofun⟩
      · exact ⟨some account.id, .rotate row.id account, fun o same => .inl (isOwner ▸ same)⟩
    | _ => exact ⟨none, .ended _, nofun⟩
  | rotate id account =>
    obtain ⟨_, _, rfl⟩ := advance_call taken
    exact ⟨some account.id, .issue account, fun o same => .inl same⟩
  | issue account =>
    obtain ⟨drawn, _, rfl⟩ := advance_call taken
    cases drawn with
    | none => exact ⟨none, .ended _, nofun⟩
    | some raw => exact ⟨some account.id, .store account raw, fun o same => .inl same⟩
  | store account raw =>
    obtain ⟨now, _, rfl⟩ := advance_call taken
    exact ⟨some account.id, .insert account raw now, fun o same => .inl same⟩
  | insert account raw now =>
    obtain ⟨written, _, rfl⟩ := advance_call taken
    cases written with
    | _ => exact ⟨none, .ended _, nofun⟩
  | ended answer => cases taken

theorem ChangeAt.advance {u : Account} {cookie : Option Text} (h : ChangeAt digest u cookie rest)
    (taken : rest.advance (perform lower) outcome w = some (rest', w')) :
    ChangeAt digest u cookie rest' := by
  cases h with
  | hash new =>
    obtain ⟨hashed, _, rfl⟩ := advance_call taken
    cases hashed with
    | none => exact .ended _
    | some hash => exact .store hash
  | store hash =>
    obtain ⟨written, _, rfl⟩ := advance_call taken
    cases written with
    | false => exact .ended _
    | true => exact .revoke
  | revoke =>
    cases cookie with
    | none =>
      obtain ⟨_, _, rfl⟩ := advance_call taken
      exact .ended _
    | some token =>
      cases token with
      | _ =>
        obtain ⟨_, _, rfl⟩ := advance_call taken
        exact .ended _
  | ended answer => cases taken

theorem obtained_request {β : Type} {op : SessionOp β} {b : β}
    (mem : .obtained kind owner hash ∈ tokenEvents digest i request op b) :
    ∃ token, request = .refresh kind (some token) ∧ hash = digest token := by
  cases op with
  | insertToken k o h expiresAt =>
    cases b with
    | false => cases mem
    | true =>
      simp only [tokenEvents, List.mem_append, List.mem_singleton, reduceCtorEq, or_false] at mem
      unfold obtains at mem
      split at mem
      next k' token =>
        obtain ⟨rfl, _, rfl⟩ : kind = k' ∧ owner = o ∧ hash = digest token := by simpa using mem
        exact ⟨token, rfl, rfl⟩
      · cases mem
  | setPassword k account h =>
    cases b with
    | false => cases mem
    | true =>
      simp only [tokenEvents] at mem
      unfold changes at mem
      split at mem
      · simp at mem
      · cases mem
  | findToken k h =>
    cases b with
    | found row => simp [tokenEvents] at mem
    | _ => cases mem
  | _ => cases mem

/-- A session is stored by a request that holds the token of its owner. -/
theorem At.obtained (h : At digest kind token holder rest)
    (mem : .obtained kind owner hash ∈
      observed (perform lower) (tokenEvents digest i (.refresh kind (some token))) outcome w rest) :
    ∃ o : Nat, holder = some o ∧ owner = o := by
  cases h with
  | find disabled given =>
    obtain ⟨c, later, rfl⟩ := List.exists_cons_of_ne_nil given
    obtain ⟨found, _, _, mem⟩ := observed_starts mem
    cases found with
    | found row => simp [tokenEvents] at mem
    | _ => cases mem
  | insert account raw now =>
    obtain ⟨written, _, _, mem⟩ := observed_starts mem
    cases written with
    | false => cases mem
    | true => exact ⟨account.id, rfl, And.left (by simpa [tokenEvents, obtains] using mem)⟩
  | ended answer => cases mem
  | _ =>
    obtain ⟨_, _, _, mem⟩ := observed_starts mem
    cases mem

theorem Fits.obtained (h : Fits digest log i ⟨request, rest⟩)
    (mem : .obtained kind owner hash ∈
      observed (perform lower) (tokenEvents digest i request) outcome w rest) :
    stale kind owner hash log = false := by
  have isRefresh : ∃ token, request = .refresh kind (some token) ∧ hash = digest token := by
    cases rest with
    | ret answer => cases mem
    | call op next =>
      obtain ⟨_, _, _, mem⟩ := observed_starts mem
      exact obtained_request mem
  obtain ⟨token, rfl, rfl⟩ := isRefresh
  obtain ⟨holder, isAt, held⟩ := h.exchange kind token rfl
  obtain ⟨o, isHolder, rfl⟩ := isAt.obtained mem
  exact (held o isHolder).2

theorem obtained_tail {β : Type} (op : SessionOp β) (b : β) :
    .obtained kind owner hash ∉ (tokenEvents digest i request op b).tail := by
  intro mem
  cases op with
  | insertToken k o h expiresAt =>
    cases b with
    | false => cases mem
    | true =>
      simp only [tokenEvents] at mem
      unfold obtains at mem
      split at mem
      · simp at mem
      · cases mem
  | setPassword k account h =>
    cases b with
    | false => cases mem
    | true =>
      simp only [tokenEvents] at mem
      unfold changes at mem
      split at mem
      · simp at mem
      · cases mem
  | findToken k h =>
    cases b with
    | _ => cases mem
  | _ => cases mem

theorem Fits.clean (fits : Fits digest log i ⟨request, rest⟩) (h : Clean log) :
    Clean (log ++ observed (perform lower) (tokenEvents digest i request) outcome w rest) := by
  refine h.append (fun kind owner hash isFirst => ?_) (fun kind owner hash mem => ?_)
  · exact fits.obtained (List.mem_of_mem_head? isFirst)
  · cases rest with
    | ret answer => cases mem
    | call op next =>
      cases performed : perform lower op outcome w with
      | none =>
        simp only [observed, performed] at mem
        cases mem
      | some r =>
        rw [observed_call _ performed] at mem
        exact obtained_tail op r.1 mem

theorem Dooms.next (h : Dooms digest owner hash call) :
    deletesNext digest .staff owner hash call = true := by
  cases h with
  | revoke u current new cookie own other =>
    subst own
    have asks : (revokeOthers digest u cookie).asks deletesFamily = true := by
      cases cookie with
      | none => rfl
      | some token =>
        cases token with
        | _ => rfl
    simp [deletesNext, other, asks]

/-- The `DELETE` leaves no row with the token. -/
theorem Dooms.deleted {m : Serving} (h : Dooms digest owner hash ⟨request, rest⟩)
    (spares : rest.Starts (Spares digest m request outcome))
    (taken : rest.advance (perform lower) outcome w = some (rest', w')) {row : TokenRow}
    (mem : row ∈ (w'.tokens .staff).rows) (isHash : row.tokenHash = hash) :
    (row.owner : Int) ≠ owner := by
  cases h with
  | revoke u current new cookie own other =>
    subst own isHash
    have deleted (stays : TokenRow → Bool) (isTable : w' = w.keep .staff stays) :
        stays row = true := by
      subst isTable
      have mem : row ∈ ((w.tokens .staff).keep stays).rows := mem
      exact (List.mem_filter.mp mem).2
    cases cookie with
    | none =>
      obtain ⟨_, performed, _⟩ := advance_call taken
      obtain rfl : outcome = .ok := spares rfl
      have stays := deleted _ (Prod.mk.inj (Option.some.inj performed)).2.symm
      simp only [ne_eq, decide_eq_true_eq] at stays
      omega
    | some token =>
      cases token with
      | nil =>
        obtain ⟨_, performed, _⟩ := advance_call taken
        obtain rfl : outcome = .ok := spares rfl
        have stays := deleted _ (Prod.mk.inj (Option.some.inj performed)).2.symm
        simp only [ne_eq, decide_eq_true_eq] at stays
        omega
      | cons c token =>
        obtain ⟨_, performed, _⟩ := advance_call taken
        obtain rfl : outcome = .ok := spares rfl
        have stays := deleted _ (Prod.mk.inj (Option.some.inj performed)).2.symm
        simp only [ne_eq, Bool.or_eq_true, decide_eq_true_eq] at stays
        rcases stays with other' | same
        · omega
        · exact absurd (congrArg some same.symm) other

/-- A row of a token that is stale is about to be deleted. -/
structure Inv (digest : Text → Text) (m : Serving) : Prop where
  clean : Clean m.log
  rows : ∀ kind owner hash, stale kind owner hash m.log = true →
    ∀ row ∈ (m.world.tokens kind).rows, row.tokenHash = hash → (row.owner : Int) = owner →
      kind = .staff ∧ ∃ i call, .revoking i ∈ m.log ∧ m.sessions.pool.calls i = some call ∧
        Dooms digest owner hash call
  calls : ∀ i call, m.sessions.pool.calls i = some call → Fits digest m.log i call

variable {m m' : Serving}

theorem advance_session
    (taken : step digest verify lower m (.session (.advance i outcome)) = some m') :
    ∃ request rest rest' w', m.sessions.pool.calls i = some ⟨request, rest⟩ ∧
      rest.advance (perform lower) outcome m.world = some (rest', w') ∧
      m'.sessions.pool =
        { m.sessions.pool.setCall i (some ⟨request, rest'⟩) with world := w' } ∧
      m'.log = m.log ++
        observed (perform lower) (tokenEvents digest i request) outcome m.world rest := by
  obtain ⟨sessions, served, rfl⟩ := Option.map_eq_some_iff.mp taken
  obtain ⟨pool, advanced, rfl⟩ := Option.map_eq_some_iff.mp served
  have advanced : m.sessions.pool.step (body digest verify) (move lower) (.advance i outcome) =
    some pool := advanced
  obtain ⟨⟨request, rest⟩, rest', w', found, moved, rfl⟩ := Pool.advance_cases advanced
  refine ⟨request, rest, rest', w', found, moved, rfl, ?_⟩
  simp only [sessionLog, found, Option.map_some, Option.getD_some]

/-- While nothing disturbs a change, no call holds a token that the change makes stale. -/
theorem Undisturbed.spared {kept : Option Text} (h : Undisturbed digest m kind owner kept)
    (found : m.sessions.pool.calls i = some call) (mem : .found i kind hash owner ∈ m.log)
    (other : kept ≠ some hash) : exchanging digest kind hash call = false := by
  have spared := h _ mem
  simpa [Event.disturbs, found, other] using spared

theorem Fits.advance (fits : Fits digest m.log i ⟨request, rest⟩) (h : Inv digest m)
    (spares : rest.Starts (Spares digest m request outcome))
    (taken : rest.advance (perform lower) outcome m.world = some (rest', w')) :
    Fits digest (m.log ++
      observed (perform lower) (tokenEvents digest i request) outcome m.world rest) i
      ⟨request, rest'⟩ := by
  constructor
  · rintro kind token rfl
    obtain ⟨holder, isAt, held⟩ := fits.exchange kind token rfl
    obtain ⟨holder', isAt', gained⟩ := isAt.advance spares taken
    refine ⟨holder', isAt', fun owner isOwner => ?_⟩
    have kept : .found i kind (digest token) owner ∈ m.log ++
          observed (perform lower) (tokenEvents digest i (.refresh kind (some token))) outcome
            m.world rest ∧ stale kind owner (digest token) m.log = false := by
      rcases gained owner isOwner with same | ⟨found, row, mem, isHash, isRow, safe⟩
      · exact ⟨List.mem_append_left _ (held owner same).1, (held owner same).2⟩
      · refine ⟨List.mem_append_right _ found, ?_⟩
        by_contra isStale
        obtain ⟨rfl, j, call, revoking, isCall, dooms⟩ := h.rows kind owner (digest token)
          (Bool.not_eq_false _ ▸ isStale) row mem isHash (congrArg Nat.cast isRow)
        have safe := safe _ revoking
        simp [Event.dooms, isCall, dooms.next] at safe
    refine ⟨kept.1, ?_⟩
    by_contra isStale
    rcases stale_cases (Bool.not_eq_false _ ▸ isStale) with before | ⟨kept', changed, _⟩
    · exact nomatch before.symm.trans kept.2
    · obtain ⟨_, _, _, _, no, _⟩ := changed_cases taken changed
      cases no
  · rintro u current new cookie rfl
    exact (fits.change u current new cookie rfl).advance taken

theorem Inv.session_advance (h : Inv digest m)
    (apart : Apart digest m (.session (.advance i outcome)))
    (taken : step digest verify lower m (.session (.advance i outcome)) = some m') :
    Inv digest m' := by
  obtain ⟨request, rest, rest', w', found, moved, isPool, isLog⟩ := advance_session taken
  have spares : rest.Starts (Spares digest m request outcome) := apart _ found
  have isWorld : m'.world = w' := congrArg Pool.world isPool
  have here : m'.sessions.pool.calls i = some ⟨request, rest'⟩ := by simp [isPool, Pool.setCall]
  have others : ∀ j, j ≠ i → m'.sessions.pool.calls j = m.sessions.pool.calls j := by
    intro j other
    simp [isPool, Pool.setCall, other]
  have fits := h.calls i _ found
  constructor
  · rw [isLog]
    exact fits.clean h.clean
  · intro kind owner hash isStale row mem isHash isOwner
    rw [isWorld] at mem
    rw [isLog] at isStale ⊢
    rcases row_before digest i request moved mem with old | ⟨events, issued⟩
    · rcases stale_cases isStale with before | ⟨kept', changed, other⟩
      · obtain ⟨rfl, j, call, revoking, isCall, dooms⟩ :=
          h.rows kind owner hash before row old isHash isOwner
        have other : j ≠ i := by
          rintro rfl
          obtain rfl := Option.some.inj (isCall.symm.trans found)
          exact dooms.deleted spares moved mem isHash isOwner
        exact ⟨rfl, j, call, List.mem_append_left _ revoking, (others j other).trans isCall, dooms⟩
      · obtain ⟨u, current, new, cookie, rfl, rfl, rfl, rfl, revoking, _⟩ :=
          changed_cases moved changed
        obtain rfl := (fits.change u current new cookie rfl).changed moved changed
        exact ⟨rfl, i, _, List.mem_append_right _ revoking, here,
          .revoke u current new cookie rfl other⟩
    · rw [issued, isHash, fresh_issued] at isStale
      cases isStale
  · intro j call isCall
    rw [isLog]
    by_cases same : j = i
    · subst same
      obtain rfl := Option.some.inj (here.symm.trans isCall)
      exact fits.advance h spares moved
    · rw [others j same] at isCall
      refine (h.calls j call isCall).append fun kind owner kept hash changed other mem => ?_
      obtain ⟨u, _, _, cookie, rfl, rfl, rfl, rfl, _, undisturbed⟩ := changed_cases moved changed
      exact (undisturbed m spares).spared isCall mem other

/-- Steps that log nothing and add no rows. -/
theorem Inv.shrinks (h : Inv digest m) (sameLog : m'.log = m.log)
    (rows : ∀ kind, ∀ row ∈ (m'.world.tokens kind).rows, row ∈ (m.world.tokens kind).rows)
    (calls : ∀ j, m'.sessions.pool.calls j = m.sessions.pool.calls j ∨
      ((∀ call, m'.sessions.pool.calls j = some call → Fits digest m.log j call) ∧
        ∀ call owner hash, m.sessions.pool.calls j = some call → ¬ Dooms digest owner hash call)) :
    Inv digest m' := by
  constructor
  · rw [sameLog]
    exact h.clean
  · intro kind owner hash isStale row mem isHash isOwner
    rw [sameLog] at isStale ⊢
    obtain ⟨isStaff, j, call, revoking, isCall, dooms⟩ :=
      h.rows kind owner hash isStale row (rows kind row mem) isHash isOwner
    rcases calls j with same | ⟨_, harmless⟩
    · exact ⟨isStaff, j, call, revoking, same.trans isCall, dooms⟩
    · exact absurd dooms (harmless call owner hash isCall)
  · intro j call isCall
    rw [sameLog]
    rcases calls j with same | ⟨fits, _⟩
    · exact h.calls j call (same.symm.trans isCall)
    · exact fits call isCall

theorem performUser_tokens {β : Type} {op : UserOp β} {b : β} {w w' : Accounts}
    (taken : performUser lower op outcome w = some (b, w')) :
    w'.sessions.tokens = w.sessions.tokens := by
  cases op with
  | userByID use id =>
    obtain ⟨r, _, same⟩ := Option.map_eq_some_iff.mp taken
    cases same
    rfl
  | updateUserPassword id hash =>
    obtain ⟨⟨written, world⟩, wrote, same⟩ := Option.map_eq_some_iff.mp taken
    cases same
    rcases writes_cases wrote with updated | ⟨_, isWorld⟩
    · cases updated
      rfl
    · exact congrArg World.tokens isWorld
  | updateUser id email nameSurname role disabled =>
    cases outcome with
    | ok =>
      have isWorld : (w.updateUser lower id email nameSurname role disabled).2 = w' :=
        congrArg Prod.snd (Option.some.inj taken)
      rw [← isWorld]
      unfold Accounts.updateUser
      split
      · rfl
      · rfl
    | fails =>
      cases taken
      rfl
    | drawn text => cases taken
  | hashPassword password =>
    obtain ⟨r, _, same⟩ := Option.map_eq_some_iff.mp taken
    cases same
    rfl
  | _ => cases taken

theorem performViewer_tokens {β : Type} {op : ViewerOp β} {b : β}
    (taken : performViewer lower op outcome w = some (b, w')) : w'.tokens = w.tokens := by
  cases op with
  | hashPassword password => exact congrArg World.tokens (draws_same taken)
  | updateViewer id email nameSurname hash disabled =>
    cases outcome with
    | ok =>
      have isWorld : (updateViewer lower w id email nameSurname hash disabled).2 = w' :=
        congrArg Prod.snd (Option.some.inj taken)
      rw [← isWorld]
      unfold updateViewer
      split
      · rfl
      · split
        · rfl
        · rfl
    | fails =>
      cases taken
      rfl
    | drawn text => cases taken

theorem performAdmin_tokens {β : Type} {op : AdminOp β} {b : β} {w w' : Accounts}
    (taken : performAdmin lower op outcome w = some (b, w')) :
    w'.sessions.tokens = w.sessions.tokens := by
  cases op with
  | inl op => exact performUser_tokens taken
  | inr op =>
    obtain ⟨⟨b, world⟩, performed, same⟩ := Option.map_eq_some_iff.mp taken
    cases same
    exact performViewer_tokens performed

theorem adminEvents_cases (digest : Text → Text) {β : Type} {op : AdminOp β} {b : β} {e : Event}
    (mem : e ∈ adminEvents op b) : ∃ kind owner, e = .changed kind owner none ∧
      ∀ m, SparesOthers digest m op → Unused digest m kind owner := by
  cases op with
  | inl op =>
    cases op with
    | updateUserPassword id hash =>
      cases b with
      | false => cases mem
      | true => exact ⟨.staff, id, List.mem_singleton.mp mem, fun _ spares => spares⟩
    | _ => cases mem
  | inr op =>
    cases op with
    | hashPassword password => cases mem
    | updateViewer id email nameSurname hash disabled =>
      cases b with
      | stored v =>
        have mem : e ∈ if hash = [] then [] else [Event.changed .viewer id none] := mem
        split at mem
        · cases mem
        next given => exact ⟨.viewer, id, List.mem_singleton.mp mem, fun _ spares => spares given⟩
      | _ => cases mem

theorem Inv.admin_advance (h : Inv digest m) (apart : Apart digest m (.admin (.advance i outcome)))
    (taken : step digest verify lower m (.admin (.advance i outcome)) = some m') :
    Inv digest m' := by
  obtain ⟨pool, moved, rfl⟩ := Option.map_eq_some_iff.mp taken
  obtain ⟨⟨request, rest⟩, rest', w', found, advanced, rfl⟩ := Pool.advance_cases moved
  have found : m.admin i = some ⟨request, rest⟩ := found
  have spares : rest.Starts (SparesOthers digest m) := apart _ found
  have events : ∀ e ∈ adminLog lower m (.advance i outcome),
      ∃ kind owner, e = .changed kind owner none ∧ Unused digest m kind owner := by
    intro e mem
    simp only [adminLog, found, Option.map_some, Option.getD_some] at mem
    cases rest with
    | ret answer => cases mem
    | call op next =>
      obtain ⟨b, _, _, mem⟩ := observed_starts mem
      obtain ⟨kind, owner, isEvent, unused⟩ := adminEvents_cases digest mem
      exact ⟨kind, owner, isEvent, unused m spares⟩
  have sameTokens : w'.sessions.tokens = m.world.tokens := by
    cases rest with
    | ret answer => cases advanced
    | call op next =>
      obtain ⟨b, performed, _⟩ := advance_call advanced
      exact performAdmin_tokens performed
  constructor
  · refine h.clean.append (fun kind owner hash isFirst => ?_) (fun kind owner hash mem => ?_)
    · obtain ⟨_, _, no, _⟩ := events _ (List.mem_of_mem_head? isFirst)
      cases no
    · obtain ⟨_, _, no, _⟩ := events _ (List.mem_of_mem_tail mem)
      cases no
  · intro kind owner hash isStale row mem isHash isOwner
    have mem : row ∈ (w'.sessions.tokens kind).rows := mem
    rw [sameTokens] at mem
    rcases stale_cases isStale with before | ⟨kept, changed, _⟩
    · obtain ⟨isStaff, j, call, revoking, isCall, dooms⟩ :=
        h.rows kind owner hash before row mem isHash isOwner
      exact ⟨isStaff, j, call, List.mem_append_left _ revoking, isCall, dooms⟩
    · obtain ⟨_, _, isEvent, unused⟩ := events _ changed
      cases isEvent
      exact absurd isOwner (unused.1 row mem)
  · intro j call isCall
    have isCall : m.sessions.pool.calls j = some call := isCall
    refine (h.calls j call isCall).append fun kind owner kept hash changed _ mem => ?_
    obtain ⟨_, _, isEvent, unused⟩ := events _ changed
    cases isEvent
    exact unused.2.spared isCall mem nofun

theorem not_dooms_ret {answer : Answer} : ¬ Dooms digest owner hash ⟨request, .ret answer⟩ := by
  intro dooms
  have next := dooms.next
  cases request with
  | changePassword u current new cookie => simp [deletesNext, asks] at next
  | _ => cases next

theorem Inv.session_step {a : Sessions.Action} (h : Inv digest m)
    (apart : Apart digest m (.session a))
    (taken : step digest verify lower m (.session a) = some m') : Inv digest m' := by
  cases a with
  | advance i outcome => exact h.session_advance apart taken
  | receive i request =>
    obtain ⟨sessions, served, rfl⟩ := Option.map_eq_some_iff.mp taken
    obtain ⟨pool, started, rfl⟩ := Option.map_eq_some_iff.mp served
    have started : m.sessions.pool.step (body digest verify) (move lower) (.start i request) =
      some pool := started
    obtain ⟨free, rfl⟩ := Pool.start_cases started
    refine h.shrinks (List.append_nil _) (fun _ _ mem => mem) fun j => ?_
    by_cases same : j = i
    · subst same
      refine .inr ⟨fun call isCall => ?_, fun call owner hash isCall => ?_⟩
      · obtain rfl := Option.some.inj ((Pool.setCall_self _ j _).symm.trans isCall)
        exact fits_body m.log j request
      · cases isCall.symm.trans free
    · exact .inl (Pool.setCall_ne _ _ same)
  | answer i =>
    obtain ⟨sessions, served, rfl⟩ := Option.map_eq_some_iff.mp taken
    simp only [Sessions.step] at served
    split at served
    next request reply found =>
      obtain ⟨pool, finished, rfl⟩ := Option.map_eq_some_iff.mp served
      have finished : m.sessions.pool.step (body digest verify) (move lower) (.finish i) =
        some pool := finished
      obtain ⟨_, _, _, rfl⟩ := Pool.finish_cases finished
      refine h.shrinks (List.append_nil _) (fun _ _ mem => mem) fun j => ?_
      by_cases same : j = i
      · subst same
        refine .inr ⟨fun call isCall => ?_, fun call owner hash isCall => ?_⟩
        · cases (Pool.setCall_self _ j _).symm.trans isCall
        · obtain rfl := Option.some.inj (isCall.symm.trans found)
          exact not_dooms_ret
      · exact .inl (Pool.setCall_ne _ _ same)
    · cases served
  | elapse d =>
    cases taken
    exact h.shrinks (List.append_nil _) (fun _ _ mem => mem) fun _ => .inl rfl
  | accounts kind rows =>
    cases taken
    refine h.shrinks (List.append_nil _) (fun k row mem => ?_) fun _ => .inl rfl
    have kept := evolves_keep k row.tokenHash m.world kind fun row => rows.any (·.id = row.owner)
    rcases kept.rows row mem with old | ⟨other, _⟩
    · exact old
    · exact absurd rfl other

theorem Inv.step {a : Action} (h : Inv digest m) (apart : Apart digest m a)
    (taken : step digest verify lower m a = some m') : Inv digest m' := by
  cases a with
  | session a => exact h.session_step apart taken
  | admin a =>
    cases a with
    | advance i outcome => exact h.admin_advance apart taken
    | start i request =>
      obtain ⟨pool, moved, rfl⟩ := Option.map_eq_some_iff.mp taken
      obtain ⟨_, rfl⟩ := Pool.start_cases moved
      exact h.shrinks (List.append_nil _) (fun _ _ mem => mem) fun _ => .inl rfl
    | finish i =>
      obtain ⟨pool, moved, rfl⟩ := Option.map_eq_some_iff.mp taken
      obtain ⟨_, _, _, rfl⟩ := Pool.finish_cases moved
      exact h.shrinks (List.append_nil _) (fun _ _ mem => mem) fun _ => .inl rfl

/-- In every run in which the passwords of others are changed only while they have no sessions, and
no other token of a user is exchanged while the user changes the password, no token issued before a
change obtains a session after it, except the one that the user presents. -/
theorem revoked_while_apart (digest : Text → Text) (verify : Text → Text → Bool × Bool)
    (lower : Text → Text) (w : World) (roles : Nat → Role) (trace : List Action) (m : Serving)
    (h : Run (step digest verify lower) (Apart digest) (start w roles) trace m) :
    Clean m.log := by
  have empty : Clean [] := by
    intro before kind owner hash after same
    exact nomatch List.append_eq_nil_iff.mp same.symm
  have init : Inv digest (start w roles) := ⟨empty, nofun, nofun⟩
  exact (h.invariant (Inv digest) init fun _ _ _ inv apart taken => inv.step apart taken).clean

def tokenRow (id : Nat) (hash : Char) : TokenRow := ⟨id, 1, [hash], refreshTTL, false⟩

/-- An account of each kind; the user has two sessions, the viewer one. -/
def signedIn : World where
  clock := 0
  accounts := fun _ => [⟨1, ['e'], ['n'], ['p'], false⟩]
  tokens
    | .staff => ⟨[tokenRow 1 'a', tokenRow 2 'b'], 3, by decide, by decide, by decide⟩
    | .viewer => ⟨[tokenRow 1 'c'], 2, by decide, by decide, by decide⟩

def matching (password hash : Text) : Bool × Bool := (password = hash, false)

def session (i : Nat) (request : Request) (outcomes : List Outcome) : List Action :=
  .session (.receive i request) :: outcomes.map fun outcome => .session (.advance i outcome)

/-- The outcomes of an exchange after the token has been found. -/
def exchanged : List Outcome := [.ok, .ok, .ok, .drawn ['d'], .ok, .ok]

def changeOwn (i : Nat) : List Action :=
  session i (.changePassword ⟨1, ['e'], ['n'], ['p'], false⟩ ['p'] "long enough".toList (some ['a']))
    [.drawn ['h'], .ok, .ok]

/-- A user changes the password; the other session has ended, and this one goes on. -/
def ownChange : List Action :=
  changeOwn 0 ++ session 1 (.refresh .staff (some ['b'])) [.ok] ++
    session 2 (.refresh .staff (some ['a'])) (.ok :: exchanged)

theorem revoked_after_own_change : ∃ m : Serving,
    Run (step id matching id) (Apart id) (start signedIn fun _ => .viewer) ownChange m ∧
      Clean m.log := by
  have executed : (exec (step id matching id) (fun m a => decide (Apart id m a))
      (start signedIn fun _ => .viewer) ownChange).any
        (fun m => .obtained .staff 1 ['a'] ∈ m.log) = true := by
    decide +kernel
  obtain ⟨m, run, _⟩ := exists_run (fun _ _ => of_decide_eq_true) executed
  exact ⟨m, run, revoked_while_apart id matching id signedIn _ _ m run⟩

/-- The path by which a request changes a password. -/
inductive Path where
  | changePassword | usersPatch | viewerUpdate
  deriving DecidableEq, Repr

def changedBy : Action → Option Path
  | .session (.receive _ (.changePassword _ _ _ _)) => some .changePassword
  | .admin (.start _ (.usersPatch _ _ _)) => some .usersPatch
  | .admin (.start _ (.viewerUpdate _ _)) => some .viewerUpdate
  | _ => none

/-- Passwords are changed by one path only. -/
def only (path : Path) (a : Action) : Bool := changedBy a = none || changedBy a = some path

def administrator : User := ⟨2, ['r'], [], [], .admin, false⟩

def admin (request : AdminRequest) (outcomes : List Outcome) : List Action :=
  .admin (.start 0 request) :: outcomes.map fun outcome => .admin (.advance 0 outcome)

/-- The token that is used after the password of its owner has been set. -/
def leaked : Path → List Action
  | .usersPatch =>
    admin (.usersPatch administrator ['1'] (some ⟨[], ['n'], ['q'], Role.text .viewer, none⟩))
      [.ok, .drawn ['h'], .ok] ++
      session 1 (.refresh .staff (some ['a'])) (.ok :: exchanged)
  | .viewerUpdate =>
    admin (.viewerUpdate ['1'] (some ⟨['e'], ['n'], ['q'], false⟩)) [.drawn ['h'], .ok] ++
      session 1 (.refresh .viewer (some ['c'])) (.ok :: exchanged)
  | .changePassword =>
    session 1 (.refresh .staff (some ['b'])) [.ok] ++ changeOwn 0 ++
      exchanged.map fun outcome => .session (.advance 1 outcome)

/-- A session is obtained with a token that is stale. -/
def isLeak (log : List Event) (n : Nat) : Bool :=
  match log.drop n with
  | .obtained kind owner hash :: _ => stale kind owner hash (log.take n)
  | _ => false

theorem not_clean_of_isLeak {n : Nat} (h : isLeak log n = true) : ¬ Clean log := by
  intro clean
  unfold isLeak at h
  split at h
  next kind owner hash after isRest =>
    have parts := (List.take_append_drop n log).symm
    rw [isRest] at parts
    exact nomatch h.symm.trans (clean _ kind owner hash after parts)
  · cases h

/-- An administrator who sets a password leaves the sessions in place; a user's own change does not
stop an exchange that has begun. -/
theorem leaked_tokens_used :
    ¬ RevokesStale (fun _ _ a => only .usersPatch a = true) ∧
      ¬ RevokesStale (fun _ _ a => only .viewerUpdate a = true) ∧
      ¬ RevokesStale (fun _ _ a => only .changePassword a = true) := by
  have used (path : Path) (executed : (exec (step id matching id) (fun _ a => only path a)
      (start signedIn fun _ => .viewer) (leaked path)).any
        (fun m => (List.range m.log.length).any (isLeak m.log)) = true) :
      ¬ RevokesStale (fun _ _ a => only path a = true) := by
    intro revokes
    have sound (m : Serving) (a : Action) (ok : only path a = true) : only path a = true := ok
    obtain ⟨m, run, leak⟩ := exists_run sound executed
    obtain ⟨n, _, leak⟩ := List.any_eq_true.mp leak
    exact not_clean_of_isLeak leak (revokes id matching id signedIn _ _ m run)
  exact ⟨used .usersPatch (by decide +kernel), used .viewerUpdate (by decide +kernel),
    used .changePassword (by decide +kernel)⟩

end Vidsilo.Api.PasswordChanges
