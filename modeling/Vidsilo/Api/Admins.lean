import Vidsilo.Api.Guards
import Vidsilo.Api.Sessions
import Vidsilo.Categories.Table

/-!
# The last administrator

Source: internal/api/users.go:55-175, internal/api/auth.go:333-373 (`requireRole`),
internal/db/users.go, internal/db/seed.go:85-107 (`seedAdmin`), migration 0001. A request carries
the user of its access token; what it does before it loads that user is left out, and so are the
audit trail and the list of users. `lower` stands for the database's `lower`.
-/
namespace Vidsilo.Api.Admins
open Library Library.Procedure Library.SlashPath Library.Transition Library.Decimal
open AccessTokens (Role)
open Guards (Refusal unauthorized)
open Sessions (Lookup lookup)
open Categories (trim isSpace)

structure User where
  id : Int
  email : Text
  nameSurname : Text
  passwordHash : Text
  role : Role
  disabled : Bool
  deriving DecidableEq, Repr

def User.isAdmin (u : User) : Bool := u.role = .admin && !u.disabled

/-- The result of a statement that writes a row. -/
inductive Write (α : Type) where
  | failed
  /-- `ErrEmailTaken`. -/
  | taken
  | stored (row : α)

/-- What a user is loaded for: `requireRole`, the change of the row, or the answer after it. -/
inductive Use where
  | guard | change | reply
  deriving DecidableEq, Repr

/-- The statements, and the hash of a password. -/
inductive UserOp : Type → Type where
  | userByID (use : Use) (id : Int) : UserOp (Lookup User)
  | createUser (email nameSurname hash : Text) (role : Role) : UserOp (Write User)
  | updateUserPassword (id : Int) (hash : Text) : UserOp Bool
  | updateUser (id : Int) (email nameSurname : Text) (role : Role) (disabled : Bool) :
    UserOp (Write Unit)
  | deleteUser (id : Int) : UserOp Bool
  | hashPassword (password : Text) : UserOp (Option Text)

inductive Answer where
  | refused (refusal : Refusal)
  | user (status : Nat) (u : User)
  /-- Status 204. -/
  | noContent
  deriving DecidableEq, Repr

abbrev Handler := Procedure UserOp Answer

def badRequest (message : String) : Handler := pure (.refused ⟨400, "bad_request", message⟩)

def internalError : Handler := pure (.refused ⟨500, "internal", "internal error"⟩)

def emailTaken : Handler := pure (.refused ⟨409, "conflict", "email already taken"⟩)

def notFound : Handler := pure (.refused ⟨404, "not_found", "user not found"⟩)

structure UserBody where
  email : Text
  nameSurname : Text
  password : Text
  role : Text
  disabled : Option Bool
  deriving DecidableEq, Repr

/-- `validRole`, with the role that the text names. -/
def validRole (role : Text) : Option Role :=
  [Role.admin, .editor, .uploader, .viewer].find? fun r => r.text = role

/-- `requireRole(roleAdmin)`; `actor` is the user of the access token. -/
def requireAdmin (actor : Int) (next : User → Handler) : Handler := do
  match ← ask (.userByID .guard actor) with
  | .found u =>
    if u.disabled then pure (.refused (unauthorized "not signed in"))
    else if u.role = .admin then next u
    else pure (.refused ⟨403, "forbidden", "insufficient permissions"⟩)
  | _ => pure (.refused (unauthorized "not signed in"))

/-- A body that is not JSON is `none`. -/
def handleUsersCreate : Option UserBody → Handler
  | none => badRequest "invalid JSON body"
  | some body =>
    let email := trim isSpace body.email
    if email = [] ∨ body.password = [] then badRequest "email and password are required"
    else match validRole body.role with
      | none => badRequest "invalid role"
      | some role => do
        match ← ask (.hashPassword body.password) with
        | none => internalError
        | some hash =>
          match ← ask (.createUser email body.nameSurname hash role) with
          | .taken => emailTaken
          | .failed => internalError
          | .stored u => pure (.user 201 u)

/-- The row as the `UPDATE` has left it. -/
def reloadUser (id : Int) : Handler := do
  match ← ask (.userByID .reply id) with
  | .found u => pure (.user 200 u)
  | _ => internalError

def storeUser (id : Int) (body : UserBody) (role : Role) (current : User) : Handler := do
  let email := trim isSpace body.email
  match ← ask (.updateUser id (if email = [] then current.email else email) body.nameSurname role
      (body.disabled.getD current.disabled)) with
  | .taken => emailTaken
  | .failed => internalError
  | .stored _ => reloadUser id

def setPassword (id : Int) (password : Text) (next : Handler) : Handler :=
  if password = [] then next
  else do
    match ← ask (.hashPassword password) with
    | none => internalError
    | some hash =>
      match ← ask (.updateUserPassword id hash) with
      | false => internalError
      | true => next

def patchUser (id : Int) (body : UserBody) (role : Role) : Handler := do
  match ← ask (.userByID .change id) with
  | .found current => setPassword id body.password (storeUser id body role current)
  | _ => notFound

def handleUsersPatch (pathID : Text) (body : Option UserBody) (me : User) : Handler :=
  match parseInt pathID with
  | none => badRequest "invalid user id"
  | some id =>
    match body with
    | none => badRequest "invalid JSON body"
    | some body =>
      if me.id = id ∧ body.disabled = some true then
        badRequest "you cannot disable your own account"
      else match validRole body.role with
        | none => badRequest "invalid role"
        | some role => patchUser id body role

def handleUsersDelete (pathID : Text) (me : User) : Handler :=
  match parseInt pathID with
  | none => badRequest "invalid user id"
  | some id =>
    if me.id = id then badRequest "you cannot delete your own account"
    else do
      match ← ask (.deleteUser id) with
      | false => internalError
      | true => pure .noContent

inductive Request where
  | create (actor : Int) (body : Option UserBody)
  | patch (actor : Int) (pathID : Text) (body : Option UserBody)
  | delete (actor : Int) (pathID : Text)
  deriving DecidableEq, Repr

def Request.actor : Request → Int
  | .create actor _ | .patch actor _ _ | .delete actor _ => actor

def body : Request → Handler
  | .create actor body => requireAdmin actor fun _ => handleUsersCreate body
  | .patch actor pathID body => requireAdmin actor (handleUsersPatch pathID body)
  | .delete actor pathID => requireAdmin actor (handleUsersDelete pathID)

/-- The primary key and the unique index `users_email_lower`. -/
structure Valid (lower : Text → Text) (rows : List User) : Prop where
  ids : (rows.map User.id).Nodup
  emails : (rows.map fun u => lower u.email).Nodup

instance (lower : Text → Text) (rows : List User) : Decidable (Valid lower rows) :=
  decidable_of_iff ((rows.map User.id).Nodup ∧ (rows.map fun u => lower u.email).Nodup)
    ⟨fun h => ⟨h.1, h.2⟩, fun h => ⟨h.ids, h.emails⟩⟩

/-- `sequence` is the next value of the sequence of ids. -/
structure World (lower : Text → Text) where
  rows : List User
  valid : Valid lower rows
  sequence : Int

inductive Outcome where
  | ok
  | fails
  deriving DecidableEq, Repr

section Statements
variable {lower : Text → Text}

/-- What a statement leaves behind is checked against the constraints. -/
def World.store {α : Type} (w : World lower) (row : α) (rows : List User) :
    Write α × World lower :=
  if valid : Valid lower rows then (.stored row, { w with rows := rows, valid := valid })
  else (.taken, w)

def World.createUser (w : World lower) (email nameSurname hash : Text) (role : Role) :
    Write User × World lower :=
  let row : User := ⟨w.sequence, email, nameSurname, hash, role, false⟩
  { w with sequence := w.sequence + 1 }.store row (w.rows ++ [row])

def setRow (id : Int) (change : User → User) (u : User) : User := if u.id = id then change u else u

def World.updateUser (w : World lower) (id : Int) (email nameSurname : Text) (role : Role)
    (disabled : Bool) : Write Unit × World lower :=
  w.store () (w.rows.map (setRow id fun u =>
    { u with email := email, nameSurname := nameSurname, role := role, disabled := disabled }))

def setHash (hash : Text) (u : User) : User := { u with passwordHash := hash }

theorem map_setRow_hash {β : Type} (f : User → β) (same : ∀ hash u, f (setHash hash u) = f u)
    (id : Int) (hash : Text) (rows : List User) :
    (rows.map (setRow id (setHash hash))).map f = rows.map f := by
  rw [List.map_map]
  apply List.map_congr_left
  intro u _
  simp only [Function.comp_apply, setRow]
  split
  · exact same hash u
  · rfl

def World.updateUserPassword (w : World lower) (id : Int) (hash : Text) : World lower where
  rows := w.rows.map (setRow id (setHash hash))
  valid := ⟨by rw [map_setRow_hash User.id fun _ _ => rfl]; exact w.valid.ids,
    by rw [map_setRow_hash (fun u => lower u.email) fun _ _ => rfl]; exact w.valid.emails⟩
  sequence := w.sequence

def World.deleteUser (w : World lower) (id : Int) : World lower where
  rows := w.rows.filter (·.id ≠ id)
  valid := ⟨w.valid.ids.sublist (List.filter_sublist.map _),
    w.valid.emails.sublist (List.filter_sublist.map _)⟩
  sequence := w.sequence

/-- `hash` stands for `password.Hash`. -/
def perform (hash : Text → Text) : {β : Type} → UserOp β → Outcome → World lower →
    Option (β × World lower)
  | _, .userByID _ _, .fails, w => some (.failed, w)
  | _, .userByID _ id, .ok, w => some (lookup (w.rows.find? (·.id = id)), w)
  | _, .createUser _ _ _ _, .fails, w => some (.failed, w)
  | _, .createUser email nameSurname hash role, .ok, w =>
    some (w.createUser email nameSurname hash role)
  | _, .updateUserPassword _ _, .fails, w => some (false, w)
  | _, .updateUserPassword id hash, .ok, w => some (true, w.updateUserPassword id hash)
  | _, .updateUser _ _ _ _ _, .fails, w => some (.failed, w)
  | _, .updateUser id email nameSurname role disabled, .ok, w =>
    some (w.updateUser id email nameSurname role disabled)
  | _, .deleteUser _, .fails, w => some (false, w)
  | _, .deleteUser id, .ok, w => some (true, w.deleteUser id)
  | _, .hashPassword _, .fails, w => some (none, w)
  | _, .hashPassword password, .ok, w => some (some (hash password), w)

end Statements

inductive Action where
  | receive (id : Nat) (request : Request)
  | advance (id : Nat) (outcome : Outcome)
  | answer (id : Nat)
  deriving DecidableEq, Repr

abbrev Serving (lower : Text → Text) := Pool Nat Request UserOp Answer (World lower)

variable {lower : Text → Text}

def move (hash : Text → Text) (_ : Nat) (rest : Handler) (outcome : Outcome) (w : World lower) :
    Option (Handler × World lower) :=
  rest.advance (perform hash) outcome w

def step (hash : Text → Text) (m : Serving lower) : Action → Option (Serving lower)
  | .receive id request => m.step body (move hash) (.start id request)
  | .advance id outcome => m.step body (move hash) (.advance id outcome)
  | .answer id => m.step body (move hash) (.finish id)

/-- `seedAdmin` on an empty table. -/
def seeded (lower : Text → Text) (hash : Text) : World lower where
  rows := [⟨1, "admin@localhost".toList, "Admin".toList, hash, .admin, false⟩]
  valid := ⟨List.nodup_singleton _, List.nodup_singleton _⟩
  sequence := 2

def World.hasAdmin (w : World lower) : Bool := w.rows.any User.isAdmin

/-- The user with the id is an administrator, and can sign in. -/
def World.isAdmin (w : World lower) (id : Int) : Bool := w.rows.any fun u => u.id = id && u.isAdmin

def World.otherAdmin (w : World lower) (id : Int) : Bool :=
  w.rows.any fun u => u.id ≠ id && u.isAdmin

/-- In every run from the seeded table there is an administrator that can sign in. -/
def KeepsAdmin (cond : ∀ {lower : Text → Text}, Serving lower → Action → Prop) : Prop :=
  ∀ lower hash password trace (m : Serving lower),
    Run (step hash) cond (.idle (seeded lower (hash password))) trace m →
      m.world.hasAdmin = true

/-- The row of the user is not a disabled one. -/
def World.enabled (w : World lower) (id : Int) : Bool :=
  w.rows.all fun u => decide (u.id = id → u.disabled = false)

/-- The acting user is an administrator when users are changed or deleted, does not give up the
last administrator's role, and is not disabled when the own row is read to be changed. -/
def Acts (w : World lower) (actor : Int) : {β : Type} → UserOp β → Prop
  | _, .userByID .change id => id = actor → w.enabled actor = true
  | _, .deleteUser _ => w.isAdmin actor = true
  | _, .updateUser id _ _ role _ => w.isAdmin actor = true ∧
      (id = actor → role = .admin ∨ w.otherAdmin actor = true)
  | _, _ => True

instance (w : World lower) (actor : Int) : {β : Type} → (op : UserOp β) → Decidable (Acts w actor op)
  | _, .userByID .change _ => inferInstanceAs (Decidable (_ → _))
  | _, .deleteUser _ => inferInstanceAs (Decidable (_ = _))
  | _, .updateUser _ _ _ _ _ => inferInstanceAs (Decidable (_ ∧ _))
  | _, .userByID .guard _ | _, .userByID .reply _ | _, .createUser _ _ _ _
  | _, .updateUserPassword _ _ | _, .hashPassword _ => isTrue trivial

def Standing (m : Serving lower) : Action → Prop
  | .advance id _ => ∀ call ∈ m.calls id, call.rest.Starts (Acts m.world call.request.actor)
  | _ => True

instance (m : Serving lower) : (a : Action) → Decidable (Standing m a)
  | .advance id _ => inferInstanceAs (Decidable (∀ call ∈ m.calls id, _))
  | .receive _ _ | .answer _ => isTrue trivial

/-- What the guards of the handlers leave of the statements on the actor's own row. -/
def spares (actor : Int) {β : Type} : UserOp β → Prop
  | .updateUser id _ _ _ disabled => id = actor → disabled = false
  | .deleteUser id => id ≠ actor
  | _ => True

/-- A row that is read has the id asked for, and the actor's own, read to be changed, is not
disabled. -/
def reads (actor : Int) : {β : Type} → UserOp β → β → Prop
  | _, .userByID use id, .found u =>
    u.id = id ∧ (use = .change → id = actor → u.disabled = false)
  | _, _, _ => True

variable {actor : Int} {hash : Text → Text} {w w' : World lower} {outcome : Outcome}

theorem spares_reload (id : Int) : (reloadUser id).UsesGiven (spares actor) (reads actor) := by
  refine ⟨trivial, fun found _ => ?_⟩
  cases found with
  | _ => trivial

theorem spares_setPassword (id : Int) (password : Text) {next : Handler}
    (h : next.UsesGiven (spares actor) (reads actor)) :
    (setPassword id password next).UsesGiven (spares actor) (reads actor) := by
  unfold setPassword
  split
  · exact h
  · refine ⟨trivial, fun hashed _ => ?_⟩
    cases hashed with
    | none => trivial
    | some hash =>
      refine ⟨trivial, fun written _ => ?_⟩
      cases written with
      | false => trivial
      | true => exact h

theorem spares_patch {id : Int} {body : UserBody} (role : Role)
    (guarded : ¬ (actor = id ∧ body.disabled = some true)) :
    (patchUser id body role).UsesGiven (spares actor) (reads actor) := by
  refine ⟨trivial, fun found isRow => ?_⟩
  cases found with
  | found current =>
    apply spares_setPassword
    refine ⟨?_, fun written _ => ?_⟩
    · rintro rfl
      have enabled : current.disabled = false := isRow.2 rfl rfl
      cases asked : body.disabled with
      | none => exact enabled
      | some disabled =>
        cases disabled with
        | false => rfl
        | true => exact absurd ⟨rfl, asked⟩ guarded
    · cases written with
      | stored _ => exact spares_reload id
      | _ => trivial
  | _ => trivial

theorem spares_usersPatch (pathID : Text) (body : Option UserBody) {me : User} (isMe : me.id = actor) :
    (handleUsersPatch pathID body me).UsesGiven (spares actor) (reads actor) := by
  subst isMe
  unfold handleUsersPatch
  split
  · trivial
  · split
    · trivial
    · split
      · trivial
      next guarded =>
        split
        · trivial
        next role _ => exact spares_patch role guarded

theorem spares_usersDelete (pathID : Text) {me : User} (isMe : me.id = actor) :
    (handleUsersDelete pathID me).UsesGiven (spares actor) (reads actor) := by
  subst isMe
  unfold handleUsersDelete
  split
  · trivial
  · split
    · trivial
    next other =>
      refine ⟨Ne.symm other, fun deleted _ => ?_⟩
      cases deleted with
      | _ => trivial

theorem spares_usersCreate (body : Option UserBody) :
    (handleUsersCreate body).UsesGiven (spares actor) (reads actor) := by
  unfold handleUsersCreate
  split
  · trivial
  · dsimp only
    split
    · trivial
    · split
      · trivial
      · refine ⟨trivial, fun hashed _ => ?_⟩
        cases hashed with
        | none => trivial
        | some hash =>
          refine ⟨trivial, fun written _ => ?_⟩
          cases written with
          | _ => trivial

theorem spares_require {next : User → Handler}
    (h : ∀ me : User, me.id = actor → (next me).UsesGiven (spares actor) (reads actor)) :
    (requireAdmin actor next).UsesGiven (spares actor) (reads actor) := by
  refine ⟨trivial, fun found isRow => ?_⟩
  cases found with
  | found me =>
    change UsesGiven (spares actor) (reads actor) (if me.disabled = true then
        .ret (.refused (unauthorized "not signed in"))
      else if me.role = .admin then next me
      else .ret (.refused ⟨403, "forbidden", "insufficient permissions"⟩))
    split
    · trivial
    · split
      · exact h me isRow.1
      · trivial
  | _ => trivial

theorem spares_body (request : Request) :
    (body request).UsesGiven (spares request.actor) (reads request.actor) := by
  cases request with
  | create actor body => exact spares_require fun _ _ => spares_usersCreate body
  | patch actor pathID body => exact spares_require fun _ isMe => spares_usersPatch pathID body isMe
  | delete actor pathID => exact spares_require fun _ isMe => spares_usersDelete pathID isMe

theorem store_cases {α : Type} {row : α} {rows : List User} :
    (w.store row rows).2 = w ∨ (w.store row rows).2.rows = rows := by
  unfold World.store
  split
  · exact .inr rfl
  · exact .inl rfl

/-- Rows of other users are left as they are. -/
theorem other_stays {id : Int} {change : User → User} (h : w.otherAdmin id = true)
    (rows : w'.rows = w.rows.map (setRow id change)) : w'.hasAdmin = true := by
  obtain ⟨u, mem, isAdmin⟩ := List.any_eq_true.mp h
  simp only [Bool.and_eq_true, decide_eq_true_eq] at isAdmin
  refine List.any_eq_true.mpr ⟨u, ?_, isAdmin.2⟩
  rw [rows]
  exact List.mem_map.mpr ⟨u, mem, by rw [setRow, if_neg isAdmin.1]⟩

theorem otherAdmin_of_isAdmin {id : Int} (h : w.isAdmin actor = true) (other : id ≠ actor) :
    w.otherAdmin id = true := by
  obtain ⟨u, mem, isAdmin⟩ := List.any_eq_true.mp h
  simp only [Bool.and_eq_true, decide_eq_true_eq] at isAdmin
  refine List.any_eq_true.mpr ⟨u, mem, ?_⟩
  simp only [Bool.and_eq_true, decide_eq_true_eq]
  exact ⟨fun same => other (same.symm.trans isAdmin.1), isAdmin.2⟩

/-- An update of the own row that keeps the role, or of a row beside another administrator's. -/
theorem hasAdmin_update {id : Int} {email nameSurname : Text} {role : Role} {disabled : Bool}
    (has : w.hasAdmin = true) (acting : w.isAdmin actor = true)
    (own : id = actor → role = .admin ∨ w.otherAdmin actor = true)
    (spared : id = actor → disabled = false) :
    (w.updateUser id email nameSurname role disabled).2.hasAdmin = true := by
  rcases store_cases with same | rows
  · rw [World.updateUser, same]
    exact has
  · by_cases isOwn : id = actor
    · subst isOwn
      rcases own rfl with rfl | other
      · obtain ⟨u, mem, isAdmin⟩ := List.any_eq_true.mp acting
        simp only [Bool.and_eq_true, decide_eq_true_eq] at isAdmin
        refine List.any_eq_true.mpr
          ⟨⟨u.id, email, nameSurname, u.passwordHash, .admin, disabled⟩, ?_, ?_⟩
        · rw [World.updateUser, rows]
          exact List.mem_map.mpr ⟨u, mem, by rw [setRow, if_pos isAdmin.1]⟩
        · simp [User.isAdmin, spared rfl]
      · exact other_stays other rows
    · exact other_stays (otherAdmin_of_isAdmin acting isOwn) rows

theorem hasAdmin_create {email nameSurname hash : Text} {role : Role} (has : w.hasAdmin = true) :
    (w.createUser email nameSurname hash role).2.hasAdmin = true := by
  simp only [World.createUser]
  rcases store_cases with same | rows
  · rw [same]
    exact has
  · rw [World.hasAdmin, rows, List.any_append]
    have old : w.rows.any User.isAdmin = true := has
    simp [old]

theorem hasAdmin_delete {id : Int} (acting : w.isAdmin actor = true) (other : id ≠ actor) :
    (w.deleteUser id).hasAdmin = true := by
  obtain ⟨u, mem, isAdmin⟩ := List.any_eq_true.mp (otherAdmin_of_isAdmin acting other)
  simp only [Bool.and_eq_true, decide_eq_true_eq] at isAdmin
  exact List.any_eq_true.mpr ⟨u, List.mem_filter.mpr ⟨mem, decide_eq_true isAdmin.1⟩, isAdmin.2⟩

theorem hasAdmin_password {id : Int} {hashed : Text} (has : w.hasAdmin = true) :
    (w.updateUserPassword id hashed).hasAdmin = true := by
  obtain ⟨u, mem, isAdmin⟩ := List.any_eq_true.mp has
  refine List.any_eq_true.mpr ⟨_, List.mem_map.mpr ⟨u, mem, rfl⟩, ?_⟩
  simp only [setRow]
  split
  · exact isAdmin
  · exact isAdmin

theorem perform_hasAdmin {β : Type} {op : UserOp β} {b : β} (has : w.hasAdmin = true)
    (acts : Acts w actor op) (spared : spares actor op)
    (taken : perform hash op outcome w = some (b, w')) : w'.hasAdmin = true := by
  cases op with
  | createUser email nameSurname hashed role =>
    cases outcome with
    | ok =>
      have isWorld : (w.createUser email nameSurname hashed role).2 = w' :=
        congrArg Prod.snd (Option.some.inj taken)
      rw [← isWorld]
      exact hasAdmin_create has
    | fails =>
      cases taken
      exact has
  | updateUserPassword id hashed =>
    cases outcome with
    | ok =>
      cases taken
      exact hasAdmin_password has
    | fails =>
      cases taken
      exact has
  | updateUser id email nameSurname role disabled =>
    cases outcome with
    | ok =>
      have isWorld : (w.updateUser id email nameSurname role disabled).2 = w' :=
        congrArg Prod.snd (Option.some.inj taken)
      rw [← isWorld]
      exact hasAdmin_update has acts.1 acts.2 spared
    | fails =>
      cases taken
      exact has
  | deleteUser id =>
    cases outcome with
    | ok =>
      cases taken
      exact hasAdmin_delete acts spared
    | fails =>
      cases taken
      exact has
  | _ =>
    cases outcome with
    | _ =>
      cases taken
      exact has

theorem perform_reads {β : Type} {op : UserOp β} {b : β} (acts : Acts w actor op)
    (taken : perform hash op outcome w = some (b, w')) : reads actor op b := by
  cases op with
  | userByID use id =>
    cases outcome with
    | fails =>
      cases taken
      trivial
    | ok =>
      cases found : w.rows.find? (·.id = id) with
      | none =>
        simp only [perform, found, lookup, Option.some.injEq, Prod.mk.injEq] at taken
        rw [← taken.1]
        trivial
      | some u =>
        simp only [perform, found, lookup, Option.some.injEq, Prod.mk.injEq] at taken
        rw [← taken.1]
        have isId : u.id = id := by simpa using List.find?_some found
        refine ⟨isId, ?_⟩
        rintro rfl rfl
        have enabled := List.all_eq_true.mp (acts rfl) u (List.mem_of_find?_eq_some found)
        exact of_decide_eq_true enabled isId
  | _ => trivial

structure Inv (m : Serving lower) : Prop where
  has : m.world.hasAdmin = true
  spared : ∀ i call, m.calls i = some call →
    call.rest.UsesGiven (spares call.request.actor) (reads call.request.actor)

variable {m m' : Serving lower} {i : Nat}

theorem Inv.set (h : Inv m) {call : Option (Call Request UserOp Answer)} {world : World lower}
    (has : world.hasAdmin = true)
    (fits : ∀ c, call = some c →
      c.rest.UsesGiven (spares c.request.actor) (reads c.request.actor)) :
    Inv { m.setCall i call with world := world } := by
  exact ⟨has, Pool.forall_setCall fits fun j c _ found => h.spared j c found⟩

theorem Inv.advance (h : Inv m) (standing : Standing m (.advance i outcome))
    (taken : step hash m (.advance i outcome) = some m') : Inv m' := by
  have advanced : m.step body (move hash) (.advance i outcome) = some m' := taken
  obtain ⟨⟨request, rest⟩, rest', world, found, moved, rfl⟩ := Pool.advance_cases advanced
  have acts : rest.Starts (Acts m.world request.actor) := standing _ found
  have spared := h.spared i _ found
  cases rest with
  | ret answer => cases moved
  | call op next =>
    obtain ⟨b, performed, rfl⟩ := advance_call moved
    refine h.set (perform_hasAdmin h.has acts spared.1 performed) ?_
    intro c isCall
    cases isCall
    exact spared.2 b (perform_reads acts performed)

/-- In every run in which the acting user is an administrator at each statement that changes or
deletes a user, nobody gives up the last administrator's role, and nobody disabled reads the own
row to change it, there is an administrator that can sign in. -/
theorem hasAdmin_while_standing (lower hash : Text → Text) (password : Text) (trace : List Action)
    (m : Serving lower)
    (h : Run (step hash) Standing (.idle (seeded lower (hash password))) trace m) :
    m.world.hasAdmin = true := by
  have start : Inv (.idle (seeded lower (hash password)) : Serving lower) := ⟨rfl, nofun⟩
  refine (h.invariant Inv start ?_).has
  intro m a m' inv standing taken
  cases a with
  | receive i request =>
    have started : m.step body (move hash) (.start i request) = some m' := taken
    obtain ⟨_, rfl⟩ := Pool.start_cases started
    refine inv.set inv.has ?_
    intro c isCall
    cases isCall
    exact spares_body request
  | advance i outcome => exact inv.advance standing taken
  | answer i =>
    have finished : m.step body (move hash) (.finish i) = some m' := taken
    obtain ⟨_, _, _, rfl⟩ := Pool.finish_cases finished
    exact inv.set inv.has nofun

/-- The statements of a request, all carried out. -/
def serves (i : Nat) (request : Request) (statements : Nat) : List Action :=
  .receive i request :: List.replicate statements (.advance i .ok) ++ [.answer i]

def secondAdmin : UserBody := ⟨['b'], ['n'], ['p'], Role.text .admin, none⟩

/-- Another role for oneself. -/
def otherRole : UserBody := ⟨[], ['n'], [], Role.text .viewer, none⟩

/-- The first administrator creates a second one, steps down, tries to come back, and is deleted. -/
def succession : List Action :=
  serves 0 (.create 1 (some secondAdmin)) 3 ++ serves 1 (.patch 1 ['1'] (some otherRole)) 4 ++
    serves 2 (.patch 1 ['1'] (some secondAdmin)) 1 ++ serves 3 (.delete 2 ['1']) 2

theorem hasAdmin_after_succession : ∃ m : Serving id,
    Run (step id) Standing (.idle (seeded id ['p'])) succession m ∧ m.world.hasAdmin = true := by
  have executed : (exec (step id) (fun m a => decide (Standing m a))
      (.idle (seeded id ['p']) : Serving id) succession).any (fun _ => true) = true := by
    decide +kernel
  obtain ⟨m, run, _⟩ := exists_run (fun _ _ => of_decide_eq_true) executed
  exact ⟨m, run, hasAdmin_while_standing id id ['p'] _ m run⟩

def NoPatch (_ : Serving lower) : Action → Bool
  | .receive _ (.patch _ _ _) => false
  | _ => true

/-- The only administrator takes another role. -/
def stepsDown : List Action :=
  serves 0 (.patch 1 ['1'] (some otherRole)) 4

/-- Two administrators delete each other; both have been let in before. -/
def deleteEachOther : List Action :=
  serves 0 (.create 1 (some secondAdmin)) 3 ++
    [.receive 1 (.delete 1 ['2']), .receive 2 (.delete 2 ['1'])] ++
    [.advance 1 .ok, .advance 2 .ok, .advance 1 .ok, .advance 2 .ok]

/-- The guards miss the change of one's own role, and requests that overlap. -/
theorem admins_lost :
    ¬ KeepsAdmin Always ∧ ¬ KeepsAdmin fun m a => NoPatch m a = true := by
  have lost (cond : Serving id → Action → Prop) (ok : Serving id → Action → Bool)
      (sound : ∀ m a, ok m a = true → cond m a) (trace : List Action)
      (executed : (exec (step id) ok (.idle (seeded id ['p'])) trace).any
        (fun m => !m.world.hasAdmin) = true) :
      ∃ m : Serving id, Run (step id) cond (.idle (seeded id ['p'])) trace m ∧
        m.world.hasAdmin = false := by
    obtain ⟨m, run, none⟩ := exists_run sound executed
    exact ⟨m, run, by simpa using none⟩
  constructor
  · intro keeps
    obtain ⟨m, run, none⟩ := lost Always (fun _ _ => true) (fun _ _ _ => trivial) stepsDown
      (by decide +kernel)
    exact nomatch none.symm.trans (keeps id id ['p'] _ m run)
  · intro keeps
    obtain ⟨m, run, none⟩ := lost _ NoPatch (fun _ _ ok => ok) deleteEachOther (by decide +kernel)
    exact nomatch none.symm.trans (keeps id id ['p'] _ m run)

end Vidsilo.Api.Admins
