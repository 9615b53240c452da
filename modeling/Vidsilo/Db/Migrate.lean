import Mathlib.Data.List.Sort
import Vidsilo.Library.Decimal
import Vidsilo.Library.Procedure
import Vidsilo.Storage.Drivers

/-!
# Migrations of nodes that boot at once

Source: internal/db/migrate.go, internal/db/bootstrap.go, internal/db/seed.go (as statements that may
fail). A call uses one connection of a pool and the pool gives a broken one no further. A statement
succeeds, fails, or its connection ends before or after it has taken effect; a connection may end at
any other moment too, and a crashed node takes no further step. The end of a connection releases its
lock and rolls its transaction back. The insert of a version does not look at uncommitted rows.
-/
namespace Vidsilo.Db.Migrate
open Library Library.Procedure Library.SlashPath Library.Decimal Library.Transition

structure DirEntry where
  name : Text
  isDir : Bool
  deriving DecidableEq, Repr

def migrationVersion (name : Text) : Int :=
  (parseInt (name.takeWhile (· ≠ '_'))).getD 0

/-- The names in the order of `sort.Strings`. -/
def migrationNames (entries : List DirEntry) : List Text :=
  ((entries.filter fun e => !e.isDir && ".sql".toList.isSuffixOf e.name).map
    DirEntry.name).insertionSort fun a b => Storage.Drivers.textLe a b

/-- A directory of migrations with distinct positive numeric prefixes. -/
structure Migrations where
  entries : List DirEntry
  positive : ∀ name ∈ migrationNames entries, 0 < migrationVersion name
  distinct : ((migrationNames entries).map migrationVersion).Nodup

def Migrations.names (m : Migrations) : List Text := migrationNames m.entries

inductive Request where
  | migrate
  | mustSeed
  deriving DecidableEq, Repr

inductive MigrateError where
  /-- `db: create schema_migrations` -/
  | createTable
  /-- `db: migration %q has no numeric prefix` -/
  | noPrefix (name : Text)
  /-- `db: apply %s` -/
  | apply (name : Text)
  /-- Passed on as the driver gives it. -/
  | driver
  deriving DecidableEq, Repr

/-- `none` is `nil`. -/
abbrev Result := Option MigrateError

inductive Seed where
  | settings
  | flavors
  | admin
  deriving DecidableEq, Repr

inductive MigrateOp : Type → Type where
  | acquire : MigrateOp Bool
  /-- `pg_advisory_lock` -/
  | lock : MigrateOp Bool
  | createTable : MigrateOp Bool
  | exists (version : Int) : MigrateOp (Option Bool)
  | begin : MigrateOp Bool
  /-- The SQL of a migration. -/
  | exec (name : Text) : MigrateOp Bool
  | insert (version : Int) : MigrateOp Bool
  | rollback : MigrateOp Bool
  | commit : MigrateOp Bool
  | seed (what : Seed) : MigrateOp Bool
  /-- `pg_advisory_unlock` -/
  | unlock : MigrateOp Bool
  | release : MigrateOp Bool

abbrev Handler := Procedure MigrateOp Result

def release (result : Result) : Handler := do
  let _ ← ask .release
  pure result

def unlock (result : Result) : Handler := do
  let _ ← ask .unlock
  release result

def seed : List Seed → Handler
  | [] => unlock none
  | what :: rest => do
    match ← ask (.seed what) with
    | false => unlock (some .driver)
    | true => seed rest

/-- What the function under the lock does behind `migrateOnConn`. -/
def afterMigrations : Request → Result → Handler
  | .migrate, result => unlock result
  | .mustSeed, some e => unlock (some e)
  | .mustSeed, none => seed [.settings, .flavors, .admin]

def rollback (request : Request) (e : MigrateError) : Handler := do
  let _ ← ask .rollback
  afterMigrations request (some e)

def commit (request : Request) (next : Handler) : Handler := do
  match ← ask .commit with
  | false => afterMigrations request (some .driver)
  | true => next

def insert (request : Request) (name : Text) (next : Handler) : Handler := do
  match ← ask (.insert (migrationVersion name)) with
  | false => rollback request .driver
  | true => commit request next

def exec (request : Request) (name : Text) (next : Handler) : Handler := do
  match ← ask (.exec name) with
  | false => rollback request (.apply name)
  | true => insert request name next

def begin (request : Request) (name : Text) (next : Handler) : Handler := do
  match ← ask .begin with
  | false => afterMigrations request (some .driver)
  | true => exec request name next

/-- The loop of `migrateOnConn`. -/
def migrateLoop (request : Request) : List Text → Handler
  | [] => afterMigrations request none
  | name :: rest =>
    if migrationVersion name = 0 then afterMigrations request (some (.noPrefix name))
    else do
      match ← ask (.exists (migrationVersion name)) with
      | none => afterMigrations request (some .driver)
      | some true => migrateLoop request rest
      | some false => begin request name (migrateLoop request rest)

def migrateOnConn (m : Migrations) (request : Request) : Handler := do
  match ← ask .createTable with
  | false => afterMigrations request (some .createTable)
  | true => migrateLoop request m.names

def lock (m : Migrations) (request : Request) : Handler := do
  match ← ask .lock with
  | false => release (some .driver)
  | true => migrateOnConn m request

/-- `Migrate` and `MustSeed`. -/
def withBootstrapLock (m : Migrations) (request : Request) : Handler := do
  match ← ask .acquire with
  | false => pure (some .driver)
  | true => lock m request

/-- What a transaction has done so far. -/
structure Tx where
  applied : List Text
  versions : List Int
  deriving DecidableEq, Repr

structure Session where
  up : Bool
  tx : Option Tx
  deriving DecidableEq, Repr

def Session.down : Session := ⟨false, none⟩

variable {Id : Type}

structure World (Id : Type) where
  /-- The table `schema_migrations` exists. -/
  table : Bool
  recorded : List Int
  /-- The migrations whose SQL has taken effect, in that order. -/
  applied : List Text
  /-- The holder of the advisory lock, and how often it has taken it. -/
  locked : Option (Id × Nat)
  sessions : Id → Session

def World.fresh : World Id := ⟨false, [], [], none, fun _ => .down⟩

inductive Outcome where
  | ok
  | fails
  /-- The connection ends, once the statement is done or before it. -/
  | lost (done : Bool)
  deriving DecidableEq, Repr

/-- The outcome of a statement that cannot succeed unless the condition holds. -/
def Outcome.given (condition : Bool) (outcome : Outcome) : Outcome :=
  if condition then outcome
  else
    match outcome with
    | .lost _ => .lost false
    | _ => .fails

variable [DecidableEq Id]

def World.setSession (w : World Id) (id : Id) (session : Session) : World Id :=
  { w with sessions := fun i => if i = id then session else w.sessions i }

def World.setTx (w : World Id) (id : Id) (tx : Option Tx) : World Id :=
  w.setSession id { w.sessions id with tx := tx }

/-- A connection ends. -/
def World.disconnect (w : World Id) (id : Id) : World Id :=
  { w.setSession id .down with locked := w.locked.filter fun l => l.1 ≠ id }

/-- A statement on the connection, with its effect where it succeeds. -/
def World.statement (w : World Id) (id : Id) (outcome : Outcome) (effect : World Id → World Id) :
    Bool × World Id :=
  if (w.sessions id).up then
    match outcome with
    | .ok => (true, effect w)
    | .fails => (false, w)
    | .lost done => (false, (if done then effect w else w).disconnect id)
  else (false, w)

/-- The lock is free or held by the connection itself. -/
def World.lockable (w : World Id) (id : Id) : Bool := w.locked.all fun l => l.1 = id

def World.takeLock (id : Id) (w : World Id) : World Id :=
  { w with locked := some (id, w.locked.elim 1 fun l => l.2 + 1) }

def World.dropLock (id : Id) (w : World Id) : World Id :=
  { w with locked := w.locked.bind fun l =>
      if l.1 = id then (if l.2 ≤ 1 then none else some (id, l.2 - 1)) else some l }

def World.commitTx (id : Id) (w : World Id) : World Id :=
  match (w.sessions id).tx with
  | none => w
  | some tx =>
    { w.setTx id none with
      recorded := w.recorded ++ tx.versions
      applied := w.applied ++ tx.applied }

def World.inTx (id : Id) (change : Tx → Tx) (w : World Id) : World Id :=
  w.setTx id ((w.sessions id).tx.map change)

/-- A failed commit leaves no transaction behind. -/
def perform (id : Id) {β : Type} (op : MigrateOp β) (outcome : Outcome) (w : World Id) :
    Option (β × World Id) :=
  match op with
  | .acquire =>
    match outcome with
    | .ok => some (true, if (w.sessions id).up then w else w.setSession id ⟨true, none⟩)
    | _ => some (false, w)
  | .lock =>
    if w.lockable id || outcome ≠ .ok then
      some (w.statement id (outcome.given (w.lockable id)) (World.takeLock id))
    else none
  | .createTable => some (w.statement id outcome fun w => { w with table := true })
  | .exists version =>
    let r := w.statement id (outcome.given w.table) fun w => w
    some (if r.1 then some (w.recorded.contains version) else none, r.2)
  | .begin => some (w.statement id outcome (World.setTx · id (some ⟨[], []⟩)))
  | .exec name =>
    some (w.statement id outcome
      (World.inTx id fun tx => { tx with applied := tx.applied ++ [name] }))
  | .insert version =>
    let unique := !w.recorded.contains version &&
      ((w.sessions id).tx.all fun tx => !tx.versions.contains version)
    some (w.statement id (outcome.given unique)
      (World.inTx id fun tx => { tx with versions := tx.versions ++ [version] }))
  | .rollback =>
    let r := w.statement id outcome (World.setTx · id none)
    some (if r.1 then r else (false, r.2.disconnect id))
  | .commit =>
    let r := w.statement id outcome (World.commitTx id)
    some (if r.1 then r else (false, r.2.setTx id none))
  | .seed _ => some (w.statement id outcome fun w => w)
  | .unlock => some (w.statement id outcome (World.dropLock id))
  | .release => some (true, if (w.sessions id).tx.isSome then w.disconnect id else w)

abbrev Nodes (Id : Type) := Pool Id Request MigrateOp Result (World Id)

inductive Action (Id : Type) where
  | call (action : Pool.Action Id Request Outcome)
  /-- The connection ends by itself. -/
  | disconnect (id : Id)

def step (m : Migrations) (p : Nodes Id) : Action Id → Option (Nodes Id)
  | .call action => Pool.step (withBootstrapLock m) (fun id rest => rest.advance (perform id)) p action
  | .disconnect id => some { p with world := p.world.disconnect id }

/-- A statement succeeds, does nothing, or ends its connection. -/
theorem statement_cases (w : World Id) (id : Id) (outcome : Outcome)
    (effect : World Id → World Id) :
    ((w.sessions id).up = true ∧ outcome = .ok ∧ w.statement id outcome effect = (true, effect w)) ∨
    w.statement id outcome effect = (false, w) ∨
    w.statement id outcome effect = (false, w.disconnect id) ∨
    ((w.sessions id).up = true ∧ outcome = .lost true ∧
      w.statement id outcome effect = (false, (effect w).disconnect id)) := by
  unfold World.statement
  by_cases up : (w.sessions id).up = true
  · cases outcome with
    | ok => exact .inl ⟨up, rfl, if_pos up⟩
    | fails => exact .inr (.inl (if_pos up))
    | lost done =>
      cases done
      · exact .inr (.inr (.inl (if_pos up)))
      · exact .inr (.inr (.inr ⟨up, rfl, if_pos up⟩))
  · exact .inr (.inl (if_neg up))

/-- What a step of one connection leaves of the world for the others. -/
structure Leaves (id : Id) (w w' : World Id) : Prop where
  applied : w'.applied = w.applied
  recorded : w'.recorded = w.recorded
  sessions : ∀ i, i ≠ id → w'.sessions i = w.sessions i
  locked : ∀ i n, i ≠ id → (w'.locked = some (i, n) ↔ w.locked = some (i, n))

omit [DecidableEq Id] in
theorem Leaves.refl (id : Id) (w : World Id) : Leaves id w w :=
  ⟨rfl, rfl, fun _ _ => rfl, fun _ _ _ => Iff.rfl⟩

omit [DecidableEq Id] in
theorem Leaves.trans {id : Id} {w w' w'' : World Id} (first : Leaves id w w')
    (second : Leaves id w' w'') : Leaves id w w'' :=
  ⟨second.applied.trans first.applied, second.recorded.trans first.recorded,
    fun i ne => (second.sessions i ne).trans (first.sessions i ne),
    fun i n ne => (second.locked i n ne).trans (first.locked i n ne)⟩

theorem leaves_setSession (w : World Id) (id : Id) (session : Session) :
    Leaves id w (w.setSession id session) :=
  ⟨rfl, rfl, fun _ ne => if_neg ne, fun _ _ _ => Iff.rfl⟩

theorem leaves_disconnect (w : World Id) (id : Id) : Leaves id w (w.disconnect id) := by
  refine ⟨rfl, rfl, fun _ ne => if_neg ne, fun i n ne => ?_⟩
  cases locked : w.locked with
  | none => simp [World.disconnect, locked]
  | some l => simp [World.disconnect, locked, ne]

theorem leaves_takeLock {w : World Id} {id : Id} (lockable : w.lockable id = true) :
    Leaves id w (w.takeLock id) := by
  refine ⟨rfl, rfl, fun _ _ => rfl, fun i n ne => ?_⟩
  have other : ¬ id = i := fun same => ne same.symm
  cases locked : w.locked with
  | none => simp [World.takeLock, locked, other]
  | some l =>
    have own : l.1 = id := by simpa [World.lockable, locked] using lockable
    have notOther : ¬ l = (i, n) := by
      rintro rfl
      exact ne own
    simp [World.takeLock, locked, other, notOther]

theorem leaves_dropLock (w : World Id) (id : Id) : Leaves id w (w.dropLock id) := by
  refine ⟨rfl, rfl, fun _ _ => rfl, fun i n ne => ?_⟩
  have other : ¬ id = i := fun same => ne same.symm
  cases locked : w.locked with
  | none => simp [World.dropLock, locked]
  | some l =>
    by_cases own : l.1 = id
    · have notOther : ¬ l = (i, n) := by
        rintro rfl
        exact ne own
      by_cases last : l.2 ≤ 1 <;> simp [World.dropLock, locked, own, last, other, notOther]
    · simp [World.dropLock, locked, own]

/-- A statement whose effect leaves the rest alone. -/
theorem leaves_statement {w : World Id} {id : Id} {effect : World Id → World Id} (outcome : Outcome)
    (leaves : outcome = .ok ∨ outcome = .lost true → Leaves id w (effect w)) :
    Leaves id w (w.statement id outcome effect).2 := by
  obtain ⟨-, ok, done⟩ | nothing | ended | ⟨-, lost, ended⟩ := statement_cases w id outcome effect
  · rw [done]
    exact leaves (.inl ok)
  · rw [nothing]
    exact .refl id w
  · rw [ended]
    exact leaves_disconnect w id
  · rw [ended]
    exact (leaves (.inr lost)).trans (leaves_disconnect _ id)

end Vidsilo.Db.Migrate
