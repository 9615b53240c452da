import Vidsilo.Library.Ledger
import Vidsilo.Library.Procedure
import Vidsilo.Library.SlashPath

/-!
# The analytics accumulator

Source: internal/analytics/analytics.go:17-164, internal/db/migrations/0001_init.sql:116-140.
Deltas collect in memory; a flush swaps the maps out and writes them in one transaction,
which has no effect unless it commits. The tables refer to entries, whose deletion cascades;
the ids of entries come from a sequence.
-/
namespace Vidsilo.Analytics
open Library Library.Procedure Library.SlashPath

structure DailyKey where
  entryId : Int
  /-- YYYY-MM-DD. -/
  day : Text
  deriving DecidableEq, Repr

@[ext]
structure DailyDelta where
  plays : Int
  watch : Int
  bytes : Int
  deriving DecidableEq, Repr

instance : Zero DailyDelta := ⟨⟨0, 0, 0⟩⟩

instance : Add DailyDelta := ⟨fun d d' => ⟨d.plays + d'.plays, d.watch + d'.watch, d.bytes + d'.bytes⟩⟩

namespace DailyDelta

@[simp] theorem zero_plays : (0 : DailyDelta).plays = 0 := rfl

@[simp] theorem zero_watch : (0 : DailyDelta).watch = 0 := rfl

@[simp] theorem zero_bytes : (0 : DailyDelta).bytes = 0 := rfl

@[simp] theorem add_plays (d d' : DailyDelta) : (d + d').plays = d.plays + d'.plays := rfl

@[simp] theorem add_watch (d d' : DailyDelta) : (d + d').watch = d.watch + d'.watch := rfl

@[simp] theorem add_bytes (d d' : DailyDelta) : (d + d').bytes = d.bytes + d'.bytes := rfl

end DailyDelta

instance : AddCommMonoid DailyDelta where
  add_assoc a b c := by ext <;> simp <;> omega
  zero_add a := by ext <;> simp
  add_zero a := by ext <;> simp
  add_comm a b := by ext <;> simp <;> omega
  nsmul := nsmulRec

structure ViewerKey where
  entryId : Int
  day : Text
  viewerId : Text
  deriving DecidableEq, Repr

structure Accumulator where
  enabled : Bool
  days : Ledger DailyKey DailyDelta
  viewers : List ViewerKey

namespace Accumulator

/-- `New`, without the pool. -/
def new (enabled : Bool) : Accumulator := ⟨enabled, [], []⟩

/-- `days[k]`, made when it is missing, plus the delta. -/
def addDelta (a : Accumulator) (k : DailyKey) (d : DailyDelta) : Accumulator :=
  { a with days := Ledger.add k d a.days }

def addPlay (a : Accumulator) (entryId : Int) (viewerId day : Text) : Accumulator :=
  if a.enabled then
    let counted := a.addDelta ⟨entryId, day⟩ ⟨1, 0, 0⟩
    if viewerId = [] then counted
    else { counted with viewers := counted.viewers.insert ⟨entryId, day, viewerId⟩ }
  else a

/-- Only a positive number counts. -/
def addAmount (a : Accumulator) (k : DailyKey) (n : Int) (d : DailyDelta) : Accumulator :=
  if a.enabled = false ∨ n ≤ 0 then a else a.addDelta k d

def addWatch (a : Accumulator) (entryId seconds : Int) (day : Text) : Accumulator :=
  a.addAmount ⟨entryId, day⟩ seconds ⟨0, seconds, 0⟩

def addBytes (a : Accumulator) (entryId n : Int) (day : Text) : Accumulator :=
  a.addAmount ⟨entryId, day⟩ n ⟨0, 0, n⟩

end Accumulator

/-- What a flush has swapped out. -/
structure Batch where
  days : Ledger DailyKey DailyDelta
  viewers : List ViewerKey

structure Db where
  entries : List Int
  /-- The sequence of entry ids. -/
  nextId : Int
  daily : Ledger DailyKey DailyDelta
  totals : Ledger Int DailyDelta
  viewers : List ViewerKey

inductive DbError where
  | foreignKey | failed
  deriving DecidableEq, Repr

inductive Outcome where
  | ok | fails
  deriving DecidableEq, Repr

inductive Statement : Type → Type where
  | begin : Statement (Except DbError Unit)
  | insertDaily (k : DailyKey) (d : DailyDelta) : Statement (Except DbError Unit)
  | insertTotals (entryId : Int) (d : DailyDelta) : Statement (Except DbError Unit)
  | insertViewer (v : ViewerKey) : Statement (Except DbError Unit)
  | commit : Statement (Except DbError Unit)

/-- An `INSERT` into a table that refers to entries. -/
def insertFor (db : Db) (entryId : Int) (after : Db) : Except DbError Unit × Db :=
  if entryId ∈ db.entries then (.ok (), after) else (.error .foreignKey, db)

/-- The tables as the transaction sees them. -/
def perform : {β : Type} → Statement β → Outcome → Db → Option (β × Db)
  | _, .begin, .ok, db => some (.ok (), db)
  | _, .insertDaily k d, .ok, db =>
    some (insertFor db k.entryId { db with daily := Ledger.add k d db.daily })
  | _, .insertTotals entryId d, .ok, db =>
    some (insertFor db entryId { db with totals := Ledger.add entryId d db.totals })
  | _, .insertViewer v, .ok, db =>
    some (insertFor db v.entryId { db with viewers := db.viewers.insert v })
  | _, .commit, .ok, db => some (.ok (), db)
  | _, .begin, .fails, db => some (.error .failed, db)
  | _, .insertDaily _ _, .fails, db => some (.error .failed, db)
  | _, .insertTotals _ _, .fails, db => some (.error .failed, db)
  | _, .insertViewer _, .fails, db => some (.error .failed, db)
  | _, .commit, .fails, db => some (.error .failed, db)

def insertDays : Ledger DailyKey DailyDelta → Procedure Statement (Except DbError Unit)
  | [] => pure (.ok ())
  | (k, d) :: rest => do
    match ← ask (.insertDaily k d) with
    | .error err => pure (.error err)
    | .ok _ =>
      match ← ask (.insertTotals k.entryId d) with
      | .error err => pure (.error err)
      | .ok _ => insertDays rest

def insertViewers : List ViewerKey → Procedure Statement (Except DbError Unit)
  | [] => pure (.ok ())
  | v :: rest => do
    match ← ask (.insertViewer v) with
    | .error err => pure (.error err)
    | .ok _ => insertViewers rest

/-- The transaction of a flush, with the rows in the order in which the maps are visited. -/
def flushTx (batch : Batch) : Procedure Statement (Except DbError Unit) := do
  match ← ask .begin with
  | .error err => pure (.error err)
  | .ok _ =>
    match ← insertDays batch.days with
    | .error err => pure (.error err)
    | .ok _ =>
      match ← insertViewers batch.viewers with
      | .error err => pure (.error err)
      | .ok _ => ask .commit

/-- The tables after the transaction: rolled back unless it commits. -/
def transact (batch : Batch) (outcomes : List Outcome) (db : Db) : Db :=
  match (flushTx batch).run perform .ok outcomes db with
  | some (.ok _, after) => after
  | _ => db

/-- One statement to begin and one to commit. -/
def Batch.statements (batch : Batch) : Nat := 2 + 2 * batch.days.length + batch.viewers.length

/-- `flights` are the batches whose transactions have not ended. -/
structure System where
  acc : Accumulator
  db : Db
  flights : List Batch

/-- A call under the mutex; a flush under the mutex; the transaction of a flush, with the
outcomes of its statements and its rows in some order; and what happens to the entries. -/
inductive Action where
  | addPlay (entryId : Int) (viewerId day : Text)
  | addWatch (entryId seconds : Int) (day : Text)
  | addBytes (entryId n : Int) (day : Text)
  | swap
  | transact (flight : Nat) (visited : Batch) (outcomes : List Outcome)
  | createEntry
  | deleteEntry (entryId : Int)

/-- `ON DELETE CASCADE`. -/
def Db.deleteEntry (db : Db) (entryId : Int) : Db :=
  { db with
    entries := db.entries.filter (· ≠ entryId)
    daily := db.daily.filter fun row => row.1.entryId ≠ entryId
    totals := db.totals.filter fun row => row.1 ≠ entryId
    viewers := db.viewers.filter fun v => v.entryId ≠ entryId }

def Db.createEntry (db : Db) : Db :=
  { db with entries := db.nextId :: db.entries, nextId := db.nextId + 1 }

def swap (s : System) : System :=
  if s.acc.enabled = false then s
  else if s.acc.days = [] ∧ s.acc.viewers = [] then s
  else { s with acc := .new true, flights := ⟨s.acc.days, s.acc.viewers⟩ :: s.flights }

def step (s : System) : Action → Option System
  | .addPlay entryId viewerId day => some { s with acc := s.acc.addPlay entryId viewerId day }
  | .addWatch entryId seconds day => some { s with acc := s.acc.addWatch entryId seconds day }
  | .addBytes entryId n day => some { s with acc := s.acc.addBytes entryId n day }
  | .swap => some (swap s)
  | .transact flight visited outcomes =>
    match s.flights[flight]? with
    | none => none
    | some batch =>
      if visited.days.Perm batch.days ∧ visited.viewers.Perm batch.viewers ∧
          outcomes.length ≤ visited.statements then
        some { s with
          db := transact visited outcomes s.db
          flights := s.flights.eraseIdx flight }
      else none
  | .createEntry => some { s with db := s.db.createEntry }
  | .deleteEntry entryId => some { s with db := s.db.deleteEntry entryId }

end Vidsilo.Analytics
