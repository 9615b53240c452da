import Mathlib
import Vidsilo.Analytics.Totals
import Vidsilo.Library.Decimal

/-!
# From the player to the totals

Source: web/components/vidsilo-player.tsx:19-26, 92-95, 147-213, internal/api/analytics.go:18-71,
over `Analytics.Totals`. Players that are open anywhere count seconds and send beacons, which may
arrive in any order and at any node, or never; anyone may send others. `publicId` gives the public
ids of entries. What the view does besides, and bodies that are no beacons, are left out. The history
of what was counted, and of what was lost on the way, stands beside the state.
-/
namespace Vidsilo.Analytics.Beacons
open Library Library.SlashPath Library.Transition Library.Decimal Totals

/-- `/api/analytics/play` and `/api/analytics/watch`. -/
inductive Route where
  | play | watch
  deriving DecidableEq, Repr

structure Beacon where
  route : Route
  publicId : Text
  viewerId : Text
  seconds : Int
  deriving DecidableEq, Repr

/-- What a beacon stands for. -/
def Beacon.counts (b : Beacon) : DailyDelta :=
  match b.route with
  | .play => ⟨1, 0, 0⟩
  | .watch => ⟨0, max b.seconds 0, 0⟩

structure Player where
  publicId : Text
  viewId : Text
  watched : Int
  /-- In milliseconds, as `Date.now` gives them. -/
  lastBeacon : Int
  played : Bool
  /-- When the ticker last ran; nothing reads it. -/
  lastTick : Int
  deriving DecidableEq, Repr

/-- `tick`: the ticker; `running` unless paused or ended. `leave`: `beforeunload`. -/
inductive Input where
  | play | pause | leave
  | tick (now : Int) (running : Bool)
  deriving DecidableEq, Repr

namespace Player
variable (p : Player)

def mount (publicId viewId : Text) : Player := ⟨publicId, viewId, 0, 0, false, 0⟩

def flushWatch : Player × List Beacon :=
  if 0 < p.watched then ({ p with watched := 0 }, [⟨.watch, p.publicId, p.viewId, p.watched⟩])
  else (p, [])

def onPlay : Player × List Beacon :=
  if p.played then (p, []) else ({ p with played := true }, [⟨.play, p.publicId, p.viewId, 0⟩])

def ticker (now : Int) (running : Bool) : Player × List Beacon :=
  let p := { p with lastTick := now }
  if running then
    let p := { p with watched := p.watched + 1 }
    if now - p.lastBeacon > 30000 then flushWatch { p with lastBeacon := now } else (p, [])
  else (p, [])

def handle : Input → Player × List Beacon
  | .play => p.onPlay
  | .pause | .leave => p.flushWatch
  | .tick now running => p.ticker now running

/-- What is played and watched at an input. -/
def made : Input → DailyDelta
  | .play => if p.played then 0 else ⟨1, 0, 0⟩
  | .pause | .leave => 0
  | .tick _ running => if running then ⟨0, 1, 0⟩ else 0

/-- What it has not sent yet. -/
def owed : DailyDelta := ⟨0, p.watched, 0⟩

end Player

def sanitizeBeacon (b : Beacon) : Bool :=
  if 64 < (b.publicId.map Char.utf8Size).sum ∨ 128 < (b.viewerId.map Char.utf8Size).sum then false
  else if b.seconds < 0 ∨ 3600 * 24 < b.seconds then false
  else decide (b.publicId ≠ [])

section Server
variable (publicId : Int → Text)

/-- `answers` unless the query fails. -/
def resolveBeaconEntry (db : Db) (answers : Bool) (key : Text) : Option Int :=
  if key = [] then none
  else if answers then db.entries.find? (publicId · = key) else none

/-- The call of the accumulator that a beacon leads to. -/
def handleBeacon (db : Db) (answers : Bool) (b : Beacon) (call : Int → Action) : Option Action :=
  if sanitizeBeacon b then (resolveBeaconEntry publicId db answers b.publicId).map call else none

def handleAnalyticsPlay (db : Db) (answers : Bool) (day : Text) (b : Beacon) : Option Action :=
  handleBeacon publicId db answers b fun id => .addPlay id b.viewerId day

def handleAnalyticsWatch (db : Db) (answers : Bool) (day : Text) (b : Beacon) : Option Action :=
  handleBeacon publicId db answers b fun id => .addWatch id b.seconds day

def handleAnalytics (db : Db) (answers : Bool) (day : Text) (b : Beacon) : Option Action :=
  match b.route with
  | .play => handleAnalyticsPlay publicId db answers day b
  | .watch => handleAnalyticsWatch publicId db answers day b

end Server

structure World where
  cluster : Cluster
  players : List Player
  /-- Beacons on their way. -/
  wire : List Beacon
  /-- By public ids: what was played, watched and served, and what of it no node took. -/
  made : Ledger Text DailyDelta
  gone : Ledger Text DailyDelta
  /-- The rows of flushes that did not commit. -/
  dropped : Ledger DailyKey DailyDelta

inductive Event where
  | mount (publicId viewId : Text)
  | input (i : Nat) (x : Input)
  | unmount (i : Nat)
  /-- A beacon of someone else. -/
  | send (b : Beacon)
  | lose (k : Nat)
  | deliver (k node : Nat) (day : Text) (answers : Bool)
  /-- Bytes that are served, flushes, and what happens to the tables. -/
  | back (e : Totals.Event)

/-- Only beacons count plays and seconds. -/
def counting : Totals.Event → Bool
  | .act _ (.addPlay _ _ _) | .act _ (.addWatch _ _ _) => true
  | _ => false

/-- The rows of a transaction that does not commit. -/
def rolledBack (db : Db) : Action → Ledger DailyKey DailyDelta
  | .transact _ visited outcomes => if commits visited outcomes db then [] else visited.days
  | _ => []

def droppedBy (s : Cluster) : Totals.Event → Ledger DailyKey DailyDelta
  | .act _ a => rolledBack s.db a
  | _ => []

section Step
variable (publicId : Int → Text)

def servedBy (s : Cluster) : Totals.Event → Ledger Text DailyDelta
  | .act node (.addBytes e n day) =>
    [(publicId e, amount (s.nodes node).enabled e (.addBytes e n day))]
  | _ => []

/-- A beacon that no node takes. -/
def World.forget (w : World) (b : Beacon) : World := { w with gone := (b.publicId, b.counts) :: w.gone }

def step (w : World) : Event → Option World
  | .mount key viewId => some { w with players := w.players ++ [.mount key viewId] }
  | .input i x =>
    w.players[i]?.map fun p => { w with
      players := w.players.set i (p.handle x).1
      wire := w.wire ++ (p.handle x).2
      made := (p.publicId, p.made x) :: w.made }
  | .unmount i =>
    w.players[i]?.map fun p => { w with
      players := w.players.eraseIdx i
      gone := (p.publicId, p.owed) :: w.gone }
  | .send b => some { w with wire := w.wire ++ [b], made := (b.publicId, b.counts) :: w.made }
  | .lose k => w.wire[k]?.map fun b => { w.forget b with wire := w.wire.eraseIdx k }
  | .deliver k node day answers =>
    w.wire[k]?.bind fun b =>
      let rest := { w with wire := w.wire.eraseIdx k }
      match handleAnalytics publicId w.cluster.db answers day b with
      | none => some (rest.forget b)
      | some call =>
        (Totals.step w.cluster (.act node call)).map fun cluster =>
          -- a node that does not keep count drops the call
          if (w.cluster.nodes node).enabled then { rest with cluster := cluster }
          else { rest.forget b with cluster := cluster }
  | .back e =>
    if counting e then none
    else (Totals.step w.cluster e).map fun cluster => { w with
      cluster := cluster
      made := servedBy publicId w.cluster e ++ w.made
      dropped := droppedBy w.cluster e ++ w.dropped }

end Step

def start (enabled : Nat → Bool) : World := ⟨Totals.start enabled, [], [], [], [], []⟩

section Nodes
variable {N : Nat} {e : Int} {s s' : Cluster}

/-- The deltas of an entry in the maps of the nodes. -/
def held (N : Nat) (e : Int) (nodes : Nat → Accumulator) : DailyDelta :=
  ∑ node ∈ Finset.range N, share e (nodes node).days

/-- Those that flushes have swapped out and not ended. -/
def flying (e : Int) (flights : List Batch) : DailyDelta :=
  (flights.map fun batch => share e batch.days).sum

/-- Everything that the nodes took, wherever it is now. -/
def taken (N : Nat) (e : Int) (s : Cluster) (dropped : Ledger DailyKey DailyDelta) : DailyDelta :=
  held N e s.nodes + flying e s.flights + share e dropped + share e s.flushed

theorem held_split {node : Nat} (below : node < N) (nodes : Nat → Accumulator) :
    ∃ others, held N e nodes = share e (nodes node).days + others ∧
      ∀ acc, held N e (Function.update nodes node acc) = share e acc.days + others := by
  have mem : node ∈ Finset.range N := Finset.mem_range.mpr below
  refine ⟨∑ i ∈ (Finset.range N).erase node, share e (nodes i).days, ?_, fun acc => ?_⟩
  · exact (Finset.add_sum_erase _ _ mem).symm
  · have others : ∑ i ∈ (Finset.range N).erase node, share e (Function.update nodes node acc i).days =
        ∑ i ∈ (Finset.range N).erase node, share e (nodes i).days := by
      refine Finset.sum_congr rfl fun i other => ?_
      rw [Function.update_of_ne (Finset.ne_of_mem_erase other)]
    rw [held, ← Finset.add_sum_erase _ _ mem, others, Function.update_self]

theorem flying_erase {flights : List Batch} {flight : Nat} {batch : Batch}
    (found : flights[flight]? = some batch) :
    flying e flights = share e batch.days + flying e (flights.eraseIdx flight) := by
  obtain ⟨inside, same⟩ := List.getElem?_eq_some_iff.mp found
  have perm := List.getElem_cons_eraseIdx_perm inside
  rw [same] at perm
  rw [flying, flying, ← (perm.map fun batch => share e batch.days).sum_eq, List.map_cons, List.sum_cons]

theorem share_addPlay (acc : Accumulator) (entryId : Int) (viewerId day : Text) :
    share e (acc.addPlay entryId viewerId day).days =
      share e acc.days + amount acc.enabled e (.addPlay entryId viewerId day) := by
  unfold Accumulator.addPlay amount
  cases acc.enabled with
  | false => simp
  | true =>
    simp only [if_true, true_and]
    split
    · exact share_add ..
    · exact share_add ..

theorem share_swap (t : System) :
    share e (Analytics.swap t).acc.days + flying e (Analytics.swap t).flights =
      share e t.acc.days + flying e t.flights := by
  unfold Analytics.swap
  split
  · rfl
  · split
    · rfl
    · simp [flying, Accumulator.new, share, Ledger.sumOn]

/-- What one node does moves deltas about and adds the amount of a call. -/
theorem conserved_act {t t' : System} {a : Action} (moved : Analytics.step t a = some t') :
    share e t'.acc.days + flying e t'.flights +
        (share e (rolledBack t.db a) + share e (committed t.db a)) =
      share e t.acc.days + flying e t.flights + amount t.acc.enabled e a := by
  have nothing : share e [] = 0 := rfl
  cases a with
  | addPlay entryId viewerId day =>
    cases moved
    simp only [rolledBack, committed, nothing, share_addPlay, add_zero]
    exact add_right_comm _ _ _
  | addWatch entryId seconds day =>
    cases moved
    simp only [rolledBack, committed, nothing, Accumulator.addWatch, share_addAmount, add_zero, amount]
    exact add_right_comm _ _ _
  | addBytes entryId n day =>
    cases moved
    simp only [rolledBack, committed, nothing, Accumulator.addBytes, share_addAmount, add_zero, amount]
    exact add_right_comm _ _ _
  | swap =>
    cases moved
    simp only [rolledBack, committed, nothing, amount, add_zero]
    exact share_swap t
  | transact flight visited outcomes =>
    simp only [Analytics.step] at moved
    split at moved
    · cases moved
    next batch found =>
      split at moved
      · next order =>
        cases moved
        have ended : share e batch.days = share e visited.days := (Ledger.sumOn_perm order.1).symm
        simp only [rolledBack, committed, amount, flying_erase found, ended]
        split
        · rw [nothing]
          abel
        · rw [nothing]
          abel
      · cases moved
  | createEntry =>
    cases moved
    simp only [rolledBack, committed, nothing, amount, add_zero]
  | deleteEntry entryId =>
    cases moved
    simp only [rolledBack, committed, nothing, amount, add_zero]

def amountOf (s : Cluster) (e : Int) : Totals.Event → DailyDelta
  | .act node a => amount (s.nodes node).enabled e a
  | _ => 0

theorem taken_step {ev : Totals.Event} {dropped : Ledger DailyKey DailyDelta}
    (below : ∀ node a, ev = .act node a → node < N) (moved : Totals.step s ev = some s') :
    taken N e s' (droppedBy s ev ++ dropped) = taken N e s dropped + amountOf s e ev := by
  cases ev with
  | act node a =>
    obtain ⟨t', acted, rfl⟩ := Option.map_eq_some_iff.mp moved
    obtain ⟨others, before, after⟩ := held_split (e := e) (below node a rfl) s.nodes
    have conserved := conserved_act (e := e) acted
    simp only [taken, before, after, droppedBy, share_append, amountOf]
    calc _ = (share e t'.acc.days + flying e t'.flights +
            (share e (rolledBack s.db a) + share e (committed s.db a))) +
          (others + share e dropped + share e s.flushed) := by abel
      _ = _ := by
          rw [conserved]
          abel
  | prune retentionDays cutoff outcome =>
    simp only [Totals.step] at moved
    split at moved
    · cases moved
      exact (add_zero _).symm
    · cases moved
      exact (add_zero _).symm
  | pruneViewers i outcome =>
    simp only [Totals.step] at moved
    split at moved
    · cases moved
    · cases moved
      exact (add_zero _).symm

end Nodes

def named (key : Text) (rows : Ledger Text DailyDelta) : DailyDelta := Ledger.sumOn (fun k => k = key) rows

/-- What open players have not sent. -/
def unsent (key : Text) (players : List Player) : DailyDelta :=
  named key (players.map fun p => (p.publicId, p.owed))

def onWire (key : Text) (wire : List Beacon) : DailyDelta :=
  named key (wire.map fun b => (b.publicId, b.counts))

section Ways
variable {key : Text}

theorem named_cons (k : Text) (d : DailyDelta) (rows : Ledger Text DailyDelta) :
    named key ((k, d) :: rows) = (if k = key then d else 0) + named key rows := by
  simp [named, Ledger.sumOn]

theorem named_append (rows rows' : Ledger Text DailyDelta) :
    named key (rows ++ rows') = named key rows + named key rows' := Ledger.sumOn_append _ _ _

theorem unsent_cons (p : Player) (players : List Player) :
    unsent key (p :: players) = (if p.publicId = key then p.owed else 0) + unsent key players :=
  named_cons _ _ _

theorem onWire_cons (b : Beacon) (wire : List Beacon) :
    onWire key (b :: wire) = (if b.publicId = key then b.counts else 0) + onWire key wire :=
  named_cons _ _ _

theorem onWire_append (wire wire' : List Beacon) :
    onWire key (wire ++ wire') = onWire key wire + onWire key wire' := by
  rw [onWire, List.map_append]
  exact named_append _ _

theorem unsent_erase {players : List Player} {i : Nat} {p : Player} (found : players[i]? = some p) :
    unsent key players =
      (if p.publicId = key then p.owed else 0) + unsent key (players.eraseIdx i) := by
  obtain ⟨inside, same⟩ := List.getElem?_eq_some_iff.mp found
  have perm := List.getElem_cons_eraseIdx_perm inside
  rw [same] at perm
  rw [← unsent_cons]
  exact (Ledger.sumOn_perm (perm.map fun p => (p.publicId, p.owed))).symm

theorem unsent_set {players : List Player} {i : Nat} {p : Player} (found : players[i]? = some p)
    (q : Player) : unsent key (players.set i q) =
      (if q.publicId = key then q.owed else 0) + unsent key (players.eraseIdx i) := by
  obtain ⟨inside, -⟩ := List.getElem?_eq_some_iff.mp found
  have perm := List.set_perm_cons_eraseIdx inside q
  rw [← unsent_cons]
  exact Ledger.sumOn_perm (perm.map fun p => (p.publicId, p.owed))

theorem onWire_erase {wire : List Beacon} {k : Nat} {b : Beacon} (found : wire[k]? = some b) :
    onWire key wire = (if b.publicId = key then b.counts else 0) + onWire key (wire.eraseIdx k) := by
  obtain ⟨inside, same⟩ := List.getElem?_eq_some_iff.mp found
  have perm := List.getElem_cons_eraseIdx_perm inside
  rw [same] at perm
  rw [← onWire_cons]
  exact (Ledger.sumOn_perm (perm.map fun b => (b.publicId, b.counts))).symm

/-- A flush moves the seconds to the wire. -/
theorem flushWatch_moves (p : Player) : p.flushWatch.1.publicId = p.publicId ∧
    (if p.publicId = key then p.flushWatch.1.owed else 0) + onWire key p.flushWatch.2 =
      if p.publicId = key then p.owed else 0 := by
  unfold Player.flushWatch
  split
  · next some =>
    refine ⟨rfl, ?_⟩
    have counts : max p.watched 0 = p.watched := max_eq_left (le_of_lt some)
    simp only [onWire_cons, Player.owed, Beacon.counts, counts]
    split
    · ext <;> simp [onWire, named, Ledger.sumOn]
    · simp [onWire, named, Ledger.sumOn]
  · refine ⟨rfl, ?_⟩
    simp [onWire, named, Ledger.sumOn]

theorem handle_moves (p : Player) (x : Input) : (p.handle x).1.publicId = p.publicId ∧
    (if p.publicId = key then (p.handle x).1.owed else 0) + onWire key (p.handle x).2 =
      if p.publicId = key then p.owed + p.made x else 0 := by
  cases x with
  | play =>
    simp only [Player.handle, Player.onPlay, Player.made]
    split
    · exact ⟨rfl, by simp [onWire, named, Ledger.sumOn]⟩
    · refine ⟨rfl, ?_⟩
      simp only [onWire_cons, Player.owed, Beacon.counts]
      split <;> simp [onWire, named, Ledger.sumOn]
  | pause => simpa [Player.handle, Player.made] using flushWatch_moves p
  | leave => simpa [Player.handle, Player.made] using flushWatch_moves p
  | tick now running =>
    have counted (last : Int) : (if p.publicId = key then
        ({ p with lastTick := now, watched := p.watched + 1, lastBeacon := last } : Player).owed else 0) =
        if p.publicId = key then p.owed + ⟨0, 1, 0⟩ else 0 := by
      split
      · ext <;> simp [Player.owed]
      · rfl
    cases running with
    | false =>
      simp [Player.handle, Player.ticker, Player.made, onWire, named, Ledger.sumOn, Player.owed]
    | true =>
      simp only [Player.handle, Player.ticker, Player.made, if_true]
      split
      · obtain ⟨same, moved⟩ := @flushWatch_moves key
          { p with lastTick := now, watched := p.watched + 1, lastBeacon := now }
        exact ⟨same, moved.trans (counted now)⟩
      · refine ⟨rfl, ?_⟩
        simpa [onWire, named, Ledger.sumOn] using counted p.lastBeacon

end Ways

section Runs
variable {publicId : Int → Text} {N : Nat} {e : Int} {w w' : World} {ev : Event}

/-- Where everything is that was counted for an entry. -/
def Conserved (publicId : Int → Text) (N : Nat) (e : Int) (w : World) : Prop :=
  named (publicId e) w.made = unsent (publicId e) w.players + onWire (publicId e) w.wire +
    named (publicId e) w.gone + taken N e w.cluster w.dropped

/-- The nodes have the numbers below `N`. -/
def Below (N : Nat) (_ : World) : Event → Prop
  | .deliver _ node _ _ => node < N
  | .back (.act node _) => node < N
  | _ => True

/-- The call that a beacon leads to counts what the beacon stands for. -/
theorem amount_handleAnalytics (apart : Function.Injective publicId) {db : Db} {answers enabled : Bool}
    {day : Text} {b : Beacon} {call : Action}
    (handled : handleAnalytics publicId db answers day b = some call) :
    amount enabled e call = if enabled ∧ b.publicId = publicId e then b.counts else 0 := by
  have resolved {call : Int → Action} {c : Action}
      (h : handleBeacon publicId db answers b call = some c) : ∃ id, c = call id ∧ publicId id = b.publicId := by
    simp only [handleBeacon] at h
    split at h
    · obtain ⟨id, found, rfl⟩ := Option.map_eq_some_iff.mp h
      refine ⟨id, rfl, ?_⟩
      simp only [resolveBeaconEntry] at found
      split at found
      · cases found
      · split at found
        · simpa using List.find?_some found
        · cases found
    · cases h
  have isIt {id : Int} (same : publicId id = b.publicId) : (b.publicId = publicId e) ↔ id = e := by
    rw [← same]
    exact apart.eq_iff
  cases route : b.route with
  | play =>
    rw [handleAnalytics, route] at handled
    obtain ⟨id, rfl, same⟩ := resolved handled
    simp only [amount, Beacon.counts, route, isIt same]
  | watch =>
    rw [handleAnalytics, route] at handled
    obtain ⟨id, rfl, same⟩ := resolved handled
    simp only [amount, Beacon.counts, route, isIt same]
    rcases lt_or_ge 0 b.seconds with some | none
    · simp [some, max_eq_left (le_of_lt some)]
    · have nothing : (⟨0, 0, 0⟩ : DailyDelta) = 0 := rfl
      simp [not_lt.mpr none, max_eq_right none, nothing]

theorem handleAnalytics_call {db : Db} {answers : Bool} {day : Text} {b : Beacon} {call : Action}
    (handled : handleAnalytics publicId db answers day b = some call) :
    (∃ id, call = .addPlay id b.viewerId day) ∨ ∃ id, call = .addWatch id b.seconds day := by
  have resolved {call : Int → Action} {c : Action}
      (h : handleBeacon publicId db answers b call = some c) : ∃ id, c = call id := by
    simp only [handleBeacon] at h
    split at h
    · obtain ⟨id, _, rfl⟩ := Option.map_eq_some_iff.mp h
      exact ⟨id, rfl⟩
    · cases h
  rw [handleAnalytics] at handled
  split at handled
  · exact .inl (resolved handled)
  · exact .inr (resolved handled)

theorem named_servedBy (apart : Function.Injective publicId) (s : Cluster) {t : Totals.Event}
    (notCounting : counting t = false) :
    named (publicId e) (servedBy publicId s t) = amountOf s e t := by
  cases t with
  | act node a =>
    cases a with
    | addPlay _ _ _ => cases notCounting
    | addWatch _ _ _ => cases notCounting
    | addBytes id n day =>
      rw [servedBy, named_cons, amountOf]
      by_cases same : id = e
      · subst same
        simp [named, Ledger.sumOn]
      · have other : publicId id ≠ publicId e := fun h => same (apart h)
        simp [named, Ledger.sumOn, amount, same, other]
    | swap => rfl
    | transact flight visited outcomes => rfl
    | createEntry => rfl
    | deleteEntry id => rfl
  | prune _ _ _ => rfl
  | pruneViewers _ _ => rfl

theorem conserved_step (apart : Function.Injective publicId) (h : Conserved publicId N e w)
    (below : Below N w ev) (moved : step publicId w ev = some w') : Conserved publicId N e w' := by
  unfold Conserved at h ⊢
  cases ev with
  | mount key viewId =>
    cases moved
    have fresh : unsent (publicId e) (w.players ++ [.mount key viewId]) = unsent (publicId e) w.players := by
      have nothing : (Player.mount key viewId).owed = 0 := rfl
      rw [unsent, List.map_append]
      refine (named_append _ _).trans ?_
      simp [named, Ledger.sumOn, nothing, unsent]
    simp only [fresh]
    exact h
  | input i x =>
    obtain ⟨p, found, rfl⟩ := Option.map_eq_some_iff.mp moved
    obtain ⟨same, handled⟩ := @handle_moves (publicId e) p x
    have joined : (if p.publicId = publicId e then p.owed else 0) +
        (if p.publicId = publicId e then p.made x else 0) =
          (if p.publicId = publicId e then (p.handle x).1.owed else 0) + onWire (publicId e) (p.handle x).2 := by
      rw [handled]
      split
      · rfl
      · exact add_zero _
    simp only [named_cons, onWire_append, unsent_set found, same, h, unsent_erase found]
    calc _ = ((if p.publicId = publicId e then p.owed else 0) +
            (if p.publicId = publicId e then p.made x else 0)) + (unsent (publicId e) (w.players.eraseIdx i) +
          onWire (publicId e) w.wire + named (publicId e) w.gone + taken N e w.cluster w.dropped) := by abel
      _ = _ := by
          rw [joined]
          abel
  | unmount i =>
    obtain ⟨p, found, rfl⟩ := Option.map_eq_some_iff.mp moved
    simp only [named_cons, h, unsent_erase found]
    abel
  | send b =>
    cases moved
    simp only [named_cons, onWire_append, onWire_cons, h]
    simp only [onWire, List.map_nil, named, Ledger.sumOn]
    abel
  | lose k =>
    obtain ⟨b, found, rfl⟩ := Option.map_eq_some_iff.mp moved
    simp only [World.forget, named_cons, h, onWire_erase found]
    abel
  | deliver k node day answers =>
    obtain ⟨b, found, moved⟩ := Option.bind_eq_some_iff.mp moved
    rw [onWire_erase found] at h
    rcases handled : handleAnalytics publicId w.cluster.db answers day b with _ | call
    · simp only [handled] at moved
      cases moved
      simp only [World.forget, named_cons, h]
      abel
    · simp only [handled] at moved
      obtain ⟨cluster, acted, rfl⟩ := Option.map_eq_some_iff.mp moved
      have noRows : droppedBy w.cluster (.act node call) = [] := by
        rcases handleAnalytics_call handled with ⟨id, rfl⟩ | ⟨id, rfl⟩
        · rfl
        · rfl
      have inside : ∀ i a, Totals.Event.act node call = .act i a → i < N := fun i a same => by
        cases same
        exact below
      have counted : taken N e cluster (droppedBy w.cluster (.act node call) ++ w.dropped) =
          taken N e w.cluster w.dropped + amountOf w.cluster e (.act node call) := taken_step inside acted
      rw [noRows, List.nil_append, amountOf, amount_handleAnalytics apart handled] at counted
      split
      · next on =>
        simp only [on, true_and] at counted
        simp only [counted, h]
        abel
      · next off =>
        rw [if_neg fun both => off both.1, add_zero] at counted
        simp only [World.forget, named_cons, counted, h]
        abel
  | back t =>
    simp only [step] at moved
    split at moved
    · cases moved
    next notCounting =>
      obtain ⟨cluster, acted, rfl⟩ := Option.map_eq_some_iff.mp moved
      have inside : ∀ node a, t = .act node a → node < N := fun node a same => by
        subst same
        exact below
      have counted : taken N e cluster (droppedBy w.cluster t ++ w.dropped) =
          taken N e w.cluster w.dropped + amountOf w.cluster e t := taken_step inside acted
      have served : named (publicId e) (servedBy publicId w.cluster t) = amountOf w.cluster e t :=
        named_servedBy apart w.cluster (Bool.not_eq_true _ ▸ notCounting)
      simp only [named_append, served, counted, h]
      abel

/-- A step of everything does nothing to the nodes, or is one of theirs. -/
theorem cluster_step (moved : step publicId w ev = some w') :
    w'.cluster = w.cluster ∨ ∃ t, Totals.step w.cluster t = some w'.cluster := by
  cases ev with
  | mount key viewId =>
    cases moved
    exact .inl rfl
  | input i x =>
    obtain ⟨p, -, rfl⟩ := Option.map_eq_some_iff.mp moved
    exact .inl rfl
  | unmount i =>
    obtain ⟨p, -, rfl⟩ := Option.map_eq_some_iff.mp moved
    exact .inl rfl
  | send b =>
    cases moved
    exact .inl rfl
  | lose k =>
    obtain ⟨b, -, rfl⟩ := Option.map_eq_some_iff.mp moved
    exact .inl rfl
  | deliver k node day answers =>
    obtain ⟨b, -, moved⟩ := Option.bind_eq_some_iff.mp moved
    rcases handled : handleAnalytics publicId w.cluster.db answers day b with _ | call
    · simp only [handled] at moved
      cases moved
      exact .inl rfl
    · simp only [handled] at moved
      obtain ⟨cluster, acted, rfl⟩ := Option.map_eq_some_iff.mp moved
      refine .inr ⟨.act node call, acted.trans (congrArg some ?_)⟩
      split
      · rfl
      · rfl
  | back t =>
    simp only [step] at moved
    split at moved
    · cases moved
    · obtain ⟨cluster, acted, rfl⟩ := Option.map_eq_some_iff.mp moved
      exact .inr ⟨t, acted⟩

theorem agrees_run {may : World → Event → Prop} {enabled : Nat → Bool} {trace : List Event}
    (run : Run (step publicId) may (start enabled) trace w) :
    Agrees w.cluster.db w.cluster.flushed w.cluster.pruned := by
  refine run.invariant (fun w => Agrees w.cluster.db w.cluster.flushed w.cluster.pruned) ?_ ?_
  · exact ⟨⟨nofun, nofun⟩, nofun, nofun, nofun, nofun, nofun⟩
  · intro w ev w' before _ moved
    rcases cluster_step moved with same | ⟨t, acted⟩
    · rw [same]
      exact before
    · exact agrees_step before acted

theorem conserved_start (enabled : Nat → Bool) : Conserved publicId N e (start enabled) := by
  have empty : held N e (start enabled).cluster.nodes = 0 := Finset.sum_eq_zero fun _ _ => rfl
  simp only [Conserved, taken, empty]
  rfl

/-- From empty tables, whatever becomes of players, beacons, nodes and flushes, what was played,
watched and served for an entry is still in a player, on its way, lost with a player or a beacon, in
the maps of a node, with a flush, in the rows of a flush that failed, or in the totals, and only in
one of them. -/
theorem everything_counted_once (apart : Function.Injective publicId) {enabled : Nat → Bool}
    {trace : List Event} (run : Run (step publicId) (Below N) (start enabled) trace w)
    (mem : e ∈ w.cluster.db.entries) :
    named (publicId e) w.made = unsent (publicId e) w.players + onWire (publicId e) w.wire +
      named (publicId e) w.gone + (held N e w.cluster.nodes + flying e w.cluster.flights +
        share e w.dropped + w.cluster.db.stored e) := by
  have conserved : Conserved publicId N e w := run.invariant (Conserved publicId N e)
    (conserved_start enabled) fun w ev w' before below moved => conserved_step apart before below moved
  rw [(agrees_run run).totals e mem]
  exact conserved

end Runs

/-- A player's id and its viewer's are short, as UUIDs are, its ticks are at least `δ` milliseconds
apart, and nobody else sends beacons. -/
def Steady (δ : Int) (w : World) : Event → Prop
  | .mount key viewId => key ≠ [] ∧ (key.map Char.utf8Size).sum ≤ 64 ∧
      (viewId.map Char.utf8Size).sum ≤ 128
  | .input i (.tick now _) => ∀ p ∈ w.players[i]?, p.lastTick + δ ≤ now
  | .send _ => False
  | _ => True

section Clocks
variable {δ : Int} {publicId : Int → Text} {w w' : World} {ev : Event}

/-- The ids pass the check. -/
structure Short (key viewId : Text) : Prop where
  named : key ≠ []
  keyBytes : (key.map Char.utf8Size).sum ≤ 64
  viewBytes : (viewId.map Char.utf8Size).sum ≤ 128

structure Paced (δ : Int) (p : Player) : Prop where
  short : Short p.publicId p.viewId
  watched : 0 ≤ p.watched
  since : δ * p.watched ≤ p.lastTick - p.lastBeacon
  soon : δ * p.watched ≤ 30000

structure Fit (δ : Int) (b : Beacon) : Prop where
  short : Short b.publicId b.viewerId
  seconds : 0 ≤ b.seconds
  bound : δ * (b.seconds - 1) ≤ 30000

theorem sanitizeBeacon_of_fit (pos : 1 ≤ δ) {b : Beacon} (h : Fit δ b) : sanitizeBeacon b = true := by
  have few : b.seconds - 1 ≤ 30000 := by
    rcases le_or_gt 1 b.seconds with some | none
    · have := mul_le_mul_of_nonneg_right pos (sub_nonneg.mpr some)
      have := h.bound
      omega
    · omega
  have nonneg := h.seconds
  have key := h.short.keyBytes
  have view := h.short.viewBytes
  rw [sanitizeBeacon, if_neg (by omega), if_neg (by omega)]
  exact decide_eq_true h.short.named

theorem paced_flush {p : Player} (short : Short p.publicId p.viewId) (nonneg : 0 ≤ p.watched)
    (since : 0 ≤ p.lastTick - p.lastBeacon) (before : δ * (p.watched - 1) ≤ 30000) :
    Paced δ p.flushWatch.1 ∧ ∀ b ∈ p.flushWatch.2, Fit δ b := by
  unfold Player.flushWatch
  split
  · refine ⟨⟨short, le_refl 0, ?_, ?_⟩, fun b mem => ?_⟩
    · simpa using since
    · simp
    · rw [List.mem_singleton.mp mem]
      exact ⟨short, nonneg, before⟩
  · next none =>
    have zero : p.watched = 0 := by omega
    refine ⟨⟨short, nonneg, ?_, ?_⟩, fun b mem => absurd mem List.not_mem_nil⟩
    · simpa [zero] using since
    · simp [zero]

theorem paced_handle (pos : 1 ≤ δ) {p : Player} (h : Paced δ p) {x : Input}
    (later : ∀ now running, x = .tick now running → p.lastTick + δ ≤ now) :
    Paced δ (p.handle x).1 ∧ ∀ b ∈ (p.handle x).2, Fit δ b := by
  have some : 0 ≤ δ * p.watched := mul_nonneg (by omega) h.watched
  have since := h.since
  have soon := h.soon
  have flushed : Paced δ p.flushWatch.1 ∧ ∀ b ∈ p.flushWatch.2, Fit δ b :=
    paced_flush h.short h.watched (by omega) (by rw [mul_sub, mul_one]; omega)
  cases x with
  | pause => exact flushed
  | leave => exact flushed
  | play =>
    simp only [Player.handle, Player.onPlay]
    split
    · exact ⟨h, fun b mem => absurd mem List.not_mem_nil⟩
    · refine ⟨⟨h.short, h.watched, h.since, h.soon⟩, fun b mem => ?_⟩
      rw [List.mem_singleton.mp mem]
      exact ⟨h.short, le_refl 0, by simp only; omega⟩
  | tick now running =>
    have forward := later now running rfl
    cases running with
    | false =>
      refine ⟨⟨h.short, h.watched, ?_, h.soon⟩, fun b mem => absurd mem List.not_mem_nil⟩
      simp only [Player.handle, Player.ticker]
      simp
      omega
    | true =>
      have one : δ * (p.watched + 1) = δ * p.watched + δ := by rw [mul_add, mul_one]
      have nonneg := h.watched
      simp only [Player.handle, Player.ticker, if_true]
      split
      · refine paced_flush h.short (by simp only; omega) (by simp) ?_
        simpa using soon
      · next early =>
        refine ⟨⟨h.short, by simp only; omega, ?_, ?_⟩, fun b mem => absurd mem List.not_mem_nil⟩
        · simp only [one]
          omega
        · simp only [one]
          omega

/-- Every player keeps pace, and so does what it has sent. -/
structure Pace (δ : Int) (w : World) : Prop where
  players : ∀ p ∈ w.players, Paced δ p
  wire : ∀ b ∈ w.wire, Fit δ b

theorem pace_step (pos : 1 ≤ δ) (h : Pace δ w) (steady : Steady δ w ev)
    (moved : step publicId w ev = some w') : Pace δ w' := by
  cases ev with
  | mount key viewId =>
    cases moved
    refine ⟨fun p mem => ?_, h.wire⟩
    rcases List.mem_append.mp mem with old | new
    · exact h.players p old
    · rw [List.mem_singleton.mp new]
      exact ⟨⟨steady.1, steady.2.1, steady.2.2⟩, le_refl 0, by simp [Player.mount], by simp [Player.mount]⟩
  | input i x =>
    obtain ⟨p, found, rfl⟩ := Option.map_eq_some_iff.mp moved
    have forward : ∀ now running, x = .tick now running → p.lastTick + δ ≤ now := by
      intro now running same
      subst same
      exact steady p found
    obtain ⟨paced, fit⟩ := paced_handle pos (h.players p (List.mem_of_getElem? found)) forward
    refine ⟨fun q mem => ?_, fun b mem => ?_⟩
    · rcases List.mem_or_eq_of_mem_set mem with old | new
      · exact h.players q old
      · rw [new]
        exact paced
    · rcases List.mem_append.mp mem with old | new
      · exact h.wire b old
      · exact fit b new
  | unmount i =>
    obtain ⟨p, -, rfl⟩ := Option.map_eq_some_iff.mp moved
    exact ⟨fun q mem => h.players q (List.mem_of_mem_eraseIdx mem), h.wire⟩
  | send b => cases steady
  | lose k =>
    obtain ⟨b, -, rfl⟩ := Option.map_eq_some_iff.mp moved
    exact ⟨h.players, fun b mem => h.wire b (List.mem_of_mem_eraseIdx mem)⟩
  | deliver k node day answers =>
    have rest : ∀ b ∈ w.wire.eraseIdx k, Fit δ b := fun b mem => h.wire b (List.mem_of_mem_eraseIdx mem)
    obtain ⟨b, -, moved⟩ := Option.bind_eq_some_iff.mp moved
    rcases handled : handleAnalytics publicId w.cluster.db answers day b with _ | call
    · simp only [handled] at moved
      cases moved
      exact ⟨h.players, rest⟩
    · simp only [handled] at moved
      obtain ⟨cluster, -, rfl⟩ := Option.map_eq_some_iff.mp moved
      split
      · exact ⟨h.players, rest⟩
      · exact ⟨h.players, rest⟩
  | back t =>
    simp only [step] at moved
    split at moved
    · cases moved
    · obtain ⟨cluster, -, rfl⟩ := Option.map_eq_some_iff.mp moved
      exact ⟨h.players, h.wire⟩

/-- Where the clocks of players go forward, no beacon of theirs is refused for what it says: it stands
for at most the seconds that 30 s hold and one more, and a player that is closed takes at most 30 s
along. -/
theorem beacons_accepted (pos : 1 ≤ δ) {enabled : Nat → Bool} {trace : List Event}
    (run : Run (step publicId) (Steady δ) (start enabled) trace w) :
    (∀ b ∈ w.wire, sanitizeBeacon b = true ∧ δ * (b.seconds - 1) ≤ 30000) ∧
      ∀ p ∈ w.players, δ * p.watched ≤ 30000 := by
  have pace : Pace δ w := run.invariant (Pace δ)
    ⟨fun p mem => absurd mem List.not_mem_nil, fun b mem => absurd mem List.not_mem_nil⟩
    fun w ev w' before steady moved => pace_step pos before steady moved
  exact ⟨fun b mem => ⟨sanitizeBeacon_of_fit pos (pace.wire b mem), (pace.wire b mem).bound⟩,
    fun p mem => (pace.players p mem).soon⟩

end Clocks

instance (N : Nat) (w : World) (ev : Event) : Decidable (Below N w ev) :=
  match ev with
  | .deliver _ node _ _ => inferInstanceAs (Decidable (node < N))
  | .back (.act node _) => inferInstanceAs (Decidable (node < N))
  | .back (.prune _ _ _) => isTrue trivial
  | .back (.pruneViewers _ _) => isTrue trivial
  | .mount _ _ => isTrue trivial
  | .input _ _ => isTrue trivial
  | .unmount _ => isTrue trivial
  | .send _ => isTrue trivial
  | .lose _ => isTrue trivial

/-- It is closed two seconds after its second beacon; the first flush commits. -/
def closedEarly : List Event :=
  [.back (.act 0 .createEntry), .mount "1".toList "viewer".toList, .input 0 .play,
    .input 0 (.tick 40000 true), .deliver 0 0 today true, .deliver 0 0 today true,
    .input 0 (.tick 41000 true), .input 0 (.tick 42000 true), .unmount 0, .back (.act 0 .swap),
    .back (.act 0 (.transact 0 ⟨[(⟨1, today⟩, ⟨1, 1, 0⟩)], [⟨1, today, "viewer".toList⟩]⟩ []))]

theorem everything_counted_once_closedEarly : ∃ w, Run (step formatInt) (Below 1) (start fun _ => true)
    closedEarly w ∧ named "1".toList w.gone = ⟨0, 2, 0⟩ ∧ w.cluster.db.stored 1 = ⟨1, 1, 0⟩ ∧
      named "1".toList w.made = ⟨1, 3, 0⟩ := by
  obtain ⟨w, run, done⟩ : ∃ w, Run (step formatInt) (Below 1) (start fun _ => true) closedEarly w ∧
      decide (1 ∈ w.cluster.db.entries ∧ named "1".toList w.gone = ⟨0, 2, 0⟩ ∧
        w.cluster.db.stored 1 = ⟨1, 1, 0⟩ ∧ w.players = [] ∧ w.wire = [] ∧ w.cluster.flights = [] ∧
          w.dropped = [] ∧ (w.cluster.nodes 0).days = []) = true :=
    exists_run (fun _ _ => of_decide_eq_true)
      (by decide +kernel)
  obtain ⟨mem, gone, stored, players, wire, flights, dropped, days⟩ := of_decide_eq_true done
  have counted := everything_counted_once (fun _ _ => formatInt_injective) run mem
  have empty : held 1 1 w.cluster.nodes = 0 := by simp [held, days, share, Ledger.sumOn]
  refine ⟨w, run, gone, stored, counted.trans ?_⟩
  rw [players, wire, flights, dropped, empty, stored]
  exact (congrArg (fun d => 0 + 0 + d + (0 + 0 + 0 + ⟨1, 1, 0⟩)) gone).trans rfl

instance (δ : Int) (w : World) (ev : Event) : Decidable (Steady δ w ev) :=
  match ev with
  | .mount _ _ => inferInstanceAs (Decidable (_ ∧ _))
  | .input i (.tick now _) =>
    decidable_of_iff (((w.players[i]?).all fun p => decide (p.lastTick + δ ≤ now)) = true)
      (by simp [Steady, Option.all_eq_true])
  | .input _ .play => isTrue trivial
  | .input _ .pause => isTrue trivial
  | .input _ .leave => isTrue trivial
  | .unmount _ => isTrue trivial
  | .send _ => isFalse id
  | .lose _ => isTrue trivial
  | .deliver _ _ _ _ => isTrue trivial
  | .back _ => isTrue trivial

theorem beacons_accepted_closedEarly : ∃ w, Run (step formatInt) (Steady 1000) (start fun _ => true)
    (closedEarly.take 8) w ∧ ∀ p ∈ w.players, 1000 * p.watched ≤ 30000 := by
  obtain ⟨w, run, -⟩ : ∃ w, Run (step formatInt) (Steady 1000) (start fun _ => true)
      (closedEarly.take 8) w ∧ true = true :=
    exists_run (p := fun _ => true)
      (fun _ _ => of_decide_eq_true) (by decide +kernel)
  exact ⟨w, run, (beacons_accepted (by decide) run).2⟩

end Vidsilo.Analytics.Beacons
