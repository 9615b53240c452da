import Vidsilo.Analytics.Conservation

/-!
# The totals and the daily rows

Source: internal/analytics/analytics.go:126-206 (`Flush`, `Prune`). Any number of nodes flush into
the same tables, which are pruned by two statements, each a transaction of its own; whatever
retention and clock give is the cutoff. The history of what has been flushed and pruned stands
beside the tables. No statement that is modelled reads it.
-/
namespace Vidsilo.Analytics.Totals
open Library Library.SlashPath Library.Transition

structure Cluster where
  nodes : Nat → Accumulator
  db : Db
  /-- The batches of all nodes. -/
  flights : List Batch
  /-- The cutoffs of the prunes whose second statement is still to come. -/
  prunes : List Text
  /-- The rows of the transactions that have committed. -/
  flushed : Ledger DailyKey DailyDelta
  /-- The daily rows that have been pruned. -/
  pruned : Ledger DailyKey DailyDelta

/-- An action of one node, or of a client of the tables; the first and the second statement of a
`Prune`. -/
inductive Event where
  | act (node : Nat) (a : Action)
  | prune (retentionDays : Int) (cutoff : Text) (outcome : Outcome)
  | pruneViewers (i : Nat) (outcome : Outcome)

/-- `day < $1`: the texts of days are in the order of the days. -/
def old (cutoff day : Text) : Bool := decide (day < cutoff)

def pruneDaily (cutoff : Text) (db : Db) : Db :=
  { db with daily := db.daily.filter fun row => !old cutoff row.1.day }

def pruneViewers (cutoff : Text) (db : Db) : Db :=
  { db with viewers := db.viewers.filter fun v => !old cutoff v.day }

/-- Whether the transaction of a flush commits. -/
def commits (batch : Batch) (outcomes : List Outcome) (db : Db) : Bool :=
  match (flushTx batch).run perform .ok outcomes db with
  | some (.ok _, _) => true
  | _ => false

def committed (db : Db) : Action → Ledger DailyKey DailyDelta
  | .transact _ visited outcomes => if commits visited outcomes db then visited.days else []
  | _ => []

def step (s : Cluster) : Event → Option Cluster
  | .act node a =>
    (Analytics.step ⟨s.nodes node, s.db, s.flights⟩ a).map fun after =>
      { s with
        nodes := Function.update s.nodes node after.acc
        db := after.db
        flights := after.flights
        flushed := committed s.db a ++ s.flushed }
  | .prune retentionDays cutoff outcome =>
    if retentionDays ≤ 0 ∨ outcome = .fails then some s
    else some { s with
      db := pruneDaily cutoff s.db
      prunes := cutoff :: s.prunes
      pruned := (s.db.daily.filter fun row => old cutoff row.1.day) ++ s.pruned }
  | .pruneViewers i outcome =>
    match s.prunes[i]? with
    | none => none
    | some cutoff => some { s with
        db := if outcome = .fails then s.db else pruneViewers cutoff s.db
        prunes := s.prunes.eraseIdx i }

/-- Empty tables. -/
def start (enabled : Nat → Bool) : Cluster :=
  ⟨fun node => .new (enabled node), ⟨[], 1, [], [], []⟩, [], [], [], []⟩

/-- No row refers to an id that has not been drawn. -/
def Drawn (db : Db) (rows : Ledger DailyKey DailyDelta) : Prop :=
  ∀ row ∈ rows, row.1.entryId < db.nextId

structure Agrees (db : Db) (flushed pruned : Ledger DailyKey DailyDelta) : Prop where
  valid : db.Valid
  dailyDrawn : Drawn db db.daily
  flushedDrawn : Drawn db flushed
  prunedDrawn : Drawn db pruned
  totals : ∀ entryId ∈ db.entries, db.stored entryId = share entryId flushed
  days : ∀ entryId ∈ db.entries,
    share entryId db.daily + share entryId pruned = share entryId flushed

variable {db : Db} {flushed pruned : Ledger DailyKey DailyDelta}

theorem share_undrawn {rows : Ledger DailyKey DailyDelta} (h : Drawn db rows) :
    share db.nextId rows = 0 := by
  apply Ledger.sumOn_zero
  intro row mem
  have below := h row mem
  exact decide_eq_false fun same => by omega

theorem transact_of_commits {batch : Batch} {outcomes : List Outcome}
    (h : commits batch outcomes db = true) : Committed db batch.days (transact batch outcomes db) := by
  obtain ⟨r, after, run⟩ := run_some (flushTx batch) outcomes db
  unfold commits at h
  unfold transact
  rw [run] at h ⊢
  cases r with
  | error err => cases h
  | ok _ => exact Procedure.wp_run (wp_flushTx batch db) (Procedure.check_always _ _ _) run rfl

theorem transact_of_rolledBack {batch : Batch} {outcomes : List Outcome}
    (h : commits batch outcomes db = false) : transact batch outcomes db = db := by
  obtain ⟨r, after, run⟩ := run_some (flushTx batch) outcomes db
  unfold commits at h
  unfold transact
  rw [run] at h ⊢
  cases r with
  | error err => rfl
  | ok _ => cases h

/-- The daily rows grow by the batch as the totals do. -/
theorem daily_upserts (days : Ledger DailyKey DailyDelta) (db : Db) (entryId : Int) :
    share entryId (db.upserts days).daily = share entryId db.daily + share entryId days := by
  induction days generalizing db with
  | nil => exact (add_zero _).symm
  | cons row rest ih =>
    obtain ⟨k, d⟩ := row
    have upserted : share entryId (db.upsert k d).daily =
        share entryId db.daily + if k.entryId = entryId then d else 0 := share_add ..
    have rest_eq : share entryId (db.upserts ((k, d) :: rest)).daily =
        share entryId (db.upsert k d).daily + share entryId rest := ih (db.upsert k d)
    rw [rest_eq, upserted, add_assoc]
    simp [share, Ledger.sumOn, isOf]

theorem drawn_upserts {days : Ledger DailyKey DailyDelta} {db : Db} (h : Drawn db db.daily)
    (present : Drawn db days) : Drawn db (db.upserts days).daily := by
  induction days generalizing db with
  | nil => exact h
  | cons row rest ih =>
    obtain ⟨k, d⟩ := row
    have drawn : Drawn (db.upsert k d) (db.upsert k d).daily := by
      intro row mem
      rcases Ledger.mem_add mem with same | ⟨d', before⟩
      · exact same ▸ present (k, d) List.mem_cons_self
      · exact h (row.1, d') before
    exact ih drawn fun row mem => present row (List.mem_cons_of_mem _ mem)

theorem drawn_append {rows rows' : Ledger DailyKey DailyDelta} (h : Drawn db rows)
    (h' : Drawn db rows') : Drawn db (rows ++ rows') :=
  fun row mem => (List.mem_append.mp mem).elim (h row) (h' row)

theorem drawn_filter {rows : Ledger DailyKey DailyDelta} (h : Drawn db rows)
    (stays : DailyKey × DailyDelta → Bool) : Drawn db (rows.filter stays) :=
  fun row mem => h row (List.mem_of_mem_filter mem)

theorem share_append (entryId : Int) (rows rows' : Ledger DailyKey DailyDelta) :
    share entryId (rows ++ rows') = share entryId rows + share entryId rows' :=
  Ledger.sumOn_append _ _ _

theorem Agrees.commit {after : Db} {days : Ledger DailyKey DailyDelta}
    (h : Agrees db flushed pruned) (committed : Committed db days after) :
    Agrees after (days ++ flushed) pruned := by
  have drawn : Drawn db days := fun row mem =>
    h.valid.sequence row.1.entryId (committed.present row mem)
  obtain ⟨entries, nextId, stored, totals⟩ := committed.wrote
  obtain ⟨viewers, rfl⟩ := committed.written
  constructor
  · constructor
    · exact entries ▸ totals h.valid.totals
    · exact entries ▸ nextId ▸ h.valid.sequence
  · intro row mem
    rw [nextId]
    exact drawn_upserts h.dailyDrawn drawn row mem
  · have both := drawn_append drawn h.flushedDrawn
    unfold Drawn at both ⊢
    rwa [nextId]
  · have same := h.prunedDrawn
    unfold Drawn at same ⊢
    rwa [nextId]
  · intro entryId mem
    rw [entries] at mem
    rw [stored, h.totals entryId mem, share_append, add_comm]
  · intro entryId mem
    rw [entries] at mem
    have daily := daily_upserts days db entryId
    rw [share_append, ← h.days entryId mem]
    change share entryId (db.upserts days).daily + _ = _
    rw [daily, add_comm (share entryId days), add_right_comm]

theorem Agrees.createEntry (h : Agrees db flushed pruned) :
    Agrees db.createEntry flushed pruned := by
  have later : ∀ {rows}, Drawn db rows → Drawn db.createEntry rows := fun drawn row mem =>
    Int.lt_add_one_of_le (Int.le_of_lt (drawn row mem))
  constructor
  · constructor
    · exact fun row mem => List.mem_cons_of_mem _ (h.valid.totals row mem)
    · intro entryId mem
      rcases List.mem_cons.mp mem with rfl | mem
      · exact Int.lt_add_one_of_le (Int.le_refl _)
      · exact Int.lt_add_one_of_le (Int.le_of_lt (h.valid.sequence entryId mem))
  · exact later h.dailyDrawn
  · exact later h.flushedDrawn
  · exact later h.prunedDrawn
  · intro entryId mem
    rcases List.mem_cons.mp mem with rfl | mem
    · rw [share_undrawn h.flushedDrawn]
      apply Ledger.balance_zero
      intro row isRow same
      have below := h.valid.sequence row.1 (h.valid.totals row isRow)
      omega
    · exact h.totals entryId mem
  · intro entryId mem
    rcases List.mem_cons.mp mem with rfl | mem
    · rw [share_undrawn h.flushedDrawn, share_undrawn h.prunedDrawn]
      exact (add_zero _).trans (share_undrawn h.dailyDrawn)
    · exact h.days entryId mem

theorem Agrees.deleteEntry (h : Agrees db flushed pruned) (deleted : Int) :
    Agrees (db.deleteEntry deleted) flushed pruned := by
  constructor
  · constructor
    · intro row mem
      obtain ⟨before, other⟩ := List.mem_filter.mp mem
      exact List.mem_filter.mpr ⟨h.valid.totals row before, other⟩
    · exact fun entryId mem => h.valid.sequence entryId (List.mem_of_mem_filter mem)
  · exact drawn_filter h.dailyDrawn _
  · exact h.flushedDrawn
  · exact h.prunedDrawn
  · intro entryId mem
    obtain ⟨before, other⟩ := List.mem_filter.mp mem
    rw [← h.totals entryId before]
    exact Ledger.balance_filter (of_decide_eq_true other) _
  · intro entryId mem
    obtain ⟨before, other⟩ := List.mem_filter.mp mem
    have kept : share entryId (db.deleteEntry deleted).daily = share entryId db.daily := by
      have parts := Ledger.sumOn_filter (isOf entryId) (fun row => row.1.entryId ≠ deleted) db.daily
      rw [share, share, ← parts]
      refine (add_zero _).symm.trans (congrArg _ (Ledger.sumOn_zero fun row mem => ?_).symm)
      have isDeleted := (List.mem_filter.mp mem).2
      have ne : entryId ≠ deleted := by simpa using other
      simp only [ne_eq, decide_not, Bool.not_not, decide_eq_true_eq] at isDeleted
      simpa [isOf, isDeleted] using ne.symm
    rw [kept]
    exact h.days entryId before

/-- A prune moves rows and leaves the totals. -/
theorem Agrees.pruneDaily (h : Agrees db flushed pruned) (cutoff : Text) :
    Agrees (pruneDaily cutoff db) flushed
      ((db.daily.filter fun row => old cutoff row.1.day) ++ pruned) := by
  constructor
  · exact ⟨h.valid.totals, h.valid.sequence⟩
  · exact drawn_filter h.dailyDrawn _
  · exact h.flushedDrawn
  · exact drawn_append (drawn_filter h.dailyDrawn _) h.prunedDrawn
  · exact h.totals
  · intro entryId mem
    have parts := Ledger.sumOn_filter (isOf entryId) (fun row => old cutoff row.1.day) db.daily
    rw [← h.days entryId mem, share_append, ← add_assoc, add_comm (share entryId _)]
    exact congrArg (· + _) parts

theorem Agrees.pruneViewers (h : Agrees db flushed pruned) (cutoff : Text) :
    Agrees (pruneViewers cutoff db) flushed pruned :=
  ⟨⟨h.valid.totals, h.valid.sequence⟩, h.dailyDrawn, h.flushedDrawn, h.prunedDrawn, h.totals, h.days⟩

theorem Agrees.act {s s' : System} {a : Action} (h : Agrees s.db flushed pruned)
    (taken : Analytics.step s a = some s') :
    Agrees s'.db (committed s.db a ++ flushed) pruned := by
  cases a with
  | addPlay entryId viewerId day =>
    cases taken
    exact h
  | addWatch entryId seconds day =>
    cases taken
    exact h
  | addBytes entryId n day =>
    cases taken
    exact h
  | swap =>
    cases taken
    have same : (Analytics.swap s).db = s.db := by
      unfold Analytics.swap
      split
      · rfl
      · split <;> rfl
    rw [same]
    exact h
  | transact flight visited outcomes =>
    simp only [Analytics.step] at taken
    split at taken
    · cases taken
    · split at taken
      · cases taken
        cases isCommit : commits visited outcomes s.db with
        | true =>
          have days : committed s.db (.transact flight visited outcomes) = visited.days :=
            if_pos isCommit
          rw [days]
          exact h.commit (transact_of_commits isCommit)
        | false =>
          have none : committed s.db (.transact flight visited outcomes) = [] :=
            if_neg (by simp [isCommit])
          rw [none, List.nil_append]
          change Agrees (transact visited outcomes s.db) flushed pruned
          rw [transact_of_rolledBack isCommit]
          exact h
      · cases taken
  | createEntry =>
    cases taken
    exact h.createEntry
  | deleteEntry entryId =>
    cases taken
    exact h.deleteEntry entryId

theorem agrees_step {s s' : Cluster} {e : Event} (h : Agrees s.db s.flushed s.pruned)
    (taken : step s e = some s') : Agrees s'.db s'.flushed s'.pruned := by
  cases e with
  | act node a =>
    obtain ⟨after, acted, rfl⟩ := Option.map_eq_some_iff.mp taken
    exact Agrees.act h acted
  | prune retentionDays cutoff outcome =>
    simp only [step] at taken
    split at taken
    · cases taken
      exact h
    · cases taken
      exact h.pruneDaily cutoff
  | pruneViewers i outcome =>
    simp only [step] at taken
    split at taken
    · cases taken
    · next cutoff _ =>
      cases taken
      dsimp only
      split
      · exact h
      · exact h.pruneViewers cutoff

/-- The statements of a prune. -/
def Event.isPrune : Event → Bool
  | .act _ _ => false
  | .prune _ _ _ | .pruneViewers _ _ => true

theorem totals_prune {s s' : Cluster} {e : Event} (h : e.isPrune = true)
    (taken : step s e = some s') : s'.db.totals = s.db.totals := by
  cases e with
  | act node a => cases h
  | prune retentionDays cutoff outcome =>
    simp only [step] at taken
    split at taken
    · cases taken
      rfl
    · cases taken
      rfl
  | pruneViewers i outcome =>
    simp only [step] at taken
    split at taken
    · cases taken
    · cases taken
      dsimp only
      split <;> rfl

theorem totals_of_days (enabled : Nat → Bool) (trace : List Event) (s : Cluster)
    (h : Run step Always (start enabled) trace s) :
    (∀ entryId ∈ s.db.entries, s.db.stored entryId = share entryId s.flushed ∧
      s.db.stored entryId = share entryId s.db.daily + share entryId s.pruned) ∧
    ∀ e s', e.isPrune = true → step s e = some s' → s'.db.totals = s.db.totals := by
  have agrees : Agrees s.db s.flushed s.pruned := by
    refine h.invariant (fun s => Agrees s.db s.flushed s.pruned) ?_
      fun s e s' before _ taken => agrees_step before taken
    exact ⟨⟨nofun, nofun⟩, nofun, nofun, nofun, nofun, nofun⟩
  refine ⟨fun entryId mem => ⟨agrees.totals entryId mem, ?_⟩, fun e s' => totals_prune⟩
  rw [agrees.totals entryId mem, agrees.days entryId mem]

def yesterday : Text := "2025-12-31".toList

/-- Two nodes flush two days, and the first day is pruned. -/
def firstDayPruned : List Event :=
  [.act 0 .createEntry, .act 0 (.addPlay 1 [] yesterday), .act 1 (.addBytes 1 100 today),
    .act 1 (.addPlay 1 [] yesterday), .act 0 .swap, .act 1 .swap,
    .act 0 (.transact 1 ⟨[(⟨1, yesterday⟩, ⟨1, 0, 0⟩)], []⟩ []),
    .act 1 (.transact 0 ⟨[(⟨1, yesterday⟩, ⟨1, 0, 0⟩), (⟨1, today⟩, ⟨0, 0, 100⟩)], []⟩ []),
    .prune 30 today .ok, .pruneViewers 0 .ok]

theorem totals_of_days_firstDayPruned :
    ∃ s, Run step Always (start fun _ => true) firstDayPruned s ∧
      share 1 s.db.daily = ⟨0, 0, 100⟩ ∧ s.db.stored 1 = ⟨2, 0, 100⟩ := by
  obtain ⟨s, run, done⟩ : ∃ s, Run step Always (start fun _ => true) firstDayPruned s ∧
      decide (1 ∈ s.db.entries ∧ share 1 s.db.daily = ⟨0, 0, 100⟩ ∧
        share 1 s.pruned = ⟨2, 0, 0⟩) = true :=
    exists_always (by decide +kernel)
  obtain ⟨exist, daily, pruned⟩ := of_decide_eq_true done
  refine ⟨s, run, daily, ?_⟩
  rw [((totals_of_days (fun _ => true) firstDayPruned s run).1 1 exist).2, daily, pruned]
  rfl

end Vidsilo.Analytics.Totals
