import Mathlib
import Vidsilo.Analytics.Totals

/-!
# Unique viewers

Source: internal/analytics/analytics.go:63-80, 112-164, 191-206. A play is counted in the daily row
of its entry, and the viewer's id goes into a set that a flush writes with `ON CONFLICT DO
NOTHING`. Any number of nodes flush; a transaction commits or has no effect; entries come and go.
A day is followed for as long as no prune reaches it.
-/
namespace Vidsilo.Analytics.Viewers
open Library Library.Procedure Library.SlashPath Library.Transition Totals

/-- The rows of `analytics_viewers` that `count(*)` counts for a daily row. -/
def isFor (entryId : Int) (day : Text) (v : ViewerKey) : Bool := v.entryId = entryId ∧ v.day = day

def uniqueViewers (viewers : List ViewerKey) (entryId : Int) (day : Text) : Nat :=
  viewers.countP (isFor entryId day)

/-- No prune that takes effect has a cutoff after the day. -/
def Keeps (day : Text) (_ : Cluster) : Event → Prop
  | .prune retentionDays cutoff outcome => retentionDays ≤ 0 ∨ outcome = .fails ∨ old cutoff day = false
  | _ => True

instance (day : Text) (s : Cluster) (e : Event) : Decidable (Keeps day s e) :=
  match e with
  | .prune _ _ _ => inferInstanceAs (Decidable (_ ∨ _))
  | .act _ _ => isTrue trivial
  | .pruneViewers _ _ => isTrue trivial

section History
variable (enabled : Nat → Bool) (day : Text)

/-- The flush that held the viewer has committed. -/
def Flushed (trace : List Event) (v : ViewerKey) : Prop :=
  ∃ early node flight visited outcomes late m,
    trace = early ++ Event.act node (.transact flight visited outcomes) :: late ∧
    Run Totals.step (Keeps day) (start enabled) early m ∧
    commits visited outcomes m.db = true ∧ v ∈ visited.viewers

variable {enabled day} in
theorem Flushed.append {trace : List Event} {v : ViewerKey} (h : Flushed enabled day trace v)
    (e : Event) : Flushed enabled day (trace ++ [e]) v := by
  obtain ⟨early, node, flight, visited, outcomes, late, m, rfl, rest⟩ := h
  exact ⟨early, node, flight, visited, outcomes, late ++ [e], m, by simp, rest⟩

/-- Some node was told of a play by this viewer. -/
def Played (trace : List Event) (v : ViewerKey) : Prop :=
  v.viewerId ≠ [] ∧ ∃ node, .act node (.addPlay v.entryId v.viewerId v.day) ∈ trace

end History

/-- `ON CONFLICT DO NOTHING`, for a batch in its order. -/
def insertAll (viewers batch : List ViewerKey) : List ViewerKey :=
  batch.foldl (fun viewers v => viewers.insert v) viewers

theorem mem_insertAll {viewers batch : List ViewerKey} {v : ViewerKey} :
    v ∈ insertAll viewers batch ↔ v ∈ viewers ∨ v ∈ batch := by
  induction batch generalizing viewers with
  | nil => simp [insertAll]
  | cons w rest ih =>
    have step : v ∈ insertAll (viewers.insert w) rest ↔ v ∈ viewers.insert w ∨ v ∈ rest := ih
    rw [List.mem_insert_iff] at step
    rw [List.mem_cons]
    exact step.trans (by tauto)

theorem nodup_insertAll {viewers batch : List ViewerKey} (h : viewers.Nodup) :
    (insertAll viewers batch).Nodup := by
  induction batch generalizing viewers with
  | nil => exact h
  | cons w rest ih => exact ih h.insert

theorem countP_insert_le (p : ViewerKey → Bool) (viewers : List ViewerKey) (v : ViewerKey) :
    (viewers.insert v).countP p ≤ viewers.countP p + if p v then 1 else 0 := by
  by_cases here : v ∈ viewers
  · rw [List.insert_of_mem here]
    exact Nat.le_add_right _ _
  · rw [List.insert_of_not_mem here, List.countP_cons]

theorem countP_insertAll_le (p : ViewerKey → Bool) (viewers batch : List ViewerKey) :
    (insertAll viewers batch).countP p ≤ viewers.countP p + batch.countP p := by
  induction batch generalizing viewers with
  | nil => exact Nat.le_add_right _ _
  | cons w rest ih =>
    have first := countP_insert_le p viewers w
    have later : (insertAll viewers (w :: rest)).countP p ≤
        (viewers.insert w).countP p + rest.countP p := ih (viewers.insert w)
    rw [List.countP_cons]
    omega

/-- The viewers that a transaction has written when it goes on to commit. -/
theorem wp_insertViewers_all (batch : List ViewerKey) (db : Db) :
    (insertViewers batch).Wp perform anyOutcome (fun r after => r = .ok () →
      (∀ v ∈ batch, v.entryId ∈ db.entries) ∧
        after = { db with viewers := insertAll db.viewers batch }) db := by
  induction batch generalizing db with
  | nil => exact fun _ => ⟨fun v mem => absurd mem List.not_mem_nil, rfl⟩
  | cons v rest ih =>
    intro outcome r db₁ _ taken
    cases outcome with
    | fails =>
      cases taken
      rintro ⟨⟩
    | ok =>
      simp only [perform, insertFor, Option.some.injEq] at taken
      split at taken
      next present =>
        cases taken
        refine wp_mono (ih { db with viewers := db.viewers.insert v }) fun r after written isOk => ?_
        obtain ⟨others, same⟩ := written isOk
        exact ⟨List.forall_mem_cons.mpr ⟨present, others⟩, same⟩
      · cases taken
        rintro ⟨⟩

/-- The tables after a flush that commits. -/
structure Written (before : Db) (batch : Batch) (after : Db) : Prop where
  days : ∀ row ∈ batch.days, row.1.entryId ∈ before.entries
  viewers : ∀ v ∈ batch.viewers, v.entryId ∈ before.entries
  same : after = { before.upserts batch.days with viewers := insertAll before.viewers batch.viewers }

theorem upserts_frame (days : Ledger DailyKey DailyDelta) (db : Db) :
    (db.upserts days).entries = db.entries ∧ (db.upserts days).nextId = db.nextId ∧
      (db.upserts days).viewers = db.viewers := by
  induction days generalizing db with
  | nil => exact ⟨rfl, rfl, rfl⟩
  | cons row rest ih => exact ih (db.upsert row.1 row.2)

theorem wp_flushTx_all (batch : Batch) (db : Db) :
    (flushTx batch).Wp perform anyOutcome
      (fun r after => r = .ok () → Written db batch after) db := by
  intro outcome r db₁ _ taken
  cases outcome with
  | fails =>
    cases taken
    exact fun no => nomatch no
  | ok =>
    cases taken
    change (insertDays batch.days >>= _).Wp _ _ _ _
    refine wp_bind (wp_mono (wp_insertDays batch.days db) fun r after wrote => ?_)
    cases r with
    | error err => exact fun no => nomatch no
    | ok _ =>
      obtain ⟨present, rfl⟩ := wrote rfl
      change (insertViewers batch.viewers >>= _).Wp _ _ _ _
      refine wp_bind (wp_mono (wp_insertViewers_all batch.viewers _) fun r last written => ?_)
      cases r with
      | error err => exact fun no => nomatch no
      | ok _ =>
        obtain ⟨viewers, rfl⟩ := written rfl
        obtain ⟨entries, -, before⟩ := upserts_frame batch.days db
        intro outcome r db₂ _ taken
        cases outcome with
        | fails =>
          cases taken
          exact fun no => nomatch no
        | ok =>
          cases taken
          exact fun _ => ⟨present, entries ▸ viewers, by rw [before]⟩

theorem written_of_commits {batch : Batch} {outcomes : List Outcome} {db : Db}
    (h : commits batch outcomes db = true) : Written db batch (transact batch outcomes db) := by
  obtain ⟨r, after, run⟩ := run_some (flushTx batch) outcomes db
  unfold commits at h
  unfold transact
  rw [run] at h ⊢
  cases r with
  | error err => cases h
  | ok _ => exact wp_run (wp_flushTx_all batch db) (check_always _ _ _) run rfl

/-- The plays of a daily row. -/
def playsOf (daily : Ledger DailyKey DailyDelta) (entryId : Int) (day : Text) : Int :=
  (Ledger.balance ⟨entryId, day⟩ daily).plays

/-- The plays that a batch adds to a daily row. -/
def playsIn (days : Ledger DailyKey DailyDelta) (entryId : Int) (day : Text) : Int :=
  (Ledger.sumOn (· = ⟨entryId, day⟩) days).plays

theorem playsOf_upserts (days : Ledger DailyKey DailyDelta) (db : Db) (entryId : Int) (day : Text) :
    playsOf (db.upserts days).daily entryId day =
      playsOf db.daily entryId day + playsIn days entryId day := by
  induction days generalizing db with
  | nil => exact (add_zero _).symm
  | cons row rest ih =>
    obtain ⟨k, d⟩ := row
    have upserted : playsOf (db.upsert k d).daily entryId day =
        playsOf db.daily entryId day + (if k = ⟨entryId, day⟩ then d else 0).plays := by
      rw [playsOf, playsOf, ← DailyDelta.add_plays]
      exact congrArg _ (Ledger.balance_add ..)
    have rest_eq : playsOf (db.upserts ((k, d) :: rest)).daily entryId day =
        playsOf (db.upsert k d).daily entryId day + playsIn rest entryId day := ih (db.upsert k d)
    rw [rest_eq, upserted, add_assoc]
    simp [playsIn, Ledger.sumOn]

/-- A set of viewers is no larger than the plays that were counted with it. -/
def Fair (day : Text) (days : Ledger DailyKey DailyDelta) (viewers : List ViewerKey) : Prop :=
  ∀ entryId, (uniqueViewers viewers entryId day : Int) ≤ playsIn days entryId day

structure Tables (day : Text) (db : Db) : Prop where
  sequence : ∀ entryId ∈ db.entries, entryId < db.nextId
  dailyEntries : ∀ row ∈ db.daily, row.1.entryId ∈ db.entries
  viewerEntries : ∀ v ∈ db.viewers, v.entryId ∈ db.entries
  /-- The primary keys. -/
  rows : (db.daily.map Prod.fst).Nodup
  distinct : db.viewers.Nodup
  plays : ∀ entryId, (uniqueViewers db.viewers entryId day : Int) ≤ playsOf db.daily entryId day

section Keeping
variable {day : Text} {db : Db}

theorem upserts_rows (days : Ledger DailyKey DailyDelta) {db : Db}
    (rows : (db.daily.map Prod.fst).Nodup) : ((db.upserts days).daily.map Prod.fst).Nodup := by
  induction days generalizing db with
  | nil => exact rows
  | cons row rest ih => exact ih (Ledger.nodup_add rows)

theorem upserts_entries {days : Ledger DailyKey DailyDelta} {db : Db} {present : List Int}
    (days_present : ∀ row ∈ days, row.1.entryId ∈ present)
    (h : ∀ row ∈ db.daily, row.1.entryId ∈ present) :
    ∀ row ∈ (db.upserts days).daily, row.1.entryId ∈ present := by
  induction days generalizing db with
  | nil => exact h
  | cons row rest ih =>
    obtain ⟨here, later⟩ := List.forall_mem_cons.mp days_present
    refine ih later fun row' mem => ?_
    rcases Ledger.mem_add (show (row'.1, row'.2) ∈ _ from mem) with same | ⟨d, old⟩
    · exact same ▸ here
    · exact h (row'.1, d) old

theorem Tables.commit {batch : Batch} {after : Db} (h : Tables day db)
    (fair : Fair day batch.days batch.viewers) (written : Written db batch after) :
    Tables day after := by
  obtain ⟨days, viewers, rfl⟩ := written
  obtain ⟨entries, nextId, -⟩ := upserts_frame batch.days db
  constructor
  · exact entries ▸ nextId ▸ h.sequence
  · exact entries ▸ upserts_entries days h.dailyEntries
  · intro v mem
    rw [entries]
    exact (mem_insertAll.mp mem).elim (h.viewerEntries v) (viewers v)
  · exact upserts_rows batch.days h.rows
  · exact nodup_insertAll h.distinct
  · intro entryId
    have counted := countP_insertAll_le (isFor entryId day) db.viewers batch.viewers
    have before := h.plays entryId
    have here := fair entryId
    simp only [playsOf_upserts]
    unfold uniqueViewers at *
    omega

theorem Tables.createEntry (h : Tables day db) : Tables day db.createEntry := by
  constructor
  · intro entryId mem
    change entryId < db.nextId + 1
    rcases List.mem_cons.mp mem with rfl | mem
    · omega
    · have below := h.sequence entryId mem
      omega
  · exact fun row mem => List.mem_cons_of_mem _ (h.dailyEntries row mem)
  · exact fun v mem => List.mem_cons_of_mem _ (h.viewerEntries v mem)
  · exact h.rows
  · exact h.distinct
  · exact h.plays

theorem uniqueViewers_filter_le (stays : ViewerKey → Bool) (viewers : List ViewerKey)
    (entryId : Int) (day : Text) :
    uniqueViewers (viewers.filter stays) entryId day ≤ uniqueViewers viewers entryId day :=
  List.filter_sublist.countP_le

theorem Tables.deleteEntry (h : Tables day db) (deleted : Int) :
    Tables day (db.deleteEntry deleted) := by
  constructor
  · exact fun entryId mem => h.sequence entryId (List.mem_of_mem_filter mem)
  · intro row mem
    obtain ⟨before, other⟩ := List.mem_filter.mp mem
    exact List.mem_filter.mpr ⟨h.dailyEntries row before, other⟩
  · intro v mem
    obtain ⟨before, other⟩ := List.mem_filter.mp mem
    exact List.mem_filter.mpr ⟨h.viewerEntries v before, other⟩
  · exact (List.filter_sublist.map Prod.fst).nodup h.rows
  · exact h.distinct.filter _
  · intro entryId
    by_cases gone : entryId = deleted
    · subst gone
      have noViewers : uniqueViewers (db.deleteEntry entryId).viewers entryId day = 0 := by
        rw [uniqueViewers, List.countP_eq_zero]
        intro v mem
        have other := (List.mem_filter.mp mem).2
        simp only [ne_eq, decide_not, Bool.not_eq_true', decide_eq_false_iff_not] at other
        simp [isFor, other]
      have noPlays : playsOf (db.deleteEntry entryId).daily entryId day = 0 := by
        rw [playsOf, Ledger.balance_zero]
        · rfl
        · intro row mem same
          have other := (List.mem_filter.mp mem).2
          simp [same] at other
      rw [noViewers, noPlays]
      exact Int.le_refl _
    · have fewer := uniqueViewers_filter_le (fun v => v.entryId ≠ deleted) db.viewers entryId day
      have same : playsOf (db.deleteEntry deleted).daily entryId day = playsOf db.daily entryId day :=
        congrArg DailyDelta.plays
          (Ledger.balance_filter_keep (fun k => k.entryId ≠ deleted) (by simpa using gone) db.daily)
      rw [same]
      exact Int.le_trans (Int.ofNat_le.mpr fewer) (h.plays entryId)

theorem Tables.pruneDaily (h : Tables day db) {cutoff : Text} (kept : old cutoff day = false) :
    Tables day (pruneDaily cutoff db) := by
  refine ⟨h.sequence, ?_, h.viewerEntries, (List.filter_sublist.map Prod.fst).nodup h.rows,
    h.distinct, fun entryId => ?_⟩
  · exact fun row mem => h.dailyEntries row (List.mem_of_mem_filter mem)
  · have same : playsOf (Totals.pruneDaily cutoff db).daily entryId day =
        playsOf db.daily entryId day :=
      congrArg DailyDelta.plays
        (Ledger.balance_filter_keep (fun k => !old cutoff k.day) (by simp [kept]) db.daily)
    rw [same]
    exact h.plays entryId

theorem Tables.pruneViewers (h : Tables day db) (cutoff : Text) :
    Tables day (pruneViewers cutoff db) := by
  refine ⟨h.sequence, h.dailyEntries, ?_, h.rows, h.distinct.filter _, fun entryId => ?_⟩
  · exact fun v mem => h.viewerEntries v (List.mem_of_mem_filter mem)
  · have fewer := uniqueViewers_filter_le (fun v => !old cutoff v.day) db.viewers entryId day
    exact Int.le_trans (Int.ofNat_le.mpr fewer) (h.plays entryId)

end Keeping

section Accumulating
variable {day : Text}

theorem playsIn_add (k : DailyKey) (d : DailyDelta) (days : Ledger DailyKey DailyDelta)
    (entryId : Int) : playsIn (Ledger.add k d days) entryId day =
      playsIn days entryId day + if k = ⟨entryId, day⟩ then d.plays else 0 := by
  rw [playsIn, Ledger.sumOn_add, DailyDelta.add_plays]
  split <;> simp_all [playsIn]

theorem Fair.addPlay {acc : Accumulator} (h : Fair day acc.days acc.viewers)
    (entryId : Int) (viewerId day' : Text) :
    Fair day (acc.addPlay entryId viewerId day').days (acc.addPlay entryId viewerId day').viewers := by
  unfold Accumulator.addPlay
  split
  · have counted : ∀ e, playsIn (acc.addDelta ⟨entryId, day'⟩ ⟨1, 0, 0⟩).days e day =
        playsIn acc.days e day + if (⟨entryId, day'⟩ : DailyKey) = ⟨e, day⟩ then 1 else 0 :=
      fun e => playsIn_add _ _ _ e
    dsimp only
    split
    · intro e
      have before := h e
      rw [counted]
      change (uniqueViewers acc.viewers e day : Int) ≤ _
      split <;> omega
    · intro e
      have before := h e
      have grown := countP_insert_le (isFor e day) acc.viewers ⟨entryId, day', viewerId⟩
      change (uniqueViewers (acc.viewers.insert ⟨entryId, day', viewerId⟩) e day : Int) ≤
        playsIn (acc.addDelta ⟨entryId, day'⟩ ⟨1, 0, 0⟩).days e day
      rw [counted]
      simp only [uniqueViewers] at before ⊢
      by_cases here : entryId = e ∧ day' = day
      · simp only [isFor, here, and_self, decide_true, if_true] at grown before ⊢
        omega
      · simp only [isFor, here, decide_false, Bool.false_eq_true, if_false, DailyKey.mk.injEq]
          at grown before ⊢
        omega
  · exact h

theorem Fair.addAmount {acc : Accumulator} (h : Fair day acc.days acc.viewers) (k : DailyKey)
    (n : Int) {d : DailyDelta} (none : d.plays = 0) :
    Fair day (acc.addAmount k n d).days (acc.addAmount k n d).viewers := by
  unfold Accumulator.addAmount
  split
  · exact h
  · intro e
    have same : playsIn (acc.addDelta k d).days e day = playsIn acc.days e day := by
      refine (playsIn_add k d acc.days e).trans ?_
      simp [none]
    rw [same]
    exact h e

theorem Fair.perm {batch visited : Batch} (h : Fair day batch.days batch.viewers)
    (days : visited.days.Perm batch.days) (viewers : visited.viewers.Perm batch.viewers) :
    Fair day visited.days visited.viewers := by
  intro e
  rw [uniqueViewers, viewers.countP_eq, playsIn, Ledger.sumOn_perm days]
  exact h e

theorem fair_new (enabled : Bool) : Fair day (Accumulator.new enabled).days
    (Accumulator.new enabled).viewers := fun _ => Int.le_refl _

end Accumulating

section Runs
variable (enabled : Nat → Bool) (day : Text)

/-- The viewers that no transaction has been told to write yet. -/
def pending (s : Cluster) (v : ViewerKey) : Prop :=
  (∃ node, v ∈ (s.nodes node).viewers) ∨ ∃ batch ∈ s.flights, v ∈ batch.viewers

structure Viewed (trace : List Event) (s : Cluster) : Prop where
  run : Run Totals.step (Keeps day) (start enabled) trace s
  tables : Tables day s.db
  nodes : ∀ node, Fair day (s.nodes node).days (s.nodes node).viewers
  flights : ∀ batch ∈ s.flights, Fair day batch.days batch.viewers
  prunes : ∀ cutoff ∈ s.prunes, old cutoff day = false
  played : ∀ v, pending s v → Played trace v
  flushed : ∀ v, Flushed enabled day trace v → Played trace v ∧ v.entryId < s.db.nextId
  exact : ∀ v, v.day = day → v.entryId ∈ s.db.entries →
    (v ∈ s.db.viewers ↔ Flushed enabled day trace v)

variable {enabled day} {trace : List Event} {s s' : Cluster} {e : Event}

theorem Played.append {v : ViewerKey} (h : Played trace v) (e : Event) : Played (trace ++ [e]) v := by
  obtain ⟨named, node, mem⟩ := h
  exact ⟨named, node, List.mem_append_left _ mem⟩

/-- A step other than a commit flushes nothing. -/
theorem flushed_concat {v : ViewerKey} (run : Run Totals.step (Keeps day) (start enabled) trace s) :
    Flushed enabled day (trace ++ [e]) v ↔ Flushed enabled day trace v ∨
      ∃ node flight visited outcomes, e = .act node (.transact flight visited outcomes) ∧
        commits visited outcomes s.db = true ∧ v ∈ visited.viewers := by
  constructor
  · rintro ⟨early, node, flight, visited, outcomes, late, m, parts, before, isCommit, mem⟩
    rcases List.eq_nil_or_concat' late with rfl | ⟨late, last, rfl⟩
    · obtain ⟨rfl, same⟩ := List.append_inj' parts rfl
      obtain rfl := List.singleton_inj.mp same
      obtain rfl := run.unique before
      exact .inr ⟨node, flight, visited, outcomes, rfl, isCommit, mem⟩
    · rw [← List.cons_append, ← List.append_assoc] at parts
      obtain ⟨rfl, _⟩ := List.append_inj' parts rfl
      exact .inl ⟨early, node, flight, visited, outcomes, late, m, rfl, before, isCommit, mem⟩
  · rintro (before | ⟨node, flight, visited, outcomes, rfl, isCommit, mem⟩)
    · exact before.append e
    · exact ⟨trace, node, flight, visited, outcomes, [], s, rfl, run, isCommit, mem⟩

/-- The event does not commit a flush. -/
def Quiet (s : Cluster) (e : Event) : Prop :=
  ∀ node flight visited outcomes, e = .act node (.transact flight visited outcomes) →
    commits visited outcomes s.db = false

/-- A step that commits nothing: the viewers in the tables are still those that were flushed. -/
theorem Viewed.quiet (h : Viewed enabled day trace s) (meets : Keeps day s e)
    (taken : Totals.step s e = some s') (quiet : Quiet s e) (tables : Tables day s'.db)
    (nodes : ∀ node, Fair day (s'.nodes node).days (s'.nodes node).viewers)
    (flights : ∀ batch ∈ s'.flights, Fair day batch.days batch.viewers)
    (prunes : ∀ cutoff ∈ s'.prunes, old cutoff day = false)
    (played : ∀ v, pending s' v → pending s v ∨ Played (trace ++ [e]) v)
    (forward : s.db.nextId ≤ s'.db.nextId)
    (exact : ∀ v, v.day = day → v.entryId ∈ s'.db.entries →
      (v ∈ s'.db.viewers ↔ Flushed enabled day trace v)) :
    Viewed enabled day (trace ++ [e]) s' := by
  have same : ∀ v, Flushed enabled day (trace ++ [e]) v ↔ Flushed enabled day trace v := by
    intro v
    refine (flushed_concat h.run).trans (or_iff_left ?_)
    rintro ⟨node, flight, visited, outcomes, rfl, isCommit, -⟩
    rw [quiet node flight visited outcomes rfl] at isCommit
    cases isCommit
  refine ⟨.next h.run meets taken, tables, nodes, flights, prunes, ?_, ?_, ?_⟩
  · exact fun v held => (played v held).elim (fun before => (h.played v before).append e) id
  · intro v held
    obtain ⟨before, below⟩ := h.flushed v ((same v).mp held)
    exact ⟨before.append e, by omega⟩
  · exact fun v isDay present => (exact v isDay present).trans (same v).symm

theorem fair_update {nodes : Nat → Accumulator} (h : ∀ i, Fair day (nodes i).days (nodes i).viewers)
    (node : Nat) {acc : Accumulator} (fair : Fair day acc.days acc.viewers) (i : Nat) :
    Fair day (Function.update nodes node acc i).days (Function.update nodes node acc i).viewers := by
  by_cases here : i = node
  · subst here
    rw [Function.update_self]
    exact fair
  · rw [Function.update_of_ne here]
    exact h i

theorem mem_update {nodes : Nat → Accumulator} {node i : Nat} {acc : Accumulator} {v : ViewerKey}
    (mem : v ∈ (Function.update nodes node acc i).viewers) :
    v ∈ acc.viewers ∨ v ∈ (nodes i).viewers := by
  by_cases here : i = node
  · subst here
    rw [Function.update_self] at mem
    exact .inl mem
  · rw [Function.update_of_ne here] at mem
    exact .inr mem

/-- A call under the mutex of one accumulator. -/
theorem Viewed.call (h : Viewed enabled day trace s) {node : Nat} {a : Action} {acc : Accumulator}
    (taken : Totals.step s (.act node a) = some
      { s with nodes := Function.update s.nodes node acc })
    (notFlush : ∀ flight visited outcomes, a ≠ .transact flight visited outcomes)
    (fair : Fair day acc.days acc.viewers)
    (played : ∀ v ∈ acc.viewers, v ∈ (s.nodes node).viewers ∨ Played (trace ++ [.act node a]) v) :
    Viewed enabled day (trace ++ [.act node a])
      { s with nodes := Function.update s.nodes node acc } := by
  refine h.quiet trivial taken ?_ h.tables ?_ h.flights h.prunes ?_ (Int.le_refl _) h.exact
  · rintro node' flight visited outcomes same
    exact absurd (Event.act.inj same).2 (notFlush flight visited outcomes)
  · exact fair_update h.nodes node fair
  · rintro v (⟨i, mem⟩ | flying)
    · rcases mem_update mem with new | old
      · exact (played v new).imp_left fun old => .inl ⟨node, old⟩
      · exact .inl (.inl ⟨i, old⟩)
    · exact .inl (.inr flying)

theorem viewers_addAmount (acc : Accumulator) (k : DailyKey) (n : Int) (d : DailyDelta) :
    (acc.addAmount k n d).viewers = acc.viewers := by
  unfold Accumulator.addAmount
  split <;> rfl

theorem viewers_addPlay {acc : Accumulator} {entryId : Int} {viewerId day' : Text} {v : ViewerKey}
    (mem : v ∈ (acc.addPlay entryId viewerId day').viewers) :
    v ∈ acc.viewers ∨ viewerId ≠ [] ∧ v = ⟨entryId, day', viewerId⟩ := by
  unfold Accumulator.addPlay at mem
  split at mem
  · dsimp only at mem
    split at mem
    · exact .inl mem
    next named =>
      exact (List.mem_insert_iff.mp mem).symm.imp_right fun new => ⟨named, new⟩
  · exact .inl mem

theorem Viewed.swap (h : Viewed enabled day trace s) {node : Nat}
    (taken : Totals.step s (.act node .swap) = some s') :
    Viewed enabled day (trace ++ [.act node .swap]) s' := by
  have made := taken
  cases made
  have quiet : Quiet s (.act node .swap) := nofun
  rcases Classical.em ((s.nodes node).enabled = false ∨
    ((s.nodes node).days = [] ∧ (s.nodes node).viewers = [])) with nothing | some
  · have same : Analytics.swap ⟨s.nodes node, s.db, s.flights⟩ = ⟨s.nodes node, s.db, s.flights⟩ := by
      unfold Analytics.swap
      split
      · rfl
      next enabled => exact if_pos (nothing.resolve_left enabled)
    simp only [same, Function.update_eq_self] at taken ⊢
    exact h.quiet trivial taken quiet h.tables h.nodes h.flights h.prunes (fun _ => .inl)
      (Int.le_refl _) h.exact
  · obtain ⟨enabled, notEmpty⟩ := not_or.mp some
    have swapped : Analytics.swap ⟨s.nodes node, s.db, s.flights⟩ = ⟨.new true, s.db,
        ⟨(s.nodes node).days, (s.nodes node).viewers⟩ :: s.flights⟩ := by
      unfold Analytics.swap
      rw [if_neg enabled, if_neg notEmpty]
    simp only [swapped] at taken ⊢
    refine h.quiet trivial taken quiet h.tables ?_ ?_ h.prunes ?_ (Int.le_refl _) h.exact
    · exact fair_update h.nodes node (fair_new true)
    · exact List.forall_mem_cons.mpr ⟨h.nodes node, h.flights⟩
    · rintro v (⟨i, mem⟩ | ⟨batch, flying, mem⟩)
      · exact .inl (.inl ⟨i, (mem_update mem).resolve_left nofun⟩)
      · rcases List.mem_cons.mp flying with rfl | flying
        · exact .inl (.inl ⟨node, mem⟩)
        · exact .inl (.inr ⟨batch, flying, mem⟩)

/-- The end of a transaction, which commits or has no effect. -/
theorem Viewed.transact (h : Viewed enabled day trace s) {node flight : Nat} {visited : Batch}
    {outcomes : List Outcome}
    (taken : Totals.step s (.act node (.transact flight visited outcomes)) = some s') :
    Viewed enabled day (trace ++ [.act node (.transact flight visited outcomes)]) s' := by
  obtain ⟨after, acted, made⟩ : ∃ after, Analytics.step ⟨s.nodes node, s.db, s.flights⟩
      (.transact flight visited outcomes) = some after ∧ _ = s' := Option.map_eq_some_iff.mp taken
  simp only [Analytics.step] at acted
  split at acted
  · cases acted
  next batch found =>
    rw [Option.ite_none_right_eq_some] at acted
    obtain ⟨⟨days, viewers, _⟩, rest⟩ := acted
    cases rest
    have isFlight := List.mem_of_getElem? found
    have fair := (h.flights batch isFlight).perm days viewers
    have nodes : ∀ i, s'.nodes i = s.nodes i := by
      intro i
      rw [← made]
      exact congrFun (Function.update_eq_self node s.nodes) i
    have db : s'.db = Analytics.transact visited outcomes s.db := by rw [← made]
    have flights : ∀ b ∈ s'.flights, b ∈ s.flights := by
      rw [← made]
      exact fun b mem => List.mem_of_mem_eraseIdx mem
    have prunes : s'.prunes = s.prunes := by rw [← made]
    have nodesFair : ∀ i, Fair day (s'.nodes i).days (s'.nodes i).viewers := fun i =>
      nodes i ▸ h.nodes i
    have flightsFair : ∀ b ∈ s'.flights, Fair day b.days b.viewers := fun b mem =>
      h.flights b (flights b mem)
    have prunesKeep : ∀ cutoff ∈ s'.prunes, old cutoff day = false := prunes ▸ h.prunes
    have wasPending : ∀ v, pending s' v → pending s v := by
      rintro v (⟨i, mem⟩ | ⟨b, flying, mem⟩)
      · exact .inl ⟨i, nodes i ▸ mem⟩
      · exact .inr ⟨b, flights b flying, mem⟩
    cases isCommit : commits visited outcomes s.db with
    | false =>
      rw [transact_of_rolledBack isCommit] at db
      refine h.quiet trivial taken ?_ (db ▸ h.tables) nodesFair flightsFair prunesKeep
        (fun v held => .inl (wasPending v held)) (db ▸ Int.le_refl _) (db ▸ h.exact)
      rintro _ _ _ _ same
      obtain ⟨-, rfl, rfl, rfl⟩ : _ ∧ _ ∧ _ ∧ _ := by simpa using same
      exact isCommit
    | true =>
      have written := written_of_commits isCommit
      rw [← db] at written
      have tables := h.tables.commit fair written
      obtain ⟨entries, nextId, -⟩ := upserts_frame visited.days s.db
      have flushed : ∀ v, Flushed enabled day
          (trace ++ [.act node (.transact flight visited outcomes)]) v ↔
            Flushed enabled day trace v ∨ v ∈ visited.viewers := by
        intro v
        refine (flushed_concat h.run).trans (or_congr_right ⟨?_, ?_⟩)
        · rintro ⟨_, _, _, _, same, _, mem⟩
          obtain ⟨-, -, rfl, -⟩ : _ ∧ _ ∧ _ ∧ _ := by simpa using same
          exact mem
        · exact fun mem => ⟨node, flight, visited, outcomes, rfl, isCommit, mem⟩
      have same := written.same
      refine ⟨.next h.run trivial taken, tables, nodesFair, flightsFair, prunesKeep, ?_, ?_, ?_⟩
      · exact fun v held => (h.played v (wasPending v held)).append _
      · intro v held
        have below : s'.db.nextId = s.db.nextId := by
          rw [same]
          exact nextId
        rw [below]
        rcases (flushed v).mp held with before | mem
        · exact ⟨(h.flushed v before).1.append _, (h.flushed v before).2⟩
        · exact ⟨(h.played v (.inr ⟨batch, isFlight, viewers.mem_iff.mp mem⟩)).append _,
            h.tables.sequence _ (written.viewers v mem)⟩
      · intro v isDay present
        have was : v.entryId ∈ s.db.entries := by
          rw [same] at present
          exact entries ▸ present
        have rows : s'.db.viewers = insertAll s.db.viewers visited.viewers := by rw [same]
        rw [rows, mem_insertAll, flushed v, h.exact v isDay was]

theorem viewed_step (h : Viewed enabled day trace s) (meets : Keeps day s e)
    (taken : Totals.step s e = some s') : Viewed enabled day (trace ++ [e]) s' := by
  cases e with
  | act node a =>
    cases a with
    | addPlay entryId viewerId day' =>
      have made := taken
      cases made
      refine h.call taken (by simp) ((h.nodes node).addPlay entryId viewerId day') fun v mem => ?_
      refine (viewers_addPlay mem).imp_right ?_
      rintro ⟨named, rfl⟩
      exact ⟨named, node, List.mem_append_right _ (List.mem_singleton_self _)⟩
    | addWatch entryId seconds day' =>
      have made := taken
      cases made
      exact h.call taken (by simp) ((h.nodes node).addAmount _ _ rfl) fun v mem =>
        .inl (viewers_addAmount _ _ _ _ ▸ mem)
    | addBytes entryId n day' =>
      have made := taken
      cases made
      exact h.call taken (by simp) ((h.nodes node).addAmount _ _ rfl) fun v mem =>
        .inl (viewers_addAmount _ _ _ _ ▸ mem)
    | swap => exact h.swap taken
    | transact flight visited outcomes => exact h.transact taken
    | createEntry =>
      have made := taken
      cases made
      simp only [Function.update_eq_self] at taken ⊢
      refine h.quiet meets taken (fun _ _ _ _ other => absurd other (by simp)) h.tables.createEntry h.nodes h.flights h.prunes
        (fun _ => .inl) (Int.le_of_lt (Int.lt_succ _)) ?_
      intro v isDay present
      rcases List.mem_cons.mp present with new | old
      · refine iff_of_false (fun mem => ?_) fun held => ?_
        · have below := h.tables.sequence _ (h.tables.viewerEntries v mem)
          omega
        · have below := (h.flushed v held).2
          omega
      · exact h.exact v isDay old
    | deleteEntry deleted =>
      have made := taken
      cases made
      simp only [Function.update_eq_self] at taken ⊢
      refine h.quiet meets taken (fun _ _ _ _ other => absurd other (by simp)) (h.tables.deleteEntry deleted) h.nodes h.flights h.prunes
        (fun _ => .inl) (Int.le_refl _) ?_
      intro v isDay present
      obtain ⟨before, other⟩ := List.mem_filter.mp present
      rw [← h.exact v isDay before]
      exact List.mem_filter.trans (and_iff_left other)
  | prune retentionDays cutoff outcome =>
    have made := taken
    simp only [Totals.step] at made
    split at made
    · cases made
      exact h.quiet meets taken (fun _ _ _ _ other => absurd other (by simp)) h.tables h.nodes h.flights h.prunes (fun _ => .inl)
        (Int.le_refl _) h.exact
    next effective =>
      cases made
      have kept : old cutoff day = false := (or_assoc.mpr meets).resolve_left effective
      exact h.quiet meets taken (fun _ _ _ _ other => absurd other (by simp)) (h.tables.pruneDaily kept) h.nodes h.flights
        (List.forall_mem_cons.mpr ⟨kept, h.prunes⟩) (fun _ => .inl) (Int.le_refl _) h.exact
  | pruneViewers i outcome =>
    have made := taken
    simp only [Totals.step] at made
    split at made
    · cases made
    next cutoff found =>
      cases made
      have kept := h.prunes cutoff (List.mem_of_getElem? found)
      refine h.quiet meets taken (fun _ _ _ _ other => absurd other (by simp)) ?_ h.nodes h.flights
        (fun c mem => h.prunes c (List.mem_of_mem_eraseIdx mem)) (fun _ => .inl) ?_ ?_
      · dsimp only
        split
        · exact h.tables
        · exact h.tables.pruneViewers cutoff
      · dsimp only
        split <;> exact Int.le_refl _
      · intro v isDay
        dsimp only
        split
        · exact h.exact v isDay
        · intro present
          rw [← h.exact v isDay present]
          exact List.mem_filter.trans (and_iff_left (by simp [isDay, kept]))

theorem viewed_of_run (run : Run Totals.step (Keeps day) (start enabled) trace s) :
    Viewed enabled day trace s := by
  induction run with
  | start =>
    refine ⟨.start, ⟨nofun, nofun, nofun, List.nodup_nil, List.nodup_nil, ?_⟩, ?_, nofun, nofun,
      ?_, ?_, nofun⟩
    · exact fun _ => Int.le_refl _
    · exact fun node => fair_new (enabled node)
    · rintro v (⟨_, mem⟩ | ⟨_, flying, _⟩)
      · cases mem
      · cases flying
    · rintro v ⟨early, _, _, _, _, _, _, parts, _⟩
      simp at parts
  | next _ meets taken ih => exact viewed_step ih meets taken

/-- As long as no prune reaches the day, the viewers of an entry on that day are exactly those
whose flush committed, each of them someone whose play was counted, and they are no more than the
plays of the daily row. -/
theorem viewers_of_flushes (run : Run Totals.step (Keeps day) (start enabled) trace s) :
    (∀ v, v.day = day → v.entryId ∈ s.db.entries →
      (v ∈ s.db.viewers ↔ Flushed enabled day trace v)) ∧
    (∀ v, Flushed enabled day trace v → Played trace v) ∧ s.db.viewers.Nodup ∧
    ∀ entryId, (uniqueViewers s.db.viewers entryId day : Int) ≤ playsOf s.db.daily entryId day := by
  have viewed := viewed_of_run run
  exact ⟨viewed.exact, fun v held => (viewed.flushed v held).1, viewed.tables.distinct,
    viewed.tables.plays⟩

end Runs

/-- Two nodes are told of a play by one viewer. -/
def oneViewer : List Event :=
  let v : ViewerKey := ⟨1, today, "v".toList⟩
  let batch : Batch := ⟨[(⟨1, today⟩, ⟨1, 0, 0⟩)], [v]⟩
  [.act 0 .createEntry, .act 0 (.addPlay 1 "v".toList today), .act 1 (.addPlay 1 "v".toList today),
    .act 0 .swap, .act 1 .swap, .act 0 (.transact 1 batch []), .act 1 (.transact 0 batch []),
    .prune 30 yesterday .ok, .pruneViewers 0 .ok]

theorem viewers_of_flushes_oneViewer :
    ∃ s, Run Totals.step (Keeps today) (start fun _ => true) oneViewer s ∧
      uniqueViewers s.db.viewers 1 today = 1 ∧ playsOf s.db.daily 1 today = 2 ∧
      (uniqueViewers s.db.viewers 1 today : Int) ≤ playsOf s.db.daily 1 today := by
  obtain ⟨s, run, rows⟩ : ∃ s, Run Totals.step (Keeps today) (start fun _ => true) oneViewer s ∧
      decide (uniqueViewers s.db.viewers 1 today = 1 ∧ playsOf s.db.daily 1 today = 2) = true :=
    exists_run (fun _ _ => of_decide_eq_true)
      (by decide +kernel)
  obtain ⟨viewers, plays⟩ := of_decide_eq_true rows
  exact ⟨s, run, viewers, plays, (viewers_of_flushes run).2.2.2 1⟩

end Vidsilo.Analytics.Viewers
