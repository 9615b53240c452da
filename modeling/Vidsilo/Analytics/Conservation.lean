import Vidsilo.Library.Transition
import Vidsilo.Analytics.Accumulator

/-!
# What becomes of the deltas

A flush that does not commit drops its whole batch. The totals and the pending deltas of an
entry add up to all that was ever added for it as long as a batch is dropped only when its
entries are gone (`totals_conserved`).
-/
namespace Vidsilo.Analytics
open Library Library.Procedure Library.SlashPath Library.Transition

def isOf (entryId : Int) (k : DailyKey) : Bool := k.entryId = entryId

/-- The deltas of an entry in a batch or in the maps. -/
def share (entryId : Int) (days : Ledger DailyKey DailyDelta) : DailyDelta :=
  Ledger.sumOn (isOf entryId) days

/-- The row of an entry in `analytics_totals`. -/
def Db.stored (db : Db) (entryId : Int) : DailyDelta := Ledger.balance entryId db.totals

/-- The deltas of an entry that are in memory, in the maps or with a flush. -/
def System.pending (s : System) (entryId : Int) : DailyDelta :=
  share entryId s.acc.days + (s.flights.map fun batch => share entryId batch.days).sum

/-- What a call adds for an entry. -/
def amount (enabled : Bool) (entryId : Int) : Action → DailyDelta
  | .addPlay e _ _ => if enabled ∧ e = entryId then ⟨1, 0, 0⟩ else 0
  | .addWatch e seconds _ => if enabled ∧ 0 < seconds ∧ e = entryId then ⟨0, seconds, 0⟩ else 0
  | .addBytes e n _ => if enabled ∧ 0 < n ∧ e = entryId then ⟨0, 0, n⟩ else 0
  | _ => 0

def added (enabled : Bool) (entryId : Int) (trace : List Action) : DailyDelta :=
  (trace.map (amount enabled entryId)).sum

/-- The sequence has passed the id, and no entry has it. -/
def Db.Gone (db : Db) (entryId : Int) : Prop := entryId < db.nextId ∧ entryId ∉ db.entries

/-- The foreign key, and the sequence. -/
structure Db.Valid (db : Db) : Prop where
  totals : ∀ row ∈ db.totals, row.1 ∈ db.entries
  sequence : ∀ entryId ∈ db.entries, entryId < db.nextId

/-- No statement fails, and the entries of the batch exist; or they are all gone. -/
def Meets (s : System) : Action → Prop
  | .transact _ visited outcomes =>
    ((∀ o ∈ outcomes, o = .ok) ∧ (∀ row ∈ visited.days, row.1.entryId ∈ s.db.entries) ∧
      ∀ v ∈ visited.viewers, v.entryId ∈ s.db.entries) ∨
    ∀ row ∈ visited.days, s.db.Gone row.1.entryId
  | _ => True

instance (db : Db) (entryId : Int) : Decidable (db.Gone entryId) := inferInstanceAs (Decidable (_ ∧ _))

instance (s : System) (a : Action) : Decidable (Meets s a) :=
  match a with
  | .transact _ _ _ => inferInstanceAs (Decidable (_ ∨ _))
  | .addPlay _ _ _ => isTrue trivial
  | .addWatch _ _ _ => isTrue trivial
  | .addBytes _ _ _ => isTrue trivial
  | .swap => isTrue trivial
  | .createEntry => isTrue trivial
  | .deleteEntry _ => isTrue trivial

/-- A transaction that has written the deltas so far. -/
structure Wrote (before : Db) (days : Ledger DailyKey DailyDelta) (after : Db) : Prop where
  entries : after.entries = before.entries
  nextId : after.nextId = before.nextId
  stored : ∀ entryId, after.stored entryId = before.stored entryId + share entryId days
  totals : (∀ row ∈ before.totals, row.1 ∈ before.entries) →
    ∀ row ∈ after.totals, row.1 ∈ before.entries

abbrev anyOutcome : {β : Type} → Statement β → Outcome → Db → Bool := fun _ _ _ => true

/-- Both upserts of a row. -/
def Db.upsert (db : Db) (k : DailyKey) (d : DailyDelta) : Db :=
  { db with
    daily := Ledger.add k d db.daily
    totals := Ledger.add k.entryId d db.totals }

/-- The upserts of a batch, in their order. -/
def Db.upserts (db : Db) (days : Ledger DailyKey DailyDelta) : Db :=
  days.foldl (fun db row => db.upsert row.1 row.2) db

/-- What a transaction leaves that commits. -/
structure Committed (before : Db) (days : Ledger DailyKey DailyDelta) (after : Db) : Prop where
  present : ∀ row ∈ days, row.1.entryId ∈ before.entries
  written : ∃ viewers, after = { before.upserts days with viewers := viewers }

theorem wrote_upserts (days : Ledger DailyKey DailyDelta) (db : Db)
    (present : ∀ row ∈ days, row.1.entryId ∈ db.entries) : Wrote db days (db.upserts days) := by
  induction days generalizing db with
  | nil => exact ⟨rfl, rfl, fun _ => (add_zero _).symm, fun valid => valid⟩
  | cons row rest ih =>
    obtain ⟨k, d⟩ := row
    have here : k.entryId ∈ db.entries := present (k, d) List.mem_cons_self
    have h := ih (db.upsert k d) fun row mem => present row (List.mem_cons_of_mem _ mem)
    refine ⟨h.entries, h.nextId, ?_, ?_⟩
    · intro entryId
      have upserted : (db.upsert k d).stored entryId =
          db.stored entryId + if k.entryId = entryId then d else 0 := Ledger.balance_add ..
      have rest_eq : (db.upserts ((k, d) :: rest)).stored entryId =
          (db.upsert k d).stored entryId + share entryId rest := h.stored entryId
      rw [rest_eq, upserted, add_assoc]
      simp [share, Ledger.sumOn, isOf]
    · intro valid
      apply h.totals
      intro row mem
      rcases Ledger.mem_add mem with same | ⟨d', old⟩
      · exact same ▸ here
      · exact valid (row.1, d') old

theorem Committed.wrote {before after : Db} {days : Ledger DailyKey DailyDelta}
    (h : Committed before days after) : Wrote before days after := by
  obtain ⟨viewers, rfl⟩ := h.written
  have upserts := wrote_upserts days before h.present
  exact ⟨upserts.entries, upserts.nextId, upserts.stored, upserts.totals⟩

theorem insertFor_ok {db after db' : Db} {entryId : Int}
    (h : insertFor db entryId after = (.ok (), db')) : entryId ∈ db.entries ∧ db' = after := by
  unfold insertFor at h
  split at h
  · next present => exact ⟨present, (Prod.mk.inj h).2.symm⟩
  · cases h

theorem wp_insertDays (days : Ledger DailyKey DailyDelta) (db : Db) :
    (insertDays days).Wp perform anyOutcome (fun r after => r = .ok () →
      (∀ row ∈ days, row.1.entryId ∈ db.entries) ∧ after = db.upserts days) db := by
  induction days generalizing db with
  | nil =>
    intro _
    exact ⟨nofun, rfl⟩
  | cons row rest ih =>
    obtain ⟨k, d⟩ := row
    intro outcome r db₁ _ taken
    cases r with
    | error err => exact fun no => nomatch no
    | ok _ =>
      cases outcome with
      | fails => cases taken
      | ok =>
        obtain ⟨present, rfl⟩ := insertFor_ok (Option.some.inj taken)
        intro outcome r db₂ _ taken
        cases r with
        | error err => exact fun no => nomatch no
        | ok _ =>
          cases outcome with
          | fails => cases taken
          | ok =>
            obtain ⟨_, rfl⟩ := insertFor_ok (Option.some.inj taken)
            apply wp_mono (ih (db.upsert k d))
            intro r after wrote isOk
            obtain ⟨others, same⟩ := wrote isOk
            refine ⟨fun row mem => ?_, same⟩
            rcases List.mem_cons.mp mem with rfl | mem
            · exact present
            · exact others row mem

theorem wp_insertViewers (viewers : List ViewerKey) (db : Db) :
    (insertViewers viewers).Wp perform anyOutcome (fun _ after =>
      ∃ viewers', after = { db with viewers := viewers' }) db := by
  induction viewers generalizing db with
  | nil => exact ⟨db.viewers, rfl⟩
  | cons v rest ih =>
    intro outcome r db₁ _ taken
    have same : ∃ viewers', db₁ = { db with viewers := viewers' } := by
      cases outcome with
      | fails =>
        cases taken
        exact ⟨db.viewers, rfl⟩
      | ok =>
        simp only [perform, insertFor, Option.some.injEq] at taken
        split at taken
        · cases taken
          exact ⟨_, rfl⟩
        · cases taken
          exact ⟨db.viewers, rfl⟩
    cases r with
    | error err => exact same
    | ok _ =>
      obtain ⟨viewers', rfl⟩ := same
      exact ih { db with viewers := viewers' }

/-- A flush that commits has written its whole batch. -/
theorem wp_flushTx (batch : Batch) (db : Db) :
    (flushTx batch).Wp perform anyOutcome
      (fun r after => r = .ok () → Committed db batch.days after) db := by
  intro outcome r db₁ _ taken
  cases outcome with
  | fails =>
    cases taken
    exact fun no => nomatch no
  | ok =>
    cases taken
    change (insertDays batch.days >>= _).Wp _ _ _ _
    apply wp_bind
    apply wp_mono (wp_insertDays batch.days db)
    intro r after wrote
    cases r with
    | error err => exact fun no => nomatch no
    | ok _ =>
      obtain ⟨present, rfl⟩ := wrote rfl
      change (insertViewers batch.viewers >>= _).Wp _ _ _ _
      apply wp_bind
      apply wp_mono (wp_insertViewers batch.viewers (db.upserts batch.days))
      intro r last written
      cases r with
      | error err => exact fun no => nomatch no
      | ok _ =>
        intro outcome r db₂ _ taken
        cases outcome with
        | fails =>
          cases taken
          exact fun no => nomatch no
        | ok =>
          cases taken
          exact fun _ => ⟨present, written⟩

theorem perform_some {β : Type} (op : Statement β) (outcome : Outcome) (db : Db) :
    ∃ r after, perform op outcome db = some (r, after) := by
  cases op with
  | _ =>
    cases outcome with
    | _ => exact ⟨_, _, rfl⟩

theorem run_some {α : Type} (p : Procedure Statement α) (outcomes : List Outcome) (db : Db) :
    ∃ r after, p.run perform .ok outcomes db = some (r, after) := by
  induction p generalizing outcomes db with
  | ret value => exact ⟨value, db, rfl⟩
  | call op next ih =>
    obtain ⟨b, db', performed⟩ := perform_some op (outcomes.headD .ok) db
    obtain ⟨r, after, rest⟩ := ih b outcomes.tail db'
    refine ⟨r, after, ?_⟩
    rw [Procedure.run, performed]
    exact rest

abbrev calm : {β : Type} → Statement β → Outcome → Db → Bool := fun _ o _ => o = .ok

theorem calm_insertDays (days : Ledger DailyKey DailyDelta) (db : Db)
    (present : ∀ row ∈ days, row.1.entryId ∈ db.entries) :
    (insertDays days).Wp perform calm (fun r after => r = .ok () ∧ after.entries = db.entries)
      db := by
  induction days generalizing db with
  | nil => exact ⟨rfl, rfl⟩
  | cons row rest ih =>
    obtain ⟨k, d⟩ := row
    have here : k.entryId ∈ db.entries := present (k, d) List.mem_cons_self
    intro outcome r db₁ pass taken
    obtain rfl : outcome = .ok := of_decide_eq_true pass
    simp only [perform, insertFor, here, if_true, Option.some.injEq, Prod.mk.injEq] at taken
    obtain ⟨rfl, rfl⟩ := taken
    intro outcome r db₂ pass taken
    obtain rfl : outcome = .ok := of_decide_eq_true pass
    simp only [perform, insertFor, here, if_true, Option.some.injEq, Prod.mk.injEq] at taken
    obtain ⟨rfl, rfl⟩ := taken
    exact ih (db.upsert k d) fun row mem => present row (List.mem_cons_of_mem _ mem)

theorem calm_insertViewers (viewers : List ViewerKey) (db : Db)
    (present : ∀ v ∈ viewers, v.entryId ∈ db.entries) :
    (insertViewers viewers).Wp perform calm (fun r _ => r = .ok ()) db := by
  induction viewers generalizing db with
  | nil => exact rfl
  | cons v rest ih =>
    have here : v.entryId ∈ db.entries := present v List.mem_cons_self
    intro outcome r db₁ pass taken
    obtain rfl : outcome = .ok := of_decide_eq_true pass
    simp only [perform, insertFor, here, if_true, Option.some.injEq, Prod.mk.injEq] at taken
    obtain ⟨rfl, rfl⟩ := taken
    exact ih _ fun v mem => present v (List.mem_cons_of_mem _ mem)

/-- Without failures of its own, a flush whose entries exist commits. -/
theorem calm_flushTx (batch : Batch) (db : Db)
    (days : ∀ row ∈ batch.days, row.1.entryId ∈ db.entries)
    (viewers : ∀ v ∈ batch.viewers, v.entryId ∈ db.entries) :
    (flushTx batch).Wp perform calm (fun r _ => r = .ok ()) db := by
  intro outcome r db₁ pass taken
  obtain rfl : outcome = .ok := of_decide_eq_true pass
  cases taken
  change (insertDays batch.days >>= _).Wp _ _ _ _
  apply wp_bind
  apply wp_mono (calm_insertDays batch.days db days)
  rintro r after ⟨rfl, entries⟩
  change (insertViewers batch.viewers >>= _).Wp _ _ _ _
  apply wp_bind
  apply wp_mono (calm_insertViewers batch.viewers after (entries ▸ viewers))
  rintro r last rfl outcome r db₂ pass taken
  obtain rfl : outcome = .ok := of_decide_eq_true pass
  cases taken
  rfl

theorem transact_cases (batch : Batch) (outcomes : List Outcome) (db : Db) :
    transact batch outcomes db = db ∨ Wrote db batch.days (transact batch outcomes db) := by
  obtain ⟨r, after, run⟩ := run_some (flushTx batch) outcomes db
  unfold transact
  rw [run]
  cases r with
  | error err => exact .inl rfl
  | ok _ => exact .inr (wp_run (wp_flushTx batch db) (check_always _ _ _) run rfl).wrote

theorem transact_calm {batch : Batch} {outcomes : List Outcome} {db : Db}
    (noFailure : ∀ o ∈ outcomes, o = .ok)
    (days : ∀ row ∈ batch.days, row.1.entryId ∈ db.entries)
    (viewers : ∀ v ∈ batch.viewers, v.entryId ∈ db.entries) :
    Wrote db batch.days (transact batch outcomes db) := by
  obtain ⟨r, after, run⟩ := run_some (flushTx batch) outcomes db
  have isOk := wp_run (calm_flushTx batch db days viewers) (check_usual noFailure _ _) run
  have committed := wp_run (wp_flushTx batch db) (check_always _ _ _) run isOk
  unfold transact
  rw [run, isOk]
  exact committed.wrote

/-- From the start, `s₀`, on. -/
structure Sound (s₀ : System) (trace : List Action) (s : System) : Prop where
  valid : s.db.Valid
  enabled : s.acc.enabled = s₀.acc.enabled
  conserved : ∀ entryId, ¬ s.db.Gone entryId →
    s.db.stored entryId + s.pending entryId =
      s₀.db.stored entryId + added s₀.acc.enabled entryId trace

variable {s₀ s s' : System} {trace : List Action} {a : Action}

theorem added_concat (enabled : Bool) (entryId : Int) (trace : List Action) (a : Action) :
    added enabled entryId (trace ++ [a]) = added enabled entryId trace + amount enabled entryId a := by
  simp [added]

theorem added_same {enabled : Bool} {entryId : Int} (nothing : amount enabled entryId a = 0) :
    added enabled entryId (trace ++ [a]) = added enabled entryId trace := by
  rw [added_concat, nothing, add_zero]

/-- Only the maps change. -/
theorem Sound.called {acc : Accumulator} (h : Sound s₀ trace s) (enabled : acc.enabled = s.acc.enabled)
    (days : ∀ entryId, share entryId acc.days =
      share entryId s.acc.days + amount s₀.acc.enabled entryId a) :
    Sound s₀ (trace ++ [a]) { s with acc := acc } := by
  refine ⟨h.valid, enabled.trans h.enabled, ?_⟩
  intro entryId exist
  have before := h.conserved entryId exist
  rw [added_concat, ← add_assoc, ← before]
  simp only [System.pending, days, add_assoc, add_comm (amount _ _ _)]

theorem share_add (entryId : Int) (k : DailyKey) (d : DailyDelta)
    (days : Ledger DailyKey DailyDelta) :
    share entryId (Ledger.add k d days) =
      share entryId days + if k.entryId = entryId then d else 0 := by
  simp [share, Ledger.sumOn_add, isOf]

theorem Sound.addPlay {entryId : Int} {viewerId day : Text} (h : Sound s₀ trace s) :
    Sound s₀ (trace ++ [.addPlay entryId viewerId day])
      { s with acc := s.acc.addPlay entryId viewerId day } := by
  apply h.called
  · unfold Accumulator.addPlay
    split
    · split
      · rfl
      · rfl
    · rfl
  · intro e
    unfold Accumulator.addPlay amount
    rw [h.enabled]
    cases s₀.acc.enabled with
    | false => simp
    | true =>
      simp only [if_true, true_and]
      split
      · exact share_add ..
      · exact share_add ..

theorem share_addAmount (acc : Accumulator) (entryId : Int) (k : DailyKey) (n : Int)
    (d : DailyDelta) :
    share entryId (acc.addAmount k n d).days =
      share entryId acc.days + if acc.enabled ∧ 0 < n ∧ k.entryId = entryId then d else 0 := by
  unfold Accumulator.addAmount
  split
  · next nothing =>
    have none : ¬ (acc.enabled = true ∧ 0 < n ∧ k.entryId = entryId) := by
      rintro ⟨enabled, positive, _⟩
      rcases nothing with off | low
      · exact nomatch off.symm.trans enabled
      · omega
    rw [if_neg none, add_zero]
  · next counts =>
    rw [not_or, Bool.not_eq_false] at counts
    have positive : 0 < n := by omega
    rw [Accumulator.addDelta, share_add]
    simp [counts.1, positive]

theorem enabled_addAmount (acc : Accumulator) (k : DailyKey) (n : Int) (d : DailyDelta) :
    (acc.addAmount k n d).enabled = acc.enabled := by
  unfold Accumulator.addAmount
  split
  · rfl
  · rfl

/-- The first part of a flush moves the deltas. -/
theorem Sound.swap (h : Sound s₀ trace s) : Sound s₀ (trace ++ [.swap]) (swap s) := by
  have same (entryId : Int) : (Analytics.swap s).pending entryId = s.pending entryId := by
    unfold Analytics.swap
    split
    · rfl
    · split
      · rfl
      · simp [System.pending, Accumulator.new, share, Ledger.sumOn]
  have frame : (Analytics.swap s).db = s.db ∧
      (Analytics.swap s).acc.enabled = s.acc.enabled := by
    unfold Analytics.swap
    split
    · exact ⟨rfl, rfl⟩
    · next on =>
      split
      · exact ⟨rfl, rfl⟩
      · rw [Bool.not_eq_false] at on
        exact ⟨rfl, on.symm⟩
  refine ⟨frame.1 ▸ h.valid, frame.2.trans h.enabled, ?_⟩
  intro entryId exist
  rw [frame.1] at exist ⊢
  rw [same, added_same rfl]
  exact h.conserved entryId exist

theorem share_gone {db : Db} {days : Ledger DailyKey DailyDelta} {entryId : Int}
    (gone : ∀ row ∈ days, db.Gone row.1.entryId) (exist : ¬ db.Gone entryId) :
    share entryId days = 0 := by
  apply Ledger.sumOn_zero
  intro row mem
  apply decide_eq_false
  intro same
  exact exist (same ▸ gone row mem)

theorem transact_effect {flight : Nat} {visited : Batch} {outcomes : List Outcome}
    (valid : s.db.Valid) (meets : Meets s (.transact flight visited outcomes)) :
    (transact visited outcomes s.db).entries = s.db.entries ∧
      (transact visited outcomes s.db).nextId = s.db.nextId ∧
      (∀ row ∈ (transact visited outcomes s.db).totals, row.1 ∈ s.db.entries) ∧
      ∀ entryId, ¬ s.db.Gone entryId → (transact visited outcomes s.db).stored entryId =
        s.db.stored entryId + share entryId visited.days := by
  rcases meets with ⟨noFailure, days, viewers⟩ | gone
  · have wrote := transact_calm noFailure days viewers
    exact ⟨wrote.entries, wrote.nextId, wrote.totals valid.totals, fun e _ => wrote.stored e⟩
  · rcases transact_cases visited outcomes s.db with same | wrote
    · rw [same]
      refine ⟨rfl, rfl, valid.totals, fun e exist => ?_⟩
      rw [share_gone gone exist, add_zero]
    · exact ⟨wrote.entries, wrote.nextId, wrote.totals valid.totals, fun e _ => wrote.stored e⟩

theorem Sound.transact {flight : Nat} {visited batch : Batch} {outcomes : List Outcome}
    (h : Sound s₀ trace s) (meets : Meets s (.transact flight visited outcomes))
    (found : s.flights[flight]? = some batch) (order : visited.days.Perm batch.days) :
    Sound s₀ (trace ++ [.transact flight visited outcomes])
      { s with
        db := Analytics.transact visited outcomes s.db
        flights := s.flights.eraseIdx flight } := by
  have moved (entryId : Int) : s.pending entryId = share entryId visited.days +
      System.pending { s with flights := s.flights.eraseIdx flight } entryId := by
    have perm := List.getElem_cons_eraseIdx_perm (List.getElem?_eq_some_iff.mp found).1
    rw [(List.getElem?_eq_some_iff.mp found).2] at perm
    have sum := (perm.map fun batch => share entryId batch.days).sum_eq
    simp only [System.pending, ← sum, List.map_cons, List.sum_cons]
    rw [show share entryId batch.days = share entryId visited.days from (Ledger.sumOn_perm order).symm]
    exact add_left_comm _ _ _
  obtain ⟨entries, nextId, totals, stored⟩ := transact_effect h.valid meets
  have gone (entryId : Int) :
      (Analytics.transact visited outcomes s.db).Gone entryId ↔ s.db.Gone entryId := by
    unfold Db.Gone
    rw [entries, nextId]
  refine ⟨⟨entries ▸ totals, ?_⟩, h.enabled, ?_⟩
  · rw [entries, nextId]
    exact h.valid.sequence
  · intro entryId exist
    rw [gone] at exist
    change (Analytics.transact visited outcomes s.db).stored entryId +
      System.pending { s with flights := s.flights.eraseIdx flight } entryId = _
    rw [added_same rfl, ← h.conserved entryId exist, moved, stored entryId exist, add_assoc]

theorem Sound.createEntry (h : Sound s₀ trace s) :
    Sound s₀ (trace ++ [.createEntry]) { s with db := s.db.createEntry } := by
  refine ⟨⟨?_, ?_⟩, h.enabled, ?_⟩
  · exact fun row mem => List.mem_cons_of_mem _ (h.valid.totals row mem)
  · intro entryId mem
    change entryId < s.db.nextId + 1
    rcases List.mem_cons.mp mem with rfl | old
    · omega
    · have below := h.valid.sequence entryId old
      omega
  · intro entryId exist
    have before : ¬ s.db.Gone entryId := by
      rintro ⟨below, absent⟩
      apply exist
      constructor
      · change entryId < s.db.nextId + 1
        omega
      · intro mem
        rcases List.mem_cons.mp mem with rfl | old
        · omega
        · exact absent old
    rw [added_same rfl]
    exact h.conserved entryId before

theorem Sound.deleteEntry {deleted : Int} (h : Sound s₀ trace s) :
    Sound s₀ (trace ++ [.deleteEntry deleted]) { s with db := s.db.deleteEntry deleted } := by
  refine ⟨⟨?_, ?_⟩, h.enabled, ?_⟩
  · intro row mem
    obtain ⟨old, other⟩ := List.mem_filter.mp mem
    exact List.mem_filter.mpr ⟨h.valid.totals row old, other⟩
  · exact fun entryId mem => h.valid.sequence entryId (List.mem_of_mem_filter mem)
  · intro entryId exist
    have before : ¬ s.db.Gone entryId := by
      rintro ⟨below, absent⟩
      exact exist ⟨below, fun mem => absent (List.mem_of_mem_filter mem)⟩
    have stored : (s.db.deleteEntry deleted).stored entryId = s.db.stored entryId := by
      by_cases same : entryId = deleted
      · subst same
        -- The sequence has not reached the id, and no row refers to it.
        have absent : entryId ∉ s.db.entries := by
          intro mem
          apply exist
          refine ⟨h.valid.sequence entryId mem, fun mem' => ?_⟩
          simp [Db.deleteEntry] at mem'
        have old : s.db.stored entryId = 0 := by
          apply Ledger.balance_zero
          rintro row mem rfl
          exact absent (h.valid.totals row mem)
        rw [old]
        apply Ledger.balance_zero
        intro row mem
        exact of_decide_eq_true (List.mem_filter.mp mem).2
      · exact Ledger.balance_filter same _
    change (s.db.deleteEntry deleted).stored entryId + s.pending entryId = _
    rw [added_same rfl, stored]
    exact h.conserved entryId before

theorem sound_step (h : Sound s₀ trace s) (meets : Meets s a) (taken : step s a = some s') :
    Sound s₀ (trace ++ [a]) s' := by
  cases a with
  | addPlay entryId viewerId day =>
    cases taken
    exact h.addPlay
  | addWatch entryId seconds day =>
    cases taken
    exact h.called (enabled_addAmount ..) fun e => h.enabled ▸ share_addAmount ..
  | addBytes entryId n day =>
    cases taken
    exact h.called (enabled_addAmount ..) fun e => h.enabled ▸ share_addAmount ..
  | swap =>
    cases taken
    exact h.swap
  | transact flight visited outcomes =>
    simp only [step] at taken
    split at taken
    · cases taken
    · next batch found =>
      split at taken
      · next order =>
        cases taken
        exact h.transact meets found order.1
      · cases taken
  | createEntry =>
    cases taken
    exact h.createEntry
  | deleteEntry entryId =>
    cases taken
    exact h.deleteEntry

/-- In every run of calls, flushes and changes of entries, from a new accumulator on valid
tables, whose flushes meet the condition: the totals of an existing entry and its pending
deltas add up to its first totals and all that was added for it. -/
theorem totals_conserved (enabled : Bool) (db : Db) (valid : db.Valid) (trace : List Action)
    (s : System) (h : Run step Meets ⟨.new enabled, db, []⟩ trace s) (entryId : Int)
    (exist : entryId ∈ s.db.entries) :
    s.db.stored entryId + s.pending entryId =
      db.stored entryId + added enabled entryId trace := by
  have sound : Sound ⟨.new enabled, db, []⟩ trace s := by
    apply h.trace_invariant (Sound ⟨.new enabled, db, []⟩)
    · exact ⟨valid, rfl, fun _ _ => rfl⟩
    · exact fun _ _ _ _ before meets taken => sound_step before meets taken
  exact sound.conserved entryId fun gone => gone.2 exist

def twoEntries : Db where
  entries := [1, 2]
  nextId := 3
  daily := []
  totals := []
  viewers := []

theorem twoEntries_valid : twoEntries.Valid where
  totals := fun _ none => nomatch none
  sequence := by decide

def today : Text := "2026-01-01".toList

/-- The batch of a deleted entry is dropped, the next one is written. -/
def deletedAlone : List Action :=
  [.addBytes 2 100 today, .deleteEntry 2, .swap,
    .transact 0 ⟨[(⟨2, today⟩, ⟨0, 0, 100⟩)], []⟩ [],
    .addPlay 1 "v".toList today, .addWatch 1 30 today, .swap,
    .transact 0 ⟨[(⟨1, today⟩, ⟨1, 30, 0⟩)], [⟨1, today, "v".toList⟩]⟩ [],
    .addBytes 1 5 today]

theorem totals_conserved_deletedAlone :
    ∃ s : System, s.db.stored 1 = ⟨1, 30, 0⟩ ∧ s.db.stored 1 + s.pending 1 = ⟨1, 30, 5⟩ := by
  obtain ⟨s, run, done⟩ : ∃ s, Run step Meets ⟨.new true, twoEntries, []⟩ deletedAlone s ∧
      decide (s.db.stored 1 = ⟨1, 30, 0⟩ ∧ 1 ∈ s.db.entries) = true :=
    exists_run (fun _ _ meets => of_decide_eq_true meets) (by decide +kernel)
  obtain ⟨stored, exist⟩ := of_decide_eq_true done
  refine ⟨s, stored, ?_⟩
  rw [totals_conserved true twoEntries twoEntries_valid deletedAlone s run 1 exist]
  decide

/-- The same entries share a batch. -/
def deletedAmong : List Action :=
  [.addPlay 1 [] today, .addPlay 2 [] today, .deleteEntry 2, .swap,
    .transact 0 ⟨[(⟨1, today⟩, ⟨1, 0, 0⟩), (⟨2, today⟩, ⟨1, 0, 0⟩)], []⟩ []]

theorem deleted_entry_drops_batch :
    ∃ (db : Db) (trace : List Action) (s : System), db.Valid ∧
      Run step Always ⟨.new true, db, []⟩ trace s ∧ 1 ∈ s.db.entries ∧
        s.db.stored 1 + s.pending 1 ≠ db.stored 1 + added true 1 trace := by
  obtain ⟨s, run, done⟩ : ∃ s, Run step Always ⟨.new true, twoEntries, []⟩ deletedAmong s ∧
      decide (1 ∈ s.db.entries ∧ s.db.stored 1 + s.pending 1 = 0) = true :=
    exists_always (by decide +kernel)
  obtain ⟨exist, lost⟩ := of_decide_eq_true done
  refine ⟨twoEntries, deletedAmong, s, twoEntries_valid, run, exist, ?_⟩
  rw [lost]
  decide

end Vidsilo.Analytics
