import Mathlib
import Vidsilo.Analytics.Viewers
import Vidsilo.Library.CivilDate
import Vidsilo.Library.Grouping

/-!
# The analytics page

Source: internal/api/analytics_summary.go:42-144 (`analyticsRange`, `handleAnalyticsSummary`),
internal/api/dashboard.go:74-116. The window of the page is read from the query, and the daily
table is read by three statements, between which others commit: for the totals, by day and by
entry. `DATE` has no year zero. The
statements are taken to succeed; rows that compare equal under an `ORDER BY` keep the order of
their first row.
-/
namespace Vidsilo.Analytics.Summary
open Library Library.CivilDate Library.Grouping Library.SlashPath Library.Transition Totals Viewers

/-- What `time.Now` gives: today and thirteen days before, as dates. -/
structure Clock where
  today : Text
  earlier : Text
  last : Date
  first : Date
  isToday : parse today = some last
  isEarlier : parse earlier = some first
  apart : first.number + 13 = last.number
  modern : 1 ≤ first.year ∧ 1 ≤ last.year

/-- The parameters, empty when they are absent. -/
structure Query where
  fromDay : Text
  toDay : Text

def analyticsRange (clock : Clock) (q : Query) : Except String (Text × Text) :=
  if q.fromDay = [] ∧ q.toDay = [] then .ok (clock.earlier, clock.today)
  else
    let fromDay := if q.fromDay = [] then clock.today else q.fromDay
    let toDay := if q.toDay = [] then clock.today else q.toDay
    match parse fromDay, parse toDay with
    | some f, some t =>
      if t.number < f.number then .error "from must not be after to"
      else if 366 < t.number - f.number then .error "range too wide (max 366 days)"
      else .ok (fromDay, toDay)
    | _, _ => .error "dates must be YYYY-MM-DD"

structure SummaryTotals where
  entries : Nat
  sums : DailyDelta
  deriving DecidableEq, Repr

structure SummaryDay where
  day : Text
  sums : DailyDelta
  uniqueViewers : Nat
  deriving DecidableEq, Repr

structure TopEntryStat where
  publicId : Text
  title : Text
  sums : DailyDelta
  deriving DecidableEq, Repr

structure AnalyticsSummary where
  totals : SummaryTotals
  series : List SummaryDay
  topEntries : List TopEntryStat
  deriving DecidableEq, Repr

structure Refusal where
  status : Nat
  code : String
  message : String
  deriving DecidableEq, Repr

/-- The text as a Postgres `DATE`. -/
def pgDate (text : Text) : Option Date := (parse text).filter fun d => 0 < d.year

abbrev Row := DailyKey × DailyDelta

def dayNumber (day : Text) : Nat := (parse day).elim 0 Date.number

/-- `ORDER BY 3 DESC, 4 DESC`. -/
def ranksBefore (a b : DailyDelta) : Bool :=
  decide (b.plays < a.plays) || (a.plays = b.plays && decide (b.watch ≤ a.watch))

/-- `day BETWEEN $1 AND $2`. -/
def window (f t : Date) (daily : Ledger DailyKey DailyDelta) : List Row :=
  daily.filter fun row => within f.number t.number row.1.day

def sumOf (rows : List Row) : DailyDelta := weight Prod.snd rows

def totals (rows : List Row) : SummaryTotals :=
  ⟨(keys (fun row => row.1.entryId) rows).length, sumOf rows⟩

def series (viewers : List ViewerKey) (rows : List Row) : List SummaryDay :=
  ((keys (fun row => row.1.day) rows).mergeSort fun d d' => dayNumber d ≤ dayNumber d').map fun d =>
    ⟨d, sumOf (group (fun row => row.1.day) rows d), viewers.countP fun v => v.day = d⟩

/-- `info` gives the public id and the title of an entry. -/
def topEntries (info : Int → Text × Text) (entries : List Int) (rows : List Row) :
    List TopEntryStat :=
  let joined := (keys (fun row => row.1.entryId) rows).filter (· ∈ entries)
  let stats := joined.map fun e =>
    (⟨(info e).1, (info e).2, sumOf (group (fun row => row.1.entryId) rows e)⟩ : TopEntryStat)
  (stats.mergeSort fun a b => ranksBefore a.sums b.sums).take 10

/-- What the statements find. -/
structure Reads where
  totals : Db
  series : Db
  top : Db

def handleAnalyticsSummary (clock : Clock) (info : Int → Text × Text) (reads : Reads) (q : Query) :
    Except Refusal AnalyticsSummary :=
  match analyticsRange clock q with
  | .error message => .error ⟨400, "bad_request", message⟩
  | .ok (fromDay, toDay) =>
    match pgDate fromDay, pgDate toDay with
    | some f, some t =>
      .ok ⟨totals (window f t reads.totals.daily),
        series reads.series.viewers (window f t reads.series.daily),
        topEntries info reads.top.entries (window f t reads.top.daily)⟩
    | _, _ => .error ⟨500, "internal", "internal error"⟩

theorem analyticsRange_ok {clock : Clock} {q : Query} {fromDay toDay : Text}
    (h : analyticsRange clock q = .ok (fromDay, toDay)) : ∃ f t, parse fromDay = some f ∧
      parse toDay = some t ∧ f.number ≤ t.number ∧ t.number ≤ f.number + 366 := by
  unfold analyticsRange at h
  split at h
  · cases h
    exact ⟨clock.first, clock.last, clock.isEarlier, clock.isToday, by have := clock.apart; omega,
      by have := clock.apart; omega⟩
  · dsimp only at h
    split at h
    next f t parsedFrom parsedTo =>
      split at h
      · cases h
      next forward =>
        split at h
        · cases h
        next narrow =>
          cases h
          exact ⟨f, t, parsedFrom, parsedTo, by omega, by omega⟩
    · cases h

theorem handle_ok {clock : Clock} {info : Int → Text × Text} {reads : Reads} {q : Query}
    {out : AnalyticsSummary} (h : handleAnalyticsSummary clock info reads q = .ok out) :
    ∃ fromDay toDay f t, analyticsRange clock q = .ok (fromDay, toDay) ∧
      parse fromDay = some f ∧ parse toDay = some t ∧
      f.number ≤ t.number ∧ t.number ≤ f.number + 366 ∧
      out = ⟨totals (window f t reads.totals.daily),
        series reads.series.viewers (window f t reads.series.daily),
        topEntries info reads.top.entries (window f t reads.top.daily)⟩ := by
  unfold handleAnalyticsSummary at h
  split at h
  · cases h
  next fromDay toDay range =>
    obtain ⟨f, t, parsedFrom, parsedTo, forward, narrow⟩ := analyticsRange_ok range
    split at h
    next f' t' isFrom isTo =>
      cases h
      have first := (Option.filter_eq_some_iff.mp isFrom).1
      have last := (Option.filter_eq_some_iff.mp isTo).1
      obtain rfl := Option.some.inj (parsedFrom.symm.trans first)
      obtain rfl := Option.some.inj (parsedTo.symm.trans last)
      exact ⟨fromDay, toDay, f, t, range, parsedFrom, parsedTo, forward, narrow, rfl⟩
    · cases h

/-- Without parameters the page is answered, for fourteen days. -/
theorem handle_default (clock : Clock) (info : Int → Text × Text) (reads : Reads) :
    handleAnalyticsSummary clock info reads ⟨[], []⟩ =
      let rows (db : Db) := window clock.first clock.last db.daily
      .ok ⟨totals (rows reads.totals), series reads.series.viewers (rows reads.series),
        topEntries info reads.top.entries (rows reads.top)⟩ := by
  obtain ⟨first, last⟩ := clock.modern
  have isFrom : pgDate clock.earlier = some clock.first := by
    rw [pgDate, clock.isEarlier]
    exact if_pos (decide_eq_true first)
  have isTo : pgDate clock.today = some clock.last := by
    rw [pgDate, clock.isToday]
    exact if_pos (decide_eq_true last)
  have range : analyticsRange clock ⟨[], []⟩ = .ok (clock.earlier, clock.today) := if_pos ⟨rfl, rfl⟩
  simp only [handleAnalyticsSummary, range, isFrom, isTo]

theorem within_of_mem_window {f t : Date} {daily : Ledger DailyKey DailyDelta} {row : Row}
    (mem : row ∈ window f t daily) : within f.number t.number row.1.day = true :=
  (List.mem_filter.mp mem).2

theorem series_perm (viewers : List ViewerKey) (rows : List Row) :
    ((series viewers rows).map (·.day)).Perm (keys (fun row => row.1.day) rows) := by
  have same : (series viewers rows).map (·.day) =
      (keys (fun row => row.1.day) rows).mergeSort fun d d' => dayNumber d ≤ dayNumber d' := by
    rw [series, List.map_map]
    exact List.map_id _
  rw [same]
  exact List.mergeSort_perm _ _

/-- The days of the series add up to the totals. -/
theorem sum_series (viewers : List ViewerKey) (rows : List Row) :
    ((series viewers rows).map (·.sums)).sum = (totals rows).sums := by
  have sorted := (List.mergeSort_perm (keys (fun row : Row => row.1.day) rows)
    fun d d' => decide (dayNumber d ≤ dayNumber d')).map
      fun d => sumOf (group (fun row => row.1.day) rows d)
  rw [series, List.map_map]
  exact (sorted.sum_eq).trans (weight_keys _ Prod.snd rows)

theorem series_days {f t : Date} (daily : Ledger DailyKey DailyDelta) (viewers : List ViewerKey) :
    ((series viewers (window f t daily)).map (·.day)).Nodup ∧
      ∀ day ∈ (series viewers (window f t daily)).map (·.day), within f.number t.number day = true := by
  have perm := series_perm viewers (window f t daily)
  refine ⟨perm.nodup_iff.mpr (nodup_keys _ _), fun day mem => ?_⟩
  obtain ⟨row, isRow, rfl⟩ := mem_keys.mp (perm.mem_iff.mp mem)
  exact within_of_mem_window isRow

theorem dayNumber_injective {f t : Date} {day day' : Text} (h : within f.number t.number day = true)
    (h' : within f.number t.number day' = true) (same : dayNumber day = dayNumber day') :
    day = day' := by
  obtain ⟨d, parsed, -⟩ := (Option.any_eq_true _ _).mp h
  obtain ⟨d', parsed', -⟩ := (Option.any_eq_true _ _).mp h'
  simp only [dayNumber, parsed, parsed', Option.elim] at same
  exact parse_injective parsed (Date.number_injective same ▸ parsed')

/-- The series goes from day to day. -/
theorem series_increasing {f t : Date} (daily : Ledger DailyKey DailyDelta)
    (viewers : List ViewerKey) :
    ((series viewers (window f t daily)).map (·.day)).Pairwise fun d d' => dayNumber d < dayNumber d' := by
  obtain ⟨nodup, inside⟩ := series_days (f := f) (t := t) daily viewers
  have sorted : ((series viewers (window f t daily)).map (·.day)).Pairwise
      fun d d' => dayNumber d ≤ dayNumber d' := by
    let le (d d' : Text) : Bool := dayNumber d ≤ dayNumber d'
    have isSorted : ((keys (fun row : Row => row.1.day) (window f t daily)).mergeSort le).Pairwise
        fun d d' => le d d' = true :=
      List.pairwise_mergeSort (by simp only [le, decide_eq_true_eq]; omega)
        (by simp only [le, Bool.or_eq_true, decide_eq_true_eq]; omega) _
    rw [series, List.map_map]
    simpa [Function.comp_def, le] using isSorted
  refine (nodup.and sorted).imp_of_mem fun mem mem' apart => ?_
  refine lt_of_le_of_ne apart.2 fun same => apart.1 ?_
  exact dayNumber_injective (inside _ mem) (inside _ mem') same

section Top
variable (info : Int → Text × Text) (rows : List Row)

def statOf (e : Int) : TopEntryStat :=
  ⟨(info e).1, (info e).2, sumOf (group (fun row => row.1.entryId) rows e)⟩

theorem ranksBefore_trans (a b c : DailyDelta) (h : ranksBefore a b = true)
    (h' : ranksBefore b c = true) : ranksBefore a c = true := by
  simp only [ranksBefore, Bool.or_eq_true, Bool.and_eq_true, decide_eq_true_eq] at h h' ⊢
  omega

theorem ranksBefore_total (a b : DailyDelta) : (ranksBefore a b || ranksBefore b a) = true := by
  simp only [ranksBefore, Bool.or_eq_true, Bool.and_eq_true, decide_eq_true_eq]
  omega

/-- All entries of the window in their rank. -/
def ranked : List TopEntryStat :=
  ((keys (fun row => row.1.entryId) rows).map (statOf info rows)).mergeSort
    fun a b => ranksBefore a.sums b.sums

variable {info rows}

theorem topEntries_eq {entries : List Int} (fk : ∀ row ∈ rows, row.1.entryId ∈ entries) :
    topEntries info entries rows = (ranked info rows).take 10 := by
  have joined : (keys (fun row : Row => row.1.entryId) rows).filter (· ∈ entries) =
      keys (fun row => row.1.entryId) rows := by
    refine List.filter_eq_self.mpr fun e mem => ?_
    obtain ⟨row, isRow, rfl⟩ := mem_keys.mp mem
    exact decide_eq_true (fk row isRow)
  rw [topEntries, joined]
  rfl

theorem ranked_perm : (ranked info rows).Perm
    ((keys (fun row => row.1.entryId) rows).map (statOf info rows)) :=
  List.mergeSort_perm _ _

theorem ranked_sorted : (ranked info rows).Pairwise fun a b => ranksBefore a.sums b.sums = true :=
  List.pairwise_mergeSort (fun a b c => ranksBefore_trans a.sums b.sums c.sums)
    (fun a b => ranksBefore_total a.sums b.sums) _

theorem length_ranked : (ranked info rows).length = (totals rows).entries := by
  rw [ranked_perm.length_eq, List.length_map]
  rfl

theorem sum_ranked : ((ranked info rows).map (·.sums)).sum = (totals rows).sums := by
  rw [(ranked_perm.map _).sum_eq, List.map_map]
  exact weight_keys _ Prod.snd rows

/-- Who is not listed has no better rank than anyone who is. -/
theorem listed_or_below {e : Int} (mem : e ∈ keys (fun row => row.1.entryId) rows) :
    statOf info rows e ∈ (ranked info rows).take 10 ∨
      ((ranked info rows).take 10).length = 10 ∧
        ∀ stat ∈ (ranked info rows).take 10, ranksBefore stat.sums (statOf info rows e).sums = true := by
  have isRanked : statOf info rows e ∈ ranked info rows :=
    ranked_perm.mem_iff.mpr (List.mem_map_of_mem mem)
  have sorted : (ranked info rows).Pairwise fun a b => ranksBefore a.sums b.sums = true := ranked_sorted
  rw [← List.take_append_drop 10 (ranked info rows)] at isRanked sorted
  rcases List.mem_append.mp isRanked with listed | below
  · exact .inl listed
  · refine .inr ⟨?_, fun stat listed => (List.pairwise_append.mp sorted).2.2 stat listed _ below⟩
    have long := List.length_pos_of_mem below
    rw [List.length_drop] at long
    rw [List.length_take]
    omega

end Top

/-- Every daily row belongs to an entry. -/
def Present (db : Db) : Prop := ∀ row ∈ db.daily, row.1.entryId ∈ db.entries

theorem Present.act {s s' : System} {a : Action} (h : Present s.db)
    (taken : Analytics.step s a = some s') : Present s'.db := by
  cases a with
  | addPlay entryId viewerId day =>
    cases taken
    exact h
  | addWatch entryId seconds day =>
    cases taken
    exact h
  | addBytes entryId n day =>
    cases taken
    exact h
  | swap =>
    cases taken
    have same : (Analytics.swap s).db = s.db := by
      unfold Analytics.swap
      split
      · rfl
      · split <;> rfl
    rwa [same]
  | transact flight visited outcomes =>
    simp only [Analytics.step] at taken
    split at taken
    · cases taken
    · split at taken
      · cases taken
        change Present (transact visited outcomes s.db)
        cases isCommit : commits visited outcomes s.db with
        | true =>
          obtain ⟨days, -, same⟩ := written_of_commits isCommit
          rw [same]
          intro row mem
          rw [(upserts_frame visited.days s.db).1]
          exact upserts_entries days h row mem
        | false => rwa [transact_of_rolledBack isCommit]
      · cases taken
  | createEntry =>
    cases taken
    exact fun row mem => List.mem_cons_of_mem _ (h row mem)
  | deleteEntry entryId =>
    cases taken
    intro row mem
    obtain ⟨before, other⟩ := List.mem_filter.mp mem
    exact List.mem_filter.mpr ⟨h row before, other⟩

theorem present_step {s s' : Cluster} {e : Event} (h : Present s.db)
    (taken : Totals.step s e = some s') : Present s'.db := by
  cases e with
  | act node a =>
    obtain ⟨after, acted, rfl⟩ := Option.map_eq_some_iff.mp taken
    exact Present.act h acted
  | prune retentionDays cutoff outcome =>
    simp only [Totals.step] at taken
    split at taken
    · cases taken
      exact h
    · cases taken
      exact fun row mem => h row (List.mem_of_mem_filter mem)
  | pruneViewers i outcome =>
    simp only [Totals.step] at taken
    split at taken
    · cases taken
    · cases taken
      dsimp only
      split <;> exact h

section Runs
variable {enabled : Nat → Bool} {trace : List Event} {s : Cluster}

theorem present_of_run {may : Cluster → Event → Prop}
    (run : Run Totals.step may (start enabled) trace s) : Present s.db :=
  run.invariant (fun s => Present s.db) nofun fun _ _ _ before _ taken => present_step before taken

variable {clock : Clock} {info : Int → Text × Text} {q : Query} {out : AnalyticsSummary}

/-- The page is made of the rows that its statements have found: the totals are theirs, the days add
up to them and go forward, and the list holds the ten entries of the best rank, or all. -/
structure Summarizes (info : Int → Text × Text) (rows rows' rows'' : List Row)
    (out : AnalyticsSummary) : Prop where
  totals : out.totals = totals rows
  series : (out.series.map (·.sums)).sum = sumOf rows'
  forward : (out.series.map (·.day)).Pairwise fun d d' => dayNumber d < dayNumber d'
  days : out.series.length ≤ 367
  ten : out.topEntries.length = min 10 (Summary.totals rows'').entries
  ranks : out.topEntries.Pairwise fun a b => ranksBefore a.sums b.sums = true
  all : (Summary.totals rows'').entries ≤ 10 → (out.topEntries.map (·.sums)).sum = sumOf rows''
  listed : ∀ row ∈ rows'', statOf info rows'' row.1.entryId ∈ out.topEntries ∨
    out.topEntries.length = 10 ∧ ∀ listed ∈ out.topEntries,
      ranksBefore listed.sums (statOf info rows'' row.1.entryId).sums = true

/-- Whatever the nodes have flushed and pruned before the page is asked for and between its
statements, it is made of what these find, and where they find the same rows its parts agree. -/
theorem summary_agrees {trace' trace'' : List Event} {s' s'' : Cluster}
    (run : Run Totals.step Always (start enabled) trace s)
    (between : Run Totals.step Always s trace' s') (again : Run Totals.step Always s' trace'' s'')
    (h : handleAnalyticsSummary clock info ⟨s.db, s'.db, s''.db⟩ q = .ok out) :
    ∃ fromDay toDay f t, analyticsRange clock q = .ok (fromDay, toDay) ∧
      parse fromDay = some f ∧ parse toDay = some t ∧
      Summarizes info (window f t s.db.daily) (window f t s'.db.daily) (window f t s''.db.daily) out ∧
      (window f t s'.db.daily = window f t s.db.daily →
        (out.series.map (·.sums)).sum = out.totals.sums) ∧
      (window f t s''.db.daily = window f t s.db.daily →
        out.topEntries.length = min 10 out.totals.entries ∧
        (out.totals.entries ≤ 10 → (out.topEntries.map (·.sums)).sum = out.totals.sums)) := by
  obtain ⟨fromDay, toDay, f, t, range, parsedFrom, parsedTo, forward, narrow, rfl⟩ := handle_ok h
  have present : ∀ row ∈ window f t s''.db.daily, row.1.entryId ∈ s''.db.entries := fun row mem =>
    present_of_run ((run.append between).append again) row (List.mem_of_mem_filter mem)
  obtain ⟨nodup, inside⟩ := series_days (f := f) (t := t) s'.db.daily s'.db.viewers
  have days := length_le_of_within nodup inside
  rw [List.length_map] at days
  have few : (series s'.db.viewers (window f t s'.db.daily)).length ≤ 367 := by omega
  have made : Summarizes info (window f t s.db.daily) (window f t s'.db.daily)
      (window f t s''.db.daily) ⟨totals (window f t s.db.daily),
        series s'.db.viewers (window f t s'.db.daily),
        topEntries info s''.db.entries (window f t s''.db.daily)⟩ := by
    rw [topEntries_eq present]
    refine ⟨rfl, sum_series _ _, series_increasing _ _, few, ?_, ?_, fun few => ?_, ?_⟩
    · rw [List.length_take, length_ranked]
    · exact ranked_sorted.sublist (List.take_sublist _ _)
    · rw [List.take_of_length_le (length_ranked.le.trans few), sum_ranked]
      rfl
    · exact fun row mem => listed_or_below (mem_keys.mpr ⟨row, mem, rfl⟩)
  refine ⟨fromDay, toDay, f, t, range, parsedFrom, parsedTo, made, fun same => ?_, fun same => ?_⟩
  · exact made.series.trans (congrArg sumOf same)
  · have entries := congrArg (fun rows => (totals rows).entries) same
    exact ⟨made.ten.trans (congrArg (min 10) entries), fun few =>
      (made.all (entries.trans_le few)).trans (congrArg sumOf same)⟩

end Runs

theorem plays_sumOf (rows : List Row) : (sumOf rows).plays = (rows.map fun row => row.2.plays).sum := by
  induction rows with
  | nil => rfl
  | cons row rest ih =>
    have first : sumOf (row :: rest) = row.2 + sumOf rest := rfl
    rw [first, DailyDelta.add_plays, ih, List.map_cons, List.sum_cons]

section Day
variable {day : Text} {db : Db}

/-- A viewer of the day is counted in some row of the day. -/
theorem exists_row (h : Tables day db) {v : ViewerKey} (mem : v ∈ db.viewers) (isDay : v.day = day) :
    ∃ row ∈ db.daily, row.1 = ⟨v.entryId, day⟩ := by
  by_contra! absent
  have seen : 0 < uniqueViewers db.viewers v.entryId day :=
    List.countP_pos_iff.mpr ⟨v, mem, by simp [isFor, isDay]⟩
  have none : playsOf db.daily v.entryId day = 0 := congrArg DailyDelta.plays (Ledger.balance_zero absent)
  have plays := h.plays v.entryId
  omega

theorem rows_entries_nodup (h : Tables day db) :
    ((group (fun row : Row => row.1.day) db.daily day).map fun row => row.1.entryId).Nodup := by
  have keysOf := (List.filter_sublist (l := db.daily) (p := fun row => row.1.day = day)).map Prod.fst
  have nodup := keysOf.nodup h.rows
  refine (List.nodup_map_iff_inj_on (nodup.of_map Prod.fst)).mpr fun row mem row' mem' same => ?_
  have isDay := (mem_group.mp mem).2
  have isDay' := (mem_group.mp mem').2
  refine List.inj_on_of_nodup_map nodup mem mem' ?_
  cases hkey : row.1
  cases hkey' : row'.1
  simp_all

/-- The viewers of a day are at most its plays. -/
theorem viewers_le_plays (h : Tables day db) :
    (db.viewers.countP fun v => v.day = day : Int) ≤
      (sumOf (group (fun row => row.1.day) db.daily day)).plays := by
  set rows := group (fun row : Row => row.1.day) db.daily day
  let ofDay := db.viewers.filter fun v => v.day = day
  have entry (v : ViewerKey) (mem : v ∈ ofDay) : v.entryId ∈ rows.map fun row => row.1.entryId := by
    obtain ⟨stored, isDay⟩ := List.mem_filter.mp mem
    obtain ⟨row, isRow, key⟩ := exists_row h stored (of_decide_eq_true isDay)
    exact List.mem_map.mpr ⟨row, mem_group.mpr ⟨isRow, by rw [key]⟩, by rw [key]⟩
  have split := weight_groups ViewerKey.entryId ofDay (fun _ => (1 : Int)) (rows_entries_nodup h)
  have all : ofDay.filter (fun v => v.entryId ∈ rows.map fun row => row.1.entryId) = ofDay :=
    List.filter_eq_self.mpr fun v mem => decide_eq_true (entry v mem)
  have count (l : List ViewerKey) : weight (fun _ => (1 : Int)) l = l.length := by simp [weight]
  rw [all, count] at split
  rw [List.countP_eq_length_filter, plays_sumOf]
  refine split.symm.trans_le ?_
  rw [List.map_map]
  refine List.sum_le_sum fun row mem => ?_
  obtain ⟨isRow, isDay⟩ := mem_group.mp mem
  have balance := Ledger.balance_of_mem h.rows (show (row.1, row.2) ∈ db.daily from isRow)
  have plays := h.plays row.1.entryId
  have key : (⟨row.1.entryId, day⟩ : DailyKey) = row.1 := by rw [← isDay]
  rw [playsOf, key, balance] at plays
  refine le_trans (le_of_eq ?_) plays
  dsimp only [Function.comp_apply]
  rw [count, group, List.filter_filter, uniqueViewers, List.countP_eq_length_filter]
  congr 2
  exact List.filter_congr fun v _ => (Bool.decide_and _ _).symm

end Day

theorem group_window {f t : Date} {daily : Ledger DailyKey DailyDelta} {day : Text}
    (inside : within f.number t.number day = true) :
    group (fun row : Row => row.1.day) (window f t daily) day =
      group (fun row : Row => row.1.day) daily day := by
  rw [group, window, List.filter_filter]
  refine List.filter_congr fun row _ => ?_
  cases same : decide (row.1.day = day) with
  | true => rw [of_decide_eq_true same, inside, Bool.and_self]
  | false => exact Bool.false_and _

section Runs
variable {enabled : Nat → Bool} {trace : List Event} {s : Cluster} {clock : Clock}
  {info : Int → Text × Text} {q : Query} {out : AnalyticsSummary} {day : Text}

/-- As long as no prune reaches a day, the page shows no more viewers than plays for it: both come
from one statement, whatever the others find. -/
theorem viewers_of_day {before after : Db} (run : Run Totals.step (Keeps day) (start enabled) trace s)
    (h : handleAnalyticsSummary clock info ⟨before, s.db, after⟩ q = .ok out) :
    ∀ point ∈ out.series, point.day = day → (point.uniqueViewers : Int) ≤ point.sums.plays := by
  obtain ⟨_, _, f, t, -, -, -, -, -, rfl⟩ := handle_ok h
  intro point mem isDay
  have inside := (series_days (f := f) (t := t) s.db.daily s.db.viewers).2 day
    (isDay ▸ List.mem_map_of_mem mem)
  obtain ⟨d, -, rfl⟩ := List.mem_map.mp mem
  obtain rfl : d = day := isDay
  have bound := viewers_le_plays (viewed_of_run run).tables
  dsimp only
  rwa [group_window inside]

end Runs

/-- A clock that shows the day of the runs. -/
def newYear : Clock where
  today := today
  earlier := "2025-12-19".toList
  last := (parse today).get (by decide +kernel)
  first := (parse "2025-12-19".toList).get (by decide +kernel)
  isToday := (Option.some_get _).symm
  isEarlier := (Option.some_get _).symm
  apart := by decide +kernel
  modern := by decide +kernel

def noTitles (_ : Int) : Text × Text := ([], [])

/-- What a run finds that nothing else goes on beside. -/
def Reads.alone (db : Db) : Reads := ⟨db, db, db⟩

theorem summary_agrees_firstDayPruned :
    ∃ s out, Run Totals.step Always (start fun _ => true) firstDayPruned s ∧
      handleAnalyticsSummary newYear noTitles (.alone s.db) ⟨[], []⟩ = .ok out ∧
      out.totals.sums = ⟨0, 0, 100⟩ ∧ (out.series.map (·.sums)).sum = out.totals.sums := by
  obtain ⟨s, run, done⟩ : ∃ s, Run Totals.step Always (start fun _ => true) firstDayPruned s ∧
      decide (s.db.daily = [(⟨1, today⟩, ⟨0, 0, 100⟩)]) = true := exists_always (by decide +kernel)
  have answered := handle_default newYear noTitles (.alone s.db)
  obtain ⟨_, _, _, _, _, _, _, _, agrees, _⟩ := summary_agrees run .start .start answered
  refine ⟨s, _, run, answered, ?_, agrees rfl⟩
  dsimp only [Reads.alone]
  rw [of_decide_eq_true done]
  decide +kernel

theorem viewers_of_day_oneViewer :
    ∃ s out, Run Totals.step (Keeps today) (start fun _ => true) oneViewer s ∧
      handleAnalyticsSummary newYear noTitles (.alone s.db) ⟨[], []⟩ = .ok out ∧
      ∀ point ∈ out.series, point.day = today → (point.uniqueViewers : Int) ≤ point.sums.plays := by
  obtain ⟨s, run, -⟩ : ∃ s, Run Totals.step (Keeps today) (start fun _ => true) oneViewer s ∧
      true = true :=
    exists_run (fun _ _ => of_decide_eq_true)
      (by decide +kernel)
  have answered := handle_default newYear noTitles (.alone s.db)
  exact ⟨s, _, run, answered, viewers_of_day run answered⟩

end Vidsilo.Analytics.Summary
