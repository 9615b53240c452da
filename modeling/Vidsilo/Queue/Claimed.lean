import Mathlib.Data.Finset.Card
import Mathlib.Data.List.Perm.Basic
import Vidsilo.Jobs.Tables

/-!
# How many jobs a claim takes

Source: internal/queue/queue.go:115-192 (`Claim` without exclusions, while no other transaction is
open). `LIMIT` cuts the rows off before the loop drops the later transcodes of an entry, so a claim
takes fewer jobs than it could (`claim_takes_iff`). The subquery for downloads counts every queued
one, so a download that is not due yet, or paused, holds up the others (`download_claimed_iff`).
-/
namespace Vidsilo.Queue.Claimed
open Table Claim
open Vidsilo.Jobs.Tables (addJob row_addJob)

/-- What `Claim` returns. -/
def claim (jobs : Jobs) (n : Nat) (now : Int) : List JobId :=
  keepFirst jobs [] (selectDue jobs n [] now fun _ => false)

/-- Queued, not paused and not waiting. -/
def due (now : Int) (j : Job) : Bool :=
  j.status = .queued && decide (j.runAt ≤ now) && j.pauseRequestedAt.isNone

/-- Due jobs that are neither transcode nor download. -/
def dueOthers (jobs : Jobs) (now : Int) : List JobId :=
  jobs.matching fun _ j => due now j && decide (j.type ≠ .transcode) && decide (j.type ≠ .download)

/-- Entries with a due transcode and no running one. -/
def dueEntries (jobs : Jobs) (now : Int) : Finset Int :=
  ((jobs.matching fun _ j => due now j && decide (j.type = .transcode)).filterMap
    fun id => (jobs.row id).bind (·.entryId)).toFinset.filter fun e =>
      ¬ jobs.exists fun _ j => j.type = .transcode && j.status = .running && j.entryId = some e

def queuedDownloads (jobs : Jobs) : List JobId :=
  jobs.matching fun _ j => j.type = .download && j.status = .queued

def downloadRuns (jobs : Jobs) : Bool :=
  jobs.exists fun _ j => j.type = .download && j.status = .running

/-- The first queued download is due. -/
def firstDownloadDue (jobs : Jobs) (now : Int) : Bool :=
  (queuedDownloads jobs).head?.any fun id => (jobs.row id).any (due now)

/-- The units that can be claimed. -/
def units (jobs : Jobs) (now : Int) : Nat :=
  (dueOthers jobs now).length + (dueEntries jobs now).card +
    if ¬ downloadRuns jobs ∧ firstDownloadDue jobs now then 1 else 0

/-- Every transcode has an entry: `EnqueueAt` sets it, and it is deleted with the entry. -/
def Assigned (jobs : Jobs) : Prop :=
  ∀ id j, jobs.row id = some j → j.type = .transcode → j.entryId ≠ none

/-- As many jobs as there can be, and no two transcodes of one entry. -/
structure Takes (jobs : Jobs) (n : Nat) (now : Int) : Prop where
  count : (claim jobs n now).length = min n (units jobs now)
  once : ∀ id ∈ claim jobs n now, ∀ id' ∈ claim jobs n now, ∀ e,
    (jobs.row id).bind transcodeEntry = some e → (jobs.row id').bind transcodeEntry = some e →
      id = id'

def candidates (jobs : Jobs) (now : Int) : List JobId := jobs.matching (claimable jobs [] now)

def entryOf (jobs : Jobs) (id : JobId) : Option Int := (jobs.row id).bind transcodeEntry

/-- The first rows that can be claimed hold no two transcodes of one entry, or one of each entry
that the other rows are transcodes of. -/
def Unrepeated (jobs : Jobs) (n : Nat) (now : Int) : Prop :=
  (((candidates jobs now).take n).filterMap (entryOf jobs)).Nodup ∨
    ∀ id ∈ (candidates jobs now).drop n, ∃ e ∈ ((candidates jobs now).take n).filterMap (entryOf jobs),
      entryOf jobs id = some e

section Kept
variable {jobs : Jobs} {seen : List Int} {ids early later : List JobId} {id : JobId} {e : Int}

/-- Rows that are not transcodes of an entry. -/
def loose (jobs : Jobs) (ids : List JobId) : List JobId :=
  ids.filter fun id => (entryOf jobs id).isNone

theorem loose_cons_none (h : entryOf jobs id = none) :
    loose jobs (id :: ids) = id :: loose jobs ids :=
  List.filter_cons_of_pos (by rw [h]; rfl)

theorem loose_cons_some (h : entryOf jobs id = some e) : loose jobs (id :: ids) = loose jobs ids :=
  List.filter_cons_of_neg (by rw [h]; simp)

theorem loose_keepFirst : loose jobs (keepFirst jobs seen ids) = loose jobs ids := by
  induction ids generalizing seen with
  | nil => rfl
  | cons id rest ih =>
    rw [keepFirst]
    split
    · next isLoose => rw [loose_cons_none isLoose, loose_cons_none isLoose, ih]
    · next e isEntry =>
      split
      · rw [loose_cons_some isEntry, ih]
      · rw [loose_cons_some isEntry, loose_cons_some isEntry, ih]

/-- An entry that is new is one more. -/
theorem card_insert_sdiff {α : Type} [DecidableEq α] {a : α} {s t : Finset α} (fresh : a ∉ t) :
    (insert a s \ t).card = (s \ insert a t).card + 1 := by
  have same : insert a s \ t = insert a (s \ insert a t) := by
    ext b
    by_cases here : b = a
    · simp [here, fresh]
    · simp [here]
  rw [same, Finset.card_insert_of_notMem (by simp)]

/-- Each entry that has not been seen is kept once. -/
theorem length_keepFirst : (keepFirst jobs seen ids).length =
    (loose jobs ids).length + ((ids.filterMap (entryOf jobs)).toFinset \ seen.toFinset).card := by
  induction ids generalizing seen with
  | nil => simp [keepFirst, loose]
  | cons id rest ih =>
    rw [keepFirst]
    split
    · next isLoose =>
      rw [List.filterMap_cons_none (f := entryOf jobs) isLoose, loose_cons_none isLoose, List.length_cons,
        List.length_cons, ih]
      omega
    · next e isEntry =>
      rw [List.filterMap_cons_some (f := entryOf jobs) isEntry, loose_cons_some isEntry, List.toFinset_cons]
      split
      · next before =>
        rw [ih, Finset.insert_sdiff_of_mem _ (List.mem_toFinset.mpr before)]
      · next first =>
        rw [card_insert_sdiff fun mem => first (List.mem_toFinset.mp mem), List.length_cons, ih,
          List.toFinset_cons]
        omega

/-- What is kept of all rows is counted by rows and entries. -/
theorem length_keepFirst_nil : (keepFirst jobs [] ids).length =
    (loose jobs ids).length + (ids.filterMap (entryOf jobs)).toFinset.card := by
  rw [length_keepFirst, List.toFinset_nil, Finset.sdiff_empty]

end Kept

section Candidates
variable {jobs : Jobs} {now : Int} {id : JobId} {j : Job} {n : Nat}

theorem due_iff : due now j = true ↔
    j.status = .queued ∧ j.runAt ≤ now ∧ j.pauseRequestedAt = none := by
  simp [due, and_assoc]

theorem mem_queuedDownloads : id ∈ queuedDownloads jobs ↔
    ∃ j, jobs.row id = some j ∧ j.type = .download ∧ j.status = .queued := by
  simp [queuedDownloads, Jobs.mem_matching]

/-- The first of the queued downloads is the one with the least id. -/
theorem head_queuedDownloads : (queuedDownloads jobs).head? = some id ↔
    id ∈ queuedDownloads jobs ∧ ∀ id' ∈ queuedDownloads jobs, id ≤ id' := by
  have sorted : (queuedDownloads jobs).Pairwise (· < ·) := List.pairwise_lt_range.filter _
  cases list : queuedDownloads jobs with
  | nil => simp
  | cons first rest =>
    rw [list, List.pairwise_cons] at sorted
    simp only [List.head?_cons, Option.some.injEq, List.mem_cons, forall_eq_or_imp]
    constructor
    · rintro rfl
      exact ⟨.inl rfl, Nat.le_refl _, fun id' mem => Nat.le_of_lt (sorted.1 id' mem)⟩
    · rintro ⟨rfl | later, least, _⟩
      · rfl
      · have less : first < id := sorted.1 id later
        exact absurd less (Nat.not_lt.mpr least)

/-- No queued download comes before this one. -/
theorem head_iff_not_exists (isRow : jobs.row id = some j) (isDownload : j.type = .download)
    (queued : j.status = .queued) : (queuedDownloads jobs).head? = some id ↔
      (jobs.exists fun id2 j2 => j2.type = .download && j2.status = .queued &&
        decide (id2 < id)) = false := by
  rw [head_queuedDownloads, ← Bool.not_eq_true, Jobs.exists_iff]
  constructor
  · rintro ⟨_, least⟩ ⟨id2, j2, isRow2, earlier⟩
    simp only [Bool.and_eq_true, decide_eq_true_eq] at earlier
    have first := least id2 (mem_queuedDownloads.mpr ⟨j2, isRow2, earlier.1⟩)
    exact absurd earlier.2 (Nat.not_lt.mpr first)
  · intro none
    refine ⟨mem_queuedDownloads.mpr ⟨j, isRow, isDownload, queued⟩, fun id' mem => ?_⟩
    obtain ⟨j2, isRow2, isDownload2, queued2⟩ := mem_queuedDownloads.mp mem
    by_contra earlier
    exact none ⟨id', j2, isRow2, by simp [isDownload2, queued2, Nat.lt_of_not_le earlier]⟩

/-- What the WHERE clause asks for, by the type of the job. -/
theorem claimable_iff (isRow : jobs.row id = some j) : claimable jobs [] now id j = true ↔
    due now j = true ∧
      (j.type = .download → downloadRuns jobs = false ∧ (queuedDownloads jobs).head? = some id) ∧
      (j.type = .transcode → ∀ e, j.entryId = some e → (jobs.exists fun _ j2 =>
        j2.type = .transcode && j2.status = .running && j2.entryId = some e) = false) := by
  have base : claimable jobs [] now id j = true ↔ due now j = true ∧
      (j.type = .download → downloadRuns jobs = false ∧ (jobs.exists fun id2 j2 =>
        j2.type = .download && j2.status = .queued && decide (id2 < id)) = false) ∧
      (j.type = .transcode → (jobs.exists fun _ j2 => j2.type = .transcode &&
        j2.status = .running && j.entryId.isSome && j2.entryId = j.entryId) = false) := by
    unfold claimable due downloadRuns
    cases isType : j.type with
    | download => simp [serialized, and_assoc]
    | transcode => simp [serialized, and_assoc]
    | probe => simp [serialized, and_assoc]
    | other name => simp [serialized, and_assoc]
  rw [base]
  refine and_congr_right fun isDue => and_congr ?_ ?_
  · refine forall_congr' fun isDownload => and_congr_right fun _ => ?_
    exact (head_iff_not_exists isRow isDownload (due_iff.mp isDue).1).symm
  · refine forall_congr' fun _ => ?_
    cases j.entryId with
    | none => simp [← Bool.not_eq_true, Jobs.exists_iff]
    | some e => simp

theorem mem_candidates : id ∈ candidates jobs now ↔
    ∃ j, jobs.row id = some j ∧ claimable jobs [] now id j = true := Jobs.mem_matching

theorem nodup_candidates : (candidates jobs now).Nodup := Jobs.nodup_matching _ _

/-- Lists without repetitions that have the same members are of one length. -/
theorem length_eq_of_mem {α : Type} {l l' : List α} (nodup : l.Nodup) (nodup' : l'.Nodup)
    (same : ∀ a, a ∈ l ↔ a ∈ l') : l.length = l'.length :=
  ((List.perm_ext_iff_of_nodup nodup nodup').mpr same).length_eq

theorem entryOf_iff (isRow : jobs.row id = some j) {e : Int} :
    entryOf jobs id = some e ↔ j.type = .transcode ∧ j.entryId = some e := by
  rw [entryOf, isRow, Option.bind_some, transcodeEntry]
  simp

/-- The entries of the rows that can be claimed. -/
theorem entries_candidates :
    ((candidates jobs now).filterMap (entryOf jobs)).toFinset = dueEntries jobs now := by
  ext e
  simp only [List.mem_toFinset, List.mem_filterMap, dueEntries, Finset.mem_filter,
    Jobs.mem_matching, Bool.and_eq_true, decide_eq_true_eq, Bool.not_eq_true]
  constructor
  · rintro ⟨id, mem, isEntry⟩
    obtain ⟨j, isRow, claims⟩ := mem_candidates.mp mem
    obtain ⟨isTranscode, isEntry⟩ := (entryOf_iff isRow).mp isEntry
    obtain ⟨isDue, _, free⟩ := (claimable_iff isRow).mp claims
    exact ⟨⟨id, ⟨j, isRow, isDue, isTranscode⟩, by rw [isRow, Option.bind_some, isEntry]⟩,
      free isTranscode e isEntry⟩
  · rintro ⟨⟨id, ⟨j, isRow, isDue, isTranscode⟩, isEntry⟩, free⟩
    rw [isRow, Option.bind_some] at isEntry
    refine ⟨id, mem_candidates.mpr ⟨j, isRow, (claimable_iff isRow).mpr ⟨isDue, ?_, ?_⟩⟩,
      (entryOf_iff isRow).mpr ⟨isTranscode, isEntry⟩⟩
    · rw [isTranscode]
      exact nofun
    · intro _ e' isEntry'
      cases isEntry.symm.trans isEntry'
      exact free

def isDownload (jobs : Jobs) (id : JobId) : Bool := (jobs.row id).any (·.type = .download)

/-- The only download that can be claimed is the first queued one. -/
theorem mem_download : id ∈ candidates jobs now ∧ isDownload jobs id = true ↔
    downloadRuns jobs = false ∧ (queuedDownloads jobs).head? = some id ∧
      (jobs.row id).any (due now) = true := by
  constructor
  · rintro ⟨mem, isDl⟩
    obtain ⟨j, isRow, claims⟩ := mem_candidates.mp mem
    rw [isDownload, isRow] at isDl
    obtain ⟨isDue, alone, _⟩ := (claimable_iff isRow).mp claims
    obtain ⟨idle, first⟩ := alone (of_decide_eq_true isDl)
    exact ⟨idle, first, by rw [isRow]; exact isDue⟩
  · rintro ⟨idle, first, isDue⟩
    obtain ⟨j, isRow, isDl, _⟩ := mem_queuedDownloads.mp (head_queuedDownloads.mp first).1
    rw [isRow] at isDue
    refine ⟨mem_candidates.mpr ⟨j, isRow, (claimable_iff isRow).mpr ⟨isDue, ?_, ?_⟩⟩, ?_⟩
    · exact fun _ => ⟨idle, first⟩
    · rw [isDl]
      exact nofun
    · rw [isDownload, isRow]
      exact decide_eq_true isDl

theorem mem_loose_candidates (assigned : Assigned jobs) : id ∈ loose jobs (candidates jobs now) ↔
    ∃ j, jobs.row id = some j ∧ claimable jobs [] now id j = true ∧ j.type ≠ .transcode := by
  rw [loose, List.mem_filter, mem_candidates, Option.isNone_iff_eq_none]
  constructor
  · rintro ⟨⟨j, isRow, claims⟩, none⟩
    refine ⟨j, isRow, claims, fun isTranscode => ?_⟩
    obtain ⟨e, isEntry⟩ := Option.ne_none_iff_exists'.mp (assigned id j isRow isTranscode)
    rw [(entryOf_iff isRow).mpr ⟨isTranscode, isEntry⟩] at none
    cases none
  · rintro ⟨j, isRow, claims, other⟩
    refine ⟨⟨j, isRow, claims⟩, ?_⟩
    by_contra some
    obtain ⟨e, isEntry⟩ := Option.ne_none_iff_exists'.mp some
    exact other ((entryOf_iff isRow).mp isEntry).1

theorem length_others (assigned : Assigned jobs) :
    ((loose jobs (candidates jobs now)).filter fun id => ! isDownload jobs id).length =
      (dueOthers jobs now).length := by
  apply length_eq_of_mem
  · exact (nodup_candidates.filter _).filter _
  · exact Jobs.nodup_matching _ _
  · intro id
    rw [List.mem_filter, mem_loose_candidates assigned, dueOthers, Jobs.mem_matching]
    constructor
    · rintro ⟨⟨j, isRow, claims, other⟩, notDl⟩
      have isDue := ((claimable_iff isRow).mp claims).1
      rw [isDownload, isRow] at notDl
      exact ⟨j, isRow, by simpa [isDue, other] using notDl⟩
    · rintro ⟨j, isRow, plain⟩
      simp only [Bool.and_eq_true, decide_eq_true_eq] at plain
      obtain ⟨⟨isDue, other⟩, notDl⟩ := plain
      refine ⟨⟨j, isRow, (claimable_iff isRow).mpr ⟨isDue, ?_, ?_⟩, other⟩, ?_⟩
      · exact fun isDl => absurd isDl notDl
      · exact fun isTranscode => absurd isTranscode other
      · rw [isDownload, isRow]
        simpa using notDl

theorem length_downloads (assigned : Assigned jobs) :
    ((loose jobs (candidates jobs now)).filter (isDownload jobs)).length =
      if ¬ downloadRuns jobs ∧ firstDownloadDue jobs now then 1 else 0 := by
  have same (id : JobId) : id ∈ (loose jobs (candidates jobs now)).filter (isDownload jobs) ↔
      downloadRuns jobs = false ∧ (queuedDownloads jobs).head? = some id ∧
        (jobs.row id).any (due now) = true := by
    rw [← mem_download, List.mem_filter]
    refine and_congr_left fun isDl => ?_
    rw [mem_loose_candidates assigned, mem_candidates]
    refine exists_congr fun j => and_congr_right fun isRow => and_iff_left ?_
    rw [isDownload, isRow] at isDl
    rw [of_decide_eq_true isDl]
    exact nofun
  split
  · next alone =>
    obtain ⟨idle, first⟩ := alone
    obtain ⟨id, isFirst, isDue⟩ := (Option.any_eq_true _ _).mp first
    change _ = [id].length
    refine length_eq_of_mem ((nodup_candidates.filter _).filter _) (List.nodup_singleton id)
      fun id' => ?_
    rw [same, List.mem_singleton, isFirst]
    constructor
    · rintro ⟨_, first, _⟩
      exact (Option.some.inj first).symm
    · rintro rfl
      exact ⟨by simpa using idle, rfl, isDue⟩
  · next held =>
    rw [List.length_eq_zero_iff, List.eq_nil_iff_forall_not_mem]
    intro id mem
    obtain ⟨idle, first, isDue⟩ := (same id).mp mem
    apply held
    rw [firstDownloadDue, first]
    exact ⟨by simp [idle], isDue⟩

/-- Without a limit a claim takes every unit. -/
theorem length_keepFirst_candidates (assigned : Assigned jobs) :
    (keepFirst jobs [] (candidates jobs now)).length = units jobs now := by
  have split : (loose jobs (candidates jobs now)).length = _ :=
    List.length_eq_length_filter_add (isDownload jobs)
  rw [length_keepFirst_nil, entries_candidates, units, split, length_downloads assigned,
    length_others assigned]
  omega

end Candidates

section Limit
variable {jobs : Jobs} {ids early later : List JobId} {n : Nat} {now : Int}

theorem length_loose (jobs : Jobs) (ids : List JobId) :
    ids.length = (loose jobs ids).length + (ids.filterMap (entryOf jobs)).length := by
  induction ids with
  | nil => rfl
  | cons id rest ih =>
    cases isEntry : entryOf jobs id with
    | none =>
      rw [loose_cons_none isEntry, List.filterMap_cons_none isEntry, List.length_cons,
        List.length_cons, ih]
      omega
    | some e =>
      rw [loose_cons_some isEntry, List.filterMap_cons_some isEntry, List.length_cons,
        List.length_cons, ih]
      omega

/-- All rows are kept if and only if no entry comes twice. -/
theorem length_keepFirst_eq_iff :
    (keepFirst jobs [] ids).length = ids.length ↔ (ids.filterMap (entryOf jobs)).Nodup := by
  have distinct (l : List Int) : l.toFinset.card = l.length ↔ l.Nodup :=
    Multiset.toFinset_card_eq_card_iff_nodup (m := (l : Multiset Int))
  rw [length_keepFirst_nil, ← distinct]
  have rows := length_loose jobs ids
  omega

theorem length_keepFirst_append : (keepFirst jobs [] (early ++ later)).length =
    (loose jobs early).length + (loose jobs later).length +
      ((early.filterMap (entryOf jobs)).toFinset ∪ (later.filterMap (entryOf jobs)).toFinset).card := by
  rw [length_keepFirst_nil, loose, List.filter_append, List.length_append, List.filterMap_append,
    List.toFinset_append]
  rfl

theorem length_keepFirst_le : (keepFirst jobs [] early).length ≤
    (keepFirst jobs [] (early ++ later)).length := by
  have more : (early.filterMap (entryOf jobs)).toFinset.card ≤
      ((early.filterMap (entryOf jobs)).toFinset ∪
        (later.filterMap (entryOf jobs)).toFinset).card :=
    Finset.card_le_card Finset.subset_union_left
  rw [length_keepFirst_append, length_keepFirst_nil]
  omega

/-- More rows add nothing if and only if they are transcodes of entries that are there. -/
theorem length_keepFirst_append_iff :
    (keepFirst jobs [] (early ++ later)).length = (keepFirst jobs [] early).length ↔
      ∀ id ∈ later, ∃ e ∈ early.filterMap (entryOf jobs), entryOf jobs id = some e := by
  rw [length_keepFirst_append, length_keepFirst_nil]
  generalize entries : (early.filterMap (entryOf jobs)).toFinset = known
  have isKnown (e : Int) : e ∈ early.filterMap (entryOf jobs) ↔ e ∈ known := by
    rw [← entries, List.mem_toFinset]
  simp only [isKnown]
  constructor
  · intro same id mem
    have more : known.card ≤ (known ∪ (later.filterMap (entryOf jobs)).toFinset).card :=
      Finset.card_le_card Finset.subset_union_left
    have none : loose jobs later = [] := List.length_eq_zero_iff.mp (by omega)
    have old : known = known ∪ (later.filterMap (entryOf jobs)).toFinset :=
      Finset.eq_of_subset_of_card_le Finset.subset_union_left (by omega)
    cases isEntry : entryOf jobs id with
    | none =>
      have isLoose : id ∈ loose jobs later := List.mem_filter.mpr ⟨mem, by rw [isEntry]; rfl⟩
      rw [none] at isLoose
      cases isLoose
    | some e =>
      refine ⟨e, ?_, rfl⟩
      rw [old]
      exact Finset.mem_union_right _
        (List.mem_toFinset.mpr (List.mem_filterMap.mpr ⟨id, mem, isEntry⟩))
  · intro all
    have none : loose jobs later = [] := by
      rw [loose, List.filter_eq_nil_iff]
      intro id mem
      obtain ⟨e, _, isEntry⟩ := all id mem
      simp [isEntry]
    have old : known ∪ (later.filterMap (entryOf jobs)).toFinset = known := by
      rw [Finset.union_eq_left]
      intro e mem
      obtain ⟨id, inLater, isEntry⟩ := List.mem_filterMap.mp (List.mem_toFinset.mp mem)
      obtain ⟨e', isKnown', isEntry'⟩ := all id inLater
      cases isEntry.symm.trans isEntry'
      exact isKnown'
    rw [none, old]
    simp

theorem claim_eq (jobs : Jobs) (n : Nat) (now : Int) :
    claim jobs n now = keepFirst jobs [] ((candidates jobs now).take n) := by
  have all : (jobs.matching (claimable jobs [] now)).filter (fun _ => ! false) =
      candidates jobs now := List.filter_eq_self.mpr fun _ _ => rfl
  rw [claim, selectDue, all]

/-- For every table with no claim in progress, a claim returns as many jobs as there can be, none
of them two transcodes of one entry, if and only if the first rows that can be claimed hold no two
transcodes of one entry, or all others are transcodes of entries that they hold one of. -/
theorem claim_takes_iff (jobs : Jobs) (n : Nat) (now : Int) (assigned : Assigned jobs) :
    Takes jobs n now ↔ Unrepeated jobs n now := by
  have counted : Takes jobs n now ↔ (claim jobs n now).length = min n (units jobs now) :=
    ⟨Takes.count, fun count => ⟨count, fun _ mem _ mem' _ => keepFirst_unique mem mem'⟩⟩
  rw [counted, claim_eq, ← length_keepFirst_candidates assigned, Unrepeated,
    ← length_keepFirst_eq_iff, ← length_keepFirst_append_iff, List.take_append_drop]
  have fewer : (keepFirst jobs [] ((candidates jobs now).take n)).length ≤
      ((candidates jobs now).take n).length := (keepFirst_sublist _ _ _).length_le
  have more : (keepFirst jobs [] ((candidates jobs now).take n)).length ≤
      (keepFirst jobs [] ((candidates jobs now).take n ++ (candidates jobs now).drop n)).length :=
    length_keepFirst_le
  rw [List.take_append_drop] at more
  rcases Nat.lt_or_ge n (candidates jobs now).length with cut | all
  · rw [List.length_take] at fewer ⊢
    omega
  · rw [List.take_of_length_le all] at fewer ⊢
    omega

end Limit

/-- A row that is not a transcode of an entry is not dropped. -/
theorem mem_keepFirst_of_loose {jobs : Jobs} {ids : List JobId} {id : JobId} (mem : id ∈ ids)
    (isLoose : entryOf jobs id = none) : id ∈ keepFirst jobs [] ids := by
  have kept : id ∈ loose jobs (keepFirst jobs [] ids) := by
    rw [loose_keepFirst]
    exact List.mem_filter.mpr ⟨mem, by rw [isLoose]; rfl⟩
  exact List.mem_of_mem_filter kept

theorem entryOf_download {jobs : Jobs} {id : JobId} (h : isDownload jobs id = true) :
    entryOf jobs id = none := by
  obtain ⟨j, isRow, isDl⟩ := (Option.any_eq_true _ _).mp h
  rw [entryOf, isRow, Option.bind_some, transcodeEntry, of_decide_eq_true isDl]
  rfl

/-- With room for all due jobs, everything that can be claimed is looked at. -/
theorem take_candidates {jobs : Jobs} {n : Nat} {now : Int}
    (room : (jobs.matching fun _ j => due now j).length ≤ n) :
    (candidates jobs now).take n = candidates jobs now := by
  apply List.take_of_length_le
  refine Nat.le_trans ?_ room
  apply List.Subperm.length_le
  refine nodup_candidates.subperm fun id mem => ?_
  obtain ⟨j, isRow, claims⟩ := mem_candidates.mp mem
  exact Jobs.mem_matching.mpr ⟨j, isRow, ((claimable_iff isRow).mp claims).1⟩

/-- With no download running and room for all due jobs, a claim returns a download if and only if
the first queued download is due and not paused. -/
theorem download_claimed_iff (jobs : Jobs) (n : Nat) (now : Int) (idle : downloadRuns jobs = false)
    (room : (jobs.matching fun _ j => due now j).length ≤ n) :
    (∃ id ∈ claim jobs n now, isDownload jobs id = true) ↔ firstDownloadDue jobs now = true := by
  rw [claim_eq, take_candidates room]
  constructor
  · rintro ⟨id, mem, isDl⟩
    obtain ⟨_, first, isDue⟩ := mem_download.mp ⟨(keepFirst_sublist _ _ _).subset mem, isDl⟩
    rw [firstDownloadDue, first]
    exact isDue
  · intro isFirst
    obtain ⟨id, first, isDue⟩ := (Option.any_eq_true _ _).mp isFirst
    obtain ⟨mem, isDl⟩ := mem_download.mpr ⟨idle, first, isDue⟩
    exact ⟨id, mem_keepFirst_of_loose mem (entryOf_download isDl), isDl⟩

theorem assigned_addJob {jobs : Jobs} {j : Job} (h : Assigned jobs)
    (new : j.type = .transcode → j.entryId ≠ none) : Assigned (addJob jobs j) := by
  intro id j' isRow isTranscode
  rw [row_addJob] at isRow
  split at isRow
  · cases isRow
    exact new isTranscode
  · exact h id j' isRow isTranscode

theorem assigned_empty : Assigned Jobs.empty := fun _ _ isRow => nomatch isRow

def transcodeOf (entry : Int) : Job := enqueueAt .transcode (some entry) (some 1) 3 none 0

def downloadOf (entry : Int) : Job := enqueueAt .download (some entry) none 2 none 0

/-- Two transcodes of one entry before one of another. -/
def twoEntries : Jobs :=
  addJob (addJob (addJob Jobs.empty (transcodeOf 1)) (transcodeOf 1)) (transcodeOf 2)

theorem assigned_twoEntries : Assigned twoEntries :=
  assigned_addJob (assigned_addJob (assigned_addJob assigned_empty nofun) nofun) nofun

theorem claim_takes_three : Takes twoEntries 3 0 ↔ Unrepeated twoEntries 3 0 :=
  claim_takes_iff twoEntries 3 0 assigned_twoEntries

/-- There are two units, but the two rows that are selected are of one entry. -/
theorem second_entry_left : Assigned twoEntries ∧ units twoEntries 0 = 2 ∧
    claim twoEntries 2 0 = [0] ∧ ¬ Takes twoEntries 2 0 := by
  have taken : claim twoEntries 2 0 = [0] := by decide
  have possible : units twoEntries 0 = 2 := by decide
  refine ⟨assigned_twoEntries, possible, taken, fun takes => ?_⟩
  have count := takes.count
  rw [taken, possible] at count
  exact absurd count (by decide)

/-- The first of two due downloads is paused. -/
def pausedDownload : Jobs :=
  (addJob (addJob Jobs.empty (downloadOf 1)) (downloadOf 2)).updateWhere (pause 0 0)

def resumedDownload : Jobs := pausedDownload.updateWhere (resume 0)

theorem download_claimed_resumed :
    (∃ id ∈ claim resumedDownload 2 0, isDownload resumedDownload id = true) ↔
      firstDownloadDue resumedDownload 0 = true :=
  download_claimed_iff resumedDownload 2 0 (by decide) (by decide)

theorem paused_download_holds_up :
    downloadRuns pausedDownload = false ∧
      (pausedDownload.row 1).any (fun j => j.type = .download && due 0 j) = true ∧
      (pausedDownload.matching fun _ j => due 0 j).length ≤ 2 ∧
      ¬ ∃ id ∈ claim pausedDownload 2 0, isDownload pausedDownload id = true := by
  decide

end Vidsilo.Queue.Claimed
