import Mathlib.Data.List.Dedup
import Mathlib.Data.List.Sort
import Vidsilo.Queue.Table

/-!
# What one claim transaction reads and takes

Source: internal/queue/queue.go:68-177 (`Claim` up to its UPDATE). The transaction
asks for the entries with due transcodes, locks them in ascending order, selects due
rows with a second statement and keeps one transcode of each entry. `now` is the
start of the transaction in both statements.
-/
namespace Vidsilo.Queue.Claim
open Table

def serialized : List JobType := [.download]

/-- The entry of a transcode job. -/
def transcodeEntry (j : Job) : Option Int := if j.type = .transcode then j.entryId else none

/-- First statement: `entryIDs`, sorted. A paused job still counts. -/
def dueTranscodeEntries (jobs : Jobs) (now : Int) : List Int :=
  let due := jobs.matching fun _ j => j.type = .transcode && j.status = .queued && decide (j.runAt ≤ now)
  ((due.filterMap fun id => (jobs.row id).bind (·.entryId)).dedup).insertionSort (· ≤ ·)

/-- The WHERE clause of the second statement. -/
def claimable (jobs : Jobs) (exclude : List JobType) (now : Int) (id : JobId) (j : Job) : Bool :=
  j.status = .queued && decide (j.runAt ≤ now) && j.pauseRequestedAt.isNone &&
  decide (j.type ∉ exclude) &&
  (decide (j.type ∉ serialized) ||
    (!jobs.exists fun _ j2 => j2.type = j.type && j2.status = .running) &&
    !jobs.exists fun id2 j2 => j2.type = j.type && j2.status = .queued && decide (id2 < id)) &&
  (decide (j.type ≠ .transcode) ||
    !jobs.exists fun _ j2 => j2.type = .transcode && j2.status = .running &&
      j.entryId.isSome && j2.entryId = j.entryId)

/-- Second statement, with the rows that other transactions hold locked. -/
def selectDue (jobs : Jobs) (limit : Nat) (exclude : List JobType) (now : Int)
    (locked : JobId → Bool) : List JobId :=
  ((jobs.matching (claimable jobs exclude now)).filter fun id => ! locked id).take limit

/-- The loop that keeps the earliest transcode of each entry. -/
def keepFirst (jobs : Jobs) (seen : List Int) : List JobId → List JobId
  | [] => []
  | id :: rest =>
    match (jobs.row id).bind transcodeEntry with
    | none => id :: keepFirst jobs seen rest
    | some e => if e ∈ seen then keepFirst jobs seen rest else id :: keepFirst jobs (e :: seen) rest

theorem mem_selectDue {jobs : Jobs} {limit : Nat} {exclude : List JobType} {now : Int}
    {locked : JobId → Bool} {id : JobId} (h : id ∈ selectDue jobs limit exclude now locked) :
    locked id = false ∧ ∃ j, jobs.row id = some j ∧ claimable jobs exclude now id j = true := by
  have hmem := List.mem_filter.mp (List.mem_of_mem_take h)
  exact ⟨by simpa using hmem.2, Jobs.mem_matching.mp hmem.1⟩

theorem nodup_selectDue (jobs : Jobs) (limit : Nat) (exclude : List JobType) (now : Int)
    (locked : JobId → Bool) : (selectDue jobs limit exclude now locked).Nodup :=
  ((jobs.nodup_matching _).filter _).sublist (List.take_sublist _ _)

theorem keepFirst_sublist (jobs : Jobs) (seen : List Int) (ids : List JobId) :
    (keepFirst jobs seen ids).Sublist ids := by
  induction ids generalizing seen with
  | nil => exact .slnil
  | cons id rest ih =>
    rw [keepFirst]
    split
    · exact (ih seen).cons_cons id
    · split
      · exact (ih seen).cons id
      · exact (ih _).cons_cons id

theorem keepFirst_not_seen {jobs : Jobs} {seen : List Int} {ids : List JobId} {id : JobId} {e : Int}
    (h : id ∈ keepFirst jobs seen ids) (he : (jobs.row id).bind transcodeEntry = some e) :
    e ∉ seen := by
  induction ids generalizing seen with
  | nil => simp [keepFirst] at h
  | cons i rest ih =>
    rw [keepFirst] at h
    split at h
    next hnone =>
      rcases List.mem_cons.mp h with rfl | h
      · simp [hnone] at he
      · exact ih h
    next e' he' =>
      split at h
      · exact ih h
      next hseen =>
        rcases List.mem_cons.mp h with rfl | h
        · rw [he', Option.some.injEq] at he
          exact he ▸ hseen
        · exact fun hm => ih h (List.mem_cons_of_mem _ hm)

/-- Two kept transcodes of one entry are the same job. -/
theorem keepFirst_unique {jobs : Jobs} {seen : List Int} {ids : List JobId} {id id' : JobId} {e : Int}
    (h : id ∈ keepFirst jobs seen ids) (h' : id' ∈ keepFirst jobs seen ids)
    (he : (jobs.row id).bind transcodeEntry = some e)
    (he' : (jobs.row id').bind transcodeEntry = some e) : id = id' := by
  induction ids generalizing seen with
  | nil => simp [keepFirst] at h
  | cons i rest ih =>
    cases hd : (jobs.row i).bind transcodeEntry with
    | none =>
      simp only [keepFirst, hd, List.mem_cons] at h h'
      rcases h with rfl | h
      · simp [hd] at he
      · rcases h' with rfl | h'
        · simp [hd] at he'
        · exact ih h h'
    | some d =>
      simp only [keepFirst, hd] at h h'
      split at h
      next hseen => exact ih h (by simpa [hseen] using h')
      next hseen =>
        simp only [hseen, if_false, List.mem_cons] at h h'
        -- the head is of entry `d`, the tail has no job of `d`
        rcases h with rfl | h <;> rcases h' with rfl | h'
        · rfl
        · have hde : d = e := Option.some.inj (hd.symm.trans he)
          exact absurd (hde ▸ List.mem_cons_self) (keepFirst_not_seen h' he')
        · have hde : d = e := Option.some.inj (hd.symm.trans he')
          exact absurd (hde ▸ List.mem_cons_self) (keepFirst_not_seen h he)
        · exact ih h h'

theorem claimable_queued {jobs : Jobs} {exclude : List JobType} {now : Int} {id : JobId} {j : Job}
    (h : claimable jobs exclude now id j = true) : j.status = .queued := by
  simp only [claimable, Bool.and_eq_true, decide_eq_true_eq] at h
  exact h.1.1.1.1.1

/-- A claimable transcode has no running sibling. -/
theorem claimable_transcode {jobs : Jobs} {exclude : List JobType} {now : Int} {id : JobId}
    {j : Job} {e : Int} (h : claimable jobs exclude now id j = true)
    (he : transcodeEntry j = some e) {id' : JobId} {j' : Job} (hrow : jobs.row id' = some j')
    (he' : transcodeEntry j' = some e) : j'.status ≠ .running := by
  intro hrun
  simp only [transcodeEntry, Option.ite_none_right_eq_some] at he he'
  simp only [claimable, Bool.and_eq_true, Bool.or_eq_true, decide_eq_true_eq,
    Bool.not_eq_true'] at h
  rcases h.2 with hne | hnone
  · exact hne he.1
  · have hex : jobs.exists (fun _ j2 => j2.type = .transcode && j2.status = .running &&
        j.entryId.isSome && j2.entryId = j.entryId) = true :=
      Jobs.exists_iff.mpr ⟨id', j', hrow, by simp [he.2, he'.1, he'.2, hrun]⟩
    rw [hnone] at hex
    cases hex

/-- A claimable download is alone: none is running and none queued before it. -/
theorem claimable_download {jobs : Jobs} {exclude : List JobType} {now : Int} {id : JobId}
    {j : Job} (h : claimable jobs exclude now id j = true) (hd : j.type = .download)
    {id' : JobId} {j' : Job} (hrow : jobs.row id' = some j') (hd' : j'.type = .download) :
    j'.status ≠ .running ∧ (j'.status = .queued → id ≤ id') := by
  simp only [claimable, Bool.and_eq_true, Bool.or_eq_true, decide_eq_true_eq,
    Bool.not_eq_true'] at h
  rcases h.1.2 with hne | ⟨hrunning, hearlier⟩
  · exact absurd (by simp [serialized, hd]) hne
  · constructor
    · intro hrun
      have hex : jobs.exists (fun _ j2 => j2.type = j.type && j2.status = .running) = true :=
        Jobs.exists_iff.mpr ⟨id', j', hrow, by simp [hd, hd', hrun]⟩
      rw [hrunning] at hex
      cases hex
    · intro hqueued
      by_contra hlt
      have hex : jobs.exists (fun id2 j2 => j2.type = j.type && j2.status = .queued &&
          decide (id2 < id)) = true :=
        Jobs.exists_iff.mpr ⟨id', j', hrow, by simp [hd, hd', hqueued, Nat.lt_of_not_le hlt]⟩
      rw [hearlier] at hex
      cases hex

end Vidsilo.Queue.Claim
