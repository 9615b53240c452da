import Mathlib.Algebra.BigOperators.Group.Finset.Basic
import Mathlib.Algebra.Order.BigOperators.Group.Finset
import Vidsilo.Web.UploadStore

/-!
# Adding files to the upload store

Source: web/lib/upload-store.ts:128-199 (`addFiles`), over `Web.UploadStore`.
-/
namespace Vidsilo.Web.AddFiles
open Library UploadStore

variable {Id : Type}

/-- Counts against the cap. -/
def isActive (job : UploadJob Id) : Bool := job.status ≠ .done && job.status ≠ .failed

/-- Can be resumed. -/
def isWaiting (job : UploadJob Id) : Bool :=
  job.status = .interrupted && job.uploadUrl.any (· ≠ [])

def activeOf (jobs : List (UploadJob Id)) (f : File) : Nat :=
  jobs.countP fun job => job.isOf f && isActive job

def waitingOf (jobs : List (UploadJob Id)) (f : File) : Nat :=
  jobs.countP fun job => job.isOf f && isWaiting job

def requeued (job : UploadJob Id) : UploadJob Id :=
  job.patch { Patch.nothing with status := some .queued }

/-- The job is kept, or it was interrupted with an upload URL and is queued now. -/
def Kept (job job' : UploadJob Id) : Prop := job' = job ∨ (isWaiting job = true ∧ job' = requeued job)

/-- A selection of these files resumes so many jobs. -/
def resumed (jobs : List (UploadJob Id)) (files : List File) : Nat :=
  ∑ f ∈ files.toFinset, min (files.count f) (waitingOf jobs f)

/-- So many different files of it are not active yet. -/
def distinctNew (jobs : List (UploadJob Id)) (files : List File) : Nat :=
  (files.toFinset.filter fun f => activeOf jobs f = 0).card

theorem resumed_append (jobs : List (UploadJob Id)) (files : List File) (f : File) :
    resumed jobs (files ++ [f]) =
      resumed jobs files + if files.count f < waitingOf jobs f then 1 else 0 := by
  have wider : resumed jobs files =
      ∑ g ∈ (files ++ [f]).toFinset, min (files.count g) (waitingOf jobs g) := by
    apply Finset.sum_subset
    · intro g mem
      simp only [List.mem_toFinset, List.mem_append] at mem ⊢
      exact .inl mem
    · intro g _ absent
      rw [List.mem_toFinset] at absent
      rw [List.count_eq_zero_of_not_mem absent, Nat.zero_min]
  have last : f ∈ (files ++ [f]).toFinset := by simp
  rw [wider, resumed, ← Finset.add_sum_erase _ _ last, ← Finset.add_sum_erase _ _ last]
  have others : ∑ g ∈ (files ++ [f]).toFinset.erase f, min ((files ++ [f]).count g) (waitingOf jobs g) =
      ∑ g ∈ (files ++ [f]).toFinset.erase f, min (files.count g) (waitingOf jobs g) := by
    apply Finset.sum_congr rfl
    intro g mem
    have other : g ∉ [f] := by simpa using (Finset.mem_erase.mp mem).1
    rw [List.count_append, List.count_eq_zero_of_not_mem other, Nat.add_zero]
  rw [others, List.count_append, List.count_singleton_self]
  split <;> omega

theorem distinctNew_append (jobs : List (UploadJob Id)) (files : List File) (f : File) :
    distinctNew jobs (files ++ [f]) =
      distinctNew jobs files + if f ∉ files ∧ activeOf jobs f = 0 then 1 else 0 := by
  have grown : (files ++ [f]).toFinset = insert f files.toFinset := by
    ext g
    simp
  unfold distinctNew
  rw [grown, Finset.filter_insert]
  split
  · next isNew =>
    by_cases seen : f ∈ files
    · rw [Finset.insert_eq_of_mem (by simp [seen, isNew]), if_neg (by simp [seen]), Nat.add_zero]
    · rw [Finset.card_insert_of_notMem (by simp [seen]), if_pos ⟨seen, isNew⟩]
  · next old => rw [if_neg fun h => old h.2, Nat.add_zero]

theorem isActive_requeued {job : UploadJob Id} (waits : isWaiting job = true) :
    isActive job = true ∧ isActive (requeued job) = true := by
  simp only [isWaiting, Bool.and_eq_true, decide_eq_true_eq] at waits
  exact ⟨by simp [isActive, waits.1], rfl⟩

theorem isWaiting_requeued (job : UploadJob Id) : isWaiting (requeued job) = false := rfl

theorem isOf_requeued (job : UploadJob Id) (f : File) : (requeued job).isOf f = job.isOf f := rfl

theorem waitingOf_le (jobs : List (UploadJob Id)) (f : File) : waitingOf jobs f ≤ activeOf jobs f := by
  apply List.countP_mono_left
  intro job _ waits
  rw [Bool.and_eq_true] at waits ⊢
  exact ⟨waits.1, (isActive_requeued waits.2).1⟩

theorem activeOf_pos {s : State Id} {f : File} :
    s.isDuplicate f = true ↔ 0 < activeOf s.jobs.list f := by
  unfold State.isDuplicate activeOf isActive
  rw [List.countP_pos_iff, List.any_eq_true]
  simp only [Bool.and_assoc]

theorem resumable_none {s : State Id} {f : File} :
    s.resumable f = none ↔ waitingOf s.jobs.list f = 0 := by
  unfold State.resumable waitingOf isWaiting
  rw [List.find?_eq_none, List.countP_eq_zero]
  simp only [Bool.and_assoc]

/-- One round of the loop. -/
inductive Added (slots : Nat) (s : State Id) (r : AddFilesResult) (f : File) (s' : State Id) :
    AddFilesResult → Prop where
  | resumed (before after : List (UploadJob Id)) (job : UploadJob Id) (own : job.isOf f = true)
      (waits : isWaiting job = true) (list : s.jobs.list = before ++ job :: after)
      (list' : s'.jobs.list = before ++ requeued job :: after) :
      Added slots s r f s' { r with added := r.added + 1 }
  | duplicate (unresumed : waitingOf s.jobs.list f = 0) (active : 0 < activeOf s.jobs.list f)
      (same : s'.jobs.list = s.jobs.list) :
      Added slots s r f s' { r with duplicates := r.duplicates + 1 }
  | overLimit (inactive : activeOf s.jobs.list f = 0) (full : slots ≤ r.added)
      (same : s'.jobs.list = s.jobs.list) :
      Added slots s r f s' { r with overLimit := r.overLimit + 1 }
  | created (id : Id) (inactive : activeOf s.jobs.list f = 0) (room : r.added < slots)
      (list' : s'.jobs.list = s.jobs.list ++ [newJob id f]) :
      Added slots s r f s' { r with added := r.added + 1 }

section
variable [DecidableEq Id]

/-- Only the job of the id is changed. -/
theorem list_update {jobs : Jobs Id} {job : UploadJob Id} (mem : job ∈ jobs.list) (patch : Patch) :
    ∃ before after, jobs.list = before ++ job :: after ∧
      (jobs.update job.id patch).list = before ++ job.patch patch :: after := by
  obtain ⟨before, after, split⟩ := List.append_of_mem mem
  refine ⟨before, after, split, ?_⟩
  have distinct := jobs.distinct
  rw [split, List.map_append, List.map_cons, List.nodup_append] at distinct
  obtain ⟨-, rest, apart⟩ := distinct
  rw [List.nodup_cons] at rest
  have same (other : UploadJob Id) (ne : other.id ≠ job.id) :
      (if other.id = job.id then other.patch patch else other) = other := if_neg ne
  change jobs.list.map _ = _
  rw [split, List.map_append, List.map_cons, if_pos rfl]
  congr 1
  · refine (List.map_congr_left fun other own => ?_).trans (List.map_id' before)
    exact same other (apart _ (List.mem_map_of_mem own) _ List.mem_cons_self)
  · congr 1
    refine (List.map_congr_left fun other own => ?_).trans (List.map_id' after)
    exact same other fun eq => rest.1 (eq ▸ List.mem_map_of_mem own)

theorem addFile_added {slots : Nat} {s s' : State Id} {r r' : AddFilesResult} {selected : Selected Id}
    (run : addFile slots s r selected = some (s', r')) : Added slots s r selected.file s' r' := by
  unfold addFile at run
  dsimp only at run
  split at run
  · next job found =>
    have mem : job ∈ s.jobs.list := List.mem_of_find?_eq_some found
    have waits := List.find?_some found
    rw [Bool.and_assoc, Bool.and_eq_true] at waits
    obtain ⟨before, after, list, updated⟩ :=
      list_update mem { Patch.nothing with status := some .queued }
    cases run
    exact .resumed before after job waits.1 waits.2 list (by rw [persist_jobs]; exact updated)
  · next none =>
    have unresumed := resumable_none.mp none
    split at run
    · next duplicate =>
      cases run
      exact .duplicate unresumed (activeOf_pos.mp duplicate) rfl
    · next distinct =>
      have inactive : activeOf s.jobs.list selected.file = 0 :=
        Nat.eq_zero_of_not_pos fun active => distinct (activeOf_pos.mpr active)
      split at run
      · next full =>
        cases run
        exact .overLimit inactive full rfl
      · next room =>
        split at run
        · next fresh =>
          cases run
          exact .created selected.id inactive (Nat.lt_of_not_le room) rfl
        · cases run

end

def activeCount (jobs : List (UploadJob Id)) : Nat := jobs.countP isActive

/-- Every job is still at its place. -/
def AllKept (jobs jobs' : List (UploadJob Id)) : Prop :=
  ∀ (i : Nat) (job : UploadJob Id), jobs[i]? = some job → ∃ job', jobs'[i]? = some job' ∧ Kept job job'

/-- After the files, with so many jobs created. -/
structure Progress (slots : Nat) (s₀ s : State Id) (files : List File) (r : AddFilesResult)
    (created : Nat) : Prop where
  total : r.added + r.duplicates + r.overLimit = files.length
  kept : AllKept s₀.jobs.list s.jobs.list
  length : s.jobs.list.length = s₀.jobs.list.length + created
  waiting : ∀ f, waitingOf s.jobs.list f = waitingOf s₀.jobs.list f - files.count f
  added : r.added = resumed s₀.jobs.list files + created
  activeCount : activeCount s.jobs.list = activeCount s₀.jobs.list + created
  /-- What was active stays active, and of what was not at most one job is active. -/
  active : ∀ f, activeOf s.jobs.list f = activeOf s₀.jobs.list f ∨
    (activeOf s₀.jobs.list f = 0 ∧ f ∈ files ∧ activeOf s.jobs.list f = 1)
  room : created ≤ slots
  few : created ≤ distinctNew s₀.jobs.list files
  refused : ∀ f ∈ files, activeOf s.jobs.list f = 0 → slots ≤ r.added

theorem progress_start (slots : Nat) (s : State Id) : Progress slots s s [] ⟨0, 0, 0⟩ 0 where
  total := rfl
  kept _ job found := ⟨job, found, .inl rfl⟩
  length := rfl
  waiting f := by simp
  added := by simp [resumed]
  activeCount := rfl
  active f := .inl rfl
  room := Nat.zero_le _
  few := Nat.zero_le _
  refused := nofun

theorem isOf_unique {job : UploadJob Id} {f g : File} (own : job.isOf f = true) :
    job.isOf g = true ↔ g = f := by
  unfold UploadJob.isOf at *
  simp only [Bool.and_eq_true, decide_eq_true_eq] at *
  constructor
  · rintro ⟨name, size⟩
    cases f
    cases g
    simp_all
  · rintro rfl
    exact own

theorem activeOf_resumed {jobs jobs' before after : List (UploadJob Id)} {job : UploadJob Id}
    (waits : isWaiting job = true) (list : jobs = before ++ job :: after)
    (list' : jobs' = before ++ requeued job :: after) (g : File) : activeOf jobs' g = activeOf jobs g := by
  obtain ⟨old, new⟩ := isActive_requeued waits
  rw [list, list', activeOf, activeOf, List.countP_append, List.countP_append, List.countP_cons,
    List.countP_cons, isOf_requeued, old, new]

theorem activeOf_created (jobs : List (UploadJob Id)) (id : Id) (f g : File) :
    activeOf (jobs ++ [newJob id f]) g = activeOf jobs g + if g = f then 1 else 0 := by
  have own : (newJob id f).isOf g = true ↔ g = f := isOf_unique (by simp [UploadJob.isOf, newJob])
  have queued : isActive (newJob id f) = true := rfl
  rw [activeOf, List.countP_append, List.countP_singleton, queued]
  simp only [Bool.and_true, own]
  rfl

/-- The file of a resumed job is active. -/
theorem activeOf_own {jobs before after : List (UploadJob Id)} {job : UploadJob Id} {f : File}
    (own : job.isOf f = true) (waits : isWaiting job = true) (list : jobs = before ++ job :: after) :
    0 < activeOf jobs f := by
  rw [activeOf, List.countP_pos_iff]
  exact ⟨job, by simp [list], by rw [own, (isActive_requeued waits).1]; rfl⟩

theorem Added.active_le {slots : Nat} {s s' : State Id} {r r' : AddFilesResult} {f : File}
    (one : Added slots s r f s' r') (g : File) : activeOf s.jobs.list g ≤ activeOf s'.jobs.list g := by
  cases one with
  | resumed before after job own waits list list' => exact (activeOf_resumed waits list list' g).ge
  | duplicate unresumed active same => rw [same]
  | overLimit inactive full same => rw [same]
  | created id inactive room list' =>
    rw [list', activeOf_created]
    omega

section
variable {slots created : Nat} {s₀ s s' : State Id} {files : List File} {f : File}
  {r : AddFilesResult} (h : Progress slots s₀ s files r created)
include h

/-- A round that leaves the list as it is. -/
theorem Progress.same_list {r' : AddFilesResult} (same : s'.jobs.list = s.jobs.list)
    (unresumed : waitingOf s.jobs.list f = 0) (added : r'.added = r.added)
    (total : r'.added + r'.duplicates + r'.overLimit = r.added + r.duplicates + r.overLimit + 1)
    (refused : activeOf s.jobs.list f = 0 → slots ≤ r.added) :
    Progress slots s₀ s' (files ++ [f]) r' created := by
  have waits := h.waiting f
  have spent : resumed s₀.jobs.list (files ++ [f]) = resumed s₀.jobs.list files := by
    rw [resumed_append, if_neg (by omega), Nat.add_zero]
  constructor
  · rw [total, h.total, List.length_append, List.length_singleton]
  · rw [same]
    exact h.kept
  · rw [same]
    exact h.length
  · intro g
    rw [same, h.waiting, List.count_append]
    by_cases own : g = f
    · subst own
      omega
    · rw [List.count_eq_zero_of_not_mem (l := [f]) (by simpa using own), Nat.add_zero]
  · rw [added, h.added, spent]
  · rw [same]
    exact h.activeCount
  · intro g
    rw [same]
    exact (h.active g).imp_right fun ⟨new, mem, one⟩ => ⟨new, List.mem_append_left _ mem, one⟩
  · exact h.room
  · have := h.few
    rw [distinctNew_append]
    omega
  · intro g mem inactive
    rw [same] at inactive
    rw [added]
    rcases List.mem_append.mp mem with earlier | last
    · exact h.refused g earlier inactive
    · rw [List.mem_singleton.mp last] at inactive
      exact refused inactive

theorem Progress.resume {before after : List (UploadJob Id)} {job : UploadJob Id}
    (own : job.isOf f = true) (waits : isWaiting job = true)
    (list : s.jobs.list = before ++ job :: after)
    (list' : s'.jobs.list = before ++ requeued job :: after) :
    Progress slots s₀ s' (files ++ [f]) { r with added := r.added + 1 } created := by
  have active := activeOf_resumed waits list list'
  have waiting (g : File) : waitingOf s.jobs.list g =
      waitingOf s'.jobs.list g + if g = f then 1 else 0 := by
    rw [list, list', waitingOf, waitingOf, List.countP_append, List.countP_append, List.countP_cons,
      List.countP_cons, isWaiting_requeued, waits]
    simp only [Bool.and_true, Bool.and_false, Bool.false_eq_true, if_false, isOf_unique own]
    omega
  have own_active := activeOf_own own waits list
  have left := h.waiting f
  have one := waiting f
  rw [if_pos rfl] at one
  constructor
  · have := h.total
    rw [List.length_append, List.length_singleton]
    dsimp only
    omega
  · intro i job₀ found
    obtain ⟨job₁, found₁, kept⟩ := h.kept i job₀ found
    have set : s'.jobs.list = s.jobs.list.set before.length (requeued job) := by
      rw [list, list']
      simp
    rw [set, List.getElem?_set]
    split
    · next place =>
      have here : job₁ = job := by
        rw [list, ← place] at found₁
        simpa using found₁.symm
      have inside : before.length < s.jobs.list.length := by simp [list]
      refine ⟨_, by rw [if_pos inside], ?_⟩
      rcases kept with rfl | ⟨_, rfl⟩
      · exact .inr ⟨here ▸ waits, by rw [here]⟩
      · rw [← here, isWaiting_requeued] at waits
        cases waits
    · exact ⟨job₁, found₁, kept⟩
  · rw [list', ← h.length, list]
    simp
  · intro g
    have here := waiting g
    have there := h.waiting g
    rw [List.count_append]
    by_cases same : g = f
    · subst same
      rw [List.count_singleton_self]
      rw [if_pos rfl] at here
      omega
    · rw [List.count_eq_zero_of_not_mem (l := [f]) (by simpa using same), Nat.add_zero]
      rw [if_neg same] at here
      omega
  · have := h.added
    rw [resumed_append, if_pos (by omega)]
    dsimp only
    omega
  · rw [← h.activeCount, AddFiles.activeCount, AddFiles.activeCount, list, list']
    obtain ⟨old, new⟩ := isActive_requeued waits
    rw [List.countP_append, List.countP_append, List.countP_cons, List.countP_cons, old, new]
  · intro g
    rw [active]
    exact (h.active g).imp_right fun ⟨new, mem, one⟩ => ⟨new, List.mem_append_left _ mem, one⟩
  · exact h.room
  · have := h.few
    rw [distinctNew_append]
    omega
  · intro g mem inactive
    rw [active] at inactive
    rcases List.mem_append.mp mem with earlier | last
    · exact Nat.le_succ_of_le (h.refused g earlier inactive)
    · rw [List.mem_singleton.mp last] at inactive
      omega

theorem Progress.create {id : Id} (inactive : activeOf s.jobs.list f = 0) (room : r.added < slots)
    (list' : s'.jobs.list = s.jobs.list ++ [newJob id f]) :
    Progress slots s₀ s' (files ++ [f]) { r with added := r.added + 1 } (created + 1) := by
  have isNew : activeOf s₀.jobs.list f = 0 := by
    rcases h.active f with same | ⟨new, _, _⟩
    · omega
    · exact new
  have unseen : f ∉ files := by
    intro mem
    have := h.refused f mem inactive
    omega
  have unwaiting := waitingOf_le s.jobs.list f
  have left := h.waiting f
  have active (g : File) : activeOf s'.jobs.list g =
      activeOf s.jobs.list g + if g = f then 1 else 0 := by
    rw [list']
    exact activeOf_created s.jobs.list id f g
  constructor
  · have := h.total
    rw [List.length_append, List.length_singleton]
    dsimp only
    omega
  · intro i job found
    obtain ⟨job', found', kept⟩ := h.kept i job found
    refine ⟨job', ?_, kept⟩
    rw [list', List.getElem?_append_left (List.getElem?_eq_some_iff.mp found').1]
    exact found'
  · rw [list', List.length_append, h.length, List.length_singleton]
    omega
  · intro g
    have queued : isWaiting (newJob id f) = false := rfl
    have same : waitingOf s'.jobs.list g = waitingOf s.jobs.list g := by
      rw [list', waitingOf, List.countP_append, List.countP_singleton, queued, Bool.and_false]
      rfl
    rw [same, h.waiting, List.count_append]
    by_cases eq : g = f
    · subst eq
      omega
    · rw [List.count_eq_zero_of_not_mem (l := [f]) (by simpa using eq), Nat.add_zero]
  · have := h.added
    rw [resumed_append, if_neg (by omega)]
    dsimp only
    omega
  · have queued : isActive (newJob id f) = true := rfl
    have before := h.activeCount
    rw [AddFiles.activeCount, AddFiles.activeCount] at before ⊢
    rw [list', List.countP_append, List.countP_singleton, queued, if_pos rfl]
    omega
  · intro g
    rw [active]
    by_cases eq : g = f
    · subst eq
      exact .inr ⟨isNew, by simp, by rw [if_pos rfl, inactive]⟩
    · rw [if_neg eq, Nat.add_zero]
      exact (h.active g).imp_right fun ⟨new, mem, one⟩ => ⟨new, List.mem_append_left _ mem, one⟩
  · have := h.added
    omega
  · have := h.few
    rw [distinctNew_append, if_pos ⟨unseen, isNew⟩]
    omega
  · intro g mem none
    rw [active] at none
    dsimp only
    rcases List.mem_append.mp mem with earlier | last
    · have := h.refused g earlier (by omega)
      omega
    · rw [List.mem_singleton.mp last, if_pos rfl] at none
      omega

end

/-- One round from there, and whether it creates a job. -/
theorem Progress.round {slots created : Nat} {s₀ s s' : State Id} {files : List File} {f : File}
    {r r' : AddFilesResult} (h : Progress slots s₀ s files r created) (one : Added slots s r f s' r') :
    Progress slots s₀ s' (files ++ [f]) r' (if activeOf s.jobs.list f = 0 ∧ r.added < slots
      then created + 1 else created) := by
  cases one with
  | resumed before after job own waits list list' =>
    have active := activeOf_own own waits list
    rw [if_neg (by omega)]
    exact h.resume own waits list list'
  | duplicate unresumed active same =>
    rw [if_neg (by omega)]
    exact h.same_list same unresumed rfl (by dsimp only; omega) (by omega)
  | overLimit inactive full same =>
    rw [if_neg (by omega)]
    have unresumed := waitingOf_le s.jobs.list f
    exact h.same_list same (by omega) rfl (by dsimp only; omega) fun _ => full
  | created id inactive room list' =>
    rw [if_pos ⟨inactive, room⟩]
    exact h.create inactive room list'

/-- The cap is reached when new jobs take all slots. -/
theorem cap_iff {s s' : State Id} {files : List File} {r : AddFilesResult} {created : Nat}
    (h : Progress s.slots s s' files r created) :
    maxBatch ≤ activeCount s'.jobs.list ↔ s.slots ≤ created := by
  have count := h.activeCount
  have slots : s.slots = maxBatch - activeCount s.jobs.list := by
    rw [activeCount, List.countP_eq_length_filter]
    rfl
  omega

/-- As many jobs as there are different new files and free slots, and what was refused was refused
with all slots taken by new jobs. -/
def Exact (slots : Nat) (s₀ s : State Id) (files : List File) (created : Nat) : Prop :=
  created = min (distinctNew s₀.jobs.list files) slots ∧
    ∀ f ∈ files, activeOf s.jobs.list f = 0 → slots ≤ created

theorem exact_round {slots created : Nat} {s₀ s s' : State Id} {files : List File} {f : File}
    {r r' : AddFilesResult}
    (h : Progress slots s₀ s files r created) (exact : Exact slots s₀ s files created)
    (one : Added slots s r f s' r')
    (legit : activeOf s.jobs.list f = 0 → slots ≤ r.added → slots ≤ created) :
    Exact slots s₀ s' (files ++ [f]) (if activeOf s.jobs.list f = 0 ∧ r.added < slots
      then created + 1 else created) := by
  have room := h.room
  have few := h.few
  have added := h.added
  have active := h.active f
  obtain ⟨count, full⟩ := exact
  have earlier (g : File) (mem : g ∈ files) (none : activeOf s'.jobs.list g = 0) : slots ≤ created :=
    full g mem (Nat.le_zero.mp (none ▸ one.active_le g))
  have seen (own : 0 < activeOf s.jobs.list f) :
      ¬ (f ∉ files ∧ activeOf s₀.jobs.list f = 0) := by
    rintro ⟨unseen, isNew⟩
    rcases active with same | ⟨_, mem, _⟩
    · omega
    · exact unseen mem
  have kept (own : 0 < activeOf s.jobs.list f) :
      Exact slots s₀ s' (files ++ [f]) created := by
    refine ⟨by rw [distinctNew_append, if_neg (seen own), Nat.add_zero, count], fun g mem none => ?_⟩
    rcases List.mem_append.mp mem with old | last
    · exact earlier g old none
    · rw [List.mem_singleton.mp last] at none
      have := one.active_le f
      omega
  cases one with
  | resumed before after job own waits list list' =>
    have active := activeOf_own own waits list
    rw [if_neg (by omega)]
    exact kept active
  | duplicate unresumed active same =>
    rw [if_neg (by omega)]
    exact kept active
  | overLimit inactive refused same =>
    rw [if_neg (by omega)]
    have taken := legit inactive refused
    refine ⟨?_, fun _ _ _ => taken⟩
    rw [distinctNew_append]
    omega
  | created id inactive room' list' =>
    rw [if_pos ⟨inactive, room'⟩]
    have unseen : f ∉ files := fun mem => by
      have := full f mem inactive
      omega
    have isNew : activeOf s₀.jobs.list f = 0 := by omega
    refine ⟨?_, fun g mem none => ?_⟩
    · rw [distinctNew_append, if_pos ⟨unseen, isNew⟩]
      omega
    · rcases List.mem_append.mp mem with old | last
      · exact Nat.le_succ_of_le (earlier g old none)
      · rw [List.mem_singleton.mp last, list', activeOf_created, if_pos rfl] at none
        omega

section Loop
variable [DecidableEq Id] {slots : Nat} {s s' : State Id} {selection : List (Selected Id)}
  {r r' : AddFilesResult}

theorem addFilesLoop_append (before after : List (Selected Id)) :
    addFilesLoop slots (before ++ after) s r =
      (addFilesLoop slots before s r).bind fun next => addFilesLoop slots after next.1 next.2 := by
  induction before generalizing s r with
  | nil => rfl
  | cons selected rest ih =>
    rw [List.cons_append, addFilesLoop, addFilesLoop, Option.bind_assoc]
    exact Option.bind_congr fun next _ => ih

theorem addFilesLoop_snoc {before : List (Selected Id)} {selected : Selected Id} :
    addFilesLoop slots (before ++ [selected]) s r = some (s', r') ↔ ∃ mid count,
      addFilesLoop slots before s r = some (mid, count) ∧
        addFile slots mid count selected = some (s', r') := by
  rw [addFilesLoop_append, Option.bind_eq_some_iff]
  constructor
  · rintro ⟨⟨mid, count⟩, begun, last⟩
    obtain ⟨next, one, ended⟩ := Option.bind_eq_some_iff.mp last
    exact ⟨mid, count, begun, one.trans ended⟩
  · rintro ⟨mid, count, begun, one⟩
    exact ⟨(mid, count), begun, Option.bind_eq_some_iff.mpr ⟨_, one, rfl⟩⟩

/-- A refusal of a file finds all slots taken by jobs of this selection. -/
def Legit (slots : Nat) (s₀ : State Id) (selection : List (Selected Id)) : Prop :=
  ∀ before selected rest, selection = before ++ selected :: rest → ∀ mid count mid' count' created,
    addFilesLoop slots before s₀ ⟨0, 0, 0⟩ = some (mid, count) →
    addFile slots mid count selected = some (mid', count') →
    Progress slots s₀ mid (before.map Selected.file) count created →
    Exact slots s₀ mid (before.map Selected.file) created →
    activeOf mid.jobs.list selected.file = 0 → slots ≤ count.added → slots ≤ created

theorem exact_of_legit (legit : Legit slots s selection)
    (run : addFilesLoop slots selection s ⟨0, 0, 0⟩ = some (s', r)) :
    ∃ created, Progress slots s s' (selection.map Selected.file) r created ∧
      Exact slots s s' (selection.map Selected.file) created := by
  induction selection using List.reverseRecOn generalizing s' r with
  | nil =>
    cases run
    exact ⟨0, progress_start slots s, by simp [distinctNew], nofun⟩
  | append_singleton before selected ih =>
    obtain ⟨mid, count, begun, one⟩ := addFilesLoop_snoc.mp run
    have shorter : Legit slots s before := by
      intro first chosen rest split
      exact legit first chosen (rest ++ [selected]) (by simp [split])
    obtain ⟨created, sofar, exact⟩ := ih shorter begun
    have added := addFile_added one
    rw [List.map_append]
    refine ⟨_, sofar.round added, exact_round sofar exact added ?_⟩
    exact legit before selected [] rfl mid count s' r created begun one sofar exact

def files (selection : List (Selected Id)) : List File := selection.map Selected.file

/-- A file is counted as over the limit only when so many jobs are active. -/
def RefusedAtCap (s : State Id) (selection : List (Selected Id)) : Prop :=
  ∀ before selected rest, selection = before ++ selected :: rest → ∀ mid count mid' count',
    addFilesLoop s.slots before s ⟨0, 0, 0⟩ = some (mid, count) →
    addFile s.slots mid count selected = some (mid', count') →
    count'.overLimit ≠ count.overLimit → maxBatch ≤ activeCount mid.jobs.list

structure AddsFiles (s s' : State Id) (selection : List (Selected Id)) (result : AddFilesResult) :
    Prop where
  total : result.added + result.duplicates + result.overLimit = selection.length
  kept : AllKept s.jobs.list s'.jobs.list
  /-- Each file resumes a job that waits for it, as long as there is one. -/
  resumed : ∀ f, waitingOf s'.jobs.list f = waitingOf s.jobs.list f - (files selection).count f
  unique : ∀ f, activeOf s'.jobs.list f ≤ max (activeOf s.jobs.list f) 1
  refused : RefusedAtCap s selection
  created : s'.jobs.list.length =
    s.jobs.list.length + min (distinctNew s.jobs.list (files selection)) s.slots

/-- Before each new file, the resumed jobs leave it a slot, or new files take all slots. -/
def LeavesSlots (s : State Id) (files : List File) : Prop :=
  ∀ before f rest, files = before ++ f :: rest → f ∉ before → activeOf s.jobs.list f = 0 →
    AddFiles.resumed s.jobs.list before + distinctNew s.jobs.list before < s.slots ∨
      s.slots ≤ distinctNew s.jobs.list before

theorem legit_of_refusedAtCap (refused : RefusedAtCap s selection) : Legit s.slots s selection := by
  intro before selected rest split mid count mid' count' created begun one sofar _ inactive full
  rw [← cap_iff sofar]
  refine refused before selected rest split mid count mid' count' begun one ?_
  have unresumed := waitingOf_le mid.jobs.list selected.file
  cases addFile_added one with
  | resumed first after job own waits list list' =>
    have := activeOf_own own waits list
    omega
  | duplicate unresumed active same => omega
  | overLimit inactive full same => exact Nat.succ_ne_self _
  | created id inactive room list' => omega

theorem legit_of_leavesSlots (leaves : LeavesSlots s (files selection)) :
    Legit s.slots s selection := by
  intro before selected rest split mid count mid' count' created _ _ sofar exact inactive full
  by_cases seen : selected.file ∈ before.map Selected.file
  · exact exact.2 _ seen inactive
  · have isNew : activeOf s.jobs.list selected.file = 0 := by
      rcases sofar.active selected.file with same | ⟨isNew, _, _⟩
      · omega
      · exact isNew
    have room := leaves (before.map Selected.file) selected.file (rest.map Selected.file)
      (by simp [files, split]) seen isNew
    have added := sofar.added
    have few := sofar.few
    have count := exact.1
    omega

theorem refusedAtCap_of_legit (legit : Legit s.slots s selection) : RefusedAtCap s selection := by
  intro before selected rest split mid count mid' count' begun one refused
  have shorter : Legit s.slots s before := by
    intro first chosen later split'
    exact legit first chosen (later ++ selected :: rest) (by simp [split, split'])
  obtain ⟨created, sofar, exact⟩ := exact_of_legit shorter begun
  rw [cap_iff sofar]
  cases addFile_added one with
  | resumed first after job own waits list list' => exact absurd rfl refused
  | duplicate unresumed active same => exact absurd rfl refused
  | created id inactive room list' => exact absurd rfl refused
  | overLimit inactive full same =>
    exact legit before selected rest split mid count mid' _ created begun one sofar exact inactive full

theorem leavesSlots_of_legit (legit : Legit s.slots s selection)
    (run : addFilesLoop s.slots selection s ⟨0, 0, 0⟩ = some (s', r)) :
    LeavesSlots s (files selection) := by
  intro before f rest split unseen isNew
  obtain ⟨first, later, rfl, rfl, same⟩ := List.map_eq_append_iff.mp split
  obtain ⟨selected, rest', rfl, rfl, rfl⟩ := List.map_eq_cons_iff.mp same
  rw [addFilesLoop_append] at run
  obtain ⟨⟨mid, count⟩, begun, remaining⟩ := Option.bind_eq_some_iff.mp run
  obtain ⟨⟨mid', count'⟩, one, -⟩ := Option.bind_eq_some_iff.mp remaining
  have shorter : Legit s.slots s first := by
    intro start chosen more split'
    exact legit start chosen (more ++ selected :: rest') (by simp [split'])
  obtain ⟨created, sofar, exact⟩ := exact_of_legit shorter begun
  have inactive : activeOf mid.jobs.list selected.file = 0 := by
    rcases sofar.active selected.file with eq | ⟨_, mem, _⟩
    · omega
    · exact absurd mem unseen
  have taken := legit first selected rest' rfl mid count mid' count' created begun one sofar exact inactive
  have added := sofar.added
  have number := exact.1
  omega

/-- A selection is added right exactly when resumed jobs never take the slot of a new file. -/
theorem addFiles_iff {stored : Bool} (run : s.addFiles selection stored = some (s', r)) :
    AddsFiles s s' selection r ↔ LeavesSlots s (files selection) := by
  obtain ⟨⟨last, count⟩, loop, same⟩ := Option.map_eq_some_iff.mp run
  cases same
  constructor
  · intro adds
    exact leavesSlots_of_legit (legit_of_refusedAtCap adds.refused) loop
  · intro leaves
    have legit := legit_of_leavesSlots leaves
    obtain ⟨created, ended, exact⟩ := exact_of_legit legit loop
    constructor
    · rw [ended.total, List.length_map]
    · rw [persist_jobs]
      exact ended.kept
    · intro f
      rw [persist_jobs, ended.waiting, files]
    · intro f
      rw [persist_jobs]
      change activeOf last.jobs.list f ≤ _
      have active := ended.active f
      omega
    · exact refusedAtCap_of_legit legit
    · rw [persist_jobs, ended.length, exact.1, files]

end Loop

def interrupted (n : Nat) : UploadJob Nat :=
  { newJob n ⟨"movie.mp4".toList, n⟩ with
    status := .interrupted
    uploadUrl := some "/upload/abc".toList }

/-- Nine interrupted uploads. -/
def nineJobs : State Nat :=
  { State.first with jobs := ⟨(List.range 9).map interrupted, by decide⟩ }

def resumeAndAdd : List (Selected Nat) :=
  [⟨⟨"movie.mp4".toList, 0⟩, 9, true⟩, ⟨⟨"other.mp4".toList, 0⟩, 10, true⟩]

theorem addFiles_iff_nineJobs : ∃ s' r, nineJobs.addFiles (resumeAndAdd.drop 1) true = some (s', r) ∧
    (AddsFiles nineJobs s' (resumeAndAdd.drop 1) r ↔
      LeavesSlots nineJobs (files (resumeAndAdd.drop 1))) := by
  obtain ⟨next, run⟩ : ∃ next, nineJobs.addFiles (resumeAndAdd.drop 1) true = some next :=
    ⟨_, rfl⟩
  exact ⟨next.1, next.2, run, addFiles_iff run⟩

/-- The other file is refused with nine active jobs. -/
theorem resumed_job_takes_slot : ∃ s' r, nineJobs.addFiles resumeAndAdd true = some (s', r) ∧
    r.overLimit = 1 ∧ activeCount s'.jobs.list = 9 ∧ ¬ AddsFiles nineJobs s' resumeAndAdd r := by
  obtain ⟨next, run, refused, count⟩ : ∃ next, nineJobs.addFiles resumeAndAdd true = some next ∧
      next.2.overLimit = 1 ∧ activeCount next.1.jobs.list = 9 := ⟨_, rfl, by decide, by decide⟩
  refine ⟨next.1, next.2, run, refused, count, fun adds => ?_⟩
  have created := adds.created
  have length : next.1.jobs.list.length = 9 := by
    have same : nineJobs.addFiles resumeAndAdd true = some next := run
    cases same
    decide
  rw [length] at created
  exact absurd created (by decide)

end Vidsilo.Web.AddFiles
