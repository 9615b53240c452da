import Vidsilo.Queue.OpenClaims

/-!
# At most one running job of a kind

Source: internal/queue/queue.go:60-192 (`Claim`). Transcodes of one entry and
downloads as a whole are meant to run one at a time. Both are stated for a kind
`kind : Job → Option κ` that the statements never change: the jobs of a kind that
run, and those that an open claim has selected, are one job (`Exclusive`). Every step
but the second statement of a claim keeps this. What that statement needs
(`TakesAlone`) is what the advisory locks and the subqueries are there for.
-/
namespace Vidsilo.Queue.Exclusion
open Table Claim Machine OpenClaims Library.Transition

section Kind
variable {κ : Type} (kind : Job → Option κ)

/-- Of every kind at most one job runs, none while a claim has one selected, and at
most one is selected. -/
structure Exclusive (s : System) : Prop where
  running : ∀ id id' j j' k, s.jobs.row id = some j → s.jobs.row id' = some j' →
    kind j = some k → kind j' = some k → j.status = .running → j'.status = .running → id = id'
  alone : ∀ t claimed, Claims s t claimed → ∀ id ∈ claimed, ∀ id' j j' k,
    s.jobs.row id = some j → s.jobs.row id' = some j' → kind j = some k → kind j' = some k →
    j'.status ≠ .running
  pending : ∀ t claimed t' claimed', Claims s t claimed → Claims s t' claimed' →
    ∀ id ∈ claimed, ∀ id' ∈ claimed', ∀ j j' k, s.jobs.row id = some j → s.jobs.row id' = some j' →
    kind j = some k → kind j' = some k → id = id'

/-- A row that the second statement takes is the only one of its kind that runs or is
selected, also by this statement. -/
def TakesAlone (s : System) (t : TxId) (busy : List JobId) : Prop :=
  ∀ c, s.tx t = some c → ∀ id ∈ newClaims s c busy, ∀ j k, s.jobs.row id = some j →
    kind j = some k → ∀ id' j', s.jobs.row id' = some j' → kind j' = some k →
      j'.status ≠ .running ∧ (∀ t' claimed', Claims s t' claimed' → id' ∉ claimed') ∧
      (id' ∈ newClaims s c busy → id' = id)

variable {kind}

theorem exclusive_initial (clock : Int) : Exclusive kind (initial clock) where
  running id id' j j' k hrow := by simp [initial, Jobs.empty] at hrow
  alone t claimed hclaims := absurd hclaims (not_claims_initial clock t claimed)
  pending t claimed t' claimed' hclaims := absurd hclaims (not_claims_initial clock t claimed)

theorem Exclusive.step {s s' : System} {a : Action}
    (hkind : ∀ j j' : Job, j'.type = j.type → j'.entryId = j.entryId → kind j' = kind j)
    (hc : Coherent s) (h : Exclusive kind s) (he : Effect s s' a)
    (htakes : ∀ t busy, a = .select t busy → TakesAlone kind s t busy) : Exclusive kind s' where
  running := by
    intro id id' j j' k hrow hrow' hk hk' hrun hrun'
    obtain ⟨j₀, hj₀, htype, hentry, hfrom⟩ := running_step he hrow hrun
    obtain ⟨j₁, hj₁, htype', hentry', hfrom'⟩ := running_step he hrow' hrun'
    rw [hkind j₀ j htype hentry] at hk
    rw [hkind j₁ j' htype' hentry'] at hk'
    rcases hfrom with hwas | ⟨t, claimed, _, hclaims, hid, _⟩
    · rcases hfrom' with hwas' | ⟨t', claimed', _, hclaims', hid', _⟩
      · exact h.running id id' j₀ j₁ k hj₀ hj₁ hk hk' hwas hwas'
      · exact absurd hwas (h.alone t' claimed' hclaims' id' hid' id j₁ j₀ k hj₁ hj₀ hk' hk)
    · rcases hfrom' with hwas' | ⟨t', claimed', _, hclaims', hid', _⟩
      · exact absurd hwas' (h.alone t claimed hclaims id hid id' j₀ j₁ k hj₀ hj₁ hk hk')
      · exact h.pending t claimed t' claimed' hclaims hclaims' id hid id' hid' j₀ j₁ k hj₀ hj₁ hk hk'
  alone := by
    intro t claimed hclaims id hid id' j j' k hrow hrow' hk hk' hrun
    obtain ⟨j₁, hj₁, htype, hentry, hfrom⟩ := running_step he hrow' hrun
    rw [hkind j₁ j' htype hentry] at hk'
    rcases claims_step hc he hclaims with hkept | hfresh
    · rw [hkept.row id hid] at hrow
      rcases hfrom with hwas | ⟨t', claimed', _, hclaims', hid', hclosed⟩
      · exact h.alone t claimed hkept.before id hid id' j j₁ k hrow hj₁ hk hk' hwas
      · -- started by the commit of `t'`, which would have to be `t` and is closed
        have heq := h.pending t claimed t' claimed' hkept.before hclaims' id hid id' hid' j j₁ k
          hrow hj₁ hk hk'
        have hlock := (hc t claimed hkept.before id hid).1
        have hlock' := (hc t' claimed' hclaims' id' hid').1
        rw [heq, hlock', Option.some.injEq] at hlock
        exact hclosed claimed (hlock ▸ hclaims)
    · obtain ⟨busy, c, rfl, htx, _, rfl⟩ := hfresh.select
      rw [hfresh.jobs] at hrow
      rcases hfrom with hwas | ⟨t', claimed', ha, _⟩
      · exact (htakes t busy rfl c htx id hid j k hrow hk id' j₁ hj₁ hk').1 hwas
      · cases ha
  pending := by
    intro t claimed t' claimed' hclaims hclaims' id hid id' hid' j j' k hrow hrow' hk hk'
    rcases claims_step hc he hclaims with hkept | hfresh <;>
      rcases claims_step hc he hclaims' with hkept' | hfresh'
    · rw [hkept.row id hid] at hrow
      rw [hkept'.row id' hid'] at hrow'
      exact h.pending t claimed t' claimed' hkept.before hkept'.before id hid id' hid' j j' k
        hrow hrow' hk hk'
    · obtain ⟨busy, c, rfl, htx, _, rfl⟩ := hfresh'.select
      rw [hfresh'.jobs] at hrow hrow'
      exact absurd hid ((htakes t' busy rfl c htx id' hid' j' k hrow' hk' id j hrow hk).2.1
        t claimed hkept.before)
    · obtain ⟨busy, c, rfl, htx, _, rfl⟩ := hfresh.select
      rw [hfresh.jobs] at hrow hrow'
      exact absurd hid' ((htakes t busy rfl c htx id hid j k hrow hk id' j' hrow' hk').2.1
        t' claimed' hkept'.before)
    · obtain ⟨busy, c, ha, htx, _, rfl⟩ := hfresh.select
      obtain ⟨busy', c', ha', htx', _, rfl⟩ := hfresh'.select
      rw [ha] at ha'
      cases ha'
      rw [htx] at htx'
      cases htx'
      rw [hfresh.jobs] at hrow hrow'
      exact ((htakes t busy ha c htx id hid j k hrow hk id' j' hrow' hk').2.2 hid').symm

end Kind

/-- The second statement of a claim takes no transcode of an entry whose advisory lock
its transaction does not hold: none of its rows has become due and visible since the
first statement. -/
def entriesHeld (s : System) : Action → Bool
  | .select t busy => (s.tx t).all fun c => (newClaims s c busy).all fun id =>
      ((s.jobs.row id).bind transcodeEntry).all fun e => decide (s.advisory e = some t)
  | _ => true

def OneTranscodePerEntry (s : System) : Prop :=
  ∀ id id' j j' e, s.jobs.row id = some j → s.jobs.row id' = some j' → j.type = .transcode →
    j'.type = .transcode → j.entryId = some e → j'.entryId = some e → j.status = .running →
    j'.status = .running → id = id'

/-- Selected transcodes belong to entries that their transaction has locked. -/
def HoldsEntries (s : System) : Prop :=
  ∀ t claimed, Claims s t claimed → ∀ id ∈ claimed, ∀ j e, s.jobs.row id = some j →
    transcodeEntry j = some e → s.advisory e = some t

theorem transcodeEntry_congr (j j' : Job) (ht : j'.type = j.type) (he : j'.entryId = j.entryId) :
    transcodeEntry j' = transcodeEntry j := by
  simp only [transcodeEntry, ht, he]

/-- What the condition says of a row that the statement takes. -/
theorem advisory_of_entriesHeld {s : System} {t : TxId} {busy : List JobId} {c : ClaimTx}
    (h : entriesHeld s (.select t busy) = true) (htx : s.tx t = some c) {id : JobId} {j : Job}
    {e : Int} (hid : id ∈ newClaims s c busy) (hrow : s.jobs.row id = some j)
    (he : transcodeEntry j = some e) : s.advisory e = some t := by
  simp only [entriesHeld, htx, Option.all_some, List.all_eq_true] at h
  have hheld := h id hid
  rw [hrow, Option.bind_some, he, Option.all_some] at hheld
  exact of_decide_eq_true hheld

theorem HoldsEntries.step {s s' : System} {a : Action} (hc : Coherent s) (h : HoldsEntries s)
    (hcond : entriesHeld s a = true) (he : Effect s s' a) : HoldsEntries s' := by
  intro t claimed hclaims id hid j e hrow hentry
  rcases claims_step hc he hclaims with hkept | hfresh
  · rw [hkept.row id hid] at hrow
    exact hkept.advisory e (h t claimed hkept.before id hid j e hrow hentry)
  · obtain ⟨busy, c, rfl, htx, _, rfl⟩ := hfresh.select
    rw [hfresh.jobs] at hrow
    rw [hfresh.advisory]
    exact advisory_of_entriesHeld hcond htx hid hrow hentry

/-- A transaction that is about to select claims nothing yet. -/
theorem not_claims_locking {s : System} {t : TxId} {c : ClaimTx} (htx : s.tx t = some c)
    (hphase : c.phase = .locking []) (claimed : List JobId) : ¬ Claims s t claimed := by
  rintro ⟨c', locked, htx', hsel⟩
  rw [htx, Option.some.injEq] at htx'
  rw [htx', hsel] at hphase
  cases hphase

theorem select_phase {s s' : System} {t : TxId} {busy : List JobId} {c : ClaimTx}
    (h : step s (.select t busy) = some s') (htx : s.tx t = some c) : c.phase = .locking [] := by
  simp only [step, htx] at h
  split at h
  next hphase => exact hphase
  · cases h

/-- With the entry locks held, the selected transcodes are alone. -/
theorem takesAlone_transcode {s s' : System} {t : TxId} {busy : List JobId}
    (hholds : HoldsEntries s) (hcond : entriesHeld s (.select t busy) = true)
    (hstep : step s (.select t busy) = some s') : TakesAlone transcodeEntry s t busy := by
  intro c htx id hid j e hrow he id' j' hrow' he'
  obtain ⟨_, hclaim⟩ := claimable_of_newClaims hid hrow
  refine ⟨claimable_transcode hclaim he hrow' he', ?_, ?_⟩
  · intro t' claimed' hclaims' hid'
    have hheld := advisory_of_entriesHeld hcond htx hid hrow he
    have hheld' := hholds t' claimed' hclaims' id' hid' j' e hrow' he'
    have ht : t = t' := Option.some.inj (hheld.symm.trans hheld')
    subst ht
    exact not_claims_locking htx (select_phase hstep htx) claimed' hclaims'
  · intro hid'
    have hkind : (s.jobs.row id).bind transcodeEntry = some e := by rw [hrow]; exact he
    have hkind' : (s.jobs.row id').bind transcodeEntry = some e := by rw [hrow']; exact he'
    exact keepFirst_unique hid' hid hkind' hkind

theorem transcode_invariant {clock : Int} {trace : List Action} {s : System}
    (h : Run step (fun s a => entriesHeld s a = true) (initial clock) trace s) :
    Coherent s ∧ Exclusive transcodeEntry s ∧ HoldsEntries s := by
  refine h.invariant (fun s => Coherent s ∧ Exclusive transcodeEntry s ∧ HoldsEntries s)
    ⟨coherent_initial clock, exclusive_initial clock, ?_⟩ ?_
  · exact fun t claimed hclaims => absurd hclaims (not_claims_initial clock t claimed)
  · rintro s a s' ⟨hc, hex, hholds⟩ hcond hstep
    have he := step_effect hstep
    refine ⟨hc.step he, hex.step transcodeEntry_congr hc he ?_, hholds.step hc hcond he⟩
    rintro t busy rfl
    exact takesAlone_transcode hholds hcond hstep

theorem one_transcode_per_entry {clock : Int} {trace : List Action} {s : System}
    (h : Run step (fun s a => entriesHeld s a = true) (initial clock) trace s) :
    OneTranscodePerEntry s := by
  intro id id' j j' e hrow hrow' ht ht' he he' hrun hrun'
  obtain ⟨_, hex, _⟩ := transcode_invariant h
  exact hex.running id id' j j' e hrow hrow' (by simp [transcodeEntry, ht, he])
    (by simp [transcodeEntry, ht', he']) hrun hrun'

/-- A claim of one worker, without other transactions in between. -/
def claimAlone (t : TxId) (workerId : WorkerId) (entries : Nat) (ids : List JobId) : List Action :=
  [.beginClaim t workerId 2 [], .readEntries t] ++ List.replicate entries (.lockEntry t) ++
    [.select t [], .commit t ids]

def isRunning (s : System) (id : JobId) : Bool := (s.jobs.row id).any fun j => j.status = .running

/-- Two workers start transcodes of two entries while a second flavor of the first waits. -/
theorem one_transcode_per_entry_two_workers : ∃ s, OneTranscodePerEntry s ∧
    isRunning s 0 = true ∧ isRunning s 2 = true ∧ isRunning s 1 = false := by
  have hrun : ∃ s, Run step (fun s a => entriesHeld s a = true) (initial 0)
      ([Action.reserve, .reserve, .reserve, .enqueue 0 0 .transcode (some 1) (some 1) 3 none,
        .enqueue 1 0 .transcode (some 1) (some 2) 3 none] ++ claimAlone 0 7 1 [0] ++
        [Action.enqueue 2 0 .transcode (some 2) (some 1) 3 none] ++ claimAlone 1 8 2 [2]) s ∧
      (isRunning s 0 && isRunning s 2 && ! isRunning s 1) = true :=
    exists_run (fun _ _ h => h) (by decide +kernel)
  obtain ⟨s, hs, hp⟩ := hrun
  simp only [Bool.and_eq_true, Bool.not_eq_true'] at hp
  exact ⟨s, one_transcode_per_entry hs, hp.1.1, hp.1.2, hp.2⟩

/-- Two transcodes of entry 1 were inserted before worker 7 began its claim and become
visible after its first statement. It selects one of them without the lock of the
entry, worker 8 locks the entry and selects the other. -/
theorem two_transcodes_of_entry : ∃ trace s, Run step Always (initial 0) trace s ∧
    ¬ OneTranscodePerEntry s := by
  have hrun : ∃ s, Run step Always (initial 0)
      [.reserve, .reserve, .tick 1, .beginClaim 0 7 2 [], .readEntries 0,
        .enqueue 0 0 .transcode (some 1) (some 1) 3 none, .select 0 [],
        .enqueue 1 0 .transcode (some 1) (some 2) 3 none, .beginClaim 1 8 2 [], .readEntries 1,
        .lockEntry 1, .select 1 [], .commit 0 [0], .commit 1 [1]] s ∧
      ((s.jobs.row 0).any fun j => (s.jobs.row 1).any fun j' => j.type = .transcode &&
        j'.type = .transcode && j.entryId = some 1 && j'.entryId = some 1 &&
        j.status = .running && j'.status = .running) = true :=
    exists_always (by decide +kernel)
  obtain ⟨s, hs, hp⟩ := hrun
  obtain ⟨j, hrow, hp⟩ := (Option.any_eq_true _ _).mp hp
  obtain ⟨j', hrow', hp⟩ := (Option.any_eq_true _ _).mp hp
  simp only [Bool.and_eq_true, decide_eq_true_eq] at hp
  obtain ⟨⟨⟨⟨⟨ht, ht'⟩, he⟩, he'⟩, hr⟩, hr'⟩ := hp
  exact ⟨_, s, hs, fun h => absurd (h 0 1 j j' 1 hrow hrow' ht ht' he he' hr hr') (by decide)⟩

/-- While a claim has a download selected, the second statement of another one takes no
download with a lower id: none of its rows has been retried or inserted since. -/
def noEarlierDownload (s : System) : Action → Bool
  | .select t busy => (s.tx t).all fun c => (newClaims s c busy).all fun id =>
      ! ((s.jobs.row id).any (·.type = .download) && s.jobs.exists fun id' j' =>
        j'.type = .download && (s.rowLock id').isSome && decide (id < id'))
  | _ => true

def OneDownload (s : System) : Prop :=
  ∀ id id' j j', s.jobs.row id = some j → s.jobs.row id' = some j' → j.type = .download →
    j'.type = .download → j.status = .running → j'.status = .running → id = id'

/-- All downloads are of one kind. -/
def downloadKind (j : Job) : Option Unit := if j.type = .download then some () else none

theorem downloadKind_eq {j : Job} {k : Unit} (h : downloadKind j = some k) : j.type = .download := by
  simp only [downloadKind, Option.ite_none_right_eq_some] at h
  exact h.1

/-- A claimable download is the earliest queued one; a selected one is queued too, so
the condition leaves none to another transaction. -/
theorem takesAlone_download {s : System} {t : TxId} {busy : List JobId} (hc : Coherent s)
    (hcond : noEarlierDownload s (.select t busy) = true) : TakesAlone downloadKind s t busy := by
  intro c htx id hid j k hrow hk id' j' hrow' hk'
  obtain ⟨hfree, hclaim⟩ := claimable_of_newClaims hid hrow
  have hd := downloadKind_eq hk
  have hd' := downloadKind_eq hk'
  obtain ⟨hidle, hearliest⟩ := claimable_download hclaim hd hrow' hd'
  refine ⟨hidle, ?_, ?_⟩
  · intro t' claimed' hclaims' hid'
    have hlock := (hc t' claimed' hclaims' id' hid').1
    have hqueued := hc.queued hclaims' hid' hrow'
    have hne : id ≠ id' := by
      rintro rfl
      rw [rowLock_of_not_isLocked hfree] at hlock
      cases hlock
    have hlt : id < id' := Nat.lt_of_le_of_ne (hearliest hqueued) hne
    simp only [noEarlierDownload, htx, Option.all_some, List.all_eq_true, Bool.not_eq_true',
      ← Bool.not_eq_true] at hcond
    have hnone := hcond id hid
    rw [hrow, Option.any_some, decide_eq_true hd, Bool.true_and, Jobs.exists_iff] at hnone
    exact hnone ⟨id', j', hrow', by simp [hd', hlock, hlt]⟩
  · intro hid'
    obtain ⟨_, hclaim'⟩ := claimable_of_newClaims hid' hrow'
    have hle := hearliest (claimable_queued hclaim')
    have hge := (claimable_download hclaim' hd' hrow hd).2 (claimable_queued hclaim)
    exact Nat.le_antisymm hge hle

theorem one_download {clock : Int} {trace : List Action} {s : System}
    (h : Run step (fun s a => noEarlierDownload s a = true) (initial clock) trace s) :
    OneDownload s := by
  have hinv : Coherent s ∧ Exclusive downloadKind s := by
    refine h.invariant (fun s => Coherent s ∧ Exclusive downloadKind s)
      ⟨coherent_initial clock, exclusive_initial clock⟩ ?_
    rintro s a s' ⟨hc, hex⟩ hcond hstep
    have he := step_effect hstep
    refine ⟨hc.step he, hex.step (fun j j' ht _ => by simp only [downloadKind, ht]) hc he ?_⟩
    rintro t busy rfl
    exact takesAlone_download hc hcond
  intro id id' j j' hrow hrow' hd hd' hrun hrun'
  exact hinv.2.running id id' j j' () hrow hrow' (by simp [downloadKind, hd])
    (by simp [downloadKind, hd']) hrun hrun'

/-- One download runs and the next one waits, also for a second worker. -/
theorem one_download_two_workers : ∃ s, OneDownload s ∧ isRunning s 0 = true ∧
    isRunning s 1 = false := by
  have hrun : ∃ s, Run step (fun s a => noEarlierDownload s a = true) (initial 0)
      ([Action.reserve, .reserve, .enqueue 0 0 .download (some 1) none 3 none,
        .enqueue 1 0 .download (some 2) none 3 none] ++ claimAlone 0 7 0 [0] ++
        [Action.beginClaim 1 8 2 [], .readEntries 1, .select 1 []]) s ∧
      (isRunning s 0 && ! isRunning s 1) = true :=
    exists_run (fun _ _ h => h) (by decide +kernel)
  obtain ⟨s, hs, hp⟩ := hrun
  simp only [Bool.and_eq_true, Bool.not_eq_true'] at hp
  exact ⟨s, one_download hs, hp.1, hp.2⟩

/-- Download 0 has failed and is retried while worker 8 has download 1 selected but not
committed; worker 9 finds download 0 the earliest and none running. -/
theorem two_downloads : ∃ trace s, Run step Always (initial 0) trace s ∧ ¬ OneDownload s := by
  have hrun : ∃ s, Run step Always (initial 0)
      ([Action.reserve, .reserve, .enqueue 0 0 .download (some 1) none 1 none] ++
        claimAlone 0 7 0 [0] ++
        [Action.failRead 7 0, .execute (.failWrite 7 0 "unreachable" 1 1) 0,
        .enqueue 1 0 .download (some 2) none 1 none, .beginClaim 1 8 2 [], .readEntries 1,
        .select 1 [], .execute (.retry 0) 0, .beginClaim 2 9 2 [], .readEntries 2, .select 2 [],
        .commit 1 [1], .commit 2 [0]]) s ∧
      ((s.jobs.row 0).any fun j => (s.jobs.row 1).any fun j' => j.type = .download &&
        j'.type = .download && j.status = .running && j'.status = .running) = true :=
    exists_always (by decide +kernel)
  obtain ⟨s, hs, hp⟩ := hrun
  obtain ⟨j, hrow, hp⟩ := (Option.any_eq_true _ _).mp hp
  obtain ⟨j', hrow', hp⟩ := (Option.any_eq_true _ _).mp hp
  simp only [Bool.and_eq_true, decide_eq_true_eq] at hp
  obtain ⟨⟨⟨hd, hd'⟩, hr⟩, hr'⟩ := hp
  exact ⟨_, s, hs, fun h => absurd (h 0 1 j j' hrow hrow' hd hd' hr hr') (by decide)⟩

end Vidsilo.Queue.Exclusion
