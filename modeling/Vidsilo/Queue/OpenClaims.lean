import Vidsilo.Queue.Machine

/-!
# What an open claim holds on to

Source: internal/queue/queue.go:120-177. A row that a claim has selected stays locked
and `queued` until the transaction ends, whatever the other workers and the API do
(`Coherent`). Per step: an open claim either keeps its rows, locks and advisory locks
or is the one the step makes (`claims_step`), and a row runs only if it did before or
a commit starts it (`running_step`).
-/
namespace Vidsilo.Queue.OpenClaims
open Table Claim Machine Library.Transition

/-- A selected job is locked by its transaction and still queued. -/
def Coherent (s : System) : Prop :=
  ∀ t claimed, Claims s t claimed → ∀ id ∈ claimed,
    s.rowLock id = some t ∧ ∃ j, s.jobs.row id = some j ∧ j.status = .queued

/-- What the second statement of a claim and the loop after it would claim. -/
def newClaims (s : System) (c : ClaimTx) (busy : List JobId) : List JobId :=
  keepFirst s.jobs [] (selectDue s.jobs c.limit c.exclude c.now (s.isLocked busy))

theorem mem_newClaims {s : System} {c : ClaimTx} {busy : List JobId} {id : JobId}
    (h : id ∈ newClaims s c busy) :
    s.isLocked busy id = false ∧
      ∃ j, s.jobs.row id = some j ∧ claimable s.jobs c.exclude c.now id j = true :=
  mem_selectDue ((keepFirst_sublist _ _ _).subset h)

theorem claimable_of_newClaims {s : System} {c : ClaimTx} {busy : List JobId} {id : JobId} {j : Job}
    (h : id ∈ newClaims s c busy) (hrow : s.jobs.row id = some j) :
    s.isLocked busy id = false ∧ claimable s.jobs c.exclude c.now id j = true := by
  obtain ⟨hfree, j', hrow', hclaim⟩ := mem_newClaims h
  rw [hrow, Option.some.injEq] at hrow'
  subst hrow'
  exact ⟨hfree, hclaim⟩

theorem Coherent.queued {s : System} {t : TxId} {claimed : List JobId} {id : JobId} {j : Job}
    (hc : Coherent s) (hclaims : Claims s t claimed) (hid : id ∈ claimed)
    (hrow : s.jobs.row id = some j) : j.status = .queued := by
  obtain ⟨_, j', hrow', hqueued⟩ := hc t claimed hclaims id hid
  rw [hrow, Option.some.injEq] at hrow'
  rw [hrow']
  exact hqueued

theorem rowLock_of_not_isLocked {s : System} {busy : List JobId} {id : JobId}
    (h : s.isLocked busy id = false) : s.rowLock id = none := by
  simp only [System.isLocked, Bool.or_eq_false_iff] at h
  simpa using h.1

theorem claims_close {s : System} {t i : TxId} {claimed : List JobId}
    (h : Claims (s.close t) i claimed) : i ≠ t ∧ Claims s i claimed := by
  obtain ⟨c, locked, htx, hphase⟩ := h
  simp only [System.close] at htx
  split at htx
  · cases htx
  next hne => exact ⟨hne, c, locked, htx, hphase⟩

/-- What an open claim holds on to while it stays open. -/
structure Kept (s s' : System) (t : TxId) (claimed : List JobId) : Prop where
  before : Claims s t claimed
  row : ∀ id ∈ claimed, s'.jobs.row id = s.jobs.row id
  rowLock : ∀ id ∈ claimed, s'.rowLock id = some t
  advisory : ∀ e, s.advisory e = some t → s'.advisory e = some t

/-- A claim made by the step itself. -/
structure Fresh (s s' : System) (a : Action) (t : TxId) (claimed : List JobId) : Prop where
  jobs : s'.jobs = s.jobs
  advisory : s'.advisory = s.advisory
  rowLock : ∀ id ∈ claimed, s'.rowLock id = some t
  select : ∃ busy c, a = .select t busy ∧ s.tx t = some c ∧ c.phase = .locking [] ∧
    claimed = newClaims s c busy

theorem kept_of_close {s : System} {t t' : TxId} {claimed : List JobId}
    (hc : Coherent s) (h : Claims s t claimed) (hne : t ≠ t') : Kept s (s.close t') t claimed where
  before := h
  row _ _ := rfl
  rowLock id hid := by
    have hlock := (hc t claimed h id hid).1
    simp [System.close, hlock, hne]
  advisory e he := by simp [System.close, he, hne]

/-- A statement of a run or of the API passes the selected rows by. -/
theorem row_executed {s : System} {st : Statement} {began : Int} {t : TxId}
    {claimed : List JobId} (hc : Coherent s) (h : Claims s t claimed)
    (free : ∀ id ∈ st.target, s.rowLock id = none) {id : JobId} (hid : id ∈ claimed) :
    (s.jobs.updateWhere (st.update began)).row id = s.jobs.row id := by
  obtain ⟨hlock, j, hrow, hqueued⟩ := hc t claimed h id hid
  have happ : (st.update began).applies id j = false := by
    by_contra happ
    rcases Statement.applies (by simpa using happ) with htarget | ⟨_, hrun⟩
    · rw [free id htarget] at hlock
      cases hlock
    · rw [hqueued] at hrun
      cases hrun
  rw [hrow]
  exact Jobs.row_updateWhere.mpr ⟨j, hrow, by simp [happ]⟩

/-- The rows that a commit starts are not those of another open claim. -/
theorem row_started {s : System} {c : ClaimTx} {t t' : TxId} {claimed claimed' : List JobId}
    (hc : Coherent s) (h : Claims s t claimed) (h' : Claims s t' claimed') (hne : t ≠ t')
    {id : JobId} (hid : id ∈ claimed) :
    (s.jobs.updateWhere (start claimed' c.workerId c.now)).row id = s.jobs.row id := by
  obtain ⟨hlock, j, hrow, _⟩ := hc t claimed h id hid
  have hnot : id ∉ claimed' := by
    intro hid'
    have hlock' := (hc t' claimed' h' id hid').1
    exact hne (Option.some.inj (hlock.symm.trans hlock'))
  rw [hrow]
  exact Jobs.row_updateWhere.mpr ⟨j, hrow, by simp [start, hnot]⟩

theorem claims_step {s s' : System} {a : Action} (hc : Coherent s) (he : Effect s s' a) {t : TxId}
    {claimed : List JobId} (h : Claims s' t claimed) :
    Kept s s' t claimed ∨ Fresh s s' a t claimed := by
  cases he with
  | idle quiet row rowLock claims advisory runs =>
    have hb := claims t claimed h
    refine Or.inl ⟨hb, fun id _ => congrFun row id, fun id hid => ?_, fun e => advisory e t⟩
    rw [rowLock]
    exact (hc t claimed hb id hid).1
  | enqueued new row rowLock tx advisory runs =>
    have hb : Claims s t claimed := by rwa [Claims, tx] at h
    refine Or.inl ⟨hb, fun id hid => ?_, fun id hid => ?_, fun e he => by rwa [advisory]⟩
    · obtain ⟨_, j, hrow, _⟩ := hc t claimed hb id hid
      rw [row, if_neg (by rintro rfl; rw [new] at hrow; cases hrow)]
    · rw [rowLock]
      exact (hc t claimed hb id hid).1
  | executed row free issued accepted rowLock tx advisory runs =>
    have hb : Claims s t claimed := by rwa [Claims, tx] at h
    refine Or.inl ⟨hb, fun id hid => ?_, fun id hid => ?_, fun e he => by rwa [advisory]⟩
    · rw [row]
      exact row_executed hc hb free hid
    · rw [rowLock]
      exact (hc t claimed hb id hid).1
  | @selected t' busy c tx phase after =>
    subst after
    obtain ⟨c', locked, htx, hphase⟩ := h
    simp only [System.setPhase] at htx
    split at htx
    next ht =>
      subst ht
      have hclaimed : claimed = newClaims s c busy := by
        rw [← Option.some.inj htx] at hphase
        exact (Phase.selected.inj hphase).2.symm
      refine Or.inr ⟨rfl, rfl, fun id hid => ?_, busy, c, rfl, tx, phase, hclaimed⟩
      exact if_pos ((keepFirst_sublist _ _ _).subset (hclaimed ▸ hid))
    next ht =>
      have hb : Claims s t claimed := ⟨c', locked, htx, hphase⟩
      refine Or.inl ⟨hb, fun _ _ => rfl, fun id hid => ?_, fun _ he => he⟩
      have hlock := (hc t claimed hb id hid).1
      -- a row that is locked is skipped by the selection
      have hskipped : id ∉ selectDue s.jobs c.limit c.exclude c.now (s.isLocked busy) := by
        intro hmem
        rw [rowLock_of_not_isLocked (mem_selectDue hmem).1] at hlock
        cases hlock
      exact (if_neg hskipped).trans hlock
  | @committed t' c locked claimed' tx phase after =>
    subst after
    obtain ⟨hne, hb⟩ := claims_close (s := s) h
    have hkept := kept_of_close hc hb hne
    exact Or.inl ⟨hb, fun id hid => row_started hc hb ⟨c, locked, tx, phase⟩ hne hid,
      hkept.rowLock, hkept.advisory⟩
  | closed quiet after =>
    subst after
    obtain ⟨hne, hb⟩ := claims_close h
    exact Or.inl (kept_of_close hc hb hne)

theorem Coherent.step {s s' : System} {a : Action} (hc : Coherent s) (he : Effect s s' a) :
    Coherent s' := by
  intro t claimed h id hid
  rcases claims_step hc he h with hkept | hfresh
  · refine ⟨hkept.rowLock id hid, ?_⟩
    rw [hkept.row id hid]
    exact (hc t claimed hkept.before id hid).2
  · refine ⟨hfresh.rowLock id hid, ?_⟩
    obtain ⟨busy, c, rfl, _, _, rfl⟩ := hfresh.select
    obtain ⟨_, j, hrow, hclaim⟩ := mem_newClaims hid
    rw [hfresh.jobs]
    exact ⟨j, hrow, claimable_queued hclaim⟩

/-- A claim lists a job once. -/
def DistinctClaims (s : System) : Prop := ∀ t claimed, Claims s t claimed → claimed.Nodup

theorem DistinctClaims.step {s s' : System} {a : Action} (hc : Coherent s) (h : DistinctClaims s)
    (he : Effect s s' a) : DistinctClaims s' := by
  intro t claimed hclaims
  rcases claims_step hc he hclaims with hkept | hfresh
  · exact h t claimed hkept.before
  · obtain ⟨busy, c, _, _, _, rfl⟩ := hfresh.select
    exact (nodup_selectDue _ _ _ _ _).sublist (keepFirst_sublist _ _ _)

theorem not_claims_initial (clock : Int) (t : TxId) (claimed : List JobId) :
    ¬ Claims (initial clock) t claimed := by
  rintro ⟨c, locked, htx, _⟩
  simp [initial] at htx

theorem coherent_initial (clock : Int) : Coherent (initial clock) :=
  fun t claimed h => absurd h (not_claims_initial clock t claimed)

/-- After a commit its transaction has no claim. -/
theorem not_claims_commit {s s' : System} {t : TxId} {claimed : List JobId}
    (he : Effect s s' (.commit t claimed)) (ids : List JobId) : ¬ Claims s' t ids := by
  cases he with
  | committed tx phase after =>
    subst after
    intro h
    exact (claims_close (s := s) h).1 rfl
  | idle quiet => cases quiet
  | closed quiet => cases quiet

/-- A running row was running before, or a commit has just started it. -/
theorem running_step {s s' : System} {a : Action} (he : Effect s s' a) {id : JobId} {j' : Job}
    (hrow : s'.jobs.row id = some j') (hrun : j'.status = .running) :
    ∃ j, s.jobs.row id = some j ∧ j'.type = j.type ∧ j'.entryId = j.entryId ∧
      (j.status = .running ∨ ∃ t claimed, a = .commit t claimed ∧ Claims s t claimed ∧
        id ∈ claimed ∧ ∀ ids, ¬ Claims s' t ids) := by
  cases row_step he hrow with
  | kept row => exact ⟨j', row, rfl, rfl, Or.inl hrun⟩
  | enqueued new set =>
    subst set
    cases hrun
  | @written st began j row applies set =>
    subst set
    obtain ⟨htype, hentry, hrunning⟩ := Statement.calm st began j
    exact ⟨j, row, htype, hentry, Or.inl (hrunning hrun)⟩
  | @started t c locked claimed j tx phase row mem set =>
    subst set
    exact ⟨j, row, rfl, rfl, Or.inr ⟨t, claimed, rfl, he.claims, mem, not_claims_commit he⟩⟩

end Vidsilo.Queue.OpenClaims
