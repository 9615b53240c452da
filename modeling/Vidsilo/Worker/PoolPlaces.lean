import Mathlib.Data.List.Perm.Subperm
import Vidsilo.Queue.Claimed
import Vidsilo.Worker.Heartbeat

/-!
# Running rows and places in the pool

Source: cmd/vidsilo/worker.go:148-201 (`run`, `claimRound`).

`claimRound` asks the queue for as many jobs as the pool has places, not for as many as
are free. The rows it gets are `running` from the claim on, also those that wait for a
place. They are all executed at once in a run in which no round finds more claimable rows than
there are free places, and in which no job ends with its row still running.
-/
namespace Vidsilo.Worker.PoolPlaces
open Queue.Table Queue.Claim Library.Transition Heartbeat

instance (w : WorkerId) (j : Job) : Decidable (Mine w j) :=
  inferInstanceAs (Decidable (_ ∧ _))

/-- The rows that run under the worker. -/
def running (s : Fleet) (w : WorkerId) : List JobId := s.jobs.matching fun _ j => decide (Mine w j)

/-- The rows are no more than the places, no job waits for a place that is not free, and
every row is that of a job in the pool or about to be. -/
structure Served (s : Fleet) (w : WorkerId) (l : Loop) : Prop where
  bound : (running s w).length ≤ l.concurrency
  free : l.blocked = false
  executed : ∀ id ∈ running s w, id ∈ l.claimed

/-- The places for rows that can be claimed: transcodes of one entry take one. -/
def places (jobs : Jobs) (rows : List JobId) : Nat :=
  (Queue.Claimed.loose jobs rows).length +
    (rows.filterMap (Queue.Claimed.entryOf jobs)).toFinset.card

/-- The free places are enough for the rows that can be claimed, and `runJob` does not leave a
row running that no other run of the worker goes on with. -/
def keepsPlaces (s : Fleet) : Action → Bool
  | .claimRound w busy => (s.loops.lookup w).all fun l =>
      let claimable := selectDue s.jobs l.concurrency [] s.clock fun id => decide (id ∈ busy)
      decide (places s.jobs claimable ≤ l.concurrency - l.pool.length)
  | .finish w id .silent => (s.loops.lookup w).all fun l => (s.jobs.row id).all fun j =>
      ! decide (Mine w j) || decide (id ∈ l.pending ++ l.pool.erase id)
  | _ => true

theorem length_claims (s : Fleet) (l : Loop) (busy : List JobId) :
    (claims s l busy).length =
      places s.jobs (selectDue s.jobs l.concurrency [] s.clock fun id => decide (id ∈ busy)) :=
  Queue.Claimed.length_keepFirst_nil

/-- Every row that runs under the worker is that of one of the jobs. -/
def Executed (w : WorkerId) (ids : List JobId) (jobs : Jobs) : Prop :=
  ∀ id j, jobs.row id = some j → Mine w j → id ∈ ids

/-- The rows that the update writes are not the worker's afterwards, or were before. -/
theorem Executed.update {w : WorkerId} {ids : List JobId} {jobs : Jobs} {u : Update}
    (h : Executed w ids jobs)
    (same : ∀ id j, jobs.row id = some j → u.applies id j = true → Mine w (u.set j) → Mine w j) :
    Executed w ids (jobs.updateWhere u) := by
  intro id j' hrow' hmine
  obtain ⟨j, hrow, rfl⟩ := Jobs.row_updateWhere.mp hrow'
  cases happ : u.applies id j with
  | false =>
    rw [happ] at hmine
    exact h id j hrow hmine
  | true =>
    rw [happ] at hmine
    exact h id j hrow (same id j hrow happ hmine)

theorem Executed.insert {w : WorkerId} {ids : List JobId} {jobs : Jobs}
    (h : Executed w ids jobs) {j : Job} (hj : j.status = .queued) :
    Executed w ids (jobs.reserve.insert jobs.nextId (Nat.lt_succ_self _) j) := by
  have hrow : ∀ i, (jobs.reserve.insert jobs.nextId (Nat.lt_succ_self _) j).row i =
      if i = jobs.nextId then some j else jobs.row i := fun i => Jobs.row_insert _ _ _ _
  intro id j' hj' hmine
  rw [hrow] at hj'
  split at hj'
  · rw [← Option.some.inj hj'] at hmine
    exact absurd hmine (not_mine_of_queued hj)
  · exact h id j' hj' hmine

theorem Executed.request {w : WorkerId} {ids : List JobId} {jobs : Jobs} (h : Executed w ids jobs)
    (r : Request) (now : Int) : Executed w ids (jobs.updateWhere (r.update now)) :=
  h.update fun _ _ _ _ hmine => r.mine_before hmine

theorem Executed.heartbeat {w v : WorkerId} {ids : List JobId} {jobs : Jobs}
    (h : Executed w ids jobs) (now : Int) :
    Executed w ids (jobs.updateWhere (Queue.Table.heartbeat v now)) :=
  h.update fun _ _ _ _ hmine => hmine

theorem Executed.requeueStale {w : WorkerId} {ids : List JobId} {jobs : Jobs}
    (h : Executed w ids jobs) (now : Int) :
    Executed w ids (jobs.updateWhere (Queue.Table.requeueStale staleAfter now)) :=
  h.update fun _ _ _ _ hmine => absurd hmine (not_mine_of_queued rfl)

theorem Executed.start_other {w v : WorkerId} {ids claimed : List JobId} {jobs : Jobs}
    (h : Executed w ids jobs) (hne : v ≠ w) (now : Int) :
    Executed w ids (jobs.updateWhere (start claimed v now)) :=
  h.update fun _ _ _ _ hmine => absurd (Option.some.inj hmine.2) hne

theorem Executed.start_self {w : WorkerId} {ids claimed : List JobId} {jobs : Jobs}
    (h : Executed w ids jobs) (now : Int) :
    Executed w (claimed ++ ids) (jobs.updateWhere (start claimed w now)) := by
  intro id j' hrow' hmine
  obtain ⟨j, hrow, rfl⟩ := Jobs.row_updateWhere.mp hrow'
  by_cases hid : id ∈ claimed
  · exact List.mem_append_left _ hid
  · rw [if_neg (by simpa [start] using hid)] at hmine
    exact List.mem_append_right _ (h id j hrow hmine)

theorem write_applies {outcome : Outcome} {id : JobId} {j : Job} {now : Int} {u : Update}
    (h : outcome.write id j now = some u) (j' : Job) : u.applies id j' = true := by
  cases outcome with
  | done =>
    cases h
    exact decide_eq_true rfl
  | cancelled reason =>
    cases h
    exact decide_eq_true rfl
  | failed errMsg =>
    simp only [Outcome.write, Option.some.injEq, failWrite] at h
    split at h
    · subst h
      exact decide_eq_true rfl
    · subst h
      exact decide_eq_true rfl
  | silent => cases h

/-- After the write that ends a run, its row runs under no worker. -/
theorem Executed.finish {w : WorkerId} {ids ids' : List JobId} {jobs : Jobs} {id : JobId} {j : Job}
    {u : Update} {outcome : Outcome} {now : Int} (h : Executed w ids jobs)
    (hwrite : outcome.write id j now = some u) (others : ∀ i ∈ ids, i ≠ id → i ∈ ids') :
    Executed w ids' (jobs.updateWhere u) := by
  intro i j' hrow' hmine
  obtain ⟨j₀, hrow, rfl⟩ := Jobs.row_updateWhere.mp hrow'
  cases happ : u.applies i j₀ with
  | false =>
    rw [happ] at hmine
    refine others i (h i j₀ hrow hmine) ?_
    rintro rfl
    rw [write_applies hwrite] at happ
    cases happ
  | true =>
    rw [happ] at hmine
    exact absurd hmine.1 (Outcome.write_spec hwrite happ).2

/-- Every job of the worker has or will have a place, and every row of the worker a job. -/
structure Placed (jobs : Jobs) (w : WorkerId) (l : Loop) : Prop where
  places : l.claimed.length ≤ l.concurrency
  executed : Executed w l.claimed jobs

def AllPlaced (s : Fleet) : Prop := ∀ w l, s.loops.lookup w = some l → Placed s.jobs w l

theorem AllPlaced.finish {s : Fleet} {w : WorkerId} {l : Loop} {id : JobId} {j : Job}
    {outcome : Outcome} (h : AllPlaced s) (hl : s.loops.lookup w = some l)
    (hrow : s.jobs.row id = some j) (hid : id ∈ l.pool)
    (hcond : keepsPlaces s (.finish w id outcome) = true) :
    AllPlaced ⟨s.clock, (outcome.write id j s.clock).elim s.jobs s.jobs.updateWhere,
      s.loops.insert w { l with pool := l.pool.erase id }⟩ := by
  have hw := h w l hl
  have hfewer : (l.pending ++ l.pool.erase id).length ≤ l.concurrency :=
    ((List.Sublist.refl _).append List.erase_sublist).length_le.trans hw.places
  have others : ∀ i ∈ l.claimed, i ≠ id → i ∈ l.pending ++ l.pool.erase id := by
    intro i hi hne
    rcases List.mem_append.mp hi with hi | hi
    · exact List.mem_append_left _ hi
    · exact List.mem_append_right _ ((List.mem_erase_of_ne hne).mpr hi)
  cases hwrite : outcome.write id j s.clock with
  | some u =>
    refine forall_lookup_insert ⟨hfewer, hw.executed.finish hwrite others⟩ fun v k _ hk => ?_
    have hv := h v k hk
    refine ⟨hv.places, hv.executed.update fun i j' _ happ hmine => ?_⟩
    exact absurd hmine.1 (Outcome.write_spec hwrite happ).2
  | none =>
    refine forall_lookup_insert ⟨hfewer, fun i j' hrow' hmine => ?_⟩ fun v k _ hk => h v k hk
    by_cases hi : i = id
    · -- the row is left running only if another run goes on with the job
      subst hi
      cases outcome with
      | silent =>
        simp only [Option.elim_none] at hrow'
        simp only [keepsPlaces, hl, hrow', Option.all_some, hmine, decide_true, Bool.not_true,
          Bool.false_or, decide_eq_true_eq] at hcond
        exact hcond
      | done => cases hwrite
      | cancelled reason => cases hwrite
      | failed errMsg => cases hwrite
    · exact others i (hw.executed i j' hrow' hmine) hi

theorem AllPlaced.step {s s' : Fleet} {a : Action} (h : AllPlaced s)
    (hcond : keepsPlaces s a = true) (hstep : Heartbeat.step s a = some s') : AllPlaced s' := by
  cases a with
  | tick d =>
    simp only [Heartbeat.step] at hstep
    split at hstep
    · cases hstep
      exact h
    · cases hstep
  | enqueue jobType entryId flavorId maxAttempts runAt =>
    cases hstep
    intro w l hl
    exact ⟨(h w l hl).places, (h w l hl).executed.insert rfl⟩
  | request r =>
    cases hstep
    intro w l hl
    exact ⟨(h w l hl).places, (h w l hl).executed.request r s.clock⟩
  | start w concurrency =>
    obtain ⟨hfresh, rfl⟩ := step_start hstep
    refine forall_lookup_insert ⟨Nat.zero_le _, fun id j hrow hmine => ?_⟩ fun v k _ hk => h v k hk
    -- the id of a new worker is on no row
    exact absurd hmine.2 (hfresh id j hrow)
  | crash w =>
    cases hstep
    exact forall_lookup_erase h
  | heartbeat w =>
    obtain ⟨l, hl, rfl⟩ := step_heartbeat hstep
    refine forall_lookup_insert ?_ fun v k _ hk => ?_
    · exact ⟨(h w l hl).places, (h w l hl).executed.heartbeat s.clock⟩
    · exact ⟨(h v k hk).places, (h v k hk).executed.heartbeat s.clock⟩
  | requeueStale w =>
    cases step_requeueStale hstep
    intro v k hk
    exact ⟨(h v k hk).places, (h v k hk).executed.requeueStale s.clock⟩
  | claimRound w busy =>
    obtain ⟨l, hl, hidle, rfl⟩ := step_claimRound hstep
    have hw := h w l hl
    have hpool : l.claimed = l.pool := by simp [Loop.claimed, hidle]
    refine forall_lookup_insert ⟨?_, ?_⟩ fun v k hv hk => ?_
    · simp only [keepsPlaces, hl, Option.all_some, decide_eq_true_eq, ← length_claims] at hcond
      have hplaces := hw.places
      rw [hpool] at hplaces
      simp only [Loop.claimed, List.length_append]
      omega
    · exact (hpool ▸ hw.executed).start_self s.clock
    · exact ⟨(h v k hk).places, (h v k hk).executed.start_other (Ne.symm hv) s.clock⟩
  | dispatch w =>
    obtain ⟨l, id, rest, hl, hpending, rfl⟩ := step_dispatch hstep
    have hw := h w l hl
    have hperm := claimed_dispatched hpending
    refine forall_lookup_insert ⟨?_, ?_⟩ fun v k _ hk => h v k hk
    · exact hperm.length_eq.trans_le hw.places
    · exact fun i j hrow hmine => hperm.mem_iff.mpr (hw.executed i j hrow hmine)
  | finish w id outcome =>
    obtain ⟨l, j, hl, hrow, hid, rfl⟩ := step_finish hstep
    exact h.finish hl hrow hid hcond

theorem mem_running {s : Fleet} {w : WorkerId} {id : JobId} :
    id ∈ running s w ↔ ∃ j, s.jobs.row id = some j ∧ Mine w j := by
  simp [running, Jobs.mem_matching]

theorem served_of_placed {s : Fleet} {w : WorkerId} {l : Loop} (h : Placed s.jobs w l) :
    Served s w l := by
  have executed : ∀ id ∈ running s w, id ∈ l.claimed := by
    intro id hid
    obtain ⟨j, hrow, hmine⟩ := mem_running.mp hid
    exact h.executed id j hrow hmine
  have distinct : (running s w).Nodup := Jobs.nodup_matching _ _
  refine ⟨?_, ?_, executed⟩
  · exact (List.Nodup.subperm distinct executed).length_le.trans h.places
  · -- a job that waits counts among the claimed ones
    have hplaces := h.places
    simp only [Loop.blocked, Bool.and_eq_false_iff, decide_eq_false_iff_not, ne_eq, not_not]
    cases hpending : l.pending with
    | nil => exact Or.inl rfl
    | cons id rest =>
      simp only [Loop.claimed, hpending, List.length_append, List.length_cons] at hplaces
      exact Or.inr (by omega)

/-- While every round finds free places for the rows that it can claim, and no job ends with its
row still running, the rows that run under a worker are no more than the places of its
pool, and each is that of a job in the pool or with a free place to go to. -/
theorem rows_within_places {clock : Int} {trace : List Action} {s : Fleet}
    (h : Run Heartbeat.step (fun s a => keepsPlaces s a = true) (initial clock) trace s)
    {w : WorkerId} {l : Loop} (hl : s.loops.lookup w = some l) : Served s w l := by
  have placed : AllPlaced s := by
    refine h.invariant AllPlaced ?_ fun s a s' hs hcond hstep => hs.step hcond hstep
    intro w l hl
    simp [initial] at hl
  exact served_of_placed (placed w l hl)

/-- Worker 7 has a pool of two and one job in it; the next round claims one more job. -/
theorem rows_within_places_full_pool : ∃ s l, s.loops.lookup 7 = some l ∧
    l.pool.length = 2 ∧ Served s 7 l := by
  have hrun : ∃ s, Run Heartbeat.step (fun s a => keepsPlaces s a = true) (initial 0)
      [.start 7 2, .enqueue .probe (some 1) none 3 none, .claimRound 7 [], .dispatch 7,
        .enqueue .probe (some 2) none 3 none, .claimRound 7 [], .dispatch 7] s ∧
      ((s.loops.lookup 7).any fun l => decide (l.pool.length = 2)) = true :=
    exists_run (fun _ _ h => h) (by decide +kernel)
  obtain ⟨s, hs, hp⟩ := hrun
  obtain ⟨l, hl, hp⟩ := (Option.any_eq_true _ _).mp hp
  exact ⟨s, l, hl, of_decide_eq_true hp, rows_within_places hs hl⟩

/-- Worker 7 with a pool of one claims a second job while it executes the first: two rows
run under it, and its loop waits for the place. -/
theorem second_row_waits : ∃ trace s l, Run Heartbeat.step Always (initial 0) trace s ∧
    s.loops.lookup 7 = some l ∧ l.concurrency = 1 ∧ (running s 7).length = 2 ∧
    l.blocked = true := by
  have hrun : ∃ s, Run Heartbeat.step Always (initial 0)
      [.start 7 1, .enqueue .probe (some 1) none 3 none, .enqueue .probe (some 2) none 3 none,
        .claimRound 7 [], .dispatch 7, .claimRound 7 []] s ∧
      ((s.loops.lookup 7).any fun l => decide (l.concurrency = 1 ∧ (running s 7).length = 2 ∧
        l.blocked = true)) = true :=
    exists_always (by decide +kernel)
  obtain ⟨s, hs, hp⟩ := hrun
  obtain ⟨l, hl, hp⟩ := (Option.any_eq_true _ _).mp hp
  exact ⟨_, s, l, hs, hl, of_decide_eq_true hp⟩

/-- With more jobs than places, the loop blocks once the places are taken. -/
theorem blocks_of_overfull {s : Fleet} {w : WorkerId} {l : Loop}
    (hl : s.loops.lookup w = some l) (pool : l.pool.length ≤ l.concurrency)
    (many : l.concurrency < l.claimed.length) :
    ∃ n s' l', Run Heartbeat.step Always s (List.replicate n (.dispatch w)) s' ∧
      s'.loops.lookup w = some l' ∧ l'.blocked = true := by
  induction hfree : l.concurrency - l.pool.length generalizing s l with
  | zero =>
    refine ⟨0, s, l, .start, hl, ?_⟩
    simp only [Loop.claimed, List.length_append] at many
    simp only [Loop.blocked, ne_eq, Bool.and_eq_true, decide_eq_true_eq]
    refine ⟨fun none => ?_, by omega⟩
    rw [none, List.length_nil] at many
    omega
  | succ m ih =>
    cases hpending : l.pending with
    | nil =>
      simp only [Loop.claimed, hpending, List.nil_append] at many
      omega
    | cons id rest =>
      have taken : Heartbeat.step s (.dispatch w) = some { s with
          loops := s.loops.insert w { l with pending := rest, pool := id :: l.pool } } := by
        simp only [Heartbeat.step, hl, hpending]
        rw [if_pos (by omega)]
      have placed : ({ l with pending := rest, pool := id :: l.pool } : Loop).claimed.length =
          l.claimed.length := by
        simp only [Loop.claimed, hpending, List.length_append, List.length_cons]
        omega
      obtain ⟨n, s', l', run, found, blocked⟩ := ih
        (s := { s with
          loops := s.loops.insert w { l with pending := rest, pool := id :: l.pool } })
        (l := { l with pending := rest, pool := id :: l.pool }) (by simp)
        (by simp only [List.length_cons]; omega) (by rw [placed]; exact many)
        (by simp only [List.length_cons]; omega)
      exact ⟨n + 1, s', l', run.prepend trivial taken, found, blocked⟩

/-- After any step of a worker that breaks the condition, filling the free places is
enough to reach a state in which its rows are not all served. -/
theorem unserved_of_breaks {s s' : Fleet} {w : WorkerId} {l : Loop} {busy : List JobId}
    {id : JobId} {a : Action} (hl : s.loops.lookup w = some l)
    (pool : l.pool.length ≤ l.concurrency)
    (own : a = .claimRound w busy ∨ a = .finish w id .silent)
    (breaks : keepsPlaces s a = false) (hstep : Heartbeat.step s a = some s') :
    ∃ n s'' l', Run Heartbeat.step Always s' (List.replicate n (.dispatch w)) s'' ∧
      s''.loops.lookup w = some l' ∧ ¬ Served s'' w l' := by
  rcases own with rfl | rfl
  · simp only [keepsPlaces, hl, Option.all_some, decide_eq_false_iff_not, not_le,
      ← length_claims] at breaks
    obtain ⟨l', hl', _, rfl⟩ := step_claimRound hstep
    obtain rfl := Option.some.inj (hl.symm.trans hl')
    obtain ⟨n, s'', l', run, found, blocked⟩ := blocks_of_overfull (w := w)
      (s := { s with
        jobs := s.jobs.updateWhere (Queue.Table.start (claims s l busy) w s.clock)
        loops := s.loops.insert w { l with pending := claims s l busy } })
      (l := { l with pending := claims s l busy }) (by simp) pool
      (by simp only [Loop.claimed, List.length_append]; omega)
    refine ⟨n, s'', l', run, found, fun served => ?_⟩
    rw [served.free] at blocked
    cases blocked
  · obtain ⟨l', j, hl', hrow, _, rfl⟩ := step_finish hstep
    obtain rfl := Option.some.inj (hl.symm.trans hl')
    simp only [keepsPlaces, hl, hrow, Option.all_some, Bool.or_eq_false_iff,
      Bool.not_eq_false', decide_eq_true_eq, decide_eq_false_iff_not] at breaks
    refine ⟨0, _, { l with pool := l.pool.erase id }, .start, by simp, fun served => ?_⟩
    exact breaks.2 (served.executed id (mem_running.mpr ⟨j, hrow, breaks.1⟩))

end Vidsilo.Worker.PoolPlaces
