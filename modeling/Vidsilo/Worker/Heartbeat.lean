import Mathlib.Data.List.AList
import Vidsilo.Library.Transition
import Vidsilo.Queue.Claim

/-!
# Worker loops, heartbeats and stale reclaim

Source: cmd/vidsilo/worker.go:110-201 (`run`, `claimRound`), internal/queue/queue.go
:60-201, 314-354. A worker is one thread: a step of its select loop, or blocked in
`claimRound` on the full pool. The pool runs jobs of any length. Tickers are Go's: a
tick waits in a channel of one place, ticks that find it full are dropped.

The database answers at once, so time passes only while every live loop waits for a
tick or is blocked. A claim is one step here; what its statements see of each other
is the subject of the queue modules. Worker ids are random and never used twice.
Pruning and upload cleanup do not touch the jobs table.
-/
namespace Vidsilo.Worker.Heartbeat
open Queue.Table Queue.Claim Library.Transition

def heartbeatPeriod : Int := 30 * second
def staleAfter : Int := 3 * minute

structure Loop where
  concurrency : Nat
  /-- Jobs of the current claim round that have no place in the pool yet. -/
  pending : List JobId
  pool : List JobId
  lastBeat : Int
  /-- When the next heartbeat tick is in the channel. -/
  nextBeat : Int
  deriving DecidableEq, Repr

structure Fleet where
  clock : Int
  jobs : Jobs
  /-- The live workers. -/
  loops : AList fun _ : WorkerId => Loop

def initial (clock : Int) : Fleet := ⟨clock, Jobs.empty, ∅⟩

/-- Jobs the worker has claimed and not finished. -/
def Loop.claimed (l : Loop) : List JobId := l.pending ++ l.pool

/-- Blocked on `sem <- struct{}{}`. -/
def Loop.blocked (l : Loop) : Bool := l.pending ≠ [] && decide (l.concurrency ≤ l.pool.length)

/-- The loop has nothing to do for `d`. -/
def Loop.waits (clock : Int) (d : Nat) (l : Loop) : Bool :=
  l.blocked || (l.pending = [] && decide (clock + d ≤ l.nextBeat))

/-- The tick after the one received now. -/
def nextTick (due now : Int) : Int :=
  due + heartbeatPeriod * ((now - due) / heartbeatPeriod + 1)

/-- How `runJob` ends. `silent` leaves the row as it is. -/
inductive Outcome where
  | done
  | cancelled (reason : String)
  | failed (errMsg : String)
  | silent
  deriving DecidableEq, Repr

def Outcome.write (id : JobId) (j : Job) (now : Int) : Outcome → Option Update
  | .done => some (Queue.Table.done id now)
  | .cancelled reason => some (cancel id reason now)
  | .failed errMsg => some (failWrite id errMsg j.attempts j.maxAttempts now)
  | .silent => none

/-- The API's writes. -/
inductive Request where
  | pause (jobId : JobId)
  | resume (jobId : JobId)
  | requestCancel (jobId : JobId)
  | retry (jobId : JobId)
  deriving DecidableEq, Repr

def Request.update (now : Int) : Request → Update
  | .pause id => Queue.Table.pause id now
  | .resume id => Queue.Table.resume id
  | .requestCancel id => Queue.Table.requestCancel id now
  | .retry id => Queue.Table.retry id now

inductive Action where
  | tick (d : Nat)
  | enqueue (jobType : JobType) (entryId flavorId : Option Int) (maxAttempts : Int)
      (runAt : Option Int)
  | request (r : Request)
  | start (w : WorkerId) (concurrency : Nat)
  | crash (w : WorkerId)
  | heartbeat (w : WorkerId)
  | requeueStale (w : WorkerId)
  /-- `busy` are the rows that open transactions hold locked. -/
  | claimRound (w : WorkerId) (busy : List JobId)
  | dispatch (w : WorkerId)
  | finish (w : WorkerId) (id : JobId) (outcome : Outcome)
  deriving DecidableEq, Repr

/-- What a claim round takes. -/
def claims (s : Fleet) (l : Loop) (busy : List JobId) : List JobId :=
  keepFirst s.jobs [] (selectDue s.jobs l.concurrency [] s.clock fun id => decide (id ∈ busy))

def step (s : Fleet) : Action → Option Fleet
  | .tick d =>
    if s.loops.entries.all fun e => e.2.waits s.clock d then some { s with clock := s.clock + d }
    else none
  | .enqueue jobType entryId flavorId maxAttempts runAt =>
    some { s with
      jobs := s.jobs.reserve.insert s.jobs.nextId (Nat.lt_succ_self _)
        (enqueueAt jobType entryId flavorId maxAttempts runAt s.clock) }
  | .request r => some { s with jobs := s.jobs.updateWhere (r.update s.clock) }
  | .start w concurrency =>
    if w ∉ s.loops ∧ 0 < concurrency ∧ (! s.jobs.exists fun _ j => j.workerId = some w) = true then
      some { s with
        loops := s.loops.insert w ⟨concurrency, [], [], s.clock, s.clock + heartbeatPeriod⟩ }
    else none
  | .crash w => some { s with loops := s.loops.erase w }
  | .heartbeat w =>
    match s.loops.lookup w with
    | some l =>
      if l.pending = [] ∧ l.nextBeat ≤ s.clock then
        some { s with
          jobs := s.jobs.updateWhere (Queue.Table.heartbeat w s.clock)
          loops := s.loops.insert w
            { l with lastBeat := s.clock, nextBeat := nextTick l.nextBeat s.clock } }
      else none
    | none => none
  | .requeueStale w =>
    match s.loops.lookup w with
    | some l =>
      if l.pending = [] then
        some { s with jobs := s.jobs.updateWhere (Queue.Table.requeueStale staleAfter s.clock) }
      else none
    | none => none
  | .claimRound w busy =>
    match s.loops.lookup w with
    | some l =>
      if l.pending = [] then
        some { s with
          jobs := s.jobs.updateWhere (Queue.Table.start (claims s l busy) w s.clock)
          loops := s.loops.insert w { l with pending := claims s l busy } }
      else none
    | none => none
  | .dispatch w =>
    match s.loops.lookup w with
    | some l =>
      match l.pending with
      | id :: rest =>
        if l.pool.length < l.concurrency then
          some { s with loops := s.loops.insert w { l with pending := rest, pool := id :: l.pool } }
        else none
      | [] => none
    | none => none
  | .finish w id outcome =>
    match s.loops.lookup w with
    | some l =>
      match s.jobs.row id with
      | some j =>
        if id ∈ l.pool then
          some { s with
            jobs := (outcome.write id j s.clock).elim s.jobs s.jobs.updateWhere
            loops := s.loops.insert w { l with pool := l.pool.erase id } }
        else none
      | none => none
    | none => none

section Steps
variable {s s' : Fleet} {w : WorkerId}

theorem step_start {concurrency : Nat} (h : step s (.start w concurrency) = some s') :
    (∀ id j, s.jobs.row id = some j → j.workerId ≠ some w) ∧ s' = { s with
      loops := s.loops.insert w ⟨concurrency, [], [], s.clock, s.clock + heartbeatPeriod⟩ } := by
  simp only [step] at h
  split at h
  next hnew =>
    cases h
    refine ⟨fun id j hrow hown => ?_, rfl⟩
    have hfresh := hnew.2.2
    simp only [Bool.not_eq_true', ← Bool.not_eq_true, Jobs.exists_iff] at hfresh
    exact hfresh ⟨id, j, hrow, decide_eq_true hown⟩
  · cases h

theorem step_heartbeat (h : step s (.heartbeat w) = some s') :
    ∃ l, s.loops.lookup w = some l ∧ s' = { s with
      jobs := s.jobs.updateWhere (Queue.Table.heartbeat w s.clock)
      loops := s.loops.insert w
        { l with lastBeat := s.clock, nextBeat := nextTick l.nextBeat s.clock } } := by
  simp only [step] at h
  split at h
  next l hl =>
    split at h
    · exact ⟨l, hl, (Option.some.inj h).symm⟩
    · cases h
  · cases h

theorem step_requeueStale (h : step s (.requeueStale w) = some s') :
    s' = { s with jobs := s.jobs.updateWhere (Queue.Table.requeueStale staleAfter s.clock) } := by
  simp only [step] at h
  split at h
  · split at h
    · exact (Option.some.inj h).symm
    · cases h
  · cases h

theorem step_claimRound {busy : List JobId} (h : step s (.claimRound w busy) = some s') :
    ∃ l, s.loops.lookup w = some l ∧ l.pending = [] ∧ s' = { s with
      jobs := s.jobs.updateWhere (Queue.Table.start (claims s l busy) w s.clock)
      loops := s.loops.insert w { l with pending := claims s l busy } } := by
  simp only [step] at h
  split at h
  next l hl =>
    split at h
    next hidle => exact ⟨l, hl, hidle, (Option.some.inj h).symm⟩
    · cases h
  · cases h

theorem step_dispatch (h : step s (.dispatch w) = some s') :
    ∃ l id rest, s.loops.lookup w = some l ∧ l.pending = id :: rest ∧ s' = { s with
      loops := s.loops.insert w { l with pending := rest, pool := id :: l.pool } } := by
  simp only [step] at h
  split at h
  next l hl =>
    split at h
    next id rest hpending =>
      split at h
      · exact ⟨l, id, rest, hl, hpending, (Option.some.inj h).symm⟩
      · cases h
    · cases h
  · cases h

theorem step_finish {id : JobId} {outcome : Outcome}
    (h : step s (.finish w id outcome) = some s') :
    ∃ l j, s.loops.lookup w = some l ∧ s.jobs.row id = some j ∧ id ∈ l.pool ∧ s' = { s with
      jobs := (outcome.write id j s.clock).elim s.jobs s.jobs.updateWhere
      loops := s.loops.insert w { l with pool := l.pool.erase id } } := by
  simp only [step] at h
  split at h
  next l hl =>
    split at h
    next j hrow =>
      split at h
      next hid => exact ⟨l, j, hl, hrow, hid, (Option.some.inj h).symm⟩
      · cases h
    · cases h
  · cases h

/-- What holds of the new loop of a worker and of the other loops holds of all. -/
theorem forall_lookup_insert {P : WorkerId → Loop → Prop} {loops : AList fun _ : WorkerId => Loop}
    {l : Loop} (hself : P w l) (hother : ∀ v k, v ≠ w → loops.lookup v = some k → P v k) :
    ∀ v k, (loops.insert w l).lookup v = some k → P v k := by
  intro v k hk
  by_cases hv : v = w
  · subst hv
    rw [AList.lookup_insert, Option.some.injEq] at hk
    exact hk ▸ hself
  · rw [AList.lookup_insert_ne hv] at hk
    exact hother v k hv hk

theorem forall_lookup_erase {P : WorkerId → Loop → Prop} {loops : AList fun _ : WorkerId => Loop}
    (h : ∀ v k, loops.lookup v = some k → P v k) :
    ∀ v k, (loops.erase w).lookup v = some k → P v k := by
  intro v k hk
  by_cases hv : v = w
  · subst hv
    simp at hk
  · exact h v k (by rwa [AList.lookup_erase_ne hv] at hk)

end Steps

/-- The row runs under the worker. -/
def Mine (w : WorkerId) (j : Job) : Prop := j.status = .running ∧ j.workerId = some w

/-- Its heartbeat is not older than `beat`. -/
def Beats (beat : Int) (j : Job) : Prop := ∃ t, j.heartbeatAt = some t ∧ beat ≤ t

/-- The worker's claimed jobs run under it, and every row that does has beaten. -/
structure Held (w : WorkerId) (beat : Int) (ids : List JobId) (jobs : Jobs) : Prop where
  owned : ∀ id ∈ ids, ∃ j, jobs.row id = some j ∧ Mine w j
  beats : ∀ id j, jobs.row id = some j → Mine w j → Beats beat j

/-- An update leaves a worker its rows when each row it writes is the worker's with a
heartbeat afterwards, or is not the worker's afterwards and not one of its jobs. -/
theorem Held.update {w : WorkerId} {beat : Int} {ids ids' : List JobId} {jobs : Jobs} {u : Update}
    (h : Held w beat ids jobs) (hsub : ∀ id ∈ ids', id ∈ ids)
    (hkeep : ∀ id j, jobs.row id = some j → u.applies id j = true →
      (Mine w (u.set j) ∧ Beats beat (u.set j)) ∨ (¬ Mine w (u.set j) ∧ id ∉ ids')) :
    Held w beat ids' (jobs.updateWhere u) where
  owned := by
    intro id hid
    obtain ⟨j, hrow, hmine⟩ := h.owned id (hsub id hid)
    cases happ : u.applies id j with
    | false => exact ⟨j, Jobs.row_updateWhere.mpr ⟨j, hrow, by simp [happ]⟩, hmine⟩
    | true =>
      refine ⟨u.set j, Jobs.row_updateWhere.mpr ⟨j, hrow, by simp [happ]⟩, ?_⟩
      rcases hkeep id j hrow happ with h' | h'
      · exact h'.1
      · exact absurd hid h'.2
  beats := by
    intro id j' hrow' hmine
    obtain ⟨j, hrow, rfl⟩ := Jobs.row_updateWhere.mp hrow'
    cases happ : u.applies id j with
    | false =>
      rw [happ] at hmine
      exact h.beats id j hrow hmine
    | true =>
      rw [happ] at hmine
      rcases hkeep id j hrow happ with h' | h'
      · exact h'.2
      · exact absurd hmine h'.1

theorem Held.not_mine {w : WorkerId} {beat : Int} {ids : List JobId} {jobs : Jobs}
    (h : Held w beat ids jobs) {id : JobId} {j : Job} (hrow : jobs.row id = some j)
    (hnot : ¬ Mine w j) : id ∉ ids := by
  intro hid
  obtain ⟨j', hrow', hmine⟩ := h.owned id hid
  rw [hrow, Option.some.injEq] at hrow'
  exact hnot (hrow' ▸ hmine)

theorem mem_claims {s : Fleet} {l : Loop} {busy : List JobId} {id : JobId}
    (h : id ∈ claims s l busy) : ∃ j, s.jobs.row id = some j ∧ j.status = .queued := by
  obtain ⟨_, j, hrow, hclaim⟩ := mem_selectDue ((keepFirst_sublist _ _ _).subset h)
  exact ⟨j, hrow, claimable_queued hclaim⟩

theorem nodup_claims (s : Fleet) (l : Loop) (busy : List JobId) : (claims s l busy).Nodup :=
  (nodup_selectDue _ _ _ _ _).sublist (keepFirst_sublist _ _ _)

theorem not_mine_of_queued {w : WorkerId} {j : Job} (h : j.status = .queued) : ¬ Mine w j := by
  rintro ⟨hrun, _⟩
  rw [h] at hrun
  cases hrun

theorem Held.insert {w : WorkerId} {beat : Int} {ids : List JobId} {jobs : Jobs}
    (h : Held w beat ids jobs) {j : Job} (hj : j.status = .queued) :
    Held w beat ids (jobs.reserve.insert jobs.nextId (Nat.lt_succ_self _) j) := by
  have hrow : ∀ i, (jobs.reserve.insert jobs.nextId (Nat.lt_succ_self _) j).row i =
      if i = jobs.nextId then some j else jobs.row i := fun i => Jobs.row_insert _ _ _ _
  constructor
  · intro id hid
    obtain ⟨j', hj', hmine⟩ := h.owned id hid
    refine ⟨j', ?_, hmine⟩
    rw [hrow, if_neg (Nat.ne_of_lt (Jobs.lt_nextId hj')), hj']
  · intro id j' hj' hmine
    rw [hrow] at hj'
    split at hj'
    · rw [← Option.some.inj hj'] at hmine
      exact absurd hmine (not_mine_of_queued hj)
    · exact h.beats id j' hj' hmine

/-- The API starts no row. -/
theorem Request.mine_before {w : WorkerId} {j : Job} {now : Int} (r : Request)
    (h : Mine w ((r.update now).set j)) : Mine w j := by
  obtain ⟨hrun, hworker⟩ := h
  cases r with
  | pause i => exact ⟨hrun, hworker⟩
  | resume i => exact ⟨hrun, hworker⟩
  | requestCancel i =>
    simp only [Request.update, Queue.Table.requestCancel] at hrun hworker
    split at hrun
    · cases hrun
    next hq =>
      rw [if_neg hq] at hworker
      exact ⟨hrun, hworker⟩
  | retry i => cases hrun

/-- The API touches neither status, worker nor heartbeat of a running row. -/
theorem Held.request {w : WorkerId} {beat : Int} {ids : List JobId} {jobs : Jobs}
    (h : Held w beat ids jobs) (r : Request) (now : Int) :
    Held w beat ids (jobs.updateWhere (r.update now)) := by
  refine h.update (fun _ hid => hid) fun id j hrow happ => ?_
  by_cases hmine : Mine w j
  · have hsame : ((r.update now).set j).status = j.status ∧
        ((r.update now).set j).workerId = j.workerId ∧
        ((r.update now).set j).heartbeatAt = j.heartbeatAt := by
      have hnot : ¬ j.status = .queued := by rw [hmine.1]; decide
      cases r with
      | pause i => exact ⟨rfl, rfl, rfl⟩
      | resume i => exact ⟨rfl, rfl, rfl⟩
      | requestCancel i =>
        simp only [Request.update, Queue.Table.requestCancel, if_neg hnot]
        exact ⟨trivial, trivial, trivial⟩
      | retry i => simp [Request.update, Queue.Table.retry, retryable, hmine.1] at happ
    refine Or.inl ⟨⟨hsame.1.trans hmine.1, hsame.2.1.trans hmine.2⟩, ?_⟩
    rw [Beats, hsame.2.2]
    exact h.beats id j hrow hmine
  · exact Or.inr ⟨fun hafter => hmine (r.mine_before hafter), h.not_mine hrow hmine⟩

/-- A heartbeat of another worker. -/
theorem Held.heartbeat_other {w v : WorkerId} {beat : Int} {ids : List JobId} {jobs : Jobs}
    (h : Held w beat ids jobs) (hne : v ≠ w) (now : Int) :
    Held w beat ids (jobs.updateWhere (Queue.Table.heartbeat v now)) := by
  refine h.update (fun _ hid => hid) fun id j hrow happ => ?_
  simp only [Queue.Table.heartbeat, decide_eq_true_eq] at happ
  have hnot : ¬ Mine w j := fun hmine => hne (Option.some.inj (happ.1.symm.trans hmine.2))
  exact Or.inr ⟨hnot, h.not_mine hrow hnot⟩

/-- The worker's own heartbeat reaches all its rows. -/
theorem Held.heartbeat_self {w : WorkerId} {beat : Int} {ids : List JobId} {jobs : Jobs}
    (h : Held w beat ids jobs) (now : Int) :
    Held w now ids (jobs.updateWhere (Queue.Table.heartbeat w now)) := by
  have happ : ∀ id j, Mine w j → (Queue.Table.heartbeat w now).applies id j = true := by
    intro id j hmine
    simp [Queue.Table.heartbeat, hmine.1, hmine.2]
  constructor
  · intro id hid
    obtain ⟨j, hrow, hmine⟩ := h.owned id hid
    exact ⟨_, Jobs.row_updateWhere.mpr ⟨j, hrow, if_pos (happ id j hmine)⟩, hmine⟩
  · intro id j' hj' hmine
    obtain ⟨j, hrow, rfl⟩ := Jobs.row_updateWhere.mp hj'
    by_cases hold : Mine w j
    · rw [if_pos (happ id j hold)]
      exact ⟨now, rfl, Int.le_refl now⟩
    · have hnot : (Queue.Table.heartbeat w now).applies id j = false := by
        by_contra happ'
        simp only [Queue.Table.heartbeat, Bool.not_eq_false, decide_eq_true_eq] at happ'
        exact hold ⟨happ'.2, happ'.1⟩
      rw [hnot] at hmine
      exact absurd hmine hold

/-- Stale rows are not those of a worker that has beaten in time. -/
theorem Held.requeueStale {w : WorkerId} {beat now : Int} {ids : List JobId} {jobs : Jobs}
    (h : Held w beat ids jobs) (hrecent : now ≤ beat + staleAfter) :
    Held w beat ids (jobs.updateWhere (Queue.Table.requeueStale staleAfter now)) := by
  refine h.update (fun _ hid => hid) fun id j hrow happ => ?_
  have hnot : ¬ Mine w j := by
    intro hmine
    obtain ⟨t, ht, hbeat⟩ := h.beats id j hrow hmine
    simp only [Queue.Table.requeueStale, isStale, ht, Option.some_or, Option.any_some,
      Bool.and_eq_true, decide_eq_true_eq] at happ
    have hlt := happ.2
    omega
  exact Or.inr ⟨not_mine_of_queued rfl, h.not_mine hrow hnot⟩

/-- A claim round of another worker. -/
theorem Held.start_other {w v : WorkerId} {beat : Int} {ids : List JobId} {s : Fleet} {l : Loop}
    {busy : List JobId} (h : Held w beat ids s.jobs) (hne : v ≠ w) (now : Int) :
    Held w beat ids (s.jobs.updateWhere (start (claims s l busy) v now)) := by
  refine h.update (fun _ hid => hid) fun id j hrow happ => ?_
  obtain ⟨j', hrow', hqueued⟩ := mem_claims (of_decide_eq_true happ)
  rw [hrow, Option.some.injEq] at hrow'
  subst hrow'
  refine Or.inr ⟨?_, h.not_mine hrow (not_mine_of_queued hqueued)⟩
  exact fun hmine => hne (Option.some.inj hmine.2)

/-- The worker's own claim round. -/
theorem Held.start_self {w : WorkerId} {beat now : Int} {ids : List JobId} {s : Fleet} {l : Loop}
    {busy : List JobId} (h : Held w beat ids s.jobs) (hpast : beat ≤ now) :
    Held w beat (claims s l busy ++ ids)
      (s.jobs.updateWhere (start (claims s l busy) w now)) := by
  have hold : Held w beat ids (s.jobs.updateWhere (start (claims s l busy) w now)) := by
    refine h.update (fun _ hid => hid) fun id j hrow happ => Or.inl ⟨⟨rfl, rfl⟩, now, rfl, hpast⟩
  refine ⟨fun id hid => ?_, hold.beats⟩
  rcases List.mem_append.mp hid with hid | hid
  · obtain ⟨j, hrow, _⟩ := mem_claims hid
    refine ⟨(start (claims s l busy) w now).set j, ?_, rfl, rfl⟩
    exact Jobs.row_updateWhere.mpr ⟨j, hrow, if_pos (decide_eq_true hid)⟩
  · exact hold.owned id hid

/-- A finishing write is on the row of the job and ends its run. -/
theorem Outcome.write_spec {outcome : Outcome} {id : JobId} {j : Job} {now : Int} {u : Update}
    (h : outcome.write id j now = some u) {i : JobId} {j' : Job} (happ : u.applies i j' = true) :
    i = id ∧ (u.set j').status ≠ .running := by
  cases outcome with
  | done =>
    cases h
    exact ⟨of_decide_eq_true happ, by simp [Queue.Table.done]⟩
  | cancelled reason =>
    cases h
    exact ⟨of_decide_eq_true happ, by simp [cancel]⟩
  | failed errMsg =>
    simp only [Outcome.write, Option.some.injEq, failWrite] at h
    split at h
    · subst h
      exact ⟨of_decide_eq_true happ, by simp [deadLetter]⟩
    · subst h
      exact ⟨of_decide_eq_true happ, by simp [requeue]⟩
  | silent => cases h

/-- The end of a run, seen by a worker that does not go on with the job. -/
theorem Held.finish {w : WorkerId} {beat : Int} {ids ids' : List JobId} {jobs : Jobs} {id : JobId}
    {j : Job} (h : Held w beat ids jobs) (hsub : ∀ i ∈ ids', i ∈ ids) (hid : id ∉ ids')
    (outcome : Outcome) (now : Int) :
    Held w beat ids' ((outcome.write id j now).elim jobs jobs.updateWhere) := by
  cases hwrite : outcome.write id j now with
  | none => exact ⟨fun i hi => h.owned i (hsub i hi), h.beats⟩
  | some u =>
    refine h.update hsub fun i j' _ happ => ?_
    obtain ⟨rfl, hstatus⟩ := Outcome.write_spec hwrite happ
    exact Or.inr ⟨fun hmine => hstatus hmine.1, hid⟩

/-- Between two ticks no live loop stays blocked beyond three minutes after its last
heartbeat. -/
def beatsInTime (s : Fleet) : Action → Bool
  | .tick d => s.loops.entries.all fun e =>
      ! e.2.blocked || decide (s.clock + d ≤ e.2.lastBeat + staleAfter)
  | _ => true

structure Live (clock : Int) (jobs : Jobs) (w : WorkerId) (l : Loop) : Prop where
  next : l.nextBeat ≤ l.lastBeat + heartbeatPeriod
  past : l.lastBeat ≤ clock
  recent : clock ≤ l.lastBeat + staleAfter
  distinct : l.claimed.Nodup
  held : Held w l.lastBeat l.claimed jobs

def AllLive (s : Fleet) : Prop := ∀ w l, s.loops.lookup w = some l → Live s.clock s.jobs w l

theorem nextTick_le (due now : Int) :
    nextTick due now ≤ now + heartbeatPeriod := by
  have hpos : (0 : Int) < heartbeatPeriod := by decide
  have hmul := Int.mul_ediv_self_le (x := now - due) (k := heartbeatPeriod) (Int.ne_of_gt hpos)
  simp only [nextTick, Int.mul_add, Int.mul_one]
  omega

theorem AllLive.tick {s : Fleet} {d : Nat} (h : AllLive s)
    (hcond : beatsInTime s (.tick d) = true)
    (hwaits : (s.loops.entries.all fun e => e.2.waits s.clock d) = true) :
    AllLive { s with clock := s.clock + d } := by
  intro w l hl
  have hlive := h w l hl
  have hmem := AList.mem_lookup_iff.mp hl
  refine ⟨hlive.next, Int.le_trans hlive.past (by simp), ?_, hlive.distinct, hlive.held⟩
  have hwait := List.all_eq_true.mp hwaits _ hmem
  simp only [Loop.waits, Bool.or_eq_true, Bool.and_eq_true, decide_eq_true_eq] at hwait
  simp only [beatsInTime, List.all_eq_true, Bool.or_eq_true, Bool.not_eq_true',
    decide_eq_true_eq] at hcond
  rcases hwait with hblocked | ⟨_, hdue⟩
  · rcases hcond _ hmem with hfree | hle
    · rw [hblocked] at hfree
      cases hfree
    · exact hle
  · -- an idle loop beats at its tick, thirty seconds after the last one at most
    have hnext := hlive.next
    have hsmall : heartbeatPeriod ≤ staleAfter := by decide
    simp only at hdue ⊢
    omega

/-- A job that is given a place stays one of the loop's. -/
theorem claimed_dispatched {l : Loop} {id : JobId} {rest : List JobId}
    (hpending : l.pending = id :: rest) : (rest ++ id :: l.pool).Perm l.claimed := by
  have hclaimed : l.claimed = id :: (rest ++ l.pool) := by simp [Loop.claimed, hpending]
  exact hclaimed ▸ List.perm_middle

theorem AllLive.step {s s' : Fleet} {a : Action} (h : AllLive s) (hcond : beatsInTime s a = true)
    (hstep : step s a = some s') : AllLive s' := by
  cases a with
  | tick d =>
    simp only [Heartbeat.step] at hstep
    split at hstep
    next hwaits => cases hstep; exact h.tick hcond hwaits
    · cases hstep
  | enqueue jobType entryId flavorId maxAttempts runAt =>
    cases hstep
    intro w l hl
    have hlive := h w l hl
    exact { hlive with held := hlive.held.insert rfl }
  | request r =>
    cases hstep
    intro w l hl
    have hlive := h w l hl
    exact { hlive with held := hlive.held.request r s.clock }
  | start w concurrency =>
    obtain ⟨hfresh, rfl⟩ := step_start hstep
    refine forall_lookup_insert ?_ fun v k _ hk => h v k hk
    refine ⟨Int.le_refl _, Int.le_refl _, by simp [staleAfter, minute, second],
      by simp [Loop.claimed], by simp [Loop.claimed], fun id j hrow hmine => ?_⟩
    -- the id of a new worker is on no row
    exact absurd hmine.2 (hfresh id j hrow)
  | crash w =>
    cases hstep
    exact forall_lookup_erase h
  | heartbeat w =>
    obtain ⟨l, hl, rfl⟩ := step_heartbeat hstep
    have hlive := h w l hl
    refine forall_lookup_insert ?_ fun v k hv hk => ?_
    · exact ⟨nextTick_le _ _, Int.le_refl _, by simp [staleAfter, minute, second],
        hlive.distinct, hlive.held.heartbeat_self s.clock⟩
    · have hother := h v k hk
      exact { hother with held := hother.held.heartbeat_other (Ne.symm hv) s.clock }
  | requeueStale w =>
    cases step_requeueStale hstep
    intro v k hk
    have hlive := h v k hk
    exact { hlive with held := hlive.held.requeueStale hlive.recent }
  | claimRound w busy =>
    obtain ⟨l, hl, hidle, rfl⟩ := step_claimRound hstep
    have hlive := h w l hl
    have hpool : l.claimed = l.pool := by simp [Loop.claimed, hidle]
    have hheld := hpool ▸ hlive.held
    refine forall_lookup_insert ?_ fun v k hv hk => ?_
    · refine ⟨hlive.next, hlive.past, hlive.recent, ?_, hheld.start_self hlive.past⟩
      refine List.nodup_append.mpr ⟨nodup_claims _ _ _, hpool ▸ hlive.distinct, ?_⟩
      rintro id hid id' hid' rfl
      obtain ⟨j, hrow, hqueued⟩ := mem_claims hid
      exact hheld.not_mine hrow (not_mine_of_queued hqueued) hid'
    · have hother := h v k hk
      exact { hother with held := hother.held.start_other (Ne.symm hv) s.clock }
  | dispatch w =>
    obtain ⟨l, id, rest, hl, hpending, rfl⟩ := step_dispatch hstep
    have hlive := h w l hl
    have hperm := claimed_dispatched hpending
    refine forall_lookup_insert ?_ fun v k _ hk => h v k hk
    refine ⟨hlive.next, hlive.past, hlive.recent, hperm.nodup_iff.mpr hlive.distinct, ?_⟩
    exact ⟨fun i hi => hlive.held.owned i (hperm.mem_iff.mp hi), hlive.held.beats⟩
  | finish w id outcome =>
    obtain ⟨l, j, hl, hrow, hid, rfl⟩ := step_finish hstep
    have hlive := h w l hl
    obtain ⟨hpending, hpool, hdisjoint⟩ := List.nodup_append.mp hlive.distinct
    have hsub : (l.pending ++ l.pool.erase id).Sublist l.claimed :=
      (List.Sublist.refl _).append List.erase_sublist
    have hgone : id ∉ l.pending ++ l.pool.erase id := by
      rw [List.mem_append, not_or]
      exact ⟨fun hm => hdisjoint id hm id hid rfl, hpool.not_mem_erase⟩
    refine forall_lookup_insert ?_ fun v k hv hk => ?_
    · exact ⟨hlive.next, hlive.past, hlive.recent, hlive.distinct.sublist hsub,
        hlive.held.finish (fun i hi => hsub.subset hi) hgone outcome s.clock⟩
    · have hother := h v k hk
      obtain ⟨j', hrow', hmine⟩ := hlive.held.owned id (List.mem_append_right _ hid)
      rw [hrow, Option.some.injEq] at hrow'
      subst hrow'
      have hnot : ¬ Mine v j := fun hm => hv (Option.some.inj (hm.2.symm.trans hmine.2))
      exact { hother with
        held := hother.held.finish (fun _ hi => hi) (hother.held.not_mine hrow hnot)
          outcome s.clock }

/-- While no live loop stays blocked beyond three minutes after its last heartbeat, a
stale reclaim leaves every job that a live worker has claimed and not finished as it is. -/
theorem reclaim_spares_live {clock : Int} {trace : List Action} {s : Fleet}
    (h : Run Heartbeat.step (fun s a => beatsInTime s a = true) (initial clock) trace s)
    {v : WorkerId} {s' : Fleet} (hstep : Heartbeat.step s (.requeueStale v) = some s') :
    ∀ w l, s.loops.lookup w = some l → ∀ id ∈ l.claimed, ∃ j, s.jobs.row id = some j ∧
      j.status = .running ∧ j.workerId = some w ∧ s'.jobs.row id = some j := by
  have hlive : AllLive s := by
    refine h.invariant AllLive ?_ fun s a s' hs hcond hstep => hs.step hcond hstep
    intro w l hl
    simp [initial] at hl
  intro w l hl id hid
  have hw := hlive w l hl
  obtain ⟨j, hrow, hmine⟩ := hw.held.owned id hid
  refine ⟨j, hrow, hmine.1, hmine.2, ?_⟩
  cases step_requeueStale hstep
  obtain ⟨t, ht, hbeat⟩ := hw.held.beats id j hrow hmine
  have hfresh : (Queue.Table.requeueStale staleAfter s.clock).applies id j = false := by
    have hrecent := hw.recent
    simp only [Queue.Table.requeueStale, isStale, ht, Option.some_or, Option.any_some,
      Bool.and_eq_false_iff, decide_eq_false_iff_not, not_lt]
    right
    omega
  exact Jobs.row_updateWhere.mpr ⟨j, hrow, by simp [hfresh]⟩

def seconds (n : Nat) : Nat := n * 1000000000

def isRunning (s : Fleet) (id : JobId) : Bool := (s.jobs.row id).any fun j => j.status = .running

/-- A job that has run for three and a half minutes survives the reclaim of a second worker. -/
theorem reclaim_spares_live_long_job : ∃ s s' : Fleet, isRunning s' 0 = true ∧
    (∃ j, s.jobs.row 0 = some j ∧ s'.jobs.row 0 = some j) ∧ s.clock = 210 * second := by
  have hrun : ∃ s, Run Heartbeat.step (fun s a => beatsInTime s a = true) (initial 0)
      ([.start 7 1, .enqueue .probe (some 1) none 3 none, .claimRound 7 [], .dispatch 7] ++
        (List.replicate 7 [Action.tick (seconds 30), .heartbeat 7]).flatten ++ [.start 8 1]) s ∧
      ((Heartbeat.step s (.requeueStale 8)).any fun s' => isRunning s' 0 &&
        ((s.loops.lookup 7).any fun l => decide (0 ∈ l.claimed)) &&
        decide (s.clock = 210 * second)) = true :=
    exists_run (fun _ _ h => h) (by decide +kernel)
  obtain ⟨s, hs, hp⟩ := hrun
  obtain ⟨s', hstep, hp⟩ := (Option.any_eq_true _ _).mp hp
  simp only [Bool.and_eq_true, decide_eq_true_eq] at hp
  obtain ⟨l, hl, hid⟩ := (Option.any_eq_true _ _).mp hp.1.2
  obtain ⟨j, hrow, _, _, hrow'⟩ :=
    reclaim_spares_live hs hstep 7 l hl 0 (of_decide_eq_true hid)
  exact ⟨s, s', hp.1.1, ⟨j, hrow, hrow'⟩, hp.2⟩

/-- Worker 7 with a pool of one runs job 0 and blocks on job 1, which it has claimed too.
It sends no heartbeat, and after three minutes worker 8 takes both jobs away. -/
theorem blocked_loop_loses_jobs : ∃ trace s s', Run Heartbeat.step Always (initial 0) trace s ∧
    Heartbeat.step s (.requeueStale 8) = some s' ∧ (∃ l, s.loops.lookup 7 = some l ∧
      0 ∈ l.claimed) ∧ isRunning s 0 = true ∧
      (∃ j, s'.jobs.row 0 = some j ∧ j.status = .queued) := by
  have hrun : ∃ s, Run Heartbeat.step Always (initial 0)
      [.start 7 1, .enqueue .probe (some 1) none 3 none, .enqueue .probe (some 2) none 3 none,
        .claimRound 7 [], .dispatch 7, .claimRound 7 [], .tick (seconds 181), .start 8 1] s ∧
      ((Heartbeat.step s (.requeueStale 8)).any fun s' => isRunning s 0 &&
        ((s.loops.lookup 7).any fun l => decide (0 ∈ l.claimed)) &&
        ((s'.jobs.row 0).any fun j => j.status = .queued)) = true :=
    exists_always (by decide +kernel)
  obtain ⟨s, hs, hp⟩ := hrun
  obtain ⟨s', hstep, hp⟩ := (Option.any_eq_true _ _).mp hp
  simp only [Bool.and_eq_true] at hp
  obtain ⟨l, hl, hid⟩ := (Option.any_eq_true _ _).mp hp.1.2
  obtain ⟨j, hrow, hq⟩ := (Option.any_eq_true _ _).mp hp.2
  exact ⟨_, s, s', hs, hstep, ⟨l, hl, of_decide_eq_true hid⟩, hp.1.1, j, hrow,
    of_decide_eq_true hq⟩

end Vidsilo.Worker.Heartbeat
