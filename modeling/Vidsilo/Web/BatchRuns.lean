import Vidsilo.Web.UploadStore

/-!
# What the batch waits for

Source: web/lib/upload-store.ts:207-299, 321-344. Nothing resolves the promise of an upload that is
aborted, so `startAll` never gets past it and `batchRunning` stays set.
-/
namespace Vidsilo.Web.UploadStore
open Library Library.Transition

variable {Id : Type}

def InFlight (s : State Id) (number : Nat) : Prop :=
  ∃ upload, s.uploads[number]? = some upload ∧ upload.state = .running

/-- The upload can still end, or has. -/
def Alive (s : State Id) (number : Nat) : Prop :=
  ∃ upload, s.uploads[number]? = some upload ∧ upload.state ≠ .aborted

/-- The upload that `startAll` waits for is not aborted. -/
def Sound (s : State Id) : Prop :=
  ∀ number, s.batch = .inside (.upload number) → Alive s number

theorem alive_abort {s : State Id} {stopped number : Nat} :
    Alive (s.abort stopped) number ↔ Alive s number ∧ (InFlight s number → stopped ≠ number) := by
  unfold Alive InFlight State.abort
  dsimp only
  rw [List.getElem?_modify]
  by_cases same : stopped = number
  · subst same
    cases s.uploads[stopped]? with
    | none => simp
    | some upload => cases state : upload.state <;> simp [Upload.abort, state]
  · simp [same]

theorem inFlight_abort {s : State Id} {stopped number : Nat} :
    InFlight (s.abort stopped) number ↔ InFlight s number ∧ stopped ≠ number := by
  unfold InFlight State.abort
  dsimp only
  rw [List.getElem?_modify]
  by_cases same : stopped = number
  · subst same
    cases s.uploads[stopped]? with
    | none => simp
    | some upload => cases state : upload.state <;> simp [Upload.abort, state]
  · simp [same]

theorem alive_abort_loop {s : State Id} {number : Nat} (numbers : List Nat) :
    Alive (numbers.foldl State.abort s) number ↔
      Alive s number ∧ (InFlight s number → number ∉ numbers) := by
  induction numbers generalizing s with
  | nil => simp
  | cons stopped rest ih =>
    rw [List.foldl_cons, ih, alive_abort, inFlight_abort, List.mem_cons]
    tauto

/-- A call of `startJob` starts uploads and stops none. -/
structure Grows (s : State Id) (next : State Id × Option (Await Id)) : Prop where
  batch : next.1.batch = s.batch
  alive : ∀ number, Alive s number → Alive next.1 number
  waits : ∀ number, next.2 = some (.upload number) → Alive next.1 number

theorem grows_here (s : State Id) {await : Option (Await Id)}
    (waits : ∀ number, await = some (.upload number) → Alive s number) : Grows s (s, await) :=
  ⟨rfl, fun _ alive => alive, waits⟩

theorem alive_congr {s s' : State Id} (uploads : s'.uploads = s.uploads) (number : Nat) :
    Alive s' number ↔ Alive s number := by
  rw [Alive, Alive, uploads]

/-- The batch takes over what its call of `startJob` comes to. -/
theorem sound_startAll {s : State Id} {next : State Id × Option (Await Id)} (grows : Grows s next) :
    Sound (State.goOn .startAll next) := by
  obtain ⟨t, await⟩ := next
  cases await with
  | none =>
    intro number waits
    cases waits
  | some await =>
    intro number waits
    have isUpload : await = .upload number := Batch.inside.inj waits
    exact grows.waits number (congrArg some isUpload)

/-- Nothing else changes what the batch waits for. -/
theorem sound_of_same {s s' : State Id} (batch : s'.batch = s.batch)
    (alive : ∀ number, Alive s number → Alive s' number) (sound : Sound s) : Sound s' := by
  intro number waits
  exact alive number (sound number (batch.symm.trans waits))

theorem sound_other {s : State Id} {next : State Id × Option (Await Id)} (i : Nat)
    (grows : Grows s next) (sound : Sound s) : Sound (State.goOn (.other i) next) := by
  obtain ⟨t, await⟩ := next
  cases await <;> exact sound_of_same grows.batch grows.alive sound

/-- An operation that aborts uploads and leaves the batch where it is. -/
theorem sound_aborts_iff {s s' : State Id} (numbers : List Nat) (sound : Sound s)
    (batch : s'.batch = s.batch) (uploads : s'.uploads = (numbers.foldl State.abort s).uploads) :
    Sound s' ↔ ∀ number, s.batch = .inside (.upload number) → InFlight s number →
      number ∉ numbers := by
  unfold Sound
  simp only [batch, alive_congr uploads, alive_abort_loop]
  constructor
  · intro alive number waits
    exact (alive number waits).2
  · intro spares number waits
    exact ⟨sound number waits, spares number waits⟩

variable [DecidableEq Id]

/-- `startAll` is not running, or its upload is in flight, or it has a next step of its own. -/
def Live (s : State Id) : Prop :=
  s.batch ≠ .idle → (∃ number, s.batch = .inside (.upload number) ∧ InFlight s number) ∨
    (∀ stored, (step s (.next stored)).isSome) ∨ ∀ stored, (step s (.resume .startAll stored)).isSome

/-- The operation does not stop the upload that `startAll` waits for. -/
def Spares (s : State Id) : Action Id → Prop
  | .removeJob id _ => ∀ number, s.batch = .inside (.upload number) → InFlight s number →
      s.activeUploads.lookup id ≠ some number
  | .clearUploads _ | .clearAllUploads _ => ∀ number, s.batch = .inside (.upload number) →
      InFlight s number → number ∉ s.activeUploads.entries.map fun e => e.2
  | _ => True

theorem live_iff {s : State Id} : Live s ↔ Sound s := by
  unfold Live Sound
  cases batch : s.batch with
  | idle => simp
  | head =>
    have next : ∀ stored, (step s (.next stored)).isSome := by
      intro stored
      simp only [step, batch, if_true]
      split <;> rfl
    simp [next]
  | inside await =>
    cases await with
    | blob job => simp [step, State.await, State.resume, batch]
    | file job file => cases file <;> simp [step, State.await, State.resume, batch]
    | upload number =>
      cases found : s.uploads[number]? with
      | none => simp [Alive, InFlight, step, State.await, State.resume, batch, found]
      | some upload =>
        cases state : upload.state <;>
          simp [Alive, InFlight, step, State.await, State.resume, batch, found, state]

theorem grows_launch {s t : State Id} (job : UploadJob Id) (file : File) (stored : Bool)
    (sameBatch : t.batch = s.batch) (sameUploads : t.uploads = s.uploads) :
    Grows s (t.launch job file stored) := by
  have uploads : (t.launch job file stored).1.uploads =
      s.uploads ++ [⟨job.id, file, job.uploadUrl, .running⟩] := by
    simp [State.launch, sameUploads]
  refine ⟨?_, fun number alive => ?_, fun number waits => ?_⟩
  · simpa [State.launch] using sameBatch
  · obtain ⟨upload, found, state⟩ := alive
    rw [Alive, uploads]
    exact ⟨upload, (List.getElem?_append_left (List.getElem?_eq_some_iff.mp found).1).trans found, state⟩
  · have isNew : number = s.uploads.length := by
      simpa [State.launch, sameUploads] using waits.symm
    rw [Alive, uploads, isNew]
    exact ⟨_, List.getElem?_concat_length, by simp⟩

theorem grows_startJob (s : State Id) (id : Id) (stored : Bool) : Grows s (s.startJob id stored) := by
  obtain ⟨returns, -⟩ | ⟨job, -, -, -, ⟨-, reads⟩ | ⟨file, -, launches⟩⟩ := startJob_cases s id stored
  · rw [returns]
    exact grows_here s (by simp)
  · rw [reads]
    exact grows_here s (by simp)
  · rw [launches]
    exact grows_launch job file stored rfl rfl

theorem grows_resume {s : State Id} {stored : Bool} {await : Await Id}
    {next : State Id × Option (Await Id)} (ends : s.resume stored await = some next) :
    Grows s next := by
  obtain ⟨job, -, rfl⟩ | ⟨job, -, rfl⟩ | ⟨job, file, -, rfl⟩ | ⟨number, upload, -, -, -, rfl⟩ :=
    resume_cases ends
  · exact grows_here s (by simp)
  · exact grows_here s (by simp)
  · exact grows_launch job file stored rfl rfl
  · exact grows_here s (by simp)

theorem sound_callback {s : State Id} {number now : Nat} {upload : Upload Id} {stored : Bool}
    (call : Callback) (sound : Sound s) : Sound (s.callback number upload now stored call) := by
  have settled : ∀ other, Alive s other → Alive (s.settle number upload) other := by
    intro other ⟨u, found, state⟩
    unfold Alive State.settle
    dsimp only
    rw [List.getElem?_modify]
    by_cases same : number = other
    · simp [found, same]
    · exact ⟨u, by simpa [same] using found, state⟩
  cases call with
  | onProgress bytesSent bytesTotal =>
    refine sound_of_same (by simp [State.callback]) (fun other alive => ?_) sound
    exact (alive_congr (by simp [State.callback]) other).mpr alive
  | onUploadUrlAvailable url =>
    refine sound_of_same (by simp [State.callback]) (fun other alive => ?_) sound
    exact (alive_congr (by simp [State.callback]) other).mpr alive
  | onSuccess =>
    refine sound_of_same (by simp [State.callback, State.settle]) (fun other alive => ?_) sound
    exact (alive_congr (by simp [State.callback]) other).mpr (settled other alive)
  | onError message =>
    refine sound_of_same (by simp [State.callback, State.settle]) (fun other alive => ?_) sound
    exact (alive_congr (by simp [State.callback]) other).mpr (settled other alive)

theorem sound_step_iff {s s' : State Id} {action : Action Id} (sound : Sound s)
    (taken : step s action = some s') : Sound s' ↔ Spares s action := by
  cases action with
  | addFiles newFiles stored =>
    obtain ⟨uploads, -, batch, -⟩ := addFiles_frame taken
    exact iff_of_true (sound_of_same batch (fun number => (alive_congr uploads number).mpr) sound)
      trivial
  | updateJob id patch stored =>
    cases taken
    refine iff_of_true (sound_of_same (by simp) (fun number => ?_) sound) trivial
    exact (alive_congr (by simp) number).mpr
  | removeJob id stored =>
    cases taken
    cases active : s.activeUploads.lookup id with
    | none =>
      rw [sound_aborts_iff [] sound (by simp [State.removeJob, active])
        (by simp [State.removeJob, active])]
      simp [Spares, active]
    | some number =>
      rw [sound_aborts_iff [number] sound (by simp [State.removeJob, active, State.abort])
        (by simp [State.removeJob, active])]
      simp [Spares, active, eq_comm]
  | resetIdle stored =>
    cases taken
    refine iff_of_true ?_ trivial
    unfold State.resetIdle
    split
    · exact sound_of_same (by simp) (fun number => (alive_congr (by simp) number).mpr) sound
    · exact sound
  | clearUploads stored =>
    cases taken
    refine sound_aborts_iff _ sound ?_ ?_
    · simpa [State.clearUploads] using congrArg State.batch (abortAll_eq s)
    · simp [State.clearUploads, State.abortAll]
  | clearAllUploads stored =>
    cases taken
    refine sound_aborts_iff _ sound ?_ ?_
    · simpa [State.clearAllUploads] using congrArg State.batch (abortAll_eq s)
    · simp [State.clearAllUploads, State.abortAll]
  | reload now =>
    cases taken
    refine iff_of_true (fun number waits => ?_) trivial
    cases waits
  | startAll =>
    cases taken
    refine iff_of_true ?_ trivial
    split
    · intro number waits
      cases waits
    · exact sound
  | next stored =>
    refine iff_of_true ?_ trivial
    obtain ⟨-, ⟨-, rfl⟩ | ⟨job, -, rfl⟩⟩ := next_cases taken
    · intro number waits
      cases waits
    · exact sound_startAll (grows_startJob s job.id stored)
  | startJob id stored =>
    refine iff_of_true ?_ trivial
    have grows := grows_startJob s id stored
    unfold step at taken
    dsimp only at taken
    split at taken
    all_goals
      next made =>
        rw [made] at grows
        cases taken
        exact sound_of_same grows.batch grows.alive sound
  | resume who stored =>
    refine iff_of_true ?_ trivial
    obtain ⟨await, -, ends⟩ := Option.bind_eq_some_iff.mp taken
    obtain ⟨next, ended, rfl⟩ := Option.map_eq_some_iff.mp ends
    cases who with
    | startAll => exact sound_startAll (grows_resume ended)
    | other i => exact sound_other i (grows_resume ended) sound
  | callback number now stored call =>
    refine iff_of_true ?_ trivial
    obtain ⟨upload, -, -, rfl⟩ := callback_cases taken
    exact sound_callback call sound

/-- In a run that never stops the upload that `startAll` waits for, `startAll` always goes on. -/
theorem batch_live {s : State Id} {trace : List (Action Id)}
    (run : Run step Spares State.first trace s) : Live s := by
  rw [live_iff]
  refine run.invariant Sound (fun number waits => ?_) fun t action t' sound spares taken => ?_
  · cases waits
  · exact (sound_step_iff sound taken).mpr spares

def fileA : File := ⟨"a.mp4".toList, 1⟩

def fileB : File := ⟨"b.mp4".toList, 1⟩

/-- Two files are selected and the first is on its way. -/
def firstOnItsWay : List (Action Nat) :=
  [.addFiles [⟨fileA, 0, true⟩, ⟨fileB, 1, true⟩] true, .startAll, .next true]

def stopsNothing : Action Nat → Bool
  | .removeJob _ _ | .clearUploads _ | .clearAllUploads _ => false
  | _ => true

theorem batch_live_first : ∃ s : State Nat, Run step Spares State.first firstOnItsWay s ∧
    s.batch = .inside (.upload 0) ∧ Live s := by
  have spares (s : State Nat) (action : Action Nat) (allowed : stopsNothing action = true) :
      Spares s action := by
    cases action <;> trivial
  have made : (exec step (fun _ action => stopsNothing action) State.first firstOnItsWay).any
      (fun s => decide (s.batch = .inside (.upload 0))) = true := by
    decide
  obtain ⟨s, run, waits⟩ := exists_run spares made
  exact ⟨s, run, of_decide_eq_true waits, batch_live run⟩

/-- A batch that waits for an aborted upload while another file is queued. -/
def waitsInVain (s : State Nat) : Bool :=
  s.batch = .inside (.upload 0) && s.uploads[0]?.any (·.state = .aborted) &&
    s.jobs.list.any (·.status = .queued)

/-- The file on its way is removed: the other one stays queued and `startAll` does nothing more. -/
theorem removed_blocks : ∃ s : State Nat,
    Run step Always State.first (firstOnItsWay ++ [.removeJob 0 true]) s ∧ ¬ Live s ∧
      (∃ job ∈ s.jobs.list, job.status = .queued) ∧ step s .startAll = some s := by
  have made : (exec step (fun _ _ => true) State.first (firstOnItsWay ++ [.removeJob 0 true])).any
      waitsInVain = true := by
    decide
  obtain ⟨s, run, vain⟩ := exists_run (fun _ _ _ => trivial) made
  simp only [waitsInVain, Bool.and_eq_true, decide_eq_true_eq, Option.any_eq_true,
    List.any_eq_true] at vain
  obtain ⟨⟨waits, upload, found, aborted⟩, queued⟩ := vain
  refine ⟨s, run, fun live => ?_, queued, by simp [step, waits]⟩
  obtain ⟨other, found', alive⟩ := live_iff.mp live 0 waits
  cases found.symm.trans found'
  exact alive aborted

end Vidsilo.Web.UploadStore
