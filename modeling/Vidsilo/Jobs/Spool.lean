import Vidsilo.Library.Ownership
import Vidsilo.Library.SlashPath
import Vidsilo.Library.Transition

/-!
# Local copies of sources

Source: internal/jobs/jobs.go:284-358 (`spoolSource`, `clearSpool`), 367-475 (`Probe`), 520-640
(`Transcode`, `finalizeTranscode`), 731-735 (`failEntry`). The jobs of one worker take turns. A
section under `spoolMu` is one step, and so is every call of the store or the file system. What a
source key holds does not change. A job that removes the copy of its entry returns next.
-/
namespace Vidsilo.Jobs.Spool
open Library Library.SlashPath Library.Transition Library.Ownership

abbrev Bytes := List UInt8

structure SpoolEntry where
  path : Text
  sourceKey : Text
  deriving DecidableEq, Repr

inductive Kind where
  | probe | transcode
  deriving DecidableEq, Repr

/-- Where a job stands, with the temp file of its own that it still has. -/
inductive Phase where
  /-- In `spoolSource`. -/
  | called
  /-- No copy was registered. -/
  | missed
  | opened
  | created (tmp : Text)
  | copied (tmp : Text)
  | closed (tmp : Text)
  /-- To remove its temp file and to return another path, or an error. -/
  | dropping (tmp : Text) (result : Option Text)
  /-- `spoolSource` returned a path. -/
  | holding (path : Text)
  /-- `spoolSource` returned an error. -/
  | failed
  | ended
  deriving DecidableEq, Repr

def Phase.tmp : Phase → Option Text
  | .created tmp => some tmp
  | .copied tmp => some tmp
  | .closed tmp => some tmp
  | .dropping tmp _ => some tmp
  | _ => none

/-- A temp file that has all the bytes. -/
def Phase.full : Phase → Option Text
  | .copied tmp => some tmp
  | .closed tmp => some tmp
  | _ => none

/-- The path that `spoolSource` has returned or is about to return. -/
def Phase.got : Phase → Option Text
  | .dropping _ result => result
  | .holding path => some path
  | _ => none

/-- No call of `spoolSource` is in progress. -/
def Phase.isQuiet : Phase → Bool
  | .holding _ => true
  | .failed => true
  | .ended => true
  | _ => false

structure Job where
  kind : Kind
  entry : Int
  sourceKey : Text
  phase : Phase
  deriving DecidableEq, Repr

/-- `Transcode` fails the entry when it gets no source, `Probe` returns the error. Later each of
them may or may not come to `clearSpool`. -/
def Job.mayClear (job : Job) : Bool :=
  match job.phase with
  | .holding _ => true
  | .failed => job.kind = .transcode
  | _ => false

def Job.mayReturn (job : Job) : Bool :=
  match job.phase with
  | .holding _ => true
  | .failed => job.kind = .probe
  | _ => false

structure State where
  /-- The temp files of `spoolSource`. -/
  files : Text → Option Bytes
  spoolCache : Int → Option SpoolEntry
  jobs : List Job

def new : State := ⟨fun _ => none, fun _ => none, []⟩

def State.setPhase (s : State) (i : Nat) (job : Job) (phase : Phase) : State :=
  { s with jobs := s.jobs.set i { job with phase := phase } }

def State.setFile (s : State) (path : Text) (content : Option Bytes) : State :=
  { s with files := Function.update s.files path content }

def State.setCache (s : State) (entry : Int) (cached : Option SpoolEntry) : State :=
  { s with spoolCache := Function.update s.spoolCache entry cached }

/-- The registered copy of the key. -/
def State.cached (s : State) (job : Job) : Option Text :=
  (s.spoolCache job.entry).bind fun cached =>
    if cached.sourceKey = job.sourceKey then some cached.path else none

/-- `os.Remove`, whose error is ignored. -/
def State.remove (s : State) (path : Text) (ok : Bool) : State :=
  if ok then s.setFile path none else s

/-- `os.Remove` of the registered copy, if there is one. -/
def State.removeCached (s : State) (entry : Int) (ok : Bool) : State :=
  match s.spoolCache entry with
  | some old => s.remove old.path ok
  | none => s

inductive Action where
  /-- A job has read its entry and calls `spoolSource`. -/
  | start (kind : Kind) (entry : Int) (sourceKey : Text)
  /-- The first section under the lock. -/
  | lookup (i : Nat)
  | openSource (i : Nat) (ok : Bool)
  /-- With a name that is not in use, or an error. -/
  | createTemp (i : Nat) (name : Option Text)
  /-- All bytes, or an error after some of them. -/
  | ioCopy (i : Nat) (failsAfter : Option Nat)
  | close (i : Nat) (ok : Bool)
  /-- The second section under the lock. -/
  | register (i : Nat) (removed : Bool)
  | removeTmp (i : Nat) (removed : Bool)
  | clearSpool (i : Nat) (removed : Bool)
  /-- A job returns without `clearSpool`. -/
  | finish (i : Nat)
  deriving DecidableEq, Repr

section
variable (source : Text → Bytes)

def step (s : State) : Action → Option State
  | .start kind entry sourceKey =>
    some { s with jobs := s.jobs ++ [⟨kind, entry, sourceKey, .called⟩] }
  | .lookup i =>
    s.jobs[i]?.bind fun job =>
      match job.phase with
      | .called =>
        if job.sourceKey = [] then some (s.setPhase i job .failed)
        else
          match s.cached job with
          | some path => some (s.setPhase i job (.holding path))
          | none => some (s.setPhase i job .missed)
      | _ => none
  | .openSource i ok =>
    s.jobs[i]?.bind fun job =>
      match job.phase with
      | .missed => some (s.setPhase i job (if ok then .opened else .failed))
      | _ => none
  | .createTemp i name =>
    s.jobs[i]?.bind fun job =>
      match job.phase with
      | .opened =>
        match name with
        | none => some (s.setPhase i job .failed)
        | some tmp =>
          if s.files tmp = none then some ((s.setPhase i job (.created tmp)).setFile tmp (some []))
          else none
      | _ => none
  | .ioCopy i failsAfter =>
    s.jobs[i]?.bind fun job =>
      match job.phase with
      | .created tmp =>
        match failsAfter with
        | none =>
          some ((s.setPhase i job (.copied tmp)).setFile tmp (some (source job.sourceKey)))
        | some n =>
          some ((s.setPhase i job (.dropping tmp none)).setFile tmp
            (some ((source job.sourceKey).take n)))
      | _ => none
  | .close i ok =>
    s.jobs[i]?.bind fun job =>
      match job.phase with
      | .copied tmp => some (s.setPhase i job (if ok then .closed tmp else .dropping tmp none))
      | _ => none
  | .register i removed =>
    s.jobs[i]?.bind fun job =>
      match job.phase with
      | .closed tmp =>
        match s.cached job with
        | some path => some (s.setPhase i job (.dropping tmp (some path)))
        | none =>
          some (((s.removeCached job.entry removed).setPhase i job (.holding tmp)).setCache
            job.entry (some ⟨tmp, job.sourceKey⟩))
      | _ => none
  | .removeTmp i removed =>
    s.jobs[i]?.bind fun job =>
      match job.phase with
      | .dropping tmp (some path) => some ((s.setPhase i job (.holding path)).remove tmp removed)
      | .dropping tmp none => some ((s.setPhase i job .failed).remove tmp removed)
      | _ => none
  | .clearSpool i removed =>
    s.jobs[i]?.bind fun job =>
      if job.mayClear then
        some (((s.removeCached job.entry removed).setPhase i job .ended).setCache job.entry none)
      else none
  | .finish i =>
    s.jobs[i]?.bind fun job =>
      if job.mayReturn then some (s.setPhase i job .ended) else none

/-- The paths that jobs hold exist with the bytes of their keys. -/
def Kept (s : State) : Prop :=
  ∀ job ∈ s.jobs, ∀ path, job.phase = .holding path → s.files path = some (source job.sourceKey)

end

/-- No call is in progress. -/
def Quiet (s : State) : Prop := ∀ job ∈ s.jobs, job.phase.isQuiet = true

/-- Every temp file is registered. -/
def Tidy (s : State) : Prop :=
  ∀ path, s.files path ≠ none → ∃ entry cached, s.spoolCache entry = some cached ∧
    cached.path = path

/-- Removing the registered copy of the entry succeeds, and no other job has its path. -/
def Unshared (s : State) (i : Nat) (entry : Int) (removed : Bool) : Prop :=
  ∀ old, s.spoolCache entry = some old → removed = true ∧ ∀ (j : Nat) (other : Job), j ≠ i →
    s.jobs[j]? = some other → other.phase.got ≠ some old.path

/-- What is removed is the path of no other job, and removed for good. -/
def Spares (s : State) : Action → Prop
  | .register i removed => ∀ job, s.jobs[i]? = some job → s.cached job = none →
      Unshared s i job.entry removed
  | .removeTmp _ removed => removed = true
  | .clearSpool i removed => ∀ job, s.jobs[i]? = some job → Unshared s i job.entry removed
  | _ => True

instance (s : State) (i : Nat) (entry : Int) (removed : Bool) :
    Decidable (Unshared s i entry removed) :=
  decidable_of_iff (∀ old ∈ s.spoolCache entry, removed = true ∧ ∀ e ∈ s.jobs.zipIdx,
    e.2 ≠ i → e.1.phase.got ≠ some old.path) <| by
      simp only [Unshared, Option.mem_def, List.mem_zipIdx_iff_getElem?, Prod.forall, ne_eq]
      exact forall₂_congr fun old _ => and_congr_right fun _ =>
        ⟨fun h j other ne found => h other j found ne, fun h other j found ne => h j other ne found⟩

instance (s : State) : (a : Action) → Decidable (Spares s a)
  | .register i removed =>
    inferInstanceAs (Decidable (∀ job ∈ s.jobs[i]?, s.cached job = none →
      Unshared s i job.entry removed))
  | .clearSpool i removed =>
    inferInstanceAs (Decidable (∀ job ∈ s.jobs[i]?, Unshared s i job.entry removed))
  | .removeTmp _ removed => inferInstanceAs (Decidable (removed = true))
  | .start .. => isTrue trivial
  | .lookup _ => isTrue trivial
  | .openSource .. => isTrue trivial
  | .createTemp .. => isTrue trivial
  | .ioCopy .. => isTrue trivial
  | .close .. => isTrue trivial
  | .finish _ => isTrue trivial

inductive Owner where
  | job (i : Nat)
  | entry (id : Int)
  deriving DecidableEq

def State.holds (s : State) : Owner → Option Text
  | .job i => s.jobs[i]?.bind fun job => job.phase.tmp
  | .entry id => (s.spoolCache id).map SpoolEntry.path

def State.present (s : State) (path : Text) : Prop := s.files path ≠ none

theorem holds_setPhase {s : State} {i : Nat} {job : Job} (found : s.jobs[i]? = some job)
    (phase : Phase) :
    (s.setPhase i job phase).holds = Function.update s.holds (.job i) phase.tmp := by
  have inside : i < s.jobs.length := (List.getElem?_eq_some_iff.mp found).1
  funext owner
  cases owner with
  | entry id => simp [State.holds, State.setPhase]
  | job j =>
    by_cases here : j = i
    · subst here
      simp [State.holds, State.setPhase, inside]
    · simp [State.holds, State.setPhase, here, Ne.symm here]

theorem holds_setCache (s : State) (entry : Int) (cached : Option SpoolEntry) :
    (s.setCache entry cached).holds =
      Function.update s.holds (.entry entry) (cached.map SpoolEntry.path) := by
  funext owner
  cases owner with
  | job j => simp [State.holds, State.setCache]
  | entry id =>
    by_cases here : id = entry
    · simp [State.holds, State.setCache, here]
    · simp [State.holds, State.setCache, here]

theorem holds_job {s : State} {i : Nat} {job : Job} (found : s.jobs[i]? = some job) :
    s.holds (.job i) = job.phase.tmp := by
  simp [State.holds, found]

theorem holds_entry {s : State} {entry : Int} {cached : SpoolEntry}
    (found : s.spoolCache entry = some cached) : s.holds (.entry entry) = some cached.path := by
  simp [State.holds, found]

/-- Every temp file is that of one job or of one entry. -/
structure Sound (source : Text → Bytes) (s : State) : Prop where
  exact : Exact s.holds s.present
  cached : ∀ entry cached, s.spoolCache entry = some cached →
    s.files cached.path = some (source cached.sourceKey)
  full : ∀ (i : Nat) (job : Job) (tmp : Text), s.jobs[i]? = some job →
    job.phase.full = some tmp → s.files tmp = some (source job.sourceKey)
  /-- The path that a job gets is the registered one. -/
  got : ∀ (i : Nat) (job : Job) (path : Text), s.jobs[i]? = some job →
    job.phase.got = some path → s.cached job = some path

variable {source : Text → Bytes} {s s' : State} {i : Nat} {job : Job} {path tmp : Text}

theorem Phase.tmp_of_full {phase : Phase} {tmp : Text} (h : phase.full = some tmp) :
    phase.tmp = some tmp := by
  cases phase <;> simp_all [Phase.full, Phase.tmp]

theorem sound_new : Sound source new where
  exact := by
    have nothing : new.holds = fun _ => none := by
      funext owner
      cases owner <;> rfl
    rw [nothing]
    exact exact_nothing.congr fun path => by simp [State.present, new]
  cached entry cached found := by cases found
  full i job tmp found := by cases found
  got i job path found := by cases found

theorem cached_eq (h : s.cached job = some path) :
    s.spoolCache job.entry = some ⟨path, job.sourceKey⟩ := by
  obtain ⟨⟨old, key⟩, found, same⟩ := Option.bind_eq_some_iff.mp h
  split at same
  · next isKey =>
    cases same
    exact isKey ▸ found
  · cases same

theorem Sound.kept (h : Sound source s) : Kept source s := by
  intro job mem path holding
  obtain ⟨i, found⟩ := List.getElem?_of_mem mem
  have registered := cached_eq (h.got i job path found (by rw [holding, Phase.got]))
  exact h.cached _ _ registered

theorem Sound.tidy (h : Sound source s) (quiet : Quiet s) : Tidy s := by
  intro path there
  obtain ⟨owner, holds⟩ := h.exact.owned there
  cases owner with
  | job i =>
    obtain ⟨job, found, tmp⟩ := Option.bind_eq_some_iff.mp holds
    have isQuiet := quiet job (List.mem_of_getElem? found)
    cases hphase : job.phase <;> simp_all [Phase.tmp, Phase.isQuiet]
  | entry id =>
    obtain ⟨cached, found, same⟩ := Option.map_eq_some_iff.mp holds
    exact ⟨id, cached, found, same⟩

theorem jobs_setPhase {phase : Phase} {j : Nat} {other : Job}
    (found : (s.setPhase i job phase).jobs[j]? = some other) :
    (j = i ∧ other = { job with phase := phase }) ∨ (j ≠ i ∧ s.jobs[j]? = some other) := by
  by_cases here : j = i
  · subst here
    have inside : j < s.jobs.length := by
      simpa [State.setPhase] using (List.getElem?_eq_some_iff.mp found).1
    simp only [State.setPhase, List.getElem?_set_self inside, Option.some.injEq] at found
    exact .inl ⟨rfl, found.symm⟩
  · rw [State.setPhase, List.getElem?_set_ne (Ne.symm here)] at found
    exact .inr ⟨here, found⟩

/-- A job goes on with the files as they are. -/
theorem Sound.turn (h : Sound source s) (found : s.jobs[i]? = some job) {phase : Phase}
    (same : phase.tmp = job.phase.tmp) (full : ∀ t, phase.full = some t → job.phase.full = some t)
    (got : ∀ p, phase.got = some p → s.cached job = some p) :
    Sound source (s.setPhase i job phase) where
  exact := by
    rw [holds_setPhase found, same, ← holds_job found, Function.update_eq_self]
    exact h.exact
  cached := h.cached
  full j other t other_found isFull := by
    obtain ⟨rfl, rfl⟩ | ⟨_, before⟩ := jobs_setPhase other_found
    · exact h.full j job t found (full t isFull)
    · exact h.full j other t before isFull
  got j other p other_found has := by
    obtain ⟨rfl, rfl⟩ | ⟨_, before⟩ := jobs_setPhase other_found
    · exact got p has
    · exact h.got j other p before has

/-- The same for a phase without a full file and without a path. -/
theorem Sound.plain (h : Sound source s) (found : s.jobs[i]? = some job) {phase : Phase}
    (same : phase.tmp = job.phase.tmp) (full : phase.full = none) (got : phase.got = none) :
    Sound source (s.setPhase i job phase) :=
  h.turn found same (by simp [full]) (by simp [got])

theorem Sound.start (h : Sound source s) (kind : Kind) (entry : Int) (sourceKey : Text) :
    Sound source { s with jobs := s.jobs ++ [⟨kind, entry, sourceKey, .called⟩] } := by
  have split : ∀ (j : Nat) (other : Job),
      (s.jobs ++ [⟨kind, entry, sourceKey, .called⟩])[j]? = some other →
        s.jobs[j]? = some other ∨ other.phase = .called := by
    intro j other found
    rw [List.getElem?_append] at found
    split at found
    · exact .inl found
    · have mem := List.mem_of_getElem? found
      exact .inr (by simp_all)
  have same : ({ s with jobs := s.jobs ++ [⟨kind, entry, sourceKey, .called⟩] } : State).holds =
      s.holds := by
    funext owner
    cases owner with
    | entry id => rfl
    | job j =>
      simp only [State.holds, List.getElem?_append]
      split
      · rfl
      · next beyond =>
        rw [List.getElem?_eq_none (by omega : s.jobs.length ≤ j)]
        cases hnew : [(⟨kind, entry, sourceKey, .called⟩ : Job)][j - s.jobs.length]? with
        | none => rfl
        | some other =>
          have mem := List.mem_of_getElem? hnew
          simp_all [Phase.tmp]
  refine ⟨same ▸ h.exact, h.cached, fun j other t found isFull => ?_, fun j other p found has => ?_⟩
  · obtain before | called := split j other found
    · exact h.full j other t before isFull
    · simp [called, Phase.full] at isFull
  · obtain before | called := split j other found
    · exact h.got j other p before has
    · simp [called, Phase.got] at has

/-- A temp file that is the job's own, or a new one. -/
def Own (s : State) (i : Nat) (tmp : Text) : Prop :=
  s.holds (.job i) = some tmp ∨ (s.holds (.job i) = none ∧ s.files tmp = none)

theorem Sound.other_holds (h : Sound source s) (own : Own s i tmp) {owner : Owner}
    (other : owner ≠ .job i) {path : Text} (held : s.holds owner = some path) : path ≠ tmp := by
  rintro rfl
  obtain mine | ⟨_, absent⟩ := own
  · exact other (h.exact.single held mine)
  · exact h.exact.there held absent

theorem Sound.full_elsewhere (h : Sound source s) (own : Own s i tmp) {j : Nat} {other : Job}
    {t : Text} (different : j ≠ i) (found : s.jobs[j]? = some other)
    (isFull : other.phase.full = some t) : t ≠ tmp := by
  have held : s.holds (.job j) = some t := by rw [holds_job found, Phase.tmp_of_full isFull]
  exact h.other_holds own (by simpa using different) held

@[simp] theorem files_setFile (s : State) (path : Text) (content : Option Bytes) :
    (s.setFile path content).files = Function.update s.files path content := rfl

theorem Sound.exact_fill (h : Sound source s) (own : Own s i tmp) (content : Bytes) :
    Exact (Function.update s.holds (.job i) (some tmp))
      (s.setFile tmp (some content)).present := by
  have grown : ∀ q, (s.setFile tmp (some content)).present q ↔ q = tmp ∨ s.present q := by
    intro q
    by_cases here : q = tmp
    · simp [State.present, here]
    · simp [State.present, here]
  obtain mine | ⟨free, absent⟩ := own
  · rw [← mine, Function.update_eq_self]
    refine h.exact.congr fun q => (grown q).trans ?_
    exact ⟨fun there => there.elim (fun same => same ▸ h.exact.there mine) id, .inr⟩
  · exact h.exact.create (by simp [State.present, absent]) free grown

/-- A job writes its temp file. -/
theorem Sound.fill (h : Sound source s) (found : s.jobs[i]? = some job) (own : Own s i tmp)
    {phase : Phase} {content : Bytes} (isTmp : phase.tmp = some tmp)
    (full : phase.full ≠ none → content = source job.sourceKey) (got : phase.got = none) :
    Sound source ((s.setPhase i job phase).setFile tmp (some content)) where
  exact := by
    have same : ((s.setPhase i job phase).setFile tmp (some content)).holds =
        (s.setPhase i job phase).holds := rfl
    rw [same, holds_setPhase found, isTmp]
    exact h.exact_fill own content
  cached entry cached registered := by
    have elsewhere := h.other_holds own (by simp) (holds_entry registered)
    rw [files_setFile, Function.update_of_ne elsewhere]
    exact h.cached entry cached registered
  full j other t other_found isFull := by
    obtain ⟨rfl, rfl⟩ | ⟨different, before⟩ := jobs_setPhase other_found
    · obtain rfl : t = tmp := Option.some.inj ((Phase.tmp_of_full isFull).symm.trans isTmp)
      rw [files_setFile, Function.update_self, full (by simp [isFull])]
    · have elsewhere := h.full_elsewhere own different before isFull
      rw [files_setFile, Function.update_of_ne elsewhere]
      exact h.full j other t before isFull
  got j other p other_found has := by
    obtain ⟨rfl, rfl⟩ | ⟨_, before⟩ := jobs_setPhase other_found
    · simp [got] at has
    · exact h.got j other p before has

/-- A job removes its temp file. -/
theorem Sound.drop (h : Sound source s) (found : s.jobs[i]? = some job)
    (mine : job.phase.tmp = some tmp) {phase : Phase} (noTmp : phase.tmp = none)
    (got : phase.got = job.phase.got) :
    Sound source ((s.setPhase i job phase).remove tmp true) where
  exact := by
    have same : ((s.setPhase i job phase).remove tmp true).holds =
        (s.setPhase i job phase).holds := rfl
    rw [same, holds_setPhase found, noTmp]
    refine h.exact.remove (holds_job found ▸ mine) fun q => ?_
    by_cases here : q = tmp
    · simp [State.present, State.remove, here]
    · simp [State.present, State.remove, here, State.setPhase]
  cached entry cached registered := by
    have own : Own s i tmp := .inl (holds_job found ▸ mine)
    have elsewhere := h.other_holds own (by simp) (holds_entry registered)
    simp only [State.remove, if_true, files_setFile, Function.update_of_ne elsewhere]
    exact h.cached entry cached registered
  full j other t other_found isFull := by
    obtain ⟨rfl, rfl⟩ | ⟨different, before⟩ := jobs_setPhase other_found
    · exact absurd (noTmp.symm.trans (Phase.tmp_of_full isFull)) (by simp)
    · have own : Own s i tmp := .inl (holds_job found ▸ mine)
      have elsewhere := h.full_elsewhere own different before isFull
      simp only [State.remove, if_true, files_setFile, Function.update_of_ne elsewhere]
      exact h.full j other t before isFull
  got j other p other_found has := by
    obtain ⟨rfl, rfl⟩ | ⟨_, before⟩ := jobs_setPhase other_found
    · exact h.got j job p found (got ▸ has)
    · exact h.got j other p before has

theorem jobs_removeCached (s : State) (entry : Int) (ok : Bool) :
    (s.removeCached entry ok).jobs = s.jobs := by
  unfold State.removeCached State.remove
  split
  · split <;> rfl
  · rfl

theorem removeCached_setPhase (s : State) (entry : Int) (ok : Bool) (i : Nat) (job : Job)
    (phase : Phase) : (s.removeCached entry ok).setPhase i job phase =
      (s.setPhase i job phase).removeCached entry ok := by
  cases registered : s.spoolCache entry with
  | none => simp [State.removeCached, State.setPhase, registered]
  | some old =>
    cases ok
    all_goals simp [State.removeCached, State.remove, State.setPhase, State.setFile, registered]

/-- The registered copy of an entry is removed while no job has its path. -/
theorem Sound.evict (h : Sound source s) {entry : Int} {removed : Bool}
    (free : ∀ old, s.spoolCache entry = some old → removed = true ∧
      ∀ (j : Nat) (other : Job), s.jobs[j]? = some other → other.phase.got ≠ some old.path) :
    Sound source ((s.removeCached entry removed).setCache entry none) := by
  cases registered : s.spoolCache entry with
  | none =>
    have same : (s.removeCached entry removed).setCache entry none = s := by
      simp only [State.removeCached, registered, State.setCache]
      rw [← registered, Function.update_eq_self]
    rw [same]
    exact h
  | some old =>
    obtain ⟨rfl, unheld⟩ := free old registered
    have gone : (s.removeCached entry true).setCache entry none =
        (s.setFile old.path none).setCache entry none := by
      simp [State.removeCached, registered, State.remove]
    have others : ∀ owner path, owner ≠ .entry entry → s.holds owner = some path →
        path ≠ old.path := by
      intro owner path other held
      exact h.exact.ne held (holds_entry registered) other
    rw [gone]
    refine ⟨?_, ?_, ?_, ?_⟩
    · have same : (s.setFile old.path none).holds = s.holds := rfl
      rw [holds_setCache, same]
      refine h.exact.remove (holds_entry registered) fun q => ?_
      by_cases here : q = old.path
      · simp [State.present, State.setCache, here]
      · simp [State.present, State.setCache, here]
    · intro id cached found
      by_cases here : id = entry
      · simp [State.setCache, here] at found
      · simp only [State.setCache, Function.update_of_ne here] at found
        have elsewhere := others _ _ (by simpa using here) (holds_entry found)
        simp only [State.setCache, files_setFile, Function.update_of_ne elsewhere]
        exact h.cached id cached found
    · intro j other t found isFull
      have held : s.holds (.job j) = some t :=
        (holds_job found).trans (Phase.tmp_of_full isFull)
      have elsewhere := others _ _ (by simp) held
      simp only [State.setCache, files_setFile, Function.update_of_ne elsewhere]
      exact h.full j other t found isFull
    · intro j other path found has
      have before := h.got j other path found has
      have different : other.entry ≠ entry := by
        rintro rfl
        cases registered.symm.trans (cached_eq before)
        exact unheld j other found has
      simp only [State.cached, State.setCache, Function.update_of_ne different]
      exact before

/-- The finished temp file of a job becomes the copy of an entry that has none. -/
theorem Sound.enter (h : Sound source s) (found : s.jobs[i]? = some job)
    (closed : job.phase = .closed tmp) (free : s.spoolCache job.entry = none) :
    Sound source ((s.setPhase i job (.holding tmp)).setCache job.entry
      (some ⟨tmp, job.sourceKey⟩)) where
  exact := by
    rw [holds_setCache, holds_setPhase found]
    refine h.exact.hand ?_ ?_
    · rw [holds_job found, closed, Phase.tmp]
    · simp [State.holds, free]
  cached entry cached registered := by
    by_cases here : entry = job.entry
    · subst here
      simp only [State.setCache, Function.update_self, Option.some.injEq] at registered
      subst registered
      exact h.full i job tmp found (by rw [closed, Phase.full])
    · simp only [State.setCache, Function.update_of_ne here] at registered
      exact h.cached entry cached registered
  full j other t other_found isFull := by
    obtain ⟨rfl, rfl⟩ | ⟨_, before⟩ := jobs_setPhase other_found
    · simp [Phase.full] at isFull
    · exact h.full j other t before isFull
  got j other p other_found has := by
    obtain ⟨rfl, rfl⟩ | ⟨_, before⟩ := jobs_setPhase other_found
    · simp_all [Phase.got, State.cached, State.setCache]
    · have registered := cached_eq (h.got j other p before has)
      have different : other.entry ≠ job.entry := by
        intro same
        rw [same, free] at registered
        cases registered
      simp only [State.cached, State.setCache, Function.update_of_ne different]
      exact h.got j other p before has

theorem Sound.register (h : Sound source s) (found : s.jobs[i]? = some job)
    (closed : job.phase = .closed tmp) {removed : Bool}
    (unshared : Unshared s i job.entry removed) :
    Sound source (((s.removeCached job.entry removed).setPhase i job (.holding tmp)).setCache
      job.entry (some ⟨tmp, job.sourceKey⟩)) := by
  have evicted : Sound source ((s.removeCached job.entry removed).setCache job.entry none) := by
    refine h.evict fun old registered => ?_
    obtain ⟨gone, unheld⟩ := unshared old registered
    refine ⟨gone, fun j other other_found => ?_⟩
    by_cases here : j = i
    · subst here
      cases found.symm.trans other_found
      simp [closed, Phase.got]
    · exact unheld j other here other_found
  have found' : ((s.removeCached job.entry removed).setCache job.entry none).jobs[i]? =
      some job := (congrArg (·[i]?) (jobs_removeCached s job.entry removed)).trans found
  have entered := evicted.enter found' closed (Function.update_self ..)
  have same : ((((s.removeCached job.entry removed).setCache job.entry none).setPhase i job
      (.holding tmp)).setCache job.entry (some ⟨tmp, job.sourceKey⟩)) =
        ((s.removeCached job.entry removed).setPhase i job (.holding tmp)).setCache job.entry
          (some ⟨tmp, job.sourceKey⟩) := by
    simp [State.setCache, State.setPhase]
  exact same ▸ entered

theorem Sound.clearSpool (h : Sound source s) (found : s.jobs[i]? = some job)
    (may : job.mayClear = true) {removed : Bool} (unshared : Unshared s i job.entry removed) :
    Sound source (((s.removeCached job.entry removed).setPhase i job .ended).setCache
      job.entry none) := by
  have noTmp : job.phase.tmp = none := by
    cases phase : job.phase <;> simp_all [Job.mayClear, Phase.tmp]
  have ended : Sound source (s.setPhase i job .ended) :=
    h.turn found noTmp.symm (by simp [Phase.full]) (by simp [Phase.got])
  rw [removeCached_setPhase]
  refine ended.evict fun old registered => ?_
  obtain ⟨gone, unheld⟩ := unshared old registered
  refine ⟨gone, fun j other other_found => ?_⟩
  obtain ⟨rfl, rfl⟩ | ⟨different, before⟩ := jobs_setPhase other_found
  · simp [Phase.got]
  · exact unheld j other different before

theorem Sound.step {a : Action} (h : Sound source s) (spares : Spares s a)
    (taken : Spool.step source s a = some s') : Sound source s' := by
  cases a with
  | start kind entry sourceKey =>
    cases taken
    exact h.start kind entry sourceKey
  | lookup i =>
    obtain ⟨job, found, taken⟩ := Option.bind_eq_some_iff.mp taken
    split at taken
    · next phase =>
      split at taken
      · cases taken
        exact h.plain found (by simp [phase, Phase.tmp]) rfl rfl
      · split at taken
        · next path cached =>
          cases taken
          exact h.turn found (by simp [phase, Phase.tmp]) (by simp [Phase.full])
            (by simp [Phase.got, cached])
        · cases taken
          exact h.plain found (by simp [phase, Phase.tmp]) rfl rfl
    · cases taken
  | openSource i ok =>
    obtain ⟨job, found, taken⟩ := Option.bind_eq_some_iff.mp taken
    split at taken
    · next phase =>
      cases taken
      cases ok
      all_goals exact h.plain found (by simp [phase, Phase.tmp]) rfl rfl
    · cases taken
  | createTemp i name =>
    obtain ⟨job, found, taken⟩ := Option.bind_eq_some_iff.mp taken
    split at taken
    · next phase =>
      cases name with
      | none =>
        cases taken
        exact h.plain found (by simp [phase, Phase.tmp]) rfl rfl
      | some tmp =>
        simp only at taken
        split at taken
        · next absent =>
          cases taken
          have own : Own s i tmp := .inr ⟨by simp [holds_job found, phase, Phase.tmp], absent⟩
          exact h.fill found own rfl (by simp [Phase.full]) rfl
        · cases taken
    · cases taken
  | ioCopy i failsAfter =>
    obtain ⟨job, found, taken⟩ := Option.bind_eq_some_iff.mp taken
    split at taken
    · next tmp phase =>
      have own : Own s i tmp := .inl (by simp [holds_job found, phase, Phase.tmp])
      split at taken
      · cases taken
        exact h.fill found own rfl (fun _ => rfl) rfl
      · cases taken
        exact h.fill found own rfl (by simp [Phase.full]) rfl
    · cases taken
  | close i ok =>
    obtain ⟨job, found, taken⟩ := Option.bind_eq_some_iff.mp taken
    split at taken
    · next tmp phase =>
      cases taken
      cases ok
      all_goals
        exact h.turn found (by simp [phase, Phase.tmp]) (by simp [phase, Phase.full])
          (by simp [Phase.got])
    · cases taken
  | register i removed =>
    obtain ⟨job, found, taken⟩ := Option.bind_eq_some_iff.mp taken
    split at taken
    · next tmp phase =>
      split at taken
      · next path cached =>
        cases taken
        exact h.turn found (by simp [phase, Phase.tmp]) (by simp [Phase.full])
          (by simp [Phase.got, cached])
      · next missing =>
        cases taken
        exact h.register found phase (spares job found missing)
    · cases taken
  | removeTmp i removed =>
    obtain ⟨job, found, taken⟩ := Option.bind_eq_some_iff.mp taken
    obtain rfl : removed = true := spares
    split at taken
    · next tmp path phase =>
      cases taken
      exact h.drop found (by simp [phase, Phase.tmp]) rfl (by simp [phase, Phase.got])
    · next tmp phase =>
      cases taken
      exact h.drop found (by simp [phase, Phase.tmp]) rfl (by simp [phase, Phase.got])
    · cases taken
  | clearSpool i removed =>
    obtain ⟨job, found, taken⟩ := Option.bind_eq_some_iff.mp taken
    split at taken
    · next may =>
      cases taken
      exact h.clearSpool found may (spares job found)
    · cases taken
  | finish i =>
    obtain ⟨job, found, taken⟩ := Option.bind_eq_some_iff.mp taken
    split at taken
    · next may =>
      cases taken
      refine h.turn found ?_ (by simp [Phase.full]) (by simp [Phase.got])
      cases phase : job.phase <;> simp_all [Job.mayReturn, Phase.tmp]
    · cases taken

/-- In a run in which only a job alone on its entry's copy removes it, every job keeps the bytes it
was given, and no temp file is left over. -/
theorem spool_kept {trace : List Action} (h : Run (step source) Spares new trace s) :
    Kept source s ∧ (Quiet s → Tidy s) := by
  have sound : Sound source s :=
    h.invariant (Sound source) sound_new fun _ _ _ sound spares taken => sound.step spares taken
  exact ⟨sound.kept, sound.tidy⟩

/-- A removal that does not spare a job takes the bytes from it. -/
theorem clearSpool_breaks {old : SpoolEntry} {j : Nat} {other : Job}
    (taken : step source s (.clearSpool i true) = some s') (found : s.jobs[i]? = some job)
    (registered : s.spoolCache job.entry = some old) (different : j ≠ i)
    (other_found : s.jobs[j]? = some other) (holding : other.phase = .holding old.path) :
    ¬Kept source s' := by
  intro kept
  obtain ⟨job', found', taken⟩ := Option.bind_eq_some_iff.mp taken
  cases found.symm.trans found'
  split at taken
  · cases taken
    have mem : other ∈ (s.jobs.set i { job with phase := .ended }) := by
      refine List.mem_of_getElem? (i := j) ?_
      rw [List.getElem?_set_ne (Ne.symm different), other_found]
    have jobs := jobs_removeCached s job.entry true
    have there := kept other (by simpa [State.setCache, State.setPhase, jobs] using mem) _ holding
    simp [State.setCache, State.setPhase, State.removeCached, registered, State.remove] at there
  · cases taken

/-- Two jobs share a copy, the first returns, and the second removes it. -/
def shared : List Action :=
  [.start .probe 7 ['k'], .lookup 0, .openSource 0 true, .createTemp 0 (some ['t']),
    .ioCopy 0 none, .close 0 true, .register 0 true, .start .transcode 7 ['k'], .lookup 1,
    .finish 0, .clearSpool 1 true]

theorem spool_kept_shared : ∃ s, Run (step fun _ => [1, 2]) Spares new shared s ∧
    Kept (fun _ => [1, 2]) s ∧ (Quiet s → Tidy s) := by
  have run : ∃ s, Run (step fun _ => [1, 2]) Spares new shared s ∧ true = true :=
    exists_run (fun _ _ => of_decide_eq_true) (by decide)
  obtain ⟨s, run, _⟩ := run
  exact ⟨s, run, spool_kept run⟩

/-- An entry is probed again while its source is being transcoded. -/
def probedAgain : List Action :=
  [.start .transcode 7 ['k'], .lookup 0, .openSource 0 true, .createTemp 0 (some ['t']),
    .ioCopy 0 none, .close 0 true, .register 0 true, .start .probe 7 ['k'], .lookup 1,
    .clearSpool 1 true]

theorem probedAgain_removes : ∃ s, Run (step fun _ => [1, 2]) Always new probedAgain s ∧
    ¬Kept (fun _ => [1, 2]) s := by
  have run : ∃ s, Run (step fun _ => [1, 2]) Always new probedAgain s ∧
      ((s.jobs[0]?.any fun job => job.phase = .holding ['t']) && s.files ['t'] = none) = true :=
    exists_always (by decide)
  obtain ⟨s, run, check⟩ := run
  obtain ⟨holds, gone⟩ := Bool.and_eq_true_iff.mp check
  obtain ⟨job, found, phase⟩ := (Option.any_eq_true _ _).mp holds
  refine ⟨s, run, fun kept => ?_⟩
  have there := kept job (List.mem_of_getElem? found) ['t'] (of_decide_eq_true phase)
  exact absurd ((of_decide_eq_true gone).symm.trans there) (by simp)

end Vidsilo.Jobs.Spool
