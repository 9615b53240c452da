import Vidsilo.Web.DownloadStore

/-!
# Waiting for a download

Source: web/lib/url-download-store.ts:181-269 (`startDownloads`, `submitOne`, `waitForEntry`,
`pollUntilIdle`), over `Web.DownloadStore`.
-/
namespace Vidsilo.Web.DownloadPolling
open Library Library.Transition DownloadStore

variable {Id : Type}

/-- As long as the promise is unresolved, the timer is armed or a callback is running. -/
def Hopeful (wait : Wait Id) : Prop :=
  wait.resolved = false → wait.timer = true ∨ wait.callbacks ≠ []

/-- The wait that `startDownloads` is in. -/
def waitsFor : Start Id → Option Nat
  | .submitted number | .polling number => some number
  | _ => none

structure Live (s : State Id) : Prop where
  waits : ∀ (number : Nat) (wait : Wait Id), s.waits[number]? = some wait → Hopeful wait
  started : ∀ number : Nat, waitsFor s.start = some number → (s.waits[number]?).isSome = true

/-- The wait does not depend on any one of its callbacks. -/
def Backed (wait : Wait Id) : Prop :=
  wait.resolved = true ∨ wait.timer = true ∨ 1 < wait.callbacks.length

/-- The callback ends with this answer: the request failed, or the download is still listed. -/
def endsList (wait : Wait Id) (rows : Option (List ActiveDownload)) : Bool :=
  rows.all fun active => active.any (·.publicId = wait.publicId.1)

/-- A callback that ends without having resolved the promise is not the last hope of its wait. -/
def Spares (s : State Id) : Action Id → Prop
  | .listReply number i rows _ => ∀ wait, s.callback number i .list = some wait →
      endsList wait rows = true → Backed wait
  | .entryReply number i none _ _ => ∀ wait, s.callback number i .entry = some wait → Backed wait
  | _ => True

theorem callback_eq_some {s : State Id} {number i : Nat} {place : Callback} {wait : Wait Id} :
    s.callback number i place = some wait ↔
      s.waits[number]? = some wait ∧ wait.callbacks[i]? = some place := by
  simp [State.callback, Option.filter_eq_some_iff]

theorem hopeful_ended_iff {wait : Wait Id} {i : Nat} {place : Callback}
    (running : wait.callbacks[i]? = some place) : Hopeful (wait.ended i) ↔ Backed wait := by
  obtain ⟨inside, -⟩ := List.getElem?_eq_some_iff.mp running
  have left : wait.callbacks.eraseIdx i ≠ [] ↔ 1 < wait.callbacks.length := by
    rw [← List.length_pos_iff, List.length_eraseIdx_of_lt inside]
    omega
  change (wait.resolved = false → wait.timer = true ∨ wait.callbacks.eraseIdx i ≠ []) ↔ _
  rw [left, Backed]
  cases wait.resolved <;> simp

section
variable {s s' : State Id} {number : Nat} {wait wait' : Wait Id} (live : Live s)
include live

theorem live_setWait_iff (found : s.waits[number]? = some wait) :
    Live (s.setWait number wait') ↔ Hopeful wait' := by
  have inside : number < s.waits.length := (List.getElem?_eq_some_iff.mp found).1
  constructor
  · intro after
    exact after.waits number wait' (List.getElem?_set_self inside)
  · intro hopeful
    constructor
    · intro other w there
      change (s.waits.set number wait')[other]? = some w at there
      rw [List.getElem?_set, if_pos inside] at there
      split at there
      · cases there
        exact hopeful
      · exact live.waits other w there
    · intro other waiting
      change ((s.waits.set number wait')[other]?).isSome = true
      rw [List.getElem?_set, if_pos inside]
      split
      · rfl
      · exact live.started other waiting

/-- A step that leaves the waits alone and starts no other one. -/
theorem live_of_same (waits : s'.waits = s.waits)
    (start : ∀ number, waitsFor s'.start = some number → waitsFor s.start = some number) :
    Live s' := by
  constructor
  · rw [waits]
    exact live.waits
  · intro number waiting
    rw [waits]
    exact live.started number (start number waiting)

/-- A new wait, and what comes before the next one. -/
theorem live_waitForEntry {publicId : PublicId} {job : Id}
    (waits : s'.waits = s.waits ++ [⟨publicId, job, true, [], false⟩])
    (start : ∀ number, waitsFor s'.start = some number → number = s.waits.length) : Live s' := by
  constructor
  · intro number w there
    rw [waits, List.getElem?_append] at there
    split at there
    · exact live.waits number w there
    · rw [List.getElem?_singleton] at there
      split at there
      · cases there
        exact fun _ => .inl rfl
      · cases there
  · intro number waiting
    rw [waits, start number waiting]
    simp

end

variable [DecidableEq Id]

omit [DecidableEq Id] in
@[simp] theorem pollNext_waits (s : State Id) : s.pollNext.waits = s.waits := by
  unfold State.pollNext
  split <;> rfl

omit [DecidableEq Id] in
/-- A loop that goes on waits for no entry. -/
@[simp] theorem waitsFor_pollNext (s : State Id) : waitsFor s.pollNext.start = none := by
  unfold State.pollNext
  split <;> rfl

@[simp] theorem submitNext_waits (s : State Id) (stored : Bool) :
    (s.submitNext stored).waits = s.waits := by
  unfold State.submitNext
  split <;> simp

@[simp] theorem waitsFor_submitNext (s : State Id) (stored : Bool) :
    waitsFor (s.submitNext stored).start = none := by
  unfold State.submitNext
  split
  · exact waitsFor_pollNext s
  · rfl

theorem live_update {s : State Id} (live : Live s) (id : Id)
    (set : UrlDownloadJob Id → UrlDownloadJob Id) (stored : Bool) : Live (s.update id set stored) :=
  live_of_same live (update_waits s id set stored) fun _ waiting => update_start s id set stored ▸ waiting

/-- The answer to `submitOne`. -/
theorem live_submitOne {s : State Id} {id : Id} {now : Nat} {stored : Bool} (answer : Submission)
    (live : Live s) : Live (s.submitOne id now stored answer) := by
  cases answer with
  | throws => exact live_of_same live rfl fun _ waiting => nomatch waiting
  | refused reason =>
    refine live_of_same live (by simp [State.submitOne]) fun number waiting => ?_
    simp [State.submitOne] at waiting
  | accepted entryId =>
    have waits : (s.submitOne id now stored (.accepted entryId)).waits =
        s.waits ++ [⟨entryId, id, true, [], false⟩] := by
      simp [State.submitOne, State.waitForEntry]
    apply live_waitForEntry live waits
    rintro number ⟨⟩
    rfl

theorem live_listReply_iff {s : State Id} {number i : Nat} {wait : Wait Id} (live : Live s)
    (running : s.callback number i .list = some wait) (rows : Option (List ActiveDownload))
    (stored : Bool) : Live (s.listReply number wait i rows stored) ↔
      (endsList wait rows = true → Backed wait) := by
  obtain ⟨found, place⟩ := callback_eq_some.mp running
  unfold State.listReply endsList
  cases rows with
  | none =>
    dsimp only
    rw [live_setWait_iff live found, hopeful_ended_iff place]
    simp
  | some active =>
    dsimp only [Option.all_some]
    split
    · next row listed =>
      have ends : active.any (·.publicId = wait.publicId.1) = true := by
        have own := List.find?_some listed
        rw [List.any_eq_true]
        exact ⟨row, List.mem_of_find?_eq_some listed, own⟩
      simp only [ends, forall_const]
      split
      · rw [live_setWait_iff (live_update live _ _ _) (by rw [update_waits]; exact found),
          hopeful_ended_iff place]
      · rw [live_setWait_iff live found, hopeful_ended_iff place]
    · next gone =>
      have stays : active.any (·.publicId = wait.publicId.1) = false := by
        rw [List.find?_eq_none] at gone
        rw [List.any_eq_false]
        exact gone
      rw [live_setWait_iff live found]
      refine iff_of_true (fun _ => .inr ?_) (by simp [stays])
      obtain ⟨inside, -⟩ := List.getElem?_eq_some_iff.mp place
      exact List.ne_nil_of_length_pos (by rw [List.length_set]; omega)

theorem live_entryReply_iff {s : State Id} {number i : Nat} {wait : Wait Id} (live : Live s)
    (running : s.callback number i .entry = some wait) (entry : Option EntryStatus) (now : Nat)
    (stored : Bool) : Live (s.entryReply number wait i entry now stored) ↔
      (entry = none → Backed wait) := by
  obtain ⟨found, place⟩ := callback_eq_some.mp running
  unfold State.entryReply
  cases entry with
  | none =>
    dsimp only
    rw [live_setWait_iff live found, hopeful_ended_iff place]
    simp
  | some entry =>
    dsimp only
    rw [live_setWait_iff (live_update live _ _ _) (by rw [update_waits]; exact found)]
    exact iff_of_true nofun nofun

/-- From a state where no wait has lost its hope, a step leads to such a state exactly when it spares
the last hope of every wait. -/
theorem live_step_iff {s s' : State Id} {action : Action Id} (live : Live s)
    (taken : step s action = some s') : Live s' ↔ Spares s action := by
  have same (waits : s'.waits = s.waits) (start : s'.start = s.start) : Live s' :=
    live_of_same live waits fun _ waiting => start ▸ waiting
  cases action with
  | checkUrls results stored =>
    obtain ⟨next, -, rfl⟩ := checkUrls_cases taken
    exact iff_of_true (same (by simp) (by simp)) trivial
  | edit id title category stored =>
    cases taken
    exact iff_of_true (same (by simp [State.edit]) (by simp [State.edit])) trivial
  | removeUrlDownload id stored =>
    cases taken
    exact iff_of_true
      (same (by simp [State.removeUrlDownload]) (by simp [State.removeUrlDownload])) trivial
  | clear stored =>
    cases taken
    exact iff_of_true (same (by simp [State.clear]) (by simp [State.clear])) trivial
  | resetIdleDownloads stored =>
    cases taken
    refine iff_of_true (same ?_ ?_) trivial
    all_goals
      unfold State.resetIdleDownloads
      split <;> simp
  | reload now =>
    cases taken
    exact iff_of_true ⟨nofun, nofun⟩ trivial
  | startDownloads stored =>
    cases taken
    refine iff_of_true ?_ trivial
    split
    · exact live_of_same live (by simp) fun _ waiting => by simp at waiting
    · exact live
  | submitted answer now stored =>
    obtain ⟨id, -, rfl⟩ := submitted_cases taken
    exact iff_of_true (live_submitOne answer live) trivial
  | pauseOver =>
    obtain ⟨id, entryId, -, rfl⟩ := pauseOver_cases taken
    refine iff_of_true (live_waitForEntry live rfl ?_) trivial
    rintro number ⟨⟩
    rfl
  | goOn stored =>
    refine iff_of_true ?_ trivial
    obtain ⟨number, -, -, rfl⟩ | ⟨number, -, -, rfl⟩ := goOn_cases taken
    · exact live_of_same live (by simp) fun _ waiting => by simp at waiting
    · exact live_of_same live (by simp) fun _ waiting => by simp at waiting
  | tick number =>
    obtain ⟨wait, found, -, rfl⟩ := tick_cases taken
    refine iff_of_true ?_ trivial
    rw [live_setWait_iff live found]
    exact fun _ => .inr (by simp)
  | listReply number i rows stored =>
    obtain ⟨wait, running, rfl⟩ := Option.map_eq_some_iff.mp taken
    rw [live_listReply_iff live running]
    simp [Spares, running]
  | entryReply number i entry now stored =>
    obtain ⟨wait, running, rfl⟩ := Option.map_eq_some_iff.mp taken
    rw [live_entryReply_iff live running]
    cases entry <;> simp [Spares, running]

def ready : EntryStatus := ⟨"ready".toList, none⟩

/-- The callback waits for the entry. -/
theorem resolves_entry {s : State Id} {number i : Nat} {wait : Wait Id}
    (running : s.callback number i .entry = some wait) :
    ∃ trace s', Run step Spares s trace s' ∧ s'.isResolved number = true := by
  have taken : step s (.entryReply number i (some ready) 0 true) =
      some (s.entryReply number wait i (some ready) 0 true) :=
    congrArg (Option.map _) running
  have spares : Spares s (.entryReply number i (some ready) 0 true) := trivial
  refine ⟨_, _, .next .start spares taken, ?_⟩
  obtain ⟨inside, -⟩ := List.getElem?_eq_some_iff.mp (callback_eq_some.mp running).1
  change ((((s.update wait.job _ true).waits).set number _)[number]?).any _ = true
  rw [update_waits, List.getElem?_set_self inside]
  rfl

/-- It waits for the list, in which the download is no more. -/
theorem resolves_list {s : State Id} {number i : Nat} {wait : Wait Id}
    (running : s.callback number i .list = some wait) :
    ∃ trace s', Run step Spares s trace s' ∧ s'.isResolved number = true := by
  have taken : step s (.listReply number i (some []) true) =
      some (s.listReply number wait i (some []) true) := congrArg (Option.map _) running
  have spares : Spares s (.listReply number i (some []) true) := nofun
  obtain ⟨found, place⟩ := callback_eq_some.mp running
  have next : (s.listReply number wait i (some []) true).callback number i .entry =
      some { wait with timer := false, callbacks := wait.callbacks.set i .entry } := by
    rw [callback_eq_some]
    exact ⟨List.getElem?_set_self (List.getElem?_eq_some_iff.mp found).1,
      List.getElem?_set_self (List.getElem?_eq_some_iff.mp place).1⟩
  obtain ⟨trace, s', run, resolved⟩ := resolves_entry next
  exact ⟨_, s', run.prepend spares taken, resolved⟩

/-- The timer is armed, so another callback may start. -/
theorem resolves_timer {s : State Id} {number : Nat} {wait : Wait Id}
    (found : s.waits[number]? = some wait) (armed : wait.timer = true) :
    ∃ trace s', Run step Spares s trace s' ∧ s'.isResolved number = true := by
  have taken : step s (.tick number) =
      some (s.setWait number { wait with callbacks := wait.callbacks ++ [.list] }) := by
    simp [step, found, armed]
  have next : (s.setWait number { wait with callbacks := wait.callbacks ++ [.list] }).callback number
      wait.callbacks.length .list = some { wait with callbacks := wait.callbacks ++ [.list] } := by
    rw [callback_eq_some]
    exact ⟨List.getElem?_set_self (List.getElem?_eq_some_iff.mp found).1, by simp⟩
  have spares : Spares s (.tick number) := trivial
  obtain ⟨trace, s', run, resolved⟩ := resolves_list next
  exact ⟨_, s', run.prepend spares taken, resolved⟩

/-- `startDownloads` does not wait for ever: from here its promise can still be resolved. -/
theorem resolves_of_live {s : State Id} (live : Live s) {number : Nat}
    (waiting : waitsFor s.start = some number) :
    ∃ trace s', Run step Spares s trace s' ∧ s'.isResolved number = true := by
  obtain ⟨wait, found⟩ := Option.isSome_iff_exists.mp (live.started number waiting)
  cases resolved : wait.resolved with
  | true => exact ⟨[], s, .start, by simp [State.isResolved, found, resolved]⟩
  | false =>
    rcases live.waits number wait found resolved with armed | running
    · exact resolves_timer found armed
    · obtain ⟨place, rest, callbacks⟩ := List.exists_cons_of_ne_nil running
      have here : s.callback number 0 place = some wait :=
        callback_eq_some.mpr ⟨found, by simp [callbacks]⟩
      cases place with
      | list => exact resolves_list here
      | entry => exact resolves_entry here

/-- In a run that spares the last hope of every wait, every unresolved wait keeps one, and what
`startDownloads` waits for can still be resolved. -/
theorem polling_live {s : State Id} {trace : List (Action Id)}
    (run : Run step Spares State.first trace s) :
    Live s ∧ ∀ number, waitsFor s.start = some number →
      ∃ later s', Run step Spares s later s' ∧ s'.isResolved number = true := by
  have live : Live s := run.invariant Live ⟨nofun, nofun⟩ fun t action t' live spares taken =>
    (live_step_iff live taken).mpr spares
  exact ⟨live, fun number waiting => resolves_of_live live waiting⟩

def clip : PublicId := ⟨"abc".toList, by decide⟩

/-- One URL is submitted, and a callback has found that its download is over. -/
def downloadOver : List (Action Nat) :=
  [.checkUrls [⟨"https://example.com/a.mp4".toList, true, none, 0⟩] true, .startDownloads true,
    .submitted (.accepted clip) 0 true, .tick 0, .listReply 0 0 (some []) true]

def losesNothing : Action Nat → Bool
  | .listReply _ _ rows _ => rows = some []
  | .entryReply _ _ entry _ _ => entry.isSome
  | _ => true

theorem polling_live_downloadOver : ∃ s : State Nat, Run step Spares State.first downloadOver s ∧
    waitsFor s.start = some 0 ∧ Live s ∧ ∀ number, waitsFor s.start = some number →
      ∃ later s', Run step Spares s later s' ∧ s'.isResolved number = true := by
  have spares (s : State Nat) (action : Action Nat) (allowed : losesNothing action = true) :
      Spares s action := by
    cases action with
    | listReply number i rows stored =>
      cases of_decide_eq_true allowed
      exact nofun
    | entryReply number i entry now stored =>
      obtain ⟨status, rfl⟩ := Option.isSome_iff_exists.mp allowed
      trivial
    | _ => trivial
  have made : (exec step (fun _ action => losesNothing action) State.first downloadOver).any
      (fun s => decide (waitsFor s.start = some 0)) = true := by
    decide
  obtain ⟨s, run, waiting⟩ := exists_run spares made
  exact ⟨s, run, of_decide_eq_true waiting, polling_live run⟩

/-- The request for the entry fails: the promise stays unresolved, with no timer and no callback. -/
theorem failed_entry_request_hangs : ∃ s : State Nat,
    Run step Always State.first (downloadOver ++ [.entryReply 0 0 none 0 true]) s ∧
      waitsFor s.start = some 0 ∧ ¬ Live s := by
  have made : (exec step (fun _ _ => true) State.first
      (downloadOver ++ [.entryReply 0 0 none 0 true])).any (fun s =>
        decide (waitsFor s.start = some 0) && decide (s.waits = [⟨clip, 0, false, [], false⟩])) =
      true := by
    decide
  obtain ⟨s, run, hangs⟩ := exists_always made
  rw [Bool.and_eq_true, decide_eq_true_eq, decide_eq_true_eq] at hangs
  refine ⟨s, run, hangs.1, fun live => ?_⟩
  have hopeful := live.waits 0 ⟨clip, 0, false, [], false⟩ (by rw [hangs.2]; rfl) rfl
  simp at hopeful

end Vidsilo.Web.DownloadPolling
