import Mathlib.Algebra.Ring.Nat
import Vidsilo.Library.Transition

/-!
# Chunks of one upload

Source: internal/upload/upload.go (WriteChunk, GetInfo), internal/api/tus.go (the composer has no
locker, so requests for one upload overlap). One step is one system call. A write may be short,
and what `io.Copy` does next is another step. Nothing else touches the spool file.
-/
namespace Vidsilo.Upload.WriteChunk
open Library Library.Transition

abbrev Bytes := List UInt8

inductive WriteError where
  /-- Of `os.MkdirAll` or `os.OpenFile`. -/
  | openFile
  | stat
  | mismatchOffset
  | seek
  /-- Of the request body or of the file. -/
  | copy
  deriving DecidableEq, Repr

/-- Where a call of `WriteChunk` stands. -/
inductive Phase where
  | called
  | opened
  /-- `st.Size() == offset`. -/
  | matched
  /-- In `io.Copy`, with the position of its file handle. -/
  | copying (position : Nat)
  | returned (n : Nat) (err : Option WriteError)
  deriving DecidableEq, Repr

/-- Bytes put at an offset. -/
structure Chunk where
  offset : Int
  data : Bytes
  deriving DecidableEq, Repr

structure Call where
  /-- The offset asked for and what was written so far. -/
  chunk : Chunk
  /-- What the request body has left. -/
  src : Bytes
  phase : Phase
  deriving DecidableEq, Repr

structure State where
  /-- The file at `spoolPath`. -/
  spool : Option Bytes
  calls : List Call
  deriving DecidableEq, Repr

/-- After `NewUpload`. -/
def new : State := ⟨none, []⟩

def State.content (s : State) : Bytes := s.spool.getD []

/-- The `Offset` of `GetInfo`. -/
def State.getInfo (s : State) : Nat :=
  match s.spool with
  | some file => file.length
  | none => 0

/-- `pwrite`: a gap is filled with zeros. -/
def writeAt (file : Bytes) (position : Nat) (data : Bytes) : Bytes :=
  file.take position ++ List.replicate (position - file.length) 0 ++ data ++
    file.drop (position + data.length)

inductive Action where
  | call (offset : Int) (src : Bytes)
  | openFile (i : Nat) (ok : Bool)
  | stat (i : Nat) (ok : Bool)
  | seek (i : Nat) (ok : Bool)
  /-- One write of the first `n` bytes left. -/
  | write (i n : Nat)
  /-- `io.Copy` ends with an error. -/
  | fail (i : Nat)
  /-- `io.Copy` is at the end of the body. -/
  | finish (i : Nat)
  deriving DecidableEq, Repr

def Call.to (call : Call) (phase : Phase) : Call := { call with phase := phase }

def Call.wrote (call : Call) (n position : Nat) : Call where
  chunk := { call.chunk with data := call.chunk.data ++ call.src.take n }
  src := call.src.drop n
  phase := .copying (position + n)

def State.setCall (s : State) (i : Nat) (call : Call) : State :=
  { s with calls := s.calls.set i call }

def step (s : State) : Action → Option State
  | .call offset src => some { s with calls := s.calls ++ [⟨⟨offset, []⟩, src, .called⟩] }
  | .openFile i ok =>
    s.calls[i]?.bind fun call =>
      if call.phase = .called then
        if ok then some { s.setCall i (call.to .opened) with spool := some s.content }
        else some (s.setCall i (call.to (.returned 0 (some .openFile))))
      else none
  | .stat i ok =>
    s.calls[i]?.bind fun call =>
      if call.phase = .opened then
        if ok then
          if (s.content.length : Int) ≠ call.chunk.offset then
            some (s.setCall i (call.to (.returned 0 (some .mismatchOffset))))
          else some (s.setCall i (call.to .matched))
        else some (s.setCall i (call.to (.returned 0 (some .stat))))
      else none
  | .seek i ok =>
    s.calls[i]?.bind fun call =>
      if call.phase = .matched then
        if ok then some (s.setCall i (call.to (.copying call.chunk.offset.toNat)))
        else some (s.setCall i (call.to (.returned 0 (some .seek))))
      else none
  | .write i n =>
    s.calls[i]?.bind fun call =>
      match call.phase with
      | .copying position =>
        if 0 < n ∧ n ≤ call.src.length then
          some { s.setCall i (call.wrote n position) with
            spool := some (writeAt s.content position (call.src.take n)) }
        else none
      | _ => none
  | .fail i =>
    s.calls[i]?.bind fun call =>
      match call.phase with
      | .copying _ => some (s.setCall i (call.to (.returned 0 (some .copy))))
      | _ => none
  | .finish i =>
    s.calls[i]?.bind fun call =>
      match call.phase with
      | .copying _ =>
        if call.src = [] then some (s.setCall i (call.to (.returned call.chunk.data.length none)))
        else none
      | _ => none

def chunks (calls : List Call) : List Chunk :=
  (calls.map Call.chunk).filter fun chunk => chunk.data ≠ []

/-- Every chunk starts at the length that the chunks before it give. -/
def InOrder : Nat → List Chunk → Prop
  | _, [] => True
  | size, chunk :: rest => chunk.offset = size ∧ InOrder (size + chunk.data.length) rest

def Call.reported (call : Call) : Nat :=
  match call.phase with
  | .returned n _ => n
  | _ => 0

def Call.succeeded (call : Call) : Bool :=
  match call.phase with
  | .returned _ none => true
  | _ => false

structure Spooled (s : State) : Prop where
  concatenation : ∃ order : List Chunk, order.Perm (chunks s.calls) ∧ InOrder 0 order ∧
    s.content = order.flatMap Chunk.data
  reported : (∀ call ∈ s.calls, call.chunk.data ≠ [] → call.succeeded = true) →
    (s.calls.map Call.reported).sum = s.getInfo

/-- A write goes to the end of the file. -/
def AtEnd (s : State) : Action → Prop
  | .write i _ => ∀ call position, s.calls[i]? = some call → call.phase = .copying position →
      position = s.content.length
  | _ => True

theorem getInfo_eq (s : State) : s.getInfo = s.content.length := by
  unfold State.getInfo State.content
  cases s.spool <;> rfl

theorem writeAt_end (file data : Bytes) : writeAt file file.length data = file ++ data := by
  simp [writeAt]

theorem writeAt_length {file data : Bytes} {position : Nat} (inside : position ≤ file.length) :
    (writeAt file position data).length = max file.length (position + data.length) := by
  unfold writeAt
  simp only [List.length_append, List.length_take, List.length_replicate, List.length_drop]
  omega

theorem inOrder_append {first second : List Chunk} {size : Nat} :
    InOrder size (first ++ second) ↔ InOrder size first ∧
      InOrder (size + (first.flatMap Chunk.data).length) second := by
  induction first generalizing size with
  | nil => simp [InOrder]
  | cons chunk rest ih =>
    simp only [List.cons_append, InOrder, ih, List.flatMap_cons, List.length_append, and_assoc,
      Nat.add_assoc]

/-- A chunk that ends where the file does is the last one. -/
theorem last_chunk {order : List Chunk} {chunk : Chunk} (inOrder : InOrder 0 order)
    (full : ∀ c ∈ order, c.data ≠ []) (mem : chunk ∈ order)
    (ends : chunk.offset + chunk.data.length = (order.flatMap Chunk.data).length) :
    ∃ before, order = before ++ [chunk] := by
  obtain ⟨before, after, rfl⟩ := List.append_of_mem mem
  have starts := (inOrder_append.mp inOrder).2.1
  cases after with
  | nil => exact ⟨before, rfl⟩
  | cons next rest =>
    have some : 0 < next.data.length := List.length_pos_iff.mpr (full next (by simp))
    simp only [List.flatMap_append, List.flatMap_cons, List.length_append] at ends
    omega

theorem chunks_append (first second : List Call) :
    chunks (first ++ second) = chunks first ++ chunks second := by
  simp [chunks]

theorem chunks_cons (call : Call) (rest : List Call) : chunks (call :: rest) =
    if call.chunk.data = [] then chunks rest else call.chunk :: chunks rest := by
  unfold chunks
  split <;> simp [*]

theorem chunks_cons_full {call : Call} {rest : List Call} (full : call.chunk.data ≠ []) :
    chunks (call :: rest) = call.chunk :: chunks rest := by
  rw [chunks_cons, if_neg full]

theorem chunks_full {calls : List Call} {chunk : Chunk} (mem : chunk ∈ chunks calls) :
    chunk.data ≠ [] := by
  simpa using (List.mem_filter.mp mem).2

theorem chunks_to {calls : List Call} {call : Call} {i : Nat} (found : calls[i]? = some call)
    (phase : Phase) : chunks (calls.set i (call.to phase)) = chunks calls := by
  have unchanged : (calls.set i (call.to phase)).map Call.chunk = calls.map Call.chunk := by
    ext1 j
    by_cases here : j = i
    · subst here
      obtain ⟨inside, rfl⟩ := List.getElem?_eq_some_iff.mp found
      simp [inside, Call.to]
    · simp [Ne.symm here]
  rw [chunks, unchanged, chunks]

theorem sum_chunks (calls : List Call) :
    ((chunks calls).map fun chunk => chunk.data.length).sum =
      (calls.map fun call => call.chunk.data.length).sum := by
  induction calls with
  | nil => rfl
  | cons call rest ih =>
    rw [chunks_cons, List.map_cons, List.sum_cons, ← ih]
    split
    · next empty => simp [empty]
    · simp

/-- What its phase says of a call, for a file of this size. -/
def Call.Sound (size : Nat) (call : Call) : Prop :=
  match call.phase with
  | .called => call.chunk.data = []
  | .opened => call.chunk.data = []
  | .matched => call.chunk.data = [] ∧ 0 ≤ call.chunk.offset ∧ call.chunk.offset ≤ size
  | .copying position => call.chunk.offset + call.chunk.data.length = position ∧ position ≤ size
  | .returned n none => n = call.chunk.data.length
  | .returned n (some _) => n = 0

theorem Call.Sound.grow {size size' : Nat} {call : Call} (h : call.Sound size)
    (le : size ≤ size') : call.Sound size' := by
  unfold Call.Sound at *
  split <;> simp_all <;> omega

/-- A call that wrote nothing reports nothing, and one that succeeded what it wrote. -/
theorem Call.Sound.reported {size : Nat} {call : Call} (h : call.Sound size)
    (succeeded : call.chunk.data ≠ [] → call.succeeded = true) :
    call.reported = call.chunk.data.length := by
  by_cases empty : call.chunk.data = []
  · unfold Call.Sound at h
    unfold Call.reported
    split at h <;> simp_all
  · have returned := succeeded empty
    unfold Call.succeeded at returned
    split at returned
    · next n phase => simpa [Call.Sound, Call.reported, phase] using h
    · cases returned

theorem write_cases {s s' : State} {i n : Nat} (taken : step s (.write i n) = some s') :
    ∃ (call : Call) (position : Nat), s.calls[i]? = some call ∧ call.phase = .copying position ∧
      0 < n ∧ n ≤ call.src.length ∧ s'.calls = s.calls.set i (call.wrote n position) ∧
      s'.content = writeAt s.content position (call.src.take n) := by
  obtain ⟨call, found, taken⟩ := Option.bind_eq_some_iff.mp taken
  split at taken
  · next position phase =>
    split at taken
    · next fits =>
      cases taken
      exact ⟨call, position, found, phase, fits.1, fits.2, rfl, rfl⟩
    · cases taken
  · cases taken

/-- A new call, a step of a call that leaves the file, or a write. -/
theorem step_cases {s s' : State} {a : Action} (taken : step s a = some s') :
    (∃ offset src, s'.calls = s.calls ++ [⟨⟨offset, []⟩, src, .called⟩] ∧ s'.content = s.content) ∨
    (∃ (i : Nat) (call : Call) (phase : Phase), s.calls[i]? = some call ∧
      (call.Sound s.content.length → (call.to phase).Sound s.content.length) ∧
      s'.calls = s.calls.set i (call.to phase) ∧ s'.content = s.content) ∨
    ∃ i n, a = .write i n := by
  cases a with
  | call offset src =>
    cases taken
    exact .inl ⟨offset, src, rfl, rfl⟩
  | openFile i ok =>
    obtain ⟨call, found, taken⟩ := Option.bind_eq_some_iff.mp taken
    split at taken
    · next phase =>
      split at taken
      all_goals
        cases taken
        exact .inr (.inl ⟨i, call, _, found, by simp [Call.Sound, Call.to, phase], rfl, rfl⟩)
    · cases taken
  | stat i ok =>
    obtain ⟨call, found, taken⟩ := Option.bind_eq_some_iff.mp taken
    split at taken
    · next phase =>
      split at taken
      · split at taken
        · cases taken
          exact .inr (.inl ⟨i, call, _, found, by simp [Call.Sound, Call.to], rfl, rfl⟩)
        · next same =>
          cases taken
          refine .inr (.inl ⟨i, call, _, found, fun sound => ?_, rfl, rfl⟩)
          simp only [Call.Sound, phase] at sound
          simp only [Call.Sound, Call.to]
          exact ⟨sound, by omega, by omega⟩
      · cases taken
        exact .inr (.inl ⟨i, call, _, found, by simp [Call.Sound, Call.to], rfl, rfl⟩)
    · cases taken
  | seek i ok =>
    obtain ⟨call, found, taken⟩ := Option.bind_eq_some_iff.mp taken
    split at taken
    · next phase =>
      split at taken
      · cases taken
        refine .inr (.inl ⟨i, call, _, found, fun sound => ?_, rfl, rfl⟩)
        simp only [Call.Sound, phase] at sound
        simp only [Call.Sound, Call.to, sound.1, List.length_nil]
        omega
      · cases taken
        exact .inr (.inl ⟨i, call, _, found, by simp [Call.Sound, Call.to], rfl, rfl⟩)
    · cases taken
  | write i n => exact .inr (.inr ⟨i, n, rfl⟩)
  | fail i =>
    obtain ⟨call, found, taken⟩ := Option.bind_eq_some_iff.mp taken
    split at taken
    · cases taken
      exact .inr (.inl ⟨i, call, _, found, by simp [Call.Sound, Call.to], rfl, rfl⟩)
    · cases taken
  | finish i =>
    obtain ⟨call, found, taken⟩ := Option.bind_eq_some_iff.mp taken
    split at taken
    · split at taken
      · cases taken
        exact .inr (.inl ⟨i, call, _, found, by simp [Call.Sound, Call.to], rfl, rfl⟩)
      · cases taken
    · cases taken

structure Tracked (s : State) : Prop where
  concatenation : ∃ order : List Chunk, order.Perm (chunks s.calls) ∧ InOrder 0 order ∧
    s.content = order.flatMap Chunk.data
  sound : ∀ call ∈ s.calls, call.Sound s.content.length

theorem tracked_new : Tracked new :=
  ⟨⟨[], List.Perm.nil, trivial, rfl⟩, by simp [new]⟩

/-- The written lengths sum up to the size of the file. -/
theorem written_sum {s : State} {order : List Chunk} (perm : order.Perm (chunks s.calls))
    (content : s.content = order.flatMap Chunk.data) :
    (s.calls.map fun call => call.chunk.data.length).sum = s.content.length := by
  rw [← sum_chunks, content, List.length_flatMap]
  exact (perm.map _).sum_nat.symm

theorem Tracked.spooled {s : State} (h : Tracked s) : Spooled s := by
  refine ⟨h.concatenation, fun succeeded => ?_⟩
  obtain ⟨order, perm, _, content⟩ := h.concatenation
  rw [getInfo_eq, ← written_sum perm content]
  have reported : ∀ call ∈ s.calls, call.reported = call.chunk.data.length :=
    fun call mem => (h.sound call mem).reported (succeeded call mem)
  rw [List.map_congr_left reported]

/-- The chunks before those of a call whose position is at the end. -/
theorem chunks_before {first second : List Call} {call : Call} {content : Bytes}
    {order : List Chunk} (perm : order.Perm (chunks (first ++ call :: second)))
    (inOrder : InOrder 0 order) (same : content = order.flatMap Chunk.data)
    (ends : call.chunk.offset + call.chunk.data.length = content.length) :
    ∃ before : List Chunk, before.Perm (chunks (first ++ second)) ∧ InOrder 0 before ∧
      content = before.flatMap Chunk.data ++ call.chunk.data ∧
      call.chunk.offset = (before.flatMap Chunk.data).length := by
  rw [chunks_append, chunks_cons] at perm
  by_cases empty : call.chunk.data = []
  · rw [if_pos empty, ← chunks_append] at perm
    rw [empty, List.length_nil] at ends
    exact ⟨order, perm, inOrder, by rw [empty, List.append_nil, same], by rw [← same]; omega⟩
  · rw [if_neg empty] at perm
    have member : call.chunk ∈ order := perm.mem_iff.mpr (by simp)
    have full : ∀ chunk ∈ order, chunk.data ≠ [] := by
      intro chunk mem
      have listed := perm.mem_iff.mp mem
      rw [← chunks_cons_full empty, ← chunks_append] at listed
      exact chunks_full listed
    obtain ⟨before, rfl⟩ := last_chunk inOrder full member (same ▸ ends)
    refine ⟨before, ?_, (inOrder_append.mp inOrder).1, by simp [same], ?_⟩
    · have moved := (List.perm_append_singleton _ _).symm.trans (perm.trans List.perm_middle)
      exact chunks_append first second ▸ moved.cons_inv
    · simpa [InOrder] using (inOrder_append.mp inOrder).2.1

theorem Tracked.step {s s' : State} {a : Action} (h : Tracked s) (atEnd : AtEnd s a)
    (taken : step s a = some s') : Tracked s' ∧ s.content <+: s'.content := by
  obtain ⟨order, perm, inOrder, content⟩ := h.concatenation
  obtain ⟨offset, src, calls, same⟩ | ⟨i, call, phase, found, sound, calls, same⟩ |
    ⟨i, n, rfl⟩ := step_cases taken
  · refine ⟨⟨⟨order, ?_, inOrder, same.trans content⟩, ?_⟩, same ▸ List.prefix_rfl⟩
    · rw [calls, chunks_append]
      simpa [chunks] using perm
    · rw [calls, same]
      simpa [or_imp, forall_and, Call.Sound] using h.sound
  · refine ⟨⟨⟨order, ?_, inOrder, same.trans content⟩, ?_⟩, same ▸ List.prefix_rfl⟩
    · rw [calls, chunks_to found]
      exact perm
    · rw [calls, same]
      intro c mem
      obtain old | rfl := List.mem_or_eq_of_mem_set mem
      · exact h.sound c old
      · exact sound (h.sound call (List.mem_of_getElem? found))
  · obtain ⟨call, position, found, phase, pos, fits, calls, same⟩ := write_cases taken
    obtain ⟨inside, rfl⟩ := List.getElem?_eq_some_iff.mp found
    obtain rfl := atEnd _ position found phase
    rw [writeAt_end] at same
    have written := h.sound _ (List.getElem_mem inside)
    simp only [Call.Sound, phase] at written
    obtain ⟨first, second, split, _, replaced⟩ :=
      @List.exists_of_set _ i (s.calls[i].wrote n s.content.length) _ inside
    rw [split] at perm
    obtain ⟨before, rest, sorted, cut, starts⟩ := chunks_before perm inOrder content written.1
    refine ⟨⟨⟨before ++ [(s.calls[i].wrote n s.content.length).chunk], ?_, ?_, ?_⟩, ?_⟩, ?_⟩
    · have full : (s.calls[i].wrote n s.content.length).chunk.data ≠ [] := by
        apply List.ne_nil_of_length_pos
        simp only [Call.wrote, List.length_append, List.length_take]
        omega
      rw [calls, replaced, chunks_append, chunks_cons_full full]
      have moved := List.perm_append_singleton (s.calls[i].wrote n s.content.length).chunk before
      exact moved.trans (((chunks_append first second ▸ rest).cons _).trans List.perm_middle.symm)
    · exact inOrder_append.mpr ⟨sorted, by simpa [Call.wrote] using starts, trivial⟩
    · rw [same, cut]
      simp [Call.wrote]
    · rw [calls, same]
      intro c mem
      obtain old | rfl := List.mem_or_eq_of_mem_set mem
      · exact (h.sound c old).grow (by simp)
      · simp only [Call.Sound, Call.wrote, List.length_append, List.length_take]
        omega
    · exact same ▸ List.prefix_append _ _

/-- A write elsewhere makes the file shorter than what was written. -/
theorem Tracked.misplaced {s s' : State} {a : Action} (h : Tracked s) (elsewhere : ¬AtEnd s a)
    (taken : WriteChunk.step s a = some s') : ¬Spooled s' := by
  intro spooled
  obtain ⟨order, perm, _, content⟩ := h.concatenation
  obtain ⟨order', perm', _, content'⟩ := spooled.concatenation
  cases a with
  | write i n =>
    obtain ⟨call, position, found, phase, pos, fits, calls, same⟩ := write_cases taken
    have moved : position ≠ s.content.length := by
      rintro rfl
      refine elsewhere fun call' position' found' phase' => ?_
      cases found.symm.trans found'
      cases phase.symm.trans phase'
      rfl
    obtain ⟨inside, rfl⟩ := List.getElem?_eq_some_iff.mp found
    have sound := h.sound _ (List.getElem_mem inside)
    simp only [Call.Sound, phase] at sound
    have size := written_sum perm content
    have size' := written_sum perm' content'
    obtain ⟨first, second, split, _, replaced⟩ :=
      @List.exists_of_set _ i (s.calls[i].wrote n position) _ inside
    have longer : (s.calls[i].wrote n position).chunk.data.length =
        s.calls[i].chunk.data.length + n := by
      simp [Call.wrote, fits]
    rw [same, writeAt_length sound.2, List.length_take, calls, replaced, List.map_append,
      List.map_cons, longer, List.sum_append, List.sum_cons] at size'
    rw [split, List.map_append, List.map_cons, List.sum_append, List.sum_cons] at size
    omega
  | _ => exact elsewhere trivial

theorem tracked_run {s : State} {trace : List Action} (h : Run step AtEnd new trace s) :
    Tracked s :=
  h.invariant Tracked tracked_new fun _ _ _ tracked atEnd taken => (tracked.step atEnd taken).1

theorem content_grows {s s' : State} {trace : List Action} (tracked : Tracked s)
    (h : Run step AtEnd s trace s') : s.content <+: s'.content := by
  have both : Tracked s' ∧ s.content <+: s'.content := by
    refine h.invariant (fun t => Tracked t ∧ s.content <+: t.content)
      ⟨tracked, List.prefix_rfl⟩ ?_
    intro t a t' before atEnd taken
    obtain ⟨kept, longer⟩ := before.1.step atEnd taken
    exact ⟨kept, before.2.trans longer⟩
  exact both.2

/-- If the chunks are in order at every moment, no write went elsewhere. -/
theorem atEnd_of_spooled {s : State} {trace : List Action} (h : Run step Always new trace s)
    (spooled : ∀ early late moment, trace = early ++ late → Run step Always new early moment →
      Spooled moment) : Run step AtEnd new trace s := by
  induction h with
  | start => exact .start
  | @next trace m s a before _ taken ih =>
    have run : Run step AtEnd new trace m := by
      refine ih fun early late moment same begun => ?_
      exact spooled early (late ++ [a]) moment (by rw [same, List.append_assoc]) begun
    refine .next run ?_ taken
    by_contra elsewhere
    refine (tracked_run run).misplaced elsewhere taken ?_
    exact spooled _ [] _ (List.append_nil _).symm (.next before trivial taken)

/-- At every moment of a run the file is the chunks in order, and nothing is overwritten later,
exactly when every write goes to the end of the file. -/
theorem spooled_iff {s : State} {trace : List Action} (h : Run step Always new trace s) :
    (∀ early late moment, trace = early ++ late → Run step Always new early moment →
      Spooled moment ∧ moment.content <+: s.content) ↔ Run step AtEnd new trace s := by
  constructor
  · intro spooled
    exact atEnd_of_spooled h fun early late moment same begun =>
      (spooled early late moment same begun).1
  · intro run early late moment same begun
    subst same
    obtain ⟨m, first, second⟩ := run.split
    obtain rfl := first.unique begun
    exact ⟨(tracked_run first).spooled, content_grows (tracked_run first) second⟩

/-- Two requests, the second of them after the first. -/
def oneAfterTheOther : List Action :=
  [.call 0 [97, 98], .openFile 0 true, .stat 0 true, .seek 0 true, .write 0 2, .finish 0,
    .call 2 [99], .openFile 1 true, .stat 1 true, .seek 1 true, .write 1 1, .finish 1]

theorem spooled_iff_sequential : ∃ s, Run step Always new oneAfterTheOther s ∧
    s.content = [97, 98, 99] ∧
    ((∀ early late moment, oneAfterTheOther = early ++ late →
      Run step Always new early moment → Spooled moment ∧ moment.content <+: s.content) ↔
        Run step AtEnd new oneAfterTheOther s) := by
  have run : Run step Always new oneAfterTheOther ⟨some [97, 98, 99],
      [⟨⟨0, [97, 98]⟩, [], .returned 2 none⟩, ⟨⟨2, [99]⟩, [], .returned 1 none⟩]⟩ :=
    always_of_exec (by decide)
  exact ⟨_, run, rfl, spooled_iff run⟩

/-- A request is sent again while the first one hangs before its write. -/
def sentAgain : List Action :=
  [.call 0 [97, 98], .openFile 0 true, .stat 0 true, .seek 0 true,
    .call 0 [99, 100], .openFile 1 true, .stat 1 true, .seek 1 true, .write 1 2, .finish 1,
    .write 0 2, .finish 0]

theorem sentAgain_overwrites : ∃ s, Run step Always new sentAgain s ∧
    (∀ call ∈ s.calls, call.succeeded = true) ∧ (s.calls.map Call.reported).sum = 4 ∧
    s.getInfo = 2 ∧ ¬Spooled s := by
  have run : Run step Always new sentAgain ⟨some [97, 98],
      [⟨⟨0, [97, 98]⟩, [], .returned 2 none⟩, ⟨⟨0, [99, 100]⟩, [], .returned 2 none⟩]⟩ :=
    always_of_exec (by decide)
  refine ⟨_, run, by decide, by decide, by decide, fun spooled => ?_⟩
  exact absurd (spooled.reported (by decide)) (by decide)

end Vidsilo.Upload.WriteChunk
