import Mathlib.Data.List.Infix
import Vidsilo.Library.ReadSeeker

/-!
# The reader over ranged requests

Source: internal/store/s3.go:70-178. `Answer` is what the server and the HTTP client decide about
one body read; a response delivers at least one byte and ends with `io.EOF`, which may come with
data. The requests themselves do not fail and the object is not replaced.
-/
namespace Vidsilo.Storage.RangedReader
open Library.ReadSeeker

abbrev Bytes := List UInt8

/-- `served` counts the bytes of a new response, `n` and `eof` describe the body read. -/
structure Answer where
  served : Nat
  n : Nat
  eof : Bool
  deriving DecidableEq, Repr

/-- `s3Reader`; `body` is what the open response still delivers. -/
structure Reader where
  size : Nat
  pos : Nat
  body : Option Bytes
  closed : Bool
  emptyReads : Nat
  deriving DecidableEq, Repr

/-- `Open`. -/
def openReader (content : Bytes) : Reader := ⟨content.length, 0, none, false, 0⟩

/-- The body of a response to `Range: bytes=start-(start+length-1)`. -/
def openRange (content : Bytes) (start length served : Nat) : Option Bytes :=
  let range := (content.drop start).take length
  if 0 < served ∧ served ≤ range.length then some (range.take served) else none

/-- The open response, or a new one. -/
def Reader.fetch (content : Bytes) (r : Reader) (served : Nat) : Option Bytes :=
  match r.body with
  | some body => some body
  | none => openRange content r.pos (r.size - r.pos) served

/-- `body.Read`, with what it delivers and what is left. -/
def bodyRead (body : Bytes) (len : Nat) (a : Answer) : Option (Bytes × Bytes) :=
  if a.n ≤ len ∧ a.n ≤ body.length ∧ (a.eof = true → a.n = body.length) then
    some (body.take a.n, body.drop a.n)
  else none

def shrank : ReadError := .failed "store: object shrank below expected size"

/-- `none` when the server cannot answer so. -/
def Reader.read (content : Bytes) (r : Reader) (len : Nat) (a : Answer) :
    Option (Reader × Reply UInt8) :=
  if r.closed then some (r, .read [] (some .closed))
  else if r.size ≤ r.pos then some (r, .read [] (some .eof))
  else do
    let body ← r.fetch content a.served
    let (data, rest) ← bodyRead body len a
    let r := { r with pos := r.pos + a.n, body := some rest }
    if a.eof then
      let r := { r with body := none }
      if r.size ≤ r.pos then some (r, .read data (some .eof))
      else
        let r := { r with emptyReads := r.emptyReads + 1 }
        if 3 < r.emptyReads then some (r, .read [] (some shrank)) else some (r, .read data none)
    else some ({ r with emptyReads := 0 }, .read data none)

/-- The `switch` in `Seek`. -/
def Reader.next (r : Reader) (offset whence : Int) : Option Int :=
  if whence = 0 then some offset
  else if whence = 1 then some (wrap (r.pos + offset))
  else if whence = 2 then some (wrap (r.size + offset))
  else none

def Reader.seek (r : Reader) (offset whence : Int) : Reader × Reply UInt8 :=
  if r.closed then (r, .seek 0 (some .closed))
  else
    match r.next offset whence with
    | none => (r, .seek 0 (some (.whence whence)))
    | some next =>
      if next < 0 then (r, .seek 0 (some (.negative next)))
      else ({ r with pos := next.toNat, body := none }, .seek next none)

def Reader.close (r : Reader) : Reader := { r with closed := true, body := none }

/-- A call, with the server's answer to a read. -/
inductive Step where
  | read (len : Nat) (a : Answer)
  | seek (offset whence : Int)
  | close
  deriving DecidableEq

def Step.call : Step → Call
  | .read len _ => .read len
  | .seek offset whence => .seek offset whence
  | .close => .close

def Reader.perform (content : Bytes) (r : Reader) : Step → Option (Reader × Reply UInt8)
  | .read len a => r.read content len a
  | .seek offset whence => some (r.seek offset whence)
  | .close => some (r.close, .close)

/-- The replies to a sequence of calls. -/
def Reader.run (content : Bytes) (r : Reader) : List Step → Option (List (Reply UInt8))
  | [] => some []
  | s :: rest => do
    let (r', reply) ← r.perform content s
    let replies ← r'.run content rest
    some (reply :: replies)

def exchanges (steps : List Step) (replies : List (Reply UInt8)) : List (Call × Reply UInt8) :=
  (steps.map Step.call).zip replies

/-- Whether a body read ends its response short of the end of the object; nothing for other calls
and for the read that reaches the end. -/
def endsShort (size : Nat) (c : Cursor) : Step → Option Bool
  | .read _ a =>
    if c.closed ∨ size ≤ c.pos then none
    else if a.eof then if size ≤ c.pos + a.n then none else some true
    else some false
  | _ => none

/-- The position after the call. -/
def moved (size : Nat) (c : Cursor) : Step → Cursor
  | .read _ a => if c.closed ∨ size ≤ c.pos then c else { c with pos := c.pos + a.n }
  | .seek offset whence => (c.seek (α := UInt8) size offset whence).1
  | .close => { c with closed := true }

def shortEnds (size : Nat) (c : Cursor) : List Step → List Bool
  | [] => []
  | s :: rest => (endsShort size c s).toList ++ shortEnds size (moved size c s) rest

section Calls
variable {content : Bytes} {r r' : Reader} {len served : Nat} {a : Answer} {reply : Reply UInt8}
  {body data rest : Bytes}

/-- The open response goes on where the reader stands. -/
structure Tracks (content : Bytes) (r : Reader) : Prop where
  size : r.size = content.length
  body : ∀ body, r.body = some body → body <+: content.drop r.pos

theorem tracks_open (content : Bytes) : Tracks content (openReader content) := ⟨rfl, nofun⟩

theorem fetch_isPrefix (t : Tracks content r) (h : r.fetch content served = some body) :
    body <+: content.drop r.pos := by
  rw [Reader.fetch] at h
  split at h
  · next isBody =>
    cases h
    exact t.body _ isBody
  · rw [openRange] at h
    split at h
    · cases h
      exact (List.take_prefix _ _).trans (List.take_prefix _ _)
    · cases h

theorem bodyRead_some (h : bodyRead body len a = some (data, rest)) :
    a.n ≤ len ∧ a.n ≤ body.length ∧ (a.eof = true → a.n = body.length) ∧
      data = body.take a.n ∧ rest = body.drop a.n := by
  rw [bodyRead] at h
  split at h
  · next legal =>
    cases h
    exact ⟨legal.1, legal.2.1, legal.2.2, rfl, rfl⟩
  · cases h

/-- What a body read leads to. -/
inductive Reads (content : Bytes) (r : Reader) (a : Answer) (rest : Bytes) :
    Reader → Reply UInt8 → Prop where
  | more (eof : a.eof = false) : Reads content r a rest
      { r with pos := r.pos + a.n, body := some rest, emptyReads := 0 }
      (.read ((content.drop r.pos).take a.n) none)
  | last (eof : a.eof = true) (all : content.length ≤ r.pos + a.n) : Reads content r a rest
      { r with pos := r.pos + a.n, body := none }
      (.read ((content.drop r.pos).take a.n) (some .eof))
  | short (eof : a.eof = true) (early : r.pos + a.n < content.length) (few : r.emptyReads < 3) :
      Reads content r a rest
        { r with pos := r.pos + a.n, body := none, emptyReads := r.emptyReads + 1 }
        (.read ((content.drop r.pos).take a.n) none)
  | shrank (eof : a.eof = true) (early : r.pos + a.n < content.length) (many : 3 ≤ r.emptyReads) :
      Reads content r a rest
        { r with pos := r.pos + a.n, body := none, emptyReads := r.emptyReads + 1 }
        (.read [] (some shrank))

theorem read_closed (h : r.closed = true) :
    r.read content len a = some (r, .read [] (some .closed)) := by
  rw [Reader.read, if_pos h]

theorem read_past (h : r.closed = false) (beyond : r.size ≤ r.pos) :
    r.read content len a = some (r, .read [] (some .eof)) := by
  rw [Reader.read, h, if_neg (by decide), if_pos beyond]

theorem read_inside (t : Tracks content r) (isOpen : r.closed = false)
    (before : r.pos < content.length) (h : r.read content len a = some (r', reply)) :
    ∃ body, r.fetch content a.served = some body ∧ a.n ≤ len ∧ a.n ≤ body.length ∧
      (a.eof = true → a.n = body.length) ∧ r.pos + a.n ≤ content.length ∧
      Reads content r a (body.drop a.n) r' reply := by
  have inside : ¬ r.size ≤ r.pos := by
    rw [t.size]
    omega
  have notClosed : ¬ r.closed = true := by
    rw [isOpen]
    decide
  rw [Reader.read, if_neg notClosed, if_neg inside] at h
  obtain ⟨body, fetched, h⟩ := Option.bind_eq_some_iff.mp h
  obtain ⟨⟨data, rest⟩, isRead, h⟩ := Option.bind_eq_some_iff.mp h
  obtain ⟨fits, within, whole, rfl, rfl⟩ := bodyRead_some isRead
  have isPrefix := fetch_isPrefix t fetched
  have bound : body.length ≤ content.length - r.pos := by
    rw [← List.length_drop]
    exact isPrefix.length_le
  have isData : body.take a.n = (content.drop r.pos).take a.n := by
    obtain ⟨tail, isTail⟩ := isPrefix
    rw [← isTail, List.take_append_of_le_length within]
  refine ⟨body, fetched, fits, within, whole, by omega, ?_⟩
  simp only [isData] at h
  split at h
  · next eof =>
    split at h
    · next all =>
      cases h
      exact .last eof (t.size ▸ all)
    · next early =>
      rw [t.size, Nat.not_le] at early
      split at h
      · next many =>
        cases h
        exact .shrank eof early (by omega)
      · next few =>
        cases h
        exact .short eof early (by omega)
  · next more =>
    cases h
    exact .more (Bool.eq_false_iff.mpr more)

/-- Where the reader stands. -/
def Reader.cursor (r : Reader) : Cursor := ⟨r.pos, r.closed⟩

/-- The counter after a call. -/
def counted (emptyReads : Nat) : Option Bool → Nat
  | none => emptyReads
  | some false => 0
  | some true => emptyReads + 1

/-- A call is answered as by an in-memory reader unless it is the fourth to end short. -/
structure Performs (content : Bytes) (r r' : Reader) (s : Step) (reply : Reply UInt8) : Prop where
  tracks : Tracks content r'
  cursor : r'.cursor = moved content.length r.cursor s
  counter : r'.emptyReads = counted r.emptyReads (endsShort content.length r.cursor s)
  allows : endsShort content.length r.cursor s ≠ some true ∨ r.emptyReads < 3 →
    Allows content r.cursor s.call reply r'.cursor
  refuses : endsShort content.length r.cursor s = some true → 3 ≤ r.emptyReads →
    reply = .read [] (some shrank)

theorem tracks_read {n : Nat} (isPrefix : body <+: content.drop r.pos) :
    body.drop n <+: content.drop (r.pos + n) := by
  rw [← List.drop_drop]
  exact List.IsPrefix.drop isPrefix n

theorem performs_inside (t : Tracks content r) (isOpen : r.closed = false)
    (before : r.pos < content.length) (h : r.read content len a = some (r', reply)) :
    Performs content r r' (.read len a) reply := by
  obtain ⟨body, fetched, fits, _, _, inside, reads⟩ := read_inside t isOpen before h
  have isPrefix := tracks_read (n := a.n) (fetch_isPrefix t fetched)
  have here : ¬ (r.closed = true ∨ content.length ≤ r.pos) := by
    simp [isOpen, before]
  have isMove : moved content.length r.cursor (.read len a) = ⟨r.pos + a.n, r.closed⟩ := by
    rw [moved, Reader.cursor, if_neg here]
  cases reads with
  | more eof =>
    have isEnd : endsShort content.length r.cursor (.read len a) = some false := by
      rw [endsShort, Reader.cursor, if_neg here, eof, if_neg (by decide)]
    refine ⟨⟨t.size, ?_⟩, isMove.symm, ?_, fun _ => .data isOpen before fits inside, ?_⟩
    · rintro _ ⟨⟩
      exact isPrefix
    · rw [isEnd, counted]
    · rw [isEnd]
      nofun
  | last eof all =>
    have isEnd : endsShort content.length r.cursor (.read len a) = none := by
      rw [endsShort, Reader.cursor, if_neg here, eof, if_pos rfl, if_pos all]
    refine ⟨⟨t.size, nofun⟩, isMove.symm, ?_, fun _ => ?_, ?_⟩
    · rw [isEnd, counted]
    · have whole : (content.drop r.pos).take a.n = content.drop r.pos := by
        apply List.take_of_length_le
        rw [List.length_drop]
        omega
      have atEnd : r.pos + a.n = content.length := by omega
      rw [whole]
      change Allows content r.cursor _ _ ⟨r.pos + a.n, r.closed⟩
      rw [atEnd]
      exact .last isOpen before (show content.length - r.pos ≤ len by omega)
    · rw [isEnd]
      nofun
  | short eof early few =>
    have isEnd : endsShort content.length r.cursor (.read len a) = some true := by
      rw [endsShort, Reader.cursor, if_neg here, eof, if_pos rfl, if_neg (Nat.not_le.mpr early)]
    refine ⟨⟨t.size, nofun⟩, isMove.symm, ?_, fun _ => .data isOpen before fits inside, ?_⟩
    · rw [isEnd, counted]
    · intro _ many
      omega
  | shrank eof early many =>
    have isEnd : endsShort content.length r.cursor (.read len a) = some true := by
      rw [endsShort, Reader.cursor, if_neg here, eof, if_pos rfl, if_neg (Nat.not_le.mpr early)]
    refine ⟨⟨t.size, nofun⟩, isMove.symm, ?_, ?_, fun _ _ => rfl⟩
    · rw [isEnd, counted]
    · rintro (other | few)
      · exact absurd isEnd other
      · omega

theorem performs_read (t : Tracks content r) (h : r.read content len a = some (r', reply)) :
    Performs content r r' (.read len a) reply := by
  by_cases isClosed : r.closed = true
  · rw [read_closed isClosed] at h
    cases h
    have isEnd : endsShort content.length r.cursor (.read len a) = none := by
      rw [endsShort, Reader.cursor, if_pos (.inl isClosed)]
    refine ⟨t, ?_, ?_, fun _ => .closed isClosed, ?_⟩
    · rw [moved, Reader.cursor, if_pos (.inl isClosed)]
    · rw [isEnd, counted]
    · rw [isEnd]
      nofun
  · have isOpen := Bool.eq_false_iff.mpr isClosed
    by_cases beyond : content.length ≤ r.pos
    · rw [read_past isOpen (t.size ▸ beyond)] at h
      cases h
      have isEnd : endsShort content.length r.cursor (.read len a) = none := by
        rw [endsShort, Reader.cursor, if_pos (.inr beyond)]
      refine ⟨t, ?_, ?_, fun _ => .past isOpen beyond, ?_⟩
      · rw [moved, Reader.cursor, if_pos (.inr beyond)]
      · rw [isEnd, counted]
      · rw [isEnd]
        nofun
    · exact performs_inside t isOpen (by omega) h

theorem next_eq (t : Tracks content r) (offset whence : Int) :
    r.next offset whence = target content.length r.pos offset whence := by
  rw [Reader.next, target, t.size]

theorem seek_eq (t : Tracks content r) (offset whence : Int) :
    (r.seek offset whence).2 = (r.cursor.seek content.length offset whence).2 ∧
      (r.seek offset whence).1.cursor =
        (r.cursor.seek (α := UInt8) content.length offset whence).1 ∧
      Tracks content (r.seek offset whence).1 ∧
      (r.seek offset whence).1.emptyReads = r.emptyReads := by
  by_cases isClosed : r.closed = true
  · simp [Reader.seek, Cursor.seek, Reader.cursor, isClosed, t]
  · cases isTarget : target content.length r.pos offset whence with
    | none => simp [Reader.seek, Cursor.seek, Reader.cursor, isClosed, next_eq t, isTarget, t]
    | some next =>
      by_cases negative : next < 0
      · simp [Reader.seek, Cursor.seek, Reader.cursor, isClosed, next_eq t, isTarget, negative, t]
      · simp only [Reader.seek, Cursor.seek, Reader.cursor, isClosed, next_eq t, isTarget, negative]
        exact ⟨rfl, rfl, ⟨t.size, nofun⟩, rfl⟩

theorem performs (t : Tracks content r) {s : Step}
    (h : r.perform content s = some (r', reply)) : Performs content r r' s reply := by
  cases s with
  | read len a => exact performs_read t h
  | seek offset whence =>
    have same : r.seek offset whence = (r', reply) := Option.some.inj h
    obtain ⟨isReply, isCursor, tracks, counter⟩ := seek_eq t offset whence
    rw [same] at isReply isCursor tracks counter
    change reply = _ at isReply
    change r'.cursor = _ at isCursor
    refine ⟨tracks, isCursor, counter, fun _ => ?_, nofun⟩
    rw [isReply, isCursor]
    exact .seek
  | close =>
    cases h
    exact ⟨⟨t.size, nofun⟩, rfl, rfl, fun _ => .close, nofun⟩

end Calls

section Runs
variable {content : Bytes} {r : Reader} {steps : List Step} {replies : List (Reply UInt8)}

/-- Four responses in a row that end short. -/
def fourShort : List Bool := [true, true, true, true]

theorem infix_false {k : Nat} (few : k ≤ 3) (l : List Bool) :
    fourShort <:+: List.replicate k true ++ false :: l ↔ fourShort <:+: l := by
  obtain rfl | rfl | rfl | rfl : k = 0 ∨ k = 1 ∨ k = 2 ∨ k = 3 := by omega
  all_goals simp [fourShort, List.replicate, List.infix_cons_iff, List.cons_prefix_cons]

theorem infix_four (l : List Bool) : fourShort <:+: List.replicate 3 true ++ true :: l :=
  ⟨[], l, rfl⟩

theorem run_cons {s : Step} (h : r.run content (s :: steps) = some replies) :
    ∃ r' reply later, r.perform content s = some (r', reply) ∧
      r'.run content steps = some later ∧ replies = reply :: later := by
  obtain ⟨⟨r', reply⟩, isStep, h⟩ := Option.bind_eq_some_iff.mp h
  obtain ⟨later, isRun, h⟩ := Option.bind_eq_some_iff.mp h
  cases h
  exact ⟨r', reply, later, isStep, isRun, rfl⟩

theorem follows_cons {s : Step} {later : List (Reply UInt8)} {c c' : Cursor} {reply : Reply UInt8}
    (allowed : Allows content c s.call reply c') :
    (∃ c'', Follows content c (exchanges (s :: steps) (reply :: later)) c'') ↔
      ∃ c'', Follows content c' (exchanges steps later) c'' := by
  constructor
  · rintro ⟨c'', follows⟩
    cases follows with
    | next allowed' rest =>
      rw [allowed'.unique allowed] at rest
      exact ⟨c'', rest⟩
  · rintro ⟨c'', rest⟩
    exact ⟨c'', .next allowed rest⟩

/-- The reply to the fourth response in a row that ends short is not that of an in-memory
reader. -/
theorem Performs.not_follows {s : Step} {reply : Reply UInt8} {later : List (Reply UInt8)}
    (p : Performs content r r' s reply)
    (isEnd : endsShort content.length r.cursor s = some true) (many : 3 ≤ r.emptyReads) :
    ¬ ∃ c, Follows content r.cursor (exchanges (s :: steps) (reply :: later)) c := by
  rintro ⟨c, follows⟩
  cases s with
  | read len a =>
    cases follows with
    | next allowed _ =>
      rw [p.refuses isEnd many] at allowed
      exact Allows.not_failed allowed
  | seek => cases isEnd
  | close => cases isEnd

/-- The replies are those of an in-memory reader as long as no four responses in a row end
short. -/
theorem follows_iff (t : Tracks content r) (few : r.emptyReads ≤ 3)
    (h : r.run content steps = some replies) :
    (∃ c, Follows content r.cursor (exchanges steps replies) c) ↔
      ¬ fourShort <:+: List.replicate r.emptyReads true ++
        shortEnds content.length r.cursor steps := by
  induction steps generalizing r replies with
  | nil =>
    have short : ¬ fourShort <:+: List.replicate r.emptyReads true ++
        shortEnds content.length r.cursor [] := by
      intro inside
      have lengths := inside.length_le
      simp only [fourShort, shortEnds, List.append_nil, List.length_replicate, List.length_cons,
        List.length_nil] at lengths
      omega
    exact iff_of_true ⟨r.cursor, .none⟩ short
  | cons s rest ih =>
    obtain ⟨r', reply, later, isStep, isRun, rfl⟩ := run_cons h
    have p := performs t isStep
    have counter := p.counter
    rw [shortEnds, ← p.cursor]
    cases isEnd : endsShort content.length r.cursor s with
    | none =>
      rw [isEnd, counted] at counter
      rw [follows_cons (p.allows (.inl (by rw [isEnd]; nofun))),
        ih p.tracks (counter ▸ few) isRun, counter]
      rfl
    | some short =>
      cases short with
      | false =>
        rw [isEnd, counted] at counter
        rw [follows_cons (p.allows (.inl (by rw [isEnd]; nofun))),
          ih p.tracks (counter ▸ Nat.zero_le 3) isRun, counter]
        exact (not_congr (infix_false few _)).symm
      | true =>
        rw [isEnd, counted] at counter
        by_cases fewer : r.emptyReads < 3
        · rw [follows_cons (p.allows (.inr fewer)), ih p.tracks (by omega) isRun, counter,
            List.replicate_succ', List.append_assoc]
          rfl
        · have three : r.emptyReads = 3 := by omega
          apply iff_of_false (p.not_follows isEnd three.ge)
          rw [Classical.not_not, three]
          exact infix_four _

end Runs

/-- A read into a buffer, in which the body delivers something or ends. -/
def Step.busy : Step → Bool
  | .read len a => 0 < len && (0 < a.n || a.eof)
  | _ => false

/-- Enough reads after any calls deliver the rest of the object, and `io.EOF`. -/
def Drains (content : Bytes) (steps : List Step) (replies : List (Reply UInt8)) : Prop :=
  ∀ before reads c, steps = before ++ reads →
    Follows content ⟨0, false⟩ (exchanges before (replies.take before.length)) c →
      c.closed = false → (∀ s ∈ reads, s.busy = true) → 2 * content.length + 2 ≤ reads.length →
        (replies.drop before.length).flatMap Reply.data = content.drop c.pos ∧
          ∃ reply ∈ replies.drop before.length, reply.isEof = true

/-- The replies are those of an in-memory reader, and reading to the end gives the rest. -/
structure Faithful (content : Bytes) (steps : List Step) (replies : List (Reply UInt8)) : Prop where
  follows : ∃ c, Follows content ⟨0, false⟩ (exchanges steps replies) c
  drains : Drains content steps replies

section Draining
variable {content : Bytes} {r r' : Reader} {steps : List Step} {replies : List (Reply UInt8)}

/-- Bytes to deliver, and a response that has nothing left to deliver. -/
def Reader.left (r : Reader) : Nat :=
  2 * (r.size - r.pos) + if r.body = some [] then 1 else 0

theorem fetch_ne_nil {served : Nat} (h : r.fetch content served = some []) : r.body = some [] := by
  rw [Reader.fetch] at h
  split at h
  · next isBody => rw [isBody, h]
  · rw [openRange] at h
    split at h
    · next legal =>
      have isNil := Option.some.inj h
      rw [List.take_eq_nil_iff] at isNil
      rcases isNil with none | none
      · omega
      · rw [none] at legal
        simp only [List.length_nil] at legal
        omega
    · cases h

theorem left_read {len : Nat} {a : Answer} {reply : Reply UInt8} (t : Tracks content r)
    (isOpen : r.closed = false) (before : r.pos < content.length)
    (busy : (Step.read len a).busy = true) (h : r.read content len a = some (r', reply)) :
    r'.left < r.left := by
  obtain ⟨body, fetched, _, within, whole, inside, reads⟩ := read_inside t isOpen before h
  have isPos : r'.pos = r.pos + a.n ∧ r'.size = r.size ∧ (a.eof = true → r'.body = none) := by
    cases reads with
    | more eof => exact ⟨rfl, rfl, fun ended => nomatch eof.symm.trans ended⟩
    | last => exact ⟨rfl, rfl, fun _ => rfl⟩
    | short => exact ⟨rfl, rfl, fun _ => rfl⟩
    | shrank => exact ⟨rfl, rfl, fun _ => rfl⟩
  have size := t.size
  obtain ⟨isPos, isSize, isBody⟩ := isPos
  rw [Reader.left, Reader.left, isPos, isSize]
  by_cases some_byte : 0 < a.n
  · split
    · split
      · omega
      · omega
    · split
      · omega
      · omega
  · have none : a.n = 0 := by omega
    have eof : a.eof = true := by
      have parts : 0 < len ∧ a.eof = true := by simpa [Step.busy, none] using busy
      exact parts.2
    have isNil : body = [] := List.eq_nil_of_length_eq_zero (by rw [← whole eof, none])
    rw [isBody eof, fetch_ne_nil (isNil ▸ fetched), none]
    simp

theorem isRead_busy {s : Step} (busy : s.busy = true) : s.call.isRead = true := by
  cases s with
  | read => rfl
  | seek => cases busy
  | close => cases busy

/-- Some read answers `io.EOF`. -/
theorem run_ends (t : Tracks content r) (isOpen : r.closed = false)
    (busy : ∀ s ∈ steps, s.busy = true) (enough : r.left < steps.length)
    (h : r.run content steps = some replies) : ∃ reply ∈ replies, reply.isEof = true := by
  induction steps generalizing r replies with
  | nil => cases enough
  | cons s rest ih =>
    obtain ⟨r', reply, later, isStep, isRun, rfl⟩ := run_cons h
    have p := performs t isStep
    have isBusy := busy s List.mem_cons_self
    cases s with
    | seek => cases isBusy
    | close => cases isBusy
    | read len a =>
      by_cases beyond : content.length ≤ r.pos
      · rw [Reader.perform, read_past isOpen (t.size ▸ beyond)] at isStep
        cases isStep
        exact ⟨_, List.mem_cons_self, rfl⟩
      · have fewer := left_read t isOpen (by omega) isBusy isStep
        have stays : r'.closed = false := by
          have isCursor := congrArg Cursor.closed p.cursor
          rw [moved] at isCursor
          split at isCursor
          · exact isCursor.trans isOpen
          · exact isCursor.trans isOpen
        rw [List.length_cons] at enough
        obtain ⟨reply', mem, isEof⟩ := ih p.tracks stays
          (fun s mem => busy s (List.mem_cons_of_mem _ mem)) (by omega) isRun
        exact ⟨reply', List.mem_cons_of_mem reply mem, isEof⟩

/-- An answer of an in-memory reader tells where the reader stands. -/
theorem Performs.unique {s : Step} {reply : Reply UInt8} {c : Cursor}
    (p : Performs content r r' s reply) (allowed : Allows content r.cursor s.call reply c) :
    c = r'.cursor := by
  by_cases refused : endsShort content.length r.cursor s = some true ∧ 3 ≤ r.emptyReads
  · rw [p.refuses refused.1 refused.2] at allowed
    cases s with
    | read => exact absurd allowed Allows.not_failed
    | seek => cases refused.1
    | close => cases refused.1
  · apply allowed.unique (p.allows _)
    by_cases short : endsShort content.length r.cursor s = some true
    · exact .inr (Nat.not_le.mp fun many => refused ⟨short, many⟩)
    · exact .inl short

/-- The reader after the first calls, and the answers from there on. -/
theorem run_append {before reads : List Step} {c c' : Cursor} (t : Tracks content r)
    (h : r.run content (before ++ reads) = some replies)
    (first : Follows content r.cursor (exchanges before (replies.take before.length)) c)
    (whole : Follows content r.cursor (exchanges (before ++ reads) replies) c') :
    ∃ r', Tracks content r' ∧ r'.cursor = c ∧
      r'.run content reads = some (replies.drop before.length) ∧
      Follows content c (exchanges reads (replies.drop before.length)) c' := by
  induction before generalizing r replies with
  | nil =>
    cases first
    exact ⟨r, t, rfl, h, whole⟩
  | cons s before ih =>
    obtain ⟨r', reply, later, isStep, isRun, rfl⟩ := run_cons h
    have p := performs t isStep
    cases first with
    | next allowed rest =>
      cases whole with
      | next allowed' rest' =>
        rw [p.unique allowed] at rest
        rw [p.unique allowed'] at rest'
        exact ih p.tracks isRun rest rest'

theorem run_length (h : r.run content steps = some replies) : replies.length = steps.length := by
  induction steps generalizing r replies with
  | nil =>
    cases h
    rfl
  | cons s rest ih =>
    obtain ⟨_, _, _, _, isRun, rfl⟩ := run_cons h
    rw [List.length_cons, List.length_cons, ih isRun]

theorem drains (h : (openReader content).run content steps = some replies)
    (follows : ∃ c, Follows content ⟨0, false⟩ (exchanges steps replies) c) :
    Drains content steps replies := by
  rintro before reads c rfl first isOpen busy enough
  obtain ⟨c', whole⟩ := follows
  obtain ⟨r, t, rfl, isRun, later⟩ := run_append (tracks_open content) h first whole
  have size := t.size
  have bound : r.left < reads.length := by
    rw [Reader.left]
    split
    · omega
    · omega
  have ended := run_ends t isOpen busy bound isRun
  refine ⟨?_, ended⟩
  have isReplies : (exchanges reads (replies.drop before.length)).map Prod.snd =
      replies.drop before.length := by
    apply List.map_snd_zip
    rw [List.length_map, run_length isRun]
  have delivered := later.drained (fun e mem => ?_) isOpen ?_
  · rw [← isReplies, List.flatMap_map]
    exact delivered
  · obtain ⟨s, inReads, isCall⟩ := List.mem_map.mp (List.of_mem_zip mem).1
    rw [← isCall]
    exact isRead_busy (busy s inReads)
  · obtain ⟨reply, mem, isEof⟩ := ended
    rw [← isReplies] at mem
    obtain ⟨e, inside, rfl⟩ := List.mem_map.mp mem
    exact ⟨e, inside, isEof⟩

/-- The reader behaves as an in-memory reader exactly when no four responses in a row end short
of the end of the object. -/
theorem faithful_iff (h : (openReader content).run content steps = some replies) :
    Faithful content steps replies ↔ ¬ fourShort <:+: shortEnds content.length ⟨0, false⟩ steps := by
  have iff := follows_iff (tracks_open content) (Nat.zero_le 3) h
  constructor
  · intro faithful
    exact iff.mp faithful.follows
  · intro few
    have follows := iff.mpr few
    exact ⟨follows, drains h follows⟩

end Draining

/-- Each response delivers one byte together with `io.EOF`. -/
def single : Step := .read 1 ⟨1, 1, true⟩

theorem faithful_three :
    Faithful [1, 2, 3] [single, single, single] [.read [1] none, .read [2] none, .read [3] (some .eof)] :=
  (faithful_iff (by decide)).mpr (by decide)

/-- The fourth read of a byte fails, and the byte is lost. -/
theorem not_faithful_five :
    (openReader [1, 2, 3, 4, 5]).run [1, 2, 3, 4, 5] [single, single, single, single] =
      some [.read [1] none, .read [2] none, .read [3] none, .read [] (some shrank)] ∧
    ¬ Faithful [1, 2, 3, 4, 5] [single, single, single, single]
      [.read [1] none, .read [2] none, .read [3] none, .read [] (some shrank)] := by
  have run : (openReader [1, 2, 3, 4, 5]).run [1, 2, 3, 4, 5] [single, single, single, single] =
      some [.read [1] none, .read [2] none, .read [3] none, .read [] (some shrank)] := by decide
  refine ⟨run, fun faithful => ?_⟩
  have few := (follows_iff (tracks_open _) (Nat.zero_le 3) run).mp faithful.follows
  exact few (by decide)

end Vidsilo.Storage.RangedReader
