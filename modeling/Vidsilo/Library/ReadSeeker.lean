import Mathlib.Algebra.Ring.Nat
import Mathlib.Tactic.TypeStar

/-!
# Readers that can seek

What a reader over a fixed sequence may answer: a read gives any part of what follows the
position, and the end is announced with or after the last elements. Nothing here depends on the
repository.
-/
namespace Vidsilo.Library.ReadSeeker

inductive ReadError where
  | eof
  | closed
  | whence (whence : Int)
  | negative (position : Int)
  /-- An error of the implementation. -/
  | failed (message : String)
  deriving DecidableEq, Repr

inductive Call where
  | read (len : Nat)
  | seek (offset whence : Int)
  | close

inductive Reply (α : Type*) where
  | read (data : List α) (err : Option ReadError)
  | seek (next : Int) (err : Option ReadError)
  | close
  deriving DecidableEq

def Reply.data {α : Type*} : Reply α → List α
  | .read data _ => data
  | _ => []

def Reply.isEof {α : Type*} : Reply α → Bool
  | .read _ (some .eof) => true
  | _ => false

/-- A position in a sequence. -/
structure Cursor where
  pos : Nat
  closed : Bool
  deriving DecidableEq, Repr

/-- Arithmetic of `int64`. -/
def wrap (n : Int) : Int := n.bmod (2 ^ 64)

/-- The position that a seek asks for. -/
def target (size pos : Nat) (offset whence : Int) : Option Int :=
  if whence = 0 then some offset
  else if whence = 1 then some (wrap (pos + offset))
  else if whence = 2 then some (wrap (size + offset))
  else none

def Cursor.seek {α : Type*} (c : Cursor) (size : Nat) (offset whence : Int) : Cursor × Reply α :=
  if c.closed then (c, .seek 0 (some .closed))
  else
    match target size c.pos offset whence with
    | none => (c, .seek 0 (some (.whence whence)))
    | some next =>
      if next < 0 then (c, .seek 0 (some (.negative next)))
      else ({ c with pos := next.toNat }, .seek next none)

variable {α : Type*}

/-- The replies that an in-memory reader with short reads may give. -/
inductive Allows (content : List α) (c : Cursor) : Call → Reply α → Cursor → Prop where
  | closed {len : Nat} (h : c.closed = true) : Allows content c (.read len) (.read [] (some .closed)) c
  | past {len : Nat} (h : c.closed = false) (beyond : content.length ≤ c.pos) :
      Allows content c (.read len) (.read [] (some .eof)) c
  | data {len n : Nat} (h : c.closed = false) (before : c.pos < content.length) (fits : n ≤ len)
      (inside : c.pos + n ≤ content.length) : Allows content c (.read len)
        (.read ((content.drop c.pos).take n) none) { c with pos := c.pos + n }
  | last {len : Nat} (h : c.closed = false) (before : c.pos < content.length)
      (fits : content.length - c.pos ≤ len) : Allows content c (.read len)
        (.read (content.drop c.pos) (some .eof)) { c with pos := content.length }
  | seek {offset whence : Int} : Allows content c (.seek offset whence)
      (c.seek content.length offset whence).2 (c.seek (α := α) content.length offset whence).1
  | close : Allows content c .close .close { c with closed := true }

/-- The replies to calls one after the other. -/
inductive Follows (content : List α) : Cursor → List (Call × Reply α) → Cursor → Prop where
  | none {c : Cursor} : Follows content c [] c
  | next {c c' c'' : Cursor} {call : Call} {reply : Reply α} {rest : List (Call × Reply α)}
      (allowed : Allows content c call reply c') (later : Follows content c' rest c'') :
      Follows content c ((call, reply) :: rest) c''

def Call.isRead : Call → Bool
  | .read _ => true
  | _ => false

variable {content : List α} {c c' : Cursor} {call : Call} {reply : Reply α}
  {exchanges : List (Call × Reply α)}

theorem Allows.read_open (h : Allows content c call reply c') (isRead : call.isRead = true)
    (isOpen : c.closed = false) : c'.closed = false ∧ c.pos ≤ c'.pos ∧
      reply.data ++ content.drop c'.pos = content.drop c.pos ∧
      (reply.isEof = true → content.length ≤ c'.pos) := by
  cases h with
  | closed h => exact nomatch isOpen.symm.trans h
  | past h beyond => exact ⟨h, Nat.le_refl _, rfl, fun _ => beyond⟩
  | data h before fits inside =>
    refine ⟨h, Nat.le_add_right _ _, ?_, nofun⟩
    rw [Reply.data, ← List.drop_drop, List.take_append_drop]
  | last h before fits =>
    refine ⟨h, Nat.le_of_lt before, ?_, fun _ => Nat.le_refl _⟩
    rw [Reply.data, List.drop_length, List.append_nil]
  | seek => cases isRead
  | close => cases isRead

/-- A read moves by what it delivers. -/
theorem Allows.read_pos {len : Nat} (h : Allows content c (.read len) reply c') :
    c' = { c with pos := c.pos + reply.data.length } := by
  cases h with
  | closed => rfl
  | past => rfl
  | data _ _ _ inside =>
    rw [Reply.data, List.length_take, List.length_drop]
    congr 1
    omega
  | last _ before =>
    rw [Reply.data, List.length_drop]
    congr 1
    omega

/-- The position after a call follows from the reply. -/
theorem Allows.unique {c'' : Cursor} (h : Allows content c call reply c')
    (h' : Allows content c call reply c'') : c' = c'' := by
  cases call with
  | read len => rw [h.read_pos, h'.read_pos]
  | seek offset whence =>
    cases h
    cases h'
    rfl
  | close =>
    cases h
    cases h'
    rfl

/-- No read fails. -/
theorem Allows.not_failed {len : Nat} {data : List α} {message : String} :
    ¬ Allows content c (.read len) (.read data (some (.failed message))) c' := nofun

/-- Reads deliver what lies between the positions, and the end is not announced before. -/
theorem Follows.delivered (h : Follows content c exchanges c')
    (reads : ∀ e ∈ exchanges, e.1.isRead = true) (isOpen : c.closed = false) :
    c'.closed = false ∧ c.pos ≤ c'.pos ∧
      exchanges.flatMap (·.2.data) ++ content.drop c'.pos = content.drop c.pos ∧
      ((∃ e ∈ exchanges, e.2.isEof = true) → content.length ≤ c'.pos) := by
  induction h with
  | none => exact ⟨isOpen, Nat.le_refl _, rfl, nofun⟩
  | next allowed _ ih =>
    obtain ⟨open', le, data, atEnd⟩ := allowed.read_open (reads _ List.mem_cons_self) isOpen
    obtain ⟨open'', le', data', atEnd'⟩ := ih (fun e mem => reads e (List.mem_cons_of_mem _ mem)) open'
    refine ⟨open'', Nat.le_trans le le', ?_, ?_⟩
    · rw [List.flatMap_cons, List.append_assoc, data', data]
    · rintro ⟨e, mem, isEof⟩
      rcases List.mem_cons.mp mem with rfl | later
      · exact Nat.le_trans (atEnd isEof) le'
      · exact atEnd' ⟨e, later, isEof⟩

/-- Reading to the end gives the rest. -/
theorem Follows.drained (h : Follows content c exchanges c')
    (reads : ∀ e ∈ exchanges, e.1.isRead = true) (isOpen : c.closed = false)
    (ended : ∃ e ∈ exchanges, e.2.isEof = true) :
    exchanges.flatMap (·.2.data) = content.drop c.pos := by
  obtain ⟨_, _, data, atEnd⟩ := h.delivered reads isOpen
  rw [List.drop_eq_nil_of_le (atEnd ended), List.append_nil] at data
  exact data

end Vidsilo.Library.ReadSeeker
