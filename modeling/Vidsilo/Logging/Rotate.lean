import Mathlib.Data.List.TakeDrop
import Mathlib.Logic.Function.Basic
import Vidsilo.Library.Transition

/-!
# The rotating log file

Source: internal/logging/rotate.go. The files of the directory are numbered: `0` is the file at
`path` and `i` the one at `path.i`. The loop of `rotate` runs down from `backups - 1` and moves
every file one number up, so the last one goes to `path.5`, which nothing counts
(`backups_kept_iff`). Sizes are numbers without overflow; every file operation succeeds, and the
process ends only between two writes.
-/
namespace Vidsilo.Logging.Rotate
open Library.Transition

abbrev Bytes := List UInt8

abbrev Dir := Nat → Option Bytes

def maxBytes : Nat := 10 <<< 20

/-- `log`, `log.1` to `log.4`. -/
def backups : Nat := 5

/-- The writer and the directory of its path. -/
structure RotatingFile where
  max : Nat
  backups : Nat
  size : Nat
  dir : Dir

def remove (dir : Dir) (i : Nat) : Dir := Function.update dir i none

def rename (dir : Dir) (i j : Nat) : Dir :=
  match dir i with
  | none => dir
  | some content => Function.update (Function.update dir j (some content)) i none

def content (dir : Dir) (i : Nat) : Bytes := (dir i).getD []

/-- `O_CREATE|O_APPEND`. -/
def RotatingFile.openFile (r : RotatingFile) : RotatingFile :=
  { r with
    dir := Function.update r.dir 0 (some (content r.dir 0))
    size := (content r.dir 0).length }

def newRotatingFile (dir : Dir) : RotatingFile :=
  RotatingFile.openFile { max := maxBytes, backups := backups, size := 0, dir := dir }

/-- One iteration of the loop of `rotate`. -/
def shift (dir : Dir) (i : Nat) : Dir :=
  if (dir i).isSome then rename (remove dir (i + 1)) i (i + 1) else dir

/-- The loop, from the number down to 1. -/
def shiftAll : Nat → Dir → Dir
  | 0, dir => dir
  | i + 1, dir => shiftAll i (shift dir (i + 1))

def RotatingFile.rotate (r : RotatingFile) : RotatingFile :=
  let dir := shiftAll (r.backups - 1) r.dir
  RotatingFile.openFile { r with dir := rename (remove dir 1) 0 1 }

def RotatingFile.append (r : RotatingFile) (p : Bytes) : RotatingFile :=
  { r with
    dir := Function.update r.dir 0 (some (content r.dir 0 ++ p))
    size := r.size + p.length }

def RotatingFile.full (r : RotatingFile) (p : Bytes) : Bool := decide (r.max < r.size + p.length)

def RotatingFile.write (r : RotatingFile) (p : Bytes) : RotatingFile :=
  if r.full p then r.rotate.append p else r.append p

inductive Event where
  | write (p : Bytes)
  /-- The process ends, and another one opens the log. -/
  | restart
  deriving DecidableEq, Repr

def step (r : RotatingFile) : Event → Option RotatingFile
  | .write p => some (r.write p)
  | .restart => some (newRotatingFile r.dir)

def Event.written : Event → List Bytes
  | .write p => [p]
  | .restart => []

def written (trace : List Event) : List Bytes := trace.flatMap Event.written

def emptyDir : Dir := fun _ => none

/-- The files hold these writes, the live log first. -/
def Holds (dir : Dir) (parts : List (List Bytes)) : Prop :=
  ∀ i, dir i = (parts[i]?).map List.flatten

/-- At most `max` bytes, unless it is a single larger write. -/
def Fits (max : Nat) (part : List Bytes) : Prop :=
  part.flatten.length ≤ max ∨ ∃ p : Bytes, part = [p] ∧ max < p.length

/-- From the oldest backup to the live log, the files spell the end of what was written, each write
in one file, and no file is too large. -/
structure Spells (max : Nat) (writes : List Bytes) (dir : Dir) (parts : List (List Bytes)) :
    Prop where
  holds : Holds dir parts
  whole : parts.reverse.flatten <:+ writes
  fits : ∀ part ∈ parts, Fits max part

/-- The directory is as the log means to keep it: besides the live log there are at most the
backups `1` to `backups - 1`. -/
structure Kept (r : RotatingFile) (writes : List Bytes) : Prop where
  few : ∀ i, (r.dir i).isSome → i < r.backups
  spells : ∃ parts, Spells r.max writes r.dir parts

/-- The write does not rotate while the last backup exists. -/
def Spares (r : RotatingFile) : Event → Prop
  | .write p => r.full p = true → r.dir (r.backups - 1) = none
  | .restart => True

theorem shift_apply (dir : Dir) (i j : Nat) : shift dir i j =
    if j = i then none else if j = i + 1 then (dir i).or (dir (i + 1)) else dir j := by
  unfold shift
  cases here : dir i with
  | none =>
    rw [if_neg (by simp), Option.none_or]
    split
    · next same => rw [same, here]
    · split
      · next same => rw [same]
      · rfl
  | some content =>
    have kept : remove dir (i + 1) i = some content := by
      rw [remove, Function.update_of_ne (by omega), here]
    rw [if_pos (by simp), rename, kept, Option.some_or]
    simp only [Function.update_apply, remove]
    split
    · rfl
    · split
      · rfl
      · rfl

/-- Every file below moves one number up; the last one replaces the next only if it exists. -/
theorem shiftAll_apply (n : Nat) (dir : Dir) (j : Nat) : shiftAll n dir (j + 2) =
    if j + 2 = n + 1 then (dir n).or (dir (n + 1)) else if j + 2 ≤ n then dir (j + 1)
      else dir (j + 2) := by
  induction n generalizing dir with
  | zero => simp [shiftAll]
  | succ n ih =>
    rw [shiftAll, ih]
    simp only [shift_apply]
    grind

theorem shiftAll_zero (n : Nat) (dir : Dir) : shiftAll n dir 0 = dir 0 := by
  induction n generalizing dir with
  | zero => rfl
  | succ n ih => rw [shiftAll, ih, shift_apply, if_neg (by omega), if_neg (by omega)]

variable {r r' : RotatingFile} {parts : List (List Bytes)} {writes : List Bytes} {p : Bytes}

theorem content_holds {part : List Bytes} (h : Holds r.dir (part :: parts)) :
    content r.dir 0 = part.flatten := by
  rw [content, h 0, List.getElem?_cons_zero, Option.map_some, Option.getD_some]

/-- Opening an existing log takes over its size. -/
theorem holds_openFile {part : List Bytes} (h : Holds r.dir (part :: parts)) :
    Holds r.openFile.dir (part :: parts) ∧ r.openFile.size = part.flatten.length := by
  constructor
  · intro i
    change Function.update r.dir 0 (some (content r.dir 0)) i = _
    rw [content_holds h]
    cases i with
    | zero => rw [Function.update_self, List.getElem?_cons_zero, Option.map_some]
    | succ i => rw [Function.update_of_ne (by omega), h (i + 1)]
  · change (content r.dir 0).length = _
    rw [content_holds h]

/-- Every file moves one number up and the live log is empty. -/
theorem rotate_apply {part : List Bytes} (h : Holds r.dir (part :: parts)) (i : Nat) :
    r.rotate.dir i = if i = 0 then some []
      else if i = r.backups - 1 + 1 then (r.dir (i - 1)).or (r.dir i)
      else if i ≤ r.backups - 1 then r.dir (i - 1) else r.dir i := by
  have first : r.dir 0 = some part.flatten := h 0
  have live : remove (shiftAll (r.backups - 1) r.dir) 1 0 = some part.flatten := by
    rw [remove, Function.update_of_ne (by omega), shiftAll_zero, first]
  change Function.update (rename (remove (shiftAll (r.backups - 1) r.dir) 1) 0 1) 0
    (some (content (rename (remove (shiftAll (r.backups - 1) r.dir) 1) 0 1) 0)) i = _
  have empty : content (rename (remove (shiftAll (r.backups - 1) r.dir) 1) 0 1) 0 = [] := by
    rw [content, rename, live]
    simp
  rw [empty]
  match i with
  | 0 => simp
  | 1 =>
    rw [Function.update_of_ne (by omega), rename, live]
    simp only [first, Nat.sub_self, Option.some_or]
    rw [Function.update_of_ne (by omega), Function.update_self]
    grind
  | j + 2 =>
    rw [Function.update_of_ne (by omega), rename, live]
    simp only [remove]
    rw [Function.update_of_ne (by omega), Function.update_of_ne (by omega),
      Function.update_of_ne (by omega), shiftAll_apply]
    grind

/-- The oldest writes go with the file that is replaced. -/
theorem holds_rotate {part : List Bytes} (h : Holds r.dir (part :: parts)) (some : 0 < r.backups)
    (few : (part :: parts).length ≤ r.backups + 1) :
    Holds r.rotate.dir ([] :: (part :: parts).take r.backups) := by
  intro i
  rw [rotate_apply h]
  split
  · next zero => rw [zero]; rfl
  · next later =>
    obtain ⟨j, rfl⟩ : ∃ j, i = j + 1 := ⟨i - 1, by omega⟩
    rw [List.getElem?_cons_succ, Nat.add_sub_cancel, List.getElem?_take, h j, h (j + 1)]
    split
    · next last =>
      rw [if_pos (by omega)]
      by_cases present : j < (part :: parts).length
      · rw [List.getElem?_eq_getElem present, Option.map_some, Option.some_or]
      · rw [List.getElem?_eq_none (by omega), List.getElem?_eq_none (by omega)]
        rfl
    · next other =>
      split
      · next below => rw [if_pos (by omega)]
      · next above =>
        rw [if_neg (by omega), List.getElem?_eq_none (by omega)]

theorem holds_append {part : List Bytes} (h : Holds r.dir (part :: parts)) :
    Holds (r.append p).dir ((part ++ [p]) :: parts) := by
  intro i
  change Function.update r.dir 0 (some (content r.dir 0 ++ p)) i = _
  rw [content_holds h]
  cases i with
  | zero => simp
  | succ i => rw [Function.update_of_ne (by omega), h (i + 1), List.getElem?_cons_succ,
      List.getElem?_cons_succ]

/-- The writer knows the size of the live log, and there is at most one backup too many. -/
structure Inv (r : RotatingFile) (writes : List Bytes) (parts : List (List Bytes)) : Prop where
  max : r.max = maxBytes
  backups : r.backups = Rotate.backups
  spells : Spells r.max writes r.dir parts
  live : parts ≠ []
  few : parts.length ≤ r.backups + 1
  size : r.size = (content r.dir 0).length

theorem Holds.isSome_iff (h : Holds r.dir parts) (i : Nat) :
    (r.dir i).isSome = true ↔ i < parts.length := by
  rw [h i]
  simp

/-- Two readings of a directory have the same number of files. -/
theorem kept_iff (inv : Inv r writes parts) : Kept r writes ↔ parts.length ≤ r.backups := by
  constructor
  · intro kept
    by_contra many
    have exists5 : (r.dir r.backups).isSome = true :=
      (inv.spells.holds.isSome_iff _).mpr (by omega)
    exact Nat.lt_irrefl _ (kept.few _ exists5)
  · intro few
    refine ⟨fun i isFile => ?_, parts, inv.spells⟩
    exact Nat.lt_of_lt_of_le ((inv.spells.holds.isSome_iff i).mp isFile) few

theorem inv_append {part : List Bytes} (inv : Inv r writes (part :: parts))
    (fits : Fits r.max (part ++ [p])) : Inv (r.append p) (writes ++ [p]) ((part ++ [p]) :: parts) where
  max := inv.max
  backups := inv.backups
  spells := by
    obtain ⟨old, whole⟩ := inv.spells.whole
    refine ⟨holds_append inv.spells.holds, ⟨old, ?_⟩, ?_⟩
    · rw [← whole]
      simp
    · intro q mem
      rcases List.mem_cons.mp mem with rfl | other
      · exact fits
      · exact inv.spells.fits q (List.mem_cons_of_mem _ other)
  live := List.cons_ne_nil _ _
  few := inv.few
  size := by
    change r.size + p.length = ((Function.update r.dir 0 (some (content r.dir 0 ++ p)) 0).getD []).length
    rw [Function.update_self, Option.getD_some, List.length_append, ← inv.size]

theorem inv_rotate {part : List Bytes} (inv : Inv r writes (part :: parts)) :
    Inv r.rotate writes ([] :: (part :: parts).take r.backups) := by
  have some : 0 < r.backups := by
    rw [inv.backups]
    decide
  have holds := holds_rotate inv.spells.holds some inv.few
  refine ⟨inv.max, inv.backups, ⟨holds, ?_, ?_⟩, List.cons_ne_nil _ _, ?_, rfl⟩
  · obtain ⟨old, whole⟩ := inv.spells.whole
    have split : (part :: parts).reverse.flatten =
        ((part :: parts).drop r.backups).reverse.flatten ++
          ((part :: parts).take r.backups).reverse.flatten := by
      rw [← List.flatten_append, ← List.reverse_append, List.take_append_drop]
    refine ⟨old ++ ((part :: parts).drop r.backups).reverse.flatten, ?_⟩
    rw [← whole, split, List.reverse_cons, List.flatten_append]
    simp
  · intro q mem
    rcases List.mem_cons.mp mem with rfl | other
    · exact .inl (Nat.zero_le _)
    · exact inv.spells.fits q (List.mem_of_mem_take other)
  · change ([] :: (part :: parts).take r.backups).length ≤ r.backups + 1
    rw [List.length_cons, List.length_take]
    omega

theorem inv_restart (inv : Inv r writes parts) : Inv (newRotatingFile r.dir) writes parts := by
  obtain ⟨part, rest, rfl⟩ := List.exists_cons_of_ne_nil inv.live
  obtain ⟨holds, size⟩ := holds_openFile (r := ⟨maxBytes, backups, 0, r.dir⟩) inv.spells.holds
  have fits := inv.spells.fits
  have few := inv.few
  rw [inv.max] at fits
  rw [inv.backups] at few
  refine ⟨rfl, rfl, ⟨holds, inv.spells.whole, fits⟩, inv.live, few, ?_⟩
  have live : content (newRotatingFile r.dir).dir 0 = part.flatten := content_holds holds
  rw [live]
  exact size

/-- A write that rotates adds a backup, unless there is one too many already. -/
theorem inv_write (inv : Inv r writes parts) : ∃ parts', Inv (r.write p) (writes ++ [p]) parts' ∧
    parts'.length = if r.full p then min r.backups parts.length + 1 else parts.length := by
  obtain ⟨part, rest, rfl⟩ := List.exists_cons_of_ne_nil inv.live
  unfold RotatingFile.write
  cases full : r.full p with
  | false =>
    refine ⟨(part ++ [p]) :: rest, inv_append inv (.inl ?_), rfl⟩
    have room := of_decide_eq_false full
    rw [inv.size, content_holds inv.spells.holds] at room
    rw [List.flatten_append, List.length_append, List.flatten_singleton]
    omega
  | true =>
    refine ⟨([] ++ [p]) :: (part :: rest).take r.backups, inv_append (inv_rotate inv) ?_, ?_⟩
    · rw [List.nil_append]
      rcases Nat.lt_or_ge r.max p.length with larger | fits
      · exact .inr ⟨p, rfl, larger⟩
      · refine .inl ?_
        rw [List.flatten_singleton]
        exact fits
    · rw [List.length_cons, List.length_take]
      rfl

theorem few_write_iff (inv : Inv r writes parts) :
    (if r.full p then min r.backups parts.length + 1 else parts.length) ≤ r.backups ↔
      parts.length ≤ r.backups ∧ Spares r (.write p) := by
  have isFile := inv.spells.holds.isSome_iff (r.backups - 1)
  have some : 0 < r.backups := by
    rw [inv.backups]
    decide
  unfold Spares
  rw [← Option.not_isSome_iff_eq_none, isFile]
  split
  · next full =>
    constructor
    · intro few
      exact ⟨by omega, fun _ => by omega⟩
    · rintro ⟨_, spares⟩
      have early := spares full
      omega
  · next room => exact (and_iff_left fun full => absurd full room).symm

theorem inv_step {e : Event} (inv : Inv r writes parts) (taken : step r e = some r') :
    ∃ parts', Inv r' (writes ++ e.written) parts' ∧
      (parts'.length ≤ r.backups ↔ parts.length ≤ r.backups ∧ Spares r e) := by
  cases e with
  | write p =>
    cases taken
    obtain ⟨parts', inv', length⟩ := inv_write (p := p) inv
    exact ⟨parts', inv', length ▸ few_write_iff inv⟩
  | restart =>
    cases taken
    rw [Event.written, List.append_nil]
    exact ⟨parts, inv_restart inv, (and_iff_left trivial).symm⟩

theorem inv_start : Inv (newRotatingFile emptyDir) [] [[]] where
  max := rfl
  backups := rfl
  spells := by
    refine ⟨fun i => ?_, List.suffix_rfl, ?_⟩
    · cases i with
      | zero => rfl
      | succ i => rfl
    · intro part mem
      obtain rfl := List.mem_singleton.mp mem
      exact .inl (Nat.zero_le _)
  live := List.cons_ne_nil _ _
  few := by decide
  size := rfl

theorem written_concat (trace : List Event) (e : Event) :
    written (trace ++ [e]) = written trace ++ e.written := by
  simp [written]

theorem inv_run {trace : List Event} {cond : RotatingFile → Event → Prop}
    (h : Run step cond (newRotatingFile emptyDir) trace r) : ∃ parts, Inv r (written trace) parts := by
  induction h with
  | start => exact ⟨_, inv_start⟩
  | next _ _ taken ih =>
    obtain ⟨parts, inv⟩ := ih
    obtain ⟨parts', inv', _⟩ := inv_step inv taken
    exact ⟨parts', written_concat _ _ ▸ inv'⟩

/-- A step keeps the directory as it should be exactly when it spares the last backup. -/
theorem kept_step {trace : List Event} {e : Event} {cond : RotatingFile → Event → Prop}
    (h : Run step cond (newRotatingFile emptyDir) trace r) (taken : step r e = some r') :
    Kept r' (written (trace ++ [e])) ↔ Kept r (written trace) ∧ Spares r e := by
  obtain ⟨parts, inv⟩ := inv_run h
  obtain ⟨parts', inv', few⟩ := inv_step inv taken
  rw [kept_iff inv, written_concat, kept_iff inv', inv'.backups, ← inv.backups]
  exact few

/-- In every run from an empty directory, restarts included: there are at most 5 files, each of at
most 10 MiB or a single write, and from the oldest to the live log they spell the end of what was
written, if and only if no write has rotated while `log.4` existed. -/
theorem backups_kept_iff (trace : List Event) (r : RotatingFile)
    (h : Run step Always (newRotatingFile emptyDir) trace r) :
    Kept r (written trace) ↔ Run step Spares (newRotatingFile emptyDir) trace r := by
  induction h with
  | start => exact ⟨fun _ => .start, fun _ => (kept_iff inv_start).mpr (by decide)⟩
  | next before _ taken ih =>
    rw [kept_step before taken, ih]
    constructor
    · rintro ⟨run, spares⟩
      exact .next run spares taken
    · intro run
      obtain ⟨m, run', spares, _⟩ := run.last
      obtain rfl := before.unique run'
      exact ⟨run', spares⟩

theorem backups_kept_restarted :
    ∃ r, Run step Always (newRotatingFile emptyDir) [.write [1], .restart, .write [2]] r ∧
      (Kept r [[1], [2]] ↔
        Run step Spares (newRotatingFile emptyDir) [.write [1], .restart, .write [2]] r) := by
  obtain ⟨r, run, _⟩ : ∃ r, Run step Always (newRotatingFile emptyDir)
      [.write [1], .restart, .write [2]] r ∧ true = true := exists_always (by rfl)
  exact ⟨r, run, backups_kept_iff _ r run⟩

/-- A write that never fits beside another. -/
def line : Bytes := List.replicate (maxBytes + 1) 0

theorem full_line (inv : Inv r writes parts) : r.full line = true := by
  have length : line.length = maxBytes + 1 := List.length_replicate
  rw [RotatingFile.full, length, inv.max, decide_eq_true_eq]
  omega

/-- After so many lines there are as many backups, up to one too many. -/
theorem lines_written (n : Nat) : ∃ r parts,
    Run step Always (newRotatingFile emptyDir) (List.replicate n (.write line)) r ∧
      Inv r (written (List.replicate n (.write line))) parts ∧
        parts.length = min n backups + 1 := by
  induction n with
  | zero => exact ⟨_, _, .start, inv_start, rfl⟩
  | succ n ih =>
    obtain ⟨r, parts, run, inv, length⟩ := ih
    obtain ⟨parts', inv', length'⟩ := inv_write (p := line) inv
    rw [full_line inv, if_pos rfl, length, inv.backups] at length'
    rw [List.replicate_succ', written_concat]
    exact ⟨_, parts', .next run trivial rfl, inv', by omega⟩

/-- Five large writes leave six files. -/
theorem sixth_file : ∃ trace r, Run step Always (newRotatingFile emptyDir) trace r ∧
    (r.dir 5).isSome = true ∧ ¬ Kept r (written trace) := by
  obtain ⟨r, parts, run, inv, length⟩ := lines_written 5
  have many : parts.length = 6 := length
  refine ⟨_, r, run, (inv.spells.holds.isSome_iff 5).mpr (by omega), fun kept => ?_⟩
  have few := (kept_iff inv).mp kept
  rw [inv.backups, many] at few
  exact absurd few (by decide)

end Vidsilo.Logging.Rotate
