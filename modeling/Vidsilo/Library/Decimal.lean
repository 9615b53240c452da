import Mathlib.Data.List.Basic
import Mathlib.Data.Int.Init

/-!
# Decimal integers as text

`formatInt` is Go's `strconv.FormatInt(n, 10)` and `parseInt` its
`strconv.ParseInt(s, 10, 64)` with the error value dropped: an optional sign, at
least one digit, a value in the signed 64-bit range. `atoi` is `strconv.Atoi` with
the error ignored. Nothing here depends on the repository.
-/
namespace Vidsilo.Library.Decimal

def formatInt : Int → List Char
  | .ofNat n => Nat.toDigits 10 n
  | .negSucc n => '-' :: Nat.toDigits 10 (n + 1)

def parseUint (s : List Char) : Option Nat :=
  if s = [] ∨ s.any (fun c => !c.isDigit) then none else some (Nat.ofDigitChars 10 s 0)

/-- `uint64(1) << 63`. -/
def cutoff : Nat := 9223372036854775808

def parseInt (s : List Char) : Option Int :=
  match s with
  | '-' :: digits => (parseUint digits).bind fun n => if n ≤ cutoff then some (-n : Int) else none
  | '+' :: digits => (parseUint digits).bind fun n => if n < cutoff then some (n : Int) else none
  | digits => (parseUint digits).bind fun n => if n < cutoff then some (n : Int) else none

def maxUint : Nat := 18446744073709551615

/-- The loop of `strconv.ParseUint(s, 10, 64)`: the value goes with the error, zero for the syntax
and the largest one for the range, after which nothing more is read. -/
def uintOf (n : Nat) : List Char → Nat
  | [] => n
  | c :: rest =>
    if c.isDigit = false then 0
    else if maxUint / 10 + 1 ≤ n then maxUint
    else
      let n1 := n * 10 + (c.toNat - '0'.toNat)
      if maxUint < n1 then maxUint else uintOf n1 rest

def atoi : List Char → Int
  | '-' :: digits => if cutoff < uintOf 0 digits then -cutoff else -uintOf 0 digits
  | '+' :: digits => if cutoff ≤ uintOf 0 digits then cutoff - 1 else uintOf 0 digits
  | digits => if cutoff ≤ uintOf 0 digits then cutoff - 1 else uintOf 0 digits

theorem parseUint_toDigits (n : Nat) : parseUint (Nat.toDigits 10 n) = some n := by
  have hd : (Nat.toDigits 10 n).any (fun c => !c.isDigit) = false := by
    rw [List.any_eq_false]
    intro c hc
    simp [Nat.isDigit_of_mem_toDigits (by decide) (by decide) hc]
  simp [parseUint, hd, Nat.ofDigitChars_ten_toDigits]

theorem formatInt_ne_nil (n : Int) : formatInt n ≠ [] := by
  cases n with
  | ofNat n => exact Nat.toDigits_ne_nil
  | negSucc n => simp [formatInt]

/-- A decimal holds digits and at most a minus sign. -/
theorem formatInt_chars (n : Int) : ∀ c ∈ formatInt n, c.isDigit = true ∨ c = '-' := by
  intro c hc
  cases n with
  | ofNat n => exact Or.inl (Nat.isDigit_of_mem_toDigits (by decide) (by decide) hc)
  | negSucc n =>
    rcases List.mem_cons.mp hc with rfl | hc
    · exact Or.inr rfl
    · exact Or.inl (Nat.isDigit_of_mem_toDigits (by decide) (by decide) hc)

theorem not_mem_formatInt (n : Int) {c : Char} (hd : c.isDigit = false) (hm : c ≠ '-') :
    c ∉ formatInt n := by
  intro hc
  rcases formatInt_chars n c hc with h | h
  · simp [hd] at h
  · exact hm h

theorem head_digit {c : Char} {cs : List Char} (n : Nat) (h : Nat.toDigits 10 n = c :: cs) :
    c.isDigit = true :=
  Nat.isDigit_of_mem_toDigits (b := 10) (n := n) (by decide) (by decide) (by rw [h]; simp)

/-- Parsing reads back what formatting wrote, within the 64-bit range. -/
theorem parseInt_formatInt (n : Int) (hlo : -(cutoff : Int) ≤ n) (hhi : n < cutoff) :
    parseInt (formatInt n) = some n := by
  cases n with
  | ofNat n =>
    have hn : n < cutoff := Int.ofNat_lt.mp hhi
    cases hdig : Nat.toDigits 10 n with
    | nil => exact absurd hdig Nat.toDigits_ne_nil
    | cons c cs =>
      have hc := head_digit n hdig
      have h1 : c ≠ '-' := by rintro rfl; simp at hc
      have h2 : c ≠ '+' := by rintro rfl; simp at hc
      have hp := parseUint_toDigits n
      rw [hdig] at hp
      simpa [formatInt, hdig, parseInt, h1, h2, hp] using hn
  | negSucc n =>
    have hn : n + 1 ≤ cutoff := by omega
    simp only [formatInt, parseInt, parseUint_toDigits, Option.bind_some, if_pos hn]
    rfl

theorem formatInt_injective {m n : Int} (h : formatInt m = formatInt n) : m = n := by
  have digits_inj : ∀ {a b : Nat}, Nat.toDigits 10 a = Nat.toDigits 10 b → a = b := by
    intro a b hab
    have := parseUint_toDigits a
    rw [hab, parseUint_toDigits b] at this
    exact (Option.some.inj this).symm
  cases m with
  | ofNat m =>
    cases n with
    | ofNat n => exact congrArg Int.ofNat (digits_inj h)
    | negSucc n => simpa using head_digit m h
  | negSucc m =>
    cases n with
    | ofNat n => simpa using head_digit n h.symm
    | negSucc n =>
      have := digits_inj (List.cons.inj h).2
      omega

theorem le_ofDigitChars (n : Nat) (s : List Char) : n ≤ Nat.ofDigitChars 10 s n := by
  induction s generalizing n with
  | nil => exact Nat.le_refl n
  | cons c rest ih =>
    rw [Nat.ofDigitChars_cons]
    have later := ih (10 * n + (c.toNat - '0'.toNat))
    omega

/-- The loop reads a number that fits. -/
theorem uintOf_digits {n : Nat} {s : List Char} (digits : s.all Char.isDigit = true)
    (fits : Nat.ofDigitChars 10 s n ≤ maxUint) : uintOf n s = Nat.ofDigitChars 10 s n := by
  induction s generalizing n with
  | nil => rfl
  | cons c rest ih =>
    obtain ⟨first, later⟩ := Bool.and_eq_true_iff.mp digits
    rw [Nat.ofDigitChars_cons, Nat.mul_comm] at fits ⊢
    have small := Nat.le_trans (le_ofDigitChars _ rest) fits
    have below : ¬ maxUint / 10 + 1 ≤ n := by
      unfold maxUint at small ⊢
      omega
    rw [uintOf, if_neg (by simp [first]), if_neg below]
    exact (if_neg (Nat.not_lt.mpr small)).trans (ih later fits)

theorem atoi_formatInt {n : Nat} (h : n < cutoff) : atoi (formatInt n) = n := by
  have digits : (Nat.toDigits 10 n).all Char.isDigit = true :=
    List.all_eq_true.mpr fun c mem => Nat.isDigit_of_mem_toDigits (by decide) (by decide) mem
  have value : uintOf 0 (Nat.toDigits 10 n) = n := by
    rw [uintOf_digits digits, Nat.ofDigitChars_ten_toDigits]
    rw [Nat.ofDigitChars_ten_toDigits]
    unfold cutoff at h
    unfold maxUint
    omega
  have read : formatInt n = Nat.toDigits 10 n := rfl
  rw [read]
  unfold atoi
  split
  next rest same => exact absurd (head_digit n same) (by decide)
  next rest same => exact absurd (head_digit n same) (by decide)
  next => rw [value, if_neg (by omega)]

end Vidsilo.Library.Decimal
