import Mathlib.Data.Finset.Card
import Mathlib.Order.Interval.Finset.Nat

/-!
# Dates of the civil calendar as text

`parse` is Go's `time.Parse("2006-01-02", s)` with the error dropped: four, two and two digits, and
a day that the month has. `number` counts the days from the first of January of year zero. Nothing
here depends on the repository.
-/
namespace Vidsilo.Library.CivilDate

def isLeap (year : Nat) : Bool := year % 4 = 0 && (year % 100 ≠ 0 || year % 400 = 0)

def daysIn (month year : Nat) : Nat :=
  if month = 2 then if isLeap year then 29 else 28
  else if month = 4 ∨ month = 6 ∨ month = 9 ∨ month = 11 then 30
  else 31

@[ext]
structure Date where
  year : Nat
  month : Nat
  day : Nat
  isMonth : 1 ≤ month ∧ month ≤ 12
  isDay : 1 ≤ day ∧ day ≤ daysIn month year

def digit (c : Char) : Option Nat := if c.isDigit then some (c.toNat - '0'.toNat) else none

def number? (text : List Char) : Option Nat :=
  text.foldlM (fun n c => (digit c).map (n * 10 + ·)) 0

def parse : List Char → Option Date
  | [y₁, y₂, y₃, y₄, '-', m₁, m₂, '-', d₁, d₂] => do
    let year ← number? [y₁, y₂, y₃, y₄]
    let month ← number? [m₁, m₂]
    let day ← number? [d₁, d₂]
    if isMonth : 1 ≤ month ∧ month ≤ 12 then
      if isDay : 1 ≤ day ∧ day ≤ daysIn month year then some ⟨year, month, day, isMonth, isDay⟩
      else none
    else none
  | _ => none

/-- The days before a year. -/
def yearStart : Nat → Nat
  | 0 => 0
  | year + 1 => yearStart year + if isLeap year then 366 else 365

/-- The days of the year before a month. -/
def monthStart (year : Nat) : Nat → Nat
  | 0 => 0
  | month + 1 => monthStart year month + if month = 0 then 0 else daysIn month year

def Date.number (d : Date) : Nat := yearStart d.year + monthStart d.year d.month + (d.day - 1)

theorem monthStart_mono (year : Nat) {m m' : Nat} (h : m ≤ m') :
    monthStart year m ≤ monthStart year m' := by
  induction h with
  | refl => exact le_rfl
  | step _ ih => exact ih.trans (Nat.le_add_right _ _)

theorem yearStart_mono {y y' : Nat} (h : y ≤ y') : yearStart y ≤ yearStart y' := by
  induction h with
  | refl => exact le_rfl
  | step _ ih => exact ih.trans (Nat.le_add_right _ _)

theorem monthStart_end (year : Nat) :
    monthStart year 13 = if isLeap year then 366 else 365 := by
  cases leap : isLeap year with
  | true => simp [monthStart, daysIn, leap]
  | false => simp [monthStart, daysIn, leap]

/-- A date lies before the end of its month. -/
theorem Date.number_lt_month (d : Date) :
    d.number < yearStart d.year + monthStart d.year (d.month + 1) := by
  obtain ⟨first, last⟩ := d.isDay
  obtain ⟨month, -⟩ := d.isMonth
  have next : monthStart d.year (d.month + 1) =
      monthStart d.year d.month + daysIn d.month d.year := by
    rw [monthStart, if_neg (by omega)]
  rw [Date.number, next]
  omega

theorem Date.number_lt_year (d : Date) : d.number < yearStart (d.year + 1) := by
  have within := d.number_lt_month
  have later := monthStart_mono d.year (show d.month + 1 ≤ 13 by have := d.isMonth; omega)
  rw [monthStart_end] at later
  rw [yearStart]
  omega

theorem Date.yearStart_le_number (d : Date) : yearStart d.year ≤ d.number := by
  unfold Date.number
  omega

theorem Date.number_injective {d d' : Date} (h : d.number = d'.number) : d = d' := by
  have year : d.year = d'.year := by
    by_contra other
    rcases Nat.lt_or_gt_of_ne other with less | more
    · have before := d.number_lt_year
      have after := d'.yearStart_le_number
      have between : yearStart (d.year + 1) ≤ yearStart d'.year := yearStart_mono less
      omega
    · have before := d'.number_lt_year
      have after := d.yearStart_le_number
      have between : yearStart (d'.year + 1) ≤ yearStart d.year := yearStart_mono more
      omega
  have month : d.month = d'.month := by
    by_contra other
    have before := d.number_lt_month
    have before' := d'.number_lt_month
    rcases Nat.lt_or_gt_of_ne other with less | more
    · have between : monthStart d.year (d.month + 1) ≤ monthStart d.year d'.month :=
        monthStart_mono d.year less
      have after : yearStart d'.year + monthStart d'.year d'.month ≤ d'.number :=
        Nat.le_add_right _ _
      rw [year] at before between
      omega
    · have between : monthStart d'.year (d'.month + 1) ≤ monthStart d'.year d.month :=
        monthStart_mono d'.year more
      have after : yearStart d.year + monthStart d.year d.month ≤ d.number := Nat.le_add_right _ _
      rw [year] at after
      omega
  have day : d.day = d'.day := by
    have first := d.isDay.1
    have first' := d'.isDay.1
    unfold Date.number at h
    rw [year, month] at h
    omega
  exact Date.ext year month day

theorem digit_eq_some {c : Char} {n : Nat} (h : digit c = some n) : n < 10 ∧ c.toNat = n + 48 := by
  unfold digit at h
  split at h
  next isDigit =>
    have range : 48 ≤ c.toNat ∧ c.toNat ≤ 57 := Char.isDigit_iff_toNat.mp isDigit
    have value : c.toNat - 48 = n := Option.some.inj h
    omega
  · cases h

theorem digit_injective {c c' : Char} {n : Nat} (h : digit c = some n) (h' : digit c' = some n) :
    c = c' := Char.toNat_inj.mp ((digit_eq_some h).2.trans (digit_eq_some h').2.symm)

theorem number?_concat (text : List Char) (c : Char) :
    number? (text ++ [c]) = (number? text).bind fun n => (digit c).map (n * 10 + ·) := by
  rw [number?, number?, List.foldlM_append]
  simp only [List.foldlM_cons, List.foldlM_nil]
  cases text.foldlM (fun n c => (digit c).map (n * 10 + ·)) 0 with
  | none => rfl
  | some n => cases digit c <;> rfl

/-- The value of a number of known length determines its digits. -/
theorem number?_injective {text text' : List Char} {n : Nat} (length : text.length = text'.length)
    (h : number? text = some n) (h' : number? text' = some n) : text = text' := by
  induction text using List.reverseRecOn generalizing text' n with
  | nil => exact (List.eq_nil_of_length_eq_zero length.symm).symm
  | append_singleton init c ih =>
    rcases List.eq_nil_or_concat' text' with rfl | ⟨init', c', rfl⟩
    · simp at length
    · simp only [List.length_append, List.length_singleton, Nat.add_right_cancel_iff] at length
      rw [number?_concat] at h h'
      obtain ⟨high, ofInit, rest⟩ := Option.bind_eq_some_iff.mp h
      obtain ⟨low, ofLast, rfl⟩ := Option.map_eq_some_iff.mp rest
      obtain ⟨high', ofInit', rest'⟩ := Option.bind_eq_some_iff.mp h'
      obtain ⟨low', ofLast', same⟩ := Option.map_eq_some_iff.mp rest'
      have small := (digit_eq_some ofLast).1
      have small' := (digit_eq_some ofLast').1
      obtain rfl : high' = high := by omega
      obtain rfl : low' = low := by omega
      rw [ih length ofInit ofInit', digit_injective ofLast ofLast']

theorem parse_eq_some {text : List Char} {d : Date} (h : parse text = some d) :
    ∃ y m dd, text = y ++ '-' :: m ++ '-' :: dd ∧ y.length = 4 ∧ m.length = 2 ∧ dd.length = 2 ∧
      number? y = some d.year ∧ number? m = some d.month ∧ number? dd = some d.day := by
  unfold parse at h
  split at h
  next y₁ y₂ y₃ y₄ m₁ m₂ d₁ d₂ =>
    obtain ⟨year, isYear, h⟩ := Option.bind_eq_some_iff.mp h
    obtain ⟨month, isMonth, h⟩ := Option.bind_eq_some_iff.mp h
    obtain ⟨day, isDay, h⟩ := Option.bind_eq_some_iff.mp h
    split at h
    · split at h
      · obtain rfl := Option.some.inj h
        exact ⟨[y₁, y₂, y₃, y₄], [m₁, m₂], [d₁, d₂], rfl, rfl, rfl, rfl, isYear, isMonth, isDay⟩
      · cases h
    · cases h
  · cases h

/-- A date has one text. -/
theorem parse_injective {text text' : List Char} {d : Date} (h : parse text = some d)
    (h' : parse text' = some d) : text = text' := by
  obtain ⟨y, m, dd, rfl, ly, lm, ld, hy, hm, hd⟩ := parse_eq_some h
  obtain ⟨y', m', dd', rfl, ly', lm', ld', hy', hm', hd'⟩ := parse_eq_some h'
  rw [number?_injective (ly.trans ly'.symm) hy hy', number?_injective (lm.trans lm'.symm) hm hm',
    number?_injective (ld.trans ld'.symm) hd hd']

/-- The text is that of a date from one day number to another. -/
def within (first last : Nat) (text : List Char) : Bool :=
  (parse text).any fun d => first ≤ d.number && d.number ≤ last

/-- Different dates of a window are no more than its days. -/
theorem length_le_of_within {texts : List (List Char)} {first last : Nat} (nodup : texts.Nodup)
    (h : ∀ text ∈ texts, within first last text = true) : texts.length ≤ last + 1 - first := by
  let day (text : List Char) : Nat := (parse text).elim 0 Date.number
  have inside : ∀ text ∈ texts, ∃ d, parse text = some d ∧ first ≤ d.number ∧ d.number ≤ last := by
    intro text mem
    obtain ⟨d, parsed, range⟩ := (Option.any_eq_true _ _).mp (h text mem)
    simp only [Bool.and_eq_true, decide_eq_true_eq] at range
    exact ⟨d, parsed, range⟩
  have apart : (texts.map day).Nodup := by
    refine List.Nodup.map_on (fun text mem text' mem' same => ?_) nodup
    obtain ⟨d, parsed, -⟩ := inside text mem
    obtain ⟨d', parsed', -⟩ := inside text' mem'
    simp only [day, parsed, parsed', Option.elim] at same
    exact parse_injective parsed (Date.number_injective same ▸ parsed')
  have range : (texts.map day).toFinset ⊆ Finset.Icc first last := by
    intro n mem
    obtain ⟨text, isText, rfl⟩ := List.mem_map.mp (List.mem_toFinset.mp mem)
    obtain ⟨d, parsed, bounds⟩ := inside text isText
    simpa [day, parsed] using bounds
  have count := Finset.card_le_card range
  rwa [List.toFinset_card_of_nodup apart, List.length_map, Nat.card_Icc] at count

end Vidsilo.Library.CivilDate
