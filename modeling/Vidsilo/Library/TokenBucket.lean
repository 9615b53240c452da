import Mathlib.Algebra.Order.Field.Basic
import Mathlib.Tactic.Linarith
import Mathlib.Tactic.Ring

/-!
# Token buckets

A bucket is filled at a constant rate up to its burst, and a call takes a token from it if there is
one. There is no bucket before the first call. `admitted_le` bounds what is admitted in any window
of time. Times are read on a clock with values in an ordered field. Nothing here depends on the
repository.
-/
namespace Vidsilo.Library.TokenBucket

structure Rules (T K : Type) [LinearOrder T] [Field K] [LinearOrder K] [IsStrictOrderedRing K] where
  rate : K
  burst : K
  /-- The reading at a time. -/
  clock : T → K
  rate_nonneg : 0 ≤ rate
  one_le_burst : 1 ≤ burst
  monotone : Monotone clock

@[ext]
structure Bucket (T K : Type) where
  tokens : K
  last : T

section
variable {T K : Type} [Field K] [LinearOrder K]

/-- A call that finds a level. -/
def takeAt (level : K) (now : T) : Bool × Bucket T K :=
  if level < 1 then (false, ⟨level, now⟩) else (true, ⟨level - 1, now⟩)

@[simp] theorem takeAt_last (level : K) (now : T) : (takeAt level now).2.last = now := by
  unfold takeAt
  split <;> rfl

/-- What is admitted is taken from the bucket. -/
theorem takeAt_tokens (level : K) (now : T) :
    (takeAt level now).2.tokens = level - if (takeAt level now).1 = true then 1 else 0 := by
  unfold takeAt
  split <;> simp

theorem takeAt_refused {level : K} {now : T} (h : (takeAt level now).1 = false) :
    (takeAt level now).2 = ⟨level, now⟩ := by
  unfold takeAt at h ⊢
  split at h
  · next less => rw [if_pos less]
  · cases h

theorem takeAt_nonneg [IsStrictOrderedRing K] {level : K} (h : 0 ≤ level) (now : T) :
    0 ≤ (takeAt level now).2.tokens := by
  unfold takeAt
  split
  · exact h
  · next enough => exact sub_nonneg.mpr (not_lt.mp enough)

end

variable {T K : Type} [LinearOrder T] [Field K] [LinearOrder K] [IsStrictOrderedRing K]

namespace Rules

/-- The tokens of a bucket at a later time. -/
def level (r : Rules T K) (b : Bucket T K) (now : T) : K :=
  min (b.tokens + (r.clock now - r.clock b.last) * r.rate) r.burst

def take (r : Rules T K) (b : Option (Bucket T K)) (now : T) : Bool × Bucket T K :=
  match b with
  | none => (true, ⟨r.burst - 1, now⟩)
  | some b => takeAt (r.level b now) now

/-- How many calls are admitted in a window. -/
def admitted (r : Rules T K) (start stop : K) : Option (Bucket T K) → List T → Nat
  | _, [] => 0
  | b, now :: rest =>
    (if (r.take b now).1 = true ∧ start ≤ r.clock now ∧ r.clock now ≤ stop then 1 else 0) +
      r.admitted start stop (some (r.take b now).2) rest

theorem take_last (r : Rules T K) (b : Option (Bucket T K)) (now : T) :
    (r.take b now).2.last = now := by
  cases b with
  | none => rfl
  | some b => exact takeAt_last _ _

theorem filled_nonneg (r : Rules T K) {before now : T} (h : before ≤ now) :
    0 ≤ (r.clock now - r.clock before) * r.rate :=
  mul_nonneg (sub_nonneg.mpr (r.monotone h)) r.rate_nonneg

/-- Nothing is taken that the burst does not hold. -/
theorem take_le_burst (r : Rules T K) (b : Option (Bucket T K)) (now : T) :
    (r.take b now).2.tokens + (if (r.take b now).1 = true then 1 else 0) ≤ r.burst := by
  cases b with
  | none => exact le_of_eq (sub_add_cancel _ _)
  | some b =>
    have taken : (r.take (some b) now).2.tokens =
        r.level b now - if (r.take (some b) now).1 = true then 1 else 0 := takeAt_tokens _ _
    rw [taken, sub_add_cancel]
    exact min_le_right _ _

theorem level_nonneg (r : Rules T K) {b : Bucket T K} {now : T} (h : 0 ≤ b.tokens)
    (later : b.last ≤ now) : 0 ≤ r.level b now := by
  have filled := r.filled_nonneg later
  have burst := r.one_le_burst
  exact le_min (by linarith) (by linarith)

theorem take_nonneg (r : Rules T K) {b : Option (Bucket T K)} {now : T}
    (h : ∀ b' ∈ b, 0 ≤ b'.tokens ∧ b'.last ≤ now) : 0 ≤ (r.take b now).2.tokens := by
  cases b with
  | none => exact sub_nonneg.mpr r.one_le_burst
  | some b =>
    obtain ⟨nonneg, later⟩ := h b rfl
    exact takeAt_nonneg (r.level_nonneg nonneg later) now

/-- A refused call leaves the levels of all later times. -/
theorem level_refused (r : Rules T K) {b : Bucket T K} {now later : T}
    (refused : (r.take (some b) now).1 = false) (after : now ≤ later) :
    r.level (r.take (some b) now).2 later = r.level b later := by
  have filled := r.filled_nonneg after
  have left : (r.take (some b) now).2 = ⟨r.level b now, now⟩ := takeAt_refused refused
  rw [left]
  unfold level
  dsimp only
  rcases le_total (b.tokens + (r.clock now - r.clock b.last) * r.rate) r.burst with low | high
  · rw [min_eq_left low]
    congr 1
    ring
  · rw [min_eq_right high, min_eq_right (by linarith), min_eq_right]
    linarith

/-- No call after the window is admitted in it. -/
theorem admitted_after (r : Rules T K) {start stop : K} (b : Option (Bucket T K)) {times : List T}
    (h : ∀ now ∈ times, stop < r.clock now) : r.admitted start stop b times = 0 := by
  induction times generalizing b with
  | nil => rfl
  | cons now rest ih =>
    have outside := not_le.mpr (h now List.mem_cons_self)
    rw [admitted, if_neg (fun inside => outside inside.2.2),
      ih _ fun later mem => h later (List.mem_cons_of_mem _ mem)]

theorem outside_of_sorted (r : Rules T K) {stop : K} {now : T} {rest : List T}
    (sorted : (now :: rest).Pairwise (· ≤ ·)) (outside : ¬ r.clock now ≤ stop) :
    ∀ next ∈ now :: rest, stop < r.clock next := by
  intro next mem
  rcases List.mem_cons.mp mem with rfl | mem
  · exact not_le.mp outside
  · exact lt_of_lt_of_le (not_le.mp outside)
      (r.monotone ((List.pairwise_cons.mp sorted).1 next mem))

/-- A window that is open already: what is admitted has been in the bucket or fills it. -/
theorem admitted_open_le (r : Rules T K) {start stop : K} (b : Bucket T K) {times : List T}
    (sorted : times.Pairwise (· ≤ ·)) (later : ∀ now ∈ times, b.last ≤ now) (h : 0 ≤ b.tokens)
    (opened : start ≤ r.clock b.last) (open' : r.clock b.last ≤ stop) :
    (r.admitted start stop (some b) times : K) ≤
      b.tokens + r.rate * (stop - r.clock b.last) := by
  induction times generalizing b with
  | nil =>
    have filled := mul_nonneg r.rate_nonneg (sub_nonneg.mpr open')
    rw [admitted, Nat.cast_zero]
    linarith
  | cons now rest ih =>
    have after := later now List.mem_cons_self
    have isLast := r.take_last (some b) now
    by_cases inside : r.clock now ≤ stop
    · have rest_le := ih (r.take (some b) now).2 sorted.of_cons
        (by rw [isLast]; exact (List.pairwise_cons.mp sorted).1)
        (r.take_nonneg fun b' mem => by cases mem; exact ⟨h, after⟩)
        (by rw [isLast]; exact le_trans opened (r.monotone after)) (by rwa [isLast])
      have taken : (r.take (some b) now).2.tokens =
          r.level b now - if (r.take (some b) now).1 = true then 1 else 0 := takeAt_tokens _ _
      have level_le : r.level b now ≤ b.tokens + (r.clock now - r.clock b.last) * r.rate :=
        min_le_left _ _
      have counted : (r.take (some b) now).1 = true ∧ start ≤ r.clock now ∧ r.clock now ≤ stop ↔
          (r.take (some b) now).1 = true :=
        ⟨fun all => all.1, fun yes => ⟨yes, le_trans opened (r.monotone after), inside⟩⟩
      rw [isLast, taken] at rest_le
      rw [admitted, Nat.cast_add]
      simp only [counted, Nat.cast_ite, Nat.cast_one, Nat.cast_zero]
      linarith
    · have filled := mul_nonneg r.rate_nonneg (sub_nonneg.mpr open')
      rw [r.admitted_after _ (r.outside_of_sorted sorted inside), Nat.cast_zero]
      linarith

/-- In any window, from any bucket. -/
theorem admitted_le (r : Rules T K) {start stop : K} (window : start ≤ stop)
    (b : Option (Bucket T K)) {times : List T} (sorted : times.Pairwise (· ≤ ·))
    (h : ∀ b' ∈ b, 0 ≤ b'.tokens ∧ ∀ now ∈ times, b'.last ≤ now) :
    (r.admitted start stop b times : K) ≤ r.burst + r.rate * (stop - start) := by
  have filled := mul_nonneg r.rate_nonneg (sub_nonneg.mpr window)
  have burst := r.one_le_burst
  induction times generalizing b with
  | nil =>
    rw [admitted, Nat.cast_zero]
    linarith
  | cons now rest ih =>
    have isLast := r.take_last b now
    have nonneg : 0 ≤ (r.take b now).2.tokens := r.take_nonneg fun b' mem =>
      ⟨(h b' mem).1, (h b' mem).2 now List.mem_cons_self⟩
    have later : ∀ next ∈ rest, (r.take b now).2.last ≤ next := by
      rw [isLast]
      exact (List.pairwise_cons.mp sorted).1
    by_cases opened : start ≤ r.clock now
    · by_cases inside : r.clock now ≤ stop
      · have rest_le : (r.admitted start stop (some (r.take b now).2) rest : K) ≤ _ :=
          r.admitted_open_le (r.take b now).2 sorted.of_cons later nonneg
            (by rwa [isLast]) (by rwa [isLast])
        have spent := r.take_le_burst b now
        have since := mul_le_mul_of_nonneg_left (sub_le_sub_left opened stop) r.rate_nonneg
        rw [isLast] at rest_le
        rw [admitted, Nat.cast_add]
        simp only [opened, inside, and_self, and_true, Nat.cast_ite, Nat.cast_one, Nat.cast_zero]
        linarith
      · rw [r.admitted_after _ (r.outside_of_sorted sorted inside), Nat.cast_zero]
        linarith
    · rw [admitted, if_neg fun inside => opened inside.2.1, Nat.zero_add]
      exact ih (some (r.take b now).2) sorted.of_cons fun b' mem => by
        cases mem
        exact ⟨nonneg, later⟩

end Rules

end Vidsilo.Library.TokenBucket
