import Vidsilo.Queue.Table
import Mathlib.Tactic.Ring

/-!
# The delay before a retry

Source: internal/queue/queue.go:284-312 (`Fail`), 37-58 (`EnqueueAt`). The shift and the
multiplication wrap before the cap is applied, so the delay is right for a number of attempts
exactly when what is left of the product is still above the cap. From 55 attempts on nothing is
left: the product has the factor 2^64.
-/
namespace Vidsilo.Queue.Backoff
open Table

/-- `min(2^attempts, 300)` seconds. -/
def delay (attempts : Nat) : Int := min (2 ^ attempts) 300 * second

/-- The attempts after which the wrapped product is not below the delay. -/
def intact (attempts : Nat) : Bool :=
  attempts ≤ 33 || attempts ∈ [37, 41, 42, 45, 47, 50, 51, 53]

/-- What a job that has attempts left should wait when it fails. -/
structure Proper (attempts : Nat) (maxAttempts : Int) : Prop where
  capped : ∀ jobId errMsg now j,
    ((failWrite jobId errMsg attempts maxAttempts now).set j).runAt = now + delay attempts
  positive : 0 < backoff attempts
  bounded : backoff attempts ≤ 300 * second
  growing : attempts + 1 < maxAttempts → backoff attempts ≤ backoff (attempts + 1)

theorem delay_pos (attempts : Nat) : 0 < delay attempts := by
  have power : (0 : Int) < 2 ^ attempts := Int.pow_pos (by decide)
  unfold delay second
  omega

theorem delay_le (attempts : Nat) : delay attempts ≤ 300 * second := by
  unfold delay second
  omega

theorem delay_mono (attempts : Nat) : delay attempts ≤ delay (attempts + 1) := by
  have power : (0 : Int) < 2 ^ attempts := Int.pow_pos (by decide)
  unfold delay second
  rw [Int.pow_succ]
  omega

theorem backoff_wrapped {attempts : Nat} (h : 55 ≤ attempts) : backoff attempts = 0 := by
  have factor : ((2 ^ 64 : Nat) : Int) ∣ 2 ^ attempts * second := by
    obtain ⟨more, rfl⟩ := Nat.exists_eq_add_of_le h
    have split : second = 2 ^ 9 * 5 ^ 9 := by decide
    refine ⟨2 ^ more * 5 ^ 9, ?_⟩
    rw [split, Int.pow_add, Nat.cast_pow]
    ring
  have product : Int.bmod (2 ^ attempts * second) (2 ^ 64) = 0 :=
    Int.bmod_eq_zero_of_dvd factor
  have wrapped : Int.bmod (Int.bmod (2 ^ attempts) (2 ^ 64) * second) (2 ^ 64) = 0 := by
    rw [Int.bmod_mul_bmod, product]
  unfold backoff
  rw [wrapped, if_neg (by decide)]

/-- Where the product is not intact, too little of it is left. -/
theorem backoff_small : ∀ attempts < 55,
    if intact attempts then backoff attempts = delay attempts else backoff attempts < 0 := by
  decide +kernel

theorem backoff_intact {attempts : Nat} (h : intact attempts = true) :
    backoff attempts = delay attempts := by
  have small : attempts < 55 := by
    simp only [intact, Bool.or_eq_true, decide_eq_true_eq, List.mem_cons, List.not_mem_nil,
      or_false] at h
    omega
  have both := backoff_small attempts small
  rwa [if_pos h] at both

theorem backoff_lost {attempts : Nat} (h : intact attempts = false) : backoff attempts ≤ 0 := by
  by_cases small : attempts < 55
  · have both := backoff_small attempts small
    rw [h, if_neg Bool.false_ne_true] at both
    exact Int.le_of_lt both
  · exact le_of_eq (backoff_wrapped (Nat.le_of_not_lt small))

theorem backoff_eq_delay_iff (attempts : Nat) :
    backoff attempts = delay attempts ↔ intact attempts = true := by
  refine ⟨fun same => ?_, backoff_intact⟩
  by_contra lost
  have := backoff_lost (Bool.not_eq_true _ ▸ lost)
  have := delay_pos attempts
  omega

theorem runAt_failWrite {attempts : Nat} {maxAttempts : Int} (left : attempts < maxAttempts)
    (jobId : JobId) (errMsg : String) (now : Int) (j : Job) :
    ((failWrite jobId errMsg attempts maxAttempts now).set j).runAt = now + backoff attempts := by
  rw [failWrite, if_neg (Int.not_le.mpr left)]
  rfl

theorem Proper.intact {attempts : Nat} {maxAttempts : Int} (left : attempts < maxAttempts)
    (h : Proper attempts maxAttempts) : Backoff.intact attempts = true := by
  have waits := h.capped 0 "" 0 (enqueueAt .probe none none maxAttempts none 0)
  rw [runAt_failWrite left] at waits
  exact (backoff_eq_delay_iff attempts).mp (Int.add_left_cancel waits)

theorem Proper.next {attempts : Nat} {maxAttempts : Int} (h : Proper attempts maxAttempts)
    (more : attempts + 1 < maxAttempts) : Backoff.intact (attempts + 1) = true := by
  by_contra lost
  have := backoff_lost (Bool.not_eq_true _ ▸ lost)
  have := h.positive
  have := h.growing more
  omega

theorem proper_of_intact {attempts : Nat} {maxAttempts : Int} (left : attempts < maxAttempts)
    (here : intact attempts = true)
    (next : attempts + 1 < maxAttempts → intact (attempts + 1) = true) :
    Proper attempts maxAttempts := by
  have same := backoff_intact here
  constructor
  · intro jobId errMsg now j
    rw [runAt_failWrite left, same]
  · rw [same]
    exact delay_pos attempts
  · rw [same]
    exact delay_le attempts
  · intro more
    rw [same, backoff_intact (next more)]
    exact delay_mono attempts

/-- Of the bounds that `EnqueueAt` takes, those up to 34 never let a job come to an attempt whose
delay wraps. -/
theorem all_proper_iff (maxAttempts : Int) :
    (∀ attempts : Nat, attempts < maxAttempts → Proper attempts maxAttempts) ↔
      maxAttempts ≤ 34 := by
  constructor
  · intro all
    by_contra more
    have left : ((34 : Nat) : Int) < maxAttempts := Int.not_le.mp more
    exact absurd ((all 34 left).intact left) (by decide)
  · intro few attempts left
    refine proper_of_intact left ?_ fun more => ?_ <;>
      simp only [intact, Bool.or_eq_true, decide_eq_true_eq]
    · exact .inl (by omega)
    · exact .inl (by omega)

theorem retries_proper_iff (attempts : Nat) (maxAttempts : Int) (left : attempts < maxAttempts) :
    (Proper attempts maxAttempts ↔ intact attempts = true ∧
      (attempts + 1 < maxAttempts → intact (attempts + 1) = true)) ∧
    ((∀ n : Nat, n < maxAttempts → Proper n maxAttempts) ↔ maxAttempts ≤ 34) := by
  refine ⟨⟨fun h => ⟨h.intact left, h.next⟩, fun ⟨here, next⟩ => ?_⟩, all_proper_iff maxAttempts⟩
  exact proper_of_intact left here next

theorem retries_proper_iff_five : Proper 1 5 ∧ ∀ n : Nat, n < (5 : Int) → Proper n 5 := by
  obtain ⟨one, all⟩ := retries_proper_iff 1 5 (by decide)
  exact ⟨one.mpr ⟨by decide, fun _ => by decide⟩, all.mpr (by decide)⟩

/-- The row goes back with a `run_at` of forty years ago, and from 55 attempts on with `now()`. -/
theorem delay_wraps : ¬ Proper 34 35 ∧ backoff 34 = -1266874889709551616 ∧ backoff 55 = 0 := by
  refine ⟨fun h => ?_, by decide +kernel, by decide +kernel⟩
  exact absurd h.positive (by decide +kernel)

end Vidsilo.Queue.Backoff
