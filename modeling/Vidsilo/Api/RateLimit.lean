import Vidsilo.Library.KeyMap
import Vidsilo.Library.SlashPath
import Vidsilo.Library.TokenBucket
import Mathlib.Data.Rat.Floor

/-!
# The rate limiter

Source: internal/api/ratelimit.go:12-51. Times are nanoseconds on the monotonic clock of the
process, whose differences never leave the range of a `Duration`; the floats are exact rationals.
A call holds the mutex throughout. No bucket is ever removed.
-/
namespace Vidsilo.Api.RateLimit
open Library Library.SlashPath TokenBucket

abbrev Bucket := TokenBucket.Bucket Int ℚ

structure RateLimiter where
  buckets : KeyMap Text Bucket
  /-- Tokens per second. -/
  rate : ℚ
  burst : ℚ

def newRateLimiter (rate burst : ℚ) : RateLimiter := ⟨∅, rate, burst⟩

/-- `Duration.Seconds`. -/
def seconds (d : Int) : ℚ := d / 1000000000

def RateLimiter.set (l : RateLimiter) (key : Text) (b : Bucket) : RateLimiter :=
  { l with buckets := l.buckets.insert key b }

def RateLimiter.allow (l : RateLimiter) (key : Text) (now : Int) : Bool × RateLimiter :=
  match l.buckets.lookup key with
  | none => (true, l.set key ⟨l.burst - 1, now⟩)
  | some b =>
    let tokens := min (b.tokens + seconds (now - b.last) * l.rate) l.burst
    if tokens < 1 then (false, l.set key ⟨tokens, now⟩) else (true, l.set key ⟨tokens - 1, now⟩)

structure Call where
  key : Text
  now : Int
  deriving DecidableEq, Repr

def RateLimiter.after (l : RateLimiter) (calls : List Call) : RateLimiter :=
  calls.foldl (fun l c => (l.allow c.key c.now).2) l

/-- The calls with their answers. -/
def RateLimiter.results (l : RateLimiter) : List Call → List (Call × Bool)
  | [] => []
  | c :: rest => (c, (l.allow c.key c.now).1) :: (l.allow c.key c.now).2.results rest

/-- How many calls of a key are answered true in a window. -/
def RateLimiter.admitted (l : RateLimiter) (calls : List Call) (key : Text) (start stop : ℚ) : Nat :=
  (l.results calls).countP fun p =>
    decide (p.1.key = key) && decide (p.2 = true ∧ start ≤ seconds p.1.now ∧ seconds p.1.now ≤ stop)

structure Limited (l : RateLimiter) (calls : List Call) : Prop where
  bounded : ∀ key start stop, start ≤ stop →
    (l.admitted calls key start stop : ℚ) ≤ l.burst + l.rate * (stop - start)
  /-- Without a call that is refused, all the others have the same answers. -/
  free : ∀ before c rest, calls = before ++ c :: rest →
    ((l.after before).allow c.key c.now).1 = false →
      l.results (before ++ rest) = (l.results calls).eraseIdx before.length
  /-- Without the calls of other keys, those of one key have the same answers. -/
  apart : ∀ key, (l.results calls).filter (fun p => p.1.key = key) =
    l.results (calls.filter fun c => c.key = key)

theorem after_cons (l : RateLimiter) (c : Call) (calls : List Call) :
    l.after (c :: calls) = (l.allow c.key c.now).2.after calls := rfl

theorem results_append (l : RateLimiter) (xs ys : List Call) :
    l.results (xs ++ ys) = l.results xs ++ (l.after xs).results ys := by
  induction xs generalizing l with
  | nil => rfl
  | cons c xs ih => rw [List.cons_append, RateLimiter.results, ih, RateLimiter.results, after_cons,
      List.cons_append]

theorem length_results (l : RateLimiter) (calls : List Call) :
    (l.results calls).length = calls.length := by
  induction calls generalizing l with
  | nil => rfl
  | cons c calls ih => rw [RateLimiter.results, List.length_cons, List.length_cons, ih]

theorem seconds_sub (now last : Int) : seconds (now - last) = seconds now - seconds last := by
  rw [seconds, seconds, seconds, Int.cast_sub, sub_div]

theorem seconds_mono {a b : Int} (h : a ≤ b) : seconds a ≤ seconds b := by
  have cast : (a : ℚ) ≤ b := Int.cast_le.mpr h
  exact div_le_div_of_nonneg_right cast (by norm_num)

section
variable {rate burst : ℚ} (hrate : 0 ≤ rate) (hburst : 1 ≤ burst)

def rules : Rules Int ℚ := ⟨rate, burst, seconds, hrate, hburst, fun _ _ => seconds_mono⟩

def RateLimiter.bucket (l : RateLimiter) (key : Text) : Option Bucket := l.buckets.lookup key

/-- The limits of a limiter, which stay. -/
def Has (rate burst : ℚ) (l : RateLimiter) : Prop := l.rate = rate ∧ l.burst = burst

@[simp] theorem bucket_set_self (l : RateLimiter) (key : Text) (b : Bucket) :
    (l.set key b).bucket key = some b := AList.lookup_insert _

theorem bucket_set_other {l : RateLimiter} {key other : Text} (h : other ≠ key) (b : Bucket) :
    (l.set key b).bucket other = l.bucket other := AList.lookup_insert_ne h

theorem allow_eq {l : RateLimiter} (h : Has rate burst l) (key : Text) (now : Int) :
    l.allow key now = (((rules hrate hburst).take (l.bucket key) now).1,
      l.set key ((rules hrate hburst).take (l.bucket key) now).2) := by
  obtain ⟨isRate, isBurst⟩ := h
  unfold RateLimiter.allow RateLimiter.bucket
  cases l.buckets.lookup key with
  | none => rw [isBurst]; rfl
  | some b =>
    have level : (rules hrate hburst).level b now =
        min (b.tokens + seconds (now - b.last) * rate) burst := by
      rw [seconds_sub]
      rfl
    dsimp only [Rules.take]
    rw [level, isRate, isBurst, takeAt]
    split <;> rfl

theorem Has.set {l : RateLimiter} (h : Has rate burst l) (key : Text) (b : Bucket) :
    Has rate burst (l.set key b) := h

/-- The times of the calls of a key. -/
def times (key : Text) (calls : List Call) : List Int :=
  (calls.filter fun c => c.key = key).map (·.now)

theorem times_own (c : Call) (rest : List Call) :
    times c.key (c :: rest) = c.now :: times c.key rest := by
  rw [times, List.filter_cons_of_pos (by simp)]
  rfl

theorem times_other {c : Call} {key : Text} (h : c.key ≠ key) (rest : List Call) :
    times key (c :: rest) = times key rest := by
  rw [times, List.filter_cons_of_neg (by simpa using h)]
  rfl

theorem admitted_eq {l : RateLimiter} (h : Has rate burst l) (calls : List Call) (key : Text)
    (start stop : ℚ) : l.admitted calls key start stop =
      (rules hrate hburst).admitted start stop (l.bucket key) (times key calls) := by
  induction calls generalizing l with
  | nil => rfl
  | cons c rest ih =>
    have call := allow_eq hrate hburst h c.key c.now
    have later := ih (h.set c.key ((rules hrate hburst).take (l.bucket c.key) c.now).2)
    rw [RateLimiter.admitted] at later ⊢
    rw [RateLimiter.results, call, List.countP_cons, later]
    by_cases own : c.key = key
    · subst own
      rw [times_own, Rules.admitted, bucket_set_self, Nat.add_comm]
      simp only [decide_true, Bool.true_and, decide_eq_true_eq]
      rfl
    · rw [times_other own, bucket_set_other (Ne.symm own), if_neg (by simp [own]), Nat.add_zero]

include hrate hburst in
theorem bounded {calls : List Call} (sorted : calls.Pairwise (·.now ≤ ·.now)) (key : Text)
    {start stop : ℚ} (window : start ≤ stop) :
    ((newRateLimiter rate burst).admitted calls key start stop : ℚ) ≤
      burst + rate * (stop - start) := by
  have ordered : (times key calls).Pairwise (· ≤ ·) :=
    List.pairwise_map.mpr (sorted.sublist List.filter_sublist)
  rw [admitted_eq hrate hburst ⟨rfl, rfl⟩]
  exact (rules hrate hburst).admitted_le window none ordered fun b mem => by cases mem

/-- From a time on, the two cannot be told apart. -/
structure Same (now : Int) (l l' : RateLimiter) : Prop where
  left : Has rate burst l
  right : Has rate burst l'
  takes : ∀ key later, now ≤ later → (rules hrate hburst).take (l.bucket key) later =
    (rules hrate hburst).take (l'.bucket key) later

theorem Same.allow {now later : Int} {l l' : RateLimiter} (h : Same hrate hburst now l l')
    (after : now ≤ later) (key : Text) : (l.allow key later).1 = (l'.allow key later).1 ∧
      Same hrate hburst later (l.allow key later).2 (l'.allow key later).2 := by
  have takes := h.takes key later after
  rw [allow_eq hrate hburst h.left, allow_eq hrate hburst h.right, takes]
  refine ⟨rfl, h.left, h.right, fun other next since => ?_⟩
  by_cases own : other = key
  · subst own
    rw [bucket_set_self, bucket_set_self]
  · rw [bucket_set_other own, bucket_set_other own]
    exact h.takes other next (le_trans after since)

theorem Same.results {now : Int} {l l' : RateLimiter} {calls : List Call}
    (h : Same hrate hburst now l l') (sorted : calls.Pairwise (·.now ≤ ·.now))
    (later : ∀ c ∈ calls, now ≤ c.now) : l.results calls = l'.results calls := by
  induction calls generalizing now l l' with
  | nil => rfl
  | cons c rest ih =>
    obtain ⟨answer, next⟩ := h.allow hrate hburst (later c List.mem_cons_self) c.key
    have others := (List.pairwise_cons.mp sorted).1
    rw [RateLimiter.results, RateLimiter.results, answer, ih next sorted.of_cons others]

theorem same_refused {l : RateLimiter} (h : Has rate burst l) {key : Text} {now : Int}
    (refused : (l.allow key now).1 = false) :
    Same hrate hburst now (l.allow key now).2 l := by
  rw [allow_eq hrate hburst h] at refused ⊢
  refine ⟨h, h, fun other later since => ?_⟩
  by_cases own : other = key
  · subst own
    rw [bucket_set_self]
    cases isBucket : l.bucket other with
    | none =>
      rw [isBucket] at refused
      cases refused
    | some b =>
      rw [isBucket] at refused
      exact congrArg (takeAt · later) ((rules hrate hburst).level_refused refused since)
  · rw [bucket_set_other own]

include hrate hburst in
theorem has_after {l : RateLimiter} (h : Has rate burst l) (calls : List Call) :
    Has rate burst (l.after calls) := by
  induction calls generalizing l with
  | nil => exact h
  | cons c rest ih =>
    rw [after_cons, allow_eq hrate hburst h]
    exact ih (h.set c.key _)

include hrate hburst in
theorem free {l : RateLimiter} (h : Has rate burst l) {before rest : List Call} {c : Call}
    (sorted : (before ++ c :: rest).Pairwise (·.now ≤ ·.now))
    (refused : ((l.after before).allow c.key c.now).1 = false) :
    l.results (before ++ rest) = (l.results (before ++ c :: rest)).eraseIdx before.length := by
  have ordered := (List.pairwise_append.mp sorted).2.1
  have same := same_refused hrate hburst (has_after hrate hburst h before) refused
  have answers := same.results hrate hburst ordered.of_cons (List.pairwise_cons.mp ordered).1
  rw [results_append, results_append, RateLimiter.results, ← answers,
    List.eraseIdx_append_of_length_le (length_results l before).le, length_results, Nat.sub_self,
    List.eraseIdx_cons_zero]

include hrate hburst in
theorem apart {l l' : RateLimiter} (h : Has rate burst l) (h' : Has rate burst l') {key : Text}
    (same : l.bucket key = l'.bucket key) (calls : List Call) :
    (l.results calls).filter (fun p => p.1.key = key) =
      l'.results (calls.filter fun c => c.key = key) := by
  induction calls generalizing l l' with
  | nil => rfl
  | cons c rest ih =>
    have call := allow_eq hrate hburst h c.key c.now
    rw [RateLimiter.results, call]
    by_cases own : c.key = key
    · subst own
      have call' := allow_eq hrate hburst h' c.key c.now
      rw [List.filter_cons_of_pos (by simp), List.filter_cons_of_pos (by simp),
        RateLimiter.results, call', same]
      exact congrArg _ (ih (h.set _ _) (h'.set _ _) (by rw [bucket_set_self, bucket_set_self]))
    · rw [List.filter_cons_of_neg (by simpa using own), List.filter_cons_of_neg (by simpa using own)]
      exact ih (h.set _ _) h' (by rw [bucket_set_other (Ne.symm own), same])

end

theorem allow_limited (rate burst : ℚ) (hrate : 0 ≤ rate) (hburst : 1 ≤ burst) (calls : List Call)
    (sorted : calls.Pairwise (·.now ≤ ·.now)) : Limited (newRateLimiter rate burst) calls where
  bounded key _ _ window := bounded hrate hburst sorted key window
  free before c rest split refused := by
    subst split
    exact free hrate hburst ⟨rfl, rfl⟩ sorted refused
  apart _ := apart hrate hburst ⟨rfl, rfl⟩ ⟨rfl, rfl⟩ rfl calls

/-- Three calls at once, one of another address, and one two seconds later. -/
def twoAddresses : List Call :=
  [⟨"10.0.0.1".toList, 0⟩, ⟨"10.0.0.1".toList, 0⟩, ⟨"10.0.0.1".toList, 0⟩, ⟨"10.0.0.2".toList, 0⟩,
    ⟨"10.0.0.1".toList, 2000000000⟩]

theorem allow_limited_twoAddresses : Limited (newRateLimiter (1 / 2) 2) twoAddresses :=
  allow_limited _ _ (by norm_num) (by norm_num) _ (by decide +kernel)

example : ((newRateLimiter (1 / 2) 2).results twoAddresses).map (·.2) =
    [true, true, false, true, true] := by decide +kernel

end Vidsilo.Api.RateLimit
