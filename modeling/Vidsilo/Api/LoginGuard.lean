import Vidsilo.Api.Sessions
import Vidsilo.Library.KeyMap

/-!
# The guard of the sign-ins and the size of its maps

Source: internal/api/auth.go:28-94 (`loginGuard`). `fold` stands for `strings.ToLower`. A method
holds the lock of the guard, so it is one step, and it reads one time.
-/
namespace Vidsilo.Api.LoginGuard
open Library Library.KeyMap Library.SlashPath Library.Transition Sessions

def loginMaxFailures : Int := 5

/-- Ten minutes. -/
def loginLockout : Time := 10 * 60 * 1000000000

structure Guard where
  failures : KeyMap Text Int
  lockedAt : KeyMap Text Time

namespace Guard

def empty : Guard := ⟨∅, ∅⟩

/-- `loginLockout - time.Since(at) <= 0`. -/
def ranOut (now locked : Time) : Bool := loginLockout - (now - locked) ≤ 0

/-- The entries of both maps. -/
def entries (g : Guard) : Nat := size g.failures + size g.lockedAt

def prune (g : Guard) (now : Time) : Guard :=
  if g.entries < 10000 then g
  else
    let counted := keep g.failures fun _ n => !decide (n ≤ 0)
    ⟨keep counted fun key _ => !(g.lockedAt.lookup key).any (ranOut now),
      keep g.lockedAt fun _ locked => !ranOut now locked⟩

section Methods
variable (fold : Text → Text)

/-- The time left, when the key is locked out. -/
def locked (g : Guard) (now : Time) (email : Text) : Option Time × Guard :=
  let g := g.prune now
  match g.lockedAt.lookup (fold email) with
  | none => (none, g)
  | some locked =>
    let left := loginLockout - (now - locked)
    if 0 < left then (some left, g)
    else (none, ⟨g.failures.erase (fold email), g.lockedAt.erase (fold email)⟩)

def failure (g : Guard) (now : Time) (email : Text) : Guard :=
  let g := g.prune now
  let key := fold email
  let n := (g.failures.lookup key).getD 0 + 1
  let failures := g.failures.insert key n
  if loginMaxFailures ≤ n then ⟨failures.erase key, g.lockedAt.insert key now⟩
  else ⟨failures, g.lockedAt⟩

def success (g : Guard) (email : Text) : Guard :=
  ⟨g.failures.erase (fold email), g.lockedAt.erase (fold email)⟩

end Methods

/-- A counter that is held counts between one failure and four. -/
def Counted (g : Guard) : Prop :=
  ∀ key, ∀ n ∈ g.failures.lookup key, 1 ≤ n ∧ n < loginMaxFailures

theorem counted_empty : empty.Counted := by
  intro key n held
  cases held

theorem sublist_prune_failures (g : Guard) (now : Time) :
    (g.prune now).failures.entries.Sublist g.failures.entries := by
  unfold prune
  split
  · exact List.Sublist.refl _
  · exact List.filter_sublist.trans List.filter_sublist

/-- Either the maps are small, or no lock that has run out is left. -/
theorem prune_cases (g : Guard) (now : Time) :
    (g.entries < 10000 ∧ g.prune now = g) ∨
      count (g.prune now).lockedAt (fun _ => ranOut now) = 0 := by
  unfold prune
  split
  next small => exact .inl ⟨small, rfl⟩
  next large =>
    right
    exact count_keep_not g.lockedAt fun _ => ranOut now

theorem lookup_prune_failures_le (g : Guard) (now : Time) {key : Text} {n : Int}
    (h : n ∈ (g.prune now).failures.lookup key) : n ∈ g.failures.lookup key := by
  unfold prune at h
  split at h
  · exact h
  · simp only [lookup_keep, Option.mem_filter_iff] at h
    exact h.1.1

/-- The counters count at least one failure, so that `prune` removes only those of keys whose lock
has run out. -/
theorem lookup_prune_failures {g : Guard} (counted : g.Counted) (now : Time) {key : Text}
    (unlocked : (g.lockedAt.lookup key).any (ranOut now) = false) :
    (g.prune now).failures.lookup key = g.failures.lookup key := by
  unfold prune
  split
  · rfl
  · simp only [lookup_keep, unlocked, Bool.not_false]
    cases held : g.failures.lookup key with
    | none => rfl
    | some n =>
      have positive := (counted key n held).1
      have stays : ¬ n ≤ 0 := by omega
      simp [stays]

theorem counted_prune {g : Guard} (h : g.Counted) (now : Time) : (g.prune now).Counted :=
  fun key n held => h key n (g.lookup_prune_failures_le now held)

theorem counted_erase {g : Guard} (h : g.Counted) (key : Text) (lockedAt : KeyMap Text Time) :
    Counted ⟨g.failures.erase key, lockedAt⟩ := by
  intro key' n held
  by_cases same : key' = key
  · subst same
    simp [AList.lookup_erase] at held
  · exact h key' n (by simpa [AList.lookup_erase_ne same] using held)

variable {fold : Text → Text}

theorem counted_locked {g : Guard} (h : g.Counted) (now : Time) (email : Text) :
    (g.locked fold now email).2.Counted := by
  have pruned := counted_prune h now
  simp only [locked]
  generalize g.prune now = g' at pruned
  split
  · exact pruned
  · split
    · exact pruned
    · exact counted_erase pruned _ _

theorem counted_failure {g : Guard} (h : g.Counted) (now : Time) (email : Text) :
    (g.failure fold now email).Counted := by
  have pruned := counted_prune h now
  unfold failure
  dsimp only
  generalize g.prune now = g' at pruned
  generalize fold email = key
  split
  · intro key' n held
    by_cases same : key' = key
    · subst same
      simp [AList.lookup_erase] at held
    · rw [AList.lookup_erase_ne same, AList.lookup_insert_ne same] at held
      exact pruned key' n held
  next below =>
    intro key' n held
    by_cases same : key' = key
    · subst same
      rw [AList.lookup_insert, Option.mem_some_iff] at held
      subst held
      refine ⟨?_, by omega⟩
      cases counter : g'.failures.lookup key' with
      | none => exact Int.le_refl 1
      | some n =>
        have positive := (pruned key' n counter).1
        simp only [Option.getD_some]
        omega
    · rw [AList.lookup_insert_ne same] at held
      exact pruned key' n held

theorem counted_success {g : Guard} (h : g.Counted) (email : Text) :
    (g.success fold email).Counted :=
  counted_erase h _ _

/-- The entries that do not lock a key out: counters, and locks that have run out. -/
def loose (g : Guard) (now : Time) : Nat :=
  size g.failures + count g.lockedAt fun _ => ranOut now

/-- The keys locked out. -/
def lockedOut (g : Guard) (now : Time) : Nat := count g.lockedAt fun _ locked => !ranOut now locked

theorem entries_eq (g : Guard) (now : Time) : g.entries = g.loose now + g.lockedOut now := by
  have parts := size_eq_count g.lockedAt fun _ => ranOut now
  simp only [entries, loose, lockedOut]
  omega

theorem ranOut_now (now : Time) : ranOut now now = false := by
  simp only [ranOut, Int.sub_self, Int.sub_zero, decide_eq_false_iff_not]
  decide

theorem loose_prune_le {g : Guard} (now : Time) (few : size g.failures ≤ 10000) :
    (g.prune now).loose now ≤ 10000 := by
  rcases g.prune_cases now with ⟨small, same⟩ | clean
  · have parts := g.entries_eq now
    rw [same]
    omega
  · have fewer : size (g.prune now).failures ≤ size g.failures :=
      (g.sublist_prune_failures now).length_le
    simp only [loose]
    omega

/-- A counter is there already, or there is room for it. -/
def hasRoom (g : Guard) (key : Text) : Prop := key ∈ g.failures ∨ size g.failures < 10000

theorem size_insert_room {g : Guard} {key : Text} (n : Int) (few : size g.failures ≤ 10000)
    (room : g.hasRoom key) : size (g.failures.insert key n) ≤ 10000 := by
  by_cases held : key ∈ g.failures
  · rw [size_insert_mem held]
    exact few
  · rw [size_insert_new held]
    rcases room with old | below
    · exact absurd old held
    · omega

theorem loose_locked (fold : Text → Text) {g : Guard} (now : Time) (email : Text)
    (few : size g.failures ≤ 10000) : (g.locked fold now email).2.loose now ≤ 10000 := by
  have pruned := loose_prune_le now few
  simp only [locked]
  generalize g.prune now = g' at pruned
  split
  · exact pruned
  · split
    · exact pruned
    · have fewer := size_erase_le g'.failures (fold email)
      have fewerLocks := count_erase_le g'.lockedAt (fold email) fun _ => ranOut now
      simp only [loose] at pruned ⊢
      omega

theorem loose_failure (fold : Text → Text) {g : Guard} (now : Time) (email : Text)
    (few : size g.failures ≤ 10000)
    (room : (g.prune now).hasRoom (fold email)) :
    (g.failure fold now email).loose now ≤ 10000 := by
  have fewer : size (g.prune now).failures ≤ size g.failures :=
    (g.sublist_prune_failures now).length_le
  have fits := fun n => size_insert_room n (Nat.le_trans fewer few) room
  have cases := g.prune_cases now
  have parts := g.entries_eq now
  simp only [failure]
  generalize fold email = key at fits
  generalize ((g.prune now).failures.lookup key).getD 0 + 1 = n
  have grown := size_insert_le (g.prune now).failures key n
  have erased := size_erase_le ((g.prune now).failures.insert key n) key
  have locks := count_insert_le (g.prune now).lockedAt (a := key) (p := fun _ => ranOut now)
    (ranOut_now now)
  have fits := fits n
  split
  · rcases cases with ⟨small, same⟩ | clean
    · rw [same] at grown erased locks ⊢
      simp only [loose] at parts ⊢
      omega
    · simp only [loose]
      omega
  · rcases cases with ⟨small, same⟩ | clean
    · rw [same] at grown ⊢
      simp only [loose] at parts ⊢
      omega
    · simp only [loose]
      omega

theorem loose_success (fold : Text → Text) (g : Guard) (now : Time) (email : Text) :
    (g.success fold email).loose now ≤ g.loose now := by
  have fewer := size_erase_le g.failures (fold email)
  have fewerLocks := count_erase_le g.lockedAt (fold email) fun _ => ranOut now
  simp only [success, loose]
  omega

end Guard

structure Watched where
  guard : Guard
  now : Time

/-- Time that passes, and the calls. -/
inductive Action where
  | elapse (d : Nat)
  | locked (email : Text)
  | failure (email : Text)
  | success (email : Text)
  deriving DecidableEq, Repr

def step (fold : Text → Text) (s : Watched) : Action → Option Watched
  | .elapse d => some { s with now := s.now + d }
  | .locked email => some { s with guard := (s.guard.locked fold s.now email).2 }
  | .failure email => some { s with guard := s.guard.failure fold s.now email }
  | .success email => some { s with guard := s.guard.success fold email }

def begin (now : Time) : Watched := ⟨.empty, now⟩

/-- The maps hold no more than ten thousand entries and the keys that are locked out. -/
def Bounded (s : Watched) : Prop := s.guard.entries ≤ 10000 + s.guard.lockedOut s.now

/-- Whatever is called, the maps stay bounded. -/
def StaysBounded (fold : Text → Text) : Prop :=
  ∀ t trace s, Run (step fold) Always (begin t) trace s → Bounded s

/-- Some lock that holds runs out within the time. -/
def Guard.runsOut (g : Guard) (now : Time) (d : Nat) : Prop :=
  ∃ e ∈ g.lockedAt.entries, ranOut now e.2 = false ∧ ranOut (now + d) e.2 = true

/-- A failure counts for a key with a counter, or `prune` leaves room for one more; no lock runs
out while the maps hold more than ten thousand entries. -/
def Spares (fold : Text → Text) (s : Watched) : Action → Prop
  | .elapse d => s.guard.runsOut s.now d → s.guard.entries ≤ 10000
  | .failure email => (s.guard.prune s.now).hasRoom (fold email)
  | .locked _ | .success _ => True

theorem bounded_iff (s : Watched) : Bounded s ↔ s.guard.loose s.now ≤ 10000 := by
  have parts := s.guard.entries_eq s.now
  unfold Bounded
  omega

/-- Time adds the locks that run out to what locks nobody out. -/
theorem loose_elapse {g : Guard} {now : Time} {d : Nat} (few : g.loose now ≤ 10000)
    (spares : g.runsOut now d → g.entries ≤ 10000) : g.loose (now + d) ≤ 10000 := by
  by_cases runsOut : g.runsOut now d
  · have parts := g.entries_eq (now + d)
    have small := spares runsOut
    omega
  · have same : (count g.lockedAt fun _ => Guard.ranOut (now + d)) ≤
        count g.lockedAt fun _ => Guard.ranOut now := by
      apply List.countP_mono_left
      intro e mem gone
      by_contra holds
      exact runsOut ⟨e, mem, Bool.eq_false_iff.mpr holds, gone⟩
    simp only [Guard.loose] at few ⊢
    omega

theorem spares_step {fold : Text → Text} {s s' : Watched} {a : Action}
    (few : s.guard.loose s.now ≤ 10000) (spares : Spares fold s a)
    (taken : step fold s a = some s') : s'.guard.loose s'.now ≤ 10000 := by
  have fewCounters : size s.guard.failures ≤ 10000 := Nat.le_trans (Nat.le_add_right _ _) few
  cases a with
  | elapse d =>
    cases taken
    exact loose_elapse few spares
  | locked email =>
    cases taken
    exact Guard.loose_locked fold _ email fewCounters
  | failure email =>
    cases taken
    exact Guard.loose_failure fold _ email fewCounters spares
  | success email =>
    cases taken
    exact Nat.le_trans (Guard.loose_success fold _ _ email) few

/-- In every run in which no counter is opened beyond the ten thousandth, and no lock runs out
while the maps hold more entries than that, the maps stay bounded. -/
theorem bounded_while_spared (fold : Text → Text) (t : Time) (trace : List Action) (s : Watched)
    (h : Run (step fold) (Spares fold) (begin t) trace s) : Bounded s := by
  rw [bounded_iff]
  refine h.invariant (fun s => s.guard.loose s.now ≤ 10000) (Nat.zero_le 10000) ?_
  intro s a s' inv spares taken
  exact spares_step inv spares taken

/-- One key fails until it is locked out, and its lock runs out. -/
def lockedForAWhile : List Action :=
  List.replicate 5 (.failure ['a']) ++ [.elapse 600000000000, .locked ['a'], .success ['a']]

theorem bounded_after_lockout :
    ∃ s, Run (step id) (Spares id) (begin 0) lockedForAWhile s ∧ Bounded s := by
  have fits : (exec (step id)
      (fun s _ => decide (size (s.guard.prune s.now).failures < 10000 ∧ s.guard.entries ≤ 10000))
      (begin 0) lockedForAWhile).any (fun _ => true) = true := by decide +kernel
  have sound : ∀ s a, decide (size (s.guard.prune s.now).failures < 10000 ∧
      s.guard.entries ≤ 10000) = true → Spares id s a := by
    intro s a ok
    obtain ⟨room, small⟩ := of_decide_eq_true ok
    cases a with
    | elapse d => exact fun _ => small
    | failure email => exact .inr room
    | locked email => trivial
    | success email => trivial
  obtain ⟨s, run, _⟩ := exists_run sound fits
  exact ⟨s, run, bounded_while_spared id 0 _ s run⟩

/-- No lock of the list has run out. -/
def Hold (now : Time) (locks : KeyMap Text Time) : Prop :=
  ∀ e ∈ locks.entries, Guard.ranOut now e.2 = false

/-- While no lock has run out, `prune` removes nothing. -/
theorem prune_eq_self {g : Guard} (counted : g.Counted) {now : Time}
    (hold : Hold now g.lockedAt) : g.prune now = g := by
  unfold Guard.prune
  split
  · rfl
  · have positive : keep g.failures (fun _ n => !decide (n ≤ 0)) = g.failures := by
      apply keep_eq_self
      intro e mem
      have atLeast := (counted e.1 e.2 (AList.mem_lookup_iff.mpr mem)).1
      have stays : ¬ e.2 ≤ 0 := by omega
      simp [stays]
    have counters : keep g.failures (fun key _ => !(g.lockedAt.lookup key).any (Guard.ranOut now)) =
        g.failures := by
      apply keep_eq_self
      intro e _
      cases lock : g.lockedAt.lookup e.1 with
      | none => rfl
      | some locked => simp [hold ⟨e.1, locked⟩ (AList.mem_lookup_iff.mp lock)]
    have locks : keep g.lockedAt (fun _ locked => !Guard.ranOut now locked) = g.lockedAt := by
      apply keep_eq_self
      intro e mem
      simp [hold e mem]
    simp only [positive, counters, locks]

theorem failure_hold (fold : Text → Text) {g : Guard} (counted : g.Counted) {now : Time}
    (hold : Hold now g.lockedAt) (email : Text) :
    g.failure fold now email =
      if loginMaxFailures ≤ (g.failures.lookup (fold email)).getD 0 + 1 then
        ⟨(g.failures.insert (fold email) ((g.failures.lookup (fold email)).getD 0 + 1)).erase
          (fold email), g.lockedAt.insert (fold email) now⟩
      else ⟨g.failures.insert (fold email) ((g.failures.lookup (fold email)).getD 0 + 1),
        g.lockedAt⟩ := by
  simp only [Guard.failure, prune_eq_self counted hold]

/-- A first failure opens a counter. -/
theorem failure_fresh {fold : Text → Text} {g : Guard} (counted : g.Counted)
    (unlocked : g.lockedAt = ∅) (now : Time) {email : Text} (fresh : fold email ∉ g.failures) :
    g.failure fold now email = ⟨g.failures.insert (fold email) 1, ∅⟩ := by
  have isNew : g.failures.lookup (fold email) = none := AList.lookup_eq_none.mpr fresh
  have hold : Hold now g.lockedAt := by
    intro e mem
    rw [unlocked] at mem
    cases mem
  rw [failure_hold fold counted hold, isNew, Option.getD_none, Int.zero_add,
    if_neg (by decide), unlocked]

/-- Every key that fails for the first time adds a counter, however many there are. -/
theorem flood (fold : Text → Text) (t : Time) (emails : List Text)
    (distinct : (emails.map fold).Nodup) :
    ∃ s, Run (step fold) Always (begin t) (emails.map .failure) s ∧ s.guard.Counted ∧
      s.guard.lockedAt = ∅ ∧ size s.guard.failures = emails.length ∧
      ∀ key ∈ s.guard.failures, key ∈ emails.map fold := by
  induction emails using List.reverseRecOn with
  | nil =>
    refine ⟨begin t, .start, Guard.counted_empty, rfl, rfl, ?_⟩
    intro key held
    exact absurd held (AList.notMem_empty key)
  | append_singleton emails email ih =>
    rw [List.map_append, List.nodup_append] at distinct
    obtain ⟨others, _, apart⟩ := distinct
    obtain ⟨s, run, counted, unlocked, isSize, known⟩ := ih others
    have fresh : fold email ∉ s.guard.failures := by
      intro held
      exact apart _ (known _ held) (fold email) (by simp) rfl
    have opened := failure_fresh counted unlocked s.now fresh
    have taken : step fold s (.failure email) =
        some { s with guard := s.guard.failure fold s.now email } := rfl
    rw [List.map_append]
    refine ⟨_, run.next trivial taken, Guard.counted_failure counted s.now email, ?_, ?_, ?_⟩
    · rw [opened]
    · rw [opened, size_insert_new fresh, isSize]
      simp
    · intro key held
      rw [opened, AList.mem_insert] at held
      rcases held with rfl | old
      · simp
      · rw [List.map_append]
        exact List.mem_append_left _ (known key old)

/-- One key has failed so many times. -/
def counter (key : Text) : Nat → KeyMap Text Int
  | 0 => ∅
  | n + 1 => AList.singleton key (n + 1 : Int)

theorem lookup_counter (key : Text) (n : Nat) : ((counter key n).lookup key).getD 0 = n := by
  cases n with
  | zero => rfl
  | succ n =>
    rw [counter, ← AList.insert_empty, AList.lookup_insert]
    rfl

theorem insert_counter (key : Text) (n : Nat) :
    (counter key n).insert key (n + 1 : Int) = counter key (n + 1) := by
  cases n with
  | zero => rfl
  | succ n => exact AList.insert_singleton_eq

theorem erase_counter (key : Text) (n : Nat) : (counter key n).erase key = ∅ := by
  cases n with
  | zero => rfl
  | succ n =>
    apply AList.ext
    exact List.kerase_cons_eq rfl

theorem counted_counter (key : Text) {n : Nat} (few : n < 5) (locks : KeyMap Text Time) :
    Guard.Counted ⟨counter key n, locks⟩ := by
  intro key' m held
  cases n with
  | zero => cases held
  | succ n =>
    have isCount := AList.mem_lookup_iff.mp held
    rw [counter, AList.singleton_entries, List.mem_singleton] at isCount
    cases isCount
    exact ⟨by omega, by simp only [loginMaxFailures]; omega⟩

theorem spares_counter (fold : Text → Text) {locks : KeyMap Text Time} {now : Time}
    (hold : Hold now locks) (email : Text) {n : Nat} (few : n < 5) :
    Spares fold ⟨⟨counter (fold email) n, locks⟩, now⟩ (.failure email) := by
  rw [Spares, prune_eq_self (counted_counter (fold email) few locks) hold]
  right
  cases n with
  | zero => exact Nat.zero_lt_of_lt (by decide : 0 < 10000)
  | succ n => exact (by decide : 1 < 10000)

theorem fails_below (fold : Text → Text) {locks : KeyMap Text Time} {now : Time}
    (hold : Hold now locks) (email : Text) {n : Nat} (few : n < 5) :
    Run (step fold) (Spares fold) ⟨⟨∅, locks⟩, now⟩ (List.replicate n (.failure email))
      ⟨⟨counter (fold email) n, locks⟩, now⟩ := by
  induction n with
  | zero => exact .start
  | succ n ih =>
    have below : n < 5 := by omega
    have counts := failure_hold fold (counted_counter (fold email) below locks) hold email
    have notYet : ¬ loginMaxFailures ≤ (n : Int) + 1 := by simp only [loginMaxFailures]; omega
    rw [lookup_counter, if_neg notYet, insert_counter] at counts
    rw [List.replicate_succ']
    refine (ih below).next (spares_counter fold hold email below) ?_
    rw [step, counts]

/-- The fifth failure of a key locks it out. -/
theorem locks_out (fold : Text → Text) {locks : KeyMap Text Time} {now : Time}
    (hold : Hold now locks) (email : Text) :
    Run (step fold) (Spares fold) ⟨⟨∅, locks⟩, now⟩ (List.replicate 5 (.failure email))
      ⟨⟨∅, locks.insert (fold email) now⟩, now⟩ := by
  have counts := failure_hold fold (counted_counter (fold email) (by decide : 4 < 5) locks) hold
    email
  rw [lookup_counter, if_pos (by decide), insert_counter, erase_counter] at counts
  refine (fails_below fold hold email (by decide : 4 < 5)).next
    (spares_counter fold hold email (by decide)) ?_
  rw [step, counts]

/-- Key after key is locked out, however many there are. -/
theorem lockouts (fold : Text → Text) (now : Time) (emails : List Text)
    (distinct : (emails.map fold).Nodup) :
    ∃ locks, Run (step fold) (Spares fold) (begin now)
        (emails.flatMap fun email => List.replicate 5 (.failure email)) ⟨⟨∅, locks⟩, now⟩ ∧
      size locks = emails.length ∧ (∀ e ∈ locks.entries, e.2 = now) ∧
      ∀ key ∈ locks, key ∈ emails.map fold := by
  induction emails using List.reverseRecOn with
  | nil =>
    refine ⟨∅, .start, rfl, ?_, ?_⟩
    · intro e mem
      cases mem
    · intro key held
      exact absurd held (AList.notMem_empty key)
  | append_singleton emails email ih =>
    rw [List.map_append, List.nodup_append] at distinct
    obtain ⟨others, _, apart⟩ := distinct
    obtain ⟨locks, run, isSize, locked, known⟩ := ih others
    have isNew : fold email ∉ locks := by
      intro held
      exact apart _ (known _ held) (fold email) (by simp) rfl
    have hold : Hold now locks := by
      intro e mem
      rw [locked e mem, Guard.ranOut_now]
    refine ⟨locks.insert (fold email) now, ?_, ?_, ?_, ?_⟩
    · rw [List.flatMap_append, List.flatMap_singleton]
      exact run.append (locks_out fold hold email)
    · rw [size_insert_new isNew, isSize]
      simp
    · intro e mem
      rw [AList.entries_insert_of_notMem isNew, List.mem_cons] at mem
      rcases mem with rfl | old
      · rfl
      · exact locked e old
    · intro key held
      rw [AList.mem_insert] at held
      rcases held with rfl | old
      · simp
      · rw [List.map_append]
        exact List.mem_append_left _ (known key old)

/-- Distinct emails, as many as wanted. -/
def fresh (n : Nat) : List Text := (List.range n).map fun i => List.replicate i 'a'

theorem fresh_nodup (n : Nat) : ((fresh n).map id).Nodup := by
  rw [List.map_id]
  apply List.Nodup.map _ List.nodup_range
  intro i j same
  simpa using congrArg List.length same

theorem length_fresh (n : Nat) : (fresh n).length = n := by
  rw [fresh, List.length_map, List.length_range]

/-- Ten thousand and one emails that fail once each leave as many counters and no lock; and as
many that were locked out leave, ten minutes later, as many locks that have run out. -/
theorem fresh_emails_outgrow : (¬ ∀ fold, StaysBounded fold) ∧
    ∃ trace s s', Run (step id) (Spares id) (begin 0) trace s ∧
      step id s (.elapse 600000000000) = some s' ∧ ¬ Bounded s' := by
  constructor
  · intro claimed
    obtain ⟨s, run, _, unlocked, isSize, _⟩ := flood id 0 (fresh 10001) (fresh_nodup 10001)
    have bounded := claimed id 0 _ s run
    rw [length_fresh] at isSize
    have none : ∀ p, count (∅ : KeyMap Text Time) p = 0 := fun _ => rfl
    have isEmpty : size (∅ : KeyMap Text Time) = 0 := rfl
    simp only [Bounded, Guard.entries, Guard.lockedOut, unlocked, isSize, none, isEmpty] at bounded
    omega
  · obtain ⟨locks, run, isSize, locked, _⟩ := lockouts id 0 (fresh 10001) (fresh_nodup 10001)
    rw [length_fresh] at isSize
    refine ⟨_, _, _, run, rfl, ?_⟩
    rw [bounded_iff]
    have gone : (count locks fun _ => Guard.ranOut 600000000000) = size locks := by
      apply List.countP_eq_length.mpr
      intro e mem
      exact locked e mem ▸ (by decide : Guard.ranOut 600000000000 0 = true)
    have isLoose : Guard.loose ⟨∅, locks⟩ (0 + (600000000000 : Nat)) = 10001 := by
      rw [Guard.loose, ← isSize, ← gone]
      exact Nat.zero_add _
    rw [isLoose]
    decide

end Vidsilo.Api.LoginGuard
