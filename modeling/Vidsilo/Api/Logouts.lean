import Mathlib.Algebra.Order.Archimedean.Real.Basic
import Vidsilo.Library.Transition
import Vidsilo.Api.Respelling

/-!
# How long a logout lasts

Source: internal/api/denylist.go:33-83, internal/api/jwt.go:35-77, internal/api/auth.go:210-223.
The row of a revoked token ends at an exact time, its expiry is a whole second.
-/
namespace Vidsilo.Api.Logouts
open Library Library.SlashPath Library.Transition AccessTokens Guards Respelling

section Clock
variable {K : Type*} [Field K] [LinearOrder K] [FloorRing K]

/-- The seconds of a `time.Time` are an `int64`. -/
def Fits (t : K) : Prop := -2 ^ 63 ≤ ⌊t⌋ ∧ ⌊t⌋ < 2 ^ 63

instance (t : K) : Decidable (Fits t) := inferInstanceAs (Decidable (_ ∧ _))

end Clock

/-- A time to which the lifetime of a token can be added. -/
structure Instant (K : Type*) [Field K] [LinearOrder K] [FloorRing K] where
  time : K
  fits : Fits time
  later : Fits (time + accessTokenTTL)

/-- What happens after the logout; `request` stands for the pruning of any request. -/
inductive Event (K : Type*) where
  | elapse (d : K)
  | request (limit : DenyRow K → Bool)
  | logout (cookie : Option Text)
  | users (rows : List User)
  | viewers (rows : List Viewer)

section Runs
variable {K : Type*} [Field K] [LinearOrder K] [FloorRing K] (digest : Text → Text)

def step (site : Site K) : Event K → Option (Site K)
  | .elapse d =>
    if 0 < d ∧ Fits (site.now + d) then some { site with now := site.now + d } else none
  | .request limit => some { site with denylist := prune site.denylist limit site.now }
  | .logout cookie => some { site with denylist := logout digest site.denylist cookie site.now }
  | .users rows => some { site with users := rows }
  | .viewers rows => some { site with viewers := rows }

/-- After a logout with the token no request with it is let in. -/
def NeverAccepted (hmac : List UInt8 → Text → List UInt8) (secret : List UInt8) (token : Text)
    (logoutAt : Instant K) : Prop :=
  ∀ users viewers rows trace site,
    Run (step digest) Always
        (loggedOut digest users viewers rows token logoutAt.time logoutAt.time) trace site →
      ∀ account, requireAuth digest hmac secret site (some token) ≠ .ok account

end Runs

section Deadlines
variable {K : Type*} [Field K] [LinearOrder K] [FloorRing K]

theorem toInt_unix {t : K} (fits : Fits t) : (unix t).toInt = ⌊t⌋ :=
  Int64.toInt_ofInt_of_le fits.1 fits.2

variable [IsStrictOrderedRing K]

/-- A token is verified through the whole second in which it expires. -/
theorem expiry_lt_unix {issued : Instant K} {now : K} (fits : Fits now) :
    expiry issued.time < unix now ↔ (⌊issued.time⌋ : K) + 1 + accessTokenTTL ≤ now := by
  have ttl : ⌊issued.time + accessTokenTTL⌋ = ⌊issued.time⌋ + 900 :=
    Int.floor_add_ofNat issued.time 900
  have sum : ((⌊issued.time⌋ + 900 + 1 : Int) : K) = ⌊issued.time⌋ + 1 + accessTokenTTL := by
    push_cast [accessTokenTTL]
    ring
  rw [Int64.lt_iff_toInt_lt, expiry, toInt_unix issued.later, toInt_unix fits, ttl,
    ← Int.add_one_le_iff, Int.le_floor, sum]

end Deadlines

section Kept
variable {K : Type*} [LinearOrder K] {digest : Text → Text}

/-- A row for the hash that lives until the time. -/
def Listed (rows : Denylist K) (hash : Text) (deadline : K) : Prop :=
  ∃ row ∈ rows, row.tokenHash = hash ∧ deadline ≤ row.expiresAt

theorem Listed.revoked {rows : Denylist K} {token : Text} {deadline now : K}
    (h : Listed rows (digest token) deadline) (given : token ≠ []) (live : now < deadline) :
    revoked digest rows token now = true := by
  obtain ⟨row, mem, isHash, lives⟩ := h
  simp only [Guards.revoked, Bool.and_eq_true, decide_eq_true_eq, List.any_eq_true]
  exact ⟨given, row, mem, isHash, lt_of_lt_of_le live lives⟩

theorem Listed.upsert {rows : Denylist K} {hash : Text} {deadline : K}
    (h : Listed rows hash deadline) (other : Text) (expiresAt : K) :
    Listed (upsert rows other expiresAt) hash deadline := by
  obtain ⟨row, mem, isHash, lives⟩ := h
  rw [Guards.upsert]
  split
  · refine ⟨_, List.mem_map_of_mem mem, ?_⟩
    split
    · exact ⟨isHash, le_max_of_le_left lives⟩
    · exact ⟨isHash, lives⟩
  · exact ⟨row, List.mem_append_left _ mem, isHash, lives⟩

variable [Field K]

theorem Listed.logout {rows : Denylist K} {hash : Text} {deadline : K}
    (h : Listed rows hash deadline) (cookie : Option Text) (now : K) :
    Listed (logout digest rows cookie now) hash deadline := by
  cases cookie with
  | none => exact h
  | some token =>
    cases token with
    | nil => exact h
    | cons c rest => exact h.upsert _ _

variable [IsStrictOrderedRing K]

/-- Rows are only removed long after their time. -/
theorem Listed.prune {rows : Denylist K} {hash : Text} {deadline now : K}
    (h : Listed rows hash deadline) (limit : DenyRow K → Bool) (live : now < deadline) :
    Listed (prune rows limit now) hash deadline := by
  obtain ⟨row, mem, isHash, lives⟩ := h
  refine ⟨row, List.mem_filter.mpr ⟨mem, ?_⟩, isHash, lives⟩
  have kept : ¬ row.expiresAt ≤ now - 3600 := by linarith
  simp [kept]

end Kept

section Runs
variable {K : Type*} [Field K] [LinearOrder K] [FloorRing K] {digest : Text → Text}
  {hmac : List UInt8 → Text → List UInt8} {secret : List UInt8} {users : List User}
  {viewers : List Viewer} {rows : Denylist K} {token : Text} {logoutAt issued : Instant K}
  {trace : List (Event K)} {site site' : Site K}

/-- The token is listed until the deadline has passed. -/
structure Guarded (hash : Text) (deadline : K) (site : Site K) : Prop where
  fits : Fits site.now
  listed : site.now < deadline → Listed site.denylist hash deadline

theorem guarded_start (given : token ≠ []) :
    Guarded (digest token) (logoutAt.time + accessTokenTTL)
      (loggedOut digest users viewers rows token logoutAt.time logoutAt.time) := by
  refine ⟨logoutAt.fits, fun _ => ?_⟩
  obtain ⟨c, rest, rfl⟩ := List.exists_cons_of_ne_nil given
  simp only [loggedOut, Guards.logout, revoke, Guards.upsert]
  split
  · next known =>
    obtain ⟨row, mem, isHash⟩ := List.any_eq_true.mp known
    refine ⟨_, List.mem_map_of_mem mem, ?_⟩
    rw [if_pos (of_decide_eq_true isHash)]
    exact ⟨of_decide_eq_true isHash, le_max_right _ _⟩
  · exact ⟨_, List.mem_append_right _ (List.mem_singleton_self _), rfl, le_rfl⟩

theorem signAccessToken_ne_nil (hmac : List UInt8 → Text → List UInt8) (secret : List UInt8)
    (u : User) (t : K) : signAccessToken hmac secret u t ≠ [] := by
  intro none
  have noChar := congrArg List.length none
  simp [signAccessToken, signToken, compose] at noChar

variable [IsStrictOrderedRing K]

theorem Guarded.step {hash : Text} {deadline : K} {event : Event K}
    (h : Guarded hash deadline site) (taken : step digest site event = some site') :
    Guarded hash deadline site' := by
  cases event with
  | elapse d =>
    simp only [Logouts.step, Option.ite_none_right_eq_some, Option.some.injEq] at taken
    obtain ⟨⟨pos, fits⟩, rfl⟩ := taken
    exact ⟨fits, fun live => h.listed (by linarith)⟩
  | request limit =>
    cases taken
    exact ⟨h.fits, fun live => (h.listed live).prune limit live⟩
  | logout cookie =>
    cases taken
    exact ⟨h.fits, fun live => (h.listed live).logout cookie site.now⟩
  | users rows =>
    cases taken
    exact ⟨h.fits, h.listed⟩
  | viewers rows =>
    cases taken
    exact ⟨h.fits, h.listed⟩

theorem guarded_run (given : token ≠ [])
    (h : Run (step digest) Always
      (loggedOut digest users viewers rows token logoutAt.time logoutAt.time) trace site) :
    Guarded (digest token) (logoutAt.time + accessTokenTTL) site :=
  h.invariant _ (guarded_start given) fun _ _ _ guarded _ taken => guarded.step taken

theorem neverAccepted_of_later {u : User} (later : (⌊issued.time⌋ : K) + 1 ≤ logoutAt.time) :
    NeverAccepted digest hmac secret (signAccessToken hmac secret u issued.time) logoutAt := by
  intro users viewers rows trace site h account accepted
  have given := signAccessToken_ne_nil hmac secret u issued.time
  have guarded := guarded_run given h
  obtain ⟨_, live, id, verified, _⟩ := session_ok accepted
  have expired : logoutAt.time + accessTokenTTL ≤ site.now := by
    by_contra early
    rw [not_le] at early
    rw [(guarded.listed early).revoked given early] at live
    cases live
  have inTime : ¬ expiry issued.time < unix site.now := by
    intro late
    rw [verifyAccessToken_signAccessToken, if_pos late] at verified
    cases verified
  rw [expiry_lt_unix guarded.fits] at inTime
  linarith

/-- The row has ended and the expiry has not. -/
theorem accepted_of_sooner {u : User} (sooner : logoutAt.time < (⌊issued.time⌋ : K) + 1) :
    ¬ NeverAccepted digest hmac secret (signAccessToken hmac secret u issued.time) logoutAt := by
  intro never
  let account : User := { u with disabled := false }
  let token := signAccessToken hmac secret u issued.time
  let now := logoutAt.time + accessTokenTTL
  have elapsed : Run (step digest) Always
      (loggedOut digest [account] [] [] token logoutAt.time logoutAt.time)
      [.elapse accessTokenTTL] (loggedOut digest [account] [] [] token logoutAt.time now) := by
    apply Run.next .start trivial
    have pos : (0 : K) < accessTokenTTL := by norm_num [accessTokenTTL]
    exact if_pos ⟨pos, logoutAt.later⟩
  have verified : verifyAccessToken hmac secret token now =
      .ok ⟨u.id, u.role.text, expiry issued.time⟩ := by
    rw [verifyAccessToken_signAccessToken, if_neg]
    rw [expiry_lt_unix logoutAt.later]
    linarith
  rcases (covered_iff verified).mp (never _ _ _ _ _ elapsed) with ⟨_, _, early⟩ | live | none
  · exact absurd early (lt_irrefl _)
  · simp [revoked] at live
  · have isFound : [account].find? (·.id = u.id) = some account := by
      simp [account]
    have disabled := none account isFound
    cases disabled

/-- A logout holds for good exactly when it comes after the second in which the token was
issued. -/
theorem neverAccepted_iff (digest : Text → Text) (hmac : List UInt8 → Text → List UInt8)
    (secret : List UInt8) (u : User) (issued logoutAt : Instant K) :
    NeverAccepted digest hmac secret (signAccessToken hmac secret u issued.time) logoutAt ↔
      (⌊issued.time⌋ : K) + 1 ≤ logoutAt.time := by
  constructor
  · intro never
    by_contra sooner
    exact accepted_of_sooner (not_le.mp sooner) never
  · exact neverAccepted_of_later

end Runs

theorem fits_of_small {t : ℝ} (low : 0 ≤ t) (high : t < 2000) : Fits t := by
  have below : t < ((2 ^ 63 : Int) : ℝ) := by
    push_cast
    linarith
  exact ⟨le_trans (by norm_num) (Int.floor_nonneg.mpr low), Int.floor_lt.mpr below⟩

theorem later_fits {t : ℝ} (low : 0 ≤ t) (high : t < 1000) : Fits (t + accessTokenTTL) := by
  apply fits_of_small
  · rw [accessTokenTTL]
    linarith
  · rw [accessTokenTTL]
    linarith

def instant (t : ℝ) (low : 0 ≤ t) (high : t < 1000) : Instant ℝ :=
  ⟨t, fits_of_small low (lt_trans high (by norm_num)), later_fits low high⟩

def start : Instant ℝ := instant 0 le_rfl (by norm_num)

/-- In the first second. -/
noncomputable def early : Instant ℝ := instant (3 / 10) (by norm_num) (by norm_num)

/-- In the next second. -/
def next : Instant ℝ := instant 1 (by norm_num) (by norm_num)

theorem floor_start : (⌊start.time⌋ : ℝ) = 0 := by
  rw [start, instant, Int.floor_zero, Int.cast_zero]

theorem neverAccepted_nextSecond :
    NeverAccepted id (fun _ _ => []) []
      (signAccessToken (fun _ _ => []) [] ⟨1, .admin, false⟩ start.time) next := by
  apply (neverAccepted_iff id (fun _ _ => []) [] ⟨1, .admin, false⟩ start next).mpr
  rw [floor_start, next, instant]
  norm_num

theorem accepted_sameSecond :
    ¬ NeverAccepted id (fun _ _ => []) []
      (signAccessToken (fun _ _ => []) [] ⟨1, .admin, false⟩ start.time) early := by
  apply accepted_of_sooner
  rw [floor_start, early, instant]
  norm_num

end Vidsilo.Api.Logouts
