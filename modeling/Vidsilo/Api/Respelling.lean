import Vidsilo.Api.Guards

/-!
# Other spellings of a revoked token

Source: internal/api/denylist.go:28-72, internal/api/jwt.go:53-77. The denylist compares hashes
of token texts, the signature is compared after decoding.
-/
namespace Vidsilo.Api.Respelling
open Library Library.SlashPath AccessTokens Guards

variable {K : Type*} [Field K] [LinearOrder K]

/-- The same header and payload. -/
def SameClaims (token other : Text) : Prop :=
  ∃ header payload signature signature',
    token.splitOn '.' = [header, payload, signature] ∧
      other.splitOn '.' = [header, payload, signature']

/-- The site at a time after a logout with the token. -/
def loggedOut (digest : Text → Text) (users : List User) (viewers : List Viewer)
    (rows : Denylist K) (token : Text) (logoutAt now : K) : Site K :=
  ⟨users, viewers, logout digest rows (some token) logoutAt, now⟩

/-- The other text has the hash of the token within the life of its row, or a live row of its
own, or no enabled user. -/
def Covered (digest : Text → Text) (users : List User) (rows : Denylist K) (token other : Text)
    (logoutAt now : K) (claims : AccessClaims) : Prop :=
  (token ≠ [] ∧ digest token = digest other ∧ now < logoutAt + accessTokenTTL) ∨
    revoked digest rows other now = true ∨
    ∀ u, users.find? (·.id = claims.userId) = some u → u.disabled = true

theorem revoked_loggedOut {digest : Text → Text} {users : List User} {viewers : List Viewer}
    {rows : Denylist K} {token other : Text} {logoutAt now : K} (given : other ≠ []) :
    revoked digest (loggedOut digest users viewers rows token logoutAt now).denylist other now =
        true ↔
      (token ≠ [] ∧ digest token = digest other ∧ now < logoutAt + accessTokenTTL) ∨
        revoked digest rows other now = true := by
  cases token with
  | nil => simp [loggedOut, logout]
  | cons c rest =>
    simp only [loggedOut, logout, revoked_revoke, Bool.or_eq_true, Bool.and_eq_true,
      decide_eq_true_eq]
    simp [given, or_comm]

variable [FloorRing K]

/-- As long as the other text is verified, `requireAuth` turns it away. -/
def Refused (digest : Text → Text) (hmac : List UInt8 → Text → List UInt8) (secret : List UInt8)
    (users : List User) (viewers : List Viewer) (rows : Denylist K) (token other : Text)
    (logoutAt : K) : Prop :=
  ∀ now, logoutAt ≤ now → ∀ claims, verifyAccessToken hmac secret other now = .ok claims →
    ∀ account, requireAuth digest hmac secret
      (loggedOut digest users viewers rows token logoutAt now) (some other) ≠ .ok account

variable {digest : Text → Text} {hmac : List UInt8 → Text → List UInt8} {secret : List UInt8}
  {users : List User} {viewers : List Viewer} {rows : Denylist K} {token other : Text}
  {logoutAt now : K} {claims : AccessClaims}

theorem verified_given (h : verifyAccessToken hmac secret other now = .ok claims) :
    other ≠ [] := by
  rintro rfl
  cases h

theorem covered_iff (verified : verifyAccessToken hmac secret other now = .ok claims) :
    (∀ account, requireAuth digest hmac secret
        (loggedOut digest users viewers rows token logoutAt now) (some other) ≠ .ok account) ↔
      Covered digest users rows token other logoutAt now claims := by
  have given := verified_given verified
  have isId : (verifyAccessToken hmac secret other now).map (·.userId) = .ok claims.userId := by
    rw [verified]
    rfl
  rw [requireAuth, session_refused_iff given isId, Covered, ← or_assoc]
  exact or_congr (revoked_loggedOut given) Iff.rfl

/-- A verified text is turned away after the logout exactly as long as it is covered itself. -/
theorem refused_iff_covered (digest : Text → Text) (hmac : List UInt8 → Text → List UInt8)
    (secret : List UInt8) (users : List User) (viewers : List Viewer) (rows : Denylist K)
    (token other : Text) (logoutAt : K) :
    Refused digest hmac secret users viewers rows token other logoutAt ↔
      ∀ now, logoutAt ≤ now → ∀ claims, verifyAccessToken hmac secret other now = .ok claims →
        Covered digest users rows token other logoutAt now claims :=
  forall_congr' fun _ => imp_congr_right fun _ => forall_congr' fun _ =>
    imp_congr_right fun verified => covered_iff verified

theorem verifyToken_congr {γ : Type} {zero : γ} {set : γ → Text → Json.Value → Option γ}
    {exp : γ → Int64} {header payload signature signature' : Text} {now : Int64}
    (h : '.' ∉ header) (p : '.' ∉ payload) (s : '.' ∉ signature) (s' : '.' ∉ signature')
    (same : Base64.decode signature = Base64.decode signature') :
    verifyToken hmac secret zero set exp (compose header payload signature) now =
      verifyToken hmac secret zero set exp (compose header payload signature') now := by
  rw [verifyToken, verifyToken, splitOn_compose h p s, splitOn_compose h p s']
  simp only [same]

/-- HMAC-SHA256 sums have 32 bytes, which leave two bits of the last character unused. -/
theorem exists_respelling (hmac : List UInt8 → Text → List UInt8) (secret : List UInt8)
    (long : ∀ key text, (hmac key text).length = 32) (u : User) (issued : K) :
    ∃ other, other ≠ signAccessToken hmac secret u issued ∧
      SameClaims (signAccessToken hmac secret u issued) other ∧
      ∀ now : K, verifyAccessToken hmac secret other now =
        verifyAccessToken hmac secret (signAccessToken hmac secret u issued) now := by
  let header := b64url headerMembers
  let payload := b64url (accessMembers u (expiry issued))
  have group : (hmac secret (message header payload)).length % 3 = 2 := by rw [long]
  obtain ⟨text, differs, inAlphabet, decodes⟩ := Base64.other_spelling group
  have noDot : '.' ∉ text := fun mem => absurd (inAlphabet '.' mem) (by decide)
  refine ⟨compose header payload text, ?_, ⟨header, payload, _, text,
    splitOn_signed _ _ _, splitOn_compose (dot_not_mem _) (dot_not_mem _) noDot⟩, ?_⟩
  · intro same
    apply differs
    have tails := List.append_cancel_left same
    have signatures := List.append_cancel_left (List.cons.inj tails).2
    exact (List.cons.inj signatures).2
  · intro now
    apply verifyToken_congr (dot_not_mem _) (dot_not_mem _) noDot (dot_not_mem _)
    rw [decodes, Base64.decode_encode]

/-- Sums of 32 zeros. -/
def zeros (_ : List UInt8) (_ : Text) : List UInt8 := List.replicate 32 0

def zeroToken : Text := signAccessToken zeros [] ⟨1, .admin, false⟩ (0 : ℚ)

theorem verify_zeroToken :
    verifyAccessToken zeros [] zeroToken (2 : ℚ) = .ok ⟨1, Role.admin.text, 900⟩ := by
  have exp : expiry (0 : ℚ) = 900 := by
    simp only [expiry, unix, accessTokenTTL, zero_add, Int.floor_ofNat]
    rfl
  have now : unix (2 : ℚ) = 2 := by
    simp only [unix, Int.floor_ofNat]
    rfl
  rw [zeroToken, verifyAccessToken_signAccessToken, exp, now, if_neg (by decide)]

/-- After a logout another spelling of the token is still good. -/
theorem respelling_not_refused :
    ∃ other, SameClaims zeroToken other ∧
      ¬ Refused id zeros [] [⟨1, .admin, false⟩] [] ([] : Denylist ℚ) zeroToken other 1 := by
  obtain ⟨other, differs, sameClaims, verifies⟩ :=
    exists_respelling zeros [] (fun _ _ => List.length_replicate) ⟨1, .admin, false⟩ (0 : ℚ)
  refine ⟨other, sameClaims, fun refused => ?_⟩
  have verified := (verifies 2).trans verify_zeroToken
  rcases (covered_iff verified).mp (refused 2 (by norm_num) _ verified) with
    ⟨_, same, _⟩ | live | none
  · exact differs same.symm
  · simp [revoked] at live
  · have disabled := none ⟨1, .admin, false⟩ rfl
    simp at disabled

end Vidsilo.Api.Respelling
