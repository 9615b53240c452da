import Mathlib.Data.Rat.Floor
import Vidsilo.Api.AccessTokens

/-!
# Sessions with access tokens

Source: internal/api/denylist.go, internal/api/auth.go:210-217 and 333-373,
internal/api/viewers.go:207-260, internal/api/embed_acl.go:70-85. The denylist keeps hashes of
token texts. `digest` stands for the hex of a SHA-256 sum. The statements do not fail; the
application and the database read the same clock.
-/
namespace Vidsilo.Api.Guards
open Library Library.SlashPath AccessTokens

structure DenyRow (K : Type*) where
  tokenHash : Text
  expiresAt : K
  deriving DecidableEq

abbrev Denylist (K : Type*) := List (DenyRow K)

section Denylist
variable {K : Type*} [Field K] [LinearOrder K] (digest : Text → Text)

/-- `INSERT ... ON CONFLICT (token_hash) DO UPDATE SET expires_at = GREATEST(...)`. -/
def upsert (rows : Denylist K) (tokenHash : Text) (expiresAt : K) : Denylist K :=
  if rows.any (·.tokenHash = tokenHash) then
    rows.map fun row =>
      if row.tokenHash = tokenHash then { row with expiresAt := max row.expiresAt expiresAt } else row
  else rows ++ [⟨tokenHash, expiresAt⟩]

def revoke (rows : Denylist K) (token : Text) (ttl now : K) : Denylist K :=
  upsert rows (digest token) (now + ttl)

def revoked (rows : Denylist K) (token : Text) (now : K) : Bool :=
  token ≠ [] && rows.any fun row => row.tokenHash = digest token && now < row.expiresAt

/-- Rows that expired over an hour ago go, `LIMIT` decides which. -/
def prune (rows : Denylist K) (limit : DenyRow K → Bool) (now : K) : Denylist K :=
  rows.filter fun row => !(decide (row.expiresAt ≤ now - 3600) && limit row)

/-- What `handleLogout` and `handleViewerLogout` do with the access cookie. -/
def logout (rows : Denylist K) (cookie : Option Text) (now : K) : Denylist K :=
  match cookie with
  | none | some [] => rows
  | some token => revoke digest rows token accessTokenTTL now

end Denylist

/-- The arguments of `writeError`. -/
structure Refusal where
  status : Nat
  error : String
  message : String
  deriving DecidableEq, Repr

def unauthorized (message : String) : Refusal := ⟨401, "unauthorized", message⟩

/-- What a request is checked against. -/
structure Site (K : Type*) where
  users : List User
  viewers : List Viewer
  denylist : Denylist K
  now : K

/-- `verify` gives the id of the token's account, `find` its row. -/
def session {α : Type} (isRevoked : Text → Bool) (verify : Text → Except TokenError Int64)
    (find : Int64 → Option α) (disabled : α → Bool) : Option Text → Except Refusal α
  | none | some [] => .error (unauthorized "not signed in")
  | some token =>
    if isRevoked token then .error (unauthorized "session revoked")
    else
      match verify token with
      | .error _ => .error (unauthorized "session expired")
      | .ok id =>
        match find id with
        | none => .error (unauthorized "not signed in")
        | some account =>
          if disabled account then .error (unauthorized "not signed in") else .ok account

section Middleware
variable {K : Type*} [Field K] [LinearOrder K] [FloorRing K] (digest : Text → Text)
  (hmac : List UInt8 → Text → List UInt8) (secret : List UInt8) (site : Site K)

def userByID (id : Int64) : Option User := site.users.find? (·.id = id)

def viewerByID (id : Int64) : Option Viewer := site.viewers.find? (·.id = id)

/-- The user that the handler sees. -/
def requireAuth (cookie : Option Text) : Except Refusal User :=
  session (fun token => revoked digest site.denylist token site.now)
    (fun token => (verifyAccessToken hmac secret token site.now).map (·.userId))
    (userByID site) User.disabled cookie

def requireRole (roles : List Role) (cookie : Option Text) : Except Refusal User := do
  let u ← requireAuth digest hmac secret site cookie
  if u.role ∈ roles then .ok u else .error ⟨403, "forbidden", "insufficient permissions"⟩

/-- Without a session the request goes on without a user. -/
def optionalAuth (cookie : Option Text) : Option User :=
  (session (fun token => revoked digest site.denylist token site.now)
    (fun token => (verifyAccessToken hmac secret token site.now).map (·.userId))
    (userByID site) User.disabled cookie).toOption

def requireViewer (cookie : Option Text) : Except Refusal Viewer :=
  session (fun token => revoked digest site.denylist token site.now)
    (fun token => (verifyViewerAccessToken hmac secret token site.now).map (·.viewerId))
    (viewerByID site) Viewer.disabled cookie

def optionalViewer (cookie : Option Text) : Option Viewer :=
  (session (fun token => revoked digest site.denylist token site.now)
    (fun token => (verifyViewerAccessToken hmac secret token site.now).map (·.viewerId))
    (viewerByID site) Viewer.disabled cookie).toOption

end Middleware

theorem session_ok {α : Type} {isRevoked : Text → Bool} {verify : Text → Except TokenError Int64}
    {find : Int64 → Option α} {disabled : α → Bool} {token : Text} {account : α}
    (h : session isRevoked verify find disabled (some token) = .ok account) :
    token ≠ [] ∧ isRevoked token = false ∧
      ∃ id, verify token = .ok id ∧ find id = some account ∧ disabled account = false := by
  cases token with
  | nil => cases h
  | cons c token =>
    refine ⟨List.cons_ne_nil c token, ?_⟩
    simp only [session] at h
    split at h
    · cases h
    · next live =>
      split at h
      · cases h
      · next id isVerified =>
        split at h
        · cases h
        · next account' isFound =>
          split at h
          · cases h
          · next enabled =>
            cases h
            exact ⟨Bool.eq_false_iff.mpr live, id, isVerified, isFound,
              Bool.eq_false_iff.mpr enabled⟩

/-- A verified token is turned away when it is revoked or has no account that is enabled. -/
theorem session_refused_iff {α : Type} {isRevoked : Text → Bool}
    {verify : Text → Except TokenError Int64} {find : Int64 → Option α} {disabled : α → Bool}
    {token : Text} {id : Int64} (given : token ≠ []) (verified : verify token = .ok id) :
    (∀ account, session isRevoked verify find disabled (some token) ≠ .ok account) ↔
      isRevoked token = true ∨ ∀ account, find id = some account → disabled account = true := by
  obtain ⟨c, rest, rfl⟩ := List.exists_cons_of_ne_nil given
  constructor
  · intro refused
    by_contra attached
    simp only [not_or, Bool.not_eq_true, not_forall, exists_prop] at attached
    obtain ⟨live, account, isFound, enabled⟩ := attached
    apply refused account
    simp [session, live, verified, isFound, enabled]
  · rintro (dead | none) account h
    · obtain ⟨_, live, _⟩ := session_ok h
      exact nomatch dead.symm.trans live
    · obtain ⟨_, _, id', verified', isFound, enabled⟩ := session_ok h
      cases verified.symm.trans verified'
      exact nomatch (none account isFound).symm.trans enabled

/-- A live row for a hash. -/
theorem any_upsert {K : Type*} [LinearOrder K] (rows : Denylist K) (tokenHash : Text)
    (expiresAt : K) (hash : Text) (now : K) :
    ((upsert rows tokenHash expiresAt).any fun row => row.tokenHash = hash && now < row.expiresAt) =
      ((rows.any fun row => row.tokenHash = hash && now < row.expiresAt) ||
        (tokenHash = hash && now < expiresAt)) := by
  rw [Bool.eq_iff_iff]
  simp only [upsert, List.any_eq_true, Bool.and_eq_true, decide_eq_true_eq, Bool.or_eq_true]
  by_cases known : ∃ row ∈ rows, row.tokenHash = tokenHash
  · obtain ⟨row₀, mem₀, isHash₀⟩ := known
    rw [if_pos ⟨row₀, mem₀, isHash₀⟩]
    constructor
    · rintro ⟨row', mem', isHash, live⟩
      obtain ⟨row, mem, rfl⟩ := List.mem_map.mp mem'
      split at isHash
      · next same =>
        rw [if_pos same] at live
        rcases lt_max_iff.mp live with old | new
        · exact .inl ⟨row, mem, isHash, old⟩
        · exact .inr ⟨same.symm.trans isHash, new⟩
      · next other =>
        rw [if_neg other] at live
        exact .inl ⟨row, mem, isHash, live⟩
    · rintro (⟨row, mem, isHash, live⟩ | ⟨rfl, live⟩)
      · refine ⟨_, List.mem_map_of_mem mem, ?_⟩
        split
        · exact ⟨isHash, lt_max_iff.mpr (.inl live)⟩
        · exact ⟨isHash, live⟩
      · refine ⟨_, List.mem_map_of_mem mem₀, ?_⟩
        rw [if_pos isHash₀]
        exact ⟨isHash₀, lt_max_iff.mpr (.inr live)⟩
  · rw [if_neg known]
    simp only [List.mem_append, List.mem_singleton]
    constructor
    · rintro ⟨row, mem | rfl, isHash, live⟩
      · exact .inl ⟨row, mem, isHash, live⟩
      · exact .inr ⟨isHash, live⟩
    · rintro (⟨row, mem, isHash, live⟩ | ⟨isHash, live⟩)
      · exact ⟨row, .inl mem, isHash, live⟩
      · exact ⟨_, .inr rfl, isHash, live⟩

theorem revoked_revoke {K : Type*} [Field K] [LinearOrder K] {digest : Text → Text}
    (rows : Denylist K) (token other : Text) (ttl t now : K) :
    revoked digest (revoke digest rows token ttl t) other now =
      (revoked digest rows other now ||
        (other ≠ [] && digest token = digest other && now < t + ttl)) := by
  rw [revoked, revoke, any_upsert, revoked, Bool.and_or_distrib_left, Bool.and_assoc]

variable {K : Type*} [Field K] [LinearOrder K] [FloorRing K] {digest : Text → Text}
  {hmac : List UInt8 → Text → List UInt8} {secret : List UInt8} {site : Site K}

/-- A token of the other kind stands for the id zero, which no row has. -/
theorem session_zero {α : Type} {isRevoked : Text → Bool} {verify : Text → Except TokenError Int64}
    {find : Int64 → Option α} {disabled : α → Bool} {token : Text}
    (zero : ∀ id, verify token = .ok id → id = 0) (none : find 0 = none) (account : α) :
    session isRevoked verify find disabled (some token) ≠ .ok account := by
  intro h
  obtain ⟨_, _, id, isVerified, isFound, _⟩ := session_ok h
  rw [zero id isVerified, none] at isFound
  cases isFound

theorem toOption_none {α : Type} {r : Except Refusal α} (h : ∀ a, r ≠ .ok a) :
    r.toOption = none := by
  cases r with
  | error e => rfl
  | ok a => exact absurd rfl (h a)

theorem viewer_token_user (noUser : ∀ u ∈ site.users, u.id ≠ 0) (v : Viewer) (issued : K)
    (account : User) :
    requireAuth digest hmac secret site (some (signViewerAccessToken hmac secret v issued)) ≠
      .ok account := by
  apply session_zero
  · intro id isVerified
    rw [verifyAccessToken_signViewerAccessToken] at isVerified
    split at isVerified
    · cases isVerified
    · cases isVerified
      rfl
  · rw [userByID, List.find?_eq_none]
    simpa using noUser

theorem access_token_viewer (noViewer : ∀ v ∈ site.viewers, v.id ≠ 0) (u : User) (issued : K)
    (account : Viewer) :
    requireViewer digest hmac secret site (some (signAccessToken hmac secret u issued)) ≠
      .ok account := by
  apply session_zero
  · intro id isVerified
    rw [verifyViewerAccessToken_signAccessToken] at isVerified
    split at isVerified
    · cases isVerified
    · cases isVerified
      rfl
  · rw [viewerByID, List.find?_eq_none]
    simpa using noViewer

/-- Tokens of either kind carry their claims exactly until they expire, and do not pass for the
other kind. -/
theorem token_kinds (digest : Text → Text) (hmac : List UInt8 → Text → List UInt8)
    (secret : List UInt8) (site : Site K) (noUser : ∀ u ∈ site.users, u.id ≠ 0)
    (noViewer : ∀ v ∈ site.viewers, v.id ≠ 0) (u : User) (v : Viewer) (issued : K) :
    (verifyAccessToken hmac secret (signAccessToken hmac secret u issued) site.now =
        if expiry issued < unix site.now then .error .expired
        else .ok ⟨u.id, u.role.text, expiry issued⟩) ∧
      (verifyViewerAccessToken hmac secret (signViewerAccessToken hmac secret v issued) site.now =
        if expiry issued < unix site.now then .error .expired else .ok ⟨v.id, expiry issued⟩) ∧
      (∀ account, requireAuth digest hmac secret site
        (some (signViewerAccessToken hmac secret v issued)) ≠ .ok account) ∧
      (∀ roles account, requireRole digest hmac secret site roles
        (some (signViewerAccessToken hmac secret v issued)) ≠ .ok account) ∧
      optionalAuth digest hmac secret site
        (some (signViewerAccessToken hmac secret v issued)) = none ∧
      (∀ account, requireViewer digest hmac secret site
        (some (signAccessToken hmac secret u issued)) ≠ .ok account) ∧
      optionalViewer digest hmac secret site
        (some (signAccessToken hmac secret u issued)) = none := by
  refine ⟨verifyAccessToken_signAccessToken u issued site.now,
    verifyViewerAccessToken_signViewerAccessToken v issued site.now, ?_, ?_, ?_, ?_, ?_⟩
  · exact viewer_token_user noUser v issued
  · intro roles account h
    rw [requireRole] at h
    cases isUser : requireAuth digest hmac secret site
        (some (signViewerAccessToken hmac secret v issued)) with
    | error refusal =>
      rw [isUser] at h
      cases h
    | ok u => exact viewer_token_user noUser v issued u isUser
  · exact toOption_none (viewer_token_user noUser v issued)
  · exact access_token_viewer noViewer u issued
  · exact toOption_none (access_token_viewer noViewer u issued)

/-- A site with one user and one viewer of the same id. -/
def oneEach : Site ℚ where
  users := [⟨1, .admin, false⟩]
  viewers := [⟨1, false⟩]
  denylist := []
  now := 100

theorem token_kinds_oneEach :
    optionalAuth id (fun _ _ => []) [] oneEach
        (some (signViewerAccessToken (fun _ _ => []) [] ⟨1, false⟩ (7 : ℚ))) = none ∧
      optionalViewer id (fun _ _ => []) [] oneEach
        (some (signAccessToken (fun _ _ => []) [] ⟨1, .admin, false⟩ (7 : ℚ))) = none := by
  obtain ⟨_, _, _, _, noUser, _, noViewer⟩ := token_kinds id (fun _ _ => []) [] oneEach
    (by decide) (by decide) ⟨1, .admin, false⟩ ⟨1, false⟩ 7
  exact ⟨noUser, noViewer⟩

end Vidsilo.Api.Guards
