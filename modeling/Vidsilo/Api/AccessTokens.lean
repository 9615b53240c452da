import Mathlib.Algebra.Order.Floor.Ring
import Vidsilo.Library.Base64
import Vidsilo.Library.Json
import Vidsilo.Library.SlashPath

/-!
# Access tokens

Source: internal/api/jwt.go. A token is `header.payload.signature`; both kinds share the header
and the secret, and differ in the names of the fields of their payload. `hmac` stands for
HMAC-SHA256 of the secret and a message. Times are seconds in an ordered field `K`, and
`Time.Unix` is the floor.
-/
namespace Vidsilo.Api.AccessTokens
open Library Library.SlashPath Library.Json Library.Decimal

/-- The values of `users.role`. -/
inductive Role where
  | admin | editor | uploader | viewer
  deriving DecidableEq, Repr

def Role.text : Role → Text
  | .admin => ['a', 'd', 'm', 'i', 'n']
  | .editor => ['e', 'd', 'i', 't', 'o', 'r']
  | .uploader => ['u', 'p', 'l', 'o', 'a', 'd', 'e', 'r']
  | .viewer => ['v', 'i', 'e', 'w', 'e', 'r']

structure User where
  id : Int64
  role : Role
  disabled : Bool
  deriving DecidableEq

structure Viewer where
  id : Int64
  disabled : Bool
  deriving DecidableEq

inductive TokenError where
  /-- `jwt: invalid token`. -/
  | badToken
  /-- `jwt: token expired`. -/
  | expired
  deriving DecidableEq, Repr

section Clock
variable {K : Type*} [Field K] [LinearOrder K] [FloorRing K]

/-- `accessTokenTTL`. -/
def accessTokenTTL : K := 900

/-- `Time.Unix`. -/
def unix (t : K) : Int64 := Int64.ofInt ⌊t⌋

/-- The `exp` claim of a token issued at a time. -/
def expiry (issued : K) : Int64 := unix (issued + accessTokenTTL)

end Clock

section Shape
variable (hmac : List UInt8 → Text → List UInt8) (secret : List UInt8)

/-- The members of a header `alg`, `typ`. -/
def headerMembers : Members :=
  [(['a', 'l', 'g'], .text ['H', 'S', '2', '5', '6']), (['t', 'y', 'p'], .text ['J', 'W', 'T'])]

def b64url (members : Members) : Text := Base64.encode (toUtf8 (render members))

/-- What is signed. -/
def message (header payload : Text) : Text := header ++ '.' :: payload

def compose (header payload signature : Text) : Text :=
  header ++ '.' :: (payload ++ '.' :: signature)

/-- The end of both signing functions. -/
def signToken (claims : Members) : Text :=
  compose (b64url headerMembers) (b64url claims)
    (Base64.encode (hmac secret (message (b64url headerMembers) (b64url claims))))

/-- `json.Unmarshal` into the fields of a struct: a type mismatch is an error, `null` and unknown
names change nothing. -/
def unmarshal {γ : Type} (zero : γ) (set : γ → Text → Value → Option γ) : Value → Option γ
  | .null => some zero
  | .object members => members.foldlM (fun claims member => set claims member.1 member.2) zero
  | _ => none

/-- Both verifying functions up to their last line; `zero` and `set` describe the struct. -/
def verifyToken {γ : Type} (zero : γ) (set : γ → Text → Value → Option γ) (exp : γ → Int64)
    (token : Text) (now : Int64) : Except TokenError γ :=
  match token.splitOn '.' with
  | [header, payload, signature] =>
    if Base64.decode signature = some (hmac secret (message header payload)) then
      match (Base64.decode payload).bind fun bytes =>
          (parse (ofUtf8 bytes)).bind (unmarshal zero set) with
      | none => .error .badToken
      | some claims => if exp claims < now then .error .expired else .ok claims
    else .error .badToken
  | _ => .error .badToken

end Shape

/-- Field names match without regard to case. -/
def isName (key name : Text) : Bool := key.map Char.toLower = name

def setInt (old : Int64) : Value → Option Int64
  | .null => some old
  | .number literal => (parseInt literal).map Int64.ofInt
  | _ => none

def setText (old : Text) : Value → Option Text
  | .null => some old
  | .string s => some s
  | _ => none

def uidName : Text := ['u', 'i', 'd']

def rolName : Text := ['r', 'o', 'l']

def vidName : Text := ['v', 'i', 'd']

def expName : Text := ['e', 'x', 'p']

structure AccessClaims where
  userId : Int64
  role : Text
  exp : Int64
  deriving DecidableEq

def AccessClaims.zero : AccessClaims := ⟨0, [], 0⟩

def AccessClaims.set (claims : AccessClaims) (key : Text) (value : Value) : Option AccessClaims :=
  if isName key uidName then (setInt claims.userId value).map fun n => { claims with userId := n }
  else if isName key rolName then (setText claims.role value).map fun s => { claims with role := s }
  else if isName key expName then (setInt claims.exp value).map fun n => { claims with exp := n }
  else some claims

structure ViewerClaims where
  viewerId : Int64
  exp : Int64
  deriving DecidableEq

def ViewerClaims.zero : ViewerClaims := ⟨0, 0⟩

def ViewerClaims.set (claims : ViewerClaims) (key : Text) (value : Value) : Option ViewerClaims :=
  if isName key vidName then (setInt claims.viewerId value).map fun n => { claims with viewerId := n }
  else if isName key expName then (setInt claims.exp value).map fun n => { claims with exp := n }
  else some claims

section Functions
variable {K : Type*} [Field K] [LinearOrder K] [FloorRing K]
  (hmac : List UInt8 → Text → List UInt8) (secret : List UInt8)

def accessMembers (u : User) (exp : Int64) : Members :=
  [(uidName, .int u.id.toInt), (rolName, .text u.role.text), (expName, .int exp.toInt)]

def signAccessToken (u : User) (now : K) : Text :=
  signToken hmac secret (accessMembers u (expiry now))

def verifyAccessToken (token : Text) (now : K) : Except TokenError AccessClaims :=
  verifyToken hmac secret .zero AccessClaims.set AccessClaims.exp token (unix now)

def viewerMembers (v : Viewer) (exp : Int64) : Members :=
  [(vidName, .int v.id.toInt), (expName, .int exp.toInt)]

def signViewerAccessToken (v : Viewer) (now : K) : Text :=
  signToken hmac secret (viewerMembers v (expiry now))

def verifyViewerAccessToken (token : Text) (now : K) : Except TokenError ViewerClaims :=
  verifyToken hmac secret .zero ViewerClaims.set ViewerClaims.exp token (unix now)

end Functions

section Lemmas
variable {hmac : List UInt8 → Text → List UInt8} {secret : List UInt8}

theorem splitOn_compose {header payload signature : Text} (h : '.' ∉ header) (p : '.' ∉ payload)
    (s : '.' ∉ signature) :
    (compose header payload signature).splitOn '.' = [header, payload, signature] := by
  have parts : ∀ part ∈ [header, payload, signature], '.' ∉ part := by
    simp [h, p, s]
  have joined : compose header payload signature =
      ['.'].intercalate [header, payload, signature] := by
    simp [compose, List.intercalate]
  rw [joined, List.splitOn_intercalate '.' parts (List.cons_ne_nil _ _)]

theorem dot_not_mem (bytes : List UInt8) : '.' ∉ Base64.encode bytes :=
  Base64.not_mem_encode bytes (by decide)

theorem splitOn_signed (header claims : Members) (sum : List UInt8) :
    (compose (b64url header) (b64url claims) (Base64.encode sum)).splitOn '.' =
      [b64url header, b64url claims, Base64.encode sum] :=
  splitOn_compose (dot_not_mem _) (dot_not_mem _) (dot_not_mem _)

/-- A signed token is accepted as far as its claims and its expiry go. -/
theorem verifyToken_signToken {γ : Type} {zero : γ} {set : γ → Text → Value → Option γ}
    {exp : γ → Int64} {claims : Members} (some_claim : claims ≠ []) (isPlain : claims.isPlain = true)
    (now : Int64) (result : γ)
    (isResult : unmarshal zero set (.object (claims.map fun claim => (claim.1, claim.2.value))) =
      some result) :
    verifyToken hmac secret zero set exp (signToken hmac secret claims) now =
      if exp result < now then .error .expired else .ok result := by
  have payload : Base64.decode (b64url claims) = some (toUtf8 (render claims)) :=
    Base64.decode_encode _
  rw [verifyToken, signToken, splitOn_signed]
  simp only [Base64.decode_encode, if_true, payload, Option.bind_some,
    parse_bytes some_claim isPlain, isResult]

theorem setInt_toInt (old n : Int64) : setInt old (Scalar.int n.toInt).value = some n := by
  have low := n.le_toInt
  have high := n.toInt_lt
  rw [Scalar.value, setInt, parseInt_formatInt n.toInt low high, Option.map_some,
    Int64.ofInt_toInt]

theorem accessMembers_plain (u : User) (exp : Int64) : (accessMembers u exp).isPlain = true := by
  cases isRole : u.role with
  | _ => simp [accessMembers, Members.isPlain, Scalar.isPlain, isRole, Role.text, uidName,
      rolName, expName, plain]

theorem accessMembers_ne_nil (u : User) (exp : Int64) : accessMembers u exp ≠ [] :=
  List.cons_ne_nil _ _

theorem viewerMembers_ne_nil (v : Viewer) (exp : Int64) : viewerMembers v exp ≠ [] :=
  List.cons_ne_nil _ _

theorem viewerMembers_plain (v : Viewer) (exp : Int64) :
    (viewerMembers v exp).isPlain = true := by
  simp [viewerMembers, Members.isPlain, Scalar.isPlain, vidName, expName, plain]

section Fields
variable (claims : AccessClaims) (viewerClaims : ViewerClaims) (value : Value)

theorem AccessClaims.set_uid : claims.set uidName value =
    (setInt claims.userId value).map fun n => { claims with userId := n } := rfl

theorem AccessClaims.set_rol : claims.set rolName value =
    (setText claims.role value).map fun s => { claims with role := s } := rfl

theorem AccessClaims.set_exp : claims.set expName value =
    (setInt claims.exp value).map fun n => { claims with exp := n } := rfl

/-- The fields of the other kind of token have unknown names. -/
theorem AccessClaims.set_vid : claims.set vidName value = some claims := rfl

theorem ViewerClaims.set_vid : viewerClaims.set vidName value =
    (setInt viewerClaims.viewerId value).map fun n => { viewerClaims with viewerId := n } := rfl

theorem ViewerClaims.set_exp : viewerClaims.set expName value =
    (setInt viewerClaims.exp value).map fun n => { viewerClaims with exp := n } := rfl

theorem ViewerClaims.set_uid : viewerClaims.set uidName value = some viewerClaims := rfl

theorem ViewerClaims.set_rol : viewerClaims.set rolName value = some viewerClaims := rfl

end Fields

theorem setText_text (old s : Text) : setText old (Scalar.text s).value = some s := rfl

theorem unmarshal_access (u : User) (exp : Int64) :
    unmarshal .zero AccessClaims.set
        (.object ((accessMembers u exp).map fun claim => (claim.1, claim.2.value))) =
      some ⟨u.id, u.role.text, exp⟩ := by
  simp [unmarshal, accessMembers, AccessClaims.set_uid, AccessClaims.set_rol,
    AccessClaims.set_exp, setInt_toInt, setText_text]

theorem unmarshal_viewer (v : Viewer) (exp : Int64) :
    unmarshal .zero ViewerClaims.set
        (.object ((viewerMembers v exp).map fun claim => (claim.1, claim.2.value))) =
      some ⟨v.id, exp⟩ := by
  simp [unmarshal, viewerMembers, ViewerClaims.set_vid, ViewerClaims.set_exp, setInt_toInt]

theorem unmarshal_viewer_access (v : Viewer) (exp : Int64) :
    unmarshal .zero AccessClaims.set
        (.object ((viewerMembers v exp).map fun claim => (claim.1, claim.2.value))) =
      some ⟨0, [], exp⟩ := by
  simp [unmarshal, viewerMembers, AccessClaims.set_vid, AccessClaims.set_exp, setInt_toInt,
    AccessClaims.zero]

theorem unmarshal_access_viewer (u : User) (exp : Int64) :
    unmarshal .zero ViewerClaims.set
        (.object ((accessMembers u exp).map fun claim => (claim.1, claim.2.value))) =
      some ⟨0, exp⟩ := by
  simp [unmarshal, accessMembers, ViewerClaims.set_uid, ViewerClaims.set_rol,
    ViewerClaims.set_exp, setInt_toInt, ViewerClaims.zero]

variable {K : Type*} [Field K] [LinearOrder K] [FloorRing K]

theorem verifyAccessToken_signAccessToken (u : User) (issued now : K) :
    verifyAccessToken hmac secret (signAccessToken hmac secret u issued) now =
      if expiry issued < unix now then .error .expired
      else .ok ⟨u.id, u.role.text, expiry issued⟩ := by
  rw [verifyAccessToken, signAccessToken, verifyToken_signToken (accessMembers_ne_nil u _)
    (accessMembers_plain u _) _ _ (unmarshal_access u _)]

theorem verifyViewerAccessToken_signViewerAccessToken (v : Viewer) (issued now : K) :
    verifyViewerAccessToken hmac secret (signViewerAccessToken hmac secret v issued) now =
      if expiry issued < unix now then .error .expired else .ok ⟨v.id, expiry issued⟩ := by
  rw [verifyViewerAccessToken, signViewerAccessToken, verifyToken_signToken
    (viewerMembers_ne_nil v _) (viewerMembers_plain v _) _ _ (unmarshal_viewer v _)]

theorem verifyAccessToken_signViewerAccessToken (v : Viewer) (issued now : K) :
    verifyAccessToken hmac secret (signViewerAccessToken hmac secret v issued) now =
      if expiry issued < unix now then .error .expired else .ok ⟨0, [], expiry issued⟩ := by
  rw [verifyAccessToken, signViewerAccessToken, verifyToken_signToken (viewerMembers_ne_nil v _)
    (viewerMembers_plain v _) _ _ (unmarshal_viewer_access v _)]

theorem verifyViewerAccessToken_signAccessToken (u : User) (issued now : K) :
    verifyViewerAccessToken hmac secret (signAccessToken hmac secret u issued) now =
      if expiry issued < unix now then .error .expired else .ok ⟨0, expiry issued⟩ := by
  rw [verifyViewerAccessToken, signAccessToken, verifyToken_signToken (accessMembers_ne_nil u _)
    (accessMembers_plain u _) _ _ (unmarshal_access_viewer u _)]

end Lemmas

end Vidsilo.Api.AccessTokens
