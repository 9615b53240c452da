import Vidsilo.Library.Base64
import Vidsilo.Library.Decimal
import Vidsilo.Library.SlashPath

/-!
# Password hashes

Source: internal/password/password.go:18-90. A hash is `$argon2id$`, the parameters, the salt and
the key, or the text of bcrypt. A password is its bytes, and `none` is a panic.
-/
namespace Vidsilo.Password
open Library Library.SlashPath Library.Decimal

abbrev Bytes := List UInt8

/-- golang.org/x/crypto/argon2. -/
structure Argon2 where
  idKey : (password salt : Bytes) → (time memory : UInt32) → (threads : UInt8) → (keyLen : UInt32) →
    Option Bytes
  /-- Whether a key can be empty. -/
  emptyKey : Bool
  returns : ∀ password salt time memory threads keyLen,
    (idKey password salt time memory threads keyLen).isSome =
      decide (0 < time ∧ 0 < threads ∧ (0 < keyLen ∨ emptyKey = true))
  length : ∀ password salt time memory threads keyLen key,
    idKey password salt time memory threads keyLen = some key → key.length = keyLen.toNat

/-- `argon2.Version`. -/
def version : Int := 19

def argonTime : UInt32 := 1

def argonMemory : UInt32 := 64 * 1024

def argonThreads : UInt8 := 4

def argonKeyLen : UInt32 := 32

def argon2id : Text := "argon2id".toList

/-- `%d`, of a number without a sign. -/
def decimal (n : Nat) : Text := formatInt n

def parameters : Text :=
  "v=".toList ++ formatInt version ++ ",m=".toList ++ decimal argonMemory.toNat ++
    ",t=".toList ++ decimal argonTime.toNat ++ ",p=".toList ++ decimal argonThreads.toNat

def format (salt key : Bytes) : Text :=
  '$' :: (argon2id ++ '$' :: (parameters ++
    '$' :: (Base64.encodeStd salt ++ '$' :: Base64.encodeStd key)))

/-- `Hash`, with what `rand.Read` gives. -/
def hash {ε : Type} (argon : Argon2) (pw : Bytes) : Except ε Bytes → Option (Except ε Text)
  | .error err => some (.error err)
  | .ok salt =>
    (argon.idKey pw salt argonTime argonMemory argonThreads argonKeyLen).map fun key =>
      .ok (format salt key)

structure Params where
  version : Int
  m : UInt32
  t : UInt32
  p : UInt32
  deriving DecidableEq, Repr

/-- `strconv.ParseUint(s, 10, 32)`. -/
def parseUint32 (s : Text) : Option UInt32 :=
  (parseUint s).bind fun n => if n < UInt32.size then some (UInt32.ofNat n) else none

def Params.set (params : Params) (name : Text) (n : UInt32) : Params :=
  if name = ['v'] then { params with version := n.toNat }
  else if name = ['m'] then { params with m := n }
  else if name = ['t'] then { params with t := n }
  else if name = ['p'] then { params with p := n }
  else params

/-- One turn of the loop. -/
def readParam (params : Params) (param : Text) : Option Params :=
  -- `strings.SplitN(param, "=", 2)`
  if '=' ∈ param then
    (parseUint32 (param.dropWhile (· ≠ '=')).tail).map (params.set (param.takeWhile (· ≠ '=')))
  else none

def verifyArgon (argon : Argon2) (pw : Bytes) (encoded : Text) : Option Bool :=
  match encoded.splitOn '$' with
  | [_, _, params, salt, key] =>
    match (params.splitOn ',').foldlM readParam ⟨0, 0, 0, 0⟩ with
    | none => some false
    | some read =>
      if read.version ≠ version then some false
      else
        match Base64.decodeStd salt with
        | none => some false
        | some salt =>
          match Base64.decodeStd key with
          | none => some false
          | some want =>
            (argon.idKey pw salt read.t read.m read.p.toUInt8 (UInt32.ofNat want.length)).map
              fun got => decide (got = want)
  | _ => some false

def isArgon (encoded : Text) : Bool := ('$' :: (argon2id ++ ['$'])).isPrefixOf encoded

def isBcrypt (encoded : Text) : Bool :=
  "$2a$".toList.isPrefixOf encoded || "$2b$".toList.isPrefixOf encoded

/-- Whether the password is right, and whether its hash is to be replaced; `bcrypt` is whether the
comparison gives no error. -/
def verify (argon : Argon2) (bcrypt : Text → Bytes → Bool) (pw : Bytes) (encoded : Text) :
    Option (Bool × Bool) :=
  if isArgon encoded then (verifyArgon argon pw encoded).map (·, false)
  else if isBcrypt encoded then some (bcrypt encoded pw, true)
  else some (false, false)

end Vidsilo.Password
