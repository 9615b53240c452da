import Vidsilo.Library.NetAddr

/-!
# The path that a server reads from a URI

A client sends what stands before the first `#`. The server takes what of this stands before the
first `?` as the path and decodes its escapes; a bad escape refuses the request. An escape of a byte
from 0x80 on is read as the character of that code. Nothing here depends on the repository.
-/
namespace Vidsilo.Library.UriPath

def unescape : List Char → Option (List Char)
  | [] => some []
  | '%' :: a :: b :: rest => do
    let hi ← NetAddr.hexDigit a
    let lo ← NetAddr.hexDigit b
    let path ← unescape rest
    return Char.ofNat (16 * hi + lo) :: path
  | '%' :: _ => none
  | c :: rest => (unescape rest).map fun path => c :: path

def requestPath (uri : List Char) : Option (List Char) :=
  unescape ((uri.takeWhile (· ≠ '#')).takeWhile (· ≠ '?'))

/-- The characters that stand for themselves in a path, and the slash. -/
def literal (c : Char) : Bool := c.isAlphanum || c ∈ "-._~!$&'()*+,;=:@/".toList

theorem ne_of_literal {c d : Char} (isLiteral : literal c = true) (other : literal d = false) :
    c ≠ d := by
  rintro rfl
  cases isLiteral.symm.trans other

theorem unescape_cons {c : Char} (plain : c ≠ '%') (rest : List Char) :
    unescape (c :: rest) = (unescape rest).map fun path => c :: path := by
  rw [unescape]
  · exact fun _ _ _ isEscape _ => plain isEscape
  · exact plain

theorem unescape_literal {uri : List Char} (h : uri.all literal = true) :
    unescape uri = some uri := by
  induction uri with
  | nil => rfl
  | cons c rest ih =>
    obtain ⟨first, others⟩ := Bool.and_eq_true_iff.mp h
    rw [unescape_cons (ne_of_literal first (by decide)), ih others]
    rfl

theorem takeWhile_literal {uri : List Char} (h : uri.all literal = true) {d : Char}
    (other : literal d = false) : uri.takeWhile (· ≠ d) = uri := by
  induction uri with
  | nil => rfl
  | cons c rest ih =>
    obtain ⟨first, others⟩ := Bool.and_eq_true_iff.mp h
    rw [List.takeWhile_cons, if_pos (decide_eq_true (ne_of_literal first other)), ih others]

/-- A URI of these characters is its own path. -/
theorem requestPath_literal {uri : List Char} (h : uri.all literal = true) :
    requestPath uri = some uri := by
  rw [requestPath, takeWhile_literal h (by decide), takeWhile_literal h (by decide),
    unescape_literal h]

example : requestPath "/a%20b?c#d".toList = some "/a b".toList := by decide

end Vidsilo.Library.UriPath
