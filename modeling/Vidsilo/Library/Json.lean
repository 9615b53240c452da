import Vidsilo.Library.Decimal

/-!
# JSON texts

`parse` accepts the texts that Go's `encoding/json` accepts, up to its bound on the depth of
nesting, and keeps the literals of numbers. Bytes are read as UTF-8, an invalid byte as U+FFFD.
The lemmas at the end read back flat objects of decimal numbers and plain strings. Nothing here
depends on the repository.
-/
namespace Vidsilo.Library.Json
open Decimal

def replacement : Char := Char.ofNat 0xFFFD

/-- The rune that starts with a byte, and how many of the following bytes belong to it. -/
def rune (first : UInt8) (rest : List UInt8) : Char × Nat :=
  let a := first.toNat
  let b := (rest.getD 0 0).toNat
  let c := (rest.getD 1 0).toNat
  let d := (rest.getD 2 0).toNat
  if a < 0x80 then (Char.ofNat a, 0)
  else if 0xC2 ≤ a ∧ a ≤ 0xDF ∧ 0x80 ≤ b ∧ b ≤ 0xBF then
    (Char.ofNat ((a - 0xC0) * 64 + (b - 0x80)), 1)
  else if 0xE0 ≤ a ∧ a ≤ 0xEF ∧ (if a = 0xE0 then 0xA0 else 0x80) ≤ b ∧
      b ≤ (if a = 0xED then 0x9F else 0xBF) ∧ 0x80 ≤ c ∧ c ≤ 0xBF then
    (Char.ofNat ((a - 0xE0) * 4096 + (b - 0x80) * 64 + (c - 0x80)), 2)
  else if 0xF0 ≤ a ∧ a ≤ 0xF4 ∧ (if a = 0xF0 then 0x90 else 0x80) ≤ b ∧
      b ≤ (if a = 0xF4 then 0x8F else 0xBF) ∧ 0x80 ≤ c ∧ c ≤ 0xBF ∧ 0x80 ≤ d ∧ d ≤ 0xBF then
    (Char.ofNat ((a - 0xF0) * 262144 + (b - 0x80) * 4096 + (c - 0x80) * 64 + (d - 0x80)), 3)
  else (replacement, 0)

/-- The runes after as many bytes. -/
def runes : Nat → List UInt8 → List Char
  | _, [] => []
  | 0, a :: rest => (rune a rest).1 :: runes (rune a rest).2 rest
  | n + 1, _ :: rest => runes n rest

def ofUtf8 (bytes : List UInt8) : List Char := runes 0 bytes

def toUtf8 (text : List Char) : List UInt8 := text.flatMap String.utf8EncodeChar

inductive Value where
  | null
  | bool (b : Bool)
  | number (literal : List Char)
  | string (s : List Char)
  | array (items : List Value)
  | object (members : List (List Char × Value))

def isSpace (c : Char) : Bool := c = ' ' || c = '\t' || c = '\n' || c = '\r'

def skip (text : List Char) : List Char := text.dropWhile isSpace

/-- A literal and the text after it. -/
abbrev Parsed (α : Type) := Option (α × List Char)

def digitsOf (text : List Char) : List Char × List Char :=
  (text.takeWhile Char.isDigit, text.dropWhile Char.isDigit)

def whole : List Char → Parsed (List Char)
  | '0' :: rest => some (['0'], rest)
  | text => if (digitsOf text).1 = [] then none else some (digitsOf text)

def fraction : List Char → Parsed (List Char)
  | '.' :: rest =>
    if (digitsOf rest).1 = [] then none else some ('.' :: (digitsOf rest).1, (digitsOf rest).2)
  | text => some ([], text)

/-- The sign of an exponent. -/
def sign : List Char → List Char × List Char
  | '+' :: rest => (['+'], rest)
  | '-' :: rest => (['-'], rest)
  | text => ([], text)

def exponent : List Char → Parsed (List Char)
  | c :: rest =>
    if c = 'e' ∨ c = 'E' then
      let (s, rest) := sign rest
      if (digitsOf rest).1 = [] then none
      else some (c :: s ++ (digitsOf rest).1, (digitsOf rest).2)
    else some ([], c :: rest)
  | [] => some ([], [])

def unsigned (text : List Char) : Parsed (List Char) :=
  (whole text).bind fun (i, rest) =>
    (fraction rest).bind fun (f, rest) =>
      (exponent rest).map fun (e, rest) => (i ++ f ++ e, rest)

def parseNumber : List Char → Parsed (List Char)
  | '-' :: rest => (unsigned rest).map fun (digits, rest) => ('-' :: digits, rest)
  | text => unsigned text

def hexDigit (c : Char) : Option Nat :=
  if c.isDigit then some (c.toNat - '0'.toNat)
  else if 'a' ≤ c ∧ c ≤ 'f' then some (c.toNat - 'a'.toNat + 10)
  else if 'A' ≤ c ∧ c ≤ 'F' then some (c.toNat - 'A'.toNat + 10)
  else none

def hex4 (a b c d : Char) : Option Nat := do
  return (← hexDigit a) * 4096 + (← hexDigit b) * 256 + (← hexDigit c) * 16 + (← hexDigit d)

/-- A character of a string, or the 16 bits of a `\u` escape. -/
inductive Piece where
  | plain (c : Char)
  | unit (code : Nat)

def escaped : Char → Option Char
  | '"' => some '"'
  | '\\' => some '\\'
  | '/' => some '/'
  | 'b' => some '\x08'
  | 'f' => some '\x0c'
  | 'n' => some '\n'
  | 'r' => some '\r'
  | 't' => some '\t'
  | _ => none

/-- The text after the opening quote. -/
def pieces : List Char → Parsed (List Piece)
  | '"' :: rest => some ([], rest)
  | '\\' :: 'u' :: a :: b :: c :: d :: rest =>
    (hex4 a b c d).bind fun code => (pieces rest).map fun (ps, rest) => (.unit code :: ps, rest)
  | '\\' :: c :: rest =>
    (escaped c).bind fun e => (pieces rest).map fun (ps, rest) => (.plain e :: ps, rest)
  | c :: rest =>
    if c < ' ' then none else (pieces rest).map fun (ps, rest) => (.plain c :: ps, rest)
  | [] => none

/-- Pairs of surrogates are joined, and single ones replaced. -/
def characters : List Piece → List Char
  | .plain c :: rest => c :: characters rest
  | .unit high :: .unit low :: rest =>
    if 0xD800 ≤ high ∧ high < 0xDC00 ∧ 0xDC00 ≤ low ∧ low < 0xE000 then
      Char.ofNat ((high - 0xD800) * 1024 + (low - 0xDC00) + 0x10000) :: characters rest
    else (if 0xD800 ≤ high ∧ high < 0xE000 then replacement else Char.ofNat high) ::
      characters (.unit low :: rest)
  | .unit code :: rest =>
    (if 0xD800 ≤ code ∧ code < 0xE000 then replacement else Char.ofNat code) :: characters rest
  | [] => []

def parseString (text : List Char) : Parsed (List Char) :=
  (pieces text).map fun (ps, rest) => (characters ps, rest)

mutual

/-- `n` bounds the depth of the calls. -/
def parseValue : Nat → List Char → Parsed Value
  | 0, _ => none
  | n + 1, text =>
    match skip text with
    | 'n' :: 'u' :: 'l' :: 'l' :: rest => some (.null, rest)
    | 't' :: 'r' :: 'u' :: 'e' :: rest => some (.bool true, rest)
    | 'f' :: 'a' :: 'l' :: 's' :: 'e' :: rest => some (.bool false, rest)
    | '"' :: rest => (parseString rest).map fun (s, rest) => (.string s, rest)
    | '[' :: rest =>
      match skip rest with
      | ']' :: rest => some (.array [], rest)
      | rest => (parseItems n rest).map fun (items, rest) => (.array items, rest)
    | '{' :: rest =>
      match skip rest with
      | '}' :: rest => some (.object [], rest)
      | rest => (parseMembers n rest).map fun (members, rest) => (.object members, rest)
    | text => (parseNumber text).map fun (literal, rest) => (.number literal, rest)

def parseItems : Nat → List Char → Parsed (List Value)
  | 0, _ => none
  | n + 1, text =>
    (parseValue n text).bind fun (item, rest) =>
      match skip rest with
      | ',' :: rest => (parseItems n rest).map fun (items, rest) => (item :: items, rest)
      | ']' :: rest => some ([item], rest)
      | _ => none

def parseMembers : Nat → List Char → Parsed (List (List Char × Value))
  | 0, _ => none
  | n + 1, text =>
    match skip text with
    | '"' :: rest =>
      (parseString rest).bind fun (key, rest) =>
        match skip rest with
        | ':' :: rest =>
          (parseValue n rest).bind fun (value, rest) =>
            match skip rest with
            | ',' :: rest =>
              (parseMembers n rest).map fun (members, rest) => ((key, value) :: members, rest)
            | '}' :: rest => some ([(key, value)], rest)
            | _ => none
        | _ => none
    | _ => none

end

def parse (text : List Char) : Option Value :=
  (parseValue (text.length + 1) text).bind fun (value, rest) =>
    if skip rest = [] then some value else none

theorem ofNat_toNat_ascii {c : Char} (ascii : c.toNat < 128) :
    rune (UInt8.ofNat c.toNat) rest = (c, 0) := by
  have small : (UInt8.ofNat c.toNat).toNat = c.toNat := by
    rw [UInt8.toNat_ofNat']
    omega
  simp only [rune, small]
  rw [if_pos (by omega), Char.ofNat_toNat]

theorem ofUtf8_toUtf8 {text : List Char} (ascii : ∀ c ∈ text, c.toNat < 128) :
    ofUtf8 (toUtf8 text) = text := by
  induction text with
  | nil => rfl
  | cons c rest ih =>
    have small := ascii c List.mem_cons_self
    have byte : String.utf8EncodeChar c = [UInt8.ofNat c.toNat] := by
      have low : c.val.toNat ≤ 127 := Nat.le_of_lt_succ small
      simp only [String.utf8EncodeChar, if_pos low]
      rfl
    have later := ih fun c' mem => ascii c' (List.mem_cons_of_mem _ mem)
    simp only [toUtf8, List.flatMap_cons, byte, List.cons_append, List.nil_append, ofUtf8, runes,
      ofNat_toNat_ascii small]
    exact congrArg (c :: ·) later

/-- Characters that stand for themselves in a string. -/
def plain (c : Char) : Bool :=
  ' ' ≤ c && c.toNat < 127 && c ≠ '"' && c ≠ '\\' && c ≠ '<' && c ≠ '>' && c ≠ '&'

inductive Scalar where
  | int (n : Int)
  | text (s : List Char)

def quote (s : List Char) : List Char := '"' :: s ++ ['"']

namespace Scalar

def render : Scalar → List Char
  | .int n => formatInt n
  | .text s => quote s

def value : Scalar → Value
  | .int n => .number (formatInt n)
  | .text s => .string s

def isPlain : Scalar → Bool
  | .int _ => true
  | .text s => s.all plain

end Scalar

abbrev Members := List (List Char × Scalar)

def renderMembers : Members → List Char
  | [] => ['}']
  | [(key, field)] => quote key ++ ':' :: field.render ++ ['}']
  | (key, field) :: rest => quote key ++ ':' :: field.render ++ ',' :: renderMembers rest

def render (members : Members) : List Char := '{' :: renderMembers members

def Members.isPlain (members : Members) : Bool :=
  members.all fun member => member.1.all plain && member.2.isPlain

theorem skip_cons {c : Char} {rest : List Char} (visible : isSpace c = false) :
    skip (c :: rest) = c :: rest := by
  rw [skip, List.dropWhile_cons, visible]
  rfl

theorem pieces_plain {s rest : List Char} (h : s.all plain = true) :
    pieces (s ++ '"' :: rest) = some (s.map .plain, rest) := by
  induction s with
  | nil => rfl
  | cons c s ih =>
    rw [List.all_cons, Bool.and_eq_true] at h
    have facts := h.1
    simp only [plain, Bool.and_eq_true, decide_eq_true_eq, ne_eq] at facts
    obtain ⟨⟨⟨⟨⟨⟨low, _⟩, quote⟩, backslash⟩, _⟩, _⟩, _⟩ := facts
    rw [List.cons_append, pieces]
    · rw [if_neg (Char.not_lt.mpr low), ih h.2]
      rfl
    · exact quote
    · exact fun _ _ _ _ _ same _ => backslash same
    · exact fun _ _ same _ => backslash same

theorem characters_plain (s : List Char) : characters (s.map .plain) = s := by
  induction s with
  | nil => rfl
  | cons c s ih => rw [List.map_cons, characters, ih]

theorem parseString_plain {s : List Char} (h : s.all plain = true) (rest : List Char) :
    parseString (s ++ '"' :: rest) = some (s, rest) := by
  simp only [parseString, pieces_plain h, Option.map_some, characters_plain]

theorem digitsOf_append {ds : List Char} {c : Char} (digits : ∀ d ∈ ds, d.isDigit = true)
    (other : c.isDigit = false) (rest : List Char) : digitsOf (ds ++ c :: rest) = (ds, c :: rest) := by
  induction ds with
  | nil => simp [digitsOf, other]
  | cons d ds ih =>
    have later := ih fun d' mem => digits d' (List.mem_cons_of_mem _ mem)
    simp only [digitsOf, Prod.mk.injEq] at later ⊢
    simp [digits d List.mem_cons_self, later]

/-- Only zero starts with the digit zero. -/
theorem toDigits_head (n : Nat) (pos : 0 < n) :
    ∃ d ds, Nat.toDigits 10 n = d :: ds ∧ d ≠ '0' := by
  induction n using Nat.strongRecOn with
  | ind n ih =>
    by_cases small : n < 10
    · refine ⟨n.digitChar, [], Nat.toDigits_of_lt_base small, ?_⟩
      have all : ∀ k < 10, 0 < k → k.digitChar ≠ '0' := by decide
      exact all n small pos
    · obtain ⟨d, ds, isPrefix, nonzero⟩ := ih (n / 10) (by omega) (by omega)
      refine ⟨d, ds ++ [(n % 10).digitChar], ?_, nonzero⟩
      rw [Nat.toDigits_of_base_le (by omega) (by omega), isPrefix, List.cons_append]

theorem whole_toDigits {n : Nat} {c : Char} {rest : List Char} (other : c.isDigit = false) :
    whole (Nat.toDigits 10 n ++ c :: rest) = some (Nat.toDigits 10 n, c :: rest) := by
  have digits : ∀ d ∈ Nat.toDigits 10 n, d.isDigit = true := fun d mem =>
    Nat.isDigit_of_mem_toDigits (by omega) (by omega) mem
  rcases Nat.eq_zero_or_pos n with rfl | pos
  · rfl
  · have split := digitsOf_append digits other rest
    obtain ⟨d, ds, isText, nonzero⟩ := toDigits_head n pos
    rw [isText] at split ⊢
    rw [List.cons_append] at split ⊢
    rw [whole, split, if_neg (List.cons_ne_nil d ds)]
    exact fun _ same => nonzero (List.cons.inj same).1

/-- What may follow a number in an object. -/
def closes (c : Char) : Bool := c = ',' || c = '}'

theorem unsigned_toDigits {c : Char} (closed : closes c = true) (n : Nat) (rest : List Char) :
    unsigned (Nat.toDigits 10 n ++ c :: rest) = some (Nat.toDigits 10 n, c :: rest) := by
  have isClose : c = ',' ∨ c = '}' := by simpa [closes] using closed
  rcases isClose with rfl | rfl
  · simp [unsigned, whole_toDigits, fraction, exponent]
  · simp [unsigned, whole_toDigits, fraction, exponent]

theorem parseNumber_formatInt {c : Char} (closed : closes c = true) (n : Int) (rest : List Char) :
    parseNumber (formatInt n ++ c :: rest) = some (formatInt n, c :: rest) := by
  cases n with
  | ofNat n =>
    cases isText : Nat.toDigits 10 n with
    | nil => exact absurd isText Nat.toDigits_ne_nil
    | cons d ds =>
      have isDigit := head_digit n isText
      have result := unsigned_toDigits closed n rest
      rw [isText] at result
      rw [List.cons_append] at result
      rw [formatInt, isText, List.cons_append, parseNumber, result]
      rintro _ same
      obtain ⟨rfl, _⟩ := List.cons.inj same
      cases isDigit
  | negSucc n =>
    rw [formatInt, List.cons_append, parseNumber, unsigned_toDigits closed]
    rfl

/-- A number starts with a digit or a minus sign. -/
theorem formatInt_head (n : Int) : ∃ d ds, formatInt n = d :: ds ∧ (d.isDigit = true ∨ d = '-') := by
  cases isText : formatInt n with
  | nil => exact absurd isText (formatInt_ne_nil n)
  | cons d ds => exact ⟨d, ds, rfl, formatInt_chars n d (isText ▸ List.mem_cons_self)⟩

theorem parseValue_number {k : Nat} {n : Int} {c : Char} {rest : List Char}
    (closed : closes c = true) :
    parseValue (k + 1) (formatInt n ++ c :: rest) = some (.number (formatInt n), c :: rest) := by
  have result := parseNumber_formatInt closed n rest
  obtain ⟨d, ds, isText, first⟩ := formatInt_head n
  rw [isText] at result ⊢
  rw [List.cons_append] at result ⊢
  have visible : isSpace d = false := by
    rcases first with digit | rfl
    · by_contra space
      simp only [isSpace, Bool.not_eq_false, Bool.or_eq_true, decide_eq_true_eq] at space
      rcases space with ((rfl | rfl) | rfl) | rfl
      · cases digit
      · cases digit
      · cases digit
      · cases digit
    · rfl
  have other {c' : Char} {xs : List Char} (no : c'.isDigit = false) (no' : c' ≠ '-')
      (same : d :: (ds ++ c :: rest) = c' :: xs) : False := by
    obtain ⟨rfl, _⟩ := List.cons.inj same
    rcases first with digit | minus
    · exact nomatch digit.symm.trans no
    · exact no' minus
  rw [parseValue, skip_cons visible]
  split
  · next same => exact (other (by decide) (by decide) same).elim
  · next same => exact (other (by decide) (by decide) same).elim
  · next same => exact (other (by decide) (by decide) same).elim
  · next same => exact (other (by decide) (by decide) same).elim
  · next same => exact (other (by decide) (by decide) same).elim
  · next same => exact (other (by decide) (by decide) same).elim
  · rw [result]
    rfl

theorem parseValue_string {k : Nat} {s rest : List Char} (h : s.all plain = true) :
    parseValue (k + 1) (quote s ++ rest) = some (.string s, rest) := by
  have result := parseString_plain h rest
  simp only [quote, List.cons_append, List.append_assoc, List.nil_append, parseValue,
    skip_cons (c := '"') rfl, result, Option.map_some]

theorem parseValue_field {field : Scalar} {c : Char} (isPlain : field.isPlain = true)
    (closed : closes c = true) (k : Nat) (rest : List Char) :
    parseValue (k + 1) (field.render ++ c :: rest) = some (field.value, c :: rest) := by
  cases field with
  | int n => exact parseValue_number closed
  | text s => exact parseValue_string isPlain

/-- One member of an object, and what follows it. -/
theorem parseMembers_member {key : List Char} {field : Scalar} {c : Char}
    (plainKey : key.all plain = true) (plainField : field.isPlain = true)
    (closed : closes c = true) (k : Nat) (rest : List Char) :
    parseMembers (k + 2) (quote key ++ ':' :: (field.render ++ c :: rest)) =
      if c = ',' then (parseMembers (k + 1) rest).map fun (members, rest) =>
        ((key, field.value) :: members, rest)
      else some ([(key, field.value)], rest) := by
  have isKey := parseString_plain plainKey (':' :: (field.render ++ c :: rest))
  have isField := parseValue_field plainField closed k rest
  have isClose : c = ',' ∨ c = '}' := by simpa [closes] using closed
  rw [parseMembers]
  simp only [quote, List.cons_append, List.append_assoc, List.nil_append, skip_cons (c := '"') rfl,
    isKey, Option.bind_some, skip_cons (c := ':') rfl, isField]
  rcases isClose with rfl | rfl
  · rfl
  · rfl

theorem parseMembers_render {members : Members} {k : Nat} (some_member : members ≠ [])
    (isPlain : members.isPlain = true) (enough : members.length < k) :
    parseMembers k (renderMembers members) =
      some (members.map fun member => (member.1, member.2.value), []) := by
  fun_induction renderMembers members generalizing k with
  | case1 => exact absurd rfl some_member
  | case2 key field =>
    simp only [Members.isPlain, List.all_cons, List.all_nil, Bool.and_true, Bool.and_eq_true]
      at isPlain
    obtain ⟨j, rfl⟩ : ∃ j, k = j + 2 := ⟨k - 2, by simp only [List.length_cons] at enough; omega⟩
    have result := parseMembers_member isPlain.1 isPlain.2 (c := '}') rfl j []
    rw [List.append_assoc, List.cons_append]
    exact result
  | case3 key field rest more ih =>
    simp only [Members.isPlain, List.all_cons, Bool.and_eq_true] at isPlain
    simp only [List.length_cons] at enough
    obtain ⟨j, rfl⟩ : ∃ j, k = j + 2 := ⟨k - 2, by omega⟩
    have later := ih (k := j + 1) (fun none => more none) isPlain.2 (by omega)
    have result := parseMembers_member isPlain.1.1 isPlain.1.2 (c := ',') rfl j
      (renderMembers rest)
    rw [if_pos rfl, later] at result
    rw [List.append_assoc, List.cons_append]
    exact result

theorem length_renderMembers (members : Members) :
    members.length < (renderMembers members).length := by
  fun_induction renderMembers members with
  | case1 => exact Nat.zero_lt_one
  | case2 key field =>
    simp only [List.length_cons, List.length_append, List.length_nil]
    omega
  | case3 key field rest more ih =>
    simp only [List.length_cons, List.length_append]
    omega

/-- A flat object is read back. -/
theorem parse_render {members : Members} (some_member : members ≠ [])
    (isPlain : members.isPlain = true) :
    parse (render members) =
      some (.object (members.map fun member => (member.1, member.2.value))) := by
  have enough := length_renderMembers members
  have result := parseMembers_render some_member isPlain (Nat.lt_succ_of_lt enough)
  obtain ⟨tail, isTail⟩ : ∃ tail, renderMembers members = '"' :: tail := by
    fun_cases renderMembers members with
    | case1 => exact absurd rfl some_member
    | case2 key field => exact ⟨_, rfl⟩
    | case3 key field rest more => exact ⟨_, rfl⟩
  rw [isTail] at result
  change parseMembers (tail.length + 1 + 1) ('"' :: tail) = _ at result
  simp only [parse, render, isTail, List.length_cons, parseValue, skip_cons (c := '{') rfl,
    skip_cons (c := '"') rfl]
  change ((parseMembers (tail.length + 1 + 1) ('"' :: tail)).map _).bind _ = _
  rw [result]
  rfl

theorem ascii_of_plain {s : List Char} (h : s.all plain = true) : ∀ c ∈ s, c.toNat < 128 := by
  intro c mem
  have isPlain := List.all_eq_true.mp h c mem
  simp only [plain, Bool.and_eq_true, decide_eq_true_eq] at isPlain
  omega

theorem quote_ascii {s : List Char} (h : s.all plain = true) : ∀ c ∈ quote s, c.toNat < 128 := by
  intro c mem
  simp only [quote, List.cons_append, List.mem_cons, List.mem_append, List.not_mem_nil,
    or_false] at mem
  rcases mem with rfl | inside | rfl
  · decide
  · exact ascii_of_plain h c inside
  · decide

theorem Scalar.render_ascii {field : Scalar} (isPlain : field.isPlain = true) :
    ∀ c ∈ field.render, c.toNat < 128 := by
  cases field with
  | int n =>
    intro c mem
    rcases formatInt_chars n c mem with digit | rfl
    · simp only [Char.isDigit, Bool.and_eq_true, decide_eq_true_eq] at digit
      have high : c.toNat ≤ 57 := digit.2
      omega
    · decide
  | text s => exact quote_ascii isPlain

theorem render_ascii {members : Members} (isPlain : members.isPlain = true) :
    ∀ c ∈ render members, c.toNat < 128 := by
  have inner : ∀ c ∈ renderMembers members, c.toNat < 128 := by
    fun_induction renderMembers members with
    | case1 =>
      intro c mem
      rw [List.mem_singleton.mp mem]
      decide
    | case2 key field =>
      simp only [Members.isPlain, List.all_cons, List.all_nil, Bool.and_true, Bool.and_eq_true]
        at isPlain
      intro c mem
      simp only [List.mem_append, List.mem_cons, List.not_mem_nil, or_false] at mem
      rcases mem with (inKey | rfl | value) | rfl
      · exact quote_ascii isPlain.1 c inKey
      · decide
      · exact Scalar.render_ascii isPlain.2 c value
      · decide
    | case3 key field rest more ih =>
      simp only [Members.isPlain, List.all_cons, Bool.and_eq_true] at isPlain
      intro c mem
      simp only [List.mem_append, List.mem_cons] at mem
      rcases mem with (inKey | rfl | value) | rfl | later
      · exact quote_ascii isPlain.1.1 c inKey
      · decide
      · exact Scalar.render_ascii isPlain.1.2 c value
      · decide
      · exact ih isPlain.2 c later
  intro c mem
  rcases List.mem_cons.mp mem with rfl | later
  · decide
  · exact inner c later

theorem parse_bytes {members : Members} (some_member : members ≠ [])
    (isPlain : members.isPlain = true) : parse (ofUtf8 (toUtf8 (render members))) =
      some (.object (members.map fun member => (member.1, member.2.value))) := by
  rw [ofUtf8_toUtf8 (render_ascii isPlain), parse_render some_member isPlain]

end Vidsilo.Library.Json
