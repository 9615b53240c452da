import Mathlib.Data.List.Basic

/-!
# Base64 without padding

Go's `base64.RawURLEncoding`: the URL alphabet and no padding. The decoder skips carriage
returns and line feeds, and does not look at the bits of the last character that no byte needs
(`decode_spelling`). `base64.RawStdEncoding` differs in two characters of the alphabet.
Nothing here depends on the repository.
-/
namespace Vidsilo.Library.Base64

def alphabet : List Char :=
  ['A', 'B', 'C', 'D', 'E', 'F', 'G', 'H', 'I', 'J', 'K', 'L', 'M', 'N', 'O', 'P',
   'Q', 'R', 'S', 'T', 'U', 'V', 'W', 'X', 'Y', 'Z', 'a', 'b', 'c', 'd', 'e', 'f',
   'g', 'h', 'i', 'j', 'k', 'l', 'm', 'n', 'o', 'p', 'q', 'r', 's', 't', 'u', 'v',
   'w', 'x', 'y', 'z', '0', '1', '2', '3', '4', '5', '6', '7', '8', '9', '-', '_']

/-- The character of the last six bits. -/
def digit (n : Nat) : Char := alphabet.getD (n % 64) 'A'

/-- `decodeMap`. -/
def index (c : Char) : Option Nat := alphabet.idxOf? c

/-- The bits of three bytes. -/
def bits (a b c : UInt8) : Nat := a.toNat * 65536 + b.toNat * 256 + c.toNat

def encode : List UInt8 → List Char
  | a :: b :: c :: rest =>
    digit (bits a b c / 262144) :: digit (bits a b c / 4096) :: digit (bits a b c / 64) ::
      digit (bits a b c) :: encode rest
  | [a, b] =>
    [digit (bits a b 0 / 262144), digit (bits a b 0 / 4096), digit (bits a b 0 / 64)]
  | [a] => [digit (bits a 0 0 / 262144), digit (bits a 0 0 / 4096)]
  | [] => []

/-- The values of the characters, without the line breaks. -/
def digits : List Char → Option (List Nat)
  | [] => some []
  | c :: rest =>
    if c = '\n' ∨ c = '\r' then digits rest
    else (index c).bind fun d => (digits rest).map (d :: ·)

def join : List Nat → Option (List UInt8)
  | a :: b :: c :: d :: rest =>
    let n := a * 262144 + b * 4096 + c * 64 + d
    (join rest).map fun bytes =>
      UInt8.ofNat (n / 65536) :: UInt8.ofNat (n / 256) :: UInt8.ofNat n :: bytes
  | [a, b, c] =>
    let n := a * 262144 + b * 4096 + c * 64
    some [UInt8.ofNat (n / 65536), UInt8.ofNat (n / 256)]
  | [a, b] => some [UInt8.ofNat ((a * 262144 + b * 4096) / 65536)]
  | [_] => none
  | [] => some []

def decode (text : List Char) : Option (List UInt8) := (digits text).bind join

theorem index_digit (n : Nat) : index (digit n) = some (n % 64) := by
  have all : ∀ d < 64, index (alphabet.getD d 'A') = some d := by decide +kernel
  exact all (n % 64) (Nat.mod_lt n (by omega))

theorem digit_mem (n : Nat) : digit n ∈ alphabet := by
  have all : ∀ d < 64, alphabet.getD d 'A' ∈ alphabet := by decide +kernel
  exact all (n % 64) (Nat.mod_lt n (by omega))

theorem alphabet_no_break : ∀ c ∈ alphabet, ¬ (c = '\n' ∨ c = '\r') := by
  have all : (alphabet.all fun c => decide ¬ (c = '\n' ∨ c = '\r')) = true := by decide +kernel
  intro c mem
  exact of_decide_eq_true (List.all_eq_true.mp all c mem)

theorem digits_nil : digits [] = some [] := rfl

theorem digits_cons (n : Nat) (rest : List Char) :
    digits (digit n :: rest) = (digits rest).map (n % 64 :: ·) := by
  rw [digits, if_neg (alphabet_no_break _ (digit_mem n)), index_digit]
  rfl

/-- The sextets of the encoding. -/
def sextets : List UInt8 → List Nat
  | a :: b :: c :: rest =>
    bits a b c / 262144 % 64 :: bits a b c / 4096 % 64 :: bits a b c / 64 % 64 ::
      bits a b c % 64 :: sextets rest
  | [a, b] => [bits a b 0 / 262144 % 64, bits a b 0 / 4096 % 64, bits a b 0 / 64 % 64]
  | [a] => [bits a 0 0 / 262144 % 64, bits a 0 0 / 4096 % 64]
  | [] => []

theorem digits_encode (bytes : List UInt8) : digits (encode bytes) = some (sextets bytes) := by
  fun_induction encode bytes with
  | case1 a b c rest ih => simp only [digits_cons, ih, sextets, Option.map_some]
  | case2 a b => simp only [digits_cons, digits_nil, sextets, Option.map_some]
  | case3 a => simp only [digits_cons, digits_nil, sextets, Option.map_some]
  | case4 => rfl

theorem ofNat_eq {n : Nat} {a : UInt8} (h : n % 256 = a.toNat) : UInt8.ofNat n = a := by
  apply UInt8.toNat.inj
  rw [UInt8.toNat_ofNat']
  exact h

theorem join_sextets (bytes : List UInt8) : join (sextets bytes) = some bytes := by
  fun_induction sextets bytes with
  | case1 a b c rest ih =>
    have ha := a.toNat_lt
    have hb := b.toNat_lt
    have hc := c.toNat_lt
    simp only [join, ih, Option.map_some, Option.some.injEq, List.cons.injEq, and_true]
    refine ⟨ofNat_eq ?_, ofNat_eq ?_, ofNat_eq ?_⟩
    · simp only [bits]
      omega
    · simp only [bits]
      omega
    · simp only [bits]
      omega
  | case2 a b =>
    have ha := a.toNat_lt
    have hb := b.toNat_lt
    simp only [join, Option.some.injEq, List.cons.injEq, and_true]
    refine ⟨ofNat_eq ?_, ofNat_eq ?_⟩
    · simp only [bits, UInt8.toNat_zero]
      omega
    · simp only [bits, UInt8.toNat_zero]
      omega
  | case3 a =>
    have ha := a.toNat_lt
    simp only [join, Option.some.injEq, List.cons.injEq, and_true]
    apply ofNat_eq
    simp only [bits, UInt8.toNat_zero]
    omega
  | case4 => rfl

theorem decode_encode (bytes : List UInt8) : decode (encode bytes) = some bytes := by
  rw [decode, digits_encode, Option.bind_some, join_sextets]

theorem encode_mem (bytes : List UInt8) : ∀ c ∈ encode bytes, c ∈ alphabet := by
  fun_induction encode bytes with
  | case1 a b c rest ih =>
    intro c mem
    simp only [List.mem_cons] at mem
    rcases mem with rfl | rfl | rfl | rfl | later
    · exact digit_mem _
    · exact digit_mem _
    · exact digit_mem _
    · exact digit_mem _
    · exact ih c later
  | case2 a b =>
    intro c mem
    simp only [List.mem_cons, List.not_mem_nil, or_false] at mem
    rcases mem with rfl | rfl | rfl
    · exact digit_mem _
    · exact digit_mem _
    · exact digit_mem _
  | case3 a =>
    intro c mem
    simp only [List.mem_cons, List.not_mem_nil, or_false] at mem
    rcases mem with rfl | rfl
    · exact digit_mem _
    · exact digit_mem _
  | case4 => exact nofun

theorem not_mem_encode (bytes : List UInt8) {c : Char} (other : c ∉ alphabet) :
    c ∉ encode bytes := fun mem => other (encode_mem bytes c mem)

theorem digits_append (xs ys : List Char) :
    digits (xs ++ ys) = (digits xs).bind fun ds => (digits ys).map (ds ++ ·) := by
  induction xs with
  | nil => simp [digits]
  | cons x rest ih =>
    rw [List.cons_append, digits, digits]
    split
    · exact ih
    · rw [ih]
      cases index x with
      | none => rfl
      | some d =>
        cases digits rest with
        | none => rfl
        | some ds =>
          cases digits ys with
          | _ => rfl

/-- The last character of a group of three may differ in its last two bits. -/
theorem join_last {init : List Nat} {a b : Nat} (group : init.length % 4 = 2)
    (same : a / 4 = b / 4) : join (init ++ [a]) = join (init ++ [b]) := by
  match init with
  | [] => simp at group
  | [_] => simp at group
  | [x, y] =>
    have high : (x * 262144 + y * 4096 + a * 64) / 256 = (x * 262144 + y * 4096 + b * 64) / 256 := by
      omega
    have higher : (x * 262144 + y * 4096 + a * 64) / 65536 =
        (x * 262144 + y * 4096 + b * 64) / 65536 := by omega
    simp only [List.cons_append, List.nil_append, join, high, higher]
  | [_, _, _] => simp at group
  | w :: x :: y :: z :: rest =>
    have later : join (rest ++ [a]) = join (rest ++ [b]) := by
      apply join_last _ same
      simp only [List.length_cons] at group
      omega
    simp only [List.cons_append, join, later]

theorem decode_spelling {init : List Char} {ds : List Nat} {x y : Char} {a b : Nat}
    (isInit : digits init = some ds) (group : ds.length % 4 = 2) (isX : index x = some a)
    (isY : index y = some b) (same : a / 4 = b / 4) : decode (init ++ [x]) = decode (init ++ [y]) := by
  have last {c : Char} {d : Nat} (isC : index c = some d) : digits [c] = some [d] := by
    have mem : c ∈ alphabet := by
      by_contra other
      rw [index, List.idxOf?_eq_none_iff.mpr other] at isC
      cases isC
    rw [digits, if_neg (alphabet_no_break c mem), isC]
    rfl
  simp only [decode, digits_append, isInit, last isX, last isY, Option.bind_some, Option.map_some]
  exact join_last group same

theorem encode_append {front : List UInt8} (groups : front.length % 3 = 0) (back : List UInt8) :
    encode (front ++ back) = encode front ++ encode back := by
  fun_induction encode front with
  | case1 a b c rest ih =>
    have later := ih (by simp only [List.length_cons] at groups; omega)
    simp only [List.cons_append, encode, later]
  | case2 a b => simp at groups
  | case3 a => simp at groups
  | case4 => rfl

theorem sextets_length {bytes : List UInt8} (groups : bytes.length % 3 = 0) :
    (sextets bytes).length % 4 = 0 := by
  fun_induction sextets bytes with
  | case1 a b c rest ih =>
    have later := ih (by simp only [List.length_cons] at groups; omega)
    simp only [List.length_cons]
    omega
  | case2 a b => simp at groups
  | case3 a => simp at groups
  | case4 => rfl

theorem digit_injective {m n : Nat} (h : digit m = digit n) : m % 64 = n % 64 := by
  have same := congrArg index h
  rw [index_digit, index_digit] at same
  exact Option.some.inj same

/-- The two bytes after the last whole group. -/
theorem last_group {bytes : List UInt8} (group : bytes.length % 3 = 2) :
    ∃ front a b, bytes = front ++ [a, b] ∧ front.length % 3 = 0 := by
  have two : (bytes.drop (bytes.length - 2)).length = 2 := by
    rw [List.length_drop]
    omega
  obtain ⟨a, b, isBack⟩ := List.length_eq_two.mp two
  refine ⟨bytes.take (bytes.length - 2), a, b, ?_, ?_⟩
  · rw [← isBack, List.take_append_drop]
  · rw [List.length_take]
    omega

/-- Bytes that end in a group of two have another spelling. -/
theorem other_spelling {bytes : List UInt8} (group : bytes.length % 3 = 2) :
    ∃ text, text ≠ encode bytes ∧ (∀ c ∈ text, c ∈ alphabet) ∧ decode text = some bytes := by
  obtain ⟨front, a, b, isBytes, groups⟩ := last_group group
  subst isBytes
  have isEncoded : encode (front ++ [a, b]) =
      (encode front ++ [digit (bits a b 0 / 262144), digit (bits a b 0 / 4096)]) ++
        [digit (bits a b 0 / 64)] := by
    rw [encode_append groups]
    simp [encode]
  have isInit : digits (encode front ++ [digit (bits a b 0 / 262144), digit (bits a b 0 / 4096)]) =
      some (sextets front ++ [bits a b 0 / 262144 % 64, bits a b 0 / 4096 % 64]) := by
    simp only [digits_append, digits_encode, digits_cons, digits_nil, Option.bind_some,
      Option.map_some]
  have inGroup : (sextets front ++ [bits a b 0 / 262144 % 64, bits a b 0 / 4096 % 64]).length % 4 =
      2 := by
    have whole := sextets_length groups
    rw [List.length_append, List.length_cons, List.length_cons, List.length_nil]
    omega
  have low : bits a b 0 / 64 % 4 = 0 := by
    simp only [bits, UInt8.toNat_zero]
    omega
  refine ⟨(encode front ++ [digit (bits a b 0 / 262144), digit (bits a b 0 / 4096)]) ++
    [digit (bits a b 0 / 64 + 1)], ?_, ?_, ?_⟩
  · rw [isEncoded]
    intro same
    have last := digit_injective (List.cons.inj (List.append_cancel_left same)).1
    omega
  · intro c mem
    simp only [List.mem_append, List.mem_cons, List.not_mem_nil, or_false] at mem
    rcases mem with (inFront | rfl | rfl) | rfl
    · exact encode_mem front c inFront
    · exact digit_mem _
    · exact digit_mem _
    · exact digit_mem _
  · rw [decode_spelling isInit inGroup (index_digit _) (index_digit (bits a b 0 / 64)) (by omega),
      ← isEncoded, decode_encode]

/-- `+` and `/` stand where the URL alphabet has `-` and `_`. -/
def swap (c : Char) : Char :=
  if c = '-' then '+' else if c = '+' then '-' else if c = '_' then '/' else if c = '/' then '_' else c

/-- `base64.RawStdEncoding`. -/
def encodeStd (bytes : List UInt8) : List Char := (encode bytes).map swap

def decodeStd (text : List Char) : Option (List UInt8) := decode (text.map swap)

theorem swap_swap (c : Char) : swap (swap c) = c := by
  by_cases special : c = '-' ∨ c = '+' ∨ c = '_' ∨ c = '/'
  · rcases special with rfl | rfl | rfl | rfl
    · rfl
    · rfl
    · rfl
    · rfl
  · simp only [not_or] at special
    obtain ⟨minus, plus, underscore, slash⟩ := special
    have same : swap c = c := by
      rw [swap, if_neg minus, if_neg plus, if_neg underscore, if_neg slash]
    rw [same, same]

theorem decodeStd_encodeStd (bytes : List UInt8) : decodeStd (encodeStd bytes) = some bytes := by
  have back : swap ∘ swap = id := funext swap_swap
  rw [decodeStd, encodeStd, List.map_map, back, List.map_id, decode_encode]

theorem not_mem_encodeStd (bytes : List UInt8) {c : Char} (other : swap c ∉ alphabet) :
    c ∉ encodeStd bytes := by
  intro mem
  obtain ⟨d, isEncoded, rfl⟩ := List.mem_map.mp mem
  rw [swap_swap] at other
  exact not_mem_encode bytes other isEncoded

end Vidsilo.Library.Base64
