import Mathlib.Data.List.Basic

/-!
# Network addresses

The texts of addresses as the packages net and net/netip read them, and the classes of
addresses that net.IP tells apart. Nothing here depends on the repository. An address is its
bytes: four of them, or sixteen.
-/
namespace Vidsilo.Library.NetAddr

abbrev Bytes := List UInt8

/-- The first twelve bytes of an IPv4 address written as an IPv6 one. -/
def v4InV6 : Bytes := [0, 0, 0, 0, 0, 0, 0, 0, 0, 0, 255, 255]

/-- `IP.To4`. -/
def to4 (ip : Bytes) : Option Bytes :=
  if ip.length = 4 then some ip
  else if ip.length = 16 ∧ ip.take 12 = v4InV6 then some (ip.drop 12)
  else none

/-- A test for the four bytes of an IPv4 address and one for any other address. -/
def byFamily (four other : Bytes → Bool) (ip : Bytes) : Bool :=
  match to4 ip with
  | some ip4 => four ip4
  | none => other ip

def zeros (n : Nat) : Bytes := List.replicate n 0

/-- The byte with this index, where there is one. -/
def byte (ip : Bytes) (i : Nat) : UInt8 := ip.getD i 0

/-- `IP.IsUnspecified`. -/
def isUnspecified : Bytes → Bool := byFamily (· = zeros 4) (· = zeros 16)

/-- `IP.IsLoopback`. -/
def isLoopback : Bytes → Bool := byFamily (fun ip => byte ip 0 = 127) (· = zeros 15 ++ [1])

/-- `IP.IsPrivate`: RFC 1918 and RFC 4193. -/
def isPrivate : Bytes → Bool :=
  byFamily
    (fun ip => byte ip 0 = 10 || (byte ip 0 = 172 && byte ip 1 &&& 0xf0 = 16) ||
      (byte ip 0 = 192 && byte ip 1 = 168))
    (fun ip => ip.length = 16 && byte ip 0 &&& 0xfe = 0xfc)

/-- `IP.IsMulticast`. -/
def isMulticast : Bytes → Bool :=
  byFamily (fun ip => byte ip 0 &&& 0xf0 = 0xe0) (fun ip => ip.length = 16 && byte ip 0 = 0xff)

/-- `IP.IsLinkLocalMulticast`. -/
def isLinkLocalMulticast : Bytes → Bool :=
  byFamily (fun ip => byte ip 0 = 224 && byte ip 1 = 0 && byte ip 2 = 0)
    (fun ip => ip.length = 16 && byte ip 0 = 0xff && byte ip 1 &&& 0x0f = 0x02)

/-- `IP.IsLinkLocalUnicast`. -/
def isLinkLocalUnicast : Bytes → Bool :=
  byFamily (fun ip => byte ip 0 = 169 && byte ip 1 = 254)
    (fun ip => ip.length = 16 && byte ip 0 = 0xfe && byte ip 1 &&& 0xc0 = 0x80)

/-- `netip.Addr`. -/
structure Addr where
  bytes : Bytes
  zone : List Char
  deriving DecidableEq, Repr

/-- A decimal number up to 255 without a leading zero. -/
def octet (s : List Char) : Option UInt8 :=
  if s = [] ∨ s.any (fun c => ¬ c.isDigit) ∨ (s.head? = some '0' ∧ s ≠ ['0']) then none
  else
    let value := s.foldl (fun n c => n * 10 + (c.toNat - '0'.toNat)) 0
    if value ≤ 255 then some (UInt8.ofNat value) else none

/-- Four octets between dots. -/
def parseIPv4 (s : List Char) : Option Bytes :=
  let fields := s.splitOn '.'
  if fields.length = 4 then fields.mapM octet else none

def hexDigit (c : Char) : Option Nat :=
  if c.isDigit then some (c.toNat - '0'.toNat)
  else if 'a' ≤ c ∧ c ≤ 'f' then some (c.toNat - 'a'.toNat + 10)
  else if 'A' ≤ c ∧ c ≤ 'F' then some (c.toNat - 'A'.toNat + 10)
  else none

/-- What the loop over the groups of an IPv6 address has read: the bytes, where the ellipsis
stands, and the rest of the text. -/
structure Groups where
  bytes : Bytes
  ellipsis : Option Nat
  rest : List Char

/-- The groups of hexadecimal digits, as many as there is room for. -/
def groups : Nat → Groups → Option Groups
  | 0, g => some g
  | room + 1, g =>
    let digits := g.rest.takeWhile fun c => (hexDigit c).isSome
    let after := g.rest.drop digits.length
    let value := digits.foldl (fun n c => n * 16 + (hexDigit c).getD 0) 0
    if digits = [] ∨ 4 < digits.length then none
    else if after.head? = some '.' then
      if (g.ellipsis.isNone ∧ g.bytes.length ≠ 12) ∨ 16 < g.bytes.length + 4 then none
      else (parseIPv4 g.rest).map fun four => ⟨g.bytes ++ four, g.ellipsis, []⟩
    else
      let bytes := g.bytes ++ [UInt8.ofNat (value / 256), UInt8.ofNat (value % 256)]
      match after with
      | [] => some ⟨bytes, g.ellipsis, []⟩
      | ':' :: ':' :: more =>
        if g.ellipsis.isSome then none
        else if more = [] then some ⟨bytes, some bytes.length, []⟩
        else groups room ⟨bytes, some bytes.length, more⟩
      | ':' :: c :: more => groups room ⟨bytes, g.ellipsis, c :: more⟩
      | _ => none

/-- The ellipsis stands for the zeros that are missing, at least one group of them. -/
def expand (g : Groups) : Option Bytes :=
  if g.rest ≠ [] then none
  else match g.ellipsis with
    | none => if g.bytes.length = 16 then some g.bytes else none
    | some i =>
      if g.bytes.length < 16 then
        some (g.bytes.take i ++ zeros (16 - g.bytes.length) ++ g.bytes.drop i)
      else none

def parseIPv6 (s : List Char) : Option Addr :=
  let text := s.takeWhile (· ≠ '%')
  let zone := (s.drop text.length).drop 1
  if text.length < s.length ∧ zone = [] then none
  else
    let start : Option Groups := match text with
      | ':' :: ':' :: [] => some ⟨[], some 0, []⟩
      | ':' :: ':' :: rest => groups 8 ⟨[], some 0, rest⟩
      | rest => groups 8 ⟨[], none, rest⟩
    (start.bind expand).map fun bytes => ⟨bytes, zone⟩

/-- `netip.ParseAddr`: the first of the characters `.`, `:` and `%` tells the family. -/
def parseAddr (s : List Char) : Option Addr :=
  match s.find? fun c => c = '.' || c = ':' || c = '%' with
  | some '.' => (parseIPv4 s).map fun bytes => ⟨bytes, []⟩
  | some ':' => parseIPv6 s
  | _ => none

/-- `netip.Prefix`. -/
structure Prefix where
  addr : Addr
  bits : Nat
  deriving DecidableEq, Repr

/-- The bits, most significant first. -/
def bitsOf (ip : Bytes) : List Bool := ip.flatMap fun b => (List.range 8).map b.toBitVec.getMsbD

/-- `Prefix.Contains`; a prefix with more bits than its address has contains nothing. -/
def Prefix.contains (p : Prefix) (ip : Addr) : Bool :=
  p.bits ≤ 8 * p.addr.bytes.length && ip.zone = [] && p.addr.bytes.length = ip.bytes.length &&
    (bitsOf ip.bytes).take p.bits = (bitsOf p.addr.bytes).take p.bits

/-- `net.SplitHostPort`; nothing where it reports an error. -/
def splitHostPort (hostport : List Char) : Option (List Char × List Char) :=
  match hostport.reverse.findIdx? (· = ':') with
  | none => none
  | some back =>
    let i := hostport.length - 1 - back
    let port := hostport.drop (i + 1)
    if hostport.head? = some '[' then
      match hostport.findIdx? (· = ']') with
      | none => none
      | some last =>
        if last + 1 ≠ i ∨ '[' ∈ hostport.drop 1 ∨ ']' ∈ hostport.drop (last + 1) then none
        else some ((hostport.take last).drop 1, port)
    else
      let host := hostport.take i
      if ':' ∈ host ∨ '[' ∈ hostport ∨ ']' ∈ hostport then none else some (host, port)

example : splitHostPort "[2001:db8::1]:443".toList = some ("2001:db8::1".toList, "443".toList) := by
  decide +kernel

example : (parseAddr "::ffff:10.0.0.1".toList).map (·.bytes) = some (v4InV6 ++ [10, 0, 0, 1]) := by
  decide +kernel

end Vidsilo.Library.NetAddr
