import Vidsilo.Categories.Table
import Vidsilo.Library.NetAddr

/-!
# The client address of a rate-limited request

Source: internal/api/ratelimit.go:53-92 (`clientIP`, `xffTrusted`), server.go:51-60,
deploy/lb/vidsilo.conf:18-23. A request enters with the address of the peer and its
`X-Forwarded-For` lines, of which `Header.Get` reads the first. The buckets themselves count in
floating point and are left out: the key picks the bucket.
-/
namespace Vidsilo.Api.ClientIp
open Library.SlashPath Library.NetAddr
open Categories (trim isSpace)

structure Server where
  trustedProxies : List Prefix

structure Request where
  remoteAddr : Text
  /-- The values of the `X-Forwarded-For` lines, in order. -/
  forwardedFor : List Text

/-- The host of `RemoteAddr`, or all of it where it has no port. -/
def peerHost (remoteAddr : Text) : Text :=
  match splitHostPort remoteAddr with
  | some (host, _) => host
  | none => remoteAddr

def xffTrusted (s : Server) (remoteAddr : Text) : Bool :=
  if s.trustedProxies = [] then false
  else match parseAddr (peerHost remoteAddr) with
    | none => false
    | some ip => s.trustedProxies.any (·.contains ip)

/-- The text before the first comma; a comma in front cuts nothing. -/
def cutFirst (xff : Text) : Text :=
  match xff.findIdx? (· = ',') with
  | some i => if 0 < i then xff.take i else xff
  | none => xff

def clientIP (s : Server) (req : Request) : Text :=
  let xff := req.forwardedFor.headD []
  if xff ≠ [] ∧ xffTrusted s req.remoteAddr = true then
    let ip := trim isSpace (cutFirst xff)
    if ip ≠ [] then ip else peerHost req.remoteAddr
  else peerHost req.remoteAddr

/-- The elements between commas, without the blanks around them. -/
def elements (xff : Text) : List Text := (xff.splitOn ',').map (trim isSpace)

/-- The first element, which is empty where the header names nobody there. A header with a comma
in front is taken whole. -/
def leading (xff : Text) : Text :=
  if xff.head? = some ',' then trim isSpace xff else (elements xff).headD []

/-- How a proxy treats the header of the request that it forwards. -/
inductive Proxy where
  /-- Puts the address of its peer in place of what the client has sent. -/
  | replaces
  /-- Puts the address behind what the client has sent. -/
  | appends
  deriving DecidableEq, Repr

def Proxy.forward (client : Option Text) (peer : Text) : Proxy → Text
  | .replaces => peer
  | .appends =>
    match client with
    | none => peer
    | some sent => sent ++ [',', ' '] ++ peer

/-- An address as a proxy writes it. -/
structure Written (peer : Text) : Prop where
  nonempty : peer ≠ []
  noComma : ',' ∉ peer
  noBlank : ∀ c ∈ peer, isSpace c = false

theorem trim_written {peer : Text} (h : Written peer) : trim isSpace peer = peer := by
  have keeps : ∀ s : Text, (∀ c ∈ s, isSpace c = false) → s.dropWhile isSpace = s := by
    intro s visible
    cases s with
    | nil => rfl
    | cons c rest => rw [List.dropWhile_cons_of_neg (by simp [visible c (by simp)])]
  unfold trim
  rw [keeps peer h.noBlank, keeps peer.reverse, List.reverse_reverse]
  intro c mem
  exact h.noBlank c (List.mem_reverse.mp mem)

theorem findIdx_comma_none {xff : Text} (h : ',' ∉ xff) : xff.findIdx? (· = ',') = none := by
  rw [List.findIdx?_eq_none_iff]
  intro c mem
  simp only [decide_eq_false_iff_not]
  intro comma
  exact h (comma ▸ mem)

theorem findIdx_comma_append {first : Text} (rest : Text) (h : ',' ∉ first) :
    (first ++ ',' :: rest).findIdx? (· = ',') = some first.length := by
  rw [List.findIdx?_append, findIdx_comma_none h]
  simp [List.findIdx?_cons]

/-- The text before the first comma, and what follows it. -/
theorem comma_cases (xff : Text) :
    ',' ∉ xff ∨ ∃ first rest, ',' ∉ first ∧ xff = first ++ ',' :: rest := by
  induction xff with
  | nil => exact .inl (by simp)
  | cons c rest ih =>
    by_cases comma : c = ','
    · subst comma
      exact .inr ⟨[], rest, by simp, rfl⟩
    · rcases ih with none_there | ⟨first, after, pure_first, rfl⟩
      · left
        simp [none_there, Ne.symm comma]
      · right
        refine ⟨c :: first, after, ?_, rfl⟩
        simp [pure_first, Ne.symm comma]

theorem elements_no_comma {xff : Text} (h : ',' ∉ xff) : elements xff = [trim isSpace xff] := by
  unfold elements
  rw [List.splitOn_eq_singleton h, List.map_singleton]

theorem elements_head {first : Text} (rest : Text) (h : ',' ∉ first) :
    (elements (first ++ ',' :: rest)).headD [] = trim isSpace first := by
  unfold elements
  rw [List.splitOn_append_cons_self_of_not_mem h]
  rfl

theorem trim_cutFirst (xff : Text) : trim isSpace (cutFirst xff) = leading xff := by
  unfold cutFirst leading
  rcases comma_cases xff with none_there | ⟨first, rest, pure_first, rfl⟩
  · have notFirst : xff.head? ≠ some ',' := by
      intro isFirst
      exact none_there (List.mem_of_mem_head? isFirst)
    rw [findIdx_comma_none none_there, if_neg notFirst, elements_no_comma none_there]
    rfl
  · rw [findIdx_comma_append rest pure_first]
    cases first with
    | nil => simp
    | cons c first =>
      have notFirst : (c :: first ++ ',' :: rest).head? ≠ some ',' := by
        intro isFirst
        simp only [List.cons_append, List.head?_cons, Option.some.injEq] at isFirst
        exact pure_first (by simp [isFirst])
      rw [if_neg notFirst, elements_head rest pure_first]
      simp

/-- The key is the first element of the header where the peer is trusted, and the peer's host
where it is not or the header names nobody. -/
theorem clientIP_eq (s : Server) (req : Request) :
    clientIP s req =
      if xffTrusted s req.remoteAddr = true ∧ leading (req.forwardedFor.headD []) ≠ [] then
        leading (req.forwardedFor.headD [])
      else peerHost req.remoteAddr := by
  simp only [clientIP, trim_cutFirst]
  generalize req.forwardedFor.headD [] = xff
  by_cases trusted : xffTrusted s req.remoteAddr = true
  · by_cases empty : xff = []
    · subst empty
      have silent : leading [] = [] := by decide
      simp [silent]
    · by_cases named : leading xff = []
      · simp [named]
      · simp [empty, trusted, named]
  · simp [trusted]

theorem leading_written {peer : Text} (h : Written peer) : leading peer = peer := by
  rw [← trim_cutFirst, cutFirst, findIdx_comma_none h.noComma]
  exact trim_written h

/-- What is put behind a header does not reach its first element. -/
theorem leading_append {sent : Text} (rest : Text) (hne : sent ≠ [])
    (hcomma : sent.head? ≠ some ',') : leading (sent ++ ',' :: rest) = leading sent := by
  have head : (sent ++ ',' :: rest).head? = sent.head? := by
    cases sent with
    | nil => exact absurd rfl hne
    | cons c sent => rfl
  unfold leading
  rw [head, if_neg hcomma, if_neg hcomma]
  rcases comma_cases sent with none_there | ⟨first, after, pure_first, rfl⟩
  · rw [elements_head rest none_there, elements_no_comma none_there]
    rfl
  · rw [List.append_assoc, List.cons_append, elements_head _ pure_first,
      elements_head _ pure_first]

theorem clientIP_untrusted {s : Server} {remoteAddr : Text}
    (untrusted : xffTrusted s remoteAddr = false) (lines : List Text) :
    clientIP s ⟨remoteAddr, lines⟩ = peerHost remoteAddr := by
  rw [clientIP_eq]
  simp [untrusted]

theorem clientIP_trusted {s : Server} {remoteAddr : Text}
    (trusted : xffTrusted s remoteAddr = true) {xff : Text} (named : leading xff ≠ [])
    (lines : List Text) : clientIP s ⟨remoteAddr, xff :: lines⟩ = leading xff := by
  rw [clientIP_eq]
  simp [trusted, named]

/-- What a client sends names itself: its header does not start with a comma or a blank element. -/
structure Names (sent : Text) : Prop where
  noComma : sent.head? ≠ some ','
  named : leading sent ≠ []

theorem leading_appends {sent : Text} (h : Names sent) (peer : Text) :
    leading (Proxy.appends.forward (some sent) peer) = leading sent := by
  have hne : sent ≠ [] := by
    intro empty
    rw [empty] at h
    exact h.named (by decide)
  have spelled : Proxy.appends.forward (some sent) peer = sent ++ ',' :: (' ' :: peer) := by
    simp [Proxy.forward]
  rw [spelled, leading_append _ hne h.noComma]

/-- For requests from one peer: where the peer is not a trusted proxy, no header has an influence.
Where it is one, headers with the same first element give one key; a proxy that replaces the
header gives the key of its peer, and one that appends to it gives the key that the client
names. -/
theorem key_follows_first_element (s : Server) (remoteAddr : Text) :
    (xffTrusted s remoteAddr = false →
      ∀ lines lines', clientIP s ⟨remoteAddr, lines⟩ = clientIP s ⟨remoteAddr, lines'⟩) ∧
    (xffTrusted s remoteAddr = true →
      (∀ xff xff' lines lines', leading xff = leading xff' →
        clientIP s ⟨remoteAddr, xff :: lines⟩ = clientIP s ⟨remoteAddr, xff' :: lines'⟩) ∧
      (∀ client peer, Written peer →
        clientIP s ⟨remoteAddr, [Proxy.replaces.forward client peer]⟩ = peer) ∧
      ∀ sent sent' peer, Names sent → Names sent' →
        (clientIP s ⟨remoteAddr, [Proxy.appends.forward (some sent) peer]⟩ =
            clientIP s ⟨remoteAddr, [Proxy.appends.forward (some sent') peer]⟩ ↔
          leading sent = leading sent')) := by
  constructor
  · intro untrusted lines lines'
    rw [clientIP_untrusted untrusted, clientIP_untrusted untrusted]
  · intro trusted
    refine ⟨?_, ?_, ?_⟩
    · intro xff xff' lines lines' same
      rw [clientIP_eq, clientIP_eq]
      simp [same]
    · intro client peer written
      have itself := leading_written written
      have named : leading peer ≠ [] := by
        rw [itself]
        exact written.nonempty
      rw [Proxy.forward, clientIP_trusted trusted named, itself]
    · intro sent sent' peer names names'
      have first := leading_appends names peer
      have first' := leading_appends names' peer
      rw [clientIP_trusted trusted (first ▸ names.named),
        clientIP_trusted trusted (first' ▸ names'.named), first, first']

/-- One proxy at 10.0.0.1. -/
def behindProxy : Server := ⟨[⟨⟨[10, 0, 0, 1], []⟩, 32⟩]⟩

def overProxy (sent : Text) : Request :=
  ⟨"10.0.0.1:40000".toList, [Proxy.appends.forward (some sent) "203.0.113.9".toList]⟩

/-- The header has no influence when the peer is untrusted, and two headers to which a trusted
peer has appended one address give one key. -/
def Unchosen (s : Server) : Prop :=
  ∀ remoteAddr,
    (xffTrusted s remoteAddr = false →
      ∀ lines lines', clientIP s ⟨remoteAddr, lines⟩ = clientIP s ⟨remoteAddr, lines'⟩) ∧
    (xffTrusted s remoteAddr = true →
      ∀ client client' peer,
        clientIP s ⟨remoteAddr, [Proxy.appends.forward client peer]⟩ =
          clientIP s ⟨remoteAddr, [Proxy.appends.forward client' peer]⟩)

/-- The client behind the proxy names two addresses that are not its own and gets two keys. -/
theorem client_picks_key : ¬ ∀ s, Unchosen s := by
  intro claimed
  have trusted : xffTrusted behindProxy "10.0.0.1:40000".toList = true := by decide +kernel
  have same := (claimed behindProxy _).2 trusted (some "198.51.100.1".toList)
    (some "198.51.100.2".toList) "203.0.113.9".toList
  have differ : clientIP behindProxy (overProxy "198.51.100.1".toList) ≠
      clientIP behindProxy (overProxy "198.51.100.2".toList) := by decide +kernel
  exact differ same

end Vidsilo.Api.ClientIp
