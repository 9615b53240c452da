import Vidsilo.Api.MediaAcl
import Vidsilo.Categories.Table

/-!
# Domain lists and the spelling of hosts

Source: internal/api/acls.go:27-40 (`cleanDomains`), internal/api/embed_acl.go:13-68
(`entryAllowed`, `refererHost`).

The lists are stored in lower case. What they are compared with is the host of the URL as
it is written: in any case, with the port and, for an IPv6 address, with brackets. The host
name of a URL is Go's `Hostname`. `unicode.ToLower` is a parameter, with what is used of it.
-/
namespace Vidsilo.Api.EmbedDomains
open Library.SlashPath MediaAcl
open Categories (trim isSpace)

/-- `unicode.ToLower`. -/
structure CaseMap where
  lower : Char → Char
  dot : ∀ c, lower c = '.' ↔ c = '.'

/-- `strings.ToLower`. -/
def CaseMap.toLower (m : CaseMap) (s : Text) : Text := s.map m.lower

/-- One iteration of the loop. What is `seen` is what is in `out`. -/
def cleanDomain (m : CaseMap) (out : List Text) (d : Text) : List Text :=
  let d := m.toLower (trim isSpace d)
  if d = [] ∨ d ∈ out then out else out ++ [d]

def cleanDomains (m : CaseMap) (input : List Text) : List Text := input.foldl (cleanDomain m) []

def isDigit (c : Char) : Bool := '0' ≤ c && c ≤ '9'

/-- `u.Host` without the port, with `colon` the text after the last colon. -/
def stripPort (hostPort : Text) : Text :=
  let colon := hostPort.rtakeWhile (· ≠ ':')
  if ':' ∈ hostPort ∧ colon.all isDigit then (hostPort.rdropWhile (· ≠ ':')).dropLast
  else hostPort

def stripBrackets (host : Text) : Text :=
  if ['['].isPrefixOf host && [']'].isSuffixOf host then (host.drop 1).dropLast else host

/-- `Hostname` of a URL with this `Host`. -/
def hostname (hostPort : Text) : Text := stripBrackets (stripPort hostPort)

/-- The dots of a host are those of its host name. -/
theorem count_stripPort (hostPort : Text) :
    (stripPort hostPort).count '.' = hostPort.count '.' := by
  rw [stripPort]
  split
  · next port =>
    obtain ⟨colon, digits⟩ := port
    have whole : hostPort.rdropWhile (· ≠ ':') ++ hostPort.rtakeWhile (· ≠ ':') = hostPort :=
      List.rdropWhile_append_rtakeWhile
    have nonempty : hostPort.rdropWhile (· ≠ ':') ≠ [] := by
      rw [ne_eq, List.rdropWhile_eq_nil_iff]
      intro all
      simpa using all ':' colon
    have last : (hostPort.rdropWhile (· ≠ ':')).getLast nonempty = ':' := by
      simpa using List.rdropWhile_last_not (· ≠ ':') hostPort nonempty
    have split := List.dropLast_append_getLast nonempty
    rw [last] at split
    have none : (hostPort.rtakeWhile (· ≠ ':')).count '.' = 0 := by
      refine List.count_eq_zero.mpr fun mem => ?_
      exact absurd (List.all_eq_true.mp digits '.' mem) (by decide)
    calc (hostPort.rdropWhile (· ≠ ':')).dropLast.count '.'
        = ((hostPort.rdropWhile (· ≠ ':')).dropLast ++ [':']).count '.' := by
          rw [List.count_append]
          rfl
      _ = (hostPort.rdropWhile (· ≠ ':') ++ hostPort.rtakeWhile (· ≠ ':')).count '.' := by
          rw [split, List.count_append, none, Nat.add_zero]
      _ = hostPort.count '.' := by rw [whole]
  · rfl

theorem count_stripBrackets (host : Text) : (stripBrackets host).count '.' = host.count '.' := by
  rw [stripBrackets]
  split
  · next bracketed =>
    simp only [Bool.and_eq_true, List.isPrefixOf_iff_prefix, List.isSuffixOf_iff_suffix] at bracketed
    obtain ⟨⟨rest, rfl⟩, front, closed⟩ := bracketed
    cases front with
    | nil => simp at closed
    | cons c inner =>
      obtain ⟨rfl, rfl⟩ := List.cons.inj closed
      simp
  · rfl

variable {m : CaseMap}

theorem count_toLower (s : Text) : (m.toLower s).count '.' = s.count '.' := by
  rw [CaseMap.toLower, List.count_eq_countP, List.countP_map, List.count_eq_countP]
  refine List.countP_congr fun c _ => ?_
  simp [m.dot]

/-- A host is not below its own host name. -/
theorem hostMatches_own {host : Text} :
    hostMatches host (m.toLower (hostname host)) = true ↔ host = m.toLower (hostname host) := by
  simp only [hostMatches, Bool.or_eq_true, decide_eq_true_eq, or_iff_left_iff_imp,
    List.isSuffixOf_iff_suffix]
  intro below
  have dots := below.sublist.count_le '.'
  rw [List.count_cons_self, count_toLower, hostname, count_stripBrackets, count_stripPort] at dots
  omega

/-- A list in the table can hold the text. -/
def Storable (m : CaseMap) (d : Text) : Prop := ∃ input, d ∈ cleanDomains m input

theorem mem_cleanDomains {input : List Text} {d : Text} :
    d ∈ cleanDomains m input ↔ d ≠ [] ∧ ∃ x ∈ input, m.toLower (trim isSpace x) = d := by
  have folded : ∀ (input out : List Text), d ∈ input.foldl (cleanDomain m) out ↔
      d ∈ out ∨ d ≠ [] ∧ ∃ x ∈ input, m.toLower (trim isSpace x) = d := by
    intro input
    induction input with
    | nil => simp
    | cons x input ih =>
      intro out
      rw [List.foldl_cons, ih, cleanDomain]
      simp only [List.mem_cons, exists_eq_or_imp]
      split
      · next skipped => grind
      · next kept => grind
  rw [cleanDomains, folded]
  simp

theorem cleanDomains_singleton {d : Text} (h : Storable m d) : ∃ x, cleanDomains m [x] = [d] := by
  obtain ⟨input, mem⟩ := h
  obtain ⟨nonempty, x, _, rfl⟩ := mem_cleanDomains.mp mem
  exact ⟨x, by simp [cleanDomains, cleanDomain, nonempty]⟩

/-- A public entry with a domain list that is stored through `cleanDomains`, on a server
that reads URLs as `s` does. -/
structure Site (m : CaseMap) (s : Server) where
  server : Server
  sameUrls : server.urlHost = s.urlHost
  entry : Entry
  isPublic : entry.isPublic = true
  id : Int
  isACL : entry.domainACLID = some id
  whitelist : List Text
  blocklist : List Text
  stored : server.aclByID id = some ⟨cleanDomains m whitelist, cleanDomains m blocklist⟩

/-- Two anonymous requests from URLs with the same host name, up to letter case. -/
structure SameName (m : CaseMap) (s : Server) (req req' : Request) : Prop where
  anonymous : req.user.id ≤ 0
  anonymous' : req'.user.id ≤ 0
  present : refererHost s req ≠ []
  present' : refererHost s req' ≠ []
  same : m.toLower (hostname (refererHost s req)) = m.toLower (hostname (refererHost s req'))

/-- On every site a request is decided by the host name alone: blocked domains and those below
them are denied, and a whitelist that is not empty allows only its domains and those below. -/
structure ByName (m : CaseMap) (s : Server) (req : Request) : Prop where
  blocked : ∀ site : Site m s, ∀ d ∈ cleanDomains m site.blocklist,
    hostMatches (m.toLower (hostname (refererHost s req))) d = true →
      entryAllowed site.server req site.entry = false
  listed : ∀ site : Site m s, cleanDomains m site.whitelist ≠ [] →
    entryAllowed site.server req site.entry = true → ∃ d ∈ cleanDomains m site.whitelist,
      hostMatches (m.toLower (hostname (refererHost s req))) d = true

structure Consistent (m : CaseMap) (s : Server) (req req' : Request) : Prop where
  same : ∀ site : Site m s,
    entryAllowed site.server req site.entry = entryAllowed site.server req' site.entry
  byName : ByName m s req
  byName' : ByName m s req'

/-- The host of the URL is written as its host name in lower case. -/
def Plain (m : CaseMap) (s : Server) (req : Request) : Prop :=
  refererHost s req = m.toLower (hostname (refererHost s req))

/-- No list tells the host from its host name. -/
def Untold (m : CaseMap) (s : Server) (req : Request) : Prop := ∀ d, Storable m d →
  hostMatches (refererHost s req) d =
    hostMatches (m.toLower (hostname (refererHost s req))) d

section Decisions
variable {s : Server} {req req' : Request}

theorem refererHost_congr {server : Server} (same : server.urlHost = s.urlHost) (req : Request) :
    refererHost server req = refererHost s req := by
  rw [refererHost, refererHost, same]

/-- The decision on a site. -/
theorem entryAllowed_iff (site : Site m s) (anonymous : req.user.id ≤ 0)
    (present : refererHost s req ≠ []) : entryAllowed site.server req site.entry = true ↔
      site.entry.accessDenied = false ∧
      (∀ d ∈ cleanDomains m site.blocklist, hostMatches (refererHost s req) d = false) ∧
      (cleanDomains m site.whitelist = [] ∨
        ∃ d ∈ cleanDomains m site.whitelist, hostMatches (refererHost s req) d = true) := by
  rw [entryAllowed]
  cases denied : site.entry.accessDenied with
  | true =>
    simp only [if_true, Bool.true_eq_false, false_and, iff_false, Bool.and_eq_true,
      decide_eq_true_eq, not_and]
    intro positive
    omega
  | false =>
    simp only [Bool.false_eq_true, if_false, if_neg (not_lt.mpr anonymous), site.isPublic,
      not_true_eq_false, site.isACL, site.stored, refererHost_congr site.sameUrls, present,
      true_and]
    split
    · next hit =>
      obtain ⟨d, mem, hit⟩ := List.any_eq_true.mp hit
      simp only [Bool.false_eq_true, false_iff, not_and]
      intro clear
      rw [clear d mem] at hit
      cases hit
    · next clear =>
      have missed : ∀ d ∈ cleanDomains m site.blocklist,
          hostMatches (refererHost s req) d = false := by
        intro d mem
        by_contra hit
        exact clear (List.any_eq_true.mpr ⟨d, mem, by simpa using hit⟩)
      split
      · next empty => exact ⟨fun _ => ⟨missed, .inl empty⟩, fun _ => rfl⟩
      · next some =>
        rw [List.any_eq_true]
        exact ⟨fun hit => ⟨missed, .inr hit⟩, fun h => h.2.resolve_left some⟩

/-- A public entry with these two lists. -/
def siteWith (m : CaseMap) (s : Server) (whitelist blocklist : List Text) : Site m s where
  server := { s with
    aclByID := fun _ => some ⟨cleanDomains m whitelist, cleanDomains m blocklist⟩ }
  sameUrls := rfl
  entry := ⟨false, true, some 1⟩
  isPublic := rfl
  id := 1
  isACL := rfl
  whitelist := whitelist
  blocklist := blocklist
  stored := rfl

theorem untold_of_byName (anonymous : req.user.id ≤ 0) (present : refererHost s req ≠ [])
    (h : ByName m s req) : Untold m s req := by
  intro d storable
  obtain ⟨x, stored⟩ := cleanDomains_singleton storable
  rw [Bool.eq_iff_iff]
  constructor
  · intro hit
    have allowed : entryAllowed (siteWith m s [x] []).server req (siteWith m s [x] []).entry = true :=
      (entryAllowed_iff (siteWith m s [x] []) anonymous present).mpr
        ⟨rfl, nofun, .inr ⟨d, by simp [siteWith, stored], hit⟩⟩
    obtain ⟨d', mem, hit'⟩ := h.listed (siteWith m s [x] []) (by simp [siteWith, stored]) allowed
    simp only [siteWith, stored, List.mem_singleton] at mem
    exact mem ▸ hit'
  · intro hit
    by_contra miss
    have denied := h.blocked (siteWith m s [] [x]) d (by simp [siteWith, stored]) hit
    have allowed : entryAllowed (siteWith m s [] [x]).server req (siteWith m s [] [x]).entry = true := by
      refine (entryAllowed_iff (siteWith m s [] [x]) anonymous present).mpr ⟨rfl, ?_, .inl rfl⟩
      intro d' mem
      simp only [siteWith, stored, List.mem_singleton] at mem
      rw [mem]
      simpa using miss
    rw [denied] at allowed
    cases allowed

theorem storable_of_mem {input : List Text} {d : Text} (mem : d ∈ cleanDomains m input) :
    Storable m d := ⟨input, mem⟩

theorem byName_of_untold (anonymous : req.user.id ≤ 0) (present : refererHost s req ≠ [])
    (h : Untold m s req) : ByName m s req where
  blocked site d mem hit := by
    by_contra passed
    have clear := ((entryAllowed_iff site anonymous present).mp (by simpa using passed)).2.1 d mem
    rw [h d (storable_of_mem mem), hit] at clear
    cases clear
  listed site nonempty allowed := by
    obtain ⟨d, mem, hit⟩ :=
      ((entryAllowed_iff site anonymous present).mp allowed).2.2.resolve_left nonempty
    exact ⟨d, mem, (h d (storable_of_mem mem)).symm.trans hit⟩

theorem consistent_iff_untold (names : SameName m s req req') :
    Consistent m s req req' ↔ Untold m s req ∧ Untold m s req' := by
  constructor
  · intro h
    exact ⟨untold_of_byName names.anonymous names.present h.byName,
      untold_of_byName names.anonymous' names.present' h.byName'⟩
  · rintro ⟨first, second⟩
    refine ⟨fun site => ?_, byName_of_untold names.anonymous names.present first,
      byName_of_untold names.anonymous' names.present' second⟩
    have equal : ∀ d, Storable m d →
        hostMatches (refererHost s req) d = hostMatches (refererHost s req') d := by
      intro d storable
      rw [first d storable, second d storable, names.same]
    rw [Bool.eq_iff_iff, entryAllowed_iff site names.anonymous names.present,
      entryAllowed_iff site names.anonymous' names.present']
    refine and_congr_right fun _ => and_congr ?_ (or_congr Iff.rfl ?_)
    · exact forall₂_congr fun d mem => by rw [equal d (storable_of_mem mem)]
    · exact exists_congr fun d => and_congr_right fun mem => by rw [equal d (storable_of_mem mem)]

theorem untold_of_plain (h : Plain m s req) : Untold m s req := by
  intro d _
  rw [← h]

/-- A list that holds the host name itself tells every other spelling from it. -/
theorem plain_of_untold (storable : Storable m (m.toLower (hostname (refererHost s req))))
    (h : Untold m s req) : Plain m s req := by
  apply hostMatches_own.mp
  rw [h _ storable]
  simp [hostMatches]

/-- Two URLs of one site are treated alike and by their host name exactly when both write the
host as the host name in lower case, without port and brackets. Only when no list can hold the
host name may they write it otherwise, if no list tells the spellings apart. -/
theorem embed_consistent_iff (names : SameName m s req req') :
    Consistent m s req req' ↔ (Plain m s req ∧ Plain m s req') ∨
      (¬ Storable m (m.toLower (hostname (refererHost s req))) ∧
        Untold m s req ∧ Untold m s req') := by
  rw [consistent_iff_untold names]
  constructor
  · rintro ⟨first, second⟩
    by_cases storable : Storable m (m.toLower (hostname (refererHost s req)))
    · exact .inl ⟨plain_of_untold storable first, plain_of_untold (names.same ▸ storable) second⟩
    · exact .inr ⟨storable, first, second⟩
  · rintro (⟨first, second⟩ | ⟨_, both⟩)
    · exact ⟨untold_of_plain first, untold_of_plain second⟩
    · exact both

end Decisions

theorem upper_cases {c : Char} (upper : c.isUpper = true) :
    ∃ n : Fin 26, c = Char.ofNat (65 + n) := by
  unfold Char.isUpper at upper
  simp only [decide_eq_true_eq, UInt32.le_iff_toNat_le] at upper
  refine ⟨⟨c.toNat - 65, ?_⟩, ?_⟩
  · have last : c.toNat ≤ 90 := upper.2
    omega
  · have first : 65 ≤ c.toNat := upper.1
    rw [show 65 + (c.toNat - 65) = c.toNat by omega, Char.ofNat_toNat]

theorem toLower_of_not_upper {c : Char} (lower : ¬ c.isUpper = true) : c.toLower = c := by
  unfold Char.isUpper at lower
  simp only [decide_eq_true_eq] at lower
  exact dif_neg lower

/-- The letters of ASCII. -/
def asciiCase : CaseMap where
  lower := Char.toLower
  dot c := by
    by_cases upper : c.isUpper = true
    · obtain ⟨n, rfl⟩ := upper_cases upper
      revert n
      decide
    · rw [toLower_of_not_upper upper]

/-- The `Host` of a URL with a scheme and without user information. -/
def authority (v : Text) : Option Text :=
  some (((v.dropWhile (· ≠ '/')).drop 2).takeWhile fun c => c ≠ '/' && c ≠ '?' && c ≠ '#')

def webServer : Server := { publicServer with urlHost := authority }

instance (m : CaseMap) (s : Server) (req : Request) : Decidable (Plain m s req) :=
  inferInstanceAs (Decidable (_ = _))

/-- An anonymous request from the page. -/
def embeddedIn (referer : String) : Request := { anonymous [] with referer := referer.toList }

theorem sameName_of_plain {url url' : String}
    (h : (refererHost webServer (embeddedIn url) ≠ [] ∧
      refererHost webServer (embeddedIn url') ≠ []) ∧
      asciiCase.toLower (hostname (refererHost webServer (embeddedIn url))) =
        asciiCase.toLower (hostname (refererHost webServer (embeddedIn url')))) :
    SameName asciiCase webServer (embeddedIn url) (embeddedIn url') :=
  ⟨le_refl 0, le_refl 0, h.1.1, h.1.2, h.2⟩

theorem embed_consistent_pages : Consistent asciiCase webServer
    (embeddedIn "https://news.org/a") (embeddedIn "http://news.org/b?c=1") :=
  (embed_consistent_iff (sameName_of_plain (by decide +kernel))).mpr
    (.inl ⟨by decide +kernel, by decide +kernel⟩)

/-- A blocked site is denied, but not on another port, and not in capitals. -/
theorem port_hides_blocked_site : ∃ site : Site asciiCase webServer,
    SameName asciiCase webServer (embeddedIn "https://bad.com/a")
      (embeddedIn "https://bad.com:8080/a") ∧
    SameName asciiCase webServer (embeddedIn "https://bad.com/a") (embeddedIn "https://Bad.com/a") ∧
    cleanDomains asciiCase site.blocklist = ["bad.com".toList] ∧
    entryAllowed site.server (embeddedIn "https://bad.com/a") site.entry = false ∧
    entryAllowed site.server (embeddedIn "https://bad.com:8080/a") site.entry = true ∧
    entryAllowed site.server (embeddedIn "https://Bad.com/a") site.entry = true := by
  refine ⟨siteWith asciiCase webServer [] [" Bad.com".toList], sameName_of_plain ?_,
    sameName_of_plain ?_, ?_⟩
  all_goals decide +kernel

end Vidsilo.Api.EmbedDomains
