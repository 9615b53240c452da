import Vidsilo.Api.Guards
import Vidsilo.Categories.Table
import Vidsilo.Library.NetAddr
import Vidsilo.Library.Procedure

/-!
# The addresses that fetches connect to

Source: internal/safeurl/safeurl.go, internal/jobs/jobs.go:151-204 (`Download`, up to the temporary
file), internal/api/media.go:313-351 (`handleBrandingLogo`). `Validate` looks the host up; the
client's transport looks it up once more when it dials, and what it finds then is up to the
resolver. `parse` stands for `url.Parse`, `lower` for `strings.ToLower`. The method and the URL that
net/http writes before an error are left out.
-/
namespace Vidsilo.Fetch.SafeUrl
open Library Library.Procedure Library.SlashPath Library.NetAddr
open Api.Guards (Refusal)
open Categories (trim isSpace)

/-- `url.URL`; `text` is what `String` gives. -/
structure Url where
  scheme : Text
  hostname : Text
  path : Text
  text : Text
  deriving DecidableEq, Repr

/-- `head` is the beginning of the body. -/
structure Response where
  statusCode : Int
  status : Text
  contentType : Text
  contentLength : Int
  head : Bytes
  deriving DecidableEq, Repr

/-- What comes of one request of the client. -/
inductive Reply where
  | failed (error : Text)
  | redirect (location : Url)
  | response (r : Response)
  deriving DecidableEq, Repr

inductive FetchOp : Type → Type where
  /-- `LookupIPAddr`. -/
  | lookup (host : Text) : FetchOp (Except Text (List Bytes))
  /-- The transport dials the host and sends the request. -/
  | exchange (u : Url) : FetchOp Reply

def publicIP (ip : Bytes) : Bool :=
  !(isLoopback ip || isPrivate ip || isLinkLocalUnicast ip || isLinkLocalMulticast ip ||
    isUnspecified ip || isMulticast ip)

/-- An error that wraps `ErrUnsafe`. -/
def notAllowed (reason : Text) : Text := "url is not allowed: ".toList ++ reason

section Fetches
variable (parse : Text → Except Text Url) (lower : Text → Text)

def validate (raw : Text) : Procedure FetchOp (Except Text Url) :=
  match parse (trim isSpace raw) with
  | .error e => pure (.error ("invalid url: ".toList ++ e))
  | .ok u =>
    if u.scheme ≠ "http".toList ∧ u.scheme ≠ "https".toList then
      pure (.error (notAllowed "only http/https urls are allowed".toList))
    else if u.hostname = [] then pure (.error (notAllowed "missing host".toList))
    else do
      match ← ask (.lookup u.hostname) with
      | .error e => pure (.error ("cannot resolve host: ".toList ++ e))
      | .ok ips =>
        if ips.all publicIP then pure (.ok u)
        else pure (.error
          (notAllowed (u.hostname ++ " resolves to a non-public address".toList)))

def maxRedirects : Nat := 5

def tooManyRedirects : Text := "too many redirects".toList

/-- `CheckRedirect` of `Client`, after `via` requests. -/
def checkRedirect (via : Nat) (location : Url) : Procedure FetchOp (Except Text Url) := do
  match ← validate parse location.text with
  | .error e => pure (.error e)
  | .ok _ => if maxRedirects ≤ via then pure (.error tooManyRedirects) else pure (.ok location)

/-- The answer to the last request. The first number bounds the requests; `CheckRedirect` ends the
chain before it does. -/
def follow : Nat → Nat → Url → Procedure FetchOp (Except Text (Url × Response))
  | 0, _, _ => pure (.error tooManyRedirects)
  | fuel + 1, via, u => do
    match ← ask (.exchange u) with
    | .failed e => pure (.error e)
    | .response r => pure (.ok (u, r))
    | .redirect location =>
      match ← checkRedirect parse (via + 1) location with
      | .error e => pure (.error e)
      | .ok next => follow fuel (via + 1) next

/-- `Do` of `Client`, for a `GET` request. -/
def get (raw : Text) : Procedure FetchOp (Except Text (Url × Response)) :=
  match parse raw with
  | .error e => pure (.error e)
  | .ok u => follow parse maxRedirects 0 u

/-- `path.Ext` without the dot, in lower case. -/
def extension (path : Text) : Text :=
  let back := path.reverse.takeWhile (· ≠ '/')
  let ext := back.takeWhile (· ≠ '.')
  if ext.length < back.length then lower ext.reverse else []

/-- The media type without its parameters. -/
def mediaType (contentType : Text) : Text := lower (trim isSpace ((contentType.splitOn ';').headD []))

def contentTypeExt : List (String × String) :=
  [("video/mp4", "mp4"), ("video/mp4v-es", "mp4"), ("video/x-m4v", "m4v"),
    ("video/quicktime", "mov"), ("video/x-matroska", "mkv"), ("video/webm", "webm"),
    ("video/x-msvideo", "avi"), ("video/3gpp", "3gp"), ("video/x-flv", "flv")]

/-- The bytes of an ASCII text. -/
def ascii (s : String) : Bytes := s.toList.map fun c => UInt8.ofNat c.toNat

def slice (b : Bytes) (start stop : Nat) : Bytes := (b.take stop).drop start

def sniffExt (b : Bytes) : Text :=
  if 12 ≤ b.length ∧ slice b 4 8 = ascii "ftyp" then
    if slice b 8 12 = ascii "qt  " then "mov".toList else "mp4".toList
  else if slice b 0 4 = [0x1a, 0x45, 0xdf, 0xa3] then
    if ascii "webm" <:+: b then "webm".toList else "mkv".toList
  else if 12 ≤ b.length ∧ slice b 0 4 = ascii "RIFF" ∧ slice b 8 12 = ascii "AVI " then "avi".toList
  else []

def resolveFrom (final : Url) (r : Response) : Except Text (Url × Text) :=
  let ext := extension lower final.path
  if ext ≠ [] then .ok (final, ext)
  else match contentTypeExt.lookup (String.ofList (mediaType lower r.contentType)) with
    | some known => .ok (final, known.toList)
    | none =>
      let sniffed := sniffExt r.head
      if sniffed ≠ [] then .ok (final, sniffed)
      else .error "cannot determine file type from url, content-type or content".toList

def resolve (raw : Text) : Procedure FetchOp (Except Text (Url × Text)) := do
  match ← validate parse raw with
  | .error e => pure (.error e)
  | .ok u =>
    match ← get parse u.text with
    | .error e => pure (.error e)
    | .ok (final, r) => pure (resolveFrom lower final r)

/-- The path of the URL tells the extension, or the file that is found there. -/
def discover (raw : Text) (u : Url) : Procedure FetchOp (Except Text Text) :=
  let ext := extension lower u.path
  if ext ≠ [] then pure (.ok ext)
  else do
    match ← resolve parse lower raw with
    | .error e => pure (.error e)
    | .ok (_, ext) => pure (.ok ext)

def fetchFile (raw : Text) (allowed : List Text) (maxSize : Int) (ext : Text) :
    Procedure FetchOp (Except Text (Response × Text)) :=
  if ext = [] then pure (.error "cannot determine file type".toList)
  else if ext ∉ allowed then
    pure (.error ("file extension .".toList ++ ext ++ " is not allowed".toList))
  else do
    match ← get parse raw with
    | .error e => pure (.error e)
    | .ok (_, r) =>
      if r.statusCode ≠ 200 then pure (.error ("remote server returned ".toList ++ r.status))
      else if maxSize < r.contentLength then
        pure (.error "file exceeds the configured max upload size".toList)
      else pure (.ok (r, ext))

/-- `allowed` and `maxSize` are settings. An error fails the entry, after `download failed: `. -/
def download (raw : Text) (allowed : List Text) (maxSize : Int) :
    Procedure FetchOp (Except Text (Response × Text)) := do
  match ← validate parse raw with
  | .error e => pure (.error e)
  | .ok u =>
    match ← discover parse lower raw u with
    | .error e => pure (.error e)
    | .ok ext => fetchFile parse raw allowed maxSize ext

inductive LogoAnswer where
  | refused (refusal : Refusal)
  | image (statusCode : Int) (contentType : Text)
  deriving DecidableEq, Repr

def badLogo (message : String) : Procedure FetchOp LogoAnswer :=
  pure (.refused ⟨400, "bad_request", message⟩)

def proxyLogo (u : Url) : Procedure FetchOp LogoAnswer :=
  match parse u.text with
  | .error _ => pure (.refused ⟨500, "internal", "internal error"⟩)
  | .ok target => do
    match ← follow parse maxRedirects 0 target with
    | .error _ => pure (.refused ⟨502, "bad_gateway", "cannot fetch logo"⟩)
    | .ok (_, r) =>
      let contentType := mediaType lower r.contentType
      if "image/".toList <+: contentType then pure (.image r.statusCode contentType)
      else badLogo "logo url is not an image"

def handleBrandingLogo (raw : Text) : Procedure FetchOp LogoAnswer :=
  if raw = [] then badLogo "url is required"
  else match parse (trim isSpace raw) with
    | .error _ => badLogo "logo url must be https"
    | .ok u =>
      if u.scheme ≠ "https".toList then badLogo "logo url must be https"
      else do
        match ← validate parse u.text with
        | .error _ => badLogo "unsafe logo url"
        | .ok _ => proxyLogo parse lower u

inductive Caller where
  | resolve (raw : Text)
  | download (raw : Text) (allowed : List Text) (maxSize : Int)
  | brandingLogo (raw : Text)
  deriving DecidableEq, Repr

inductive Result where
  | resolved (r : Except Text (Url × Text))
  | downloaded (r : Except Text (Response × Text))
  | logo (answer : LogoAnswer)

def fetch : Caller → Procedure FetchOp Result
  | .resolve raw => do
    let r ← resolve parse lower raw
    pure (.resolved r)
  | .download raw allowed maxSize => do
    let r ← download parse lower raw allowed maxSize
    pure (.downloaded r)
  | .brandingLogo raw => do
    let answer ← handleBrandingLogo parse lower raw
    pure (.logo answer)

end Fetches

/-- The addresses that `Validate` has got for a host. -/
structure Lookup where
  host : Text
  ips : List Bytes
  deriving DecidableEq, Repr

/-- The addresses to which the transport has tried to connect for a host, and those that `Validate`
had got for it. -/
structure Dial where
  host : Text
  validated : List Bytes
  tried : List Bytes
  deriving DecidableEq, Repr

structure World where
  lookups : List Lookup
  dials : List Dial
  deriving DecidableEq, Repr

inductive Outcome where
  | answers (ips : List Bytes)
  | fails (error : Text)
  | exchanged (tried : List Bytes) (reply : Reply)
  deriving DecidableEq, Repr

/-- `To16`. -/
def to16 (ip : Bytes) : Bytes := if ip.length = 4 then v4InV6 ++ ip else ip

/-- The text of an address is not sent to the resolver. -/
def answerable (host : Text) (ips : List Bytes) : Bool :=
  match parseAddr host with
  | some addr => ips.all (· = to16 addr.bytes)
  | none => true

def World.validated (w : World) (host : Text) : List Bytes :=
  (w.lookups.filter (·.host = host)).flatMap (·.ips)

def World.answered (w : World) (host : Text) (ips : List Bytes) : World :=
  { w with lookups := w.lookups ++ [⟨host, ips⟩] }

def World.dialed (w : World) (host : Text) (tried : List Bytes) : World :=
  { w with dials := w.dials ++ [⟨host, w.validated host, tried⟩] }

def perform : {β : Type} → FetchOp β → Outcome → World → Option (β × World)
  | _, .lookup host, .answers ips, w =>
    if answerable host ips then some (.ok ips, w.answered host ips) else none
  | _, .lookup _, .fails error, w => some (.error error, w)
  | _, .exchange u, .exchanged tried reply, w =>
    if answerable u.hostname tried then some (reply, w.dialed u.hostname tried) else none
  | _, _, _, _ => none

def start : World := ⟨[], []⟩

/-- The addresses to which a connection is opened. -/
def World.opened (w : World) : List Bytes := w.dials.flatMap (·.tried)

/-- A host that leads to an address that is not public has given one when it was validated. -/
def Dial.Steady (d : Dial) : Prop :=
  (∃ ip ∈ d.tried, publicIP ip = false) → ∃ ip ∈ d.validated, publicIP ip = false

instance (d : Dial) : Decidable d.Steady := inferInstanceAs (Decidable (_ → _))

/-- After any part of the fetch, whatever the resolver and the servers have answered. -/
def OpensPublic (caller : Caller) : Prop :=
  ∀ parse lower outcomes rest w,
    (fetch parse lower caller).steps perform outcomes start = some (rest, w) →
      ∀ ip ∈ w.opened, publicIP ip = true

def passes : Except Text (List Bytes) → Bool
  | .ok ips => ips.all publicIP
  | .error _ => true

/-- Nothing is dialled once an address has been found that is not public. -/
def Vetted {α : Type} (post : α → Bool → Prop) : Bool → Procedure FetchOp α → Prop
  | ok, .ret value => post value ok
  | ok, .call (.lookup _) next => ∀ reply, Vetted post (ok && passes reply) (next reply)
  | ok, .call (.exchange _) next => ok = true ∧ ∀ reply, Vetted post ok (next reply)

variable {α β : Type} {post : α → Bool → Prop} {parse : Text → Except Text Url}
  {lower : Text → Text} {ok : Bool} {w w' : World}

theorem vetted_mono {post' : α → Bool → Prop} {p : Procedure FetchOp α}
    (h : Vetted post ok p) (weaker : ∀ a ok, post a ok → post' a ok) : Vetted post' ok p := by
  induction p generalizing ok with
  | ret value => exact weaker value ok h
  | call op next ih =>
    cases op with
    | lookup host => exact fun reply => ih reply (h reply)
    | exchange u => exact ⟨h.1, fun reply => ih reply (h.2 reply)⟩

theorem vetted_bind {post : β → Bool → Prop} {p : Procedure FetchOp α}
    {k : α → Procedure FetchOp β} (h : Vetted (fun a ok => Vetted post ok (k a)) ok p) :
    Vetted post ok (p >>= k) := by
  induction p generalizing ok with
  | ret value => exact h
  | call op next ih =>
    cases op with
    | lookup host => exact fun reply => ih reply (h reply)
    | exchange u => exact ⟨h.1, fun reply => ih reply (h.2 reply)⟩

/-- A result is given only if all addresses have been public. -/
def Given {α : Type} (r : Except Text α) (ok : Bool) : Prop := r.isOk = true → ok = true

/-- A step that may fail, and what follows it. -/
theorem vetted_bind_except {p : Procedure FetchOp (Except Text α)}
    {k : Except Text α → Procedure FetchOp (Except Text β)} (h : Vetted Given ok p)
    (failed : ∀ e ok, Vetted Given ok (k (.error e))) (rest : ∀ a, Vetted Given true (k (.ok a))) :
    Vetted Given ok (p >>= k) := by
  refine vetted_bind (vetted_mono h fun r ok given => ?_)
  cases r with
  | error e => exact failed e ok
  | ok a =>
    obtain rfl := given rfl
    exact rest a

theorem vetted_validate (raw : Text) : Vetted Given true (validate parse raw) := by
  unfold validate
  split
  · exact nofun
  next u _ =>
    split
    · exact nofun
    · split
      · exact nofun
      · intro reply
        cases reply with
        | error e => exact nofun
        | ok ips =>
          change Vetted Given (ips.all publicIP)
            (if ips.all publicIP then .ret (.ok u) else .ret (.error _))
          split
          next isPublic => exact fun _ => isPublic
          · exact nofun

theorem vetted_checkRedirect (via : Nat) (location : Url) :
    Vetted Given true (checkRedirect parse via location) := by
  refine vetted_bind_except (vetted_validate location.text) (fun _ _ => nofun) fun _ => ?_
  change Vetted Given true (if _ then _ else _)
  split
  · exact nofun
  · exact fun _ => rfl

theorem vetted_follow (fuel via : Nat) (u : Url) :
    Vetted Given true (follow parse fuel via u) := by
  induction fuel generalizing via u with
  | zero => exact nofun
  | succ fuel ih =>
    refine ⟨rfl, fun reply => ?_⟩
    cases reply with
    | failed e => exact nofun
    | response r => exact fun _ => rfl
    | redirect location =>
      exact vetted_bind_except (vetted_checkRedirect (via + 1) location) (fun _ _ => nofun)
        fun next => ih (via + 1) next

theorem vetted_get (raw : Text) : Vetted Given true (get parse raw) := by
  unfold get
  split
  · exact nofun
  · exact vetted_follow _ _ _

theorem vetted_resolve (raw : Text) : Vetted Given true (resolve parse lower raw) :=
  vetted_bind_except (vetted_validate raw) (fun _ _ => nofun) fun u =>
    vetted_bind_except (vetted_get u.text) (fun _ _ => nofun) fun _ => fun _ => rfl

theorem vetted_discover (raw : Text) (u : Url) :
    Vetted Given true (discover parse lower raw u) := by
  change Vetted Given true (if _ then _ else _)
  split
  · exact fun _ => rfl
  · exact vetted_bind_except (vetted_resolve raw) (fun _ _ => nofun) fun _ => fun _ => rfl

theorem vetted_fetchFile (raw : Text) (allowed : List Text) (maxSize : Int) (ext : Text) :
    Vetted Given true (fetchFile parse raw allowed maxSize ext) := by
  unfold fetchFile
  split
  · exact nofun
  · split
    · exact nofun
    · refine vetted_bind_except (vetted_get raw) (fun _ _ => nofun) fun r => ?_
      split
      · cases ‹Except.ok r = _›
      · split
        · exact nofun
        · split
          · exact nofun
          · exact fun _ => rfl

theorem vetted_download (raw : Text) (allowed : List Text) (maxSize : Int) :
    Vetted Given true (download parse lower raw allowed maxSize) :=
  vetted_bind_except (vetted_validate raw) (fun _ _ => nofun) fun u =>
    vetted_bind_except (vetted_discover raw u) (fun _ _ => nofun) fun ext =>
      vetted_fetchFile raw allowed maxSize ext

/-- Any state of the lookups will do at the end. -/
def Anything {α : Type} (_ : α) (_ : Bool) : Prop := True

theorem vetted_handleBrandingLogo (raw : Text) :
    Vetted Anything true (handleBrandingLogo parse lower raw) := by
  unfold handleBrandingLogo
  split
  · trivial
  · split
    · trivial
    next u _ =>
      split
      · trivial
      · refine vetted_bind (vetted_mono (vetted_validate u.text) fun r ok given => ?_)
        cases r with
        | error e => trivial
        | ok _ =>
          obtain rfl := given rfl
          change Vetted Anything true (proxyLogo parse lower u)
          unfold proxyLogo
          split
          · trivial
          next target _ =>
            refine vetted_bind (vetted_mono (vetted_follow maxRedirects 0 target) fun r ok _ => ?_)
            cases r with
            | error e => trivial
            | ok answer =>
              change Vetted Anything ok (if _ then _ else _)
              split
              · trivial
              · trivial

theorem vetted_fetch (caller : Caller) : Vetted Anything true (fetch parse lower caller) := by
  cases caller with
  | resolve raw =>
    exact vetted_bind (vetted_mono (vetted_resolve raw) fun _ _ _ => trivial)
  | download raw allowed maxSize =>
    exact vetted_bind (vetted_mono (vetted_download raw allowed maxSize) fun _ _ _ => trivial)
  | brandingLogo raw =>
    exact vetted_bind (vetted_mono (vetted_handleBrandingLogo raw) fun _ _ _ => trivial)

/-- The addresses with which a host was validated before it was dialled are public. -/
structure Inv (ok : Bool) (w : World) : Prop where
  lookups : ok = true → ∀ l ∈ w.lookups, ∀ ip ∈ l.ips, publicIP ip = true
  dials : ∀ d ∈ w.dials, ∀ ip ∈ d.validated, publicIP ip = true

theorem Inv.answered (h : Inv ok w) (host : Text) (ips : List Bytes) :
    Inv (ok && ips.all publicIP) (w.answered host ips) := by
  refine ⟨fun isOk l mem ip mem' => ?_, h.dials⟩
  obtain ⟨before, isPublic⟩ := Bool.and_eq_true_iff.mp isOk
  rcases List.mem_append.mp mem with old | new
  · exact h.lookups before l old ip mem'
  · obtain rfl := List.mem_singleton.mp new
    exact List.all_eq_true.mp isPublic ip mem'

theorem Inv.dialed (h : Inv true w) (host : Text) (tried : List Bytes) :
    Inv true (w.dialed host tried) := by
  refine ⟨h.lookups, fun d mem ip mem' => ?_⟩
  rcases List.mem_append.mp mem with old | new
  · exact h.dials d old ip mem'
  · obtain rfl := List.mem_singleton.mp new
    obtain ⟨l, isLookup, isAddress⟩ := List.mem_flatMap.mp mem'
    exact h.lookups rfl l (List.mem_of_mem_filter isLookup) ip isAddress

theorem vetted_advance {p p' : Procedure FetchOp α} {outcome : Outcome} (h : Vetted post ok p)
    (inv : Inv ok w) (taken : p.advance perform outcome w = some (p', w')) :
    ∃ ok', Vetted post ok' p' ∧ Inv ok' w' := by
  cases p with
  | ret value => cases taken
  | call op next =>
    obtain ⟨b, performed, rfl⟩ := advance_call taken
    cases op with
    | lookup host =>
      refine ⟨ok && passes b, h b, ?_⟩
      cases outcome with
      | answers ips =>
        simp only [perform, Option.ite_none_right_eq_some, Option.some.injEq, Prod.mk.injEq]
          at performed
        obtain ⟨_, rfl, rfl⟩ := performed
        exact inv.answered host ips
      | fails error =>
        cases performed
        exact (Bool.and_true ok).symm ▸ inv
      | exchanged tried reply => cases performed
    | exchange u =>
      obtain ⟨rfl, rest⟩ := h
      refine ⟨true, rest b, ?_⟩
      cases outcome with
      | exchanged tried reply =>
        simp only [perform, Option.ite_none_right_eq_some, Option.some.injEq, Prod.mk.injEq]
          at performed
        obtain ⟨_, _, rfl⟩ := performed
        exact inv.dialed u.hostname tried
      | _ => cases performed

theorem vetted_steps {p p' : Procedure FetchOp α} {outcomes : List Outcome} (h : Vetted post ok p)
    (inv : Inv ok w) (run : p.steps perform outcomes w = some (p', w')) :
    ∃ ok', Vetted post ok' p' ∧ Inv ok' w' := by
  induction outcomes generalizing p ok w with
  | nil =>
    cases run
    exact ⟨ok, h, inv⟩
  | cons outcome rest ih =>
    obtain ⟨⟨q, t⟩, first, later⟩ := Option.bind_eq_some_iff.mp run
    obtain ⟨ok', h', inv'⟩ := vetted_advance h inv first
    exact ih h' inv' later

/-- After any part of a fetch, whatever was answered: the addresses it has connected to are public
if and only if no host has led to an address that is not public without having given one when it
was validated. -/
theorem opened_public_iff (parse : Text → Except Text Url) (lower : Text → Text) (caller : Caller)
    (outcomes : List Outcome) (rest : Procedure FetchOp Result) (w : World)
    (h : (fetch parse lower caller).steps perform outcomes start = some (rest, w)) :
    (∀ ip ∈ w.opened, publicIP ip = true) ↔ ∀ d ∈ w.dials, d.Steady := by
  have init : Inv true start := 
    ⟨fun _ _ mem => absurd mem List.not_mem_nil, fun _ mem => absurd mem List.not_mem_nil⟩
  obtain ⟨_, _, inv⟩ := vetted_steps (vetted_fetch caller) init h
  constructor
  · intro isPublic d mem tried
    obtain ⟨ip, isTried, notPublic⟩ := tried
    exact nomatch notPublic.symm.trans (isPublic ip (List.mem_flatMap.mpr ⟨d, mem, isTried⟩))
  · intro steady ip mem
    obtain ⟨d, isDial, isTried⟩ := List.mem_flatMap.mp mem
    by_contra notPublic
    obtain ⟨ip', isValidated, notPublic'⟩ :=
      steady d isDial ⟨ip, isTried, Bool.not_eq_true _ ▸ notPublic⟩
    exact nomatch notPublic'.symm.trans (inv.dials d isDial ip' isValidated)

def publicAddress : Bytes := [8, 8, 8, 8]

def metadataService : Bytes := [169, 254, 169, 254]

/-- Every text is the URL of a video, or of a logo, at the host `h`. -/
def parseTo (text : Text) : Except Text Url :=
  .ok ⟨"https".toList, ['h'], "/v.mp4".toList, text⟩

def reply : Response := ⟨200, "200 OK".toList, "image/png".toList, 1, []⟩

def found : Reply := .redirect ⟨"https".toList, ['h'], ['/'], ['r']⟩

/-- A fetch with a redirect; the name keeps its address. -/
def steadyFetch : List Outcome :=
  [.answers [publicAddress], .exchanged [publicAddress] found, .answers [publicAddress],
    .exchanged [publicAddress] (.response reply)]

theorem opened_public_steady : ∃ rest w,
    (fetch parseTo id (.resolve ['r'])).steps perform steadyFetch start = some (rest, w) ∧
      ((∀ ip ∈ w.opened, publicIP ip = true) ↔ ∀ d ∈ w.dials, d.Steady) := by
  have executed : ((fetch parseTo id (.resolve ['r'])).steps perform steadyFetch start).isSome =
    true := by decide +kernel
  obtain ⟨⟨rest, w⟩, run⟩ := Option.isSome_iff_exists.mp executed
  exact ⟨rest, w, run, opened_public_iff parseTo id _ _ rest w run⟩

/-- The name has a public address when it is validated and another one when it is dialled. -/
def rebinding : List Outcome :=
  [.answers [publicAddress], .exchanged [metadataService] (.response reply)]

/-- Every caller connects to an address that is not public. -/
theorem rebinding_opens : ¬ OpensPublic (.resolve ['r']) ∧
    ¬ OpensPublic (.download ['r'] ["mp4".toList] 1) ∧ ¬ OpensPublic (.brandingLogo ['r']) := by
  have opens (caller : Caller)
      (executed : ((fetch parseTo id caller).steps perform rebinding start).any
        (fun r => metadataService ∈ r.2.opened) = true) : ¬ OpensPublic caller := by
    intro isPublic
    obtain ⟨⟨rest, w⟩, run, opened⟩ := (Option.any_eq_true _ _).mp executed
    exact nomatch isPublic parseTo id rebinding rest w run _ (of_decide_eq_true opened)
  exact ⟨opens _ (by decide +kernel), opens _ (by decide +kernel), opens _ (by decide +kernel)⟩

end Vidsilo.Fetch.SafeUrl
