import Vidsilo.Api.ClientIp
import Vidsilo.Api.RateLimit
import Vidsilo.Library.Json
import Vidsilo.Library.Layers

/-!
# The middleware around the routes

Source: internal/api/server.go:116-203 and 290-417, internal/api/headers.go:19-50,
internal/api/auth.go:375-402. Every middleware is a handler around a handler; `gzipMiddleware` and
`accessLog` put a writer of their own between, which is a layer over the `ResponseWriter` below.
`perform` is the writer of net/http and `mux` any handler: what it asks of the writer may depend on
all that it reads. Informational statuses, connections that break, and the headers that net/http
itself adds (a date, a length, a type that it guesses) are left out.
-/
namespace Vidsilo.Api.Responses
open Library Library.Decimal Library.Procedure Library.SlashPath
open Categories (trim isSpace)

abbrev Bytes := List UInt8

/-- The values of every header, by its canonical name. -/
abbrev Header := Text → List Text

namespace Header

def get (h : Header) (name : Text) : Text := (h name).headD []

def set (h : Header) (name value : Text) : Header := Function.update h name [value]

def add (h : Header) (name value : Text) : Header := Function.update h name (h name ++ [value])

def del (h : Header) (name : Text) : Header := Function.update h name []

end Header

def vary : Text := "Vary".toList
def contentType : Text := "Content-Type".toList
def contentEncoding : Text := "Content-Encoding".toList
def contentLength : Text := "Content-Length".toList
def cacheControl : Text := "Cache-Control".toList
def gzipCoding : Text := "gzip".toList

/-- A status that ends the header. -/
structure Status where
  code : Nat
  final : 200 ≤ code ∧ code ≤ 999
  deriving DecidableEq

def Status.ok : Status := ⟨200, by decide⟩

/-- What a handler asks of a `ResponseWriter`; a `write` gives the number of bytes and whether there
was no error. -/
inductive WriterOp : Type → Type where
  | get (name : Text) : WriterOp Text
  | set (name value : Text) : WriterOp Unit
  | add (name value : Text) : WriterOp Unit
  | del (name : Text) : WriterOp Unit
  | writeHeader (status : Status) : WriterOp Unit
  | write (bytes : Bytes) : WriterOp (Nat × Bool)
  | panic : WriterOp Empty

/-- `header` may still change; `sent` is what a client gets. -/
structure Response where
  header : Header
  sent : Option (Status × Header)
  written : Nat
  body : Bytes

namespace Response

def empty : Response := ⟨fun _ => [], none, 0, []⟩

/-- The first `WriteHeader` counts, and there is one when the handler is done. -/
def head (r : Response) : Status × Header := r.sent.getD (.ok, r.header)

def writeHeader (r : Response) (status : Status) : Response :=
  { r with sent := some (r.sent.getD (status, r.header)) }

end Response

def bodyAllowed (status : Status) : Bool := status.code ≠ 204 && status.code ≠ 304

/-- The length that a header declares. -/
def declared (h : Header) : Option Nat :=
  (parseInt (h.get contentLength)).bind fun n => if 0 ≤ n then some n.toNat else none

namespace Response

def write (r : Response) (bytes : Bytes) : (Nat × Bool) × Response :=
  let r := r.writeHeader .ok
  if bytes = [] then ((0, true), r)
  else if bodyAllowed r.head.1 = false then ((0, false), r)
  else
    let written := r.written + bytes.length
    if (declared r.head.2).any (· < written) then ((0, false), { r with written := written })
    else ((bytes.length, true), { r with written := written, body := r.body ++ bytes })

end Response

def perform : {β : Type} → WriterOp β → Response → Option (β × Response)
  | _, .get name, r => some (r.header.get name, r)
  | _, .set name value, r => some ((), { r with header := r.header.set name value })
  | _, .add name value, r => some ((), { r with header := r.header.add name value })
  | _, .del name, r => some ((), { r with header := r.header.del name })
  | _, .writeHeader status, r => some ((), r.writeHeader status)
  | _, .write bytes, r => some (r.write bytes)
  | _, .panic, _ => none

def WriterOp.isPanic : {β : Type} → WriterOp β → Bool
  | _, .panic => true
  | _, _ => false

structure Request where
  method : Text
  path : Text
  host : Text
  tls : Bool
  remoteAddr : Text
  header : Header
  /-- What the context holds for `reqIDKey`. -/
  reqID : Text

abbrev Handler (α : Type) := Request → Procedure WriterOp α

/-- A value of texts without characters that JSON escapes, and a line end. -/
def encode (members : Json.Members) : Bytes := Json.toUtf8 (Json.render members ++ ['\n'])

def writeJSON (status : Status) (v : Json.Members) : Procedure WriterOp Unit := do
  ask (.set contentType "application/json".toList)
  let cached ← ask (.get cacheControl)
  if cached = [] then ask (.set cacheControl "no-store".toList) else pure ()
  ask (.writeHeader status)
  let _ ← ask (.write (encode v))
  pure ()

def writeError (status : Status) (code msg : Text) : Procedure WriterOp Unit :=
  writeJSON status [("error".toList, .text code), ("message".toList, .text msg)]

def internalError : Procedure WriterOp Unit :=
  writeError ⟨500, by decide⟩ "internal".toList "internal error".toList

/-- What the middleware reads besides the request. -/
structure Server where
  clientIP : ClientIp.Server
  apiLimiter : RateLimit.RateLimiter
  loginLimiter : RateLimit.RateLimiter
  now : Int
  /-- The id of a request that names none: random, or the time. -/
  newID : Text

/-- One character stands for a byte. -/
def requestID (s : Server) (next : Handler Unit) : Handler Unit := fun r => do
  let named := (r.header.get "X-Request-Id".toList).take 64
  let id := if named = [] then s.newID else named
  ask (.set "X-Request-Id".toList id)
  next { r with reqID := id }

def Server.limiter (s : Server) (r : Request) : RateLimit.RateLimiter :=
  if "/api/auth/".toList <+: r.path ∨ "/api/viewer/".toList <+: r.path then s.loginLimiter
  else s.apiLimiter

def rateLimitAPI (s : Server) (next : Handler Unit) : Handler Unit := fun r =>
  let ip := ClientIp.clientIP s.clientIP ⟨r.remoteAddr, r.header "X-Forwarded-For".toList⟩
  if "/api/".toList <+: r.path ∧ ((s.limiter r).allow ip s.now).1 = false then do
    ask (.set "Retry-After".toList "1".toList)
    writeError ⟨429, by decide⟩ "rate_limited".toList "too many requests".toList
  else next r

def sameOrigin (r : Request) (origin : Text) : Bool :=
  let scheme := if r.tls then "https".toList else "http".toList
  let want := scheme ++ "://".toList ++ r.host
  origin ≠ "null".toList && (origin = want || (want ++ ['/']).isPrefixOf origin)

def originCheck (next : Handler Unit) : Handler Unit := fun r =>
  if r.method = "GET".toList ∨ r.method = "HEAD".toList ∨ r.method = "OPTIONS".toList then next r
  else
    let origin := r.header.get "Origin".toList
    if origin ≠ [] ∧ sameOrigin r origin = false then
      writeError ⟨403, by decide⟩ "forbidden".toList "cross-origin request rejected".toList
    else next r

def csp : Text :=
  ("default-src 'self'; script-src 'self' 'unsafe-inline'; style-src 'self' 'unsafe-inline'; " ++
    "img-src 'self' data:; media-src 'self' blob:; connect-src 'self' blob:; font-src 'self'; " ++
    "base-uri 'self'; form-action 'self'").toList

def isEmbed (r : Request) : Bool := "/embed".toList.isPrefixOf r.path

def securityHeaders (next : Handler Unit) : Handler Unit := fun r => do
  ask (.set "X-Content-Type-Options".toList "nosniff".toList)
  ask (.set "Referrer-Policy".toList "strict-origin-when-cross-origin".toList)
  ask (.set "X-Robots-Tag".toList "noindex, nofollow".toList)
  if r.tls then ask (.set "Strict-Transport-Security".toList "max-age=63072000".toList) else pure ()
  if isEmbed r then
    ask (.set "Content-Security-Policy".toList csp)
  else do
    ask (.set "X-Frame-Options".toList "DENY".toList)
    ask (.set "Content-Security-Policy".toList (csp ++ "; frame-ancestors 'none'".toList))
  next r

def recoverPanic (next : Handler Unit) : Handler Unit := fun r =>
  (next r).rescue WriterOp.isPanic internalError

structure StatusWriter where
  status : Nat
  bytes : Nat

def statusLayer : {β : Type} → WriterOp β → StatusWriter → Procedure WriterOp (β × StatusWriter)
  | _, .writeHeader status, w => do
    ask (.writeHeader status)
    pure ((), { w with status := if w.status = 0 then status.code else w.status })
  | _, .write bytes, w => do
    let r ← ask (.write bytes)
    pure (r, ⟨if w.status = 0 then 200 else w.status, w.bytes + r.1⟩)
  | _, .get name, w => do return (← ask (.get name), w)
  | _, .set name value, w => do return (← ask (.set name value), w)
  | _, .add name value, w => do return (← ask (.add name value), w)
  | _, .del name, w => do return (← ask (.del name), w)
  | _, .panic, w => do return (← ask .panic, w)

/-- The line of the access log, without the time it took. -/
structure AccessLine where
  method : Text
  path : Text
  remote : Text
  status : Nat
  bytes : Nat
  reqID : Text

def accessLog (next : Handler Unit) : Handler AccessLine := fun r => do
  let (_, sw) ← (next r).through statusLayer ⟨0, 0⟩
  pure ⟨r.method, r.path, r.remoteAddr, if sw.status = 0 then 200 else sw.status, sw.bytes, r.reqID⟩

/-- A `gzip.Writer`: what it has put out after each write, and what closing it adds. -/
structure Compressor where
  State : Type
  fresh : State
  write : State → Bytes → Bytes × State
  close : State → Bytes

namespace Compressor

variable (c : Compressor)

def feed (x : c.State × Bytes) (bytes : Bytes) : c.State × Bytes :=
  ((c.write x.1 bytes).2, x.2 ++ (c.write x.1 bytes).1)

/-- The state and all the output after these writes. -/
def after (chunks : List Bytes) : c.State × Bytes := chunks.foldl c.feed (c.fresh, [])

theorem after_concat (chunks : List Bytes) (bytes : Bytes) :
    c.after (chunks ++ [bytes]) = c.feed (c.after chunks) bytes := by
  rw [after, List.foldl_append]
  rfl

end Compressor

/-- The format: what was written comes back. -/
structure Gzip extends Compressor where
  gunzip : Bytes → Option Bytes
  gunzip_close : ∀ chunks, gunzip ((toCompressor.after chunks).2 ++ close (toCompressor.after chunks).1) =
    some chunks.flatten

/-- A coding that puts everything out as it is. -/
def identity : Gzip where
  State := Unit
  fresh := ()
  write _ bytes := (bytes, ())
  close _ := []
  gunzip := some
  gunzip_close chunks := by
    induction chunks using List.reverseRecOn with
    | nil => rfl
    | append_singleton chunks bytes ih =>
      rw [Compressor.after_concat, Compressor.feed, List.flatten_append, List.flatten_singleton]
      simpa using ih

/-- Content types are ASCII. -/
def compressible (ct : Text) : Bool :=
  let ct := trim isSpace (ct.map Char.toLower)
  ct ≠ [] && ("text/".toList <+: ct || "json".toList <:+: ct || "xml".toList <:+: ct)

/-- `failed` is the error that a `gzip.Writer` keeps. -/
structure GzipResponseWriter (c : Compressor) where
  gz : c.State
  failed : Bool
  compressed : Bool
  wrote : Bool

section Compression
variable {c : Compressor}

def newWriter : GzipResponseWriter c := ⟨c.fresh, false, false, false⟩

def GzipResponseWriter.writeHeader (g : GzipResponseWriter c) (status : Status) :
    Procedure WriterOp (GzipResponseWriter c) := do
  let ct ← ask (.get contentType)
  if compressible ct then
    ask (.set contentEncoding gzipCoding)
    ask (.del contentLength)
    ask (.writeHeader status)
    pure { g with wrote := true, compressed := true }
  else
    ask (.writeHeader status)
    pure { g with wrote := true }

/-- The `Write` of the `gzip.Writer`, over the writer below. -/
def GzipResponseWriter.pack (g : GzipResponseWriter c) (bytes : Bytes) :
    Procedure WriterOp ((Nat × Bool) × GzipResponseWriter c) :=
  if g.failed then pure ((0, false), g)
  else
    let (out, gz) := c.write g.gz bytes
    if out = [] then pure ((bytes.length, true), { g with gz := gz })
    else do
      let (_, ok) ← ask (.write out)
      if ok then pure ((bytes.length, true), { g with gz := gz })
      else pure ((0, false), { g with gz := gz, failed := true })

def GzipResponseWriter.write (g : GzipResponseWriter c) (bytes : Bytes) :
    Procedure WriterOp ((Nat × Bool) × GzipResponseWriter c) := do
  let g ← if g.wrote then pure g else g.writeHeader .ok
  if g.compressed then g.pack bytes
  else do return (← ask (.write bytes), g)

def gzipLayer : {β : Type} → WriterOp β → GzipResponseWriter c →
    Procedure WriterOp (β × GzipResponseWriter c)
  | _, .writeHeader status, g => do return ((), ← g.writeHeader status)
  | _, .write bytes, g => g.write bytes
  | _, .get name, g => do return (← ask (.get name), g)
  | _, .set name value, g => do return (← ask (.set name value), g)
  | _, .add name value, g => do return (← ask (.add name value), g)
  | _, .del name, g => do return (← ask (.del name), g)
  | _, .panic, g => do return (← ask .panic, g)

/-- `gz.Close`. -/
def GzipResponseWriter.finish (g : GzipResponseWriter c) : Procedure WriterOp Unit :=
  if g.compressed = true ∧ g.failed = false then do
    let _ ← ask (.write (c.close g.gz))
    pure ()
  else pure ()

end Compression

def acceptsGzip (r : Request) : Bool := gzipCoding <:+: r.header.get "Accept-Encoding".toList

def gzipMiddleware {α : Type} (c : Compressor) (next : Handler α) : Handler α := fun r =>
  if acceptsGzip r then do
    ask (.add vary "Accept-Encoding".toList)
    let (a, g) ← (next r).through gzipLayer (newWriter : GzipResponseWriter c)
    g.finish
    pure a
  else next r

/-- `Handler`, up to the compression. -/
def Server.logged (s : Server) (mux : Handler Unit) : Handler AccessLine :=
  accessLog (recoverPanic (securityHeaders (originCheck (rateLimitAPI s (requestID s mux)))))

def Server.handler (s : Server) (c : Compressor) (mux : Handler Unit) : Handler AccessLine :=
  gzipMiddleware c (s.logged mux)

section Writes
variable {s : Response}

/-- net/http takes all of these bytes. -/
def Response.accepts (resp : Response) (bytes : Bytes) : Bool :=
  bodyAllowed resp.head.1 && (declared resp.head.2).all (resp.written + bytes.length ≤ ·)

theorem write_accepted {bytes : Bytes} (h : s.accepts bytes = true) : s.write bytes =
    ((bytes.length, true),
      ⟨s.header, some s.head, s.written + bytes.length, s.body ++ bytes⟩) := by
  obtain ⟨allowed, fits⟩ := Bool.and_eq_true_iff.mp h
  unfold Response.write
  by_cases none : bytes = []
  · subst none
    simp [Response.writeHeader, Response.head]
  · have room : ¬ (declared (s.writeHeader .ok).head.2).any
        (· < (s.writeHeader .ok).written + bytes.length) = true := by
      change ¬ (declared s.head.2).any (· < s.written + bytes.length) = true
      cases given : declared s.head.2 with
      | none => exact Bool.false_ne_true
      | some n =>
        rw [given, Option.all_some, decide_eq_true_eq] at fits
        simpa using fits
    have taken : ¬ bodyAllowed (s.writeHeader .ok).head.1 = false :=
      fun refused => nomatch allowed.symm.trans refused
    dsimp only
    rw [if_neg none, if_neg taken, if_neg room]
    rfl

theorem head_write (r : Response) (bytes : Bytes) : (r.write bytes).2.head = r.head := by
  unfold Response.write
  dsimp only
  split
  · rfl
  · split
    · rfl
    · split
      · rfl
      · rfl

theorem sent_write (r : Response) (bytes : Bytes) :
    (r.write bytes).2.header = r.header ∧ (r.write bytes).2.sent = (r.writeHeader .ok).sent := by
  unfold Response.write
  dsimp only
  split
  · exact ⟨rfl, rfl⟩
  · split
    · exact ⟨rfl, rfl⟩
    · split
      · exact ⟨rfl, rfl⟩
      · exact ⟨rfl, rfl⟩

theorem length_write (s : Response) (bytes : Bytes) :
    (s.write bytes).2.body.length = s.body.length + (s.write bytes).1.1 := by
  unfold Response.write
  dsimp only
  split
  · rfl
  · split
    · rfl
    · split
      · rfl
      · exact List.length_append

theorem eval_writeHeader {c : Compressor} (g : GzipResponseWriter c) (status : Status) (r : Response) :
    (g.writeHeader status).eval perform r = some
      (if compressible (r.header.get contentType) = true then
        ({ g with wrote := true, compressed := true },
          Response.writeHeader
            { r with header := (r.header.set contentEncoding gzipCoding).del contentLength } status)
      else ({ g with wrote := true }, r.writeHeader status)) := by
  unfold GzipResponseWriter.writeHeader
  rw [ask_bind, eval_call rfl]
  split
  · rfl
  · rfl

end Writes

end Vidsilo.Api.Responses
