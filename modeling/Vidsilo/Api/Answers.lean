import Vidsilo.Api.Responses

/-!
# Every request is answered

Over the stack of middleware of Api.Responses: which headers every answer has, what the log says of
it, and what a route that panics leaves to the client.
-/
namespace Vidsilo.Api.Answers
open Library Library.Procedure Library.SlashPath Responses

/-- The headers that `securityHeaders` sets. -/
def guards (r : Request) : List (Text × Text) :=
  [("X-Content-Type-Options".toList, "nosniff".toList),
    ("Referrer-Policy".toList, "strict-origin-when-cross-origin".toList),
    ("X-Robots-Tag".toList, "noindex, nofollow".toList)] ++
  (if r.tls then [("Strict-Transport-Security".toList, "max-age=63072000".toList)] else []) ++
  if isEmbed r then [("Content-Security-Policy".toList, csp)]
  else [("X-Frame-Options".toList, "DENY".toList),
    ("Content-Security-Policy".toList, csp ++ "; frame-ancestors 'none'".toList)]

def guardNames : List Text :=
  ["X-Content-Type-Options".toList, "Referrer-Policy".toList, "X-Robots-Tag".toList,
    "Strict-Transport-Security".toList, "X-Frame-Options".toList, "Content-Security-Policy".toList]

/-- The operation changes none of these headers and does not panic. -/
def Leaves (names : List Text) : {β : Type} → WriterOp β → Prop
  | _, .set name _ => name ∉ names
  | _, .add name _ => name ∉ names
  | _, .del name => name ∉ names
  | _, .panic => False
  | _, _ => True

def setAll {α : Type} : List (Text × Text) → Procedure WriterOp α → Procedure WriterOp α
  | [], p => p
  | (name, value) :: rest, p => .call (.set name value) fun _ => setAll rest p

section Guards
variable {α β τ : Type} {l : List (Text × Text)} {p : Procedure WriterOp α}

theorem securityHeaders_eq (next : Handler Unit) (r : Request) :
    securityHeaders next r = setAll (guards r) (next r) := by
  unfold securityHeaders guards
  cases r.tls <;> cases isEmbed r <;> rfl

theorem rescue_setAll (q : Procedure WriterOp α) :
    (setAll l p).rescue WriterOp.isPanic q = setAll l (p.rescue WriterOp.isPanic q) := by
  induction l with
  | nil => rfl
  | cons first rest ih => exact congrArg (Procedure.call _) (funext fun _ => ih)

theorem bind_setAll (k : α → Procedure WriterOp β) : (setAll l p >>= k) = setAll l (p >>= k) := by
  induction l with
  | nil => rfl
  | cons first rest ih => exact congrArg (Procedure.call _) (funext fun _ => ih)

/-- A layer that passes such an operation on. -/
theorem through_setAll {layer : {β : Type} → WriterOp β → τ → Procedure WriterOp (β × τ)}
    (passed : ∀ name value t, layer (.set name value) t = .call (.set name value) fun b => .ret (b, t))
    (t : τ) : (setAll l p).through layer t = setAll l (p.through layer t) := by
  induction l with
  | nil => rfl
  | cons first rest ih =>
    rw [setAll, through, passed]
    exact congrArg (Procedure.call _) (funext fun _ => ih)

theorem eval_setAll (r : Response) : (setAll l p).eval perform r =
    p.eval perform { r with header := l.foldl (fun h x => h.set x.1 x.2) r.header } := by
  induction l generalizing r with
  | nil => rfl
  | cons first rest ih => exact ih _

theorem foldl_set_other {h : Header} {name : Text} (other : name ∉ l.map Prod.fst) :
    l.foldl (fun h x => h.set x.1 x.2) h name = h name := by
  induction l generalizing h with
  | nil => rfl
  | cons first rest ih =>
    rw [List.map_cons, List.mem_cons, not_or] at other
    exact (ih other.2).trans (Function.update_of_ne other.1 _ _)

theorem foldl_set {h : Header} (nodup : (l.map Prod.fst).Nodup) {x : Text × Text} (mem : x ∈ l) :
    l.foldl (fun h x => h.set x.1 x.2) h x.1 = [x.2] := by
  induction l generalizing h with
  | nil => cases mem
  | cons first rest ih =>
    rw [List.map_cons, List.nodup_cons] at nodup
    rcases List.mem_cons.mp mem with rfl | later
    · exact (foldl_set_other nodup.1).trans (Function.update_self ..)
    · exact ih nodup.2 later

theorem guards_nodup (r : Request) : ((guards r).map Prod.fst).Nodup := by
  unfold guards
  cases r.tls <;> cases isEmbed r <;> decide

theorem guards_names (r : Request) : ∀ x ∈ guards r, x.1 ∈ guardNames := by
  unfold guards
  cases r.tls <;> cases isEmbed r <;> decide

/-- All that was set stays set, also in the header that was sent. -/
def Keeps (l : List (Text × Text)) (r : Response) : Prop :=
  ∀ x ∈ l, r.header x.1 = [x.2] ∧ ∀ sent ∈ r.sent, sent.2 x.1 = [x.2]

theorem Keeps.head {r : Response} (h : Keeps l r) : ∀ x ∈ l, r.head.2 x.1 = [x.2] := by
  intro x mem
  cases sent : r.sent with
  | none =>
    rw [Response.head, sent, Option.getD_none]
    exact (h x mem).1
  | some y =>
    rw [Response.head, sent, Option.getD_some]
    exact (h x mem).2 y sent

theorem Keeps.writeHeader {r : Response} (h : Keeps l r) (status : Status) :
    Keeps l (r.writeHeader status) := by
  intro x mem
  refine ⟨(h x mem).1, fun sent isSent => ?_⟩
  cases given : r.sent with
  | none =>
    rw [Response.writeHeader, given, Option.getD_none] at isSent
    cases isSent
    exact (h x mem).1
  | some y =>
    rw [Response.writeHeader, given, Option.getD_some] at isSent
    cases isSent
    exact (h x mem).2 _ given

theorem Keeps.change {r : Response} {names : List Text} (h : Keeps l r) (sub : ∀ x ∈ l, x.1 ∈ names)
    {name : Text} (other : name ∉ names) (values : List Text) :
    Keeps l { r with header := Function.update r.header name values } := by
  intro x mem
  have apart : x.1 ≠ name := fun here => other (here ▸ sub x mem)
  exact ⟨(Function.update_of_ne apart _ _).trans (h x mem).1, (h x mem).2⟩

theorem Keeps.step {names : List Text} (sub : ∀ x ∈ l, x.1 ∈ names) (op : WriterOp β) (r m : Response)
    (b : β) (leaves : Leaves names op) (h : Keeps l r) (taken : perform op r = some (b, m)) :
    Keeps l m := by
  cases op with
  | get name =>
    cases taken
    exact h
  | set name value =>
    cases taken
    exact h.change sub leaves _
  | add name value =>
    cases taken
    exact h.change sub leaves _
  | del name =>
    cases taken
    exact h.change sub leaves _
  | writeHeader status =>
    cases taken
    exact h.writeHeader status
  | write bytes =>
    have given : r.write bytes = (b, m) := Option.some.inj taken
    obtain ⟨header, sent⟩ := sent_write r bytes
    rw [given] at header sent
    intro x mem
    rw [header, sent]
    exact h.writeHeader .ok x mem
  | panic => cases taken

/-- What a layer asks for itself are the headers of compression. -/
theorem leaves_statusLayer {names : List Text} (op : WriterOp β) (w : StatusWriter)
    (leaves : Leaves names op) : (statusLayer op w).Uses (Leaves names) := by
  cases op with
  | panic => exact leaves.elim
  | get | set | add | del | writeHeader | write => exact ⟨leaves, fun _ => trivial⟩

theorem leaves_writeHeader {names : List Text} {c : Compressor}
    (free : contentEncoding ∉ names ∧ contentLength ∉ names) (g : GzipResponseWriter c) (status : Status) :
    (g.writeHeader status).Uses (Leaves names) := by
  unfold GzipResponseWriter.writeHeader
  rw [ask_bind]
  refine ⟨trivial, fun ct => ?_⟩
  dsimp only
  split
  · exact ⟨free.1, fun _ => ⟨free.2, fun _ => ⟨trivial, fun _ => trivial⟩⟩⟩
  · exact ⟨trivial, fun _ => trivial⟩

theorem leaves_pack {names : List Text} {c : Compressor} (g : GzipResponseWriter c) (bytes : Bytes) :
    (g.pack bytes).Uses (Leaves names) := by
  unfold GzipResponseWriter.pack
  dsimp only
  split
  · trivial
  · split
    · trivial
    · rw [ask_bind]
      refine ⟨trivial, fun reply => ?_⟩
      dsimp only
      split <;> trivial

theorem leaves_gzipLayer {names : List Text} {c : Compressor}
    (free : contentEncoding ∉ names ∧ contentLength ∉ names) (op : WriterOp β)
    (g : GzipResponseWriter c) (leaves : Leaves names op) : (gzipLayer op g).Uses (Leaves names) := by
  cases op with
  | writeHeader status => exact uses_bind (leaves_writeHeader free g status) fun _ => trivial
  | write bytes =>
    have rest : ∀ g : GzipResponseWriter c, Uses (Leaves names)
        (if g.compressed then g.pack bytes else do return (← ask (.write bytes), g)) := by
      intro g
      split
      · exact leaves_pack g bytes
      · exact ⟨trivial, fun _ => trivial⟩
    change (g.write bytes).Uses (Leaves names)
    unfold GzipResponseWriter.write
    dsimp only
    split
    · exact rest g
    · exact uses_bind (leaves_writeHeader free g .ok) rest
  | get name => exact ⟨leaves, fun _ => trivial⟩
  | set name value => exact ⟨leaves, fun _ => trivial⟩
  | add name value => exact ⟨leaves, fun _ => trivial⟩
  | del name => exact ⟨leaves, fun _ => trivial⟩
  | panic => exact leaves.elim

theorem perform_isSome {names : List Text} (op : WriterOp β) (r : Response) (leaves : Leaves names op) :
    (perform op r).isSome := by
  cases op with
  | panic => exact leaves.elim
  | get | set | add | del | writeHeader | write => rfl

theorem leaves_writeJSON (status : Status) (v : Json.Members) :
    (writeJSON status v).Uses (Leaves guardNames) := by
  have rest : (.call (.writeHeader status) fun _ => .call (.write (encode v)) fun _ => .ret () :
      Procedure WriterOp Unit).Uses (Leaves guardNames) :=
    ⟨trivial, fun _ => ⟨trivial, fun _ => trivial⟩⟩
  refine ⟨(by decide : contentType ∉ guardNames), fun _ => ⟨trivial, fun cached => ?_⟩⟩
  by_cases none : cached = []
  · subst none
    exact ⟨(by decide : cacheControl ∉ guardNames), fun _ => rest⟩
  · change Uses _ (if cached = [] then _ else _)
    rw [if_neg none]
    exact rest

/-- What a route and the middleware around it may ask for. -/
abbrev MayPanic : {β : Type} → WriterOp β → Prop := fun op => op.isPanic = false → Leaves guardNames op

theorem mayPanic_of_leaves {p : Procedure WriterOp α} (h : p.Uses (Leaves guardNames)) : p.Uses MayPanic :=
  uses_mono h fun _ leaves _ => leaves

variable {server : Server} {mux : Handler Unit}

/-- `originCheck`, `rateLimitAPI` and `requestID` with the routes below. -/
theorem routed_mayPanic (routes : ∀ r, (mux r).Uses MayPanic) (r : Request) :
    (originCheck (rateLimitAPI server (requestID server mux)) r).Uses MayPanic := by
  have named : ∀ r, (requestID server mux r).Uses MayPanic := fun r =>
    ⟨fun _ => (by decide : "X-Request-Id".toList ∉ guardNames), fun _ => routes _⟩
  have limited : ∀ r, (rateLimitAPI server (requestID server mux) r).Uses MayPanic := by
    intro r
    unfold rateLimitAPI
    dsimp only
    split
    · exact ⟨fun _ => (by decide : "Retry-After".toList ∉ guardNames),
        fun _ => mayPanic_of_leaves (leaves_writeJSON _ _)⟩
    · exact named r
  unfold originCheck
  dsimp only
  split
  · exact limited r
  · split
    · exact mayPanic_of_leaves (leaves_writeJSON _ _)
    · exact limited r

/-- The rest of the stack, once the headers are set. -/
def guarded (server : Server) (mux : Handler Unit) (r : Request) : Procedure WriterOp Unit :=
  (originCheck (rateLimitAPI server (requestID server mux)) r).rescue WriterOp.isPanic internalError

theorem guarded_leaves (routes : ∀ r, (mux r).Uses MayPanic) (r : Request) :
    (guarded server mux r).Uses (Leaves guardNames) :=
  uses_rescue (routed_mayPanic routes r) (leaves_writeJSON _ _)

theorem logged_eq (r : Request) : server.logged mux r = setAll (guards r)
    ((guarded server mux r).through statusLayer ⟨0, 0⟩ >>= fun x =>
      pure ⟨r.method, r.path, r.remoteAddr, if x.2.status = 0 then 200 else x.2.status, x.2.bytes,
        r.reqID⟩) := by
  unfold Server.logged accessLog recoverPanic
  rw [securityHeaders_eq, rescue_setAll, through_setAll (fun _ _ _ => rfl), bind_setAll]
  rfl

end Guards

section Status
variable {α β σ : Type} {c : Compressor}

/-- The status that goes out, before and after an operation. -/
def announced : {β : Type} → WriterOp β → Option Status → Option Status
  | _, .writeHeader status, old => some (old.getD status)
  | _, .write _, old => some (old.getD .ok)
  | _, _, old => old

/-- A writer sends the status that it is told first, as long as its state is sound. -/
def Tells (perform' : {β : Type} → WriterOp β → σ → Option (β × σ)) (sent : σ → Option Status)
    (sound : σ → Prop) : Prop :=
  ∀ {β : Type} (op : WriterOp β) (s m : σ) (b : β), sound s → perform' op s = some (b, m) →
    sound m ∧ sent m = announced op (sent s)

def sentStatus (r : Response) : Option Status := r.sent.map Prod.fst

theorem sentStatus_writeHeader (r : Response) (status : Status) :
    sentStatus (r.writeHeader status) = some ((sentStatus r).getD status) := by
  cases sent : r.sent <;> simp [sentStatus, Response.writeHeader, sent]

theorem tells_perform : Tells perform sentStatus fun _ => True := by
  intro β op r m b _ taken
  refine ⟨trivial, ?_⟩
  cases op with
  | writeHeader status =>
    cases taken
    exact sentStatus_writeHeader r status
  | write bytes =>
    have given : r.write bytes = (b, m) := Option.some.inj taken
    have sent := (sent_write r bytes).2
    rw [given] at sent
    exact (congrArg (Option.map Prod.fst) sent).trans (sentStatus_writeHeader r .ok)
  | panic => cases taken
  | get | set | add | del =>
    cases taken
    rfl

/-- What has been sent is not sent again. -/
theorem sentStatus_stays {p : Procedure WriterOp α} {r m : Response} {a : α} {status : Status}
    (sent : sentStatus r = some status) (h : p.eval perform r = some (a, m)) :
    sentStatus m = some status := by
  have keeps : ∀ {β : Type} (op : WriterOp β) (s t : Response) (b : β), True →
      sentStatus s = some status → perform op s = some (b, t) → sentStatus t = some status := by
    intro β op s t b _ sent taken
    rw [(tells_perform op s t b trivial taken).2, sent]
    cases op <;> rfl
  exact eval_keeps (sentStatus · = some status) keeps (uses_all (fun _ => trivial) p) sent h

theorem tells_gzip : Tells (stack gzipLayer perform) (fun x => sentStatus x.2)
    fun x : GzipResponseWriter c × Response => x.1.wrote = true → (sentStatus x.2).isSome := by
  intro β op x m b sound taken
  obtain ⟨g, r⟩ := x
  obtain ⟨⟨⟨b', g'⟩, r'⟩, below, same⟩ := Option.map_eq_some_iff.mp taken
  cases same
  cases op with
  | writeHeader status =>
    simp only [gzipLayer, eval_bind, eval_writeHeader, Option.bind_some] at below
    have sent : sentStatus r' = some ((sentStatus r).getD status) := by
      split at below
      · cases below
        exact sentStatus_writeHeader _ status
      · cases below
        exact sentStatus_writeHeader r status
    exact ⟨fun _ => sent ▸ rfl, sent⟩
  | write bytes =>
    have sent : sentStatus r' = some ((sentStatus r).getD .ok) := by
      simp only [gzipLayer, GzipResponseWriter.write] at below
      split at below
      · next wrote =>
        obtain ⟨status, isSent⟩ := Option.isSome_iff_exists.mp (sound wrote)
        rw [isSent, Option.getD_some]
        exact sentStatus_stays isSent below
      · rw [eval_bind, eval_writeHeader, Option.bind_some] at below
        refine sentStatus_stays ?_ below
        split
        · exact sentStatus_writeHeader _ .ok
        · exact sentStatus_writeHeader r .ok
    exact ⟨fun _ => sent ▸ rfl, sent⟩
  | panic => cases below
  | get | set | add | del =>
    cases below
    exact ⟨sound, rfl⟩

/-- The `if` of a `statusWriter` keeps the first status: none is 0. -/
theorem first_status {old : Option Status} (new : Status) {n : Nat}
    (h : n = (old.map Status.code).getD 0) :
    (if n = 0 then new.code else n) = (old.getD new).code := by
  cases old with
  | none => exact if_pos h
  | some status =>
    have least := status.final.1
    rw [Option.map_some, Option.getD_some] at h
    rw [if_neg (by omega), h, Option.getD_some]

/-- The log has the status that goes out. -/
theorem status_through {perform' : {β : Type} → WriterOp β → σ → Option (β × σ)}
    {sent : σ → Option Status} {sound : σ → Prop} (tells : Tells perform' sent sound)
    {p : Procedure WriterOp α} {s m : σ} {sw : StatusWriter} {a : α} (init : sound s)
    (unsent : sent s = none)
    (h : (p.through statusLayer ⟨0, 0⟩).eval perform' s = some ((a, sw), m)) :
    sound m ∧ sw.status = ((sent m).map Status.code).getD 0 := by
  let holds (x : StatusWriter × σ) : Prop :=
    sound x.2 ∧ x.1.status = ((sent x.2).map Status.code).getD 0
  have keeps : ∀ {β : Type} (op : WriterOp β) (x y : StatusWriter × σ) (b : β), True → holds x →
      stack statusLayer perform' op x = some (b, y) → holds y := by
    intro β op x y b _ before taken
    obtain ⟨w, s⟩ := x
    obtain ⟨⟨⟨b', w'⟩, s'⟩, below, same⟩ := Option.map_eq_some_iff.mp taken
    cases same
    cases op with
    | panic =>
      obtain ⟨r, -, -⟩ := Option.bind_eq_some_iff.mp below
      exact r.1.elim
    | get | set | add | del =>
      obtain ⟨r, performed, rest⟩ := Option.bind_eq_some_iff.mp below
      cases rest
      obtain ⟨still, same⟩ := tells _ s _ _ before.1 performed
      exact ⟨still, before.2.trans (by rw [same]; rfl)⟩
    | writeHeader status =>
      obtain ⟨r, performed, rest⟩ := Option.bind_eq_some_iff.mp below
      cases rest
      obtain ⟨still, same⟩ := tells _ s _ _ before.1 performed
      exact ⟨still, (first_status status before.2).trans (by rw [same]; rfl)⟩
    | write bytes =>
      obtain ⟨r, performed, rest⟩ := Option.bind_eq_some_iff.mp below
      cases rest
      obtain ⟨still, same⟩ := tells _ s _ _ before.1 performed
      exact ⟨still, (first_status .ok before.2).trans (by rw [same]; rfl)⟩
  rw [eval_through] at h
  obtain ⟨⟨a', sw', m'⟩, run, same⟩ := Option.map_eq_some_iff.mp h
  cases same
  exact eval_keeps holds keeps (uses_all (fun _ => trivial) p) ⟨init, by rw [unsent]; rfl⟩ run

theorem head_status (r : Response) : r.head.1.code =
    if ((sentStatus r).map Status.code).getD 0 = 0 then 200
    else ((sentStatus r).map Status.code).getD 0 := by
  cases sent : r.sent with
  | none => simp [Response.head, sentStatus, sent, Status.ok]
  | some x =>
    have least := x.1.final.1
    simp only [Response.head, sentStatus, sent, Option.getD_some, Option.map_some]
    rw [if_neg (by omega)]

end Status

section Answered
variable {server : Server} {c : Compressor} {mux : Handler Unit} {σ : Type} {req : Request}

/-- What `accessLog` does once the headers are set. -/
def logging (server : Server) (mux : Handler Unit) (req : Request) :
    Procedure WriterOp AccessLine :=
  (guarded server mux req).through statusLayer ⟨0, 0⟩ >>= fun x =>
    pure ⟨req.method, req.path, req.remoteAddr, if x.2.status = 0 then 200 else x.2.status, x.2.bytes,
      req.reqID⟩

theorem logging_leaves (server : Server) (routes : ∀ r, (mux r).Uses MayPanic) :
    (logging server mux req).Uses (Leaves guardNames) :=
  uses_bind (uses_through leaves_statusLayer (guarded_leaves routes req) _) fun _ => trivial

theorem status_logging {perform' : {β : Type} → WriterOp β → σ → Option (β × σ)}
    {sent : σ → Option Status} {sound : σ → Prop} (tells : Tells perform' sent sound) {s m : σ}
    {line : AccessLine} (init : sound s) (unsent : sent s = none)
    (h : (logging server mux req).eval perform' s = some (line, m)) : line.status =
      if ((sent m).map Status.code).getD 0 = 0 then 200 else ((sent m).map Status.code).getD 0 := by
  rw [logging, eval_bind] at h
  obtain ⟨⟨⟨a, sw⟩, m'⟩, run, rest⟩ := Option.bind_eq_some_iff.mp h
  cases rest
  rw [← (status_through tells init unsent run).2]

theorem head_finish {g : GzipResponseWriter c} {r m : Response}
    (h : g.finish.eval perform r = some ((), m)) : m.head = r.head := by
  unfold GzipResponseWriter.finish at h
  split at h
  · rw [ask_bind, eval_call rfl] at h
    cases h
    exact head_write _ _
  · cases h
    rfl

/-- A response before anything is sent, with the headers set. -/
def guardedStart (h : Header) (req : Request) : Response :=
  ⟨(guards req).foldl (fun h x => h.set x.1 x.2) h, none, 0, []⟩

theorem keeps_start (h : Header) : Keeps (guards req) (guardedStart h req) :=
  fun _ mem => ⟨foldl_set (guards_nodup req) mem, fun _ sent => nomatch sent⟩

/-- The stack behind gzip, once the headers are set. -/
def packing (server : Server) (c : Compressor) (mux : Handler Unit) (req : Request) :
    Procedure WriterOp AccessLine :=
  (logging server mux req).through gzipLayer (newWriter : GzipResponseWriter c) >>= fun x =>
    x.2.finish >>= fun _ => pure x.1

theorem packing_leaves (server : Server) (c : Compressor) (routes : ∀ r, (mux r).Uses MayPanic) :
    (packing server c mux req).Uses (Leaves guardNames) := by
  refine uses_bind (uses_through (leaves_gzipLayer (by decide)) (logging_leaves server routes) _) fun x => ?_
  refine uses_bind ?_ fun _ => trivial
  unfold GzipResponseWriter.finish
  split
  · exact ⟨trivial, fun _ => trivial⟩
  · trivial

/-- The whole stack sets the headers first. -/
theorem eval_handler : (server.handler c mux req).eval perform .empty =
    if acceptsGzip req then (packing server c mux req).eval perform
      (guardedStart (Header.add (fun _ => []) vary "Accept-Encoding".toList) req)
    else (logging server mux req).eval perform (guardedStart (fun _ => []) req) := by
  unfold Server.handler gzipMiddleware
  split
  · rw [ask_bind, eval_call rfl, logged_eq, through_setAll (fun _ _ _ => rfl), bind_setAll, eval_setAll]
    rfl
  · rw [logged_eq, eval_setAll]
    rfl

/-- Whatever a route does, and even if it panics, its request is answered under the status that is
logged, with all the headers of `securityHeaders`. -/
theorem every_request_answered (routes : ∀ r, (mux r).Uses MayPanic) (req : Request) :
    ∃ line r, (server.handler c mux req).eval perform .empty = some (line, r) ∧
      line.status = r.head.1.code ∧ ∀ x ∈ guards req, r.head.2 x.1 = [x.2] := by
  rw [eval_handler]
  split
  · let start := guardedStart (Header.add (fun _ => []) vary "Accept-Encoding".toList) req
    obtain ⟨⟨line, r⟩, run⟩ := Option.isSome_iff_exists.mp
      (eval_isSome perform_isSome (packing_leaves server c routes) start)
    refine ⟨line, r, run, ?_, (eval_keeps (Keeps (guards req)) (Keeps.step (guards_names req))
      (packing_leaves server c routes) (keeps_start _) run).head⟩
    rw [packing, eval_bind, eval_through] at run
    obtain ⟨⟨⟨line', g⟩, m⟩, first, rest⟩ := Option.bind_eq_some_iff.mp run
    obtain ⟨⟨line'', g', m'⟩, logged, same⟩ := Option.map_eq_some_iff.mp first
    cases same
    rw [eval_bind] at rest
    obtain ⟨⟨_, m''⟩, finished, last⟩ := Option.bind_eq_some_iff.mp rest
    cases last
    rw [head_finish finished, head_status]
    exact status_logging tells_gzip (fun wrote => absurd wrote Bool.false_ne_true) rfl logged
  · obtain ⟨⟨line, r⟩, run⟩ := Option.isSome_iff_exists.mp
      (eval_isSome perform_isSome (logging_leaves server routes)
        (guardedStart (fun _ => []) req))
    refine ⟨line, r, run, ?_, (eval_keeps (Keeps (guards req)) (Keeps.step (guards_names req))
      (logging_leaves server routes) (keeps_start _) run).head⟩
    rw [head_status]
    exact status_logging tells_perform trivial rfl run

/-- What the `statusWriter` knows of the response below it. -/
structure Logged (s : Response) (x : StatusWriter × Response) : Prop where
  below : x.2 = s
  status : x.1.status = ((sentStatus s).map Status.code).getD 0
  bytes : x.1.bytes = s.body.length
  fresh : s.sent = none → s.body = [] ∧ s.written = 0

theorem logged_stops {β : Type} (op : WriterOp β) (s : Response) (x : StatusWriter × Response)
    (_ : Logged s x) (stopped : perform op s = none) : stack statusLayer perform op x = none := by
  cases op with
  | panic => rfl
  | get | set | add | del | writeHeader | write => cases stopped

theorem logged_step {β : Type} (op : WriterOp β) (s m : Response) (x : StatusWriter × Response) (b : β)
    (h : Logged s x) (taken : perform op s = some (b, m)) :
    ∃ y, stack statusLayer perform op x = some (b, y) ∧ Logged m y := by
  obtain ⟨w, r⟩ := x
  obtain ⟨rfl, status, bytes, fresh⟩ := h
  cases op with
  | panic => cases taken
  | get name =>
    cases taken
    exact ⟨_, rfl, rfl, status, bytes, fresh⟩
  | set name value =>
    cases taken
    exact ⟨_, rfl, rfl, status, bytes, fresh⟩
  | add name value =>
    cases taken
    exact ⟨_, rfl, rfl, status, bytes, fresh⟩
  | del name =>
    cases taken
    exact ⟨_, rfl, rfl, status, bytes, fresh⟩
  | writeHeader code =>
    cases taken
    refine ⟨_, rfl, rfl, ?_, bytes, fun unsent => nomatch unsent⟩
    rw [sentStatus_writeHeader]
    exact first_status code status
  | write new =>
    have given : r.write new = (b, m) := Option.some.inj taken
    have length := length_write r new
    obtain ⟨-, sent⟩ := sent_write r new
    rw [given] at length sent
    refine ⟨(⟨if w.status = 0 then 200 else w.status, w.bytes + b.1⟩, m), ?_, rfl, ?_, ?_, fun unsent => ?_⟩
    · rw [stack, statusLayer, ask_bind, eval_call taken]
      rfl
    · have same : sentStatus m = some ((sentStatus r).getD .ok) :=
        (congrArg (Option.map Prod.fst) sent).trans (sentStatus_writeHeader r .ok)
      rw [same]
      exact first_status .ok status
    · rw [length, ← bytes]
    · rw [sent] at unsent
      cases unsent

theorem logged_start (h : Header) (req : Request) :
    Logged (guardedStart h req) (⟨0, 0⟩, guardedStart h req) :=
  ⟨rfl, rfl, rfl, fun _ => ⟨rfl, rfl⟩⟩

theorem stack_stops_iff {β : Type} (op : WriterOp β) (x : StatusWriter × Response) :
    stack statusLayer perform op x = none ↔ op.isPanic = true := by
  cases op with
  | panic => exact ⟨fun _ => rfl, fun _ => rfl⟩
  | get | set | add | del | writeHeader | write => exact ⟨(fun h => nomatch h), (fun h => nomatch h)⟩

/-- Without compression the log counts the bytes of the body. -/
theorem bytes_logging {h : Header} {line : AccessLine} {s : Response}
    (run : (logging server mux req).eval perform (guardedStart h req) = some (line, s)) :
    line.bytes = s.body.length := by
  rw [logging, eval_bind, eval_through] at run
  obtain ⟨⟨⟨a, sw⟩, m⟩, first, rest⟩ := Option.bind_eq_some_iff.mp run
  obtain ⟨⟨a', sw', m'⟩, below, same⟩ := Option.map_eq_some_iff.mp first
  cases same
  cases rest
  have keeps : ∀ {β : Type} (op : WriterOp β) (x y : StatusWriter × Response) (b : β), True →
      Logged x.2 x → stack statusLayer perform op x = some (b, y) → Logged y.2 y := by
    intro β op x y b _ before taken
    cases given : perform op x.2 with
    | none => exact nomatch (logged_stops op x.2 x before given).symm.trans taken
    | some r =>
      obtain ⟨z, same, after⟩ := logged_step op x.2 r.2 x r.1 before given
      obtain ⟨-, rfl⟩ := Prod.mk.inj (Option.some.inj (same.symm.trans taken))
      exact after.below ▸ after
  exact (eval_keeps (fun x => Logged x.2 x) keeps (uses_all (fun _ => trivial) _)
    (logged_start h req) below).bytes

/-- The answer for a panic. -/
def errorBody : Bytes :=
  encode [("error".toList, .text "internal".toList), ("message".toList, .text "internal error".toList)]

theorem eval_internalError {m : Response} (unsent : m.sent = none) (nothing : m.body = [])
    (undeclared : m.header contentLength = []) :
    ∃ r, internalError.eval perform m = some ((), r) ∧ r.head.1.code = 500 ∧ r.body = errorBody := by
  have finish : ∀ k : Header, k contentLength = [] → ∃ r,
      (.call (.writeHeader ⟨500, by decide⟩) fun _ => .call (.write errorBody) fun _ => .ret () :
        Procedure WriterOp Unit).eval perform { m with header := k } = some ((), r) ∧
          r.head.1.code = 500 ∧ r.body = errorBody := by
    intro k free
    have head : (Response.writeHeader { m with header := k } ⟨500, by decide⟩).head =
        (⟨500, by decide⟩, k) := by rw [Response.head, Response.writeHeader, unsent]; rfl
    have takes : (Response.writeHeader { m with header := k } ⟨500, by decide⟩).accepts errorBody = true := by
      have none : declared k = none := by
        rw [declared, Header.get, free]
        rfl
      rw [Response.accepts, head, none]
      rfl
    rw [eval_call rfl, eval_call (congrArg some (write_accepted takes)), head]
    refine ⟨_, rfl, rfl, ?_⟩
    exact congrArg (· ++ errorBody) nothing
  unfold internalError writeError writeJSON
  rw [ask_bind, eval_call rfl, ask_bind, eval_call rfl]
  have free : (m.header.set contentType "application/json".toList) contentLength = [] :=
    (Function.update_of_ne (by decide) _ _).trans undeclared
  split
  · rw [ask_bind, eval_call rfl]
    exact finish _ ((Function.update_of_ne (by decide) _ _).trans free)
  · exact finish _ free

/-- A route that panics before it has sent anything or declared a length leaves an error behind;
without compression that is what the client gets. -/
theorem crash_reported {m : Response} (crash :
      (originCheck (rateLimitAPI server (requestID server mux)) req).last perform
        (guardedStart (fun _ => []) req) = (none, m))
    (unsent : m.sent = none) (undeclared : m.header contentLength = []) :
    ∃ line r, (server.logged mux req).eval perform .empty = some (line, r) ∧
      r.head.1.code = 500 ∧ r.body = errorBody ∧ line.status = 500 ∧
      line.bytes = errorBody.length ∧ ∀ c : Compressor, acceptsGzip req = false →
        (server.handler c mux req).eval perform .empty = some (line, r) := by
  let start := guardedStart (fun _ => []) req
  let routed := originCheck (rateLimitAPI server (requestID server mux)) req
  obtain ⟨stopped, logged⟩ := last_simulates logged_stops logged_step routed (logged_start (fun _ => []) req)
  rw [crash] at stopped logged
  obtain ⟨r, answered, status, body⟩ := eval_internalError unsent (logged.fresh unsent).1 undeclared
  obtain ⟨y, answered', final⟩ := eval_simulates (fun op s m s' b rel _ => logged_step op s m s' b rel)
    logged (passes_all _ _) answered
  have run : (guarded server mux req).eval (stack statusLayer perform) (⟨0, 0⟩, start) = some ((), y) := by
    rw [guarded, eval_rescue stack_stops_iff]
    generalize reached : routed.last (stack statusLayer perform) (⟨0, 0⟩, start) = last at stopped answered'
    obtain ⟨o, x⟩ := last
    obtain rfl : o = none := stopped
    exact answered'
  obtain ⟨rfl, line, bytes, -⟩ := final
  let entry : AccessLine := ⟨req.method, req.path, req.remoteAddr,
    if y.1.status = 0 then 200 else y.1.status, y.1.bytes, req.reqID⟩
  have below : (server.logged mux req).eval perform .empty = some (entry, y.2) := by
    rw [logged_eq, eval_setAll]
    change ((_ >>= _ : Procedure WriterOp AccessLine).eval perform start) = _
    rw [eval_bind, eval_through, run]
    rfl
  refine ⟨entry, y.2, below, status, body, ?_, bytes.trans (congrArg List.length body), ?_⟩
  · dsimp only [entry]
    rw [line, ← head_status]
    exact status
  · intro c plain
    rw [Server.handler, gzipMiddleware, plain, if_neg Bool.false_ne_true]
    exact below

end Answered

def handleNotFound : Handler Unit := fun _ =>
  writeError ⟨404, by decide⟩ "not_found".toList "endpoint not found".toList

def crashing : Handler Unit := fun _ => .call .panic Empty.elim

def newServer : Server :=
  ⟨⟨[]⟩, RateLimit.newRateLimiter 120 120, RateLimit.newRateLimiter 5 5, 0, "0123456789abcdef".toList⟩

def browser : Request where
  method := "GET".toList
  path := "/api/nothing".toList
  host := "localhost".toList
  tls := false
  remoteAddr := "127.0.0.1:5000".toList
  header := Header.set (fun _ => []) "Accept-Encoding".toList "gzip, br".toList
  reqID := []

theorem every_request_answered_crashing : ∃ line r,
    (newServer.handler identity.toCompressor crashing browser).eval perform .empty = some (line, r) ∧
      line.status = r.head.1.code ∧ ∀ x ∈ guards browser, r.head.2 x.1 = [x.2] :=
  every_request_answered (show ∀ r, (crashing r).Uses MayPanic from
    fun _ => ⟨(fun calm => nomatch calm), fun b : Empty => b.elim⟩) browser

/-- A client that does not accept gzip. -/
def plainClient : Request := { browser with header := fun _ => [] }

theorem crash_reported_crashing : acceptsGzip plainClient = false ∧ ∃ line r,
    (newServer.logged crashing plainClient).eval perform .empty = some (line, r) ∧
      r.head.1.code = 500 ∧ r.body = errorBody ∧ line.status = 500 ∧
      line.bytes = errorBody.length ∧ ∀ c : Compressor, acceptsGzip plainClient = false →
        (newServer.handler c crashing plainClient).eval perform .empty = some (line, r) :=
  ⟨by decide, crash_reported rfl rfl rfl⟩

end Vidsilo.Api.Answers
