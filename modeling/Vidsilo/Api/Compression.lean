import Vidsilo.Api.Answers

/-!
# Compression is transparent

Source: internal/api/server.go:291-342 (`gzipMiddleware`, `gzipResponseWriter`). A handler behind the
middleware asks for the same as one without it, and what was put into the response below is read
back by a client as what was written.
-/
namespace Vidsilo.Api.Compression
open Library Library.Procedure Library.SlashPath Responses Answers

structure Received where
  status : Status
  header : Header
  body : Option Bytes

def received (gunzip : Bytes → Option Bytes) (r : Request) (resp : Response) : Received where
  status := resp.head.1
  header := resp.head.2
  body :=
    if r.method = "HEAD".toList ∨ bodyAllowed resp.head.1 = false then some []
    else if resp.head.2.get contentEncoding = gzipCoding then gunzip resp.body
    else some resp.body

/-- The body has the length that the header declares, if it does. -/
def Complete (resp : Response) : Prop :=
  ∀ n ∈ declared resp.head.2, resp.body.length = n

/-- The headers that tell of the compression. -/
def replaced : List Text := [vary, contentEncoding, contentLength]

/-- What a handler may ask for: it does not look at what tells of the compression and names no
coding of its own, the type of the content is not found compressible once other content has been
announced, and every write is taken. -/
def undisturbed : {β : Type} → WriterOp β → Response → Bool
  | _, .get name, resp => name ≠ vary && (resp.sent.isNone || name ∉ replaced)
  | _, .set name _, _ => name ≠ contentEncoding
  | _, .add name _, _ => name ≠ contentEncoding
  | _, .del _, _ => true
  | _, .writeHeader _, resp => resp.sent.all fun x =>
      !compressible (resp.header.get contentType) || compressible (x.2.get contentType)
  | _, .write bytes, resp => resp.accepts bytes
  | _, .panic, _ => true

/-- The headers agree, up to these. -/
def Agree (names : List Text) (h h' : Header) : Prop := ∀ name ∉ names, h' name = h name

namespace Agree
variable {names : List Text} {h h' : Header} {name : Text}

theorem get (agree : Agree names h h') (other : name ∉ names) : h'.get name = h.get name := by
  rw [Header.get, agree name other, Header.get]

theorem update (agree : Agree names h h') {values values' : List Text}
    (same : name ∉ names → values' = values) :
    Agree names (Function.update h name values) (Function.update h' name values') := by
  intro n other
  by_cases here : n = name
  · subst here
    rw [Function.update_self, Function.update_self, same other]
  · rw [Function.update_of_ne here, Function.update_of_ne here, agree n other]

theorem set (agree : Agree names h h') (value : Text) : Agree names (h.set name value) (h'.set name value) :=
  agree.update fun _ => rfl

theorem add (agree : Agree names h h') (value : Text) : Agree names (h.add name value) (h'.add name value) :=
  agree.update fun other => by rw [agree name other]

theorem del (agree : Agree names h h') : Agree names (h.del name) (h'.del name) :=
  agree.update fun _ => rfl

/-- What changes below only is one of the names. -/
theorem below (agree : Agree names h h') (mem : name ∈ names) (values : List Text) :
    Agree names h (Function.update h' name values) := by
  intro n other
  have apart : n ≠ name := fun here => other (here.symm ▸ mem)
  rw [Function.update_of_ne apart, agree n other]

theorem weaken {names' : List Text} (agree : Agree names h h') (sub : names ⊆ names') : Agree names' h h' :=
  fun name other => agree name fun mem => other (sub mem)

end Agree

section Compression
variable {c : Compressor} {s m r : Response} {g : GzipResponseWriter c}

/-- A response, and the one below for which the same was written through gzip. -/
inductive Behind : Response → GzipResponseWriter c × Response → Prop
  | early {h h' : Header} (agree : Agree [vary] h h') (plain : h contentEncoding = []) :
      Behind ⟨h, none, 0, []⟩ (newWriter, ⟨h', none, 0, []⟩)
  | copied {h h' k k' : Header} {status : Status} {written : Nat} {body : Bytes}
      {g : GzipResponseWriter c} (agree : Agree [vary] h h') (wrote : g.wrote = true)
      (off : g.compressed = false) (sent : Agree [vary] k k') (plain : k contentEncoding = [])
      (type : compressible (k.get contentType) = false) :
      Behind ⟨h, some (status, k), written, body⟩ (g, ⟨h', some (status, k'), written, body⟩)
  | packed {h h' k k' : Header} {status : Status} {written written' : Nat} {chunks : List Bytes}
      {g : GzipResponseWriter c} (agree : Agree replaced h h') (wrote : g.wrote = true)
      (on : g.compressed = true) (fine : g.failed = false) (sent : Agree replaced k k')
      (plain : k contentEncoding = []) (type : compressible (k.get contentType) = true)
      (coding : k' contentEncoding = [gzipCoding]) (undeclared : k' contentLength = [])
      (gz : g.gz = (c.after chunks).1) :
      Behind ⟨h, some (status, k), written, chunks.flatten⟩
        (g, ⟨h', some (status, k'), written', (c.after chunks).2⟩)

/-- A `gzip.Writer` below which nothing is refused. -/
theorem eval_pack {x : Status × Header} (fine : g.failed = false) (sent : r.sent = some x)
    (takes : ∀ out, r.accepts out = true) (bytes : Bytes) :
    (g.pack bytes).eval perform r =
      some (((bytes.length, true), { g with gz := (c.write g.gz bytes).2 }),
        ⟨r.header, some x, r.written + (c.write g.gz bytes).1.length,
          r.body ++ (c.write g.gz bytes).1⟩) := by
  unfold GzipResponseWriter.pack
  rw [fine, if_neg Bool.false_ne_true]
  have head : r.head = x := by rw [Response.head, sent, Option.getD_some]
  by_cases none : (c.write g.gz bytes).1 = []
  · dsimp only
    rw [if_pos none, none, List.append_nil, List.length_nil, Nat.add_zero, ← sent]
    rfl
  · dsimp only
    rw [if_neg none, ask_bind, eval_call (congrArg some (write_accepted (takes _))), head]
    rfl

theorem behind_writeHeader {status : Status} (h : Behind s (g, r))
    (ok : undisturbed (.writeHeader status) s = true) : ∃ g' r',
      (g.writeHeader status).eval perform r = some (g', r') ∧ g'.wrote = true ∧
        Behind (s.writeHeader status) (g', r') := by
  rw [eval_writeHeader]
  cases h with
  | early agree plain =>
    rename_i h h'
    have same : h'.get contentType = h.get contentType := agree.get (by decide)
    by_cases type : compressible (h.get contentType) = true
    · rw [if_pos (by rwa [same])]
      let k' := (h'.set contentEncoding gzipCoding).del contentLength
      have below : Agree replaced h k' :=
        ((agree.weaken (by decide)).below (by decide) _).below (by decide) _
      have coding : k' contentEncoding = [gzipCoding] :=
        (Function.update_of_ne (by decide) _ _).trans (Function.update_self ..)
      have packed : Behind (c := c) ⟨h, some (status, h), 0, ([] : List Bytes).flatten⟩
          ({ newWriter with wrote := true, compressed := true },
            ⟨k', some (status, k'), 0, (c.after []).2⟩) :=
        .packed below rfl rfl rfl below plain type coding (Function.update_self ..) rfl
      exact ⟨_, _, rfl, rfl, packed⟩
    · rw [if_neg (by rwa [same])]
      exact ⟨_, _, rfl, rfl, .copied agree rfl rfl agree plain (Bool.not_eq_true _ ▸ type)⟩
  | copied agree wrote off sent plain type =>
    rename_i h h' k k' st written body
    have same : h'.get contentType = h.get contentType := agree.get (by decide)
    have still : compressible (h.get contentType) = false := by
      simpa [undisturbed, type] using ok
    rw [if_neg (by rw [same, still]; exact Bool.false_ne_true)]
    exact ⟨_, _, rfl, rfl, .copied agree rfl off sent plain type⟩
  | packed agree wrote on fine sent plain type coding undeclared gz =>
    split
    · refine ⟨_, _, rfl, rfl, .packed ?_ rfl rfl fine sent plain type coding undeclared gz⟩
      exact (agree.below (by decide) _).below (by decide) _
    · exact ⟨_, _, rfl, rfl, .packed agree rfl on fine sent plain type coding undeclared gz⟩

/-- Once a header is out, every write goes to the same place. -/
theorem behind_write_late {bytes : Bytes} (h : Behind s (g, r)) (wrote : g.wrote = true)
    (ok : s.accepts bytes = true) : ∃ g' r',
      (g.write bytes).eval perform r = some (((bytes.length, true), g'), r') ∧
        Behind (s.write bytes).2 (g', r') := by
  rw [write_accepted ok]
  unfold GzipResponseWriter.write
  rw [if_pos wrote, pure_eq, ret_bind]
  dsimp only
  cases h with
  | early => cases wrote
  | copied agree wrote off sent plain type =>
    rename_i h h' k k' status written body
    have takes : (⟨h', some (status, k'), written, body⟩ : Response).accepts bytes = true := by
      have same : declared k' = declared k := by
        rw [declared, sent.get (by decide), declared]
      simpa only [Response.accepts, Response.head, Option.getD_some, same] using ok
    rw [if_neg (by rw [off]; exact Bool.false_ne_true), ask_bind,
      eval_call (congrArg some (write_accepted takes))]
    exact ⟨_, _, rfl, .copied agree wrote off sent plain type⟩
  | packed agree wrote on fine sent plain type coding undeclared gz =>
    rename_i h h' k k' status written written' chunks
    have allowed : bodyAllowed status = true := (Bool.and_eq_true_iff.mp ok).1
    have free : declared k' = none := by
      rw [declared, Header.get, undeclared]
      rfl
    have takes : ∀ out, (⟨h', some (status, k'), written', (c.after chunks).2⟩ : Response).accepts out = true := by
      intro out
      simp only [Response.accepts, Response.head, Option.getD_some, allowed, free, Option.all_none,
        Bool.and_self]
    rw [if_pos on, eval_pack fine rfl takes]
    have grown : Behind (c := c)
        ⟨h, some (status, k), written + bytes.length, (chunks ++ [bytes]).flatten⟩
        ({ g with gz := (c.write g.gz bytes).2 },
          ⟨h', some (status, k'), written' + (c.write g.gz bytes).1.length,
            (c.after (chunks ++ [bytes])).2⟩) :=
      .packed agree wrote on fine sent plain type coding undeclared
        (by rw [c.after_concat, Compressor.feed, gz])
    rw [List.flatten_append, List.flatten_singleton, c.after_concat, Compressor.feed, ← gz] at grown
    exact ⟨_, _, rfl, grown⟩

theorem behind_write {bytes : Bytes} (h : Behind s (g, r)) (ok : s.accepts bytes = true) : ∃ g' r',
    (g.write bytes).eval perform r = some (((bytes.length, true), g'), r') ∧
      Behind (s.write bytes).2 (g', r') := by
  by_cases wrote : g.wrote = true
  · exact behind_write_late h wrote ok
  · have unsent : undisturbed (.writeHeader .ok) s = true := by
      cases h with
      | early => rfl
      | copied _ w => exact absurd w wrote
      | packed _ w => exact absurd w wrote
    obtain ⟨g', r', first, wrote', behind⟩ := behind_writeHeader h unsent
    obtain ⟨g'', r'', rest, final⟩ := behind_write_late (s := s.writeHeader .ok) behind wrote' ok
    refine ⟨g'', r'', ?_, final⟩
    unfold GzipResponseWriter.write at rest ⊢
    rw [if_pos wrote', pure_eq, ret_bind] at rest
    rw [if_neg wrote, eval_bind, first, Option.bind_some]
    exact rest

/-- A change of the header that looks at one name at a time. -/
theorem Behind.change {x : GzipResponseWriter c × Response} (h : Behind s x) {f : Header → Header}
    (local_ : ∀ {names h h'}, Agree names h h' → Agree names (f h) (f h'))
    (plain : ∀ h : Header, h contentEncoding = [] → f h contentEncoding = []) :
    Behind { s with header := f s.header } (x.1, { x.2 with header := f x.2.header }) := by
  cases h with
  | early agree none => exact .early (local_ agree) (plain _ none)
  | copied agree wrote off sent none type => exact .copied (local_ agree) wrote off sent none type
  | packed agree wrote on fine sent none type coding undeclared gz =>
    exact .packed (local_ agree) wrote on fine sent none type coding undeclared gz

theorem Behind.get {x : GzipResponseWriter c × Response} (h : Behind s x) {name : Text}
    (ok : undisturbed (.get name) s = true) : x.2.header.get name = s.header.get name := by
  obtain ⟨isOther, unsent⟩ := Bool.and_eq_true_iff.mp ok
  have other : name ∉ [vary] := fun mem => of_decide_eq_true isOther (List.mem_singleton.mp mem)
  cases h with
  | early agree => exact agree.get other
  | copied agree => exact agree.get other
  | packed agree => exact agree.get (by simpa using unsent)

/-- What a handler asks for has the same answer with gzip between. -/
theorem behind_step {β : Type} (op : WriterOp β) (s m : Response)
    (x : GzipResponseWriter c × Response) (b : β) (h : Behind s x) (ok : undisturbed op s = true)
    (taken : perform op s = some (b, m)) :
    ∃ x', stack gzipLayer perform op x = some (b, x') ∧ Behind m x' := by
  obtain ⟨g, r⟩ := x
  cases op with
  | get name =>
    cases taken
    exact ⟨(g, r), congrArg (fun v => some (v, g, r)) (h.get ok), h⟩
  | set name value =>
    cases taken
    refine ⟨_, rfl, h.change (fun agree => agree.set value) fun k none => ?_⟩
    exact (Function.update_of_ne (of_decide_eq_true ok).symm _ _).trans none
  | add name value =>
    cases taken
    refine ⟨_, rfl, h.change (fun agree => agree.add value) fun k none => ?_⟩
    exact (Function.update_of_ne (of_decide_eq_true ok).symm _ _).trans none
  | del name =>
    cases taken
    refine ⟨_, rfl, h.change (fun agree => agree.del) fun k none => ?_⟩
    by_cases here : contentEncoding = name
    · exact here ▸ Function.update_self ..
    · exact (Function.update_of_ne here _ _).trans none
  | writeHeader status =>
    cases taken
    obtain ⟨g', r', below, -, behind⟩ := behind_writeHeader h ok
    refine ⟨(g', r'), ?_, behind⟩
    simp only [stack, gzipLayer, eval_bind, below, Option.bind_some]
    rfl
  | write bytes =>
    obtain ⟨g', r', below, behind⟩ := behind_write h ok
    have given : s.write bytes = (b, m) := Option.some.inj taken
    rw [given] at behind
    obtain ⟨rfl, -⟩ := Prod.mk.inj (given.symm.trans (write_accepted ok))
    refine ⟨(g', r'), ?_, behind⟩
    rw [stack, gzipLayer, below]
    rfl
  | panic => cases taken

/-- The response that a client reads, whatever of it the compression shows. -/
structure SameAnswer (req : Request) (gunzip : Bytes → Option Bytes) (s r : Response) : Prop where
  status : (received gunzip req r).status = (received gunzip req s).status
  body : (received gunzip req r).body = (received gunzip req s).body
  header : Agree replaced (received gunzip req s).header (received gunzip req r).header
  complete : Complete s → Complete r

end Compression

section Transparent
variable {gz : Gzip} {s r : Response}

theorem sameAnswer_of_agree {req : Request} {gunzip : Bytes → Option Bytes}
    (status : r.head.1 = s.head.1) (agree : Agree [vary] s.head.2 r.head.2)
    (plain : s.head.2 contentEncoding = []) (body : r.body = s.body) :
    SameAnswer req gunzip s r where
  status := status
  body := by
    have coding : r.head.2.get contentEncoding = s.head.2.get contentEncoding := agree.get (by decide)
    have raw : s.head.2.get contentEncoding = [] := by rw [Header.get, plain, List.headD_nil]
    rw [received, received, status, coding, raw, body]
  header := agree.weaken (by decide)
  complete complete n given := by
    rw [declared, agree.get (by decide)] at given
    exact body ▸ complete n given

/-- What closing the writer leaves is read as what was written above. -/
theorem Behind.finish (req : Request) {g : GzipResponseWriter gz.toCompressor} (h : Behind s (g, r)) :
    ∃ r', g.finish.eval perform r = some ((), r') ∧ SameAnswer req gz.gunzip s r' := by
  cases h with
  | early agree plain => exact ⟨_, rfl, sameAnswer_of_agree rfl agree plain rfl⟩
  | copied agree wrote off sent plain type =>
    rw [GzipResponseWriter.finish, if_neg (fun on => nomatch on.1.symm.trans off)]
    exact ⟨_, rfl, sameAnswer_of_agree rfl sent plain rfl⟩
  | packed agree wrote on fine sent plain type coding undeclared state =>
    rename_i h h' k k' status written written' chunks
    let below : Response := ⟨h', some (status, k'), written', (gz.after chunks).2⟩
    have free : declared k' = none := by
      rw [declared, Header.get, undeclared]
      rfl
    have closed : g.finish.eval perform below = some ((), (below.write (gz.close g.gz)).2) := by
      rw [GzipResponseWriter.finish, if_pos ⟨on, fine⟩, ask_bind, eval_call rfl]
      rfl
    have head : (below.write (gz.close g.gz)).2.head = (status, k') := head_write _ _
    refine ⟨_, closed, ⟨?_, ?_, ?_, ?_⟩⟩
    · rw [received, head]
      rfl
    · have raw : k.get contentEncoding = [] := by rw [Header.get, plain, List.headD_nil]
      have packed : k'.get contentEncoding = gzipCoding := by rw [Header.get, coding, List.headD_cons]
      rw [received, received, head]
      simp only [Response.head, Option.getD_some, raw, packed]
      split
      · rfl
      · next allowed =>
        have takes : below.accepts (gz.close g.gz) = true := by
          simp only [not_or, Bool.not_eq_false] at allowed
          simp only [below, Response.accepts, Response.head, Option.getD_some, allowed.2, free,
            Option.all_none, Bool.and_self]
        rw [write_accepted takes, if_true, if_neg (by decide), state]
        exact gz.gunzip_close chunks
    · rw [received, received, head]
      exact sent
    · intro _ n given
      rw [head, free] at given
      cases given

/-- The middleware changes how the answer is sent and not what a client reads. -/
theorem gzipMiddleware_same {α : Type} {next : Handler α} {req : Request} {a : α}
    (passed : (next req).passes perform undisturbed .empty = true)
    (h : (next req).eval perform .empty = some (a, s)) :
    ∃ r, (gzipMiddleware gz.toCompressor next req).eval perform .empty = some (a, r) ∧
      SameAnswer req gz.gunzip s r := by
  unfold gzipMiddleware
  split
  · have start : Behind (c := gz.toCompressor) .empty
        (newWriter, ⟨Header.add (fun _ => []) vary "Accept-Encoding".toList, none, 0, []⟩) := by
      refine .early (fun name other => ?_) rfl
      exact Function.update_of_ne (fun here => other (List.mem_singleton.mpr here)) _ _
    obtain ⟨⟨g, r⟩, run, behind⟩ := eval_simulates behind_step start passed h
    obtain ⟨r', closed, same⟩ := behind.finish req
    refine ⟨r', ?_, same⟩
    rw [ask_bind, eval_call rfl, eval_bind, eval_through]
    change ((((next req).eval (stack gzipLayer perform) (newWriter, ⟨Header.add (fun _ => []) vary
      "Accept-Encoding".toList, none, 0, []⟩)).map _).bind _) = _
    rw [run, Option.map_some, Option.bind_some]
    dsimp only
    rw [eval_bind, closed]
    rfl
  · refine ⟨s, h, rfl, rfl, fun _ _ => rfl, id⟩

end Transparent

/-- Where nothing below disturbs it, a request that accepts gzip reads the same answer as one that
does not: the middleware changes what goes over the wire and not the status, the body, the other
headers or the log. -/
theorem compression_transparent (gz : Gzip) (server : Server) (mux : Handler Unit) (req : Request)
    (passed : (server.logged mux req).passes perform undisturbed .empty = true) :
    ∃ line s r, (server.logged mux req).eval perform .empty = some (line, s) ∧
      (server.handler gz.toCompressor mux req).eval perform .empty = some (line, r) ∧
      SameAnswer req gz.gunzip s r ∧ line.bytes = s.body.length := by
  have modest : (guarded server mux req).Uses (Leaves []) := by
    refine uses_rescue (uses_all (fun op calm => ?_) _) (uses_mono (leaves_writeJSON _ _) fun op leaves => ?_)
    · cases op with
      | panic => cases calm
      | set | add | del => exact List.not_mem_nil
      | get | writeHeader | write => trivial
    · cases op with
      | panic => exact leaves
      | set | add | del => exact List.not_mem_nil
      | get | writeHeader | write => trivial
  have uses : (logging server mux req).Uses (Leaves []) :=
    uses_bind (uses_through leaves_statusLayer modest _) fun _ => trivial
  obtain ⟨⟨line, s⟩, run⟩ := Option.isSome_iff_exists.mp
    (eval_isSome perform_isSome uses (guardedStart (fun _ => []) req))
  have logged : (server.logged mux req).eval perform .empty = some (line, s) := by
    rw [logged_eq, eval_setAll]
    exact run
  obtain ⟨r, packed, same⟩ := gzipMiddleware_same passed logged
  exact ⟨line, s, r, logged, packed, same, bytes_logging run⟩

theorem compression_transparent_notFound : ∃ line s r,
    (newServer.logged handleNotFound browser).eval perform .empty = some (line, s) ∧
      (newServer.handler identity.toCompressor handleNotFound browser).eval perform .empty =
        some (line, r) ∧
      SameAnswer browser identity.gunzip s r ∧ line.bytes = s.body.length :=
  compression_transparent identity newServer handleNotFound browser (by decide +kernel)

end Vidsilo.Api.Compression
