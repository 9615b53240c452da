import Vidsilo.Library.Decimal
import Vidsilo.Library.KeyMap
import Vidsilo.Library.SlashPath
import Vidsilo.Library.Transition

/-!
# The response cache of public endpoints

Source: internal/api/cache.go:10-124. `get` and `put` hold the lock of the cache, so each is one
step; `put` reads the clock twice. Between the lookup and the `put` of a request the handler runs
on its own, and other requests, writes to the database and the clock go on. `next` is the wrapped
handler as a function of what it reads. Headers that outer middleware has set already and a handler
that writes no status are left out.
-/
namespace Vidsilo.Api.ResponseCache
open Library Library.Decimal Library.SlashPath Library.Transition

/-- Nanoseconds. -/
abbrev Time := Int

abbrev Body := List UInt8

structure CacheItem where
  body : Body
  expiresAt : Time
  deriving DecidableEq, Repr

/-- `responseCache.items`. -/
abbrev Items := KeyMap Text CacheItem

/-- `time.Now().After(it.expiresAt)`. -/
def expired (now : Time) (it : CacheItem) : Bool := it.expiresAt < now

/-- The body when it is fresh; an item found expired is dropped. -/
def get (items : Items) (now : Time) (key : Text) : Option Body × Items :=
  match items.lookup key with
  | none => (none, items)
  | some it => if expired now it then (none, items.erase key) else (some it.body, items)

/-- `now` is read for the cleanup and `later` for the expiry. -/
def put (items : Items) (now later : Time) (key : Text) (body : Body) (ttl : Time) : Items :=
  if ttl ≤ 0 then items
  else
    let items := if 512 < items.size then items.keep fun _ it => !expired now it else items
    items.insert key ⟨body, later + ttl⟩

structure Request where
  path : Text
  rawQuery : Text
  authorization : Text
  cookies : List (Text × Text)
  deriving DecidableEq, Repr

def Request.key (r : Request) : Text := r.path ++ '?' :: r.rawQuery

def hasCredentials (r : Request) : Bool := r.authorization ≠ [] || 0 < r.cookies.length

structure Response where
  status : Nat
  header : List (Text × Text)
  body : Body
  deriving DecidableEq, Repr

/-- The loop of `itoa`, which fills its twenty bytes from the right. -/
def itoaLoop : Nat → Int → Text → Text
  | 0, _, written => written
  | room + 1, n, written =>
    if 0 < n then itoaLoop room (n / 10) (Nat.digitChar (n % 10).toNat :: written) else written

def itoa (n : Int) : Text := if n = 0 then ['0'] else itoaLoop 20 n []

/-- What is written for a cached body. -/
def cachedResponse (ttl : Time) (body : Body) : Response :=
  ⟨200, [("Content-Type".toList, "application/json".toList),
    ("Cache-Control".toList, "private, max-age=".toList ++ itoa (ttl / 1000000000)),
    ("X-Cache".toList, "HIT".toList)], body⟩

/-- What is written for the handler's own answer. -/
def missResponse (resp : Response) : Response :=
  if resp.status = 200 then
    { resp with header := ("X-Cache".toList, "MISS".toList) :: resp.header }
  else resp

/-- Where a request stands that has not been answered yet. -/
inductive Phase where
  /-- It carries credentials: the handler gets it as it is. -/
  | bypass (req : Request)
  | missed (req : Request)
  /-- The handler has filled the `cacheWriter`. -/
  | answered (req : Request) (resp : Response)

structure Served where
  req : Request
  resp : Response
  hit : Bool
  time : Time

structure System (ω : Type) where
  clock : Time
  world : ω
  items : Items
  calls : Nat → Option Phase
  served : List Served

inductive Action (ω : Type) where
  | tick (later : Time)
  | write (world : ω)
  /-- A request comes in and is looked up. -/
  | arrive (id : Nat) (req : Request)
  /-- The wrapped handler runs. -/
  | run (id : Nat)
  /-- The answer is put and written. -/
  | store (id : Nat) (later : Time)

namespace System

variable {ω : Type}

def start (clock : Time) (world : ω) : System ω := ⟨clock, world, ∅, fun _ => none, []⟩

def setCall (s : System ω) (id : Nat) (phase : Option Phase) : System ω :=
  { s with calls := fun i => if i = id then phase else s.calls i }

def serve (s : System ω) (id : Nat) (reply : Served) : System ω :=
  { s.setCall id none with served := s.served ++ [reply] }

end System

section Steps
variable {ω : Type} (next : ω → Request → Response) (ttl : Time)

/-- The closure that `cacheGET` returns, up to the handler's run. -/
def arrive (s : System ω) (id : Nat) (req : Request) : System ω :=
  if hasCredentials req then s.setCall id (some (.bypass req))
  else match get s.items s.clock req.key with
    | (some body, items) =>
      { s with items }.serve id ⟨req, cachedResponse ttl body, true, s.clock⟩
    | (none, items) => { s with items }.setCall id (some (.missed req))

def store (s : System ω) (id : Nat) (later : Time) (req : Request) (resp : Response) : System ω :=
  let items := if resp.status = 200 then put s.items s.clock later req.key resp.body ttl else s.items
  { s with items, clock := later }.serve id ⟨req, missResponse resp, false, later⟩

def step (s : System ω) : Action ω → Option (System ω)
  | .tick later => if s.clock ≤ later then some { s with clock := later } else none
  | .write world => some { s with world }
  | .arrive id req => if (s.calls id).isNone then some (arrive ttl s id req) else none
  | .run id =>
    match s.calls id with
    | some (.bypass req) => some (s.serve id ⟨req, next s.world req, false, s.clock⟩)
    | some (.missed req) => some (s.setCall id (some (.answered req (next s.world req))))
    | _ => none
  | .store id later =>
    match s.calls id with
    | some (.answered req resp) => if s.clock ≤ later then some (store ttl s id later req resp) else none
    | _ => none

end Steps

theorem get_none {items items' : Items} {now : Time} {key : Text}
    (h : get items now key = (none, items')) : ∀ k, ∀ it ∈ items'.lookup k, it ∈ items.lookup k := by
  intro k it held
  unfold get at h
  split at h
  · cases h
    exact held
  · split at h
    · obtain ⟨-, rfl⟩ := Prod.mk.inj h
      by_cases same : k = key
      · subst same
        rw [AList.lookup_erase] at held
        cases held
      · rwa [AList.lookup_erase_ne same] at held
    · cases h

theorem get_some {items items' : Items} {now : Time} {key : Text} {body : Body}
    (h : get items now key = (some body, items')) :
    items' = items ∧ ∃ it ∈ items.lookup key, it.body = body ∧ now ≤ it.expiresAt := by
  unfold get at h
  split at h
  · cases h
  next it held =>
    split at h
    · cases h
    next fresh =>
      obtain ⟨same, rfl⟩ := Prod.mk.inj h
      simp only [expired, decide_eq_true_eq, Int.not_lt] at fresh
      exact ⟨rfl, it, held, Option.some.inj same, fresh⟩

/-- An item after a `put` is the new one or was there before. -/
theorem lookup_put {items : Items} {now later : Time} {key k : Text} {body : Body} {ttl : Time}
    {it : CacheItem} (held : it ∈ (put items now later key body ttl).lookup k) :
    it ∈ items.lookup k ∨ 0 < ttl ∧ k = key ∧ it = ⟨body, later + ttl⟩ := by
  unfold put at held
  split at held
  · exact .inl held
  next positive =>
    by_cases same : k = key
    · subst same
      rw [AList.lookup_insert] at held
      exact .inr ⟨Int.not_le.mp positive, rfl, (Option.mem_some.mp held).symm⟩
    · left
      rw [AList.lookup_insert_ne same] at held
      split at held
      · rw [KeyMap.lookup_keep] at held
        exact (Option.mem_filter_iff.mp held).1
      · exact held

section Origin
variable {ω : Type} {next : ω → Request → Response} {ttl : Time} {s₀ s s' : System ω}
  {trace : List (Action ω)} {a : Action ω}

variable (next ttl s₀) in
/-- On the way the handler ran at `time` for this request, which carried no credentials, and
answered `resp` from what the database held. -/
def Answered (trace : List (Action ω)) (req : Request) (resp : Response) (time : Time) : Prop :=
  ∃ early late s id, trace = early ++ .run id :: late ∧ Run (step next ttl) Always s₀ early s ∧
    s.calls id = some (.missed req) ∧ hasCredentials req = false ∧ next s.world req = resp ∧
    s.clock = time

theorem Answered.append {req : Request} {resp : Response} {time : Time}
    (h : Answered next ttl s₀ trace req resp time) (a : Action ω) :
    Answered next ttl s₀ (trace ++ [a]) req resp time := by
  obtain ⟨early, late, s, id, rfl, run, missed, bare, answer, clock⟩ := h
  exact ⟨early, late ++ [a], s, id, by simp, run, missed, bare, answer, clock⟩

variable (next ttl s₀) in
/-- The body was the 200 answer to a request of this key and was put at `stored`. -/
def Stored (trace : List (Action ω)) (key : Text) (body : Body) (stored : Time) : Prop :=
  ∃ req resp asked, Answered next ttl s₀ trace req resp asked ∧ asked ≤ stored ∧ req.key = key ∧
    resp.status = 200 ∧ resp.body = body

theorem Stored.append {key : Text} {body : Body} {stored : Time}
    (h : Stored next ttl s₀ trace key body stored) (a : Action ω) :
    Stored next ttl s₀ (trace ++ [a]) key body stored := by
  obtain ⟨req, resp, asked, answered, rest⟩ := h
  exact ⟨req, resp, asked, answered.append a, rest⟩

variable (next ttl s₀) in
/-- What a reply that did not come from the cache says: the handler's own answer to that request,
for one with credentials from the world of the same moment. -/
def Own (trace : List (Action ω)) (reply : Served) : Prop :=
  if hasCredentials reply.req then
    ∃ early late s id, trace = early ++ .run id :: late ∧ Run (step next ttl) Always s₀ early s ∧
      reply.resp = next s.world reply.req ∧ s.clock = reply.time
  else ∃ resp asked, Answered next ttl s₀ trace reply.req resp asked ∧ asked ≤ reply.time ∧
    reply.resp = missResponse resp

variable (next ttl s₀) in
/-- A reply from the cache: an item of its key that had not run out. -/
def Cached (trace : List (Action ω)) (reply : Served) : Prop :=
  hasCredentials reply.req = false ∧ ∃ body stored, Stored next ttl s₀ trace reply.req.key body stored ∧
    reply.resp = cachedResponse ttl body ∧ stored ≤ reply.time ∧ reply.time ≤ stored + ttl

variable (next ttl s₀) in
def ReplySound (trace : List (Action ω)) (reply : Served) : Prop :=
  if reply.hit then Cached next ttl s₀ trace reply else Own next ttl s₀ trace reply

variable (next ttl s₀) in
def PhaseSound (trace : List (Action ω)) (clock : Time) : Phase → Prop
  | .bypass req => hasCredentials req = true
  | .missed req => hasCredentials req = false
  | .answered req resp =>
    hasCredentials req = false ∧ ∃ asked ≤ clock, Answered next ttl s₀ trace req resp asked

variable (next ttl s₀) in
def ItemSound (trace : List (Action ω)) (clock : Time) (key : Text) (it : CacheItem) : Prop :=
  ∃ stored ≤ clock, Stored next ttl s₀ trace key it.body stored ∧ it.expiresAt = stored + ttl

variable (next ttl s₀) in
structure Sound (trace : List (Action ω)) (s : System ω) : Prop where
  run : Run (step next ttl) Always s₀ trace s
  items : ∀ key, ∀ it ∈ s.items.lookup key, ItemSound next ttl s₀ trace s.clock key it
  calls : ∀ id, ∀ phase ∈ s.calls id, PhaseSound next ttl s₀ trace s.clock phase
  served : ∀ reply ∈ s.served, ReplySound next ttl s₀ trace reply

theorem ReplySound.append {reply : Served} (h : ReplySound next ttl s₀ trace reply)
    (a : Action ω) : ReplySound next ttl s₀ (trace ++ [a]) reply := by
  unfold ReplySound at h ⊢
  split
  next hit =>
    rw [if_pos hit] at h
    obtain ⟨bare, body, stored, origin, rest⟩ := h
    exact ⟨bare, body, stored, origin.append a, rest⟩
  next miss =>
    rw [if_neg miss] at h
    unfold Own at h ⊢
    split
    next credentials =>
      rw [if_pos credentials] at h
      obtain ⟨early, late, s, id, rfl, rest⟩ := h
      exact ⟨early, late ++ [a], s, id, by simp, rest⟩
    next bare =>
      rw [if_neg bare] at h
      obtain ⟨resp, asked, answered, rest⟩ := h
      exact ⟨resp, asked, answered.append a, rest⟩

theorem PhaseSound.append {phase : Phase} {clock later : Time}
    (h : PhaseSound next ttl s₀ trace clock phase) (forward : clock ≤ later) (a : Action ω) :
    PhaseSound next ttl s₀ (trace ++ [a]) later phase := by
  cases phase with
  | bypass req => exact h
  | missed req => exact h
  | answered req resp =>
    obtain ⟨bare, asked, earlier, answered⟩ := h
    exact ⟨bare, asked, Int.le_trans earlier forward, answered.append a⟩

theorem ItemSound.append {key : Text} {it : CacheItem} {clock later : Time}
    (h : ItemSound next ttl s₀ trace clock key it) (forward : clock ≤ later) (a : Action ω) :
    ItemSound next ttl s₀ (trace ++ [a]) later key it := by
  obtain ⟨stored, earlier, origin, expiry⟩ := h
  exact ⟨stored, Int.le_trans earlier forward, origin.append a, expiry⟩

/-- What a step leaves stays sound; only what it makes is to be shown. -/
theorem Sound.advance (h : Sound next ttl s₀ trace s) (taken : step next ttl s a = some s')
    (forward : s.clock ≤ s'.clock)
    (items : ∀ key, ∀ it ∈ s'.items.lookup key, it ∈ s.items.lookup key ∨
      ItemSound next ttl s₀ (trace ++ [a]) s'.clock key it)
    (calls : ∀ id, ∀ phase ∈ s'.calls id, phase ∈ s.calls id ∨
      PhaseSound next ttl s₀ (trace ++ [a]) s'.clock phase)
    (served : ∀ reply ∈ s'.served, reply ∈ s.served ∨ ReplySound next ttl s₀ (trace ++ [a]) reply) :
    Sound next ttl s₀ (trace ++ [a]) s' where
  run := .next h.run trivial taken
  items key it held := (items key it held).elim
    (fun old => (h.items key it old).append forward a) id
  calls i phase mem := (calls i phase mem).elim (fun old => (h.calls i phase old).append forward a) id
  served reply mem := (served reply mem).elim (fun old => (h.served reply old).append a) id

theorem mem_setCall {id i : Nat} {phase : Option Phase} {p : Phase}
    (mem : p ∈ (s.setCall id phase).calls i) : p ∈ s.calls i ∨ p ∈ phase := by
  simp only [System.setCall] at mem
  split at mem
  · exact .inr mem
  · exact .inl mem

theorem sound_arrive {id : Nat} {req : Request} (h : Sound next ttl s₀ trace s)
    (taken : step next ttl s (.arrive id req) = some (arrive ttl s id req)) :
    Sound next ttl s₀ (trace ++ [.arrive id req]) (arrive ttl s id req) := by
  unfold arrive at taken ⊢
  split
  next credentials =>
    rw [if_pos credentials] at taken
    refine h.advance taken (Int.le_refl _) (fun _ _ held => .inl held) ?_ fun _ mem => .inl mem
    intro i phase mem
    refine (mem_setCall mem).imp_right fun new => ?_
    obtain rfl := Option.some.inj new
    exact credentials
  next bare =>
    rw [if_neg bare] at taken
    have none : hasCredentials req = false := by simpa using bare
    split
    next body items found =>
      rw [found] at taken
      obtain ⟨rfl, it, held, rfl, fresh⟩ := get_some found
      obtain ⟨stored, earlier, origin, expiry⟩ := h.items _ it held
      refine h.advance taken (Int.le_refl _) (fun _ _ held => .inl held) ?_ ?_
      · intro i phase mem
        exact (mem_setCall mem).imp_right fun new => nomatch new
      · intro reply mem
        refine (List.mem_append.mp mem).imp_right fun new => ?_
        obtain rfl := List.mem_singleton.mp new
        rw [ReplySound, if_pos rfl]
        exact ⟨none, it.body, stored, origin.append _, rfl, earlier, expiry ▸ fresh⟩
    next items missing =>
      rw [missing] at taken
      refine h.advance taken (Int.le_refl _) ?_ ?_ fun _ mem => .inl mem
      · exact fun key it held => .inl (get_none missing key it held)
      · intro i phase mem
        refine (mem_setCall mem).imp_right fun new => ?_
        obtain rfl := Option.some.inj new
        exact none

theorem sound_store {id : Nat} {later : Time} {req : Request} {resp : Response}
    (h : Sound next ttl s₀ trace s) (call : s.calls id = some (.answered req resp))
    (forward : s.clock ≤ later)
    (taken : step next ttl s (.store id later) = some (store ttl s id later req resp)) :
    Sound next ttl s₀ (trace ++ [.store id later]) (store ttl s id later req resp) := by
  obtain ⟨bare, asked, earlier, answered⟩ := h.calls id _ call
  refine h.advance taken forward ?_ ?_ ?_
  · intro key it held
    simp only [store, System.serve, System.setCall] at held
    split at held
    next good =>
      refine (lookup_put held).imp_right fun new => ?_
      obtain ⟨_, rfl, rfl⟩ := new
      exact ⟨later, Int.le_refl _, ⟨req, resp, asked, answered.append _, Int.le_trans earlier forward, rfl,
        good, rfl⟩, rfl⟩
    · exact .inl held
  · intro i phase mem
    exact (mem_setCall mem).imp_right fun new => nomatch new
  · intro reply mem
    refine (List.mem_append.mp mem).imp_right fun new => ?_
    obtain rfl := List.mem_singleton.mp new
    rw [ReplySound, if_neg (by simp), Own, if_neg (by simp [bare])]
    exact ⟨resp, asked, answered.append _, Int.le_trans earlier forward, rfl⟩

theorem sound_run {id : Nat} (h : Sound next ttl s₀ trace s)
    (taken : step next ttl s (.run id) = some s') : Sound next ttl s₀ (trace ++ [.run id]) s' := by
  have same := taken
  simp only [step] at same
  split at same
  next req call =>
    cases same
    have credentials : hasCredentials req = true := h.calls id _ call
    refine h.advance taken (Int.le_refl _) (fun _ _ held => .inl held) ?_ ?_
    · intro i phase mem
      exact (mem_setCall mem).imp_right fun new => nomatch new
    · intro reply mem
      refine (List.mem_append.mp mem).imp_right fun new => ?_
      obtain rfl := List.mem_singleton.mp new
      rw [ReplySound, if_neg (by simp), Own, if_pos credentials]
      exact ⟨trace, [], s, id, rfl, h.run, rfl, rfl⟩
  next req call =>
    cases same
    have bare : hasCredentials req = false := h.calls id _ call
    refine h.advance taken (Int.le_refl _) (fun _ _ held => .inl held) ?_ fun _ mem => .inl mem
    intro i phase mem
    refine (mem_setCall mem).imp_right fun new => ?_
    obtain rfl := Option.some.inj new
    exact ⟨bare, s.clock, Int.le_refl _, trace, [], s, id, rfl, h.run, call, bare, rfl, rfl⟩
  · cases same

theorem sound_step (h : Sound next ttl s₀ trace s) (taken : step next ttl s a = some s') :
    Sound next ttl s₀ (trace ++ [a]) s' := by
  cases a with
  | tick later =>
    have same := taken
    simp only [step, Option.ite_none_right_eq_some, Option.some.injEq] at same
    obtain ⟨forward, rfl⟩ := same
    exact h.advance taken forward (fun _ _ held => .inl held) (fun _ _ mem => .inl mem)
      fun _ mem => .inl mem
  | write world =>
    have same := taken
    simp only [step, Option.some.injEq] at same
    subst same
    exact h.advance taken (Int.le_refl _) (fun _ _ held => .inl held) (fun _ _ mem => .inl mem)
      fun _ mem => .inl mem
  | arrive id req =>
    have same := taken
    simp only [step, Option.ite_none_right_eq_some, Option.some.injEq] at same
    obtain ⟨_, rfl⟩ := same
    exact sound_arrive h taken
  | run id => exact sound_run h taken
  | store id later =>
    have same := taken
    simp only [step] at same
    split at same
    next req resp call =>
      rw [Option.ite_none_right_eq_some] at same
      obtain ⟨forward, made⟩ := same
      cases made
      exact sound_store h call forward taken
    · cases same

theorem sound_of_run {clock : Time} {world : ω}
    (run : Run (step next ttl) Always (.start clock world) trace s) :
    Sound next ttl (.start clock world) trace s := by
  induction run with
  | start =>
    exact ⟨.start, fun _ _ held => (nomatch held), fun _ _ mem => (nomatch mem),
      fun _ mem => (nomatch mem)⟩
  | next _ _ taken ih => exact sound_step ih taken

/-- Every reply is the handler's own answer to that request, or a body that the handler gave to a
request of the same key without credentials and that was put no longer than `ttl` ago. -/
theorem replies_sound {clock : Time} {world : ω}
    (run : Run (step next ttl) Always (.start clock world) trace s) :
    ∀ reply ∈ s.served, ReplySound next ttl (.start clock world) trace reply :=
  (sound_of_run run).served

end Origin

/-- The second of two visitors gets what the database held for the first. -/
def secondHits : List (Action Nat) :=
  let categories : Request := ⟨"/api/catalog/categories".toList, [], [], []⟩
  [.arrive 1 categories, .run 1, .write 8, .store 1 5, .tick 30, .arrive 2 categories]

def page (world : Nat) (_ : Request) : Response := ⟨200, [], [world.toUInt8]⟩

theorem replies_sound_secondHits : ∃ s,
    Run (step page 30) Always (.start 0 7) secondHits s ∧ s.served.map (·.hit) = [false, true] ∧
    ∀ reply ∈ s.served, ReplySound page 30 (.start 0 7) secondHits reply := by
  obtain ⟨s, run, hits⟩ := exists_always
    (show (exec (step page 30) (fun _ _ => true) (.start 0 7) secondHits).any
      (fun s => decide (s.served.map (·.hit) = [false, true])) = true by decide +kernel)
  exact ⟨s, run, of_decide_eq_true hits, replies_sound run⟩

section Size
variable {ω : Type} {next : ω → Request → Response} {ttl : Time} {s₀ s s' : System ω}
  {trace : List (Action ω)} {a : Action ω}

variable (ttl) in
/-- When the action puts an answer: only those of status 200 are put, and none without a `ttl`. -/
def putAt (s : System ω) : Action ω → Option Time
  | .store id later =>
    match s.calls id with
    | some (.answered _ resp) => if resp.status = 200 ∧ 0 < ttl then some later else none
    | _ => none
  | _ => none

variable (next ttl s₀) in
/-- How many answers were put, not before `since`. -/
def putsSince (since : Time) (trace : List (Action ω)) : Nat :=
  (reported (step next ttl) (putAt ttl) s₀ trace).countP fun t => since ≤ t

theorem putsSince_concat (run : Run (step next ttl) Always s₀ trace s) (since : Time)
    (a : Action ω) : putsSince next ttl s₀ since (trace ++ [a]) =
      putsSince next ttl s₀ since trace +
        (putAt ttl s a).toList.countP fun t => since ≤ t := by
  rw [putsSince, run.reported_concat, List.countP_append]
  rfl

/-- The items that run out at `t` or later. -/
def lasting (t : Time) (items : Items) : Nat := items.count fun _ it => decide (t ≤ it.expiresAt)

/-- `get` only removes. -/
theorem get_items {items items' : Items} {now : Time} {key : Text} {found : Option Body}
    (h : get items now key = (found, items')) : items' = items ∨ items' = items.erase key := by
  unfold get at h
  split at h
  · exact .inl (Prod.mk.inj h).2.symm
  · split at h
    · exact .inr (Prod.mk.inj h).2.symm
    · exact .inl (Prod.mk.inj h).2.symm

theorem lasting_put (t : Time) (items : Items) (now later : Time) (key : Text) (body : Body)
    (ttl : Time) : lasting t (put items now later key body ttl) ≤
      lasting t items + if 0 < ttl ∧ t ≤ later + ttl then 1 else 0 := by
  unfold put
  split
  · exact Nat.le_add_right _ _
  next positive =>
    refine (KeyMap.count_insert_le_add _ _ _ _).trans ?_
    simp only [decide_eq_true_eq, Int.not_le.mp positive, true_and]
    refine Nat.add_le_add_right ?_ _
    split
    · exact KeyMap.count_keep_le _ _ _
    · exact le_rfl

/-- A `put` into a map that is not small leaves only items that have not run out. -/
theorem size_put {now later : Time} (items : Items) (key : Text) (body : Body) (ttl : Time)
    (forward : now ≤ later) :
    let after := put items now later key body ttl
    after.size ≤ max items.size 513 ∨ after.size = lasting now after := by
  intro after
  by_cases nothing : ttl ≤ 0
  · left
    have same : after = items := if_pos nothing
    rw [same]
    exact le_max_left _ _
  have made : after = (if 512 < items.size then items.keep fun _ it => !expired now it
    else items).insert key ⟨body, later + ttl⟩ := if_neg nothing
  by_cases large : 512 < items.size
  · right
    rw [if_pos large] at made
    refine KeyMap.size_eq_count_of_forall fun k it held => ?_
    rw [made] at held
    by_cases same : k = key
    · subst same
      rw [AList.lookup_insert] at held
      obtain rfl := Option.mem_some.mp held
      simp only [decide_eq_true_eq]
      have positive := Int.not_le.mp nothing
      exact Int.le_trans forward (Int.le_add_of_nonneg_right (Int.le_of_lt positive))
    · rw [AList.lookup_insert_ne same, KeyMap.lookup_keep] at held
      have stays := (Option.mem_filter_iff.mp held).2
      simpa [expired] using stays
  · left
    rw [if_neg large] at made
    have grown := KeyMap.size_insert_le items key ⟨body, later + ttl⟩
    rw [made]
    omega

variable (next ttl s₀) in
/-- On the way an answer was put, and at least so many since one `ttl` before the clock of its
cleanup, itself included. -/
def PutWithin (trace : List (Action ω)) (size : Nat) : Prop :=
  ∃ early late a m t, trace = early ++ a :: late ∧ Run (step next ttl) Always s₀ early m ∧
    putAt ttl m a = some t ∧ size ≤ putsSince next ttl s₀ (m.clock - ttl) (early ++ [a])

variable (next ttl s₀) in
structure Counted (trace : List (Action ω)) (s : System ω) : Prop where
  run : Run (step next ttl) Always s₀ trace s
  /-- Every item was put by a step of its own. -/
  lasting : ∀ t, lasting t s.items ≤ putsSince next ttl s₀ (t - ttl) trace
  size : s.items.size ≤ 513 ∨ PutWithin next ttl s₀ trace s.items.size

theorem PutWithin.advance {n n' : Nat} (h : PutWithin next ttl s₀ trace n) (fewer : n' ≤ n)
    (a : Action ω) : PutWithin next ttl s₀ (trace ++ [a]) n' := by
  obtain ⟨early, late, b, m, t, rfl, run, put, bound⟩ := h
  exact ⟨early, late ++ [a], b, m, t, by simp, run, put, fewer.trans bound⟩

/-- A step that only removes items. -/
theorem Counted.shrink (h : Counted next ttl s₀ trace s) (taken : step next ttl s a = some s')
    (items : s'.items = s.items ∨ ∃ key, s'.items = s.items.erase key) :
    Counted next ttl s₀ (trace ++ [a]) s' := by
  have fewer : s'.items.size ≤ s.items.size ∧ ∀ t, ResponseCache.lasting t s'.items ≤
      ResponseCache.lasting t s.items := by
    rcases items with same | ⟨key, removed⟩
    · rw [same]
      exact ⟨le_rfl, fun _ => le_rfl⟩
    · rw [removed]
      exact ⟨KeyMap.size_erase_le _ _, fun t => KeyMap.count_erase_le _ _ _⟩
  refine ⟨.next h.run trivial taken, fun t => ?_, ?_⟩
  · rw [putsSince_concat h.run]
    exact (fewer.2 t).trans ((h.lasting t).trans (Nat.le_add_right _ _))
  · rcases h.size with small | within
    · exact .inl (fewer.1.trans small)
    · exact .inr (within.advance fewer.1 a)

/-- A step that puts an answer. -/
theorem Counted.grow {later : Time} {key : Text} {body : Body}
    (h : Counted next ttl s₀ trace s) (taken : step next ttl s a = some s')
    (forward : s.clock ≤ later) (isPut : putAt ttl s a = some later)
    (items : s'.items = put s.items s.clock later key body ttl) :
    Counted next ttl s₀ (trace ++ [a]) s' := by
  have lasting : ∀ t, ResponseCache.lasting t s'.items ≤
      putsSince next ttl s₀ (t - ttl) (trace ++ [a]) := by
    intro t
    have grown := lasting_put t s.items s.clock later key body ttl
    have before := h.lasting t
    rw [items, putsSince_concat h.run, isPut, Option.toList_some, List.countP_singleton]
    simp only [decide_eq_true_eq, Int.sub_right_le_iff_le_add]
    split at grown
    next late =>
      rw [if_pos late.2]
      omega
    · omega
  refine ⟨.next h.run trivial taken, lasting, ?_⟩
  rcases size_put s.items key body ttl forward with small | all
  · rw [← items] at small
    rcases h.size with old | within
    · exact .inl (small.trans (max_le old le_rfl))
    · rcases le_or_gt s'.items.size 513 with fits | large
      · exact .inl fits
      · exact .inr (within.advance (by omega) a)
  · rw [← items] at all
    exact .inr ⟨trace, [], a, s, later, rfl, h.run, isPut, all.le.trans (lasting s.clock)⟩

theorem counted_store {id : Nat} {later : Time} {req : Request} {resp : Response}
    (h : Counted next ttl s₀ trace s) (call : s.calls id = some (.answered req resp))
    (forward : s.clock ≤ later)
    (taken : step next ttl s (.store id later) = some (store ttl s id later req resp)) :
    Counted next ttl s₀ (trace ++ [.store id later]) (store ttl s id later req resp) := by
  by_cases good : resp.status = 200
  · have items : (store ttl s id later req resp).items =
        put s.items s.clock later req.key resp.body ttl := if_pos good
    rcases Int.lt_or_le 0 ttl with positive | nothing
    · have isPut : putAt ttl s (.store id later) = some later := by
        simp only [putAt, call]
        exact if_pos ⟨good, positive⟩
      exact h.grow taken forward isPut items
    · exact h.shrink taken (.inl (items.trans (if_pos nothing)))
  · exact h.shrink taken (.inl (if_neg good))

theorem counted_step (h : Counted next ttl s₀ trace s) (taken : step next ttl s a = some s') :
    Counted next ttl s₀ (trace ++ [a]) s' := by
  have same := taken
  cases a with
  | tick later =>
    simp only [step, Option.ite_none_right_eq_some, Option.some.injEq] at same
    obtain ⟨_, rfl⟩ := same
    exact h.shrink taken (.inl rfl)
  | write world =>
    simp only [step, Option.some.injEq] at same
    subst same
    exact h.shrink taken (.inl rfl)
  | arrive id req =>
    simp only [step, Option.ite_none_right_eq_some, Option.some.injEq] at same
    obtain ⟨_, rfl⟩ := same
    refine h.shrink taken ?_
    unfold arrive
    split
    · exact .inl rfl
    · split
      next found => exact (get_items found).imp_right fun removed => ⟨_, removed⟩
      next missing => exact (get_items missing).imp_right fun removed => ⟨_, removed⟩
  | run id =>
    simp only [step] at same
    split at same
    · cases same
      exact h.shrink taken (.inl rfl)
    · cases same
      exact h.shrink taken (.inl rfl)
    · cases same
  | store id later =>
    simp only [step] at same
    split at same
    next req resp call =>
      rw [Option.ite_none_right_eq_some] at same
      obtain ⟨forward, made⟩ := same
      cases made
      exact counted_store h call forward taken
    · cases same

/-- The map holds at most 513 items, unless there was a window of one `ttl` in which as many
answers were put, the last of them at its end. -/
theorem size_bounded {clock : Time} {world : ω}
    (run : Run (step next ttl) Always (.start clock world) trace s) :
    s.items.size ≤ 513 ∨ PutWithin next ttl (.start clock world) trace s.items.size := by
  have counted : Counted next ttl (.start clock world) trace s := by
    induction run with
    | start => exact ⟨.start, fun t => le_rfl, .inl (Nat.zero_le _)⟩
    | next _ _ taken ih => exact counted_step ih taken
  exact counted.size

theorem size_bounded_secondHits : ∃ s, Run (step page 30) Always (.start 0 7) secondHits s ∧
    s.items.size = 1 ∧
    (s.items.size ≤ 513 ∨ PutWithin page 30 (.start 0 7) secondHits s.items.size) := by
  obtain ⟨s, run, one⟩ := exists_always
    (show (exec (step page 30) (fun _ _ => true) (.start 0 7) secondHits).any
      (fun s => decide (s.items.size = 1)) = true by decide +kernel)
  exact ⟨s, run, of_decide_eq_true one, size_bounded run⟩

end Size

end Vidsilo.Api.ResponseCache
