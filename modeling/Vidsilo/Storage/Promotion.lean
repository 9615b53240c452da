import Vidsilo.Library.Stages
import Vidsilo.Storage.Fallback

/-!
# Promotions among writes

An `Open` that misses the primary reads the legacy copy and then writes it to the primary,
and a `Delete` deletes in one store and then in the other; nothing holds these steps
together. A completed `Put` or `Delete` is undone only by a promotion whose copy was read
before it, or between the two deletions (`writes_stay`).
-/
namespace Vidsilo.Storage.Promotion
open Library Library.SlashPath Library.Stages Library.Transition Drivers Operations Fallback

variable {CallId : Type}

abbrev CallPool (CallId : Type) := Pool CallId Request (StoreOp Side) Reply (Stores Side)

abbrev Step (CallId : Type) := Pool.Action CallId Request Unit

/-- Every call of a store is one step and succeeds. -/
def move (selects : Side → Text → Text → Bool) (_ : CallId) (rest : Procedure (StoreOp Side) Reply)
    (_ : Unit) (w : Stores Side) : Option (Procedure (StoreOp Side) Reply × Stores Side) :=
  rest.advance (perform selects) .ok w

def step [DecidableEq CallId] (selects : Side → Text → Text → Bool) (p : CallPool CallId) (a : Step CallId) :
    Option (CallPool CallId) :=
  p.step body (move selects) a

abbrev FallbackCall := Call Request (StoreOp Side) Reply

/-- An `Open` of the key has read the legacy copy and not yet promoted it. -/
def holds (key : Text) (call : FallbackCall) : Bool :=
  match call with
  | ⟨.open k, .call (.stat .legacy _) _⟩ => k = key
  | ⟨.open k, .call (.put .primary _ _ _) _⟩ => k = key
  | _ => false

/-- A `Delete` of the key has deleted in the primary only. -/
def halfDeleted (key : Text) (call : FallbackCall) : Bool :=
  match call with
  | ⟨.delete k, .call (.delete .legacy _) _⟩ => k = key
  | _ => false

/-- What the first call may do next while the other is in progress. -/
def permits (w : Stores Side) (call other : FallbackCall) : Bool :=
  match call with
  | ⟨.put key _ _, .call (.put .primary _ _ _) _⟩ => ! holds key other
  | ⟨.delete key, .call (.delete .primary _) _⟩ => ! holds key other
  | ⟨.open key, .call (.open .legacy _) _⟩ =>
    match w.object .legacy key with
    | none => true
    | some rc => ! halfDeleted key other && (w.object .primary key).all (· = rc)
  | _ => true

def allows (p : CallPool CallId) (id i : CallId) : Bool :=
  match p.calls id, p.calls i with
  | some call, some other => permits p.world call other
  | _, _ => true

def Meets (p : CallPool CallId) : Step CallId → Prop
  | .advance id _ => ∀ i, allows p id i = true
  | _ => True

/-- The call puts the key next. -/
def puts (key : Text) (call : FallbackCall) : Bool :=
  match call with
  | ⟨.put k _ _, .call (.put .primary _ _ _) _⟩ => k = key
  | _ => false

/-- The call deletes the key in the primary next. -/
def deletes (key : Text) (call : FallbackCall) : Bool :=
  match call with
  | ⟨.delete k, .call (.delete .primary _) _⟩ => k = key
  | _ => false

def notPut (key : Text) (p : CallPool CallId) : Step CallId → Bool
  | .advance id _ => (p.calls id).all fun call => ! puts key call
  | _ => true

def notWritten (key : Text) (p : CallPool CallId) : Step CallId → Bool
  | .advance id _ => (p.calls id).all fun call => ! puts key call && ! deletes key call
  | _ => true

inductive OpenAt where
  | begin
  | missed
  | copied (rc : Bytes)
  | sized (rc : Bytes) (size : Nat)
  | promoted
  | reopen

inductive Stage where
  | put (key : Text) (bytes : Bytes) (size : Int)
  | «open» (key : Text) (point : OpenAt)
  | delete (key : Text)
  | halfDeleted (key : Text) (first : Except StoreError Unit)
  | stat (key : Text) (missed : Bool)
  | list (listPrefix : Text) (listed : Option (List Text))
  | done (request : Request) (reply : Reply)

namespace Stage

def request : Stage → Request
  | .put key bytes size => .put key bytes size
  | .open key _ => .open key
  | .delete key => .delete key
  | .halfDeleted key _ => .delete key
  | .stat key _ => .stat key
  | .list listPrefix _ => .list listPrefix
  | .done request _ => request

def ofRequest : Request → Stage
  | .put key bytes size => .put key bytes size
  | .open key => .open key .begin
  | .delete key => .delete key
  | .stat key => .stat key false
  | .list listPrefix => .list listPrefix none

def promote (key : Text) (rc : Bytes) (size : Nat) :
    Procedure (StoreOp Side) (Except StoreError Bytes) := do
  match ← Procedure.ask (.put .primary key rc size) with
  | .ok _ => do
    Procedure.ask .promoted
    Procedure.ask (.open .primary key)
  | .error _ => Procedure.ask (.open .legacy key)

def openRest (key : Text) : OpenAt → Procedure (StoreOp Side) (Except StoreError Bytes)
  | .begin => fallbackOpen .primary .legacy key
  | .missed => do
    match ← Procedure.ask (.open .legacy key) with
    | .error err => pure (.error err)
    | .ok lrc =>
      match ← Procedure.ask (.stat .legacy key) with
      | .error err => pure (.error err)
      | .ok fi => promote key lrc fi
  | .copied rc => do
    match ← Procedure.ask (.stat .legacy key) with
    | .error err => pure (.error err)
    | .ok fi => promote key rc fi
  | .sized rc size => promote key rc size
  | .promoted => do
    Procedure.ask .promoted
    Procedure.ask (.open .primary key)
  | .reopen => Procedure.ask (.open .primary key)

def deleteRest (key : Text) (first : Except StoreError Unit) :
    Procedure (StoreOp Side) (Except StoreError Unit) := do
  let _ ← Procedure.ask (.delete .legacy key)
  match first with
  | .error .notFound => pure (.ok ())
  | r => pure r

def statRest (key : Text) : Bool → Procedure (StoreOp Side) (Except StoreError Nat)
  | false => fallbackStat .primary .legacy key
  | true => Procedure.ask (.stat .legacy key)

def listRest (listPrefix : Text) :
    Option (List Text) → Procedure (StoreOp Side) (Except StoreError (List Text))
  | none => fallbackList .primary .legacy listPrefix
  | some pk => do
    match ← Procedure.ask (.list .legacy listPrefix) with
    | .error err => pure (.error err)
    | .ok lk => pure (.ok ((collect [] (pk ++ lk)).mergeSort textLe))

def rest : Stage → Procedure (StoreOp Side) Reply
  | .put key bytes size => body (.put key bytes size)
  | .open key point => do return .reader (← openRest key point)
  | .delete key => body (.delete key)
  | .halfDeleted key first => do return .done (← deleteRest key first)
  | .stat key missed => do return .info (← statRest key missed)
  | .list listPrefix listed => do return .keys (← listRest listPrefix listed)
  | .done _ reply => pure reply

theorem request_ofRequest (request : Request) : (ofRequest request).request = request := by
  cases request with
  | _ => rfl

theorem rest_ofRequest (request : Request) : (ofRequest request).rest = body request := by
  cases request with
  | _ => rfl

/-- The legacy copy that the call is about to promote. -/
def copy : Stage → Option (Text × Bytes)
  | .open key (.copied rc) => some (key, rc)
  | .open key (.sized rc _) => some (key, rc)
  | _ => none

def half : Stage → Option Text
  | .halfDeleted key _ => some key
  | _ => none

def reading : Stage → Bool
  | .open _ _ => true
  | .stat _ _ => true
  | .list _ _ => true
  | _ => false

end Stage

inductive Moves (w : Stores Side) : Stage → Stage → Stores Side → Prop where
  | put (key : Text) (bytes : Bytes) (size : Int) (reply : Reply) :
    Moves w (.put key bytes size) (.done (.put key bytes size) reply)
      (w.set .primary ((w.contents .primary).insert key bytes))
  | delete (key : Text) (first : Except StoreError Unit) :
    Moves w (.delete key) (.halfDeleted key first)
      (w.set .primary ((w.contents .primary).erase key))
  | finish (key : Text) (first : Except StoreError Unit) (reply : Reply) :
    Moves w (.halfDeleted key first) (.done (.delete key) reply)
      (w.set .legacy ((w.contents .legacy).erase key))
  | copy (key : Text) (rc : Bytes) (stored : w.object .legacy key = some rc) :
    Moves w (.open key .missed) (.open key (.copied rc)) w
  | promote (key : Text) (rc : Bytes) (size : Nat) :
    Moves w (.open key (.sized rc size)) (.open key .promoted)
      (w.set .primary ((w.contents .primary).insert key rc))
  -- No object changes, and a copy may be given up.
  | look {s s' : Stage} {w' : Stores Side} (same : w'.contents = w.contents)
    (request : s'.request = s.request) (copy : s'.copy = s.copy ∨ s'.copy = none)
    (before : s.reading = true) (after : s'.half = none) : Moves w s s' w'

theorem request_moves {w w' : Stores Side} {s s' : Stage} (h : Moves w s s' w') :
    s'.request = s.request := by
  cases h with
  | look _ same _ _ _ => exact same
  | _ => rfl

variable {selects : Side → Text → Text → Bool} {w w' : Stores Side} {s s' : Stage}

theorem stage_moves {id : CallId} {rest : Procedure (StoreOp Side) Reply}
    (taken : move selects id s.rest () w = some (rest, w')) : ∃ s', s'.rest = rest ∧ Moves w s s' w' := by
  cases s with
  | put key bytes size =>
    cases taken
    exact ⟨_, rfl, .put key bytes size _⟩
  | «open» key point =>
    cases point with
    | begin =>
      change some (_, w) = _ at taken
      cases primary : (w.contents .primary).lookup key with
      | none =>
        simp only [primary] at taken
        cases taken
        exact ⟨.open key .missed, rfl, .look rfl rfl (.inl rfl) rfl rfl⟩
      | some rc =>
        simp only [primary] at taken
        cases taken
        exact ⟨.done (.open key) _, rfl, .look rfl rfl (.inl rfl) rfl rfl⟩
    | missed =>
      change some (_, w) = _ at taken
      cases legacy : (w.contents .legacy).lookup key with
      | none =>
        simp only [legacy] at taken
        cases taken
        exact ⟨.done (.open key) _, rfl, .look rfl rfl (.inl rfl) rfl rfl⟩
      | some rc =>
        simp only [legacy] at taken
        cases taken
        exact ⟨.open key (.copied rc), rfl, .copy key rc legacy⟩
    | copied rc =>
      change some (_, w) = _ at taken
      cases legacy : (w.contents .legacy).lookup key with
      | none =>
        simp only [legacy] at taken
        cases taken
        exact ⟨.done (.open key) _, rfl, .look rfl rfl (.inr rfl) rfl rfl⟩
      | some rc' =>
        simp only [legacy] at taken
        cases taken
        exact ⟨.open key (.sized rc rc'.length), rfl, .look rfl rfl (.inl rfl) rfl rfl⟩
    | sized rc size =>
      cases taken
      exact ⟨.open key .promoted, rfl, .promote key rc size⟩
    | promoted =>
      cases taken
      exact ⟨.open key .reopen, rfl, .look rfl rfl (.inl rfl) rfl rfl⟩
    | reopen =>
      cases taken
      exact ⟨.done (.open key) _, rfl, .look rfl rfl (.inl rfl) rfl rfl⟩
  | delete key =>
    cases taken
    exact ⟨.halfDeleted key (.ok ()), rfl, .delete key _⟩
  | halfDeleted key first =>
    cases first with
    | ok _ =>
      cases taken
      exact ⟨.done (.delete key) _, rfl, .finish key _ _⟩
    | error err =>
      cases err with
      | notFound =>
        cases taken
        exact ⟨.done (.delete key) _, rfl, .finish key _ _⟩
      | failed =>
        cases taken
        exact ⟨.done (.delete key) _, rfl, .finish key _ _⟩
  | stat key missed =>
    cases missed with
    | true =>
      cases taken
      exact ⟨.done (.stat key) _, rfl, .look rfl rfl (.inl rfl) rfl rfl⟩
    | false =>
      change some (_, w) = _ at taken
      cases primary : (w.contents .primary).lookup key with
      | none =>
        simp only [primary] at taken
        cases taken
        exact ⟨.stat key true, rfl, .look rfl rfl (.inl rfl) rfl rfl⟩
      | some rc =>
        simp only [primary] at taken
        cases taken
        exact ⟨.done (.stat key) _, rfl, .look rfl rfl (.inl rfl) rfl rfl⟩
  | list listPrefix listed =>
    cases listed with
    | none =>
      cases taken
      exact ⟨.list listPrefix (some _), rfl, .look rfl rfl (.inl rfl) rfl rfl⟩
    | some pk =>
      cases taken
      exact ⟨.done (.list listPrefix) _, rfl, .look rfl rfl (.inl rfl) rfl rfl⟩
  | done request reply => cases taken

theorem Moves.primary (h : Moves w s s' w') (key : Text) :
    w'.object .primary key = w.object .primary key ∨ (∃ bytes size, s = .put key bytes size) ∨
      (s = .delete key ∧ w'.object .primary key = none) ∨
      ∃ rc size, s = .open key (.sized rc size) ∧ w'.object .primary key = some rc := by
  cases h with
  | put k bytes size reply =>
    by_cases same : key = k
    · exact .inr (.inl ⟨bytes, size, by rw [same]⟩)
    · exact .inl (by simp [object_insert, same])
  | delete k first =>
    by_cases same : key = k
    · exact .inr (.inr (.inl ⟨by rw [same], by simp [object_erase, same]⟩))
    · exact .inl (by simp [object_erase, same])
  | finish k first reply => exact .inl (by simp [object_erase])
  | copy k rc stored => exact .inl rfl
  | promote k rc size =>
    by_cases same : key = k
    · exact .inr (.inr (.inr ⟨rc, size, by rw [same], by simp [object_insert, same]⟩))
    · exact .inl (by simp [object_insert, same])
  | look same request copy before after => exact .inl (by simp [Stores.object, same])

theorem Moves.wrote {key : Text} {bytes : Bytes} {size : Int}
    (h : Moves w (.put key bytes size) s' w') : w'.object .primary key = some bytes := by
  cases h with
  | put => simp [object_insert]
  | look _ _ _ before _ => cases before

theorem Moves.halves {key : Text} (h : Moves w (.delete key) s' w') :
    ∃ first, s' = .halfDeleted key first ∧ w'.object .primary key = none := by
  cases h with
  | delete _ first => exact ⟨first, rfl, by simp [object_erase]⟩
  | look _ _ _ before _ => cases before

theorem Moves.legacy (h : Moves w s s' w') (key : Text) (absent : w.object .legacy key = none) :
    w'.object .legacy key = none := by
  cases h with
  | put k bytes size reply => simpa [object_insert] using absent
  | delete k first => simpa [object_erase] using absent
  | finish k first reply =>
    rw [object_erase]
    split
    · rfl
    · exact absent
  | copy k rc stored => exact absent
  | promote k rc size => simpa [object_insert] using absent
  | look same request copy before after => simpa [Stores.object, same] using absent

/-- A call is about to promote the copy. -/
def Held (places : Places CallId Stage) (key : Text) (rc : Bytes) : Prop :=
  ∃ i s, places i = some s ∧ s.copy = some (key, rc)

/-- The copy is the legacy object, the primary has no other one, and no `Delete` of the key is
half done. -/
structure Promotable (places : Places CallId Stage) (w : Stores Side) (key : Text) (rc : Bytes) :
    Prop where
  legacy : w.object .legacy key = some rc
  primary : ∀ v, w.object .primary key = some v → v = rc
  alone : ∀ i s, places i = some s → s.half ≠ some key

def Sound (places : Places CallId Stage) (w : Stores Side) : Prop :=
  ∀ key rc, Held places key rc → Promotable places w key rc

variable {places : Places CallId Stage} {p p' : CallPool CallId} {id : CallId} {key : Text}
  {rc : Bytes}

theorem holds_stage (key : Text) (s : Stage) :
    holds key ⟨s.request, s.rest⟩ = s.copy.any fun copy => decide (copy.1 = key) := by
  cases s with
  | «open» k point =>
    cases point with
    | _ => rfl
  | stat k missed =>
    cases missed with
    | _ => rfl
  | list listPrefix listed =>
    cases listed with
    | _ => rfl
  | done request reply =>
    cases request with
    | _ => rfl
  | _ => rfl

theorem halfDeleted_stage (key : Text) (s : Stage) :
    halfDeleted key ⟨s.request, s.rest⟩ = s.half.any (· = key) := by
  cases s with
  | «open» k point =>
    cases point with
    | _ => rfl
  | stat k missed =>
    cases missed with
    | _ => rfl
  | list listPrefix listed =>
    cases listed with
    | _ => rfl
  | done request reply =>
    cases request with
    | _ => rfl
  | _ => rfl

theorem Meets.permits {t : Stage} {i : CallId} (tracks : Tracks Stage.request Stage.rest p places)
    (found : places id = some s) (other : places i = some t) (meets : Meets p (.advance id ())) :
    permits p.world ⟨s.request, s.rest⟩ ⟨t.request, t.rest⟩ = true := by
  have allowed := meets i
  simp only [allows, tracks.calls found, tracks.calls other] at allowed
  exact allowed

/-- Nobody holds a copy of the key. -/
theorem not_held (h : ∀ i t, places i = some t → (! holds key ⟨t.request, t.rest⟩) = true)
    (rc : Bytes) : ¬ Held places key rc := by
  rintro ⟨i, t, at', copy⟩
  have no := h i t at'
  rw [holds_stage, copy] at no
  simp at no

theorem Meets.put {bytes : Bytes} {size : Int} (tracks : Tracks Stage.request Stage.rest p places)
    (found : places id = some (.put key bytes size)) (meets : Meets p (.advance id ())) :
    ¬ Held places key rc :=
  not_held (fun _ _ other => meets.permits tracks found other) rc

theorem Meets.delete (tracks : Tracks Stage.request Stage.rest p places)
    (found : places id = some (.delete key)) (meets : Meets p (.advance id ())) :
    ¬ Held places key rc :=
  not_held (fun _ _ other => meets.permits tracks found other) rc

theorem Meets.copy (tracks : Tracks Stage.request Stage.rest p places)
    (found : places id = some (.open key .missed)) (meets : Meets p (.advance id ()))
    (stored : p.world.object .legacy key = some rc) : Promotable places p.world key rc := by
  have allowed {i : CallId} {t : Stage} (other : places i = some t) :
      (! halfDeleted key ⟨t.request, t.rest⟩ &&
        (p.world.object .primary key).all (· = rc)) = true := by
    have permitted := meets.permits tracks found other
    change (match p.world.object .legacy key with
      | none => true
      | some rc => ! halfDeleted key ⟨t.request, t.rest⟩ &&
        (p.world.object .primary key).all (· = rc)) = true at permitted
    rw [stored] at permitted
    exact permitted
  refine ⟨stored, ?_, ?_⟩
  · intro v primary
    have now := allowed found
    simp only [primary, Option.all_some, Bool.and_eq_true, decide_eq_true_eq] at now
    exact now.2
  · intro i t other half
    have now := allowed other
    rw [halfDeleted_stage, half] at now
    simp at now

theorem puts_put (key : Text) (bytes : Bytes) (size : Int) :
    puts key ⟨.put key bytes size, (Stage.put key bytes size).rest⟩ = true :=
  decide_eq_true rfl

theorem deletes_delete (key : Text) : deletes key ⟨.delete key, (Stage.delete key).rest⟩ = true :=
  decide_eq_true rfl

theorem stage_of_puts {bytes : Bytes} {size : Int} (h : puts key ⟨s.request, s.rest⟩ = true)
    (request : s.request = .put key bytes size) : s = .put key bytes size := by
  cases s with
  | put k b n =>
    cases request
    rfl
  | done r reply =>
    cases request
    cases h
  | _ => cases request

theorem stage_of_deletes (h : deletes key ⟨s.request, s.rest⟩ = true)
    (request : s.request = .delete key) : s = .delete key := by
  cases s with
  | delete k =>
    cases request
    rfl
  | halfDeleted k first => cases h
  | done r reply =>
    cases request
    cases h
  | _ => cases request

theorem not_put {bytes : Bytes} {size : Int} (tracks : Tracks Stage.request Stage.rest p places)
    (found : places id = some (.put key bytes size)) (h : notPut key p (.advance id ()) = true) :
    False := by
  have call := tracks.calls found
  simp only [notPut, call, Option.all_some, Bool.not_eq_true'] at h
  exact Bool.false_ne_true (h.symm.trans (puts_put key bytes size))

theorem notWritten_cases (tracks : Tracks Stage.request Stage.rest p places) (found : places id = some s)
    (h : notWritten key p (.advance id ()) = true) :
    notPut key p (.advance id ()) = true ∧ s ≠ .delete key := by
  have call := tracks.calls found
  simp only [notWritten, call, Option.all_some, Bool.and_eq_true] at h
  constructor
  · simp only [notPut, call, Option.all_some]
    exact h.1
  · rintro rfl
    have no : (! deletes key ⟨.delete key, (Stage.delete key).rest⟩) = true := h.2
    rw [deletes_delete] at no
    cases no

variable [DecidableEq CallId]

theorem Held.of_set {next : Option Stage} (h : Held (places.set id next) key rc) :
    (∃ s', next = some s' ∧ s'.copy = some (key, rc)) ∨ Held places key rc := by
  obtain ⟨i, t, at', copy⟩ := h
  rcases set_cases at' with ⟨_, now⟩ | ⟨_, old⟩
  · exact .inl ⟨t, now, copy⟩
  · exact .inr ⟨i, t, old, copy⟩

/-- A call takes its next step without a new copy. -/
theorem Held.before (h : Held (places.set id (some s')) key rc) (found : places id = some s)
    (copy : s'.copy = s.copy ∨ s'.copy = none) : Held places key rc := by
  rcases h.of_set with ⟨_, now, held⟩ | old
  · cases now
    rcases copy with same | none
    · exact ⟨id, s, found, same.symm.trans held⟩
    · exact nomatch none.symm.trans held
  · exact old

theorem Promotable.place {next : Option Stage} (h : Promotable places w key rc)
    (half : ∀ s', next = some s' → s'.half ≠ some key)
    (objects : ∀ s, w'.object s key = w.object s key) :
    Promotable (places.set id next) w' key rc := by
  refine ⟨(objects .legacy).trans h.legacy, ?_, ?_⟩
  · intro v stored
    rw [objects] at stored
    exact h.primary v stored
  · intro i t at'
    rcases set_cases at' with ⟨_, now⟩ | ⟨_, old⟩
    · exact half t now
    · exact h.alone i t old

/-- The call goes on to a stage without a half-done `Delete` of the key. -/
theorem Promotable.stage (h : Promotable places w key rc) (half : s'.half ≠ some key)
    (objects : ∀ s, w'.object s key = w.object s key) :
    Promotable (places.set id (some s')) w' key rc := by
  apply h.place _ objects
  intro t now
  cases now
  exact half

theorem Sound.moves (tracks : Tracks Stage.request Stage.rest p places)
    (h : Sound places p.world) (found : places id = some s)
    (meets : Meets p (.advance id ())) (moves : Moves p.world s s' w') :
    Sound (places.set id (some s')) w' := by
  intro k rc held
  cases moves with
  | put key bytes size reply =>
    have before : Held places k rc := held.before found (.inl rfl)
    have other : k ≠ key := by
      rintro rfl
      exact meets.put tracks found before
    apply (h k rc before).stage
    · exact fun half => nomatch half
    · intro s
      rw [object_insert]
      simp [other]
  | delete key first =>
    have before : Held places k rc := held.before found (.inl rfl)
    have other : k ≠ key := by
      rintro rfl
      exact meets.delete tracks found before
    apply (h k rc before).stage
    · exact fun half => other (Option.some.inj half).symm
    · intro s
      rw [object_erase]
      simp [other]
  | finish key first reply =>
    have before : Held places k rc := held.before found (.inl rfl)
    -- The legacy copy that is deleted now is held by nobody.
    have other : k ≠ key := by
      rintro rfl
      exact (h k rc before).alone id _ found rfl
    apply (h k rc before).stage
    · exact fun half => nomatch half
    · intro s
      rw [object_erase]
      simp [other]
  | copy key rc' stored =>
    have promotable : Promotable places p.world k rc := by
      rcases held.of_set with ⟨t, now, copy⟩ | old
      · cases now
        cases copy
        exact meets.copy tracks found stored
      · exact h k rc old
    apply promotable.stage
    · exact fun half => nomatch half
    · exact fun _ => rfl
  | promote key rc' size =>
    have before : Held places k rc := held.before found (.inr rfl)
    have old := h k rc before
    refine ⟨?_, ?_, ?_⟩
    · rw [object_insert]
      simpa using old.legacy
    · intro v primary
      rw [object_insert] at primary
      split at primary
      · next same =>
        obtain ⟨_, rfl⟩ := same
        -- Both copies are of the same legacy object.
        have legacy := (h k rc' ⟨id, _, found, rfl⟩).legacy
        rw [← Option.some.inj primary]
        exact Option.some.inj (legacy.symm.trans old.legacy)
      · exact old.primary v primary
    · have rest : Promotable (places.set id (some (.open key .promoted))) p.world k rc := by
        apply old.stage
        · exact fun half => nomatch half
        · exact fun _ => rfl
      exact rest.alone
  | look same request copy before after =>
    apply (h k rc (held.before found copy)).stage
    · rw [after]
      exact fun half => nomatch half
    · intro s
      unfold Stores.object
      rw [same]

/-- The calls in progress stand at stages that are sound. -/
def Staged (places : Places CallId Stage) (p : CallPool CallId) : Prop :=
  Tracks Stage.request Stage.rest p places ∧ Sound places p.world

theorem copy_ofRequest (request : Request) : (Stage.ofRequest request).copy = none := by
  cases request with
  | _ => rfl

theorem half_ofRequest (request : Request) : (Stage.ofRequest request).half = none := by
  cases request with
  | _ => rfl

/-- A call that holds nothing comes or goes. -/
theorem Sound.exchange {next : Option Stage} (h : Sound places w)
    (copy : ∀ s, next = some s → s.copy = none) (half : ∀ s, next = some s → s.half = none) :
    Sound (places.set id next) w := by
  intro k rc held
  rcases held.of_set with ⟨t, now, has⟩ | old
  · exact nomatch (copy t now).symm.trans has
  · apply (h k rc old).place
    · intro t now
      rw [half t now]
      exact fun none => nomatch none
    · exact fun _ => rfl

theorem staged_advance (h : Staged places p) (meets : Meets p (.advance id ()))
    (taken : step selects p (.advance id ()) = some p') :
    ∃ s s', places id = some s ∧ Moves p.world s s' p'.world ∧
      Staged (places.set id (some s')) p' := by
  obtain ⟨tracks, sound⟩ := h
  obtain ⟨s, after, found, moved, tracks'⟩ := tracks.advance taken
  obtain ⟨s', isAfter, moves⟩ := stage_moves moved
  refine ⟨s, s', found, moves, ?_, ?_⟩
  · exact tracks' s' (request_moves moves) isAfter
  · exact sound.moves tracks found meets moves

/-- A step starts or ends a call, or moves one from a stage to the next. -/
theorem staged_step {a : Step CallId} (h : Staged places p) (meets : Meets p a)
    (taken : step selects p a = some p') :
    (∃ id next, Staged (places.set id next) p' ∧ p'.world = p.world ∧
      ∀ s, places id = some s → s.half = none) ∨
    ∃ id s s', a = .advance id () ∧ places id = some s ∧ Moves p.world s s' p'.world ∧
      Staged (places.set id (some s')) p' := by
  cases a with
  | start id request =>
    obtain ⟨tracks, sound⟩ := h
    obtain ⟨free, world, tracks'⟩ := tracks.start (Stage.request_ofRequest request)
      (Stage.rest_ofRequest request) taken
    refine .inl ⟨id, _, ⟨tracks', world ▸ sound.exchange ?_ ?_⟩, world, ?_⟩
    · intro s now
      cases now
      exact copy_ofRequest request
    · intro s now
      cases now
      exact half_ofRequest request
    · intro s at'
      exact nomatch free.symm.trans at'
  | finish id =>
    obtain ⟨tracks, sound⟩ := h
    obtain ⟨s, value, found, returned, world, tracks'⟩ := tracks.finish taken
    refine .inl ⟨id, none, ⟨tracks', world ▸ sound.exchange ?_ ?_⟩, world, ?_⟩
    · exact fun _ none => nomatch none
    · exact fun _ none => nomatch none
    · intro t at'
      rw [found, Option.some.injEq] at at'
      subst at'
      cases s with
      | halfDeleted key first => cases returned
      | _ => rfl
  | advance id _ =>
    obtain ⟨s, s', found, moves, staged'⟩ := staged_advance h meets taken
    exact .inr ⟨id, s, s', rfl, found, moves, staged'⟩

theorem staged_run {cond : CallPool CallId → Step CallId → Prop} {trace : List (Step CallId)}
    (meets : ∀ p a, cond p a → Meets p a)
    (h : Run (step selects) cond (Pool.idle w) trace p) : ∃ places, Staged places p := by
  apply h.invariant fun p => ∃ places, Staged places p
  · refine ⟨_, tracks_idle _ _ w, ?_⟩
    rintro _ _ ⟨_, _, none, _⟩
    cases none
  · rintro p a p' ⟨places, staged⟩ pass taken
    rcases staged_step staged (meets p a pass) taken with ⟨_, _, staged', _⟩ | ⟨_, _, _, _, _, _, staged'⟩
    · exact ⟨_, staged'⟩
    · exact ⟨_, staged'⟩

/-- After a `Put`, up to the next `Put` or `Delete` of the key. -/
inductive AfterPut (selects : Side → Text → Text → Bool) (cond : CallPool CallId → Step CallId → Prop)
    (w : Stores Side) (key : Text) (bytes : Bytes) : CallPool CallId → Prop where
  | intro {before after : List (Step CallId)} {p p₁ p₂ : CallPool CallId} {id : CallId}
    {call : FallbackCall} {size : Int} (first : Run (step selects) cond (Pool.idle w) before p)
    (called : p.calls id = some call) (request : call.request = .put key bytes size)
    (next : puts key call = true) (meets : cond p (.advance id ()))
    (taken : step selects p (.advance id ()) = some p₁)
    (later : Run (step selects) (fun p a => cond p a ∧ notWritten key p a = true) p₁ after p₂) :
    AfterPut selects cond w key bytes p₂

/-- After both steps of a `Delete`, with no `Put` of the key since the first. -/
inductive AfterDelete (selects : Side → Text → Text → Bool) (cond : CallPool CallId → Step CallId → Prop)
    (w : Stores Side) (key : Text) : CallPool CallId → Prop where
  | intro {before during after : List (Step CallId)} {p p₁ p₂ p₃ p₄ : CallPool CallId} {id : CallId}
    {call : FallbackCall} (first : Run (step selects) cond (Pool.idle w) before p)
    (called : p.calls id = some call) (request : call.request = .delete key)
    (next : deletes key call = true) (meets : cond p (.advance id ()))
    (taken : step selects p (.advance id ()) = some p₁)
    (between : Run (step selects)
      (fun p a => cond p a ∧ notPut key p a = true ∧ a ≠ .advance id ()) p₁ during p₂)
    (again : cond p₂ (.advance id ())) (completed : step selects p₂ (.advance id ()) = some p₃)
    (later : Run (step selects) (fun p a => cond p a ∧ notPut key p a = true) p₃ after p₄) :
    AfterDelete selects cond w key p₄

/-- A promotion of a key writes the object that the primary has. -/
theorem put_stays {bytes : Bytes} {a : Step CallId} (staged : Staged places p)
    (meets : Meets p a) (quiet : notWritten key p a = true)
    (stored : p.world.object .primary key = some bytes) (taken : step selects p a = some p') :
    ∃ places', Staged places' p' ∧ p'.world.object .primary key = some bytes := by
  rcases staged_step staged meets taken with
    ⟨_, _, staged', world, _⟩ | ⟨id, s, s', rfl, found, moves, staged'⟩
  · exact ⟨_, staged', world ▸ stored⟩
  · obtain ⟨noPut, noDelete⟩ := notWritten_cases staged.1 found quiet
    refine ⟨_, staged', ?_⟩
    rcases moves.primary key with same | ⟨b, n, rfl⟩ | ⟨rfl, _⟩ | ⟨rc, n, rfl, promoted⟩
    · exact same.trans stored
    · exact (not_put staged.1 found noPut).elim
    · exact absurd rfl noDelete
    · have held : Held places key rc := ⟨id, _, found, rfl⟩
      rw [promoted, (staged.2 key rc held).primary bytes stored]

/-- While a `Delete` is half done, and once it is done, the primary stays without the key. -/
theorem delete_stays {a : Step CallId} (staged : Staged places p) (meets : Meets p a)
    (quiet : notPut key p a = true) (absent : p.world.object .primary key = none)
    (nothing : ∀ rc, ¬ Held places key rc) (taken : step selects p a = some p') :
    p'.world.object .primary key = none := by
  rcases staged_step staged meets taken with
    ⟨_, _, _, world, _⟩ | ⟨id, s, s', rfl, found, moves, _⟩
  · exact world ▸ absent
  · rcases moves.primary key with same | ⟨b, n, rfl⟩ | ⟨_, deleted⟩ | ⟨rc, n, rfl, _⟩
    · exact same.trans absent
    · exact (not_put staged.1 found quiet).elim
    · exact deleted
    · exact absurd ⟨id, _, found, rfl⟩ (nothing rc)

/-- The call has deleted the key in the primary only. -/
def Halved (key : Text) (id : CallId) (p : CallPool CallId) : Prop :=
  ∃ places first, Staged places p ∧ places id = some (.halfDeleted key first) ∧
    p.world.object .primary key = none

/-- The key is in neither store. -/
def Gone (key : Text) (p : CallPool CallId) : Prop :=
  (∃ places, Staged places p) ∧ ∀ side, p.world.object side key = none

theorem halved_step {a : Step CallId} (h : Halved key id p) (meets : Meets p a)
    (quiet : notPut key p a = true) (other : a ≠ .advance id ())
    (taken : step selects p a = some p') : Halved key id p' := by
  obtain ⟨places, first, staged, at', absent⟩ := h
  have absent' : p'.world.object .primary key = none :=
    delete_stays staged meets quiet absent
      (fun rc held => (staged.2 key rc held).alone id _ at' rfl) taken
  rcases staged_step staged meets taken with
    ⟨i, next, staged', _, free⟩ | ⟨i, s, s', rfl, found, _, staged'⟩
  · have ne : id ≠ i := by
      rintro rfl
      exact nomatch free _ at'
    exact ⟨_, first, staged', (set_ne places next ne).trans at', absent'⟩
  · have ne : id ≠ i := by
      rintro rfl
      exact other rfl
    exact ⟨_, first, staged', (set_ne places _ ne).trans at', absent'⟩

theorem gone_step {a : Step CallId} (h : Gone key p) (meets : Meets p a)
    (quiet : notPut key p a = true) (taken : step selects p a = some p') : Gone key p' := by
  obtain ⟨⟨places, staged⟩, absent⟩ := h
  have nothing : ∀ rc, ¬ Held places key rc := by
    intro rc held
    exact nomatch (absent .legacy).symm.trans (staged.2 key rc held).legacy
  have primary := delete_stays staged meets quiet (absent .primary) nothing taken
  rcases staged_step staged meets taken with
    ⟨_, _, staged', world, _⟩ | ⟨id, s, s', rfl, found, moves, staged'⟩
  · exact ⟨⟨_, staged'⟩, world ▸ absent⟩
  · refine ⟨⟨_, staged'⟩, fun side => ?_⟩
    cases side with
    | primary => exact primary
    | legacy => exact moves.legacy key (absent .legacy)

theorem gone_of_halved (h : Halved key id p) (meets : Meets p (.advance id ()))
    (taken : step selects p (.advance id ()) = some p') : Gone key p' := by
  obtain ⟨places, first, staged, at', absent⟩ := h
  obtain ⟨s, s', found, moves, staged'⟩ := staged_advance staged meets taken
  obtain rfl : s = .halfDeleted key first := Option.some.inj (found.symm.trans at')
  refine ⟨⟨_, staged'⟩, ?_⟩
  generalize p'.world = w' at moves
  cases moves with
  | finish _ _ reply =>
    intro side
    cases side with
    | primary => simpa [object_erase] using absent
    | legacy => simp [object_erase]
  | look _ _ _ before _ => cases before

section Execution
variable (selects : Side → Text → Text → Bool) (ok : CallPool CallId → Step CallId → Bool)
  (w : Stores Side) (key : Text) (id : CallId) (check : CallPool CallId → Bool)

def putRun (bytes : Bytes) (size : Int) (before after : List (Step CallId)) : Bool :=
  (exec (step selects) ok (Pool.idle w) before).any fun p =>
    ok p (.advance id ()) &&
    (p.calls id).any (fun call => call.request = .put key bytes size && puts key call) &&
    (step selects p (.advance id ())).any fun p₁ =>
      (exec (step selects) (fun p a => ok p a && notWritten key p a) p₁ after).any check

def deleteRun (before after : List (Step CallId)) : Bool :=
  (exec (step selects) ok (Pool.idle w) before).any fun p =>
    ok p (.advance id ()) &&
    (p.calls id).any (fun call => call.request = .delete key && deletes key call) &&
    (step selects p (.advance id ())).any fun p₁ =>
      ok p₁ (.advance id ()) &&
      (step selects p₁ (.advance id ())).any fun p₃ =>
        (exec (step selects) (fun p a => ok p a && notPut key p a) p₃ after).any check

variable {selects ok w key id check} {cond : CallPool CallId → Step CallId → Prop}

theorem exists_afterPut (sound : ∀ p a, ok p a = true → cond p a) {bytes : Bytes} {size : Int}
    {before after : List (Step CallId)}
    (h : putRun selects ok w key id check bytes size before after = true) :
    ∃ p, AfterPut selects cond w key bytes p ∧ check p = true := by
  obtain ⟨p, first, h⟩ := exists_run sound h
  simp only [Bool.and_eq_true] at h
  obtain ⟨⟨meets, called⟩, h⟩ := h
  obtain ⟨call, called, isPut⟩ := (Option.any_eq_true _ _).mp called
  simp only [Bool.and_eq_true, decide_eq_true_eq] at isPut
  obtain ⟨p₁, taken, h⟩ := (Option.any_eq_true _ _).mp h
  have quiet (p : CallPool CallId) (a : Step CallId) (both : (ok p a && notWritten key p a) = true) :
      cond p a ∧ notWritten key p a = true := by
    rw [Bool.and_eq_true] at both
    exact both.imp_left (sound p a)
  obtain ⟨p₂, later, checked⟩ := exists_run quiet h
  exact ⟨p₂, .intro first called isPut.1 isPut.2 (sound _ _ meets) taken later, checked⟩

theorem exists_afterDelete (sound : ∀ p a, ok p a = true → cond p a)
    {before after : List (Step CallId)}
    (h : deleteRun selects ok w key id check before after = true) :
    ∃ p, AfterDelete selects cond w key p ∧ check p = true := by
  obtain ⟨p, first, h⟩ := exists_run sound h
  simp only [Bool.and_eq_true] at h
  obtain ⟨⟨meets, called⟩, h⟩ := h
  obtain ⟨call, called, isDelete⟩ := (Option.any_eq_true _ _).mp called
  simp only [Bool.and_eq_true, decide_eq_true_eq] at isDelete
  obtain ⟨p₁, taken, h⟩ := (Option.any_eq_true _ _).mp h
  rw [Bool.and_eq_true] at h
  obtain ⟨p₃, completed, rest⟩ := (Option.any_eq_true _ _).mp h.2
  have quiet (p : CallPool CallId) (a : Step CallId) (both : (ok p a && notPut key p a) = true) :
      cond p a ∧ notPut key p a = true := by
    rw [Bool.and_eq_true] at both
    exact both.imp_left (sound p a)
  obtain ⟨p₄, later, checked⟩ := exists_run quiet rest
  exact ⟨p₄, .intro first called isDelete.1 isDelete.2 (sound _ _ meets) taken .start
    (sound _ _ h.1) completed later, checked⟩

end Execution

/-- In every interleaving whose steps meet the condition, what a `Put` wrote stays in the
primary until the next `Put` or `Delete` of its key, and a key that a `Delete` has deleted is
in neither store until the next `Put` of it. -/
theorem writes_stay (selects : Side → Text → Text → Bool) (w : Stores Side) (key : Text) :
    (∀ (bytes : Bytes) (p : CallPool CallId), AfterPut selects Meets w key bytes p →
      p.world.object .primary key = some bytes) ∧
    ∀ p : CallPool CallId, AfterDelete selects Meets w key p →
      ∀ side, p.world.object side key = none := by
  constructor
  · rintro bytes p ⟨first, called, request, next, meets, taken, later⟩
    obtain ⟨places, staged⟩ := staged_run (fun _ _ h => h) first
    obtain ⟨s, s', found, moves, staged'⟩ := staged_advance staged meets taken
    rw [staged.1.calls found, Option.some.injEq] at called
    subst called
    obtain rfl := stage_of_puts next request
    have wrote := moves.wrote
    have stays := later.invariant
      (fun p => ∃ places, Staged places p ∧ p.world.object .primary key = some bytes)
      ⟨_, staged', wrote⟩ fun p a p' ⟨places, staged, stored⟩ ⟨meets, quiet⟩ taken =>
        put_stays staged meets quiet stored taken
    obtain ⟨_, _, stored⟩ := stays
    exact stored
  · rintro p ⟨first, called, request, next, meets, taken, between, again, completed, later⟩
    obtain ⟨places, staged⟩ := staged_run (fun _ _ h => h) first
    obtain ⟨s, s', found, moves, staged'⟩ := staged_advance staged meets taken
    rw [staged.1.calls found, Option.some.injEq] at called
    subst called
    obtain rfl := stage_of_deletes next request
    obtain ⟨first, rfl, absent⟩ := moves.halves
    have halved := between.invariant (Halved key _) ⟨_, first, staged', set_self _ _ _, absent⟩
      fun _ _ _ before ⟨meets, quiet, other⟩ taken => halved_step before meets quiet other taken
    have gone := later.invariant (Gone key) (gone_of_halved halved again completed)
      fun _ _ _ before ⟨meets, quiet⟩ taken => gone_step before meets quiet taken
    exact gone.2

def meetsTwo (p : CallPool (Fin 2)) : Step (Fin 2) → Bool
  | .advance id _ => allows p id 0 && allows p id 1
  | _ => true

theorem meets_of_meetsTwo (p : CallPool (Fin 2)) (a : Step (Fin 2)) (h : meetsTwo p a = true) :
    Meets p a := by
  cases a with
  | advance id _ =>
    simp only [meetsTwo, Bool.and_eq_true] at h
    exact Fin.forall_fin_two.mpr h
  | _ => trivial

def advances (id : Fin 2) (n : Nat) : List (Step (Fin 2)) := List.replicate n (.advance id ())

/-- The `Open` of the poster has taken `n` steps when the other call starts. -/
def opened (n : Nat) (request : Request) : List (Step (Fin 2)) :=
  [.start 0 (.open poster)] ++ advances 0 n ++ [.start 1 request]

/-- A promotion before a `Put`, and a `Delete` between the two reads of an `Open`. -/
theorem writes_stay_promoted :
    (∃ p : CallPool (Fin 2), p.world.promoted = 1 ∧ p.world.object .primary poster = some [5]) ∧
      ∃ p : CallPool (Fin 2), (p.calls 0).isSome = true ∧
        ∀ side, p.world.object side poster = none := by
  constructor
  · have run : putRun (fun _ _ _ => true) meetsTwo migrating poster 1 (fun p => p.world.promoted = 1)
        [5] 1 (opened 5 (.put poster [5] 1)) (advances 0 1 ++ [.finish 0, .finish 1]) = true := by
      decide +kernel
    obtain ⟨p, after, promoted⟩ := exists_afterPut meets_of_meetsTwo run
    exact ⟨p, of_decide_eq_true promoted,
      (writes_stay (fun _ _ _ => true) migrating poster).1 [5] p after⟩
  · have run : deleteRun (fun _ _ _ => true) meetsTwo migrating poster 1
        (fun p => (p.calls 0).isSome) (opened 1 (.delete poster)) (advances 0 1) = true := by
      decide +kernel
    obtain ⟨p, after, called⟩ := exists_afterDelete meets_of_meetsTwo run
    exact ⟨p, called, (writes_stay (fun _ _ _ => true) migrating poster).2 p after⟩

/-- An `Open` that has read the legacy copy promotes it after a `Put` or a `Delete`. -/
theorem promotion_undoes_writes :
    (∃ p : CallPool (Fin 2), AfterPut (fun _ _ _ => true) Always migrating poster [5] p ∧
      p.world.object .primary poster = some [3, 3]) ∧
    ∃ p : CallPool (Fin 2), AfterDelete (fun _ _ _ => true) Always migrating poster p ∧
      p.world.object .primary poster = some [3, 3] := by
  have always (p : CallPool (Fin 2)) (a : Step (Fin 2)) (_ : true = true) : Always p a := trivial
  constructor
  · have run : putRun (fun _ _ _ => true) (fun _ _ => true) migrating poster 1
        (fun p => p.world.object .primary poster = some [3, 3]) [5] 1
        (opened 3 (.put poster [5] 1)) ([.finish 1] ++ advances 0 1) = true := by
      decide +kernel
    obtain ⟨p, after, primary⟩ := exists_afterPut always run
    exact ⟨p, after, of_decide_eq_true primary⟩
  · have run : deleteRun (fun _ _ _ => true) (fun _ _ => true) migrating poster 1
        (fun p => p.world.object .primary poster = some [3, 3])
        (opened 3 (.delete poster)) ([.finish 1] ++ advances 0 1) = true := by
      decide +kernel
    obtain ⟨p, after, primary⟩ := exists_afterDelete always run
    exact ⟨p, after, of_decide_eq_true primary⟩

end Vidsilo.Storage.Promotion
