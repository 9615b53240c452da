import Vidsilo.Cache.Calls

/-!
# The mutex of the cache

When the file of a hit cannot be opened, `Open` locks, drops the entry and unlocks, and
then falls through to the Unlock of a miss. Every other path is balanced, so the mutex is
kept in every run in which the file of a hit can be opened.
-/
namespace Vidsilo.Cache.Mutex
open Library Library.Procedure Library.SlashPath Library.Transition Library.Mutex Storage.Drivers
  Calls

abbrev Step := Pool.Action CallId Request Outcome

/-- One operation at a time. -/
def step (p : CachePool) (a : Step) : Option CachePool :=
  p.step body (fun id => Procedure.advance (perform id)) a

/-- The file of a hit can be opened. -/
def opensHits (p : CachePool) : Step → Bool
  | .advance id outcome =>
    match p.calls id with
    | some ⟨_, .call (.openCached key) _⟩ => outcome.isOk && (p.world.file key).isSome
    | _ => true
  | _ => true

/-- The next operation of the call is an Unlock. -/
def unlocksNext (p : CachePool) (id : CallId) : Bool :=
  match p.calls id with
  | some ⟨_, .call .unlock _⟩ => true
  | _ => false

/-- The file of a hit was opened. -/
def Opened : {β : Type} → CacheOp β → β → Prop
  | _, .openCached _, reply => reply.isSome = true
  | _, _, _ => True

theorem guards : Guards use perform World.mutex where
  acquire := by
    intro id β op i s s' b acquires taken
    cases op with
    | lock part =>
      simp only [perform] at taken
      split at taken
      · next free =>
        cases taken
        exact ⟨free, rfl⟩
      · cases taken
    | _ => cases acquires
  release := by
    intro id β op i s s' b releases taken
    cases op with
    | unlock =>
      simp only [perform] at taken
      split at taken
      · cases taken
      · cases taken
        rfl
    | _ => cases releases
  other := by
    intro id β op i s s' b neither taken
    cases op with
    | lock part => cases neither
    | unlock => cases neither
    | moveToFront key =>
      cases taken
      rfl
    | insertLocked key size =>
      cases taken
      rfl
    | removeLocked key =>
      cases taken
      rfl
    | copy key bytes =>
      cases i with
      | ok =>
        cases taken
        rfl
      | fails written =>
        cases taken
        rfl
    | _ =>
      rcases attempt_cases taken with ⟨_, _, rfl⟩ | ⟨_, _, rfl⟩
      · rfl
      · rfl

theorem balanced_removeFiles {α : Type} {held : Bool} {k : Unit → Procedure CacheOp α}
    (keys : List Text) (h : Balanced use Opened held (k ())) :
    Balanced use Opened held (removeFiles keys >>= k) := by
  induction keys with
  | nil => exact h
  | cons key rest ih => exact fun _ _ => ih

theorem balanced_insertLocked {α : Type} {held : Bool} {k : Unit → Procedure CacheOp α}
    (key : Text) (size : Nat) (h : Balanced use Opened held (k ())) :
    Balanced use Opened held (insertLocked key size >>= k) :=
  fun evicted _ => balanced_removeFiles evicted h

theorem balanced_storeCopy {α : Type} {k : Unit → Procedure CacheOp α} (key : Text) (rc : Bytes)
    (size : Nat) (h : Balanced use Opened true (k ())) :
    Balanced use Opened true (storeCopy key rc size >>= k) := by
  intro made _
  cases made with
  | false => exact h
  | true =>
    intro created _
    cases created with
    | false => exact h
    | true =>
      intro copied _
      cases copied with
      | false => exact fun _ _ => h
      | true => exact balanced_insertLocked key size h

theorem balanced_serveFetched (key : Text) (n : Nat) :
    Balanced use Opened false (serveFetched key n) := by
  refine ⟨rfl, fun _ _ => ?_⟩
  apply balanced_insertLocked
  exact ⟨rfl, fun _ _ _ _ => rfl⟩

theorem balanced_fetch (key : Text) : Balanced use Opened false (fetch key) := by
  intro reply _
  cases reply with
  | error err => exact rfl
  | ok rc =>
    intro made _
    cases made with
    | false => exact rfl
    | true =>
      intro created _
      cases created with
      | false => exact rfl
      | true =>
        intro copied _
        cases copied with
        | false => exact rfl
        | true =>
          intro closed _
          cases closed with
          | false => exact rfl
          | true =>
            intro renamed _
            cases renamed with
            | false => exact rfl
            | true => exact balanced_serveFetched key rc.length

theorem balanced_cachePut (key : Text) (bytes : Bytes) :
    Balanced use Opened false (cachePut key bytes) := by
  intro put _
  cases put with
  | error err => exact rfl
  | ok _ =>
    intro opened _
    cases opened with
    | error err => exact rfl
    | ok rc =>
      intro fi _
      refine ⟨rfl, fun _ _ => ?_⟩
      apply balanced_storeCopy
      exact ⟨rfl, fun _ _ => rfl⟩

/-- The branch of a hit whose file cannot be opened is not balanced, and not allowed. -/
theorem balanced_cacheOpen (key : Text) : Balanced use Opened false (cacheOpen key) := by
  refine ⟨rfl, fun _ _ => ?_⟩
  intro size _
  cases size with
  | none => exact ⟨rfl, fun _ _ => balanced_fetch key⟩
  | some size =>
    refine ⟨rfl, fun _ _ => ?_⟩
    intro reply opened
    cases reply with
    | none => cases opened
    | some bytes => exact rfl

theorem balanced_cacheStat (key : Text) : Balanced use Opened false (cacheStat key) := by
  refine ⟨rfl, fun _ _ => ?_⟩
  intro size _
  cases size with
  | none => exact ⟨rfl, fun _ _ _ _ => rfl⟩
  | some size => exact ⟨rfl, fun _ _ => rfl⟩

theorem balanced_cacheDelete (key : Text) : Balanced use Opened false (cacheDelete key) := by
  refine ⟨rfl, fun _ _ => ?_⟩
  intro _ _
  exact ⟨rfl, fun _ _ _ _ _ _ => rfl⟩

theorem balanced_body (request : Request) : Balanced use Opened false (body request) := by
  cases request with
  | put key bytes => exact balanced_bind (balanced_cachePut key bytes) fun _ => rfl
  | «open» key => exact balanced_bind (balanced_cacheOpen key) fun _ => rfl
  | stat key => exact balanced_bind (balanced_cacheStat key) fun _ => rfl
  | delete key => exact balanced_bind (balanced_cacheDelete key) fun _ => rfl

theorem opened_of_opensHits {p : CachePool} {id : CallId} {outcome : Outcome}
    (h : opensHits p (.advance id outcome) = true) {request : Request} {β : Type}
    {op : CacheOp β} {next : β → Procedure CacheOp Reply} {b : β} {w : World}
    (found : p.calls id = some ⟨request, .call op next⟩)
    (taken : perform id op outcome p.world = some (b, w)) : Opened op b := by
  cases op with
  | openCached key =>
    simp only [opensHits, found, Bool.and_eq_true] at h
    rcases attempt_cases taken with ⟨_, rfl, _⟩ | ⟨fails, _, _⟩
    · exact h.2
    · rw [h.1] at fails
      cases fails
  | _ => trivial

theorem held_step {p p' : CachePool} {a : Step} (h : Held use Opened World.mutex p)
    (opens : opensHits p a = true) (taken : step p a = some p') :
    Held use Opened World.mutex p' := by
  cases a with
  | start id request => exact h.start (balanced_body request) taken
  | finish id => exact h.finish taken
  | advance id outcome =>
    exact h.advance guards (fun _ _ _ _ _ _ found performed =>
      opened_of_opensHits opens found performed) taken

/-- In every interleaving in which the file of a hit can be opened, a call unlocks the mutex
only while it holds it, and the mutex is free when no call is in progress. -/
theorem mutex_in_balance (w : World) (free : w.mutex = none) (trace : List Step) (p : CachePool)
    (h : Run step (fun p a => opensHits p a = true) (Pool.idle w) trace p) :
    (∀ id, unlocksNext p id = true → p.world.mutex = some id) ∧
      ((∀ id, p.calls id = none) → p.world.mutex = none) := by
  have held : Held use Opened World.mutex p := h.invariant _ (held_idle free)
    fun _ _ _ before opens taken => held_step before opens taken
  refine ⟨fun id unlocks => ?_, held.free_of_idle⟩
  unfold unlocksNext at unlocks
  split at unlocks
  · next found => exact held.owns_of_release found rfl
  · cases unlocks

/-- One byte fits. -/
def oneByte : World :=
  { backend := ∅
    cache := { root := ["cache".toList], files := ∅, size := 0, entries := [], lru := [] }
    maxSize := 1, positive := by decide, mutex := none }

def advances (id : CallId) (n : Nat) : List Step := List.replicate n (.advance id .ok)

def putFirst : List Step :=
  [.start 0 (.put "a.ts".toList [1])] ++ advances 0 9 ++ [.finish 0, .start 1 (.open "a.ts".toList)]

/-- A hit that is served while another call waits for the mutex. -/
def hitTrace : List Step := putFirst ++ advances 1 3 ++
  [.start 2 (.put "b.ts".toList [2])] ++ advances 2 4 ++ advances 1 1 ++ [.finish 1]

theorem mutex_in_balance_hit :
    ∃ p : CachePool, p.world.mutex = some 2 ∧
      (∀ id, unlocksNext p id = true → p.world.mutex = some id) ∧
      ((∀ id, p.calls id = none) → p.world.mutex = none) := by
  obtain ⟨p, run, locked⟩ : ∃ p : CachePool,
      Run step (fun p a => opensHits p a = true) (Pool.idle oneByte) hitTrace p ∧
        (p.world.mutex = some 2 : Bool) = true :=
    exists_run (fun _ _ h => h) (by decide +kernel)
  exact ⟨p, of_decide_eq_true locked, mutex_in_balance oneByte rfl hitTrace p run⟩

/-- Between the Unlock of a hit and its `os.Open`, another call evicts the file. -/
def evictedTrace : List Step := putFirst ++ advances 1 3 ++
  [.start 2 (.put "b.ts".toList [2])] ++ advances 2 10 ++ advances 1 4

theorem hit_unlocks_twice :
    ∃ (fresh : World) (trace : List Step) (p : CachePool) (id : CallId),
      newCache ∅ emptyDir 1 [] = some fresh ∧ Run step Always (Pool.idle fresh) trace p ∧
        unlocksNext p id = true ∧ p.world.mutex ≠ some id := by
  have built : newCache ∅ emptyDir 1 [] = some oneByte := rfl
  obtain ⟨p, run, bad⟩ : ∃ p : CachePool, Run step Always (Pool.idle oneByte) evictedTrace p ∧
      (unlocksNext p 1 && (p.world.mutex = none : Bool)) = true :=
    exists_always (by decide +kernel)
  simp only [Bool.and_eq_true, decide_eq_true_eq] at bad
  exact ⟨oneByte, evictedTrace, p, 1, built, run, bad.1, by simp [bad.2]⟩

end Vidsilo.Cache.Mutex
