import Vidsilo.Library.Transition
import Vidsilo.Storage.Operations

/-!
# A fallback store

Source: internal/store/fallback.go:31-113. In a sequential run in which only the promotion's
write may fail, a fallback behaves like one map, whose value at a key is the primary's object
and, where there is none, the legacy store's, as long as the listings find both stores in agreement
on their prefix (`behaves_as_map`). A bucket and a local driver need not be: a promotion then
brings a key into a listing that did not have it (`open_changes_listing`).
-/
namespace Vidsilo.Storage.Fallback
open Library Library.Procedure Library.SlashPath Library.Transition Keys Drivers Operations

section Calls
variable {Id : Type} (primary legacy : Id)

def fallbackPut (key : Text) (bytes : Bytes) (size : Int) :
    Procedure (StoreOp Id) (Except StoreError Unit) := ask (.put primary key bytes size)

def fallbackOpen (key : Text) : Procedure (StoreOp Id) (Except StoreError Bytes) := do
  match ← ask (.open primary key) with
  | .ok rc => pure (.ok rc)
  | .error .failed => pure (.error .failed)
  | .error .notFound =>
    match ← ask (.open legacy key) with
    | .error err => pure (.error err)
    | .ok lrc =>
      match ← ask (.stat legacy key) with
      | .error err => pure (.error err)
      | .ok fi =>
        match ← ask (.put primary key lrc fi) with
        | .ok _ => do
          ask .promoted
          ask (.open primary key)
        -- The reader was consumed by the failed Put.
        | .error _ => ask (.open legacy key)

def fallbackStat (key : Text) : Procedure (StoreOp Id) (Except StoreError Nat) := do
  match ← ask (.stat primary key) with
  | .ok fi => pure (.ok fi)
  | .error .failed => pure (.error .failed)
  | .error .notFound => ask (.stat legacy key)

def fallbackDelete (key : Text) : Procedure (StoreOp Id) (Except StoreError Unit) := do
  let err ← ask (.delete primary key)
  let _ ← ask (.delete legacy key)
  match err with
  | .error .notFound => pure (.ok ())
  | r => pure r

/-- The loop over both listings. -/
def collect (seen : List Text) : List Text → List Text
  | [] => []
  | k :: rest => if k ∈ seen then collect seen rest else k :: collect (k :: seen) rest

def fallbackList (listPrefix : Text) :
    Procedure (StoreOp Id) (Except StoreError (List Text)) := do
  match ← ask (.list primary listPrefix) with
  | .error err => pure (.error err)
  | .ok pk =>
    match ← ask (.list legacy listPrefix) with
    | .error err => pure (.error err)
    | .ok lk => pure (.ok ((collect [] (pk ++ lk)).mergeSort textLe))

end Calls

inductive Side where
  | primary | legacy
  deriving DecidableEq, Repr

inductive Request where
  | put (key : Text) (bytes : Bytes) (size : Int)
  | «open» (key : Text)
  | stat (key : Text)
  | delete (key : Text)
  | list (listPrefix : Text)
  deriving DecidableEq

inductive Reply where
  | done (r : Except StoreError Unit)
  | reader (r : Except StoreError Bytes)
  | info (r : Except StoreError Nat)
  | keys (r : Except StoreError (List Text))

def body : Request → Procedure (StoreOp Side) Reply
  | .put key bytes size => do return .done (← fallbackPut .primary key bytes size)
  | .open key => do return .reader (← fallbackOpen .primary .legacy key)
  | .stat key => do return .info (← fallbackStat .primary .legacy key)
  | .delete key => do return .done (← fallbackDelete .primary .legacy key)
  | .list listPrefix => do return .keys (← fallbackList .primary .legacy listPrefix)

abbrev Contents := Text → Option Bytes

/-- The calls of a map; `lists` says which keys a prefix lists. -/
inductive Answers (lists : Text → Text → Bool) (m : Contents) : Request → Reply → Contents → Prop
    where
  | put (key : Text) (bytes : Bytes) (size : Int) :
    Answers lists m (.put key bytes size) (.done (.ok ()))
      fun k => if k = key then some bytes else m k
  | «open» (key : Text) : Answers lists m (.open key) (.reader (found (m key))) m
  | stat (key : Text) :
    Answers lists m (.stat key) (.info (found ((m key).map List.length))) m
  | delete (key : Text) :
    Answers lists m (.delete key) (.done (.ok ())) fun k => if k = key then none else m k
  | list (listPrefix : Text) (keys : List Text)
    (sorted : keys.Pairwise fun a b => textLe a b = true) (distinct : keys.Nodup)
    (all : ∀ k, k ∈ keys ↔ lists listPrefix k = true ∧ (m k).isSome = true) :
    Answers lists m (.list listPrefix) (.keys (.ok keys)) m

/-- A run of calls on a map. -/
inductive Serves (lists : Text → Text → Bool) (m : Contents) :
    List Request → List Reply → Contents → Prop where
  | start : Serves lists m [] [] m
  | next {requests : List Request} {replies : List Reply} {m' m'' : Contents} {request : Request}
    {reply : Reply} (before : Serves lists m requests replies m')
    (answers : Answers lists m' request reply m'') :
    Serves lists m (requests ++ [request]) (replies ++ [reply]) m''

/-- The last call of a run. -/
theorem Serves.last {lists : Text → Text → Bool} {m m'' : Contents} {requests : List Request}
    {replies : List Reply} {request : Request} {reply : Reply}
    (h : Serves lists m (requests ++ [request]) (replies ++ [reply]) m'') :
    ∃ m', Serves lists m requests replies m' ∧ Answers lists m' request reply m'' := by
  generalize calls : requests ++ [request] = allRequests at h
  generalize heard : replies ++ [reply] = allReplies at h
  cases h with
  | start => simp at calls
  | next before answers =>
    obtain ⟨rfl, sameRequest⟩ := List.append_inj' calls rfl
    obtain ⟨rfl, sameReply⟩ := List.append_inj' heard rfl
    obtain rfl := List.singleton_inj.mp sameRequest
    obtain rfl := List.singleton_inj.mp sameReply
    exact ⟨_, before, answers⟩

/-- On a map an Open changes no listing. -/
theorem Serves.list_open_list {lists : Text → Text → Bool} {m m' : Contents}
    {key listPrefix : Text} {before after : List Text} {opened : Reply}
    (h : Serves lists m [.list listPrefix, .open key, .list listPrefix]
      [.keys (.ok before), opened, .keys (.ok after)] m') (k : Text) :
    k ∈ after ↔ k ∈ before := by
  obtain ⟨_, h, third⟩ := (show Serves lists m ([_, _] ++ [_]) ([_, _] ++ [_]) m' from h).last
  obtain ⟨_, h, second⟩ := (show Serves lists m ([_] ++ [_]) ([_] ++ [_]) _ from h).last
  obtain ⟨_, _, first⟩ := (show Serves lists m ([] ++ [_]) ([] ++ [_]) _ from h).last
  cases first with
  | list _ _ _ _ isBefore =>
    cases second
    cases third with
    | list _ _ _ _ isAfter => rw [isBefore, isAfter]

def value (w : Stores Side) (key : Text) : Option Bytes :=
  (w.object .primary key).or (w.object .legacy key)

theorem textLe_trans (a b c : Text) (h : textLe a b = true) (h' : textLe b c = true) :
    textLe a c = true := by
  simp only [textLe, Bool.not_eq_true', List.lex_eq_false_iff_ge] at h h' ⊢
  exact List.le_trans h h'

theorem textLe_total (a b : Text) : (textLe a b || textLe b a) = true := by
  simp only [textLe, Bool.or_eq_true, Bool.not_eq_true', List.lex_eq_false_iff_ge]
  exact List.le_total a b

theorem mem_collect (seen l : List Text) (k : Text) :
    k ∈ collect seen l ↔ k ∈ l ∧ k ∉ seen := by
  induction l generalizing seen with
  | nil => simp [collect]
  | cons x rest ih =>
    unfold collect
    split
    · next old =>
      rw [ih]
      constructor
      · exact fun ⟨mem, new⟩ => ⟨.tail _ mem, new⟩
      · rintro ⟨mem, new⟩
        rcases List.mem_cons.mp mem with rfl | later
        · exact absurd old new
        · exact ⟨later, new⟩
    · next new =>
      rw [List.mem_cons, ih]
      by_cases same : k = x
      · simp [same, new]
      · simp [same]

theorem nodup_collect (seen l : List Text) : (collect seen l).Nodup := by
  induction l generalizing seen with
  | nil => exact List.nodup_nil
  | cons x rest ih =>
    unfold collect
    split
    · exact ih seen
    · refine List.nodup_cons.mpr ⟨?_, ih _⟩
      rw [mem_collect]
      simp

/-- Only the write of a promotion may fail. -/
def onlyPromotionFails (request : Request) :
    {β : Type} → StoreOp Side β → Outcome → Stores Side → Bool
  | _, .put _ _ _ _, outcome, _ =>
    match request with
    | .open _ => true
    | _ => outcome = .ok
  | _, .promoted, _, _ => true
  | _, _, outcome, _ => outcome = .ok

/-- Nothing is written to the legacy store. -/
def LegacyKept (w w' : Stores Side) : Prop :=
  ∀ key bytes, w'.object .legacy key = some bytes → w.object .legacy key = some bytes

variable {selects : Side → Text → Text → Bool} {w w' : Stores Side} {key : Text}

theorem Answers.of_eq {lists : Text → Text → Bool} {m m' m'' : Contents} {request : Request}
    {reply : Reply} (h : Answers lists m request reply m') (same : ∀ k, m'' k = m' k) :
    Answers lists m request reply m'' := by
  rw [funext same]
  exact h

/-- What a call is to do, where the map lists as the primary does. -/
def Meets (selects : Side → Text → Text → Bool) (w : Stores Side) (request : Request)
    (reply : Reply) (w' : Stores Side) : Prop :=
  Answers (selects .primary) (value w) request reply (value w') ∧ LegacyKept w w'

/-- What the legacy store lists under the prefix, the primary's rule selects too, and what this
selects of the keys that only the legacy store has, that one lists. -/
def agrees (selects : Side → Text → Text → Bool) (w : Stores Side) : Request → Bool
  | .list listPrefix => (w.contents .legacy).keys.all fun k =>
      if selects .legacy listPrefix k then selects .primary listPrefix k
      else !selects .primary listPrefix k || k ∈ (w.contents .primary).keys
  | _ => true

theorem value_primary {v : Bytes} (stored : w.object .primary key = some v) :
    value w key = some v := by
  unfold value
  rw [stored]
  rfl

theorem value_legacy (absent : w.object .primary key = none) :
    value w key = w.object .legacy key := by
  unfold value
  rw [absent]
  rfl

theorem meets_put (key : Text) (bytes : Bytes) (size : Int) (w : Stores Side) :
    (body (.put key bytes size)).Wp (perform selects) (onlyPromotionFails (.put key bytes size))
      (Meets selects w (.put key bytes size)) w := by
  intro outcome r w' pass taken
  obtain rfl : outcome = .ok := of_decide_eq_true pass
  cases taken
  constructor
  · apply (Answers.put key bytes size).of_eq
    intro k
    unfold value
    rw [object_insert, object_insert]
    by_cases same : k = key
    · simp [same]
    · simp [same]
  · intro k b stored
    rw [object_insert] at stored
    simpa using stored

theorem object_deleted (w : Stores Side) (s : Side) (key k : Text) :
    ((w.set .primary ((w.contents .primary).erase key)).set .legacy
      (((w.set .primary ((w.contents .primary).erase key)).contents .legacy).erase key)).object s k =
      if k = key then none else w.object s k := by
  rw [object_erase, object_erase]
  cases s with
  | primary => simp
  | legacy => simp

theorem meets_delete (key : Text) (w : Stores Side) :
    (body (.delete key)).Wp (perform selects) (onlyPromotionFails (.delete key))
      (Meets selects w (.delete key)) w := by
  intro outcome r w₁ pass taken
  obtain rfl : outcome = .ok := of_decide_eq_true pass
  cases taken
  intro outcome r w₂ pass taken
  obtain rfl : outcome = .ok := of_decide_eq_true pass
  cases taken
  constructor
  · apply (Answers.delete key).of_eq
    intro k
    unfold value
    rw [object_deleted, object_deleted]
    by_cases same : k = key
    · simp [same]
    · simp [same]
  · intro k b stored
    rw [object_deleted] at stored
    split at stored
    · cases stored
    · exact stored

theorem meets_stat (key : Text) (w : Stores Side) :
    (body (.stat key)).Wp (perform selects) (onlyPromotionFails (.stat key))
      (Meets selects w (.stat key)) w := by
  intro outcome r w₁ pass taken
  obtain rfl : outcome = .ok := of_decide_eq_true pass
  cases taken
  have answers : Answers (selects .primary) (value w) _ _ _ := .stat key
  cases primary : w.object .primary key with
  | some v =>
    rw [value_primary primary] at answers
    simp only [Stores.object] at primary
    simp only [primary]
    exact ⟨answers, fun _ _ stored => stored⟩
  | none =>
    rw [value_legacy primary] at answers
    simp only [Stores.object] at primary
    simp only [primary]
    intro outcome r w₂ pass taken
    obtain rfl : outcome = .ok := of_decide_eq_true pass
    cases taken
    exact ⟨answers, fun _ _ stored => stored⟩

/-- A promotion copies what the map has. -/
theorem value_promoted {v : Bytes} (primary : w.object .primary key = none)
    (legacy : w.object .legacy key = some v) (k : Text) :
    value (w.set .primary ((w.contents .primary).insert key v)) k = value w k := by
  unfold value
  rw [object_insert, object_insert]
  by_cases same : k = key
  · subst same
    simp [primary, legacy]
  · simp [same]

theorem meets_open (key : Text) (w : Stores Side) :
    (body (.open key)).Wp (perform selects) (onlyPromotionFails (.open key))
      (Meets selects w (.open key)) w := by
  intro outcome r w₁ pass taken
  obtain rfl : outcome = .ok := of_decide_eq_true pass
  cases taken
  have answers : Answers (selects .primary) (value w) _ _ _ := .open key
  cases primary : w.object .primary key with
  | some v =>
    rw [value_primary primary] at answers
    simp only [Stores.object] at primary
    simp only [primary]
    exact ⟨answers, fun _ _ stored => stored⟩
  | none =>
    rw [value_legacy primary] at answers
    have miss := primary
    simp only [Stores.object] at miss
    simp only [miss]
    intro outcome r w₂ pass taken
    obtain rfl : outcome = .ok := of_decide_eq_true pass
    cases taken
    cases legacy : w.object .legacy key with
    | none =>
      rw [legacy] at answers
      simp only [Stores.object] at legacy
      simp only [legacy]
      exact ⟨answers, fun _ _ stored => stored⟩
    | some v =>
      rw [legacy] at answers
      have copy := legacy
      simp only [Stores.object] at copy
      simp only [copy]
      intro outcome r w₃ pass taken
      obtain rfl : outcome = .ok := of_decide_eq_true pass
      cases taken
      simp only [copy]
      intro outcome r w₄ _ taken
      cases outcome with
      | ok =>
        cases taken
        intro _ _ w₅ _ counted
        cases counted
        intro outcome r w₆ pass taken
        obtain rfl : outcome = .ok := of_decide_eq_true pass
        cases taken
        change Meets selects w (.open key) (.reader (found
          ((w.set .primary ((w.contents .primary).insert key v)).object .primary key))) _
        rw [object_insert, if_pos ⟨rfl, rfl⟩]
        refine ⟨answers.of_eq (value_promoted primary legacy), fun k b stored => ?_⟩
        change (w.set .primary ((w.contents .primary).insert key v)).object .legacy k = _ at stored
        rw [object_insert] at stored
        simpa using stored
      | fails =>
        cases taken
        intro outcome r w₅ pass taken
        obtain rfl : outcome = .ok := of_decide_eq_true pass
        cases taken
        simp only [copy]
        exact ⟨answers, fun _ _ stored => stored⟩

theorem mem_keys_iff (w : Stores Side) (s : Side) (k : Text) :
    k ∈ (w.contents s).keys ↔ (w.object s k).isSome = true :=
  AList.mem_keys.trans AList.lookup_isSome.symm

/-- The merged listings report the keys of the map that the primary's rule selects. -/
theorem mem_listings_iff {listPrefix : Text} (ok : agrees selects w (.list listPrefix) = true)
    (k : Text) :
    k ∈ collect [] ((w.contents .primary).keys.filter (selects .primary listPrefix) ++
        (w.contents .legacy).keys.filter (selects .legacy listPrefix)) ↔
      selects .primary listPrefix k = true ∧ (value w k).isSome = true := by
  have alike : (w.object .legacy k).isSome = true →
      if selects .legacy listPrefix k then selects .primary listPrefix k = true
      else selects .primary listPrefix k = false ∨ (w.object .primary k).isSome = true := by
    intro stored
    have listed := List.all_eq_true.mp ok k ((mem_keys_iff w .legacy k).mpr stored)
    split at listed
    next both => rwa [if_pos both]
    next other => simpa [if_neg other, mem_keys_iff] using listed
  rw [mem_collect, List.mem_append, List.mem_filter, List.mem_filter, mem_keys_iff, mem_keys_iff]
  unfold value
  cases primary : w.object .primary k with
  | some v =>
    cases legacy : w.object .legacy k with
    | none => simp
    | some v' =>
      rw [primary, legacy] at alike
      cases selected : selects .legacy listPrefix k with
      | true => simpa [selected] using alike rfl
      | false => simp
  | none =>
    cases legacy : w.object .legacy k with
    | none => simp
    | some v' =>
      rw [primary, legacy] at alike
      cases selected : selects .legacy listPrefix k with
      | true => simpa [selected] using alike rfl
      | false => simpa [selected] using alike rfl

theorem meets_list (listPrefix : Text) (w : Stores Side)
    (ok : agrees selects w (.list listPrefix) = true) :
    (body (.list listPrefix)).Wp (perform selects) (onlyPromotionFails (.list listPrefix))
      (Meets selects w (.list listPrefix)) w := by
  intro outcome r w₁ pass taken
  obtain rfl : outcome = .ok := of_decide_eq_true pass
  cases taken
  intro outcome r w₂ pass taken
  obtain rfl : outcome = .ok := of_decide_eq_true pass
  cases taken
  refine ⟨.list listPrefix _ ?_ ?_ ?_, fun _ _ stored => stored⟩
  · exact List.pairwise_mergeSort textLe_trans textLe_total _
  · exact (List.mergeSort_perm _ _).nodup_iff.mpr (nodup_collect _ _)
  · intro k
    rw [List.mem_mergeSort]
    exact mem_listings_iff ok k

theorem meets_body (request : Request) (w : Stores Side) (ok : agrees selects w request = true) :
    (body request).Wp (perform selects) (onlyPromotionFails request) (Meets selects w request)
      w := by
  cases request with
  | put key bytes size => exact meets_put key bytes size w
  | «open» key => exact meets_open key w
  | stat key => exact meets_stat key w
  | delete key => exact meets_delete key w
  | list listPrefix => exact meets_list listPrefix w ok

/-- A call that no other overlaps, with the outcomes of its operations. -/
structure Invocation where
  request : Request
  outcomes : List Outcome

/-- The stores, and what has been replied so far. -/
structure Session where
  stores : Stores Side
  replies : List Reply

def invoke (selects : Side → Text → Text → Bool) (s : Session) (a : Invocation) : Option Session :=
  ((body a.request).run (perform selects) .ok a.outcomes s.stores).map fun r =>
    ⟨r.2, s.replies ++ [r.1]⟩

def allowed (selects : Side → Text → Text → Bool) (s : Session) (a : Invocation) : Bool :=
  (body a.request).check (perform selects) .ok (onlyPromotionFails a.request) a.outcomes s.stores

/-- In every sequential run in which only promotions fail to write and each listing finds both
stores in agreement, a fallback replies as one map does, whose value is the primary's object or else
the legacy store's, and nothing is written to the legacy store. -/
theorem behaves_as_map (selects : Side → Text → Text → Bool) (w : Stores Side)
    (trace : List Invocation) (s : Session)
    (h : Run (invoke selects)
      (fun s a => allowed selects s a = true ∧ agrees selects s.stores a.request = true)
      ⟨w, []⟩ trace s) :
    Serves (selects .primary) (value w) (trace.map Invocation.request) s.replies (value s.stores) ∧
      ∀ key bytes, s.stores.object .legacy key = some bytes →
        w.object .legacy key = some bytes := by
  apply h.trace_invariant fun trace s =>
    Serves (selects .primary) (value w) (trace.map Invocation.request) s.replies (value s.stores) ∧
      LegacyKept w s.stores
  · exact ⟨.start, fun _ _ stored => stored⟩
  · intro trace s a s' ⟨serves, kept⟩ ⟨pass, agree⟩ taken
    obtain ⟨⟨reply, last⟩, run, rfl⟩ := Option.map_eq_some_iff.mp taken
    obtain ⟨answers, kept'⟩ := wp_run (meets_body a.request s.stores agree) pass run
    rw [List.map_append]
    exact ⟨serves.next answers, fun k b stored => kept k b (kept' k b stored)⟩

/-- Stores whose drivers have one rule agree whatever they hold. -/
theorem agrees_of_alike (alike : selects .primary = selects .legacy) (w : Stores Side)
    (request : Request) : agrees selects w request = true := by
  cases request with
  | list listPrefix =>
    refine List.all_eq_true.mpr fun k _ => ?_
    cases selected : selects .legacy listPrefix k <;> simp [alike, selected]
  | _ => rfl

/-- A bucket in front of a local driver. -/
def drivers : Side → Text → Text → Bool
  | .primary => Bucket.selects
  | .legacy => Local.selects ["media".toList]

def clip : Text := "entries/1/a.ts".toList

def poster : Text := "entries/1/poster.jpg".toList

/-- Two legacy objects, one of which the primary has in another version. -/
def migrating : Stores Side where
  contents := fun
    | .primary => (∅ : Bucket).insert clip [2]
    | .legacy => ((∅ : Bucket).insert clip [1]).insert poster [3, 3]
  promoted := 0

/-- The first promotion fails, the second does not. -/
def migrationTrace : List Invocation :=
  [⟨.open poster, [.ok, .ok, .ok, .fails]⟩, ⟨.open poster, []⟩, ⟨.list "entries/1".toList, []⟩,
    ⟨.delete clip, []⟩, ⟨.stat clip, []⟩]

theorem behaves_as_map_migration :
    ∃ s : Session, s.stores.promoted = 1 ∧
      Serves Bucket.selects (value migrating) (migrationTrace.map Invocation.request) s.replies
        (value s.stores) := by
  obtain ⟨s, run, promoted⟩ : ∃ s, Run (invoke drivers)
      (fun s a => allowed drivers s a = true ∧ agrees drivers s.stores a.request = true)
      ⟨migrating, []⟩ migrationTrace s ∧ (s.stores.promoted = 1 : Bool) = true :=
    exists_run (fun s a (h : (allowed drivers s a && agrees drivers s.stores a.request) = true) =>
      Bool.and_eq_true_iff.mp h) (by decide +kernel)
  exact ⟨s, of_decide_eq_true promoted, (behaves_as_map drivers migrating migrationTrace s run).1⟩

/-- The poster of entry 12, not promoted yet. -/
def unpromoted : Stores Side where
  contents := fun
    | .primary => ∅
    | .legacy => (∅ : Bucket).insert "entries/12/poster.jpg".toList [3]
  promoted := 0

def openBetween : List Invocation :=
  [⟨.list "entries/1".toList, []⟩, ⟨.open "entries/12/poster.jpg".toList, []⟩,
    ⟨.list "entries/1".toList, []⟩]

/-- Nothing is listed at first, and something at last. -/
def grows : List Reply → Bool
  | [.keys (.ok []), _, .keys (.ok (_ :: _))] => true
  | _ => false

/-- An Open brings a key into a listing that did not have it, so that no map replies so. -/
theorem open_changes_listing :
    ∃ s : Session, Run (invoke drivers) (fun s a => allowed drivers s a = true) ⟨unpromoted, []⟩
        openBetween s ∧
      ∀ lists m, ¬ Serves lists (value unpromoted) (openBetween.map Invocation.request) s.replies
        m := by
  obtain ⟨s, run, listed⟩ : ∃ s, Run (invoke drivers) (fun s a => allowed drivers s a = true)
      ⟨unpromoted, []⟩ openBetween s ∧ grows s.replies = true :=
    exists_run (fun _ _ h => h) (by decide +kernel)
  refine ⟨s, run, fun lists m serves => ?_⟩
  unfold grows at listed
  split at listed
  next k rest replies =>
    rw [replies] at serves
    exact absurd ((Serves.list_open_list serves k).mp (.head rest)) (List.not_mem_nil)
  · cases listed

end Vidsilo.Storage.Fallback
