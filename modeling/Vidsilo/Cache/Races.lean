import Vidsilo.Cache.Stages
import Vidsilo.Library.Stages

/-!
# Calls that overlap

A miss reads the backend, renames its file and inserts the key in three steps that nothing
holds together, and so does a `Put` with its copy; a `Delete` drops the key first and the
object last. The cache agrees with the backend when what is renamed or stored is still the
backend's, when a key is inserted with its file and its object there, and when nothing
brings a key back while it is deleted (`idle_cache_current`).
-/
namespace Vidsilo.Cache.Races
open Library Library.SlashPath Library.Stages Library.Transition Storage.Drivers Calls Stages

abbrev Step := Pool.Action CallId Request Unit

def step (p : CachePool) (a : Step) : Option CachePool := p.step body move a

/-- What the critical section of a `Put` copies into the file. -/
def copied : Procedure CacheOp Reply → Option Bytes
  | .call (.mkdirAll _) next =>
    match next true with
    | .call (.create _) next =>
      match next true with
      | .call (.copy _ bytes) _ => some bytes
      | _ => none
    | _ => none
  | _ => none

/-- A `Put` of the key has written the backend and not yet its copy. -/
def stores (key : Text) (call : Call Request CacheOp Reply) : Bool :=
  match call with
  | ⟨.put k _, .call (.backendOpen _) _⟩ => k = key
  | ⟨.put k _, .call (.backendStat _) _⟩ => k = key
  | ⟨.put k _, .call (.lock .store) _⟩ => k = key
  | _ => false

/-- The next step of a call; `storing` says that another `Put` of the key is still to store
its copy. -/
def permits (storing : Bool) (w : World) (call : Call Request CacheOp Reply) : Bool :=
  match call with
  | ⟨.put key _, .call (.lock .store) next⟩ =>
    match w.backend.lookup key with
    | none => false
    | some v => storing || copied (next ()) = some v
  | ⟨.open key, .call (.rename _ rc) _⟩ =>
    match w.backend.lookup key with
    | none => true
    | some v => storing || rc = v
  | ⟨.open key, .call (.lock .insert) _⟩ => (w.file key).isSome && (w.backend.lookup key).isSome
  | ⟨.delete key, .call (.remove _) _⟩ => key ∉ w.cache.entries
  | ⟨.delete key, .call (.backendDelete _) _⟩ => key ∉ w.cache.entries
  | _ => true

def allows (named : Text → Bool) (storing : Bool) (p : CachePool) : Step → Bool
  | .start _ request => named request.key
  | .advance id _ => (p.calls id).all (permits storing p.world)
  | .finish _ => true

/-- Another `Put` of the key of the call is still to store its copy. -/
def Storing (p : CachePool) : Step → Prop
  | .advance id _ => ∃ call i other, p.calls id = some call ∧ i ≠ id ∧ p.calls i = some other ∧
      stores call.request.key other = true
  | _ => False

def Meets (named : Text → Bool) (p : CachePool) (a : Step) : Prop :=
  allows named false p a = true ∨ (allows named true p a = true ∧ Storing p a)

/-- Every key of the index has the backend's object in its file. -/
def Current (w : World) : Prop :=
  ∀ key ∈ w.cache.entries, ∃ v, w.backend.lookup key = some v ∧ w.file key = some v

def Stores (stages : Places CallId Stage) (key : Text) : Prop :=
  ∃ id s, stages id = some s ∧ s.pending = true ∧ s.request.key = key

/-- Another call does. -/
def OtherStores (stages : Places CallId Stage) (id : CallId) (key : Text) : Prop :=
  ∃ i s, i ≠ id ∧ stages i = some s ∧ s.pending = true ∧ s.request.key = key

def Inserts (stages : Places CallId Stage) (key : Text) : Prop :=
  ∃ id s, stages id = some s ∧ s.inserting = true ∧ s.request.key = key

structure Sound (named : Text → Bool) (root : List Text) (stages : Places CallId Stage) (w : World) :
    Prop where
  root : w.cache.root = root
  free : w.mutex = none
  indexed : ∀ k ∈ w.cache.entries, named k = true
  listed : ∀ e ∈ w.cache.lru, named e.key = true
  called : ∀ id s, stages id = some s → named s.request.key = true
  backed : ∀ k ∈ w.cache.entries, w.backend.lookup k ≠ none
  filed : ∀ k ∈ w.cache.entries, w.file k ≠ none
  current : ∀ k, (k ∈ w.cache.entries ∨ Inserts stages k) → ∀ b v, w.file k = some b →
    w.backend.lookup k = some v → b = v ∨ Stores stages k

variable {named : Text → Bool} {root : List Text} {stages : Places CallId Stage} {w w' : World}
  {id : CallId} {s s' : Stage}

theorem OtherStores.stores {key : Text} (h : OtherStores stages id key) : Stores stages key := by
  obtain ⟨i, t, _, at', stores⟩ := h
  exact ⟨i, t, at', stores⟩

theorem OtherStores.place {key : Text} (h : OtherStores stages id key) (next : Option Stage) :
    Stores (stages.set id next) key := by
  obtain ⟨i, t, ne, at', stores⟩ := h
  exact ⟨i, t, (set_ne stages next ne).trans at', stores⟩

theorem Stores.place {key : Text} (h : Stores stages key)
    (found : stages id = some s) (kept : s.pending = true → s.request.key = key →
      s'.pending = true ∧ s'.request.key = key) : Stores (stages.set id (some s')) key := by
  obtain ⟨i, t, at', pending, same⟩ := h
  by_cases here : i = id
  · subst here
    rw [found, Option.some.injEq] at at'
    subst at'
    obtain ⟨pending', same'⟩ := kept pending same
    exact ⟨i, s', set_self stages i _, pending', same'⟩
  · exact ⟨i, t, (set_ne stages _ here).trans at', pending, same⟩

theorem Inserts.of_place {key : Text} (h : Inserts (stages.set id (some s')) key) :
    (s'.inserting = true ∧ s'.request.key = key) ∨ Inserts stages key := by
  obtain ⟨i, t, at', inserting, same⟩ := h
  rcases set_cases at' with ⟨_, now⟩ | ⟨_, old⟩
  · cases now
    exact .inl ⟨inserting, same⟩
  · exact .inr ⟨i, t, old, inserting, same⟩

/-- Keys that are named have files of their own. -/
def Distinct (named : Text → Bool) (root : List Text) : Prop :=
  ∀ c : Cache, c.root = root → ∀ k k', named k = true → named k' = true →
    c.pathForKey k = c.pathForKey k' → k = k'

/-- A call moves on; of the other keys nothing changes. -/
theorem Sound.place {key : Text} (h : Sound named root stages w) (found : stages id = some s)
    (isKey : s.request.key = key) (s' : Stage) (same : s'.request = s.request)
    (own : key ∈ w.cache.entries ∨ Inserts (stages.set id (some s')) key →
      ∀ b v, w.file key = some b → w.backend.lookup key = some v →
        b = v ∨ Stores (stages.set id (some s')) key) :
    Sound named root (stages.set id (some s')) w := by
  refine ⟨h.root, h.free, h.indexed, h.listed, ?_, h.backed, h.filed, ?_⟩
  · intro i t at'
    rcases set_cases at' with ⟨_, now⟩ | ⟨_, old⟩
    · cases now
      rw [same]
      exact h.called id s found
    · exact h.called i t old
  · intro k member b v file stored
    by_cases other : k = key
    · subst other
      exact own member b v file stored
    · have before : k ∈ w.cache.entries ∨ Inserts stages k := by
        rcases member with indexed | inserts
        · exact .inl indexed
        · rcases inserts.of_place with ⟨_, new⟩ | old
          · rw [same, isKey] at new
            exact absurd new.symm other
          · exact .inr old
      rcases h.current k before b v file stored with now | pending
      · exact .inl now
      · right
        apply pending.place found
        intro _ request
        rw [isKey] at request
        exact absurd request.symm other

/-- The same for a call that neither gains an insertion nor loses a copy. -/
theorem Sound.goOn (h : Sound named root stages w) (found : stages id = some s) (s' : Stage)
    (same : s'.request = s.request) (pending : s.pending = true → s'.pending = true)
    (inserting : s'.inserting = false) : Sound named root (stages.set id (some s')) w := by
  apply h.place found rfl s' same
  intro member b v file stored
  have before : s.request.key ∈ w.cache.entries ∨ Inserts stages s.request.key := by
    rcases member with indexed | inserts
    · exact .inl indexed
    · rcases inserts.of_place with ⟨new, _⟩ | old
      · rw [inserting] at new
        cases new
      · exact .inr old
  rcases h.current _ before b v file stored with now | stores
  · exact .inl now
  · right
    apply stores.place found
    intro before _
    exact ⟨pending before, congrArg Request.key same⟩

theorem Sound.backendPut {key : Text} (h : Sound named root stages w) (bytes : Bytes)
    (stores : Stores stages key) :
    Sound named root stages { w with backend := w.backend.insert key bytes } := by
  refine ⟨h.root, h.free, h.indexed, h.listed, h.called, ?_, h.filed, ?_⟩
  · intro k indexed
    by_cases other : k = key
    · subst other
      simp [AList.lookup_insert]
    · rw [AList.lookup_insert_ne other]
      exact h.backed k indexed
  · intro k member b v file stored
    by_cases other : k = key
    · subst other
      exact .inr stores
    · rw [AList.lookup_insert_ne other] at stored
      exact h.current k member b v file stored

theorem Sound.backendDelete {key : Text} (h : Sound named root stages w)
    (absent : key ∉ w.cache.entries) :
    Sound named root stages { w with backend := w.backend.erase key } := by
  have ne {k : Text} (indexed : k ∈ w.cache.entries) : k ≠ key := by
    rintro rfl
    exact absent indexed
  refine ⟨h.root, h.free, h.indexed, h.listed, h.called, ?_, h.filed, ?_⟩
  · intro k indexed
    rw [AList.lookup_erase_ne (ne indexed)]
    exact h.backed k indexed
  · intro k member b v file stored
    by_cases other : k = key
    · subst other
      rw [AList.lookup_erase] at stored
      cases stored
    · rw [AList.lookup_erase_ne other] at stored
      exact h.current k member b v file stored

theorem Sound.isNamed {k : Text} (h : Sound named root stages w)
    (member : k ∈ w.cache.entries ∨ Inserts stages k) : named k = true := by
  rcases member with indexed | ⟨i, t, at', _, rfl⟩
  · exact h.indexed k indexed
  · exact h.called i t at'

theorem Sound.setFile {key : Text} (h : Sound named root stages w) (rc : Bytes)
    (distinct : Distinct named root) (isNamed : named key = true)
    (now : ∀ v, w.backend.lookup key = some v → rc = v ∨ Stores stages key) :
    Sound named root stages (w.setFile key rc) := by
  have other {k : Text} (isNamed' : named k = true) (ne : k ≠ key) :
      (w.setFile key rc).file k = w.file k := by
    apply file_setFile_ne
    intro same
    exact ne (distinct w.cache h.root key k isNamed isNamed' same).symm
  refine ⟨h.root, h.free, h.indexed, h.listed, h.called, h.backed, ?_, ?_⟩
  · intro k indexed
    by_cases same : k = key
    · subst same
      simp
    · rw [other (h.indexed k indexed) same]
      exact h.filed k indexed
  · intro k member b v file stored
    by_cases same : k = key
    · subst same
      rw [file_setFile, Option.some.injEq] at file
      rw [← file]
      exact now v stored
    · rw [other (h.isNamed member) same] at file
      exact h.current k member b v file stored

theorem Sound.removeFile {key : Text} (distinct : Distinct named root)
    (h : Sound named root stages w) (isNamed : named key = true)
    (absent : key ∉ w.cache.entries) : Sound named root stages (w.removeFile key) := by
  refine ⟨h.root, h.free, h.indexed, h.listed, h.called, h.backed, ?_, ?_⟩
  · intro k indexed
    rw [file_removeFile, if_neg]
    · exact h.filed k indexed
    · intro same
      have isKey := distinct w.cache h.root key k isNamed (h.indexed k indexed) same
      exact absent (isKey ▸ indexed)
  · intro k member b v file stored
    rw [file_removeFile] at file
    split at file
    · cases file
    · exact h.current k member b v file stored

/-- The index loses keys or changes its order. -/
theorem Sound.index {c : Cache} (h : Sound named root stages w) (sameRoot : c.root = w.cache.root)
    (sameFiles : c.files = w.cache.files) (fewer : ∀ k ∈ c.entries, k ∈ w.cache.entries)
    (listed : ∀ e ∈ c.lru, e ∈ w.cache.lru) :
    Sound named root stages { w with cache := c } := by
  have file (k : Text) : ({ w with cache := c } : World).file k = w.file k := by
    unfold World.file
    rw [pathForKey_root sameRoot, sameFiles]
  refine ⟨sameRoot.trans h.root, h.free, ?_, ?_, h.called, ?_, ?_, ?_⟩
  · exact fun k indexed => h.indexed k (fewer k indexed)
  · exact fun e mem => h.listed e (listed e mem)
  · exact fun k indexed => h.backed k (fewer k indexed)
  · intro k indexed
    rw [file]
    exact h.filed k (fewer k indexed)
  · intro k member b v found stored
    rw [file] at found
    exact h.current k (member.imp_left (fewer k)) b v found stored

theorem Sound.removeLocked {key : Text} (h : Sound named root stages w) :
    Sound named root stages { w with cache := w.cache.removeLocked key } := by
  apply h.index
  · exact root_removeLocked _ _
  · exact files_removeLocked _ _
  · exact fun k => mem_removeLocked
  · exact fun e => Index.lru_removeLocked

theorem Sound.touched {key : Text} (h : Sound named root stages w) :
    Sound named root stages (touched w key) := by
  apply h.index
  · exact root_moveToFront _ _
  · exact files_moveToFront _ _
  · exact fun k mem => entries_moveToFront w.cache key ▸ mem
  · exact fun e => Index.lru_moveToFront

/-- A key is inserted whose file and object are there. -/
theorem Sound.insertion {key : Text} {size : Nat} (distinct : Distinct named root)
    (h : Sound named root stages w) (isNamed : named key = true)
    (backed : w.backend.lookup key ≠ none) (filed : w.file key ≠ none)
    (current : ∀ b v, w.file key = some b → w.backend.lookup key = some v →
      b = v ∨ Stores stages key) : Sound named root stages (inserted w key size) := by
  obtain ⟨files, same⟩ := inserted_index w key size
  have backend : (inserted w key size).backend = w.backend := by rw [same]
  have entry {k : Text} (indexed : k ∈ (inserted w key size).cache.entries) :
      k ∈ (Index.insertLocked w.maxSize w.cache key size).1.entries := by
    rw [same] at indexed
    exact indexed
  have old {k : Text} (indexed : k ∈ (inserted w key size).cache.entries) :
      k = key ∨ k ∈ w.cache.entries := Index.mem_insertLocked (entry indexed)
  have indexed : ∀ k ∈ (inserted w key size).cache.entries, named k = true := by
    intro k indexed
    rcases old indexed with rfl | before
    · exact isNamed
    · exact h.indexed k before
  -- A key that stays in the index keeps its file.
  have kept {k : Text} (stays : k ∈ (inserted w key size).cache.entries) :
      (inserted w key size).file k = w.file k := by
    rw [file_inserted, if_neg]
    rintro ⟨e, evicted, path⟩
    have evictedNamed : named e = true := by
      rcases Index.mem_evicted evicted with rfl | ⟨entry, inList, rfl⟩
      · exact isNamed
      · exact h.listed entry inList
    have isKey := distinct w.cache h.root e k evictedNamed (indexed k stays) path
    exact Index.not_mem_evicted (entry stays) (isKey ▸ evicted)
  refine ⟨?_, ?_, indexed, ?_, h.called, ?_, ?_, ?_⟩
  · rw [same]
    exact (root_insertLocked _ _ _ _).trans h.root
  · rw [same]
    exact h.free
  · intro e mem
    rw [same] at mem
    rcases Index.lru_insertLocked mem with isKey | before
    · rw [isKey]
      exact isNamed
    · exact h.listed e before
  · intro k stays
    rw [backend]
    rcases old stays with rfl | before
    · exact backed
    · exact h.backed k before
  · intro k stays
    rw [kept stays]
    rcases old stays with rfl | before
    · exact filed
    · exact h.filed k before
  · intro k member b v file stored
    rw [backend] at stored
    rw [file_inserted] at file
    split at file
    · cases file
    · rcases member with stays | inserts
      · rcases old stays with rfl | before
        · exact current b v file stored
        · exact h.current k (.inl before) b v file stored
      · exact h.current k (.inr inserts) b v file stored

theorem stores_stage (key : Text) (s : Stage) :
    stores key ⟨s.request, s.rest⟩ = (s.pending && decide (s.request.key = key)) := by
  cases s with
  | put k bytes point =>
    cases point with
    | begin => rfl
    | readBack => rfl
    | size rc => rfl
    | store rc size => rfl
  | «open» k point =>
    cases point with
    | _ => rfl
  | delete k point =>
    cases point with
    | _ => rfl
  | stat k missed =>
    cases missed with
    | _ => rfl
  | done request reply =>
    cases request with
    | _ => rfl

theorem otherStores_of_storing {p : CachePool} (tracks : Tracks Stage.request Stage.rest p stages)
    (found : stages id = some s) (storing : Storing p (.advance id ())) :
    OtherStores stages id s.request.key := by
  obtain ⟨call, i, other, here, ne, there, stores⟩ := storing
  rw [tracks, found, Option.map_some, Option.some.injEq] at here
  rw [tracks] at there
  obtain ⟨t, at', rfl⟩ := Option.map_eq_some_iff.mp there
  rw [stores_stage, Bool.and_eq_true, decide_eq_true_eq] at stores
  refine ⟨i, t, ne, at', stores.1, ?_⟩
  rw [stores.2, ← here]

theorem Meets.cases {p : CachePool} (tracks : Tracks Stage.request Stage.rest p stages) (found : stages id = some s)
    (meets : Meets named p (.advance id ())) :
    ∃ storing, permits storing p.world ⟨s.request, s.rest⟩ = true ∧
      (storing = true → OtherStores stages id s.request.key) := by
  simp only [Meets, allows, tracks.calls found, Option.all_some] at meets
  rcases meets with alone | ⟨among, storing⟩
  · exact ⟨false, alone, fun no => nomatch no⟩
  · exact ⟨true, among, fun _ => otherStores_of_storing tracks found storing⟩

theorem permits_store {storing : Bool} {key : Text} {bytes rc : Bytes} {size : Nat}
    (h : permits storing w ⟨.put key bytes, (Stage.put key bytes (.store rc size)).rest⟩ = true) :
    ∃ v, w.backend.lookup key = some v ∧ (rc = v ∨ storing = true) := by
  change (match w.backend.lookup key with
    | none => false
    | some v => storing || decide (some rc = some v)) = true at h
  split at h
  · cases h
  · next v stored =>
    refine ⟨v, stored, ?_⟩
    simpa [or_comm] using h

theorem permits_rename {storing : Bool} {key : Text} {rc v : Bytes}
    (h : permits storing w ⟨.open key, (Stage.open key (.rename rc)).rest⟩ = true)
    (stored : w.backend.lookup key = some v) : rc = v ∨ storing = true := by
  change (match w.backend.lookup key with
    | none => true
    | some v => storing || decide (rc = v)) = true at h
  rw [stored] at h
  simpa [or_comm] using h

theorem permits_insert {storing : Bool} {key : Text} {n : Nat}
    (h : permits storing w ⟨.open key, (Stage.open key (.insert n)).rest⟩ = true) :
    w.file key ≠ none ∧ w.backend.lookup key ≠ none := by
  change ((w.file key).isSome && (w.backend.lookup key).isSome) = true at h
  simpa [Option.isSome_iff_ne_none] using h

theorem Sound.moves {p : CachePool} (distinct : Distinct named root) (tracks : Tracks Stage.request Stage.rest p stages)
    (h : Sound named root stages p.world) (found : stages id = some s)
    (meets : Meets named p (.advance id ())) (moves : Moves p.world s s' w') :
    Sound named root (stages.set id (some s')) w' := by
  have isNamed := h.called id s found
  obtain ⟨storing, permitted, others⟩ := meets.cases tracks found
  cases moves with
  | put key bytes =>
    have wrote := h.goOn found (.put key bytes .readBack) rfl (fun _ => rfl) rfl
    exact wrote.backendPut bytes ⟨id, _, set_self stages id _, rfl, rfl⟩
  | unread key bytes reply absent =>
    apply h.place found rfl (.done (.put key bytes) reply) rfl
    intro _ b v _ stored
    exact nomatch absent.symm.trans stored
  | store key bytes rc size reply =>
    have stores : Stores stages key := ⟨id, _, found, rfl, rfl⟩
    have written := h.setFile rc distinct isNamed fun _ _ => .inr stores
    obtain ⟨v, stored, now⟩ := permits_store permitted
    have own : ∀ b v, (p.world.setFile key rc).file key = some b →
        (p.world.setFile key rc).backend.lookup key = some v →
        b = v ∨ Stores (stages.set id (some (.done (.put key bytes) reply))) key := by
      intro b v' file stored'
      rw [file_setFile, Option.some.injEq] at file
      have same : v = v' := Option.some.inj (stored.symm.trans stored')
      rw [← file, ← same]
      exact now.imp_right fun storing => (others storing).place _
    have returned := written.place found rfl (.done (.put key bytes) reply) rfl fun _ => own
    have backed : p.world.backend.lookup key ≠ none := by simp [stored]
    exact returned.insertion distinct isNamed backed (by simp) own
  | rename key rc =>
    have now (v : Bytes) (stored : p.world.backend.lookup key = some v) :
        rc = v ∨ OtherStores stages id key := (permits_rename permitted stored).imp_right others
    have written := h.setFile rc distinct isNamed
      fun v stored => (now v stored).imp_right OtherStores.stores
    apply written.place found rfl (.open key (.insert rc.length)) rfl
    intro _ b v file stored
    rw [file_setFile, Option.some.injEq] at file
    rw [← file]
    exact (now v stored).imp_right fun storing => storing.place _
  | insert key n =>
    have inserts : Inserts stages key := ⟨id, _, found, rfl, rfl⟩
    obtain ⟨filed, backed⟩ := permits_insert permitted
    have goes := h.goOn found (.open key .serve) rfl (fun pending => nomatch pending) rfl
    refine goes.insertion distinct isNamed backed filed fun b v file stored => ?_
    refine (h.current key (.inr inserts) b v file stored).imp_right fun stores => ?_
    exact stores.place found fun pending => nomatch pending
  | drop key =>
    exact h.removeLocked.goOn found (.open key .unlockAgain) rfl (fun pending => nomatch pending) rfl
  | forget key =>
    exact h.removeLocked.goOn found (.delete key .remove) rfl (fun pending => nomatch pending) rfl
  | remove key =>
    have absent : key ∉ p.world.cache.entries := of_decide_eq_true permitted
    exact (h.removeFile distinct isNamed absent).goOn found (.delete key .delete) rfl
      (fun pending => nomatch pending) rfl
  | delete key reply =>
    have absent : key ∉ p.world.cache.entries := of_decide_eq_true permitted
    exact (h.backendDelete absent).goOn found (.done (.delete key) reply) rfl
      (fun pending => nomatch pending) rfl
  | look same pending before after request =>
    have goes := h.goOn found s' request (fun now => pending.trans now) after
    rcases same with rfl | ⟨key, rfl⟩
    · exact goes
    · exact goes.touched

/-- The calls in progress stand at stages that are sound. -/
def Staged (named : Text → Bool) (root : List Text) (p : CachePool) : Prop :=
  ∃ stages, Tracks Stage.request Stage.rest p stages ∧ Sound named root stages p.world

/-- A call that has nothing to store or to insert comes or goes. -/
theorem Sound.exchange {next : Option Stage} (h : Sound named root stages w)
    (before : ∀ s, stages id = some s → s.pending = false)
    (after : ∀ s, next = some s → s.inserting = false ∧ named s.request.key = true) :
    Sound named root (stages.set id next) w := by
  refine ⟨h.root, h.free, h.indexed, h.listed, ?_, h.backed, h.filed, ?_⟩
  · intro i t at'
    rcases set_cases at' with ⟨_, now⟩ | ⟨_, old⟩
    · exact (after t now).2
    · exact h.called i t old
  · intro k member b v file stored
    have old : k ∈ w.cache.entries ∨ Inserts stages k := by
      refine member.imp_right fun ⟨i, t, at', inserting, isKey⟩ => ?_
      rcases set_cases at' with ⟨_, now⟩ | ⟨_, old⟩
      · rw [(after t now).1] at inserting
        cases inserting
      · exact ⟨i, t, old, inserting, isKey⟩
    refine (h.current k old b v file stored).imp_right fun ⟨i, t, at', pending, isKey⟩ => ?_
    by_cases here : i = id
    · subst here
      rw [before t at'] at pending
      cases pending
    · exact ⟨i, t, (set_ne stages next here).trans at', pending, isKey⟩

theorem pending_of_returned {value : Reply} (h : s.rest = .ret value) : s.pending = false := by
  cases s with
  | put key bytes point =>
    cases point with
    | _ => cases h
  | _ => rfl

theorem staged_step {p p' : CachePool} {a : Step} (distinct : Distinct named root)
    (h : Staged named root p) (meets : Meets named p a) (taken : step p a = some p') :
    Staged named root p' := by
  obtain ⟨stages, tracks, sound⟩ := h
  cases a with
  | start id request =>
    obtain ⟨free, world, tracks'⟩ := tracks.start (Stage.request_ofRequest request)
      (Stage.rest_ofRequest request) taken
    have isNamed : named request.key = true := by
      rcases meets with allowed | ⟨allowed, _⟩
      · exact allowed
      · exact allowed
    refine ⟨_, tracks', world ▸ sound.exchange ?_ ?_⟩
    · intro s at'
      rw [free] at at'
      cases at'
    · intro s now
      cases now
      exact ⟨Stage.inserting_ofRequest request, by rwa [Stage.request_ofRequest]⟩
  | finish id =>
    obtain ⟨s, value, found, returned, world, tracks'⟩ := tracks.finish taken
    refine ⟨_, tracks', world ▸ sound.exchange ?_ fun _ none => nomatch none⟩
    intro t at'
    rw [found, Option.some.injEq] at at'
    exact at' ▸ pending_of_returned returned
  | advance id _ =>
    obtain ⟨s, after, found, moved, tracks'⟩ := tracks.advance taken
    obtain ⟨s', isAfter, moves⟩ := stage_moves sound.free moved
    refine ⟨_, tracks' s' (request_moves moves) isAfter.symm, ?_⟩
    exact sound.moves distinct tracks found meets moves

/-- In every interleaving, from a cache that agrees with its backend, of calls on keys with
files of their own, whose steps meet the condition: when no call is in progress, every key of
the index has a file with the object that the backend has now. -/
theorem idle_cache_current (w : World) (named : Text → Bool) (free : w.mutex = none)
    (listed : ∀ e ∈ w.cache.lru, e.key ∈ w.cache.entries)
    (indexed : ∀ k ∈ w.cache.entries, named k = true)
    (distinct : ∀ k k', named k = true → named k' = true →
      w.cache.pathForKey k = w.cache.pathForKey k' → k = k')
    (init : Current w) (trace : List Step) (p : CachePool)
    (h : Run step (Meets named) (Pool.idle w) trace p) (idle : ∀ id, p.calls id = none) :
    Current p.world := by
  have apart : Distinct named w.cache.root := by
    intro c sameRoot k k' isNamed isNamed' same
    rw [pathForKey_root sameRoot, pathForKey_root sameRoot] at same
    exact distinct k k' isNamed isNamed' same
  have start : Staged named w.cache.root (Pool.idle w) := by
    refine ⟨_, tracks_idle _ _ w, rfl, free, indexed, ?_, ?_, ?_, ?_, ?_⟩
    · exact fun e mem => indexed e.key (listed e mem)
    · exact fun _ _ none => nomatch none
    · intro k mem
      obtain ⟨v, stored, _⟩ := init k mem
      exact fun absent => nomatch absent.symm.trans stored
    · intro k mem
      obtain ⟨v, _, file⟩ := init k mem
      exact fun absent => nomatch absent.symm.trans file
    · rintro k (mem | ⟨_, _, none, _⟩) b v file stored
      · obtain ⟨v', stored', file'⟩ := init k mem
        left
        rw [Option.some.inj (file.symm.trans file'), Option.some.inj (stored.symm.trans stored')]
      · cases none
  obtain ⟨stages, tracks, sound⟩ := h.invariant (Staged named w.cache.root) start
    fun _ _ _ before meets taken => staged_step apart before meets taken
  intro k mem
  obtain ⟨v, stored⟩ := Option.ne_none_iff_exists'.mp (sound.backed k mem)
  obtain ⟨b, file⟩ := Option.ne_none_iff_exists'.mp (sound.filed k mem)
  refine ⟨v, stored, ?_⟩
  rcases sound.current k (.inl mem) b v file stored with rfl | ⟨i, s, at', _⟩
  · exact file
  · have busy := idle i
    rw [tracks, at'] at busy
    cases busy

def playlist : Text := "master.m3u8".toList

def stored : Bucket := (∅ : Bucket).insert playlist [1]

/-- A new cache on an empty directory. -/
def emptyCache : World :=
  { backend := stored
    cache := { root := ["cache".toList], files := ∅, size := 0, entries := [], lru := [] }
    maxSize := 10, positive := by decide, mutex := none }

def advances (id : CallId) (n : Nat) : List Step := List.replicate n (.advance id ())

def idleTwo (p : CachePool) : Bool := (p.calls 0).isNone && (p.calls 1).isNone

theorem idle_of_idleTwo {cond : CachePool → Step → Prop} {trace : List Step} {p : CachePool}
    (h : Run step cond (Pool.idle emptyCache) trace p) (two : idleTwo p = true)
    (started : ∀ id request, .start id request ∈ trace → id = 0 ∨ id = 1) :
    ∀ id, p.calls id = none := by
  simp only [idleTwo, Bool.and_eq_true, Option.isNone_iff_eq_none] at two
  intro id
  by_cases first : id = 0
  · exact first ▸ two.1
  · by_cases second : id = 1
    · exact second ▸ two.2
    · apply Pool.calls_none h
      intro request mem
      rcases started id request mem with same | same
      · exact first same
      · exact second same

/-- A miss between the backend write of a `Put` of its key and the copy. -/
def missInPut : List Step :=
  [.start 0 (.put playlist [2, 2])] ++ advances 0 1 ++ [.start 1 (.open playlist)] ++
    advances 1 9 ++ advances 0 3 ++ [.finish 1, .finish 0]

theorem idle_cache_current_missInPut :
    ∃ p : CachePool, p.world.cache.entries = [playlist] ∧ Current p.world := by
  obtain ⟨p, run, done⟩ : ∃ p : CachePool,
      Run step (Meets (· = playlist)) (Pool.idle emptyCache) missInPut p ∧
        (idleTwo p && (p.world.cache.entries = [playlist] : Bool)) = true :=
    exists_run (fun _ _ h => .inl h) (by decide +kernel)
  simp only [Bool.and_eq_true, decide_eq_true_eq] at done
  refine ⟨p, done.2, ?_⟩
  apply idle_cache_current emptyCache (· = playlist) rfl (by decide) (by decide) _ _ missInPut p run
  · apply idle_of_idleTwo run done.1
    intro id request mem
    have ids : (id = 0 ∧ request = .put playlist [2, 2]) ∨ (id = 1 ∧ request = .open playlist) := by
      simpa [missInPut, advances] using mem
    exact ids.imp And.left And.left
  · intro k k' isKey isKey' _
    exact (of_decide_eq_true isKey).trans (of_decide_eq_true isKey').symm
  · exact fun _ mem => nomatch mem

/-- A `Put` that completes between the read and the rename of a miss. -/
def missAroundPut : List Step :=
  [.start 0 (.open playlist)] ++ advances 0 6 ++ [.start 1 (.put playlist [2, 2])] ++
    advances 1 4 ++ [.finish 1] ++ advances 0 3 ++ [.finish 0]

theorem miss_undoes_put :
    ∃ (w : World) (trace : List Step) (p : CachePool),
      newCache stored emptyDir 10 [] = some w ∧ Run step Always (Pool.idle w) trace p ∧
        (∀ id, p.calls id = none) ∧ ¬ Current p.world := by
  have built : newCache stored emptyDir 10 [] = some emptyCache := rfl
  obtain ⟨p, run, done⟩ : ∃ p : CachePool, Run step Always (Pool.idle emptyCache) missAroundPut p ∧
      (idleTwo p && (playlist ∈ p.world.cache.entries : Bool) &&
        (p.world.backend.lookup playlist ≠ p.world.file playlist : Bool)) = true :=
    exists_always (by decide +kernel)
  simp only [Bool.and_eq_true, decide_eq_true_eq] at done
  refine ⟨emptyCache, missAroundPut, p, built, run, ?_, ?_⟩
  · apply idle_of_idleTwo run done.1.1
    intro id request mem
    have ids : (id = 0 ∧ request = .open playlist) ∨ (id = 1 ∧ request = .put playlist [2, 2]) := by
      simpa [missAroundPut, advances] using mem
    exact ids.imp And.left And.left
  · intro current
    obtain ⟨v, stored, file⟩ := current playlist done.1.2
    exact done.2 (stored.trans file.symm)

end Vidsilo.Cache.Races
