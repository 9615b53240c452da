import Vidsilo.Storage.KeyPaths

/-!
# Puts among readers and walks of the local driver

Source: internal/store/local.go:44-161, usage.go:169-195. A `Put` writes a temporary file beside its key
and renames it, so under its key a file is always whole: what the disk holds under a key is what the last
`Put` or `MoveIn` gave it, and a reader keeps the file that it opened. The walks of `List` and `ListSizes`
report every file of a directory, and the temporary file of a `Put` in progress, or of one that a crash cut
off, is one of them (`temp_file_listed`). Deletions are not among the calls here.
-/
namespace Vidsilo.Storage.LocalPuts
open Library Library.SlashPath Library.Resolve Library.FileTree Library.Decimal
open Keys Drivers LocalDisk KeyPaths

/-- A name that `os.CreateTemp` can make. -/
def isTempName (name : Text) : Bool :=
  tempPrefix.isPrefixOf name &&
    (parseUint (name.drop tempPrefix.length)).any fun n => tempName n = name

def isTemp (p : Place) : Bool := p.getLast?.any isTempName

/-- The bytes of a file. -/
def bytesAt (d : Disk Text UInt8) (p : Place) : Option Bytes :=
  match d.tree.node p with
  | some (.file i) => some (d.data i)
  | _ => none

structure Watched where
  state : State
  /-- What the last `Put` or `MoveIn` that completed gave a key, by the place of its path. -/
  stored : Place → Option Bytes
  /-- What the key of a call held when it was opened or looked up. -/
  seen : Nat → Option Bytes

section Watching
variable (cwd : Place) (root : Text)

/-- What the next system call of a call completes: a `Put` gives its key all that its reader gave, a
`MoveIn` the content of its source. -/
def completion (d : Disk Text UInt8) : Call → Outcome → Option (Place × Bytes)
  | .putting path body (.rename tmp _), .works _ =>
    (d.rename (resolve cwd tmp) (resolve cwd path)).map fun _ => (resolve cwd path, body.flatten)
  | .movingIn src path [], .works _ =>
    (d.rename (resolve cwd src) (resolve cwd path)).bind fun _ =>
      (bytesAt d (resolve cwd src)).map fun content => (resolve cwd path, content)
  | _, _ => none

/-- The place that the call opens or looks up next. -/
def lookedUp : Call → Outcome → Option Place
  | .opening path, .works _ | .statting path, .works _ => some (resolve cwd path)
  | _, _ => none

/-- After a system call of the call `id`. -/
def Watched.after (w : Watched) (id : Nat) (c : Call) (outcome : Outcome) (s : State) : Watched where
  state := s
  stored := match completion cwd w.state.disk c outcome with
    | some (p, content) => Function.update w.stored p (some content)
    | none => w.stored
  seen := match lookedUp cwd c outcome with
    | some p => Function.update w.seen id (w.stored p)
    | none => w.seen

def watch (w : Watched) (a : Action) : Option Watched :=
  (step cwd root w.state a).map fun s =>
    match a with
    | .advance id outcome =>
      match w.state.calls.lookup id with
      | some c => w.after cwd id c outcome s
      | none => { w with state := s }
    | _ => { w with state := s }

/-- A new driver of an empty root. -/
def opened (d : Disk Text UInt8) : Watched := ⟨idle d, fun _ => none, fun _ => none⟩

/-- No key ends in a name of a temporary file, and no prefix climbs above the root; a temporary name is
drawn that no `Put` in progress has; the source of a `MoveIn` is not a directory and not in the store; and a
walk meets no temporary file. -/
def allowed (s : State) : Action → Bool
  | .start _ req =>
    match req with
    | .put key _ | .moveIn key _ | .openKey key | .stat key =>
      (pathForKey root key).all fun path => !isTemp (resolve cwd path)
    | .list listPrefix | .listSizes listPrefix => resolve cwd root <+: walkBase cwd root listPrefix
    | .delete _ | .removeTree _ => false
  | .advance id (.works drawn) =>
    match s.calls.lookup id with
    | some (.putting path _ .temp) =>
      s.calls.entries.all fun e => e.2.held.all fun tmp =>
        resolve cwd tmp ≠ resolve cwd (joinPath (dirName path) (tempName drawn))
    | some (.movingIn src _ []) =>
      s.disk.tree.node (resolve cwd src) ≠ some .dir ∧ ¬ Below (resolve cwd root) (resolve cwd src)
    | some (.entering _ base) => s.disk.tree.isDir base || !isTemp base
    | some (.walking _ ((p, true) :: _) _) => (readDir s.disk.tree p).all fun e => e.2 || !isTemp e.1
    | _ => true
  | _ => true

end Watching

theorem isTempName_tempName (drawn : Nat) : isTempName (tempName drawn) = true := by
  have isPrefix : tempPrefix.isPrefixOf (tempName drawn) = true :=
    List.isPrefixOf_iff_prefix.mpr (List.prefix_append _ _)
  have digits : (tempName drawn).drop tempPrefix.length = Nat.toDigits 10 drawn := by
    rw [tempName, List.drop_left]
  rw [isTempName, isPrefix, digits, parseUint_toDigits]
  simp

section Invariant
variable (cwd : Place) (root : Text)

/-- The path of a key that is not a temporary name. -/
def Plain (path : Text) : Prop := OfKey root path ∧ isTemp (resolve cwd path) = false

def IsTempFile (tmp : Text) : Prop :=
  Below (resolve cwd root) (resolve cwd tmp) ∧ isTemp (resolve cwd tmp) = true

/-- A place in the store that a `Put` or a `MoveIn` has given something. -/
def Completed (stored : Place → Option Bytes) (p : Place) : Prop :=
  Below (resolve cwd root) p ∧ (stored p).isSome = true

/-- The text is a key that leads to such a place. -/
def CompletedKey (stored : Place → Option Bytes) (key : Text) : Prop :=
  ∃ path, pathForKey root key = some path ∧ (stored (resolve cwd path)).isSome = true

def FitsPut (d : Disk Text UInt8) (body : List Bytes) : PutPhase → Prop
  | .dirs _ | .temp => True
  | .copy tmp inode left => IsTempFile cwd root tmp ∧ d.tree.node (resolve cwd tmp) = some (.file inode) ∧
      d.data inode ++ left.flatten = body.flatten
  | .close tmp inode | .rename tmp inode =>
    IsTempFile cwd root tmp ∧ d.tree.node (resolve cwd tmp) = some (.file inode) ∧
      d.data inode = body.flatten

/-- A `Put` has its temporary file, with what it has copied so far; a walk has entries of the store, and
found what was completed. -/
def Fits (d : Disk Text UInt8) (stored : Place → Option Bytes) : Call → Prop
  | .putting path body phase => Plain cwd root path ∧ FitsPut cwd root d body phase
  | .cleaning tmp _ => IsTempFile cwd root tmp
  | .movingIn _ path _ | .opening path | .statting path => Plain cwd root path
  | .deleting _ | .sweeping _ => False
  | .entering _ base => resolve cwd root <+: base
  | .walking _ left found =>
    (∀ e ∈ left, resolve cwd root <+: e.1 ∧ (e.2 = false → Completed cwd root stored e.1)) ∧
      ∀ f ∈ found, Completed cwd root stored f.1
  | .finished (.listed keys) => ∀ key ∈ keys, CompletedKey cwd root stored key
  | .finished (.sized files) => ∀ f ∈ files, CompletedKey cwd root stored f.1
  | .finished _ => True

structure Inv (w : Watched) : Prop where
  rooted : w.state.disk.tree.isDir (resolve cwd root) = true
  files : ∀ p, Below (resolve cwd root) p → isTemp p = false → bytesAt w.state.disk p = w.stored p
  keys : ∀ p, (w.stored p).isSome = true → ∃ path, OfKey root path ∧ resolve cwd path = p
  fits : ∀ id c, w.state.calls.lookup id = some c → Fits cwd root w.state.disk w.stored c
  apart : ∀ id id' c c' tmp tmp', w.state.calls.lookup id = some c → w.state.calls.lookup id' = some c' →
    c.held = some tmp → c'.held = some tmp' → resolve cwd tmp = resolve cwd tmp' → id = id'
  handles : ∀ id i, w.state.calls.lookup id = some (.finished (.opened (.file i))) →
    i < w.state.disk.next ∧ w.seen id = some (w.state.disk.data i) ∧
      ∀ id' c, w.state.calls.lookup id' = some c → c.inode ≠ some i
  infos : ∀ id n, w.state.calls.lookup id = some (.finished (.info n)) →
    ∃ content : Bytes, w.seen id = some content ∧ n = content.length

variable {cwd root}

theorem OfKey.isTempFile {path : Text} (h : OfKey root path) (drawn : Nat) :
    IsTempFile cwd root (joinPath (dirName path) (tempName drawn)) := by
  refine ⟨h.temp drawn, ?_⟩
  rw [place_temp, isTemp, List.getLast?_append, List.getLast?_singleton]
  exact isTempName_tempName drawn

theorem Plain.below {path : Text} (h : Plain cwd root path) :
    Below (resolve cwd root) (resolve cwd path) := OfKey.below h.1

theorem IsTempFile.ne {tmp : Text} (h : IsTempFile cwd root tmp) {p : Place} (plain : isTemp p = false) :
    p ≠ resolve cwd tmp := by
  intro same
  rw [same, h.2] at plain
  cases plain

theorem below_ne_nil {top p : Place} (h : Below top p) : p ≠ [] := by
  intro none
  have sub := h.1
  rw [none, List.prefix_nil] at sub
  exact h.2 (none.trans sub.symm)

theorem bytesAt_same {d d' : Disk Text UInt8} {p : Place} (h : d.SameAt d' p) :
    bytesAt d' p = bytesAt d p := by
  unfold bytesAt
  rw [h.1]
  split
  next i here => rw [h.2 i here]
  · rfl

/-- What a call relies on stays when its own temporary file does, and more is completed. -/
theorem Fits.mono {d d' : Disk Text UInt8} {stored stored' : Place → Option Bytes} {c : Call}
    (h : Fits cwd root d stored c) (grows : ∀ p, (stored p).isSome = true → (stored' p).isSome = true)
    (same : ∀ tmp i, c.held = some tmp → c.inode = some i → d.SameAt d' (resolve cwd tmp)) :
    Fits cwd root d' stored' c := by
  have completed {p : Place} (here : Completed cwd root stored p) : Completed cwd root stored' p :=
    ⟨here.1, grows p here.2⟩
  have completedKey {key : Text} (here : CompletedKey cwd root stored key) :
      CompletedKey cwd root stored' key := by
    obtain ⟨path, isPath, some⟩ := here
    exact ⟨path, isPath, grows _ some⟩
  cases c with
  | putting path body phase =>
    refine ⟨h.1, ?_⟩
    cases phase with
    | dirs left => trivial
    | temp => trivial
    | copy tmp inode left =>
      obtain ⟨temp, here, copied⟩ := h.2
      have kept := same tmp inode rfl rfl
      exact ⟨temp, kept.1.trans here, by rw [kept.2 inode here]; exact copied⟩
    | close tmp inode =>
      obtain ⟨temp, here, copied⟩ := h.2
      have kept := same tmp inode rfl rfl
      exact ⟨temp, kept.1.trans here, (kept.2 inode here).trans copied⟩
    | rename tmp inode =>
      obtain ⟨temp, here, copied⟩ := h.2
      have kept := same tmp inode rfl rfl
      exact ⟨temp, kept.1.trans here, (kept.2 inode here).trans copied⟩
  | walking sizes left found =>
    exact ⟨fun e mem => ⟨(h.1 e mem).1, fun isFile => completed ((h.1 e mem).2 isFile)⟩,
      fun f mem => completed (h.2 f mem)⟩
  | finished reply =>
    cases reply with
    | listed keys => exact fun key mem => completedKey (h key mem)
    | sized files => exact fun f mem => completedKey (h f mem)
    | done => trivial
    | failed err => trivial
    | opened node => trivial
    | info size => trivial
  | cleaning tmp renamed => exact h
  | movingIn src path left => exact h
  | opening path => exact h
  | statting path => exact h
  | deleting path => exact h
  | sweeping path => exact h
  | entering sizes base => exact h

/-- The inode that a call writes is that of its temporary file. -/
theorem Fits.inode {d : Disk Text UInt8} {stored : Place → Option Bytes} {c : Call} {i : Nat}
    (h : Fits cwd root d stored c) (writes : c.inode = some i) : ∃ tmp, c.held = some tmp ∧
      IsTempFile cwd root tmp ∧ d.tree.node (resolve cwd tmp) = some (.file i) := by
  cases c with
  | putting path body phase =>
    cases phase with
    | dirs left => cases writes
    | temp => cases writes
    | copy tmp inode left =>
      cases writes
      exact ⟨tmp, rfl, h.2.1, h.2.2.1⟩
    | close tmp inode =>
      cases writes
      exact ⟨tmp, rfl, h.2.1, h.2.2.1⟩
    | rename tmp inode =>
      cases writes
      exact ⟨tmp, rfl, h.2.1, h.2.2.1⟩
  | _ => cases writes

/-- What a step of the call `id` did, outside the places that it touched and to them. -/
structure Moves (cwd : Place) (root : Text) (w w' : Watched) (id : Nat) (c c' : Call)
    (touched : Place → Prop) : Prop where
  found : w.state.calls.lookup id = some c
  calls : w'.state.calls = w.state.calls.insert id c'
  next : w.state.disk.next ≤ w'.state.disk.next
  rooted : ¬ touched (resolve cwd root)
  same : ∀ q, ¬ touched q → w.state.disk.SameAt w'.state.disk q
  stored : ∀ q, ¬ touched q → w'.stored q = w.stored q
  grows : ∀ p, (w.stored p).isSome = true → (w'.stored p).isSome = true
  changed : ∀ p, touched p → Below (resolve cwd root) p → isTemp p = false →
    bytesAt w'.state.disk p = w'.stored p
  keys : ∀ p, touched p → (w'.stored p).isSome = true → ∃ path, OfKey root path ∧ resolve cwd path = p
  away : ∀ id' other tmp i, id' ≠ id → w.state.calls.lookup id' = some other → other.held = some tmp →
    other.inode = some i → ¬ touched (resolve cwd tmp)
  data : ∀ i, i < w.state.disk.next → c.inode ≠ some i → w'.state.disk.data i = w.state.disk.data i
  seen : ∀ id', id' ≠ id → w'.seen id' = w.seen id'
  held : ∀ tmp, c'.held = some tmp → c.held = some tmp ∨
    ∀ id' other tmp', w.state.calls.lookup id' = some other → other.held = some tmp' →
      resolve cwd tmp' ≠ resolve cwd tmp
  inode : ∀ i, c'.inode = some i → c.inode = some i ∨ w.state.disk.next ≤ i
  fits : Fits cwd root w'.state.disk w'.stored c'
  opens : ∀ i, c' = .finished (.opened (.file i)) → i < w'.state.disk.next ∧
    w'.seen id = some (w'.state.disk.data i) ∧
      ∀ id' other, w.state.calls.lookup id' = some other → other.inode ≠ some i
  informs : ∀ n, c' = .finished (.info n) → ∃ content : Bytes, w'.seen id = some content ∧ n = content.length

theorem of_none {α : Type} {holds : α → Prop} {x : Option α} (isNone : x = none) :
    ∀ a, x = some a → holds a := by
  intro a isSome
  rw [isNone] at isSome
  cases isSome

/-- The call that moved, or another one as it was. -/
theorem lookup_insert_cases {calls : KeyMap Nat Call} {id i : Nat} {c' c : Call}
    (found : (calls.insert id c').lookup i = some c) :
    (i = id ∧ c = c') ∨ (i ≠ id ∧ calls.lookup i = some c) := by
  by_cases here : i = id
  · rw [here, AList.lookup_insert] at found
    exact .inl ⟨here, (Option.some.inj found).symm⟩
  · rw [AList.lookup_insert_ne here] at found
    exact .inr ⟨here, found⟩

theorem Inv.moved {w w' : Watched} {id : Nat} {c c' : Call} {touched : Place → Prop}
    (h : Inv cwd root w) (m : Moves cwd root w w' id c c' touched) : Inv cwd root w' where
  rooted := by
    have isDir := of_decide_eq_true h.rooted
    exact decide_eq_true ((m.same _ m.rooted).1.trans isDir)
  files := by
    intro p below plain
    by_cases changes : touched p
    · exact m.changed p changes below plain
    · rw [bytesAt_same (m.same p changes), m.stored p changes]
      exact h.files p below plain
  keys := by
    intro p some
    by_cases changes : touched p
    · exact m.keys p changes some
    · exact h.keys p (m.stored p changes ▸ some)
  fits := by
    intro i c'' found
    rw [m.calls] at found
    rcases lookup_insert_cases found with ⟨_, rfl⟩ | ⟨other, found⟩
    · exact m.fits
    · exact (h.fits i c'' found).mono m.grows fun tmp j held inode =>
        m.same _ (m.away i c'' tmp j other found held inode)
  apart := by
    intro i i' x x' tmp tmp' found found' held held' same
    rw [m.calls] at found found'
    rcases lookup_insert_cases found with ⟨here, rfl⟩ | ⟨other, old⟩ <;>
      rcases lookup_insert_cases found' with ⟨here', rfl⟩ | ⟨other', old'⟩
    · exact here.trans here'.symm
    · rcases m.held tmp held with before | new
      · exact here.trans (h.apart id i' c x' tmp tmp' m.found old' before held' same)
      · exact absurd same.symm (new i' x' tmp' old' held')
    · rcases m.held tmp' held' with before | new
      · exact (h.apart i id x c tmp tmp' old m.found held before same).trans here'.symm
      · exact absurd same (new i x tmp old held)
    · exact h.apart i i' x x' tmp tmp' old old' held held' same
  handles := by
    intro i j found
    rw [m.calls] at found
    rcases lookup_insert_cases found with ⟨rfl, isReply⟩ | ⟨other, found⟩
    · obtain ⟨old, seen, notWritten⟩ := m.opens j isReply.symm
      refine ⟨old, seen, fun i' x found' => ?_⟩
      rw [m.calls] at found'
      rcases lookup_insert_cases found' with ⟨_, rfl⟩ | ⟨_, found'⟩
      · rw [← isReply]
        exact fun writes => by cases writes
      · exact notWritten i' x found'
    · obtain ⟨old, seen, notWritten⟩ := h.handles i j found
      refine ⟨old.trans_le m.next, ?_, fun i' x found' writes => ?_⟩
      · rw [m.seen i other, seen, m.data j old (notWritten id c m.found)]
      · rw [m.calls] at found'
        rcases lookup_insert_cases found' with ⟨_, rfl⟩ | ⟨_, found'⟩
        · rcases m.inode j writes with old' | new
          · exact notWritten id c m.found old'
          · omega
        · exact notWritten i' x found' writes
  infos := by
    intro i n found
    rw [m.calls] at found
    rcases lookup_insert_cases found with ⟨rfl, isReply⟩ | ⟨other, found⟩
    · exact m.informs n isReply.symm
    · obtain ⟨content, seen, length⟩ := h.infos i n found
      exact ⟨content, (m.seen i other).trans seen, length⟩

/-- The reply of an `Open` or a `Stat` that found something. -/
def Answers : Call → Prop
  | .finished (.opened (.file _)) | .finished (.info _) => True
  | _ => False

/-- A step that completes nothing: under a key that is not a temporary name there is what was there. -/
theorem Inv.wrote {w w' : Watched} {id : Nat} {c c' : Call} {d' : Disk Text UInt8}
    {touched : Place → Prop} (h : Inv cwd root w) (found : w.state.calls.lookup id = some c)
    (state : w'.state = ⟨d', w.state.calls.insert id c'⟩) (stored : w'.stored = w.stored)
    (seen : ∀ id', id' ≠ id → w'.seen id' = w.seen id') (silent : ¬ Answers c')
    (next : w.state.disk.next ≤ d'.next) (rooted : ¬ touched (resolve cwd root))
    (same : ∀ q, ¬ touched q → w.state.disk.SameAt d' q)
    (changed : ∀ p, touched p → isTemp p = false → bytesAt d' p = bytesAt w.state.disk p)
    (away : ∀ id' other tmp i, id' ≠ id → w.state.calls.lookup id' = some other → other.held = some tmp →
      other.inode = some i → ¬ touched (resolve cwd tmp))
    (data : ∀ i, i < w.state.disk.next → c.inode ≠ some i → d'.data i = w.state.disk.data i)
    (held : ∀ tmp, c'.held = some tmp → c.held = some tmp ∨
      ∀ id' other tmp', w.state.calls.lookup id' = some other → other.held = some tmp' →
        resolve cwd tmp' ≠ resolve cwd tmp)
    (inode : ∀ i, c'.inode = some i → c.inode = some i ∨ w.state.disk.next ≤ i)
    (fits : Fits cwd root d' w.stored c') : Inv cwd root w' := by
  have m : Moves cwd root w w' id c c' touched := {
    found := found
    calls := by rw [state]
    next := by rwa [state]
    rooted := rooted
    same := fun q away => by rw [state]; exact same q away
    stored := fun q _ => by rw [stored]
    grows := fun p some => by rwa [stored]
    changed := fun p isTouched below plain => by
      rw [state, stored, changed p isTouched plain]
      exact h.files p below plain
    keys := fun p _ some => h.keys p (stored ▸ some)
    away := away
    data := fun i old other => by rw [state]; exact data i old other
    seen := seen
    held := held
    inode := inode
    fits := by rw [state, stored]; exact fits
    opens := fun i reply => absurd (reply ▸ trivial) silent
    informs := fun n reply => absurd (reply ▸ trivial) silent }
  exact h.moved m

/-- The disk stays as it is, and the call goes on with what it had or gives it up. -/
theorem Inv.quiet {w w' : Watched} {id : Nat} {c c' : Call} (h : Inv cwd root w)
    (found : w.state.calls.lookup id = some c)
    (state : w'.state = ⟨w.state.disk, w.state.calls.insert id c'⟩) (stored : w'.stored = w.stored)
    (seen : ∀ id', id' ≠ id → w'.seen id' = w.seen id') (silent : ¬ Answers c')
    (held : ∀ tmp, c'.held = some tmp → c.held = some tmp)
    (inode : ∀ i, c'.inode = some i → c.inode = some i)
    (fits : Fits cwd root w.state.disk w.stored c') : Inv cwd root w' := by
  refine @Inv.wrote cwd root w w' id c c' w.state.disk (fun _ => False) h found state stored seen silent
    le_rfl not_false (fun q _ => .refl _ q) ?_ ?_ (fun _ _ _ => rfl) ?_ ?_ fits
  · exact fun _ touched => touched.elim
  · exact fun _ _ _ _ _ _ _ _ => not_false
  · exact fun tmp isHeld => .inl (held tmp isHeld)
  · exact fun i writes => .inl (inode i writes)

theorem Inv.gaveUp {w w' : Watched} {id : Nat} {c : Call} {err : StoreError} (h : Inv cwd root w)
    (found : w.state.calls.lookup id = some c)
    (state : w'.state = ⟨w.state.disk, w.state.calls.insert id (.finished (.failed err))⟩)
    (stored : w'.stored = w.stored) (seen : ∀ id', id' ≠ id → w'.seen id' = w.seen id') :
    Inv cwd root w' :=
  h.quiet found state stored seen not_false (of_none rfl) (of_none rfl) trivial

/-- What another `Put` writes is not in the way of a directory. -/
theorem Inv.mkdir {w w' : Watched} {id : Nat} {c c' : Call} {d' : Disk Text UInt8} {p : Place}
    (h : Inv cwd root w) (found : w.state.calls.lookup id = some c)
    (made : w.state.disk.mkdir p = some d') (state : w'.state = ⟨d', w.state.calls.insert id c'⟩)
    (stored : w'.stored = w.stored) (seen : w'.seen = w.seen) (silent : ¬ Answers c')
    (held : c'.held = none) (inode : c'.inode = none) (fits : Fits cwd root d' w.stored c') :
    Inv cwd root w' := by
  have isNone (isFree : w.state.disk.tree.free p = true) : w.state.disk.tree.node p = none :=
    Option.isNone_iff_eq_none.mp (Bool.and_eq_true_iff.mp isFree).1
  have same (q : Place) (other : ¬ (q = p ∧ w.state.disk.tree.node p = none)) :
      w.state.disk.SameAt d' q := by
    rcases Disk.mkdir_cases made with rfl | ⟨isFree, _⟩
    · exact .refl _ q
    · exact Disk.sameAt_mkdir made (.inl fun here => other ⟨here, isNone isFree⟩)
  refine h.wrote found state stored (fun i _ => congrFun seen i) silent ?_ ?_ same ?_
    ?_ ?_ (fun tmp isHeld => ?_) (fun i writes => ?_) fits
  · rcases Disk.mkdir_cases made with rfl | ⟨_, _, _, next⟩
    · exact le_rfl
    · exact next.ge
  · rintro ⟨here, none⟩
    have isDir := of_decide_eq_true h.rooted
    rw [here, none] at isDir
    cases isDir
  · rintro q ⟨rfl, none⟩ _
    have isDir := (Disk.mkdir_dir made).1
    simp only [bytesAt, isDir, none]
  · rintro id' other tmp i _ found' isHeld writes ⟨here, none⟩
    obtain ⟨tmp', isHeld', _, isFile⟩ := (h.fits id' other found').inode writes
    obtain rfl := Option.some.inj (isHeld.symm.trans isHeld')
    rw [here, none] at isFile
    cases isFile
  · intro i _ _
    rcases Disk.mkdir_cases made with rfl | ⟨_, _, data, _⟩
    · rfl
    · rw [data]
  · rw [held] at isHeld
    cases isHeld
  · rw [inode] at writes
    cases writes

/-- A step that touches one temporary file, which no other call has. -/
theorem Inv.atTemp {w w' : Watched} {id : Nat} {c c' : Call} {d' : Disk Text UInt8} {tmp : Text}
    (h : Inv cwd root w) (temp : IsTempFile cwd root tmp) (found : w.state.calls.lookup id = some c)
    (state : w'.state = ⟨d', w.state.calls.insert id c'⟩) (stored : w'.stored = w.stored)
    (seen : w'.seen = w.seen) (silent : ¬ Answers c') (next : w.state.disk.next ≤ d'.next)
    (same : ∀ q, q ≠ resolve cwd tmp → w.state.disk.SameAt d' q)
    (away : ∀ id' other tmp', id' ≠ id → w.state.calls.lookup id' = some other →
      other.held = some tmp' → resolve cwd tmp' ≠ resolve cwd tmp)
    (data : ∀ i, i < w.state.disk.next → c.inode ≠ some i → d'.data i = w.state.disk.data i)
    (held : ∀ tmp', c'.held = some tmp' → c.held = some tmp' ∨
      ∀ id' other tmp'', w.state.calls.lookup id' = some other → other.held = some tmp'' →
        resolve cwd tmp'' ≠ resolve cwd tmp')
    (inode : ∀ i, c'.inode = some i → c.inode = some i ∨ w.state.disk.next ≤ i)
    (fits : Fits cwd root d' w.stored c') : Inv cwd root w' := by
  refine @Inv.wrote cwd root w w' id c c' d' (fun q => q = resolve cwd tmp) h found state stored
    (fun i _ => congrFun seen i) silent next ?_ same ?_ ?_ data held inode fits
  · exact fun here => temp.1.2 here.symm
  · exact fun p here plain => absurd here (temp.ne plain)
  · exact fun id' other tmp' i apart found' isHeld _ => away id' other tmp' apart found' isHeld

/-- The temporary file of a call is no other call's. -/
theorem Inv.away {w : Watched} {id : Nat} {c : Call} {tmp : Text} (h : Inv cwd root w)
    (found : w.state.calls.lookup id = some c) (held : c.held = some tmp) {id' : Nat} {other : Call}
    {tmp' : Text} (apart : id' ≠ id) (found' : w.state.calls.lookup id' = some other)
    (held' : other.held = some tmp') : resolve cwd tmp' ≠ resolve cwd tmp :=
  fun same => apart (h.apart id' id other c tmp' tmp found' found held' held same)

/-- A file that takes its place under a key: a temporary file, or one from outside the store. -/
theorem Inv.completes {w w' : Watched} {id : Nat} {c c' : Call} {d' : Disk Text UInt8} {path : Text}
    {src : Place} {i : Nat} (h : Inv cwd root w) (plain : Plain cwd root path)
    (found : w.state.calls.lookup id = some c) (isFile : w.state.disk.tree.node src = some (.file i))
    (source : Below (resolve cwd root) src → isTemp src = true)
    (renamed : w.state.disk.rename src (resolve cwd path) = some d')
    (state : w'.state = ⟨d', w.state.calls.insert id c'⟩)
    (stored : w'.stored = Function.update w.stored (resolve cwd path) (some (w.state.disk.data i)))
    (seen : w'.seen = w.seen) (silent : ¬ Answers c')
    (away : ∀ id' other tmp j, id' ≠ id → w.state.calls.lookup id' = some other →
      other.held = some tmp → other.inode = some j → resolve cwd tmp ≠ src)
    (held : ∀ tmp, c'.held = some tmp → c.held = some tmp) (inode : c'.inode = none)
    (fits : Fits cwd root d' w'.stored c') : Inv cwd root w' := by
  have below := plain.below
  have apart : src ≠ resolve cwd path := by
    rintro rfl
    exact absurd ((source below).symm.trans plain.2) (by decide)
  obtain ⟨data, next, tree⟩ := Disk.rename_file renamed isFile apart
  have arrived : d'.tree.node (resolve cwd path) = some (.file i) := by
    rw [DirTree.node_of_ne (below_ne_nil below), tree, AList.lookup_insert]
  have notRoot : src ≠ resolve cwd root := by
    rintro rfl
    have isDir := of_decide_eq_true h.rooted
    cases isFile.symm.trans isDir
  have m : Moves cwd root w w' id c c' fun q => q = src ∨ q = resolve cwd path := {
    found := found
    calls := by rw [state]
    next := by rw [state]; exact next.ge
    rooted := fun here => here.elim (fun e => notRoot e.symm) fun e => below.2 e.symm
    same := fun q other => by
      rw [state]
      obtain ⟨notSrc, notPath⟩ := not_or.mp other
      exact .of_lookup (by rw [tree, AList.lookup_insert_ne notPath, AList.lookup_erase_ne notSrc]) data
    stored := fun q other => by rw [stored, Function.update_of_ne (not_or.mp other).2]
    grows := fun p some => by
      rw [stored]
      by_cases here : p = resolve cwd path
      · rw [here, Function.update_self]
        rfl
      · rwa [Function.update_of_ne here]
    changed := fun p touched inStore notTemp => by
      rw [state, stored]
      rcases touched with rfl | rfl
      · exact absurd ((source inStore).symm.trans notTemp) (by decide)
      · rw [Function.update_self, bytesAt, arrived, data]
    keys := fun p touched some => by
      rcases touched with rfl | rfl
      · rw [stored, Function.update_of_ne apart] at some
        exact h.keys _ some
      · exact ⟨path, plain.1, rfl⟩
    away := fun id' other tmp j apart' found' isHeld writes => by
      obtain ⟨tmp', isHeld', temp, _⟩ := (h.fits id' other found').inode writes
      obtain rfl := Option.some.inj (isHeld.symm.trans isHeld')
      exact not_or.mpr ⟨away id' other tmp j apart' found' isHeld writes, (temp.ne plain.2).symm⟩
    data := fun j _ _ => by rw [state, data]
    seen := fun j _ => by rw [seen]
    held := fun tmp isHeld => .inl (held tmp isHeld)
    inode := fun j writes => by rw [inode] at writes; cases writes
    fits := by rw [state]; exact fits
    opens := fun j reply => absurd (reply ▸ trivial) silent
    informs := fun n reply => absurd (reply ▸ trivial) silent }
  exact h.moved m

/-- A write reaches the temporary file of its own call. -/
theorem Inv.appends {w w' : Watched} {id : Nat} {c c' : Call} {tmp : Text} {inode : Nat}
    {bytes : List UInt8} (h : Inv cwd root w) (found : w.state.calls.lookup id = some c)
    (held : c.held = some tmp) (writes : c.inode = some inode) (temp : IsTempFile cwd root tmp)
    (isFile : w.state.disk.tree.node (resolve cwd tmp) = some (.file inode))
    (state : w'.state = ⟨w.state.disk.append inode bytes, w.state.calls.insert id c'⟩)
    (stored : w'.stored = w.stored) (seen : w'.seen = w.seen) (silent : ¬ Answers c')
    (held' : ∀ tmp', c'.held = some tmp' → c.held = some tmp')
    (inode' : ∀ i, c'.inode = some i → c.inode = some i)
    (fits : Fits cwd root (w.state.disk.append inode bytes) w.stored c') : Inv cwd root w' := by
  refine h.atTemp temp found state stored seen silent le_rfl (fun q other => ?_)
    (fun id' other tmp' apart found' isHeld => h.away found held apart found' isHeld) (fun i _ other => ?_)
    (fun tmp' isHeld => .inl (held' tmp' isHeld)) (fun i isWritten => .inl (inode' i isWritten)) fits
  · refine Disk.sameAt_append (fun here => other ?_) bytes
    exact w.state.disk.linked.2 _ _ inode (DirTree.lookup_of_file here) (DirTree.lookup_of_file isFile)
  · have apart : i ≠ inode := by
      rintro rfl
      exact other writes
    exact Function.update_of_ne apart _ _

/-- The drawn name is none that another call has. -/
theorem new_name {w : Watched} {id drawn : Nat} {path : Text} {body : List Bytes}
    (found : w.state.calls.lookup id = some (.putting path body .temp))
    (ok : allowed cwd root w.state (.advance id (.works drawn)) = true) {id' : Nat} {other : Call}
    {tmp : Text} (found' : w.state.calls.lookup id' = some other) (held : other.held = some tmp) :
    resolve cwd tmp ≠ resolve cwd (joinPath (dirName path) (tempName drawn)) := by
  simp only [allowed, found] at ok
  have apart := List.all_eq_true.mp ok _ (AList.mem_lookup_iff.mp found')
  simpa [held] using apart

theorem inv_putting {w : Watched} {id : Nat} {path : Text} {body : List Bytes} {phase : PutPhase}
    {outcome : Outcome} {c' : Call} {d' : Disk Text UInt8} (h : Inv cwd root w)
    (found : w.state.calls.lookup id = some (.putting path body phase))
    (ok : allowed cwd root w.state (.advance id outcome) = true)
    (taken : putStep cwd path body w.state.disk phase outcome = (c', d')) :
    Inv cwd root (w.after cwd id (.putting path body phase) outcome
      ⟨d', w.state.calls.insert id c'⟩) := by
  have fits := h.fits id _ found
  obtain ⟨plain, fits⟩ := fits
  unfold putStep at taken
  split at taken
  next p left _ =>
    split at taken
    next made =>
      cases taken
      exact h.mkdir found made rfl rfl rfl not_false rfl rfl ⟨plain, trivial⟩
    · cases taken
      exact h.gaveUp found rfl rfl fun _ _ => rfl
  · cases taken
    exact h.quiet found rfl rfl (fun _ _ => rfl) not_false (of_none rfl) (of_none rfl) ⟨plain, trivial⟩
  next drawn =>
    have temp : IsTempFile cwd root (joinPath (dirName path) (tempName drawn)) := OfKey.isTempFile plain.1 drawn
    dsimp only at taken
    split at taken
    next d created =>
      cases taken
      obtain ⟨_, tree, data, next⟩ := Disk.create_cases created
      refine h.atTemp temp found rfl rfl rfl not_false (by omega)
        (fun q other => Disk.sameAt_create created other)
        (fun id' other tmp' _ found' held => new_name found ok found' held) (fun i old _ => ?_)
        (fun tmp' held => ?_) (fun i writes => ?_) ⟨plain, temp, ?_, ?_⟩
      · rw [data, Function.update_of_ne (by omega)]
      · cases held
        exact .inr fun id' other tmp'' found' held => new_name found ok found' held
      · cases writes
        exact .inr le_rfl
      · rw [DirTree.node_of_ne (below_ne_nil temp.1), tree, AList.lookup_insert]
      · rw [data, Function.update_self]
        rfl
    · split at taken
      · cases taken
        exact h.quiet found rfl rfl (fun _ _ => rfl) not_false (of_none rfl) (of_none rfl) ⟨plain, trivial⟩
      · cases taken
        exact h.gaveUp found rfl rfl fun _ _ => rfl
  next tmp inode chunk left _ =>
    cases taken
    obtain ⟨temp, isFile, copied⟩ := fits
    refine h.appends found rfl rfl temp isFile rfl rfl rfl not_false (fun _ held => held)
      (fun _ writes => writes) ⟨plain, temp, isFile, ?_⟩
    rw [Disk.append_data, List.append_assoc, ← List.flatten_cons]
    exact copied
  next tmp inode chunk left written =>
    cases taken
    obtain ⟨temp, isFile, copied⟩ := fits
    exact h.appends found rfl rfl temp isFile rfl rfl rfl not_false (fun _ held => held) (of_none rfl) temp
  · cases taken
    obtain ⟨temp, isFile, copied⟩ := fits
    exact h.quiet found rfl rfl (fun _ _ => rfl) not_false (fun _ held => held) (fun _ writes => writes)
      ⟨plain, temp, isFile, (List.append_nil _).symm.trans copied⟩
  · cases taken
    exact h.quiet found rfl rfl (fun _ _ => rfl) not_false (fun _ held => held) (of_none rfl) fits.1
  · cases taken
    exact h.quiet found rfl rfl (fun _ _ => rfl) not_false (fun _ held => held) (fun _ writes => writes)
      ⟨plain, fits⟩
  · cases taken
    exact h.quiet found rfl rfl (fun _ _ => rfl) not_false (fun _ held => held) (of_none rfl) fits.1
  next tmp inode _ =>
    obtain ⟨temp, isFile, copied⟩ := fits
    split at taken
    next renamed =>
      cases taken
      refine h.completes plain found isFile (fun _ => temp.2) renamed rfl ?_ rfl not_false ?_
        (fun _ held => held) rfl temp
      · simp only [Watched.after, completion, renamed, Option.map_some, copied]
      · exact fun id' other tmp' j apart found' held _ => h.away found rfl apart found' held
    next refused =>
      cases taken
      refine h.quiet found rfl ?_ (fun _ _ => rfl) not_false (fun _ held => held) (of_none rfl) temp
      simp only [Watched.after, completion, refused, Option.map_none]
  · cases taken
    exact h.quiet found rfl rfl (fun _ _ => rfl) not_false (fun _ held => held) (of_none rfl) fits.1
  · cases taken
    exact h.gaveUp found rfl rfl fun _ _ => rfl
  · cases taken
    exact h.gaveUp found rfl rfl fun _ _ => rfl
  · cases taken
    refine h.quiet found rfl ?_ (fun _ _ => rfl) not_false (fun _ held => held) (fun _ writes => writes)
      ⟨plain, fits⟩
    cases phase <;> rfl

theorem relPath_append (top names : Place) : relPath top (top ++ names) = joinSlash names := by
  have shared : ((top.zip (top ++ names)).takeWhile fun pair => pair.1 = pair.2).length = top.length := by
    induction top with
    | nil => rfl
    | cons c rest ih => simpa using ih
  simp only [relPath, shared, Nat.sub_self, List.replicate_zero, List.nil_append, List.drop_left]

/-- A place in the store that a key leads to is reported by a key that leads there. -/
theorem pathForKey_relPath {path : Text} (h : OfKey root path) :
    pathForKey root (relPath (resolve cwd root) (resolve cwd path)) = some path := by
  obtain ⟨key, isPath⟩ := h
  obtain ⟨below, isLocal, filled, segments, _, place⟩ := pathForKey_place isPath
  have text : path = join [root, joinSlash below] := by
    rw [pathForKey_eq, isLocal] at isPath
    exact (Option.some.inj isPath).symm
  have back : Local.pathForKey (joinSlash below) = some below := by
    obtain ⟨_, _, _, dots⟩ := (pathForKey_iff key below).mp isLocal
    refine (pathForKey_iff _ _).mpr ⟨head_joinSlash filled segments, ?_, filled, dots⟩
    rw [components_joinSlash below filled fun c mem => (segments c mem).2]
    exact spells_self below fun c mem => (segments c mem).1
  rw [place cwd, relPath_append, pathForKey_eq, back, Option.map_some, text]

theorem Inv.completedKey {w : Watched} (h : Inv cwd root w) {p : Place}
    (done : Completed cwd root w.stored p) :
    CompletedKey cwd root w.stored (relPath (resolve cwd root) p) := by
  obtain ⟨path, ofKey, rfl⟩ := h.keys p done.2
  exact ⟨path, pathForKey_relPath ofKey, done.2⟩

/-- A file in the store that is not a temporary file was completed. -/
theorem Inv.completed {w : Watched} (h : Inv cwd root w) {p : Place} {i : Nat}
    (inStore : resolve cwd root <+: p) (isFile : w.state.disk.tree.node p = some (.file i))
    (plain : isTemp p = false) : Completed cwd root w.stored p := by
  have below : Below (resolve cwd root) p := by
    refine ⟨inStore, ?_⟩
    rintro rfl
    have isDir := of_decide_eq_true h.rooted
    cases isFile.symm.trans isDir
  refine ⟨below, ?_⟩
  rw [← h.files p below plain, bytesAt, isFile]
  rfl

theorem mem_readDir {t : DirTree Text} {p : Place} {e : Place × Bool} (mem : e ∈ readDir t p) :
    p <+: e.1 ∧ e.2 = t.isDir e.1 ∧ (t.node e.1).isSome = true := by
  obtain ⟨q, isChild, rfl⟩ := List.mem_map.mp mem
  obtain ⟨stored, parent⟩ := List.mem_filter.mp ((List.mem_insertionSort _).mp isChild)
  obtain ⟨above, filled⟩ := of_decide_eq_true parent
  refine ⟨above ▸ List.dropLast_prefix q, rfl, ?_⟩
  rw [DirTree.node_of_ne filled, AList.lookup_isSome]
  exact AList.mem_keys.mpr stored

/-- Replies of a walk name what was completed. -/
theorem Inv.walked {w : Watched} (h : Inv cwd root w) {found : List (Place × Nat)}
    (done : ∀ f ∈ found, Completed cwd root w.stored f.1) (sizes : Bool) :
    Fits cwd root w.state.disk w.stored (.finished (walked cwd root sizes found)) ∧
      ¬ Answers (.finished (walked cwd root sizes found)) := by
  cases sizes with
  | false =>
    refine ⟨fun key mem => ?_, not_false⟩
    obtain ⟨f, isFound, rfl⟩ := List.mem_map.mp mem
    exact h.completedKey (done f isFound)
  | true =>
    refine ⟨fun file mem => ?_, not_false⟩
    obtain ⟨f, isFound, rfl⟩ := List.mem_map.mp mem
    exact h.completedKey (done f isFound)

theorem walkEnds_fits {w : Watched} (h : Inv cwd root w) {found : List (Place × Nat)}
    (done : ∀ f ∈ found, Completed cwd root w.stored f.1) (sizes : Bool) (err : StoreError) :
    Fits cwd root w.state.disk w.stored (.finished (walkEnds cwd root sizes err found)) ∧
      ¬ Answers (.finished (walkEnds cwd root sizes err found)) := by
  cases err with
  | failed => exact ⟨trivial, not_false⟩
  | notFound =>
    refine h.walked (fun f mem => ?_) sizes
    cases sizes with
    | false => cases mem
    | true => exact done f mem

/-- The next entry of a walk that meets no temporary file. -/
theorem walkStep_fits {w : Watched} {id : Nat} {sizes : Bool} {left : List (Place × Bool)}
    {found : List (Place × Nat)} {outcome : Outcome} (h : Inv cwd root w)
    (here : w.state.calls.lookup id = some (.walking sizes left found))
    (ok : allowed cwd root w.state (.advance id outcome) = true) :
    Fits cwd root w.state.disk w.stored (walkStep cwd root sizes w.state.disk left found outcome) ∧
      ¬ Answers (walkStep cwd root sizes w.state.disk left found outcome) := by
  obtain ⟨entries, done⟩ := h.fits id _ here
  have add {p : Place} {rest : List (Place × Bool)} (size : Nat) (isLeft : left = (p, false) :: rest) :
      Fits cwd root w.state.disk w.stored (.walking sizes rest (found ++ [(p, size)])) := by
    subst isLeft
    refine ⟨fun e mem => entries e (List.mem_cons_of_mem _ mem), fun f mem => ?_⟩
    rcases List.mem_append.mp mem with old | new
    · exact done f old
    · rw [List.mem_singleton.mp new]
      exact (entries _ List.mem_cons_self).2 rfl
  unfold walkStep
  split
  · exact h.walked done sizes
  · split
    · split
      · exact ⟨add _ rfl, not_false⟩
      · exact ⟨add _ rfl, not_false⟩
      · exact ⟨⟨fun e mem => entries e (List.mem_cons_of_mem _ mem), done⟩, not_false⟩
    · exact ⟨add _ rfl, not_false⟩
  next p rest found drawn =>
    split
    · refine ⟨⟨fun e mem => ?_, done⟩, not_false⟩
      rcases List.mem_append.mp mem with child | old
      · obtain ⟨above, isDir, some⟩ := mem_readDir child
        have inStore := ((entries _ List.mem_cons_self).1).trans above
        refine ⟨inStore, fun isFile => ?_⟩
        have plain : isTemp e.1 = false := by
          simp only [allowed, here] at ok
          simpa [isFile] using List.all_eq_true.mp ok e child
        cases node : w.state.disk.tree.node e.1 with
        | none => simp [node] at some
        | some n =>
          cases n with
          | dir => simp [isFile, DirTree.isDir, node] at isDir
          | file i => exact h.completed inStore node plain
      · exact entries e (List.mem_cons_of_mem _ old)
    · exact walkEnds_fits h done sizes _
  · exact ⟨trivial, not_false⟩

theorem walkStep_gives_up {sizes : Bool} {d : Disk Text UInt8} {left : List (Place × Bool)}
    {found : List (Place × Nat)} {outcome : Outcome} :
    (walkStep cwd root sizes d left found outcome).held = none ∧
      (walkStep cwd root sizes d left found outcome).inode = none := by
  unfold walkStep
  split
  · exact ⟨rfl, rfl⟩
  · split
    · split <;> exact ⟨rfl, rfl⟩
    · exact ⟨rfl, rfl⟩
  · split <;> exact ⟨rfl, rfl⟩
  · exact ⟨rfl, rfl⟩

/-- What was found under a key is whole, and no `Put` is writing it. -/
theorem Inv.replied {w w' : Watched} {id : Nat} {c : Call} {reply : Reply} {p : Place} {i : Nat}
    (h : Inv cwd root w) (found : w.state.calls.lookup id = some c) (below : Below (resolve cwd root) p)
    (plain : isTemp p = false) (isFile : w.state.disk.tree.node p = some (.file i))
    (state : w'.state = ⟨w.state.disk, w.state.calls.insert id (.finished reply)⟩)
    (stored : w'.stored = w.stored) (seen : w'.seen = Function.update w.seen id (w.stored p))
    (answer : reply = .opened (.file i) ∨ reply = .info (w.state.disk.data i).length) :
    Inv cwd root w' := by
  have whole : w.stored p = some (w.state.disk.data i) := by
    rw [← h.files p below plain, bytesAt, isFile]
  have isSeen : w'.seen id = some (w.state.disk.data i) := by rw [seen, Function.update_self, whole]
  have m : Moves cwd root w w' id c (.finished reply) fun _ => False := {
    found := found
    calls := by rw [state]
    next := by rw [state]
    rooted := not_false
    same := fun q _ => by rw [state]; exact .refl _ q
    stored := fun q _ => by rw [stored]
    grows := fun p some => by rwa [stored]
    changed := fun _ touched => touched.elim
    keys := fun _ touched => touched.elim
    away := fun _ _ _ _ _ _ _ _ => not_false
    data := fun j _ _ => by rw [state]
    seen := fun j other => by rw [seen, Function.update_of_ne other]
    held := of_none rfl
    inode := of_none rfl
    fits := by rcases answer with rfl | rfl <;> trivial
    opens := fun j isReply => by
      rcases answer with rfl | rfl
      · cases isReply
        rw [state]
        refine ⟨w.state.disk.linked.1 p i (DirTree.lookup_of_file isFile), isSeen, ?_⟩
        intro id' other found' writes
        obtain ⟨tmp, _, temp, isFile'⟩ := (h.fits id' other found').inode writes
        exact temp.ne plain (w.state.disk.linked.2 _ _ i (DirTree.lookup_of_file isFile)
          (DirTree.lookup_of_file isFile'))
      · cases isReply
    informs := fun n isReply => by
      rcases answer with rfl | rfl
      · cases isReply
      · cases isReply
        exact ⟨_, isSeen, rfl⟩ }
  exact h.moved m

theorem after_seen {w : Watched} {id : Nat} {c : Call} {outcome : Outcome} {s : State} (id' : Nat)
    (other : id' ≠ id) : (w.after cwd id c outcome s).seen id' = w.seen id' := by
  unfold Watched.after
  cases lookedUp cwd c outcome with
  | none => rfl
  | some p => exact Function.update_of_ne other _ _

theorem cleaned_fits (d : Disk Text UInt8) (stored : Place → Option Bytes) (renamed : Bool) :
    Fits cwd root d stored (.finished (if renamed then .done else .failed .failed)) ∧
      ¬ Answers (.finished (if renamed then .done else .failed .failed)) := by
  cases renamed <;> exact ⟨trivial, not_false⟩

section Advancing
variable {w : Watched} {id : Nat} {c c' : Call} {outcome : Outcome} {d' : Disk Text UInt8}

theorem inv_cleaning {tmp : Text} {renamed : Bool} (h : Inv cwd root w)
    (found : w.state.calls.lookup id = some (.cleaning tmp renamed))
    (taken : advance cwd root w.state.disk (.cleaning tmp renamed) outcome = some (c', d')) :
    Inv cwd root
      (w.after cwd id (.cleaning tmp renamed) outcome ⟨d', w.state.calls.insert id c'⟩) := by
  have fits : IsTempFile cwd root tmp := h.fits id _ found
  cases outcome with
  | works drawn =>
    cases taken
    cases removed : w.state.disk.remove (resolve cwd tmp) with
    | none =>
      obtain ⟨done, silent⟩ := cleaned_fits w.state.disk w.stored renamed
      exact h.quiet found rfl rfl after_seen silent (of_none rfl) (of_none rfl) done
    | some d =>
      obtain ⟨done, silent⟩ := cleaned_fits d w.stored renamed
      obtain ⟨_, data, next⟩ := Disk.remove_cases removed
      exact h.atTemp fits found rfl rfl rfl silent next.ge
        (fun q other => Disk.sameAt_remove removed other)
        (fun id' other tmp' apart found' held => h.away found rfl apart found' held)
        (fun i _ _ => congrFun data i) (of_none rfl) (of_none rfl) done
  | fails written =>
    cases taken
    obtain ⟨done, silent⟩ := cleaned_fits w.state.disk w.stored renamed
    exact h.quiet found rfl rfl after_seen silent (of_none rfl) (of_none rfl) done
  | sweeps gone =>
    cases taken
    obtain ⟨done, silent⟩ := cleaned_fits w.state.disk w.stored renamed
    exact h.quiet found rfl rfl after_seen silent (of_none rfl) (of_none rfl) done

/-- The rename of a `MoveIn`, whose source is a file outside the store. -/
theorem inv_moved {src path : Text} {drawn : Nat} (h : Inv cwd root w)
    (found : w.state.calls.lookup id = some (.movingIn src path []))
    (ok : allowed cwd root w.state (.advance id (.works drawn)) = true)
    (taken : advance cwd root w.state.disk (.movingIn src path []) (.works drawn) = some (c', d')) :
    Inv cwd root
      (w.after cwd id (.movingIn src path []) (.works drawn) ⟨d', w.state.calls.insert id c'⟩) := by
  have plain : Plain cwd root path := h.fits id _ found
  simp only [allowed, found, decide_eq_true_eq] at ok
  unfold advance at taken
  dsimp only at taken
  split at taken
  next renamed =>
    cases taken
    obtain ⟨n, here⟩ := Disk.rename_source renamed
    cases n with
    | dir => exact absurd here ok.1
    | file i =>
      refine h.completes plain found here (fun below => absurd below ok.2) renamed rfl ?_ rfl
        not_false ?_ (of_none rfl) rfl trivial
      · simp only [Watched.after, completion, renamed, bytesAt, here, Option.bind_some,
          Option.map_some]
      · intro id' other tmp j _ found' held writes same
        obtain ⟨tmp', held', temp, _⟩ := (h.fits id' other found').inode writes
        obtain rfl := Option.some.inj (held.symm.trans held')
        exact ok.2 (same ▸ temp.1)
  next refused =>
    cases taken
    refine h.gaveUp found rfl ?_ after_seen
    simp only [Watched.after, completion, refused, Option.bind_none]

theorem inv_movingIn {src path : Text} {left : List Place} (h : Inv cwd root w)
    (found : w.state.calls.lookup id = some (.movingIn src path left))
    (ok : allowed cwd root w.state (.advance id outcome) = true)
    (taken : advance cwd root w.state.disk (.movingIn src path left) outcome = some (c', d')) :
    Inv cwd root
      (w.after cwd id (.movingIn src path left) outcome ⟨d', w.state.calls.insert id c'⟩) := by
  cases outcome with
  | works drawn =>
    cases left with
    | nil => exact inv_moved h found ok taken
    | cons p left =>
      unfold advance at taken
      dsimp only at taken
      split at taken
      next made =>
        cases taken
        exact h.mkdir found made rfl rfl rfl not_false rfl rfl (h.fits id _ found)
      · cases taken
        exact h.gaveUp found rfl rfl after_seen
  | fails written =>
    cases left with
    | nil =>
      cases taken
      exact h.gaveUp found rfl rfl after_seen
    | cons p left =>
      cases taken
      exact h.gaveUp found rfl rfl after_seen
  | sweeps gone =>
    cases left with
    | nil =>
      cases taken
      exact h.gaveUp found rfl rfl after_seen
    | cons p left =>
      cases taken
      exact h.gaveUp found rfl rfl after_seen

theorem inv_opening {path : Text} (h : Inv cwd root w)
    (found : w.state.calls.lookup id = some (.opening path))
    (taken : advance cwd root w.state.disk (.opening path) outcome = some (c', d')) :
    Inv cwd root (w.after cwd id (.opening path) outcome ⟨d', w.state.calls.insert id c'⟩) := by
  have plain : Plain cwd root path := h.fits id _ found
  cases outcome with
  | works drawn =>
    unfold advance at taken
    dsimp only at taken
    split at taken
    next n here =>
      cases taken
      cases n with
      | dir => exact h.quiet found rfl rfl after_seen not_false (of_none rfl) (of_none rfl) trivial
      | file i => exact h.replied found plain.below plain.2 here rfl rfl rfl (.inl rfl)
    · cases taken
      exact h.gaveUp found rfl rfl after_seen
  | fails written =>
    cases taken
    exact h.gaveUp found rfl rfl after_seen
  | sweeps gone =>
    cases taken
    exact h.gaveUp found rfl rfl after_seen

theorem inv_statting {path : Text} (h : Inv cwd root w)
    (found : w.state.calls.lookup id = some (.statting path))
    (taken : advance cwd root w.state.disk (.statting path) outcome = some (c', d')) :
    Inv cwd root (w.after cwd id (.statting path) outcome ⟨d', w.state.calls.insert id c'⟩) := by
  have plain : Plain cwd root path := h.fits id _ found
  cases outcome with
  | works drawn =>
    unfold advance at taken
    dsimp only at taken
    split at taken
    next i here =>
      cases taken
      exact h.replied found plain.below plain.2 here rfl rfl rfl (.inr rfl)
    · cases taken
      exact h.gaveUp found rfl rfl after_seen
    · cases taken
      exact h.gaveUp found rfl rfl after_seen
  | fails written =>
    cases taken
    exact h.gaveUp found rfl rfl after_seen
  | sweeps gone =>
    cases taken
    exact h.gaveUp found rfl rfl after_seen

/-- A walk finds its base: a directory in the store, a file that was completed, or nothing. -/
theorem inv_entering {sizes : Bool} {base : Place} (h : Inv cwd root w)
    (found : w.state.calls.lookup id = some (.entering sizes base))
    (ok : allowed cwd root w.state (.advance id outcome) = true)
    (taken : advance cwd root w.state.disk (.entering sizes base) outcome = some (c', d')) :
    Inv cwd root
      (w.after cwd id (.entering sizes base) outcome ⟨d', w.state.calls.insert id c'⟩) := by
  have inStore : resolve cwd root <+: base := h.fits id _ found
  cases outcome with
  | works drawn =>
    simp only [allowed, found] at ok
    unfold advance at taken
    dsimp only at taken
    split at taken
    next here =>
      cases taken
      refine h.quiet found rfl rfl after_seen not_false (of_none rfl) (of_none rfl)
        ⟨fun e mem => ?_, fun f mem => absurd mem List.not_mem_nil⟩
      rw [List.mem_singleton.mp mem]
      exact ⟨inStore, fun isFile => by cases isFile⟩
    next i here =>
      cases taken
      have plain : isTemp base = false := by simpa [DirTree.isDir, here] using ok
      refine h.quiet found rfl rfl after_seen not_false (of_none rfl) (of_none rfl)
        ⟨fun e mem => absurd mem List.not_mem_nil, fun f mem => ?_⟩
      rw [List.mem_singleton.mp mem]
      exact h.completed inStore here plain
    · cases taken
      have nothing : ∀ f ∈ ([] : List (Place × Nat)), Completed cwd root w.stored f.1 :=
        fun f mem => absurd mem List.not_mem_nil
      obtain ⟨done, silent⟩ := walkEnds_fits h nothing sizes (missing w.state.disk.tree base)
      exact h.quiet found rfl rfl after_seen silent (of_none rfl) (of_none rfl) done
  | fails written =>
    cases taken
    exact h.gaveUp found rfl rfl after_seen
  | sweeps gone =>
    cases taken
    exact h.gaveUp found rfl rfl after_seen

theorem inv_advance (h : Inv cwd root w) (found : w.state.calls.lookup id = some c)
    (ok : allowed cwd root w.state (.advance id outcome) = true)
    (taken : advance cwd root w.state.disk c outcome = some (c', d')) :
    Inv cwd root (w.after cwd id c outcome ⟨d', w.state.calls.insert id c'⟩) := by
  cases c with
  | putting path body phase => exact inv_putting h found ok (Option.some.inj taken)
  | cleaning tmp renamed => exact inv_cleaning h found taken
  | movingIn src path left => exact inv_movingIn h found ok taken
  | opening path => exact inv_opening h found taken
  | statting path => exact inv_statting h found taken
  | deleting path => exact (h.fits id _ found).elim
  | sweeping path => exact (h.fits id _ found).elim
  | entering sizes base => exact inv_entering h found ok taken
  | walking sizes left reported =>
    cases taken
    obtain ⟨done, silent⟩ := walkStep_fits h found ok
    exact h.quiet found rfl rfl after_seen silent (of_none walkStep_gives_up.1)
      (of_none walkStep_gives_up.2) done
  | finished reply => cases taken

end Advancing

/-- A call that has done nothing yet. -/
def Fresh (cwd : Place) (root : Text) (d : Disk Text UInt8) (stored : Place → Option Bytes) (c : Call) :
    Prop :=
  Fits cwd root d stored c ∧ ¬ Answers c ∧ c.held = none ∧ c.inode = none

theorem begin_fresh {d : Disk Text UInt8} {stored : Place → Option Bytes} {s : State} {id : Nat}
    {req : Request} (ok : allowed cwd root s (.start id req) = true) :
    Fresh cwd root d stored (begin cwd root req) := by
  have refused : Fresh cwd root d stored (.finished (.failed .failed)) := ⟨trivial, not_false, rfl, rfl⟩
  have plain {key path : Text} (isPath : pathForKey root key = some path)
      (named : (pathForKey root key).all (fun path => !isTemp (resolve cwd path)) = true) :
      Plain cwd root path := by
    rw [isPath] at named
    exact ⟨⟨key, isPath⟩, by simpa using named⟩
  cases req with
  | put key body => exact onPath_cases root refused fun path isPath =>
      ⟨⟨plain isPath ok, trivial⟩, not_false, rfl, rfl⟩
  | moveIn key src => exact onPath_cases root refused fun path isPath =>
      ⟨plain isPath ok, not_false, rfl, rfl⟩
  | openKey key => exact onPath_cases root refused fun path isPath =>
      ⟨plain isPath ok, not_false, rfl, rfl⟩
  | stat key => exact onPath_cases root refused fun path isPath =>
      ⟨plain isPath ok, not_false, rfl, rfl⟩
  | delete key => cases ok
  | removeTree treePrefix => cases ok
  | list listPrefix =>
    have inStore : resolve cwd root <+: walkBase cwd root listPrefix := of_decide_eq_true ok
    exact ⟨inStore, not_false, rfl, rfl⟩
  | listSizes listPrefix =>
    have inStore : resolve cwd root <+: walkBase cwd root listPrefix := of_decide_eq_true ok
    exact ⟨inStore, not_false, rfl, rfl⟩

/-- Calls that are new or as they were, and some that are gone. -/
theorem Inv.recalled {w : Watched} {calls : KeyMap Nat Call} (h : Inv cwd root w)
    (known : ∀ id c, calls.lookup id = some c → w.state.calls.lookup id = some c ∨
      Fresh cwd root w.state.disk w.stored c) :
    Inv cwd root { w with state := { w.state with calls := calls } } where
  rooted := h.rooted
  files := h.files
  keys := h.keys
  fits := fun id c found => (known id c found).elim (h.fits id c) And.left
  apart := by
    intro id id' c c' tmp tmp' found found' held held'
    rcases known id c found with old | ⟨_, _, none, _⟩
    · rcases known id' c' found' with old' | ⟨_, _, none, _⟩
      · exact h.apart id id' c c' tmp tmp' old old' held held'
      · rw [none] at held'
        cases held'
    · rw [none] at held
      cases held
  handles := by
    intro id i found
    rcases known id _ found with old | ⟨_, silent, _⟩
    · obtain ⟨older, seen, notWritten⟩ := h.handles id i old
      refine ⟨older, seen, fun id' c found' writes => ?_⟩
      rcases known id' c found' with old' | ⟨_, _, _, none⟩
      · exact notWritten id' c old' writes
      · rw [none] at writes
        cases writes
    · exact (silent trivial).elim
  infos := by
    intro id n found
    rcases known id _ found with old | ⟨_, silent, _⟩
    · exact h.infos id n old
    · exact (silent trivial).elim

theorem inv_step {w w' : Watched} {a : Action} (h : Inv cwd root w)
    (ok : allowed cwd root w.state a = true) (taken : watch cwd root w a = some w') :
    Inv cwd root w' := by
  obtain ⟨s, moved, rfl⟩ := Option.map_eq_some_iff.mp taken
  cases a with
  | start id req =>
    simp only [step] at moved
    split at moved
    · cases moved
      refine h.recalled fun i c found => ?_
      rcases lookup_insert_cases found with ⟨_, rfl⟩ | ⟨_, old⟩
      · exact .inr (begin_fresh ok)
      · exact .inl old
    · cases moved
  | advance id outcome =>
    obtain ⟨c, found, moved⟩ := Option.bind_eq_some_iff.mp moved
    obtain ⟨⟨c', d'⟩, advanced, rfl⟩ := Option.map_eq_some_iff.mp moved
    simp only [found]
    exact inv_advance h found ok advanced
  | leave id =>
    obtain ⟨c, found, moved⟩ := Option.bind_eq_some_iff.mp moved
    cases c with
    | finished reply =>
      cases moved
      refine h.recalled fun i c found => ?_
      by_cases gone : i = id
      · rw [gone, AList.lookup_erase] at found
        cases found
      · rw [AList.lookup_erase_ne gone] at found
        exact .inl found
    | _ => cases moved
  | crash =>
    cases moved
    exact h.recalled fun i => of_none rfl

theorem inv_opened {d : Disk Text UInt8} (isDir : d.tree.node (resolve cwd root) = some .dir)
    (empty : ∀ p, Below (resolve cwd root) p → d.tree.node p = none) :
    Inv cwd root (opened d) where
  rooted := decide_eq_true isDir
  files := fun p below _ => by simp only [bytesAt, opened, idle, empty p below]
  keys := fun p some => by simp [opened] at some
  fits := fun id => of_none rfl
  apart := fun id id' c c' tmp tmp' found => by cases found
  handles := fun id i found => by cases found
  infos := fun id n found => by cases found

end Invariant

/-- In every run from an empty store whose steps are all allowed, with failures and crashes at any step: the
disk holds under a key what the last completed `Put` or `MoveIn` gave it, all of it; a reader has, for as long
as its file is open, what the key it opened held at that moment, and a `Stat` its length; and every key that
`List` or `ListSizes` reports is one that was given something. -/
theorem puts_atomic (cwd : Place) (root : Text) (before made : Disk Text UInt8)
    (created : newLocal cwd root before = some made)
    (empty : ∀ p, Below (resolve cwd root) p → made.tree.node p = none)
    (trace : List Action) (w : Watched)
    (run : Transition.Run (watch cwd root) (fun w a => allowed cwd root w.state a = true) (opened made)
      trace w) :
    (∀ p, Below (resolve cwd root) p → isTemp p = false → bytesAt w.state.disk p = w.stored p) ∧
    (∀ id i, w.state.calls.lookup id = some (.finished (.opened (.file i))) →
      w.seen id = some (w.state.disk.data i)) ∧
    (∀ id n, w.state.calls.lookup id = some (.finished (.info n)) →
      ∃ content : Bytes, w.seen id = some content ∧ n = content.length) ∧
    (∀ id keys, w.state.calls.lookup id = some (.finished (.listed keys)) → ∀ key ∈ keys,
      ∃ path, pathForKey root key = some path ∧ (w.stored (resolve cwd path)).isSome = true) ∧
    ∀ id files, w.state.calls.lookup id = some (.finished (.sized files)) → ∀ f ∈ files,
      ∃ path, pathForKey root f.1 = some path ∧ (w.stored (resolve cwd path)).isSome = true := by
  have isDir := newLocal_dirs created (resolve cwd root) List.prefix_rfl
  have inv : Inv cwd root w := run.invariant (Inv cwd root) (inv_opened isDir empty)
    fun w a w' h ok taken => inv_step h ok taken
  refine ⟨inv.files, fun id i found => (inv.handles id i found).2.1, inv.infos, ?_, ?_⟩
  · exact fun id keys found => inv.fits id _ found
  · exact fun id files found => inv.fits id _ found

def srv : Place := ["srv".toList]

def data : Text := "data".toList

/-- A `Put` that has written its first chunk. -/
def halfWritten : List Action :=
  .start 0 (.put "a".toList [[104], [105]]) :: List.replicate 6 (.advance 0 (.works 7))

def walk (req : Request) : List Action := .start 1 req :: List.replicate 4 (.advance 1 (.works 0))

/-- The `Put` goes on to its end, a walk finds the key, and a reader opens it under another spelling. -/
def putListed : List Action :=
  halfWritten ++ List.replicate 5 (.advance 0 (.works 7)) ++ walk (.listSizes []) ++
    [.start 2 (.openKey "./a".toList), .advance 2 (.works 0)]

theorem puts_atomic_putListed : ∃ made w, newLocal srv data Disk.blank = some made ∧
    Transition.Run (watch srv data) (fun w a => allowed srv data w.state a = true) (opened made) putListed w ∧
      bytesAt w.state.disk (srv ++ [data, "a".toList]) = w.stored (srv ++ [data, "a".toList]) := by
  have listed : (Transition.exec (watch srv data) (fun w a => allowed srv data w.state a)
      (opened ((newLocal srv data Disk.blank).get (by decide))) putListed).isSome = true := by
    decide
  obtain ⟨w, run⟩ := Option.isSome_iff_exists.mp listed
  have run := Transition.run_of_exec (fun _ _ ok => ok) run
  have created := (Option.some_get (show (newLocal srv data Disk.blank).isSome = true by decide)).symm
  refine ⟨_, w, created, run, ?_⟩
  refine (puts_atomic srv data Disk.blank _ created (fun p below => ?_) putListed w run).1 _ (by decide)
    (by decide)
  have names : ((newLocal srv data Disk.blank).get (by decide)).tree.keys = [srv ++ [data], srv] := by decide
  rw [DirTree.node_of_ne (below_ne_nil below), AList.lookup_eq_none]
  intro mem
  rw [AList.mem_keys, names] at mem
  simp only [List.mem_cons, List.not_mem_nil, or_false] at mem
  rcases mem with rfl | rfl
  · exact below.2 rfl
  · exact absurd below.1 (by decide)

/-- A `List` has returned a key that nothing was given to. -/
def Misreports (cwd : Place) (root : Text) (w : Watched) (key : Text) : Prop :=
  ∃ id keys, w.state.calls.lookup id = some (.finished (.listed keys)) ∧ key ∈ keys ∧
    ¬ CompletedKey cwd root w.stored key

def listsTemp (w : Watched) : Bool :=
  match w.state.calls.lookup 1 with
  | some (.finished (.listed keys)) =>
    ".tmp-7".toList ∈ keys ∧ w.stored (srv ++ [data, ".tmp-7".toList]) = none
  | _ => false

theorem misreports_of_listsTemp {w : Watched} (h : listsTemp w = true) :
    Misreports srv data w ".tmp-7".toList := by
  unfold listsTemp at h
  split at h
  next keys found =>
    obtain ⟨mem, none⟩ := of_decide_eq_true h
    refine ⟨1, keys, found, mem, ?_⟩
    rintro ⟨path, isPath, given⟩
    have read : pathForKey data ".tmp-7".toList = some "data/.tmp-7".toList := by decide
    have place : resolve srv "data/.tmp-7".toList = srv ++ [data, ".tmp-7".toList] := by decide
    rw [read] at isPath
    cases isPath
    rw [place, none] at given
    cases given
  · cases h

/-- A walk beside a `Put` in progress, and one after a crash that cut the `Put` off, report its temporary
file. -/
theorem temp_file_listed : ∃ made during after, newLocal srv data Disk.blank = some made ∧
    Transition.Run (watch srv data) Transition.Always (opened made) (halfWritten ++ walk (.list [])) during ∧
      Misreports srv data during ".tmp-7".toList ∧
    Transition.Run (watch srv data) Transition.Always (opened made)
      (halfWritten ++ .crash :: walk (.list [])) after ∧ Misreports srv data after ".tmp-7".toList := by
  have beside : (Transition.exec (watch srv data) (fun _ _ => true)
      (opened ((newLocal srv data Disk.blank).get (by decide))) (halfWritten ++ walk (.list []))).any
      listsTemp = true := by
    decide
  have later : (Transition.exec (watch srv data) (fun _ _ => true)
      (opened ((newLocal srv data Disk.blank).get (by decide)))
      (halfWritten ++ .crash :: walk (.list []))).any listsTemp = true := by
    decide
  obtain ⟨during, run, reports⟩ := Transition.exists_always beside
  obtain ⟨after, run', reports'⟩ := Transition.exists_always later
  have created := (Option.some_get (show (newLocal srv data Disk.blank).isSome = true by decide)).symm
  exact ⟨_, during, after, created, run, misreports_of_listsTemp reports, run',
    misreports_of_listsTemp reports'⟩

end Vidsilo.Storage.LocalPuts
