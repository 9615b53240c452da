import Vidsilo.Storage.LocalDisk

/-!
# What a key can reach on the disk

Source: internal/store/local.go:32-136. A key that `pathForKey` accepts leads strictly below the root, so
every system call of a request stays there: `MkdirAll` finds the directories on the way to the root, and
only the source file of a `MoveIn` is named otherwise than by a key.
-/
namespace Vidsilo.Storage.KeyPaths
open Library Library.SlashPath Library.Resolve Library.FileTree Keys Drivers LocalDisk

theorem pathForKey_eq (root key : Text) :
    pathForKey root key = (Local.pathForKey key).map fun p => join [root, joinSlash p] := by
  unfold pathForKey Local.pathForKey
  dsimp only
  split_ifs
  · rfl
  · rfl
  · rw [Option.map_some, joinSlash_components]

theorem pathForKey_place {root key path : Text} (h : pathForKey root key = some path) :
    ∃ below, Local.pathForKey key = some below ∧ below ≠ [] ∧ (∀ c ∈ below, Segment c) ∧
      path = under (clean root) below ∧ ∀ cwd, resolve cwd path = resolve cwd root ++ below := by
  rw [pathForKey_eq] at h
  obtain ⟨below, isPath, rfl⟩ := Option.map_eq_some_iff.mp h
  have some := (pathForKey_eq_some isPath).2
  have segments := pathForKey_segments isPath
  obtain ⟨text, place⟩ := join_names root some segments
  exact ⟨below, isPath, some, segments, text, place⟩

/-- Where the directory of a key's path leads, and the names that a temporary file can have there. -/
theorem place_dirName {root key path : Text} (h : pathForKey root key = some path) (cwd : Place) :
    ∃ above name, resolve cwd path = resolve cwd root ++ (above ++ [name]) ∧
      resolve cwd (dirName path) = resolve cwd root ++ above := by
  obtain ⟨below, _, some, segments, text, place⟩ := pathForKey_place h
  obtain ⟨front, split⟩ := components_under (clean root) some fun c mem => (segments c mem).2
  have last : below = below.dropLast ++ [below.getLast some] := (List.dropLast_append_getLast some).symm
  have ends : components path = (front ++ below.dropLast) ++ [below.getLast some] := by
    rw [text, split, List.append_assoc, ← last]
  refine ⟨below.dropLast, below.getLast some, by rw [← last]; exact place cwd, ?_⟩
  have leads := resolve_dirName cwd ends (segments _ (List.getLast_mem some)).1
  rw [place cwd] at leads
  nth_rewrite 1 [last] at leads
  rw [← List.append_assoc] at leads
  exact (List.append_inj_left' leads rfl).symm

theorem segment_tempName (drawn : Nat) : Segment (tempName drawn) := by
  have digits (c : Char) (mem : c ∈ Nat.toDigits 10 drawn) : c.isDigit = true :=
    Nat.isDigit_of_mem_toDigits (by decide) (by decide) mem
  refine ⟨⟨?_, ?_, ?_⟩, ?_⟩
  · simp [tempName, tempPrefix]
  · simp [tempName, tempPrefix, dot]
  · simp [tempName, tempPrefix, dotdot]
  · intro slash
    rcases List.mem_append.mp slash with isPrefix | isDigit
    · revert isPrefix
      decide
    · exact absurd (digits '/' isDigit) (by decide)

theorem place_temp (cwd : Place) (path : Text) (drawn : Nat) : resolve cwd (joinPath (dirName path) (tempName drawn)) =
      resolve cwd (dirName path) ++ [tempName drawn] :=
  resolve_joinPath cwd (clean_ne_nil _) (segment_tempName drawn)

theorem below_append {top names : Place} (hne : names ≠ []) : Below top (top ++ names) :=
  ⟨List.prefix_append top names, fun same => hne (List.append_right_eq_self.mp same)⟩

theorem below_extend {top p q : Place} (h : Below top p) (sub : p <+: q) : Below top q := by
  obtain ⟨names, rfl⟩ := h.1
  obtain ⟨rest, rfl⟩ := sub
  refine ⟨⟨names ++ rest, (List.append_assoc ..).symm⟩, fun same => ?_⟩
  rw [List.append_assoc] at same
  have none := List.append_right_eq_self.mp same
  obtain ⟨rfl, _⟩ := List.append_eq_nil_iff.mp none
  exact h.2 (List.append_nil top)

theorem prefix_cases {top p : Place} {names : Place} (h : p <+: top ++ names) : p <+: top ∨ Below top p := by
  rcases List.prefix_or_prefix_of_prefix h (List.prefix_append top names) with above | below
  · exact .inl above
  · by_cases same : p = top
    · exact .inl (same ▸ List.prefix_rfl)
    · exact .inr ⟨below, same⟩

section Confinement
variable (cwd : Place) (root : Text) (first : Nat) (srcs : List Text)

/-- A directory on the way to the root, or a place strictly below it. -/
def OnTheWay (p : Place) : Prop := p <+: resolve cwd root ∨ Below (resolve cwd root) p

/-- The text is the path of some key. -/
def OfKey (path : Text) : Prop := ∃ key, pathForKey root key = some path

def ConfinedPut : PutPhase → Prop
  | .dirs left => ∀ p ∈ left, OnTheWay cwd root p
  | .temp => True
  | .copy tmp inode _ | .close tmp inode | .rename tmp inode =>
    Below (resolve cwd root) (resolve cwd tmp) ∧ first ≤ inode

/-- What a call names lies below the root, the sources of `MoveIn` apart, and the inodes that it writes
are as new as the driver. -/
def Confined : Call → Prop
  | .putting path _ phase => OfKey root path ∧ ConfinedPut cwd root first phase
  | .cleaning tmp _ => Below (resolve cwd root) (resolve cwd tmp)
  | .movingIn src path left => OfKey root path ∧ src ∈ srcs ∧ ∀ p ∈ left, OnTheWay cwd root p
  | .opening path | .statting path | .deleting path | .sweeping path => OfKey root path
  | .entering .. | .walking .. | .finished _ => True

/-- Neither strictly below the root nor at or below a source, a source above the root apart. -/
def Outside (q : Place) : Prop :=
  ¬ Below (resolve cwd root) q ∧
    ∀ src ∈ srcs, resolve cwd src <+: q → resolve cwd src <+: resolve cwd root

/-- The way to the root is there, and what is outside is older than the driver. -/
def Settled (d : Disk Text UInt8) : Prop :=
  (∀ p, p <+: resolve cwd root → d.tree.node p = some .dir) ∧
    ∀ q i, Outside cwd root srcs q → d.tree.node q = some (.file i) → i < first

variable {cwd root first srcs}

theorem OfKey.below {path : Text} (h : OfKey root path) :
    Below (resolve cwd root) (resolve cwd path) := by
  obtain ⟨key, h⟩ := h
  obtain ⟨below, _, some, _, _, place⟩ := pathForKey_place h
  rw [place cwd]
  exact below_append some

theorem OfKey.dirs {path : Text} (h : OfKey root path) :
    ∀ p ∈ (resolve cwd (dirName path)).inits, OnTheWay cwd root p := by
  obtain ⟨key, h⟩ := h
  obtain ⟨above, _, _, dir⟩ := place_dirName h cwd
  intro p mem
  rw [dir, List.mem_inits] at mem
  exact prefix_cases mem

theorem OfKey.temp {path : Text} (h : OfKey root path) (drawn : Nat) :
    Below (resolve cwd root) (resolve cwd (joinPath (dirName path) (tempName drawn))) := by
  obtain ⟨key, h⟩ := h
  obtain ⟨above, _, _, dir⟩ := place_dirName h cwd
  rw [place_temp, dir, List.append_assoc]
  exact below_append (by simp)

/-- What a system call did: the places outside are the same, and inodes are only added. -/
def Keeps (cwd : Place) (root : Text) (srcs : List Text) (d d' : Disk Text UInt8) : Prop :=
  d.next ≤ d'.next ∧ ∀ q, Outside cwd root srcs q → d.SameAt d' q

theorem keeps_refl (d : Disk Text UInt8) : Keeps cwd root srcs d d := ⟨le_rfl, fun q _ => .refl d q⟩

variable {d d' : Disk Text UInt8}

theorem Outside.not_below {p q : Place} (h : Outside cwd root srcs q)
    (below : Below (resolve cwd root) p) : ¬ p <+: q :=
  fun sub => h.1 (below_extend below sub)

theorem Outside.ne {p q : Place} (h : Outside cwd root srcs q) (below : Below (resolve cwd root) p) :
    q ≠ p := fun same => h.1 (same ▸ below)

theorem keeps_mkdir {p : Place} (settled : Settled cwd root first srcs d) (way : OnTheWay cwd root p)
    (h : d.mkdir p = some d') : Keeps cwd root srcs d d' := by
  constructor
  · rcases Disk.mkdir_cases h with rfl | ⟨_, _, _, next⟩ <;> omega
  · intro q outside
    rcases way with above | below
    · exact Disk.sameAt_mkdir h (.inr (by simp [DirTree.isDir, settled.1 p above]))
    · exact Disk.sameAt_mkdir h (.inl (outside.ne below))

theorem keeps_append {inode : Nat} (settled : Settled cwd root first srcs d) (new : first ≤ inode)
    (bytes : List UInt8) : Keeps cwd root srcs d (d.append inode bytes) := by
  refine ⟨le_rfl, fun q outside => Disk.sameAt_append (fun here => ?_) bytes⟩
  have older := settled.2 q inode outside here
  omega

theorem keeps_remove {p : Place} (below : Below (resolve cwd root) p) (h : d.remove p = some d') :
    Keeps cwd root srcs d d' :=
  ⟨(Disk.remove_cases h).2.2.ge, fun _ outside => Disk.sameAt_remove h (outside.ne below)⟩

theorem next_rename {src dst : Place} (h : d.rename src dst = some d') : d'.next = d.next := by
  rcases Disk.rename_cases h with ⟨_, rfl⟩ | ⟨_, next, _⟩
  · rfl
  · exact next

/-- A source on the way to the root is a directory, which does not go below itself. -/
theorem keeps_rename {src dst : Place} (settled : Settled cwd root first srcs d)
    (below : Below (resolve cwd root) dst)
    (given : ∀ q, Outside cwd root srcs q → src <+: q → src <+: resolve cwd root)
    (h : d.rename src dst = some d') : Keeps cwd root srcs d d' := by
  refine ⟨(next_rename h).ge, fun q outside => ?_⟩
  by_cases sub : src <+: q
  · have above := given q outside sub
    have isDir := settled.1 src above
    rcases Disk.rename_cases h with ⟨_, rfl⟩ | ⟨_, _, _, ⟨i, isFile, _⟩ | ⟨_, apart, _⟩⟩
    · exact .refl _ q
    · cases isFile.symm.trans isDir
    · exact absurd (above.trans below.1) apart
  · exact Disk.sameAt_rename h sub (outside.not_below below)

theorem putStep_confined {path : Text} {body : List Bytes} {phase : PutPhase} {outcome : Outcome}
    {c : Call} (settled : Settled cwd root first srcs d) (older : first ≤ d.next)
    (conf : Confined cwd root first srcs (.putting path body phase))
    (taken : putStep cwd path body d phase outcome = (c, d')) :
    Confined cwd root first srcs c ∧ Keeps cwd root srcs d d' := by
  obtain ⟨ofKey, conf⟩ := conf
  unfold putStep at taken
  split at taken
  next p left _ =>
    have way : OnTheWay cwd root p := conf p List.mem_cons_self
    split at taken
    next made =>
      cases taken
      exact ⟨⟨ofKey, fun p mem => conf p (List.mem_cons_of_mem _ mem)⟩, keeps_mkdir settled way made⟩
    · cases taken
      exact ⟨trivial, keeps_refl d⟩
  · cases taken
    exact ⟨⟨ofKey, trivial⟩, keeps_refl d⟩
  next drawn =>
    have below : Below (resolve cwd root) (resolve cwd (joinPath (dirName path) (tempName drawn))) :=
      ofKey.temp drawn
    dsimp only at taken
    split at taken
    next created =>
      cases taken
      refine ⟨⟨ofKey, below, older⟩, ?_, fun q outside => Disk.sameAt_create created (outside.ne below)⟩
      have := (Disk.create_cases created).2.2.2
      omega
    · split at taken
      · cases taken
        exact ⟨⟨ofKey, trivial⟩, keeps_refl d⟩
      · cases taken
        exact ⟨trivial, keeps_refl d⟩
  · cases taken
    exact ⟨⟨ofKey, conf⟩, keeps_append settled conf.2 _⟩
  · cases taken
    exact ⟨conf.1, keeps_append settled conf.2 _⟩
  · cases taken
    exact ⟨⟨ofKey, conf⟩, keeps_refl d⟩
  · cases taken
    exact ⟨conf.1, keeps_refl d⟩
  · cases taken
    exact ⟨⟨ofKey, conf⟩, keeps_refl d⟩
  · cases taken
    exact ⟨conf.1, keeps_refl d⟩
  next tmp inode _ =>
    split at taken
    next renamed =>
      cases taken
      refine ⟨conf.1, keeps_rename settled ofKey.below (fun q outside sub => ?_) renamed⟩
      exact absurd sub (outside.not_below conf.1)
    · cases taken
      exact ⟨conf.1, keeps_refl d⟩
  · cases taken
    exact ⟨conf.1, keeps_refl d⟩
  · cases taken
    exact ⟨trivial, keeps_refl d⟩
  · cases taken
    exact ⟨trivial, keeps_refl d⟩
  · cases taken
    exact ⟨⟨ofKey, conf⟩, keeps_refl d⟩

theorem walkStep_confined {sizes : Bool} {left : List (Place × Bool)} {found : List (Place × Nat)}
    {outcome : Outcome} :
    Confined cwd root first srcs (walkStep cwd root sizes d left found outcome) := by
  unfold walkStep
  split
  · trivial
  · split
    · split <;> trivial
    · trivial
  · split <;> trivial
  · trivial

theorem advance_confined {c c' : Call} {outcome : Outcome} (settled : Settled cwd root first srcs d)
    (older : first ≤ d.next) (conf : Confined cwd root first srcs c)
    (taken : advance cwd root d c outcome = some (c', d')) :
    Confined cwd root first srcs c' ∧ Keeps cwd root srcs d d' := by
  unfold advance at taken
  split at taken
  · exact putStep_confined settled older conf (Option.some.inj taken)
  next tmp renamed _ =>
    cases taken
    refine ⟨trivial, ?_⟩
    cases removed : d.remove (resolve cwd tmp) with
    | none => exact keeps_refl d
    | some d' => exact keeps_remove conf removed
  · cases taken
    exact ⟨trivial, keeps_refl d⟩
  next src path p left _ =>
    obtain ⟨ofKey, given, way⟩ := conf
    split at taken
    next made =>
      cases taken
      exact ⟨⟨ofKey, given, fun p mem => way p (List.mem_cons_of_mem _ mem)⟩,
        keeps_mkdir settled (way p List.mem_cons_self) made⟩
    · cases taken
      exact ⟨trivial, keeps_refl d⟩
  next src path _ =>
    split at taken
    next renamed =>
      cases taken
      exact ⟨trivial, keeps_rename settled conf.1.below (fun q outside => outside.2 src conf.2.1) renamed⟩
    · cases taken
      exact ⟨trivial, keeps_refl d⟩
  · split at taken <;> cases taken <;> exact ⟨trivial, keeps_refl d⟩
  · split at taken <;> cases taken <;> exact ⟨trivial, keeps_refl d⟩
  next path gone =>
    cases taken
    refine ⟨conf, le_rfl, fun q outside => ?_⟩
    exact Disk.sameAt_sweep _ (outside.not_below (OfKey.below conf))
  next path _ =>
    split at taken
    next removed =>
      cases taken
      exact ⟨trivial, keeps_remove (OfKey.below conf) removed⟩
    · split at taken <;> cases taken <;> exact ⟨trivial, keeps_refl d⟩
  next path _ =>
    split at taken
    next removed =>
      cases taken
      exact ⟨trivial, keeps_remove (OfKey.below conf) removed⟩
    · split at taken <;> cases taken <;> exact ⟨trivial, keeps_refl d⟩
  · split at taken <;> cases taken <;> exact ⟨trivial, keeps_refl d⟩
  · cases taken
    exact ⟨walkStep_confined, keeps_refl d⟩
  all_goals
    cases taken
    try exact ⟨trivial, keeps_refl d⟩

theorem begin_confined {req : Request} (given : ∀ key src, req = .moveIn key src → src ∈ srcs) :
    Confined cwd root first srcs (begin cwd root req) := by
  cases req with
  | put key body => exact onPath_cases root trivial fun path isPath =>
      ⟨⟨key, isPath⟩, OfKey.dirs ⟨key, isPath⟩⟩
  | moveIn key src => exact onPath_cases root trivial fun path isPath =>
      ⟨⟨key, isPath⟩, given key src rfl, OfKey.dirs ⟨key, isPath⟩⟩
  | openKey key => exact onPath_cases root trivial fun path isPath => ⟨key, isPath⟩
  | stat key => exact onPath_cases root trivial fun path isPath => ⟨key, isPath⟩
  | delete key => exact onPath_cases root trivial fun path isPath => ⟨key, isPath⟩
  | removeTree treePrefix => exact onPath_cases root trivial fun path isPath => ⟨_, isPath⟩
  | list listPrefix => trivial
  | listSizes listPrefix => trivial

end Confinement

section Runs
variable {cwd : Place} {root : Text}

/-- The sources that `MoveIn` was asked to move. -/
def sources (trace : List Action) : List Text :=
  trace.filterMap fun
    | .start _ (.moveIn _ src) => some src
    | _ => none

theorem sources_append (trace later : List Action) :
    sources (trace ++ later) = sources trace ++ sources later := List.filterMap_append

theorem Confined.mono {first : Nat} {srcs srcs' : List Text} (sub : ∀ src ∈ srcs, src ∈ srcs') {c : Call}
    (h : Confined cwd root first srcs c) : Confined cwd root first srcs' c := by
  cases c with
  | movingIn src path left => exact ⟨h.1, sub src h.2.1, h.2.2⟩
  | putting path body phase => exact h
  | cleaning tmp renamed => exact h
  | opening path => exact h
  | statting path => exact h
  | deleting path => exact h
  | sweeping path => exact h
  | entering sizes base => trivial
  | walking sizes left found => trivial
  | finished reply => trivial

theorem Outside.mono {srcs srcs' : List Text} (sub : ∀ src ∈ srcs, src ∈ srcs') {q : Place}
    (h : Outside cwd root srcs' q) : Outside cwd root srcs q :=
  ⟨h.1, fun src mem => h.2 src (sub src mem)⟩

/-- `NewLocal` leaves the root and the directories above it behind. -/
theorem newLocal_dirs {d d' : Disk Text UInt8} (h : newLocal cwd root d = some d') :
    ∀ p, p <+: resolve cwd root → d'.tree.node p = some .dir := by
  unfold newLocal at h
  split at h
  · cases h
  · exact fun p above => (Disk.mkdirs_dir h).1 p ((List.mem_inits p _).mpr above)

/-- What a run from `NewLocal` has kept. -/
structure Held (cwd : Place) (root : Text) (made : Disk Text UInt8) (trace : List Action) (s : State) : Prop where
  newer : made.next ≤ s.disk.next
  same : ∀ q, Outside cwd root (sources trace) q → made.SameAt s.disk q
  calls : ∀ id c, s.calls.lookup id = some c → Confined cwd root made.next (sources trace) c

theorem outside_above {srcs : List Text} {p : Place} (h : p <+: resolve cwd root) :
    Outside cwd root srcs p :=
  ⟨fun below => below.2 (h.eq_of_length_le below.1.length_le), fun _ _ sub => sub.trans h⟩

theorem Held.settled {made : Disk Text UInt8} {trace : List Action} {s : State} (h : Held cwd root made trace s) (dirs : ∀ p, p <+: resolve cwd root → made.tree.node p = some .dir) :
    Settled cwd root made.next (sources trace) s.disk := by
  constructor
  · intro p above
    exact (h.same p (outside_above above)).1.trans (dirs p above)
  · intro q i outside here
    exact made.linked.1 q i (DirTree.lookup_of_file ((h.same q outside).1.symm.trans here))

theorem held_step {made : Disk Text UInt8} {trace : List Action} {s s' : State} {a : Action}
    (dirs : ∀ p, p <+: resolve cwd root → made.tree.node p = some .dir)
    (h : Held cwd root made trace s) (taken : step cwd root s a = some s') :
    Held cwd root made (trace ++ [a]) s' := by
  have more : ∀ src ∈ sources trace, src ∈ sources (trace ++ [a]) := fun src mem => by
    rw [sources_append]
    exact List.mem_append_left _ mem
  have same (q : Place) (outside : Outside cwd root (sources (trace ++ [a])) q) :=
    h.same q (outside.mono more)
  have others {id : Nat} {call : Call}
      (fits : Confined cwd root made.next (sources (trace ++ [a])) call) (i : Nat) (c : Call)
      (found : (s.calls.insert id call).lookup i = some c) :
      Confined cwd root made.next (sources (trace ++ [a])) c := by
    by_cases here : i = id
    · rw [here, AList.lookup_insert] at found
      cases found
      exact fits
    · rw [AList.lookup_insert_ne here] at found
      exact (h.calls i c found).mono more
  cases a with
  | start id req =>
    simp only [step] at taken
    split at taken
    · cases taken
      refine ⟨h.newer, same, others (begin_confined fun key src isMove => ?_)⟩
      rw [sources_append, isMove]
      exact List.mem_append_right _ List.mem_cons_self
    · cases taken
  | advance id outcome =>
    obtain ⟨call, found, taken⟩ := Option.bind_eq_some_iff.mp taken
    obtain ⟨⟨call', disk⟩, moved, rfl⟩ := Option.map_eq_some_iff.mp taken
    obtain ⟨conf, kept⟩ := advance_confined (h.settled dirs) h.newer (h.calls id call found) moved
    exact ⟨h.newer.trans kept.1, fun q outside => (same q outside).trans (kept.2 q (outside.mono more)),
      others (conf.mono more)⟩
  | leave id =>
    obtain ⟨call, found, taken⟩ := Option.bind_eq_some_iff.mp taken
    cases call with
    | finished reply =>
      cases taken
      refine ⟨h.newer, same, fun i c here => ?_⟩
      by_cases gone : i = id
      · rw [gone, AList.lookup_erase] at here
        cases here
      · rw [AList.lookup_erase_ne gone] at here
        exact (h.calls i c here).mono more
    | _ => cases taken
  | crash =>
    cases taken
    exact ⟨h.newer, same, fun id c found => nomatch found⟩

theorem held_run {made : Disk Text UInt8} {trace : List Action} {s : State}
    (dirs : ∀ p, p <+: resolve cwd root → made.tree.node p = some .dir)
    (run : Transition.Run (step cwd root) Transition.Always (idle made) trace s) :
    Held cwd root made trace s := by
  refine run.trace_invariant (fun trace s => Held cwd root made trace s) ?_ ?_
  · exact ⟨le_rfl, fun q _ => .refl made q, fun id c found => nomatch found⟩
  · exact fun trace s a s' held _ taken => held_step dirs held taken

end Runs

/-- A path that `pathForKey` returns is the root with names below it, as a text and as the place it leads
to. So in every run of calls from `NewLocal`, with crashes and failures at any step, the root and all that
is not below it stay as they are, the sources of `MoveIn` apart, and nothing else is opened or looked at. -/
theorem keys_stay_below (cwd : Place) (root : Text) (before made : Disk Text UInt8)
    (created : newLocal cwd root before = some made) :
    (∀ key path, pathForKey root key = some path → ∃ below, below ≠ [] ∧ (∀ c ∈ below, Segment c) ∧
      path = under (clean root) below ∧ resolve cwd path = resolve cwd root ++ below) ∧
    ∀ trace s, Transition.Run (step cwd root) Transition.Always (idle made) trace s →
      (∀ q, ¬ Below (resolve cwd root) q →
        (∀ src ∈ sources trace, resolve cwd src <+: q → resolve cwd src <+: resolve cwd root) →
          made.SameAt s.disk q) ∧
      ∀ id path, s.calls.lookup id = some (.opening path) ∨ s.calls.lookup id = some (.statting path) →
        Below (resolve cwd root) (resolve cwd path) := by
  refine ⟨fun key path isPath => ?_, fun trace s run => ?_⟩
  · obtain ⟨below, _, some, segments, text, place⟩ := pathForKey_place isPath
    exact ⟨below, some, segments, text, place cwd⟩
  · have held := held_run (newLocal_dirs created) run
    refine ⟨fun q notBelow given => held.same q ⟨notBelow, given⟩, fun id path found => ?_⟩
    rcases found with opening | statting
    · exact OfKey.below (held.calls id _ opening)
    · exact OfKey.below (held.calls id _ statting)

/-- A file is put under a roundabout spelling of its key, and its tree is removed. -/
def removedTree : List Action :=
  .start 0 (.put "a//./b/".toList [[104, 105]]) :: List.replicate 11 (.advance 0 (.works 7)) ++
    [.start 1 (.removeTree "/a/".toList),
      .advance 1 (.sweeps [["srv".toList, "data".toList, "a".toList, "b".toList]]),
      .advance 1 (.works 0)]

theorem keys_stay_below_removedTree : ∃ made s,
    newLocal ["srv".toList] "data".toList Disk.blank = some made ∧
      Transition.Run (step ["srv".toList] "data".toList) Transition.Always (idle made) removedTree s ∧
      made.SameAt s.disk ["srv".toList, "data".toList] := by
  have created : (newLocal ["srv".toList] "data".toList Disk.blank).isSome = true := by decide
  have served : (Transition.exec (step ["srv".toList] "data".toList) (fun _ _ => true)
    (idle ((newLocal ["srv".toList] "data".toList Disk.blank).get (by decide))) removedTree).isSome = true := by
    decide
  obtain ⟨s, run⟩ := Option.isSome_iff_exists.mp served
  have run := Transition.run_of_exec (fun _ _ _ => trivial) run
  have kept := (keys_stay_below ["srv".toList] "data".toList Disk.blank _ (Option.some_get created).symm).2
    removedTree s run
  exact ⟨_, s, (Option.some_get created).symm, run, kept.1 _ (by decide) (by decide)⟩

end Vidsilo.Storage.KeyPaths
