import Mathlib.Data.List.Sort
import Vidsilo.Library.FileTree
import Vidsilo.Library.Resolve
import Vidsilo.Library.Transition
import Vidsilo.Storage.Drivers

/-!
# The local driver, one system call at a time

Source: internal/store/local.go:19-161, usage.go:169-195. Calls of one driver take turns, each with one
system call of its own at a time; a call may fail there, and a crash ends every call where it stands.
Paths are the texts that the code builds; `resolve` says where they lead. `os.CreateTemp` draws a number
and tries again while the name is taken; `os.RemoveAll` removes what it finds in any number of steps
(`Outcome.sweeps`) before its last one. Times of files, permissions and links are not modelled.
-/
namespace Vidsilo.Storage.LocalDisk
open Library Library.SlashPath Library.Resolve Library.FileTree Keys Drivers

/-- An absolute path, outermost name first. -/
abbrev Place := List Text

/-- `pathForKey`, with the text that it returns. -/
def pathForKey (root key : Text) : Option Text :=
  if key = [] ∨ key.head? = some '/' then none
  else
    let cleaned := clean key
    if cleaned = dot ∨ dotdot <:+: cleaned then none else some (join [root, cleaned])

def tempPrefix : Text := ".tmp-".toList

/-- The name that `os.CreateTemp` makes of the pattern and the number it drew. -/
def tempName (drawn : Nat) : Text := tempPrefix ++ Nat.toDigits 10 drawn

inductive Request where
  /-- `body` is what the reader gives, one read after the other. -/
  | put (key : Text) (body : List Bytes)
  | moveIn (key srcPath : Text)
  | openKey (key : Text)
  | stat (key : Text)
  | delete (key : Text)
  | removeTree (treePrefix : Text)
  | list (listPrefix : Text)
  | listSizes (listPrefix : Text)

inductive Reply where
  | done
  | failed (err : StoreError)
  /-- What `os.Open` opened, by its inode. -/
  | opened (node : Node)
  | info (size : Nat)
  | listed (keys : List Text)
  | sized (files : List (Text × Nat))

inductive PutPhase where
  /-- `MkdirAll`: the directories from the top that are still to be made. -/
  | dirs (left : List Place)
  | temp
  | copy (tmp : Text) (inode : Nat) (left : List Bytes)
  | close (tmp : Text) (inode : Nat)
  | rename (tmp : Text) (inode : Nat)

inductive Call where
  | putting (path : Text) (body : List Bytes) (phase : PutPhase)
  /-- The deferred `os.Remove` of the temporary file, whose error nobody sees. -/
  | cleaning (tmp : Text) (renamed : Bool)
  | movingIn (src path : Text) (left : List Place)
  | opening (path : Text)
  | statting (path : Text)
  | deleting (path : Text)
  | sweeping (path : Text)
  /-- `WalkDir` before its first `Lstat`. -/
  | entering (sizes : Bool) (base : Place)
  /-- The entries that the walk has still to visit, with whether each is a directory, and those it found. -/
  | walking (sizes : Bool) (left : List (Place × Bool)) (found : List (Place × Nat))
  | finished (reply : Reply)

/-- The temporary name that a `Put` has until its deferred removal. -/
def Call.held : Call → Option Text
  | .putting _ _ (.copy tmp _ _) | .putting _ _ (.close tmp _) | .putting _ _ (.rename tmp _) => some tmp
  | .cleaning tmp _ => some tmp
  | _ => none

/-- The inode that a `Put` is writing. -/
def Call.inode : Call → Option Nat
  | .putting _ _ (.copy _ inode _) | .putting _ _ (.close _ inode) | .putting _ _ (.rename _ inode) =>
    some inode
  | _ => none

inductive Outcome where
  /-- `drawn` is the number that `os.CreateTemp` draws, and the size that a directory reports. -/
  | works (drawn : Nat)
  /-- `written` is how much of a chunk had been written before the write failed. -/
  | fails (written : Nat)
  | sweeps (gone : List Place)

/-- `ENOENT` where there is nothing, and `ENOTDIR` where a file stands in the way. -/
def missing (t : DirTree Text) (p : Place) : StoreError :=
  if p.inits.any fun q => (t.node q).any fun n => n != .dir then .failed else .notFound

/-- `filepath.Rel` of a place from the root, which climbs where the place is not below the root. -/
def relPath (root p : Place) : Text :=
  let shared := ((root.zip p).takeWhile fun pair => pair.1 = pair.2).length
  joinSlash (List.replicate (root.length - shared) dotdot ++ p.drop shared)

section Driver
variable (cwd : Place) (root : Text)

def newLocal (d : Disk Text UInt8) : Option (Disk Text UInt8) :=
  if root = [] then none else (resolve cwd root).inits.foldlM Disk.mkdir d

/-- Where a walk of the prefix starts. -/
def walkBase (listPrefix : Text) : Place := resolve cwd (join [root, trimSlash listPrefix])

/-- The call on the path of the key, or its refusal. -/
def onPath (key : Text) (call : Text → Call) : Call :=
  match pathForKey root key with
  | none => .finished (.failed .failed)
  | some path => call path

theorem onPath_cases {key : Text} {call : Text → Call} {holds : Call → Prop}
    (refused : holds (.finished (.failed .failed)))
    (found : ∀ path, pathForKey root key = some path → holds (call path)) :
    holds (onPath root key call) := by
  unfold onPath
  split
  · exact refused
  next path isPath => exact found path isPath

/-- A call before its first system call. -/
def begin : Request → Call
  | .put key body => onPath root key fun path =>
      .putting path body (.dirs (resolve cwd (dirName path)).inits)
  | .moveIn key srcPath => onPath root key fun path =>
      .movingIn srcPath path (resolve cwd (dirName path)).inits
  | .openKey key => onPath root key .opening
  | .stat key => onPath root key .statting
  | .delete key => onPath root key .deleting
  | .removeTree treePrefix => onPath root (trimSlash treePrefix) .sweeping
  | .list listPrefix => .entering false (walkBase cwd root listPrefix)
  | .listSizes listPrefix => .entering true (walkBase cwd root listPrefix)

/-- What a walk returns that ends without an error. -/
def walked (sizes : Bool) (found : List (Place × Nat)) : Reply :=
  if sizes then .sized (found.map fun f => (relPath (resolve cwd root) f.1, f.2))
  else .listed (found.map fun f => relPath (resolve cwd root) f.1)

/-- `ErrNotExist` ends a walk without an error: `List` forgets what it found, `ListSizes` keeps it. -/
def walkEnds (sizes : Bool) (err : StoreError) (found : List (Place × Nat)) : Reply :=
  match err with
  | .notFound => walked cwd root sizes (if sizes then found else [])
  | .failed => .failed .failed

/-- The entries of a directory in the order in which `os.ReadDir` returns them. -/
def readDir (t : DirTree Text) (p : Place) : List (Place × Bool) :=
  ((t.children p).insertionSort fun a b => textLe (a.getLastD []) (b.getLastD [])).map
    fun q => (q, t.isDir q)

def putStep (path : Text) (body : List Bytes) (d : Disk Text UInt8) :
    PutPhase → Outcome → Call × Disk Text UInt8
  | .dirs (p :: left), .works _ =>
    match d.mkdir p with
    | some d' => (.putting path body (.dirs left), d')
    | none => (.finished (.failed .failed), d)
  | .dirs [], .works _ => (.putting path body .temp, d)
  | .temp, .works drawn =>
    let tmp := joinPath (dirName path) (tempName drawn)
    match d.create (resolve cwd tmp) with
    | some d' => (.putting path body (.copy tmp d.next body), d')
    | none =>
      if (d.tree.node (resolve cwd tmp)).isSome then (.putting path body .temp, d)
      else (.finished (.failed .failed), d)
  | .copy tmp inode (chunk :: left), .works _ =>
    (.putting path body (.copy tmp inode left), d.append inode chunk)
  | .copy tmp inode (chunk :: _), .fails written =>
    (.cleaning tmp false, d.append inode (chunk.take written))
  | .copy tmp inode [], .works _ => (.putting path body (.close tmp inode), d)
  | .copy tmp _ [], .fails _ => (.cleaning tmp false, d)
  | .close tmp inode, .works _ => (.putting path body (.rename tmp inode), d)
  | .close tmp _, .fails _ => (.cleaning tmp false, d)
  | .rename tmp _, .works _ =>
    match d.rename (resolve cwd tmp) (resolve cwd path) with
    | some d' => (.cleaning tmp true, d')
    | none => (.cleaning tmp false, d)
  | .rename tmp _, .fails _ => (.cleaning tmp false, d)
  | .dirs _, .fails _ | .temp, .fails _ => (.finished (.failed .failed), d)
  | phase, .sweeps _ => (.putting path body phase, d)

/-- The next entry of a walk. -/
def walkStep (sizes : Bool) (d : Disk Text UInt8) :
    List (Place × Bool) → List (Place × Nat) → Outcome → Call
  | [], found, _ => .finished (walked cwd root sizes found)
  | (p, false) :: left, found, outcome =>
    if sizes then
      -- `d.Info()` looks the entry up again, and an entry it cannot find is left out
      match outcome, d.tree.node p with
      | .works _, some (.file i) => .walking sizes left (found ++ [(p, (d.data i).length)])
      | .works drawn, some .dir => .walking sizes left (found ++ [(p, drawn)])
      | _, _ => .walking sizes left found
    else .walking sizes left (found ++ [(p, 0)])
  | (p, true) :: left, found, .works _ =>
    if d.tree.isDir p then .walking sizes (readDir d.tree p ++ left) found
    else
      .finished (walkEnds cwd root sizes
        (if (d.tree.node p).isSome then .failed else missing d.tree p) found)
  | (_, true) :: _, _, _ => .finished (.failed .failed)

/-- The next system call of a call, and what is left of it. -/
def advance (d : Disk Text UInt8) : Call → Outcome → Option (Call × Disk Text UInt8)
  | .putting path body phase, outcome => some (putStep cwd path body d phase outcome)
  | .cleaning tmp renamed, .works _ =>
    some (.finished (if renamed then .done else .failed .failed), (d.remove (resolve cwd tmp)).getD d)
  | .cleaning _ renamed, _ => some (.finished (if renamed then .done else .failed .failed), d)
  | .movingIn src path (p :: left), .works _ =>
    match d.mkdir p with
    | some d' => some (.movingIn src path left, d')
    | none => some (.finished (.failed .failed), d)
  | .movingIn src path [], .works _ =>
    match d.rename (resolve cwd src) (resolve cwd path) with
    | some d' => some (.finished .done, d')
    | none => some (.finished (.failed .failed), d)
  | .opening path, .works _ =>
    match d.tree.node (resolve cwd path) with
    | some node => some (.finished (.opened node), d)
    | none => some (.finished (.failed (missing d.tree (resolve cwd path))), d)
  | .statting path, .works _ =>
    match d.tree.node (resolve cwd path) with
    | some (.file i) => some (.finished (.info (d.data i).length), d)
    | some .dir => some (.finished (.failed .notFound), d)
    | none => some (.finished (.failed (missing d.tree (resolve cwd path))), d)
  | .sweeping path, .sweeps gone => some (.sweeping path, d.sweep (resolve cwd path) (· ∈ gone))
  | .deleting path, .works _ | .sweeping path, .works _ =>
    match d.remove (resolve cwd path) with
    | some d' => some (.finished .done, d')
    | none =>
      if (d.tree.node (resolve cwd path)).isNone ∧ missing d.tree (resolve cwd path) = .notFound then
        some (.finished .done, d)
      else some (.finished (.failed .failed), d)
  | .entering sizes base, .works _ =>
    match d.tree.node base with
    | some .dir => some (.walking sizes [(base, true)] [], d)
    | some (.file i) => some (.walking sizes [] [(base, (d.data i).length)], d)
    | none => some (.finished (walkEnds cwd root sizes (missing d.tree base) []), d)
  | .walking sizes left found, outcome => some (walkStep cwd root sizes d left found outcome, d)
  | .movingIn .., _ | .opening _, _ | .statting _, _ | .deleting _, _ | .sweeping _, _ | .entering .., _ =>
    some (.finished (.failed .failed), d)
  | .finished _, _ => none

structure State where
  disk : Disk Text UInt8
  calls : KeyMap Nat Call

/-- No call is in progress. -/
def idle (d : Disk Text UInt8) : State := ⟨d, ∅⟩

inductive Action where
  | start (id : Nat) (req : Request)
  | advance (id : Nat) (outcome : Outcome)
  /-- The caller has its reply, and closes what it opened. -/
  | leave (id : Nat)
  | crash

def step (s : State) : Action → Option State
  | .start id req =>
    if (s.calls.lookup id).isNone then
      some { s with calls := s.calls.insert id (begin cwd root req) }
    else none
  | .advance id outcome =>
    (s.calls.lookup id).bind fun call =>
      (advance cwd root s.disk call outcome).map fun r => ⟨r.2, s.calls.insert id r.1⟩
  | .leave id =>
    (s.calls.lookup id).bind fun call =>
      match call with
      | .finished _ => some { s with calls := s.calls.erase id }
      | _ => none
  | .crash => some (idle s.disk)

end Driver

end Vidsilo.Storage.LocalDisk
