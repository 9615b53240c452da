import Mathlib.Data.List.Infix
import Mathlib.Logic.Function.Basic
import Vidsilo.Library.KeyMap

/-!
# Directory trees whose files are inodes

A tree has directories and files under the paths of names that lead to them from the top, which is
always a directory. A file is the number of an inode, whose bytes a disk holds: a name can be given to
another inode while a reader still has the old one. No inode has two names, and links are not followed.
Nothing here depends on the repository.
-/
namespace Vidsilo.Library.FileTree

inductive Node where
  | dir
  | file (inode : Nat)
  deriving DecidableEq, Repr

abbrev DirTree (ν : Type) := KeyMap (List ν) Node

/-- Every inode in the tree has one name, and a number below the next one. -/
def Linked {ν : Type} [DecidableEq ν] (next : Nat) (t : DirTree ν) : Prop :=
  (∀ p i, t.lookup p = some (.file i) → i < next) ∧
    ∀ p q i, t.lookup p = some (.file i) → t.lookup q = some (.file i) → p = q

namespace DirTree

variable {ν : Type} [DecidableEq ν]

def node (t : DirTree ν) (p : List ν) : Option Node := if p = [] then some .dir else t.lookup p

def isDir (t : DirTree ν) (p : List ν) : Bool := t.node p = some .dir

/-- A name that is not taken, in a directory. -/
def free (t : DirTree ν) (p : List ν) : Bool := (t.node p).isNone && isDir t p.dropLast

/-- A file may replace a file, and take a free name. -/
def takesFile (t : DirTree ν) (p : List ν) : Bool := isDir t p.dropLast && !isDir t p

def hasBelow (t : DirTree ν) (p : List ν) : Bool := t.keys.any fun q => p <+: q ∧ q ≠ p

/-- The names in a directory. -/
def children (t : DirTree ν) (p : List ν) : List (List ν) :=
  t.keys.filter fun q => q.dropLast = p ∧ q ≠ []

/-- Without the nodes of a subtree that a removal has got to. -/
def sweep (t : DirTree ν) (p : List ν) (gone : List ν → Bool) : DirTree ν :=
  KeyMap.keep t fun q _ => !(decide (p <+: q) && gone q)

/-- A directory with all that is below it, under its new name. -/
def moveDir (t : DirTree ν) (src dst : List ν) : DirTree ν :=
  ((t.entries.filter fun e => src <+: e.1).map fun e => (dst ++ e.1.drop src.length, e.2)).foldl
    (fun m e => m.insert e.1 e.2) (sweep t src fun _ => true)

variable {t : DirTree ν} {p q src dst : List ν} {n : Node} {next : Nat}

theorem node_of_ne (h : p ≠ []) : t.node p = t.lookup p := if_neg h

theorem node_congr {t' : DirTree ν} (same : t'.lookup p = t.lookup p) : t'.node p = t.node p := by
  unfold node
  rw [same]

theorem lookup_of_file {i : Nat} (h : t.node p = some (.file i)) : t.lookup p = some (.file i) := by
  unfold node at h
  split at h
  · cases h
  · exact h

theorem lookup_sweep (t : DirTree ν) (p q : List ν) (gone : List ν → Bool) :
    (t.sweep p gone).lookup q = if p <+: q ∧ gone q = true then none else t.lookup q := by
  rw [sweep, KeyMap.lookup_keep]
  by_cases out : p <+: q ∧ gone q = true
  · rw [if_pos out]
    cases t.lookup q with
    | none => rfl
    | some n => simp [out]
  · rw [if_neg out]
    cases t.lookup q with
    | none => rfl
    | some n =>
      have stays : (!(decide (p <+: q) && gone q)) = true := by
        rw [Bool.not_eq_true', Bool.and_eq_false_iff, decide_eq_false_iff_not, ← Bool.not_eq_true,
          ← not_and_or]
        exact out
      simp [stays]

theorem lookup_foldl_insert (entries : List (List ν × Node)) (t : DirTree ν) :
    (entries.foldl (fun m e => m.insert e.1 e.2) t : DirTree ν).lookup q = t.lookup q ∨
      ∃ n, (q, n) ∈ entries ∧
        (entries.foldl (fun m e => m.insert e.1 e.2) t : DirTree ν).lookup q = some n := by
  induction entries generalizing t with
  | nil => exact .inl rfl
  | cons e rest ih =>
    rw [List.foldl_cons]
    rcases ih (t.insert e.1 e.2) with same | ⟨n, mem, found⟩
    · by_cases here : q = e.1
      · subst here
        exact .inr ⟨e.2, List.mem_cons_self, same.trans (AList.lookup_insert t)⟩
      · exact .inl (same.trans (AList.lookup_insert_ne here))
    · exact .inr ⟨n, List.mem_cons_of_mem _ mem, found⟩

/-- A node of the moved tree is one of the old tree, under the name that the move gives it. -/
theorem lookup_moveDir (found : (t.moveDir src dst).lookup q = some n) :
    (t.lookup q = some n ∧ ¬ src <+: q) ∨
      ∃ tail, q = dst ++ tail ∧ t.lookup (src ++ tail) = some n := by
  rcases lookup_foldl_insert (q := q) _ (sweep t src fun _ => true) with same | ⟨n', mem, here⟩
  · rw [moveDir, same, lookup_sweep] at found
    split at found
    · cases found
    · next stays =>
      simp only [and_true] at stays
      exact .inl ⟨found, stays⟩
  · rw [moveDir, here] at found
    cases found
    obtain ⟨⟨old, node⟩, isOld, same⟩ := List.mem_map.mp mem
    obtain ⟨stored, below⟩ := List.mem_filter.mp isOld
    obtain ⟨tail, rfl⟩ := of_decide_eq_true below
    obtain ⟨rfl, rfl⟩ := Prod.mk.inj same
    refine .inr ⟨tail, by simp, ?_⟩
    exact (AList.mem_lookup_iff).mpr stored

theorem lookup_moveDir_outside (notSrc : ¬ src <+: q) (notDst : ¬ dst <+: q) :
    (t.moveDir src dst).lookup q = t.lookup q := by
  rcases lookup_foldl_insert (q := q) _ (sweep t src fun _ => true) with same | ⟨n, mem, _⟩
  · rw [moveDir, same, lookup_sweep, if_neg fun h => notSrc h.1]
  · obtain ⟨⟨old, node⟩, _, moved⟩ := List.mem_map.mp mem
    obtain ⟨rfl, _⟩ := Prod.mk.inj moved
    exact absurd (List.prefix_append _ _) notDst

end DirTree

section Linking
variable {ν : Type} [DecidableEq ν] {t : DirTree ν} {p src dst : List ν} {next i : Nat}

/-- Every file of the new tree was a file of the old one, and no two were the same. -/
theorem Linked.of_old {t' : DirTree ν} (h : Linked next t) (old : List ν → List ν)
    (found : ∀ q i, t'.lookup q = some (.file i) → t.lookup (old q) = some (.file i))
    (injective : ∀ q q' i, t'.lookup q = some (.file i) → t'.lookup q' = some (.file i) →
      old q = old q' → q = q') : Linked next t' :=
  ⟨fun q i here => h.1 _ i (found q i here), fun q q' i here here' =>
    injective q q' i here here' (h.2 _ _ i (found q i here) (found q' i here'))⟩

theorem Linked.insert_dir (h : Linked next t) : Linked next (t.insert p .dir) := by
  refine h.of_old id (fun q i here => ?_) fun _ _ _ _ _ same => same
  by_cases isNew : q = p
  · subst isNew
    rw [AList.lookup_insert] at here
    cases here
  · rwa [AList.lookup_insert_ne isNew] at here

theorem Linked.insert_file (h : Linked next t) : Linked (next + 1) (t.insert p (.file next)) := by
  have cases (q : List ν) (i : Nat) (here : (t.insert p (.file next)).lookup q = some (.file i)) :
      (q = p ∧ i = next) ∨ t.lookup q = some (.file i) := by
    by_cases isNew : q = p
    · subst isNew
      rw [AList.lookup_insert] at here
      cases here
      exact .inl ⟨rfl, rfl⟩
    · rw [AList.lookup_insert_ne isNew] at here
      exact .inr here
  constructor
  · intro q i here
    rcases cases q i here with ⟨_, rfl⟩ | old
    · omega
    · have := h.1 q i old
      omega
  · intro q q' i here here'
    rcases cases q i here with ⟨rfl, rfl⟩ | old <;> rcases cases q' i here' with ⟨rfl, same⟩ | old'
    · rfl
    · exact absurd (h.1 q' _ old') (by omega)
    · subst same
      exact absurd (h.1 q _ old) (by omega)
    · exact h.2 q q' i old old'

theorem Linked.erase (h : Linked next t) : Linked next (t.erase p) := by
  refine h.of_old id (fun q i here => ?_) fun _ _ _ _ _ same => same
  by_cases isGone : q = p
  · subst isGone
    rw [AList.lookup_erase] at here
    cases here
  · rwa [AList.lookup_erase_ne isGone] at here

theorem Linked.sweep (h : Linked next t) (gone : List ν → Bool) : Linked next (t.sweep p gone) := by
  refine h.of_old id (fun q i here => ?_) fun _ _ _ _ _ same => same
  rw [DirTree.lookup_sweep] at here
  split at here
  · cases here
  · exact here

theorem Linked.moveFile (h : Linked next t) (here : t.lookup src = some (.file i)) :
    Linked next ((t.erase src).insert dst (.file i)) := by
  have cases (q : List ν) (j : Nat)
      (at_q : ((t.erase src).insert dst (.file i)).lookup q = some (.file j)) :
      (q = dst ∧ j = i) ∨ (q ≠ src ∧ t.lookup q = some (.file j)) := by
    by_cases isNew : q = dst
    · subst isNew
      rw [AList.lookup_insert] at at_q
      cases at_q
      exact .inl ⟨rfl, rfl⟩
    · rw [AList.lookup_insert_ne isNew] at at_q
      by_cases isOld : q = src
      · subst isOld
        rw [AList.lookup_erase] at at_q
        cases at_q
      · rw [AList.lookup_erase_ne isOld] at at_q
        exact .inr ⟨isOld, at_q⟩
  constructor
  · intro q j at_q
    rcases cases q j at_q with ⟨_, rfl⟩ | ⟨_, old⟩
    · exact h.1 src _ here
    · exact h.1 q j old
  · intro q q' j at_q at_q'
    rcases cases q j at_q with ⟨rfl, rfl⟩ | ⟨away, old⟩ <;>
      rcases cases q' j at_q' with ⟨rfl, same⟩ | ⟨away', old'⟩
    · rfl
    · exact absurd (h.2 q' src _ old' here) away'
    · subst same
      exact absurd (h.2 q src _ old here) away
    · exact h.2 q q' j old old'

theorem Linked.moveDir (h : Linked next t) : Linked next (t.moveDir src dst) := by
  constructor
  · intro q i here
    rcases DirTree.lookup_moveDir here with ⟨old, _⟩ | ⟨tail, _, old⟩
    · exact h.1 q i old
    · exact h.1 _ i old
  · intro q q' i here here'
    rcases DirTree.lookup_moveDir here with ⟨old, away⟩ | ⟨tail, rfl, old⟩ <;>
      rcases DirTree.lookup_moveDir here' with ⟨old', away'⟩ | ⟨tail', rfl, old'⟩
    · exact h.2 q q' i old old'
    · exact absurd (h.2 _ _ i old old' ▸ List.prefix_append src tail') away
    · exact absurd (h.2 _ _ i old' old ▸ List.prefix_append src tail) away'
    · rw [List.append_cancel_left (h.2 _ _ i old old')]

end Linking

structure Disk (ν β : Type) [DecidableEq ν] where
  tree : DirTree ν
  /-- The bytes of an inode, with a name or without one. -/
  data : Nat → List β
  /-- The number of the next inode. -/
  next : Nat
  linked : Linked next tree

namespace Disk

variable {ν β : Type} [DecidableEq ν]

/-- Only the top directory. -/
def blank : Disk ν β where
  tree := ∅
  data := fun _ => []
  next := 0
  linked := ⟨fun p i here => by simp at here, fun p q i here => by simp at here⟩

/-- Makes the directory unless it is there. -/
def mkdir (d : Disk ν β) (p : List ν) : Option (Disk ν β) :=
  if d.tree.isDir p then some d
  else if d.tree.free p then
    some { d with tree := d.tree.insert p .dir, linked := d.linked.insert_dir }
  else none

/-- A new empty file, which gets the next inode. -/
def create (d : Disk ν β) (p : List ν) : Option (Disk ν β) :=
  if d.tree.free p then
    some {
      tree := d.tree.insert p (.file d.next)
      data := Function.update d.data d.next []
      next := d.next + 1
      linked := d.linked.insert_file }
  else none

def append (d : Disk ν β) (inode : Nat) (bytes : List β) : Disk ν β :=
  { d with data := Function.update d.data inode (d.data inode ++ bytes) }

@[simp] theorem append_data (d : Disk ν β) (inode : Nat) (bytes : List β) :
    (d.append inode bytes).data inode = d.data inode ++ bytes := Function.update_self ..

/-- Removes a file or an empty directory. -/
def remove (d : Disk ν β) (p : List ν) : Option (Disk ν β) :=
  if p = [] ∨ (d.tree.node p).isNone ∨ d.tree.hasBelow p then none
  else some { d with tree := d.tree.erase p, linked := d.linked.erase }

def sweep (d : Disk ν β) (p : List ν) (gone : List ν → Bool) : Disk ν β :=
  { d with tree := d.tree.sweep p gone, linked := d.linked.sweep gone }

/-- Go's `os.Rename`: a file replaces a file, a directory needs a free name that is not below itself. -/
def rename (d : Disk ν β) (src dst : List ν) : Option (Disk ν β) :=
  match here : d.tree.node src with
  | none => none
  | some (.file i) =>
    if src = dst then some d
    else if d.tree.takesFile dst then
      some {
        d with
        tree := (d.tree.erase src).insert dst (.file i)
        linked := d.linked.moveFile (DirTree.lookup_of_file here) }
    else none
  | some .dir =>
    if src <+: dst then none
    else if d.tree.free dst then
      some { d with tree := d.tree.moveDir src dst, linked := d.linked.moveDir }
    else none

/-- The name leads to the same directory, or to the same file with the same bytes, or to nothing. -/
def SameAt (d d' : Disk ν β) (q : List ν) : Prop :=
  d'.tree.node q = d.tree.node q ∧ ∀ i, d.tree.node q = some (.file i) → d'.data i = d.data i

theorem SameAt.refl (d : Disk ν β) (q : List ν) : SameAt d d q := ⟨rfl, fun _ _ => rfl⟩

theorem SameAt.trans {d d' d'' : Disk ν β} {q : List ν} (h : SameAt d d' q) (h' : SameAt d' d'' q) :
    SameAt d d'' q :=
  ⟨h'.1.trans h.1, fun i here => (h'.2 i (h.1.trans here)).trans (h.2 i here)⟩

variable {d d' : Disk ν β} {p q src dst : List ν}

theorem mkdir_cases (h : d.mkdir p = some d') :
    d' = d ∨ (d.tree.free p = true ∧ d'.tree = d.tree.insert p .dir ∧ d'.data = d.data ∧
      d'.next = d.next) := by
  unfold mkdir at h
  split at h
  · exact .inl (Option.some.inj h).symm
  · split at h
    next isFree =>
      cases h
      exact .inr ⟨isFree, rfl, rfl, rfl⟩
    · cases h

theorem create_cases (h : d.create p = some d') :
    d.tree.free p = true ∧ d'.tree = d.tree.insert p (.file d.next) ∧
      d'.data = Function.update d.data d.next [] ∧ d'.next = d.next + 1 := by
  unfold create at h
  split at h
  next isFree =>
    cases h
    exact ⟨isFree, rfl, rfl, rfl⟩
  · cases h

theorem remove_cases (h : d.remove p = some d') :
    d'.tree = d.tree.erase p ∧ d'.data = d.data ∧ d'.next = d.next := by
  unfold remove at h
  split at h
  · cases h
  · cases h
    exact ⟨rfl, rfl, rfl⟩

theorem rename_cases (h : d.rename src dst = some d') :
    (src = dst ∧ d' = d) ∨ (d'.data = d.data ∧ d'.next = d.next ∧ src ≠ dst ∧
      ((∃ i, d.tree.node src = some (.file i) ∧ d.tree.takesFile dst = true ∧
          d'.tree = (d.tree.erase src).insert dst (.file i)) ∨
        (d.tree.node src = some .dir ∧ ¬ src <+: dst ∧ d'.tree = d.tree.moveDir src dst))) := by
  unfold rename at h
  split at h
  · cases h
  next i here =>
    split at h
    next same => exact .inl ⟨same, (Option.some.inj h).symm⟩
    next apart =>
      split at h
      next takes =>
        cases h
        exact .inr ⟨rfl, rfl, apart, .inl ⟨i, here, takes, rfl⟩⟩
      · cases h
  next here =>
    split at h
    · cases h
    next outside =>
      split at h
      · cases h
        exact .inr ⟨rfl, rfl, fun same => outside (same ▸ List.prefix_rfl), .inr ⟨here, outside, rfl⟩⟩
      · cases h

/-- There is something to rename. -/
theorem rename_source (h : d.rename src dst = some d') : ∃ n, d.tree.node src = some n := by
  unfold rename at h
  split at h
  · cases h
  next i here => exact ⟨_, here⟩
  next here => exact ⟨_, here⟩

theorem rename_file {i : Nat} (h : d.rename src dst = some d') (here : d.tree.node src = some (.file i))
    (apart : src ≠ dst) : d'.data = d.data ∧ d'.next = d.next ∧
      d'.tree = (d.tree.erase src).insert dst (.file i) := by
  rcases rename_cases h with ⟨same, _⟩ | ⟨data, next, _, ⟨j, isFile, _, tree⟩ | ⟨isDir, _⟩⟩
  · exact absurd same apart
  · cases here.symm.trans isFile
    exact ⟨data, next, tree⟩
  · cases here.symm.trans isDir

theorem mkdir_dir (h : d.mkdir p = some d') :
    d'.tree.node p = some .dir ∧ ∀ q, d.tree.node q = some .dir → d'.tree.node q = some .dir := by
  unfold mkdir at h
  split at h
  next isDir =>
    cases h
    exact ⟨of_decide_eq_true isDir, fun q here => here⟩
  · split at h
    next isFree =>
      cases h
      have new : DirTree.node (d.tree.insert p .dir) p = some .dir := by
        unfold DirTree.node
        split
        · rfl
        · exact AList.lookup_insert d.tree
      refine ⟨new, fun q here => ?_⟩
      by_cases same : q = p
      · exact same ▸ new
      · exact (DirTree.node_congr (AList.lookup_insert_ne same)).trans here
    · cases h

theorem mkdirs_dir {places : List (List ν)} (h : places.foldlM mkdir d = some d') :
    (∀ p ∈ places, d'.tree.node p = some .dir) ∧
      ∀ q, d.tree.node q = some .dir → d'.tree.node q = some .dir := by
  induction places generalizing d with
  | nil =>
    cases h
    exact ⟨fun p mem => absurd mem List.not_mem_nil, fun q here => here⟩
  | cons p rest ih =>
    obtain ⟨m, first, later⟩ := Option.bind_eq_some_iff.mp h
    obtain ⟨made, kept⟩ := mkdir_dir first
    obtain ⟨all, still⟩ := ih later
    refine ⟨fun q mem => ?_, fun q here => still q (kept q here)⟩
    rcases List.mem_cons.mp mem with rfl | mem
    · exact still q made
    · exact all q mem

theorem SameAt.of_lookup (same : d'.tree.lookup q = d.tree.lookup q) (data : d'.data = d.data) :
    SameAt d d' q :=
  ⟨DirTree.node_congr same, fun i _ => congrFun data i⟩

theorem sameAt_mkdir (h : d.mkdir p = some d') (other : q ≠ p ∨ d.tree.isDir p = true) :
    SameAt d d' q := by
  rcases mkdir_cases h with rfl | ⟨isFree, tree, data, _⟩
  · exact .refl _ q
  · have notDir : ¬ d.tree.isDir p = true := by
      intro isDir
      simp [DirTree.free, of_decide_eq_true isDir] at isFree
    have apart := other.resolve_right notDir
    exact .of_lookup (by rw [tree, AList.lookup_insert_ne apart]) data

theorem sameAt_create (h : d.create p = some d') (other : q ≠ p) : SameAt d d' q := by
  obtain ⟨_, tree, data, _⟩ := create_cases h
  refine ⟨DirTree.node_congr (by rw [tree, AList.lookup_insert_ne other]), fun i here => ?_⟩
  have older : i < d.next := d.linked.1 q i (DirTree.lookup_of_file here)
  rw [data, Function.update_of_ne (by omega)]

theorem sameAt_append {inode : Nat} (other : d.tree.node q ≠ some (.file inode)) (bytes : List β) :
    SameAt d (d.append inode bytes) q := by
  refine ⟨rfl, fun i here => ?_⟩
  have apart : i ≠ inode := by
    rintro rfl
    exact other here
  exact Function.update_of_ne apart _ _

theorem sameAt_remove (h : d.remove p = some d') (other : q ≠ p) : SameAt d d' q := by
  obtain ⟨tree, data, _⟩ := remove_cases h
  exact .of_lookup (by rw [tree, AList.lookup_erase_ne other]) data

theorem sameAt_sweep (gone : List ν → Bool) (other : ¬ p <+: q) : SameAt d (d.sweep p gone) q :=
  .of_lookup (by rw [sweep, DirTree.lookup_sweep, if_neg fun h => other h.1]) rfl

/-- Only what is at or below the two names of a rename changes. -/
theorem sameAt_rename (h : d.rename src dst = some d') (notSrc : ¬ src <+: q) (notDst : ¬ dst <+: q) :
    SameAt d d' q := by
  rcases rename_cases h with ⟨_, rfl⟩ | ⟨data, _, _, ⟨i, _, _, tree⟩ | ⟨_, _, tree⟩⟩
  · exact .refl _ q
  · have apart : q ≠ dst := fun e => notDst (e ▸ List.prefix_rfl)
    have apart' : q ≠ src := fun e => notSrc (e ▸ List.prefix_rfl)
    exact .of_lookup (by rw [tree, AList.lookup_insert_ne apart, AList.lookup_erase_ne apart']) data
  · exact .of_lookup (by rw [tree, DirTree.lookup_moveDir_outside notSrc notDst]) data

end Disk

end Vidsilo.Library.FileTree
