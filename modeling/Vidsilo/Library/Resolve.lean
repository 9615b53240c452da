import Mathlib.Data.List.DropRight
import Vidsilo.Library.SlashPath

/-!
# Where path texts lead

`resolve` is the place that a path text leads to for a process in `cwd`, when no name on the way is a
link: an absolute list of names, outermost first. Cleaning a text, joining names to it, and cutting off
its last name are operations on the places. Nothing here depends on the repository.
-/
namespace Vidsilo.Library.Resolve
open SlashPath

def resolve (cwd : List Text) (path : Text) : List Text :=
  cleanComponents true ((if path.head? = some '/' then [] else cwd) ++ components path)

/-- Go's `filepath.Dir`. -/
def dirName (path : Text) : Text := clean (path.rdropWhile (· ≠ '/'))

/-- A clean path text with names below it. -/
def under (dir : Text) (below : List Text) : Text :=
  if dir = dot then joinSlash below
  else if dir = ['/'] then '/' :: joinSlash below
  else dir ++ '/' :: joinSlash below

/-- Strictly below a place. -/
def Below (top p : List Text) : Prop := top <+: p ∧ p ≠ top

instance (top p : List Text) : Decidable (Below top p) :=
  inferInstanceAs (Decidable (top <+: p ∧ p ≠ top))

theorem mem_cleanStep {rooted : Bool} {stack : List Text} {c x : Text}
    (mem : x ∈ cleanStep rooted stack c) :
    x ∈ stack ∨ (x = c ∧ Named c) ∨ (x = dotdot ∧ rooted = false) := by
  rcases component_cases c with skip | rfl | named
  · rw [cleanStep_skip skip] at mem
    exact .inl mem
  · cases stack with
    | nil => cases rooted <;> simp_all [cleanStep, dotdot, dot]
    | cons d rest =>
      by_cases up : d = dotdot
      · subst up
        have stays : ¬ (dotdot = [] ∨ dotdot = dot) := by decide
        simp only [cleanStep, if_neg stays, if_true, List.mem_cons] at mem ⊢
        exact .inl (mem.elim .inl id)
      · rw [cleanStep_pop up] at mem
        exact .inl (List.mem_cons_of_mem _ mem)
  · rw [cleanStep_push named] at mem
    rcases List.mem_cons.mp mem with rfl | old
    · exact .inr (.inl ⟨rfl, named⟩)
    · exact .inl old

/-- What cleaning leaves are names of the path, and steps up of a path without a root. -/
theorem mem_cleanComponents {rooted : Bool} {cs : List Text} {x : Text}
    (mem : x ∈ cleanComponents rooted cs) : (x ∈ cs ∧ Named x) ∨ (x = dotdot ∧ rooted = false) := by
  induction cs using List.reverseRecOn with
  | nil => cases mem
  | append_singleton cs c ih =>
    rw [cleanComponents, List.foldl_append, List.foldl_cons, List.foldl_nil, List.mem_reverse] at mem
    rcases mem_cleanStep mem with old | ⟨rfl, named⟩ | up
    · rcases ih (List.mem_reverse.mpr old) with ⟨isIn, named⟩ | up
      · exact .inl ⟨List.mem_append_left _ isIn, named⟩
      · exact .inr up
    · exact .inl ⟨by simp, named⟩
    · exact .inr up

theorem named_cleanComponents {cs : List Text} : ∀ c ∈ cleanComponents true cs, Named c := by
  intro c mem
  rcases mem_cleanComponents mem with ⟨_, named⟩ | ⟨_, no⟩
  · exact named
  · cases no

theorem plain_cleanComponents (rooted : Bool) (path : Text) :
    ∀ c ∈ cleanComponents rooted (components path), c ≠ [] ∧ c ≠ dot ∧ '/' ∉ c := by
  intro c mem
  rcases mem_cleanComponents mem with ⟨isIn, named⟩ | ⟨rfl, _⟩
  · exact ⟨named.1, named.2.1, slash_not_mem_components path c isIn⟩
  · decide

theorem cleanComponents_append (cs ds : List Text) :
    cleanComponents true (cs ++ ds) = (ds.foldl (cleanStep true) (cs.foldl (cleanStep true) [])).reverse := by
  rw [cleanComponents, List.foldl_append]

/-- Cleaning first makes no difference to a walk from anywhere. The induction is on the components from
the right, where the kept ones lead to where all of them do. -/
theorem fold_clean (cs stack : List Text) :
    (cleanComponents false cs).foldl (cleanStep true) stack = cs.foldl (cleanStep true) stack := by
  induction cs using List.reverseRecOn with
  | nil => rfl
  | append_singleton cs c ih =>
    rw [cleanComponents] at ih
    rw [cleanComponents, List.foldl_append, List.foldl_append, ← ih]
    simp only [List.foldl_cons, List.foldl_nil]
    set kept := cs.foldl (cleanStep false) [] with isKept
    rcases component_cases c with skip | rfl | named
    · rw [cleanStep_skip skip, cleanStep_skip skip]
    · cases top : kept with
      | nil => rfl
      | cons d rest =>
        by_cases up : d = dotdot
        · subst up
          have stays : ¬ (dotdot = [] ∨ dotdot = dot) := by decide
          have grows : cleanStep false (dotdot :: rest) dotdot = dotdot :: dotdot :: rest := by
            simp [cleanStep, stays]
          rw [grows, List.reverse_cons, List.foldl_append, List.foldl_cons, List.foldl_nil]
        · have named : Named d := by
            have isIn : d ∈ cleanComponents false cs := by simp [cleanComponents, ← isKept, top]
            exact (mem_cleanComponents isIn).elim And.right fun h => absurd h.1 up
          rw [cleanStep_pop up, List.reverse_cons, List.foldl_append, List.foldl_cons, List.foldl_nil,
            cleanStep_push named, cleanStep_pop up]
    · rw [cleanStep_push named, List.reverse_cons, List.foldl_append, List.foldl_cons, List.foldl_nil]

theorem cleanComponents_self {cs : List Text} (named : ∀ c ∈ cs, Named c) (rooted : Bool) :
    cleanComponents rooted cs = cs :=
  (spells_self cs named).clean rooted

theorem components_cons_slash (path : Text) : components ('/' :: path) = [] :: components path :=
  components_append_slash [] path (by simp)

theorem components_joinSlash_or (cs : List Text) (plain : ∀ c ∈ cs, '/' ∉ c) :
    components (joinSlash cs) = if cs = [] then [[]] else cs := by
  split
  next none => subst none; rfl
  next some => exact components_joinSlash cs some plain

/-- Empty components lead nowhere. -/
theorem cleanComponents_skip (rooted : Bool) (cs ds : List Text) {c : Text} (skip : c = [] ∨ c = dot) :
    cleanComponents rooted (cs ++ c :: ds) = cleanComponents rooted (cs ++ ds) := by
  rw [cleanComponents, cleanComponents, List.foldl_append, List.foldl_append, List.foldl_cons,
    cleanStep_skip skip]

theorem cleanComponents_joined (rooted : Bool) (pre cs : List Text) (plain : ∀ c ∈ cs, '/' ∉ c) :
    cleanComponents rooted (pre ++ components (joinSlash cs)) = cleanComponents rooted (pre ++ cs) := by
  rw [components_joinSlash_or cs plain]
  split
  next none =>
    subst none
    exact cleanComponents_skip rooted pre [] (.inl rfl)
  · rfl

/-- A path and its clean text lead to the same place. -/
theorem resolve_clean (cwd : List Text) (path : Text) : resolve cwd (clean path) = resolve cwd path := by
  have plain (rooted : Bool) := fun c mem => (plain_cleanComponents rooted path c mem).2.2
  by_cases rooted : path.head? = some '/'
  · have isRooted : (path.head? == some '/') = true := by rw [rooted]; rfl
    have skip := cleanComponents_skip true [] (components (joinSlash
      (cleanComponents true (components path)))) (c := []) (.inl rfl)
    have text : clean path = '/' :: joinSlash (cleanComponents true (components path)) := by
      simp [clean, isRooted]
    rw [resolve, resolve, text, if_pos rooted, List.head?_cons, if_pos rfl, List.nil_append,
      components_cons_slash, List.nil_append]
    refine skip.trans ?_
    rw [cleanComponents_joined true [] _ (plain true), List.nil_append,
      cleanComponents_self named_cleanComponents]
  · have isRelative : (path.head? == some '/') = false := by simpa using rooted
    set kept := cleanComponents false (components path) with isKept
    have same : cleanComponents true (cwd ++ kept) = cleanComponents true (cwd ++ components path) := by
      rw [cleanComponents_append, cleanComponents_append, isKept, fold_clean]
    have text : clean path = if joinSlash kept = [] then dot else joinSlash kept := by
      simp [clean, isRelative, isKept]
    rw [resolve, resolve, if_neg rooted, ← same, text]
    split
    next empty =>
      have none : kept = [] := by
        by_contra some
        exact joinSlash_ne_nil some (fun c mem => (plain_cleanComponents false path c mem).1) empty
      have isDot : components dot = [dot] := by decide
      rw [none, if_neg (by decide), isDot]
      exact cleanComponents_skip true cwd [] (.inr rfl)
    next filled =>
      have some : kept ≠ [] := by
        rintro none
        rw [none] at filled
        exact filled rfl
      rw [if_neg (head_joinSlash_ne some fun c mem =>
        ⟨(plain_cleanComponents false path c mem).1, plain false c mem⟩)]
      exact cleanComponents_joined true cwd kept (plain false)

theorem cleanComponents_names (pre : List Text) {names : List Text} (named : ∀ c ∈ names, Named c)
    (rooted : Bool) : cleanComponents rooted (pre ++ names) = cleanComponents rooted pre ++ names := by
  rw [cleanComponents, List.foldl_append, (spells_self names named).fold, List.reverse_append,
    List.reverse_reverse]
  rfl

theorem head_append {a b : Text} (hne : a ≠ []) : (a ++ b).head? = a.head? := by
  obtain ⟨x, xs, rfl⟩ := List.exists_cons_of_ne_nil hne
  rfl

/-- Names joined to a path, as text and as a place. -/
theorem join_names (dir : Text) {names : List Text} (hne : names ≠ []) (h : ∀ c ∈ names, Segment c) :
    join [dir, joinSlash names] = under (clean dir) names ∧
      ∀ cwd, resolve cwd (join [dir, joinSlash names]) = resolve cwd dir ++ names := by
  have named : ∀ c ∈ names, Named c := fun c mem => (h c mem).1
  have plain : ∀ c ∈ names, '/' ∉ c := fun c mem => (h c mem).2
  have text : joinSlash names ≠ [] := joinSlash_ne_nil hne fun c mem => (named c mem).1
  by_cases empty : dir = []
  · subst empty
    have joined : join [[], joinSlash names] = joinSlash names := by
      simp only [join, ne_eq, text, not_true_eq_false, not_false_eq_true, decide_true,
        decide_false, List.filter_cons_of_neg, List.filter_cons_of_pos, List.filter_nil,
        Bool.false_eq_true, joinSlash_singleton, List.cons_ne_nil, if_false]
      exact clean_joinSlash hne h
    rw [joined]
    refine ⟨rfl, fun cwd => ?_⟩
    rw [resolve, if_neg (head_joinSlash hne h), components_joinSlash names hne plain,
      cleanComponents_names cwd named]
    have nowhere : resolve cwd [] = cleanComponents true cwd := by
      refine (cleanComponents_skip true cwd [] (.inl rfl)).trans ?_
      rw [List.append_nil]
    rw [nowhere]
  · have joined : join [dir, joinSlash names] = clean (dir ++ '/' :: joinSlash names) := by
      simp [join, empty, text, joinSlash_cons, joinSlash_singleton]
    have split : components (dir ++ '/' :: joinSlash names) = components dir ++ names := by
      rw [components_append, components_joinSlash names hne plain]
    rw [joined]
    constructor
    · have isHead := head_append (b := '/' :: joinSlash names) empty
      set kept := cleanComponents (dir.head? == some '/') (components dir) with isKept
      have plainKept := plain_cleanComponents (dir.head? == some '/') dir
      have filled (some : kept ≠ []) : joinSlash kept ≠ [] :=
        joinSlash_ne_nil some fun c mem => (plainKept c mem).1
      simp only [clean, isHead, split, cleanComponents_names _ named, ← isKept]
      by_cases none : kept = []
      · rw [none, List.nil_append]
        have nothing : joinSlash [] = [] := rfl
        cases dir.head? == some '/'
        · simp [under, text, nothing]
        · rfl
      · have notDot : joinSlash kept ≠ dot := by
          intro isDot
          have whole := components_joinSlash kept none fun c mem => (plainKept c mem).2.2
          rw [isDot] at whole
          exact (plainKept dot (by rw [← isKept, ← whole]; decide)).2.1 rfl
        have notRoot : joinSlash kept ≠ ['/'] := by
          intro isRoot
          have head := head_joinSlash_ne none fun c mem => ⟨(plainKept c mem).1, (plainKept c mem).2.2⟩
          rw [isRoot] at head
          exact head rfl
        rw [joinSlash_append none hne]
        cases dir.head? == some '/'
        · simp [under, filled none, notDot, notRoot]
        · simp [under, filled none, dot]
    · intro cwd
      rw [resolve_clean, resolve, resolve, head_append empty, split, ← List.append_assoc,
        cleanComponents_names _ named]

/-- The name of a file in a directory, without cleaning. -/
def joinPath (dir name : Text) : Text :=
  if dir.getLast? = some '/' then dir ++ name else dir ++ '/' :: name

theorem resolve_joinPath (cwd : List Text) {dir name : Text} (hne : dir ≠ []) (h : Segment name) :
    resolve cwd (joinPath dir name) = resolve cwd dir ++ [name] := by
  have named : ∀ c ∈ [name], Named c := by simpa using h.1
  have single : components name = [name] := List.splitOn_eq_singleton h.2
  unfold joinPath
  split
  next slash =>
    obtain ⟨front, rfl⟩ : ∃ front, dir = front ++ ['/'] :=
      ⟨dir.dropLast, (List.dropLast_append_getLast? _ slash).symm⟩
    have split : components (front ++ ['/'] ++ name) = components front ++ [name] := by
      rw [List.append_assoc, List.singleton_append, components_append, single]
    have split' : components (front ++ ['/']) = components front ++ [[]] := components_append front []
    rw [resolve, resolve, head_append hne, split, split', ← List.append_assoc,
      cleanComponents_names _ named, ← List.append_assoc, cleanComponents_skip true _ [] (.inl rfl),
      List.append_nil]
  · rw [resolve, resolve, head_append hne, components_append, single, ← List.append_assoc,
      cleanComponents_names _ named]

theorem clean_ne_nil (path : Text) : clean path ≠ [] := by
  simp only [clean]
  split
  · simp
  · split
    · decide
    · assumption

/-- A path text is a directory part, empty or up to a slash, and a last component. -/
theorem exists_last (path : Text) : ∃ last : Text, '/' ∉ last ∧
    path = path.rdropWhile (· ≠ '/') ++ last ∧
      (path.rdropWhile (· ≠ '/') = [] ∨ ∃ front, path.rdropWhile (· ≠ '/') = front ++ ['/']) := by
  refine ⟨path.rtakeWhile (· ≠ '/'), fun mem => ?_, (List.rdropWhile_append_rtakeWhile ..).symm, ?_⟩
  · simpa using List.mem_rtakeWhile_imp mem
  · by_cases empty : path.rdropWhile (· ≠ '/') = []
    · exact .inl empty
    · have slash := List.rdropWhile_last_not _ _ empty
      have isSlash : (path.rdropWhile (· ≠ '/')).getLast? = some '/' := by
        rw [List.getLast?_eq_some_getLast empty]
        simpa using slash
      exact .inr ⟨_, (List.dropLast_append_getLast? _ isSlash).symm⟩

/-- A path that ends in a name leads to that name in the place of its directory. -/
theorem resolve_dirName (cwd : List Text) {path name : Text} {front : List Text}
    (split : components path = front ++ [name]) (named : Named name) :
    resolve cwd path = resolve cwd (dirName path) ++ [name] := by
  obtain ⟨last, plain, whole, part⟩ := exists_last path
  have ends : ∀ c ∈ [name], Named c := by simpa using named
  have single : components last = [last] := List.splitOn_eq_singleton plain
  rw [dirName, resolve_clean]
  rcases part with none | ⟨parent, isDir⟩
  · rw [none, List.nil_append] at whole
    have alone : [last] = front ++ [name] := by rw [← single, ← whole, split]
    obtain ⟨rfl, same⟩ := List.append_inj' (show [] ++ [last] = front ++ [name] from alone) rfl
    obtain rfl := List.singleton_inj.mp same
    have notSlash : path.head? ≠ some '/' := by
      rw [whole]
      exact fun isHead => plain (List.mem_of_mem_head? isHead)
    rw [none, resolve, resolve, if_neg notSlash, split, List.nil_append,
      cleanComponents_names cwd ends]
    refine congrArg (· ++ [last]) ?_
    exact ((cleanComponents_skip true cwd [] (.inl rfl)).trans (by rw [List.append_nil])).symm
  · have isPath : path = (parent ++ ['/']) ++ last := isDir ▸ whole
    have split' : components path = components parent ++ [last] := by
      rw [isPath, List.append_assoc, List.singleton_append, components_append, single]
    have trail : components (parent ++ ['/']) = components parent ++ [[]] := components_append parent []
    obtain ⟨rfl, same⟩ := List.append_inj' (split.symm.trans split') rfl
    obtain rfl := List.singleton_inj.mp same
    have isHead : path.head? = (parent ++ ['/']).head? := by
      rw [isPath, head_append (by simp)]
    rw [isDir, resolve, resolve, split', ← isHead, trail, ← List.append_assoc,
      cleanComponents_names _ ends, ← List.append_assoc, cleanComponents_skip true _ [] (.inl rfl),
      List.append_nil]

/-- A text below a directory ends in the names below it. -/
theorem components_under (dir : Text) {names : List Text} (hne : names ≠ [])
    (plain : ∀ c ∈ names, '/' ∉ c) : ∃ front, components (under dir names) = front ++ names := by
  have split := components_joinSlash names hne plain
  unfold under
  split_ifs
  · exact ⟨[], by rw [split, List.nil_append]⟩
  · exact ⟨[[]], by rw [components_cons_slash, split, List.singleton_append]⟩
  · exact ⟨components dir, by rw [components_append, split]⟩

end Vidsilo.Library.Resolve
