import Mathlib.Data.List.Basic
import Mathlib.Data.List.Infix

/-!
# Slash-separated paths: components, spellings and lexical cleaning

A path text is split at `/`. `clean` is the documented `path.Clean` of Go (Unix):
empty and `.` components go, `..` undoes the last real component, a rooted path
never climbs above `/`. Directories are lists of components, outermost first.

`Neutral` and `Spells` describe the same thing by a grammar, without a stack: a
text spells a directory when it lists its components in order, with stretches in
between that undo themselves. `clean_spells` and `spells_unique` connect the two.
Nothing here depends on the repository.
-/
namespace Vidsilo.Library.SlashPath

abbrev Text := List Char

instance : LawfulBEq Text := List.instLawfulBEq

def components (p : Text) : List Text := p.splitOn '/'

def joinSlash (cs : List Text) : Text := ['/'].intercalate cs

def dot : Text := ['.']
def dotdot : Text := ['.', '.']

/-- A component that names something: it survives cleaning unless it is undone. -/
def Named (c : Text) : Prop := c ≠ [] ∧ c ≠ dot ∧ c ≠ dotdot

/-- A single path segment. -/
def Segment (c : Text) : Prop := Named c ∧ '/' ∉ c

instance (c : Text) : Decidable (Named c) :=
  inferInstanceAs (Decidable (c ≠ [] ∧ c ≠ dot ∧ c ≠ dotdot))

instance (c : Text) : Decidable (Segment c) :=
  inferInstanceAs (Decidable (Named c ∧ '/' ∉ c))

/-- No part of a split holds the separator. -/
theorem not_mem_of_mem_splitOn {α : Type*} [BEq α] [LawfulBEq α] {sep : α} {xs w : List α}
    (h : w ∈ xs.splitOn sep) : sep ∉ w := by
  induction xs generalizing w with
  | nil => simp_all
  | cons x xs ih =>
    rw [List.splitOn_cons_eq_if_modifyHead] at h
    split at h
    · rcases List.mem_cons.mp h with rfl | later
      · exact List.not_mem_nil
      · exact ih later
    · next other =>
      cases parts : xs.splitOn sep with
      | nil => exact absurd parts (List.splitOn_ne_nil _ _)
      | cons first rest =>
        rw [parts, List.modifyHead_cons] at h
        rcases List.mem_cons.mp h with rfl | later
        · rw [List.mem_cons, not_or]
          exact ⟨fun same => other (beq_iff_eq.mpr same.symm), ih (by simp [parts])⟩
        · exact ih (by simp [parts, later])

theorem not_mem_intercalate {α : Type*} {c sep : α} {parts : List (List α)} (other : c ≠ sep)
    (h : ∀ part ∈ parts, c ∉ part) : c ∉ [sep].intercalate parts := by
  induction parts with
  | nil => exact List.not_mem_nil
  | cons part rest ih =>
    have first := h part List.mem_cons_self
    have later := ih fun part mem => h part (List.mem_cons_of_mem _ mem)
    cases rest with
    | nil => simpa [List.intercalate] using first
    | cons next rest =>
      rw [List.intercalate_cons_cons]
      simp only [List.mem_append, List.mem_singleton, not_or]
      exact ⟨⟨first, other⟩, later⟩

theorem mem_intercalate {α : Type*} {c sep : α} {part : List α} {parts : List (List α)}
    (mem : part ∈ parts) (h : c ∈ part) : c ∈ [sep].intercalate parts := by
  induction parts with
  | nil => cases mem
  | cons first rest ih =>
    cases rest with
    | nil =>
      obtain rfl := List.mem_singleton.mp mem
      simpa [List.intercalate] using h
    | cons next rest =>
      rw [List.intercalate_cons_cons]
      rcases List.mem_cons.mp mem with rfl | later
      · exact List.mem_append_left _ (List.mem_append_left _ h)
      · exact List.mem_append_right _ (ih later)

/-- A text is cut at the first separator. -/
theorem cut_append {sep : Char} {first : Text} (plain : sep ∉ first) (rest : Text) :
    (first ++ sep :: rest).takeWhile (· ≠ sep) = first ∧
      (first ++ sep :: rest).dropWhile (· ≠ sep) = sep :: rest := by
  have before : ∀ c ∈ first, decide (c ≠ sep) = true := by
    intro c mem
    rw [decide_eq_true_eq]
    intro same
    exact plain (same ▸ mem)
  constructor
  · rw [List.takeWhile_append_of_pos before, List.takeWhile_cons_of_neg (by simp), List.append_nil]
  · rw [List.dropWhile_append_of_pos before, List.dropWhile_cons_of_neg (by simp)]

theorem slash_not_mem_components (p : Text) : ∀ c ∈ components p, '/' ∉ c :=
  fun _ => not_mem_of_mem_splitOn

theorem joinSlash_singleton (c : Text) : joinSlash [c] = c := by
  simp [joinSlash]

theorem joinSlash_cons (c d : Text) (cs : List Text) :
    joinSlash (c :: d :: cs) = c ++ '/' :: joinSlash (d :: cs) := by
  simp [joinSlash, List.intercalate_cons_cons]

theorem joinSlash_append {cs ds : List Text} (hc : cs ≠ []) (hd : ds ≠ []) :
    joinSlash (cs ++ ds) = joinSlash cs ++ '/' :: joinSlash ds := by
  induction cs with
  | nil => exact absurd rfl hc
  | cons c rest ih =>
    cases rest with
    | nil =>
      obtain ⟨d, ds, rfl⟩ := List.exists_cons_of_ne_nil hd
      simp [joinSlash]
    | cons e es =>
      rw [List.cons_append, List.cons_append, joinSlash_cons, joinSlash_cons, ← List.cons_append,
        ih (by simp)]
      simp

theorem components_append_slash (c p : Text) (hc : '/' ∉ c) :
    components (c ++ '/' :: p) = c :: components p :=
  List.splitOn_append_cons_self_of_not_mem hc p

theorem components_joinSlash (cs : List Text) (hne : cs ≠ []) (h : ∀ c ∈ cs, '/' ∉ c) :
    components (joinSlash cs) = cs := by
  induction cs with
  | nil => exact absurd rfl hne
  | cons c rest ih =>
    cases rest with
    | nil =>
      simpa [joinSlash, components] using List.splitOn_eq_singleton (h c (by simp))
    | cons d ds =>
      rw [joinSlash_cons, components_append_slash _ _ (h c (by simp)),
        ih (by simp) (fun x hx => h x (by simp [hx]))]

theorem joinSlash_components (p : Text) : joinSlash (components p) = p :=
  List.intercalate_splitOn '/'

/-- A pattern without the separator lies inside one of the two sides. -/
theorem infix_append_cons_iff {w a b : Text} {x : Char} (hx : x ∉ w) (hne : w ≠ []) :
    w <:+: a ++ x :: b ↔ w <:+: a ∨ w <:+: b := by
  constructor
  · rintro ⟨s, t, h⟩
    rw [List.append_assoc] at h
    rcases List.append_eq_append_iff.mp h with ⟨u, hu, hrest⟩ | ⟨u, hu, hrest⟩
    · -- the pattern starts inside `a`
      rcases List.append_eq_append_iff.mp hrest with ⟨v, hv, _⟩ | ⟨v, hv, htail⟩
      · exact Or.inl ⟨s, v, by rw [hu, hv, List.append_assoc]⟩
      · cases v with
        | nil => exact Or.inl ⟨s, [], by simp [hu, hv]⟩
        | cons y v =>
          simp only [List.cons_append, List.cons.injEq] at htail
          exact absurd (by rw [hv, htail.1]; simp) hx
    · cases u with
      | nil =>
        cases w with
        | nil => exact absurd rfl hne
        | cons y w =>
          simp only [List.nil_append, List.cons_append, List.cons.injEq] at hrest
          exact absurd (by simp [hrest.1]) hx
      | cons y u =>
        simp only [List.cons_append, List.cons.injEq] at hrest
        exact Or.inr ⟨u, t, by rw [List.append_assoc]; exact hrest.2.symm⟩
  · rintro (⟨s, t, rfl⟩ | ⟨s, t, rfl⟩)
    · exact ⟨s, t ++ x :: b, by simp⟩
    · exact ⟨a ++ x :: s, t, by simp⟩

theorem infix_joinSlash_iff {w : Text} (hw : '/' ∉ w) (hne : w ≠ []) (cs : List Text) :
    w <:+: joinSlash cs ↔ ∃ c ∈ cs, w <:+: c := by
  induction cs with
  | nil => simp [joinSlash, hne]
  | cons c rest ih =>
    cases rest with
    | nil => simp [joinSlash]
    | cons d ds =>
      rw [joinSlash_cons, infix_append_cons_iff hw hne, ih]
      simp

/-- One component against the stack of kept components, innermost first. -/
def cleanStep (rooted : Bool) (stack : List Text) (c : Text) : List Text :=
  if c = [] ∨ c = dot then stack
  else if c = dotdot then
    match stack with
    | [] => if rooted then [] else [dotdot]
    | d :: rest => if d = dotdot then dotdot :: stack else rest
  else c :: stack

def cleanComponents (rooted : Bool) (cs : List Text) : List Text :=
  (cs.foldl (cleanStep rooted) []).reverse

/-- Go's `path.Clean`, and `filepath.Clean` on Unix. -/
def clean (p : Text) : Text :=
  let rooted := p.head? == some '/'
  let out := joinSlash (cleanComponents rooted (components p))
  if rooted then '/' :: out
  else if out = [] then dot else out

/-- Go's `path.Join`: empty elements are ignored, the rest is cleaned. -/
def join (elems : List Text) : Text :=
  let kept := elems.filter (· ≠ [])
  if kept = [] then [] else clean (joinSlash kept)

@[simp] theorem cleanStep_skip {rooted : Bool} {stack : List Text} {c : Text}
    (h : c = [] ∨ c = dot) : cleanStep rooted stack c = stack := by
  simp [cleanStep, h]

@[simp] theorem cleanStep_push {rooted : Bool} {stack : List Text} {c : Text} (h : Named c) :
    cleanStep rooted stack c = c :: stack := by
  obtain ⟨h1, h2, h3⟩ := h
  simp [cleanStep, h1, h2, h3]

theorem cleanStep_pop {rooted : Bool} {stack : List Text} {d : Text} (h : d ≠ dotdot) :
    cleanStep rooted (d :: stack) dotdot = stack := by
  have hd : ¬ (dotdot = [] ∨ dotdot = dot) := by decide
  simp [cleanStep, hd, h]

/-- Every component is skipped, pops, or is pushed. -/
theorem component_cases (c : Text) : (c = [] ∨ c = dot) ∨ c = dotdot ∨ Named c := by
  by_cases h1 : c = []
  · exact Or.inl (Or.inl h1)
  · by_cases h2 : c = dot
    · exact Or.inl (Or.inr h2)
    · by_cases h3 : c = dotdot
      · exact Or.inr (Or.inl h3)
      · exact Or.inr (Or.inr ⟨h1, h2, h3⟩)

/-- Components that lead back to where they start, without climbing above it. -/
inductive Neutral : List Text → Prop where
  | nil : Neutral []
  | skip {c : Text} {cs : List Text} (hc : c = [] ∨ c = dot) (rest : Neutral cs) :
      Neutral (c :: cs)
  | undo {c : Text} {inner rest : List Text} (hc : Named c) (hi : Neutral inner)
      (hr : Neutral rest) : Neutral (c :: (inner ++ dotdot :: rest))

/-- The components list the names of a directory in order, with neutral
stretches in between. -/
inductive Spells : List Text → List Text → Prop where
  | here {n : List Text} (hn : Neutral n) : Spells [] n
  | down {n : List Text} {c : Text} {dir rest : List Text} (hn : Neutral n) (hc : Named c)
      (below : Spells dir rest) : Spells (c :: dir) (n ++ c :: rest)

theorem Neutral.append {a b : List Text} (ha : Neutral a) (hb : Neutral b) : Neutral (a ++ b) := by
  induction ha with
  | nil => exact hb
  | skip hc _ ih => exact .skip hc ih
  | undo hc hi _ _ ih =>
    simp only [List.cons_append, List.append_assoc]
    exact .undo hc hi ih

theorem Spells.append_neutral {dir cs n : List Text} (h : Spells dir cs) (hn : Neutral n) :
    Spells dir (cs ++ n) := by
  induction h with
  | here hm => exact .here (hm.append hn)
  | down hm hc _ ih =>
    rw [List.append_assoc, List.cons_append]
    exact .down hm hc ih

theorem Spells.push {dir cs : List Text} {c : Text} (h : Spells dir cs) (hc : Named c) :
    Spells (dir ++ [c]) (cs ++ [c]) := by
  induction h with
  | here hm => exact .down hm hc (.here .nil)
  | down hm hd _ ih =>
    rw [List.append_assoc, List.cons_append]
    exact .down hm hd ih

/-- The last name of a spelled directory, and the neutral stretch after it. -/
theorem Spells.last {dir cs : List Text} {d : Text} (h : Spells (dir ++ [d]) cs) :
    ∃ pre post, cs = pre ++ d :: post ∧ Spells dir pre ∧ Neutral post := by
  induction dir generalizing cs with
  | nil =>
    cases h with
    | down hn hc below =>
      cases below with
      | here hm => exact ⟨_, _, rfl, .here hn, hm⟩
  | cons e rest ih =>
    cases h with
    | @down n _ _ tail hn hc below =>
      obtain ⟨pre, post, rfl, hpre, hpost⟩ := ih below
      exact ⟨n ++ e :: pre, post, by simp, .down hn hc hpre, hpost⟩

theorem Spells.pop {dir cs : List Text} {d : Text} (h : Spells (dir ++ [d]) cs) (hd : Named d) :
    Spells dir (cs ++ [dotdot]) := by
  obtain ⟨pre, post, rfl, hpre, hpost⟩ := h.last
  rw [List.append_assoc, List.cons_append]
  exact hpre.append_neutral (.undo hd hpost .nil)

theorem Spells.named {dir cs : List Text} (h : Spells dir cs) : ∀ d ∈ dir, Named d := by
  induction h with
  | here => simp
  | down _ hc _ ih =>
    intro d hd
    rcases List.mem_cons.mp hd with rfl | hd
    · exact hc
    · exact ih d hd

theorem Spells.mem {dir cs : List Text} (h : Spells dir cs) : ∀ d ∈ dir, d ∈ cs := by
  induction h with
  | here => simp
  | down _ _ _ ih =>
    intro d hd
    rcases List.mem_cons.mp hd with rfl | hd
    · simp
    · exact List.mem_append_right _ (List.mem_cons_of_mem _ (ih d hd))

theorem Neutral.fold {n : List Text} (h : Neutral n) (rooted : Bool) (stack : List Text) :
    n.foldl (cleanStep rooted) stack = stack := by
  induction h generalizing stack with
  | nil => rfl
  | skip hc _ ih => rw [List.foldl_cons, cleanStep_skip hc, ih]
  | undo hc _ _ ihi ihr =>
    rw [List.foldl_cons, cleanStep_push hc, List.foldl_append, ihi, List.foldl_cons,
      cleanStep_pop hc.2.2, ihr]

theorem Spells.fold {dir cs : List Text} (h : Spells dir cs) (rooted : Bool) (stack : List Text) :
    cs.foldl (cleanStep rooted) stack = dir.reverse ++ stack := by
  induction h generalizing stack with
  | here hn => simpa using hn.fold rooted stack
  | down hn hc _ ih =>
    rw [List.foldl_append, hn.fold, List.foldl_cons, cleanStep_push hc, ih]
    simp

/-- Once a `..` is left over it stays. -/
theorem dotdot_mem_cleanStep {stack : List Text} (c : Text) (h : dotdot ∈ stack) :
    dotdot ∈ cleanStep false stack c := by
  rcases component_cases c with hc | rfl | hc
  · rwa [cleanStep_skip hc]
  · cases stack with
    | nil => simp at h
    | cons d rest =>
      by_cases hd : d = dotdot
      · subst hd
        have hn : ¬ (dotdot = [] ∨ dotdot = dot) := by decide
        simp [cleanStep, hn]
      · rw [cleanStep_pop hd]
        exact (List.mem_cons.mp h).resolve_left (fun e => hd e.symm)
  · rw [cleanStep_push hc]
    exact List.mem_cons_of_mem _ h

/-- Cleaning without a left-over `..` yields exactly the directory that the
components spell. The induction is on the components from the right, where the
stack is the directory spelled so far. -/
theorem spells_of_clean (cs : List Text)
    (h : dotdot ∉ cleanComponents false cs) : Spells (cleanComponents false cs) cs := by
  induction cs using List.reverseRecOn with
  | nil => exact .here .nil
  | append_singleton cs c ih =>
    simp only [cleanComponents, List.foldl_append, List.foldl_cons, List.foldl_nil] at h ⊢
    set stack := cs.foldl (cleanStep false) [] with hstack
    have hprev : dotdot ∉ cleanComponents false cs := by
      intro hm
      exact h (List.mem_reverse.mpr (dotdot_mem_cleanStep c (by
        simpa [cleanComponents, hstack] using hm)))
    have hsp : Spells stack.reverse cs := ih hprev
    rcases component_cases c with hc | rfl | hc
    · rw [cleanStep_skip hc]
      exact hsp.append_neutral (.skip hc .nil)
    · cases hs : stack with
      | nil =>
        rw [hs] at h
        exact absurd (show dotdot ∈ _ by decide) h
      | cons d rest =>
        rw [hs, List.reverse_cons] at hsp
        have hd : Named d := hsp.named d (by simp)
        rw [cleanStep_pop hd.2.2]
        exact hsp.pop hd
    · rw [cleanStep_push hc, List.reverse_cons]
      exact hsp.push hc

theorem Spells.clean {dir cs : List Text} (h : Spells dir cs) (rooted : Bool) :
    cleanComponents rooted cs = dir := by
  simp [cleanComponents, h.fold]

theorem Spells.unique {dir dir' cs : List Text} (h : Spells dir cs) (h' : Spells dir' cs) :
    dir = dir' := by
  rw [← h.clean false, h'.clean false]

/-- A directory spells itself. -/
theorem spells_self (dir : List Text) (h : ∀ d ∈ dir, Named d) : Spells dir dir := by
  induction dir with
  | nil => exact .here .nil
  | cons d rest ih =>
    exact .down (n := []) .nil (h d (by simp)) (ih (fun x hx => h x (by simp [hx])))

/-- A neutral stretch ends in a component that cleaning drops. -/
theorem Neutral.getLast {n : List Text} (h : Neutral n) (c : Text) (hc : n.getLast? = some c) :
    c = [] ∨ c = dot ∨ c = dotdot := by
  induction h with
  | nil => simp at hc
  | @skip d cs hd rest ih =>
    cases cs with
    | nil =>
      simp only [List.getLast?_singleton, Option.some.injEq] at hc
      subst hc
      exact hd.elim Or.inl (fun e => Or.inr (Or.inl e))
    | cons => exact ih (by simpa [List.getLast?_cons_cons] using hc)
  | @undo d inner rest _ _ _ _ ihr =>
    cases rest with
    | nil =>
      have hlast : (d :: (inner ++ [dotdot])).getLast? = some dotdot := by
        rw [← List.cons_append, List.getLast?_append]; rfl
      rw [hlast, Option.some.injEq] at hc
      exact Or.inr (Or.inr hc.symm)
    | cons e es =>
      apply ihr
      rw [← List.cons_append, List.getLast?_append] at hc
      simpa [List.getLast?_cons_cons] using hc

/-- Above the start every `..` is kept. -/
theorem cleanStep_up (n : Nat) :
    cleanStep false (List.replicate n dotdot) dotdot = List.replicate (n + 1) dotdot := by
  have stays : ¬ (dotdot = [] ∨ dotdot = dot) := by decide
  cases n with
  | zero => simp [cleanStep, stays]
  | succ n => simp [cleanStep, stays, List.replicate_succ]

/-- A relative path goes up a number of steps and then down along names. Below a directory the steps
undo its last names first. The induction is on the components from the right. -/
theorem clean_below (cs : List Text) : ∃ (up : Nat) (down : List Text), (∀ c ∈ down, Named c ∧ c ∈ cs) ∧
    ∀ dir : List Text, (∀ d ∈ dir, Named d) → cleanComponents false (dir ++ cs) =
      List.replicate (up - dir.length) dotdot ++ dir.take (dir.length - up) ++ down := by
  induction cs using List.reverseRecOn with
  | nil =>
    refine ⟨0, [], by simp, fun dir named => ?_⟩
    simpa using (spells_self dir named).clean false
  | append_singleton cs c ih =>
    obtain ⟨up, down, named, cleaned⟩ := ih
    have step : ∀ dir : List Text, (∀ d ∈ dir, Named d) →
        cleanComponents false (dir ++ (cs ++ [c])) = (cleanStep false (down.reverse ++
          (List.replicate (up - dir.length) dotdot ++ dir.take (dir.length - up)).reverse) c).reverse := by
      intro dir dirNamed
      have before := cleaned dir dirNamed
      rw [cleanComponents, List.reverse_eq_iff] at before
      rw [cleanComponents, ← List.append_assoc, List.foldl_append, before, List.foldl_cons,
        List.foldl_nil, List.reverse_append]
    have kept : ∀ x ∈ down, Named x ∧ x ∈ cs ++ [c] :=
      fun x mem => ⟨(named x mem).1, List.mem_append_left _ (named x mem).2⟩
    rcases component_cases c with skip | rfl | name
    · refine ⟨up, down, kept, fun dir dirNamed => ?_⟩
      rw [step dir dirNamed, cleanStep_skip skip]
      simp
    · cases down using List.reverseRecOn with
      | nil =>
        refine ⟨up + 1, [], by simp, fun dir dirNamed => ?_⟩
        rw [step dir dirNamed]
        by_cases within : up < dir.length
        · have last := List.take_succ_eq_append_getElem (show dir.length - (up + 1) < dir.length by omega)
          have length : dir.length - (up + 1) + 1 = dir.length - up := by omega
          have above : up - dir.length = 0 := by omega
          have above' : up + 1 - dir.length = 0 := by omega
          rw [length] at last
          rw [last, above, above', List.replicate_zero, List.nil_append, List.reverse_append,
            List.reverse_singleton, List.singleton_append, List.reverse_nil, List.nil_append,
            cleanStep_pop (dirNamed _ (List.getElem_mem _)).2.2, List.reverse_reverse,
            List.append_nil, List.nil_append]
        · have below : dir.length - up = 0 := by omega
          have below' : dir.length - (up + 1) = 0 := by omega
          have above : up + 1 - dir.length = up - dir.length + 1 := by omega
          rw [below, below', above]
          simp [cleanStep_up]
      | append_singleton down d =>
        refine ⟨up, down, fun x mem => kept x (List.mem_append_left _ mem), fun dir dirNamed => ?_⟩
        rw [step dir dirNamed, List.reverse_append, List.reverse_singleton, List.singleton_append,
          List.cons_append, cleanStep_pop (named d (by simp)).1.2.2]
        simp
    · refine ⟨up, down ++ [c], fun x mem => ?_, fun dir dirNamed => ?_⟩
      · rcases List.mem_append.mp mem with old | new
        · exact kept x old
        · rw [List.mem_singleton.mp new]
          exact ⟨name, by simp⟩
      · rw [step dir dirNamed, cleanStep_push name]
        simp

theorem joinSlash_ne_nil {cs : List Text} (hne : cs ≠ []) (h : ∀ c ∈ cs, c ≠ []) :
    joinSlash cs ≠ [] := by
  cases cs with
  | nil => exact absurd rfl hne
  | cons c rest =>
    have hc := h c (by simp)
    cases rest with
    | nil => simpa [joinSlash] using hc
    | cons d ds => rw [joinSlash_cons]; simp

theorem clean_of_spells {p : Text} {dir : List Text} (hp : p.head? ≠ some '/') (hne : dir ≠ [])
    (h : Spells dir (components p)) : clean p = joinSlash dir := by
  have hr : (p.head? == some '/') = false := by simpa using hp
  have hout : joinSlash dir ≠ [] := joinSlash_ne_nil hne (fun c hc => (h.named c hc).1)
  simp [clean, hr, h.clean, hout]

theorem head_joinSlash_ne {cs : List Text} (hne : cs ≠ []) (h : ∀ c ∈ cs, c ≠ [] ∧ '/' ∉ c) :
    (joinSlash cs).head? ≠ some '/' := by
  cases cs with
  | nil => exact absurd rfl hne
  | cons c rest =>
    obtain ⟨hn, hs⟩ := h c (by simp)
    obtain ⟨x, xs, rfl⟩ := List.exists_cons_of_ne_nil hn
    have hx : x ≠ '/' := fun e => hs (by simp [e])
    cases rest with
    | nil => simpa [joinSlash] using hx
    | cons d ds => rw [joinSlash_cons]; simpa using hx

theorem head_joinSlash {cs : List Text} (hne : cs ≠ []) (h : ∀ c ∈ cs, Segment c) :
    (joinSlash cs).head? ≠ some '/' :=
  head_joinSlash_ne hne fun c hc => ⟨(h c hc).1.1, (h c hc).2⟩

/-- Joined segments are already clean. -/
theorem clean_joinSlash {cs : List Text} (hne : cs ≠ []) (h : ∀ c ∈ cs, Segment c) :
    clean (joinSlash cs) = joinSlash cs := by
  apply clean_of_spells (head_joinSlash hne h) hne
  rw [components_joinSlash cs hne (fun c hc => (h c hc).2)]
  exact spells_self cs (fun c hc => (h c hc).1)

theorem components_append (a b : Text) : components (a ++ '/' :: b) = components a ++ components b :=
  List.splitOn_append_cons_self _ _

theorem components_joinSlash_flat (cs : List Text) (hne : cs ≠ []) :
    components (joinSlash cs) = cs.flatMap components := by
  induction cs with
  | nil => exact absurd rfl hne
  | cons c rest ih =>
    cases rest with
    | nil => simp [joinSlash]
    | cons d ds =>
      rw [joinSlash_cons, components_append, ih (by simp)]
      rfl

/-- Cleaning skips the elements that `join` leaves out. -/
theorem clean_filter (rooted : Bool) (elems : List Text) :
    cleanComponents rooted ((elems.filter (· ≠ [])).flatMap components) =
      cleanComponents rooted (elems.flatMap components) := by
  have fold (stack : List Text) :
      ((elems.filter (· ≠ [])).flatMap components).foldl (cleanStep rooted) stack =
        (elems.flatMap components).foldl (cleanStep rooted) stack := by
    induction elems generalizing stack with
    | nil => rfl
    | cons e rest ih =>
      by_cases empty : e = []
      · subst empty
        have skipped : cleanStep rooted stack [] = stack := cleanStep_skip (.inl rfl)
        simpa [components, skipped] using ih stack
      · simp [empty, List.foldl_append, ← ih]
  exact congrArg List.reverse (fold [])

/-- The relative path with these components, and `.` for none. -/
def relative (cs : List Text) : Text := if joinSlash cs = [] then dot else joinSlash cs

theorem relative_eq {cs : List Text} (hne : cs ≠ []) (h : ∀ c ∈ cs, c ≠ []) :
    relative cs = joinSlash cs := by
  rw [relative, if_neg (joinSlash_ne_nil hne h)]

theorem join_relative {first : Text} (rest : List Text) (hne : first ≠ [])
    (hhead : first.head? ≠ some '/') : join (first :: rest) =
      relative (cleanComponents false ((first :: rest).flatMap components)) := by
  have kept : (first :: rest).filter (· ≠ []) = first :: rest.filter (· ≠ []) := by simp [hne]
  have head : ((joinSlash (first :: rest.filter (· ≠ []))).head? == some '/') = false := by
    obtain ⟨x, xs, rfl⟩ := List.exists_cons_of_ne_nil hne
    have hx : x ≠ '/' := by simpa using hhead
    cases rest.filter (· ≠ []) with
    | nil => simpa [joinSlash] using hx
    | cons d ds => rw [joinSlash_cons]; simpa using hx
  simp only [join, kept, List.cons_ne_nil, if_false, clean, head, relative]
  rw [components_joinSlash_flat _ (by simp), ← kept, clean_filter]
  rfl

/-- Steps up before names are clean, and so are the names after them. -/
theorem clean_steps (up : Nat) {down : List Text} (named : ∀ c ∈ down, Named c) :
    cleanComponents false (List.replicate up dotdot ++ down) = List.replicate up dotdot ++ down := by
  have climbed : (List.replicate up dotdot).foldl (cleanStep false) [] = List.replicate up dotdot := by
    induction up with
    | zero => rfl
    | succ n ih =>
      rw [List.replicate_succ', List.foldl_append, ih, ← List.replicate_succ']
      exact cleanStep_up n
  rw [cleanComponents, List.foldl_append, climbed, (spells_self down named).fold, List.reverse_append,
    List.reverse_reverse, List.reverse_replicate]

/-- Names joined to a clean relative path. -/
theorem join_steps (up : Nat) {down cs : List Text} (segments : ∀ c ∈ down, Segment c) (hne : cs ≠ [])
    (h : ∀ c ∈ cs, Segment c) : join [relative (List.replicate up dotdot ++ down), joinSlash cs] =
      joinSlash (List.replicate up dotdot ++ down ++ cs) := by
  have plain : ∀ c ∈ List.replicate up dotdot ++ down, c ≠ [] ∧ '/' ∉ c := by
    intro c mem
    rcases List.mem_append.mp mem with isUp | isDown
    · rw [List.eq_of_mem_replicate isUp]
      decide
    · exact ⟨(segments c isDown).1.1, (segments c isDown).2⟩
  have below : components (joinSlash cs) = cs := components_joinSlash cs hne fun c mem => (h c mem).2
  have named : ∀ c ∈ down ++ cs, Named c := by
    intro c mem
    rcases List.mem_append.mp mem with old | new
    · exact (segments c old).1
    · exact (h c new).1
  by_cases start : List.replicate up dotdot ++ down = []
  · obtain ⟨noUp, rfl⟩ := List.append_eq_nil_iff.mp start
    have cleaned : cleanComponents false ([dot] ++ cs) = cs :=
      (Spells.clean (spells_self cs fun c mem => (h c mem).1) false)
    have isDot : relative ([] : List Text) = dot := rfl
    rw [start, isDot, join_relative _ (by decide) (by decide), List.nil_append]
    rw [List.flatMap_cons, List.flatMap_singleton, below]
    exact (congrArg relative cleaned).trans (relative_eq hne fun c mem => (h c mem).1.1)
  · have isText := relative_eq start fun c mem => (plain c mem).1
    have filled := joinSlash_ne_nil start fun c mem => (plain c mem).1
    rw [isText, join_relative _ filled (head_joinSlash_ne start plain), List.flatMap_cons,
      List.flatMap_singleton, below, components_joinSlash _ start fun c mem => (plain c mem).2,
      List.append_assoc, clean_steps up named]
    refine relative_eq (by simp [hne]) fun c mem => ?_
    rw [← List.append_assoc] at mem
    rcases List.mem_append.mp mem with old | new
    · exact (plain c old).1
    · exact (h c new).1.1

end Vidsilo.Library.SlashPath
