import Vidsilo.Api.Players
import Vidsilo.Library.Grouping
import Vidsilo.Library.Refinement

/-!
# The designs that videos are shown with

An entry is shown with the design of the player that was last chosen for it, as that was last saved,
while the player exists. Requests are served here one after another; any of their statements may fail.
-/
namespace Vidsilo.Api.Players
open Library Library.Procedure Library.SlashPath Library.Transition Library.Decimal
open Entries (OptInt64)
open Sessions (Lookup)
open Fetch.SafeUrl (Url)
open Guards (Refusal)
open Categories (trim isSpace)

/-- Notes whether a statement failed. -/
def noted {β : Type} (op : PlayerOp β) (outcome : Outcome) (s : World × Bool) : Option (β × World × Bool) :=
  (perform op outcome s.1).map fun r => (r.1, r.2, s.2 && decide (outcome = .ok))

/-- A request that was served to its end; `sure` if no statement failed. -/
structure Served where
  request : Request
  outcomes : List Outcome
  answer : Answer
  sure : Bool

/-- What players and entries are for: the design that was last saved under an id, and the player that
was last chosen for an entry. -/
structure Designs where
  saved : Int → Option Object
  assigned : Text → Option Int

namespace Designs
variable (a : Designs)

def save (id : Int) (config : Option Object) : Designs :=
  { a with saved := Function.update a.saved id config }

def assign (publicId : Text) (o : OptInt64) : Designs :=
  { a with assigned := Function.update a.assigned publicId (o.apply (a.assigned publicId)) }

@[simp] theorem save_saved (id : Int) (config : Option Object) :
    (a.save id config).saved = Function.update a.saved id config := rfl

@[simp] theorem save_assigned (id : Int) (config : Option Object) :
    (a.save id config).assigned = a.assigned := rfl

@[simp] theorem assign_saved (publicId : Text) (o : OptInt64) : (a.assign publicId o).saved = a.saved := rfl

@[simp] theorem assign_assigned (publicId : Text) (o : OptInt64) : (a.assign publicId o).assigned =
    Function.update a.assigned publicId (o.apply (a.assigned publicId)) := rfl

/-- The design of the chosen player while it is saved, else of the default. -/
def shown (publicId : Text) : Object :=
  ((a.assigned publicId).bind a.saved).getD ((a.saved 1).getD [])

/-- As the migration leaves it. -/
def first : Designs := ⟨fun id => if id = 1 then some [] else none, fun _ => none⟩

end Designs

section Serial
variable (parse : Text → Except Text Url) (escape : Text → Text)

def serve (w : World) (s : Served) : Option World :=
  ((handle parse escape s.request).run noted .ok s.outcomes (w, true)).bind fun r =>
    if r.1 = s.answer ∧ r.2.2 = s.sure then some r.2.1 else none

def view (cfg : Object) : Option Object :=
  if cfg = [] then none else some (proxiedPlayerConfig parse escape cfg)

/-- How an answer changes the designs. Where a statement failed, a refused change may have been made,
and a video may be shown with the default design or none. -/
def Follows (a : Designs) (s : Served) (a' : Designs) : Prop :=
  match s.request, s.answer with
  | .list, .players rows => a' = a ∧ ∀ id, (rows.find? (·.id = id)).map Player.config = a.saved id
  | .create body, .player _ p => a.saved p.id = none ∧ (∀ publicId, a.assigned publicId ≠ some p.id) ∧
      (∃ b ∈ body, p.config = sanitizePlayerConfig b.config) ∧ a' = a.save p.id (some p.config)
  | .update id body, .player _ p => parseInt id = some p.id ∧ a.saved p.id ≠ none ∧
      (∃ b ∈ body, p.config = sanitizePlayerConfig b.config) ∧ a' = a.save p.id (some p.config)
  | .update id body, .refused _ => a' = a ∨ s.sure = false ∧ ∃ n b, parseInt id = some n ∧ b ∈ body ∧
      a.saved n ≠ none ∧ a' = a.save n (some (sanitizePlayerConfig b.config))
  | .delete id, .noContent => ∃ n, parseInt id = some n ∧ n ≠ 1 ∧ a.saved n ≠ none ∧ a' = a.save n none
  | .patch publicId o, .entry _ => (∀ n ∈ o.value, a.saved n ≠ none) ∧ a' = a.assign publicId o
  | .patch publicId o, .refused _ => a' = a ∨ s.sure = false ∧ (∀ n ∈ o.value, a.saved n ≠ none) ∧
      a' = a.assign publicId o
  | .play publicId, .playing design => a' = a ∧ (design = view parse escape (a.shown publicId) ∨
      s.sure = false ∧ (design = view parse escape ((a.saved 1).getD []) ∨ design = none))
  | _, .refused _ => a' = a
  | _, _ => False

end Serial

def World.design (w : World) (id : Int) : Option Object :=
  (w.players.find? (·.id = id)).map Player.config

/-- The tables hold the designs; an entry that chose a deleted player has none. -/
structure Shows (a : Designs) (w : World) : Prop where
  saved : ∀ id, a.saved id = w.design id
  assigned : ∀ e ∈ w.entries, e.playerId = (a.assigned e.publicId).filter fun id => (a.saved id).isSome
  past : ∀ publicId, ∀ id ∈ a.assigned publicId, id < w.nextId

namespace World
variable {w : World} {id : Int}

theorem design_eq_none : w.design id = none ↔ ∀ p ∈ w.players, p.id ≠ id := by
  simp [design]

theorem found_iff {rows : List Player} (nodup : (rows.map Player.id).Nodup) {config : Object} :
    (rows.find? (·.id = id)).map Player.config = some config ↔
      ∃ p ∈ rows, p.id = id ∧ p.config = config := by
  constructor
  · intro h
    obtain ⟨p, found, rfl⟩ := Option.map_eq_some_iff.mp h
    exact ⟨p, List.mem_of_find?_eq_some found, by simpa using List.find?_some found, rfl⟩
  · rintro ⟨p, mem, rfl, rfl⟩
    rw [Grouping.find?_of_nodup nodup mem]
    rfl

theorem design_eq_some {config : Object} :
    w.design id = some config ↔ ∃ p ∈ w.players, p.id = id ∧ p.config = config := found_iff w.ids

/-- The order does not matter. -/
theorem design_listed : (w.listed.find? (·.id = id)).map Player.config = w.design id := by
  have perm : w.listed.Perm w.players := List.perm_insertionSort _ _
  refine Option.ext fun config => ?_
  rw [found_iff ((perm.map Player.id).nodup_iff.mpr w.ids), design_eq_some]
  simp only [mem_listed]

theorem has_iff : w.has id = true ↔ w.design id ≠ none := by
  rw [ne_eq, design_eq_none, has, List.any_eq_true]
  push Not
  simp

theorem design_ext {f : Int → Option Object}
    (h : ∀ id config, (∃ p ∈ w.players, p.id = id ∧ p.config = config) ↔ f id = some config) :
    w.design = f := by
  funext id
  exact Option.ext fun config => (design_eq_some.trans (h id config))

theorem design_insert (name : Text) (config : Object) :
    (w.insert name config).design = Function.update w.design w.nextId (some config) := by
  refine design_ext fun id config' => ?_
  have rows : (∃ p ∈ (w.insert name config).players, p.id = id ∧ p.config = config') ↔
      w.design id = some config' ∨ w.nextId = id ∧ config = config' := by
    rw [design_eq_some]
    simp [insert, inserted, or_and_right, exists_or]
  rw [rows]
  rcases eq_or_ne id w.nextId with rfl | other
  · have new : w.design w.nextId = none := design_eq_none.mpr fun p mem same => by
      have := w.fresh p mem
      omega
    simp [new]
  · simp [other, other.symm]

theorem design_update (name : Text) (config : Object) :
    (w.update id name config).design =
      if w.has id then Function.update w.design id (some config) else w.design := by
  refine design_ext fun j config' => ?_
  have rows : (∃ p ∈ (w.update id name config).players, p.id = j ∧ p.config = config') ↔
      ∃ p ∈ w.players, p.id = j ∧ (saveRow id name config p).config = config' := by
    simp [update]
  rw [rows]
  rcases eq_or_ne j id with rfl | other
  · have saved : (∃ p ∈ w.players, p.id = j ∧ (saveRow j name config p).config = config') ↔
        w.has j = true ∧ config = config' := by
      rw [has, List.any_eq_true]
      constructor
      · rintro ⟨p, mem, same, rfl⟩
        exact ⟨⟨p, mem, decide_eq_true same⟩, by rw [saveRow, if_pos same]⟩
      · rintro ⟨⟨p, mem, same⟩, rfl⟩
        exact ⟨p, mem, of_decide_eq_true same, by rw [saveRow, if_pos (of_decide_eq_true same)]⟩
    rw [saved]
    split
    · next known => simp [known]
    · next unknown =>
      have gone : w.design j = none := by simpa [has_iff] using unknown
      simp [unknown, gone]
  · have same : (if w.has id then Function.update w.design id (some config) else w.design) j =
        w.design j := by
      split
      · exact Function.update_of_ne other _ _
      · rfl
    rw [same, design_eq_some]
    refine exists_congr fun p => and_congr_right fun _ => and_congr_right fun here => ?_
    rw [saveRow, if_neg (here ▸ other)]

theorem update_unknown (name : Text) (config : Object) (unknown : w.has id = false) :
    w.update id name config = w := by
  have same : w.players.map (saveRow id name config) = w.players := by
    refine (List.map_congr_left fun p mem => ?_).trans (List.map_id _)
    have other : p.id ≠ id := by simpa using List.any_eq_false.mp unknown p mem
    rw [saveRow, if_neg other, id_eq]
  cases w
  simp only [update, mk.injEq]
  exact ⟨same, trivial, trivial⟩

theorem design_delete : (w.delete id).design =
    if w.players.any (deletes id) then Function.update w.design id none else w.design := by
  rw [delete]
  split
  · refine design_ext fun j config => ?_
    rcases eq_or_ne j id with rfl | other
    · rw [Function.update_self]
      refine iff_of_false ?_ (by simp)
      rintro ⟨p, mem, same, -⟩
      exact of_decide_eq_true (List.mem_filter.mp mem).2 same
    · rw [Function.update_of_ne other, design_eq_some]
      simp only [List.mem_filter]
      refine exists_congr fun p => and_congr_left fun here => and_iff_left ?_
      exact decide_eq_true (here.1.symm ▸ other)
  · rfl

theorem byID_cases (w : World) (id : Int) :
    (∃ p, firstRow w.players (fun p => decide (p.id = id)) = .found p ∧ p.id = id ∧
      w.design id = some p.config) ∨
    firstRow w.players (fun p => decide (p.id = id)) = .missing ∧ w.design id = none := by
  rw [firstRow, design]
  rcases h : w.players.find? fun p => decide (p.id = id) with _ | p
  · exact .inr ⟨by rw [h], by rw [h]; rfl⟩
  · exact .inl ⟨p, by rw [h], by simpa using List.find?_some h, by rw [h]; rfl⟩

end World

theorem Sound.default_found {w : World} (h : Sound w) :
    ∃ p, firstRow w.listed (fun p => p.isDefault) = .found p ∧ w.design 1 = some p.config := by
  obtain ⟨p, mem, -, isDefault⟩ := h.default
  rw [firstRow]
  rcases found : w.listed.find? fun p => p.isDefault with _ | q
  · exact absurd isDefault (by simpa using List.find?_eq_none.mp found p (mem_listed.mpr mem))
  · have isPlayer := mem_listed.mp (List.mem_of_find?_eq_some found)
    exact ⟨q, by rw [found], World.design_eq_some.mpr ⟨q, isPlayer, h.others q isPlayer (List.find?_some found), rfl⟩⟩

theorem filter_congr {α : Type} {p q : α → Bool} {o : Option α} (h : ∀ x ∈ o, p x = q x) :
    o.filter p = o.filter q := by
  cases o with
  | none => rfl
  | some x => rw [Option.filter_some, Option.filter_some, h x rfl]

namespace Shows
variable {a : Designs} {w : World} {id : Int}

theorem insert (h : Shows a w) (name : Text) (config : Object) :
    Shows (a.save w.nextId (some config)) (w.insert name config) where
  saved j := by rw [World.design_insert, Designs.save_saved, funext h.saved]
  assigned e mem := by
    rw [h.assigned e mem]
    refine filter_congr fun id has => ?_
    have := h.past e.publicId id has
    rw [Designs.save_saved, Function.update_of_ne (by omega)]
  past publicId id has := by
    have := h.past publicId id has
    simp only [World.insert]
    omega

theorem update (h : Shows a w) (name : Text) (config : Object) (known : w.has id = true) :
    Shows (a.save id (some config)) (w.update id name config) where
  saved j := by rw [World.design_update, if_pos known, Designs.save_saved, funext h.saved]
  assigned e mem := by
    rw [h.assigned e mem]
    refine filter_congr fun j _ => ?_
    rcases eq_or_ne j id with rfl | other
    · rw [Designs.save_saved, Function.update_self, Option.isSome_some, h.saved]
      exact Option.isSome_iff_ne_none.mpr (World.has_iff.mp known)
    · rw [Designs.save_saved, Function.update_of_ne other]
  past := h.past

theorem delete (h : Shows a w) (goes : w.players.any (World.deletes id) = true) :
    Shows (a.save id none) (w.delete id) where
  saved j := by rw [World.design_delete, if_pos goes, Designs.save_saved, funext h.saved]
  assigned e mem := by
    rw [World.delete, if_pos goes] at mem
    obtain ⟨old, isEntry, rfl⟩ := List.mem_map.mp mem
    rw [World.release_playerId, World.release_publicId, h.assigned old isEntry, Option.filter_filter]
    refine filter_congr fun j _ => ?_
    rcases eq_or_ne j id with rfl | other
    · simp
    · simp [other]
  past := by
    rw [World.delete, if_pos goes]
    exact h.past

theorem assign (h : Shows a w) (publicId : Text) {o : OptInt64} (refers : w.refers o = true) :
    Shows (a.assign publicId o) (w.assign publicId o refers) where
  saved := h.saved
  assigned e mem := by
    obtain ⟨old, isEntry, rfl⟩ := List.mem_map.mp mem
    rw [World.assignRow_publicId, World.assignRow]
    split
    · next same =>
      rw [same, Designs.assign_saved, Designs.assign_assigned, Function.update_self]
      have before := h.assigned old isEntry
      rw [same] at before
      rw [World.refers] at refers
      rcases value : o.value with _ | id
      · simp only [OptInt64.apply, value]
        split
        · rfl
        · exact before
      · rw [value] at refers
        have known : (a.saved id).isSome = true := by
          rw [h.saved]
          exact Option.isSome_iff_ne_none.mpr (World.has_iff.mp refers)
        simp only [OptInt64.apply, value]
        exact (if_pos known).symm
    · next other =>
      rw [h.assigned old isEntry, Designs.assign_saved, Designs.assign_assigned,
        Function.update_of_ne other]
  past key id has := by
    rw [Designs.assign_assigned] at has
    rcases eq_or_ne key publicId with rfl | other
    · rw [Function.update_self, OptInt64.apply] at has
      split at has
      · next value =>
        cases has
        rw [World.refers, value] at refers
        obtain ⟨p, mem, same⟩ := List.any_eq_true.mp refers
        exact of_decide_eq_true same ▸ w.fresh p mem
      · split at has
        · cases has
        · exact h.past key id has
    · rw [Function.update_of_ne other] at has
      exact h.past key id has

/-- What a video is shown with is what the entry's row leads to. -/
theorem shown (h : Shows a w) {e : Entry} (mem : e ∈ w.entries) :
    a.shown e.publicId = (e.playerId.bind w.design).getD ((w.design 1).getD []) := by
  rw [Designs.shown, h.assigned e mem, h.saved 1]
  rcases a.assigned e.publicId with _ | id
  · rfl
  · rcases known : a.saved id with _ | config
    · simp [Option.filter, known]
    · simp [Option.filter, known, ← h.saved]

end Shows

section Serial
variable {parse : Text → Except Text Url} {escape : Text → Text} {a : Designs} {w : World}

/-- What the answer to a request, and whether a statement failed, say of the tables after it. -/
def Ends (parse : Text → Except Text Url) (escape : Text → Text) (a : Designs) (request : Request)
    (answer : Answer) (s : World × Bool) : Prop :=
  ∃ a', (∀ outcomes, Follows parse escape a ⟨request, outcomes, answer, s.2⟩ a') ∧ Shows a' s.1

theorem ends_refused (h : Shows a w) (request : Request) (r : Refusal) (sure : Bool) :
    Ends parse escape a request (.refused r) (w, sure) := by
  refine ⟨a, fun outcomes => ?_, h⟩
  cases request
  case update => exact .inl rfl
  case patch => exact .inl rfl
  all_goals exact rfl

/-- An operation goes through, or fails. -/
theorem wp_noted {β : Type} {op : PlayerOp β} {next : β → Handler} {post : Answer → World × Bool → Prop}
    {sure : Bool}
    (ok : ∀ b w', perform op .ok w = some (b, w') →
      (next b).Wp noted (fun _ (_ : Outcome) _ => true) post (w', sure))
    (fails : ∀ b w', perform op .fails w = some (b, w') →
      (next b).Wp noted (fun _ (_ : Outcome) _ => true) post (w', false)) :
    (Procedure.call op next).Wp noted (fun _ (_ : Outcome) _ => true) post (w, sure) := by
  intro outcome b s' _ taken
  obtain ⟨⟨b', w'⟩, performed, same⟩ := Option.map_eq_some_iff.mp taken
  obtain ⟨rfl, rfl⟩ := Prod.mk.inj same
  cases outcome with
  | ok => simpa using ok b' w' performed
  | fails => simpa using fails b' w' performed

variable {sure : Bool} {request : Request} {good : Answer → World × Bool → Prop}

abbrev Serves (good : Answer → World × Bool → Prop) (w : World) (sure : Bool) (p : Handler) : Prop :=
  p.Wp noted (fun _ (_ : Outcome) _ => true) good (w, sure)

theorem serves_byID {id : Int} {next : Lookup Player → Handler}
    (found : ∀ p, p.id = id → w.design id = some p.config → Serves good w sure (next (.found p)))
    (missing : w.design id = none → Serves good w sure (next .missing))
    (failed : Serves good w false (next .failed)) :
    Serves good w sure (ask (.byID id) >>= next) := by
  refine wp_noted (fun b w' performed => ?_) fun b w' performed => ?_
  · cases performed
    obtain ⟨p, isFound, same, design⟩ | ⟨isMissing, design⟩ := World.byID_cases w id
    · rw [isFound]
      exact found p same design
    · rw [isMissing]
      exact missing design
  · cases performed
    exact failed

theorem serves_entry {publicId : Text} {next : Lookup Entry → Handler}
    (found : ∀ e ∈ w.entries, e.publicId = publicId → Serves good w sure (next (.found e)))
    (missing : (∀ e ∈ w.entries, e.publicId ≠ publicId) → Serves good w sure (next .missing))
    (failed : Serves good w false (next .failed)) :
    Serves good w sure (ask (.entry publicId) >>= next) := by
  refine wp_noted (fun b w' performed => ?_) fun b w' performed => ?_
  · cases performed
    rcases h : w.entries.find? fun e => decide (e.publicId = publicId) with _ | e
    · have isMissing : firstRow w.entries (fun e => decide (e.publicId = publicId)) = .missing := by
        rw [firstRow, h]
      rw [isMissing]
      exact missing (by simpa using List.find?_eq_none.mp h)
    · have isFound : firstRow w.entries (fun e => decide (e.publicId = publicId)) = .found e := by
        rw [firstRow, h]
      rw [isFound]
      exact found e (List.mem_of_find?_eq_some h) (by simpa using List.find?_some h)
  · cases performed
    exact failed

theorem serves_checkBody (refused : ∀ r, good (.refused r) (w, sure)) {body : Option Body}
    {next : Text → Object → Handler}
    (later : ∀ b ∈ body, Serves good w sure (next (trim isSpace b.name) (sanitizePlayerConfig b.config))) :
    Serves good w sure (checkBody body next) := by
  cases body with
  | none => exact refused _
  | some b =>
    rw [checkBody]
    split
    · exact refused _
    · exact later b rfl

theorem serves_checkID (refused : ∀ r, good (.refused r) (w, sure)) {id : Text} {next : Int → Handler}
    (later : ∀ n, parseInt id = some n → Serves good w sure (next n)) :
    Serves good w sure (checkID id next) := by
  rw [checkID]
  split
  · exact refused _
  · next n number => exact later n number

theorem serves_entryOr404 (refused : ∀ r sure, good (.refused r) (w, sure)) {publicId : Text}
    {next : Entry → Handler} (later : ∀ e ∈ w.entries, e.publicId = publicId → Serves good w sure (next e)) :
    Serves good w sure (entryOr404 publicId next) := by
  rw [entryOr404]
  split
  · exact refused _ _
  · exact serves_entry later (fun _ => refused _ _) (refused _ _)

variable (shows : Shows a w) (sound : Sound w)
include shows

theorem serves_list : Serves (Ends parse escape a .list) w true handlePlayerList := by
  refine wp_noted (fun b w' performed => ?_) fun b w' performed => ?_
  · cases performed
    exact ⟨a, fun _ => ⟨rfl, fun id => World.design_listed.trans (shows.saved id).symm⟩, shows⟩
  · cases performed
    exact ends_refused shows _ _ _

theorem serves_create (body : Option Body) :
    Serves (Ends parse escape a (.create body)) w true (handlePlayerCreate body) := by
  refine serves_checkBody (fun r => ends_refused shows _ r _) fun b has => ?_
  refine wp_noted (fun reply w' performed => ?_) fun reply w' performed => ?_
  · simp only [perform] at performed
    split at performed
    · cases performed
      refine ⟨_, fun _ => ⟨?_, fun publicId used => ?_, ⟨b, has, rfl⟩, rfl⟩, shows.insert _ _⟩
      · rw [shows.saved]
        exact World.design_eq_none.mpr fun p mem => ne_of_lt (w.fresh p mem)
      · exact lt_irrefl _ (shows.past publicId _ used)
    · cases performed
      exact ends_refused shows _ _ _
  · cases performed
    exact ends_refused shows _ _ _

theorem serves_update (id : Text) (body : Option Body) :
    Serves (Ends parse escape a (.update id body)) w true (handlePlayerUpdate id body) := by
  refine serves_checkID (fun r => ends_refused shows _ r _) fun n number =>
    serves_checkBody (fun r => ends_refused shows _ r _) fun b has => ?_
  refine wp_noted (fun reply w' performed => ?_) fun reply w' performed => ?_
  · simp only [perform] at performed
    split at performed
    · cases performed
      rcases known : w.has n with _ | _
      · rw [World.update_unknown _ _ known]
        exact ends_refused shows _ _ _
      · have before : a.saved n ≠ none := shows.saved n ▸ World.has_iff.mp known
        have later := shows.update (trim isSpace b.name) (sanitizePlayerConfig b.config) known
        refine serves_byID (fun p same design => ?_) (fun gone => ?_) ?_
        · rw [World.design_update, if_pos known, Function.update_self] at design
          have config := Option.some.inj design
          exact ⟨_, fun _ => ⟨same ▸ number, same ▸ before, ⟨b, has, config.symm⟩,
            by rw [← config, same]⟩, later⟩
        · rw [World.design_update, if_pos known, Function.update_self] at gone
          cases gone
        · exact ⟨_, fun _ => .inr ⟨rfl, n, b, number, has, before, rfl⟩, later⟩
    · cases performed
      exact ends_refused shows _ _ _
  · cases performed
    exact ends_refused shows _ _ _

include sound

theorem serves_delete (id : Text) :
    Serves (Ends parse escape a (.delete id)) w true (handlePlayerDelete id) := by
  refine serves_checkID (fun r => ends_refused shows _ r _) fun n number => ?_
  refine wp_noted (fun reply w' performed => ?_) fun reply w' performed => ?_
  · cases performed
    rcases goes : w.players.any (World.deletes n) with _ | _
    · have same : w.delete n = w := by rw [World.delete, if_neg (ne_true_of_eq_false goes)]
      rw [same]
      exact serves_byID (fun _ _ _ => ends_refused shows _ _ _) (fun _ => ends_refused shows _ _ _)
        (ends_refused shows _ _ _)
    · refine ⟨_, fun _ => ⟨n, number, sound.ne_default goes, ?_, rfl⟩, shows.delete goes⟩
      obtain ⟨p, mem, isIt⟩ := List.any_eq_true.mp goes
      rw [shows.saved]
      simp only [World.deletes, Bool.and_eq_true, decide_eq_true_eq] at isIt
      exact World.has_iff.mp (List.any_eq_true.mpr ⟨p, mem, decide_eq_true isIt.1⟩)
  · cases performed
    exact ends_refused shows _ _ _

omit sound in
theorem serves_updateEntry {e : Entry} (mem : e ∈ w.entries) (o : OptInt64) (sure : Bool) :
    Serves (Ends parse escape a (.patch e.publicId o)) w sure (updateEntry e o) := by
  refine wp_noted (fun reply w' performed => ?_) fun reply w' performed => ?_
  · simp only [perform] at performed
    split at performed
    · next refers =>
      cases performed
      have later := shows.assign e.publicId refers
      have known (n : Int) (has : n ∈ o.value) : a.saved n ≠ none := by
        rw [World.refers, Option.mem_def.mp has] at refers
        exact shows.saved n ▸ World.has_iff.mp refers
      refine serves_entry (fun e' _ _ => ⟨_, fun _ => ⟨known, rfl⟩, later⟩) (fun gone => ?_) ?_
      · refine absurd ?_ (gone _ (List.mem_map_of_mem mem))
        exact World.assignRow_publicId _ _ e
      · exact ⟨_, fun _ => .inr ⟨rfl, known, rfl⟩, later⟩
    · cases performed
      exact ends_refused shows _ _ _
  · cases performed
    exact ends_refused shows _ _ _

omit sound in
theorem serves_patch (publicId : Text) (o : OptInt64) :
    Serves (Ends parse escape a (.patch publicId o)) w true (handleEntryPatch publicId o) := by
  refine serves_entryOr404 (fun r sure => ends_refused shows _ r sure) fun e mem named => ?_
  subst named
  split
  · exact serves_byID (fun _ _ _ => serves_updateEntry shows mem o _) (fun _ => ends_refused shows _ _ _)
      (ends_refused shows _ _ _)
  · exact serves_updateEntry shows mem o _

theorem serves_play (publicId : Text) :
    Serves (Ends parse escape a (.play publicId)) w true (handlePlayInfo parse escape publicId) := by
  refine serves_entryOr404 (fun r sure => ends_refused shows _ r sure) fun e mem named => ?_
  subst named
  have shown := shows.shown mem
  refine wp_noted (fun reply w' performed => ?_) fun reply w' performed => ?_
  · cases performed
    obtain ⟨player, isFound, design⟩ := sound.default_found
    rw [isFound]
    have fallback : (a.saved 1).getD [] = player.config := by rw [shows.saved, design, Option.getD_some]
    rw [design, Option.getD_some] at shown
    rcases chosen : e.playerId with _ | n
    · refine ⟨a, fun _ => ⟨rfl, .inl ?_⟩, shows⟩
      rw [shown, chosen, view]
      rfl
    · rw [chosen, Option.bind_some] at shown
      refine serves_byID (fun p same isSaved => ?_) (fun gone => ?_) ?_
      · refine ⟨a, fun _ => ⟨rfl, .inl ?_⟩, shows⟩
        rw [shown, isSaved, view]
        rfl
      · refine ⟨a, fun _ => ⟨rfl, .inl ?_⟩, shows⟩
        rw [shown, gone, view]
        rfl
      · refine ⟨a, fun _ => ⟨rfl, .inr ⟨rfl, .inl ?_⟩⟩, shows⟩
        rw [fallback, view]
  · cases performed
    exact ⟨a, fun _ => ⟨rfl, .inr ⟨rfl, .inr rfl⟩⟩, shows⟩

theorem serves_handle (request : Request) :
    Serves (Ends parse escape a request) w true (handle parse escape request) := by
  cases request with
  | list => exact serves_list shows
  | create body => exact serves_create shows body
  | update id body => exact serves_update shows id body
  | delete id => exact serves_delete shows sound id
  | patch publicId o => exact serves_patch shows publicId o
  | play publicId => exact serves_play shows sound publicId

omit shows sound in
theorem kept_noted : contract.Kept noted fun s => Sound s.1 := by
  intro β op outcome s s' reply sound meets taken
  obtain ⟨⟨b, w'⟩, performed, same⟩ := Option.map_eq_some_iff.mp taken
  cases same
  exact kept op outcome s.1 w' _ sound meets performed

theorem serve_follows {s : Served} {w' : World} (served : serve parse escape w s = some w') :
    ∃ a', Follows parse escape a s a' ∧ Shows a' w' ∧ Sound w' := by
  obtain ⟨⟨answer, after, sure⟩, ran, isIt⟩ := Option.bind_eq_some_iff.mp served
  obtain ⟨⟨rfl, rfl⟩, rfl⟩ := by simpa using isIt
  have ends : Serves (Ends parse escape a s.request) w true (handle parse escape s.request) :=
    serves_handle shows sound s.request
  obtain ⟨a', follows, later⟩ := wp_run ends (check_always _ _ _) ran
  exact ⟨a', follows s.outcomes, later,
    (kept_noted.run (s := (w, true)) sound (handle_meets parse escape s.request) ran).1⟩

end Serial

theorem shows_installed (publicIds : List Text) (nodup : publicIds.Nodup) :
    Shows Designs.first (installed publicIds nodup) where
  saved id := by
    rcases eq_or_ne id 1 with rfl | other
    · rfl
    · have gone : (installed publicIds nodup).design id = none :=
        World.design_eq_none.mpr (by simpa [installed] using other.symm)
      rw [gone]
      exact if_neg other
  assigned e mem := by
    obtain ⟨publicId, _, rfl⟩ := List.mem_map.mp mem
    rfl
  past publicId id has := nomatch has

/-- Requests that are served one after another answer as the designs that were saved and the players
that were chosen so far say, whatever players were deleted in between. -/
theorem designs_followed {parse : Text → Except Text Url} {escape : Text → Text} {publicIds : List Text}
    (nodup : publicIds.Nodup) {trace : List Served} {w : World}
    (run : Run (serve parse escape) Always (installed publicIds nodup) trace w) :
    ∃ a, Refinement.Followed (Follows parse escape) Designs.first trace a ∧ Shows a w := by
  obtain ⟨a, followed, shows, -⟩ := Refinement.followed run
    ⟨shows_installed publicIds nodup, sound_installed publicIds nodup⟩
    fun a w s w' related _ served => serve_follows related.1 related.2 served
  exact ⟨a, followed, shows⟩

def blue : Player := ⟨2, "blue".toList, false, sanitizePlayerConfig []⟩

/-- The design is made, chosen and shown; when it is gone, the default is shown, which was never saved. -/
def inTurn : List Served :=
  [⟨.create (some body), [], .player 201 blue, true⟩,
    ⟨.patch "v".toList chosen, [], .entry ⟨"v".toList, some 2⟩, true⟩,
    ⟨.play "v".toList, [], .playing (some (sanitizePlayerConfig [])), true⟩,
    ⟨.delete "2".toList, [], .noContent, true⟩,
    ⟨.play "v".toList, [], .playing none, true⟩]

theorem designs_followed_inTurn :
    ∃ a, Refinement.Followed (Follows plainUrl id) Designs.first inTurn a := by
  obtain ⟨w, run, -⟩ : ∃ w, Run (serve plainUrl id) Always oneVideo inTurn w ∧ true = true :=
    exists_always (p := fun _ => true) (by decide +kernel)
  obtain ⟨a, followed, -⟩ := designs_followed (List.nodup_singleton _) run
  exact ⟨a, followed⟩

end Vidsilo.Api.Players
