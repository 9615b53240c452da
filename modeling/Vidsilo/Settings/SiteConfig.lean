import Vidsilo.Library.Earlier
import Vidsilo.Settings.Patch

/-!
# How old a site config can be

Source: web/lib/site-config.ts:16-68, internal/api/settings.go:24-34 (`handleSiteConfig`),
internal/settings/settings.go:22-70, 112-160 (`New`, `Reload`, `String`, `Update`, `Run`). Between
the settings table and a page lie the memory of the node that answers, which reloads in the
background, and the localStorage of the browser, which is trusted for five minutes. Any number of
nodes and of tabs take turns. Clocks are taken to run alike; `version` is `build.Version`, the same
on every node. The browser's HTTP cache is not asked (`no-store`).
-/
namespace Vidsilo.Settings.SiteConfig
open Library.SlashPath Library.Transition Patch

abbrev NodeId := Nat
abbrev BrowserId := Nat

/-- The settings table. -/
abbrev Table := Text → Option RawMessage

def version : Text := "0.1.0".toList

structure Config where
  siteName : Text
  defaultLang : Text
  libraryMode : Text
  version : Text
  deriving DecidableEq, Repr

inductive Field where
  | siteName | defaultLang | libraryMode
  deriving DecidableEq, Repr

def Field.key : Field → Text
  | .siteName => "site_name".toList
  | .defaultLang => "default_lang".toList
  | .libraryMode => "library.mode".toList

/-- The default that the handler names. -/
def Field.dflt : Field → Text
  | .siteName => "Vidsilo".toList
  | .defaultLang => "en".toList
  | .libraryMode => "disabled".toList

def Config.field (config : Config) : Field → Text
  | .siteName => config.siteName
  | .defaultLang => config.defaultLang
  | .libraryMode => config.libraryMode

/-- `Service.String` on the value of a key. -/
def string (value : Option RawMessage) (dflt : Text) : Text :=
  match value with
  | some (.string s) => s
  | _ => dflt

/-- What a field is by a table. -/
def Field.of (table : Table) (field : Field) : Text := string (table field.key) field.dflt

/-- Rows that a `Reload` has read, and when. -/
structure Rows where
  table : Table
  since : Nat

/-- An `Update` whose statement has run and whose assignment to the cache has not. -/
structure Written where
  key : Text
  value : RawMessage
  since : Nat
  deriving DecidableEq, Repr

structure Node where
  /-- Missing until `New` returns. -/
  cache : Option Rows
  /-- What the `Reload` in progress has read. -/
  selected : Option Rows
  updates : List Written

/-- How far a request for the config has come. -/
inductive Stage where
  | sent
  | serving (node : NodeId)
  | readName (node : NodeId) (siteName : Text)
  | readLang (node : NodeId) (siteName defaultLang : Text)
  | answered (config : Config)
  /-- Past the second `then`. -/
  | received (config : Config)
  deriving DecidableEq, Repr

structure Request where
  started : Nat
  stage : Stage
  deriving DecidableEq, Repr

/-- `CacheEntry`. -/
structure CacheEntry where
  data : Config
  ts : Nat
  deriving DecidableEq, Repr

/-- A document with its own `inFlight`. -/
structure Tab where
  browser : BrowserId
  id : Nat
  deriving DecidableEq, Repr

structure World where
  /-- In milliseconds. -/
  clock : Nat
  table : Table
  nodes : NodeId → Node
  /-- The item `vidsilo-site-config` of each browser. -/
  storage : BrowserId → Option CacheEntry
  inFlight : Tab → Option Request

def down : Node := ⟨none, none, []⟩

/-- No node runs yet, and no page is open. -/
def initial (clock : Nat) (table : Table) : World where
  clock := clock
  table := table
  nodes _ := down
  storage _ := none
  inFlight _ := none

def cacheTtlMs : Nat := 5 * 60 * 1000

def cachedSiteConfig (s : World) (t : Tab) : Option Config :=
  (s.storage t.browser).bind fun entry =>
    if s.clock - entry.ts < cacheTtlMs then some entry.data else none

inductive Action where
  | tick (d : Nat)
  /-- A write that no node's `Update` makes, as by a seed. -/
  | write (key : Text) (value : Option RawMessage)
  /-- The SELECT of a `Reload`. -/
  | select (n : NodeId)
  /-- `s.cache = cache`. -/
  | swap (n : NodeId)
  /-- A `Reload` that fails after its SELECT. -/
  | giveUp (n : NodeId)
  /-- The INSERT of an `Update`. -/
  | exec (n : NodeId) (key : Text) (value : RawMessage)
  /-- `s.cache[key] = value`. -/
  | assign (n : NodeId) (i : Nat)
  | stop (n : NodeId)
  /-- `getSiteConfig` is called. -/
  | get (t : Tab)
  /-- The request gets to a node. -/
  | reach (t : Tab) (n : NodeId)
  /-- The node reads the next setting. -/
  | read (t : Tab)
  /-- The answer is parsed and stored, if the storage takes it. -/
  | receive (t : Tab) (stored : Bool)
  /-- The promise resolves. -/
  | resolve (t : Tab)
  /-- It is rejected, or the document is closed. -/
  | reject (t : Tab)
  | clear (b : BrowserId)
  deriving DecidableEq, Repr

def World.setNode (s : World) (n : NodeId) (node : Node) : World :=
  { s with nodes := Function.update s.nodes n node }

def World.setRequest (s : World) (t : Tab) (r : Option Request) : World :=
  { s with inFlight := Function.update s.inFlight t r }

theorem nodes_setNode (s : World) (n : NodeId) (node : Node) (i : NodeId) :
    (s.setNode n node).nodes i = if i = n then node else s.nodes i :=
  Function.update_apply s.nodes n node i

theorem inFlight_setRequest (s : World) (t : Tab) (r : Option Request) (i : Tab) :
    (s.setRequest t r).inFlight i = if i = t then r else s.inFlight i :=
  Function.update_apply s.inFlight t r i

/-- The settings as a running node has them. -/
def World.reads (s : World) (n : NodeId) (field : Field) : Option Text :=
  (s.nodes n).cache.map fun rows => field.of rows.table

/-- `handleSiteConfig` evaluates its fields in the order of its literal. -/
def World.advance (s : World) : Stage → Option Stage
  | .serving n => (s.reads n .siteName).map (.readName n)
  | .readName n siteName => (s.reads n .defaultLang).map (.readLang n siteName)
  | .readLang n siteName defaultLang => (s.reads n .libraryMode).map fun libraryMode =>
      .answered ⟨siteName, defaultLang, libraryMode, version⟩
  | _ => none

def step (s : World) : Action → Option World
  | .tick d => some { s with clock := s.clock + d }
  | .write key value => some { s with table := Function.update s.table key value }
  | .select n =>
    match (s.nodes n).selected with
    | none => some (s.setNode n { s.nodes n with selected := some ⟨s.table, s.clock⟩ })
    | some _ => none
  | .swap n =>
    (s.nodes n).selected.map fun rows =>
      s.setNode n { s.nodes n with cache := some rows, selected := none }
  | .giveUp n => some (s.setNode n { s.nodes n with selected := none })
  | .exec n key value =>
    match (s.nodes n).cache with
    | none => none
    | some _ => some { s.setNode n { s.nodes n with
        updates := (s.nodes n).updates ++ [⟨key, value, s.clock⟩] } with
          table := Function.update s.table key (some value) }
  | .assign n i =>
    match (s.nodes n).cache, (s.nodes n).updates[i]? with
    | some rows, some written => some (s.setNode n { s.nodes n with
        cache := some { rows with
          table := Function.update rows.table written.key (some written.value) }
        updates := (s.nodes n).updates.eraseIdx i })
    | _, _ => none
  | .stop n => some (s.setNode n down)
  | .get t =>
    match cachedSiteConfig s t, s.inFlight t with
    | none, none => some (s.setRequest t (some ⟨s.clock, .sent⟩))
    | _, _ => some s
  | .reach t n =>
    match s.inFlight t with
    | some ⟨started, .sent⟩ => some (s.setRequest t (some ⟨started, .serving n⟩))
    | _ => none
  | .read t =>
    (s.inFlight t).bind fun r =>
      (s.advance r.stage).map fun stage => s.setRequest t (some ⟨r.started, stage⟩)
  | .receive t stored =>
    match s.inFlight t with
    | some ⟨started, .answered config⟩ =>
      some { s.setRequest t (some ⟨started, .received config⟩) with
        storage := if stored then Function.update s.storage t.browser (some ⟨config, s.clock⟩)
          else s.storage }
    | _ => none
  | .resolve t =>
    match s.inFlight t with
    | some ⟨_, .received _⟩ => some (s.setRequest t none)
    | _ => none
  | .reject t => some (s.setRequest t none)
  | .clear b => some { s with storage := Function.update s.storage b none }

/-- The config that the action gives to the pages that wait for it. -/
def shows (s : World) : Action → Option Config
  | .get t => cachedSiteConfig s t
  | .resolve t =>
    match s.inFlight t with
    | some ⟨_, .received config⟩ => some config
    | _ => none
  | _ => none

structure Bounds where
  /-- Until the rows of the next `Reload` replace the ones that were read. -/
  reload : Nat
  /-- Between the two steps of an `Update`. -/
  update : Nat
  fetch : Nat

/-- The clock does not pass what is due. -/
structure Due (b : Bounds) (s : World) (now : Nat) : Prop where
  cache : ∀ n rows, (s.nodes n).cache = some rows → now ≤ rows.since + b.reload
  selected : ∀ n rows, (s.nodes n).selected = some rows → now ≤ rows.since + b.reload
  updates : ∀ n, ∀ written ∈ (s.nodes n).updates, now ≤ written.since + b.update
  inFlight : ∀ t r, s.inFlight t = some r → now ≤ r.started + b.fetch

def InTime (b : Bounds) (s : World) : Action → Prop
  | .tick d => Due b s (s.clock + d)
  | _ => True

/-- How old a config that is shown can be. -/
def Bounds.total (b : Bounds) : Nat := cacheTtlMs + (b.fetch + (b.reload + b.update))

/-- What a request has read so far. -/
def Stage.known : Stage → Field → Option Text
  | .sent, _ => none
  | .serving _, _ => none
  | .readName _ siteName, .siteName => some siteName
  | .readName _ _, _ => none
  | .readLang _ siteName _, .siteName => some siteName
  | .readLang _ _ defaultLang, .defaultLang => some defaultLang
  | .readLang _ _ _, .libraryMode => none
  | .answered config, field => some (config.field field)
  | .received config, field => some (config.field field)

/-- `seen P`: the run has passed a state with `P`. Each layer adds its own delay. -/
structure Fresh (b : Bounds) (seen : (World → Prop) → Prop) (s : World) : Prop where
  cache : ∀ n rows, (s.nodes n).cache = some rows → rows.since ≤ s.clock ∧
    s.clock ≤ rows.since + b.reload ∧
    ∀ key, seen fun m => rows.since ≤ m.clock + b.update ∧ m.table key = rows.table key
  selected : ∀ n rows, (s.nodes n).selected = some rows → rows.since ≤ s.clock ∧
    s.clock ≤ rows.since + b.reload ∧
    ∀ key, seen fun m => rows.since ≤ m.clock ∧ m.table key = rows.table key
  updates : ∀ n, ∀ written ∈ (s.nodes n).updates, s.clock ≤ written.since + b.update ∧
    seen fun m => written.since ≤ m.clock ∧ m.table written.key = some written.value
  inFlight : ∀ t r, s.inFlight t = some r → r.started ≤ s.clock ∧ s.clock ≤ r.started + b.fetch ∧
    ∀ field value, r.stage.known field = some value →
      seen fun m => r.started ≤ m.clock + (b.reload + b.update) ∧ field.of m.table = value
  storage : ∀ browser entry, s.storage browser = some entry → entry.ts ≤ s.clock ∧
    ∀ field, seen fun m => entry.ts ≤ m.clock + (b.fetch + (b.reload + b.update)) ∧
      field.of m.table = entry.data.field field

/-- A weaker property has been seen as well. -/
def Upward (seen : (World → Prop) → Prop) : Prop :=
  ∀ P Q, seen P → (∀ m, P m → Q m) → seen Q

section Steps
variable {b : Bounds} {seen : (World → Prop) → Prop} {s : World}

theorem fresh_initial (clock : Nat) (table : Table) : Fresh b seen (initial clock table) := by
  constructor <;> simp [initial, down]

/-- The run goes on. -/
theorem Fresh.grow {later : (World → Prop) → Prop} (h : Fresh b seen s)
    (grows : ∀ P, seen P → later P) : Fresh b later s where
  cache n rows is := by
    obtain ⟨past, recent, was⟩ := h.cache n rows is
    exact ⟨past, recent, fun key => grows _ (was key)⟩
  selected n rows is := by
    obtain ⟨past, recent, was⟩ := h.selected n rows is
    exact ⟨past, recent, fun key => grows _ (was key)⟩
  updates n written mem := by
    obtain ⟨recent, was⟩ := h.updates n written mem
    exact ⟨recent, grows _ was⟩
  inFlight t r is := by
    obtain ⟨past, recent, was⟩ := h.inFlight t r is
    exact ⟨past, recent, fun field value known => grows _ (was field value known)⟩
  storage browser entry is := by
    obtain ⟨past, was⟩ := h.storage browser entry is
    exact ⟨past, fun field => grows _ (was field)⟩

theorem Fresh.tick (h : Fresh b seen s) {d : Nat} (due : Due b s (s.clock + d)) :
    Fresh b seen { s with clock := s.clock + d } where
  cache n rows is := by
    obtain ⟨past, _, was⟩ := h.cache n rows is
    exact ⟨Nat.le_add_right_of_le past, due.cache n rows is, was⟩
  selected n rows is := by
    obtain ⟨past, _, was⟩ := h.selected n rows is
    exact ⟨Nat.le_add_right_of_le past, due.selected n rows is, was⟩
  updates n written mem := ⟨due.updates n written mem, (h.updates n written mem).2⟩
  inFlight t r is := by
    obtain ⟨past, _, was⟩ := h.inFlight t r is
    exact ⟨Nat.le_add_right_of_le past, due.inFlight t r is, was⟩
  storage browser entry is := by
    obtain ⟨past, was⟩ := h.storage browser entry is
    exact ⟨Nat.le_add_right_of_le past, was⟩

/-- A node changes; the others stay. -/
theorem Fresh.setNode (h : Fresh b seen s) {n : NodeId} {node : Node}
    (cache : ∀ rows, node.cache = some rows → rows.since ≤ s.clock ∧
      s.clock ≤ rows.since + b.reload ∧
      ∀ key, seen fun m => rows.since ≤ m.clock + b.update ∧ m.table key = rows.table key)
    (selected : ∀ rows, node.selected = some rows → rows.since ≤ s.clock ∧
      s.clock ≤ rows.since + b.reload ∧
      ∀ key, seen fun m => rows.since ≤ m.clock ∧ m.table key = rows.table key)
    (updates : ∀ written ∈ node.updates, s.clock ≤ written.since + b.update ∧
      seen fun m => written.since ≤ m.clock ∧ m.table written.key = some written.value) :
    Fresh b seen (s.setNode n node) where
  cache i rows is := by
    by_cases here : i = n
    · subst here
      rw [nodes_setNode, if_pos rfl] at is
      exact cache rows is
    · rw [nodes_setNode, if_neg here] at is
      exact h.cache i rows is
  selected i rows is := by
    by_cases here : i = n
    · subst here
      rw [nodes_setNode, if_pos rfl] at is
      exact selected rows is
    · rw [nodes_setNode, if_neg here] at is
      exact h.selected i rows is
  updates i written mem := by
    by_cases here : i = n
    · subst here
      rw [nodes_setNode, if_pos rfl] at mem
      exact updates written mem
    · rw [nodes_setNode, if_neg here] at mem
      exact h.updates i written mem
  inFlight := h.inFlight
  storage := h.storage

theorem Fresh.setRequest (h : Fresh b seen s) {t : Tab} {new : Option Request}
    (request : ∀ r, new = some r → r.started ≤ s.clock ∧ s.clock ≤ r.started + b.fetch ∧
      ∀ field value, r.stage.known field = some value →
        seen fun m => r.started ≤ m.clock + (b.reload + b.update) ∧ field.of m.table = value) :
    Fresh b seen (s.setRequest t new) where
  cache := h.cache
  selected := h.selected
  updates := h.updates
  inFlight i r is := by
    by_cases here : i = t
    · subst here
      rw [inFlight_setRequest, if_pos rfl] at is
      exact request r is
    · rw [inFlight_setRequest, if_neg here] at is
      exact h.inFlight i r is
  storage := h.storage

theorem Fresh.write (h : Fresh b seen s) (key : Text) (value : Option RawMessage) :
    Fresh b seen { s with table := Function.update s.table key value } :=
  ⟨h.cache, h.selected, h.updates, h.inFlight, h.storage⟩

/-- The rows of a `Reload` are the table of this moment. -/
theorem Fresh.select (h : Fresh b seen s) (now : ∀ P, P s → seen P) (n : NodeId) :
    Fresh b seen (s.setNode n { s.nodes n with selected := some ⟨s.table, s.clock⟩ }) := by
  apply h.setNode
  · exact h.cache n
  · intro rows is
    obtain rfl := Option.some.inj is
    exact ⟨Nat.le_refl _, Nat.le_add_right _ _, fun key => now _ ⟨Nat.le_refl _, rfl⟩⟩
  · exact h.updates n

theorem Fresh.swap (h : Fresh b seen s) (up : Upward seen) {n : NodeId} {rows : Rows}
    (selected : (s.nodes n).selected = some rows) :
    Fresh b seen (s.setNode n { s.nodes n with cache := some rows, selected := none }) := by
  apply h.setNode
  · intro new is
    obtain rfl := Option.some.inj is
    obtain ⟨past, recent, was⟩ := h.selected n rows selected
    exact ⟨past, recent, fun key => up _ _ (was key) fun m at_m => ⟨by omega, at_m.2⟩⟩
  · intro new is
    cases is
  · exact h.updates n

/-- An `Update` that assigns late puts a value over a newer one; the value was the table's when
its statement ran. -/
theorem Fresh.assign (h : Fresh b seen s) (up : Upward seen) {n : NodeId} {i : Nat}
    {rows : Rows} {written : Written} (cache : (s.nodes n).cache = some rows)
    (found : (s.nodes n).updates[i]? = some written) :
    Fresh b seen (s.setNode n { s.nodes n with
      cache := some { rows with
        table := Function.update rows.table written.key (some written.value) }
      updates := (s.nodes n).updates.eraseIdx i }) := by
  obtain ⟨past, recent, was⟩ := h.cache n rows cache
  obtain ⟨prompt, put⟩ := h.updates n written (List.mem_of_getElem? found)
  apply h.setNode
  · intro new is
    obtain rfl := Option.some.inj is
    refine ⟨past, recent, fun key => ?_⟩
    by_cases same : key = written.key
    · subst same
      apply up _ _ put
      intro m at_m
      have late : rows.since ≤ m.clock + b.update := by omega
      refine ⟨late, at_m.2.trans ?_⟩
      exact (Function.update_self written.key (some written.value) rows.table).symm
    · apply up _ _ (was key)
      intro m at_m
      refine ⟨at_m.1, at_m.2.trans ?_⟩
      exact (Function.update_of_ne same (some written.value) rows.table).symm
  · exact h.selected n
  · intro other mem
    exact h.updates n other (List.mem_of_mem_eraseIdx mem)

/-- What a node reads for a request was in the table not long before the request. -/
theorem Fresh.reads (h : Fresh b seen s) (up : Upward seen) {n : NodeId} {field : Field}
    {value : Text} (read : s.reads n field = some value) {started : Nat}
    (past : started ≤ s.clock) :
    seen fun m => started ≤ m.clock + (b.reload + b.update) ∧ field.of m.table = value := by
  obtain ⟨rows, cache, rfl⟩ := Option.map_eq_some_iff.mp read
  obtain ⟨_, recent, was⟩ := h.cache n rows cache
  apply up _ _ (was field.key)
  intro m at_m
  refine ⟨by omega, ?_⟩
  rw [Field.of, Field.of, at_m.2]

/-- By the stage: one more field is known, and it is one that the node has just read. -/
theorem known_advance {stage next : Stage} (taken : s.advance stage = some next) {field : Field}
    {value : Text} (known : next.known field = some value) :
    stage.known field = some value ∨ ∃ n, s.reads n field = some value := by
  cases stage with
  | serving n =>
    obtain ⟨name, read, rfl⟩ := Option.map_eq_some_iff.mp taken
    cases field with
    | siteName =>
      obtain rfl := Option.some.inj known
      exact .inr ⟨n, read⟩
    | defaultLang => cases known
    | libraryMode => cases known
  | readName n name =>
    obtain ⟨lang, read, rfl⟩ := Option.map_eq_some_iff.mp taken
    cases field with
    | siteName => exact .inl known
    | defaultLang =>
      obtain rfl := Option.some.inj known
      exact .inr ⟨n, read⟩
    | libraryMode => cases known
  | readLang n name lang =>
    obtain ⟨mode, read, rfl⟩ := Option.map_eq_some_iff.mp taken
    cases field with
    | siteName => exact .inl known
    | defaultLang => exact .inl known
    | libraryMode =>
      obtain rfl := Option.some.inj known
      exact .inr ⟨n, read⟩
  | sent => cases taken
  | answered config => cases taken
  | received config => cases taken

theorem Fresh.receive (h : Fresh b seen s) (up : Upward seen) {t : Tab} {started : Nat}
    {config : Config} (request : s.inFlight t = some ⟨started, .answered config⟩) (stored : Bool) :
    Fresh b seen { s.setRequest t (some ⟨started, .received config⟩) with
      storage := if stored then Function.update s.storage t.browser (some ⟨config, s.clock⟩)
        else s.storage } := by
  obtain ⟨past, recent, was⟩ := h.inFlight t _ request
  have set : Fresh b seen (s.setRequest t (some ⟨started, .received config⟩)) := by
    apply h.setRequest
    intro r is
    obtain rfl := Option.some.inj is
    exact ⟨past, recent, was⟩
  refine ⟨set.cache, set.selected, set.updates, set.inFlight, fun browser entry is => ?_⟩
  dsimp only at is
  split at is
  · rw [Function.update_apply] at is
    split at is
    · obtain rfl := Option.some.inj is
      refine ⟨Nat.le_refl _, fun field => ?_⟩
      apply up _ _ (was field _ rfl)
      intro m at_m
      have since : started ≤ m.clock + (b.reload + b.update) := at_m.1
      have soon : s.clock ≤ started + b.fetch := recent
      have young : s.clock ≤ m.clock + (b.fetch + (b.reload + b.update)) := by omega
      exact ⟨young, at_m.2⟩
    · exact h.storage browser entry is
  · exact h.storage browser entry is

theorem Fresh.clear (h : Fresh b seen s) (browser : BrowserId) :
    Fresh b seen { s with storage := Function.update s.storage browser none } := by
  refine ⟨h.cache, h.selected, h.updates, h.inFlight, fun other entry is => ?_⟩
  dsimp only at is
  rw [Function.update_apply] at is
  split at is
  · cases is
  · exact h.storage other entry is

theorem Fresh.step {s' : World} {a : Action} (h : Fresh b seen s) (up : Upward seen)
    (now : ∀ P, P s → seen P)
    (now' : ∀ P, P s' → seen P) (inTime : InTime b s a) (taken : SiteConfig.step s a = some s') :
    Fresh b seen s' := by
  cases a with
  | tick d =>
    cases taken
    exact h.tick inTime
  | write key value =>
    cases taken
    exact h.write key value
  | select n =>
    simp only [SiteConfig.step] at taken
    split at taken
    · cases taken
      exact h.select now n
    · cases taken
  | swap n =>
    obtain ⟨rows, selected, rfl⟩ := Option.map_eq_some_iff.mp taken
    exact h.swap up selected
  | giveUp n =>
    cases taken
    apply h.setNode
    · exact h.cache n
    · intro rows is
      cases is
    · exact h.updates n
  | exec n key value =>
    simp only [SiteConfig.step] at taken
    split at taken
    · cases taken
    · cases taken
      apply Fresh.write (s := s.setNode n _)
      apply h.setNode
      · exact h.cache n
      · exact h.selected n
      · intro written mem
        rcases List.mem_append.mp mem with before | new
        · exact h.updates n written before
        · obtain rfl := List.mem_singleton.mp new
          exact ⟨Nat.le_add_right _ _, now' _ ⟨Nat.le_refl _, Function.update_self ..⟩⟩
  | assign n i =>
    simp only [SiteConfig.step] at taken
    split at taken
    next rows written cache found =>
      cases taken
      exact h.assign up cache found
    · cases taken
  | stop n =>
    cases taken
    apply h.setNode <;> simp [down]
  | get t =>
    simp only [SiteConfig.step] at taken
    split at taken
    · cases taken
      apply h.setRequest
      intro r is
      obtain rfl := Option.some.inj is
      exact ⟨Nat.le_refl _, Nat.le_add_right _ _, fun _ _ known => by cases known⟩
    · cases taken
      exact h
  | reach t n =>
    simp only [SiteConfig.step] at taken
    split at taken
    next started request =>
      cases taken
      apply h.setRequest
      intro r is
      obtain rfl := Option.some.inj is
      obtain ⟨past, recent, _⟩ := h.inFlight t _ request
      exact ⟨past, recent, fun _ _ known => by cases known⟩
    · cases taken
  | read t =>
    obtain ⟨r, request, taken⟩ := Option.bind_eq_some_iff.mp taken
    obtain ⟨stage, advances, rfl⟩ := Option.map_eq_some_iff.mp taken
    apply h.setRequest
    intro new is
    obtain rfl := Option.some.inj is
    obtain ⟨past, recent, was⟩ := h.inFlight t r request
    refine ⟨past, recent, fun field value known => ?_⟩
    rcases known_advance advances known with before | ⟨n, read⟩
    · exact was field value before
    · exact h.reads up read past
  | receive t stored =>
    simp only [SiteConfig.step] at taken
    split at taken
    next started config request =>
      cases taken
      exact h.receive up request stored
    · cases taken
  | resolve t =>
    simp only [SiteConfig.step] at taken
    split at taken
    · cases taken
      exact h.setRequest fun _ is => by cases is
    · cases taken
  | reject t =>
    cases taken
    exact h.setRequest fun _ is => by cases is
  | clear browser =>
    cases taken
    exact h.clear browser

/-- What is shown has been read within the time that the layers take together. -/
theorem Fresh.shown (h : Fresh b seen s) (up : Upward seen) {a : Action} {config : Config}
    (shown : shows s a = some config) (field : Field) :
    seen fun m => s.clock ≤ m.clock + b.total ∧ field.of m.table = config.field field := by
  unfold Bounds.total
  cases a with
  | get t =>
    obtain ⟨entry, item, young⟩ := Option.bind_eq_some_iff.mp shown
    obtain ⟨past, was⟩ := h.storage t.browser entry item
    split at young
    next recent =>
      obtain rfl := Option.some.inj young
      apply up _ _ (was field)
      intro m at_m
      exact ⟨by omega, at_m.2⟩
    · cases young
  | resolve t =>
    simp only [shows] at shown
    split at shown
    next started config' request =>
      obtain rfl := Option.some.inj shown
      obtain ⟨_, recent, was⟩ := h.inFlight t _ request
      apply up _ _ (was field _ rfl)
      intro m at_m
      have since : started ≤ m.clock + (b.reload + b.update) := at_m.1
      have soon : s.clock ≤ started + b.fetch := recent
      exact ⟨by omega, at_m.2⟩
    · cases shown
  | _ => cases shown

end Steps

theorem fresh_invariant {b : Bounds} {clock : Nat} {table : Table} {trace : List Action} {s : World}
    (h : Run step (InTime b) (initial clock table) trace s) :
    Fresh b (Passed step (InTime b) (initial clock table) trace s) s := by
  induction h with
  | start => exact fresh_initial clock table
  | @next trace s s' a before meets taken ih =>
    have grown := ih.grow fun _ passed => passed.next meets taken
    apply grown.step (fun _ _ passed weaker => passed.mono weaker) _ _ meets taken
    · exact fun _ now => (Passed.here before now).next meets taken
    · exact fun _ now => Passed.here (.next before meets taken) now

/-- However nodes, tabs and writers take turns: every field of a config that a page is given is what
the settings table said at some moment that lies back at most the five minutes of the browser, the
time of the request, and the time that the memory of a node may lag. -/
theorem site_config_recent {b : Bounds} {clock : Nat} {table : Table} {trace : List Action}
    {s : World} (h : Run step (InTime b) (initial clock table) trace s) {a : Action}
    {config : Config} (shown : shows s a = some config) (field : Field) :
    Passed step (InTime b) (initial clock table) trace s fun m =>
      s.clock ≤ m.clock + b.total ∧ field.of m.table = config.field field :=
  (fresh_invariant h).shown (fun _ _ passed weaker => passed.mono weaker) shown field

def named (name : String) : Table :=
  Function.update (fun _ => none) "site_name".toList (some (.string name.toList))

/-- One tab has asked, the name changes, and another tab of the browser looks at the copy. -/
def renamed : List Action :=
  [.select 1, .swap 1, .get ⟨0, 0⟩, .reach ⟨0, 0⟩ 1, .read ⟨0, 0⟩, .read ⟨0, 0⟩, .read ⟨0, 0⟩,
    .tick 20, .receive ⟨0, 0⟩ true, .resolve ⟨0, 0⟩,
    .write "site_name".toList (some (.string "Films".toList)), .tick 1000]

def inSeconds : Bounds := ⟨60000, 100, 2000⟩

/-- Node 1 has read the table at the start; one browser, one tab. -/
def oneNode (clock : Nat) (table : Table) (item : Option CacheEntry) (request : Option Request) :
    World where
  clock := clock
  table := table
  nodes := Function.update (fun _ => down) 1 ⟨some ⟨named "Videos", 0⟩, none, []⟩
  storage := Function.update (fun _ => none) 0 item
  inFlight := Function.update (fun _ => none) ⟨0, 0⟩ request

theorem setRequest_oneNode (clock : Nat) (table : Table) (item : Option CacheEntry)
    (request next : Option Request) :
    (oneNode clock table item request).setRequest ⟨0, 0⟩ next = oneNode clock table item next := by
  simp [oneNode, World.setRequest]

theorem due_oneNode {b : Bounds} {clock now : Nat} {table : Table} {item : Option CacheEntry}
    {request : Option Request} (reload : now ≤ b.reload)
    (fetch : ∀ r ∈ request, now ≤ r.started + b.fetch) :
    Due b (oneNode clock table item request) now := by
  constructor
  · intro n rows is
    simp only [oneNode, Function.update_apply] at is
    split at is
    · obtain rfl := Option.some.inj is
      exact Nat.le_trans reload (Nat.le_add_left _ _)
    · cases is
  · intro n rows is
    simp only [oneNode, Function.update_apply] at is
    split at is <;> cases is
  · intro n written mem
    simp only [oneNode, Function.update_apply] at mem
    split at mem <;> cases mem
  · intro t r is
    simp only [oneNode, Function.update_apply] at is
    split at is
    · exact fetch r is
    · cases is

def videos : Config := ⟨"Videos".toList, "en".toList, "disabled".toList, "0.1.0".toList⟩

theorem run_renamed : Run step (InTime inSeconds) (initial 0 (named "Videos")) renamed
    (oneNode 1020 (named "Films") (some ⟨videos, 20⟩) none) := by
  have booted : Run step (InTime inSeconds) (initial 0 (named "Videos")) [.select 1, .swap 1]
      (oneNode 0 (named "Videos") none none) := by
    apply Run.next (Run.next .start trivial rfl) trivial
    simp [step, World.setNode, initial, oneNode, down]
  have moves : ∀ (item : Option CacheEntry) (request next : Option Request),
      some ((oneNode 0 (named "Videos") item request).setRequest ⟨0, 0⟩ next) =
        some (oneNode 0 (named "Videos") item next) :=
    fun item request next => congrArg some (setRequest_oneNode 0 _ item request next)
  have sent := Run.next booted (a := Action.get ⟨0, 0⟩) trivial (moves none none (some ⟨0, .sent⟩))
  have reached := Run.next sent (a := Action.reach ⟨0, 0⟩ 1) trivial
    (moves none (some ⟨0, .sent⟩) (some ⟨0, .serving 1⟩))
  have readName := Run.next reached (a := Action.read ⟨0, 0⟩) trivial
    (moves none (some ⟨0, .serving 1⟩) (some ⟨0, .readName 1 "Videos".toList⟩))
  have readLang := Run.next readName (a := Action.read ⟨0, 0⟩) trivial
    (moves none (some ⟨0, .readName 1 "Videos".toList⟩)
      (some ⟨0, .readLang 1 "Videos".toList "en".toList⟩))
  have answered := Run.next readLang (a := Action.read ⟨0, 0⟩) trivial
    (moves none (some ⟨0, .readLang 1 "Videos".toList "en".toList⟩) (some ⟨0, .answered videos⟩))
  have late := Run.next answered (a := Action.tick 20)
    (due_oneNode (by decide) (by simp [inSeconds, oneNode])) rfl
  have receives : step (oneNode 20 (named "Videos") none (some ⟨0, .answered videos⟩))
      (.receive ⟨0, 0⟩ true) =
        some (oneNode 20 (named "Videos") (some ⟨videos, 20⟩) (some ⟨0, .received videos⟩)) := by
    simp [step, oneNode, World.setRequest]
  have received := Run.next late (a := Action.receive ⟨0, 0⟩ true) trivial receives
  have resolved := Run.next received (a := Action.resolve ⟨0, 0⟩) trivial
    (congrArg some (setRequest_oneNode 20 (named "Videos") (some ⟨videos, 20⟩) _ none))
  have renames : step (oneNode 20 (named "Videos") (some ⟨videos, 20⟩) none)
      (.write "site_name".toList (some (.string "Films".toList))) =
        some (oneNode 20 (named "Films") (some ⟨videos, 20⟩) none) := by
    simp [step, oneNode, named]
  have wrote := Run.next resolved (a := Action.write _ _) trivial renames
  exact Run.next wrote (a := Action.tick 1000) (due_oneNode (by decide) (by simp)) rfl

theorem site_config_recent_renamed : ∃ s,
    Run step (InTime inSeconds) (initial 0 (named "Videos")) renamed s ∧ ∃ config,
      shows s (.get ⟨0, 1⟩) = some config ∧ ∀ field,
      Passed step (InTime inSeconds) (initial 0 (named "Videos")) renamed s fun m =>
        s.clock ≤ m.clock + inSeconds.total ∧ field.of m.table = config.field field := by
  have shown : shows (oneNode 1020 (named "Films") (some ⟨videos, 20⟩) none) (.get ⟨0, 1⟩) =
      some videos := by
    simp [shows, cachedSiteConfig, oneNode, cacheTtlMs]
  exact ⟨_, run_renamed, videos, shown, site_config_recent run_renamed shown⟩

end Vidsilo.Settings.SiteConfig
