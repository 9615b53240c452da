import Vidsilo.Jobs.MasterAgreement
import Vidsilo.Jobs.ServedKeys

/-!
# What a ready entry offers can be played

`Probe` and `Transcode` write the master, and the guard of the media route has rules of its own about
keys. The operations may interleave in any order here, and any statement may fail. Source: as `Master`
and `ServedKeys`.
-/
namespace Vidsilo.Jobs.Master
open Library Library.Program Library.SlashPath Library.Decimal Library.Transition
open Storage.Keys Tables Runner
open Api.MediaAcl (mediaACL)

/-- Whoever gets the master of the ready entry gets all that it names. -/
def Playable (entry : Int) (w : World) : Prop :=
  Ready w → ∀ p, w.master = some p → ∀ server visitor,
    mediaACL server { visitor with pathValue := masterKey entry } = .ok () →
      ∀ uri ∈ p.uris, Admits server visitor uri

/-- `Probe` when it has read the enabled flavors, and is about to read which are ticked. -/
def chooseFlavors (entry : Int) (e : Entry) (res : ProbeResult) (enabled : List Flavor) :
    Db (Option String) := do
  match ← entryFlavors with
  | .error err => pure (some err)
  | .ok ticked => do
    let pending ← effectiveFlavors entry res.height (ticked.map (·.flavorId)) enabled
    startTranscodes e res.durationMs pending

/-- The flavors of the list that `Probe` would transcode. -/
def chosen (w : World) (height : Int) (enabled : List Flavor) : List Flavor :=
  enabled.filter fun f => considered (w.entryFlavors.map (·.flavorId)) f && f.height ≤ height

/-- A `Probe` that is about to choose finds a flavor. -/
def Finds (entry : Int) (operation : Operation) (rest : Db (Option String)) (w : World) : Prop :=
  ∀ env e res enabled, operation = .probe env → rest = chooseFlavors entry e res enabled →
    chosen w res.height enabled ≠ []

/-- Names whose files the guard serves and URIs spell, and a `Probe` that finds a flavor. -/
def Fitting (entry : Int) (s : State) : Action → Prop
  | .start _ (.createFlavor f) | .start _ (.updateFlavor f) =>
    Offered entry (flavorPlaylistKey entry f.name)
  | .start _ (.addSubtitle lang _) => sanitizeLang lang ≠ "original".toList
  | .start _ _ => True
  | .statement id succeeds => succeeds = true → ∀ call ∈ s.calls, call.id = id →
      Finds entry call.operation call.rest s.world
  | .finish _ => True

/-- The file of a row that is done. -/
def OfferedRow (entry : Int) (r : EntryFlavor) : Prop :=
  r.status = .done → ∃ key, r.playlistKey = some key ∧ Offered entry key

structure Sound (entry : Int) (w : World) : Prop where
  flavors : ∀ f ∈ w.flavors, Offered entry (flavorPlaylistKey entry f.name)
  rows : ∀ r ∈ w.rows.rows, OfferedRow entry r
  subtitles : ∀ s ∈ w.subtitles, Offered entry s.vttKey
  master : ∀ p, w.master = some p → ∀ uri ∈ p.uris, ServedUri entry uri

variable {entry : Int} {backend : Backend} {w : World}

theorem Sound.playable (h : Sound entry w) : Playable entry w :=
  fun _ p isMaster _ _ ok uri mem => (h.master p isMaster uri mem).admits ok

theorem sound_start (entry : Int) : Sound entry start := ⟨nofun, nofun, nofun, nofun⟩

section Rows
variable {rows : EntryFlavors} (h : ∀ r ∈ rows.rows, OfferedRow entry r)
include h

theorem offeredRows_updateWhere (p : EntryFlavor → Bool) {status : EntryFlavorStatus}
    (error : Option String) {playlistKey : Option Text}
    (stored : status = .done → ∃ key, playlistKey = some key ∧ Offered entry key) :
    ∀ r ∈ (rows.updateWhere p status error playlistKey).rows, OfferedRow entry r := by
  intro r mem isDone
  obtain ⟨q, old, rfl⟩ := List.mem_map.mp mem
  by_cases own : p q
  · simp only [own, if_true] at isDone ⊢
    obtain ⟨key, isKey, served⟩ := stored isDone
    refine ⟨key, ?_, served⟩
    rw [EntryFlavor.set, isKey, Option.some_or]
  · rw [if_neg own] at isDone ⊢
    exact h q old isDone

theorem offeredRows_upsert (flavorId : Int) {status : EntryFlavorStatus} (notDone : status ≠ .done)
    (error : Option String) :
    ∀ r ∈ (rows.upsert entry flavorId status error).rows, OfferedRow entry r := by
  intro r mem isDone
  have isRow := EntryFlavors.mem_upsert mem
  split at isRow
  · exact absurd (isRow.symm.trans isDone) notDone
  · exact h r isRow isDone

theorem offeredRows_deleteWhere (p : EntryFlavor → Bool) :
    ∀ r ∈ (rows.deleteWhere p).rows, OfferedRow entry r :=
  fun r mem => h r (List.mem_of_mem_filter mem)

end Rows

theorem Sound.setRow (h : Sound entry w) (set : Entry → Entry) : Sound entry (w.setRow set) :=
  ⟨h.flavors, h.rows, h.subtitles, h.master⟩

theorem Sound.with_rows (h : Sound entry w) {rows : EntryFlavors}
    (served : ∀ r ∈ rows.rows, OfferedRow entry r) : Sound entry { w with rows := rows } :=
  ⟨h.flavors, served, h.subtitles, h.master⟩

/-- Nothing is promised of the value. -/
abbrev Safe (entry : Int) (p : Db α) : Prop := p.Guards (Sound entry) fun _ => True

theorem guards_query {between : α → Prop} {read : World → Except String α}
    (h : ∀ w, Sound entry w → ∀ a, read w = .ok a → between a) :
    (query read).Guards (Sound entry) fun res => ∀ a, res = .ok a → between a :=
  guards_statement nofun fun w sound => ⟨sound, h w sound⟩

theorem safe_query (read : World → Except String α) :
    (query read).Guards (Sound entry) fun res => ∀ a, res = .ok a → True :=
  guards_query fun _ _ _ _ => trivial

theorem safe_execute {set : World → World} (h : ∀ w, Sound entry w → Sound entry (set w)) :
    (execute set).Guards (Sound entry) fun res => ∀ a, res = .ok a → True :=
  guards_statement nofun fun w sound => ⟨h w sound, fun _ _ => trivial⟩

/-- An UPDATE of the entry. -/
theorem safe_setRow (set : Entry → Entry) :
    (execute fun w => w.setRow set).Guards (Sound entry) fun res => ∀ a, res = .ok a → True :=
  safe_execute fun _ sound => sound.setRow set

theorem safe_then {p : Db α} {k : α → Db β} {between : α → Prop}
    (h : p.Guards (Sound entry) between) (rest : ∀ a, Safe entry (k a)) : Safe entry (p >>= k) := guards_bind h fun a _ => rest a

theorem guards_flavorByID (id : Int) : (flavorByID id).Guards (Sound entry)
    fun res => ∀ f, res = .ok f → Offered entry (flavorPlaylistKey entry f.name) := by
  refine guards_query fun w sound f found => ?_
  cases isFlavor : w.flavorByID id with
  | none =>
    rw [isFlavor] at found
    cases found
  | some g =>
    rw [isFlavor] at found
    cases found
    exact sound.flavors f (List.mem_of_find?_eq_some isFlavor)

theorem guards_entryFlavors : entryFlavors.Guards (Sound entry)
    fun res => ∀ rows, res = .ok rows → ∀ r ∈ rows, OfferedRow entry r := by
  refine guards_query fun w sound rows read r mem => ?_
  cases read
  exact sound.rows r ((List.mem_insertionSort _).mp mem)

theorem guards_listSubtitles : listSubtitles.Guards (Sound entry)
    fun res => ∀ subs, res = .ok subs → ∀ s ∈ subs, Offered entry s.vttKey := by
  refine guards_query fun w sound subs read s mem => ?_
  cases read
  exact sound.subtitles s mem

theorem safe_entryByID : entryByID.Guards (Sound entry) fun res => ∀ e, res = .ok e → True :=
  safe_query _

theorem safe_enqueue : enqueue.Guards (Sound entry) fun res => ∀ a, res = .ok a → True :=
  safe_query _

theorem guards_putMaster {p : Playlist} (served : ∀ uri ∈ p.uris, ServedUri entry uri) :
    (putMaster p).Guards (Sound entry) fun res => ∀ a, res = .ok a → True := by
  refine safe_execute fun w sound => ⟨sound.flavors, sound.rows, sound.subtitles, ?_⟩
  intro q isMaster
  cases isMaster
  exact served

theorem guards_updateFlavorRow (flavorId : Int) {status : EntryFlavorStatus} (error : Option String)
    {playlistKey : Option Text}
    (stored : status = .done → ∃ key, playlistKey = some key ∧ Offered entry key) :
    (updateFlavorRow entry flavorId status error playlistKey).Guards (Sound entry)
      fun res => ∀ a, res = .ok a → True :=
  safe_execute fun _ sound => sound.with_rows (offeredRows_updateWhere sound.rows _ error stored)

theorem guards_insertFlavorRow (flavorId : Int) {status : EntryFlavorStatus} (notDone : status ≠ .done)
    (error : Option String) : (insertFlavorRow entry flavorId status error).Guards (Sound entry)
      fun res => ∀ a, res = .ok a → True := by
  refine guards_statement (fun _ _ => trivial) fun w sound => ⟨?_, fun _ _ => trivial⟩
  split
  · exact sound.with_rows (offeredRows_upsert sound.rows flavorId notDone error)
  · exact sound

theorem safe_markFlavor (flavorId : Int) {status : EntryFlavorStatus} (notDone : status ≠ .done)
    (errMsg : String) : Safe entry (markFlavor entry flavorId status errMsg) :=
  safe_then (guards_updateFlavorRow flavorId _ fun isDone => absurd isDone notDone) fun _ => trivial

theorem safe_markFlavorDone (flavorId : Int) {playlistKey : Text} (served : Offered entry playlistKey) :
    Safe entry (markFlavorDone entry flavorId playlistKey) :=
  safe_then (guards_updateFlavorRow flavorId _ fun _ => ⟨playlistKey, rfl, served⟩) fun _ => trivial

theorem safe_failEntry (msg : String) : Safe entry (failEntry msg) :=
  safe_then (safe_setRow _) fun _ => trivial

theorem OfferedRow.rendition {r : EntryFlavor} (h : OfferedRow entry r) (isDone : r.status = .done)
    (f : Flavor) : ServedUri entry (rendition f r).playlistKey := by
  obtain ⟨key, isKey, served⟩ := h isDone
  rw [Master.rendition, isKey]
  exact served.mediaURI

theorem guards_renditions (rows : List EntryFlavor) (served : ∀ r ∈ rows, OfferedRow entry r) :
    (renditions rows).Guards (Sound entry)
      fun rends => ∀ r ∈ rends, ServedUri entry r.playlistKey := by
  induction rows with
  | nil => exact guards_pure nofun
  | cons r rest ih =>
    have ih := ih fun q mem => served q (List.mem_cons_of_mem r mem)
    unfold renditions
    split
    · exact ih
    next isDone =>
      simp only [ne_eq, not_not] at isDone
      refine guards_try (guards_flavorByID r.flavorId) (fun _ => ih) fun f _ => ?_
      refine guards_bind ih fun more promised => guards_pure fun q mem => ?_
      rcases List.mem_cons.mp mem with rfl | mem
      · exact (served r List.mem_cons_self).rendition isDone f
      · exact promised q mem

theorem served_uris {rends : List Rendition} {subs : List Subtitle}
    (renditions : ∀ r ∈ rends, ServedUri entry r.playlistKey)
    (subtitles : ∀ s ∈ subs, Offered entry s.vttKey) :
    ∀ uri ∈ (Playlist.mk rends (subs.map subtitleRendition)).uris, ServedUri entry uri := by
  intro uri mem
  rcases List.mem_append.mp mem with mem | mem
  · obtain ⟨r, isOne, rfl⟩ := List.mem_map.mp mem
    exact renditions r isOne
  · obtain ⟨_, isOne, rfl⟩ := List.mem_map.mp mem
    obtain ⟨s, isSub, rfl⟩ := List.mem_map.mp isOne
    exact (subtitles s isSub).mediaURI

theorem safe_buildMaster : Safe entry buildMaster := by
  refine guards_try guards_entryFlavors (fun _ => trivial) fun rows served => ?_
  refine guards_try guards_listSubtitles (fun _ => trivial) fun subs subtitles => ?_
  refine guards_bind (guards_renditions rows served) fun rends promised => ?_
  exact safe_then (guards_putMaster (served_uris promised subtitles)) fun _ => trivial

theorem safe_removeMasterIf (selected : Bool) : Safe entry (removeMasterIf selected) := by
  unfold removeMasterIf
  split
  · refine safe_then (safe_execute fun _ sound => ?_) fun _ => trivial
    exact ⟨sound.flavors, sound.rows, sound.subtitles, nofun⟩
  · trivial

theorem safe_deleteListed (listPrefix : Text) : Safe entry (deleteListed entry backend listPrefix) :=
  guards_try (safe_query fun w => .ok w.master.isSome) (fun _ => trivial)
    fun _ _ => safe_removeMasterIf _

theorem safe_deleteMedia (id : Int) : Safe entry (deleteMedia entry backend id) :=
  safe_then (safe_deleteListed _) fun _ => safe_removeMasterIf _

theorem safe_removeFlavorFiles (id : Int) (name : Text) :
    Safe entry (removeFlavorFiles entry backend id name) :=
  safe_then (safe_deleteListed _) fun _ => safe_removeMasterIf _

theorem safe_finalizeTranscode : Safe entry finalizeTranscode := by
  refine guards_try safe_entryByID (fun _ => trivial) fun _ _ => ?_
  dsimp only
  refine guards_try (safe_query fun w => .ok w.remaining) (fun _ => trivial) fun remaining _ => ?_
  dsimp only
  split
  · trivial
  · refine guards_try (safe_query fun w => .ok w.doneCount) (fun _ => trivial) fun done _ => ?_
    dsimp only
    split
    · exact safe_then (safe_failEntry _) fun _ => trivial
    · refine safe_then safe_buildMaster fun res => ?_
      cases res with
      | some err => trivial
      | none => exact safe_then (safe_setRow _) fun _ => trivial

theorem safe_flavorFailed (flavorId : Int) (err : String) :
    Safe entry (flavorFailed entry flavorId err) :=
  safe_then (safe_markFlavor flavorId (by decide) err) fun _ => safe_finalizeTranscode

theorem safe_encode (env : Env) (flavorId : Int) {f : Flavor}
    (offered : Offered entry (flavorPlaylistKey entry f.name)) :
    Safe entry (encode entry backend env flavorId f) := by
  have failed (err : String) : Safe entry (do
      cleanup entry backend entry f.name
      flavorFailed entry flavorId err) :=
    safe_then (safe_removeMasterIf _) fun _ => safe_flavorFailed flavorId err
  unfold encode
  split
  · exact failed _
  · refine guards_try safe_entryByID
      (fun _ => safe_then (safe_removeMasterIf _) fun _ => trivial) fun _ _ => ?_
    dsimp only
    split
    · exact failed _
    · exact safe_then (safe_markFlavorDone flavorId offered) fun _ => safe_finalizeTranscode

theorem safe_transcode (env : Env) (flavorId : Int) :
    Safe entry (transcode entry backend env flavorId) := by
  refine guards_try safe_entryByID (fun _ => trivial) fun e _ => ?_
  dsimp only
  split
  · exact safe_then (safe_failEntry _) fun _ => trivial
  · refine guards_try (guards_flavorByID flavorId) (fun _ => safe_flavorFailed flavorId _)
      fun f offered => ?_
    refine safe_then (safe_markFlavor flavorId (by decide) _) fun _ => ?_
    refine guards_try safe_entryByID (fun _ => trivial) fun _ _ => ?_
    dsimp only
    split
    · exact safe_flavorFailed flavorId _
    · exact safe_encode env flavorId offered

theorem safe_tickFlavor (flavorId : Int) {status : EntryFlavorStatus} (notDone : status ≠ .done)
    (error : Option String) : Safe entry (tickFlavor entry flavorId status error) :=
  safe_then (guards_insertFlavorRow flavorId notDone error) fun _ => trivial

/-- The ticks may fail; what is pending does not depend on them. -/
theorem guards_effectiveFlavors {inv : World → Prop}
    (ticks : ∀ flavorId status error, status ≠ EntryFlavorStatus.done →
      (tickFlavor entry flavorId status error).Guards inv fun _ => True)
    (height : Int) (ticked : List Int) (fs : List Flavor) :
    (effectiveFlavors entry height ticked fs).Guards inv fun ids =>
      ids = (fs.filter fun f => considered ticked f && f.height ≤ height).map (·.id) := by
  induction fs with
  | nil => exact guards_pure rfl
  | cons f rest ih =>
    unfold effectiveFlavors
    by_cases isConsidered : considered ticked f = false
    · rw [if_pos isConsidered, List.filter_cons_of_neg (by simp [isConsidered])]
      exact ih
    · rw [if_neg isConsidered]
      simp only [Bool.not_eq_false] at isConsidered
      by_cases shorter : height < f.height
      · rw [if_pos shorter, List.filter_cons_of_neg (by simp [shorter])]
        exact guards_bind (ticks f.id .skipped _ (by decide)) fun _ _ => ih
      · have fits : f.height ≤ height := by omega
        rw [if_neg shorter, List.filter_cons_of_pos (by simp [isConsidered, fits])]
        refine guards_bind (ticks f.id .pending none (by decide)) fun _ _ => ?_
        refine guards_bind ih fun pending promised => guards_pure ?_
        rw [promised, List.map_cons]

theorem safe_enqueueTranscodes (ids : List Int) : Safe entry (enqueueTranscodes ids) := by
  induction ids with
  | nil => trivial
  | cons id rest ih => exact guards_try safe_enqueue (fun _ => trivial) fun _ _ => ih

theorem safe_startTranscodes (e : Entry) (durationMs : Int) {pending : List Int}
    (found : pending ≠ []) : Safe entry (startTranscodes e durationMs pending) := by
  rw [startTranscodes, if_neg found]
  exact guards_try (safe_setRow _) (fun _ => trivial) fun _ _ => safe_enqueueTranscodes pending

theorem guardsWhile_chooseFlavors (env : Env) (e : Entry) (res : ProbeResult) (enabled : List Flavor) :
    (chooseFlavors entry e res enabled).GuardsWhile (Finds entry (.probe env)) (Sound entry) := by
  refine ⟨fun w sound finds => ⟨sound, Guards.guardsWhile (?_ : Safe entry _)⟩, trivial⟩
  have found := finds env e res enabled rfl rfl
  change Safe entry (effectiveFlavors entry res.height (w.entryFlavors.map (·.flavorId)) enabled >>=
    startTranscodes e res.durationMs)
  have ticks (flavorId : Int) (status : EntryFlavorStatus) (error : Option String)
      (notDone : status ≠ .done) : Safe entry (tickFlavor entry flavorId status error) :=
    safe_tickFlavor flavorId notDone error
  refine guards_bind (guards_effectiveFlavors ticks _ _ _) fun pending promised => ?_
  refine safe_startTranscodes e res.durationMs ?_
  rw [promised, ne_eq, List.map_eq_nil_iff]
  exact found

/-- A call that may fail, before the `Probe` chooses. -/
theorem guardsWhile_try {may : Db (Option String) → World → Prop} {between : α → Prop}
    {p : Db (Except String α)} {k : Except String α → Db (Option String)}
    (h : p.Guards (Sound entry) fun res => ∀ a, res = .ok a → between a)
    (refused : ∀ err, Safe entry (k (.error err)))
    (go : ∀ a, (k (.ok a)).GuardsWhile may (Sound entry)) :
    (p >>= k).GuardsWhile may (Sound entry) := by
  refine guardsWhile_bind h fun res _ => ?_
  cases res with
  | error err => exact (refused err).guardsWhile
  | ok a => exact go a

theorem guardsWhile_probe (env : Env) :
    (probe entry env).GuardsWhile (Finds entry (.probe env)) (Sound entry) := by
  refine guardsWhile_try safe_entryByID (fun _ => trivial) fun e => ?_
  dsimp only
  split
  · trivial
  · split
    · trivial
    · split
      · refine Guards.guardsWhile (?_ : Safe entry _)
        exact safe_then (safe_failEntry _) fun _ => trivial
      next res _ =>
        refine guardsWhile_try safe_entryByID (fun _ => trivial) fun _ => ?_
        dsimp only
        refine guardsWhile_try (safe_query fun w => .ok w.enabledFlavors) (fun _ => trivial)
          fun enabled => ?_
        exact guardsWhile_chooseFlavors env e res enabled

theorem safe_prepareFlavor (flavorId : Int) : Safe entry (prepareFlavor entry flavorId) := by
  refine guards_try (guards_insertFlavorRow flavorId (by decide) none) (fun _ => trivial) fun _ _ => ?_
  exact safe_then safe_enqueue fun _ => trivial

theorem safe_prepareFlavors (ids : List Int) : Safe entry (prepareFlavors entry ids) := by
  induction ids with
  | nil => trivial
  | cons id rest ih =>
    refine safe_then (safe_prepareFlavor id) fun res => ?_
    cases res with
    | some err => trivial
    | none => exact ih

theorem safe_removeFlavor (flavorId : Int) : Safe entry (removeFlavor entry backend flavorId) := by
  refine guards_try (guards_flavorByID flavorId) (fun _ => trivial) fun f _ => ?_
  refine safe_then (safe_removeFlavorFiles entry f.name) fun _ => ?_
  refine safe_then (safe_execute fun w sound => ?_) fun _ => trivial
  exact sound.with_rows (offeredRows_deleteWhere sound.rows _)

theorem safe_removeFlavors (ids : List Int) : Safe entry (removeFlavors entry backend ids) := by
  induction ids with
  | nil => trivial
  | cons id rest ih =>
    refine safe_then (safe_removeFlavor id) fun res => ?_
    cases res with
    | some err => trivial
    | none => exact ih

theorem safe_reprobe : Safe entry reprobe := safe_then (safe_setRow _) fun _ => trivial

theorem safe_failWithoutRenditions : Safe entry failWithoutRenditions := by
  refine guards_try (safe_query _) (fun _ => trivial) fun doneCount _ => ?_
  dsimp only
  split
  · exact safe_then (safe_setRow _) fun _ => trivial
  · trivial

theorem safe_finishApply (grown : Bool) : Safe entry (finishApply grown) := by
  refine guards_try safe_entryByID (fun _ => trivial) fun _ _ => ?_
  cases grown with
  | true =>
    refine safe_then safe_reprobe fun _ => safe_then safe_buildMaster fun res => ?_
    cases res with
    | some err => trivial
    | none => trivial
  | false =>
    refine safe_then safe_buildMaster fun res => ?_
    cases res with
    | some err => trivial
    | none => exact safe_failWithoutRenditions

theorem safe_applyFlavors (flavorIds : List Int) :
    Safe entry (applyFlavors entry backend flavorIds) := by
  refine guards_try guards_entryFlavors (fun _ => trivial) fun rows _ => ?_
  refine safe_then (safe_prepareFlavors _) fun res => ?_
  cases res with
  | some err => trivial
  | none =>
    refine safe_then (safe_removeFlavors _) fun res => ?_
    cases res with
    | some err => trivial
    | none => exact safe_finishApply _

theorem safe_addSubtitle (lang label : Text) {vttKey : Text} (served : Offered entry vttKey) :
    Safe entry (addSubtitle lang label vttKey) := by
  refine guards_statement trivial fun w sound => ⟨?_, trivial⟩
  split
  · refine ⟨sound.flavors, sound.rows, fun s mem => ?_, sound.master⟩
    rcases List.mem_append.mp mem with old | new
    · exact sound.subtitles s old
    · rw [List.mem_singleton.mp new]
      exact served
  · exact sound

theorem safe_subtitleAdd (lang label : Text) (other : sanitizeLang lang ≠ "original".toList) :
    Safe entry (handleEntrySubtitleAdd entry lang label) := by
  have other : sanitizeLang (if lang = [] then "en".toList else lang) ≠ "original".toList := by
    split
    · decide
    · exact other
  refine guards_try safe_entryByID (fun _ => trivial) fun _ _ => ?_
  refine guards_try (safe_query fun _ => .ok ()) (fun _ => trivial) fun _ _ => ?_
  have served := (offered_subtitleKey_iff entry _).mpr other
  exact safe_then (safe_addSubtitle _ label served) fun _ => trivial

theorem safe_deleteSubtitle (id : Int) : Safe entry (deleteSubtitle id) := by
  refine guards_statement trivial fun w sound => ⟨?_, trivial⟩
  refine ⟨sound.flavors, sound.rows, fun s mem => ?_, sound.master⟩
  exact sound.subtitles s (List.mem_of_mem_filter mem)

theorem safe_subtitleDelete (id : Int) : Safe entry (handleEntrySubtitleDelete id) := by
  refine guards_try safe_entryByID (fun _ => trivial) fun _ _ => ?_
  refine guards_try guards_listSubtitles (fun _ => trivial) fun _ _ => ?_
  exact safe_then (safe_deleteSubtitle id) fun _ => trivial

theorem safe_createFlavor {f : Flavor} (served : Offered entry (flavorPlaylistKey entry f.name)) :
    Safe entry (createFlavor f) := by
  refine safe_then (safe_execute fun w sound => ?_) fun _ => trivial
  refine ⟨fun g mem => ?_, sound.rows, sound.subtitles, sound.master⟩
  rcases List.mem_append.mp mem with old | new
  · exact sound.flavors g old
  · rw [List.mem_singleton.mp new]
    exact served

theorem safe_updateFlavor {f : Flavor} (served : Offered entry (flavorPlaylistKey entry f.name)) :
    Safe entry (updateFlavor f) := by
  refine safe_then (safe_execute fun w sound => ?_) fun _ => trivial
  refine ⟨fun g mem => ?_, sound.rows, sound.subtitles, sound.master⟩
  obtain ⟨old, isFlavor, rfl⟩ := List.mem_map.mp mem
  split
  · exact served
  · exact sound.flavors old isFlavor

theorem safe_deleteFlavor (id : Int) : Safe entry (deleteFlavor id) := by
  refine safe_then (safe_execute fun w sound => ?_) fun _ => trivial
  refine ⟨fun g mem => ?_, offeredRows_deleteWhere sound.rows _, sound.subtitles, sound.master⟩
  exact sound.flavors g (List.mem_of_mem_filter mem)

theorem safe_handOff (ext : Text) (size : Int) (clearError : Bool) :
    Safe entry (handOff entry ext size clearError) :=
  guards_try (safe_setRow _) (fun _ => trivial) fun _ _ => safe_then safe_enqueue fun _ => trivial

theorem safe_download (env : Env) : Safe entry (download entry env) := by
  have failed (msg : String) : Safe entry (downloadFailed msg) :=
    safe_then (safe_failEntry _) fun _ => trivial
  refine guards_try safe_entryByID (fun _ => trivial) fun _ _ => ?_
  dsimp only
  split
  · exact failed _
  · refine guards_try safe_entryByID (fun _ => trivial) fun _ _ => ?_
    dsimp only
    split
    · exact failed _
    · exact safe_handOff _ _ true

theorem safe_reprocess (bulk : Bool) : Safe entry (handleEntryReprocess bulk) := by
  refine guards_try safe_entryByID (fun _ => trivial) fun e _ => ?_
  dsimp only
  split
  · trivial
  · refine guards_try safe_enqueue (fun _ => trivial) fun _ _ => ?_
    exact safe_then safe_reprobe fun _ => trivial

theorem safe_deleteEntry : Safe entry (handleEntryDelete entry backend) := by
  refine guards_try safe_entryByID (fun _ => trivial) fun _ _ => ?_
  refine safe_then (safe_deleteMedia entry) fun _ => ?_
  refine guards_try (safe_execute fun w sound => ?_) (fun _ => trivial) fun _ _ => ?_
  · exact ⟨sound.flavors, nofun, nofun, sound.master⟩
  · exact safe_then (safe_deleteMedia entry) fun _ => trivial

theorem safe_deleteOther (other : Int) : Safe entry (deleteOther entry backend other) := by
  refine safe_then (safe_deleteMedia other) fun _ => ?_
  refine guards_try (safe_query fun _ => .ok ()) (fun _ => trivial) fun _ _ => ?_
  exact safe_then (safe_deleteMedia other) fun _ => trivial

theorem safe_removeOtherFlavor (other flavorId : Int) :
    Safe entry (removeOtherFlavor entry backend other flavorId) := by
  refine guards_try (guards_flavorByID flavorId) (fun _ => trivial) fun f _ => ?_
  refine safe_then (safe_removeFlavorFiles other f.name) fun _ => ?_
  exact safe_then (safe_query fun _ => .ok ()) fun _ => trivial

theorem safe_giveUpOther (other flavorId : Int) :
    Safe entry (giveUpOther entry backend other flavorId) := by
  refine guards_try (guards_flavorByID flavorId) (fun _ => trivial) fun f _ => ?_
  exact safe_then (safe_removeMasterIf _) fun _ => trivial

theorem safe_revertFlavors (flavorIds : List Int) : Safe entry (revertFlavors flavorIds) := by
  refine safe_then (safe_execute fun w sound => ?_) fun _ => trivial
  exact sound.with_rows (offeredRows_updateWhere sound.rows _ none nofun)

variable {s s' : State} {id : Nat}

theorem guardsWhile_program {operation : Operation} (fitting : Fitting entry s (.start id operation)) :
    (program entry backend operation).GuardsWhile (Finds entry operation) (Sound entry) := by
  have safe {p : Db (Option String)} (h : Safe entry p) :
      p.GuardsWhile (Finds entry operation) (Sound entry) := h.guardsWhile
  cases operation with
  | finishUpload ext size => exact safe (safe_handOff ext size false)
  | download env => exact safe (safe_download env)
  | reprocess bulk => exact safe (safe_reprocess bulk)
  | deleteEntry => exact safe safe_deleteEntry
  | applyFlavors flavorIds => exact safe (safe_applyFlavors flavorIds)
  | probe env => exact guardsWhile_probe env
  | transcode env flavorId => exact safe (safe_transcode env flavorId)
  | revertFlavors flavorIds => exact safe (safe_revertFlavors flavorIds)
  | addSubtitle lang label => exact safe (safe_subtitleAdd lang label fitting)
  | deleteSubtitle id => exact safe (safe_subtitleDelete id)
  | createFlavor f => exact safe (safe_createFlavor fitting)
  | updateFlavor f => exact safe (safe_updateFlavor fitting)
  | deleteFlavor id => exact safe (safe_deleteFlavor id)
  | deleteOther other => exact safe (safe_deleteOther other)
  | removeOtherFlavor other flavorId => exact safe (safe_removeOtherFlavor other flavorId)
  | giveUpOther other flavorId => exact safe (safe_giveUpOther other flavorId)

/-- What is stored is served, and every operation in progress keeps it so. -/
structure Kept (entry : Int) (s : State) : Prop where
  world : Sound entry s.world
  calls : ∀ call ∈ s.calls, call.rest.GuardsWhile (Finds entry call.operation) (Sound entry)

theorem Kept.others (h : Kept entry s) (id : Nat) : ∀ call ∈ s.others id,
    call.rest.GuardsWhile (Finds entry call.operation) (Sound entry) :=
  fun call mem => h.calls call (List.mem_of_mem_filter mem)

theorem Kept.start (h : Kept entry s) {operation : Operation}
    (fitting : Fitting entry s (.start id operation))
    (taken : step entry backend s (.start id operation) = some s') : Kept entry s' := by
  unfold Master.step at taken
  dsimp only at taken
  split at taken
  · cases taken
  · cases taken
    refine ⟨h.world, fun call mem => ?_⟩
    rcases List.mem_cons.mp mem with rfl | old
    · exact guardsWhile_program fitting
    · exact h.calls call old

theorem Kept.statement (h : Kept entry s) {succeeds : Bool}
    (fitting : Fitting entry s (.statement id succeeds))
    (taken : step entry backend s (.statement id succeeds) = some s') : Kept entry s' := by
  obtain ⟨call, found, taken⟩ := Option.bind_eq_some_iff.mp taken
  obtain ⟨⟨rest, w'⟩, advanced, rfl⟩ := Option.map_eq_some_iff.mp taken
  have isCall : call ∈ s.calls := List.mem_of_find?_eq_some found
  have own : call.id = id := by simpa using List.find?_some found
  obtain ⟨kept, later⟩ := (h.calls call isCall).advance h.world
    (fun succeeded => fitting succeeded call isCall own) advanced
  refine ⟨kept, fun other mem => ?_⟩
  rcases List.mem_cons.mp mem with rfl | old
  · exact later
  · exact h.others id other old

theorem Kept.finish (h : Kept entry s) (taken : step entry backend s (.finish id) = some s') :
    Kept entry s' := by
  unfold Master.step at taken
  dsimp only at taken
  split at taken
  · cases taken
    exact ⟨h.world, h.others id⟩
  · cases taken

theorem Kept.step (h : Kept entry s) {a : Action} (fitting : Fitting entry s a)
    (taken : Master.step entry backend s a = some s') : Kept entry s' := by
  cases a with
  | start id operation => exact h.start fitting taken
  | statement id succeeds => exact h.statement fitting taken
  | finish id => exact h.finish taken

/-- The loop writes rows and nothing else. -/
theorem exec_effectiveFlavors_rows (height : Int) (ticked : List Int) (fs : List Flavor) (w : World) :
    ∃ rows, (effectiveFlavors entry height ticked fs).exec w =
      ((fs.filter fun f => considered ticked f && f.height ≤ height).map (·.id),
        { w with rows := rows }) := by
  have ticks (flavorId : Int) (status : EntryFlavorStatus) (error : Option String)
      (_ : status ≠ .done) : (tickFlavor entry flavorId status error).Guards
        (fun w' => ∃ rows, w' = { w with rows := rows }) fun _ => True := by
    have added : (insertFlavorRow entry flavorId status error).Guards
        (fun w' => ∃ rows, w' = { w with rows := rows }) fun _ => True := by
      refine guards_statement trivial ?_
      rintro w' ⟨rows, rfl⟩
      refine ⟨?_, trivial⟩
      split
      · exact ⟨_, rfl⟩
      · exact ⟨rows, rfl⟩
    exact guards_bind added fun _ _ => trivial
  obtain ⟨⟨rows, kept⟩, pending⟩ := (guards_effectiveFlavors ticks height ticked fs).exec ⟨w.rows, rfl⟩
  exact ⟨rows, Prod.ext pending kept⟩

/-- It publishes the source. -/
theorem exec_chooseFlavors_none {e : Entry} {res : ProbeResult} {enabled : List Flavor}
    (none : chosen w res.height enabled = []) : ∃ rows,
    ((chooseFlavors entry e res enabled).exec w).2 =
      { w with
        rows := rows
        row := w.row.map fun e => { setReady e with durationMs := some res.durationMs }
        master := some ⟨if e.sourceKey = [] then [] else [sourceRendition e.sourceKey],
          w.subtitles.map subtitleRendition⟩ } := by
  obtain ⟨rows, done⟩ : ∃ rows, (effectiveFlavors entry res.height _ enabled).exec w = _ :=
    exec_effectiveFlavors_rows res.height (w.entryFlavors.map (·.flavorId)) enabled w
  unfold chosen at none
  rw [none] at done
  refine ⟨rows, ?_⟩
  simp only [chooseFlavors, entryFlavors, exec_bind, exec_query, done, List.map_nil, startTranscodes,
    if_true, publishSourcePlaylist, listSubtitles, putMaster, exec_execute, exec_pure, World.setRow]

theorem unplayable_of_refused {p : Playlist} {uri : Text} (low : -(cutoff : Int) ≤ entry)
    (high : entry < cutoff) (ready : Ready w) (stored : w.master = some p) (named : uri ∈ p.uris)
    (refused : ¬ ServedUri entry uri) : ¬ Playable entry w :=
  fun playable => refused (served_of_admits (entryID_masterKey low high) fun server visitor ok =>
    playable ready p stored server visitor ok uri named)

/-- Then the entry is ready, and its master names what is never served. -/
theorem unplayable_of_none {e row : Entry} {res : ProbeResult} {enabled : List Flavor} {ext : Text}
    (low : -(cutoff : Int) ≤ entry) (high : entry < cutoff) (present : w.row = some row)
    (isSource : e.sourceKey = originalKey entry ext) (noSlash : '/' ∉ ext)
    (spelled : ext.all UriPath.literal = true) (none : chosen w res.height enabled = []) :
    ¬ Playable entry ((chooseFlavors entry e res enabled).exec w).2 := by
  obtain ⟨rows, done⟩ : ∃ rows, ((chooseFlavors entry e res enabled).exec w).2 = _ :=
    exec_chooseFlavors_none none
  rw [done, if_neg (isSource ▸ originalKey_ne_nil entry noSlash), isSource]
  have ready : Ready { w with
      rows := rows
      row := w.row.map fun e => { setReady e with durationMs := some res.durationMs }
      master := some ⟨[sourceRendition (originalKey entry ext)], w.subtitles.map subtitleRendition⟩ } := by
    rw [present]
    exact ⟨_, rfl, rfl⟩
  exact unplayable_of_refused low high ready rfl List.mem_cons_self
    (source_not_served entry noSlash spelled)

def Operation.isProbe : Operation → Bool
  | .probe _ => true
  | _ => false

/-- Passed by steps that are fitting. -/
def fits (entry : Int) (s : State) : Action → Bool
  | .start _ (.createFlavor f) | .start _ (.updateFlavor f) =>
    Offered entry (flavorPlaylistKey entry f.name)
  | .start _ (.addSubtitle lang _) => sanitizeLang lang ≠ "original".toList
  | .start _ _ => true
  | .statement id _ => s.calls.all fun call => call.id ≠ id || !call.operation.isProbe ||
      (s.world.row.isSome && !decide (Ready (call.rest.exec s.world).2))
  | .finish _ => true

end Vidsilo.Jobs.Master
