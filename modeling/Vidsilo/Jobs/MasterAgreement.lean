import Vidsilo.Jobs.Master
import Vidsilo.Library.Transition

/-!
# The stored master against the tables

`buildMaster` and `rebuildMaster` render the done flavors and the subtitles as they are; whatever
changes these of a ready entry, or removes the file, has to be followed by one of the two. Source: as
`Master`.
-/
namespace Vidsilo.Jobs.Master
open Library Library.Program Library.SlashPath Library.Transition Storage.Keys Tables Runner
open Storage.Drivers (Local)

section Sorting
variable {α : Type} {r : α → α → Prop} [DecidableRel r]

theorem orderedInsert_of_forall {a : α} {l : List α} (h : ∀ b ∈ l, r a b) :
    l.orderedInsert r a = a :: l := by
  cases l with
  | nil => rfl
  | cons b l => exact List.orderedInsert_cons_of_le r l (h b List.mem_cons_self)

theorem filter_orderedInsert [IsTrans α r] (p : α → Bool) (a : α) {l : List α} (sorted : l.Pairwise r) :
    (l.orderedInsert r a).filter p = if p a then (l.filter p).orderedInsert r a else l.filter p := by
  induction l with
  | nil =>
    simp only [List.orderedInsert_nil, List.filter_cons, List.filter_nil]
  | cons b l ih =>
    obtain ⟨first, sorted⟩ := List.pairwise_cons.mp sorted
    by_cases before : r a b
    · rw [List.orderedInsert_cons_of_le r l before, List.filter_cons]
      split
      · refine (orderedInsert_of_forall fun c mem => ?_).symm
        rcases List.mem_cons.mp (List.mem_of_mem_filter mem) with rfl | later
        · exact before
        · exact IsTrans.trans a b c before (first c later)
      · rfl
    · rw [List.orderedInsert_of_not_le r l before, List.filter_cons, List.filter_cons, ih sorted]
      by_cases keeps : p b
      · simp only [keeps, if_true]
        split
        · rw [List.orderedInsert_of_not_le r _ before]
        · rfl
      · simp only [keeps, Bool.false_eq_true, if_false]

theorem filter_insertionSort [Std.Total r] [IsTrans α r] (p : α → Bool) (l : List α) :
    (l.insertionSort r).filter p = (l.filter p).insertionSort r := by
  induction l with
  | nil => rfl
  | cons a l ih =>
    rw [List.insertionSort_cons, filter_orderedInsert p a (List.pairwise_insertionSort r l), ih,
      List.filter_cons]
    split
    · rfl
    · rfl

end Sorting

/-- What `buildMaster` would render. -/
def World.current (w : World) : Playlist where
  renditions := (w.entryFlavors.filter (·.status = .done)).filterMap fun r =>
    (w.flavorByID r.flavorId).map fun f => rendition f r
  subtitles := w.subtitles.map subtitleRendition

def Ready (w : World) : Prop := ∃ e, w.row = some e ∧ e.status = .ready

/-- Ready, with a done flavor. -/
def Playing (w : World) : Prop := Ready w ∧ ∃ r ∈ w.rows.rows, r.status = .done

/-- The stored text is that of the done flavors and the subtitles. -/
def Agrees (w : World) : Prop :=
  Playing w → w.master.map buildMasterPlaylist = some (buildMasterPlaylist w.current)

/-- The flavors that `Probe` is going to transcode. -/
def pending (w : World) (height : Int) : List Flavor :=
  w.enabledFlavors.filter fun f =>
    considered (w.entryFlavors.map (·.flavorId)) f && f.height ≤ height

/-- The rendition of the flavor looks the same. -/
def SameRendition (f g : Flavor) : Prop :=
  f.name = g.name ∧ f.height = g.height ∧ f.videoBitrate.getD 0 = g.videoBitrate.getD 0

/-- `handleEntryDelete` of this id takes the master of the entry. -/
def Backend.deletes (backend : Backend) (entry id : Int) : Bool :=
  backend.lists (Api.MediaRemoval.entryPrefix id) (masterKey entry) ||
    backend.removesTree (Api.MediaRemoval.entryPrefix id) (masterKey entry)

/-- `removeFlavor` of this id does. -/
def Backend.removesFlavor (backend : Backend) (entry id : Int) (name : Text) : Bool :=
  backend.lists (flavorDir id name) (masterKey entry) ||
    backend.bareRoot.isSome && backend.removesTree (flavorDir id name) (masterKey entry)

/-- The `cleanup` of a flavor of this id does. -/
def Backend.cleans (backend : Backend) (entry id : Int) (name : Text) : Bool :=
  backend.bareRoot.any fun root => Local.selects root (flavorDir id name) (masterKey entry)

/-- What is about to be changed or removed is not shown, or the operation rebuilds. -/
def Settles (entry : Int) (backend : Backend) (w : World) : Operation → Prop
  | .probe env => ∀ res ∈ env.probe.toOption, pending w res.height ≠ [] ∨
      ∀ r ∈ w.rows.rows, r.status = .done → ∃ f ∈ w.enabledFlavors, r.key = (entry, f.id)
  | .transcode _ flavorId => Ready w →
      ∀ r ∈ w.rows.rows, r.key ≠ (entry, flavorId) → r.status.unfinished = false
  | .addSubtitle _ _ => ¬ Playing w
  | .deleteSubtitle id => ¬ Playing w ∨ ∀ s ∈ w.subtitles, s.id ≠ id
  | .updateFlavor f => ¬ Ready w ∨ (∀ r ∈ w.rows.rows, r.status = .done → r.flavorId ≠ f.id) ∨
      ∀ g ∈ w.flavors, g.id = f.id → SameRendition g f
  | .deleteFlavor id => ¬ Ready w ∨ (∀ r ∈ w.rows.rows, r.status = .done → r.flavorId ≠ id) ∨
      ∀ r ∈ w.rows.rows, r.status = .done → r.flavorId = id
  | .deleteOther other => ¬ Playing w ∨ backend.deletes entry other = false
  | .removeOtherFlavor other flavorId => ¬ Playing w ∨
      ∀ f ∈ w.flavors, f.id = flavorId → backend.removesFlavor entry other f.name = false
  | .giveUpOther other flavorId => ¬ Playing w ∨
      ∀ f ∈ w.flavors, f.id = flavorId → backend.cleans entry other f.name = false
  | _ => True

/-- Operations follow one another, and their statements succeed. -/
def Careful (entry : Int) (backend : Backend) (s : State) : Action → Prop
  | .start _ operation => s.calls.isEmpty = true ∧ Settles entry backend s.world operation
  | .statement _ succeeds => succeeds = true
  | .finish _ => True

instance (w : World) : Decidable (Ready w) :=
  decidable_of_iff (w.row.any (·.status = .ready) = true) (by
    simp [Ready, Option.any_eq_true])

instance (w : World) : Decidable (Playing w) := inferInstanceAs (Decidable (_ ∧ _))

instance (w : World) : Decidable (Agrees w) := inferInstanceAs (Decidable (_ → _))

instance (f g : Flavor) : Decidable (SameRendition f g) := inferInstanceAs (Decidable (_ ∧ _))

instance (entry : Int) (backend : Backend) (w : World) :
    (operation : Operation) → Decidable (Settles entry backend w operation)
  | .probe env => inferInstanceAs (Decidable (∀ res ∈ env.probe.toOption, _))
  | .transcode _ _ => inferInstanceAs (Decidable (Ready w → _))
  | .addSubtitle _ _ => inferInstanceAs (Decidable (¬ Playing w))
  | .deleteSubtitle _ => inferInstanceAs (Decidable (¬ Playing w ∨ _))
  | .updateFlavor _ | .deleteFlavor _ => inferInstanceAs (Decidable (¬ Ready w ∨ _))
  | .deleteOther _ | .removeOtherFlavor _ _ | .giveUpOther _ _ =>
    inferInstanceAs (Decidable (¬ Playing w ∨ _))
  | .finishUpload _ _ | .download _ | .reprocess _ | .deleteEntry | .applyFlavors _
  | .revertFlavors _ | .createFlavor _ => isTrue trivial

instance (entry : Int) (backend : Backend) (s : State) :
    (a : Action) → Decidable (Careful entry backend s a)
  | .start _ operation => inferInstanceAs (Decidable (_ ∧ Settles entry backend s.world operation))
  | .statement _ succeeds => inferInstanceAs (Decidable (succeeds = true))
  | .finish _ => isTrue trivial

@[simp] theorem exec_query (read : World → Except String α) (w : World) :
    (query read).exec w = (read w, w) := rfl

@[simp] theorem exec_execute (set : World → World) (w : World) :
    (execute set).exec w = (.ok (), set w) := rfl

/-- The master is removed, or nothing happens. -/
def World.drop (w : World) (selected : Bool) : World :=
  { w with master := if selected then none else w.master }

theorem exec_removeMasterIf (selected : Bool) (w : World) :
    (removeMasterIf selected).exec w = ((), w.drop selected) := by
  cases selected with
  | true => rfl
  | false => rfl

theorem drop_drop (w : World) (first second : Bool) :
    (w.drop first).drop second = w.drop (first || second) := by
  cases first with
  | true =>
    simp only [World.drop, Bool.true_or, if_true, ite_self]
  | false => rfl

section Removal
variable (entry : Int) (backend : Backend)

theorem exec_deleteListed (listPrefix : Text) (w : World) :
    (deleteListed entry backend listPrefix).exec w =
      ((), w.drop (backend.lists listPrefix (masterKey entry))) := by
  simp only [deleteListed, exec_bind, exec_query, exec_removeMasterIf]
  cases stored : w.master with
  | none => simp [World.drop, stored]
  | some p => rw [Option.isSome_some, Bool.true_and]

theorem exec_deleteMedia (id : Int) (w : World) :
    (deleteMedia entry backend id).exec w = ((), w.drop (backend.deletes entry id)) := by
  simp only [deleteMedia, exec_bind, exec_deleteListed, exec_removeMasterIf, drop_drop]
  rfl

theorem exec_removeFlavorFiles (id : Int) (name : Text) (w : World) :
    (removeFlavorFiles entry backend id name).exec w =
      ((), w.drop (backend.removesFlavor entry id name)) := by
  simp only [removeFlavorFiles, exec_bind, exec_deleteListed, exec_removeMasterIf, drop_drop]
  rfl

theorem exec_cleanup (id : Int) (name : Text) (w : World) :
    (cleanup entry backend id name).exec w = ((), w.drop (backend.cleans entry id name)) :=
  exec_removeMasterIf _ w

end Removal

theorem exec_renditions (rows : List EntryFlavor) (w : World) :
    (renditions rows).exec w = ((rows.filter (·.status = .done)).filterMap fun r =>
      (w.flavorByID r.flavorId).map fun f => rendition f r, w) := by
  induction rows with
  | nil => rfl
  | cons r rest ih =>
    unfold renditions
    by_cases isDone : r.status = .done
    · rw [if_neg (by simpa using isDone), List.filter_cons_of_pos (by simpa using isDone)]
      simp only [exec_bind, flavorByID, exec_query]
      cases found : w.flavorByID r.flavorId with
      | none => simp only [ih, List.filterMap_cons, found, Option.map_none]
      | some f => simp only [exec_bind, ih, exec_pure, List.filterMap_cons, found, Option.map_some]
    · rw [if_pos isDone, List.filter_cons_of_neg (by simpa using isDone), ih]

theorem exec_buildMaster (w : World) :
    buildMaster.exec w = (none, { w with master := some w.current }) := by
  simp only [buildMaster, exec_bind, entryFlavors, listSubtitles, exec_query, exec_renditions,
    putMaster, exec_execute, exec_pure]
  rfl

def World.done (w : World) : List EntryFlavor := w.rows.rows.filter (·.status = .done)

theorem mem_done {w : World} {r : EntryFlavor} : r ∈ w.done ↔ r ∈ w.rows.rows ∧ r.status = .done := by
  simp [World.done]

theorem done_entryFlavors (w : World) : w.entryFlavors.filter (·.status = .done) =
    w.done.insertionSort fun r q => r.flavorId ≤ q.flavorId := by
  have total : Std.Total fun r q : EntryFlavor => r.flavorId ≤ q.flavorId :=
    ⟨fun r q => Int.le_total r.flavorId q.flavorId⟩
  have transitive : IsTrans EntryFlavor fun r q => r.flavorId ≤ q.flavorId :=
    ⟨fun _ _ _ => Int.le_trans⟩
  exact filter_insertionSort _ _

/-- The renditions of done rows whose flavors look the same. -/
theorem current_congr {w w' : World} (done : w'.done = w.done) (subtitles : w'.subtitles = w.subtitles)
    (flavors : ∀ r ∈ w.done, (w'.flavorByID r.flavorId).map (fun f => rendition f r) =
      (w.flavorByID r.flavorId).map fun f => rendition f r) : w'.current = w.current := by
  unfold World.current
  rw [done_entryFlavors, done_entryFlavors, done, subtitles]
  congr 1
  apply List.filterMap_congr
  intro r mem
  exact flavors r ((List.mem_insertionSort _).mp mem)

/-- Flavors that are shown exist, and the stored master shows what there is. -/
structure Good (w : World) : Prop where
  fresh : Playing w → w.master = some w.current
  refs : ∀ r ∈ w.rows.rows, (w.flavorByID r.flavorId).isSome = true

theorem Good.agrees {w : World} (h : Good w) : Agrees w := by
  intro playing
  rw [h.fresh playing]
  rfl

theorem good_of_not_ready {w : World} (idle : ¬ Ready w)
    (refs : ∀ r ∈ w.rows.rows, (w.flavorByID r.flavorId).isSome = true) : Good w :=
  ⟨fun playing => absurd playing.1 idle, refs⟩

/-- Nothing that is shown has changed. -/
structure SameShown (w w' : World) : Prop where
  row : w'.row = w.row
  flavors : w'.flavors = w.flavors
  subtitles : w'.subtitles = w.subtitles
  master : w'.master = w.master
  done : w'.done = w.done

variable {w w' w'' : World} {entry : Int} {backend : Backend}

theorem SameShown.refl (w : World) : SameShown w w := ⟨rfl, rfl, rfl, rfl, rfl⟩

theorem SameShown.trans (h : SameShown w w') (h' : SameShown w' w'') : SameShown w w'' :=
  ⟨h'.row.trans h.row, h'.flavors.trans h.flavors, h'.subtitles.trans h.subtitles,
    h'.master.trans h.master, h'.done.trans h.done⟩

theorem SameShown.ready (h : SameShown w w') : Ready w' ↔ Ready w := by
  rw [Ready, Ready, h.row]

theorem flavorByID_congr (h : w'.flavors = w.flavors) : w'.flavorByID = w.flavorByID := by
  funext id
  rw [World.flavorByID, World.flavorByID, h]

theorem SameShown.current (h : SameShown w w') : w'.current = w.current := by
  apply current_congr h.done h.subtitles
  intro r _
  rw [flavorByID_congr h.flavors]

theorem playing_iff : Playing w ↔ Ready w ∧ w.done ≠ [] := by
  refine and_congr_right fun _ => ?_
  rw [ne_eq, List.eq_nil_iff_forall_not_mem, not_forall]
  simp only [mem_done, not_not]

theorem SameShown.fresh (h : SameShown w w') (fresh : Playing w → w.master = some w.current)
    (playing : Playing w') : w'.master = some w'.current := by
  rw [h.master, h.current]
  rw [playing_iff, h.ready, h.done, ← playing_iff] at playing
  exact fresh playing

theorem done_updateWhere {t : EntryFlavors} {p : EntryFlavor → Bool} {status : EntryFlavorStatus}
    (open_ : ∀ r ∈ t.rows, p r = true → r.status ≠ .done) (notDone : status ≠ .done)
    (error : Option String) (playlistKey : Option Text) :
    (t.updateWhere p status error playlistKey).rows.filter (·.status = .done) =
      t.rows.filter (·.status = .done) := by
  change (t.rows.map _).filter _ = _
  rw [List.filter_map]
  have same : t.rows.filter ((fun r : EntryFlavor => decide (r.status = .done)) ∘
      fun r => if p r then r.set status error playlistKey else r) =
      t.rows.filter fun r => decide (r.status = .done) := by
    apply List.filter_congr
    intro r mem
    by_cases own : p r
    · simp [own, EntryFlavor.set, notDone, open_ r mem own]
    · simp [own]
  rw [same]
  refine (List.map_congr_left ?_).trans (List.map_id _)
  intro r mem
  obtain ⟨mem, isDone⟩ := List.mem_filter.mp mem
  rw [if_neg]
  · rfl
  · exact fun own => open_ r mem own (of_decide_eq_true isDone)

theorem done_upsert {t : EntryFlavors} {flavorId : Int} {status : EntryFlavorStatus}
    (open_ : ∀ r ∈ t.rows, r.key = (entry, flavorId) → r.status ≠ .done) (notDone : status ≠ .done)
    (error : Option String) :
    (t.upsert entry flavorId status error).rows.filter (·.status = .done) =
      t.rows.filter (·.status = .done) := by
  unfold EntryFlavors.upsert
  split
  · exact done_updateWhere (fun r mem own => open_ r mem (of_decide_eq_true own)) notDone error none
  · simp [notDone]

/-- Each row is of a flavor that exists. -/
def Refs (w : World) (rows : EntryFlavors) : Prop :=
  ∀ r ∈ rows.rows, (w.flavorByID r.flavorId).isSome = true

theorem Refs.updateWhere {rows : EntryFlavors} (h : Refs w rows) (p : EntryFlavor → Bool)
    (status : EntryFlavorStatus) (error : Option String) (playlistKey : Option Text) :
    Refs w (rows.updateWhere p status error playlistKey) := by
  intro r mem
  obtain ⟨q, old, sameKey, _⟩ := EntryFlavors.mem_updateWhere mem
  have same : r.flavorId = q.flavorId := congrArg Prod.snd sameKey
  rw [same]
  exact h q old

theorem Refs.upsert {rows : EntryFlavors} (h : Refs w rows) {flavorId : Int}
    (isFlavor : (w.flavorByID flavorId).isSome = true) (status : EntryFlavorStatus)
    (error : Option String) : Refs w (rows.upsert entry flavorId status error) := by
  intro r mem
  have isRow := EntryFlavors.mem_upsert mem
  split at isRow
  next own =>
    have same : r.flavorId = flavorId := congrArg Prod.snd own
    rw [same]
    exact isFlavor
  · exact h r isRow

theorem Refs.deleteWhere {rows : EntryFlavors} (h : Refs w rows) (p : EntryFlavor → Bool) :
    Refs w (rows.deleteWhere p) :=
  fun r mem => h r (List.mem_of_mem_filter mem)

theorem ready_setRow {set : Entry → Entry} (other : ∀ e, (set e).status ≠ .ready) :
    ¬ Ready (w.setRow set) := by
  intro ⟨e, isRow, ready⟩
  obtain ⟨old, _, rfl⟩ := Option.map_eq_some_iff.mp isRow
  exact other old ready

theorem ready_none (gone : w.row = none) : ¬ Ready w := by
  intro ⟨e, isRow, _⟩
  cases gone.symm.trans isRow

theorem good_failEntry (refs : Refs w w.rows) (msg : String) : Good ((failEntry msg).exec w).2 :=
  good_of_not_ready (ready_setRow fun _ => nofun) refs

/-- The entry is gone, or the program goes on with its row. -/
theorem good_entryByID {k : Except String Entry → Db α}
    (gone : w.row = none → Good ((k (.error notFound)).exec w).2)
    (found : ∀ e, w.row = some e → Good ((k (.ok e)).exec w).2) :
    Good ((entryByID >>= k).exec w).2 := by
  cases isRow : w.row with
  | none =>
    have gone := gone isRow
    simpa only [exec_bind, entryByID, exec_query, isRow] using gone
  | some e =>
    have found := found e isRow
    simpa only [exec_bind, entryByID, exec_query, isRow] using found

theorem good_gone (refs : Refs w w.rows) (gone : w.row = none) : Good w :=
  good_of_not_ready (ready_none gone) refs

theorem good_finalizeTranscode (refs : Refs w w.rows) (settled : Ready w → w.remaining = 0) :
    Good (finalizeTranscode.exec w).2 := by
  refine good_entryByID (good_gone refs) fun e _ => ?_
  simp only [exec_bind, exec_query]
  by_cases left : 0 < w.remaining
  · rw [if_pos left]
    exact good_of_not_ready (fun ready => by have none := settled ready; omega) refs
  · rw [if_neg left]
    simp only [exec_bind, exec_query]
    by_cases failed : w.doneCount = 0
    · rw [if_pos failed]
      exact good_failEntry refs _
    · rw [if_neg failed]
      simp only [exec_bind, exec_buildMaster, exec_execute, exec_pure]
      exact ⟨fun _ => rfl, refs⟩

/-- No other row of the entry is waiting for its transcode. -/
def Alone (entry flavorId : Int) (rows : EntryFlavors) : Prop :=
  ∀ r ∈ rows.rows, r.key ≠ (entry, flavorId) → r.status.unfinished = false

variable {flavorId : Int}

theorem Alone.updateRow {rows : EntryFlavors} (h : Alone entry flavorId rows)
    (status : EntryFlavorStatus) (error : Option String) (playlistKey : Option Text) :
    Alone entry flavorId
      (rows.updateWhere (fun r => r.key = (entry, flavorId)) status error playlistKey) := by
  intro r mem other
  obtain ⟨q, old, sameKey, isRow⟩ := EntryFlavors.mem_updateWhere mem
  rw [sameKey] at other
  rw [if_neg (by simpa using other)] at isRow
  rw [isRow]
  exact h q old other

theorem Alone.remaining {rows : EntryFlavors} (h : Alone entry flavorId rows)
    {status : EntryFlavorStatus} (finished : status.unfinished = false) (error : Option String)
    (playlistKey : Option Text) :
    (rows.updateWhere (fun r => r.key = (entry, flavorId)) status error playlistKey).rows.countP
      (fun r => r.status.unfinished) = 0 := by
  rw [List.countP_eq_zero]
  intro r mem
  obtain ⟨q, old, sameKey, isRow⟩ := EntryFlavors.mem_updateWhere mem
  by_cases own : q.key = (entry, flavorId)
  · rw [if_pos (by simpa using own)] at isRow
    simp [isRow, finished]
  · rw [if_neg (by simpa using own)] at isRow
    simp [isRow, h q old own]

theorem exec_markFlavor (flavorId : Int) (status : EntryFlavorStatus) (errMsg : String) (w : World) :
    (markFlavor entry flavorId status errMsg).exec w = ((), { w with
      rows := w.rows.updateWhere (fun r => r.key = (entry, flavorId)) status (some errMsg) none }) := by
  simp only [markFlavor, updateFlavorRow, exec_bind, exec_execute, exec_pure]

theorem exec_markFlavorDone (flavorId : Int) (playlistKey : Text) (w : World) :
    (markFlavorDone entry flavorId playlistKey).exec w = ((), { w with
      rows := w.rows.updateWhere (fun r => r.key = (entry, flavorId)) .done none
        (some playlistKey) }) := by
  simp only [markFlavorDone, updateFlavorRow, exec_bind, exec_execute, exec_pure]

theorem good_flavorFailed (refs : Refs w w.rows) (alone : Ready w → Alone entry flavorId w.rows)
    (err : String) : Good ((flavorFailed entry flavorId err).exec w).2 := by
  simp only [flavorFailed, exec_bind, exec_markFlavor]
  exact good_finalizeTranscode (refs.updateWhere _ _ _ _)
    fun ready => (alone ready).remaining rfl _ _

theorem good_encode (refs : Refs w w.rows) (alone : Ready w → Alone entry flavorId w.rows) (env : Env)
    (f : Flavor) : Good ((encode entry backend env flavorId f).exec w).2 := by
  have failed (err : String) : Good ((flavorFailed entry flavorId err).exec
      (w.drop (backend.cleans entry entry f.name))).2 :=
    good_flavorFailed (w := w.drop _) refs alone err
  unfold encode
  split
  · simp only [exec_bind, exec_cleanup]
    exact failed _
  · refine good_entryByID (fun gone => ?_) fun e _ => ?_
    · simp only [exec_bind, exec_cleanup, exec_pure]
      exact good_gone refs gone
    · dsimp only
      split
      · simp only [exec_bind, exec_cleanup]
        exact failed _
      · simp only [exec_bind, exec_markFlavorDone]
        exact good_finalizeTranscode (refs.updateWhere _ _ _ _)
          fun ready => (alone ready).remaining rfl _ _

theorem good_transcodeWithSlot (refs : Refs w w.rows) (alone : Ready w → Alone entry flavorId w.rows)
    (env : Env) : Good ((transcodeWithSlot entry backend env flavorId).exec w).2 := by
  simp only [transcodeWithSlot, exec_bind, flavorByID, exec_query]
  split
  next err _ => exact good_flavorFailed refs alone err
  next f _ =>
    rw [exec_bind, exec_markFlavor]
    have refs' := refs.updateWhere (fun r => r.key = (entry, flavorId)) .transcoding (some "") none
    have alone' (ready : Ready w) := (alone ready).updateRow .transcoding (some "") none
    refine good_entryByID (good_gone refs') fun e _ => ?_
    dsimp only
    split
    next err _ => exact good_flavorFailed refs' alone' err
    · exact good_encode refs' alone' env f

theorem good_transcode (h : Good w) (alone : Ready w → Alone entry flavorId w.rows) (env : Env) :
    Good ((transcode entry backend env flavorId).exec w).2 := by
  refine good_entryByID (fun _ => h) fun e _ => ?_
  dsimp only
  split
  · simp only [exec_bind, exec_pure]
    exact good_failEntry h.refs _
  · exact good_transcodeWithSlot h.refs alone env

/-- Only rows have changed, and none of the considered flavors is done any more. -/
structure Ticked (entry : Int) (ticked : List Int) (fs : List Flavor) (w w' : World) : Prop where
  row : w'.row = w.row
  flavors : w'.flavors = w.flavors
  subtitles : w'.subtitles = w.subtitles
  master : w'.master = w.master
  refs : Refs w w.rows → Refs w' w'.rows
  done : ∀ r ∈ w'.rows.rows, r.status = .done → r ∈ w.rows.rows ∧
    ∀ f ∈ fs, considered ticked f = true → r.key ≠ (entry, f.id)

theorem exec_tickFlavor {flavorId : Int} (present : w.row.isSome = true)
    (isFlavor : (w.flavorByID flavorId).isSome = true) (status : EntryFlavorStatus)
    (error : Option String) : (tickFlavor entry flavorId status error).exec w =
      ((), { w with rows := w.rows.upsert entry flavorId status error }) := by
  simp only [tickFlavor, insertFlavorRow, exec_bind, exec_statement, exec_pure, present, isFlavor,
    Bool.and_self, if_true]

/-- One flavor is ticked, and then the others. -/
theorem Ticked.cons {ticked : List Int} {f : Flavor} {fs : List Flavor} {status : EntryFlavorStatus}
    {error : Option String} (isFlavor : (w.flavorByID f.id).isSome = true)
    (h : Ticked entry ticked fs { w with rows := w.rows.upsert entry f.id status error } w')
    (notDone : status ≠ .done) : Ticked entry ticked (f :: fs) w w' := by
  refine ⟨h.row, h.flavors, h.subtitles, h.master, fun refs => h.refs (refs.upsert isFlavor _ _), ?_⟩
  intro r mem isDone
  obtain ⟨old, others⟩ := h.done r mem isDone
  have isRow := EntryFlavors.mem_upsert old
  split at isRow
  · exact absurd (isRow.symm.trans isDone) notDone
  next other =>
    refine ⟨isRow, fun g isOne isConsidered => ?_⟩
    rcases List.mem_cons.mp isOne with rfl | later
    · exact other
    · exact others g later isConsidered

theorem exec_effectiveFlavors (entry height : Int) (ticked : List Int) (fs : List Flavor) (w : World)
    (present : w.row.isSome = true) (exist : ∀ f ∈ fs, (w.flavorByID f.id).isSome = true) :
    ((effectiveFlavors entry height ticked fs).exec w).1 =
        (fs.filter fun f => considered ticked f && f.height ≤ height).map (·.id) ∧
      Ticked entry ticked fs w ((effectiveFlavors entry height ticked fs).exec w).2 := by
  induction fs generalizing w with
  | nil => exact ⟨rfl, rfl, rfl, rfl, rfl, id, fun r mem _ => ⟨mem, nofun⟩⟩
  | cons f rest ih =>
    have isFlavor := exist f List.mem_cons_self
    have exist (g : Flavor) (later : g ∈ rest) := exist g (List.mem_cons_of_mem f later)
    unfold effectiveFlavors
    by_cases isConsidered : considered ticked f = false
    · obtain ⟨ids, rows⟩ := ih w present exist
      rw [if_pos isConsidered, List.filter_cons_of_neg (by simp [isConsidered])]
      refine ⟨ids, rows.row, rows.flavors, rows.subtitles, rows.master, rows.refs, ?_⟩
      intro r mem isDone
      obtain ⟨old, others⟩ := rows.done r mem isDone
      refine ⟨old, fun g isOne isTicked => ?_⟩
      rcases List.mem_cons.mp isOne with rfl | later
      · cases isConsidered.symm.trans isTicked
      · exact others g later isTicked
    · rw [if_neg isConsidered]
      simp only [Bool.not_eq_false] at isConsidered
      by_cases shorter : height < f.height
      · rw [if_pos shorter, List.filter_cons_of_neg (by simp [shorter])]
        simp only [exec_bind, exec_tickFlavor present isFlavor]
        obtain ⟨ids, rows⟩ := ih { w with rows := w.rows.upsert entry f.id .skipped _ } present exist
        exact ⟨ids, Ticked.cons isFlavor rows nofun⟩
      · have fits : f.height ≤ height := by omega
        rw [if_neg shorter, List.filter_cons_of_pos (by simp [isConsidered, fits])]
        simp only [exec_bind, exec_tickFlavor present isFlavor, exec_pure, List.map_cons]
        obtain ⟨ids, rows⟩ := ih { w with rows := w.rows.upsert entry f.id .pending none } present exist
        exact ⟨congrArg _ ids, Ticked.cons isFlavor rows nofun⟩

theorem exec_enqueueTranscodes (ids : List Int) (w : World) :
    ((enqueueTranscodes ids).exec w).2 = w := by
  induction ids with
  | nil => rfl
  | cons id rest ih =>
    simp only [enqueueTranscodes, exec_bind, enqueue, exec_query]
    split
    · simp only [exec_pure]
    · exact ih

theorem exec_publishSourcePlaylist (e : Entry) (w : World) : ∃ p,
    ((publishSourcePlaylist e).exec w).2 = { w with master := some p } := by
  simp only [publishSourcePlaylist, listSubtitles, exec_bind, exec_query, putMaster, exec_execute,
    exec_pure]
  exact ⟨_, rfl⟩

theorem good_startTranscodes (refs : Refs w w.rows) (e : Entry) (durationMs : Int) (ids : List Int)
    (open_ : ids = [] → ∀ r ∈ w.rows.rows, r.status ≠ .done) :
    Good ((startTranscodes e durationMs ids).exec w).2 := by
  unfold startTranscodes
  split
  next none =>
    obtain ⟨p, published⟩ := exec_publishSourcePlaylist e w
    simp only [exec_bind, published, exec_execute, exec_pure]
    refine ⟨?_, refs⟩
    intro ⟨_, r, mem, isDone⟩
    exact absurd isDone (open_ none r mem)
  · simp only [exec_bind, exec_execute, exec_enqueueTranscodes]
    exact good_of_not_ready (ready_setRow fun _ => nofun) refs

theorem enabled_exist (w : World) : ∀ f ∈ w.enabledFlavors, (w.flavorByID f.id).isSome = true := by
  intro f mem
  have isFlavor := List.mem_of_mem_filter ((List.mem_insertionSort _).mp mem)
  rw [World.flavorByID, List.find?_isSome]
  exact ⟨f, isFlavor, by simp⟩

theorem good_probed (refs : Refs w w.rows) (e : Entry) (res : ProbeResult)
    (settled : pending w res.height ≠ [] ∨
      ∀ r ∈ w.rows.rows, r.status = .done → ∃ f ∈ w.enabledFlavors, r.key = (entry, f.id)) :
    Good ((probed entry e res).exec w).2 := by
  refine good_entryByID (good_gone refs) fun row isRow => ?_
  simp only [exec_bind, exec_query, entryFlavors]
  have present : w.row.isSome = true := Option.isSome_of_eq_some isRow
  obtain ⟨ids, ticked⟩ := exec_effectiveFlavors entry res.height
    (w.entryFlavors.map (·.flavorId)) w.enabledFlavors w present (enabled_exist w)
  refine good_startTranscodes (ticked.refs refs) e res.durationMs _ fun none => ?_
  rw [ids, List.map_eq_nil_iff] at none
  intro r mem isDone
  obtain ⟨old, others⟩ := ticked.done r mem isDone
  obtain ⟨f, enabled, same⟩ := settled.resolve_left (fun some => some none) r old isDone
  refine others f enabled ?_ same
  have isTicked : f.id ∈ w.entryFlavors.map (·.flavorId) := by
    rw [List.mem_map]
    exact ⟨r, (List.mem_insertionSort _).mpr old, congrArg Prod.snd same⟩
  simp only [considered, isTicked, decide_true, Bool.or_true]

theorem good_probe (h : Good w) (env : Env) (settles : Settles entry backend w (.probe env)) :
    Good ((probe entry env).exec w).2 := by
  refine good_entryByID (fun _ => h) fun e _ => ?_
  dsimp only
  split
  · exact h
  · split
    · exact h
    · split
      · simp only [exec_bind, exec_pure]
        exact good_failEntry h.refs _
      next res probes =>
        refine good_probed h.refs e res (settles res ?_)
        rw [probes]
        rfl

theorem Good.of_sameShown (h : Good w) (same : SameShown w w') (refs : Refs w' w'.rows) : Good w' :=
  ⟨same.fresh h.fresh, refs⟩

theorem sameShown_insertFlavorRow {flavorId : Int}
    (open_ : ∀ r ∈ w.rows.rows, r.flavorId = flavorId → r.status ≠ .done) :
    SameShown w ((insertFlavorRow entry flavorId .pending none).exec w).2 := by
  simp only [insertFlavorRow, exec_statement]
  split
  · have notDone : EntryFlavorStatus.pending ≠ .done := nofun
    refine ⟨rfl, rfl, rfl, rfl, done_upsert (fun r mem own => ?_) notDone none⟩
    exact open_ r mem (congrArg Prod.snd own)
  · exact SameShown.refl w

theorem good_insertFlavorRow {flavorId : Int} (h : Good w)
    (open_ : ∀ r ∈ w.rows.rows, r.flavorId = flavorId → r.status ≠ .done) :
    Good ((insertFlavorRow entry flavorId .pending none).exec w).2 := by
  refine h.of_sameShown (sameShown_insertFlavorRow open_) ?_
  simp only [insertFlavorRow, exec_statement]
  split
  next admitted =>
    simp only [Bool.and_eq_true] at admitted
    exact Refs.upsert h.refs admitted.2 _ _
  · exact h.refs

theorem prepareFlavor_world (flavorId : Int) (w : World) :
    ((prepareFlavor entry flavorId).exec w).2 =
      ((insertFlavorRow entry flavorId .pending none).exec w).2 := by
  simp only [prepareFlavor, exec_bind]
  split
  · rfl
  · rfl

/-- New rows are not done, and the others are left. -/
theorem open_insertFlavorRow {flavorId other : Int}
    (open_ : ∀ r ∈ w.rows.rows, r.flavorId = other → r.status ≠ .done) :
    ∀ r ∈ ((insertFlavorRow entry flavorId .pending none).exec w).2.rows.rows,
      r.flavorId = other → r.status ≠ .done := by
  simp only [insertFlavorRow, exec_statement]
  split
  · intro r mem isOther isDone
    have isRow := EntryFlavors.mem_upsert mem
    split at isRow
    · cases isRow.symm.trans isDone
    · exact open_ r isRow isOther isDone
  · exact open_

/-- The loop over the flavors that are added leaves what is shown. -/
theorem good_prepareFlavors (entry : Int) (ids : List Int) (h : Good w)
    (open_ : ∀ id ∈ ids, ∀ r ∈ w.rows.rows, r.flavorId = id → r.status ≠ .done) :
    Good ((prepareFlavors entry ids).exec w).2 ∧
      SameShown w ((prepareFlavors entry ids).exec w).2 := by
  induction ids generalizing w with
  | nil => exact ⟨h, SameShown.refl w⟩
  | cons id rest ih =>
    have first := open_ id List.mem_cons_self
    have good : Good ((prepareFlavor entry id).exec w).2 := by
      rw [prepareFlavor_world]
      exact good_insertFlavorRow h first
    have same : SameShown w ((prepareFlavor entry id).exec w).2 := by
      rw [prepareFlavor_world]
      exact sameShown_insertFlavorRow first
    simp only [prepareFlavors, exec_bind]
    split
    · exact ⟨good, same⟩
    · have later : ∀ id' ∈ rest, ∀ r ∈ ((prepareFlavor entry id).exec w).2.rows.rows,
          r.flavorId = id' → r.status ≠ .done := by
        intro id' mem
        rw [prepareFlavor_world]
        exact open_insertFlavorRow (open_ id' (List.mem_cons_of_mem id mem))
      obtain ⟨good', same'⟩ := ih good later
      exact ⟨good', same.trans same'⟩

/-- Only rows and files go. -/
theorem exec_removeFlavors (entry : Int) (backend : Backend) (ids : List Int) (w : World)
    (exist : ∀ id ∈ ids, (w.flavorByID id).isSome = true) (refs : Refs w w.rows) :
    ((removeFlavors entry backend ids).exec w).1 = none ∧
      Refs ((removeFlavors entry backend ids).exec w).2
        ((removeFlavors entry backend ids).exec w).2.rows := by
  induction ids generalizing w with
  | nil => exact ⟨rfl, refs⟩
  | cons id rest ih =>
    obtain ⟨f, found⟩ := Option.isSome_iff_exists.mp (exist id List.mem_cons_self)
    simp only [removeFlavors, removeFlavor, flavorByID, exec_bind, exec_query, found,
      exec_removeFlavorFiles, exec_execute, exec_pure, errorOf]
    refine ih { w.drop _ with rows := w.rows.deleteWhere fun r => r.key = (entry, id) } ?_
      (refs.deleteWhere _)
    exact fun id' mem => exist id' (List.mem_cons_of_mem id mem)

theorem good_failWithoutRenditions (h : Good w) : Good (failWithoutRenditions.exec w).2 := by
  simp only [failWithoutRenditions, exec_bind, exec_query]
  split
  · simp only [exec_bind, exec_execute, exec_pure]
    exact good_of_not_ready (ready_setRow fun _ => nofun) h.refs
  · exact h

theorem good_finishApply (refs : Refs w w.rows) (grown : Bool) :
    Good ((finishApply grown).exec w).2 := by
  refine good_entryByID (good_gone refs) fun e _ => ?_
  cases grown with
  | true =>
    simp only [if_true, exec_bind, reprobe, exec_execute, exec_pure, rebuildMaster, exec_buildMaster]
    exact good_of_not_ready (ready_setRow fun _ => nofun) refs
  | false =>
    simp only [Bool.false_eq_true, if_false, exec_bind, rebuildMaster, exec_buildMaster]
    exact good_failWithoutRenditions ⟨fun _ => rfl, refs⟩

theorem good_applyFlavors (h : Good w) (flavorIds : List Int) :
    Good ((applyFlavors entry backend flavorIds).exec w).2 := by
  simp only [applyFlavors, entryFlavors, exec_bind, exec_query]
  have isRow (r : EntryFlavor) (mem : r ∈ w.rows.rows) :
      r.flavorId ∈ w.entryFlavors.map (·.flavorId) :=
    List.mem_map.mpr ⟨r, (List.mem_insertionSort _).mpr mem, rfl⟩
  obtain ⟨good, same⟩ := good_prepareFlavors entry
    (flavorIds.filter (· ∉ w.entryFlavors.map (·.flavorId))) h (by
      intro id mem r isOld own
      have new := of_decide_eq_true (List.mem_filter.mp mem).2
      exact absurd (own ▸ isRow r isOld) new)
  split
  · exact good
  · have exist : ∀ id ∈ (w.entryFlavors.map (·.flavorId)).filter (· ∉ flavorIds),
        (World.flavorByID ((prepareFlavors entry
          (flavorIds.filter (· ∉ w.entryFlavors.map (·.flavorId)))).exec w).2 id).isSome = true := by
      intro id mem
      obtain ⟨r, isOld, rfl⟩ := List.mem_map.mp (List.mem_of_mem_filter mem)
      rw [flavorByID_congr same.flavors]
      exact h.refs r ((List.mem_insertionSort _).mp isOld)
    obtain ⟨removed, refs⟩ := exec_removeFlavors entry backend _ _ exist good.refs
    simp only [exec_bind]
    rw [removed]
    exact good_finishApply refs _

theorem good_addSubtitle (h : Good w) (idle : ¬ Playing w) (lang label : Text) :
    Good ((handleEntrySubtitleAdd entry lang label).exec w).2 := by
  refine good_entryByID (fun _ => h) fun e _ => ?_
  simp only [exec_bind, exec_query, addSubtitle, exec_statement, exec_pure]
  split
  · exact ⟨fun playing => absurd playing idle, h.refs⟩
  · exact h

theorem good_deleteSubtitle (h : Good w) {id : Int}
    (settles : ¬ Playing w ∨ ∀ s ∈ w.subtitles, s.id ≠ id) :
    Good ((handleEntrySubtitleDelete id).exec w).2 := by
  refine good_entryByID (fun _ => h) fun e _ => ?_
  simp only [exec_bind, listSubtitles, exec_query, deleteSubtitle, exec_statement, exec_pure]
  rcases settles with idle | other
  · exact ⟨fun playing => absurd playing idle, h.refs⟩
  · have same : w.subtitles.filter (fun s => s.id ≠ id) = w.subtitles := by
      rw [List.filter_eq_self]
      exact fun s mem => decide_eq_true (other s mem)
    rw [same]
    exact h

variable {f : Flavor}

/-- Other flavors, and each done row looks as before. -/
theorem Good.with_flavors (h : Good w) (row : w'.row = w.row) (rows : w'.rows = w.rows)
    (subtitles : w'.subtitles = w.subtitles) (master : w'.master = w.master)
    (shown : Ready w → ∀ r ∈ w.done, (w'.flavorByID r.flavorId).map (fun f => rendition f r) =
      (w.flavorByID r.flavorId).map fun f => rendition f r) (refs : Refs w' w.rows) : Good w' := by
  have done : w'.done = w.done := by rw [World.done, World.done, rows]
  constructor
  · intro playing
    rw [playing_iff, Ready, row, done] at playing
    rw [master, current_congr done subtitles (shown playing.1)]
    exact h.fresh (playing_iff.mpr playing)
  · rw [rows]
    exact refs

theorem good_createFlavor (h : Good w) (f : Flavor) : Good ((createFlavor f).exec w).2 := by
  simp only [createFlavor, exec_bind, exec_execute, exec_pure]
  have same (r : EntryFlavor) (mem : r ∈ w.rows.rows) : World.flavorByID { w with
        flavors := w.flavors ++ [{ f with id := w.nextFlavorId }]
        nextFlavorId := w.nextFlavorId + 1 } r.flavorId = w.flavorByID r.flavorId := by
    obtain ⟨g, found⟩ := Option.isSome_iff_exists.mp (h.refs r mem)
    have found' : w.flavors.find? (fun f => f.id = r.flavorId) = some g := found
    simp [World.flavorByID, found']
  refine h.with_flavors rfl rfl rfl rfl ?_ ?_
  · intro _ r mem
    rw [same r (mem_done.mp mem).1]
  · intro r mem
    rw [same r mem]
    exact h.refs r mem

theorem find_updateFlavor (fs : List Flavor) (id : Int) :
    (fs.map fun g => if g.id = f.id then f else g).find? (fun g => g.id = id) =
      (fs.find? fun g => g.id = id).map fun g => if g.id = f.id then f else g := by
  rw [List.find?_map]
  congr 2
  funext g
  simp only [Function.comp_apply]
  split
  next same => rw [same]
  · rfl

theorem good_updateFlavor (h : Good w) (settles : Settles entry backend w (.updateFlavor f)) :
    Good ((updateFlavor f).exec w).2 := by
  simp only [updateFlavor, exec_bind, exec_execute, exec_pure]
  have found (id : Int) : World.flavorByID { w with
      flavors := w.flavors.map fun g => if g.id = f.id then f else g } id =
      (w.flavorByID id).map fun g => if g.id = f.id then f else g := find_updateFlavor w.flavors id
  refine h.with_flavors rfl rfl rfl rfl ?_ ?_
  · intro ready r mem
    obtain ⟨old, isDone⟩ := mem_done.mp mem
    rw [found, Option.map_map]
    apply Option.map_congr
    intro g isFlavor
    have isOne : g ∈ w.flavors := List.mem_of_find?_eq_some isFlavor
    have own : g.id = r.flavorId := by simpa using List.find?_some isFlavor
    simp only [Function.comp_apply]
    split
    next same =>
      obtain ⟨name, height, bitrate⟩ := ((settles.resolve_left (not_not.mpr ready)).resolve_left
        fun other => other r old isDone (own.symm.trans same)) g isOne same
      rw [rendition, rendition, name, height, bitrate]
    · rfl
  · intro r mem
    rw [found, Option.isSome_map]
    exact h.refs r mem

theorem find_deleteFlavor (fs : List Flavor) {id other : Int} (differ : other ≠ id) :
    (fs.filter fun g => g.id ≠ id).find? (fun g => g.id = other) =
      fs.find? fun g => g.id = other := by
  rw [List.find?_filter]
  congr 1
  funext g
  by_cases own : g.id = other
  · simp [own, differ]
  · simp [own]

theorem good_deleteFlavor (h : Good w) {id : Int} (settles : Settles entry backend w (.deleteFlavor id)) :
    Good ((deleteFlavor id).exec w).2 := by
  simp only [deleteFlavor, exec_bind, exec_execute, exec_pure]
  have found (r : EntryFlavor) (kept : r.flavorId ≠ id) : World.flavorByID { w with
      flavors := w.flavors.filter fun f => f.id ≠ id
      rows := w.rows.deleteWhere fun r => r.flavorId = id } r.flavorId = w.flavorByID r.flavorId :=
    find_deleteFlavor w.flavors kept
  have remaining (r : EntryFlavor) (mem : r ∈ (w.rows.deleteWhere fun r => r.flavorId = id).rows) :
      r ∈ w.rows.rows ∧ r.flavorId ≠ id := by
    obtain ⟨old, kept⟩ := List.mem_filter.mp mem
    exact ⟨old, by simpa using kept⟩
  constructor
  · intro ⟨ready, r, mem, isDone⟩
    obtain ⟨old, kept⟩ := remaining r mem
    rcases settles with idle | others | all
    · exact absurd ready idle
    · have done : (w.rows.deleteWhere fun r => r.flavorId = id).rows.filter
          (fun r => decide (r.status = .done)) = w.done := by
        change (w.rows.rows.filter _).filter _ = _
        rw [List.filter_filter]
        apply List.filter_congr
        intro q isRow
        by_cases shown : q.status = .done
        · simp [shown, others q isRow shown]
        · simp [shown]
      have fresh : w.master = some w.current := h.fresh ⟨ready, r, old, isDone⟩
      refine fresh.trans (congrArg some (Eq.symm ?_))
      refine current_congr done rfl fun q shown => ?_
      obtain ⟨isRow, isShown⟩ := mem_done.mp shown
      rw [found q (others q isRow isShown)]
    · exact absurd (all r old isDone) kept
  · intro r mem
    obtain ⟨old, kept⟩ := remaining r mem
    rw [found r kept]
    exact h.refs r old

theorem good_handOff (refs : Refs w w.rows) (ext : Text) (size : Int) (clearError : Bool) :
    Good ((handOff entry ext size clearError).exec w).2 := by
  simp only [handOff, exec_bind, exec_execute, enqueue, exec_query, exec_pure]
  exact good_of_not_ready (ready_setRow fun _ => nofun) refs

theorem good_downloadFailed (refs : Refs w w.rows) (msg : String) :
    Good ((downloadFailed msg).exec w).2 := by
  simp only [downloadFailed, exec_bind, exec_pure]
  exact good_failEntry refs _

theorem good_download (h : Good w) (env : Env) : Good ((download entry env).exec w).2 := by
  refine good_entryByID (fun _ => h) fun e _ => ?_
  dsimp only
  split
  · exact good_downloadFailed h.refs _
  · refine good_entryByID (fun _ => h) fun e _ => ?_
    dsimp only
    split
    · exact good_downloadFailed h.refs _
    · exact good_handOff h.refs _ _ _

theorem good_reprocess (h : Good w) (bulk : Bool) : Good ((handleEntryReprocess bulk).exec w).2 := by
  refine good_entryByID (fun _ => h) fun e _ => ?_
  dsimp only
  split
  · exact h
  · simp only [exec_bind, enqueue, exec_query]
    split
    · exact h
    · simp only [exec_bind, reprobe, exec_execute, exec_pure]
      exact good_of_not_ready (ready_setRow fun _ => nofun) h.refs

theorem good_deleteEntry (h : Good w) : Good ((handleEntryDelete entry backend).exec w).2 := by
  refine good_entryByID (fun _ => h) fun e _ => ?_
  simp only [exec_bind, exec_deleteMedia, exec_execute, exec_pure]
  exact good_of_not_ready (ready_none rfl) nofun

/-- What is removed is not the master, or not one that is shown. -/
theorem Good.drop (h : Good w) {selected : Bool} (settled : ¬ Playing w ∨ selected = false) :
    Good (w.drop selected) := by
  rcases settled with idle | rfl
  · exact ⟨fun playing => absurd playing idle, h.refs⟩
  · exact h

theorem good_deleteOther (h : Good w) {other : Int}
    (settles : Settles entry backend w (.deleteOther other)) :
    Good ((deleteOther entry backend other).exec w).2 := by
  simp only [deleteOther, exec_bind, exec_deleteMedia, exec_query, exec_pure, drop_drop,
    Bool.or_self]
  exact h.drop settles

/-- A program for a flavor that removes files by its name. -/
theorem good_ofFlavor (h : Good w) {flavorId : Int} {selected : Text → Bool}
    {k : Except String Flavor → Db α} (settled : ¬ Playing w ∨
      ∀ f ∈ w.flavors, f.id = flavorId → selected f.name = false)
    (refused : ∀ err, ((k (.error err)).exec w).2 = w)
    (removes : ∀ f : Flavor, ((k (.ok f)).exec w).2 = w.drop (selected f.name)) :
    Good ((flavorByID flavorId >>= k).exec w).2 := by
  cases found : w.flavorByID flavorId with
  | none =>
    simp only [exec_bind, flavorByID, exec_query, found, refused]
    exact h
  | some f =>
    simp only [exec_bind, flavorByID, exec_query, found, removes]
    refine h.drop (settled.imp_right fun kept => ?_)
    have own : f.id = flavorId := by simpa using List.find?_some found
    exact kept f (List.mem_of_find?_eq_some found) own

theorem good_removeOtherFlavor (h : Good w) {other flavorId : Int}
    (settles : Settles entry backend w (.removeOtherFlavor other flavorId)) :
    Good ((removeOtherFlavor entry backend other flavorId).exec w).2 := by
  refine good_ofFlavor h settles (fun err => rfl) fun f => ?_
  simp only [exec_bind, exec_removeFlavorFiles, exec_query, exec_pure]

theorem good_giveUpOther (h : Good w) {other flavorId : Int}
    (settles : Settles entry backend w (.giveUpOther other flavorId)) :
    Good ((giveUpOther entry backend other flavorId).exec w).2 := by
  refine good_ofFlavor h settles (fun err => rfl) fun f => ?_
  simp only [exec_bind, exec_cleanup, exec_pure]

theorem good_revertFlavors (h : Good w) (flavorIds : List Int) :
    Good ((revertFlavors flavorIds).exec w).2 := by
  simp only [revertFlavors, exec_bind, exec_execute, exec_pure]
  have notDone : EntryFlavorStatus.pending ≠ .done := nofun
  refine h.of_sameShown ⟨rfl, rfl, rfl, rfl, ?_⟩ (Refs.updateWhere h.refs _ _ _ _)
  refine done_updateWhere (fun r _ own isDone => ?_) notDone none none
  simp [isDone] at own

/-- What an operation leaves when it has run alone, with statements that succeed. -/
theorem good_program (h : Good w) (operation : Operation)
    (settles : Settles entry backend w operation) :
    Good ((program entry backend operation).exec w).2 := by
  cases operation with
  | finishUpload ext size => exact good_handOff h.refs ext size false
  | download env => exact good_download h env
  | reprocess bulk => exact good_reprocess h bulk
  | deleteEntry => exact good_deleteEntry h
  | applyFlavors flavorIds => exact good_applyFlavors h flavorIds
  | probe env => exact good_probe h env settles
  | transcode env flavorId => exact good_transcode h settles env
  | revertFlavors flavorIds => exact good_revertFlavors h flavorIds
  | addSubtitle lang label => exact good_addSubtitle h settles lang label
  | deleteSubtitle id => exact good_deleteSubtitle h settles
  | createFlavor f => exact good_createFlavor h f
  | updateFlavor f => exact good_updateFlavor h settles
  | deleteFlavor id => exact good_deleteFlavor h settles
  | deleteOther other => exact good_deleteOther h settles
  | removeOtherFlavor other flavorId => exact good_removeOtherFlavor h settles
  | giveUpOther other flavorId => exact good_giveUpOther h settles

/-- At most one operation is in progress, and good is what it leaves. -/
inductive Orderly (s : State) : Prop where
  | idle (none : s.calls = []) (good : Good s.world)
  | busy (call : Call) (one : s.calls = [call]) (good : Good (call.rest.exec s.world).2)

variable {s s' : State} {id : Nat}

theorem Orderly.start (h : Orderly s) {operation : Operation}
    (careful : Careful entry backend s (.start id operation))
    (taken : step entry backend s (.start id operation) = some s') : Orderly s' := by
  obtain ⟨none, settles⟩ := careful
  rw [List.isEmpty_iff] at none
  have good : Good s.world := by
    cases h with
    | idle _ good => exact good
    | busy call one _ => cases none.symm.trans one
  unfold step at taken
  dsimp only at taken
  split at taken
  · cases taken
  · cases taken
    rw [none]
    exact .busy _ rfl (good_program good operation settles)

/-- The one operation that is in progress. -/
theorem find_one {call other : Call} (found : [other].find? (·.id = id) = some call) :
    call = other ∧ other.id = id := by
  rw [List.find?_singleton] at found
  split at found
  next same => exact ⟨(Option.some.inj found).symm, of_decide_eq_true same⟩
  · cases found

theorem Orderly.statement (h : Orderly s) (taken : step entry backend s (.statement id true) = some s') :
    Orderly s' := by
  obtain ⟨call, found, taken⟩ := Option.bind_eq_some_iff.mp taken
  obtain ⟨⟨rest, w'⟩, advanced, rfl⟩ := Option.map_eq_some_iff.mp taken
  cases h with
  | idle none _ =>
    rw [none] at found
    cases found
  | busy other one good =>
    rw [one] at found
    obtain ⟨rfl, isOne⟩ := find_one found
    refine .busy { call with rest := rest } (by simp [State.others, one, isOne]) ?_
    rw [exec_advance advanced]
    exact good

theorem Orderly.finish (h : Orderly s) (taken : step entry backend s (.finish id) = some s') : Orderly s' := by
  unfold step at taken
  dsimp only at taken
  split at taken
  next found =>
    cases taken
    cases h with
    | idle none _ =>
      rw [none] at found
      cases found
    | busy other one good =>
      rw [one] at found
      obtain ⟨rfl, rfl⟩ := find_one found
      exact .idle (by simp [State.others, one]) good
  · cases taken

theorem Orderly.step (h : Orderly s) {a : Action} (careful : Careful entry backend s a)
    (taken : step entry backend s a = some s') : Orderly s' := by
  cases a with
  | start id operation => exact h.start careful taken
  | statement id succeeds =>
    obtain rfl : succeeds = true := careful
    exact h.statement taken
  | finish id => exact h.finish taken

theorem good_start : Good start where
  fresh := fun ⟨_, _, mem, _⟩ => nomatch mem
  refs := nofun

/-- In every run whose operations follow one another, whose statements succeed and whose operations
settle, the stored master of a ready entry with a done flavor is the current one whenever no operation
is in progress. -/
theorem agrees_when_settled (entry : Int) (backend : Backend) (trace : List Action) (s : State)
    (h : Run (step entry backend) (Careful entry backend) (idle start) trace s)
    (quiet : s.calls = []) : Agrees s.world := by
  have orderly : Orderly s := h.invariant Orderly (.idle rfl good_start)
    fun _ _ _ orderly careful taken => orderly.step careful taken
  cases orderly with
  | idle _ good => exact good.agrees
  | busy call one _ => cases quiet.symm.trans one

/-- A source of 1080 lines, and no errors. -/
def working : Env where
  spool := .ok ()
  probe := .ok ⟨1000, 1080⟩
  outputDir := .ok ()
  transcodeFlavor := .ok ()
  publishFlavor := .ok ()
  master := .ok ()
  fetch := .error "no download"
  put := .ok ()

def flavor (id : Int) (name : String) (enabled : Bool) : Flavor :=
  ⟨⟨id, name.toList, 720, enabled, 0⟩, some 2000⟩

def statements (id n : Nat) : List Action := List.replicate n (.statement id true)

/-- An operation with this many statements. -/
def whole (operation : Operation) (n : Nat) : List Action :=
  .start 0 operation :: statements 0 n ++ [.finish 0]

def uploaded : List Action := whole (.finishUpload "mp4".toList 1) 2

/-- One flavor, transcoded. -/
def oneFlavor : List Action :=
  whole (.createFlavor (flavor 0 "720p" true)) 1 ++ uploaded ++ whole (.probe working) 7 ++
    whole (.transcode working 1) 14

/-- Two flavors, transcoded one after the other. -/
def twoFlavors : List Action :=
  whole (.createFlavor (flavor 0 "720p" true)) 1 ++ whole (.createFlavor (flavor 0 "480p" true)) 1 ++
    uploaded ++ whole (.probe working) 9 ++ whole (.transcode working 1) 8 ++
    whole (.transcode working 2) 15

/-- A subtitle is added before the transcode, and a flavor is removed afterwards. -/
def settledRun : List Action :=
  whole (.addSubtitle "de".toList "Deutsch".toList) 3 ++ twoFlavors ++ whole (.applyFlavors [2]) 10

theorem agrees_when_settled_removal : ∃ s,
    (Run (step 12 bucket) (Careful 12 bucket) (idle start) settledRun s ∧ s.calls = []) ∧
      Agrees s.world := by
  have executed : (exec (step 12 bucket) (fun s a => decide (Careful 12 bucket s a)) (idle start)
      settledRun).any (·.calls.isEmpty) = true := by
    decide +kernel
  obtain ⟨s, run, quiet⟩ := exists_run (fun _ _ => of_decide_eq_true) executed
  have quiet : s.calls = [] := List.isEmpty_iff.mp quiet
  exact ⟨s, ⟨run, quiet⟩, agrees_when_settled 12 bucket settledRun s run quiet⟩

def media : Backend := disk ["media".toList]

/-- Added, deleted, renamed and deleted without a rebuild; published as it is with a done flavor;
transcoded next to one that waits; added between the queries and the `Put`; a failed `Put`; entry 1
deleted; a flavor whose name leads here removed from entry 1, and given up by it. -/
def staleRuns : List (Backend × List Action) :=
  [(bucket, oneFlavor ++ whole (.addSubtitle "de".toList "Deutsch".toList) 3),
   (bucket, whole (.addSubtitle "de".toList "Deutsch".toList) 3 ++ oneFlavor ++
     whole (.deleteSubtitle 1) 3),
   (bucket, oneFlavor ++ whole (.updateFlavor (flavor 1 "720p-h264" true)) 1),
   (bucket, twoFlavors ++ whole (.deleteFlavor 1) 1),
   (bucket, oneFlavor ++ whole (.updateFlavor (flavor 1 "720p" false)) 1 ++
     whole (.reprocess false) 3 ++ whole (.probe working) 7),
   (bucket, oneFlavor ++ whole (.createFlavor (flavor 0 "480p" false)) 1 ++
     whole (.createFlavor (flavor 0 "360p" false)) 1 ++ whole (.applyFlavors [1, 2, 3, 9]) 6 ++
     whole (.transcode working 2) 8),
   (bucket, whole (.createFlavor (flavor 0 "720p" true)) 1 ++ uploaded ++ whole (.probe working) 7 ++
     .start 1 (.transcode working 1) :: statements 1 12 ++
     whole (.addSubtitle "de".toList "Deutsch".toList) 3 ++ statements 1 2 ++ [.finish 1]),
   (bucket, twoFlavors ++ .start 0 (.applyFlavors [2]) :: statements 0 8 ++
     [.statement 0 false, .finish 0]),
   (bucket, oneFlavor ++ whole (.deleteOther 1) 4),
   (media, oneFlavor ++ whole (.createFlavor (flavor 0 "../../12" false)) 1 ++
     whole (.removeOtherFlavor 1 2) 5),
   (media, oneFlavor ++ whole (.createFlavor (flavor 0 "../../12" false)) 1 ++
     whole (.giveUpOther 1 2) 2)]

theorem master_goes_stale : staleRuns.Forall fun run => ∃ s,
    Run (step 12 run.1) Always (idle start) run.2 s ∧ s.calls = [] ∧ ¬ Agrees s.world := by
  have executed : staleRuns.all (fun run =>
      (exec (step 12 run.1) (fun _ _ => true) (idle start) run.2).any
        fun s => s.calls.isEmpty && !decide (Agrees s.world)) = true := by
    decide +kernel
  rw [List.forall_iff_forall_mem]
  intro run mem
  have sound (s : State) (a : Action) (_ : true = true) : Always s a := trivial
  obtain ⟨s, reached, isStale⟩ := exists_run sound (List.all_eq_true.mp executed run mem)
  simp only [Bool.and_eq_true, List.isEmpty_iff, Bool.not_eq_true', decide_eq_false_iff_not] at isStale
  exact ⟨s, reached, isStale⟩

end Vidsilo.Jobs.Master
