import Vidsilo.Jobs.Runner
import Vidsilo.Jobs.ServedKeys
import Vidsilo.Library.StateError
import Vidsilo.Storage.Writes

/-!
# Finishing an upload

Source: internal/upload/upload.go:106-126 (`GetUpload`), 189-201 (`GetInfo`), 219-260 (`FinishUpload`),
internal/store/local.go:67-78 (`MoveIn`). Which calls fail is given; a call that fails has no effect.
Nothing else touches the upload, its entry or the jobs meanwhile. A store other than the local driver
itself is its backend; the files of a cache are left out.
-/
namespace Vidsilo.Upload.Finish
open Library Library.Decimal Library.SlashPath Library.StateError
open Storage.Keys Storage.Drivers Jobs.Tables Jobs.Runner Queue.Table

/-- What `NewUpload` has stored. -/
structure UploadMeta where
  entryId : Int
  size : Nat
  ext : Text
  noDot : '.' ∉ ext
  noSlash : '/' ∉ ext

structure World where
  /-- The file at `spoolPath`. -/
  spool : Option Bytes
  /-- The row of the upload is there. -/
  row : Bool
  media : Driver
  db : Database
  now : Int

inductive Step where
  | stat | moveIn | openSpool | put | removeSpool | updateEntry | enqueue | deleteRow
  deriving DecidableEq, Repr

structure Env where
  /-- The store is a cache or a fallback around its driver. -/
  wrapped : Bool
  fails : Step → Bool

abbrev Call (α : Type) := EStateM String World α

variable (u : UploadMeta) (env : Env)

/-- `u.ds.Store.(*store.Local)`. -/
def Env.isLocal (w : World) : Bool := !env.wrapped && w.media.isDisk

def runs (step : Step) : Call Unit := guardOr (!env.fails step) "call failed"

def UploadMeta.key : Text := originalKey u.entryId u.ext

/-- The `Offset` of `GetInfo`; nothing for an upload that is not found. -/
def getInfo (w : World) : Option Nat := if w.row then some (w.spool.getD []).length else none

def statSpool : Call Bytes := do
  runs env .stat
  match (← get).spool with
  | none => throw "no such file or directory"
  | some file => pure file

def World.store (key : Text) (file : Bytes) (w : World) : World :=
  { w with media := w.media.put key file }

def World.removeSpool (w : World) : World := { w with spool := none }

def checkKey (key : Text) : Call Unit := do
  guardOr ((← get).media.resolve key).isSome "store: unsafe key"

/-- `Local.MoveIn`. -/
def moveIn (key : Text) (file : Bytes) : Call Unit := do
  checkKey key
  runs env .moveIn
  modify fun w => (w.store key file).removeSpool

/-- `Put` of the store. The error of `os.Remove` is dropped. -/
def putSource (key : Text) (file : Bytes) : Call Unit := do
  runs env .openSpool
  checkKey key
  runs env .put
  modify fun w => w.store key file
  modify fun w => if env.fails .removeSpool then w else w.removeSpool

def storeSource (file : Bytes) : Call Unit := do
  if env.isLocal (← get) then moveIn env u.key file else putSource env u.key file

def updateEntry (size : Nat) : Call Unit := do
  runs env .updateEntry
  modify fun w => { w with db := w.db.setEntry u.entryId (toProbing u.key size false) }

def enqueueProbe : Call Unit := do
  runs env .enqueue
  guardOr ((← get).db.entries u.entryId).isSome "foreign key violation"
  modify fun w => { w with db := w.db.enqueue .probe u.entryId none 3 w.now }

def FinishUpload : Call Unit := do
  let file ← statSpool env
  storeSource u env file
  updateEntry u env file.length
  enqueueProbe u env
  modify fun w => if env.fails .deleteRow then w else { w with row := false }

/-- Nothing fails. -/
def Env.reliable : Env := { env with fails := fun _ => false }

/-- All of the upload is there. -/
structure Complete (w : World) : Prop where
  offset : getInfo w = some u.size
  entry : (w.db.entries u.entryId).isSome = true

def IsProbe (w : World) (id : JobId) : Prop :=
  ∃ j, w.db.jobs.row id = some j ∧ j.type = .probe ∧ j.entryId = some u.entryId

/-- The entry is probing with the file as its source, and one probe job was added since `w`. -/
structure Finished (file : Bytes) (w w' : World) : Prop where
  entry : ∃ e, w'.db.entries u.entryId = some e ∧ e.status = .probing ∧ e.sourceKey = u.key ∧
    e.sourceSize = some (file.length : Int)
  stored : w'.media.lookup u.key = some file
  probe : ∃ id, w.db.jobs.row id = none ∧ ∀ other, IsProbe u w' other ↔ IsProbe u w other ∨ other = id

/-- After an error all of the upload is still there, and a call of which nothing fails finishes it. -/
def Recovers (w : World) : Prop :=
  ∀ err w', (FinishUpload u env).run w = .error err w' →
    getInfo w' = some u.size ∧
      ∃ last, (FinishUpload u env.reliable).run w' = .ok () last ∧
        Finished u (w.spool.getD []) w last

/-- The source gets into the store. -/
def Env.stores (w : World) : Bool :=
  !env.fails .stat &&
    if env.isLocal w then !env.fails .moveIn else !env.fails .openSpool && !env.fails .put

/-- The file is there; once its bytes are stored, the UPDATE and the `Enqueue` go through or the file
could not be removed. -/
def Recoverable (w : World) : Prop :=
  w.spool.isSome = true ∧ (env.stores w = true →
    (env.fails .updateEntry = false ∧ env.fails .enqueue = false) ∨
      (env.isLocal w = false ∧ env.fails .removeSpool = true))

variable {u} {env} {w w' : World} {file : Bytes}

theorem segments_key (u : UploadMeta) :
    ∀ c ∈ [entriesRoot, formatInt u.entryId, "original.".toList ++ u.ext], Segment c := by
  have name : Segment ("original.".toList ++ u.ext) := by
    apply Jobs.Master.segment_of_mem (x := 'o') (List.mem_append_left _ (by decide)) (by decide)
    intro mem
    rcases List.mem_append.mp mem with own | inExt
    · exact absurd own (by decide)
    · exact u.noSlash inExt
  simp only [List.forall_mem_cons]
  exact ⟨segment_entriesRoot, segment_formatInt _, name, nofun⟩

theorem key_eq (u : UploadMeta) :
    u.key = joinSlash [entriesRoot, formatInt u.entryId, "original.".toList ++ u.ext] := by
  have bare : (if ['.'].isPrefixOf u.ext then u.ext.drop 1 else u.ext) = u.ext := by
    refine if_neg fun dotted => u.noDot ?_
    exact (List.isPrefixOf_iff_prefix.mp dotted).subset (List.mem_singleton_self _)
  unfold UploadMeta.key originalKey
  rw [bare, entryDir_eq, join_below (by simp) (by simp) (segments_entryDir _)]
  · rfl
  · intro c mem
    rw [List.mem_singleton.mp mem]
    exact segments_key u _ (by simp)

/-- No component of the key has two dots. -/
theorem dots_key (u : UploadMeta) :
    ∀ c ∈ [entriesRoot, formatInt u.entryId, "original.".toList ++ u.ext], ¬ dotdot <:+: c := by
  have few {c : Text} (count : c.count '.' ≤ 1) : ¬ dotdot <:+: c := by
    intro within
    have two : dotdot.count '.' ≤ c.count '.' := within.sublist.count_le '.'
    have : dotdot.count '.' = 2 := by decide
    omega
  simp only [List.forall_mem_cons]
  refine ⟨few (by decide), few ?_, few ?_, nofun⟩
  · rw [List.count_eq_zero_of_not_mem (not_mem_formatInt _ (by decide) (by decide))]
    omega
  · rw [List.count_append, List.count_eq_zero_of_not_mem u.noDot]
    decide

theorem pathForKey_key (u : UploadMeta) :
    Local.pathForKey u.key = some [entriesRoot, formatInt u.entryId, "original.".toList ++ u.ext] := by
  have segments := segments_key u
  rw [pathForKey_iff, key_eq, components_joinSlash _ (by simp) fun c mem => (segments c mem).2]
  exact ⟨head_joinSlash (by simp) segments, spells_self _ fun c mem => (segments c mem).1, by simp,
    dots_key u⟩

theorem components_key (u : UploadMeta) :
    components u.key = [entriesRoot, formatInt u.entryId, "original.".toList ++ u.ext] := by
  rw [key_eq, components_joinSlash _ (by simp) fun c mem => (segments_key u c mem).2]

theorem resolve_key (d : Driver) : (d.resolve u.key).isSome = true := by
  cases d with
  | disk l => simp [Driver.resolve, pathForKey_key]
  | bucket objects => rfl

theorem lookup_key (d : Driver) : (d.put u.key file).lookup u.key = some file := by
  cases d with
  | disk l =>
    have named : ([entriesRoot, formatInt u.entryId, "original.".toList ++ u.ext] : List Text) ≠ [] ∧
        ∀ c ∈ [entriesRoot, formatInt u.entryId, "original.".toList ++ u.ext], Segment c :=
      ⟨by simp, segments_key u⟩
    have put : l.put u.key file =
        l.insert [entriesRoot, formatInt u.entryId, "original.".toList ++ u.ext] file := by
      simp only [Local.put, pathForKey_key]
    change (l.put u.key file).files.lookup (components u.key) = some file
    rw [put, components_key]
    unfold Local.insert
    rw [dif_pos named]
    exact AList.lookup_insert _
  | bucket objects => exact AList.lookup_insert _

theorem run_statSpool (env : Env) (w : World) :
    (statSpool env).run w = if env.fails .stat then .error "call failed" w else
      match w.spool with
      | none => .error "no such file or directory" w
      | some file => .ok file w := by
  unfold statSpool runs
  cases env.fails .stat with
  | true => rfl
  | false =>
    cases spooled : w.spool with
    | none =>
      change (match w.spool with
        | none => throw "no such file or directory"
        | some file => pure file : Call Bytes).run w = _
      rw [spooled]
      rfl
    | some file =>
      change (match w.spool with
        | none => throw "no such file or directory"
        | some file => pure file : Call Bytes).run w = _
      rw [spooled]
      rfl

/-- The bytes are in the store, and the file is gone unless it could not be removed. -/
def World.stored (w : World) (u : UploadMeta) (env : Env) (file : Bytes) : World :=
  if env.isLocal w = false ∧ env.fails .removeSpool = true then w.store u.key file
  else (w.store u.key file).removeSpool

theorem run_checkKey (w : World) : (checkKey u.key).run w = .ok () w := by
  unfold checkKey
  change (guardOr (w.media.resolve u.key).isSome "store: unsafe key" : Call Unit).run w = _
  rw [resolve_key]
  rfl

theorem run_moveIn (env : Env) (w : World) : (moveIn env u.key file).run w =
    if env.fails .moveIn then .error "call failed" w
    else .ok () (w.store u.key file).removeSpool := by
  unfold moveIn
  rw [EStateM.run_bind, run_checkKey]
  unfold runs
  cases env.fails .moveIn <;> rfl

theorem run_putSource (env : Env) (w : World) : (putSource env u.key file).run w =
    if env.fails .openSpool || env.fails .put then .error "call failed" w
    else .ok () (if env.fails .removeSpool then w.store u.key file
      else (w.store u.key file).removeSpool) := by
  unfold putSource runs
  cases env.fails .openSpool with
  | true => rfl
  | false =>
    change (do
      checkKey u.key
      guardOr (!env.fails .put) "call failed"
      modify fun w => w.store u.key file
      modify fun w => if env.fails .removeSpool then w else w.removeSpool : Call Unit).run w = _
    rw [EStateM.run_bind, run_checkKey]
    cases env.fails .put <;> rfl

/-- The source gets into the store, or nothing has happened. -/
theorem run_storeSource (env : Env) (w : World) (ran : env.fails .stat = false) :
    (storeSource u env file).run w =
      if env.stores w then .ok () (w.stored u env file) else .error "call failed" w := by
  unfold storeSource
  change (if env.isLocal w then moveIn env u.key file else putSource env u.key file : Call Unit).run w = _
  unfold Env.stores World.stored
  cases env.isLocal w with
  | true =>
    rw [if_pos rfl, run_moveIn]
    cases env.fails .moveIn <;> simp [ran]
  | false =>
    rw [if_neg (by decide), run_putSource]
    cases env.fails .openSpool <;> cases env.fails .put <;> simp [ran]

def World.probing (w : World) (u : UploadMeta) (size : Nat) : World :=
  { w with db := w.db.setEntry u.entryId (toProbing u.key size false) }

def World.queued (w : World) (u : UploadMeta) : World :=
  { w with db := w.db.enqueue .probe u.entryId none 3 w.now }

def World.unlisted (w : World) (env : Env) : World :=
  if env.fails .deleteRow then w else { w with row := false }

theorem entry_probing (w : World) (u : UploadMeta) (size : Nat) :
    (w.probing u size).db.entries u.entryId =
      (w.db.entries u.entryId).map (toProbing u.key size false) :=
  if_pos rfl

theorem jobs_probing (w : World) (u : UploadMeta) (size : Nat) :
    (w.probing u size).db.jobs = w.db.jobs := rfl

theorem isSome_probing (size : Nat) (entry : (w.db.entries u.entryId).isSome = true) :
    ((w.probing u size).db.entries u.entryId).isSome = true := by
  rw [entry_probing, Option.isSome_map]
  exact entry

theorem run_updateEntry (env : Env) (size : Nat) (w : World) : (updateEntry u env size).run w =
    if env.fails .updateEntry then .error "call failed" w else .ok () (w.probing u size) := by
  unfold updateEntry runs
  cases env.fails .updateEntry <;> rfl

theorem run_enqueueProbe (env : Env) (entry : (w.db.entries u.entryId).isSome = true) :
    (enqueueProbe u env).run w =
      if env.fails .enqueue then .error "call failed" w else .ok () (w.queued u) := by
  unfold enqueueProbe runs
  cases env.fails .enqueue with
  | true => rfl
  | false =>
    change (guardOr (w.db.entries u.entryId).isSome "foreign key violation" >>= fun _ =>
      modify fun w => w.queued u : Call Unit).run w = _
    rw [entry]
    rfl

/-- A call that finds the file. -/
theorem run_FinishUpload (env : Env) (spooled : w.spool = some file)
    (entry : (w.db.entries u.entryId).isSome = true) : (FinishUpload u env).run w =
      if env.stores w then
        if env.fails .updateEntry then .error "call failed" (w.stored u env file)
        else if env.fails .enqueue then
          .error "call failed" ((w.stored u env file).probing u file.length)
        else .ok () ((((w.stored u env file).probing u file.length).queued u).unlisted env)
      else .error "call failed" w := by
  have kept : ((w.stored u env file).db.entries u.entryId).isSome = true := by
    unfold World.stored
    split <;> exact entry
  unfold FinishUpload
  have read := run_statSpool env w
  cases ran : env.fails .stat with
  | true =>
    rw [ran] at read
    rw [run_bind_error read, if_neg (by simp [Env.stores, ran])]
  | false =>
    simp only [ran, Bool.false_eq_true, if_false, spooled] at read
    rw [run_bind_ok read]
    have moved : (storeSource u env file).run w = _ := run_storeSource env w ran
    split at moved
    · next stores =>
      rw [run_bind_ok moved, if_pos stores]
      have updated := run_updateEntry (u := u) env file.length (w.stored u env file)
      split at updated
      · next fails => rw [run_bind_error updated, if_pos fails]
      · next holds =>
        rw [run_bind_ok updated, if_neg holds]
        have queued := run_enqueueProbe env (isSome_probing file.length kept)
        split at queued
        · next fails => rw [run_bind_error queued, if_pos fails]
        · next holds =>
          rw [run_bind_ok queued, if_neg holds]
          rfl
    · next blocked => rw [run_bind_error moved, if_neg blocked]

theorem db_stored (w : World) (u : UploadMeta) (env : Env) (file : Bytes) :
    (w.stored u env file).db = w.db := by
  unfold World.stored
  split <;> rfl

theorem media_stored (w : World) (u : UploadMeta) (env : Env) (file : Bytes) :
    (w.stored u env file).media = w.media.put u.key file := by
  unfold World.stored
  split <;> rfl

theorem spool_stored (w : World) (u : UploadMeta) (env : Env) (file : Bytes) :
    (w.stored u env file).spool =
      if env.isLocal w = false ∧ env.fails .removeSpool = true then w.spool else none := by
  unfold World.stored
  split <;> rfl

theorem row_stored (w : World) (u : UploadMeta) (env : Env) (file : Bytes) :
    (w.stored u env file).row = w.row := by
  unfold World.stored
  split <;> rfl

theorem entries_queued (w : World) (u : UploadMeta) : (w.queued u).db.entries = w.db.entries := by
  unfold World.queued Database.enqueue
  split <;> rfl

theorem jobs_queued (entry : (w.db.entries u.entryId).isSome = true) : (w.queued u).db.jobs =
    addJob w.db.jobs (enqueueAt .probe (some u.entryId) none 3 none w.now) := by
  unfold World.queued Database.enqueue
  rw [if_pos entry]

theorem probe_queued (entry : (w.db.entries u.entryId).isSome = true) (id : JobId) :
    IsProbe u (w.queued u) id ↔ IsProbe u w id ∨ id = w.db.jobs.nextId := by
  unfold IsProbe
  rw [jobs_queued entry, row_addJob]
  split
  · next fresh => simp [fresh, enqueueAt]
  · next old => simp [old]

/-- A call of which nothing fails finishes the upload. -/
theorem finishes (spooled : w'.spool = some file)
    (entry : (w'.db.entries u.entryId).isSome = true) (jobs : w'.db.jobs = w.db.jobs) :
    ∃ last, (FinishUpload u env.reliable).run w' = .ok () last ∧ Finished u file w last := by
  have stores : env.reliable.stores w' = true := by simp [Env.stores, Env.reliable]
  have run := run_FinishUpload env.reliable spooled entry
  rw [if_pos stores, if_neg (by simp [Env.reliable]), if_neg (by simp [Env.reliable])] at run
  refine ⟨_, run, ?_⟩
  have there := isSome_probing file.length (w := w'.stored u env.reliable file)
    (by rw [db_stored]; exact entry)
  obtain ⟨e, found⟩ := Option.isSome_iff_exists.mp entry
  constructor
  · refine ⟨toProbing u.key file.length false e, ?_, rfl, rfl, rfl⟩
    change (((w'.stored u env.reliable file).probing u file.length).queued u).db.entries u.entryId = _
    rw [entries_queued, entry_probing, db_stored, found]
    rfl
  · change (w'.stored u env.reliable file).media.lookup u.key = some file
    rw [media_stored, lookup_key]
  · have probes (id : JobId) : IsProbe u ((w'.stored u env.reliable file).probing u file.length) id ↔
        IsProbe u w id := by
      unfold IsProbe
      rw [← jobs]
      change (∃ j, (w'.stored u env.reliable file).db.jobs.row id = some j ∧ _) ↔ _
      rw [db_stored]
    refine ⟨w.db.jobs.nextId, w.db.jobs.drawn _ le_rfl, fun id => ?_⟩
    refine (probe_queued there id).trans ?_
    rw [probes, ← jobs]
    change _ ∨ id = (w'.stored u env.reliable file).db.jobs.nextId ↔ _
    rw [db_stored]

/-- Without the file every call fails. -/
theorem gone (u : UploadMeta) (env : Env) (spooled : w.spool = none) : ∃ err, (FinishUpload u env).run w = .error err w := by
  have read := run_statSpool env w
  rw [spooled] at read
  split at read <;> exact ⟨_, run_bind_error read⟩

/-- An error after the source was stored. -/
theorem recovers_stored_iff (w' : World) (complete : Complete u w) (spooled : w.spool = some file)
    (last : w'.spool = (w.stored u env file).spool) (row : w'.row = w.row)
    (entry : (w'.db.entries u.entryId).isSome = true) (jobs : w'.db.jobs = w.db.jobs) :
    (getInfo w' = some u.size ∧ ∃ last, (FinishUpload u env.reliable).run w' = .ok () last ∧
      Finished u file w last) ↔ env.isLocal w = false ∧ env.fails .removeSpool = true := by
  rw [spool_stored] at last
  split at last
  · next stays =>
    refine iff_of_true ⟨?_, finishes (last.trans spooled) entry jobs⟩ stays
    rw [← complete.offset]
    simp only [getInfo, row, last]
  · next removed =>
    refine iff_of_false ?_ removed
    rintro ⟨_, _, run, _⟩
    obtain ⟨err, fails⟩ := gone u env.reliable last
    cases fails.symm.trans run

/-- Whichever calls fail: an upload whose `FinishUpload` returns an error can be finished later exactly
when it is recoverable. -/
theorem finish_recovers_iff (u : UploadMeta) (env : Env) (w : World) (complete : Complete u w) :
    Recovers u env w ↔ Recoverable env w := by
  unfold Recovers Recoverable
  cases spooled : w.spool with
  | none =>
    refine iff_of_false (fun recovers => ?_) (by simp)
    obtain ⟨err, run⟩ := gone u env spooled
    obtain ⟨_, _, again, _⟩ := recovers err w run
    obtain ⟨_, fails⟩ := gone u env.reliable spooled
    cases fails.symm.trans again
  | some file =>
    have ended := run_FinishUpload (u := u) env spooled complete.entry
    have entry : ((w.stored u env file).db.entries u.entryId).isSome = true := by
      rw [db_stored]
      exact complete.entry
    rw [ended]
    simp only [Option.isSome_some, true_and, Option.getD_some]
    cases stores : env.stores w with
    | false =>
      refine iff_of_true ?_ (by simp)
      rintro err w' ⟨⟩
      exact ⟨complete.offset, finishes spooled complete.entry rfl⟩
    | true =>
      cases update : env.fails .updateEntry with
      | true =>
        have after := recovers_stored_iff (w.stored u env file) complete spooled rfl
          (row_stored w u env file) entry (by rw [db_stored])
        simpa using after
      | false =>
        cases enqueue : env.fails .enqueue with
        | true =>
          have after := recovers_stored_iff ((w.stored u env file).probing u file.length) complete
            spooled rfl (row_stored w u env file) (isSome_probing _ entry)
            (by rw [jobs_probing, db_stored])
          simpa using after
        | false => exact iff_of_true (by simp) (by simp)

def clip : UploadMeta := ⟨7, 2, "mp4".toList, by decide, by decide⟩

def uploaded : World where
  spool := some [1, 2]
  row := true
  media := emptyDisk
  db := ⟨fun id => if id = 7 then some ⟨.uploading, [], none, none, none⟩ else none, 8, [], 1, .empty,
    .empty⟩
  now := 0

theorem finish_recovers_iff_uploaded : Complete clip uploaded ∧
    (Recovers clip ⟨false, fun step => step = .moveIn⟩ uploaded ↔
      Recoverable ⟨false, fun step => step = .moveIn⟩ uploaded) :=
  ⟨⟨by decide, by decide⟩, finish_recovers_iff clip _ _ ⟨by decide, by decide⟩⟩

/-- The UPDATE of the entry fails, and the file is no longer in the spool. -/
theorem failed_update_loses_offset :
    Complete clip uploaded ∧ ¬ Recovers clip ⟨false, fun step => step = .updateEntry⟩ uploaded := by
  refine ⟨⟨by decide, by decide⟩, fun recovers => ?_⟩
  have run := run_FinishUpload (u := clip) ⟨false, fun step => step = .updateEntry⟩
    (rfl : uploaded.spool = some [1, 2]) rfl
  rw [if_pos (by decide), if_pos (by decide)] at run
  exact absurd (recovers _ _ run).1 (by decide)

end Vidsilo.Upload.Finish
