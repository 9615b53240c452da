import Vidsilo.Jobs.Pipeline

/-!
# What every statement leaves to come

Source: as `Runner` and `Pipeline`. Between two statements of a request or of a handler
anything may happen to the database. `Apart` says what a statement leaves alone, `Step`
moreover that it takes an entry into a processing state only with the `Enqueue` of a job
for it as the next statement, and that a handler which returns without error leaves its
entry settled, with a new job or with an open flavor row.
-/
namespace Vidsilo.Jobs.Coverage
open Library Library.Program Queue.Table Tables Runner Pipeline

def live (j : Job) : Bool := j.status = .queued || j.status = .running

def processing (e : Entry) : Bool := e.status = .probing || e.status = .transcoding

/-- A job that could finish the entry. -/
def finisher (entryId : Int) (j : Job) : Bool :=
  live j && j.entryId = some entryId && (j.type = .probe || j.type = .transcode)

/-- The entry is in a processing state. -/
def underway (db : Database) (entryId : Int) : Bool := (db.entries entryId).any processing

def busy (db : Database) (entryId : Int) : Bool :=
  (db.entries entryId).any fun e => e.status ≠ .ready && e.status ≠ .failed

/-- The jobs stay as they are, and new ones have new ids. -/
structure Grows (db db' : Database) : Prop where
  kept : ∀ id j, db.jobs.row id = some j → db'.jobs.row id = some j
  old : ∀ id j, id < db.jobs.nextId → db'.jobs.row id = some j → db.jobs.row id = some j
  next : db.jobs.nextId ≤ db'.jobs.nextId

/-- Other entries than the owner and their flavor rows are as they were, and new jobs are
queued and the owner's. No statement writes an entry and flavor rows at once. -/
structure Apart (owner : Option Int) (db db' : Database) : Prop extends Grows db db' where
  entry : ∀ k, owner ≠ some k → db'.entries k = db.entries k
  row : ∀ r, owner ≠ some r.entryId → (r ∈ db'.entryFlavors.rows ↔ r ∈ db.entryFlavors.rows)
  fresh : ∀ id j, db.jobs.row id = none → db'.jobs.row id = some j →
    j.status = .queued ∧ j.entryId = owner
  single : db'.entries = db.entries ∨ db'.entryFlavors = db.entryFlavors

variable {i k : Int} {owner : Option Int} {db db' : Database}

theorem finisher_iff {j : Job} : finisher k j = true ↔
    (j.status = .queued ∨ j.status = .running) ∧ j.entryId = some k ∧
      (j.type = .probe ∨ j.type = .transcode) := by
  simp only [finisher, live, Bool.and_eq_true, Bool.or_eq_true, decide_eq_true_eq, and_assoc]

/-- The same job in another state that is not final. -/
theorem finisher_same {j j' : Job} (fin : finisher k j = true)
    (alive : j'.status = .queued ∨ j'.status = .running) (entry : j'.entryId = j.entryId)
    (type : j'.type = j.type) : finisher k j' = true := by
  rw [finisher_iff] at fin ⊢
  rw [entry, type]
  exact ⟨alive, fin.2⟩

theorem Grows.refl (db : Database) : Grows db db where
  kept _ _ row := row
  old _ _ _ row := row
  next := Nat.le_refl _

theorem Apart.refl (owner : Option Int) (db : Database) : Apart owner db db where
  toGrows := .refl db
  entry _ _ := rfl
  row _ _ := Iff.rfl
  fresh id j none some := by
    rw [none] at some
    cases some
  single := .inl rfl

theorem underway_congr (h : db'.entries k = db.entries k) : underway db' k = underway db k := by
  unfold underway
  rw [h]

theorem busy_congr (h : db'.entries k = db.entries k) : busy db' k = busy db k := by
  unfold busy
  rw [h]

theorem busy_of_underway (h : underway db k = true) : busy db k = true := by
  obtain ⟨e, found, processing⟩ := (Option.any_eq_true _ _).mp h
  refine (Option.any_eq_true _ _).mpr ⟨e, found, ?_⟩
  rcases (Bool.or_eq_true _ _).mp processing with probing | transcoding
  · simp [of_decide_eq_true probing]
  · simp [of_decide_eq_true transcoding]

/-- An UPDATE to another status than the processing ones. -/
theorem underway_setEntry {set : Entry → Entry} (settled : ∀ e, processing (set e) = false)
    (h : underway (db.setEntry i set) k = true) : underway db k = true := by
  obtain ⟨e, found, processing⟩ := (Option.any_eq_true _ _).mp h
  by_cases own : k = i
  · simp only [Database.setEntry, if_pos own, Option.map_eq_some_iff] at found
    obtain ⟨e, _, rfl⟩ := found
    rw [settled e] at processing
    cases processing
  · simp only [Database.setEntry, if_neg own] at found
    exact (Option.any_eq_true _ _).mpr ⟨e, found, processing⟩

theorem busy_setEntry_of_settled {set : Entry → Entry} (settled : ∀ e, (set e).status = .ready)
    (db : Database) : busy (db.setEntry i set) i = false := by
  cases found : db.entries i with
  | none => simp [busy, Database.setEntry, found]
  | some e => simp [busy, Database.setEntry, found, settled e]

theorem apart_setEntry (i : Int) (set : Entry → Entry) (db : Database) :
    Apart (some i) db (db.setEntry i set) :=
  { Apart.refl (some i) db with
    entry := by
      intro k other
      have hk : k ≠ i := fun same => other (by rw [same])
      simp only [Database.setEntry, if_neg hk]
    single := .inr rfl }

theorem apart_rows {t : EntryFlavors} {db : Database}
    (row : ∀ r, r.entryId ≠ i → (r ∈ t.rows ↔ r ∈ db.entryFlavors.rows)) :
    Apart (some i) db { db with entryFlavors := t } :=
  { Apart.refl (some i) db with
    row := fun r other => row r fun same => other (by rw [same])
    single := .inl rfl }

theorem mem_updateWhere_of_ne {t : EntryFlavors} {p : EntryFlavor → Bool}
    {status : EntryFlavorStatus} {error : Option String}
    {playlistKey : Option Library.SlashPath.Text} {r : EntryFlavor}
    (own : ∀ q, p q = true → q.entryId = i) (other : r.entryId ≠ i) :
    r ∈ (t.updateWhere p status error playlistKey).rows ↔ r ∈ t.rows := by
  constructor
  · intro mem
    obtain ⟨q, hq, key, hr⟩ := EntryFlavors.mem_updateWhere mem
    split at hr
    · next applies =>
      have entry : r.entryId = q.entryId := (Prod.mk.inj key).1
      exact absurd (entry.trans (own q applies)) other
    · rwa [hr]
  · intro mem
    refine List.mem_map.mpr ⟨r, mem, ?_⟩
    rw [if_neg fun applies => other (own r applies)]

theorem mem_upsert_of_ne {t : EntryFlavors} {flavorId : Int} {status : EntryFlavorStatus}
    {error : Option String} {r : EntryFlavor} (other : r.entryId ≠ i) :
    r ∈ (t.upsert i flavorId status error).rows ↔ r ∈ t.rows := by
  unfold EntryFlavors.upsert
  split
  · apply mem_updateWhere_of_ne _ other
    intro q applies
    exact (Prod.mk.inj (of_decide_eq_true applies)).1
  · simp only [List.mem_append, List.mem_singleton, or_iff_left_iff_imp]
    rintro rfl
    exact absurd rfl other

theorem apart_updateRows {p : EntryFlavor → Bool} {status : EntryFlavorStatus}
    {error : Option String} {playlistKey : Option Library.SlashPath.Text}
    (own : ∀ q, p q = true → q.entryId = i) (db : Database) :
    Apart (some i) db
      { db with entryFlavors := db.entryFlavors.updateWhere p status error playlistKey } :=
  apart_rows fun _ other => mem_updateWhere_of_ne own other

theorem apart_upsert (flavorId : Int) (status : EntryFlavorStatus) (error : Option String)
    (db : Database) :
    Apart (some i) db
      { db with entryFlavors := db.entryFlavors.upsert i flavorId status error } :=
  apart_rows fun _ other => mem_upsert_of_ne other

theorem apart_deleteRow (flavorId : Int) (db : Database) :
    Apart (some i) db
      { db with
        entryFlavors := db.entryFlavors.deleteWhere fun r => r.key = (i, flavorId) } := by
  apply apart_rows
  intro r other
  have kept : r.key ≠ (i, flavorId) := fun key => other (Prod.mk.inj key).1
  simp [EntryFlavors.deleteWhere, List.mem_filter, kept]

theorem grows_addJob (j : Job) (db : Database) : Grows db { db with jobs := addJob db.jobs j } where
  kept id k row := by
    rw [row_addJob, if_neg (Nat.ne_of_lt (Jobs.lt_nextId row))]
    exact row
  old id k drawn row := by rwa [row_addJob, if_neg (Nat.ne_of_lt drawn)] at row
  next := Nat.le_succ _

theorem apart_enqueue (jobType : JobType) (flavorId : Option Int) (maxAttempts now : Int)
    (db : Database) :
    Apart (some i) db (db.enqueue jobType i flavorId maxAttempts now) := by
  unfold Database.enqueue
  split
  · exact
      { Apart.refl (some i) db with
        toGrows := grows_addJob _ db
        fresh := by
          intro id j none row
          rw [row_addJob] at row
          split at row
          · cases row
            exact ⟨rfl, rfl⟩
          · rw [none] at row
            cases row }
  · exact .refl _ _

theorem entries_enqueue (jobType : JobType) (flavorId : Option Int) (maxAttempts now : Int)
    (db : Database) : (db.enqueue jobType i flavorId maxAttempts now).entries = db.entries := by
  unfold Database.enqueue
  split
  · rfl
  · rfl

/-- `Enqueue` for an entry that is there. -/
theorem finisher_enqueue {jobType : JobType} {flavorId : Option Int} {maxAttempts now : Int}
    (type : jobType = .probe ∨ jobType = .transcode) (present : (db.entries i).isSome = true) :
    ((db.enqueue jobType i flavorId maxAttempts now).jobs.row db.jobs.nextId).any (finisher i) =
      true := by
  simp only [Database.enqueue, if_pos present, row_addJob, if_true, Option.any_some, finisher,
    live, enqueueAt, decide_true, Bool.true_or, Bool.true_and, Bool.or_eq_true, decide_eq_true_eq]
  exact type

/-- The next statement enqueues a job that could finish the entry. -/
def Owes (k : Int) : Db α → Prop
  | .ret _ => False
  | .stmt set _ _ => ∀ db, (db.entries k).isSome = true →
    ((set db).jobs.row db.jobs.nextId).any (finisher k) = true

theorem owes_bind {p : Db α} {f : α → Db β} (h : Owes k p) : Owes k (p >>= f) := by
  cases p with
  | ret value => cases h
  | stmt set live dead => exact h

theorem owes_enqueue {jobType : JobType} {flavorId : Option Int} {maxAttempts now : Int}
    (type : jobType = .probe ∨ jobType = .transcode) :
    Owes i (enqueue jobType i flavorId maxAttempts now) :=
  fun _ present => finisher_enqueue type present

/-- Nothing gets under way. -/
structure Calm (i : Int) (db db' : Database) : Prop extends Apart (some i) db db' where
  calm : ∀ k, underway db' k = true → underway db k = true

theorem Calm.refl (i : Int) (db : Database) : Calm i db db where
  toApart := .refl (some i) db
  calm _ h := h

theorem calm_setEntry {set : Entry → Entry} (settled : ∀ e, processing (set e) = false)
    (db : Database) : Calm i db (db.setEntry i set) where
  toApart := apart_setEntry i set db
  calm _ h := underway_setEntry settled h

section Requests

theorem within_query (read : Database → Except String α) :
    (query read).Within (Apart owner) := related_query (.refl owner) read

theorem within_setEntry (set : Entry → Entry) :
    (execute fun db => db.setEntry i set).Within (Apart (some i)) :=
  within_statement _ _ (apart_setEntry i set)

theorem within_enqueue (jobType : JobType) (flavorId : Option Int) (maxAttempts now : Int) :
    (enqueue jobType i flavorId maxAttempts now).Within (Apart (some i)) :=
  within_statement _ _ (apart_enqueue jobType flavorId maxAttempts now)

theorem within_reprobe : (reprobe i).Within (Apart (some i)) :=
  within_bind (within_setEntry _) fun _ => within_pure _

theorem within_handleEntryReprocess (bulk : Bool) (now : Int) :
    (handleEntryReprocess bulk i now).Within (Apart (some i)) := by
  refine within_try (within_query _) (fun _ => within_pure _) ?_
  intro e
  dsimp only
  split
  · exact within_pure _
  · refine within_try (within_enqueue _ _ _ _) (fun _ => within_pure _) ?_
    exact fun _ => within_bind within_reprobe fun _ => within_pure _

theorem within_insertFlavorRow (flavorId : Int) :
    (insertFlavorRow i flavorId).Within (Apart (some i)) := by
  apply within_statement
  intro db
  split
  · exact apart_upsert _ _ _ db
  · exact .refl _ db

theorem within_prepareFlavors (now : Int) (added : List Int) :
    (prepareFlavors i now added).Within (Apart (some i)) := by
  induction added with
  | nil => exact within_pure _
  | cons f rest ih =>
    apply within_bind
    · refine within_try (within_insertFlavorRow f) (fun _ => within_pure _) ?_
      exact fun _ => within_bind (within_enqueue _ _ _ _) fun _ => within_pure _
    · intro res
      cases res with
      | some err => exact within_pure _
      | none => exact ih

theorem within_removeFlavors (removed : List Int) :
    (removeFlavors i removed).Within (Apart (some i)) := by
  induction removed with
  | nil => exact within_pure _
  | cons f rest ih =>
    apply within_bind
    · refine within_try (within_query _) (fun _ => within_pure _) ?_
      intro _
      exact within_bind (within_statement _ _ (apart_deleteRow f)) fun _ => within_pure _
    · intro res
      cases res with
      | some err => exact within_pure _
      | none => exact ih

theorem within_failWithoutRenditions : (failWithoutRenditions i).Within (Apart (some i)) := by
  refine within_try (within_query _) (fun _ => within_pure _) ?_
  intro doneCount
  dsimp only
  split
  · exact within_bind (within_setEntry _) fun _ => within_pure _
  · exact within_pure _

theorem within_finishApply (env : Env) (grown : Bool) :
    (finishApply env i grown).Within (Apart (some i)) := by
  refine within_try (within_query _) (fun _ => within_pure _) ?_
  intro _
  cases grown with
  | true =>
    apply within_bind within_reprobe
    intro _
    apply within_bind (related_buildMaster (.refl _) env)
    intro res
    cases res with
    | some err => exact within_pure _
    | none => exact within_pure _
  | false =>
    apply within_bind (related_buildMaster (.refl _) env)
    intro res
    cases res with
    | some err => exact within_pure _
    | none => exact within_failWithoutRenditions

theorem within_applyFlavors (env : Env) (flavorIds : List Int) (now : Int) :
    (applyFlavors env i flavorIds now).Within (Apart (some i)) := by
  refine within_try (within_query _) (fun _ => within_pure _) ?_
  intro current
  apply within_bind (within_prepareFlavors now _)
  intro res
  cases res with
  | some err => exact within_pure _
  | none =>
    apply within_bind (within_removeFlavors _)
    intro res
    cases res with
    | some err => exact within_pure _
    | none => exact within_finishApply env _

end Requests

/-- After the last statement of a handler that returns no error: the owner's entry is settled,
this statement enqueued a job that could finish it, or it found an open flavor row. -/
def Attended (owner : Option Int) (before after : Database) : Prop :=
  ∀ k, owner = some k → busy after k = true →
    (after.jobs.row before.jobs.nextId).any (finisher k) = true ∨
      after = before ∧ 0 < before.remaining k

/-- What a statement of a handler does, with what is then left of the handler. -/
structure Step (owner : Option Int) (ok : α → Prop) (rest : Db α) (db db' : Database) : Prop where
  apart : Apart owner db db'
  sends : ∀ k, underway db' k = true → underway db k = true ∨ owner = some k ∧ Owes k rest
  attended : ∀ a, rest = .ret a → ok a → Attended owner db db'

section Executions

variable {G : Database → Prop} {before after : Database}

/-- Without an error, the handler leaves its entry attended, whatever else goes on; `before`
and `after` are the ends of the last statement. -/
structure Leaves (G : Database → Prop) (i : Int) (p : Db (Option String))
    (before after : Database) : Prop where
  returned : p = .ret none → Attended (some i) before after
  among : p.Among G (Step (some i) (· = none))

theorem Step.of_leaves {p : Db (Option String)} (apart : Apart (some i) before after)
    (sends : ∀ k, underway after k = true → underway before k = true ∨ some i = some k ∧ Owes k p)
    (h : Leaves G i p before after) : Step (some i) (· = none) p before after where
  apart := apart
  sends := sends
  attended := by
    rintro a ret rfl
    exact h.returned ret

theorem Leaves.ask {read : Database → Except String α} {k : Except String α → Db (Option String)}
    (h : ∀ db, Leaves G i (k (read db)) db db) : Leaves G i (query read >>= k) before after where
  returned ret := by cases ret
  among db _ := ⟨.of_leaves (.refl _ db) (fun _ => .inl) (h db), (h db).among⟩

theorem Leaves.write {set : Database → Database} {k : Except String Unit → Db (Option String)}
    (own : ∀ db, Apart (some i) db (set db))
    (sends : ∀ db k', underway (set db) k' = true →
      underway db k' = true ∨ some i = some k' ∧ Owes k' (k (.ok ())))
    (h : ∀ db, Leaves G i (k (.ok ())) db (set db)) :
    Leaves G i (execute set >>= k) before after where
  returned ret := by cases ret
  among db _ := ⟨.of_leaves (own db) (sends db) (h db), (h db).among⟩

theorem Leaves.calmly {p : Db α} {k : α → Db (Option String)} (calm : p.Within (Calm i))
    (h : ∀ a before after, Leaves G i (k a) before after) :
    Leaves G i (p >>= k) before after := by
  induction p generalizing before after with
  | ret value => exact h value before after
  | stmt set live dead ihLive _ =>
    have later (db : Database) : Leaves G i (live db >>= k) db (set db) :=
      ihLive db (calm.2.1 db)
    constructor
    · intro ret
      cases ret
    · intro db _
      have quiet : Calm i db (set db) := calm.1 db
      exact ⟨.of_leaves quiet.toApart (fun k under => .inl (quiet.calm k under)) (later db),
        (later db).among⟩

theorem Leaves.refused (err : String) : Leaves G i (pure (some err)) before after where
  returned ret := by cases ret
  among := among_pure _

theorem Leaves.done (h : Attended (some i) before after) : Leaves G i (pure none) before after where
  returned _ := h
  among := among_pure _

theorem attended_of_settled (settled : busy after i = false) : Attended (some i) before after := by
  rintro k ⟨⟩ working
  rw [settled] at working
  cases working

/-- An INSERT that goes through leaves a queued job. -/
theorem leaves_enqueue {jobType : JobType} {flavorId : Option Int} {maxAttempts now : Int}
    {k : Except String Unit → Db (Option String)}
    (type : jobType = .probe ∨ jobType = .transcode)
    (refused : ∀ err, ∃ text, k (.error err) = pure (some text))
    (h : ∀ before after, Attended (some i) before after → Leaves G i (k (.ok ())) before after) :
    Leaves G i (enqueue jobType i flavorId maxAttempts now >>= k) before after where
  returned ret := by cases ret
  among db _ := by
    have next : Leaves G i
        (k (if (db.entries i).isSome then .ok () else .error "foreign key violation")) db
        (db.enqueue jobType i flavorId maxAttempts now) := by
      split
      · next present =>
        apply h
        rintro k ⟨⟩ _
        exact .inl (finisher_enqueue type present)
      · obtain ⟨text, htext⟩ := refused "foreign key violation"
        rw [htext]
        exact .refused text
    refine ⟨.of_leaves (apart_enqueue _ _ _ _ db) (fun k under => .inl ?_) next, next.among⟩
    rwa [underway_congr (congrFun (entries_enqueue _ _ _ _ db) k)] at under

theorem within_failEntry (msg : String) : (failEntry i msg).Within (Calm i) :=
  within_bind (within_statement _ _ (calm_setEntry fun _ => rfl)) fun _ => within_pure _

theorem leaves_failEntry (msg text : String) :
    Leaves G i (failEntry i msg >>= fun _ => pure (some text)) before after :=
  .calmly (within_failEntry msg) fun _ _ _ => .refused text

/-- The UPDATE to ready, and what it leaves. -/
theorem leaves_settle {set : Entry → Entry} {k : Except String Unit → Db (Option String)}
    (settled : ∀ e, (set e).status = .ready) (ret : k (.ok ()) = pure none) :
    Leaves G i (execute (fun db => db.setEntry i set) >>= k) before after := by
  apply Leaves.write (apart_setEntry i set)
  · intro db k under
    refine .inl (underway_setEntry (fun e => ?_) under)
    simp [processing, settled e]
  · intro db
    rw [ret]
    exact .done (attended_of_settled (busy_setEntry_of_settled settled db))

theorem leaves_finalizeTranscode (env : Env) :
    Leaves G i (finalizeTranscode env i) before after := by
  apply Leaves.ask
  intro db
  split
  · next gone =>
    apply Leaves.done
    apply attended_of_settled
    cases found : db.entries i with
    | none => simp [busy, found]
    | some e => simp [found] at gone
  · apply Leaves.ask
    intro db
    dsimp only
    split
    · next unfinished => exact .done fun k hk _ => .inr ⟨rfl, by cases hk; exact unfinished⟩
    · apply Leaves.ask
      intro db
      dsimp only
      split
      · exact leaves_failEntry _ _
      · apply Leaves.calmly (related_buildMaster (.refl i) env)
        intro res before after
        cases res with
        | some err => exact .refused err
        | none => exact leaves_settle (fun _ => rfl) rfl

theorem within_mark (flavorId : Int) (status : EntryFlavorStatus) (error : Option String)
    (playlistKey : Option Library.SlashPath.Text) :
    (execute fun db =>
      { db with
        entryFlavors := db.entryFlavors.updateWhere (fun r => r.key = (i, flavorId))
          status error playlistKey }).Within (Calm i) := by
  apply within_statement
  intro db
  refine { toApart := apart_updateRows ?_ db, calm := fun _ under => under }
  intro q applies
  exact (Prod.mk.inj (of_decide_eq_true applies)).1

theorem leaves_flavorFailed (env : Env) (flavorId : Int) (err : String) :
    Leaves G i (flavorFailed env i flavorId err) before after :=
  .calmly (within_bind (within_mark _ _ _ _) fun _ => within_pure _)
    fun _ _ _ => leaves_finalizeTranscode env

theorem leaves_encode (env : Env) (flavorId : Int) (f : Flavor) :
    Leaves G i (encode env i flavorId f) before after := by
  unfold encode
  split
  · exact leaves_flavorFailed _ _ _
  · apply Leaves.ask
    intro db
    split
    · exact .refused _
    · split
      · exact leaves_flavorFailed _ _ _
      · apply Leaves.calmly (within_bind (within_mark _ _ _ _) fun _ => within_pure _)
        exact fun _ _ _ => leaves_finalizeTranscode env

theorem leaves_transcodeWithSlot (env : Env) (flavorId : Int) :
    Leaves G i (transcodeWithSlot env i flavorId) before after := by
  apply Leaves.ask
  intro db
  split
  · exact leaves_flavorFailed _ _ _
  · apply Leaves.calmly (within_bind (within_mark _ _ _ _) fun _ => within_pure _)
    intro _ before after
    apply Leaves.ask
    intro db
    split
    · exact .refused _
    · split
      · exact leaves_flavorFailed _ _ _
      · exact leaves_encode _ _ _

theorem leaves_transcode (env : Env) {job : Job} (h : job.entryId = some i) :
    Leaves G i (transcode env job) before after := by
  unfold transcode
  rw [h]
  apply Leaves.ask
  intro db
  split
  · exact .refused _
  · split
    · exact leaves_failEntry _ _
    · apply Leaves.ask
      intro db
      exact leaves_transcodeWithSlot env _

theorem within_effectiveFlavors (height : Int) (ticked : List Int) (fs : List Flavor) :
    (effectiveFlavors i height ticked fs).Within (Calm i) := by
  have tick (f : Int) (status : EntryFlavorStatus) (error : Option String) :
      (tickFlavor i f status error).Within (Calm i) := by
    refine within_bind (within_statement _ _ fun db => ?_) fun _ => within_pure _
    exact { toApart := apart_upsert f status error db, calm := fun _ under => under }
  induction fs with
  | nil => exact within_pure _
  | cons f rest ih =>
    unfold effectiveFlavors
    split
    · exact ih
    · split
      · exact within_bind (tick _ _ _) fun _ => ih
      · exact within_bind (tick _ _ _) fun _ => within_bind ih fun _ => within_pure _

/-- The job of the last flavor is queued when the loop returns. -/
theorem leaves_enqueueTranscodes (now : Int) (fs : List Int)
    (h : fs = [] → Attended (some i) before after) :
    Leaves G i (enqueueTranscodes i now fs) before after := by
  induction fs generalizing before after with
  | nil => exact .done (h rfl)
  | cons f rest ih =>
    apply leaves_enqueue (.inr rfl)
    · exact fun err => ⟨err, rfl⟩
    · exact fun before after attended => ih fun _ => attended

theorem owes_enqueueTranscodes (now : Int) {fs : List Int} (h : fs ≠ []) :
    Owes i (enqueueTranscodes i now fs) := by
  cases fs with
  | nil => exact absurd rfl h
  | cons f rest => exact owes_bind (owes_enqueue (.inr rfl))

/-- An UPDATE of the entry with an `Enqueue` for it to follow. -/
theorem sends_setEntry {set : Entry → Entry} {p : Db α} (owes : Owes i p) (db : Database) (k : Int)
    (under : underway (db.setEntry i set) k = true) :
    underway db k = true ∨ some i = some k ∧ Owes k p := by
  by_cases own : k = i
  · subst own
    exact .inr ⟨rfl, owes⟩
  · refine .inl ?_
    rwa [underway_congr ((apart_setEntry i set db).entry k fun same =>
      own (Option.some.inj same).symm)] at under

theorem leaves_startTranscodes (durationMs now : Int) (pending : List Int) :
    Leaves G i (startTranscodes i durationMs now pending) before after := by
  unfold startTranscodes
  split
  · exact leaves_settle (fun _ => rfl) rfl
  · next nonempty =>
    apply Leaves.write (apart_setEntry i _)
    · exact sends_setEntry (owes_enqueueTranscodes now nonempty)
    · exact fun db => leaves_enqueueTranscodes now pending fun empty => absurd empty nonempty

theorem leaves_probed (res : ProbeResult) (now : Int) :
    Leaves G i (probed i res now) before after := by
  apply Leaves.ask
  intro db
  split
  · exact .refused _
  · apply Leaves.ask
    intro db
    apply Leaves.ask
    intro db
    apply Leaves.calmly (within_effectiveFlavors _ _ _)
    exact fun pending _ _ => leaves_startTranscodes _ _ _

theorem leaves_probe (env : Env) (now : Int) {job : Job} (h : job.entryId = some i) :
    Leaves G i (probe env now job) before after := by
  unfold probe
  rw [h]
  apply Leaves.ask
  intro db
  split
  · exact .refused _
  · split
    · exact .refused _
    · split
      · exact .refused _
      · split
        · exact leaves_failEntry _ _
        · exact leaves_probed _ _

theorem leaves_handOff (key : Library.SlashPath.Text) (size : Int) (clearError : Bool)
    (now : Int) : Leaves G i (handOff i key size clearError now) before after := by
  apply Leaves.write (apart_setEntry i _)
  · exact sends_setEntry (owes_bind (owes_enqueue (.inl rfl)))
  · intro db
    apply leaves_enqueue (.inl rfl)
    · exact fun err => ⟨err, rfl⟩
    · exact fun before after attended => .done attended

theorem leaves_download (env : Env) (now : Int) {job : Job} (h : job.entryId = some i) :
    Leaves G i (download env now job) before after := by
  unfold download
  rw [h]
  apply Leaves.ask
  intro db
  split
  · exact .refused _
  · split
    · exact leaves_failEntry _ _
    · apply Leaves.ask
      intro db
      split
      · exact .refused _
      · split
        · exact leaves_failEntry _ _
        · exact leaves_handOff _ _ _ _

theorem leaves_handle (env : Env) (now : Int) {job : Job} (h : job.entryId = some i) :
    Leaves G i (handle env now job) before after := by
  unfold handle
  split
  · exact leaves_probe env now h
  · exact leaves_transcode env h
  · exact leaves_download env now h
  · exact .refused _

/-- `Get` finds no job but one of this owner. -/
def Holds (jobId : JobId) (owner : Option Int) (db : Database) : Prop :=
  ∀ j, db.jobs.row jobId = some j → j.entryId = owner

/-- The statements of the execution of this job are still to be steps of its owner. -/
def Promised (jobId : JobId) (owner : Option Int)
    (t : Thread Database (Option (Option String))) : Prop :=
  t.Keeps (Holds jobId owner) (Step owner (· = some none))

theorem step_returned {rest : Db (Option String)} (h : Step (some i) (· = none) rest db db') :
    Step (some i) (· = some none) (rest >>= fun err => pure (some err)) db db' where
  apart := h.apart
  sends k under := (h.sends k under).imp_right fun own => ⟨own.1, owes_bind own.2⟩
  attended a ret ok := by
    cases rest with
    | ret err =>
      cases ret
      exact h.attended err rfl (Option.some.inj ok)
    | stmt set live dead => cases ret

theorem promised_loadAndHandle (env : Env) (jobId : JobId) (owner : Option Int) (now : Int) :
    Promised jobId owner ⟨loadAndHandle env jobId now, true⟩ := by
  intro _ db held
  have read {rest : Db (Option (Option String))} (unfinished : rest ≠ .ret (some none)) :
      Step owner (· = some none) rest db db :=
    { apart := .refl owner db
      sends := fun _ => .inl
      attended := by
        rintro a ret rfl
        exact absurd ret unfinished }
  cases row : db.jobs.row jobId with
  | none =>
    simp only [row]
    refine ⟨read ?_, trivial⟩
    intro ret
    cases ret
  | some job =>
    have entry : job.entryId = owner := held job row
    simp only [row]
    change Step owner _ (handle env now job >>= fun err => pure (some err)) db db ∧
      (handle env now job >>= fun err => pure (some err)).Among _ _
    cases owner with
    | none =>
      obtain ⟨text, refused⟩ := handle_without_entry env now entry
      rw [refused]
      refine ⟨read ?_, trivial⟩
      intro ret
      cases ret
    | some i =>
      -- The handler is fresh here: nothing before it is its last statement.
      have left : Leaves (Holds jobId (some i)) i (handle env now job) db db :=
        leaves_handle env now entry
      have step : Step (some i) (· = none) (handle env now job) db db :=
        .of_leaves (.refl _ db) (fun _ => .inl) left
      exact ⟨step_returned step, among_map left.among fun _ _ _ => step_returned⟩

end Executions

end Vidsilo.Jobs.Coverage
