import Vidsilo.Db.Migrate
import Vidsilo.Storage.Fallback

/-!
# Order and completeness of migrations over runs

Between the check of a version and the commit the connection either holds the advisory lock, so that
no other one commits, or has ended, so that nothing of it takes effect any more.
-/
namespace Vidsilo.Db.Migrate
open Library Library.Procedure Library.SlashPath Library.Transition

variable {Id : Type}

/-- A connection that is up has the lock. -/
def Holds (w : World Id) (id : Id) : Prop := (w.sessions id).up = true → ∃ n, w.locked = some (id, n)

def NoTx (w : World Id) (id : Id) : Prop := (w.sessions id).tx = none

/-- As far as a connection that is up is concerned, exactly these have taken effect. -/
def Known (w : World Id) (id : Id) (done : List Text) : Prop :=
  (w.sessions id).up = true → w.applied = done

def Pending (w : World Id) (id : Id) (tx : Tx) : Prop :=
  (w.sessions id).up = true → (w.sessions id).tx = some tx

def Done (w : World Id) (names : List Text) : Prop := ∀ name ∈ names, name ∈ w.applied

/-- Where a call may stand. -/
inductive Stage (m : Migrations) (w : World Id) (id : Id) : Handler → Prop
  | start (request : Request) (noTx : NoTx w id) : Stage m w id (withBootstrapLock m request)
  | lock (request : Request) (noTx : NoTx w id) : Stage m w id (lock m request)
  | create (request : Request) (holds : Holds w id) (noTx : NoTx w id) :
      Stage m w id (migrateOnConn m request)
  | loop (request : Request) (before : List Text) (name : Text) (rest : List Text)
      (split : m.names = before ++ name :: rest) (done : Done w before) (holds : Holds w id)
      (noTx : NoTx w id) : Stage m w id (migrateLoop request (name :: rest))
  | begin (request : Request) (before : List Text) (name : Text) (rest : List Text)
      (split : m.names = before ++ name :: rest) (known : Known w id before) (holds : Holds w id)
      (noTx : NoTx w id) : Stage m w id (begin request name (migrateLoop request rest))
  | exec (request : Request) (before : List Text) (name : Text) (rest : List Text)
      (split : m.names = before ++ name :: rest) (known : Known w id before) (holds : Holds w id)
      (pending : Pending w id ⟨[], []⟩) : Stage m w id (exec request name (migrateLoop request rest))
  | insert (request : Request) (before : List Text) (name : Text) (rest : List Text)
      (split : m.names = before ++ name :: rest) (known : Known w id before) (holds : Holds w id)
      (pending : Pending w id ⟨[name], []⟩) :
      Stage m w id (insert request name (migrateLoop request rest))
  | commit (request : Request) (before : List Text) (name : Text) (rest : List Text)
      (split : m.names = before ++ name :: rest) (known : Known w id before) (holds : Holds w id)
      (pending : Pending w id ⟨[name], [migrationVersion name]⟩) :
      Stage m w id (commit request (migrateLoop request rest))
  | rollback (request : Request) (e : MigrateError) : Stage m w id (rollback request e)
  | seed (rest : List Seed) (done : Done w m.names) (noTx : NoTx w id) : Stage m w id (seed rest)
  | unlock (result : Result) (done : result = none → Done w m.names) (noTx : NoTx w id) :
      Stage m w id (unlock result)
  | release (result : Result) (done : result = none → Done w m.names) (noTx : NoTx w id) :
      Stage m w id (release result)
  | returned (result : Result) (done : result = none → Done w m.names) (noTx : NoTx w id) :
      Stage m w id (.ret result)

/-- What another connection may do meanwhile. -/
structure Undisturbed (id : Id) (w w' : World Id) : Prop where
  session : w'.sessions id = w.sessions id
  grows : ∀ name, name ∈ w.applied → name ∈ w'.applied
  locked : ∀ n, w.locked = some (id, n) → w'.locked = some (id, n) ∧ w'.applied = w.applied

theorem Leaves.undisturbed {id other : Id} {w w' : World Id} (leaves : Leaves id w w')
    (ne : other ≠ id) : Undisturbed other w w' := by
  refine ⟨leaves.sessions other ne, fun name mem => ?_, fun n held => ?_⟩
  · rwa [leaves.applied]
  · exact ⟨(leaves.locked other n ne).mpr held, leaves.applied⟩

theorem Done.grows {w w' : World Id} {names : List Text} (done : Done w names)
    (grows : ∀ name, name ∈ w.applied → name ∈ w'.applied) : Done w' names :=
  fun name mem => grows name (done name mem)

section
variable {m : Migrations} {w w' : World Id} {id : Id}

theorem Holds.stays (same : Undisturbed id w w') (holds : Holds w id) : Holds w' id := by
  intro up
  rw [same.session] at up
  obtain ⟨n, held⟩ := holds up
  exact ⟨n, (same.locked n held).1⟩

theorem Known.stays {done : List Text} (same : Undisturbed id w w') (holds : Holds w id)
    (known : Known w id done) : Known w' id done := by
  intro up
  rw [same.session] at up
  obtain ⟨n, held⟩ := holds up
  exact (same.locked n held).2.trans (known up)

theorem NoTx.stays (same : Undisturbed id w w') (noTx : NoTx w id) : NoTx w' id :=
  (congrArg Session.tx same.session).trans noTx

theorem Pending.stays {tx : Tx} (same : Undisturbed id w w') (pending : Pending w id tx) :
    Pending w' id tx := by
  intro up
  rw [same.session] at up ⊢
  exact pending up

theorem Stage.stays {p : Handler} (stage : Stage m w id p) (same : Undisturbed id w w') :
    Stage m w' id p := by
  cases stage with
  | start request noTx => exact .start request (noTx.stays same)
  | lock request noTx => exact .lock request (noTx.stays same)
  | create request holds noTx => exact .create request (holds.stays same) (noTx.stays same)
  | loop request before name rest split done holds noTx =>
    exact .loop request before name rest split (done.grows same.grows) (holds.stays same)
      (noTx.stays same)
  | begin request before name rest split known holds noTx =>
    exact .begin request before name rest split (known.stays same holds) (holds.stays same)
      (noTx.stays same)
  | exec request before name rest split known holds pending =>
    exact .exec request before name rest split (known.stays same holds) (holds.stays same)
      (pending.stays same)
  | insert request before name rest split known holds pending =>
    exact .insert request before name rest split (known.stays same holds) (holds.stays same)
      (pending.stays same)
  | commit request before name rest split known holds pending =>
    exact .commit request before name rest split (known.stays same holds) (holds.stays same)
      (pending.stays same)
  | rollback request e => exact .rollback request e
  | seed rest done noTx => exact .seed rest (done.grows same.grows) (noTx.stays same)
  | unlock result done noTx =>
    exact .unlock result (fun isNil => (done isNil).grows same.grows) (noTx.stays same)
  | release result done noTx =>
    exact .release result (fun isNil => (done isNil).grows same.grows) (noTx.stays same)
  | returned result done noTx =>
    exact .returned result (fun isNil => (done isNil).grows same.grows) (noTx.stays same)

end

section
variable {m : Migrations} {w : World Id} {id : Id}

/-- Behind `migrateOnConn`. -/
theorem stage_after (request : Request) {result : Result} (done : result = none → Done w m.names)
    (noTx : NoTx w id) : Stage m w id (afterMigrations request result) := by
  cases request with
  | migrate => exact .unlock result done noTx
  | mustSeed =>
    cases result with
    | some e => exact .unlock (some e) done noTx
    | none => exact .seed _ (done rfl) noTx

theorem stage_failed (request : Request) (e : MigrateError) (noTx : NoTx w id) :
    Stage m w id (afterMigrations request (some e)) :=
  stage_after request (by simp) noTx

theorem stage_loop (request : Request) (before : List Text) {rest : List Text}
    (split : m.names = before ++ rest) (done : Done w before) (holds : Holds w id) (noTx : NoTx w id) :
    Stage m w id (migrateLoop request rest) := by
  cases rest with
  | nil =>
    rw [List.append_nil] at split
    exact stage_after request (fun _ => split ▸ done) noTx
  | cons name rest => exact .loop request before name rest split done holds noTx

end

/-- The table of versions lists what has taken effect, which is a start of the list of migrations. -/
structure Sound (m : Migrations) (w : World Id) : Prop where
  order : w.applied <+: m.names
  recorded : w.recorded = w.applied.map migrationVersion

variable [DecidableEq Id]

def MigrateOp.isCommit {β : Type} : MigrateOp β → Bool
  | .commit => true
  | _ => false

section
variable {m : Migrations} {w w' : World Id} {id : Id} {outcome : Outcome}
  {effect : World Id → World Id}

theorem statement_true (succeeds : (w.statement id outcome effect).1 = true) :
    (w.sessions id).up = true ∧ (w.statement id outcome effect).2 = effect w := by
  obtain ⟨up, -, done⟩ | nothing | ended | ⟨-, -, ended⟩ := statement_cases w id outcome effect
  · rw [done]
    exact ⟨up, rfl⟩
  · rw [nothing] at succeeds
    cases succeeds
  · rw [ended] at succeeds
    cases succeeds
  · rw [ended] at succeeds
    cases succeeds

theorem disconnect_self (w : World Id) (id : Id) : (w.disconnect id).sessions id = .down :=
  if_pos rfl

/-- After a statement that fails the connection is as it was or gone. -/
theorem statement_false (failed : (w.statement id outcome effect).1 = false) :
    (w.statement id outcome effect).2 = w ∨
      (w.statement id outcome effect).2.sessions id = .down := by
  obtain ⟨-, -, done⟩ | nothing | ended | ⟨-, -, ended⟩ := statement_cases w id outcome effect
  · rw [done] at failed
    cases failed
  · exact .inl (congrArg Prod.snd nothing)
  · rw [ended]
    exact .inr (disconnect_self w id)
  · rw [ended]
    exact .inr (disconnect_self _ id)

theorem leaves_reply {b : Bool} (performed : some (w.statement id outcome effect) = some (b, w'))
    (leaves : outcome = .ok ∨ outcome = .lost true → Leaves id w (effect w)) : Leaves id w w' := by
  have all := leaves_statement outcome leaves
  rwa [Option.some.inj performed] at all

theorem leaves_perform {β : Type} {op : MigrateOp β} {b : β} (calm : op.isCommit = false)
    (performed : perform id op outcome w = some (b, w')) : Leaves id w w' := by
  cases op with
  | acquire =>
    cases outcome with
    | ok =>
      simp only [perform, Option.some.injEq, Prod.mk.injEq] at performed
      obtain ⟨-, rfl⟩ := performed
      split
      · exact .refl id w
      · exact leaves_setSession w id _
    | fails =>
      cases performed
      exact .refl id w
    | lost done =>
      cases performed
      exact .refl id w
  | lock =>
    unfold perform at performed
    dsimp only at performed
    split at performed
    · refine leaves_reply performed fun succeeds => leaves_takeLock ?_
      by_contra taken
      cases outcome <;> simp [Outcome.given, taken] at succeeds
    · cases performed
  | createTable =>
    exact leaves_reply performed fun _ => ⟨rfl, rfl, fun _ _ => rfl, fun _ _ _ => Iff.rfl⟩
  | «exists» version =>
    have asked : Leaves id w (w.statement id (outcome.given w.table) fun w => w).2 :=
      leaves_statement _ fun _ => .refl id w
    have same := congrArg Prod.snd (Option.some.inj performed)
    dsimp only at same
    rwa [same] at asked
  | begin =>
    exact leaves_reply performed fun _ => leaves_setSession w id _
  | exec name =>
    exact leaves_reply performed fun _ => leaves_setSession w id _
  | insert version =>
    exact leaves_reply performed fun _ => leaves_setSession w id _
  | rollback =>
    have rolled : Leaves id w (w.statement id outcome (World.setTx · id none)).2 :=
      leaves_statement _ fun _ => leaves_setSession w id _
    simp only [perform, Option.some.injEq] at performed
    split at performed
    · rw [performed] at rolled
      exact rolled
    · cases performed
      exact rolled.trans (leaves_disconnect _ id)
  | commit => cases calm
  | seed what =>
    exact leaves_reply performed fun _ => .refl id w
  | unlock =>
    exact leaves_reply performed fun _ => leaves_dropLock w id
  | release =>
    simp only [perform, Option.some.injEq, Prod.mk.injEq] at performed
    obtain ⟨-, rfl⟩ := performed
    split
    · exact leaves_disconnect w id
    · exact .refl id w

omit [DecidableEq Id] in
theorem Leaves.sound (leaves : Leaves id w w') (sound : Sound m w) : Sound m w' := by
  refine ⟨?_, ?_⟩
  · rw [leaves.applied]
    exact sound.order
  · rw [leaves.recorded, leaves.applied]
    exact sound.recorded

/-- The reply of a statement, and what it leaves of the connection. -/
theorem reply_cases {b : Bool} (performed : some (w.statement id outcome effect) = some (b, w')) :
    ((w.sessions id).up = true ∧ b = true ∧ w' = effect w) ∨
      (b = false ∧ (w' = w ∨ w'.sessions id = .down)) := by
  cases b with
  | true =>
    have replied := congrArg Prod.fst (Option.some.inj performed)
    obtain ⟨up, world⟩ := statement_true replied
    exact .inl ⟨up, rfl, (congrArg Prod.snd (Option.some.inj performed)).symm.trans world⟩
  | false =>
    have replied := congrArg Prod.fst (Option.some.inj performed)
    have kept := statement_false replied
    rw [Option.some.inj performed] at kept
    exact .inr ⟨rfl, kept⟩

omit [DecidableEq Id] in
theorem noTx_down (down : w.sessions id = .down) : NoTx w id := by
  rw [NoTx, down]
  rfl

omit [DecidableEq Id] in
theorem NoTx.kept (noTx : NoTx w id) (kept : w' = w ∨ w'.sessions id = .down) : NoTx w' id := by
  rcases kept with rfl | down
  · exact noTx
  · exact noTx_down down

/-- What a statement of one call leads to. -/
structure Next (m : Migrations) (id : Id) (w w' : World Id) (p : Handler) : Prop where
  stage : Stage m w' id p
  sound : Sound m w'
  others : ∀ other, other ≠ id → Undisturbed other w w'

omit [DecidableEq Id] in
theorem Leaves.next {p : Handler} (leaves : Leaves id w w') (sound : Sound m w)
    (stage : Stage m w' id p) : Next m id w w' p :=
  ⟨stage, leaves.sound sound, fun _ ne => leaves.undisturbed ne⟩

section
variable {p : Handler}

omit [DecidableEq Id] in
/-- A version is recorded exactly when its migration has taken effect. -/
theorem recorded_iff (sound : Sound m w) {name : Text} (mem : name ∈ m.names) :
    w.recorded.contains (migrationVersion name) = true ↔ name ∈ w.applied := by
  rw [List.contains_iff_mem, sound.recorded]
  constructor
  · intro recorded
    obtain ⟨other, applied, same⟩ := List.mem_map.mp recorded
    rwa [← List.inj_on_of_nodup_map m.distinct (sound.order.subset applied) mem same]
  · exact List.mem_map_of_mem

omit [DecidableEq Id] in
/-- The migrations before one that has not taken effect are all that have. -/
theorem applied_eq (sound : Sound m w) {before : List Text} {name : Text} {rest : List Text}
    (split : m.names = before ++ name :: rest) (done : Done w before) (missing : name ∉ w.applied) :
    w.applied = before := by
  have nodup : m.names.Nodup := List.Nodup.of_map _ m.distinct
  have order := sound.order
  rw [split] at order nodup
  rcases List.prefix_or_prefix_of_prefix order (List.prefix_append before _) with shorter | longer
  · have short := shorter.length_le
    have long := (List.subperm_of_subset nodup.of_append_left done).length_le
    exact shorter.eq_of_length (by omega)
  · obtain ⟨more, eq⟩ := longer
    rw [← eq, List.prefix_append_right_inj] at order
    cases more with
    | nil => rw [← eq, List.append_nil]
    | cons other more =>
      obtain ⟨rfl, -⟩ := List.cons_prefix_cons.mp order
      exact absurd (eq ▸ List.mem_append_right before List.mem_cons_self) missing

theorem next_start {request : Request} (sound : Sound m w) (noTx : NoTx w id)
    (taken : (withBootstrapLock m request).advance (perform id) outcome w = some (p, w')) :
    Next m id w w' p := by
  obtain ⟨b, performed, rfl⟩ := advance_call taken
  refine (leaves_perform rfl performed).next sound ?_
  cases outcome with
  | ok =>
    simp only [perform, Option.some.injEq, Prod.mk.injEq] at performed
    obtain ⟨rfl, rfl⟩ := performed
    refine .lock request ?_
    split
    · exact noTx
    · simp [NoTx, World.setSession]
  | fails =>
    cases performed
    exact .returned _ (by simp) noTx
  | lost done =>
    cases performed
    exact .returned _ (by simp) noTx

theorem next_lock {request : Request} (sound : Sound m w) (noTx : NoTx w id)
    (taken : (lock m request).advance (perform id) outcome w = some (p, w')) :
    Next m id w w' p := by
  obtain ⟨b, performed, rfl⟩ := advance_call taken
  refine (leaves_perform rfl performed).next sound ?_
  unfold perform at performed
  dsimp only at performed
  split at performed
  · obtain ⟨-, rfl, rfl⟩ | ⟨rfl, kept⟩ := reply_cases performed
    · exact .create request (fun _ => ⟨_, rfl⟩) noTx
    · exact .release _ (by simp) (noTx.kept kept)
  · cases performed

omit [DecidableEq Id] in
theorem Holds.kept (holds : Holds w id) (kept : w' = w ∨ w'.sessions id = .down) : Holds w' id := by
  rcases kept with rfl | down
  · exact holds
  · intro up
    rw [down] at up
    cases up

theorem next_create {request : Request} (sound : Sound m w) (holds : Holds w id) (noTx : NoTx w id)
    (taken : (migrateOnConn m request).advance (perform id) outcome w = some (p, w')) :
    Next m id w w' p := by
  obtain ⟨b, performed, rfl⟩ := advance_call taken
  refine (leaves_perform rfl performed).next sound ?_
  obtain ⟨-, rfl, rfl⟩ | ⟨rfl, kept⟩ := reply_cases performed
  · exact stage_loop request [] rfl (fun name mem => by cases mem) holds noTx
  · exact stage_failed request .createTable (noTx.kept kept)

theorem migrateLoop_cons (request : Request) (m : Migrations) {name : Text} {rest : List Text}
    (mem : name ∈ m.names) : migrateLoop request (name :: rest) =
      .call (.exists (migrationVersion name)) fun applied =>
        match applied with
        | none => afterMigrations request (some .driver)
        | some true => migrateLoop request rest
        | some false => begin request name (migrateLoop request rest) := by
  have positive : migrationVersion name ≠ 0 := Int.ne_of_gt (m.positive name mem)
  rw [migrateLoop, if_neg positive]
  rfl

theorem next_loop {request : Request} {before : List Text} {name : Text} {rest : List Text}
    (sound : Sound m w) (split : m.names = before ++ name :: rest) (done : Done w before)
    (holds : Holds w id) (noTx : NoTx w id)
    (taken : (migrateLoop request (name :: rest)).advance (perform id) outcome w = some (p, w')) :
    Next m id w w' p := by
  have mem : name ∈ m.names := by
    rw [split]
    exact List.mem_append_right before List.mem_cons_self
  rw [migrateLoop_cons request m mem] at taken
  obtain ⟨b, performed, rfl⟩ := advance_call taken
  refine (leaves_perform rfl performed).next sound ?_
  simp only [perform, Option.some.injEq, Prod.mk.injEq] at performed
  obtain ⟨reply, world⟩ := performed
  split at reply
  next succeeds =>
    have same := (statement_true succeeds).2.symm.trans world
    subst same reply
    cases recorded : w.recorded.contains (migrationVersion name) with
    | true =>
      refine stage_loop request (before ++ [name]) ?_ ?_ holds noTx
      · rw [split, List.append_assoc, List.singleton_append]
      · intro other old
        rcases List.mem_append.mp old with old | isName
        · exact done other old
        · rw [List.mem_singleton.mp isName]
          exact (recorded_iff sound mem).mp recorded
    | false =>
      refine .begin request before name rest split (fun _ => ?_) holds noTx
      refine applied_eq sound split done fun applied => ?_
      rw [(recorded_iff sound mem).mpr applied] at recorded
      cases recorded
  next failed =>
    have kept := statement_false (Bool.eq_false_iff.mpr failed)
    rw [world] at kept
    subst reply
    exact stage_failed request .driver (noTx.kept kept)

theorem setTx_self (w : World Id) (id : Id) (tx : Option Tx) :
    (w.setTx id tx).sessions id = { w.sessions id with tx := tx } := if_pos rfl

theorem leaves_setTx (w : World Id) (id : Id) (tx : Option Tx) : Leaves id w (w.setTx id tx) :=
  leaves_setSession w id _

theorem Holds.setTx (holds : Holds w id) (tx : Option Tx) : Holds (w.setTx id tx) id := by
  intro up
  rw [setTx_self] at up
  exact holds up

theorem Known.setTx {done : List Text} (known : Known w id done) (tx : Option Tx) :
    Known (w.setTx id tx) id done := by
  intro up
  rw [setTx_self] at up
  exact known up

/-- A statement inside the transaction. -/
theorem pending_inTx {tx : Tx} (change : Tx → Tx) (pending : Pending w id tx) :
    Pending (w.inTx id change) id (change tx) := by
  intro up
  rw [World.inTx, setTx_self] at up ⊢
  rw [pending up]
  rfl

section
variable {request : Request} {before : List Text} {name : Text} {rest : List Text}

theorem next_begin (sound : Sound m w) (split : m.names = before ++ name :: rest)
    (known : Known w id before) (holds : Holds w id) (noTx : NoTx w id)
    (taken : (begin request name (migrateLoop request rest)).advance (perform id) outcome w =
      some (p, w')) : Next m id w w' p := by
  obtain ⟨b, performed, rfl⟩ := advance_call taken
  refine (leaves_perform rfl performed).next sound ?_
  obtain ⟨-, rfl, rfl⟩ | ⟨rfl, kept⟩ := reply_cases performed
  · refine .exec request before name rest split (known.setTx _) (holds.setTx _) fun _ => ?_
    rw [setTx_self]
  · exact stage_failed request .driver (noTx.kept kept)

theorem next_exec (sound : Sound m w) (split : m.names = before ++ name :: rest)
    (known : Known w id before) (holds : Holds w id) (pending : Pending w id ⟨[], []⟩)
    (taken : (exec request name (migrateLoop request rest)).advance (perform id) outcome w =
      some (p, w')) : Next m id w w' p := by
  obtain ⟨b, performed, rfl⟩ := advance_call taken
  refine (leaves_perform rfl performed).next sound ?_
  obtain ⟨-, rfl, rfl⟩ | ⟨rfl, -⟩ := reply_cases performed
  · exact .insert request before name rest split (known.setTx _) (holds.setTx _)
      (pending_inTx _ pending)
  · exact .rollback request (.apply name)

theorem next_insert (sound : Sound m w) (split : m.names = before ++ name :: rest)
    (known : Known w id before) (holds : Holds w id) (pending : Pending w id ⟨[name], []⟩)
    (taken : (insert request name (migrateLoop request rest)).advance (perform id) outcome w =
      some (p, w')) : Next m id w w' p := by
  obtain ⟨b, performed, rfl⟩ := advance_call taken
  refine (leaves_perform rfl performed).next sound ?_
  obtain ⟨-, rfl, rfl⟩ | ⟨rfl, -⟩ := reply_cases performed
  · exact .commit request before name rest split (known.setTx _) (holds.setTx _)
      (pending_inTx _ pending)
  · exact .rollback request .driver

/-- The commit of a migration by the holder of the lock. -/
theorem commitTx_next (sound : Sound m w) (split : m.names = before ++ name :: rest)
    (known : Known w id before) (holds : Holds w id)
    (pending : Pending w id ⟨[name], [migrationVersion name]⟩) (up : (w.sessions id).up = true) :
    (w.commitTx id).applied = before ++ [name] ∧ Sound m (w.commitTx id) ∧
      Holds (w.commitTx id) id ∧ NoTx (w.commitTx id) id ∧
      ∀ other, other ≠ id → Undisturbed other w (w.commitTx id) := by
  obtain ⟨n, held⟩ := holds up
  have committed : w.commitTx id = { w.setTx id none with
      recorded := w.recorded ++ [migrationVersion name]
      applied := w.applied ++ [name] } := by
    rw [World.commitTx, pending up]
  have applied := known up
  rw [committed]
  refine ⟨congrArg (· ++ [name]) applied, ⟨?_, ?_⟩, fun _ => ⟨n, held⟩, ?_, fun other ne => ⟨?_, ?_, ?_⟩⟩
  · dsimp only
    rw [applied, split]
    exact (List.prefix_append_right_inj before).mpr (List.cons_prefix_cons.mpr ⟨rfl, List.nil_prefix⟩)
  · dsimp only
    rw [List.map_append, sound.recorded]
    rfl
  · exact congrArg Session.tx (setTx_self w id none)
  · exact if_neg ne
  · exact fun _ mem => List.mem_append_left _ mem
  · intro k others
    rw [held] at others
    cases others
    exact absurd rfl ne

omit [DecidableEq Id] in
theorem Undisturbed.trans_leaves {other : Id} {w'' : World Id} (first : Undisturbed other w w')
    (second : Leaves id w' w'') (ne : other ≠ id) : Undisturbed other w w'' := by
  have later := second.undisturbed ne
  refine ⟨later.session.trans first.session, fun mem old => later.grows mem (first.grows mem old),
    fun n held => ?_⟩
  obtain ⟨held', applied⟩ := first.locked n held
  obtain ⟨held'', applied'⟩ := later.locked n held'
  exact ⟨held'', applied'.trans applied⟩

theorem next_commit (sound : Sound m w) (split : m.names = before ++ name :: rest)
    (known : Known w id before) (holds : Holds w id)
    (pending : Pending w id ⟨[name], [migrationVersion name]⟩)
    (taken : (commit request (migrateLoop request rest)).advance (perform id) outcome w =
      some (p, w')) : Next m id w w' p := by
  obtain ⟨b, performed, rfl⟩ := advance_call taken
  simp only [perform, Option.some.injEq] at performed
  have noTx (w : World Id) : NoTx (w.setTx id none) id := congrArg Session.tx (setTx_self w id none)
  obtain ⟨up, -, done⟩ | nothing | ended | ⟨up, -, ended⟩ :=
    statement_cases w id outcome (World.commitTx id)
  · rw [done] at performed
    cases performed
    obtain ⟨applied, sound', holds', noTx', others⟩ := commitTx_next sound split known holds pending up
    refine ⟨stage_loop request (before ++ [name]) ?_ ?_ holds' noTx', sound', others⟩
    · rw [split, List.append_assoc, List.singleton_append]
    · intro other mem
      rwa [applied]
  · rw [nothing] at performed
    cases performed
    exact (leaves_setSession w id _).next sound (stage_failed request .driver (noTx w))
  · rw [ended] at performed
    cases performed
    have leaves := (leaves_disconnect w id).trans (leaves_setTx _ id none)
    exact leaves.next sound (stage_failed request .driver (noTx _))
  · rw [ended] at performed
    cases performed
    obtain ⟨-, sound', -, -, others⟩ := commitTx_next sound split known holds pending up
    have leaves := (leaves_disconnect (w.commitTx id) id).trans (leaves_setTx _ id none)
    exact ⟨stage_failed request .driver (noTx _), leaves.sound sound',
      fun other ne => (others other ne).trans_leaves leaves ne⟩

end

theorem next_rollback {request : Request} {e : MigrateError} (sound : Sound m w)
    (taken : (rollback request e).advance (perform id) outcome w = some (p, w')) :
    Next m id w w' p := by
  obtain ⟨b, performed, rfl⟩ := advance_call taken
  refine (leaves_perform rfl performed).next sound (stage_failed request e ?_)
  simp only [perform, Option.some.injEq] at performed
  split at performed
  next succeeds =>
    have same := (statement_true succeeds).2
    rw [performed] at same
    subst same
    exact congrArg Session.tx (setTx_self w id none)
  · cases performed
    exact noTx_down (disconnect_self _ id)

omit [DecidableEq Id] in
theorem Leaves.done {names : List Text} (leaves : Leaves id w w') (done : Done w names) :
    Done w' names :=
  done.grows fun _ mem => leaves.applied ▸ mem

theorem next_unlock (result : Result) (sound : Sound m w) (done : result = none → Done w m.names)
    (noTx : NoTx w id) (taken : (unlock result).advance (perform id) outcome w = some (p, w')) :
    Next m id w w' p := by
  obtain ⟨b, performed, rfl⟩ := advance_call taken
  have leaves := leaves_perform rfl performed
  refine leaves.next sound (.release result (fun isNil => leaves.done (done isNil)) ?_)
  obtain ⟨-, -, rfl⟩ | ⟨-, kept⟩ := reply_cases performed
  · exact noTx
  · exact noTx.kept kept

theorem next_seed {rest : List Seed} (sound : Sound m w) (done : Done w m.names) (noTx : NoTx w id)
    (taken : (seed rest).advance (perform id) outcome w = some (p, w')) : Next m id w w' p := by
  cases rest with
  | nil => exact next_unlock none sound (fun _ => done) noTx taken
  | cons what rest =>
    obtain ⟨b, performed, rfl⟩ := advance_call taken
    have leaves := leaves_perform rfl performed
    refine leaves.next sound ?_
    obtain ⟨-, rfl, rfl⟩ | ⟨rfl, kept⟩ := reply_cases performed
    · exact .seed rest done noTx
    · exact .unlock _ (by simp) (noTx.kept kept)

theorem next_release {result : Result} (sound : Sound m w) (done : result = none → Done w m.names)
    (noTx : NoTx w id) (taken : (release result).advance (perform id) outcome w = some (p, w')) :
    Next m id w w' p := by
  obtain ⟨b, performed, rfl⟩ := advance_call taken
  have leaves := leaves_perform rfl performed
  refine leaves.next sound (.returned result (fun isNil => leaves.done (done isNil)) ?_)
  have idle : (w.sessions id).tx.isSome = false := by rw [noTx]; rfl
  simp only [perform, idle, Option.some.injEq, Prod.mk.injEq, Bool.false_eq_true, if_false] at performed
  exact performed.2 ▸ noTx

theorem Stage.next (sound : Sound m w) (stage : Stage m w id p) {p' : Handler}
    (taken : p.advance (perform id) outcome w = some (p', w')) : Next m id w w' p' := by
  cases stage with
  | start request noTx => exact next_start sound noTx taken
  | lock request noTx => exact next_lock sound noTx taken
  | create request holds noTx => exact next_create sound holds noTx taken
  | loop request before name rest split done holds noTx =>
    exact next_loop sound split done holds noTx taken
  | begin request before name rest split known holds noTx =>
    exact next_begin sound split known holds noTx taken
  | exec request before name rest split known holds pending =>
    exact next_exec sound split known holds pending taken
  | insert request before name rest split known holds pending =>
    exact next_insert sound split known holds pending taken
  | commit request before name rest split known holds pending =>
    exact next_commit sound split known holds pending taken
  | rollback request e => exact next_rollback sound taken
  | seed rest done noTx => exact next_seed sound done noTx taken
  | unlock result done noTx => exact next_unlock result sound done noTx taken
  | release result done noTx => exact next_release sound done noTx taken
  | returned result done noTx => cases taken

omit [DecidableEq Id] in
/-- A call that has returned has no transaction. -/
theorem Stage.ended {result : Result} (stage : Stage m w id p) (returned : p = .ret result) :
    NoTx w id := by
  cases stage with
  | returned result done noTx => exact noTx
  | loop request before name rest split done holds noTx => exact noTx
  | start request noTx => exact noTx
  | lock request noTx => exact noTx
  | create request holds noTx => exact noTx
  | begin request before name rest split known holds noTx => exact noTx
  | seed rest done noTx => exact noTx
  | unlock result done noTx => exact noTx
  | release result done noTx => exact noTx
  | exec request before name rest split known holds pending => cases returned
  | insert request before name rest split known holds pending => cases returned
  | commit request before name rest split known holds pending => cases returned
  | rollback request e => cases returned

/-- The end of a connection, between two statements of its call or without one. -/
theorem Stage.disconnect (stage : Stage m w id p) : Stage m (w.disconnect id) id p := by
  have down := disconnect_self w id
  have noTx : NoTx (w.disconnect id) id := noTx_down down
  have leaves := leaves_disconnect w id
  have notUp : ¬ ((w.disconnect id).sessions id).up = true := by
    rw [down]
    simp [Session.down]
  have holds : Holds (w.disconnect id) id := fun up => absurd up notUp
  have known (done : List Text) : Known (w.disconnect id) id done := fun up => absurd up notUp
  have pending (tx : Tx) : Pending (w.disconnect id) id tx := fun up => absurd up notUp
  cases stage with
  | start request _ => exact .start request noTx
  | lock request _ => exact .lock request noTx
  | create request _ _ => exact .create request holds noTx
  | loop request before name rest split done _ _ =>
    exact .loop request before name rest split (leaves.done done) holds noTx
  | begin request before name rest split _ _ _ =>
    exact .begin request before name rest split (known before) holds noTx
  | exec request before name rest split _ _ _ =>
    exact .exec request before name rest split (known before) holds (pending _)
  | insert request before name rest split _ _ _ =>
    exact .insert request before name rest split (known before) holds (pending _)
  | commit request before name rest split _ _ _ =>
    exact .commit request before name rest split (known before) holds (pending _)
  | rollback request e => exact .rollback request e
  | seed rest done _ => exact .seed rest (leaves.done done) noTx
  | unlock result done _ => exact .unlock result (fun isNil => leaves.done (done isNil)) noTx
  | release result done _ => exact .release result (fun isNil => leaves.done (done isNil)) noTx
  | returned result done _ => exact .returned result (fun isNil => leaves.done (done isNil)) noTx

end

end

/-- Every call stands at a stage, and a connection without a call has no transaction. -/
structure Running (m : Migrations) (p : Nodes Id) : Prop where
  sound : Sound m p.world
  idle : ∀ id, p.calls id = none → NoTx p.world id
  stages : ∀ id call, p.calls id = some call → Stage m p.world id call.rest

variable {m : Migrations} {p p' : Nodes Id}

theorem Running.call {action : Pool.Action Id Request Outcome} (running : Running m p)
    (taken : step m p (.call action) = some p') : Running m p' := by
  have taken : Pool.step (withBootstrapLock m) (fun id rest => rest.advance (perform id)) p action =
    some p' := taken
  cases action with
  | start id request =>
    obtain ⟨free, rfl⟩ := Pool.start_cases taken
    refine ⟨running.sound, fun i none => ?_, Pool.forall_setCall (fun call isCall => ?_) ?_⟩
    · by_cases own : i = id
      · subst own
        rw [Pool.setCall_self] at none
        cases none
      · rw [Pool.setCall_ne _ _ own] at none
        exact running.idle i none
    · cases isCall
      exact .start request (running.idle id free)
    · exact fun i call _ found => running.stages i call found
  | advance id outcome =>
    obtain ⟨call, rest, world, found, moved, rfl⟩ := Pool.advance_cases taken
    have next := (running.stages id call found).next running.sound moved
    refine ⟨next.sound, fun i none => ?_, Pool.forall_setCall (fun call isCall => ?_) ?_⟩
    · have ne : i ≠ id := by
        rintro rfl
        rw [Pool.setCall_self] at none
        cases none
      rw [Pool.setCall_ne _ _ ne] at none
      exact (running.idle i none).stays (next.others i ne)
    · cases isCall
      exact next.stage
    · exact fun i other own found' => (running.stages i other found').stays (next.others i own)
  | finish id =>
    obtain ⟨request, value, found, rfl⟩ := Pool.finish_cases taken
    refine ⟨running.sound, fun i none => ?_, Pool.forall_setCall (fun call isCall => ?_) ?_⟩
    · by_cases own : i = id
      · subst own
        exact (running.stages i _ found).ended rfl
      · rw [Pool.setCall_ne _ _ own] at none
        exact running.idle i none
    · cases isCall
    · exact fun i call _ found' => running.stages i call found'

theorem Running.disconnect {id : Id} (running : Running m p)
    (taken : step m p (.disconnect id) = some p') : Running m p' := by
  cases taken
  have leaves := leaves_disconnect p.world id
  refine ⟨leaves.sound running.sound, fun i none => ?_, fun i call found => ?_⟩
  · by_cases own : i = id
    · rw [own]
      exact noTx_down (disconnect_self _ id)
    · exact (running.idle i none).stays (leaves.undisturbed own)
  · by_cases own : i = id
    · subst own
      exact (running.stages i call found).disconnect
    · exact (running.stages i call found).stays (leaves.undisturbed own)

theorem run_running {trace : List (Action Id)}
    (run : Run (step m) Always (Pool.idle World.fresh) trace p) : Running m p := by
  refine run.invariant (Running m) ⟨⟨List.nil_prefix, rfl⟩, fun _ _ => rfl, fun id call found => ?_⟩
    fun q action q' running _ taken => ?_
  · cases found
  · cases action with
    | call action => exact running.call taken
    | disconnect id => exact running.disconnect taken

theorem names_sorted (m : Migrations) :
    m.names.Pairwise fun a b => Storage.Drivers.textLe a b := by
  have total : Std.Total fun a b : Text => Storage.Drivers.textLe a b = true :=
    ⟨fun a b => by simpa using Storage.Fallback.textLe_total a b⟩
  have trans : IsTrans Text fun a b => Storage.Drivers.textLe a b = true :=
    ⟨fun a b c => Storage.Fallback.textLe_trans a b c⟩
  exact List.pairwise_insertionSort _ _

omit [DecidableEq Id] in
/-- What a call that returns `nil` leaves behind. -/
theorem Stage.complete {w : World Id} {id : Id} {q : Handler} (stage : Stage m w id q)
    (returned : q = .ret none) : Done w m.names := by
  cases stage with
  | returned result done noTx =>
    cases returned
    exact done rfl
  | loop request before name rest split done holds noTx =>
    have mem : name ∈ m.names := by
      rw [split]
      exact List.mem_append_right before List.mem_cons_self
    rw [migrateLoop_cons request m mem] at returned
    cases returned
  | seed rest done noTx => exact done
  | _ => cases returned

/-- Every migration has taken effect at most once, in the order of the names and after all before it,
its version is recorded exactly if it has, and where a call returns `nil` all of them have. -/
theorem migrations_applied {m : Migrations} {p : Nodes Id} {trace : List (Action Id)}
    (run : Run (step m) Always (Pool.idle World.fresh) trace p) :
    p.world.applied.Nodup ∧ p.world.applied <+: m.names ∧
      m.names.Pairwise (fun a b => Storage.Drivers.textLe a b) ∧
      p.world.recorded = p.world.applied.map migrationVersion ∧
      (∀ name ∈ m.names, migrationVersion name ∈ p.world.recorded ↔ name ∈ p.world.applied) ∧
      ∀ id request, p.calls id = some ⟨request, .ret none⟩ → p.world.applied = m.names := by
  have running := run_running run
  have nodup : m.names.Nodup := List.Nodup.of_map _ m.distinct
  have order := running.sound.order
  refine ⟨nodup.sublist order.sublist, order, ?_, running.sound.recorded, fun name mem => ?_,
    fun id request found => ?_⟩
  · exact names_sorted m
  · rw [← recorded_iff running.sound mem, List.contains_iff_mem]
  · have done := (running.stages id _ found).complete rfl
    exact order.eq_of_length_le (List.subperm_of_subset nodup done).length_le

def twoMigrations : Migrations where
  entries := [⟨"0002_auth.sql".toList, false⟩, ⟨"0001_init.sql".toList, false⟩]
  positive := by decide
  distinct := by decide

/-- The first node crashes before its first commit, and the second applies both migrations. -/
def crashAndRetry : List (Action Nat) :=
  [.call (.start 0 .migrate), .call (.start 1 .mustSeed)] ++
    List.replicate 7 (.call (.advance 0 .ok)) ++ [.disconnect 0] ++
    List.replicate 18 (.call (.advance 1 .ok))

theorem migrations_applied_retry : ∃ p : Nodes Nat,
    Run (step twoMigrations) Always (Pool.idle World.fresh) crashAndRetry p ∧
      p.world.applied.Nodup ∧ p.world.applied = twoMigrations.names := by
  have made : (Transition.exec (step twoMigrations) (fun _ _ => true) (Pool.idle World.fresh) crashAndRetry).any
      (fun p => decide (p.world.applied = twoMigrations.names)) = true := by
    decide +kernel
  obtain ⟨p, run, all⟩ := exists_run (fun _ _ _ => trivial) made
  exact ⟨p, run, (migrations_applied run).1, of_decide_eq_true all⟩

end Vidsilo.Db.Migrate
