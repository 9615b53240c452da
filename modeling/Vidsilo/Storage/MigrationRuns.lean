import Vidsilo.Storage.Migration

/-!
# What any run of a migration leaves in two plain stores

Source: internal/store/migrate.go:20-98. Which operations fail is fixed in advance for every
store and key; the workers and the order in which they take turns are not. `migrateKey` takes
every error of the target's `Stat` for an absent object.
-/
namespace Vidsilo.Storage.MigrationRuns
open Library Library.Procedure Library.SlashPath Library.Transition Drivers Operations Migration
open Fallback (clip)

variable {Id : Type}

inductive OpKind where
  | «open» | stat | put | delete
  deriving DecidableEq, Repr

/-- The keys that `Migrate` lists. -/
def listed (selects : Id → Text → Text → Bool) (src : Id) (w : Stores Id) : List Text :=
  (w.contents src).keys.filter (selects src Keys.entriesRoot)

theorem listed_nodup (selects : Id → Text → Text → Bool) (src : Id) (w : Stores Id) :
    (listed selects src w).Nodup :=
  (w.contents src).keys_nodup.filter _

theorem listed_stored {selects : Id → Text → Text → Bool} {src : Id} {w : Stores Id} {key : Text}
    (mem : key ∈ listed selects src w) : ∃ bytes, w.object src key = some bytes :=
  Option.isSome_iff_exists.mp
    (AList.lookup_isSome.mpr (AList.mem_keys.mp (List.mem_of_mem_filter mem)))

/-- The outcome of each operation, for every store and key. -/
abbrev Faults (Id : Type) := Id → OpKind → Text → Outcome

def Faults.outcome (faults : Faults Id) : {β : Type} → StoreOp Id β → Outcome
  | _, .put s key _ _ => faults s .put key
  | _, .open s key => faults s .open key
  | _, .stat s key => faults s .stat key
  | _, .delete s key => faults s .delete key
  | _, .list _ _ => .ok
  | _, .promoted => .ok

/-- The steps of the workers have the outcomes fixed in advance. -/
def Follows (faults : Faults Id) (m : Migrating Id) : Action → Prop
  | .advance worker outcome => ∀ call, m.pool.calls worker = some call →
      call.rest.Starts fun op => outcome = faults.outcome op
  | _ => True

variable [DecidableEq Id]

/-- What `Migrate` owes to the listed keys, however it ends. -/
structure Promised (src dst : Id) (force : Bool) (w : Stores Id) (keys : List Text)
    (m : Migrating Id) : Prop where
  kept : ∀ key ∈ keys, m.pool.world.object src key = w.object src key ∨
    m.pool.world.object dst key = w.object src key
  changed : ∀ key, m.pool.world.object dst key ≠ w.object dst key →
    w.object dst key = none ∨ force = true
  counted : m.cancelled = false →
    m.result.copied + m.result.skipped + m.result.failed = keys.length

/-- For any workers and any order: the promise is kept, and two runs that are not cancelled
leave the same objects and counters. -/
def Migrates (selects : Id → Text → Text → Bool) (src dst : Id) (force prune : Bool)
    (faults : Faults Id) (w : Stores Id) : Prop :=
  ∀ keys, perform selects (.list src Keys.entriesRoot) .ok w = some (.ok keys, w) →
    ∀ workers trace m,
      Run (step selects src (.plain dst) ⟨workers, force, prune⟩) (Follows faults) (start w keys)
        trace m →
      m.Returned ⟨workers, force, prune⟩ →
      Promised src dst force w keys m ∧
        ∀ workers' trace' m',
          Run (step selects src (.plain dst) ⟨workers', force, prune⟩) (Follows faults)
            (start w keys) trace' m' →
          m'.Returned ⟨workers', force, prune⟩ → m.cancelled = false → m'.cancelled = false →
          m.result = m'.result ∧
            ∀ s key, m.pool.world.object s key = m'.pool.world.object s key

/-- The copy of a key is stored: it is forced or `Stat` does not find the key in the target,
and nothing before the end of `Put` fails. -/
def writes (src dst : Id) (force : Bool) (faults : Faults Id) (w : Stores Id) (key : Text) : Bool :=
  (force || faults dst .stat key = .fails || (w.object dst key).isNone) &&
    faults src .open key = .ok && faults src .stat key = .ok && faults dst .put key = .ok

/-- Without `Force`, a copy is stored over an object with other bytes. -/
def overwrites (src dst : Id) (force : Bool) (faults : Faults Id) (w : Stores Id) (key : Text) :
    Bool :=
  force = false && writes src dst force faults w key && (w.object dst key).isSome &&
    w.object dst key ≠ w.object src key

variable {selects : Id → Text → Text → Bool} {src dst : Id} {force prune : Bool} {faults : Faults Id}
  {w w' v v' : Stores Id} {key k : Text} {bytes : Bytes} {reply : Migrated} {workers : Int}

theorem perform_total (selects : Id → Text → Text → Bool) {β : Type} (op : StoreOp Id β)
    (outcome : Outcome) (w : Stores Id) :
    ∃ b w', perform selects op outcome w = some (b, w') := by
  cases outcome with
  | _ =>
    cases op with
    | _ => exact ⟨_, _, rfl⟩

/-- The objects of a key after its copy has been stored. -/
structure Copied (src dst : Id) (prune : Bool) (faults : Faults Id) (w w' : Stores Id)
    (key : Text) : Prop where
  target : w'.object dst key = w.object src key
  source : w'.object src key =
    if prune = true ∧ faults src .delete key = .ok then none else w.object src key

theorem follow_pruneKey (apart : src ≠ dst) (h : (pruneKey src key prune).follow (perform selects)
      faults.outcome v = some (reply, v'))
    (target : v.object dst key = w.object src key) (source : v.object src key = w.object src key) :
    Copied src dst prune faults w v' key := by
  cases prune with
  | false =>
    cases h
    exact ⟨target, by simpa using source⟩
  | true =>
    cases fault : faults src .delete key with
    | fails =>
      simp only [pruneKey, if_true, ask_bind, follow, Faults.outcome, fault, perform, attempt,
        Option.bind_some] at h
      cases h
      exact ⟨target, by simpa [fault] using source⟩
    | ok =>
      simp only [pruneKey, if_true, ask_bind, follow, Faults.outcome, fault, perform, attempt,
        Option.bind_some] at h
      cases h
      constructor
      · rw [object_erase, if_neg fun both => apart both.1.symm]
        exact target
      · rw [object_erase]
        simp [fault]

theorem follow_copyKey (apart : src ≠ dst) (here : w.object src key = some bytes)
    (h : (copyKey src (.plain dst) key prune).follow (perform selects) faults.outcome w =
      some (reply, w')) :
    if faults src .open key = .ok ∧ faults src .stat key = .ok ∧ faults dst .put key = .ok then
      Copied src dst prune faults w w' key
    else w' = w := by
  have lookup : (w.contents src).lookup key = some bytes := here
  simp only [copyKey, ask_bind, follow, Faults.outcome] at h
  cases opens : faults src .open key with
  | fails =>
    simp only [opens, perform, attempt, Option.bind_some] at h
    cases h
    simp
  | ok =>
    simp only [opens, perform, attempt, lookup, found, Option.bind_some, follow,
      Faults.outcome] at h
    cases stats : faults src .stat key with
    | fails =>
      simp only [stats] at h
      cases h
      simp
    | ok =>
      simp only [stats, Option.map_some, Option.bind_some, Target.put, ask_bind, follow,
        Faults.outcome] at h
      cases puts : faults dst .put key with
      | fails =>
        simp only [puts, perform, attempt, Option.bind_some] at h
        cases h
        simp
      | ok =>
        simp only [puts, perform, attempt, Option.bind_some] at h
        rw [if_pos ⟨rfl, rfl, rfl⟩]
        apply follow_pruneKey apart h
        · rw [object_insert, if_pos ⟨rfl, rfl⟩]
          exact here.symm
        · rw [object_insert, if_neg fun both => apart both.1]

/-- A listed key is copied when `writes` says so, and otherwise the stores stay as they are. -/
theorem follow_body (apart : src ≠ dst) (here : w.object src key = some bytes)
    (h : (body src (.plain dst) ⟨workers, force, prune⟩ key).follow (perform selects)
      faults.outcome w = some (reply, w')) :
    if writes src dst force faults w key = true then Copied src dst prune faults w w' key
    else w' = w := by
  have copies : (copyKey src (.plain dst) key prune).follow (perform selects) faults.outcome w =
      some (reply, w') →
      (force || faults dst .stat key = .fails || (w.object dst key).isNone) = true →
      if writes src dst force faults w key = true then Copied src dst prune faults w w' key
      else w' = w := by
    intro h asked
    have closed := follow_copyKey apart here h
    simp only [writes, asked, Bool.true_and, Bool.and_eq_true, decide_eq_true_eq, and_assoc]
    exact closed
  cases force with
  | true => exact copies h rfl
  | false =>
    simp only [body, migrateKey, Bool.false_eq_true, if_false, Target.stat, ask_bind, follow,
      Faults.outcome] at h
    cases stats : faults dst .stat key with
    | fails =>
      simp only [stats, perform, attempt, Option.bind_some] at h
      apply copies h
      simp [stats]
    | ok =>
      cases lookup : (w.contents dst).lookup key with
      | none =>
        simp only [stats, perform, attempt, lookup, Option.map_none, found, Option.bind_some] at h
        apply copies h
        simp [Stores.object, lookup]
      | some old =>
        simp only [stats, perform, attempt, lookup, Option.map_some, found, Option.bind_some] at h
        cases h
        simp [writes, stats, Stores.object, lookup]

theorem follow_on {rest : Procedure (StoreOp Id) Migrated} (uses : rest.Uses (onKey key))
    (same : SameAt key w v)
    (h : rest.follow (perform selects) faults.outcome v = some (reply, v')) :
    ∃ w', rest.follow (perform selects) faults.outcome w = some (reply, w') ∧
      SameAt key w' v' := by
  induction rest generalizing w v with
  | ret value =>
    cases h
    exact ⟨w, rfl, same⟩
  | call op next ih =>
    obtain ⟨⟨b, u⟩, performed, later⟩ := Option.bind_eq_some_iff.mp h
    obtain ⟨u', again, agree⟩ := perform_same uses.1 same performed
    obtain ⟨w', done, same'⟩ := ih b (uses.2 b) agree later
    refine ⟨w', ?_, same'⟩
    rw [follow, again]
    exact done

/-- What remains of a call has the result that the whole call has from the first stores, and a
settled key has that result. -/
structure Determined (selects : Id → Text → Text → Bool) (src : Id) (dst : Target Id)
    (opts : MigrateOptions) (faults : Faults Id) (w : Stores Id) (keys : List Text) (log : Log)
    (m : Migrating Id) : Prop where
  unlisted : ∀ k, k ∉ keys → log k = .waiting
  running : ∀ k i rest, log k = .running i → m.pool.calls i = some ⟨k, rest⟩ →
    rest.Uses (onKey k) ∧ ∀ reply v',
      rest.follow (perform selects) faults.outcome m.pool.world = some (reply, v') →
      ∃ w', (body src dst opts k).follow (perform selects) faults.outcome w = some (reply, w') ∧
        SameAt k w' v'
  settled : ∀ k reply, log k = .settled reply → ∃ w',
    (body src dst opts k).follow (perform selects) faults.outcome w = some (reply, w') ∧
      SameAt k w' m.pool.world

variable {target : Target Id} {opts : MigrateOptions} {keys : List Text} {log : Log}
  {m m' : Migrating Id} {i : Nat}

theorem determined_start :
    Determined selects src target opts faults w keys (fun _ => .waiting) (start w keys) := by
  refine ⟨fun _ _ => rfl, ?_, ?_⟩
  · intro _ _ _ no
    cases no
  · intro _ _ no
    cases no

theorem Determined.take (h : Determined selects src target opts faults w keys log m)
    (sound : Sound selects src target opts w keys log m) (mem : key ∈ keys)
    (waits : log key = .waiting)
    (now : m'.pool = m.pool.setCall i (some ⟨key, body src target opts key⟩))
    (sound' : Sound selects src target opts w keys (log.set key (.running i)) m') :
    Determined selects src target opts faults w keys (log.set key (.running i)) m' := by
  have world : m'.pool.world = m.pool.world := by rw [now, Pool.setCall_world]
  refine ⟨?_, ?_, ?_⟩
  · intro k unlisted
    have other : k ≠ key := by
      rintro rfl
      exact unlisted mem
    rw [Log.set_ne _ _ other]
    exact h.unlisted k unlisted
  · intro k j rest runs found
    rcases Log.set_cases runs with ⟨rfl, same⟩ | ⟨_, old⟩
    · cases same
      rw [now, Pool.setCall_self] at found
      cases found
      refine ⟨uses_body .., fun reply v' result => ?_⟩
      rw [world] at result
      exact follow_on (uses_body ..) (sound.waiting k waits) result
    · have ne : j ≠ i := by
        rintro rfl
        obtain ⟨_, _, _, found', _⟩ := sound'.running key j (Log.set_self ..)
        have isCall := Option.some.inj (found'.symm.trans found)
        have same : key = k := congrArg Call.request isCall
        rw [same, old] at waits
        cases waits
      rw [now, Pool.setCall_ne _ _ ne] at found
      rw [world]
      exact h.running k j rest old found
  · intro k reply ended
    rcases Log.set_cases ended with ⟨_, no⟩ | ⟨_, old⟩
    · cases no
    · rw [world]
      exact h.settled k reply old

theorem Determined.advance {outcome : Outcome}
    (h : Determined selects src target opts faults w keys log m)
    (sound : Sound selects src target opts w keys log m)
    (follows : Follows faults m (.advance i outcome))
    (taken : step selects src target opts m (.advance i outcome) = some m') :
    Determined selects src target opts faults w keys log m' := by
  obtain ⟨pool, advanced, rfl⟩ := Option.map_eq_some_iff.mp taken
  obtain ⟨⟨key, rest₀⟩, rest, world, found, moved, rfl⟩ := Pool.advance_cases advanced
  obtain ⟨_, _, runs⟩ := sound.called i _ found
  obtain ⟨uses, remains⟩ := h.running key i rest₀ runs found
  have chosen : rest₀.Starts fun op => outcome = faults.outcome op := follows _ found
  obtain ⟨_, others⟩ := advance_on uses (fun _ => rfl) moved
  refine ⟨h.unlisted, ?_, ?_⟩
  · intro k j rest' runs' found'
    by_cases same : k = key
    · subst same
      cases runs.symm.trans runs'
      have isCall : (m.pool.setCall i (some ⟨k, rest⟩)).calls i = some ⟨k, rest'⟩ := found'
      rw [Pool.setCall_self] at isCall
      cases isCall
      refine ⟨uses_advance uses moved, fun reply v' result => remains reply v' ?_⟩
      rw [follow_advance chosen moved]
      exact result
    · have ne : j ≠ i := by
        rintro rfl
        have isCall : (m.pool.setCall j (some ⟨key, rest⟩)).calls j = some ⟨k, rest'⟩ := found'
        rw [Pool.setCall_self] at isCall
        cases isCall
        exact same rfl
      have before : m.pool.calls j = some ⟨k, rest'⟩ := (Pool.setCall_ne _ _ ne).symm.trans found'
      obtain ⟨uses', remains'⟩ := h.running k j rest' runs' before
      refine ⟨uses', fun reply v' result => ?_⟩
      obtain ⟨u, again, agree⟩ := follow_on uses' (others k same) result
      obtain ⟨w', whole, agree'⟩ := remains' reply u again
      exact ⟨w', whole, agree'.trans agree⟩
  · intro k reply ended
    obtain ⟨w', whole, agree⟩ := h.settled k reply ended
    refine ⟨w', whole, agree.trans (others k ?_)⟩
    rintro rfl
    exact nomatch ended.symm.trans runs

theorem Determined.count (h : Determined selects src target opts faults w keys log m)
    (sound : Sound selects src target opts w keys log m) (mem : key ∈ keys)
    (found : m.pool.calls i = some ⟨key, .ret reply⟩) (now : m'.pool = m.pool.setCall i none) :
    Determined selects src target opts faults w keys (log.set key (.settled reply)) m' := by
  obtain ⟨_, _, runs⟩ := sound.called i _ found
  have world : m'.pool.world = m.pool.world := by rw [now, Pool.setCall_world]
  refine ⟨?_, ?_, ?_⟩
  · intro k unlisted
    have other : k ≠ key := by
      rintro rfl
      exact unlisted mem
    rw [Log.set_ne _ _ other]
    exact h.unlisted k unlisted
  · intro k j rest runs' found'
    rcases Log.set_cases runs' with ⟨_, no⟩ | ⟨_, old⟩
    · cases no
    · have ne : j ≠ i := by
        rintro rfl
        rw [now, Pool.setCall_self] at found'
        cases found'
      rw [now, Pool.setCall_ne _ _ ne] at found'
      rw [world]
      exact h.running k j rest old found'
  · intro k r ended
    rw [world]
    rcases Log.set_cases ended with ⟨rfl, same⟩ | ⟨_, old⟩
    · cases same
      exact (h.running k i _ runs found).2 reply _ rfl
    · exact h.settled k r old

theorem determined_run (distinct : keys.Nodup) {trace : List Action}
    (h : Run (step selects src target opts) (Follows faults) (start w keys) trace m) :
    ∃ log, Sound selects src target opts w keys log m ∧
      Determined selects src target opts faults w keys log m := by
  apply h.invariant fun m => ∃ log, Sound selects src target opts w keys log m ∧
    Determined selects src target opts faults w keys log m
  · exact ⟨_, sound_start distinct, determined_start⟩
  · rintro m a m' ⟨log, sound, determined⟩ follows taken
    cases a with
    | take i =>
      obtain ⟨key, mem, sound', now, waits⟩ := sound.take taken
      exact ⟨_, sound', determined.take sound mem waits now sound'⟩
    | advance i outcome =>
      exact ⟨log, sound.advance taken, determined.advance sound follows taken⟩
    | count i =>
      obtain ⟨key, mem, reply, sound', found, now⟩ := sound.count distinct taken
      exact ⟨_, sound', determined.count sound mem found now⟩
    | cancel =>
      simp only [step] at taken
      split at taken
      · cases taken
        exact ⟨log, ⟨sound.distinct, sound.todo, sound.called, sound.waiting, sound.running,
          sound.settled, sound.counted⟩, determined.unlisted, determined.running,
          determined.settled⟩
      · cases taken

theorem tally_length (all : ∀ k ∈ keys, ∃ reply, log k = .settled reply) :
    (tally log keys).copied + (tally log keys).skipped + (tally log keys).failed = keys.length := by
  induction keys with
  | nil => rfl
  | cons k rest ih =>
    obtain ⟨⟨copied, err⟩, ended⟩ := all k List.mem_cons_self
    have before := ih fun k' mem => all k' (List.mem_cons_of_mem _ mem)
    simp only [tally, ended, List.length_cons]
    cases err with
    | some err =>
      simp only [MigrateResult.count]
      omega
    | none =>
      cases copied with
      | _ =>
        simp only [MigrateResult.count]
        omega

theorem tally_congr {log' : Log} (same : ∀ k ∈ keys, log k = log' k) :
    tally log keys = tally log' keys := by
  induction keys with
  | nil => rfl
  | cons k rest ih =>
    have before := ih fun k' mem => same k' (List.mem_cons_of_mem _ mem)
    simp only [tally, same k List.mem_cons_self, before]

/-- After the return a key is as it was, or as the copy of it alone leaves it. -/
theorem Determined.returned (h : Determined selects src target opts faults w keys log m)
    (sound : Sound selects src target opts w keys log m) (returned : m.Returned opts) (k : Text) :
    (log k = .waiting ∧ SameAt k w m.pool.world) ∨ ∃ reply w', log k = .settled reply ∧ k ∈ keys ∧
      (body src target opts k).follow (perform selects) faults.outcome w = some (reply, w') ∧
      SameAt k w' m.pool.world := by
  cases isLog : log k with
  | waiting => exact .inl ⟨rfl, sound.waiting k isLog⟩
  | running i =>
    obtain ⟨_, _, _, found, _⟩ := sound.running k i isLog
    have none := returned.2 i (sound.called i _ found).1
    rw [found] at none
    cases none
  | settled reply =>
    obtain ⟨w', whole, agree⟩ := h.settled k reply isLog
    refine .inr ⟨reply, w', rfl, ?_, whole, agree⟩
    by_contra unlisted
    rw [h.unlisted k unlisted] at isLog
    cases isLog

/-- Two runs settle a key in the same way. -/
theorem Determined.agree {opts' : MigrateOptions} {log' : Log}
    (h : Determined selects src target opts faults w keys log m)
    (h' : Determined selects src target opts' faults w keys log' m')
    (same : body src target opts = body src target opts')
    (ended : log k = .settled reply) {reply' : Migrated} (ended' : log' k = .settled reply') :
    reply = reply' ∧ SameAt k m.pool.world m'.pool.world := by
  obtain ⟨u, whole, agree⟩ := h.settled k reply ended
  obtain ⟨u', whole', agree'⟩ := h'.settled k reply' ended'
  rw [same] at whole
  cases whole.symm.trans whole'
  exact ⟨rfl, fun s => (agree s).symm.trans (agree' s)⟩

section Existence
variable (m : Migrating Id)

theorem drive (rest : Procedure (StoreOp Id) Migrated)
    (found : m.pool.calls 0 = some ⟨key, rest⟩) :
    ∃ trace m' reply, Run (step selects src target opts) (Follows faults) m trace m' ∧
      m'.todo = m.todo ∧ m'.cancelled = m.cancelled ∧
      m'.pool.calls 0 = some ⟨key, .ret reply⟩ := by
  induction rest generalizing m with
  | ret reply => exact ⟨[], m, reply, .start, rfl, rfl, found⟩
  | call op next ih =>
    obtain ⟨b, world, taken⟩ := perform_total selects op (faults.outcome op) m.pool.world
    let m₁ : Migrating Id :=
      { m with pool := { m.pool.setCall 0 (some ⟨key, next b⟩) with world := world } }
    have now : m₁.pool.calls 0 = some ⟨key, next b⟩ := Pool.setCall_self m.pool 0 _
    obtain ⟨trace, m', reply, run, todo, cancelled, ended⟩ := ih b m₁ now
    refine ⟨.advance 0 (faults.outcome op) :: trace, m', reply, .prepend ?_ ?_ run, todo,
      cancelled, ended⟩
    · intro call isCall
      cases found.symm.trans isCall
      exact rfl
    · simp [step, poolStep, Pool.step, found, move, Procedure.advance, taken, m₁]

theorem complete (able : 0 < opts.workerCount) (idle : m.pool.calls 0 = none)
    (going : m.cancelled = false) :
    ∃ trace m', Run (step selects src target opts) (Follows faults) m trace m' ∧
      m'.todo = [] ∧ m'.cancelled = false ∧ m'.pool.calls 0 = none := by
  generalize isTodo : m.todo = todo
  induction todo generalizing m with
  | nil => exact ⟨[], m, .start, isTodo, going, idle⟩
  | cons key rest ih =>
    let m₁ : Migrating Id :=
      { m with pool := m.pool.setCall 0 (some ⟨key, body src target opts key⟩), todo := rest }
    have taken : step selects src target opts m (.take 0) = some m₁ := by
      simp [step, isTodo, able, going, poolStep, Pool.step, idle, m₁]
    obtain ⟨trace, m₂, reply, run, todo, cancelled, ended⟩ :=
      drive m₁ (body src target opts key) (Pool.setCall_self m.pool 0 _)
    let m₃ : Migrating Id :=
      { m₂ with pool := m₂.pool.setCall 0 none, result := m₂.result.count reply }
    have counted : step selects src target opts m₂ (.count 0) = some m₃ := by
      simp [step, ended, poolStep, Pool.step, m₃]
    obtain ⟨trace', m', run', through, going', idle'⟩ :=
      ih m₃ (Pool.setCall_self ..) (cancelled.trans going) todo
    refine ⟨.take 0 :: (trace ++ .count 0 :: trace'), m', ?_, through, going', idle'⟩
    apply Run.prepend trivial taken
    exact run.append (run'.prepend trivial counted)

end Existence

theorem exists_returned (selects : Id → Text → Text → Bool) (src dst : Id) (force prune : Bool)
    (faults : Faults Id) (w : Stores Id) (keys : List Text) :
    ∃ trace m, Run (step selects src (.plain dst) ⟨1, force, prune⟩) (Follows faults)
      (start w keys) trace m ∧ m.Returned ⟨1, force, prune⟩ ∧ m.cancelled = false := by
  have one : (⟨1, force, prune⟩ : MigrateOptions).workerCount = 1 := rfl
  obtain ⟨trace, m, run, through, going, idle⟩ :=
    complete (start w keys) (one ▸ Nat.one_pos) rfl rfl
  refine ⟨trace, m, run, ⟨.inl through, fun i small => ?_⟩, going⟩
  have first : i = 0 := by omega
  rw [first, idle]
  rfl

/-- The bytes of a listed key are in the source or in the target. -/
theorem Determined.kept (apart : src ≠ dst)
    (h : Determined selects src (.plain dst) ⟨workers, force, prune⟩ faults w
      (listed selects src w) log m)
    (sound : Sound selects src (.plain dst) ⟨workers, force, prune⟩ w (listed selects src w) log m)
    (returned : m.Returned ⟨workers, force, prune⟩) (mem : key ∈ listed selects src w) :
    m.pool.world.object src key = w.object src key ∨
      m.pool.world.object dst key = w.object src key := by
  obtain ⟨bytes, here⟩ := listed_stored mem
  rcases h.returned sound returned key with ⟨_, same⟩ | ⟨reply, w', _, _, result, agree⟩
  · exact .inl (same src).symm
  · have closed := follow_body apart here result
    split at closed
    · right
      rw [← agree dst]
      exact closed.target
    · subst closed
      exact .inl (agree src).symm

/-- A key of the target that has changed was absent or is forced. -/
theorem Determined.changed (apart : src ≠ dst)
    (h : Determined selects src (.plain dst) ⟨workers, force, prune⟩ faults w
      (listed selects src w) log m)
    (sound : Sound selects src (.plain dst) ⟨workers, force, prune⟩ w (listed selects src w) log m)
    (returned : m.Returned ⟨workers, force, prune⟩)
    (whole : ∀ key ∈ listed selects src w, overwrites src dst force faults w key = false)
    (differs : m.pool.world.object dst key ≠ w.object dst key) :
    w.object dst key = none ∨ force = true := by
  rcases h.returned sound returned key with ⟨_, same⟩ | ⟨reply, w', _, mem, result, agree⟩
  · exact absurd (same dst).symm differs
  · obtain ⟨bytes, here⟩ := listed_stored mem
    have closed := follow_body apart here result
    have untouched := whole key mem
    rw [← agree dst] at differs
    split at closed
    · next isWritten =>
      rw [closed.target] at differs
      by_contra neither
      rw [not_or] at neither
      have present : (w.object dst key).isSome = true := Option.isSome_iff_ne_none.mpr neither.1
      obtain rfl : force = false := by simpa using neither.2
      have same : w.object dst key = w.object src key := by
        simpa [overwrites, isWritten, present] using untouched
      exact differs same.symm
    · subst closed
      exact absurd rfl differs

/-- Two runs with the same treatment of a key end with the same counters and objects. -/
theorem Determined.same_end {opts' : MigrateOptions} {log' : Log}
    (h : Determined selects src target opts faults w keys log m)
    (h' : Determined selects src target opts' faults w keys log' m')
    (sound : Sound selects src target opts w keys log m)
    (sound' : Sound selects src target opts' w keys log' m')
    (same : body src target opts = body src target opts')
    (returned : m.Returned opts) (returned' : m'.Returned opts')
    (going : m.cancelled = false) (going' : m'.cancelled = false) :
    m.result = m'.result ∧ ∀ s key, m.pool.world.object s key = m'.pool.world.object s key := by
  constructor
  · rw [sound.counted, sound'.counted]
    apply tally_congr
    intro key mem
    obtain ⟨reply, ended⟩ := sound.returned returned going mem
    obtain ⟨reply', ended'⟩ := sound'.returned returned' going' mem
    rw [ended, ended', (h.agree h' same ended ended').1]
  · intro s key
    by_cases mem : key ∈ keys
    · obtain ⟨reply, ended⟩ := sound.returned returned going mem
      obtain ⟨reply', ended'⟩ := sound'.returned returned' going' mem
      exact (h.agree h' same ended ended').2 s
    · have before := sound.waiting key (h.unlisted key mem)
      have before' := sound'.waiting key (h'.unlisted key mem)
      exact (before s).symm.trans (before' s)

theorem migrates_of (apart : src ≠ dst)
    (whole : ∀ key ∈ listed selects src w, overwrites src dst force faults w key = false) :
    Migrates selects src dst force prune faults w := by
  intro keys isListed workers trace m h returned
  simp only [perform, attempt, Option.some.injEq, Prod.mk.injEq, Except.ok.injEq] at isListed
  obtain ⟨rfl, _⟩ := isListed
  have distinct := listed_nodup selects src w
  obtain ⟨log, sound, determined⟩ := determined_run distinct h
  refine ⟨⟨?_, ?_, ?_⟩, ?_⟩
  · intro key mem
    exact determined.kept apart sound returned mem
  · intro key differs
    exact determined.changed apart sound returned whole differs
  · intro going
    rw [sound.counted]
    exact tally_length fun key mem => sound.returned returned going mem
  · intro workers' trace' m' h' returned' going going'
    obtain ⟨log', sound', determined'⟩ := determined_run distinct h'
    exact determined.same_end determined' sound sound' rfl returned returned' going going'

theorem not_migrates (apart : src ≠ dst) (mem : key ∈ listed selects src w)
    (violated : overwrites src dst force faults w key = true) :
    ¬ Migrates selects src dst force prune faults w := by
  intro promised
  obtain ⟨plain, isWritten, present, differs⟩ :
      force = false ∧ writes src dst force faults w key = true ∧
        (w.object dst key).isSome = true ∧ w.object dst key ≠ w.object src key := by
    simpa [overwrites, and_assoc] using violated
  obtain ⟨trace, m, run, returned, going⟩ :=
    exists_returned selects src dst force prune faults w (listed selects src w)
  obtain ⟨promise, _⟩ := promised (listed selects src w) rfl 1 trace m run returned
  obtain ⟨log, sound, determined⟩ := determined_run (listed_nodup selects src w) run
  obtain ⟨bytes, here⟩ := listed_stored mem
  obtain ⟨reply, ended⟩ := sound.returned returned going mem
  obtain ⟨w', result, agree⟩ := determined.settled key reply ended
  have closed := follow_body apart here result
  rw [if_pos isWritten] at closed
  have stored : m.pool.world.object dst key = w.object src key :=
    (agree dst).symm.trans closed.target
  rcases promise.changed key (by rw [stored]; exact Ne.symm differs) with absent | forced
  · rw [absent] at present
    cases present
  · exact nomatch plain.symm.trans forced

/-- `Migrate` keeps its promise and is independent of the workers and their order exactly when
no copy of a listed key is stored over another object that `Stat` failed to report. -/
theorem migrates_iff (selects : Id → Text → Text → Bool) (src dst : Id) (force prune : Bool)
    (faults : Faults Id) (w : Stores Id) (apart : src ≠ dst) :
    Migrates selects src dst force prune faults w ↔
      ∀ key ∈ listed selects src w, overwrites src dst force faults w key = false := by
  constructor
  · intro promised key mem
    rw [Bool.eq_false_iff]
    exact fun violated => not_migrates apart mem violated promised
  · exact migrates_of apart

/-- The target has another version of the source's key. -/
def conflicting : Stores Fallback.Side where
  contents := fun
    | .legacy => (∅ : Bucket).insert clip [2]
    | .primary => (∅ : Bucket).insert clip [1]
  promoted := 0

/-- `Stat` fails in the target. -/
def statFails : Faults Fallback.Side
  | .primary, .stat, _ => .fails
  | _, _, _ => .ok

/-- With `Force` the failure of `Stat` makes no difference. -/
theorem migrates_iff_forced :
    Migrates (fun _ _ _ => true) .legacy .primary true true statFails conflicting :=
  (migrates_iff (fun _ _ _ => true) .legacy .primary true true statFails conflicting
    (by decide)).mpr (by decide)

/-- Without it the version of the target is lost. -/
theorem failed_stat_overwrites :
    ¬ Migrates (fun _ _ _ => true) .legacy .primary false false statFails conflicting :=
  not_migrates (by decide) (List.mem_singleton.mpr rfl : clip ∈ [clip]) (by decide)

end Vidsilo.Storage.MigrationRuns
