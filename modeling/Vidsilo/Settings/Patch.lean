import Mathlib.Logic.Function.Basic
import Vidsilo.Library.Decimal
import Vidsilo.Library.SlashPath

/-!
# Patching the settings

Source: internal/api/settings.go:35-87 (`handleSettingsPatch`), internal/settings/settings.go:118-125
(`Update`), 162-252 (`Validate`). Numbers are an arbitrary type with the three operations that the code
applies to a float64. A body is a list of keys and values in the order in which the map is visited. A
raw message is the value that it encodes. Error texts are constructors, and the audit is left out.
-/
namespace Vidsilo.Settings.Patch
open Library.SlashPath

/-- `float64`, as far as `Validate` needs it. -/
class Float64 (F : Type) where
  mul : F → F → F
  ofInt64 : Int → F
  /-- `int64(f)`. -/
  toInt64 : F → Int
  eq : F → F → Bool

/-- What `encoding/json` decodes into an `any`. -/
inductive Value (F : Type) where
  | null
  | bool (b : Bool)
  | number (f : F)
  | string (s : Text)
  | array (items : List (Value F))
  | object (members : List (Text × Value F))

inductive RawMessage where
  | string (s : Text)
  | number (n : Int)
  | bool (b : Bool)
  | strings (items : List Text)
  deriving DecidableEq, Repr

inductive SpecType where
  | string | int | bool | strings | enum
  deriving DecidableEq, Repr

structure KeySpec where
  type : SpecType
  enums : List Text
  /-- Zero means unbounded. -/
  intMin : Int
  intMax : Int
  deriving DecidableEq, Repr

def plain (type : SpecType) : KeySpec := ⟨type, [], 0, 0⟩

def intSpec (intMin intMax : Int) : KeySpec := ⟨.int, [], intMin, intMax⟩

def specs : List (Text × KeySpec) :=
  [("site_name".toList, plain .string),
    ("default_lang".toList, plain .string),
    ("upload.max_size_bytes".toList, intSpec 1 1099511627776),
    ("upload.allowed_extensions".toList, plain .strings),
    ("transcode.concurrency".toList, intSpec 0 64),
    ("transcode.segment_seconds".toList, intSpec 1 60),
    ("transcode.gop_seconds".toList, intSpec 1 10),
    ("transcode.preset".toList, plain .string),
    ("cache.enabled".toList, plain .bool),
    ("cache.max_bytes".toList, intSpec 1 0),
    ("analytics.enabled".toList, plain .bool),
    ("analytics.retention_days".toList, intSpec 1 3650),
    ("analytics.flush_interval_s".toList, intSpec 1 3600),
    ("library.mode".toList,
      ⟨.enum, ["disabled".toList, "login_only".toList, "enabled".toList], 0, 0⟩)]

/-- The errors of `Validate`, each about a key. -/
inductive Invalid where
  | unknown (key : Text)
  | notString (key : Text)
  | notNumber (key : Text)
  | notWhole (key : Text)
  | tooSmall (key : Text) (intMin : Int)
  | tooLarge (key : Text) (intMax : Int)
  | notBool (key : Text)
  | notStrings (key : Text)
  | notOneOf (key : Text) (enums : List Text)
  /-- Of the handler: it takes these keys in megabytes. -/
  | notMegabytes (key : Text)
  deriving DecidableEq, Repr

variable {F : Type} [Float64 F]

def validateInt (key : Text) (spec : KeySpec) (f : F) : Except Invalid RawMessage :=
  let n := Float64.toInt64 f
  if !Float64.eq (Float64.ofInt64 n : F) f then .error (.notWhole key)
  else if spec.intMin ≠ 0 ∧ n < spec.intMin then .error (.tooSmall key spec.intMin)
  else if spec.intMax ≠ 0 ∧ spec.intMax < n then .error (.tooLarge key spec.intMax)
  else .ok (.number n)

def stringItems (key : Text) : List (Value F) → Except Invalid (List Text)
  | [] => .ok []
  | .string s :: rest => (stringItems key rest).map (s :: ·)
  | _ :: _ => .error (.notStrings key)

def validate (key : Text) (value : Value F) : Except Invalid RawMessage :=
  match specs.lookup key with
  | none => .error (.unknown key)
  | some spec =>
    match spec.type, value with
    | .string, .string s => .ok (.string s)
    | .string, _ => .error (.notString key)
    | .int, .number f => validateInt key spec f
    | .int, _ => .error (.notNumber key)
    | .bool, .bool b => .ok (.bool b)
    | .bool, _ => .error (.notBool key)
    | .strings, .array items => (stringItems key items).map .strings
    | .strings, _ => .error (.notStrings key)
    | .enum, .string s =>
      if s ∈ spec.enums then .ok (.string s) else .error (.notOneOf key spec.enums)
    | .enum, _ => .error (.notOneOf key spec.enums)

def panelUnitDivisor : List (Text × Int) :=
  [("upload.max_size_bytes".toList, 1048576), ("cache.max_bytes".toList, 1048576)]

/-- Panel units to canonical units. -/
def scaled (key : Text) (value : Value F) : Except Invalid (Value F) :=
  match panelUnitDivisor.lookup key with
  | none => .ok value
  | some div =>
    match value with
    | .number mb => .ok (.number (Float64.mul mb (Float64.ofInt64 div)))
    | _ => .error (.notMegabytes key)

/-- What is stored for an entry of the body. -/
def canonical (key : Text) (value : Value F) : Except Invalid RawMessage :=
  (scaled key value).bind (validate key)

/-- The settings, by key. -/
abbrev Stored := Text → Option RawMessage

inductive Response (F : Type) where
  /-- 400 `bad_request`. -/
  | badRequest
  /-- 400 `invalid_setting`. -/
  | invalidSetting (err : Invalid)
  /-- 500. -/
  | internalError
  /-- 200. -/
  | updated (body : List (Text × Value F))

/-- `Update`, which fails with its statement. -/
def update (key : Text) (value : RawMessage) (ok : Bool) (s : Stored) : Option Stored :=
  if ok then some (Function.update s key (some value)) else none

/-- The loop over the body; `updates` says for which keys the statement of `Update` runs. -/
def patchLoop (updates : Text → Bool) :
    List (Text × Value F) → List (Text × Value F) → Stored → Response F × Stored
  | [], updated, s => (.updated updated, s)
  | (key, value) :: rest, updated, s =>
    match scaled key value with
    | .error err => (.invalidSetting err, s)
    | .ok value =>
      match validate key value with
      | .error err => (.invalidSetting err, s)
      | .ok canonical =>
        match update key canonical (updates key) s with
        | none => (.internalError, s)
        | some s => patchLoop updates rest (updated ++ [(key, value)]) s

/-- A request with the map that its body decodes to. -/
structure Body (F : Type) where
  /-- In the order of the visit. -/
  entries : List (Text × Value F)
  unique : (entries.map (·.1)).Nodup

def handleSettingsPatch (updates : Text → Bool) (body : Option (Body F)) (s : Stored) :
    Response F × Stored :=
  match body with
  | none => (.badRequest, s)
  | some body => patchLoop updates body.entries [] s

/-- A refused setting leaves all as it was; after a 200 every key has its canonical value. -/
structure Atomic (body : List (Text × Value F)) (s : Stored) (result : Response F × Stored) : Prop where
  refused : ∀ err, result.1 = .invalidSetting err → result.2 = s
  stored : ∀ updated, result.1 = .updated updated → ∀ p ∈ body, ∃ raw,
    canonical p.1 p.2 = .ok raw ∧ result.2 p.1 = some raw

/-- The loop gets past this entry. -/
def accepted (updates : Text → Bool) (p : Text × Value F) : Bool :=
  (canonical p.1 p.2).isOk && updates p.1

/-- The entries that are visited before one that is invalid, if the loop gets there, have their values
already. -/
def Harmless (updates : Text → Bool) (body : List (Text × Value F)) (s : Stored) : Prop :=
  ∀ before p later, body = before ++ p :: later → (∀ q ∈ before, accepted updates q = true) →
    (canonical p.1 p.2).isOk = false → ∀ q ∈ before, ∀ raw, canonical q.1 q.2 = .ok raw →
      s q.1 = some raw

variable {updates : Text → Bool}

/-- What is stored once the loop is past an entry. -/
def store (s : Stored) (p : Text × Value F) : Stored :=
  match canonical p.1 p.2 with
  | .error _ => s
  | .ok raw => Function.update s p.1 (some raw)

theorem canonical_parts {key : Text} {value : Value F} (valid : (canonical key value).isOk = true) :
    ∃ value' raw, scaled key value = .ok value' ∧ validate key value' = .ok raw := by
  unfold canonical at valid
  cases unit : scaled key value with
  | error err => simp [unit, Except.bind, Except.isOk, Except.toBool] at valid
  | ok value' =>
    simp only [unit, Except.bind] at valid
    cases read : validate key value' with
    | error err => simp [read, Except.isOk, Except.toBool] at valid
    | ok raw => exact ⟨value', raw, rfl, read⟩

theorem patchLoop_accepted {p : Text × Value F} (ok : accepted updates p = true)
    (rest updated : List (Text × Value F)) (s : Stored) : ∃ updated',
      patchLoop updates (p :: rest) updated s = patchLoop updates rest updated' (store s p) := by
  obtain ⟨key, value⟩ := p
  simp only [accepted, Bool.and_eq_true] at ok
  obtain ⟨valid, runs⟩ := ok
  obtain ⟨value', raw, unit, read⟩ := canonical_parts valid
  refine ⟨updated ++ [(key, value')], ?_⟩
  rw [patchLoop]
  simp [unit, read, update, runs, store, canonical, Except.bind]

theorem patchLoop_refused {p : Text × Value F} (invalid : (canonical p.1 p.2).isOk = false)
    (updates : Text → Bool) (rest updated : List (Text × Value F)) (s : Stored) : ∃ err,
      patchLoop updates (p :: rest) updated s = (.invalidSetting err, s) := by
  obtain ⟨key, value⟩ := p
  unfold canonical at invalid
  unfold patchLoop
  cases unit : scaled key value with
  | error err => exact ⟨err, rfl⟩
  | ok value' =>
    simp only [unit, Except.bind] at invalid
    cases read : validate key value' with
    | error err => exact ⟨err, by simp [read]⟩
    | ok raw => simp [read, Except.isOk, Except.toBool] at invalid

theorem patchLoop_fails {p : Text × Value F} (valid : (canonical p.1 p.2).isOk = true)
    (fails : updates p.1 = false) (rest updated : List (Text × Value F)) (s : Stored) :
    patchLoop updates (p :: rest) updated s = (.internalError, s) := by
  obtain ⟨key, value⟩ := p
  obtain ⟨value', raw, unit, read⟩ := canonical_parts valid
  have stops : updates key = false := fails
  rw [patchLoop]
  simp [unit, read, update, stops]

theorem patchLoop_append {before : List (Text × Value F)}
    (ok : ∀ q ∈ before, accepted updates q = true) (rest updated : List (Text × Value F))
    (s : Stored) : ∃ updated', patchLoop updates (before ++ rest) updated s =
      patchLoop updates rest updated' (before.foldl store s) := by
  induction before generalizing updated s with
  | nil => exact ⟨updated, rfl⟩
  | cons p before ih =>
    obtain ⟨next, first⟩ := patchLoop_accepted (ok p List.mem_cons_self) (before ++ rest) updated s
    obtain ⟨last, later⟩ := ih (fun q mem => ok q (List.mem_cons_of_mem p mem)) next (store s p)
    exact ⟨last, by rw [List.cons_append, first, later, List.foldl_cons]⟩

/-- The entries up to the one where the loop ends. -/
theorem exists_split (updates : Text → Bool) (body : List (Text × Value F)) : ∃ before rest, body = before ++ rest ∧
    (∀ q ∈ before, accepted updates q = true) ∧
      ∀ p later, rest = p :: later → accepted updates p = false := by
  induction body with
  | nil => exact ⟨[], [], rfl, by simp, by simp⟩
  | cons p body ih =>
    cases ok : accepted updates p with
    | false =>
      refine ⟨[], p :: body, rfl, by simp, ?_⟩
      intro q later same
      obtain ⟨rfl, _⟩ := List.cons.inj same
      exact ok
    | true =>
      obtain ⟨before, rest, same, all, stops⟩ := ih
      refine ⟨p :: before, rest, by rw [same, List.cons_append], ?_, stops⟩
      intro q mem
      rcases List.mem_cons.mp mem with rfl | mem
      · exact ok
      · exact all q mem

theorem foldl_store_other {key : Text} {entries : List (Text × Value F)}
    (other : key ∉ entries.map (·.1)) (s : Stored) : entries.foldl store s key = s key := by
  induction entries generalizing s with
  | nil => rfl
  | cons p rest ih =>
    simp only [List.map_cons, List.mem_cons, not_or] at other
    rw [List.foldl_cons, ih other.2]
    unfold store
    cases canonical p.1 p.2 with
    | error err => rfl
    | ok raw => exact Function.update_of_ne other.1 _ _

theorem foldl_store_mem {p : Text × Value F} {entries : List (Text × Value F)} {raw : RawMessage}
    (unique : (entries.map (·.1)).Nodup) (mem : p ∈ entries) (ok : canonical p.1 p.2 = .ok raw)
    (s : Stored) : entries.foldl store s p.1 = some raw := by
  induction entries generalizing s with
  | nil => cases mem
  | cons q rest ih =>
    simp only [List.map_cons, List.nodup_cons] at unique
    rw [List.foldl_cons]
    rcases List.mem_cons.mp mem with rfl | mem
    · rw [foldl_store_other unique.1]
      unfold store
      rw [ok]
      exact Function.update_self _ _ _
    · exact ih unique.2 mem _

/-- Storing what is stored already changes nothing. -/
theorem foldl_store_same {entries : List (Text × Value F)} {s : Stored}
    (same : ∀ q ∈ entries, ∀ raw, canonical q.1 q.2 = .ok raw → s q.1 = some raw) :
    entries.foldl store s = s := by
  induction entries with
  | nil => rfl
  | cons p rest ih =>
    have first : store s p = s := by
      unfold store
      split
      · rfl
      · next raw ok =>
        rw [← same p List.mem_cons_self raw ok]
        exact Function.update_eq_self _ _
    rw [List.foldl_cons, first]
    exact ih fun q mem => same q (List.mem_cons_of_mem p mem)

theorem canonical_of_accepted {p : Text × Value F} (ok : accepted updates p = true) :
    ∃ raw, canonical p.1 p.2 = .ok raw := by
  unfold accepted at ok
  cases read : canonical p.1 p.2 with
  | error err => simp [read, Except.isOk, Except.toBool] at ok
  | ok raw => exact ⟨raw, rfl⟩

theorem stored_of_updated {body : List (Text × Value F)} (unique : (body.map (·.1)).Nodup)
    {updated : List (Text × Value F)} {s : Stored}
    (done : (patchLoop updates body [] s).1 = .updated updated) :
    ∀ p ∈ body, ∃ raw, canonical p.1 p.2 = .ok raw ∧ (patchLoop updates body [] s).2 p.1 = some raw := by
  obtain ⟨before, rest, rfl, ok, stops⟩ := exists_split updates body
  obtain ⟨seen, run⟩ := patchLoop_append ok rest [] s
  rw [run] at done ⊢
  cases rest with
  | nil =>
    intro p mem
    rw [List.append_nil] at mem unique
    obtain ⟨raw, read⟩ := canonical_of_accepted (ok p mem)
    exact ⟨raw, read, foldl_store_mem unique mem read s⟩
  | cons q later =>
    have stop := stops q later rfl
    cases valid : (canonical q.1 q.2).isOk with
    | false =>
      obtain ⟨err, refused⟩ := patchLoop_refused valid updates later seen
        (before.foldl store s)
      rw [refused] at done
      cases done
    | true =>
      simp only [accepted, valid, Bool.true_and] at stop
      rw [patchLoop_fails valid stop] at done
      cases done

/-- In whatever order the map is visited: the request is atomic exactly when the entries that come
before an invalid one have their values already. -/
theorem patch_atomic_iff (updates : Text → Bool) (body : Body F) (s : Stored) :
    Atomic body.entries s (handleSettingsPatch updates (some body) s) ↔
      Harmless updates body.entries s := by
  unfold handleSettingsPatch
  constructor
  · intro atomic before p later same ok invalid q mem raw read
    have unique := body.unique
    dsimp only at atomic
    rw [same] at atomic unique
    obtain ⟨seen, run⟩ := patchLoop_append ok (p :: later) [] s
    obtain ⟨err, refused⟩ := patchLoop_refused invalid updates later seen
      (before.foldl store s)
    rw [run, refused] at atomic
    have kept : before.foldl store s = s := atomic.refused err rfl
    rw [List.map_append] at unique
    rw [← foldl_store_mem (List.nodup_append.mp unique).1 mem read s, kept]
  · intro harmless
    refine ⟨?_, fun updated done => stored_of_updated body.unique done⟩
    intro err refused
    obtain ⟨before, rest, same, ok, stops⟩ := exists_split updates body.entries
    dsimp only at refused ⊢
    obtain ⟨seen, run⟩ := patchLoop_append ok rest [] s
    rw [same, run] at refused ⊢
    cases rest with
    | nil => cases refused
    | cons q later =>
      have kept : (canonical q.1 q.2).isOk = false → before.foldl store s = s := fun invalid =>
        foldl_store_same (harmless before q later same ok invalid)
      cases valid : (canonical q.1 q.2).isOk with
      | false =>
        obtain ⟨err', result⟩ := patchLoop_refused valid updates later seen
          (before.foldl store s)
        rw [result]
        exact kept valid
      | true =>
        have stop := stops q later rfl
        simp only [accepted, valid, Bool.true_and] at stop
        rw [patchLoop_fails valid stop] at refused
        cases refused

instance : Float64 Int := ⟨(· * ·), id, id, (· == ·)⟩

def known : Text × Value Int := ("analytics.retention_days".toList, .number 30)

def unknown : Text × Value Int := ("no_such_key".toList, .null)

/-- Both orders answer 400, and one of them has stored the first key by then. -/
theorem refused_patch_stores :
    ∃ first second : Body Int, first.entries.Perm second.entries ∧
      Atomic first.entries (fun _ => none) (handleSettingsPatch (fun _ => true) (some first)
        fun _ => none) ∧
      ¬ Atomic second.entries (fun _ => none) (handleSettingsPatch (fun _ => true) (some second)
        fun _ => none) := by
  refine ⟨⟨[unknown, known], by decide⟩, ⟨[known, unknown], by decide⟩, .swap _ _ _, ?_, ?_⟩
  · have result : handleSettingsPatch (fun _ => true) (some ⟨[unknown, known], by decide⟩)
        (fun _ => none) = (.invalidSetting (.unknown unknown.1), fun _ => none) := rfl
    rw [result]
    exact ⟨fun _ _ => rfl, fun _ done => nomatch done⟩
  · intro atomic
    have kept := atomic.refused (.unknown unknown.1) rfl
    exact absurd (congrFun kept known.1) (by decide)

end Vidsilo.Settings.Patch
