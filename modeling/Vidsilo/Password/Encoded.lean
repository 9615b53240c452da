import Mathlib.Tactic.Common
import Vidsilo.Password.Verify

/-!
# What an encoded hash says

A hash is decoded by what it is spelled of, without the loop. Verification goes by the decoded
parts (`verifyArgon_of_decodes`, `decodes_or_false`): it returns unless the parts have a cost that
argon2 does not take (`proper_iff`), and reads back what `Hash` has written (`verify_hash`).
-/
namespace Vidsilo.Password
open Library Library.SlashPath Library.Decimal

/-- A parameter of an encoded hash. -/
structure Setting where
  name : Text
  digits : Text
  n : UInt32
  plain : '=' ∉ name ∧ ',' ∉ name ∧ '$' ∉ name
  number : parseUint32 digits = some n

def Setting.text (s : Setting) : Text := s.name ++ '=' :: s.digits

/-- The last parameter of a name counts, and a missing one is zero. -/
def lastOf (name : Text) (settings : List Setting) : UInt32 :=
  ((settings.filter fun s => decide (s.name = name)).getLast?.map (·.n)).getD 0

structure Parts where
  settings : List Setting
  salt : Bytes
  key : Bytes

namespace Parts

def version (parts : Parts) : UInt32 := lastOf ['v'] parts.settings

def memory (parts : Parts) : UInt32 := lastOf ['m'] parts.settings

def time (parts : Parts) : UInt32 := lastOf ['t'] parts.settings

/-- The lower eight bits. -/
def threads (parts : Parts) : UInt8 := (lastOf ['p'] parts.settings).toUInt8

def keyLen (parts : Parts) : UInt32 := UInt32.ofNat parts.key.length

/-- The key that is derived for the parts. -/
def derived (argon : Argon2) (pw : Bytes) (parts : Parts) : Option Bytes :=
  argon.idKey pw parts.salt parts.time parts.memory parts.threads parts.keyLen

/-- What argon2 does not take. -/
def NoCost (argon : Argon2) (parts : Parts) : Prop :=
  parts.time = 0 ∨ parts.threads = 0 ∨ (parts.keyLen = 0 ∧ argon.emptyKey = false)

end Parts

/-- The text with these parts. -/
def spell (settings : List Setting) (salt key : Text) : Text :=
  '$' :: (argon2id ++ '$' ::
    ([','].intercalate (settings.map Setting.text) ++ '$' :: (salt ++ '$' :: key)))

structure Decodes (encoded : Text) (parts : Parts) : Prop where
  spelled : ∃ salt key, '$' ∉ salt ∧ '$' ∉ key ∧ Base64.decodeStd salt = some parts.salt ∧
    Base64.decodeStd key = some parts.key ∧ encoded = spell parts.settings salt key
  supported : (parts.version.toNat : Int) = version

theorem parseUint32_digits {digits : Text} {n : UInt32} (h : parseUint32 digits = some n) :
    ∀ c ∈ digits, c.isDigit = true := by
  obtain ⟨m, parsed, _⟩ := Option.bind_eq_some_iff.mp h
  unfold parseUint at parsed
  split at parsed
  · cases parsed
  · next isNumber =>
    intro c mem
    by_contra other
    exact isNumber (.inr (List.any_eq_true.mpr ⟨c, mem, by simpa using other⟩))

theorem Setting.not_mem_text {s : Setting} {c : Char} (noDigit : c.isDigit = false) (other : c ≠ '=')
    (plain : c ∉ s.name) : c ∉ s.text := by
  have number : c ∉ s.digits := by
    intro mem
    rw [parseUint32_digits s.number c mem] at noDigit
    cases noDigit
  simp [Setting.text, plain, number, other]

theorem comma_not_mem (s : Setting) : ',' ∉ s.text :=
  s.not_mem_text (by decide) (by decide) s.plain.2.1

theorem dollar_not_mem (s : Setting) : '$' ∉ s.text :=
  s.not_mem_text (by decide) (by decide) s.plain.2.2

theorem readParam_text (params : Params) (s : Setting) :
    readParam params s.text = some (params.set s.name s.n) := by
  obtain ⟨name, digits⟩ := cut_append s.plain.1 s.digits
  have mem : '=' ∈ s.text := List.mem_append_right _ List.mem_cons_self
  rw [readParam, if_pos mem, Setting.text, name, digits, List.tail_cons, s.number]
  rfl

theorem setting_of_readParam {params after : Params} {param : Text} (comma : ',' ∉ param)
    (dollar : '$' ∉ param) (h : readParam params param = some after) :
    ∃ s : Setting, s.text = param ∧ after = params.set s.name s.n := by
  unfold readParam at h
  split at h
  · next mem =>
    obtain ⟨name, digits, rfl, plain⟩ := List.eq_append_cons_of_mem mem
    obtain ⟨isName, isDigits⟩ := cut_append plain digits
    rw [isName, isDigits, List.tail_cons] at h
    obtain ⟨n, number, rfl⟩ := Option.map_eq_some_iff.mp h
    simp only [List.mem_append, not_or] at comma dollar
    exact ⟨⟨name, digits, n, ⟨plain, comma.1, dollar.1⟩, number⟩, rfl, rfl⟩
  · cases h

/-- What the loop makes of the parameters. -/
def settle (params : Params) (settings : List Setting) : Params :=
  settings.foldl (fun params s => params.set s.name s.n) params

theorem foldlM_texts (settings : List Setting) (params : Params) :
    (settings.map Setting.text).foldlM readParam params = some (settle params settings) := by
  induction settings generalizing params with
  | nil => rfl
  | cons s rest ih =>
    rw [List.map_cons, List.foldlM_cons, readParam_text]
    exact ih _

theorem settings_of_foldlM {texts : List Text} {params after : Params}
    (plain : ∀ param ∈ texts, ',' ∉ param ∧ '$' ∉ param)
    (h : texts.foldlM readParam params = some after) :
    ∃ settings : List Setting, settings.map Setting.text = texts ∧ after = settle params settings := by
  induction texts generalizing params with
  | nil =>
    cases h
    exact ⟨[], rfl, rfl⟩
  | cons param rest ih =>
    rw [List.foldlM_cons] at h
    obtain ⟨next, read, others⟩ := Option.bind_eq_some_iff.mp h
    obtain ⟨comma, dollar⟩ := plain param List.mem_cons_self
    obtain ⟨s, rfl, rfl⟩ := setting_of_readParam comma dollar read
    obtain ⟨settings, rfl, rfl⟩ := ih (fun t mem => plain t (List.mem_cons_of_mem _ mem)) others
    exact ⟨s :: settings, rfl, rfl⟩

theorem lastOf_concat (name : Text) (settings : List Setting) (s : Setting) :
    lastOf name (settings ++ [s]) = if s.name = name then s.n else lastOf name settings := by
  unfold lastOf
  rw [List.filter_append]
  split
  · next same => simp [same]
  · next other => simp [other]

theorem settle_eq (settings : List Setting) :
    settle ⟨0, 0, 0, 0⟩ settings =
      ⟨(lastOf ['v'] settings).toNat, lastOf ['m'] settings, lastOf ['t'] settings,
        lastOf ['p'] settings⟩ := by
  induction settings using List.reverseRecOn with
  | nil => rfl
  | append_singleton settings s ih =>
    have last : settle ⟨0, 0, 0, 0⟩ (settings ++ [s]) =
        (settle ⟨0, 0, 0, 0⟩ settings).set s.name s.n := by
      simp [settle]
    rw [last, ih]
    simp only [lastOf_concat, Params.set]
    split_ifs with isV isM isT isP
    all_goals simp_all

theorem splitOn_spell {settings : List Setting} {salt key : Text} (s : '$' ∉ salt) (k : '$' ∉ key) :
    (spell settings salt key).splitOn '$' =
      [[], argon2id, [','].intercalate (settings.map Setting.text), salt, key] := by
  have params : '$' ∉ [','].intercalate (settings.map Setting.text) := by
    apply not_mem_intercalate (by decide)
    intro text mem
    obtain ⟨setting, _, rfl⟩ := List.mem_map.mp mem
    exact dollar_not_mem setting
  have parts : ∀ part ∈ [[], argon2id, [','].intercalate (settings.map Setting.text), salt, key],
      '$' ∉ part := by
    have name : '$' ∉ argon2id := by decide
    simp [name, params, s, k]
  have joined : spell settings salt key =
      ['$'].intercalate [[], argon2id, [','].intercalate (settings.map Setting.text), salt, key] := by
    simp [spell, List.intercalate]
  rw [joined, List.splitOn_intercalate '$' parts (List.cons_ne_nil _ _)]

theorem verifyArgon_of_decodes {argon : Argon2} {encoded : Text} {parts : Parts} (pw : Bytes)
    (h : Decodes encoded parts) :
    verifyArgon argon pw encoded =
      (parts.derived argon pw).map fun got => decide (got = parts.key) := by
  obtain ⟨salt, key, s, k, isSalt, isKey, rfl⟩ := h.spelled
  have settings : parts.settings.map Setting.text ≠ [] := by
    intro none
    have supported := h.supported
    rw [Parts.version, List.map_eq_nil_iff.mp none] at supported
    exact absurd supported (by decide)
  have texts : ∀ text ∈ parts.settings.map Setting.text, ',' ∉ text := by
    intro text mem
    obtain ⟨setting, _, rfl⟩ := List.mem_map.mp mem
    exact comma_not_mem setting
  have version : (lastOf ['v'] parts.settings).toNat = Password.version := h.supported
  unfold verifyArgon
  rw [splitOn_spell s k]
  simp only [List.splitOn_intercalate ',' texts settings, foldlM_texts, settle_eq, version, isSalt,
    isKey]
  rfl

theorem decodes_or_false {encoded : Text} (isHash : isArgon encoded = true) (argon : Argon2)
    (pw : Bytes) :
    (∃ parts, Decodes encoded parts) ∨ verifyArgon argon pw encoded = some false := by
  obtain ⟨rest, rfl⟩ := List.isPrefixOf_iff_prefix.mp isHash
  have split_eq : ('$' :: (argon2id ++ ['$']) ++ rest).splitOn '$' =
      [] :: argon2id :: rest.splitOn '$' := by
    have first := List.splitOn_append_cons_self_of_not_mem
      (by decide : '$' ∉ ([] : Text)) (argon2id ++ '$' :: rest)
    have second := List.splitOn_append_cons_self_of_not_mem (by decide : '$' ∉ argon2id) rest
    rw [second] at first
    simpa using first
  unfold verifyArgon
  rw [split_eq]
  match isRest : rest.splitOn '$' with
  | [params, salt, key] =>
    have plain (part : Text) (mem : part ∈ [params, salt, key]) : '$' ∉ part :=
      not_mem_of_mem_splitOn (isRest ▸ mem)
    have whole : ['$'].intercalate [params, salt, key] = rest := isRest ▸ List.intercalate_splitOn '$'
    have joined : [','].intercalate (params.splitOn ',') = params := List.intercalate_splitOn ','
    have plainParam : ∀ param ∈ params.splitOn ',', ',' ∉ param ∧ '$' ∉ param := by
      intro param mem
      refine ⟨not_mem_of_mem_splitOn mem, fun dollar => plain params (by simp) ?_⟩
      rw [← joined]
      exact mem_intercalate mem dollar
    dsimp only
    split
    · exact .inr rfl
    · next read isRead =>
      obtain ⟨settings, texts, rfl⟩ := settings_of_foldlM plainParam isRead
      split
      · exact .inr rfl
      · next supported =>
        rw [settle_eq, not_not] at supported
        split
        · exact .inr rfl
        · next isSalt =>
          split
          · exact .inr rfl
          · next isKey =>
            have spelled : '$' :: (argon2id ++ ['$']) ++ rest = spell settings salt key := by
              rw [spell, texts, joined, ← whole]
              simp [List.intercalate]
            exact .inl ⟨⟨settings, _, _⟩, ⟨salt, key, plain salt (by simp), plain key (by simp),
              isSalt, isKey, spelled⟩, supported⟩
  | [] => exact .inr rfl
  | [_] => exact .inr rfl
  | [_, _] => exact .inr rfl
  | _ :: _ :: _ :: _ :: _ => exact .inr rfl

theorem isArgon_spell (settings : List Setting) (salt key : Text) :
    isArgon (spell settings salt key) = true := by
  simp [isArgon, spell, List.isPrefixOf_iff_prefix, List.prefix_append_right_inj]

/-- Verification returns, and what it takes for right has the derived key. -/
def Proper (argon : Argon2) (bcrypt : Text → Bytes → Bool) (pw : Bytes) (encoded : Text) : Prop :=
  ∃ right replace, verify argon bcrypt pw encoded = some (right, replace) ∧
    (isArgon encoded = true → right = true →
      ∃ parts, Decodes encoded parts ∧ parts.derived argon pw = some parts.key)

theorem derived_none_iff {argon : Argon2} {pw : Bytes} {parts : Parts} :
    parts.derived argon pw = none ↔ parts.NoCost argon := by
  have returns := argon.returns pw parts.salt parts.time parts.memory parts.threads parts.keyLen
  rw [← Option.not_isSome_iff_eq_none, Parts.derived, returns, decide_eq_true_eq, Parts.NoCost,
    UInt32.pos_iff_ne_zero, UInt8.pos_iff_ne_zero, UInt32.pos_iff_ne_zero]
  simp only [ne_eq, not_and_or, not_or, not_not, Bool.not_eq_true]

theorem proper_iff (argon : Argon2) (bcrypt : Text → Bytes → Bool) (pw : Bytes) (encoded : Text) :
    Proper argon bcrypt pw encoded ↔ ¬ ∃ parts, Decodes encoded parts ∧ parts.NoCost argon := by
  constructor
  · rintro ⟨right, replace, returned, _⟩ ⟨parts, decodes, noCost⟩
    obtain ⟨salt, key, _, _, _, _, isSpelled⟩ := decodes.spelled
    have isHash : isArgon encoded = true := isSpelled ▸ isArgon_spell ..
    rw [verify, if_pos isHash, verifyArgon_of_decodes pw decodes, derived_none_iff.mpr noCost] at returned
    cases returned
  · intro cost
    unfold Proper verify
    by_cases isHash : isArgon encoded = true
    · rw [if_pos isHash]
      rcases decodes_or_false isHash argon pw with ⟨parts, decodes⟩ | garbage
      · obtain ⟨got, isDerived⟩ := Option.ne_none_iff_exists'.mp fun none =>
          cost ⟨parts, decodes, derived_none_iff.mp none⟩
        refine ⟨_, _, by rw [verifyArgon_of_decodes pw decodes, isDerived]; rfl, fun _ same => ?_⟩
        exact ⟨parts, decodes, of_decide_eq_true same ▸ isDerived⟩
      · exact ⟨false, false, by rw [garbage]; rfl, fun _ => nofun⟩
    · rw [if_neg isHash]
      split
      · exact ⟨_, _, rfl, fun no => absurd no isHash⟩
      · exact ⟨_, _, rfl, fun no => absurd no isHash⟩

/-- A function with the panics of argon2. -/
def standIn : Argon2 where
  idKey := fun _ _ time _ threads keyLen =>
    if 0 < time ∧ 0 < threads ∧ 0 < keyLen then some (List.replicate keyLen.toNat 0) else none
  emptyKey := false
  returns := by
    intro password salt time memory threads keyLen
    split_ifs with cost
    · simp [cost]
    · simpa using cost
  length := by
    intro password salt time memory threads keyLen key derived
    split_ifs at derived
    cases derived
    exact List.length_replicate

/-- No time is given. -/
theorem garbage_panics :
    verify standIn (fun _ _ => false) [] "$argon2id$v=19,m=65536,p=4$c2FsdA$a2V5".toList = none ∧
      ¬ Proper standIn (fun _ _ => false) [] "$argon2id$v=19,m=65536,p=4$c2FsdA$a2V5".toList := by
  have panics : verify standIn (fun _ _ => false) []
      "$argon2id$v=19,m=65536,p=4$c2FsdA$a2V5".toList = none := by
    decide +kernel
  refine ⟨panics, ?_⟩
  rintro ⟨right, replace, returned, _⟩
  rw [panics] at returned
  cases returned

def written : List Setting :=
  [⟨['v'], "19".toList, 19, by decide, by decide +kernel⟩,
    ⟨['m'], "65536".toList, argonMemory, by decide, by decide +kernel⟩,
    ⟨['t'], "1".toList, argonTime, by decide, by decide +kernel⟩,
    ⟨['p'], "4".toList, 4, by decide, by decide +kernel⟩]

theorem parameters_eq : [','].intercalate (written.map Setting.text) = parameters := by
  decide +kernel

theorem format_eq (salt key : Bytes) :
    format salt key = spell written (Base64.encodeStd salt) (Base64.encodeStd key) := by
  rw [spell, parameters_eq, format]

theorem dollar_not_mem_encodeStd (bytes : Bytes) : '$' ∉ Base64.encodeStd bytes :=
  Base64.not_mem_encodeStd bytes (by decide)

theorem decodes_format (salt key : Bytes) : Decodes (format salt key) ⟨written, salt, key⟩ where
  spelled := ⟨Base64.encodeStd salt, Base64.encodeStd key, dollar_not_mem_encodeStd salt,
    dollar_not_mem_encodeStd key, Base64.decodeStd_encodeStd salt, Base64.decodeStd_encodeStd key,
    format_eq salt key⟩
  supported := by
    change ((lastOf ['v'] written).toNat : Int) = version
    decide +kernel

theorem verify_format {argon : Argon2} {salt key : Bytes} (length : key.length = argonKeyLen.toNat)
    (bcrypt : Text → Bytes → Bool) (pw : Bytes) :
    verify argon bcrypt pw (format salt key) =
      (argon.idKey pw salt argonTime argonMemory argonThreads argonKeyLen).map
        fun got => (decide (got = key), false) := by
  have isHash : isArgon (format salt key) = true := format_eq salt key ▸ isArgon_spell ..
  have keyLen : UInt32.ofNat key.length = argonKeyLen := by
    rw [length, UInt32.ofNat_toNat]
  have derived : Parts.derived argon pw ⟨written, salt, key⟩ =
      argon.idKey pw salt argonTime argonMemory argonThreads argonKeyLen := by
    rw [Parts.derived, Parts.keyLen, keyLen]
    rfl
  rw [verify, if_pos isHash, verifyArgon_of_decodes pw (decodes_format salt key), derived,
    Option.map_map]
  rfl

theorem verify_hash (argon : Argon2) (bcrypt : Text → Bytes → Bool) (pw salt : Bytes) :
    (∃ key encoded,
      argon.idKey pw salt argonTime argonMemory argonThreads argonKeyLen = some key ∧
      hash argon pw (Except.ok salt : Except Unit Bytes) = some (.ok encoded) ∧
      verify argon bcrypt pw encoded = some (true, false) ∧
      ∀ pw2, ∃ right, verify argon bcrypt pw2 encoded = some (right, false) ∧
        (right = true ↔
          argon.idKey pw2 salt argonTime argonMemory argonThreads argonKeyLen = some key)) ∧
    ∀ salt key : Bytes,
      (format salt key).splitOn '$' =
        [[], argon2id, parameters, Base64.encodeStd salt, Base64.encodeStd key] ∧
      parameters.splitOn ',' =
        ["v=19".toList, "m=65536".toList, "t=1".toList, "p=4".toList] ∧
      Base64.decodeStd (Base64.encodeStd salt) = some salt ∧
      Base64.decodeStd (Base64.encodeStd key) = some key := by
  have returns (pw : Bytes) :
      ∃ key, argon.idKey pw salt argonTime argonMemory argonThreads argonKeyLen = some key := by
    have isSome := argon.returns pw salt argonTime argonMemory argonThreads argonKeyLen
    exact Option.isSome_iff_exists.mp (isSome.trans (decide_eq_true ⟨by decide, by decide, .inl (by decide)⟩))
  constructor
  · obtain ⟨key, derived⟩ := returns pw
    have length := argon.length _ _ _ _ _ _ _ derived
    refine ⟨key, format salt key, derived, ?_, ?_, ?_⟩
    · rw [hash, derived]
      rfl
    · rw [verify_format length, derived]
      simp
    · intro pw2
      obtain ⟨got, other⟩ := returns pw2
      refine ⟨decide (got = key), ?_, ?_⟩
      · rw [verify_format length, other]
        rfl
      · rw [decide_eq_true_eq, other, Option.some.injEq]
  · intro salt key
    refine ⟨?_, by decide +kernel, Base64.decodeStd_encodeStd salt, Base64.decodeStd_encodeStd key⟩
    rw [format_eq, splitOn_spell (dollar_not_mem_encodeStd salt) (dollar_not_mem_encodeStd key),
      parameters_eq]

theorem verify_hash_standIn : ∃ encoded,
    hash standIn [1] (Except.ok [2, 3] : Except Unit Bytes) = some (.ok encoded) ∧
      verify standIn (fun _ _ => false) [1] encoded = some (true, false) := by
  obtain ⟨⟨_, encoded, _, stored, verified, _⟩, _⟩ := verify_hash standIn (fun _ _ => false) [1] [2, 3]
  exact ⟨encoded, stored, verified⟩

end Vidsilo.Password
