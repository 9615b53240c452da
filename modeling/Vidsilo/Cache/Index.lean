import Mathlib.Algebra.BigOperators.Group.List.Basic
import Mathlib.Algebra.Ring.Int.Defs
import Vidsilo.Storage.Drivers

/-!
# The index of the disk cache

Source: internal/store/cache.go:59-122, 209-215 (`insertLocked`, `evictLocked`,
`touchLocked`, `removeLocked`). The map and the list are kept apart, as in the source:
`entries` are the keys of the map, `lru` the list with its sizes. Sizes are integers
without overflow.
-/
namespace Vidsilo.Cache.Index
open Library.SlashPath Storage.Drivers

def sizes (entries : List CacheEntry) : Int := (entries.map CacheEntry.size).sum

def keys (entries : List CacheEntry) : List Text := entries.map CacheEntry.key

/-- What the loop of `evictLocked` removes, oldest first; `size` is the total so far. -/
def overflow (maxSize : Int) : List CacheEntry → Int → List CacheEntry
  | [], _ => []
  | e :: rest, size => if size > maxSize then e :: overflow maxSize rest (size - e.size) else []

/-- The new index, and the keys whose files are to be removed. -/
def evictLocked (maxSize : Int) (c : Cache) : Cache × List Text :=
  let dropped := overflow maxSize c.lru.reverse c.size
  ({ c with
      lru := c.lru.take (c.lru.length - dropped.length)
      entries := c.entries.filter (· ∉ keys dropped)
      size := c.size - sizes dropped }, keys dropped)

/-- The size of an entry that is there, and the index with the entry moved to the front. -/
def moveToFront (c : Cache) (key : Text) : Option Int × Cache :=
  if key ∈ c.entries then
    match c.lru.find? (·.key = key) with
    | some e => (some e.size, { c with lru := e :: c.lru.eraseP (·.key = key) })
    | none => (some 0, c)
  else (none, c)

/-- An entry that is there gets its new size, which the total does not. -/
def insertLocked (maxSize : Int) (c : Cache) (key : Text) (size : Int) : Cache × List Text :=
  if key ∈ c.entries then
    ({ c with lru := ⟨key, size⟩ :: c.lru.eraseP (·.key = key) }, [])
  else
    evictLocked maxSize
      { c with lru := ⟨key, size⟩ :: c.lru, entries := key :: c.entries, size := c.size + size }

/-- The size on record for a key. -/
def recorded (c : Cache) (key : Text) : Option Int :=
  (c.lru.find? (·.key = key)).map CacheEntry.size

/-- The total is the sum of the entries' sizes, and the map and the list have the same
keys, each once. -/
structure Consistent (c : Cache) : Prop where
  size : c.size = sizes c.lru
  same : (keys c.lru).Perm c.entries
  unique : c.entries.Nodup

/-- Within the limit, and no size is negative. -/
structure Bounded (maxSize : Int) (c : Cache) : Prop extends Consistent c where
  bound : c.size ≤ maxSize
  nonneg : ∀ e ∈ c.lru, 0 ≤ e.size

theorem moveToFront_indexed {c : Cache} {key : Text} (mem : key ∈ c.entries) :
    ∃ size, (moveToFront c key).1 = some size := by
  unfold moveToFront
  rw [if_pos mem]
  split
  · next e _ => exact ⟨e.size, rfl⟩
  · exact ⟨0, rfl⟩

theorem moveToFront_absent {c : Cache} {key : Text} (absent : key ∉ c.entries) :
    moveToFront c key = (none, c) := if_neg absent

theorem overflow_isPrefix (maxSize : Int) (l : List CacheEntry) (size : Int) :
    overflow maxSize l size <+: l := by
  induction l generalizing size with
  | nil => exact List.prefix_rfl
  | cons e rest ih =>
    unfold overflow
    split
    · exact (List.prefix_cons_inj e).mpr (ih _)
    · exact List.nil_prefix

/-- The loop stops when the rest fits, or when nothing is left. -/
theorem overflow_fits (maxSize : Int) (l : List CacheEntry) (size : Int) :
    size - sizes (overflow maxSize l size) ≤ maxSize ∨ overflow maxSize l size = l := by
  induction l generalizing size with
  | nil => exact .inr rfl
  | cons e rest ih =>
    unfold overflow
    split
    · rcases ih (size - e.size) with fits | all
      · left
        simp only [sizes, List.map_cons, List.sum_cons] at fits ⊢
        omega
      · exact .inr (by rw [all])
    · next fits =>
      left
      simp only [sizes, List.map_nil, List.sum_nil]
      omega

/-- It removes no more than needed. -/
theorem overflow_least {maxSize : Int} {l older : List CacheEntry} {size : Int}
    (h : older <+: l) (fits : size - sizes older ≤ maxSize) :
    overflow maxSize l size <+: older := by
  induction l generalizing older size with
  | nil => exact List.nil_prefix
  | cons e rest ih =>
    unfold overflow
    split
    · next exceeds =>
      cases older with
      | nil =>
        simp only [sizes, List.map_nil, List.sum_nil] at fits
        omega
      | cons o older =>
        obtain ⟨rfl, inner⟩ := List.cons_prefix_cons.mp h
        apply (List.prefix_cons_inj _).mpr
        apply ih inner
        simp only [sizes, List.map_cons, List.sum_cons] at fits ⊢
        omega
    · exact List.nil_prefix

/-- The list is what stays and, behind it, what is removed. -/
theorem evictLocked_split (maxSize : Int) (c : Cache) :
    c.lru = (evictLocked maxSize c).1.lru ++
      (overflow maxSize c.lru.reverse c.size).reverse := by
  obtain ⟨rest, split⟩ := overflow_isPrefix maxSize c.lru.reverse c.size
  have whole : c.lru =
      rest.reverse ++ (overflow maxSize c.lru.reverse c.size).reverse := by
    rw [← List.reverse_append, split, List.reverse_reverse]
  have stays : c.lru.take (c.lru.length - (overflow maxSize c.lru.reverse c.size).length) =
      rest.reverse := by
    have length : c.lru.length - (overflow maxSize c.lru.reverse c.size).length =
        rest.reverse.length := by
      have total := congrArg List.length split
      simp only [List.length_append, List.length_reverse] at total ⊢
      omega
    rw [length]
    conv => lhs; rw [whole]
    exact List.take_left
  simp only [evictLocked, stays]
  exact whole

theorem sizes_append (a b : List CacheEntry) : sizes (a ++ b) = sizes a + sizes b := by
  simp [sizes]

theorem sizes_reverse (a : List CacheEntry) : sizes a.reverse = sizes a := by
  simp [sizes, List.sum_reverse]

theorem keys_append (a b : List CacheEntry) : keys (a ++ b) = keys a ++ keys b := by
  simp [keys]

theorem mem_keys_reverse (a : List CacheEntry) (k : Text) : k ∈ keys a.reverse ↔ k ∈ keys a := by
  simp [keys]

/-- The keys left in the map are those left in the list. -/
theorem filter_keys {stays dropped : List CacheEntry}
    (distinct : (keys (stays ++ dropped.reverse)).Nodup) :
    (keys (stays ++ dropped.reverse)).filter (· ∉ keys dropped) = keys stays := by
  rw [keys_append] at distinct ⊢
  have apart := (List.nodup_append.mp distinct).2.2
  have kept : (keys stays).filter (· ∉ keys dropped) = keys stays := by
    apply List.filter_eq_self.mpr
    intro k hk
    have out : k ∉ keys dropped := fun inside =>
      apart k hk k ((mem_keys_reverse dropped k).mpr inside) rfl
    simpa using out
  have gone : (keys dropped.reverse).filter (· ∉ keys dropped) = [] := by
    apply List.filter_eq_nil_iff.mpr
    intro k hk
    simpa using (mem_keys_reverse dropped k).mp hk
  rw [List.filter_append, kept, gone, List.append_nil]

theorem consistent_evictLocked {c : Cache} (maxSize : Int) (h : Consistent c) :
    Consistent (evictLocked maxSize c).1 := by
  have split := evictLocked_split maxSize c
  generalize hd : overflow maxSize c.lru.reverse c.size = dropped at split
  have entries : (evictLocked maxSize c).1.entries = c.entries.filter (· ∉ keys dropped) := by
    rw [← hd]
    rfl
  have total : (evictLocked maxSize c).1.size = c.size - sizes dropped := by
    rw [← hd]
    rfl
  have distinct : (keys c.lru).Nodup := h.same.nodup_iff.mpr h.unique
  constructor
  · have sum := congrArg sizes split
    rw [sizes_append, sizes_reverse] at sum
    rw [total, h.size]
    omega
  · rw [split] at distinct
    have stay := filter_keys distinct
    rw [← split] at stay
    rw [entries, ← stay]
    exact h.same.filter _
  · rw [entries]
    exact h.unique.filter _

theorem evictLocked_bound {c : Cache} {maxSize : Int} (positive : 0 < maxSize)
    (h : Consistent c) : (evictLocked maxSize c).1.size ≤ maxSize := by
  change c.size - sizes (overflow maxSize c.lru.reverse c.size) ≤ maxSize
  rcases overflow_fits maxSize c.lru.reverse c.size with fits | all
  · exact fits
  · rw [all, sizes_reverse, ← h.size]
    omega

/-- An entry that is in the list stands alone under its key. -/
theorem perm_front {lru : List CacheEntry} {e : CacheEntry} (mem : e ∈ lru)
    (distinct : (keys lru).Nodup) : lru.Perm (e :: lru.eraseP (·.key = e.key)) := by
  induction lru with
  | nil => cases mem
  | cons f rest ih =>
    rw [keys, List.map_cons, List.nodup_cons] at distinct
    by_cases here : f.key = e.key
    · have same : f = e := by
        rcases List.mem_cons.mp mem with rfl | later
        · rfl
        · exact absurd (here ▸ List.mem_map_of_mem later) distinct.1
      simp [same]
    · have later : e ∈ rest := by
        rcases List.mem_cons.mp mem with rfl | later
        · exact absurd rfl here
        · exact later
      have inner := ih later distinct.2
      rw [List.eraseP_cons_of_neg (by simpa using here)]
      exact (inner.cons f).trans (.swap e f _)

theorem find_key {lru : List CacheEntry} {key : Text} {e : CacheEntry}
    (h : lru.find? (·.key = key) = some e) : e ∈ lru ∧ e.key = key :=
  ⟨List.mem_of_find?_eq_some h, by simpa using List.find?_some h⟩

theorem Consistent.find {c : Cache} (h : Consistent c) {key : Text} (mem : key ∈ c.entries) :
    ∃ e, c.lru.find? (·.key = key) = some e ∧
      c.lru.Perm (e :: c.lru.eraseP (·.key = key)) := by
  obtain ⟨e, inList, isKey⟩ := List.mem_map.mp (h.same.mem_iff.mpr mem)
  obtain ⟨f, found⟩ : ∃ f, c.lru.find? (·.key = key) = some f := by
    apply Option.isSome_iff_exists.mp
    rw [List.find?_isSome]
    exact ⟨e, inList, by simpa using isKey⟩
  obtain ⟨inList', isKey'⟩ := find_key found
  refine ⟨f, found, ?_⟩
  rw [← isKey']
  exact perm_front inList' (h.same.nodup_iff.mpr h.unique)

theorem sizes_perm {a b : List CacheEntry} (h : a.Perm b) : sizes a = sizes b :=
  (h.map CacheEntry.size).sum_eq

theorem consistent_moveToFront {c : Cache} (key : Text) (h : Consistent c) :
    Consistent (moveToFront c key).2 := by
  unfold moveToFront
  split
  · split
    · next e found =>
      have mem : key ∈ c.entries := by assumption
      obtain ⟨f, found', perm⟩ := h.find mem
      rw [found, Option.some.injEq] at found'
      subst found'
      exact ⟨h.size.trans (sizes_perm perm), (perm.map CacheEntry.key).symm.trans h.same, h.unique⟩
    · exact h
  · exact h

theorem consistent_removeLocked {c : Cache} (key : Text) (h : Consistent c) :
    Consistent (c.removeLocked key) := by
  unfold Cache.removeLocked
  split
  · next mem =>
    obtain ⟨e, found, perm⟩ := h.find mem
    have isKey : e.key = key := (find_key found).2
    constructor
    · have total := sizes_perm perm
      simp only [sizes, List.map_cons, List.sum_cons] at total
      simp only [found, Option.map_some, Option.getD_some, h.size, sizes]
      omega
    · have rest := (perm.map CacheEntry.key).symm.trans h.same
      rw [List.map_cons, isKey] at rest
      have both : (key :: keys (c.lru.eraseP (·.key = key))).Perm (key :: c.entries.erase key) :=
        rest.trans (List.perm_cons_erase mem)
      exact both.cons_inv
    · exact h.unique.erase key
  · exact h

/-- An insertion that does not change the size of an entry. -/
theorem consistent_insertLocked {c : Cache} {maxSize : Int} {key : Text} {size : Int}
    (h : Consistent c) (fits : key ∈ c.entries → recorded c key = some size) :
    Consistent (insertLocked maxSize c key size).1 := by
  unfold insertLocked
  split
  · next mem =>
    obtain ⟨e, found, perm⟩ := h.find mem
    have same : (⟨key, size⟩ : CacheEntry) = e := by
      have size' : e.size = size := by simpa [recorded, found] using fits mem
      rw [← (find_key found).2, ← size']
    rw [← same] at perm
    exact ⟨h.size.trans (sizes_perm perm), (perm.map CacheEntry.key).symm.trans h.same, h.unique⟩
  · next absent =>
    apply consistent_evictLocked
    refine ⟨?_, h.same.cons key, List.nodup_cons.mpr ⟨absent, h.unique⟩⟩
    simp only [h.size, sizes, List.map_cons, List.sum_cons]
    omega

theorem mem_insertLocked {c : Cache} {maxSize : Int} {key k : Text} {size : Int}
    (h : k ∈ (insertLocked maxSize c key size).1.entries) : k = key ∨ k ∈ c.entries := by
  unfold insertLocked at h
  split at h
  · exact .inr h
  · simp only [evictLocked, List.mem_filter, List.mem_cons] at h
    exact h.1

/-- What is evicted leaves the index. -/
theorem not_mem_evicted {c : Cache} {maxSize : Int} {key k : Text} {size : Int}
    (h : k ∈ (insertLocked maxSize c key size).1.entries) :
    k ∉ (insertLocked maxSize c key size).2 := by
  unfold insertLocked at h ⊢
  split at h
  · next mem => simp [mem]
  · next absent =>
    rw [if_neg absent]
    simp only [evictLocked, List.mem_filter] at h ⊢
    simpa using h.2

theorem mem_evicted {c : Cache} {maxSize : Int} {key k : Text} {size : Int}
    (h : k ∈ (insertLocked maxSize c key size).2) : k = key ∨ ∃ e ∈ c.lru, e.key = k := by
  unfold insertLocked at h
  split at h
  · cases h
  · obtain ⟨e, dropped, rfl⟩ := List.mem_map.mp h
    have inList := (overflow_isPrefix _ _ _).subset dropped
    rcases List.mem_cons.mp (List.mem_reverse.mp inList) with rfl | old
    · exact .inl rfl
    · exact .inr ⟨e, old, rfl⟩

theorem lru_insertLocked {c : Cache} {maxSize : Int} {key : Text} {size : Int} {e : CacheEntry}
    (h : e ∈ (insertLocked maxSize c key size).1.lru) : e.key = key ∨ e ∈ c.lru := by
  unfold insertLocked at h
  split at h
  · rcases List.mem_cons.mp h with rfl | old
    · exact .inl rfl
    · exact .inr (List.mem_of_mem_eraseP old)
  · rcases List.mem_cons.mp (List.mem_of_mem_take h) with rfl | old
    · exact .inl rfl
    · exact .inr old

theorem lru_moveToFront {c : Cache} {key : Text} {e : CacheEntry}
    (h : e ∈ (moveToFront c key).2.lru) : e ∈ c.lru := by
  unfold moveToFront at h
  split at h
  · split at h
    · next f found =>
      rcases List.mem_cons.mp h with rfl | rest
      · exact (find_key found).1
      · exact List.mem_of_mem_eraseP rest
    · exact h
  · exact h

theorem lru_removeLocked {c : Cache} {key : Text} {e : CacheEntry}
    (h : e ∈ (c.removeLocked key).lru) : e ∈ c.lru := by
  unfold Cache.removeLocked at h
  split at h
  · exact List.mem_of_mem_eraseP h
  · exact h

theorem nodup_insertLocked {c : Cache} (maxSize : Int) (key : Text) (size : Int)
    (h : c.entries.Nodup) : (insertLocked maxSize c key size).1.entries.Nodup := by
  unfold insertLocked
  split
  · exact h
  · next absent =>
    have grown : (key :: c.entries).Nodup := List.nodup_cons.mpr ⟨absent, h⟩
    simp only [evictLocked]
    exact grown.filter _

theorem nodup_removeLocked {c : Cache} (key : Text) (h : c.entries.Nodup) :
    (c.removeLocked key).entries.Nodup := by
  unfold Cache.removeLocked
  split
  · exact h.erase key
  · exact h

theorem not_mem_removeLocked {c : Cache} {key : Text} (h : c.entries.Nodup) :
    key ∉ (c.removeLocked key).entries := by
  unfold Cache.removeLocked
  split
  · exact h.not_mem_erase
  · next absent => exact absent

theorem bounded_moveToFront {c : Cache} {maxSize : Int} (key : Text) (h : Bounded maxSize c) :
    Bounded maxSize (moveToFront c key).2 := by
  refine ⟨consistent_moveToFront key h.toConsistent, ?_, ?_⟩
  · unfold moveToFront
    split
    · split
      · exact h.bound
      · exact h.bound
    · exact h.bound
  · exact fun e mem => h.nonneg e (lru_moveToFront mem)

theorem bounded_removeLocked {c : Cache} {maxSize : Int} (key : Text) (h : Bounded maxSize c) :
    Bounded maxSize (c.removeLocked key) := by
  refine ⟨consistent_removeLocked key h.toConsistent, ?_, ?_⟩
  · unfold Cache.removeLocked
    split
    · next mem =>
      obtain ⟨e, found, _⟩ := h.toConsistent.find mem
      have size := h.nonneg e (find_key found).1
      have bound := h.bound
      simp only [found, Option.map_some, Option.getD_some]
      omega
    · exact h.bound
  · exact fun e mem => h.nonneg e (lru_removeLocked mem)

theorem bounded_insertLocked {c : Cache} {maxSize : Int} {key : Text} {size : Nat}
    (positive : 0 < maxSize) (h : Bounded maxSize c)
    (fits : key ∈ c.entries → recorded c key = some (size : Int)) :
    Bounded maxSize (insertLocked maxSize c key size).1 := by
  have consistent : Consistent (insertLocked maxSize c key size).1 :=
    consistent_insertLocked h.toConsistent fits
  unfold insertLocked at consistent ⊢
  split
  · refine ⟨by simpa [*] using consistent, h.bound, ?_⟩
    intro e mem
    rcases List.mem_cons.mp mem with rfl | rest
    · exact Int.natCast_nonneg size
    · exact h.nonneg e (List.mem_of_mem_eraseP rest)
  · next absent =>
    rw [if_neg absent] at consistent
    have grown : Consistent { c with
        lru := ⟨key, size⟩ :: c.lru, entries := key :: c.entries, size := c.size + size } := by
      refine ⟨?_, h.same.cons key, List.nodup_cons.mpr ⟨absent, h.unique⟩⟩
      simp only [h.size, sizes, List.map_cons, List.sum_cons]
      omega
    refine ⟨consistent, evictLocked_bound positive grown, ?_⟩
    intro e mem
    rcases List.mem_cons.mp (List.mem_of_mem_take mem) with rfl | rest
    · exact Int.natCast_nonneg size
    · exact h.nonneg e rest

end Vidsilo.Cache.Index
