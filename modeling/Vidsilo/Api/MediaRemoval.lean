import Vidsilo.Storage.Drivers

/-!
# Removing the media of an entry or of a flavor

Source: internal/api/entries.go:337-356 (`removeFlavor`), 402-453
(`handleEntryDelete`). Both ask `Store.List` for a prefix without a trailing slash
and delete every key reported. What a driver loses is therefore decided by what a
prefix means to the drivers below the wrappers.

Only the effect on stored keys is modelled: spool files, the audit trail and the
catalog row are not storage keys. `rowDeleted` is the outcome of the row delete.
-/
namespace Vidsilo.Api.MediaRemoval
open Library.SlashPath Storage.Keys Storage.Drivers

/-- List a prefix, then delete every reported key. -/
def deleteListed (listPrefix : Text) (s : Store) : Store :=
  (s.list listPrefix).foldl (fun s key => s.delete key) s

/-- The prefix text `"entries/" + prefix` of `handleEntryDelete`. -/
def entryPrefix (id : Int) : Text := "entries/".toList ++ Library.Decimal.formatInt id

def deleteMedia (id : Int) (s : Store) : Store :=
  (deleteListed (entryPrefix id) s).modifyLocalOf (·.removeTree (entryPrefix id))

/-- Two passes around the row delete; a failed row delete answers 500 after the first. -/
def handleEntryDelete (id : Int) (rowDeleted : Bool) (s : Store) : Store :=
  let first := deleteMedia id s
  if rowDeleted then deleteMedia id first else first

/-- `removeFlavor` after the flavor row was read; the tree is removed for a bare
local store only. -/
def removeFlavor (id : Int) (name : Text) (s : Store) : Store :=
  (deleteListed (flavorDir id name) s).modifyBare (·.removeTree (flavorDir id name))

/-- The first two components are `entries` and the decimal id. -/
def OfEntry (id : Int) (key : Text) : Prop :=
  [entriesRoot, Library.Decimal.formatInt id] <+: components key

/-- The key lies below `entries/{id}/flavors/{name}/`. -/
def BelowFlavor (id : Int) (name key : Text) : Prop :=
  entryPrefix id ++ "/flavors/".toList ++ name ++ ['/'] <+: key

/-- Driver by driver: whatever is gone afterwards is `own`. -/
def LosesOnly (own : Text → Prop) (s s' : Store) : Prop :=
  List.Forall₂ (fun d d' : Driver =>
    ∀ key, d.lookup key ≠ none → d'.lookup key = none → own key) s.drivers s'.drivers

/-- Driver by driver: the keys that are `other` are stored unchanged. -/
def Keeps (other : Text → Prop) (s s' : Store) : Prop :=
  List.Forall₂ (fun d d' : Driver => ∀ key, other key → d'.lookup key = d.lookup key)
    s.drivers s'.drivers

def EntryFrame (id : Int) (s s' : Store) : Prop :=
  LosesOnly (OfEntry id) s s' ∧ Keeps (fun key => ∃ id', id' ≠ id ∧ OfEntry id' key) s s'

/-- `names` are the names in the flavors table. -/
def FlavorFrame (id : Int) (names : List Text) (name : Text) (s s' : Store) : Prop :=
  LosesOnly (BelowFlavor id name) s s' ∧
  Keeps (fun key => (∃ id', id' ≠ id ∧ OfEntry id' key) ∨
    ∃ other ∈ names, other ≠ name ∧ BelowFlavor id other key) s s'

/-- From `d` to `d'` the keys in `lower` are cleared, nothing but keys in `upper`
is lost, and the driver itself stays the same kind of driver. -/
structure Pass (lower upper : Text → Prop) (d d' : Driver) : Prop where
  resolve : d'.resolve = d.resolve
  list : ∀ listPrefix, d'.list listPrefix ⊆ d.list listPrefix
  cleared : ∀ key, lower key → d'.lookup key = none
  frame : ∀ key, d'.lookup key = d.lookup key ∨ (d'.lookup key = none ∧ upper key)

theorem Pass.trans {lower lower' upper upper' : Text → Prop} {d d' d'' : Driver}
    (h : Pass lower upper d d') (h' : Pass lower' upper' d' d'') :
    Pass (fun key => lower key ∨ lower' key) (fun key => upper key ∨ upper' key) d d'' where
  resolve := h'.resolve.trans h.resolve
  list listPrefix := List.Subset.trans (h'.list listPrefix) (h.list listPrefix)
  cleared key hkey := by
    rcases hkey with hkey | hkey
    · rcases h'.frame key with he | ⟨he, _⟩
      · rw [he, h.cleared key hkey]
      · exact he
    · exact h'.cleared key hkey
  frame key := by
    rcases h'.frame key with he | ⟨he, hu⟩
    · rcases h.frame key with he' | ⟨he', hu⟩
      · exact Or.inl (he.trans he')
      · exact Or.inr ⟨he.trans he', Or.inl hu⟩
    · exact Or.inr ⟨he, Or.inr hu⟩

theorem Pass.imp {lower lower' upper upper' : Text → Prop} {d d' : Driver}
    (h : Pass lower upper d d') (hl : ∀ key, lower' key → lower key)
    (hu : ∀ key, upper key → upper' key) : Pass lower' upper' d d' where
  resolve := h.resolve
  list := h.list
  cleared key hkey := h.cleared key (hl key hkey)
  frame key := (h.frame key).imp_right (And.imp_right (hu key))

theorem list_keep_subset (l : Local) (keep : FilePath → Bool) (listPrefix : Text) :
    (l.keep keep).list listPrefix ⊆ l.list listPrefix :=
  ((((List.filter_sublist (p := fun f => keep f.1) (l := l.files.entries)).map Sigma.fst).filter
    fun p => decide (cleanComponents true (l.root ++ components (trimSlash listPrefix)) <+:
      l.root ++ p)).map joinSlash).subset

theorem list_delete_subset (key : Text) (d : Driver) (listPrefix : Text) :
    (d.delete key).list listPrefix ⊆ d.list listPrefix := by
  cases d with
  | disk l =>
    simp only [Driver.delete, Local.delete, Driver.list]
    split
    · exact List.Subset.refl _
    · exact list_keep_subset l _ listPrefix
  | bucket objects =>
    intro k hk
    simp only [Driver.delete, Driver.list, Bucket.list, List.mem_filter] at hk ⊢
    exact ⟨AList.mem_keys.mp (AList.mem_erase.mp (AList.mem_keys.mpr hk.1)).2, hk.2⟩

theorem list_removeTree_subset (treePrefix : Text) (d : Driver) (listPrefix : Text) :
    (d.removeTree treePrefix).list listPrefix ⊆ d.list listPrefix := by
  cases d with
  | disk l =>
    simp only [Driver.removeTree, Local.removeTree, Driver.list]
    split
    · exact List.Subset.refl _
    · exact list_keep_subset l _ listPrefix
  | bucket objects => exact List.Subset.refl _

/-- Deleting a list of keys: the reached keys go and nothing else does. -/
theorem deleteAll_pass (keys : List Text) (d : Driver) :
    Pass (fun stored => ∃ key ∈ keys, d.resolve key = some stored)
      (fun stored => ∃ key ∈ keys, d.resolve key = some stored) d
      (keys.foldl (fun d key => d.delete key) d) where
  resolve := by
    induction keys generalizing d with
    | nil => rfl
    | cons key rest ih => rw [List.foldl_cons, ih, Driver.resolve_delete]
  list listPrefix := by
    induction keys generalizing d with
    | nil => exact List.Subset.refl _
    | cons key rest ih =>
      rw [List.foldl_cons]
      exact List.Subset.trans (ih (d.delete key)) (list_delete_subset key d listPrefix)
  cleared stored h := by rw [Driver.lookup_deleteAll, if_pos h]
  frame stored := by
    rw [Driver.lookup_deleteAll]
    by_cases h : ∃ key ∈ keys, d.resolve key = some stored
    · exact Or.inr ⟨if_pos h, h⟩
    · exact Or.inl (if_neg h)

/-- Keys of the files in the directory that a tree prefix resolves to. -/
def InTree (treePrefix stored : Text) : Prop :=
  ∃ p, Local.pathForKey (trimSlash treePrefix) = some p ∧ p <+: components stored

theorem removeTree_pass (treePrefix : Text) (d : Driver) :
    Pass (fun stored => (∃ l, d = .disk l) ∧ InTree treePrefix stored) (InTree treePrefix) d
      (d.removeTree treePrefix) where
  resolve := by cases d <;> rfl
  list := list_removeTree_subset treePrefix d
  cleared := by
    rintro stored ⟨⟨l, rfl⟩, p, hp, hpre⟩
    simp only [Driver.removeTree, Driver.lookup, Local.removeTree, hp, lookup_keep]
    simp [hpre]
  frame stored := by
    by_cases h : (d.removeTree treePrefix).lookup stored = d.lookup stored
    · exact Or.inl h
    · exact Or.inr (Driver.lookup_removeTree d treePrefix stored h)

/-- A stored key is reached when some driver reports a key that resolves to it. -/
def Reached (listPrefix : Text) (s : Store) (d : Driver) (stored : Text) : Prop :=
  ∃ key ∈ s.list listPrefix, d.resolve key = some stored

theorem drivers_deleteAll (keys : List Text) (s : Store) :
    (keys.foldl (fun s key => s.delete key) s).drivers =
      s.drivers.map fun d => keys.foldl (fun d key => d.delete key) d := by
  induction keys generalizing s with
  | nil => simp
  | cons key rest ih =>
    rw [List.foldl_cons, ih, Store.drivers_delete, List.map_map]
    rfl

theorem deleteListed_pass (listPrefix : Text) (s : Store) :
    List.Forall₂ (fun d d' => Pass (Reached listPrefix s d) (Reached listPrefix s d) d d')
      s.drivers (deleteListed listPrefix s).drivers := by
  rw [deleteListed, drivers_deleteAll, List.forall₂_map_right_iff, List.forall₂_same]
  exact fun d _ => deleteAll_pass (s.list listPrefix) d

theorem modifyHead_forall₂ {R : Driver → Driver → Prop} {f : Driver → Driver}
    (l : List Driver) (hf : ∀ d, R d (f d)) (refl : ∀ d, R d d) :
    List.Forall₂ R l (l.modifyHead f) := by
  cases l with
  | nil => exact .nil
  | cons d ds => exact .cons (hf d) (List.forall₂_same.mpr fun d _ => refl d)

theorem Pass.refl (upper : Text → Prop) (d : Driver) : Pass (fun _ => False) upper d d where
  resolve := rfl
  list _ := List.Subset.refl _
  cleared _ h := h.elim
  frame _ := Or.inl rfl

theorem removeTree_forall₂ (treePrefix : Text) (s : Store) :
    List.Forall₂ (Pass (fun _ => False) (InTree treePrefix)) s.drivers
      (s.modifyLocalOf (·.removeTree treePrefix)).drivers := by
  rw [Store.drivers_modifyLocalOf]
  refine modifyHead_forall₂ _ (fun d => ?_) (Pass.refl _)
  exact (removeTree_pass treePrefix d).imp (fun _ h => h.elim) (fun _ h => h)

theorem forall₂_trans {R S T : Driver → Driver → Prop} {l m n : List Driver}
    (h : List.Forall₂ R l m) (h' : List.Forall₂ S m n)
    (compose : ∀ d d' d'', R d d' → S d' d'' → T d d'') : List.Forall₂ T l n := by
  induction h generalizing n with
  | nil => cases h'; exact .nil
  | cons hr _ ih =>
    cases h' with
    | cons hs hrest => exact .cons (compose _ _ _ hr hs) (ih hrest)

theorem forall₂_left_mem {R : Driver → Driver → Prop} {p : Driver → Prop} {l m : List Driver}
    (h : List.Forall₂ R l m) (hp : ∀ d d', R d d' → p d) : ∀ d ∈ l, p d :=
  ((List.forall₂_and_left l m).mp (h.imp fun d d' hr => ⟨hp d d' hr, hr⟩)).1

/-- The effect of one `deleteMedia`: what was reached is gone, and only that or
files of the entry's own tree are. -/
def MediaPass (listPrefix treePrefix : Text) (s s' : Store) : Prop :=
  List.Forall₂ (fun d d' => Pass (Reached listPrefix s d)
    (fun key => Reached listPrefix s d key ∨ InTree treePrefix key) d d') s.drivers s'.drivers

theorem deleteMedia_pass (id : Int) (s : Store) :
    MediaPass (entryPrefix id) (entryPrefix id) s (deleteMedia id s) :=
  forall₂_trans (deleteListed_pass (entryPrefix id) s)
    (removeTree_forall₂ (entryPrefix id) (deleteListed (entryPrefix id) s))
    fun _ _ _ h h' => (h.trans h').imp (fun _ hk => Or.inl hk) (fun _ hk => hk)

/-- A later pass over the same prefix reaches nothing that the first did not. -/
theorem MediaPass.again {listPrefix treePrefix : Text} {s s' s'' : Store}
    (h : MediaPass listPrefix treePrefix s s') (h' : MediaPass listPrefix treePrefix s' s'') :
    MediaPass listPrefix treePrefix s s'' := by
  have hlist : s'.list listPrefix ⊆ s.list listPrefix := by
    intro key hkey
    obtain ⟨d', hd', hkey⟩ := (Store.mem_list _ _ _).mp hkey
    have hback := forall₂_left_mem (p := fun d' => ∀ key ∈ d'.list listPrefix,
      key ∈ s.list listPrefix) (List.Forall₂.flip (R := fun d d' => d' ∈ s.drivers ∧
        Pass (Reached listPrefix s d') (fun key => Reached listPrefix s d' key ∨
          InTree treePrefix key) d' d)
      ((List.forall₂_and_left _ _).mpr ⟨fun d hd => hd, h⟩)) (fun d d' hp key hkey =>
        (Store.mem_list _ _ _).mpr ⟨d', hp.1, hp.2.list listPrefix hkey⟩)
    exact hback d' hd' key hkey
  refine forall₂_trans h h' ?_
  intro d d' d'' hp hp'
  refine (hp.trans hp').imp (fun _ hk => Or.inl hk) ?_
  rintro key (hk | ⟨k, hk, hres⟩ | hk)
  · exact hk
  · exact Or.inl ⟨k, hlist hk, by rwa [← hp.resolve]⟩
  · exact Or.inr hk

theorem handleEntryDelete_pass (id : Int) (rowDeleted : Bool) (s : Store) :
    MediaPass (entryPrefix id) (entryPrefix id) s (handleEntryDelete id rowDeleted s) := by
  cases rowDeleted with
  | false => exact deleteMedia_pass id s
  | true => exact (deleteMedia_pass id s).again (deleteMedia_pass id (deleteMedia id s))

theorem modifyBare_eq (f : Local → Local) (s : Store) (hs : ∀ l, s ≠ .local l) :
    s.modifyBare f = s := by
  cases s with
  | «local» l => exact absurd rfl (hs l)
  | s3 objects => rfl
  | cache backend c => rfl
  | fallback primary legacy => rfl

theorem deleteListed_local (keys : List Text) (s : Store) :
    (∃ l, keys.foldl (fun s key => s.delete key) s = .local l) ↔ ∃ l, s = .local l := by
  induction keys generalizing s with
  | nil => rfl
  | cons key rest ih =>
    rw [List.foldl_cons, ih]
    cases s <;> simp [Store.delete]

/-- What `removeFlavor` touches: the keys reached through the listing and, on a bare
local store, the flavor's tree. -/
def Swept (id : Int) (name : Text) (s : Store) (d : Driver) (stored : Text) : Prop :=
  Reached (flavorDir id name) s d stored ∨ (∃ l, s = .local l) ∧ InTree (flavorDir id name) stored

theorem removeFlavor_pass (id : Int) (name : Text) (s : Store) :
    List.Forall₂ (fun d d' => Pass (Swept id name s d) (Swept id name s d) d d') s.drivers
      (removeFlavor id name s).drivers := by
  have hlisted := deleteListed_pass (flavorDir id name) s
  by_cases hbare : ∃ l, s = .local l
  · obtain ⟨l', hl'⟩ := (deleteListed_local (s.list (flavorDir id name)) s).mpr hbare
    rw [deleteListed, hl'] at hlisted
    rw [removeFlavor, deleteListed, hl']
    refine forall₂_trans hlisted (m := [.disk l']) (n := [.disk (l'.removeTree _)])
      (.cons (removeTree_pass (flavorDir id name) (.disk l')) .nil) ?_
    intro d d' d'' h h'
    refine (h.trans h').imp ?_ ?_
    · rintro key (hk | ⟨_, hk⟩)
      · exact Or.inl hk
      · exact Or.inr ⟨⟨l', rfl⟩, hk⟩
    · exact fun key hk => hk.imp_right fun hk => ⟨hbare, hk⟩
  · have hsame : removeFlavor id name s = deleteListed (flavorDir id name) s :=
      modifyBare_eq _ _ fun l hl => hbare ((deleteListed_local _ s).mp ⟨l, hl⟩)
    rw [hsame]
    refine hlisted.imp fun d d' h => h.imp ?_ fun key hk => Or.inl hk
    rintro key (hk | ⟨hk, _⟩)
    · exact hk
    · exact absurd hk hbare

section Frames
variable {lower upper : Driver → Text → Prop} {s s' : Store} {own other : Text → Prop}
  (pass : List.Forall₂ (fun d d' => Pass (lower d) (upper d) d d') s.drivers s'.drivers)
include pass

theorem losesOnly_of_pass
    (h : ∀ d ∈ s.drivers, ∀ key, d.lookup key ≠ none → upper d key → own key) :
    LosesOnly own s s' := by
  refine ((List.forall₂_and_left _ _).mpr ⟨h, pass⟩).imp ?_
  rintro d d' ⟨howned, hpass⟩ key hstored hlost
  rcases hpass.frame key with he | ⟨_, hu⟩
  · exact absurd (he.symm.trans hlost) hstored
  · exact howned key hstored hu

theorem keeps_of_pass
    (h : ∀ d ∈ s.drivers, ∀ key, d.lookup key ≠ none → upper d key → ¬ other key) :
    Keeps other s s' := by
  refine ((List.forall₂_and_left _ _).mpr ⟨h, pass⟩).imp ?_
  rintro d d' ⟨hdisjoint, hpass⟩ key hother
  rcases hpass.frame key with he | ⟨he, hu⟩
  · exact he
  · by_cases hstored : d.lookup key = none
    · rw [he, hstored]
    · exact absurd hother (hdisjoint key hstored hu)

theorem own_of_losesOnly (h : LosesOnly own s s') :
    ∀ d ∈ s.drivers, ∀ key, d.lookup key ≠ none → lower d key → own key := by
  refine forall₂_left_mem (pass.mp ?_ h) fun _ _ hd => hd
  exact fun d d' hpass hloses key hstored hl => hloses key hstored (hpass.cleared key hl)

theorem not_other_of_keeps (h : Keeps other s s') :
    ∀ d ∈ s.drivers, ∀ key, d.lookup key ≠ none → lower d key → ¬ other key := by
  refine forall₂_left_mem (pass.mp ?_ h) fun _ _ hd => hd
  intro d d' hpass hkeeps key hstored hl hother
  exact hstored ((hkeeps key hother).symm.trans (hpass.cleared key hl))

end Frames

/-- Every object whose key merely starts with the text `entries/{id}` resolves, in
each driver below the store, to nothing or to a key of the entry. -/
def EntryKeysSeparated (id : Int) (s : Store) : Prop :=
  ∀ objects, Driver.bucket objects ∈ s.drivers → ∀ key ∈ objects.keys, entryPrefix id <+: key →
    ∀ d ∈ s.drivers, ∀ stored, d.resolve key = some stored → d.lookup stored ≠ none →
      OfEntry id stored

/-- What the prefix text of the flavor selects and, on a bare local store, the tree it
names lie below the flavor's directory and below no other flavor of the table. -/
def FlavorKeysSeparated (id : Int) (names : List Text) (name : Text) (s : Store) : Prop :=
  ∀ d ∈ s.drivers, ∀ stored, d.lookup stored ≠ none →
    ((∃ d₀ ∈ s.drivers, ∃ key, d₀.Selects (flavorDir id name) key ∧ d.resolve key = some stored) ∨
      (∃ l, s = .local l) ∧ InTree (flavorDir id name) stored) →
    BelowFlavor id name stored ∧ ∀ other ∈ names, other ≠ name → ¬ BelowFlavor id other stored

theorem entryPrefix_eq (id : Int) :
    entryPrefix id = joinSlash [entriesRoot, Library.Decimal.formatInt id] := by
  have hroot : "entries/".toList = entriesRoot ++ ['/'] := by decide
  unfold entryPrefix
  rw [hroot, joinSlash_cons, joinSlash_singleton, List.append_assoc, List.singleton_append]

theorem trimSlash_entryPrefix (id : Int) : trimSlash (entryPrefix id) = entryPrefix id := by
  rw [entryPrefix_eq]
  exact trimSlash_joinSlash (by simp) (segments_entryDir id)

theorem components_entryPrefix (id : Int) :
    components (entryPrefix id) = [entriesRoot, Library.Decimal.formatInt id] := by
  rw [entryPrefix_eq]
  exact components_joinSlash _ (by simp) (fun c hc => (segments_entryDir id c hc).2)

theorem inTree_entryPrefix {id : Int} {stored : Text} (h : InTree (entryPrefix id) stored) :
    OfEntry id stored := by
  obtain ⟨p, hp, hpre⟩ := h
  obtain ⟨_, hspells, _, _⟩ := (pathForKey_iff _ _).mp hp
  rw [trimSlash_entryPrefix, components_entryPrefix] at hspells
  rw [hspells.unique (spells_self _ fun c hc => (segments_entryDir id c hc).1)] at hpre
  exact hpre

/-- A file that a local driver lists for the entry lies in the entry's directory. -/
theorem selects_entryPrefix {id : Int} {l : Local} {key : Text}
    (h : (Driver.disk l).Selects (entryPrefix id) key) :
    ∃ p ∈ l.files.keys, key = joinSlash p ∧ [entriesRoot, Library.Decimal.formatInt id] <+: p := by
  obtain ⟨p, hp, rfl, hbase⟩ := h
  refine ⟨p, hp, rfl, ?_⟩
  rw [trimSlash_entryPrefix, components_entryPrefix, (spells_self _ ?_).clean] at hbase
  · exact (List.prefix_append_right_inj _).mp hbase
  · intro c hc
    rcases List.mem_append.mp hc with hc | hc
    · exact l.rooted c hc
    · exact (segments_entryDir id c hc).1

/-- Whichever driver a listed file's key is deleted from, the key reached there is
the file's own. -/
theorem resolve_listed {p : FilePath} (hne : p ≠ []) (hseg : ∀ c ∈ p, Segment c) {d : Driver}
    {stored : Text} (h : d.resolve (joinSlash p) = some stored) : stored = joinSlash p := by
  cases d with
  | disk l =>
    obtain ⟨q, hq, rfl⟩ := Option.map_eq_some_iff.mp h
    rw [pathForKey_joinSlash hne hseg hq]
  | bucket objects => exact (Option.some.inj h).symm

theorem OfEntry.unique {id id' : Int} {key : Text} (h : OfEntry id key) (h' : OfEntry id' key) :
    id = id' := by
  obtain ⟨rest, hrest⟩ := h
  obtain ⟨rest', hrest'⟩ := h'
  rw [← hrest'] at hrest
  simp only [List.cons_append, List.nil_append, List.cons.injEq, true_and] at hrest
  exact Library.Decimal.formatInt_injective hrest.1

theorem OfEntry.of_belowFlavor {id : Int} {name key : Text} (h : BelowFlavor id name key) :
    OfEntry id key := by
  obtain ⟨rest, rfl⟩ := h
  refine ⟨components ("flavors/".toList ++ name ++ '/' :: rest), ?_⟩
  have hslash : "/flavors/".toList = '/' :: "flavors/".toList := by decide
  have hroot : "entries/".toList = entriesRoot ++ ['/'] := by decide
  have hid : '/' ∉ Library.Decimal.formatInt id := (segment_formatInt id).2
  unfold entryPrefix
  simp only [hroot, hslash, List.append_assoc, List.cons_append, List.nil_append,
    components_append_slash _ _ segment_entriesRoot.2, components_append_slash _ _ hid]

/-- Everything that an entry deletion reaches is of the entry when the keys of the
buckets are separated, and only then. -/
theorem reached_entry_iff (id : Int) (s : Store) :
    (∀ d ∈ s.drivers, ∀ stored, d.lookup stored ≠ none →
      Reached (entryPrefix id) s d stored → OfEntry id stored) ↔ EntryKeysSeparated id s := by
  constructor
  · intro h objects hobj key hkey hpre d hd stored hres hstored
    refine h d hd stored hstored ⟨key, (Store.mem_list _ _ _).mpr ⟨_, hobj, ?_⟩, hres⟩
    exact (Driver.mem_list _ _ _).mpr ⟨hkey, by rwa [trimSlash_entryPrefix]⟩
  · rintro h d hd stored hstored ⟨key, hkey, hres⟩
    obtain ⟨d₀, hd₀, hlist⟩ := (Store.mem_list _ _ _).mp hkey
    have hsel := (Driver.mem_list _ _ _).mp hlist
    cases d₀ with
    | disk l =>
      obtain ⟨p, hp, rfl, hpre⟩ := selects_entryPrefix hsel
      obtain ⟨hne, hseg⟩ := l.segments p hp
      rw [resolve_listed hne hseg hres, OfEntry,
        components_joinSlash p hne fun c hc => (hseg c hc).2]
      exact hpre
    | bucket objects =>
      refine h objects hd₀ key hsel.1 ?_ d hd stored hres hstored
      simpa [trimSlash_entryPrefix] using hsel.2

theorem handleEntryDelete_frame_iff (id : Int) (rowDeleted : Bool) (s : Store) :
    EntryFrame id s (handleEntryDelete id rowDeleted s) ↔ EntryKeysSeparated id s := by
  have pass := handleEntryDelete_pass id rowDeleted s
  constructor
  · rintro ⟨hloses, _⟩
    exact (reached_entry_iff id s).mp (own_of_losesOnly pass hloses)
  · intro h
    have hown : ∀ d ∈ s.drivers, ∀ key, d.lookup key ≠ none →
        (Reached (entryPrefix id) s d key ∨ InTree (entryPrefix id) key) → OfEntry id key := by
      rintro d hd key hstored (hk | hk)
      · exact (reached_entry_iff id s).mpr h d hd key hstored hk
      · exact inTree_entryPrefix hk
    refine ⟨losesOnly_of_pass pass hown, keeps_of_pass pass ?_⟩
    rintro d hd key hstored hk ⟨id', hne, hother⟩
    exact hne (hother.unique (hown d hd key hstored hk))

theorem removeFlavor_frame_iff (id : Int) (names : List Text) (name : Text) (s : Store) :
    FlavorFrame id names name s (removeFlavor id name s) ↔
      FlavorKeysSeparated id names name s := by
  have pass := removeFlavor_pass id name s
  have hswept : ∀ d stored, ((∃ d₀ ∈ s.drivers, ∃ key,
      d₀.Selects (flavorDir id name) key ∧ d.resolve key = some stored) ∨
      (∃ l, s = .local l) ∧ InTree (flavorDir id name) stored) ↔ Swept id name s d stored := by
    intro d stored
    refine or_congr_left ⟨?_, ?_⟩
    · rintro ⟨d₀, hd₀, key, hsel, hres⟩
      exact ⟨key, (Store.mem_list _ _ _).mpr ⟨d₀, hd₀, (Driver.mem_list _ _ _).mpr hsel⟩, hres⟩
    · rintro ⟨key, hkey, hres⟩
      obtain ⟨d₀, hd₀, hlist⟩ := (Store.mem_list _ _ _).mp hkey
      exact ⟨d₀, hd₀, key, (Driver.mem_list _ _ _).mp hlist, hres⟩
  simp only [FlavorKeysSeparated, hswept]
  constructor
  · rintro ⟨hloses, hkeeps⟩ d hd stored hstored hsw
    refine ⟨own_of_losesOnly pass hloses d hd stored hstored hsw, ?_⟩
    intro other hmem hne hbelow
    exact not_other_of_keeps pass hkeeps d hd stored hstored hsw (Or.inr ⟨other, hmem, hne, hbelow⟩)
  · intro h
    refine ⟨losesOnly_of_pass pass fun d hd key hs hk => (h d hd key hs hk).1,
      keeps_of_pass pass ?_⟩
    rintro d hd key hstored hk (⟨id', hne, hother⟩ | ⟨other, hmem, hne, hbelow⟩)
    · exact hne (hother.unique (.of_belowFlavor (h d hd key hstored hk).1))
    · exact (h d hd key hstored hk).2 other hmem hne hbelow

/-- The two removals lose nothing but their own keys exactly when no stored key is
selected by the bare prefix text alone. -/
theorem removal_frames (id : Int) (s : Store) :
    (∀ rowDeleted, EntryFrame id s (handleEntryDelete id rowDeleted s) ↔
      EntryKeysSeparated id s) ∧
    ∀ names name, FlavorFrame id names name s (removeFlavor id name s) ↔
      FlavorKeysSeparated id names name s :=
  ⟨fun rowDeleted => handleEntryDelete_frame_iff id rowDeleted s,
    fun names name => removeFlavor_frame_iff id names name s⟩

/-- A bucket with media of the entries 1 and 12 and of two flavors of entry 1. -/
def sharedBucket : Store :=
  .s3 [⟨"entries/1/flavors/720p/seg_0.ts".toList, [1]⟩,
    ⟨"entries/1/flavors/720p-h264/seg_0.ts".toList, [2]⟩,
    ⟨"entries/12/poster.jpg".toList, [3]⟩].toAList

/-- Deleting entry 1 deletes the poster of entry 12, and removing flavor `720p` deletes
a segment of flavor `720p-h264`. -/
theorem removal_takes_neighbours :
    ¬ EntryFrame 1 sharedBucket (handleEntryDelete 1 true sharedBucket) ∧
    ¬ FlavorFrame 1 ["720p".toList, "720p-h264".toList] "720p".toList sharedBucket
      (removeFlavor 1 "720p".toList sharedBucket) := by
  constructor
  · rw [handleEntryDelete_frame_iff]
    intro h
    have hof := h _ (List.mem_singleton.mpr rfl) "entries/12/poster.jpg".toList (by decide)
      (by decide) _ (List.mem_singleton.mpr rfl) _ rfl (by decide)
    revert hof
    unfold OfEntry
    decide
  · rw [removeFlavor_frame_iff]
    intro h
    have hsep := h _ (List.mem_singleton.mpr rfl) "entries/1/flavors/720p-h264/seg_0.ts".toList
      (by decide) (Or.inl ⟨_, List.mem_singleton.mpr rfl, _, ⟨by decide, by decide⟩, rfl⟩)
    have hbelow := hsep.1
    revert hbelow
    unfold BelowFlavor
    decide

end Vidsilo.Api.MediaRemoval
