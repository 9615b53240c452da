import Vidsilo.Library.Procedure
import Vidsilo.Storage.Drivers

/-!
# Operations on the stores below a wrapper

Source: internal/store/store.go:13-29. A wrapper sees a store through the interface, as a
map from keys to bytes; the stores are named by `Id`. `selects s p k` says that a listing of `s`
under the prefix `p` reports the key `k`: each driver has a rule of its own. An operation that
fails changes nothing. A reader yields the bytes the object had when it was opened.
-/
namespace Vidsilo.Storage.Operations
open Library Library.SlashPath Drivers

variable {Id : Type} [DecidableEq Id]

inductive Outcome where
  | ok | fails
  deriving DecidableEq, Repr

inductive StoreOp (Id : Type) : Type → Type where
  | put (store : Id) (key : Text) (bytes : Bytes) (size : Int) :
    StoreOp Id (Except StoreError Unit)
  | «open» (store : Id) (key : Text) : StoreOp Id (Except StoreError Bytes)
  | stat (store : Id) (key : Text) : StoreOp Id (Except StoreError Nat)
  | delete (store : Id) (key : Text) : StoreOp Id (Except StoreError Unit)
  | list (store : Id) (listPrefix : Text) : StoreOp Id (Except StoreError (List Text))
  /-- `f.promoted.Add(1)`. -/
  | promoted : StoreOp Id Unit

structure Stores (Id : Type) where
  contents : Id → Bucket
  promoted : Nat

def Stores.set (w : Stores Id) (store : Id) (objects : Bucket) : Stores Id :=
  { w with contents := fun s => if s = store then objects else w.contents s }

def attempt (outcome : Outcome) (w : Stores Id) (reply : Except StoreError α)
    (after : Stores Id) : Option (Except StoreError α × Stores Id) :=
  match outcome with
  | .ok => some (reply, after)
  | .fails => some (.error .failed, w)

def perform (selects : Id → Text → Text → Bool) :
    {β : Type} → StoreOp Id β → Outcome → Stores Id → Option (β × Stores Id)
  | _, .put s key bytes _, outcome, w =>
    attempt outcome w (.ok ()) (w.set s ((w.contents s).insert key bytes))
  | _, .open s key, outcome, w => attempt outcome w (found ((w.contents s).lookup key)) w
  | _, .stat s key, outcome, w =>
    attempt outcome w (found (((w.contents s).lookup key).map List.length)) w
  | _, .delete s key, outcome, w => attempt outcome w (.ok ()) (w.set s ((w.contents s).erase key))
  | _, .list s listPrefix, outcome, w =>
    attempt outcome w (.ok ((w.contents s).keys.filter (selects s listPrefix))) w
  | _, .promoted, _, w => some ((), { w with promoted := w.promoted + 1 })

/-- The object of a key in a store. -/
def Stores.object (w : Stores Id) (store : Id) (key : Text) : Option Bytes :=
  (w.contents store).lookup key

theorem object_set (w : Stores Id) (store s : Id) (objects : Bucket) (key : Text) :
    (w.set store objects).object s key =
      if s = store then objects.lookup key else w.object s key := by
  unfold Stores.object Stores.set
  split
  · next same => simp [same]
  · next other => simp [other]

theorem object_insert (w : Stores Id) (store s : Id) (key k : Text) (bytes : Bytes) :
    (w.set store ((w.contents store).insert key bytes)).object s k =
      if s = store ∧ k = key then some bytes else w.object s k := by
  rw [object_set]
  by_cases here : s = store
  · subst here
    by_cases same : k = key
    · subst same
      simp [AList.lookup_insert]
    · simp [same, AList.lookup_insert_ne, Stores.object]
  · simp [here]

theorem object_erase (w : Stores Id) (store s : Id) (key k : Text) :
    (w.set store ((w.contents store).erase key)).object s k =
      if s = store ∧ k = key then none else w.object s k := by
  rw [object_set]
  by_cases here : s = store
  · subst here
    by_cases same : k = key
    · subst same
      simp [AList.lookup_erase]
    · simp [same, AList.lookup_erase_ne, Stores.object]
  · simp [here]

end Vidsilo.Storage.Operations
