import DroidPlatform.Core.Trace
import DroidPlatform.Vector.SortedVector

/-!
# Sorted vectors as sets, and `KeyedVector`

A sorted vector that was filled by `add` and emptied by `remove` alone is strictly increasing.  A
search then tells the index of the one item that compares equal, or the number of items that are less,
which is where an item has to go.  The three operations follow from where the search splits the
vector (`Around`).

`KeyedVector` is a sorted vector of pairs that are compared by their keys.  What `valueFor` answers
makes it a finite map: one key is changed by an `add` or a `removeItem`, up to keys that compare equal.
-/

namespace Droid

variable {T : Type}

namespace SortedVectorImpl

section Model

variable (do_compare : T → T → ℤ)

/-- `orderOf(item)` -/
def orderOf (items : List T) (item : T) : Option ℕ :=
  (indexOrderOf do_compare items item).map Prod.snd

/-- `VectorImpl::removeItemsAt(index, 1)` -/
def removeItemsAt (items : List T) (index : ℕ) : List T :=
  if items.length < index + 1 then items else items.eraseIdx index

/-- `remove(item)` -/
def remove (items : List T) (item : T) : Option (List T × ℤ) := do
  let i ← indexOf do_compare items item
  if 0 ≤ i then some (removeItemsAt items i.toNat, i) else some (items, i)

inductive Call (T : Type) where
  | add (item : T)
  | remove (item : T)

/-- The items after a call. -/
def call (items : List T) : Call T → Option (List T)
  | .add item => (add do_compare items item).map Prod.fst
  | .remove item => (remove do_compare items item).map Prod.fst

def Step (items : List T) (c : Call T) (items' : List T) : Prop := call do_compare items c = some items'

instance [DecidableEq T] (items : List T) (c : Call T) (items' : List T) :
    Decidable (Step do_compare items c items') :=
  inferInstanceAs (Decidable (call do_compare items c = some items'))

end Model

variable {do_compare : T → T → ℤ} {items items' : List T} {item : T}

/-- **An item is removed**, if there is one that compares equal. -/
theorem remove_spec (hcmp : TotalPreorder do_compare) (hinc : Increasing do_compare items) (item : T) :
    ∃ lo same hi, Around do_compare items item lo same hi ∧
      remove do_compare items item =
        some (lo ++ hi, if same = [] then Status.nameNotFound else (lo.length : ℤ)) := by
  obtain ⟨lo, same, hi, haround, hsearch⟩ := indexOrderOf_spec hcmp hinc item
  refine ⟨lo, same, hi, haround, ?_⟩
  rw [remove, indexOf, hsearch, haround.eq]
  rcases haround.equal with rfl | ⟨y, rfl, -⟩
  · have hneg : ¬0 ≤ Status.nameNotFound := by decide
    simp [hneg]
  · simp [removeItemsAt, List.eraseIdx_append_of_length_le]

lemma increasing_step (hcmp : TotalPreorder do_compare) {c : Call T}
    (hinc : Increasing do_compare items) (hstep : Step do_compare items c items') :
    Increasing do_compare items' := by
  cases c with
  | add item =>
    obtain ⟨lo, same, hi, haround, hadd⟩ := add_spec hcmp hinc item
    rw [Step, call, hadd] at hstep
    cases hstep
    exact haround.increasing hcmp hinc
  | remove item =>
    obtain ⟨lo, same, hi, haround, hremove⟩ := remove_spec hcmp hinc item
    rw [Step, call, hremove] at hstep
    cases hstep
    refine hinc.sublist ?_
    rw [haround.eq, List.append_assoc]
    exact (List.Sublist.refl lo).append (List.sublist_append_right same hi)

section

variable (hcmp : TotalPreorder do_compare) (hinc : Increasing do_compare items)

include hcmp hinc

/-- The order of an item is the number of items that are less. -/
lemma orderOf_eq (item : T) :
    orderOf do_compare items item = some (items.countP fun y => do_compare y item < 0) := by
  obtain ⟨lo, same, hi, haround, hsearch⟩ := indexOrderOf_spec hcmp hinc item
  rw [orderOf, hsearch, haround.countP_less]
  rfl

/-- The calls, where an item compares equal. -/
lemma calls_of_equal {i : ℕ} {y : T} (hy : items[i]? = some y) (hequal : do_compare y item = 0) :
    indexOf do_compare items item = some (i : ℤ) ∧
      add do_compare items item = some (items.set i item, (i : ℤ)) ∧
      remove do_compare items item = some (items.eraseIdx i, (i : ℤ)) := by
  obtain ⟨lo, same, hi, haround, hsearch⟩ := indexOrderOf_spec hcmp hinc item
  obtain ⟨rfl, rfl⟩ := haround.eq_of_getElem? hy hequal
  have hlen : ¬items.length ≤ lo.length := not_le.mpr (getElem?_eq_some_iff.mp hy).1
  simp [indexOf, add, remove, hsearch, replaceAt, removeItemsAt, hlen]

/-- The calls, where no item does. -/
lemma calls_of_not_equal (hnone : ¬HasEqual do_compare items item) :
    ∃ o : ℕ, orderOf do_compare items item = some o ∧
      indexOf do_compare items item = some Status.nameNotFound ∧
      add do_compare items item = some (items.take o ++ item :: items.drop o, (o : ℤ)) ∧
      remove do_compare items item = some (items, Status.nameNotFound) := by
  obtain ⟨lo, same, hi, haround, hsearch⟩ := indexOrderOf_spec hcmp hinc item
  obtain rfl : same = [] := not_not.mp fun hne => hnone (haround.hasEqual_iff.mpr hne)
  have hneg : Status.nameNotFound < 0 := by decide
  have hle : ¬items.length < lo.length := by simp [haround.eq]
  refine ⟨lo.length, ?_⟩
  simp [orderOf, indexOf, add, remove, hsearch, not_le.mpr hneg, insertAt, hle]

end

end SortedVectorImpl

/-! ## Pairs of a key and a value -/

namespace KeyedVector

open SortedVectorImpl

variable {K V : Type}

/-- `do_compare` of `key_value_pair_t`, which compares the keys. -/
def comparePairs (compare : K → K → ℤ) (lhs rhs : K × V) : ℤ := compare lhs.1 rhs.1

section Model

variable (compare : K → K → ℤ)

/-- `indexOfKey(key)`; the value of the pair is a default one. -/
def indexOfKey [Inhabited V] (mVector : List (K × V)) (key : K) : Option ℤ :=
  indexOf (comparePairs compare) mVector (key, default)

/-- `valueFor(key)`, which asserts that there is one. -/
def valueFor [Inhabited V] (mVector : List (K × V)) (key : K) : Option V := do
  let i ← indexOfKey compare mVector key
  if 0 ≤ i then mVector[i.toNat]?.map Prod.snd else none

/-- `add(key, value)` -/
def add (mVector : List (K × V)) (key : K) (value : V) : Option (List (K × V) × ℤ) :=
  SortedVectorImpl.add (comparePairs compare) mVector (key, value)

/-- `removeItem(key)` -/
def removeItem [Inhabited V] (mVector : List (K × V)) (key : K) : Option (List (K × V) × ℤ) :=
  remove (comparePairs compare) mVector (key, default)

end Model

variable {compare : K → K → ℤ} {mVector : List (K × V)}

lemma totalPreorder_comparePairs (hcmp : TotalPreorder compare) :
    TotalPreorder (comparePairs compare : K × V → K × V → ℤ) where
  swap lhs rhs := hcmp.swap lhs.1 rhs.1
  trans := hcmp.trans

variable [Inhabited V]

lemma valueFor_eq (hcmp : TotalPreorder compare) (hinc : Increasing (comparePairs compare) mVector)
    (key : K) : valueFor compare mVector key =
      (mVector.find? fun p => comparePairs compare p (key, default) = 0).map Prod.snd := by
  obtain ⟨lo, same, hi, haround, hsearch⟩ :=
    indexOrderOf_spec (totalPreorder_comparePairs hcmp) hinc (key, default)
  rw [haround.find?_eq, valueFor, indexOfKey, indexOf, hsearch]
  rcases haround.equal with rfl | ⟨y, rfl, -⟩
  · rfl
  · simp [haround.eq]

/-- The value of every key, after one pair took the place of what was equal to it. -/
lemma valueFor_replace (hcmp : TotalPreorder compare) {mVector' lo same hi new : List (K × V)}
    {pair : K × V} (haround : Around (comparePairs compare) mVector pair lo same hi)
    (hinc : Increasing (comparePairs compare) mVector) (hnew : new = [] ∨ new = [pair])
    (hinc' : Increasing (comparePairs compare) mVector') (heq : mVector' = lo ++ new ++ hi) (k : K) :
    valueFor compare mVector' k =
      if compare pair.1 k = 0 then new.head?.map Prod.snd else valueFor compare mVector k := by
  rw [valueFor_eq hcmp hinc', valueFor_eq hcmp hinc, heq,
    haround.find?_replace (totalPreorder_comparePairs hcmp) hnew]
  by_cases hk : compare pair.1 k = 0 <;> simp [comparePairs, hk]

end KeyedVector

open SortedVectorImpl KeyedVector in
/-- **Sorted vectors are sets, and keyed vectors are maps.** -/
theorem sorted_vector_calls :
    (∀ {T : Type} {do_compare : T → T → ℤ} {calls : List (SortedVectorImpl.Call T)} {items : List T},
      TotalPreorder do_compare → Runs (Step do_compare) [] calls items →
      Increasing do_compare items ∧ ∀ x : T,
        orderOf do_compare items x = some (items.countP fun y => do_compare y x < 0) ∧
        (∀ (i : ℕ) y, items[i]? = some y → do_compare y x = 0 →
          indexOf do_compare items x = some (i : ℤ) ∧
          SortedVectorImpl.add do_compare items x = some (items.set i x, (i : ℤ)) ∧
          remove do_compare items x = some (items.eraseIdx i, (i : ℤ))) ∧
        (¬HasEqual do_compare items x → ∃ o : ℕ, orderOf do_compare items x = some o ∧
          indexOf do_compare items x = some Status.nameNotFound ∧
          SortedVectorImpl.add do_compare items x =
            some (items.take o ++ x :: items.drop o, (o : ℤ)) ∧
          remove do_compare items x = some (items, Status.nameNotFound))) ∧
    ∀ {K V : Type} [Inhabited V] {compare : K → K → ℤ} {calls : List (SortedVectorImpl.Call (K × V))}
      {mVector : List (K × V)},
      TotalPreorder compare → Runs (Step (comparePairs compare)) [] calls mVector →
      ∀ (key : K) (value : V),
        (∃ mVector' i, KeyedVector.add compare mVector key value = some (mVector', i) ∧
          ∀ k, valueFor compare mVector' k =
            if compare key k = 0 then some value else valueFor compare mVector k) ∧
        ∃ mVector' i, removeItem compare mVector key = some (mVector', i) ∧
          ∀ k, valueFor compare mVector' k =
            if compare key k = 0 then none else valueFor compare mVector k := by
  constructor
  · intro T do_compare calls items hcmp hrun
    have hinc : Increasing do_compare items := hrun.invariant List.Pairwise.nil (increasing_step hcmp)
    refine ⟨hinc, fun x => ⟨orderOf_eq hcmp hinc x, ?_, ?_⟩⟩
    · exact fun i y hy hequal => calls_of_equal hcmp hinc hy hequal
    · exact fun hnone => calls_of_not_equal hcmp hinc hnone
  · intro K V _ compare calls mVector hcmp hrun key value
    have hpairs := totalPreorder_comparePairs (V := V) hcmp
    have hinc : Increasing (comparePairs compare) mVector :=
      hrun.invariant List.Pairwise.nil (increasing_step hpairs)
    constructor
    · obtain ⟨lo, same, hi, haround, hadd⟩ := add_spec hpairs hinc (key, value)
      have hinc' := haround.increasing hpairs hinc
      refine ⟨_, _, hadd, ?_⟩
      exact valueFor_replace hcmp haround hinc (Or.inr rfl) hinc' (by simp)
    · obtain ⟨lo, same, hi, haround, hremove⟩ := remove_spec hpairs hinc (key, default)
      have hinc' : Increasing (comparePairs compare) (lo ++ hi) :=
        increasing_step hpairs (c := .remove (key, default)) hinc (by rw [Step, call, hremove]; rfl)
      refine ⟨_, _, hremove, ?_⟩
      exact valueFor_replace hcmp haround hinc (Or.inl rfl) hinc' (by simp)

open SortedVectorImpl KeyedVector in
theorem sorted_vector_calls_int :
    Increasing (fun x y : ℤ => x - y) [1, 5] ∧
      ∃ mVector' i, removeItem (fun x y : ℤ => x - y) [(1, 'a'), (5, 'b')] 5 = some (mVector', i) ∧
        ∀ k, valueFor (fun x y : ℤ => x - y) mVector' k =
          if 5 - k = 0 then none else valueFor (fun x y : ℤ => x - y) [(1, 'a'), (5, 'b')] k := by
  have hcmp : TotalPreorder fun x y : ℤ => x - y := .of_key id (by simp) (by simp)
  have hitems : Runs (Step fun x y : ℤ => x - y) [] [.add 5, .add 1] [1, 5] :=
    .snoc (t := [5]) (.single (by decide)) (by decide +kernel)
  have hpairs : Runs (Step (comparePairs fun x y : ℤ => x - y)) []
      [.add (1, 'a'), .add (5, 'b')] [(1, 'a'), (5, 'b')] :=
    .snoc (t := [(1, 'a')]) (.single (by decide)) (by decide +kernel)
  exact ⟨(sorted_vector_calls.1 hcmp hitems).1, (sorted_vector_calls.2 hcmp hpairs 5 'x').2⟩

end Droid
