import DroidPlatform.Core.Compare
import DroidPlatform.Vector.Vectors

/-!
# `SortedVectorImpl`

A sorted vector is a vector whose items are kept in the order of `do_compare`.  As a vector behaves
like an independent list, it is modelled by the list of its items; `add_call` says which operation
of the vector an `add` makes.

`_indexOrderOf` is a binary search with signed bounds.  When nothing compares equal, the bound that
is left is the place where the item would have to go.  A function that hands `do_compare` the address
of an item that is not there answers `none`.

An item of a list is addressed by its index, and the indices of a vector's items are below `2 ^ 31`:
its items are at least a byte long, and those of a sorted vector are all different.
-/

namespace Droid

open List Option

variable {T : Type}

namespace SortedVectorImpl

/-- `VectorImpl::insertAt(item, index, 1)` -/
def insertAt (items : List T) (item : T) (index : ℕ) : List T × ℤ :=
  if items.length < index then (items, Status.badIndex)
  else (items.take index ++ item :: items.drop index, index)

/-- `VectorImpl::replaceAt(item, index)` -/
def replaceAt (items : List T) (item : T) (index : ℕ) : List T × ℤ := (items.set index item, index)

/-- `VectorImpl::insertVectorAt(vector, index)` -/
def insertVectorAt (items vector : List T) (index : ℕ) : List T × ℤ :=
  if items.length < index then (items, Status.badIndex)
  else (items.take index ++ vector ++ items.drop index, index)

/-- `VectorImpl::appendVector(vector)` -/
def appendVector (items vector : List T) : List T × ℤ := insertVectorAt items vector items.length

variable (do_compare : T → T → ℤ)

/-- The loop of `_indexOrderOf`: the index of an equal item or an error, and the order. -/
def indexOrderFrom (items : List T) (item : T) : ℕ → ℤ → ℤ → Option (ℤ × ℕ)
  | 0, _, _ => none
  | fuel + 1, l, h =>
    if l ≤ h then do
      let mid := l + (h - l) / 2
      let curr ← items[mid.toNat]?
      let c := do_compare curr item
      if c = 0 then some (mid, mid.toNat)
      else if c < 0 then indexOrderFrom items item fuel (mid + 1) h
      else indexOrderFrom items item fuel l (mid - 1)
    else some (Status.nameNotFound, l.toNat)

/-- `_indexOrderOf(item, &order)` -/
def indexOrderOf (items : List T) (item : T) : Option (ℤ × ℕ) :=
  indexOrderFrom do_compare items item (items.length + 1) 0 (items.length - 1)

/-- `indexOf(item)` -/
def indexOf (items : List T) (item : T) : Option ℤ :=
  (indexOrderOf do_compare items item).map Prod.fst

/-- `add(item)` -/
def add (items : List T) (item : T) : Option (List T × ℤ) := do
  let (index, order) ← indexOrderOf do_compare items item
  if index < 0 then some (insertAt items item order)
  else some (replaceAt items item index.toNat)

/-- `merge(const VectorImpl&)` -/
def mergeItems (items : List T) : List T → Option (List T × ℤ)
  | [] => some (items, Status.ok)
  | item :: rest => do
    let (items, err) ← add do_compare items item
    if err < 0 then some (items, err) else mergeItems items rest

/-- `merge(const SortedVectorImpl&)` -/
def merge (items vector : List T) : Option (List T × ℤ) :=
  if vector.isEmpty then some (items, Status.ok)
  else do
    -- `arrayImpl()` and `itemLocation(size() - 1)` are no items if this vector is empty
    let last ← vector.getLast?
    let front ← items.head?
    if do_compare last front ≤ 0 then some (insertVectorAt items vector 0)
    else
      let first ← vector.head?
      let back ← items.getLast?
      if 0 ≤ do_compare first back then some (appendVector items vector)
      else mergeItems do_compare items vector

/-! ## The binary search -/

variable {do_compare} {items : List T} {item : T}

/-- What is known of the items outside the bounds. -/
structure Narrowed (do_compare : T → T → ℤ) (items : List T) (item : T) (l h : ℤ) : Prop where
  lower : 0 ≤ l
  ordered : l ≤ h + 1
  upper : h < items.length
  less : ∀ (i : ℕ) y, items[i]? = some y → (i : ℤ) < l → do_compare y item < 0
  greater : ∀ (i : ℕ) y, items[i]? = some y → h < i → 0 < do_compare y item

/-- What the search returns. -/
def Located (do_compare : T → T → ℤ) (items : List T) (item : T) (index : ℤ) (order : ℕ) : Prop :=
  (index = order ∧ Narrowed do_compare items item order order ∧
      ∃ y, items[order]? = some y ∧ do_compare y item = 0) ∨
    (index = Status.nameNotFound ∧ Narrowed do_compare items item order (order - 1))

lemma Narrowed.located (hcmp : TotalPreorder do_compare) (hinc : Increasing do_compare items) :
    ∀ (fuel : ℕ) {l h : ℤ}, Narrowed do_compare items item l h → h - l + 1 < fuel →
      ∃ index order, indexOrderFrom do_compare items item fuel l h = some (index, order) ∧
        Located do_compare items item index order := by
  intro fuel
  induction fuel with
  | zero =>
    intro l h hn hfuel
    have := hn.ordered
    omega
  | succ fuel ih =>
    intro l h hn hfuel
    obtain ⟨hlower, hordered, hupper, hless, hgreater⟩ := hn
    by_cases hlh : l ≤ h
    · obtain ⟨mid, hmid⟩ : ∃ mid : ℕ, mid = l + (h - l) / 2 :=
        ⟨(l + (h - l) / 2).toNat, by omega⟩
      have hlt : mid < items.length := by omega
      have hcurr : items[mid]? = some items[mid] := getElem?_eq_getElem hlt
      rw [indexOrderFrom, ← hmid]
      simp only [Int.toNat_natCast, hcurr, bind_eq_bind, bind_some]
      -- the items on one side of the middle are on the same side of `item` as it is
      have hbefore : do_compare items[mid] item ≤ 0 → ∀ (i : ℕ) y, items[i]? = some y →
          (i : ℤ) < mid → do_compare y item < 0 := fun hc i y hy hi =>
        hcmp.lt_of_lt_of_le (hinc.lt_of_lt hy hcurr (by omega)) hc
      have hafter : 0 ≤ do_compare items[mid] item → ∀ (i : ℕ) y, items[i]? = some y →
          (mid : ℤ) < i → 0 < do_compare y item := fun hc i y hy hi =>
        (hcmp.swap _ _).mp (hcmp.lt_of_le_of_lt (hcmp.le_iff.mpr hc)
          (hinc.lt_of_lt hcurr hy (by omega)))
      split_ifs with hzero hneg
      · refine ⟨mid, mid, rfl, Or.inl ⟨rfl, ⟨by omega, by omega, by omega, ?_, ?_⟩, _, hcurr, hzero⟩⟩
        · exact hbefore hzero.le
        · exact hafter hzero.ge
      · refine ih ⟨by omega, by omega, hupper, fun i y hy hi => ?_,
          hgreater⟩ (by push_cast at hfuel; omega)
        rcases (show (i : ℤ) < mid ∨ i = mid by omega) with hi | rfl
        · exact hbefore hneg.le i y hy hi
        · cases hcurr.symm.trans hy
          exact hneg
      · have hpos : 0 < do_compare items[mid] item := by omega
        refine ih ⟨hlower, by omega, by omega, hless,
          fun i y hy hi => ?_⟩ (by push_cast at hfuel; omega)
        rcases (show (mid : ℤ) < i ∨ i = mid by omega) with hi | rfl
        · exact hafter hpos.le i y hy hi
        · cases hcurr.symm.trans hy
          exact hpos
    · obtain ⟨order, rfl⟩ := Int.eq_ofNat_of_zero_le hlower
      rw [indexOrderFrom, if_neg hlh]
      refine ⟨_, order, rfl, Or.inr ⟨rfl, hlower, by omega, by omega, hless, ?_⟩⟩
      exact fun i y hy hi => hgreater i y hy (by omega)

/-- **The search** returns, with the place of the item. -/
lemma exists_located (hcmp : TotalPreorder do_compare) (hinc : Increasing do_compare items)
    (item : T) : ∃ index order, indexOrderOf do_compare items item = some (index, order) ∧
      Located do_compare items item index order := by
  refine Narrowed.located hcmp hinc _ ⟨le_rfl, by omega, by omega, ?_, ?_⟩ (by push_cast; omega)
  · intro i y _ hi
    omega
  · intro i y hy hi
    have := (List.getElem?_eq_some_iff.mp hy).1
    omega

/-- The place splits the list. -/
lemma Narrowed.around {order : ℕ} {h : ℤ} (hn : Narrowed do_compare items item order h)
    {same : List T} (hsame : (items.drop order).take (h + 1 - order).toNat = same)
    (hequal : same = [] ∨ ∃ y, same = [y] ∧ do_compare y item = 0) :
    Around do_compare items item (items.take order) same (items.drop (h + 1).toNat) := by
  obtain ⟨hlower, hordered, hupper, hless, hgreater⟩ := hn
  refine ⟨?_, fun y hy => ?_, hequal, fun y hy => ?_⟩
  · have hdrop : items.drop (h + 1).toNat = (items.drop order).drop (h + 1 - order).toNat := by
      rw [drop_drop]
      congr 1
      omega
    rw [hdrop, ← hsame, append_assoc, take_append_drop, take_append_drop]
  · obtain ⟨i, hi⟩ := mem_iff_getElem?.mp hy
    rw [getElem?_take] at hi
    split_ifs at hi with hlt
    exact hless i y hi (by omega)
  · obtain ⟨i, hi⟩ := mem_iff_getElem?.mp hy
    rw [getElem?_drop] at hi
    exact hgreater _ y hi (by omega)

/-- **The search, by the parts of the list.** -/
theorem indexOrderOf_spec (hcmp : TotalPreorder do_compare) (hinc : Increasing do_compare items)
    (item : T) : ∃ lo same hi, Around do_compare items item lo same hi ∧
      indexOrderOf do_compare items item =
        some (if same = [] then Status.nameNotFound else (lo.length : ℤ), lo.length) := by
  obtain ⟨index, order, heq, ⟨rfl, hn, y, hy, hequal⟩ | ⟨rfl, hn⟩⟩ := exists_located hcmp hinc item
  · have hlt := (List.getElem?_eq_some_iff.mp hy).1
    have hsame : (items.drop order).take ((order : ℤ) + 1 - order).toNat = [y] := by
      have htoNat : ((order : ℤ) + 1 - order).toNat = 1 := by omega
      rw [htoNat, take_one, head?_drop, hy]
      rfl
    refine ⟨_, _, _, hn.around hsame (Or.inr ⟨y, rfl, hequal⟩), ?_⟩
    rw [heq, if_neg (cons_ne_nil _ _), length_take_of_le hlt.le]
  · have hle : order ≤ items.length := by
      have := hn.upper
      omega
    have hsame : (items.drop order).take ((order : ℤ) - 1 + 1 - order).toNat = [] := by
      have htoNat : ((order : ℤ) - 1 + 1 - order).toNat = 0 := by omega
      rw [htoNat, take_zero]
    refine ⟨_, _, _, hn.around hsame (Or.inl rfl), ?_⟩
    rw [heq, if_pos rfl, length_take_of_le hle]

/-! ## Adding an item -/

/-- **An item is added** where it belongs, in the place of the equal one if there is one. -/
theorem add_spec (hcmp : TotalPreorder do_compare) (hinc : Increasing do_compare items) (item : T) :
    ∃ lo same hi, Around do_compare items item lo same hi ∧
      add do_compare items item = some (lo ++ item :: hi, (lo.length : ℤ)) := by
  obtain ⟨lo, same, hi, haround, hsearch⟩ := indexOrderOf_spec hcmp hinc item
  refine ⟨lo, same, hi, haround, ?_⟩
  have heq := haround.eq
  rcases haround.equal with rfl | ⟨y, rfl, -⟩
  · rw [append_nil] at heq
    simp only [add, hsearch, bind_eq_bind, bind_some, if_true]
    rw [if_pos (by decide), insertAt, heq]
    simp
  · simp only [add, hsearch, bind_eq_bind, bind_some, cons_ne_nil, if_false]
    rw [replaceAt, Int.toNat_natCast, heq, append_assoc]
    simp

/-- The vector's operation behind `add`. -/
theorem add_call (ls : Lists T) {i : ℕ} (hls : ls[i]? = some (items.map some)) {constructed : Option T}
    {result : List T} {err : ℤ} (hadd : add do_compare items item = some (result, err))
    (herr : 0 ≤ err) :
    ∃ c ∈ [VectorCall.insertAt i (.value item) err.toNat 1, .replaceAt i (.value item) err.toNat],
      Lists.call constructed ls c = ls.set i (result.map some) := by
  cases hsearch : indexOrderOf do_compare items item with
  | none =>
    rw [add, hsearch] at hadd
    cases hadd
  | some found =>
    simp only [add, hsearch, bind_eq_bind, bind_some] at hadd
    split_ifs at hadd with hindex
    · simp only [insertAt] at hadd
      split_ifs at hadd with hlen
      · cases hadd
        exact absurd herr (by decide)
      · cases hadd
        refine ⟨_, mem_cons_self .., ?_⟩
        rw [Lists.call, Lists.modify_eq_set hls, Lists.insert, Int.toNat_natCast, length_map,
          if_neg hlen]
        simp [Lists.item]
    · cases hadd
      refine ⟨_, mem_cons_of_mem _ (mem_cons_self ..), ?_⟩
      rw [Lists.call, Lists.modify_eq_set hls, map_set]
      rfl

end SortedVectorImpl

end Droid
