import Mathlib.Data.List.Pairwise
import Mathlib.Data.List.Perm.Basic
import Mathlib.Tactic

/-!
# Comparison functions

A comparison function in the style of `strcmp` tells by the sign of a number how two values stand.
`TotalPreorder` is what makes it an order: swapping the arguments turns the sign around, and "not
greater" is transitive.  Values that compare equal need not be equal.

A list is *increasing* when each item compares less than every later one, so that no two items
compare equal.  `Around` splits an increasing list at a value: what is less, what is equal (at most
one item), and what is greater.
-/

namespace Droid

open List

variable {T : Type}

structure TotalPreorder (cmp : T → T → ℤ) : Prop where
  swap : ∀ x y, cmp x y < 0 ↔ 0 < cmp y x
  trans : ∀ {x y z}, cmp x y ≤ 0 → cmp y z ≤ 0 → cmp x z ≤ 0

namespace TotalPreorder

variable {cmp : T → T → ℤ} {x y z : T}

/-- A comparison of keys that are linearly ordered. -/
lemma of_key {K : Type} [LinearOrder K] (key : T → K) (hlt : ∀ x y, cmp x y < 0 ↔ key x < key y)
    (hgt : ∀ x y, 0 < cmp x y ↔ key y < key x) : TotalPreorder cmp where
  swap x y := by rw [hlt, hgt]
  trans {x y z} hxy hyz := by
    rw [← not_lt, hgt, not_lt] at *
    exact hxy.trans hyz

section

variable (h : TotalPreorder cmp)

include h

lemma refl (x : T) : cmp x x = 0 := by
  have := h.swap x x
  omega

lemma le_iff : cmp x y ≤ 0 ↔ 0 ≤ cmp y x := by
  have := h.swap y x
  omega

lemma symm (hxy : cmp x y = 0) : cmp y x = 0 := by
  have := h.swap x y
  have := h.swap y x
  omega

lemma equal_trans (hxy : cmp x y = 0) (hyz : cmp y z = 0) : cmp x z = 0 :=
  le_antisymm (h.trans hxy.le hyz.le) (h.le_iff.mp (h.trans (h.symm hyz).le (h.symm hxy).le))

lemma lt_of_lt_of_le (hxy : cmp x y < 0) (hyz : cmp y z ≤ 0) : cmp x z < 0 := by
  by_contra hxz
  have hzx : cmp z x ≤ 0 := h.le_iff.mpr (not_lt.mp hxz)
  have hyx : 0 < cmp y x := (h.swap x y).mp hxy
  exact absurd (h.trans hyz hzx) (not_le.mpr hyx)

lemma lt_of_le_of_lt (hxy : cmp x y ≤ 0) (hyz : cmp y z < 0) : cmp x z < 0 := by
  by_contra hxz
  have hzx : cmp z x ≤ 0 := h.le_iff.mpr (not_lt.mp hxz)
  have hzy : 0 < cmp z y := (h.swap y z).mp hyz
  exact absurd (h.trans hzx hxy) (not_le.mpr hzy)

lemma lt_trans (hxy : cmp x y < 0) (hyz : cmp y z < 0) : cmp x z < 0 :=
  h.lt_of_lt_of_le hxy hyz.le

end

end TotalPreorder

/-! ## Increasing lists -/

def Increasing (cmp : T → T → ℤ) (items : List T) : Prop := items.Pairwise fun x y => cmp x y < 0

/-- Some item compares equal to `x`. -/
def HasEqual (cmp : T → T → ℤ) (items : List T) (x : T) : Prop := ∃ y ∈ items, cmp y x = 0

variable {cmp : T → T → ℤ} {items items' lo same hi : List T} {x y : T}

instance : Decidable (Increasing cmp items) :=
  inferInstanceAs (Decidable (items.Pairwise fun x y => cmp x y < 0))

instance : Decidable (HasEqual cmp items x) :=
  inferInstanceAs (Decidable (∃ y ∈ items, cmp y x = 0))

@[simp] lemma hasEqual_nil : ¬HasEqual cmp [] x := by simp [HasEqual]

@[simp] lemma hasEqual_cons :
    HasEqual cmp (y :: items) x ↔ cmp y x = 0 ∨ HasEqual cmp items x := by
  simp [HasEqual]

@[simp] lemma hasEqual_append :
    HasEqual cmp (items ++ items') x ↔ HasEqual cmp items x ∨ HasEqual cmp items' x := by
  simp only [HasEqual, mem_append]
  constructor
  · rintro ⟨y, hy | hy, h⟩
    · exact Or.inl ⟨y, hy, h⟩
    · exact Or.inr ⟨y, hy, h⟩
  · rintro (⟨y, hy, h⟩ | ⟨y, hy, h⟩)
    · exact ⟨y, Or.inl hy, h⟩
    · exact ⟨y, Or.inr hy, h⟩

lemma Increasing.lt_of_lt (h : Increasing cmp items) {i j : ℕ} (hx : items[i]? = some x)
    (hy : items[j]? = some y) (hij : i < j) : cmp x y < 0 := by
  obtain ⟨hi, rfl⟩ := List.getElem?_eq_some_iff.mp hx
  obtain ⟨hj, rfl⟩ := List.getElem?_eq_some_iff.mp hy
  exact pairwise_iff_getElem.mp h i j hi hj hij

/-- Increasing lists with the same items are the same. -/
lemma Increasing.eq_of_perm (hcmp : TotalPreorder cmp) (h : Increasing cmp items)
    (h' : Increasing cmp items') (hperm : items.Perm items') : items = items' := by
  refine Perm.eq_of_pairwise ?_ h h' hperm
  intro x y _ _ hxy hyx
  exact absurd ((hcmp.swap x y).mp hxy) (not_lt.mpr hyx.le)

/-- Two increasing lists, one after the other, are increasing when their ends are. -/
lemma Increasing.append_iff (hcmp : TotalPreorder cmp) (h : Increasing cmp (items ++ [x]))
    (h' : Increasing cmp (y :: items')) :
    Increasing cmp (items ++ [x] ++ y :: items') ↔ cmp x y < 0 := by
  unfold Increasing at *
  rw [pairwise_append]
  constructor
  · rintro ⟨-, -, hcross⟩
    exact hcross x (by simp) y (by simp)
  · intro hxy
    refine ⟨h, h', fun u hu v hv => ?_⟩
    have hux : cmp u x ≤ 0 := by
      rcases mem_append.mp hu with hu | hu
      · exact ((pairwise_append.mp h).2.2 u hu x (by simp)).le
      · rw [mem_singleton.mp hu, hcmp.refl]
    have hyv : cmp y v ≤ 0 := by
      rcases mem_cons.mp hv with rfl | hv
      · rw [hcmp.refl]
      · exact ((pairwise_cons.mp h').1 v hv).le
    exact hcmp.lt_of_le_of_lt hux (hcmp.lt_of_lt_of_le hxy hyv)

/-! ## Splitting at a value -/

/-- **The parts of a list around `x`.** -/
structure Around (cmp : T → T → ℤ) (items : List T) (x : T) (lo same hi : List T) : Prop where
  eq : items = lo ++ same ++ hi
  less : ∀ y ∈ lo, cmp y x < 0
  equal : same = [] ∨ ∃ y, same = [y] ∧ cmp y x = 0
  greater : ∀ y ∈ hi, 0 < cmp y x

namespace Around

lemma equal_of_mem (h : Around cmp items x lo same hi) (hy : y ∈ same) : cmp y x = 0 := by
  rcases h.equal with rfl | ⟨z, rfl, hz⟩
  · cases hy
  · rwa [mem_singleton.mp hy]

/-- With `x` in the place of what was equal to it, the list is increasing. -/
lemma increasing (hcmp : TotalPreorder cmp) (h : Around cmp items x lo same hi)
    (hinc : Increasing cmp items) : Increasing cmp (lo ++ x :: hi) := by
  unfold Increasing at *
  rw [h.eq, append_assoc, pairwise_append, pairwise_append] at hinc
  obtain ⟨hlo, ⟨-, hhi, -⟩, -⟩ := hinc
  have hx : ∀ y ∈ hi, cmp x y < 0 := fun y hy => (hcmp.swap x y).mpr (h.greater y hy)
  rw [pairwise_append, pairwise_cons]
  refine ⟨hlo, ⟨hx, hhi⟩, fun u hu v hv => ?_⟩
  rcases mem_cons.mp hv with rfl | hv
  · exact h.less u hu
  · exact hcmp.lt_trans (h.less u hu) (hx v hv)

/-- It has an item equal to `y` if there was one, or if `x` is. -/
lemma hasEqual (hcmp : TotalPreorder cmp) (h : Around cmp items x lo same hi) :
    HasEqual cmp (lo ++ x :: hi) y ↔ HasEqual cmp items y ∨ cmp x y = 0 := by
  rw [h.eq]
  simp only [hasEqual_append, hasEqual_cons]
  have hsame : HasEqual cmp same y → cmp x y = 0 := by
    rintro ⟨z, hz, hzy⟩
    exact hcmp.equal_trans (hcmp.symm (h.equal_of_mem hz)) hzy
  tauto

section

variable (h : Around cmp items x lo same hi)

include h

/-- There is something equal to `x` exactly when the middle is not empty. -/
lemma hasEqual_iff : HasEqual cmp items x ↔ same ≠ [] := by
  rw [h.eq]
  constructor
  · rintro ⟨y, hy, hyx⟩ rfl
    rw [append_nil, mem_append] at hy
    rcases hy with hy | hy
    · have := h.less y hy
      omega
    · have := h.greater y hy
      omega
  · intro hne
    obtain ⟨y, hy⟩ := exists_mem_of_ne_nil same hne
    exact ⟨y, by simp [hy], h.equal_of_mem hy⟩

/-- The item equal to `x`, by its index. -/
lemma eq_of_getElem? {i : ℕ} (hy : items[i]? = some y) (hyx : cmp y x = 0) :
    i = lo.length ∧ same = [y] := by
  rw [h.eq, append_assoc, getElem?_append] at hy
  split_ifs at hy with hlo
  · exact absurd (h.less y (mem_of_getElem? hy)) (by omega)
  rw [getElem?_append] at hy
  split_ifs at hy with hsame
  · rcases h.equal with rfl | ⟨z, rfl, -⟩
    · cases hy
    · rw [length_singleton] at hsame
      have hi : i - lo.length = 0 := by omega
      rw [hi] at hy
      cases hy
      exact ⟨by omega, rfl⟩
  · exact absurd (h.greater y (mem_of_getElem? hy)) (by omega)

/-- The part below `x` is what is less. -/
lemma countP_less : items.countP (fun y => cmp y x < 0) = lo.length := by
  have hsame : same.countP (fun y => cmp y x < 0) = 0 :=
    countP_eq_zero.mpr fun y hy => by simp [h.equal_of_mem hy]
  have hhi : hi.countP (fun y => cmp y x < 0) = 0 :=
    countP_eq_zero.mpr fun y hy => by simp [(h.greater y hy).le]
  have hlo : lo.countP (fun y => cmp y x < 0) = lo.length :=
    countP_eq_length.mpr fun y hy => by simp [h.less y hy]
  rw [h.eq, countP_append, countP_append, hlo, hsame, hhi, Nat.add_zero]

/-! The list as a map: what is found, when one item takes the place of what is equal to it. -/

lemma find?_eq : items.find? (fun y => cmp y x = 0) = same.head? := by
  have hlo : lo.find? (fun y => cmp y x = 0) = none :=
    find?_eq_none.mpr fun y hy => by simp [(h.less y hy).ne]
  have hhi : hi.find? (fun y => cmp y x = 0) = none :=
    find?_eq_none.mpr fun y hy => by simp [(h.greater y hy).ne']
  rw [h.eq, find?_append, find?_append, hlo, hhi]
  rcases h.equal with rfl | ⟨y, rfl, hy⟩
  · rfl
  · simp [hy]

end

lemma find?_replace (hcmp : TotalPreorder cmp) (h : Around cmp items x lo same hi)
    {new : List T} (hnew : new = [] ∨ new = [x]) (z : T) :
    (lo ++ new ++ hi).find? (fun y => cmp y z = 0) =
      if cmp x z = 0 then new.head? else items.find? (fun y => cmp y z = 0) := by
  split_ifs with hxz
  · have hcongr : ∀ y, cmp y z = 0 ↔ cmp y x = 0 := fun y =>
      ⟨fun hyz => hcmp.equal_trans hyz (hcmp.symm hxz), fun hyx => hcmp.equal_trans hyx hxz⟩
    simp only [hcongr]
    refine find?_eq ⟨rfl, h.less, ?_, h.greater⟩
    exact hnew.imp_right fun hx => ⟨x, hx, hcmp.refl x⟩
  · -- neither the new item nor what it replaces is found
    have hnone : ∀ y, cmp y x = 0 → ¬cmp y z = 0 := fun y hyx hyz =>
      hxz (hcmp.equal_trans (hcmp.symm hyx) hyz)
    have hnew : new.find? (fun y => cmp y z = 0) = none := by
      rcases hnew with rfl | rfl
      · rfl
      · simp [hxz]
    have hsame : same.find? (fun y => cmp y z = 0) = none :=
      find?_eq_none.mpr fun y hy => by simp [hnone y (h.equal_of_mem hy)]
    rw [h.eq]
    simp [hnew, hsame]

end Around

end Droid
