import DroidPlatform.Vector.SortedVector

/-!
# Merging sorted vectors

`merge` of a sorted vector should amount to adding its items one by one.  It takes two short cuts,
when the items of one vector all come before those of the other, and decides by the items at the
ends.

**Where the short cuts go wrong.**

* *An empty receiver* has no items at its ends; `do_compare` is handed a null pointer, or storage in
  which no item lives.
* *Ranges that touch* are taken for disjoint ones: if the last item of one vector compares equal to
  the first of the other, both are kept.

`Apart` excludes the two cases, and nothing else.
-/

namespace Droid

open List

open scoped List

namespace SortedVectorImpl

variable {T : Type} {do_compare : T → T → ℤ} {items vector : List T} {merged : List T}

/-! ## Item by item -/

/-- **Adding items one by one** keeps the order, and gives the union. -/
theorem mergeItems_spec (hcmp : TotalPreorder do_compare) (vector : List T) :
    ∀ {items : List T}, Increasing do_compare items → ∃ merged,
      mergeItems do_compare items vector = some (merged, Status.ok) ∧
        Increasing do_compare merged ∧ ∀ x, HasEqual do_compare merged x ↔
          HasEqual do_compare items x ∨ HasEqual do_compare vector x := by
  induction vector with
  | nil =>
    intro items hinc
    exact ⟨items, rfl, hinc, by simp⟩
  | cons item rest ih =>
    intro items hinc
    obtain ⟨lo, same, hi, haround, hadd⟩ := add_spec hcmp hinc item
    obtain ⟨merged, hmerge, hmerged, hunion⟩ := ih (haround.increasing hcmp hinc)
    refine ⟨merged, ?_, hmerged, fun x => ?_⟩
    · simp only [mergeItems, hadd, Option.bind_eq_bind, Option.bind_some]
      rw [if_neg (by omega), hmerge]
    · rw [hunion, haround.hasEqual hcmp, hasEqual_cons, or_assoc]

/-- If no item is equal to one that is there, none is lost. -/
lemma mergeItems_perm (hcmp : TotalPreorder do_compare) :
    ∀ {vector items : List T}, Increasing do_compare vector → Increasing do_compare items →
      (∀ x ∈ vector, ¬HasEqual do_compare items x) → ∃ merged,
        mergeItems do_compare items vector = some (merged, Status.ok) ∧
          Increasing do_compare merged ∧ merged.Perm (vector ++ items) := by
  intro vector
  induction vector with
  | nil =>
    intro items _ hinc _
    exact ⟨items, rfl, hinc, Perm.refl _⟩
  | cons item rest ih =>
    intro items hvector hinc hnew
    obtain ⟨lo, same, hi, haround, hadd⟩ := add_spec hcmp hinc item
    have hsame : same = [] := by
      by_contra hne
      exact hnew item (by simp) (haround.hasEqual_iff.mpr hne)
    subst hsame
    obtain ⟨hless, hrest⟩ := pairwise_cons.mp hvector
    have hnew' : ∀ x ∈ rest, ¬HasEqual do_compare (lo ++ item :: hi) x := by
      intro x hx hequal
      rcases (haround.hasEqual hcmp).mp hequal with hequal | hequal
      · exact hnew x (mem_cons_of_mem _ hx) hequal
      · have := hless x hx
        omega
    obtain ⟨merged, hmerge, hmerged, hperm⟩ := ih hrest (haround.increasing hcmp hinc) hnew'
    refine ⟨merged, ?_, hmerged, ?_⟩
    · simp only [mergeItems, hadd, Option.bind_eq_bind, Option.bind_some]
      rw [if_neg (by omega), hmerge]
    · have heq := haround.eq
      rw [append_nil] at heq
      calc merged
        _ ~ rest ++ (lo ++ item :: hi) := hperm
        _ ~ rest ++ item :: (lo ++ hi) := perm_middle.append_left rest
        _ ~ item :: (rest ++ (lo ++ hi)) := perm_middle
        _ = item :: rest ++ items := by rw [heq, cons_append]

/-- Adding one by one the items of a vector that lies before or behind puts it there. -/
lemma mergeItems_eq (hcmp : TotalPreorder do_compare) (hinc : Increasing do_compare items)
    (hvector : Increasing do_compare vector) (hmerged : Increasing do_compare merged)
    (hperm : merged ~ vector ++ items) (hne : ∀ y ∈ items, ∀ x ∈ vector, do_compare y x ≠ 0) :
    mergeItems do_compare items vector = some (merged, Status.ok) := by
  have hnew : ∀ x ∈ vector, ¬HasEqual do_compare items x := by
    rintro x hx ⟨y, hy, hyx⟩
    exact hne y hy x hx hyx
  obtain ⟨merged', hmerge, hmerged', hperm'⟩ := mergeItems_perm hcmp hvector hinc hnew
  rw [hmerge, hmerged'.eq_of_perm hcmp hmerged (hperm'.trans hperm.symm)]

/-! ## The short cuts -/

/-- **What merging is for**: the vector stays increasing and holds the items of both, as if those
of the other had been added one by one. -/
def KeepsSet (do_compare : T → T → ℤ) (items vector : List T) : Prop :=
  ∃ merged err, merge do_compare items vector = some (merged, err) ∧ 0 ≤ err ∧
    Increasing do_compare merged ∧
    (∀ x, HasEqual do_compare merged x ↔
      HasEqual do_compare items x ∨ HasEqual do_compare vector x) ∧
    mergeItems do_compare items vector = some (merged, Status.ok)

/-- There is nothing to merge, or there are items on both sides and the ranges do not touch. -/
def Apart (do_compare : T → T → ℤ) (items vector : List T) : Prop :=
  vector = [] ∨ ∃ front ∈ items.head?, ∃ back ∈ items.getLast?, ∃ first ∈ vector.head?,
    ∃ last ∈ vector.getLast?, do_compare last front ≠ 0 ∧ do_compare first back ≠ 0

variable {front back first last : T} {err : ℤ}

/-- The vectors one after the other are increasing if their ends are. -/
lemma increasing_append_iff (hcmp : TotalPreorder do_compare) (hinc : Increasing do_compare items)
    (hvector : Increasing do_compare vector) (hlast : last ∈ items.getLast?)
    (hfirst : first ∈ vector.head?) :
    Increasing do_compare (items ++ vector) ↔ do_compare last first < 0 := by
  obtain ⟨items, rfl⟩ := getLast?_eq_some_iff.mp hlast
  obtain ⟨vector, rfl⟩ := head?_eq_some_iff.mp hfirst
  exact Increasing.append_iff hcmp hinc hvector

/-- Either order of two vectors that is increasing is what adding one by one gives. -/
lemma mergeItems_append (hcmp : TotalPreorder do_compare) {before behind : List T}
    (hinc : Increasing do_compare (before ++ behind)) :
    mergeItems do_compare behind before = some (before ++ behind, Status.ok) ∧
      mergeItems do_compare before behind = some (before ++ behind, Status.ok) := by
  obtain ⟨hbefore, hbehind, hcross⟩ := pairwise_append.mp hinc
  constructor
  · refine mergeItems_eq hcmp hbehind hbefore hinc (Perm.refl _) fun y hy x hx => ?_
    have := (hcmp.swap x y).mp (hcross x hx y hy)
    omega
  · refine mergeItems_eq hcmp hbefore hbehind hinc perm_append_comm fun y hy x hx => ?_
    have := hcross y hy x hx
    omega

/-- What `merge` does when both vectors have items. -/
lemma merge_eq (do_compare : T → T → ℤ) (hfront : front ∈ items.head?)
    (hback : back ∈ items.getLast?) (hfirst : first ∈ vector.head?) (hlast : last ∈ vector.getLast?) :
    merge do_compare items vector =
      if do_compare last front ≤ 0 then some (vector ++ items, 0)
      else if 0 ≤ do_compare first back then some (items ++ vector, (items.length : ℤ))
      else mergeItems do_compare items vector := by
  have hne : ¬vector.isEmpty := by
    cases vector with
    | nil => cases hfirst
    | cons _ _ => exact Bool.false_ne_true
  rw [merge, if_neg hne, hfront, hback, hfirst, hlast]
  simp [insertVectorAt, appendVector]

/-- An increasing vector's first item is not greater than its last. -/
lemma head_le_getLast (hcmp : TotalPreorder do_compare) (hinc : Increasing do_compare items)
    (hfront : front ∈ items.head?) (hback : back ∈ items.getLast?) : do_compare front back ≤ 0 := by
  obtain ⟨items, rfl⟩ := head?_eq_some_iff.mp hfront
  rcases mem_cons.mp (mem_of_mem_getLast? hback) with rfl | hmem
  · exact (hcmp.refl back).le
  · exact ((pairwise_cons.mp hinc).1 back hmem).le

/-- It is enough that the result is the one of adding one by one. -/
lemma KeepsSet.of_merge (hcmp : TotalPreorder do_compare) (hinc : Increasing do_compare items)
    (hmerge : merge do_compare items vector = some (merged, err)) (herr : 0 ≤ err)
    (hone : mergeItems do_compare items vector = some (merged, Status.ok)) :
    KeepsSet do_compare items vector := by
  obtain ⟨merged, hitems, hmerged, hunion⟩ := mergeItems_spec hcmp vector hinc
  cases hone.symm.trans hitems
  exact ⟨_, err, hmerge, herr, hmerged, hunion, hone⟩

lemma KeepsSet.increasing (h : KeepsSet do_compare items vector)
    (hmerge : merge do_compare items vector = some (merged, err)) :
    Increasing do_compare merged := by
  obtain ⟨merged', err', hmerge', -, hinc, -⟩ := h
  cases hmerge.symm.trans hmerge'
  exact hinc

/-- The three ways of merging, when both vectors have items. -/
lemma keepsSet_iff_of_ends (hcmp : TotalPreorder do_compare) (hinc : Increasing do_compare items)
    (hvector : Increasing do_compare vector) (hfront : front ∈ items.head?)
    (hback : back ∈ items.getLast?) (hfirst : first ∈ vector.head?)
    (hlast : last ∈ vector.getLast?) :
    KeepsSet do_compare items vector ↔ do_compare last front ≠ 0 ∧ do_compare first back ≠ 0 := by
  have hmerge := merge_eq do_compare hfront hback hfirst hlast
  have hbefore := increasing_append_iff hcmp hvector hinc hlast hfront
  have hbehind := increasing_append_iff hcmp hinc hvector hback hfirst
  have hswap := hcmp.swap back first
  split_ifs at hmerge with hle hge
  · -- the vector goes to the front
    constructor
    · intro hkeeps
      have hlt : do_compare last front < 0 := hbefore.mp (hkeeps.increasing hmerge)
      have hfirstlast : do_compare first last ≤ 0 := head_le_getLast hcmp hvector hfirst hlast
      have hfrontback : do_compare front back ≤ 0 := head_le_getLast hcmp hinc hfront hback
      exact ⟨hlt.ne, (hcmp.lt_of_lt_of_le (hcmp.lt_of_le_of_lt hfirstlast hlt) hfrontback).ne⟩
    · rintro ⟨hne, -⟩
      have happend := mergeItems_append hcmp (hbefore.mpr (lt_of_le_of_ne hle hne))
      exact KeepsSet.of_merge hcmp hinc hmerge le_rfl happend.1
  · -- it goes to the end
    constructor
    · intro hkeeps
      have hlt : do_compare back first < 0 := hbehind.mp (hkeeps.increasing hmerge)
      exact ⟨by omega, by omega⟩
    · rintro ⟨-, hne⟩
      have happend := mergeItems_append hcmp (hbehind.mpr (by omega))
      exact KeepsSet.of_merge hcmp hinc hmerge (by omega) happend.2
  · obtain ⟨merged, hitems, -⟩ := mergeItems_spec hcmp vector hinc
    refine iff_of_true (KeepsSet.of_merge hcmp hinc (hmerge.trans hitems) le_rfl hitems) ?_
    exact ⟨by omega, by omega⟩

/-- **Merging keeps the set** of two vectors exactly when the receiver is not empty and the ranges do
not touch (or nothing is merged). -/
theorem merge_keepsSet_iff (hcmp : TotalPreorder do_compare) (hinc : Increasing do_compare items)
    (hvector : Increasing do_compare vector) :
    KeepsSet do_compare items vector ↔ Apart do_compare items vector := by
  rcases vector.eq_nil_or_concat with rfl | ⟨start, last, hconcat⟩
  · exact iff_of_true ⟨items, 0, rfl, le_rfl, hinc, by simp, rfl⟩ (Or.inl rfl)
  have hlast : last ∈ vector.getLast? := by simp [hconcat]
  obtain ⟨first, rest, rfl⟩ : ∃ first rest, vector = first :: rest :=
    exists_cons_of_ne_nil (by simp [hconcat])
  rcases items.eq_nil_or_concat with rfl | ⟨init, back, hitems⟩
  · -- there is no item at the ends of an empty receiver
    refine iff_of_false ?_ ?_
    · rintro ⟨merged, err, hmerge, -⟩
      simp [merge] at hmerge
    · rintro (hnil | ⟨front, hfront, -⟩)
      · cases hnil
      · cases hfront
  · have hback : back ∈ items.getLast? := by simp [hitems]
    obtain ⟨front, others, rfl⟩ : ∃ front others, items = front :: others :=
      exists_cons_of_ne_nil (by simp [hitems])
    rw [keepsSet_iff_of_ends hcmp hinc hvector rfl hback rfl hlast]
    rw [Option.mem_def] at hback hlast
    simp [Apart, hback, hlast]

/-! ## Instances -/

lemma totalPreorder_sub : TotalPreorder fun x y : ℤ => x - y :=
  ⟨fun x y => by omega, fun hxy hyz => by omega⟩

/-- Overlapping ranges are merged. -/
theorem merge_keepsSet_overlap : KeepsSet (fun x y : ℤ => x - y) [1, 3, 5] [2, 3, 7] :=
  (merge_keepsSet_iff totalPreorder_sub (by decide) (by decide)).mpr
    (Or.inr ⟨1, rfl, 5, rfl, 2, rfl, 7, rfl, by decide, by decide⟩)

/-- An empty receiver has no item to compare, and an item on the edge is there twice. -/
theorem merge_loses_set :
    merge (fun x y : ℤ => x - y) [] [1] = none ∧
      merge (fun x y : ℤ => x - y) [1, 2] [2, 3] = some ([1, 2, 2, 3], 2) ∧
      mergeItems (fun x y : ℤ => x - y) [1, 2] [2, 3] = some ([1, 2, 3], 0) ∧
      ¬KeepsSet (fun x y : ℤ => x - y) [] [1] ∧ ¬KeepsSet (fun x y : ℤ => x - y) [1, 2] [2, 3] := by
  refine ⟨by decide, by decide, by decide, ?_, ?_⟩
  · rintro ⟨merged, err, hmerge, -⟩
    cases hmerge
  · intro hkeeps
    have hinc := hkeeps.increasing (show _ = some ([1, 2, 2, 3], 2) by decide)
    exact absurd hinc (by decide)

end SortedVectorImpl

end Droid
