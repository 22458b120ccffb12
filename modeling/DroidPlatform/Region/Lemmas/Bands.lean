import DroidPlatform.Core.RunList
import DroidPlatform.Region.RegionOperator

/-!
# A rectangle list as a run list of bands

The rectangles of a valid region come in bands: rectangles of one band share top and bottom and
follow each other from left to right, and the bands follow each other from top to bottom.  So the
list is a run list in `y` whose values are run lists in `x` — `bands` — and the sweep of two
regions becomes a sweep of run lists at two levels.

* `Follows` — what `Region::validate` checks of two neighbours (`isChain_follows_of_validate`).
* `orderedFrom_bands`, `orderedFrom_of_mem_bands` — a valid list is an ordered run list at both
  levels.
* `inBands_iff` — looking a point up in the bands is asking for a rectangle that contains it.
-/

namespace Droid

open List

/-- A band: the run list of its rectangles' left and right edges, on its top and bottom. -/
abbrev Band := Run ℤ (List (Run ℤ Unit))

def spanRuns (dx : ℤ) (rects : List Rect) : List (Run ℤ Unit) :=
  rects.map fun r => ⟨r.left + dx, r.right + dx, ()⟩

/-- The bands of a list of rectangles translated by `(dx, dy)`. -/
def bands (dx dy : ℤ) : List Rect → List Band
  | [] => []
  | r :: rs =>
    ⟨r.top + dy, r.bottom + dy, spanRuns dx (r :: rs.takeWhile (·.top == r.top))⟩ ::
      bands dx dy (rs.dropWhile (·.top == r.top))
termination_by l => l.length
decreasing_by
  exact Nat.lt_succ_of_le (List.dropWhile_sublist _).length_le

/-- Looking a point up in a list of bands. -/
def InBands (bs : List Band) (x y : ℤ) : Prop :=
  ∃ spans, valueAt y bs = some spans ∧ valueAt x spans = some ()

/-! ## Validity, neighbour by neighbour -/

/-- `cur` may come right after `prev` in a valid region. -/
def Follows (prev cur : Rect) : Prop :=
  (cur.top = prev.top ∧ cur.bottom = prev.bottom ∧ prev.right ≤ cur.left) ∨
    (cur.top ≠ prev.top ∧ prev.bottom ≤ cur.top)

lemma isChain_follows_of_validate : ∀ (rs : List Rect) (b r : Rect),
    (Region.validateSpans b r rs).1 = true ↔ (r :: rs).IsChain Follows
  | [], b, r => by simp [Region.validateSpans]
  | c :: cs, b, r => by
    simp only [Region.validateSpans, isChain_cons_cons, Bool.and_eq_true]
    rw [isChain_follows_of_validate cs _ c]
    refine and_congr_left fun _ => ?_
    unfold Follows
    split_ifs <;> simp_all

lemma Region.Valid.isChain {reg : Region} (h : reg.Valid) : reg.getArray.IsChain Follows := by
  cases hl : reg.getArray with
  | nil => exact IsChain.nil
  | cons r rs => exact (isChain_follows_of_validate rs r r).mp (h.spans r rs hl)

/-! ## The first band and the rest -/

/-- The rectangles after `r` that share its top share its bottom, and run on to the right. -/
lemma band_of_isChain (dx : ℤ) : ∀ {rs : List Rect} {r : Rect} {t : ℤ}, r.top = t →
    (r :: rs).IsChain Follows → (∀ q ∈ r :: rs, q.HasArea) →
    OrderedFrom (r.left + dx) (spanRuns dx (r :: rs.takeWhile (·.top == t))) ∧
      (∀ q ∈ rs.takeWhile (·.top == t), q.top = r.top ∧ q.bottom = r.bottom)
  | [], r, t, _, _, ha => by
    have := (ha r (by simp)).1
    exact ⟨⟨le_rfl, by simpa using this, trivial⟩, by simp⟩
  | c :: cs, r, t, ht, hc, ha => by
    have harea := (ha r (by simp)).1
    rw [isChain_cons_cons] at hc
    by_cases hct : c.top = t
    · obtain ⟨hord, hsame⟩ := band_of_isChain dx hct hc.2
        (fun q hq => ha q (mem_cons_of_mem r hq))
      have hf : c.bottom = r.bottom ∧ r.right ≤ c.left := by
        rcases hc.1 with h | h
        · exact h.2
        · exact absurd (hct.trans ht.symm) h.1
      rw [takeWhile_cons_of_pos (by simpa using hct)]
      refine ⟨⟨le_rfl, by simpa using harea, hord.mono (by simpa using hf.2)⟩, ?_⟩
      rintro q hq
      rcases mem_cons.mp hq with rfl | hq
      · exact ⟨hct.trans ht.symm, hf.1⟩
      · exact ⟨(hsame q hq).1.trans (hct.trans ht.symm), (hsame q hq).2.trans hf.1⟩
    · rw [takeWhile_cons_of_neg (by simpa using hct)]
      exact ⟨⟨le_rfl, by simpa using harea, trivial⟩, by simp⟩

/-- What is left after the first band starts below it. -/
lemma rest_of_isChain : ∀ {rs : List Rect} {r : Rect} {t : ℤ}, r.top = t →
    (r :: rs).IsChain Follows →
    (rs.dropWhile (·.top == t)).IsChain Follows ∧
      ∀ q ∈ (rs.dropWhile (·.top == t)).head?, r.bottom ≤ q.top
  | [], r, t, _, _ => by simp
  | c :: cs, r, t, ht, hc => by
    rw [isChain_cons_cons] at hc
    by_cases hct : c.top = t
    · obtain ⟨hchain, hhead⟩ := rest_of_isChain hct hc.2
      have hb : c.bottom = r.bottom := by
        rcases hc.1 with h | h
        · exact h.2.1
        · exact absurd (hct.trans ht.symm) h.1
      rw [dropWhile_cons_of_pos (by simpa using hct)]
      exact ⟨hchain, hb ▸ hhead⟩
    · rw [dropWhile_cons_of_neg (by simpa using hct)]
      refine ⟨hc.2, ?_⟩
      rintro q ⟨⟩
      rcases hc.1 with h | h
      · exact absurd (h.1.trans ht) hct
      · exact h.2

variable (dx dy : ℤ) (l : List Rect)

/-- A band is made of rectangles of the list, at least one of them. -/
lemma exists_of_mem_bands : ∀ b ∈ bands dx dy l,
    ∃ r rs, (r :: rs).Sublist l ∧ b = ⟨r.top + dy, r.bottom + dy, spanRuns dx (r :: rs)⟩ := by
  induction l using bands.induct with
  | case1 => simp [bands]
  | case2 r rs ih =>
    rw [bands]
    intro b hb
    rcases mem_cons.mp hb with rfl | hb
    · exact ⟨r, _, (takeWhile_sublist _).cons_cons r, rfl⟩
    · obtain ⟨q, qs, hsub, heq⟩ := ih b hb
      exact ⟨q, qs, (hsub.trans (dropWhile_sublist _)).cons r, heq⟩

lemma length_bands_le : (bands dx dy l).length ≤ l.length := by
  induction l using bands.induct with
  | case1 => simp [bands]
  | case2 r rs ih =>
    rw [bands, length_cons, length_cons]
    have := (dropWhile_sublist (l := rs) (·.top == r.top)).length_le
    omega

/-! ## Order at both levels -/

/-- **The bands of a valid list are ordered from its first top on.** -/
theorem orderedFrom_bands (hc : l.IsChain Follows) (ha : ∀ q ∈ l, q.HasArea) {p : ℤ}
    (hp : ∀ r ∈ l.head?, p ≤ r.top + dy) : OrderedFrom p (bands dx dy l) := by
  induction l using bands.induct generalizing p with
  | case1 => simp [bands]
  | case2 r rs ih =>
    rw [bands]
    obtain ⟨hchain, hhead⟩ := rest_of_isChain rfl hc
    have harea := (ha r (by simp)).2
    refine ⟨hp r (by simp), by simp only []; omega, ih hchain ?_ ?_⟩
    · exact fun q hq => ha q (mem_cons_of_mem r (dropWhile_subset _ hq))
    · intro q hq
      have := hhead q hq
      simp only []
      omega

/-- **Each band of a valid list is ordered from the first left edge on.** -/
theorem orderedFrom_of_mem_bands (hc : l.IsChain Follows) (ha : ∀ q ∈ l, q.HasArea) {p : ℤ}
    (hp : ∀ r ∈ l, p ≤ r.left + dx) : ∀ b ∈ bands dx dy l, OrderedFrom p b.val := by
  induction l using bands.induct with
  | case1 => simp [bands]
  | case2 r rs ih =>
    rw [bands]
    intro b hb
    rcases mem_cons.mp hb with rfl | hb
    · exact (band_of_isChain dx rfl hc ha).1.mono (hp r (by simp))
    · refine ih (rest_of_isChain rfl hc).1 ?_ ?_ b hb
      · exact fun q hq => ha q (mem_cons_of_mem r (dropWhile_subset _ hq))
      · exact fun q hq => hp q (mem_cons_of_mem r (dropWhile_subset _ hq))

/-! ## Points -/

lemma valueAt_spanRuns (dx x : ℤ) (rects : List Rect) :
    valueAt x (spanRuns dx rects) = some () ↔ ∃ r ∈ rects, r.left ≤ x - dx ∧ x - dx < r.right := by
  induction rects with
  | nil => simp [spanRuns]
  | cons r rs ih =>
    simp only [spanRuns, map_cons, valueAt, Run.Covers, exists_mem_cons_iff] at ih ⊢
    split_ifs with h
    · refine iff_of_true rfl (Or.inl ⟨by omega, by omega⟩)
    · rw [ih]
      refine ⟨Or.inr, ?_⟩
      rintro (h' | h')
      · exact absurd ⟨by omega, by omega⟩ h
      · exact h'

/-- **Points of the bands are points of the rectangles.** -/
theorem inBands_iff (hc : l.IsChain Follows) (ha : ∀ q ∈ l, q.HasArea) (x y : ℤ) :
    InBands (bands dx dy l) x y ↔ ∃ r ∈ l, r.Contains (x - dx) (y - dy) := by
  induction l using bands.induct with
  | case1 => simp [bands, InBands]
  | case2 r rs ih =>
    obtain ⟨hchain, hhead⟩ := rest_of_isChain rfl hc
    obtain ⟨_, hsame⟩ := band_of_isChain dx rfl hc ha
    have ha' : ∀ q ∈ rs.dropWhile (·.top == r.top), q.HasArea :=
      fun q hq => ha q (mem_cons_of_mem r (dropWhile_subset _ hq))
    have hrest := ih hchain ha'
    have hsplit : r :: rs
        = (r :: rs.takeWhile (·.top == r.top)) ++ rs.dropWhile (·.top == r.top) := by
      rw [cons_append, takeWhile_append_dropWhile]
    have hmem : ∀ q ∈ r :: rs.takeWhile (·.top == r.top), q.top = r.top ∧ q.bottom = r.bottom := by
      rintro q hq
      rcases mem_cons.mp hq with rfl | hq
      · exact ⟨rfl, rfl⟩
      · exact hsame q hq
    have hord : OrderedFrom (r.bottom + dy) (bands dx dy (rs.dropWhile (·.top == r.top))) :=
      orderedFrom_bands dx dy _ hchain ha' fun q hq => by have := hhead q hq; omega
    have hR : (∃ q ∈ r :: rs, q.Contains (x - dx) (y - dy)) ↔
        (∃ q ∈ r :: rs.takeWhile (·.top == r.top), q.Contains (x - dx) (y - dy)) ∨
          InBands (bands dx dy (rs.dropWhile (·.top == r.top))) x y := by
      rw [hrest]
      conv_lhs => rw [hsplit]
      simp only [mem_append, or_and_right, exists_or]
    rw [hR, bands, InBands, valueAt]
    by_cases hy : r.top + dy ≤ y ∧ y < r.bottom + dy
    · -- inside the first band, where none of the later bands reach
      have hnone : ¬ InBands (bands dx dy (rs.dropWhile (·.top == r.top))) x y := by
        rintro ⟨spans, hs, _⟩
        rw [valueAt_eq_none hord hy.2] at hs
        simp at hs
      rw [if_pos (hy), or_iff_left hnone]
      simp only [Option.some.injEq, exists_eq_left', valueAt_spanRuns]
      refine exists_congr fun q => and_congr_right fun hq => ?_
      have := hmem q hq
      exact ⟨fun h => ⟨h, by omega⟩, fun h => h.1⟩
    · rw [if_neg (hy)]
      refine ⟨Or.inr, ?_⟩
      rintro (⟨q, hq, h⟩ | h)
      · have := hmem q hq
        exact absurd ⟨by have := h.2; omega, by have := h.2; omega⟩ hy
      · exact h

end Droid
