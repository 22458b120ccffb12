import DroidPlatform.Region.Lemmas.Rasterizer

/-!
# Boolean operations are exact on points

`booleanOperation` on two valid regions whose coordinates stay below the sweep's sentinel
terminates, within twice as many turns of each loop as there are rectangles, and leaves a region
whose pixels are the ones the operator asks for (`booleanOperation_contains_iff`).

The proof goes down to bands and up again: the operands are read as bands (`Region.Valid.operand`,
`Region.Valid.contains_iff`), the operator emits strips with the right points
(`Emits.inBands_iff`), the rasterizer coalesces them (`Receives.finish`), and the region it leaves
has the points of its bands (`Region.HasBands.contains_iff`).
-/

namespace Droid

/-- Every coordinate of `reg` translated by `(dx, dy)` is an `int32_t` below `max_value`. -/
def Region.InRange (reg : Region) (dx dy : ℤ) : Prop :=
  (⟨reg.getArray, dx, dy⟩ : OpRegion).InRange

/-- Enough turns for both loops of the region operator. -/
def enoughFuel (lhs rhs : Region) : ℕ := 2 * (lhs.getArray.length + rhs.getArray.length) + 2

/-! ## Operands as bands -/

variable {reg : Region} {dx dy : ℤ}

lemma Region.Valid.operand (h : reg.Valid) (hr : reg.InRange dx dy) :
    (⟨reg.getArray, dx, dy⟩ : OpRegion).Operand where
  isChain := h.isChain
  hasArea := h.hasArea
  inRange := hr

lemma Region.Valid.contains_iff (h : reg.Valid) (x y : ℤ) :
    reg.Contains x y ↔ ∃ r ∈ reg.getArray, r.Contains x y := by
  rw [Contains, getArray, isRect]
  by_cases hs : reg.mStorage = []
  · rw [hs]
    cases he : reg.isEmpty with
    | false => simp
    | true =>
      have hno : ¬ reg.mBounds.Contains x y :=
        fun hc => h.isEmpty hs he (Rect.hasArea_of_contains hc)
      simp [hno]
  · rw [if_neg hs, List.isEmpty_eq_false_iff.mpr hs]
    simp

lemma Region.Valid.inBands_iff (h : reg.Valid) (dx dy x y : ℤ) :
    InBands (bands dx dy reg.getArray) x y ↔ reg.Contains (x - dx) (y - dy) := by
  rw [Droid.inBands_iff dx dy _ h.isChain h.hasArea, h.contains_iff]

/-! ## Results as bands -/

/-- Bands in canonical form: ordered and separated at both levels, and none of them empty. -/
structure CanonicalBands (bs : List Band) : Prop where
  vals : ∀ b ∈ bs, b.val ≠ []
  ordered : OrderedFrom intMin bs
  separated : Separated bs
  spansOrdered : ∀ b ∈ bs, OrderedFrom intMin b.val
  spansSeparated : ∀ b ∈ bs, Separated b.val

variable {bs : List Band}

lemma CanonicalBands.inBands_iff (h : CanonicalBands bs) (x y : ℤ) :
    InBands bs x y ↔ ∃ rect ∈ bandRects bs, rect.Contains x y := by
  simp only [InBands, valueAt_eq_some_iff h.ordered]
  refine ⟨?_, ?_⟩
  · rintro ⟨_, ⟨b, hb, hy, rfl⟩, hx⟩
    obtain ⟨r, hr, hx, _⟩ := (valueAt_eq_some_iff (h.spansOrdered b hb)).mp hx
    exact ⟨_, mem_bandRects.mpr ⟨b, hb, r, hr, rfl⟩, hx, hy⟩
  · rintro ⟨_, hrect, hx, hy⟩
    obtain ⟨b, hb, r, hr, rfl⟩ := mem_bandRects.mp hrect
    exact ⟨b.val, ⟨b, hb, hy, rfl⟩,
      (valueAt_eq_some_iff (h.spansOrdered b hb)).mpr ⟨r, hr, hx, rfl⟩⟩

lemma Region.HasBands.bounds_of_length_one (h : reg.HasBands bs) {rect : Rect}
    (hrect : bandRects bs = [rect]) : reg.mBounds = rect := by
  have hne : bs ≠ [] := by
    rintro rfl
    simp [bandRects] at hrect
  have hbox := h.isBox hne
  rw [hrect] at hbox
  exact hbox.unique (isBox_singleton rect)

/-- The pixels of a region are the points of its bands. -/
lemma Region.HasBands.contains_iff (h : reg.HasBands bs) (hbs : CanonicalBands bs) (x y : ℤ) :
    reg.Contains x y ↔ InBands bs x y := by
  rw [hbs.inBands_iff, Contains, h.storage]
  by_cases hone : (bandRects bs).length = 1
  · obtain ⟨rect, hrect⟩ := List.length_eq_one_iff.mp hone
    rw [if_pos hone, h.bounds_of_length_one hrect, hrect]
    simp
  · rw [if_neg hone]
    by_cases hnil : bandRects bs = []
    · have hz := h.zero ((bandRects_eq_nil hbs.vals).mp hnil)
      rw [if_pos hnil, hz, hnil]
      simp only [Rect.Contains, Rect.zero, List.not_mem_nil, false_and, exists_false, iff_false]
      omega
    · rw [if_neg hnil]

/-! ## The operation -/

variable {strips : List Band}

section

variable (hord : OrderedFrom intMin strips) (hspans : ∀ s ∈ strips, OrderedFrom intMin s.val)

include hord hspans

/-- Coalescing the strips changes none of their points. -/
lemma inBands_coalesce (x y : ℤ) :
    InBands (coalesce (filterVals joinSpans strips)) x y ↔ InBands strips x y := by
  rw [InBands, InBands, valueAt_coalesce y (hord.filterVals joinSpans),
    valueAt_filterVals joinSpans y hord]
  cases hv : valueAt y strips with
  | none => simp
  | some runs =>
    obtain ⟨s, hs, _, rfl⟩ := (valueAt_eq_some_iff hord).mp hv
    simp only [Option.bind_some, joinSpans]
    split_ifs with hnil
    · simp [hnil]
    · simp [valueAt_coalesce x (hspans s hs)]

lemma canonicalBands_coalesce : CanonicalBands (coalesce (filterVals joinSpans strips)) := by
  have hval : ∀ b ∈ coalesce (filterVals joinSpans strips),
      ∃ s ∈ strips, s.val ≠ [] ∧ coalesce s.val = b.val := by
    intro b hb
    obtain ⟨r, hr, _, hrb⟩ := exists_of_mem_coalesce hb
    obtain ⟨s, hs, hsr⟩ := exists_of_mem_filterVals hr
    rw [joinSpans] at hsr
    split_ifs at hsr with hnil
    exact ⟨s, hs, hnil, (Option.some.inj hsr).trans hrb⟩
  refine ⟨?_, (hord.filterVals joinSpans).coalesce, separated_coalesce _, ?_, ?_⟩
  · intro b hb
    obtain ⟨s, _, hne, heq⟩ := hval b hb
    exact heq ▸ mt coalesce_eq_nil.mp hne
  · intro b hb
    obtain ⟨s, hs, _, heq⟩ := hval b hb
    exact heq ▸ (hspans s hs).coalesce
  · intro b hb
    obtain ⟨s, _, _, heq⟩ := hval b hb
    exact heq ▸ separated_coalesce s.val

end

lemma receives_init (dst : Region) : Receives (Rasterizer.init dst) [] :=
  .nil ⟨rfl, rfl, rfl, by simp, ⟨fun _ => rfl, by simp, by simp, by simp⟩⟩ rfl

/-- **The boolean operations, in terms of bands.** -/
theorem booleanOperation_hasBands (op : RegionOp) (dst : Region) {lhs rhs : Region} (hl : lhs.Valid)
    (hr : rhs.Valid) (hlr : lhs.InRange 0 0) (hrr : rhs.InRange dx dy) {fuel : ℕ}
    (hfuel : enoughFuel lhs rhs ≤ fuel) :
    ∃ reg bs, booleanOperation fuel op dst lhs rhs dx dy = some reg ∧ reg.HasBands bs ∧
      CanonicalBands bs ∧
      ∀ x y, InBands bs x y ↔ op.Holds (lhs.Contains x y) (rhs.Contains (x - dx) (y - dy)) := by
  have hlO := hl.operand hlr
  have hrO := hr.operand hrr
  obtain ⟨strips, hop, hemits⟩ := regionOperator_emits Rasterizer.add op hlO hrO
    hfuel (Rasterizer.init dst)
  have hord := hemits.orderedFrom hlO.orderedFrom hrO.orderedFrom
  have hspans := hemits.spans hlO.spans_orderedFrom hrO.spans_orderedFrom
  have hmax := hemits.lo_lt_maxValue hlO.orderedFrom hrO.orderedFrom
    (fun b hb => ⟨hlO.spans_orderedFrom b hb, hlO.spans_belowMax b hb⟩)
    fun b hb => ⟨hrO.spans_orderedFrom b hb, hrO.spans_belowMax b hb⟩
  have hflush : ∀ s ∈ strips, s.val ≠ [] → Flushable s := by
    intro s hs hne
    exact ⟨hne, hspans s hs, fun r hr => lt_trans (hmax s hs r hr) (by decide)⟩
  have hrec := (receives_init dst).foldl_add hord (by simp) hflush
  rw [List.nil_append] at hrec
  refine ⟨_, _, ?_, hrec.finish (hord.filterVals joinSpans), canonicalBands_coalesce hord hspans, ?_⟩
  · rw [booleanOperation, hop]
    rfl
  · intro x y
    rw [inBands_coalesce hord hspans, hemits.inBands_iff x y hlO.orderedFrom hrO.orderedFrom
      hlO.spans_orderedFrom hrO.spans_orderedFrom, hl.inBands_iff, hr.inBands_iff, sub_zero, sub_zero]

/-- **Boolean operations are exact on points.**  On valid operands in range, and whatever `dst`
held before, the operation terminates and the region it stores has exactly the pixels at which the
operator holds of the operands' pixels. -/
theorem booleanOperation_contains_iff (op : RegionOp) (dst lhs rhs : Region) (dx dy : ℤ)
    (hl : lhs.Valid) (hr : rhs.Valid) (hlr : lhs.InRange 0 0) (hrr : rhs.InRange dx dy) (fuel : ℕ)
    (hfuel : enoughFuel lhs rhs ≤ fuel) :
    ∃ reg, booleanOperation fuel op dst lhs rhs dx dy = some reg ∧
      ∀ x y, reg.Contains x y ↔
        op.Holds (lhs.Contains x y) (rhs.Contains (x - dx) (y - dy)) := by
  obtain ⟨reg, bs, hreg, hbands, hcanon, hpoints⟩ :=
    booleanOperation_hasBands op dst hl hr hlr hrr hfuel
  refine ⟨reg, hreg, ?_⟩
  intro x y
  rw [hbands.contains_iff hcanon, hpoints]

/-- An L-shaped region of two bands. -/
def ellRegion : Region := ⟨⟨0, 0, 4, 4⟩, [⟨0, 0, 4, 2⟩, ⟨0, 2, 2, 4⟩]⟩

lemma ellRegion_valid : ellRegion.Valid where
  hasArea := by decide
  spans := by
    rintro r rs h
    cases h
    decide
  isEmpty := by decide

theorem booleanOperation_contains_iff_ell :
    ∃ reg, booleanOperation 10 .opXor .empty ellRegion ellRegion 3 (-1) = some reg ∧
      ∀ x y, reg.Contains x y ↔
        RegionOp.opXor.Holds (ellRegion.Contains x y) (ellRegion.Contains (x - 3) (y - -1)) :=
  booleanOperation_contains_iff .opXor .empty ellRegion ellRegion 3 (-1) ellRegion_valid
    ellRegion_valid (by unfold Region.InRange OpRegion.InRange IsCoord; decide)
    (by unfold Region.InRange OpRegion.InRange IsCoord; decide) 10 (by decide)

end Droid
