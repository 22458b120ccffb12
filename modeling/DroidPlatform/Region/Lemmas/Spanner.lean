import DroidPlatform.Core.Sweep
import DroidPlatform.Region.Lemmas.Bands

/-!
# The spanners sweep run lists

Both spanners refine the same abstract step.  `ends` reads the current interval off a run list,
with the sentinel for an exhausted one, and `SpannerBase.next` on those intervals is exactly one
`SweepStep` (`next_sweepStep`): what it reports is the piece, a side that asks for `more` loses its
front run, and a side that does not has it clipped to the new head.

`advanceSpan` and `advanceBand` then supply the next front run (`ShowsSpans.advance`,
`ShowsBands.advance`), so the inner loop runs a `Sweep` of two bands (`innerLoop_sweeps`) and the
whole operator a sweep of bands with an inner sweep in every strip (`regionOperator_emits`).
-/

namespace Droid

open List SpannerBase OpRegion

variable {α β : Type*} {reg : OpRegion} {l : List (Run ℤ α)} {hd hd' p tl tl' : ℤ}
  {runs : List Band} {as bs : List (Run ℤ Unit)} {s : SpannerInner} {more : Bool}

/-- The current interval of a side: that of the front run, or the sentinel. -/
def ends : List (Run ℤ α) → ℤ × ℤ
  | [] => (maxValue, maxValue)
  | r :: _ => (r.lo, r.hi)

/-- Every run ends before the sentinel. -/
def BelowMax (l : List (Run ℤ α)) : Prop := ∀ r ∈ l, r.hi < maxValue

def Side.inside : Side α β → Inside
  | left _ => .lhsBeforeRhs
  | right _ => .lhsAfterRhs
  | both _ _ => .lhsCoincideRhs

@[simp] lemma ends_nil : ends ([] : List (Run ℤ α)) = (maxValue, maxValue) := rfl

lemma BelowMax.tail (h : BelowMax l) : BelowMax l.tail :=
  fun r hr => h r (mem_of_mem_tail hr)

lemma BelowMax.clipHead (h : BelowMax l) (p : ℤ) : BelowMax (clipHead p l) := by
  cases l with
  | nil => exact h
  | cons r rs =>
    intro q hq
    rcases mem_cons.mp hq with rfl | hq
    · exact h r (by simp)
    · exact h q (mem_cons_of_mem r hq)

/-- What is left of a side after `next`: its front run is used up, or clipped to the new head. -/
def leftover (more : Bool) (head : ℤ) (l : List (Run ℤ α)) : List (Run ℤ α) :=
  if more then l.tail else clipHead head l

@[simp] lemma leftover_false (head : ℤ) (l : List (Run ℤ α)) :
    leftover false head l = clipHead head l := rfl

/-! ## One call of `SpannerBase.next` -/

section Next

variable {lh lt rh rt : ℤ}

attribute [local simp] SpannerBase.next

lemma next_lhs (h : lh < rh) (h' : lt ≤ rh) : next ⟨lh, lt, rh, rt⟩
    = ⟨.lhsBeforeRhs, lh, lt, true, false, ⟨lh, lt, rh, rt⟩⟩ := by
  simp [h, h']

lemma next_lhsClip (h : lh < rh) (h' : rh < lt) : next ⟨lh, lt, rh, rt⟩
    = ⟨.lhsBeforeRhs, lh, rh, false, false, ⟨rh, lt, rh, rt⟩⟩ := by
  simp [h, h'.not_ge]

lemma next_rhs (h : rh < lh) (h' : rt ≤ lh) : next ⟨lh, lt, rh, rt⟩
    = ⟨.lhsAfterRhs, rh, rt, false, true, ⟨lh, lt, rh, rt⟩⟩ := by
  simp [h, h.le.not_gt, h']

lemma next_rhsClip (h : rh < lh) (h' : lh < rt) : next ⟨lh, lt, rh, rt⟩
    = ⟨.lhsAfterRhs, rh, lh, false, false, ⟨lh, lt, lh, rt⟩⟩ := by
  simp [h, h.le.not_gt, h'.not_ge]

lemma next_bothLhs (h : lt < rt) : next ⟨lh, lt, lh, rt⟩
    = ⟨.lhsCoincideRhs, lh, lt, true, false, ⟨lh, lt, lt, rt⟩⟩ := by
  simp [h.le, h.not_ge]

lemma next_bothRhs (h : rt < lt) : next ⟨lh, lt, lh, rt⟩
    = ⟨.lhsCoincideRhs, lh, rt, false, true, ⟨rt, lt, lh, rt⟩⟩ := by
  simp [h.le, h.not_ge]

lemma next_both : next ⟨lh, lt, lh, lt⟩
    = ⟨.lhsCoincideRhs, lh, lt, true, true, ⟨lt, lt, lt, lt⟩⟩ := by
  simp

end Next

/-- Only a side with runs asks for more; one that does not keeps its tail, and its head is where it
was clipped. -/
def Keeps (more : Bool) (head tail : ℤ) (l : List (Run ℤ α)) : Prop :=
  if more then l ≠ [] else ends (clipHead head l) = (head, tail)

lemma keeps_cons (head tail : ℤ) (r : Run ℤ α) (rs : List (Run ℤ α)) :
    Keeps true head tail (r :: rs) := by simp [Keeps]

/-- What `next_sweepStep` says of a call's result `n`. -/
def IsCut (n : SpannerNext) (as : List (Run ℤ α)) (bs : List (Run ℤ β)) : Prop :=
  ∃ v, SweepStep as bs ⟨n.head, n.tail, v⟩ (leftover n.moreLhs n.base.lhsHead as)
      (leftover n.moreRhs n.base.rhsHead bs) ∧
    v.inside = n.inside ∧
    Keeps n.moreLhs n.base.lhsHead n.base.lhsTail as ∧
    Keeps n.moreRhs n.base.rhsHead n.base.rhsTail bs

/-- With runs on both sides the order of the four ends decides the cut. -/
lemma next_isCut_cons {l : Run ℤ α} {ls : List (Run ℤ α)} {r : Run ℤ β} {rs : List (Run ℤ β)} :
    IsCut (next ⟨l.lo, l.hi, r.lo, r.hi⟩) (l :: ls) (r :: rs) := by
  rcases lt_trichotomy l.lo r.lo with h | h | h
  · rcases le_or_gt l.hi r.lo with h' | h'
    · rw [next_lhs h h']
      exact ⟨.left l.val, .left (by simpa using h'), rfl, keeps_cons _ _ _ _, rfl⟩
    · rw [next_lhsClip h h']
      exact ⟨.left l.val, .leftClip h h', rfl, rfl, rfl⟩
  · rw [← h]
    rcases lt_trichotomy l.hi r.hi with h' | h' | h'
    · rw [next_bothLhs h']
      exact ⟨.both l.val r.val, .bothLeft h h', rfl, keeps_cons _ _ _ _, rfl⟩
    · rw [← h', next_both]
      exact ⟨.both l.val r.val, .both h h', rfl, keeps_cons _ _ _ _, keeps_cons _ _ _ _⟩
    · rw [next_bothRhs h']
      exact ⟨.both l.val r.val, .bothRight h h', rfl, rfl, keeps_cons _ _ _ _⟩
  · rcases le_or_gt r.hi l.lo with h' | h'
    · rw [next_rhs h h']
      exact ⟨.right r.val, .right (by simpa using h'), rfl, rfl, keeps_cons _ _ _ _⟩
    · rw [next_rhsClip h h']
      exact ⟨.right r.val, .rightClip h h', rfl, rfl, rfl⟩

/-- **`SpannerBase.next` is one cut of the two run lists it shows.**  The sentinel of an exhausted
side lies beyond every run of the other one, so that side behaves like the empty list. -/
theorem next_isCut {b : SpannerBase} {as : List (Run ℤ α)} {bs : List (Run ℤ β)}
    (ha : ends as = (b.lhsHead, b.lhsTail)) (hb : ends bs = (b.rhsHead, b.rhsTail))
    (hao : OrderedFrom p as) (hbo : OrderedFrom p bs) (ham : BelowMax as) (hbm : BelowMax bs)
    (hne : ¬ (as = [] ∧ bs = [])) : IsCut b.next as bs := by
  obtain ⟨lh, lt, rh, rt⟩ := b
  cases as with
  | nil =>
    cases bs with
    | nil => exact absurd ⟨rfl, rfl⟩ hne
    | cons r rs =>
      simp only at ha hb
      obtain ⟨rfl, rfl⟩ := ha
      obtain ⟨rfl, rfl⟩ := hb
      have hmax := hbm r (by simp)
      rw [next_rhs (lt_trans hbo.2.1 hmax) hmax.le]
      exact ⟨.right r.val, .right (by simp), rfl, rfl, keeps_cons _ _ _ _⟩
  | cons l ls =>
    cases bs with
    | nil =>
      simp only at ha hb
      obtain ⟨rfl, rfl⟩ := ha
      obtain ⟨rfl, rfl⟩ := hb
      have hmax := ham l (by simp)
      rw [next_lhs (lt_trans hao.2.1 hmax) hmax.le]
      exact ⟨.left l.val, .left (by simp), rfl, keeps_cons _ _ _ _, rfl⟩
    | cons r rs =>
      obtain ⟨rfl, rfl⟩ := ha
      obtain ⟨rfl, rfl⟩ := hb
      exact next_isCut_cons

/-! ## Coordinates in range -/

/-- An `int32_t` below the sentinel. -/
def IsCoord (c : ℤ) : Prop := -2 ^ 31 ≤ c ∧ c < maxValue

lemma IsCoord.toInt32_eq {c : ℤ} (h : IsCoord c) : toInt32 c = c := by
  refine toInt32_eq_self ⟨h.1, ?_⟩
  have := h.2
  rw [maxValue] at this
  omega

/-- All translated coordinates of a region are in range. -/
def OpRegion.InRange (reg : OpRegion) : Prop :=
  ∀ r ∈ reg.rects, (IsCoord (r.left + reg.dx) ∧ IsCoord (r.right + reg.dx)) ∧
    IsCoord (r.top + reg.dy) ∧ IsCoord (r.bottom + reg.dy)

/-! ## The inner spanner -/

/-- The rectangles of the front band, as runs. -/
def OpRegion.spans (reg : OpRegion) : List (Run ℤ Unit) :=
  match reg.rects with
  | [] => []
  | r :: rs => spanRuns reg.dx (r :: rs.takeWhile (·.top == r.top))

/-- The side `reg` of the inner spanner, at the interval `[hd, tl)`, has the runs `runs` to go. -/
structure ShowsSpans (reg : OpRegion) (hd tl : ℤ) (runs : List (Run ℤ Unit)) : Prop where
  ends : ends runs = (hd, tl)
  runs : runs = [] ∨ runs = clipHead hd reg.spans
  inRange : reg.InRange

lemma showsSpans_nil (h : reg.InRange) : ShowsSpans reg maxValue maxValue [] := ⟨rfl, Or.inl rfl, h⟩

/-- A side prepared on its front band has all of that band to go. -/
lemma showsSpans_spans (h : reg.InRange) :
    ShowsSpans reg (reg.spanOr (maxValue, maxValue)).1 (reg.spanOr (maxValue, maxValue)).2
      reg.spans := by
  obtain ⟨rects, dx, dy⟩ := reg
  cases rects with
  | nil => exact showsSpans_nil h
  | cons r rs =>
    have hr := (h r (by simp)).1
    have he : spanOr ⟨r :: rs, dx, dy⟩ (maxValue, maxValue)
        = (r.left + dx, r.right + dx) := by
      simp only [spanOr]
      rw [hr.1.toInt32_eq, hr.2.toInt32_eq]
    rw [he]
    exact ⟨rfl, Or.inr rfl, h⟩

/-- `SpannerInner::advance` moves on to the next run of the band. -/
lemma ShowsSpans.advance {runs : List (Run ℤ Unit)} (h : ShowsSpans reg hd tl runs)
    (hne : runs ≠ []) (dflt : ℤ × ℤ) :
    ShowsSpans (reg.advanceSpan dflt).1 (reg.advanceSpan dflt).2.1 (reg.advanceSpan dflt).2.2
      runs.tail := by
  obtain ⟨rects, dx, dy⟩ := reg
  have hruns := h.runs.resolve_left hne
  cases rects with
  | nil => exact absurd hruns hne
  | cons r rest =>
    have hsub : InRange ⟨rest, dx, dy⟩ :=
      fun q hq => h.inRange q (mem_cons_of_mem r hq)
    rw [hruns]
    cases rest with
    | nil => exact showsSpans_nil hsub
    | cons q qs =>
      by_cases hq : q.top = r.top
      · have hspans : (clipHead hd (spans ⟨r :: q :: qs, dx, dy⟩)).tail
            = spans ⟨q :: qs, dx, dy⟩ := by
          simp [spans, clipHead, spanRuns, hq]
        have hadv : advanceSpan ⟨r :: q :: qs, dx, dy⟩ dflt
            = (⟨q :: qs, dx, dy⟩, spanOr ⟨q :: qs, dx, dy⟩ (maxValue, maxValue)) := by
          simp [advanceSpan, spanOr, hq]
        rw [hspans, hadv]
        exact showsSpans_spans hsub
      · have hspans : (clipHead hd (spans ⟨r :: q :: qs, dx, dy⟩)).tail = [] := by
          simp [spans, clipHead, spanRuns, hq]
        have hadv : advanceSpan ⟨r :: q :: qs, dx, dy⟩ dflt
            = (⟨q :: qs, dx, dy⟩, maxValue, maxValue) := by
          simp [advanceSpan, hq]
        rw [hspans, hadv]
        exact showsSpans_nil hsub

/-- A side after a call of `next`. -/
lemma ShowsSpans.after {runs : List (Run ℤ Unit)} (h : ShowsSpans reg hd tl runs)
    (hk : Keeps more hd' tl' runs) :
    let a := if more then reg.advanceSpan (hd', tl') else (reg, hd', tl')
    ShowsSpans a.1 a.2.1 a.2.2 (leftover more hd' runs) := by
  cases more with
  | true => exact h.advance (by simpa [Keeps] using hk) _
  | false =>
    refine ⟨by simpa [Keeps] using hk, ?_, h.inRange⟩
    rcases h.runs with hr | hr
    · exact Or.inl (by rw [hr]; rfl)
    · exact Or.inr (by rw [hr]; simp)

/-- What the inner spanner `s` has to go: `as` on the left, `bs` on the right, from `p` on. -/
structure ShowsInner (p : ℤ) (as bs : List (Run ℤ Unit)) (s : SpannerInner) : Prop where
  lhs : ShowsSpans s.lhs s.base.lhsHead s.base.lhsTail as
  rhs : ShowsSpans s.rhs s.base.rhsHead s.base.rhsTail bs
  lhsOrd : OrderedFrom p as
  rhsOrd : OrderedFrom p bs
  lhsMax : BelowMax as
  rhsMax : BelowMax bs

lemma BelowMax.leftover (h : BelowMax l) (more : Bool) (p : ℤ) : BelowMax (leftover more p l) := by
  cases more
  · exact h.clipHead p
  · exact h.tail

lemma head_eq_max_iff {runs : List (Run ℤ α)} (he : ends runs = (hd, tl))
    (hord : OrderedFrom p runs) (hmax : BelowMax runs) : hd = maxValue ↔ runs = [] := by
  cases runs with
  | nil =>
    simp only [ends, Prod.mk.injEq] at he
    exact iff_of_true he.1.symm rfl
  | cons r rs =>
    simp only [ends, Prod.mk.injEq] at he
    have := lt_trans hord.2.1 (hmax r (by simp))
    exact iff_of_false (by omega) (by simp)

lemma ShowsInner.isDone_iff (h : ShowsInner p as bs s) : s.isDone = true ↔ as = [] ∧ bs = [] := by
  rw [SpannerInner.isDone, Bool.and_eq_true, beq_iff_eq, beq_iff_eq]
  exact and_congr (head_eq_max_iff h.lhs.ends h.lhsOrd h.lhsMax)
    (head_eq_max_iff h.rhs.ends h.rhsOrd h.rhsMax)

/-- **One call of `SpannerInner.next` is one cut of what is left to go.** -/
lemma ShowsInner.next (h : ShowsInner p as bs s) (hne : ¬ (as = [] ∧ bs = [])) :
    ∃ v as' bs', SweepStep as bs ⟨s.next.2.1, s.next.2.2.1, v⟩ as' bs' ∧
      v.inside = s.next.1 ∧ ShowsInner p as' bs' s.next.2.2.2 := by
  obtain ⟨v, hstep, hv, hkl, hkr⟩ :=
    next_isCut h.lhs.ends h.rhs.ends h.lhsOrd h.rhsOrd h.lhsMax h.rhsMax hne
  obtain ⟨hp, hlt, hao, hbo⟩ := hstep.orderedFrom h.lhsOrd h.rhsOrd
  refine ⟨v, _, _, hstep, hv, h.lhs.after hkl, h.rhs.after hkr, hao.mono ?_, hbo.mono ?_,
    h.lhsMax.leftover _ _, h.rhsMax.leftover _ _⟩
  · exact le_trans hp hlt.le
  · exact le_trans hp hlt.le

/-! ## The outer spanner -/

/-- The side `reg` of the outer spanner, at the strip `[hd, tl)`, has the bands `runs` to go. -/
structure ShowsBands (reg : OpRegion) (hd tl : ℤ) (runs : List Band) : Prop where
  ends : ends runs = (hd, tl)
  runs : runs = clipHead hd (bands reg.dx reg.dy reg.rects)
  inRange : reg.InRange

lemma bands_eq_nil {dx dy : ℤ} {l : List Rect} : bands dx dy l = [] ↔ l = [] := by
  cases l <;> simp [bands]

lemma clipHead_eq_nil : clipHead p l = [] ↔ l = [] := by
  cases l <;> simp [clipHead]

lemma ShowsBands.eq_nil_iff (h : ShowsBands reg hd tl runs) : runs = [] ↔ reg.rects = [] := by
  rw [h.runs, clipHead_eq_nil, bands_eq_nil]

/-- The front band of a side carries the runs the inner spanner starts from. -/
lemma ShowsBands.head_val (h : ShowsBands reg hd tl runs) :
    ∀ b ∈ runs.head?, b.val = reg.spans := by
  rw [h.runs]
  obtain ⟨rects, dx, dy⟩ := reg
  cases rects with
  | nil => simp [bands, clipHead]
  | cons r rs =>
    rintro b hb
    simp only [bands, clipHead, head?_cons, Option.mem_def, Option.some.injEq] at hb
    rw [← hb]
    rfl

/-- A side at the start of a band has all its bands to go. -/
lemma showsBands_bands (h : reg.InRange) :
    ShowsBands reg reg.band.1 reg.band.2 (bands reg.dx reg.dy reg.rects) := by
  obtain ⟨rects, dx, dy⟩ := reg
  cases rects with
  | nil => exact ⟨by simp [bands, band], by simp [bands, clipHead], h⟩
  | cons r rs =>
    have hr := (h r (by simp)).2
    have he : band ⟨r :: rs, dx, dy⟩ = (r.top + dy, r.bottom + dy) := by
      simp only [band]
      rw [hr.1.toInt32_eq, hr.2.toInt32_eq]
    rw [he]
    exact ⟨by simp [bands, ends], by simp [bands, clipHead], h⟩

/-- `Spanner::advance` moves on to the next band. -/
lemma ShowsBands.advance (h : ShowsBands reg hd tl runs) :
    ShowsBands reg.advanceBand reg.advanceBand.band.1 reg.advanceBand.band.2 runs.tail := by
  obtain ⟨rects, dx, dy⟩ := reg
  cases rects with
  | nil =>
    rw [h.eq_nil_iff.mpr rfl]
    simpa [bands, advanceBand] using showsBands_bands h.inRange
  | cons r rs =>
    have hadv : advanceBand ⟨r :: rs, dx, dy⟩
        = ⟨rs.dropWhile (·.top == r.top), dx, dy⟩ := by
      simp [advanceBand]
    have htail : runs.tail = bands dx dy (rs.dropWhile (·.top == r.top)) := by
      rw [h.runs, bands]
      rfl
    rw [hadv, htail]
    refine showsBands_bands fun q hq => h.inRange q ?_
    exact mem_cons_of_mem r (dropWhile_subset _ hq)

/-- A side after a call of `next`. -/
lemma ShowsBands.after (h : ShowsBands reg hd tl runs) (hk : Keeps more hd' tl' runs) :
    let reg' := if more then reg.advanceBand else reg
    ShowsBands reg' (if more then reg'.band.1 else hd') (if more then reg'.band.2 else tl')
      (leftover more hd' runs) := by
  cases more with
  | true => exact h.advance
  | false => exact ⟨by simpa [Keeps] using hk, by rw [h.runs]; simp, h.inRange⟩

/-- What the outer spanner `s` has to go: the bands `as` on the left and `bs` on the right, all
coordinates from `p` on. -/
structure ShowsOuter (p : ℤ) (as bs : List Band) (s : Spanner) : Prop where
  lhs : ShowsBands s.lhs s.base.lhsHead s.base.lhsTail as
  rhs : ShowsBands s.rhs s.base.rhsHead s.base.rhsTail bs
  lhsOrd : OrderedFrom p as
  rhsOrd : OrderedFrom p bs
  lhsMax : BelowMax as
  rhsMax : BelowMax bs
  lhsSpans : ∀ a ∈ as, OrderedFrom p a.val ∧ BelowMax a.val
  rhsSpans : ∀ b ∈ bs, OrderedFrom p b.val ∧ BelowMax b.val

lemma ShowsOuter.isDone_iff {as bs : List Band} {s : Spanner} (h : ShowsOuter p as bs s) :
    s.isDone = true ↔ as = [] ∧ bs = [] := by
  rw [Spanner.isDone, Bool.and_eq_true, List.isEmpty_iff, List.isEmpty_iff, h.lhs.eq_nil_iff,
    h.rhs.eq_nil_iff, and_comm]

/-- **One call of `Spanner.next` is one cut of the bands to go**, and the inner spanner prepared for
it has the bands of that strip to go. -/
lemma ShowsOuter.next {as bs : List Band} {s : Spanner} (h : ShowsOuter p as bs s)
    (hne : ¬ (as = [] ∧ bs = [])) :
    ∃ v as' bs', SweepStep as bs ⟨s.next.2.1, s.next.2.2.1, v⟩ as' bs' ∧
      ShowsOuter p as' bs' s.next.2.2.2 ∧
      ShowsInner p (v.left?.getD []) (v.right?.getD [])
        ((SpannerInner.init s.lhs s.rhs).prepare s.next.1) := by
  obtain ⟨v, hstep, hv, hkl, hkr⟩ :=
    next_isCut h.lhs.ends h.rhs.ends h.lhsOrd h.rhsOrd h.lhsMax h.rhsMax hne
  obtain ⟨hp, hlt, hao, hbo⟩ := hstep.orderedFrom h.lhsOrd h.rhsOrd
  refine ⟨v, _, _, hstep, ⟨h.lhs.after hkl, h.rhs.after hkr, hao.mono (le_trans hp hlt.le),
    hbo.mono (le_trans hp hlt.le), h.lhsMax.leftover _ _, h.rhsMax.leftover _ _,
    hstep.forall_val_left (P := fun a => OrderedFrom p a ∧ BelowMax a) h.lhsSpans,
    hstep.forall_val_right (P := fun b => OrderedFrom p b ∧ BelowMax b) h.rhsSpans⟩, ?_⟩
  have hl : ∀ a ∈ v.left?, a = s.lhs.spans ∧ OrderedFrom p a ∧ BelowMax a := by
    intro a ha
    obtain ⟨b, hb, rfl⟩ := hstep.left?_mem_head? a ha
    exact ⟨h.lhs.head_val b hb, h.lhsSpans b (mem_of_mem_head? hb)⟩
  have hr : ∀ a ∈ v.right?, a = s.rhs.spans ∧ OrderedFrom p a ∧ BelowMax a := by
    intro a ha
    obtain ⟨b, hb, rfl⟩ := hstep.right?_mem_head? a ha
    exact ⟨h.rhs.head_val b hb, h.rhsSpans b (mem_of_mem_head? hb)⟩
  rw [show s.next.1 = v.inside from hv.symm]
  have hL := showsSpans_spans h.lhs.inRange
  have hR := showsSpans_spans h.rhs.inRange
  have hnone : BelowMax ([] : List (Run ℤ Unit)) := by simp [BelowMax]
  cases v with
  | left a =>
    obtain ⟨rfl, ho, hm⟩ := hl a rfl
    exact ⟨hL, showsSpans_nil h.rhs.inRange, ho, trivial, hm, hnone⟩
  | right b =>
    obtain ⟨rfl, ho, hm⟩ := hr b rfl
    exact ⟨showsSpans_nil h.lhs.inRange, hR, trivial, ho, hnone, hm⟩
  | both a b =>
    obtain ⟨rfl, ho, hm⟩ := hl a rfl
    obtain ⟨rfl, ho', hm'⟩ := hr b rfl
    exact ⟨hL, hR, ho, ho', hm, hm'⟩

end Droid
