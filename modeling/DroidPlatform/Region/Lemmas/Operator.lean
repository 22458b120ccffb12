import DroidPlatform.Region.BooleanOperation
import DroidPlatform.Region.Lemmas.Spanner

/-!
# What the region operator emits

The two loops of `region_operator::operator()`, run to the end.  The inner loop hands the rasterizer
the kept pieces of a `Sweep` of two bands (`innerLoop_sweeps`); the outer loop does so for every
strip of a sweep of the bands (`regionOperator_emits`).  `Emits` records the emitted rectangles as
bands again: ordered at both levels (`Emits.orderedFrom`, `Emits.spans`), and holding exactly the
points the operation asks for (`Emits.inBands_iff`).
-/

namespace Droid

open List SpannerInner

/-! ## The boolean operators -/

/-- The truth of an operation on the truth of its operands. -/
def RegionOp.Holds (op : RegionOp) (P Q : Prop) : Prop :=
  match op with
  | opNand => P ∧ ¬ Q
  | opAnd => P ∧ Q
  | opOr => P ∨ Q
  | opXor => ¬ (P ↔ Q)

variable {op : RegionOp} {P Q : Prop}

lemma RegionOp.Holds.or (h : op.Holds P Q) : P ∨ Q := by
  cases op with
  | opNand | opAnd => exact Or.inl h.1
  | opOr => exact h
  | opXor =>
    rw [Holds] at h
    tauto

lemma RegionOp.not_holds_of_not (hP : ¬ P) (hQ : ¬ Q) :
    ¬ op.Holds P Q := fun h => (Holds.or h).elim hP hQ

/-- The mask of an operation agrees with the operator on each side. -/
lemma RegionOp.keeps_iff (op : RegionOp) (v : Side Unit Unit) :
    op.keeps v.inside = true ↔ op.Holds (v.left? = some ()) (v.right? = some ()) := by
  cases op <;> cases v <;> simp [Holds, Side.left?, Side.right?, Side.inside] <;> decide

/-- The pieces of a sweep an operation keeps. -/
def kept (op : RegionOp) (out : List (Run ℤ (Side Unit Unit))) : List (Run ℤ Unit) :=
  filterVals (fun v => if op.keeps v.inside then some () else none) out

lemma kept_cons (op : RegionOp) (s : Run ℤ (Side Unit Unit)) (out : List (Run ℤ (Side Unit Unit))) :
    kept op (s :: out)
      = if op.keeps s.val.inside then ⟨s.lo, s.hi, ()⟩ :: kept op out else kept op out := by
  simp only [kept, filterVals]
  split_ifs <;> rfl

variable {p : ℤ}

/-- **The kept pieces are the points where the operation holds.** -/
lemma valueAt_kept {as bs : List (Run ℤ Unit)} {out : List (Run ℤ (Side Unit Unit))}
    (h : Sweep as bs out) (ha : OrderedFrom p as) (hb : OrderedFrom p bs) (x : ℤ) :
    valueAt x (kept op out) = some () ↔
      op.Holds (valueAt x as = some ()) (valueAt x bs = some ()) := by
  rw [kept, valueAt_filterVals _ x (h.orderedFrom ha hb), h.valueAt_eq x ha hb]
  have hjoin : ∀ u w : Option Unit, ((Side.join u w).bind
      fun v => if op.keeps v.inside then some () else none) = some () ↔
      op.Holds (u = some ()) (w = some ()) := by
    intro u w
    cases hj : Side.join u w with
    | none =>
      have hu : u = none ∧ w = none := by cases u <;> cases w <;> simp_all [Side.join]
      simpa [hu] using RegionOp.not_holds_of_not (by simp) (by simp)
    | some v =>
      have huw : u = v.left? ∧ w = v.right? := by
        cases u <;> cases w <;> simp_all [Side.join] <;> subst hj <;> exact ⟨rfl, rfl⟩
      rw [huw.1, huw.2, ← RegionOp.keeps_iff]
      simp
  exact hjoin _ _

/-! ## The inner loop -/

/-- The rectangles of a strip. -/
def stripRects (top bottom : ℤ) (runs : List (Run ℤ Unit)) : List Rect :=
  runs.map fun r => ⟨r.lo, top, r.hi, bottom⟩

section Loops

variable {ρ : Type*} (emit : ρ → Rect → ρ) (op : RegionOp) {fuel k m : ℕ} {lhs rhs : OpRegion}
  {bottom top : ℤ} {r : ρ}

/-- One iteration hands over at most the piece it cut off. -/
lemma innerBody_emits {s : SpannerInner} {v : Side Unit Unit} (r : ρ) (hv : v.inside = s.next.1)
    (hlt : s.next.2.1 < s.next.2.2.1) (htb : top < bottom) :
    innerBody emit op top bottom (s, r) = (s.next.2.2.2,
      (stripRects top bottom (kept op [⟨s.next.2.1, s.next.2.2.1, v⟩])).foldl emit r) := by
  simp only [innerBody]
  rw [kept_cons, hv]
  split_ifs with h1 h2
  · rfl
  · exact absurd ⟨hlt, htb⟩ h2
  · rfl

/-- The rectangles of the first piece, followed by those of the rest. -/
lemma foldl_kept_cons (top bottom : ℤ) (s : Run ℤ (Side Unit Unit))
    (out : List (Run ℤ (Side Unit Unit))) (r : ρ) :
    (stripRects top bottom (kept op out)).foldl emit
        ((stripRects top bottom (kept op [s])).foldl emit r)
      = (stripRects top bottom (kept op (s :: out))).foldl emit r := by
  simp only [kept_cons]
  split_ifs <;> rfl

/-- **The inner loop sweeps the two bands**, within twice as many steps as they have rectangles. -/
theorem innerLoop_sweeps {as bs : List (Run ℤ Unit)} {s : SpannerInner} (h : ShowsInner p as bs s)
    (hne : ¬ (as = [] ∧ bs = [])) (htb : top < bottom) (hfuel : sweepMeasure as bs < fuel) :
    ∃ s' out, innerLoop emit op fuel top bottom (s, r)
        = some (s', (stripRects top bottom (kept op out)).foldl emit r) ∧ Sweep as bs out := by
  have hrule := @doWhile_relates (SpannerInner × ρ) (List (Run ℤ Unit) × List (Run ℤ Unit))
    (fun st => some (innerBody emit op top bottom st)) (fun st => st.1.isDone)
    (fun g st => ShowsInner p g.1 g.2 st.1 ∧ ¬ (g.1 = [] ∧ g.2 = []))
    (fun g => sweepMeasure g.1 g.2)
    (fun g st t => ∃ out, Sweep g.1 g.2 out ∧
      t.2 = (stripRects top bottom (kept op out)).foldl emit st.2)
  obtain ⟨t, ht, out, hsweep, hr⟩ := hrule (by
    rintro ⟨as, bs⟩ ⟨s, r⟩ ⟨h, hne⟩
    obtain ⟨v, as', bs', hstep, hv, h'⟩ := h.next hne
    have hlt := (hstep.orderedFrom h.lhsOrd h.rhsOrd).2.1
    refine ⟨_, rfl, ?_⟩
    rw [innerBody_emits emit op r hv hlt htb]
    by_cases hdone : as' = [] ∧ bs' = []
    · left
      refine ⟨h'.isDone_iff.mpr hdone, [⟨s.next.2.1, s.next.2.2.1, v⟩], ?_, rfl⟩
      rw [hdone.1, hdone.2] at hstep
      exact .cons hstep .nil
    · right
      refine ⟨?_, (as', bs'), ⟨h', hdone⟩, hstep.measure_lt, ?_⟩
      · rw [← Bool.not_eq_true, h'.isDone_iff]
        exact hdone
      · rintro t ⟨out, hsweep, ht⟩
        exact ⟨_, .cons hstep hsweep, ht.trans (foldl_kept_cons emit op top bottom _ out r)⟩)
    fuel (as, bs) (s, r) ⟨h, hne⟩ hfuel
  refine ⟨t.1, out, ?_, hsweep⟩
  rw [innerLoop, ht, ← hr]

/-! ## The outer loop -/

/-- What the operator emits for the bands `as` and `bs`: a strip for each cut, holding the kept
pieces of an inner sweep of the two bands there. -/
inductive Emits : List Band → List Band → List Band → Prop
  | nil : Emits [] [] []
  | cons {as bs s as' bs' out strips} (hstep : SweepStep as bs s as' bs')
      (hsweep : Sweep (s.val.left?.getD []) (s.val.right?.getD []) out)
      (hrest : Emits as' bs' strips) : Emits as bs (⟨s.lo, s.hi, kept op out⟩ :: strips)

/-- The rectangles of a list of bands, in reading order. -/
def bandRects (bs : List Band) : List Rect := bs.flatMap fun b => stripRects b.lo b.hi b.val

lemma sweepMeasure_le {ι α β : Type*} [LinearOrder ι] (as : List (Run ι α)) (bs : List (Run ι β)) :
    sweepMeasure as bs ≤ 2 * (as.length + bs.length) + 1 := by
  have := startsApart_le_one as bs
  rw [sweepMeasure]
  omega

/-- Two regions without rectangles: the loops run once, over the sentinels, and emit nothing. -/
lemma regionOperator_nil (fuel : ℕ) (dx dy dx' dy' : ℤ) (r : ρ) :
    regionOperator emit op (fuel + 1) ⟨[], dx, dy⟩ ⟨[], dx', dy'⟩ r = some r := by
  simp [regionOperator, outerBody, innerLoop, innerBody, doWhile, Spanner.init, Spanner.next,
    Spanner.isDone, init, prepare, SpannerInner.next,
    isDone, SpannerBase.init, OpRegion.band, OpRegion.spanOr, OpRegion.advanceBand,
    OpRegion.advanceSpan, next_both]

/-- A band with rectangles, at most `m` of them. -/
def SpansUpTo (m : ℕ) (spans : List (Run ℤ Unit)) : Prop := spans ≠ [] ∧ spans.length ≤ m

/-- The inner loop starts on bands with rectangles, and has enough fuel for them. -/
lemma SweepStep.spansUpTo {as bs as' bs' : List Band} {s : Run ℤ (Side _ _)}
    (h : SweepStep as bs s as' bs') (hm : ∀ a ∈ as, SpansUpTo m a.val)
    (hk : ∀ b ∈ bs, SpansUpTo k b.val) :
    ¬ (s.val.left?.getD [] = [] ∧ s.val.right?.getD [] = []) ∧
      (s.val.left?.getD []).length ≤ m ∧ (s.val.right?.getD []).length ≤ k := by
  have hl : ∀ a ∈ s.val.left?, SpansUpTo m a := by
    rintro a ha
    obtain ⟨b, hb, rfl⟩ := h.left?_mem_head? a ha
    exact hm b (mem_of_mem_head? hb)
  have hr : ∀ a ∈ s.val.right?, SpansUpTo k a := by
    rintro a ha
    obtain ⟨b, hb, rfl⟩ := h.right?_mem_head? a ha
    exact hk b (mem_of_mem_head? hb)
  obtain ⟨lo, hi, v⟩ := s
  cases v with
  | left a => exact ⟨fun hn => (hl a rfl).1 hn.1, (hl a rfl).2, Nat.zero_le _⟩
  | right b => exact ⟨fun hn => (hr b rfl).1 hn.2, Nat.zero_le _, (hr b rfl).2⟩
  | both a b => exact ⟨fun hn => (hl a rfl).1 hn.1, (hl a rfl).2, (hr b rfl).2⟩

/-- **The outer loop emits a strip for every cut of the bands.**  `m` and `k` bound the number of
bands and of rectangles in a band on the two sides. -/
theorem outerLoop_emits {as bs : List Band} {s : Spanner} (h : ShowsOuter p as bs s)
    (hne : ¬ (as = [] ∧ bs = [])) (ham : as.length ≤ m) (hbk : bs.length ≤ k)
    (hm : ∀ a ∈ as, SpansUpTo m a.val) (hk : ∀ b ∈ bs, SpansUpTo k b.val)
    (hfuel : 2 * (m + k) + 1 < fuel) :
    ∃ s' strips, doWhile (outerBody emit op fuel) (fun st => st.1.isDone) fuel (s, r)
        = some (s', (bandRects strips).foldl emit r) ∧ Emits op as bs strips := by
  have hrule := @doWhile_relates (Spanner × ρ) (List Band × List Band)
    (outerBody emit op fuel) (fun st => st.1.isDone)
    (fun g st => ShowsOuter p g.1 g.2 st.1 ∧ ¬ (g.1 = [] ∧ g.2 = []) ∧
      (∀ a ∈ g.1, SpansUpTo m a.val) ∧ ∀ b ∈ g.2, SpansUpTo k b.val)
    (fun g => sweepMeasure g.1 g.2)
    (fun g st t => ∃ strips, Emits op g.1 g.2 strips ∧ t.2 = (bandRects strips).foldl emit st.2)
  have hμ : sweepMeasure as bs < fuel := by
    have := sweepMeasure_le as bs
    omega
  obtain ⟨t, ht, strips, hemits, hr⟩ := hrule (by
    rintro ⟨as, bs⟩ ⟨s, r⟩ ⟨h, hne, hm, hk⟩
    obtain ⟨v, as', bs', hstep, h', hinner⟩ := h.next hne
    have hlt := (hstep.orderedFrom h.lhsOrd h.rhsOrd).2.1
    obtain ⟨hne', hl, hr⟩ := hstep.spansUpTo hm hk
    have hfuel' : sweepMeasure (v.left?.getD []) (v.right?.getD []) < fuel := by
      have := sweepMeasure_le (v.left?.getD []) (v.right?.getD [])
      simp only at hl hr
      omega
    obtain ⟨s', out, hloop, hsweep⟩ := innerLoop_sweeps emit op hinner hne' hlt hfuel'
    refine ⟨(s.next.2.2.2, (stripRects s.next.2.1 s.next.2.2.1 (kept op out)).foldl emit r), ?_, ?_⟩
    · simp only [outerBody]
      rw [hloop]
      rfl
    by_cases hdone : as' = [] ∧ bs' = []
    · left
      refine ⟨h'.isDone_iff.mpr hdone, [⟨s.next.2.1, s.next.2.2.1, kept op out⟩], ?_, ?_⟩
      · rw [hdone.1, hdone.2] at hstep
        exact .cons hstep hsweep .nil
      · simp [bandRects]
    · right
      refine ⟨?_, (as', bs'), ⟨h', hdone, ?_, ?_⟩, hstep.measure_lt, ?_⟩
      · rw [← Bool.not_eq_true, h'.isDone_iff]
        exact hdone
      · exact hstep.forall_val_left hm
      · exact hstep.forall_val_right hk
      · rintro t ⟨strips, hemits, ht⟩
        refine ⟨_, .cons hstep hsweep hemits, ht.trans ?_⟩
        simp [bandRects])
    fuel (as, bs) (s, r) ⟨h, hne, hm, hk⟩ hμ
  refine ⟨t.1, strips, ?_, hemits⟩
  rw [ht, ← hr]

/-! ## Both loops -/

/-- An operand the operator handles: valid, and with its translated coordinates in range. -/
structure OpRegion.Operand (reg : OpRegion) : Prop where
  isChain : reg.rects.IsChain Follows
  hasArea : ∀ r ∈ reg.rects, r.HasArea
  inRange : reg.InRange

namespace OpRegion.Operand

variable {reg : OpRegion} (h : reg.Operand)
include h

lemma orderedFrom : OrderedFrom intMin (bands reg.dx reg.dy reg.rects) :=
  orderedFrom_bands _ _ _ h.isChain h.hasArea
    fun r hr => (h.inRange r (mem_of_mem_head? hr)).2.1.1

lemma spans_orderedFrom : ∀ b ∈ bands reg.dx reg.dy reg.rects, OrderedFrom intMin b.val :=
  orderedFrom_of_mem_bands _ _ _ h.isChain h.hasArea fun r hr => (h.inRange r hr).1.1.1

lemma belowMax : BelowMax (bands reg.dx reg.dy reg.rects) := by
  intro b hb
  obtain ⟨r, rs, hsub, rfl⟩ := exists_of_mem_bands _ _ _ b hb
  exact (h.inRange r (hsub.subset (by simp))).2.2.2

lemma spans_belowMax : ∀ b ∈ bands reg.dx reg.dy reg.rects, BelowMax b.val := by
  intro b hb
  obtain ⟨r, rs, hsub, rfl⟩ := exists_of_mem_bands _ _ _ b hb
  intro s hs
  obtain ⟨q, hq, rfl⟩ := mem_map.mp hs
  exact (h.inRange q (hsub.subset hq)).1.2.2

end OpRegion.Operand

lemma spansUpTo_bands (reg : OpRegion) :
    ∀ b ∈ bands reg.dx reg.dy reg.rects, SpansUpTo reg.rects.length b.val := by
  intro b hb
  obtain ⟨r, rs, hsub, rfl⟩ := exists_of_mem_bands _ _ _ b hb
  refine ⟨by simp [spanRuns], ?_⟩
  simpa [spanRuns] using hsub.length_le

lemma showsOuter_init (hl : lhs.Operand) (hr : rhs.Operand) :
    ShowsOuter intMin (bands lhs.dx lhs.dy lhs.rects) (bands rhs.dx rhs.dy rhs.rects)
      (Spanner.init lhs rhs) where
  lhs := showsBands_bands hl.inRange
  rhs := showsBands_bands hr.inRange
  lhsOrd := hl.orderedFrom
  rhsOrd := hr.orderedFrom
  lhsMax := hl.belowMax
  rhsMax := hr.belowMax
  lhsSpans := fun b hb => ⟨hl.spans_orderedFrom b hb, hl.spans_belowMax b hb⟩
  rhsSpans := fun b hb => ⟨hr.spans_orderedFrom b hb, hr.spans_belowMax b hb⟩

/-- **The region operator terminates and emits the strips of a sweep**, with fuel for twice as many
steps as there are rectangles. -/
theorem regionOperator_emits (hl : lhs.Operand) (hr : rhs.Operand)
    (hfuel : 2 * (lhs.rects.length + rhs.rects.length) + 1 < fuel) (r : ρ) :
    ∃ strips, regionOperator emit op fuel lhs rhs r = some ((bandRects strips).foldl emit r) ∧
      Emits op (bands lhs.dx lhs.dy lhs.rects) (bands rhs.dx rhs.dy rhs.rects) strips := by
  have hinit := showsOuter_init hl hr
  by_cases hne : bands lhs.dx lhs.dy lhs.rects = [] ∧ bands rhs.dx rhs.dy rhs.rects = []
  · -- no rectangles at all: `do … while` still makes one turn
    refine ⟨[], ?_, by rw [hne.1, hne.2]; exact .nil⟩
    obtain ⟨lrects, ldx, ldy⟩ := lhs
    obtain ⟨rrects, rdx, rdy⟩ := rhs
    obtain rfl : lrects = [] := hinit.lhs.eq_nil_iff.mp hne.1
    obtain rfl : rrects = [] := hinit.rhs.eq_nil_iff.mp hne.2
    obtain ⟨n, rfl⟩ := Nat.exists_eq_succ_of_ne_zero (ne_of_gt (lt_trans (by simp) hfuel))
    exact regionOperator_nil emit op n _ _ _ _ r
  · obtain ⟨s', strips, hloop, hemits⟩ := outerLoop_emits emit op hinit hne
      (length_bands_le _ _ _) (length_bands_le _ _ _) (spansUpTo_bands lhs) (spansUpTo_bands rhs)
      hfuel
    refine ⟨strips, ?_, hemits⟩
    rw [regionOperator, hloop]
    rfl

end Loops

/-! ## What was emitted -/

variable {op : RegionOp} {as bs strips : List Band}

theorem Emits.orderedFrom (h : Emits op as bs strips) : ∀ {p : ℤ}, OrderedFrom p as →
    OrderedFrom p bs → OrderedFrom p strips := by
  induction h with
  | nil => exact fun _ _ => trivial
  | cons hstep _ _ ih =>
    intro p ha hb
    obtain ⟨h1, h2, ha', hb'⟩ := hstep.orderedFrom ha hb
    exact ⟨h1, h2, ih ha' hb'⟩

/-- The bands a strip is cut from are ordered when all bands are. -/
lemma SweepStep.spans_orderedFrom {as' bs' : List Band} {s : Run ℤ (Side _ _)}
    (h : SweepStep as bs s as' bs') (ha : ∀ a ∈ as, OrderedFrom p a.val)
    (hb : ∀ b ∈ bs, OrderedFrom p b.val) :
    OrderedFrom p (s.val.left?.getD []) ∧ OrderedFrom p (s.val.right?.getD []) := by
  refine ⟨?_, ?_⟩
  · cases hv : s.val.left? with
    | none => trivial
    | some a =>
      obtain ⟨b, hb', rfl⟩ := h.left?_mem_head? a hv
      exact ha b (mem_of_mem_head? hb')
  · cases hv : s.val.right? with
    | none => trivial
    | some a =>
      obtain ⟨b, hb', rfl⟩ := h.right?_mem_head? a hv
      exact hb b (mem_of_mem_head? hb')

theorem Emits.spans (h : Emits op as bs strips) : (∀ a ∈ as, OrderedFrom p a.val) →
    (∀ b ∈ bs, OrderedFrom p b.val) → ∀ s ∈ strips, OrderedFrom p s.val := by
  induction h with
  | nil => simp
  | cons hstep hsweep _ ih =>
    intro ha hb s hs
    rcases mem_cons.mp hs with rfl | hs
    · obtain ⟨hl, hr⟩ := hstep.spans_orderedFrom ha hb
      exact (hsweep.orderedFrom hl hr).filterVals _
    · exact ih (hstep.forall_val_left ha) (hstep.forall_val_right hb) s hs

/-- **The strips hold exactly the points the operation asks for.** -/
theorem Emits.inBands_iff (h : Emits op as bs strips) (x y : ℤ) : ∀ {p q : ℤ}, OrderedFrom p as →
    OrderedFrom p bs → (∀ a ∈ as, OrderedFrom q a.val) → (∀ b ∈ bs, OrderedFrom q b.val) →
    (InBands strips x y ↔ op.Holds (InBands as x y) (InBands bs x y)) := by
  induction h with
  | nil =>
    intro p q _ _ _ _
    have hnil : ¬ InBands [] x y := by simp [InBands]
    exact iff_of_false hnil (RegionOp.not_holds_of_not hnil hnil)
  | @cons as bs s as' bs' out strips hstep hsweep _ ih =>
    intro p q ha hb hsa hsb
    obtain ⟨_, _, ha', hb'⟩ := hstep.orderedFrom ha hb
    have hrest := ih ha' hb' (hstep.forall_val_left hsa) (hstep.forall_val_right hsb)
    obtain ⟨hl, hr⟩ := hstep.spans_orderedFrom hsa hsb
    simp only [InBands, hstep.valueAt_left ha hb, hstep.valueAt_right ha hb] at hrest ⊢
    rw [valueAt]
    by_cases hc : s.Covers y
    · -- inside the strip: the inner sweep decides
      have hget : ∀ u : Option (List (Run ℤ Unit)),
          (∃ spans, u = some spans ∧ valueAt x spans = some ()) ↔
            valueAt x (u.getD []) = some () := by
        intro u
        cases u <;> simp
      rw [if_pos hc, if_pos hc, if_pos hc, hget, hget, hget, ← valueAt_kept hsweep hl hr x]
      rfl
    · rw [if_neg hc, if_neg hc, if_neg hc]
      exact hrest

/-- No strip reaches the sentinel, as its points are points of an operand. -/
lemma Emits.lo_lt_maxValue (h : Emits op as bs strips) (ha : OrderedFrom p as)
    (hb : OrderedFrom p bs) (hsa : ∀ a ∈ as, OrderedFrom p a.val ∧ BelowMax a.val)
    (hsb : ∀ b ∈ bs, OrderedFrom p b.val ∧ BelowMax b.val) :
    ∀ s ∈ strips, ∀ r ∈ s.val, r.lo < maxValue := by
  have hbelow : ∀ {cs : List Band} {x y : ℤ}, OrderedFrom p cs →
      (∀ c ∈ cs, OrderedFrom p c.val ∧ BelowMax c.val) → InBands cs x y → x < maxValue := by
    rintro cs x y hord hcs ⟨_, hy, hx⟩
    obtain ⟨c, hc, _, rfl⟩ := (valueAt_eq_some_iff hord).mp hy
    obtain ⟨q, hq, hcov, _⟩ := (valueAt_eq_some_iff (hcs c hc).1).mp hx
    exact lt_trans hcov.2 ((hcs c hc).2 q hq)
  intro s hs r hr
  have hord := h.orderedFrom ha hb
  have hspans := h.spans (fun a ha' => (hsa a ha').1) (fun b hb' => (hsb b hb').1) s hs
  have hpoint : InBands strips r.lo s.lo :=
    ⟨s.val, (valueAt_eq_some_iff hord).mpr ⟨s, hs, ⟨le_rfl, (hord.of_mem hs).2⟩, rfl⟩,
      (valueAt_eq_some_iff hspans).mpr ⟨r, hr, ⟨le_rfl, (hspans.of_mem hr).2⟩, rfl⟩⟩
  rw [h.inBands_iff _ _ ha hb (fun a ha' => (hsa a ha').1) fun b hb' => (hsb b hb').1] at hpoint
  exact (RegionOp.Holds.or hpoint).elim (hbelow ha hsa) (hbelow hb hsb)

end Droid
