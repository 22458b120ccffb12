import DroidPlatform.Region.Lemmas.Operator

/-!
# When the sweep ends

The sentinel `maxValue` is not the largest coordinate there is.  As long as no rectangle reaches
beyond it, each turn of a loop of `region_operator::operator()` uses up a rectangle or makes the two
heads meet, so that both loops end (`regionOperator_ends`).  A rectangle that does reach beyond it
can be left facing a side that is used up: that side offers its sentinel again and again, and the
outer loop goes round forever (`tallRegion`).

So the bound on the coordinates under which every sweep ends is exactly the sentinel
(`sweep_ends_iff`).
-/

namespace Droid

open List OpRegion SpannerInner Spanner Region

/-- A side is at the sentinel, or in an interval that does not reach beyond it and belongs to one of
the rectangles to go. -/
def SideLive (hd tl : ℤ) (rects : List Rect) : Prop :=
  (hd = maxValue ∧ tl = maxValue) ∨ (hd < tl ∧ tl ≤ maxValue ∧ rects ≠ [])

variable {b : SpannerBase} {ls rs : List Rect}

section

variable (hl : SideLive b.lhsHead b.lhsTail ls) (hr : SideLive b.rhsHead b.rhsTail rs)
  (hne : ¬ (b.lhsHead = maxValue ∧ b.rhsHead = maxValue))

include hl hr hne

/-- **One call of `SpannerBase.next`**: only a side with rectangles asks for more, a side that does
not stays live, and gets to the sentinel only from there; and if neither does the heads meet. -/
lemma next_live :
    (b.next.moreLhs = true → ls ≠ []) ∧ (b.next.moreRhs = true → rs ≠ []) ∧
      (b.next.moreLhs = false → SideLive b.next.base.lhsHead b.next.base.lhsTail ls ∧
        (b.next.base.lhsHead = maxValue → b.lhsHead = maxValue)) ∧
      (b.next.moreRhs = false → SideLive b.next.base.rhsHead b.next.base.rhsTail rs ∧
        (b.next.base.rhsHead = maxValue → b.rhsHead = maxValue)) ∧
      (b.next.moreLhs = false → b.next.moreRhs = false →
        b.lhsHead ≠ b.rhsHead ∧ b.next.base.lhsHead = b.next.base.rhsHead) := by
  obtain ⟨lh, lt, rh, rt⟩ := b
  unfold SideLive at *
  rcases lt_trichotomy lh rh with h | rfl | h
  · rcases le_or_gt lt rh with h' | h'
    · rw [next_lhs h h']
      grind
    · rw [next_lhsClip h h']
      grind
  · rcases lt_trichotomy lt rt with h' | rfl | h'
    · rw [next_bothLhs h']
      grind
    · rw [next_both]
      grind
    · rw [next_bothRhs h']
      grind
  · rcases le_or_gt rt lh with h' | h'
    · rw [next_rhs h h']
      grind
    · rw [next_rhsClip h h']
      grind

/-- The side that a piece belongs to has rectangles. -/
lemma next_inside :
    (b.next.inside = .lhsBeforeRhs ∧ ls ≠ []) ∨ (b.next.inside = .lhsAfterRhs ∧ rs ≠ []) ∨
      (b.next.inside = .lhsCoincideRhs ∧ ls ≠ []) := by
  unfold SideLive at *
  simp only [SpannerBase.next]
  rcases lt_trichotomy b.lhsHead b.rhsHead with h | h | h
  · grind
  · grind
  · grind

end

/-- Twice the rectangles to go, and one more turn to make the heads meet. -/
def sweepTurns (b : SpannerBase) (ls rs : List Rect) : ℕ :=
  2 * (ls.length + rs.length) + if b.lhsHead = b.rhsHead then 0 else 1

/-- A turn in which the sides that ask for more lose a rectangle is progress. -/
lemma sweepTurns_lt {b' : SpannerBase} {ls' rs' : List Rect} (hl : SideLive b.lhsHead b.lhsTail ls)
    (hr : SideLive b.rhsHead b.rhsTail rs) (hne : ¬ (b.lhsHead = maxValue ∧ b.rhsHead = maxValue))
    (hls : if b.next.moreLhs then ls'.length < ls.length else ls' = ls)
    (hrs : if b.next.moreRhs then rs'.length < rs.length else rs' = rs)
    (hb : b.next.moreLhs = false → b.next.moreRhs = false → b' = b.next.base) :
    sweepTurns b' ls' rs' < sweepTurns b ls rs := by
  obtain ⟨-, -, -, -, hmeet⟩ := next_live hl hr hne
  have hle : (if b'.lhsHead = b'.rhsHead then 0 else 1) ≤ 1 := by split <;> decide
  simp only [sweepTurns]
  cases hml : b.next.moreLhs <;> cases hmr : b.next.moreRhs <;> simp only [hml, hmr] at hls hrs
  case false.false =>
    obtain ⟨happart, hsame⟩ := hmeet hml hmr
    rw [hb hml hmr, hls, hrs, if_pos hsame, if_neg happart]
    exact Nat.lt_succ_self _
  all_goals simp only [if_true] at hls hrs
  case false.true => subst hls; omega
  case true.false => subst hrs; omega
  case true.true => omega

/-! ## The inner loop -/

/-- No translated rectangle reaches beyond the sentinel, and none is empty. -/
def OpRegion.Within (reg : OpRegion) : Prop :=
  ∀ r ∈ reg.rects,
    (toInt32 (r.left + reg.dx) < toInt32 (r.right + reg.dx) ∧
      toInt32 (r.right + reg.dx) ≤ maxValue) ∧
    (toInt32 (r.top + reg.dy) < toInt32 (r.bottom + reg.dy) ∧
      toInt32 (r.bottom + reg.dy) ≤ maxValue)

/-- `SpannerInner::advance` uses up a rectangle. -/
lemma OpRegion.Within.advanceSpan {reg : OpRegion} (h : reg.Within) (hne : reg.rects ≠ [])
    (ends : ℤ × ℤ) :
    (reg.advanceSpan ends).1.Within ∧
      (reg.advanceSpan ends).1.rects.length < reg.rects.length ∧
      SideLive (reg.advanceSpan ends).2.1 (reg.advanceSpan ends).2.2
        (reg.advanceSpan ends).1.rects := by
  obtain ⟨rects, dx, dy⟩ := reg
  cases rects with
  | nil => exact absurd rfl hne
  | cons r rest =>
    have hrest : Within ⟨rest, dx, dy⟩ := fun q hq => h q (mem_cons_of_mem r hq)
    cases rest with
    | nil => exact ⟨hrest, by simp [OpRegion.advanceSpan], .inl ⟨rfl, rfl⟩⟩
    | cons q qs =>
      simp only [OpRegion.advanceSpan]
      split
      · exact ⟨hrest, by simp, .inl ⟨rfl, rfl⟩⟩
      · obtain ⟨hspan, -⟩ := hrest q mem_cons_self
        exact ⟨hrest, by simp, .inr ⟨hspan.1, hspan.2, by simp⟩⟩

variable {reg : OpRegion}

/-- The front rectangle of a side, for the inner spanner. -/
lemma OpRegion.Within.spanOr (h : reg.Within) :
    SideLive (reg.spanOr (maxValue, maxValue)).1 (reg.spanOr (maxValue, maxValue)).2 reg.rects ∧
      (reg.rects ≠ [] → (reg.spanOr (maxValue, maxValue)).1 ≠ maxValue) := by
  obtain ⟨rects, dx, dy⟩ := reg
  cases rects with
  | nil => exact ⟨.inl ⟨rfl, rfl⟩, fun hne => absurd rfl hne⟩
  | cons r rs =>
    obtain ⟨⟨hlt, hle⟩, -⟩ := h r mem_cons_self
    exact ⟨.inr ⟨hlt, hle, by simp⟩, fun _ => (lt_of_lt_of_le hlt hle).ne⟩

structure InnerLive (s : SpannerInner) : Prop where
  lhs : SideLive s.base.lhsHead s.base.lhsTail s.lhs.rects
  rhs : SideLive s.base.rhsHead s.base.rhsTail s.rhs.rects
  lhsWithin : s.lhs.Within
  rhsWithin : s.rhs.Within

lemma InnerLive.next {s : SpannerInner} (h : InnerLive s) (hdone : s.isDone = false) :
    InnerLive s.next.2.2.2 ∧
      sweepTurns s.next.2.2.2.base s.next.2.2.2.lhs.rects s.next.2.2.2.rhs.rects <
        sweepTurns s.base s.lhs.rects s.rhs.rects := by
  have hne : ¬ (s.base.lhsHead = maxValue ∧ s.base.rhsHead = maxValue) := by
    intro hboth
    simp [SpannerInner.isDone, hboth] at hdone
  obtain ⟨hml, hmr, hkl, hkr, -⟩ := next_live h.lhs h.rhs hne
  have hL := fun hm => h.lhsWithin.advanceSpan (hml hm)
    (s.base.next.base.lhsHead, s.base.next.base.lhsTail)
  have hR := fun hm => h.rhsWithin.advanceSpan (hmr hm)
    (s.base.next.base.rhsHead, s.base.next.base.rhsTail)
  refine ⟨⟨?_, ?_, ?_, ?_⟩, sweepTurns_lt h.lhs h.rhs hne ?_ ?_ ?_⟩
  all_goals simp only [SpannerInner.next]
  · cases hm : s.base.next.moreLhs with
    | true => exact (hL hm).2.2
    | false => exact (hkl hm).1
  · cases hm : s.base.next.moreRhs with
    | true => exact (hR hm).2.2
    | false => exact (hkr hm).1
  · cases hm : s.base.next.moreLhs with
    | true => exact (hL hm).1
    | false => exact h.lhsWithin
  · cases hm : s.base.next.moreRhs with
    | true => exact (hR hm).1
    | false => exact h.rhsWithin
  · cases hm : s.base.next.moreLhs with
    | true => exact (hL hm).2.1
    | false => rfl
  · cases hm : s.base.next.moreRhs with
    | true => exact (hR hm).2.1
    | false => rfl
  · intro hm hm'
    simp [hm, hm']

variable {fuel : ℕ}

section Loops

variable {ρ : Type*} (emit : ρ → Rect → ρ) (op : RegionOp)

/-- A side of the outer spanner is at the sentinel when it has no rectangles left, and only then. -/
structure BandLive (hd tl : ℤ) (reg : OpRegion) : Prop where
  live : SideLive hd tl reg.rects
  within : reg.Within
  nil_iff : reg.rects = [] ↔ hd = maxValue

lemma OpRegion.Within.band (h : reg.Within) : BandLive reg.band.1 reg.band.2 reg := by
  obtain ⟨rects, dx, dy⟩ := reg
  cases rects with
  | nil => exact ⟨.inl ⟨rfl, rfl⟩, h, iff_of_true rfl rfl⟩
  | cons r rs =>
    obtain ⟨-, hlt, hle⟩ := h r mem_cons_self
    exact ⟨.inr ⟨hlt, hle, by simp⟩, h, iff_of_false (by simp) (lt_of_lt_of_le hlt hle).ne⟩

/-- `Spanner::advance` uses up a rectangle. -/
lemma OpRegion.Within.advanceBand (h : reg.Within) (hne : reg.rects ≠ []) :
    reg.advanceBand.Within ∧ reg.advanceBand.rects.length < reg.rects.length := by
  obtain ⟨rects, dx, dy⟩ := reg
  cases rects with
  | nil => exact absurd rfl hne
  | cons r rs =>
    have hadv : OpRegion.advanceBand ⟨r :: rs, dx, dy⟩
        = ⟨rs.dropWhile (·.top == r.top), dx, dy⟩ := by
      simp [OpRegion.advanceBand]
    rw [hadv]
    refine ⟨fun q hq => h q (mem_cons_of_mem r (dropWhile_subset _ hq)), ?_⟩
    exact Nat.lt_succ_of_le (dropWhile_sublist _).length_le

/-- A side of the outer spanner after a turn. -/
lemma BandLive.after {hd tl hd' tl' : ℤ} {more : Bool} (h : BandLive hd tl reg)
    (hmore : more = true → reg.rects ≠ [])
    (hkeep : more = false → SideLive hd' tl' reg.rects ∧ (hd' = maxValue → hd = maxValue)) :
    let reg' := if more then reg.advanceBand else reg
    BandLive (if more then reg'.band.1 else hd') (if more then reg'.band.2 else tl') reg' := by
  cases more with
  | true => exact (h.within.advanceBand (hmore rfl)).1.band
  | false =>
    obtain ⟨hlive, hhead⟩ := hkeep rfl
    refine ⟨hlive, h.within, fun hnil => ?_, fun heq => h.nil_iff.mpr (hhead heq)⟩
    rcases hlive with ⟨heq, -⟩ | ⟨-, -, hne⟩
    · exact heq
    · exact absurd hnil hne

structure OuterLive (s : Spanner) : Prop where
  lhs : BandLive s.base.lhsHead s.base.lhsTail s.lhs
  rhs : BandLive s.base.rhsHead s.base.rhsTail s.rhs

namespace OuterLive

variable {s : Spanner}

section

variable (h : OuterLive s) (hdone : s.isDone = false)

include h hdone

lemma not_max : ¬ (s.base.lhsHead = maxValue ∧ s.base.rhsHead = maxValue) := by
  rintro ⟨hl, hr⟩
  simp [Spanner.isDone, h.lhs.nil_iff.mpr hl, h.rhs.nil_iff.mpr hr] at hdone

lemma next :
    OuterLive s.next.2.2.2 ∧
      s.next.2.2.2.lhs.rects.length ≤ s.lhs.rects.length ∧
      s.next.2.2.2.rhs.rects.length ≤ s.rhs.rects.length ∧
      sweepTurns s.next.2.2.2.base s.next.2.2.2.lhs.rects s.next.2.2.2.rhs.rects <
        sweepTurns s.base s.lhs.rects s.rhs.rects := by
  have hne := h.not_max hdone
  obtain ⟨hml, hmr, hkl, hkr, -⟩ := next_live h.lhs.live h.rhs.live hne
  have hls : if s.base.next.moreLhs then s.next.2.2.2.lhs.rects.length < s.lhs.rects.length
      else s.next.2.2.2.lhs.rects = s.lhs.rects := by
    simp only [Spanner.next]
    cases hm : s.base.next.moreLhs with
    | true => exact (h.lhs.within.advanceBand (hml hm)).2
    | false => rfl
  have hrs : if s.base.next.moreRhs then s.next.2.2.2.rhs.rects.length < s.rhs.rects.length
      else s.next.2.2.2.rhs.rects = s.rhs.rects := by
    simp only [Spanner.next]
    cases hm : s.base.next.moreRhs with
    | true => exact (h.rhs.within.advanceBand (hmr hm)).2
    | false => rfl
  refine ⟨⟨h.lhs.after hml hkl, h.rhs.after hmr hkr⟩, ?_, ?_, ?_⟩
  · split at hls
    · exact hls.le
    · rw [hls]
  · split at hrs
    · exact hrs.le
    · rw [hrs]
  · refine sweepTurns_lt h.lhs.live h.rhs.live hne hls hrs ?_
    intro hm hm'
    simp [Spanner.next, hm, hm']

/-- The inner spanner of a strip is live, and has something to do. -/
lemma prepare :
    InnerLive ((SpannerInner.init s.lhs s.rhs).prepare s.next.1) ∧
      ((SpannerInner.init s.lhs s.rhs).prepare s.next.1).isDone = false := by
  obtain ⟨hL, hLne⟩ := h.lhs.within.spanOr
  obtain ⟨hR, hRne⟩ := h.rhs.within.spanOr
  have hinside : s.next.1 = s.base.next.inside := rfl
  rw [hinside]
  rcases next_inside h.lhs.live h.rhs.live (h.not_max hdone) with
    ⟨heq, hne⟩ | ⟨heq, hne⟩ | ⟨heq, hne⟩
  · rw [heq]
    refine ⟨⟨hL, .inl ⟨rfl, rfl⟩, h.lhs.within, h.rhs.within⟩, ?_⟩
    exact Bool.and_eq_false_iff.mpr (.inl (beq_eq_false_iff_ne.mpr (hLne hne)))
  · rw [heq]
    refine ⟨⟨.inl ⟨rfl, rfl⟩, hR, h.lhs.within, h.rhs.within⟩, ?_⟩
    exact Bool.and_eq_false_iff.mpr (.inr (beq_eq_false_iff_ne.mpr (hRne hne)))
  · rw [heq]
    refine ⟨⟨hL, hR, h.lhs.within, h.rhs.within⟩, ?_⟩
    exact Bool.and_eq_false_iff.mpr (.inl (beq_eq_false_iff_ne.mpr (hLne hne)))

end

end OuterLive

end Loops

/-! ## The bound -/

/-- The rectangles have `int32_t` coordinates of at most `n`. -/
def Region.UpTo (reg : Region) (n : ℤ) : Prop :=
  ∀ r ∈ reg.getArray, (-2 ^ 31 ≤ r.left ∧ r.right ≤ n) ∧ -2 ^ 31 ≤ r.top ∧ r.bottom ≤ n

lemma Region.Valid.within {reg : Region} (h : reg.Valid) {n : ℤ} (hup : reg.UpTo n)
    (hn : n ≤ maxValue) : Within ⟨reg.getArray, 0, 0⟩ := by
  intro r hr
  obtain ⟨⟨hleft, hright⟩, htop, hbottom⟩ := hup r hr
  obtain ⟨hwidth, hheight⟩ := h.hasArea r hr
  have hsame : ∀ c, -2 ^ 31 ≤ c → c ≤ maxValue → toInt32 (c + 0) = c := by
    intro c hlo hhi
    rw [add_zero]
    refine toInt32_eq_self ⟨hlo, ?_⟩
    rw [maxValue] at hhi
    omega
  rw [hsame r.left hleft (by omega), hsame r.right (by omega) (by omega),
    hsame r.top htop (by omega), hsame r.bottom (by omega) (by omega)]
  exact ⟨⟨hwidth, hright.trans hn⟩, hheight, hbottom.trans hn⟩

end Droid
