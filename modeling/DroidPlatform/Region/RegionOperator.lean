import DroidPlatform.Core.DoWhile
import DroidPlatform.Region.Region

/-!
# The region operator

`private/ui/RegionHelper.h`.  A boolean operation sweeps two lists of rectangles at once: the
outer `Spanner` walks the bands from top to bottom, and for each strip it finds an inner
`SpannerInner` walks the rectangles of the current bands from left to right.  Both are driven by
`SpannerBase.next`, which compares the two current intervals, reports the first piece of them and
clips or uses up what it reported.  An exhausted side is marked by the sentinel `maxValue` in both
its ends.

The pieces the operation keeps are handed, one rectangle at a time, to a rasterizer.  The rasterizer
is a parameter here, as it is in the source.
-/

namespace Droid

/-- `region_operator::max_value`. -/
def maxValue : ℤ := 0x7FFFFFF

/-- The boolean operations of `region_operator`. -/
inductive RegionOp where
  | opNand
  | opAnd
  | opOr
  | opXor
deriving DecidableEq, Repr

/-- `LHS` and `RHS`, the truth tables of the operands: bit 0 is "left only", bit 1 "right only" and
bit 2 "both". -/
def opLHS : UInt32 := 0x5

@[inherit_doc opLHS]
def opRHS : UInt32 := 0x6

/-- The operation's truth table, computed as `LHS op RHS`. -/
def RegionOp.mask : RegionOp → UInt32
  | opNand => opLHS &&& ~~~opRHS
  | opAnd => opLHS &&& opRHS
  | opOr => opLHS ||| opRHS
  | opXor => opLHS ^^^ opRHS

/-- `region_operator::region`: rectangles, and the translation to read them with. -/
structure OpRegion where
  rects : List Rect
  dx : ℤ
  dy : ℤ
deriving Repr

/-! ## `SpannerBase` -/

/-- Which side the reported piece belongs to. -/
inductive Inside where
  | lhsBeforeRhs
  | lhsAfterRhs
  | lhsCoincideRhs
deriving DecidableEq, Repr

def Inside.code : Inside → UInt32
  | lhsBeforeRhs => 0
  | lhsAfterRhs => 1
  | lhsCoincideRhs => 2

/-- `(op_mask >> inside) & 1`. -/
def RegionOp.keeps (op : RegionOp) (inside : Inside) : Bool :=
  (op.mask >>> inside.code) &&& 1 != 0

/-- `SpannerBase`: the current interval of each side. -/
structure SpannerBase where
  lhsHead : ℤ
  lhsTail : ℤ
  rhsHead : ℤ
  rhsTail : ℤ
deriving Repr

/-- `SpannerBase::SpannerBase`. -/
def SpannerBase.init : SpannerBase := ⟨maxValue, maxValue, maxValue, maxValue⟩

/-- What `SpannerBase::next` reports through its result and its four output parameters. -/
structure SpannerNext where
  inside : Inside
  head : ℤ
  tail : ℤ
  moreLhs : Bool
  moreRhs : Bool
  base : SpannerBase

/-- `SpannerBase::next`. -/
def SpannerBase.next (b : SpannerBase) : SpannerNext :=
  if b.lhsHead < b.rhsHead then
    if b.lhsTail ≤ b.rhsHead then
      ⟨.lhsBeforeRhs, b.lhsHead, b.lhsTail, true, false, b⟩
    else
      ⟨.lhsBeforeRhs, b.lhsHead, b.rhsHead, false, false, { b with lhsHead := b.rhsHead }⟩
  else if b.rhsHead < b.lhsHead then
    if b.rhsTail ≤ b.lhsHead then
      ⟨.lhsAfterRhs, b.rhsHead, b.rhsTail, false, true, b⟩
    else
      ⟨.lhsAfterRhs, b.rhsHead, b.lhsHead, false, false, { b with rhsHead := b.lhsHead }⟩
  else
    -- the two assignments of the source: the second one wins when the tails are equal
    let moreLhs := b.lhsTail ≤ b.rhsTail
    let moreRhs := b.rhsTail ≤ b.lhsTail
    ⟨.lhsCoincideRhs, b.lhsHead, if moreRhs then b.rhsTail else b.lhsTail, moreLhs, moreRhs,
      { b with
        rhsHead := if moreLhs then b.lhsTail else b.rhsHead
        lhsHead := if moreRhs then b.rhsTail else b.lhsHead }⟩

/-! ## `Spanner`: bands from top to bottom -/

/-- `Spanner`. -/
structure Spanner where
  base : SpannerBase
  lhs : OpRegion
  rhs : OpRegion

variable (reg : OpRegion)

/-- The band at the front of a region: its translated top and bottom, or the sentinel. -/
def OpRegion.band : ℤ × ℤ :=
  match reg.rects with
  | [] => (maxValue, maxValue)
  | r :: _ => (toInt32 (r.top + reg.dy), toInt32 (r.bottom + reg.dy))

/-- `Spanner::Spanner`. -/
def Spanner.init (lhs rhs : OpRegion) : Spanner :=
  ⟨⟨lhs.band.1, lhs.band.2, rhs.band.1, rhs.band.2⟩, lhs, rhs⟩

/-- `Spanner::isDone`. -/
def Spanner.isDone (s : Spanner) : Bool := s.rhs.rects.isEmpty && s.lhs.rects.isEmpty

/-- `Spanner::advance`: skip the rectangles that share the top of the first one. -/
def OpRegion.advanceBand : OpRegion :=
  match reg.rects with
  | [] => reg
  | r :: rs => { reg with rects := (r :: rs).dropWhile (·.top == r.top) }

/-- `Spanner::next`, giving the strip's `inside`, top and bottom. -/
def Spanner.next (s : Spanner) : Inside × ℤ × ℤ × Spanner :=
  let n := s.base.next
  let lhs := if n.moreLhs then s.lhs.advanceBand else s.lhs
  let rhs := if n.moreRhs then s.rhs.advanceBand else s.rhs
  let base : SpannerBase :=
    ⟨if n.moreLhs then lhs.band.1 else n.base.lhsHead,
     if n.moreLhs then lhs.band.2 else n.base.lhsTail,
     if n.moreRhs then rhs.band.1 else n.base.rhsHead,
     if n.moreRhs then rhs.band.2 else n.base.rhsTail⟩
  (n.inside, n.head, n.tail, ⟨base, lhs, rhs⟩)

/-! ## `SpannerInner`: rectangles of a band from left to right -/

/-- `SpannerInner`. -/
structure SpannerInner where
  base : SpannerBase
  lhs : OpRegion
  rhs : OpRegion

/-- `SpannerInner::SpannerInner`. -/
def SpannerInner.init (lhs rhs : OpRegion) : SpannerInner := ⟨SpannerBase.init, lhs, rhs⟩

/-- The translated left and right of the first rectangle, or `dflt` when there is none. -/
def OpRegion.spanOr (dflt : ℤ × ℤ) : ℤ × ℤ :=
  match reg.rects with
  | [] => dflt
  | r :: _ => (toInt32 (r.left + reg.dx), toInt32 (r.right + reg.dx))

/-- `SpannerInner::prepare`. -/
def SpannerInner.prepare (s : SpannerInner) (inside : Inside) : SpannerInner :=
  let lhsSpan := s.lhs.spanOr (s.base.lhsHead, s.base.lhsTail)
  let rhsSpan := s.rhs.spanOr (s.base.rhsHead, s.base.rhsTail)
  match inside with
  | .lhsBeforeRhs => { s with base := ⟨lhsSpan.1, lhsSpan.2, maxValue, maxValue⟩ }
  | .lhsAfterRhs => { s with base := ⟨maxValue, maxValue, rhsSpan.1, rhsSpan.2⟩ }
  | .lhsCoincideRhs => { s with base := ⟨lhsSpan.1, lhsSpan.2, rhsSpan.1, rhsSpan.2⟩ }

/-- `SpannerInner::isDone`. -/
def SpannerInner.isDone (s : SpannerInner) : Bool :=
  s.base.lhsHead == maxValue && s.base.rhsHead == maxValue

/-- `SpannerInner::advance`: the next rectangle of the band, or the sentinel at its end.  A region
without rectangles keeps the ends it had. -/
def OpRegion.advanceSpan (ends : ℤ × ℤ) : OpRegion × ℤ × ℤ :=
  match reg.rects with
  | [] => (reg, ends)
  | r :: rest =>
    match rest with
    | [] => ({ reg with rects := [] }, maxValue, maxValue)
    | q :: _ =>
      if q.top ≠ r.top then ({ reg with rects := rest }, maxValue, maxValue)
      else ({ reg with rects := rest }, toInt32 (q.left + reg.dx), toInt32 (q.right + reg.dx))

/-- `SpannerInner::next`, giving the piece's `inside`, left and right. -/
def SpannerInner.next (s : SpannerInner) : Inside × ℤ × ℤ × SpannerInner :=
  let n := s.base.next
  let l := if n.moreLhs then s.lhs.advanceSpan (n.base.lhsHead, n.base.lhsTail)
    else (s.lhs, n.base.lhsHead, n.base.lhsTail)
  let r := if n.moreRhs then s.rhs.advanceSpan (n.base.rhsHead, n.base.rhsTail)
    else (s.rhs, n.base.rhsHead, n.base.rhsTail)
  (n.inside, n.head, n.tail, ⟨⟨l.2.1, l.2.2, r.2.1, r.2.2⟩, l.1, r.1⟩)

/-! ## The operation -/

section Operator

variable {ρ : Type*} (emit : ρ → Rect → ρ) (op : RegionOp)

/-- The body of the inner loop: one piece of the strip `[top, bottom)`. -/
def innerBody (top bottom : ℤ) (st : SpannerInner × ρ) : SpannerInner × ρ :=
  let (inside, left, right, inner) := st.1.next
  if op.keeps inside then
    if left < right ∧ top < bottom then (inner, emit st.2 ⟨left, top, right, bottom⟩)
    else (inner, st.2)
  else (inner, st.2)

/-- The inner loop of `region_operator::operator()`. -/
def innerLoop (fuel : ℕ) (top bottom : ℤ) (st : SpannerInner × ρ) : Option (SpannerInner × ρ) :=
  doWhile (fun st => some (innerBody emit op top bottom st)) (fun st => st.1.isDone) fuel st

/-- The body of the outer loop: one strip. -/
def outerBody (fuel : ℕ) (st : Spanner × ρ) : Option (Spanner × ρ) :=
  let spannerInner := SpannerInner.init st.1.lhs st.1.rhs
  let (inside, top, bottom, spanner) := st.1.next
  (innerLoop emit op fuel top bottom (spannerInner.prepare inside, st.2)).map
    fun res => (spanner, res.2)

/-- `region_operator::operator()`. -/
def regionOperator (fuel : ℕ) (lhs rhs : OpRegion) (rasterizer : ρ) : Option ρ :=
  (doWhile (outerBody emit op fuel) (fun st => st.1.isDone) fuel
    (Spanner.init lhs rhs, rasterizer)).map Prod.snd

end Operator

end Droid
