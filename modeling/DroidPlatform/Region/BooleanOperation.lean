import DroidPlatform.Region.RegionOperator

/-!
# The rasterizer and the boolean operations

`Region::rasterizer` from `libs/ui/Region.cpp` receives the rectangles of a boolean operation one
at a time, in reading order, and stores them as a region: rectangles of one band that touch are
joined as they arrive, and a finished band is joined to the one stored before it when it continues
it downwards with the same left and right edges.
-/

namespace Droid

/-- `INT_MAX`. -/
def intMax : ℤ := 2 ^ 31 - 1

/-- `INT_MIN`. -/
def intMin : ℤ := -2 ^ 31

/-- `Region::rasterizer`.  `head` and `tail` delimit the last band in `storage`, as offsets, and
`cur` is the last rectangle of `span`. -/
structure Rasterizer where
  bounds : Rect
  storage : List Rect
  head : ℕ
  tail : ℕ
  span : List Rect
deriving Repr

namespace Rasterizer

/-- `rasterizer::rasterizer`: what `reg` held before is dropped. -/
def init (_reg : Region) : Rasterizer :=
  { bounds := ⟨intMax, 0, intMin, 0⟩, storage := [], head := 0, tail := 0, span := [] }

/-- The `while (q != tail)` comparison of the new span with the stored band. -/
def sameEdges : List Rect → List Rect → Bool
  | p :: ps, q :: qs => if p.left ≠ q.left ∨ p.right ≠ q.right then false else sameEdges ps qs
  | _, _ => true

variable (ras : Rasterizer)

/-- The rectangles from `head` to `tail`. -/
def lastBand : List Rect := (ras.storage.drop ras.head).take (ras.tail - ras.head)

/-- `merge` of `flushSpan`: the span continues the last band with as many rectangles, at the same
left and right edges. -/
def merges : Bool :=
  if ras.tail - ras.head = ras.span.length then
    match ras.span, ras.lastBand with
    | p :: ps, q :: qs => p.top == q.bottom && sameEdges (p :: ps) (q :: qs)
    | _, _ => false
  else false

/-- `rasterizer::flushSpan`, called with a span that has rectangles. -/
def flushSpan : Rasterizer :=
  match ras.span with
  | [] => ras
  | p :: ps =>
    if ras.merges then
      { ras with
        storage := ras.storage.take ras.head ++
          ras.lastBand.map (fun r => { r with bottom := p.bottom }) ++ ras.storage.drop ras.tail
        span := [] }
    else
      let last := (p :: ps).getLast (List.cons_ne_nil p ps)
      { bounds := { ras.bounds with
          left := if p.left < ras.bounds.left then p.left else ras.bounds.left
          right := if last.right > ras.bounds.right then last.right else ras.bounds.right }
        storage := ras.storage ++ (p :: ps)
        tail := (ras.storage ++ (p :: ps)).length
        head := (ras.storage ++ (p :: ps)).length - (p :: ps).length
        span := [] }

/-- `rasterizer::operator()`. -/
def add (rect : Rect) : Rasterizer :=
  match ras.span.getLast? with
  | none => { ras with span := ras.span ++ [rect] }
  | some cur =>
    if cur.top ≠ rect.top then
      let flushed := ras.flushSpan
      { flushed with span := flushed.span ++ [rect] }
    else if cur.right = rect.left then
      { ras with span := ras.span.dropLast ++ [{ cur with right := rect.right }] }
    else { ras with span := ras.span ++ [rect] }

/-- `rasterizer::~rasterizer`: flush the last span and settle the bounds. -/
def finish : Region :=
  let ras := if ras.span.isEmpty then ras else ras.flushSpan
  match ras.storage with
  | [] => ⟨{ ras.bounds with left := 0, right := 0 }, []⟩
  | r :: rs =>
    let bounds := { ras.bounds with
      top := r.top, bottom := ((r :: rs).getLast (List.cons_ne_nil r rs)).bottom }
    if (r :: rs).length = 1 then ⟨bounds, []⟩ else ⟨bounds, r :: rs⟩

end Rasterizer

/-- `Region::boolean_operation`: what `dst` holds after it. -/
def booleanOperation (fuel : ℕ) (op : RegionOp) (dst lhs rhs : Region) (dx dy : ℤ) :
    Option Region :=
  (regionOperator Rasterizer.add op fuel ⟨lhs.getArray, 0, 0⟩ ⟨rhs.getArray, dx, dy⟩
    (Rasterizer.init dst)).map Rasterizer.finish

end Droid
