import DroidPlatform.Core.Word

/-!
# Rectangles and regions

The data model of `ui/Rect.h` and `ui/Region.h`.  A `Region` is a bounding rectangle `mBounds`
and a vector `mStorage` of rectangles; a region of one rectangle keeps its storage empty and *is*
its bounds, so the rectangles of a region are read through `getArray`.

Coordinates are `int32_t`.  `Rect::width` subtracts two of them, and `Rect::isEmpty` looks at the
result after the wrap; everything else about a rectangle is plain comparison.
-/

namespace Droid

/-- `Rect`: a rectangle with `left` and `top` inclusive, `right` and `bottom` exclusive. -/
@[ext]
structure Rect where
  left : ℤ
  top : ℤ
  right : ℤ
  bottom : ℤ
deriving DecidableEq, Repr

namespace Rect

/-- `Rect::getWidth`. -/
def width (r : Rect) : ℤ := toInt32 (r.right - r.left)

/-- `Rect::getHeight`. -/
def height (r : Rect) : ℤ := toInt32 (r.bottom - r.top)

/-- `Rect::isEmpty`: a zero width or height, or an invalid rectangle. -/
def isEmpty (r : Rect) : Bool := r.width ≤ 0 || r.height ≤ 0

/-- `Rect::clear`. -/
def zero : Rect := ⟨0, 0, 0, 0⟩

/-- The pixels of a rectangle. -/
def Contains (r : Rect) (x y : ℤ) : Prop := (r.left ≤ x ∧ x < r.right) ∧ r.top ≤ y ∧ y < r.bottom

instance (r : Rect) (x y : ℤ) : Decidable (r.Contains x y) :=
  inferInstanceAs (Decidable ((_ ∧ _) ∧ _ ∧ _))

/-- The rectangle has pixels. -/
def HasArea (r : Rect) : Prop := r.left < r.right ∧ r.top < r.bottom

instance (r : Rect) : Decidable r.HasArea := inferInstanceAs (Decidable (_ ∧ _))

lemma hasArea_of_contains {r : Rect} {x y : ℤ} (h : r.Contains x y) : r.HasArea :=
  ⟨lt_of_le_of_lt h.1.1 h.1.2, lt_of_le_of_lt h.2.1 h.2.2⟩

end Rect

/-- `Region`. -/
@[ext]
structure Region where
  mBounds : Rect
  mStorage : List Rect
deriving DecidableEq, Repr

namespace Region

/-- `Region::Region()`. -/
def empty : Region := ⟨Rect.zero, []⟩

/-- `Region::isEmpty`. -/
def isEmpty (reg : Region) : Bool := reg.mBounds.isEmpty

/-- `Region::isRect`. -/
def isRect (reg : Region) : Bool := reg.mStorage.isEmpty

/-- `Region::getArray`, the rectangles from `begin()` to `end()`. -/
def getArray (reg : Region) : List Rect :=
  if reg.isRect then
    if reg.isEmpty then [] else [reg.mBounds]
  else reg.mStorage

/-- The loop of `Region::validate`: the verdict on the rectangles after `prev`, and the bounding
box of all rectangles seen, starting from `b`. -/
def validateSpans (b prev : Rect) : List Rect → Bool × Rect
  | [] => (true, b)
  | cur :: rest =>
    let b' : Rect :=
      ⟨if b.left < cur.left then b.left else cur.left,
       if b.top < cur.top then b.top else cur.top,
       if b.right > cur.right then b.right else cur.right,
       if b.bottom > cur.bottom then b.bottom else cur.bottom⟩
    let ok :=
      if cur.top = prev.top then
        if cur.bottom ≠ prev.bottom then false          -- invalid span
        else if cur.left < prev.right then false        -- spans overlap horizontally
        else true
      else if cur.top < prev.bottom then false          -- spans overlap vertically
      else true
    let (okRest, box) := validateSpans b' cur rest
    (ok && okRest, box)

/-- The pixels a region stands for: those of its storage, or of its bounds when it has none.
`getArray` lists the same pixels unless `Rect::isEmpty` wrapped on the bounds (`Valid`). -/
def Contains (reg : Region) (x y : ℤ) : Prop :=
  if reg.mStorage = [] then reg.mBounds.Contains x y else ∃ r ∈ reg.mStorage, r.Contains x y

instance (reg : Region) (x y : ℤ) : Decidable (reg.Contains x y) := by
  unfold Contains; infer_instance

/-- A valid region: its rectangles have pixels and pass the span checks of `validate`, and when it
reports itself empty its bounds really have no pixels (which fails only if `Rect::width` or
`Rect::height` wrapped).  Nothing is asked of the bounds of a region with storage. -/
structure Valid (reg : Region) : Prop where
  hasArea : ∀ r ∈ reg.getArray, r.HasArea
  spans : ∀ r rs, reg.getArray = r :: rs → (validateSpans r r rs).1 = true
  isEmpty : reg.mStorage = [] → reg.isEmpty = true → ¬ reg.mBounds.HasArea

end Region

end Droid
