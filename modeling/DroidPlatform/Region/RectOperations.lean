import DroidPlatform.Region.BooleanOperation

/-!
# A region and a rectangle

The operations of `Region` that take a `Rect` come in two forms: `merge`, `intersect`, `subtract` and
`mergeExclusive` return a new region, `orSelf`, `andSelf`, `subtractSelf` and `xorSelf` change the
region they are called on.  Both forms go through one function, which does nothing to its
destination when the rectangle is invalid.  The destination is the region itself in one form and a
new region in the other, so that the forms agree exactly when the rectangle is valid or the region is
the one that `Region()` makes (`rect_forms_agree_iff`).
-/

namespace Droid

/-- `Rect::isValid` -/
def Rect.isValid (r : Rect) : Bool := 0 ≤ r.width && 0 ≤ r.height

variable (fuel : ℕ)

/-- `Region::boolean_operation` with a rectangle: what `dst` holds after it. -/
def booleanOperationRect (op : RegionOp) (dst lhs : Region) (rhs : Rect) (dx dy : ℤ) :
    Option Region :=
  if !rhs.isValid then some dst
  else
    (regionOperator Rasterizer.add op fuel ⟨lhs.getArray, 0, 0⟩ ⟨[rhs], dx, dy⟩
      (Rasterizer.init dst)).map Rasterizer.finish

namespace Region

variable (x : Region)

/-- `Region::operation(const Rect&)` -/
def operation (rhs : Rect) (op : RegionOp) : Option Region :=
  booleanOperationRect fuel op .empty x rhs 0 0

/-- `Region::operationSelf(const Rect&)` -/
def operationSelf (r : Rect) (op : RegionOp) : Option Region :=
  booleanOperationRect fuel op x x r 0 0

def merge (rhs : Rect) : Option Region := x.operation fuel rhs .opOr

def mergeExclusive (rhs : Rect) : Option Region :=
  x.operation fuel rhs .opXor

def intersect (rhs : Rect) : Option Region := x.operation fuel rhs .opAnd

def subtract (rhs : Rect) : Option Region := x.operation fuel rhs .opNand

def orSelf (r : Rect) : Option Region := x.operationSelf fuel r .opOr

def xorSelf (r : Rect) : Option Region := x.operationSelf fuel r .opXor

def andSelf (r : Rect) : Option Region := x.operationSelf fuel r .opAnd

def subtractSelf (r : Rect) : Option Region :=
  x.operationSelf fuel r .opNand

/-- A valid rectangle: the rasterizer drops what the destination held. -/
lemma operation_of_isValid {r : Rect} (op : RegionOp) (hr : r.isValid = true) :
    x.operation fuel r op = x.operationSelf fuel r op := by
  simp [operation, operationSelf, booleanOperationRect, hr, Rasterizer.init]

/-- An invalid one: neither form touches its destination. -/
lemma operation_of_not_isValid {r : Rect} (op : RegionOp) (hr : r.isValid = false) :
    x.operation fuel r op = some .empty ∧ x.operationSelf fuel r op = some x := by
  simp [operation, operationSelf, booleanOperationRect, hr]

lemma operation_eq_iff (r : Rect) (op : RegionOp) :
    x.operation fuel r op = x.operationSelf fuel r op ↔ r.isValid = true ∨ x = .empty := by
  cases hr : r.isValid with
  | true => exact iff_of_true (operation_of_isValid fuel x op hr) (.inl rfl)
  | false =>
    obtain ⟨hvalue, hself⟩ := operation_of_not_isValid fuel x op hr
    rw [hvalue, hself, eq_comm]
    simp

/-- **The two forms agree** for a valid rectangle, and for the region that `Region()` makes, and in
no other case. -/
theorem rect_forms_agree_iff (fuel : ℕ) (x : Region) (r : Rect) :
    (x.merge fuel r = x.orSelf fuel r ↔ r.isValid = true ∨ x = .empty) ∧
      (x.intersect fuel r = x.andSelf fuel r ↔ r.isValid = true ∨ x = .empty) ∧
      (x.subtract fuel r = x.subtractSelf fuel r ↔ r.isValid = true ∨ x = .empty) ∧
      (x.mergeExclusive fuel r = x.xorSelf fuel r ↔ r.isValid = true ∨ x = .empty) :=
  ⟨operation_eq_iff fuel x r .opOr, operation_eq_iff fuel x r .opAnd,
    operation_eq_iff fuel x r .opNand, operation_eq_iff fuel x r .opXor⟩

/-- Joining a pixel with the invalid rectangle that `Rect::makeInvalid` leaves: the new region is
empty, and in place the pixel stays. -/
theorem merge_invalid :
    Rect.isValid ⟨0, 0, -1, -1⟩ = false ∧ ∀ fuel,
      merge fuel ⟨⟨0, 0, 1, 1⟩, []⟩ ⟨0, 0, -1, -1⟩ = some .empty ∧
      orSelf fuel ⟨⟨0, 0, 1, 1⟩, []⟩ ⟨0, 0, -1, -1⟩ = some ⟨⟨0, 0, 1, 1⟩, []⟩ := by
  have hinvalid : Rect.isValid ⟨0, 0, -1, -1⟩ = false := by decide
  exact ⟨hinvalid, fun fuel => operation_of_not_isValid fuel _ .opOr hinvalid⟩

end Region

end Droid
