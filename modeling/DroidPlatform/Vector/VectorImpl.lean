import DroidPlatform.Errors
import DroidPlatform.Vector.SharedBuffer

/-!
# `VectorImpl`

A vector is a count and a pointer to a `SharedBuffer`, which it may share with copies of itself.
`_grow` and `_shrink` make room for items and close gaps.  Each has three strategies:

* **in place**, when the capacity suffices: the buffer is made this vector's own, and the items
  behind the gap are moved;
* **resize**, when the change is at the end and items can be copied and destroyed as bytes;
* **copy**, otherwise: both pieces go to a new buffer, and the old one is released.

A vector's items are numbered; that the items of a vector lie in slots `0` to `mCount - 1` of its
buffer is the only thing that the functions below rely on.  They take and return the memory, and
answer `none` on a fault.  Sizes are 32 bits wide.
-/

namespace Droid

structure VectorImpl where
  /-- The buffer behind `mStorage`, if it is not null. -/
  mStorage : Option ℕ
  mCount : ℕ
  deriving DecidableEq, Repr

def kMinVectorCapacity : ℕ := 4

namespace VectorImpl

variable {T : Type}

/-- `VectorImpl(itemSize, flags)` -/
def construct : VectorImpl := ⟨none, 0⟩

/-- `arrayImpl()` -/
def arrayImpl (v : VectorImpl) : Ptr T :=
  match v.mStorage with
  | none => .null
  | some b => .item b 0

/-- `itemLocation(index)` -/
def itemLocation (v : VectorImpl) (index : ℕ) : Ptr T := v.arrayImpl.add index

variable (ty : ItemType T) (malloc : Bool) (m : Buffers T) (v : VectorImpl)

/-- `_do_copy`; the number of bytes for `memcpy` is a `size_t`. -/
def do_copy (dest from_ : Ptr T) (num : ℕ) : Option (Buffers T) :=
  if ¬ty.trivialCopy then copy_type ty m dest from_ num
  else memcpy ty m dest from_ (toUInt32 (num * ty.itemSize) / ty.itemSize)

/-- `capacity()` -/
def capacity : Option ℕ :=
  match v.mStorage with
  | none => some 0
  | some b => (m.val? b).map (SharedBuffer.slots ty)

/-- `release_storage()`: the last owner destroys the items. -/
def release_storage : Option (Buffers T) :=
  match v.mStorage with
  | none => some m
  | some b => do
    let c ← m.cells b
    if c.refs = 1 then
      let m ← destroy_type ty m v.arrayImpl v.mCount
      some (m.release b)
    else some (m.release b)

/-- `editArrayImpl()` -/
def editArrayImpl : Option (Buffers T × VectorImpl) :=
  match v.mStorage with
  | none => some (m, v)
  | some b => do
    let c ← m.cells b
    if c.refs = 1 then some (m, v)
    else
      let cap ← v.capacity ty m
      match ← SharedBuffer.alloc malloc m (toUInt32 (cap * ty.itemSize)) with
      | (none, m) => some (m, v)
      | (some sb, m) =>
        let m ← do_copy ty m (.item sb 0) v.arrayImpl v.mCount
        let m ← v.release_storage ty m
        some (m, { v with mStorage := some sb })

/-- The copy strategy of `_grow` and `_shrink`: the items before `where_` stay, those from `from_`
on go to `dest`. -/
def relocate (newCapacity where_ from_ dest num : ℕ) : Option (Buffers T × VectorImpl) := do
  match ← SharedBuffer.alloc malloc m (toUInt32 (newCapacity * ty.itemSize)) with
  | (none, m) => some (m, v)
  | (some sb, m) =>
    let m ← (if where_ ≠ 0 then do_copy ty m (.item sb 0) v.arrayImpl where_ else some m)
    let m ← (if num ≠ 0 then do_copy ty m (.item sb dest) (v.itemLocation from_) num else some m)
    let m ← v.release_storage ty m
    some (m, { v with mStorage := some sb })

/-- The resize strategy of `_grow` and `_shrink`; a null buffer is dereferenced. -/
def resize (b newCapacity : ℕ) : Option (Buffers T × VectorImpl) := do
  match ← SharedBuffer.editResize ty malloc m b (toUInt32 (newCapacity * ty.itemSize)) with
  | (none, _) => none
  | (some sb, m) => some (m, { v with mStorage := some sb })

/-- The part of `_grow` that makes room. -/
def makeRoom (where_ amount new_size : ℕ) : Option (Buffers T × VectorImpl) := do
  let cap ← v.capacity ty m
  if cap < new_size then
    let new_capacity := max kMinVectorCapacity (toUInt32 (new_size * 3 + 1) / 2)
    match v.mStorage with
    | some b =>
      if v.mCount = where_ ∧ ty.trivialCopy ∧ ty.trivialDtor then
        v.resize ty malloc m b new_capacity
      else v.relocate ty malloc m new_capacity where_ where_ (where_ + amount) (v.mCount - where_)
    | none =>
      v.relocate ty malloc m new_capacity where_ where_ (where_ + amount) (v.mCount - where_)
  else
    let (m, v) ← v.editArrayImpl ty malloc m
    let m ← (if where_ ≠ v.mCount then
        move_forward_type ty m (v.itemLocation (where_ + amount)) (v.itemLocation where_)
          (v.mCount - where_)
      else some m)
    some (m, v)

/-- `_grow(where, amount)` -/
def grow (where_ amount : ℕ) : Option (Buffers T × VectorImpl × Ptr T) := do
  let new_size := toUInt32 (v.mCount + amount)
  let (m, v) ← v.makeRoom ty malloc m where_ amount new_size
  some (m, { v with mCount := new_size }, v.itemLocation where_)

/-- The part of `_shrink` that closes the gap. -/
def closeGap (b where_ amount new_size : ℕ) : Option (Buffers T × VectorImpl) := do
  let cap ← v.capacity ty m
  if toUInt32 (new_size * 3) < cap then
    let new_capacity := max kMinVectorCapacity (toUInt32 (new_size * 2))
    if where_ = new_size ∧ ty.trivialCopy ∧ ty.trivialDtor then
      v.resize ty malloc m b new_capacity
    else v.relocate ty malloc m new_capacity where_ (where_ + amount) where_ (new_size - where_)
  else
    let (m, v) ← v.editArrayImpl ty malloc m
    let m ← destroy_type ty m (v.itemLocation where_) amount
    let m ← (if where_ ≠ new_size then
        move_backward_type ty m (v.itemLocation where_) (v.itemLocation (where_ + amount))
          (new_size - where_)
      else some m)
    some (m, v)

/-- `_shrink(where, amount)` -/
def shrink (where_ amount : ℕ) : Option (Buffers T × VectorImpl) :=
  match v.mStorage with
  | none => some (m, v)
  | some b => do
    let new_size := toWord (v.mCount - amount)
    let (m, v) ← v.closeGap ty malloc m b where_ amount new_size
    some (m, { v with mCount := new_size })

/-! ## Operations -/

/-- `insertArrayAt(array, index, length)` -/
def insertArrayAt (array : Ptr T) (index length : ℕ) : Option (Buffers T × VectorImpl × ℤ) :=
  if v.mCount < index then some (m, v, Status.badIndex)
  else do
    let (m, v, where_) ← v.grow ty malloc m index length
    match where_ with
    | .null => some (m, v, Status.noMemory)
    | _ =>
      let m ← do_copy ty m where_ array length
      some (m, v, index)

/-- `insertVectorAt(vector, index)` -/
def insertVectorAt (v vector : VectorImpl) (index : ℕ) : Option (Buffers T × VectorImpl × ℤ) :=
  v.insertArrayAt ty malloc m vector.arrayImpl index vector.mCount

/-- `appendVector(vector)` -/
def appendVector (v vector : VectorImpl) : Option (Buffers T × VectorImpl × ℤ) :=
  v.insertVectorAt ty malloc m vector v.mCount

/-- Copies of an item, or default items if there is none. -/
def fill (where_ item : Ptr T) (numItems : ℕ) : Option (Buffers T) :=
  match item with
  | .null => construct_type ty m where_ numItems
  | _ => splat_type ty m where_ item numItems

/-- `insertAt(item, index, numItems)` -/
def insertAt (item : Ptr T) (index numItems : ℕ) : Option (Buffers T × VectorImpl × ℤ) :=
  if v.mCount < index then some (m, v, Status.badIndex)
  else do
    let (m, v, where_) ← v.grow ty malloc m index numItems
    match where_ with
    | .null => some (m, v, Status.noMemory)
    | _ =>
      let m ← fill ty m where_ item numItems
      some (m, v, index)

/-- Destroy an item and put another in its place. -/
def replace (item prototype : Ptr T) : Option (Buffers T) := do
  let m ← destroy_type ty m item 1
  match prototype with
  | .null => construct_type ty m item 1
  | _ => do_copy ty m item prototype 1

/-- `replaceAt(prototype, index)` -/
def replaceAt [DecidableEq T] (malloc : Bool) (m : Buffers T) (v : VectorImpl) (prototype : Ptr T)
    (index : ℕ) : Option (Buffers T × VectorImpl × ℤ) := do
  let (m, v) ← v.editArrayImpl ty malloc m
  if v.itemLocation index ≠ prototype then
    match v.mStorage with
    | none => some (m, v, Status.noMemory)
    | some _ =>
      let m ← replace ty m (v.itemLocation index) prototype
      some (m, v, index)
  else some (m, v, index)

/-- `removeItemsAt(index, count)` -/
def removeItemsAt (index count : ℕ) : Option (Buffers T × VectorImpl × ℤ) :=
  if v.mCount < toUInt32 (index + count) then some (m, v, Status.badValue)
  else do
    let (m, v) ← v.shrink ty malloc m index count
    some (m, v, index)

/-- `clear()` -/
def clear : Option (Buffers T × VectorImpl) :=
  v.shrink ty malloc m 0 v.mCount

/-- `setCapacity(new_capacity)` -/
def setCapacity (new_capacity : ℕ) : Option (Buffers T × VectorImpl × ℤ) := do
  let current_capacity ← v.capacity ty m
  let amount := toInt32 (new_capacity - v.mCount)
  if amount ≤ 0 then some (m, v, current_capacity)
  else
    match ← SharedBuffer.alloc malloc m (toUInt32 (new_capacity * ty.itemSize)) with
    | (none, m) => some (m, v, Status.noMemory)
    | (some sb, m) =>
      let m ← do_copy ty m (.item sb 0) v.arrayImpl v.mCount
      let m ← v.release_storage ty m
      some (m, { v with mStorage := some sb }, new_capacity)

/-- `VectorImpl(const VectorImpl& rhs)` -/
def copy (rhs : VectorImpl) : Option (Buffers T × VectorImpl) :=
  match rhs.mStorage with
  | none => some (m, rhs)
  | some b => do
    let _ ← m.cells b
    some (m.acquire b, rhs)

/-- `operator=(rhs)` for another vector. -/
def assign (v rhs : VectorImpl) : Option (Buffers T × VectorImpl) := do
  let m ← v.release_storage ty m
  if rhs.mCount ≠ 0 then rhs.copy m else some (m, ⟨none, 0⟩)

/-- `finish_vector()`, which destructors call. -/
def finish_vector : Option (Buffers T × VectorImpl) := do
  let m ← v.release_storage ty m
  some (m, ⟨none, 0⟩)

end VectorImpl

end Droid
