import DroidPlatform.Core.RefHeap
import DroidPlatform.Core.Word

/-!
# `SharedBuffer`, and items in memory

A `SharedBuffer` is a block of memory with a reference count.  Here it holds items of one type, so
that its memory is a sequence of item slots.  A slot is `none` when no item was constructed there, or
when the item was destroyed.

* **Buffers** — a heap of reference-counted buffers.  The field `mRefs` of the source is the
  reference count of the cell; a count stays below the number of owners that fit into the address
  space, so that it does not overflow.
* **Pointers** — null, into an array outside all buffers, or to a slot of a buffer.
* **Faults** — every function answers `none` when it accesses a freed buffer, a slot out of range or
  null.

Whether the allocations of a call succeed is an argument, `malloc`.
-/

namespace Droid

/-- The type of the items: its size, and what `type_traits` says of it. -/
structure ItemType (T : Type) where
  itemSize : ℕ
  trivialCtor : Bool
  trivialDtor : Bool
  trivialCopy : Bool
  trivialMove : Bool
  /-- What the default constructor makes. -/
  default : T
  pos : 0 < itemSize

structure SharedBuffer (T : Type) where
  mSize : ℕ
  items : ℕ → Option T

/-- The number of items that fit into a buffer. -/
def SharedBuffer.slots {T : Type} (ty : ItemType T) (sb : SharedBuffer T) : ℕ :=
  sb.mSize / ty.itemSize

/-- The memory of all buffers. -/
abbrev Buffers (T : Type) := RefHeap (SharedBuffer T)

inductive Ptr (T : Type) where
  | null
  | foreign (xs : List T)
  | item (buffer index : ℕ)
  deriving DecidableEq

variable {T : Type}

/-- Advance a pointer by `n` items. -/
def Ptr.add : Ptr T → ℕ → Ptr T
  | .null, _ => .null
  | .foreign xs, n => .foreign (xs.drop n)
  | .item b i, n => .item b (i + n)

variable (ty : ItemType T) (m : Buffers T) (d s : Ptr T) (n : ℕ)

def load : Ptr T → Option (Option T)
  | .null => none
  | .foreign xs => xs.head?.map some
  | .item b i =>
    match m.val? b with
    | none => none
    | some sb => if i < sb.slots ty then some (sb.items i) else none

def store (p : Ptr T) (x : Option T) : Option (Buffers T) :=
  match p with
  | .null => none
  | .foreign _ => none
  | .item b i =>
    match m.val? b with
    | none => none
    | some sb =>
      if i < sb.slots ty then
        some (m.modify b fun sb => { sb with items := Function.update sb.items i x })
      else none

/-! ## Constructing, destroying and copying items -/

/-- `for (i = 0; i < n; i++) f(i)` -/
def forItems (f : ℕ → Buffers T → Option (Buffers T)) (m : Buffers T) : Option (Buffers T) :=
  (List.range n).foldlM (fun m i => f i m) m

def construct_type (p : Ptr T) (n : ℕ) : Option (Buffers T) :=
  if ty.trivialCtor then some m
  else forItems n (fun i m => store ty m (p.add i) (some ty.default)) m

def destroy_type (p : Ptr T) (n : ℕ) : Option (Buffers T) :=
  if ty.trivialDtor then some m else forItems n (fun i m => store ty m (p.add i) none) m

/-- `memmove` of `n` items: all are read before the first is written. -/
def memmove (m : Buffers T) (d s : Ptr T) (n : ℕ) : Option (Buffers T) :=
  if n = 0 then some m
  else
    match d with
    | .null => none
    | .foreign _ => none
    | .item b i =>
      match m.val? b with
      | none => none
      | some sb =>
        if i + n ≤ sb.slots ty ∧ ∀ k < n, (load ty m (s.add k)).isSome then
          some (m.modify b fun sb => { sb with
            items := fun j =>
              if i ≤ j ∧ j < i + n then (load ty m (s.add (j - i))).join else sb.items j })
        else none

/-- Two ranges of `n` items overlap. -/
def Ptr.overlaps : Ptr T → Ptr T → ℕ → Bool
  | .item b i, .item c j, n => b = c ∧ i < j + n ∧ j < i + n
  | _, _, _ => false

/-- `memcpy` of `n` items, which must not overlap. -/
def memcpy : Option (Buffers T) :=
  if d.overlaps s n then none else memmove ty m d s n

def copy_type : Option (Buffers T) :=
  if ty.trivialCopy then memcpy ty m d s n
  else forItems n (fun i m => do store ty m (d.add i) (← load ty m (s.add i))) m

def splat_type (p what : Ptr T) (n : ℕ) : Option (Buffers T) :=
  forItems n (fun i m => do store ty m (p.add i) (← load ty m what)) m

/-- Copy one item and destroy the original. -/
def moveItem (d s : Ptr T) (m : Buffers T) : Option (Buffers T) := do
  let m ← store ty m d (← load ty m s)
  if ty.trivialDtor then some m else store ty m s none

/-- `memmove` does what the loop does. -/
def ItemType.movesTrivially : Bool := ty.trivialDtor && ty.trivialCopy || ty.trivialMove

/-- Items are moved to higher addresses, the last one first. -/
def move_forward_type : Option (Buffers T) :=
  if ty.movesTrivially then memmove ty m d s n
  else forItems n (fun i => moveItem ty (d.add (n - 1 - i)) (s.add (n - 1 - i))) m

/-- Items are moved to lower addresses, the first one first. -/
def move_backward_type : Option (Buffers T) :=
  if ty.movesTrivially then memmove ty m d s n
  else forItems n (fun i => moveItem ty (d.add i) (s.add i)) m

/-! ## Buffers -/

namespace SharedBuffer

/-- `SharedBuffer::alloc`; the header is 16 bytes long. -/
def alloc (malloc : Bool) (m : Buffers T) (size : ℕ) : Option (Option ℕ × Buffers T) :=
  if ¬malloc then some (none, m)
  else if toUInt32 (16 + size) < 16 then none
  else some (some m.next, m.alloc ⟨size, fun _ => none⟩)

/-- The items of a buffer that `realloc` or `memcpy` carry over to one of another size. -/
def clip (sb : SharedBuffer T) (newSize : ℕ) : SharedBuffer T :=
  ⟨newSize, fun k => if k < min newSize sb.mSize / ty.itemSize then sb.items k else none⟩

/-- `realloc` of a buffer with one owner. -/
def realloc (malloc : Bool) (m : Buffers T) (b newSize : ℕ) : Option (Option ℕ × Buffers T) := do
  let sb ← m.val? b
  if ¬malloc then some (none, m)
  else if toUInt32 (16 + newSize) < 16 then none
  else some (some m.next, (m.release b).alloc (sb.clip ty newSize))

/-- The end of `editResize`: a new buffer with the old one's items. -/
def copyResize (malloc : Bool) (m : Buffers T) (b newSize : ℕ) : Option (Option ℕ × Buffers T) := do
  let sb ← m.val? b
  match ← alloc malloc m newSize with
  | (none, m) => some (none, m)
  | (some b', m) => some (some b', (m.modify b' fun _ => sb.clip ty newSize).release b)

/-- `editResize(newSize)` -/
def editResize (malloc : Bool) (m : Buffers T) (b newSize : ℕ) : Option (Option ℕ × Buffers T) := do
  let c ← m.cells b
  if c.refs = 1 then
    if c.val.mSize = newSize then some (some b, m)
    else
      match ← realloc ty malloc m b newSize with
      | (some b', m) => some (some b', m)
      | (none, m) => copyResize ty malloc m b newSize
  else copyResize ty malloc m b newSize

end SharedBuffer

end Droid
