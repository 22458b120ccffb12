import DroidPlatform.Vector.Lemmas.Storage

/-!
# Vectors that share storage

A family of vectors of one item type, and the calls on them: construction, copies and assignments,
which share buffers, and the operations that change one vector.  `Vectors.call` makes a call on the
family; `Lists.call` is what it should amount to, the list operation on independent lists.

An item of the lists is `none` when nothing is said about it: a default constructor that does nothing
leaves whatever the memory held.

An item may be passed by address, and the address may lie in a vector of the family; so may the
vector that is appended.  `Safe` is what has to hold before a call:

* **sizes** — no size computation wraps around 32 bits;
* **empty gaps** — no items are moved by zero places unless they can be moved onto themselves;
* **sources** — the items that are read do not lie in a buffer that the call frees or moves.
-/

namespace Droid

variable {T : Type}

structure Vectors (T : Type) where
  memory : Buffers T
  vecs : List VectorImpl

/-- The independent lists. -/
abbrev Lists (T : Type) := List (List (Option T))

/-- An item argument: none, a value outside all vectors, or an item of a vector. -/
inductive ItemArg (T : Type) where
  | null
  | value (x : T)
  | itemOf (j k : ℕ)

inductive VectorCall (T : Type) where
  | create
  | copy (j : ℕ)
  | assign (i j : ℕ)
  | insertAt (i : ℕ) (item : ItemArg T) (index numItems : ℕ)
  | insertArrayAt (i : ℕ) (array : List T) (index : ℕ)
  | appendVector (i j : ℕ)
  | removeItemsAt (i index count : ℕ)
  | replaceAt (i : ℕ) (item : ItemArg T) (index : ℕ)
  | clear (i : ℕ)
  | setCapacity (i newCapacity : ℕ)
  | finish (i : ℕ)

namespace Vectors

def empty : Vectors T := ⟨.empty, []⟩

/-- The address of an item argument. -/
def ptr (s : Vectors T) : ItemArg T → Ptr T
  | .null => .null
  | .value x => .foreign [x]
  | .itemOf j k =>
    match s.vecs[j]? with
    | none => .null
    | some v => v.itemLocation k

/-- An operation on one vector. -/
def on (s : Vectors T) (i : ℕ) (f : VectorImpl → Option (Buffers T × VectorImpl)) :
    Option (Vectors T) := do
  let v ← s.vecs[i]?
  let (m, v') ← f v
  some ⟨m, s.vecs.set i v'⟩

/-- Forget the status that an operation returns. -/
def dropStatus (r : Option (Buffers T × VectorImpl × ℤ)) : Option (Buffers T × VectorImpl) :=
  r.map fun r => (r.1, r.2.1)

variable [DecidableEq T] (ty : ItemType T)

/-- A call on the family, in which all allocations succeed. -/
def call (s : Vectors T) : VectorCall T → Option (Vectors T)
  | .create => some ⟨s.memory, s.vecs ++ [.construct]⟩
  | .copy j => do
    let rhs ← s.vecs[j]?
    let (m, v) ← rhs.copy s.memory
    some ⟨m, s.vecs ++ [v]⟩
  | .assign i j => do
    let rhs ← s.vecs[j]?
    if i = j then some s else s.on i fun v => v.assign ty s.memory rhs
  | .insertAt i item index numItems =>
    s.on i fun v => dropStatus (v.insertAt ty true s.memory (s.ptr item) index numItems)
  | .insertArrayAt i array index =>
    s.on i fun v => dropStatus (v.insertArrayAt ty true s.memory (.foreign array) index array.length)
  | .appendVector i j => do
    let rhs ← s.vecs[j]?
    s.on i fun v => dropStatus (v.appendVector ty true s.memory rhs)
  | .removeItemsAt i index count =>
    s.on i fun v => dropStatus (v.removeItemsAt ty true s.memory index count)
  | .replaceAt i item index =>
    s.on i fun v => dropStatus (v.replaceAt ty true s.memory (s.ptr item) index)
  | .clear i => s.on i fun v => v.clear ty true s.memory
  | .setCapacity i newCapacity =>
    s.on i fun v => dropStatus (v.setCapacity ty true s.memory newCapacity)
  | .finish i => s.on i fun v => v.finish_vector ty s.memory

end Vectors

/-! ## Lists -/

/-- What a default-constructed item is. -/
def ItemType.constructed (ty : ItemType T) : Option T :=
  if ty.trivialCtor then none else some ty.default

namespace Lists

/-- The item that an argument stands for. -/
def item (constructed : Option T) (ls : Lists T) : ItemArg T → Option T
  | .null => constructed
  | .value x => some x
  | .itemOf j k => ((ls[j]?.getD [])[k]?).join

/-- Insert items at an index, if there is such an index. -/
def insert (xs : List (Option T)) (index : ℕ) (l : List (Option T)) : List (Option T) :=
  if l.length < index then l else l.take index ++ xs ++ l.drop index

/-- Remove items at an index, if there are as many. -/
def remove (index count : ℕ) (l : List (Option T)) : List (Option T) :=
  if l.length < index + count then l else l.take index ++ l.drop (index + count)

/-- The list operation of a call. -/
def call (constructed : Option T) (ls : Lists T) : VectorCall T → Lists T
  | .create => ls ++ [[]]
  | .copy j => ls ++ [ls[j]?.getD []]
  | .assign i j => ls.set i (ls[j]?.getD [])
  | .insertAt i x index numItems =>
    ls.modify i (insert (List.replicate numItems (ls.item constructed x)) index)
  | .insertArrayAt i array index => ls.modify i (insert (array.map some) index)
  | .appendVector i j => ls.modify i (· ++ ls[j]?.getD [])
  | .removeItemsAt i index count => ls.modify i (remove index count)
  | .replaceAt i x index => ls.modify i (List.set · index (ls.item constructed x))
  | .clear i => ls.set i []
  | .setCapacity _ _ => ls
  | .finish i => ls.set i []

lemma modify_eq_set {ls : Lists T} {l : List (Option T)} {i : ℕ} (hl : ls[i]? = some l)
    (f : List (Option T) → List (Option T)) : ls.modify i f = ls.set i (f l) := by
  rw [List.modify_eq_set_getElem?, hl]
  rfl

end Lists

/-! ## Safe calls -/

namespace VectorImpl

instance (ty : ItemType T) (cap count amount : ℕ) : Decidable (Growable ty cap count amount) :=
  decidable_of_iff (count + amount < 2 ^ 32 ∧ (cap < count + amount →
    (count + amount) * 3 + 1 < 2 ^ 32 ∧
      max kMinVectorCapacity (((count + amount) * 3 + 1) / 2) * ty.itemSize + 16 < 2 ^ 32))
    ⟨fun h => ⟨h.1, h.2⟩, fun h => ⟨h.size, h.capacity⟩⟩

/-- A gap of `amount` slots can be made, or closed, at `index`. -/
def GapOk (ty : ItemType T) (v : VectorImpl) (index amount : ℕ) : Prop :=
  amount ≠ 0 ∨ index = v.mCount ∨ ty.movesInPlace = true
  deriving Decidable

/-- `amount` items can be inserted. -/
def CanInsert (ty : ItemType T) (m : Buffers T) (v : VectorImpl) (index amount : ℕ) : Prop :=
  Growable ty ((v.capacity ty m).getD 0) v.mCount amount ∧ v.GapOk ty index amount
  deriving Decidable

/-- The vector is the only owner of its buffer. -/
def Alone (m : Buffers T) (v : VectorImpl) : Prop := v.mStorage.any fun b => m.refs b = 1
  deriving Decidable

/-- The items of the vector stay in their buffer, or other owners keep it, when `amount` items are
inserted. -/
def KeepsItems (ty : ItemType T) (m : Buffers T) (v : VectorImpl) (amount : ℕ) : Prop :=
  v.Alone m → v.mCount + amount ≤ (v.capacity ty m).getD 0
  deriving Decidable

/-- Items can be removed. -/
def CanRemove (ty : ItemType T) (v : VectorImpl) (index count : ℕ) : Prop :=
  (v.mCount - count) * 3 < 2 ^ 32 ∧ kMinVectorCapacity * ty.itemSize + 16 < 2 ^ 32 ∧
    v.GapOk ty index count
  deriving Decidable

/-- The capacity that is asked for is enough and can be allocated. -/
def CanReserve (ty : ItemType T) (v : VectorImpl) (newCapacity : ℕ) : Prop :=
  0 < toInt32 (newCapacity - v.mCount) →
    v.mCount ≤ newCapacity ∧ newCapacity * ty.itemSize + 16 < 2 ^ 32
  deriving Decidable

end VectorImpl

namespace Vectors

/-- There is an `i`-th vector, and it has a property. -/
def At (s : Vectors T) (i : ℕ) (P : VectorImpl → Prop) : Prop := ∃ v, s.vecs[i]? = some v ∧ P v

instance (s : Vectors T) (i : ℕ) (P : VectorImpl → Prop) [DecidablePred P] : Decidable (s.At i P) :=
  match h : s.vecs[i]? with
  | none => isFalse fun ⟨v, hv, _⟩ => by rw [h] at hv; cases hv
  | some v => decidable_of_iff (P v) ⟨fun hP => ⟨v, h, hP⟩, fun ⟨w, hw, hP⟩ => by
    cases h.symm.trans hw
    exact hP⟩

/-- The item is one that is there. -/
def Readable (s : Vectors T) : ItemArg T → Prop
  | .null => True
  | .value _ => True
  | .itemOf j k => s.At j fun w => k < w.mCount

instance (s : Vectors T) : (item : ItemArg T) → Decidable (s.Readable item)
  | .null => inferInstanceAs (Decidable True)
  | .value _ => inferInstanceAs (Decidable True)
  | .itemOf j k => inferInstanceAs (Decidable (s.At j fun w => k < w.mCount))

/-- The item is not one that an insertion into the `i`-th vector moves or frees. -/
def Untouched (ty : ItemType T) (s : Vectors T) (i : ℕ) (v : VectorImpl) (index numItems : ℕ) :
    ItemArg T → Prop
  | .null => True
  | .value _ => True
  | .itemOf j k => i = j → (v.Alone s.memory → k < index) ∧ v.KeepsItems ty s.memory numItems

instance (ty : ItemType T) (s : Vectors T) (i : ℕ) (v : VectorImpl) (index numItems : ℕ) :
    (item : ItemArg T) → Decidable (s.Untouched ty i v index numItems item)
  | .null => inferInstanceAs (Decidable True)
  | .value _ => inferInstanceAs (Decidable True)
  | .itemOf j k => inferInstanceAs (Decidable
      (i = j → (v.Alone s.memory → k < index) ∧ v.KeepsItems ty s.memory numItems))

/-- **The conditions on a call.** -/
def Safe (ty : ItemType T) (s : Vectors T) : VectorCall T → Prop
  | .create => True
  | .copy j => s.At j fun _ => True
  | .assign i j => s.At i fun _ => s.At j fun _ => True
  | .insertAt i item index numItems => s.At i fun v => index ≤ v.mCount →
      v.CanInsert ty s.memory index numItems ∧ s.Readable item ∧
        s.Untouched ty i v index numItems item
  | .insertArrayAt i array index => s.At i fun v => index ≤ v.mCount →
      v.CanInsert ty s.memory index array.length
  | .appendVector i j => s.At i fun v => s.At j fun w =>
    v.CanInsert ty s.memory v.mCount w.mCount ∧ (i = j → v.KeepsItems ty s.memory w.mCount)
  | .removeItemsAt i index count => s.At i fun v => index + count < 2 ^ 32 ∧
      (index + count ≤ v.mCount → v.CanRemove ty index count)
  | .replaceAt i item index => s.At i fun v => index < v.mCount ∧ s.Readable item
  | .clear i => s.At i fun v => v.CanRemove ty 0 v.mCount
  | .setCapacity i newCapacity => s.At i fun v => v.CanReserve ty newCapacity
  | .finish i => s.At i fun _ => True

instance (ty : ItemType T) (s : Vectors T) (c : VectorCall T) : Decidable (s.Safe ty c) :=
  match c with
  | .create => inferInstanceAs (Decidable True)
  | .copy _ => inferInstanceAs (Decidable (s.At _ _))
  | .assign _ _ => inferInstanceAs (Decidable (s.At _ _))
  | .insertAt .. => inferInstanceAs (Decidable (s.At _ _))
  | .insertArrayAt .. => inferInstanceAs (Decidable (s.At _ _))
  | .appendVector _ _ => inferInstanceAs (Decidable (s.At _ _))
  | .removeItemsAt .. => inferInstanceAs (Decidable (s.At _ _))
  | .replaceAt .. => inferInstanceAs (Decidable (s.At _ _))
  | .clear _ => inferInstanceAs (Decidable (s.At _ _))
  | .setCapacity _ _ => inferInstanceAs (Decidable (s.At _ _))
  | .finish _ => inferInstanceAs (Decidable (s.At _ _))

end Vectors

end Droid
