import DroidPlatform.Core.Bytes
import DroidPlatform.Core.Word
import DroidPlatform.Errors

/-!
# The state of a parcel

The data of `binder/Parcel.h`, for a 32-bit process: sizes are `size_t` values below `2^32` and all
arithmetic on them wraps.

A parcel is a block of `mDataCapacity` bytes, of which the first `mDataSize` are data, a cursor
`mDataPos`, and a table of the offsets at which `flat_binder_object`s lie in the data.  Stores are
checked against the block: a store that would leave it has no result (`none`).  Loads are not: a load
past the block gives whatever lies there.
-/

namespace Droid

/-- `PAD_SIZE`: `& ~3` clears the two low bits. -/
def padSize (s : ℕ) : ℕ := toUInt32 (s + 3) / 4 * 4

lemma padSize_eq {s : ℕ} (h : s + 3 < 2 ^ 32) : padSize s = (s + 3) / 4 * 4 := by
  rw [padSize, toUInt32_eq_self h]

lemma padSize_lt (s : ℕ) : padSize s < 2 ^ 32 := by
  have := toUInt32_lt (s + 3)
  rw [padSize]
  omega

/-- A multiple of four is not padded. -/
lemma padSize_four_mul {n : ℕ} (h : 4 * n < 2 ^ 32) : padSize (4 * n) = 4 * n := by
  rw [padSize_eq (by omega)]
  omega

lemma padSize_padSize (s : ℕ) : padSize (padSize s) = padSize s := by
  have hfour : padSize s = 4 * (toUInt32 (s + 3) / 4) := mul_comm _ _
  have hlt := padSize_lt s
  rw [hfour] at hlt ⊢
  exact padSize_four_mul hlt

/-- `IN_PLACE_BLOB_LIMIT`. -/
def inPlaceBlobLimit : ℕ := 40 * 1024

/-- `EX_HAS_REPLY_HEADER`. -/
def exHasReplyHeader : ℤ := -128

/-- `BINDER_TYPE_FD`. -/
def binderTypeFd : ℕ := 0x66642a85

/-- `flat_binder_object`: four words.  `binder` and `handle` share their word. -/
structure FlatBinderObject where
  type : ℕ
  flags : ℕ
  binder : ℕ
  cookie : ℕ
deriving DecidableEq, Repr

/-- `sizeof(flat_binder_object)`. -/
def flatBinderObjectSize : ℕ := 16

namespace FlatBinderObject

def bytes (obj : FlatBinderObject) : List UInt8 :=
  toBytes 4 obj.type ++ toBytes 4 obj.flags ++ toBytes 4 obj.binder ++ toBytes 4 obj.cookie

@[simp] lemma length_bytes (obj : FlatBinderObject) : obj.bytes.length = flatBinderObjectSize := by
  simp [bytes, flatBinderObjectSize]

end FlatBinderObject

/-- The object that lies at `offset`. -/
def Memory.flat (m : Memory) (offset : ℕ) : FlatBinderObject where
  type := ofBytes (m.slice offset 4)
  flags := ofBytes (m.slice (offset + 4) 4)
  binder := ofBytes (m.slice (offset + 8) 4)
  cookie := ofBytes (m.slice (offset + 12) 4)

/-- `Parcel`.  `mData` is `none` for `NULL`; `mObjects` are the first `mObjectsSize` entries of the
table and `objectsRoom` is the number of entries its block has room for; `mOwner` says whether
someone else owns the data. -/
structure Parcel where
  mError : Status
  mData : Option Memory
  mDataSize : ℕ
  mDataCapacity : ℕ
  mDataPos : ℕ
  mObjects : List ℕ
  mObjectsCapacity : ℕ
  objectsRoom : ℕ
  mNextObjectHint : ℕ
  mHasFds : Bool
  mFdsKnown : Bool
  mAllowFds : Bool
  mOwner : Bool

/-- What the allocator answers during one write: the bytes of the block asked for as data, and
whether the two blocks that may be asked for as object table are there. -/
structure Answers where
  data : Option Memory
  objects : Bool
  table : Bool

namespace Parcel

/-- `initState`. -/
def initState : Parcel where
  mError := .ok
  mData := none
  mDataSize := 0
  mDataCapacity := 0
  mDataPos := 0
  mObjects := []
  mObjectsCapacity := 0
  objectsRoom := 0
  mNextObjectHint := 0
  mHasFds := false
  mFdsKnown := true
  mAllowFds := true
  mOwner := false

/-- The byte at an offset. -/
def byte (p : Parcel) (offset : ℕ) : UInt8 := p.mData.elim 0 fun m => m offset

variable (p : Parcel)

/-- The bytes from `start` on. -/
def load (start n : ℕ) : List UInt8 := Memory.slice p.byte start n

/-- The pointer `mData + offset`, `none` if it is `NULL`. -/
def pointer (offset : ℕ) : Option ℕ :=
  if p.mData.isNone ∧ offset = 0 then none else some offset

/-- Store bytes at `mData + start`. -/
def store (start : ℕ) (bytes : List UInt8) : Option Parcel :=
  if bytes = [] then some p
  else if start + bytes.length ≤ p.mDataCapacity then
    p.mData.map fun m => { p with mData := some (m.write start bytes) }
  else none

/-- `dataSize`. -/
def dataSize (p : Parcel) : ℕ := if p.mDataSize > p.mDataPos then p.mDataSize else p.mDataPos

/-- `dataAvail`. -/
def dataAvail : ℕ := p.dataSize - p.mDataPos

/-- `setDataPosition`. -/
def setDataPosition (pos : ℕ) : Parcel := { p with mDataPos := pos, mNextObjectHint := 0 }

/-- `pushAllowFds`, without the value it returns. -/
def pushAllowFds (allowFds : Bool) : Parcel :=
  { p with mAllowFds := p.mAllowFds && allowFds }

/-- `scanForFds`. -/
def scanForFds (p : Parcel) : Parcel :=
  { p with
    mHasFds := p.mObjects.any fun offset => (Memory.flat p.byte offset).type = binderTypeFd
    mFdsKnown := true }

/-- `ipcSetDataReference`: a received parcel.  What it held before is given back first. -/
def ipcSetDataReference (data : Memory) (dataSize : ℕ) (objects : List ℕ) : Parcel :=
  scanForFds
    { p with
      mError := .ok
      mData := some data
      mDataSize := dataSize
      mDataCapacity := dataSize
      mDataPos := 0
      mObjects := objects
      mObjectsCapacity := objects.length
      objectsRoom := objects.length
      mNextObjectHint := 0
      mOwner := true }

end Parcel

end Droid
