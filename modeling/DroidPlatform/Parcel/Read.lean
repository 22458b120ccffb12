import DroidPlatform.Parcel.Write

/-!
# Reading a parcel

The read side of `libs/binder/Parcel.cpp`.  Reading moves the cursor and `mNextObjectHint` and
nothing else.  Pointers into the data are offsets; what a caller may do with a pointer is to load
bytes from there on.
-/

namespace Droid

namespace Parcel

/-! ## Plain data -/

variable (p : Parcel)

/-- The test of `read` and `readInplace`. -/
def canRead (len : ℕ) : Prop :=
  p.mDataPos ≤ toUInt32 (p.mDataPos + padSize len) ∧
    toUInt32 (p.mDataPos + padSize len) ≤ p.mDataSize

instance (p : Parcel) (len : ℕ) : Decidable (p.canRead len) := inferInstanceAs (Decidable (_ ∧ _))

/-- The cursor moves by `len`. -/
def skip (p : Parcel) (len : ℕ) : Parcel := { p with mDataPos := toUInt32 (p.mDataPos + len) }

/-- `read`, with the bytes copied out; `none` is `NOT_ENOUGH_DATA`. -/
def read (p : Parcel) (len : ℕ) : Option (List UInt8) × Parcel :=
  if p.canRead len then (some (p.load p.mDataPos len), p.skip (padSize len)) else (none, p)

/-- `readInplace`. -/
def readInplace (p : Parcel) (len : ℕ) : Option ℕ × Parcel :=
  if p.canRead len then (p.pointer p.mDataPos, p.skip (padSize len)) else (none, p)

/-- `readAligned`, of a type of `w` bytes; `none` is `NOT_ENOUGH_DATA`. -/
def readAligned (p : Parcel) (w : ℕ) : Option (List UInt8) × Parcel :=
  if toUInt32 (p.mDataPos + w) ≤ p.mDataSize then (some (p.load p.mDataPos w), p.skip w) else (none, p)

/-- `readInt32(int32_t*)`. -/
def readInt32? (p : Parcel) : Option ℤ × Parcel :=
  let (bytes, q) := p.readAligned 4
  (bytes.map bytesInt, q)

/-- `readInt32()`. -/
def readInt32 (p : Parcel) : ℤ × Parcel :=
  let (val, q) := p.readInt32?
  (val.getD 0, q)

/-- `readInt64()`. -/
def readInt64 : ℤ × Parcel :=
  let (bytes, q) := p.readAligned 8
  ((bytes.map bytesInt).getD 0, q)

/-- `memchr(str, 0, avail)`: the distance of the first `NUL` from the cursor. -/
def findNul (p : Parcel) (avail : ℕ) : Option ℕ :=
  (List.range avail).find? fun k => p.byte (p.mDataPos + k) = 0

/-- `readCString`. -/
def readCString : Option ℕ × Parcel :=
  match p.findNul (toUInt32 (p.mDataSize + (2 ^ 32 - p.mDataPos))) with
  | some len => (p.pointer p.mDataPos, p.skip (padSize (len + 1)))
  | none => (none, p)

/-- The characters `readString8` makes its string from. -/
def readString8Inplace (p : Parcel) : Option (ℕ × ℕ) × Parcel :=
  let (size, q) := p.readInt32
  if 0 < size ∧ size < 2 ^ 31 - 1 then
    let (str, r) := q.readInplace (size + 1).toNat
    (str.map fun ptr => (ptr, size.toNat), r)
  else (none, q)

/-- `readString8`. -/
def readString8 : List UInt8 × Parcel :=
  let (str, q) := p.readString8Inplace
  (str.elim [] fun s => p.load s.1 s.2, q)

/-- `readString16Inplace`, with the length it stores through `outLen`. -/
def readString16Inplace : Option ℕ × ℕ × Parcel :=
  let (size, q) := p.readInt32
  if 0 ≤ size ∧ size < 2 ^ 31 - 1 then
    let (str, r) := q.readInplace (toUInt32 ((size + 1).toNat * 2))
    match str with
    | some ptr => (some ptr, size.toNat, r)
    | none => (none, 0, r)
  else (none, 0, q)

/-- `readExceptionCode`. -/
def readExceptionCode : ℤ × Parcel :=
  let (code, q) := p.readInt32
  if code = exHasReplyHeader then
    let (headerSize, r) := q.readInt32
    (0, r.setDataPosition (toWord (q.mDataPos + headerSize)))
  else (code, q)

/-! ## Objects -/

/-- The search from the hint on, in a table that is not empty. -/
def searchForward (objects : List ℕ) (pos : ℕ) : ℕ → ℕ → ℕ
  | 0, opos => opos
  | fuel + 1, opos =>
    if opos < objects.length - 1 ∧ objects.getD opos 0 < pos then
      searchForward objects pos fuel (opos + 1)
    else opos

/-- The search backwards from there. -/
def searchBackward (objects : List ℕ) (pos : ℕ) : ℕ → ℕ
  | 0 => 0
  | opos + 1 =>
    if objects.getD (opos + 1) 0 > pos then searchBackward objects pos opos else opos + 1

/-- The index at which `readObject` finds the offset `pos` in the object table. -/
def findObject (p : Parcel) (pos : ℕ) : Option ℕ :=
  let n := p.mObjects.length
  if n = 0 then none
  else
    let opos := if p.mNextObjectHint < n then searchForward p.mObjects pos n p.mNextObjectHint
      else n - 1
    if p.mObjects.getD opos 0 = pos then some opos
    else
      let opos := searchBackward p.mObjects pos opos
      if p.mObjects.getD opos 0 = pos then some opos else none

/-- `readObject`.  The cursor moves also if the object is not in the table. -/
def readObject (p : Parcel) (nullMetaData : Bool) : Option ℕ × Parcel :=
  if toUInt32 (p.mDataPos + flatBinderObjectSize) ≤ p.mDataSize then
    let obj := Memory.flat p.byte p.mDataPos
    let q := p.skip flatBinderObjectSize
    if !nullMetaData && (obj.cookie = 0 && obj.binder = 0) then (some p.mDataPos, q)
    else
      match p.findObject p.mDataPos with
      | some opos => (some p.mDataPos, { q with mNextObjectHint := opos + 1 })
      | none => (none, q)
  else (none, p)

/-- `readFileDescriptor`. -/
def readFileDescriptor (p : Parcel) : ℤ × Parcel :=
  let (flat, q) := p.readObject true
  match flat with
  | some offset =>
    let obj := Memory.flat p.byte offset
    (if obj.type = binderTypeFd then toInt32 obj.binder else Status.badType, q)
  | none => (Status.badType, q)

/-- The loop that reads and duplicates `n` descriptors, until one fails. -/
def readDupFileDescriptors (dup : ℤ → ℤ) : ℕ → Parcel → List ℤ × Bool × Parcel
  | 0, p => ([], true, p)
  | n + 1, p =>
    let (fd, q) := p.readFileDescriptor
    if dup fd < 0 then ([dup fd], false, q)
    else
      let (fds, ok, r) := readDupFileDescriptors dup n q
      (dup fd :: fds, ok, r)

/-- A handle read from a parcel: its counts, its descriptors, where its integers were copied from and
the bytes copied. -/
structure HandleRead where
  numFds : ℤ
  numInts : ℤ
  fds : List ℤ
  start : ℕ
  ints : List UInt8

/-- `readNativeHandle`.  An error in the loop over the descriptors is forgotten. -/
def readNativeHandle (dup : ℤ → ℤ) : Option HandleRead × Parcel :=
  match p.readInt32? with
  | (none, q) => (none, q)
  | (some numFds, q) =>
    match q.readInt32? with
    | (none, q) => (none, q)
    | (some numInts, q) =>
      let (fds, _, r) := readDupFileDescriptors dup numFds.toNat q
      let (ints, t) := r.read (toWord (4 * numInts))
      (ints.map fun bytes => ⟨numFds, numInts, fds, r.mDataPos, bytes⟩, t)

/-- `readBlob`.  `mmap` says whether mapping a descriptor gives an address. -/
def readBlob (len : ℕ) (mmap : ℤ → Bool) : Except Status Blob × Parcel :=
  match p.readInt32? with
  | (none, q) => (.error .notEnoughData, q)
  | (some useAshmem, q) =>
    if useAshmem = 0 then
      match q.readInplace len with
      | (some ptr, q) => (.ok (.inPlace ptr), q)
      | (none, q) => (.error .badValue, q)
    else
      let (fd, q) := q.readFileDescriptor
      if fd = Status.badType then (.error .badValue, q)
      else if mmap fd then (.ok (.mapped fd), q)
      else (.error .noMemory, q)

/-- What `unflatten` is called with. -/
structure Unflatten where
  buf : ℕ
  len : ℕ
  fds : List ℤ

/-- `read(Flattenable&)`, up to the call of `unflatten`. -/
def readFlattenable (dup : ℤ → ℤ) : Option Unflatten × Parcel :=
  let (len, q) := p.readInt32
  let (fdCount, q) := q.readInt32
  match q.readInplace (padSize (toWord len)) with
  | (none, q) => (none, q)
  | (some buf, q) =>
    let (fds, ok, q) := readDupFileDescriptors dup (toWord fdCount) q
    (if ok then some ⟨buf, toWord len, fds⟩ else none, q)

end Parcel

end Droid
