import Mathlib.Data.List.DropRight
import DroidPlatform.Parcel.Parcel

/-!
# Writing a parcel

The write side of `libs/binder/Parcel.cpp`.  What the environment decides comes in as an argument:
`Answers` of the allocator (one for each block-moving write, so that operations made of several
writes take a sequence of them), the descriptors `dup` returns, the ashmem region of a large blob.

An operation has no result (`none`) if it stores outside the block it stores into.
-/

namespace Droid

namespace Parcel

/-! ## The block -/

/-- The objects `continueWrite` keeps: those before the new end are found by going back from the
last one. -/
def keptObjects (p : Parcel) (desired : ℕ) : List ℕ :=
  if desired < p.mDataSize then
    if desired = 0 then [] else p.mObjects.rdropWhile fun offset => desired ≤ offset
  else p.mObjects

/-- The references on the objects no longer kept are released. -/
def dropObjects (p : Parcel) (kept : List ℕ) (a : Answers) : Parcel :=
  if kept.length < p.mObjects.length then
    { p with
      -- the last descriptor may have gone
      mFdsKnown := p.mFdsKnown && !(p.mObjects.drop kept.length).any fun offset =>
        (Memory.flat p.byte offset).type = binderTypeFd
      mObjects := kept
      objectsRoom := if a.objects then kept.length else p.objectsRoom
      mNextObjectHint := 0 }
  else p

/-- The first branch of `continueWrite`: the data belongs to someone else. -/
def takePossession (p : Parcel) (desired : ℕ) (a : Answers) : Status × Parcel :=
  if desired = 0 then (.ok, initState)
  else
    match a.data with
    | none => (.noMemory, { p with mError := .noMemory })
    | some fresh =>
      if p.keptObjects desired ≠ [] ∧ a.objects = false then
        (.noMemory, { p with mError := .noMemory })
      else
        (.ok,
          { p with
            mData := some (p.mData.elim fresh fun m => m.splice fresh (min p.mDataSize desired))
            mDataSize := min p.mDataSize desired
            mDataCapacity := desired
            mObjects := p.keptObjects desired
            mObjectsCapacity := (p.keptObjects desired).length
            objectsRoom := (p.keptObjects desired).length
            mNextObjectHint := 0
            mOwner := false })

/-- `continueWrite`. -/
def continueWrite (p : Parcel) (desired : ℕ) (a : Answers) : Status × Parcel :=
  if p.mOwner then p.takePossession desired a
  else
    match p.mData with
    | some m =>
      let q := p.dropObjects (p.keptObjects desired) a
      if desired > p.mDataCapacity then
        match a.data with
        | some fresh =>
          (.ok, { q with
            mData := some (m.splice fresh p.mDataCapacity)
            mDataCapacity := desired })
        | none => (.noMemory, { q with mError := .noMemory })
      else
        (.ok, { q with mDataSize := min p.mDataSize desired, mDataPos := min p.mDataPos desired })
    | none =>
      match a.data with
      | some fresh =>
        (.ok, { p with
          mData := some fresh, mDataSize := 0, mDataPos := 0, mDataCapacity := desired })
      | none => (.noMemory, { p with mError := .noMemory })

/-- The size `growData` asks for. -/
def grownSize (p : Parcel) (len : ℕ) : ℕ := toUInt32 (toUInt32 (p.mDataSize + len) * 3) / 2

/-- `growData`. -/
def growData (p : Parcel) (len : ℕ) (a : Answers) : Status × Parcel :=
  if p.grownSize len ≤ p.mDataSize then (.noMemory, p) else p.continueWrite (p.grownSize len) a

variable (p : Parcel)

/-- `setDataSize`. -/
def setDataSize (size : ℕ) (a : Answers) : Status × Parcel :=
  let (err, q) := p.continueWrite size a
  if err = .ok then (err, { q with mDataSize := size }) else (err, q)

/-- `setDataCapacity`. -/
def setDataCapacity (size : ℕ) (a : Answers) : Status × Parcel :=
  if size > p.mDataCapacity then p.continueWrite size a else (.ok, p)

/-! ## Plain data -/

/-- `finishWrite`. -/
def finishWrite (p : Parcel) (len : ℕ) : Parcel :=
  { p with
    mDataPos := toUInt32 (p.mDataPos + len)
    mDataSize := max p.mDataSize (toUInt32 (p.mDataPos + len)) }

/-- The test before the label `restart_write`, and the way back to it. -/
def makeRoom (p : Parcel) (len : ℕ) (a : Answers) : Status × Parcel :=
  if toUInt32 (p.mDataPos + len) ≤ p.mDataCapacity then (.ok, p) else p.growData len a

/-- The next step of an operation, taken unless there was an error. -/
def andThen (result : Option (Status × Parcel)) (next : Parcel → Option (Status × Parcel)) :
    Option (Status × Parcel) :=
  result.bind fun r => if r.1 = .ok then next r.2 else some r

/-- `writeAligned`, with the bytes of the value. -/
def writeAligned (p : Parcel) (bytes : List UInt8) (a : Answers) : Option (Status × Parcel) :=
  andThen (p.makeRoom bytes.length a) fun q =>
    (q.store q.mDataPos bytes).map fun q => (.ok, q.finishWrite bytes.length)

/-- `writeUnpadded`. -/
def writeUnpadded (bytes : List UInt8) (a : Answers) : Option (Status × Parcel) :=
  if toUInt32 (p.mDataPos + bytes.length) < p.mDataPos then some (.badValue, p)
  else p.writeAligned bytes a

/-- The word that ends at `stop` loses its `n` high bytes.  Bytes are stored lowest first. -/
def maskWord (p : Parcel) (stop n : ℕ) : Option Parcel :=
  if stop < 4 then none else p.store (stop - n) (List.replicate n 0)

/-- `writeInplace`, with the pointer it returns. -/
def writeInplace (p : Parcel) (len : ℕ) (a : Answers) : Option (Option ℕ × Parcel) :=
  let padded := padSize len
  if toUInt32 (p.mDataPos + padded) < p.mDataPos then some (none, p)
  else
    let (err, q) := p.makeRoom padded a
    if err = .ok then
      (if padded ≠ len then q.maskWord (q.mDataPos + padded) (toUInt32 (padded + (2 ^ 32 - len)))
        else some q).map fun q' => (q.pointer q.mDataPos, q'.finishWrite padded)
    else some (none, q)

/-- `write`. -/
def write (p : Parcel) (bytes : List UInt8) (a : Answers) : Option (Status × Parcel) :=
  (p.writeInplace bytes.length a).bind fun (d, q) =>
    match d with
    | some d => (q.store d bytes).map fun q => (.ok, q)
    | none => some (q.mError, q)

/-- `writeInt32`. -/
def writeInt32 (p : Parcel) (val : ℤ) (a : Answers) : Option (Status × Parcel) :=
  p.writeAligned (intBytes 4 val) a

/-- `writeInt64`. -/
def writeInt64 (val : ℤ) (a : Answers) : Option (Status × Parcel) :=
  p.writeAligned (intBytes 8 val) a

/-- `writeCString`, of the bytes up to the first `NUL`. -/
def writeCString (str : List UInt8) (a : Answers) : Option (Status × Parcel) :=
  p.write (str.takeWhile (· ≠ 0) ++ [0]) a

/-- `writeString8`. -/
def writeString8 (str : List UInt8) (a : ℕ → Answers) : Option (Status × Parcel) :=
  andThen (p.writeInt32 (toInt32 str.length) (a 0)) fun q =>
    if str.length > 0 then q.write (str ++ [0]) (a 1) else some (.ok, q)

/-- `writeString16`; `none` is `NULL`. -/
def writeString16 (str : Option (List UInt16)) (a : ℕ → Answers) : Option (Status × Parcel) :=
  match str with
  | none => p.writeInt32 (-1) (a 0)
  | some s =>
    andThen (p.writeInt32 (toInt32 s.length) (a 0)) fun q =>
      let len := toUInt32 (s.length * 2)
      (q.writeInplace (toUInt32 (len + 2)) (a 1)).bind fun (data, q) =>
        match data with
        | some data => ((q.store data ((unitBytes s).take len)).bind fun q =>
          q.store (data + len) [0, 0]).map fun q => (.ok, q)
        | none => some (q.mError, q)

/-! ## Objects -/

/-- The end of `writeObject`: remember a descriptor, and move on. -/
def finishObject (p : Parcel) (val : FlatBinderObject) : Status × Parcel :=
  if val.type = binderTypeFd then
    if p.mAllowFds then
      (.ok, { p with mHasFds := true, mFdsKnown := true }.finishWrite flatBinderObjectSize)
    else (.fdsNotAllowed, p)
  else (.ok, p.finishWrite flatBinderObjectSize)

/-- `writeObject` from the label `restart_write` on. -/
def putObject (p : Parcel) (val : FlatBinderObject) (nullMetaData : Bool) :
    Option (Status × Parcel) :=
  (p.store p.mDataPos val.bytes).bind fun q =>
    if nullMetaData ∨ val.binder ≠ 0 then
      if q.mObjects.length < q.objectsRoom then
        some ({ q with mObjects := q.mObjects ++ [q.mDataPos] }.finishObject val)
      else none
    else some (q.finishObject val)

/-- The object table gets room for `newSize` entries. -/
def growObjects (p : Parcel) (newSize : ℕ) (a : Answers) : Status × Parcel :=
  if a.table then (.ok, { p with mObjectsCapacity := newSize, objectsRoom := newSize })
  else (.noMemory, p)

/-- `writeObject`. -/
def writeObject (p : Parcel) (val : FlatBinderObject) (nullMetaData : Bool) (a : Answers) :
    Option (Status × Parcel) :=
  let enoughObjects := p.mObjects.length < p.mObjectsCapacity
  andThen (p.makeRoom flatBinderObjectSize a) fun q =>
    andThen (if enoughObjects then some (.ok, q)
        else q.growObjects (toUInt32 ((q.mObjects.length + 2) * 3) / 2) a) fun q =>
      q.putObject val nullMetaData

/-- `writeFileDescriptor`. -/
def writeFileDescriptor (p : Parcel) (fd : ℤ) (takeOwnership : Bool) (a : Answers) :
    Option (Status × Parcel) :=
  p.writeObject
    { type := binderTypeFd, flags := 0x17f, binder := toWord fd, cookie := takeOwnership.toNat } true a

/-- `writeDupFileDescriptor`. -/
def writeDupFileDescriptor (p : Parcel) (fd : ℤ) (dup : ℤ → Except Status ℤ) (a : Answers) :
    Option (Status × Parcel) :=
  match dup fd with
  | .error err => some (err, p)
  | .ok dupFd => p.writeFileDescriptor dupFd true a

/-- The loop that writes the descriptors of a handle. -/
def writeDupFileDescriptors (dup : ℤ → Except Status ℤ) :
    List ℤ → (ℕ → Answers) → Parcel → Option (Status × Parcel)
  | [], _, p => some (.ok, p)
  | fd :: fds, a, p =>
    andThen (p.writeDupFileDescriptor fd dup (a 0))
      (writeDupFileDescriptors dup fds fun k => a (k + 1))

/-- `native_handle`; its `data` are the descriptors and then the other integers. -/
structure NativeHandle where
  version : ℤ
  fds : List ℤ
  ints : List ℤ

/-- `writeNativeHandle`. -/
def writeNativeHandle (handle : Option NativeHandle) (dup : ℤ → Except Status ℤ) (a : ℕ → Answers) :
    Option (Status × Parcel) :=
  match handle with
  | none => some (.badType, p)
  | some h =>
    if h.version ≠ 12 then some (.badType, p)
    else
      andThen (p.writeInt32 h.fds.length (a 0)) fun q =>
        andThen (q.writeInt32 h.ints.length (a 1)) fun q =>
          andThen (writeDupFileDescriptors dup h.fds (fun k => a (k + 3)) q) fun q =>
            q.write (h.ints.flatMap (intBytes 4)) (a 2)

/-- A blob: in the parcel, or in a mapped region. -/
inductive Blob
  | inPlace (ptr : ℕ)
  | mapped (fd : ℤ)

/-- `writeBlob`.  `ashmem` is the descriptor of the region, or the error met on the way to it. -/
def writeBlob (len : ℕ) (ashmem : Except Status ℤ) (a : ℕ → Answers) :
    Option (Except Status Blob × Parcel) :=
  if p.mAllowFds = false ∨ len ≤ inPlaceBlobLimit then
    (p.writeInt32 0 (a 0)).bind fun (status, q) =>
      if status = .ok then
        (q.writeInplace len (a 1)).map fun (ptr, q) =>
          match ptr with
          | some ptr => (.ok (.inPlace ptr), q)
          | none => (.error .noMemory, q)
      else some (.error status, q)
  else
    match ashmem with
    | .error status => some (.error status, p)
    | .ok fd =>
      (andThen (p.writeInt32 1 (a 0)) fun q => q.writeFileDescriptor fd true (a 1)).map
        fun (status, q) => (if status = .ok then .ok (.mapped fd) else .error status, q)

/-- `getFlattenedSize`, `getFdCount` and what `flatten` does. -/
structure Flattened where
  size : ℕ
  bytes : List UInt8
  fds : List ℤ
  status : Status

/-- `write(const Flattenable&)`. -/
def writeFlattenable (val : Flattened) (dup : ℤ → Except Status ℤ) (a : ℕ → Answers) :
    Option (Status × Parcel) :=
  andThen (p.writeInt32 (toInt32 val.size) (a 0)) fun q =>
    andThen (q.writeInt32 (toInt32 val.fds.length) (a 1)) fun q =>
      (q.writeInplace (padSize val.size) (a 2)).bind fun (buf, q) =>
        match buf with
        | none => some (.badValue, q)
        | some buf =>
          (q.store buf val.bytes).bind fun q =>
            andThen (some (val.status, q)) (writeDupFileDescriptors dup val.fds fun k => a (k + 3))

/-! ## Appending from another parcel -/

/-- The entries of an object table from the first to the last one in `[offset, stop)`. -/
def objectsBetween (objects : List ℕ) (offset stop : ℕ) : List ℕ :=
  (objects.dropWhile fun o => ¬ (offset ≤ o ∧ o < stop)).rdropWhile
    fun o => ¬ (offset ≤ o ∧ o < stop)

/-- One turn of the loop that appends and acquires objects.  `dup` maps a descriptor, taken as a
word, to its duplicate. -/
def appendObject (dup : ℕ → ℕ) (r : Status × Parcel) (offset : ℕ) : Option (Status × Parcel) :=
  let p := r.2
  if p.mObjects.length < p.objectsRoom then
    let q := { p with mObjects := p.mObjects ++ [offset] }
    let flat := Memory.flat q.byte offset
    if flat.type = binderTypeFd then
      (q.store (offset + 8) (toBytes 4 (dup flat.binder) ++ toBytes 4 1)).map fun q =>
        (if q.mAllowFds then r.1 else .fdsNotAllowed, { q with mHasFds := true, mFdsKnown := true })
    else some (r.1, q)
  else none

/-- The room `appendFrom` makes for the data. -/
def appendRoom (p : Parcel) (len : ℕ) (a : Answers) : Status × Parcel :=
  if toUInt32 (p.mDataSize + len) > p.mDataCapacity then p.growData len a else (.ok, p)

/-- The bytes are appended; the cursor and the size both move. -/
def appendData (p : Parcel) (bytes : List UInt8) : Option Parcel :=
  (p.store p.mDataPos bytes).map fun q =>
    { q with
      mDataPos := toUInt32 (q.mDataPos + bytes.length)
      mDataSize := toUInt32 (q.mDataSize + bytes.length) }

/-- The room it makes for `n` objects. -/
def appendTableRoom (p : Parcel) (n : ℕ) (a : Answers) : Status × Parcel :=
  if p.mObjectsCapacity < p.mObjects.length + n then
    p.growObjects ((p.mObjects.length + n) * 3 / 2) a
  else (.ok, p)

/-- The objects are appended, relocated from `offset` in the source to `startPos` here. -/
def appendObjects (p : Parcel) (objects : List ℕ) (offset startPos : ℕ) (dup : ℕ → ℕ) (a : Answers) :
    Option (Status × Parcel) :=
  if objects = [] then some (.ok, p)
  else
    andThen (p.appendTableRoom objects.length a) fun q =>
      (objects.map fun o => toUInt32 (o + (2 ^ 32 - offset) + startPos)).foldlM
        (appendObject dup) (.ok, q)

/-- `appendFrom`, from another parcel. -/
def appendFrom (p src : Parcel) (offset len : ℕ) (dup : ℕ → ℕ) (a : Answers) :
    Option (Status × Parcel) :=
  if len = 0 then some (.ok, p)
  else if offset > src.mDataSize ∨ len > src.mDataSize ∨ toUInt32 (offset + len) > src.mDataSize then
    some (.badValue, p)
  else
    andThen (p.appendRoom len a) fun q =>
      (q.appendData (src.load offset len)).bind fun q =>
        q.appendObjects (objectsBetween src.mObjects offset (toUInt32 (offset + len))) offset
          p.mDataPos dup a

end Parcel

end Droid
