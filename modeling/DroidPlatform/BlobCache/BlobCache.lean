import DroidPlatform.Core.Bytes
import DroidPlatform.Vector.SortedVector

/-!
# `BlobCache`

A cache for binary key/value pairs with limits on the sizes of keys, of values and of everything
together.  The entries lie in a `SortedVector`, ordered by the size of the key and then by its bytes.
`mTotalSize` is kept up to date entry by entry: when a pair is added, when a value is replaced and
when `clean` removes entries at random.

* The random numbers still to come are a field of the cache, `mRandState`; nothing is known of them.
* A `Blob` that copies its data is a list of bytes.  `malloc` hands out disjoint memory, so that a
  copy is made only if it fits into the address space next to the blobs that are held.  A copy that
  does not fit is a write through a null pointer, and the process dies.
* Sizes and offsets are 32 bits wide, also the signed `off_t` offsets, of which only the bits matter.
-/

namespace Droid

abbrev Blob := List UInt8

/-- `memcmp`, of equally many bytes. -/
def memcmp : List UInt8 → List UInt8 → ℤ
  | a :: as, b :: bs => if a < b then -1 else if b < a then 1 else memcmp as bs
  | _, _ => 0

/-- `Blob::operator<` -/
def Blob.less (lhs rhs : Blob) : Bool :=
  if lhs.length = rhs.length then memcmp lhs rhs < 0 else lhs.length < rhs.length

structure CacheEntry where
  mKey : Blob
  mValue : Blob
  deriving DecidableEq, Repr

namespace CacheEntry

/-- `compare_type<CacheEntry>`, which asks `CacheEntry::operator<` both ways. -/
def compare (lhs rhs : CacheEntry) : ℤ :=
  (Blob.less rhs.mKey lhs.mKey).toInt - (Blob.less lhs.mKey rhs.mKey).toInt

/-- The size of the key and the value. -/
def size (e : CacheEntry) : ℕ := e.mKey.length + e.mValue.length

/-- The memory that an entry takes: two pointers, two `Blob` objects and their data. -/
def memory (e : CacheEntry) : ℕ := 8 + 2 * 20 + e.size

end CacheEntry

/-- What goes wrong outside the control of the caller. -/
inductive BlobCache.Fault where
  /-- `malloc` returned null. -/
  | noMemory
  /-- `% 0`. -/
  | divideByZero
  /-- An item that is not there. -/
  | badItem
  /-- A loop that does not end. -/
  | diverges
  deriving DecidableEq, Repr

structure BlobCache where
  mMaxKeySize : ℕ
  mMaxValueSize : ℕ
  mMaxTotalSize : ℕ
  mTotalSize : ℕ
  mRandState : ℕ → ℕ
  mCacheEntries : List CacheEntry

namespace BlobCache

/-- `BlobCache(maxKeySize, maxValueSize, maxTotalSize)` -/
def create (maxKeySize maxValueSize maxTotalSize : ℕ) (mRandState : ℕ → ℕ) : BlobCache :=
  ⟨maxKeySize, maxValueSize, maxTotalSize, 0, mRandState, []⟩

/-- The memory that the cache and its entries take. -/
def memory (c : BlobCache) : ℕ := 56 + (c.mCacheEntries.map CacheEntry.memory).sum

/-- There is memory for so many bytes more. -/
def malloc (c : BlobCache) (bytes : ℕ) : Except Fault Unit :=
  if c.memory + bytes < 2 ^ 32 then .ok () else .error .noMemory

/-- An item of a vector that has to be there. -/
def need {α : Type} : Option α → Except Fault α
  | none => .error .badItem
  | some a => .ok a

variable (c : BlobCache) (buffer : Memory) (byteOffset : ℕ)

/-- `mCacheEntries.clear()` -/
def clearEntries : BlobCache := { c with mCacheEntries := [] }

/-! ## Storing and finding values -/

/-- `isCleanable()` -/
def isCleanable (c : BlobCache) : Bool := c.mMaxTotalSize / 2 < c.mTotalSize

/-- `clean()` removes the `i`-th entry. -/
def evict (c : BlobCache) (i : ℕ) (entry : CacheEntry) : BlobCache :=
  { c with
    mTotalSize := toWord (c.mTotalSize - toUInt32 entry.size)
    mRandState := fun n => c.mRandState (n + 1)
    mCacheEntries := c.mCacheEntries.eraseIdx i }

/-- The loop of `clean`. -/
def cleanFrom : ℕ → BlobCache → Except Fault BlobCache
  | 0, _ => .error .diverges
  | fuel + 1, c =>
    if c.mMaxTotalSize / 2 < c.mTotalSize then
      if c.mCacheEntries.length = 0 then .error .divideByZero
      else do
        let i := c.mRandState 0 % c.mCacheEntries.length
        let entry ← need c.mCacheEntries[i]?
        cleanFrom fuel (c.evict i entry)
    else .ok c

/-- `clean()` -/
def clean (c : BlobCache) : Except Fault BlobCache := cleanFrom (c.mCacheEntries.length + 1) c

/-- What `set` does when the total would be too large: clean and go on, or give up. -/
def makeRoom (c : BlobCache) : Except Fault (Bool × BlobCache) :=
  if c.isCleanable then do
    let c ← c.clean
    .ok (true, c)
  else .ok (false, c)

/-- The new entry, or the new value of an entry, is stored if the limit allows it. -/
def store (c : BlobCache) (newTotalSize : ℕ) (entries : Option (List CacheEntry)) :
    Except Fault (Bool × BlobCache) :=
  if c.mMaxTotalSize < newTotalSize then c.makeRoom
  else do
    let entries ← need entries
    .ok (false, { c with mTotalSize := newTotalSize, mCacheEntries := entries })

/-- A pass of the loop of `set`; it says whether the loop goes on. -/
def setPass (c : BlobCache) (key value : Blob) : Except Fault (Bool × BlobCache) := do
  let index ← need (SortedVectorImpl.indexOf CacheEntry.compare c.mCacheEntries ⟨key, []⟩)
  if index < 0 then
    c.malloc (CacheEntry.memory ⟨key, value⟩)
    c.store (toUInt32 (c.mTotalSize + key.length + value.length))
      ((SortedVectorImpl.add CacheEntry.compare c.mCacheEntries ⟨key, value⟩).map Prod.fst)
  else
    c.malloc (20 + value.length)
    let entry ← need c.mCacheEntries[index.toNat]?
    c.store (toWord ((c.mTotalSize : ℤ) + value.length - entry.mValue.length))
      (some (c.mCacheEntries.set index.toNat { entry with mValue := value }))

/-- The loop of `set`. -/
def setLoop : ℕ → BlobCache → Blob → Blob → Except Fault BlobCache
  | 0, _, _, _ => .error .diverges
  | fuel + 1, c, key, value => do
    let (again, c) ← c.setPass key value
    if again then setLoop fuel c key value else .ok c

/-- The checks of `set`. -/
def Cacheable (c : BlobCache) (keySize valueSize : ℕ) : Prop :=
  keySize ≤ c.mMaxKeySize ∧ valueSize ≤ c.mMaxValueSize ∧
    toUInt32 (keySize + valueSize) ≤ c.mMaxTotalSize ∧ keySize ≠ 0 ∧ valueSize ≠ 0
  deriving Decidable

/-- `set(key, keySize, value, valueSize)`; the loop cleans at most once. -/
def set (key value : Blob) : Except Fault BlobCache :=
  if c.Cacheable key.length value.length then setLoop 2 c key value else .ok c

/-- `get(key, keySize, value, valueSize)`: the size of the value, and its bytes if they fit. -/
def get (key : Blob) (valueSize : ℕ) : Except Fault (ℕ × Option Blob) :=
  if c.mMaxKeySize < key.length then .ok (0, none)
  else do
    let index ← need (SortedVectorImpl.indexOf CacheEntry.compare c.mCacheEntries ⟨key, []⟩)
    if index < 0 then .ok (0, none)
    else
      let entry ← need c.mCacheEntries[index.toNat]?
      .ok (entry.mValue.length, if entry.mValue.length ≤ valueSize then some entry.mValue else none)

/-! ## Serialization -/

/-- `'_Bb$'` -/
def blobCacheMagic : ℕ := 0x5f426224

def blobCacheVersion : ℕ := 1

def blobCacheDeviceVersion : ℕ := 1

def sizeofHeader : ℕ := 16

def sizeofEntryHeader : ℕ := 8

/-- `align4(size)` -/
def align4 (size : ℕ) : ℕ := toUInt32 (size + 3) / 4 * 4

/-- The loop of `getFlattenedSize`. -/
def flattenedSizeFrom (size : ℕ) (entries : List CacheEntry) : ℕ :=
  entries.foldl (fun size e => toUInt32 (align4 size + sizeofEntryHeader + e.size)) size

/-- `getFlattenedSize()` -/
def getFlattenedSize : ℕ := flattenedSizeFrom sizeofHeader c.mCacheEntries

/-- The bytes of an entry: an `EntryHeader`, the key and the value. -/
def entryBytes (e : CacheEntry) : List UInt8 :=
  toBytes 4 e.mKey.length ++ toBytes 4 e.mValue.length ++ e.mKey ++ e.mValue

/-- The bytes of the `Header`. -/
def headerBytes (numEntries : ℕ) : List UInt8 :=
  toBytes 4 blobCacheMagic ++ toBytes 4 blobCacheVersion ++ toBytes 4 blobCacheDeviceVersion ++
    toBytes 4 numEntries

/-- The loop of `flatten`. -/
def flattenFrom (size : ℕ) : List CacheEntry → ℕ → Memory → Status × Memory
  | [], _, buffer => (Status.ok, buffer)
  | e :: entries, byteOffset, buffer =>
    let entrySize := toUInt32 (sizeofEntryHeader + e.mKey.length + e.mValue.length)
    if size < toUInt32 (byteOffset + entrySize) then (Status.badValue, buffer)
    else
      flattenFrom size entries (toUInt32 (byteOffset + align4 entrySize))
        (buffer.write byteOffset (entryBytes e))

/-- `flatten(buffer, size, fds, count)` -/
def flatten (size count : ℕ) : Status × Memory :=
  if count ≠ 0 then (Status.badValue, buffer)
  else if size < sizeofHeader then (Status.badValue, buffer)
  else
    flattenFrom size c.mCacheEntries (align4 sizeofHeader)
      (buffer.write 0 (headerBytes c.mCacheEntries.length))

/-- A 32-bit field of a serialized cache. -/
def field (offset : ℕ) : ℕ := ofBytes (buffer.slice offset 4)

/-! The `EntryHeader` at `byteOffset`, and the data behind it. -/

def mKeySize : ℕ := field buffer byteOffset

def mValueSize : ℕ := field buffer (toUInt32 (byteOffset + 4))

def entrySize : ℕ :=
  toUInt32 (sizeofEntryHeader + mKeySize buffer byteOffset + mValueSize buffer byteOffset)

def keyAt : Blob :=
  buffer.slice (toUInt32 (byteOffset + sizeofEntryHeader)) (mKeySize buffer byteOffset)

def valueAt (buffer : Memory) (byteOffset : ℕ) : Blob :=
  buffer.slice (toUInt32 (byteOffset + sizeofEntryHeader + mKeySize buffer byteOffset))
    (mValueSize buffer byteOffset)

/-- The loop of `unflatten`, with so many entries to go. -/
def unflattenFrom (buffer : Memory) (size : ℕ) :
    ℕ → ℕ → BlobCache → Except Fault (Status × BlobCache)
  | 0, _, c => .ok (Status.ok, c)
  | n + 1, byteOffset, c =>
    if size < toUInt32 (byteOffset + sizeofEntryHeader) then .ok (Status.badValue, c.clearEntries)
    else if size < toUInt32 (byteOffset + entrySize buffer byteOffset) then
      .ok (Status.badValue, c.clearEntries)
    else do
      let c ← c.set (keyAt buffer byteOffset) (valueAt buffer byteOffset)
      unflattenFrom buffer size n (toUInt32 (byteOffset + align4 (entrySize buffer byteOffset))) c

/-- `unflatten(buffer, size, fds, count)` -/
def unflatten (size count : ℕ) : Except Fault (Status × BlobCache) :=
  let c := c.clearEntries
  if count ≠ 0 then .ok (Status.badValue, c)
  else if size < sizeofHeader then .ok (Status.badValue, c)
  else if field buffer 0 ≠ blobCacheMagic then .ok (Status.badValue, c)
  else if field buffer 4 ≠ blobCacheVersion ∨ field buffer 8 ≠ blobCacheDeviceVersion then
    .ok (Status.ok, c)
  else unflattenFrom buffer size (field buffer 12) (align4 sizeofHeader) c

end BlobCache

end Droid
