import DroidPlatform.Core.Bytes
import DroidPlatform.Core.Word

/-!
# `ZipFileRO`

How `libs/utils/ZipFileRO.cpp` opens an archive: `mapCentralDirectory` finds the end-of-central-
directory record at the end of the file and maps the directory it describes, `parseZipArchive` walks
the records of the directory and puts their names into a hash table.

The directory is seen from its first byte `cdPtr`: a pointer is an offset, and what lies behind the
mapped bytes is a memory of its own, `behind`.  A scan records every range of bytes it reads.  Types
are those of the 32-bit targets, where `long` and `size_t` have 32 bits and `off64_t` has 64.
Whether `malloc` and the mapping succeed are arguments; `calloc` of the hash table does.
-/

namespace Droid

/-- `roundUpPower2` of `libs/utils/misc.cpp`. -/
def roundUpPower2 (val : ℕ) : ℕ :=
  let val := toWord ((val : ℤ) - 1)
  let val := val ||| val >>> 1
  let val := val ||| val >>> 2
  let val := val ||| val >>> 4
  let val := val ||| val >>> 8
  let val := val ||| val >>> 16
  toUInt32 (val + 1)

namespace ZipFileRO

/-! ## Zip file constants -/

def kEOCDSignature : ℕ := 0x06054b50
def kEOCDLen : ℕ := 22
def kEOCDNumEntries : ℕ := 8
def kEOCDSize : ℕ := 12
def kEOCDFileOffset : ℕ := 16

def kMaxCommentLen : ℕ := 65535
def kMaxEOCDSearch : ℕ := kMaxCommentLen + kEOCDLen

def kLFHSignature : ℕ := 0x04034b50

def kCDESignature : ℕ := 0x02014b50
def kCDELen : ℕ := 46
def kCDENameLen : ℕ := 28
def kCDEExtraLen : ℕ := 30
def kCDECommentLen : ℕ := 32
def kCDELocalOffset : ℕ := 42

def get2LE (m : Memory) (buf : ℕ) : ℕ := (m buf).toNat ||| (m (buf + 1)).toNat <<< 8

def get4LE (m : Memory) (buf : ℕ) : ℕ :=
  (m buf).toNat ||| (m (buf + 1)).toNat <<< 8 ||| (m (buf + 2)).toNat <<< 16 |||
    (m (buf + 3)).toNat <<< 24

/-! ## Mapping the central directory -/

/-- What `mapCentralDirectory` leaves behind: the mapped bytes, and two numbers of the record. -/
structure Directory where
  mNumEntries : ℕ
  mDirectoryOffset : ℕ
  data : List UInt8
deriving DecidableEq, Repr

/-- Scan backward for the EOCD magic, from `i` down. -/
def findEOCD (scanBuf : Memory) : ℕ → Option ℕ
  | 0 => if scanBuf 0 = 0x50 ∧ get4LE scanBuf 0 = kEOCDSignature then some 0 else none
  | i + 1 =>
    if scanBuf (i + 1) = 0x50 ∧ get4LE scanBuf (i + 1) = kEOCDSignature then some (i + 1)
    else findEOCD scanBuf i

/-- How much of the end of the file is searched, as `ssize_t`. -/
def readAmount (mFileLength : ℕ) : ℤ :=
  if kMaxEOCDSearch > toInt32 mFileLength then toInt32 mFileLength else kMaxEOCDSearch

/-- Read the record at `eocdOffset`, and map the directory it describes. -/
def mapDirectory (file : List UInt8) (eocdOffset : ℕ) (mmaps : Bool) : Option Directory :=
  let contents : Memory := fun i => file.getD i 0
  let numEntries := get2LE contents (eocdOffset + kEOCDNumEntries)
  let dirSize := get4LE contents (eocdOffset + kEOCDSize)
  let dirOffset := get4LE contents (eocdOffset + kEOCDFileOffset)
  if dirOffset + dirSize > eocdOffset then none
  else if numEntries = 0 then none
  else if ¬ mmaps then none
  else some ⟨numEntries, dirOffset, (file.drop dirOffset).take dirSize⟩

def mapCentralDirectory (file : List UInt8) (mallocs mmaps : Bool) : Option Directory :=
  let contents : Memory := fun i => file.getD i 0
  let mFileLength := toUInt32 file.length
  let readAmount := readAmount mFileLength
  if ¬ mallocs then none
  else if get4LE contents 0 ≠ kLFHSignature then none
  -- a length that is negative as `ssize_t` is more than `read` returns
  else if readAmount < kEOCDLen then none
  else do
    let searchStart := mFileLength - readAmount.toNat
    let i ← findEOCD (fun i => contents (searchStart + i)) (readAmount.toNat - kEOCDLen)
    mapDirectory file (searchStart + i) mmaps

/-! ## Parsing it -/

/-- The name of an entry, by its offset from `cdPtr`. -/
structure HashEntry where
  name : ℕ
  nameLen : ℕ
deriving DecidableEq, Repr

/-- The ranges read so far, as offset and length, and the hash table. -/
structure Scan where
  reads : List (ℕ × ℕ) := []
  mHashTable : List (Option HashEntry)
deriving DecidableEq, Repr

/-- `computeHash`, of the `len` bytes at `str`. -/
def computeHash (m : Memory) (str len : ℕ) : ℕ :=
  (m.slice str len).foldl (fun hash c => toUInt32 (hash * 31 + c.toNat)) 0

/-- The loop of `addToHash`, which ends at the first empty slot. -/
def findSlot (table : List (Option HashEntry)) : ℕ → ℕ → Option ℕ
  | 0, _ => none
  | fuel + 1, ent =>
    if (table.getD ent none).isSome then findSlot table fuel ((ent + 1) &&& (table.length - 1))
    else some ent

def addToHash (table : List (Option HashEntry)) (str strLen hash : ℕ) :
    Option (List (Option HashEntry)) := do
  let ent ← findSlot table table.length (hash &&& (table.length - 1))
  return table.set ent (some ⟨str, strLen % 2 ^ 16⟩)

namespace Scan

/-- Record that `n` bytes at `ptr` are read. -/
def read (s : Scan) (ptr n : ℕ) : Scan := { s with reads := (ptr, n) :: s.reads }

/-- The scan stays inside the first `n` bytes: in what it reads, and in the names it stores. -/
def Inside (s : Scan) (n : ℕ) : Prop :=
  (∀ r ∈ s.reads, r.1 + r.2 ≤ n) ∧
    ∀ slot ∈ s.mHashTable, ∀ entry ∈ slot, entry.name + entry.nameLen ≤ n

instance (s : Scan) (n : ℕ) : Decidable (s.Inside n) :=
  inferInstanceAs (Decidable (_ ∧ ∀ slot ∈ s.mHashTable, ∀ entry ∈ slot, _))

end Scan

namespace Directory

/-- The memory at `cdPtr`. -/
def memory (d : Directory) (behind : Memory) : Memory := fun i => d.data.getD i (behind i)

/-- Walk through the central directory, adding entries to the hash table. -/
def parseEntries (d : Directory) (m : Memory) : ℕ → ℕ → Scan → Option (Scan × Bool)
  | 0, _, s => some (s, true)
  | left + 1, ptr, s => do
    let cdLength := d.data.length
    let s := s.read ptr 4
    if get4LE m ptr ≠ kCDESignature then return (s, false)
    if ptr + kCDELen > cdLength then return (s, false)
    let s := s.read (ptr + kCDELocalOffset) 4
    if toInt32 (get4LE m (ptr + kCDELocalOffset)) ≥ d.mDirectoryOffset then return (s, false)
    let s := s.read (ptr + kCDENameLen) 2
    let fileNameLen := get2LE m (ptr + kCDENameLen)
    let s := s.read (ptr + kCDEExtraLen) 2
    let extraLen := get2LE m (ptr + kCDEExtraLen)
    let s := s.read (ptr + kCDECommentLen) 2
    let commentLen := get2LE m (ptr + kCDECommentLen)
    let s := s.read (ptr + kCDELen) fileNameLen
    let hash := computeHash m (ptr + kCDELen) fileNameLen
    let table ← addToHash s.mHashTable (ptr + kCDELen) fileNameLen hash
    let s := { s with mHashTable := table }
    let ptr := ptr + (kCDELen + fileNameLen + extraLen + commentLen)
    if ptr > cdLength then return (s, false)
    d.parseEntries m left ptr s

def parseZipArchive (d : Directory) (behind : Memory) : Option (Scan × Bool) :=
  let mHashTableSize := roundUpPower2 (1 + d.mNumEntries * 4 / 3)
  d.parseEntries (d.memory behind) d.mNumEntries 0
    { mHashTable := List.replicate mHashTableSize none }

end Directory

end ZipFileRO

end Droid
