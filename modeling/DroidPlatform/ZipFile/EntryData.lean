import DroidPlatform.ZipFile.DirectoryBounds

/-!
# The data of an entry

`getEntryInfo` reads the fields of an entry and finds out where its data begins, `createEntryFileMap`
maps the data, and `uncompressEntry` copies or inflates them.  The map has the compressed length; what
is copied of an entry that is only stored has the uncompressed length.  These are two fields of the
directory, and each of them is compared with the offset of the directory, but never with the other.

`uncompressEntry_inside_iff` says when the bytes that are copied are those of the map.
-/

namespace Droid.ZipFileRO

def kLFHLen : ℕ := 30
def kLFHNameLen : ℕ := 26
def kLFHExtraLen : ℕ := 28

def kCDEMethod : ℕ := 10
def kCDEModWhen : ℕ := 12
def kCDECRC : ℕ := 16
def kCDECompLen : ℕ := 20
def kCDEUncompLen : ℕ := 24

def kCompressStored : ℕ := 0

/-- An open archive: the file, the memory at `cdPtr`, and what was read of the directory. -/
structure Archive where
  file : List UInt8
  directory : Memory
  mDirectoryOffset : ℕ
  mHashTable : List (Option HashEntry)

/-- What `getEntryInfo` stores. -/
structure EntryInfo where
  method : ℕ
  uncompLen : ℕ
  compLen : ℕ
  offset : ℤ
  modWhen : ℕ
  crc32 : ℕ
deriving DecidableEq, Repr

/-- A mapped range of the file. -/
structure FileMap where
  mDataOffset : ℤ
  mDataLength : ℕ
deriving DecidableEq, Repr

namespace Archive

/-- `open` of a file. -/
def openFile (file : List UInt8) (mallocs mmaps : Bool) (behind : Memory) : Option Archive := do
  let d ← mapCentralDirectory file mallocs mmaps
  let (s, ok) ← d.parseZipArchive behind
  if ok then some ⟨file, d.memory behind, d.mDirectoryOffset, s.mHashTable⟩ else none

variable (z : Archive)

/-- Get the useful fields from the zip entry.  `ent` is its place in the hash table. -/
def getEntryInfo (ent : ℕ) : Option EntryInfo := do
  let hashEntry ← z.mHashTable.getD ent none
  let ptr := hashEntry.name - kCDELen
  let method := get2LE z.directory (ptr + kCDEMethod)
  let compLen := get4LE z.directory (ptr + kCDECompLen)
  let uncompLen := get4LE z.directory (ptr + kCDEUncompLen)
  let localHdrOffset := get4LE z.directory (ptr + kCDELocalOffset)
  let contents : Memory := fun i => z.file.getD i 0
  if toInt32 (localHdrOffset + kLFHLen) ≥ z.mDirectoryOffset then none
  -- `pread64` does not read before the beginning of the file, nor behind its end
  else if toInt32 localHdrOffset < 0 ∨ z.file.length < localHdrOffset + kLFHLen then none
  else if get4LE contents localHdrOffset ≠ kLFHSignature then none
  else
    let dataOffset := toInt32 (localHdrOffset + kLFHLen +
      get2LE contents (localHdrOffset + kLFHNameLen) +
      get2LE contents (localHdrOffset + kLFHExtraLen))
    if dataOffset ≥ z.mDirectoryOffset then none
    else if dataOffset + compLen > z.mDirectoryOffset then none
    else if method = kCompressStored ∧ dataOffset + uncompLen > z.mDirectoryOffset then none
    else some { method, uncompLen, compLen
                offset := dataOffset
                modWhen := get4LE z.directory (ptr + kCDEModWhen)
                crc32 := get4LE z.directory (ptr + kCDECRC) }

variable (creates : ℤ → ℕ → Bool)

/-- Create a new `FileMap` object that spans the data in the entry; `creates` is what `create`
answers. -/
def createEntryFileMap (ent : ℕ) : Option FileMap := do
  let info ← z.getEntryInfo ent
  if creates info.offset info.compLen then some ⟨info.offset, info.compLen⟩ else none

/-- The map, and the number of bytes that are taken from its beginning: by `memcpy` or by `write`, or
by `inflateBuffer`. -/
def uncompress (ent : ℕ) : Option (FileMap × ℕ) := do
  -- the answer is not looked at, but `createEntryFileMap` gets the same
  let info ← z.getEntryInfo ent
  let file ← z.createEntryFileMap creates ent
  return (file, if info.method = kCompressStored then info.uncompLen else info.compLen)

/-- `uncompressEntry` into a buffer. -/
def uncompressEntry : ℕ → Option (FileMap × ℕ) := z.uncompress creates

/-- `uncompressEntry` to a file. -/
def uncompressEntryToFile : ℕ → Option (FileMap × ℕ) := z.uncompress creates

/-- The bytes are those of the map, which lies in the file before the central directory. -/
def ReadsInside (r : FileMap × ℕ) : Prop :=
  r.2 ≤ r.1.mDataLength ∧ 0 ≤ r.1.mDataOffset ∧ r.1.mDataOffset + r.1.mDataLength ≤ z.mDirectoryOffset

variable {z}

/-- What was compared. -/
lemma offset_add_compLen_le {ent : ℕ} {info : EntryInfo} (h : z.getEntryInfo ent = some info) :
    info.offset + info.compLen ≤ z.mDirectoryOffset := by
  obtain ⟨hashEntry, -, h⟩ := Option.bind_eq_some_iff.mp h
  dsimp only at h
  split_ifs at h with _ _ _ _ hcomp
  rw [← Option.some.inj h]
  dsimp only
  exact not_lt.mp hcomp

/-- **A stored entry is read inside its map** exactly if it is no longer uncompressed than compressed,
and the offset of its data did not wrap around. -/
theorem uncompressEntry_inside_iff {ent : ℕ} {info : EntryInfo} (h : z.getEntryInfo ent = some info)
    (hstored : info.method = kCompressStored) :
    (∀ creates r, (z.uncompressEntry creates ent = some r ∨
        z.uncompressEntryToFile creates ent = some r) → z.ReadsInside r) ↔
      info.uncompLen ≤ info.compLen ∧ 0 ≤ info.offset := by
  have hrun : ∀ creates, z.uncompress creates ent =
      if creates info.offset info.compLen then some (⟨info.offset, info.compLen⟩, info.uncompLen)
      else none := by
    intro creates
    simp only [uncompress, createEntryFileMap, h, Option.bind_eq_bind, Option.bind_some]
    split_ifs <;> rfl
  constructor
  · intro hall
    obtain ⟨hlen, hoffset, -⟩ := hall (fun _ _ => true) _ (.inl (hrun _))
    exact ⟨hlen, hoffset⟩
  · rintro ⟨hlen, hoffset⟩ creates r hr
    have hr : z.uncompress creates ent = some r := hr.elim id id
    rw [hrun] at hr
    split_ifs at hr
    cases hr
    exact ⟨hlen, hoffset, offset_add_compLen_le h⟩

end Archive

/-- An archive with one entry `a` of at most eight bytes, with the two lengths as given. -/
def archiveOfA (compLen uncompLen : ℕ) : List UInt8 :=
  [0x50, 0x4b, 0x03, 0x04] ++ List.replicate 22 0 ++ [1, 0, 0, 0, 0x61] ++ List.replicate 8 0 ++
    [0x50, 0x4b, 0x01, 0x02] ++ List.replicate 16 0 ++ toBytes 4 compLen ++ toBytes 4 uncompLen ++
    [1, 0] ++ List.replicate 16 0 ++ [0x61] ++
    [0x50, 0x4b, 0x05, 0x06, 0, 0, 0, 0, 1, 0, 1, 0, 47, 0, 0, 0, 39, 0, 0, 0, 0, 0]

theorem Archive.uncompressEntry_inside_iff_a : ∃ z info,
    Archive.openFile (archiveOfA 8 8) true true (fun _ => 0) = some z ∧ z.getEntryInfo 1 = some info ∧
      ∀ creates r, (z.uncompressEntry creates 1 = some r ∨
        z.uncompressEntryToFile creates 1 = some r) → z.ReadsInside r := by
  have hopen : ((openFile (archiveOfA 8 8) true true fun _ => 0).bind fun z =>
      z.getEntryInfo 1) = some ⟨0, 8, 8, 31, 0, 0⟩ := by decide +kernel
  obtain ⟨z, hz, hinfo⟩ := Option.bind_eq_some_iff.mp hopen
  exact ⟨z, _, hz, hinfo, (uncompressEntry_inside_iff hinfo rfl).mpr (by decide)⟩

/-- One byte is mapped, and eight are copied. -/
theorem Archive.uncompressEntry_outside :
    ((Archive.openFile (archiveOfA 1 8) true true fun _ => 0).bind fun z =>
      z.uncompressEntry (fun _ _ => true) 1) = some (⟨31, 1⟩, 8) := by
  decide +kernel

end Droid.ZipFileRO
