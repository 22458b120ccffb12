import DroidPlatform.Ext4.Allocator.Extent
import DroidPlatform.Ext4.Sparse.OutputFile

/-!
# Making a directory

`make_directory` (`contents.c`) computes how long a directory is going to be (`dentry_size`), allocates
a buffer for it and fills that with records (`struct ext4_dir_entry_2`): `.` and `..`, one for each
entry, and one without a name for what is left.  A record may not cross the end of a block, so the one
before it is made longer where it would (`padToBlock`, which the source has twice).

A pointer to a record is its offset in the buffer.  The length is computed, and the records are placed,
in 32 bits.  A run can end in a `Fault`: `critical_error`, `error` in a program that was not started
with `force`, or a store past the end of the buffer.
-/

namespace Droid.Ext4

/-! ## Records -/

/-- `struct ext4_dir_entry_2`; `name_len` is the length of the name. -/
structure DirEntry where
  inode : ℕ
  rec_len : ℕ
  file_type : UInt8
  name : List UInt8
deriving DecidableEq, Repr

def EXT4_FT_UNKNOWN : UInt8 := 0
def EXT4_FT_REG_FILE : UInt8 := 1
def EXT4_FT_DIR : UInt8 := 2

namespace DirEntry

/-- The widths and values of the fields in front of the name. -/
def fields (e : DirEntry) : List (ℕ × ℕ) :=
  [(4, e.inode), (2, e.rec_len), (1, e.name.length), (1, e.file_type.toNat)]

def encode (e : DirEntry) : List UInt8 := joinFields e.fields ++ e.name

/-- The record at `p`. -/
def decode (m : Memory) (p : ℕ) : DirEntry :=
  let f := splitFields [4, 2, 1, 1] (m.slice p 8)
  { inode := f.getD 0 0
    rec_len := f.getD 1 0
    file_type := .ofNat (f.getD 3 0)
    name := m.slice (p + 8) (f.getD 2 0) }

end DirEntry

/-! ## The buffer -/

inductive Fault
  | critical_error
  | error
  | out_of_bounds
deriving DecidableEq, Repr

/-- Memory that was allocated, and how much. -/
structure Buffer where
  len : ℕ
  bytes : Memory

def Buffer.calloc (len : ℕ) : Buffer := ⟨len, fun _ => 0⟩

/-- A store, which must not go past the end. -/
def Buffer.store (data : Buffer) (p : ℕ) (bytes : List UInt8) : Except Fault Buffer :=
  if p + bytes.length ≤ data.len then .ok { data with bytes := data.bytes.write p bytes }
  else .error .out_of_bounds

/-! ## The directory -/

/-- An entry of the directory that is to be made. -/
structure Dentry where
  filename : List UInt8
  file_type : UInt8
deriving DecidableEq, Repr

/-- How many blocks of `y` bytes `x` bytes need: `DIV_ROUND_UP(x, y)`, in 32 bits. -/
def blocksFor (x y : ℕ) : ℕ := toUInt32 (x + y - 1) / y

def REC_LEN_FOR_END : ℕ := 8

section

variable (info : FsInfo)

/-- One more record, `dentry_len` bytes long. -/
def dentrySizeStep (len dentry_len : ℕ) : ℕ :=
  let len :=
    if toUInt32 (len % info.block_size + dentry_len) > info.block_size then
      toUInt32 (len + (info.block_size - len % info.block_size))
    else len
  toUInt32 (len + dentry_len)

def dentry_size (dentries : List Dentry) : ℕ :=
  let len := dentries.foldl
    (fun len d => dentrySizeStep info len (8 + align d.filename.length 4)) 24
  dentrySizeStep info len REC_LEN_FOR_END

/-- Where a record of `rec_len` bytes goes.  If it would cross a block boundary, the previous one is
padded to the block boundary. -/
def padToBlock (data : Buffer) (offset : ℕ) (prev : Option ℕ) (rec_len : ℕ) :
    Except Fault (Buffer × ℕ) :=
  let start_block := offset / info.block_size
  let end_block := toUInt32 (offset + rec_len - 1) / info.block_size
  if start_block ≠ end_block then
    match prev with
    | none => .error .critical_error
    | some prev => do
      let pad := toUInt32 (end_block * info.block_size + 2 ^ 32 - offset)
      let padded := toUInt16 ((DirEntry.decode data.bytes prev).rec_len + pad)
      let data ← data.store (prev + 4) (toBytes 2 padded)
      return (data, toUInt32 (end_block * info.block_size))
  else .ok (data, offset)

/-- The buffer, the offset behind the record, and the record. -/
def add_dentry (data : Buffer) (offset : ℕ) (prev : Option ℕ) (inode : ℕ) (name : List UInt8)
    (file_type : UInt8) : Except Fault (Buffer × ℕ × ℕ) := do
  let name_len := name.length % 2 ^ 8
  let rec_len := toUInt16 (8 + align name_len 4)
  let (data, offset) ← padToBlock info data offset prev rec_len
  let data ← data.store offset
    (DirEntry.encode { inode, rec_len, file_type, name := name.take name_len })
  return (data, toUInt32 (offset + rec_len), offset)

/-- The loop over the entries.  Besides the buffer, the offset and the last record, it gives where the
inode numbers of the entries are going to be stored. -/
def addDentries (len : ℕ) : List Dentry → Buffer → ℕ → ℕ →
    Except Fault (Buffer × ℕ × ℕ × List ℕ)
  | [], data, offset, dentry => .ok (data, offset, dentry, [])
  | d :: dentries, data, offset, dentry => do
    let (data, offset, dentry) ←
      add_dentry info data offset (some dentry) 0 d.filename d.file_type
    if offset > len ∨ offset = len ∧ dentries ≠ [] then .error .critical_error
    else
      let (data, offset, last, inodes) ← addDentries len dentries data offset dentry
      return (data, offset, last, dentry :: inodes)

/-- Fills the buffer. -/
def fillDirectory (data : Buffer) (inode_num dir_inode_num : ℕ) (dentries : List Dentry) :
    Except Fault (Buffer × List ℕ) := do
  let (data, offset, dentry) ← add_dentry info data 0 none inode_num [46] EXT4_FT_DIR
  let (data, offset, dentry) ←
    add_dentry info data offset (some dentry) dir_inode_num [46, 46] EXT4_FT_DIR
  let (data, offset, prev, inodes) ← addDentries info data.len dentries data offset dentry
  let (data, offset) ← padToBlock info data offset (some prev) REC_LEN_FOR_END
  let data ← data.store offset (DirEntry.encode
    { inode := 0
      rec_len := toUInt16 (data.len + 2 ^ 32 - offset)
      file_type := EXT4_FT_UNKNOWN
      name := [] })
  return (data, inodes)

end

/-- What the calls for the inode return. -/
structure InodeCalls where
  allocate_inode : ℕ
  /-- The flags of an inode, if there is one. -/
  get_inode : ℕ → Option ℕ
  /-- Whether extents for so many bytes could be allocated. -/
  inode_allocate_extents : ℕ → Bool

/-- The data of an inode with extents, unless nothing was asked for. -/
def InodeCalls.inode_allocate_data_extents (calls : InodeCalls) (len : ℕ) : Option Buffer :=
  if calls.inode_allocate_extents len ∧ 0 < len then some (.calloc len) else none

/-- A directory that was made. -/
structure Directory where
  inode_num : ℕ
  i_mode : ℕ
  i_links_count : ℕ
  i_flags : ℕ
  data : Buffer
  /-- `dentries[i].inode`. -/
  inodes : List ℕ

def EXT4_ROOT_INO : ℕ := 2
def EXT4_NOATIME_FL : ℕ := 0x00000080
def S_IFDIR : ℕ := 0x4000

/-- How long the buffer is. -/
def directoryLen (info : FsInfo) (dentries : List Dentry) : ℕ :=
  toUInt32 (blocksFor (dentry_size info dentries) info.block_size * info.block_size)

/-- Creates a directory structure for an array of directory entries, and stores the location of the
structure in an inode.  There is no directory where the source returns `EXT4_ALLOCATE_FAILED`. -/
def make_directory (info : FsInfo) (force : Bool) (calls : InodeCalls) (dir_inode_num : ℕ)
    (dentries : List Dentry) (dirs : ℕ) : Except Fault (Option Directory) := do
  let failed : Except Fault (Option Directory) := if force then .ok none else .error .error
  let len := directoryLen info dentries
  let inode_num := if dir_inode_num ≠ 0 then calls.allocate_inode else EXT4_ROOT_INO
  let dir_inode_num := if dir_inode_num ≠ 0 then dir_inode_num else EXT4_ROOT_INO
  if inode_num = EXT4_ALLOCATE_FAILED then failed
  else match calls.get_inode inode_num, calls.inode_allocate_data_extents len with
    | some i_flags, some data =>
      let (data, inodes) ← fillDirectory info data inode_num dir_inode_num dentries
      return some
        { inode_num
          i_mode := S_IFDIR
          i_links_count := toUInt16 (dirs + 2)
          i_flags := i_flags ||| EXT4_NOATIME_FL
          data
          inodes }
    | _, _ => failed

end Droid.Ext4
