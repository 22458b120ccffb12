import DroidPlatform.Ext4.Allocator.Allocate

/-!
# Extents

`do_inode_allocate_extents` (`extent.c`) allocates the blocks of a file and connects them to its inode.
It asks for one block more than the file has: if the regions are few enough to fit into the inode that
block is returned, else it becomes the extent block, which holds the extents.

What is stored is `ExtentTree`: the header and the extents in the inode, or the header and the index
entry there and the header and the extents in the extent block.
-/

namespace Droid.Ext4

/-- `struct ext4_extent_header`. -/
structure ExtentHeader where
  eh_magic : ℕ
  eh_entries : ℕ
  eh_max : ℕ
  eh_depth : ℕ
  eh_generation : ℕ
deriving DecidableEq, Repr

/-- `struct ext4_extent`. -/
structure Extent where
  ee_block : ℕ
  ee_len : ℕ
  ee_start_hi : ℕ
  ee_start_lo : ℕ
deriving DecidableEq, Repr

/-- `struct ext4_extent_idx`. -/
structure ExtentIdx where
  ei_block : ℕ
  ei_leaf_lo : ℕ
  ei_leaf_hi : ℕ
  ei_unused : ℕ
deriving DecidableEq, Repr

/-- What is stored in `i_block`, and in the extent block if there is one. -/
inductive ExtentTree
  | inline (hdr : ExtentHeader) (extents : List Extent)
  | indexed (hdr : ExtentHeader) (idx : ExtentIdx) (leaf : ExtentHeader) (extents : List Extent)
deriving DecidableEq, Repr

/-- What `do_inode_allocate_extents` stores in the inode. -/
structure InodeData where
  i_block : ExtentTree
  i_flags : ℕ
  i_size_lo : ℕ
  i_size_high : ℕ
  i_blocks_lo : ℕ
  l_i_blocks_high : ℕ
deriving DecidableEq, Repr

def EXT4_EXT_MAGIC : ℕ := 0xf30a
def EXT4_EXTENTS_FL : ℕ := 0x00080000

/-- `sizeof(struct ext4_extent_header)` and `sizeof(struct ext4_extent)`. -/
def EXTENT_HEADER_LEN : ℕ := 12
def EXTENT_LEN : ℕ := 12

/-- A value in a 16-bit field. -/
def toUInt16 (n : ℕ) : ℕ := n % 2 ^ 16

variable (alloc : BlockAllocation)

namespace BlockAllocation

/-- The regions that are still to come: `get_region` and `get_next_region`, until `last_region`. -/
def regionsLeft : List Region :=
  (alloc.walk alloc.list.iter).modify 0 fun reg => { reg with len := reg.len - alloc.list.partial_iter }

def rewind_alloc : BlockAllocation :=
  { alloc with list := { alloc.list with iter := alloc.list.first, partial_iter := 0 } }

end BlockAllocation

/-- The loop that writes the extents. -/
def extentsFrom : ℕ → List Region → List Extent
  | _, [] => []
  | file_block, reg :: regs =>
    { ee_block := file_block
      ee_len := toUInt16 reg.len
      ee_start_hi := 0
      ee_start_lo := reg.block } :: extentsFrom (toUInt32 (file_block + reg.len)) regs

section

variable (info : FsInfo) (force : Bool)

/-- `DIV_ROUND_UP(len, info.block_size)`, in 64 bits, stored in 32. -/
def blockLen (len : ℕ) : ℕ :=
  toUInt32 ((len + info.block_size - 1) % 2 ^ 64 / info.block_size)

/-- The block that is not needed is returned, or becomes the extent block. -/
def placeExtents (bgs : Groups) : Option (ℕ × BlockAllocation × Groups) :=
  if alloc.block_allocation_num_regions ≤ 3 then do
    let (alloc, bgs) ← alloc.reduce_allocation bgs 1
    return (0, alloc, bgs)
  else do
    let (_, alloc) ← alloc.reserve_oob_blocks 1
    return (alloc.get_oob_block 0, alloc, bgs)

/-- What is stored, if it fits. -/
def extentTree (extent_block allocation_len : ℕ) (regs : List Region) : Option ExtentTree :=
  if extent_block = 0 then
    some (.inline { eh_magic := EXT4_EXT_MAGIC
                    eh_entries := toUInt16 allocation_len
                    eh_max := 3
                    eh_generation := 0
                    eh_depth := 0 } (extentsFrom 0 regs))
  else if info.block_size - EXTENT_HEADER_LEN / EXTENT_LEN < allocation_len then none
  else
    some (.indexed { eh_magic := EXT4_EXT_MAGIC
                     eh_entries := 1
                     eh_max := 3
                     eh_generation := 0
                     eh_depth := 1 }
      { ei_block := 0, ei_leaf_lo := extent_block, ei_leaf_hi := 0, ei_unused := 0 }
      { eh_magic := EXT4_EXT_MAGIC
        eh_entries := toUInt16 allocation_len
        eh_max := toUInt16 ((info.block_size - EXTENT_HEADER_LEN) / EXTENT_LEN)
        eh_generation := 0
        eh_depth := 0 } (extentsFrom 0 regs))

/-- Allocates the blocks for len bytes and connects them to an inode.  There is no allocation where the
source returns `NULL`. -/
def do_inode_allocate_extents (bgs : Groups) (i_flags len : ℕ) :
    Option (Option (InodeData × BlockAllocation) × Groups) := do
  let block_len := blockLen info len
  match ← allocate_blocks info force bgs (toUInt32 (block_len + 1)) with
  | (none, bgs) => if force then return (none, bgs) else none
  | (some alloc, bgs) =>
    let allocation_len := alloc.block_allocation_num_regions
    let (extent_block, alloc, bgs) ← placeExtents alloc bgs
    match extentTree info extent_block allocation_len alloc.regionsLeft with
    | none => if force then return (none, bgs) else none
    | some i_block =>
      let block_len := if extent_block = 0 then block_len else toUInt32 (block_len + 1)
      let blocks := block_len * info.block_size / 512
      return (some ({ i_block
                      i_flags := i_flags ||| EXT4_EXTENTS_FL
                      i_size_lo := toUInt32 len
                      i_size_high := len >>> 32
                      i_blocks_lo := toUInt32 blocks
                      l_i_blocks_high := toUInt16 (blocks >>> 32) }, alloc.rewind_alloc), bgs)

end

end Droid.Ext4
