import DroidPlatform.Core.Bitmap
import DroidPlatform.Core.Word

/-!
# The block allocator

`allocate.c` gives out the blocks of a filesystem that is being made.  Each block group has a bitmap,
the number of its free blocks and the first of them: blocks are taken from the front, and given back
only if they were the last ones taken.

The filesystem's parameters (`info` and `aux_info`) are `FsInfo`, and `aux_info.bgs` is a function of
the number of the group.  The regions of an allocation are a linked list.  They belong to one
allocation each, so the model keeps them with it: a pointer is a position in
`BlockAllocation.regions`, and `malloc` appends there.

`error` prints a message and, unless the program was started with `force`, ends it: `none`.  This is
also the result of a function that does not return, or uses a pointer that is null or was freed.
-/

namespace Droid.Ext4

/-- The parameters of the filesystem. -/
structure FsInfo where
  block_size : ℕ
  blocks_per_group : ℕ
  bg_desc_reserve_blocks : ℕ
  /-- `feat_ro_compat & EXT4_FEATURE_RO_COMPAT_SPARSE_SUPER`. -/
  sparse_super : Bool
  first_data_block : ℕ
  len_blocks : ℕ
  inode_table_blocks : ℕ
  groups : ℕ
  bg_desc_blocks : ℕ
deriving DecidableEq, Repr

/-- `struct block_group_info`, as far as blocks are concerned. -/
structure BlockGroup where
  first_block : ℕ
  header_blocks : ℕ
  data_blocks_used : ℕ
  block_bitmap : Memory
  free_blocks : ℕ
  first_free_block : ℕ

abbrev Groups := ℕ → BlockGroup

/-- What is returned instead of a block number. -/
def EXT4_ALLOCATE_FAILED : ℕ := 2 ^ 32 - 1

/-! ## Groups with a superblock -/

/-- The loop of `is_power_of`, on fuel. -/
def isPowerOf (b : ℕ) : ℕ → ℕ → Bool
  | 0, a => a == b
  | fuel + 1, a => if a > b then if a % b ≠ 0 then false else isPowerOf b fuel (a / b) else a == b

/-- Returns 1 if a is a power of b. -/
def is_power_of (a b : ℕ) : Bool := isPowerOf b a a

/-- Returns 1 if the bg contains a backup superblock. -/
def ext4_bg_has_super_block (info : FsInfo) (bg : ℕ) : Bool :=
  if !info.sparse_super then true
  else if bg = 0 ∨ bg = 1 then true
  else is_power_of bg 3 || is_power_of bg 5 || is_power_of bg 7

/-! ## Bitmaps -/

/-- The result says whether the bit was set before. -/
def bitmap_set_bit (bitmap : Memory) (bit : ℕ) : Bool × Memory :=
  if Bitmap.bit bitmap bit then (true, bitmap) else (false, Bitmap.set bitmap bit)

/-- The result says whether one of the bits was set before. -/
def bitmap_set_8_bits (bitmap : Memory) (bit : ℕ) : Bool × Memory :=
  (bitmap (bit / 8) != 0, Bitmap.setByte bitmap bit)

/-- One of the loops of `reserve_blocks`, on fuel: while `cond i`, the next `width` blocks are marked.
It is cut short by a block that is reserved already. -/
def reserveLoop (cond : ℕ → Bool) (width : ℕ) (mark : Memory → ℕ → Bool × Memory) (start : ℕ) :
    ℕ → ℕ → Memory → Except Memory (ℕ × Memory)
  | 0, i, bitmap => .ok (i, bitmap)
  | fuel + 1, i, bitmap =>
    if cond i then
      match mark bitmap (start + i) with
      | (true, bitmap) => .error bitmap
      | (false, bitmap) => reserveLoop cond width mark start fuel (i + width) bitmap
    else .ok (i, bitmap)

/-- The three loops of `reserve_blocks`. -/
def reserveBits (bitmap : Memory) (start num : ℕ) : Except Memory (ℕ × Memory) := do
  let (i, bitmap) ← reserveLoop (fun i => i < num ∧ (start + i) % 8 ≠ 0) 1 bitmap_set_bit start num 0
    bitmap
  let (i, bitmap) ← reserveLoop (fun i => i + 8 ≤ num / 8 * 8) 8 bitmap_set_8_bits start num i bitmap
  reserveLoop (fun i => i < num) 1 bitmap_set_bit start num i bitmap

section

variable (info : FsInfo) (force : Bool)

/-- Marks blocks in a block group as used, and accounts for them in the block group free block info.
The result says whether that was possible. -/
def reserve_blocks (bg : BlockGroup) (start num : ℕ) : Option (Bool × BlockGroup) :=
  if num > bg.free_blocks then some (false, bg)
  else match reserveBits bg.block_bitmap start num with
    | .error bitmap => if force then some (false, { bg with block_bitmap := bitmap }) else none
    | .ok (_, bitmap) =>
      some (true, { bg with
        block_bitmap := bitmap
        free_blocks := bg.free_blocks - num
        first_free_block := if start = bg.first_free_block then start + num
          else bg.first_free_block })

def free_blocks (bg : BlockGroup) (num_blocks : ℕ) : BlockGroup :=
  { bg with
    block_bitmap := (List.range num_blocks).foldl
      (fun bitmap i => Bitmap.clear bitmap (bg.first_free_block - 1 - i)) bg.block_bitmap
    free_blocks := bg.free_blocks + num_blocks
    first_free_block := bg.first_free_block - num_blocks }

/-! ## Initialisation -/

/-- A group before anything is reserved in it. -/
def newGroup (i : ℕ) : BlockGroup where
  first_block := toUInt32 (info.first_data_block + i * info.blocks_per_group)
  header_blocks := toUInt32 (2 + info.inode_table_blocks +
    if ext4_bg_has_super_block info i then 1 + info.bg_desc_blocks + info.bg_desc_reserve_blocks
    else 0)
  data_blocks_used := 0
  block_bitmap _ := 0
  free_blocks := info.blocks_per_group
  first_free_block := 0

/-- How `init_bg` ends: the blocks behind the end of the filesystem are reserved, too. -/
def reserveOverrun (bg : BlockGroup) : Option BlockGroup :=
  let overrun := toUInt32 (bg.first_block + info.blocks_per_group + 2 ^ 64 - info.len_blocks)
  if overrun > 0 then
    -- whether that was possible is not looked at
    (reserve_blocks force bg (toUInt32 (info.blocks_per_group + 2 ^ 32 - overrun)) overrun).map
      Prod.snd
  else some bg

def init_bg (i : ℕ) : Option BlockGroup := do
  let bg := newGroup info i
  let (ok, bg) ← reserve_blocks force bg bg.first_free_block bg.header_blocks
  if !ok ∧ !force then none else reserveOverrun info force bg

/-- The groups, one after the other; those behind them are not looked at. -/
def initFrom : ℕ → ℕ → Groups → Option Groups
  | 0, _, bgs => some bgs
  | n + 1, i, bgs => do
    let bg ← init_bg info force i
    initFrom n (i + 1) (Function.update bgs i bg)

def block_allocator_init (bgs : Groups) : Option Groups := initFrom info force info.groups 0 bgs

/-! ## Allocation from groups -/

/-- A run of blocks: `struct region` without the pointers. -/
structure Span where
  block : ℕ
  len : ℕ
  bg : ℕ
deriving DecidableEq, Repr

def ext4_allocate_blocks_from_block_group (bgs : Groups) (len bg_num : ℕ) : Option (ℕ × Groups) :=
  let bg := bgs bg_num
  if bg.free_blocks < len then some (EXT4_ALLOCATE_FAILED, bgs)
  else do
    let block := bg.first_free_block
    let (ok, bg) ← reserve_blocks force bg bg.first_free_block len
    if ok then
      return (toUInt32 (bg.first_block + block),
        Function.update bgs bg_num { bg with data_blocks_used := bg.data_blocks_used + len })
    else if force then return (EXT4_ALLOCATE_FAILED, Function.update bgs bg_num bg)
    else none

/-- The loop over the groups: the first one that has `len` blocks. -/
def contiguousFrom (len : ℕ) : ℕ → ℕ → Groups → Option (Option Span × Groups)
  | 0, _, bgs => some (none, bgs)
  | n + 1, i, bgs => do
    let (block, bgs) ← ext4_allocate_blocks_from_block_group force bgs len i
    if block ≠ EXT4_ALLOCATE_FAILED then return (some ⟨block, len, i⟩, bgs)
    else contiguousFrom len n (i + 1) bgs

def ext4_allocate_contiguous_blocks (bgs : Groups) (len : ℕ) : Option (Option Span × Groups) :=
  contiguousFrom force len info.groups 0 bgs

/-- Allocate a single block and return its block number. -/
def allocate_block (bgs : Groups) : Option (ℕ × Groups) := do
  let (reg, bgs) ← contiguousFrom force 1 info.groups 0 bgs
  return ((reg.map Span.block).getD EXT4_ALLOCATE_FAILED, bgs)

def ext4_allocate_partial (bgs : Groups) (len : ℕ) : Option (Option Span × Groups) :=
  match (List.range info.groups).find? fun i => (bgs i).data_blocks_used = 0 with
  | none => some (none, bgs)
  | some i =>
    let bg_len := (bgs i).free_blocks
    if len ≤ bg_len then
      -- use the regular allocator to try to fit it in a partially used block group
      ext4_allocate_contiguous_blocks info force bgs len
    else do
      let (block, bgs) ← ext4_allocate_blocks_from_block_group force bgs bg_len i
      if block = EXT4_ALLOCATE_FAILED then if force then return (none, bgs) else none
      else return (some ⟨block, bg_len, i⟩, bgs)

/-- The loop of `ext4_allocate_multiple_contiguous_blocks`, on fuel.  A turn that allocates no block
leaves everything as it is, and the loop does not end. -/
def multipleOn : ℕ → Groups → ℕ → Option (Option (List Span) × Groups)
  | _, bgs, 0 => some (some [], bgs)
  | 0, _, _ + 1 => none
  | fuel + 1, bgs, len + 1 => do
    match ← ext4_allocate_partial info force bgs (len + 1) with
    | (none, bgs) => return (none, bgs)
    | (some reg, bgs) =>
      let (regs, bgs) ← multipleOn fuel bgs (len + 1 - reg.len)
      return (regs.map (reg :: ·), bgs)

def ext4_allocate_multiple_contiguous_blocks (bgs : Groups) (len : ℕ) :
    Option (Option (List Span) × Groups) := multipleOn info force len bgs len

/-- The regions, first one first; there are none where the source returns `NULL`. -/
def do_allocate (bgs : Groups) (len : ℕ) : Option (List Span × Groups) := do
  match ← ext4_allocate_contiguous_blocks info force bgs len with
  | (some reg, bgs) => return ([reg], bgs)
  | (none, bgs) =>
    let (regs, bgs) ← ext4_allocate_multiple_contiguous_blocks info force bgs len
    return (regs.getD [], bgs)

/-! ## Allocations -/

/-- `struct region`. -/
structure Region extends Span where
  next : Option ℕ
  prev : Option ℕ
deriving DecidableEq, Repr

structure RegionList where
  first : Option ℕ := none
  last : Option ℕ := none
  iter : Option ℕ := none
  partial_iter : ℕ := 0
deriving DecidableEq, Repr

structure BlockAllocation where
  regions : List Region
  list : RegionList
  oob_list : RegionList
deriving DecidableEq, Repr

/-- The links between the regions that one call allocates. -/
def link (spans : List Span) : List Region :=
  spans.mapIdx fun k span =>
    { span with
      next := if k + 1 < spans.length then some (k + 1) else none
      prev := if k = 0 then none else some (k - 1) }

/-- Allocate len blocks.  The blocks may be spread across multiple block groups, and are returned in a
linked list of the blocks in each block group.  `list.last` is the first region, too. -/
def allocate_blocks (bgs : Groups) (len : ℕ) : Option (Option BlockAllocation × Groups) := do
  match ← do_allocate info force bgs len with
  | ([], bgs) => return (none, bgs)
  | (spans, bgs) =>
    return (some { regions := link spans
                   list := { first := some 0, last := some 0, iter := some 0 }
                   oob_list := {} }, bgs)

end

namespace BlockAllocation

variable (alloc : BlockAllocation)

/-- Change a region. -/
def update (reg : ℕ) (f : Region → Region) : BlockAllocation :=
  { alloc with regions := alloc.regions.modify reg f }

/-- `for (; reg; reg = reg->next)`: the regions that are met, on fuel. -/
def walkOn (regions : List Region) : ℕ → Option ℕ → List Region
  | 0, _ => []
  | fuel + 1, reg =>
    match reg.bind (regions[·]?) with
    | none => []
    | some r => r :: walkOn regions fuel r.next

/-- The regions from a pointer on. -/
def walk (reg : Option ℕ) : List Region :=
  walkOn alloc.regions alloc.regions.length reg

/-- Reduces an existing allocation by len blocks by return the last blocks to the free pool in their
block group. -/
def reduce_allocation (bgs : Groups) (len : ℕ) : Option (BlockAllocation × Groups) :=
  if len = 0 then some (alloc, bgs)
  else do
    let p ← alloc.list.last
    let last_reg ← alloc.regions[p]?
    if last_reg.len > len then
      return (alloc.update p fun r => { r with len := r.len - len },
        Function.update bgs last_reg.bg (free_blocks (bgs last_reg.bg) len))
    -- the loop would go on with a null pointer, or with the region that was just freed
    else if last_reg.len < len then none
    else
      let bgs := Function.update bgs last_reg.bg (free_blocks (bgs last_reg.bg) last_reg.len)
      match last_reg.prev with
      | some reg => return (alloc.update reg fun r => { r with next := none }, bgs)
      | none => return ({ alloc with list := {} }, bgs)

/-- Returns the number of discontiguous regions used by an allocation. -/
def block_allocation_num_regions : ℕ := (alloc.walk alloc.list.first).length

/-! ## Splitting -/

/-- The loop of `do_split_allocation`, on fuel. -/
def splitPoint (regions : List Region) : ℕ → Option ℕ → ℕ → Option ℕ × ℕ
  | 0, reg, len => (reg, len)
  | fuel + 1, reg, len =>
    match reg.bind (regions[·]?) with
    | none => (none, len)
    | some r => if len ≥ r.len then splitPoint regions fuel r.next (len - r.len) else (reg, len)

def do_split_allocation (len : ℕ) : Option (Option ℕ × BlockAllocation) :=
  match splitPoint alloc.regions (alloc.regions.length + 1) alloc.list.iter len with
  | (reg, 0) => some (reg, alloc)
  | (none, _ + 1) => some (none, alloc)
  | (some p, len + 1) => do
    let reg ← alloc.regions[p]?
    let new : Region := { bg := reg.bg
                          block := reg.block + (len + 1)
                          len := reg.len - (len + 1)
                          next := reg.next
                          prev := some p }
    let at_new := alloc.regions.length
    let alloc' := alloc.update p fun r => { r with next := some at_new, len := len + 1 }
    return (alloc.list.iter,
      { alloc' with
        regions := alloc'.regions ++ [new]
        list := { alloc'.list with iter := some at_new } })

/-- Splits an allocation into two allocations.  The returned allocation will point to the first half,
and the original allocation ptr will point to the second half. -/
def split_allocation (len : ℕ) : Option (Option ℕ × BlockAllocation) := do
  let (_, alloc) ← alloc.do_split_allocation alloc.list.partial_iter
  let (middle, alloc) ← alloc.do_split_allocation len
  return (middle, { alloc with list := { alloc.list with partial_iter := 0 } })

/-- Take a region out of the main list. -/
def region_list_remove (reg : ℕ) : Option BlockAllocation := do
  let r ← alloc.regions[reg]?
  let alloc := match r.prev with
    | some prev => alloc.update prev fun s => { s with next := r.next }
    | none => alloc
  let alloc := match r.next with
    | some next => alloc.update next fun s => { s with prev := r.prev }
    | none => alloc
  let list : RegionList :=
    if alloc.list.first = some reg then { alloc.list with first := r.next } else alloc.list
  let list := if list.last = some reg then { list with last := r.prev } else list
  return { alloc.update reg fun s => { s with next := none, prev := none } with list }

/-- Append a region to the list for oob data. -/
def region_list_append (reg : ℕ) : BlockAllocation :=
  let alloc := match alloc.oob_list.first with
    | none =>
      { alloc.update reg fun s => { s with prev := none } with
        oob_list := { first := some reg, last := some reg, iter := some reg } }
    | some _ =>
      let alloc' := match alloc.oob_list.last with
        | some last => alloc.update last fun s => { s with next := some reg }
        | none => alloc
      { alloc'.update reg fun s => { s with prev := alloc.oob_list.last } with
        oob_list := { alloc.oob_list with last := some reg } }
  alloc.update reg fun s => { s with next := none }

/-- The loop of `reserve_oob_blocks`, on fuel. -/
def moveToOob : ℕ → BlockAllocation → Option ℕ → Option BlockAllocation
  | _, alloc, none => some alloc
  | 0, _, some _ => none
  | fuel + 1, alloc, some oob =>
    if alloc.list.iter = some oob then some alloc
    else do
      let next := (← alloc.regions[oob]?).next
      let alloc ← alloc.region_list_remove oob
      moveToOob fuel (alloc.region_list_append oob) next

/-- Reserve the next blocks for oob data (indirect or extent blocks); the result says whether that was
possible. -/
def reserve_oob_blocks (blocks : ℕ) : Option (Bool × BlockAllocation) := do
  match ← alloc.split_allocation blocks with
  | (none, alloc) => return (false, alloc)
  | (some oob, alloc) =>
    let alloc ← moveToOob (alloc.regions.length + 1) alloc (some oob)
    return (true, alloc)

/-- The loop of `get_block` and `get_oob_block`: the block'th block of the regions `regs`. -/
def blockOf : List Region → ℕ → ℕ
  | [], _ => EXT4_ALLOCATE_FAILED
  | reg :: regs, block => if block < reg.len then reg.block + block else blockOf regs (block - reg.len)

def get_oob_block (block : ℕ) : ℕ :=
  blockOf (alloc.walk alloc.oob_list.iter) (block + alloc.oob_list.partial_iter)

end BlockAllocation

end Droid.Ext4
