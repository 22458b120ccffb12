import DroidPlatform.Core.LinkedList
import DroidPlatform.Core.Word
import DroidPlatform.Errors

/-!
# `SimpleBestFitAllocator`

The allocator behind `MemoryDealer` hands out offsets into one shared heap.  Its book-keeping is a
doubly linked list of chunks, each a run of 32-byte units that is either free or in use:

* `alloc` walks the list for the smallest free chunk that can hold the request, cuts an aligning
  piece off its front and the rest off its back, and returns the byte offset of what is left;
* `dealloc` finds the chunk that starts at the offset, frees it and folds free neighbours together.

Chunks live at addresses.  `chunk` is the memory the chunks live in, an address that was never
handed out by `new` or was given back by `delete` holds nothing, and touching it makes the whole
operation `none`.  So does a loop that outlasts its fuel: the loops get one unit for every address
that `new` ever returned.
-/

namespace Droid

/-- `getpagesize()`. -/
def getpagesize : ℕ := 4096

namespace SimpleBestFitAllocator

/-- All blocks are aligned on a cache line. -/
def kMemoryAlign : ℕ := 32

/-- The flag that asks for a page-aligned block. -/
def pageAligned : ℕ := 0x00000001

/-- `chunk_t`, its links apart: the links are fields of the list. -/
structure Chunk where
  start : ℕ
  /-- A bit field of 28 bits. -/
  size : ℕ
  free : Bool
  deriving DecidableEq, Repr

/-- The constructor of `chunk_t`. -/
def Chunk.mk' (start size : ℕ) : Chunk := ⟨start, size % 2 ^ 28, true⟩

end SimpleBestFitAllocator

open SimpleBestFitAllocator in
structure SimpleBestFitAllocator where
  mList : LinkedList ℕ
  mHeapSize : ℕ
  /-- The chunk at an address. -/
  chunk : ℕ → Option Chunk
  /-- The address that `new` returns next. -/
  fresh : ℕ

namespace SimpleBestFitAllocator

/-! ## Memory -/

/-- `*p = c` -/
def setChunk (a : SimpleBestFitAllocator) (p : ℕ) (c : Chunk) : SimpleBestFitAllocator :=
  { a with chunk := Function.update a.chunk p (some c) }

/-- `new chunk_t(start, size)`; the chunk is at the address `fresh` from before. -/
def newChunk (a : SimpleBestFitAllocator) (start size : ℕ) : SimpleBestFitAllocator :=
  { a.setChunk a.fresh (.mk' start size) with fresh := a.fresh + 1 }

/-- `delete p` -/
def deleteChunk (a : SimpleBestFitAllocator) (p : ℕ) : SimpleBestFitAllocator :=
  { a with chunk := Function.update a.chunk p none }

/-! ## Construction -/

/-- The size of the heap: the size asked for, rounded up to whole pages. -/
def heapSize (size : ℕ) : ℕ :=
  toUInt32 (size + getpagesize - 1) &&& (2 ^ 32 - 1 - (getpagesize - 1))

/-- `SimpleBestFitAllocator(size)` -/
def construct (size : ℕ) : SimpleBestFitAllocator :=
  let empty : SimpleBestFitAllocator :=
    ⟨⟨none, none, fun _ => none, fun _ => none⟩, heapSize size, fun _ => none, 0⟩
  let a := empty.newChunk 0 (heapSize size / kMemoryAlign)
  { a with mList := a.mList.insertHead empty.fresh }

/-! ## Allocation -/

/-- The units to skip at the start of a chunk. -/
def extraOf (flags start : ℕ) : ℕ :=
  if flags &&& pageAligned ≠ 0 then toWord (-start) &&& (getpagesize / kMemoryAlign - 1) else 0

/-- `!free_chunk || cur->size < free_chunk->size` -/
def isBetter (a : SimpleBestFitAllocator) (c : Chunk) : Option ℕ → Option Bool
  | none => some true
  | some best => (a.chunk best).map fun b => decide (c.size < b.size)

/-- The best-fit loop of `alloc`: `cur` is where the walk is, `freeChunk` the best so far. -/
def bestFit (a : SimpleBestFitAllocator) (size flags : ℕ) :
    ℕ → Option ℕ → Option ℕ → Option (Option ℕ)
  | _, none, freeChunk => some freeChunk
  | 0, some _, _ => none
  | fuel + 1, some cur, freeChunk => do
    let c ← a.chunk cur
    if c.free ∧ toUInt32 (size + extraOf flags c.start) ≤ c.size then
      let better ← a.isBetter c freeChunk
      let freeChunk := if better then some cur else freeChunk
      if c.size = size then some freeChunk
      else a.bestFit size flags fuel (a.mList.next cur) freeChunk
    else a.bestFit size flags fuel (a.mList.next cur) freeChunk

/-- Cut the aligning piece off the front of the chunk at `p`. -/
def splitFront (a : SimpleBestFitAllocator) (p : ℕ) (c : Chunk) (extra : ℕ) :
    SimpleBestFitAllocator × Chunk :=
  if extra ≠ 0 then
    let split := a.fresh
    let a := a.newChunk c.start extra
    let c := { c with start := toUInt32 (c.start + extra) }
    let a := a.setChunk p c
    ({ a with mList := a.mList.insertBefore p split }, c)
  else (a, c)

/-- Cut what is left over off the back of the chunk at `p`. -/
def splitTail (a : SimpleBestFitAllocator) (p : ℕ) (c : Chunk) (tailFree : ℤ) :
    SimpleBestFitAllocator :=
  if 0 < tailFree then
    let split := a.fresh
    let a := a.newChunk (toUInt32 (c.start + c.size)) tailFree.toNat
    { a with mList := a.mList.insertAfter p split }
  else a

/-- Put the free chunk `c` at `p` to use; returns where the block starts. -/
def takeChunk (a : SimpleBestFitAllocator) (p : ℕ) (c : Chunk) (size flags : ℕ) :
    SimpleBestFitAllocator × ℕ :=
  let freeSize := c.size
  let c := { c with free := false, size := size % 2 ^ 28 }
  let a := a.setChunk p c
  if freeSize > size then
    let extra := extraOf flags c.start
    let (a, c) := a.splitFront p c extra
    (a.splitTail p c (toInt32 (freeSize - (size + extra))), c.start)
  else (a, c.start)

/-- The size of a request in units. -/
def unitsOf (size : ℕ) : ℕ := toUInt32 (size + kMemoryAlign - 1) / kMemoryAlign

variable (a : SimpleBestFitAllocator)

/-- `ssize_t alloc(size, flags)` -/
def alloc (size flags : ℕ) : Option (SimpleBestFitAllocator × ℤ) :=
  if size = 0 then some (a, 0)
  else do
    let size := unitsOf size
    match ← a.bestFit size flags a.fresh a.mList.mFirst none with
    | some p =>
      let c ← a.chunk p
      let (a, start) := a.takeChunk p c size flags
      return (a, toInt32 (start * kMemoryAlign))
    | none => return (a, Status.noMemory)

/-! ## Deallocation -/

/-- The search loop of `dealloc`. -/
def findStart (a : SimpleBestFitAllocator) (start : ℕ) : ℕ → Option ℕ → Option (Option ℕ)
  | _, none => some none
  | 0, some _ => none
  | fuel + 1, some cur => do
    let c ← a.chunk cur
    if c.start = start then some (some cur) else a.findStart start fuel (a.mList.next cur)

/-- One turn of the merging loop: fold the chunk at `cur` into the one before it. -/
def mergeBack (a : SimpleBestFitAllocator) (cur freed : ℕ) :
    Option (SimpleBestFitAllocator × ℕ) := do
  match a.mList.prev cur with
  | none => return (a, freed)
  | some p =>
    let c ← a.chunk cur
    let pc ← a.chunk p
    if pc.free ∨ c.size = 0 then
      let a := a.setChunk p { pc with size := (pc.size + c.size) % 2 ^ 28 }
      let a := { a with mList := a.mList.remove cur }
      return (a.deleteChunk cur, p)
    else return (a, freed)

/-- The merging loop of `dealloc`. -/
def mergeFreed : ℕ → SimpleBestFitAllocator → ℕ → ℕ → Option (SimpleBestFitAllocator × ℕ)
  | 0, _, _, _ => none
  | fuel + 1, a, cur, freed => do
    let n := a.mList.next cur
    let (a, freed) ← a.mergeBack cur freed
    match n with
    | none => return (a, freed)
    | some cur =>
      let c ← a.chunk cur
      if c.free then mergeFreed fuel a cur freed else return (a, freed)

/-- `chunk_t* dealloc(start)` -/
def dealloc (a : SimpleBestFitAllocator) (start : ℕ) :
    Option (SimpleBestFitAllocator × Option ℕ) := do
  let start := start / kMemoryAlign
  match ← a.findStart start a.fresh a.mList.mFirst with
  | none => return (a, none)
  | some cur =>
    let c ← a.chunk cur
    let a := a.setChunk cur { c with free := true }
    let (a, freed) ← mergeFreed a.fresh a cur cur
    return (a, some freed)

/-- `status_t deallocate(offset)` -/
def deallocate (offset : ℕ) : Option (SimpleBestFitAllocator × Status) := do
  let (a, freed) ← a.dealloc offset
  return (a, if freed.isSome then Status.ok else Status.nameNotFound)

/-! ## The chunk list -/

/-- The chunks from a pointer on, as a walk along `next` finds them. -/
def chunksFrom (a : SimpleBestFitAllocator) : ℕ → Option ℕ → List Chunk
  | _, none => []
  | 0, some _ => []
  | fuel + 1, some p =>
    match a.chunk p with
    | none => []
    | some c => c :: a.chunksFrom fuel (a.mList.next p)

/-- The chunks of the list, in list order. -/
def chunks : List Chunk := a.chunksFrom a.fresh a.mList.mFirst

end SimpleBestFitAllocator

end Droid
