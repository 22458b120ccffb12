import DroidPlatform.Core.Trace
import DroidPlatform.MemoryDealer.Lemmas.Operations

/-!
# The heap stays partitioned

A run of the allocator is any sequence of allocations of 1 to `2 ^ 32 - 32` bytes, page-aligned or
not, and of deallocations of blocks that are still live.  The state of a run carries next to the
allocator the list of live blocks; the allocator does not see it.

`Sound` ties the two together: the chunks partition the heap, and those in use are the live blocks,
one chunk a block.  Every request keeps it (`Sound.step`), and everything else follows from it:
live blocks are disjoint because chunks are, and once no block is live all chunks are free, so that
only one is left.

**The empty heap.**  A heap of size 0, and one whose size wraps to 0 when it is rounded up to whole
pages, consists of one free chunk of size 0.  It serves no request, but it is not a partition into
non-empty pieces (`construct_zero_chunks`).
-/

namespace Droid

open List Option

namespace SimpleBestFitAllocator

/-! ## Sizes and alignments -/

lemma heapSize_eq (size : ℕ) : heapSize size = toUInt32 (size + 4095) / 2 ^ 12 * 2 ^ 12 := by
  have hlt := toUInt32_lt (size + 4095)
  have hmask : 2 ^ 32 - 1 - (getpagesize - 1) = (2 ^ 20 - 1) <<< 12 := by decide
  rw [heapSize, hmask, ← Nat.shiftRight_eq_div_pow, ← Nat.shiftLeft_eq]
  refine Nat.eq_of_testBit_eq fun i => ?_
  rw [Nat.testBit_and, Nat.testBit_shiftLeft, Nat.testBit_shiftLeft, Nat.testBit_two_pow_sub_one]
  by_cases hi : 12 ≤ i
  · by_cases hi' : i < 32
    · simp [getpagesize, hi, show i - 12 < 20 by omega]
    · have hbit : (toUInt32 (size + 4095)).testBit i = false :=
        Nat.testBit_lt_two_pow (hlt.trans_le (Nat.pow_le_pow_right (by norm_num) (by omega)))
      simp [getpagesize, hi, hbit]
  · simp [hi]

lemma heapSize_lt (size : ℕ) : heapSize size < 2 ^ 32 := by
  have := toUInt32_lt (size + 4095)
  rw [heapSize_eq]
  omega

/-- The heap is a whole number of units. -/
lemma units_mul_kMemoryAlign (size : ℕ) :
    heapSize size / kMemoryAlign * kMemoryAlign = heapSize size := by
  rw [heapSize_eq, kMemoryAlign]
  omega

lemma units_lt (size : ℕ) : heapSize size / kMemoryAlign < 2 ^ 27 := by
  have := heapSize_lt size
  rw [kMemoryAlign]
  omega

/-- Skipping `extraOf` units reaches a page boundary. -/
lemma pageAligned_start {flags : ℕ} (hflags : flags &&& pageAligned ≠ 0) (start : ℕ) :
    (start + extraOf flags start) * kMemoryAlign % getpagesize = 0 := by
  have hmask : getpagesize / kMemoryAlign - 1 = 2 ^ 7 - 1 := by decide
  rw [extraOf, if_pos hflags, hmask, Nat.and_two_pow_sub_one_eq_mod, toWord, kMemoryAlign,
    getpagesize]
  omega

lemma toWord_toInt32 {n : ℕ} (h : n < 2 ^ 32) : toWord (toInt32 n) = n := by
  have hmod : toInt32 n % 2 ^ 32 = n % 2 ^ 32 := Int.bmod_emod
  rw [toWord]
  omega

/-- An offset is never mistaken for the error code. -/
lemma offset_ne_noMemory (start : ℕ) : toInt32 (start * kMemoryAlign : ℕ) ≠ Status.noMemory := by
  intro h
  have hmod : toInt32 (start * kMemoryAlign : ℕ) % 2 ^ 32 = (start * kMemoryAlign) % 2 ^ 32 :=
    Int.bmod_emod
  rw [h, Status.noMemory, kMemoryAlign] at hmod
  omega

/-! ## Runs -/

/-- A block that was handed out and not given back. -/
structure LiveBlock where
  offset : ℕ
  size : ℕ
  flags : ℕ
  deriving DecidableEq, Repr

/-- The chunk behind a block. -/
def LiveBlock.chunk (b : LiveBlock) : Chunk := ⟨b.offset / kMemoryAlign, unitsOf b.size, false⟩

/-- The bytes of two blocks do not overlap. -/
def LiveBlock.Disjoint (b b' : LiveBlock) : Prop :=
  b.offset + b.size ≤ b'.offset ∨ b'.offset + b'.size ≤ b.offset

structure HeapState where
  allocator : SimpleBestFitAllocator
  live : List LiveBlock

/-- The state after construction. -/
def HeapState.initial (size : ℕ) : HeapState := ⟨construct size, []⟩

inductive Request where
  | alloc (size flags : ℕ)
  | dealloc (b : LiveBlock)

inductive Step : HeapState → Request → HeapState → Prop
  | alloc {s size flags a r} (hpos : 0 < size) (hle : size ≤ 2 ^ 32 - 32)
      (h : s.allocator.alloc size flags = some (a, r)) :
      Step s (.alloc size flags)
        ⟨a, if r = Status.noMemory then s.live else ⟨toWord r, size, flags⟩ :: s.live⟩
  | dealloc {s b a freed} (hlive : b ∈ s.live)
      (h : s.allocator.dealloc b.offset = some (a, freed)) :
      Step s (.dealloc b) ⟨a, s.live.erase b⟩

/-- Give back the blocks at these offsets. -/
def deallocAll (a : SimpleBestFitAllocator) : List ℕ → Option SimpleBestFitAllocator
  | [] => some a
  | offset :: offsets => (a.dealloc offset).bind fun r => r.1.deallocAll offsets

/-! ## The invariant -/

/-- How a live block lies in the heap. -/
structure LiveBlock.Placed (b : LiveBlock) : Prop where
  pos : 0 < b.size
  le : b.size ≤ 2 ^ 32 - 32
  aligned : b.offset % kMemoryAlign = 0
  pageAligned : b.flags &&& pageAligned ≠ 0 → b.offset % getpagesize = 0

structure Sound (size : ℕ) (s : HeapState) : Prop where
  nodes : ∃ ns, s.allocator.Holds ns
  heap : s.allocator.mHeapSize = heapSize size
  chunks : heapSize size ≠ 0 ∧ Partition (heapSize size / kMemoryAlign) s.allocator.chunks ∨
    heapSize size = 0 ∧ s.allocator.chunks = [⟨0, 0, true⟩]
  live : (inUse s.allocator.chunks).Perm (s.live.map LiveBlock.chunk)
  placed : ∀ b ∈ s.live, b.Placed

namespace Sound

variable {size : ℕ} {s : HeapState}

section

variable (h : Sound size s)

include h

lemma tiles : Tiles 0 s.allocator.chunks (heapSize size / kMemoryAlign) := by
  rcases h.chunks with ⟨-, hpart⟩ | ⟨hzero, hchunks⟩
  · exact hpart.tiles
  · rw [hzero, hchunks]
    exact ⟨rfl, rfl⟩

lemma coalesced : Coalesced s.allocator.chunks := by
  rcases h.chunks with ⟨-, hpart⟩ | ⟨-, hchunks⟩
  · exact hpart.coalesced
  · rw [hchunks]
    exact isChain_singleton _

/-- A live block sits in a chunk of its own. -/
lemma mem_chunks {b : LiveBlock} (hb : b ∈ s.live) : b.chunk ∈ s.allocator.chunks :=
  mem_of_mem_filter (h.live.mem_iff.mpr (mem_map_of_mem hb))

lemma size_le {b : LiveBlock} (hb : b ∈ s.live) :
    b.offset = b.chunk.start * kMemoryAlign ∧ b.size ≤ b.chunk.size * kMemoryAlign := by
  have hplaced := h.placed b hb
  have hsize := unitsOf_eq hplaced.le
  have haligned := hplaced.aligned
  simp only [LiveBlock.chunk, kMemoryAlign] at haligned ⊢
  omega

/-- The chunk that serves a request is carved out of a partition, never out of the empty heap. -/
lemma partition_of_adequate {units flags : ℕ} {c : Chunk} (hunits : 0 < units)
    (hc : c ∈ s.allocator.chunks) (hadequate : Adequate units flags c) :
    heapSize size ≠ 0 ∧ Partition (heapSize size / kMemoryAlign) s.allocator.chunks := by
  rcases h.chunks with hpart | ⟨-, hchunks⟩
  · exact hpart
  · rw [hchunks, mem_singleton] at hc
    subst hc
    have : units + extraOf flags 0 ≤ 0 := hadequate.2
    omega

lemma alloc {n flags : ℕ} {a : SimpleBestFitAllocator} {r : ℤ} (hpos : 0 < n)
    (hle : n ≤ 2 ^ 32 - 32) (halloc : s.allocator.alloc n flags = some (a, r)) :
    Sound size
      ⟨a, if r = Status.noMemory then s.live else ⟨toWord r, n, flags⟩ :: s.live⟩ := by
  obtain ⟨ns, hholds⟩ := h.nodes
  have hunits : 0 < unitsOf n := by rw [unitsOf_eq hle]; omega
  obtain ⟨a', r', halloc', hheap, hcase⟩ := alloc_spec flags hholds h.tiles
    (units_lt size) hpos hle
  obtain ⟨rfl, rfl⟩ : a = a' ∧ r = r' := by simpa [halloc] using halloc'
  rcases hcase with ⟨-, rfl, hr⟩ | ⟨pre, c, post, hchunks, hc, -, hnodes, hchunks', hr⟩
  · rw [if_pos hr]
    exact ⟨h.nodes, h.heap, h.chunks, h.live, h.placed⟩
  · obtain ⟨hne, hpart⟩ := h.partition_of_adequate hunits (by simp [hchunks]) hc
    rw [hchunks] at hpart
    -- the block lies inside the heap, so that its offset is a `size_t`
    have hstart : (block (unitsOf n) flags c).start < 2 ^ 27 := by
      have hmem := (hpart.tiles.mem_le (show c ∈ pre ++ c :: post by simp)).2
      have := units_lt size
      have hsize := hc.2
      show c.start + extraOf flags c.start < 2 ^ 27
      omega
    have hword : toWord r = (block (unitsOf n) flags c).start * kMemoryAlign := by
      rw [hr, toWord_toInt32 (by rw [kMemoryAlign]; omega)]
    have hchunk : LiveBlock.chunk ⟨toWord r, n, flags⟩ = block (unitsOf n) flags c := by
      rw [LiveBlock.chunk, hword, Nat.mul_div_cancel _ (by decide)]
      rfl
    have hne : r ≠ Status.noMemory := hr ▸ offset_ne_noMemory _
    rw [if_neg hne]
    refine ⟨hnodes, hheap.trans h.heap, .inl ⟨‹_›, ?_⟩, ?_, ?_⟩
    · rw [hchunks']
      exact hpart.carve hunits hc
    · have hlive := h.live
      rw [hchunks, inUse_append, inUse_cons_of_free hc.1] at hlive
      simp only [hchunks', inUse_append, inUse_carve, append_assoc, map_cons, hchunk]
      exact perm_middle.trans (hlive.cons _)
    · intro b hb
      rcases mem_cons.mp hb with rfl | hb
      · refine ⟨hpos, hle, ?_, fun hflags => ?_⟩
        · show toWord r % kMemoryAlign = 0
          rw [hword]
          exact Nat.mul_mod_left _ _
        · show toWord r % getpagesize = 0
          rw [hword]
          exact pageAligned_start hflags c.start
      · exact h.placed b hb

/-- Deallocating a live block returns, and keeps the invariant. -/
lemma exists_dealloc {b : LiveBlock} (hb : b ∈ s.live) :
    ∃ a freed, s.allocator.dealloc b.offset = some (a, some freed) ∧
      Sound size ⟨a, s.live.erase b⟩ := by
  obtain ⟨ns, hholds⟩ := h.nodes
  have hmem := h.mem_chunks hb
  obtain ⟨hne, hpart⟩ : heapSize size ≠ 0 ∧
      Partition (heapSize size / kMemoryAlign) s.allocator.chunks := by
    rcases h.chunks with hpart | ⟨-, hchunks⟩
    · exact hpart
    · rw [hchunks, mem_singleton] at hmem
      exact absurd (congrArg Chunk.free hmem) Bool.false_ne_true
  have hlt := units_lt size
  obtain ⟨a, freed, pre, post, hdealloc, hheap, hchunks, hnodes, hchunks'⟩ :=
    dealloc_spec hholds hpart (by omega) hmem
  rw [← (h.size_le hb).1] at hdealloc
  rw [hchunks] at hpart
  refine ⟨a, freed, hdealloc, hnodes, hheap.trans h.heap, .inl ⟨hne, ?_⟩, ?_, ?_⟩
  · rw [hchunks']
    exact hpart.coalesce
  · have hlive := h.live.trans ((perm_cons_erase hb).map LiveBlock.chunk)
    rw [hchunks, inUse_append] at hlive
    rw [hchunks', hpart.inUse_coalesce]
    exact (perm_middle.symm.trans hlive).cons_inv
  · exact fun b' hb' => h.placed b' (mem_of_mem_erase hb')

/-- **Every request keeps the invariant.** -/
theorem step {s' : HeapState} {e : Request} (hstep : Step s e s') : Sound size s' := by
  cases hstep with
  | alloc hpos hle halloc => exact h.alloc hpos hle halloc
  | dealloc hlive hdealloc =>
    obtain ⟨a, freed, hdealloc', hsound⟩ := h.exists_dealloc hlive
    rw [hdealloc, some.injEq, Prod.mk.injEq] at hdealloc'
    rw [hdealloc'.1]
    exact hsound

/-! ## What the invariant says -/

lemma disjoint : s.live.Pairwise LiveBlock.Disjoint := by
  have hchunks : (inUse s.allocator.chunks).Pairwise fun c d =>
      c.start + c.size ≤ d.start ∨ d.start + d.size ≤ c.start :=
    (h.tiles.pairwise.filter _).imp .inl
  have hlive := (h.live.pairwise_iff fun hcd => hcd.symm).mp hchunks
  refine (pairwise_map.mp hlive).imp_of_mem fun {b b'} hb hb' hdisj => ?_
  obtain ⟨hoffset, hsize⟩ := h.size_le hb
  obtain ⟨hoffset', hsize'⟩ := h.size_le hb'
  rw [kMemoryAlign] at hoffset hsize hoffset' hsize'
  rw [LiveBlock.Disjoint]
  omega

/-- A live block ends inside the heap. -/
lemma inside {b : LiveBlock} (hb : b ∈ s.live) : b.offset + b.size ≤ heapSize size := by
  obtain ⟨hoffset, hsize⟩ := h.size_le hb
  have hmem := (h.tiles.mem_le (h.mem_chunks hb)).2
  have hunits := units_mul_kMemoryAlign size
  rw [kMemoryAlign] at hoffset hsize hmem hunits
  omega

lemma chunks_of_nil (hnil : s.live = []) :
    s.allocator.chunks = [⟨0, heapSize size / kMemoryAlign, true⟩] := by
  rcases h.chunks with ⟨hne, hpart⟩ | ⟨hzero, hchunks⟩
  · have hunits := units_mul_kMemoryAlign size
    refine hpart.eq_singleton (pos_of_ne_zero fun hzero => hne ?_) ?_
    · rw [← hunits, hzero, zero_mul]
    · have hlive := h.live
      rw [hnil] at hlive
      exact hlive.eq_nil
  · rw [hchunks, hzero, Nat.zero_div]

end

/-- Giving back all live blocks, in any order, leaves one free chunk. -/
lemma deallocAll {order : List LiveBlock} : ∀ {s : HeapState}, Sound size s → order.Perm s.live →
    ∃ a, s.allocator.deallocAll (order.map LiveBlock.offset) = some a ∧
      a.chunks = [⟨0, heapSize size / kMemoryAlign, true⟩] := by
  induction order with
  | nil =>
    intro s h hperm
    exact ⟨s.allocator, rfl, h.chunks_of_nil hperm.nil_eq.symm⟩
  | cons b order ih =>
    intro s h hperm
    obtain ⟨hb, hrest⟩ := cons_perm_iff_perm_erase.mp hperm
    obtain ⟨a, freed, hdealloc, hsound⟩ := h.exists_dealloc hb
    obtain ⟨a', hall, hchunks⟩ := ih hsound hrest
    exact ⟨a', by simpa [SimpleBestFitAllocator.deallocAll, hdealloc] using hall, hchunks⟩

end Sound

/-! ## The result -/

/-- Take a step of a run, if the request is a proper one. -/
def HeapState.next (s : HeapState) : Request → Option (Request × HeapState)
  | .alloc size flags => do
    if 0 < size ∧ size ≤ 2 ^ 32 - 32 then
      let (a, r) ← s.allocator.alloc size flags
      return (.alloc size flags,
        ⟨a, if r = Status.noMemory then s.live else ⟨toWord r, size, flags⟩ :: s.live⟩)
    else none
  | .dealloc b => do
    if b ∈ s.live then
      let (a, _) ← s.allocator.dealloc b.offset
      return (.dealloc b, ⟨a, s.live.erase b⟩)
    else none

/-- The bytes `[offset, offset + size)` lie in a heap of `total` bytes, in a chunk that is in use. -/
def Reserved (a : SimpleBestFitAllocator) (total offset size : ℕ) : Prop :=
  offset + size ≤ total ∧ ∃ c ∈ a.chunks, c.free = false ∧
    c.start * kMemoryAlign ≤ offset ∧ offset + size ≤ (c.start + c.size) * kMemoryAlign

end SimpleBestFitAllocator

end Droid
