import DroidPlatform.Core.Word
import DroidPlatform.Lk.DualCache

/-!
# Collecting a boot image

The image of a boot partition is not stored while it arrives.  `write_to_emmc` collects its packages
behind the two caches, at `boot_like_image_address`, and `write_storage_proc` copies the whole to
`download_base` when the caches are not needed any more.  `cmd_download` has made sure that there are
`MEMORY_SIZE_REQ` bytes, which leaves `BOOT_LIKE_IMAGE_SIZE` bytes for the image; but nobody compares
the length of the image with that.

Addresses are relative to `download_base`.  The size of a cache page is a variable of the source, and
the sizes are computed in 32 bits.
-/

namespace Droid.Lk

def BOOT_LIKE_IMAGE_SIZE : ℕ := 18 * 1024 * 1024

section

variable (page : ℕ)

def DCACHE_SIZE : ℕ := toUInt32 (2 * page + 2 * CACHE_PADDING_SIZE)

def MEMORY_SIZE_REQ : ℕ :=
  if DCACHE_SIZE page > BOOT_LIKE_IMAGE_SIZE then toUInt32 (DCACHE_SIZE page + BOOT_LIKE_IMAGE_SIZE)
  else 2 * BOOT_LIKE_IMAGE_SIZE

def BOOT_IMG_ADDR_OFFSET : ℕ :=
  if DCACHE_SIZE page > BOOT_LIKE_IMAGE_SIZE then DCACHE_SIZE page else BOOT_LIKE_IMAGE_SIZE

/-- The tests of `cmd_download` for the way through the two caches. -/
structure Accepts (download_max available_memory len : ℕ) : Prop where
  len_le : len ≤ download_max
  page_le : page ≤ len
  memory : MEMORY_SIZE_REQ page ≤ available_memory

/-- A piece of memory: where it begins and how long it is. -/
structure Piece where
  start : ℕ
  len : ℕ
  deriving DecidableEq, Repr

/-- Where `write_to_emmc` puts packages of these lengths, from an `offset` on. -/
def collect (offset : ℕ) : List ℕ → List Piece
  | [] => []
  | length :: lengths =>
    ⟨BOOT_IMG_ADDR_OFFSET page + offset, length⟩ :: collect (offset + length) lengths

/-- The two sides of the last copy, of `to_write_data_len` bytes. -/
def copySource (len : ℕ) : Piece := ⟨BOOT_IMG_ADDR_OFFSET page, len⟩

def copyTarget (len : ℕ) : Piece := ⟨0, len⟩

def Piece.Inside (p : Piece) : Prop := p.start + p.len ≤ MEMORY_SIZE_REQ page

/-- **Within bounds**: everything is in the memory that was asked for, and the copy does not overlap
itself. -/
structure InBounds (len : ℕ) (lengths : List ℕ) : Prop where
  collected : ∀ p ∈ collect page 0 lengths, p.Inside page
  source : (copySource page len).Inside page
  target : (copyTarget len).Inside page
  disjoint : (copyTarget len).start + len ≤ (copySource page len).start

end

variable {page len : ℕ}

lemma collect_le {offset : ℕ} {lengths : List ℕ} {p : Piece} (hp : p ∈ collect page offset lengths) :
    p.start + p.len ≤ BOOT_IMG_ADDR_OFFSET page + offset + lengths.sum := by
  induction lengths generalizing offset with
  | nil => simp [collect] at hp
  | cons length lengths ih =>
    rw [List.sum_cons]
    rcases List.mem_cons.mp hp with rfl | hp
    · show BOOT_IMG_ADDR_OFFSET page + offset + length ≤ _
      omega
    · have := ih hp
      omega

/-- **A boot image is collected within bounds** exactly if it is not longer than 18 MiB and the size
asked for does not wrap.  The packages are those of an image of `len` bytes, or less where the
security check takes something away. -/
theorem inBounds_iff {lengths : List ℕ} (hsum : lengths.sum ≤ len) :
    InBounds page len lengths ↔ len ≤ BOOT_LIKE_IMAGE_SIZE ∧
      (DCACHE_SIZE page ≤ BOOT_LIKE_IMAGE_SIZE ∨
        DCACHE_SIZE page + BOOT_LIKE_IMAGE_SIZE < 2 ^ 32) := by
  have hmemory : BOOT_IMG_ADDR_OFFSET page + len ≤ MEMORY_SIZE_REQ page ↔
      len ≤ BOOT_LIKE_IMAGE_SIZE ∧ (DCACHE_SIZE page ≤ BOOT_LIKE_IMAGE_SIZE ∨
        DCACHE_SIZE page + BOOT_LIKE_IMAGE_SIZE < 2 ^ 32) := by
    have hlt : DCACHE_SIZE page < 2 ^ 32 := toUInt32_lt _
    rw [BOOT_IMG_ADDR_OFFSET, MEMORY_SIZE_REQ, toUInt32]
    split_ifs <;> simp only [BOOT_LIKE_IMAGE_SIZE] at * <;> omega
  rw [← hmemory]
  constructor
  · intro h
    simpa only [Piece.Inside, copySource] using h.source
  · intro hroom
    have hlen := (hmemory.mp hroom).1
    refine ⟨fun p hp => ?_, ?_, ?_, ?_⟩ <;> simp only [Piece.Inside, copySource, copyTarget]
    · have := collect_le hp
      omega
    · exact hroom
    · omega
    · rw [BOOT_IMG_ADDR_OFFSET]
      split_ifs <;> omega

/-- The default page, and an image of 18 MiB in two packages. -/
theorem inBounds_iff_largest :
    InBounds 0x1000000 BOOT_LIKE_IMAGE_SIZE [0x1000000, 0x200000] :=
  (inBounds_iff (by decide)).mpr (by decide)

/-- One byte more, and the last package ends behind the memory. -/
theorem collect_overruns : Accepts 0x1000000 0x8000000 0x8000000 (BOOT_LIKE_IMAGE_SIZE + 1) ∧
    collect 0x1000000 0 [0x1000000, 0x200001] = [⟨0x2000400, 0x1000000⟩, ⟨0x3000400, 0x200001⟩] ∧
    MEMORY_SIZE_REQ 0x1000000 = 0x3200400 :=
  ⟨⟨by decide, by decide, by decide⟩, by decide, by decide⟩

end Droid.Lk
