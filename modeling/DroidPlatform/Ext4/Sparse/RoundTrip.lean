import DroidPlatform.Ext4.Sparse.Lemmas.Chunks

/-!
# Sparse images and back

A queue of data blocks describes an image: the queued bytes at their offsets, and zeros elsewhere
(`imageByte`).  `write_ext4_image` writes it as a sparse image, `simg2img` expands that again.  What
comes out is the image (`sparse_round_trip_iff`), with one exception: `total_chunks` is a 32-bit
number.  An image of fewer than `2^32` blocks has fewer than `2^32` chunks for its data, but together
with the checksum there can be `2^32` of them, and then the header says that there are none.
-/

namespace Droid.Ext4

open List Nat DataBlock

variable {info : ImageInfo} {q : List DataBlock}

/-- A queue for an image: sorted, without overlap, made of blocks of positive length that end before
the end of the filesystem, and of fills of whole filesystem blocks. -/
structure Queued (info : ImageInfo) (q : List DataBlock) : Prop where
  order : q.Pairwise fun a b => a.stop info ≤ b.off info
  pos : ∀ b ∈ q, 0 < b.len
  len : ∀ b ∈ q, b.len < 2 ^ 30
  stop : ∀ b ∈ q, b.stop info < info.len
  fill : ∀ b ∈ q, b.isFill = true → info.block_size ∣ b.len

/-- The sparse image is a header and as many chunks as it says, and expands to the image. -/
def RoundTrips (info : ImageInfo) (force crc : Bool) (q : List DataBlock) (stack : Memory) : Prop :=
  ∃ (f : OutFile) (chunks : List Chunk) (out : OutFile),
    write_ext4_image info force q true crc = some f ∧
    f.contents.drop SPARSE_HEADER_LEN = chunks.flatMap Chunk.encode ∧
    (SparseHeader.decode (f.contents.take SPARSE_HEADER_LEN)).total_chunks = chunks.length ∧
    Simg2img.main stack f.contents = some out ∧
    out.contents = Memory.slice (imageByte info q) 0 info.len

namespace Queued

lemma laid (h : info.Proper) (hq : Queued info q) : Laid info 0 q := by
  refine laid_of_pairwise h hq.order (fun b hb => ?_) fun b _ => zero_le _
  have := hq.len b hb
  exact ⟨hq.pos b hb, by rw [maxWrite]; omega, (hq.stop b hb).le, fun _ => hq.stop b hb⟩

lemma zeroTail (h : info.Proper) (hq : Queued info q) : ∀ b ∈ q, b.ZeroTail info := by
  intro b hb
  cases hfill : b.isFill with
  | true =>
    -- a fill has no tail
    intro j hle hlt
    rw [align_eq_self h (hq.fill b hb hfill)] at hlt
    omega
  | false => exact zeroTail_of_not_fill hfill

end Queued

lemma not_roundTrips_of_le (h : info.Proper) (hq : Queued info q) {force crc : Bool} {stack : Memory}
    (hcount : 2 ^ 32 ≤ q.length + gapCount info 0 q + crc.toNat) :
    ¬ RoundTrips info force crc q stack := by
  rintro ⟨f, chunks, out, hwrite, -, -, hmain, -⟩
  have hlaid := hq.laid h
  rw [← length_dataChunks] at hcount
  rw [write_sparse_image h hlaid] at hwrite
  cases hwrite
  rw [OutFile.contents_empty_write, Simg2img.main_of_wrap stack h hlaid hcount] at hmain
  cases hmain

/-- **The round trip.**  For every filesystem and every queue in order, with or without checksum: the
sparse image has as many chunks as its header says and expands to the image, exactly when there are
fewer than `2^32` chunks. -/
theorem sparse_round_trip_iff (h : info.Proper) (hq : Queued info q) (force crc : Bool)
    (stack : Memory) : RoundTrips info force crc q stack ↔
      q.length + gapCount info 0 q + crc.toNat < 2 ^ 32 := by
  refine ⟨fun hround => not_le.mp fun hle => not_roundTrips_of_le h hq hle hround, fun hcount => ?_⟩
  have hlaid := hq.laid h
  rw [← length_dataChunks] at hcount
  obtain ⟨out, hmain, hout⟩ := Simg2img.main_dataChunks stack h hlaid crc hcount
  refine ⟨_, imageChunks info (dataChunks info q) crc, out, write_sparse_image h hlaid force crc,
    ?_, ?_, ?_, ?_⟩
  · rw [OutFile.contents_empty_write, drop_left' (SparseHeader.length_encode _)]
  · rw [OutFile.contents_empty_write, take_left' (SparseHeader.length_encode _),
      SparseHeader.decode_encode (imageHeader_fits h _), length_imageChunks]
    exact toUInt32_eq_self hcount
  · rw [OutFile.contents_empty_write]
    exact hmain
  · rw [hout]
    exact map_congr_left fun k _ => chunkByte_eq_imageByte h hlaid (hq.zeroTail h) _

/-- One block of data in the middle of four, with a checksum. -/
theorem sparse_round_trip_iff_middle :
    RoundTrips ⟨4096, 1024⟩ false true [⟨1, 100, .data fun _ => 7⟩] (fun _ => 0) :=
  (sparse_round_trip_iff ⟨.inl rfl, ⟨4, rfl⟩, by decide⟩
    ⟨pairwise_singleton _ _, by simp, by simp, by simp [stop, off],
      by simp [isFill]⟩ false true _).mpr (by decide)

/-! ## As many chunks as there can be -/

/-- Blocks of the same value, `n` of them from block `k` on, each queued on its own. -/
def fillBlocks (k n : ℕ) : List DataBlock :=
  (List.range' k n).map fun block => ⟨block, 1024, .fill 1⟩

lemma queued_fillBlocks {len n : ℕ} (hlen : n * 1024 < len) :
    Queued ⟨len, 1024⟩ (fillBlocks 0 n) where
  order := by
    refine Pairwise.map _ (fun a b hab => ?_) pairwise_lt_range'
    rw [stop, off, ← succ_mul]
    exact mul_le_mul_right _ hab
  pos := by simp [fillBlocks]
  len := by simp [fillBlocks]
  stop := by
    intro b hb
    obtain ⟨k, hk, rfl⟩ := mem_map.mp hb
    have hk : k + 1 ≤ n := by
      have := (mem_range'_1.mp hk).2
      omega
    rw [stop, off, ← succ_mul]
    exact (mul_le_mul_right _ hk).trans_lt hlen
  fill := by simp [fillBlocks]

/-- There is no gap but the last one. -/
lemma gapCount_fillBlocks {len : ℕ} (n : ℕ) : ∀ k, (k + n) * 1024 < len →
    gapCount ⟨len, 1024⟩ (k * 1024) (fillBlocks k n) = 1 := by
  induction n with
  | zero =>
    intro k hk
    exact if_pos hk
  | succ n ih =>
    intro k hk
    have hend : padEnd ⟨k, 1024, .fill 1⟩ ⟨len, 1024⟩ = (k + 1) * 1024 := by
      rw [padEnd, off, show align 1024 1024 = 1024 from rfl, succ_mul]
    have hrest := ih (k + 1) (by rwa [add_assoc, add_comm 1])
    show (if k * 1024 < k * 1024 then 1 else 0) +
      gapCount ⟨len, 1024⟩ (padEnd ⟨k, 1024, .fill 1⟩ ⟨len, 1024⟩)
        (fillBlocks (k + 1) n) = 1
    rw [if_neg (lt_irrefl _), hend, hrest]

lemma not_roundTrips_fillBlocks {len n : ℕ} (h : ImageInfo.Proper ⟨len, 1024⟩)
    (hlen : n * 1024 < len) (hn : 2 ^ 32 ≤ n + 2) (force : Bool) (stack : Memory) :
    ¬ RoundTrips ⟨len, 1024⟩ force true (fillBlocks 0 n) stack := by
  refine not_roundTrips_of_le h (queued_fillBlocks hlen) ?_
  have hgap := gapCount_fillBlocks n 0 (by rwa [zero_add])
  rw [hgap, fillBlocks, length_map, length_range']
  exact hn

/-- **As many blocks as there can be.**  A filesystem of `2^32 - 1` blocks, each but the last of them a
chunk of its own: with the checksum that makes `2^32` chunks, and the sparse image cannot be
expanded. -/
theorem sparse_round_trip_wraps :
    ImageInfo.Proper ⟨(2 ^ 32 - 1) * 1024, 1024⟩ ∧
      Queued ⟨(2 ^ 32 - 1) * 1024, 1024⟩ (fillBlocks 0 (2 ^ 32 - 2)) ∧
      ∀ force stack, ¬ RoundTrips ⟨(2 ^ 32 - 1) * 1024, 1024⟩ force true
        (fillBlocks 0 (2 ^ 32 - 2)) stack := by
  have hproper : ImageInfo.Proper ⟨(2 ^ 32 - 1) * 1024, 1024⟩ :=
    ⟨.inl rfl, dvd_mul_left _ _, by norm_num⟩
  have hlt : (2 ^ 32 - 2) * 1024 < (2 ^ 32 - 1) * 1024 := by norm_num
  exact ⟨hproper, queued_fillBlocks hlt, not_roundTrips_fillBlocks hproper hlt (by norm_num)⟩

end Droid.Ext4
