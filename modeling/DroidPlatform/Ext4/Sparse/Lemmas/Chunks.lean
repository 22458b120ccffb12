import DroidPlatform.Ext4.Sparse.Lemmas.Reader

/-!
# What the chunks of a queue describe

A queue of data blocks describes an image: the queued bytes at their offsets, and zeros elsewhere
(`imageByte`).  Its chunks describe the same, except that a fill chunk is made of whole filesystem
blocks: `chunkByte` is the image of the chunks (`expand_dataChunks`), and it is that of the queue where
nothing but zeros fills up the last block of a fill (`chunkByte_eq_imageByte`).
-/

namespace Droid.Ext4

open List Nat Memory DataBlock Chunk

variable {info : ImageInfo} {q : List DataBlock} {b : DataBlock} {i off p : ℕ} {P : Chunk → Prop}

/-! ## Images -/

/-- The byte at `i` of the image that a queue describes. -/
def imageByte (info : ImageInfo) (q : List DataBlock) (i : ℕ) : UInt8 :=
  match q.find? fun b => b.off info ≤ i ∧ i < b.stop info with
  | some b => b.memory (i - b.off info)
  | none => 0

namespace DataBlock

/-- The byte at `j` of a block, filled up as its chunk is: a raw chunk with zeros, a fill chunk with
more of the same. -/
def padByte (b : DataBlock) (j : ℕ) : UInt8 :=
  if b.isFill then b.memory j else if j < b.len then b.memory j else 0

end DataBlock

/-- The byte at `i` of the image that the chunks describe. -/
def chunkByte (info : ImageInfo) (q : List DataBlock) (i : ℕ) : UInt8 :=
  match q.find? fun b => b.off info ≤ i ∧ i < b.padEnd info with
  | some b => b.padByte (i - b.off info)
  | none => 0

/-! ## What the chunks describe -/

lemma le_off_of_laid (h : info.Proper) : ∀ {q : List DataBlock} {p : ℕ}, Laid info p q →
    ∀ b ∈ q, p ≤ b.off info
  | [], _, _, _, hb => absurd hb not_mem_nil
  | c :: q, p, ⟨hp, hc, hq⟩, b, hb => by
    rcases mem_cons.mp hb with rfl | hb
    · exact hp
    · exact (hp.trans (le_add_right _ _)).trans (le_off_of_laid h hq b hb)

/-- Nothing is described before the queue. -/
lemma chunkByte_of_lt (h : info.Proper) (hq : Laid info p q) (hi : i < p) :
    chunkByte info q i = 0 := by
  rw [chunkByte, find?_eq_none.mpr]
  intro b hb hcovers
  have := le_off_of_laid h hq b hb
  simp only [decide_eq_true_iff] at hcovers
  omega

lemma chunkByte_cons_of_covers (h1 : b.off info ≤ i) (h2 : i < b.padEnd info) :
    chunkByte info (b :: q) i = b.padByte (i - b.off info) := by
  rw [chunkByte, find?_cons_of_pos (by simp [h1, h2])]

lemma chunkByte_cons_of_not_covers (h : ¬ (b.off info ≤ i ∧ i < b.padEnd info)) :
    chunkByte info (b :: q) i = chunkByte info q i := by
  rw [chunkByte, find?_cons_of_neg (by simpa using h), chunkByte]

lemma expand_chunk (h : info.Proper) (b : DataBlock) :
    (b.chunk info).expand info.block_size =
      slice b.padByte 0 (align b.len info.block_size) := by
  have hmul := Nat.div_mul_cancel (dvd_align b.len info.block_size)
  have hraw : b.isFill = false →
      b.padded info = slice b.padByte 0 (align b.len info.block_size) := by
    intro hfill
    rw [← Nat.add_sub_cancel' (le_align h b.len), slice_add, padded]
    congr 1
    · refine map_congr_left fun k hk => ?_
      rw [padByte, hfill, if_neg Bool.false_ne_true,
        if_pos (by simpa using mem_range.mp hk)]
    · refine (eq_replicate_iff.mpr ⟨by simp, fun x hx => ?_⟩).symm
      obtain ⟨k, -, rfl⟩ := mem_map.mp hx
      rw [padByte, hfill, if_neg Bool.false_ne_true, if_neg (by omega)]
  cases hsource : b.source with
  | data bytes | file contents offset =>
    simp only [chunk, hsource]
    exact hraw (by rw [isFill, hsource])
  | fill fill_val =>
    simp only [chunk, hsource, expand, hmul]
    refine map_congr_left fun k _ => ?_
    rw [padByte, if_pos (by rw [isFill, hsource]), memory, hsource]

lemma expand_gap (hle : p ≤ off) (hp : info.block_size ∣ p) (hoff : info.block_size ∣ off) :
    (gap info p off).flatMap (expand info.block_size) = replicate (off - p) 0 := by
  rw [gap]
  split_ifs with hlt
  · rw [flatMap_singleton, expand, Nat.div_mul_cancel (dvd_sub hoff hp)]
  · rw [show off - p = 0 by omega]
    rfl

/-- The chunks of a queue, from `p` on. -/
lemma expand_chunksFrom (h : info.Proper) : ∀ {q : List DataBlock} {p : ℕ}, Laid info p q →
    info.block_size ∣ p → p ≤ endFrom info p q ∧
      (chunksFrom info p q).flatMap (expand info.block_size) =
        slice (chunkByte info q) p (endFrom info p q - p)
  | [], p, _, _ => ⟨le_rfl, by rw [endFrom, Nat.sub_self]; rfl⟩
  | b :: q, p, ⟨hp, hb, hq⟩, hdvd => by
    have hoff : info.block_size ∣ b.off info := dvd_mul_left _ _
    have hpad : info.block_size ∣ b.padEnd info := dvd_add hoff (dvd_align _ _)
    obtain ⟨hend, hrest⟩ := expand_chunksFrom h hq hpad
    have hle : b.off info ≤ b.padEnd info := le_add_right _ _
    refine ⟨hp.trans (hle.trans hend), ?_⟩
    -- a gap, the block, and the rest of the queue
    have hsplit : endFrom info p (b :: q) - p = (b.off info - p) +
        (align b.len info.block_size + (endFrom info (b.padEnd info) q - b.padEnd info)) := by
      rw [endFrom]
      rw [padEnd] at hend ⊢
      omega
    rw [chunksFrom, flatMap_append, flatMap_cons, expand_gap hp hdvd hoff,
      expand_chunk h, hrest, hsplit, slice_add, slice_add,
      Nat.add_sub_cancel' hp]
    congr 1
    · refine (eq_replicate_iff.mpr ⟨by simp, fun x hx => ?_⟩).symm
      obtain ⟨k, hk, rfl⟩ := mem_map.mp hx
      have hk := mem_range.mp hk
      rw [chunkByte_cons_of_not_covers (by omega), chunkByte_of_lt h hq (by omega)]
    · congr 1
      · refine map_congr_left fun k hk => ?_
        have hk := mem_range.mp hk
        rw [chunkByte_cons_of_covers (le_add_right _ _)
          (by rw [padEnd]; omega), zero_add, Nat.add_sub_cancel_left]
      · refine map_congr_left fun k _ => ?_
        rw [chunkByte_cons_of_not_covers (by rw [padEnd]; omega), padEnd]

lemma padEnd_le_endFrom (h : info.Proper) : ∀ {q : List DataBlock} {p : ℕ}, Laid info p q →
    info.block_size ∣ p → ∀ b ∈ q, b.padEnd info ≤ endFrom info p q
  | [], _, _, _, _, hb => absurd hb not_mem_nil
  | c :: q, p, ⟨_, _, hq⟩, _, b, hb => by
    have hpad : info.block_size ∣ c.padEnd info :=
      dvd_add (dvd_mul_left _ _) (dvd_align _ _)
    rcases mem_cons.mp hb with rfl | hb
    · exact (expand_chunksFrom h hq hpad).1
    · exact padEnd_le_endFrom h hq hpad b hb

/-- All chunks: they describe the whole image. -/
lemma expand_dataChunks (h : info.Proper) (hq : Laid info 0 q) :
    (dataChunks info q).flatMap (expand info.block_size) =
      slice (chunkByte info q) 0 info.len := by
  have hle := endFrom_le h hq (zero_le _)
  have hdvd : info.block_size ∣ endFrom info 0 q := dvd_endFrom (dvd_zero _)
  obtain ⟨-, hchunks⟩ := expand_chunksFrom h hq (dvd_zero _)
  rw [dataChunks, flatMap_append, hchunks, expand_gap hle hdvd h.dvd]
  conv_rhs => rw [← Nat.add_sub_cancel' hle, slice_add]
  congr 1
  refine (eq_replicate_iff.mpr ⟨by simp, fun x hx => ?_⟩).symm
  obtain ⟨k, hk, rfl⟩ := mem_map.mp hx
  -- behind the last block nothing is described
  rw [chunkByte, find?_eq_none.mpr]
  intro b hb hcovers
  have := padEnd_le_endFrom h hq (dvd_zero _) b hb
  simp only [decide_eq_true_iff] at hcovers
  omega

/-! ## The chunks are well-formed -/

lemma forall_gap (hskip : p < off → P (.skip ((off - p) / info.block_size))) :
    ∀ c ∈ gap info p off, P c := by
  rw [gap]
  split_ifs with hlt
  · exact forall_mem_singleton.mpr (hskip hlt)
  · exact forall_mem_nil _

/-- What holds of the chunks of the blocks and of the gaps holds of all chunks. -/
lemma forall_chunksFrom
    (hskip : ∀ k, 0 < k → k ≤ info.len / info.block_size → P (.skip k)) (h : info.Proper) :
    ∀ {q : List DataBlock} {p : ℕ}, Laid info p q → info.block_size ∣ p →
      (∀ b ∈ q, P (b.chunk info)) → ∀ c ∈ chunksFrom info p q, P c
  | [], _, _, _, _, _, hc => absurd hc not_mem_nil
  | b :: q, p, ⟨hp, hb, hq⟩, hdvd, hblock, c, hc => by
    have hoff : info.block_size ∣ b.off info := dvd_mul_left _ _
    rw [chunksFrom, mem_append, mem_cons] at hc
    rcases hc with hc | rfl | hc
    · refine forall_gap (fun hlt => hskip _ ?_ ?_) c hc
      · exact div_pos (le_of_dvd (by omega) (dvd_sub hoff hdvd)) h.pos
      · have := hb.stop
        rw [stop] at this
        exact Nat.div_le_div_right (by omega)
    · exact hblock b mem_cons_self
    · exact forall_chunksFrom hskip h hq (dvd_add hoff (dvd_align _ _))
        (fun d hd => hblock d (mem_cons_of_mem _ hd)) c hc

lemma forall_dataChunks (h : info.Proper) (hq : Laid info 0 q)
    (hskip : ∀ k, 0 < k → k ≤ info.len / info.block_size → P (.skip k))
    (hblock : ∀ b ∈ q, P (b.chunk info)) : ∀ c ∈ dataChunks info q, P c := by
  have hdvd : info.block_size ∣ endFrom info 0 q := dvd_endFrom (dvd_zero _)
  intro c hc
  rcases mem_append.mp hc with hc | hc
  · exact forall_chunksFrom hskip h hq (dvd_zero _) hblock c hc
  · refine forall_gap (fun hlt => hskip _ ?_ (Nat.div_le_div_right (sub_le _ _))) c hc
    exact div_pos (le_of_dvd (by omega) (dvd_sub h.dvd hdvd)) h.pos

lemma fits_of_mem : ∀ {q : List DataBlock} {p : ℕ}, Laid info p q → ∀ b ∈ q, b.Fits info
  | [], _, _, _, hb => absurd hb not_mem_nil
  | c :: q, p, ⟨_, hc, hq⟩, b, hb => by
    rcases mem_cons.mp hb with rfl | hb
    · exact hc
    · exact fits_of_mem hq b hb

lemma wf_chunk (h : info.Proper) (hb : b.Fits info) : (b.chunk info).Wf info.block_size := by
  have hle := align_le_maxWrite h hb.len
  have hmul := Nat.div_mul_cancel (dvd_align b.len info.block_size)
  have hdiv := div_le_self (align b.len info.block_size) info.block_size
  have hexpand := OutputFile.length_expand_chunk h b
  rw [maxWrite] at hle
  have hblocks : (b.chunk info).blocks = align b.len info.block_size / info.block_size := by
    rw [chunk]
    cases b.source <;> rfl
  refine ⟨by rw [hblocks]; omega, ?_, by rw [hexpand, hblocks, hmul]⟩
  rw [chunk] at hexpand ⊢
  cases hsource : b.source <;>
    simp [header, CHUNK_HEADER_LEN, expand, hsource] at hexpand ⊢ <;> omega

section

variable (h : info.Proper) (hq : Laid info 0 q)

include h hq

lemma wf_dataChunks : ∀ c ∈ dataChunks info q, c.Wf info.block_size := by
  refine forall_dataChunks h hq (fun k _ hk => ?_) fun b hb => wf_chunk h (fits_of_mem hq b hb)
  exact ⟨hk.trans_lt h.blocks, by simp [header, CHUNK_HEADER_LEN],
    by simp [expand, blocks]⟩

lemma not_crc32_dataChunks : ∀ c ∈ dataChunks info q, ∀ crc, c ≠ .crc32 crc := by
  refine forall_dataChunks h hq (fun k _ _ crc => Chunk.noConfusion) fun b _ crc => ?_
  rw [chunk]
  cases b.source <;> exact Chunk.noConfusion

lemma blocks_pos_dataChunks : ∀ c ∈ dataChunks info q, 0 < c.blocks := by
  refine forall_dataChunks h hq (fun k hk _ => hk) fun b hb => ?_
  have hpos := (fits_of_mem hq b hb).pos
  have hblocks : (b.chunk info).blocks = align b.len info.block_size / info.block_size := by
    rw [chunk]
    cases b.source <;> rfl
  rw [hblocks]
  have hle := le_align h b.len
  exact div_pos (le_of_dvd (by omega) (dvd_align _ _)) h.pos

end

lemma length_flatMap_expand {blk_sz : ℕ} : ∀ {cs : List Chunk}, (∀ c ∈ cs, c.Wf blk_sz) →
    (cs.flatMap (Chunk.expand blk_sz)).length = (cs.map Chunk.blocks).sum * blk_sz
  | [], _ => (zero_mul _).symm
  | c :: cs, h => by
    rw [flatMap_cons, length_append, (h c mem_cons_self).length,
      length_flatMap_expand fun d hd => h d (mem_cons_of_mem _ hd), map_cons,
      sum_cons, add_mul]

/-- Together the chunks describe as many blocks as there are. -/
lemma sum_blocks_dataChunks (h : info.Proper) (hq : Laid info 0 q) :
    ((dataChunks info q).map blocks).sum = info.len / info.block_size := by
  have hlen := length_flatMap_expand (wf_dataChunks h hq)
  rw [expand_dataChunks h hq, length_slice] at hlen
  rw [hlen, Nat.mul_div_cancel _ h.pos]

/-- Each of them at least one. -/
lemma length_dataChunks_le (h : info.Proper) (hq : Laid info 0 q) :
    (dataChunks info q).length ≤ info.len / info.block_size := by
  rw [← sum_blocks_dataChunks h hq]
  have hpos := blocks_pos_dataChunks h hq
  generalize dataChunks info q = cs at hpos
  induction cs with
  | nil => exact le_rfl
  | cons c cs ih =>
    have := hpos c mem_cons_self
    have := ih fun d hd => hpos d (mem_cons_of_mem _ hd)
    rw [map_cons, sum_cons, length_cons]
    omega

/-! ## The image of the queue -/

lemma imageByte_of_forall (hi : ∀ b ∈ q, ¬ (b.off info ≤ i ∧ i < b.stop info)) :
    imageByte info q i = 0 := by
  rw [imageByte, find?_eq_none.mpr fun b hb => by simpa using hi b hb]

lemma imageByte_of_lt (h : info.Proper) (hq : Laid info p q) (hi : i < p) :
    imageByte info q i = 0 := by
  refine imageByte_of_forall fun b hb hcovers => ?_
  have := le_off_of_laid h hq b hb
  omega

lemma imageByte_cons_of_covers (h1 : b.off info ≤ i) (h2 : i < b.stop info) :
    imageByte info (b :: q) i = b.memory (i - b.off info) := by
  rw [imageByte, find?_cons_of_pos (by simp [h1, h2])]

lemma imageByte_cons_of_not_covers (h : ¬ (b.off info ≤ i ∧ i < b.stop info)) :
    imageByte info (b :: q) i = imageByte info q i := by
  rw [imageByte, find?_cons_of_neg (by simpa using h), imageByte]

/-- The last filesystem block of a data block is filled up with zeros. -/
def DataBlock.ZeroTail (b : DataBlock) (info : ImageInfo) : Prop :=
  ∀ j, b.len ≤ j → j < align b.len info.block_size → b.padByte j = 0

lemma DataBlock.zeroTail_of_not_fill (hfill : b.isFill = false) : b.ZeroTail info := by
  intro j hle _
  rw [padByte, hfill, if_neg Bool.false_ne_true, if_neg (not_lt.mpr hle)]

lemma DataBlock.not_isFill_of_isFile (hfile : b.isFile = true) : b.isFill = false := by
  rw [isFile] at hfile
  rw [isFill]
  cases hsource : b.source with
  | data bytes => rfl
  | fill fill_val => simp [hsource] at hfile
  | file contents offset => rfl

lemma DataBlock.padByte_of_lt {j : ℕ} (h : j < b.len) : b.padByte j = b.memory j := by
  rw [padByte]
  split_ifs <;> rfl

/-- Where the image of the chunks can differ from that of the queue, and where not. -/
lemma chunkByte_eq_imageByte (h : info.Proper) : ∀ {q : List DataBlock} {p : ℕ}, Laid info p q →
    (∀ b ∈ q, b.ZeroTail info) → ∀ i, chunkByte info q i = imageByte info q i
  | [], _, _, _, _ => rfl
  | b :: q, p, ⟨_, hb, hq⟩, hzero, i => by
    have hrest := chunkByte_eq_imageByte h hq (fun d hd => hzero d (mem_cons_of_mem _ hd)) i
    have hle : b.stop info ≤ b.padEnd info := Nat.add_le_add_left (le_align h b.len) _
    by_cases hcovers : b.off info ≤ i ∧ i < b.padEnd info
    · obtain ⟨hoff, hpad⟩ := hcovers
      rw [chunkByte_cons_of_covers hoff hpad]
      rcases lt_or_ge i (b.stop info) with hstop | hstop
      · rw [imageByte_cons_of_covers hoff hstop, padByte_of_lt]
        rw [stop] at hstop
        omega
      · rw [imageByte_cons_of_not_covers (by omega), imageByte_of_lt h hq hpad]
        rw [stop] at hstop
        rw [padEnd] at hpad
        exact hzero b mem_cons_self _ (by omega) (by omega)
    · rw [chunkByte_cons_of_not_covers hcovers, imageByte_cons_of_not_covers (by omega), hrest]

/-- Conversely, where the two images are the same. -/
lemma zeroTail_of_chunkByte_eq (h : info.Proper) : ∀ {q : List DataBlock} {p : ℕ}, Laid info p q →
    (∀ i, p ≤ i → i < info.len → chunkByte info q i = imageByte info q i) → ∀ b ∈ q, b.ZeroTail info
  | [], _, _, _, _, hb => absurd hb not_mem_nil
  | b :: q, p, ⟨hp, hb, hq⟩, heq, c, hc => by
    have hle : b.stop info ≤ b.padEnd info := Nat.add_le_add_left (le_align h b.len) _
    rcases mem_cons.mp hc with rfl | hc
    · intro j hj hlt
      have hend := endFrom_le h (q := [c]) (p := p) ⟨hp, hb, trivial⟩ (hp.trans
        ((le_add_right _ _).trans hb.stop))
      have hpad : c.off info + j < c.padEnd info := Nat.add_lt_add_left hlt _
      have hbyte := heq (c.off info + j) (by omega) (hpad.trans_le hend)
      rw [chunkByte_cons_of_covers (le_add_right _ _) hpad, Nat.add_sub_cancel_left,
        imageByte_cons_of_not_covers (by rw [stop]; omega),
        imageByte_of_lt h hq hpad] at hbyte
      exact hbyte
    · refine zeroTail_of_chunkByte_eq h hq (fun i hi hlen => ?_) c hc
      have hbyte := heq i (by rw [padEnd] at hi; omega) hlen
      rwa [chunkByte_cons_of_not_covers (by omega),
        imageByte_cons_of_not_covers (by omega)] at hbyte

/-! ## Queues in order -/

/-- A block that ends before another one also ends its last filesystem block before it. -/
lemma padEnd_le_off (h : info.Proper) {a : DataBlock} (hab : a.stop info ≤ b.off info) :
    a.padEnd info ≤ b.off info := by
  rw [stop] at hab
  have hle : align a.len info.block_size ≤ b.off info - a.off info :=
    align_le h (by omega) (dvd_sub (dvd_mul_left _ _) (dvd_mul_left _ _))
  rw [padEnd]
  omega

/-- Blocks that are sorted and do not overlap are laid one behind the other. -/
lemma laid_of_pairwise (h : info.Proper) : ∀ {q : List DataBlock} {p : ℕ},
    q.Pairwise (fun a b => a.stop info ≤ b.off info) → (∀ b ∈ q, b.Fits info) →
    (∀ b ∈ q, p ≤ b.off info) → Laid info p q
  | [], _, _, _, _ => trivial
  | b :: q, p, horder, hfits, hp => by
    obtain ⟨hb, hq⟩ := pairwise_cons.mp horder
    exact ⟨hp b mem_cons_self, hfits b mem_cons_self,
      laid_of_pairwise h hq (fun c hc => hfits c (mem_cons_of_mem _ hc))
        fun c hc => padEnd_le_off h (hb c hc)⟩

/-! ## Counting the chunks -/

/-- The number of gaps between the blocks of a queue, from `p` to the end of the filesystem. -/
def gapCount (info : ImageInfo) : ℕ → List DataBlock → ℕ
  | p, [] => if p < info.len then 1 else 0
  | p, b :: q => (if p < b.off info then 1 else 0) + gapCount info (b.padEnd info) q

lemma length_dataChunks (info : ImageInfo) (q : List DataBlock) :
    (dataChunks info q).length = q.length + gapCount info 0 q := by
  suffices h : ∀ q p,
      (chunksFrom info p q).length + (gap info (endFrom info p q) info.len).length =
        q.length + gapCount info p q by
    rw [dataChunks, length_append, h]
  intro q
  induction q with
  | nil =>
    intro p
    rw [endFrom, gapCount, gap]
    split_ifs <;> rfl
  | cons b q ih =>
    intro p
    have hgap : (gap info p (b.off info)).length = if p < b.off info then 1 else 0 := by
      rw [gap]
      split_ifs <;> rfl
    have hrest := ih (b.padEnd info)
    rw [chunksFrom, endFrom, gapCount, length_append, length_cons, length_cons]
    omega

/-! ## Expanding the chunks -/

/-- The sparse image of a queue expands to the image of its chunks. -/
lemma Simg2img.main_dataChunks (stack : Memory) (h : info.Proper) (hq : Laid info 0 q) (crc : Bool)
    (hcount : (dataChunks info q).length + crc.toNat < 2 ^ 32) :
    ∃ out, main stack ((imageHeader info ((dataChunks info q).length + crc.toNat)).encode ++
        (imageChunks info (dataChunks info q) crc).flatMap encode) = some out ∧
      out.contents = slice (chunkByte info q) 0 info.len := by
  have hexpand := expand_dataChunks h hq
  obtain ⟨out, hmain, hout⟩ := main_of_complete stack h crc (wf_dataChunks h hq)
    (not_crc32_dataChunks h hq) (sum_blocks_dataChunks h hq)
    (by rw [hexpand, length_slice]) (toUInt32_eq_self hcount)
  exact ⟨out, hmain, hout.trans hexpand⟩

/-- With `2^32` chunks, the header announces none. -/
lemma Simg2img.main_of_wrap (stack : Memory) (h : info.Proper) (hq : Laid info 0 q) {crc : Bool}
    (hcount : 2 ^ 32 ≤ (dataChunks info q).length + crc.toNat) (body : List UInt8) :
    main stack ((imageHeader info ((dataChunks info q).length + crc.toNat)).encode ++ body) =
      none := by
  have hle := length_dataChunks_le h hq
  have hblocks := h.blocks
  have hcrc : crc.toNat ≤ 1 := Bool.toNat_le crc
  have hzero : toUInt32 ((dataChunks info q).length + crc.toNat) = 0 := by
    rw [toUInt32]
    omega
  refine main_of_none stack h (pos_of_ne_zero fun hlen => ?_) hzero body
  rw [hlen, Nat.zero_div] at hle
  omega

end Droid.Ext4
