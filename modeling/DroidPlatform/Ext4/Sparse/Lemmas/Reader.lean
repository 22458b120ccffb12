import DroidPlatform.Ext4.Sparse.Simg2img
import DroidPlatform.Ext4.Sparse.Lemmas.Writer

/-!
# What the reader makes of a list of chunks

`simg2img` on a stream of well-formed chunks: each chunk appends what it describes to the image, and
what counts of it to the checksum (`processChunk_spec`); a list of chunks does so one after the other
(`processChunks_spec`).  If the header announces more chunks than there are, the program ends with an
error (`processChunks_short`).
-/

namespace Droid.Ext4

open List Option Nat Chunk

variable {blk_sz : ℕ} {c : Chunk}

namespace Chunk

/-- The number of blocks a chunk describes. -/
def blocks : Chunk → ℕ
  | raw blocks _ => blocks
  | fill blocks _ => blocks
  | skip blocks => blocks
  | crc32 _ => 0

/-- A chunk whose numbers fit into its header, and whose data is as long as it says. -/
structure Wf (blk_sz : ℕ) (c : Chunk) : Prop where
  blocks : c.blocks < 2 ^ 32
  total : c.header.total_sz < 2 ^ 32
  length : (c.expand blk_sz).length = c.blocks * blk_sz

lemma header_fits (h : c.Wf blk_sz) : ∀ f ∈ c.header.fields, f.2 < 256 ^ f.1 := by
  have hblocks := h.blocks
  have htotal := h.total
  cases c <;>
    simp [header, blocks, ChunkHeader.fields, CHUNK_TYPE_RAW, CHUNK_TYPE_FILL,
      CHUNK_TYPE_DONT_CARE, CHUNK_TYPE_CRC32] at hblocks htotal ⊢ <;>
    omega

lemma wf_crc32 (blk_sz : ℕ) (crc : UInt32) : (crc32 crc).Wf blk_sz where
  blocks := by simp [blocks]
  total := by simp [header, CHUNK_HEADER_LEN]
  length := by simp [expand, blocks]

end Chunk

variable {info : ImageInfo}

lemma imageHeader_fits (h : info.Proper) (n : ℕ) :
    ∀ f ∈ (imageHeader info n).fields, f.2 < 256 ^ f.1 := by
  have hbs : info.block_size < 2 ^ 32 := by
    rcases h.block_size with h | h | h <;> omega
  have hblocks := h.blocks
  have hchunks := toUInt32_lt n
  simp [imageHeader, SparseHeader.fields, SPARSE_HEADER_MAGIC, SPARSE_HEADER_MAJOR_VER,
    SPARSE_HEADER_MINOR_VER, SPARSE_HEADER_LEN, CHUNK_HEADER_LEN]
  omega

variable {n : ℕ} {cs : List Chunk}

namespace Simg2img.State

variable {stack : Memory} {s : State} {rest : List UInt8} {img : List UInt8}

lemma read_eq {a : List UInt8} (hinput : s.input = a ++ rest) (hn : a.length = n) :
    s.read n = some (a, { s with input := rest }) := by
  rw [read, hinput, if_pos (by rw [length_append]; omega), take_left' hn,
    drop_left' hn]

/-- Raw data, in pieces. -/
lemma process_raw_chunk_spec {data : List UInt8} {blocks : ℕ} (hinput : s.input = data ++ rest)
    (hdata : data.length = blocks * blk_sz) (hout : s.out.Shows img) :
    ∃ s', s.process_raw_chunk blocks blk_sz = some s' ∧ s'.input = rest ∧
      s'.out.Shows (img ++ data) ∧ s'.crc32 = sparse_crc32 s.crc32 data ∧
      s'.total_blocks = s.total_blocks := by
  -- after `a` bytes the state is that of a chunk of only these
  let R a (t : State) : Prop := t.input = data.drop a ++ rest ∧
    t.out.Shows (img ++ data.take a) ∧ t.crc32 = sparse_crc32 s.crc32 (data.take a) ∧
    t.total_blocks = s.total_blocks
  have hstep : ∀ a n t, COPY_BUF_SIZE ∣ a → a + n ≤ blocks * blk_sz → n ≤ COPY_BUF_SIZE → R a t →
      ∃ t', copyPiece t n = some t' ∧ R (a + n) t' := by
    rintro a n t - hn - ⟨hin, hshows, hcrc, htotal⟩
    have hpiece : data.drop a = (data.drop a).take n ++ data.drop (a + n) := by
      rw [← drop_drop, take_append_drop]
    have htake : data.take (a + n) = data.take a ++ (data.drop a).take n := take_add
    rw [hpiece, append_assoc] at hin
    have hcopy : copyPiece t n = some { t with
        input := data.drop (a + n) ++ rest
        crc32 := sparse_crc32 t.crc32 ((data.drop a).take n)
        out := t.out.write ((data.drop a).take n) } := by
      rw [copyPiece, read_eq hin (by rw [length_take, length_drop]; omega)]
      rfl
    refine ⟨_, hcopy, rfl, ?_, ?_, htotal⟩
    · rw [htake, ← append_assoc]
      exact hshows.write _
    · rw [hcrc, sparse_crc32_append, htake]
  obtain ⟨s', hs', hin, hshows, hcrc, htotal⟩ := foldlM_pieces copyPiece R
    (by decide) (blocks * blk_sz)
     ⟨hinput, by simpa using hout, by simp [sparse_crc32_nil], rfl⟩ hstep
  rw [← hdata, take_length] at hshows hcrc
  rw [← hdata, drop_length] at hin
  exact ⟨s', hs', hin, hshows, hcrc, htotal⟩

/-- A fill value, in pieces. -/
lemma process_fill_chunk_spec (stack : Memory) (blocks blk_sz : ℕ) {fill_val : UInt32}
    (hinput : s.input = toBytes 4 fill_val.toNat ++ rest) (hout : s.out.Shows img) :
    ∃ s', s.process_fill_chunk stack blocks blk_sz = some s' ∧ s'.input = rest ∧
      s'.out.Shows (img ++ (fillBuf fill_val).slice 0 (blocks * blk_sz)) ∧
      s'.crc32 = sparse_crc32 s.crc32 ((fillBuf fill_val).slice 0 (blocks * blk_sz)) ∧
      s'.total_blocks = s.total_blocks := by
  have hval : UInt32.ofNat (ofBytes ((range 4).map fun i => s.input.getD i (stack i))) =
      fill_val := by
    have hbytes : ((range 4).map fun i => s.input.getD i (stack i)) =
        toBytes 4 fill_val.toNat := by
      rw [hinput]
      rfl
    rw [hbytes, ofBytes_toBytes fill_val.toNat_lt, UInt32.ofNat_toNat]
  let R a (t : State) : Prop := t.input = rest ∧
    t.out.Shows (img ++ (fillBuf fill_val).slice 0 a) ∧
    t.crc32 = sparse_crc32 s.crc32 ((fillBuf fill_val).slice 0 a) ∧
    t.total_blocks = s.total_blocks
  have hstep : ∀ a n t, COPY_BUF_SIZE ∣ a → a + n ≤ blocks * blk_sz → n ≤ COPY_BUF_SIZE → R a t →
      ∃ t', fillPiece fill_val t n = some t' ∧ R (a + n) t' := by
    rintro a n t hdvd - hn ⟨hin, hshows, hcrc, htotal⟩
    have hpiece : ((fillBuf fill_val).slice 0 COPY_BUF_SIZE).take n = (fillBuf fill_val).slice a n := by
      rw [OutputFile.slice_fillBuf fill_val (dvd_trans (by decide) hdvd),
        ← Nat.add_sub_cancel' hn, Memory.slice_add, take_left' (Memory.length_slice _)]
    refine ⟨_, rfl, hin, ?_, ?_, htotal⟩
    · rw [Memory.slice_add, zero_add, ← append_assoc, ← hpiece]
      exact hshows.write _
    · rw [hcrc, hpiece, sparse_crc32_append, Memory.slice_add, zero_add]
  rw [process_fill_chunk, hval]
  refine foldlM_pieces (fillPiece fill_val) R (by decide) (blocks * blk_sz)
    ⟨?_, ?_, ?_, rfl⟩ hstep
  · show s.input.drop 4 = rest
    rw [hinput, drop_left' (length_toBytes _ _)]
  · show s.out.Shows (img ++ [])
    rwa [append_nil]
  · exact (sparse_crc32_nil _).symm

/-- **One chunk.** -/
lemma processChunk_spec (stack : Memory) (hc : c.Wf info.block_size)
    (hinput : s.input = c.encode ++ rest) (hout : s.out.Shows img)
    (hcrc : ∀ crc, c = .crc32 crc → s.crc32 = crc) (hblocks : s.total_blocks < 2 ^ 32) :
    ∃ s', s.processChunk stack (imageHeader info n) = some s' ∧ s'.input = rest ∧
      s'.out.Shows (img ++ c.expand info.block_size) ∧
      s'.crc32 = sparse_crc32 s.crc32 (c.content info.block_size) ∧
      s'.total_blocks = toUInt32 (s.total_blocks + c.blocks) := by
  rw [encode, append_assoc] at hinput
  have hread := read_eq hinput c.header.length_encode
  have hdecode := ChunkHeader.decode_encode (header_fits hc)
  have hlen := hc.length
  simp only [processChunk, hread, bind_eq_bind, bind_some, hdecode]
  cases c with
  | raw blocks data =>
    have hsz : CHUNK_HEADER_LEN + data.length =
        toUInt32 (CHUNK_HEADER_LEN + blocks * info.block_size) := by
      rw [← show data.length = blocks * info.block_size from hlen]
      exact (toUInt32_eq_self hc.total).symm
    obtain ⟨s', hs', hin, hshows, hcrc', htotal⟩ :=
      process_raw_chunk_spec (s := { s with input := data ++ rest }) rfl
        (show data.length = blocks * info.block_size from hlen) hout
    refine ⟨s'.addBlocks blocks, ?_, hin, hshows, hcrc', ?_⟩
    · simp [header, payload, imageHeader, skipInput, hsz, hs']
    · show toUInt32 (s'.total_blocks + blocks) = _
      rw [htotal]
      rfl
  | fill blocks fill_val =>
    obtain ⟨s', hs', hin, hshows, hcrc', htotal⟩ :=
      process_fill_chunk_spec stack blocks info.block_size
        (s := { s with input := toBytes 4 fill_val.toNat ++ rest }) rfl hout
    refine ⟨s'.addBlocks blocks, ?_, hin, hshows, hcrc', ?_⟩
    · simp [header, payload, imageHeader, skipInput, hs', CHUNK_TYPE_RAW,
        CHUNK_TYPE_FILL, CHUNK_HEADER_LEN, toUInt32]
    · show toUInt32 (s'.total_blocks + blocks) = _
      rw [htotal]
      rfl
  | skip blocks =>
    refine ⟨(process_skip_chunk { s with input := rest } blocks info.block_size).addBlocks blocks,
      ?_, rfl, hout.seek (blocks * info.block_size), (sparse_crc32_nil _).symm, rfl⟩
    simp [header, payload, imageHeader, skipInput, CHUNK_TYPE_RAW, CHUNK_TYPE_FILL,
      CHUNK_TYPE_DONT_CARE]
  | crc32 crc =>
    refine ⟨{ s with input := rest }, ?_, rfl, ?_, (sparse_crc32_nil _).symm,
      (toUInt32_eq_self hblocks).symm⟩
    · have hsum : UInt32.ofNat (ofBytes (toBytes 4 crc.toNat)) = s.crc32 := by
        rw [ofBytes_toBytes crc.toNat_lt, UInt32.ofNat_toNat, hcrc crc rfl]
      have hread' : ({ s with input := toBytes 4 crc.toNat ++ rest }).read 4 =
          some (toBytes 4 crc.toNat, { s with input := rest }) := read_eq rfl (length_toBytes _ _)
      simp [header, payload, imageHeader, skipInput, CHUNK_TYPE_RAW, CHUNK_TYPE_FILL,
        CHUNK_TYPE_DONT_CARE, CHUNK_TYPE_CRC32, process_crc32_chunk, hread', hsum]
    · show s.out.Shows (img ++ [])
      rwa [append_nil]

/-- **A list of chunks.** -/
lemma processChunks_spec (stack : Memory) (info : ImageInfo) (n : ℕ) : ∀ {cs : List Chunk}
    {s : State} {img : List UInt8}, (∀ c ∈ cs, c.Wf info.block_size) →
    (∀ c ∈ cs, ∀ crc, c ≠ .crc32 crc) → s.input = cs.flatMap encode ++ rest →
    s.out.Shows img → s.total_blocks < 2 ^ 32 →
    ∃ s', s.processChunks stack (imageHeader info n) cs.length = some s' ∧ s'.input = rest ∧
      s'.out.Shows (img ++ cs.flatMap (expand info.block_size)) ∧
      s'.crc32 = sparse_crc32 s.crc32 (cs.flatMap (content info.block_size)) ∧
      s'.total_blocks = toUInt32 (s.total_blocks + (cs.map blocks).sum)
  | [], s, img, _, _, hinput, hout, hblocks =>
    ⟨s, rfl, hinput, by rwa [flatMap_nil, append_nil], (sparse_crc32_nil _).symm,
      (toUInt32_eq_self hblocks).symm⟩
  | c :: cs, s, img, hwf, hnot, hinput, hout, hblocks => by
    rw [flatMap_cons, append_assoc] at hinput
    obtain ⟨t, ht, hin, hshows, hcrc, htotal⟩ := processChunk_spec stack (n := n)
      (hwf c mem_cons_self) hinput hout
      (fun crc heq => absurd heq (hnot c mem_cons_self crc)) hblocks
    obtain ⟨s', hs', hin', hshows', hcrc', htotal'⟩ := processChunks_spec stack info n
      (fun d hd => hwf d (mem_cons_of_mem _ hd))
      (fun d hd => hnot d (mem_cons_of_mem _ hd)) hin hshows
      (by rw [htotal]; exact toUInt32_lt _)
    refine ⟨s', ?_, hin', ?_, ?_, ?_⟩
    · rw [length_cons, processChunks, ht]
      exact hs'
    · rwa [flatMap_cons, ← append_assoc]
    · rw [hcrc', hcrc, sparse_crc32_append, flatMap_cons]
    · rw [htotal', htotal, toUInt32_toUInt32_add, map_cons, sum_cons, add_assoc]

lemma processChunks_add (stack : Memory) (h : SparseHeader) (a b : ℕ) (s : State) :
    s.processChunks stack h (a + b) =
      (s.processChunks stack h a).bind fun t => t.processChunks stack h b := by
  induction a generalizing s with
  | zero => rw [zero_add]; rfl
  | succ a ih =>
    rw [succ_add, processChunks, processChunks]
    cases s.processChunk stack h with
    | none => rfl
    | some t => exact ih t

/-- The chunks of an image: those of the data, then the checksum. -/
lemma processChunks_imageChunks (stack : Memory) (n : ℕ) (crc : Bool)
    (hwf : ∀ c ∈ cs, c.Wf info.block_size) (hnot : ∀ c ∈ cs, ∀ crc, c ≠ .crc32 crc) :
    ∃ s' : State, processChunks stack (imageHeader info n) (cs.length + crc.toNat)
        { input := (imageChunks info cs crc).flatMap encode, out := .empty } = some s' ∧
      s'.input = [] ∧ s'.out.Shows (cs.flatMap (expand info.block_size)) ∧
      s'.total_blocks = toUInt32 (cs.map blocks).sum := by
  let start : State := { input := (imageChunks info cs crc).flatMap encode, out := .empty }
  obtain ⟨t, ht, hin, hshows, hcrc, htotal⟩ := processChunks_spec stack info n hwf hnot
    (show start.input = _ from flatMap_append) OutFile.shows_empty (by decide : 0 < 2 ^ 32)
  rw [zero_add] at htotal
  rw [processChunks_add, ht]
  cases crc with
  | false => exact ⟨t, rfl, hin, hshows, htotal⟩
  | true =>
    obtain ⟨s', hs', hin', hshows', -, htotal'⟩ := processChunk_spec stack
      (wf_crc32 _ _) hin hshows (by
        rintro crc ⟨⟩
        exact hcrc) (by rw [htotal]; exact toUInt32_lt _)
    refine ⟨s', ?_, hin', ?_, ?_⟩
    · show (do processChunks stack (imageHeader info n) 0 (← t.processChunk stack _)) = _
      rw [hs']
      rfl
    · rwa [expand, append_nil] at hshows'
    · rw [htotal', htotal]
      exact toUInt32_toUInt32_add _ 0

/-- Nothing is left to read a header from. -/
lemma processChunk_nil (stack : Memory) (h : SparseHeader) (hs : s.input = []) :
    s.processChunk stack h = none := by
  rw [processChunk, read, hs]
  rfl

end Simg2img.State

namespace Simg2img

/-- The program behind the file header. -/
lemma main_eq (stack : Memory) (h : info.Proper) (n : ℕ) (body : List UInt8) :
    main stack ((imageHeader info n).encode ++ body) =
      (State.processChunks stack (imageHeader info n) (toUInt32 n)
        { input := body, out := .empty }).bind fun s =>
          if info.len / info.block_size ≠ s.total_blocks then none
          else some (s.out.truncate (s.total_blocks * info.block_size)) := by
  have hfits := imageHeader_fits h n
  have hread := State.read_eq (s := { input := (imageHeader info n).encode ++ body, out := .empty })
    rfl (imageHeader info n).length_encode
  simp only [main, hread, bind_eq_bind, bind_some, SparseHeader.decode_encode hfits]
  rfl

/-- **A complete image** is accepted, and its chunks are expanded. -/
lemma main_of_complete (stack : Memory) (h : info.Proper) (crc : Bool)
    (hwf : ∀ c ∈ cs, c.Wf info.block_size) (hnot : ∀ c ∈ cs, ∀ crc, c ≠ .crc32 crc)
    (hsum : (cs.map blocks).sum = info.len / info.block_size)
    (hlen : (cs.flatMap (expand info.block_size)).length = info.len)
    (hn : toUInt32 n = cs.length + crc.toNat) :
    ∃ f, main stack ((imageHeader info n).encode ++ (imageChunks info cs crc).flatMap encode) =
        some f ∧ f.contents = cs.flatMap (expand info.block_size) := by
  obtain ⟨s', hs', -, hshows, htotal⟩ :=
    State.processChunks_imageChunks stack n crc hwf hnot
  rw [hsum, toUInt32_eq_self h.blocks] at htotal
  refine ⟨s'.out.truncate info.len, ?_, ?_⟩
  · rw [main_eq stack h, hn, hs', bind_some, htotal, if_neg (not_not.mpr rfl),
      Nat.div_mul_cancel h.dvd]
  · rw [← hlen]
    exact hshows.contents_truncate

/-- A header that announces one chunk too many. -/
lemma main_of_short (stack : Memory) (h : info.Proper) {crc : Bool}
    (hwf : ∀ c ∈ cs, c.Wf info.block_size) (hnot : ∀ c ∈ cs, ∀ crc, c ≠ .crc32 crc)
    (hn : toUInt32 n = cs.length + crc.toNat + 1) :
    main stack ((imageHeader info n).encode ++ (imageChunks info cs crc).flatMap encode) =
      none := by
  obtain ⟨s', hs', hin, -, -⟩ := State.processChunks_imageChunks stack n crc hwf hnot
  rw [main_eq stack h, hn, State.processChunks_add, hs', bind_some, State.processChunks,
    State.processChunk_nil stack _ hin]
  rfl

/-- A header that announces no chunk at all. -/
lemma main_of_none (stack : Memory) (h : info.Proper) (hlen : 0 < info.len) (hn : toUInt32 n = 0)
    (body : List UInt8) : main stack ((imageHeader info n).encode ++ body) = none := by
  have hblocks : info.len / info.block_size ≠ 0 :=
    (div_pos (le_of_dvd hlen h.dvd) h.pos).ne'
  rw [main_eq stack h, hn, State.processChunks, bind_some, if_pos hblocks]

end Simg2img

end Droid.Ext4
