import DroidPlatform.Ext4.Sparse.OutputFile

/-!
# What the writer emits

With the queue in order, everything `write_ext4_image` writes in sparse mode is a list of chunks that
can be read off the queue: `chunksFrom`.  `emit` is what one chunk does to the output, and each
function of the writer is a few `emit`s.
-/

namespace Droid.Ext4

open List Nat OutputFile Memory Chunk Writes OutFile DataBlock

/-! ## Rounding -/

/-- A filesystem: a block size the writer can handle, and a length in blocks. -/
structure ImageInfo.Proper (info : ImageInfo) : Prop where
  block_size : info.block_size = 1024 ∨ info.block_size = 2048 ∨ info.block_size = 4096
  dvd : info.block_size ∣ info.len
  blocks : info.len / info.block_size < 2 ^ 32

/-- The longest block that one `write` can handle. -/
def maxWrite : ℕ := 0x7ffff000

lemma and_two_pow_sub_two_pow {x n k : ℕ} (hx : x < 2 ^ n) (hk : k ≤ n) :
    x &&& (2 ^ n - 2 ^ k) = x / 2 ^ k * 2 ^ k := by
  have hsub : 2 ^ n - 2 ^ k = (2 ^ (n - k) - 1) <<< k := by
    rw [shiftLeft_eq, Nat.sub_mul, ← pow_add, Nat.sub_add_cancel hk, one_mul]
  rw [← shiftRight_eq_div_pow, ← shiftLeft_eq, hsub]
  refine eq_of_testBit_eq fun i => ?_
  rw [testBit_and, testBit_shiftLeft, testBit_shiftLeft, testBit_shiftRight]
  rcases lt_or_ge i k with hi | hi
  · simp [not_le.mpr hi]
  · rw [Nat.add_sub_cancel' hi]
    rcases lt_or_ge i n with hn | hn
    · simp [hi, show i - k < n - k by omega]
    · simp [testBit_lt_two_pow (hx.trans_le (Nat.pow_le_pow_right two_pos hn))]

variable {len : ℕ}

section Round

variable {info : ImageInfo}

lemma ImageInfo.Proper.pos (h : info.Proper) : 0 < info.block_size := by
  rcases h.block_size with h | h | h <;> omega

lemma le_align (h : info.Proper) (len : ℕ) : len ≤ align len info.block_size := by
  have := div_add_mod (len + info.block_size - 1) info.block_size
  have := mod_lt (len + info.block_size - 1) h.pos
  rw [align, divRoundUp]
  omega

lemma dvd_align (x y : ℕ) : y ∣ align x y := dvd_mul_right _ _

/-- Rounding up does not get past an aligned bound. -/
lemma align_le (h : info.Proper) {n : ℕ} (hle : len ≤ n) (hn : info.block_size ∣ n) :
    align len info.block_size ≤ n := by
  obtain ⟨k, rfl⟩ := hn
  refine mul_le_mul_left _ (Nat.lt_succ_iff.mp ((div_lt_iff_lt_mul h.pos).mpr ?_))
  have := h.pos
  rw [succ_mul, mul_comm k]
  omega

lemma align_eq_self (h : info.Proper) {n : ℕ} (hn : info.block_size ∣ n) :
    align n info.block_size = n := le_antisymm (align_le h le_rfl hn) (le_align h n)

lemma rndUpLen_eq (h : info.Proper) (hlen : len ≤ maxWrite) :
    rndUpLen info len = align len info.block_size := by
  obtain ⟨k, hk, hbs⟩ : ∃ k, k ≤ 12 ∧ info.block_size = 2 ^ k := by
    rcases h.block_size with h | h | h
    · exact ⟨10, by omega, h⟩
    · exact ⟨11, by omega, h⟩
    · exact ⟨12, le_rfl, h⟩
  have hpos := h.pos
  have hpow : 2 ^ k ≤ 2 ^ 12 := Nat.pow_le_pow_right two_pos hk
  have hlt : len + (info.block_size - 1) < 2 ^ 32 := by
    rw [maxWrite] at hlen
    omega
  rw [rndUpLen, toUInt32_eq_self hlt, align, divRoundUp, hbs,
    and_two_pow_sub_two_pow (hbs ▸ hlt) (by omega), mul_comm, Nat.add_sub_assoc (by omega)]

lemma align_le_maxWrite (h : info.Proper) (hlen : len ≤ maxWrite) :
    align len info.block_size ≤ maxWrite := by
  refine align_le h hlen ?_
  rcases h.block_size with h | h | h <;> rw [h] <;> decide

end Round

/-! ## The chunks of a queue -/

variable {b : DataBlock} (blk_sz : ℕ)

namespace DataBlock

/-- The bytes of a block, and whatever would follow them. -/
def memory (b : DataBlock) : Memory :=
  match b.source with
  | .data bytes => bytes
  | .fill fill_val => fillBuf fill_val
  | .file contents offset => fun i => contents (offset + i)

/-- The queued bytes. -/
def bytes (b : DataBlock) : List UInt8 := b.memory.slice 0 b.len

def isFile (b : DataBlock) : Bool :=
  match b.source with
  | .file _ _ => true
  | _ => false

def isFill (b : DataBlock) : Bool :=
  match b.source with
  | .fill _ => true
  | _ => false

/-- Where the last byte of a block ends. -/
def stop (b : DataBlock) (info : ImageInfo) : ℕ := b.off info + b.len

/-- Where the last filesystem block of it ends. -/
def padEnd (b : DataBlock) (info : ImageInfo) : ℕ := b.off info + align b.len info.block_size

/-- The bytes of a block, filled up to the end of its last filesystem block. -/
def padded (b : DataBlock) (info : ImageInfo) : List UInt8 :=
  b.bytes ++ List.replicate (align b.len info.block_size - b.len) 0

/-- The chunk of a block. -/
def chunk (b : DataBlock) (info : ImageInfo) : Chunk :=
  match b.source with
  | .fill fill_val => .fill (align b.len info.block_size / info.block_size) fill_val
  | _ => .raw (align b.len info.block_size / info.block_size) (b.padded info)

@[simp] lemma length_bytes (b : DataBlock) : b.bytes.length = b.len := length_slice _

/-- The mapping of a file begins at a page, the data where it should. -/
lemma take_mapping {contents : Memory} {offset : ℕ} (hsource : b.source = .file contents offset) :
    ((contents.slice (offset / 4096 * 4096) (b.len + (offset - offset / 4096 * 4096))).drop
      (offset - offset / 4096 * 4096)).take b.len = b.bytes := by
  have hle : offset / 4096 * 4096 ≤ offset := div_mul_le_self _ _
  rw [add_comm, slice_add, drop_left' (length_slice _), Nat.add_sub_cancel' hle]
  simp [bytes, memory, hsource, slice]

end DataBlock

/-- A don't-care chunk from `p` to `off`, if there is something in between. -/
def gap (info : ImageInfo) (p off : ℕ) : List Chunk :=
  if p < off then [.skip ((off - p) / info.block_size)] else []

/-- The chunks of a queue, from `p` on. -/
def chunksFrom (info : ImageInfo) : ℕ → List DataBlock → List Chunk
  | _, [] => []
  | p, b :: q => gap info p (b.off info) ++ b.chunk info :: chunksFrom info (b.padEnd info) q

/-- Where the last block of a queue ends. -/
def endFrom (info : ImageInfo) : ℕ → List DataBlock → ℕ
  | p, [] => p
  | _, b :: q => endFrom info (b.padEnd info) q

/-- A block that is written where it belongs: one `write` is enough for it, it is inside of the
filesystem, and if it comes from a file it ends before the end of the filesystem. -/
structure DataBlock.Fits (b : DataBlock) (info : ImageInfo) : Prop where
  pos : 0 < b.len
  len : b.len ≤ maxWrite
  stop : b.stop info ≤ info.len
  file : b.isFile = true → b.stop info < info.len

/-- The blocks of a queue, one behind the other from `p` on. -/
def Laid (info : ImageInfo) : ℕ → List DataBlock → Prop
  | _, [] => True
  | p, b :: q => p ≤ b.off info ∧ b.Fits info ∧ Laid info (b.padEnd info) q

/-! ## One chunk -/

namespace OutputFile

/-- What a chunk does to the output. -/
def emit (out : OutputFile) (c : Chunk) : OutputFile :=
  { out with
    file := out.file.write c.encode
    crc32 := if out.use_crc then sparse_crc32 out.crc32 (c.content blk_sz) else out.crc32
    cur_out_ptr := out.cur_out_ptr + (c.expand blk_sz).length
    chunk_cnt := toUInt32 (out.chunk_cnt + 1) }

variable {info : ImageInfo} {force : Bool} {out : OutputFile} {off n : ℕ}

lemma emit_skip_chunk_eq (hn : info.block_size ∣ n) :
    emit_skip_chunk info force out n =
      .ok (out.emit info.block_size (.skip (n / info.block_size))) := by
  rw [emit_skip_chunk, if_neg (not_not.mpr (mod_eq_zero_of_dvd hn))]
  simp [emit, advance, write, encode, header, payload, content,
    expand, sparse_crc32_nil, Nat.div_mul_cancel hn]

/-- The gap is skipped, and the output is where it belongs. -/
lemma skipTo_eq (force : Bool) (hcur : out.cur_out_ptr ≤ off) (hdvd : info.block_size ∣ out.cur_out_ptr)
    (hoff : info.block_size ∣ off) :
    skipTo info force out off =
        .ok ((gap info out.cur_out_ptr off).foldl (emit info.block_size) out) ∧
      ((gap info out.cur_out_ptr off).foldl (emit info.block_size) out).cur_out_ptr = off := by
  have hmod := mod_eq_zero_of_dvd hoff
  rcases lt_or_ge out.cur_out_ptr off with hlt | hge
  · have hgap : info.block_size ∣ off - out.cur_out_ptr := dvd_sub hoff hdvd
    have hptr :
        ((gap info out.cur_out_ptr off).foldl (emit info.block_size) out).cur_out_ptr = off := by
      simp only [gap, if_pos hlt, foldl_cons, foldl_nil, emit, expand,
        length_replicate, Nat.div_mul_cancel hgap]
      omega
    refine ⟨?_, hptr⟩
    have hemit : (gap info out.cur_out_ptr off).foldl (emit info.block_size) out =
        out.emit info.block_size (.skip ((off - out.cur_out_ptr) / info.block_size)) := by
      rw [gap, if_pos hlt, foldl_cons, foldl_nil]
    rw [hemit] at hptr ⊢
    rw [skipTo, if_neg (not_lt.mpr hcur), if_pos hlt, emit_skip_chunk_eq hgap]
    simp [finish, bind, Except.bind, hmod, hptr]
  · obtain rfl : off = out.cur_out_ptr := le_antisymm hge hcur
    simp [skipTo, gap, hmod, bind, Except.bind]

/-- A raw chunk: the data and the zeros behind it. -/
lemma write_chunk_raw_eq (h : info.Proper) (hcur : out.cur_out_ptr ≤ off)
    (hdvd : info.block_size ∣ out.cur_out_ptr) (hoff : info.block_size ∣ off) {data : List UInt8}
    (hdata : data.length ≤ maxWrite) :
    write_chunk_raw info force out off data =
      .ok ((gap info out.cur_out_ptr off ++
        [raw (align data.length info.block_size / info.block_size)
          (data ++ replicate (align data.length info.block_size - data.length) 0)]).foldl
            (emit info.block_size) out) := by
  obtain ⟨hskip, -⟩ := skipTo_eq force hcur hdvd hoff
  have hle := le_align h data.length
  rw [write_chunk_raw, hskip, foldl_append]
  generalize (gap info out.cur_out_ptr off).foldl (emit info.block_size) out = out'
  simp only [bind, Except.bind, rndUpLen_eq h hdata, foldl_cons, emit, advance, write, encode,
    header, payload, content, expand, pure, Except.pure]
  generalize hzero : replicate (align data.length info.block_size - data.length) (0 : UInt8) = z
  have hlen : (data ++ z).length = align data.length info.block_size := by
    rw [← hzero, length_append, length_replicate]
    omega
  rw [hlen]
  rcases z with _ | ⟨b, z⟩
  · cases out'.use_crc <;> simp [write_write]
  · cases out'.use_crc <;> simp [write_write, sparse_crc32_append]

/-- The buffer of a fill chunk begins anew every four bytes. -/
lemma slice_fillBuf {a : ℕ} (fill_val : UInt32) (ha : 4 ∣ a) (n : ℕ) :
    (fillBuf fill_val).slice a n = (fillBuf fill_val).slice 0 n := by
  refine map_congr_left fun k _ => ?_
  rw [fillBuf]
  congr 1
  omega

lemma flatten_fillBuf (fill_val : UInt32) (hn : 4 ∣ n) (k : ℕ) :
    (replicate k ((fillBuf fill_val).slice 0 n)).flatten =
      (fillBuf fill_val).slice 0 (k * n) := by
  induction k with
  | zero => rw [zero_mul]; rfl
  | succ k ih =>
    rw [replicate_succ', flatten_append, ih, flatten_singleton, succ_mul,
      slice_add, zero_add, slice_fillBuf fill_val (Dvd.dvd.mul_left hn k)]

lemma foldl_sparse_crc32 (bufs : List (List UInt8)) (crc : UInt32) :
    bufs.foldl sparse_crc32 crc = sparse_crc32 crc bufs.flatten := by
  induction bufs generalizing crc with
  | nil => exact (sparse_crc32_nil crc).symm
  | cons buf bufs ih => rw [foldl_cons, ih, sparse_crc32_append, flatten_cons]

lemma four_dvd (h : info.Proper) : 4 ∣ info.block_size := by
  rcases h.block_size with h | h | h <;> rw [h] <;> decide

lemma write_chunk_fill_eq (h : info.Proper) (hcur : out.cur_out_ptr ≤ off)
    (hdvd : info.block_size ∣ out.cur_out_ptr) (hoff : info.block_size ∣ off)
    (hlen : len ≤ maxWrite) (fill_val : UInt32) :
    write_chunk_fill info force out off fill_val len =
      .ok ((gap info out.cur_out_ptr off ++
        [Chunk.fill (align len info.block_size / info.block_size) fill_val]).foldl
          (emit info.block_size) out) := by
  obtain ⟨hskip, -⟩ := skipTo_eq force hcur hdvd hoff
  have hmul := Nat.div_mul_cancel (dvd_align len info.block_size)
  rw [write_chunk_fill, hskip, foldl_append]
  generalize (gap info out.cur_out_ptr off).foldl (emit info.block_size) out = out'
  simp only [bind, Except.bind, rndUpLen_eq h hlen, foldl_cons, emit, advance, write, encode,
    header, payload, content, expand, pure, Except.pure, foldl_sparse_crc32,
    flatten_fillBuf fill_val (four_dvd h), hmul]
  cases out'.use_crc <;> simp [write_write]

/-- A block of the queue. -/
lemma writeBlock_eq (force : Bool) (h : info.Proper) (hsparse : out.sparse = true)
    (hb : b.Fits info) (hcur : out.cur_out_ptr ≤ b.off info)
    (hdvd : info.block_size ∣ out.cur_out_ptr) :
    writeBlock info force out b =
      some ((gap info out.cur_out_ptr (b.off info) ++ [b.chunk info]).foldl
        (emit info.block_size) out) := by
  have hoff : info.block_size ∣ b.off info := dvd_mul_left _ _
  have hstop : ¬ info.len < b.off info + b.len := not_lt.mpr hb.stop
  cases hsource : b.source with
  | data bytes =>
    have hlen : (bytes.slice 0 b.len).length = b.len := length_slice _
    simp only [writeBlock, hsource, write_data_block, hlen, hstop, if_false, hsparse, if_true]
    rw [write_chunk_raw_eq h hcur hdvd hoff (by rw [hlen]; exact hb.len)]
    simp [chunk, hsource, padded, DataBlock.bytes, memory, finish]
  | fill fill_val =>
    simp only [writeBlock, hsource, write_fill_block, hstop, if_false, hsparse, if_true]
    rw [write_chunk_fill_eq h hcur hdvd hoff hb.len]
    simp only [chunk, hsource, finish]
  | file contents offset =>
    have hfile : ¬ info.len ≤ b.off info + b.len :=
      not_le.mpr (hb.file (by rw [isFile, hsource]))
    simp only [writeBlock, hsource, write_data_file, hfile, if_false, hsparse, if_true,
      take_mapping hsource]
    rw [write_chunk_raw_eq h hcur hdvd hoff (by rw [length_bytes]; exact hb.len)]
    simp [chunk, hsource, padded, finish]

/-! ## All of them -/

/-- What a list of chunks does to the output. -/
lemma foldl_emit (cs : List Chunk) (out : OutputFile) :
    (cs.foldl (emit blk_sz) out) =
      { out with
        file := out.file.write (cs.flatMap encode)
        crc32 := if out.use_crc then sparse_crc32 out.crc32 (cs.flatMap (content blk_sz))
          else out.crc32
        cur_out_ptr := out.cur_out_ptr + (cs.flatMap (expand blk_sz)).length
        chunk_cnt := if cs = [] then out.chunk_cnt else toUInt32 (out.chunk_cnt + cs.length) } := by
  induction cs generalizing out with
  | nil => simp [sparse_crc32_nil]
  | cons c cs ih =>
    have hcnt : (if cs = [] then toUInt32 (out.chunk_cnt + 1)
        else toUInt32 (toUInt32 (out.chunk_cnt + 1) + cs.length)) =
        toUInt32 (out.chunk_cnt + (cs.length + 1)) := by
      split_ifs with hcs
      · rw [hcs, length_nil]
      · rw [toUInt32, toUInt32, toUInt32, mod_add_mod, add_assoc, add_comm 1]
    rw [foldl_cons, ih]
    cases huse : out.use_crc <;>
      simp [emit, huse, hcnt, write_write, sparse_crc32_append, add_assoc]

lemma length_expand_chunk (h : info.Proper) (b : DataBlock) :
    ((b.chunk info).expand info.block_size).length = align b.len info.block_size := by
  have hmul := Nat.div_mul_cancel (dvd_align b.len info.block_size)
  have hle := le_align h b.len
  rw [chunk]
  cases b.source <;> simp [expand, padded] <;> omega

/-- The queue is written as its chunks. -/
lemma foldlM_writeBlock (h : info.Proper) (force : Bool) : ∀ {q : List DataBlock} {p : ℕ}
    {out : OutputFile}, Laid info p q → out.sparse = true → out.cur_out_ptr = p →
    info.block_size ∣ p →
    q.foldlM (writeBlock info force) out =
        some ((chunksFrom info p q).foldl (emit info.block_size) out) ∧
      ((chunksFrom info p q).foldl (emit info.block_size) out).cur_out_ptr = endFrom info p q
  | [], p, out, _, _, hp, _ => ⟨rfl, hp⟩
  | b :: q, p, out, ⟨hle, hb, hq⟩, hsparse, hp, hdvd => by
    subst hp
    have hoff : info.block_size ∣ b.off info := dvd_mul_left _ _
    have hwrite := writeBlock_eq force h hsparse hb hle hdvd
    obtain ⟨-, hptr⟩ := skipTo_eq force hle hdvd hoff
    set out' := (gap info out.cur_out_ptr (b.off info) ++ [b.chunk info]).foldl
      (emit info.block_size) out with hout'
    have hsparse' : out'.sparse = true := by
      rw [hout', foldl_emit]
      exact hsparse
    have hptr' : out'.cur_out_ptr = b.padEnd info := by
      rw [hout', foldl_append, foldl_cons]
      show _ + _ = _
      rw [hptr, length_expand_chunk h, padEnd]
    obtain ⟨hrun, hend⟩ := foldlM_writeBlock h force hq hsparse' hptr'
      (dvd_add hoff (dvd_align _ _))
    have hchunks : (chunksFrom info out.cur_out_ptr (b :: q)).foldl (emit info.block_size) out =
        (chunksFrom info (b.padEnd info) q).foldl (emit info.block_size) out' := by
      rw [chunksFrom, ← singleton_append, ← append_assoc, foldl_append]
    rw [hchunks]
    refine ⟨?_, hend⟩
    rw [foldlM_cons, hwrite]
    exact hrun

end OutputFile

/-! ## The number of chunks -/

variable {q : List DataBlock}

section Count

variable {info : ImageInfo}

lemma toUInt32_toUInt32_add (a b : ℕ) : toUInt32 (toUInt32 a + b) = toUInt32 (a + b) := by
  rw [toUInt32, toUInt32, toUInt32, mod_add_mod]

lemma foldl_countBlock (info : ImageInfo) (q : List DataBlock) (n p : ℕ) :
    q.foldl (countBlock info) ⟨toUInt32 n, p⟩ =
      ⟨toUInt32 (n + (chunksFrom info p q).length), endFrom info p q⟩ := by
  induction q generalizing n p with
  | nil => rfl
  | cons b q ih =>
    have hcount : countBlock info ⟨toUInt32 n, p⟩ b =
        ⟨toUInt32 (n + (gap info p (b.off info)).length + 1), b.padEnd info⟩ := by
      rw [countBlock, gap]
      split_ifs
      · rw [toUInt32_toUInt32_add, add_assoc, toUInt32_toUInt32_add]
        rfl
      · rw [toUInt32_toUInt32_add]
        rfl
    rw [foldl_cons, hcount, ih, chunksFrom, length_append, length_cons, endFrom]
    congr 2
    omega

lemma endFrom_le (h : info.Proper) : ∀ {q : List DataBlock} {p : ℕ}, Laid info p q →
    p ≤ info.len → endFrom info p q ≤ info.len
  | [], _, _, hp => hp
  | b :: q, p, ⟨_, hb, hq⟩, _ => by
    show endFrom info (b.padEnd info) q ≤ info.len
    refine endFrom_le h hq ?_
    have hoff : info.block_size ∣ b.off info := dvd_mul_left _ _
    have hle : align b.len info.block_size ≤ info.len - b.off info :=
      align_le h (Nat.le_sub_of_add_le' hb.stop) (dvd_sub h.dvd hoff)
    have := hb.stop
    rw [stop] at this
    rw [padEnd]
    omega

lemma dvd_endFrom : ∀ {q : List DataBlock} {p : ℕ}, info.block_size ∣ p →
    info.block_size ∣ endFrom info p q
  | [], _, hp => hp
  | b :: q, _, _ =>
    have hend : info.block_size ∣ b.padEnd info :=
      dvd_add (dvd_mul_left _ _) (dvd_align _ _)
    dvd_endFrom (q := q) hend

/-- The chunks for a queue. -/
def dataChunks (info : ImageInfo) (q : List DataBlock) : List Chunk :=
  chunksFrom info 0 q ++ gap info (endFrom info 0 q) info.len

/-- The chunks of an image: those for the queue, and the checksum. -/
def imageChunks (info : ImageInfo) (cs : List Chunk) (crc : Bool) : List Chunk :=
  cs ++ if crc then [.crc32 (sparse_crc32 0 (cs.flatMap (Chunk.content info.block_size)))] else []

lemma count_sparse_chunks_eq (hle : endFrom info 0 q ≤ info.len) :
    count_sparse_chunks info q = toUInt32 (dataChunks info q).length := by
  have hcount := foldl_countBlock info q 0 0
  rw [show toUInt32 0 = 0 from rfl] at hcount
  simp only [count_sparse_chunks, hcount, dataChunks, gap]
  rcases hle.eq_or_lt with heq | hlt
  · simp [heq]
  · simp [hlt, hlt.ne, toUInt32_toUInt32_add]

end Count

/-! ## The image -/

/-- The header of an image with `n` chunks. -/
def imageHeader (info : ImageInfo) (n : ℕ) : SparseHeader where
  blk_sz := info.block_size
  total_blks := info.len / info.block_size
  total_chunks := toUInt32 n

namespace OutputFile

variable {info : ImageInfo} {out : OutputFile}

lemma pad_output_file_eq (force : Bool) (hsparse : out.sparse = true)
    (hcur : out.cur_out_ptr ≤ info.len) (hlen : info.block_size ∣ info.len)
    (hdvd : info.block_size ∣ out.cur_out_ptr) :
    out.pad_output_file info force info.len =
      .ok ((gap info out.cur_out_ptr info.len).foldl (emit info.block_size) out) := by
  simp only [pad_output_file, lt_irrefl, if_false, not_lt.mpr hcur, gap]
  split_ifs
  · exact emit_skip_chunk_eq (dvd_sub hlen hdvd)
  · rfl

/-- Closing writes the checksum, and compares the number of chunks with the header. -/
lemma close_output_file_eq (force : Bool) (hsparse : out.sparse = true) :
    close_output_file force out =
      let out' := (if out.use_crc then [Chunk.crc32 out.crc32] else []).foldl (emit blk_sz) out
      if out'.chunk_cnt ≠ out'.total_chunks ∧ force = false then none else some out' := by
  cases huse : out.use_crc with
  | true =>
    have hemit : { (out.write (Chunk.crc32 out.crc32).header.encode).write
          (toBytes 4 out.crc32.toNat) with chunk_cnt := toUInt32 (out.chunk_cnt + 1) } =
        out.emit blk_sz (.crc32 out.crc32) := by
      simp [emit, write, write_write, encode, payload, content,
        expand, sparse_crc32_nil]
    simp only [header] at hemit
    simp only [close_output_file, hsparse, huse, hemit, error, finish]
    cases force <;> simp
  | false =>
    simp only [close_output_file, hsparse, huse, error, finish]
    cases force <;> simp

lemma open_output_fd_eq (info : ImageInfo) (n : ℕ) (crc : Bool) :
    open_output_fd info true (toUInt32 n) crc =
      { file := empty.write (imageHeader info (n + crc.toNat)).encode
        sparse := true
        use_crc := crc
        total_chunks := toUInt32 (n + crc.toNat) } := by
  cases crc <;> simp [open_output_fd, write, imageHeader, toUInt32_toUInt32_add]

/-- The output with the chunks `cs` behind a header that counts `n` of them. -/
def emitted (info : ImageInfo) (n : ℕ) (crc : Bool) (cs : List Chunk) : OutputFile :=
  cs.foldl (emit info.block_size) (open_output_fd info true (toUInt32 n) crc)

lemma emitted_append (info : ImageInfo) (n : ℕ) (crc : Bool) (cs cs' : List Chunk) :
    emitted info n crc (cs ++ cs') = cs'.foldl (emit info.block_size) (emitted info n crc cs) :=
  foldl_append

lemma emitted_eq (info : ImageInfo) (n : ℕ) (crc : Bool) (cs : List Chunk) :
    emitted info n crc cs =
      { file := empty.write
          ((imageHeader info (n + crc.toNat)).encode ++ cs.flatMap encode)
        sparse := true
        cur_out_ptr := (cs.flatMap (expand info.block_size)).length
        chunk_cnt := toUInt32 cs.length
        crc32 := if crc then sparse_crc32 0 (cs.flatMap (content info.block_size)) else 0
        use_crc := crc
        total_chunks := toUInt32 (n + crc.toNat) } := by
  rw [emitted, foldl_emit, open_output_fd_eq]
  simp only [write_write, zero_add]
  congr 1
  split_ifs with hcs
  · rw [hcs]
    rfl
  · rfl

/-- Closing, with the chunks `cs` written. -/
lemma close_emitted (force crc : Bool) (n : ℕ) (cs : List Chunk) :
    (close_output_file force (emitted info n crc cs)).map file =
      if toUInt32 (imageChunks info cs crc).length ≠ toUInt32 (n + crc.toNat) ∧ force = false
      then none
      else some (empty.write ((imageHeader info (n + crc.toNat)).encode ++
        (imageChunks info cs crc).flatMap encode)) := by
  have hstate := emitted_eq info n crc cs
  have hclose : (if (emitted info n crc cs).use_crc then [Chunk.crc32 (emitted info n crc cs).crc32]
      else []).foldl (emit info.block_size) (emitted info n crc cs) =
      emitted info n crc (imageChunks info cs crc) := by
    rw [imageChunks, emitted_append, hstate]
    cases crc <;> rfl
  rw [close_output_file_eq info.block_size force (by rw [hstate])]
  simp only [hclose]
  rw [emitted_eq]
  split_ifs <;> rfl

end OutputFile

variable {info : ImageInfo}

/-- The image, with the chunks `cs` written by the time the queue is through, up to `p`. -/
lemma write_ext4_image_of_run (h : info.Proper) {force crc : Bool} {n p : ℕ} {cs : List Chunk}
    (hcount : count_sparse_chunks info q = toUInt32 n)
    (hrun : q.foldlM (writeBlock info force) (open_output_fd info true (toUInt32 n) crc) =
      some (emitted info n crc cs))
    (hend : (emitted info n crc cs).cur_out_ptr = p) (hp : p ≤ info.len)
    (hdvd : info.block_size ∣ p) :
    write_ext4_image info force q true crc =
      if toUInt32 (imageChunks info (cs ++ gap info p info.len) crc).length ≠
        toUInt32 (n + crc.toNat) ∧ force = false then none
      else some (empty.write ((imageHeader info (n + crc.toNat)).encode ++
        (imageChunks info (cs ++ gap info p info.len) crc).flatMap encode)) := by
  have hpad := pad_output_file_eq force (by rw [emitted_eq]) (hend ▸ hp) h.dvd (hend ▸ hdvd)
  rw [hend, ← emitted_append] at hpad
  simp only [write_ext4_image, hcount, hrun, Option.bind_eq_bind, Option.bind_some, hpad,
    finish]
  rw [← close_emitted force crc n]
  cases close_output_file force (emitted info n crc (cs ++ gap info p info.len)) <;> rfl

lemma length_imageChunks (info : ImageInfo) (cs : List Chunk) (crc : Bool) :
    (imageChunks info cs crc).length = cs.length + crc.toNat := by
  cases crc <;> simp [imageChunks]

lemma foldlM_open (h : info.Proper) (hq : Laid info 0 q) (force crc : Bool) (n : ℕ) :
    q.foldlM (writeBlock info force) (open_output_fd info true (toUInt32 n) crc) =
        some (emitted info n crc (chunksFrom info 0 q)) ∧
      (emitted info n crc (chunksFrom info 0 q)).cur_out_ptr = endFrom info 0 q :=
  foldlM_writeBlock h force hq (by rw [open_output_fd_eq]) (by rw [open_output_fd_eq]) (dvd_zero _)

/-- **The sparse image.**  The bytes that are written for a queue in order. -/
theorem write_sparse_image (h : info.Proper) (hq : Laid info 0 q) (force crc : Bool) :
    write_ext4_image info force q true crc = some (empty.write
      ((imageHeader info ((dataChunks info q).length + crc.toNat)).encode ++
        (imageChunks info (dataChunks info q) crc).flatMap encode)) := by
  obtain ⟨hrun, hend⟩ := foldlM_open h hq force crc (dataChunks info q).length
  have hle := endFrom_le h hq (zero_le _)
  rw [write_ext4_image_of_run h (count_sparse_chunks_eq hle) hrun hend hle
    (dvd_endFrom (dvd_zero _)), length_imageChunks]
  exact if_neg fun hne => hne.1 rfl

end Droid.Ext4
