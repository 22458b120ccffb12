import DroidPlatform.Ext4.Sparse.Lemmas.Chunks

/-!
# Raw images and sparse images

`write_ext4_image` writes a queue of data blocks as a raw image, or as a sparse image that `simg2img`
expands to one.  Both should be the image that the queue describes, and so the same.  They are, up to
the following (`raw_eq_sparse_iff`).

* A raw image is padded by writing a zero to the last byte of the filesystem, whatever was there.
* A fill chunk is made of whole filesystem blocks, so its value is also what follows a fill that ends
  within one.
* A block from a file that ends where the filesystem ends is refused (`>=` in `write_data_file`, where
  the others have `>`).  That ends the program or, with `force`, leaves the block out: the sparse
  image then has one chunk less than announced, unless there is no gap before the block.
* There can be `2^32` chunks, as for the round trip.
* There is no last byte in an empty filesystem.
-/

namespace Droid.Ext4

open List Option Nat Memory OutFile DataBlock OutputFile Simg2img

variable {info : ImageInfo} {q : List DataBlock} {crc force : Bool}

/-- A queue for an image: sorted, without overlap, and inside of the filesystem. -/
structure InOrder (info : ImageInfo) (q : List DataBlock) : Prop where
  order : q.Pairwise fun a b => a.stop info ≤ b.off info
  pos : ∀ b ∈ q, 0 < b.len
  len : ∀ b ∈ q, b.len ≤ maxWrite
  stop : ∀ b ∈ q, b.stop info ≤ info.len

/-- The raw image and the expanded sparse image are both what the queue describes. -/
def RawEqSparse (info : ImageInfo) (force crc : Bool) (q : List DataBlock) (stack : Memory) : Prop :=
  ∃ raw sparse out : OutFile, write_ext4_image info force q false crc = some raw ∧
    write_ext4_image info force q true crc = some sparse ∧
    Simg2img.main stack sparse.contents = some out ∧
    raw.contents = Memory.slice (imageByte info q) 0 info.len ∧
    out.contents = Memory.slice (imageByte info q) 0 info.len

/-- When they are. -/
structure Agreeable (info : ImageInfo) (force crc : Bool) (q : List DataBlock) : Prop where
  empty : info.len = 0 → force = true
  last : imageByte info q (info.len - 1) = 0
  tail : ∀ b ∈ q, b.ZeroTail info
  file : ∀ b ∈ q, b.isFile = true → b.stop info = info.len →
    force = true ∧ endFrom info 0 q.dropLast = b.off info ∧ ∀ j < b.len, b.memory j = 0
  count : q.length + gapCount info 0 q + crc.toNat < 2 ^ 32

/-! ## The raw image -/

/-- The byte at `i` of a raw image. -/
def rawByte (info : ImageInfo) (q : List DataBlock) (i : ℕ) : UInt8 :=
  if i = info.len - 1 then 0 else imageByte info q i

namespace OutputFile

variable {force : Bool} {out : OutputFile} {b : DataBlock}

/-- The buffer, written as often as it takes. -/
lemma foldl_pieces_write (out : OutputFile) (fill_val : UInt32) (len : ℕ) :
    (pieces 4096 len).foldl
      (fun out write_len => out.write (((fillBuf fill_val).slice 0 4096).take write_len)) out =
        out.write ((fillBuf fill_val).slice 0 len) := by
  obtain ⟨out', hout', heq⟩ := foldlM_pieces
    (fun out write_len => some (out.write (((fillBuf fill_val).slice 0 4096).take write_len)))
    (fun a out' => out' = out.write ((fillBuf fill_val).slice 0 a)) (show 0 < 4096 by decide) len
    (s := out) (by simp [write, slice]) (by
      rintro a n _ hdvd - hn rfl
      refine ⟨_, rfl, ?_⟩
      obtain ⟨m, hm⟩ := Nat.exists_eq_add_of_le hn
      have hfour : 4 ∣ a := (by decide : 4 ∣ 4096).trans hdvd
      rw [hm, slice_add, take_left' (length_slice _), slice_add,
        zero_add, slice_fillBuf fill_val hfour]
      simp [write, write_write])
  rw [← heq, ← some_inj, ← hout']
  exact (foldlM_pure (m := Option)).symm

/-- A block of the queue, in a raw image. -/
lemma writeBlock_raw (force : Bool) (hraw : out.sparse = false) (hb : b.Fits info) :
    writeBlock info force out b = some ((out.seek (b.off info)).write b.bytes) := by
  have hstop : ¬ info.len < b.off info + b.len := not_lt.mpr hb.stop
  cases hsource : b.source with
  | data bytes =>
    simp [writeBlock, hsource, write_data_block, hstop, hraw, Writes.finish, DataBlock.bytes, memory]
  | fill fill_val =>
    simp [writeBlock, hsource, write_fill_block, hstop, hraw, Writes.finish, foldl_pieces_write,
      DataBlock.bytes, memory]
  | file contents offset =>
    have hfile : ¬ info.len ≤ b.off info + b.len :=
      not_le.mpr (hb.file (by rw [isFile, hsource]))
    simp [writeBlock, hsource, write_data_file, hfile, hraw, take_mapping hsource, Writes.finish]

/-- A block from a file that ends where the filesystem ends is not written at all. -/
lemma writeBlock_of_refused (hfile : b.isFile = true) (hstop : b.stop info = info.len) :
    writeBlock info force out b = if force then some out else none := by
  cases hsource : b.source with
  | file contents offset =>
    have hle : info.len ≤ b.off info + b.len := hstop.ge
    simp [writeBlock, hsource, write_data_file, hle, error, Writes.finish]
  | data bytes | fill fill_val => simp [isFile, hsource] at hfile

/-- The queue is written where it belongs, over zeros. -/
lemma foldlM_writeBlock_raw (h : info.Proper) (force : Bool) : ∀ {q : List DataBlock} {p : ℕ}
    {out : OutputFile}, Laid info p q → out.sparse = false → out.file.size ≤ info.len →
    (∀ i, p ≤ i → out.file.bytes i = 0) →
    ∃ out', q.foldlM (writeBlock info force) out = some out' ∧ out'.sparse = false ∧
      out'.file.size ≤ info.len ∧
      ∀ i, out'.file.bytes i = if i < p then out.file.bytes i else imageByte info q i
  | [], p, out, _, hraw, hsize, hzero => by
    refine ⟨out, rfl, hraw, hsize, fun i => ?_⟩
    split_ifs with hi
    · rfl
    · exact hzero i (not_lt.mp hi)
  | b :: q, p, out, ⟨hp, hb, hq⟩, hraw, hsize, hzero => by
    have hle : b.stop info ≤ b.padEnd info := Nat.add_le_add_left (le_align h b.len) _
    have hbyte : ∀ i, ((out.seek (b.off info)).write b.bytes).file.bytes i =
        if b.off info ≤ i ∧ i < b.stop info then b.memory (i - b.off info)
        else out.file.bytes i := by
      intro i
      show (out.file.bytes.write (b.off info) b.bytes) i = _
      rw [DataBlock.bytes, write_slice_apply, zero_add, stop]
    obtain ⟨out', hrun, hraw', hsize', hbytes⟩ := foldlM_writeBlock_raw h force hq
      (show ((out.seek (b.off info)).write b.bytes).sparse = false from hraw)
      (by
        show (if b.bytes = [] then out.file.size
          else max out.file.size (b.off info + b.bytes.length)) ≤ info.len
        have := hb.stop
        rw [stop] at this
        rw [length_bytes]
        split_ifs <;> omega)
      (fun i hi => by
        rw [hbyte, if_neg (by omega)]
        exact hzero i (by rw [padEnd] at hi; omega))
    refine ⟨out', by rw [foldlM_cons, writeBlock_raw force hraw hb]; exact hrun, hraw', hsize',
      fun i => ?_⟩
    rw [hbytes, hbyte]
    by_cases hcovers : b.off info ≤ i ∧ i < b.stop info
    · rw [if_pos (by omega), if_pos hcovers, if_neg (by omega),
        imageByte_cons_of_covers hcovers.1 hcovers.2]
    · rw [imageByte_cons_of_not_covers hcovers]
      -- before the block, or behind it
      split_ifs with hpad hi hi
      · rfl
      · rw [hzero i (not_lt.mp hi), imageByte_of_lt h hq hpad]
      · rw [padEnd] at hpad
        omega
      · rfl

lemma foldlM_open_raw (h : info.Proper) (hq : Laid info 0 q) (force crc : Bool) (n : ℕ) :
    ∃ out, q.foldlM (writeBlock info force) (open_output_fd info false n crc) = some out ∧
      out.sparse = false ∧ out.file.size ≤ info.len ∧
      ∀ i, out.file.bytes i = imageByte info q i := by
  obtain ⟨out, hrun, hraw, hsize, hbytes⟩ := foldlM_writeBlock_raw h force hq
    (show (open_output_fd info false n crc).sparse = false from rfl) (zero_le _) fun _ _ => rfl
  exact ⟨out, hrun, hraw, hsize, fun i => (hbytes i).trans (if_neg (not_lt_zero i))⟩

/-- The padding of a raw image. -/
lemma pad_output_file_raw (hraw : out.sparse = false) :
    (out.pad_output_file info force info.len).finish =
      if info.len = 0 then if force then some out else none
      else some ((out.seek (info.len - 1)).write [0]) := by
  simp only [pad_output_file, if_false, hraw, Bool.false_eq_true]
  split_ifs <;> simp_all [error, Writes.finish]

end OutputFile

/-- The raw image, with the blocks `written` written by the time the queue is through. -/
lemma write_raw_of_run {written : List DataBlock} {out : OutputFile}
    (hrun : q.foldlM (writeBlock info force)
      (open_output_fd info false (count_sparse_chunks info q) crc) = some out)
    (hraw : out.sparse = false) (hsize : out.file.size ≤ info.len)
    (hbytes : ∀ i, out.file.bytes i = imageByte info written i) :
    ∃ f : OutFile, f.contents = slice (rawByte info written) 0 info.len ∧
      write_ext4_image info force q false crc =
        if info.len = 0 ∧ force = false then none else some f := by
  simp only [write_ext4_image, hrun, bind_eq_bind, bind_some,
    pad_output_file_raw hraw]
  rcases Nat.eq_zero_or_pos info.len with hlen | hlen
  · refine ⟨out.file, ?_, ?_⟩
    · have hempty : out.file.size = 0 := by omega
      rw [contents, hlen, hempty]
      rfl
    · cases force <;> simp [hlen, close_output_file, hraw]
  · refine ⟨(out.file.seek (info.len - 1)).write [0], ?_, ?_⟩
    · have hsize' : ((out.file.seek (info.len - 1)).write [0]).size = info.len := by
        show max out.file.size (info.len - 1 + 1) = info.len
        omega
      rw [contents, hsize']
      refine slice_congr fun i _ hi => ?_
      show out.file.bytes.write (info.len - 1) [0] i = rawByte info written i
      rw [rawByte]
      split_ifs with hlast
      · simp [Memory.write, hlast]
      · rw [write_of_lt (by omega), hbytes]
    · simp [hlen.ne', close_output_file, hraw, OutputFile.write, OutputFile.seek]

/-- The raw image of a queue that is written where it belongs. -/
lemma write_raw_image (h : info.Proper) (hq : Laid info 0 q) (force crc : Bool) :
    ∃ f : OutFile, f.contents = slice (rawByte info q) 0 info.len ∧
      write_ext4_image info force q false crc =
        if info.len = 0 ∧ force = false then none else some f := by
  obtain ⟨out, hrun, hraw, hsize, hbytes⟩ := foldlM_open_raw h hq force crc
    (count_sparse_chunks info q)
  exact write_raw_of_run hrun hraw hsize hbytes

/-! ## Queues that are written as a whole -/

/-- In a queue in order, at most the last block can be one that is refused. -/
lemma InOrder.laid_or (h : info.Proper) (hq : InOrder info q) : Laid info 0 q ∨
    ∃ q' b, q = q' ++ [b] ∧ b.isFile = true ∧ b.stop info = info.len ∧ Laid info 0 q' := by
  by_cases hrefused : ∃ b ∈ q, b.isFile = true ∧ b.stop info = info.len
  · obtain ⟨b, hb, hfile, hstop⟩ := hrefused
    obtain ⟨q', rest, rfl⟩ := append_of_mem hb
    obtain ⟨horder, hrest, hbefore⟩ := pairwise_append.mp hq.order
    obtain rfl : rest = [] := by
      refine eq_nil_iff_forall_not_mem.mpr fun c hc => ?_
      have hmem : c ∈ q' ++ b :: rest := mem_append_right _ (mem_cons_of_mem _ hc)
      have hle := (pairwise_cons.mp hrest).1 c hc
      have hlen := hq.stop c hmem
      have hpos := hq.pos c hmem
      rw [DataBlock.stop] at hlen
      omega
    refine .inr ⟨q', b, rfl, hfile, hstop, laid_of_pairwise h horder (fun a ha => ?_)
      fun _ _ => zero_le _⟩
    have hmem : a ∈ q' ++ [b] := mem_append_left _ ha
    have hlt : a.stop info < info.len := by
      have hle := hbefore a ha b mem_cons_self
      have hpos := hq.pos b hb
      rw [DataBlock.stop] at hstop
      omega
    exact ⟨hq.pos a hmem, hq.len a hmem, hlt.le, fun _ => hlt⟩
  · refine .inl (laid_of_pairwise h hq.order (fun b hb => ?_) fun _ _ => zero_le _)
    have hle := hq.stop b hb
    exact ⟨hq.pos b hb, hq.len b hb, hle,
      fun hfile => lt_of_le_of_ne hle fun hstop => hrefused ⟨b, hb, hfile, hstop⟩⟩

/-- The raw image is right when its last byte is. -/
lemma slice_rawByte_eq_iff (hq : Laid info 0 q) :
    slice (rawByte info q) 0 info.len = slice (imageByte info q) 0 info.len ↔
      imageByte info q (info.len - 1) = 0 := by
  rw [slice_eq_iff]
  refine ⟨fun heq => ?_, fun hlast i _ _ => ?_⟩
  · rcases Nat.eq_zero_or_pos info.len with hlen | hlen
    · -- there is no block in an empty filesystem
      refine imageByte_of_forall fun b hb _ => ?_
      have hpos := (fits_of_mem hq b hb).pos
      have hstop := (fits_of_mem hq b hb).stop
      omega
    · have hbyte := heq (info.len - 1) (zero_le _) (by omega)
      rw [rawByte, if_pos rfl] at hbyte
      exact hbyte.symm
  · rw [rawByte]
    split_ifs with hi
    · rw [hi, hlast]
    · rfl

/-- The expanded image is right when every fill ends with zeros. -/
lemma slice_chunkByte_eq_iff (h : info.Proper) (hq : Laid info 0 q) :
    slice (chunkByte info q) 0 info.len = slice (imageByte info q) 0 info.len ↔
      ∀ b ∈ q, b.ZeroTail info := by
  rw [slice_eq_iff, zero_add]
  exact ⟨zeroTail_of_chunkByte_eq h hq, fun hzero i _ _ => chunkByte_eq_imageByte h hq hzero i⟩

lemma rawEqSparse_iff_of_laid (h : info.Proper) (hlaid : Laid info 0 q) (force crc : Bool)
    (stack : Memory) :
    RawEqSparse info force crc q stack ↔ Agreeable info force crc q := by
  obtain ⟨f, hf, hraw⟩ := write_raw_image h hlaid force crc
  have hsparse := write_sparse_image h hlaid force crc
  constructor
  · rintro ⟨raw, sparse, out, hraw', hsparse', hmain, hcontents, hcontents'⟩
    obtain rfl := some_inj.mp (hsparse.symm.trans hsparse')
    rw [contents_empty_write] at hmain
    rw [hraw] at hraw'
    split_ifs at hraw' with hempty
    obtain rfl := some_inj.mp hraw'
    have hcount : (dataChunks info q).length + crc.toNat < 2 ^ 32 := by
      refine not_le.mp fun hle => ?_
      rw [main_of_wrap stack h hlaid hle] at hmain
      cases hmain
    obtain ⟨out', hmain', hout'⟩ := main_dataChunks stack h hlaid crc hcount
    obtain rfl := some_inj.mp (hmain'.symm.trans hmain)
    rw [length_dataChunks] at hcount
    exact { empty := fun hlen => Bool.not_eq_false _ ▸ fun hforce => hempty ⟨hlen, hforce⟩
            last := (slice_rawByte_eq_iff hlaid).mp (hf.symm.trans hcontents)
            tail := (slice_chunkByte_eq_iff h hlaid).mp (hout'.symm.trans hcontents')
            file := fun b hb hfile hstop => absurd hstop ((fits_of_mem hlaid b hb).file hfile).ne
            count := hcount }
  · intro hagree
    have hcount := hagree.count
    rw [← length_dataChunks] at hcount
    obtain ⟨out, hmain, hout⟩ := main_dataChunks stack h hlaid crc hcount
    refine ⟨f, _, out, ?_, hsparse, ?_, ?_, ?_⟩
    · rw [hraw, if_neg]
      rintro ⟨hlen, hforce⟩
      exact Bool.false_ne_true (hforce.symm.trans (hagree.empty hlen))
    · rw [contents_empty_write]
      exact hmain
    · exact hf.trans ((slice_rawByte_eq_iff hlaid).mpr hagree.last)
    · exact hout.trans ((slice_chunkByte_eq_iff h hlaid).mpr hagree.tail)

/-! ## Queues with a block that is refused -/

section Refused

lemma chunksFrom_append (info : ImageInfo) (q1 q2 : List DataBlock) (p : ℕ) :
    chunksFrom info p (q1 ++ q2) = chunksFrom info p q1 ++ chunksFrom info (endFrom info p q1) q2 := by
  induction q1 generalizing p with
  | nil => rfl
  | cons b q1 ih => rw [cons_append, chunksFrom, ih, chunksFrom, endFrom, append_assoc,
      cons_append]

lemma endFrom_append (info : ImageInfo) (q1 q2 : List DataBlock) (p : ℕ) :
    endFrom info p (q1 ++ q2) = endFrom info (endFrom info p q1) q2 := by
  induction q1 generalizing p with
  | nil => rfl
  | cons b q1 ih => exact ih (b.padEnd info)

variable {b : DataBlock}

lemma imageByte_append_singleton (hbefore : ∀ a ∈ q, a.stop info ≤ b.off info) (i : ℕ) :
    imageByte info (q ++ [b]) i =
      if b.off info ≤ i ∧ i < b.stop info then b.memory (i - b.off info)
      else imageByte info q i := by
  rw [imageByte, find?_append]
  split_ifs with hcovers
  · rw [find?_eq_none.mpr, find?_cons_of_pos (by simpa using hcovers)]
    · rfl
    · intro a ha hcovers'
      have := hbefore a ha
      simp only [decide_eq_true_iff] at hcovers'
      omega
  · rw [find?_cons_of_neg (by simpa using hcovers), find?_nil, or_none, imageByte]

/-- A block of zeros changes nothing. -/
lemma imageByte_append_zero (hbefore : ∀ a ∈ q, a.stop info ≤ b.off info)
    (hzero : ∀ j < b.len, b.memory j = 0) : imageByte info (q ++ [b]) = imageByte info q := by
  funext i
  rw [imageByte_append_singleton hbefore]
  split_ifs with hcovers
  · rw [imageByte_of_forall fun a ha hcovers' => absurd (hbefore a ha) (by omega)]
    exact hzero _ (by rw [stop] at hcovers; omega)
  · rfl

lemma endFrom_le_of_forall (h : info.Proper) : ∀ {q : List DataBlock} {p : ℕ}, p ≤ b.off info →
    (∀ a ∈ q, a.stop info ≤ b.off info) → endFrom info p q ≤ b.off info
  | [], _, hp, _ => hp
  | a :: q, _, _, hbefore =>
    endFrom_le_of_forall h (q := q) (padEnd_le_off h (hbefore a mem_cons_self))
      fun c hc => hbefore c (mem_cons_of_mem _ hc)

variable (h : info.Proper) (hq : InOrder info (q ++ [b])) (hlaid : Laid info 0 q)
  (hfile : b.isFile = true) (hstop : b.stop info = info.len)

include hq in
lemma InOrder.stop_le_off : ∀ a ∈ q, a.stop info ≤ b.off info := fun a ha =>
  (pairwise_append.mp hq.order).2.2 a ha b mem_cons_self

include h hq in
lemma InOrder.endFrom_le_off : endFrom info 0 q ≤ b.off info :=
  endFrom_le_of_forall h (zero_le _) hq.stop_le_off

include hq hstop in
lemma InOrder.off_lt_len : b.off info < info.len := by
  have hpos := hq.pos b (mem_append_right _ mem_cons_self)
  rw [DataBlock.stop] at hstop
  omega

include h hstop in
lemma DataBlock.dvd_len : info.block_size ∣ b.len := by
  have hoff : info.block_size ∣ b.off info := dvd_mul_left _ _
  rw [← Nat.dvd_add_right hoff, ← stop, hstop]
  exact h.dvd

include h hstop in
lemma endFrom_refused : endFrom info 0 (q ++ [b]) = info.len := by
  rw [endFrom_append]
  show b.padEnd info = info.len
  rw [padEnd, align_eq_self h (dvd_len h hstop)]
  exact hstop

include h hq hstop in
/-- What is written is what comes before the block; what is announced is one more, if there is a gap
between the two. -/
lemma length_dataChunks_refused : (dataChunks info (q ++ [b])).length =
    (dataChunks info q).length + if endFrom info 0 q < b.off info then 1 else 0 := by
  have hlt : endFrom info 0 q < info.len := (hq.endFrom_le_off h).trans_lt (hq.off_lt_len hstop)
  rw [dataChunks, endFrom_refused h hstop, chunksFrom_append, dataChunks]
  simp only [chunksFrom, gap, lt_irrefl, if_false]
  split_ifs <;> simp

include h hq hlaid hstop in
/-- The gap and the block are two filesystem blocks, and one chunk. -/
lemma length_dataChunks_lt (hgap : endFrom info 0 q < b.off info) :
    (dataChunks info q).length < info.len / info.block_size := by
  have hlt : endFrom info 0 q < info.len := hgap.trans (hq.off_lt_len hstop)
  have hsum := sum_blocks_dataChunks h hlaid
  have hpos := blocks_pos_dataChunks h hlaid
  have hend : info.block_size ∣ endFrom info 0 q := dvd_endFrom (dvd_zero _)
  have hskip : 2 ≤ (info.len - endFrom info 0 q) / info.block_size := by
    rw [le_div_iff_mul_le h.pos]
    have h1 := le_of_dvd (Nat.sub_pos_of_lt hgap) (dvd_sub (dvd_mul_left _ _) hend)
    have h2 := le_of_dvd (hq.pos b (mem_append_right _ mem_cons_self))
      (dvd_len h hstop)
    rw [stop] at hstop
    omega
  simp only [dataChunks, gap, if_pos hlt, map_append, sum_append_nat, map_cons, sum_cons, mem_append,
    length_append, length_cons, length_nil, Chunk.blocks] at hsum hpos ⊢
  have hle : (chunksFrom info 0 q).length ≤ ((chunksFrom info 0 q).map Chunk.blocks).sum := by
    rw [← length_map]
    refine length_le_sum_of_one_le _ fun n hn => ?_
    obtain ⟨c, hc, rfl⟩ := mem_map.mp hn
    exact hpos c (.inl hc)
  omega

include h hlaid hfile hstop in
lemma write_sparse_refused (crc : Bool) :
    write_ext4_image info true (q ++ [b]) true crc = some (empty.write
      ((imageHeader info ((dataChunks info (q ++ [b])).length + crc.toNat)).encode ++
        (imageChunks info (dataChunks info q) crc).flatMap Chunk.encode)) := by
  obtain ⟨hrun, hend⟩ := foldlM_open h hlaid true crc (dataChunks info (q ++ [b])).length
  rw [write_ext4_image_of_run h (count_sparse_chunks_eq (endFrom_refused h hstop).le)
    (by
      rw [foldlM_append, hrun]
      simp [writeBlock_of_refused hfile hstop]) hend
    (endFrom_le h hlaid (zero_le _)) (dvd_endFrom (dvd_zero _))]
  exact if_neg fun hne => Bool.false_ne_true hne.2.symm

include h hlaid hfile hstop in
lemma write_raw_refused (crc : Bool) :
    ∃ f : OutFile, f.contents = slice (rawByte info q) 0 info.len ∧
      write_ext4_image info true (q ++ [b]) false crc = some f := by
  obtain ⟨out, hrun, hraw, hsize, hbytes⟩ := foldlM_open_raw h hlaid true crc
    (count_sparse_chunks info (q ++ [b]))
  obtain ⟨f, hf, hwrite⟩ := write_raw_of_run (by
      rw [foldlM_append, hrun]
      simp [writeBlock_of_refused hfile hstop]) hraw hsize hbytes
  exact ⟨f, hf, hwrite.trans (if_neg fun hne => Bool.false_ne_true hne.2.symm)⟩

include hfile hstop in
/-- Without `force`, the program ends. -/
lemma write_refused (crc : Bool) : write_ext4_image info false (q ++ [b]) false crc = none := by
  simp [write_ext4_image, writeBlock_of_refused hfile hstop]

include h hq hlaid hstop in
/-- A gap before the block is one chunk that is announced and not there. -/
lemma main_refused_of_gap (crc : Bool) (stack : Memory) (hgap : endFrom info 0 q < b.off info) :
    main stack
      ((imageHeader info ((dataChunks info (q ++ [b])).length + crc.toNat)).encode ++
        (imageChunks info (dataChunks info q) crc).flatMap Chunk.encode) = none := by
  have hlength := length_dataChunks_refused h hq hstop
  have hlt := length_dataChunks_lt h hq hlaid hstop hgap
  have hblocks := h.blocks
  have hcrc : crc.toNat ≤ 1 := Bool.toNat_le crc
  rw [if_pos hgap] at hlength
  rcases lt_or_ge ((dataChunks info q).length + 1 + crc.toNat) (2 ^ 32) with hcount | hcount
  · refine main_of_short stack h (wf_dataChunks h hlaid) (not_crc32_dataChunks h hlaid) ?_
    rw [hlength, toUInt32_eq_self hcount]
    omega
  · refine main_of_none stack h ((zero_le _).trans_lt (hq.off_lt_len hstop)) ?_ _
    rw [toUInt32]
    omega

include h hq hlaid hfile hstop in
lemma agreeable_of_refused {stack : Memory} (heq : RawEqSparse info force crc (q ++ [b]) stack) :
    Agreeable info force crc (q ++ [b]) := by
  obtain ⟨raw, sparse, out, hraw, hsparse, hmain, hcontents, hcontents'⟩ := heq
  obtain rfl : force = true := by
    cases force with
    | true => rfl
    | false =>
      rw [write_refused hfile hstop] at hraw
      cases hraw
  obtain ⟨f, hf, hwrite⟩ := write_raw_refused h hlaid hfile hstop crc
  obtain rfl := some_inj.mp (hwrite.symm.trans hraw)
  obtain rfl := some_inj.mp
    ((write_sparse_refused h hlaid hfile hstop crc).symm.trans hsparse)
  rw [contents_empty_write] at hmain
  have hbefore := hq.stop_le_off
  -- the block is not in the raw image
  have hzero : ∀ j < b.len, b.memory j = 0 := by
    intro j hj
    have hbyte := slice_eq_iff.mp (hf.symm.trans hcontents) (b.off info + j) (zero_le _)
      (by rw [stop] at hstop; omega)
    rw [imageByte_append_singleton hbefore, if_pos ⟨le_add_right _ _, Nat.add_lt_add_left hj _⟩,
      Nat.add_sub_cancel_left, rawByte, imageByte_of_forall, ite_self] at hbyte
    · exact hbyte.symm
    · intro a ha hcovers
      have := hbefore a ha
      omega
  have hgap : endFrom info 0 q = b.off info := by
    refine (hq.endFrom_le_off h).eq_of_not_lt fun hgap => ?_
    rw [main_refused_of_gap h hq hlaid hstop crc stack hgap] at hmain
    cases hmain
  have hlength := length_dataChunks_refused h hq hstop
  rw [if_neg hgap.not_lt, add_zero] at hlength
  have hcount : (dataChunks info q).length + crc.toNat < 2 ^ 32 := by
    refine not_le.mp fun hle => ?_
    rw [hlength, main_of_wrap stack h hlaid hle] at hmain
    cases hmain
  obtain ⟨out', hmain', hout'⟩ := main_dataChunks stack h hlaid crc hcount
  rw [hlength] at hmain
  obtain rfl := some_inj.mp (hmain'.symm.trans hmain)
  rw [imageByte_append_zero hbefore hzero] at hcontents hcontents'
  have htail := (slice_chunkByte_eq_iff h hlaid).mp (hout'.symm.trans hcontents')
  exact { empty := fun _ => rfl
          last := by
            rw [imageByte_append_zero hbefore hzero]
            exact (slice_rawByte_eq_iff hlaid).mp (hf.symm.trans hcontents)
          tail := by
            intro c hc
            rcases mem_append.mp hc with hc | hc
            · exact htail c hc
            · rw [mem_singleton.mp hc]
              exact zeroTail_of_not_fill (not_isFill_of_isFile hfile)
          file := by
            intro c hc hfile' hstop'
            rcases mem_append.mp hc with hc | hc
            · exact absurd hstop' ((fits_of_mem hlaid c hc).file hfile').ne
            · rw [mem_singleton.mp hc, dropLast_concat]
              exact ⟨rfl, hgap, hzero⟩
          count := by rwa [← length_dataChunks, hlength] }

include h hq hlaid hfile hstop in
lemma rawEqSparse_of_refused (stack : Memory) (hagree : Agreeable info force crc (q ++ [b])) :
    RawEqSparse info force crc (q ++ [b]) stack := by
  obtain ⟨rfl, hgap, hzero⟩ := hagree.file b (mem_append_right _ mem_cons_self) hfile hstop
  rw [dropLast_concat] at hgap
  have himage := imageByte_append_zero hq.stop_le_off hzero
  have hlength := length_dataChunks_refused h hq hstop
  rw [if_neg hgap.not_lt] at hlength
  have hcount := hagree.count
  rw [← length_dataChunks, hlength] at hcount
  obtain ⟨f, hf, hwrite⟩ := write_raw_refused h hlaid hfile hstop crc
  obtain ⟨out, hmain, hout⟩ := main_dataChunks stack h hlaid crc hcount
  refine ⟨f, _, out, hwrite, write_sparse_refused h hlaid hfile hstop crc, ?_, ?_, ?_⟩
  · rw [contents_empty_write, hlength]
    exact hmain
  · rw [himage]
    exact hf.trans ((slice_rawByte_eq_iff hlaid).mpr (himage ▸ hagree.last))
  · rw [himage]
    exact hout.trans ((slice_chunkByte_eq_iff h hlaid).mpr fun a ha =>
      hagree.tail a (mem_append_left _ ha))

end Refused

/-- **Raw and sparse.**  For every filesystem and every queue in order: the raw image and the expanded
sparse image are both the image of the queue, exactly when `Agreeable` holds. -/
theorem raw_eq_sparse_iff (h : info.Proper) (hq : InOrder info q) (force crc : Bool)
    (stack : Memory) : RawEqSparse info force crc q stack ↔ Agreeable info force crc q := by
  rcases hq.laid_or h with hlaid | ⟨q, b, rfl, hfile, hstop, hlaid⟩
  · exact rawEqSparse_iff_of_laid h hlaid force crc stack
  · exact ⟨agreeable_of_refused h hq hlaid hfile hstop,
      rawEqSparse_of_refused h hq hlaid hfile hstop stack⟩

/-- One block of data in the middle of four. -/
theorem raw_eq_sparse_iff_middle :
    RawEqSparse ⟨4096, 1024⟩ false true [⟨1, 100, .data fun _ => 7⟩] (fun _ => 0) := by
  refine (raw_eq_sparse_iff ⟨.inl rfl, ⟨4, rfl⟩, by decide⟩
    ⟨pairwise_singleton _ _, by simp, by simp [maxWrite],
      by simp [stop, off]⟩ false true _).mpr
    ⟨by simp, rfl, ?_, by simp [isFile], by decide⟩
  intro b hb
  rw [mem_singleton.mp hb]
  exact zeroTail_of_not_fill rfl

/-- **The last byte.**  A filesystem of one block that is full: the last byte is lost in the raw
image. -/
theorem raw_loses_last_byte :
    InOrder ⟨1024, 1024⟩ [⟨0, 1024, .data fun _ => 7⟩] ∧
      ∀ force crc stack, ¬ RawEqSparse ⟨1024, 1024⟩ force crc [⟨0, 1024, .data fun _ => 7⟩] stack := by
  refine ⟨⟨pairwise_singleton _ _, by simp, by simp [maxWrite],
    by simp [stop, off]⟩, fun force crc stack heq => ?_⟩
  have hlaid : Laid ⟨1024, 1024⟩ 0 [⟨0, 1024, .data fun _ => 7⟩] :=
    ⟨zero_le _, ⟨by decide, by decide, by decide, by simp [isFile]⟩, trivial⟩
  have hlast := ((rawEqSparse_iff_of_laid ⟨.inl rfl, dvd_rfl, by decide⟩ hlaid force crc
    stack).mp heq).last
  exact absurd hlast (by decide)

end Droid.Ext4
