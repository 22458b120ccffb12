import DroidPlatform.Lk.Lemmas.PlainImage

/-!
# The stream does not depend on its packages

A plain sparse image, cut into packages in any way that leaves at least a file header in the first
and a block in each of the others but the last, is written to flash as if it came in one piece
(`write_sparse_packages_spec`).

The invariant is `Ready`: what is still to come of the image, the bytes in hand and those of later
packages taken together, and what is still to be written, from the point the state machine has
reached.  That point may be in the middle of a chunk header, whose first bytes are then in
`unhandle_buf`, or in the middle of the data of a raw chunk, of which whole flash blocks have been
written.  Each phase takes a step from one such point to another, or keeps everything for the next
package.
-/

namespace Droid.Lk

open List Unsparse

open Ext4 StatusE UnsparsePhase

variable {σ : Type*} {emmc : Emmc σ} {h : SparseHeader} {s t : Unsparse σ}
  {stream r : List UInt8} {todo : List (ℕ × UInt8)}

/-- The flash does what it is told. -/
structure Emmc.Works (emmc : Emmc σ) : Prop where
  write : ∀ flash addr bytes, (emmc.emmc_write flash addr bytes).1 = bytes.length
  read : ∀ flash addr bytes,
    (emmc.emmc_read (emmc.emmc_write flash addr bytes).2 addr bytes.length).1 = bytes ∧
    (emmc.emmc_read (emmc.emmc_write flash addr bytes).2 addr bytes.length).2.1 = bytes.length

namespace Unsparse

/-- The address of the next write. -/
def addr (s : Unsparse σ) : ℕ := s.status.image_base_addr + s.data.image_address_offset

lemma write_checked_spec (hworks : emmc.Works) (s : Unsparse σ) (bytes : List UInt8) :
    ∃ flash, s.write_checked emmc bytes =
      (S_DONE, { s with flash := flash, log := s.log ++ [(toUInt64 s.addr, bytes)] }) := by
  have hwrite := hworks.write s.flash (toUInt64 s.addr) bytes
  have hread := hworks.read s.flash (toUInt64 s.addr) bytes
  unfold write_checked emmc_write
  simp only [addr] at hwrite hread ⊢
  by_cases hchk : s.status.checksum_enabled
  · refine ⟨(emmc.emmc_read (emmc.emmc_write s.flash (toUInt64
      (s.status.image_base_addr + s.data.image_address_offset)) bytes).2 (toUInt64
      (s.status.image_base_addr + s.data.image_address_offset)) bytes.length).2.2, ?_⟩
    simp [hwrite, hchk, hread]
  · refine ⟨(emmc.emmc_write s.flash (toUInt64
      (s.status.image_base_addr + s.data.image_address_offset)) bytes).2, ?_⟩
    simp [hwrite, hchk]

end Unsparse

/-! ## Where the state machine is -/

/-- `stream` is still to come, and `todo` is still to be written. -/
inductive Ready (h : SparseHeader) (s : Unsparse σ) (stream : List UInt8)
    (todo : List (ℕ × UInt8)) : Prop
  | start (cs : List PlainChunk) (hphase : s.status.wait_phase = UNSPARSE_WAIT_SPARSE_HEADER)
      (hvalid : ∀ c ∈ cs, c.Valid h.blk_sz) (hstream : stream = sparseImage h cs)
      (htodo : todo = rawBytes h.blk_sz s.status.image_base_addr cs)
  | header (cs : List PlainChunk) (hphase : s.status.wait_phase = UNSPARSE_WAIT_CHUNK_HEADER)
      (hhdr : s.data.sparse_hdr = h) (hvalid : ∀ c ∈ cs, c.Valid h.blk_sz)
      (hkept : s.data.unhandle_buf.length < CHUNK_HEADER_LEN)
      (hstream : s.data.unhandle_buf ++ stream = encodeChunks cs)
      (htodo : todo = rawBytes h.blk_sz s.addr cs)
  | data (bytes : List UInt8) (cs : List PlainChunk)
      (hphase : s.status.wait_phase = UNSPARSE_WAIT_CHUNK_DATA) (hhdr : s.data.sparse_hdr = h)
      (hvalid : ∀ c ∈ cs, c.Valid h.blk_sz) (hkept : s.data.unhandle_buf = [])
      (hremain : s.data.chunk_remain_data_size = bytes.length)
      (hblocks : SDMMC_BLK_SIZE ∣ bytes.length) (hstream : stream = bytes ++ encodeChunks cs)
      (htodo : todo = placed s.addr bytes ++ rawBytes h.blk_sz (s.addr + bytes.length) cs)

/-- `Ready` does not depend on the package in hand. -/
lemma Ready.feed (hready : Ready h s stream todo) (buf : List UInt8) :
    Ready h { s with status := { s.status with buf := buf } } stream todo := by
  cases hready with
  | start cs hphase hvalid hstream htodo => exact .start cs hphase hvalid hstream htodo
  | header cs hphase hhdr hvalid hkept hstream htodo =>
    exact .header cs hphase hhdr hvalid hkept hstream htodo
  | data bytes cs hphase hhdr hvalid hkept hremain hblocks hstream htodo =>
    exact .data bytes cs hphase hhdr hvalid hkept hremain hblocks hstream htodo

lemma encodeChunks_eq_nil {cs : List PlainChunk} {a : List UInt8} (hlen : a.length < CHUNK_HEADER_LEN)
    (heq : a = encodeChunks cs) : cs = [] := by
  cases cs with
  | nil => rfl
  | cons c cs =>
    have hlong := congrArg length heq
    rw [encodeChunks_cons, length_append, ChunkHeader.length_encode] at hlong
    omega

/-- When the image is over, everything has been written. -/
lemma Ready.todo_eq_nil (hready : Ready h s [] todo) : todo = [] := by
  cases hready with
  | start cs _ _ hstream _ =>
    have hlong := congrArg length hstream
    rw [sparseImage, length_append] at hlong
    simp [SPARSE_HEADER_LEN] at hlong
    omega
  | header cs _ _ _ hkept hstream htodo =>
    rw [append_nil] at hstream
    rw [htodo, encodeChunks_eq_nil hkept hstream]
    rfl
  | data bytes cs _ _ _ _ _ _ hstream htodo =>
    obtain ⟨hbytes, hcs⟩ := append_eq_nil_iff.mp hstream.symm
    have hnil := encodeChunks_eq_nil (by simp [CHUNK_HEADER_LEN]) hcs.symm
    rw [htodo, hbytes, hnil]
    rfl

/-- A number that drops with every turn of the loop. -/
def Unsparse.work (s : Unsparse σ) : ℕ :=
  2 * s.status.buf.length + if s.status.wait_phase = UNSPARSE_WAIT_CHUNK_DATA then 1 else 0

/-- What one turn does that makes progress. -/
structure Progress (h : SparseHeader) (r : List UInt8) (todo : List (ℕ × UInt8))
    (s t : Unsparse σ) : Prop where
  done : t.status.handle_status = S_DONE
  phase : t.status.wait_phase ≠ UNSPARSE_WAIT_SPARSE_HEADER
  ready : ∃ now later, todo = now ++ later ∧ written t.log = written s.log ++ now ∧
    Ready h t (t.status.buf ++ r) later
  kept : t.data.unhandle_buf = [] ∨ t.status.buf = []
  work : t.work < s.work

/-! ## The phases -/

attribute [local simp] Unsparse.set_status Unsparse.advance

lemma waitSparseHeader_progress (hfits : ∀ f ∈ h.fields, f.2 < 256 ^ f.1)
    (hphase : s.status.wait_phase = UNSPARSE_WAIT_SPARSE_HEADER)
    (hready : Ready h s (s.status.buf ++ r) todo)
    (hlen : SPARSE_HEADER_LEN ≤ s.status.buf.length) : Progress h r todo s s.waitSparseHeader := by
  cases hready with
  | header _ hphase' | data _ _ hphase' => simp [hphase] at hphase'
  | start cs _ hvalid hstream htodo =>
    -- the header is all in this package
    have hbuf : s.status.buf.take SPARSE_HEADER_LEN = h.encode := by
      have htake := congrArg (take SPARSE_HEADER_LEN) hstream
      rwa [take_append_of_le_length hlen, sparseImage] at htake
    have hrest : s.status.buf.drop SPARSE_HEADER_LEN ++ r = encodeChunks cs := by
      have hdrop := congrArg (drop SPARSE_HEADER_LEN) hstream
      rwa [drop_append_of_le_length hlen, sparseImage] at hdrop
    rw [waitSparseHeader, if_pos hlen, hbuf, SparseHeader.decode_encode hfits]
    refine ⟨rfl, by simp, ⟨[], todo, rfl, ?_, ?_⟩, .inl rfl, ?_⟩
    · simp
    · exact .header cs rfl rfl hvalid (by simp [CHUNK_HEADER_LEN]) hrest htodo
    · simp only [work, set_status, length_drop]
      simp only [SPARSE_HEADER_LEN, reduceCtorEq, if_false] at hlen ⊢
      omega

/-- Advancing moves the address, as a 64-bit word. -/
lemma Unsparse.toUInt64_addr_advance (s : Unsparse σ) (n remain : ℕ) (handle_status : StatusE)
    (phase : UnsparsePhase) (buf : List UInt8) :
    toUInt64 ((s.advance n remain).set_status handle_status phase buf).addr =
      toUInt64 (s.addr + n) := by
  simp [addr, add_assoc]

lemma waitChunkHeader_progress (hfits : ∀ f ∈ h.fields, f.2 < 256 ^ f.1)
    (hblk : SDMMC_BLK_SIZE ∣ h.blk_sz)
    (hphase : s.status.wait_phase = UNSPARSE_WAIT_CHUNK_HEADER)
    (hready : Ready h s (s.status.buf ++ r) todo) (hne : s.status.buf ≠ [])
    (hpart : s.data.unhandle_buf = [] ∨ CHUNK_HEADER_LEN ≤ s.status.buf.length ∨ r = []) :
    Progress h r todo s s.waitChunkHeader := by
  have hpos : 0 < s.status.buf.length := length_pos_iff.mpr hne
  cases hready with
  | start _ hphase' | data _ _ hphase' => simp [hphase] at hphase'
  | header cs _ hhdr hvalid hkept hstream htodo =>
  rw [waitChunkHeader]
  split
  case isFalse hshort =>
    -- too little even for the header: nothing of it was kept before
    have hnil : s.data.unhandle_buf = [] := by
      rcases hpart with hnil | hlen | rfl
      · exact hnil
      · omega
      · rw [append_nil] at hstream
        have hcs := encodeChunks_eq_nil (by rw [length_append]; omega) hstream
        rw [hcs, encodeChunks_nil, append_eq_nil_iff] at hstream
        exact hstream.1
    rw [hnil] at hstream
    refine ⟨rfl, by simp, ⟨[], todo, rfl, ?_, ?_⟩, .inr rfl, ?_⟩
    · simp
    · exact .header cs rfl hhdr hvalid (by simp only [set_status]; omega) hstream htodo
    · simp only [work, set_status, length_nil, reduceCtorEq, if_false]
      omega
  case isTrue hlen =>
    cases cs with
    | nil =>
      have hlong := congrArg length hstream
      simp only [length_append, encodeChunks_nil, length_nil] at hlong
      omega
    | cons c cs =>
    have hc := hvalid c mem_cons_self
    have hcs : ∀ c ∈ cs, c.Valid h.blk_sz := fun c' hc' => hvalid c' (mem_cons_of_mem _ hc')
    set used := CHUNK_HEADER_LEN - s.data.unhandle_buf.length with hused
    have hlen' : (s.data.unhandle_buf ++ s.status.buf.take used).length = CHUNK_HEADER_LEN := by
      rw [length_append, length_take]
      omega
    rw [encodeChunks_cons, ← take_append_drop used s.status.buf, append_assoc,
      ← append_assoc] at hstream
    obtain ⟨hhead, hrest⟩ := append_inj hstream (hlen'.trans c.hdr.length_encode.symm)
    have hdecode : ChunkHeader.decode (s.data.unhandle_buf ++ s.status.buf.take used) = c.hdr := by
      rw [hhead, ChunkHeader.decode_encode hc.fits]
    have hblkfits : h.blk_sz < 2 ^ 32 := by
      have := hfits (4, h.blk_sz) (by simp [SparseHeader.fields])
      exact this
    have hremain : toUInt64 (c.hdr.chunk_sz * s.data.sparse_hdr.blk_sz) =
        c.hdr.chunk_sz * h.blk_sz := by
      rw [hhdr]
      refine toUInt64_eq_self ?_
      calc c.hdr.chunk_sz * h.blk_sz < 2 ^ 32 * 2 ^ 32 := Nat.mul_lt_mul'' hc.chunk_sz_lt hblkfits
        _ = 2 ^ 64 := by norm_num
    have hwork : 2 * (s.status.buf.drop used).length + 1 < 2 * s.status.buf.length := by
      rw [length_drop]
      omega
    simp only [hdecode, hremain]
    rcases hc.kind with ⟨hraw, hdata⟩ | ⟨hskip, hdata⟩
    · rw [if_pos hraw]
      refine ⟨rfl, by simp, ⟨[], todo, rfl, ?_, ?_⟩, .inl rfl, ?_⟩
      · simp
      · refine .data c.data cs rfl hhdr hcs rfl hdata.symm ?_ hrest ?_
        · rw [hdata]
          exact Dvd.dvd.mul_left hblk _
        · rw [htodo, hdata]
          rfl
      · simp only [work, set_status, if_true]
        omega
    · have hnotraw : c.hdr.chunk_type ≠ CHUNK_TYPE_RAW := by
        rw [hskip]
        decide
      rw [if_neg hnotraw, if_pos hskip]
      refine ⟨rfl, by simp, ⟨[], todo, rfl, ?_, ?_⟩, .inl rfl, ?_⟩
      · simp
      · refine .header cs rfl hhdr hcs (by simp [CHUNK_HEADER_LEN]) ?_ ?_
        · rw [hdata] at hrest
          exact hrest
        · rw [htodo, rawBytes, hdata, placed_nil]
          refine rawBytes_congr ?_ cs
          rw [toUInt64_addr_advance]
          rfl
      · simp only [work, set_status, reduceCtorEq, if_false]
        omega

lemma waitChunkData_progress (hworks : emmc.Works)
    (hphase : s.status.wait_phase = UNSPARSE_WAIT_CHUNK_DATA)
    (hready : Ready h s (s.status.buf ++ r) todo) (hne : s.status.buf ≠ []) :
    Progress h r todo s (s.waitChunkData emmc) ∨
      (s.waitChunkData emmc = s.set_status S_DA_SDMMC_SPARSE_INCOMPLETE UNSPARSE_WAIT_CHUNK_DATA
        s.status.buf ∧ r ≠ []) := by
  have hpos : 0 < s.status.buf.length := length_pos_iff.mpr hne
  cases hready with
  | start _ hphase' | header _ hphase' => simp [hphase] at hphase'
  | data bytes cs _ hhdr hvalid hkept hremain hblocks hstream htodo =>
  rw [waitChunkData, hremain]
  split
  case isTrue hle =>
    -- all that is left of the chunk
    obtain ⟨hbytes, hrest⟩ : s.status.buf.take bytes.length = bytes ∧
        s.status.buf.drop bytes.length ++ r = encodeChunks cs := by
      refine append_inj ?_ (by rw [length_take]; omega)
      rw [← append_assoc, take_append_drop, hstream]
    obtain ⟨flash, hwrite⟩ := write_checked_spec hworks s bytes
    simp only [hbytes, hwrite]
    refine .inl ⟨rfl, by simp, ⟨placed s.addr bytes, _, htodo, ?_, ?_⟩,
      .inl hkept, ?_⟩
    · simp
    · refine .header cs rfl hhdr hvalid (by simp [hkept,
        CHUNK_HEADER_LEN]) ?_ ?_
      · simpa [hkept] using hrest
      · refine rawBytes_congr ?_ cs
        rw [toUInt64_addr_advance]
        rfl
    · simp only [work, set_status, hphase, length_drop, reduceCtorEq, if_false, if_true]
      omega
  case isFalse hlt =>
    obtain ⟨later, hbytes⟩ : ∃ later, bytes = s.status.buf ++ later := by
      have hpre : s.status.buf <+: bytes := by
        refine prefix_of_prefix_length_le (prefix_append _ r) ?_ (by omega)
        rw [hstream]
        exact prefix_append _ _
      obtain ⟨later, heq⟩ := hpre
      exact ⟨later, heq.symm⟩
    have hr : r = later ++ encodeChunks cs := by
      rw [hbytes, append_assoc] at hstream
      exact append_cancel_left hstream
    have hlater : later ≠ [] := by
      rintro rfl
      rw [hbytes, append_nil] at hlt
      exact hlt le_rfl
    split
    case isTrue hshort =>
      refine .inr ⟨rfl, ?_⟩
      rw [hr]
      simp [hlater]
    case isFalse hlong =>
      set size := s.status.buf.length - s.status.buf.length % SDMMC_BLK_SIZE with hsize
      have hsizepos : 0 < size := by
        have := Nat.mod_lt s.status.buf.length (show 0 < SDMMC_BLK_SIZE by decide)
        omega
      have hsizeblk : SDMMC_BLK_SIZE ∣ size := Nat.dvd_sub_mod _
      have hsplit : bytes = s.status.buf.take size ++ (s.status.buf.drop size ++ later) := by
        rw [← append_assoc, take_append_drop, hbytes]
      have htake : (s.status.buf.take size).length = size := by
        rw [length_take]
        omega
      have hleft : bytes.length - size = (s.status.buf.drop size ++ later).length := by
        have hlen := congrArg length hsplit
        rw [length_append] at hlen
        omega
      obtain ⟨flash, hwrite⟩ := write_checked_spec hworks s (s.status.buf.take size)
      simp only [hwrite]
      rw [hsplit, placed_append, htake, append_assoc] at htodo
      refine .inl ⟨rfl, by simp, ⟨placed s.addr (s.status.buf.take size), _,
        htodo, ?_, ?_⟩, .inl hkept, ?_⟩
      · simp
      · refine .data (s.status.buf.drop size ++ later) cs rfl hhdr hvalid hkept hleft ?_ ?_ ?_
        · rw [← hleft]
          exact Nat.dvd_sub hblocks hsizeblk
        · rw [hr]
          simp
        · have haddr : toUInt64 (s.addr + size) = toUInt64
              ((({ s with flash := flash, log := s.log ++ [(toUInt64 s.addr,
                s.status.buf.take size)] }).advance size (bytes.length - size)).set_status
                S_DONE UNSPARSE_WAIT_CHUNK_DATA (s.status.buf.drop size)).addr := by
            rw [toUInt64_addr_advance]
            rfl
          rw [placed_congr haddr]
          congr 1
          refine rawBytes_congr ?_ cs
          rw [← hsplit, ← hleft]
          rw [← toUInt64_toUInt64_add _ (bytes.length - size), ← haddr, toUInt64_toUInt64_add]
          congr 1
          omega
      · simp only [work, set_status, length_drop, if_true]
        omega

/-! ## A package -/

/-- A package that can be handled: it is not empty unless nothing is expected of it, the file header
is all in it, and so is what is missing of a chunk header, unless the image ends here. -/
structure Handled (h : SparseHeader) (r : List UInt8) (todo : List (ℕ × UInt8)) (s : Unsparse σ) :
    Prop where
  ready : Ready h s (s.status.buf ++ r) todo
  empty : s.status.buf = [] → s.status.handle_status = S_DONE
  first : s.status.wait_phase = UNSPARSE_WAIT_SPARSE_HEADER →
    SPARSE_HEADER_LEN ≤ s.status.buf.length
  part : s.data.unhandle_buf = [] ∨ CHUNK_HEADER_LEN ≤ s.status.buf.length ∨ r = []

/-- What a call leaves: the package has been used up, or the rest of it waits for the next one. -/
structure Left (h : SparseHeader) (r : List UInt8) (todo : List (ℕ × UInt8)) (s t : Unsparse σ) :
    Prop where
  phase : t.status.wait_phase ≠ UNSPARSE_WAIT_SPARSE_HEADER
  ready : ∃ now later, todo = now ++ later ∧ written t.log = written s.log ++ now ∧
    Ready h t (t.status.buf ++ r) later
  outcome : (t.status.handle_status = S_DONE ∧ t.status.buf = []) ∨
    (t.status.handle_status = S_DA_SDMMC_SPARSE_INCOMPLETE ∧ t.status.buf ≠ [] ∧ r ≠ [])
  work : t.work ≤ s.work

section

variable (hworks : emmc.Works) (hfits : ∀ f ∈ h.fields, f.2 < 256 ^ f.1)
  (hblk : SDMMC_BLK_SIZE ∣ h.blk_sz)

include hworks hfits hblk

/-- **One turn of the loop.** -/
lemma Handled.turn (hs : Handled h r todo s) (hne : s.status.buf ≠ []) :
    Progress h r todo s (mmc_write_sparse_data_internal emmc s) ∨
      (mmc_write_sparse_data_internal emmc s = s.set_status S_DA_SDMMC_SPARSE_INCOMPLETE
        UNSPARSE_WAIT_CHUNK_DATA s.status.buf ∧
        s.status.wait_phase = UNSPARSE_WAIT_CHUNK_DATA ∧ r ≠ []) := by
  rw [mmc_write_sparse_data_internal, if_neg (by simpa using hne)]
  cases hphase : s.status.wait_phase with
  | UNSPARSE_WAIT_SPARSE_HEADER =>
    exact .inl (waitSparseHeader_progress hfits hphase hs.ready (hs.first hphase))
  | UNSPARSE_WAIT_CHUNK_HEADER =>
    exact .inl (waitChunkHeader_progress hfits hblk hphase hs.ready hne hs.part)
  | UNSPARSE_WAIT_CHUNK_DATA =>
    exact (waitChunkData_progress hworks hphase hs.ready hne).imp_right fun hkeep =>
      ⟨hkeep.1, rfl, hkeep.2⟩

/-- **One call.** -/
lemma mmc_write_sparse_data_spec (hs : Handled h r todo s) {fuel : ℕ} (hfuel : s.work < fuel) :
    ∃ t, mmc_write_sparse_data emmc fuel s = some t ∧ Left h r todo s t := by
  refine doWhile_relates
    (I := fun g s => Handled h r g.1 s ∧ s.work = g.2) (μ := Prod.snd)
    (R := fun g s t => Left h r g.1 s t) ?_ fuel (todo, s.work) s ⟨hs, rfl⟩ hfuel
  rintro ⟨todo, n⟩ s ⟨hs, rfl⟩
  refine ⟨mmc_write_sparse_data_internal emmc s, rfl, ?_⟩
  by_cases hne : s.status.buf = []
  · -- an empty package changes nothing
    have hsame : mmc_write_sparse_data_internal emmc s = s := by
      simp [mmc_write_sparse_data_internal, hne]
    rw [hsame]
    refine .inl ⟨by simp [unsparsed, hne], ?_, ⟨[], todo, rfl, by simp, hs.ready⟩,
      .inl ⟨hs.empty hne, hne⟩, le_rfl⟩
    intro hphase
    have := hs.first hphase
    simp [hne, SPARSE_HEADER_LEN] at this
  rcases hs.turn hworks hfits hblk hne with hprog | ⟨hkeep, hphase, hr⟩
  · obtain ⟨now, later, hsplit, hlog, hready⟩ := hprog.ready
    by_cases hover : (mmc_write_sparse_data_internal emmc s).status.buf = []
    · refine .inl ⟨by simp [unsparsed, hover], hprog.phase, ⟨now, later, hsplit, hlog, hready⟩,
        .inl ⟨hprog.done, hover⟩, hprog.work.le⟩
    · refine .inr ⟨by simp [unsparsed, hprog.done, hover],
        (later, (mmc_write_sparse_data_internal emmc s).work), ⟨⟨hready, ?_, ?_, ?_⟩, rfl⟩,
        hprog.work, ?_⟩
      · exact fun hnil => absurd hnil hover
      · exact fun hphase => absurd hphase hprog.phase
      · exact .inl (hprog.kept.resolve_right hover)
      · rintro t ⟨hphase, ⟨now', later', hsplit', hlog', hready'⟩, hout, hwork⟩
        refine ⟨hphase, ⟨now ++ now', later', ?_, ?_, hready'⟩, hout, hwork.trans hprog.work.le⟩
        · rw [hsplit, append_assoc]
          exact congrArg (now ++ ·) hsplit'
        · rw [hlog', hlog, append_assoc]
  · rw [hkeep]
    refine .inl ⟨by simp [unsparsed], by simp,
      ⟨[], todo, rfl, by simp, ?_⟩,
      .inr ⟨rfl, hne, hr⟩, by simp [work, hphase]⟩
    cases hs.ready with
    | start _ hphase' | header _ hphase' => simp [hphase] at hphase'
    | data bytes cs _ hhdr hvalid hkept hremain hblocks hstream htodo =>
      exact .data bytes cs rfl hhdr hvalid hkept hremain hblocks hstream htodo

/-! ## The stream -/

/-- **The packages, from any point on.**  It is enough that the chunk headers are cut once. -/
lemma write_sparse_packages_ready {packages : List (List UInt8)} {padding : List UInt8} {fuel : ℕ}
    (hlen : ∀ p ∈ packages.dropLast, CHUNK_HEADER_LEN ≤ p.length)
    (hphase : s.status.wait_phase = UNSPARSE_WAIT_SPARSE_HEADER → ∀ p ∈ packages.head?, SPARSE_HEADER_LEN ≤ p.length)
    (hready : Ready h s (padding ++ packages.flatten) todo)
    (hpadding : (padding = [] ∧ s.status.handle_status = S_DONE) ∨ (padding ≠ [] ∧ packages ≠ []))
    (hfuel : 2 * (padding ++ packages.flatten).length + 1 < fuel) :
    ∃ t, write_sparse_packages emmc fuel s padding packages = some (true, [], t) ∧
      t.status.handle_status = S_DONE ∧ written t.log = written s.log ++ todo := by
  induction packages generalizing s padding todo with
  | nil =>
    obtain ⟨rfl, hdone⟩ := hpadding.resolve_right fun hne => hne.2 rfl
    have htodo := hready.todo_eq_nil
    exact ⟨s, rfl, hdone, by simp [htodo]⟩
  | cons package packages ih =>
    set fed : Unsparse σ := { s with status := { s.status with buf := padding ++ package } }
      with hfed
    have hready' : Ready h fed (fed.status.buf ++ packages.flatten) todo := by
      have := hready.feed (padding ++ package)
      rwa [flatten_cons, ← append_assoc] at this
    have hhandled : Handled h packages.flatten todo fed := by
      refine ⟨hready', ?_, ?_, ?_⟩
      · intro hnil
        rcases hpadding with ⟨-, hdone⟩ | ⟨hne, -⟩
        · exact hdone
        · exact absurd (append_eq_nil_iff.mp hnil).1 hne
      · intro hstart
        have hpackage := hphase hstart package rfl
        rw [length_append]
        omega
      · cases packages with
        | nil => exact .inr (.inr rfl)
        | cons q qs =>
          have hq := hlen package (by simp)
          refine .inr (.inl ?_)
          rw [length_append]
          omega
    have hwork : fed.work < fuel := by
      refine lt_of_le_of_lt ?_ hfuel
      rw [work, flatten_cons, length_append, length_append]
      rw [length_append]
      split <;> omega
    obtain ⟨t, hcall, hleft⟩ := mmc_write_sparse_data_spec hworks hfits hblk hhandled hwork
    obtain ⟨now, later, hsplit, hlog, hready''⟩ := hleft.ready
    have hlen' : ∀ p ∈ packages.dropLast, CHUNK_HEADER_LEN ≤ p.length := by
      intro p hp
      cases packages with
      | nil => simp at hp
      | cons q qs => exact hlen p (by simp [hp])
    have hstep : write_sparse_packages emmc fuel s padding (package :: packages) =
        write_sparse_packages emmc fuel t t.status.buf packages := by
      rw [write_sparse_packages, write_sparse_package, hcall]
      rcases hleft.outcome with ⟨hdone, hnil⟩ | ⟨hpart, -, -⟩
      · simp [hdone, hnil]
      · simp [hpart]
    have hpadding' : (t.status.buf = [] ∧ t.status.handle_status = S_DONE) ∨
        (t.status.buf ≠ [] ∧ packages ≠ []) := by
      rcases hleft.outcome with ⟨hdone, hnil⟩ | ⟨-, hne, hr⟩
      · exact .inl ⟨hnil, hdone⟩
      · refine .inr ⟨hne, ?_⟩
        rintro rfl
        exact hr rfl
    have hfuel' : 2 * (t.status.buf ++ packages.flatten).length + 1 < fuel := by
      have hshort := hleft.work
      have hbuf : fed.status.buf.length = padding.length + package.length :=
        length_append
      simp only [work] at hshort
      rw [flatten_cons, length_append, length_append] at hfuel
      rw [length_append]
      split at hshort <;> split at hshort <;> omega
    obtain ⟨u, hrun, hdone, hlog'⟩ :=
      ih hlen' (fun hp => absurd hp hleft.phase) hready'' hpadding' hfuel'
    refine ⟨u, hstep.trans hrun, hdone, ?_⟩
    rw [hlog', hlog, hsplit, append_assoc]

end

/-- **The stream does not depend on its packages.**  Whatever the state machine did before, a plain
sparse image in packages, the first of which has the file header and the others but the last at least
a block, is taken without an error, and what is written to flash are the bytes of the raw chunks
at their places in the image, in order, and nothing else. -/
theorem write_sparse_packages_spec (hworks : emmc.Works)
    (hfits : ∀ f ∈ h.fields, f.2 < 256 ^ f.1) (hblk : SDMMC_BLK_SIZE ∣ h.blk_sz)
    {cs : List PlainChunk} (hvalid : ∀ c ∈ cs, c.Valid h.blk_sz) (base : ℕ) (enable_chk : Bool)
    (data : UnsparseData) (flash : σ) {first : List UInt8} {packages : List (List UInt8)}
    (hsplit : (first :: packages).flatten = sparseImage h cs)
    (hfirst : SPARSE_HEADER_LEN ≤ first.length)
    (hothers : ∀ p ∈ packages.dropLast, SDMMC_BLK_SIZE ≤ p.length) :
    ∃ enough, ∀ fuel ≥ enough, ∃ t, write_sparse_packages emmc fuel
        { status := mmc_init_unsparse_status base enable_chk, data := data, flash := flash } []
        (first :: packages) = some (true, [], t) ∧
      t.status.handle_status = S_DONE ∧ written t.log = rawBytes h.blk_sz base cs := by
  refine ⟨2 * (sparseImage h cs).length + 2, fun fuel hfuel => ?_⟩
  refine write_sparse_packages_ready hworks hfits hblk ?_ ?_ ?_ ?_ ?_
  · intro p hp
    have hp' : p = first ∨ p ∈ packages.dropLast := by
      cases packages with
      | nil => simp at hp
      | cons q qs => simpa using hp
    simp only [SPARSE_HEADER_LEN, SDMMC_BLK_SIZE, CHUNK_HEADER_LEN] at *
    rcases hp' with rfl | hp'
    · omega
    · have := hothers p hp'
      omega
  · intro _ p hp
    cases hp
    exact hfirst
  · rw [hsplit]
    exact .start cs rfl hvalid rfl rfl
  · exact .inl ⟨rfl, rfl⟩
  · rw [nil_append, hsplit]
    omega

/-- A flash of bytes. -/
def memoryFlash : Emmc Memory where
  emmc_write flash addr bytes := (bytes.length, flash.write addr bytes)
  emmc_read flash addr n := (flash.slice addr n, n, flash)

lemma memoryFlash_works : memoryFlash.Works where
  write _ _ _ := rfl
  read _ _ _ := ⟨Memory.holds_write, rfl⟩

/-- Two blocks of 512 bytes with a gap of two blocks between them. -/
def gapHeader : SparseHeader := { blk_sz := 512, total_blks := 4, total_chunks := 3 }

def gapChunks : List PlainChunk :=
  [⟨{ chunk_type := CHUNK_TYPE_RAW, chunk_sz := 1, total_sz := 524 }, List.replicate 512 7⟩,
    ⟨{ chunk_type := CHUNK_TYPE_DONT_CARE, chunk_sz := 2, total_sz := 12 }, []⟩,
    ⟨{ chunk_type := CHUNK_TYPE_RAW, chunk_sz := 1, total_sz := 524 }, List.replicate 512 9⟩]

lemma gapChunks_valid : ∀ c ∈ gapChunks, c.Valid gapHeader.blk_sz := by
  simp only [gapChunks, forall_mem_cons, not_mem_nil, false_imp_iff, implies_true,
    and_true]
  refine ⟨⟨by decide, .inl ⟨rfl, ?_⟩⟩, ⟨by decide, .inr ⟨rfl, rfl⟩⟩, ⟨by decide, .inl ⟨rfl, ?_⟩⟩⟩
  · rw [length_replicate]
    rfl
  · rw [length_replicate]
    rfl

lemma length_gapImage : (sparseImage gapHeader gapChunks).length = 1088 := by
  simp only [sparseImage, gapChunks, encodeChunks_cons, length_append, length_replicate]
  rfl

/-- The first chunk header is cut, and so is the data of the last chunk. -/
theorem write_sparse_packages_cut : ∃ enough, ∀ fuel ≥ enough, ∃ t,
    write_sparse_packages memoryFlash fuel
      { status := mmc_init_unsparse_status 4096 true
        data := ⟨gapHeader, ⟨0, 0, 0, 0⟩, 0, 0, []⟩
        flash := fun _ => 0 } []
      [(sparseImage gapHeader gapChunks).take 33,
        ((sparseImage gapHeader gapChunks).drop 33).take 700,
        (sparseImage gapHeader gapChunks).drop 733] = some (true, [], t) ∧
    t.status.handle_status = S_DONE ∧ written t.log = rawBytes 512 4096 gapChunks := by
  refine write_sparse_packages_spec memoryFlash_works (by decide) (by decide)
    gapChunks_valid 4096 true _ _ ?_ ?_ ?_
  · have hdrop : (sparseImage gapHeader gapChunks).drop 733 =
        ((sparseImage gapHeader gapChunks).drop 33).drop 700 := by rw [drop_drop]
    rw [flatten_cons, flatten_cons, flatten_singleton, hdrop,
      take_append_drop, take_append_drop]
  · rw [length_take, length_gapImage]
    decide
  · simp [length_gapImage, SDMMC_BLK_SIZE]

end Droid.Lk
