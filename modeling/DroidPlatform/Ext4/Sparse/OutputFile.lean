import DroidPlatform.Core.OutFile
import DroidPlatform.Core.Word
import DroidPlatform.Ext4.Sparse.SparseFormat

/-!
# Writing a filesystem image

`write_ext4_image` (`ext4_utils.c`) writes the queued data blocks (`backed_block.c`) to a file, raw or
in the sparse format (`output_file.c`).  It goes over the queue twice: `count_sparse_chunks` predicts
the number of chunks for the file header, then each block is written.

System calls succeed, and the file is new.  `error` prints a message and, unless the program was
started with `force`, ends it by a `longjmp`: a function that is cut short returns early with what was
written so far, or not at all.  Lengths are positive values of the C type `int`.
-/

namespace Droid.Ext4

/-- The part of `struct fs_info` that is used here. -/
structure ImageInfo where
  len : ℕ
  block_size : ℕ
deriving DecidableEq, Repr

/-- Where the bytes of a data block come from: a buffer, a value, or a file at an offset. -/
inductive Source
  | data (bytes : Memory)
  | fill (fill_val : UInt32)
  | file (contents : Memory) (offset : ℕ)

/-- `struct data_block`. -/
structure DataBlock where
  block : ℕ
  len : ℕ
  source : Source

/-- `DIV_ROUND_UP` and `ALIGN`. -/
def divRoundUp (x y : ℕ) : ℕ := (x + y - 1) / y

def align (x y : ℕ) : ℕ := y * divRoundUp x y

/-- `(u64)db->block * info.block_size`. -/
def DataBlock.off (b : DataBlock) (info : ImageInfo) : ℕ := b.block * info.block_size

/-! ## Counting -/

structure CountChunks where
  chunks : ℕ
  cur_ptr : ℕ
deriving DecidableEq, Repr

/-- `count_data_block`, `count_file_block` and `count_fill_block`. -/
def countBlock (info : ImageInfo) (c : CountChunks) (b : DataBlock) : CountChunks where
  chunks := toUInt32 ((if b.off info > c.cur_ptr then toUInt32 (c.chunks + 1) else c.chunks) + 1)
  cur_ptr := b.off info + align b.len info.block_size

def count_sparse_chunks (info : ImageInfo) (data_blocks : List DataBlock) : ℕ :=
  let c := data_blocks.foldl (countBlock info) ⟨0, 0⟩
  if c.cur_ptr ≠ info.len then toUInt32 (c.chunks + 1) else c.chunks

/-! ## Writing -/

/-- `struct output_file`, with the file and the `total_chunks` of the header. -/
structure OutputFile where
  file : OutFile
  sparse : Bool
  cur_out_ptr : ℕ := 0
  chunk_cnt : ℕ := 0
  crc32 : UInt32 := 0
  use_crc : Bool
  total_chunks : ℕ

/-- A function of the writer: it goes on, or is cut short, or the program ends. -/
abbrev Writes := Except (Option OutputFile) OutputFile

/-- What `error` and the `return` behind it do. -/
def OutputFile.error (out : OutputFile) (force : Bool) : Writes :=
  .error (if force then some out else none)

/-- The caller of a function that is cut short goes on. -/
def Writes.finish : Writes → Option OutputFile
  | .ok out => some out
  | .error out => out

namespace OutputFile

/-- `out->ops->write`. -/
def write (out : OutputFile) (data : List UInt8) : OutputFile :=
  { out with file := out.file.write data }

/-- `out->ops->seek`. -/
def seek (out : OutputFile) (off : ℕ) : OutputFile := { out with file := out.file.seek off }

/-- What follows a chunk that stands for `len` bytes. -/
def advance (out : OutputFile) (len : ℕ) : OutputFile :=
  { out with cur_out_ptr := out.cur_out_ptr + len, chunk_cnt := toUInt32 (out.chunk_cnt + 1) }

variable (info : ImageInfo) (force : Bool) (out : OutputFile)

def emit_skip_chunk (skip_len : ℕ) : Writes :=
  if skip_len % info.block_size ≠ 0 then out.error force
  else
    let chunk_header : ChunkHeader := { chunk_type := CHUNK_TYPE_DONT_CARE
                                        chunk_sz := skip_len / info.block_size
                                        total_sz := CHUNK_HEADER_LEN }
    .ok ((out.write chunk_header.encode).advance skip_len)

/-- How `write_chunk_raw` and `write_chunk_fill` begin: there is a gap, or there is not. -/
def skipTo (off : ℕ) : Writes := do
  if off < out.cur_out_ptr then out.error force
  else
    let out ← if off > out.cur_out_ptr then
        -- the result of `emit_skip_chunk` is not looked at
        match (emit_skip_chunk info force out (off - out.cur_out_ptr)).finish with
        | none => .error none
        | some out => .ok out
      else .ok out
    if off % info.block_size ≠ 0 then out.error force
    else if off ≠ out.cur_out_ptr then out.error force
    else .ok out

/-- `(len + (info.block_size - 1)) & (~(info.block_size -1))`. -/
def rndUpLen (len : ℕ) : ℕ :=
  toUInt32 (len + (info.block_size - 1)) &&& (2 ^ 32 - info.block_size)

def write_chunk_fill (off : ℕ) (fill_val : UInt32) (len : ℕ) : Writes := do
  let out ← skipTo info force out off
  let rnd_up_len := rndUpLen info len
  let chunk_header : ChunkHeader := { chunk_type := CHUNK_TYPE_FILL
                                      chunk_sz := rnd_up_len / info.block_size
                                      total_sz := CHUNK_HEADER_LEN + 4 }
  let out := (out.write chunk_header.encode).write (toBytes 4 fill_val.toNat)
  let fill_buf := (fillBuf fill_val).slice 0 info.block_size
  let out := if out.use_crc then
      { out with crc32 := (List.replicate chunk_header.chunk_sz fill_buf).foldl sparse_crc32 out.crc32 }
    else out
  return out.advance rnd_up_len

def write_chunk_raw (off : ℕ) (data : List UInt8) : Writes := do
  let out ← skipTo info force out off
  let rnd_up_len := rndUpLen info data.length
  let zero_buf := List.replicate (rnd_up_len - data.length) 0
  let chunk_header : ChunkHeader := { chunk_type := CHUNK_TYPE_RAW
                                      chunk_sz := rnd_up_len / info.block_size
                                      total_sz := CHUNK_HEADER_LEN + rnd_up_len }
  let out := (out.write chunk_header.encode).write data
  let out := if zero_buf ≠ [] then out.write zero_buf else out
  let out := if out.use_crc then
      let crc := sparse_crc32 out.crc32 data
      { out with crc32 := if zero_buf ≠ [] then sparse_crc32 crc zero_buf else crc }
    else out
  return out.advance rnd_up_len

/-- Write a contiguous region of data blocks from a memory buffer. -/
def write_data_block (off : ℕ) (data : List UInt8) : Writes :=
  if off + data.length > info.len then out.error force
  else if out.sparse then write_chunk_raw info force out off data
  else .ok ((out.seek off).write data)

/-- Write a contiguous region of data blocks with a fill value. -/
def write_fill_block (off : ℕ) (fill_val : UInt32) (len : ℕ) : Writes :=
  if off + len > info.len then out.error force
  else if out.sparse then write_chunk_fill info force out off fill_val len
  else
    let fill_buf := (fillBuf fill_val).slice 0 4096
    .ok ((pieces 4096 len).foldl (fun out write_len => out.write (fill_buf.take write_len))
      (out.seek off))

/-- Write a contiguous region of data blocks from a file. -/
def write_data_file (off : ℕ) (contents : Memory) (offset len : ℕ) : Writes :=
  if off + len ≥ info.len then out.error force
  else
    let aligned_offset := offset / 4096 * 4096
    let aligned_diff := offset - aligned_offset
    let buffer_size := len + aligned_diff
    let data := ((contents.slice aligned_offset buffer_size).drop aligned_diff).take len
    if out.sparse then write_chunk_raw info force out off data
    else .ok ((out.seek off).write data)

/-- One turn of `for_each_data_block`, with the functions that write. -/
def writeBlock (b : DataBlock) : Option OutputFile :=
  Writes.finish <| match b.source with
    | .data bytes => write_data_block info force out (b.off info) (bytes.slice 0 b.len)
    | .fill fill_val => write_fill_block info force out (b.off info) fill_val b.len
    | .file contents offset => write_data_file info force out (b.off info) contents offset b.len

def pad_output_file (len : ℕ) : Writes :=
  if len > info.len then out.error force
  else if out.sparse then
    if len < out.cur_out_ptr then out.error force
    else if len > out.cur_out_ptr then emit_skip_chunk info force out (len - out.cur_out_ptr)
    else .ok out
  -- `lseek` to `-1` fails
  else if len = 0 then out.error force
  else .ok ((out.seek (len - 1)).write [0])

def close_output_file : Option OutputFile :=
  if out.sparse then
    let out := if out.use_crc then
        let chunk_header : ChunkHeader := { chunk_type := CHUNK_TYPE_CRC32
                                            chunk_sz := 0
                                            total_sz := CHUNK_HEADER_LEN + 4 }
        { (out.write chunk_header.encode).write (toBytes 4 out.crc32.toNat) with
          chunk_cnt := toUInt32 (out.chunk_cnt + 1) }
      else out
    if out.chunk_cnt ≠ out.total_chunks then (out.error force).finish else some out
  else some out

def open_output_fd (sparse : Bool) (chunks : ℕ) (crc : Bool) : OutputFile :=
  let total_chunks := if crc then toUInt32 (chunks + 1) else chunks
  let out : OutputFile := { file := .empty, sparse, use_crc := crc, total_chunks }
  if sparse then
    let sparse_header : SparseHeader := { blk_sz := info.block_size
                                          total_blks := info.len / info.block_size
                                          total_chunks }
    out.write sparse_header.encode
  else out

end OutputFile

/-- Write the filesystem image to a file. -/
def write_ext4_image (info : ImageInfo) (force : Bool) (data_blocks : List DataBlock)
    (sparse crc : Bool) : Option OutFile := do
  let out := OutputFile.open_output_fd info sparse (count_sparse_chunks info data_blocks) crc
  let out ← data_blocks.foldlM (OutputFile.writeBlock info force) out
  let out ← (out.pad_output_file info force info.len).finish
  let out ← out.close_output_file force
  return out.file

end Droid.Ext4
