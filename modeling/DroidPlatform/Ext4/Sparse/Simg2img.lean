import DroidPlatform.Core.OutFile
import DroidPlatform.Core.Word
import DroidPlatform.Ext4.Sparse.SparseFormat

/-!
# Expanding a sparse image

`simg2img` (`simg2img.c`) reads a sparse image and writes the raw image it describes.  The input is the
list of bytes that are still to be read; the program ends with an error, `none`, when the input is not
what it expects.  What a variable holds when it is read without having been set is `stack`.
-/

namespace Droid.Ext4.Simg2img

def COPY_BUF_SIZE : ℕ := 1024 * 1024

/-- The state of the program: what is left of the input, the output, and its counters. -/
structure State where
  input : List UInt8
  out : OutFile
  crc32 : UInt32 := 0
  total_blocks : ℕ := 0

namespace State

variable (s : State)

/-- `read_all(in, buf, len)` with a check that it read everything. -/
def read (len : ℕ) : Option (List UInt8 × State) :=
  if len ≤ s.input.length then some (s.input.take len, { s with input := s.input.drop len })
  else none

/-- `lseek64(in, n, SEEK_CUR)`. -/
def skipInput (n : ℕ) : State := { s with input := s.input.drop n }

/-- One turn of the loop of `process_raw_chunk`. -/
def copyPiece (chunk : ℕ) : Option State := do
  let (copybuf, s) ← s.read chunk
  return { s with crc32 := sparse_crc32 s.crc32 copybuf, out := s.out.write copybuf }

def process_raw_chunk (blocks blk_sz : ℕ) : Option State :=
  (pieces COPY_BUF_SIZE (blocks * blk_sz)).foldlM copyPiece s

/-- One turn of the loop of `process_fill_chunk`. -/
def fillPiece (fill_val : UInt32) (s : State) (chunk : ℕ) : Option State :=
  let copybuf := ((fillBuf fill_val).slice 0 COPY_BUF_SIZE).take chunk
  some { s with crc32 := sparse_crc32 s.crc32 copybuf, out := s.out.write copybuf }

/-- What was read of the fill value is not looked at. -/
def process_fill_chunk (stack : Memory) (s : State) (blocks blk_sz : ℕ) : Option State :=
  let bytes := (List.range 4).map fun i => s.input.getD i (stack i)
  let fill_val := UInt32.ofNat (ofBytes bytes)
  (pieces COPY_BUF_SIZE (blocks * blk_sz)).foldlM (fillPiece fill_val) (s.skipInput 4)

def process_skip_chunk (blocks blk_sz : ℕ) : State :=
  { s with out := s.out.seek (s.out.pos + blocks * blk_sz) }

def process_crc32_chunk : Option State := do
  let (file_crc32, s') ← s.read 4
  if UInt32.ofNat (ofBytes file_crc32) ≠ s.crc32 then none else return s'

/-- `total_blocks += blocks`. -/
def addBlocks (blocks : ℕ) : State :=
  { s with total_blocks := toUInt32 (s.total_blocks + blocks) }

/-- One turn of the loop of `main`. -/
def processChunk (stack : Memory) (h : SparseHeader) (s : State) : Option State := do
  let (bytes, s) ← s.read CHUNK_HEADER_LEN
  let c := ChunkHeader.decode bytes
  let s := s.skipInput (h.chunk_hdr_sz - CHUNK_HEADER_LEN)
  if c.chunk_type = CHUNK_TYPE_RAW then
    if c.total_sz ≠ toUInt32 (h.chunk_hdr_sz + c.chunk_sz * h.blk_sz) then none
    else return (← s.process_raw_chunk c.chunk_sz h.blk_sz).addBlocks c.chunk_sz
  else if c.chunk_type = CHUNK_TYPE_FILL then
    if c.total_sz ≠ toUInt32 (h.chunk_hdr_sz + 4) then none
    else return (← s.process_fill_chunk stack c.chunk_sz h.blk_sz).addBlocks c.chunk_sz
  else if c.chunk_type = CHUNK_TYPE_DONT_CARE then
    if c.total_sz ≠ h.chunk_hdr_sz then none
    else return (s.process_skip_chunk c.chunk_sz h.blk_sz).addBlocks c.chunk_sz
  else if c.chunk_type = CHUNK_TYPE_CRC32 then s.process_crc32_chunk
  else return s

/-- `for (i = 0; i < total_chunks; i++)`. -/
def processChunks (stack : Memory) (h : SparseHeader) : ℕ → State → Option State
  | 0, s => some s
  | n + 1, s => do processChunks stack h n (← s.processChunk stack h)

end State

/-- The raw image, if the program exits with 0. -/
def main (stack : Memory) (input : List UInt8) : Option OutFile := do
  let s : State := { input, out := .empty }
  let (bytes, s) ← s.read SPARSE_HEADER_LEN
  let h := SparseHeader.decode bytes
  if h.magic ≠ SPARSE_HEADER_MAGIC then none
  else if h.major_version ≠ SPARSE_HEADER_MAJOR_VER then none
  else
    let s := s.skipInput (h.file_hdr_sz - SPARSE_HEADER_LEN)
    let s ← s.processChunks stack h h.total_chunks
    let out := s.out.truncate (s.total_blocks * h.blk_sz)
    if h.total_blks ≠ s.total_blocks then none else return out

end Droid.Ext4.Simg2img
