import DroidPlatform.Core.DoWhile
import DroidPlatform.Core.Word
import DroidPlatform.Ext4.Sparse.SparseFormat

/-!
# Unsparsing a stream

The bootloader writes a sparse image to flash while it is being downloaded
(`sparse_state_machine.c`).  The image comes in packages of any size; `mmc_write_sparse_data` is
called with each of them and handles what it can.  What it is in the middle of is kept in
`unsparse_data_t`, between calls too.

A buffer and its size are a list of bytes; `buf` is what is left of the package.  The flash is a
parameter: its two operations may fail, and what they are called with is recorded in `log`.
-/

namespace Droid.Lk

open Ext4

inductive StatusE
  | S_DONE
  | S_DA_SDMMC_WRITE_FAILED
  | S_DA_SDMMC_READ_FAILED
  | S_DA_SDMMC_SPARSE_INCOMPLETE
  | S_DA_SDMMC_CHECKSUM_ERR
  deriving DecidableEq, Repr

inductive UnsparsePhase
  | UNSPARSE_WAIT_SPARSE_HEADER
  | UNSPARSE_WAIT_CHUNK_HEADER
  | UNSPARSE_WAIT_CHUNK_DATA
  deriving DecidableEq, Repr

open StatusE UnsparsePhase

/-- `unsparse_status_t` -/
structure UnsparseStatus where
  handle_status : StatusE
  wait_phase : UnsparsePhase
  image_base_addr : ℕ
  buf : List UInt8
  checksum_enabled : Bool
  deriving DecidableEq, Repr

/-- `unsparse_data_t`; `unhandle_buf` has its `unhandle_buf_size` bytes. -/
structure UnsparseData where
  sparse_hdr : SparseHeader
  chunk_hdr : ChunkHeader
  chunk_remain_data_size : ℕ
  image_address_offset : ℕ
  unhandle_buf : List UInt8
  deriving DecidableEq, Repr

/-- The flash.  `emmc_write` returns how much it wrote; `emmc_read` returns what the buffer holds
afterwards, and how much it read. -/
structure Emmc (σ : Type*) where
  emmc_write : σ → ℕ → List UInt8 → ℕ × σ
  emmc_read : σ → ℕ → ℕ → List UInt8 × ℕ × σ

def SDMMC_BLK_SIZE : ℕ := 512

/-- The sum of the 32-bit words of the data and of the bytes that are left. -/
def checksumFrom (chksum : ℕ) : List UInt8 → ℕ
  | a :: b :: c :: d :: rest => checksumFrom (toUInt32 (chksum + ofBytes [a, b, c, d])) rest
  | rest => rest.foldl (fun chksum b => toUInt32 (chksum + b.toNat)) chksum

def calc_checksum (data : List UInt8) : ℕ := checksumFrom 0 data

/-- The status and data of an image, the flash, and the writes that were made. -/
structure Unsparse (σ : Type*) where
  status : UnsparseStatus
  data : UnsparseData
  flash : σ
  log : List (ℕ × List UInt8) := []

variable {σ : Type*} (s : Unsparse σ) (emmc : Emmc σ)

def mmc_init_unsparse_status (image_base_addr : ℕ) (enable_chk : Bool) : UnsparseStatus where
  handle_status := S_DONE
  wait_phase := UNSPARSE_WAIT_SPARSE_HEADER
  image_base_addr := image_base_addr
  buf := []
  checksum_enabled := enable_chk

namespace Unsparse

/-- `mmc_set_unsparse_status` -/
def set_status (handle_status : StatusE) (wait_phase : UnsparsePhase) (buf : List UInt8) :
    Unsparse σ :=
  { s with status := { s.status with
      handle_status := handle_status, wait_phase := wait_phase, buf := buf } }

def fail (handle_status : StatusE) : Unsparse σ :=
  { s with status := { s.status with handle_status := handle_status } }

/-- `emmc_write` at the current address, and its result. -/
def emmc_write (emmc : Emmc σ) (s : Unsparse σ) (bytes : List UInt8) : ℕ × Unsparse σ :=
  let addr := toUInt64 (s.status.image_base_addr + s.data.image_address_offset)
  let (size_wrote, flash) := emmc.emmc_write s.flash addr bytes
  (size_wrote, { s with flash := flash, log := s.log ++ [(addr, bytes)] })

/-- Write to the current address, and read back what was written if that is asked for. -/
def write_checked (s : Unsparse σ) (bytes : List UInt8) : StatusE × Unsparse σ :=
  let (size_wrote, s) := s.emmc_write emmc bytes
  if size_wrote ≠ bytes.length then (S_DA_SDMMC_WRITE_FAILED, s)
  else if s.status.checksum_enabled then
    let (back, size_read, flash) := emmc.emmc_read s.flash
      (toUInt64 (s.status.image_base_addr + s.data.image_address_offset)) bytes.length
    let s := { s with flash := flash }
    if size_read ≠ bytes.length then (S_DA_SDMMC_READ_FAILED, s)
    else if calc_checksum back ≠ calc_checksum bytes then (S_DA_SDMMC_CHECKSUM_ERR, s)
    else (S_DONE, s)
  else (S_DONE, s)

/-- `image_address_offset += n; chunk_remain_data_size = remain` -/
def advance (n remain : ℕ) : Unsparse σ :=
  { s with data := { s.data with
      image_address_offset := toUInt64 (s.data.image_address_offset + n)
      chunk_remain_data_size := remain } }

def waitSparseHeader : Unsparse σ :=
  let buf := s.status.buf
  if SPARSE_HEADER_LEN ≤ buf.length then
    -- the rest of the structure is cleared
    { s with data :=
      { sparse_hdr := SparseHeader.decode (buf.take SPARSE_HEADER_LEN)
        chunk_hdr := ⟨0, 0, 0, 0⟩
        chunk_remain_data_size := 0
        image_address_offset := 0
        unhandle_buf := [] } }.set_status S_DONE UNSPARSE_WAIT_CHUNK_HEADER
          (buf.drop SPARSE_HEADER_LEN)
  else s

def waitChunkHeader : Unsparse σ :=
  let buf := s.status.buf
  let unhandled := s.data.unhandle_buf
  if CHUNK_HEADER_LEN ≤ unhandled.length + buf.length then
    -- all of the header if nothing was kept of it
    let sizeOfUsedBuf := CHUNK_HEADER_LEN - unhandled.length
    let chunk_hdr := ChunkHeader.decode (unhandled ++ buf.take sizeOfUsedBuf)
    let rest := buf.drop sizeOfUsedBuf
    let s := { s with data := { s.data with
      chunk_hdr := chunk_hdr
      unhandle_buf := []
      chunk_remain_data_size := toUInt64 (chunk_hdr.chunk_sz * s.data.sparse_hdr.blk_sz) } }
    if chunk_hdr.chunk_type = CHUNK_TYPE_RAW then
      s.set_status S_DONE UNSPARSE_WAIT_CHUNK_DATA rest
    else if chunk_hdr.chunk_type = CHUNK_TYPE_DONT_CARE then
      (s.advance s.data.chunk_remain_data_size 0).set_status S_DONE UNSPARSE_WAIT_CHUNK_HEADER rest
    else s.fail S_DA_SDMMC_WRITE_FAILED
  else
    { s with data := { s.data with unhandle_buf := buf } }.set_status S_DONE
      UNSPARSE_WAIT_CHUNK_HEADER []

def waitChunkData (s : Unsparse σ) : Unsparse σ :=
  let buf := s.status.buf
  let remain := s.data.chunk_remain_data_size
  if remain ≤ buf.length then
    match s.write_checked emmc (buf.take remain) with
    | (S_DONE, s) =>
      (s.advance remain 0).set_status S_DONE UNSPARSE_WAIT_CHUNK_HEADER (buf.drop remain)
    | (failure, s) => s.fail failure
  else if buf.length % SDMMC_BLK_SIZE ≠ 0 ∧ buf.length < SDMMC_BLK_SIZE then
    s.set_status S_DA_SDMMC_SPARSE_INCOMPLETE UNSPARSE_WAIT_CHUNK_DATA buf
  else
    -- whole blocks only
    let size := buf.length - buf.length % SDMMC_BLK_SIZE
    match s.write_checked emmc (buf.take size) with
    | (S_DONE, s) =>
      (s.advance size (remain - size)).set_status S_DONE UNSPARSE_WAIT_CHUNK_DATA (buf.drop size)
    | (failure, s) => s.fail failure

end Unsparse

def mmc_write_sparse_data_internal (s : Unsparse σ) : Unsparse σ :=
  if s.status.buf.length = 0 then s
  else
    match s.status.wait_phase with
    | UNSPARSE_WAIT_SPARSE_HEADER => s.waitSparseHeader
    | UNSPARSE_WAIT_CHUNK_HEADER => s.waitChunkHeader
    | UNSPARSE_WAIT_CHUNK_DATA => s.waitChunkData emmc

/-- The loop is left with an error, or with nothing left of the package. -/
def unsparsed : Bool :=
  s.status.handle_status ≠ S_DONE || s.status.buf.length = 0

def mmc_write_sparse_data (emmc : Emmc σ) (fuel : ℕ) (s : Unsparse σ) : Option (Unsparse σ) :=
  doWhile (fun s => some (mmc_write_sparse_data_internal emmc s)) unsparsed fuel s

/-! ## Packages -/

/-- `write_to_emmc` of a sparse image: what is left over is put in front of the next package.
`none` is a call that does not return, `false` one that fails. -/
def write_sparse_package (emmc : Emmc σ) (fuel : ℕ) (s : Unsparse σ) (padding package : List UInt8) :
    Option (Bool × List UInt8 × Unsparse σ) :=
  let fed := { s with status := { s.status with buf := padding ++ package } }
  (mmc_write_sparse_data emmc fuel fed).map fun s =>
    match s.status.handle_status with
    | S_DA_SDMMC_SPARSE_INCOMPLETE => (true, s.status.buf, s)
    | S_DONE => (true, [], s)
    | _ => (false, [], s)

/-- A download, package after package, until one fails. -/
def write_sparse_packages (emmc : Emmc σ) (fuel : ℕ) :
    Unsparse σ → List UInt8 → List (List UInt8) → Option (Bool × List UInt8 × Unsparse σ)
  | s, padding, [] => some (true, padding, s)
  | s, padding, package :: packages =>
    match write_sparse_package emmc fuel s padding package with
    | none => none
    | some (false, padding, s) => some (false, padding, s)
    | some (true, padding, s) => write_sparse_packages emmc fuel s padding packages

end Droid.Lk
