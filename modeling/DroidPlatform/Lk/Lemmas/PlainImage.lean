import DroidPlatform.Lk.SparseStateMachine

/-!
# Plain sparse images

The images the state machine understands: a header of 28 bytes, and raw and don't-care chunks whose
headers take 12 bytes.  `rawBytes` are the bytes of the raw chunks, in the order of the image, with
the addresses they belong to; `written` are the bytes of a list of writes, with the addresses they
went to.  Addresses are 64-bit words.
-/

namespace Droid.Lk

open Ext4

/-! ## Bytes at addresses -/

/-- Bytes at consecutive addresses. -/
def placed (addr : ℕ) (bytes : List UInt8) : List (ℕ × UInt8) :=
  bytes.mapIdx fun k b => (toUInt64 (addr + k), b)

@[simp] lemma placed_nil (addr : ℕ) : placed addr [] = [] := rfl

lemma placed_append (addr : ℕ) (a b : List UInt8) :
    placed addr (a ++ b) = placed addr a ++ placed (addr + a.length) b := by
  simp [placed, List.mapIdx_append, add_comm, add_left_comm]

lemma placed_congr {addr addr' : ℕ} (h : toUInt64 addr = toUInt64 addr') (bytes : List UInt8) :
    placed addr bytes = placed addr' bytes := by
  have hk : ∀ k, toUInt64 (addr + k) = toUInt64 (addr' + k) := by
    intro k
    rw [← toUInt64_toUInt64_add, h, toUInt64_toUInt64_add]
  simp [placed, hk]

@[simp] lemma placed_toUInt64 (addr : ℕ) (bytes : List UInt8) :
    placed (toUInt64 addr) bytes = placed addr bytes :=
  placed_congr (toUInt64_toUInt64_add addr 0) bytes

/-- All bytes that were written, in order. -/
def written (log : List (ℕ × List UInt8)) : List (ℕ × UInt8) := log.flatMap fun w => placed w.1 w.2

@[simp] lemma written_concat (log : List (ℕ × List UInt8)) (addr : ℕ) (bytes : List UInt8) :
    written (log ++ [(addr, bytes)]) = written log ++ placed addr bytes := by
  simp [written]

/-! ## Images -/

structure PlainChunk where
  hdr : ChunkHeader
  data : List UInt8
  deriving DecidableEq, Repr

namespace PlainChunk

def encode (c : PlainChunk) : List UInt8 := c.hdr.encode ++ c.data

/-- A raw chunk has as much data as its header says, a don't-care chunk none. -/
structure Valid (blk_sz : ℕ) (c : PlainChunk) : Prop where
  fits : ∀ f ∈ c.hdr.fields, f.2 < 256 ^ f.1
  kind : (c.hdr.chunk_type = CHUNK_TYPE_RAW ∧ c.data.length = c.hdr.chunk_sz * blk_sz) ∨
    (c.hdr.chunk_type = CHUNK_TYPE_DONT_CARE ∧ c.data = [])

lemma Valid.chunk_sz_lt {blk_sz : ℕ} {c : PlainChunk} (h : c.Valid blk_sz) :
    c.hdr.chunk_sz < 2 ^ 32 := by
  have := h.fits (4, c.hdr.chunk_sz) (by simp [ChunkHeader.fields])
  exact this

end PlainChunk

def encodeChunks (cs : List PlainChunk) : List UInt8 := cs.flatMap PlainChunk.encode

@[simp] lemma encodeChunks_nil : encodeChunks [] = [] := rfl

@[simp] lemma encodeChunks_cons (c : PlainChunk) (cs : List PlainChunk) :
    encodeChunks (c :: cs) = c.hdr.encode ++ (c.data ++ encodeChunks cs) := by
  simp [encodeChunks, PlainChunk.encode]

/-- The bytes of the raw chunks, for an image that starts at `addr`. -/
def rawBytes (blk_sz : ℕ) : ℕ → List PlainChunk → List (ℕ × UInt8)
  | _, [] => []
  | addr, c :: cs => placed addr c.data ++ rawBytes blk_sz (addr + c.hdr.chunk_sz * blk_sz) cs

lemma rawBytes_congr {blk_sz addr addr' : ℕ} (h : toUInt64 addr = toUInt64 addr')
    (cs : List PlainChunk) : rawBytes blk_sz addr cs = rawBytes blk_sz addr' cs := by
  induction cs generalizing addr addr' with
  | nil => rfl
  | cons c cs ih =>
    rw [rawBytes, placed_congr h]
    congr 1
    refine ih ?_
    rw [← toUInt64_toUInt64_add, h, toUInt64_toUInt64_add]

def sparseImage (h : SparseHeader) (cs : List PlainChunk) : List UInt8 :=
  h.encode ++ encodeChunks cs

end Droid.Lk
