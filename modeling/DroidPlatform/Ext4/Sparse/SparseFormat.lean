import DroidPlatform.Core.Bytes

/-!
# The sparse image format

The headers of a sparse image (`sparse_format.h`), read and written as the little-endian targets lay
them out, and the checksum over its data (`sparse_crc32.c`).  A sparse image is a file header and a
list of chunks; a chunk is a header and, for some types, data.

`Chunk` is what a chunk stands for: `Chunk.encode` are its bytes, `Chunk.expand` the part of the image
it describes and `Chunk.content` the part of it that counts for the checksum.
-/

namespace Droid.Ext4

/-! ## The checksum -/

def crc32_tab : Array UInt32 := #[
  0x00000000, 0x77073096, 0xee0e612c, 0x990951ba, 0x076dc419, 0x706af48f, 0xe963a535, 0x9e6495a3,
  0x0edb8832, 0x79dcb8a4, 0xe0d5e91e, 0x97d2d988, 0x09b64c2b, 0x7eb17cbd, 0xe7b82d07, 0x90bf1d91,
  0x1db71064, 0x6ab020f2, 0xf3b97148, 0x84be41de, 0x1adad47d, 0x6ddde4eb, 0xf4d4b551, 0x83d385c7,
  0x136c9856, 0x646ba8c0, 0xfd62f97a, 0x8a65c9ec, 0x14015c4f, 0x63066cd9, 0xfa0f3d63, 0x8d080df5,
  0x3b6e20c8, 0x4c69105e, 0xd56041e4, 0xa2677172, 0x3c03e4d1, 0x4b04d447, 0xd20d85fd, 0xa50ab56b,
  0x35b5a8fa, 0x42b2986c, 0xdbbbc9d6, 0xacbcf940, 0x32d86ce3, 0x45df5c75, 0xdcd60dcf, 0xabd13d59,
  0x26d930ac, 0x51de003a, 0xc8d75180, 0xbfd06116, 0x21b4f4b5, 0x56b3c423, 0xcfba9599, 0xb8bda50f,
  0x2802b89e, 0x5f058808, 0xc60cd9b2, 0xb10be924, 0x2f6f7c87, 0x58684c11, 0xc1611dab, 0xb6662d3d,
  0x76dc4190, 0x01db7106, 0x98d220bc, 0xefd5102a, 0x71b18589, 0x06b6b51f, 0x9fbfe4a5, 0xe8b8d433,
  0x7807c9a2, 0x0f00f934, 0x9609a88e, 0xe10e9818, 0x7f6a0dbb, 0x086d3d2d, 0x91646c97, 0xe6635c01,
  0x6b6b51f4, 0x1c6c6162, 0x856530d8, 0xf262004e, 0x6c0695ed, 0x1b01a57b, 0x8208f4c1, 0xf50fc457,
  0x65b0d9c6, 0x12b7e950, 0x8bbeb8ea, 0xfcb9887c, 0x62dd1ddf, 0x15da2d49, 0x8cd37cf3, 0xfbd44c65,
  0x4db26158, 0x3ab551ce, 0xa3bc0074, 0xd4bb30e2, 0x4adfa541, 0x3dd895d7, 0xa4d1c46d, 0xd3d6f4fb,
  0x4369e96a, 0x346ed9fc, 0xad678846, 0xda60b8d0, 0x44042d73, 0x33031de5, 0xaa0a4c5f, 0xdd0d7cc9,
  0x5005713c, 0x270241aa, 0xbe0b1010, 0xc90c2086, 0x5768b525, 0x206f85b3, 0xb966d409, 0xce61e49f,
  0x5edef90e, 0x29d9c998, 0xb0d09822, 0xc7d7a8b4, 0x59b33d17, 0x2eb40d81, 0xb7bd5c3b, 0xc0ba6cad,
  0xedb88320, 0x9abfb3b6, 0x03b6e20c, 0x74b1d29a, 0xead54739, 0x9dd277af, 0x04db2615, 0x73dc1683,
  0xe3630b12, 0x94643b84, 0x0d6d6a3e, 0x7a6a5aa8, 0xe40ecf0b, 0x9309ff9d, 0x0a00ae27, 0x7d079eb1,
  0xf00f9344, 0x8708a3d2, 0x1e01f268, 0x6906c2fe, 0xf762575d, 0x806567cb, 0x196c3671, 0x6e6b06e7,
  0xfed41b76, 0x89d32be0, 0x10da7a5a, 0x67dd4acc, 0xf9b9df6f, 0x8ebeeff9, 0x17b7be43, 0x60b08ed5,
  0xd6d6a3e8, 0xa1d1937e, 0x38d8c2c4, 0x4fdff252, 0xd1bb67f1, 0xa6bc5767, 0x3fb506dd, 0x48b2364b,
  0xd80d2bda, 0xaf0a1b4c, 0x36034af6, 0x41047a60, 0xdf60efc3, 0xa867df55, 0x316e8eef, 0x4669be79,
  0xcb61b38c, 0xbc66831a, 0x256fd2a0, 0x5268e236, 0xcc0c7795, 0xbb0b4703, 0x220216b9, 0x5505262f,
  0xc5ba3bbe, 0xb2bd0b28, 0x2bb45a92, 0x5cb36a04, 0xc2d7ffa7, 0xb5d0cf31, 0x2cd99e8b, 0x5bdeae1d,
  0x9b64c2b0, 0xec63f226, 0x756aa39c, 0x026d930a, 0x9c0906a9, 0xeb0e363f, 0x72076785, 0x05005713,
  0x95bf4a82, 0xe2b87a14, 0x7bb12bae, 0x0cb61b38, 0x92d28e9b, 0xe5d5be0d, 0x7cdcefb7, 0x0bdbdf21,
  0x86d3d2d4, 0xf1d4e242, 0x68ddb3f8, 0x1fda836e, 0x81be16cd, 0xf6b9265b, 0x6fb077e1, 0x18b74777,
  0x88085ae6, 0xff0f6a70, 0x66063bca, 0x11010b5c, 0x8f659eff, 0xf862ae69, 0x616bffd3, 0x166ccf45,
  0xa00ae278, 0xd70dd2ee, 0x4e048354, 0x3903b3c2, 0xa7672661, 0xd06016f7, 0x4969474d, 0x3e6e77db,
  0xaed16a4a, 0xd9d65adc, 0x40df0b66, 0x37d83bf0, 0xa9bcae53, 0xdebb9ec5, 0x47b2cf7f, 0x30b5ffe9,
  0xbdbdf21c, 0xcabac28a, 0x53b39330, 0x24b4a3a6, 0xbad03605, 0xcdd70693, 0x54de5729, 0x23d967bf,
  0xb3667a2e, 0xc4614ab8, 0x5d681b02, 0x2a6f2b94, 0xb40bbe37, 0xc30c8ea1, 0x5a05df1b, 0x2d02ef8d]

/-- One turn of the loop of `sparse_crc32`. -/
def crc32Step (crc : UInt32) (p : UInt8) : UInt32 :=
  crc32_tab.getD ((crc ^^^ p.toUInt32) &&& 0xFF).toNat 0 ^^^ (crc >>> 8)

def sparse_crc32 (crc_in : UInt32) (buf : List UInt8) : UInt32 :=
  buf.foldl crc32Step (crc_in ^^^ 0xFFFFFFFF) ^^^ 0xFFFFFFFF

lemma sparse_crc32_nil (crc : UInt32) : sparse_crc32 crc [] = crc := by
  simp [sparse_crc32, UInt32.xor_assoc]

/-- The checksum does not depend on how the data is cut into pieces. -/
lemma sparse_crc32_append (crc : UInt32) (a b : List UInt8) :
    sparse_crc32 (sparse_crc32 crc a) b = sparse_crc32 crc (a ++ b) := by
  simp [sparse_crc32, UInt32.xor_assoc]

/-! ## Headers -/

def SPARSE_HEADER_MAGIC : ℕ := 0xed26ff3a
def SPARSE_HEADER_MAJOR_VER : ℕ := 1
def SPARSE_HEADER_MINOR_VER : ℕ := 0
def SPARSE_HEADER_LEN : ℕ := 28
def CHUNK_HEADER_LEN : ℕ := 12

def CHUNK_TYPE_RAW : ℕ := 0xCAC1
def CHUNK_TYPE_FILL : ℕ := 0xCAC2
def CHUNK_TYPE_DONT_CARE : ℕ := 0xCAC3
def CHUNK_TYPE_CRC32 : ℕ := 0xCAC4

/-- `sparse_header_t`. -/
structure SparseHeader where
  magic : ℕ := SPARSE_HEADER_MAGIC
  major_version : ℕ := SPARSE_HEADER_MAJOR_VER
  minor_version : ℕ := SPARSE_HEADER_MINOR_VER
  file_hdr_sz : ℕ := SPARSE_HEADER_LEN
  chunk_hdr_sz : ℕ := CHUNK_HEADER_LEN
  blk_sz : ℕ
  total_blks : ℕ
  total_chunks : ℕ
  image_checksum : ℕ := 0
deriving DecidableEq, Repr

/-- `chunk_header_t`. -/
structure ChunkHeader where
  chunk_type : ℕ
  reserved1 : ℕ := 0
  chunk_sz : ℕ
  total_sz : ℕ
deriving DecidableEq, Repr

/-- The widths and values of the fields, in the order of the structure. -/
def SparseHeader.fields (h : SparseHeader) : List (ℕ × ℕ) :=
  [(4, h.magic), (2, h.major_version), (2, h.minor_version), (2, h.file_hdr_sz),
    (2, h.chunk_hdr_sz), (4, h.blk_sz), (4, h.total_blks), (4, h.total_chunks),
    (4, h.image_checksum)]

def ChunkHeader.fields (h : ChunkHeader) : List (ℕ × ℕ) :=
  [(2, h.chunk_type), (2, h.reserved1), (4, h.chunk_sz), (4, h.total_sz)]

def SparseHeader.encode (h : SparseHeader) : List UInt8 := joinFields h.fields

def ChunkHeader.encode (h : ChunkHeader) : List UInt8 := joinFields h.fields

def SparseHeader.decode (bytes : List UInt8) : SparseHeader :=
  let f := splitFields [4, 2, 2, 2, 2, 4, 4, 4, 4] bytes
  ⟨f.getD 0 0, f.getD 1 0, f.getD 2 0, f.getD 3 0, f.getD 4 0, f.getD 5 0, f.getD 6 0, f.getD 7 0,
    f.getD 8 0⟩

def ChunkHeader.decode (bytes : List UInt8) : ChunkHeader :=
  let f := splitFields [2, 2, 4, 4] bytes
  ⟨f.getD 0 0, f.getD 1 0, f.getD 2 0, f.getD 3 0⟩

@[simp] lemma SparseHeader.length_encode (h : SparseHeader) :
    h.encode.length = SPARSE_HEADER_LEN := by
  simp [encode, fields, joinFields, SPARSE_HEADER_LEN]

@[simp] lemma ChunkHeader.length_encode (h : ChunkHeader) : h.encode.length = CHUNK_HEADER_LEN := by
  simp [encode, fields, joinFields, CHUNK_HEADER_LEN]

lemma SparseHeader.decode_encode {h : SparseHeader} (hfits : ∀ f ∈ h.fields, f.2 < 256 ^ f.1) :
    decode h.encode = h := by
  have hsplit : splitFields [4, 2, 2, 2, 2, 4, 4, 4, 4] h.encode = h.fields.map Prod.snd :=
    splitFields_joinFields hfits
  simp only [decode, hsplit]
  rfl

lemma ChunkHeader.decode_encode {h : ChunkHeader} (hfits : ∀ f ∈ h.fields, f.2 < 256 ^ f.1) :
    decode h.encode = h := by
  have hsplit : splitFields [2, 2, 4, 4] h.encode = h.fields.map Prod.snd :=
    splitFields_joinFields hfits
  simp only [decode, hsplit]
  rfl

/-! ## Chunks -/

/-- A buffer filled with a 32-bit value, over and over. -/
def fillBuf (fill_val : UInt32) : Memory := fun i => (toBytes 4 fill_val.toNat).getD (i % 4) 0

/-- A chunk, with the number of blocks it describes. -/
inductive Chunk
  | raw (blocks : ℕ) (data : List UInt8)
  | fill (blocks : ℕ) (fill_val : UInt32)
  | skip (blocks : ℕ)
  | crc32 (crc : UInt32)
deriving DecidableEq, Repr

namespace Chunk

def header : Chunk → ChunkHeader
  | raw blocks data =>
    { chunk_type := CHUNK_TYPE_RAW, chunk_sz := blocks, total_sz := CHUNK_HEADER_LEN + data.length }
  | fill blocks _ =>
    { chunk_type := CHUNK_TYPE_FILL, chunk_sz := blocks, total_sz := CHUNK_HEADER_LEN + 4 }
  | skip blocks =>
    { chunk_type := CHUNK_TYPE_DONT_CARE, chunk_sz := blocks, total_sz := CHUNK_HEADER_LEN }
  | crc32 _ => { chunk_type := CHUNK_TYPE_CRC32, chunk_sz := 0, total_sz := CHUNK_HEADER_LEN + 4 }

/-- What follows the header. -/
def payload : Chunk → List UInt8
  | raw _ data => data
  | fill _ fill_val => toBytes 4 fill_val.toNat
  | skip _ => []
  | crc32 crc => toBytes 4 crc.toNat

def encode (c : Chunk) : List UInt8 := c.header.encode ++ c.payload

/-- The part of the image that a chunk describes. -/
def expand (blk_sz : ℕ) : Chunk → List UInt8
  | raw _ data => data
  | fill blocks fill_val => (fillBuf fill_val).slice 0 (blocks * blk_sz)
  | skip blocks => List.replicate (blocks * blk_sz) 0
  | crc32 _ => []

/-- The part of it that counts for the checksum. -/
def content (blk_sz : ℕ) : Chunk → List UInt8
  | skip _ => []
  | c => c.expand blk_sz

end Chunk

end Droid.Ext4
