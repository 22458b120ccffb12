import DroidPlatform.Core.Bytes
import DroidPlatform.Core.Word

/-!
# Loading a library

`load_library` reads the first page of a file into `__header`, finds out from the program headers
how much memory the library takes, reserves that much, and maps the loadable segments over the
reservation with `MAP_FIXED`.

The program headers are wherever `e_phoff` says, counted from the header page on.  The model sees
the memory of the process from that page: offset 0 is the first byte of `__header`, the buffer ends
at offset `PAGE_SIZE`, and past it is whatever the linker has there.

What happens is recorded: the offsets the program headers are read from, the reservation, and every
change `load_segments` makes to the address space.  All addresses and lengths are 32-bit words.
-/

namespace Droid.Linker

def PAGE_SIZE : ℕ := 4096

/-- `x & ~PAGE_MASK` -/
def pageDown (x : ℕ) : ℕ := x - x % PAGE_SIZE

/-- `(x + PAGE_SIZE - 1) & ~PAGE_MASK` -/
def pageUp (x : ℕ) : ℕ := pageDown (toUInt32 (x + PAGE_SIZE - 1))

/-! ## The file -/

/-- `Elf32_Phdr` -/
structure Phdr where
  p_type : ℕ
  p_offset : ℕ
  p_vaddr : ℕ
  p_paddr : ℕ
  p_filesz : ℕ
  p_memsz : ℕ
  p_flags : ℕ
  p_align : ℕ
  deriving DecidableEq, Repr

def PT_LOAD : ℕ := 1
def PT_DYNAMIC : ℕ := 2
def PT_GNU_RELRO : ℕ := 0x6474e552
def PT_ARM_EXIDX : ℕ := 0x70000001

def PF_X : ℕ := 0x1
def PF_W : ℕ := 0x2
def PF_R : ℕ := 0x4

/-- The number in the `w` bytes at an offset from the header page; offsets wrap like pointers. -/
def field (hdr : Memory) (off w : ℕ) : ℕ :=
  ofBytes ((List.range w).map fun k => hdr (toUInt32 (off + k)))

/-- `e_ident` is the ELF magic. -/
def magic (hdr : Memory) : Prop := hdr.slice 0 4 = [0x7f, 0x45, 0x4c, 0x46]

instance (hdr : Memory) : Decidable (magic hdr) := inferInstanceAs (Decidable (_ = _))

def e_machine (hdr : Memory) : ℕ := field hdr 18 2
def e_phoff (hdr : Memory) : ℕ := field hdr 28 4
def e_phnum (hdr : Memory) : ℕ := field hdr 44 2

def EM_ARM : ℕ := 40

/-- `verify_elf_object`, on ARM. -/
def verify_elf_object (hdr : Memory) : Prop := magic hdr ∧ e_machine hdr = EM_ARM

instance (hdr : Memory) : Decidable (verify_elf_object hdr) := inferInstanceAs (Decidable (_ ∧ _))

/-- `sizeof(Elf32_Phdr)` -/
def sizeofPhdr : ℕ := 32

/-- Where program header `i` is read from. -/
def phdrOffset (hdr : Memory) (i : ℕ) : ℕ := toUInt32 (e_phoff hdr + sizeofPhdr * i)

/-- The program header at an offset. -/
def phdrAt (hdr : Memory) (off : ℕ) : Phdr :=
  ⟨field hdr off 4, field hdr (off + 4) 4, field hdr (off + 8) 4, field hdr (off + 12) 4,
    field hdr (off + 16) 4, field hdr (off + 20) 4, field hdr (off + 24) 4, field hdr (off + 28) 4⟩

/-- The offsets of the program headers, in the order both loops read them. -/
def phdrOffsets (hdr : Memory) : List ℕ := (List.range (e_phnum hdr)).map (phdrOffset hdr)

def phdrs (hdr : Memory) : List Phdr := (phdrOffsets hdr).map (phdrAt hdr)

/-! ## Extents -/

/-- The loop of `get_lib_extents`, over `min_vaddr` and `max_vaddr`. -/
def vaddrRange : List Phdr → ℕ → ℕ → ℕ × ℕ
  | [], min_vaddr, max_vaddr => (min_vaddr, max_vaddr)
  | p :: ps, min_vaddr, max_vaddr =>
    if p.p_type = PT_LOAD then
      let stop := toUInt32 (p.p_vaddr + p.p_memsz)
      vaddrRange ps (if p.p_vaddr < min_vaddr then p.p_vaddr else min_vaddr)
        (if stop > max_vaddr then stop else max_vaddr)
    else vaddrRange ps min_vaddr max_vaddr

/-- `*total_sz`; `none` when there are no loadable segments. -/
def total_sz (ps : List Phdr) : Option ℕ :=
  let (min_vaddr, max_vaddr) := vaddrRange ps 0xffffffff 0
  if min_vaddr = 0xffffffff ∧ max_vaddr = 0 then none
  else some (toUInt32 (pageUp max_vaddr + 2 ^ 32 - pageDown min_vaddr))

/-- `get_lib_extents`: the requested base and the size. -/
def get_lib_extents (hdr : Memory) (is_prelinked : ℕ) : Option (ℕ × ℕ) :=
  if ¬ verify_elf_object hdr then none
  else if is_prelinked = 0xffffffff then none
  else (total_sz (phdrs hdr)).map fun size => (is_prelinked, size)

/-! ## The system -/

/-- What the file system and the kernel answer. -/
structure Env where
  /-- `open_library`, `lseek` and the `read` of the header page succeed. -/
  opens : Bool
  is_prelinked : ℕ
  /-- `alloc_info` has a free entry. -/
  alloc_info : Bool
  /-- `mmap(NULL, size, PROT_NONE, MAP_PRIVATE | MAP_ANONYMOUS)` -/
  mmap : ℕ → Option ℕ
  /-- `mmap(addr, len, …, MAP_FIXED …)` succeeds. -/
  mmapFixed : ℕ → ℕ → Bool

/-- A change to the address space. -/
inductive Edit
  /-- A mapping with `MAP_FIXED`. -/
  | map (addr len : ℕ)
  /-- A `memset`. -/
  | zero (addr len : ℕ)
  | mprotect (addr len : ℕ)
  deriving DecidableEq, Repr

def Edit.addr : Edit → ℕ
  | .map addr _ | .zero addr _ | .mprotect addr _ => addr

def Edit.len : Edit → ℕ
  | .map _ len | .zero _ len | .mprotect _ len => len

/-- The fields of `soinfo` that loading fills in. -/
structure SoInfo where
  base : ℕ
  size : ℕ
  flags : ℕ
  entry : ℕ
  dynamic : ℕ
  wrprotect_start : ℕ
  wrprotect_end : ℕ
  gnu_relro_start : ℕ
  gnu_relro_len : ℕ
  ARM_exidx : ℕ
  ARM_exidx_count : ℕ
  deriving DecidableEq, Repr

/-- A clean `soinfo` with the fields that `load_library` sets. -/
def SoInfo.create (base size : ℕ) : SoInfo := ⟨base, size, 0, 0, 0xffffffff, 0, 0, 0, 0, 0, 0⟩

variable (env : Env) (si : SoInfo)

/-- `alloc_mem_region` -/
def alloc_mem_region : Option SoInfo :=
  if si.base ≠ 0 then
    -- `reserve_mem_region`
    if env.mmapFixed si.base si.size then some si else none
  else (env.mmap si.size).map fun base => { si with base := base }

/-! ## Segments -/

namespace Phdr

/-- The start of the first page of the segment, counted from the base. -/
def page (p : Phdr) : ℕ := pageDown p.p_vaddr

/-- `len`: the bytes that are mapped from the file. -/
def fileLen (p : Phdr) : ℕ := toUInt32 (p.p_filesz + p.p_vaddr % PAGE_SIZE)

/-- `base + p_vaddr + p_memsz` -/
def stop (base : ℕ) (p : Phdr) : ℕ := toUInt32 (base + p.p_vaddr + p.p_memsz)

def writable (p : Phdr) : Prop := p.p_flags &&& PF_W ≠ 0

instance (p : Phdr) : Decidable p.writable := inferInstanceAs (Decidable (_ ≠ _))

end Phdr

/-- The zero fill after the mapping at `pbase`. -/
def zeroFill (p : Phdr) (pbase : ℕ) : List Edit :=
  if p.fileLen % PAGE_SIZE ≠ 0 ∧ p.writable then
    [.zero (toUInt32 (pbase + p.fileLen)) (PAGE_SIZE - p.fileLen % PAGE_SIZE)]
  else []

/-- The part of the segment that is not in the file: the mapping, or `none` when it fails. -/
def extend (base : ℕ) (p : Phdr) (pbase : ℕ) : Option (List Edit) :=
  let tmp := pageUp (pbase + p.fileLen)
  if tmp < p.stop base then
    let extra_len := p.stop base - tmp
    if env.mmapFixed tmp extra_len then some [.map tmp extra_len] else none
  else some []

/-- The full extent of the segment that was loaded at `pbase`. -/
def fullLen (base : ℕ) (p : Phdr) (pbase : ℕ) : ℕ :=
  toUInt32 (pageUp (base + p.p_vaddr + p.p_memsz) + 2 ^ 32 - pbase)

/-- The end of the turn: the segment is made writable for relocation, and the range to protect again
is remembered. -/
def protect (p : Phdr) (pbase len : ℕ) (si : SoInfo) : List Edit × SoInfo :=
  if p.writable then ([], si)
  else
    ([.mprotect pbase len],
      { si with
        wrprotect_start := if pbase < si.wrprotect_start then pbase else si.wrprotect_start
        wrprotect_end := if toUInt32 (pbase + len) > si.wrprotect_end then toUInt32 (pbase + len)
          else si.wrprotect_end })

/-- One `PT_LOAD` header: what is changed, and `none` when a mapping fails. -/
def load_segment (total_sz : ℕ) (p : Phdr) : List Edit × Option (SoInfo × ℕ) :=
  let pbase := toUInt32 (si.base + p.page)
  if env.mmapFixed pbase p.fileLen then
    let edits := .map pbase p.fileLen :: zeroFill p pbase
    match extend env si.base p pbase with
    | none => (edits, none)
    | some extra =>
      let len := fullLen si.base p pbase
      let (protects, si) := protect p pbase len si
      (edits ++ extra ++ protects, some (si, toUInt32 (total_sz + len)))
  else ([], none)

/-- The check of a `PT_GNU_RELRO` header. -/
def relro_invalid (p : Phdr) : Prop :=
  p.p_vaddr ≥ si.size ∨ toUInt32 (p.p_vaddr + p.p_memsz) > si.size ∨ p.stop si.base < si.base

instance (si : SoInfo) (p : Phdr) : Decidable (relro_invalid si p) :=
  inferInstanceAs (Decidable (_ ∨ _))

/-- One turn of the loop of `load_segments`. -/
def load_phdr (total_sz : ℕ) (p : Phdr) : List Edit × Option (SoInfo × ℕ) :=
  if p.p_type = PT_LOAD then load_segment env si total_sz p
  else if p.p_type = PT_DYNAMIC then
    ([], some ({ si with dynamic := toUInt32 (si.base + p.p_vaddr) }, total_sz))
  else if p.p_type = PT_GNU_RELRO then
    if relro_invalid si p then ([], none)
    else
      ([], some ({ si with
        gnu_relro_start := toUInt32 (si.base + p.p_vaddr), gnu_relro_len := p.p_memsz }, total_sz))
  else if p.p_type = PT_ARM_EXIDX then
    ([], some ({ si with ARM_exidx := p.p_vaddr, ARM_exidx_count := p.p_memsz / 8 }, total_sz))
  else ([], some (si, total_sz))

/-- The loop of `load_segments`. -/
def load_loop (env : Env) : SoInfo → ℕ → List Phdr → List Edit × Option (SoInfo × ℕ)
  | si, total_sz, [] => ([], some (si, total_sz))
  | si, total_sz, p :: ps =>
    match load_phdr env si total_sz p with
    | (edits, none) => (edits, none)
    | (edits, some (si, total_sz)) =>
      let (rest, result) := load_loop env si total_sz ps
      (edits ++ rest, result)

/-- `load_segments`; on failure the reservation is unmapped. -/
def load_segments (ps : List Phdr) : List Edit × Option SoInfo :=
  match load_loop env { si with wrprotect_start := 0xffffffff, wrprotect_end := 0 } 0 ps with
  | (edits, none) => (edits, none)
  | (edits, some (si, total_sz)) => (edits, if total_sz > si.size then none else some si)

/-! ## The library -/

/-- What `load_library` did, and its result. -/
structure Outcome where
  /-- The offsets that program headers were read from. -/
  reads : List ℕ
  /-- `si->base` and `si->size`, once the memory is reserved. -/
  reservation : Option (ℕ × ℕ)
  /-- The changes `load_segments` made. -/
  edits : List Edit
  result : Option SoInfo

def load_library (hdr : Memory) : Outcome :=
  if ¬ env.opens then ⟨[], none, [], none⟩
  else
    -- the headers are read as soon as the magic is right
    let reads := if verify_elf_object hdr ∧ env.is_prelinked ≠ 0xffffffff then phdrOffsets hdr
      else []
    match get_lib_extents hdr env.is_prelinked with
    | none => ⟨reads, none, [], none⟩
    | some (req_base, ext_sz) =>
      if ¬ env.alloc_info then ⟨reads, none, [], none⟩
      else match alloc_mem_region env (.create req_base ext_sz) with
        | none => ⟨reads, none, [], none⟩
        | some si =>
          let (edits, result) := load_segments env si (phdrs hdr)
          ⟨reads, some (si.base, si.size), edits, result⟩

end Droid.Linker
