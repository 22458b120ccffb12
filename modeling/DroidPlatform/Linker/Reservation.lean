import DroidPlatform.Linker.LoadLibrary

/-!
# Segments and the reservation

Does `load_library` stay inside the memory it reserved?  `get_lib_extents` computes the size of the
reservation from the lowest and the highest address of the loadable segments, `load_segments` then
places the segments at `base + p_vaddr`.  The two agree only when the lowest address is in page zero
and no sum wraps, and nobody checks that, nor that the program headers are in the header page.

The kernel is what its manual says: it reserves a page-aligned, non-empty range of user addresses,
and it grants a `MAP_FIXED` mapping only if the mapping is not empty and lies in user addresses
(`Kernel`).  It may refuse any mapping.

`Phdr.Fits` says when the segment of one header stays inside, in terms of the header alone, and
`load_library_safe_iff` that the whole is safe exactly if each segment that can be reached and mapped
fits.
-/

namespace Droid.Linker

open List Option Phdr

variable {taskSize base size : ℕ} {p : Phdr} {ps : List Phdr} {hdr : Memory} {addr hi len : ℕ}
  {env : Env} {si : SoInfo}

/-! ## The kernel -/

/-- Where the kernel may put a reservation. -/
def Placed (taskSize base size : ℕ) : Prop :=
  0 < size ∧ base % PAGE_SIZE = 0 ∧ 0 < base ∧ base + size ≤ taskSize

/-- A mapping at a fixed address that the kernel may grant. -/
def Grants (taskSize addr len : ℕ) : Prop := 0 < len ∧ addr + len ≤ taskSize

instance (addr len : ℕ) : Decidable (Grants taskSize addr len) := inferInstanceAs (Decidable (_ ∧ _))

/-- A system whose user addresses end at `taskSize`. -/
structure Kernel (taskSize : ℕ) extends Env where
  mmap_placed : ∀ {size base}, mmap size = some base → Placed taskSize base size
  mmapFixed_grants : ∀ {addr len}, mmapFixed addr len = true → Grants taskSize addr len

/-- The kernel that reserves `size` bytes at `base` and refuses nothing else it may grant. -/
def Kernel.generous (h : Placed taskSize base size) : Kernel taskSize where
  opens := true
  is_prelinked := 0
  alloc_info := true
  mmap := fun n => if n = size then some base else none
  mmapFixed := fun addr len => decide (Grants taskSize addr len)
  mmap_placed := by
    intro n b hn
    split_ifs at hn with hsize
    cases hn
    exact hsize ▸ h
  mmapFixed_grants := by simp

/-! ## Safety -/

/-- The edit lies inside `[base, base + size)`. -/
def Edit.Inside (base size : ℕ) (e : Edit) : Prop :=
  base ≤ e.addr ∧ e.addr + e.len ≤ base + size

instance (e : Edit) : Decidable (e.Inside base size) := inferInstanceAs (Decidable (_ ∧ _))

lemma inside_map :
    (Edit.map addr len).Inside base size ↔ base ≤ addr ∧ addr + len ≤ base + size := Iff.rfl

lemma inside_zero :
    (Edit.zero addr len).Inside base size ↔ base ≤ addr ∧ addr + len ≤ base + size := Iff.rfl

lemma inside_mprotect :
    (Edit.mprotect addr len).Inside base size ↔ base ≤ addr ∧ addr + len ≤ base + size := Iff.rfl

/-- What is inside, counted from the base. -/
lemma inside_iff {off : ℕ} :
    base ≤ base + off ∧ base + off + len ≤ base + size ↔ off + len ≤ size := by
  omega

/-- The program headers are in the header page. -/
def InBuffer (offsets : List ℕ) : Prop := ∀ off ∈ offsets, off + sizeofPhdr ≤ PAGE_SIZE

instance (offsets : List ℕ) : Decidable (InBuffer offsets) :=
  inferInstanceAs (Decidable (∀ off ∈ offsets, _))

/-- The headers are read from the header page and every change lies inside the reservation; otherwise
the library is not loaded, and nothing was changed. -/
def Outcome.Safe (o : Outcome) : Prop :=
  (InBuffer o.reads ∧ ∃ base size, o.reservation = some (base, size) ∧
    ∀ e ∈ o.edits, e.Inside base size) ∨ (o.result = none ∧ o.edits = [])

/-! ## Segments that fit -/

namespace Phdr

/-- The end of the segment in memory, counted from the base. -/
@[irreducible] def memEnd (p : Phdr) : ℕ := toUInt32 (p.p_vaddr + p.p_memsz)

/-- The pages from the first one of the segment to the end of the segment in memory. -/
@[irreducible] def span (p : Phdr) : ℕ := toUInt32 (pageUp (p.p_vaddr + p.p_memsz) + 2 ^ 32 - p.page)

/-- The kernel may map the file part of the segment. -/
def Granted (taskSize base : ℕ) (p : Phdr) : Prop :=
  Grants taskSize (toUInt32 (base + p.page)) p.fileLen

/-- The segment ends above all user addresses, so that the rest of it cannot be mapped. -/
def Refused (taskSize base : ℕ) (p : Phdr) : Prop :=
  taskSize < base + p.memEnd ∧ base + p.memEnd < 2 ^ 32

/-- The segment stays inside the reservation. -/
structure Fits (taskSize base size : ℕ) (p : Phdr) : Prop where
  file : p.page + p.fileLen ≤ size
  /-- The part that is not in the file is mapped only as long as it ends in user addresses. -/
  rest : base + p.memEnd ≤ taskSize → p.memEnd ≤ size
  protect : ¬ p.Refused taskSize base → ¬ p.writable → p.page + p.span ≤ size

/-- The loop goes on after this header. -/
def Passes (taskSize base size : ℕ) (p : Phdr) : Prop :=
  (p.p_type = PT_LOAD → p.Granted taskSize base ∧ ¬ p.Refused taskSize base) ∧
    (p.p_type = PT_GNU_RELRO → p.p_vaddr < size ∧ p.memEnd ≤ size)

end Phdr

/-- Every loadable segment that is reached and can be mapped satisfies `good`. -/
def Reached (taskSize base size : ℕ) (good : Phdr → Prop) (ps : List Phdr) : Prop :=
  ∀ pre p post, ps = pre ++ p :: post → (∀ q ∈ pre, q.Passes taskSize base size) →
    p.p_type = PT_LOAD → p.Granted taskSize base → good p

lemma reached_cons {good : Phdr → Prop} : Reached taskSize base size good (p :: ps) ↔
    (p.p_type = PT_LOAD → p.Granted taskSize base → good p) ∧
      (p.Passes taskSize base size → Reached taskSize base size good ps) := by
  constructor
  · intro h
    refine ⟨h [] p ps rfl (by simp), fun hp pre q post heq hpre => ?_⟩
    exact h (p :: pre) q post (by simp [heq]) (forall_mem_cons.mpr ⟨hp, hpre⟩)
  · rintro ⟨hfirst, hrest⟩ pre q post heq hpre
    cases pre with
    | nil =>
      cases heq
      exact hfirst
    | cons a pre =>
      cases heq
      obtain ⟨ha, hpre⟩ := forall_mem_cons.mp hpre
      exact hrest ha pre q post rfl hpre

/-! ## Arithmetic of one segment -/

lemma pageDown_le (x : ℕ) : pageDown x ≤ x := Nat.sub_le _ _

lemma pageDown_mod (x : ℕ) : pageDown x % PAGE_SIZE = 0 := by
  simp only [pageDown, PAGE_SIZE]
  omega

lemma Phdr.stop_eq (base : ℕ) (p : Phdr) : p.stop base = toUInt32 (base + p.memEnd) := by
  simp only [stop, memEnd, toUInt32]
  omega

lemma Phdr.memEnd_lt (p : Phdr) : p.memEnd < 2 ^ 32 := by
  rw [memEnd]
  exact toUInt32_lt _

/-- The file part of a segment, rounded up to pages. -/
@[irreducible] def Phdr.fileEnd (p : Phdr) : ℕ :=
  p.page + (p.fileLen + PAGE_SIZE - 1) / PAGE_SIZE * PAGE_SIZE

section Arithmetic

variable (htask : taskSize + PAGE_SIZE ≤ 2 ^ 32) (hplaced : Placed taskSize base size)
  (hsize : size % PAGE_SIZE = 0) (hvaddr : p.p_vaddr < 2 ^ 32)

include htask hplaced hvaddr in
/-- The file mapping is inside exactly if the file part fits. -/
lemma inside_map_iff (hgranted : p.Granted taskSize base) :
    (Edit.map (toUInt32 (base + p.page)) p.fileLen).Inside base size ↔
      p.page + p.fileLen ≤ size := by
  obtain ⟨-, -, -, hle⟩ := hplaced
  have hpos := hgranted.1
  have hpage : p.page ≤ p.p_vaddr := pageDown_le _
  simp only [inside_map, toUInt32] at *
  omega

include htask hplaced in
lemma toUInt32_base_add_page (hfile : p.page + p.fileLen ≤ size) :
    toUInt32 (base + p.page) = base + p.page := by
  obtain ⟨-, -, -, hle⟩ := hplaced
  simp only [toUInt32, PAGE_SIZE] at *
  omega

include htask hplaced in
lemma pageUp_fileLen (hfile : p.page + p.fileLen ≤ size) :
    pageUp (base + p.page + p.fileLen) = base + p.fileEnd := by
  obtain ⟨-, halign, -, hle⟩ := hplaced
  have hpage : p.page % PAGE_SIZE = 0 := pageDown_mod _
  simp only [pageUp, pageDown, toUInt32, fileEnd, PAGE_SIZE] at *
  omega

include hsize in
lemma fileEnd_le (hfile : p.page + p.fileLen ≤ size) : p.fileEnd ≤ size := by
  have hpage : p.page % PAGE_SIZE = 0 := pageDown_mod _
  simp only [fileEnd, PAGE_SIZE] at *
  omega

include htask hplaced hsize in
/-- The zero fill stays inside as soon as the file part does. -/
lemma inside_zeroFill (hfile : p.page + p.fileLen ≤ size) :
    ∀ e ∈ zeroFill p (base + p.page), e.Inside base size := by
  obtain ⟨-, -, -, hle⟩ := hplaced
  have hpage : p.page % PAGE_SIZE = 0 := pageDown_mod _
  intro e he
  rw [zeroFill] at he
  split_ifs at he with hzero
  · rw [mem_singleton] at he
    subst he
    simp only [inside_zero, toUInt32, PAGE_SIZE] at *
    omega
  · simp at he

/-- Whether the rest of the segment is asked for, and where it ends. -/
lemma extends_iff :
    (base + p.fileEnd < p.stop base ↔ p.fileEnd < p.memEnd ∧ base + p.memEnd < 2 ^ 32) ∧
      (base + p.memEnd < 2 ^ 32 → p.stop base = base + p.memEnd) := by
  have hmem : p.memEnd < 2 ^ 32 := p.memEnd_lt
  rw [p.stop_eq]
  simp only [toUInt32] at *
  omega

include htask hplaced in
lemma fullLen_eq (hfile : p.page + p.fileLen ≤ size) :
    fullLen base p (base + p.page) = p.span := by
  obtain ⟨-, halign, -, hle⟩ := hplaced
  simp only [fullLen, Phdr.span, pageUp, pageDown, toUInt32, PAGE_SIZE] at *
  omega

end Arithmetic

/-! ## One segment -/

lemma protect_base_size (p : Phdr) (pbase len : ℕ) (si : SoInfo) :
    (protect p pbase len si).2.base = si.base ∧ (protect p pbase len si).2.size = si.size := by
  rw [protect]
  split_ifs <;> exact ⟨rfl, rfl⟩

lemma mem_protect {pbase : ℕ} {e : Edit} :
    e ∈ (protect p pbase len si).1 ↔ ¬ p.writable ∧ e = .mprotect pbase len := by
  rw [protect]
  split_ifs with hw <;> simp [hw]

section Segment

-- a kernel that refuses nothing it may grant
variable {env : Env} (hfull : ∀ addr len, env.mmapFixed addr len = true ↔ Grants taskSize addr len)
  {si : SoInfo} (total : ℕ) (htask : taskSize + PAGE_SIZE ≤ 2 ^ 32)
  (hplaced : Placed taskSize si.base si.size) (hsize : si.size % PAGE_SIZE = 0)
  (hvaddr : p.p_vaddr < 2 ^ 32)

/-- The mapping of the rest of the segment. -/
def Phdr.extra (taskSize base : ℕ) (p : Phdr) : List Edit :=
  if p.fileEnd < p.memEnd ∧ base + p.memEnd ≤ taskSize then
    [.map (base + p.fileEnd) (p.memEnd - p.fileEnd)]
  else []

include hfull htask hplaced hsize in
/-- The rest of a segment whose file part fits, in terms of the header. -/
lemma extend_eq (hfile : p.page + p.fileLen ≤ si.size) :
    (p.Refused taskSize si.base ∧ extend env si.base p (si.base + p.page) = none) ∨
      (¬ p.Refused taskSize si.base ∧
        extend env si.base p (si.base + p.page) = some (p.extra taskSize si.base)) := by
  obtain ⟨hextends, hstop⟩ := @extends_iff si.base p
  have hend := fileEnd_le hsize hfile
  have hle := hplaced.2.2.2
  rw [extend, pageUp_fileLen htask hplaced hfile, extra, Refused]
  by_cases hmore : p.fileEnd < p.memEnd ∧ si.base + p.memEnd < 2 ^ 32
  · have hlen : p.stop si.base - (si.base + p.fileEnd) = p.memEnd - p.fileEnd := by
      omega
    simp only [if_pos (hextends.mpr hmore), hlen, hfull, Grants]
    by_cases hbelow : si.base + p.memEnd ≤ taskSize
    · refine Or.inr ⟨by omega, ?_⟩
      rw [if_pos (by omega), if_pos ⟨hmore.1, hbelow⟩]
    · refine Or.inl ⟨by omega, ?_⟩
      rw [if_neg (by omega)]
  · simp only [PAGE_SIZE] at htask
    simp only [if_neg (mt hextends.mp hmore)]
    refine Or.inr ⟨by omega, ?_⟩
    rw [if_neg (by omega)]

include hfull htask hplaced hsize in
/-- A segment whose file part fits, in terms of the header. -/
lemma load_segment_eq (hfile : p.page + p.fileLen ≤ si.size) (hgranted : p.Granted taskSize si.base) :
    (p.Refused taskSize si.base ∧ load_segment env si total p =
      (.map (si.base + p.page) p.fileLen :: zeroFill p (si.base + p.page), none)) ∨
    (¬ p.Refused taskSize si.base ∧ load_segment env si total p =
      (.map (si.base + p.page) p.fileLen :: zeroFill p (si.base + p.page) ++
          p.extra taskSize si.base ++ (protect p (si.base + p.page) p.span si).1,
        some ((protect p (si.base + p.page) p.span si).2, toUInt32 (total + p.span)))) := by
  have hmap := (hfull _ _).mpr hgranted
  have hpbase := toUInt32_base_add_page htask hplaced hfile
  rw [hpbase] at hmap
  simp only [load_segment, hpbase, hmap, if_true, fullLen_eq htask hplaced hfile]
  rcases extend_eq hfull htask hplaced hsize hfile with ⟨hrefused, hnone⟩ | ⟨hrefused, hsome⟩
  · exact Or.inl ⟨hrefused, by rw [hnone]⟩
  · exact Or.inr ⟨hrefused, by rw [hsome]⟩

lemma mem_load_segment (hmap : env.mmapFixed (toUInt32 (si.base + p.page)) p.fileLen = true) :
    Edit.map (toUInt32 (si.base + p.page)) p.fileLen ∈ (load_segment env si total p).1 := by
  simp only [load_segment, hmap, if_true]
  split <;> simp

include hfull htask hplaced hsize hvaddr in
/-- **A segment stays inside exactly if it fits.** -/
lemma load_segment_inside_iff (hgranted : p.Granted taskSize si.base) :
    (∀ e ∈ (load_segment env si total p).1, e.Inside si.base si.size) ↔
      p.Fits taskSize si.base si.size := by
  by_cases hfile : p.page + p.fileLen ≤ si.size
  · have hend := fileEnd_le hsize hfile
    have hstart : ∀ e ∈ Edit.map (si.base + p.page) p.fileLen :: zeroFill p (si.base + p.page),
        e.Inside si.base si.size := by
      refine forall_mem_cons.mpr ⟨?_, inside_zeroFill htask hplaced hsize hfile⟩
      rwa [inside_map, inside_iff]
    rcases load_segment_eq hfull total htask hplaced hsize hfile hgranted with
      ⟨hrefused, heq⟩ | ⟨hrefused, heq⟩
    · rw [heq]
      refine ⟨fun _ => ⟨hfile, fun hbelow => ?_, fun hnot => absurd hrefused hnot⟩, fun _ => hstart⟩
      exact absurd hbelow (not_le.mpr hrefused.1)
    · have hextra : (∀ e ∈ p.extra taskSize si.base, e.Inside si.base si.size) ↔
          (si.base + p.memEnd ≤ taskSize → p.memEnd ≤ si.size) := by
        rw [extra]
        split_ifs with hmore
        · rw [forall_mem_singleton, inside_map]
          omega
        · simp only [not_mem_nil, false_imp_iff, implies_true, true_iff]
          omega
      have hprotect : (∀ e ∈ (protect p (si.base + p.page) p.span si).1,
          e.Inside si.base si.size) ↔ (¬ p.writable → p.page + p.span ≤ si.size) := by
        simp only [mem_protect, and_imp, forall_comm (α := Edit), forall_eq, inside_mprotect,
          inside_iff]
      rw [heq, forall_mem_append, forall_mem_append, hextra, hprotect]
      exact ⟨fun h => ⟨hfile, h.1.2, fun _ => h.2⟩, fun h => ⟨⟨hstart, h.rest⟩, h.protect hrefused⟩⟩
  · refine iff_of_false (fun hall => hfile ?_) fun h => hfile h.file
    exact (inside_map_iff htask hplaced hvaddr hgranted).mp
      (hall _ (mem_load_segment total ((hfull _ _).mpr hgranted)))

/-! ## The loop -/

include htask hplaced in
lemma relro_invalid_iff : relro_invalid si p ↔ ¬ (p.p_vaddr < si.size ∧ p.memEnd ≤ si.size) := by
  have hle := hplaced.2.2.2
  have hmem : toUInt32 (p.p_vaddr + p.p_memsz) = p.memEnd := by rw [memEnd]
  rw [relro_invalid, p.stop_eq]
  simp only [toUInt32, PAGE_SIZE] at *
  omega

/-- A header that is not loadable changes nothing, and the loop goes on unless it is an invalid
`PT_GNU_RELRO`. -/
lemma load_phdr_of_ne (env : Env) (si : SoInfo) (total : ℕ) (hne : p.p_type ≠ PT_LOAD) :
    (load_phdr env si total p).1 = [] ∧
      (p.p_type = PT_GNU_RELRO ∧ relro_invalid si p ∧ (load_phdr env si total p).2 = none ∨
        (p.p_type = PT_GNU_RELRO → ¬ relro_invalid si p) ∧
          ∃ si' total', (load_phdr env si total p).2 = some (si', total') ∧
            si'.base = si.base ∧ si'.size = si.size) := by
  have hdyn : PT_DYNAMIC ≠ PT_GNU_RELRO := by decide
  rw [load_phdr, if_neg hne]
  split_ifs with h hrelro hinvalid
  · exact ⟨rfl, .inr ⟨fun hrelro => absurd (h.symm.trans hrelro) hdyn, _, _, rfl, rfl, rfl⟩⟩
  · exact ⟨rfl, .inl ⟨hrelro, hinvalid, rfl⟩⟩
  · exact ⟨rfl, .inr ⟨fun _ => hinvalid, _, _, rfl, rfl, rfl⟩⟩
  · exact ⟨rfl, .inr ⟨fun h => absurd h hrelro, _, _, rfl, rfl, rfl⟩⟩
  · exact ⟨rfl, .inr ⟨fun h => absurd h hrelro, _, _, rfl, rfl, rfl⟩⟩

variable {A : Prop}

include hfull htask hplaced hsize hvaddr in
lemma load_phdr_inside_iff : (∀ e ∈ (load_phdr env si total p).1, A ∧ e.Inside si.base si.size) ↔
    (p.p_type = PT_LOAD → p.Granted taskSize si.base → A ∧ p.Fits taskSize si.base si.size) := by
  by_cases hload : p.p_type = PT_LOAD
  · rw [load_phdr, if_pos hload]
    by_cases hgranted : p.Granted taskSize si.base
    · have hmap := mem_load_segment total ((hfull _ _).mpr hgranted)
      rw [← load_segment_inside_iff hfull total htask hplaced hsize hvaddr hgranted]
      exact ⟨fun h _ _ => ⟨(h _ hmap).1, fun e he => (h e he).2⟩,
        fun h e he => ⟨(h hload hgranted).1, (h hload hgranted).2 e he⟩⟩
    · rw [load_segment, if_neg (mt (hfull _ _).mp hgranted)]
      exact iff_of_true (by simp) fun _ h => absurd h hgranted
  · rw [(load_phdr_of_ne env si total hload).1]
    exact iff_of_true (by simp) fun h => absurd h hload

include hfull htask hplaced hsize in
/-- Whether the loop goes on after a header that is good. -/
lemma load_phdr_next
    (hgood : p.p_type = PT_LOAD → p.Granted taskSize si.base → p.Fits taskSize si.base si.size) :
    (¬ p.Passes taskSize si.base si.size ∧ (load_phdr env si total p).2 = none) ∨
      (p.Passes taskSize si.base si.size ∧ ∃ si' total',
        (load_phdr env si total p).2 = some (si', total') ∧ si'.base = si.base ∧
          si'.size = si.size) := by
  by_cases hload : p.p_type = PT_LOAD
  · have hrelro : p.p_type ≠ PT_GNU_RELRO := by
      rw [hload]
      decide
    rw [load_phdr, if_pos hload]
    by_cases hgranted : p.Granted taskSize si.base
    · rcases load_segment_eq hfull total htask hplaced hsize (hgood hload hgranted).file hgranted with
        ⟨hrefused, heq⟩ | ⟨hrefused, heq⟩
      · exact Or.inl ⟨fun h => (h.1 hload).2 hrefused, by rw [heq]⟩
      · obtain ⟨hbase, hsize'⟩ := protect_base_size p (si.base + p.page) p.span si
        exact Or.inr ⟨⟨fun _ => ⟨hgranted, hrefused⟩, fun h => absurd h hrelro⟩, _, _,
          by rw [heq], hbase, hsize'⟩
    · rw [load_segment, if_neg (mt (hfull _ _).mp hgranted)]
      exact Or.inl ⟨fun h => hgranted (h.1 hload).1, rfl⟩
  · obtain ⟨-, ⟨hrelro, hinvalid, hnone⟩ | ⟨hvalid, hsome⟩⟩ := load_phdr_of_ne env si total hload
    · exact Or.inl ⟨fun h => (relro_invalid_iff htask hplaced).mp hinvalid (h.2 hrelro), hnone⟩
    · refine Or.inr ⟨⟨fun h => absurd h hload, fun hrelro => ?_⟩, hsome⟩
      exact not_not.mp (mt (relro_invalid_iff htask hplaced).mpr (hvalid hrelro))

include hfull htask in
/-- **The loop stays inside** exactly if every segment it reaches does. -/
theorem load_loop_inside_iff (hplaced : Placed taskSize si.base si.size)
    (hsize : si.size % PAGE_SIZE = 0) (hvaddr : ∀ p ∈ ps, p.p_vaddr < 2 ^ 32) :
    (∀ e ∈ (load_loop env si total ps).1, A ∧ e.Inside si.base si.size) ↔
      Reached taskSize si.base si.size (fun p => A ∧ p.Fits taskSize si.base si.size) ps := by
  induction ps generalizing si total with
  | nil => exact iff_of_true (by simp [load_loop]) fun pre p post heq => absurd heq (by simp)
  | cons p ps ih =>
    obtain ⟨hvp, hvps⟩ := forall_mem_cons.mp hvaddr
    have hfirst := load_phdr_inside_iff (A := A) hfull total htask hplaced hsize hvp
    have hnext := load_phdr_next hfull total htask hplaced hsize (p := p)
    rw [reached_cons, ← hfirst, load_loop]
    rcases hstep : load_phdr env si total p with ⟨edits, result⟩
    rw [hstep] at hfirst hnext
    by_cases hgood : ∀ e ∈ edits, A ∧ e.Inside si.base si.size
    · rcases hnext fun hload hgranted => (hfirst.mp hgood hload hgranted).2 with
        ⟨hpasses, rfl⟩ | ⟨hpasses, si', total', rfl, hbase, hsize'⟩
      · simp [hpasses]
      · have hrest := ih total' (hbase ▸ hsize' ▸ hplaced) (hsize' ▸ hsize) hvps
        rw [hbase, hsize'] at hrest
        simp only [forall_mem_append, hrest, hpasses, true_imp_iff]
    · refine iff_of_false (fun h => hgood fun e he => h e ?_) fun h => hgood h.1
      cases result with
      | none => exact he
      | some state => exact mem_append_left _ he

end Segment

/-- What a kernel that refuses more changes is part of what the other one changes. -/
lemma load_loop_subset (env env' : Env)
    (hle : ∀ addr len, env.mmapFixed addr len = true → env'.mmapFixed addr len = true) (si : SoInfo)
    (total : ℕ) (ps : List Phdr) :
    (load_loop env si total ps).1 ⊆ (load_loop env' si total ps).1 := by
  induction ps generalizing si total with
  | nil => exact fun _ h => h
  | cons p ps ih =>
    have hstep : load_phdr env si total p = load_phdr env' si total p ∨
        ((load_phdr env si total p).2 = none ∧
          (load_phdr env si total p).1 ⊆ (load_phdr env' si total p).1) := by
      rw [load_phdr, load_phdr]
      split_ifs
      · rw [load_segment, load_segment]
        split_ifs with hmap hmap'
        · rw [extend, extend]
          dsimp only
          split_ifs with _ hmore hmore'
          · exact Or.inl rfl
          · exact absurd (hle _ _ hmore) hmore'
          · exact Or.inr ⟨rfl, by simp⟩
          · exact Or.inl rfl
          · exact Or.inl rfl
        · exact absurd (hle _ _ hmap) hmap'
        · exact Or.inr ⟨rfl, by simp⟩
        · exact Or.inl rfl
      all_goals exact Or.inl rfl
    rw [load_loop, load_loop]
    rcases hstep with heq | ⟨hnone, hsub⟩
    · rw [heq]
      rcases load_phdr env' si total p with ⟨edits, _ | ⟨si', total'⟩⟩
      · exact fun _ h => h
      · exact append_subset.mpr ⟨subset_append_left _ _,
          subset_append_of_subset_right _ (ih si' total')⟩
    · rcases hp : load_phdr env si total p with ⟨edits, result⟩
      rw [hp] at hnone hsub
      subst hnone
      refine trans hsub ?_
      rcases load_phdr env' si total p with ⟨edits', _ | ⟨si', total'⟩⟩
      · exact fun _ h => h
      · exact subset_append_left _ _

/-! ## The library -/

/-- A loop that runs to its end has mapped every loadable segment. -/
lemma edits_ne_nil_of_load_loop {total : ℕ} {state : SoInfo × ℕ}
    (hload : ∃ p ∈ ps, p.p_type = PT_LOAD) (h : (load_loop env si total ps).2 = some state) :
    (load_loop env si total ps).1 ≠ [] := by
  induction ps generalizing si total with
  | nil => simp at hload
  | cons p ps ih =>
    rw [load_loop] at h ⊢
    cases hstep : load_phdr env si total p with
    | mk edits result =>
      cases result with
      | none => simp [hstep] at h
      | some next =>
        simp only [hstep] at h ⊢
        by_cases hp : p.p_type = PT_LOAD
        · rw [load_phdr, load_segment] at hstep
          split_ifs at hstep with hmap
          · have hedits : edits ≠ [] := by
              revert hstep
              split
              · rintro ⟨⟩
              · rintro ⟨⟩
                simp
            simp [hedits]
          · simp at hstep
        · obtain ⟨q, hq, hqload⟩ := hload
          rcases mem_cons.mp hq with rfl | hq
          · exact absurd hqload hp
          · simp [ih ⟨q, hq, hqload⟩ h]

lemma vaddrRange_of_not_load {lo : ℕ} (h : ∀ p ∈ ps, p.p_type ≠ PT_LOAD) :
    vaddrRange ps lo hi = (lo, hi) := by
  induction ps with
  | nil => rfl
  | cons p ps ih =>
    obtain ⟨hp, hps⟩ := forall_mem_cons.mp h
    rw [vaddrRange, if_neg hp, ih hps]

lemma exists_load_of_total_sz (h : total_sz ps = some size) : ∃ p ∈ ps, p.p_type = PT_LOAD := by
  by_contra hnone
  push Not at hnone
  simp [total_sz, vaddrRange_of_not_load hnone] at h

lemma total_sz_mod (h : total_sz ps = some size) : size % PAGE_SIZE = 0 := by
  simp only [total_sz, ite_none_left_eq_some, some.injEq] at h
  obtain ⟨-, rfl⟩ := h
  have hup := pageDown_mod (toUInt32 ((vaddrRange ps 0xffffffff 0).2 + PAGE_SIZE - 1))
  have hdown := pageDown_mod (vaddrRange ps 0xffffffff 0).1
  rw [pageUp]
  simp only [toUInt32, PAGE_SIZE] at *
  omega

lemma field_lt (hdr : Memory) (off : ℕ) : field hdr off 4 < 2 ^ 32 := by
  have h := ofBytes_lt ((range 4).map fun k => hdr (toUInt32 (off + k)))
  simpa [field] using h

lemma p_vaddr_lt (hdr : Memory) : ∀ p ∈ phdrs hdr, p.p_vaddr < 2 ^ 32 := by
  intro p hp
  obtain ⟨off, -, rfl⟩ := mem_map.mp hp
  exact field_lt hdr (off + 8)

/-- `load_library` once the memory is reserved. -/
lemma load_library_eq (hvalid : verify_elf_object hdr) (hprelinked : env.is_prelinked = 0)
    (hopens : env.opens = true) (halloc : env.alloc_info = true)
    (htotal : total_sz (phdrs hdr) = some size) (hmmap : env.mmap size = some base) :
    load_library env hdr =
      ⟨phdrOffsets hdr, some (base, size), (load_segments env (.create base size) (phdrs hdr)).1,
        (load_segments env (.create base size) (phdrs hdr)).2⟩ := by
  simp [load_library, hopens, get_lib_extents, hvalid, hprelinked, htotal, halloc,
    alloc_mem_region, SoInfo.create, hmmap]

/-- `load_library` stops before the segments, or it loads them over the reservation. -/
lemma load_library_cases (hvalid : verify_elf_object hdr) (hprelinked : env.is_prelinked = 0) :
    ((load_library env hdr).result = none ∧ (load_library env hdr).edits = []) ∨
      ∃ size base, total_sz (phdrs hdr) = some size ∧ env.mmap size = some base ∧
        load_library env hdr =
          ⟨phdrOffsets hdr, some (base, size),
            (load_segments env (.create base size) (phdrs hdr)).1,
            (load_segments env (.create base size) (phdrs hdr)).2⟩ := by
  cases hopens : env.opens with
  | false => exact .inl (by simp [load_library, hopens])
  | true =>
    cases htotal : total_sz (phdrs hdr) with
    | none =>
      exact .inl (by simp [load_library, hopens, get_lib_extents, htotal])
    | some size =>
      cases halloc : env.alloc_info with
      | false =>
        exact .inl (by simp [load_library, hopens, get_lib_extents, hvalid, hprelinked, htotal,
          halloc])
      | true =>
        cases hmmap : env.mmap size with
        | none =>
          exact .inl (by simp [load_library, hopens, get_lib_extents, hvalid, hprelinked, htotal,
            alloc_mem_region, SoInfo.create, hmmap])
        | some base =>
          exact .inr ⟨size, base, rfl, hmmap,
            load_library_eq hvalid hprelinked hopens halloc htotal hmmap⟩

/-- The state at the start of the loop. -/
def SoInfo.start (base size : ℕ) : SoInfo :=
  { SoInfo.create base size with wrprotect_start := 0xffffffff, wrprotect_end := 0 }

lemma load_segments_edits (env : Env) (base size : ℕ) (ps : List Phdr) :
    (load_segments env (.create base size) ps).1 = (load_loop env (.start base size) 0 ps).1 := by
  rw [load_segments, SoInfo.start]
  split <;> simp_all

/-- A library that was loaded has mapped its segments. -/
lemma load_segments_result (hload : ∃ p ∈ ps, p.p_type = PT_LOAD)
    (h : (load_segments env (.create base size) ps).1 = []) :
    (load_segments env (.create base size) ps).2 = none := by
  rw [load_segments_edits] at h
  rw [load_segments]
  split
  · rfl
  · next heq => exact absurd h (edits_ne_nil_of_load_loop hload (by rw [SoInfo.start, heq]))

/-- The loop, from the start, on a kernel that refuses nothing it may grant. -/
lemma load_loop_start_iff {A : Prop} (htask : taskSize + PAGE_SIZE ≤ 2 ^ 32)
    (hplaced : Placed taskSize base size) (htotal : total_sz (phdrs hdr) = some size) :
    (∀ e ∈ (load_loop (Kernel.generous hplaced).toEnv (.start base size) 0 (phdrs hdr)).1,
      A ∧ e.Inside base size) ↔
      Reached taskSize base size (fun p => A ∧ p.Fits taskSize base size) (phdrs hdr) :=
  load_loop_inside_iff (fun _ _ => decide_eq_true_iff) 0 htask hplaced
    (total_sz_mod htotal) (p_vaddr_lt hdr)

/-- A library whose segments fit wherever they are reached is loaded safely. -/
lemma safe_of_reached (htask : taskSize + PAGE_SIZE ≤ 2 ^ 32) (hvalid : verify_elf_object hdr)
    (hreached : ∀ size base, total_sz (phdrs hdr) = some size → Placed taskSize base size →
      Reached taskSize base size
        (fun p => InBuffer (phdrOffsets hdr) ∧ p.Fits taskSize base size) (phdrs hdr))
    (k : Kernel taskSize) (hprelinked : k.is_prelinked = 0) : (load_library k.toEnv hdr).Safe := by
  rcases load_library_cases hvalid hprelinked with hstop | ⟨size, base, htotal, hmmap, hlibrary⟩
  · exact .inr hstop
  · have hplaced := k.mmap_placed hmmap
    have hsub := load_loop_subset k.toEnv (Kernel.generous hplaced).toEnv
      (fun addr len hmap => decide_eq_true (k.mmapFixed_grants hmap)) (.start base size) 0 (phdrs hdr)
    have hinside := fun e he => (load_loop_start_iff htask hplaced htotal).mpr
      (hreached size base htotal hplaced) e (hsub he)
    rw [hlibrary]
    cases hedits : (load_segments k.toEnv (.create base size) (phdrs hdr)).1 with
    | nil => exact .inr ⟨load_segments_result (exists_load_of_total_sz htotal) hedits, rfl⟩
    | cons e edits =>
      rw [← load_segments_edits, hedits] at hinside
      exact .inl ⟨(hinside e (by simp)).1, base, size, rfl, fun e he => (hinside e he).2⟩

/-! ## Libraries as linkers make them -/

/-- The headers are in the first page, the lowest segment starts in page zero, no segment is longer in
the file than in memory, and none reaches the last page of the address space. -/
structure WellFormed (hdr : Memory) : Prop where
  buffer : InBuffer (phdrOffsets hdr)
  lowest : ∃ p ∈ phdrs hdr, p.p_type = PT_LOAD ∧ p.p_vaddr < PAGE_SIZE
  filesz_le : ∀ p ∈ phdrs hdr, p.p_type = PT_LOAD → p.p_filesz ≤ p.p_memsz
  highest : ∀ p ∈ phdrs hdr, p.p_type = PT_LOAD → p.p_vaddr + p.p_memsz + PAGE_SIZE ≤ 2 ^ 32

lemma vaddrRange_bounds (lo hi : ℕ) {bound : ℕ} (hhi : hi ≤ bound)
    (hbound : ∀ p ∈ ps, p.p_type = PT_LOAD → toUInt32 (p.p_vaddr + p.p_memsz) ≤ bound) :
    (vaddrRange ps lo hi).1 ≤ lo ∧ hi ≤ (vaddrRange ps lo hi).2 ∧ (vaddrRange ps lo hi).2 ≤ bound ∧
      ∀ p ∈ ps, p.p_type = PT_LOAD → (vaddrRange ps lo hi).1 ≤ p.p_vaddr ∧
        toUInt32 (p.p_vaddr + p.p_memsz) ≤ (vaddrRange ps lo hi).2 := by
  induction ps generalizing lo hi with
  | nil => simp [vaddrRange, hhi]
  | cons p ps ih =>
    obtain ⟨hp, hps⟩ := forall_mem_cons.mp hbound
    rw [vaddrRange]
    by_cases hload : p.p_type = PT_LOAD
    · simp only [if_pos hload]
      have hp := hp hload
      generalize hstop : toUInt32 (p.p_vaddr + p.p_memsz) = stop at hp
      obtain ⟨hlo, hhi', hle, hall⟩ := ih (if p.p_vaddr < lo then p.p_vaddr else lo)
        (if stop > hi then stop else hi) (by split_ifs <;> assumption) hps
      refine ⟨hlo.trans (by split_ifs <;> omega), le_trans (by split_ifs <;> omega) hhi', hle,
        forall_mem_cons.mpr ⟨fun _ => ⟨hlo.trans (by split_ifs <;> omega), ?_⟩, hall⟩⟩
      exact hstop.trans_le (le_trans (by split_ifs <;> omega) hhi')
    · simp only [if_neg hload]
      obtain ⟨hlo, hhi', hle, hall⟩ := ih lo hi hhi hps
      exact ⟨hlo, hhi', hle, forall_mem_cons.mpr ⟨fun h => absurd h hload, hall⟩⟩

/-- A segment of the reservation `[0, pageUp hi)`. -/
lemma fits_of_le (hhi : hi + PAGE_SIZE ≤ 2 ^ 32) (hfilesz : p.p_filesz ≤ p.p_memsz)
    (hmem : p.p_vaddr + p.p_memsz ≤ hi) : p.Fits taskSize base (pageUp hi) := by
  refine ⟨?_, fun _ => ?_, fun _ _ => ?_⟩
  · simp only [page, fileLen, pageUp, pageDown, toUInt32, PAGE_SIZE] at *
    omega
  · simp only [memEnd, pageUp, pageDown, toUInt32, PAGE_SIZE] at *
    omega
  · simp only [page, Phdr.span, pageUp, pageDown, toUInt32, PAGE_SIZE] at *
    omega

/-- In a well-formed library every segment fits. -/
lemma WellFormed.fits (h : WellFormed hdr) (htotal : total_sz (phdrs hdr) = some size)
    (hp : p ∈ phdrs hdr) (hload : p.p_type = PT_LOAD) : p.Fits taskSize base size := by
  have hstop : ∀ q ∈ phdrs hdr, q.p_type = PT_LOAD →
      toUInt32 (q.p_vaddr + q.p_memsz) = q.p_vaddr + q.p_memsz := by
    intro q hq hqload
    have hhigh := h.highest q hq hqload
    simp only [PAGE_SIZE] at hhigh
    exact toUInt32_eq_self (by omega)
  have hle : ∀ q ∈ phdrs hdr, q.p_type = PT_LOAD →
      toUInt32 (q.p_vaddr + q.p_memsz) ≤ 2 ^ 32 - PAGE_SIZE := by
    intro q hq hqload
    have hhigh := h.highest q hq hqload
    rw [hstop q hq hqload]
    omega
  obtain ⟨-, -, hbound, hall⟩ := vaddrRange_bounds 0xffffffff 0 (Nat.zero_le _) hle
  obtain ⟨q, hq, hqload, hlow⟩ := h.lowest
  have hlo := (hall q hq hqload).1
  have hhi := (hall p hp hload).2
  rw [hstop p hp hload] at hhi
  simp only [total_sz, ite_none_left_eq_some, some.injEq] at htotal
  obtain ⟨-, rfl⟩ := htotal
  generalize (vaddrRange (phdrs hdr) 0xffffffff 0).1 = lo at *
  generalize (vaddrRange (phdrs hdr) 0xffffffff 0).2 = hi at *
  have hsize : toUInt32 (pageUp hi + 2 ^ 32 - pageDown lo) = pageUp hi := by
    simp only [pageUp, pageDown, toUInt32, PAGE_SIZE] at *
    omega
  rw [hsize]
  refine fits_of_le ?_ (h.filesz_le p hp hload) hhi
  simp only [PAGE_SIZE] at *
  omega

/-- **Well-formed libraries are loaded safely.** -/
theorem WellFormed.safe (htask : taskSize + PAGE_SIZE ≤ 2 ^ 32) (h : WellFormed hdr)
    (hvalid : verify_elf_object hdr) (k : Kernel taskSize) (hprelinked : k.is_prelinked = 0) :
    (load_library k.toEnv hdr).Safe := by
  refine safe_of_reached htask hvalid (fun size base htotal _ => ?_) k hprelinked
  intro pre p post hps _ hload _
  exact ⟨h.buffer, h.fits htotal (by simp [hps]) hload⟩

/-! ## Libraries of one segment -/

/-- The first bytes of a library with one program header. -/
def headerBytes (p : Phdr) : List UInt8 :=
  [0x7f, 0x45, 0x4c, 0x46] ++ List.replicate 12 0 ++ toBytes 2 3 ++ toBytes 2 EM_ARM ++
    toBytes 4 1 ++ toBytes 4 0 ++ toBytes 4 52 ++ toBytes 4 0 ++ toBytes 4 0 ++ toBytes 2 52 ++
    toBytes 2 32 ++ toBytes 2 1 ++ List.replicate 6 0 ++
    [p.p_type, p.p_offset, p.p_vaddr, p.p_paddr, p.p_filesz, p.p_memsz, p.p_flags,
      p.p_align].flatMap (toBytes 4)

/-- The header page of such a library. -/
def headerPage (p : Phdr) : Memory := fun i => (headerBytes p).getD i 0

/-- A library of one page, linked at an address that is not zero. -/
def linkedHigh : Phdr := ⟨PT_LOAD, 0, 0x10000, 0x10000, 0x1000, 0x1000, PF_R ||| PF_X, 0x1000⟩

lemma placed_linkedHigh : Placed 0xbf000000 0x40000000 0x1000 := by
  norm_num [Placed, PAGE_SIZE]

/-- The same library, linked at address zero. -/
def linkedLow : Phdr := { linkedHigh with p_vaddr := 0, p_paddr := 0 }

theorem WellFormed.safe_linkedLow : WellFormed (headerPage linkedLow) ∧
    (load_library (Kernel.generous placed_linkedHigh).toEnv (headerPage linkedLow)).Safe := by
  have h : WellFormed (headerPage linkedLow) := by
    constructor
    all_goals decide +kernel
  exact ⟨h, h.safe (by norm_num [PAGE_SIZE]) (by decide +kernel) _ rfl⟩

/-! ## The condition -/

/-- **Exactly the libraries whose segments fit are loaded safely.**  The library is safe on every
kernel if and only if, wherever the reservation may be put, each loadable segment that is reached
and that the kernel may map has its header in the header page and fits into the reservation. -/
theorem load_library_safe_iff (htask : taskSize + PAGE_SIZE ≤ 2 ^ 32) {hdr : Memory}
    (hvalid : verify_elf_object hdr) :
    (∀ k : Kernel taskSize, k.is_prelinked = 0 → (load_library k.toEnv hdr).Safe) ↔
      ∀ size base, total_sz (phdrs hdr) = some size → Placed taskSize base size →
        Reached taskSize base size
          (fun p => InBuffer (phdrOffsets hdr) ∧ p.Fits taskSize base size) (phdrs hdr) := by
  constructor
  · intro hsafe size base htotal hplaced
    refine (load_loop_start_iff htask hplaced htotal).mp ?_
    have hmmap : (Kernel.generous hplaced).toEnv.mmap size = some base := if_pos rfl
    have hlibrary := load_library_eq hvalid rfl rfl rfl htotal hmmap
    have hsafe := hsafe (Kernel.generous hplaced) rfl
    rw [hlibrary, load_segments_edits] at hsafe
    intro e he
    rcases hsafe with ⟨hbuffer, base', size', hres, hinside⟩ | ⟨-, hnil⟩
    · cases hres
      exact ⟨hbuffer, hinside e he⟩
    · rw [show (load_loop _ _ _ _).1 = [] from hnil] at he
      simp at he
  · exact safe_of_reached htask hvalid

theorem load_library_safe_iff_linkedLow : verify_elf_object (headerPage linkedLow) ∧
    ((∀ k : Kernel 0xbf000000, k.is_prelinked = 0 →
        (load_library k.toEnv (headerPage linkedLow)).Safe) ↔
      ∀ size base, total_sz (phdrs (headerPage linkedLow)) = some size →
        Placed 0xbf000000 base size →
        Reached 0xbf000000 base size (fun p => InBuffer (phdrOffsets (headerPage linkedLow)) ∧
          p.Fits 0xbf000000 base size) (phdrs (headerPage linkedLow))) := by
  have hvalid : verify_elf_object (headerPage linkedLow) := by decide +kernel
  exact ⟨hvalid, load_library_safe_iff (by norm_num [PAGE_SIZE]) hvalid⟩

/-- One page is reserved, and the page sixteen pages further on is mapped over. -/
theorem load_library_outside : verify_elf_object (headerPage linkedHigh) ∧
    (Kernel.generous placed_linkedHigh).is_prelinked = 0 ∧
    ¬ (load_library (Kernel.generous placed_linkedHigh).toEnv (headerPage linkedHigh)).Safe := by
  refine ⟨by decide +kernel, rfl, ?_⟩
  have hres : (load_library (Kernel.generous placed_linkedHigh).toEnv
      (headerPage linkedHigh)).reservation = some (0x40000000, 0x1000) := by decide +kernel
  have hedit : Edit.map 0x40010000 0x1000 ∈ (load_library
      (Kernel.generous placed_linkedHigh).toEnv (headerPage linkedHigh)).edits := by decide +kernel
  rintro (⟨-, base, size, heq, hinside⟩ | ⟨-, hnil⟩)
  · rw [hres] at heq
    cases heq
    exact absurd (hinside _ hedit) (by decide)
  · rw [hnil] at hedit
    simp at hedit

end Droid.Linker
