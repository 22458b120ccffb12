import DroidPlatform.Ext4.Allocator.Lemmas.Reserve

/-!
# Allocation from the groups of a filesystem

`FsInfo.Consistent` is the invariant of the groups: the free blocks of each are a range, behind its
header and inside of the filesystem.  All that an allocation does to the groups is `Took`: some blocks
at the front of the range of one group.  `TookAll` is a sequence of such steps, for the regions that
one call allocates.
-/

namespace Droid.Ext4

open Function Nat BlockGroup

namespace FsInfo

/-- Where a group begins. -/
def firstBlock (info : FsInfo) (i : ℕ) : ℕ := info.first_data_block + i * info.blocks_per_group

/-- The number of blocks at the beginning of a group that are not for data. -/
def headerSize (info : FsInfo) (i : ℕ) : ℕ :=
  2 + info.inode_table_blocks +
    if ext4_bg_has_super_block info i then 1 + info.bg_desc_blocks + info.bg_desc_reserve_blocks
    else 0

/-- A filesystem: the bitmap of a group is one block, the numbers of the blocks are small enough, and
every group has room for its header. -/
structure Proper (info : FsInfo) : Prop where
  bitmap : info.blocks_per_group ≤ 8 * info.block_size
  per_group : info.blocks_per_group < 2 ^ 32
  len : info.len_blocks < 2 ^ 32 - 2 ^ 16
  header : ∀ i < info.groups, info.headerSize i ≤ info.blocks_per_group
  room : ∀ i < info.groups, info.firstBlock i + info.headerSize i ≤ info.len_blocks

/-- What holds of a group at any time. -/
structure Keeps (info : FsInfo) (i : ℕ) (bg : BlockGroup) : Prop where
  ranged : bg.Ranged info.blocks_per_group
  first_block : bg.first_block = info.firstBlock i
  header_le : info.headerSize i ≤ bg.first_free_block
  inside : 0 < bg.free_blocks →
    info.firstBlock i + bg.first_free_block + bg.free_blocks ≤ info.len_blocks

/-- What holds of the groups at any time. -/
def Consistent (info : FsInfo) (bgs : Groups) : Prop := ∀ i < info.groups, info.Keeps i (bgs i)

variable {info : FsInfo} {i : ℕ} {bg bg' : BlockGroup}

lemma Keeps.takes (h : info.Keeps i bg) {len : ℕ} (hlen : len ≤ bg.free_blocks)
    (ht : bg.Takes info.blocks_per_group len bg') : info.Keeps i bg' where
  ranged := ht.ranged
  first_block := ht.first_block.trans h.first_block
  header_le := by
    have := h.header_le
    rw [ht.first_free_block]
    omega
  inside hpos := by
    rw [ht.free_blocks] at hpos ⊢
    have := h.inside (by omega)
    rw [ht.first_free_block]
    omega

/-! ## Initialisation -/

/-- A group with its header reserved, and nothing else. -/
structure Fresh (info : FsInfo) (i : ℕ) (bg : BlockGroup) : Prop where
  ranged : bg.Ranged info.blocks_per_group
  first_block : bg.first_block = info.firstBlock i
  free_blocks : bg.free_blocks = info.blocks_per_group - info.headerSize i
  first_free_block : bg.first_free_block = info.headerSize i

lemma reserve_header (hinfo : info.Proper) (force : Bool) (hi : i < info.groups) :
    ∃ bg, reserve_blocks force (newGroup info i) (newGroup info i).first_free_block
      (newGroup info i).header_blocks = some (true, bg) ∧ info.Fresh i bg := by
  have hlen := hinfo.len
  have hper := hinfo.per_group
  have hheader := hinfo.header i hi
  have hroom := hinfo.room i hi
  have hsize : (newGroup info i).header_blocks = info.headerSize i :=
    toUInt32_eq_self (show info.headerSize i < 2 ^ 32 by omega)
  have hfirst : (newGroup info i).first_block = info.firstBlock i :=
    toUInt32_eq_self (show info.firstBlock i < 2 ^ 32 by omega)
  have hranged : (newGroup info i).Ranged info.blocks_per_group := by
    refine ⟨?_, (zero_add _).le⟩
    show Bitmap.ClearBetween _ _ 0 (0 + info.blocks_per_group)
    rw [zero_add]
    exact Bitmap.clearBetween_zero _
  obtain ⟨bg, hreserve, htakes, -⟩ := BlockGroup.reserve_blocks_eq force hranged
    (show (newGroup info i).header_blocks ≤ info.blocks_per_group by rwa [hsize])
  refine ⟨bg, hreserve, htakes.ranged, htakes.first_block.trans hfirst, ?_, ?_⟩
  · rw [htakes.free_blocks, hsize]
    rfl
  · rw [htakes.first_free_block, hsize]
    exact zero_add _

/-- How far `stop` is behind `len`, in 32 bits, is a large number if it is before it. -/
lemma lt_overrun {stop len n : ℕ} (hle : stop ≤ len) (hlen : len < 2 ^ 32 - 2 ^ 16) (hn : n ≤ stop)
    (hover : 0 < toUInt32 (stop + 2 ^ 64 - len)) : n < toUInt32 (stop + 2 ^ 64 - len) := by
  rw [toUInt32] at hover ⊢
  omega

/-- The last group can end behind the filesystem.  In a group that ends before, the overrun is a number
that is far too large. -/
lemma reserveOverrun_eq (hinfo : info.Proper) (force : Bool) (hi : i < info.groups)
    (hbg : info.Fresh i bg) :
    ∃ bg', reserveOverrun info force bg = some bg' ∧ info.Keeps i bg' := by
  have hlen := hinfo.len
  have hper := hinfo.per_group
  have hheader := hinfo.header i hi
  have hroom := hinfo.room i hi
  have hfree := hbg.free_blocks
  have hfirst := hbg.first_free_block
  rw [reserveOverrun, hbg.first_block]
  rcases lt_or_ge info.len_blocks (info.firstBlock i + info.blocks_per_group) with hlt | hge
  · have hover : toUInt32 (info.firstBlock i + info.blocks_per_group + 2 ^ 64 - info.len_blocks) =
        info.firstBlock i + info.blocks_per_group - info.len_blocks := by
      rw [toUInt32]
      omega
    have hstart : toUInt32 (info.blocks_per_group + 2 ^ 32 -
        (info.firstBlock i + info.blocks_per_group - info.len_blocks)) =
        bg.first_free_block + bg.free_blocks -
          (info.firstBlock i + info.blocks_per_group - info.len_blocks) := by
      rw [toUInt32]
      omega
    obtain ⟨bg', hreserve, hranged, hblock, -, hfree', hle, hpos⟩ :=
      BlockGroup.reserve_blocks_end force hbg.ranged
        (show info.firstBlock i + info.blocks_per_group - info.len_blocks ≤ bg.free_blocks by omega)
    rw [hover, if_pos (by omega), hstart, hreserve]
    refine ⟨bg', rfl, hranged, hblock.trans hbg.first_block, by omega, fun hfree'' => ?_⟩
    rw [hpos hfree'']
    omega
  · have hkeeps : info.Keeps i bg :=
      ⟨hbg.ranged, hbg.first_block, hfirst.ge, fun _ => by omega⟩
    by_cases hover :
        0 < toUInt32 (info.firstBlock i + info.blocks_per_group + 2 ^ 64 - info.len_blocks)
    · have hn : bg.free_blocks ≤ info.firstBlock i + info.blocks_per_group :=
        (hfree.trans_le (sub_le _ _)).trans (le_add_left _ _)
      have hlt := lt_overrun hge hlen hn hover
      rw [if_pos hover, BlockGroup.reserve_blocks_of_lt force hlt]
      exact ⟨bg, rfl, hkeeps⟩
    · rw [if_neg hover]
      exact ⟨bg, rfl, hkeeps⟩

lemma init_bg_eq (hinfo : info.Proper) (force : Bool) (hi : i < info.groups) :
    ∃ bg, init_bg info force i = some bg ∧ info.Keeps i bg := by
  obtain ⟨bg, hreserve, hbg⟩ := reserve_header hinfo force hi
  obtain ⟨bg', hover, hkeeps⟩ := reserveOverrun_eq hinfo force hi hbg
  refine ⟨bg', ?_, hkeeps⟩
  rw [init_bg, hreserve, Option.bind_eq_bind, Option.bind_some]
  dsimp only
  rw [if_neg (by simp)]
  exact hover

lemma initFrom_eq (hinfo : info.Proper) (force : Bool) : ∀ (n i : ℕ) (bgs : Groups),
    i + n = info.groups → (∀ j < i, info.Keeps j (bgs j)) →
    ∃ bgs', initFrom info force n i bgs = some bgs' ∧ info.Consistent bgs'
  | 0, i, bgs, hn, hkeeps => ⟨bgs, rfl, fun j hj => hkeeps j (by omega)⟩
  | n + 1, i, bgs, hn, hkeeps => by
    obtain ⟨bg, hinit, hbg⟩ := init_bg_eq hinfo force (show i < info.groups by omega)
    obtain ⟨bgs', hrun, hbgs'⟩ := initFrom_eq hinfo force n (i + 1) (update bgs i bg)
      (by omega) fun j hj => by
        rcases Nat.lt_succ_iff_lt_or_eq.mp hj with hj | rfl
        · rw [update_of_ne hj.ne]
          exact hkeeps j hj
        · rw [update_self]
          exact hbg
    refine ⟨bgs', ?_, hbgs'⟩
    rw [initFrom, hinit]
    exact hrun

theorem block_allocator_init_eq (hinfo : info.Proper) (force : Bool) (bgs : Groups) :
    ∃ bgs', block_allocator_init info force bgs = some bgs' ∧ info.Consistent bgs' :=
  initFrom_eq hinfo force info.groups 0 bgs (zero_add _) fun j hj => absurd hj (not_lt_zero j)

end FsInfo

/-! ## One region -/

variable {info : FsInfo} {bgs bgs' : Groups}

/-- The blocks of a region are taken from the front of a group. -/
structure Took (info : FsInfo) (bgs : Groups) (s : Span) (bgs' : Groups) : Prop where
  bg_lt : s.bg < info.groups
  le : s.len ≤ (bgs s.bg).free_blocks
  block : s.block = info.firstBlock s.bg + (bgs s.bg).first_free_block
  takes : (bgs s.bg).Takes info.blocks_per_group s.len (bgs' s.bg)
  used : (bgs' s.bg).data_blocks_used = (bgs s.bg).data_blocks_used + s.len
  other : ∀ i ≠ s.bg, bgs' i = bgs i

lemma Took.consistent {s : Span} (h : Took info bgs s bgs') (hbgs : info.Consistent bgs) :
    info.Consistent bgs' := by
  intro i hi
  by_cases hs : i = s.bg
  · rw [hs]
    exact (hbgs s.bg h.bg_lt).takes h.le h.takes
  · rw [h.other i hs]
    exact hbgs i hi

section Allocate

variable (hinfo : info.Proper) (force : Bool) (hbgs : info.Consistent bgs)

lemma ext4_allocate_blocks_from_block_group_of_lt {len i : ℕ} (hlen : (bgs i).free_blocks < len) :
    ext4_allocate_blocks_from_block_group force bgs len i = some (EXT4_ALLOCATE_FAILED, bgs) :=
  if_pos hlen

include hinfo hbgs in
lemma ext4_allocate_blocks_from_block_group_eq {len i : ℕ} (hi : i < info.groups) (hpos : 0 < len)
    (hlen : len ≤ (bgs i).free_blocks) :
    ∃ block bgs', ext4_allocate_blocks_from_block_group force bgs len i = some (block, bgs') ∧
      block ≠ EXT4_ALLOCATE_FAILED ∧ Took info bgs ⟨block, len, i⟩ bgs' := by
  have hkeeps := hbgs i hi
  have hinside := hkeeps.inside (by omega)
  have hmax := hinfo.len
  obtain ⟨bg', hreserve, htakes, hused⟩ := BlockGroup.reserve_blocks_eq force hkeeps.ranged hlen
  have hblock : toUInt32 (bg'.first_block + (bgs i).first_free_block) =
      info.firstBlock i + (bgs i).first_free_block := by
    rw [htakes.first_block, hkeeps.first_block, toUInt32_eq_self (by omega)]
  refine ⟨info.firstBlock i + (bgs i).first_free_block,
    update bgs i { bg' with data_blocks_used := bg'.data_blocks_used + len }, ?_, ?_, ?_⟩
  · simp [ext4_allocate_blocks_from_block_group, not_lt.mpr hlen, hreserve, hblock]
  · rw [EXT4_ALLOCATE_FAILED]
    omega
  · refine ⟨hi, hlen, rfl, ?_, ?_, fun j hj => update_of_ne hj _ _⟩
    · rw [update_self]
      exact ⟨⟨htakes.ranged.bits, htakes.ranged.le⟩, htakes.first_block, htakes.header_blocks,
        htakes.free_blocks, htakes.first_free_block⟩
    · rw [update_self]
      show bg'.data_blocks_used + len = _
      rw [hused]

/-- No block is taken when none is asked for. -/
lemma ext4_allocate_blocks_from_block_group_zero (bgs : Groups) (i : ℕ) :
    ext4_allocate_blocks_from_block_group force bgs 0 i =
      some (toUInt32 ((bgs i).first_block + (bgs i).first_free_block), bgs) := by
  simp [ext4_allocate_blocks_from_block_group, BlockGroup.reserve_blocks_zero]

include hinfo hbgs in
/-- The first group with enough free blocks, if there is one. -/
lemma contiguousFrom_spec {len : ℕ} (hpos : 0 < len) : ∀ n i : ℕ, i + n ≤ info.groups →
    (∃ s bgs', contiguousFrom force len n i bgs = some (some s, bgs') ∧ s.len = len ∧
      Took info bgs s bgs' ∧ i ≤ s.bg ∧ s.bg < i + n) ∨
    (contiguousFrom force len n i bgs = some (none, bgs) ∧
      ∀ j, i ≤ j → j < i + n → (bgs j).free_blocks < len)
  | 0, i, _ => .inr ⟨rfl, fun j h1 h2 => by omega⟩
  | n + 1, i, hn => by
    rcases Nat.lt_or_ge (bgs i).free_blocks len with hlt | hge
    · have hskip : contiguousFrom force len (n + 1) i bgs =
          contiguousFrom force len n (i + 1) bgs := by
        rw [contiguousFrom, ext4_allocate_blocks_from_block_group_of_lt force hlt]
        simp
      rw [hskip]
      rcases contiguousFrom_spec hpos n (i + 1) (by omega) with
        ⟨s, bgs', hrun, hlen, htook, h1, h2⟩ | ⟨hrun, hnone⟩
      · exact .inl ⟨s, bgs', hrun, hlen, htook, by omega, by omega⟩
      · refine .inr ⟨hrun, fun j h1 h2 => ?_⟩
        rcases h1.eq_or_lt with rfl | h1
        · exact hlt
        · exact hnone j h1 (by omega)
    · obtain ⟨block, bgs', hfrom, hok, htook⟩ :=
        ext4_allocate_blocks_from_block_group_eq hinfo force hbgs (by omega)
          hpos hge
      refine .inl ⟨⟨block, len, i⟩, bgs', ?_, rfl, htook, le_rfl, Nat.lt_add_of_pos_right n.succ_pos⟩
      rw [contiguousFrom, hfrom]
      simp [hok]

lemma contiguousFrom_zero (bgs : Groups) : ∀ n i : ℕ,
    ∃ r, contiguousFrom force 0 n i bgs = some (r, bgs) ∧ ∀ s ∈ r, s.len = 0
  | 0, _ => ⟨none, rfl, by simp⟩
  | n + 1, i => by
    obtain ⟨r, hrun, hr⟩ := contiguousFrom_zero bgs n (i + 1)
    rw [contiguousFrom, ext4_allocate_blocks_from_block_group_zero]
    generalize toUInt32 ((bgs i).first_block + (bgs i).first_free_block) = block
    by_cases hblock : block = EXT4_ALLOCATE_FAILED
    · exact ⟨r, by simpa [hblock] using hrun, hr⟩
    · exact ⟨some ⟨block, 0, i⟩, by simp [hblock], by simp⟩

end Allocate

end Droid.Ext4
