import DroidPlatform.Ext4.Allocator.Lemmas.Regions

/-!
# The bookkeeping of the block allocator

Whatever is allocated, and whether or not one block of an allocation is returned at once: in every
group the counters agree with the bitmap, the free blocks are a range behind the header and inside of
the filesystem, and no block is held twice (`bookkeeping`).

The invariant is `Sound`: the groups are `Consistent`, and each block that is held is behind the header
of its group and before the first free block (`FsInfo.Held`).  What a call takes was not held before,
because it begins at the first free block.  What `reduce_allocation` returns is the last block that was
taken from its group; that is so even for an allocation of several regions, where it comes from the
first of them: its group is full.
-/

namespace Droid.Ext4

open List Option Function Nat Ext4.Span BlockAllocation

/-- The allocator, and the blocks that each live allocation holds. -/
structure Allocator where
  bgs : Groups
  held : List (List ℕ)

/-- A call of the allocator. -/
inductive Call
  | allocate_block
  | allocate_blocks (len : ℕ)
  /-- Followed at once by `reduce_allocation(alloc, 1)`. -/
  | allocate_and_reduce (len : ℕ)
deriving DecidableEq, Repr

/-- A call that succeeds. -/
def Call.run (info : FsInfo) (force : Bool) (s : Allocator) : Call → Option Allocator
  | allocate_block => do
    let (block, bgs) ← Ext4.allocate_block info force s.bgs
    if block = EXT4_ALLOCATE_FAILED then none else some ⟨bgs, [block] :: s.held⟩
  | allocate_blocks len => do
    let (alloc, bgs) ← Ext4.allocate_blocks info force s.bgs len
    let alloc ← alloc
    return ⟨bgs, alloc.blocks :: s.held⟩
  | allocate_and_reduce len => do
    let (alloc, bgs) ← Ext4.allocate_blocks info force s.bgs len
    let alloc ← alloc
    let (alloc, bgs) ← alloc.reduce_allocation bgs 1
    return ⟨bgs, alloc.blocks :: s.held⟩

/-- Whether a block is marked as used in the bitmap of its group. -/
def FsInfo.isUsed (info : FsInfo) (bgs : Groups) (block : ℕ) : Bool :=
  Bitmap.bit (bgs ((block - info.first_data_block) / info.blocks_per_group)).block_bitmap
    ((block - info.first_data_block) % info.blocks_per_group)

/-- What the books say. -/
structure Bookkept (info : FsInfo) (s : Allocator) : Prop where
  count : ∀ i < info.groups, (s.bgs i).free_blocks = ((Finset.range info.blocks_per_group).filter
    fun b => Bitmap.bit (s.bgs i).block_bitmap b = false).card
  range : ∀ i < info.groups, ∀ b < info.blocks_per_group,
    Bitmap.bit (s.bgs i).block_bitmap b = false ↔
      (s.bgs i).first_free_block ≤ b ∧ b < (s.bgs i).first_free_block + (s.bgs i).free_blocks
  header : ∀ i < info.groups, ∀ b < info.headerSize i, Bitmap.bit (s.bgs i).block_bitmap b = true
  beyond : ∀ i < info.groups, ∀ b < info.blocks_per_group, info.len_blocks ≤ info.firstBlock i + b →
    Bitmap.bit (s.bgs i).block_bitmap b = true
  disjoint : s.held.flatten.Nodup
  inside : ∀ b ∈ s.held.flatten, info.first_data_block ≤ b ∧ b < info.len_blocks
  used : ∀ b ∈ s.held.flatten, info.isUsed s.bgs b = true

variable {info : FsInfo} {bgs bgs' : Groups} {b : ℕ} {spans : List Span} {s : Span} {i k len : ℕ}
  {blocks : List ℕ}

/-! ## Blocks that are held -/

/-- A block that can be held: behind the header, before the first free block. -/
def FsInfo.Held (info : FsInfo) (bgs : Groups) (b : ℕ) : Prop :=
  ∃ i < info.groups, ∃ k, b = info.firstBlock i + k ∧ info.headerSize i ≤ k ∧
    k < (bgs i).first_free_block ∧ b < info.len_blocks

/-- A block belongs to one group only. -/
lemma FsInfo.firstBlock_inj {j l : ℕ} (hk : k < info.blocks_per_group)
    (hl : l < info.blocks_per_group) (h : info.firstBlock i + k = info.firstBlock j + l) :
    i = j ∧ k = l := by
  rw [firstBlock, firstBlock, add_assoc, add_assoc, add_right_inj] at h
  have hpos : 0 < info.blocks_per_group := by omega
  have hi : (i * info.blocks_per_group + k) / info.blocks_per_group = i := by
    rw [add_comm, add_mul_div_right _ _ hpos, div_eq_of_lt hk, zero_add]
  have hj : (j * info.blocks_per_group + l) / info.blocks_per_group = j := by
    rw [add_comm, add_mul_div_right _ _ hpos, div_eq_of_lt hl, zero_add]
  have hij : i = j := by rw [← hi, h, hj]
  subst hij
  exact ⟨rfl, by omega⟩

lemma FsInfo.isUsed_firstBlock_add (hk : k < info.blocks_per_group) :
    info.isUsed bgs (info.firstBlock i + k) = Bitmap.bit (bgs i).block_bitmap k := by
  have hsub : info.firstBlock i + k - info.first_data_block = k + i * info.blocks_per_group := by
    rw [firstBlock]
    omega
  have hpos : 0 < info.blocks_per_group := by omega
  rw [isUsed, hsub, add_mul_div_right _ _ hpos, div_eq_of_lt hk, zero_add,
    add_mul_mod_self_right, mod_eq_of_lt hk]

/-- A region is taken: its blocks were not held, now they are, and so are those that were. -/
lemma Took.held (h : Took info bgs s bgs') (hbgs : info.Consistent bgs) :
    (∀ b, info.Held bgs b → info.Held bgs' b) ∧
      ∀ b ∈ s.blocks, ¬ info.Held bgs b ∧ info.Held bgs' b := by
  have hkeeps := hbgs s.bg h.bg_lt
  have hle := hkeeps.ranged.le
  have htake := h.le
  constructor
  · rintro b ⟨i, hi, k, rfl, hheader, hk, hlen⟩
    refine ⟨i, hi, k, rfl, hheader, ?_, hlen⟩
    by_cases hs : i = s.bg
    · rw [hs, h.takes.first_free_block]
      rw [hs] at hk
      omega
    · rwa [h.other i hs]
  · intro b hb
    rw [Span.blocks, mem_range'_1, h.block] at hb
    obtain ⟨k, rfl⟩ := Nat.exists_eq_add_of_le hb.1
    have hinside := hkeeps.inside (by omega)
    constructor
    · rintro ⟨j, hj, l, heq, -, hl, -⟩
      have hle' := (hbgs j hj).ranged.le
      rw [Nat.add_assoc] at heq
      obtain ⟨rfl, rfl⟩ := FsInfo.firstBlock_inj (by omega) (by omega) heq
      omega
    · refine ⟨s.bg, h.bg_lt, (bgs s.bg).first_free_block + k, by rw [Nat.add_assoc], ?_, ?_, ?_⟩
      · exact hkeeps.header_le.trans (Nat.le_add_right _ _)
      · rw [h.takes.first_free_block]
        omega
      · omega

/-- The same for the regions of a call, which do not overlap either. -/
lemma TookAll.held (h : TookAll info bgs spans bgs') :
    info.Consistent bgs → (∀ b, info.Held bgs b → info.Held bgs' b) ∧
      (∀ b ∈ spans.flatMap Span.blocks, ¬ info.Held bgs b ∧ info.Held bgs' b) ∧
      (spans.flatMap Span.blocks).Nodup := by
  induction h with
  | nil => exact fun _ => ⟨fun _ => id, by simp, nodup_nil⟩
  | @cons bgs bgs1 bgs' s spans _ took _ ih =>
    intro hbgs
    obtain ⟨hmono, hnew⟩ := took.held hbgs
    obtain ⟨hmono', hnew', hnodup⟩ := ih (took.consistent hbgs)
    refine ⟨fun b hb => hmono' b (hmono b hb), fun b hb => ?_, ?_⟩
    · rw [flatMap_cons, mem_append] at hb
      rcases hb with hb | hb
      · exact ⟨(hnew b hb).1, hmono' b (hnew b hb).2⟩
      · exact ⟨fun hheld => (hnew' b hb).1 (hmono b hheld), (hnew' b hb).2⟩
    · rw [flatMap_cons, nodup_append]
      refine ⟨nodup_range', hnodup, fun b hb c hc hbc => ?_⟩
      exact (hnew' c hc).1 (hbc ▸ (hnew b hb).2)

/-- The blocks that a call takes, also if none was asked for. -/
lemma do_allocate_tookAll (hinfo : info.Proper) (force : Bool) (hbgs : info.Consistent bgs)
    (hrun : do_allocate info force bgs len = some (s :: spans, bgs')) :
    ∃ spans', TookAll info bgs spans' bgs' ∧
      (s :: spans).flatMap Span.blocks = spans'.flatMap Span.blocks := by
  rcases Nat.eq_zero_or_pos len with rfl | hpos
  · obtain ⟨spans', hrun', hzero, -⟩ := do_allocate_zero force info bgs
    rw [hrun'] at hrun
    cases hrun
    refine ⟨[], .nil, ?_⟩
    simp only [flatMap_nil, flatMap_eq_nil_iff]
    intro t ht
    rw [Span.blocks, hzero t ht]
    rfl
  · exact ⟨s :: spans, (do_allocate_spec hinfo force hbgs hpos (cons_ne_nil s spans) hrun).1,
      rfl⟩

/-! ## The invariant -/

/-- What holds at any time. -/
structure Sound (info : FsInfo) (s : Allocator) : Prop where
  consistent : info.Consistent s.bgs
  held : ∀ b ∈ s.held.flatten, info.Held s.bgs b
  nodup : s.held.flatten.Nodup

theorem Sound.bookkept {s : Allocator} (h : Sound info s) (hinfo : info.Proper) :
    Bookkept info s where
  count i hi := by
    have hranged := (h.consistent i hi).ranged
    rw [hranged.bits.card hranged.le, Nat.add_sub_cancel_left]
  range i hi := (h.consistent i hi).ranged.bits
  header i hi b hb := by
    have hkeeps := h.consistent i hi
    have hle := hkeeps.header_le
    rw [← Bool.not_eq_false, hkeeps.ranged.bits b (hb.trans_le (hinfo.header i hi))]
    omega
  beyond i hi b hb hbeyond := by
    have hkeeps := h.consistent i hi
    rw [← Bool.not_eq_false, hkeeps.ranged.bits b hb]
    rintro ⟨h1, h2⟩
    have := hkeeps.inside (by omega)
    omega
  disjoint := h.nodup
  inside b hb := by
    obtain ⟨i, -, k, rfl, -, -, hlen⟩ := h.held b hb
    refine ⟨?_, hlen⟩
    rw [FsInfo.firstBlock]
    omega
  used b hb := by
    obtain ⟨i, hi, k, rfl, -, hk, -⟩ := h.held b hb
    have hranged := (h.consistent i hi).ranged
    have hle := hranged.le
    have hlt : k < info.blocks_per_group := by omega
    rw [FsInfo.isUsed_firstBlock_add hlt, ← Bool.not_eq_false, hranged.bits k hlt]
    omega

/-- An allocation holds some of what was taken for it. -/
lemma Sound.of_tookAll {s : Allocator} (h : Sound info s) (hall : TookAll info s.bgs spans bgs')
    (hsub : blocks.Sublist (spans.flatMap Span.blocks)) : Sound info ⟨bgs', blocks :: s.held⟩ := by
  obtain ⟨hmono, hnew, hnodup⟩ := hall.held h.consistent
  refine ⟨hall.consistent h.consistent, fun b hb => ?_, ?_⟩
  · rcases mem_append.mp hb with hb | hb
    · exact (hnew b (hsub.subset hb)).2
    · exact hmono b (h.held b hb)
  · refine nodup_append.mpr ⟨hnodup.sublist hsub, h.nodup, fun b hb c hc hbc => ?_⟩
    exact (hnew b (hsub.subset hb)).1 (hbc ▸ h.held c hc)

/-- The last block that was taken from a group is returned. -/
lemma Sound.free {s : Allocator} (h : Sound info s) (hi : i < info.groups)
    (hk : k + 1 = (s.bgs i).first_free_block) (hheld : info.Held s.bgs (info.firstBlock i + k))
    (hnot : info.firstBlock i + k ∉ s.held.flatten) :
    Sound info ⟨update s.bgs i (free_blocks (s.bgs i) 1), s.held⟩ := by
  have hkeeps := h.consistent i hi
  have hle := hkeeps.ranged.le
  have hfirst : (free_blocks (s.bgs i) 1).first_free_block = k := by
    rw [free_blocks, ← hk]
    rfl
  -- the group and the position in it are those of the block
  obtain ⟨hheader, hlen⟩ : info.headerSize i ≤ k ∧ info.firstBlock i + k < info.len_blocks := by
    obtain ⟨j, hj, l, heq, hheader, hl, hlen⟩ := hheld
    have hle' := (h.consistent j hj).ranged.le
    obtain ⟨rfl, rfl⟩ := FsInfo.firstBlock_inj (by omega) (by omega) heq
    exact ⟨hheader, hlen⟩
  refine ⟨fun j hj => ?_, fun b hb => ?_, h.nodup⟩
  · dsimp only
    by_cases hji : j = i
    · subst hji
      rw [update_self]
      refine ⟨BlockGroup.ranged_free_blocks hkeeps.ranged (by omega), hkeeps.first_block,
        hfirst ▸ hheader, fun _ => ?_⟩
      show info.firstBlock j + ((s.bgs j).first_free_block - 1) + ((s.bgs j).free_blocks + 1) ≤ _
      rcases Nat.eq_zero_or_pos (s.bgs j).free_blocks with hzero | hpos
      · omega
      · have := hkeeps.inside hpos
        omega
    · rw [update_of_ne hji]
      exact h.consistent j hj
  · obtain ⟨j, hj, l, rfl, hheader', hl, hlen'⟩ := h.held b hb
    refine ⟨j, hj, l, rfl, hheader', ?_, hlen'⟩
    dsimp only
    by_cases hji : j = i
    · subst hji
      rw [update_self, hfirst]
      have hne : l ≠ k := by
        rintro rfl
        exact hnot hb
      omega
    · rwa [update_of_ne hji]

/-- The first region of a call ends where the free blocks of its group begin. -/
lemma TookAll.first_end (h : TookAll info bgs (s :: spans) bgs')
    (hfull : spans = [] ∨ s.len = (bgs s.bg).free_blocks) :
    info.firstBlock s.bg + (bgs' s.bg).first_free_block = s.block + s.len ∧ s.bg < info.groups := by
  obtain ⟨bgs1, -, took, rest⟩ := h.cons_inv
  have hsame : bgs' s.bg = bgs1 s.bg := by
    rcases hfull with rfl | hfull
    · cases rest
      rfl
    · refine rest.eq_of_full ?_
      rw [took.takes.free_blocks, hfull, Nat.sub_self]
  rw [hsame, took.takes.first_free_block, took.block]
  exact ⟨(Nat.add_assoc _ _ _).symm, took.bg_lt⟩

/-- The last block of the first region, between the others. -/
lemma flatMap_blocks_cons (hpos : 0 < s.len) (spans : List Span) :
    (s :: spans).flatMap Span.blocks =
      range' s.block (s.len - 1) ++ (s.block + (s.len - 1)) :: spans.flatMap Span.blocks := by
  obtain ⟨n, hn⟩ := exists_eq_succ_of_ne_zero hpos.ne'
  rw [flatMap_cons, Span.blocks, hn, range'_concat, append_assoc]
  simp

/-- The last block of the first region is before the first free block of its group. -/
lemma TookAll.first_last (h : TookAll info bgs (s :: spans) bgs')
    (hfull : spans = [] ∨ s.len = (bgs s.bg).free_blocks) :
    ∃ k, k + 1 = (bgs' s.bg).first_free_block ∧
      info.firstBlock s.bg + k = s.block + (s.len - 1) := by
  obtain ⟨hend, -⟩ := h.first_end hfull
  obtain ⟨_, hpos, took, -⟩ := h.cons_inv
  have hblock := took.block
  exact ⟨(bgs' s.bg).first_free_block - 1, by omega, by omega⟩

lemma Sound.of_reduced {st : Allocator} (h : Sound info st)
    (hall : TookAll info st.bgs (s :: spans) bgs')
    (hfull : spans = [] ∨ s.len = (st.bgs s.bg).free_blocks)
    (hsub : blocks.Sublist (range' s.block (s.len - 1) ++ spans.flatMap Span.blocks)) :
    Sound info ⟨update bgs' s.bg (free_blocks (bgs' s.bg) 1), blocks :: st.held⟩ := by
  obtain ⟨-, hbg⟩ := hall.first_end hfull
  obtain ⟨-, hnew, hnodup⟩ := hall.held h.consistent
  obtain ⟨_, hpos, -, -⟩ := hall.cons_inv
  -- the block that is returned is the last one of the first region
  have hsplit := flatMap_blocks_cons hpos spans
  have hmem : s.block + (s.len - 1) ∈ (s :: spans).flatMap Span.blocks := by
    rw [hsplit]
    exact mem_append_right _ mem_cons_self
  have hnot : s.block + (s.len - 1) ∉
      range' s.block (s.len - 1) ++ spans.flatMap Span.blocks := by
    rw [hsplit] at hnodup
    exact (nodup_middle.mp hnodup).notMem
  have hsound := h.of_tookAll hall (show blocks.Sublist _ by
    rw [hsplit]
    exact hsub.trans ((sublist_cons_self _ _).append_left _))
  obtain ⟨k, hk, hlast⟩ := hall.first_last hfull
  refine hsound.free hbg hk ?_ ?_
  · rw [hlast]
    exact (hnew _ hmem).2
  · rw [hlast, flatten_cons, mem_append, not_or]
    exact ⟨fun hb => hnot (hsub.subset hb), fun hb => (hnew _ hmem).1 (h.held _ hb)⟩

/-- Where the first region of a call for at least one block comes from. -/
lemma first_full (hinfo : info.Proper) (force : Bool) (hbgs : info.Consistent bgs)
    (hcase : (∃ t, s :: spans = [t]) ∨ (∀ j < info.groups, (bgs j).free_blocks < len) ∧
      multipleOn info force len bgs len = some (some (s :: spans), bgs')) :
    spans = [] ∨ s.len = (bgs s.bg).free_blocks := by
  rcases hcase with ⟨t, ht⟩ | ⟨hnone, hmult⟩
  · exact .inl (cons.inj ht).2
  · cases len with
    | zero => simp [multipleOn] at hmult
    | succ len =>
      obtain ⟨i, t, rest, bgs1, fuel, hi, -, heq, -, hlen, hbg, -⟩ :=
        multipleOn_cases hinfo force hbgs hmult
      obtain ⟨rfl, rfl⟩ := cons.inj heq
      have hlt := hnone i (firstUnused_lt hi)
      rw [hbg hlt, hlen]
      exact .inr (min_eq_right hlt.le)

/-- **One step.**  Every call that succeeds keeps the invariant. -/
theorem Sound.run {s s' : Allocator} (h : Sound info s) (hinfo : info.Proper) (force : Bool)
    {call : Call} (hrun : call.run info force s = some s') : Sound info s' := by
  cases call with
  | allocate_block =>
    rcases contiguousFrom_spec hinfo force h.consistent one_pos info.groups 0
      (Nat.zero_add _).le with ⟨r, bgs', hcont, hr, htook, -⟩ | ⟨hcont, -⟩
    · simp only [Call.run, allocate_block, hcont, Option.bind_eq_bind, Option.bind_some,
        Option.pure_def] at hrun
      split_ifs at hrun with hfailed
      cases hrun
      refine h.of_tookAll (.cons (by omega) htook .nil) ?_
      simp [Span.blocks, hr]
    · simp [Call.run, allocate_block, hcont] at hrun
  | allocate_blocks len =>
    cases halloc : allocate_blocks info force s.bgs len with
    | none => simp [Call.run, halloc] at hrun
    | some r =>
      obtain ⟨_ | alloc, bgs'⟩ := r
      · simp [Call.run, halloc] at hrun
      · simp only [Call.run, halloc, Option.bind_eq_bind, Option.bind_some, Option.pure_def,
          Option.some.injEq] at hrun
        subst hrun
        obtain ⟨t, spans, hdo, rfl⟩ := allocate_blocks_cases force halloc
        rw [BlockAllocation.blocks_ofSpans]
        obtain ⟨spans', hall, hblocks⟩ := do_allocate_tookAll hinfo force h.consistent hdo
        rw [hblocks]
        exact h.of_tookAll hall (Sublist.refl _)
  | allocate_and_reduce len =>
    cases halloc : allocate_blocks info force s.bgs len with
    | none => simp [Call.run, halloc] at hrun
    | some r =>
      obtain ⟨_ | alloc, bgs'⟩ := r
      · simp [Call.run, halloc] at hrun
      · obtain ⟨t, spans, hdo, rfl⟩ := allocate_blocks_cases force halloc
        simp only [Call.run, halloc, Option.bind_eq_bind] at hrun
        rcases Nat.eq_zero_or_pos t.len with hzero | hpos
        · simp [BlockAllocation.reduce_ofSpans_of_zero bgs' spans hzero] at hrun
        · have hlen : 0 < len := Nat.pos_of_ne_zero fun hlen => by
            subst hlen
            obtain ⟨spans', hdo', hall, -⟩ := do_allocate_zero force info s.bgs
            rw [hdo'] at hdo
            cases hdo
            have := hall t mem_cons_self
            omega
          obtain ⟨hall, -, hcase⟩ := do_allocate_spec hinfo force h.consistent hlen
            (cons_ne_nil t spans) hdo
          have hfull := first_full hinfo force h.consistent hcase
          rcases Nat.lt_or_ge 1 t.len with hlt | hge
          · simp only [BlockAllocation.reduce_ofSpans_of_lt bgs' spans hlt, Option.bind_some,
              Option.pure_def, Option.some.injEq] at hrun
            subst hrun
            rw [BlockAllocation.blocks_trim]
            exact h.of_reduced hall hfull (Sublist.refl _)
          · simp only [BlockAllocation.reduce_ofSpans_of_eq bgs' spans (show t.len = 1 by omega),
              Option.bind_some, Option.pure_def, Option.some.injEq] at hrun
            subst hrun
            exact h.of_reduced hall hfull (by simp [BlockAllocation.blocks,
              BlockAllocation.walk_none, BlockAllocation.ofSpans])

/-- **Whole runs.** -/
theorem Sound.run_all (hinfo : info.Proper) (force : Bool) : ∀ {calls : List Call} {s s' : Allocator},
    Sound info s → calls.foldlM (Call.run info force) s = some s' → Sound info s'
  | [], s, s', h, hrun => by
    cases hrun
    exact h
  | call :: calls, s, s', h, hrun => by
    rw [foldlM_cons] at hrun
    obtain ⟨s1, hstep, hrest⟩ := bind_eq_some_iff.mp hrun
    exact Sound.run_all hinfo force (h.run hinfo force hstep) hrest

/-- **The bookkeeping.**  The allocator can be initialised, and then, after any sequence of calls that
succeed, the books are right. -/
theorem bookkeeping (hinfo : info.Proper) (force : Bool) (memory : Groups) :
    ∃ bgs, block_allocator_init info force memory = some bgs ∧
      ∀ (calls : List Call) (s : Allocator),
        calls.foldlM (Call.run info force) ⟨bgs, []⟩ = some s → Bookkept info s := by
  obtain ⟨bgs, hinit, hbgs⟩ := FsInfo.block_allocator_init_eq hinfo force memory
  refine ⟨bgs, hinit, fun calls s hrun => ?_⟩
  have hsound : Sound info ⟨bgs, []⟩ := ⟨hbgs, by simp, nodup_nil⟩
  exact (hsound.run_all hinfo force hrun).bookkept hinfo

/-- Two groups of 24 blocks, the second of them cut short by the end of the filesystem. -/
def twoGroups : FsInfo where
  block_size := 1024
  blocks_per_group := 24
  bg_desc_reserve_blocks := 1
  sparse_super := true
  first_data_block := 1
  len_blocks := 40
  inode_table_blocks := 2
  groups := 2
  bg_desc_blocks := 1

lemma twoGroups_proper : twoGroups.Proper := by
  refine ⟨by decide, by decide, by decide, ?_, ?_⟩ <;> decide

/-- An allocation that takes all of the first group and some of the second, without its block at the end
of the first region, and a block that is then found there. -/
theorem bookkeeping_twoGroups :
    ∃ bgs s, block_allocator_init twoGroups false (fun _ => newGroup twoGroups 0) = some bgs ∧
      [Call.allocate_and_reduce 20, .allocate_block].foldlM (Call.run twoGroups false) ⟨bgs, []⟩ =
        some s ∧
      s.held = [[24], List.range' 8 16 ++ [32, 33, 34]] ∧ Bookkept twoGroups s := by
  obtain ⟨bgs, hinit, hbooks⟩ := bookkeeping twoGroups_proper false fun _ => newGroup twoGroups 0
  have hrun : ((block_allocator_init twoGroups false fun _ => newGroup twoGroups 0).bind fun bgs =>
      [Call.allocate_and_reduce 20, .allocate_block].foldlM (Call.run twoGroups false)
        ⟨bgs, []⟩).map Allocator.held = some [[24], range' 8 16 ++ [32, 33, 34]] := by
    decide +kernel
  rw [hinit, bind_some] at hrun
  obtain ⟨s, hs, hheld⟩ := map_eq_some_iff.mp hrun
  exact ⟨bgs, s, hinit, hs, hheld, hbooks _ s hs⟩

end Droid.Ext4
