import DroidPlatform.Ext4.Allocator.Bookkeeping
import DroidPlatform.Ext4.Allocator.Lemmas.ExtentBlock

/-!
# The extents of a file

`do_inode_allocate_extents` stores extents that should map the blocks of the file one to one to blocks
that were reserved for it (`Maps`).  It does so exactly when the file is `Mappable`
(`extents_map_iff`).  What can go wrong:

* the number of blocks of the file is kept in 32 bits;
* an allocation of several regions whose first region has one block only: `list.last` is the first
  region, so `reduce_allocation` takes that block from it and forgets the others, and
  `reserve_oob_blocks` moves all the others to the list for the extent block;
* the check whether the extents fit into the extent block, `block_size - 12 / 12`, lets pass more of
  them than the `(block_size - 12) / 12` that fit.

Which regions an allocation has is known beforehand: if no group has enough free blocks, the unused
groups are emptied one after the other until there are enough blocks (`fill`).
-/

namespace Droid.Ext4

open List Function Nat Ext4.Span BlockAllocation

/-! ## What is stored, and what it should be -/

def Extent.blocks (e : Extent) : List ℕ :=
  List.range' (e.ee_start_hi * 2 ^ 32 + e.ee_start_lo) e.ee_len

namespace ExtentTree

/-- The header of the extents. -/
def header : ExtentTree → ExtentHeader
  | inline hdr _ => hdr
  | indexed _ _ leaf _ => leaf

def extents : ExtentTree → List Extent
  | inline _ extents => extents
  | indexed _ _ _ extents => extents

/-- The extent block, if there is one. -/
def leafBlock : ExtentTree → List ℕ
  | inline _ _ => []
  | indexed _ idx _ _ => [idx.ei_leaf_hi * 2 ^ 32 + idx.ei_leaf_lo]

/-- The blocks that the blocks of the file are mapped to. -/
def mapped (tree : ExtentTree) : List ℕ := tree.extents.flatMap Extent.blocks

end ExtentTree

namespace FsInfo

/-- The number of blocks of a file. -/
def fileBlocks (info : FsInfo) (len : ℕ) : ℕ := (len + info.block_size - 1) / info.block_size

/-- A block that is free. -/
def Free (info : FsInfo) (bgs : Groups) (b : ℕ) : Prop :=
  ∃ i < info.groups, ∃ k < info.blocks_per_group,
    b = info.firstBlock i + k ∧ Bitmap.bit (bgs i).block_bitmap k = false

end FsInfo

/-- The extents map the blocks of the file one to one to blocks that were free and are not free any
more, and nothing else but the extent block changed. -/
structure Maps (info : FsInfo) (before after : Groups) (len : ℕ) (tree : ExtentTree) : Prop where
  entries : tree.extents.length = tree.header.eh_entries
  max : tree.header.eh_entries ≤ tree.header.eh_max
  consecutive : ∀ k e, tree.extents[k]? = some e →
    e.ee_block = ((tree.extents.take k).map Extent.ee_len).sum
  total : (tree.extents.map Extent.ee_len).sum = info.fileBlocks len
  nodup : (tree.leafBlock ++ tree.mapped).Nodup
  taken : ∀ b ∈ tree.leafBlock ++ tree.mapped, info.Free before b
  rest : ∀ b, info.Free after b ↔ info.Free before b ∧ b ∉ tree.leafBlock ++ tree.mapped

/-- The free blocks of the unused groups. -/
def unusedFree (info : FsInfo) (bgs : Groups) : List ℕ :=
  ((List.range info.groups).filter fun i => (bgs i).data_blocks_used = 0).map fun i =>
    (bgs i).free_blocks

/-- A file whose blocks can be mapped: there is a group with one block more than it has, or the unused
groups, as many as the extent block has room for, have that many blocks, and the first of them has not
just one. -/
structure Mappable (info : FsInfo) (bgs : Groups) (len : ℕ) : Prop where
  small : info.fileBlocks len < 2 ^ 32
  room : (∃ i < info.groups, info.fileBlocks len + 1 ≤ (bgs i).free_blocks) ∨
    (unusedFree info bgs).head? ≠ some 1 ∧
      info.fileBlocks len + 1 ≤ ((unusedFree info bgs).take
        ((info.block_size - EXTENT_HEADER_LEN) / EXTENT_LEN)).sum

variable {info : FsInfo} {bgs bgs' : Groups} {tree : ExtentTree} {regs : List Region} {i len : ℕ}

/-! ## Free blocks -/

lemma FsInfo.Consistent.free_iff (hbgs : info.Consistent bgs) (b : ℕ) :
    info.Free bgs b ↔ ∃ i < info.groups, ∃ k, b = info.firstBlock i + k ∧
      (bgs i).first_free_block ≤ k ∧ k < (bgs i).first_free_block + (bgs i).free_blocks := by
  constructor
  · rintro ⟨i, hi, k, hk, rfl, hbit⟩
    exact ⟨i, hi, k, rfl, ((hbgs i hi).ranged.bits k hk).mp hbit⟩
  · rintro ⟨i, hi, k, rfl, hk⟩
    have hlt : k < info.blocks_per_group := hk.2.trans_le (hbgs i hi).ranged.le
    exact ⟨i, hi, k, hlt, rfl, ((hbgs i hi).ranged.bits k hlt).mpr hk⟩

lemma Took.free {s : Span} (h : Took info bgs s bgs') (hbgs : info.Consistent bgs) :
    (∀ b ∈ s.blocks, info.Free bgs b) ∧
      ∀ b, info.Free bgs' b ↔ info.Free bgs b ∧ b ∉ s.blocks := by
  have hle := h.le
  have hranged := (hbgs s.bg h.bg_lt).ranged.le
  have hff := h.takes.first_free_block
  have hfree := h.takes.free_blocks
  constructor
  · intro b hb
    rw [Span.blocks, mem_range'_1, h.block] at hb
    rw [hbgs.free_iff]
    obtain ⟨k, rfl⟩ := Nat.exists_eq_add_of_le hb.1
    exact ⟨s.bg, h.bg_lt, _, add_assoc _ _ _, by omega, by omega⟩
  · intro b
    rw [hbgs.free_iff, (h.consistent hbgs).free_iff, Span.blocks, mem_range'_1, h.block]
    constructor
    · rintro ⟨i, hi, k, rfl, hk⟩
      by_cases his : i = s.bg
      · subst his
        exact ⟨⟨s.bg, h.bg_lt, k, rfl, by omega, by omega⟩, by omega⟩
      · rw [h.other i his] at hk
        refine ⟨⟨i, hi, k, rfl, hk⟩, fun hb => his ?_⟩
        have hranged' := (hbgs i hi).ranged.le
        obtain ⟨l, hl⟩ := Nat.exists_eq_add_of_le hb.1
        rw [add_assoc] at hl
        exact (FsInfo.firstBlock_inj (by omega) (by omega) hl).1
    · rintro ⟨⟨i, hi, k, rfl, hk⟩, hnot⟩
      refine ⟨i, hi, k, rfl, ?_⟩
      by_cases his : i = s.bg
      · subst his
        omega
      · rwa [h.other i his]

lemma TookAll.free {spans : List Span} (h : TookAll info bgs spans bgs') :
    info.Consistent bgs → (∀ b ∈ spans.flatMap Span.blocks, info.Free bgs b) ∧
      ∀ b, info.Free bgs' b ↔ info.Free bgs b ∧ b ∉ spans.flatMap Span.blocks := by
  induction h with
  | nil => simp
  | cons _ took _ ih =>
    intro hbgs
    obtain ⟨hnew, hiff⟩ := took.free hbgs
    obtain ⟨hnew', hiff'⟩ := ih (took.consistent hbgs)
    simp only [flatMap_cons, mem_append]
    refine ⟨?_, fun b => ?_⟩
    · rintro b (hb | hb)
      · exact hnew b hb
      · exact ((hiff b).mp (hnew' b hb)).1
    · rw [hiff', hiff]
      tauto

/-- One more block is free. -/
lemma FsInfo.Consistent.free_free_blocks (hbgs : info.Consistent bgs) {k : ℕ} (hi : i < info.groups)
    (hk : k + 1 = (bgs i).first_free_block) (b : ℕ) :
    info.Free (update bgs i (free_blocks (bgs i) 1)) b ↔
      info.Free bgs b ∨ b = info.firstBlock i + k := by
  have hranged := (hbgs i hi).ranged
  have hle := hranged.le
  have hbits := (BlockGroup.ranged_free_blocks hranged (show 1 ≤ _ by omega)).bits
  have hfirst : (free_blocks (bgs i) 1).first_free_block = k := by
    rw [free_blocks, ← hk]
    rfl
  have hfree : (free_blocks (bgs i) 1).free_blocks = (bgs i).free_blocks + 1 := rfl
  constructor
  · rintro ⟨j, hj, l, hl, rfl, hbit⟩
    by_cases hji : j = i
    · subst hji
      rw [update_self, hbits l hl] at hbit
      by_cases hlk : l = k
      · exact .inr (by rw [hlk])
      · exact .inl ⟨j, hj, l, hl, rfl, (hranged.bits l hl).mpr (by omega)⟩
    · rw [update_of_ne hji] at hbit
      exact .inl ⟨j, hj, l, hl, rfl, hbit⟩
  · rintro (⟨j, hj, l, hl, rfl, hbit⟩ | rfl)
    · refine ⟨j, hj, l, hl, rfl, ?_⟩
      by_cases hji : j = i
      · subst hji
        rw [hranged.bits l hl] at hbit
        rw [update_self, hbits l hl]
        omega
      · rwa [update_of_ne hji]
    · refine ⟨i, hi, k, by omega, rfl, ?_⟩
      rw [update_self, hbits k (by omega)]
      omega

/-! ## The lengths of the regions -/

/-- `n` blocks from groups that have so many free blocks each. -/
def fill : ℕ → List ℕ → List ℕ
  | 0, _ => []
  | _, [] => []
  | n + 1, x :: xs => if n + 1 ≤ x then [n + 1] else x :: fill (n + 1 - x) xs

/-- When few groups are enough. -/
lemma length_fill_le_iff : ∀ {xs : List ℕ} {n m : ℕ}, (fill n xs).sum = n →
    ((fill n xs).length ≤ m ↔ n ≤ (xs.take m).sum)
  | xs, 0, m, _ => by simp [fill]
  | [], n + 1, m, hsum => by simp [fill] at hsum
  | x :: xs, n + 1, 0, _ => by
    rw [fill]
    split_ifs <;> simp
  | x :: xs, n + 1, m + 1, hsum => by
    rw [fill] at hsum ⊢
    rw [take_succ_cons, sum_cons]
    split_ifs at hsum ⊢ with hx
    · simp
      omega
    · rw [sum_cons] at hsum
      have hrest := length_fill_le_iff (m := m) (show (fill (n + 1 - x) xs).sum = n + 1 - x by omega)
      rw [length_cons, succ_le_succ_iff]
      omega

/-- The first of the elements that are kept, and the others. -/
lemma filter_eq_cons {α : Type*} [DecidableEq α] {p : α → Bool} : ∀ {l : List α} {a : α}, l.Nodup →
    l.find? p = some a → l.filter p = a :: l.filter fun b => p b && decide (b ≠ a)
  | [], a, _, h => by simp at h
  | c :: l, a, hl, h => by
    obtain ⟨hc, hl⟩ := nodup_cons.mp hl
    cases hp : p c with
    | true =>
      obtain rfl : c = a := by simpa [hp] using h
      have hrest : l.filter p = l.filter fun b => p b && decide (b ≠ c) := by
        refine filter_congr fun b hb => ?_
        have hne : b ≠ c := fun h => hc (h ▸ hb)
        simp [hne]
      simp [hp, hrest]
    | false =>
      have hfind : l.find? p = some a := by simpa [hp] using h
      simp [hp, filter_eq_cons hl hfind]

/-- The unused groups, and the first of them. -/
def unused (info : FsInfo) (bgs : Groups) : List ℕ :=
  (List.range info.groups).filter fun i => (bgs i).data_blocks_used = 0

section

variable (hi : firstUnused info bgs = some i)

include hi

lemma unused_eq_cons :
    unused info bgs = i :: (range info.groups).filter
      fun j => decide ((bgs j).data_blocks_used = 0) && decide (j ≠ i) :=
  filter_eq_cons nodup_range hi

/-- An unused group that is emptied is not unused any more. -/
lemma unused_of_took {s : Span} (hfree : 0 < (bgs i).free_blocks) (h : Took info bgs s bgs')
    (hbg : s.bg = i) (hlen : s.len = (bgs i).free_blocks) :
    unused info bgs = i :: unused info bgs' ∧ ∀ j ∈ unused info bgs', bgs' j = bgs j := by
  subst hbg
  have hused := h.used
  refine ⟨(unused_eq_cons hi).trans (congrArg _ (filter_congr fun j _ => ?_)), fun j hj => ?_⟩
  · by_cases hj : j = s.bg
    · simp [hj]
      omega
    · simp [h.other j hj, hj]
  · refine h.other j ?_
    rintro rfl
    simp [unused] at hj
    omega

lemma unusedFree_of_took {s : Span} (hfree : 0 < (bgs i).free_blocks) (h : Took info bgs s bgs')
    (hbg : s.bg = i) (hlen : s.len = (bgs i).free_blocks) :
    unusedFree info bgs = (bgs i).free_blocks :: unusedFree info bgs' := by
  obtain ⟨hcons, hsame⟩ := unused_of_took hi hfree h hbg hlen
  show (unused info bgs).map _ = _ :: (unused info bgs').map _
  rw [hcons]
  exact congrArg _ (map_congr_left fun j hj => by rw [hsame j hj])

lemma unusedFree_eq_cons : ∃ xs, unusedFree info bgs = (bgs i).free_blocks :: xs :=
  ⟨_, congrArg _ (unused_eq_cons hi)⟩

end

lemma multipleOn_eq_fill (hinfo : info.Proper) (force : Bool) {fuel : ℕ} {spans : List Span}
    (hbgs : info.Consistent bgs)
    (hrun : multipleOn info force fuel bgs len = some (some spans, bgs')) :
    spans.map Span.len = fill len (unusedFree info bgs) := by
  refine multipleOn_induction hinfo force
    (P := fun bgs len spans => spans.map Span.len = fill len (unusedFree info bgs))
    (by simp [fill]) ?_ hbgs hrun
  intro bgs bgs₁ len i s rest _ hi hfree htook hs hbg hrest
  rw [map_cons, hrest]
  rcases lt_or_ge (bgs i).free_blocks (len + 1) with hlt | hge
  · have hlen : s.len = (bgs i).free_blocks := by omega
    rw [unusedFree_of_took hi hfree htook (hbg hlt) hlen, fill, if_neg (by omega), hlen]
  · have hlen : s.len = len + 1 := by omega
    obtain ⟨xs, hxs⟩ := unusedFree_eq_cons hi
    rw [hxs, fill, if_pos (by omega), hlen]
    simp [fill]

/-! ## The extents -/

/-- The extents of regions that are not too long. -/
lemma extentsFrom_spec : ∀ {regs : List Region} {n : ℕ}, (∀ r ∈ regs, r.len < 2 ^ 16) →
    n + (regs.map fun r => r.len).sum < 2 ^ 32 →
    (extentsFrom n regs).map Extent.ee_len = regs.map (fun r => r.len) ∧
      (extentsFrom n regs).flatMap Extent.blocks = regs.flatMap (fun r => r.blocks) ∧
      ∀ k e, (extentsFrom n regs)[k]? = some e →
        e.ee_block = n + ((regs.take k).map fun r => r.len).sum := by
  intro regs
  induction regs with
  | nil => simp [extentsFrom]
  | cons r regs ih =>
    intro n hlen hsum
    rw [map_cons, sum_cons] at hsum
    have hr : toUInt16 r.len = r.len := mod_eq_of_lt (hlen r mem_cons_self)
    have hn : toUInt32 (n + r.len) = n + r.len := toUInt32_eq_self (by omega)
    obtain ⟨hmap, hblocks, hstart⟩ := ih (n := n + r.len)
      (fun q hq => hlen q (mem_cons_of_mem _ hq)) (by omega)
    rw [extentsFrom, hn, hr]
    refine ⟨by rw [map_cons, hmap, map_cons], ?_, ?_⟩
    · rw [flatMap_cons, hblocks, Extent.blocks]
      simp [Span.blocks]
    · rintro (_ | k) e he
      · simp only [getElem?_cons_zero, Option.some.injEq] at he
        rw [← he]
        simp
      · rw [getElem?_cons_succ] at he
        rw [hstart k e he, take_succ_cons, map_cons, sum_cons, add_assoc]

lemma length_extentsFrom (n : ℕ) (regs : List Region) : (extentsFrom n regs).length = regs.length := by
  induction regs generalizing n with
  | nil => rfl
  | cons r regs ih => rw [extentsFrom, length_cons, ih, length_cons]

/-- Whether extents map the file, once it is known which blocks were taken. -/
lemma maps_iff {spans : List Span} (hextents : tree.extents = extentsFrom 0 regs)
    (hregs : regs.map Region.toSpan = spans) (hshort : ∀ t ∈ spans, t.len < 2 ^ 16)
    (hsum : (spans.map Span.len).sum < 2 ^ 32) (hentries : tree.header.eh_entries = spans.length)
    (hnodup : (tree.leafBlock ++ spans.flatMap Span.blocks).Nodup)
    (htaken : ∀ b ∈ tree.leafBlock ++ spans.flatMap Span.blocks, info.Free bgs b)
    (hrest : ∀ b, info.Free bgs' b ↔
      info.Free bgs b ∧ b ∉ tree.leafBlock ++ spans.flatMap Span.blocks) :
    Maps info bgs bgs' len tree ↔
      spans.length ≤ tree.header.eh_max ∧ (spans.map Span.len).sum = info.fileBlocks len := by
  have hlens : regs.map (fun r => r.len) = spans.map Span.len := by
    rw [← hregs, map_map]
    rfl
  have hblocks : regs.flatMap (fun r => r.blocks) = spans.flatMap Span.blocks := by
    rw [flatMap_blocks, hregs]
  have hlength : regs.length = spans.length := by rw [← hregs, length_map]
  have hshort' : ∀ r ∈ regs, r.len < 2 ^ 16 := fun r hr =>
    hshort r.toSpan (hregs ▸ mem_map_of_mem hr)
  obtain ⟨hmap, hmapped, hstart⟩ := extentsFrom_spec (n := 0) hshort' (by rw [hlens]; omega)
  rw [hlens] at hmap
  rw [hblocks] at hmapped
  have hmapped' : tree.mapped = spans.flatMap Span.blocks := by
    rw [ExtentTree.mapped, hextents, hmapped]
  constructor
  · intro h
    refine ⟨hentries ▸ h.max, ?_⟩
    rw [← hmap, ← hextents]
    exact h.total
  · rintro ⟨hmax, htotal⟩
    refine ⟨?_, by rwa [hentries], ?_, ?_, ?_, ?_, ?_⟩
    · rw [hextents, length_extentsFrom, hlength, hentries]
    · intro k e he
      rw [hextents] at he ⊢
      rw [hstart k e he, zero_add, map_take, map_take, hmap, hlens]
    · rw [hextents, hmap, htotal]
    all_goals rwa [hmapped']

/-! ## Files that can be mapped -/

section

variable {len : ℕ} {s : Span} {spans : List Span} (hinfo : info.Proper) (force : Bool)
  (hbs : 1024 ≤ info.block_size ∧ info.block_size ≤ 4096) (hbgs : info.Consistent bgs)
  {alloc : BlockAllocation} {extent_block n : ℕ} {bgs₁ : Groups}

include hbs in
/-- One block more than the file has is asked for, if that is a number of 32 bits. -/
lemma toUInt32_blockLen_add_one (hsmall : info.fileBlocks len < 2 ^ 32)
    (hpos : 0 < toUInt32 (blockLen info len + 1)) :
    toUInt32 (blockLen info len + 1) = info.fileBlocks len + 1 := by
  have hblock : blockLen info len = info.fileBlocks len := by
    have hlt : len + info.block_size - 1 < 2 ^ 64 := by
      have hmul := (div_lt_iff_lt_mul (by omega)).mp hsmall
      omega
    rw [blockLen, mod_eq_of_lt hlt, ← FsInfo.fileBlocks, toUInt32_eq_self hsmall]
  rw [hblock] at hpos ⊢
  rcases lt_or_ge (info.fileBlocks len + 1) (2 ^ 32) with hlt | hge
  · exact toUInt32_eq_self hlt
  · have heq : info.fileBlocks len + 1 = 2 ^ 32 := by omega
    rw [heq, toUInt32] at hpos
    exact absurd hpos (lt_irrefl 0)

include hbs in
lemma fileBlocks_pos (hlen : 0 < len) : 0 < info.fileBlocks len :=
  div_pos (by omega) (by omega)

include hinfo hbgs in
/-- The first region of several is all of the first unused group. -/
lemma head?_unusedFree (hnone : ∀ j < info.groups, (bgs j).free_blocks < n)
    (hmult : multipleOn info force n bgs n = some (some (s :: spans), bgs')) :
    (unusedFree info bgs).head? = some s.len := by
  cases n with
  | zero => simp [multipleOn] at hmult
  | succ n =>
    obtain ⟨i, t, rest, bgs₁, fuel, hi, -, heq, -, hlen, -⟩ :=
      multipleOn_cases hinfo force hbgs hmult
    obtain ⟨rfl, rfl⟩ := cons.inj heq
    obtain ⟨xs, hxs⟩ := unusedFree_eq_cons hi
    have hlt := hnone i (firstUnused_lt hi)
    rw [hxs, head?_cons, hlen, min_eq_right hlt.le]

include hinfo hbs hbgs in
/-- Which files can be mapped, in terms of the regions. -/
lemma mappable_iff (hlen : 0 < len) (hpos : 0 < toUInt32 (blockLen info len + 1))
    (hall : TookAll info bgs (s :: spans) bgs')
    (hsum : ((s :: spans).map Span.len).sum = toUInt32 (blockLen info len + 1))
    (hcase : (∃ t, s :: spans = [t]) ∨
      (∀ j < info.groups, (bgs j).free_blocks < toUInt32 (blockLen info len + 1)) ∧
        multipleOn info force (toUInt32 (blockLen info len + 1)) bgs
          (toUInt32 (blockLen info len + 1)) = some (some (s :: spans), bgs')) :
    Mappable info bgs len ↔ info.fileBlocks len < 2 ^ 32 ∧ 1 < s.len ∧
      spans.length + 1 ≤ (info.block_size - EXTENT_HEADER_LEN) / EXTENT_LEN := by
  have hblocks := fileBlocks_pos hbs hlen
  obtain ⟨_, hspos, took, -⟩ := hall.cons_inv
  have hroom : 1 ≤ (info.block_size - EXTENT_HEADER_LEN) / EXTENT_LEN := by
    rw [EXTENT_HEADER_LEN, EXTENT_LEN]
    omega
  by_cases hsmall : info.fileBlocks len < 2 ^ 32
  · have hn := toUInt32_blockLen_add_one hbs hsmall hpos
    rw [hn] at hsum hcase
    rcases hcase with ⟨t, ht⟩ | ⟨hnone, hmult⟩
    · -- one region: its group has enough free blocks
      obtain ⟨rfl, rfl⟩ := cons.inj ht
      have hs : s.len = info.fileBlocks len + 1 := by simpa using hsum
      constructor
      · intro _
        exact ⟨hsmall, by omega, by simpa using hroom⟩
      · intro _
        exact ⟨hsmall, .inl ⟨s.bg, took.bg_lt, hs ▸ took.le⟩⟩
    · have hhead := head?_unusedFree hinfo force hbgs hnone hmult
      have hfill := multipleOn_eq_fill hinfo force hbgs hmult
      have hfull : (fill (info.fileBlocks len + 1) (unusedFree info bgs)).sum =
          info.fileBlocks len + 1 := by rw [← hfill, hsum]
      have hiff := length_fill_le_iff (m := (info.block_size - EXTENT_HEADER_LEN) / EXTENT_LEN) hfull
      rw [← hfill, length_map] at hiff
      constructor
      · rintro ⟨-, ⟨i, hi, hle⟩ | ⟨hone, hle⟩⟩
        · have := hnone i hi
          omega
        · rw [hhead] at hone
          have hne : s.len ≠ 1 := fun h => hone (by rw [h])
          exact ⟨hsmall, by omega, hiff.mpr hle⟩
      · rintro ⟨-, hone, hle⟩
        refine ⟨hsmall, .inr ⟨?_, hiff.mp hle⟩⟩
        rw [hhead]
        simp
        omega
  · constructor
    · intro h
      exact absurd h.small hsmall
    · rintro ⟨h, -⟩
      exact absurd h hsmall

include hinfo hbs hbgs in
/-- A region is not longer than a group. -/
lemma TookAll.short (h : TookAll info bgs spans bgs') :
    ∀ t ∈ spans, t.len < 2 ^ 16 := by
  induction h with
  | nil => simp
  | cons _ took _ ih =>
    have hranged := (hbgs _ took.bg_lt).ranged.le
    have hbitmap := hinfo.bitmap
    have hle := took.le
    rintro t (_ | ⟨_, ht⟩)
    · omega
    · exact ih (took.consistent hbgs) t ht

/-! ## What a call that succeeds did -/

lemma num_regions_ofSpans (s : Span) (spans : List Span) :
    (ofSpans (s :: spans)).block_allocation_num_regions = spans.length + 1 := by
  show ((ofSpans (s :: spans)).walk (some 0)).length = _
  rw [walk_ofSpans, length_link, length_cons]

/-- A call that succeeds: the regions, the block that is not needed, and what is stored. -/
lemma do_inode_allocate_extents_cases {i_flags : ℕ} {inode : InodeData}
    (hrun : do_inode_allocate_extents info force bgs i_flags len =
      some (some (inode, alloc), bgs')) :
    ∃ s spans bgs₁ extent_block alloc1,
      do_allocate info force bgs (toUInt32 (blockLen info len + 1)) = some (s :: spans, bgs₁) ∧
      placeExtents (.ofSpans (s :: spans)) bgs₁ = some (extent_block, alloc1, bgs') ∧
      extentTree info extent_block (spans.length + 1) alloc1.regionsLeft = some inode.i_block := by
  rw [do_inode_allocate_extents] at hrun
  cases halloc : allocate_blocks info force bgs (toUInt32 (blockLen info len + 1)) with
  | none => simp [halloc] at hrun
  | some r =>
    obtain ⟨_ | alloc0, bgs₁⟩ := r
    · simp only [halloc] at hrun
      cases force <;> simp at hrun
    · obtain ⟨s, spans, hdo, rfl⟩ := allocate_blocks_cases force halloc
      have hnum : (ofSpans (s :: spans)).block_allocation_num_regions =
          spans.length + 1 := num_regions_ofSpans s spans
      simp only [halloc, Option.bind_eq_bind, Option.bind_some, hnum] at hrun
      cases hplace : placeExtents (.ofSpans (s :: spans)) bgs₁ with
      | none => simp [hplace] at hrun
      | some q =>
        obtain ⟨extent_block, alloc1, bgs2⟩ := q
        simp only [hplace, Option.bind_some] at hrun
        cases htree : extentTree info extent_block (spans.length + 1) alloc1.regionsLeft with
        | none =>
          simp only [htree] at hrun
          cases force <;> simp at hrun
        | some tree =>
          simp only [htree] at hrun
          obtain ⟨⟨rfl, -⟩, rfl⟩ := hrun
          exact ⟨s, spans, bgs₁, extent_block, alloc1, hdo, hplace, htree⟩

/-- What is stored. -/
lemma extentTree_spec (h : extentTree info extent_block n regs = some tree) :
    tree.extents = extentsFrom 0 regs ∧ tree.header.eh_entries = toUInt16 n ∧
      (extent_block = 0 ∧ tree.leafBlock = [] ∧ tree.header.eh_max = 3 ∨
        extent_block ≠ 0 ∧ tree.leafBlock = [extent_block] ∧ n ≤ info.block_size - 1 ∧
          tree.header.eh_max =
            toUInt16 ((info.block_size - EXTENT_HEADER_LEN) / EXTENT_LEN)) := by
  rw [extentTree] at h
  by_cases hzero : extent_block = 0
  · rw [if_pos hzero] at h
    cases h
    exact ⟨rfl, rfl, .inl ⟨hzero, rfl, rfl⟩⟩
  · rw [if_neg hzero] at h
    split_ifs at h with hbig
    cases h
    have hle : n ≤ info.block_size - 1 := not_lt.mp hbig
    refine ⟨rfl, rfl, .inr ⟨hzero, ?_, hle, rfl⟩⟩
    simp [ExtentTree.leafBlock]

lemma regionsLeft_trim (s : Span) (spans : List Span) :
    (ofSpans (s :: spans)).trim.regionsLeft.map Region.toSpan =
      { s with len := s.len - 1 } :: spans := by
  have hleft : (ofSpans (s :: spans)).trim.regionsLeft =
      ((ofSpans (s :: spans)).trim.walk (some 0)).modify 0 id := rfl
  rw [hleft, modify_id, walk_trim, map_toSpan_trim]

/-- The first block of a region, before the others. -/
lemma flatMap_blocks_tail (hs : 0 < s.len) (spans : List Span) :
    [s.block] ++ ({ s with block := s.block + 1, len := s.len - 1 } :: spans).flatMap Span.blocks =
      (s :: spans).flatMap Span.blocks := by
  obtain ⟨n, hn⟩ := exists_eq_succ_of_ne_zero hs.ne'
  simp [Span.blocks, hn, range'_succ]

include hinfo hbs hbgs in
/-- A file whose first region has more than one block. -/
lemma maps_iff_of_lt (hall : TookAll info bgs (s :: spans) bgs₁)
    (hfull : spans = [] ∨ s.len = (bgs s.bg).free_blocks) (hs : 1 < s.len)
    (hsum : ((s :: spans).map Span.len).sum < 2 ^ 32)
    (hplace : placeExtents (.ofSpans (s :: spans)) bgs₁ = some (extent_block, alloc, bgs'))
    (htree : extentTree info extent_block (spans.length + 1) alloc.regionsLeft = some tree) :
    Maps info bgs bgs' len tree ↔
      spans.length + 1 ≤ (info.block_size - EXTENT_HEADER_LEN) / EXTENT_LEN ∧
        ((s :: spans).map Span.len).sum = info.fileBlocks len + 1 := by
  obtain ⟨hextents, hentries, hshape⟩ := extentTree_spec htree
  obtain ⟨-, -, hnodup⟩ := hall.held hbgs
  obtain ⟨htaken, hrest⟩ := hall.free hbgs
  have hshort := hall.short hinfo hbs hbgs
  have hshort' : ∀ t, t.len = s.len - 1 → ∀ r ∈ t :: spans, r.len < 2 ^ 16 := by
    rintro t ht r (_ | ⟨_, hr⟩)
    · have := hshort s mem_cons_self
      omega
    · exact hshort r (mem_cons_of_mem _ hr)
  have htotal : ∀ t, t.len = s.len - 1 →
      ((t :: spans).map Span.len).sum + 1 = ((s :: spans).map Span.len).sum := by
    intro t ht
    rw [map_cons, sum_cons, map_cons, sum_cons]
    omega
  rw [placeExtents, num_regions_ofSpans] at hplace
  by_cases hfew : spans.length + 1 ≤ 3
  · -- the last block of the first region is returned
    rw [if_pos hfew, reduce_ofSpans_of_lt bgs₁ spans hs] at hplace
    cases hplace
    obtain ⟨-, hleaf, hmax⟩ | ⟨hne, -⟩ := hshape
    swap
    · exact absurd rfl hne
    obtain ⟨k, hk, hlast⟩ := hall.first_last hfull
    have hfree := (hall.consistent hbgs).free_free_blocks (hall.first_end hfull).2 hk
    rw [flatMap_blocks_cons (by omega)] at hnodup htaken hrest
    have hnodup' := nodup_middle.mp hnodup
    have hroom : 3 ≤ (info.block_size - EXTENT_HEADER_LEN) / EXTENT_LEN := by
      rw [EXTENT_HEADER_LEN, EXTENT_LEN]
      omega
    have htotal' := htotal { s with len := s.len - 1 } rfl
    rw [maps_iff hextents (regionsLeft_trim s spans) (hshort' _ rfl) (by omega), length_cons]
    · omega
    · rw [hentries]
      exact mod_eq_of_lt (by omega)
    · rw [hleaf]
      exact hnodup'.of_cons
    · intro b hb
      rw [hleaf] at hb
      exact htaken b (perm_middle.mem_iff.mpr (mem_cons_of_mem _ hb))
    · intro b
      rw [hleaf, hfree, hrest, hlast, perm_middle.mem_iff, mem_cons]
      constructor
      · rintro (⟨hb, hnot⟩ | rfl)
        · exact ⟨hb, fun h => hnot (.inr h)⟩
        · exact ⟨htaken _ (perm_middle.mem_iff.mpr mem_cons_self), hnodup'.notMem⟩
      · rintro ⟨hb, hnot⟩
        by_cases heq : b = s.block + (s.len - 1)
        · exact .inr heq
        · refine .inl ⟨hb, ?_⟩
          rintro (h | h)
          · exact heq h
          · exact hnot h
  · -- the first block of the first region is the extent block
    obtain ⟨alloc1, hreserve, hregs, hblock⟩ := reserve_oob_of_lt spans hs
    rw [if_neg hfew, hreserve] at hplace
    cases hplace
    rw [hblock] at hshape
    have hpos : s.block ≠ 0 := by
      obtain ⟨_, -, took, -⟩ := hall.cons_inv
      have hheader := (hbgs s.bg took.bg_lt).header_le
      have hblock' := took.block
      rw [FsInfo.headerSize] at hheader
      omega
    obtain ⟨hzero, -⟩ | ⟨-, hleaf, hle, hmax⟩ := hshape
    · exact absurd hzero hpos
    have hroom : toUInt16 ((info.block_size - EXTENT_HEADER_LEN) / EXTENT_LEN) =
        (info.block_size - EXTENT_HEADER_LEN) / EXTENT_LEN := by
      rw [EXTENT_LEN]
      exact mod_eq_of_lt (by omega)
    have hblocks := flatMap_blocks_tail (show 0 < s.len by omega) spans
    rw [← hblocks, ← hleaf] at hnodup htaken hrest
    have htotal' := htotal { s with block := s.block + 1, len := s.len - 1 } rfl
    rw [maps_iff hextents hregs (hshort' _ rfl) (by omega) _ hnodup htaken hrest, hmax, length_cons]
    · omega
    · rw [hentries]
      exact mod_eq_of_lt (by omega)

/-- At least one block was asked for: no block can be split off or returned otherwise. -/
lemma pos_of_placeExtents (hdo : do_allocate info force bgs n = some (s :: spans, bgs₁))
    (hplace : placeExtents (.ofSpans (s :: spans)) bgs₁ = some (extent_block, alloc, bgs')) :
    0 < n := by
  refine pos_of_ne_zero ?_
  rintro rfl
  obtain ⟨spans', hzero, hlen, hsingle⟩ := do_allocate_zero force info bgs
  rw [hzero] at hdo
  cases hdo
  rcases hsingle with hnil | ⟨t, ht⟩
  · simp at hnil
  · obtain ⟨rfl, rfl⟩ := cons.inj ht
    rw [placeExtents, num_regions_ofSpans, reduce_ofSpans_of_zero _ [] (hlen s mem_cons_self)] at hplace
    simp at hplace

/-- No region is empty. -/
lemma TookAll.length_le (h : TookAll info bgs spans bgs') :
    spans.length ≤ (spans.map Span.len).sum := by
  induction h with
  | nil => simp
  | cons pos _ _ ih =>
    rw [length_cons, map_cons, sum_cons]
    omega

/-- A file whose first region has one block only: at most one block is mapped, and that only if there
are more than three regions. -/
lemma fileBlocks_of_maps (hall : TookAll info bgs (s :: spans) bgs₁) (hs : s.len = 1)
    (hplace : placeExtents (.ofSpans (s :: spans)) bgs₁ = some (extent_block, alloc, bgs'))
    (htree : extentTree info extent_block (spans.length + 1) alloc.regionsLeft = some tree)
    (hmaps : Maps info bgs bgs' len tree) :
    info.fileBlocks len = 0 ∨
      info.fileBlocks len = 1 ∧ 3 < ((s :: spans).map Span.len).sum := by
  obtain ⟨hextents, -, -⟩ := extentTree_spec htree
  have htotal := hmaps.total
  rw [hextents] at htotal
  rw [placeExtents, num_regions_ofSpans] at hplace
  by_cases hfew : spans.length + 1 ≤ 3
  · rw [if_pos hfew, reduce_ofSpans_of_eq bgs₁ spans hs] at hplace
    cases hplace
    have hleft : regionsLeft
        { ofSpans (s :: spans) with list := {} } = [] := by
      simp [regionsLeft, walk_none]
    rw [hleft] at htotal
    exact .inl htotal.symm
  · have hle := hall.length_le
    rw [length_cons] at hle
    cases spans with
    | nil => simp at hfew
    | cons t spans =>
      obtain ⟨_, -, -, hrest⟩ := hall.cons_inv
      obtain ⟨_, ht, -, -⟩ := hrest.cons_inv
      obtain ⟨alloc1, hreserve, hregs⟩ := reserve_oob_of_eq spans hs ht
      rw [if_neg hfew, hreserve] at hplace
      cases hplace
      obtain ⟨r, hr, hrs⟩ := map_eq_singleton_iff.mp hregs
      have hrlen : r.len = 1 := by
        rw [← hs, ← hrs]
      rw [hr] at htotal
      refine .inr ⟨?_, by omega⟩
      rw [← htotal]
      simp [extentsFrom, hrlen, toUInt16]

end

/-! ## The result -/

/-- **Extent mapping.**  If the extents of a file were allocated, they map the blocks of the file if and
only if the file is mappable. -/
theorem extents_map_iff (hinfo : info.Proper)
    (hbs : 1024 ≤ info.block_size ∧ info.block_size ≤ 4096) (hbgs : info.Consistent bgs)
    (force : Bool) {i_flags len : ℕ} (hlen : 0 < len) {inode : InodeData} {alloc : BlockAllocation}
    (hrun : do_inode_allocate_extents info force bgs i_flags len =
      some (some (inode, alloc), bgs')) :
    Maps info bgs bgs' len inode.i_block ↔ Mappable info bgs len := by
  obtain ⟨s, spans, bgs₁, extent_block, alloc1, hdo, hplace, htree⟩ :=
    do_inode_allocate_extents_cases force hrun
  have hblocks := fileBlocks_pos hbs hlen
  have hpos := pos_of_placeExtents force hdo hplace
  obtain ⟨hall, hsum, hcase⟩ := do_allocate_spec hinfo force hbgs hpos (cons_ne_nil s spans) hdo
  have hlt : ((s :: spans).map Span.len).sum < 2 ^ 32 := hsum ▸ toUInt32_lt _
  rw [mappable_iff hinfo force hbs hbgs hlen hpos hall hsum hcase]
  obtain ⟨_, hspos, -, -⟩ := hall.cons_inv
  by_cases hs : 1 < s.len
  · rw [maps_iff_of_lt hinfo hbs hbgs hall (first_full hinfo force hbgs hcase) hs hlt hplace htree]
    constructor
    · rintro ⟨hroom, htotal⟩
      exact ⟨by omega, hs, hroom⟩
    · rintro ⟨hsmall, -, hroom⟩
      exact ⟨hroom, hsum.trans (toUInt32_blockLen_add_one hbs hsmall hpos)⟩
  · constructor
    · intro hmaps
      exfalso
      rcases fileBlocks_of_maps hall (by omega) hplace htree hmaps with
        hzero | ⟨hone, hmany⟩
      · omega
      · have hn := toUInt32_blockLen_add_one hbs (by omega) hpos
        omega
    · rintro ⟨-, hs', -⟩
      exact absurd hs' hs

/-- Two regions: all of the first group but the block that is returned, and some of the second. -/
theorem extents_map_iff_twoGroups :
    ∃ bgs bgs' inode alloc,
      block_allocator_init twoGroups false (fun _ => newGroup twoGroups 0) = some bgs ∧
      do_inode_allocate_extents twoGroups false bgs 0 20000 = some (some (inode, alloc), bgs') ∧
      inode.i_block.mapped = List.range' 8 16 ++ List.range' 32 4 ∧
      (Maps twoGroups bgs bgs' 20000 inode.i_block ↔ Mappable twoGroups bgs 20000) := by
  obtain ⟨bgs, hinit, hbgs⟩ :=
    FsInfo.block_allocator_init_eq twoGroups_proper false fun _ => newGroup twoGroups 0
  have hrun : ((block_allocator_init twoGroups false fun _ => newGroup twoGroups 0).bind fun bgs =>
      (do_inode_allocate_extents twoGroups false bgs 0 20000).bind fun r =>
        r.1.map fun q => q.1.i_block.mapped) = some (range' 8 16 ++ range' 32 4) := by
    decide +kernel
  rw [hinit, Option.bind_some] at hrun
  obtain ⟨⟨r, bgs'⟩, hextents, hr⟩ := Option.bind_eq_some_iff.mp hrun
  obtain ⟨⟨inode, alloc⟩, rfl, hmapped⟩ := Option.map_eq_some_iff.mp hr
  exact ⟨bgs, bgs', inode, alloc, hinit, hextents, hmapped,
    extents_map_iff twoGroups_proper (by decide) hbgs false (by decide) hextents⟩

/-- Three groups of 104 blocks.  The headers of the first two leave one block free each. -/
def thinGroups : FsInfo where
  block_size := 1024
  blocks_per_group := 104
  bg_desc_reserve_blocks := 95
  sparse_super := true
  first_data_block := 1
  len_blocks := 312
  inode_table_blocks := 4
  groups := 3
  bg_desc_blocks := 1

/-- A file of 98 blocks, in a filesystem with nothing else in it, gets no extent at all. -/
theorem extents_lost :
    ∃ bgs bgs' inode alloc,
      block_allocator_init thinGroups false (fun _ => newGroup thinGroups 0) = some bgs ∧
      do_inode_allocate_extents thinGroups false bgs 0 100352 = some (some (inode, alloc), bgs') ∧
      inode.i_block.header.eh_entries = 3 ∧ inode.i_block.extents = [] ∧
      ¬ Maps thinGroups bgs bgs' 100352 inode.i_block := by
  have hrun : ((block_allocator_init thinGroups false fun _ => newGroup thinGroups 0).bind fun bgs =>
      (do_inode_allocate_extents thinGroups false bgs 0 100352).bind fun r =>
        r.1.map fun q => (q.1.i_block.header.eh_entries, q.1.i_block.extents)) = some (3, []) := by
    decide +kernel
  obtain ⟨bgs, hinit, hrun⟩ := Option.bind_eq_some_iff.mp hrun
  obtain ⟨⟨r, bgs'⟩, hextents, hr⟩ := Option.bind_eq_some_iff.mp hrun
  obtain ⟨⟨inode, alloc⟩, rfl, hstored⟩ := Option.map_eq_some_iff.mp hr
  obtain ⟨hentries, hnone⟩ := Prod.mk.inj hstored
  refine ⟨bgs, bgs', inode, alloc, hinit, hextents, hentries, hnone, ?_⟩
  intro hmaps
  have hlength := hmaps.entries
  rw [hentries, hnone] at hlength
  simp at hlength

end Droid.Ext4
