import DroidPlatform.Ext4.Allocator.ExtentMap

/-!
# Requests that fit into no group

Such a request is spread over the unused groups: `ext4_allocate_multiple_contiguous_blocks` takes all
of one after the other until it has enough.  `ending` tells from the free blocks of the unused groups
how that ends.

* A group in which no data block was ever used need not have a free one; the last group of a
  filesystem may be all header.  Nothing is taken from it, it stays unused, and the loop finds it
  again: `allocate_blocks_returns_iff`.
* If there are not enough unused groups, `NULL` is returned, and what was taken is not given back:
  `allocate_blocks_undone_iff`.
-/

namespace Droid.Ext4

open List Option Nat

variable {info : FsInfo} {force : Bool} {bgs bgs' : Groups} {i len : ℕ}

/-- How the loop over the unused groups ends: with as many blocks as were asked for, with too few of
them, or not at all. -/
inductive Ending
  | enough
  | short
  | stuck
deriving DecidableEq, Repr

/-- The unused groups `is` are asked for `len` blocks.  The loop is left at a group without free blocks
if the number of the block would be `EXT4_ALLOCATE_FAILED`. -/
def ending (force : Bool) (bgs : Groups) : List ℕ → ℕ → Ending
  | _, 0 => .enough
  | [], _ + 1 => .short
  | i :: is, len + 1 =>
    if (bgs i).free_blocks = 0 then
      if force ∧ toUInt32 ((bgs i).first_block + (bgs i).first_free_block) = EXT4_ALLOCATE_FAILED
      then .short else .stuck
    else ending force bgs is (len + 1 - (bgs i).free_blocks)

lemma ending_congr : ∀ {is : List ℕ} {len : ℕ}, (∀ j ∈ is, bgs' j = bgs j) →
    ending force bgs' is len = ending force bgs is len
  | _, 0, _ => by simp [ending]
  | [], _ + 1, _ => rfl
  | i :: is, len + 1, h => by
    rw [ending, ending, h i mem_cons_self, ending_congr fun j hj => h j (mem_cons_of_mem _ hj)]

/-- What the loop returns, for each way it may end.  No number of turns is enough if it is stuck. -/
def Ending.Of (info : FsInfo) (bgs : Groups) (r : Option (Option (List Span) × Groups)) :
    Ending → Prop
  | .enough => ∃ spans bgs', r = some (some spans, bgs') ∧ (spans = [] → bgs' = bgs)
  | .short => ∃ bgs', r = some (none, bgs') ∧
      (∀ i, (bgs i).data_blocks_used ≤ (bgs' i).data_blocks_used) ∧
      (bgs' = bgs ↔ ∀ i ∈ firstUnused info bgs, (bgs i).free_blocks = 0)
  | .stuck => r = none

/-- A turn that takes blocks. -/
lemma Ending.Of.cons {e : Ending} {s : Span} {bgs1 : Groups}
    {r : Option (Option (List Span) × Groups)} (h : e.Of info bgs1 r) (htook : Took info bgs s bgs1)
    (hlen : 0 < s.len) (hi : firstUnused info bgs = some i) (hfree : 0 < (bgs i).free_blocks) :
    e.Of info bgs (r.map fun r => (r.1.map (s :: ·), r.2)) := by
  cases e with
  | enough =>
    obtain ⟨spans, bgs', rfl, -⟩ := h
    exact ⟨s :: spans, bgs', rfl, nofun⟩
  | short =>
    obtain ⟨bgs', rfl, hused, -⟩ := h
    refine ⟨bgs', rfl, fun j => ?_, iff_of_false ?_ fun h => hfree.ne' (h i hi)⟩
    · refine le_trans ?_ (hused j)
      by_cases hj : j = s.bg
      · rw [hj, htook.used]
        omega
      · rw [htook.other j hj]
    · rintro rfl
      have := hused s.bg
      rw [htook.used] at this
      omega
  | stuck => rw [show r = none from h]; rfl

/-- **How the loop ends** is what the unused groups say. -/
lemma multipleOn_ending (hinfo : info.Proper) (force : Bool) : ∀ {fuel len : ℕ} {bgs : Groups},
    info.Consistent bgs → len ≤ fuel →
    (ending force bgs (unused info bgs) len).Of info bgs (multipleOn info force fuel bgs len)
  | fuel, 0, bgs, _, _ => by
    rw [show ending force bgs (unused info bgs) 0 = .enough by simp [ending]]
    exact ⟨[], bgs, by cases fuel <;> rfl, fun _ => rfl⟩
  | fuel + 1, len + 1, bgs, hbgs, hfuel => by
    cases hi : firstUnused info bgs with
    | none =>
      have hnone : unused info bgs = [] := by
        rw [unused]
        simpa [firstUnused] using hi
      rw [hnone, multipleOn, ext4_allocate_partial_of_none force hi]
      exact ⟨bgs, rfl, fun _ => le_rfl, by simp [hi]⟩
    | some i =>
      rw [unused_eq_cons hi, ending]
      rcases Nat.eq_zero_or_pos (bgs i).free_blocks with hfull | hfree
      · rw [multipleOn_of_full force hi hfull]
        simp only [succ_pos, true_and]
        split_ifs
        · exact ⟨bgs, rfl, fun _ => le_rfl, by simp [hi, hfull]⟩
        · rfl
      · obtain ⟨s, bgs1, hpartial, htook, hs, hbg⟩ :=
          ext4_allocate_partial_spec hinfo force hbgs len.succ_pos hi hfree
        have hrest := multipleOn_ending hinfo force (htook.consistent hbgs)
          (show len + 1 - s.len ≤ fuel by omega)
        rw [if_neg hfree.ne', multipleOn_succ force hpartial]
        rcases lt_or_ge (bgs i).free_blocks (len + 1) with hlt | hge
        · obtain ⟨hcons, hsame⟩ := unused_of_took hi hfree htook (hbg hlt) (by omega)
          rw [unused_eq_cons hi] at hcons
          have hlen : s.len = (bgs i).free_blocks := by omega
          rw [ending_congr hsame, hlen] at hrest
          rw [(cons.inj hcons).2, hlen]
          exact hrest.cons htook (by omega) hi hfree
        · -- the rest fits into the group
          rw [show len + 1 - s.len = 0 by omega] at hrest ⊢
          rw [show len + 1 - (bgs i).free_blocks = 0 by omega]
          simpa only [ending] using hrest.cons htook (by omega) hi hfree

/-- The request fits into a group. -/
def Fits (info : FsInfo) (bgs : Groups) (len : ℕ) : Prop :=
  ∃ i < info.groups, len ≤ (bgs i).free_blocks

/-- What is allocated is one region, or what the loop returns. -/
lemma do_allocate_ending (hinfo : info.Proper) (force : Bool) (hbgs : info.Consistent bgs) (len : ℕ) :
    (Fits info bgs len ∧ ∃ s bgs', do_allocate info force bgs len = some ([s], bgs')) ∨
    (ending force bgs (unused info bgs) len = .enough ∨ ¬Fits info bgs len) ∧
      ∃ r, (ending force bgs (unused info bgs) len).Of info bgs r ∧
        do_allocate info force bgs len = r.map fun r => (r.1.getD [], r.2) := by
  rcases Nat.eq_zero_or_pos len with rfl | hpos
  · obtain ⟨spans, hrun, -⟩ := do_allocate_zero force info bgs
    have hzero : ending force bgs (unused info bgs) 0 = .enough := by simp [ending]
    rw [hzero]
    exact .inr ⟨.inl rfl, some (some spans, bgs), ⟨spans, bgs, rfl, fun _ => rfl⟩, hrun⟩
  · rw [do_allocate, ext4_allocate_contiguous_blocks]
    rcases contiguousFrom_spec hinfo force hbgs hpos info.groups 0 (zero_add _).le with
      ⟨s, bgs1, hcont, hs, htook, -⟩ | ⟨hcont, hnone⟩
    · rw [hcont]
      exact .inl ⟨⟨s.bg, htook.bg_lt, hs ▸ htook.le⟩, s, bgs1, rfl⟩
    · refine .inr ⟨.inr ?_, _, multipleOn_ending hinfo force hbgs le_rfl, ?_⟩
      · rintro ⟨i, hi, hle⟩
        have := hnone i (zero_le _) (by omega)
        omega
      · rw [hcont]
        cases h : multipleOn info force len bgs len <;>
          simp [ext4_allocate_multiple_contiguous_blocks, h]

/-- An allocation has as many blocks as were asked for. -/
lemma length_blocks_of_allocate_blocks (hinfo : info.Proper) (hbgs : info.Consistent bgs)
    {alloc : BlockAllocation} (hrun : allocate_blocks info force bgs len = some (some alloc, bgs')) :
    alloc.blocks.length = len := by
  obtain ⟨s, spans, hdo, rfl⟩ := allocate_blocks_cases force hrun
  have hlength : (BlockAllocation.ofSpans (s :: spans)).blocks.length =
      ((s :: spans).map Span.len).sum := by
    rw [BlockAllocation.blocks_ofSpans]
    simp [Span.blocks]
  rw [hlength]
  rcases Nat.eq_zero_or_pos len with rfl | hpos
  · obtain ⟨spans', hrun', hzero, -⟩ := do_allocate_zero force info bgs
    rw [hrun'] at hdo
    cases hdo
    exact sum_eq_zero (by simpa using hzero)
  · exact (do_allocate_spec hinfo force hbgs hpos (cons_ne_nil s spans) hdo).2.1

/-- **When a call returns** an allocation of `len` blocks, or `NULL`: exactly if the request fits into
a group, or the loop over the unused groups is not stuck. -/
theorem allocate_blocks_returns_iff (hinfo : info.Proper) (force : Bool) (hbgs : info.Consistent bgs)
    (len : ℕ) :
    (∃ alloc bgs', allocate_blocks info force bgs len = some (alloc, bgs') ∧
      ∀ a ∈ alloc, a.blocks.length = len) ↔
    Fits info bgs len ∨ ending force bgs (unused info bgs) len ≠ .stuck := by
  have hreturns : (∃ alloc bgs', allocate_blocks info force bgs len = some (alloc, bgs') ∧
      ∀ a ∈ alloc, a.blocks.length = len) ↔ (do_allocate info force bgs len).isSome := by
    constructor
    · rintro ⟨alloc, bgs', hrun, -⟩
      cases hdo : do_allocate info force bgs len with
      | none => simp [allocate_blocks, hdo] at hrun
      | some r => rfl
    · intro h
      obtain ⟨⟨spans, bgs'⟩, hdo⟩ := isSome_iff_exists.mp h
      obtain ⟨alloc, hrun⟩ : ∃ alloc, allocate_blocks info force bgs len = some (alloc, bgs') := by
        cases spans <;> simp [allocate_blocks, hdo]
      refine ⟨alloc, bgs', hrun, ?_⟩
      rintro a rfl
      exact length_blocks_of_allocate_blocks hinfo hbgs hrun
  rw [hreturns]
  rcases do_allocate_ending hinfo force hbgs len with ⟨hfits, s, bgs', hdo⟩ | ⟨hnot, r, hr, hdo⟩
  · simp [hdo, hfits]
  · rw [hdo]
    cases he : ending force bgs (unused info bgs) len with
    | enough =>
      rw [he] at hr
      obtain ⟨spans, bgs1, rfl, -⟩ := hr
      simp
    | short =>
      rw [he] at hr
      obtain ⟨bgs1, rfl, -⟩ := hr
      simp
    | stuck =>
      rw [he] at hr hnot
      simp [show r = none from hr, hnot.resolve_left (by simp)]

theorem allocate_blocks_returns_iff_fresh :
    ∃ bgs, block_allocator_init twoGroups false (fun _ => newGroup twoGroups 0) = some bgs ∧
      ((∃ alloc bgs', allocate_blocks twoGroups false bgs 20 = some (alloc, bgs') ∧
        ∀ a ∈ alloc, a.blocks.length = 20) ↔
      Fits twoGroups bgs 20 ∨ ending false bgs (unused twoGroups bgs) 20 ≠ .stuck) := by
  obtain ⟨bgs, hinit, hbgs⟩ :=
    FsInfo.block_allocator_init_eq twoGroups_proper false fun _ => newGroup twoGroups 0
  exact ⟨bgs, hinit, allocate_blocks_returns_iff twoGroups_proper false hbgs 20⟩

/-- A filesystem that ends with the header of its second group, and a request for more blocks than
the first group has. -/
theorem allocate_blocks_hangs : { twoGroups with len_blocks := 32 }.Proper ∧
    ((block_allocator_init { twoGroups with len_blocks := 32 } false fun _ =>
      newGroup twoGroups 0).map fun bgs =>
        ((bgs 1).data_blocks_used, (bgs 1).free_blocks,
          (allocate_blocks { twoGroups with len_blocks := 32 } false bgs 18).isNone)) =
      some (0, 0, true) := by
  refine ⟨⟨by decide, by decide, by decide, by decide, by decide⟩, by decide +kernel⟩

/-- **`NULL` means that nothing was taken**, if and only if the request fits into a group, or the loop
over the unused groups does not end with too few blocks, or it ends before it takes any. -/
theorem allocate_blocks_undone_iff (hinfo : info.Proper) (force : Bool) (hbgs : info.Consistent bgs)
    (len : ℕ) :
    (∀ bgs', allocate_blocks info force bgs len = some (none, bgs') → bgs' = bgs) ↔
    Fits info bgs len ∨ ending force bgs (unused info bgs) len ≠ .short ∨
      ∀ i ∈ firstUnused info bgs, (bgs i).free_blocks = 0 := by
  have hnull : ∀ bgs', allocate_blocks info force bgs len = some (none, bgs') ↔
      do_allocate info force bgs len = some ([], bgs') := by
    rw [allocate_blocks]
    rcases do_allocate info force bgs len with _ | ⟨_ | ⟨s, spans⟩, bgs1⟩ <;> simp
  simp only [hnull]
  rcases do_allocate_ending hinfo force hbgs len with ⟨hfits, s, bgs1, hdo⟩ | ⟨hnot, r, hr, hdo⟩
  · simp [hdo, hfits]
  · rw [hdo]
    cases he : ending force bgs (unused info bgs) len with
    | enough =>
      rw [he] at hr
      obtain ⟨spans, bgs1, rfl, hsame⟩ := hr
      simpa using hsame
    | short =>
      rw [he] at hr hnot
      obtain ⟨bgs1, rfl, -, hsame⟩ := hr
      simpa [hnot.resolve_left (by simp)] using hsame
    | stuck =>
      rw [he] at hr
      simp [show r = none from hr]

theorem allocate_blocks_undone_iff_fresh :
    ∃ bgs, block_allocator_init twoGroups false (fun _ => newGroup twoGroups 0) = some bgs ∧
      ((∀ bgs', allocate_blocks twoGroups false bgs 20 = some (none, bgs') → bgs' = bgs) ↔
        Fits twoGroups bgs 20 ∨ ending false bgs (unused twoGroups bgs) 20 ≠ .short ∨
          ∀ i ∈ firstUnused twoGroups bgs, (bgs i).free_blocks = 0) := by
  obtain ⟨bgs, hinit, hbgs⟩ :=
    FsInfo.block_allocator_init_eq twoGroups_proper false fun _ => newGroup twoGroups 0
  exact ⟨bgs, hinit, allocate_blocks_undone_iff twoGroups_proper false hbgs 20⟩

/-- A request for more blocks than there are: `NULL`, and no block is free any more. -/
theorem allocate_blocks_drains :
    ((block_allocator_init twoGroups false fun _ => newGroup twoGroups 0).bind fun bgs =>
      (allocate_blocks twoGroups false bgs 99).map fun r =>
        (r.1, (bgs 0).free_blocks + (bgs 1).free_blocks, (r.2 0).free_blocks + (r.2 1).free_blocks)) =
      some (none, 25, 0) := by
  decide +kernel

end Droid.Ext4
