import DroidPlatform.Ext4.Allocator.Allocate

/-!
# Taking blocks from a group and giving them back

One lemma for each of `reserve_blocks` and `free_blocks`: the bits that change, and the counters.
From these, what the two do to a group whose free blocks are a range (`BlockGroup.Ranged`).
-/

namespace Droid.Ext4

open Bitmap

/-! ## The bits -/

/-- The bits of `m`, and those from `start` up to `stop`. -/
def Marked (m m' : Memory) (start stop : ℕ) : Prop :=
  ∀ j, bit m' j = (decide (start ≤ j ∧ j < stop) || bit m j)

variable {m m' : Memory} {start num : ℕ} {b i j : ℕ} {m'' : Memory}

lemma Marked.refl (m : Memory) (start : ℕ) : Marked m m start start := fun j => by
  simp [show ¬ (start ≤ j ∧ j < start) by omega]

/-- More bits, next to those that are marked. -/
lemma Marked.trans (h : Marked m m' start (start + i))
    (h' : Marked m' m'' (start + i) (start + i + j)) : Marked m m'' start (start + (i + j)) := by
  intro k
  rw [h' k, h k, ← Bool.or_assoc]
  congr 1
  rw [← Bool.decide_or]
  congr 1
  rw [eq_iff_iff]
  omega

lemma bitmap_set_bit_eq (hb : bit m b = false) :
    ∃ m', bitmap_set_bit m b = (false, m') ∧ Marked m m' b (b + 1) := by
  refine ⟨set m b, by simp [bitmap_set_bit, hb], fun j => ?_⟩
  rw [bit_set]
  congr 2
  rw [eq_iff_iff]
  omega

lemma bitmap_set_8_bits_eq (hb : 8 ∣ b) (hclear : ∀ j, b ≤ j → j < b + 8 → bit m j = false) :
    ∃ m', bitmap_set_8_bits m b = (false, m') ∧ Marked m m' b (b + 8) :=
  ⟨setByte m b, by simp [bitmap_set_8_bits, eq_zero_of_forall_bit hb hclear], bit_setByte m hb⟩

/-- **The loop rule.**  What one turn keeps, the loop keeps, and then its condition is false. -/
lemma reserveLoop_spec (cond : ℕ → Bool) (width : ℕ) (mark : Memory → ℕ → Bool × Memory)
    (start num : ℕ) (Inv : ℕ → Memory → Prop) (hwidth : 0 < width) (hcond : ∀ i, cond i = true →
      i + width ≤ num)
    (hmark : ∀ i m, cond i = true → Inv i m →
      ∃ m', mark m (start + i) = (false, m') ∧ Inv (i + width) m') :
    ∀ fuel i m, num ≤ i + fuel → Inv i m →
      ∃ i' m', reserveLoop cond width mark start fuel i m = .ok (i', m') ∧ Inv i' m' ∧
        cond i' = false := by
  intro fuel
  induction fuel with
  | zero =>
    intro i m hnum hinv
    refine ⟨i, m, rfl, hinv, Bool.eq_false_iff.mpr fun htrue => ?_⟩
    have := hcond i htrue
    omega
  | succ fuel ih =>
    intro i m hnum hinv
    rw [reserveLoop]
    cases htrue : cond i with
    | false => exact ⟨i, m, by simp, hinv, htrue⟩
    | true =>
      obtain ⟨m', hm', hinv'⟩ := hmark i m htrue hinv
      obtain ⟨i', m'', hrun, hend⟩ := ih (i + width) m' (by omega) hinv'
      exact ⟨i', m'', by simpa [hm'] using hrun, hend⟩

/-- Where the loops of `reserve_blocks` are: the first `i` blocks are marked. -/
structure Reserving (m₀ : Memory) (start num i : ℕ) (m : Memory) : Prop where
  le : i ≤ num
  marked : Marked m₀ m start (start + i)

lemma Reserving.clear (h : Reserving m start num i m')
    (hclear : ∀ j, start ≤ j → j < start + num → bit m j = false) (hj : start + i ≤ j)
    (hnum : j < start + num) : bit m' j = false := by
  rw [h.marked j, hclear j (by omega) hnum, decide_eq_false (by omega)]
  rfl

lemma Reserving.step {width : ℕ} {m0 : Memory} (h : Reserving m0 start num i m)
    (hle : i + width ≤ num) (hmarked : Marked m m'' (start + i) (start + i + width)) :
    Reserving m0 start num (i + width) m'' := ⟨hle, h.marked.trans hmarked⟩

/-- Bit by bit to the next byte, byte by byte, and bit by bit again. -/
lemma reserveBits_eq (hclear : ∀ j, start ≤ j → j < start + num → bit m j = false) :
    ∃ m', reserveBits m start num = .ok (num, m') ∧ Marked m m' start (start + num) := by
  have hbit : ∀ i m', i < num → Reserving m start num i m' →
      ∃ m'', bitmap_set_bit m' (start + i) = (false, m'') ∧ Reserving m start num (i + 1) m'' := by
    intro i m' hi hres
    obtain ⟨m'', heq, hmarked⟩ := bitmap_set_bit_eq (hres.clear hclear le_rfl (by omega))
    exact ⟨m'', heq, hres.step (by omega) hmarked⟩
  obtain ⟨i1, m1, hrun1, hres1, hend1⟩ := reserveLoop_spec
    (fun i => decide (i < num ∧ (start + i) % 8 ≠ 0)) 1 bitmap_set_bit start num
    (Reserving m start num) one_pos
    (fun i hi => (of_decide_eq_true hi).1)
    (fun i m' hi => hbit i m' (of_decide_eq_true hi).1) num 0 m (by omega)
    ⟨Nat.zero_le _, Marked.refl m start⟩
  have hbyte1 : i1 < num → 8 ∣ start + i1 := by
    have := of_decide_eq_false hend1
    omega
  -- from here on, a block that is left is the first of a byte
  obtain ⟨i2, m2, hrun2, ⟨hres2, -⟩, -⟩ := reserveLoop_spec
    (fun i => decide (i + 8 ≤ num / 8 * 8)) 8 bitmap_set_8_bits start num
    (fun i m' => Reserving m start num i m' ∧ (i < num → 8 ∣ start + i)) (by decide)
    (fun i hi => (of_decide_eq_true hi).trans (Nat.div_mul_le_self _ _))
    (fun i m' hi ⟨hres, hbyte⟩ => by
      have hle : i + 8 ≤ num := (of_decide_eq_true hi).trans (Nat.div_mul_le_self _ _)
      obtain ⟨m'', heq, hmarked⟩ := bitmap_set_8_bits_eq (hbyte (by omega))
        fun j h1 h2 => hres.clear hclear h1 (by omega)
      refine ⟨m'', heq, hres.step hle hmarked, fun _ => ?_⟩
      omega)
    num i1 m1 (by omega) ⟨hres1, hbyte1⟩
  obtain ⟨i3, m3, hrun3, hres3, hend3⟩ := reserveLoop_spec
    (fun i => decide (i < num)) 1 bitmap_set_bit start num (Reserving m start num) one_pos
    (fun i hi => of_decide_eq_true hi)
    (fun i m' hi => hbit i m' (of_decide_eq_true hi)) num i2 m2 (by omega) hres2
  have hend : i3 = num := le_antisymm hres3.le (not_lt.mp (of_decide_eq_false hend3))
  rw [hend] at hrun3 hres3
  refine ⟨m3, ?_, hres3.marked⟩
  simp only [reserveBits, hrun1, bind, Except.bind, hrun2, hrun3]

lemma bit_foldl_clear (stop : ℕ) : ∀ (num : ℕ) (m : Memory) (j : ℕ), num ≤ stop →
    bit ((List.range num).foldl (fun m i => clear m (stop - 1 - i)) m) j =
      (!decide (stop - num ≤ j ∧ j < stop) && bit m j) := by
  intro num
  induction num with
  | zero =>
    intro m j _
    simp [show ¬ (stop ≤ j ∧ j < stop) by omega]
  | succ num ih =>
    intro m j hnum
    rw [List.range_succ, List.foldl_append, List.foldl_cons, List.foldl_nil, bit_clear,
      ih m j (by omega), ← Bool.and_assoc, ← Bool.not_or, ← Bool.decide_or]
    congr 3
    rw [eq_iff_iff]
    omega

/-! ## Groups whose free blocks are a range -/

namespace BlockGroup

variable {bg : BlockGroup} {n : ℕ} (force : Bool) {len : ℕ}

/-- The zero bits below `n` are the free blocks, from the first of them on. -/
structure Ranged (bg : BlockGroup) (n : ℕ) : Prop where
  bits : ClearBetween bg.block_bitmap n bg.first_free_block (bg.first_free_block + bg.free_blocks)
  le : bg.first_free_block + bg.free_blocks ≤ n

/-- The group after its first `len` free blocks were taken: all that is left to say about it. -/
structure Takes (bg : BlockGroup) (n len : ℕ) (bg' : BlockGroup) : Prop where
  ranged : bg'.Ranged n
  first_block : bg'.first_block = bg.first_block
  header_blocks : bg'.header_blocks = bg.header_blocks
  free_blocks : bg'.free_blocks = bg.free_blocks - len
  first_free_block : bg'.first_free_block = bg.first_free_block + len

/-- Blocks that are free can be reserved. -/
lemma reserve_blocks_of_clear (start : ℕ) (hlen : len ≤ bg.free_blocks)
    (hclear : ∀ j, start ≤ j → j < start + len → bit bg.block_bitmap j = false) :
    ∃ m', Marked bg.block_bitmap m' start (start + len) ∧
      reserve_blocks force bg start len = some (true, { bg with
        block_bitmap := m'
        free_blocks := bg.free_blocks - len
        first_free_block := if start = bg.first_free_block then start + len
          else bg.first_free_block }) := by
  obtain ⟨m', hrun, hmarked⟩ := reserveBits_eq hclear
  exact ⟨m', hmarked, by simp only [reserve_blocks, if_neg (not_lt.mpr hlen), hrun]⟩

lemma reserve_blocks_eq (h : bg.Ranged n) (hlen : len ≤ bg.free_blocks) :
    ∃ bg', reserve_blocks force bg bg.first_free_block len = some (true, bg') ∧
      bg.Takes n len bg' ∧ bg'.data_blocks_used = bg.data_blocks_used := by
  have hle := h.le
  obtain ⟨m', hmarked, hrun⟩ := reserve_blocks_of_clear force bg.first_free_block hlen
    fun j h1 h2 => (h.bits j (by omega)).mpr ⟨h1, by omega⟩
  rw [if_pos rfl] at hrun
  refine ⟨_, hrun, ⟨⟨fun b hb => ?_, ?_⟩, rfl, rfl, rfl, rfl⟩, rfl⟩
  · dsimp only
    rw [hmarked b, Bool.or_eq_false_iff, h.bits b hb, decide_eq_false_iff_not]
    omega
  · dsimp only
    omega

/-- Blocks at the end of the range are marked, too. -/
lemma reserve_blocks_end (h : bg.Ranged n) (hlen : len ≤ bg.free_blocks) :
    ∃ bg', reserve_blocks force bg (bg.first_free_block + bg.free_blocks - len) len =
        some (true, bg') ∧
      bg'.Ranged n ∧ bg'.first_block = bg.first_block ∧ bg'.header_blocks = bg.header_blocks ∧
      bg'.free_blocks = bg.free_blocks - len ∧ bg.first_free_block ≤ bg'.first_free_block ∧
      (0 < bg'.free_blocks → bg'.first_free_block = bg.first_free_block) := by
  have hle := h.le
  obtain ⟨m', hmarked, hrun⟩ := reserve_blocks_of_clear force
    (bg.first_free_block + bg.free_blocks - len) hlen
    fun j h1 h2 => (h.bits j (by omega)).mpr (by omega)
  refine ⟨_, hrun, ⟨fun b hb => ?_, ?_⟩, rfl, rfl, rfl, ?_, ?_⟩
  · dsimp only
    rw [hmarked b, Bool.or_eq_false_iff, h.bits b hb, decide_eq_false_iff_not]
    split_ifs <;> omega
  all_goals
    dsimp only
    split_ifs <;> omega

/-- Nothing happens when nothing is reserved. -/
lemma reserve_blocks_zero (bg : BlockGroup) :
    reserve_blocks force bg bg.first_free_block 0 = some (true, bg) := by
  simp [reserve_blocks, reserveBits, reserveLoop, bind, Except.bind]

lemma reserve_blocks_of_lt (hlen : bg.free_blocks < len) :
    reserve_blocks force bg start len = some (false, bg) := if_pos hlen

/-- Blocks given back: the range grows at the front. -/
lemma ranged_free_blocks (h : bg.Ranged n) (hlen : len ≤ bg.first_free_block) :
    (Ext4.free_blocks bg len).Ranged n := by
  have hle := h.le
  refine ⟨fun b hb => ?_, ?_⟩
  · simp only [Ext4.free_blocks]
    have hbit := bit_foldl_clear bg.first_free_block len bg.block_bitmap b hlen
    rw [hbit, Bool.and_eq_false_iff, h.bits b hb]
    simp
    omega
  · simp only [Ext4.free_blocks]
    omega

end BlockGroup

end Droid.Ext4
