import DroidPlatform.Core.Bytes

/-!
# Bitmaps

Bits in a block of bytes, the lowest bit of a byte first, and what the usual operations on bytes do to
them: one bit is set, eight bits that make a byte are set, one bit is cleared.

`ClearBetween m n lo hi` says that the bits below `n` that are zero are those from `lo` to `hi`.
-/

namespace Droid.Bitmap

open Function Nat

variable {m m' : Memory} {n lo hi i j : ℕ}

/-- `1 << (i % 8)`. -/
def mask (i : ℕ) : UInt8 := 1 <<< UInt8.ofNat (i % 8)

/-- `bitmap[i / 8] & 1 << (i % 8)`. -/
def bit (m : Memory) (i : ℕ) : Bool := m (i / 8) &&& mask i != 0

/-- `bitmap[i / 8] |= 1 << (i % 8)`. -/
def set (m : Memory) (i : ℕ) : Memory := Function.update m (i / 8) (m (i / 8) ||| mask i)

/-- `bitmap[i / 8] = 0xFF`. -/
def setByte (m : Memory) (i : ℕ) : Memory := Function.update m (i / 8) 0xFF

/-- `bitmap[i / 8] &= ~(1 << (i % 8))`. -/
def clear (m : Memory) (i : ℕ) : Memory := Function.update m (i / 8) (m (i / 8) &&& ~~~ mask i)

/-! ## Bits of a byte -/

lemma getLsbD_mask (i j : ℕ) : (mask i).toBitVec.getLsbD (j % 8) = decide (j % 8 = i % 8) := by
  have hmask : ∀ k j : Fin 8, (mask k).toBitVec.getLsbD j = decide (j = k) := by decide
  have h := hmask ⟨i % 8, mod_lt _ (by decide)⟩ ⟨j % 8, mod_lt _ (by decide)⟩
  have hmod : mask (i % 8) = mask i := by rw [mask, mask, mod_mod]
  rw [← hmod]
  simpa using h

lemma and_mask_bne_zero (x : UInt8) (i : ℕ) :
    (x &&& mask i != 0) = x.toBitVec.getLsbD (i % 8) := by
  rw [Bool.eq_iff_iff, bne_iff_ne, ne_eq, ← UInt8.toBitVec_inj, not_iff_comm, UInt8.toBitVec_and]
  constructor
  · intro hbit
    refine BitVec.eq_of_getLsbD_eq fun j hj => ?_
    have hmask := getLsbD_mask i j
    rw [mod_eq_of_lt hj] at hmask
    rw [BitVec.getLsbD_and, hmask]
    by_cases hji : j = i % 8
    · simp [hji, Bool.not_eq_true _ ▸ hbit]
    · simp [hji]
  · intro hzero hbit
    have hbit' := congrArg (fun v => v.getLsbD (i % 8)) hzero
    simp [hbit, getLsbD_mask] at hbit'

lemma bit_eq_getLsbD (m : Memory) (i : ℕ) : bit m i = (m (i / 8)).toBitVec.getLsbD (i % 8) :=
  and_mask_bne_zero _ _

/-! ## The operations -/

lemma bit_set (m : Memory) (i j : ℕ) : bit (set m i) j = (decide (j = i) || bit m j) := by
  rw [bit_eq_getLsbD, bit_eq_getLsbD, set]
  by_cases hbyte : j / 8 = i / 8
  · rw [hbyte, update_self, UInt8.toBitVec_or, BitVec.getLsbD_or, getLsbD_mask,
      Bool.or_comm]
    congr 2
    rw [eq_iff_iff]
    omega
  · rw [update_of_ne hbyte, decide_eq_false (by rintro rfl; exact hbyte rfl),
      Bool.false_or]

lemma bit_setByte (m : Memory) (hi : 8 ∣ i) (j : ℕ) :
    bit (setByte m i) j = (decide (i ≤ j ∧ j < i + 8) || bit m j) := by
  rw [bit_eq_getLsbD, bit_eq_getLsbD, setByte]
  by_cases hbyte : j / 8 = i / 8
  · have hones : ∀ k : Fin 8, (0xFF : UInt8).toBitVec.getLsbD k = true := by decide
    rw [hbyte, update_self, decide_eq_true (by omega)]
    exact hones ⟨j % 8, mod_lt _ (by decide)⟩
  · rw [update_of_ne hbyte, decide_eq_false (by omega), Bool.false_or]

lemma bit_clear (m : Memory) (i j : ℕ) : bit (clear m i) j = (!decide (j = i) && bit m j) := by
  rw [bit_eq_getLsbD, bit_eq_getLsbD, clear]
  by_cases hbyte : j / 8 = i / 8
  · have hlt : j % 8 < 8 := mod_lt _ (by decide)
    have hiff : j = i ↔ j % 8 = i % 8 := by omega
    rw [hbyte, update_self, UInt8.toBitVec_and, UInt8.toBitVec_not, BitVec.getLsbD_and,
      BitVec.getLsbD_not, getLsbD_mask, Bool.and_comm]
    simp [hlt, hiff]
  · rw [update_of_ne hbyte, decide_eq_false (by rintro rfl; exact hbyte rfl)]
    rfl

/-- A byte is zero when its bits are. -/
lemma eq_zero_of_forall_bit (hi : 8 ∣ i) (h : ∀ j, i ≤ j → j < i + 8 → bit m j = false) :
    m (i / 8) = 0 := by
  rw [← UInt8.toBitVec_inj]
  refine BitVec.eq_of_getLsbD_eq fun k hk => ?_
  have hbit := h (i + k) (le_add_right _ _) (Nat.add_lt_add_left hk _)
  rw [bit_eq_getLsbD, show (i + k) / 8 = i / 8 by omega, show (i + k) % 8 = k by omega] at hbit
  simp [hbit]

/-! ## A range of zeros -/

/-- The zero bits below `n` are those from `lo` to `hi`. -/
def ClearBetween (m : Memory) (n lo hi : ℕ) : Prop := ∀ b < n, bit m b = false ↔ lo ≤ b ∧ b < hi

lemma clearBetween_zero (n : ℕ) : ClearBetween (fun _ => 0) n 0 n := fun b hb => by
  simp [bit, hb]

/-- How many zero bits there are. -/
lemma ClearBetween.card (h : ClearBetween m n lo hi) (hn : hi ≤ n) :
    ((Finset.range n).filter fun b => bit m b = false).card = hi - lo := by
  have heq : ((Finset.range n).filter fun b => bit m b = false) = Finset.Ico lo hi := by
    ext b
    rw [Finset.mem_filter, Finset.mem_range, Finset.mem_Ico]
    exact ⟨fun hb => (h b hb.1).mp hb.2, fun hb => ⟨hb.2.trans_le hn, (h b (hb.2.trans_le hn)).mpr hb⟩⟩
  rw [heq, card_Ico]

end Droid.Bitmap
