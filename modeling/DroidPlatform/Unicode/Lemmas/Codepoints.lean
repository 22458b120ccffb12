import DroidPlatform.Core.Utf
import DroidPlatform.Unicode.Unicode

/-!
# Code points, in the arithmetic of the standard

What the bit operations on single code points come to: the encoders write what the standard says
(`codepointBytes_scalar`, `codepointUnits_scalar`, `pairCodepoint_of_low`), and the two decoders, one
with a packed table of lengths and one with a shifting mask, find the code point again
(`decode_scalar`, `utf32_at_internal_scalar`).
-/

namespace Droid

open Nat

namespace Unicode

/-! ## Bits -/

lemma and_shiftLeft (n m k : ℕ) : n &&& (m <<< k) = ((n >>> k) &&& m) <<< k := by
  refine eq_of_testBit_eq fun i => ?_
  by_cases h : k ≤ i
  · simp [h]
  · simp [h]

variable {n : ℕ}

/-- The upper six bits of a 16-bit unit. -/
lemma and_fc00 (h : n < 65536) : n &&& 0xFC00 = n / 1024 * 1024 := by
  have hmask : 0xFC00 = (2 ^ 6 - 1) <<< 10 := rfl
  rw [hmask, and_shiftLeft, and_two_pow_sub_one_eq_mod]
  omega

lemma isHigh_iff (u : UInt16) : isHigh u = true ↔ IsHighSurrogate u := by
  have hlt := u.toNat_lt
  rw [isHigh, IsHighSurrogate, decide_eq_true_iff, and_fc00 hlt]
  omega

lemma isLow_iff (u : UInt16) : isLow u = true ↔ IsLowSurrogate u := by
  have hlt := u.toNat_lt
  rw [isLow, IsLowSurrogate, decide_eq_true_iff, and_fc00 hlt]
  omega

/-- The mark is set, and six bits are kept. -/
lemma or_kByteMark_and_kByteMask (n : ℕ) : (n ||| kByteMark) &&& kByteMask = 0x80 + n % 64 := by
  have hmark : (n ||| 0x80) &&& 0x80 = 0x80 := by
    refine eq_of_testBit_eq fun i => ?_
    simp only [testBit_and, testBit_or]
    cases testBit 0x80 i <;> simp
  have hbits : (n ||| 0x80) &&& (2 ^ 6 - 1) = n % 64 := by
    rw [and_or_distrib_right, and_two_pow_sub_one_eq_mod]
    exact or_zero _
  have hlt : n % 64 < 2 ^ 7 := by omega
  calc (n ||| kByteMark) &&& kByteMask
    _ = (n ||| 0x80) &&& (0x80 ||| (2 ^ 6 - 1)) := rfl
    _ = 0x80 ||| n % 64 := by rw [and_or_distrib_left, hmark, hbits]
    _ = 1 <<< 7 ||| n % 64 := rfl
    _ = 0x80 + n % 64 := (shiftLeft_add_eq_or_of_lt hlt 1).symm

lemma or_firstByteMark_two : ∀ n < 0x20, n ||| kFirstByteMark 2 = 0xC0 + n := by decide

lemma or_firstByteMark_three : ∀ n < 0x10, n ||| kFirstByteMark 3 = 0xE0 + n := by decide

lemma or_firstByteMark_four : ∀ n < 0x08, n ||| kFirstByteMark 4 = 0xF0 + n := by decide

/-! ## Encoding -/

variable (c : Scalar) {u : UInt16}

/-- **A scalar value is written** as the standard says. -/
theorem codepointBytes_scalar : codepointBytes c.val = c.utf8 := by
  have hscalar := c.isScalar
  rw [codepointBytes, utf32_codepoint_utf8_length, Scalar.utf8]
  split_ifs with h1 h2 h3 h4 h5
  · simp [utf32_codepoint_to_utf8, emit, kFirstByteMark]
  · have hfirst := or_firstByteMark_two (c.val / 64) (by omega)
    simp [utf32_codepoint_to_utf8, emit, or_kByteMark_and_kByteMask, shiftRight_eq_div_pow, hfirst]
  · have hfirst := or_firstByteMark_three (c.val / 4096) (by omega)
    simp [utf32_codepoint_to_utf8, emit, or_kByteMark_and_kByteMask, shiftRight_eq_div_pow,
      hfirst, Nat.div_div_eq_div_mul]
  · simp only [kUnicodeSurrogateStart, kUnicodeSurrogateEnd] at h4
    omega
  · have hfirst := or_firstByteMark_four (c.val / 262144) (by omega)
    simp [utf32_codepoint_to_utf8, emit, or_kByteMark_and_kByteMask, shiftRight_eq_div_pow,
      hfirst, Nat.div_div_eq_div_mul]
  · simp only [kUnicodeMaxCodepoint] at h5
    omega

/-- A scalar value is split into units as the standard says. -/
theorem codepointUnits_scalar : codepointUnits c.val = c.utf16 := by
  rw [codepointUnits, Scalar.utf16]
  by_cases h : c.val < 0x10000
  · rw [if_pos (by omega), if_pos h]
  · have hmask : ∀ n, n &&& 0x3FF = n % 1024 := fun n => and_two_pow_sub_one_eq_mod n 10
    rw [if_neg (by omega), if_neg h]
    simp [hmask, shiftRight_eq_div_pow, add_comm]

/-- A pair of surrogates stands for a scalar value. -/
theorem pairCodepoint_of_low {v : UInt16} (hu : IsHighSurrogate u) (hv : IsLowSurrogate v) :
    pairCodepoint u v = 0x10000 + (u.toNat - 0xD800) * 1024 + (v.toNat - 0xDC00) := by
  obtain ⟨hu, hu'⟩ := hu
  obtain ⟨hv, hv'⟩ := hv
  have hword : toWord (v.toNat - 0xDC00) = v.toNat - 0xDC00 := by
    rw [toWord]
    omega
  have hlt : v.toNat - 0xDC00 < 2 ^ 10 := by omega
  rw [pairCodepoint, hword, ← shiftLeft_add_eq_or_of_lt hlt, toUInt32]
  omega

/-! ## Decoding -/

/-- The packed table of lengths. -/
lemma utf8_codepoint_len_eq (ch : UInt8) : utf8_codepoint_len ch =
    if ch.toNat < 0xC0 then 1 else if ch.toNat < 0xE0 then 2 else if ch.toNat < 0xF0 then 3 else 4 := by
  have htable : ∀ n < 256, ((0xe5000000 >>> ((n >>> 3) &&& 0x1e)) &&& 3) + 1 =
      if n < 0xC0 then 1 else if n < 0xE0 then 2 else if n < 0xF0 then 3 else 4 := by
    decide +kernel
  exact htable ch.toNat ch.toNat_lt

/-- Six bits more. -/
lemma utf8_shift_and_mask_eq (h : n < 2 ^ 26) (byte : UInt8) :
    utf8_shift_and_mask n byte = n * 64 + byte.toNat % 64 := by
  have hlt : byte.toNat % 64 < 2 ^ 6 := by omega
  have hmask : 0x3F &&& byte.toNat = byte.toNat % 64 := by
    rw [Nat.and_comm]
    exact and_two_pow_sub_one_eq_mod _ 6
  have hshift : n <<< 6 < 2 ^ 32 := by
    omega
  rw [utf8_shift_and_mask, hmask, toUInt32_eq_self hshift, ← shiftLeft_add_eq_or_of_lt hlt,
    shiftLeft_eq]

variable (behind : ℕ → Option UInt8) (rest : List UInt8) {src : List UInt8}
  {first fuel ignore k mask utf32 : ℕ}

@[simp] lemma peek_zero (b : UInt8) (src : List UInt8) : peek behind (b :: src) 0 = some b := rfl

/-- **The table finds a scalar value**: its length, and its value. -/
theorem decode_scalar : ∃ first, peek behind (c.utf8 ++ rest) 0 = some first ∧
    utf8_codepoint_len first = c.utf8.length ∧
    utf8_to_utf32_codepoint behind (c.utf8 ++ rest) c.utf8.length = some c.val := by
  have hone : ∀ n, n &&& 0x1f = n % 32 := fun n => and_two_pow_sub_one_eq_mod n 5
  have htwo : ∀ n, n &&& 0x0f = n % 16 := fun n => and_two_pow_sub_one_eq_mod n 4
  have hthree : ∀ n, n &&& 0x07 = n % 8 := fun n => and_two_pow_sub_one_eq_mod n 3
  rcases c.utf8_cases with ⟨a, hutf8, ha, hval⟩ | ⟨a, b, hutf8, ha, hb, hval⟩ |
    ⟨a, b, d, hutf8, ha, hb, hd, hval⟩ | ⟨a, b, d, e, hutf8, ha, hb, hd, he, hval⟩
  all_goals
    rw [hutf8, hval]
    refine ⟨a, rfl, ?_, ?_⟩
    · rw [utf8_codepoint_len_eq]
      simp only [List.length_cons, List.length_nil]
      split_ifs <;> omega
  · rfl
  · obtain ⟨hb, hb'⟩ := hb
    have h1 := utf8_shift_and_mask_eq (n := a.toNat % 32) (by omega) b
    show some (utf8_shift_and_mask (a.toNat &&& 0x1f) b) = _
    rw [hone]
    exact congrArg some (by omega)
  · obtain ⟨⟨hb, hb'⟩, hd, hd'⟩ := And.intro hb hd
    have h1 := utf8_shift_and_mask_eq (n := a.toNat % 16) (by omega) b
    show some (utf8_shift_and_mask (utf8_shift_and_mask (a.toNat &&& 0x0f) b) d) = _
    rw [htwo, utf8_shift_and_mask_eq (by omega)]
    exact congrArg some (by omega)
  · obtain ⟨⟨hb, hb'⟩, ⟨hd, hd'⟩, he, he'⟩ := And.intro hb (And.intro hd he)
    have h1 := utf8_shift_and_mask_eq (n := a.toNat % 8) (by omega) b
    have h2 := utf8_shift_and_mask_eq (n := a.toNat % 8 * 64 + b.toNat % 64) (by omega) d
    show some (utf8_shift_and_mask (utf8_shift_and_mask
      (utf8_shift_and_mask (a.toNat &&& 0x07) b) d) e) = _
    rw [hthree, h1, utf8_shift_and_mask_eq (by omega)]
    exact congrArg some (by omega)

/-! The mask of `utf32_at_internal` meets as many ones as the character has bytes. -/

lemma mask_one : ∀ n < 128, n &&& 0x80 = 0 := by decide +kernel

lemma mask_two : ∀ n < 256, 0xC0 ≤ n → n < 0xE0 →
    n &&& 0x80 ≠ 0 ∧ n &&& 0x40 ≠ 0 ∧ n &&& 0x20 = 0 := by decide +kernel

lemma mask_three : ∀ n < 256, 0xE0 ≤ n → n < 0xF0 →
    n &&& 0x80 ≠ 0 ∧ n &&& 0x40 ≠ 0 ∧ n &&& 0x20 ≠ 0 ∧ n &&& 0x10 = 0 := by decide +kernel

lemma mask_four : ∀ n < 256, 0xF0 ≤ n → n < 0xF8 →
    n &&& 0x80 ≠ 0 ∧ n &&& 0x40 ≠ 0 ∧ n &&& 0x20 ≠ 0 ∧ n &&& 0x10 ≠ 0 ∧ n &&& 0x08 = 0 := by
  decide +kernel

/-- The loop starts with the first byte of several. -/
lemma utf32_at_internal_of_lead {a : UInt8} (h : a.toNat &&& 0x80 ≠ 0) :
    utf32_at_internal behind (a :: src) =
      utf32AtLoop behind (a :: src) a.toNat 8 1 0x40 0xFFFFFF80 a.toNat := by
  simp [utf32_at_internal, h]

/-- One byte more is read. -/
lemma utf32AtLoop_step (byte : UInt8) (hmask : first &&& mask ≠ 0)
    (hbyte : peek behind src k = some byte) (hlt : utf32 < 2 ^ 26) :
    utf32AtLoop behind src first (fuel + 1) k mask ignore utf32 =
      utf32AtLoop behind src first fuel (k + 1) (mask >>> 1) (ignore ||| mask)
        (utf32 * 64 + byte.toNat % 64) := by
  have hbits : byte.toNat &&& 0x3F = byte.toNat % 64 := and_two_pow_sub_one_eq_mod _ 6
  rw [utf32AtLoop, if_pos hmask, hbyte, Option.bind_eq_bind, Option.bind_some, shiftLeft_eq,
    hbits, toUInt32_eq_self (by omega)]

/-- The last byte was read: `n` low bits are kept. -/
lemma utf32AtLoop_done (n : ℕ) (hmask : first &&& mask = 0)
    (hkept : 0xFFFFFFFF - toUInt32 ((ignore ||| mask) <<< (6 * (k - 1))) = 2 ^ n - 1) :
    utf32AtLoop behind src first (fuel + 1) k mask ignore utf32 = some (utf32 % 2 ^ n, k) := by
  rw [utf32AtLoop, if_neg (not_not.mpr hmask)]
  simp [hkept]

/-- **The shifting mask finds a scalar value.** -/
theorem utf32_at_internal_scalar :
    utf32_at_internal behind (c.utf8 ++ rest) = some (c.val, c.utf8.length) := by
  rcases c.utf8_cases with ⟨a, hutf8, ha, hval⟩ | ⟨a, b, hutf8, ha, hb, hval⟩ |
    ⟨a, b, d, hutf8, ha, hb, hd, hval⟩ | ⟨a, b, d, e, hutf8, ha, hb, hd, he, hval⟩
  · have hzero : a.toNat &&& 0x80 = 0 := mask_one a.toNat (by omega)
    rw [hutf8, hval]
    simp [utf32_at_internal, hzero]
  · obtain ⟨h80, h40, h20⟩ := mask_two a.toNat a.toNat_lt ha.1 ha.2
    obtain ⟨hb, hb'⟩ := hb
    rw [hutf8]
    refine (utf32_at_internal_of_lead behind h80).trans ?_
    refine (utf32AtLoop_step behind b h40 rfl (by omega)).trans ?_
    refine (utf32AtLoop_done behind 11 h20 rfl).trans ?_
    exact congrArg some (Prod.ext (by show _ = _; omega) rfl)
  · obtain ⟨h80, h40, h20, h10⟩ := mask_three a.toNat a.toNat_lt ha.1 ha.2
    obtain ⟨⟨hb, hb'⟩, hd, hd'⟩ := And.intro hb hd
    rw [hutf8]
    refine (utf32_at_internal_of_lead behind h80).trans ?_
    refine (utf32AtLoop_step behind b h40 rfl (by omega)).trans ?_
    refine (utf32AtLoop_step behind d h20 rfl (by omega)).trans ?_
    refine (utf32AtLoop_done behind 16 h10 rfl).trans ?_
    exact congrArg some (Prod.ext (by show _ = _; omega) rfl)
  · obtain ⟨h80, h40, h20, h10, h08⟩ := mask_four a.toNat a.toNat_lt ha.1 ha.2
    obtain ⟨⟨hb, hb'⟩, ⟨hd, hd'⟩, he, he'⟩ := And.intro hb (And.intro hd he)
    rw [hutf8]
    refine (utf32_at_internal_of_lead behind h80).trans ?_
    refine (utf32AtLoop_step behind b h40 rfl (by omega)).trans ?_
    refine (utf32AtLoop_step behind d h20 rfl (by omega)).trans ?_
    refine (utf32AtLoop_step behind e h10 rfl (by omega)).trans ?_
    refine (utf32AtLoop_done behind 21 h08 rfl).trans ?_
    exact congrArg some (Prod.ext (by show _ = _; omega) rfl)

/-! ## The loop of `utf16_to_utf8` -/

section Loop

variable (behind16 : ℕ → Option UInt16)

lemma utf16ToUtf8Loop_unit (h : ¬IsHighSurrogate u) (src : List UInt16) :
    utf16ToUtf8Loop behind16 (u :: src) =
      (utf16ToUtf8Loop behind16 src).map (codepointBytes u.toNat ++ ·) := by
  have hhigh : isHigh u = false := by rw [← Bool.not_eq_true, isHigh_iff]; exact h
  cases src with
  | nil => simp [utf16ToUtf8Loop, hhigh]
  | cons next src =>
    rw [utf16ToUtf8Loop, hhigh]
    cases utf16ToUtf8Loop behind16 (next :: src) <;> rfl

lemma utf16ToUtf8Loop_pair (h : IsHighSurrogate u) (v : UInt16) (src : List UInt16) :
    utf16ToUtf8Loop behind16 (u :: v :: src) =
      (utf16ToUtf8Loop behind16 src).map (codepointBytes (pairCodepoint u v) ++ ·) := by
  rw [utf16ToUtf8Loop, if_pos ((isHigh_iff u).mpr h)]
  cases utf16ToUtf8Loop behind16 src <;> rfl

end Loop

end Unicode

end Droid
