import Mathlib.Tactic
import Mathlib.Data.Nat.Size

/-!
# Machine integers

`int32_t` values are integers in `[-2^31, 2^31)`, `uint32_t` and 32-bit `size_t` values are natural
numbers below `2^32`, and arithmetic on them is integer arithmetic followed by the wrap.

`Smears` is what the usual rounding up to a power of two does to the bits of a word.
-/

namespace Droid

open Nat

/-- Two's-complement wrap to `int32_t`. -/
def toInt32 (x : ℤ) : ℤ := Int.bmod x (2 ^ 32)

/-- The values an `int32_t` can hold. -/
def IsInt32 (x : ℤ) : Prop := -2 ^ 31 ≤ x ∧ x < 2 ^ 31

instance (x : ℤ) : Decidable (IsInt32 x) := inferInstanceAs (Decidable (_ ∧ _))

/-- A sum that fits is not wrapped. -/
lemma toInt32_eq_self {x : ℤ} (h : IsInt32 x) : toInt32 x = x := by
  obtain ⟨h1, h2⟩ := h
  exact Int.bmod_eq_of_le (by norm_num; omega) (by norm_num; omega)

/-- Wrap to `uint32_t` and to a 32-bit `size_t`. -/
def toUInt32 (n : ℕ) : ℕ := n % 2 ^ 32

lemma toUInt32_lt (n : ℕ) : toUInt32 n < 2 ^ 32 := mod_lt _ (by norm_num)

lemma toUInt32_eq_self {n : ℕ} (h : n < 2 ^ 32) : toUInt32 n = n := mod_eq_of_lt h

/-- A sum of two words wraps at most once. -/
lemma toUInt32_eq_sub {n : ℕ} (h : 2 ^ 32 ≤ n) (h' : n < 2 * 2 ^ 32) : toUInt32 n = n - 2 ^ 32 := by
  rw [toUInt32]
  omega

/-- Wrap to `uint64_t`. -/
def toUInt64 (n : ℕ) : ℕ := n % 2 ^ 64

lemma toUInt64_eq_self {n : ℕ} (h : n < 2 ^ 64) : toUInt64 n = n := mod_eq_of_lt h

@[simp] lemma toUInt64_add_toUInt64 (m n : ℕ) : toUInt64 (m + toUInt64 n) = toUInt64 (m + n) :=
  add_mod_mod m n _

@[simp] lemma toUInt64_toUInt64_add (m n : ℕ) : toUInt64 (toUInt64 m + n) = toUInt64 (m + n) :=
  mod_add_mod m _ n

/-- The bits of an `int32_t` taken as a `uint32_t`. -/
def toWord (x : ℤ) : ℕ := (x % 2 ^ 32).toNat

/-- A difference that fits is not wrapped. -/
lemma toWord_sub {m n : ℕ} (hle : n ≤ m) (hlt : m - n < 2 ^ 32) : toWord ((m : ℤ) - n) = m - n := by
  rw [toWord]
  omega

/-! ## Smearing bits -/

/-- Bit `i` of `x` says whether one of the `w` bits of `u` from `i` on is set. -/
def Smears (w x u : ℕ) : Prop := ∀ i, x.testBit i = true ↔ ∃ j < w, u.testBit (i + j) = true

namespace Smears

lemma self (u : ℕ) : Smears 1 u u := fun i => by simp

lemma double {w x u : ℕ} (h : Smears w x u) : Smears (2 * w) (x ||| x >>> w) u := by
  intro i
  rw [testBit_or, testBit_shiftRight, Bool.or_eq_true, h i, h (w + i)]
  constructor
  · rintro (⟨j, hj, hbit⟩ | ⟨j, hj, hbit⟩)
    · exact ⟨j, by omega, hbit⟩
    · exact ⟨w + j, by omega, by rwa [← add_assoc, add_comm i]⟩
  · rintro ⟨j, hj, hbit⟩
    rcases lt_or_ge j w with hlt | hge
    · exact .inl ⟨j, hlt, hbit⟩
    · refine .inr ⟨j - w, by omega, ?_⟩
      rwa [show w + i + (j - w) = i + j by omega]

/-- Smeared over its whole width a number is all ones. -/
lemma eq_two_pow_sub_one {w x u : ℕ} (h : Smears w x u) (hu : u < 2 ^ w) : x = 2 ^ u.size - 1 := by
  refine eq_of_testBit_eq fun i => ?_
  rw [testBit_two_pow_sub_one, Bool.eq_iff_iff, h i, decide_eq_true_iff, lt_size]
  constructor
  · rintro ⟨j, _, hbit⟩
    exact (Nat.pow_le_pow_right two_pos (le_add_right i j)).trans (ge_two_pow_of_testBit hbit)
  · intro hle
    obtain ⟨j, hj, hbit⟩ := exists_ge_and_testBit_of_ge_two_pow hle
    have hlt : j < w := (Nat.pow_lt_pow_iff_right one_lt_two).mp
      ((ge_two_pow_of_testBit hbit).trans_lt hu)
    exact ⟨j - i, by omega, by rwa [Nat.add_sub_cancel' hj]⟩

end Smears

end Droid
