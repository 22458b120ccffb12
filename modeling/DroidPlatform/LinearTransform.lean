import Mathlib.Data.Nat.Bitwise
import Mathlib.Tactic

/-!
# `LinearTransform`

A linear transformation between two coordinate systems of 64-bit values, with a factor that is a
quotient of 32-bit values.  The types are those of the source, so that all arithmetic wraps around.

`scale_u64_to_u64` multiplies and divides with 96 bits in between, by two long divisions
(`scale_spec`).  The magnitude is scaled, rounded up if the result will be negative, so that the value
is rounded down in any case.  What remains is to add the second base with a test for overflow.

The way back calls the same function with the two factors exchanged.  They have different types, and
a factor that changes its value with its type makes the result wrong
(`LinearTransform.doReverseTransform_exact_iff`).
-/

namespace Droid

open Option Nat UInt64 UInt32 Int64

/-- `ABS(int64_t)`; the smallest number is its own negative. -/
def ABS (x : Int64) : Int64 := if x < 0 then -x else x

/-- `ABS(int32_t)` -/
def ABS32 (x : Int32) : Int32 := if x < 0 then -x else x

def UINT32_MAX : UInt64 := 0xffffffff

def INT64_MIN : UInt64 := 0x8000000000000000

def INT64_MAX : UInt64 := 0x7fffffffffffffff

/-- `scale_u64_to_u64`; what it stores when it fails is not read. -/
def scale_u64_to_u64 (val : UInt64) (N D : UInt32) (round_up_not_down : Bool) : Option UInt64 :=
  let tmp2 := (val >>> 32) * N.toUInt64
  let tmp1 := (val &&& UINT32_MAX) * N.toUInt64
  let tmp2 := tmp2 + tmp1 >>> 32
  if D.toUInt64 ≤ tmp2 >>> 32 then none
  else
    let r := (tmp2 % D.toUInt64).toUInt32
    let tmp2 := tmp2 / D.toUInt64
    let tmp1 := (tmp1 &&& UINT32_MAX) ||| r.toUInt64 <<< 32
    let r := (tmp1 % D.toUInt64).toUInt32
    let tmp1 := tmp1 / D.toUInt64
    let res := tmp2 <<< 32 ||| tmp1
    if r ≠ 0 ∧ round_up_not_down then
      if res + 1 = 0 then none else some (res + 1)
    else some res

/-- The end of `linear_transform_s64_to_s64`, behind the scaling. -/
def addBasis (scaled : UInt64) (is_neg : Bool) (basis2 : Int64) : Option Int64 :=
  if scaled &&& INT64_MIN ≠ 0 then
    if is_neg ∧ basis2 < 0 then none
    else if ¬is_neg ∧ 0 ≤ basis2 then none
    else if ABS basis2 ≤ (scaled &&& INT64_MAX).toInt64 then none
    else some ((if is_neg then -scaled else scaled) + basis2.toUInt64).toInt64
  else
    let scaled := if is_neg then -scaled else scaled
    let res := scaled + basis2.toUInt64
    if (scaled ^^^ basis2.toUInt64 ^^^ INT64_MIN) &&& (scaled ^^^ res) &&& INT64_MIN ≠ 0 then none
    else some res.toInt64

variable (val basis1 : Int64) (t : LinearTransform)

/-- `linear_transform_s64_to_s64`, with somewhere to store the result. -/
def linear_transform_s64_to_s64 (N : Int32) (D : UInt32) (basis2 : Int64) : Option Int64 := do
  let is_neg := decide (val < basis1)
  let abs_val := if val < basis1 then basis1 - val else val - basis1
  let is_neg := if N < 0 then !is_neg else is_neg
  let scaled ← scale_u64_to_u64 abs_val.toUInt64 (ABS32 N).toUInt32 D is_neg
  addBasis scaled is_neg basis2

structure LinearTransform where
  a_zero : Int64
  b_zero : Int64
  a_to_b_numer : Int32
  a_to_b_denom : UInt32

def LinearTransform.doForwardTransform (a_in : Int64) : Option Int64 :=
  if t.a_to_b_denom = 0 then none
  else linear_transform_s64_to_s64 a_in t.a_zero t.a_to_b_numer t.a_to_b_denom t.b_zero

/-! ## Scaling -/

/-- A quotient, rounded down or up. -/
def rounded (m d : ℕ) (up : Bool) : ℕ := m / d + if m % d ≠ 0 ∧ up then 1 else 0

variable (x : UInt64)

lemma and_uint32_max : (x &&& UINT32_MAX).toNat = x.toNat % 2 ^ 32 :=
  and_two_pow_sub_one_eq_mod x.toNat 32

lemma shiftRight_32 (x : UInt64) : (x >>> 32).toNat = x.toNat / 2 ^ 32 := by
  exact shiftRight_eq_div_pow _ _

/-- Two halves put together. -/
lemma toNat_pack {hi lo : UInt64} (hhi : hi.toNat < 2 ^ 32) (hlo : lo.toNat < 2 ^ 32) :
    (hi <<< 32 ||| lo).toNat = hi.toNat * 2 ^ 32 + lo.toNat := by
  have hshift : (hi <<< 32).toNat = 2 ^ 32 * hi.toNat := by
    rw [UInt64.toNat_shiftLeft, shiftLeft_eq, mul_comm]
    show 2 ^ 32 * hi.toNat % 2 ^ 64 = _
    exact mod_eq_of_lt (by omega)
  rw [UInt64.toNat_or, hshift, ← two_pow_add_eq_or_of_lt hlo, mul_comm]

/-- The two long divisions, of the upper 64 bits and of the rest with the lower 32 bits. -/
lemma long_division {h l d : ℕ} (hd : 0 < d) :
    (h * 2 ^ 32 + l) / d = h / d * 2 ^ 32 + (h % d * 2 ^ 32 + l) / d ∧
      (h * 2 ^ 32 + l) % d = (h % d * 2 ^ 32 + l) % d := by
  have hsplit : h * 2 ^ 32 + l = d * (h / d * 2 ^ 32) + (h % d * 2 ^ 32 + l) := by
    conv_lhs => rw [← div_add_mod h d]
    ring
  rw [hsplit]
  exact ⟨mul_add_div hd _ _, mul_add_mod _ _ _⟩

/-- The 96 bits of a product. -/
lemma product_split (val : UInt64) (N : UInt32) :
    ((val >>> 32) * N.toUInt64 + ((val &&& UINT32_MAX) * N.toUInt64) >>> 32).toNat * 2 ^ 32 +
      (((val &&& UINT32_MAX) * N.toUInt64) &&& UINT32_MAX).toNat = val.toNat * N.toNat := by
  have hN := N.toNat_lt
  have hval := val.toNat_lt
  have hhi : val.toNat / 2 ^ 32 * N.toNat ≤ (2 ^ 32 - 1) * (2 ^ 32 - 1) :=
    Nat.mul_le_mul (by omega) (by omega)
  have hlo : val.toNat % 2 ^ 32 * N.toNat ≤ (2 ^ 32 - 1) * (2 ^ 32 - 1) :=
    Nat.mul_le_mul (by omega) (by omega)
  have hprod : val.toNat * N.toNat =
      2 ^ 32 * (val.toNat / 2 ^ 32 * N.toNat) + val.toNat % 2 ^ 32 * N.toNat := by
    rw [← mul_assoc, ← add_mul, div_add_mod]
  simp only [UInt64.toNat_add, UInt64.toNat_mul, shiftRight_32, and_uint32_max, toNat_toUInt64]
  omega

/-- **Scaling** is exact, if the result has 64 bits. -/
theorem scale_spec (val : UInt64) (N : UInt32) {D : UInt32} (hD : D ≠ 0) (up : Bool) :
    (scale_u64_to_u64 val N D up).map UInt64.toNat =
      if rounded (val.toNat * N.toNat) D.toNat up < 2 ^ 64 then
        some (rounded (val.toNat * N.toNat) D.toNat up) else none := by
  have hd : 0 < D.toNat := pos_of_ne_zero fun h => hD (UInt32.toNat_inj.mp h)
  have hprod := product_split val N
  simp only [scale_u64_to_u64]
  generalize (val >>> 32) * N.toUInt64 + ((val &&& UINT32_MAX) * N.toUInt64) >>> 32 = tmp2 at *
  generalize (val &&& UINT32_MAX) * N.toUInt64 = tmp1 at *
  have hl : (tmp1 &&& UINT32_MAX).toNat < 2 ^ 32 := by
    rw [and_uint32_max]
    exact mod_lt _ (by norm_num)
  generalize tmp1 &&& UINT32_MAX = lo at *
  obtain ⟨hdiv, hmod⟩ := long_division (l := lo.toNat) hd
  rw [hprod] at hdiv hmod
  by_cases hover : D.toNat * 2 ^ 32 ≤ tmp2.toNat
  · -- the quotient has more than 64 bits already
    have hcheck : D.toUInt64 ≤ tmp2 >>> 32 := by
      rw [UInt64.le_iff_toNat_le, shiftRight_32]
      exact (le_div_iff_mul_le (by norm_num)).mpr hover
    have hlarge : 2 ^ 64 ≤ val.toNat * N.toNat / D.toNat := by
      refine (le_div_iff_mul_le hd).mpr ?_
      omega
    have hnot : ¬rounded (val.toNat * N.toNat) D.toNat up < 2 ^ 64 :=
      not_lt.mpr (hlarge.trans (le_add_right _ _))
    rw [if_pos hcheck, if_neg hnot]
    rfl
  · have hcheck : ¬D.toUInt64 ≤ tmp2 >>> 32 := by
      rw [UInt64.le_iff_toNat_le, shiftRight_32]
      exact fun h => hover ((le_div_iff_mul_le (by norm_num)).mp h)
    have hrest : tmp2.toNat % D.toNat < D.toNat := mod_lt _ hd
    have hDlt := D.toNat_lt
    have hr : (tmp2 % D.toUInt64).toUInt32.toUInt64.toNat = tmp2.toNat % D.toNat := by
      rw [toNat_toUInt64, toNat_toUInt32, UInt64.toNat_mod, toNat_toUInt64,
        mod_eq_of_lt (by omega)]
    have htmp1 : (lo ||| (tmp2 % D.toUInt64).toUInt32.toUInt64 <<< 32).toNat =
        tmp2.toNat % D.toNat * 2 ^ 32 + lo.toNat := by
      rw [UInt64.or_comm, toNat_pack (by omega) hl, hr]
    generalize lo ||| (tmp2 % D.toUInt64).toUInt32.toUInt64 <<< 32 = tmp1' at *
    have hquot : (tmp2 / D.toUInt64).toNat = tmp2.toNat / D.toNat := by
      rw [UInt64.toNat_div, toNat_toUInt64]
    have hquot' : (tmp1' / D.toUInt64).toNat = tmp1'.toNat / D.toNat := by
      rw [UInt64.toNat_div, toNat_toUInt64]
    have hres : ((tmp2 / D.toUInt64) <<< 32 ||| tmp1' / D.toUInt64).toNat =
        val.toNat * N.toNat / D.toNat := by
      rw [toNat_pack, hquot, hquot', htmp1, hdiv]
      · rw [hquot]
        exact (div_lt_iff_lt_mul hd).mpr (by omega)
      · rw [hquot']
        exact (div_lt_iff_lt_mul hd).mpr (by nlinarith)
    have hr' : (tmp1' % D.toUInt64).toUInt32 ≠ 0 ↔ val.toNat * N.toNat % D.toNat ≠ 0 := by
      rw [ne_eq, ← UInt32.toNat_inj, toNat_toUInt32, UInt64.toNat_mod, toNat_toUInt64,
        htmp1, ← hmod, mod_eq_of_lt ((mod_lt _ hd).trans hDlt)]
      rfl
    have hlt := hres ▸ toNat_lt ((tmp2 / D.toUInt64) <<< 32 ||| tmp1' / D.toUInt64)
    generalize (tmp2 / D.toUInt64) <<< 32 ||| tmp1' / D.toUInt64 = res at *
    simp only [if_neg hcheck, hr']
    by_cases hup : val.toNat * N.toNat % D.toNat ≠ 0 ∧ up = true
    · have hsucc : (res + 1).toNat = (val.toNat * N.toNat / D.toNat + 1) % 2 ^ 64 := by
        rw [UInt64.toNat_add, hres]
        rfl
      have hup' : rounded (val.toNat * N.toNat) D.toNat up = val.toNat * N.toNat / D.toNat + 1 := by
        rw [rounded, if_pos hup]
      rw [if_pos hup, hup']
      rcases lt_or_ge (val.toNat * N.toNat / D.toNat + 1) (2 ^ 64) with hfits | hwraps
      · rw [mod_eq_of_lt hfits] at hsucc
        have hne : res + 1 ≠ 0 := fun h => by simp [h] at hsucc
        rw [if_neg hne, if_pos hfits, map_some, hsucc]
      · have hzero : res + 1 = 0 := by
          rw [← UInt64.toNat_inj, hsucc, le_antisymm hlt hwraps]
          rfl
        rw [if_pos hzero, if_neg (not_lt.mpr hwraps)]
        rfl
    · have hdown : rounded (val.toNat * N.toNat) D.toNat up = val.toNat * N.toNat / D.toNat := by
        rw [rounded, if_neg hup, add_zero]
      rw [if_neg hup, hdown, if_pos hlt, map_some, hres]

/-! ## The sign and the base -/

lemma toInt_toInt64 : x.toInt64.toInt = Int.bmod x.toNat (2 ^ 64) :=
  x.toBitVec.toInt_eq_toNat_bmod

lemma toNat_toUInt64 (x : Int64) : (x.toUInt64.toNat : ℤ) = x.toInt % 2 ^ 64 := by
  have h : x.toInt = Int.bmod x.toUInt64.toNat (2 ^ 64) := x.toBitVec.toInt_eq_toNat_bmod
  have := x.toUInt64.toNat_lt
  rw [h, Int.bmod_def]
  split_ifs <;> omega

/-- The sign bit. -/
lemma testBit_63 : x.toNat.testBit 63 = true ↔ 2 ^ 63 ≤ x.toNat := by
  have := x.toNat_lt
  rw [testBit_eq_decide_div_mod_eq, decide_eq_true_iff]
  omega

lemma and_int64_min : x &&& INT64_MIN ≠ 0 ↔ x.toNat.testBit 63 = true := by
  have hand : (x &&& INT64_MIN).toNat = (x.toNat.testBit 63).toNat * 2 ^ 63 :=
    and_two_pow x.toNat 63
  rw [ne_eq, ← UInt64.toNat_inj, hand]
  cases x.toNat.testBit 63 <;> simp

lemma and_int64_max : (x &&& INT64_MAX).toNat = x.toNat % 2 ^ 63 :=
  and_two_pow_sub_one_eq_mod x.toNat 63

/-- The test for an overflow: the signs of the operands are alike, and that of the result is not. -/
lemma overflow_iff (x y r : UInt64) : (x ^^^ y ^^^ INT64_MIN) &&& (x ^^^ r) &&& INT64_MIN ≠ 0 ↔
    (2 ^ 63 ≤ x.toNat ↔ 2 ^ 63 ≤ y.toNat) ∧ ¬(2 ^ 63 ≤ x.toNat ↔ 2 ^ 63 ≤ r.toNat) := by
  rw [and_int64_min, UInt64.toNat_and, UInt64.toNat_xor, UInt64.toNat_xor, UInt64.toNat_xor,
    testBit_and, testBit_xor, testBit_xor, testBit_xor, ← testBit_63, ← testBit_63, ← testBit_63]
  cases x.toNat.testBit 63 <;> cases y.toNat.testBit 63 <;> cases r.toNat.testBit 63 <;> decide

/-- A sum, up to multiples of `2 ^ 64`. -/
lemma toInt64_add {x y : UInt64} {z : ℤ} (h : ((x.toNat : ℤ) + y.toNat) % 2 ^ 64 = z % 2 ^ 64) :
    (x + y).toInt64 = Int64.ofInt z := by
  rw [← toInt_inj, toInt_toInt64, toInt_ofInt, UInt64.toNat_add]
  show Int.bmod _ (2 ^ 64) = Int.bmod _ (2 ^ 64)
  rw [Int.bmod_def, Int.bmod_def]
  split_ifs <;> omega

lemma toInt_abs (x : Int64) : (ABS x).toInt =
    if 0 ≤ x.toInt then x.toInt else if x.toInt = -2 ^ 63 then -2 ^ 63 else -x.toInt := by
  have hle := x.le_toInt
  simp only [ABS, apply_ite toInt, toInt_neg, lt_iff_toInt_lt, toInt_zero,
    Int.bmod_def]
  split_ifs <;> omega

/-- A number that an `int64_t` can have. -/
def IsInt64 (x : ℤ) : Prop := -2 ^ 63 ≤ x ∧ x < 2 ^ 63
  deriving Decidable

/-- **The results that are missed**: a sum of `-2 ^ 63` with a scaled value that is no smaller a number
itself, and every sum of a large scaled value with the base `-2 ^ 63`. -/
def Missed (q basis2 : ℤ) : Prop :=
  (q ≤ -2 ^ 63 ∧ 0 ≤ basis2 ∧ q + basis2 = -2 ^ 63) ∨ (basis2 = -2 ^ 63 ∧ 2 ^ 63 ≤ q)
  deriving Decidable

/-- The base is added, if it is seen that the sum is in range. -/
lemma addBasis_spec (scaled : UInt64) (is_neg : Bool) (basis2 : Int64) {q : ℤ}
    (hq : q = if is_neg then -(scaled.toNat : ℤ) else scaled.toNat) :
    addBasis scaled is_neg basis2 =
      if IsInt64 (q + basis2.toInt) ∧ ¬Missed q basis2.toInt then
        some (Int64.ofInt (q + basis2.toInt)) else none := by
  have hs := scaled.toNat_lt
  have hb := basis2.toInt_lt
  have hb' := basis2.le_toInt
  have hbasis := toNat_toUInt64 basis2
  have hlow : (scaled &&& INT64_MAX).toInt64.toInt = (scaled.toNat % 2 ^ 63) := by
    rw [toInt_toInt64, and_int64_max, Int.bmod_def]
    split_ifs <;> omega
  have hsigned : ((if is_neg then -scaled else scaled).toNat) = q % 2 ^ 64 := by
    cases is_neg with
    | false =>
      simp only [Bool.false_eq_true, if_false] at hq ⊢
      omega
    | true =>
      simp only [if_true] at hq ⊢
      show (((2 ^ 64 - scaled.toNat) % 2 ^ 64 : ℕ) : ℤ) = _
      omega
  have hsum : ((if is_neg then -scaled else scaled) + basis2.toUInt64).toInt64 =
      Int64.ofInt (q + basis2.toInt) := toInt64_add (by omega)
  simp only [addBasis, overflow_iff]
  simp only [and_int64_min, testBit_63, lt_iff_toInt_lt, le_iff_toInt_le, hlow, toInt_abs,
    hsum, toInt_zero, UInt64.toNat_add]
  have hgood : IsInt64 (q + basis2.toInt) ∧ ¬Missed q basis2.toInt ↔
      (-2 ^ 63 ≤ q + basis2.toInt ∧ q + basis2.toInt < 2 ^ 63) ∧
        ¬(q ≤ -2 ^ 63 ∧ 0 ≤ basis2.toInt ∧ q + basis2.toInt = -2 ^ 63 ∨
          basis2.toInt = -2 ^ 63 ∧ 2 ^ 63 ≤ q) := Iff.rfl
  simp only [hgood]
  generalize (if is_neg then -scaled else scaled).toNat = signed at *
  cases is_neg <;> simp only [Bool.false_eq_true, if_true, if_false, true_and, false_and, not_true,
    not_false_eq_true] at hq ⊢
  all_goals split_ifs <;> first | rfl | (exfalso; omega)

/-! ## The transformation -/

/-- The exact scaled difference, rounded down. -/
def scaledDelta (N : Int32) (D : UInt32) : ℤ :=
  (val.toInt - basis1.toInt) * N.toInt / D.toNat

lemma ediv_eq_rounded (m : ℕ) {d : ℕ} (hd : 0 < d) (neg : Bool) :
    (if neg then -(m : ℤ) else m) / (d : ℤ) =
      if neg then -(rounded m d neg : ℤ) else rounded m d neg := by
  cases neg with
  | false => simp [rounded]
  | true =>
    have hsplit : d * (m / d) + (m % d) = m := by exact_mod_cast div_add_mod m d
    have hlt := mod_lt m hd
    simp only [if_true, rounded, and_true]
    split_ifs with hrest
    · refine ((Int.ediv_emod_unique (r := d - (m % d)) (by omega)).mpr ⟨?_, by omega, by omega⟩).1
      push_cast at hsplit ⊢
      linarith
    · refine ((Int.ediv_emod_unique (by omega)).mpr ⟨?_, le_rfl, by omega⟩).1
      rw [not_not.mp hrest] at hsplit
      push_cast at hsplit ⊢
      linarith

/-- The magnitude that is scaled. -/
lemma toNat_magnitude :
    ((if val < basis1 then basis1 - val else val - basis1).toUInt64.toNat : ℤ) =
      |val.toInt - basis1.toInt| := by
  have h1 := val.toInt_lt
  have h2 := val.le_toInt
  have h3 := basis1.toInt_lt
  have h4 := basis1.le_toInt
  rw [toNat_toUInt64, apply_ite toInt, toInt_sub, toInt_sub]
  simp only [lt_iff_toInt_lt, Int.bmod_def]
  rcases abs_cases (val.toInt - basis1.toInt) with ⟨habs, hsign⟩ | ⟨habs, hsign⟩ <;> rw [habs] <;>
    split_ifs <;> omega

lemma toNat_numerator (N : Int32) : ((ABS32 N).toUInt32.toNat : ℤ) = |N.toInt| := by
  have hle := N.le_toInt
  have hword : (ABS32 N).toInt = Int.bmod (ABS32 N).toUInt32.toNat (2 ^ 32) :=
    (ABS32 N).toBitVec.toInt_eq_toNat_bmod
  have hbound := (ABS32 N).toUInt32.toNat_lt
  generalize (ABS32 N).toUInt32.toNat = n at *
  simp only [ABS32, apply_ite Int32.toInt, Int32.toInt_neg, Int32.lt_iff_toInt_lt, Int32.toInt_zero,
    Int.bmod_def] at hword
  rcases abs_cases N.toInt with ⟨habs, hsign⟩ | ⟨habs, hsign⟩ <;> rw [habs] <;>
    split_ifs at hword <;> omega

/-- **The transformation** is exact, except that it misses some results. -/
theorem linear_transform_eq (val basis1 : Int64) (N : Int32) {D : UInt32} (hD : D ≠ 0)
    (basis2 : Int64) :
    linear_transform_s64_to_s64 val basis1 N D basis2 =
      if IsInt64 (scaledDelta val basis1 N D + basis2.toInt) ∧
          ¬Missed (scaledDelta val basis1 N D) basis2.toInt then
        some (Int64.ofInt (scaledDelta val basis1 N D + basis2.toInt)) else none := by
  have hd : 0 < D.toNat := pos_of_ne_zero fun h => hD (UInt32.toNat_inj.mp h)
  have hvalue := toNat_magnitude val basis1
  have hnumer := toNat_numerator N
  simp only [linear_transform_s64_to_s64]
  generalize (if val < basis1 then basis1 - val else val - basis1).toUInt64 = abs_val at *
  generalize (ABS32 N).toUInt32 = n at *
  -- the sign of the product, apart from its magnitude
  have hproduct : (val.toInt - basis1.toInt) * N.toInt =
      if (if N < 0 then !decide (val < basis1) else decide (val < basis1)) then
        -((abs_val.toNat * n.toNat : ℕ) : ℤ) else (abs_val.toNat * n.toNat : ℕ) := by
    push_cast
    rw [hvalue, hnumer]
    by_cases hval : val < basis1 <;> by_cases hN : N < 0 <;>
      simp only [hval, hN, decide_true, decide_false, Bool.not_true, Bool.not_false, if_true, if_false,
        Bool.false_eq_true] <;>
      rw [lt_iff_toInt_lt] at hval <;>
      rw [Int32.lt_iff_toInt_lt, Int32.toInt_zero] at hN
    · rw [abs_of_neg (by omega), abs_of_neg hN]
      ring
    · rw [abs_of_neg (by omega), abs_of_nonneg (by omega)]
      ring
    · rw [abs_of_nonneg (by omega), abs_of_neg hN]
      ring
    · rw [abs_of_nonneg (by omega), abs_of_nonneg (by omega)]
  generalize (if N < 0 then !decide (val < basis1) else decide (val < basis1)) = is_neg at *
  have hdelta := ediv_eq_rounded (abs_val.toNat * n.toNat) hd is_neg
  rw [← hproduct] at hdelta
  change scaledDelta val basis1 N D = _ at hdelta
  have hscale := scale_spec abs_val n hD is_neg
  by_cases hfits : rounded (abs_val.toNat * n.toNat) D.toNat is_neg < 2 ^ 64
  · rw [if_pos hfits] at hscale
    obtain ⟨scaled, hrun, hscaled⟩ := map_eq_some_iff.mp hscale
    rw [hrun]
    rw [← hscaled] at hdelta
    exact addBasis_spec scaled is_neg basis2 hdelta
  · rw [if_neg hfits, map_eq_none_iff] at hscale
    have hb := basis2.toInt_lt
    have hb' := basis2.le_toInt
    have hout : ¬IsInt64 (scaledDelta val basis1 N D + basis2.toInt) := by
      rw [hdelta, IsInt64]
      cases is_neg <;> simp only [Bool.false_eq_true] <;> omega
    rw [hscale, if_neg fun h => hout h.1]
    rfl

/-- **A transformation that succeeds is exact.** -/
theorem LinearTransform.doForwardTransform_eq (t : LinearTransform) (a_in b_out : Int64)
    (hrun : t.doForwardTransform a_in = some b_out) :
    b_out.toInt = t.b_zero.toInt +
      (a_in.toInt - t.a_zero.toInt) * t.a_to_b_numer.toInt / (t.a_to_b_denom.toNat : ℤ) := by
  rw [doForwardTransform] at hrun
  split_ifs at hrun with hD
  rw [linear_transform_eq _ _ _ hD] at hrun
  split_ifs at hrun with hgood
  obtain ⟨⟨hle, hlt⟩, -⟩ := hgood
  rw [← some.inj hrun, toInt_ofInt]
  exact (Int.bmod_eq_of_le hle hlt).trans (add_comm _ _)

theorem LinearTransform.doForwardTransform_half :
    (LinearTransform.doForwardTransform ⟨0, 10, -1, 2⟩ 5).map Int64.toInt = some 7 ∧
      (7 : Int64).toInt = (10 : Int64).toInt +
        ((5 : Int64).toInt - (0 : Int64).toInt) * (-1 : Int32).toInt / ((2 : UInt32).toNat : ℤ) :=
  ⟨by decide +kernel, doForwardTransform_eq ⟨0, 10, -1, 2⟩ 5 7 (by decide +kernel)⟩

/-- **A transformation fails although there is a result** exactly where it misses it. -/
theorem linear_transform_fails_iff (val basis1 : Int64) (N : Int32) (D : UInt32) (hD : D ≠ 0)
    (basis2 : Int64) :
    (linear_transform_s64_to_s64 val basis1 N D basis2 = none →
        ¬IsInt64 (scaledDelta val basis1 N D + basis2.toInt)) ↔
      ¬(IsInt64 (scaledDelta val basis1 N D + basis2.toInt) ∧
        Missed (scaledDelta val basis1 N D) basis2.toInt) := by
  rw [linear_transform_eq _ _ _ hD]
  by_cases hin : IsInt64 (scaledDelta val basis1 N D + basis2.toInt) <;>
    by_cases hmissed : Missed (scaledDelta val basis1 N D) basis2.toInt <;> simp [hmissed]

theorem linear_transform_fails_iff_small :
    (linear_transform_s64_to_s64 7 0 1 2 1 = none →
        ¬IsInt64 (scaledDelta 7 0 1 2 + (1 : Int64).toInt)) ↔
      ¬(IsInt64 (scaledDelta 7 0 1 2 + (1 : Int64).toInt) ∧
        Missed (scaledDelta 7 0 1 2) (1 : Int64).toInt) :=
  linear_transform_fails_iff 7 0 1 2 (by decide) 1

/-- `-2 ^ 63` times one plus zero is refused, and so is `2 ^ 63` plus `-2 ^ 63`. -/
theorem linear_transform_misses :
    (linear_transform_s64_to_s64 Int64.minValue 0 1 1 0 = none ∧
      IsInt64 (scaledDelta Int64.minValue 0 1 1 + (0 : Int64).toInt)) ∧
    (linear_transform_s64_to_s64 (2 ^ 62) 0 2 1 Int64.minValue = none ∧
      IsInt64 (scaledDelta (2 ^ 62) 0 2 1 + Int64.minValue.toInt)) := by
  decide +kernel

/-! ## The way back -/

namespace LinearTransform

/-- The factors change places, and with them their types: the denominator becomes an `int32_t` and the
numerator a `uint32_t`. -/
def doReverseTransform (b_in : Int64) : Option Int64 :=
  if t.a_to_b_numer = 0 then none
  else linear_transform_s64_to_s64 b_in t.b_zero t.a_to_b_denom.toInt32 t.a_to_b_numer.toUInt32
    t.a_zero

/-- The exact difference on the way back, rounded down. -/
def reverseDelta (b_in : Int64) : ℤ :=
  ((b_in.toInt - t.b_zero.toInt) * t.a_to_b_denom.toNat).fdiv t.a_to_b_numer.toInt

/-- The difference that is computed. -/
def convertedDelta (b_in : Int64) : ℤ :=
  scaledDelta b_in t.b_zero t.a_to_b_denom.toInt32 t.a_to_b_numer.toUInt32

end LinearTransform

/-- A factor of at most one and a factor of at least one agree on a number other than zero only if
both are one. -/
lemma mul_ediv_eq_mul_ediv {e c D d m : ℤ} (he : e ≠ 0) (hD : 0 < D) (hm : 0 < m) (hc : c ≤ D)
    (hd : m ≤ d) (heq : e * c / D = e * d / m) : c = D ∨ d = m := by
  rcases lt_or_gt_of_ne he with hneg | hpos
  · have hlow : e * D ≤ e * c := mul_le_mul_of_nonpos_left hc hneg.le
    have hle : e ≤ e * d / m := heq ▸ (Int.le_ediv_iff_mul_le hD).mpr hlow
    exact .inr (le_antisymm ((mul_le_mul_left_of_neg hneg).mp ((Int.le_ediv_iff_mul_le hm).mp hle)) hd)
  · have hhigh : e * m ≤ e * d := mul_le_mul_of_nonneg_left hd hpos.le
    have hle : e ≤ e * c / D := heq ▸ (Int.le_ediv_iff_mul_le hm).mpr hhigh
    exact .inl (le_antisymm hc (le_of_mul_le_mul_left ((Int.le_ediv_iff_mul_le hD).mp hle) hpos))

/-- **When the conversions do not matter**: the factors keep their values, or their quotient stays
one, or the result is zero anyway. -/
lemma converted_ediv_eq_iff (δ : ℤ) {d : ℕ} (hd : d < 2 ^ 32) {n : ℤ} (hn : n ≠ 0)
    (hle : -2 ^ 31 ≤ n) (hlt : n < 2 ^ 31) :
    δ * Int.bmod d (2 ^ 32) / (n % 2 ^ 32) = (δ * d).fdiv n ↔
      δ = 0 ∨ d = 0 ∨ (0 < n ∧ d < 2 ^ 31) ∨ (n = -2 ^ 31 ∧ d = 2 ^ 31) := by
  have hbmod : Int.bmod d (2 ^ 32) = if d < 2 ^ 31 then (d : ℤ) else d - 2 ^ 32 := by
    rw [Int.bmod_def]
    split_ifs <;> omega
  rw [hbmod]
  rcases lt_or_gt_of_ne hn with hneg | hpos
  · have hmod : n % 2 ^ 32 = 2 ^ 32 + n := by omega
    have hfdiv : (δ * d).fdiv n = -δ * d / -n := by
      rw [← Int.neg_fdiv_neg, Int.fdiv_eq_ediv_of_nonneg _ (by omega), neg_mul]
    rw [hmod, hfdiv]
    split_ifs with hsmall
    · -- the quotients have different signs
      have hsigns : δ * d / (2 ^ 32 + n) = -δ * d / -n ↔ δ * d = 0 := by
        rw [neg_mul]
        rcases lt_trichotomy (δ * d) 0 with hx | hx | hx
        · refine iff_of_false (fun heq => ?_) hx.ne
          have hleft := Int.ediv_neg_of_neg_of_pos hx (by omega : 0 < 2 ^ 32 + n)
          have hright := Int.ediv_nonneg (by omega : 0 ≤ -(δ * d)) (by omega : 0 ≤ -n)
          omega
        · simp [hx]
        · refine iff_of_false (fun heq => ?_) hx.ne'
          have hleft := Int.ediv_nonneg hx.le (by omega : 0 ≤ 2 ^ 32 + n)
          have hright := Int.ediv_neg_of_neg_of_pos (by omega : -(δ * d) < 0) (by omega : 0 < -n)
          omega
      rw [hsigns, Int.mul_eq_zero]
      omega
    · have hswap : δ * (d - 2 ^ 32) = -δ * (2 ^ 32 - d) := by ring
      rw [hswap]
      constructor
      · intro heq
        by_contra hnone
        have hone := mul_ediv_eq_mul_ediv (by omega) (by omega) (by omega) (by omega)
          (by omega) heq
        omega
      · rintro (rfl | rfl | ⟨hpos, -⟩ | ⟨rfl, rfl⟩)
        · simp
        · omega
        · omega
        · norm_num
  · have hmod : n % 2 ^ 32 = n := by omega
    rw [hmod, Int.fdiv_eq_ediv_of_nonneg _ hpos.le]
    split_ifs with hsmall
    · exact iff_of_true rfl (.inr (.inr (.inl ⟨hpos, hsmall⟩)))
    · -- the factors are `2 ^ 32` apart
      have hapart : δ * (d - 2 ^ 32) = δ * d - 2 ^ 32 * δ := by ring
      rw [hapart]
      refine ⟨fun heq => .inl ?_, ?_⟩
      · have h1 := Int.mul_ediv_self_le (x := δ * d) hn
        have h2 := Int.lt_mul_ediv_self_add (x := δ * d) hpos
        have h3 := Int.mul_ediv_self_le (x := δ * d - 2 ^ 32 * δ) hn
        have h4 := Int.lt_mul_ediv_self_add (x := δ * d - 2 ^ 32 * δ) hpos
        rw [heq] at h3 h4
        omega
      · rintro (rfl | rfl | ⟨-, hlt⟩ | ⟨rfl, -⟩)
        · simp
        all_goals omega

/-- **The way back is exact** exactly if the conversions do not matter, or nothing is returned. -/
theorem LinearTransform.doReverseTransform_exact_iff (t : LinearTransform) (b_in : Int64)
    (hn : t.a_to_b_numer ≠ 0) :
    (∀ a_out, t.doReverseTransform b_in = some a_out →
        a_out.toInt = t.a_zero.toInt + t.reverseDelta b_in) ↔
      ((0 < t.a_to_b_numer.toInt ∧ t.a_to_b_denom.toNat < 2 ^ 31) ∨
          (t.a_to_b_numer.toInt = -2 ^ 31 ∧ t.a_to_b_denom.toNat = 2 ^ 31) ∨
          t.a_to_b_denom.toNat = 0 ∨ b_in.toInt = t.b_zero.toInt) ∨
        ¬(IsInt64 (t.convertedDelta b_in + t.a_zero.toInt) ∧
          ¬Missed (t.convertedDelta b_in) t.a_zero.toInt) := by
  have hne : t.a_to_b_numer.toInt ≠ 0 := fun h => hn (Int32.toInt_inj.mp h)
  have hdenom : t.a_to_b_denom.toInt32.toInt = Int.bmod t.a_to_b_denom.toNat (2 ^ 32) :=
    t.a_to_b_denom.toBitVec.toInt_eq_toNat_bmod
  have hnumer : t.a_to_b_numer.toUInt32.toNat = t.a_to_b_numer.toInt % 2 ^ 32 := by
    have h : t.a_to_b_numer.toInt = Int.bmod t.a_to_b_numer.toUInt32.toNat (2 ^ 32) :=
      t.a_to_b_numer.toBitVec.toInt_eq_toNat_bmod
    have := t.a_to_b_numer.toUInt32.toNat_lt
    rw [h, Int.bmod_def]
    split_ifs <;> omega
  have hlow := t.a_to_b_numer.le_toInt
  have hhigh := t.a_to_b_numer.toInt_lt
  have hD : t.a_to_b_numer.toUInt32 ≠ 0 := by
    intro h
    rw [h, UInt32.toNat_zero] at hnumer
    omega
  have hiff := converted_ediv_eq_iff (b_in.toInt - t.b_zero.toInt) t.a_to_b_denom.toNat_lt hne
    hlow hhigh
  rw [← hdenom, ← hnumer] at hiff
  change t.convertedDelta b_in = t.reverseDelta b_in ↔ _ at hiff
  have hrun : linear_transform_s64_to_s64 b_in t.b_zero t.a_to_b_denom.toInt32
      t.a_to_b_numer.toUInt32 t.a_zero =
        if IsInt64 (t.convertedDelta b_in + t.a_zero.toInt) ∧
            ¬Missed (t.convertedDelta b_in) t.a_zero.toInt then
          some (Int64.ofInt (t.convertedDelta b_in + t.a_zero.toInt)) else none :=
    linear_transform_eq _ _ _ hD _
  rw [doReverseTransform, if_neg hn, hrun]
  split_ifs with hgood
  · have hout : (Int64.ofInt (t.convertedDelta b_in + t.a_zero.toInt)).toInt =
        t.convertedDelta b_in + t.a_zero.toInt :=
      toInt_ofInt.trans (Int.bmod_eq_of_le hgood.1.1 hgood.1.2)
    simp only [some.injEq, forall_eq']
    rw [or_iff_left (not_not.mpr hgood)]
    omega
  · simp [hgood]

theorem LinearTransform.doReverseTransform_exact_iff_half :
    (2 : Int32) ≠ 0 ∧ ∀ a_out, LinearTransform.doReverseTransform ⟨0, 10, 2, 3⟩ 15 = some a_out →
      a_out.toInt = (0 : Int64).toInt + LinearTransform.reverseDelta ⟨0, 10, 2, 3⟩ 15 :=
  ⟨by decide, (doReverseTransform_exact_iff ⟨0, 10, 2, 3⟩ 15 (by decide)).mpr (.inl (.inl (by decide)))⟩

/-- With the factor `-1` the way back of one is zero, not minus one. -/
theorem LinearTransform.doReverseTransform_wrong :
    (LinearTransform.doReverseTransform ⟨0, 0, -1, 1⟩ 1).map Int64.toInt = some 0 ∧
      (0 : Int64).toInt + LinearTransform.reverseDelta ⟨0, 0, -1, 1⟩ 1 = -1 := by
  decide +kernel

end Droid
