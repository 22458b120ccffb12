import Mathlib.Tactic
import Mathlib.Data.Int.Log

/-!
# Rounding to a binary floating-point format

The result of a floating-point operation is the exact result rounded to a number with `p`
significant bits, to nearest, ties to even.  `roundTo p` is that rounding on the non-negative
rationals; the exponent is unbounded, so that it agrees with a format like `float` wherever the
format neither overflows nor goes subnormal.

Three facts about it carry every argument: it is monotone, it leaves its own results alone, and its
relative error is at most `2 ^ -p`.
-/

namespace Droid

/-! ## To an integer -/

/-- The nearest integer; the even one of two. -/
def roundEven (x : ℚ) : ℤ :=
  if x - ⌊x⌋ < 1 / 2 then ⌊x⌋
  else if 1 / 2 < x - ⌊x⌋ then ⌊x⌋ + 1
  else if ⌊x⌋ % 2 = 0 then ⌊x⌋ else ⌊x⌋ + 1

lemma roundEven_intCast (n : ℤ) : roundEven n = n := by
  simp [roundEven]

lemma floor_le_roundEven (x : ℚ) : ⌊x⌋ ≤ roundEven x := by
  unfold roundEven
  split_ifs <;> omega

lemma roundEven_le_floor_add_one (x : ℚ) : roundEven x ≤ ⌊x⌋ + 1 := by
  unfold roundEven
  split_ifs <;> omega

lemma abs_roundEven_sub_le (x : ℚ) : |(roundEven x : ℚ) - x| ≤ 1 / 2 := by
  have hfloor := Int.floor_le x
  have hlt := Int.lt_floor_add_one x
  unfold roundEven
  rw [abs_le]
  split_ifs <;> push_cast <;> constructor <;> linarith

lemma roundEven_mono {x y : ℚ} (h : x ≤ y) : roundEven x ≤ roundEven y := by
  rcases (Int.floor_mono h).lt_or_eq with hlt | heq
  · calc roundEven x ≤ ⌊x⌋ + 1 := roundEven_le_floor_add_one x
      _ ≤ ⌊y⌋ := hlt
      _ ≤ roundEven y := floor_le_roundEven y
  · unfold roundEven
    rw [heq]
    split_ifs <;> first | omega | linarith

lemma le_roundEven {x : ℚ} {n : ℤ} (h : n ≤ x) : n ≤ roundEven x :=
  (roundEven_intCast n).ge.trans (roundEven_mono h)

lemma roundEven_le {x : ℚ} {n : ℤ} (h : x ≤ n) : roundEven x ≤ n :=
  (roundEven_mono h).trans (roundEven_intCast n).le

/-- The two ways to find the nearest integer of a given number. -/
lemma roundEven_eq_of_lt {x : ℚ} {n : ℤ} (h : |x - n| < 1 / 2) : roundEven x = n := by
  have h' := abs_roundEven_sub_le x
  have hlt : |((roundEven x - n) : ℚ)| < 1 := by
    calc |(roundEven x : ℚ) - n| = |((roundEven x) - x) + (x - n)| := by ring_nf
      _ ≤ |(roundEven x) - x| + |x - n| := abs_add_le _ _
      _ < 1 := by linarith
  have : |roundEven x - n| < 1 := by exact_mod_cast hlt
  rw [Int.abs_lt_one_iff] at this
  omega

lemma roundEven_eq_of_tie {x : ℚ} {n : ℤ} (heven : n % 2 = 0) (h : |x - n| = 1 / 2) :
    roundEven x = n := by
  rcases abs_eq (by norm_num) |>.mp h with h | h
  · have hfloor : ⌊x⌋ = n := Int.floor_eq_iff.mpr ⟨by linarith, by linarith⟩
    rw [roundEven, hfloor]
    simp [h, heven]
  · have hfloor : ⌊x⌋ = n - 1 :=
      Int.floor_eq_iff.mpr ⟨by push_cast; linarith, by push_cast; linarith⟩
    have hrest : x - ((n - 1 : ℤ)) = 1 / 2 := by push_cast; linarith
    rw [roundEven, hfloor, hrest]
    simp only [lt_irrefl, if_false]
    omega

/-! ## To `p` bits -/

/-- The weight of the last bit of `x`. -/
def ulp (p : ℕ) (x : ℚ) : ℚ := 2 ^ (Int.log 2 x - (p - 1 : ℤ))

/-- `x` rounded to `p` significant bits. -/
def roundTo (p : ℕ) (x : ℚ) : ℚ := roundEven (x / ulp p x) * ulp p x

variable {p : ℕ} {x y : ℚ}

lemma ulp_pos (p : ℕ) (x : ℚ) : 0 < ulp p x := zpow_pos (by norm_num) _

lemma two_zpow_log_le (hx : 0 < x) : (2 : ℚ) ^ Int.log 2 x ≤ x := by
  exact_mod_cast Int.zpow_log_le_self (by norm_num) hx

lemma lt_two_zpow_log (x : ℚ) : x < (2 : ℚ) ^ (Int.log 2 x + 1) := by
  exact_mod_cast Int.lt_zpow_succ_log_self (by norm_num) x

/-- The powers of two around `x`, in units of its last bit. -/
lemma two_zpow_log_eq (hp : 0 < p) (x : ℚ) : (2 : ℚ) ^ Int.log 2 x = 2 ^ (p - 1) * ulp p x := by
  rw [ulp, ← zpow_natCast, ← zpow_add₀ (by norm_num)]
  congr 1
  omega

lemma two_zpow_log_succ_eq (p : ℕ) (x : ℚ) :
    (2 : ℚ) ^ (Int.log 2 x + 1) = 2 ^ p * ulp p x := by
  rw [ulp, ← zpow_natCast, ← zpow_add₀ (by norm_num)]
  congr 1
  ring

/-- The rounded significand has `p` bits, or is the power of two that follows. -/
lemma le_roundEven_div_ulp (hp : 0 < p) (hx : 0 < x) :
    (2 : ℤ) ^ (p - 1) ≤ roundEven (x / ulp p x) := by
  refine le_roundEven ?_
  rw [le_div_iff₀ (ulp_pos p x)]
  exact_mod_cast (two_zpow_log_eq hp x).ge.trans (two_zpow_log_le hx)

lemma roundEven_div_ulp_le (p : ℕ) (x : ℚ) : roundEven (x / ulp p x) ≤ 2 ^ p := by
  refine roundEven_le ?_
  rw [div_le_iff₀ (ulp_pos p x)]
  exact_mod_cast (lt_two_zpow_log x).le.trans_eq (two_zpow_log_succ_eq p x)

lemma roundTo_zero (p : ℕ) : roundTo p 0 = 0 := by
  simp [roundTo, roundEven]

lemma roundTo_nonneg (hx : 0 ≤ x) : 0 ≤ roundTo p x := by
  have hu := (ulp_pos p x).le
  have hsignificand : 0 ≤ roundEven (x / ulp p x) := le_roundEven (by simpa using div_nonneg hx hu)
  exact mul_nonneg (by exact_mod_cast hsignificand) hu

/-- **The relative error** is at most half a unit of the last bit. -/
theorem abs_roundTo_sub_le (hx : 0 ≤ x) : |roundTo p x - x| ≤ x * 2 ^ (-p : ℤ) := by
  rcases hx.eq_or_lt with rfl | hpos
  · simp [roundTo_zero]
  · have hu := ulp_pos p x
    calc |roundTo p x - x| = |((roundEven (x / ulp p x)) - x / ulp p x) * ulp p x| := by
          rw [sub_mul, div_mul_cancel₀ _ hu.ne', roundTo]
      _ = |(roundEven (x / ulp p x)) - x / ulp p x| * ulp p x := by
          rw [abs_mul, abs_of_pos hu]
      _ ≤ 1 / 2 * ulp p x := mul_le_mul_of_nonneg_right (abs_roundEven_sub_le _) hu.le
      _ = 2 ^ Int.log 2 x * 2 ^ (-p : ℤ) := by
          rw [ulp, ← zpow_add₀ (by norm_num), show (1 / 2 : ℚ) = 2 ^ (-1 : ℤ) by norm_num,
            ← zpow_add₀ (by norm_num)]
          congr 1
          ring
      _ ≤ x * 2 ^ (-p : ℤ) :=
          mul_le_mul_of_nonneg_right (two_zpow_log_le hpos) (zpow_nonneg (by norm_num) _)

/-- Rounding, when the binade of `x` is known. -/
lemma roundTo_eq (hp : 0 < p) {e : ℤ} (hle : 2 ^ (p - 1) * 2 ^ e ≤ x) (hlt : x < 2 ^ p * 2 ^ e) :
    roundTo p x = roundEven (x / 2 ^ e) * 2 ^ e := by
  have hpos : 0 < x := lt_of_lt_of_le (by positivity) hle
  rw [← zpow_natCast, ← zpow_add₀ (by norm_num)] at hle hlt
  have h1 : Int.log 2 x < p + e :=
    (Int.lt_zpow_iff_log_lt (by norm_num) hpos).mp (by exact_mod_cast hlt)
  have h2 : (p - 1 : ℕ) + e ≤ Int.log 2 x :=
    (Int.zpow_le_iff_le_log (by norm_num) hpos).mp (by exact_mod_cast hle)
  rw [roundTo, ulp, show Int.log 2 x - (p - 1 : ℤ) = e by omega]

/-- Numbers with `p` significant bits are not rounded. -/
lemma roundTo_representable {m e : ℤ} (hle : (2 : ℤ) ^ (p - 1) ≤ m) (hlt : m < 2 ^ p) (hp : 0 < p) :
    roundTo p (m * 2 ^ e) = m * 2 ^ e := by
  have he : (0 : ℚ) < 2 ^ e := zpow_pos (by norm_num) e
  have hle' : (2 : ℚ) ^ (p - 1) ≤ m := by exact_mod_cast hle
  have hlt' : (m : ℚ) < 2 ^ p := by exact_mod_cast hlt
  rw [roundTo_eq hp (mul_le_mul_of_nonneg_right hle' he.le) (mul_lt_mul_of_pos_right hlt' he),
    mul_div_cancel_right₀ _ he.ne', roundEven_intCast]

/-- **Results are left alone.** -/
theorem roundTo_roundTo (hp : 0 < p) (hx : 0 ≤ x) : roundTo p (roundTo p x) = roundTo p x := by
  rcases hx.eq_or_lt with rfl | hpos
  · simp [roundTo_zero]
  · have hle := le_roundEven_div_ulp hp hpos
    have hdef : roundTo p x = roundEven (x / ulp p x) * 2 ^ (Int.log 2 x - (p - 1)) := rfl
    rcases (roundEven_div_ulp_le p x).lt_or_eq with hlt | heq
    · rw [hdef]
      exact roundTo_representable hle hlt hp
    · -- the significand overflows into the next binade
      have hcarry : roundTo p x
          = ((2 ^ (p - 1) : ℤ)) * 2 ^ (Int.log 2 x - (p - 1) + 1) := by
        rw [hdef, heq, zpow_add₀ (by norm_num)]
        push_cast
        rw [show (2 : ℚ) ^ p = 2 ^ (p - 1) * 2 by rw [← pow_succ]; congr 1; omega]
        ring
      rw [hcarry]
      exact roundTo_representable le_rfl (pow_lt_pow_right₀ (by norm_num) (by omega)) hp

lemma two_zpow_log_le_roundTo (hp : 0 < p) (hx : 0 < x) : (2 : ℚ) ^ Int.log 2 x ≤ roundTo p x := by
  rw [two_zpow_log_eq hp]
  exact mul_le_mul_of_nonneg_right (by exact_mod_cast le_roundEven_div_ulp hp hx) (ulp_pos p x).le

lemma roundTo_le_two_zpow_log (p : ℕ) (x : ℚ) : roundTo p x ≤ (2 : ℚ) ^ (Int.log 2 x + 1) := by
  rw [two_zpow_log_succ_eq p]
  exact mul_le_mul_of_nonneg_right (by exact_mod_cast roundEven_div_ulp_le p x) (ulp_pos p x).le

/-- **Rounding is monotone.** -/
theorem roundTo_mono (hp : 0 < p) (hx : 0 ≤ x) (hxy : x ≤ y) : roundTo p x ≤ roundTo p y := by
  rcases hx.eq_or_lt with rfl | hpos
  · rw [roundTo_zero]
    exact roundTo_nonneg hxy
  · rcases (Int.log_mono_right hpos hxy).lt_or_eq with hlt | heq
    · calc roundTo p x ≤ 2 ^ (Int.log 2 x + 1) := roundTo_le_two_zpow_log p x
        _ ≤ 2 ^ Int.log 2 y := zpow_le_zpow_right₀ (by norm_num) hlt
        _ ≤ roundTo p y := two_zpow_log_le_roundTo hp (hpos.trans_le hxy)
    · have hulp : ulp p x = ulp p y := by rw [ulp, ulp, heq]
      rw [roundTo, hulp]
      refine mul_le_mul_of_nonneg_right ?_ (ulp_pos p y).le
      exact_mod_cast roundEven_mono (div_le_div_of_nonneg_right hxy (ulp_pos p y).le)

/-! ## Integers -/

/-- Integers of at most `p` bits are not rounded. -/
lemma roundTo_natCast (hp : 0 < p) {n : ℕ} (hn : n < 2 ^ p) : roundTo p n = n := by
  rcases eq_zero_or_pos n with rfl | hpos
  · simp [roundTo_zero]
  · have hlog : Nat.log 2 n < p := Nat.log_lt_of_lt_pow hpos.ne' hn
    obtain ⟨s, hs⟩ : ∃ s, p - 1 = Nat.log 2 n + s := ⟨p - 1 - Nat.log 2 n, by omega⟩
    have hle : (2 : ℤ) ^ (p - 1) ≤ n * 2 ^ s := by
      rw [hs, pow_add]
      exact mul_le_mul_of_nonneg_right (by exact_mod_cast Nat.pow_log_le_self 2 hpos.ne')
        (by positivity)
    have hlt : (n * 2 ^ s : ℤ) < 2 ^ p := by
      rw [show p = Nat.log 2 n + 1 + s by omega, pow_add]
      exact mul_lt_mul_of_pos_right
        (by exact_mod_cast Nat.lt_pow_succ_log_self (by norm_num) n) (by positivity)
    have hself : ((n * 2 ^ s : ℤ) : ℚ) * 2 ^ (-s : ℤ) = n := by
      push_cast
      simp
    rw [← hself]
    exact roundTo_representable hle hlt hp

/-- An integer of more bits loses those below the last one kept, if they make less than half of it,
or just half and the last one kept is even. -/
lemma roundTo_of_le_half (hp : 0 < p) {q j r : ℕ} (hle : 2 ^ (p - 1) ≤ q) (hlt : q < 2 ^ p)
    (hr : 2 * r ≤ 2 ^ j) (heven : 2 * r = 2 ^ j → q % 2 = 0) :
    roundTo p (q * 2 ^ j + r : ℕ) = (q * 2 ^ j : ℕ) := by
  have hj : (0 : ℚ) < 2 ^ j := by positivity
  have hpos := Nat.two_pow_pos j
  have hround : roundEven (((q * 2 ^ j + r : ℕ)) / 2 ^ j) = q := by
    have habs : |((q * 2 ^ j + r : ℕ)) / 2 ^ j - ((q : ℤ) : ℚ)| = r / 2 ^ j := by
      push_cast
      rw [add_div, mul_div_cancel_right₀ _ hj.ne', add_sub_cancel_left,
        abs_of_nonneg (by positivity)]
    rcases hr.lt_or_eq with hr | hr
    · refine roundEven_eq_of_lt ?_
      have hr' : ((2 * r)) < ((2 ^ j) : ℚ) := by exact_mod_cast hr
      rw [habs, div_lt_iff₀ hj]
      linarith
    · refine roundEven_eq_of_tie (by exact_mod_cast heven hr) ?_
      have hr' : ((2 * r)) = ((2 ^ j) : ℚ) := by exact_mod_cast hr
      rw [habs, div_eq_iff hj.ne']
      linarith
  have hlow : 2 ^ (p - 1) * 2 ^ j ≤ q * 2 ^ j + r :=
    (Nat.mul_le_mul_right _ hle).trans (Nat.le_add_right _ r)
  have hstep : q * 2 ^ j + 2 ^ j ≤ 2 ^ p * 2 ^ j := by
    rw [← Nat.succ_mul]
    exact Nat.mul_le_mul_right _ hlt
  have hhigh : q * 2 ^ j + r < 2 ^ p * 2 ^ j := by omega
  have h := roundTo_eq hp (e := j) (x := (q * 2 ^ j + r : ℕ)) (by exact_mod_cast hlow)
    (by exact_mod_cast hhigh)
  rw [zpow_natCast, hround] at h
  exact_mod_cast h

/-- Integers are rounded to integers. -/
lemma exists_roundTo_natCast (hp : 0 < p) (n : ℕ) : ∃ m : ℕ, roundTo p n = m := by
  rcases lt_or_ge n (2 ^ p) with hlt | hge
  · exact ⟨n, roundTo_natCast hp hlt⟩
  · have hpos : (0 : ℚ) < n := by
      exact_mod_cast (Nat.two_pow_pos p).trans_le hge
    have hlog : p ≤ Int.log 2 (n : ℚ) :=
      (Int.zpow_le_iff_le_log (by norm_num) hpos).mp (by exact_mod_cast hge)
    obtain ⟨j, hj⟩ : ∃ j : ℕ, Int.log 2 (n : ℚ) - (p - 1) = j :=
      ⟨(Int.log 2 (n : ℚ) - (p - 1)).toNat, by omega⟩
    have hround : 0 ≤ roundEven (n / ulp p n) :=
      (by positivity : (0 : ℤ) ≤ 2 ^ (p - 1)).trans (le_roundEven_div_ulp hp hpos)
    obtain ⟨m, hm⟩ := Int.eq_ofNat_of_zero_le hround
    refine ⟨m * 2 ^ j, ?_⟩
    rw [roundTo, hm, ulp, hj]
    push_cast
    rw [zpow_natCast]

end Droid
