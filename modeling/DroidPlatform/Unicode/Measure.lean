import DroidPlatform.Unicode.Lemmas.Codepoints

/-!
# Measuring and converting UTF-16

`String8` allocates as many bytes as `utf16_to_utf8_length` counts, and has `utf16_to_utf8` fill them.
Both loops go through a string in the same steps: a high surrogate is taken together with the unit
behind it, whatever that is.  But they make different things of such a pair if the unit is not a low
surrogate.

* Measuring counts the bytes of the unit alone.
* Converting computes a code point from both.  Behind the surrogates it has four bytes, one more than
  measured.  Below the low surrogates the difference wraps around, and the result is some character of
  three bytes, or a surrogate, for which nothing is written (`misread`).

A high surrogate that is left at the end is no character for the one loop; the other reads the unit
behind the end.

`writes_measured_iff` says exactly when the two agree.
-/

namespace Droid

open List Nat

namespace Unicode

/-! ## Steps -/

/-- What the loops take from the string at once. -/
inductive Step where
  | unit (u : UInt16)
  | pair (high next : UInt16)
  /-- A high surrogate with nothing behind it. -/
  | dangling (high : UInt16)
  deriving DecidableEq

def steps : List UInt16 → List Step
  | [] => []
  | [u] => if IsHighSurrogate u then [.dangling u] else [.unit u]
  | u :: v :: s => if IsHighSurrogate u then .pair u v :: steps s else .unit u :: steps (v :: s)

namespace Step

/-- The bytes that are measured. -/
def size : Step → ℕ
  | .unit u => utf32_codepoint_utf8_length u.toNat
  | .pair _ next => if IsLowSurrogate next then 4 else utf32_codepoint_utf8_length next.toNat
  | .dangling _ => 0

/-- The character that a high surrogate and a unit below the low surrogates come to. -/
def misread (high next : UInt16) : ℕ := (next.toNat + 0x2400) ||| high.toNat % 64 * 1024

/-- How many bytes more are written than were measured. -/
def excess : Step → ℤ
  | .unit _ => 0
  | .pair high next =>
    if IsLowSurrogate next then 0
    else if 0xE000 ≤ next.toNat then 1
    else utf32_codepoint_utf8_length (misread high next) - utf32_codepoint_utf8_length next.toNat
  | .dangling _ => 0

/-- The bytes that are written. -/
def bytes : Step → List UInt8
  | .unit u => codepointBytes u.toNat
  | .pair high next => codepointBytes (pairCodepoint high next)
  | .dangling _ => []

def isDangling : Step → Bool
  | .unit _ => false
  | .pair _ _ => false
  | .dangling _ => true

/-! ## One step -/

lemma length_emit (bytes : ℕ) : ∀ (k c : ℕ) (written : List UInt8),
    (emit bytes k c written).length = k + written.length
  | 0, _, _ => (zero_add _).symm
  | 1, _, written => by rw [emit, length_cons, add_comm]
  | k + 2, c, written => by
    rw [emit, length_emit bytes (k + 1), length_cons]
    omega

lemma length_codepointBytes (c : ℕ) :
    (codepointBytes c).length = utf32_codepoint_utf8_length c := by
  rw [codepointBytes, utf32_codepoint_to_utf8, length_emit, length_nil, add_zero]

variable {c : ℕ}

lemma codepoint_length_le_three (h : c < 0x10000) : utf32_codepoint_utf8_length c ≤ 3 := by
  rw [utf32_codepoint_utf8_length]
  split_ifs <;> omega

lemma codepoint_length_four (h : 0x10000 ≤ c) (h' : c ≤ 0x10FFFF) :
    utf32_codepoint_utf8_length c = 4 := by
  rw [utf32_codepoint_utf8_length, kUnicodeMaxCodepoint]
  split_ifs <;> omega

lemma codepoint_length_three (h : 0xE000 ≤ c) (h' : c < 0x10000) :
    utf32_codepoint_utf8_length c = 3 := by
  rw [utf32_codepoint_utf8_length, kUnicodeSurrogateEnd]
  split_ifs <;> omega

lemma codepoint_length_surrogate (h : 0xD800 ≤ c) (h' : c ≤ 0xDFFF) :
    utf32_codepoint_utf8_length c = 0 := by
  rw [utf32_codepoint_utf8_length, kUnicodeSurrogateStart, kUnicodeSurrogateEnd,
    if_neg (by omega), if_neg (by omega), if_pos (by omega), if_neg (by omega)]

variable {high next : UInt16}

/-- Behind the surrogates, the code point has four bytes. -/
lemma pairCodepoint_of_le (hhigh : IsHighSurrogate high) (hnext : 0xE000 ≤ next.toNat) :
    0x10000 ≤ pairCodepoint high next ∧ pairCodepoint high next ≤ 0x10FFFF := by
  obtain ⟨hhigh, hhigh'⟩ := hhigh
  have hlt := next.toNat_lt
  have hword : toWord (next.toNat - 0xDC00) = next.toNat - 0xDC00 := by
    rw [toWord]
    omega
  have hshift : (high.toNat - 0xD800) <<< 10 < 2 ^ 20 := by
    omega
  have hor : (high.toNat - 0xD800) <<< 10 ||| (next.toNat - 0xDC00) < 2 ^ 20 :=
    or_lt_two_pow hshift (by omega)
  rw [pairCodepoint, hword, toUInt32_eq_self (by omega)]
  omega

/-- Below the low surrogates, the difference wraps around. -/
lemma pairCodepoint_of_lt (hhigh : IsHighSurrogate high) (hnext : next.toNat < 0xDC00) :
    pairCodepoint high next = misread high next := by
  obtain ⟨hhigh, hhigh'⟩ := hhigh
  obtain ⟨h, hh⟩ : ∃ h, h = high.toNat - 0xD800 := ⟨_, rfl⟩
  have hmod : high.toNat % 64 = h % 64 := by omega
  have hones : ∀ n < 16, n ||| 0xFFFF = 0xFFFF := by decide
  have hlow : (h % 64) <<< 10 < 2 ^ 16 := by
    omega
  have hnext' : next.toNat + 0x2400 < 2 ^ 16 := by omega
  have hmis : (h % 64) <<< 10 ||| (next.toNat + 0x2400) < 2 ^ 16 := or_lt_two_pow hlow hnext'
  -- the words, by their upper and lower halves
  have hword : toWord (next.toNat - 0xDC00) = 0xFFFF <<< 16 ||| (next.toNat + 0x2400) := by
    rw [← shiftLeft_add_eq_or_of_lt hnext', toWord]
    omega
  have hshift : h <<< 10 = (h / 64) <<< 16 ||| (h % 64) <<< 10 := by
    rw [← shiftLeft_add_eq_or_of_lt hlow]
    omega
  have hor : h <<< 10 ||| (0xFFFF <<< 16 ||| (next.toNat + 0x2400)) =
      0xFFFF <<< 16 + ((h % 64) <<< 10 ||| (next.toNat + 0x2400)) := by
    rw [shiftLeft_add_eq_or_of_lt hmis, hshift, ← hones (h / 64) (by omega),
      shiftLeft_or_distrib]
    ac_rfl
  rw [pairCodepoint, ← hh, hword, hor, misread, hmod, toUInt32, Nat.or_comm (next.toNat + 0x2400),
    ← shiftLeft_eq (h % 64) 10]
  omega

/-- Either way three bytes more or less. -/
lemma excess_bounds (s : Step) : -3 ≤ s.excess ∧ s.excess ≤ 3 := by
  cases s with
  | unit u => simp [excess]
  | dangling high => simp [excess]
  | pair high next =>
    rw [excess]
    split_ifs with hlow hbig
    · omega
    · omega
    · have hnext : next.toNat < 0xDC00 := by
        simp only [IsLowSurrogate] at hlow
        omega
      have hmis : misread high next < 2 ^ 16 := or_lt_two_pow (by omega) (by omega)
      have hle := codepoint_length_le_three hmis
      have hle' := codepoint_length_le_three (c := next.toNat) (by omega)
      omega

/-- **The bytes of a pair** are those measured and the excess. -/
lemma length_bytes_pair (hhigh : IsHighSurrogate high) (next : UInt16) :
    ((bytes (.pair high next)).length : ℤ) = size (.pair high next) + excess (.pair high next) := by
  have hlt := next.toNat_lt
  rw [bytes, length_codepointBytes, size, excess]
  split_ifs with hlow hbig
  · rw [pairCodepoint_of_low hhigh hlow]
    obtain ⟨hhigh, hhigh'⟩ := hhigh
    obtain ⟨hlow, hlow'⟩ := hlow
    rw [codepoint_length_four (by omega) (by omega)]
    rfl
  · obtain ⟨hle, hle'⟩ := pairCodepoint_of_le hhigh hbig
    rw [codepoint_length_four hle hle', codepoint_length_three hbig (by omega)]
    rfl
  · have hnext : next.toNat < 0xDC00 := by
      simp only [IsLowSurrogate] at hlow
      omega
    rw [pairCodepoint_of_lt hhigh hnext]
    omega

end Step

/-! ## All steps -/

variable {u : UInt16} (s : List UInt16)

lemma steps_unit (h : ¬IsHighSurrogate u) (s : List UInt16) :
    steps (u :: s) = .unit u :: steps s := by
  cases s with
  | nil | cons v s => simp [steps, h]

lemma utf16ToUtf8LengthLoop_unit (h : ¬IsHighSurrogate u) (s : List UInt16) :
    utf16ToUtf8LengthLoop (u :: s) =
      utf32_codepoint_utf8_length u.toNat + utf16ToUtf8LengthLoop s := by
  have hhigh : isHigh u = false := by rw [← Bool.not_eq_true, isHigh_iff]; exact h
  cases s with
  | nil => simp [utf16ToUtf8LengthLoop]
  | cons v s => simp [utf16ToUtf8LengthLoop, hhigh]

/-- A string of steps, taken off one by one. -/
theorem steps_induction {P : List UInt16 → Prop} (nil : P [])
    (dangling : ∀ u, IsHighSurrogate u → P [u])
    (unit : ∀ u s, ¬IsHighSurrogate u → P s → P (u :: s))
    (pair : ∀ u v s, IsHighSurrogate u → P s → P (u :: v :: s)) : ∀ s, P s
  | [] => nil
  | [u] => if h : IsHighSurrogate u then dangling u h else unit u [] h nil
  | u :: v :: s =>
    if h : IsHighSurrogate u then pair u v s h (steps_induction nil dangling unit pair s)
    else unit u (v :: s) h (steps_induction nil dangling unit pair (v :: s))

/-- The size that is measured. -/
def totalSize : ℕ := ((steps s).map Step.size).sum

/-- How many bytes more are written, altogether. -/
def totalExcess : ℤ := ((steps s).map Step.excess).sum

lemma steps_pair (h : IsHighSurrogate u) (v : UInt16) (s : List UInt16) :
    steps (u :: v :: s) = .pair u v :: steps s := by simp [steps, h]

lemma steps_dangling (h : IsHighSurrogate u) : steps [u] = [.dangling u] := by
  simp [steps, h]

section Steps

variable {u : UInt16} (s : List UInt16)

lemma totalSize_unit (h : ¬IsHighSurrogate u) :
    totalSize (u :: s) = utf32_codepoint_utf8_length u.toNat + totalSize s := by
  rw [totalSize, steps_unit h, map_cons, sum_cons, Step.size, totalSize]

lemma totalExcess_unit (h : ¬IsHighSurrogate u) : totalExcess (u :: s) = totalExcess s := by
  rw [totalExcess, steps_unit h, map_cons, sum_cons, Step.excess, zero_add, totalExcess]

lemma totalSize_pair (h : IsHighSurrogate u) (v : UInt16) :
    totalSize (u :: v :: s) = (Step.pair u v).size + totalSize s := by
  rw [totalSize, steps_pair h, map_cons, sum_cons, totalSize]

lemma totalExcess_pair (h : IsHighSurrogate u) (v : UInt16) :
    totalExcess (u :: v :: s) = (Step.pair u v).excess + totalExcess s := by
  rw [totalExcess, steps_pair h, map_cons, sum_cons, totalExcess]

end Steps

/-- **What is measured**: the size of all steps. -/
lemma utf16ToUtf8LengthLoop_eq : utf16ToUtf8LengthLoop s = totalSize s := by
  induction s using steps_induction with
  | nil => rfl
  | dangling u hu =>
    rw [totalSize, steps_dangling hu]
    exact Step.codepoint_length_surrogate hu.1 (hu.2.trans (by norm_num))
  | unit u s hu ih => rw [utf16ToUtf8LengthLoop_unit hu, ih, totalSize_unit s hu]
  | pair u v s hu ih =>
    rw [totalSize_pair s hu, ← ih, Step.size, utf16ToUtf8LengthLoop, if_pos ((isHigh_iff u).mpr hu)]
    simp only [isLow_iff]
    split_ifs <;> rfl

/-- **What is written**: the bytes of all steps, if none reads behind the end. -/
lemma utf16ToUtf8Loop_eq : utf16ToUtf8Loop nothing s =
    if (steps s).any Step.isDangling then none else some ((steps s).flatMap Step.bytes ++ [0]) := by
  induction s using steps_induction with
  | nil => rfl
  | dangling u hu => simp [steps_dangling hu, utf16ToUtf8Loop, isHigh_iff, hu, nothing, Step.isDangling]
  | unit u s hu ih =>
    rw [utf16ToUtf8Loop_unit nothing hu, ih, steps_unit hu]
    cases hdangling : (steps s).any Step.isDangling <;>
      simp [hdangling, Step.isDangling, Step.bytes]
  | pair u v s hu ih =>
    rw [utf16ToUtf8Loop_pair nothing hu, ih, steps_pair hu]
    cases hdangling : (steps s).any Step.isDangling <;>
      simp [hdangling, Step.isDangling, Step.bytes]

lemma length_flatMap_bytes (s : List UInt16) (h : (steps s).any Step.isDangling = false) :
    (((steps s).flatMap Step.bytes).length : ℤ) = totalSize s + totalExcess s := by
  induction s using steps_induction with
  | nil => rfl
  | dangling u hu => simp [steps_dangling hu, Step.isDangling] at h
  | unit u s hu ih =>
    rw [steps_unit hu, any_cons, Step.isDangling] at h
    have hih := ih h
    rw [steps_unit hu, flatMap_cons, length_append, totalSize_unit s hu,
      totalExcess_unit s hu, Step.bytes, Step.length_codepointBytes]
    omega
  | pair u v s hu ih =>
    rw [steps_pair hu, any_cons, Step.isDangling] at h
    have hih := ih h
    have hpair := Step.length_bytes_pair hu v
    rw [steps_pair hu, flatMap_cons, length_append, totalSize_pair s hu,
      totalExcess_pair s hu]
    omega

/-- A pair of units makes a difference of at most three bytes. -/
lemma totalExcess_bounds (s : List UInt16) :
    -(3 * s.length : ℤ) ≤ 2 * totalExcess s ∧ 2 * totalExcess s ≤ 3 * s.length := by
  induction s using steps_induction with
  | nil => decide
  | dangling u hu => simp [totalExcess, steps_dangling hu, Step.excess]
  | unit u s hu ih =>
    rw [totalExcess_unit s hu, length_cons]
    omega
  | pair u v s hu ih =>
    have hbounds := Step.excess_bounds (.pair u v)
    rw [totalExcess_pair s hu, length_cons, length_cons]
    omega

/-! ## Measured and written -/

/-- **What is asked for**: nothing behind the end is read, and as many bytes are written as were
measured, followed by one zero. -/
def WritesMeasured (src : List UInt16) : Prop :=
  ∃ bytes, utf16_to_utf8 nothing src = some (bytes ++ [0]) ∧
    (bytes.length : ℤ) = utf16_to_utf8_length src

/-- No high surrogate is left at the end, pairs that are none make up for each other, and the size
is one that an `ssize_t` can hold. -/
def Measurable (src : List UInt16) : Prop :=
  (∀ step ∈ steps src, step.isDangling = false) ∧ totalExcess src = 0 ∧ totalSize src < 2 ^ 31
  deriving Decidable

/-- **When measuring and converting agree**, for every string that fits into the address space. -/
theorem writes_measured_iff {src : List UInt16} (hne : src ≠ []) (hlen : src.length < 2 ^ 31) :
    WritesMeasured src ↔ Measurable src := by
  have hlength : ¬src.length = 0 := mt length_eq_zero_iff.mp hne
  have hbounds := totalExcess_bounds src
  rw [WritesMeasured, utf16_to_utf8, if_neg hlength, utf16_to_utf8_length, if_neg hlength,
    utf16ToUtf8Loop_eq, utf16ToUtf8LengthLoop_eq]
  cases hdangling : (steps src).any Step.isDangling with
  | true =>
    refine iff_of_false ?_ ?_
    · rintro ⟨bytes, hnone, -⟩
      cases hnone
    · rintro ⟨hall, -⟩
      obtain ⟨step, hstep, htrue⟩ := any_eq_true.mp hdangling
      rw [hall step hstep] at htrue
      cases htrue
  | false =>
    have hwritten := length_flatMap_bytes src hdangling
    have hall : ∀ step ∈ steps src, step.isDangling = false := by
      simpa using hdangling
    constructor
    · rintro ⟨bytes, hsome, hmeasured⟩
      have hbytes : bytes = (steps src).flatMap Step.bytes := by
        refine (append_left_inj [0]).mp (Option.some.inj ?_)
        exact hsome.symm
      rw [hbytes, toInt32] at hmeasured
      -- the excess is too small to be a multiple of `2 ^ 32`
      have hbmod := Int.bmod_def (totalSize src) (2 ^ 32)
      refine ⟨hall, ?_, ?_⟩
      all_goals
        split_ifs at hbmod <;> omega
    · rintro ⟨-, hexcess, hsize⟩
      refine ⟨_, rfl, ?_⟩
      rw [hwritten, toInt32_eq_self ⟨by omega, by omega⟩]
      omega

/-- A string with a surrogate pair. -/
theorem writes_measured_pair : WritesMeasured [0x41, 0xD83D, 0xDE00, 0xE9] :=
  (writes_measured_iff (by decide) (by decide)).mpr (by decide)

/-- **Strings that are measured wrong**: a high surrogate before a letter becomes a character of three
bytes, where one was measured, and one at the end takes the unit behind the end with it. -/
theorem mismeasured_strings :
    (utf16_to_utf8_length [0xD800, 0x41] = 1 ∧
      utf16_to_utf8 nothing [0xD800, 0x41] = some [0xE2, 0x91, 0x81, 0] ∧
      ¬WritesMeasured [0xD800, 0x41]) ∧
    (utf16_to_utf8 nothing [0x41, 0xD800] = none ∧ ¬WritesMeasured [0x41, 0xD800]) := by
  refine ⟨⟨by decide, by decide, ?_⟩, by decide, ?_⟩
  · rintro ⟨bytes, hsome, hlength⟩
    have hwritten : utf16_to_utf8 nothing [0xD800, 0x41] = some ([0xE2, 0x91, 0x81] ++ [0]) := by decide
    rw [(append_left_inj [0]).mp (Option.some.inj (hsome.symm.trans hwritten))] at hlength
    exact absurd hlength (by decide)
  · rintro ⟨bytes, hsome, -⟩
    have hnone : utf16_to_utf8 nothing [0x41, 0xD800] = none := by decide
    cases hnone.symm.trans hsome

end Unicode

end Droid
