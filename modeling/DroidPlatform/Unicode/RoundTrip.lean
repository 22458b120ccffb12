import DroidPlatform.Unicode.Lemmas.Codepoints

/-!
# Round trips between the encoding forms

Each conversion takes the encoding of a string of scalar values to the other encoding of the same
string.  As every well-formed string is such an encoding, the conversions undo each other.

What is written ends with a terminator, except that the conversions to UTF-8 write nothing at all for
an empty string; the content is what stands before it (`List.dropLast`).  Nothing behind the end of
the source matters.
-/

namespace Droid

open List Option Nat

namespace Unicode

variable (behind8 : ℕ → Option UInt8) (behind16 : ℕ → Option UInt16) (cs : List Scalar)

lemma length_utf8_pos (c : Scalar) : 0 < c.utf8.length := by
  rcases c.utf8_cases with ⟨a, h, -⟩ | ⟨a, b, h, -⟩ | ⟨a, b, d, h, -⟩ | ⟨a, b, d, e, h, -⟩ <;>
    simp [h]

/-! ## UTF-32 -/

lemma utf32ToUtf8Loop_scalars : utf32ToUtf8Loop (cs.map Scalar.val) = utf8 cs ++ [0] := by
  induction cs with
  | nil => rfl
  | cons c cs ih =>
    rw [map_cons, utf32ToUtf8Loop, codepointBytes_scalar, ih, utf8_cons, append_assoc]

lemma utf8ToUtf32Loop_utf8 : ∀ {cs : List Scalar} {fuel : ℕ}, (utf8 cs).length < fuel →
    utf8ToUtf32Loop behind8 fuel (utf8 cs) = some (cs.map Scalar.val ++ [0]) := by
  intro cs
  induction cs with
  | nil =>
    intro fuel hfuel
    obtain ⟨fuel, rfl⟩ := exists_eq_succ_of_ne_zero (ne_of_gt hfuel)
    rfl
  | cons c cs ih =>
    intro fuel hfuel
    have hpos := length_utf8_pos c
    rw [utf8_cons, length_append] at hfuel
    obtain ⟨fuel, rfl⟩ := exists_eq_succ_of_ne_zero (show fuel ≠ 0 by omega)
    have hne : ¬(c.utf8 ++ utf8 cs).length = 0 := by
      rw [length_append]
      omega
    rw [utf8_cons, utf8ToUtf32Loop, if_neg hne]
    simp only [utf32_at_internal_scalar, bind_eq_bind, bind_some, drop_left,
      ih (show (utf8 cs).length < fuel by omega)]
    rfl

/-! ## UTF-16 -/

lemma utf16ToUtf8Loop_utf16 : utf16ToUtf8Loop behind16 (utf16 cs) = some (utf8 cs ++ [0]) := by
  induction cs with
  | nil => rfl
  | cons c cs ih =>
    rcases c.utf16_cases with ⟨u, hutf16, hhigh, hval⟩ | ⟨u, v, hutf16, hu, hv, hval⟩
    · rw [utf16_cons, hutf16, singleton_append, utf16ToUtf8Loop_unit behind16 hhigh, ih,
        ← hval, codepointBytes_scalar]
      simp
    · rw [utf16_cons, hutf16, cons_append, singleton_append,
        utf16ToUtf8Loop_pair behind16 hu, ih, pairCodepoint_of_low hu hv, ← hval,
        codepointBytes_scalar]
      simp

lemma utf8ToUtf16Loop_utf8 : ∀ {cs : List Scalar} {fuel : ℕ}, (utf8 cs).length < fuel →
    utf8ToUtf16Loop behind8 fuel (utf8 cs) = some (utf16 cs) := by
  intro cs
  induction cs with
  | nil =>
    intro fuel hfuel
    obtain ⟨fuel, rfl⟩ := exists_eq_succ_of_ne_zero (ne_of_gt hfuel)
    rfl
  | cons c cs ih =>
    intro fuel hfuel
    have hpos := length_utf8_pos c
    rw [utf8_cons, length_append] at hfuel
    obtain ⟨fuel, rfl⟩ := exists_eq_succ_of_ne_zero (show fuel ≠ 0 by omega)
    have hne : ¬(c.utf8 ++ utf8 cs).length = 0 := by
      rw [length_append]
      omega
    obtain ⟨first, hfirst, hlen, hdecode⟩ := decode_scalar c behind8 (utf8 cs)
    rw [utf8_cons, utf8ToUtf16Loop, if_neg hne]
    simp [hfirst, hlen, hdecode, codepointUnits_scalar, ih (show (utf8 cs).length < fuel by omega)]

/-! ## The conversions, on strings of scalar values -/

lemma utf32_to_utf8_scalars : (utf32_to_utf8 (cs.map Scalar.val)).dropLast = utf8 cs := by
  cases cs with
  | nil => rfl
  | cons c cs =>
    rw [utf32_to_utf8, if_neg (by simp), utf32ToUtf8Loop_scalars, dropLast_concat]

lemma utf8_to_utf32_scalars :
    (utf8_to_utf32 behind8 (utf8 cs)).map dropLast = some (cs.map Scalar.val) := by
  rw [utf8_to_utf32]
  split_ifs with hempty
  · cases cs with
    | nil => rfl
    | cons c cs =>
      have hpos := length_utf8_pos c
      rw [utf8_cons, length_append] at hempty
      omega
  · rw [utf8ToUtf32Loop_utf8 behind8 (lt_succ_self _), map_some, dropLast_concat]

lemma utf16_to_utf8_scalars :
    (utf16_to_utf8 behind16 (utf16 cs)).map dropLast = some (utf8 cs) := by
  rw [utf16_to_utf8]
  split_ifs with hempty
  · cases cs with
    | nil => rfl
    | cons c cs =>
      rcases c.utf16_cases with ⟨u, hutf16, -⟩ | ⟨u, v, hutf16, -⟩ <;> simp [hutf16] at hempty
  · rw [utf16ToUtf8Loop_utf16, map_some, dropLast_concat]

lemma utf8_to_utf16_scalars (cs : List Scalar) :
    (utf8_to_utf16 behind8 (utf8 cs)).map dropLast = some (utf16 cs) := by
  rw [utf8_to_utf16, utf8_to_utf16_no_null_terminator,
    utf8ToUtf16Loop_utf8 behind8 (lt_succ_self _)]
  simp

/-- **The conversions undo each other** on well-formed strings. -/
theorem utf_round_trips :
    (∀ s, WellFormedUtf16 s → ∃ u, (utf16_to_utf8 behind16 s).map List.dropLast = some u ∧
      (utf8_to_utf16 behind8 u).map List.dropLast = some s) ∧
    (∀ cs : List Scalar, (utf8_to_utf32 behind8 (utf32_to_utf8 (cs.map Scalar.val)).dropLast).map
      List.dropLast = some (cs.map Scalar.val)) ∧
    (∀ u, WellFormedUtf8 u → ∃ s, (utf8_to_utf16 behind8 u).map List.dropLast = some s ∧
      (utf16_to_utf8 behind16 s).map List.dropLast = some u) := by
  refine ⟨fun s hs => ?_, fun cs => ?_, fun u hu => ?_⟩
  · obtain ⟨cs, rfl⟩ := hs.exists_utf16
    exact ⟨utf8 cs, utf16_to_utf8_scalars behind16 cs, utf8_to_utf16_scalars behind8 cs⟩
  · rw [utf32_to_utf8_scalars]
    exact utf8_to_utf32_scalars behind8 cs
  · obtain ⟨cs, rfl⟩ := hu.exists_utf8
    exact ⟨utf16 cs, utf8_to_utf16_scalars behind8 cs, utf16_to_utf8_scalars behind16 cs⟩

/-- A string with characters of one to four bytes. -/
theorem utf_round_trips_mixed : ∃ u,
    (utf16_to_utf8 nothing [0x41, 0xE9, 0x20AC, 0xD83D, 0xDE00]).map List.dropLast = some u ∧
      (utf8_to_utf16 nothing u).map List.dropLast = some [0x41, 0xE9, 0x20AC, 0xD83D, 0xDE00] :=
  (utf_round_trips nothing nothing).1 _
    (.unit (by decide) (by decide) (.unit (by decide) (by decide) (.unit (by decide) (by decide)
      (.pair (by decide) (by decide) .nil))))

end Unicode

end Droid
