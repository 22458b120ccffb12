import Mathlib.Tactic

/-!
# Unicode encoding forms

A Unicode scalar value is a code point that is not a surrogate.  `Scalar.utf8` and `Scalar.utf16` are
its UTF-8 and UTF-16 encodings in the arithmetic of the standard; a string of scalar values is
encoded one by one.

`WellFormedUtf8` lists the byte sequences that the standard allows (its table of well-formed byte
sequences), `WellFormedUtf16` asks for surrogates in pairs.  Every well-formed string is the encoding
of scalar values (`exists_utf8`, `exists_utf16`), so that what holds of all encodings holds of all
well-formed strings.
-/

namespace Droid

open UInt8 UInt16

structure Scalar where
  val : ℕ
  isScalar : val < 0xD800 ∨ 0xDFFF < val ∧ val ≤ 0x10FFFF
  deriving DecidableEq

namespace Scalar

variable (c : Scalar)

def utf8 : List UInt8 :=
  if c.val < 0x80 then [.ofNat c.val]
  else if c.val < 0x800 then [.ofNat (0xC0 + c.val / 64), .ofNat (0x80 + c.val % 64)]
  else if c.val < 0x10000 then
    [.ofNat (0xE0 + c.val / 4096), .ofNat (0x80 + c.val / 64 % 64), .ofNat (0x80 + c.val % 64)]
  else
    [.ofNat (0xF0 + c.val / 262144), .ofNat (0x80 + c.val / 4096 % 64),
      .ofNat (0x80 + c.val / 64 % 64), .ofNat (0x80 + c.val % 64)]

def utf16 : List UInt16 :=
  if c.val < 0x10000 then [.ofNat c.val]
  else [.ofNat (0xD800 + (c.val - 0x10000) / 1024), .ofNat (0xDC00 + (c.val - 0x10000) % 1024)]

end Scalar

/-- The UTF-8 encoding of a string. -/
def utf8 (cs : List Scalar) : List UInt8 := cs.flatMap Scalar.utf8

/-- The UTF-16 encoding of a string. -/
def utf16 (cs : List Scalar) : List UInt16 := cs.flatMap Scalar.utf16

@[simp] lemma utf8_cons (c : Scalar) (cs : List Scalar) : utf8 (c :: cs) = c.utf8 ++ utf8 cs := rfl

@[simp] lemma utf16_cons (c : Scalar) (cs : List Scalar) :
    utf16 (c :: cs) = c.utf16 ++ utf16 cs := rfl

/-! ## Well-formed strings -/

/-- A continuation byte. -/
def IsTail (b : UInt8) : Prop := 0x80 ≤ b.toNat ∧ b.toNat ≤ 0xBF

/-- The well-formed UTF-8 strings.  The second byte is restricted where the encoding would be longer
than need be, a surrogate, or beyond the last code point. -/
inductive WellFormedUtf8 : List UInt8 → Prop
  | nil : WellFormedUtf8 []
  | one {a : UInt8} {s : List UInt8} (ha : a.toNat ≤ 0x7F) (hs : WellFormedUtf8 s) :
      WellFormedUtf8 (a :: s)
  | two {a b : UInt8} {s : List UInt8} (ha : 0xC2 ≤ a.toNat ∧ a.toNat ≤ 0xDF) (hb : IsTail b)
      (hs : WellFormedUtf8 s) : WellFormedUtf8 (a :: b :: s)
  | three {a b c : UInt8} {s : List UInt8} (ha : 0xE0 ≤ a.toNat ∧ a.toNat ≤ 0xEF) (hb : IsTail b)
      (hlong : a.toNat = 0xE0 → 0xA0 ≤ b.toNat) (hsurrogate : a.toNat = 0xED → b.toNat ≤ 0x9F)
      (hc : IsTail c) (hs : WellFormedUtf8 s) : WellFormedUtf8 (a :: b :: c :: s)
  | four {a b c d : UInt8} {s : List UInt8} (ha : 0xF0 ≤ a.toNat ∧ a.toNat ≤ 0xF4) (hb : IsTail b)
      (hlong : a.toNat = 0xF0 → 0x90 ≤ b.toNat) (hlast : a.toNat = 0xF4 → b.toNat ≤ 0x8F)
      (hc : IsTail c) (hd : IsTail d) (hs : WellFormedUtf8 s) : WellFormedUtf8 (a :: b :: c :: d :: s)

/-- What the bytes of a scalar value are, and how they make up its value. -/
lemma Scalar.utf8_cases (c : Scalar) :
    (∃ a, c.utf8 = [a] ∧ a.toNat ≤ 0x7F ∧ c.val = a.toNat) ∨
    (∃ a b, c.utf8 = [a, b] ∧ (0xC0 ≤ a.toNat ∧ a.toNat < 0xE0) ∧ IsTail b ∧
      c.val = (a.toNat - 0xC0) * 64 + (b.toNat - 0x80)) ∨
    (∃ a b d, c.utf8 = [a, b, d] ∧ (0xE0 ≤ a.toNat ∧ a.toNat < 0xF0) ∧ IsTail b ∧ IsTail d ∧
      c.val = (a.toNat - 0xE0) * 4096 + (b.toNat - 0x80) * 64 + (d.toNat - 0x80)) ∨
    (∃ a b d e, c.utf8 = [a, b, d, e] ∧ (0xF0 ≤ a.toNat ∧ a.toNat < 0xF8) ∧ IsTail b ∧ IsTail d ∧
      IsTail e ∧ c.val = (a.toNat - 0xF0) * 262144 + (b.toNat - 0x80) * 4096 +
        (d.toNat - 0x80) * 64 + (e.toNat - 0x80)) := by
  have hscalar := c.isScalar
  simp only [IsTail]
  rw [utf8]
  split_ifs with h1 h2 h3
  · refine Or.inl ⟨_, rfl, ?_⟩
    simp only [UInt8.toNat_ofNat']
    omega
  · refine Or.inr (Or.inl ⟨_, _, rfl, ?_⟩)
    simp only [UInt8.toNat_ofNat']
    omega
  · refine Or.inr (Or.inr (Or.inl ⟨_, _, _, rfl, ?_⟩))
    simp only [UInt8.toNat_ofNat']
    omega
  · refine Or.inr (Or.inr (Or.inr ⟨_, _, _, _, rfl, ?_⟩))
    simp only [UInt8.toNat_ofNat']
    omega

def IsHighSurrogate (u : UInt16) : Prop := 0xD800 ≤ u.toNat ∧ u.toNat ≤ 0xDBFF
  deriving Decidable

def IsLowSurrogate (u : UInt16) : Prop := 0xDC00 ≤ u.toNat ∧ u.toNat ≤ 0xDFFF
  deriving Decidable

/-- What the units of a scalar value are, and how they make up its value. -/
lemma Scalar.utf16_cases (c : Scalar) :
    (∃ u, c.utf16 = [u] ∧ ¬IsHighSurrogate u ∧ c.val = u.toNat) ∨
    (∃ u v, c.utf16 = [u, v] ∧ IsHighSurrogate u ∧ IsLowSurrogate v ∧
      c.val = 0x10000 + (u.toNat - 0xD800) * 1024 + (v.toNat - 0xDC00)) := by
  have hscalar := c.isScalar
  simp only [IsHighSurrogate, IsLowSurrogate]
  rw [utf16]
  split_ifs with h
  · refine Or.inl ⟨_, rfl, ?_⟩
    simp only [UInt16.toNat_ofNat']
    omega
  · refine Or.inr ⟨_, _, rfl, ?_⟩
    simp only [UInt16.toNat_ofNat']
    omega

/-- The well-formed UTF-16 strings: every high surrogate is followed by a low one, and there are no
other surrogates. -/
inductive WellFormedUtf16 : List UInt16 → Prop
  | nil : WellFormedUtf16 []
  | unit {u : UInt16} {s : List UInt16} (hhigh : ¬IsHighSurrogate u) (hlow : ¬IsLowSurrogate u)
      (hs : WellFormedUtf16 s) : WellFormedUtf16 (u :: s)
  | pair {u v : UInt16} {s : List UInt16} (hhigh : IsHighSurrogate u) (hlow : IsLowSurrogate v)
      (hs : WellFormedUtf16 s) : WellFormedUtf16 (u :: v :: s)

/-- A byte is determined by its value. -/
lemma eq_ofNat_of_toNat {b : UInt8} {n : ℕ} (h : b.toNat = n) : UInt8.ofNat n = b := by
  rw [← h, UInt8.ofNat_toNat]

lemma eq_ofNat_of_toNat16 {u : UInt16} {n : ℕ} (h : u.toNat = n) : UInt16.ofNat n = u := by
  rw [← h, UInt16.ofNat_toNat]

/-- Well-formed UTF-8 encodes scalar values. -/
theorem WellFormedUtf8.exists_utf8 {s : List UInt8} (h : WellFormedUtf8 s) : ∃ cs, utf8 cs = s := by
  induction h with
  | nil => exact ⟨[], rfl⟩
  | @one a s ha hs ih =>
    obtain ⟨cs, rfl⟩ := ih
    refine ⟨⟨a.toNat, by omega⟩ :: cs, ?_⟩
    rw [utf8_cons, Scalar.utf8, if_pos (by show a.toNat < _; omega), UInt8.ofNat_toNat]
    rfl
  | @two a b s ha hb hs ih =>
    obtain ⟨cs, rfl⟩ := ih
    obtain ⟨hb, hb'⟩ := hb
    obtain ⟨n, hn⟩ : ∃ n, n = (a.toNat - 0xC0) * 64 + (b.toNat - 0x80) := ⟨_, rfl⟩
    refine ⟨⟨n, by omega⟩ :: cs, ?_⟩
    rw [utf8_cons, Scalar.utf8, if_neg (by show ¬n < _; omega), if_pos (by show n < _; omega)]
    show UInt8.ofNat (0xC0 + n / 64) :: ofNat (0x80 + n % 64) :: utf8 cs = _
    rw [eq_ofNat_of_toNat (b := a) (by omega), eq_ofNat_of_toNat (b := b) (by omega)]
  | @three a b c s ha hb hlong hsurrogate hc hs ih =>
    obtain ⟨cs, rfl⟩ := ih
    obtain ⟨hb, hb'⟩ := hb
    obtain ⟨hc, hc'⟩ := hc
    obtain ⟨n, hn⟩ : ∃ n, n = (a.toNat - 0xE0) * 4096 + (b.toNat - 0x80) * 64 + (c.toNat - 0x80) :=
      ⟨_, rfl⟩
    refine ⟨⟨n, by omega⟩ :: cs, ?_⟩
    rw [utf8_cons, Scalar.utf8, if_neg (by show ¬n < _; omega), if_neg (by show ¬n < _; omega),
      if_pos (by show n < _; omega)]
    show UInt8.ofNat (0xE0 + n / 4096) :: ofNat (0x80 + n / 64 % 64) ::
      ofNat (0x80 + n % 64) :: utf8 cs = _
    rw [eq_ofNat_of_toNat (b := a) (by omega), eq_ofNat_of_toNat (b := b) (by omega),
      eq_ofNat_of_toNat (b := c) (by omega)]
  | @four a b c d s ha hb hlong hlast hc hd hs ih =>
    obtain ⟨cs, rfl⟩ := ih
    obtain ⟨hb, hb'⟩ := hb
    obtain ⟨hc, hc'⟩ := hc
    obtain ⟨hd, hd'⟩ := hd
    obtain ⟨n, hn⟩ : ∃ n, n = (a.toNat - 0xF0) * 262144 + (b.toNat - 0x80) * 4096 +
        (c.toNat - 0x80) * 64 + (d.toNat - 0x80) := ⟨_, rfl⟩
    refine ⟨⟨n, by omega⟩ :: cs, ?_⟩
    rw [utf8_cons, Scalar.utf8, if_neg (by show ¬n < _; omega), if_neg (by show ¬n < _; omega),
      if_neg (by show ¬n < _; omega)]
    show UInt8.ofNat (0xF0 + n / 262144) :: ofNat (0x80 + n / 4096 % 64) ::
      ofNat (0x80 + n / 64 % 64) :: ofNat (0x80 + n % 64) :: utf8 cs = _
    rw [eq_ofNat_of_toNat (b := a) (by omega), eq_ofNat_of_toNat (b := b) (by omega),
      eq_ofNat_of_toNat (b := c) (by omega), eq_ofNat_of_toNat (b := d) (by omega)]

/-- Well-formed UTF-16 encodes scalar values. -/
theorem WellFormedUtf16.exists_utf16 {s : List UInt16} (h : WellFormedUtf16 s) :
    ∃ cs, utf16 cs = s := by
  induction h with
  | nil => exact ⟨[], rfl⟩
  | @unit u s hhigh hlow hs ih =>
    obtain ⟨cs, rfl⟩ := ih
    simp only [IsHighSurrogate, IsLowSurrogate] at hhigh hlow
    have hlt := u.toNat_lt
    refine ⟨⟨u.toNat, by omega⟩ :: cs, ?_⟩
    rw [utf16_cons, Scalar.utf16, if_pos (by show u.toNat < _; omega), UInt16.ofNat_toNat]
    rfl
  | @pair u v s hhigh hlow hs ih =>
    obtain ⟨cs, rfl⟩ := ih
    obtain ⟨hu, hu'⟩ := hhigh
    obtain ⟨hv, hv'⟩ := hlow
    obtain ⟨n, hn⟩ : ∃ n, n = 0x10000 + (u.toNat - 0xD800) * 1024 + (v.toNat - 0xDC00) := ⟨_, rfl⟩
    refine ⟨⟨n, by omega⟩ :: cs, ?_⟩
    rw [utf16_cons, Scalar.utf16, if_neg (by show ¬n < _; omega)]
    show UInt16.ofNat (0xD800 + (n - 0x10000) / 1024) ::
      ofNat (0xDC00 + (n - 0x10000) % 1024) :: utf16 cs = _
    rw [eq_ofNat_of_toNat16 (u := u) (by omega), eq_ofNat_of_toNat16 (u := v) (by omega)]

end Droid
