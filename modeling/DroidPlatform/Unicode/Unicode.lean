import DroidPlatform.Core.Word

/-!
# Conversions between UTF-8, UTF-16 and UTF-32

The functions of `Unicode.cpp` take a pointer and a length.  Here the source is the list of the units
from the current position to the end, together with what lies behind the end: `behind k` is the `k`-th
unit there, or `none` where nothing may be read.  A function that reads such a unit answers `none`.
`nothing` forbids all reads behind the end.

A conversion returns the list of what it writes, the terminator included.  `char32_t` values are
natural numbers below `2 ^ 32`; `char` is unsigned, which makes no difference to the bits.
-/

namespace Droid

namespace Unicode

/-- Nothing behind the end can be read. -/
def nothing {α : Type} : ℕ → Option α := fun _ => none

/-- The `k`-th unit from the current position. -/
def peek {α : Type} (behind : ℕ → Option α) (src : List α) (k : ℕ) : Option α :=
  if h : k < src.length then some src[k] else behind (k - src.length)

def kByteMask : ℕ := 0xBF

def kByteMark : ℕ := 0x80

def kUnicodeSurrogateStart : ℕ := 0xD800

def kUnicodeSurrogateEnd : ℕ := 0xDFFF

def kUnicodeMaxCodepoint : ℕ := 0x10FFFF

def kFirstByteMark (bytes : ℕ) : ℕ := [0x00, 0x00, 0xC0, 0xE0, 0xF0].getD bytes 0

/-! ## UTF-32 -/

/-- `utf32_codepoint_utf8_length(srcChar)` -/
def utf32_codepoint_utf8_length (srcChar : ℕ) : ℕ :=
  if srcChar < 0x80 then 1
  else if srcChar < 0x800 then 2
  else if srcChar < 0x10000 then
    if srcChar < kUnicodeSurrogateStart ∨ kUnicodeSurrogateEnd < srcChar then 3 else 0
  else if srcChar ≤ kUnicodeMaxCodepoint then 4
  else 0

/-- The cases of `utf32_codepoint_to_utf8`, which fall through; the bytes are written backwards. -/
def emit (bytes : ℕ) : ℕ → ℕ → List UInt8 → List UInt8
  | 0, _, written => written
  | 1, srcChar, written => UInt8.ofNat (srcChar ||| kFirstByteMark bytes) :: written
  | k + 2, srcChar, written =>
    emit bytes (k + 1) (srcChar >>> 6)
      (UInt8.ofNat ((srcChar ||| kByteMark) &&& kByteMask) :: written)

/-- `utf32_codepoint_to_utf8(dstP, srcChar, bytes)` -/
def utf32_codepoint_to_utf8 (srcChar bytes : ℕ) : List UInt8 := emit bytes bytes srcChar []

/-- The bytes of a code point, as the conversions to UTF-8 write them. -/
def codepointBytes (utf32 : ℕ) : List UInt8 :=
  utf32_codepoint_to_utf8 utf32 (utf32_codepoint_utf8_length utf32)

/-- The loop of `utf32_to_utf8`. -/
def utf32ToUtf8Loop : List ℕ → List UInt8
  | [] => [0]
  | c :: src => codepointBytes c ++ utf32ToUtf8Loop src

/-- `utf32_to_utf8(src, src_len, dst)` -/
def utf32_to_utf8 (src : List ℕ) : List UInt8 := if src.length = 0 then [] else utf32ToUtf8Loop src

/-! ## UTF-16 -/

/-- `(unit & 0xFC00) == 0xD800` -/
def isHigh (u : UInt16) : Bool := u.toNat &&& 0xFC00 = 0xD800

/-- `(unit & 0xFC00) == 0xDC00` -/
def isLow (u : UInt16) : Bool := u.toNat &&& 0xFC00 = 0xDC00

/-- The code point that `utf16_to_utf8` makes of a high surrogate and the unit behind it. -/
def pairCodepoint (high unit : UInt16) : ℕ :=
  toUInt32 (((high.toNat - 0xD800) <<< 10 ||| toWord ((unit.toNat : ℤ) - 0xDC00)) + 0x10000)

/-- The loop of `utf16_to_utf8`. -/
def utf16ToUtf8Loop (behind : ℕ → Option UInt16) : List UInt16 → Option (List UInt8)
  | [] => some [0]
  | [unit] =>
    if isHigh unit then do
      let next ← behind 0
      some (codepointBytes (pairCodepoint unit next) ++ [0])
    else some (codepointBytes unit.toNat ++ [0])
  | unit :: next :: src =>
    if isHigh unit then do
      let written ← utf16ToUtf8Loop behind src
      some (codepointBytes (pairCodepoint unit next) ++ written)
    else do
      let written ← utf16ToUtf8Loop behind (next :: src)
      some (codepointBytes unit.toNat ++ written)

/-- `utf16_to_utf8(src, src_len, dst)` -/
def utf16_to_utf8 (behind : ℕ → Option UInt16) (src : List UInt16) : Option (List UInt8) :=
  if src.length = 0 then some [] else utf16ToUtf8Loop behind src

/-- The loop of `utf16_to_utf8_length`; a high surrogate that is not the last unit is skipped. -/
def utf16ToUtf8LengthLoop : List UInt16 → ℕ
  | [] => 0
  | [unit] => utf32_codepoint_utf8_length unit.toNat
  | unit :: next :: src =>
    if isHigh unit then
      if isLow next then 4 + utf16ToUtf8LengthLoop src
      else utf32_codepoint_utf8_length next.toNat + utf16ToUtf8LengthLoop src
    else utf32_codepoint_utf8_length unit.toNat + utf16ToUtf8LengthLoop (next :: src)

/-- `utf16_to_utf8_length(src, src_len)`; the sum is a `size_t` that is returned as an `ssize_t`. -/
def utf16_to_utf8_length (src : List UInt16) : ℤ :=
  if src.length = 0 then -1 else toInt32 (utf16ToUtf8LengthLoop src)

/-! ## UTF-8 -/

/-- The loop of `utf32_at_internal` and what follows it. -/
def utf32AtLoop (behind : ℕ → Option UInt8) (src : List UInt8) (first_char : ℕ) :
    ℕ → ℕ → ℕ → ℕ → ℕ → Option (ℕ × ℕ)
  | 0, _, _, _, _ => none
  | fuel + 1, num_to_read, mask, to_ignore_mask, utf32 =>
    if first_char &&& mask ≠ 0 then do
      let byte ← peek behind src num_to_read
      utf32AtLoop behind src first_char fuel (num_to_read + 1) (mask >>> 1)
        (to_ignore_mask ||| mask) (toUInt32 ((utf32 <<< 6) + (byte.toNat &&& 0x3F)))
    else
      let to_ignore_mask := to_ignore_mask ||| mask
      some (utf32 &&& (0xFFFFFFFF - toUInt32 (to_ignore_mask <<< (6 * (num_to_read - 1)))),
        num_to_read)

variable (behind : ℕ → Option UInt8)

/-- `utf32_at_internal(cur, &num_read)`; the mask has seven bits. -/
def utf32_at_internal (src : List UInt8) : Option (ℕ × ℕ) := do
  let first_char ← peek behind src 0
  if first_char.toNat &&& 0x80 = 0 then some (first_char.toNat, 1)
  else utf32AtLoop behind src first_char.toNat 8 1 0x40 0xFFFFFF80 first_char.toNat

/-- The loop of `utf8_to_utf32`. -/
def utf8ToUtf32Loop (behind : ℕ → Option UInt8) : ℕ → List UInt8 → Option (List ℕ)
  | 0, _ => none
  | fuel + 1, src =>
    if src.length = 0 then some [0]
    else do
      let (utf32, num_read) ← utf32_at_internal behind src
      let written ← utf8ToUtf32Loop behind fuel (src.drop num_read)
      some (utf32 :: written)

/-- `utf8_to_utf32(src, src_len, dst)` -/
def utf8_to_utf32 (src : List UInt8) : Option (List ℕ) :=
  if src.length = 0 then some [] else utf8ToUtf32Loop behind (src.length + 1) src

/-- `utf8_codepoint_len(ch)` -/
def utf8_codepoint_len (ch : UInt8) : ℕ := ((0xe5000000 >>> ((ch.toNat >>> 3) &&& 0x1e)) &&& 3) + 1

/-- `utf8_shift_and_mask(&codePoint, byte)` -/
def utf8_shift_and_mask (codePoint : ℕ) (byte : UInt8) : ℕ :=
  toUInt32 (codePoint <<< 6) ||| (0x3F &&& byte.toNat)

/-- `utf8_to_utf32_codepoint(src, length)` -/
def utf8_to_utf32_codepoint (src : List UInt8) (length : ℕ) : Option ℕ := do
  let b0 ← peek behind src 0
  match length with
  | 1 => some b0.toNat
  | 2 =>
    let b1 ← peek behind src 1
    some (utf8_shift_and_mask (b0.toNat &&& 0x1f) b1)
  | 3 =>
    let b1 ← peek behind src 1
    let b2 ← peek behind src 2
    some (utf8_shift_and_mask (utf8_shift_and_mask (b0.toNat &&& 0x0f) b1) b2)
  | 4 =>
    let b1 ← peek behind src 1
    let b2 ← peek behind src 2
    let b3 ← peek behind src 3
    some (utf8_shift_and_mask
      (utf8_shift_and_mask (utf8_shift_and_mask (b0.toNat &&& 0x07) b1) b2) b3)
  | _ => some 0xffff

/-- The units of a code point, as `utf8_to_utf16_no_null_terminator` writes them. -/
def codepointUnits (codepoint : ℕ) : List UInt16 :=
  if codepoint ≤ 0xFFFF then [UInt16.ofNat codepoint]
  else
    let codepoint := codepoint - 0x10000
    [UInt16.ofNat ((codepoint >>> 10) + 0xD800), UInt16.ofNat ((codepoint &&& 0x3FF) + 0xDC00)]

/-- The loop of `utf8_to_utf16_no_null_terminator`. -/
def utf8ToUtf16Loop (behind : ℕ → Option UInt8) : ℕ → List UInt8 → Option (List UInt16)
  | 0, _ => none
  | fuel + 1, src =>
    if src.length = 0 then some []
    else do
      let first ← peek behind src 0
      let codepoint ← utf8_to_utf32_codepoint behind src (utf8_codepoint_len first)
      let written ← utf8ToUtf16Loop behind fuel (src.drop (utf8_codepoint_len first))
      some (codepointUnits codepoint ++ written)

/-- `utf8_to_utf16_no_null_terminator(u8str, u8len, u16str)` -/
def utf8_to_utf16_no_null_terminator (u8str : List UInt8) : Option (List UInt16) :=
  utf8ToUtf16Loop behind (u8str.length + 1) u8str

/-- `utf8_to_utf16(u8str, u8len, u16str)` -/
def utf8_to_utf16 (u8str : List UInt8) : Option (List UInt16) :=
  (utf8_to_utf16_no_null_terminator behind u8str).map fun written => written ++ [0]

end Unicode

end Droid
