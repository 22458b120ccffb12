import Mathlib.Tactic

/-!
# Bytes in memory

A block of memory is seen from its first byte: `Memory` gives the byte at every offset, also at
offsets past the end of the block, where the contents are whatever happens to be there.

* `Memory.write` and `Memory.slice` store and load a list of bytes, and `Memory.Holds` says what a
  load would give; `Holds` splits over concatenation, and a store only disturbs what it overlaps.
* `toBytes` and `ofBytes` are the little-endian encoding of natural numbers in a fixed number of
  bytes, `intBytes` and `bytesInt` that of signed ones, `joinFields` and `splitFields` that of
  records.
-/

namespace Droid

open List Nat

/-! ## Memory -/

/-- The bytes of a block, by offset. -/
abbrev Memory := ℕ → UInt8

variable {n : ℕ}

namespace Memory

/-- Store a list of bytes. -/
def write (m : Memory) (start : ℕ) (bytes : List UInt8) : Memory :=
  fun i => if start ≤ i then bytes.getD (i - start) (m i) else m i

/-- Load `n` bytes. -/
def slice (m : Memory) (start n : ℕ) : List UInt8 := (List.range n).map fun k => m (start + k)

/-- The first `n` bytes of one block, followed by those of another. -/
def splice (m fresh : Memory) (n : ℕ) : Memory := fun i => if i < n then m i else fresh i

/-- The bytes from `start` on are `bytes`. -/
def Holds (m : Memory) (start : ℕ) (bytes : List UInt8) : Prop := m.slice start bytes.length = bytes

variable {m m' : Memory} {start : ℕ} {bytes : List UInt8} {bytes' : List UInt8} {i : ℕ}

@[simp] lemma length_slice (n : ℕ) : (m.slice start n).length = n := by simp [slice]

lemma slice_add (n k : ℕ) : m.slice start (n + k) = m.slice start n ++ m.slice (start + n) k := by
  simp [slice, range_add, add_assoc]

lemma slice_congr (h : ∀ i, start ≤ i → i < start + n → m i = m' i) :
    m.slice start n = m'.slice start n := by
  refine map_congr_left fun k hk => ?_
  exact h _ (le_add_right _ _) (Nat.add_lt_add_left (mem_range.mp hk) _)

/-- Two blocks that read the same agree byte by byte. -/
lemma slice_eq_iff :
    m.slice start n = m'.slice start n ↔ ∀ i, start ≤ i → i < start + n → m i = m' i := by
  refine ⟨fun h i hle hlt => ?_, slice_congr⟩
  have hbyte := map_inj_left.mp h (i - start) (mem_range.mpr (by omega))
  rwa [Nat.add_sub_cancel' hle] at hbyte

@[simp] lemma holds_nil : m.Holds start [] := rfl

lemma Holds.slice_eq (h : m.Holds start bytes) (hn : n = bytes.length) :
    m.slice start n = bytes := by
  rw [hn]
  exact h

lemma Holds.apply (h : m.Holds start bytes) {k : ℕ} (hk : k < bytes.length) :
    m (start + k) = bytes[k] := by
  have hget : (m.slice start bytes.length)[k]? = bytes[k]? := congrArg (·[k]?) h
  simpa [slice, hk] using hget

lemma holds_append : m.Holds start (bytes ++ bytes') ↔
    m.Holds start bytes ∧ m.Holds (start + bytes.length) bytes' := by
  rw [Holds, length_append, slice_add]
  refine ⟨fun h => ?_, fun h => ?_⟩
  · exact append_inj h (by simp)
  · rw [h.1, h.2]

lemma Holds.congr (h : m.Holds start bytes)
    (heq : ∀ i, start ≤ i → i < start + bytes.length → m i = m' i) : m'.Holds start bytes := by
  rw [Holds, ← slice_congr heq]
  exact h

lemma write_of_lt (h : i < start) : m.write start bytes i = m i := by
  rw [write, if_neg (not_le.mpr h)]

lemma write_of_le (h : start + bytes.length ≤ i) : m.write start bytes i = m i := by
  rw [write, if_pos (by omega), getD_eq_getElem?_getD, getElem?_eq_none (by omega),
    Option.getD_none]

@[simp] lemma write_nil : m.write start [] = m := by
  funext i
  simp [write]

/-- A store of bytes that come from another block. -/
lemma write_slice_apply (a n i : ℕ) : m.write start (m'.slice a n) i =
    if start ≤ i ∧ i < start + n then m' (a + (i - start)) else m i := by
  split_ifs with hi
  · have hlt : i - start < n := by omega
    simp [write, slice, hi.1, hlt]
  · rcases lt_or_ge i start with hlt | hge
    · exact write_of_lt hlt
    · exact write_of_le (by rw [length_slice]; omega)

/-- What is stored can be loaded. -/
lemma holds_write : (m.write start bytes).Holds start bytes := by
  refine ext_getElem (by simp) fun k h1 h2 => ?_
  simp [slice, write, h2]

/-- A store leaves what it does not overlap. -/
lemma Holds.write (h : m.Holds start bytes) {start' : ℕ}
    (hdis : start + bytes.length ≤ start' ∨ start' + bytes'.length ≤ start) :
    (m.write start' bytes').Holds start bytes := by
  refine h.congr fun i h1 h2 => ?_
  rcases hdis with hdis | hdis
  · rw [write_of_lt (by omega)]
  · rw [write_of_le (by omega)]

/-- A block keeps what lies before the splice. -/
lemma Holds.splice (h : m.Holds start bytes) {fresh : Memory}
    (hn : start + bytes.length ≤ n) : (m.splice fresh n).Holds start bytes := by
  refine h.congr fun i _ h2 => ?_
  rw [Memory.splice, if_pos (by omega)]

end Memory

/-! ## Little-endian numbers -/

/-- The `w` low bytes of `n`, lowest first. -/
def toBytes : ℕ → ℕ → List UInt8
  | 0, _ => []
  | w + 1, n => UInt8.ofNat n :: toBytes w (n / 256)

/-- The number with these bytes, lowest first. -/
def ofBytes : List UInt8 → ℕ
  | [] => 0
  | b :: bs => b.toNat + 256 * ofBytes bs

@[simp] lemma length_toBytes (w n : ℕ) : (toBytes w n).length = w := by
  induction w generalizing n with
  | zero => rfl
  | succ w ih => rw [toBytes, length_cons, ih]

lemma ofBytes_lt (bytes : List UInt8) : ofBytes bytes < 256 ^ bytes.length := by
  induction bytes with
  | nil => simp [ofBytes]
  | cons b bs ih =>
    have hb := b.toNat_lt
    rw [ofBytes, length_cons]
    omega

variable {w : ℕ} (s : List UInt16)

lemma ofBytes_toBytes (h : n < 256 ^ w) : ofBytes (toBytes w n) = n := by
  induction w generalizing n with
  | zero =>
    rw [pow_zero, lt_one_iff] at h
    rw [h]
    rfl
  | succ w ih =>
    have hdiv : n / 256 < 256 ^ w := by
      rw [div_lt_iff_lt_mul (by norm_num)]
      exact h
    rw [toBytes, ofBytes, ih hdiv, UInt8.toNat_ofNat']
    omega

/-- The bytes of a record of numbers, each with its width. -/
def joinFields (fields : List (ℕ × ℕ)) : List UInt8 := fields.flatMap fun f => toBytes f.1 f.2

/-- The numbers of a record with these widths. -/
def splitFields : List ℕ → List UInt8 → List ℕ
  | [], _ => []
  | w :: ws, bytes => ofBytes (bytes.take w) :: splitFields ws (bytes.drop w)

lemma splitFields_joinFields {fields : List (ℕ × ℕ)} (h : ∀ f ∈ fields, f.2 < 256 ^ f.1) :
    splitFields (fields.map Prod.fst) (joinFields fields) = fields.map Prod.snd := by
  induction fields with
  | nil => rfl
  | cons f fields ih =>
    have hf := ofBytes_toBytes (h f mem_cons_self)
    have hrest := ih fun g hg => h g (mem_cons_of_mem _ hg)
    rw [joinFields, flatMap_cons, ← joinFields, map_cons, map_cons, splitFields,
      take_left' (length_toBytes _ _), drop_left' (length_toBytes _ _), hf, hrest]

/-- The encoding of a signed number in `w` bytes. -/
def intBytes (w : ℕ) (x : ℤ) : List UInt8 := toBytes w (x % 256 ^ w).toNat

/-- The signed number with these bytes. -/
def bytesInt (bytes : List UInt8) : ℤ := Int.bmod (ofBytes bytes) (256 ^ bytes.length)

@[simp] lemma length_intBytes (w : ℕ) (x : ℤ) : (intBytes w x).length = w := length_toBytes _ _

lemma bytesInt_intBytes {x : ℤ} (h : -(256 ^ w) ≤ 2 * x) (h' : 2 * x < 256 ^ w) :
    bytesInt (intBytes w x) = x := by
  have hpos : (0 : ℤ) < 256 ^ w := by positivity
  have hlt : (x % 256 ^ w).toNat < 256 ^ w := by
    have := Int.emod_lt_of_pos x hpos
    zify
    rw [Int.toNat_of_nonneg (Int.emod_nonneg _ hpos.ne')]
    exact this
  rw [bytesInt, length_intBytes, intBytes, ofBytes_toBytes hlt,
    Int.toNat_of_nonneg (Int.emod_nonneg _ hpos.ne')]
  rw [show (256 ^ w) = ((256 ^ w : ℕ) : ℤ) by push_cast; rfl, Int.emod_bmod]
  exact Int.bmod_eq_of_le (by push_cast; omega) (by push_cast; omega)

/-! ## 16-bit units -/

/-- The bytes of a string of 16-bit units. -/
def unitBytes : List UInt8 := s.flatMap fun c => toBytes 2 c.toNat

/-- The 16-bit units these bytes make up. -/
def bytesUnits : List UInt8 → List UInt16
  | b :: b' :: bytes => UInt16.ofNat (ofBytes [b, b']) :: bytesUnits bytes
  | _ => []

@[simp] lemma length_unitBytes : (unitBytes s).length = 2 * s.length := by
  induction s with
  | nil => rfl
  | cons c s ih =>
    rw [unitBytes, flatMap_cons, length_append, ← unitBytes, length_toBytes, length_cons]
    omega

lemma length_bytesUnits (n : ℕ) (bytes : List UInt8) (h : bytes.length = 2 * n) :
    (bytesUnits bytes).length = n := by
  induction n generalizing bytes with
  | zero =>
    obtain rfl := length_eq_zero_iff.mp h
    rfl
  | succ n ih =>
    match bytes, h with
    | b :: b' :: bytes, h =>
      rw [bytesUnits, length_cons, ih bytes (by simp only [length_cons] at h; omega)]

lemma bytesUnits_unitBytes : bytesUnits (unitBytes s) = s := by
  induction s with
  | nil => rfl
  | cons c s ih =>
    have hc : ofBytes (toBytes 2 c.toNat) = c.toNat := ofBytes_toBytes c.toNat_lt
    show UInt16.ofNat (ofBytes (toBytes 2 c.toNat)) :: bytesUnits (unitBytes s) = c :: s
    rw [hc, ih, UInt16.ofNat_toNat]

end Droid
