import DroidPlatform.Parcel.Item
import DroidPlatform.Parcel.ReadSpan

/-!
# What reading an item takes off

Where the pieces of an item lie ahead of the cursor (`Ahead`), they are read as that item and the
cursor moves over them: `Item.read_of_ahead`.  Conversely a string that was read moves the cursor by
the size of its encoding, whatever lies there.
-/

namespace Droid

open List Option Parcel

namespace Parcel

/-! ## What a read takes off -/

/-- These bytes lie ahead of the cursor. -/
structure Ahead (p : Parcel) (bytes : List UInt8) : Prop where
  holds : Memory.Holds p.byte p.mDataPos bytes
  inside : p.mDataPos + bytes.length ≤ p.mDataSize
  size : p.mDataSize < 2 ^ 31
  null : p.mData = none → p.mDataSize = 0

section Read

variable {p : Parcel} {bytes rest : List UInt8}

lemma Ahead.left (h : p.Ahead (bytes ++ rest)) : p.Ahead bytes where
  holds := (Memory.holds_append.mp h.holds).1
  inside := by
    have := h.inside
    rw [length_append] at this
    omega
  size := h.size
  null := h.null

lemma Ahead.skip_mDataPos (h : p.Ahead bytes) :
    (p.skip bytes.length).mDataPos = p.mDataPos + bytes.length := by
  have := h.inside
  have := h.size
  exact toUInt32_eq_self (by omega)

lemma Ahead.skip (h : p.Ahead (bytes ++ rest)) : (p.skip bytes.length).Ahead rest where
  holds := by
    rw [h.left.skip_mDataPos]
    exact (Memory.holds_append.mp h.holds).2
  inside := by
    have := h.inside
    rw [length_append] at this
    rw [h.left.skip_mDataPos]
    show _ ≤ p.mDataSize
    omega
  size := h.size
  null := h.null

lemma Ahead.load (h : p.Ahead bytes) {n : ℕ} (hn : n = bytes.length) :
    p.load p.mDataPos n = bytes := h.holds.slice_eq hn

lemma Ahead.readAligned (h : p.Ahead bytes) :
    p.readAligned bytes.length = (some bytes, p.skip bytes.length) := by
  have := h.inside
  have := h.size
  rw [Parcel.readAligned, toUInt32_eq_self (by omega), if_pos (by omega), h.load rfl]

lemma Ahead.readInt32 {val : ℤ} (h : p.Ahead (intBytes 4 val)) (hval : IsInt32 val) :
    p.readInt32 = (val, p.skip (intBytes 4 val).length) := by
  have hread := h.readAligned
  rw [length_intBytes] at hread ⊢
  have hbytes : bytesInt (intBytes 4 val) = val :=
    bytesInt_intBytes (by norm_num; linarith [hval.1]) (by norm_num; linarith [hval.2])
  simp [Parcel.readInt32, readInt32?, hread, hbytes]

lemma Ahead.canRead (h : p.Ahead (padded bytes)) :
    p.canRead bytes.length ∧ padSize bytes.length = (padded bytes).length := by
  have hin := h.inside
  have hsize := h.size
  rw [length_padded] at hin ⊢
  have hpad := padSize_eq_roundUp (n := bytes.length) (by omega)
  refine ⟨?_, hpad⟩
  rw [Parcel.canRead, toUInt32_eq_self (by omega)]
  omega

lemma Ahead.read (h : p.Ahead (padded bytes)) :
    p.read bytes.length = (some bytes, p.skip (padded bytes).length) := by
  obtain ⟨hcan, hpad⟩ := h.canRead
  rw [Parcel.read, if_pos hcan, hpad, h.left.load rfl]

lemma Ahead.readInplace (h : p.Ahead (padded bytes)) (hdata : p.mData ≠ none) :
    p.readInplace bytes.length = (some p.mDataPos, p.skip (padded bytes).length) := by
  obtain ⟨hcan, hpad⟩ := h.canRead
  rw [Parcel.readInplace, if_pos hcan, hpad, pointer, if_neg (by simp [hdata])]

lemma Ahead.mData_ne (h : p.Ahead bytes) (hne : bytes ≠ []) : p.mData ≠ none := by
  intro hnone
  have := h.null hnone
  have := h.inside
  have := length_pos_of_ne_nil hne
  omega

/-- The first `NUL` ahead ends the string. -/
lemma Ahead.findNul {str : List UInt8} (h : p.Ahead (str ++ [0])) (hstr : 0 ∉ str) :
    p.findNul (toUInt32 (p.mDataSize + (2 ^ 32 - p.mDataPos))) = some str.length := by
  have hin := h.inside
  have hsize := h.size
  rw [length_append, length_singleton] at hin
  rw [Parcel.findNul, find?_range_eq_some, toUInt32_eq_sub (by omega) (by omega)]
  refine ⟨?_, mem_range.mpr (by omega), ?_⟩
  · have := h.holds.apply (k := str.length) (by simp)
    simpa using this
  · intro k hk
    have := h.holds.apply (k := k) (by simp; omega)
    rw [getElem_append_left hk] at this
    have hne : str[k] ≠ 0 := fun hzero => hstr (hzero ▸ getElem_mem hk)
    simpa [this] using hne

lemma skip_skip (m n : ℕ) : (p.skip m).skip n = p.skip (m + n) := by
  simp [skip, toUInt32, add_assoc]

/-- A length of 32 bits, and the rest after it. -/
lemma Ahead.readLength {n : ℕ} (h : p.Ahead (intBytes 4 n ++ rest)) (hn : n < 2 ^ 31) :
    p.readInt32 = ((n : ℤ), p.skip 4) ∧ (p.skip 4).Ahead rest := by
  have hskip := h.skip
  refine ⟨?_, hskip⟩
  have := h.left.readInt32 ⟨by omega, by omega⟩
  rwa [length_intBytes] at this

end Read

namespace Item

variable {p : Parcel} {allow : Bool} {mmap : ℤ → Bool} {item : Item}

lemma string8_ahead {str : List UInt8} (h : p.Ahead (string8 str).pieces.flatten) :
    p.readString8 = (str, p.skip (string8 str).pieces.flatten.length) := by
  have hin := h.inside
  have hsize := h.size
  have hround := le_roundUp (str.length + 1)
  by_cases hnil : str = []
  · subst hnil
    have hread := (h.readLength (by norm_num)).1
    simp only [readString8, readString8Inplace, hread]
    rfl
  · have hpieces : (string8 str).pieces.flatten =
        intBytes 4 str.length ++ padded (str ++ [0]) := by
      simp [pieces, hnil]
    rw [hpieces] at h hin ⊢
    simp at hin
    obtain ⟨hread, hq⟩ := h.readLength (by omega)
    have hplace := hq.readInplace (hq.mData_ne (by simp [padded]))
    rw [length_append, length_singleton] at hplace
    have hstr : p.load (p.skip 4).mDataPos str.length = str := by
      rw [padded, append_assoc] at hq
      exact hq.left.load rfl
    have hpos := length_pos_of_ne_nil hnil
    simp only [readString8, readString8Inplace, hread]
    rw [if_pos ⟨by omega, by omega⟩, show ((str.length : ℤ) + 1).toNat = str.length + 1 by omega,
      hplace, skip_skip]
    simp [hstr]

lemma string16_ahead {str : List UInt16} (h : p.Ahead (string16 (some str)).pieces.flatten) :
    ∃ ptr, p.readString16Inplace =
        (some ptr, str.length, p.skip (string16 (some str)).pieces.flatten.length) ∧
      p.load ptr (2 * str.length) = unitBytes str := by
  have hpieces : (string16 (some str)).pieces.flatten =
      intBytes 4 str.length ++ padded (unitBytes str ++ [0, 0]) := by
    simp [pieces]
  have hin := h.inside
  have hsize := h.size
  have hround := le_roundUp (2 * str.length + 2)
  rw [hpieces] at h hin ⊢
  simp at hin
  obtain ⟨hread, hq⟩ := h.readLength (by omega)
  have hplace := hq.readInplace (hq.mData_ne (by simp [padded]))
  rw [length_append, length_unitBytes] at hplace
  refine ⟨(p.skip 4).mDataPos, ?_, ?_⟩
  · have hlen : toUInt32 (((str.length : ℤ) + 1).toNat * 2) = 2 * str.length + [(0 : UInt8),
      0].length := by
      rw [toUInt32_eq_self (by omega)]
      simp
      omega
    simp only [readString16Inplace, hread]
    rw [if_pos ⟨by omega, by omega⟩, hlen, hplace, skip_skip]
    simp
  · rw [padded, append_assoc] at hq
    exact hq.left.load (length_unitBytes str).symm

lemma blob_ahead (mmap : ℤ → Bool) {data : List UInt8} (h : p.Ahead (blob data).pieces.flatten) :
    ∃ ptr, p.readBlob data.length mmap =
        (.ok (.inPlace ptr), p.skip (blob data).pieces.flatten.length) ∧
      p.load ptr data.length = data := by
  have hpieces : (blob data).pieces.flatten = intBytes 4 (0 : ℕ) ++ padded data := by
    simp [pieces]
  rw [hpieces] at h ⊢
  have hdata := h.mData_ne (by simp [intBytes, toBytes])
  obtain ⟨-, hq⟩ := h.readLength (by norm_num)
  have hread := h.left.readAligned
  have hplace := hq.readInplace hdata
  have hzero : bytesInt (intBytes 4 (0 : ℕ)) = 0 := by decide
  rw [length_intBytes] at hread
  refine ⟨(p.skip 4).mDataPos, ?_, ?_⟩
  · simp only [readBlob, readInt32?, hread, map_some, hzero, hplace, skip_skip]
    simp
  · rw [padded] at hq
    exact hq.left.load rfl

/-- **The pieces of an item are read as the item.** -/
lemma read_of_ahead (h : p.Ahead item.pieces.flatten) (hv : item.Valid allow) :
    item.kind.read mmap p = (some item, p.skip item.pieces.flatten.length) := by
  cases item with
  | int32 val =>
    rw [pieces, flatten_singleton] at h ⊢
    simp only [kind, Kind.read, h.readInt32 hv]
  | int64 val =>
    rw [pieces, flatten_singleton] at h ⊢
    have hbytes : bytesInt (intBytes 8 val) = val :=
      bytesInt_intBytes (by norm_num; linarith [hv.1]) (by norm_num; linarith [hv.2])
    have hread := h.readAligned
    rw [length_intBytes] at hread ⊢
    simp [kind, Kind.read, readInt64, hread, hbytes]
  | cString str =>
    rw [pieces, flatten_singleton] at h ⊢
    have hdata := h.mData_ne (by simp [padded])
    obtain ⟨-, hpad⟩ := h.canRead
    rw [length_append, length_singleton] at hpad
    have hnul := h.left.findNul hv
    have hstr := h.left.left.load rfl
    simp only [kind, Kind.read, readCString, cStringAt, hnul, pointer, hdata, hpad,
      isNone_iff_eq_none, false_and, if_false, map_some, getD_some, hstr]
  | string8 str => simp only [kind, Kind.read, string8_ahead h]
  | string16 str =>
    cases str with
    | none =>
      simp only [Kind.read, readString16Inplace, h.readInt32 (by decide)]
      rfl
    | some str =>
      obtain ⟨ptr, hread, hload⟩ := string16_ahead h
      simp [kind, Kind.read, hread, hload, bytesUnits_unitBytes]
  | bytes data =>
    rw [pieces, flatten_singleton] at h ⊢
    simp [kind, Kind.read, h.read]
  | blob data =>
    obtain ⟨ptr, hread, hload⟩ := blob_ahead mmap h
    simp only [kind, Kind.read, hread, hload]

end Item

/-! ## How far a read moves the cursor -/

section Moves

variable {p q : Parcel}

lemma readInt32_cases : (p.readInt32 = (0, p) ∧ p.mDataSize < toUInt32 (p.mDataPos + 4)) ∨
    ∃ val, p.readInt32 = (val, p.skip 4) := by
  simp only [readInt32, readInt32?, readAligned]
  split_ifs with hle
  · exact Or.inr ⟨_, rfl⟩
  · exact Or.inl ⟨rfl, not_le.mp hle⟩

lemma skip_of_readString8 {str : List UInt8} (hne : str ≠ []) (h : p.readString8 = (str, q)) :
    q = p.skip (4 + padSize (str.length + 1)) := by
  simp only [readString8, readString8Inplace] at h
  rcases readInt32_cases with ⟨hread, -⟩ | ⟨val, hread⟩
  · rw [hread] at h
    cases h
    exact absurd rfl hne
  · rw [hread] at h
    split_ifs at h with hval
    · rcases hplace : (p.skip 4).readInplace (val + 1).toNat with ⟨ptr, r⟩
      rw [hplace] at h
      cases ptr with
      | none =>
        cases h
        exact absurd rfl hne
      | some ptr =>
        cases h
        obtain ⟨-, -, rfl⟩ := readInplace_eq_some hplace
        have hlen : (p.load ptr val.toNat).length = val.toNat := Memory.length_slice _
        rw [skip_skip, map_some, elim_some, hlen,
          show (val + 1).toNat = val.toNat + 1 by omega]
    · cases h
      exact absurd rfl hne

lemma skip_of_readString16Inplace {ptr n : ℕ} (h : p.readString16Inplace = (some ptr, n, q)) :
    q = p.skip (4 + padSize (toUInt32 ((n + 1) * 2))) := by
  simp only [readString16Inplace] at h
  rcases readInt32_cases with ⟨hread, hshort⟩ | ⟨val, hread⟩
  · -- where there is no length there is no room for a `NUL` either
    have hnot : ¬ p.canRead (toUInt32 (((0 : ℤ) + 1).toNat * 2)) :=
      fun hcan => absurd hcan.2 (not_le.mpr hshort)
    rw [hread] at h
    simp only [readInplace] at h
    split_ifs at h <;> cases h
  · rw [hread] at h
    split_ifs at h with hval
    · rcases hplace : (p.skip 4).readInplace (toUInt32 ((val + 1).toNat * 2)) with ⟨ptr', r⟩
      rw [hplace] at h
      cases ptr' with
      | none => cases h
      | some ptr' =>
        cases h
        obtain ⟨-, -, rfl⟩ := readInplace_eq_some hplace
        rw [skip_skip, show (val + 1).toNat = val.toNat + 1 by omega]
    · cases h

lemma skip_of_readCString {ptr : ℕ} (h : p.readCString = (some ptr, q)) :
    q = p.skip (padSize ((p.cStringAt ptr).length + 1)) := by
  rw [readCString] at h
  rw [cStringAt]
  cases hnul : p.findNul (toUInt32 (p.mDataSize + (2 ^ 32 - p.mDataPos))) with
  | none =>
    rw [hnul] at h
    cases h
  | some len =>
    rw [hnul] at h
    have hlen : (p.load ptr len).length = len := Memory.length_slice _
    rw [getD_some, hlen]
    exact (Prod.ext_iff.mp h).2.symm

end Moves

end Parcel

end Droid
