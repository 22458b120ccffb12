import DroidPlatform.Parcel.Lemmas.Reads

/-!
# Spans handed out by reads

A read hands out a span of the data: a pointer and a length that came from the peer.  The test that
protects it is made on the *padded* length, and padding wraps: a length within three bytes of `2^32`
becomes `0`, and the test passes anywhere.

* `readInplace(0xffffffff)` succeeds on any parcel, and so does the unflattening of an object that
  claims that size;
* a `String16` of `0x7ffffffe` characters needs `0xfffffffe` bytes, which is one of those lengths;
* a native handle multiplies its count by `sizeof(int)` first: `0x40000000` integers are none.

`read_span_inside_iff` says for each reader when the span lies inside the data: exactly if the length
does not wrap.  `readString8` cannot be led astray, for its length is below `2^31`.
-/

namespace Droid

namespace Parcel

/-- A length that is handled faithfully: padding does not wrap it, or else it comes out of a buffer
that itself ends within three bytes of `2^32` and holds it. -/
def Unwrapped (size start len : ℕ) : Prop :=
  len + 3 < 2 ^ 32 ∨ (2 ^ 32 ≤ size + 3 ∧ start + len ≤ size)

variable {p q : Parcel} {len : ℕ} {n ptr : ℕ} {dup : ℤ → ℤ}

/-- The test of `readInplace` holds the padded length against the data, without wrapping. -/
lemma canRead.add_padSize_le (h : p.canRead len) (hsize : p.mDataSize < 2 ^ 32) :
    p.mDataPos + padSize len ≤ p.mDataSize := by
  obtain ⟨h1, h2⟩ := h
  have hpad := padSize_lt len
  by_cases hlt : p.mDataPos + padSize len < 2 ^ 32
  · rwa [toUInt32_eq_self hlt] at h2
  · rw [toUInt32_eq_sub (by omega) (by omega)] at h1
    omega

/-- A span that `readInplace` lets through is inside the data exactly if its length does not wrap. -/
lemma canRead.inside_iff (h : p.canRead len) (hsize : p.mDataSize < 2 ^ 32) :
    p.mDataPos + len ≤ p.mDataSize ↔ Unwrapped p.mDataSize p.mDataPos len := by
  have hle := h.add_padSize_le hsize
  refine ⟨fun hin => ?_, fun hlen => ?_⟩
  · by_cases hlt : len + 3 < 2 ^ 32
    · exact Or.inl hlt
    · exact Or.inr ⟨by omega, hin⟩
  · rcases hlen with hlt | ⟨_, hin⟩
    · rw [padSize_eq hlt] at hle
      omega
    · exact hin

lemma readInplace_eq_some (h : p.readInplace len = (some ptr, q)) :
    p.canRead len ∧ ptr = p.mDataPos ∧ q = p.skip (padSize len) := by
  rw [readInplace] at h
  split_ifs at h with hcan
  · obtain ⟨hptr, hq⟩ := Prod.ext_iff.mp h
    simp only [pointer] at hptr
    split_ifs at hptr
    exact ⟨hcan, (Option.some_inj.mp hptr).symm, hq.symm⟩
  · cases h

lemma read_eq_some {bytes : List UInt8} (h : p.read len = (some bytes, q)) :
    p.canRead len ∧ bytes = p.load p.mDataPos len ∧ q = p.skip (padSize len) := by
  rw [read] at h
  split_ifs at h with hcan
  · cases h
    exact ⟨hcan, rfl, rfl⟩
  · cases h

/-! ## Reader by reader -/

section

variable (hsize : p.mDataSize < 2 ^ 32)

include hsize

/-- `readString8` asks for less than `2^31` bytes, so its span is always inside. -/
lemma readString8Inplace_inside (h : p.readString8Inplace = (some (ptr, n), q)) :
    ptr = p.readInt32.2.mDataPos ∧ ptr + (n + 1) ≤ p.mDataSize := by
  simp only [readString8Inplace] at h
  split_ifs at h with hn
  · generalize hstr : p.readInt32.2.readInplace (p.readInt32.1 + 1).toNat = r at h
    obtain ⟨hr, _⟩ := Prod.ext_iff.mp h
    obtain ⟨ptr', hptr, heq⟩ := Option.map_eq_some_iff.mp hr
    cases heq
    obtain ⟨hcan, rfl, _⟩ := readInplace_eq_some (hstr.trans (Prod.ext hptr rfl))
    have hlen := (hcan.inside_iff (by rwa [reads_readInt32.mDataSize])).mpr (Or.inl (by omega))
    rw [reads_readInt32.mDataSize] at hlen
    exact ⟨rfl, by omega⟩
  · cases h

lemma readString16Inplace_inside_iff (h : p.readString16Inplace = (some ptr, n, q)) :
    ptr = p.readInt32.2.mDataPos ∧
      (ptr + (n + 1) * 2 ≤ p.mDataSize ↔ Unwrapped p.mDataSize ptr ((n + 1) * 2)) := by
  simp only [readString16Inplace] at h
  split_ifs at h with hn
  · generalize hstr : p.readInt32.2.readInplace (toUInt32 ((p.readInt32.1 + 1).toNat * 2)) = r at h
    obtain ⟨str, r⟩ := r
    cases str with
    | none => cases h
    | some ptr' =>
      cases h
      obtain ⟨hcan, rfl, _⟩ := readInplace_eq_some hstr
      -- the size of the string in bytes is below `2^32`: only padding can wrap
      have hbytes : toUInt32 ((p.readInt32.1 + 1).toNat * 2) = (p.readInt32.1.toNat + 1) * 2 := by
        rw [toUInt32_eq_self (by omega)]
        omega
      rw [hbytes] at hcan
      have hiff := hcan.inside_iff (by rwa [reads_readInt32.mDataSize])
      rw [reads_readInt32.mDataSize] at hiff
      exact ⟨rfl, hiff⟩
  · cases h

lemma readFlattenable_inside_iff {u : Unflatten} (h : p.readFlattenable dup = (some u, q)) :
    u.buf = p.readInt32.2.readInt32.2.mDataPos ∧
      (u.buf + u.len ≤ p.mDataSize ↔ Unwrapped p.mDataSize u.buf u.len) := by
  simp only [readFlattenable] at h
  generalize hstr : p.readInt32.2.readInt32.2.readInplace (padSize (toWord p.readInt32.1)) = r at h
  obtain ⟨str, r⟩ := r
  cases str with
  | none => cases h
  | some buf =>
    simp only [Prod.mk.injEq] at h
    split_ifs at h with hok
    · obtain ⟨hu, _⟩ := h
      cases hu
      obtain ⟨hcan, rfl, _⟩ := readInplace_eq_some hstr
      have hdata : p.readInt32.2.readInt32.2.mDataSize = p.mDataSize :=
        (reads_readInt32.trans reads_readInt32).mDataSize
      -- padding twice is padding once, so the test is that of the length itself
      have hcan' : p.readInt32.2.readInt32.2.canRead (toWord p.readInt32.1) := by
        rw [canRead] at hcan ⊢
        rwa [padSize_padSize] at hcan
      have hiff := hcan'.inside_iff (by rwa [hdata])
      rw [hdata] at hiff
      exact ⟨rfl, hiff⟩
    · cases h.1

lemma readNativeHandle_inside_iff {hr : HandleRead} (h : p.readNativeHandle dup = (some hr, q)) :
    hr.start + 4 * hr.numInts ≤ p.mDataSize ↔ hr.numInts < 2 ^ 30 := by
  simp only [readNativeHandle] at h
  generalize hfds : p.readInt32? = r1 at h
  obtain ⟨numFds, p1⟩ := r1
  cases numFds with
  | none => cases h
  | some numFds =>
    simp only at h
    generalize hints : p1.readInt32? = r2 at h
    obtain ⟨numInts, p2⟩ := r2
    cases numInts with
    | none => cases h
    | some numInts =>
      simp only at h
      generalize hloop : (readDupFileDescriptors dup numFds.toNat p2).2.2 = p3 at h
      generalize hread : p3.read (toWord (4 * numInts)) = r3 at h
      obtain ⟨ints, p4⟩ := r3
      cases ints with
      | none => cases h
      | some bytes =>
        cases h
        obtain ⟨hcan, _, _⟩ := read_eq_some hread
        have hdata : p3.mDataSize = p.mDataSize := by
          have h1 := reads_readInt32? (p := p)
          have h2 := reads_readInt32? (p := p1)
          have h3 := reads_readDupFileDescriptors dup numFds.toNat p2
          rw [hfds] at h1
          rw [hints] at h2
          rw [hloop] at h3
          exact (h1.trans (h2.trans h3)).mDataSize
        have hle := hcan.add_padSize_le (by rwa [hdata])
        show p3.mDataPos + 4 * numInts ≤ p.mDataSize ↔ numInts < 2 ^ 30
        refine ⟨fun hin => by omega, fun hlt => ?_⟩
        by_cases hneg : numInts < 0
        · omega
        · -- a count below `2^30` is copied in full
          have hword : toWord (4 * numInts) = 4 * numInts.toNat := by
            rw [toWord]
            omega
          rw [hword, padSize_four_mul (by omega)] at hle
          omega

end

/-- **Spans handed out by reads.**  For every state of a parcel, and for each reader that succeeds:
the span it hands out starts at the cursor (past the words with its length), and ends inside the data
exactly if its length does not wrap. -/
theorem read_span_inside_iff (p : Parcel) (hsize : p.mDataSize < 2 ^ 32) :
    (∀ len ptr q, len < 2 ^ 32 → p.readInplace len = (some ptr, q) → ptr = p.mDataPos ∧
      (ptr + len ≤ p.mDataSize ↔ Unwrapped p.mDataSize ptr len)) ∧
    (∀ len bytes q, len < 2 ^ 32 → p.read len = (some bytes, q) →
      (p.mDataPos + len ≤ p.mDataSize ↔ Unwrapped p.mDataSize p.mDataPos len)) ∧
    (∀ ptr n q, p.readString8Inplace = (some (ptr, n), q) → ptr = p.readInt32.2.mDataPos ∧
      ptr + (n + 1) ≤ p.mDataSize) ∧
    (∀ ptr n q, p.readString16Inplace = (some ptr, n, q) → ptr = p.readInt32.2.mDataPos ∧
      (ptr + (n + 1) * 2 ≤ p.mDataSize ↔ Unwrapped p.mDataSize ptr ((n + 1) * 2))) ∧
    (∀ dup u q, p.readFlattenable dup = (some u, q) → u.buf = p.readInt32.2.readInt32.2.mDataPos ∧
      (u.buf + u.len ≤ p.mDataSize ↔ Unwrapped p.mDataSize u.buf u.len)) ∧
    (∀ dup hr q, p.readNativeHandle dup = (some hr, q) →
      (hr.start + 4 * hr.numInts ≤ p.mDataSize ↔ hr.numInts < 2 ^ 30)) := by
  refine ⟨?_, ?_, fun ptr n q h => readString8Inplace_inside hsize h,
    fun ptr n q h => readString16Inplace_inside_iff hsize h,
    fun dup u q h => readFlattenable_inside_iff hsize h,
    fun dup hr q h => readNativeHandle_inside_iff hsize h⟩
  · intro len ptr q _ h
    obtain ⟨hcan, rfl, _⟩ := readInplace_eq_some h
    exact ⟨rfl, hcan.inside_iff hsize⟩
  · intro len bytes q _ h
    exact (read_eq_some h).1.inside_iff hsize

/-- Eight received bytes: a size of `0xffffffff` and no descriptors. -/
def hugeFlattenable : Parcel :=
  initState.ipcSetDataReference ([0xff, 0xff, 0xff, 0xff].getD · 0) 8 []

/-- A length of `0x7ffffffe` characters and nothing else. -/
def hugeString16 : Parcel :=
  initState.ipcSetDataReference ([0xfe, 0xff, 0xff, 0x7f].getD · 0) 4 []

/-- No descriptors and `0x40000000` integers. -/
def hugeHandle : Parcel :=
  initState.ipcSetDataReference ([0, 0, 0, 0, 0, 0, 0, 0x40].getD · 0) 8 []

theorem read_span_inside_iff_hugeString16 :
    hugeString16.readString16Inplace.1 = some 4 ∧ ¬ 4 + (2 ^ 31 - 2 + 1) * 2 ≤ 4 := by
  have hread : hugeString16.readString16Inplace
      = (some 4, 2 ^ 31 - 2, hugeString16.readString16Inplace.2.2) := by
    refine Prod.ext (by decide) (Prod.ext (by decide) rfl)
  have hiff := (read_span_inside_iff hugeString16 (by decide)).2.2.2.1 _ _ _ hread
  exact ⟨by decide, fun hin => absurd (hiff.2.mp hin) (by simp [Unwrapped, hugeString16,
    ipcSetDataReference, scanForFds])⟩

/-- **Spans outside the data.**  Each of these reads succeeds, and hands out a span that ends some
four gigabytes past the eight bytes received. -/
theorem read_span_outside :
    hugeFlattenable.mDataSize = 8 ∧ (hugeFlattenable.readInplace (2 ^ 32 - 1)).1 = some 0 ∧
      (hugeFlattenable.readFlattenable id).1.any (fun u => u.buf = 8 ∧ u.len = 2 ^ 32 - 1) = true ∧
      hugeString16.mDataSize = 4 ∧ hugeString16.readString16Inplace.1 = some 4 ∧
      hugeString16.readString16Inplace.2.1 = 2 ^ 31 - 2 ∧
      hugeHandle.mDataSize = 8 ∧ (hugeHandle.readNativeHandle id).1.any
        (fun hr => hr.start = 8 ∧ hr.numInts = 2 ^ 30) = true := by
  decide

end Parcel

end Droid
