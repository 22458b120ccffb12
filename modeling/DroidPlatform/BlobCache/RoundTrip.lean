import DroidPlatform.BlobCache.Accounting

/-!
# Flattening and unflattening a blob cache

A cache that was filled by `set` fits into a buffer exactly when the buffer has the size that
`getFlattenedSize` returns, and a fresh cache with the same limits that reads the buffer answers
every `get` alike.

`getFlattenedSize` aligns the offset *before* it counts an entry, `flatten` and `unflatten` advance by
the aligned size of an entry *after* it.  `flattenFrom_spec` follows both: the offset is the aligned
size so far.  Nothing wraps around, since a cache in memory is larger than its flattened form.

`unflatten` replays the entries through `set`.  They come in their order, so that each goes to the
end (`Accounted.set_append`), and as they were held together before, none of them is too much.
-/

namespace Droid

open List CacheEntry Status Memory

namespace BlobCache

variable {c : BlobCache} {buffer : Memory} {byteOffset size : ℕ} {e : CacheEntry}
  {entries : List CacheEntry}

/-! ## Offsets -/

lemma align4_eq {n : ℕ} (h : n + 3 < 2 ^ 32) : align4 n = (n + 3) / 4 * 4 := by
  rw [align4, toUInt32_eq_self h]

/-- Aligning commutes with an aligned offset. -/
lemma align4_add {n : ℕ} (hoff : 4 ∣ byteOffset) (h : byteOffset + n + 3 < 2 ^ 32) :
    align4 (byteOffset + n) = byteOffset + align4 n := by
  rw [align4_eq h, align4_eq (by omega)]
  omega

/-- What holds of the offset and of the size so far when entries are flattened; those that follow do
not make the offset wrap around. -/
structure Aligned (size byteOffset : ℕ) (entries : List CacheEntry) : Prop where
  dvd : 4 ∣ byteOffset
  eq : align4 size = byteOffset
  le : size ≤ byteOffset
  fits : byteOffset + 11 * entries.length + sizes entries < 2 ^ 32

section

variable (h : Aligned size byteOffset (e :: entries))

include h

lemma Aligned.entrySize_eq :
    toUInt32 (sizeofEntryHeader + e.mKey.length + e.mValue.length) = sizeofEntryHeader + e.size := by
  have hfits := h.fits
  rw [length_cons, sizes_cons, CacheEntry.size] at hfits
  rw [toUInt32_eq_self (by rw [sizeofEntryHeader]; omega), CacheEntry.size, add_assoc]

lemma Aligned.toUInt32_eq :
    toUInt32 (byteOffset + (sizeofEntryHeader + e.size)) =
      byteOffset + (sizeofEntryHeader + e.size) := by
  have hfits := h.fits
  rw [length_cons, sizes_cons] at hfits
  exact toUInt32_eq_self (by rw [sizeofEntryHeader]; omega)

/-- The next entry. -/
lemma Aligned.next :
    toUInt32 (byteOffset + align4 (sizeofEntryHeader + e.size)) =
        byteOffset + align4 (sizeofEntryHeader + e.size) ∧
      Aligned (byteOffset + (sizeofEntryHeader + e.size))
        (byteOffset + align4 (sizeofEntryHeader + e.size)) entries := by
  obtain ⟨hdvd, heq, hle, hfits⟩ := h
  rw [length_cons, sizes_cons] at hfits
  have halign : align4 (sizeofEntryHeader + e.size) = (sizeofEntryHeader + e.size + 3) / 4 * 4 :=
    align4_eq (by rw [sizeofEntryHeader]; omega)
  refine ⟨toUInt32_eq_self ?_, ?_, align4_add hdvd ?_, ?_, ?_⟩
  all_goals simp only [sizeofEntryHeader] at *
  all_goals omega

lemma Aligned.flattenedSizeFrom_cons :
    flattenedSizeFrom size (e :: entries) =
      flattenedSizeFrom (byteOffset + (sizeofEntryHeader + e.size)) entries := by
  rw [flattenedSizeFrom, foldl_cons, h.eq, add_assoc, h.toUInt32_eq]
  rfl

end

lemma Aligned.le_flattenedSizeFrom : ∀ {entries : List CacheEntry} {size byteOffset : ℕ},
    Aligned size byteOffset entries → size ≤ flattenedSizeFrom size entries := by
  intro entries
  induction entries with
  | nil =>
    intro size byteOffset _
    exact le_rfl
  | cons e entries ih =>
    intro size byteOffset h
    rw [h.flattenedSizeFrom_cons]
    calc size
      _ ≤ byteOffset := h.le
      _ ≤ byteOffset + (sizeofEntryHeader + e.size) := Nat.le_add_right _ _
      _ ≤ _ := ih h.next.2

/-! ## Flattening -/

/-- The entries lie in the buffer, one after the other. -/
def Laid (buffer : Memory) : ℕ → List CacheEntry → Prop
  | _, [] => True
  | byteOffset, e :: entries => buffer.Holds byteOffset (entryBytes e) ∧
      Laid buffer (byteOffset + align4 (sizeofEntryHeader + e.size)) entries

@[simp] lemma length_entryBytes (e : CacheEntry) :
    (entryBytes e).length = sizeofEntryHeader + e.size := by
  simp only [entryBytes, length_append, length_toBytes, sizeofEntryHeader, size]
  omega

/-- **`flatten`** fails exactly if the buffer is smaller than the flattened size, and otherwise lays
the entries down behind the offset. -/
theorem flattenFrom_spec (bufferSize : ℕ) : ∀ {entries : List CacheEntry} {size byteOffset : ℕ}
    (buffer : Memory), Aligned size byteOffset entries → size ≤ bufferSize →
      bufferSize < flattenedSizeFrom size entries ∧
          (flattenFrom bufferSize entries byteOffset buffer).1 = badValue ∨
        flattenedSizeFrom size entries ≤ bufferSize ∧ ∃ buffer',
          flattenFrom bufferSize entries byteOffset buffer = (ok, buffer') ∧
            Laid buffer' byteOffset entries ∧ ∀ i < byteOffset, buffer' i = buffer i := by
  intro entries
  induction entries with
  | nil =>
    intro size byteOffset buffer _ hsize
    exact Or.inr ⟨hsize, buffer, rfl, trivial, fun _ _ => rfl⟩
  | cons e entries ih =>
    intro size byteOffset buffer h _
    have hcons := h.flattenedSizeFrom_cons
    have hle := h.next.2.le_flattenedSizeFrom
    simp only [flattenFrom, h.entrySize_eq, h.toUInt32_eq, h.next.1]
    split_ifs with hfull
    · exact Or.inl ⟨by omega, rfl⟩
    · rw [hcons]
      rcases ih (buffer.write byteOffset (entryBytes e)) h.next.2 (not_lt.mp hfull) with
        hbad | ⟨hfit, buffer', hrun, hlaid, hsame⟩
      · exact Or.inl hbad
      · -- what follows leaves this entry alone
        have halign : sizeofEntryHeader + e.size ≤ align4 (sizeofEntryHeader + e.size) := by
          have := h.next.2.le
          omega
        refine Or.inr ⟨hfit, buffer', hrun, ⟨?_, hlaid⟩, fun i hi => ?_⟩
        · refine holds_write.congr fun i _ hi => (hsame i ?_).symm
          rw [length_entryBytes] at hi
          omega
        · rw [hsame i (by omega), write_of_lt hi]

/-! ## Unflattening -/

/-- A number of 32 bits that was written is read again. -/
lemma field_eq {n : ℕ} (h : buffer.Holds byteOffset (toBytes 4 n)) (hn : n < 2 ^ 32) :
    field buffer byteOffset = n := by
  rw [field, h.slice_eq (length_toBytes 4 n).symm, ofBytes_toBytes (by norm_num at hn ⊢; exact hn)]

/-- What `unflatten` finds at an entry. -/
lemma read_entry (h : buffer.Holds byteOffset (entryBytes e))
    (hfits : byteOffset + sizeofEntryHeader + e.size < 2 ^ 32) :
    mKeySize buffer byteOffset = e.mKey.length ∧ mValueSize buffer byteOffset = e.mValue.length ∧
      keyAt buffer byteOffset = e.mKey ∧ valueAt buffer byteOffset = e.mValue := by
  rw [entryBytes, holds_append, holds_append, holds_append] at h
  simp only [length_append, ← add_assoc] at h
  obtain ⟨⟨⟨hkeySize, hvalueSize⟩, hkey⟩, hvalue⟩ := h
  rw [sizeofEntryHeader, size] at hfits
  have hmKeySize : mKeySize buffer byteOffset = e.mKey.length := field_eq hkeySize (by omega)
  have hmValueSize : mValueSize buffer byteOffset = e.mValue.length := by
    rw [mValueSize, toUInt32_eq_self (by omega)]
    exact field_eq hvalueSize (by omega)
  refine ⟨hmKeySize, hmValueSize, ?_, ?_⟩
  · rw [keyAt, hmKeySize, sizeofEntryHeader, toUInt32_eq_self (by omega)]
    exact hkey
  · rw [valueAt, hmKeySize, hmValueSize, sizeofEntryHeader, toUInt32_eq_self (by omega)]
    exact hvalue

/-- The header that was written is accepted. -/
lemma read_header {numEntries count : ℕ} (h : buffer.Holds 0 (headerBytes numEntries))
    (hnum : numEntries < 2 ^ 32) (hsize : sizeofHeader ≤ size) (hcount : count = 0) :
    HeaderOk buffer size count ∧ field buffer 12 = numEntries := by
  rw [headerBytes, holds_append, holds_append, holds_append] at h
  obtain ⟨⟨⟨hmagic, hversion⟩, hdevice⟩, hentries⟩ := h
  refine ⟨⟨hcount, hsize, ?_, ?_, ?_⟩, field_eq hentries hnum⟩
  · exact field_eq hmagic (by decide)
  · exact field_eq hversion (by decide)
  · exact field_eq hdevice (by decide)

/-- An entry with a larger key than all others goes to the end, if it fits. -/
lemma Accounted.set_append (h : c.Accounted 0)
    (hlast : ∀ y ∈ c.mCacheEntries, compare y e < 0)
    (hcacheable : c.Cacheable e.mKey.length e.mValue.length)
    (hfits : sizes c.mCacheEntries + e.size ≤ c.mMaxTotalSize)
    (hmemory : c.memory + e.memory < 2 ^ 32) :
    ∃ c', c.set e.mKey e.mValue = .ok c' ∧ Later 0 c c' ∧
      c'.mCacheEntries = c.mCacheEntries ++ [e] := by
  obtain ⟨lo, same, hi, haround, hpass⟩ := setPass_spec h.increasing e.mKey e.mValue
  have heq := haround.eq
  -- there is nothing equal or greater
  have hsame : same = [] := by
    by_contra hne
    obtain ⟨y, hy⟩ := exists_mem_of_ne_nil same hne
    have hless := hlast y (by simp [heq, hy])
    exact hless.ne (haround.equal_of_mem hy)
  have hhi : hi = [] := by
    by_contra hne
    obtain ⟨y, hy⟩ := exists_mem_of_ne_nil hi hne
    have hless := hlast y (by simp [heq, hy])
    exact absurd (haround.greater y hy) (not_lt.mpr hless.le)
  subst hsame hhi
  rw [append_nil, append_nil] at heq
  have hallocated : c.memory + allocated [] e.mKey e.mValue < 2 ^ 32 := hmemory
  obtain ⟨htotal, hlater⟩ := h.replace hcacheable haround hallocated
  have hfull : ¬c.mMaxTotalSize < sizes (lo ++ [e]) + 0 := by
    rw [sizes_append, sizes_cons, sizes_nil, ← heq]
    omega
  rw [if_pos hallocated, htotal, store, if_neg hfull] at hpass
  refine ⟨_, ?_, hlater (not_lt.mp hfull), by rw [heq]⟩
  rw [BlobCache.set, if_pos hcacheable, BlobCache.setLoop, hpass]
  rfl

/-- **`unflatten`** replays the entries. -/
theorem unflattenFrom_laid (bufferSize : ℕ) : ∀ {entries : List CacheEntry} {size byteOffset : ℕ}
    {c : BlobCache}, Aligned size byteOffset entries → Laid buffer byteOffset entries →
      flattenedSizeFrom size entries ≤ bufferSize → c.Accounted 0 →
      Increasing compare (c.mCacheEntries ++ entries) →
      (∀ e ∈ entries, c.Cacheable e.mKey.length e.mValue.length) →
      sizes (c.mCacheEntries ++ entries) ≤ c.mMaxTotalSize →
      c.memory + (entries.map CacheEntry.memory).sum < 2 ^ 32 →
      ∃ c', unflattenFrom buffer bufferSize entries.length byteOffset c = .ok (ok, c') ∧
        Later 0 c c' ∧ c'.mCacheEntries = c.mCacheEntries ++ entries := by
  intro entries
  induction entries with
  | nil =>
    intro size byteOffset c _ _ _ h _ _ _ _
    exact ⟨c, rfl, ⟨h, rfl⟩, (append_nil _).symm⟩
  | cons e entries ih =>
    intro size byteOffset c haligned hlaid hsize h hinc hcacheable hfits hmemory
    obtain ⟨hholds, hlaid'⟩ := hlaid
    have hfits' := haligned.fits
    rw [length_cons, sizes_cons] at hfits'
    have hend : byteOffset + (sizeofEntryHeader + e.size) ≤ bufferSize := by
      rw [haligned.flattenedSizeFrom_cons] at hsize
      exact haligned.next.2.le_flattenedSizeFrom.trans hsize
    obtain ⟨hmKeySize, hmValueSize, hkey, hvalue⟩ :=
      read_entry hholds (by rw [sizeofEntryHeader]; omega)
    have hentrySize : entrySize buffer byteOffset = sizeofEntryHeader + e.size := by
      rw [entrySize, hmKeySize, hmValueSize, haligned.entrySize_eq]
    have hheader : ¬bufferSize < toUInt32 (byteOffset + sizeofEntryHeader) := by
      rw [toUInt32_eq_self (by rw [sizeofEntryHeader]; omega)]
      omega
    have hentry : ¬bufferSize < toUInt32 (byteOffset + entrySize buffer byteOffset) := by
      rw [hentrySize, haligned.toUInt32_eq]
      omega
    rw [map_cons, sum_cons] at hmemory
    rw [sizes_append, sizes_cons] at hfits
    obtain ⟨c1, hset, hlater, hentries⟩ := h.set_append
      (fun y hy => (pairwise_append.mp hinc).2.2 y hy e (by simp))
      (hcacheable e (by simp)) (by omega) (by omega)
    have happend : c1.mCacheEntries ++ entries = c.mCacheEntries ++ e :: entries := by
      rw [hentries, append_assoc]
      rfl
    obtain ⟨c', hrun, hlater', hentries'⟩ := ih haligned.next.2 hlaid'
      (haligned.flattenedSizeFrom_cons ▸ hsize) hlater.accounted (happend ▸ hinc)
      (fun e' he' => (cacheable_congr hlater.limits).mpr (hcacheable e' (by simp [he'])))
      (by
        rw [happend, mMaxTotalSize_eq hlater.limits, sizes_append]
        exact hfits)
      (by
        rw [memory, hentries, map_append, sum_append, map_singleton,
          sum_singleton]
        rw [memory] at hmemory
        omega)
    refine ⟨c', ?_, hlater.trans hlater', by rw [hentries', happend]⟩
    rw [length_cons, unflattenFrom, if_neg hheader, if_neg hentry, hkey, hvalue, hset,
      hentrySize, haligned.next.1]
    exact hrun

/-! ## The round trip -/

namespace Accounted

lemma aligned (h : c.Accounted 0) : Aligned sizeofHeader (align4 sizeofHeader) c.mCacheEntries where
  dvd := by decide
  eq := rfl
  le := by decide
  fits := by
    have hmemory := h.memory
    rw [memory_eq] at hmemory
    show 16 + _ + _ < _
    omega

lemma flatten_cases (h : c.Accounted 0) (buffer : Memory) (size : ℕ) :
    size < c.getFlattenedSize ∧ (c.flatten buffer size 0).1 = badValue ∨
      c.getFlattenedSize ≤ size ∧ ∃ buffer', c.flatten buffer size 0 = (ok, buffer') ∧
        buffer'.Holds 0 (headerBytes c.mCacheEntries.length) ∧
        Laid buffer' (align4 sizeofHeader) c.mCacheEntries := by
  have hle : sizeofHeader ≤ c.getFlattenedSize := h.aligned.le_flattenedSizeFrom
  simp only [flatten, ne_eq, not_true_eq_false, if_false]
  split_ifs with hsize
  · exact Or.inl ⟨by omega, rfl⟩
  · rcases flattenFrom_spec size (buffer.write 0 (headerBytes c.mCacheEntries.length)) h.aligned
      (not_lt.mp hsize) with hbad | ⟨hfit, buffer', hrun, hlaid, hsame⟩
    · exact Or.inl hbad
    · refine Or.inr ⟨hfit, buffer', hrun, ?_, hlaid⟩
      refine holds_write.congr fun i _ hi => (hsame i ?_).symm
      simpa [headerBytes, align4, toUInt32, sizeofHeader] using hi

/-- A fresh cache with the same limits takes up all entries. -/
lemma unflatten_laid (h : c.Accounted 0) {fresh : BlobCache} (hfresh : fresh.Accounted 0)
    (hempty : fresh.mCacheEntries = []) (hlimits : fresh.limits = c.limits)
    (hheader : buffer.Holds 0 (headerBytes c.mCacheEntries.length))
    (hlaid : Laid buffer (align4 sizeofHeader) c.mCacheEntries) (hsize : c.getFlattenedSize ≤ size) :
    ∃ c', fresh.unflatten buffer size 0 = .ok (ok, c') ∧ Later 0 fresh c' ∧
      c'.mCacheEntries = c.mCacheEntries := by
  have hclear : fresh.clearEntries = fresh := by rw [BlobCache.clearEntries, ← hempty]
  have hmemory := h.memory
  have hlength : c.mCacheEntries.length < 2 ^ 32 := by
    rw [memory_eq] at hmemory
    omega
  obtain ⟨hok, hnum⟩ := read_header hheader hlength (h.aligned.le_flattenedSizeFrom.trans hsize) rfl
  obtain ⟨c', hrun, hlater, hentries⟩ := unflattenFrom_laid size h.aligned hlaid hsize hfresh
    (by rw [hempty]; exact h.increasing)
    (fun e he => (cacheable_congr hlimits).mpr (h.cacheable e he))
    (by
      rw [hempty, mMaxTotalSize_eq hlimits]
      exact h.total.ge.trans h.bounded)
    (by
      rw [BlobCache.memory, hempty]
      exact hmemory)
  refine ⟨c', ?_, hlater, by rw [hentries, hempty, nil_append]⟩
  rw [unflatten_of_header hok, hclear, hnum, hrun]

end Accounted

/-- A call of `set` that returns. -/
def SetStep (c : BlobCache) (pair : Blob × Blob) (c' : BlobCache) : Prop :=
  c.set pair.1 pair.2 = .ok c'

lemma get_congr {c' : BlobCache} (hlimits : c'.limits = c.limits)
    (hentries : c'.mCacheEntries = c.mCacheEntries) (key : Blob) (valueSize : ℕ) :
    c'.get key valueSize = c.get key valueSize := by
  simp only [limits, Prod.mk.injEq] at hlimits
  simp only [get, hlimits, hentries]

/-- **A cache is flattened and read again.**  Flattening succeeds exactly if the buffer has the
flattened size; and what a fresh cache with the same limits reads from it answers alike. -/
theorem flatten_unflatten {maxKeySize maxValueSize maxTotalSize : ℕ} {rand : ℕ → ℕ}
    {pairs : List (Blob × Blob)} {c : BlobCache}
    (hrun : Runs SetStep (create maxKeySize maxValueSize maxTotalSize rand) pairs c)
    (buffer : Memory) (size : ℕ) :
    ((c.flatten buffer size 0).1 = Status.ok ↔ c.getFlattenedSize ≤ size) ∧
      ∀ buffer', c.flatten buffer size 0 = (Status.ok, buffer') →
        ∀ rand' size', c.getFlattenedSize ≤ size' → ∃ c',
          (create maxKeySize maxValueSize maxTotalSize rand').unflatten buffer' size' 0 =
            .ok (Status.ok, c') ∧
          ∀ key valueSize, c'.get key valueSize = c.get key valueSize := by
  have hlater : Later 0 (create maxKeySize maxValueSize maxTotalSize rand) c :=
    hrun.invariant ⟨accounted_create .., rfl⟩ fun hlater hset =>
      hlater.trans (hlater.accounted.set hset)
  rcases hlater.accounted.flatten_cases buffer size with
    ⟨hsmall, hbad⟩ | ⟨hfit, written, hflatten, hheader, hlaid⟩
  · constructor
    · rw [hbad]
      exact iff_of_false (by decide) (not_le.mpr hsmall)
    · intro buffer' hok
      rw [hok] at hbad
      cases hbad
  · constructor
    · rw [hflatten]
      exact iff_of_true rfl hfit
    · intro buffer' hok rand' size' hsize'
      cases hflatten.symm.trans hok
      obtain ⟨c', hrun', hlater', hentries⟩ := hlater.accounted.unflatten_laid
        (accounted_create maxKeySize maxValueSize maxTotalSize rand') rfl hlater.limits.symm hheader
        hlaid hsize'
      exact ⟨c', hrun', get_congr (hlater'.limits.trans hlater.limits.symm) hentries⟩

/-- Call `set`. -/
def nextSet (c : BlobCache) (pair : Blob × Blob) : Option ((Blob × Blob) × BlobCache) :=
  (c.set pair.1 pair.2).toOption.map fun c' => (pair, c')

lemma setStep_of_nextSet (c : BlobCache) (pair pair' : Blob × Blob) (c' : BlobCache)
    (h : c.nextSet pair = some (pair', c')) : SetStep c pair' c' := by
  cases hset : c.set pair.1 pair.2 with
  | error f =>
    rw [nextSet, hset] at h
    cases h
  | ok c1 =>
    rw [nextSet, hset] at h
    cases h
    exact hset

/-- Two entries of odd sizes, in a buffer that has just the right size. -/
theorem flatten_unflatten_pairs : ∃ pairs c, Runs SetStep (create 8 8 16 fun n => n) pairs c ∧
    c.mCacheEntries = [⟨[1], [2, 3]⟩, ⟨[4, 4], [5]⟩] ∧ c.getFlattenedSize = 39 ∧
    ∃ buffer', c.flatten (fun _ => 0xff) 39 0 = (Status.ok, buffer') ∧ ∃ c',
      (create 8 8 16 fun n => n).unflatten buffer' 39 0 = .ok (Status.ok, c') ∧
        ∀ key valueSize, c'.get key valueSize = c.get key valueSize := by
  obtain ⟨pairs, c, hrun, hentries, hsize⟩ : ∃ pairs c,
      Runs SetStep (create 8 8 16 fun n => n) pairs c ∧
      c.mCacheEntries = [⟨[1], [2, 3]⟩, ⟨[4, 4], [5]⟩] ∧ c.getFlattenedSize = 39 :=
    Runs.exists_of_execute setStep_of_nextSet [([4, 4], [5]), ([1], [2, 3])] (by decide +kernel)
  obtain ⟨hok, hread⟩ := flatten_unflatten hrun (fun _ => 0xff) 39
  have hflatten : c.flatten (fun _ => 0xff) 39 0 = (ok, (c.flatten (fun _ => 0xff) 39 0).2) :=
    Prod.ext (hok.mpr hsize.le) rfl
  exact ⟨pairs, c, hrun, hentries, hsize, _, hflatten, hread _ hflatten _ _ hsize.le⟩

end BlobCache

end Droid
