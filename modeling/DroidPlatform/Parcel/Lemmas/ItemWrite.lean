import DroidPlatform.Parcel.Item

/-!
# What writing an item appends

If room is found for all pieces of an item, writing it appends them to the data
(`Item.write_filled`).
-/

namespace Droid

open List Option

namespace Parcel

/-! ## What a write appends -/

/-- An operation succeeds and appends these pieces to the data `bs` of a block of `cap` bytes. -/
def Appends (allow : Bool) (bs : List UInt8) (cap : ℕ) (pieces : List (List UInt8))
    (result : Option (Status × Parcel)) : Prop :=
  ∃ q, result = some (.ok, q) ∧
    q.Filled allow (bs ++ pieces.flatten) (capacityAfter bs.length cap (pieces.map List.length))

section Write

variable {p q : Parcel} {allow : Bool} {bs : List UInt8} {cap : ℕ} {a : Answers}
  {result : Option (Status × Parcel)} {x : List UInt8}

section

variable
  (h : ∃ q, result = some (.ok, q) ∧ q.Filled allow (bs ++ x) (capacityWith bs.length cap x.length))

include h

lemma Appends.andThen {pieces : List (List UInt8)} {next : Parcel → Option (Status × Parcel)}
    (hnext : ∀ q, q.Filled allow (bs ++ x) (capacityWith bs.length cap x.length) → Appends allow (bs ++ x) (capacityWith bs.length cap x.length) pieces (next q)) :
    Appends allow bs cap (x :: pieces) (andThen result next) := by
  obtain ⟨q, rfl, hq⟩ := h
  obtain ⟨r, hr, hfilled⟩ := hnext q hq
  rw [append_assoc, length_append] at hfilled
  exact ⟨r, hr, hfilled⟩

lemma appends_one : Appends allow bs cap [x] result := by
  rw [Appends, flatten_singleton]
  exact h

end

section

variable (h : p.Filled allow bs cap)

include h

lemma Filled.appends_nil : Appends allow bs cap [] (some (.ok, p)) :=
  ⟨p, rfl, by rw [flatten_nil, append_nil]; exact h⟩

/-- The two stores of `writeString16`. -/
lemma Filled.writeUnits (str : List UInt16)
    (hlt : bs.length + (padded (unitBytes str ++ [0, 0])).length < 2 ^ 31) (ha : a.data.isSome)
    (hfits : Fits bs.length cap (padded (unitBytes str ++ [0, 0])).length) :
    ∃ q r t, p.writeInplace (2 * str.length + 2) a = some (some bs.length, q) ∧
      q.store bs.length (unitBytes str) = some r ∧
      r.store (bs.length + 2 * str.length) [0, 0] = some t ∧
      t.Filled allow (bs ++ padded (unitBytes str ++ [0, 0]))
        (capacityWith bs.length cap (padded (unitBytes str ++ [0, 0])).length) := by
  have hlen : (unitBytes str ++ [0, 0]).length = 2 * str.length + 2 := by simp
  rw [length_padded, hlen] at hlt hfits ⊢
  obtain ⟨ptr, q, hrun, hptr, hq⟩ := h.writeInplace hlt ha hfits
  obtain ⟨r, hstore, hr⟩ := hq.store (unitBytes str) (by simp)
  obtain ⟨t, hstore', ht⟩ := hr.store [0, 0] (by simp)
  rw [length_append, length_unitBytes] at hstore'
  have hgap : 2 * str.length + 2 - (unitBytes str).length - [(0 : UInt8), 0].length = 0 := by simp
  rw [hgap] at ht
  refine ⟨q, r, t, ?_, hstore, hstore', ?_⟩
  · rcases hptr with rfl | ⟨-, -, hzero⟩
    · exact hrun
    · omega
  · have := ht.filled
    rw [append_assoc, append_assoc, ← append_assoc (unitBytes str)] at this
    rw [padded, hlen]
    exact this

/-- The space of a blob, and the store through the pointer. -/
lemma Filled.writeBlobData (data : List UInt8) (hne : bs ≠ [])
    (hlt : bs.length + (padded data).length < 2 ^ 31) (ha : a.data.isSome)
    (hfits : Fits bs.length cap (padded data).length) :
    ∃ q r, p.writeInplace data.length a = some (some bs.length, q) ∧
      q.store bs.length data = some r ∧
      r.Filled allow (bs ++ padded data) (capacityWith bs.length cap (padded data).length) := by
  rw [length_padded] at hlt hfits ⊢
  obtain ⟨ptr, q, hrun, hptr, hq⟩ := h.writeInplace hlt ha hfits
  obtain ⟨r, hstore, hr⟩ := hq.store data le_rfl
  obtain rfl := hptr.resolve_right fun hnil => hne hnil.2.1
  rw [Nat.sub_self] at hr
  have hr' := hr.filled
  rw [append_assoc] at hr'
  exact ⟨q, r, hrun, hstore, hr'⟩

/-- If there is no room for them, the string is lost and the cursor stays. -/
lemma Filled.writeUnits_wraps (str : List UInt16)
    (hlt : bs.length + (padded (unitBytes str ++ [0, 0])).length < 2 ^ 31)
    (hfits : ¬ Fits bs.length cap (padded (unitBytes str ++ [0, 0])).length) {ptr : Option ℕ}
    (hrun : p.writeInplace (2 * str.length + 2) a = some (ptr, q)) :
    (ptr = none ∧ q.mDataPos = bs.length) ∨ (ptr = some bs.length ∧
      ∀ r, q.store bs.length (unitBytes str) = some r →
        r.store (bs.length + 2 * str.length) [0, 0] = none) := by
  have hlen : (unitBytes str ++ [0, 0]).length = 2 * str.length + 2 := by simp
  rw [length_padded, hlen] at hlt hfits
  rcases h.writeInplace_wraps hlt hfits hrun with hfailed | ⟨hptr, -, hcap⟩
  · exact Or.inl hfailed
  · refine Or.inr ⟨hptr, ?_⟩
    intro r hr
    refine store_outside (by simp) ?_
    rw [(store_eq_some hr).1]
    simpa [add_assoc] using hcap

end

end Write

namespace Item

variable {p q : Parcel} {allow : Bool} {bs : List UInt8} {cap : ℕ} {a : ℕ → Answers}
  {ashmem : Except Status ℤ} {item : Item} {str : List UInt8}

/-- `strlen` of a string without `NUL`. -/
lemma takeWhile_ne_zero (hstr : 0 ∉ str) : str.takeWhile (· ≠ 0) = str := by
  rw [takeWhile_eq_self_iff]
  intro c hc
  simpa using fun hzero : c = 0 => hstr (hzero ▸ hc)

section

variable (h : p.Filled allow bs cap)

include h

lemma string8_filled (hlt : bs.length + (string8 str).pieces.flatten.length < 2 ^ 31)
    (ha : ∀ k, (a k).data.isSome)
    (hg : Growable bs.length cap ((string8 str).pieces.map length)) :
    Appends allow bs cap (string8 str).pieces (p.writeString8 str a) := by
  rw [pieces] at hlt hg ⊢
  have hround := le_roundUp (str.length + 1)
  by_cases hnil : str = []
  · subst hnil
    refine Appends.andThen (h.writeAligned (by simpa using hlt) (ha 0) hg.1) ?_
    intro q hq
    exact hq.appends_nil
  · simp only [if_neg hnil] at hlt hg ⊢
    simp at hlt
    rw [writeString8, toInt32_eq_self ⟨by omega, by omega⟩]
    refine Appends.andThen (h.writeAligned (by simp; omega) (ha 0) hg.1) ?_
    intro q hq
    simp only [if_pos (length_pos_of_ne_nil hnil)]
    refine appends_one (hq.write (by simp; omega) (ha 1) ?_)
    rw [length_append]
    exact hg.2.1

lemma string16_filled {str : Option (List UInt16)}
    (hlt : bs.length + (string16 str).pieces.flatten.length < 2 ^ 31) (ha : ∀ k, (a k).data.isSome)
    (hg : Growable bs.length cap ((string16 str).pieces.map length)) :
    Appends allow bs cap (string16 str).pieces (p.writeString16 str a) := by
  cases str with
  | none =>
    exact appends_one (h.writeAligned (by simpa [pieces] using hlt) (ha 0) hg.1)
  | some str =>
    have hround := le_roundUp (2 * str.length + 2)
    rw [pieces] at hlt hg ⊢
    simp at hlt
    rw [writeString16, toInt32_eq_self ⟨by omega, by omega⟩]
    refine Appends.andThen (h.writeAligned (by simp; omega) (ha 0) hg.1) ?_
    intro q hq
    have hfits := hg.2.1
    rw [← length_append] at hfits
    obtain ⟨r, t, u, hplace, hunits, hnul, hu⟩ := hq.writeUnits str (by simp; omega) (ha 1) hfits
    refine appends_one ⟨u, ?_, hu⟩
    have hlen : toUInt32 (str.length * 2) = 2 * str.length := by
      rw [toUInt32_eq_self (by omega), mul_comm]
    simp only [hlen, toUInt32_eq_self (by omega : 2 * str.length + 2 < 2 ^ 32), hplace,
      bind_some, take_of_length_le (length_unitBytes str).le, hunits, hnul,
      map_some]

lemma blob_filled {data : List UInt8} (hv : (blob data).Valid allow)
    (hlt : bs.length + (blob data).pieces.flatten.length < 2 ^ 31) (ha : ∀ k, (a k).data.isSome)
    (hg : Growable bs.length cap ((blob data).pieces.map length)) :
    Appends allow bs cap (blob data).pieces ((blob data).write ashmem p a) := by
  rw [pieces] at hlt hg ⊢
  simp at hlt
  obtain ⟨q, hint, hq⟩ := h.writeAligned (by simp; omega) (ha 0) hg.1
  have hfits := hg.2.1
  rw [← length_append] at hfits
  obtain ⟨r, t, hplace, hstore, ht⟩ :=
    hq.writeBlobData data (by simp [intBytes, toBytes]) (by simp; omega) (ha 1) hfits
  have hin : p.mAllowFds = false ∨ data.length ≤ inPlaceBlobLimit := by
    rw [h.allowFds]
    exact hv
  have hblob : p.writeBlob data.length ashmem a = some (.ok (.inPlace (bs ++ intBytes 4 0).length), r) := by
    simp [writeBlob, if_pos hin, writeInt32, hint, hplace]
  refine ⟨t, ?_, ?_⟩
  · simp only [write, hblob, bind_some, hstore, map_some]
  · rw [length_append] at ht
    simpa [capacityAfter] using ht

/-- **A write appends the pieces of its item.** -/
lemma write_filled (hv : item.Valid allow) (hlt : bs.length + item.pieces.flatten.length < 2 ^ 31)
    (ha : ∀ k, (a k).data.isSome) (hg : Growable bs.length cap (item.pieces.map length)) :
    Appends allow bs cap item.pieces (item.write ashmem p a) := by
  cases item with
  | int32 val | int64 val =>
    exact appends_one (h.writeAligned (by simpa [pieces] using hlt) (ha 0) hg.1)
  | cString str =>
    rw [write, writeCString, takeWhile_ne_zero hv]
    exact appends_one (h.write (by simpa [pieces] using hlt) (ha 0) hg.1)
  | string8 str => exact string8_filled h hlt ha hg
  | string16 str => exact string16_filled h hlt ha hg
  | bytes data =>
    exact appends_one (h.write (by simpa [pieces] using hlt) (ha 0) hg.1)
  | blob data => exact blob_filled h hv hlt ha hg

end

end Item

end Parcel

end Droid
