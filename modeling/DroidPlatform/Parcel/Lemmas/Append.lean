import DroidPlatform.Parcel.Lemmas.Writes

/-!
# Writing at the end of the data

A parcel that has only been written to has its cursor at the end of its data (`Filled`).  A write of
`k` bytes there finds room if `Fits` says so: either the block is large enough already, or `growData`
can compute its new size, `3 * (size + k) / 2`, without wrapping.  Then the bytes are appended to the
data; `Reserved` is the state between `writeInplace` and the stores through the pointer it returns.

If the new size wraps, `growData` either gives up or provides a block that is still too small.  The
write then stores outside the block, or returns with the cursor where it was.  `write` and
`writeString16` return `mError` in that case, which is still `NO_ERROR`.
-/

namespace Droid

open List Option Nat Parcel Memory

/-- `PAD_SIZE` as a function on all lengths. -/
def roundUp (n : ℕ) : ℕ := (n + 3) / 4 * 4

lemma le_roundUp (n : ℕ) : n ≤ roundUp n := by
  rw [roundUp]
  omega

variable {n : ℕ} (size cap k : ℕ)

lemma padSize_eq_roundUp (h : roundUp n < 2 ^ 31) : padSize n = roundUp n :=
  padSize_eq (by rw [roundUp] at h; omega)

/-- Bytes with the zeros `writeInplace` leaves after them. -/
def padded (bytes : List UInt8) : List UInt8 :=
  bytes ++ List.replicate (roundUp bytes.length - bytes.length) 0

@[simp] lemma length_padded (bytes : List UInt8) : (padded bytes).length = roundUp bytes.length := by
  have := le_roundUp bytes.length
  simp [padded, this]

/-! ## The size of the block -/

/-- A write of `k` bytes finds room after `size` bytes in a block of `cap` bytes. -/
def Fits : Prop := size + k ≤ cap ∨ 3 * (size + k) < 2 ^ 32

instance (size cap k : ℕ) : Decidable (Fits size cap k) := inferInstanceAs (Decidable (_ ∨ _))

/-- The size of the block after that write. -/
def capacityWith : ℕ := if size + k ≤ cap then cap else 3 * (size + k) / 2

lemma le_capacityWith : size + k ≤ capacityWith size cap k := by
  rw [capacityWith]
  split_ifs <;> omega

namespace Parcel

variable {p q r : Parcel} {allow : Bool} {bs bytes : List UInt8} {cap k : ℕ} {a : Answers}
  {status : Status} {len : ℕ} {tail : List UInt8}

/-- The cursor of a parcel is at the end of its data `bs`, in a block of `cap` bytes. -/
structure Filled (p : Parcel) (allow : Bool) (bs : List UInt8) (cap : ℕ) : Prop where
  sane : p.Sane
  error : p.mError = .ok
  allowFds : p.mAllowFds = allow
  size : p.mDataSize = bs.length
  pos : p.mDataPos = bs.length
  capacity : p.mDataCapacity = cap
  room : bs.length ≤ cap
  holds : Memory.Holds p.byte 0 bs

section

variable (h : p.Filled allow bs cap)

include h

lemma Filled.grownSize (hk : bs.length + k < 2 ^ 31) :
    p.grownSize k = toUInt32 (3 * (bs.length + k)) / 2 := by
  rw [Parcel.grownSize, h.size, toUInt32_eq_self (n := bs.length + k) (by omega), mul_comm]

lemma Filled.continueWrite {desired : ℕ} (hlt : cap < desired) (hdesired : desired < 2 ^ 32)
    (ha : a.data.isSome) :
    ∃ q, p.continueWrite desired a = (.ok, q) ∧ q.Filled allow bs desired := by
  obtain ⟨fresh, hfresh⟩ := isSome_iff_exists.mp ha
  have hroom := h.room
  have hsize := h.size
  have hkept : p.keptObjects desired = p.mObjects := by
    rw [keptObjects, if_neg (by omega)]
  rw [Parcel.continueWrite, if_neg (by simp [h.sane.owner]), hfresh]
  cases hdata : p.mData with
  | none =>
    obtain ⟨hzero, _, _, hobjects⟩ := h.sane.null hdata
    have hnil : bs = [] := length_eq_zero_iff.mp (by omega)
    subst hnil
    exact ⟨_, rfl, ⟨h.sane.owner, hdesired, fun hnone => by simp at hnone⟩, h.error, h.allowFds,
      rfl, rfl, rfl, zero_le _, rfl⟩
  | some m =>
    have hm : Holds m 0 bs := by
      have := h.holds
      rwa [show p.byte = m from funext fun i => by simp [byte, hdata]] at this
    simp only [hkept, dropObjects_self, h.capacity, if_pos hlt]
    refine ⟨_, rfl, ⟨h.sane.owner, hdesired, fun hnone => by simp at hnone⟩, h.error, h.allowFds,
      h.size, h.pos, rfl, by omega, ?_⟩
    exact hm.splice (by omega)

/-- **Room is found.** -/
lemma Filled.makeRoom (hk : bs.length + k < 2 ^ 31) (ha : a.data.isSome)
    (hfits : Fits bs.length cap k) :
    ∃ q, p.makeRoom k a = (.ok, q) ∧ q.Filled allow bs (capacityWith bs.length cap k) := by
  rw [Parcel.makeRoom, h.pos, h.capacity, toUInt32_eq_self (by omega), capacityWith]
  by_cases hle : bs.length + k ≤ cap
  · rw [if_pos hle, if_pos hle]
    exact ⟨p, rfl, h⟩
  · have hlt : 3 * (bs.length + k) < 2 ^ 32 := hfits.resolve_left hle
    have hroom := h.room
    rw [if_neg hle, if_neg hle, growData, h.grownSize hk, toUInt32_eq_self hlt, h.size,
      if_neg (by omega)]
    exact h.continueWrite (by omega) (by omega) ha

/-- **The new size wraps.**  If there is no error, the block is too small all the same. -/
lemma Filled.makeRoom_wraps (hk : bs.length + k < 2 ^ 31) (hfits : ¬ Fits bs.length cap k)
    (hrun : p.makeRoom k a = (status, q)) :
    q.Sane ∧ q.mDataPos = bs.length ∧ (status = .ok → q.mDataCapacity < bs.length + k) := by
  have he := h.sane.makeRoom hrun
  refine ⟨he.sane, (he.pos (by rw [h.pos, h.size])).trans h.pos, ?_⟩
  rintro rfl
  rw [Fits, not_or, not_lt] at hfits
  rw [Parcel.makeRoom, h.pos, h.capacity, toUInt32_eq_self (by omega), if_neg (by omega),
    growData] at hrun
  split_ifs at hrun
  · cases hrun
  have hcap := h.sane.capacity_of_continueWrite hrun
  rw [h.grownSize hk, toUInt32_eq_sub hfits.2 (by omega), h.capacity] at hcap
  omega

end

/-! ## Storing the bytes -/

/-- A store inside the block. -/
lemma store_inside (start : ℕ) (bytes : List UInt8) (hcap : start + bytes.length ≤ p.mDataCapacity)
    (hdata : bytes ≠ [] → p.mData ≠ none) :
    ∃ data, p.store start bytes = some { p with mData := data } ∧
      byte { p with mData := data } = Memory.write p.byte start bytes := by
  rw [store]
  split_ifs with hnil
  · subst hnil
    exact ⟨p.mData, rfl, write_nil.symm⟩
  · obtain ⟨m, hm⟩ := ne_none_iff_exists'.mp (hdata hnil)
    rw [hm]
    refine ⟨some (m.write start bytes), rfl, ?_⟩
    rw [show p.byte = m from funext fun i => by simp [byte, hm]]
    rfl

/-- A store that would leave the block. -/
lemma store_outside {start : ℕ} (hne : bytes ≠ []) (hcap : p.mDataCapacity < start + bytes.length) :
    p.store start bytes = none := by
  rw [store, if_neg hne, if_neg (by omega)]

/-- The data is `pre`, `gap` bytes that are still to be stored, and `tail`. -/
structure Reserved (p : Parcel) (allow : Bool) (pre : List UInt8) (gap : ℕ) (tail : List UInt8)
    (cap : ℕ) : Prop where
  sane : p.Sane
  error : p.mError = .ok
  allowFds : p.mAllowFds = allow
  size : p.mDataSize = pre.length + gap + tail.length
  pos : p.mDataPos = pre.length + gap + tail.length
  capacity : p.mDataCapacity = cap
  room : pre.length + gap + tail.length ≤ cap
  holds : Memory.Holds p.byte 0 pre
  holds_tail : Memory.Holds p.byte (pre.length + gap) tail

lemma Reserved.store {pre : List UInt8} {gap : ℕ} (h : p.Reserved allow pre gap tail cap)
    (bytes : List UInt8) (hlen : bytes.length ≤ gap) : ∃ q, p.store pre.length bytes = some q ∧
      q.Reserved allow (pre ++ bytes) (gap - bytes.length) tail cap := by
  have hroom := h.room
  have hcap := h.capacity
  have hdata : bytes ≠ [] → p.mData ≠ none := by
    intro hne hnone
    have := (h.sane.null hnone).2.1
    have := length_pos_of_ne_nil hne
    omega
  obtain ⟨data, hq, hbyte⟩ := store_inside pre.length bytes (by omega) hdata
  have hlength : (pre ++ bytes).length + (gap - bytes.length) = pre.length + gap := by
    rw [length_append]
    omega
  have hwritten : Holds (Memory.write p.byte pre.length bytes) 0 (pre ++ bytes) := by
    refine holds_append.mpr ⟨h.holds.write (Or.inl (by omega)), ?_⟩
    rw [zero_add]
    exact holds_write
  refine ⟨_, hq, (h.sane.store hq).1, h.error, h.allowFds, ?_, ?_, h.capacity, ?_, ?_, ?_⟩
  · rw [hlength]
    exact h.size
  · rw [hlength]
    exact h.pos
  · rw [hlength]
    exact h.room
  · rw [hbyte]
    exact hwritten
  · rw [hlength, hbyte]
    exact h.holds_tail.write (Or.inr (by omega))

/-- Once the gap is filled the parcel is. -/
lemma Reserved.filled {pre : List UInt8} (h : p.Reserved allow pre 0 tail cap) :
    p.Filled allow (pre ++ tail) cap where
  sane := h.sane
  error := h.error
  allowFds := h.allowFds
  size := by rw [h.size, length_append, add_zero]
  pos := by rw [h.pos, length_append, add_zero]
  capacity := h.capacity
  room := by simpa using h.room
  holds := holds_append.mpr ⟨h.holds, by simpa using h.holds_tail⟩

section

variable (h : p.Filled allow bs cap)

include h

/-- The cursor moves over `k` bytes of the block, of which the last ones are known. -/
lemma Filled.finishWrite {gap : ℕ} (hk : k = gap + tail.length)
    (hlt : bs.length + k < 2 ^ 32) (hroom : bs.length + k ≤ cap)
    (htail : Holds p.byte (bs.length + gap) tail) :
    (p.finishWrite k).Reserved allow bs gap tail cap where
  sane := (h.sane.stored (.finishWrite k) fun hnone => by
    have := (h.sane.null hnone).2.1
    have := h.capacity
    rw [h.pos, toUInt32_eq_self hlt]
    omega).1
  error := h.error
  allowFds := h.allowFds
  size := by
    rw [Parcel.finishWrite, h.pos, h.size, toUInt32_eq_self hlt]
    show max bs.length (bs.length + k) = _
    omega
  pos := by
    rw [Parcel.finishWrite, h.pos, toUInt32_eq_self hlt]
    show bs.length + k = _
    omega
  capacity := h.capacity
  room := by omega
  holds := h.holds
  holds_tail := htail

/-! ## The writes -/

lemma Filled.mData_ne (hcap : 0 < cap) : p.mData ≠ none := by
  intro hnone
  have := (h.sane.null hnone).2.1
  have := h.capacity
  omega

/-- The store of a known tail, followed by `finishWrite`. -/
lemma Filled.store_finishWrite (gap : ℕ) (hk : k = gap + tail.length) (hlt : bs.length + k < 2 ^ 32)
    (hroom : bs.length + k ≤ cap) :
    ∃ q, p.store (bs.length + gap) tail = some q ∧
      (q.finishWrite k).Reserved allow bs gap tail cap := by
  have hcap := h.capacity
  have hdata : tail ≠ [] → p.mData ≠ none := by
    intro hne
    have := length_pos_of_ne_nil hne
    exact h.mData_ne (by omega)
  obtain ⟨data, hq, hbyte⟩ := store_inside (bs.length + gap) tail (by omega) hdata
  have hq' : Filled { p with mData := data } allow bs cap := by
    refine ⟨(h.sane.store hq).1, h.error, h.allowFds, h.size, h.pos, h.capacity, h.room, ?_⟩
    rw [hbyte]
    exact h.holds.write (Or.inl (by omega))
  refine ⟨_, hq, hq'.finishWrite hk hlt hroom ?_⟩
  rw [hbyte]
  exact holds_write

lemma Filled.writeAligned (hlt : bs.length + bytes.length < 2 ^ 31) (ha : a.data.isSome)
    (hfits : Fits bs.length cap bytes.length) :
    ∃ q, p.writeAligned bytes a = some (.ok, q) ∧
      q.Filled allow (bs ++ bytes) (capacityWith bs.length cap bytes.length) := by
  obtain ⟨q, hroom, hq⟩ := h.makeRoom hlt ha hfits
  obtain ⟨r, hstore, hr⟩ := hq.store_finishWrite 0 (zero_add _).symm (by omega)
    (le_capacityWith _ _ _)
  refine ⟨_, ?_, hr.filled⟩
  rw [add_zero] at hstore
  rw [Parcel.writeAligned, hroom, andThen, bind_some, hq.pos, hstore]
  rfl

lemma Filled.writeAligned_wraps (hlt : bs.length + bytes.length < 2 ^ 31)
    (hfits : ¬ Fits bs.length cap bytes.length) : p.writeAligned bytes a ≠ some (.ok, q) := by
  intro hrun
  have hne : bytes ≠ [] := by
    rintro rfl
    exact hfits (Or.inl h.room)
  obtain ⟨r, hroom, hstore⟩ := andThen_eq_ok hrun
  obtain ⟨-, hpos, hcap⟩ := h.makeRoom_wraps hlt hfits (some_inj.mp hroom)
  rw [store_outside hne (by rw [hpos]; exact hcap rfl)] at hstore
  cases hstore

end

/-- The mask clears the bytes after the first `len` of a rounded up length. -/
lemma mask_eq (hlt : roundUp len < 2 ^ 31) :
    (if roundUp len ≠ len then p.maskWord (n + roundUp len) (toUInt32 (roundUp len + (2 ^ 32 - len)))
      else some p) = p.store (n + len) (replicate (roundUp len - len) 0) := by
  have hle := le_roundUp len
  by_cases heq : roundUp len = len
  · rw [if_neg (not_not.mpr heq), heq, Nat.sub_self]
    rfl
  · have hfour : 4 ≤ roundUp len := by
      rw [roundUp] at heq ⊢
      omega
    rw [if_pos heq, maskWord, if_neg (by omega), toUInt32_eq_sub (by omega) (by omega),
      show roundUp len + (2 ^ 32 - len) - 2 ^ 32 = roundUp len - len by omega,
      show n + roundUp len - (roundUp len - len) = n + len by omega]

section

variable (h : p.Filled allow bs cap)

include h

section

variable (hlt : bs.length + roundUp len < 2 ^ 31)

include hlt

lemma Filled.writeInplace_eq :
    p.writeInplace len a =
      if (p.makeRoom (roundUp len) a).1 = .ok then
        ((p.makeRoom (roundUp len) a).2.store ((p.makeRoom (roundUp len) a).2.mDataPos + len)
          (replicate (roundUp len - len) 0)).map fun q =>
            ((p.makeRoom (roundUp len) a).2.pointer (p.makeRoom (roundUp len) a).2.mDataPos,
              q.finishWrite (roundUp len))
      else some (none, (p.makeRoom (roundUp len) a).2) := by
  have hpad : padSize len = roundUp len := padSize_eq_roundUp (by omega)
  simp only [writeInplace, hpad]
  rw [if_neg (by rw [h.pos, toUInt32_eq_self (by omega)]; omega), mask_eq (by omega)]

/-- **`writeInplace` reserves space.**  The pointer is `NULL` only for no bytes in no block. -/
lemma Filled.writeInplace (ha : a.data.isSome) (hfits : Fits bs.length cap (roundUp len)) :
    ∃ ptr q, p.writeInplace len a = some (ptr, q) ∧
      (ptr = some bs.length ∨ ptr = none ∧ bs = [] ∧ len = 0) ∧
      q.Reserved allow bs len (replicate (roundUp len - len) 0)
        (capacityWith bs.length cap (roundUp len)) := by
  have hle := le_roundUp len
  have hcap := le_capacityWith bs.length cap (roundUp len)
  have hsplit : roundUp len = len + (replicate (roundUp len - len) (0 : UInt8)).length := by
    rw [length_replicate]
    omega
  obtain ⟨q, hroom, hq⟩ := h.makeRoom hlt ha hfits
  obtain ⟨r, hstore, hr⟩ := hq.store_finishWrite len hsplit (by omega) hcap
  refine ⟨q.pointer bs.length, r.finishWrite (roundUp len), ?_, ?_, hr⟩
  · rw [h.writeInplace_eq hlt, hroom, hq.pos, hstore]
    rfl
  · rw [pointer]
    split_ifs with hnull
    · have hzero : ¬ 0 < capacityWith bs.length cap (roundUp len) :=
        fun hpos => hq.mData_ne hpos (isNone_iff_eq_none.mp hnull.1)
      exact Or.inr ⟨rfl, length_eq_zero_iff.mp hnull.2, by omega⟩
    · exact Or.inl rfl

/-- If the new size wraps, `writeInplace` fails, or the space it returns ends outside the block. -/
lemma Filled.writeInplace_wraps (hfits : ¬ Fits bs.length cap (roundUp len)) {ptr : Option ℕ}
    (hrun : p.writeInplace len a = some (ptr, q)) :
    (ptr = none ∧ q.mDataPos = bs.length) ∨
      (ptr = some bs.length ∧ 0 < len ∧ q.mDataCapacity < bs.length + len) := by
  have hle := le_roundUp len
  have hlen : 0 < roundUp len := by
    by_contra hzero
    exact hfits (Or.inl (by have := h.room; omega))
  rw [h.writeInplace_eq hlt] at hrun
  rcases hroom : p.makeRoom (roundUp len) a with ⟨status, r⟩
  rw [hroom] at hrun
  obtain ⟨hsane, hpos, hcap⟩ := h.makeRoom_wraps hlt hfits hroom
  simp only [hpos] at hrun
  split_ifs at hrun with hok
  · obtain ⟨r', hstore, heq⟩ := map_eq_some_iff.mp hrun
    subst hok
    have hcap := hcap rfl
    have heq' : roundUp len = len := by
      by_contra hne
      have hout : r.mDataCapacity <
          bs.length + len + (replicate (roundUp len - len) (0 : UInt8)).length := by
        rw [length_replicate]
        omega
      rw [store_outside (by simp; omega) hout] at hstore
      cases hstore
    have hdata : r.mData ≠ none := by
      intro hnone
      have hzero := h.sane.makeRoom_null hroom hnone
      rw [toUInt32_eq_self (by omega)] at hzero
      omega
    cases heq
    refine Or.inr ⟨?_, by omega, ?_⟩
    · simp [pointer, hdata]
    · rw [heq'] at hcap
      rw [(store_eq_some hstore).1]
      exact hcap
  · cases hrun
    exact Or.inl ⟨rfl, hpos⟩

end

/-- **`write` appends.** -/
lemma Filled.write (hlt : bs.length + (padded bytes).length < 2 ^ 31) (ha : a.data.isSome)
    (hfits : Fits bs.length cap (padded bytes).length) :
    ∃ q, p.write bytes a = some (.ok, q) ∧
      q.Filled allow (bs ++ padded bytes) (capacityWith bs.length cap (padded bytes).length) := by
  rw [length_padded] at *
  obtain ⟨ptr, q, hrun, hptr, hq⟩ := h.writeInplace hlt ha hfits
  obtain ⟨r, hstore, hr⟩ := hq.store bytes le_rfl
  rw [Nat.sub_self] at hr
  have hr' := hr.filled
  rw [append_assoc] at hr'
  rcases hptr with rfl | ⟨rfl, hbs, hbytes⟩
  · refine ⟨r, ?_, hr'⟩
    simp [Parcel.write, hrun, hstore]
  · obtain rfl : bytes = [] := length_eq_zero_iff.mp hbytes
    cases hstore
    refine ⟨q, ?_, hr'⟩
    rw [write, hrun, ← hq.error]
    rfl

/-- A `write` that finds no room may still return `NO_ERROR`, with the cursor where it was. -/
lemma Filled.write_wraps (hlt : bs.length + (padded bytes).length < 2 ^ 31)
    (hfits : ¬ Fits bs.length cap (padded bytes).length)
    (hrun : p.write bytes a = some (status, q)) : q.mDataPos = bs.length := by
  rw [length_padded] at hlt hfits
  obtain ⟨⟨ptr, r⟩, hplace, hrest⟩ := bind_eq_some_iff.mp hrun
  rcases h.writeInplace_wraps hlt hfits hplace with ⟨rfl, hpos⟩ | ⟨rfl, hlen, hcap⟩
  · cases hrest
    exact hpos
  · simp only [store_outside (ne_nil_of_length_pos hlen) hcap] at hrest
    cases hrest

end

end Parcel

end Droid
