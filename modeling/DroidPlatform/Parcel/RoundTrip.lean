import DroidPlatform.Parcel.Lemmas.ItemRead
import DroidPlatform.Parcel.Lemmas.ItemWrite

/-!
# What is written can be read back

As long as `growData` computes the size of the next block without wrapping, every write appends the
pieces of its item and every read takes them off again: `roundTrips_iff`.

The condition is necessary.  A write for which the size wraps stores outside the block, or returns
without having moved the cursor, possibly with `NO_ERROR`, and in the latter case the read either
fails or moves the cursor (`Item.ne_of_wraps`).  `roundTrip_broken` has an example of both.
-/

namespace Droid

open List Option Prod

namespace Parcel

/-! ## Writes that find no room -/

variable {data : List UInt8} {size : ℕ}

namespace Item

variable {p q r s : Parcel} {allow : Bool} {bs : List UInt8} {cap : ℕ} {a : ℕ → Answers}
  {ashmem : Except Status ℤ} {mmap : ℤ → Bool} {item : Item} {k : ℕ}

lemma not_fits (hg : ¬ Growable size cap [k]) : ¬ Fits size cap k :=
  fun hfits => hg ⟨hfits, trivial⟩

/-- The cursor of a reader that has taken off `k` bytes and a padded piece is not where it is after
`k` bytes. -/
lemma skip_ne {n : ℕ} (hpos : r.mDataPos = bs.length) (hlt : bs.length + k + roundUp n < 2 ^ 31)
    (hn : 0 < n) : (r.skip (k + padSize n)).mDataPos ≠ bs.length + k := by
  have := le_roundUp n
  show toUInt32 (r.mDataPos + (k + padSize n)) ≠ bs.length + k
  rw [padSize_eq_roundUp (by omega), toUInt32_eq_self (by omega)]
  omega

section

variable (h : p.Filled allow bs cap)

include h

/-- If there is no room for the second piece of an item whose first one is a length, the length has
been written when the second write is made. -/
lemma second_wraps {val : ℤ} (ha : ∀ k, (a k).data.isSome) (hlt : bs.length + 4 < 2 ^ 31)
    (hg : ¬ Growable bs.length cap [(intBytes 4 val).length, k])
    (hrun : p.writeInt32 val (a 0) = some (.ok, q)) :
    q.Filled allow (bs ++ intBytes 4 val) (capacityWith bs.length cap 4) ∧
      ¬ Fits (bs ++ intBytes 4 val).length (capacityWith bs.length cap 4) k := by
  by_cases hfits : Fits bs.length cap (intBytes 4 val).length
  · obtain ⟨q', hq', hfilled⟩ := h.writeAligned (by simpa using hlt) (ha 0) hfits
    cases hq'.symm.trans hrun
    refine ⟨hfilled, fun hfits' => hg ⟨hfits, ?_, trivial⟩⟩
    rw [length_append] at hfits'
    exact hfits'
  · exact absurd hrun (h.writeAligned_wraps (by simpa using hlt) hfits)

lemma string8_ne_of_wraps {str : List UInt8}
    (hlt : bs.length + (string8 str).pieces.flatten.length < 2 ^ 31) (ha : ∀ k, (a k).data.isSome)
    (hg : ¬ Growable bs.length cap ((string8 str).pieces.map length))
    (hrun : p.writeString8 str a = some (.ok, q)) (hpos : r.mDataPos = bs.length)
    (hread : r.readString8 = (str, s)) : s.mDataPos ≠ q.mDataPos := by
  have hround := le_roundUp (str.length + 1)
  rw [pieces] at hlt hg
  obtain ⟨t, hint, hrest⟩ := andThen_eq_ok hrun
  by_cases hnil : str = []
  · subst hnil
    exact absurd hint (h.writeAligned_wraps (by simpa using hlt) (not_fits hg))
  · simp [hnil] at hlt
    obtain ⟨ht, hfits⟩ := second_wraps h ha (by omega) (by simpa [hnil] using hg) hint
    rw [if_pos (length_pos_of_ne_nil hnil)] at hrest
    have hstay := ht.write_wraps (by simp; omega) (by simpa using hfits) hrest
    rw [skip_of_readString8 hnil hread, hstay, length_append]
    exact skip_ne hpos (by omega) (by omega)

lemma string16_ne_of_wraps {str : List UInt16} {ptr : ℕ}
    (hlt : bs.length + (string16 (some str)).pieces.flatten.length < 2 ^ 31)
    (ha : ∀ k, (a k).data.isSome)
    (hg : ¬ Growable bs.length cap ((string16 (some str)).pieces.map length))
    (hrun : p.writeString16 (some str) a = some (.ok, q)) (hpos : r.mDataPos = bs.length)
    (hread : r.readString16Inplace = (some ptr, str.length, s)) : s.mDataPos ≠ q.mDataPos := by
  have hround := le_roundUp (2 * str.length + 2)
  rw [pieces] at hlt hg
  simp at hlt
  rw [writeString16] at hrun
  obtain ⟨t, hint, hrest⟩ := andThen_eq_ok hrun
  rw [toInt32_eq_self ⟨by omega, by omega⟩] at hint
  obtain ⟨ht, hfits⟩ := second_wraps h ha (by omega) hg hint
  have hlen : toUInt32 (str.length * 2) = 2 * str.length := by
    rw [toUInt32_eq_self (by omega), mul_comm]
  simp only [hlen, toUInt32_eq_self (by omega : 2 * str.length + 2 < 2 ^ 32)] at hrest
  obtain ⟨⟨ptr', u⟩, hplace, hrest⟩ := bind_eq_some_iff.mp hrest
  rcases ht.writeUnits_wraps str (by simp; omega) hfits hplace with ⟨rfl, hstay⟩ | ⟨rfl, hout⟩
  · obtain rfl : u = q := (Prod.ext_iff.mp (some.inj hrest)).2
    rw [skip_of_readString16Inplace hread, hstay, length_append,
      show (str.length + 1) * 2 = 2 * str.length + 2 by omega, toUInt32_eq_self (by omega)]
    exact skip_ne hpos (by omega) (by omega)
  · simp only [take_of_length_le (length_unitBytes str).le] at hrest
    obtain ⟨v, hv, -⟩ := map_eq_some_iff.mp hrest
    obtain ⟨w, hw, hnul⟩ := bind_eq_some_iff.mp hv
    rw [hout w hw] at hnul
    cases hnul

lemma blob_wraps (hv : (blob data).Valid allow)
    (hlt : bs.length + (blob data).pieces.flatten.length < 2 ^ 31) (ha : ∀ k, (a k).data.isSome)
    (hg : ¬ Growable bs.length cap ((blob data).pieces.map length)) :
    (blob data).write ashmem p a ≠ some (.ok, q) := by
  intro hrun
  rw [pieces] at hlt hg
  simp at hlt
  obtain ⟨⟨result, t⟩, hblob, hrest⟩ := bind_eq_some_iff.mp hrun
  have hin : p.mAllowFds = false ∨ data.length ≤ inPlaceBlobLimit := by
    rw [h.allowFds]
    exact hv
  simp only [writeBlob, if_pos hin] at hblob
  obtain ⟨⟨status, u⟩, hint, hblob⟩ := bind_eq_some_iff.mp hblob
  split_ifs at hblob with hok
  · subst hok
    obtain ⟨hu, hfits⟩ := second_wraps h ha (by omega) hg hint
    obtain ⟨⟨ptr, v⟩, hplace, heq⟩ := map_eq_some_iff.mp hblob
    rw [length_padded] at hfits
    rcases hu.writeInplace_wraps (by simp; omega) hfits hplace with ⟨rfl, -⟩ | ⟨rfl, hpos, hcap⟩
    · cases heq
      cases hrest
    · cases heq
      simp only [store_outside (ne_nil_of_length_pos hpos) hcap] at hrest
      cases hrest
  · cases hblob
    cases hrest
    exact hok rfl

/-- **A write that finds no room is noticed by its read.** -/
lemma ne_of_wraps (hv : item.Valid allow) (hlt : bs.length + item.pieces.flatten.length < 2 ^ 31)
    (ha : ∀ k, (a k).data.isSome) (hg : ¬ Growable bs.length cap (item.pieces.map length))
    (hrun : item.write ashmem p a = some (.ok, q)) (hpos : r.mDataPos = bs.length)
    (hread : item.kind.read mmap r = (some item, s)) : s.mDataPos ≠ q.mDataPos := by
  cases item with
  | int32 val | int64 val =>
    exact absurd hrun (h.writeAligned_wraps (by simpa [pieces] using hlt) (not_fits hg))
  | cString str =>
    rw [write, writeCString, takeWhile_ne_zero hv] at hrun
    have hstay := h.write_wraps (by simpa [pieces] using hlt) (not_fits hg) hrun
    obtain ⟨hval, hs⟩ := Prod.ext_iff.mp hread
    obtain ⟨ptr, hptr, heq⟩ := map_eq_some_iff.mp hval
    obtain rfl : r.cStringAt ptr = str := cString.inj heq
    have hskip := skip_of_readCString (Prod.ext hptr hs)
    simp [pieces] at hlt
    rw [hstay, hskip, ← zero_add (padSize _)]
    exact skip_ne hpos (by omega) (by omega)
  | string8 str =>
    obtain ⟨hval, hs⟩ := Prod.ext_iff.mp hread
    exact string8_ne_of_wraps h hlt ha hg hrun hpos
      (Prod.ext (string8.inj (some.inj hval)) hs)
  | string16 str =>
    cases str with
    | none =>
      exact absurd hrun (h.writeAligned_wraps (by simpa [pieces] using hlt) (not_fits hg))
    | some str =>
      rcases hplace : r.readString16Inplace with ⟨ptr, n, t⟩
      simp only [Kind.read, hplace] at hread
      obtain ⟨hval, rfl⟩ := Prod.ext_iff.mp hread
      obtain ⟨ptr, rfl, heq⟩ :=
        map_eq_some_iff.mp (string16.inj (some.inj hval))
      have hn := length_bytesUnits n (r.load ptr (2 * n)) (Memory.length_slice _)
      rw [heq] at hn
      exact string16_ne_of_wraps h hlt ha hg hrun hpos (hn ▸ hplace)
  | bytes data =>
    have hfits := not_fits hg
    have hstay := h.write_wraps (by simpa [pieces] using hlt) hfits hrun
    obtain ⟨hval, hs⟩ := Prod.ext_iff.mp hread
    obtain ⟨data', hdata, -⟩ := map_eq_some_iff.mp hval
    obtain ⟨-, -, rfl⟩ := read_eq_some (Prod.ext hdata hs)
    have hlen : 0 < data.length := by
      rw [length_pos_iff]
      rintro rfl
      exact hfits (Or.inl h.room)
    simp [pieces] at hlt
    rw [hstay, ← zero_add (padSize _)]
    exact skip_ne hpos (by omega) hlen
  | blob data => exact absurd hrun (blob_wraps h hv hlt ha hg)

end

end Item

/-! ## Whole sequences -/

/-- The bytes of a sequence of items. -/
def encode (items : List Item) : List UInt8 := (items.flatMap Item.pieces).flatten

/-- The sizes of their pieces. -/
def sizes (items : List Item) : List ℕ := (items.flatMap Item.pieces).map List.length

lemma length_encode (items : List Item) : (encode items).length = (sizes items).sum :=
  length_flatten

lemma encode_cons (item : Item) (items : List Item) :
    encode (item :: items) = item.pieces.flatten ++ encode items := by simp [encode]

variable {items : List Item}

lemma growable_sizes_cons {cap : ℕ} {item : Item} :
    Growable size cap (sizes (item :: items)) ↔ Growable size cap (item.pieces.map length) ∧
      Growable (size + item.pieces.flatten.length)
        (capacityAfter size cap (item.pieces.map length)) (sizes items) := by
  rw [sizes, flatMap_cons, map_append, growable_append, ← length_flatten, ← sizes]

/-- The cursor after each of the items. -/
def ends : ℕ → List Item → List ℕ
  | _, [] => []
  | pos, item :: items =>
    (pos + item.pieces.flatten.length) :: ends (pos + item.pieces.flatten.length) items

section Sequences

variable {p q r : Parcel} {allow : Bool} {bs : List UInt8} {cap : ℕ} {a : ℕ → ℕ → Answers}
  {ashmem : Except Status ℤ} {mmap : ℤ → Bool} {items : List Item} {written : List (Status × ℕ)}

/-- Sequences of writes append. -/
lemma writeAll_filled (ashmem : Except Status ℤ) (h : p.Filled allow bs cap) (hv : ∀ item ∈ items,
  item.Valid allow)
    (hlt : bs.length + (encode items).length < 2 ^ 31) (ha : ∀ i j, (a i j).data.isSome)
    (hg : Growable bs.length cap (sizes items)) :
    ∃ written q cap', writeAll ashmem items a p = some (written, q) ∧
      q.Filled allow (bs ++ encode items) cap' ∧ (∀ w ∈ written, w.1 = .ok) ∧
      written.map snd = ends bs.length items := by
  induction items generalizing p bs cap a with
  | nil => exact ⟨[], p, cap, rfl, by simpa [encode] using h, by simp, rfl⟩
  | cons item items ih =>
    rw [encode_cons, length_append] at hlt
    obtain ⟨hitem, hitems⟩ := growable_sizes_cons.mp hg
    obtain ⟨q, hwrite, hq⟩ : Appends allow bs cap item.pieces (item.write ashmem p (a 0)) :=
      item.write_filled h (hv item mem_cons_self) (by omega) (ha 0) hitem
    rw [← length_append] at hitems
    obtain ⟨written, r, cap', hrest, hr, hok, hends⟩ :=
      ih hq (fun i hi => hv i (mem_cons_of_mem _ hi)) (by rw [length_append]; omega)
        (fun i => ha (i + 1)) hitems
    refine ⟨(.ok, q.mDataPos) :: written, r, cap', ?_, ?_, ?_, ?_⟩
    · simp [writeAll, hwrite, hrest]
    · rwa [encode_cons, ← append_assoc]
    · simpa using hok
    · rw [map_cons, hends, hq.pos, length_append, ends]

/-- Sequences of reads take off. -/
lemma readAll_ahead (h : p.Ahead (encode items)) (hv : ∀ item ∈ items, item.Valid allow) :
    readAll mmap (items.map Item.kind) p = (items.map some).zip (ends p.mDataPos items) := by
  induction items generalizing p with
  | nil => rfl
  | cons item items ih =>
    rw [encode_cons] at h
    have hread : item.kind.read mmap p = _ :=
      item.read_of_ahead h.left (hv item mem_cons_self)
    have hrest := ih h.skip fun i hi => hv i (mem_cons_of_mem _ hi)
    simp only [map_cons, readAll, hread, ends, zip_cons_cons, hrest,
      h.left.skip_mDataPos]

/-- If all values come back, room was found for all of them. -/
lemma growable_of_readAll (h : p.Filled allow bs cap) (hv : ∀ item ∈ items, item.Valid allow)
    (hlt : bs.length + (encode items).length < 2 ^ 31) (ha : ∀ i j, (a i j).data.isSome)
    (hrun : writeAll ashmem items a p = some (written, q)) (hok : ∀ w ∈ written, w.1 = .ok)
    (hpos : r.mDataPos = bs.length) (hread : readAll mmap (items.map Item.kind) r =
      (items.map some).zip (written.map snd)) :
    Growable bs.length cap (sizes items) := by
  induction items generalizing p bs cap a r written with
  | nil => trivial
  | cons item items ih =>
    rw [encode_cons, length_append] at hlt
    obtain ⟨⟨status, t⟩, hwrite, hrest⟩ := bind_eq_some_iff.mp hrun
    obtain ⟨⟨written', u⟩, hlater, heq⟩ := map_eq_some_iff.mp hrest
    cases heq
    obtain rfl : status = .ok := hok _ mem_cons_self
    simp only [map_cons, readAll, zip_cons_cons, cons.injEq, Prod.mk.injEq]
      at hread
    obtain ⟨⟨hval, hcursor⟩, hreads⟩ := hread
    have hvalid := hv item mem_cons_self
    have hitem : Growable bs.length cap (item.pieces.map length) := by
      by_contra hwraps
      exact item.ne_of_wraps h hvalid (by omega) (ha 0) hwraps hwrite hpos (Prod.ext hval rfl)
        hcursor
    obtain ⟨t', ht', hfilled⟩ := item.write_filled h hvalid (by omega) (ha 0) hitem
    cases ht'.symm.trans hwrite
    have hitems := ih hfilled (fun i hi => hv i (mem_cons_of_mem _ hi))
      (by rw [length_append]; omega) (fun i => ha (i + 1)) hlater
      (fun w hw => hok w (mem_cons_of_mem _ hw)) (hcursor.trans hfilled.pos) hreads
    rw [length_append] at hitems
    exact growable_sizes_cons.mpr ⟨hitem, hitems⟩

lemma filled_initState : (initState.pushAllowFds allow).Filled allow [] 0 :=
  ⟨⟨rfl, Nat.two_pow_pos 32, fun _ => ⟨rfl, rfl, rfl, rfl⟩⟩, rfl, Bool.true_and allow, rfl, rfl,
    rfl, le_rfl, rfl⟩

end Sequences

variable {a : ℕ → ℕ → Answers} {allow : Bool}

lemma RoundTrips.growable {ashmem : Except Status ℤ} {mmap : ℤ → Bool}
    (h : RoundTrips ashmem mmap allow items a) (ha : ∀ i j, (a i j).data.isSome)
    (hv : ∀ item ∈ items, item.Valid allow) (hlt : (encode items).length < 2 ^ 31) :
    Growable 0 0 (sizes items) := by
  obtain ⟨written, p, hrun, hok, hread⟩ := h
  exact growable_of_readAll filled_initState hv (by simpa using hlt) ha hrun hok rfl hread

lemma roundTrips_of_growable (ashmem : Except Status ℤ) (mmap : ℤ → Bool)
    (ha : ∀ i j, (a i j).data.isSome) (hv : ∀ item ∈ items, item.Valid allow)
    (hlt : (encode items).length < 2 ^ 31) (hg : Growable 0 0 (sizes items)) :
    RoundTrips ashmem mmap allow items a := by
  obtain ⟨written, p, cap, hrun, hp, hok, hends⟩ :=
    writeAll_filled ashmem filled_initState hv (by simpa using hlt) ha hg
  refine ⟨written, p, hrun, hok, ?_⟩
  rw [hends]
  have hsize : p.mDataSize = (encode items).length := hp.size
  refine readAll_ahead ⟨hp.holds, ?_, ?_, fun hnone => (hp.sane.null hnone).1⟩ hv
  · show 0 + (encode items).length ≤ p.mDataSize
    omega
  · show p.mDataSize < 2 ^ 31
    omega

/-- **The round trip.**  Valid items of less than `2^31` bytes, written with all allocations
succeeding, come back exactly if the size of the block never wraps while it grows. -/
theorem roundTrips_iff (ashmem : Except Status ℤ) (mmap : ℤ → Bool) (allow : Bool)
    (items : List Item) (a : ℕ → ℕ → Answers) (ha : ∀ i j, (a i j).data.isSome)
    (hv : ∀ item ∈ items, item.Valid allow) (hlt : (encode items).length < 2 ^ 31) :
    RoundTrips ashmem mmap allow items a ↔ Growable 0 0 (sizes items) := by
  constructor
  · intro h
    exact h.growable ha hv hlt
  · intro hg
    exact roundTrips_of_growable ashmem mmap ha hv hlt hg

theorem roundTrips_iff_everyKind :
    RoundTrips (.error .noMemory) (fun _ => false) true
      [.int32 (-7), .int64 (2 ^ 40), .cString [104, 105], .string8 [], .string8 [111, 107],
        .string16 none, .string16 (some []), .string16 (some [937]), .bytes [1, 2, 3, 4, 5],
        .blob [9]] fun _ _ => plenty := by
  refine (roundTrips_iff _ _ _ _ _ (fun _ _ => rfl) ?_ ?_).mpr ?_
  · decide
  · simp [encode, Item.pieces, roundUp]
  · simp [Growable, sizes, Item.pieces, roundUp, Fits]

/-- Sequences of less than a third of the address space always come back. -/
theorem roundTrips_of_lt (ashmem : Except Status ℤ) (mmap : ℤ → Bool)
    (ha : ∀ i j, (a i j).data.isSome) (hv : ∀ item ∈ items, item.Valid allow)
    (hlt : 3 * (encode items).length < 2 ^ 32) : RoundTrips ashmem mmap allow items a := by
  refine roundTrips_of_growable ashmem mmap ha hv (by omega) (growable_of_lt ?_)
  rwa [zero_add, ← length_encode]

theorem roundTrips_of_lt_ok : RoundTrips (.error .noMemory) (fun _ => false) true
    [.int32 (-7), .string8 [111, 107]] fun _ _ => plenty :=
  roundTrips_of_lt _ _ (fun _ _ => rfl) (by decide) (by simp [encode, Item.pieces, roundUp])

/-! ## Sequences that are lost -/

/-- A first write that is too large for the size of the block to be computed. -/
lemma write_huge (hlen : data.length = 1431655768) : initState.write data plenty = none := by
  have hpad : padSize 1431655768 = 1431655768 := by norm_num [padSize, toUInt32]
  have hroom : initState.makeRoom 1431655768 plenty =
      (.ok, { initState with mData := some fun _ => 0, mDataCapacity := 4 }) := by
    norm_num [makeRoom, growData, grownSize, continueWrite, initState, toUInt32, plenty]
  have hplace : initState.writeInplace 1431655768 plenty = some (some 0, { initState with
      mData := some fun _ => 0, mDataCapacity := 4, mDataSize := 1431655768
      mDataPos := 1431655768 }) := by
    simp only [writeInplace, hpad, hroom]
    norm_num [initState, toUInt32, pointer, finishWrite]
  simp only [write, hlen, hplace, bind_some]
  rw [store_outside (ne_nil_of_length_pos (by omega)) (by rw [hlen]; norm_num)]
  rfl

/-- A later write for which the computed size is too small, so that nothing is written. -/
lemma write_dropped {p : Parcel} {bs : List UInt8} (h : p.Filled allow bs 1500000000)
    (hbs : bs.length = 1000000000) (hlen : data.length = 600000000) :
    p.write data plenty = some (.ok, p) := by
  have hround : roundUp 600000000 = 600000000 := by norm_num [roundUp]
  have hroom : p.makeRoom 600000000 plenty = (.noMemory, p) := by
    rw [makeRoom, h.pos, h.capacity, hbs, if_neg (by norm_num [toUInt32]), growData,
      h.grownSize (by rw [hbs]; norm_num), h.size, hbs, if_pos (by norm_num [toUInt32])]
  have hplace : p.writeInplace 600000000 plenty = some (none, p) := by
    rw [h.writeInplace_eq (by rw [hbs, hround]; norm_num), hround, hroom]
    rfl
  rw [write, hlen, hplace, ← h.error]
  rfl

/-- A sequence that satisfies all conditions and does not come back. -/
def Lost (items : List Item) : Prop :=
  (∀ item ∈ items, item.Valid true) ∧ (encode items).length < 2 ^ 31 ∧
    ¬ RoundTrips (.error .noMemory) (fun _ => false) true items fun _ _ => plenty

lemma lost_of_not_growable (hv : ∀ item ∈ items, item.Valid true) (hlt : (sizes items).sum < 2 ^ 31)
    (hg : ¬ Growable 0 0 (sizes items)) : Lost items := by
  rw [← length_encode] at hlt
  exact ⟨hv, hlt, fun h => hg (h.growable (fun _ _ => rfl) hv hlt)⟩

lemma lost_huge (hlen : data.length = 1431655768) : Lost [.bytes data] := by
  have hsizes : sizes [.bytes data] = [1431655768] := by simp [sizes, Item.pieces, hlen, roundUp]
  refine lost_of_not_growable (by simp [Item.Valid]) (by rw [hsizes]; decide) ?_
  rw [hsizes]
  norm_num [Growable, Fits]

lemma lost_late {data' : List UInt8} (hlen : data.length = 1000000000)
    (hlen' : data'.length = 600000000) : Lost [.bytes data, .bytes data'] ∧
      ∃ p, writeAll (.error .noMemory) [.bytes data, .bytes data'] (fun _ _ => plenty)
        (initState.pushAllowFds true) = some ([(.ok, 1000000000), (.ok, 1000000000)], p) := by
  have hsizes : sizes [.bytes data, .bytes data'] = [1000000000, 600000000] := by
    simp [sizes, Item.pieces, hlen, hlen', roundUp]
  constructor
  · refine lost_of_not_growable (by simp [Item.Valid]) (by rw [hsizes]; decide) ?_
    rw [hsizes]
    norm_num [Growable, Fits, capacityWith]
  · have hpadded : (padded data).length = 1000000000 := by simp [hlen, roundUp]
    have hfits : Fits ([] : List UInt8).length 0 (padded data).length := by
      rw [hpadded]
      norm_num [Fits]
    obtain ⟨p, hp, hfilled⟩ :
        ∃ q, (initState.pushAllowFds true).write data plenty = some (.ok, q) ∧ _ :=
      filled_initState.write (by rw [hpadded]; norm_num) rfl hfits
    rw [nil_append, hpadded] at hfilled
    have hdropped := write_dropped hfilled hpadded hlen'
    have hpos : p.mDataPos = 1000000000 := by rw [hfilled.pos, hpadded]
    refine ⟨p, ?_⟩
    simp [writeAll, Item.write, hp, hdropped, hpos]

theorem roundTrip_broken :
    (Lost [.bytes (List.replicate 1431655768 0)] ∧
      writeAll (.error .noMemory) [.bytes (List.replicate 1431655768 0)] (fun _ _ => plenty)
        (initState.pushAllowFds true) = none) ∧
    (Lost [.bytes (List.replicate 1000000000 0), .bytes (List.replicate 600000000 0)] ∧
      ∃ p, writeAll (.error .noMemory)
          [.bytes (List.replicate 1000000000 0), .bytes (List.replicate 600000000 0)]
          (fun _ _ => plenty) (initState.pushAllowFds true) =
        some ([(.ok, 1000000000), (.ok, 1000000000)], p)) := by
  refine ⟨⟨lost_huge length_replicate, ?_⟩,
    lost_late length_replicate length_replicate⟩
  have hhuge : (initState.pushAllowFds true).write (replicate 1431655768 0) plenty = none :=
    write_huge length_replicate
  rw [writeAll, Item.write, hhuge]
  rfl

end Parcel

end Droid
