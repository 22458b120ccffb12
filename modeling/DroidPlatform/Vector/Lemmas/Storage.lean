import DroidPlatform.Vector.Lemmas.Transfers

/-!
# Making room and closing gaps

Whatever strategy `_grow` and `_shrink` choose, the vector ends up as the only owner of a buffer
that holds its old items at their new places.  That it is the only owner is `RefHeap.Settles`; where
the items are is said by index.  `itemAt` is the item of a vector at an index, read from its buffer.

All allocations succeed here, and no size computation wraps.
-/

namespace Droid

open Option Nat SharedBuffer RefHeap

variable {T : Type} {ty : ItemType T} {m : Buffers T} {v : VectorImpl} {b : ℕ} {sb : SharedBuffer T}

namespace VectorImpl

/-- The item in a slot of a vector's buffer. -/
def itemAt (m : Buffers T) (v : VectorImpl) (k : ℕ) : Option T :=
  v.mStorage.bind fun b => (m.val? b).bind fun sb => sb.items k

lemma itemAt_eq (hst : v.mStorage = some b) (hsb : m.val? b = some sb) (k : ℕ) :
    v.itemAt m k = sb.items k := by simp [itemAt, hst, hsb]

/-- A buffer holds `n` items, and its size is one that `alloc` can take. -/
structure Fits (ty : ItemType T) (sb : SharedBuffer T) (n : ℕ) : Prop where
  slots : n ≤ sb.slots ty
  size : sb.mSize + 16 < 2 ^ 32

variable {k n : ℕ}

lemma Fits.mono (h : Fits ty sb n) (hk : k ≤ n) : Fits ty sb k := ⟨hk.trans h.slots, h.size⟩

/-- What the items are does not matter. -/
lemma Fits.setItems (h : Fits ty sb n) (hk : k ≤ n) (f : ℕ → Option T) : Fits ty ⟨sb.mSize, f⟩ k :=
  ⟨hk.trans h.slots, h.size⟩

/-- A vector's items are in its buffer. -/
structure Backed (ty : ItemType T) (m : Buffers T) (v : VectorImpl) : Prop where
  null : v.mStorage = none → v.mCount = 0
  buffer : ∀ b, v.mStorage = some b → ∃ sb, m.val? b = some sb ∧ Fits ty sb v.mCount

lemma capacity_eq (hst : v.mStorage = some b) (hsb : m.val? b = some sb) :
    v.capacity ty m = some (sb.slots ty) := by
  simp [capacity, hst, hsb]

lemma Backed.exists_capacity (hb : Backed ty m v) : ∃ cap, v.capacity ty m = some cap := by
  cases hst : v.mStorage with
  | none => exact ⟨0, by simp [capacity, hst]⟩
  | some b =>
    obtain ⟨sb, hsb, -⟩ := hb.buffer b hst
    exact ⟨_, capacity_eq hst hsb⟩

variable {c : ℕ}

lemma slots_mk (f : ℕ → Option T) : slots ty ⟨c * ty.itemSize, f⟩ = c :=
  Nat.mul_div_cancel _ ty.pos

lemma fits_mk (hn : n ≤ c) (hc : c * ty.itemSize + 16 < 2 ^ 32) (f : ℕ → Option T) :
    Fits ty ⟨c * ty.itemSize, f⟩ n := ⟨by rwa [slots_mk], hc⟩

variable {size : ℕ}

lemma alloc_eq (h : size + 16 < 2 ^ 32) :
    alloc true m size = some (some m.next, m.alloc ⟨size, fun _ => none⟩) := by
  have hwrap : ¬toUInt32 (16 + size) < 16 := by
    rw [toUInt32_eq_self (by omega)]
    omega
  simp [SharedBuffer.alloc, hwrap]

lemma setItems_alloc (size : ℕ) (f g : ℕ → Option T) :
    setItems (m.alloc ⟨size, f⟩) m.next g = m.alloc ⟨size, g⟩ := modify_alloc _

/-! ## Letting go of a buffer -/

lemma release_storage_spec (hb : Backed ty m v) :
    v.release_storage ty m = some (m.releaseOpt v.mStorage) := by
  cases hst : v.mStorage with
  | none => simp [release_storage, hst, releaseOpt]
  | some b =>
    obtain ⟨sb, hsb, hfits⟩ := hb.buffer b hst
    obtain ⟨c, hc, rfl⟩ := exists_of_val? hsb
    by_cases hone : c.refs = 1
    · obtain ⟨f, hdestroy, -⟩ := destroy_type_spec hsb
        (show 0 + v.mCount ≤ c.val.slots ty by rw [zero_add]; exact hfits.slots)
      have harray : (v.arrayImpl : Ptr T) = .item b 0 := by simp [arrayImpl, hst]
      have hrelease : (setItems m b f).release b = m.release b :=
        release_modify ((refs_eq hc).trans hone) _
      simp only [release_storage, hst, hc, bind_eq_bind, bind_some, if_pos hone,
        harray, hdestroy, hrelease]
      rfl
    · simp only [release_storage, hst, hc, bind_eq_bind, bind_some, if_neg hone]
      rfl

/-- The same once another buffer has been allocated. -/
lemma release_storage_alloc (hv : m.Valid) (hb : Backed ty m v) (x : SharedBuffer T) :
    v.release_storage ty (m.alloc x) = some ((m.releaseOpt v.mStorage).alloc x) := by
  have hb' : Backed ty (m.alloc x) v := by
    refine ⟨hb.null, fun b hst => ?_⟩
    obtain ⟨sb, hsb, hfits⟩ := hb.buffer b hst
    exact ⟨_, (val?_alloc_of_ne (hv.ne_next hsb)).trans hsb, hfits⟩
  rw [release_storage_spec hb']
  cases hst : v.mStorage with
  | none => rfl
  | some b =>
    obtain ⟨sb, hsb, -⟩ := hb.buffer b hst
    exact congrArg some (release_alloc (hv.ne_next hsb))

/-! ## Copying to a new buffer -/

lemma itemLocation_zero (v : VectorImpl) : (v.itemLocation 0 : Ptr T) = v.arrayImpl := by
  cases hst : v.mStorage <;> simp [itemLocation, arrayImpl, hst, Ptr.add]

lemma itemLocation_mk (v : VectorImpl) (b k : ℕ) :
    (itemLocation { v with mStorage := some b } k : Ptr T) = .item b k := by
  simp [itemLocation, arrayImpl, Ptr.add]

/-- Reading a vector's items next to a new buffer. -/
lemma load_alloc (hv : m.Valid) (hst : v.mStorage = some b) (hsb : m.val? b = some sb)
    (hk : k < sb.slots ty) (x : SharedBuffer T) :
    load ty (m.alloc x) ((v.arrayImpl : Ptr T).add k) = some (v.itemAt m k) := by
  have hval : (m.alloc x).val? b = some sb := (val?_alloc_of_ne (hv.ne_next hsb)).trans hsb
  rw [itemAt_eq hst hsb, arrayImpl, hst]
  show load ty (m.alloc x) (.item b (0 + k)) = _
  rw [zero_add]
  exact load_item hval hk

variable {dest from_ num : ℕ} {f : ℕ → Option T}

/-- Copying some of a vector's items to a new buffer. -/
lemma do_copy_alloc (hv : m.Valid) (hb : Backed ty m v) (hfits : Fits ty ⟨size, f⟩ (dest + num))
    (hnum : from_ + num ≤ v.mCount) :
    ∃ g, do_copy ty (m.alloc ⟨size, f⟩) (.item m.next dest) (v.itemLocation from_) num =
      some (m.alloc ⟨size, g⟩) ∧ Filled f dest num (fun k => v.itemAt m (from_ + k)) g := by
  have hnew : (m.alloc ⟨size, f⟩).val? m.next = some ⟨size, f⟩ := val?_alloc
  have hlt : size < 2 ^ 32 := (le_add_right _ _).trans_lt hfits.size
  cases hst : v.mStorage with
  | none =>
    have hzero := hb.null hst
    obtain rfl : num = 0 := by omega
    obtain ⟨g, hcopy, hg⟩ := do_copy_spec (fun k => v.itemAt m (from_ + k))
      hnew hlt hfits.slots (fun k hk => absurd hk (not_lt_zero k))
      (fun k hk => absurd hk (not_lt_zero k))
    rw [setItems_alloc] at hcopy
    exact ⟨g, hcopy, hg⟩
  | some b =>
    obtain ⟨sb, hsb, hold⟩ := hb.buffer b hst
    have hloc : ∀ k, (v.itemLocation from_).add k =
        (v.arrayImpl : Ptr T).add (from_ + k) := by
      simp [itemLocation, arrayImpl, hst, Ptr.add]
    have hslots := hold.slots
    obtain ⟨g, hcopy, hg⟩ := do_copy_spec (fun k => v.itemAt m (from_ + k))
      hnew hlt hfits.slots
      (fun k hk => by rw [hloc]; exact load_alloc hv hst hsb (by omega) _)
      (fun k hk j hj => by
        simp only [itemLocation, arrayImpl, hst, Ptr.add, Ptr.item.injEq] at hj
        exact absurd hj.1 (hv.ne_next hsb))
    rw [setItems_alloc] at hcopy
    exact ⟨g, hcopy, hg⟩

/-- Copying a vector's first items to the start of a new buffer. -/
lemma copy_alloc (hv : m.Valid) (hb : Backed ty m v) (hfits : Fits ty ⟨size, f⟩ num)
    (hnum : num ≤ v.mCount) :
    ∃ g, do_copy ty (m.alloc ⟨size, f⟩) (.item m.next 0) v.arrayImpl num =
      some (m.alloc ⟨size, g⟩) ∧ ∀ k < num, g k = v.itemAt m k := by
  have hfits' : Fits ty ⟨size, f⟩ (0 + num) := by rwa [zero_add]
  obtain ⟨g, hcopy, hg, -⟩ := do_copy_alloc hv hb hfits' (show 0 + num ≤ v.mCount by omega)
  rw [itemLocation_zero] at hcopy
  exact ⟨g, hcopy, fun k hk => by simpa using hg k hk⟩

/-- The vector becomes the only owner of a buffer for `n` items; where `src k` is an index, the item
there is now at `k`. -/
def Reshapes (ty : ItemType T) (m : Buffers T) (v : VectorImpl) (n : ℕ) (src : ℕ → Option ℕ)
    (r : Option (Buffers T × VectorImpl)) : Prop :=
  ∃ m' b' sb', r = some (m', { v with mStorage := some b' }) ∧ m.Settles v.mStorage m' b' sb' ∧
    Fits ty sb' n ∧ ∀ k < n, ∀ j, src k = some j → sb'.items k = v.itemAt m j

variable {newCapacity where_ : ℕ} {src : ℕ → Option ℕ}

/-- **The copy strategy.** -/
theorem relocate_spec (hv : m.Valid) (hb : Backed ty m v)
    (hsize : newCapacity * ty.itemSize + 16 < 2 ^ 32) (hwhere : where_ ≤ v.mCount)
    (hdest : where_ ≤ dest) (hroom : dest + num ≤ newCapacity) (hnum : from_ + num ≤ v.mCount)
    (hn : n ≤ newCapacity) (hsrc : ∀ k < n, ∀ j, src k = some j →
      k < where_ ∧ j = k ∨ ∃ i < num, k = dest + i ∧ j = from_ + i) :
    Reshapes ty m v n src (v.relocate ty true m newCapacity where_ from_ dest num) := by
  have hfits : ∀ {n} f, n ≤ newCapacity →
      Fits ty ⟨newCapacity * ty.itemSize, f⟩ n := fun f hn => fits_mk hn hsize f
  obtain ⟨f1, hcopy1, hf1⟩ : ∃ f, (if where_ ≠ 0 then
        do_copy ty (m.alloc ⟨newCapacity * ty.itemSize, fun _ => none⟩) (.item m.next 0)
          v.arrayImpl where_
      else some (m.alloc ⟨newCapacity * ty.itemSize, fun _ => none⟩)) =
        some (m.alloc ⟨newCapacity * ty.itemSize, f⟩) ∧ ∀ k < where_, f k = v.itemAt m k := by
    split_ifs with hzero
    · exact copy_alloc hv hb (hfits _ (by omega)) hwhere
    · exact ⟨_, rfl, fun k hk => by omega⟩
  obtain ⟨f2, hcopy2, hbefore, hf2⟩ : ∃ f, (if num ≠ 0 then
        do_copy ty (m.alloc ⟨newCapacity * ty.itemSize, f1⟩) (.item m.next dest)
          (v.itemLocation from_) num
      else some (m.alloc ⟨newCapacity * ty.itemSize, f1⟩)) =
        some (m.alloc ⟨newCapacity * ty.itemSize, f⟩) ∧ (∀ k < where_, f k = f1 k) ∧
        ∀ k < num, f (dest + k) = v.itemAt m (from_ + k) := by
    split_ifs with hzero
    · obtain ⟨f, hcopy, hf⟩ := do_copy_alloc hv hb (hfits f1 hroom) hnum
      exact ⟨f, hcopy, fun k hk => hf.2 k (by omega), hf.1⟩
    · exact ⟨f1, rfl, fun _ _ => rfl, fun k hk => by omega⟩
  refine ⟨_, _, _, ?_, .moved, hfits f2 hn, fun k hk j hj => ?_⟩
  · have hwrap : toUInt32 (newCapacity * ty.itemSize) = newCapacity * ty.itemSize :=
      toUInt32_eq_self (by omega)
    simp only [relocate, hwrap, alloc_eq hsize, bind_eq_bind, bind_some, hcopy1, hcopy2,
      release_storage_alloc hv hb]
  · rcases hsrc k hk j hj with ⟨hlt, rfl⟩ | ⟨i, hi, rfl, rfl⟩
    · exact (hbefore _ hlt).trans (hf1 _ hlt)
    · exact hf2 i hi

/-- **The resize strategy.** -/
theorem resize_spec (hv : m.Valid) (hst : v.mStorage = some b) (hsb : m.val? b = some sb)
    (hsize : newCapacity * ty.itemSize + 16 < 2 ^ 32) (hn : n ≤ newCapacity)
    (hsrc : ∀ k < n, ∀ j, src k = some j → k < sb.slots ty ∧ j = k) :
    Reshapes ty m v n src (v.resize ty true m b newCapacity) := by
  have hwrap : toUInt32 (newCapacity * ty.itemSize) = newCapacity * ty.itemSize :=
    toUInt32_eq_self (by omega)
  have hheader : ¬toUInt32 (16 + newCapacity * ty.itemSize) < 16 := by
    rw [toUInt32_eq_self (by omega)]
    omega
  obtain ⟨c, hc, rfl⟩ := exists_of_val? hsb
  -- the items are carried over to a new buffer, unless the size stays
  have hmoved : v.resize ty true m b newCapacity = some
      ((m.releaseOpt v.mStorage).alloc (c.val.clip ty (newCapacity * ty.itemSize)),
        { v with mStorage := some m.next }) →
      Reshapes ty m v n src (v.resize ty true m b newCapacity) := by
    refine fun hr => ⟨_, _, _, hr, .moved, fits_mk hn hsize _, fun k hk j hj => ?_⟩
    obtain ⟨hslots, rfl⟩ := hsrc k hk j hj
    rw [itemAt_eq hst hsb]
    refine if_pos ?_
    rw [lt_iff_add_one_le, le_div_iff_mul_le ty.pos, le_min_iff]
    exact ⟨mul_le_mul_right _ (by omega), (le_div_iff_mul_le ty.pos).mp hslots⟩
  rw [hst] at hmoved
  by_cases hone : c.refs = 1
  · by_cases hsame : c.val.mSize = newCapacity * ty.itemSize
    · refine ⟨m, b, c.val, ?_, ?_, ⟨?_, by rw [hsame]; exact hsize⟩, fun k hk j hj => ?_⟩
      · simp [resize, editResize, hwrap, hc, if_pos hone, if_pos hsame]
      · rw [hst]
        exact .refl ((refs_eq hc).trans hone) hsb
      · rwa [slots, hsame, Nat.mul_div_cancel _ ty.pos]
      · rw [(hsrc k hk j hj).2, itemAt_eq hst hsb]
    · refine hmoved ?_
      simp only [resize, editResize, realloc, hwrap, hc, hsb, bind_eq_bind, bind_some,
        if_pos hone, if_neg hsame, hheader]
      rfl
  · refine hmoved ?_
    have hmodify := modify_alloc (h := m)
      (x := (⟨newCapacity * ty.itemSize, fun _ => none⟩))
      fun _ => c.val.clip ty (newCapacity * ty.itemSize)
    simp only [resize, editResize, copyResize, hwrap, hc, hsb,
      alloc_eq hsize, bind_eq_bind, bind_some, if_neg hone, hmodify,
      release_alloc (hv.lt_next hc).ne]
    rfl

/-- **`editArrayImpl`** makes the buffer the vector's own. -/
theorem editArrayImpl_spec (hv : m.Valid) (hb : Backed ty m v) (hst : v.mStorage = some b)
    (hsb : m.val? b = some sb) :
    ∃ m' b' sb', v.editArrayImpl ty true m = some (m', { v with mStorage := some b' }) ∧
      m.Settles v.mStorage m' b' sb' ∧ Fits ty sb' (sb.slots ty) ∧
      ∀ k < v.mCount, sb'.items k = v.itemAt m k := by
  obtain ⟨sb1, hsb1, hfits⟩ := hb.buffer b hst
  cases hsb.symm.trans hsb1
  obtain ⟨c, hc, rfl⟩ := exists_of_val? hsb
  by_cases hone : c.refs = 1
  · refine ⟨m, b, c.val, ?_, ?_, ⟨le_rfl, hfits.size⟩, fun k _ => (itemAt_eq hst hsb k).symm⟩
    · simp only [editArrayImpl, hst, hc, bind_eq_bind, bind_some, if_pos hone]
      rw [← hst]
    · rw [hst]
      exact .refl ((refs_eq hc).trans hone) hsb
  · have hsize : c.val.slots ty * ty.itemSize + 16 < 2 ^ 32 := by
      have := slots_mul_le ty c.val
      have := hfits.size
      omega
    obtain ⟨f, hcopy, hf⟩ := copy_alloc hv hb (fits_mk hfits.slots hsize fun _ => none) le_rfl
    refine ⟨_, _, ⟨c.val.slots ty * ty.itemSize, f⟩, ?_, .moved, fits_mk le_rfl hsize f, hf⟩
    simp [editArrayImpl, hst, hc, if_neg hone, capacity_eq hst hsb,
      toUInt32_eq_self (show c.val.slots ty * ty.itemSize < 2 ^ 32 by omega), alloc_eq hsize,
      hcopy, release_storage_alloc hv hb]

/-- The only owner has its buffer already. -/
lemma editArrayImpl_of_one (hst : v.mStorage = some b) (hone : m.refs b = 1) :
    v.editArrayImpl ty true m = some (m, v) := by
  cases hc : m.cells b with
  | none => simp [refs, hc] at hone
  | some c =>
    rw [refs_eq hc] at hone
    simp [editArrayImpl, hst, hc, if_pos hone]

/-! ## `_grow` -/

variable {m' : Buffers T}

/-- The only owner writes items. -/
lemma settles_setItems {o : Option ℕ} (hs : m.Settles o m' b sb) (f : ℕ → Option T) :
    m.Settles o (setItems m' b f) b ⟨sb.mSize, f⟩ := by
  have hcongr : setItems m' b f = m'.modify b fun _ => ⟨sb.mSize, f⟩ := by
    refine modify_congr fun x hx => ?_
    cases hs.val?.symm.trans hx
    rfl
  rw [hcongr]
  exact hs.modify _

/-- No size that `_grow` computes wraps. -/
structure Growable (ty : ItemType T) (cap count amount : ℕ) : Prop where
  size : count + amount < 2 ^ 32
  capacity : cap < count + amount → (count + amount) * 3 + 1 < 2 ^ 32 ∧
    max kMinVectorCapacity (((count + amount) * 3 + 1) / 2) * ty.itemSize + 16 < 2 ^ 32

/-- Where the items come from when `amount` slots are inserted at `where_`. -/
def growSource (where_ amount k : ℕ) : Option ℕ :=
  if k < where_ then some k else if k < where_ + amount then none else some (k - amount)

/-- Where the items come from when `amount` are removed at `where_`. -/
def shrinkSource (where_ amount k : ℕ) : Option ℕ :=
  if k < where_ then some k else some (k + amount)

variable {amount cap j : ℕ}

lemma growSource_eq_some : growSource where_ amount k = some j ↔
    k < where_ ∧ j = k ∨ where_ + amount ≤ k ∧ j = k - amount := by
  rw [growSource]
  split_ifs <;> simp <;> omega

lemma shrinkSource_eq_some : shrinkSource where_ amount k = some j ↔
    k < where_ ∧ j = k ∨ where_ ≤ k ∧ j = k + amount := by
  rw [shrinkSource]
  split_ifs <;> simp <;> omega

section

variable (hv : m.Valid) (hb : Backed ty m v)

include hv hb

lemma makeRoom_of_lt (hwhere : where_ ≤ v.mCount) (hcap : v.capacity ty m = some cap)
    (hgrow : Growable ty cap v.mCount amount) (hlt : cap < v.mCount + amount) :
    Reshapes ty m v (v.mCount + amount) (growSource where_ amount)
      (v.makeRoom ty true m where_ amount (v.mCount + amount)) := by
  obtain ⟨hthree, hsize⟩ := hgrow.capacity hlt
  have hroom : v.mCount + amount ≤ max kMinVectorCapacity (((v.mCount + amount) * 3 + 1) / 2) :=
    le_max_of_le_right (by omega)
  have hrelocate : Reshapes ty m v (v.mCount + amount) (growSource where_ amount)
      (v.relocate ty true m (max kMinVectorCapacity (((v.mCount + amount) * 3 + 1) / 2)) where_ where_
        (where_ + amount) (v.mCount - where_)) := by
    refine relocate_spec hv hb hsize hwhere (by omega) (by omega) (by omega) hroom fun k hk j hj => ?_
    rcases growSource_eq_some.mp hj with hbefore | ⟨hle, rfl⟩
    · exact .inl hbefore
    · exact .inr ⟨k - (where_ + amount), by omega, by omega, by omega⟩
  cases hst : v.mStorage with
  | none =>
    simpa only [makeRoom, hcap, bind_eq_bind, bind_some, if_pos hlt,
      toUInt32_eq_self hthree, hst] using hrelocate
  | some b =>
    obtain ⟨sb, hsb, hfits⟩ := hb.buffer b hst
    simp only [makeRoom, hcap, bind_eq_bind, bind_some, toUInt32_eq_self hthree, hst]
    split_ifs with hend
    · refine resize_spec hv hst hsb hsize hroom fun k hk j hj => ?_
      have := hfits.slots
      have := growSource_eq_some.mp hj
      omega
    · exact hrelocate

lemma makeRoom_of_le (hst : v.mStorage = some b) (hwhere : where_ ≤ v.mCount)
    (hcap : v.capacity ty m = some cap) (hle : ¬cap < v.mCount + amount)
    (hplace : amount ≠ 0 ∨ where_ = v.mCount ∨ ty.movesInPlace = true) :
    Reshapes ty m v (v.mCount + amount) (growSource where_ amount)
      (v.makeRoom ty true m where_ amount (v.mCount + amount)) := by
  obtain ⟨sb, hsb, hfits⟩ := hb.buffer b hst
  have hslots : sb.slots ty = cap := by
    rw [capacity_eq hst hsb] at hcap
    exact some.inj hcap
  obtain ⟨m1, b', sb1, hedit, hsettles, hfits1, hitems⟩ := editArrayImpl_spec hv hb hst hsb
  have hroom := hfits1.slots
  by_cases hend : where_ ≠ v.mCount
  · have hne : where_ + amount ≠ where_ ∨ ty.movesInPlace = true := by
      rcases hplace with h | h | h
      · exact .inl (by omega)
      · exact absurd h hend
      · exact .inr h
    obtain ⟨f, hmove, hmoved, hrest⟩ := move_forward_type_spec
      hsettles.val? (show where_ + amount + (v.mCount - where_) ≤ _ by omega)
      (by omega) hne
    refine ⟨setItems m1 b' f, b', ⟨sb1.mSize, f⟩, ?_, settles_setItems hsettles f,
      hfits1.setItems (by omega) f, fun k hk j hj => ?_⟩
    · simp only [makeRoom, hcap, bind_eq_bind, bind_some, if_neg hle, hedit,
        if_pos hend, itemLocation_mk, hmove]
    · rcases growSource_eq_some.mp hj with ⟨hlt, rfl⟩ | ⟨hge, rfl⟩
      · rw [← hitems _ (by omega)]
        exact hrest _ (by omega)
      · obtain ⟨i, rfl⟩ := Nat.exists_eq_add_of_le hge
        rw [show where_ + amount + i - amount = where_ + i by omega, ← hitems _ (by omega)]
        exact hmoved i (by omega)
  · refine ⟨m1, b', sb1, ?_, hsettles, hfits1.mono (by omega), fun k hk j hj => ?_⟩
    · simp only [makeRoom, hcap, bind_eq_bind, bind_some, if_neg hle, hedit,
        if_neg hend]
    · obtain rfl : j = k := by have := growSource_eq_some.mp hj; omega
      exact hitems j (by have := growSource_eq_some.mp hj; omega)

/-- **`_grow`**, apart from growing nothing by nothing. -/
theorem grow_spec (hwhere : where_ ≤ v.mCount) (hcap : v.capacity ty m = some cap)
    (hgrow : Growable ty cap v.mCount amount)
    (hplace : amount ≠ 0 ∨ where_ = v.mCount ∨ ty.movesInPlace = true) :
    (v.mStorage = none ∧ amount = 0 ∧ v.grow ty true m where_ amount = some (m, v, .null)) ∨
    ∃ m' b' sb', v.grow ty true m where_ amount =
        some (m', ⟨some b', v.mCount + amount⟩, .item b' where_) ∧
      m.Settles v.mStorage m' b' sb' ∧ Fits ty sb' (v.mCount + amount) ∧
      ∀ k < v.mCount + amount, ∀ j, growSource where_ amount k = some j →
        sb'.items k = v.itemAt m j := by
  by_cases hnull : v.mStorage = none ∧ ¬cap < v.mCount + amount
  · obtain ⟨hst, hle⟩ := hnull
    have hzero := hb.null hst
    obtain rfl : cap = 0 := by simpa [capacity, hst] using hcap.symm
    obtain rfl : amount = 0 := by omega
    refine .inl ⟨hst, rfl, ?_⟩
    obtain ⟨st, count⟩ := v
    obtain rfl : where_ = 0 := by omega
    subst hst hzero
    rfl
  · have hreshaped : Reshapes ty m v (v.mCount + amount) (growSource where_ amount)
        (v.makeRoom ty true m where_ amount (v.mCount + amount)) := by
      by_cases hlt : cap < v.mCount + amount
      · exact makeRoom_of_lt hv hb hwhere hcap hgrow hlt
      · obtain ⟨b, hst⟩ := ne_none_iff_exists'.mp fun hst => hnull ⟨hst, hlt⟩
        exact makeRoom_of_le hv hb hst hwhere hcap hlt hplace
    obtain ⟨m', b', sb', hroom, hrest⟩ := hreshaped
    refine .inr ⟨m', b', sb', ?_, hrest⟩
    simp [grow, toUInt32_eq_self hgrow.size, hroom, itemLocation_mk]

/-! ## `_shrink` -/

section

variable (hst : v.mStorage = some b) (hsb : m.val? b = some sb) (hle : where_ + amount ≤ v.mCount)
  (hthree : (v.mCount - amount) * 3 < 2 ^ 32)

include hst hsb hle hthree

lemma closeGap_of_lt (hmin : kMinVectorCapacity * ty.itemSize + 16 < 2 ^ 32)
    (hsize : sb.mSize + 16 < 2 ^ 32) (hlt : (v.mCount - amount) * 3 < sb.slots ty) :
    Reshapes ty m v (v.mCount - amount) (shrinkSource where_ amount)
      (v.closeGap ty true m b where_ amount (v.mCount - amount)) := by
  have htwo : toUInt32 ((v.mCount - amount) * 2) = (v.mCount - amount) * 2 :=
    toUInt32_eq_self (by omega)
  have hroom : v.mCount - amount ≤ max kMinVectorCapacity ((v.mCount - amount) * 2) :=
    le_max_of_le_right (by omega)
  have hsize' : max kMinVectorCapacity ((v.mCount - amount) * 2) * ty.itemSize + 16 < 2 ^ 32 := by
    rcases max_choice kMinVectorCapacity ((v.mCount - amount) * 2) with hmax | hmax
    · rw [hmax]
      exact hmin
    · have hmul := mul_le_mul_right ty.itemSize
        (show (v.mCount - amount) * 2 ≤ sb.slots ty by omega)
      have := slots_mul_le ty sb
      rw [hmax]
      omega
  simp only [closeGap, capacity_eq hst hsb, bind_eq_bind, bind_some, toUInt32_eq_self hthree, htwo]
  split_ifs with hend
  · refine resize_spec hv hst hsb hsize' hroom fun k hk j hj => ?_
    have := shrinkSource_eq_some.mp hj
    omega
  · refine relocate_spec hv hb hsize' (by omega) le_rfl (by omega) (by omega) hroom
      fun k hk j hj => ?_
    rcases shrinkSource_eq_some.mp hj with hbefore | ⟨hge, rfl⟩
    · exact .inl hbefore
    · exact .inr ⟨k - where_, by omega, by omega, by omega⟩

lemma closeGap_of_le (hslots : v.mCount ≤ sb.slots ty)
    (hlt : ¬(v.mCount - amount) * 3 < sb.slots ty)
    (hplace : amount ≠ 0 ∨ where_ = v.mCount ∨ ty.movesInPlace = true) :
    Reshapes ty m v (v.mCount - amount) (shrinkSource where_ amount)
      (v.closeGap ty true m b where_ amount (v.mCount - amount)) := by
  obtain ⟨m1, b', sb1, hedit, hsettles, hfits1, hitems⟩ := editArrayImpl_spec hv hb hst hsb
  have hroom := hfits1.slots
  obtain ⟨f, hdestroy, hf⟩ := destroy_type_spec hsettles.val?
    (show where_ + amount ≤ sb1.slots ty by omega)
  have hsettles' := settles_setItems hsettles f
  simp only [closeGap, capacity_eq hst hsb, bind_eq_bind, bind_some,
    toUInt32_eq_self hthree, if_neg hlt, hedit, itemLocation_mk, hdestroy]
  by_cases hend : where_ ≠ v.mCount - amount
  · have hne : where_ ≠ where_ + amount ∨ ty.movesInPlace = true := by
      rcases hplace with h | h | h
      · exact .inl (by omega)
      · omega
      · exact .inr h
    obtain ⟨g, hmove, hmoved, hrest⟩ := move_backward_type_spec
      hsettles'.val?
      (show where_ + amount + (v.mCount - amount - where_) ≤ sb1.slots ty by omega)
      (by omega) hne
    refine ⟨_, b', ⟨sb1.mSize, g⟩, ?_, settles_setItems hsettles' g,
      hfits1.setItems (by omega) g, fun k hk j hj => ?_⟩
    · simp [if_pos hend, hmove]
    · rcases shrinkSource_eq_some.mp hj with ⟨h1, rfl⟩ | ⟨hge, rfl⟩
      · rw [← hitems _ (by omega), ← hf _ (by omega)]
        exact hrest _ (.inl h1)
      · obtain ⟨i, rfl⟩ := Nat.exists_eq_add_of_le hge
        rw [show where_ + i + amount = where_ + amount + i by omega, ← hitems _ (by omega),
          ← hf _ (by omega)]
        exact hmoved i (by omega)
  · refine ⟨_, b', ⟨sb1.mSize, f⟩, ?_, hsettles', hfits1.setItems (by omega) f,
      fun k hk j hj => ?_⟩
    · simp [if_neg hend]
    · obtain rfl : j = k := by have := shrinkSource_eq_some.mp hj; omega
      rw [← hitems j (by omega)]
      exact hf j (by omega)

end

/-- **`_shrink`** -/
theorem shrink_spec (hst : v.mStorage = some b) (hle : where_ + amount ≤ v.mCount)
    (hthree : (v.mCount - amount) * 3 < 2 ^ 32)
    (hmin : kMinVectorCapacity * ty.itemSize + 16 < 2 ^ 32)
    (hplace : amount ≠ 0 ∨ where_ = v.mCount ∨ ty.movesInPlace = true) :
    ∃ m' b' sb', v.shrink ty true m where_ amount = some (m', ⟨some b', v.mCount - amount⟩) ∧
      m.Settles v.mStorage m' b' sb' ∧ Fits ty sb' (v.mCount - amount) ∧
      ∀ k < v.mCount - amount, ∀ j, shrinkSource where_ amount k = some j →
        sb'.items k = v.itemAt m j := by
  obtain ⟨sb, hsb, hfits⟩ := hb.buffer b hst
  have hword : toWord (v.mCount - amount) = v.mCount - amount := by
    have := (div_le_self sb.mSize ty.itemSize).trans_lt (lt_of_add_right_lt hfits.size)
    rw [toWord]
    omega
  have hreshaped : Reshapes ty m v (v.mCount - amount) (shrinkSource where_ amount)
      (v.closeGap ty true m b where_ amount (v.mCount - amount)) := by
    by_cases hlt : (v.mCount - amount) * 3 < sb.slots ty
    · exact closeGap_of_lt hv hb hst hsb hle hthree hmin hfits.size hlt
    · exact closeGap_of_le hv hb hst hsb hle hthree hfits.slots hlt hplace
  obtain ⟨m', b', sb', hgap, hrest⟩ := hreshaped
  refine ⟨m', b', sb', ?_, hrest⟩
  simp [shrink, hst, hword, hgap]

end

end VectorImpl

end Droid
