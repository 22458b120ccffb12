import DroidPlatform.Vector.Lemmas.Calls

/-!
# The operations on one vector

One lemma for each operation: what it yields is the list operation, provided that the call is safe.
-/

namespace Droid

open List Option Lists Vectors

open VectorImpl

variable {T : Type} {ty : ItemType T} {m m' : Buffers T} {v w : VectorImpl} {s : Vectors T}
  {ls : Lists T} {l l' : List (Option T)} {i j k index n : ℕ}

/-! ## Reading while a vector changes -/

/-- The item of a vector's buffer. -/
lemma load_itemLocation (hb : w.Backed ty m) (hk : k < w.mCount) :
    ∃ b, w.mStorage = some b ∧ (w.itemLocation k : Ptr T) = .item b k ∧
      load ty m (w.itemLocation k) = some (w.itemAt m k) := by
  cases hst : w.mStorage with
  | none =>
    have := hb.null hst
    omega
  | some b =>
    obtain ⟨sb, hsb, hfits⟩ := hb.buffer b hst
    have hloc : (w.itemLocation k : Ptr T) = .item b k := by
      simp [itemLocation, arrayImpl, hst, Ptr.add]
    refine ⟨b, rfl, hloc, ?_⟩
    rw [hloc, itemAt_eq hst hsb]
    exact load_item hsb (hk.trans_le hfits.slots)

/-- A buffer that keeps its value is read as before. -/
lemma load_congr {b : ℕ} (hval : m'.val? b = m.val? b) :
    load ty m' (.item b k) = load ty m (.item b k) := by
  simp only [load, hval]

lemma alone_of_one {b : ℕ} (hst : v.mStorage = some b) (hone : m.refs b = 1) : v.Alone m := by
  simp [Alone, hst, hone]

/-- The only owner of a buffer with room stays in it. -/
lemma VectorImpl.KeepsItems.grow (hkeeps : v.KeepsItems ty m n) (hb : v.Backed ty m) {b : ℕ}
    (hst : v.mStorage = some b) (hone : m.refs b = 1) (hsize : v.mCount + n < 2 ^ 32) {p : Ptr T}
    (hgrow : v.grow ty true m index n = some (m', w, p)) : w.mStorage = some b := by
  obtain ⟨sb, hsb, -⟩ := hb.buffer b hst
  have hcap : v.capacity ty m = _ := capacity_eq hst hsb
  have hroom := hkeeps (alone_of_one hst hone)
  rw [hcap, getD_some] at hroom
  simp only [VectorImpl.grow, makeRoom, toUInt32_eq_self hsize, hcap, editArrayImpl_of_one hst hone,
    bind_eq_bind, bind_some, if_neg (not_lt.mpr hroom)] at hgrow
  obtain ⟨r, hr, hsome⟩ := bind_eq_some_iff.mp hgrow
  obtain ⟨m1, -, heq⟩ := bind_eq_some_iff.mp hr
  cases heq
  cases hsome
  exact hst

/-- **A vector's items while another one, or the vector itself, grows.**  Below `index` they are
where they were, or in a buffer that another vector keeps. -/
lemma Refines.load_settles (h : Refines ty s ls) (hi : s.vecs[i]? = some v)
    (hj : s.vecs[j]? = some w) (hk : k < w.mCount) {b' : ℕ} {sb' : SharedBuffer T}
    (hs : s.memory.Settles v.mStorage m' b' sb') (hfits : VectorImpl.Fits ty sb' v.mCount)
    (hitems : ∀ k < index, sb'.items k = v.itemAt s.memory k)
    (hown : i = j → ∀ b, v.mStorage = some b → s.memory.refs b = 1 → k < index ∧ b' = b) :
    load ty m' (w.itemLocation k) = some (w.itemAt s.memory k) ∧
      ∀ a, (w.itemLocation k : Ptr T) = .item b' a → a < index := by
  obtain ⟨b, hst, hloc, hload⟩ := load_itemLocation (h.backed w (mem_of_getElem? hj)) hk
  have hfar : m'.val? b = s.memory.val? b → b ≠ b' →
      load ty m' (w.itemLocation k) = some (w.itemAt s.memory k) ∧
        ∀ a, (w.itemLocation k : Ptr T) = .item b' a → a < index := by
    intro hval hne
    refine ⟨?_, fun a ha => ?_⟩
    · rw [← hload, hloc]
      exact load_congr hval
    · rw [hloc] at ha
      cases ha
      exact absurd rfl hne
  by_cases hij : i = j
  · subst hij
    cases hi.symm.trans hj
    by_cases hone : s.memory.refs b = 1
    · obtain ⟨hlt, rfl⟩ := hown rfl b hst hone
      refine ⟨?_, fun a ha => ?_⟩
      · rw [hloc, load_item hs.val? (hk.trans_le hfits.slots), hitems k hlt]
      · rw [hloc] at ha
        cases ha
        exact hlt
    · have hne : b ≠ b' := by
        cases hs with
        | inPlace hb' hone' =>
          rw [hst] at hb'
          cases hb'
          exact fun _ => hone hone'
        | moved =>
          obtain ⟨c, hc⟩ := h.owned.exists_cell (mem_of_getElem? ((owner hi).trans
            (congrArg some hst)))
          exact (h.owned.lt_next hc).ne
      exact hfar (hs.val?_of_ne hne fun _ => hone) hne
  · obtain ⟨hval, hne⟩ := hs.val?_eq h.owned (owner hi)
      ((owner hj).trans (congrArg some hst)) hij
    exact hfar hval hne

/-! ## Insertions -/

lemma getElem?_replicate_some {x : T} {o : Option T}
    (hk : (replicate n o)[k]? = some (some x)) : o = some x := by
  rw [getElem?_replicate] at hk
  split_ifs at hk
  exact some.inj hk

section

variable (h : Refines ty s ls)

include h

section

variable (hi : s.vecs[i]? = some v) (hl : ls[i]? = some l)

include hi hl

theorem Refines.insertAt {item : ItemArg T}
    (hsafe : index ≤ v.mCount → v.CanInsert ty s.memory index n ∧ s.Readable item ∧ s.Untouched ty i v index n item) :
    v.Yields ty s.memory l
      (insert (replicate n (ls.item ty.constructed item)) index l)
      (dropStatus (v.insertAt ty true s.memory (s.ptr item) index n)) := by
  have hholds := h.holds i v l hi hl
  have hb := h.backed v (mem_of_getElem? hi)
  have hcount := hholds.count
  rcases lt_or_ge v.mCount index with hgt | hle
  · refine .inl ⟨?_, if_pos (hcount ▸ hgt)⟩
    simp only [VectorImpl.insertAt, if_pos hgt]
    rfl
  obtain ⟨hcan, hread, halias⟩ := hsafe hle
  have hle' : index ≤ l.length := hcount ▸ hle
  have hlen : (replicate n (ls.item ty.constructed item)).length = n := length_replicate
  refine yields_insert h.owned.toValid hb hholds hle' (hlen.symm ▸ hcan) ?_ ?_
  · intro _ _ hgrow
    rw [hlen] at hgrow
    simp only [VectorImpl.insertAt, if_neg (not_lt.mpr hle), hgrow]
    rfl
  · intro m' b' sb' hs hfits hitems hgrow
    rw [hlen] at hfits hgrow ⊢
    have hslots := hfits.slots
    suffices hfill : ∃ f, fill ty m' (.item b' index) (s.ptr item) n = some (setItems m' b' f) ∧
        (∀ k, k < index ∨ index + n ≤ k → f k = sb'.items k) ∧
        ∀ k < n, ∀ x, ls.item ty.constructed item = some x → f (index + k) = some x by
      obtain ⟨f, hf, hout, hin⟩ := hfill
      refine ⟨f, ?_, hout, fun k x hk => ?_⟩
      · simp only [VectorImpl.insertAt, if_neg (not_lt.mpr hle), hgrow, bind_eq_bind,
          bind_some, hf]
        rfl
      · have hlt := (List.getElem?_eq_some_iff.mp hk).1
        rw [length_replicate] at hlt
        exact hin k hlt x (getElem?_replicate_some hk)
    cases item with
    | null =>
      obtain ⟨f, hf, hin, hout⟩ := construct_type_spec hs.val?
        (show index + n ≤ sb'.slots ty by omega)
      refine ⟨f, hf, hout, fun k hk x hx => ?_⟩
      simp only [item, ItemType.constructed] at hx
      split_ifs at hx with hctor
      rw [hin (by simpa using hctor) k hk, hx]
    | value x =>
      obtain ⟨f, hf, hin, hout⟩ := splat_type_spec hs.val?
        (show index + n ≤ sb'.slots ty by omega)
        (show load ty m' (.foreign [x]) = some (some x) from rfl) (fun _ hj => by cases hj)
      exact ⟨f, hf, hout, fun k hk y hy => by rw [hin k hk, ← hy]; rfl⟩
    | itemOf j k =>
      obtain ⟨w, hj, hk⟩ := hread
      have hptr : s.ptr (.itemOf j k) = w.itemLocation k := by simp [ptr, hj]
      obtain ⟨hload, hsep⟩ := h.load_settles hi hj hk hs (hfits.mono (by omega)) hitems (by
        rintro rfl b hst hone
        obtain ⟨hlt, hkeeps⟩ := halias rfl
        have hstay := hkeeps.grow hb hst hone hcan.1.size hgrow
        exact ⟨hlt (alone_of_one hst hone), some.inj hstay⟩)
      obtain ⟨f, hf, hin, hout⟩ := splat_type_spec hs.val?
        (show index + n ≤ sb'.slots ty by omega) hload (fun a ha => .inl (hsep a ha))
      refine ⟨f, ?_, hout, fun k' hk' x hx => ?_⟩
      · obtain ⟨b, -, hloc, -⟩ := load_itemLocation (h.backed w (mem_of_getElem? hj)) hk
        rw [hptr]
        rw [hloc] at hf ⊢
        exact hf
      · obtain ⟨l2, hl2⟩ := h.exists_list hj
        rw [hin k' hk']
        refine (h.holds j w l2 hj hl2).items k x ?_
        simp only [item, hl2] at hx
        exact join_eq_some_iff.mp hx

/-- Inserting what is read from an array. -/
lemma Refines.insertArrayAt (array : Ptr T) (xs : List (Option T))
    (hcan : index ≤ v.mCount → v.CanInsert ty s.memory index xs.length)
    (hread : index ≤ v.mCount → ∀ m' b' sb', s.memory.Settles v.mStorage m' b' sb' → VectorImpl.Fits ty sb' (v.mCount + xs.length) → (∀ k < index, sb'.items k = v.itemAt s.memory k) → v.grow ty true s.memory index xs.length = some (m', ⟨some b', v.mCount + xs.length⟩, .item b' index) → ∃ src : ℕ → Option T, (∀ k < xs.length, load ty m' (array.add k) = some (src k)) ∧ (∀ k < xs.length, ∀ j, array.add k = .item b' j → j < index) ∧ ∀ k x, xs[k]? = some (some x) → src k = some x) :
    v.Yields ty s.memory l (insert xs index l)
      (dropStatus (v.insertArrayAt ty true s.memory array index xs.length)) := by
  have hholds := h.holds i v l hi hl
  have hcount := hholds.count
  rcases lt_or_ge v.mCount index with hgt | hle
  · refine .inl ⟨?_, if_pos (hcount ▸ hgt)⟩
    simp only [VectorImpl.insertArrayAt, if_pos hgt]
    rfl
  refine yields_insert h.owned.toValid (h.backed v (mem_of_getElem? hi)) hholds (hcount ▸ hle)
    (hcan hle) ?_ ?_
  · intro _ _ hgrow
    simp only [VectorImpl.insertArrayAt, if_neg (not_lt.mpr hle), hgrow]
    rfl
  · intro m' b' sb' hs hfits hitems hgrow
    obtain ⟨src, hload, hsep, hsrc⟩ := hread hle m' b' sb' hs hfits hitems hgrow
    have hslots := hfits.slots
    have hsize := hfits.size
    obtain ⟨f, hcopy, hin, hout⟩ := do_copy_spec src hs.val? (by omega)
      (by omega) hload
      (fun k hk j hj => .inl (hsep k hk j hj))
    refine ⟨f, ?_, hout, fun k x hk => ?_⟩
    · simp only [VectorImpl.insertArrayAt, if_neg (not_lt.mpr hle), hgrow, bind_eq_bind,
        bind_some, hcopy]
      rfl
    · rw [hin k (List.getElem?_eq_some_iff.mp hk).1]
      exact hsrc k x hk

theorem Refines.insertForeign {array : List T}
    (hcan : index ≤ v.mCount → v.CanInsert ty s.memory index array.length) :
    v.Yields ty s.memory l (insert (array.map some) index l) (dropStatus
      (v.insertArrayAt ty true s.memory (.foreign array) index array.length)) := by
  have hlen : (array.map some).length = array.length := length_map ..
  have hyields := h.insertArrayAt hi hl (.foreign array) (array.map some)
    (by rwa [hlen]) (fun _ m' b' sb' _ _ _ _ => by
      refine ⟨fun k => array[k]?, fun k hk => ?_, fun k _ j hj => (by cases hj), fun k x hk => ?_⟩
      · rw [hlen] at hk
        simp [Ptr.add, load, getElem?_eq_getElem hk]
      · simpa using hk)
  rwa [hlen] at hyields

theorem Refines.appendVector (hj : s.vecs[j]? = some w) (hl' : ls[j]? = some l')
    (hcan : v.CanInsert ty s.memory v.mCount w.mCount)
    (hkeeps : i = j → v.KeepsItems ty s.memory w.mCount) :
    v.Yields ty s.memory l (l ++ l')
      (dropStatus (v.appendVector ty true s.memory w)) := by
  have hcount := (h.holds i v l hi hl).count
  have hholds := h.holds j w l' hj hl'
  have hinsert : insert l' v.mCount l = l ++ l' := by
    rw [insert_of_le hcount.le, hcount, take_length, drop_length, append_nil]
  rw [← hinsert, VectorImpl.appendVector, insertVectorAt, hholds.count]
  refine h.insertArrayAt hi hl _ _ (fun _ => hholds.count ▸ hcan)
    fun _ m' b' sb' hs hfits hitems hgrow =>
      ⟨w.itemAt s.memory, fun k hk => ?_, fun k hk a ha => ?_, hholds.items⟩
  all_goals
    rw [← hholds.count] at hk hgrow
    obtain ⟨hload, hsep⟩ := h.load_settles hi hj hk hs (hfits.mono (by omega)) hitems (by
      rintro rfl b hst hone
      cases hi.symm.trans hj
      have hstay := (hkeeps rfl).grow (h.backed v (mem_of_getElem? hi)) hst hone hcan.1.size hgrow
      exact ⟨hk, some.inj hstay⟩)
  · exact hload
  · exact hsep a ha

/-! ## Removals -/

lemma Refines.shrink (hle : index + n ≤ v.mCount) (hcan : v.CanRemove ty index n) :
    v.Yields ty s.memory l (l.take index ++ l.drop (index + n))
      (v.shrink ty true s.memory index n) := by
  have hholds := h.holds i v l hi hl
  have hb := h.backed v (mem_of_getElem? hi)
  have hcount := hholds.count
  cases hst : v.mStorage with
  | none =>
    have hzero := hb.null hst
    refine .inl ⟨by simp only [VectorImpl.shrink, hst], ?_⟩
    obtain rfl : l = [] := length_eq_zero_iff.mp (by omega)
    simp
  | some b =>
    obtain ⟨hthree, hmin, hgap⟩ := hcan
    obtain ⟨m', b', sb', hshrink, hs, hfits, hitems⟩ :=
      shrink_spec h.owned.toValid hb hst hle hthree hmin hgap
    have hlen : v.mCount - n = (l.take index ++ l.drop (index + n)).length := by
      rw [length_append, length_take, length_drop]
      omega
    rw [hlen] at hshrink hfits hitems
    refine .inr ⟨m', b', sb', hshrink, hs, hfits, fun k x hk => ?_⟩
    have hlt := (List.getElem?_eq_some_iff.mp hk).1
    rcases lt_or_ge k index with hk1 | hk1
    · rw [getElem?_append_left (by rw [length_take]; omega),
        getElem?_take_of_lt hk1] at hk
      rw [hitems k hlt k (if_pos hk1)]
      exact hholds.items k x hk
    · rw [getElem?_append_right (by rw [length_take]; omega), length_take,
        getElem?_drop, min_eq_left (by omega)] at hk
      rw [hitems k hlt (k + n) (if_neg (by omega))]
      refine hholds.items _ x ?_
      rwa [show index + n + (k - index) = k + n by omega] at hk

theorem Refines.removeItemsAt (hsum : index + n < 2 ^ 32)
    (hcan : index + n ≤ v.mCount → v.CanRemove ty index n) :
    v.Yields ty s.memory l (remove index n l)
      (dropStatus (v.removeItemsAt ty true s.memory index n)) := by
  have hcount := (h.holds i v l hi hl).count
  rw [VectorImpl.removeItemsAt, toUInt32_eq_self hsum, remove, ← hcount]
  split_ifs with hlt
  · exact .inl ⟨rfl, rfl⟩
  · rcases h.shrink hi hl (not_lt.mp hlt) (hcan (not_lt.mp hlt)) with
      ⟨hshrink, heq⟩ | ⟨m', b', sb', hshrink, hrest⟩
    · rw [hshrink]
      exact .inl ⟨rfl, heq⟩
    · rw [hshrink]
      exact .inr ⟨m', b', sb', rfl, hrest⟩

theorem Refines.clear (hcan : v.CanRemove ty 0 v.mCount) :
    v.Yields ty s.memory l [] (v.clear ty true s.memory) := by
  have hcount := (h.holds i v l hi hl).count
  have hyields := h.shrink hi hl (by omega) hcan
  rwa [take_zero, zero_add, hcount, drop_length, ← hcount] at hyields

/-! ## Other changes -/

theorem Refines.setCapacity (hcan : v.CanReserve ty n) :
    v.Yields ty s.memory l l (dropStatus (v.setCapacity ty true s.memory n)) := by
  have hholds := h.holds i v l hi hl
  have hb := h.backed v (mem_of_getElem? hi)
  obtain ⟨cap, hcap⟩ := hb.exists_capacity
  by_cases hamount : toInt32 (n - v.mCount) ≤ 0
  · refine .inl ⟨?_, rfl⟩
    simp only [VectorImpl.setCapacity, hcap, if_pos hamount]
    rfl
  · obtain ⟨hle, hsize⟩ := hcan (not_le.mp hamount)
    obtain ⟨f, hcopy, hf⟩ := copy_alloc h.owned.toValid hb (fits_mk hle hsize fun _ => none) le_rfl
    have hcount := hholds.count
    refine .inr ⟨_, _, ⟨n * ty.itemSize, f⟩, ?_, .moved, fits_mk (hcount ▸ hle) hsize f,
      fun k x hk => ?_⟩
    · rw [← hcount]
      simp only [VectorImpl.setCapacity, hcap, bind_eq_bind, bind_some,
        if_neg hamount, toUInt32_eq_self (show n * ty.itemSize < 2 ^ 32 by omega), alloc_eq hsize,
        hcopy, release_storage_alloc h.owned.toValid hb]
      rfl
    · have hlt := (List.getElem?_eq_some_iff.mp hk).1
      show f k = some x
      rw [hf k (by omega)]
      exact hholds.items k x hk

theorem Refines.replaceAt [DecidableEq T] (hindex : index < v.mCount) {item : ItemArg T}
    (hread : s.Readable item) :
    v.Yields ty s.memory l (l.set index (ls.item ty.constructed item))
      (dropStatus (v.replaceAt ty true s.memory (s.ptr item) index)) := by
  have hholds := h.holds i v l hi hl
  have hb := h.backed v (mem_of_getElem? hi)
  have hcount := hholds.count
  obtain ⟨b, hst, -, -⟩ := load_itemLocation hb hindex
  obtain ⟨sb, hsb, hfits⟩ := hb.buffer b hst
  obtain ⟨m1, b', sb1, hedit, hs, hfits1, hitems⟩ :=
    editArrayImpl_spec h.owned.toValid hb hst hsb
  have hroom : v.mCount ≤ sb1.slots ty := hfits.slots.trans hfits1.slots
  have hsize := hfits1.size
  have hloc : (itemLocation { v with mStorage := some b' } index : Ptr T) =
      .item b' index := by
    simp [itemLocation, arrayImpl, Ptr.add]
  -- the item that is read, after the buffer was made the vector's own
  have hsource : item ≠ .null → ∃ cell, load ty m1 (s.ptr item) = some cell ∧
      ∀ x, ls.item ty.constructed item = some x → cell = some x := by
    intro hnull
    cases item with
    | null => exact absurd rfl hnull
    | value x => exact ⟨some x, rfl, fun y hy => hy⟩
    | itemOf j k =>
      obtain ⟨w, hj, hk⟩ := hread
      obtain ⟨l2, hl2⟩ := h.exists_list hj
      have hptr : s.ptr (.itemOf j k) = w.itemLocation k := by simp [ptr, hj]
      obtain ⟨hload, -⟩ := h.load_settles hi hj hk hs ⟨hroom, hsize⟩ hitems (by
        rintro rfl b1 hst1 hone
        cases hi.symm.trans hj
        rw [editArrayImpl_of_one hst1 hone, some.injEq, Prod.mk.injEq] at hedit
        have hstorage := congrArg mStorage hedit.2
        rw [hst1] at hstorage
        exact ⟨hk, (some.inj hstorage).symm⟩)
      refine ⟨_, hptr ▸ hload, fun x hx => ?_⟩
      refine (h.holds j w l2 hj hl2).items k x ?_
      simp only [item, hl2] at hx
      exact join_eq_some_iff.mp hx
  have hlen : v.mCount = (l.set index (ls.item ty.constructed item)).length := by
    rw [length_set, hcount]
  -- whatever is written, the other items stay
  have hset : ∀ f : ℕ → Option T, (∀ x, ls.item ty.constructed item = some x → f index = some x) →
      (∀ k < v.mCount, k ≠ index → f k = sb1.items k) →
      ∀ k x, (l.set index (ls.item ty.constructed item))[k]? = some (some x) → f k = some x := by
    intro f hnew hold k x hk
    have hlt := (List.getElem?_eq_some_iff.mp hk).1
    rw [← hlen] at hlt
    by_cases hki : k = index
    · subst hki
      rw [getElem?_set_self (hcount ▸ hlt)] at hk
      exact hnew x (some.inj hk)
    · rw [getElem?_set_ne (symm hki)] at hk
      rw [hold k hlt hki, hitems k hlt]
      exact hholds.items k x hk
  by_cases hsame : Ptr.item b' index = s.ptr item
  · -- the item is replaced by itself
    refine .inr ⟨m1, b', sb1, ?_, hs, hlen ▸ ⟨hroom, hsize⟩, hset _ (fun x hx => ?_) fun _ _ _ => rfl⟩
    · simp only [VectorImpl.replaceAt, hedit, bind_eq_bind, bind_some, hloc, hsame, ne_eq, ← hlen]
      rfl
    · obtain ⟨cell, hload, hcell⟩ := hsource (by
        rintro rfl
        simp [ptr] at hsame)
      rw [← hsame, load_item hs.val? (hindex.trans_le hroom)] at hload
      rw [some.inj hload]
      exact hcell x hx
  · obtain ⟨f, hdestroy, hf⟩ := destroy_type_spec (n := 1) hs.val?
      (show index + 1 ≤ sb1.slots ty by omega)
    have hval := val?_setItems hs.val? f
    obtain ⟨g, hreplace, hnew, hg⟩ : ∃ g, replace ty m1 (.item b' index) (s.ptr item) =
          some (setItems m1 b' g) ∧
        (∀ x, ls.item ty.constructed item = some x → g index = some x) ∧
        ∀ k < v.mCount, k ≠ index → g k = sb1.items k := by
      by_cases hnull : item = .null
      · subst hnull
        obtain ⟨g, hconstruct, hnew, hout⟩ := construct_type_spec (n := 1) hval
          (show index + 1 ≤ sb1.slots ty by omega)
        rw [setItems_setItems] at hconstruct
        refine ⟨g, ?_, fun x hx => ?_, fun k hk hne => ?_⟩
        · simp only [VectorImpl.replace, hdestroy]
          exact hconstruct
        · simp only [item, ItemType.constructed] at hx
          split_ifs at hx with hctor
          rw [← hx]
          exact hnew (by simpa using hctor) 0 one_pos
        · rw [hout k (by omega)]
          exact hf k (by omega)
      · obtain ⟨cell, hload, hcell⟩ := hsource hnull
        have hload' : load ty (setItems m1 b' f) (s.ptr item) = some cell := by
          rw [load_setItems hs.val?, hload]
          intro a ha
          refine hf a ?_
          have : a ≠ index := by
            rintro rfl
            exact hsame ha.symm
          omega
        have hzero : ∀ k < 1, (s.ptr item).add k = s.ptr item := by
          intro k hk
          obtain rfl : k = 0 := by omega
          cases s.ptr item <;> rfl
        obtain ⟨g, hcopy, hin, hout⟩ := do_copy_spec (n := 1) (fun _ => cell) hval
          (show sb1.mSize < 2 ^ 32 by omega) (show index + 1 ≤ sb1.slots ty by omega)
          (fun k hk => by rw [hzero k hk, hload']) (fun k hk a ha => by
            rw [hzero k hk] at ha
            have : a ≠ index := by
              rintro rfl
              exact hsame ha.symm
            omega)
        rw [setItems_setItems] at hcopy
        refine ⟨g, ?_, fun x hx => ?_, fun k hk hne => ?_⟩
        · have hptr : s.ptr item ≠ .null := by
            intro hptr
            rw [hptr] at hload
            cases hload
          simp only [VectorImpl.replace, hdestroy]
          cases hp : s.ptr item with
          | null => exact absurd hp hptr
          | foreign xs | item c a => rw [hp] at hcopy; exact hcopy
        · have hcell' := hin 0 one_pos
          rw [add_zero] at hcell'
          rw [hcell', hcell x hx]
        · rw [hout k (by omega)]
          exact hf k (by omega)
    refine .inr ⟨_, b', ⟨sb1.mSize, g⟩, ?_, settles_setItems hs g, hlen ▸ ⟨hroom, hsize⟩,
      hset g hnew hg⟩
    simp only [VectorImpl.replaceAt, hedit, bind_eq_bind, bind_some, hloc, ne_eq, hsame, hreplace,
      ← hlen]
    rfl

end

/-! ## Sharing -/

/-- A vector that gives up its buffer. -/
lemma Refines.detach (hi : s.vecs[i]? = some v) :
    v.release_storage ty s.memory = some (s.memory.releaseOpt v.mStorage) ∧
    Refines ty ⟨s.memory.releaseOpt v.mStorage, s.vecs.set i ⟨none, 0⟩⟩ (ls.set i []) := by
  refine ⟨release_storage_spec (h.backed v (mem_of_getElem? hi)), ?_⟩
  refine h.set hi (h.owned.releaseOpt (owner hi)) (fun j w b hij hj hb => ?_) (backed_nil ty _)
    (holds_nil _)
  exact h.owned.val?_releaseOpt (owner hi) ((owner hj).trans (congrArg some hb)) hij

theorem Refines.assign (hi : s.vecs[i]? = some v) (hj : s.vecs[j]? = some w) (hl : ls[j]? = some l)
    (hij : i ≠ j) :
    ∃ s', s.on i (fun v => v.assign ty s.memory w) = some s' ∧ Refines ty s' (ls.set i l) := by
  obtain ⟨hrelease, h'⟩ := h.detach hi
  have hlt := (List.getElem?_eq_some_iff.mp hi).1
  have hholds := h.holds j w l hj hl
  by_cases hzero : w.mCount = 0
  · obtain rfl : l = [] := length_eq_zero_iff.mp (hholds.count ▸ hzero)
    refine ⟨_, ?_, h'⟩
    simp [on, hi, assign, hrelease, hzero]
  · have hb := h.backed w (mem_of_getElem? hj)
    cases hst : w.mStorage with
    | none => exact absurd (hb.null hst) hzero
    | some b =>
      have hj' : (s.vecs.set i ⟨none, 0⟩)[j]? = some w := by rw [getElem?_set_ne hij, hj]
      have hi' : (s.vecs.set i ⟨none, 0⟩)[i]? = some ⟨none, 0⟩ := getElem?_set_self hlt
      have hl' : (ls.set i [])[j]? = some l := by rw [getElem?_set_ne hij, hl]
      have hmem : some b ∈ owners
          (⟨s.memory.releaseOpt v.mStorage, s.vecs.set i ⟨none, 0⟩⟩) :=
        mem_of_getElem? ((owner hj').trans (congrArg some hst))
      have hnull : (owners (⟨s.memory.releaseOpt v.mStorage,
          s.vecs.set i ⟨none, 0⟩⟩))[i]? = some none := by
        rw [getElem?_map, hi']
        rfl
      obtain ⟨c, hc⟩ : ∃ c, (s.memory.releaseOpt v.mStorage).cells b = some c :=
        h'.owned.exists_cell hmem
      have hval : ∀ a, ((s.memory.releaseOpt v.mStorage).acquire b).val? a =
          (s.memory.releaseOpt v.mStorage).val? a := fun a => RefHeap.val?_acquire
      refine ⟨⟨(s.memory.releaseOpt v.mStorage).acquire b, s.vecs.set i w⟩, ?_, ?_⟩
      · simp [on, hi, VectorImpl.assign, hrelease, hzero, copy, hst, hc]
      · have hset : Refines ty ⟨(s.memory.releaseOpt v.mStorage).acquire b,
            (s.vecs.set i ⟨none, 0⟩).set i w⟩ ((ls.set i []).set i l) := h'.set hi'
          (hst.symm ▸ h'.owned.acquire hnull hmem) (fun _ _ a _ _ _ => hval a)
          ((h'.backed w (mem_of_getElem? hj')).congr fun a _ => hval a)
          ((h'.holds j w l hj' hl').congr fun a _ => hval a)
        rwa [set_set, set_set] at hset

theorem Refines.copy (hj : s.vecs[j]? = some w) (hl : ls[j]? = some l) :
    ∃ m' v', w.copy s.memory = some (m', v') ∧ Refines ty ⟨m', s.vecs ++ [v']⟩ (ls ++ [l]) := by
  have hb := h.backed w (mem_of_getElem? hj)
  have hholds := h.holds j w l hj hl
  cases hst : w.mStorage with
  | none =>
    refine ⟨s.memory, w, by simp only [VectorImpl.copy, hst], h.append ?_ (fun _ => rfl) hb hholds⟩
    rw [hst]
    exact h.owned.append_none
  | some b =>
    have hmem : some b ∈ s.owners := mem_of_getElem? ((owner hj).trans (congrArg some hst))
    obtain ⟨c, hc⟩ := h.owned.exists_cell hmem
    have hval : ∀ a, (s.memory.acquire b).val? a = s.memory.val? a :=
      fun a => RefHeap.val?_acquire
    refine ⟨s.memory.acquire b, w, ?_, h.append ?_ hval (hb.congr fun a _ => hval a)
      (hholds.congr fun a _ => hval a)⟩
    · simp [VectorImpl.copy, hst, hc]
    · rw [hst]
      exact h.owned.append_acquire hmem

end

end Droid
