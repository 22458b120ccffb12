import DroidPlatform.Vector.Vectors

/-!
# What a call does to the family

`Refines` ties the family to independent lists: every buffer is owned by the vectors that point to
it and by nobody else, and every vector's buffer holds the items of its list.

A call changes one vector.  It either leaves it alone or makes it the only owner of a buffer
(`Becomes`), so that the other vectors see nothing of it (`Refines.becomes`).  What remains to be
shown of each call is what is in that buffer.
-/

namespace Droid

open List Option Lists

variable {T : Type} {ty : ItemType T} {m m' : Buffers T} {v v' : VectorImpl} {s : Vectors T}
  {ls : Lists T} {l l' : List (Option T)} {i j : ℕ}

namespace VectorImpl

/-- The vector holds the items of a list, as far as they are known. -/
structure Holds (m : Buffers T) (v : VectorImpl) (l : List (Option T)) : Prop where
  count : v.mCount = l.length
  items : ∀ k x, l[k]? = some (some x) → v.itemAt m k = some x

lemma Backed.congr (h : Backed ty m v) (hval : ∀ b, v.mStorage = some b → m'.val? b = m.val? b) :
    Backed ty m' v := by
  refine ⟨h.null, fun b hst => ?_⟩
  rw [hval b hst]
  exact h.buffer b hst

lemma Holds.congr (h : Holds m v l) (hval : ∀ b, v.mStorage = some b → m'.val? b = m.val? b) :
    Holds m' v l := by
  refine ⟨h.count, fun k x hk => ?_⟩
  rw [← h.items k x hk]
  cases hst : v.mStorage with
  | none => simp [itemAt, hst]
  | some b => simp [itemAt, hst, hval b hst]

lemma holds_nil (m : Buffers T) : Holds m ⟨none, 0⟩ ([] : List (Option T)) := ⟨rfl, by simp⟩

lemma backed_nil (ty : ItemType T) (m : Buffers T) : Backed ty m ⟨none, 0⟩ :=
  ⟨fun _ => rfl, by simp⟩

end VectorImpl

open VectorImpl

/-! ## The invariant -/

/-- Who points where. -/
abbrev Vectors.owners (s : Vectors T) : List (Option ℕ) := s.vecs.map mStorage

structure Refines (ty : ItemType T) (s : Vectors T) (ls : Lists T) : Prop where
  owned : s.memory.Owned s.owners
  length : s.vecs.length = ls.length
  backed : ∀ v ∈ s.vecs, v.Backed ty s.memory
  holds : ∀ (i : ℕ) (v : VectorImpl) (l : List (Option T)), s.vecs[i]? = some v → ls[i]? = some l →
    v.Holds s.memory l

namespace Refines

lemma owner (hi : s.vecs[i]? = some v) : s.owners[i]? = some v.mStorage := by
  rw [getElem?_map, hi]
  rfl

/-- The list of a vector. -/
lemma exists_list (h : Refines ty s ls) (hi : s.vecs[i]? = some v) : ∃ l, ls[i]? = some l := by
  have hlt := (List.getElem?_eq_some_iff.mp hi).1
  rw [h.length] at hlt
  exact ⟨_, getElem?_eq_getElem hlt⟩

lemma initial (ty : ItemType T) : Refines ty (.empty : Vectors T) [] :=
  ⟨RefHeap.owned_empty, rfl, by simp [Vectors.empty], by simp⟩

/-- **One vector changes**, and no other sees it. -/
theorem set (h : Refines ty s ls) (hi : s.vecs[i]? = some v)
    (howned : m'.Owned (s.owners.set i v'.mStorage))
    (hframe : ∀ j w b, i ≠ j → s.vecs[j]? = some w → w.mStorage = some b →
      m'.val? b = s.memory.val? b)
    (hbacked : v'.Backed ty m') (hholds : v'.Holds m' l') :
    Refines ty ⟨m', s.vecs.set i v'⟩ (ls.set i l') where
  owned := by
    rw [Vectors.owners, map_set]
    exact howned
  length := by simpa using h.length
  backed w hw := by
    obtain ⟨j, hj⟩ := mem_iff_getElem?.mp hw
    by_cases hij : i = j
    · subst hij
      rw [getElem?_set_self (List.getElem?_eq_some_iff.mp hi).1] at hj
      cases hj
      exact hbacked
    · rw [getElem?_set_ne hij] at hj
      exact (h.backed w (mem_of_getElem? hj)).congr fun b hb => hframe j w b hij hj hb
  holds j w l hj hl := by
    by_cases hij : i = j
    · subst hij
      have hlt := (List.getElem?_eq_some_iff.mp hi).1
      rw [getElem?_set_self hlt] at hj
      rw [getElem?_set_self (h.length ▸ hlt)] at hl
      cases hj
      cases hl
      exact hholds
    · rw [getElem?_set_ne hij] at hj hl
      exact (h.holds j w l hj hl).congr fun b hb => hframe j w b hij hj hb

/-- A vector joins the family. -/
theorem append (h : Refines ty s ls) (howned : m'.Owned (s.owners ++ [v'.mStorage]))
    (hframe : ∀ b, m'.val? b = s.memory.val? b) (hbacked : v'.Backed ty m')
    (hholds : v'.Holds m' l') : Refines ty ⟨m', s.vecs ++ [v']⟩ (ls ++ [l']) where
  owned := by
    rw [Vectors.owners, map_append]
    exact howned
  length := by simpa using h.length
  backed w hw := by
    rcases mem_append.mp hw with hw | hw
    · exact (h.backed w hw).congr fun b _ => hframe b
    · rw [mem_singleton.mp hw]
      exact hbacked
  holds j w l hj hl := by
    rcases lt_or_ge j s.vecs.length with hlt | hge
    · rw [getElem?_append_left hlt] at hj
      rw [getElem?_append_left (h.length ▸ hlt)] at hl
      exact (h.holds j w l hj hl).congr fun b _ => hframe b
    · rw [getElem?_append_right hge] at hj
      rw [getElem?_append_right (h.length ▸ hge)] at hl
      obtain ⟨hj1, hj2⟩ := List.getElem?_eq_some_iff.mp hj
      obtain ⟨hl1, hl2⟩ := List.getElem?_eq_some_iff.mp hl
      simp only [getElem_singleton] at hj2 hl2
      rw [← hj2, ← hl2]
      exact hholds

end Refines

/-! ## Operations on one vector -/

/-- The vector becomes the only owner of a buffer with the items of `l'`. -/
def VectorImpl.Becomes (ty : ItemType T) (m : Buffers T) (v : VectorImpl) (l' : List (Option T))
    (r : Option (Buffers T × VectorImpl)) : Prop :=
  ∃ m' b' sb', r = some (m', ⟨some b', l'.length⟩) ∧ m.Settles v.mStorage m' b' sb' ∧
    VectorImpl.Fits ty sb' l'.length ∧ ∀ k x, l'[k]? = some (some x) → sb'.items k = some x

/-- The result of an operation that should turn the items `l` into `l'`. -/
def VectorImpl.Yields (ty : ItemType T) (m : Buffers T) (v : VectorImpl) (l l' : List (Option T))
    (r : Option (Buffers T × VectorImpl)) : Prop :=
  (r = some (m, v) ∧ l' = l) ∨ v.Becomes ty m l' r

/-- **An operation on one vector.** -/
theorem Refines.yields (h : Refines ty s ls) (hi : s.vecs[i]? = some v) (hl : ls[i]? = some l)
    {f : VectorImpl → Option (Buffers T × VectorImpl)}
    (hy : v.Yields ty s.memory l l' (f v)) :
    ∃ s', s.on i f = some s' ∧ Refines ty s' (ls.set i l') := by
  rcases hy with ⟨hf, rfl⟩ | ⟨m', b', sb', hf, hsettles, hfits, hitems⟩
  · refine ⟨s, ?_, ?_⟩
    · have hset : s.vecs.set i v = s.vecs := by
        obtain ⟨hlt, rfl⟩ := List.getElem?_eq_some_iff.mp hi
        exact set_getElem_self hlt
      simp [Vectors.on, hi, hf, hset]
    · have hset : ls.set i l' = ls := by
        obtain ⟨hlt, rfl⟩ := List.getElem?_eq_some_iff.mp hl
        exact set_getElem_self hlt
      rwa [hset]
  · refine ⟨⟨m', s.vecs.set i ⟨some b', l'.length⟩⟩, ?_, ?_⟩
    · simp [Vectors.on, hi, hf]
    · refine h.set hi (hsettles.owned h.owned (owner hi)) (fun j w b hij hj hb => ?_)
        ⟨by simp, fun b hb => ?_⟩ ⟨rfl, fun k x hk => ?_⟩
      · exact (hsettles.val?_eq h.owned (owner hi) ((owner hj).trans (congrArg some hb)) hij).1
      · cases hb
        exact ⟨sb', hsettles.val?, hfits⟩
      · rw [itemAt_eq rfl hsettles.val?]
        exact hitems k x hk

section Insert

variable {xs : List (Option T)} {index : ℕ}

lemma Lists.insert_of_le (h : index ≤ l.length) :
    insert xs index l = l.take index ++ xs ++ l.drop index := if_neg (not_lt.mpr h)

lemma Lists.length_insert (h : index ≤ l.length) :
    (insert xs index l).length = l.length + xs.length := by
  rw [insert_of_le h]
  simp only [length_append, length_take, length_drop]
  omega

/-- The items after an insertion. -/
lemma items_insert (hholds : v.Holds m l) (hindex : index ≤ l.length) {f g : ℕ → Option T}
    (hgrow : ∀ k < l.length + xs.length, ∀ j, growSource index xs.length k = some j →
      g k = v.itemAt m j)
    (hout : ∀ k, k < index ∨ index + xs.length ≤ k → f k = g k)
    (hin : ∀ k x, xs[k]? = some (some x) → f (index + k) = some x) :
    ∀ k x, (insert xs index l)[k]? = some (some x) → f k = some x := by
  intro k x hk
  have hlt := (List.getElem?_eq_some_iff.mp hk).1
  rw [length_insert hindex] at hlt
  rw [insert_of_le hindex, append_assoc] at hk
  rcases lt_or_ge k index with hk1 | hk1
  · rw [getElem?_append_left (by simp; omega), getElem?_take_of_lt hk1] at hk
    rw [hout k (.inl hk1), hgrow k hlt k (if_pos hk1)]
    exact hholds.items k x hk
  · rw [getElem?_append_right (by simp; omega), length_take, min_eq_left hindex] at hk
    rcases lt_or_ge k (index + xs.length) with hk2 | hk2
    · rw [getElem?_append_left (by omega)] at hk
      rw [← hin (k - index) x hk]
      congr 1
      omega
    · rw [getElem?_append_right (by omega), getElem?_drop] at hk
      have hsource : growSource index xs.length k = some (k - xs.length) := by
        rw [growSource, if_neg (by omega), if_neg (by omega)]
      rw [hout k (.inr hk2), hgrow k hlt _ hsource]
      refine hholds.items _ x ?_
      rwa [show index + (k - index - xs.length) = k - xs.length by omega] at hk

/-- Making room for items and writing them there. -/
lemma yields_insert (hv : m.Valid) (hb : v.Backed ty m) (hholds : v.Holds m l)
    (hindex : index ≤ l.length) (hcan : v.CanInsert ty m index xs.length)
    {r : Option (Buffers T × VectorImpl)}
    (hnull : v.mStorage = none → xs.length = 0 →
      v.grow ty true m index xs.length = some (m, v, .null) → r = some (m, v))
    (hwrite : ∀ m' b' sb', m.Settles v.mStorage m' b' sb' →
      VectorImpl.Fits ty sb' (v.mCount + xs.length) → (∀ k < index, sb'.items k = v.itemAt m k) →
      v.grow ty true m index xs.length =
        some (m', ⟨some b', v.mCount + xs.length⟩, .item b' index) →
      ∃ f, r = some (setItems m' b' f, ⟨some b', v.mCount + xs.length⟩) ∧
        (∀ k, k < index ∨ index + xs.length ≤ k → f k = sb'.items k) ∧
        ∀ k x, xs[k]? = some (some x) → f (index + k) = some x) :
    v.Yields ty m l (insert xs index l) r := by
  have hcount := hholds.count
  obtain ⟨cap, hcap⟩ := hb.exists_capacity
  obtain ⟨hgrowable, hgap⟩ := hcan
  rw [hcap] at hgrowable
  rcases grow_spec hv hb (by omega) hcap hgrowable hgap with
    ⟨hst, hzero, hgrow⟩ | ⟨m', b', sb', hgrow, hsettles, hfits, hitems⟩
  · refine .inl ⟨hnull hst hzero hgrow, ?_⟩
    rw [insert_of_le hindex, length_eq_zero_iff.mp hzero, append_nil,
      take_append_drop]
  · obtain ⟨f, hr, hout, hin⟩ := hwrite m' b' sb' hsettles hfits
      (fun k hk => hitems k (by omega) k (if_pos hk)) hgrow
    have hlen : v.mCount + xs.length = (insert xs index l).length := by
      rw [length_insert hindex, hcount]
    refine .inr ⟨_, b', ⟨sb'.mSize, f⟩, hlen ▸ hr, settles_setItems hsettles f, ?_, ?_⟩
    · rw [← hlen]
      exact ⟨hfits.slots, hfits.size⟩
    · rw [hcount] at hitems
      exact items_insert hholds hindex hitems hout hin

end Insert

end Droid
