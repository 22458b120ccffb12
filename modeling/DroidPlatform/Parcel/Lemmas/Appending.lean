import DroidPlatform.Parcel.Lemmas.Writes

/-!
# The steps of `appendFrom`

First the bytes, then the objects.  The new parcel is to have descriptors of its own, so that in each
descriptor copied the handle is replaced by its duplicate and the cookie says that it is owned
(`dupHandle`).
-/

namespace Droid

open Option

namespace Parcel

/-- What becomes of an object that is copied. -/
def dupHandle (dup : ℕ → ℕ) (m : Memory) (o : ℕ) : Memory :=
  if (m.flat o).type = binderTypeFd then
    m.write (o + 8) (toBytes 4 (dup (m.flat o).binder) ++ toBytes 4 1)
  else m

/-- The table gets more entries; neither the cursor nor the end nor the block changes. -/
structure Enters (p : Parcel) (objects : List ℕ) (q : Parcel) : Prop where
  owner : q.mOwner = p.mOwner
  capacity : q.mDataCapacity = p.mDataCapacity
  null : q.mData = none → p.mData = none
  pos : q.mDataPos = p.mDataPos
  size : q.mDataSize = p.mDataSize
  objects : q.mObjects = p.mObjects ++ objects

variable {p q r : Parcel} {a : Answers} {status st : Status} {dup : ℕ → ℕ} {offset pos o : ℕ}
  {bytes : List UInt8} {objects objects' : List ℕ}

lemma Enters.trans (h : p.Enters objects q) (h' : q.Enters objects' r) :
    p.Enters (objects ++ objects') r where
  owner := h'.owner.trans h.owner
  capacity := h'.capacity.trans h.capacity
  null := h.null ∘ h'.null
  pos := h'.pos.trans h.pos
  size := h'.size.trans h.size
  objects := by rw [h'.objects, h.objects, List.append_assoc]

lemma Enters.refl : p.Enters [] p := ⟨rfl, rfl, id, rfl, rfl, (List.append_nil _).symm⟩

lemma Sane.enters (h : p.Sane) (hdata : p.mData ≠ none) (he : p.Enters objects q) : q.Sane :=
  ⟨he.owner.trans h.owner, he.capacity ▸ h.capacity, fun hnone => absurd (he.null hnone) hdata⟩

/-- The bytes are stored at the cursor, and the cursor and the end move. -/
lemma appendData_eq (hne : bytes ≠ []) (hrun : p.appendData bytes = some q) :
    p.mDataPos + bytes.length ≤ p.mDataCapacity ∧ ∃ m, p.mData = some m ∧ q = { p with
      mData := some (m.write p.mDataPos bytes)
      mDataPos := toUInt32 (p.mDataPos + bytes.length)
      mDataSize := toUInt32 (p.mDataSize + bytes.length) } := by
  obtain ⟨r, hr, rfl⟩ := map_eq_some_iff.mp hrun
  rw [store, if_neg hne] at hr
  split_ifs at hr with hcap
  obtain ⟨m, hm, rfl⟩ := map_eq_some_iff.mp hr
  exact ⟨hcap, m, hm, rfl⟩

/-- One object is entered. -/
lemma appendObject_spec (hrun : appendObject dup (st, p) o = some (status, q)) :
    p.Enters [o] q ∧ q.byte = dupHandle dup p.byte o := by
  simp only [appendObject] at hrun
  split_ifs at hrun with hroom hfd
  · obtain ⟨r, hr, heq⟩ := map_eq_some_iff.mp hrun
    cases heq
    obtain ⟨hreq, -, hnull⟩ := store_eq_some hr
    have hbyte := byte_of_store hr
    refine ⟨⟨?_, ?_, hnull, ?_, ?_, ?_⟩, hbyte.trans (if_pos hfd).symm⟩ <;> rw [hreq]
  · cases hrun
    exact ⟨⟨rfl, rfl, id, rfl, rfl, rfl⟩, (if_neg hfd).symm⟩

lemma foldlM_appendObject_spec (hrun : objects.foldlM (appendObject dup) (st, p) = some (status, q)) :
    p.Enters objects q ∧ q.byte = objects.foldl (dupHandle dup) p.byte := by
  induction objects generalizing p st with
  | nil =>
    cases hrun
    exact ⟨.refl, rfl⟩
  | cons o objects ih =>
    obtain ⟨⟨st', r⟩, hr, hrest⟩ := bind_eq_some_iff.mp hrun
    obtain ⟨hone, hbyte⟩ := appendObject_spec hr
    obtain ⟨hmany, hbytes⟩ := ih hrest
    exact ⟨hone.trans hmany, by rw [hbytes, hbyte, List.foldl_cons]⟩

/-- The objects are entered at their new places, or none of them. -/
lemma appendObjects_spec (hrun : p.appendObjects objects offset pos dup a = some (status, q)) :
    (status ≠ .ok ∧ p.Enters [] q) ∨
      (p.Enters (objects.map fun o => toUInt32 (o + (2 ^ 32 - offset) + pos)) q ∧
        q.byte = (objects.map fun o => toUInt32 (o + (2 ^ 32 - offset) + pos)).foldl
          (dupHandle dup) p.byte) := by
  rw [appendObjects] at hrun
  split_ifs at hrun with hnil
  · cases hrun
    rw [hnil]
    exact Or.inr ⟨.refl, rfl⟩
  · have hroom : ∀ {st r}, p.appendTableRoom objects.length a = (st, r) →
        p.Enters [] r ∧ r.byte = p.byte := by
      intro st r hroom
      rw [appendTableRoom, growObjects] at hroom
      split_ifs at hroom <;> cases hroom
      · exact ⟨⟨rfl, rfl, id, rfl, rfl, (List.append_nil _).symm⟩, rfl⟩
      · exact ⟨.refl, rfl⟩
      · exact ⟨.refl, rfl⟩
    rcases andThen_eq_some hrun with ⟨r, hr, hfold⟩ | ⟨hne, hr⟩
    · obtain ⟨hmany, hbytes⟩ := foldlM_appendObject_spec hfold
      obtain ⟨henters, hbyte⟩ := hroom (some.inj hr)
      exact Or.inr ⟨henters.trans hmany, by rw [hbytes, hbyte]⟩
    · exact Or.inl ⟨hne, (hroom (some.inj hr)).1⟩

end Parcel

end Droid
