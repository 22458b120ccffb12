import DroidPlatform.Parcel.Write

/-!
# What writing leaves alone

A parcel that nobody else owns stays one (`Sane`).  Making room enlarges the block and changes
neither the data nor the object table (`Enlarges`); a plain write keeps the table and does not make
the data smaller (`Extends`).
-/

namespace Droid

open Option

namespace Parcel

/-! ## The block -/

/-- The allocator has memory. -/
def plenty : Answers := ⟨some fun _ => 0, true, true⟩

/-- The block of a parcel that nobody else owns. -/
structure Sane (p : Parcel) : Prop where
  owner : p.mOwner = false
  capacity : p.mDataCapacity < 2 ^ 32
  null : p.mData = none →
    p.mDataSize = 0 ∧ p.mDataCapacity = 0 ∧ p.mDataPos = 0 ∧ p.mObjects = []

/-- The table stays, and the data does not get smaller. -/
structure Extends (p q : Parcel) : Prop where
  objects : q.mObjects = p.mObjects
  size : p.mDataSize ≤ q.mDataSize

variable {p q r : Parcel} {a : Answers} {status : Status} {bytes : List UInt8} {desired n start : ℕ}
  {next : Parcel → Option (Status × Parcel)} {result : Option (Status × Parcel)}
  {val : FlatBinderObject} {nullMetaData : Bool}

lemma Extends.refl : p.Extends p := ⟨rfl, le_rfl⟩

lemma Extends.trans (h : p.Extends q) (h' : q.Extends r) : p.Extends r :=
  ⟨h'.objects.trans h.objects, h.size.trans h'.size⟩

lemma grownSize_lt (len : ℕ) : p.grownSize len < 2 ^ 32 := by
  have := toUInt32_lt (toUInt32 (p.mDataSize + len) * 3)
  rw [grownSize]
  omega

/-- Making the block larger changes neither the data nor the table, and the cursor only if it was
past the data. -/
structure Enlarges (p q : Parcel) : Prop where
  sane : q.Sane
  objects : q.mObjects = p.mObjects
  size : q.mDataSize = p.mDataSize
  allowFds : q.mAllowFds = p.mAllowFds
  pos : p.mDataPos ≤ p.mDataSize → q.mDataPos = p.mDataPos
  past : p.mDataSize < p.mDataPos → p.mDataSize < q.mDataPos

lemma Enlarges.refl (h : p.Sane) : p.Enlarges p := ⟨h, rfl, rfl, rfl, fun _ => rfl, id⟩

lemma Enlarges.extends (h : p.Enlarges q) : p.Extends q := ⟨h.objects, h.size.ge⟩

lemma dropObjects_self : p.dropObjects p.mObjects a = p := by
  rw [dropObjects, if_neg (lt_irrefl _)]

/-- The branches of `continueWrite`, for a parcel that nobody else owns: no memory, a first block, a
larger block, or a block that is large enough. -/
lemma continueWrite_cases (howner : p.mOwner = false) (hnull : p.mData = none → p.mObjects = [])
    (hrun : p.continueWrite desired a = (status, q)) :
    (status = .noMemory ∧
      q = { p.dropObjects (p.keptObjects desired) a with mError := .noMemory }) ∨
    (status = .ok ∧ p.mData = none ∧ ∃ fresh, q = { p.dropObjects (p.keptObjects desired) a with
      mData := some fresh, mDataSize := 0, mDataPos := 0, mDataCapacity := desired }) ∨
    (status = .ok ∧ p.mDataCapacity < desired ∧ ∃ m, q = { p.dropObjects (p.keptObjects desired) a
      with mData := some m, mDataCapacity := desired }) ∨
    (status = .ok ∧ desired ≤ p.mDataCapacity ∧ p.mData ≠ none ∧
      q = { p.dropObjects (p.keptObjects desired) a with
        mDataSize := min p.mDataSize desired, mDataPos := min p.mDataPos desired }) := by
  rw [continueWrite, if_neg (by simp [howner])] at hrun
  cases hdata : p.mData with
  | none =>
    have hdrop : p.dropObjects (p.keptObjects desired) a = p := by
      rw [dropObjects, if_neg (by simp [hnull hdata])]
    rw [hdrop]
    cases hfresh : a.data with
    | none =>
      simp only [hdata, hfresh] at hrun
      cases hrun
      exact Or.inl ⟨rfl, by simp only [hdata]⟩
    | some fresh =>
      simp only [hdata, hfresh] at hrun
      cases hrun
      exact Or.inr (Or.inl ⟨rfl, rfl, fresh, rfl⟩)
  | some m =>
    simp only [hdata] at hrun
    split_ifs at hrun with hgrow
    · cases hfresh : a.data with
      | none =>
        rw [hfresh] at hrun
        cases hrun
        exact Or.inl ⟨rfl, rfl⟩
      | some fresh =>
        rw [hfresh] at hrun
        cases hrun
        exact Or.inr (Or.inr (Or.inl ⟨rfl, hgrow, _, rfl⟩))
    · cases hrun
      exact Or.inr (Or.inr (Or.inr ⟨rfl, not_lt.mp hgrow, by simp, rfl⟩))

lemma Sane.objects_nil (h : p.Sane) (hnone : p.mData = none) : p.mObjects = [] :=
  (h.null hnone).2.2.2

lemma Sane.continueWrite (h : p.Sane) (hlt : p.mDataSize < desired) (hdesired : desired < 2 ^ 32)
    (hrun : p.continueWrite desired a = (status, q)) : p.Enlarges q := by
  have hkept : p.dropObjects (p.keptObjects desired) a = p := by
    rw [keptObjects, if_neg (by omega), dropObjects_self]
  have hcases := continueWrite_cases h.owner h.objects_nil hrun
  rw [hkept] at hcases
  rcases hcases with ⟨-, rfl⟩ | ⟨-, hnone, fresh, rfl⟩ | ⟨-, -, m, rfl⟩ | ⟨-, -, hdata, rfl⟩
  · exact ⟨⟨h.owner, h.capacity, h.null⟩, rfl, rfl, rfl, fun _ => rfl, id⟩
  · obtain ⟨hsize, _, hpos, _⟩ := h.null hnone
    refine ⟨⟨h.owner, hdesired, fun hnone => by simp at hnone⟩, rfl, hsize.symm, rfl,
      fun _ => hpos.symm, ?_⟩
    omega
  · exact ⟨⟨h.owner, hdesired, fun hnone => by simp at hnone⟩, rfl, rfl, rfl, fun _ => rfl, id⟩
  · refine ⟨⟨h.owner, h.capacity, fun hnone => absurd hnone hdata⟩, rfl, min_eq_left hlt.le, rfl,
      ?_, ?_⟩
    · intro hpos
      exact min_eq_left (hpos.trans hlt.le)
    · intro hpast
      exact lt_min hpast hlt

lemma Sane.growData (h : p.Sane) {len : ℕ} (hrun : p.growData len a = (status, q)) :
    p.Enlarges q := by
  rw [Parcel.growData] at hrun
  split_ifs at hrun with hle
  · cases hrun
    exact .refl h
  · exact h.continueWrite (not_le.mp hle) (grownSize_lt len) hrun

lemma Sane.makeRoom (h : p.Sane) {len : ℕ} (hrun : p.makeRoom len a = (status, q)) :
    p.Enlarges q := by
  rw [Parcel.makeRoom] at hrun
  split_ifs at hrun
  · cases hrun
    exact .refl h
  · exact h.growData hrun

lemma dropObjects_mData (kept : List ℕ) : (p.dropObjects kept a).mData = p.mData := by
  rw [dropObjects]
  split_ifs <;> rfl

lemma dropObjects_mDataCapacity (kept : List ℕ) :
    (p.dropObjects kept a).mDataCapacity = p.mDataCapacity := by
  rw [dropObjects]
  split_ifs <;> rfl

/-- A block that `continueWrite` was content with is there. -/
lemma mData_of_continueWrite (howner : p.mOwner = false) (hnull : p.mData = none → p.mObjects = [])
    (hrun : p.continueWrite desired a = (.ok, q)) : q.mData ≠ none := by
  rcases continueWrite_cases howner hnull hrun with
    ⟨hok, -⟩ | ⟨-, -, fresh, rfl⟩ | ⟨-, -, m, rfl⟩ | ⟨-, -, hdata, rfl⟩
  · cases hok
  · simp
  · simp
  · show (p.dropObjects _ a).mData ≠ none
    rwa [dropObjects_mData]

/-- It is not larger than asked for. -/
lemma Sane.capacity_of_continueWrite (h : p.Sane) (hrun : p.continueWrite desired a = (.ok, q)) :
    q.mDataCapacity ≤ max p.mDataCapacity desired := by
  rcases continueWrite_cases h.owner h.objects_nil hrun with
    ⟨hok, -⟩ | ⟨-, -, fresh, rfl⟩ | ⟨-, -, m, rfl⟩ | ⟨-, -, -, rfl⟩
  · cases hok
  · exact le_max_right _ _
  · exact le_max_right _ _
  · exact (dropObjects_mDataCapacity _).le.trans (le_max_left _ _)

/-- Without a block, room is found for nothing but a wrap to the beginning. -/
lemma makeRoom_null (howner : p.mOwner = false)
    (hnull : p.mData = none → p.mDataCapacity = 0 ∧ p.mObjects = [])
    (hrun : p.makeRoom n a = (.ok, q)) (hnone : q.mData = none) :
    toUInt32 (q.mDataPos + n) = 0 := by
  rw [makeRoom] at hrun
  split_ifs at hrun with hfits
  · cases hrun
    rw [(hnull hnone).1] at hfits
    exact Nat.le_zero.mp hfits
  · rw [growData] at hrun
    split_ifs at hrun
    · cases hrun
    · exact absurd hnone (mData_of_continueWrite howner (fun h => (hnull h).2) hrun)

lemma Sane.makeRoom_null (h : p.Sane) (hrun : p.makeRoom n a = (.ok, q))
    (hnone : q.mData = none) : toUInt32 (q.mDataPos + n) = 0 :=
  Parcel.makeRoom_null h.owner (fun hnone => ⟨(h.null hnone).2.1, h.objects_nil hnone⟩) hrun hnone

/-! ## Plain writes -/

/-- A store changes bytes and nothing else. -/
lemma store_eq_some (hrun : p.store start bytes = some q) :
    q = { p with mData := q.mData } ∧ (bytes ≠ [] → q.mData ≠ none ∧ p.mData ≠ none ∧
      start + bytes.length ≤ p.mDataCapacity) ∧ (q.mData = none → p.mData = none) := by
  rw [store] at hrun
  split_ifs at hrun with hnil hcap
  · cases hrun
    exact ⟨rfl, fun hne => absurd hnil hne, id⟩
  · obtain ⟨m, hm, rfl⟩ := map_eq_some_iff.mp hrun
    refine ⟨rfl, fun _ => ⟨by simp, by simp [hm], hcap⟩, fun hnone => by simp at hnone⟩

lemma byte_of_store (hrun : p.store start bytes = some q) :
    q.byte = Memory.write p.byte start bytes := by
  rw [store] at hrun
  split_ifs at hrun with hnil
  · cases hrun
    rw [hnil, Memory.write_nil]
  · obtain ⟨m, hm, rfl⟩ := map_eq_some_iff.mp hrun
    have hp : p.byte = m := by
      funext i
      simp [byte, hm]
    rw [hp]
    rfl

lemma Sane.store (h : p.Sane) (hrun : p.store start bytes = some q) : q.Sane ∧ p.Extends q := by
  obtain ⟨hq, _, hnull⟩ := store_eq_some hrun
  rw [hq]
  exact ⟨⟨h.owner, h.capacity, fun hnone => h.null (hnull (by simpa using hnone))⟩, rfl, le_rfl⟩

lemma andThen_eq_some (hrun : andThen result next = some (status, q)) :
    (∃ r, result = some (.ok, r) ∧ next r = some (status, q)) ∨
      (status ≠ .ok ∧ result = some (status, q)) := by
  obtain ⟨⟨st, r⟩, hr, hnext⟩ := bind_eq_some_iff.mp hrun
  simp only at hnext
  split_ifs at hnext with hok
  · exact Or.inl ⟨r, by rw [hr, hok], hnext⟩
  · cases hnext
    exact Or.inr ⟨hok, hr⟩

/-- No error on the way. -/
lemma andThen_eq_ok (hrun : andThen result next = some (.ok, q)) :
    ∃ r, result = some (.ok, r) ∧ next r = some (.ok, q) :=
  (andThen_eq_some hrun).resolve_right fun h => h.1 rfl

/-- What a write does once it has room for `n` bytes: it stores, and moves the cursor and the end. -/
structure Stored (n : ℕ) (q r : Parcel) : Prop where
  owner : r.mOwner = q.mOwner
  capacity : r.mDataCapacity = q.mDataCapacity
  objects : r.mObjects = q.mObjects
  null : r.mData = none → q.mData = none
  pos : r.mDataPos = toUInt32 (q.mDataPos + n)
  size : r.mDataSize = max q.mDataSize (toUInt32 (q.mDataPos + n))

lemma Stored.finishWrite (n : ℕ) : Stored n p (p.finishWrite n) := ⟨rfl, rfl, rfl, id, rfl, rfl⟩

lemma Sane.stored (h : p.Sane) (hs : Stored n p q)
    (hnull : p.mData = none → toUInt32 (p.mDataPos + n) = 0) : q.Sane ∧ p.Extends q := by
  refine ⟨⟨hs.owner.trans h.owner, hs.capacity ▸ h.capacity, fun hnone => ?_⟩, hs.objects,
    hs.size ▸ le_max_left _ _⟩
  obtain ⟨hsize, hcap, -, hobjects⟩ := h.null (hs.null hnone)
  have hzero := hnull (hs.null hnone)
  refine ⟨?_, hs.capacity.trans hcap, hs.pos.trans hzero, hs.objects.trans hobjects⟩
  rw [hs.size, hsize, hzero, max_self]

/-- What `writeObject` does from the label `restart_write` on: the object is stored at the cursor and
entered in the table, and then the cursor and the end move, unless it is a descriptor that is not
allowed. -/
structure Put (p : Parcel) (val : FlatBinderObject) (nullMetaData : Bool) (status : Status)
    (q : Parcel) : Prop where
  owner : q.mOwner = p.mOwner
  capacity : q.mDataCapacity = p.mDataCapacity
  data : q.mData ≠ none
  inside : p.mDataPos + flatBinderObjectSize ≤ p.mDataCapacity
  objects : q.mObjects = p.mObjects ++ if nullMetaData ∨ val.binder ≠ 0 then [p.mDataPos] else []
  holds : Memory.Holds q.byte p.mDataPos val.bytes
  moved : (status = .ok ∧ q.mDataPos = toUInt32 (p.mDataPos + flatBinderObjectSize) ∧
      q.mDataSize = max p.mDataSize (toUInt32 (p.mDataPos + flatBinderObjectSize))) ∨
    (status = .fdsNotAllowed ∧ val.type = binderTypeFd ∧ p.mAllowFds = false ∧
      q.mDataPos = p.mDataPos ∧ q.mDataSize = p.mDataSize)

lemma putObject_spec (hrun : p.putObject val nullMetaData = some (status, q)) :
    p.Put val nullMetaData status q := by
  obtain ⟨r, hr, hput⟩ := bind_eq_some_iff.mp hrun
  obtain ⟨hreq, hstore, -⟩ := store_eq_some hr
  obtain ⟨hdata, -, hcap⟩ := hstore (by rw [← List.length_pos_iff_ne_nil, val.length_bytes]; decide)
  have hholds : Memory.Holds r.byte p.mDataPos val.bytes := by
    rw [byte_of_store hr]
    exact Memory.holds_write
  -- whether or not the object is entered
  have hfinish : ∀ objects, r.mObjects ++ objects = p.mObjects ++ (if nullMetaData ∨ val.binder ≠ 0
      then [p.mDataPos] else []) → finishObject { r with mObjects := r.mObjects ++ objects } val =
        (status, q) → p.Put val nullMetaData status q := by
    rw [hreq] at hdata hholds ⊢
    intro objects hobjects hfinish
    rw [finishObject] at hfinish
    split_ifs at hfinish with hfd hallow <;> cases hfinish
    · exact ⟨rfl, rfl, hdata, hcap, hobjects, hholds, Or.inl ⟨rfl, rfl, rfl⟩⟩
    · exact ⟨rfl, rfl, hdata, hcap, hobjects, hholds,
        Or.inr ⟨rfl, hfd, by simpa using hallow, rfl, rfl⟩⟩
    · exact ⟨rfl, rfl, hdata, hcap, hobjects, hholds, Or.inl ⟨rfl, rfl, rfl⟩⟩
  split_ifs at hput with hentered
  · refine hfinish [r.mDataPos] ?_ (some.inj hput)
    rw [if_pos hentered, hreq]
  · refine hfinish [] ?_ ?_
    · rw [if_neg hentered, hreq]
    · rw [List.append_nil]
      exact some.inj hput

/-- The form of `writeObject`: the block cannot grow, the table cannot, or the object is put at the
cursor. -/
inductive ObjectWrote (p : Parcel) (val : FlatBinderObject) (nullMetaData : Bool) (a : Answers) :
    Status → Parcel → Prop
  | noBlock {status : Status} {q : Parcel} (hroom : p.makeRoom flatBinderObjectSize a = (status, q))
      (hne : status ≠ .ok) : ObjectWrote p val nullMetaData a status q
  | noTable {q : Parcel} (hroom : p.makeRoom flatBinderObjectSize a = (.ok, q))
      (hfull : p.mObjectsCapacity ≤ p.mObjects.length) (hno : a.table = false) :
      ObjectWrote p val nullMetaData a .noMemory q
  | put {status : Status} {q r : Parcel} (hroom : p.makeRoom flatBinderObjectSize a = (.ok, q))
      (hyes : ¬ (p.mObjectsCapacity ≤ p.mObjects.length ∧ a.table = false))
      (hput : q.Put val nullMetaData status r) : ObjectWrote p val nullMetaData a status r

lemma writeObject_wrote (hrun : p.writeObject val nullMetaData a = some (status, q)) :
    ObjectWrote p val nullMetaData a status q := by
  rw [writeObject] at hrun
  rcases andThen_eq_some hrun with ⟨r, hroom, hrun⟩ | ⟨hne, hroom⟩
  · have hroom := some.inj hroom
    rcases andThen_eq_some hrun with ⟨r', htable, hput⟩ | ⟨hne, htable⟩
    · have hput := putObject_spec hput
      rw [growObjects] at htable
      split_ifs at htable with henough htab <;> cases htable
      · exact .put hroom (fun h => absurd henough (not_lt.mpr h.1)) hput
      · exact .put hroom (fun h => by simp [htab] at h)
          ⟨hput.owner, hput.capacity, hput.data, hput.inside, hput.objects, hput.holds, hput.moved⟩
    · rw [growObjects] at htable
      split_ifs at htable with henough htab <;> cases htable
      · exact absurd rfl hne
      · exact absurd rfl hne
      · exact .noTable hroom (not_lt.mp henough) (by simpa using htab)
  · exact .noBlock (some.inj hroom) hne

end Parcel

end Droid
