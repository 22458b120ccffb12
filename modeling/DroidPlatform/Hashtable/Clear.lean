import DroidPlatform.Hashtable.EntryMultiset

/-!
# `clear`

A table that owns its bucket array alone keeps the array when it is cleared: the entries are
destroyed, and then the cookies are reset, but only those of the first `mSize` buckets.  An entry
lives where its hash puts it, so that a bucket behind those may still say that it is present.  Nobody
looks while `mSize` is 0; with the next entry that is added the old ones are back.
-/

namespace Droid

open List UInt32

namespace BasicHashtable

variable {E K : Type} {key : E → K} {hash : K → UInt32} {fl : Rounding} {t : BasicHashtable E}
  {shared trivialDestructor : Bool}

/-- `destroyBuckets` -/
def destroyBuckets (trivialDestructor : Bool) (bs : List (Bucket E)) : List (Bucket E) :=
  if trivialDestructor then bs
  else bs.map fun b => if b.present then { b with entry := none } else b

/-- `void clear()` -/
def clear (t : BasicHashtable E) (trivialDestructor shared : Bool) : BasicHashtable E :=
  match t.mBuckets with
  | none => t
  | some bs =>
    if t.mFilledBuckets ≠ 0 then
      { t with
        mBuckets := if shared then none
          else some ((destroyBuckets trivialDestructor bs).mapIdx fun i b =>
            if i < t.mSize then .clear else b)
        mFilledBuckets := 0
        mSize := 0 }
    else { t with mSize := 0 }

/-- The array is left to another table, or no bucket behind the first `mSize` is filled. -/
def ClearsAll (t : BasicHashtable E) (shared : Bool) : Prop :=
  shared = true ∨ ∀ bs ∈ t.mBuckets, ∀ b ∈ bs.drop t.mSize, b.filled = false

/-- A bucket array in which nothing is filled. -/
lemma describes_of_unfilled {bs : List (Bucket E)} (hlen : bs.length = t.mBucketCount)
    (hsize : t.mSize = 0) (hfilled : t.mFilledBuckets = 0) (h : ∀ b ∈ bs, b.filled = false) :
    Describes key hash t bs ∧ bs.filterMap Bucket.live = [] := by
  have hp : ∀ b ∈ bs, b.present = false := by
    intro b hb
    have := h b hb
    simp only [Bucket.filled, Bool.or_eq_false_iff] at this
    exact this.1
  refine ⟨⟨hlen, ⟨?_, ?_⟩, ?_, ?_⟩, ?_⟩
  · intro b hb hpresent
    simp [hp b hb] at hpresent
  · intro i b hb hpresent
    simp [hp b (mem_of_getElem? hb)] at hpresent
  · rw [hsize, eq_comm, livesIn, countP_eq_zero]
    intro b hb
    simp [hp b hb]
  · rw [hfilled, eq_comm, filledIn, countP_eq_zero]
    intro b hb
    simp [h b hb]
  · refine filterMap_eq_nil_iff.mpr fun b hb => ?_
    simp [Bucket.live, hp b hb]

lemma length_destroyBuckets (bs : List (Bucket E)) :
    (destroyBuckets trivialDestructor bs).length = bs.length := by
  rw [destroyBuckets]
  split_ifs
  · rfl
  · exact length_map _

/-- Destroying entries changes no cookie. -/
lemma filled_of_destroyBuckets {bs : List (Bucket E)} {i : ℕ} {b : Bucket E}
    (h : (destroyBuckets trivialDestructor bs)[i]? = some b) :
    ∃ b0, bs[i]? = some b0 ∧ b.filled = b0.filled := by
  rw [destroyBuckets] at h
  split_ifs at h
  · exact ⟨b, h, rfl⟩
  · rw [getElem?_map] at h
    obtain ⟨b0, hb0, rfl⟩ := Option.map_eq_some_iff.mp h
    refine ⟨b0, hb0, ?_⟩
    split_ifs <;> rfl

/-- What is cleared completely is as good as new. -/
lemma clear_sound (h : Sound key hash t) (hall : t.ClearsAll shared) :
    Sound key hash (t.clear trivialDestructor shared) ∧
      (t.clear trivialDestructor shared).entries = [] := by
  have hpos := (Nat.zero_le t.mFilledBuckets).trans_lt h.filled_lt
  cases hbs : t.mBuckets with
  | none =>
    rw [clear, hbs]
    exact ⟨h, by simp [entries, hbs]⟩
  | some bs =>
    have hd := h.array bs hbs
    rw [clear, hbs]
    dsimp only
    split_ifs with hfilled hshared
    · exact ⟨⟨⟨h.count, fun _ => ⟨rfl, rfl⟩, by simp⟩, h.capacity_pos, h.capacity_lt, Nat.zero_le _,
        hpos⟩, rfl⟩
    · have hunfilled := hall.resolve_left hshared bs hbs
      generalize hbs' : (destroyBuckets trivialDestructor bs).mapIdx _ = bs'
      obtain ⟨hdescribes, hlive⟩ : Describes key hash
          { t with mBuckets := some bs', mFilledBuckets := 0, mSize := 0 } bs' ∧
          bs'.filterMap Bucket.live = [] := by
        refine describes_of_unfilled ?_ rfl rfl fun b hb => ?_
        · rw [← hbs', length_mapIdx, length_destroyBuckets]
          exact hd.length
        · obtain ⟨i, hi⟩ := mem_iff_getElem?.mp hb
          rw [← hbs', getElem?_mapIdx] at hi
          obtain ⟨b', hb', rfl⟩ := Option.map_eq_some_iff.mp hi
          split_ifs with hlt
          · rfl
          · obtain ⟨b0, hb0, hfilled⟩ := filled_of_destroyBuckets hb'
            rw [hfilled]
            refine hunfilled b0 (mem_iff_getElem?.mpr ⟨i - t.mSize, ?_⟩)
            rwa [getElem?_drop, Nat.add_sub_cancel' (not_lt.mp hlt)]
      exact ⟨⟨.of_array h.count rfl hdescribes, h.capacity_pos, h.capacity_lt, Nat.zero_le _, hpos⟩,
        hlive⟩
    · -- nothing is filled, and nothing changes
      have hsize : t.mSize = 0 := by
        have := h.toConsistent.size_le
        omega
      rw [← hbs, ← hsize]
      refine ⟨h, ?_⟩
      have hlen := length_entries h.toConsistent
      exact length_eq_zero_iff.mp (hlen.trans hsize)

/-! ## Runs -/

section Runs

variable [DecidableEq E]

/-- A call of a run, or a `clear`, with whether there is nothing to destroy and whether the array is
shared. -/
inductive ClearStep (key : E → K) (hash : K → UInt32) (fl : Rounding) :
    TableState E → TableCall E ⊕ Bool × Bool → TableState E → Prop
  | call {s call s'} (h : Step key hash fl s call s') : ClearStep key hash fl s (.inl call) s'
  | clear {s trivialDestructor shared} : ClearStep key hash fl s (.inr (trivialDestructor, shared))
      ⟨s.table.clear trivialDestructor shared, 0⟩

/-- Every `rehash` is roomy, and every `clear` complete. -/
def Complete (fl : Rounding) (t : BasicHashtable E) : TableCall E ⊕ Bool × Bool → Prop
  | .inl call => Roomy fl t call
  | .inr (_, shared) => t.ClearsAll shared

/-- A step whose call is complete. -/
def CompleteStep (key : E → K) (hash : K → UInt32) (fl : Rounding) (s : TableState E)
    (call : TableCall E ⊕ Bool × Bool) (s' : TableState E) : Prop :=
  ClearStep key hash fl s call s' ∧ Complete fl s.table call

/-- **A table that is cleared completely is empty.**  In every run whose calls are all complete, the
table behaves like the multiset of the entries that were added since the last `clear`. -/
theorem cleared_isMultiset [DecidableEq K] {bucketSize minimum : ℕ} {lf : ℚ}
    {calls : List (TableCall E ⊕ Bool × Bool)} {s : TableState E}
    (hnew : construct fl bucketSize minimum lf = .ok t)
    (hrun : Runs (CompleteStep key hash fl) ⟨t, 0⟩ calls s) : IsMultiset key hash s := by
  have h : Tracks key hash s := by
    refine hrun.invariant (.construct hnew) fun h hstep => ?_
    obtain ⟨hstep, hcomplete⟩ := hstep
    cases hstep with
    | call hcall => exact (h.step ⟨hcall, hcomplete⟩).1
    | clear =>
      obtain ⟨hsound, hentries⟩ := clear_sound h.sound hcomplete
      exact ⟨hsound, by rw [hentries]; rfl⟩
  exact h.isMultiset

end Runs

/-- A new table of five buckets. -/
def newFive : BasicHashtable ℕ := ⟨8, 3, 3 / 4, 0, 0, 5, none⟩

/-- The table in which the buckets at some indices hold the index itself. -/
def fiveBuckets (is : List ℕ) (size : ℕ) : BasicHashtable ℕ :=
  { newFive with
    mSize := size
    mFilledBuckets := size
    mBuckets := some ((List.range 5).map fun i =>
      if i ∈ is then ⟨true, false, UInt32.ofNat i, some i⟩ else .clear) }

lemma number_step {t t' : BasicHashtable ℕ} {live : Multiset ℕ} {e i : ℕ}
    (h : t.add .single false (ofNat e) e = .ok (t', i)) :
    ClearStep id ofNat .single ⟨t, live⟩ (.inl (.add false e)) ⟨t', e ::ₘ live⟩ :=
  .call (.add h)

/-- A number in the first bucket is cleared away; then another one is added. -/
theorem cleared_isMultiset_first : ∃ calls s, construct .single 8 0 (3 / 4) = .ok newFive ∧
    Runs (CompleteStep id UInt32.ofNat .single) ⟨newFive, 0⟩ calls s ∧ s.live = {3} ∧
    IsMultiset id UInt32.ofNat s := by
  have hnew : construct .single 8 0 (3 / 4) = .ok newFive := by
    have hdet : determineCapacity .single 0 (3 / 4) = .ok (5, 3) := by decide +kernel
    rw [construct, hdet]
    rfl
  have hadd : newFive.add .single false (ofNat 0) 0 = .ok (fiveBuckets [0] 1, 0) := rfl
  have hcomplete : (fiveBuckets [0] 1).ClearsAll false := by
    refine Or.inr fun bs hbs => ?_
    cases hbs
    decide
  have hadd' : ((fiveBuckets [0] 1).clear true false).add .single false (ofNat 3) 3 =
      .ok (fiveBuckets [3] 1, 3) := rfl
  have hrun : Runs (CompleteStep id ofNat .single) ⟨newFive, 0⟩ _ ⟨fiveBuckets [3] 1, {3}⟩ :=
    .snoc (.snoc (.snoc .nil ⟨number_step hadd, trivial⟩) ⟨.clear, hcomplete⟩)
      ⟨number_step hadd', trivial⟩
  exact ⟨_, _, hnew, hrun, rfl, cleared_isMultiset hnew hrun⟩

/-- A number in another bucket comes back with the next one. -/
theorem cleared_entry_back : ∃ calls s,
    Runs (ClearStep id UInt32.ofNat .single) ⟨newFive, 0⟩ calls s ∧ s.live = {0} ∧
    s.table.find id (-1) (UInt32.ofNat 3) 3 = .ok 3 ∧ s.table.next 0 = .ok 3 ∧
    ¬ IsMultiset id UInt32.ofNat s := by
  have hadd : newFive.add .single false (ofNat 3) 3 = .ok (fiveBuckets [3] 1, 3) := rfl
  have hadd' : ((fiveBuckets [3] 1).clear true false).add .single false (ofNat 0) 0 =
      .ok (fiveBuckets [0, 3] 1, 0) := rfl
  have hrun : Runs (ClearStep id ofNat .single) ⟨newFive, 0⟩ _
      ⟨fiveBuckets [0, 3] 1, {0}⟩ :=
    .snoc (.snoc (.snoc .nil (number_step hadd)) .clear) (number_step hadd')
  refine ⟨_, _, hrun, rfl, rfl, rfl, fun h => ?_⟩
  have hentries : (fiveBuckets [0, 3] 1).entries = [0, 3] := by decide
  have := h.entries
  exact absurd this (by decide)

end BasicHashtable

end Droid
