import DroidPlatform.Parcel.Read

/-!
# What reading leaves alone

Reading moves the cursor and the hint into the object table and nothing else: `Reads`, and one lemma
for each reader.
-/

namespace Droid

namespace Parcel

/-- `q` differs from `p` in the cursor and the hint only. -/
def Reads (p q : Parcel) : Prop :=
  ∃ pos hint, q = { p with mDataPos := pos, mNextObjectHint := hint }

variable {p q r : Parcel}

lemma Reads.refl : p.Reads p := ⟨p.mDataPos, p.mNextObjectHint, rfl⟩

lemma Reads.trans (h : p.Reads q) (h' : q.Reads r) : p.Reads r := by
  obtain ⟨_, _, rfl⟩ := h
  obtain ⟨pos, hint, rfl⟩ := h'
  exact ⟨pos, hint, rfl⟩

lemma Reads.mDataSize (h : p.Reads q) : q.mDataSize = p.mDataSize := by
  obtain ⟨_, _, rfl⟩ := h
  rfl

lemma reads_skip (n : ℕ) : p.Reads (p.skip n) := ⟨_, p.mNextObjectHint, rfl⟩

lemma reads_readAligned (w : ℕ) : p.Reads (p.readAligned w).2 := by
  rw [readAligned]
  split_ifs
  · exact reads_skip _
  · exact .refl

lemma reads_readInt32? : p.Reads p.readInt32?.2 := reads_readAligned 4

lemma reads_readInt32 : p.Reads p.readInt32.2 := reads_readAligned 4

lemma reads_readObject (nullMetaData : Bool) : p.Reads (p.readObject nullMetaData).2 := by
  simp only [readObject]
  split_ifs
  · exact reads_skip _
  · split
    · exact (reads_skip _).trans ⟨_, _, rfl⟩
    · exact reads_skip _
  · exact .refl

lemma reads_readFileDescriptor : p.Reads p.readFileDescriptor.2 := by
  simp only [readFileDescriptor]
  split <;> exact reads_readObject true

lemma reads_readDupFileDescriptors (dup : ℤ → ℤ) (n : ℕ) (p : Parcel) :
    p.Reads (readDupFileDescriptors dup n p).2.2 := by
  induction n generalizing p with
  | zero => exact .refl
  | succ n ih =>
    simp only [readDupFileDescriptors]
    split_ifs
    · exact reads_readFileDescriptor
    · exact reads_readFileDescriptor.trans (ih _)

end Parcel

end Droid
