import DroidPlatform.Parcel.Lemmas.Append
import DroidPlatform.Parcel.Read

/-!
# Sequences of values in a parcel

Plain values are written into an empty parcel one after the other, the cursor is set back to the
start, and the values are read in the same order.  An `Item` is a value together with the way it is
written; its `Kind` is what a reader has to know, the type and, for raw bytes and blobs, the length.
`RoundTrips` says that everything comes back.

The bytes an item becomes are its `pieces`, one for each time room is made for it.  `Growable` is a
condition on the sizes of pieces only: none of them makes `growData` compute a size that wraps.
-/

namespace Droid

namespace Parcel

/-! ## Items -/

/-- A value to be written.  The string of `writeString16` may be `NULL`. -/
inductive Item
  | int32 (val : ℤ)
  | int64 (val : ℤ)
  | cString (str : List UInt8)
  | string8 (str : List UInt8)
  | string16 (str : Option (List UInt16))
  | bytes (data : List UInt8)
  | blob (data : List UInt8)
deriving DecidableEq

/-- What to read. -/
inductive Kind
  | int32
  | int64
  | cString
  | string8
  | string16
  | bytes (len : ℕ)
  | blob (len : ℕ)

namespace Item

def kind : Item → Kind
  | int32 _ => .int32
  | int64 _ => .int64
  | cString _ => .cString
  | string8 _ => .string8
  | string16 _ => .string16
  | bytes data => .bytes data.length
  | blob data => .blob data.length

/-- The values of the C++ types, a C string ending at its first `NUL`, and a blob that is written in
place. -/
def Valid (allow : Bool) : Item → Prop
  | int32 val => IsInt32 val
  | int64 val => -2 ^ 63 ≤ val ∧ val < 2 ^ 63
  | cString str => 0 ∉ str
  | blob data => allow = false ∨ data.length ≤ inPlaceBlobLimit
  | string8 _ | string16 _ | bytes _ => True

instance (allow : Bool) (item : Item) : Decidable (item.Valid allow) :=
  match item with
  | int32 val => inferInstanceAs (Decidable (IsInt32 val))
  | int64 _ => inferInstanceAs (Decidable (_ ∧ _))
  | cString str => inferInstanceAs (Decidable (0 ∉ str))
  | blob _ => inferInstanceAs (Decidable (_ ∨ _))
  | string8 _ | string16 _ | bytes _ => isTrue trivial

/-- The bytes of an item, by the writes they are written with. -/
def pieces : Item → List (List UInt8)
  | int32 val => [intBytes 4 val]
  | int64 val => [intBytes 8 val]
  | cString str => [padded (str ++ [0])]
  | string8 str => intBytes 4 str.length :: if str = [] then [] else [padded (str ++ [0])]
  | string16 none => [intBytes 4 (-1)]
  | string16 (some str) => [intBytes 4 str.length, padded (unitBytes str ++ [0, 0])]
  | bytes data => [padded data]
  | blob data => [intBytes 4 0, padded data]

/-- An item is written; the caller of `writeBlob` stores the data through the pointer it gets. -/
def write (ashmem : Except Status ℤ) (p : Parcel) (a : ℕ → Answers) :
    Item → Option (Status × Parcel)
  | int32 val => p.writeInt32 val (a 0)
  | int64 val => p.writeInt64 val (a 0)
  | cString str => p.writeCString str (a 0)
  | string8 str => p.writeString8 str a
  | string16 str => p.writeString16 str a
  | bytes data => p.write data (a 0)
  | blob data =>
    (p.writeBlob data.length ashmem a).bind fun (result, q) =>
      match result with
      | .ok (.inPlace ptr) => (q.store ptr data).map fun q => (.ok, q)
      | .ok (.mapped _) => some (.ok, q)
      | .error status => some (status, q)

end Item

/-- The string `readCString` returns a pointer to. -/
def cStringAt (p : Parcel) (ptr : ℕ) : List UInt8 :=
  p.load ptr ((p.findNul (toUInt32 (p.mDataSize + (2 ^ 32 - p.mDataPos)))).getD 0)

/-- A value is read; `none` if there is none. -/
def Kind.read (mmap : ℤ → Bool) (p : Parcel) : Kind → Option Item × Parcel
  | int32 => (some (.int32 p.readInt32.1), p.readInt32.2)
  | int64 => (some (.int64 p.readInt64.1), p.readInt64.2)
  | cString => (p.readCString.1.map fun ptr => .cString (p.cStringAt ptr), p.readCString.2)
  | string8 => (some (.string8 p.readString8.1), p.readString8.2)
  | string16 =>
    let (ptr, len, q) := p.readString16Inplace
    (some (.string16 (ptr.map fun ptr => bytesUnits (p.load ptr (2 * len)))), q)
  | bytes len => ((p.read len).1.map .bytes, (p.read len).2)
  | blob len =>
    match p.readBlob len mmap with
    | (.ok (.inPlace ptr), q) => (some (.blob (p.load ptr len)), q)
    | (.ok (.mapped _), q) => (none, q)
    | (.error _, q) => (none, q)

/-- Items are written one after the other.  Each write is recorded with its status and the cursor it
leaves. -/
def writeAll (ashmem : Except Status ℤ) :
    List Item → (ℕ → ℕ → Answers) → Parcel → Option (List (Status × ℕ) × Parcel)
  | [], _, p => some ([], p)
  | item :: items, a, p =>
    (item.write ashmem p (a 0)).bind fun (status, q) =>
      (writeAll ashmem items (fun k => a (k + 1)) q).map fun (written, r) =>
        ((status, q.mDataPos) :: written, r)

/-- Values are read one after the other.  Each read is recorded with the value and the cursor it
leaves. -/
def readAll (mmap : ℤ → Bool) : List Kind → Parcel → List (Option Item × ℕ)
  | [], _ => []
  | kind :: kinds, p =>
    ((kind.read mmap p).1, (kind.read mmap p).2.mDataPos) :: readAll mmap kinds (kind.read mmap p).2

/-- The writes into an empty parcel succeed, the reads return the values, and each read leaves the
cursor where the write left it. -/
def RoundTrips (ashmem : Except Status ℤ) (mmap : ℤ → Bool) (allow : Bool) (items : List Item)
    (a : ℕ → ℕ → Answers) : Prop :=
  ∃ written p, writeAll ashmem items a (initState.pushAllowFds allow) = some (written, p) ∧
    (∀ w ∈ written, w.1 = .ok) ∧
    readAll mmap (items.map Item.kind) (p.setDataPosition 0) =
      (items.map some).zip (written.map Prod.snd)

/-! ## Growing -/

/-- Pieces of these sizes are appended to `size` bytes in a block of `cap` bytes, and the size of a
larger block never wraps. -/
def Growable : ℕ → ℕ → List ℕ → Prop
  | _, _, [] => True
  | size, cap, k :: ks => Fits size cap k ∧ Growable (size + k) (capacityWith size cap k) ks

instance Growable.decidable : ∀ size cap ks, Decidable (Growable size cap ks)
  | _, _, [] => isTrue trivial
  | size, cap, k :: ks =>
    have := Growable.decidable (size + k) (capacityWith size cap k) ks
    inferInstanceAs (Decidable (_ ∧ _))

/-- The size of the block after that. -/
def capacityAfter : ℕ → ℕ → List ℕ → ℕ
  | _, cap, [] => cap
  | size, cap, k :: ks => capacityAfter (size + k) (capacityWith size cap k) ks

lemma growable_of_lt {size cap : ℕ} {ks : List ℕ} (h : 3 * (size + ks.sum) < 2 ^ 32) :
    Growable size cap ks := by
  induction ks generalizing size cap with
  | nil => trivial
  | cons k ks ih =>
    rw [List.sum_cons] at h
    exact ⟨Or.inr (by omega), ih (by omega)⟩

lemma growable_append {size cap : ℕ} {ks ks' : List ℕ} :
    Growable size cap (ks ++ ks') ↔
      Growable size cap ks ∧ Growable (size + ks.sum) (capacityAfter size cap ks) ks' := by
  induction ks generalizing size cap with
  | nil => simp [Growable, capacityAfter]
  | cons k ks ih =>
    rw [List.cons_append, Growable, ih, Growable, capacityAfter, List.sum_cons, and_assoc,
      add_assoc]

end Parcel

end Droid
