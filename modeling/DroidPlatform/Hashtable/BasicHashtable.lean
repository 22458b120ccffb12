import DroidPlatform.Core.Probe
import DroidPlatform.Core.Rounding
import DroidPlatform.Core.Word

/-!
# `BasicHashtable`

An open-addressing hash table with double hashing.  An entry with (trimmed) hash `h` is looked for
along the *chain* of `h`: it starts at `chainStart h` and advances by `chainIncrement h`, modulo the
bucket count.  Each bucket's cookie holds two flags next to the hash:

* **present** — the bucket holds an entry;
* **collision** — when some entry was added, its chain passed over this bucket because it was
  taken.  The flag outlives the entry, so that a search does not stop at the gap.

The bucket array is shared copy-on-write with copies of the table.  Whether another table owns it
too is not for this table to decide, so that the operations that call `edit` take it as an argument.

A call can go wrong in four ways, the constructors of `HashtableFault`.  The probe loops are run on
fuel; `endless` is the answer of a loop that outlasts one turn a bucket.

`determineCapacity` computes with `float`s.  The rounding of every intermediate result is a
parameter, `Rounding`: single precision for the code as it is compiled, the identity for what it
would do with exact arithmetic.
-/

namespace Droid

/-! ## Faults and numbers -/

inductive HashtableFault where
  /-- A bucket of a null bucket array, or one out of range, is accessed. -/
  | badBucket
  /-- The bucket array does not fit into the address space. -/
  | noMemory
  /-- The load factor is out of range, or there is no prime large enough. -/
  | badCapacity
  /-- A loop does not end. -/
  | endless
  deriving DecidableEq, Repr

/-- Primes, each at least twice the one before; the table in the source ends with a 0. -/
def primes : List ℕ :=
  [5, 11, 23, 47, 97, 197, 397, 797, 1597, 3203, 6421, 12853, 25717, 51437, 102877, 205759, 411527,
    823117, 1646237, 3292489, 6584983, 13169977, 26339969, 52679969, 105359939, 210719881,
    421439783, 842879579, 1685759167]

/-- What becomes of the exact result of an operation on `float`s. -/
structure Rounding where
  round : ℚ → ℚ
  nonneg : ∀ x, 0 ≤ x → 0 ≤ round x
  mono : ∀ x y, 0 ≤ x → x ≤ y → round x ≤ round y
  idem : ∀ x, 0 ≤ x → round (round x) = round x
  near : ∀ x, 0 ≤ x → |round x - x| ≤ x * 2 ^ (-24 : ℤ)
  natCast : ∀ n : ℕ, ∃ m : ℕ, round n = m
  /-- The bucket counts do not become larger when they are converted. -/
  count_le : ∀ p ∈ primes, round (p - 1 : ℕ) ≤ (p - 1 : ℕ)

lemma roundTo_count_le (p : ℕ) (hp : p ∈ primes) : roundTo 24 (p - 1 : ℕ) ≤ (p - 1 : ℕ) := by
  rcases lt_or_ge (p - 1) (2 ^ 24) with hlt | hge
  · exact (roundTo_natCast (by norm_num) hlt).le
  · -- the seven counts of more than 24 bits are all rounded down
    obtain ⟨q, j, r, hq, hle, hlt, hr, heven⟩ : ∃ q j r, p - 1 = q * 2 ^ j + r ∧ 2 ^ 23 ≤ q ∧
        q < 2 ^ 24 ∧ 2 * r ≤ 2 ^ j ∧ (2 * r = 2 ^ j → q % 2 = 0) := by
      have hlarge : p ∈ [26339969, 52679969, 105359939, 210719881, 421439783, 842879579,
          1685759167] := by
        simp only [primes, List.mem_cons, List.not_mem_nil, or_false] at hp ⊢
        omega
      simp only [List.mem_cons, List.not_mem_nil, or_false] at hlarge
      rcases hlarge with rfl | rfl | rfl | rfl | rfl | rfl | rfl
      · exact ⟨13169984, 1, 0, by norm_num⟩
      · exact ⟨13169992, 2, 0, by norm_num⟩
      · exact ⟨13169992, 3, 2, by norm_num⟩
      · exact ⟨13169992, 4, 8, by norm_num⟩
      · exact ⟨13169993, 5, 6, by norm_num⟩
      · exact ⟨13169993, 6, 26, by norm_num⟩
      · exact ⟨13169993, 7, 62, by norm_num⟩
    rw [hq, roundTo_of_le_half (by norm_num) hle hlt hr heven]
    exact_mod_cast Nat.le_add_right _ _

/-- IEEE 754 single precision, ties to even. -/
def Rounding.single : Rounding where
  round := roundTo 24
  nonneg _ hx := roundTo_nonneg hx
  mono _ _ hx hxy := roundTo_mono (by norm_num) hx hxy
  idem _ hx := roundTo_roundTo (by norm_num) hx
  near _ hx := by exact_mod_cast abs_roundTo_sub_le hx
  natCast n := exists_roundTo_natCast (by norm_num) n
  count_le := roundTo_count_le

/-- Exact arithmetic. -/
def Rounding.exact : Rounding where
  round x := x
  nonneg _ hx := hx
  mono _ _ _ hxy := hxy
  idem _ _ := rfl
  near x hx := by
    rw [sub_self, abs_zero]
    exact mul_nonneg hx (zpow_nonneg (by norm_num) _)
  natCast n := ⟨n, rfl⟩
  count_le _ _ := le_rfl

/-- The bucket count and the capacity for a minimum capacity and a load factor.  The conversion of
a `float` of `2 ^ 32` or more to `size_t` is undefined; a count above the last prime runs off the
end of the table. -/
def determineCapacity (fl : Rounding) (minimumCapacity : ℕ) (loadFactor : ℚ) :
    Except HashtableFault (ℕ × ℕ) :=
  if loadFactor ≤ 0 ∨ 1 < loadFactor then .error .badCapacity
  else
    let count := fl.round (⌈fl.round (fl.round minimumCapacity / loadFactor)⌉ + 1)
    if 2 ^ 32 ≤ count then .error .badCapacity
    else
      match primes.find? fun p => ¬p < ⌊count⌋₊ with
      | none => .error .badCapacity
      | some count => .ok (count, ⌈fl.round (fl.round (count - 1 : ℕ) * loadFactor)⌉₊)

/-! ## Hashes and chains -/

/-- Trim a hash code to 30 bits. -/
def trimHash (hash : UInt32) : UInt32 := (hash &&& (0x3fffffff : UInt32)) ^^^ (hash >>> 30)

def chainStart (hash : UInt32) (count : ℕ) : ℕ := hash.toNat % count

def chainIncrement (hash : UInt32) (count : ℕ) : ℕ :=
  ((hash >>> 7) ||| (hash <<< 25)).toNat % (count - 1) + 1

def chainSeek (index increment count : ℕ) : ℕ := toUInt32 (index + increment) % count

/-! ## The table -/

/-- A bucket: the three fields of its cookie and the storage for its entry, if it is initialised. -/
structure Bucket (E : Type) where
  present : Bool
  collision : Bool
  hash : UInt32
  entry : Option E

/-- A bucket with cookie 0. -/
def Bucket.clear {E : Type} : Bucket E := ⟨false, false, 0, none⟩

/-- The entry of a bucket that is present. -/
def Bucket.live {E : Type} (b : Bucket E) : Option E := if b.present then b.entry else none

structure BasicHashtable (E : Type) where
  /-- The number of bytes of a bucket. -/
  mBucketSize : ℕ
  mCapacity : ℕ
  mLoadFactor : ℚ
  mSize : ℕ
  mFilledBuckets : ℕ
  mBucketCount : ℕ
  /-- Null before the first entry is added. -/
  mBuckets : Option (List (Bucket E))

namespace BasicHashtable

variable {E K : Type} (t : BasicHashtable E)

/-- `SharedBuffer::alloc` for `count` buckets, all clear. -/
def allocateBuckets (count : ℕ) : Except HashtableFault (List (Bucket E)) :=
  if count * t.mBucketSize + 16 < 2 ^ 32 then .ok (List.replicate count .clear)
  else .error .noMemory

/-- The bucket array; null is not dereferenced. -/
def buckets : Except HashtableFault (List (Bucket E)) :=
  match t.mBuckets with
  | none => .error .badBucket
  | some bs => .ok bs

/-- `bucketAt` -/
def bucketAt (bs : List (Bucket E)) (index : ℕ) : Except HashtableFault (Bucket E) :=
  match bs[index]? with
  | none => .error .badBucket
  | some b => .ok b

def construct (fl : Rounding) (bucketSize minimumInitialCapacity : ℕ) (loadFactor : ℚ) :
    Except HashtableFault (BasicHashtable E) := do
  let (count, capacity) ← determineCapacity fl minimumInitialCapacity loadFactor
  return ⟨bucketSize, capacity, loadFactor, 0, 0, count, none⟩

/-- Copy a bucket: the cookie, and the entry if there is one. -/
def copyBucket (b : Bucket E) : Bucket E := if b.present then b else { b with entry := none }

def clone : Except HashtableFault (BasicHashtable E) :=
  match t.mBuckets with
  | none => .ok t
  | some bs => do
    let _ ← t.allocateBuckets t.mBucketCount
    return { t with mBuckets := some (bs.map copyBucket) }

/-- Make the bucket array this table's own. -/
def edit (shared : Bool) : Except HashtableFault (BasicHashtable E) :=
  if shared then t.clone else .ok t

/-! ## Iteration and search -/

/-- The loop of `next`, at `index`. -/
def nextFrom (bs : List (Bucket E)) (count : ℕ) : ℕ → ℕ → Except HashtableFault ℤ
  | 0, _ => .error .endless
  | fuel + 1, index =>
    if index < count then do
      let b ← bucketAt bs index
      if b.present then .ok index else nextFrom bs count fuel (index + 1)
    else .ok (-1)

/-- `ssize_t next(index)` -/
def next (index : ℤ) : Except HashtableFault ℤ :=
  if t.mSize ≠ 0 then do
    let bs ← t.buckets
    nextFrom bs t.mBucketCount (t.mBucketCount + 1) (index + 1).toNat
  else .ok (-1)

variable [DecidableEq K] (key : E → K)

/-- `compareBucketKey` -/
def compareBucketKey (b : Bucket E) (k : K) : Bool :=
  match b.entry with
  | none => false
  | some e => key e = k

/-- The loop of `find`, behind `index`. -/
def findFrom (bs : List (Bucket E)) (count : ℕ) (hash : UInt32) (k : K) :
    ℕ → ℕ → Except HashtableFault ℤ
  | 0, _ => .error .endless
  | fuel + 1, index => do
    let index := chainSeek index (chainIncrement hash count) count
    let b ← bucketAt bs index
    if b.present ∧ b.hash = hash ∧ compareBucketKey key b k then .ok index
    else if ¬b.collision then .ok (-1)
    else findFrom bs count hash k fuel index

/-- `ssize_t find(index, hash, key)` -/
def find (t : BasicHashtable E) (index : ℤ) (hash : UInt32) (k : K) :
    Except HashtableFault ℤ :=
  if t.mSize = 0 then .ok (-1)
  else do
    let hash := trimHash hash
    let bs ← t.buckets
    if index < 0 then
      let start := chainStart hash t.mBucketCount
      let b ← bucketAt bs start
      if b.present then
        if compareBucketKey key b k then .ok start
        else findFrom key bs t.mBucketCount hash k t.mBucketCount start
      else if ¬b.collision then .ok (-1)
      else findFrom key bs t.mBucketCount hash k t.mBucketCount start
    else findFrom key bs t.mBucketCount hash k t.mBucketCount index.toNat

/-! ## Changes -/

omit [DecidableEq K] in
/-- From `index` on, mark the present buckets of the chain until one is not present. -/
def seekFree (count increment : ℕ) :
    ℕ → List (Bucket E) → ℕ → Except HashtableFault (List (Bucket E) × ℕ)
  | 0, _, _ => .error .endless
  | fuel + 1, bs, index => do
    let b ← bucketAt bs index
    if b.present then
      seekFree count increment fuel (bs.set index { b with collision := true })
        (chainSeek index increment count)
    else .ok (bs, index)

/-- The chain walk of `add` and `rehash`. -/
def seekChain (bs : List (Bucket E)) (count : ℕ) (hash : UInt32) :
    Except HashtableFault (List (Bucket E) × ℕ) :=
  seekFree count (chainIncrement hash count) (count + 1) bs (chainStart hash count)

/-- The loop body of `rehash`: move one bucket into the new array. -/
def rehashBucket (count : ℕ) (new : List (Bucket E)) (b : Bucket E) :
    Except HashtableFault (List (Bucket E)) :=
  if b.present then do
    let (new, index) ← seekChain new count b.hash
    return new.set index ⟨true, false, b.hash, b.entry⟩
  else .ok new

/-- Move the entries of a table to an array of `newBucketCount` buckets. -/
def rebuild (newBucketCount : ℕ) : Except HashtableFault (BasicHashtable E) :=
  match t.mBuckets with
  | none => .ok t
  | some bs =>
    if t.mSize ≠ 0 then do
      let new ← t.allocateBuckets newBucketCount
      let new ← bs.foldlM (rehashBucket newBucketCount) new
      .ok { t with mBuckets := some new, mFilledBuckets := t.mSize }
    else .ok { t with mBuckets := none, mFilledBuckets := t.mSize }

/-- The minimum capacity that `rehash` really asks for. -/
def rehashMinimum (minimumCapacity : ℕ) : ℕ :=
  if minimumCapacity < t.mSize then t.mSize else minimumCapacity

/-- `void rehash(minimumCapacity, loadFactor)` -/
def rehash (fl : Rounding) (minimumCapacity : ℕ) (loadFactor : ℚ) :
    Except HashtableFault (BasicHashtable E) := do
  let (newBucketCount, newCapacity) ←
    determineCapacity fl (t.rehashMinimum minimumCapacity) loadFactor
  if newBucketCount ≠ t.mBucketCount ∨ newCapacity ≠ t.mCapacity then
    let t ← t.rebuild newBucketCount
    .ok { t with
      mBucketCount := newBucketCount, mCapacity := newCapacity, mLoadFactor := loadFactor }
  else .ok { t with mLoadFactor := loadFactor }

/-- The loop of `add`: find the place of an entry, in a larger table if this one is full. -/
def addLoop (fl : Rounding) (hash : UInt32) (e : E) :
    ℕ → BasicHashtable E → Except HashtableFault (BasicHashtable E × ℕ)
  | 0, _ => .error .endless
  | fuel + 1, t => do
    let bs ← t.buckets
    let (bs, index) ← seekChain bs t.mBucketCount hash
    let t := { t with mBuckets := some bs }
    let b ← bucketAt bs index
    if ¬b.collision ∧ t.mCapacity ≤ t.mFilledBuckets then do
      let t ← t.rehash fl (toUInt32 (t.mCapacity * 2)) t.mLoadFactor
      addLoop fl hash e fuel t
    else
      .ok ({ t with
        mBuckets := some (bs.set index ⟨true, b.collision, hash, some e⟩)
        mFilledBuckets := if b.collision then t.mFilledBuckets else t.mFilledBuckets + 1
        mSize := t.mSize + 1 }, index)

/-- `size_t add(hash, entry)` -/
def add (fl : Rounding) (shared : Bool) (hash : UInt32) (e : E) :
    Except HashtableFault (BasicHashtable E × ℕ) := do
  let t ← match t.mBuckets with
    | none => do
      let bs ← t.allocateBuckets t.mBucketCount
      .ok { t with mBuckets := some bs }
    | some _ => t.edit shared
  addLoop fl (trimHash hash) e (primes.length + 1) t

/-- `void removeAt(index)` -/
def removeAt (shared : Bool) (index : ℕ) : Except HashtableFault (BasicHashtable E) := do
  let t ← t.edit shared
  let bs ← t.buckets
  let b ← bucketAt bs index
  return { t with
    mBuckets := some (bs.set index { b with present := false, entry := none })
    mFilledBuckets := if b.collision then t.mFilledBuckets else t.mFilledBuckets - 1
    mSize := t.mSize - 1 }

/-- `editEntryAt(index) = e` -/
def editEntryAt (shared : Bool) (index : ℕ) (e : E) : Except HashtableFault (BasicHashtable E) := do
  let t ← t.edit shared
  let bs ← t.buckets
  let b ← bucketAt bs index
  return { t with mBuckets := some (bs.set index { b with entry := some e }) }

/-! ## Live entries -/

/-- The entry at an index. -/
def entryAt (index : ℕ) : Option E :=
  t.mBuckets.bind fun bs => bs[index]?.bind Bucket.live

/-- The live entries, in bucket order. -/
def entries : List E :=
  (t.mBuckets.getD []).filterMap Bucket.live

end BasicHashtable

end Droid
