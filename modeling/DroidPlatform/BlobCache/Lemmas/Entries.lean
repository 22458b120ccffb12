import DroidPlatform.BlobCache.BlobCache

/-!
# The entries of a blob cache

The entries are ordered by their keys alone (`compare_totalPreorder`, `compare_eq_zero_iff`), so that
the search for a key splits the entries into those with smaller keys, the one with this key if there
is one, and those with larger keys.  `setPass_spec` says what a pass of `set` does in these terms:
adding a pair and replacing a value are the same change, one entry in the place of at most one.
-/

namespace Droid

open SortedVectorImpl Blob CacheEntry

/-! ## The order of entries -/

/-- The bytes as numbers. -/
def Blob.numbers (b : Blob) : List ℕ := b.map UInt8.toNat

lemma Blob.numbers_injective : Function.Injective numbers :=
  List.map_injective_iff.mpr fun _ _ => UInt8.toNat_inj.mp

lemma memcmp_lt_iff : ∀ {as bs : Blob}, as.length = bs.length →
    (memcmp as bs < 0 ↔ as.numbers < bs.numbers) := by
  intro as
  induction as with
  | nil =>
    intro bs h
    cases List.length_eq_zero_iff.mp h.symm
    simp [memcmp]
  | cons a as ih =>
    intro bs h
    cases bs with
    | nil => cases h
    | cons b bs =>
      have htail := ih (Nat.succ.inj h)
      rw [memcmp, numbers, numbers, List.map_cons, List.map_cons,
        List.cons_lt_cons_iff]
      simp only [UInt8.lt_iff_toNat_lt]
      split_ifs with hab hba
      · simp [hab]
      · simp [hab, (ne_of_lt hba).symm]
      · simpa [numbers, le_antisymm (not_lt.mp hba) (not_lt.mp hab)] using htail

namespace CacheEntry

/-- What entries are ordered by. -/
def rank (e : CacheEntry) : ℕ ×ₗ List ℕ := toLex (e.mKey.length, e.mKey.numbers)

lemma less_iff (lhs rhs : CacheEntry) : less lhs.mKey rhs.mKey = true ↔ lhs.rank < rhs.rank := by
  rw [rank, rank, Prod.Lex.toLex_lt_toLex, less]
  split_ifs with hlen
  · simp [memcmp_lt_iff hlen, hlen]
  · simp [hlen]

lemma compare_neg_iff (x y : CacheEntry) : compare x y < 0 ↔ x.rank < y.rank := by
  have hxy := less_iff x y
  have hyx := less_iff y x
  have hasymm : x.rank < y.rank → ¬y.rank < x.rank := lt_asymm
  rw [compare]
  cases h : less x.mKey y.mKey <;> cases h' : less y.mKey x.mKey <;> simp_all

lemma compare_pos_iff (x y : CacheEntry) : 0 < compare x y ↔ y.rank < x.rank := by
  rw [← compare_neg_iff, compare, compare]
  omega

lemma compare_totalPreorder : TotalPreorder compare := .of_key rank compare_neg_iff compare_pos_iff

/-- Entries compare equal when their keys are the same. -/
lemma compare_eq_zero_iff (x y : CacheEntry) : compare x y = 0 ↔ x.mKey = y.mKey := by
  constructor
  · intro h
    have hle : y.rank ≤ x.rank := not_lt.mp fun hlt => ((compare_neg_iff x y).mpr hlt).ne h
    have hge : x.rank ≤ y.rank := not_lt.mp fun hlt => ((compare_pos_iff x y).mpr hlt).ne' h
    have hrank : x.rank = y.rank := le_antisymm hge hle
    exact numbers_injective (Prod.ext_iff.mp hrank).2
  · intro h
    simp [compare, h]

end CacheEntry

/-! ## A pass of `set` -/

lemma CacheEntry.size_mk (key value : Blob) :
    size ⟨key, value⟩ = key.length + value.length := rfl

lemma CacheEntry.memory_mk (key value : Blob) :
    memory ⟨key, value⟩ = 48 + (key.length + value.length) := rfl

namespace BlobCache

variable {c : BlobCache} {key value : Blob}

/-- The size of some entries. -/
def sizes (entries : List CacheEntry) : ℕ := (entries.map CacheEntry.size).sum

@[simp] lemma sizes_nil : sizes [] = 0 := rfl

@[simp] lemma sizes_cons (e : CacheEntry) (entries : List CacheEntry) :
    sizes (e :: entries) = e.size + sizes entries := by simp [sizes]

@[simp] lemma sizes_append (entries entries' : List CacheEntry) :
    sizes (entries ++ entries') = sizes entries + sizes entries' := by simp [sizes]

/-- The memory that `set` allocates: for a pair, or for a new value. -/
def allocated (same : List CacheEntry) (key value : Blob) : ℕ :=
  if same = [] then CacheEntry.memory ⟨key, value⟩ else 20 + value.length

/-- **The search for a key.** -/
lemma indexOf_spec (hinc : Increasing compare c.mCacheEntries) (key : Blob) :
    ∃ lo same hi, Around compare c.mCacheEntries ⟨key, []⟩ lo same hi ∧
      (same = [] ∧ indexOf compare c.mCacheEntries ⟨key, []⟩ = some Status.nameNotFound ∨
        ∃ value, same = [⟨key, value⟩] ∧
          indexOf compare c.mCacheEntries ⟨key, []⟩ = some (lo.length : ℤ) ∧
          c.mCacheEntries[lo.length]? = some ⟨key, value⟩) := by
  obtain ⟨lo, same, hi, haround, hsearch⟩ :=
    indexOrderOf_spec compare_totalPreorder hinc ⟨key, []⟩
  refine ⟨lo, same, hi, haround, ?_⟩
  rw [indexOf, hsearch]
  rcases haround.equal with rfl | ⟨⟨key', value⟩, rfl, hequal⟩
  · exact Or.inl ⟨rfl, rfl⟩
  · obtain rfl : key' = key := (compare_eq_zero_iff _ _).mp hequal
    exact Or.inr ⟨value, rfl, rfl, by simp [haround.eq]⟩

/-- The parts around a pair are those around its key. -/
lemma around_value {lo same hi : List CacheEntry}
    (h : Around compare c.mCacheEntries ⟨key, []⟩ lo same hi) (value : Blob) :
    Around compare c.mCacheEntries ⟨key, value⟩ lo same hi :=
  ⟨h.eq, h.less, h.equal, h.greater⟩

/-- **What a pass does**: one entry comes into the place of at most one, if there is memory. -/
theorem setPass_spec (hinc : Increasing compare c.mCacheEntries) (key value : Blob) :
    ∃ lo same hi, Around compare c.mCacheEntries ⟨key, value⟩ lo same hi ∧
      c.setPass key value =
        if c.memory + allocated same key value < 2 ^ 32 then
          c.store (toWord ((c.mTotalSize : ℤ) + size ⟨key, value⟩ - sizes same))
            (some (lo ++ ⟨key, value⟩ :: hi))
        else .error .noMemory := by
  obtain ⟨lo, same, hi, haround, ⟨rfl, hindex⟩ | ⟨old, rfl, hindex, hentry⟩⟩ := indexOf_spec hinc key
  · -- a new pair
    obtain ⟨lo', same', hi', haround', hadd⟩ :=
      add_spec compare_totalPreorder hinc ⟨key, value⟩
    have hsame' : same' = [] := by
      by_contra hne
      exact (around_value haround value).hasEqual_iff.mp (haround'.hasEqual_iff.mpr hne) rfl
    subst hsame'
    refine ⟨lo', [], hi', haround', ?_⟩
    have hneg : Status.nameNotFound < 0 := by decide
    have htotal : toUInt32 (c.mTotalSize + key.length + value.length) =
        toWord (c.mTotalSize + size ⟨key, value⟩ - sizes []) := by
      rw [toUInt32, toWord, size_mk, sizes_nil]
      omega
    simp only [setPass, hindex, need, bind, Except.bind, hneg, if_true, malloc, allocated]
    split_ifs with hmem
    · simp [hadd, htotal]
    · rfl
  · -- a new value
    refine ⟨lo, _, hi, around_value haround value, ?_⟩
    have hpos : ¬(lo.length : ℤ) < 0 := by omega
    have htotal : toWord (c.mTotalSize + value.length - old.length) =
        toWord (c.mTotalSize + size ⟨key, value⟩ - sizes [⟨key, old⟩]) := by
      simp only [size_mk, sizes_cons, sizes_nil]
      congr 1
      omega
    have hset : c.mCacheEntries.set lo.length ⟨key, value⟩ = lo ++ ⟨key, value⟩ :: hi := by
      rw [haround.eq]
      simp
    simp only [setPass, hindex, need, bind, Except.bind, if_false, malloc, allocated, List.cons_ne_nil]
    split_ifs with hmem
    · simp [hentry, hset, htotal]
    · rfl

end BlobCache

end Droid
