import DroidPlatform.Hashtable.Lemmas.Placement

/-!
# The operations that change a table

`Consistent` ties the counters of a table to its bucket array, and `Sound` adds what the probe loops
need: a bucket that is neither present nor marked, and a capacity below the bucket count.

Each operation has one lemma that says what it returns.  The four faults are told apart there: no
operation on a sound table is ever `endless`, provided that `rehash` picks more buckets than there
are live entries.
-/

namespace Droid

open List Bucket Except

namespace BasicHashtable

variable {E K : Type} {key : E → K} {hash : K → UInt32} {t : BasicHashtable E} {fl : Rounding}
  {bs : List (Bucket E)} {t' : BasicHashtable E} {lf : ℚ} {c i m n : ℕ} {f : HashtableFault} {e : E}

/-- The counters describe the bucket array. -/
structure Describes (key : E → K) (hash : K → UInt32) (t : BasicHashtable E)
    (bs : List (Bucket E)) : Prop where
  length : bs.length = t.mBucketCount
  placed : WellPlaced key hash bs
  size : t.mSize = livesIn bs
  filled : t.mFilledBuckets = filledIn bs

structure Consistent (key : E → K) (hash : K → UInt32) (t : BasicHashtable E) : Prop where
  count : t.mBucketCount ∈ primes
  null : t.mBuckets = none → t.mSize = 0 ∧ t.mFilledBuckets = 0
  array : ∀ bs, t.mBuckets = some bs → Describes key hash t bs

structure Sound (key : E → K) (hash : K → UInt32) (t : BasicHashtable E) : Prop
    extends Consistent key hash t where
  capacity_pos : 0 < t.mCapacity
  capacity_lt : t.mCapacity < t.mBucketCount
  filled_le : t.mFilledBuckets ≤ t.mCapacity + t.mCapacity / 2
  filled_lt : t.mFilledBuckets < t.mBucketCount

/-- There are no more filled buckets than the capacity allows. -/
def Tight (t : BasicHashtable E) : Prop := t.mFilledBuckets ≤ t.mCapacity

lemma Consistent.size_le (h : Consistent key hash t) : t.mSize ≤ t.mFilledBuckets := by
  cases hbs : t.mBuckets with
  | none =>
    obtain ⟨hsize, hfilled⟩ := h.null hbs
    rw [hsize]
    exact Nat.zero_le _
  | some bs =>
    have hd := h.array bs hbs
    rw [hd.size, hd.filled]
    exact livesIn_le_filledIn bs

/-- `Describes` for a table with the same counters. -/
lemma Describes.congr (h : Describes key hash t bs) (hcount : t'.mBucketCount = t.mBucketCount)
    (hsize : t'.mSize = t.mSize) (hfilled : t'.mFilledBuckets = t.mFilledBuckets) :
    Describes key hash t' bs :=
  ⟨h.length.trans hcount.symm, h.placed, hsize.trans h.size, hfilled.trans h.filled⟩

lemma Consistent.of_array {bs' : List (Bucket E)} (hcount : t'.mBucketCount ∈ primes)
    (hbs : t'.mBuckets = some bs') (hd : Describes key hash t' bs') : Consistent key hash t' where
  count := hcount
  null hnull := by simp [hbs] at hnull
  array bs'' hbs'' := by
    cases hbs.symm.trans hbs''
    exact hd

/-- The array changes, without filling a bucket beyond the capacity. -/
lemma Sound.with_array (h : Sound key hash t) {s f : ℕ}
    (hle : f ≤ max t.mFilledBuckets t.mCapacity)
    (hd : Describes key hash { t with mSize := s, mFilledBuckets := f } bs) :
    Sound key hash { t with mBuckets := some bs, mSize := s, mFilledBuckets := f } where
  toConsistent := .of_array h.count rfl (hd.congr rfl rfl rfl)
  capacity_pos := h.capacity_pos
  capacity_lt := h.capacity_lt
  filled_le := hle.trans (max_le h.filled_le (Nat.le_add_right _ _))
  filled_lt := hle.trans_lt (max_lt h.filled_lt h.capacity_lt)

/-- One bucket is replaced by another that is well placed, if it is present. -/
lemma Describes.set (hd : Describes key hash t bs) {b b' : Bucket E} {s f : ℕ}
    (hb : bs[i]? = some b) (hc : b.collision = true → b'.collision = true)
    (hb' : b'.present = true → Stores key hash b' ∧ Reaches bs b'.hash i)
    (hsize : s + (if b.present then 1 else 0) = t.mSize + (if b'.present then 1 else 0))
    (hfilled : f + (if b.filled then 1 else 0) = t.mFilledBuckets + (if b'.filled then 1 else 0)) :
    Describes key hash { t with mSize := s, mFilledBuckets := f } (bs.set i b') where
  length := length_set.trans hd.length
  placed := hd.placed.set hb hc hb'
  size := by
    rw [hd.size] at hsize
    exact Nat.add_right_cancel (hsize.trans (livesIn_set hb b').symm)
  filled := by
    rw [hd.filled] at hfilled
    exact Nat.add_right_cancel (hfilled.trans (countP_set_of_getElem? hb b').symm)

lemma entries_eq (hbs : t.mBuckets = some bs) : t.entries = bs.filterMap live := by
  rw [entries, hbs]
  rfl

lemma entryAt_eq (hbs : t.mBuckets = some bs) (i : ℕ) : t.entryAt i = bs[i]?.bind live := by
  rw [entryAt, hbs]
  rfl

/-- A new table. -/
lemma construct_sound {bucketSize minimum : ℕ}
    (h : construct fl bucketSize minimum lf = .ok t) : Sound key hash t ∧ t.entries = [] := by
  cases hdet : determineCapacity fl minimum lf with
  | error f => simp [construct, hdet] at h
  | ok r =>
    simp only [construct, hdet, bind, Except.bind, pure, Except.pure, ok.injEq] at h
    subst h
    refine ⟨⟨⟨mem_primes_of_determineCapacity hdet, fun _ => ⟨rfl, rfl⟩, by simp⟩,
      capacity_pos hdet, capacity_lt_count hdet, Nat.zero_le _,
      (Nat.zero_le _).trans_lt (capacity_lt_count hdet)⟩, rfl⟩

/-! ## Copying -/

lemma allocateBuckets_ok (h : n * t.mBucketSize + 16 < 2 ^ 32) :
    t.allocateBuckets n = .ok (replicate n .clear) := if_pos h

lemma allocateBuckets_error (h : ¬n * t.mBucketSize + 16 < 2 ^ 32) :
    t.allocateBuckets n = .error .noMemory := if_neg h

/-- `edit` gives a table that looks the same. -/
lemma edit_table_spec (h : Consistent key hash t) (hbs : t.mBuckets = some bs) (shared : Bool) :
    (t.edit shared = .error .noMemory ∧ 2 ^ 32 ≤ t.mBucketCount * t.mBucketSize + 16) ∨
    ∃ bs', t.edit shared = .ok { t with mBuckets := some bs' } ∧
      Describes key hash t bs' ∧ bs'.filterMap live = bs.filterMap live ∧
      ∀ i : ℕ, bs'[i]?.bind live = bs[i]?.bind live := by
  have hd := h.array bs hbs
  cases shared with
  | false =>
    refine .inr ⟨bs, ?_, hd, rfl, fun _ => rfl⟩
    rw [edit, if_neg (by simp), ← hbs]
  | true =>
    rw [edit, clone, hbs]
    by_cases hmem : t.mBucketCount * t.mBucketSize + 16 < 2 ^ 32
    · obtain ⟨hplaced, hlives, hfilled, hlive⟩ := copy_spec hd.placed
      refine .inr ⟨bs.map copyBucket, ?_, ⟨?_, hplaced, ?_, ?_⟩, hlive, fun i => ?_⟩
      · rw [allocateBuckets_ok hmem]
        rfl
      · rw [length_map, hd.length]
      · rw [hd.size, hlives]
      · rw [hd.filled, hfilled]
      · cases hi : bs[i]? <;> simp [hi, copyBucket_live]
    · rw [allocateBuckets_error hmem]
      exact .inl ⟨rfl, by omega⟩

/-! ## `rehash` -/

/-- What a rebuilt table is like, apart from its bucket count. -/
structure Rebuilds (key : E → K) (hash : K → UInt32) (t : BasicHashtable E) (n : ℕ)
    (t' : BasicHashtable E) : Prop where
  null : t'.mBuckets = none → t'.mSize = 0 ∧ t'.mFilledBuckets = 0
  array : ∀ bs, t'.mBuckets = some bs → Describes key hash { t' with mBucketCount := n } bs
  entries : t'.entries.Perm t.entries
  size : t'.mSize = t.mSize
  filled : t'.mFilledBuckets = t.mSize
  bucketSize : t'.mBucketSize = t.mBucketSize
  nonnull : t.mBuckets ≠ none → t.mSize ≠ 0 → t'.mBuckets ≠ none

lemma rebuild_spec (h : Consistent key hash t) (hn : n ∈ primes) (hroom : t.mSize ≤ n) :
    (2 ^ 32 ≤ n * t.mBucketSize + 16 ∧ t.rebuild n = .error .noMemory) ∨
    ∃ t', t.rebuild n = .ok t' ∧ Rebuilds key hash t n t' := by
  cases hbs : t.mBuckets with
  | none =>
    obtain ⟨hsize, hfilled⟩ := h.null hbs
    refine .inr ⟨t, by rw [rebuild, hbs], h.null, by simp [hbs], .refl _, rfl, ?_, rfl, ?_⟩
    · rw [hsize, hfilled]
    · exact fun hne _ => hne
  | some bs =>
    have hd := h.array bs hbs
    by_cases hsize : t.mSize = 0
    · refine .inr ⟨{ t with mBuckets := none, mFilledBuckets := t.mSize }, ?_,
        fun _ => ⟨hsize, hsize⟩, by simp, ?_, rfl, rfl, rfl, fun _ hne => absurd hsize hne⟩
      · rw [rebuild, hbs]
        exact if_neg (not_not.mpr hsize)
      · have hnone : ∀ b ∈ bs, b.live = none := by
          intro b hb
          rw [hd.size, livesIn, countP_eq_zero] at hsize
          exact if_neg (hsize b hb)
        rw [entries_eq hbs, filterMap_eq_nil_iff.mpr hnone]
        exact .refl _
    · have hrebuild : t.rebuild n = (do
          let new ← t.allocateBuckets n
          let new ← bs.foldlM (rehashBucket n) new
          .ok { t with mBuckets := some new, mFilledBuckets := t.mSize }) := by
        rw [rebuild, hbs]
        exact if_pos hsize
      by_cases hmem : n * t.mBucketSize + 16 < 2 ^ 32
      · have hclear := livesIn_clear (E := E) n
        obtain ⟨new, hfold, hnew, hlives, hperm⟩ := rehashBuckets_spec hn (rebuilt_clear n)
          hd.placed.stores (by rw [hclear, zero_add, ← hd.size]; exact hroom)
        rw [hclear, zero_add, ← hd.size] at hlives
        refine .inr ⟨{ t with mBuckets := some new, mFilledBuckets := t.mSize }, ?_, by simp, ?_,
          ?_, rfl, rfl, rfl, by simp⟩
        · rw [hrebuild, allocateBuckets_ok hmem]
          show (bs.foldlM (rehashBucket n) (replicate n .clear) >>= _) = _
          rw [hfold]
          rfl
        · intro bs' hbs'
          cases hbs'
          exact ⟨hnew.length, hnew.placed, hlives.symm, hlives.symm.trans hnew.filledIn.symm⟩
        · rw [entries_eq hbs]
          rw [filterMap_live_clear, append_nil] at hperm
          exact hperm
      · refine .inl ⟨by omega, ?_⟩
        rw [hrebuild, allocateBuckets_error hmem]
        rfl

lemma size_le_rehashMinimum (t : BasicHashtable E) (m : ℕ) : t.mSize ≤ t.rehashMinimum m := by
  rw [rehashMinimum]
  split_ifs <;> omega

/-- What `rehash` makes of a table. -/
structure Rehashed (key : E → K) (hash : K → UInt32) (t : BasicHashtable E) (n c : ℕ)
    (t' : BasicHashtable E) : Prop where
  consistent : Consistent key hash t'
  entries : t'.entries.Perm t.entries
  size : t'.mSize = t.mSize
  count : t'.mBucketCount = n
  capacity : t'.mCapacity = c
  bucketSize : t'.mBucketSize = t.mBucketSize
  filled : t'.mFilledBuckets = t.mSize ∨
    (n = t.mBucketCount ∧ c = t.mCapacity ∧ t'.mFilledBuckets = t.mFilledBuckets)
  nonnull : t.mBuckets ≠ none → t.mSize ≠ 0 → t'.mBuckets ≠ none

/-- **`rehash`** keeps the entries, if they fit into the new array. -/
theorem rehash_spec (h : Consistent key hash t)
    (hdet : determineCapacity fl (t.rehashMinimum m) lf = .ok (n, c)) (hroom : t.mSize ≤ n) :
    (2 ^ 32 ≤ n * t.mBucketSize + 16 ∧ t.rehash fl m lf = .error .noMemory) ∨
    ∃ t', t.rehash fl m lf = .ok t' ∧ Rehashed key hash t n c t' := by
  have hn := mem_primes_of_determineCapacity hdet
  have hrehash : t.rehash fl m lf = (
      if n ≠ t.mBucketCount ∨ c ≠ t.mCapacity then do
        let t ← t.rebuild n
        .ok { t with mBucketCount := n, mCapacity := c, mLoadFactor := lf }
      else .ok { t with mLoadFactor := lf }) := by
    rw [rehash, hdet]
    rfl
  by_cases hchange : n ≠ t.mBucketCount ∨ c ≠ t.mCapacity
  · rw [hrehash, if_pos hchange]
    rcases rebuild_spec h hn hroom with ⟨hmem, herr⟩ | ⟨t', hok, hr⟩
    · rw [herr]
      exact .inl ⟨hmem, rfl⟩
    · rw [hok]
      refine .inr ⟨{ t' with mBucketCount := n, mCapacity := c, mLoadFactor := lf }, rfl,
        ⟨hn, hr.null, fun bs hbs => (hr.array bs hbs).congr rfl rfl rfl⟩, hr.entries, hr.size, rfl,
        rfl, hr.bucketSize, .inl hr.filled, hr.nonnull⟩
  · rw [hrehash, if_neg hchange]
    rw [not_or, not_not, not_not] at hchange
    exact .inr ⟨{ t with mLoadFactor := lf }, rfl,
      ⟨h.count, h.null, fun bs hbs => (h.array bs hbs).congr rfl rfl rfl⟩, .refl _, rfl,
      hchange.1.symm, hchange.2.symm, rfl, .inr ⟨hchange.1, hchange.2, rfl⟩, fun hne _ => hne⟩

lemma determineCapacity_error (h : determineCapacity fl m lf = .error f) : f = .badCapacity := by
  simp only [determineCapacity] at h
  split_ifs at h with hlf hcount
  · cases h
    rfl
  · cases h
    rfl
  · split at h
    · cases h
      rfl
    · cases h

lemma rehash_error (hdet : determineCapacity fl (t.rehashMinimum m) lf = .error f) :
    t.rehash fl m lf = .error f := by
  rw [rehash, hdet]
  rfl

/-- A table that was rehashed to more buckets than it has entries is sound. -/
lemma Rehashed.sound (h : Sound key hash t) (hr : Rehashed key hash t n c t')
    (hdet : determineCapacity fl (t.rehashMinimum m) lf = .ok (n, c)) (hroom : t.mSize < n) :
    Sound key hash t' where
  toConsistent := hr.consistent
  capacity_pos := hr.capacity ▸ capacity_pos hdet
  capacity_lt := by
    rw [hr.capacity, hr.count]
    exact capacity_lt_count hdet
  filled_le := by
    rw [hr.capacity]
    rcases hr.filled with hfilled | ⟨-, hc, hfilled⟩
    · rw [hfilled]
      exact (size_le_rehashMinimum ..).trans (le_capacity_add_half hdet)
    · rw [hfilled, hc]
      exact h.filled_le
  filled_lt := by
    rw [hr.count]
    rcases hr.filled with hfilled | ⟨hn, -, hfilled⟩
    · rw [hfilled]
      exact hroom
    · rw [hfilled, hn]
      exact h.filled_lt

/-! ## `add` -/

/-- What `add` makes of a table. -/
structure Added (key : E → K) (hash : K → UInt32) (t : BasicHashtable E) (e : E)
    (t' : BasicHashtable E) (i : ℕ) : Prop where
  sound : Sound key hash t'
  entries : t'.entries.Perm (e :: t.entries)
  size : t'.mSize = t.mSize + 1
  entryAt : t'.entryAt i = some e
  bucketSize : t'.mBucketSize = t.mBucketSize

/-- The table has not grown, and at most one bucket was filled. -/
structure Stays (t t' : BasicHashtable E) : Prop where
  count : t'.mBucketCount = t.mBucketCount
  capacity : t'.mCapacity = t.mCapacity
  filled : t'.mFilledBuckets ≤ t.mFilledBuckets + 1

/-- The first turn of the loop of `add`: the entry is stored, or the table has to grow. -/
lemma addLoop_succ (fl : Rounding) (h : Sound key hash t) (hbs : t.mBuckets = some bs) (e : E)
    (fuel : ℕ) :
    (∃ t' i, addLoop fl (trimHash (hash (key e))) e (fuel + 1) t = .ok (t', i) ∧
      Added key hash t e t' i ∧ Stays t t' ∧ (t.Tight → t'.Tight)) ∨
    ∃ bs', t.mCapacity ≤ t.mFilledBuckets ∧ Describes key hash t bs' ∧
      bs'.filterMap live = bs.filterMap live ∧
      addLoop fl (trimHash (hash (key e))) e (fuel + 1) t =
        (rehash { t with mBuckets := some bs' } fl (toUInt32 (t.mCapacity * 2)) t.mLoadFactor).bind
          (addLoop fl (trimHash (hash (key e))) e fuel) := by
  have hd := h.array bs hbs
  have hlives : livesIn bs < t.mBucketCount := by
    rw [← hd.size]
    exact h.toConsistent.size_le.trans_lt h.filled_lt
  obtain ⟨bs', i, b, hseek, hmarked, hb, hp, hreach⟩ :=
    seekChain_spec h.count hd.length hlives (trimHash (hash (key e)))
  have hd' : Describes key hash t bs' := ⟨hmarked.length_eq.symm.trans hd.length,
    hd.placed.of_marked hmarked, hd.size.trans hmarked.livesIn.symm,
    hd.filled.trans hmarked.filledIn.symm⟩
  by_cases hgrow : ¬b.collision ∧ t.mCapacity ≤ t.mFilledBuckets
  · refine .inr ⟨bs', hgrow.2, hd', hmarked.filterMap_live, ?_⟩
    simp only [addLoop, buckets, hbs, hseek, bucketAt_eq_ok hb, bind, Except.bind, if_pos hgrow]
  · have hle : (if b.collision then t.mFilledBuckets else t.mFilledBuckets + 1) ≤
        max t.mFilledBuckets t.mCapacity := by
      split_ifs with hc
      · exact le_max_left _ _
      · exact le_max_of_le_right (not_le.mp fun hfull => hgrow ⟨hc, hfull⟩)
    refine .inl ⟨{ t with
      mBuckets := some (bs'.set i ⟨true, b.collision, trimHash (hash (key e)), some e⟩)
      mFilledBuckets := if b.collision then t.mFilledBuckets else t.mFilledBuckets + 1
      mSize := t.mSize + 1 }, i, ?_, ⟨h.with_array hle (hd'.set hb id
        (fun _ => ⟨⟨e, rfl, rfl⟩, hreach⟩) ?_ ?_), ?_, rfl, ?_, rfl⟩, ⟨rfl, rfl, ?_⟩,
      fun htight => hle.trans (max_le htight le_rfl)⟩
    · simp only [addLoop, buckets, hbs, hseek, bucketAt_eq_ok hb, bind, Except.bind, if_neg hgrow]
    · simp [hp]
    · cases hc : b.collision <;> simp [filled, hp, hc]
    · obtain ⟨rest, hold, hnew⟩ :=
        filterMap_live_set hb ⟨true, b.collision, trimHash (hash (key e)), some e⟩
      rw [entries_eq hbs, ← hmarked.filterMap_live]
      simp only [live, hp] at hold hnew
      exact hnew.trans (hold.symm.cons e)
    · show (bs'.set i ⟨true, b.collision, trimHash (hash (key e)), some e⟩)[i]?.bind live
        = some e
      rw [getElem?_set_self (List.getElem?_eq_some_iff.mp hb).1]
      rfl
    · show (if b.collision then t.mFilledBuckets else t.mFilledBuckets + 1) ≤ _
      split_ifs <;> omega

/-- **The loop of `add`** ends within two turns. -/
lemma addLoop_spec (fl : Rounding) (h : Sound key hash t) (hbs : t.mBuckets = some bs) (e : E)
    (fuel : ℕ) :
    (∃ t' i, addLoop fl (trimHash (hash (key e))) e (fuel + 2) t = .ok (t', i) ∧
      Added key hash t e t' i ∧ (t.Tight → t'.Tight)) ∨
    ∃ f, f ≠ .endless ∧ addLoop fl (trimHash (hash (key e))) e (fuel + 2) t = .error f := by
  rcases addLoop_succ fl h hbs e (fuel + 1) with
    ⟨t', i, hok, ha, -, htight⟩ | ⟨bs1, hfull, hd1, hlive1, heq⟩
  · exact .inl ⟨t', i, hok, ha, htight⟩
  rw [heq]
  -- the table with the marks of the first walk, and its doubled capacity
  set t1 : BasicHashtable E := { t with mBuckets := some bs1 } with ht1
  have h1 : Sound key hash t1 := h.with_array (le_max_left _ _) hd1
  have hcap := (bounds_of_mem_primes h.count).2
  have hlt := h.capacity_lt
  have hdouble : toUInt32 (t.mCapacity * 2) = t.mCapacity * 2 := toUInt32_eq_self (by omega)
  have hsize : t.mSize ≤ t.mCapacity + t.mCapacity / 2 := h.toConsistent.size_le.trans h.filled_le
  have hmin : t1.rehashMinimum (t.mCapacity * 2) = t.mCapacity * 2 :=
    if_neg (show ¬t.mCapacity * 2 < t.mSize by omega)
  rw [hdouble]
  cases hdet : determineCapacity fl (t.mCapacity * 2) t.mLoadFactor with
  | error f =>
    refine .inr ⟨f, ?_, ?_⟩
    · rw [determineCapacity_error hdet]
      simp
    · rw [rehash_error (by rw [hmin, hdet])]
      rfl
  | ok r =>
    obtain ⟨n, c⟩ := r
    have hgrows := determineCapacity_double h.capacity_pos hdet
    have hcn := capacity_lt_count hdet
    rw [← hmin] at hdet
    rcases rehash_spec h1.toConsistent hdet (show t.mSize ≤ n by omega) with
      ⟨-, herr⟩ | ⟨t2, hok, hr⟩
    · exact .inr ⟨.noMemory, by simp, by rw [herr]; rfl⟩
    rw [hok]
    have h2 : Sound key hash t2 := hr.sound h1 hdet (show t.mSize < n by omega)
    have hfilled : t2.mFilledBuckets = t.mSize := by
      rcases hr.filled with hfilled | ⟨-, hc, -⟩
      · exact hfilled
      · have hc' : c = t.mCapacity := hc
        omega
    cases hbs2 : t2.mBuckets with
    | none =>
      refine .inr ⟨.badBucket, by simp, ?_⟩
      simp only [Except.bind, addLoop, buckets, hbs2, bind]
    | some bs2 =>
      rcases addLoop_succ fl h2 hbs2 e fuel with ⟨t3, i, hok3, ha, -, htight3⟩ | ⟨-, hfull2, -⟩
      · refine .inl ⟨t3, i, hok3, ⟨ha.sound, ?_, ?_, ha.entryAt,
          ha.bucketSize.trans hr.bucketSize⟩, fun _ => htight3 ?_⟩
        · refine ha.entries.trans (Perm.cons e (hr.entries.trans ?_))
          rw [entries_eq hbs]
          exact hlive1 ▸ .refl _
        · rw [ha.size, hr.size]
        · rw [Tight, hfilled, hr.capacity]
          omega
      · rw [hr.capacity] at hfull2
        omega

/-- The table that the loop of `add` starts with: it has a bucket array of its own. -/
lemma add_eq_addLoop (h : Sound key hash t) (fl : Rounding) (shared : Bool) (e : E) :
    (t.add fl shared (hash (key e)) e = .error .noMemory ∧
      2 ^ 32 ≤ t.mBucketCount * t.mBucketSize + 16) ∨
    ∃ bs, Sound key hash { t with mBuckets := some bs } ∧
      bs.filterMap live = t.entries ∧
      t.add fl shared (hash (key e)) e = addLoop fl (trimHash (hash (key e))) e
        (primes.length + 1) { t with mBuckets := some bs } := by
  cases hbs : t.mBuckets with
  | none =>
    obtain ⟨hsize, hfilled⟩ := h.null hbs
    by_cases hmem : t.mBucketCount * t.mBucketSize + 16 < 2 ^ 32
    · have hclear : Rebuilt key hash t.mBucketCount (replicate t.mBucketCount .clear) :=
        rebuilt_clear t.mBucketCount
      have hlives := livesIn_clear (E := E) t.mBucketCount
      refine .inr ⟨replicate t.mBucketCount .clear,
        h.with_array (le_max_left _ _) ⟨hclear.length, hclear.placed, hsize.trans hlives.symm,
          hfilled.trans (hclear.filledIn.trans hlives).symm⟩, ?_, ?_⟩
      · rw [filterMap_live_clear, entries, hbs]
        rfl
      · rw [add, hbs, allocateBuckets_ok hmem]
        rfl
    · refine .inl ⟨?_, by omega⟩
      rw [add, hbs, allocateBuckets_error hmem]
      rfl
  | some bs =>
    rcases edit_table_spec h.toConsistent hbs shared with ⟨herr, hmem⟩ | ⟨bs', hok, hd, hlive, -⟩
    · refine .inl ⟨?_, hmem⟩
      rw [add, hbs, herr]
      rfl
    · refine .inr ⟨bs', h.with_array (le_max_left _ _) hd, ?_, ?_⟩
      · rw [hlive, entries_eq hbs]
      · rw [add, hbs, hok]
        rfl

/-- **`add`** on a sound table. -/
theorem add_spec (h : Sound key hash t) (fl : Rounding) (shared : Bool) (e : E) :
    (∃ t' i, t.add fl shared (hash (key e)) e = .ok (t', i) ∧ Added key hash t e t' i ∧
      (t.Tight → t'.Tight)) ∨
    ∃ f, f ≠ .endless ∧ t.add fl shared (hash (key e)) e = .error f := by
  rcases add_eq_addLoop h fl shared e with ⟨herr, -⟩ | ⟨bs, h', hentries, hadd⟩
  · exact .inr ⟨.noMemory, by simp, herr⟩
  · rw [hadd]
    rcases addLoop_spec fl h' rfl e (primes.length - 1) with ⟨t', i, hok, ha, htight⟩ | herr
    · refine .inl ⟨t', i, hok, ⟨ha.sound, ?_, ha.size, ha.entryAt, ha.bucketSize⟩, htight⟩
      rw [← hentries]
      exact ha.entries
    · exact .inr herr

/-- `add` to a table with room does not make it grow. -/
lemma add_of_room (h : Sound key hash t) (hroom : t.mFilledBuckets < t.mCapacity)
    (hmem : t.mBucketCount * t.mBucketSize + 16 < 2 ^ 32) (fl : Rounding) (shared : Bool) (e : E) :
    ∃ t' i, t.add fl shared (hash (key e)) e = .ok (t', i) ∧ Added key hash t e t' i ∧
      Stays t t' := by
  rcases add_eq_addLoop h fl shared e with ⟨-, hmem'⟩ | ⟨bs, h', hentries, hadd⟩
  · omega
  · rw [hadd]
    rcases addLoop_succ fl h' rfl e primes.length with ⟨t', i, hok, ha, hs, -⟩ | ⟨-, hfull, -⟩
    · refine ⟨t', i, hok, ⟨ha.sound, ?_, ha.size, ha.entryAt, ha.bucketSize⟩,
        hs.count, hs.capacity, hs.filled⟩
      rw [← hentries]
      exact ha.entries
    · exact absurd hroom (not_lt.mpr hfull)

/-! ## `removeAt` and `editEntryAt` -/

/-- A live entry sits in a present bucket. -/
lemma exists_of_entryAt (he : bs[i]?.bind live = some e) :
    ∃ b, bs[i]? = some b ∧ b.present = true ∧ b.entry = some e := by
  obtain ⟨b, hb, hlive⟩ := Option.bind_eq_some_iff.mp he
  rw [live] at hlive
  split_ifs at hlive with hp
  exact ⟨b, hb, hp, hlive⟩

/-- **`removeAt`** of a live entry. -/
theorem removeAt_spec (h : Sound key hash t) (shared : Bool) (he : t.entryAt i = some e) :
    t.removeAt shared i = .error .noMemory ∨ ∃ t', t.removeAt shared i = .ok t' ∧
      Sound key hash t' ∧ t.entries.Perm (e :: t'.entries) ∧ (t.Tight → t'.Tight) := by
  cases hbs : t.mBuckets with
  | none => simp [entryAt, hbs] at he
  | some bs =>
    rcases edit_table_spec h.toConsistent hbs shared with
      ⟨herr, -⟩ | ⟨bs', hok, hd, hlive, hat⟩
    · rw [removeAt, herr]
      exact .inl rfl
    rw [entryAt_eq hbs, ← hat] at he
    obtain ⟨b, hb, hp, hentry⟩ := exists_of_entryAt he
    have hless : (if b.collision then t.mFilledBuckets else t.mFilledBuckets - 1)
        ≤ t.mFilledBuckets := by
      split_ifs <;> omega
    refine .inr ⟨{ t with
      mBuckets := some (bs'.set i { b with present := false, entry := none })
      mFilledBuckets := if b.collision then t.mFilledBuckets else t.mFilledBuckets - 1
      mSize := t.mSize - 1 }, ?_, h.with_array (le_max_of_le_left hless) (hd.set hb id (by simp)
        ?_ ?_), ?_, hless.trans⟩
    · simp only [removeAt, hok, buckets, bucketAt_eq_ok hb, bind, Except.bind, pure, Except.pure]
    · have hpos : 0 < livesIn bs' := countP_pos_iff.mpr ⟨b, mem_of_getElem? hb, hp⟩
      rw [← hd.size] at hpos
      rw [if_pos hp, if_neg (by simp)]
      omega
    · have hpos : 0 < filledIn bs' := countP_pos_iff.mpr ⟨b, mem_of_getElem? hb, by simp [filled, hp]⟩
      rw [← hd.filled] at hpos
      cases hc : b.collision <;> simp [filled, hp, hc]
      omega
    · obtain ⟨rest, hold, hnew⟩ := filterMap_live_set hb { b with present := false, entry := none }
      rw [entries_eq hbs, ← hlive]
      simp only [live, hp, hentry] at hold hnew
      exact hold.trans (hnew.symm.cons e)

/-- **`editEntryAt`** of a live entry, to one whose key has the same hash. -/
theorem editEntryAt_spec (h : Sound key hash t) (shared : Bool) {e' : E} (he : t.entryAt i = some e)
    (hhash : trimHash (hash (key e')) = trimHash (hash (key e))) :
    t.editEntryAt shared i e' = .error .noMemory ∨ ∃ t', t.editEntryAt shared i e' = .ok t' ∧
      Sound key hash t' ∧ (t.Tight → t'.Tight) ∧
      ∃ rest, t.entries.Perm (e :: rest) ∧ t'.entries.Perm (e' :: rest) := by
  cases hbs : t.mBuckets with
  | none => simp [entryAt, hbs] at he
  | some bs =>
    rcases edit_table_spec h.toConsistent hbs shared with
      ⟨herr, -⟩ | ⟨bs', hok, hd, hlive, hat⟩
    · rw [editEntryAt, herr]
      exact .inl rfl
    rw [entryAt_eq hbs, ← hat] at he
    obtain ⟨b, hb, hp, hentry⟩ := exists_of_entryAt he
    obtain ⟨e0, he0, hh⟩ := hd.placed.stores b (mem_of_getElem? hb) hp
    cases he0.symm.trans hentry
    obtain ⟨rest, hold, hnew⟩ := filterMap_live_set hb { b with entry := some e' }
    rw [live, if_pos hp, hentry] at hold
    rw [live, if_pos hp] at hnew
    refine .inr ⟨{ t with mBuckets := some (bs'.set i { b with entry := some e' }) }, ?_,
      h.with_array (le_max_left _ _) (hd.set hb id (fun _ => ⟨⟨e', rfl, hh.trans hhash.symm⟩,
        hd.placed.reaches i b hb hp⟩) rfl rfl), id, rest, ?_, hnew⟩
    · simp only [editEntryAt, hok, buckets, bucketAt_eq_ok hb, bind, Except.bind, pure,
        Except.pure]
    · rw [entries_eq hbs, ← hlive]
      exact hold

end BasicHashtable

end Droid
