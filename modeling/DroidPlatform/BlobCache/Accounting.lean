import DroidPlatform.BlobCache.Lemmas.Accounts
import DroidPlatform.Core.Trace

/-!
# The total size of a blob cache

`mTotalSize` should be the size of the keys and values held, below the limit; an `unflatten` that
fails should leave an empty cache; and `clean` should find an entry to remove as long as the total is
above half the limit.  So it is as long as the cache is filled by `set` alone, whatever the random
numbers are.

**Where the books go wrong.**  `unflatten` removes the entries with `mCacheEntries.clear()`, once at
the start and once more when the buffer turns out to be too short, and leaves `mTotalSize` as it was.
The total stays too large by the size of what was removed, for good.  The cache holds less than it
could from then on, and once the lost part alone is more than half the limit, `set` makes room in an
empty cache: `clean` takes a random number modulo zero.

A call is `Sound` if it is not such an `unflatten`: the cache is empty, and no entry that the cache
would take comes before one that is cut off.
-/

namespace Droid

namespace BlobCache

variable {c c' : BlobCache} {d : ℕ} {buffer : Memory} {size count : ℕ}

/-! ## Calls -/

inductive Call where
  | set (key value : Blob)
  | get (key : Blob) (valueSize : ℕ)
  | unflatten (buffer : Memory) (size count : ℕ)

def call (c : BlobCache) : Call → Except Fault (Status × BlobCache)
  | .set key value => (c.set key value).map fun c => (Status.ok, c)
  | .get key valueSize => (c.get key valueSize).map fun _ => (Status.ok, c)
  | .unflatten buffer size count => c.unflatten buffer size count

/-- The total is the size of what is held, and within the limit. -/
def Accounts (c : BlobCache) : Prop :=
  c.mTotalSize = sizes c.mCacheEntries ∧ c.mTotalSize ≤ c.mMaxTotalSize
  deriving Decidable

/-- The cache is as it was constructed. -/
def Fresh (c : BlobCache) : Prop := c.mTotalSize = 0 ∧ c.mCacheEntries = []
  deriving Decidable

/-- **A call that keeps the books** returns without a fault, and leaves an empty cache when it
fails. -/
def Keeps (c : BlobCache) (a : Call) : Prop :=
  ∃ status c', c.call a = .ok (status, c') ∧ c'.Accounts ∧ (status ≠ Status.ok → c'.Fresh)

/-! ## Serialized entries -/

/-- The sizes of the serialized entries in a buffer, and whether the last one is cut off. -/
def records (buffer : Memory) (size : ℕ) : ℕ → ℕ → List (ℕ × ℕ) × Bool
  | 0, _ => ([], false)
  | n + 1, byteOffset =>
    if size < toUInt32 (byteOffset + sizeofEntryHeader) ∨
        size < toUInt32 (byteOffset + entrySize buffer byteOffset) then ([], true)
    else
      let rest := records buffer size n (toUInt32 (byteOffset + align4 (entrySize buffer byteOffset)))
      ((mKeySize buffer byteOffset, mValueSize buffer byteOffset) :: rest.1, rest.2)

/-- The header is one that `unflatten` reads on behind. -/
def HeaderOk (buffer : Memory) (size count : ℕ) : Prop :=
  count = 0 ∧ sizeofHeader ≤ size ∧ field buffer 0 = blobCacheMagic ∧
    field buffer 4 = blobCacheVersion ∧ field buffer 8 = blobCacheDeviceVersion
  deriving Decidable

/-- An entry that the cache would take comes before one that is cut off. -/
def CutShort (c : BlobCache) (buffer : Memory) (size count : ℕ) : Prop :=
  HeaderOk buffer size count ∧
    (records buffer size (field buffer 12) (align4 sizeofHeader)).2 = true ∧
    ∃ r ∈ (records buffer size (field buffer 12) (align4 sizeofHeader)).1, c.Cacheable r.1 r.2
  deriving Decidable

/-- **The condition on a call.** -/
def Sound (c : BlobCache) : Call → Prop
  | .set _ _ => True
  | .get _ _ => True
  | .unflatten buffer size count => c.mTotalSize = 0 ∧ ¬c.CutShort buffer size count

instance (c : BlobCache) : (a : Call) → Decidable (c.Sound a)
  | .set _ _ => inferInstanceAs (Decidable True)
  | .get _ _ => inferInstanceAs (Decidable True)
  | .unflatten _ _ _ => inferInstanceAs (Decidable (_ ∧ _))

/-- What `unflatten` returns after its loop, if the cache is then `c`. -/
def ended (cut : Bool) (c : BlobCache) : Status × BlobCache :=
  if cut then (Status.badValue, c.clearEntries) else (Status.ok, c)

/-- A step of the loop: an entry is cut off, or it is stored. -/
lemma unflattenFrom_succ (buffer : Memory) (size n byteOffset : ℕ) :
    (records buffer size (n + 1) byteOffset = ([], true) ∧
      ∀ c, unflattenFrom buffer size (n + 1) byteOffset c = .ok (ended true c)) ∨
    ∃ key value offset,
      records buffer size (n + 1) byteOffset =
        ((key.length, value.length) :: (records buffer size n offset).1,
          (records buffer size n offset).2) ∧
      ∀ c, unflattenFrom buffer size (n + 1) byteOffset c =
        c.set key value >>= unflattenFrom buffer size n offset := by
  by_cases hheader : size < toUInt32 (byteOffset + sizeofEntryHeader)
  · exact Or.inl ⟨by simp [records, hheader], fun c => by simp [unflattenFrom, hheader, ended]⟩
  by_cases hentry : size < toUInt32 (byteOffset + entrySize buffer byteOffset)
  · exact Or.inl ⟨by simp [records, hentry],
      fun c => by simp [unflattenFrom, hentry, ended]⟩
  · refine Or.inr ⟨keyAt buffer byteOffset, valueAt buffer byteOffset,
      toUInt32 (byteOffset + align4 (entrySize buffer byteOffset)), ?_, fun c => ?_⟩
    · rw [records, if_neg (not_or.mpr ⟨hheader, hentry⟩), keyAt, valueAt, Memory.length_slice,
        Memory.length_slice]
    · rw [unflattenFrom, if_neg hheader, if_neg hentry]

/-- The loop of `unflatten` does not change how wrong the total is, until it clears the entries. -/
lemma Accounted.unflattenFrom : ∀ {n byteOffset : ℕ} {c c' : BlobCache} {status : Status},
    c.Accounted d → unflattenFrom buffer size n byteOffset c = .ok (status, c') →
      ∃ c1 cut, Later d c c1 ∧ (status, c') = ended cut c1 := by
  intro n
  induction n with
  | zero =>
    intro byteOffset c c' status h hrun
    cases hrun
    exact ⟨c, false, ⟨h, rfl⟩, rfl⟩
  | succ n ih =>
    intro byteOffset c c' status h hrun
    rcases unflattenFrom_succ buffer size n byteOffset with ⟨-, hcut⟩ | ⟨key, value, offset, -, hstep⟩
    · rw [hcut] at hrun
      cases hrun
      exact ⟨c, true, ⟨h, rfl⟩, rfl⟩
    · rw [hstep] at hrun
      cases hset : c.set key value with
      | error f =>
        rw [hset] at hrun
        cases hrun
      | ok c1 =>
        rw [hset] at hrun
        obtain ⟨c2, cut, hlater, hended⟩ := ih (h.set hset).accounted hrun
        exact ⟨c2, cut, (h.set hset).trans hlater, hended⟩

/-- The loop of `unflatten` when the total is right. -/
lemma Accounted.unflattenFrom_returns : ∀ {n : ℕ} (byteOffset : ℕ) {c : BlobCache}, c.Accounted 0 →
    BlobCache.unflattenFrom buffer size n byteOffset c = .error .noMemory ∨
      ∃ c1, Later 0 c c1 ∧
        (c1.mCacheEntries = [] ↔ c.mCacheEntries = [] ∧
          ∀ r ∈ (records buffer size n byteOffset).1, ¬c.Cacheable r.1 r.2) ∧
        BlobCache.unflattenFrom buffer size n byteOffset c =
          .ok (ended (records buffer size n byteOffset).2 c1) := by
  intro n
  induction n with
  | zero =>
    intro byteOffset c h
    exact Or.inr ⟨c, ⟨h, rfl⟩, by simp [records], rfl⟩
  | succ n ih =>
    intro byteOffset c h
    rcases unflattenFrom_succ buffer size n byteOffset with
      ⟨hrecords, hcut⟩ | ⟨key, value, offset, hrecords, hstep⟩
    · exact Or.inr ⟨c, ⟨h, rfl⟩, by simp [hrecords], by rw [hcut, hrecords]⟩
    · rw [hstep, hrecords]
      rcases h.set_returns key value with hset | ⟨c1, hset, hsame, hstored⟩
      · exact Or.inl (by rw [hset]; rfl)
      have hlater := h.set hset
      have hempty : c1.mCacheEntries = [] ↔
          c.mCacheEntries = [] ∧ ¬c.Cacheable key.length value.length := by
        by_cases hcacheable : c.Cacheable key.length value.length
        · simp [hcacheable, hstored hcacheable]
        · simp [hcacheable, hsame hcacheable]
      rw [hset]
      rcases ih offset hlater.accounted with herror | ⟨c2, hlater2, hempty2, hrun⟩
      · exact Or.inl herror
      · refine Or.inr ⟨c2, hlater.trans hlater2, ?_, hrun⟩
        simp [hempty2, hempty, cacheable_congr hlater.limits, and_assoc]

lemma unflatten_of_header (h : HeaderOk buffer size count) (c : BlobCache) :
    c.unflatten buffer size count =
      unflattenFrom buffer size (field buffer 12) (align4 sizeofHeader) c.clearEntries := by
  obtain ⟨hcount, hsize, hmagic, hversion, hdevice⟩ := h
  simp [unflatten, hcount, hmagic, hversion, hdevice, not_lt.mpr hsize]

lemma unflatten_of_not_header (h : ¬HeaderOk buffer size count) (c : BlobCache) :
    ∃ status, c.unflatten buffer size count = .ok (status, c.clearEntries) := by
  simp only [unflatten]
  split_ifs with hcount hsize hmagic hversion
  all_goals first
    | exact ⟨_, rfl⟩
    | skip
  refine absurd ⟨not_not.mp hcount, not_lt.mp hsize, not_not.mp hmagic, ?_⟩ h
  exact ⟨not_not.mp (not_or.mp hversion).1, not_not.mp (not_or.mp hversion).2⟩

/-! ## Which calls keep the books -/

namespace Accounted

lemma accounts (h : c.Accounted 0) : c.Accounts := ⟨h.total, h.bounded⟩

lemma not_accounts (h : c.Accounted d) (hd : d ≠ 0) : ¬c.Accounts := by
  rintro ⟨htotal, -⟩
  have := h.total
  omega

lemma not_accounts_clearEntries (htotal : c.mTotalSize ≠ 0) : ¬c.clearEntries.Accounts :=
  fun haccounts => htotal haccounts.1

/-- Nothing is held when the total is zero. -/
lemma mTotalSize_eq_zero_iff (h : c.Accounted 0) : c.mTotalSize = 0 ↔ c.mCacheEntries = [] := by
  rw [h.total]
  constructor
  · intro hzero
    cases hentries : c.mCacheEntries with
    | nil => rfl
    | cons e entries =>
      have hkey := (h.cacheable e (by simp [hentries])).2.2.2.1
      rw [hentries, sizes_cons, CacheEntry.size] at hzero
      omega
  · intro hnil
    rw [hnil, sizes_nil]

/-- The total is too large by itself once the entries are cleared. -/
lemma clearEntries (h : c.Accounted 0) (hexact : c.mTotalSize = 0 ∨ c.mMaxTotalSize < 2 ^ 31) :
    c.clearEntries.Accounted c.mTotalSize where
  total := (zero_add _).symm
  bounded := h.bounded
  exact := hexact
  increasing := List.Pairwise.nil
  cacheable := fun e he => absurd he List.not_mem_nil
  memory := by simp [memory_eq, BlobCache.clearEntries]

/-- An `unflatten` into an empty cache, that is not cut short behind an entry. -/
lemma unflatten_cases (h : c.Accounted 0) (htotal : c.mTotalSize = 0)
    (hcut : ¬c.CutShort buffer size count) :
    c.unflatten buffer size count = .error .noMemory ∨
      ∃ status c', c.unflatten buffer size count = .ok (status, c') ∧ Later 0 c c' ∧
        (status ≠ Status.ok → c'.Fresh) := by
  have hclear : c.clearEntries.Accounted 0 := by
    simpa only [htotal] using h.clearEntries (Or.inl htotal)
  by_cases hheader : HeaderOk buffer size count
  · rw [unflatten_of_header hheader]
    rcases hclear.unflattenFrom_returns (align4 sizeofHeader) with herror | ⟨c1, hlater, hempty, hrun⟩
    · exact Or.inl herror
    · refine Or.inr ⟨_, _, hrun, ?_⟩
      cases hcutoff : (records buffer size (field buffer 12) (align4 sizeofHeader)).2 with
      | false => exact ⟨⟨hlater.accounted, hlater.limits⟩, fun hne => absurd rfl hne⟩
      | true =>
        have hnil : c1.mCacheEntries = [] := by
          refine hempty.mpr ⟨rfl, fun r hr hcacheable => hcut ⟨hheader, hcutoff, r, hr, ?_⟩⟩
          exact (cacheable_congr rfl).mp hcacheable
        have hzero := hlater.accounted.mTotalSize_eq_zero_iff.mpr hnil
        have hclear1 := hlater.accounted.clearEntries (Or.inl hzero)
        rw [hzero] at hclear1
        exact ⟨⟨hclear1, hlater.limits⟩, fun _ => ⟨hzero, rfl⟩⟩
  · obtain ⟨status, hrun⟩ := unflatten_of_not_header hheader c
    exact Or.inr ⟨status, _, hrun, ⟨hclear, rfl⟩, fun _ => ⟨htotal, rfl⟩⟩

/-- An `unflatten` that keeps the books. -/
lemma sound_unflatten (h : c.Accounted 0) (hmax : c.mMaxTotalSize < 2 ^ 31)
    (hkeeps : c.Keeps (.unflatten buffer size count)) : c.Sound (.unflatten buffer size count) := by
  obtain ⟨status, c', hrun, haccounts, -⟩ := hkeeps
  have hrun : c.unflatten buffer size count = .ok (status, c') := hrun
  have hclear := h.clearEntries (Or.inr hmax)
  by_cases hheader : HeaderOk buffer size count
  · rw [unflatten_of_header hheader] at hrun
    by_cases htotal : c.mTotalSize = 0
    · refine ⟨htotal, fun hcut => ?_⟩
      obtain ⟨-, hcutoff, r, hr, hcacheable⟩ := hcut
      rw [htotal] at hclear
      rcases hclear.unflattenFrom_returns (align4 sizeofHeader) with herror | ⟨c1, hlater, hempty,
        hrun'⟩
      · cases hrun.symm.trans herror
      · rw [hcutoff] at hrun'
        cases hrun.symm.trans hrun'
        refine not_accounts_clearEntries (fun hzero => ?_) haccounts
        exact (hempty.mp (hlater.accounted.mTotalSize_eq_zero_iff.mp hzero)).2 r hr hcacheable
    · obtain ⟨c1, cut, hlater, hended⟩ := hclear.unflattenFrom hrun
      cases cut with
      | false =>
        cases hended
        exact absurd haccounts (hlater.accounted.not_accounts htotal)
      | true =>
        cases hended
        have := hlater.accounted.total
        exact absurd haccounts (not_accounts_clearEntries (by omega))
  · obtain ⟨status', hrun'⟩ := unflatten_of_not_header hheader c
    cases hrun.symm.trans hrun'
    exact ⟨haccounts.1, fun hcut => hheader hcut.1⟩

/-- `get` finds its way around the entries. -/
lemma get_returns (h : c.Accounted d) (key : Blob) (valueSize : ℕ) :
    ∃ r, c.get key valueSize = .ok r := by
  rw [get]
  split_ifs with hlimit
  · exact ⟨_, rfl⟩
  · obtain ⟨lo, same, hi, -, ⟨-, hindex⟩ | ⟨value, -, hindex, hentry⟩⟩ := indexOf_spec h.increasing key
    · rw [hindex]
      exact ⟨(0, none), rfl⟩
    · have hpos : ¬lo.length < 0 := by omega
      simp only [hindex, need, bind, Except.bind, Int.toNat_natCast, hentry]
      exact ⟨_, rfl⟩

/-- **A sound call** runs out of memory, or keeps the books. -/
theorem call_cases (h : c.Accounted 0) {a : Call} (hsound : c.Sound a) :
    c.call a = .error .noMemory ∨
      ∃ status c', c.call a = .ok (status, c') ∧ Later 0 c c' ∧ (status ≠ Status.ok → c'.Fresh) := by
  cases a with
  | set key value =>
    rcases h.set_returns key value with hset | ⟨c', hset, -⟩
    · exact Or.inl (by rw [call, hset]; rfl)
    · refine Or.inr ⟨Status.ok, c', by rw [call, hset]; rfl, h.set hset, fun hne => absurd rfl hne⟩
  | get key valueSize =>
    obtain ⟨r, hget⟩ := h.get_returns key valueSize
    exact Or.inr ⟨Status.ok, c, by rw [call, hget]; rfl, ⟨h, rfl⟩, fun hne => absurd rfl hne⟩
  | unflatten buffer size count => exact h.unflatten_cases hsound.1 hsound.2

/-- A call that keeps the books is sound, if the limit leaves room for the sum of two totals. -/
theorem sound_of_keeps (h : c.Accounted 0) (hmax : c.mMaxTotalSize < 2 ^ 31) {a : Call}
    (hkeeps : c.Keeps a) : c.Sound a := by
  cases a with
  | set key value => trivial
  | get key valueSize => trivial
  | unflatten buffer size count => exact h.sound_unflatten hmax hkeeps

end Accounted

/-! ## Runs -/

/-- A sound call that returns. -/
def SoundStep (c : BlobCache) (a : Call) (c' : BlobCache) : Prop :=
  c.Sound a ∧ ∃ status, c.call a = .ok (status, c')

/-- **The books are right** in every run of sound calls, whatever the random numbers are; and the
next call keeps them right, unless memory runs out, if it is sound, and (with a limit below `2 ^ 31`)
only then. -/
theorem books_kept {maxKeySize maxValueSize maxTotalSize : ℕ} {rand : ℕ → ℕ} {calls : List Call}
    (hrun : Runs SoundStep (create maxKeySize maxValueSize maxTotalSize rand) calls c) :
    c.Accounts ∧ ∀ a, c.call a ≠ .error .noMemory →
      (c.Sound a → c.Keeps a) ∧ (maxTotalSize < 2 ^ 31 → c.Keeps a → c.Sound a) := by
  have hlater : Later 0 (create maxKeySize maxValueSize maxTotalSize rand) c :=
    hrun.invariant ⟨accounted_create .., rfl⟩ fun hlater hstep => by
      obtain ⟨hsound, status, hcall⟩ := hstep
      rcases hlater.accounted.call_cases hsound with herror | ⟨status', c', hcall', hlater', -⟩
      · cases hcall.symm.trans herror
      · cases hcall.symm.trans hcall'
        exact hlater.trans hlater'
  refine ⟨hlater.accounted.accounts, fun a hmemory => ⟨fun hsound => ?_, fun hmax hkeeps => ?_⟩⟩
  · rcases hlater.accounted.call_cases hsound with herror | ⟨status, c', hcall, hlater', hfresh⟩
    · exact absurd herror hmemory
    · exact ⟨status, c', hcall, hlater'.accounted.accounts, hfresh⟩
  · exact hlater.accounted.sound_of_keeps ((mMaxTotalSize_eq hlater.limits).trans_lt hmax) hkeeps

/-! ## Instances -/

/-- Make a call, if it is sound. -/
def next (c : BlobCache) (a : Call) : Option (Call × BlobCache) :=
  if c.Sound a then
    match c.call a with
    | .error _ => none
    | .ok r => some (a, r.2)
  else none

lemma soundStep_of_next (c : BlobCache) (a a' : Call) (c' : BlobCache)
    (h : c.next a = some (a', c')) : SoundStep c a' c' := by
  rw [next] at h
  split_ifs at h with hsound
  cases hcall : c.call a with
  | error f =>
    rw [hcall] at h
    cases h
  | ok r =>
    rw [hcall] at h
    cases h
    exact ⟨hsound, r.1, hcall⟩

/-- A buffer with one entry, the key `1` and the value `2, 3`, that announces `numEntries`. -/
def serialized (numEntries : ℕ) : Memory := fun i =>
  (headerBytes numEntries ++ entryBytes ⟨[1], [2, 3]⟩).getD i 0

/-- A cache is filled from a buffer, and a `set` makes room. -/
theorem books_kept_clean : ∃ calls c, Runs SoundStep (create 8 8 8 fun n => n) calls c ∧
    (c.mTotalSize = 8 ∧ c.mCacheEntries = [⟨[4], [1]⟩, ⟨[5], [1, 1, 1, 1, 1]⟩]) ∧ c.Accounts ∧
    c.Keeps (.get [5] 8) := by
  obtain ⟨calls, c, hrun, hfinal, hcall⟩ : ∃ calls c,
      Runs SoundStep (create 8 8 8 fun n => n) calls c ∧
      (c.mTotalSize = 8 ∧ c.mCacheEntries = [⟨[4], [1]⟩, ⟨[5], [1, 1, 1, 1, 1]⟩]) ∧
      (c.call (.get [5] 8)).isOk = true :=
    Runs.exists_of_execute soundStep_of_next
      [.unflatten (serialized 1) 27 0, .set [4] [1], .set [5] [1, 1, 1, 1, 1]] (by decide +kernel)
  have hbooks := books_kept hrun
  refine ⟨calls, c, hrun, hfinal, hbooks.1, (hbooks.2 _ fun herror => ?_).1 trivial⟩
  rw [herror] at hcall
  cases hcall

/-- The result of a computation, if it has one with a decidable property. -/
lemma exists_ok {α : Type} {x : Except Fault α} {P : α → Prop} [DecidablePred P]
    (h : x.toOption.any (fun a => P a) = true) : ∃ a, x = .ok a ∧ P a := by
  cases x with
  | error f => cases h
  | ok a => exact ⟨a, rfl, of_decide_eq_true h⟩

/-- The fault of a computation. -/
def fault? {α : Type} : Except Fault α → Option Fault
  | .error f => some f
  | .ok _ => none

lemma eq_error {α : Type} {x : Except Fault α} {f : Fault} (h : fault? x = some f) : x = .error f := by
  cases x with
  | error f' => cases h; rfl
  | ok a => cases h

/-- **The books go wrong**: after an `unflatten` that fails on a cache that is not empty, and in a
buffer that is cut short; and then `set` takes a random number modulo zero. -/
theorem books_lost :
    (∃ c status c', (create 8 8 8 fun n => n).set [1] [1, 1, 1, 1, 1] = .ok c ∧
      c.unflatten (serialized 1) 0 0 = .ok (status, c') ∧ status ≠ Status.ok ∧
      c'.mTotalSize = 6 ∧ c'.mCacheEntries = [] ∧ ¬c'.Accounts ∧ ¬c'.Fresh ∧
      c'.set [2] [1, 1, 1] = .error .divideByZero) ∧
    (∃ status c', (create 8 8 8 fun n => n).unflatten (serialized 2) 27 0 = .ok (status, c') ∧
      status ≠ Status.ok ∧ c'.mTotalSize = 3 ∧ c'.mCacheEntries = [] ∧ ¬c'.Accounts ∧ ¬c'.Fresh) := by
  constructor
  · obtain ⟨c, hset, hunflatten⟩ := exists_ok (x := (create 8 8 8 fun n => n).set [1] [1, 1, 1, 1, 1])
      (P := fun c => (c.unflatten (serialized 1) 0 0).toOption.any (fun r =>
        r.1 ≠ Status.ok ∧ r.2.mTotalSize = 6 ∧ r.2.mCacheEntries = [] ∧ ¬r.2.Accounts ∧ ¬r.2.Fresh ∧
          fault? (r.2.set [2] [1, 1, 1]) = some .divideByZero) = true) (by decide +kernel)
    obtain ⟨⟨status, c'⟩, hrun, hok, htotal, hnil, haccounts, hfresh, hfault⟩ := exists_ok hunflatten
    exact ⟨c, status, c', hset, hrun, hok, htotal, hnil, haccounts, hfresh, eq_error hfault⟩
  · obtain ⟨⟨status, c'⟩, hrun, h⟩ := exists_ok
      (x := (create 8 8 8 fun n => n).unflatten (serialized 2) 27 0)
      (P := fun r => r.1 ≠ Status.ok ∧ r.2.mTotalSize = 3 ∧ r.2.mCacheEntries = [] ∧
        ¬r.2.Accounts ∧ ¬r.2.Fresh) (by decide +kernel)
    exact ⟨status, c', hrun, h⟩

end BlobCache

end Droid
