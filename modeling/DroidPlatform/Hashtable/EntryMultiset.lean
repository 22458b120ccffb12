import DroidPlatform.Core.Trace
import DroidPlatform.Hashtable.Lemmas.Search

/-!
# The table is a multiset

A run of a table is any sequence of `add`, `removeAt` and `editEntryAt` of live entries, and
`rehash`, none of which faults.  Every entry is added under the hash of its key.  The state of a run
carries next to the table the multiset of its live entries; the table does not see it.

`IsMultiset` says that the table behaves like that multiset.  It holds in every run in which each
explicit `rehash` picks more buckets than there are live entries (`Roomy`); the `rehash` inside
`add` always does.

**Single precision.**  In exact arithmetic `determineCapacity` asks for one bucket more than the
capacity, so every `rehash` is roomy (`roomy_exact`).  A `float` has 24 significant bits:
26339969 live entries are converted to 26339968.0, the bucket more is lost again, and the next
larger prime is 26339969.  The rebuilt table has no free bucket, and a search for a key that every
entry has goes round forever (`exists_full_table`).
-/

namespace Droid

namespace BasicHashtable

variable {E K : Type} {key : E → K} {hash : K → UInt32} {fl : Rounding}

/-! ## Runs -/

structure TableState (E : Type) where
  table : BasicHashtable E
  live : Multiset E

inductive TableCall (E : Type) where
  | add (shared : Bool) (e : E)
  | removeAt (shared : Bool) (index : ℕ)
  | editEntryAt (shared : Bool) (index : ℕ) (e : E)
  | rehash (minimumCapacity : ℕ) (loadFactor : ℚ)

section Step

variable [DecidableEq E]

inductive Step (key : E → K) (hash : K → UInt32) (fl : Rounding) :
    TableState E → TableCall E → TableState E → Prop
  | add {s shared e t i} (h : s.table.add fl shared (hash (key e)) e = .ok (t, i)) :
      Step key hash fl s (.add shared e) ⟨t, e ::ₘ s.live⟩
  | removeAt {s shared i e t} (he : s.table.entryAt i = some e)
      (h : s.table.removeAt shared i = .ok t) :
      Step key hash fl s (.removeAt shared i) ⟨t, s.live.erase e⟩
  | editEntryAt {s shared i e e' t} (he : s.table.entryAt i = some e)
      (hhash : trimHash (hash (key e')) = trimHash (hash (key e)))
      (h : s.table.editEntryAt shared i e' = .ok t) :
      Step key hash fl s (.editEntryAt shared i e') ⟨t, e' ::ₘ s.live.erase e⟩
  | rehash {s m lf t} (h : s.table.rehash fl m lf = .ok t) :
      Step key hash fl s (.rehash m lf) ⟨t, s.live⟩

/-- A call that is not a `rehash` to fewer buckets than one more than the live entries. -/
def Roomy (fl : Rounding) (t : BasicHashtable E) : TableCall E → Prop
  | .rehash m lf => ∀ n c, determineCapacity fl (t.rehashMinimum m) lf = .ok (n, c) → t.mSize < n
  | _ => True

/-- A step whose call is roomy. -/
def RoomyStep (key : E → K) (hash : K → UInt32) (fl : Rounding) (s : TableState E)
    (call : TableCall E) (s' : TableState E) : Prop :=
  Step key hash fl s call s' ∧ Roomy fl s.table call

omit [DecidableEq E] in
/-- In exact arithmetic every `rehash` is roomy. -/
lemma roomy_exact (t : BasicHashtable E) (call : TableCall E) : Roomy .exact t call := by
  cases call with
  | rehash m lf =>
    intro n c hdet
    have hle := (t.size_le_rehashMinimum m).trans (le_capacity_exact hdet)
    exact hle.trans_lt (capacity_lt_count hdet)
  | _ => trivial

/-! ## The invariant -/

/-- The table is sound, and its entries are the live ones. -/
structure Tracks (key : E → K) (hash : K → UInt32) (s : TableState E) : Prop where
  sound : Sound key hash s.table
  entries : (s.table.entries : Multiset E) = s.live

namespace Tracks

variable {s s' : TableState E}

omit [DecidableEq E] in
lemma construct {bucketSize minimum : ℕ} {lf : ℚ} {t : BasicHashtable E}
    (h : construct fl bucketSize minimum lf = .ok t) : Tracks key hash ⟨t, 0⟩ := by
  obtain ⟨hsound, hentries⟩ : Sound key hash t ∧ t.entries = [] := construct_sound h
  refine ⟨hsound, ?_⟩
  rw [hentries]
  rfl

omit [DecidableEq E] in
lemma add (h : Tracks key hash s) {shared : Bool} {e : E} {t : BasicHashtable E} {i : ℕ}
    (hadd : s.table.add fl shared (hash (key e)) e = .ok (t, i)) :
    Tracks key hash ⟨t, e ::ₘ s.live⟩ ∧ (s.table.Tight → t.Tight) := by
  rcases add_spec h.sound fl shared e with ⟨t', i', hok, ha, htight⟩ | ⟨f, -, herr⟩
  · cases hadd.symm.trans hok
    refine ⟨⟨ha.sound, ?_⟩, htight⟩
    rw [← h.entries, Multiset.cons_coe, Multiset.coe_eq_coe]
    exact ha.entries
  · cases hadd.symm.trans herr

lemma removeAt (h : Tracks key hash s) {shared : Bool} {i : ℕ} {e : E} {t : BasicHashtable E}
    (he : s.table.entryAt i = some e) (hremove : s.table.removeAt shared i = .ok t) :
    Tracks key hash ⟨t, s.live.erase e⟩ ∧ (s.table.Tight → t.Tight) := by
  rcases removeAt_spec h.sound shared he with herr | ⟨t', hok, hsound, hperm, htight⟩
  · cases hremove.symm.trans herr
  · cases hremove.symm.trans hok
    refine ⟨⟨hsound, ?_⟩, htight⟩
    rw [← h.entries, Multiset.coe_eq_coe.mpr hperm, ← Multiset.cons_coe, Multiset.erase_cons_head]

lemma editEntryAt (h : Tracks key hash s) {shared : Bool} {i : ℕ} {e e' : E}
    {t : BasicHashtable E} (he : s.table.entryAt i = some e)
    (hhash : trimHash (hash (key e')) = trimHash (hash (key e)))
    (hedit : s.table.editEntryAt shared i e' = .ok t) :
    Tracks key hash ⟨t, e' ::ₘ s.live.erase e⟩ ∧ (s.table.Tight → t.Tight) := by
  rcases editEntryAt_spec h.sound shared he hhash with
    herr | ⟨t', hok, hsound, htight, rest, hperm, hperm'⟩
  · cases hedit.symm.trans herr
  · cases hedit.symm.trans hok
    refine ⟨⟨hsound, ?_⟩, htight⟩
    rw [← h.entries, Multiset.coe_eq_coe.mpr hperm, Multiset.coe_eq_coe.mpr hperm',
      ← Multiset.cons_coe, ← Multiset.cons_coe, Multiset.erase_cons_head]

omit [DecidableEq E] in
/-- A roomy `rehash` is not endless, and keeps the entries. -/
lemma rehash_cases (h : Tracks key hash s) {m : ℕ} {lf : ℚ}
    (hroomy : Roomy fl s.table (.rehash m lf)) :
    (∃ t, s.table.rehash fl m lf = .ok t ∧ Tracks key hash ⟨t, s.live⟩ ∧
      (fl = .exact → s.table.Tight → t.Tight)) ∨
    ∃ f, f ≠ .endless ∧ s.table.rehash fl m lf = .error f := by
  cases hdet : determineCapacity fl (s.table.rehashMinimum m) lf with
  | error f =>
    refine .inr ⟨f, ?_, rehash_error hdet⟩
    rw [determineCapacity_error hdet]
    exact fun hf => by cases hf
  | ok r =>
    have hroom := hroomy r.1 r.2 hdet
    rcases rehash_spec h.sound.toConsistent hdet hroom.le with ⟨-, herr⟩ | ⟨t, hok, hr⟩
    · exact .inr ⟨.noMemory, by simp, herr⟩
    · refine .inl ⟨t, hok, ⟨hr.sound h.sound hdet hroom, ?_⟩, ?_⟩
      · rw [← h.entries, Multiset.coe_eq_coe]
        exact hr.entries
      · rintro rfl htight
        rw [Tight, hr.capacity]
        rcases hr.filled with hfilled | ⟨-, hc, hfilled⟩
        · rw [hfilled]
          exact (size_le_rehashMinimum ..).trans (le_capacity_exact hdet)
        · rwa [hfilled, hc]

/-- **Every roomy call keeps the invariant.** -/
theorem step {call : TableCall E} (h : Tracks key hash s)
    (hstep : RoomyStep key hash fl s call s') :
    Tracks key hash s' ∧ (fl = .exact → s.table.Tight → s'.table.Tight) := by
  obtain ⟨hstep, hroomy⟩ := hstep
  cases hstep with
  | add hadd => exact (h.add hadd).imp_right fun htight _ => htight
  | removeAt he hremove => exact (h.removeAt he hremove).imp_right fun htight _ => htight
  | editEntryAt he hhash hedit =>
    exact (h.editEntryAt he hhash hedit).imp_right fun htight _ => htight
  | rehash hrehash =>
    rcases h.rehash_cases hroomy with ⟨t, hok, ht⟩ | ⟨f, -, herr⟩
    · cases hrehash.symm.trans hok
      exact ht
    · cases hrehash.symm.trans herr

end Tracks

end Step

/-! ## The result -/

/-- **The table behaves like the multiset of its live entries**: its size is their number, `find`
enumerates those with a given key, and `next` enumerates all in index order, each once. -/
structure IsMultiset [DecidableEq K] (key : E → K) (hash : K → UInt32) (s : TableState E) :
    Prop where
  size : s.table.mSize = Multiset.card s.live
  entries : (s.table.entries : Multiset E) = s.live
  find : ∀ k, ∃ is, Enumerates (fun i => s.table.find key i (hash k) k) (-1) is ∧
    Lists s.table (fun e => key e = k) is ∧
    (is.filterMap s.table.entryAt : Multiset E) = s.live.filter (fun e => key e = k)
  next : ∃ is, Enumerates s.table.next (-1) is ∧ is.Pairwise (· < ·) ∧
    Lists s.table (fun _ => True) is ∧ (is.filterMap s.table.entryAt : Multiset E) = s.live

lemma Tracks.isMultiset [DecidableEq K] {s : TableState E} (h : Tracks key hash s) :
    IsMultiset key hash s where
  size := by
    rw [← h.entries]
    exact (length_entries h.sound.toConsistent).symm
  entries := h.entries
  find k := by
    obtain ⟨is, henum, hlists⟩ := find_lists h.sound k
    refine ⟨is, henum, hlists, ?_⟩
    rw [← h.entries, Multiset.filter_coe, Multiset.coe_eq_coe]
    exact filterMap_entryAt_perm hlists.nodup fun i => by simp [hlists.mem i]
  next := by
    obtain ⟨is, henum, hsorted, hlists⟩ := next_lists h.sound.toConsistent
    refine ⟨is, henum, hsorted, hlists, ?_⟩
    have hperm : (is.filterMap s.table.entryAt).Perm (s.table.entries.filter fun _ => true) :=
      filterMap_entryAt_perm hlists.nodup fun i => by simp [hlists.mem i]
    rw [← h.entries, Multiset.coe_eq_coe]
    rwa [List.filter_true] at hperm

/-- **The table is a multiset.**  In every run from a constructed table whose calls are all roomy,
whatever the rounding of the `float`s: the table behaves like the multiset of its live entries, a
`rehash` keeps that multiset, and neither `add` nor a roomy `rehash` goes on forever. -/
theorem table_isMultiset [DecidableEq E] [DecidableEq K] {bucketSize minimum : ℕ} {lf : ℚ}
    {t : BasicHashtable E} {calls : List (TableCall E)} {s : TableState E}
    (hnew : construct fl bucketSize minimum lf = .ok t)
    (hrun : Runs (RoomyStep key hash fl) ⟨t, 0⟩ calls s) :
    IsMultiset key hash s ∧
    (∀ m lf t', Roomy fl s.table (.rehash m lf) → s.table.rehash fl m lf = .ok t' →
      IsMultiset key hash ⟨t', s.live⟩) ∧
    (∀ m lf, Roomy fl s.table (.rehash m lf) → s.table.rehash fl m lf ≠ .error .endless) ∧
    (∀ shared e, s.table.add fl shared (hash (key e)) e ≠ .error .endless) := by
  have h : Tracks key hash s := hrun.invariant (.construct hnew) fun h hstep => (h.step hstep).1
  refine ⟨h.isMultiset, ?_, ?_, ?_⟩
  · intro m lf t' hroomy hrehash
    exact (h.step ⟨.rehash hrehash, hroomy⟩).1.isMultiset
  · intro m lf hroomy hrehash
    rcases h.rehash_cases hroomy with ⟨t', hok, -⟩ | ⟨f, hne, herr⟩
    · cases hok.symm.trans hrehash
    · cases herr.symm.trans hrehash
      exact hne rfl
  · intro shared e hadd
    rcases add_spec h.sound fl shared e with ⟨t', i, hok, -⟩ | ⟨f, hne, herr⟩
    · cases hok.symm.trans hadd
    · cases herr.symm.trans hadd
      exact hne rfl

/-- Take a step of a run, if the call is a proper one. -/
def TableState.next [DecidableEq E] (key : E → K) (hash : K → UInt32) (fl : Rounding)
    (s : TableState E) : TableCall E → Option (TableCall E × TableState E)
  | .add shared e =>
    match s.table.add fl shared (hash (key e)) e with
    | .ok (t, _) => some (.add shared e, ⟨t, e ::ₘ s.live⟩)
    | .error _ => none
  | .removeAt shared i =>
    match s.table.entryAt i, s.table.removeAt shared i with
    | some e, .ok t => some (.removeAt shared i, ⟨t, s.live.erase e⟩)
    | _, _ => none
  | .editEntryAt shared i e' =>
    match s.table.entryAt i, s.table.editEntryAt shared i e' with
    | some e, .ok t =>
      if trimHash (hash (key e')) = trimHash (hash (key e)) then
        some (.editEntryAt shared i e', ⟨t, e' ::ₘ s.live.erase e⟩)
      else none
    | _, _ => none
  | .rehash m lf =>
    match determineCapacity fl (s.table.rehashMinimum m) lf, s.table.rehash fl m lf with
    | .ok (n, _), .ok t =>
      if s.table.mSize < n then some (.rehash m lf, ⟨t, s.live⟩) else none
    | _, _ => none

lemma TableState.roomyStep_of_next [DecidableEq E] (key : E → K) (hash : K → UInt32)
    (fl : Rounding) (s : TableState E) (call call' : TableCall E) (s' : TableState E)
    (h : s.next key hash fl call = some (call', s')) :
    RoomyStep key hash fl s call' s' := by
  cases call with
  | add shared e =>
    simp only [next] at h
    split at h
    · cases h
      exact ⟨.add ‹_›, trivial⟩
    · cases h
  | removeAt shared i =>
    simp only [next] at h
    split at h
    · cases h
      exact ⟨.removeAt ‹_› ‹_›, trivial⟩
    · cases h
  | editEntryAt shared i e' =>
    simp only [next] at h
    split at h
    · split_ifs at h with hhash
      cases h
      exact ⟨.editEntryAt ‹_› hhash ‹_›, trivial⟩
    · cases h
  | rehash m lf =>
    simp only [next] at h
    split at h
    · rename_i n c t hdet hrehash
      split_ifs at h with hroom
      cases h
      refine ⟨.rehash hrehash, fun n' c' hdet' => ?_⟩
      cases hdet.symm.trans hdet'
      exact hroom
    · cases h

/-- Numbers, with their remainder modulo 8 as the key: 3 and 11 share a chain, 3 is removed, 11
becomes 19 and the table moves to a larger array. -/
theorem table_isMultiset_remainders : ∃ t calls s,
    construct .single 8 0 (3 / 4) = .ok t ∧
    Runs (RoomyStep (fun n : ℕ => n % 8) UInt32.ofNat .single) ⟨t, 0⟩ calls s ∧
    (s.live = {4, 19, 27} ∧ s.table.mBucketCount = 47) ∧
    IsMultiset (fun n : ℕ => n % 8) UInt32.ofNat s := by
  have hnew : construct .single 8 0 (3 / 4) =
      .ok (⟨8, 3, 3 / 4, 0, 0, 5, none⟩ : BasicHashtable ℕ) := by
    have hdet : determineCapacity .single 0 (3 / 4) = .ok (5, 3) := by decide +kernel
    rw [construct, hdet]
    rfl
  obtain ⟨calls, s, hrun, hfinal⟩ : ∃ calls s,
      Runs (RoomyStep (fun n : ℕ => n % 8) UInt32.ofNat .single)
        ⟨⟨8, 3, 3 / 4, 0, 0, 5, none⟩, 0⟩ calls s ∧
      s.live = {4, 19, 27} ∧ s.table.mBucketCount = 47 :=
    Runs.exists_of_execute (TableState.roomyStep_of_next _ _ _)
      [.add false 3, .add false 11, .add true 4, .removeAt false 3, .add false 27,
        .editEntryAt true 4 19, .rehash 20 (1 / 2)] (by decide +kernel)
  exact ⟨_, calls, s, hnew, hrun, hfinal, (table_isMultiset hnew hrun).1⟩

/-! ## The full table -/

/-- `determineCapacity` with load factor 1. -/
lemma determineCapacity_one {m m' count n c : ℕ} (hm : fl.round m = m')
    (hcount : fl.round (m' + 1 : ℕ) = count) (hlt : count < 2 ^ 32)
    (hfind : primes.find? (fun p => ¬p < count) = some n) (hn : fl.round (n - 1 : ℕ) = c) :
    determineCapacity fl m 1 = .ok (n, c) := by
  have hidem : ∀ {a b : ℕ}, fl.round a = b → fl.round b = b := by
    intro a b hab
    rw [← hab]
    exact fl.idem _ (Nat.cast_nonneg _)
  have hcount' : fl.round (⌈fl.round (fl.round m / 1)⌉ + 1) = count := by
    rw [hm, div_one, hidem hm, Int.ceil_natCast, ← hcount]
    push_cast
    rfl
  have hlt' : ¬(2 : ℚ) ^ 32 ≤ count := not_le.mpr (by exact_mod_cast hlt)
  have hlf : ¬((1 : ℚ) ≤ 0 ∨ (1 : ℚ) < 1) := by norm_num
  simp only [determineCapacity, if_neg hlf, hcount', if_neg hlt', Nat.floor_natCast, hfind, mul_one,
    hn, hidem hn, Nat.ceil_natCast]

/-- A table for 52679968 entries. -/
lemma determineCapacity_large : determineCapacity .single 52679968 1 = .ok (52679969, 52679968) := by
  have hround : roundTo 24 52679968 = 52679968 :=
    roundTo_of_le_half (q := 13169992) (j := 2) (r := 0) (by norm_num) (by norm_num) (by norm_num)
      (by norm_num) (by norm_num)
  have hround' : roundTo 24 52679969 = 52679968 :=
    roundTo_of_le_half (q := 13169992) (j := 2) (r := 1) (by norm_num) (by norm_num) (by norm_num)
      (by norm_num) (by norm_num)
  exact determineCapacity_one hround hround' (by norm_num) (by decide) hround

/-- 26339969 entries get as many buckets. -/
lemma determineCapacity_full : determineCapacity .single 26339969 1 = .ok (26339969, 26339968) := by
  have hround : roundTo 24 26339968 = 26339968 :=
    roundTo_of_le_half (q := 13169984) (j := 1) (r := 0) (by norm_num) (by norm_num) (by norm_num)
      (by norm_num) (by norm_num)
  have hround' : roundTo 24 26339969 = 26339968 :=
    roundTo_of_le_half (q := 13169984) (j := 1) (r := 1) (by norm_num) (by norm_num) (by norm_num)
      (by norm_num) (by norm_num)
  exact determineCapacity_one hround' hround' (by norm_num) (by decide) hround

/-- The steps of a table whose entries are all the same. -/
abbrev UnitStep : TableState Unit → TableCall Unit → TableState Unit → Prop :=
  Step (id : Unit → Unit) (fun _ => 0) .single

/-- Adding entries to a table with room, one after the other. -/
lemma exists_filled {t : BasicHashtable Unit} (h : Sound (id : Unit → Unit) (fun _ => 0) t)
    (hsize : t.mSize = 0) (hfilled : t.mFilledBuckets = 0)
    (hmem : t.mBucketCount * t.mBucketSize + 16 < 2 ^ 32) :
    ∀ {m : ℕ}, m ≤ t.mCapacity → ∃ calls t',
      Runs UnitStep ⟨t, 0⟩ calls ⟨t', Multiset.replicate m ()⟩ ∧
      Sound (id : Unit → Unit) (fun _ => 0) t' ∧ t'.mSize = m ∧ t'.mFilledBuckets ≤ m ∧
      t'.mCapacity = t.mCapacity ∧ t'.mBucketCount = t.mBucketCount ∧
      t'.mBucketSize = t.mBucketSize := by
  intro m
  induction m with
  | zero =>
    intro _
    exact ⟨[], t, .nil, h, hsize, hfilled.le, rfl, rfl, rfl⟩
  | succ m ih =>
    intro hm
    obtain ⟨calls, t', hrun, h', hsize', hfilled', hcap, hcount, hbucket⟩ := ih (by omega)
    obtain ⟨t'', i, hadd, ha, hstays⟩ := add_of_room h' (by omega)
      (by rw [hcount, hbucket]; exact hmem) .single false ()
    refine ⟨calls ++ [.add false ()], t'', .snoc hrun ?_, ha.sound, ?_, ?_, ?_, ?_, ?_⟩
    · rw [Multiset.replicate_succ]
      exact .add hadd
    · rw [ha.size, hsize']
    · exact hstays.filled.trans (by omega)
    · exact hstays.capacity.trans hcap
    · exact hstays.count.trans hcount
    · exact ha.bucketSize.trans hbucket

/-- In a table without a free bucket whose entries are all the same, a search never ends. -/
lemma not_enumerates_of_full {t : BasicHashtable Unit} {bs : List (Bucket Unit)}
    (h : Consistent (id : Unit → Unit) (fun _ => 0) t) (hbs : t.mBuckets = some bs)
    (hfull : t.mSize = t.mBucketCount) (is : List ℕ) :
    ¬Enumerates (fun i => t.find (id : Unit → Unit) i 0 ()) (-1) is := by
  have hd := h.array bs hbs
  have hcount : bs.length ∈ primes := hd.length ▸ h.count
  have hlive : ∀ b ∈ bs, b.present = true ∧ b.hash = trimHash 0 ∧
      compareBucketKey id b () = true := by
    intro b hb
    have hp : b.present = true := by
      have hall : bs.countP Bucket.present = bs.length := by
        rw [hd.length, ← hfull]
        exact hd.size.symm
      exact List.countP_eq_length.mp hall b hb
    obtain ⟨e, he, hh⟩ := hd.placed.stores b hb hp
    exact ⟨hp, hh, by simp [compareBucketKey, he]⟩
  have hsize : t.mSize ≠ 0 := by
    rw [hfull]
    exact (count_pos h.count).ne'
  have hget : ∀ {i : ℕ}, i < bs.length → ∃ b, bs[i]? = some b ∧ b ∈ bs := by
    intro i hi
    exact ⟨_, List.getElem?_eq_getElem hi, List.getElem_mem hi⟩
  -- wherever the search is, it finds an entry
  have hfind : ∀ i : ℤ, ∃ j : ℕ, t.find id i 0 () = .ok j := by
    intro i
    by_cases hneg : i < 0
    · obtain ⟨b, hb, hmem⟩ := hget (Nat.mod_lt (trimHash 0).toNat (count_pos hcount))
      obtain ⟨hp, -, hk⟩ := hlive b hmem
      refine ⟨chainStart (trimHash 0) bs.length, ?_⟩
      have hb' := bucketAt_eq_ok hb
      simp only [find, hsize, buckets, hbs, bind, Except.bind, hneg, ← hd.length]
      rw [chainStart, hb']
      simp [hp, hk]
    · obtain ⟨b, hb, hmem⟩ := hget (Nat.mod_lt
        (toUInt32 (i.toNat + chainIncrement (trimHash 0) bs.length)) (count_pos hcount))
      refine ⟨chainSeek i.toNat (chainIncrement (trimHash 0) bs.length) bs.length, ?_⟩
      obtain ⟨c, hc⟩ := Nat.exists_eq_succ_of_ne_zero (count_pos hcount).ne'
      have hb' := bucketAt_eq_ok hb
      have hstep : findFrom id bs bs.length (trimHash 0) () bs.length i.toNat =
          .ok (chainSeek i.toNat (chainIncrement (trimHash 0) bs.length) bs.length) := by
        generalize hfuel : bs.length = fuel at hc ⊢
        rw [hc, findFrom, ← hc, ← hfuel, chainSeek, hb']
        exact if_pos (hlive b hmem)
      simp only [find, hsize, buckets, hbs, hneg, ← hd.length]
      exact hstep
  suffices hnever : ∀ is i,
      ¬Enumerates (fun i => t.find id i 0 ()) i is from hnever is (-1)
  intro is
  induction is with
  | nil =>
    intro i henum
    obtain ⟨j, hj⟩ := hfind i
    have hend : t.find id i 0 () = .ok (-1) := henum
    rw [hj, Except.ok.injEq] at hend
    omega
  | cons j is ih =>
    intro i henum
    exact ih j henum.2

/-- A table of 26339969 equal entries, rehashed with load factor 1, does not behave like the
multiset of its entries any more. -/
theorem exists_full_table : ∃ t calls s, construct .single 5 52679968 1 = .ok t ∧
    Runs UnitStep ⟨t, 0⟩ calls s ∧ ¬IsMultiset (id : Unit → Unit) (fun _ => 0) s := by
  obtain ⟨t0, hnew, hcapacity, hcount, hbucket0, hsize0, hfilled0⟩ :
      ∃ t : BasicHashtable Unit, construct .single 5 52679968 1 = .ok t ∧
        t.mCapacity = 52679968 ∧ t.mBucketCount = 52679969 ∧ t.mBucketSize = 5 ∧ t.mSize = 0 ∧
        t.mFilledBuckets = 0 := by
    refine ⟨⟨5, 52679968, 1, 0, 0, 52679969, none⟩, ?_, rfl, rfl, rfl, rfl, rfl⟩
    rw [construct, determineCapacity_large]
    rfl
  have hsound : Sound id (fun _ => 0) t0 := (construct_sound hnew).1
  obtain ⟨calls, t, hrun, h, hsize, -, -, -, hbucket⟩ :=
    exists_filled hsound hsize0 hfilled0 (by rw [hcount, hbucket0]; norm_num)
      (show 26339969 ≤ t0.mCapacity by omega)
  have hnull : t.mBuckets ≠ none := by
    intro hnull
    have := (h.null hnull).1
    omega
  have hdet : determineCapacity .single (t.rehashMinimum 0) 1 = .ok (26339969, 26339968) := by
    rw [rehashMinimum, hsize]
    exact determineCapacity_full
  rcases rehash_spec h.toConsistent hdet hsize.le with ⟨hmem, -⟩ | ⟨t', hok, hr⟩
  · rw [hbucket, hbucket0] at hmem
    norm_num at hmem
  · refine ⟨t0, _, _, hnew, .snoc hrun (.rehash hok), fun hmultiset => ?_⟩
    obtain ⟨bs, hbs⟩ := Option.ne_none_iff_exists'.mp (hr.nonnull hnull (by omega))
    obtain ⟨is, henum, -⟩ := hmultiset.find ()
    refine not_enumerates_of_full hr.consistent hbs ?_ is henum
    rw [hr.size, hr.count, hsize]

end BasicHashtable

end Droid
