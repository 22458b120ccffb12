import DroidPlatform.Hashtable.Lemmas.Changes

/-!
# Searching and iterating

`find` walks the chain of a hash.  On a well-placed array no entry with that hash lies behind a
bucket without the collision flag, so the walk may stop at the first such bucket; and as long as
some bucket is neither present nor marked it does stop, before it has gone round.

Hence `find`, called again on its own answers, enumerates the matches along the chain
(`find_enumerates`), and `next` does the same in index order (`next_enumerates`).
-/

namespace Droid

open List Option Bucket

namespace BasicHashtable

variable {E K : Type} {key : E → K} {hash : K → UInt32} {t : BasicHashtable E}
  {bs : List (Bucket E)}

/-! ## Iteration -/

/-- The bucket at an index is present. -/
def presentAt (bs : List (Bucket E)) (i : ℕ) : Bool := bs[i]?.any Bucket.present

lemma presentAt_eq {i : ℕ} {b : Bucket E} (hb : bs[i]? = some b) : presentAt bs i = b.present := by
  rw [presentAt, hb, any_some]

lemma nextFrom_eq {count fuel : ℕ} (hlen : bs.length = count) : ∀ {i : ℕ}, count - i < fuel →
    nextFrom bs count fuel i = .ok (answer id (matchesFrom (presentAt bs) count i)) := by
  induction fuel with
  | zero =>
    omega
  | succ fuel ih =>
    intro i hi
    rw [nextFrom]
    by_cases hlt : i < count
    · have hb : bs[i]? = some bs[i] := getElem?_eq_getElem (hlen.symm ▸ hlt)
      rw [if_pos hlt, bucketAt_eq_ok hb]
      cases hp : bs[i].present with
      | true =>
        rw [matchesFrom_of_match hlt ((presentAt_eq hb).trans hp)]
        exact if_pos hp
      | false =>
        rw [matchesFrom_of_not ((presentAt_eq hb).trans hp), ← ih (by omega)]
        exact if_neg (by simp [hp])
    · rw [if_neg hlt, matchesFrom_eq_nil fun k hk hk' => absurd hk' (by omega)]
      rfl

/-- **`next`**, called again on its own answers, enumerates the present buckets in index order. -/
theorem next_enumerates (h : Consistent key hash t) (hbs : t.mBuckets = some bs)
    (hsize : t.mSize ≠ 0) :
    Enumerates t.next (-1) ((matchesFrom (presentAt bs) bs.length 0).map id) := by
  have hlen := (h.array bs hbs).length
  have hnext : ∀ j : ℤ, t.next j = .ok (answer id
      (matchesFrom (presentAt bs) bs.length (j + 1).toNat)) := by
    intro j
    simp only [next, if_pos hsize, buckets, hbs, bind, Except.bind]
    rw [nextFrom_eq hlen (by omega), hlen]
  refine Enumerates.of_walk (fun j _ _ => ?_) (hnext (-1))
  exact hnext j

/-! ## Search -/

variable [DecidableEq K]

/-- The bucket holds an entry with key `k` under the hash `h`. -/
def Matches (key : E → K) (h : UInt32) (k : K) (b : Bucket E) : Bool :=
  b.present && (b.hash = h) && compareBucketKey key b k

/-- The same for the bucket at a position of the chain. -/
def matchesAt (key : E → K) (h : UInt32) (k : K) (bs : List (Bucket E)) (j : ℕ) : Bool :=
  bs[chain bs.length h j]?.any (Matches key h k)

section Chain

variable {h : UInt32} {k : K} {j : ℕ} {b : Bucket E}

lemma matchesAt_eq (hb : bs[chain bs.length h j]? = some b) :
    matchesAt key h k bs j = Matches key h k b := by
  rw [matchesAt, hb, any_some]

lemma exists_of_matchesAt (hmatch : matchesAt key h k bs j = true) :
    ∃ b, bs[chain bs.length h j]? = some b ∧ b.present = true ∧ b.hash = h ∧
      compareBucketKey key b k = true := by
  cases hb : bs[chain bs.length h j]? with
  | none => simp [matchesAt, hb] at hmatch
  | some b =>
    rw [matchesAt_eq hb] at hmatch
    simp only [Matches, Bool.and_eq_true, decide_eq_true_eq, and_assoc] at hmatch
    exact ⟨b, rfl, hmatch⟩

section

variable (hcount : bs.length ∈ primes) (hw : WellPlaced key hash bs)

include hcount hw

/-- Everything before a match is marked. -/
lemma collides_of_matchesAt {m : ℕ} (hm : m < bs.length) (hmatch : matchesAt key h k bs m = true)
    (hj : j < m) : Collides bs (chain bs.length h j) := by
  obtain ⟨b, hb, hp, hh, -⟩ := exists_of_matchesAt hmatch
  obtain ⟨m', hm', heq, hall⟩ := hw.reaches _ b hb hp
  rw [hh] at heq hall
  rw [chain_injective hcount h hm' hm heq] at hall
  exact hall j hj

/-- There is no match behind a bucket without the collision flag. -/
lemma matchesFrom_eq_nil_of_clear (hb : bs[chain bs.length h j]? = some b)
    (hc : b.collision = false) (hj : matchesAt key h k bs j = false) :
    matchesFrom (matchesAt key h k bs) bs.length j = [] := by
  refine matchesFrom_eq_nil fun m hm hlt => ?_
  rcases hm.lt_or_eq with hm | rfl
  · by_contra hmatch
    obtain ⟨c, hc', hcc⟩ := collides_of_matchesAt hcount hw hlt (by simpa using hmatch) hm
    cases hb.symm.trans hc'
    rw [hc] at hcc
    cases hcc
  · exact hj

/-- The search loop behind position `j`, with a bucket at position `z > j` to stop it. -/
lemma findFrom_eq {z : ℕ} {c : Bucket E} (hz : z < bs.length)
    (hc : bs[chain bs.length h z]? = some c) (hclear : c.filled = false) {fuel : ℕ} :
    ∀ {j : ℕ}, j < z → z ≤ fuel + j →
      findFrom key bs bs.length h k fuel (chain bs.length h j) =
        .ok (answer (chain bs.length h) (matchesFrom (matchesAt key h k bs) bs.length (j + 1))) := by
  induction fuel with
  | zero =>
    omega
  | succ fuel ih =>
    intro j hj hfuel
    have hlt : chain bs.length h (j + 1) < bs.length := chain_lt hcount h (j + 1)
    obtain ⟨b, hb⟩ : ∃ b, bs[chain bs.length h (j + 1)]? = some b :=
      ⟨_, getElem?_eq_getElem hlt⟩
    rw [findFrom, chainSeek_chain hcount, bucketAt_eq_ok hb]
    cases hmatch : Matches key h k b with
    | true =>
      rw [matchesFrom_of_match (by omega) ((matchesAt_eq hb).trans hmatch)]
      simp only [Matches, Bool.and_eq_true, decide_eq_true_eq] at hmatch
      exact if_pos ⟨hmatch.1.1, hmatch.1.2, hmatch.2⟩
    | false =>
      have htest : ¬(b.present = true ∧ b.hash = h ∧ compareBucketKey key b k = true) := by
        rintro ⟨h1, h2, h3⟩
        simp [Matches, h1, h2, h3] at hmatch
      have hnot := (matchesAt_eq hb).trans hmatch
      cases hcol : b.collision with
      | false =>
        rw [matchesFrom_eq_nil_of_clear hcount hw hb hcol hnot]
        exact (if_neg htest).trans (if_pos (by simp [hcol]))
      | true =>
        -- a marked bucket is not the one that stops the search
        have hne : j + 1 ≠ z := by
          rintro rfl
          cases hb.symm.trans hc
          simp [filled, hcol] at hclear
        rw [matchesFrom_of_not hnot, ← ih (by omega) (by omega)]
        exact (if_neg htest).trans (if_neg (by simp [hcol]))

end

end Chain

/-- A bucket that is neither present nor marked, on the chain of any hash. -/
lemma exists_clear (hcount : bs.length ∈ primes) (hfilled : filledIn bs < bs.length) (h : UInt32) :
    ∃ z < bs.length, ∃ c, bs[chain bs.length h z]? = some c ∧ c.filled = false := by
  obtain ⟨i, c, hc, hclear⟩ := exists_of_countP_lt hfilled
  obtain ⟨z, hz, rfl⟩ := exists_chain_eq hcount h (List.getElem?_eq_some_iff.mp hc).1
  exact ⟨z, hz, c, hc, hclear⟩

/-- A present bucket whose key is `k` matches. -/
lemma matches_of_compare (hw : WellPlaced key hash bs) {b : Bucket E} {k : K} (hb : b ∈ bs)
    (hp : b.present = true) (hk : compareBucketKey key b k = true) :
    Matches key (trimHash (hash k)) k b = true := by
  obtain ⟨e, he, hh⟩ := hw.stores b hb hp
  have hkey : key e = k := by simpa [compareBucketKey, he] using hk
  simp [Matches, hp, hk, hh, hkey]

/-- **`find`**, called again on its own answers, enumerates the matches along the chain. -/
theorem find_enumerates (h : Sound key hash t) (hbs : t.mBuckets = some bs) (hsize : t.mSize ≠ 0)
    (k : K) : Enumerates (fun i => t.find key i (hash k) k) (-1)
      ((matchesFrom (matchesAt key (trimHash (hash k)) k bs) bs.length 0).map
        (chain bs.length (trimHash (hash k)))) := by
  have hd := h.array bs hbs
  have hcount : bs.length ∈ primes := hd.length ▸ h.count
  have hfilled : filledIn bs < bs.length := by
    rw [← hd.filled, hd.length]
    exact h.filled_lt
  obtain ⟨z, hz, c, hc, hclear⟩ := exists_clear hcount hfilled (trimHash (hash k))
  have hloop := fun {j : ℕ} (hj : j < z) =>
    findFrom_eq (k := k) hcount hd.placed hz hc hclear hj (Nat.le_add_right_of_le hz.le)
  have hne : ∀ {j : ℕ} {b : Bucket E}, bs[chain bs.length (trimHash (hash k)) j]? = some b →
      b.filled = true → j ≠ z := by
    rintro j b hb hb' rfl
    cases hb.symm.trans hc
    rw [hclear] at hb'
    cases hb'
  refine Enumerates.of_walk (fun j hj hmatch => ?_) ?_
  · -- behind a match, which is not where the search has to stop
    obtain ⟨b, hb, hp, -, -⟩ := exists_of_matchesAt hmatch
    have hjz : j < z := by
      rcases lt_trichotomy j z with hlt | heq | hgt
      · exact hlt
      · exact absurd heq (hne hb (by simp [filled, hp]))
      · obtain ⟨c', hc', hcc⟩ := collides_of_matchesAt hcount hd.placed hj hmatch hgt
        exact absurd rfl (hne hc' (by simp [filled, hcc]))
    rw [← hloop hjz]
    simp [find, hsize, buckets, hbs, bind, Except.bind, ← hd.length]
  · obtain ⟨b, hb⟩ : ∃ b, bs[chain bs.length (trimHash (hash k)) 0]? = some b :=
      ⟨_, getElem?_eq_getElem (chain_lt hcount (trimHash (hash k)) 0)⟩
    have hfind : t.find key (-1) (hash k) k =
        (if b.present then
          if compareBucketKey key b k then .ok (chain bs.length (trimHash (hash k)) 0)
          else findFrom key bs bs.length (trimHash (hash k)) k bs.length
            (chain bs.length (trimHash (hash k)) 0)
        else if ¬b.collision then .ok (-1)
        else findFrom key bs bs.length (trimHash (hash k)) k bs.length
          (chain bs.length (trimHash (hash k)) 0)) := by
      have hb' := bucketAt_eq_ok hb
      rw [chain_zero hcount] at hb' ⊢
      simp only [find, hsize, buckets, hbs, ← hd.length, hb', bind, Except.bind]
      rfl
    rw [hfind]
    cases hp : b.present with
    | true =>
      cases hk : compareBucketKey key b k with
      | true =>
        have hmatch := matches_of_compare hd.placed (mem_of_getElem? hb) hp hk
        rw [matchesFrom_of_match (by omega) ((matchesAt_eq hb).trans hmatch)]
        rfl
      | false =>
        have hnot : Matches key (trimHash (hash k)) k b = false := by simp [Matches, hk]
        have hz' := hne hb (by simp [filled, hp])
        rw [matchesFrom_of_not ((matchesAt_eq hb).trans hnot)]
        exact hloop (by omega)
    | false =>
      have hnot : Matches key (trimHash (hash k)) k b = false := by simp [Matches, hp]
      cases hcol : b.collision with
      | false =>
        rw [matchesFrom_eq_nil_of_clear hcount hd.placed hb hcol ((matchesAt_eq hb).trans hnot)]
        rfl
      | true =>
        have hz' := hne hb (by simp [filled, hcol])
        rw [matchesFrom_of_not ((matchesAt_eq hb).trans hnot)]
        exact hloop (by omega)

/-! ## What was enumerated -/

omit [DecidableEq K] in
lemma entries_eq_filterMap (t : BasicHashtable E) :
    t.entries = (range (t.mBuckets.getD []).length).filterMap t.entryAt := by
  have hat : t.entryAt = fun i => (t.mBuckets.getD [])[i]?.bind live := by
    funext i
    cases hbs : t.mBuckets with
    | none | some bs => simp [entryAt, hbs]
  rw [entries, hat]
  generalize t.mBuckets.getD [] = bs
  induction bs using reverseRecOn with
  | nil => rfl
  | append_singleton bs b ih =>
    have hbefore : ∀ i ∈ range bs.length,
        (bs ++ [b])[i]?.bind live = bs[i]?.bind live := by
      intro i hi
      rw [getElem?_append_left (mem_range.mp hi)]
    rw [length_append, length_singleton, range_succ, filterMap_append,
      filterMap_append, ih, filterMap_congr hbefore]
    simp [filterMap_cons]

omit [DecidableEq K] in
/-- Without repetition, the indices of the entries with a property list these entries. -/
lemma filterMap_entryAt_perm {P : E → Bool} {is : List ℕ} (hnodup : is.Nodup)
    (hmem : ∀ i, i ∈ is ↔ ∃ e, t.entryAt i = some e ∧ P e = true) :
    (is.filterMap t.entryAt).Perm (t.entries.filter P) := by
  have hperm : is.Perm ((range (t.mBuckets.getD []).length).filter
      fun i => (t.entryAt i).any P) := by
    refine (perm_ext_iff_of_nodup hnodup (nodup_range.filter _)).mpr fun i => ?_
    rw [hmem, mem_filter, mem_range]
    constructor
    · rintro ⟨e, he, hP⟩
      refine ⟨?_, by rw [he, any_some, hP]⟩
      obtain ⟨bs, hbs, hlive⟩ := bind_eq_some_iff.mp he
      obtain ⟨b, hb, -⟩ := bind_eq_some_iff.mp hlive
      rw [hbs]
      exact (List.getElem?_eq_some_iff.mp hb).1
    · rintro ⟨-, hany⟩
      exact (any_eq_true _ _).mp hany
  refine (hperm.filterMap t.entryAt).trans (.of_eq ?_)
  rw [entries_eq_filterMap t, filter_filterMap, filterMap_filter]
  refine filterMap_congr fun i _ => ?_
  cases t.entryAt i with
  | none => simp
  | some e => simp [Option.filter]

omit [DecidableEq K] in
lemma length_entries (h : Consistent key hash t) : t.entries.length = t.mSize := by
  cases hbs : t.mBuckets with
  | none =>
    rw [(h.null hbs).1, entries, hbs]
    rfl
  | some bs =>
    have hd := h.array bs hbs
    rw [hd.size, entries_eq hbs, length_filterMap_eq_countP]
    refine countP_congr fun b hb => ?_
    cases hp : b.present with
    | false => simp [live, hp]
    | true =>
      obtain ⟨e, he, -⟩ := hd.placed.stores b hb hp
      simp [live, hp, he]

omit [DecidableEq K] in
lemma entryAt_eq_none (h : Consistent key hash t) (hsize : t.mSize = 0) (i : ℕ) :
    t.entryAt i = none := by
  cases he : t.entryAt i with
  | none => rfl
  | some e =>
    have hlen := length_entries h
    rw [hsize, length_eq_zero_iff] at hlen
    obtain ⟨bs, hbs, hlive⟩ := bind_eq_some_iff.mp he
    obtain ⟨b, hb, hlive⟩ := bind_eq_some_iff.mp hlive
    have hmem : e ∈ bs.filterMap live :=
      mem_filterMap.mpr ⟨b, mem_of_getElem? hb, hlive⟩
    rw [← entries_eq hbs, hlen] at hmem
    cases hmem

/-- The indices in which `find` and `next` find an entry are listed once. -/
structure Lists (t : BasicHashtable E) (P : E → Prop) (is : List ℕ) : Prop where
  nodup : is.Nodup
  mem : ∀ i, i ∈ is ↔ ∃ e, t.entryAt i = some e ∧ P e

/-- `find` lists the entries with a key. -/
theorem find_lists (h : Sound key hash t) (k : K) :
    ∃ is, Enumerates (fun i => t.find key i (hash k) k) (-1) is ∧
      Lists t (fun e => key e = k) is := by
  by_cases hsize : t.mSize = 0
  · refine ⟨[], if_pos hsize, nodup_nil, fun i => ?_⟩
    simp [entryAt_eq_none h.toConsistent hsize]
  · cases hbs : t.mBuckets with
    | none => exact absurd (h.null hbs).1 hsize
    | some bs =>
      have hd := h.array bs hbs
      have hcount : bs.length ∈ primes := hd.length ▸ h.count
      refine ⟨_, find_enumerates h hbs hsize k, ?_, fun i => ?_⟩
      · refine List.Nodup.map_on (fun i hi j hj heq => ?_) ((sorted_matchesFrom _ _ _).imp ne_of_lt)
        exact chain_injective hcount _ (mem_matchesFrom.mp hi).2.1 (mem_matchesFrom.mp hj).2.1 heq
      · rw [List.mem_map, entryAt_eq hbs]
        constructor
        · rintro ⟨j, hj, rfl⟩
          obtain ⟨b, hb, hp, -, hk⟩ := exists_of_matchesAt (mem_matchesFrom.mp hj).2.2
          obtain ⟨e, he, -⟩ := hd.placed.stores b (mem_of_getElem? hb) hp
          exact ⟨e, by simp [hb, live, hp, he], by simpa [compareBucketKey, he] using hk⟩
        · rintro ⟨e, he, hk⟩
          obtain ⟨b, hb, hp, hentry⟩ := exists_of_entryAt he
          obtain ⟨j, hj, rfl⟩ := exists_chain_eq hcount (trimHash (hash k))
            (List.getElem?_eq_some_iff.mp hb).1
          have hmatch := matches_of_compare hd.placed (mem_of_getElem? hb) hp
            (show compareBucketKey key b k = true by simp [compareBucketKey, hentry, hk])
          exact ⟨j, mem_matchesFrom.mpr ⟨Nat.zero_le _, hj, (matchesAt_eq hb).trans hmatch⟩, rfl⟩

omit [DecidableEq K] in
/-- `next` lists all entries, in index order. -/
theorem next_lists (h : Consistent key hash t) :
    ∃ is, Enumerates t.next (-1) is ∧ is.Pairwise (· < ·) ∧ Lists t (fun _ => True) is := by
  by_cases hsize : t.mSize = 0
  · refine ⟨[], if_neg (not_not.mpr hsize), List.Pairwise.nil, nodup_nil, fun i => ?_⟩
    simp [entryAt_eq_none h hsize]
  · cases hbs : t.mBuckets with
    | none => exact absurd (h.null hbs).1 hsize
    | some bs =>
      have hd := h.array bs hbs
      have hsorted := sorted_matchesFrom (presentAt bs) bs.length 0
      refine ⟨_, next_enumerates h hbs hsize, ?_, ?_, fun i => ?_⟩
      · rw [List.map_id]
        exact hsorted
      · rw [List.map_id]
        exact hsorted.imp ne_of_lt
      · rw [List.map_id, mem_matchesFrom, entryAt_eq hbs]
        constructor
        · rintro ⟨-, hlt, hp⟩
          have hb : bs[i]? = some bs[i] := getElem?_eq_getElem hlt
          rw [presentAt_eq hb] at hp
          obtain ⟨e, he, -⟩ := hd.placed.stores _ (mem_of_getElem? hb) hp
          exact ⟨e, by simp [hb, live, hp, he], trivial⟩
        · rintro ⟨e, he, -⟩
          obtain ⟨b, hb, hp, -⟩ := exists_of_entryAt he
          exact ⟨Nat.zero_le _, (List.getElem?_eq_some_iff.mp hb).1, (presentAt_eq hb).trans hp⟩

end BasicHashtable

end Droid
