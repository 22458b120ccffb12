import DroidPlatform.Hashtable.Lemmas.Buckets

/-!
# Well-placed bucket arrays

`WellPlaced` is the invariant of the bucket array.  This module shows that the chain walk of `add`
and `rehash` ends at a bucket where an entry is well placed (`seekChain_spec`), and that storing an
entry there, removing one, editing one, copying the array and rebuilding it all keep the invariant.
-/

namespace Droid

open List Bucket

namespace BasicHashtable

variable {E K : Type} {key : E → K} {hash : K → UInt32} {bs bs' : List (Bucket E)} {i : ℕ}
  {b : Bucket E} {h : UInt32} {count : ℕ} {e : E}

/-- The bucket at `i` carries the collision flag. -/
def Collides (bs : List (Bucket E)) (i : ℕ) : Prop := ∃ b, bs[i]? = some b ∧ b.collision = true

/-- The bucket `i` is on the chain of `h`, and all buckets before it are marked. -/
def Reaches (bs : List (Bucket E)) (h : UInt32) (i : ℕ) : Prop :=
  ∃ k < bs.length, chain bs.length h k = i ∧ ∀ j < k, Collides bs (chain bs.length h j)

/-- A present bucket holds an entry under the hash of its key. -/
def Stores (key : E → K) (hash : K → UInt32) (b : Bucket E) : Prop :=
  ∃ e, b.entry = some e ∧ b.hash = trimHash (hash (key e))

structure WellPlaced (key : E → K) (hash : K → UInt32) (bs : List (Bucket E)) : Prop where
  stores : ∀ b ∈ bs, b.present = true → Stores key hash b
  reaches : ∀ (i : ℕ) (b : Bucket E), bs[i]? = some b → b.present = true → Reaches bs b.hash i

/-- An array in which at least the same buckets are marked. -/
def KeepsMarks (bs bs' : List (Bucket E)) : Prop :=
  bs'.length = bs.length ∧ ∀ i, Collides bs i → Collides bs' i

lemma Reaches.mono (hr : Reaches bs h i) (hkeeps : KeepsMarks bs bs') : Reaches bs' h i := by
  obtain ⟨k, hk, heq, hall⟩ := hr
  rw [← hkeeps.1] at hk heq hall
  exact ⟨k, hk, heq, fun j hj => hkeeps.2 _ (hall j hj)⟩

lemma KeepsMarks.of_marked (hm : MarkedAll bs bs') : KeepsMarks bs bs' := by
  refine ⟨hm.length_eq.symm, fun i hi => ?_⟩
  obtain ⟨b, hb, hc⟩ := hi
  obtain ⟨b', hb', hmarked⟩ := hm.getElem? hb
  exact ⟨b', hb', hmarked.keeps hc⟩

lemma KeepsMarks.set {b' : Bucket E} (hb : bs[i]? = some b)
    (hc : b.collision = true → b'.collision = true) : KeepsMarks bs (bs.set i b') := by
  refine ⟨length_set, fun j hj => ?_⟩
  obtain ⟨c, hcj, hcc⟩ := hj
  by_cases hij : i = j
  · subst hij
    cases hb.symm.trans hcj
    exact ⟨b', by simp [getElem?_set_self (List.getElem?_eq_some_iff.mp hb).1], hc hcc⟩
  · exact ⟨c, by rw [getElem?_set_ne hij, hcj], hcc⟩

lemma WellPlaced.of_marked (hw : WellPlaced key hash bs) (hm : MarkedAll bs bs') :
    WellPlaced key hash bs' where
  stores b hb hp := by
    obtain ⟨i, hi, heq⟩ := mem_iff_getElem.mp hb
    obtain ⟨c, hc, hmarked⟩ := hm.getElem?' (List.getElem?_eq_some_iff.mpr ⟨hi, heq⟩)
    obtain ⟨e, he, hh⟩ := hw.stores c (mem_of_getElem? hc) (hmarked.present ▸ hp)
    exact ⟨e, hmarked.entry.trans he, hmarked.hash.trans hh⟩
  reaches i b hb hp := by
    obtain ⟨c, hc, hmarked⟩ := hm.getElem?' hb
    rw [hmarked.hash]
    exact (hw.reaches i c hc (hmarked.present ▸ hp)).mono (.of_marked hm)

/-- Replace one bucket by another that is well placed, if it is present. -/
lemma WellPlaced.set {b' : Bucket E} (hw : WellPlaced key hash bs) (hb : bs[i]? = some b)
    (hc : b.collision = true → b'.collision = true)
    (hb' : b'.present = true → Stores key hash b' ∧ Reaches bs b'.hash i) :
    WellPlaced key hash (bs.set i b') where
  stores c hcm hp := by
    rcases mem_or_eq_of_mem_set hcm with hcm | rfl
    · exact hw.stores c hcm hp
    · exact (hb' hp).1
  reaches j c hcj hp := by
    by_cases hij : i = j
    · subst hij
      rw [getElem?_set_self (List.getElem?_eq_some_iff.mp hb).1] at hcj
      cases hcj
      exact (hb' hp).2.mono (.set hb hc)
    · rw [getElem?_set_ne hij] at hcj
      exact (hw.reaches j c hcj hp).mono (.set hb hc)

/-! ## The chain walk -/

lemma bucketAt_eq_ok (hb : bs[i]? = some b) : bucketAt bs i = .ok b := by
  rw [bucketAt, hb]

/-- The chain walk, from its `m`-th bucket on, up to the first bucket that is not present. -/
lemma seekFree_spec (hcount : count ∈ primes) (h : UInt32) (last fuel : ℕ) :
    ∀ (bs : List (Bucket E)) (m : ℕ), bs.length = count → m ≤ last → last < fuel + m →
      (∀ k, m ≤ k → k < last → ∃ b, bs[chain count h k]? = some b ∧ b.present = true) →
      (∃ b, bs[chain count h last]? = some b ∧ b.present = false) →
      (∀ j < m, Collides bs (chain count h j)) →
      ∃ bs', seekFree count (chainIncrement h count) fuel bs (chain count h m)
          = .ok (bs', chain count h last) ∧
        MarkedAll bs bs' ∧ ∀ j < last, Collides bs' (chain count h j) := by
  induction fuel with
  | zero =>
    omega
  | succ fuel ih =>
    intro bs m hlen hle hlt hpresent hfree hmarks
    rcases hle.lt_or_eq with hm | rfl
    · -- one more bucket to mark
      obtain ⟨b, hb, hp⟩ := hpresent m le_rfl hm
      have hmark : MarkedAll bs (bs.set (chain count h m) { b with collision := true }) :=
        .mark hb hp
      have hself : (bs.set (chain count h m) { b with collision := true })[chain count h m]? =
          some { b with collision := true } :=
        getElem?_set_self (List.getElem?_eq_some_iff.mp hb).1
      obtain ⟨bs', hseek, hmarked, hall⟩ := ih
        (bs.set (chain count h m) { b with collision := true }) (m + 1)
        (by rw [length_set, hlen]) hm (by omega)
        (fun k hk hk' => hmark.exists_present (hpresent k (by omega) hk'))
        (hmark.exists_present hfree)
        (fun j hj => by
          rcases Nat.lt_succ_iff_lt_or_eq.mp hj with hj | rfl
          · exact (KeepsMarks.of_marked hmark).2 _ (hmarks j hj)
          · exact ⟨_, hself, rfl⟩)
      refine ⟨bs', ?_, hmark.trans hmarked, hall⟩
      rw [seekFree, bucketAt_eq_ok hb, chainSeek_chain hcount]
      exact (if_pos hp).trans hseek
    · obtain ⟨b, hb, hp⟩ := hfree
      refine ⟨bs, ?_, .refl bs, hmarks⟩
      rw [seekFree, bucketAt_eq_ok hb]
      exact if_neg (by simp [hp])

/-- **The chain walk** ends at a bucket that is not present, behind marked buckets only. -/
theorem seekChain_spec (hcount : count ∈ primes) (hlen : bs.length = count)
    (hlives : livesIn bs < count) (h : UInt32) : ∃ bs' i b,
      seekChain bs count h = .ok (bs', i) ∧ MarkedAll bs bs' ∧ bs'[i]? = some b ∧
      b.present = false ∧ Reaches bs' h i := by
  classical
  obtain ⟨i, b, hb, hp⟩ := exists_of_countP_lt (by rw [hlen]; exact hlives)
  have hi : i < count := hlen ▸ (List.getElem?_eq_some_iff.mp hb).1
  obtain ⟨k, hk, rfl⟩ := exists_chain_eq hcount h hi
  have hex : ∃ k, ∃ b, bs[chain count h k]? = some b ∧ b.present = false := ⟨k, b, hb, hp⟩
  have hle : Nat.find hex ≤ k := Nat.find_min' hex ⟨b, hb, hp⟩
  obtain ⟨bs', hseek, hmarked, hall⟩ := seekFree_spec hcount h (Nat.find hex) (count + 1)
    bs 0 hlen (Nat.zero_le _) (by omega)
    (fun j _ hj => by
      have hlt : chain count h j < bs.length := hlen ▸ chain_lt hcount h j
      refine ⟨bs[chain count h j], getElem?_eq_getElem hlt, ?_⟩
      by_contra hnp
      exact Nat.find_min hex hj
        ⟨bs[chain count h j], getElem?_eq_getElem hlt, by simpa using hnp⟩)
    (Nat.find_spec hex) (by simp)
  obtain ⟨c, hc, hcp⟩ := hmarked.exists_present (Nat.find_spec hex)
  have hlen' : bs'.length = count := hmarked.length_eq.symm.trans hlen
  rw [chain_zero hcount] at hseek
  exact ⟨bs', _, c, hseek, hmarked, hc, hcp, Nat.find hex, by omega, by rw [hlen'], by rw [hlen']; exact hall⟩

/-! ## Copying -/

lemma copyBucket_present (b : Bucket E) : (copyBucket b).present = b.present := by
  unfold copyBucket
  split_ifs <;> rfl

lemma copyBucket_collision (b : Bucket E) : (copyBucket b).collision = b.collision := by
  unfold copyBucket
  split_ifs <;> rfl

lemma copyBucket_of_present (hp : b.present = true) : copyBucket b = b := if_pos hp

lemma copyBucket_live (b : Bucket E) : (copyBucket b).live = b.live := by
  cases hp : b.present with
  | true => rw [copyBucket_of_present hp]
  | false => simp [live, copyBucket_present, hp]

/-- A copy of the array is as good as the array. -/
lemma copy_spec (hw : WellPlaced key hash bs) :
    WellPlaced key hash (bs.map copyBucket) ∧ livesIn (bs.map copyBucket) = livesIn bs ∧
    filledIn (bs.map copyBucket) = filledIn bs ∧
    (bs.map copyBucket).filterMap live = bs.filterMap live := by
  have hkeeps : KeepsMarks bs (bs.map copyBucket) := by
    refine ⟨length_map _, fun i hi => ?_⟩
    obtain ⟨b, hb, hc⟩ := hi
    exact ⟨copyBucket b, by simp [hb], (copyBucket_collision b).trans hc⟩
  refine ⟨⟨?_, ?_⟩, ?_, ?_, ?_⟩
  · intro c hc hp
    obtain ⟨b, hb, rfl⟩ := mem_map.mp hc
    rw [copyBucket_present] at hp
    rw [copyBucket_of_present hp]
    exact hw.stores b hb hp
  · intro i c hc hp
    rw [getElem?_map, Option.map_eq_some_iff] at hc
    obtain ⟨b, hb, rfl⟩ := hc
    rw [copyBucket_present] at hp
    rw [copyBucket_of_present hp]
    exact (hw.reaches i b hb hp).mono hkeeps
  · rw [livesIn, countP_map]
    exact countP_congr fun b _ => by simp [copyBucket_present]
  · rw [filledIn, countP_map]
    exact countP_congr fun b _ => by
      simp [filled, copyBucket_present, copyBucket_collision]
  · rw [filterMap_map]
    exact filterMap_congr fun b _ => copyBucket_live b

/-! ## Rebuilding -/

/-- An array that `rehash` is filling: only present buckets are marked. -/
structure Rebuilt (key : E → K) (hash : K → UInt32) (count : ℕ) (new : List (Bucket E)) : Prop where
  length : new.length = count
  placed : WellPlaced key hash new
  fresh : ∀ b ∈ new, b.collision = true → b.present = true

lemma Rebuilt.filledIn (h : Rebuilt key hash count bs) : filledIn bs = livesIn bs := by
  refine countP_congr fun b hb => ?_
  have := h.fresh b hb
  cases hp : b.present <;> cases hc : b.collision <;> simp_all [filled]

lemma rebuilt_clear (count : ℕ) :
    Rebuilt key hash count (replicate count (.clear : Bucket E)) where
  length := length_replicate
  placed := by
    refine ⟨fun b hb hp => ?_, fun i b hb hp => ?_⟩
    · rw [eq_of_mem_replicate hb] at hp
      simp [clear] at hp
    · rw [eq_of_mem_replicate (mem_of_getElem? hb)] at hp
      simp [clear] at hp
  fresh b hb hc := by
    rw [eq_of_mem_replicate hb] at hc
    simp [clear] at hc

lemma livesIn_clear (count : ℕ) : livesIn (replicate count (.clear : Bucket E)) = 0 := by
  simp [livesIn, clear]

lemma filterMap_live_clear (count : ℕ) :
    (replicate count (.clear : Bucket E)).filterMap live = [] := by
  refine filterMap_eq_nil_iff.mpr fun b hb => ?_
  rw [eq_of_mem_replicate hb]
  rfl

lemma rehashBucket_spec {new : List (Bucket E)} (hcount : count ∈ primes)
    (h : Rebuilt key hash count new) (hb : b.present = true → Stores key hash b)
    (hroom : b.present = true → livesIn new < count) : ∃ new',
      rehashBucket count new b = .ok new' ∧ Rebuilt key hash count new' ∧
      livesIn new' = livesIn new + (if b.present then 1 else 0) ∧
      (new'.filterMap live).Perm (b.live.toList ++ new.filterMap live) := by
  cases hp : b.present with
  | false =>
    refine ⟨new, ?_, h, by simp, by simp [live, hp]⟩
    rw [rehashBucket, if_neg (by simp [hp])]
  | true =>
    obtain ⟨e, he, hh⟩ := hb hp
    obtain ⟨bs, i, c, hseek, hmarked, hc, hcp, hreach⟩ :=
      seekChain_spec hcount h.length (hroom hp) b.hash
    have hnc : c.collision = false := by
      -- a bucket that is not present was clear, and the walk marks none of these
      obtain ⟨c0, hc0, hm⟩ := hmarked.getElem?' hc
      by_contra hcc
      have hp0 : c0.present = true := by
        rcases hm.only (by simpa using hcc) with hc | hp
        · exact h.fresh c0 (mem_of_getElem? hc0) hc
        · exact hp
      rw [hm.present, hp0] at hcp
      cases hcp
    have hplaced : WellPlaced key hash (bs.set i ⟨true, false, b.hash, some e⟩) :=
      (h.placed.of_marked hmarked).set hc (by simp [hnc]) fun _ => ⟨⟨e, rfl, hh⟩, hreach⟩
    refine ⟨bs.set i ⟨true, false, b.hash, some e⟩, ?_, ⟨?_, hplaced, ?_⟩, ?_, ?_⟩
    · rw [rehashBucket, if_pos hp, hseek, he]
      rfl
    · rw [length_set, ← hmarked.length_eq, h.length]
    · intro d hd hdc
      rcases mem_or_eq_of_mem_set hd with hd | rfl
      · obtain ⟨j, hj, heq⟩ := mem_iff_getElem.mp hd
        obtain ⟨d0, hd0, hm⟩ := hmarked.getElem?' (List.getElem?_eq_some_iff.mpr ⟨hj, heq⟩)
        rw [hm.present]
        rcases hm.only hdc with hc | hp
        · exact h.fresh d0 (mem_of_getElem? hd0) hc
        · exact hp
      · simp at hdc
    · rw [← hmarked.livesIn]
      simpa [hcp] using livesIn_set hc ⟨true, false, b.hash, some e⟩
    · obtain ⟨rest, hold, hnew⟩ := filterMap_live_set hc ⟨true, false, b.hash, some e⟩
      rw [hmarked.filterMap_live] at hold
      simp only [live, hcp, hp, he] at hold hnew ⊢
      exact hnew.trans (hold.symm.cons e)

/-- **Rebuilding** moves every live entry and nothing else. -/
theorem rehashBuckets_spec (hcount : count ∈ primes) :
    ∀ {new : List (Bucket E)}, Rebuilt key hash count new →
      (∀ b ∈ bs, b.present = true → Stores key hash b) → livesIn new + livesIn bs ≤ count →
      ∃ new', bs.foldlM (rehashBucket count) new = .ok new' ∧ Rebuilt key hash count new' ∧
        livesIn new' = livesIn new + livesIn bs ∧
        (new'.filterMap live).Perm (bs.filterMap live ++ new.filterMap live) := by
  induction bs with
  | nil =>
    intro new h _ _
    exact ⟨new, rfl, h, by simp [livesIn], by simp⟩
  | cons b bs ih =>
    intro new h hstores hroom
    have hcons : livesIn (b :: bs) = livesIn bs + (if b.present then 1 else 0) := by
      simp [livesIn, countP_cons]
    rw [hcons] at hroom
    obtain ⟨new1, hone, h1, hlives1, hperm1⟩ := rehashBucket_spec hcount h
      (hstores b (by simp)) fun hp => by rw [if_pos hp] at hroom; omega
    obtain ⟨new', hrest, h', hlives', hperm'⟩ := ih h1 (fun c hc => hstores c (by simp [hc]))
      (by rw [hlives1]; omega)
    refine ⟨new', ?_, h', by rw [hlives']; omega, ?_⟩
    · rw [foldlM_cons, hone]
      exact hrest
    · refine hperm'.trans ?_
      have hlive : (b :: bs).filterMap live = b.live.toList ++ bs.filterMap live := by
        cases hb : b.live <;> simp [hb]
      rw [hlive, append_assoc]
      exact (hperm1.append_left _).trans (perm_append_comm_assoc _ _ _)

end BasicHashtable

end Droid
