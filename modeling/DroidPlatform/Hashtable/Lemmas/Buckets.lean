import DroidPlatform.Hashtable.Lemmas.Capacity

/-!
# Bucket arrays

The invariant of open addressing is a property of the bucket array alone.  An array is
**well placed** if every present bucket holds an entry under the hash of its key, and lies on the
chain of that hash behind buckets that all carry the collision flag.  A search along the chain then
cannot stop before it has passed the entry.

Collision flags are only ever added (`Marked`), and setting them on present buckets changes neither
the number of live entries nor the number of filled buckets.
-/

namespace Droid

open List Bucket

/-- Present or marked. -/
def Bucket.filled {E : Type} (b : Bucket E) : Bool := b.present || b.collision

namespace BasicHashtable

variable {E K : Type} {bs bs' : List (Bucket E)} {i : ℕ} {b : Bucket E}

/-! ## Chains -/

/-- The `k`-th bucket of the chain of a hash. -/
def chain (count : ℕ) (h : UInt32) (k : ℕ) : ℕ :=
  probe count (chainStart h count) (chainIncrement h count) k

section Chain

variable {count : ℕ} (hcount : count ∈ primes) (h : UInt32)

include hcount

lemma count_pos : 0 < count := by
  have := (bounds_of_mem_primes hcount).1
  omega

lemma chain_lt (k : ℕ) : chain count h k < count := probe_lt (count_pos hcount) k

lemma chain_zero : chain count h 0 = chainStart h count :=
  probe_zero (Nat.mod_lt _ (count_pos hcount))

lemma chainIncrement_lt : chainIncrement h count < count := by
  have := (bounds_of_mem_primes hcount).1
  have := Nat.mod_lt ((h >>> 7) ||| (h <<< 25)).toNat (show 0 < count - 1 by omega)
  rw [chainIncrement]
  omega

lemma coprime_chainIncrement : count.Coprime (chainIncrement h count) :=
  Nat.coprime_of_lt_prime (by simp [chainIncrement]) (chainIncrement_lt hcount h)
    (prime_of_mem_primes hcount)

/-- Advancing along the chain does not wrap around `size_t`. -/
lemma chainSeek_chain (k : ℕ) :
    chainSeek (chain count h k) (chainIncrement h count) count = chain count h (k + 1) := by
  have hlt := chain_lt hcount h k
  have hinc := chainIncrement_lt hcount h
  have hle := (bounds_of_mem_primes hcount).2
  rw [chainSeek, toUInt32_eq_self (by omega)]
  exact probe_succ k

/-- Every bucket is on every chain. -/
lemma exists_chain_eq (hi : i < count) : ∃ k < count, chain count h k = i :=
  exists_probe_eq (coprime_chainIncrement hcount h) hi

lemma chain_injective {j k : ℕ} (hj : j < count) (hk : k < count)
    (heq : chain count h j = chain count h k) : j = k :=
  probe_injective (coprime_chainIncrement hcount h) hj hk heq

end Chain

/-! ## Counting -/

/-- The number of present buckets. -/
def livesIn (bs : List (Bucket E)) : ℕ := bs.countP Bucket.present

/-- The number of present or collision-marked buckets. -/
def filledIn (bs : List (Bucket E)) : ℕ := bs.countP Bucket.filled

lemma livesIn_le_filledIn (bs : List (Bucket E)) : livesIn bs ≤ filledIn bs :=
  countP_mono_left fun b _ hb => by simp [filled, hb]

/-- An array with an unfilled bucket has one at some index. -/
lemma exists_of_countP_lt {P : Bucket E → Bool} (h : bs.countP P < bs.length) :
    ∃ (i : ℕ) (b : Bucket E), bs[i]? = some b ∧ P b = false := by
  have hex : ∃ b ∈ bs, P b = false := by
    by_contra hall
    push Not at hall
    exact h.ne (countP_eq_length.mpr fun b hb => by simpa using hall b hb)
  obtain ⟨b, hb, hP⟩ := hex
  obtain ⟨i, hi, heq⟩ := mem_iff_getElem.mp hb
  exact ⟨i, b, by rw [getElem?_eq_getElem hi, heq], hP⟩

/-- Split an array at one of its buckets. -/
lemma exists_split (h : bs[i]? = some b) :
    ∃ pre post, bs = pre ++ b :: post ∧ ∀ b', bs.set i b' = pre ++ b' :: post := by
  obtain ⟨hi, heq⟩ := List.getElem?_eq_some_iff.mp h
  refine ⟨bs.take i, bs.drop (i + 1), ?_, fun b' => ?_⟩
  · rw [← heq, cons_getElem_drop_succ, take_append_drop]
  · rw [set_eq_take_append_cons_drop, if_pos hi]

lemma countP_set_of_getElem? {P : Bucket E → Bool} (h : bs[i]? = some b) (b' : Bucket E) :
    (bs.set i b').countP P + (if P b then 1 else 0) = bs.countP P + (if P b' then 1 else 0) := by
  obtain ⟨pre, post, hbs, hset⟩ := exists_split h
  rw [hset, hbs]
  simp only [countP_append, countP_cons]
  omega

lemma livesIn_set (h : bs[i]? = some b) (b' : Bucket E) :
    livesIn (bs.set i b') + (if b.present then 1 else 0)
      = livesIn bs + (if b'.present then 1 else 0) := countP_set_of_getElem? h b'

/-- The live entries before and after, apart from those of the replaced bucket. -/
lemma filterMap_live_set (h : bs[i]? = some b) (b' : Bucket E) :
    ∃ rest, (bs.filterMap live).Perm (b.live.toList ++ rest) ∧
      ((bs.set i b').filterMap live).Perm (b'.live.toList ++ rest) := by
  obtain ⟨pre, post, hbs, hset⟩ := exists_split h
  have hsplit (c : Bucket E) : ((pre ++ c :: post).filterMap live).Perm
      (c.live.toList ++ (pre.filterMap live ++ post.filterMap live)) := by
    simp only [filterMap_eq_flatMap_toList, flatMap_append, flatMap_cons]
    exact perm_append_comm_assoc _ _ _
  exact ⟨_, hbs ▸ hsplit b, hset b' ▸ hsplit b'⟩

/-! ## Marking -/

/-- `b'` is `b`, or `b` with a collision flag that a present bucket was given. -/
structure Marked (b b' : Bucket E) : Prop where
  present : b'.present = b.present
  hash : b'.hash = b.hash
  entry : b'.entry = b.entry
  keeps : b.collision = true → b'.collision = true
  only : b'.collision = true → b.collision = true ∨ b.present = true

lemma Marked.refl (b : Bucket E) : Marked b b := ⟨rfl, rfl, rfl, id, .inl⟩

lemma Marked.trans {b1 b2 b3 : Bucket E} (h : Marked b1 b2) (h' : Marked b2 b3) :
    Marked b1 b3 where
  present := h'.present.trans h.present
  hash := h'.hash.trans h.hash
  entry := h'.entry.trans h.entry
  keeps hc := h'.keeps (h.keeps hc)
  only hc := by
    rcases h'.only hc with hc | hp
    · exact h.only hc
    · exact .inr (h.present ▸ hp)

lemma Marked.filled {b' : Bucket E} (h : Marked b b') : b'.filled = b.filled := by
  have hk := h.keeps
  have ho := h.only
  rw [Bucket.filled, Bucket.filled, h.present]
  cases hp : b.present <;> cases hc : b.collision <;> cases hc' : b'.collision <;> simp_all

lemma Marked.live {b' : Bucket E} (h : Marked b b') : b'.live = b.live := by
  rw [Bucket.live, Bucket.live, h.present, h.entry]

abbrev MarkedAll (bs bs' : List (Bucket E)) : Prop := List.Forall₂ Marked bs bs'

lemma MarkedAll.refl (bs : List (Bucket E)) : MarkedAll bs bs :=
  forall₂_same.mpr fun b _ => .refl b

lemma MarkedAll.trans {bs1 bs2 bs3 : List (Bucket E)} (h : MarkedAll bs1 bs2)
    (h' : MarkedAll bs2 bs3) : MarkedAll bs1 bs3 := by
  induction h generalizing bs3 with
  | nil => exact h'
  | cons hb _ ih =>
    cases h' with
    | cons hb' hrest => exact .cons (hb.trans hb') (ih hrest)

lemma MarkedAll.mark (h : bs[i]? = some b) (hp : b.present = true) :
    MarkedAll bs (bs.set i { b with collision := true }) := by
  obtain ⟨pre, post, hbs, hset⟩ := exists_split h
  rw [hset, hbs]
  exact rel_append (refl pre)
    (.cons ⟨rfl, rfl, rfl, fun _ => rfl, fun _ => .inr hp⟩ (refl post))

lemma forall₂_getElem? {R : Bucket E → Bucket E → Prop} (h : Forall₂ R bs bs')
    (hb : bs[i]? = some b) : ∃ b', bs'[i]? = some b' ∧ R b b' := by
  induction h generalizing i with
  | nil => simp at hb
  | cons hbb _ ih =>
    cases i with
    | zero =>
      cases Option.some.inj hb
      exact ⟨_, rfl, hbb⟩
    | succ i => exact ih hb

section

variable (h : MarkedAll bs bs')

include h

lemma MarkedAll.getElem? (hb : bs[i]? = some b) : ∃ b', bs'[i]? = some b' ∧ Marked b b' :=
  forall₂_getElem? h hb

lemma MarkedAll.getElem?' (hb : bs'[i]? = some b) : ∃ b', bs[i]? = some b' ∧ Marked b' b :=
  forall₂_getElem? h.flip hb

lemma MarkedAll.exists_present {p : Bool} (hb : ∃ b, bs[i]? = some b ∧ b.present = p) :
    ∃ b, bs'[i]? = some b ∧ b.present = p := by
  obtain ⟨b, hb, hp⟩ := hb
  obtain ⟨b', hb', hm⟩ := h.getElem? hb
  exact ⟨b', hb', hm.present.trans hp⟩

lemma MarkedAll.countP_eq {P : Bucket E → Bool} (hP : ∀ {b b'}, Marked b b' → P b' = P b) :
    bs'.countP P = bs.countP P := by
  induction h with
  | nil => rfl
  | cons hb _ ih => rw [countP_cons, countP_cons, hP hb, ih]

lemma MarkedAll.livesIn : livesIn bs' = livesIn bs := h.countP_eq Marked.present

lemma MarkedAll.filledIn : filledIn bs' = filledIn bs := h.countP_eq Marked.filled

lemma MarkedAll.filterMap_live : bs'.filterMap live = bs.filterMap live := by
  induction h with
  | nil => rfl
  | cons hb _ ih => simp only [filterMap_cons, hb.live, ih]

end

end BasicHashtable

end Droid
