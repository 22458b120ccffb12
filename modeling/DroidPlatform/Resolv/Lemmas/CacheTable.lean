import DroidPlatform.Resolv.ResCache
import Mathlib.Data.List.TakeWhile

/-!
# What the cache holds

`Holds c as chains` is the invariant of the cache: the ring `mru_list` goes through the addresses
`as`, the slot `i` is the head of the chain `chains i`, and a stored entry is on the chain of its
hash and on no other.  Two more facts carry the operations:

* every stored query was accepted by `check_query`, so that equality of queries is an equivalence on
  the stored entries;
* no two stored entries have one key, so that a lookup by the content of a stored entry finds this
  entry and not another one (`_cache_remove_oldest` depends on it).

There is one lemma for each edit of the two lists, and one for the lookup.
-/

namespace Droid.Resolv

open List Option Function Nat LinkedList Chains

/-! ## Keys -/

/-- Two queries with one hash that are equal as far as the cache can tell. -/
def SameKey (query₁ query₂ : Bytes) : Prop :=
  hash_query query₁ = hash_query query₂ ∧ entry_equals query₁ query₂ = true

instance (query₁ query₂ : Bytes) : Decidable (SameKey query₁ query₂) :=
  inferInstanceAs (Decidable (_ ∧ _))

lemma entry_equals_iff {query1 query2 : Bytes} : entry_equals query1 query2 = true ↔
    query1.length = query2.length ∧ is_equal_query query1 query2 = true := by
  rw [entry_equals]
  split_ifs with hlen
  · simp [hlen]
  · simp [not_not.mp hlen]

namespace SameKey

lemma refl {query : Bytes} (h : check_query query = true) : SameKey query query :=
  ⟨rfl, entry_equals_iff.mpr ⟨rfl, is_equal_query_refl h⟩⟩

lemma symm {query1 query2 : Bytes} (h : SameKey query1 query2) : SameKey query2 query1 := by
  obtain ⟨hlen, hequal⟩ := entry_equals_iff.mp h.2
  exact ⟨h.1.symm, entry_equals_iff.mpr ⟨hlen.symm, is_equal_query_symm hequal⟩⟩

lemma trans {query1 query2 query3 : Bytes} (h : SameKey query1 query2)
    (h' : SameKey query2 query3) : SameKey query1 query3 := by
  obtain ⟨hlen, hequal⟩ := entry_equals_iff.mp h.2
  obtain ⟨hlen', hequal'⟩ := entry_equals_iff.mp h'.2
  exact ⟨h.1.trans h'.1,
    entry_equals_iff.mpr ⟨hlen.trans hlen', is_equal_query_trans hequal hequal'⟩⟩

end SameKey

lemma entry_init_key_eq_some {query : Bytes} {key : Key} :
    entry_init_key query = some key ↔ check_query query = true ∧ key = ⟨hash_query query, query⟩ := by
  rw [entry_init_key]
  split_ifs with h
  · simp [h, eq_comm]
  · simp [h]

/-! ## The ring -/

lemma represents_entry_mru_add {l : LinkedList ℕ} {as : List ℕ} {e : ℕ} (h : l.Represents as)
    (he : e ∉ as) : (entry_mru_add l e).Represents (e :: as) := by
  have heq : entry_mru_add l e = l.linkBetween none e l.mFirst := by
    exact ext_links (fun q => by simp [entry_mru_add, linkBetween])
      fun q => by simp [entry_mru_add, linkBetween]
  rw [heq, h.mFirst_eq]
  exact LinkedList.Represents.linkBetween (show l.Represents ([] ++ as) from h) he

lemma represents_entry_mru_remove {l : LinkedList ℕ} {pre post : List ℕ} {e : ℕ}
    (h : l.Represents (pre ++ e :: post)) : (entry_mru_remove l e).Represents (pre ++ post) := by
  have heq : entry_mru_remove l e = l.joinLinks (l.prev e) (l.next e) := by
    have hnext : (l.setNext (l.prev e) (l.next e)).nextOf (some e) = l.next e := by
      rw [nextOf_setNext, if_neg h.prev_ne_self.symm, nextOf_some]
    rw [entry_mru_remove, prevOf_some, nextOf_some, hnext,
      prevOf_setNext, prevOf_some, joinLinks]
  rw [heq, h.prev_eq, h.next_eq]
  exact h.joinLinks

/-! ## The invariant -/

namespace Cache

/-- The entry at an address that holds one. -/
def entry (c : Cache) (p : ℕ) : Entry := (c.heap p).getD default

/-- The slot an entry belongs to. -/
def slot (c : Cache) (p : ℕ) : ℕ := (c.entry p).hash.toNat % c.max_entries

structure Holds (c : Cache) (as : List ℕ) (chains : ℕ → List ℕ) : Prop where
  mru : c.mru.Represents as
  table : c.table.Represents chains
  mem_chains : ∀ i p, p ∈ chains i ↔ p ∈ as ∧ c.slot p = i
  live : ∀ p ∈ as, c.heap p = some (c.entry p)
  lt_fresh : ∀ p ∈ as, p < c.fresh
  checked : ∀ p ∈ as, check_query (c.entry p).query = true
  hash_eq : ∀ p ∈ as, (c.entry p).hash = hash_query (c.entry p).query
  distinct : ∀ p ∈ as, ∀ q ∈ as, SameKey (c.entry p).query (c.entry q).query → p = q
  count : c.num_entries = as.length
  room : as.length ≤ c.max_entries
  pos : 0 < c.max_entries

lemma holds_nil {c : Cache} (hmru : c.mru.Represents []) (htable : c.table.Represents fun _ => [])
    (hcount : c.num_entries = 0) (hpos : 0 < c.max_entries) : c.Holds [] fun _ => [] where
  mru := hmru
  table := htable
  mem_chains := by simp
  live := by simp
  lt_fresh := by simp
  checked := by simp
  hash_eq := by simp
  distinct := by simp
  count := hcount
  room := zero_le _
  pos := hpos

lemma holds_create {max_entries : ℕ} (h : 0 < max_entries) :
    (create max_entries).Holds [] fun _ => [] :=
  holds_nil (represents_nil _ _) (represents_empty _) rfl h

namespace Holds

variable {c : Cache} {as : List ℕ} {chains : ℕ → List ℕ} {p q : ℕ}

section

variable (h : c.Holds as chains)

include h

lemma isFor_iff (hp : p ∈ as) {query : Bytes} :
    (c.entry p).isFor ⟨hash_query query, query⟩ = true ↔ SameKey (c.entry p).query query := by
  simp [Entry.isFor, SameKey, h.hash_eq p hp]

/-- A chain is no longer than the addresses that were handed out. -/
lemma length_chain_le (i : ℕ) : (chains i).length ≤ c.fresh := by
  rw [← toFinset_card_of_nodup (h.table.nodup i), ← Finset.card_range c.fresh]
  refine Finset.card_le_card fun p hp => mem_range.mpr (h.lt_fresh p ?_)
  exact ((h.mem_chains i p).mp (mem_toFinset.mp hp)).1

/-- The nodes of the chains are the nodes of the ring. -/
lemma perm_flatMap : as.Perm ((range c.max_entries).flatMap chains) := by
  refine (perm_ext_iff_of_nodup h.mru.nodup ?_).mpr fun p => ?_
  · refine nodup_flatMap.mpr ⟨fun i _ => h.table.nodup i, ?_⟩
    exact nodup_range.imp fun {i j} hne p hi hj => hne (h.table.disjoint hi hj)
  · simp only [mem_flatMap, mem_range, h.mem_chains]
    constructor
    · exact fun hp => ⟨c.slot p, mod_lt _ h.pos, hp, rfl⟩
    · rintro ⟨i, -, hp, -⟩
      exact hp

/-- **The lookup** ends in front of the stored entry with the key, or at the end of its chain. -/
theorem cache_lookup_p_cases (query : Bytes) : let key : Key := ⟨hash_query query, query⟩
    let i := (hash_query query).toNat % c.max_entries
    (c.cache_lookup_p key = some (endCell (.head i) (chains i)) ∧
      c.table.get (endCell (.head i) (chains i)) = none ∧
      ∀ p ∈ as, ¬ SameKey (c.entry p).query query) ∨
    ∃ pre p post, c.cache_lookup_p key = some (endCell (.head i) pre) ∧
      c.table.get (endCell (.head i) pre) = some p ∧
      chains i = pre ++ p :: post ∧ p ∈ as ∧ SameKey (c.entry p).query query := by
  intro key i
  have hmem : ∀ p ∈ chains i, p ∈ as := fun p hp => ((h.mem_chains i p).mp hp).1
  have htest : ∀ p ∈ chains i, (c.heap p).map (·.isFor key) = some ((c.entry p).isFor key) :=
    fun p hp => by rw [h.live p (hmem p hp), map_some]
  have hsearch := search_eq (h.table.path i) htest (lt_succ_of_le (h.length_chain_le i))
  have hget := get_search (fun p => (c.entry p).isFor key) (h.table.path i)
  cases hfind : (chains i).find? fun p => (c.entry p).isFor key with
  | none =>
    left
    rw [find?_eq_none] at hfind
    have htake : ((chains i).takeWhile fun p => !(c.entry p).isFor key) = chains i :=
      takeWhile_eq_self_iff.mpr fun p hp => by simpa using hfind p hp
    rw [htake] at hsearch hget
    refine ⟨hsearch, ?_, fun p hp hkey => ?_⟩
    · rw [hget, find?_eq_none]
      exact hfind
    · have hi : p ∈ chains i := by
        refine (h.mem_chains i p).mpr ⟨hp, ?_⟩
        rw [slot, h.hash_eq p hp, hkey.1]
      exact hfind p hi ((h.isFor_iff hp).mpr hkey)
  | some p =>
    right
    obtain ⟨hp, pre, post, hchain, hpre⟩ := find?_eq_some_iff_append.mp hfind
    have htake : ((chains i).takeWhile fun p => !(c.entry p).isFor key) = pre := by
      rw [hchain, takeWhile_append_of_pos (by simpa using hpre)]
      simp [hp]
    rw [htake] at hsearch hget
    have hmemp : p ∈ as := hmem p (by simp [hchain])
    exact ⟨pre, p, post, hsearch, hget.trans hfind, hchain, hmemp, (h.isFor_iff hmemp).mp hp⟩

/-! ## Fewer entries -/

/-- An operation that only takes entries away or reorders them keeps the invariant. -/
lemma restrict {c' : Cache} {as' : List ℕ} {chains' : ℕ → List ℕ} (hsub : ∀ q ∈ as', q ∈ as)
    (hheap : ∀ q ∈ as', c'.heap q = c.heap q) (hmax : c'.max_entries = c.max_entries)
    (hfresh : c'.fresh = c.fresh) (hmru : c'.mru.Represents as')
    (htable : c'.table.Represents chains') (hchains : ∀ i q, q ∈ chains' i ↔ q ∈ chains i ∧ q ∈ as')
    (hcount : c'.num_entries = as'.length) : c'.Holds as' chains' := by
  have hentry : ∀ q ∈ as', c'.entry q = c.entry q := fun q hq => by rw [entry, entry, hheap q hq]
  refine ⟨hmru, htable, fun i q => ?_, fun q hq => ?_, fun q hq => ?_, fun q hq => ?_,
    fun q hq => ?_, fun q hq r hr hkey => ?_, hcount, ?_, ?_⟩
  · rw [hchains, h.mem_chains]
    constructor
    · rintro ⟨⟨-, hslot⟩, hq⟩
      exact ⟨hq, by rw [slot, hentry q hq, hmax]; exact hslot⟩
    · rintro ⟨hq, hslot⟩
      rw [slot, hentry q hq, hmax] at hslot
      exact ⟨⟨hsub q hq, hslot⟩, hq⟩
  · rw [hheap q hq, hentry q hq]
    exact h.live q (hsub q hq)
  · rw [hfresh]
    exact h.lt_fresh q (hsub q hq)
  · rw [hentry q hq]
    exact h.checked q (hsub q hq)
  · rw [hentry q hq]
    exact h.hash_eq q (hsub q hq)
  · rw [hentry q hq, hentry r hr] at hkey
    exact h.distinct q (hsub q hq) r (hsub r hr) hkey
  · rw [hmax]
    exact (hmru.nodup.subperm fun q hq => hsub q hq).length_le.trans h.room
  · rw [hmax]
    exact h.pos

end

/-- **Removal.**  The entry leaves the ring, its chain and the heap; the others stay. -/
theorem cache_remove_p {u v pre post : List ℕ} {i : ℕ} (h : c.Holds (u ++ p :: v) chains)
    (hi : chains i = pre ++ p :: post)
    (hget : c.table.get (endCell (.head i) pre) = some p) :
    ∃ c', c.cache_remove_p (endCell (.head i) pre) = some c' ∧
      c'.Holds (u ++ v) (update chains i (pre ++ post)) ∧
      c'.max_entries = c.max_entries ∧ c'.fresh = c.fresh ∧
      ∀ q ∈ u ++ v, c'.heap q = c.heap q := by
  have hmem : ∀ {q}, q ∈ u ++ v ↔ q ∈ u ++ p :: v ∧ q ≠ p := mem_without h.mru.nodup
  have hheap : ∀ q ∈ u ++ v, update c.heap p none q = c.heap q :=
    fun q hq => update_of_ne (hmem.mp hq).2 _ _
  refine ⟨{ c with
    mru := entry_mru_remove c.mru p
    table := c.table.set (endCell (.head i) pre) (c.table.link p)
    heap := update c.heap p none
    num_entries := c.num_entries - 1 }, ?_, ?_, rfl, rfl, hheap⟩
  · simp [Cache.cache_remove_p, entry_free, hget, h.live p (by simp)]
  · refine h.restrict (fun q hq => (hmem.mp hq).1) hheap rfl rfl
      (represents_entry_mru_remove h.mru) (h.table.remove hi) (fun j q => ?_) ?_
    · rw [h.table.mem_remove hi, hmem, h.mem_chains]
      tauto
    · simp [h.count]
      omega

/-- **Eviction.**  The lookup by content finds the oldest entry itself. -/
theorem cache_remove_oldest (h : c.Holds (as ++ [p]) chains) :
    ∃ c' chains', c.cache_remove_oldest = some c' ∧ c'.Holds as chains' ∧
      c'.max_entries = c.max_entries ∧ c'.fresh = c.fresh ∧ ∀ q ∈ as, c'.heap q = c.heap q := by
  have hp : p ∈ as ++ [p] := by simp
  have hkey : c.oldest_key = some ⟨hash_query (c.entry p).query, (c.entry p).query⟩ := by
    have hlast : c.mru.prevOf none = some p := by simp [h.mru.mLast_eq]
    rw [oldest_key, hlast]
    simp [h.live p hp, Entry.key, h.hash_eq p hp]
  rcases h.cache_lookup_p_cases (c.entry p).query with
    ⟨-, -, hnone⟩ | ⟨pre, q, post, hlookup, hget, hchain, hq, hsame⟩
  · exact absurd (SameKey.refl (h.checked p hp)) (hnone p hp)
  · obtain rfl : q = p := h.distinct q hq p hp hsame
    obtain ⟨c', hremove, hholds, hmax, hfresh, hheap⟩ := h.cache_remove_p hchain hget
    rw [append_nil] at hholds hheap
    exact ⟨c', _, by simp [cache_remove_oldest, hkey, hlookup, hget, hremove], hholds, hmax,
      hfresh, hheap⟩

/-- The bump to the front of the ring. -/
lemma bump {u v : List ℕ} (h : c.Holds (u ++ p :: v) chains) :
    Holds { c with mru := (if some p ≠ c.mru.nextOf none then
      entry_mru_add (entry_mru_remove c.mru p) p else c.mru) } (p :: (u ++ v)) chains := by
  have hnotin : p ∉ u ++ v := fun hp => ((mem_without h.mru.nodup).mp hp).2 rfl
  have hmem : ∀ {q}, q ∈ p :: (u ++ v) ↔ q ∈ u ++ p :: v := by
    simp only [mem_cons, mem_append]
    tauto
  have hmru : (if some p ≠ c.mru.nextOf none then entry_mru_add (entry_mru_remove c.mru p) p
      else c.mru).Represents (p :: (u ++ v)) := by
    split_ifs with hfirst
    · exact represents_entry_mru_add (represents_entry_mru_remove h.mru) hnotin
    · rw [nextOf_none, h.mru.mFirst_eq] at hfirst
      cases u with
      | nil => exact h.mru
      | cons a u =>
        obtain rfl : p = a := by simpa using hfirst
        simp at hnotin
  refine h.restrict (fun q hq => hmem.mp hq) (fun q _ => rfl) rfl rfl hmru h.table (fun i q => ?_) ?_
  · rw [hmem, h.mem_chains]
    tauto
  · rw [h.count]
    simp only [length_cons, length_append]
    omega

/-! ## A new entry -/

/-- **Storing.**  A new entry goes to the front of the ring and to the end of its chain. -/
theorem store {ns : NsParse} {query answer : Bytes} {now : ℤ} (h : c.Holds as chains)
    (hquery : check_query query = true) (hnone : ∀ p ∈ as, ¬ SameKey (c.entry p).query query)
    (hroom : as.length < c.max_entries) (httl : answer_getTTL ns answer > 0) :
    let i := (hash_query query).toNat % c.max_entries
    ∃ c', c.store_answer ns ⟨hash_query query, query⟩ (endCell (.head i) (chains i)) answer
        now true = some c' ∧
      c'.Holds (c.fresh :: as) (update chains i (chains i ++ [c.fresh])) ∧
      c'.max_entries = c.max_entries ∧ c'.fresh = c.fresh + 1 ∧
      (∀ q ∈ as, c'.heap q = c.heap q) ∧ (c'.entry c.fresh).query = query ∧
      (c'.entry c.fresh).answer = answer ∧ (c'.entry c.fresh).expires = expiry ns answer now := by
  intro i
  have hfresh : c.fresh ∉ as := fun hp => lt_irrefl _ (h.lt_fresh _ hp)
  have hchains : ∀ j, c.fresh ∉ chains j := fun j hp => hfresh ((h.mem_chains j _).mp hp).1
  let e : Entry := ⟨hash_query query, query, answer, expiry ns answer now, toInt32 (c.last_id + 1)⟩
  let c' : Cache := { c with
    mru := entry_mru_add c.mru c.fresh
    table := (c.table.set (.link c.fresh) none).set (endCell (.head i) (chains i))
      (some c.fresh)
    heap := update c.heap c.fresh (some e)
    num_entries := c.num_entries + 1
    last_id := toInt32 (c.last_id + 1)
    fresh := c.fresh + 1 }
  have hheap : ∀ q ∈ as, c'.heap q = c.heap q := by
    intro q hq
    refine update_of_ne ?_ _ _
    rintro rfl
    exact hfresh hq
  have hentry : ∀ q ∈ as, c'.entry q = c.entry q := fun q hq => by rw [entry, entry, hheap q hq]
  have hnew : c'.heap c.fresh = some e := update_self ..
  have hnewEntry : c'.entry c.fresh = e := by rw [entry, hnew, getD_some]
  refine ⟨c', ?_, ?_, rfl, rfl, hheap, by rw [hnewEntry], by rw [hnewEntry], by rw [hnewEntry]⟩
  · simp [store_answer, httl, entry_alloc, modify, cache_add_p, c', e]
  · refine ⟨represents_entry_mru_add h.mru hfresh, ?_, fun j q => ?_, ?_, ?_, ?_, ?_, ?_, ?_, ?_, h.pos⟩
    · exact (h.table.set_link hchains).insert hchains (by simp [link_set])
    · rw [Chains.Represents.mem_insert, h.mem_chains, mem_cons]
      by_cases hq : q ∈ as
      · have hne : q ≠ c.fresh := fun heq => hfresh (heq ▸ hq)
        simp [hne, slot, hentry q hq, c']
      · simp only [hq, false_and, false_or, or_false, and_congr_right_iff]
        rintro rfl
        simp only [slot, hnewEntry, e, c', i, eq_comm]
    · refine forall_mem_cons.mpr ⟨by rw [hnew, hnewEntry], fun q hq => ?_⟩
      rw [hheap q hq, hentry q hq]
      exact h.live q hq
    · exact forall_mem_cons.mpr
        ⟨lt_succ_self _, fun q hq => lt_succ_of_lt (h.lt_fresh q hq)⟩
    · refine forall_mem_cons.mpr ⟨by rwa [hnewEntry], fun q hq => ?_⟩
      rw [hentry q hq]
      exact h.checked q hq
    · refine forall_mem_cons.mpr ⟨by rw [hnewEntry], fun q hq => ?_⟩
      rw [hentry q hq]
      exact h.hash_eq q hq
    · refine forall_mem_cons.mpr ⟨fun q hq hkey => ?_, fun q hq r hr hkey => ?_⟩
      · rcases mem_cons.mp hq with rfl | hq
        · rfl
        · rw [hnewEntry, hentry q hq] at hkey
          exact absurd hkey.symm (hnone q hq)
      · rcases mem_cons.mp hr with rfl | hr
        · rw [hnewEntry, hentry q hq] at hkey
          exact absurd hkey (hnone q hq)
        · rw [hentry q hq, hentry r hr] at hkey
          exact h.distinct q hq r hr hkey
    · show c.num_entries + 1 = _
      rw [h.count]
      rfl
    · exact hroom

end Holds

/-! ## Flushing -/

/-- The inner loop of the flush empties one chain. -/
lemma flush_chain_eq {chains : ℕ → List ℕ} {i fuel : ℕ} {c : Cache}
    (htable : c.table.Represents chains) (hlive : ∀ j, ∀ p ∈ chains j, (c.heap p).isSome)
    (hfuel : (chains i).length < fuel) :
    ∃ c', flush_chain i fuel c = some c' ∧ c'.table.Represents (update chains i []) ∧
      (∀ j ≠ i, ∀ p ∈ chains j, c'.heap p = c.heap p) ∧ c'.max_entries = c.max_entries ∧
      c'.fresh = c.fresh ∧ c'.mru = c.mru := by
  induction hchain : chains i generalizing chains fuel c with
  | nil =>
    obtain ⟨fuel, rfl⟩ : ∃ n, fuel = n + 1 := ⟨fuel - 1, by omega⟩
    have hget : c.table.get (.head i) = none := by simpa [hchain] using (htable.path i).get_eq
    refine ⟨c, by rw [flush_chain, hget], ?_, fun _ _ _ _ => rfl, rfl, rfl, rfl⟩
    rwa [← hchain, update_eq_self]
  | cons p rest ih =>
    obtain ⟨fuel, rfl⟩ : ∃ n, fuel = n + 1 := ⟨fuel - 1, by omega⟩
    have hget : c.table.get (.head i) = some p := by simpa [hchain] using (htable.path i).get_eq
    have hp : p ∈ chains i := by simp [hchain]
    have hfirst : chains i = [] ++ p :: rest := hchain
    have hheap1 : ∀ {j q}, q ∈ update chains i ([] ++ rest) j →
        q ∈ chains j ∧ update c.heap p none q = c.heap q := by
      intro j q hq
      obtain ⟨hq, hne⟩ := (htable.mem_remove hfirst).mp hq
      exact ⟨hq, update_of_ne hne _ _⟩
    let c1 : Cache := { c with
      table := c.table.set (.head i) (c.table.link p)
      heap := update c.heap p none }
    have htable1 : c1.table.Represents (update chains i ([] ++ rest)) :=
      htable.remove hfirst
    have hlive1 : ∀ j, ∀ q ∈ update chains i ([] ++ rest) j, (c1.heap q).isSome := by
      intro j q hq
      obtain ⟨hmem, heq⟩ := hheap1 hq
      rw [show c1.heap q = c.heap q from heq]
      exact hlive j q hmem
    have hfuel1 : (update chains i ([] ++ rest) i).length < fuel := by
      rw [hchain] at hfuel
      simpa using hfuel
    obtain ⟨c', hflush, htable', hheap, hmax, hfresh, hmru⟩ :=
      ih htable1 hlive1 hfuel1 (update_self ..)
    rw [update_idem] at htable'
    refine ⟨c', ?_, htable', fun j hj q hq => ?_, hmax, hfresh, hmru⟩
    · obtain ⟨e, he⟩ := isSome_iff_exists.mp (hlive i p hp)
      simpa [flush_chain, hget, entry_free, he] using hflush
    · have hq' : q ∈ update chains i ([] ++ rest) j := by
        rwa [update_of_ne hj]
      rw [hheap j hj q hq']
      exact (hheap1 hq').2

/-- The flush empties all chains from slot `nn` on. -/
lemma flush_chains_eq {chains : ℕ → List ℕ} (n nn : ℕ) {c : Cache}
    (htable : c.table.Represents chains) (hlive : ∀ j, ∀ p ∈ chains j, (c.heap p).isSome)
    (hlen : ∀ j, (chains j).length ≤ c.fresh) :
    ∃ c' chains', flush_chains n nn c = some c' ∧ c'.table.Represents chains' ∧
      (∀ j, chains' j = if nn ≤ j ∧ j < nn + n then [] else chains j) ∧
      c'.max_entries = c.max_entries ∧ c'.mru = c.mru := by
  induction n generalizing chains nn c with
  | zero => exact ⟨c, chains, rfl, htable, fun j => by rw [if_neg (by omega)], rfl, rfl⟩
  | succ n ih =>
    obtain ⟨c1, hflush, htable1, hheap, hmax, hfresh, hmru⟩ :=
      flush_chain_eq htable hlive (lt_succ_of_le (hlen nn))
    have hsub : ∀ j, ∀ p ∈ update chains nn [] j, j ≠ nn ∧ p ∈ chains j := by
      intro j p hp
      by_cases hj : j = nn
      · simp [hj] at hp
      · exact ⟨hj, by simpa [hj] using hp⟩
    obtain ⟨c', chains', hflushes, htable', hchains, hmax', hmru'⟩ := ih (nn + 1) htable1
      (fun j p hp => by
        obtain ⟨hj, hp⟩ := hsub j p hp
        rw [hheap j hj p hp]
        exact hlive j p hp)
      (fun j => by
        by_cases hj : j = nn
        · simp [hj]
        · rw [update_of_ne hj, hfresh]
          exact hlen j)
    refine ⟨c', chains', by rw [flush_chains, hflush, bind_some, hflushes], htable',
      fun j => ?_, hmax'.trans hmax, hmru'.trans hmru⟩
    rw [hchains j]
    by_cases hj : j = nn
    · simp [hj]
    · rw [update_of_ne hj]
      refine if_congr ?_ rfl rfl
      omega

/-- **The flush** leaves an empty cache. -/
theorem Holds.cache_flush_locked {c : Cache} {as : List ℕ} {chains : ℕ → List ℕ}
    (h : c.Holds as chains) :
    ∃ c', c.cache_flush_locked = some c' ∧ c'.max_entries = c.max_entries ∧
      c'.Holds [] fun _ => [] := by
  have hlive : ∀ j, ∀ p ∈ chains j, (c.heap p).isSome :=
    fun j p hp => by simp [h.live p ((h.mem_chains j p).mp hp).1]
  obtain ⟨c', chains', hflush, htable, hchains, hmax, -⟩ :=
    flush_chains_eq c.max_entries 0 h.table hlive h.length_chain_le
  have hempty : chains' = fun _ => [] := by
    funext j
    rw [hchains j]
    split_ifs with hj
    · rfl
    · refine eq_nil_iff_forall_not_mem.mpr fun p hp => hj ⟨zero_le _, ?_⟩
      rw [zero_add, ← ((h.mem_chains j p).mp hp).2]
      exact mod_lt _ h.pos
  refine ⟨{ c' with
    mru := (c'.mru.setNext none none).setPrev none none
    num_entries := 0
    last_id := 0 }, by simp [Cache.cache_flush_locked, hflush], hmax, ?_⟩
  exact holds_nil (represents_nil _ _) (hempty ▸ htable) rfl (hmax ▸ h.pos)

end Cache

end Droid.Resolv
