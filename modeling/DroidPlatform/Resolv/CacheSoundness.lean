import DroidPlatform.Core.Recency
import DroidPlatform.Core.Trace
import DroidPlatform.Resolv.Lemmas.CacheTable

/-!
# The resolver cache is sound

A run of the cache is any sequence of lookups, adds and flushes, at any times and with any answers.
What happened so far is a list of events, and from it one can tell, without looking into the cache,

* `latestStored` — the last answer that was stored for a query since the last flush,
* `lastUse` — the last time a query was found in the cache or stored.

The theorem says that the cache agrees: what a lookup finds is the answer that was stored last, as
long as it has not expired, and what an add throws out is the entry that was used least recently.
Along the way no operation touches a freed entry or follows a chain forever.

Queries are told apart by `SameKey`: one hash and equal as far as `entry_equals` can see.  Two
queries with the same question but different bytes after it count as different here, because the
hash goes on to the end of the packet.
-/

namespace Droid.Resolv

open List Cache.Holds

/-! ## Events -/

inductive Event
  /-- An add, and whether it made an entry. -/
  | add (query answer : Bytes) (now : ℤ) (stored : Bool)
  | lookup (query : Bytes) (answersize now : ℤ) (result : LookupResult)
  | flush
  deriving DecidableEq, Repr

/-- One call. -/
inductive Step (ns : NsParse) : Cache → Event → Cache → Prop
  | add {c c' : Cache} {query answer : Bytes} {now : ℤ} {calloc : Bool}
      (h : c.resolv_cache_add ns query answer now calloc = some c') :
      Step ns c (.add query answer now (c'.fresh ≠ c.fresh)) c'
  | lookup {c c' : Cache} {query : Bytes} {answersize now : ℤ} {result : LookupResult}
      (h : c.resolv_cache_lookup query answersize now = some (c', result)) :
      Step ns c (.lookup query answersize now result) c'
  | flush {c c' : Cache} (h : c.cache_flush_locked = some c') : Step ns c .flush c'

/-- The event found or stored an answer for the query. -/
def uses (query : Bytes) : Event → Bool
  | .add query' _ _ stored => stored && decide (SameKey query' query)
  | .lookup query' _ _ result =>
    decide (result.status = .found) && decide (SameKey query' query)
  | .flush => false

/-- What the event changes about the answer that was stored last for the query, and when. -/
def stores (query : Bytes) (latest : Option (Bytes × ℤ)) : Event → Option (Bytes × ℤ)
  | .add query' answer now stored =>
    if stored && decide (SameKey query' query) then some (answer, now) else latest
  | .lookup .. => latest
  | .flush => none

/-- The answer that was stored last for the query since the last flush, and when. -/
def latestStored (h : List Event) (query : Bytes) : Option (Bytes × ℤ) :=
  h.foldl (stores query) none

@[simp] lemma latestStored_snoc (h : List Event) (e : Event) (query : Bytes) :
    latestStored (h ++ [e]) query = stores query (latestStored h query) e := by
  simp [latestStored]

variable {now : ℤ} {answer : Bytes} (ns : NsParse)

/-- The wrap of a `time_t` makes an answer expire early, never late. -/
lemma expiry_le {ns : NsParse} (h : IsInt32 now) :
    expiry ns answer now ≤ (answer_getTTL ns answer).toNat + now := by
  have hlow := h.1
  rw [expiry, toInt32, Int.bmod_def]
  split_ifs <;> omega

/-! ## The calls -/

namespace Cache.Holds

variable {c : Cache} {as : List ℕ} {chains : ℕ → List ℕ} {query : Bytes}

lemma entry_eq {c' : Cache} {as' : List ℕ} (h : ∀ q ∈ as', c'.heap q = c.heap q) :
    ∀ q ∈ as', c'.entry q = c.entry q := fun q hq => by rw [entry, entry, h q hq]

/-- **What a lookup does.**  Either it finds nothing and at most drops an entry, or it finds the
entry with the key and moves it to the front. -/
theorem resolv_cache_lookup_cases (h : c.Holds as chains) (query : Bytes) (answersize now : ℤ) :
    ∃ c' r, c.resolv_cache_lookup query answersize now = some (c', r) ∧
      c'.max_entries = c.max_entries ∧
      ((r.status ≠ .found ∧ ∃ as' chains', c'.Holds as' chains' ∧ as'.Sublist as ∧
          ∀ q ∈ as', c'.entry q = c.entry q) ∨
        ∃ u p v, as = u ++ p :: v ∧ r.status = .found ∧ r.answer = some (c.entry p).answer ∧
          now < (c.entry p).expires ∧ SameKey (c.entry p).query query ∧
          c'.Holds (p :: (u ++ v)) chains ∧ ∀ q, c'.entry q = c.entry q) := by
  cases hkey : entry_init_key query with
  | none =>
    refine ⟨c, ⟨.unsupported, none, none⟩, by rw [resolv_cache_lookup, hkey], rfl, .inl ⟨by simp, ?_⟩⟩
    exact ⟨as, chains, h, Sublist.refl _, fun _ _ => rfl⟩
  | some key =>
    obtain ⟨-, rfl⟩ := entry_init_key_eq_some.mp hkey
    rcases h.cache_lookup_p_cases query with
      ⟨hlookup, hget, -⟩ | ⟨pre, p, post, hlookup, hget, hchain, hp, hsame⟩
    · refine ⟨c, ⟨.notfound, none, none⟩, ?_, rfl, .inl ⟨by simp, ?_⟩⟩
      · simp [resolv_cache_lookup, hkey, hlookup, hget]
      · exact ⟨as, chains, h, Sublist.refl _, fun _ _ => rfl⟩
    · obtain ⟨u, v, rfl⟩ := append_of_mem hp
      have hlive := h.live p hp
      by_cases hstale : now ≥ (c.entry p).expires
      · obtain ⟨c', hremove, hholds, hmax, -, hheap⟩ := h.cache_remove_p hchain hget
        refine ⟨c', ⟨.notfound, none, none⟩, ?_, hmax, .inl ⟨by simp, ?_⟩⟩
        · simp [resolv_cache_lookup, hkey, hlookup, hget, hlive, hstale, hremove]
        · exact ⟨_, _, hholds, by simp, entry_eq hheap⟩
      · by_cases hlong : ((c.entry p).answer.length) > answersize
        · refine ⟨c, ⟨.unsupported, some (c.entry p).answer.length, none⟩, ?_, rfl,
            .inl ⟨by simp, ?_⟩⟩
          · simp [resolv_cache_lookup, hkey, hlookup, hget, hlive, hstale, hlong]
          · exact ⟨_, chains, h, Sublist.refl _, fun _ _ => rfl⟩
        · refine ⟨{ c with mru := (if some p ≠ c.mru.nextOf none then
            entry_mru_add (entry_mru_remove c.mru p) p else c.mru) }, ⟨.found,
              some (c.entry p).answer.length,
            some (c.entry p).answer⟩, ?_, rfl,
            .inr ⟨u, p, v, rfl, rfl, rfl, not_le.mp hstale, hsame, h.bump, fun _ => rfl⟩⟩
          simp [resolv_cache_lookup, hkey, hlookup, hget, hlive, hstale, hlong]

/-- The entries an add leaves: a full cache loses its last one. -/
def survivors (c : Cache) (as : List ℕ) : List ℕ :=
  if as.length < c.max_entries then as else as.dropLast

/-- What an add comes to once there is room: `as` are the entries that are left. -/
def Stored (query answer : Bytes) (now : ℤ) (c c' : Cache) (as : List ℕ) : Prop :=
  c'.max_entries = c.max_entries ∧ (∀ q ∈ as, c'.entry q = c.entry q) ∧
    ((c'.fresh = c.fresh ∧ ∃ chains, c'.Holds as chains) ∨
      (c'.fresh = c.fresh + 1 ∧ (∃ chains, c'.Holds (c.fresh :: as) chains) ∧
        (c'.entry c.fresh).query = query ∧ (c'.entry c.fresh).answer = answer ∧
        (c'.entry c.fresh).expires = expiry ns answer now))

lemma store_answer_cases (h : c.Holds as chains) (hquery : check_query query = true)
    (hnone : ∀ p ∈ as, ¬ SameKey (c.entry p).query query) (hroom : as.length < c.max_entries)
    (ns : NsParse) (answer : Bytes) (now : ℤ) (calloc : Bool) :
    ∃ lookup c', c.cache_lookup_p ⟨hash_query query, query⟩ = some lookup ∧
      c.table.get lookup = none ∧
      c.store_answer ns ⟨hash_query query, query⟩ lookup answer now calloc = some c' ∧
      Stored ns query answer now c c' as := by
  rcases h.cache_lookup_p_cases query with ⟨hlookup, hget, -⟩ | ⟨-, p, -, -, -, -, hp, hsame⟩
  · by_cases hstore : answer_getTTL ns answer > 0 ∧ calloc = true
    · obtain ⟨httl, rfl⟩ := hstore
      obtain ⟨c', hstore, hholds, hmax, hfresh, hheap, hentry⟩ := h.store hquery hnone hroom httl
      exact ⟨_, c', hlookup, hget, hstore, hmax, entry_eq hheap, .inr ⟨hfresh, ⟨_, hholds⟩, hentry⟩⟩
    · exact ⟨_, c, hlookup, hget, by rw [store_answer, if_neg hstore], rfl,
        fun _ _ => rfl, .inl ⟨rfl, chains, h⟩⟩
  · exact absurd hsame (hnone p hp)

/-- **What an add does.**  It is ignored, or it makes room and then may store a new entry. -/
theorem resolv_cache_add_cases (h : c.Holds as chains) (ns : NsParse) (query answer : Bytes)
    (now : ℤ) (calloc : Bool) :
    ∃ c', c.resolv_cache_add ns query answer now calloc = some c' ∧
      ((c' = c ∧ (check_query query = false ∨ ∃ p ∈ as, SameKey (c.entry p).query query)) ∨
        (check_query query = true ∧ (∀ p ∈ as, ¬ SameKey (c.entry p).query query) ∧
          Stored ns query answer now c c' (survivors c as))) := by
  cases hkey : entry_init_key query with
  | none =>
    refine ⟨c, by rw [resolv_cache_add, hkey], .inl ⟨rfl, .inl ?_⟩⟩
    simpa [entry_init_key] using hkey
  | some key =>
    obtain ⟨hquery, rfl⟩ := entry_init_key_eq_some.mp hkey
    rcases h.cache_lookup_p_cases query with
      ⟨hlookup, hget, hnone⟩ | ⟨pre, p, post, hlookup, hget, -, hp, hsame⟩
    · by_cases hroom : as.length < c.max_entries
      · have hfull : ¬ c.num_entries ≥ c.max_entries := by
          rw [h.count]
          omega
        obtain ⟨lookup, c', hlookup, hget, hstore, hstored⟩ :=
          h.store_answer_cases hquery hnone hroom ns answer now calloc
        refine ⟨c', ?_, .inr ⟨hquery, hnone, ?_⟩⟩
        · simp [resolv_cache_add, hkey, hlookup, hget, hfull, hstore]
        · rwa [survivors, if_pos hroom]
      · have hfull : c.num_entries ≥ c.max_entries := by
          rw [h.count]
          omega
        obtain rfl | ⟨as, p, rfl⟩ := as.eq_nil_or_concat'
        · exact absurd h.pos hroom
        obtain ⟨c1, chains1, hremove, hholds, hmax, hfresh, hheap⟩ := h.cache_remove_oldest
        have hentry := entry_eq hheap
        have hroom1 : as.length < c1.max_entries := by
          have := h.room
          rw [length_append, length_singleton] at this
          omega
        obtain ⟨lookup, c', hlookup', hget', hstore, hstored⟩ :=
          hholds.store_answer_cases hquery
            (fun q hq => hentry q hq ▸ hnone q (by simp [hq])) hroom1 ns answer now calloc
        refine ⟨c', ?_, .inr ⟨hquery, hnone, ?_⟩⟩
        · simp [resolv_cache_add, hkey, hlookup, hget, hfull, hremove, hlookup', hget', hstore]
        · rw [survivors, if_neg hroom, dropLast_concat]
          rw [Stored, hfresh, hmax] at hstored
          exact ⟨hstored.1, fun q hq => (hstored.2.1 q hq).trans (hentry q hq), hstored.2.2⟩
    · exact ⟨c, by simp [resolv_cache_add, hkey, hlookup, hget], .inl ⟨rfl, .inr ⟨p, hp, hsame⟩⟩⟩

end Cache.Holds

/-! ## Histories -/

/-- What the events so far say about the stored entries `as`. -/
structure Recorded (ns : NsParse) (h : List Event) (c : Cache) (as : List ℕ) : Prop where
  recent : ByRecency uses h (as.map fun p => (c.entry p).query)
  latest : ∀ p ∈ as, ∀ query, SameKey (c.entry p).query query → ∃ now,
    latestStored h query = some ((c.entry p).answer, now) ∧
      (c.entry p).expires = expiry ns (c.entry p).answer now

/-- The invariant of a run. -/
def Good (max_entries : ℕ) (h : List Event) (c : Cache) : Prop :=
  c.max_entries = max_entries ∧ ∃ as chains, c.Holds as chains ∧ Recorded ns h c as

namespace Recorded

variable {ns : NsParse} {h : List Event} {e : Event} {c c' : Cache} {as as' : List ℕ}

section

variable (hrec : Recorded ns h c as) (hsub : as'.Sublist as)
  (hentry : ∀ q ∈ as', c'.entry q = c.entry q)

include hrec hsub hentry

/-- An event that neither finds nor stores anything may take entries away. -/
lemma skip (huses : ∀ query, uses query e = false)
    (hstores : ∀ query latest, stores query latest e = latest) : Recorded ns (h ++ [e]) c' as' := by
  have hmap : (as'.map fun p => (c'.entry p).query) = as'.map fun p => (c.entry p).query :=
    map_congr_left fun q hq => by rw [hentry q hq]
  refine ⟨?_, fun p hp query hsame => ?_⟩
  · rw [hmap]
    exact (hrec.recent.sublist (hsub.map _)).skip fun _ _ => huses _
  · rw [hentry p hp] at hsame ⊢
    rw [latestStored_snoc, hstores]
    exact hrec.latest p (hsub.subset hp) query hsame

/-- An event that finds or stores an answer puts the entry in front. -/
lemma use {p : ℕ} (hp : uses (c'.entry p).query e = true)
    (huses : ∀ q ∈ as', uses (c.entry q).query e = false)
    (hstores : ∀ q ∈ as', ∀ query, SameKey (c.entry q).query query → ∀ latest, stores query latest e = latest)
    (hlatest : ∀ query, SameKey (c'.entry p).query query → ∃ now, latestStored (h ++ [e]) query = some ((c'.entry p).answer, now) ∧ (c'.entry p).expires = expiry ns (c'.entry p).answer now) :
    Recorded ns (h ++ [e]) c' (p :: as') := by
  have hmap : (as'.map fun p => (c'.entry p).query) = as'.map fun p => (c.entry p).query :=
    map_congr_left fun q hq => by rw [hentry q hq]
  refine ⟨?_, forall_mem_cons.mpr ⟨hlatest, fun q hq query hsame => ?_⟩⟩
  · rw [map_cons, hmap]
    refine (hrec.recent.sublist (hsub.map _)).use hp fun k hk => ?_
    obtain ⟨q, hq, rfl⟩ := mem_map.mp hk
    exact huses q hq
  · rw [hentry q hq] at hsame ⊢
    rw [latestStored_snoc, hstores q hq query hsame]
    exact hrec.latest q (hsub.subset hq) query hsame

end

end Recorded

variable {query : Bytes} {calloc : Bool} {answersize : ℤ}

section Run

variable {ns : NsParse} {max_entries : ℕ} {h : List Event} {e : Event} {c c' : Cache}

lemma good_lookup {result : LookupResult} (hgood : Good ns max_entries h c)
    (hcall : c.resolv_cache_lookup query answersize now = some (c', result)) :
    Good ns max_entries (h ++ [.lookup query answersize now result]) c' := by
  obtain ⟨hmax, as, chains, hholds, hrec⟩ := hgood
  obtain ⟨_, _, hcall', hmax', hcases⟩ := hholds.resolv_cache_lookup_cases query answersize now
  rw [hcall] at hcall'
  cases hcall'
  refine ⟨hmax'.trans hmax, ?_⟩
  rcases hcases with ⟨hstatus, as', chains', hholds', hsub, hentry⟩ |
    ⟨u, p, v, rfl, hstatus, -, -, hsame, hholds', hentry⟩
  · refine ⟨as', chains', hholds', hrec.skip hsub hentry (fun query => ?_) fun _ _ => rfl⟩
    simp [uses, hstatus]
  · have hsub : (u ++ v).Sublist (u ++ p :: v) := by simp
    refine ⟨_, chains, hholds', hrec.use hsub (fun q _ => hentry q) ?_ (fun q hq => ?_)
      (fun _ _ _ _ _ => rfl) fun query' hsame' => ?_⟩
    · simp [uses, hstatus, hentry, hsame.symm]
    · -- another entry with this key would be the same entry
      simp only [uses, hstatus, decide_true, Bool.true_and, decide_eq_false_iff_not]
      intro hq'
      have heq := hholds.distinct p (by simp) q (hsub.subset hq) (hsame.trans hq')
      subst heq
      exact ((Chains.mem_without hholds.mru.nodup).mp hq).2 rfl
    · rw [hentry] at hsame' ⊢
      rw [latestStored_snoc]
      exact hrec.latest p (by simp) query' hsame'

lemma good_add (hgood : Good ns max_entries h c)
    (hcall : c.resolv_cache_add ns query answer now calloc = some c') :
    Good ns max_entries (h ++ [.add query answer now (c'.fresh ≠ c.fresh)]) c' := by
  obtain ⟨hmax, as, chains, hholds, hrec⟩ := hgood
  obtain ⟨_, hcall', hcases⟩ := hholds.resolv_cache_add_cases ns query answer now calloc
  rw [hcall] at hcall'
  cases hcall'
  rcases hcases with ⟨rfl, -⟩ | ⟨hquery, hnone, hmax', hentry, hstored⟩
  · refine ⟨hmax, as, chains, hholds, hrec.skip (Sublist.refl _) (fun _ _ => rfl)
      (fun query => by simp [uses]) fun query latest => by simp [stores]⟩
  · have hsub : (survivors c as).Sublist as := by
      rw [survivors]
      split_ifs
      · exact Sublist.refl _
      · exact dropLast_sublist _
    refine ⟨hmax'.trans hmax, ?_⟩
    rcases hstored with ⟨hfresh, chains', hholds'⟩ |
      ⟨hfresh, ⟨chains', hholds'⟩, hnewQuery, hnewAnswer, hnewExpires⟩
    · exact ⟨_, chains', hholds', hrec.skip hsub hentry (fun query => by simp [uses, hfresh])
        fun query latest => by simp [stores, hfresh]⟩
    · have hdiff : ∀ q ∈ survivors c as, ∀ query', SameKey (c.entry q).query query' →
          ¬ SameKey query query' := fun q hq query' hq' hnew =>
        hnone q (hsub.subset hq) (hq'.trans hnew.symm)
      refine ⟨_, chains', hholds', hrec.use hsub hentry ?_ (fun q hq => ?_)
        (fun q hq query' hq' latest => ?_) fun query' hsame => ?_⟩
      · simp [uses, hfresh, hnewQuery, SameKey.refl hquery]
      · simp only [uses, Bool.and_eq_false_iff, decide_eq_false_iff_not]
        exact .inr fun hnew => hnone q (hsub.subset hq) hnew.symm
      · simp [stores, hdiff q hq query' hq']
      · rw [hnewQuery] at hsame
        exact ⟨now, by simp [stores, hfresh, hsame, hnewAnswer], by rw [hnewExpires, hnewAnswer]⟩

lemma good_step (hgood : Good ns max_entries h c) (hstep : Step ns c e c') :
    Good ns max_entries (h ++ [e]) c' := by
  cases hstep with
  | add hcall => exact good_add hgood hcall
  | lookup hcall => exact good_lookup hgood hcall
  | flush hcall =>
    obtain ⟨hmax, as, chains, hholds, -⟩ := hgood
    obtain ⟨_, hcall', hmax', hholds'⟩ := hholds.cache_flush_locked
    rw [hcall] at hcall'
    cases hcall'
    exact ⟨hmax'.trans hmax, [], _, hholds', Pairwise.nil, by simp⟩

/-- **The run lemma.** -/
theorem good_of_runs (hpos : 1 ≤ max_entries) (run : Runs (Step ns) (.create max_entries) h c) :
    Good ns max_entries h c := by
  refine run.history ⟨rfl, [], _, Cache.holds_create hpos, Pairwise.nil, by simp⟩ ?_
  intro as s a t hgood hstep
  exact good_step hgood hstep

end Run

/-! ## Soundness -/

/-- What is true of the cache after the events `h`: the ring goes through the nodes `as` and the
slots are the heads of `chains`. -/
structure Sound (ns : NsParse) (max_entries : ℕ) (h : List Event) (c : Cache) (as : List ℕ)
    (chains : ℕ → List ℕ) : Prop where
  mru : c.mru.Represents as
  table : c.table.Represents chains
  live : ∀ p ∈ as, c.heap p = some (c.entry p)
  num_entries_eq : c.num_entries = as.length
  /-- The nodes on the chains are the nodes on the ring. -/
  nodes : ((List.range max_entries).flatMap chains).Perm as
  num_entries_le : c.num_entries ≤ max_entries
  distinct : ∀ p ∈ as, ∀ q ∈ as, (c.entry p).hash = (c.entry q).hash →
    entry_equals (c.entry p).query (c.entry q).query = true → p = q
  /-- A hit is the answer that was stored last, and it has not expired. -/
  found : ∀ {query answersize now c' r},
    c.resolv_cache_lookup query answersize now = some (c', r) → r.status = .found →
    ∃ answer added, latestStored h query = some (answer, added) ∧ r.answer = some answer ∧
      now < expiry ns answer added ∧
      (IsInt32 added → now < added + (answer_getTTL ns answer).toNat)
  /-- A full cache loses the entry that was used least recently to a new query, and only this
  one; nothing else makes an add lose an entry. -/
  evicted : ∀ {query answer now calloc c'}, c.resolv_cache_add ns query answer now calloc = some c' →
    ∃ as', c'.mru.Represents as' ∧
      (∀ p ∈ as, p ∉ as' → as.length = max_entries ∧ ∀ q ∈ as, q ≠ p → q ∈ as' ∧
        lastUse uses h (c.entry p).query < lastUse uses h (c.entry q).query) ∧
      (check_query query = true → (∀ p ∈ as, ¬ SameKey (c.entry p).query query) →
        as.length = max_entries → ∃ p ∈ as, p ∉ as')
  /-- No call touches freed memory or runs forever. -/
  returns : (∀ query answersize now, (c.resolv_cache_lookup query answersize now).isSome) ∧
    (∀ query answer now calloc, (c.resolv_cache_add ns query answer now calloc).isSome) ∧
    c.cache_flush_locked.isSome

section Sound

variable {ns : NsParse} {max_entries : ℕ} {h : List Event} {c c' : Cache} {as : List ℕ}
  {chains : ℕ → List ℕ}

lemma found_of_good (hholds : c.Holds as chains) (hrec : Recorded ns h c as) {r : LookupResult}
    (hcall : c.resolv_cache_lookup query answersize now = some (c', r))
    (hfound : r.status = .found) :
    ∃ answer added, latestStored h query = some (answer, added) ∧ r.answer = some answer ∧
      now < expiry ns answer added ∧
      (IsInt32 added → now < added + (answer_getTTL ns answer).toNat) := by
  obtain ⟨_, _, hcall', -, hcases⟩ := hholds.resolv_cache_lookup_cases query answersize now
  rw [hcall] at hcall'
  cases hcall'
  rcases hcases with ⟨hstatus, -⟩ | ⟨u, p, v, rfl, -, hanswer, hnow, hsame, -, -⟩
  · exact absurd hfound hstatus
  · obtain ⟨added, hlatest, hexpires⟩ := hrec.latest p (by simp) query hsame
    refine ⟨_, added, hlatest, hanswer, hexpires ▸ hnow, fun hadded => ?_⟩
    have hle : expiry ns (c.entry p).answer added ≤ _ := expiry_le hadded
    omega

/-- The nodes of the ring after an add. -/
lemma exists_mru_add (hholds : c.Holds as chains)
    (hcall : c.resolv_cache_add ns query answer now calloc = some c') :
    ∃ as', c'.mru.Represents as' ∧ ((as' = as ∧
        (check_query query = false ∨ ∃ p ∈ as, SameKey (c.entry p).query query)) ∨
      (∀ p ∈ as, p ∈ as' ↔ p ∈ survivors c as)) := by
  obtain ⟨_, hcall', hcases⟩ := hholds.resolv_cache_add_cases ns query answer now calloc
  rw [hcall] at hcall'
  cases hcall'
  rcases hcases with ⟨rfl, hsame⟩ | ⟨-, -, -, -, ⟨-, chains', hholds'⟩ | ⟨-, ⟨chains', hholds'⟩, -⟩⟩
  · exact ⟨as, hholds.mru, .inl ⟨rfl, hsame⟩⟩
  · exact ⟨_, hholds'.mru, .inr fun p _ => Iff.rfl⟩
  · refine ⟨_, hholds'.mru, .inr fun p hp => ?_⟩
    have hne : p ≠ c.fresh := (hholds.lt_fresh p hp).ne
    simp [hne]

lemma evicted_of_good (hholds : c.Holds as chains) (hrec : Recorded ns h c as)
    (hcall : c.resolv_cache_add ns query answer now calloc = some c') :
    ∃ as', c'.mru.Represents as' ∧
      (∀ p ∈ as, p ∉ as' → as.length = c.max_entries ∧ ∀ q ∈ as, q ≠ p → q ∈ as' ∧
        lastUse uses h (c.entry p).query < lastUse uses h (c.entry q).query) ∧
      (check_query query = true → (∀ p ∈ as, ¬ SameKey (c.entry p).query query) →
        as.length = c.max_entries → ∃ p ∈ as, p ∉ as') := by
  obtain ⟨as', hmru, ⟨rfl, hsame⟩ | hkept⟩ := exists_mru_add hholds hcall
  · refine ⟨as', hmru, fun p hp hnot => absurd hp hnot, fun hquery hnone _ => ?_⟩
    rcases hsame with hbad | ⟨p, hp, hsame⟩
    · simp [hquery] at hbad
    · exact absurd hsame (hnone p hp)
  · refine ⟨as', hmru, ?_⟩
    by_cases hroom : as.length < c.max_entries
    · simp only [survivors, if_pos hroom] at hkept
      exact ⟨fun p hp hnot => absurd ((hkept p hp).mpr hp) hnot, fun _ _ hfull => by omega⟩
    · simp only [survivors, if_neg hroom] at hkept
      have hfull : as.length = c.max_entries := le_antisymm hholds.room (not_lt.mp hroom)
      obtain rfl | ⟨rest, last, rfl⟩ := as.eq_nil_or_concat'
      · exact absurd hholds.pos hroom
      · rw [dropLast_concat] at hkept
        have hlast : last ∉ rest := by
          have hnodup := hholds.mru.nodup
          rw [nodup_append'] at hnodup
          exact fun hmem => hnodup.2.2 hmem (by simp)
        have hrecent := hrec.recent
        rw [map_append] at hrecent
        refine ⟨fun p hp hnot => ⟨hfull, fun q hq hne => ?_⟩, fun _ _ _ =>
          ⟨last, by simp, fun hmem => hlast ((hkept last (by simp)).mp hmem)⟩⟩
        have hplast : p = last := by
          by_contra hne
          exact hnot ((hkept p hp).mpr (by simpa [hne] using hp))
        subst hplast
        have hrest : q ∈ rest := by simpa [hne] using hq
        exact ⟨(hkept q hq).mpr hrest, hrecent.lt_of_mem (mem_map_of_mem hrest)⟩

end Sound

/-- **The resolver cache is sound**, after any sequence of calls. -/
theorem cache_sound (ns : NsParse) {max_entries : ℕ} (hpos : 1 ≤ max_entries) {h : List Event}
    {c : Cache} (run : Runs (Step ns) (.create max_entries) h c) :
    ∃ as chains, Sound ns max_entries h c as chains := by
  obtain ⟨rfl, as, chains, hholds, hrec⟩ := good_of_runs hpos run
  refine ⟨as, chains, ?_⟩
  exact {
    mru := hholds.mru
    table := hholds.table
    live := hholds.live
    num_entries_eq := hholds.count
    nodes := hholds.perm_flatMap.symm
    num_entries_le := by
      rw [hholds.count]
      exact_mod_cast hholds.room
    distinct := by
      intro p hp q hq hhash hequal
      rw [hholds.hash_eq p hp, hholds.hash_eq q hq] at hhash
      exact hholds.distinct p hp q hq ⟨hhash, hequal⟩
    found := fun hcall hfound => found_of_good hholds hrec hcall hfound
    evicted := fun hcall => evicted_of_good hholds hrec hcall
    returns := by
      refine ⟨fun query answersize now => ?_, fun query answer now calloc => ?_, ?_⟩
      · obtain ⟨_, _, hcall, -⟩ := hholds.resolv_cache_lookup_cases query answersize now
        simp [hcall]
      · obtain ⟨_, hcall, -⟩ := hholds.resolv_cache_add_cases ns query answer now calloc
        simp [hcall]
      · obtain ⟨_, hcall, -⟩ := hholds.cache_flush_locked
        simp [hcall] }

/-- A call of the interface. -/
inductive Call
  | add (query answer : Bytes) (now : ℤ) (calloc : Bool)
  | lookup (query : Bytes) (answersize now : ℤ)
  | flush

/-- The event a call makes. -/
def Call.run (c : Cache) : Call → Option (Event × Cache)
  | .add query answer now calloc =>
    (c.resolv_cache_add ns query answer now calloc).map fun c' =>
      (.add query answer now (c'.fresh ≠ c.fresh), c')
  | .lookup query answersize now =>
    (c.resolv_cache_lookup query answersize now).map fun (c', result) =>
      (.lookup query answersize now result, c')
  | .flush => c.cache_flush_locked.map fun c' => (.flush, c')

lemma step_of_run (c : Cache) (call : Call) (e : Event) (c' : Cache)
    (h : call.run ns c = some (e, c')) : Step ns c e c' := by
  cases call with
  | add query answer now calloc =>
    simp only [Call.run, Option.map_eq_some_iff] at h
    obtain ⟨c', hcall, rfl, rfl⟩ := h
    exact .add hcall
  | lookup query answersize now =>
    simp only [Call.run, Option.map_eq_some_iff, Prod.exists] at h
    obtain ⟨c', result, hcall, rfl, rfl⟩ := h
    exact .lookup hcall
  | flush =>
    simp only [Call.run, Option.map_eq_some_iff] at h
    obtain ⟨c', hcall, rfl, rfl⟩ := h
    exact .flush hcall

/-- A query for the address of a name of one letter. -/
def queryFor (letter : UInt8) : Bytes :=
  [0, 0, 1, 0, 0, 1, 0, 0, 0, 0, 0, 0, 1, letter, 0, 0, 1, 0, 1]

/-- A cache of one entry: a hit, an eviction and a miss. -/
def hitAndEviction : List Event :=
  [.add (queryFor 97) [1, 2] 0 true,
    .lookup (queryFor 97) 512 10 ⟨.found, some 2, some [1, 2]⟩,
    .add (queryFor 98) [3] 20 true,
    .lookup (queryFor 97) 512 30 ⟨.notfound, none, none⟩]

theorem cache_sound_hitAndEviction : ∃ c,
    Runs (Step fun _ => some [some 60]) (.create 1) hitAndEviction c ∧
      ∃ as chains, Sound (fun _ => some [some 60]) 1 hitAndEviction c as chains := by
  obtain ⟨h, c, run, rfl⟩ := Runs.exists_of_execute (P := fun h _ => h = hitAndEviction)
    (step_of_run fun _ => some [some 60]) (s := .create 1)
    [.add (queryFor 97) [1, 2] 0 true, .lookup (queryFor 97) 512 10,
      .add (queryFor 98) [3] 20 true, .lookup (queryFor 97) 512 30] (by decide +kernel)
  exact ⟨c, run, cache_sound _ le_rfl run⟩

end Droid.Resolv
