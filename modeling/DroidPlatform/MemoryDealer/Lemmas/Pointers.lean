import DroidPlatform.MemoryDealer.ChunkList

/-!
# The pointer list behind the chunk list

`Holds a ns` says that the list of the allocator `a` goes through the addresses of `ns`, in this
order, and that each address holds the chunk `ns` says.  Under it every operation of the allocator
returns — no loop runs out of fuel, nothing freed is touched — and does to the chunks what the list
functions `carve` and `coalesce` do.
-/

namespace Droid

open List Nat Prod SimpleBestFitAllocator

namespace SimpleBestFitAllocator

structure Holds (a : SimpleBestFitAllocator) (ns : List (ℕ × Chunk)) : Prop where
  list : a.mList.Represents (ns.map Prod.fst)
  chunk : ∀ n ∈ ns, a.chunk n.1 = some n.2
  fresh : ∀ n ∈ ns, n.1 < a.fresh

variable {n : ℕ × Chunk} {fuel : ℕ}

namespace Holds

variable {a : SimpleBestFitAllocator} {ns pre post : List (ℕ × Chunk)} {p : ℕ} {c : Chunk}

/-- There is fuel for one turn a node. -/
lemma length_le (h : a.Holds ns) : ns.length ≤ a.fresh := by
  have hsub : (ns.map fst).toFinset ⊆ Finset.range a.fresh := by
    intro q hq
    obtain ⟨n, hn, rfl⟩ := mem_map.mp (mem_toFinset.mp hq)
    exact mem_range.mpr (h.fresh n hn)
  have hcard := Finset.card_le_card hsub
  rwa [toFinset_card_of_nodup h.list.nodup, Finset.card_range, length_map] at hcard

lemma next_eq (h : a.Holds (pre ++ (p, c) :: post)) :
    a.mList.next p = post.head?.map fst := by
  have := h.list
  rw [map_append] at this
  rw [this.next_eq, head?_map]

lemma prev_eq (h : a.Holds (pre ++ (p, c) :: post)) :
    a.mList.prev p = pre.getLast?.map fst := by
  have := h.list
  rw [map_append] at this
  rw [this.prev_eq, getLast?_map]

lemma mFirst_eq (h : a.Holds ns) : a.mList.mFirst = ns.head?.map fst := by
  rw [h.list.mFirst_eq, head?_map]

lemma chunk_eq (h : a.Holds (pre ++ (p, c) :: post)) : a.chunk p = some c :=
  h.chunk (p, c) (by simp)

/-- An address occurs once. -/
lemma ne_of_mem (h : a.Holds (pre ++ (p, c) :: post)) (hn : n ∈ pre ++ post) : n.1 ≠ p := by
  intro heq
  have hnodup := h.list.nodup
  rw [map_append, map_cons, nodup_middle, nodup_cons, ← map_append]
    at hnodup
  exact hnodup.1 (mem_map.mpr ⟨n, hn, heq⟩)

lemma fresh_notMem (h : a.Holds ns) : a.fresh ∉ ns.map fst := by
  intro hmem
  obtain ⟨n, hn, heq⟩ := mem_map.mp hmem
  exact absurd (h.fresh n hn) (by omega)

/-- The walk along `next` finds the chunks that are held. -/
lemma chunksFrom_eq : ∀ {pre post}, a.Holds (pre ++ post) → post.length ≤ fuel →
    a.chunksFrom fuel (post.head?.map fst) = post.map snd := by
  induction fuel with
  | zero =>
    intro pre post _ hlen
    rw [length_eq_zero_iff.mp (le_zero.mp hlen)]
    rfl
  | succ fuel ih =>
    intro pre post h hlen
    cases post with
    | nil => rfl
    | cons n post =>
      have hrest := ih (append_cons pre n post ▸ h) (by simpa using hlen)
      simp [chunksFrom, h.chunk_eq, h.next_eq, hrest]

lemma chunks_eq (h : a.Holds ns) : a.chunks = ns.map snd := by
  rw [chunks, h.mFirst_eq]
  exact chunksFrom_eq (show a.Holds ([] ++ ns) from h) h.length_le

/-! ## Single edits -/

lemma setChunk (h : a.Holds (pre ++ (p, c) :: post)) (d : Chunk) :
    (a.setChunk p d).Holds (pre ++ (p, d) :: post) := by
  refine ⟨by simpa [SimpleBestFitAllocator.setChunk] using h.list, ?_, ?_⟩
  · intro n hn
    simp only [SimpleBestFitAllocator.setChunk, Function.update_apply]
    rw [mem_append, mem_cons] at hn
    rcases hn with hn | rfl | hn
    · rw [if_neg (h.ne_of_mem (by simp [hn]))]
      exact h.chunk n (by simp [hn])
    · simp
    · rw [if_neg (h.ne_of_mem (by simp [hn]))]
      exact h.chunk n (by simp [hn])
  · intro n hn
    rw [mem_append, mem_cons] at hn
    rcases hn with hn | rfl | hn
    · exact h.fresh n (by simp [hn])
    · exact h.fresh (p, c) (by simp)
    · exact h.fresh n (by simp [hn])

/-- `new` leaves the nodes alone; the new chunk can be linked in anywhere. -/
lemma newChunk (h : a.Holds ns) (start size : ℕ) {l : LinkedList ℕ} {left right : List (ℕ × Chunk)}
    (hns : ns = left ++ right) (hl : l.Represents
      (left.map fst ++ a.fresh :: right.map fst)) :
    Holds { a.newChunk start size with mList := l }
      (left ++ (a.fresh, .mk' start size) :: right) := by
  subst hns
  refine ⟨by simpa using hl, ?_, ?_⟩
  · intro n hn
    simp only [newChunk, SimpleBestFitAllocator.setChunk,
      Function.update_apply]
    split_ifs with hfresh
    · rw [mem_append, mem_cons] at hn
      rcases hn with hn | rfl | hn
      · exact absurd (h.fresh n (by simp [hn])) (by omega)
      · rfl
      · exact absurd (h.fresh n (by simp [hn])) (by omega)
    · rw [mem_append, mem_cons] at hn
      rcases hn with hn | rfl | hn
      · exact h.chunk n (by simp [hn])
      · exact absurd rfl hfresh
      · exact h.chunk n (by simp [hn])
  · intro n hn
    rw [mem_append, mem_cons] at hn
    rcases hn with hn | rfl | hn
    · exact (h.fresh n (by simp [hn])).trans (lt_succ_self _)
    · exact lt_succ_self _
    · exact (h.fresh n (by simp [hn])).trans (lt_succ_self _)

lemma removeChunk (h : a.Holds (pre ++ (p, c) :: post)) :
    (deleteChunk { a with mList := a.mList.remove p } p).Holds (pre ++ post) := by
  have hlist := h.list
  rw [map_append] at hlist
  refine ⟨by simpa [deleteChunk] using hlist.remove, ?_, ?_⟩
  · intro n hn
    simp only [deleteChunk, Function.update_of_ne (h.ne_of_mem hn)]
    exact h.chunk n (by simp only [mem_append] at hn ⊢; tauto)
  · intro n hn
    exact h.fresh n (by simp only [mem_append] at hn ⊢; tauto)

end Holds

variable {a : SimpleBestFitAllocator} {ns pre post : List (ℕ × Chunk)} {p : ℕ} {c : Chunk}
  {flags units : ℕ} {seen : List (ℕ × Chunk)} {best : Option ℕ}

/-- The search of `dealloc` ends at the first chunk with the given start. -/
lemma findStart_spec {start : ℕ} : ∀ {pre post}, a.Holds (pre ++ post) → post.length ≤ fuel →
    ∃ r, a.findStart start fuel (post.head?.map fst) = some r ∧
      match r with
      | none => ∀ n ∈ post, n.2.start ≠ start
      | some p => ∃ c, (p, c) ∈ post ∧ c.start = start := by
  induction fuel with
  | zero =>
    intro pre post _ hlen
    rw [length_eq_zero_iff.mp (le_zero.mp hlen)]
    exact ⟨none, rfl, by simp⟩
  | succ fuel ih =>
    intro pre post h hlen
    cases post with
    | nil => exact ⟨none, rfl, by simp⟩
    | cons n post =>
      obtain ⟨r, hr, hspec⟩ := ih (append_cons pre n post ▸ h) (by simpa using hlen)
      by_cases hstart : n.2.start = start
      · exact ⟨some n.1, by simp [findStart, h.chunk_eq, hstart], n.2, by simp, hstart⟩
      · refine ⟨r, by simp [findStart, h.chunk_eq, hstart, h.next_eq, hr], ?_⟩
        cases r with
        | none => simpa [hstart] using hspec
        | some q =>
          obtain ⟨c, hc, hcs⟩ := hspec
          exact ⟨c, by simp [hc], hcs⟩

/-- What the best-fit loop knows of the chunks it has seen. -/
def BestOf (units flags : ℕ) (seen : List (ℕ × Chunk)) : Option ℕ → Prop
  | none => ∀ n ∈ seen, ¬Adequate units flags n.2
  | some p => ∃ c, (p, c) ∈ seen ∧ Adequate units flags c ∧
      ∀ n ∈ seen, Adequate units flags n.2 → c.size ≤ n.2.size

lemma extraOf_lt (flags start : ℕ) : extraOf flags start < 128 := by
  unfold extraOf
  split_ifs
  · exact and_lt_two_pow _ (show getpagesize / kMemoryAlign - 1 < 2 ^ 7 by decide)
  · norm_num

/-- The test of the loop is not disturbed by the width of `size_t`. -/
lemma adequate_iff (hunits : units < 2 ^ 27) (c : Chunk) :
    Adequate units flags c ↔
      (c.free ∧ toUInt32 (units + extraOf flags c.start) ≤ c.size) := by
  have := extraOf_lt flags c.start
  rw [toUInt32_eq_self (by omega)]
  rfl

/-- One chunk more has been seen. -/
lemma BestOf.step (hchunk : ∀ m ∈ seen, a.chunk m.1 = some m.2)
    (hbest : BestOf units flags seen best) (hn : Adequate units flags n.2) :
    ∃ better, a.isBetter n.2 best = some better ∧
      BestOf units flags (seen ++ [n]) (if better then some n.1 else best) := by
  cases best with
  | none =>
    refine ⟨true, rfl, n.2, by simp, hn, fun m hm hadequate => ?_⟩
    rcases mem_append.mp hm with hm | hm
    · exact absurd hadequate (hbest m hm)
    · rw [mem_singleton.mp hm]
  | some p =>
    obtain ⟨c, hc, hadequate, hmin⟩ := hbest
    refine ⟨decide (n.2.size < c.size), by simp [isBetter, hchunk _ hc], ?_⟩
    by_cases hlt : n.2.size < c.size
    · rw [decide_eq_true hlt]
      refine ⟨n.2, by simp, hn, fun m hm hm' => ?_⟩
      rcases mem_append.mp hm with hm | hm
      · exact hlt.le.trans (hmin m hm hm')
      · rw [mem_singleton.mp hm]
    · rw [decide_eq_false hlt]
      refine ⟨c, by simp [hc], hadequate, fun m hm hm' => ?_⟩
      rcases mem_append.mp hm with hm | hm
      · exact hmin m hm hm'
      · rw [mem_singleton.mp hm]
        exact not_lt.mp hlt

/-- A best chunk of exactly the size asked for is not beaten by what follows. -/
lemma BestOf.of_exact (hn : Adequate units flags n.2) (hexact : n.2.size = units)
    (hbest : BestOf units flags (seen ++ [n]) best) (rest : List (ℕ × Chunk)) :
    BestOf units flags (seen ++ n :: rest) best := by
  cases best with
  | none => exact absurd hn (hbest n (by simp))
  | some p =>
    obtain ⟨c, hc, hadequate, hmin⟩ := hbest
    refine ⟨c, by simp only [mem_append, mem_cons] at hc ⊢; tauto, hadequate, ?_⟩
    intro m _ hm
    calc c.size ≤ n.2.size := hmin n (by simp) hn
      _ = units := hexact
      _ ≤ m.2.size := (le_add_right _ _).trans hm.2

lemma bestFit_cons (hunits : units < 2 ^ 27) (h : a.Holds (pre ++ n :: post)) (fuel : ℕ)
    (best : Option ℕ) :
    a.bestFit units flags (fuel + 1) (some n.1) best =
      if Adequate units flags n.2 then
        (a.isBetter n.2 best).bind fun better =>
          if n.2.size = units then some (if better then some n.1 else best)
          else a.bestFit units flags fuel (post.head?.map fst)
            (if better then some n.1 else best)
      else a.bestFit units flags fuel (post.head?.map fst) best := by
  simp only [adequate_iff hunits, bestFit, h.chunk_eq, h.next_eq]
  rfl

/-- **The best-fit loop** returns a smallest adequate chunk, or null if there is none. -/
lemma bestFit_spec (hunits : units < 2 ^ 27) :
    ∀ {pre post best}, a.Holds (pre ++ post) → post.length ≤ fuel → BestOf units flags pre best →
      ∃ r, a.bestFit units flags fuel (post.head?.map fst) best = some r ∧
        BestOf units flags (pre ++ post) r := by
  induction fuel with
  | zero =>
    intro pre post best _ hlen hbest
    rw [length_eq_zero_iff.mp (le_zero.mp hlen)]
    exact ⟨best, rfl, by simpa using hbest⟩
  | succ fuel ih =>
    intro pre post best h hlen hbest
    cases post with
    | nil => exact ⟨best, rfl, by simpa using hbest⟩
    | cons n post =>
      have h' : a.Holds (pre ++ [n] ++ post) := append_cons pre n post ▸ h
      have hlen' : post.length ≤ fuel := by simpa using hlen
      by_cases hn : Adequate units flags n.2
      · obtain ⟨better, hbetter, hbest'⟩ := BestOf.step
          (fun m hm => h.chunk m (by simp [hm])) hbest hn
        by_cases hexact : n.2.size = units
        · refine ⟨_, ?_, hbest'.of_exact hn hexact post⟩
          simp [bestFit_cons hunits h, hn, hbetter, hexact]
        · obtain ⟨r, hr, hspec⟩ := ih h' hlen' hbest'
          refine ⟨r, ?_, by simpa using hspec⟩
          simp [bestFit_cons hunits h, hn, hbetter, hexact, hr]
      · have hbest' : BestOf units flags (pre ++ [n]) best := by
          cases best with
          | none => simpa [BestOf, or_imp, forall_and, hn] using hbest
          | some p =>
            obtain ⟨c, hc, hadequate, hmin⟩ := hbest
            refine ⟨c, by simp [hc], hadequate, fun m hm hm' => ?_⟩
            rcases mem_append.mp hm with hm | hm
            · exact hmin m hm hm'
            · exact absurd hm' (mem_singleton.mp hm ▸ hn)
        obtain ⟨r, hr, hspec⟩ := ih h' hlen' hbest'
        refine ⟨r, ?_, by simpa using hspec⟩
        simp [bestFit_cons hunits h, hn, hr]

end SimpleBestFitAllocator

end Droid
