import DroidPlatform.MemoryDealer.Lemmas.Pointers

/-!
# What `alloc` and `dealloc` do to the chunks

One lemma for each operation.  The chunks of the allocator partition a heap of fewer than `2 ^ 27`
units, which is what keeps the 28-bit size field and the 32-bit starts from wrapping.
-/

namespace Droid

open List Option Prod

namespace SimpleBestFitAllocator

variable {a : SimpleBestFitAllocator} {ns pre post : List (ℕ × Chunk)} {p : ℕ} {c : Chunk}
  {size total : ℕ}

/-! ## Allocation -/

lemma mk'_eq {start : ℕ} (h : size < 2 ^ 28) : Chunk.mk' start size = ⟨start, size, true⟩ := by
  rw [Chunk.mk', Nat.mod_eq_of_lt h]

section

variable (h : a.Holds (pre ++ (p, c) :: post))

include h

lemma splitFront_spec {extra : ℕ} (hextra : extra < 2 ^ 28) (hfit : c.start + extra < 2 ^ 32) :
    ∃ front,
      (a.splitFront p c extra).1.Holds
        (pre ++ front ++ (p, { c with start := c.start + extra }) :: post) ∧
      front.map snd = (if extra = 0 then [] else [⟨c.start, extra, true⟩]) ∧
      (a.splitFront p c extra).2 = { c with start := c.start + extra } ∧
      (a.splitFront p c extra).1.mHeapSize = a.mHeapSize := by
  by_cases hzero : extra = 0
  · subst hzero
    exact ⟨[], by simpa [splitFront] using h, rfl, rfl, rfl⟩
  · have hlist := h.list
    rw [map_append] at hlist
    have hfresh : a.fresh ∉ pre.map fst ++ p :: post.map fst := by
      simpa using h.fresh_notMem
    have hnew := h.newChunk c.start extra rfl (hlist.insertBefore hfresh)
    rw [append_cons] at hnew
    have hsplit : a.splitFront p c extra =
        (setChunk { a.newChunk c.start extra with mList := a.mList.insertBefore p a.fresh } p
          { c with start := c.start + extra }, { c with start := c.start + extra }) := by
      simp only [splitFront, ne_eq, hzero, toUInt32_eq_self hfit]
      rfl
    refine ⟨[(a.fresh, .mk' c.start extra)], ?_, ?_, by rw [hsplit], by rw [hsplit]; rfl⟩
    · rw [hsplit]
      exact hnew.setChunk _
    · rw [if_neg hzero, ← mk'_eq hextra]
      rfl

lemma splitTail_spec {rest : ℕ} (hrest : rest < 2 ^ 28) (hfit : c.start + c.size < 2 ^ 32) : ∃ tail,
      (a.splitTail p c rest).Holds (pre ++ (p, c) :: (tail ++ post)) ∧
      tail.map snd = (if rest = 0 then [] else [⟨c.start + c.size, rest, true⟩]) ∧
      (a.splitTail p c rest).mHeapSize = a.mHeapSize := by
  by_cases hzero : rest = 0
  · subst hzero
    exact ⟨[], by simpa [splitTail] using h, rfl, rfl⟩
  · have hlist := h.list
    rw [map_append] at hlist
    have hfresh : a.fresh ∉ pre.map fst ++ p :: post.map fst := by
      simpa using h.fresh_notMem
    have hlink := hlist.insertAfter hfresh
    have hnew := h.newChunk (c.start + c.size) rest (append_cons pre (p, c) post)
      (by simpa using hlink)
    have hsplit : a.splitTail p c rest = { a.newChunk (c.start + c.size) rest with
        mList := a.mList.insertAfter p a.fresh } := by
      simp only [splitTail, if_pos (show (0 : ℤ) < rest by omega), toUInt32_eq_self hfit]
      rfl
    refine ⟨[(a.fresh, .mk' (c.start + c.size) rest)], ?_, ?_, by rw [hsplit]; rfl⟩
    · rw [hsplit]
      simpa using hnew
    · rw [if_neg hzero, ← mk'_eq hrest]
      rfl

/-- Taking an adequate chunk carves it. -/
lemma takeChunk_spec {units flags : ℕ} (hc : Adequate units flags c)
    (hfit : c.start + c.size < 2 ^ 27) : ∃ ns,
      (a.takeChunk p c units flags).1.Holds ns ∧
      ns.map snd = pre.map snd ++ carve units flags c ++ post.map snd ∧
      (a.takeChunk p c units flags).2 = (block units flags c).start ∧
      (a.takeChunk p c units flags).1.mHeapSize = a.mHeapSize := by
  have hsize := hc.2
  have hmod : units % 2 ^ 28 = units := Nat.mod_eq_of_lt (by omega)
  have hused := h.setChunk { c with free := false, size := units }
  by_cases hlt : units < c.size
  · -- the front piece, then the tail piece
    obtain ⟨front, hfront, hfmap, hfsnd, hfheap⟩ := splitFront_spec hused
      (by omega)
      (show c.start + extraOf flags c.start < 2 ^ 32 by omega)
    obtain ⟨tail, htail, htmap, htheap⟩ := splitTail_spec hfront
      (show c.size - (units + extraOf flags c.start) < 2 ^ 28 by omega)
      (show c.start + extraOf flags c.start + units < 2 ^ 32 by omega)
    have hcast : toInt32 (c.size - (units + extraOf flags c.start))
        = (c.size - (units + extraOf flags c.start) : ℕ) := by
      rw [toInt32_eq_self ⟨by omega, by omega⟩]
      omega
    have htake : a.takeChunk p c units flags =
        ((((a.setChunk p { c with free := false, size := units }).splitFront p
            { c with free := false, size := units } (extraOf flags c.start)).1).splitTail p
              { c with free := false, size := units, start := c.start + extraOf flags c.start }
              (c.size - (units + extraOf flags c.start) : ℕ),
          c.start + extraOf flags c.start) := by
      simp only [takeChunk, hmod, if_pos hlt, hfsnd]
      rw [hcast]
    refine ⟨_, by rw [htake]; exact htail, ?_, by rw [htake]; rfl, ?_⟩
    · simp only [map_append, map_cons, hfmap, htmap, carve, frontPiece, tailPiece, block]
      have : c.size - (units + extraOf flags c.start) = 0 ↔
          c.size = units + extraOf flags c.start := by omega
      simp [this]
    · rw [htake]
      exact htheap.trans hfheap
  · -- an exact fit is not cut at all
    have hextra : extraOf flags c.start = 0 := by omega
    have hexact : c.size = units := by omega
    have htake : a.takeChunk p c units flags =
        (a.setChunk p { c with free := false, size := units }, c.start) := by
      simp only [takeChunk, hmod, if_neg hlt]
    refine ⟨_, by rw [htake]; exact hused, ?_, by rw [htake]; simp [block, hextra], by rw [htake]; rfl⟩
    simp [carve, frontPiece, tailPiece, block, hextra, hexact]

end

lemma unitsOf_eq (hsize : size ≤ 2 ^ 32 - 32) : unitsOf size = (size + 31) / 32 := by
  have : toUInt32 (size + kMemoryAlign - 1) = size + 31 :=
    toUInt32_eq_self (by simp only [kMemoryAlign]; omega)
  rw [unitsOf, this]
  rfl

/-- **`alloc`.**  Either no chunk is adequate, and nothing changes, or a smallest adequate chunk is
carved. -/
theorem alloc_spec (flags : ℕ) (h : a.Holds ns) (htiles : Tiles 0 a.chunks total)
    (htotal : total < 2 ^ 27) (hpos : 0 < size) (hsize : size ≤ 2 ^ 32 - 32) :
    ∃ a' r, a.alloc size flags = some (a', r) ∧ a'.mHeapSize = a.mHeapSize ∧
      ((∀ c ∈ a.chunks, ¬Adequate (unitsOf size) flags c) ∧ a' = a ∧ r = Status.noMemory ∨
      ∃ pre c post, a.chunks = pre ++ c :: post ∧ Adequate (unitsOf size) flags c ∧
        (∀ d ∈ a.chunks, Adequate (unitsOf size) flags d → c.size ≤ d.size) ∧
        (∃ ns', a'.Holds ns') ∧ a'.chunks = pre ++ carve (unitsOf size) flags c ++ post ∧
        r = toInt32 ((block (unitsOf size) flags c).start * kMemoryAlign : ℕ)) := by
  have hunits : unitsOf size < 2 ^ 27 := by rw [unitsOf_eq hsize]; omega
  obtain ⟨found, hfound, hbest⟩ := bestFit_spec hunits (h)
    h.length_le (show BestOf (unitsOf size) flags [] none by simp [BestOf])
  rw [← h.mFirst_eq] at hfound
  cases found with
  | none =>
    refine ⟨a, Status.noMemory, by simp [alloc, hpos.ne', hfound], rfl, .inl ⟨?_, rfl, rfl⟩⟩
    intro c hc
    rw [h.chunks_eq] at hc
    obtain ⟨n, hn, rfl⟩ := mem_map.mp hc
    exact hbest n hn
  | some p =>
    obtain ⟨c, hc, hadequate, hmin⟩ := hbest
    obtain ⟨pre, post, rfl⟩ := append_of_mem hc
    have hcs := h.chunks_eq
    rw [map_append] at hcs
    have hfit : c.start + c.size < 2 ^ 27 :=
      ((htiles.mem_le (by simp [hcs])).2).trans_lt htotal
    obtain ⟨ns', hholds, hmap, hstart, hheap⟩ := takeChunk_spec h hadequate hfit
    refine ⟨_, toInt32 ((block (unitsOf size) flags c).start * kMemoryAlign), ?_, hheap,
      .inr ⟨pre.map snd, c, post.map snd, hcs, hadequate, ?_, ⟨ns', hholds⟩, ?_, rfl⟩⟩
    · simp [alloc, hpos.ne', hfound, h.chunk_eq, hstart]
    · intro d hd
      rw [h.chunks_eq] at hd
      obtain ⟨n, hn, rfl⟩ := mem_map.mp hd
      exact hmin n hn
    · rw [hholds.chunks_eq, hmap]

/-! ## Deallocation -/

lemma mergeBack_spec (h : a.Holds (pre ++ (p, c) :: post))
    (hfit : ∀ q ∈ pre.getLast?, q.2.size + c.size < 2 ^ 28) (freed : ℕ) : ∃ a' freed' pre',
      a.mergeBack p freed = some (a', freed') ∧ a'.Holds (pre' ++ post) ∧
      pre'.map snd = absorb (pre.map snd) c ∧ a'.mHeapSize = a.mHeapSize := by
  induction pre using reverseRecOn with
  | nil =>
    refine ⟨a, freed, [(p, c)], ?_, h, rfl, rfl⟩
    simp [mergeBack, h.prev_eq]
  | append_singleton pre q _ =>
    have hq : a.chunk q.1 = some q.2 := h.chunk q (by simp)
    have hprev : a.mList.prev p = some q.1 := by simp [h.prev_eq]
    by_cases hmerge : q.2.free ∨ c.size = 0
    · have hmod : (q.2.size + c.size) % 2 ^ 28 = q.2.size + c.size :=
        Nat.mod_eq_of_lt (hfit q (by simp))
      have hset : (a.setChunk q.1 { q.2 with size := q.2.size + c.size }).Holds
          (pre ++ [(q.1, { q.2 with size := q.2.size + c.size })] ++ (p, c) :: post) := by
        have h' : a.Holds (pre ++ (q.1, q.2) :: (p, c) :: post) := by simpa using h
        simpa using h'.setChunk { q.2 with size := q.2.size + c.size }
      refine ⟨_, q.1, _, ?_, hset.removeChunk, ?_, rfl⟩
      · simp only [mergeBack, hprev, h.chunk_eq, hq, bind_eq_bind, bind_some,
          if_pos hmerge, hmod]
        rfl
      · simp [absorb, hmerge]
    · refine ⟨a, freed, pre ++ [q] ++ [(p, c)], ?_, by simpa using h, ?_, rfl⟩
      · simp only [mergeBack, hprev, h.chunk_eq, hq, bind_eq_bind, bind_some,
          if_neg hmerge]
        rfl
      · simp [absorb, hmerge]

/-- The merging loop coalesces. -/
lemma mergeFreed_spec (htotal : total < 2 ^ 28) {fuel : ℕ} :
    ∀ {a pre p c post}, a.Holds (pre ++ (p, c) :: post) →
      Tiles 0 (pre.map snd ++ c :: post.map snd) total →
      (∀ d ∈ c :: post.map snd, 0 < d.size) → post.length < fuel → ∀ freed, ∃ a' freed' ns',
        mergeFreed fuel a p freed = some (a', freed') ∧ a'.Holds ns' ∧
        ns'.map snd = coalesce (pre.map snd) c (post.map snd) ∧
        a'.mHeapSize = a.mHeapSize := by
  induction fuel with
  | zero =>
    intro a pre p c post _ _ _ hlen
    exact absurd hlen (Nat.not_lt_zero _)
  | succ fuel ih =>
    intro a pre p c post h htiles hpos hlen freed
    have hfit : ∀ q ∈ pre.getLast?, q.2.size + c.size < 2 ^ 28 := by
      intro q hq
      have hmem : q.2 ∈ pre.map snd := mem_map_of_mem (mem_of_mem_getLast? hq)
      obtain ⟨mid, hpre, hstart, hpost⟩ := tiles_append.mp htiles
      have := (hpre.mem_le hmem).2
      have := hpost.le
      omega
    obtain ⟨a1, freed1, pre1, hback, h1, hmap1, hheap1⟩ := mergeBack_spec h hfit freed
    cases post with
    | nil =>
      refine ⟨a1, freed1, pre1, ?_, by simpa using h1, hmap1, hheap1⟩
      simp [mergeFreed, hback, h.next_eq]
    | cons n post =>
      cases hfree : n.2.free with
      | true =>
        have htiles1 : Tiles 0 (pre1.map snd ++ n.2 :: post.map snd) total := by
          rw [hmap1]
          rw [append_cons] at htiles
          obtain ⟨mid, hpre, hpost⟩ := tiles_append.mp htiles
          exact tiles_append.mpr ⟨mid, tiles_absorb (hpos c (by simp)) hpre, hpost⟩
        obtain ⟨a', freed', ns', hrun, hns', hmap, hheap⟩ := ih h1 htiles1
          (fun d hd => hpos d (mem_cons_of_mem _ hd)) (by simpa using hlen) freed1
        refine ⟨a', freed', ns', ?_, hns', ?_, hheap.trans hheap1⟩
        · simp [mergeFreed, hback, h.next_eq, h1.chunk_eq, hfree, hrun]
        · simp [hmap, hmap1, coalesce, hfree]
      | false =>
        refine ⟨a1, freed1, pre1 ++ n :: post, ?_, h1, ?_, hheap1⟩
        · simp [mergeFreed, hback, h.next_eq, h1.chunk_eq, hfree]
        · simp [hmap1, coalesce, hfree]

/-- **`dealloc`** of the offset of a chunk frees this chunk and coalesces it. -/
theorem dealloc_spec (h : a.Holds ns) (hpart : Partition total a.chunks) (htotal : total < 2 ^ 28)
    (hc : c ∈ a.chunks) : ∃ a' freed pre post,
      a.dealloc (c.start * kMemoryAlign) = some (a', some freed) ∧
      a'.mHeapSize = a.mHeapSize ∧ a.chunks = pre ++ c :: post ∧ (∃ ns', a'.Holds ns') ∧
      a'.chunks = coalesce pre { c with free := true } post := by
  have hsearch := @findStart_spec a.fresh a c.start [] ns h h.length_le
  rw [← h.mFirst_eq] at hsearch
  obtain ⟨found, hfound, hspec⟩ := hsearch
  have hoffset : c.start * kMemoryAlign / kMemoryAlign = c.start :=
    Nat.mul_div_cancel _ (by decide)
  cases found with
  | none =>
    rw [h.chunks_eq] at hc
    obtain ⟨n, hn, rfl⟩ := mem_map.mp hc
    exact absurd rfl (hspec n hn)
  | some p =>
    obtain ⟨d, hd, hstart⟩ := hspec
    have hd' : d ∈ a.chunks := by
      rw [h.chunks_eq]
      exact mem_map_of_mem hd
    obtain rfl := hpart.start_injective hd' hc hstart
    obtain ⟨pre, post, rfl⟩ := append_of_mem hd
    have hcs := h.chunks_eq
    rw [map_append] at hcs
    rw [hcs] at hpart
    have hfuel : post.length < a.fresh := by
      have := h.length_le
      simp only [length_append, length_cons] at this
      omega
    obtain ⟨a', freed, ns', hmerge, hholds, hmap, hheap⟩ := mergeFreed_spec htotal
      (h.setChunk { d with free := true })
      (hpart.tiles.setFree true)
      (forall_mem_cons.mpr ⟨hpart.pos d (by simp), fun e he => hpart.pos e (by simp [he])⟩)
      hfuel p
    refine ⟨a', freed, pre.map snd, post.map snd, ?_, hheap, hcs, ⟨ns', hholds⟩, ?_⟩
    · simp only [dealloc, hoffset, hfound, h.chunk_eq, bind_eq_bind, bind_some]
      rw [show (a.setChunk p { d with free := true }).fresh = a.fresh from rfl, hmerge]
      rfl
    · rw [hholds.chunks_eq, hmap]

end SimpleBestFitAllocator

end Droid
