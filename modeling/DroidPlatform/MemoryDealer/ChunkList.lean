import DroidPlatform.MemoryDealer.Allocator

/-!
# Lists of chunks

What the allocator is for, said without pointers: a list of chunks that **partitions** the heap
(`Partition`).  Consecutive chunks touch, none is empty, and no two neighbours are both free.

The two things that happen to such a list are `carve`, which replaces a free chunk by the block
that was asked for and its free remainders, and `coalesce`, which folds a chunk that has become
free into its neighbours.  Both keep the partition, and both change the chunks in use in exactly
one place.
-/

namespace Droid

open List

namespace SimpleBestFitAllocator

/-! ## Partitions -/

/-- The chunks cover `[start, stop)` in order, each beginning where the one before it ends. -/
def Tiles (start : ℕ) : List Chunk → ℕ → Prop
  | [], stop => start = stop
  | c :: cs, stop => c.start = start ∧ Tiles (start + c.size) cs stop

instance decidableTiles : ∀ (start : ℕ) (cs : List Chunk) (stop : ℕ), Decidable (Tiles start cs stop)
  | start, [], stop => inferInstanceAs (Decidable (start = stop))
  | start, c :: cs, stop =>
    have := decidableTiles (start + c.size) cs stop
    inferInstanceAs (Decidable (c.start = start ∧ Tiles (start + c.size) cs stop))

/-- No two neighbours are both free. -/
def Coalesced (cs : List Chunk) : Prop := cs.IsChain fun c d => ¬(c.free ∧ d.free)

structure Partition (total : ℕ) (cs : List Chunk) : Prop where
  tiles : Tiles 0 cs total
  pos : ∀ c ∈ cs, 0 < c.size
  coalesced : Coalesced cs

/-- The chunks in use. -/
def inUse (cs : List Chunk) : List Chunk := cs.filter fun c => !c.free

@[simp] lemma inUse_nil : inUse [] = [] := rfl

@[simp] lemma inUse_append (cs ds : List Chunk) : inUse (cs ++ ds) = inUse cs ++ inUse ds :=
  filter_append ..

variable {c : Chunk}

lemma inUse_cons_of_free (h : c.free = true) (cs : List Chunk) : inUse (c :: cs) = inUse cs := by
  simp [inUse, h]

lemma inUse_cons_of_used (h : c.free = false) (cs : List Chunk) :
    inUse (c :: cs) = c :: inUse cs := by
  simp [inUse, h]

variable {cs : List Chunk} {start stop : ℕ}

lemma tiles_append {ds : List Chunk} : Tiles start (cs ++ ds) stop ↔
    ∃ mid, Tiles start cs mid ∧ Tiles mid ds stop := by
  induction cs generalizing start with
  | nil => simp [Tiles]
  | cons c cs ih => simp [Tiles, ih, and_assoc]

variable {post pre : List Chunk}

/-- Whether a chunk is free does not matter for the tiling. -/
lemma Tiles.setFree (h : Tiles start (pre ++ c :: post) stop) (free : Bool) :
    Tiles start (pre ++ { c with free } :: post) stop := by
  obtain ⟨mid, hpre, hrest⟩ := tiles_append.mp h
  exact tiles_append.mpr ⟨mid, hpre, hrest⟩

lemma Tiles.le (h : Tiles start cs stop) : start ≤ stop := by
  induction cs generalizing start with
  | nil => exact le_of_eq h
  | cons c cs ih => exact (Nat.le_add_right _ _).trans (ih h.2)

/-- Every chunk of a tiling lies inside of it. -/
lemma Tiles.mem_le (h : Tiles start cs stop) (hc : c ∈ cs) :
    start ≤ c.start ∧ c.start + c.size ≤ stop := by
  induction cs generalizing start with
  | nil => simp at hc
  | cons d cs ih =>
    rcases mem_cons.mp hc with rfl | hc
    · exact ⟨h.1.ge, h.1 ▸ h.2.le⟩
    · exact ⟨(Nat.le_add_right _ _).trans (ih h.2 hc).1, (ih h.2 hc).2⟩

/-- Chunks of a tiling lie one after the other. -/
lemma Tiles.pairwise (h : Tiles start cs stop) :
    cs.Pairwise fun c d => c.start + c.size ≤ d.start := by
  induction cs generalizing start with
  | nil => exact .nil
  | cons c cs ih =>
    refine pairwise_cons.mpr ⟨fun d hd => ?_, ih h.2⟩
    rw [h.1]
    exact (h.2.mem_le hd).1

variable {total : ℕ} {d : Chunk}

/-- The chunks of a partition are told apart by their starts. -/
lemma Partition.start_injective (h : Partition total cs) (hc : c ∈ cs) (hd : d ∈ cs)
    (heq : c.start = d.start) : c = d := by
  have hnodup : (cs.map Chunk.start).Nodup := by
    refine pairwise_map.mpr (h.tiles.pairwise.imp_of_mem fun hc _ hle => ?_)
    have := h.pos _ hc
    omega
  exact inj_on_of_nodup_map hnodup hc hd heq

/-- A free list without free neighbours is a single chunk. -/
lemma Partition.eq_singleton (h : Partition total cs) (htotal : 0 < total) (hfree : inUse cs = []) :
    cs = [⟨0, total, true⟩] := by
  match cs, h with
  | [], h => exact absurd h.tiles (by simp [Tiles]; omega)
  | [⟨start, size, free⟩], h =>
    have hsize : size = total := by simpa [Tiles] using h.tiles.2
    have hstart : start = 0 := h.tiles.1
    have hfree : free = true := by simpa [inUse] using hfree
    rw [hstart, hsize, hfree]
  | c :: d :: cs, h =>
    simp only [inUse, filter_eq_nil_iff] at hfree
    exact absurd (isChain_cons_cons.mp h.coalesced).1 (by simp_all)

/-! ## Carving -/

/-- A free chunk that can hold `units` units from its first suitably aligned one on. -/
def Adequate (units flags : ℕ) (c : Chunk) : Prop :=
  c.free = true ∧ units + extraOf flags c.start ≤ c.size

instance (units flags : ℕ) (c : Chunk) : Decidable (Adequate units flags c) :=
  inferInstanceAs (Decidable (_ ∧ _))

/-- The free piece that aligns the block. -/
def frontPiece (flags : ℕ) (c : Chunk) : List Chunk :=
  if extraOf flags c.start = 0 then [] else [⟨c.start, extraOf flags c.start, true⟩]

/-- The block itself. -/
def block (units flags : ℕ) (c : Chunk) : Chunk := ⟨c.start + extraOf flags c.start, units, false⟩

/-- The free piece behind the block. -/
def tailPiece (units flags : ℕ) (c : Chunk) : List Chunk :=
  if c.size = units + extraOf flags c.start then []
  else [⟨c.start + extraOf flags c.start + units, c.size - (units + extraOf flags c.start), true⟩]

/-- A free chunk cut up for a block of `units` units. -/
def carve (units flags : ℕ) (c : Chunk) : List Chunk :=
  frontPiece flags c ++ block units flags c :: tailPiece units flags c

variable {flags units : ℕ}

lemma tiles_carve (h : Adequate units flags c) :
    Tiles c.start (carve units flags c) (c.start + c.size) := by
  have hsize := h.2
  rw [carve, tiles_append]
  refine ⟨c.start + extraOf flags c.start, ?_, rfl, ?_⟩
  · unfold frontPiece
    split_ifs with hextra
    · simp [Tiles, hextra]
    · simp [Tiles]
  · unfold tailPiece block
    split_ifs with hexact
    · simp only [Tiles]
      omega
    · simp only [Tiles, true_and]
      omega

lemma pos_carve (hunits : 0 < units) (h : Adequate units flags c) (hd : d ∈ carve units flags c) :
    0 < d.size := by
  have hsize := h.2
  rw [carve, mem_append, mem_cons] at hd
  rcases hd with hd | rfl | hd
  · unfold frontPiece at hd
    split_ifs at hd with hextra
    · simp at hd
    · rw [mem_singleton.mp hd]
      exact pos_of_ne_zero hextra
  · exact hunits
  · unfold tailPiece at hd
    split_ifs at hd with hexact
    · simp at hd
    · rw [mem_singleton.mp hd]
      show 0 < c.size - (units + extraOf flags c.start)
      omega

lemma inUse_carve (units flags : ℕ) (c : Chunk) :
    inUse (carve units flags c) = [block units flags c] := by
  have hfront : inUse (frontPiece flags c) = [] := by
    unfold frontPiece
    split_ifs <;> rfl
  have htail : inUse (tailPiece units flags c) = [] := by
    unfold tailPiece
    split_ifs <;> rfl
  rw [carve, inUse_append, hfront, inUse_cons_of_used rfl, htail, nil_append]

/-- The neighbours of a free chunk are in use, so its free pieces meet no free neighbour. -/
lemma coalesced_carve (hc : c.free = true) (h : Coalesced (pre ++ c :: post)) :
    Coalesced (pre ++ carve units flags c ++ post) := by
  obtain ⟨hpre, hcpost, hseam⟩ := isChain_append.mp h
  obtain ⟨hnext, hpost⟩ := isChain_cons.mp hcpost
  have htail : Coalesced (block units flags c :: tailPiece units flags c ++ post) := by
    unfold tailPiece
    split_ifs with hexact
    · exact isChain_cons.mpr ⟨fun d _ => by simp [block], hpost⟩
    · refine isChain_cons_cons.mpr ⟨by simp [block], isChain_cons.mpr ⟨?_, hpost⟩⟩
      intro d hd
      simp_all
  rw [carve, append_assoc]
  refine hpre.append ?_ ?_
  · unfold frontPiece
    split_ifs with hextra
    · exact htail
    · exact isChain_cons_cons.mpr ⟨by simp [block], htail⟩
  · intro d hd e he
    simp_all

/-- **Carving keeps the partition.** -/
theorem Partition.carve (h : Partition total (pre ++ c :: post)) (hunits : 0 < units)
    (hc : Adequate units flags c) : Partition total (pre ++ carve units flags c ++ post) := by
  obtain ⟨mid, hpre, hstart, hpost⟩ := tiles_append.mp h.tiles
  refine ⟨?_, ?_, coalesced_carve hc.1 h.coalesced⟩
  · rw [append_assoc]
    refine tiles_append.mpr ⟨mid, hpre, tiles_append.mpr ⟨mid + c.size, ?_, hpost⟩⟩
    rw [← hstart]
    exact tiles_carve hc
  · intro d hd
    simp only [mem_append] at hd
    rcases hd with (hd | hd) | hd
    · exact h.pos d (by simp [hd])
    · exact pos_carve hunits hc hd
    · exact h.pos d (by simp [hd])

/-! ## Coalescing -/

/-- Fold a chunk into the one before it if that one is free. -/
def absorb (pre : List Chunk) (c : Chunk) : List Chunk :=
  match pre.getLast? with
  | none => pre ++ [c]
  | some p =>
    if p.free ∨ c.size = 0 then pre.dropLast ++ [{ p with size := p.size + c.size }]
    else pre ++ [c]

/-- Fold the chunk `c`, and then every free chunk that follows, into what is before it. -/
def coalesce (pre : List Chunk) (c : Chunk) : List Chunk → List Chunk
  | [] => absorb pre c
  | n :: post => if n.free then coalesce (absorb pre c) n post else absorb pre c ++ n :: post

/-- The two outcomes of `absorb`. -/
lemma absorb_cases (pre : List Chunk) (hc : 0 < c.size) :
    (∃ pre' p, pre = pre' ++ [p] ∧ p.free = true ∧
      absorb pre c = pre' ++ [{ p with size := p.size + c.size }]) ∨
    ((∀ p ∈ pre.getLast?, p.free = false) ∧ absorb pre c = pre ++ [c]) := by
  induction pre using reverseRecOn with
  | nil => exact .inr ⟨by simp, rfl⟩
  | append_singleton pre p _ =>
    cases hp : p.free with
    | true => exact .inl ⟨pre, p, rfl, hp, by simp [absorb, hp]⟩
    | false => exact .inr ⟨by simp [hp], by simp [absorb, hp, hc.ne']⟩

lemma tiles_absorb (hc : 0 < c.size) (h : Tiles start (pre ++ [c]) stop) :
    Tiles start (absorb pre c) stop := by
  rcases absorb_cases pre hc with ⟨pre', p, rfl, -, heq⟩ | ⟨-, heq⟩
  · rw [heq]
    rw [append_assoc] at h
    obtain ⟨mid, hpre, hp, -, hstop⟩ := tiles_append.mp h
    exact tiles_append.mpr ⟨mid, hpre, hp, by rw [← hstop]; exact (add_assoc ..).symm⟩
  · rw [heq]
    exact h

lemma pos_absorb (hc : 0 < c.size) (hpre : ∀ d ∈ pre, 0 < d.size) :
    ∀ d ∈ absorb pre c, 0 < d.size := by
  intro d hd
  rcases absorb_cases pre hc with ⟨pre', p, rfl, -, heq⟩ | ⟨-, heq⟩
  · rw [heq, mem_append, mem_singleton] at hd
    rcases hd with hd | rfl
    · exact hpre d (by simp [hd])
    · exact Nat.add_pos_right _ hc
  · rw [heq, mem_append, mem_singleton] at hd
    rcases hd with hd | rfl
    · exact hpre d hd
    · exact hc

lemma inUse_absorb (hc : 0 < c.size) (hfree : c.free = true) :
    inUse (absorb pre c) = inUse pre := by
  rcases absorb_cases pre hc with ⟨pre', p, rfl, hp, heq⟩ | ⟨-, heq⟩
  · simp [heq, inUse, hp]
  · simp [heq, inUse, hfree]

/-- What was folded is coalesced, and it ends with a free chunk. -/
lemma coalesced_absorb (hc : 0 < c.size) (hfree : c.free = true) (hpre : Coalesced pre) :
    Coalesced (absorb pre c) ∧ ∀ d ∈ (absorb pre c).getLast?, d.free = true := by
  rcases absorb_cases pre hc with ⟨pre', p, rfl, hp, heq⟩ | ⟨hlast, heq⟩
  · rw [heq]
    obtain ⟨hpre', -, hseam⟩ := isChain_append.mp hpre
    refine ⟨hpre'.append (isChain_singleton _) ?_, by simp [hp]⟩
    intro d hd e he
    simp_all
  · rw [heq]
    refine ⟨hpre.append (isChain_singleton _) ?_, by simp [hfree]⟩
    intro d hd e _
    simp [hlast d hd]

lemma tiles_coalesce : ∀ {pre : List Chunk} {c : Chunk},
    0 < c.size → (∀ d ∈ post, 0 < d.size) → Tiles start (pre ++ c :: post) stop →
      Tiles start (coalesce pre c post) stop := by
  induction post with
  | nil =>
    intro pre c hc _ h
    exact tiles_absorb hc h
  | cons n post ih =>
    intro pre c hc hpos h
    rw [append_cons] at h
    obtain ⟨mid, hpre, hpost⟩ := tiles_append.mp h
    have h' : Tiles start (absorb pre c ++ n :: post) stop :=
      tiles_append.mpr ⟨mid, tiles_absorb hc hpre, hpost⟩
    rw [coalesce]
    split_ifs
    · exact ih (hpos n (by simp)) (fun d hd => hpos d (by simp [hd])) h'
    · exact h'

lemma pos_coalesce : ∀ {pre : List Chunk} {c : Chunk}, 0 < c.size →
    (∀ d ∈ pre, 0 < d.size) → (∀ d ∈ post, 0 < d.size) → ∀ d ∈ coalesce pre c post, 0 < d.size := by
  induction post with
  | nil =>
    intro pre c hc hpre _
    exact pos_absorb hc hpre
  | cons n post ih =>
    intro pre c hc hpre hpost d hd
    rw [coalesce] at hd
    split_ifs at hd
    · exact ih (hpost n (by simp)) (pos_absorb hc hpre) (fun e he => hpost e (by simp [he])) d hd
    · rcases mem_append.mp hd with hd | hd
      · exact pos_absorb hc hpre d hd
      · exact hpost d hd

lemma inUse_coalesce : ∀ {pre : List Chunk} {c : Chunk}, 0 < c.size →
    c.free = true → (∀ d ∈ post, 0 < d.size) →
      inUse (coalesce pre c post) = inUse pre ++ inUse post := by
  induction post with
  | nil =>
    intro pre c hc hfree _
    simp [coalesce, inUse_absorb hc hfree]
  | cons n post ih =>
    intro pre c hc hfree hpos
    rw [coalesce]
    split_ifs with hn
    · rw [ih (hpos n (by simp)) hn fun d hd => hpos d (by simp [hd]), inUse_absorb hc hfree,
        inUse_cons_of_free hn]
    · rw [inUse_append, inUse_absorb hc hfree]

lemma coalesced_coalesce : ∀ {pre : List Chunk} {c : Chunk}, 0 < c.size →
    c.free = true → (∀ d ∈ post, 0 < d.size) → Coalesced pre → Coalesced post →
      Coalesced (coalesce pre c post) := by
  induction post with
  | nil =>
    intro pre c hc hfree _ hpre _
    exact (coalesced_absorb hc hfree hpre).1
  | cons n post ih =>
    intro pre c hc hfree hpos hpre hpost
    obtain ⟨habsorb, hlast⟩ := coalesced_absorb hc hfree hpre
    rw [coalesce]
    split_ifs with hn
    · exact ih (hpos n (by simp)) hn (fun d hd => hpos d (by simp [hd])) habsorb
        (isChain_cons.mp hpost).2
    · refine habsorb.append hpost fun d _ e he => ?_
      simp_all

/-- **Coalescing keeps the partition.** -/
theorem Partition.coalesce (h : Partition total (pre ++ c :: post)) :
    Partition total (coalesce pre { c with free := true } post) := by
  have hc : 0 < c.size := h.pos c (by simp)
  have hpost : ∀ d ∈ post, 0 < d.size := fun d hd => h.pos d (by simp [hd])
  obtain ⟨hpre, hcpost, -⟩ := isChain_append.mp h.coalesced
  exact ⟨tiles_coalesce hc hpost (h.tiles.setFree true),
    pos_coalesce hc (fun d hd => h.pos d (by simp [hd])) hpost,
    coalesced_coalesce hc rfl hpost hpre (isChain_cons.mp hcpost).2⟩

/-- A chunk that is freed is no longer in use, and nothing else changes. -/
lemma Partition.inUse_coalesce
    (h : Partition total (pre ++ c :: post)) :
    inUse (SimpleBestFitAllocator.coalesce pre { c with free := true } post)
      = inUse pre ++ inUse post :=
  SimpleBestFitAllocator.inUse_coalesce (h.pos c (by simp)) rfl fun d hd => h.pos d (by simp [hd])

end SimpleBestFitAllocator

end Droid
