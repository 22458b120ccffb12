import DroidPlatform.Ext4.Allocator.Lemmas.Groups

/-!
# The regions of an allocation

`TookAll` says that the regions of one call were taken one after the other.  `do_allocate_spec` is what
a call that succeeds does to the groups, and `walk_linked` reads the regions off the linked list.
-/

namespace Droid.Ext4

open List Option Nat

variable {info : FsInfo} {bgs bgs' : Groups} {i len : ℕ} {spans : List Span} {s : Span}
  {alloc : BlockAllocation}

/-! ## Regions, one after the other -/

/-- Regions that were taken one after the other; none of them is empty. -/
inductive TookAll (info : FsInfo) : Groups → List Span → Groups → Prop
  | nil {bgs : Groups} : TookAll info bgs [] bgs
  | cons {bgs bgs₁ bgs' : Groups} {s : Span} {spans : List Span} (pos : 0 < s.len)
      (took : Took info bgs s bgs₁) (rest : TookAll info bgs₁ spans bgs') :
      TookAll info bgs (s :: spans) bgs'

lemma TookAll.cons_inv (h : TookAll info bgs (s :: spans) bgs') :
    ∃ bgs1, 0 < s.len ∧ Took info bgs s bgs1 ∧ TookAll info bgs1 spans bgs' := by
  cases h with
  | cons pos took rest => exact ⟨_, pos, took, rest⟩

lemma TookAll.consistent (h : TookAll info bgs spans bgs') :
    info.Consistent bgs → info.Consistent bgs' := by
  induction h with
  | nil => exact id
  | cons _ took _ ih => exact fun hbgs => ih (took.consistent hbgs)

/-- Nothing is taken from a group that is full. -/
lemma TookAll.eq_of_full (h : TookAll info bgs spans bgs') :
    (bgs i).free_blocks = 0 → bgs' i = bgs i := by
  induction h with
  | nil => exact fun _ => rfl
  | @cons _ _ _ s _ pos took _ ih =>
    intro hfull
    have hne : i ≠ s.bg := by
      rintro rfl
      exact absurd took.le (by omega)
    have heq := took.other i hne
    rw [ih (by rw [heq, hfull]), heq]

section Allocate

variable (hinfo : info.Proper) (force : Bool) {fuel : ℕ}

/-- The group that `ext4_allocate_partial` looks for. -/
def firstUnused (info : FsInfo) (bgs : Groups) : Option ℕ :=
  (List.range info.groups).find? fun i => (bgs i).data_blocks_used = 0

lemma firstUnused_lt (h : firstUnused info bgs = some i) : i < info.groups :=
  mem_range.mp (mem_of_find?_eq_some h)

include hinfo in
/-- What `ext4_allocate_partial` takes, if it takes anything. -/
lemma ext4_allocate_partial_spec (hbgs : info.Consistent bgs) (hpos : 0 < len)
    (hi : firstUnused info bgs = some i) (hfree : 0 < (bgs i).free_blocks) :
    ∃ s bgs', ext4_allocate_partial info force bgs len = some (some s, bgs') ∧
      Took info bgs s bgs' ∧ s.len = min len (bgs i).free_blocks ∧
      ((bgs i).free_blocks < len → s.bg = i) := by
  have hlt := firstUnused_lt hi
  rw [firstUnused] at hi
  rw [ ext4_allocate_partial, hi]
  dsimp only
  by_cases hlen : len ≤ (bgs i).free_blocks
  · rw [if_pos hlen]
    rcases contiguousFrom_spec hinfo force hbgs hpos info.groups 0 (zero_add _).le with
      ⟨s, bgs', hrun, hs, htook, -⟩ | ⟨-, hnone⟩
    · exact ⟨s, bgs', hrun, htook, by omega, fun h => by omega⟩
    · have := hnone i (zero_le _) (by omega)
      omega
  · obtain ⟨block, bgs', hfrom, hok, htook⟩ :=
      ext4_allocate_blocks_from_block_group_eq hinfo force hbgs hlt hfree le_rfl
    refine ⟨_, bgs', ?_, htook, ?_, fun _ => rfl⟩
    · rw [if_neg hlen, hfrom]
      simp [hok]
    · exact (min_eq_right (not_le.mp hlen).le).symm

lemma ext4_allocate_partial_of_none (hi : firstUnused info bgs = none) :
    ext4_allocate_partial info force bgs len = some (none, bgs) := by
  rw [firstUnused] at hi
  rw [ ext4_allocate_partial, hi]

lemma multipleOn_succ {bgs1 : Groups}
    (h : ext4_allocate_partial info force bgs (len + 1) = some (some s, bgs1)) :
    multipleOn info force (fuel + 1) bgs (len + 1) =
      (multipleOn info force fuel bgs1 (len + 1 - s.len)).map fun r => (r.1.map (s :: ·), r.2) := by
  rw [multipleOn, h]
  cases hrest : multipleOn info force fuel bgs1 (len + 1 - s.len) <;> simp [hrest]

/-- An unused group without free blocks is found again and again. -/
lemma multipleOn_of_full (hi : firstUnused info bgs = some i) (hfull : (bgs i).free_blocks = 0)
    (fuel : ℕ) : multipleOn info force fuel bgs (len + 1) =
      if 0 < fuel ∧ force = true ∧
          toUInt32 ((bgs i).first_block + (bgs i).first_free_block) = EXT4_ALLOCATE_FAILED then
        some (none, bgs) else none := by
  induction fuel with
  | zero => simp [multipleOn]
  | succ fuel ih =>
    have hpartial : ext4_allocate_partial info force bgs (len + 1) =
        if toUInt32 ((bgs i).first_block + (bgs i).first_free_block) = EXT4_ALLOCATE_FAILED then
          if force then some (none, bgs) else none
        else some (some ⟨toUInt32 ((bgs i).first_block + (bgs i).first_free_block), 0, i⟩, bgs) := by
      rw [firstUnused] at hi
      rw [ ext4_allocate_partial, hi]
      simp [hfull, ext4_allocate_blocks_from_block_group_zero]
    by_cases hblock :
        toUInt32 ((bgs i).first_block + (bgs i).first_free_block) = EXT4_ALLOCATE_FAILED
    · rw [multipleOn, hpartial]
      cases force <;> simp [hblock]
    · rw [if_neg hblock] at hpartial
      rw [multipleOn_succ force hpartial, Nat.sub_zero, ih]
      simp [hblock]

include hinfo in
/-- One turn of the loop, if the loop ends well: the first region, and the others. -/
lemma multipleOn_cases (hbgs : info.Consistent bgs)
    (hrun : multipleOn info force fuel bgs (len + 1) = some (some spans, bgs')) :
    ∃ i s rest bgs1 fuel', firstUnused info bgs = some i ∧ 0 < (bgs i).free_blocks ∧
      spans = s :: rest ∧ Took info bgs s bgs1 ∧ s.len = min (len + 1) (bgs i).free_blocks ∧
      ((bgs i).free_blocks < len + 1 → s.bg = i) ∧ fuel = fuel' + 1 ∧
      multipleOn info force fuel' bgs1 (len + 1 - s.len) = some (some rest, bgs') := by
  cases hi : firstUnused info bgs with
  | none =>
    cases fuel with
    | zero => simp [multipleOn] at hrun
    | succ fuel =>
      rw [multipleOn, ext4_allocate_partial_of_none force hi] at hrun
      simp at hrun
  | some i =>
    have hfree : 0 < (bgs i).free_blocks := pos_of_ne_zero fun hfull => by
      rw [multipleOn_of_full force hi hfull] at hrun
      split_ifs at hrun
      cases hrun
    cases fuel with
    | zero => simp [multipleOn] at hrun
    | succ fuel =>
      obtain ⟨s, bgs1, hpartial, htook, hs, hbg⟩ :=
        ext4_allocate_partial_spec hinfo force hbgs len.succ_pos hi hfree
      rw [multipleOn_succ force hpartial] at hrun
      obtain ⟨⟨regs, bgs''⟩, hrest, heq⟩ := map_eq_some_iff.mp hrun
      simp only [Prod.mk.injEq, map_eq_some_iff] at heq
      obtain ⟨⟨rest, rfl, rfl⟩, rfl⟩ := heq
      exact ⟨i, s, rest, bgs1, fuel, rfl, hfree, rfl, htook, hs, hbg, rfl, hrest⟩

include hinfo in
/-- **The loop rule.**  What holds of no region, and of a region and the others if it holds of the
others, holds of the regions that the loop allocates. -/
lemma multipleOn_induction {P : Groups → ℕ → List Span → Prop} (hnil : P bgs' 0 [])
    (hcons : ∀ {bgs bgs1 : Groups} {len i : ℕ} {s : Span} {rest : List Span}, info.Consistent bgs →
      firstUnused info bgs = some i → 0 < (bgs i).free_blocks → Took info bgs s bgs1 →
      s.len = min (len + 1) (bgs i).free_blocks → ((bgs i).free_blocks < len + 1 → s.bg = i) →
      P bgs1 (len + 1 - s.len) rest → P bgs (len + 1) (s :: rest)) :
    ∀ {fuel : ℕ} {bgs : Groups} {len : ℕ} {spans : List Span}, info.Consistent bgs →
      multipleOn info force fuel bgs len = some (some spans, bgs') → P bgs len spans := by
  intro fuel
  induction fuel with
  | zero =>
    intro bgs len spans _ hrun
    cases len with
    | zero =>
      obtain ⟨rfl, rfl⟩ := hrun
      exact hnil
    | succ len => simp [multipleOn] at hrun
  | succ fuel ih =>
    intro bgs len spans hbgs hrun
    cases len with
    | zero =>
      obtain ⟨rfl, rfl⟩ := hrun
      exact hnil
    | succ len =>
      obtain ⟨i, s, rest, bgs1, fuel', hi, hfree, rfl, htook, hs, hbg, hfuel, hrest⟩ :=
        multipleOn_cases hinfo force hbgs hrun
      obtain rfl : fuel = fuel' := succ_injective hfuel
      exact hcons hbgs hi hfree htook hs hbg (ih (htook.consistent hbgs) hrest)

include hinfo in
lemma multipleOn_spec (hbgs : info.Consistent bgs)
    (hrun : multipleOn info force fuel bgs len = some (some spans, bgs')) :
    TookAll info bgs spans bgs' ∧ (spans.map Span.len).sum = len := by
  refine multipleOn_induction hinfo force
    (P := fun bgs len spans => TookAll info bgs spans bgs' ∧ (spans.map Span.len).sum = len)
    ⟨.nil, rfl⟩ ?_ hbgs hrun
  rintro bgs bgs1 len i s rest - - hfree htook hs - ⟨hall, hsum⟩
  refine ⟨.cons (by omega) htook hall, ?_⟩
  rw [map_cons, sum_cons]
  omega

include hinfo in
/-- **Allocation.**  The regions of a call that succeeds are taken one after the other, and if there is
more than one, then there is no group with enough free blocks. -/
lemma do_allocate_spec (hbgs : info.Consistent bgs) (hpos : 0 < len) (hne : spans ≠ [])
    (hrun : do_allocate info force bgs len = some (spans, bgs')) :
    TookAll info bgs spans bgs' ∧ (spans.map Span.len).sum = len ∧
      ((∃ s, spans = [s]) ∨ (∀ j < info.groups, (bgs j).free_blocks < len) ∧
        multipleOn info force len bgs len = some (some spans, bgs')) := by
  rw [do_allocate, ext4_allocate_contiguous_blocks] at hrun
  rcases contiguousFrom_spec hinfo force hbgs hpos info.groups 0 (zero_add _).le with
    ⟨s, bgs1, hcont, hs, htook, -⟩ | ⟨hcont, hnone⟩
  · rw [hcont] at hrun
    obtain ⟨rfl, rfl⟩ := hrun
    exact ⟨.cons (by omega) htook .nil, by simpa using hs, .inl ⟨s, rfl⟩⟩
  · rw [hcont] at hrun
    simp only [bind_eq_bind, Option.pure_def, ext4_allocate_multiple_contiguous_blocks] at hrun
    cases hmult : multipleOn info force len bgs len with
    | none => simp [hmult] at hrun
    | some r =>
      obtain ⟨regs, bgs1⟩ := r
      simp only [hmult, bind_some, some.injEq, Prod.mk.injEq] at hrun
      obtain ⟨hregs, rfl⟩ := hrun
      cases regs with
      | none => exact absurd hregs.symm hne
      | some regs =>
        obtain rfl : regs = spans := hregs
        obtain ⟨hall, hsum⟩ := multipleOn_spec hinfo force hbgs hmult
        exact ⟨hall, hsum, .inr ⟨fun j hj => hnone j (zero_le _) (by omega), rfl⟩⟩

/-- A call for no blocks changes nothing. -/
lemma do_allocate_zero (info : FsInfo) (bgs : Groups) :
    ∃ spans, do_allocate info force bgs 0 = some (spans, bgs) ∧ (∀ s ∈ spans, s.len = 0) ∧
      (spans = [] ∨ ∃ s, spans = [s]) := by
  obtain ⟨r, hcont, hr⟩ := contiguousFrom_zero force bgs info.groups 0
  rw [do_allocate, ext4_allocate_contiguous_blocks, hcont]
  cases r with
  | none => exact ⟨[], by simp [ext4_allocate_multiple_contiguous_blocks, multipleOn], by simp,
    .inl rfl⟩
  | some s => exact ⟨[s], by simp, by simpa using hr, .inr ⟨s, rfl⟩⟩

end Allocate

/-! ## The linked list -/

/-- The blocks of a region. -/
def Span.blocks (s : Span) : List ℕ := List.range' s.block s.len

namespace BlockAllocation

variable (regions : List Region)

/-- The regions from `a` up to `n`, each linked to the next. -/
def Linked (a n : ℕ) : Prop :=
  ∀ k, a ≤ k → k < n →
    ∃ r, regions[k]? = some r ∧ r.next = if k + 1 < n then some (k + 1) else none

lemma walkOn_none (fuel : ℕ) : walkOn regions fuel none = [] := by
  cases fuel <;> rfl

lemma walkOn_linked {regions : List Region} {a n : ℕ} (h : Linked regions a n) : ∀ {fuel k : ℕ},
    a ≤ k → k < n → n ≤ k + fuel → walkOn regions fuel (some k) = (regions.take n).drop k
  | 0, k, _, hk, hfuel => by omega
  | fuel + 1, k, ha, hk, hfuel => by
    obtain ⟨r, hr, hnext⟩ := h k ha hk
    obtain ⟨hlt, hget⟩ := List.getElem?_eq_some_iff.mp hr
    have hdrop : (regions.take n).drop k = r :: (regions.take n).drop (k + 1) := by
      rw [drop_eq_getElem_cons (by rw [length_take]; omega), getElem_take, hget]
    have hstep : walkOn regions (fuel + 1) (some k) = r :: walkOn regions fuel r.next := by
      rw [walkOn, bind_some, hr]
    rw [hstep, hdrop, hnext]
    split_ifs with hlast
    · rw [walkOn_linked h (by omega) hlast (by omega)]
    · rw [walkOn_none, drop_eq_nil_of_le (by rw [length_take]; omega)]

@[simp] lemma length_link (spans : List Span) : (link spans).length = spans.length := by
  simp [link]

lemma linked_link (spans : List Span) : Linked (link spans) 0 spans.length := by
  intro k _ hk
  refine ⟨_, getElem?_eq_getElem (by simpa using hk), ?_⟩
  simp [link]

lemma map_toSpan_link (spans : List Span) : (link spans).map Region.toSpan = spans := by
  refine ext_getElem (by simp) fun k h1 h2 => ?_
  simp [link]

variable {n : ℕ}

/-- Only the length of a region changes. -/
lemma Linked.modify {regions : List Region} {a : ℕ} (h : Linked regions a n) {p : ℕ}
    {f : Region → Region} (hf : ∀ r, (f r).next = r.next) : Linked (regions.modify p f) a n := by
  intro k ha hk
  obtain ⟨r, hr, hnext⟩ := h k ha hk
  refine ⟨if p = k then f r else r, ?_, ?_⟩
  · rw [getElem?_modify, hr]
    split_ifs <;> rfl
  · rw [← hnext]
    by_cases hpk : p = k
    · rw [if_pos hpk, hf]
    · rw [if_neg hpk]

/-- The blocks that an allocation holds. -/
def blocks (alloc : BlockAllocation) : List ℕ :=
  (alloc.walk alloc.list.first ++ alloc.walk alloc.oob_list.first).flatMap fun r => r.blocks

/-- The allocation that `allocate_blocks` returns. -/
def ofSpans (spans : List Span) : BlockAllocation where
  regions := link spans
  list := { first := some 0, last := some 0, iter := some 0 }
  oob_list := {}

lemma walk_none (alloc : BlockAllocation) : alloc.walk none = [] := walkOn_none _ _

lemma walk_of_linked (h : Linked alloc.regions 0 n) (hn : 0 < n) (hle : n ≤ alloc.regions.length) :
    alloc.walk (some 0) = alloc.regions.take n := by
  rw [walk, walkOn_linked h le_rfl hn (by omega), drop_zero]

lemma walk_ofSpans (s : Span) (spans : List Span) :
    (ofSpans (s :: spans)).walk (some 0) = link (s :: spans) := by
  have hlen := length_link (s :: spans)
  rw [walk_of_linked (linked_link (s :: spans)) (succ_pos _) hlen.ge]
  exact take_of_length_le hlen.le

lemma flatMap_blocks :
    regions.flatMap (fun r => r.blocks) = (regions.map Region.toSpan).flatMap Span.blocks :=
  (flatMap_map _ _ _).symm

lemma blocks_ofSpans (s : Span) (spans : List Span) :
    (ofSpans (s :: spans)).blocks = (s :: spans).flatMap Span.blocks := by
  have hoob : (ofSpans (s :: spans)).walk (ofSpans (s :: spans)).oob_list.first = [] := walk_none _
  rw [blocks, hoob, append_nil]
  show ((ofSpans (s :: spans)).walk (some 0)).flatMap _ = _
  rw [walk_ofSpans, flatMap_blocks, map_toSpan_link]

/-! ## Returning one block -/

/-- The first region, one block shorter. -/
def trim (alloc : BlockAllocation) : BlockAllocation :=
  alloc.update 0 fun r => { r with len := r.len - 1 }

lemma reduce_ofSpans_of_lt (bgs : Groups) (spans : List Span) (hs : 1 < s.len) :
    (ofSpans (s :: spans)).reduce_allocation bgs 1 =
      some ((ofSpans (s :: spans)).trim,
        Function.update bgs s.bg (free_blocks (bgs s.bg) 1)) := by
  simp [reduce_allocation, ofSpans, link, hs, trim]

lemma reduce_ofSpans_of_eq (bgs : Groups) (spans : List Span) (hs : s.len = 1) :
    (ofSpans (s :: spans)).reduce_allocation bgs 1 =
      some ({ ofSpans (s :: spans) with list := {} },
        Function.update bgs s.bg (free_blocks (bgs s.bg) 1)) := by
  simp [reduce_allocation, ofSpans, link, hs]

lemma reduce_ofSpans_of_zero (bgs : Groups) (spans : List Span) (hs : s.len = 0) :
    (ofSpans (s :: spans)).reduce_allocation bgs 1 = none := by
  simp [reduce_allocation, ofSpans, link, hs]

lemma walk_trim (s : Span) (spans : List Span) :
    (ofSpans (s :: spans)).trim.walk (some 0) =
      (link (s :: spans)).modify 0 fun r => { r with len := r.len - 1 } := by
  have hlen : (ofSpans (s :: spans)).trim.regions.length = (s :: spans).length := by
    rw [trim, update, length_modify]
    exact length_link _
  have hlinked : Linked (ofSpans (s :: spans)).trim.regions 0 (s :: spans).length :=
    (linked_link (s :: spans)).modify fun _ => rfl
  rw [walk_of_linked hlinked (succ_pos _) hlen.ge]
  exact take_of_length_le hlen.le

lemma map_toSpan_trim (s : Span) (spans : List Span) :
    ((link (s :: spans)).modify 0 fun r => { r with len := r.len - 1 }).map Region.toSpan =
      { s with len := s.len - 1 } :: spans := by
  have hlink : link (s :: spans) = (link (s :: spans)).head (by simp [link]) ::
      (link (s :: spans)).tail := (cons_head_tail _).symm
  have hmap := map_toSpan_link (s :: spans)
  rw [hlink, map_cons, cons.injEq] at hmap
  rw [hlink, modify_zero_cons, map_cons, hmap.2]
  exact congrArg (fun t : Span => { t with len := t.len - 1 } :: spans) hmap.1

lemma blocks_trim (s : Span) (spans : List Span) :
    (ofSpans (s :: spans)).trim.blocks =
      range' s.block (s.len - 1) ++ spans.flatMap Span.blocks := by
  have hoob : (ofSpans (s :: spans)).trim.walk (ofSpans (s :: spans)).trim.oob_list.first = [] :=
    walk_none _
  rw [blocks, hoob, append_nil]
  show ((ofSpans (s :: spans)).trim.walk (some 0)).flatMap _ = _
  rw [walk_trim, flatMap_blocks, map_toSpan_trim]
  rfl

end BlockAllocation

section

variable (force : Bool)

/-- `allocate_blocks` is `do_allocate`, with the regions linked. -/
lemma allocate_blocks_cases (h : allocate_blocks info force bgs len = some (some alloc, bgs')) :
    ∃ s spans, do_allocate info force bgs len = some (s :: spans, bgs') ∧
      alloc = .ofSpans (s :: spans) := by
  rw [allocate_blocks] at h
  cases hdo : do_allocate info force bgs len with
  | none => simp [hdo] at h
  | some r =>
    obtain ⟨spans, bgs1⟩ := r
    cases spans with
    | nil => simp [hdo] at h
    | cons s spans =>
      simp only [hdo] at h
      obtain ⟨rfl, rfl⟩ := h
      exact ⟨s, spans, rfl, rfl⟩

end

end Droid.Ext4
