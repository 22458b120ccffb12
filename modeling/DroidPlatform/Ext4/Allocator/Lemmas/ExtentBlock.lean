import DroidPlatform.Ext4.Allocator.Extent
import DroidPlatform.Ext4.Allocator.Lemmas.Regions

/-!
# The extent block

What `reserve_oob_blocks(alloc, 1)` does to the linked list of an allocation.  If the first region has
more than one block, its first block is split off (`reserve_oob_of_lt`).  If it has one block only,
`do_split_allocation` returns the *second* region without moving the list's iterator, and all regions
but the first are moved to the other list (`reserve_oob_of_eq`).
-/

namespace Droid.Ext4.BlockAllocation

open List

/-- The regions of an allocation, the first one apart. -/
lemma link_cons (s : Span) (spans : List Span) :
    ∃ rs : List Region, link (s :: spans) =
        { s with next := if spans = [] then none else some 1, prev := none } :: rs ∧
      rs.length = spans.length ∧ rs.map Region.toSpan = spans ∧
      ∀ k < rs.length, ∃ r, rs[k]? = some r ∧ r.prev = some k ∧
        r.next = if k + 1 < rs.length then some (k + 2) else none := by
  refine ⟨(link (s :: spans)).tail, ?_, by simp, ?_, ?_⟩
  · cases spans <;> simp [link]
  · have hmap := map_toSpan_link (s :: spans)
    rw [map_tail, hmap, tail_cons]
  · intro k hk
    refine ⟨_, getElem?_eq_getElem hk, ?_⟩
    simp [link]

lemma modify_concat {α : Type*} (l : List α) (x : α) (f : α → α) :
    (l ++ [x]).modify l.length f = l ++ [f x] := by
  induction l with
  | nil => rfl
  | cons a l ih => simp [ih]

variable {s : Span} {alloc : BlockAllocation} {spans : List Span} {rs : List Region} {n p : ℕ}

/-- The first region after its first block was split off: it is linked to the second one. -/
def restOf (s : Span) (next prev : Option ℕ) : Region :=
  { block := s.block + 1, len := s.len - 1, bg := s.bg, next, prev }

/-- The allocation with its first block in the other list. -/
def extentBlockSplit (s : Span) (next : Option ℕ) (rs : List Region) : BlockAllocation where
  regions := { s with len := 1, next := none, prev := none } :: (rs ++ [restOf s next none])
  list := { first := some (rs.length + 1), last := none, iter := some (rs.length + 1) }
  oob_list := { first := some 0, last := some 0, iter := some 0 }

lemma reserve_oob_eq (hs : 1 < s.len) {next : Option ℕ}
    (hlink : link (s :: spans) = { s with next, prev := none } :: rs) :
    (ofSpans (s :: spans)).reserve_oob_blocks 1 = some (true, extentBlockSplit s next rs) := by
  have hsplit : (ofSpans (s :: spans)).split_allocation 1 =
      some (some 0,
        { regions := { s with len := 1, next := some (rs.length + 1), prev := none } ::
            (rs ++ [restOf s next (some 0)])
          list := { first := some 0, last := some 0, iter := some (rs.length + 1) }
          oob_list := {} }) := by
    have h0 : ¬ s.len = 0 := by omega
    have h1 : ¬ s.len ≤ 1 := by omega
    simp [split_allocation, do_split_allocation, splitPoint, ofSpans, hlink, h0, h1, update, restOf]
  simp [reserve_oob_blocks, hsplit, moveToOob, region_list_remove, region_list_append, update,
    modify_concat, restOf, extentBlockSplit]

/-- From the rest of the first region the list goes on with the second one. -/
lemma regionsLeft_extentBlockSplit {next : Option ℕ}
    (hnext : next = if rs.length = 0 then none else some 1)
    (hlinks : ∀ k < rs.length, ∃ r, rs[k]? = some r ∧ r.prev = some k ∧
      r.next = if k + 1 < rs.length then some (k + 2) else none) :
    (extentBlockSplit s next rs).regionsLeft = restOf s next none :: rs := by
  have hrest : walkOn (extentBlockSplit s next rs).regions (rs.length + 1) next = rs := by
    split_ifs at hnext with hrs
    · rw [hnext, walkOn_none, length_eq_zero_iff.mp hrs]
    · have hlinked : Linked (extentBlockSplit s next rs).regions 1 (rs.length + 1) := by
        intro k hk hlt
        obtain ⟨k, rfl⟩ := Nat.exists_eq_add_of_le' hk
        obtain ⟨r, hr, -, hnext⟩ := hlinks k (by omega)
        refine ⟨r, ?_, by simpa using hnext⟩
        rw [extentBlockSplit, getElem?_cons_succ, getElem?_append_left (by omega), hr]
      rw [hnext] at hlinked ⊢
      rw [walkOn_linked hlinked le_rfl (by omega) (by omega)]
      simp [extentBlockSplit]
  have hwalk : (extentBlockSplit s next rs).walk (some (rs.length + 1)) =
      restOf s next none :: rs := by
    have hfuel : (extentBlockSplit s next rs).regions.length = rs.length + 1 + 1 := by
      simp [extentBlockSplit]
    have hget : (extentBlockSplit s next rs).regions[rs.length + 1]? = some (restOf s next none) := by
      simp [extentBlockSplit]
    rw [walk, hfuel, walkOn, Option.bind_some, hget]
    exact congrArg _ hrest
  show ((extentBlockSplit s next rs).walk (some (rs.length + 1))).modify 0 _ = _
  rw [hwalk]
  rfl

/-- The first block of the first region is split off. -/
lemma reserve_oob_of_lt (spans : List Span) (hs : 1 < s.len) :
    ∃ alloc, (ofSpans (s :: spans)).reserve_oob_blocks 1 = some (true, alloc) ∧
      alloc.regionsLeft.map Region.toSpan =
        { s with block := s.block + 1, len := s.len - 1 } :: spans ∧
      alloc.get_oob_block 0 = s.block := by
  obtain ⟨rs, hlink, hlen, hmap, hlinks⟩ := link_cons s spans
  refine ⟨_, reserve_oob_eq hs hlink, ?_, ?_⟩
  · rw [regionsLeft_extentBlockSplit (by simp [hlen]) hlinks, map_cons, hmap]
    rfl
  · simp [get_oob_block, walk, walkOn, blockOf, extentBlockSplit]

/-! ## A first region of one block -/

/-- Where the loop of `reserve_oob_blocks` is: the regions from `p` up to `n` are still in the list,
behind the first region. -/
structure Moving (s : Span) (n p : ℕ) (alloc : BlockAllocation) : Prop where
  length : alloc.regions.length = n
  pos : 0 < p
  first : ∃ r, alloc.regions[0]? = some r ∧ r.toSpan = s ∧ r.next = if p < n then some p else none
  rest : ∀ k, p ≤ k → k < n → ∃ r, alloc.regions[k]? = some r ∧
    r.prev = some (if k = p then 0 else k - 1) ∧ r.next = if k + 1 < n then some (k + 1) else none
  list : alloc.list = { first := some 0, last := some 0, iter := some 0 }
  oob : ∀ l ∈ alloc.oob_list.last, 0 < l ∧ l < p

/-- Appending a region to the other list changes it, and the last one there. -/
lemma getElem?_region_list_append (alloc : BlockAllocation) (p : ℕ) {k : ℕ} (hk : k ≠ p)
    (hlast : ∀ l ∈ alloc.oob_list.last, k ≠ l) :
    (alloc.region_list_append p).regions[k]? = alloc.regions[k]? := by
  rw [region_list_append]
  cases alloc.oob_list.first with
  | none => simp [update, hk.symm]
  | some f =>
    cases hl : alloc.oob_list.last with
    | none => simp [update, hk.symm]
    | some l =>
      have hne : l ≠ k := (hlast l (by simp [hl])).symm
      simp [update, hk.symm, hne]

/-- The list does not change, and the region is the last one of the other list. -/
lemma region_list_append_spec (alloc : BlockAllocation) (p : ℕ) :
    (alloc.region_list_append p).list = alloc.list ∧
      (alloc.region_list_append p).oob_list.last = some p ∧
      (alloc.region_list_append p).regions.length = alloc.regions.length := by
  rw [region_list_append]
  cases alloc.oob_list.first with
  | none => simp [update]
  | some f => cases alloc.oob_list.last <;> simp [update]

/-- A region behind the first one is taken out of the list. -/
lemma region_list_remove_eq {r : Region} (hp : 0 < p) (hr : alloc.regions[p]? = some r)
    (hprev : r.prev = some 0)
    (hlist : alloc.list = { first := some 0, last := some 0, iter := some 0 }) :
    ∃ alloc', alloc.region_list_remove p = some alloc' ∧ alloc'.list = alloc.list ∧
      alloc'.oob_list = alloc.oob_list ∧ alloc'.regions.length = alloc.regions.length ∧
      ∀ k ≠ p, alloc'.regions[k]? = (alloc.regions[k]?).map fun s =>
        { s with
          next := if k = 0 then r.next else s.next
          prev := if some k = r.next then some 0 else s.prev } := by
  cases hnext : r.next with
  | none =>
    refine ⟨((alloc.update 0 fun s => { s with next := none }).update p
      fun s => { s with next := none, prev := none }), ?_, rfl, rfl, by simp [update], fun k hk => ?_⟩
    · simp [region_list_remove, hr, hprev, hnext, update, hlist, hp.ne]
    · simp only [update]
      rw [getElem?_modify_ne _ _ hk.symm]
      by_cases hzero : 0 = k
      · simp [hzero.symm]
      · simp [hzero, Ne.symm hzero]
  | some q =>
    refine ⟨((alloc.update 0 fun s => { s with next := some q }).update q
      fun s => { s with prev := some 0 }).update p fun s => { s with next := none, prev := none },
      ?_, rfl, rfl, by simp [update], fun k hk => ?_⟩
    · simp [region_list_remove, hr, hprev, hnext, update, hlist, hp.ne]
    · simp only [update]
      rw [getElem?_modify_ne _ _ hk.symm, getElem?_modify, getElem?_modify]
      cases alloc.regions[k]? with
      | none => split_ifs <;> rfl
      | some s =>
        by_cases hzero : 0 = k <;> by_cases hq : q = k
        · simp [hzero.symm, hq]
        · simp [hzero, hq, Ne.symm hq]
        · simp [hzero, Ne.symm hzero, hq]
        · simp [hzero, Ne.symm hzero, hq, Ne.symm hq]

/-- One turn moves one region. -/
lemma Moving.step (h : Moving s n p alloc) (hp : p < n) :
    ∃ alloc', alloc.region_list_remove p = some alloc' ∧
      Moving s n (p + 1) (alloc'.region_list_append p) := by
  obtain ⟨r, hr, hprev, hnext⟩ := h.rest p le_rfl hp
  rw [if_pos rfl] at hprev
  have hpos := h.pos
  obtain ⟨alloc', hremove, hlist, hoob, hlength, hget⟩ := region_list_remove_eq hpos hr hprev h.list
  have hlast : ∀ l ∈ alloc'.oob_list.last, 0 < l ∧ l < p := by
    rw [hoob]
    exact h.oob
  obtain ⟨hlist', hlast', hlength'⟩ := alloc'.region_list_append_spec p
  refine ⟨alloc', hremove, ?_, Nat.succ_pos p, ?_, ?_, ?_, ?_⟩
  · rw [hlength', hlength, h.length]
  · obtain ⟨r0, hr0, hspan, -⟩ := h.first
    refine ⟨{ r0 with next := r.next, prev := if some 0 = r.next then some 0 else r0.prev }, ?_,
      hspan, hnext⟩
    rw [getElem?_region_list_append alloc' p (by omega) fun l hl => (hlast l hl).1.ne,
      hget 0 (by omega), hr0]
    rfl
  · intro k hk hlt
    obtain ⟨t, ht, htprev, htnext⟩ := h.rest k (by omega) hlt
    refine ⟨{ t with prev := if some k = r.next then some 0 else t.prev }, ?_, ?_, htnext⟩
    · rw [getElem?_region_list_append alloc' p (by omega) fun l hl => by have := hlast l hl; omega,
        hget k (by omega), ht]
      simp [show k ≠ 0 by omega]
    · rw [hnext, htprev]
      by_cases hkp : k = p + 1
      · simp [hkp, show p + 1 < n by omega]
      · rw [if_neg (show k ≠ p by omega), if_neg hkp, if_neg]
        split_ifs
        · simpa using hkp
        · simp
  · rw [hlist', hlist, h.list]
  · rw [hlast']
    simp
    omega

/-- The loop moves all regions but the first. -/
lemma Moving.run : ∀ {fuel p : ℕ} {alloc : BlockAllocation}, Moving s n p alloc → p ≤ n →
    n < p + fuel → ∃ alloc', moveToOob fuel alloc (if p < n then some p else none) = some alloc' ∧
      Moving s n n alloc' := by
  intro fuel
  induction fuel with
  | zero => intros; omega
  | succ fuel ih =>
    intro p alloc h hle hfuel
    rcases hle.eq_or_lt with rfl | hlt
    · exact ⟨alloc, by simp [moveToOob], h⟩
    · obtain ⟨r, hr, -, hnext⟩ := h.rest p le_rfl hlt
      obtain ⟨alloc', hremove, hmoving⟩ := h.step hlt
      obtain ⟨alloc'', hrun, hend⟩ := ih hmoving hlt (by omega)
      refine ⟨alloc'', ?_, hend⟩
      have hne : alloc.list.iter ≠ some p := by
        have := h.pos
        rw [h.list]
        simp
        omega
      rw [if_pos hlt, moveToOob, if_neg hne, hr, hremove]
      simpa [hnext] using hrun

/-- All regions but the first one are moved to the other list. -/
lemma reserve_oob_of_eq {t : Span} (spans : List Span) (hs : s.len = 1) (ht : 0 < t.len) :
    ∃ alloc, (ofSpans (s :: t :: spans)).reserve_oob_blocks 1 = some (true, alloc) ∧
      alloc.regionsLeft.map Region.toSpan = [s] := by
  obtain ⟨rs, hlink, hlen, hmap, hlinks⟩ := link_cons s (t :: spans)
  rw [length_cons] at hlen
  obtain ⟨r1, hr1, -, -⟩ := hlinks 0 (by omega)
  have hr₁len : ¬ r1.len = 0 := by
    have hget := congrArg (·[0]?) hmap
    simp [hr1] at hget
    rw [hget]
    omega
  have hsplit : (ofSpans (s :: t :: spans)).split_allocation 1 =
      some (some 1, ofSpans (s :: t :: spans)) := by
    simp [split_allocation, do_split_allocation, splitPoint, ofSpans, hlink, hs, hr1, hr₁len]
  have hmoving : Moving s (rs.length + 1) 1 (ofSpans (s :: t :: spans)) := by
    refine ⟨by simp [ofSpans, hlink], one_pos,
      ⟨{ s with next := some 1, prev := none }, by simp [ofSpans, hlink], rfl, ?_⟩, ?_, rfl,
      by simp [ofSpans]⟩
    · simp [hlen]
    · intro k hk hlt
      obtain ⟨k, rfl⟩ := Nat.exists_eq_add_of_le' hk
      obtain ⟨r, hr, hprev, hnext⟩ := hlinks k (by omega)
      refine ⟨r, by simpa [ofSpans, hlink] using hr, ?_, by simpa using hnext⟩
      rw [hprev]
      by_cases hzero : k = 0
      · simp
      · simp
  have hregions : (ofSpans (s :: t :: spans)).regions.length = rs.length + 1 := by
    simp [ofSpans, hlink]
  obtain ⟨alloc, hrun, hend⟩ := hmoving.run (by omega)
    (show rs.length + 1 < 1 + (rs.length + 2) by omega)
  rw [if_pos (by omega)] at hrun
  refine ⟨alloc, by simp [reserve_oob_blocks, hsplit, hregions, hrun], ?_⟩
  obtain ⟨r, hr, hspan, hnext⟩ := hend.first
  have hwalk : alloc.walk (some 0) = [r] := by
    rw [walk, hend.length, walkOn, Option.bind_some, hr]
    simp [hnext, walkOn_none]
  rw [regionsLeft, hend.list]
  rw [hwalk, ← hspan]
  rfl

end Droid.Ext4.BlockAllocation
