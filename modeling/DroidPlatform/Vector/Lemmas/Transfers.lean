import DroidPlatform.Vector.VectorImpl

/-!
# Writing ranges of items

Every loop over items writes slots of one buffer, so that the memory after it is the memory before it
with other items in that buffer (`setItems`).  What the items are is said slot by slot: `Filled` for
the loops that only write a range, and two bounds for the loops that also destroy what they move.

Moving an item onto itself destroys it, unless items are moved as bytes or not destroyed at all.
Hence the side condition of `move_forward_type_spec` and `move_backward_type_spec`.
-/

namespace Droid

open Function Nat RefHeap

variable {T : Type} {ty : ItemType T} {m : Buffers T} {b d s n : ℕ} {sb : SharedBuffer T}
  {f : ℕ → Option T} {p : Ptr T} {i : ℕ} (src : ℕ → Option T)

/-! ## Slots of one buffer -/

/-- The memory with other items in a buffer. -/
def setItems (m : Buffers T) (b : ℕ) (items : ℕ → Option T) : Buffers T :=
  m.modify b fun sb => ⟨sb.mSize, items⟩

lemma val?_setItems (hsb : m.val? b = some sb) (f : ℕ → Option T) :
    (setItems m b f).val? b = some ⟨sb.mSize, f⟩ := by
  rw [setItems, val?_modify, hsb]
  rfl

lemma setItems_setItems (f g : ℕ → Option T) : setItems (setItems m b f) b g = setItems m b g := by
  rw [setItems, setItems, modify_modify]
  rfl

section

variable (hsb : m.val? b = some sb)

include hsb

lemma setItems_self : setItems m b sb.items = m := by
  refine modify_eq_self fun x hx => ?_
  cases hsb.symm.trans hx
  rfl

lemma load_item (hi : i < sb.slots ty) : load ty m (.item b i) = some (sb.items i) := by
  simp only [load, hsb, if_pos hi]

/-- Writing a buffer is not seen where its items stay the same. -/
lemma load_setItems (hp : ∀ j, p = .item b j → f j = sb.items j) :
    load ty (setItems m b f) p = load ty m p := by
  cases p with
  | null => rfl
  | foreign xs => rfl
  | item c j =>
    by_cases hc : c = b
    · subst hc
      simp only [load, val?_setItems hsb, hsb, hp j rfl]
      rfl
    · simp only [load, setItems, val?_modify_of_ne hc]

lemma store_setItems (hi : i < sb.slots ty) (x : Option T) :
    store ty (setItems m b f) (.item b i) x = some (setItems m b (update f i x)) := by
  have hslots : i < SharedBuffer.slots ty ⟨sb.mSize, f⟩ := hi
  simp only [store, val?_setItems hsb, if_pos hslots]
  rw [setItems, setItems, modify_modify]

end

/-! ## Loops -/

/-- **Loop rule.** -/
theorem forItems_spec {P : ℕ → Buffers T → Prop} {f : ℕ → Buffers T → Option (Buffers T)}
    (h0 : P 0 m) (hstep : ∀ i < n, ∀ m, P i m → ∃ m', f i m = some m' ∧ P (i + 1) m') :
    ∃ m', forItems n f m = some m' ∧ P n m' := by
  induction n with
  | zero => exact ⟨m, rfl, h0⟩
  | succ n ih =>
    obtain ⟨m1, hm1, hP1⟩ := ih fun i hi => hstep i (hi.trans (lt_succ_self n))
    obtain ⟨m2, hm2, hP2⟩ := hstep n (lt_succ_self n) m1 hP1
    refine ⟨m2, ?_, hP2⟩
    rw [forItems] at hm1 ⊢
    rw [List.range_succ, List.foldlM_append, hm1]
    show (f n m1 >>= _) = _
    rw [hm2]
    rfl

/-- Slots `d` to `d + n - 1` hold `src`, and the others what they held. -/
def Filled (items : ℕ → Option T) (d n : ℕ) (src f : ℕ → Option T) : Prop :=
  (∀ k < n, f (d + k) = src k) ∧ ∀ j, j < d ∨ d + n ≤ j → f j = items j

lemma Filled.zero (items : ℕ → Option T) (d : ℕ) (src : ℕ → Option T) : Filled items d 0 src items :=
  ⟨fun k hk => absurd hk (not_lt_zero k), fun _ _ => rfl⟩

lemma Filled.succ {items src : ℕ → Option T} (h : Filled items d n src f) :
    Filled items d (n + 1) src (update f (d + n) (src n)) := by
  refine ⟨fun k hk => ?_, fun j hj => ?_⟩
  · rcases Nat.lt_succ_iff_lt_or_eq.mp hk with hlt | rfl
    · rw [update_of_ne (by omega)]
      exact h.1 k hlt
    · exact update_self ..
  · rw [update_of_ne (by omega)]
    exact h.2 j (by omega)

section

variable (hsb : m.val? b = some sb)

include hsb

section

variable (hroom : d + n ≤ sb.slots ty)

include hroom

/-- A loop that computes and stores one item after the other. -/
lemma forItems_store_spec {g : ℕ → Buffers T → Option (Option T)}
    (hg : ∀ i < n, ∀ f, Filled sb.items d i src f → g i (setItems m b f) = some (src i)) :
    ∃ f, forItems n (fun i m => do store ty m ((Ptr.item b d).add i) (← g i m)) m =
      some (setItems m b f) ∧ Filled sb.items d n src f := by
  obtain ⟨m', hm', f, rfl, hf⟩ := forItems_spec
    (P := fun i m' => ∃ f, m' = setItems m b f ∧ Filled sb.items d i src f)
    (f := fun i m => do store ty m ((Ptr.item b d).add i) (← g i m))
    ⟨sb.items, (setItems_self hsb).symm, .zero _ _ _⟩ (by
      rintro i hi m' ⟨f, rfl, hf⟩
      refine ⟨_, ?_, _, rfl, hf.succ⟩
      rw [hg i hi f hf]
      exact store_setItems hsb (by omega) _)
  exact ⟨f, hm', hf⟩

lemma destroy_type_spec :
    ∃ f, destroy_type ty m (.item b d) n = some (setItems m b f) ∧
      ∀ j, j < d ∨ d + n ≤ j → f j = sb.items j := by
  rw [destroy_type]
  split_ifs with htrivial
  · exact ⟨sb.items, by rw [setItems_self hsb], fun _ _ => rfl⟩
  · obtain ⟨f, hm', hf⟩ := forItems_store_spec (fun _ => none) hsb hroom
      (g := fun _ _ => some none) fun _ _ _ _ => rfl
    exact ⟨f, hm', hf.2⟩

/-- A default constructor that does nothing leaves the slots as they are. -/
lemma construct_type_spec :
    ∃ f, construct_type ty m (.item b d) n = some (setItems m b f) ∧
      (ty.trivialCtor = false → ∀ k < n, f (d + k) = some ty.default) ∧
      ∀ j, j < d ∨ d + n ≤ j → f j = sb.items j := by
  rw [construct_type]
  split_ifs with htrivial
  · exact ⟨sb.items, by rw [setItems_self hsb], fun h => by simp [htrivial] at h, fun _ _ => rfl⟩
  · obtain ⟨f, hm', hf⟩ := forItems_store_spec (fun _ => some ty.default) hsb hroom
      (g := fun _ _ => some (some ty.default)) fun _ _ _ _ => rfl
    exact ⟨f, hm', fun _ => hf.1, hf.2⟩

/-- `what` does not lie in the slots that are written. -/
lemma splat_type_spec {what : Ptr T} {x : Option T} (hwhat : load ty m what = some x)
    (hsep : ∀ j, what = .item b j → j < d ∨ d + n ≤ j) :
    ∃ f, splat_type ty m (.item b d) what n = some (setItems m b f) ∧
      Filled sb.items d n (fun _ => x) f := by
  refine forItems_store_spec (fun _ => x) hsb hroom fun i hi f hf => ?_
  rw [load_setItems hsb, hwhat]
  intro j hj
  exact hf.2 j (by have := hsep j hj; omega)

/-! ## Copying -/

lemma memmove_spec (hsrc : ∀ k < n, load ty m (p.add k) = some (src k)) :
    ∃ f, memmove ty m (.item b d) p n = some (setItems m b f) ∧ Filled sb.items d n src f := by
  by_cases hn : n = 0
  · subst hn
    exact ⟨sb.items, by rw [setItems_self hsb]; rfl, .zero _ _ _⟩
  · refine ⟨fun j => if d ≤ j ∧ j < d + n then (load ty m (p.add (j - d))).join else sb.items j,
      ?_, fun k hk => ?_, fun j hj => if_neg (by omega)⟩
    · have hall : d + n ≤ sb.slots ty ∧ ∀ k < n, (load ty m (p.add k)).isSome :=
        ⟨hroom, fun k hk => by rw [hsrc k hk]; rfl⟩
      simp only [memmove, if_neg hn, hsb, if_pos hall, Option.some.injEq]
      refine modify_congr fun x hx => ?_
      cases hsb.symm.trans hx
      rfl
    · show (if d ≤ d + k ∧ d + k < d + n then (load ty m (p.add (d + k - d))).join else _) = src k
      rw [if_pos (by omega), Nat.add_sub_cancel_left, hsrc k hk, Option.join_some]

end

end

lemma slots_mul_le (ty : ItemType T) (sb : SharedBuffer T) : sb.slots ty * ty.itemSize ≤ sb.mSize :=
  div_mul_le_self _ _

/-- **Copying** items that do not lie in the slots that are written. -/
theorem do_copy_spec (hsb : m.val? b = some sb) (hsize : sb.mSize < 2 ^ 32)
    (hroom : d + n ≤ sb.slots ty) (hsrc : ∀ k < n, load ty m (p.add k) = some (src k))
    (hsep : ∀ k < n, ∀ j, p.add k = .item b j → j < d ∨ d + n ≤ j) :
    ∃ f, VectorImpl.do_copy ty m (.item b d) p n = some (setItems m b f) ∧
      Filled sb.items d n src f := by
  have hcopy : ∃ f, copy_type ty m (.item b d) p n = some (setItems m b f) ∧
      Filled sb.items d n src f := by
    rw [copy_type]
    split_ifs with htrivial
    · have hoverlap : (Ptr.item b d).overlaps p n = false := by
        cases p with
        | null => rfl
        | foreign xs => rfl
        | item c j =>
          simp only [Ptr.overlaps, decide_eq_false_iff_not]
          rintro ⟨rfl, h1, h2⟩
          have hsep' := hsep (d - j) (by omega) (j + (d - j)) rfl
          omega
      rw [memcpy, hoverlap]
      exact memmove_spec src hsb hroom hsrc
    · refine forItems_store_spec src hsb hroom
        fun i hi f hf => ?_
      rw [load_setItems hsb, hsrc i hi]
      intro j hj
      exact hf.2 j (by have := hsep i hi j hj; omega)
  rw [VectorImpl.do_copy]
  split_ifs with htrivial
  · have hbytes : n * ty.itemSize < 2 ^ 32 :=
      (Nat.mul_le_mul_right _ (by omega)).trans_lt
        ((slots_mul_le ty sb).trans_lt hsize)
    rw [toUInt32_eq_self hbytes, Nat.mul_div_cancel _ ty.pos]
    rwa [copy_type, if_pos htrivial] at hcopy
  · exact hcopy

/-! ## Moving -/

/-- Items can be moved onto themselves. -/
def ItemType.movesInPlace (ty : ItemType T) : Bool := ty.movesTrivially || ty.trivialDtor

/-- The items after one was moved. -/
def moveSlot (ty : ItemType T) (f : ℕ → Option T) (d s : ℕ) : ℕ → Option T :=
  if ty.trivialDtor then Function.update f d (f s)
  else Function.update (Function.update f d (f s)) s none

lemma moveSlot_of_ne {j : ℕ} (hd : j ≠ d) (hs : j ≠ s) : moveSlot ty f d s j = f j := by
  rw [moveSlot]
  split_ifs
  · exact update_of_ne hd _ _
  · rw [update_of_ne hs, update_of_ne hd]

lemma moveSlot_self (hne : d ≠ s ∨ ty.movesInPlace = true) (htrivial : ¬ty.movesTrivially = true) :
    moveSlot ty f d s d = f s := by
  rw [moveSlot]
  split_ifs with hdtor
  · exact update_self ..
  · have hds : d ≠ s := by
      rcases hne with hne | hplace
      · exact hne
      · simp [ItemType.movesInPlace, htrivial, hdtor] at hplace
    rw [update_of_ne hds, update_self]

lemma moveItem_setItems (hsb : m.val? b = some sb) (hd : d < sb.slots ty) (hs : s < sb.slots ty) :
    moveItem ty (.item b d) (.item b s) (setItems m b f) =
      some (setItems m b (moveSlot ty f d s)) := by
  have hload : load ty (setItems m b f) (.item b s) = some (f s) :=
    load_item (val?_setItems hsb f) hs
  rw [moveItem, hload]
  show (store ty (setItems m b f) (.item b d) (f s) >>= _) = _
  rw [store_setItems hsb hd, moveSlot]
  split_ifs with htrivial
  · rfl
  · exact store_setItems hsb hs none

/-- **Moving to higher slots.** -/
theorem move_forward_type_spec (hsb : m.val? b = some sb) (hroom : d + n ≤ sb.slots ty)
    (hle : s ≤ d) (hne : d ≠ s ∨ ty.movesInPlace = true) :
    ∃ f, move_forward_type ty m (.item b d) (.item b s) n = some (setItems m b f) ∧
      (∀ k < n, f (d + k) = sb.items (s + k)) ∧ ∀ j, j < s ∨ d + n ≤ j → f j = sb.items j := by
  rw [move_forward_type]
  split_ifs with htrivial
  · obtain ⟨f, hm', hf⟩ := memmove_spec (fun k => sb.items (s + k)) hsb hroom (p := .item b s)
      fun k hk => load_item hsb (by omega)
    exact ⟨f, hm', hf.1, fun j hj => hf.2 j (by omega)⟩
  · -- the last `i` items have been moved, and the ones before are untouched
    obtain ⟨m', hm', f, rfl, hmoved, hrest⟩ := forItems_spec (n := n)
      (P := fun i m' => ∃ f, m' = setItems m b f ∧
        (∀ k, n - i ≤ k → k < n → f (d + k) = sb.items (s + k)) ∧
        ∀ j, j < s + (n - i) ∨ d + n ≤ j → f j = sb.items j)
      (f := fun i => moveItem ty ((Ptr.item b d).add (n - 1 - i)) ((Ptr.item b s).add (n - 1 - i)))
      ⟨sb.items, (setItems_self hsb).symm, fun _ _ _ => by omega, fun _ _ => rfl⟩ (by
        rintro i hi m' ⟨f, rfl, hmoved, hrest⟩
        refine ⟨_, moveItem_setItems hsb (by omega) (by omega), _, rfl, fun k hk hkn => ?_,
          fun j hj => ?_⟩
        · rcases lt_or_ge (n - 1 - i) k with hlt | hge
          · rw [moveSlot_of_ne (by omega) (by omega)]
            exact hmoved k (by omega) hkn
          · obtain rfl : k = n - 1 - i := by omega
            rw [moveSlot_self (hne.imp_left fun hne => by omega) htrivial]
            exact hrest _ (by omega)
        · rw [moveSlot_of_ne (by omega) (by omega)]
          exact hrest j (by omega))
    exact ⟨f, hm', fun k hk => hmoved k (by omega) hk, fun j hj => hrest j (by omega)⟩

/-- **Moving to lower slots.** -/
theorem move_backward_type_spec (hsb : m.val? b = some sb) (hroom : s + n ≤ sb.slots ty)
    (hle : d ≤ s) (hne : d ≠ s ∨ ty.movesInPlace = true) :
    ∃ f, move_backward_type ty m (.item b d) (.item b s) n = some (setItems m b f) ∧
      (∀ k < n, f (d + k) = sb.items (s + k)) ∧ ∀ j, j < d ∨ s + n ≤ j → f j = sb.items j := by
  rw [move_backward_type]
  split_ifs with htrivial
  · obtain ⟨f, hm', hf⟩ := memmove_spec (fun k => sb.items (s + k)) hsb
      (show d + n ≤ sb.slots ty by omega) (p := .item b s) fun k hk => load_item hsb (by omega)
    exact ⟨f, hm', hf.1, fun j hj => hf.2 j (by omega)⟩
  · obtain ⟨m', hm', f, rfl, hmoved, hrest⟩ := forItems_spec (n := n)
      (P := fun i m' => ∃ f, m' = setItems m b f ∧ (∀ k < i, f (d + k) = sb.items (s + k)) ∧
        ∀ j, j < d ∨ s + i ≤ j → f j = sb.items j)
      (f := fun i => moveItem ty ((Ptr.item b d).add i) ((Ptr.item b s).add i))
      ⟨sb.items, (setItems_self hsb).symm, fun _ hk => absurd hk (not_lt_zero _),
        fun _ _ => rfl⟩ (by
        rintro i hi m' ⟨f, rfl, hmoved, hrest⟩
        refine ⟨_, moveItem_setItems hsb (by omega) (by omega), _, rfl, fun k hk => ?_,
          fun j hj => ?_⟩
        · rcases Nat.lt_succ_iff_lt_or_eq.mp hk with hlt | rfl
          · rw [moveSlot_of_ne (by omega) (by omega)]
            exact hmoved k hlt
          · rw [moveSlot_self (hne.imp_left fun hne => by omega) htrivial]
            exact hrest _ (by omega)
        · rw [moveSlot_of_ne (by omega) (by omega)]
          exact hrest j (by omega))
    exact ⟨f, hm', hmoved, hrest⟩

end Droid
