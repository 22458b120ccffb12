import Mathlib.Tactic

/-!
# Reference-counted cells

A heap of cells, each with a reference count and a value.  An address is a natural number; addresses
from `next` on have not been handed out.

`Owned h os` says that the references `os` (a list of possibly null addresses, one for each owner)
are all there are: every count is the number of owners, and a cell is freed when it has none.  The
operations change the count of one address, so that one rule (`Owned.set`) re-establishes ownership
after any change of one owner's reference.

An owner that wants to change its value either is the only one and changes the cell in place, or
lets go of it and gets a cell of its own.  `Settles` covers both; every other owner keeps its value
(`Settles.val?_eq`).
-/

namespace Droid

open List Function

structure RefCell (β : Type*) where
  refs : ℕ
  val : β

structure RefHeap (β : Type*) where
  cells : ℕ → Option (RefCell β)
  next : ℕ

namespace RefHeap

variable {β : Type*} {h h' : RefHeap β} {a a' : ℕ} {x : β} {os : List (Option ℕ)} {i : ℕ}
  {c : RefCell β} {b : ℕ} (f : β → β)

def empty : RefHeap β := ⟨fun _ => none, 0⟩

/-- A new cell with one owner, at the address `next`. -/
def alloc (h : RefHeap β) (x : β) : RefHeap β :=
  ⟨Function.update h.cells h.next (some ⟨1, x⟩), h.next + 1⟩

/-- Change the value of a cell. -/
def modify (h : RefHeap β) (a : ℕ) (f : β → β) : RefHeap β :=
  ⟨Function.update h.cells a ((h.cells a).map fun c => ⟨c.refs, f c.val⟩), h.next⟩

def acquire (h : RefHeap β) (a : ℕ) : RefHeap β :=
  ⟨Function.update h.cells a ((h.cells a).map fun c => ⟨c.refs + 1, c.val⟩), h.next⟩

/-- Give up a reference; the last owner frees the cell. -/
def release (h : RefHeap β) (a : ℕ) : RefHeap β :=
  ⟨Function.update h.cells a
    ((h.cells a).bind fun c => if c.refs = 1 then none else some ⟨c.refs - 1, c.val⟩), h.next⟩

/-- Give up a reference that may be null. -/
def releaseOpt (h : RefHeap β) : Option ℕ → RefHeap β
  | none => h
  | some a => h.release a

/-- The number of references to a cell, 0 for one that is not there. -/
def refs (h : RefHeap β) (a : ℕ) : ℕ := (h.cells a).elim 0 RefCell.refs

def val? (h : RefHeap β) (a : ℕ) : Option β := (h.cells a).map RefCell.val

/-! ## What the operations do to counts and values -/

attribute [local simp] modify release refs val? alloc acquire

lemma refs_eq (hc : h.cells a = some c) : h.refs a = c.refs := by simp [hc]

lemma val?_eq (hc : h.cells a = some c) : h.val? a = some c.val := by
  simp [hc]

lemma exists_of_val? (hx : h.val? a = some x) : ∃ c, h.cells a = some c ∧ c.val = x := by
  simpa using hx

lemma refs_alloc (hfresh : h.cells h.next = none) :
    (h.alloc x).refs a = h.refs a + if a = h.next then 1 else 0 := by
  by_cases ha : a = h.next
  · subst ha
    simp [hfresh]
  · simp [ha]

lemma refs_modify : (h.modify a' f).refs a = h.refs a := by
  by_cases ha : a = a'
  · subst ha
    cases hc : h.cells a <;> simp [hc]
  · simp [update_of_ne ha]

lemma refs_acquire (hlive : h.cells a' ≠ none) :
    (h.acquire a').refs a = h.refs a + if a = a' then 1 else 0 := by
  by_cases ha : a = a'
  · subst ha
    cases hc : h.cells a with
    | none => exact absurd hc hlive
    | some c => simp [hc]
  · simp [ha]

lemma refs_release (hpos : 0 < h.refs a') :
    (h.release a').refs a + (if a = a' then 1 else 0) = h.refs a := by
  by_cases ha : a = a'
  · subst ha
    cases hc : h.cells a with
    | none => simp [hc] at hpos
    | some c =>
      rw [refs_eq hc] at hpos
      by_cases hone : c.refs = 1
      · simp [hc, hone]
      · simp [hc, hone]
        omega
  · simp [ha]

lemma val?_alloc_of_ne (ha : a ≠ h.next) : (h.alloc x).val? a = h.val? a := by
  simp [update_of_ne ha]

lemma val?_alloc : (h.alloc x).val? h.next = some x := by simp

lemma val?_modify_of_ne (ha : a ≠ a') (f : β → β) : (h.modify a' f).val? a = h.val? a := by
  simp [update_of_ne ha]

lemma val?_modify : (h.modify a f).val? a = (h.val? a).map f := by
  cases hc : h.cells a <;> simp [hc]

lemma val?_acquire : (h.acquire a').val? a = h.val? a := by
  by_cases ha : a = a'
  · subst ha
    cases hc : h.cells a <;> simp [hc]
  · simp [update_of_ne ha]

/-- A cell with another owner keeps its value. -/
lemma val?_release (ha : a = a' → h.refs a ≠ 1) : (h.release a').val? a = h.val? a := by
  by_cases heq : a = a'
  · subst heq
    cases hc : h.cells a with
    | none => simp [hc]
    | some c =>
      have hne := ha rfl
      rw [refs_eq hc] at hne
      simp [hc, hne]
  · simp [update_of_ne heq]

lemma modify_modify (f g : β → β) :
    (h.modify a f).modify a g = h.modify a fun x => g (f x) := by
  simp [comp_def]

lemma modify_congr {f g : β → β} (hfg : ∀ x, h.val? a = some x → f x = g x) :
    h.modify a f = h.modify a g := by
  cases hc : h.cells a with
  | none => simp [hc]
  | some c => simp [hc, hfg c.val (val?_eq hc)]

lemma modify_eq_self {f : β → β} (hf : ∀ x, h.val? a = some x → f x = x) : h.modify a f = h := by
  rw [modify_congr hf]
  simp

/-- The only owner's changes are lost when it gives the cell up. -/
lemma release_modify (hone : h.refs a = 1) (f : β → β) : (h.modify a f).release a = h.release a := by
  cases hc : h.cells a with
  | none => simp [hc]
  | some c =>
    rw [refs_eq hc] at hone
    simp [hc, hone]

lemma modify_alloc : (h.alloc x).modify h.next f = h.alloc (f x) := by simp

/-- Getting a cell and giving up another commute. -/
lemma release_alloc (ha : a ≠ h.next) : (h.alloc x).release a = (h.release a).alloc x := by
  simp [update_of_ne ha, update_comm ha.symm]

/-! ## Ownership -/

/-- Nothing lies at the addresses from `next` on, and a cell without owners is freed. -/
structure Valid (h : RefHeap β) : Prop where
  fresh : ∀ a, h.next ≤ a → h.cells a = none
  pos : ∀ a c, h.cells a = some c → 0 < c.refs

namespace Valid

lemma lt_next (hv : Valid h) (hc : h.cells a = some c) : a < h.next := by
  by_contra hge
  rw [hv.fresh a (not_lt.mp hge)] at hc
  cases hc

lemma ne_next (hv : Valid h) (hx : h.val? a = some x) : a ≠ h.next := by
  obtain ⟨c, hc, -⟩ := exists_of_val? hx
  exact (hv.lt_next hc).ne

/-- Changing a cell that is there, but not to one without owners. -/
lemma update (hv : Valid h) (hc : h.cells a = some c) {o : Option (RefCell β)}
    (ho : ∀ c', o = some c' → 0 < c'.refs) : Valid ⟨update h.cells a o, h.next⟩ where
  fresh b hb := by
    have hlt : a < h.next := hv.lt_next hc
    have hba : b ≠ a := (hlt.trans_le hb).ne'
    exact (update_of_ne hba _ _).trans (hv.fresh b hb)
  pos b c' hc' := by
    by_cases hba : b = a
    · subst hba
      exact ho c' ((update_self b o h.cells).symm.trans hc')
    · exact hv.pos b c' ((update_of_ne hba o h.cells).symm.trans hc')

lemma alloc (hv : Valid h) (x : β) : Valid (h.alloc x) where
  fresh b hb := by
    have hne : b ≠ h.next := (Nat.lt_of_succ_le hb).ne'
    exact (update_of_ne hne _ _).trans (hv.fresh b (Nat.le_of_succ_le hb))
  pos b c hc := by
    by_cases hbn : b = h.next
    · subst hbn
      cases (update_self h.next _ h.cells).symm.trans hc
      exact one_pos
    · exact hv.pos b c ((update_of_ne hbn _ h.cells).symm.trans hc)

lemma modify (hv : Valid h) (f : β → β) : Valid (h.modify a f) := by
  cases hc : h.cells a with
  | none => rwa [modify_eq_self (by simp [hc])]
  | some c =>
    refine hv.update hc fun c' hc' => ?_
    rw [hc] at hc'
    cases hc'
    exact hv.pos a c hc

lemma acquire (hv : Valid h) (hc : h.cells a = some c) : Valid (h.acquire a) := by
  refine hv.update hc fun c' hc' => ?_
  rw [hc] at hc'
  cases hc'
  exact Nat.succ_pos _

lemma release (hv : Valid h) (hc : h.cells a = some c) : Valid (h.release a) := by
  refine hv.update hc fun c' hc' => ?_
  rw [hc, Option.bind_some] at hc'
  split_ifs at hc' with hone
  cases hc'
  have := hv.pos a c hc
  show 0 < c.refs - 1
  omega

end Valid

structure Owned (h : RefHeap β) (os : List (Option ℕ)) : Prop extends Valid h where
  refs : ∀ a, h.refs a = os.count (some a)

lemma owned_empty : Owned (empty : RefHeap β) [] :=
  ⟨⟨fun _ _ => rfl, fun _ _ hc => by cases hc⟩, fun _ => rfl⟩

namespace Owned

lemma pos_of_mem (ho : Owned h os) (ha : some a ∈ os) : 0 < h.refs a := by
  rw [ho.refs]
  exact count_pos_iff.mpr ha

/-- What is owned is there. -/
lemma exists_cell (ho : Owned h os) (ha : some a ∈ os) : ∃ c, h.cells a = some c := by
  have hpos := ho.pos_of_mem ha
  cases hc : h.cells a with
  | none => simp [hc] at hpos
  | some c => exact ⟨c, rfl⟩

/-- What is there is owned. -/
lemma isSome_val?_iff (ho : Owned h os) : (h.val? a).isSome ↔ some a ∈ os := by
  constructor
  · intro hsome
    obtain ⟨x, hx⟩ := Option.isSome_iff_exists.mp hsome
    obtain ⟨c, hc, -⟩ := exists_of_val? hx
    rw [← count_pos_iff, ← ho.refs, RefHeap.refs, hc]
    exact ho.pos a c hc
  · intro ha
    obtain ⟨c, hc⟩ := ho.exists_cell ha
    simp [hc]

variable {j : ℕ}

/-- Two owners of one cell. -/
lemma one_lt_refs (ho : Owned h os) (hi : os[i]? = some (some a)) (hj : os[j]? = some (some a))
    (hne : i ≠ j) : 1 < h.refs a := by
  rw [ho.refs]
  obtain ⟨hi', hi⟩ := List.getElem?_eq_some_iff.mp hi
  obtain ⟨hj', hj⟩ := List.getElem?_eq_some_iff.mp hj
  have hmem : some a ∈ os.set i none := by
    refine mem_iff_getElem.mpr ⟨j, by simpa using hj', ?_⟩
    rw [getElem_set_ne hne, hj]
  have hpos := count_pos_iff.mpr hmem
  rw [count_set hi'] at hpos
  simpa [hi] using hpos

variable {o : Option ℕ}

section

variable (ho : Owned h os)

include ho

/-- **One owner's reference changes** from `o` to `o'`. -/
theorem set {o' : Option ℕ} (hi : os[i]? = some o) (hv : Valid h')
    (hrefs : ∀ a, h'.refs a + (if some a = o then 1 else 0) = h.refs a + if some a = o' then 1 else 0) :
    Owned h' (os.set i o') where
  toValid := hv
  refs a := by
    obtain ⟨hlt, hi⟩ := List.getElem?_eq_some_iff.mp hi
    have hle : (if some a = o then 1 else 0) ≤ os.count (some a) := by
      split_ifs with hoa
      · exact count_pos_iff.mpr (hoa ▸ hi ▸ getElem_mem hlt)
      · exact Nat.zero_le _
    have ha := hrefs a
    rw [ho.refs] at ha
    rw [count_set hlt, hi]
    simp only [beq_iff_eq, eq_comm (b := some a)]
    omega

/-- A further owner. -/
lemma append_acquire (ha : some a ∈ os) : Owned (h.acquire a) (os ++ [some a]) := by
  obtain ⟨c, hc⟩ := ho.exists_cell ha
  refine ⟨ho.toValid.acquire hc, fun b => ?_⟩
  rw [refs_acquire (by simp [hc]), ho.refs, count_append]
  by_cases hba : b = a
  · simp [hba]
  · simp [hba, Ne.symm hba]

lemma append_none : Owned h (os ++ [none]) := by
  refine ⟨ho.toValid, fun a => ?_⟩
  rw [ho.refs]
  simp

/-- An owner lets go of what it has. -/
lemma releaseOpt (hi : os[i]? = some o) : Owned (h.releaseOpt o) (os.set i none) := by
  cases o with
  | none => exact ho.set hi ho.toValid fun a => by simp [RefHeap.releaseOpt]
  | some a =>
    obtain ⟨c, hc⟩ := ho.exists_cell (mem_of_getElem? hi)
    refine ho.set hi (ho.toValid.release hc) fun b => ?_
    have hrel := refs_release (a := b) (ho.pos_of_mem (mem_of_getElem? hi))
    simpa [RefHeap.releaseOpt] using hrel

/-- Another owner does not see it. -/
lemma val?_releaseOpt (hi : os[i]? = some o) (hj : os[j]? = some (some b)) (hij : i ≠ j) :
    (h.releaseOpt o).val? b = h.val? b := by
  cases o with
  | none => rfl
  | some a =>
    refine val?_release ?_
    rintro rfl
    exact (ho.one_lt_refs hi hj hij).ne'

/-- An owner of nothing gets a share of a cell. -/
lemma acquire (hi : os[i]? = some none) (ha : some a ∈ os) :
    Owned (h.acquire a) (os.set i (some a)) := by
  obtain ⟨c, hc⟩ := ho.exists_cell ha
  refine ho.set hi (ho.toValid.acquire hc) fun b => ?_
  rw [refs_acquire (by simp [hc])]
  simp

/-- An owner of nothing gets a new cell. -/
lemma alloc (hi : os[i]? = some none) (x : β) : Owned (h.alloc x) (os.set i (some h.next)) := by
  refine ho.set hi (ho.toValid.alloc x) fun b => ?_
  rw [refs_alloc (ho.fresh _ le_rfl)]
  simp

end

end Owned

/-! ## Changing the value of one owner -/

/-- The owner of `o` ends up as the only owner of `a`, with value `x`. -/
inductive Settles (h : RefHeap β) (o : Option ℕ) : RefHeap β → ℕ → β → Prop
  /-- It was the only owner already. -/
  | inPlace {b : ℕ} {y : β} (hb : o = some b) (hone : h.refs b = 1) :
      Settles h o (h.modify b fun _ => y) b y
  /-- It lets go of what it had. -/
  | moved {y : β} : Settles h o ((h.releaseOpt o).alloc y) h.next y

@[simp]
lemma next_releaseOpt (h : RefHeap β) (o : Option ℕ) : (h.releaseOpt o).next = h.next := by
  cases o <;> rfl

namespace Settles

variable {o : Option ℕ}

lemma val? (hs : Settles h o h' a x) : h'.val? a = some x := by
  cases hs with
  | inPlace hb hone =>
    cases hc : h.cells a with
    | none => simp [hc] at hone
    | some c => simp [hc]
  | moved =>
    rw [← next_releaseOpt h o]
    exact val?_alloc

/-- The only owner changes nothing. -/
lemma refl (hone : h.refs a = 1) (hx : h.val? a = some x) : Settles h (some a) h a x := by
  have hsame : h.modify a (fun _ => x) = h := modify_eq_self fun y hy => by
    cases hx.symm.trans hy
    rfl
  have hs : Settles h (some a) (h.modify a fun _ => x) a x := .inPlace rfl hone
  rwa [hsame] at hs

/-- Its value can be changed further. -/
lemma modify (hs : Settles h o h' a x) (y : β) : Settles h o (h'.modify a fun _ => y) a y := by
  cases hs with
  | inPlace hb hone =>
    rw [modify_modify]
    exact .inPlace hb hone
  | moved =>
    have halloc := modify_alloc (h := h.releaseOpt o) (x := x) fun _ => y
    rw [next_releaseOpt] at halloc
    rw [halloc]
    exact .moved

/-- What is not changed in place and not freed keeps its value. -/
lemma val?_of_ne (hs : Settles h o h' a x) (hne : b ≠ a) (hkeep : some b = o → h.refs b ≠ 1) :
    h'.val? b = h.val? b := by
  cases hs with
  | inPlace => exact val?_modify_of_ne hne _
  | moved =>
    rw [val?_alloc_of_ne (by simpa using hne)]
    cases o with
    | none => rfl
    | some c => exact val?_release fun hbc => hkeep (hbc ▸ rfl)

variable {b j : ℕ}

/-- Another owner does not see the change. -/
theorem val?_eq (hs : Settles h o h' a x) (ho : Owned h os) (hi : os[i]? = some o)
    (hj : os[j]? = some (some b)) (hij : i ≠ j) : h'.val? b = h.val? b ∧ b ≠ a := by
  have hshared : some b = o → h.refs b ≠ 1 := by
    rintro rfl
    exact (ho.one_lt_refs hi hj hij).ne'
  have hne : b ≠ a := by
    cases hs with
    | inPlace hb hone =>
      rintro rfl
      exact hshared hb.symm hone
    | moved =>
      obtain ⟨c, hc⟩ := ho.exists_cell (mem_of_getElem? hj)
      exact (ho.lt_next hc).ne
  exact ⟨hs.val?_of_ne hne hshared, hne⟩

/-- The owners after the change. -/
theorem owned (hs : Settles h o h' a x) (ho : Owned h os) (hi : os[i]? = some o) :
    Owned h' (os.set i (some a)) := by
  cases hs with
  | inPlace hb hone =>
    refine ho.set hi (ho.toValid.modify _) fun b => ?_
    rw [refs_modify, hb]
  | moved =>
    have hlt := (List.getElem?_eq_some_iff.mp hi).1
    have halloc := (ho.releaseOpt hi).alloc (getElem?_set_self hlt) x
    rwa [set_set, next_releaseOpt] at halloc

end Settles

end RefHeap

end Droid
