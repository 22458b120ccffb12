import DroidPlatform.Core.Trace
import DroidPlatform.Vector.Lemmas.Operations

/-!
# Vectors refine lists

Any number of vectors of one item type, sharing buffers as they are copied and assigned, behave like
independent lists: in every run of safe calls each vector holds the items of its list.  The lists do
not depend on how items are copied, moved and destroyed, so that the fast and the slow paths agree.

**What is not safe.**  Three kinds of calls break the correspondence (`unsafe_calls`).

* *Inserting or removing nothing* before the end moves the items behind the gap onto themselves, and
  `move_forward_type` and `move_backward_type` destroy each item after copying it.
* *Appending a vector to itself*, when it has to grow and nobody shares its buffer, reads the items
  from the buffer that was just freed.
* *Sizes near `2 ^ 32 / 3`* wrap in `new_size * 3 + 1`: the buffer that `_grow` allocates is too
  small for the items.
-/

namespace Droid

open VectorImpl Option Vectors Lists

variable {T : Type} [DecidableEq T] {ty : ItemType T} {s : Vectors T} {ls : Lists T}

/-! ## Runs -/

/-- A call that meets the conditions. -/
def SafeStep (ty : ItemType T) (s : Vectors T) (c : VectorCall T) (s' : Vectors T) : Prop :=
  s.Safe ty c ∧ s.call ty c = some s'

/-- The lists after some calls. -/
def listsAfter (constructed : Option T) (calls : List (VectorCall T)) : Lists T :=
  calls.foldl (Lists.call constructed) []

/-- **A safe call** returns, and amounts to the list operation. -/
theorem Refines.call (h : Refines ty s ls) {c : VectorCall T} (hsafe : s.Safe ty c) :
    ∃ s', s.call ty c = some s' ∧ Refines ty s' (ls.call ty.constructed c) := by
  cases c with
  | create =>
    refine ⟨_, rfl, h.append ?_ (fun _ => rfl) (backed_nil ty _) (holds_nil _)⟩
    exact h.owned.append_none
  | copy j =>
    obtain ⟨w, hj, -⟩ := hsafe
    obtain ⟨l, hl⟩ := h.exists_list hj
    obtain ⟨m', v', hcopy, hrefines⟩ := h.copy hj hl
    refine ⟨⟨m', s.vecs ++ [v']⟩, ?_, ?_⟩
    · simp [Vectors.call, hj, hcopy]
    · simpa only [Lists.call, hl, getD_some] using hrefines
  | assign i j =>
    obtain ⟨v, hi, w, hj, -⟩ := hsafe
    obtain ⟨l, hl⟩ := h.exists_list hj
    simp only [Vectors.call, hj, Lists.call, hl, getD_some]
    by_cases hij : i = j
    · subst hij
      obtain ⟨hlt, rfl⟩ := getElem?_eq_some_iff.mp hl
      rw [List.set_getElem_self hlt]
      exact ⟨s, if_pos rfl, h⟩
    · obtain ⟨s', hs', hrefines⟩ := h.assign hi hj hl hij
      exact ⟨s', (if_neg hij).trans hs', hrefines⟩
  | insertAt i item index numItems =>
    obtain ⟨v, hi, hsafe⟩ := hsafe
    obtain ⟨l, hl⟩ := h.exists_list hi
    rw [Lists.call, modify_eq_set hl]
    exact h.yields hi hl (h.insertAt hi hl hsafe)
  | insertArrayAt i array index =>
    obtain ⟨v, hi, hsafe⟩ := hsafe
    obtain ⟨l, hl⟩ := h.exists_list hi
    rw [Lists.call, modify_eq_set hl]
    exact h.yields hi hl (h.insertForeign hi hl hsafe)
  | appendVector i j =>
    obtain ⟨v, hi, w, hj, hcan, hkeeps⟩ := hsafe
    obtain ⟨l, hl⟩ := h.exists_list hi
    obtain ⟨l', hl'⟩ := h.exists_list hj
    simp only [Vectors.call, hj]
    rw [Lists.call, modify_eq_set hl, hl']
    exact h.yields hi hl (h.appendVector hi hl hj hl' hcan hkeeps)
  | removeItemsAt i index count =>
    obtain ⟨v, hi, hsum, hcan⟩ := hsafe
    obtain ⟨l, hl⟩ := h.exists_list hi
    rw [Lists.call, modify_eq_set hl]
    exact h.yields hi hl (h.removeItemsAt hi hl hsum hcan)
  | replaceAt i item index =>
    obtain ⟨v, hi, hindex, hread⟩ := hsafe
    obtain ⟨l, hl⟩ := h.exists_list hi
    rw [Lists.call, modify_eq_set hl]
    exact h.yields hi hl (h.replaceAt hi hl hindex hread)
  | clear i =>
    obtain ⟨v, hi, hcan⟩ := hsafe
    obtain ⟨l, hl⟩ := h.exists_list hi
    exact h.yields hi hl (h.clear hi hl hcan)
  | setCapacity i newCapacity =>
    obtain ⟨v, hi, hcan⟩ := hsafe
    obtain ⟨l, hl⟩ := h.exists_list hi
    obtain ⟨s', hs', hrefines⟩ := h.yields hi hl
      (f := fun v => dropStatus (v.setCapacity ty true s.memory newCapacity))
      (h.setCapacity hi hl hcan)
    obtain ⟨hlt, rfl⟩ := getElem?_eq_some_iff.mp hl
    rw [List.set_getElem_self hlt] at hrefines
    exact ⟨s', hs', hrefines⟩
  | finish i =>
    obtain ⟨v, hi, -⟩ := hsafe
    obtain ⟨hrelease, hrefines⟩ := h.detach hi
    refine ⟨_, ?_, hrefines⟩
    simp [Vectors.call, on, hi, finish_vector, hrelease]

lemma Refines.run {calls : List (VectorCall T)}
    (hrun : Runs (SafeStep ty) empty calls s) :
    Refines ty s (listsAfter ty.constructed calls) := by
  refine hrun.history (P := fun calls s => Refines ty s (listsAfter ty.constructed calls))
    (.initial ty) fun {calls s c s'} h hstep => ?_
  obtain ⟨s'', hcall, hrefines⟩ := h.call hstep.1
  cases hstep.2.symm.trans hcall
  rw [listsAfter, List.foldl_append]
  exact hrefines

/-- **Vectors refine lists.**  In every run of safe calls on any number of vectors, for every item
type: each vector holds the items of its list, and its count does not exceed its capacity; the next
safe call returns; and with another item type, whose items are copied, moved and destroyed in another
way, the vectors hold the items of the same lists. -/
theorem vectors_refine_lists {calls : List (VectorCall T)}
    (hrun : Runs (SafeStep ty) Vectors.empty calls s) :
    s.vecs.length = (listsAfter ty.constructed calls).length ∧
    (∀ (i : ℕ) (v : VectorImpl), s.vecs[i]? = some v → ∃ cap l,
      v.capacity ty s.memory = some cap ∧ v.mCount ≤ cap ∧
      (listsAfter ty.constructed calls)[i]? = some l ∧ v.Holds s.memory l) ∧
    (∀ c, s.Safe ty c → ∃ s', s.call ty c = some s') ∧
    (∀ (ty' : ItemType T) s', ty'.constructed = ty.constructed →
      Runs (SafeStep ty') Vectors.empty calls s' → s'.vecs.length = s.vecs.length ∧
        ∀ (i : ℕ) (v v' : VectorImpl), s.vecs[i]? = some v → s'.vecs[i]? = some v' →
          ∃ l, v.Holds s.memory l ∧ v'.Holds s'.memory l) := by
  have h : Refines ty s (listsAfter ty.constructed calls) := .run hrun
  refine ⟨h.length, fun i v hi => ?_, fun c hsafe => ?_, fun ty' s' hty hrun' => ?_⟩
  · have hb := h.backed v (List.mem_of_getElem? hi)
    obtain ⟨l, hl⟩ := h.exists_list hi
    cases hst : v.mStorage with
    | none =>
      refine ⟨0, l, by simp [capacity, hst], ?_, hl, h.holds i v l hi hl⟩
      rw [hb.null hst]
    | some b =>
      obtain ⟨sb, hsb, hfits⟩ := hb.buffer b hst
      exact ⟨_, l, capacity_eq hst hsb, hfits.slots, hl, h.holds i v l hi hl⟩
  · obtain ⟨s', hcall, -⟩ := h.call hsafe
    exact ⟨s', hcall⟩
  · have h' : Refines ty' s' (listsAfter ty'.constructed calls) := .run hrun'
    rw [hty] at h'
    refine ⟨h'.length.trans h.length.symm, fun i v v' hi hi' => ?_⟩
    obtain ⟨l, hl⟩ := h.exists_list hi
    exact ⟨l, h.holds i v l hi hl, h'.holds i v' l hi' hl⟩

/-- Make a call, if it is safe. -/
def Vectors.next (ty : ItemType T) (s : Vectors T) (c : VectorCall T) :
    Option (VectorCall T × Vectors T) :=
  if s.Safe ty c then (s.call ty c).map fun s' => (c, s') else none

lemma Vectors.safeStep_of_next (ty : ItemType T) (s : Vectors T) (c c' : VectorCall T)
    (s' : Vectors T) (h : s.next ty c = some (c', s')) : SafeStep ty s c' s' := by
  rw [next] at h
  split_ifs at h with hsafe
  obtain ⟨s'', hcall, heq⟩ := map_eq_some_iff.mp h
  cases heq
  exact ⟨hsafe, hcall⟩

/-- Items of four bytes that are constructed, copied and destroyed one by one. -/
def managed : ItemType ℕ := ⟨4, false, false, false, false, 0, by norm_num⟩

/-- A vector, a copy of it that diverges, and an item that is inserted by its address. -/
theorem vectors_refine_lists_copy : ∃ calls s, Runs (SafeStep managed) Vectors.empty calls s ∧
    (s.vecs.map mCount = [4, 5] ∧ listsAfter managed.constructed calls =
      [[some 7, some 9, some 8, some 0], [some 7, some 7, some 8, some 7, some 8]]) ∧
    ∀ (i : ℕ) (v : VectorImpl), s.vecs[i]? = some v → ∃ cap l,
      v.capacity managed s.memory = some cap ∧ v.mCount ≤ cap ∧
      (listsAfter managed.constructed calls)[i]? = some l ∧ v.Holds s.memory l := by
  obtain ⟨calls, s, hrun, hfinal⟩ : ∃ calls s, Runs (SafeStep managed) empty calls s ∧
      s.vecs.map mCount = [4, 5] ∧ listsAfter managed.constructed calls =
        [[some 7, some 9, some 8, some 0], [some 7, some 7, some 8, some 7, some 8]] :=
    Runs.exists_of_execute (safeStep_of_next managed)
      [.create, .insertArrayAt 0 [7, 8] 0, .copy 0, .appendVector 0 1, .insertAt 1 (.itemOf 0 0) 0 1,
        .removeItemsAt 0 2 2, .appendVector 1 0, .insertAt 0 (.value 9) 1 1, .insertAt 0 .null 3 1]
      (by decide +kernel)
  exact ⟨calls, s, hrun, hfinal, (vectors_refine_lists hrun).2.1⟩

/-- **No buffer leaks and none dangles.**  In every run of safe calls the reference count of a buffer
is the number of vectors that use it, and the buffers that exist are those of the vectors. -/
theorem buffers_counted {calls : List (VectorCall T)}
    (hrun : Runs (SafeStep ty) Vectors.empty calls s) (b : ℕ) :
    s.memory.refs b = (s.vecs.map mStorage).count (some b) ∧
      ((s.memory.val? b).isSome ↔ ∃ v ∈ s.vecs, v.mStorage = some b) := by
  have h := (Refines.run hrun).owned
  exact ⟨h.refs b, h.isSome_val?_iff.trans List.mem_map⟩

/-- A copy shares the buffer. -/
theorem buffers_counted_copy : ∃ calls s, Runs (SafeStep managed) Vectors.empty calls s ∧
    s.vecs.map mStorage = [some 0, some 0] ∧
    s.memory.refs 0 = (s.vecs.map mStorage).count (some 0) := by
  obtain ⟨calls, s, hrun, hst⟩ : ∃ calls s, Runs (SafeStep managed) empty calls s ∧
      s.vecs.map mStorage = [some 0, some 0] :=
    Runs.exists_of_execute (safeStep_of_next managed)
      [.create, .insertArrayAt 0 [7, 8] 0, .copy 0] (by decide +kernel)
  exact ⟨calls, s, hrun, hst, (buffers_counted hrun 0).1⟩

/-- **Calls that are not safe.**  Inserting nothing destroys the items of a vector; appending a
vector to itself reads freed memory; and a count may exceed the capacity. -/
theorem unsafe_calls :
    (∃ calls s v, Runs (fun s c s' => s.call managed c = some s') Vectors.empty calls s ∧
      s.vecs[0]? = some v ∧ listsAfter managed.constructed calls = [[some 1, some 2]] ∧
      ¬v.Holds s.memory [some 1, some 2]) ∧
    (∃ calls s, Runs (fun s c s' => s.call managed c = some s') Vectors.empty calls s ∧
      s.call managed (.appendVector 0 0) = none) ∧
    (∃ m v p cap, construct.grow managed true .empty 0 1431655766 = some (m, v, p) ∧
      v.capacity managed m = some cap ∧ cap < v.mCount) := by
  have hexec : ∀ (s : Vectors ℕ) (c c') s',
      (s.call managed c).map (fun s' => (c, s')) = some (c', s') → s.call managed c' = some s' := by
    intro s c c' s' h
    obtain ⟨s'', hcall, heq⟩ := map_eq_some_iff.mp h
    cases heq
    exact hcall
  refine ⟨?_, ?_, ?_⟩
  · obtain ⟨calls, s, hrun, hlists, hitem, hvec⟩ : ∃ calls s,
        Runs (fun s c s' => s.call managed c = some s') empty calls s ∧
        listsAfter managed.constructed calls = [[some 1, some 2]] ∧
        (s.vecs[0]?.bind fun v => v.itemAt s.memory 0) = none ∧ s.vecs[0]?.isSome = true :=
      Runs.exists_of_execute hexec
        [.create, .insertArrayAt 0 [1, 2] 0, .insertArrayAt 0 [] 0] (by decide +kernel)
    obtain ⟨v, hv⟩ := isSome_iff_exists.mp hvec
    refine ⟨calls, s, v, hrun, hv, hlists, fun hholds => ?_⟩
    rw [hv, bind_some, hholds.items 0 1 rfl] at hitem
    cases hitem
  · obtain ⟨calls, s, hrun, hcall⟩ : ∃ calls s,
        Runs (fun s c s' => s.call managed c = some s') empty calls s ∧
        (s.call managed (.appendVector 0 0)).isNone = true :=
      Runs.exists_of_execute hexec [.create, .insertArrayAt 0 [1, 2, 3, 4] 0] (by decide +kernel)
    exact ⟨calls, s, hrun, isNone_iff_eq_none.mp hcall⟩
  · have hgrow : ((construct.grow managed true .empty 0 1431655766).any fun r =>
        (r.2.1.capacity managed r.1).any fun cap => cap < r.2.1.mCount) = true := by decide +kernel
    obtain ⟨⟨m, v, p⟩, hr, hcap⟩ := (any_eq_true _ _).mp hgrow
    obtain ⟨cap, hcap, hlt⟩ := (any_eq_true _ _).mp hcap
    exact ⟨m, v, p, cap, hr, hcap, of_decide_eq_true hlt⟩

end Droid
