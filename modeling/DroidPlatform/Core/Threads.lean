import DroidPlatform.Core.Trace

/-!
# Threads with a shared memory

A system of threads has a memory that all of them share and a local state for each of them.  `next`
says what one thread can do: with its local state and the memory, an event leads to a new local state
and a new memory.  In one step of the system one thread does one such thing, so that the runs of the
system (`Runs`) are all the interleavings.

`count` is the number of threads whose local state has a property.  A step changes it by what it does
to the local state of the thread that takes it (`count_update`).
-/

namespace Droid

open Function Finset

variable {ι μ κ α : Type*} [DecidableEq ι]

/-- The memory, and the local states of the threads. -/
@[ext] structure Threads (ι μ κ : Type*) where
  mem : μ
  loc : ι → κ

namespace Threads

/-- A thread does something. -/
def Step (next : ι → κ → μ → α → Option (κ × μ)) (c : Threads ι μ κ) (e : ι × α)
    (c' : Threads ι μ κ) : Prop :=
  ∃ l m, next e.1 (c.loc e.1) c.mem e.2 = some (l, m) ∧ c' = ⟨m, Function.update c.loc e.1 l⟩

/-- What a step does, computed. -/
def take (next : ι → κ → μ → α → Option (κ × μ)) (c : Threads ι μ κ) (e : ι × α) :
    Option ((ι × α) × Threads ι μ κ) :=
  (next e.1 (c.loc e.1) c.mem e.2).map fun r => (e, ⟨r.2, Function.update c.loc e.1 r.1⟩)

lemma step_of_take {next : ι → κ → μ → α → Option (κ × μ)} (c : Threads ι μ κ) (e e' : ι × α)
    (c' : Threads ι μ κ) (h : take next c e = some (e', c')) : Step next c e' c' := by
  obtain ⟨⟨l, m⟩, hnext, heq⟩ := Option.map_eq_some_iff.mp h
  cases heq
  exact ⟨l, m, hnext, rfl⟩

/-! ## Counting -/

section

variable [Fintype ι] (p : κ → Bool)

/-- How many threads have a local state with this property. -/
def count (loc : ι → κ) : ℕ := (Finset.univ.filter fun i => p (loc i) = true).card

/-- One local state changes. -/
lemma count_update (loc : ι → κ) (i : ι) (l : κ) :
    count p (update loc i l) + (p (loc i)).toNat = count p loc + (p l).toNat := by
  have hsplit : ∀ f : ι → κ, count p f =
      (p (f i)).toNat + ((univ.erase i).filter fun j => p (f j) = true).card := by
    intro f
    rw [count, ← insert_erase (mem_univ i), filter_insert]
    cases hp : p (f i) with
    | false => simp
    | true => simp [add_comm]
  have hrest : ((univ.erase i).filter fun j => p (update loc i l j) = true) =
      (univ.erase i).filter fun j => p (loc j) = true := by
    refine filter_congr fun j hj => ?_
    rw [update_of_ne (ne_of_mem_erase hj)]
  rw [hsplit (update loc i l), hsplit loc, hrest, update_self]
  omega

omit [DecidableEq ι] in
lemma count_eq_zero {loc : ι → κ} (h : ∀ i, p (loc i) = false) : count p loc = 0 := by
  simp [count, h]

end

end Threads

end Droid
