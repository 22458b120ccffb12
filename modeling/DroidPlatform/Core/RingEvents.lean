import Mathlib.Tactic

/-!
# Events around a ring of slots

Two parties hand `n` slots to each other in turn.  The `j`-th use of the ring is of slot `j % n`, and
an event for each slot says that it has been handed over: `Signalled n ev lo hi` says that the uses
from `lo` up to `hi` are signalled, and no others.

As long as at most `n` uses are signalled at a time, no event is signalled twice.  Then waiting for
the event of slot `lo % n` takes exactly the use `lo` (`Signalled.wait`), signalling that of
slot `hi % n` adds exactly the use `hi` (`Signalled.signal`), and a wait that blocks means that
nothing is signalled (`Signalled.eq_of_blocked`).
-/

namespace Droid

open Function

variable {n lo hi : ℕ} {ev : ℕ → Bool}

structure Signalled (n : ℕ) (ev : ℕ → Bool) (lo hi : ℕ) : Prop where
  le : lo ≤ hi
  le_add : hi ≤ lo + n
  iff : ∀ i < n, ev i = true ↔ ∃ j, lo ≤ j ∧ j < hi ∧ j % n = i

namespace Signalled

/-- Uses less than `n` apart are of different slots. -/
lemma eq_of_mod_eq {i j : ℕ} (hij : i ≤ j) (hlt : j < i + n) (hmod : i % n = j % n) : i = j := by
  have hdvd : n ∣ j - i := (Nat.modEq_iff_dvd' hij).mp hmod
  have hzero := Nat.eq_zero_of_dvd_of_lt hdvd (by omega)
  omega

lemma apply_of_lt (h : Signalled n ev lo hi) (hlt : lo < hi) : ev (lo % n) = true := by
  have hn : 0 < n := by
    have := h.le_add
    omega
  exact (h.iff _ (Nat.mod_lt _ hn)).mpr ⟨lo, le_rfl, hlt, rfl⟩

/-- A wait that blocks. -/
lemma eq_of_blocked (h : Signalled n ev lo hi) (hblocked : ev (lo % n) = false) : lo = hi := by
  by_contra hne
  rw [h.apply_of_lt (lt_of_le_of_ne h.le hne)] at hblocked
  cases hblocked

/-- A wait that goes through. -/
lemma lt_of_apply (hn : 0 < n) (h : Signalled n ev lo hi) (hev : ev (lo % n) = true) : lo < hi := by
  obtain ⟨j, hle, hlt, -⟩ := (h.iff _ (Nat.mod_lt _ hn)).mp hev
  omega

lemma wait (hn : 0 < n) (h : Signalled n ev lo hi) (hev : ev (lo % n) = true) :
    Signalled n (update ev (lo % n) false) (lo + 1) hi := by
  have hlt := h.lt_of_apply hn hev
  have hadd := h.le_add
  refine ⟨hlt, by omega, fun i hi' => ?_⟩
  by_cases hieq : i = lo % n
  · subst hieq
    refine ⟨fun hfalse => absurd hfalse (by simp), ?_⟩
    rintro ⟨j, hle, hjlt, hmod⟩
    have := eq_of_mod_eq (j := j) (by omega) (by omega) hmod.symm
    omega
  · rw [update_of_ne hieq, h.iff i hi']
    constructor
    · rintro ⟨j, hle, hjlt, rfl⟩
      refine ⟨j, ?_, hjlt, rfl⟩
      have hne : j ≠ lo := fun heq => hieq (by rw [heq])
      omega
    · rintro ⟨j, hle, hjlt, rfl⟩
      exact ⟨j, by omega, hjlt, rfl⟩

lemma signal (h : Signalled n ev lo hi) (hroom : hi < lo + n) :
    Signalled n (update ev (hi % n) true) lo (hi + 1) := by
  have hle := h.le
  refine ⟨by omega, by omega, fun i hi' => ?_⟩
  by_cases hieq : i = hi % n
  · subst hieq
    rw [update_self]
    exact ⟨fun _ => ⟨hi, hle, by omega, rfl⟩, fun _ => rfl⟩
  · rw [update_of_ne hieq, h.iff i hi']
    constructor
    · rintro ⟨j, hjle, hjlt, rfl⟩
      exact ⟨j, hjle, by omega, rfl⟩
    · rintro ⟨j, hjle, hjlt, rfl⟩
      have hne : j ≠ hi := fun heq => hieq (by rw [heq])
      exact ⟨j, hjle, by omega, rfl⟩

end Signalled

end Droid
