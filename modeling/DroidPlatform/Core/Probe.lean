import Mathlib.Tactic

/-!
# Probe sequences

A probe sequence walks a table of `n` slots from a start in steps of a fixed size, modulo `n`.  When
`n` is prime and the step is not a multiple of it, the first `n` probes visit every slot once
(`probe_injective`, `exists_probe_eq`).

`Enumerates f a is` says that calling `f` on its own last answer, from `a` on, answers `is` and then
`-1`.  A function that always answers with the next match of a walk enumerates all matches of the
walk, in order (`Enumerates.of_walk`).
-/

namespace Droid

open List Nat Finset

/-! ## The sequence -/

/-- The slot of the `k`-th probe. -/
def probe (n start step k : ℕ) : ℕ := (start + k * step) % n

variable {n start step : ℕ} {P : ℕ → Bool} {a k : ℕ}

lemma probe_zero (h : start < n) : probe n start step 0 = start := by
  simp [probe, mod_eq_of_lt h]

lemma probe_lt (hn : 0 < n) (k : ℕ) : probe n start step k < n := mod_lt _ hn

lemma probe_succ (k : ℕ) : (probe n start step k + step) % n = probe n start step (k + 1) := by
  rw [probe, probe, mod_add_mod, succ_mul, add_assoc]

/-- No slot is probed twice in `n` probes. -/
theorem probe_injective (hn : n.Coprime step) {j : ℕ} (hj : j < n) (hk : k < n)
    (h : probe n start step j = probe n start step k) : j = k := by
  have hmod : j * step ≡ k * step [MOD n] := ModEq.add_left_cancel' start h
  exact (ModEq.cancel_right_of_coprime hn hmod).eq_of_lt_of_lt hj hk

/-- Every slot is probed in `n` probes. -/
theorem exists_probe_eq (hn : n.Coprime step) {i : ℕ} (hi : i < n) :
    ∃ k < n, probe n start step k = i := by
  have hmaps : Set.MapsTo (probe n start step) (range n) (range n) := by
    intro k _
    exact mem_coe.mpr (Finset.mem_range.mpr (probe_lt (by omega) k))
  have hinj : Set.InjOn (probe n start step) (range n) := by
    intro j hj k hk h
    exact probe_injective hn (by simpa using hj) (by simpa using hk) h
  obtain ⟨k, hk, heq⟩ := surjOn_of_injOn_of_card_le _ hmaps hinj le_rfl
    (mem_coe.mpr (Finset.mem_range.mpr hi))
  exact ⟨k, by simpa using hk, heq⟩

/-! ## Enumerations -/

/-- `f a`, `f (f a)`, … are `is` and then `-1`. -/
def Enumerates {ε : Type*} (f : ℤ → Except ε ℤ) : ℤ → List ℕ → Prop
  | a, [] => f a = .ok (-1)
  | a, i :: is => f a = .ok i ∧ Enumerates f i is

/-- The answer that a walk gives: its first match, or `-1`. -/
def answer (slot : ℕ → ℕ) : List ℕ → ℤ
  | [] => -1
  | k :: _ => slot k

/-- The positions from `a` on that match. -/
def matchesFrom (P : ℕ → Bool) (n a : ℕ) : List ℕ := (List.range' a (n - a)).filter P

lemma mem_matchesFrom : k ∈ matchesFrom P n a ↔ a ≤ k ∧ k < n ∧ P k = true := by
  simp only [matchesFrom, mem_filter, mem_range'_1]
  constructor
  · rintro ⟨⟨hle, hlt⟩, hk⟩
    exact ⟨hle, by omega, hk⟩
  · rintro ⟨hle, hlt, hk⟩
    exact ⟨⟨hle, by omega⟩, hk⟩

lemma sorted_matchesFrom (P : ℕ → Bool) (n a : ℕ) : (matchesFrom P n a).Pairwise (· < ·) :=
  (pairwise_lt_range' 1).filter P

lemma matchesFrom_of_not (h : P a = false) :
    matchesFrom P n a = matchesFrom P n (a + 1) := by
  rcases lt_or_ge a n with hlt | hge
  · rw [matchesFrom, matchesFrom, show n - a = n - (a + 1) + 1 by omega, range'_succ,
      filter_cons_of_neg (by simp [h])]
  · rw [matchesFrom, matchesFrom, Nat.sub_eq_zero_of_le hge, Nat.sub_eq_zero_of_le (by omega)]
    rfl

lemma matchesFrom_of_match (hlt : a < n) (h : P a = true) :
    matchesFrom P n a = a :: matchesFrom P n (a + 1) := by
  rw [matchesFrom, matchesFrom, show n - a = n - (a + 1) + 1 by omega, range'_succ,
    filter_cons_of_pos h]

lemma matchesFrom_eq_nil (h : ∀ k, a ≤ k → k < n → P k = false) :
    matchesFrom P n a = [] := by
  refine eq_nil_iff_forall_not_mem.mpr fun k hk => ?_
  obtain ⟨hle, hlt, hPk⟩ := mem_matchesFrom.mp hk
  simp [h k hle hlt] at hPk

/-- What follows the first match are the matches after it. -/
lemma matchesFrom_cons {rest : List ℕ} (h : matchesFrom P n a = k :: rest) :
    k < n ∧ P k = true ∧ rest = matchesFrom P n (k + 1) := by
  induction hd : n - a generalizing a with
  | zero =>
    rw [matchesFrom, hd] at h
    simp at h
  | succ d ih =>
    cases hP : P a with
    | true =>
      rw [matchesFrom_of_match (by omega) hP] at h
      cases h
      exact ⟨by omega, hP, rfl⟩
    | false =>
      rw [matchesFrom_of_not hP] at h
      exact ih h (by omega)

/-- **Walks enumerate their matches.** -/
theorem Enumerates.of_walk {ε : Type*} {f : ℤ → Except ε ℤ} {slot : ℕ → ℕ}
    (hstep : ∀ k < n, P k = true → f (slot k) = .ok (answer slot (matchesFrom P n (k + 1)))) :
    ∀ {a : ℕ} {b : ℤ}, f b = .ok (answer slot (matchesFrom P n a)) →
      Enumerates f b ((matchesFrom P n a).map slot) := by
  intro a
  generalize hms : matchesFrom P n a = ms
  induction ms generalizing a with
  | nil =>
    intro b hb
    exact hb
  | cons k ms ih =>
    intro b hb
    obtain ⟨hk, hP, hrest⟩ := matchesFrom_cons hms
    refine ⟨hb, ih hrest.symm ?_⟩
    rw [hrest]
    exact hstep k hk hP

end Droid
