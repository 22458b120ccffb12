import Mathlib.Tactic

/-!
# Records in blocks

Records are stored one after the other in blocks of `bs` bytes, and no record may cross the end of a
block.  `pack` places each record at the first position where it fits (`fit`).  No other way to place
records of these sizes in this order ends earlier (`pack_le`).

`Within bs p sizes` says that records of these sizes, stored from `p` on without any space between
them, stay within the blocks.
-/

namespace Droid.Packing

open Nat

variable {bs o p n d : ℕ} {sizes records : List ℕ}

/-! ## One record -/

/-- The first position from `o` on where `n` bytes fit into a block. -/
def fit (bs o n : ℕ) : ℕ := if o % bs + n ≤ bs then o else (o / bs + 1) * bs

lemma lt_div_add_one_mul (hbs : 0 < bs) (o : ℕ) : o < (o / bs + 1) * bs := by
  rw [mul_comm]
  exact lt_mul_div_succ o hbs

lemma le_fit (hbs : 0 < bs) (o n : ℕ) : o ≤ fit bs o n := by
  rw [fit]
  split_ifs
  · exact le_rfl
  · exact (lt_div_add_one_mul hbs o).le

lemma fit_mod_add_le (hn : n ≤ bs) (o : ℕ) : fit bs o n % bs + n ≤ bs := by
  rw [fit]
  split_ifs with h
  · exact h
  · rwa [mul_mod_left, zero_add]

/-- It is the first position. -/
lemma fit_le (hle : o ≤ p) (hp : p % bs + n ≤ bs) : fit bs o n ≤ p := by
  rw [fit]
  split_ifs with h
  · exact hle
  · have ho := div_add_mod o bs
    have hp' := div_add_mod p bs
    rcases lt_or_ge (o / bs) (p / bs) with hlt | hge
    · calc (o / bs + 1) * bs ≤ p / bs * bs := mul_le_mul_right _ hlt
        _ ≤ p := div_mul_le_self p bs
    · have heq : p / bs = o / bs := le_antisymm hge (Nat.div_le_div_right hle)
      rw [heq] at hp'
      omega

/-- Bytes that end in the block they begin in. -/
lemma div_eq_iff (hbs : 0 < bs) (hn : 0 < n) (o : ℕ) :
    o / bs = (o + n - 1) / bs ↔ o % bs + n ≤ bs := by
  have ho := div_add_mod o bs
  rw [eq_comm, Nat.div_eq_iff hbs, mul_comm]
  omega

lemma div_of_cross (hbs : 0 < bs) (hn : n ≤ bs) (h : ¬ o % bs + n ≤ bs) :
    (o + n - 1) / bs = o / bs + 1 := by
  have ho := div_add_mod o bs
  have hlt := mod_lt o hbs
  rw [Nat.div_eq_iff hbs, add_mul, mul_comm]
  omega

/-- A record that ends where the next one does not fit is made longer, up to the end of its block. -/
lemma mod_add_pad {r : ℕ} (hbs : 0 < bs) (hn : n ≤ bs) (hp : p % bs + r ≤ bs)
    (h : ¬ (p + r) % bs + n ≤ bs) :
    p % bs + (r + (((p + r) / bs + 1) * bs - (p + r))) = bs := by
  have hp' := div_add_mod p bs
  have hr := div_add_mod (p + r) bs
  have hlt : p % bs + r < bs := by
    refine lt_of_le_of_ne hp fun heq => h ?_
    have hmod : (p + r) % bs = 0 := by
      rw [← mod_add_mod, heq, mod_self]
    omega
  have hdiv : (p + r) / bs = p / bs := by
    rw [Nat.div_eq_iff hbs, mul_comm]
    omega
  rw [hdiv] at hr ⊢
  rw [add_mul, mul_comm]
  omega

lemma dvd_fit (hbs : d ∣ bs) (ho : d ∣ o) : d ∣ fit bs o n := by
  rw [fit]
  split_ifs
  · exact ho
  · exact hbs.mul_left _

/-! ## Records, one after the other -/

/-- Where records of these sizes end. -/
def pack (bs o : ℕ) (sizes : List ℕ) : ℕ := sizes.foldl (fun o n => fit bs o n + n) o

@[simp] lemma pack_nil : pack bs o [] = o := rfl

@[simp] lemma pack_cons : pack bs o (n :: sizes) = pack bs (fit bs o n + n) sizes := rfl

lemma pack_append (sizes' : List ℕ) :
    pack bs o (sizes ++ sizes') = pack bs (pack bs o sizes) sizes' := by
  rw [pack, List.foldl_append, ← pack, ← pack]

lemma le_pack (hbs : 0 < bs) (o : ℕ) (sizes : List ℕ) : o ≤ pack bs o sizes := by
  induction sizes generalizing o with
  | nil => exact le_rfl
  | cons n sizes ih => exact (le_fit hbs o n).trans ((le_add_right _ _).trans (ih _))

/-- Records of these sizes, stored from `p` on, stay within the blocks. -/
def Within (bs : ℕ) : ℕ → List ℕ → Prop
  | _, [] => True
  | p, n :: sizes => p % bs + n ≤ bs ∧ Within bs (p + n) sizes

@[simp] lemma within_nil : Within bs p [] := trivial

@[simp] lemma within_cons :
    Within bs p (n :: sizes) ↔ p % bs + n ≤ bs ∧ Within bs (p + n) sizes := Iff.rfl

lemma within_append (sizes' : List ℕ) :
    Within bs p (sizes ++ sizes') ↔ Within bs p sizes ∧ Within bs (p + sizes.sum) sizes' := by
  induction sizes generalizing p with
  | nil => simp
  | cons n sizes ih => simp [ih, and_assoc, add_assoc]

lemma Within.le (h : Within bs p sizes) (hn : n ∈ sizes) : n ≤ bs := by
  induction sizes generalizing p with
  | nil => simp at hn
  | cons k sizes ih =>
    obtain ⟨hk, hrest⟩ := h
    rcases List.mem_cons.mp hn with rfl | hn
    · omega
    · exact ih hrest hn

/-- **Nothing ends earlier.**  Records that are at least as large, and stay within the blocks, end where
`pack` ends or behind it. -/
lemma pack_le (hsizes : List.Forall₂ (· ≤ ·) sizes records) :
    ∀ {o p : ℕ}, o ≤ p → Within bs p records → pack bs o sizes ≤ p + records.sum := by
  induction hsizes with
  | nil => simp
  | @cons n r sizes records hn _ ih =>
    rintro o p hle ⟨hr, hrest⟩
    have hfit : fit bs o n ≤ p := fit_le hle (by omega)
    rw [pack_cons, List.sum_cons, ← add_assoc]
    exact ih (by omega) hrest

/-- The end of a block is the end of a record. -/
lemma dvd_sub_of_within (hd : ∀ n ∈ sizes, d ∣ n) :
    ∀ {p : ℕ}, Within bs p sizes → p ≤ bs → bs ≤ p + sizes.sum → d ∣ bs - p := by
  induction sizes with
  | nil =>
    intro p _ hle hge
    rw [show bs - p = 0 by simp at hge; omega]
    exact dvd_zero d
  | cons n sizes ih =>
    rintro p ⟨hn, hrest⟩ hle hge
    rcases hle.eq_or_lt with rfl | hlt
    · simp
    · rw [mod_eq_of_lt hlt] at hn
      rw [List.sum_cons, ← add_assoc] at hge
      have hrest' := ih (fun k hk => hd k (List.mem_cons_of_mem _ hk)) hrest hn hge
      have hsplit : bs - p = n + (bs - (p + n)) := by omega
      rw [hsplit]
      exact (hd n List.mem_cons_self).add hrest'

end Droid.Packing
