import Mathlib.Tactic

/-!
# Recency

Events come one after the other, and each of them uses some keys.  `lastUse uses h k` is the number
of the last event of the history `h` that used `k`, counted from one, and zero when no event did.
A list of keys is ordered `ByRecency` when each key was used later than all keys after it; what a
further event does to such a list depends only on the keys the event uses.
-/

namespace Droid

variable {α κ : Type*} {uses : κ → α → Bool} {h : List α} {e : α} {k : κ} {ks : List κ}

/-- The number of the last event that used the key. -/
def lastUse (uses : κ → α → Bool) (h : List α) (k : κ) : ℕ :=
  h.length - h.reverse.findIdx (uses k)

lemma lastUse_le (uses : κ → α → Bool) (h : List α) (k : κ) : lastUse uses h k ≤ h.length :=
  Nat.sub_le _ _

lemma lastUse_snoc_of_uses (he : uses k e = true) : lastUse uses (h ++ [e]) k = h.length + 1 := by
  simp [lastUse, List.findIdx_cons, he]

lemma lastUse_snoc_of_not (he : uses k e = false) :
    lastUse uses (h ++ [e]) k = lastUse uses h k := by
  simp [lastUse, List.findIdx_cons, he]

/-- The keys stand in the order of their last use, the latest first. -/
def ByRecency (uses : κ → α → Bool) (h : List α) (ks : List κ) : Prop :=
  ks.Pairwise fun a b => lastUse uses h b < lastUse uses h a

namespace ByRecency

lemma sublist {ks' : List κ} (hks : ByRecency uses h ks) (hsub : ks'.Sublist ks) :
    ByRecency uses h ks' := List.Pairwise.sublist hsub hks

/-- An event that uses none of the keys leaves their order alone. -/
lemma skip (hks : ByRecency uses h ks) (he : ∀ a ∈ ks, uses a e = false) :
    ByRecency uses (h ++ [e]) ks := by
  refine List.Pairwise.imp_of_mem (fun {a b} ha hb hlt => ?_) hks
  rwa [lastUse_snoc_of_not (he a ha), lastUse_snoc_of_not (he b hb)]

/-- The key an event uses goes to the front. -/
lemma use (hks : ByRecency uses h ks) (hk : uses k e = true) (he : ∀ a ∈ ks, uses a e = false) :
    ByRecency uses (h ++ [e]) (k :: ks) := by
  refine List.pairwise_cons.mpr ⟨fun a ha => ?_, hks.skip he⟩
  rw [lastUse_snoc_of_uses hk, lastUse_snoc_of_not (he a ha)]
  exact Nat.lt_succ_of_le (lastUse_le uses h a)

/-- The last key is the least recently used one. -/
lemma lt_of_mem (hks : ByRecency uses h (ks ++ [k])) {a : κ} (ha : a ∈ ks) :
    lastUse uses h k < lastUse uses h a := by
  rw [ByRecency, List.pairwise_append] at hks
  exact hks.2.2 a ha k (by simp)

end ByRecency

end Droid
