import Mathlib.Tactic

/-!
# References inside a set of objects

Objects hold references to each other: `out b` lists what `b` refers to, as often as it does.
`inDegree nodes out x` counts the references to `x` in the objects `nodes`.

The lemmas say what an edit does to all counts at once: one object's references change
(`inDegree_update`), an object comes (`inDegree_concat`) or goes (`inDegree_erase`).  They are
stated as sums, so that counts never have to be subtracted.

References without cycles have a rank (`exists_rank`), on which to recurse.
-/

namespace Droid

open List

variable {ι : Type*} [DecidableEq ι] {nodes : List ι} {out out' : ι → List ι} {a b x : ι}

def inDegree (nodes : List ι) (out : ι → List ι) (x : ι) : ℕ :=
  (nodes.map fun b => (out b).count x).sum

@[simp] lemma inDegree_cons :
    inDegree (b :: nodes) out x = (out b).count x + inDegree nodes out x := by
  simp [inDegree]

@[simp] lemma inDegree_concat :
    inDegree (nodes ++ [b]) out x = inDegree nodes out x + (out b).count x := by
  simp [inDegree]

lemma inDegree_congr (h : ∀ b ∈ nodes, out' b = out b) :
    inDegree nodes out' x = inDegree nodes out x := by
  rw [inDegree, map_congr_left fun b hb => by rw [h b hb]]
  rfl

lemma count_le_inDegree (hb : b ∈ nodes) : (out b).count x ≤ inDegree nodes out x :=
  single_le_sum (fun _ _ => Nat.zero_le _) _ (mem_map_of_mem hb)

lemma inDegree_pos (hb : b ∈ nodes) (hx : x ∈ out b) : 0 < inDegree nodes out x :=
  (count_pos_iff.mpr hx).trans_le (count_le_inDegree hb)

lemma inDegree_eq_zero (h : ∀ b ∈ nodes, x ∉ out b) : inDegree nodes out x = 0 := by
  refine sum_eq_zero fun n hn => ?_
  obtain ⟨b, hb, rfl⟩ := mem_map.mp hn
  exact count_eq_zero.mpr (h b hb)

/-- **One object's references change.** -/
lemma inDegree_update (hnodup : nodes.Nodup) (ha : a ∈ nodes)
    (hout : ∀ b ∈ nodes, b ≠ a → out' b = out b) :
    inDegree nodes out' x + (out a).count x = inDegree nodes out x + (out' a).count x := by
  induction nodes with
  | nil => cases ha
  | cons b nodes ih =>
    rw [nodup_cons] at hnodup
    simp only [inDegree_cons]
    by_cases hba : b = a
    · subst hba
      have hrest : inDegree nodes out' x = inDegree nodes out x :=
        inDegree_congr fun c hc =>
          hout c (mem_cons_of_mem _ hc) fun heq => hnodup.1 (heq ▸ hc)
      omega
    · have hrest := ih hnodup.2 ((mem_cons.mp ha).resolve_left (Ne.symm hba))
        fun c hc => hout c (mem_cons_of_mem _ hc)
      rw [hout b mem_cons_self hba]
      omega

/-- **An object goes.** -/
lemma inDegree_erase (ha : a ∈ nodes) :
    inDegree (nodes.erase a) out x + (out a).count x = inDegree nodes out x := by
  have hperm := (perm_cons_erase ha).map fun b => (out b).count x
  rw [inDegree, inDegree, hperm.sum_eq, map_cons, sum_cons, add_comm]

/-- **No cycles, a rank.**  Count what can be reached. -/
lemma exists_rank {κ : Type*} [Finite κ] {r : κ → κ → Prop}
    (h : ∀ n, ¬ Relation.TransGen r n n) : ∃ rank : κ → ℕ, ∀ m n, r m n → rank m < rank n := by
  refine ⟨fun n => Set.ncard {m | Relation.TransGen r m n}, fun m n hmn => ?_⟩
  refine Set.ncard_lt_ncard ⟨fun k hk => Relation.TransGen.tail hk hmn, fun hsub => ?_⟩
    (Set.toFinite _)
  exact h m (hsub (Relation.TransGen.single hmn))

end Droid
