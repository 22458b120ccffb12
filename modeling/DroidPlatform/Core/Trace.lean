import Mathlib.Tactic

/-!
# Runs of labelled transition systems

A system is a relation `step s a t`: from `s`, the event `a` leads to `t`.  `Runs step s as t` says
that the events `as`, in this order, lead from `s` to `t`.

* **Invariants** — `Runs.invariant` for a property of states, `Runs.history` for a property of the
  state and of everything that happened so far.
* **Simulation** — `Runs.simulate` turns a run of a concrete system into a run of an abstract one in
  which every concrete event becomes a list of abstract events.
* **Execution** — `execute` runs a schedule with a function that knows how to take a step; what it
  does is a run (`Runs.of_execute`), so that runs with a decidable property can be exhibited by
  computation (`Runs.exists_of_execute`).
-/

namespace Droid

open Option

variable {σ τ α β : Type*} {step : σ → α → σ → Prop} {s : σ} {P : List α → σ → Prop}

/-- A run, built at its end. -/
inductive Runs (step : σ → α → σ → Prop) (s : σ) : List α → σ → Prop
  | nil : Runs step s [] s
  | snoc {as a t u} (run : Runs step s as t) (last : step t a u) : Runs step s (as ++ [a]) u

namespace Runs

lemma single {t : σ} {a : α} (h : step s a t) : Runs step s [a] t := .snoc .nil h

lemma append {t u : σ} {as bs : List α} (h : Runs step s as t) (h' : Runs step t bs u) :
    Runs step s (as ++ bs) u := by
  induction h' with
  | nil => simpa using h
  | snoc _ last ih =>
    rw [← List.append_assoc]
    exact .snoc ih last

lemma cons {t u : σ} {a : α} {as : List α} (h : step s a t) (h' : Runs step t as u) :
    Runs step s (a :: as) u := (single h).append h'

lemma eq_of_nil {t : σ} (h : Runs step s [] t) : s = t := by
  generalize has : ([]) = as at h
  cases h with
  | nil => rfl
  | snoc _ _ => simp at has

lemma single_iff {t : σ} {a : α} : Runs step s [a] t ↔ step s a t := by
  refine ⟨fun h => ?_, single⟩
  generalize has : [a] = as at h
  cases h with
  | nil => simp at has
  | snoc run last =>
    rw [← List.nil_append [a]] at has
    obtain ⟨hnil, ha⟩ := List.append_inj' has rfl
    subst hnil
    cases ha
    rw [run.eq_of_nil]
    exact last

/-- **Invariants.**  What holds at the start and is kept by every step holds at the end. -/
theorem invariant {P : σ → Prop} {t : σ} {as : List α} (h : Runs step s as t) (hs : P s)
    (hstep : ∀ {s a t}, P s → step s a t → P t) : P t := by
  induction h with
  | nil => exact hs
  | snoc _ last ih => exact hstep ih last

/-- **Invariants with a history.**  The property may speak of the events so far. -/
theorem history {t : σ} {as : List α} (h : Runs step s as t) (hs : P [] s)
    (hstep : ∀ {as s a t}, P as s → step s a t → P (as ++ [a]) t) : P as t := by
  induction h with
  | nil => exact hs
  | snoc _ last ih => exact hstep ih last

/-- A run in which every step satisfies more is a run. -/
theorem mono {step' : σ → α → σ → Prop} {t : σ} {as : List α} (h : Runs step s as t)
    (himp : ∀ {s a t}, step s a t → step' s a t) : Runs step' s as t := by
  induction h with
  | nil => exact .nil
  | snoc _ last ih => exact .snoc ih (himp last)

/-- **Simulation.**  If every step of the concrete system, between states that keep the invariant
`P`, is a run of the abstract system over the events `f a`, so is every concrete run. -/
theorem simulate {step' : τ → β → τ → Prop} {P : σ → Prop} (abs : σ → τ) (f : α → List β) {t : σ}
    {as : List α} (h : Runs step s as t) (hs : P s) (hinv : ∀ {s a t}, P s → step s a t → P t)
    (hsim : ∀ {s a t}, P s → step s a t → Runs step' (abs s) (f a) (abs t)) :
    Runs step' (abs s) (as.flatMap f) (abs t) := by
  induction h with
  | nil => exact .nil
  | snoc run last ih =>
    rw [List.flatMap_append, List.flatMap_singleton]
    exact ih.append (hsim (run.invariant hs hinv) last)

end Runs

/-! ## Execution -/

variable {ι : Type*} {next : σ → ι → Option (α × σ)}

/-- Run a schedule, instruction by instruction. -/
def execute (next : σ → ι → Option (α × σ)) : σ → List ι → Option (List α × σ)
  | s, [] => some ([], s)
  | s, i :: is => do
    let (a, t) ← next s i
    let (as, u) ← execute next t is
    return (a :: as, u)

section

variable (hnext : ∀ s i a t, next s i = some (a, t) → step s a t)

include hnext

/-- What a sound `next` does is a run. -/
theorem Runs.of_execute :
    ∀ {is : List ι} {s t : σ}
      {as : List α}, execute next s is = some (as, t) → Runs step s as t := by
  intro is
  induction is with
  | nil =>
    intro s t as h
    cases h
    exact .nil
  | cons i is ih =>
    intro s t as h
    simp only [execute, bind_eq_bind, bind_eq_some_iff, Prod.exists] at h
    obtain ⟨a, u, hi, as', v, his, heq⟩ := h
    cases heq
    exact .cons (hnext _ _ _ _ hi) (ih his)

/-- A run with a decidable property, found by running a schedule. -/
lemma Runs.exists_of_execute [∀ as s, Decidable (P as s)] (is : List ι)
    (h : (execute next s is).any (fun r => P r.1 r.2) = true) :
    ∃ as t, Runs step s as t ∧ P as t := by
  cases hexec : execute next s is with
  | none => simp [hexec] at h
  | some r =>
    rw [hexec, any_some, decide_eq_true_iff] at h
    exact ⟨r.1, r.2, .of_execute hnext hexec, h⟩

/-- The same for a run in two parts. -/
lemma Runs.exists_append_of_execute {P : σ → List α → σ → Prop} [∀ s as t, Decidable (P s as t)]
    (past future : List ι)
    (h : (execute next s past).any (fun r => (execute next r.2 future).any fun r' => P r.2 r'.1 r'.2) = true) :
    ∃ as t bs u, Runs step s as t ∧ Runs step t bs u ∧ P t bs u := by
  cases hpast : execute next s past with
  | none => simp [hpast] at h
  | some r =>
    rw [hpast] at h
    obtain ⟨bs, u, hruns, hP⟩ := exists_of_execute hnext future h
    exact ⟨r.1, r.2, bs, u, .of_execute hnext hpast, hruns, hP⟩

end

end Droid
