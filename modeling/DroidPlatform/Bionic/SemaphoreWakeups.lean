import DroidPlatform.Bionic.SemaphoreConservation

/-!
# Semaphores wake their waiters

A thread that waits for a semaphore sets the value to -1 and calls `__futex_wait_ex`, which puts it to
sleep if the value is -1 still.  Only `sem_post` changes that value, to 1, and whoever does so wakes
every sleeper afterwards.  So a thread that sleeps is not forgotten (`no_lost_wakeup`): the value is -1,
or a poster stands before its wake-all.
-/

namespace Droid.Semaphore

def SEMCOUNT_MINUS_ONE : ℕ := SEMCOUNT_FROM_VALUE (-1)

/-- The threads, and those of them that sleep in `__futex_wait_ex`. -/
structure Waiters (ι : Type*) where
  threads : Threads ι ℕ Pc
  asleep : Set ι

namespace Waiters

variable {ι : Type*} [DecidableEq ι]

inductive Step : Waiters ι → Waiters ι → Prop
  /-- The word is `shared|SEMCOUNT_MINUS_ONE`.  The shared bit does not change, so that it makes no
  difference when the thread has read it. -/
  | sleep {c : Threads ι ℕ Pc} {asleep : Set ι} {i : ι} {site : Site} :
      c.loc i = .futex_wait site →
      c.mem = c.mem &&& SEMCOUNT_SHARED_MASK ||| SEMCOUNT_MINUS_ONE →
      Step ⟨c, asleep⟩ ⟨c, insert i asleep⟩
  /-- A thread goes on.  One that sleeps may do so at any time, after a timeout or a signal. -/
  | step {c c' : Threads ι ℕ Pc} {asleep : Set ι} {i : ι} {e : Event} :
      c.loc i ≠ .futex_wake → Semaphore.Step c (i, e) c' → Step ⟨c, asleep⟩ ⟨c', asleep \ {i}⟩
  /-- `__futex_wake_ex`, with `INT_MAX` for the number of threads. -/
  | wake {c c' : Threads ι ℕ Pc} {asleep : Set ι} {i : ι} {e : Event} :
      c.loc i = .futex_wake → Semaphore.Step c (i, e) c' → Step ⟨c, asleep⟩ ⟨c', ∅⟩

/-- The invariant. -/
structure Cared (b : ℕ) (w : Waiters ι) : Prop where
  word : ∃ v, InRange v ∧ w.threads.mem = encode v b
  knows : ∀ i, (w.threads.loc i).Knows b
  cared : w.asleep.Nonempty → w.threads.mem = encode (-1) b ∨ ∃ i, w.threads.loc i = .futex_wake

end Waiters

variable {b count' : ℕ} {l l' : Pc} {e : Event}

/-- Who changes the value -1 has to wake the sleepers. -/
lemma next_of_minus_one (hb : b ≤ 1) (hl : l.Knows b)
    (h : next l (encode (-1) b) e = some (l', count')) :
    count' = encode (-1) b ∨ l' = .futex_wake := by
  cases l with
  | cmpxchg site shared old =>
    cases e with
    | cmpxchg spurious =>
      obtain ⟨rfl, v, hv, hstops, rfl⟩ := hl
      rw [next, encode_or v hb, to_value_encode hv (Nat.zero_le 1)] at h
      split_ifs at h with hcas
      · obtain rfl : -1 = v := encode_inj ⟨le_rfl, by decide⟩ hv hb hcas.1
        -- a wait leaves the value alone
        cases site with
        | post =>
          cases h
          exact .inr rfl
        | _ => simp [Site.prim, Prim.stops] at hstops
      · cases h
        exact .inl rfl
    | _ => simp [next] at h
  | getShared site | futex_wait site => cases e <;> cases site <;> simp_all [next]
  | _ => cases e <;> simp_all [next]

namespace Waiters

variable {ι : Type*} [DecidableEq ι] {w w' : Waiters ι}

lemma Cared.step (hb : b ≤ 1) (h : w.Cared b) (hstep : w.Step w') : w'.Cared b := by
  have hthreads : ∀ {c c' : Threads ι ℕ Pc} {i : ι} {e : Event},
      (∃ v, InRange v ∧ c.mem = encode v b) → (∀ i, (c.loc i).Knows b) →
      Semaphore.Step c (i, e) c' →
      (∃ v, InRange v ∧ c'.mem = encode v b) ∧ ∀ i, (c'.loc i).Knows b := by
    rintro c c' i e ⟨v, hv, hmem⟩ hknows ⟨l, m, hnext, rfl⟩
    obtain ⟨v', hv', hm, hl, -⟩ := next_spec hb hv hmem (hknows i) hnext
    refine ⟨⟨v', hv', hm⟩, fun j => ?_⟩
    by_cases hj : j = i
    · subst hj
      simpa using hl
    · simpa [hj] using hknows j
  cases hstep with
  | @sleep c asleep i site hloc hmem =>
    refine ⟨h.word, h.knows, fun _ => .inl ?_⟩
    obtain ⟨v, -, hv⟩ := h.word
    dsimp only at hv ⊢
    rwa [hv, encode_and_shared v hb, SEMCOUNT_MINUS_ONE, from_value, Nat.or_comm,
      encode_or _ hb, ← hv] at hmem
  | @step c c' asleep i e hloc hstep =>
    obtain ⟨hword, hknows⟩ := hthreads h.word h.knows hstep
    refine ⟨hword, hknows, fun hne => ?_⟩
    obtain ⟨l, m, hnext, rfl⟩ := hstep
    rcases h.cared (hne.mono Set.sdiff_subset) with hmem | ⟨j, hj⟩
    · dsimp only at hmem hnext
      rw [hmem] at hnext
      exact (next_of_minus_one hb (h.knows i) hnext).imp_right fun hl => ⟨i, by simpa using hl⟩
    · have hji : j ≠ i := by
        rintro rfl
        exact hloc hj
      exact .inr ⟨j, by simpa [hji] using hj⟩
  | wake hloc hstep =>
    obtain ⟨hword, hknows⟩ := hthreads h.word h.knows hstep
    exact ⟨hword, hknows, fun hne => absurd hne Set.not_nonempty_empty⟩

/-- **No wakeup is lost.**  There is no interleaving after which a thread sleeps, the value is not -1
and no poster that has replaced -1 by 1 is still to wake the sleepers. -/
theorem no_lost_wakeup : ¬ ∃ pshared v count, ∃ w : Waiters ι, sem_init pshared v = some count ∧
    Relation.ReflTransGen Step ⟨start ι count, ∅⟩ w ∧ w.asleep.Nonempty ∧
    SEMCOUNT_TO_VALUE w.threads.mem ≠ -1 ∧ ∀ i, w.threads.loc i ≠ .futex_wake := by
  rintro ⟨pshared, v, count, w, hinit, hrun, hne, hvalue, hwake⟩
  have hv : v ≤ SEM_MAX_VALUE := by
    by_contra hlarge
    simp [sem_init, hlarge] at hinit
  rw [sem_init_of_le hv pshared] at hinit
  cases hinit
  have hcared : w.Cared (if pshared ≠ 0 then SEMCOUNT_SHARED_MASK else 0) := by
    clear hne hvalue hwake
    induction hrun with
    | refl =>
      exact ⟨⟨v, ⟨by omega, by exact_mod_cast hv⟩, rfl⟩, fun _ => trivial,
        fun hne => absurd hne Set.not_nonempty_empty⟩
    | tail _ hstep ih => exact ih.step (shared_le pshared) hstep
  rcases hcared.cared hne with hmem | ⟨i, hi⟩
  · rw [hmem, to_value_encode ⟨le_rfl, by decide⟩ (shared_le pshared)] at hvalue
    exact hvalue rfl
  · exact hwake i hi

end Waiters

end Droid.Semaphore
