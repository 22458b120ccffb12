import DroidPlatform.Bionic.Semaphore

/-!
# Semaphores conserve their value

Whatever the interleaving: the value of a semaphore, -1 taken as zero, is the initial value plus the
posts minus the waits that succeeded (`value_conserved`).  A call that has not returned yet counts once its
`__bionic_cmpxchg` succeeded.

The argument is about one step of one thread (`next_spec`).  A `__bionic_cmpxchg` that succeeds found
the word as it was when the thread loaded it, so the new value was computed from the current one,
whatever happened in between.
-/

namespace Droid.Semaphore

open Nat Prim Site Threads

/-! ## The word -/

/-- The word with this value and this shared bit. -/
def encode (v : ℤ) (b : ℕ) : ℕ := toWord (2 * v) + b

/-- The values that occur. -/
def InRange (v : ℤ) : Prop := -1 ≤ v ∧ v ≤ SEM_MAX_VALUE

lemma and_value_mask {x : ℕ} (h : x < 2 ^ 32) : x &&& SEMCOUNT_VALUE_MASK = 2 * (x / 2) := by
  have hdiv : (x &&& SEMCOUNT_VALUE_MASK) / 2 = x / 2 := by
    have hhalf : x / 2 &&& 2 ^ 31 - 1 = x / 2 := by
      rw [and_two_pow_sub_one_eq_mod]
      exact mod_eq_of_lt (by omega)
    rw [and_div_two]
    exact hhalf
  have hmod : (x &&& SEMCOUNT_VALUE_MASK) % 2 ≠ 1 := by
    rw [ne_eq, and_mod_two_eq_one, SEMCOUNT_VALUE_MASK]
    omega
  omega

lemma two_mul_or {x b : ℕ} (hb : b ≤ 1) : 2 * x ||| b = 2 * x + b :=
  (two_pow_add_eq_or_of_lt (i := 1) (by omega) x).symm

section

variable {v w : ℤ} {b : ℕ}

lemma encode_lt (v : ℤ) (hb : b ≤ 1) : encode v b < 2 ^ 32 := by
  rw [encode, toWord]
  omega

lemma encode_zero (v : ℤ) : encode v 0 = 2 * (encode v 0 / 2) := by
  rw [encode, toWord]
  omega

lemma encode_and_shared (v : ℤ) (hb : b ≤ 1) : encode v b &&& SEMCOUNT_SHARED_MASK = b := by
  rw [SEMCOUNT_SHARED_MASK, and_one_is_mod, encode, toWord]
  omega

lemma encode_and_value (v : ℤ) (hb : b ≤ 1) : encode v b &&& SEMCOUNT_VALUE_MASK = encode v 0 := by
  rw [and_value_mask (encode_lt v hb), encode, encode, toWord]
  omega

lemma encode_or (v : ℤ) (hb : b ≤ 1) : encode v 0 ||| b = encode v b := by
  rw [encode_zero, two_mul_or hb, ← encode_zero, encode, encode]
  omega

lemma to_value_encode (hv : InRange v) (hb : b ≤ 1) : SEMCOUNT_TO_VALUE (encode v b) = v := by
  obtain ⟨hlo, hhi⟩ := hv
  have hhi' : v ≤ 0x3fffffff := hhi
  have hword : toInt32 (encode v b) = 2 * v + b := by
    have hcast : ((encode v b)) = 2 * v % (2 ^ 32 : ℕ) + b := by
      rw [encode, toWord]
      omega
    rw [toInt32, hcast, Int.emod_add_bmod]
    exact toInt32_eq_self ⟨by omega, by omega⟩
  rw [SEMCOUNT_TO_VALUE, SEMCOUNT_VALUE_SHIFT, Int.shiftRight_eq_div_pow]
  omega

lemma encode_inj (hv : InRange v) (hw : InRange w) (hb : b ≤ 1) (h : encode v b = encode w b) :
    v = w := by
  rw [← to_value_encode hv hb, h, to_value_encode hw hb]

lemma from_value (v : ℤ) : SEMCOUNT_FROM_VALUE v = encode v 0 := by
  have hword : toWord (v <<< SEMCOUNT_VALUE_SHIFT) = encode v 0 := by
    rw [SEMCOUNT_VALUE_SHIFT, Int.shiftLeft_eq, encode, add_zero, mul_comm, pow_one]
  rw [SEMCOUNT_FROM_VALUE, hword, encode_and_value v (zero_le 1)]

lemma decrement_encode (v : ℤ) : SEMCOUNT_DECREMENT (encode v 0) = encode (v - 1) 0 := by
  have hword : toWord ((encode v 0) - (1 <<< SEMCOUNT_VALUE_SHIFT)) = encode (v - 1) 0 := by
    rw [SEMCOUNT_VALUE_SHIFT, encode, encode, toWord, toWord, toWord]
    omega
  rw [SEMCOUNT_DECREMENT, hword, encode_and_value _ (zero_le 1)]

lemma increment_encode (v : ℤ) : SEMCOUNT_INCREMENT (encode v 0) = encode (v + 1) 0 := by
  have hword : toUInt32 (encode v 0 + 1 <<< SEMCOUNT_VALUE_SHIFT) = encode (v + 1) 0 := by
    rw [SEMCOUNT_VALUE_SHIFT, toUInt32, encode, encode, toWord, toWord]
    omega
  rw [SEMCOUNT_INCREMENT, hword, encode_and_value _ (zero_le 1)]

end

lemma shared_le (pshared : ℤ) : (if pshared ≠ 0 then SEMCOUNT_SHARED_MASK else 0) ≤ 1 := by
  split_ifs <;> decide

lemma sem_init_of_le {v : ℕ} (hv : v ≤ SEM_MAX_VALUE) (pshared : ℤ) : sem_init pshared v =
    some (encode v (if pshared ≠ 0 then SEMCOUNT_SHARED_MASK else 0)) := by
  rw [sem_init, if_neg (not_lt.mpr hv), from_value]
  dsimp only
  split_ifs
  · rw [encode_or _ (by decide)]
  · rfl

/-! ## What is counted -/

/-- A post that was done: it is about to return 0, perhaps after it woke the waiters. -/
@[simp] def Pc.posted : Pc → Bool
  | futex_wake => true
  | done site none => site.isPost
  | _ => false

/-- A wait that is about to return 0. -/
@[simp] def Pc.taken : Pc → Bool
  | done site none => !site.isPost
  | _ => false

/-- A post returns 0. -/
@[simp] def Event.posted : Event → Bool
  | .return site none => site.isPost
  | _ => false

/-- A wait returns 0. -/
@[simp] def Event.taken : Event → Bool
  | .return site none => !site.isPost
  | _ => false

section

variable {ι : Type*} [Fintype ι]

/-- The increments done by posts: those that returned, and those about to. -/
def increments (es : List (ι × Event)) (c : Threads ι ℕ Pc) : ℕ :=
  es.countP (fun e => e.2.posted) + Threads.count Pc.posted c.loc

/-- The waits that succeeded, and those about to return 0. -/
def decrements (es : List (ι × Event)) (c : Threads ι ℕ Pc) : ℕ :=
  es.countP (fun e => e.2.taken) + Threads.count Pc.taken c.loc

end

/-! ## One step -/

/-- What a thread knows: the shared bit, and that the value it loaded is one to change. -/
@[simp] def Pc.Knows (b : ℕ) : Pc → Prop
  | load _ shared => shared = b
  | cmpxchg site shared old =>
    shared = b ∧ ∃ w, InRange w ∧ site.prim.stops w = false ∧ old = encode w 0
  | _ => True

/-- The value after a primitive. -/
def Prim.result : Prim → ℤ → ℤ
  | dec, v => v - 1
  | trydec, v => v - 1
  | inc, v => max v 0 + 1

lemma prim_new (prim : Prim) {v : ℤ} (hv : InRange v) (hstops : prim.stops v = false) :
    prim.new (encode v 0) = encode (prim.result v) 0 ∧ InRange (prim.result v) := by
  obtain ⟨hlo, hhi⟩ := hv
  cases prim with
  | dec =>
    simp only [stops, decide_eq_false_iff_not] at hstops
    exact ⟨decrement_encode v, by simp only [result]; omega, by simp only [result]; omega⟩
  | trydec =>
    simp only [stops, decide_eq_false_iff_not] at hstops
    exact ⟨decrement_encode v, by simp only [result]; omega, by simp only [result]; omega⟩
  | inc =>
    simp only [stops, decide_eq_false_iff_not] at hstops
    simp only [new, result, to_value_encode ⟨hlo, hhi⟩ (zero_le 1), increment_encode]
    rcases lt_or_ge v 0 with hneg | hnonneg
    · rw [if_pos hneg, max_eq_right hneg.le]
      exact ⟨rfl, by norm_num, by norm_num [SEM_MAX_VALUE]⟩
    · rw [if_neg (not_lt.mpr hnonneg), max_eq_left hnonneg]
      exact ⟨rfl, by omega, by omega⟩

/-- Nothing is counted for a primitive that changed nothing. -/
lemma returned_of_stops (site : Site) {v : ℤ} (hstops : site.prim.stops v = true) (b : ℕ) :
    (site.returned v).posted = false ∧ (site.returned v).taken = false ∧
      (site.returned v).Knows b := by
  cases site with
  | wait
  | timedLoop t =>
    simp only [prim, stops, decide_eq_true_eq] at hstops
    simp [returned, not_lt.mpr hstops.le]
  | timedFirst t =>
    simp only [prim, stops, decide_eq_true_eq] at hstops
    simp only [returned, not_lt.mpr hstops]
    cases t with
    | none => simp
    | some t => cases ht : t.invalid <;> simp [ht]
  | trywait =>
    simp only [prim, stops, decide_eq_true_eq] at hstops
    simp [returned, not_lt.mpr hstops]
  | post =>
    simp only [prim, stops, decide_eq_true_eq] at hstops
    rw [returned, hstops, if_neg (by simp)]
    simp

/-- A primitive that changed the value: the change is what is counted. -/
lemma returned_of_new (site : Site) {v : ℤ} (hstops : site.prim.stops v = false) (b : ℕ) :
    max (site.prim.result v) 0 + (site.returned v).taken.toNat =
      max v 0 + (site.returned v).posted.toNat ∧ (site.returned v).Knows b := by
  cases site with
  | wait
  | timedLoop t =>
    simp only [prim, result, returned]
    split_ifs with hpos
    · simp [isPost]
      omega
    · simp
      omega
  | timedFirst t
  | trywait =>
    simp only [prim, stops, decide_eq_false_iff_not, not_le] at hstops
    simp only [prim, result, returned, if_pos hstops]
    simp [isPost]
    omega
  | post =>
    simp only [prim, stops, decide_eq_false_iff_not] at hstops
    simp only [prim, result, returned]
    split_ifs with hneg
    · simp
      omega
    · simp [isPost]
      omega

/-- **One step of one thread.**  The change of the value is what is counted. -/
lemma next_spec {b count count' : ℕ} {v : ℤ} {l l' : Pc} {e : Event} (hb : b ≤ 1)
    (hv : InRange v) (hcount : count = encode v b) (hl : l.Knows b)
    (h : next l count e = some (l', count')) :
    ∃ v', InRange v' ∧ count' = encode v' b ∧ l'.Knows b ∧
      max v' 0 + (l'.taken.toNat + e.taken.toNat) + l.posted.toNat =
        max v 0 + (l'.posted.toNat + e.posted.toNat) + l.taken.toNat := by
  cases l with
  | idle =>
    cases e with
    | call c =>
      cases h
      refine ⟨v, hv, hcount, ?_, ?_⟩ <;>
        cases c <;> simp [Call.start]
    | _ => simp [next] at h
  | getShared site =>
    cases e with
    | step =>
      refine ⟨v, hv, ?_⟩
      cases site <;> cases h <;>
        simp [hcount]
    | _ => simp [next] at h
  | clock_gettime t =>
    cases e with
    | clock now =>
      cases h
      refine ⟨v, hv, hcount, ?_, ?_⟩ <;> split_ifs <;>
        simp
    | _ => simp [next] at h
  | enter site =>
    cases e with
    | step =>
      cases h
      refine ⟨v, hv, hcount, ?_, by simp⟩
      rw [Pc.Knows, hcount, encode_and_shared v hb]
    | _ => simp [next] at h
  | load site shared =>
    cases e with
    | step =>
      cases h
      refine ⟨v, hv, hcount, ?_⟩
      rw [hcount, encode_and_value v hb, to_value_encode hv (zero_le 1)]
      cases hstops : site.prim.stops v with
      | true =>
        obtain ⟨hposted, htaken, hknows⟩ := returned_of_stops site hstops b
        rw [if_pos rfl, hposted, htaken]
        exact ⟨hknows, by simp⟩
      | false =>
        exact ⟨⟨hl, v, hv, hstops, rfl⟩,
          by simp⟩
    | _ => simp [next] at h
  | cmpxchg site shared old =>
    cases e with
    | cmpxchg spurious =>
      obtain ⟨rfl, w, hw, hstops, rfl⟩ := hl
      rw [next, encode_or w hb, to_value_encode hw (zero_le 1)] at h
      split_ifs at h with hcas
      · -- the word is what it was when it was loaded
        obtain rfl : v = w := encode_inj hv hw hb (hcount.symm.trans hcas.1)
        obtain ⟨hnew, hrange⟩ := prim_new site.prim hv hstops
        obtain ⟨hbalance, hknows⟩ := returned_of_new site hstops shared
        rw [hnew, encode_or _ hb] at h
        cases h
        refine ⟨_, hrange, rfl, hknows, ?_⟩
        have hposted : (Pc.cmpxchg site shared (encode v 0)).posted = false := rfl
        have htaken : (Pc.cmpxchg site shared (encode v 0)).taken = false := rfl
        simpa using hbalance
      · cases h
        exact ⟨v, hv, hcount, rfl, by simp⟩
    | _ => simp [next] at h
  | futex_wait site =>
    cases e with
    | futex ret =>
      refine ⟨v, hv, ?_⟩
      cases site with
      | timedLoop t =>
        cases h
        refine ⟨hcount, ?_⟩
        split_ifs with hret
        · rcases hret with rfl | rfl <;>
            simp
        · simp
      | _ =>
        cases h
        simp [hcount]
    | _ => simp [next] at h
  | futex_wake =>
    cases e with
    | step =>
      cases h
      exact ⟨v, hv, hcount, trivial, by
        simp [isPost]⟩
    | _ => simp [next] at h
  | done site result =>
    cases e with
    | «return» site' result' =>
      rw [next] at h
      split_ifs at h with hsame
      obtain ⟨rfl, rfl⟩ := hsame
      cases h
      refine ⟨v, hv, hcount, trivial, ?_⟩
      cases result <;> simp
      omega
    | _ => simp [next] at h

/-! ## The result -/

section

variable {ι : Type*} [DecidableEq ι] [Fintype ι]

/-- What holds at every moment. -/
structure Conserved (v : ℕ) (pshared : ℤ) (es : List (ι × Event)) (c : Threads ι ℕ Pc) : Prop where
  balance : max (SEMCOUNT_TO_VALUE c.mem) 0 = v + increments es c - decrements es c
  range : -1 ≤ SEMCOUNT_TO_VALUE c.mem ∧ SEMCOUNT_TO_VALUE c.mem ≤ SEM_MAX_VALUE
  shared : c.mem &&& SEMCOUNT_SHARED_MASK = if pshared ≠ 0 then SEMCOUNT_SHARED_MASK else 0
  /-- A post that finds the largest value fails and changes nothing. -/
  overflow : ∀ i shared, c.loc i = .load .post shared → SEMCOUNT_TO_VALUE c.mem = SEM_MAX_VALUE →
    ∀ e c', Step c (i, e) c' → c'.mem = c.mem ∧ c'.loc i = .done .post (some .EOVERFLOW)

/-- The invariant. -/
structure Balanced (v : ℕ) (b : ℕ) (es : List (ι × Event)) (c : Threads ι ℕ Pc) : Prop where
  word : ∃ w, InRange w ∧ c.mem = encode w b ∧ max w 0 + decrements es c = v + increments es c
  knows : ∀ i, (c.loc i).Knows b

lemma Balanced.step {v b : ℕ} {es : List (ι × Event)} {c c' : Threads ι ℕ Pc} {e : ι × Event}
    (hb : b ≤ 1) (h : Balanced v b es c) (hstep : Step c e c') : Balanced v b (es ++ [e]) c' := by
  obtain ⟨i, e⟩ := e
  obtain ⟨⟨w, hw, hmem, hbalance⟩, hknows⟩ := h
  obtain ⟨l, m, hnext, rfl⟩ := hstep
  obtain ⟨w', hw', hm, hl, hcounted⟩ := next_spec hb hw hmem (hknows i) hnext
  refine ⟨⟨w', hw', hm, ?_⟩, fun j => ?_⟩
  · have hposted := count_update Pc.posted c.loc i l
    have htaken := count_update Pc.taken c.loc i l
    simp only [increments, decrements, List.countP_append, List.countP_singleton] at hbalance ⊢
    have hposted' : (if e.posted = true then 1 else 0) = e.posted.toNat := by cases e.posted <;> rfl
    have htaken' : (if e.taken = true then 1 else 0) = e.taken.toNat := by cases e.taken <;> rfl
    dsimp only at hcounted hposted htaken ⊢
    omega
  · by_cases hj : j = i
    · subst hj
      simpa using hl
    · simpa [Function.update_of_ne hj] using hknows j

lemma Balanced.conserved {v b : ℕ} {pshared : ℤ} {es : List (ι × Event)} {c : Threads ι ℕ Pc}
    (hb : b = if pshared ≠ 0 then SEMCOUNT_SHARED_MASK else 0) (h : Balanced v b es c) :
    Conserved v pshared es c := by
  have hb' : b ≤ 1 := hb ▸ shared_le pshared
  obtain ⟨⟨w, hw, hmem, hbalance⟩, -⟩ := h
  have hvalue : SEMCOUNT_TO_VALUE c.mem = w := by rw [hmem, to_value_encode hw hb']
  refine ⟨by rw [hvalue]; omega, by rw [hvalue]; exact hw, ?_, ?_⟩
  · rw [hmem, encode_and_shared w hb', hb]
  · rintro i shared hloc hmax e c' ⟨l, m, hnext, rfl⟩
    rw [hloc] at hnext
    cases e with
    | step =>
      have hold : SEMCOUNT_TO_VALUE (c.mem &&& SEMCOUNT_VALUE_MASK) = SEM_MAX_VALUE := by
        rw [hmem, encode_and_value w hb', to_value_encode hw (zero_le 1), ← hvalue, hmax]
      simp only [next, hold] at hnext
      obtain ⟨rfl, rfl⟩ := hnext
      refine ⟨rfl, ?_⟩
      simp [prim, stops, returned]
    | _ => simp [next] at hnext

/-- **Conservation.**  A semaphore with an initial value that is not too large can be initialised, and
then, in every interleaving, its value is conserved. -/
theorem value_conserved {v : ℕ} (hv : v ≤ SEM_MAX_VALUE) (pshared : ℤ) :
    ∃ count, sem_init pshared v = some count ∧
      ∀ es (c : Threads ι ℕ Pc), Runs Step (start ι count) es c → Conserved v pshared es c := by
  refine ⟨_, sem_init_of_le hv pshared, fun es c hrun => ?_⟩
  have hstart : Balanced v (if pshared ≠ 0 then SEMCOUNT_SHARED_MASK else 0) []
      (start ι (encode v (if pshared ≠ 0 then SEMCOUNT_SHARED_MASK else 0))) := by
    refine ⟨⟨v, ⟨by omega, by exact_mod_cast hv⟩, rfl, ?_⟩, fun _ => trivial⟩
    rw [increments, decrements, count_eq_zero Pc.posted fun _ => rfl,
      count_eq_zero Pc.taken fun _ => rfl]
    simp
  exact (hrun.history hstart fun h hstep => h.step (shared_le pshared) hstep).conserved rfl

end

/-- Two threads, a semaphore with the value 1: one takes it, the other waits, and then there is a
post. -/
def contended : List (Bool × Event) :=
  [(true, .call .sem_wait), (true, .step), (true, .step), (true, .step), (true, .cmpxchg false),
    (false, .call .sem_wait), (false, .step), (false, .step), (false, .step),
    (false, .cmpxchg false), (true, .return .wait none), (true, .call .sem_post), (true, .step),
    (true, .step), (true, .step), (true, .cmpxchg false)]

/-- The value went from 1 to 0, to -1 and then to 1; the post is not over, and its increment counts. -/
theorem value_conserved_contended :
    ∃ count es, ∃ c : Threads Bool ℕ Pc, sem_init 0 1 = some count ∧
      Runs Step (start Bool count) es c ∧ SEMCOUNT_TO_VALUE c.mem = 1 ∧ increments es c = 1 ∧
      decrements es c = 1 ∧ Conserved 1 0 es c := by
  obtain ⟨count, hinit, hall⟩ := value_conserved (ι := Bool) (v := 1) (by decide) 0
  obtain rfl : 2 = count := Option.some.inj (trans (by decide) hinit)
  obtain ⟨es, c, hrun, hvalue, hinc, hdec⟩ := Runs.exists_of_execute
    (P := fun es c => SEMCOUNT_TO_VALUE c.mem = 1 ∧ increments es c = 1 ∧
      decrements es c = 1) step_of_take contended
    (show ((execute (take fun _ => next) (start Bool 2) contended).any _) = true by
      decide +kernel)
  exact ⟨2, es, c, hinit, hrun, hvalue, hinc, hdec, hall es c hrun⟩

end Droid.Semaphore
