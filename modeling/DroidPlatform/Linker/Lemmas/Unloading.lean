import DroidPlatform.Linker.Lemmas.Counts

/-!
# What unloading removes

`Live` is the state between two calls of the interface, and at every moment of an unload: every
library is wanted, by an entry or because a reference to it is held, and no count has wrapped.
`unload_library` is called for a library one reference to which has just been given up; it takes that
reference off the count, so that one less is held afterwards.

The recursion descends in `rank`, which bounds the fuel it needs.  A library of greater rank than the
one unloaded is not touched (`Unloaded.above`): in particular the library whose entries are being
released stays as it is while the libraries it needs are unloaded.
-/

namespace Droid.Dlfcn

open List Option Function Linker

variable {P N : Type*} {rank : N → ℕ} {exe fuel : ℕ} {held : ℕ → ℕ} {s s' t u : Linker P N}
  {a b x i : ℕ} {old : Payload P}

/-- Nothing is loaded in vain; the executable is in use, and needs `libdl_info`. -/
structure Steady (rank : N → ℕ) (exe : ℕ) (s : Linker P N) (held : ℕ → ℕ) : Prop
    extends Wf rank s held where
  exeMem : exe ∈ s.solist
  exeHeld : 0 < held exe
  pinned : libdl_info ∈ (s.info exe).targets
  full : ∀ b ∈ s.solist, b ≠ libdl_info → (s.info b).dynamic.isSome
  wanted : ∀ b ∈ s.solist, 0 < held b + s.entries b

/-- Moreover, every count is exact. -/
structure Live (rank : N → ℕ) (exe : ℕ) (s : Linker P N) (held : ℕ → ℕ) : Prop
    extends Steady rank exe s held where
  small : ∀ b ∈ s.solist, held b + s.entries b < 2 ^ 32

namespace Live

section

variable (h : Live rank exe s held)

include h

lemma refcount_eq (hb : b ∈ s.solist) : (s.info b).refcount = held b + s.entries b := by
  rw [h.refcount b hb, toUInt32_eq_self (h.small b hb)]

/-- A reference is given up and there are others. -/
lemma decref (ha : a ∈ s.solist) (hheld : 0 < held a) (hexe : a = exe → 1 < held a)
    (hne : (s.info a).refcount ≠ 1) :
    Live rank exe (s.decref a) (update held a (held a - 1)) := by
  have hcount := h.refcount_eq ha
  have hsmall := h.small a ha
  have hwf : Wf rank (s.decref a) (update held a (held a - 1)) := by
    refine h.toWf.setRefcount ha ?_
    rw [toUInt32, toUInt32]
    omega
  have hnum : ∀ b, b ≠ a → update held a (held a - 1) b + (s.decref a).entries b =
      held b + s.entries b := by
    intro b hb
    rw [update_of_ne hb, Linker.decref, entries_setRefcount]
  have hself : update held a (held a - 1) a + (s.decref a).entries a =
      held a - 1 + s.entries a := by
    rw [update_self, Linker.decref, entries_setRefcount]
  refine ⟨⟨hwf, h.exeMem, ?_, ?_, ?_, ?_⟩, ?_⟩
  · by_cases hea : exe = a
    · rw [hea, update_self]
      exact Nat.sub_pos_of_lt (hexe hea.symm)
    · rw [update_of_ne hea]
      exact h.exeHeld
  · rw [Linker.decref, setRefcount_targets]
    exact h.pinned
  · intro b hb hdl
    rw [Linker.decref, setRefcount_dynamic]
    exact h.full b hb hdl
  · intro b hb
    by_cases hba : b = a
    · subst hba
      omega
    · rw [hnum b hba]
      exact h.wanted b hb
  · intro b hb
    by_cases hba : b = a
    · subst hba
      omega
    · rw [hnum b hba]
      exact h.small b hb

/-- An entry is cleared: what it pointed to is held instead. -/
lemma clear (ha : a ∈ s.solist) (hexe : a ≠ exe) (hold : s.payload a i = some old) :
    Live rank exe (s.setPayload a i .zero)
      (fun b => held b + if old.info? = some b then 1 else 0) := by
  have hwf : Wf rank (s.setPayload a i .zero)
      (fun b => held b + if old.info? = some b then 1 else 0) :=
    h.toWf.setPayload ha hold (by simp) (by simp)
  have hnum : ∀ b, held b + (if old.info? = some b then 1 else 0) +
      (s.setPayload a i .zero).entries b = held b + s.entries b := by
    intro b
    have hset := entries_setPayload (x := b) (d := .zero) h.nodup ha hold
    have hzero : (Payload.zero (P := P)).info? ≠ some b := by simp
    rw [if_neg hzero] at hset
    omega
  refine ⟨⟨hwf, h.exeMem, ?_, ?_, ?_, ?_⟩, ?_⟩
  · exact Nat.add_pos_left h.exeHeld _
  · rw [setPayload_info_of_ne (symm hexe)]
    exact h.pinned
  · intro b hb hdl
    by_cases hba : b = a
    · subst hba
      rw [setPayload_dynamic, isSome_map]
      exact h.full b hb hdl
    · rw [setPayload_info_of_ne hba]
      exact h.full b hb hdl
  · intro b hb
    rw [hnum]
    exact h.wanted b hb
  · intro b hb
    rw [hnum]
    exact h.small b hb

/-- **The last reference is given up.**  The library has no entries left and nothing else refers to
it, so that it can go. -/
lemma release (ha : a ∈ s.solist) (hexe : a ≠ exe) (hheld : held a = 1) (hentries : s.entries a = 0)
    (htargets : (s.info a).targets = []) :
    Live rank exe ((free_info (s.munmap a) a).setRefcount a 0) (update held a 0) := by
  have hfree : free_info (s.munmap a) a = { s.munmap a with
      solist := s.solist.erase a, freelist := a :: s.freelist } := if_pos ha
  rw [hfree]
  generalize hu : setRefcount { s.munmap a with
    solist := s.solist.erase a, freelist := a :: s.freelist } a 0 = u
  have hlist : u.solist = s.solist.erase a := by rw [← hu]; rfl
  have hmem : ∀ {b}, b ∈ u.solist ↔ b ≠ a ∧ b ∈ s.solist := by
    intro b
    rw [hlist, h.nodup.mem_erase_iff]
  have hinfo : ∀ b ∈ u.solist, u.info b = s.info b := by
    intro b hb
    rw [← hu, setRefcount_info_of_ne (hmem.mp hb).1]
    rfl
  have hnum : ∀ x, u.entries x = s.entries x := by
    intro x
    have herase : inDegree (s.solist.erase a) (fun b => (s.info b).targets) x +
        (s.info a).targets.count x = s.entries x := inDegree_erase ha
    rw [htargets, count_nil] at herase
    rw [← herase, ← hlist]
    exact inDegree_congr fun b hb => by rw [hinfo b hb]
  have hheld' : ∀ b ∈ u.solist, update held a 0 b = held b := fun b hb =>
    update_of_ne (hmem.mp hb).1 _ _
  have hexeMem : exe ∈ u.solist := hmem.mpr ⟨symm hexe, h.exeMem⟩
  refine ⟨⟨⟨?_, ?_, ?_, ?_, ?_, ?_, ?_, ?_⟩, hexeMem, ?_, ?_, ?_, ?_⟩, ?_⟩
  · rw [hlist]
    exact h.nodup.erase a
  · intro b hb
    rw [← hu]
    exact h.used b (hmem.mp hb).2
  · intro b hb
    rw [hmem, ← hu]
    rw [← hu] at hb
    rcases mem_cons.mp hb with rfl | hb
    · exact ⟨fun hne => hne.1 rfl, h.used b ha⟩
    · exact ⟨fun hne => (h.free b hb).1 hne.2, (h.free b hb).2⟩
  · rw [← hu]
    exact nodup_cons.mpr ⟨fun hb => (h.free a hb).1 ha, h.freeNodup⟩
  · intro b
    rw [hmem, ← hu]
    by_cases hba : b = a
    · subst hba
      simp [setRefcount, munmap]
    · simp [setRefcount, munmap, hba, h.mapped]
  · intro b hb x hx
    rw [hinfo b hb] at hx ⊢
    have hpoints := h.points b (hmem.mp hb).2 x hx
    have hxa : x ≠ a := by
      rintro rfl
      exact (entries_pos (hmem.mp hb).2 hx).ne' hentries
    have hxu : x ∈ u.solist := hmem.mpr ⟨hxa, hpoints.1⟩
    rw [hinfo x hxu]
    exact ⟨hxu, hpoints.2⟩
  · intro b hb
    rw [hinfo b hb, hnum, hheld' b hb]
    exact h.refcount b (hmem.mp hb).2
  · intro b hb
    by_cases hba : b = a
    · rw [hba, update_self]
    · rw [update_of_ne hba]
      exact h.outside b fun hbs => hb (hmem.mpr ⟨hba, hbs⟩)
  · rw [hheld' exe hexeMem]
    exact h.exeHeld
  · rw [hinfo exe hexeMem]
    exact h.pinned
  · intro b hb hdl
    rw [hinfo b hb]
    exact h.full b (hmem.mp hb).2 hdl
  · intro b hb
    rw [hheld' b hb, hnum]
    exact h.wanted b (hmem.mp hb).2
  · intro b hb
    rw [hheld' b hb, hnum]
    exact h.small b (hmem.mp hb).2

end

end Live

/-! ## The recursion -/

/-- What a part of an unload does to the libraries other than those in `own`: some of rank at most
`top` are gone, the others keep their entries, and those above `top` are as before. -/
structure Shrunk (rank : N → ℕ) (own : ℕ → Prop) (top : ℕ) (s s' : Linker P N) : Prop where
  sub : ∀ b ∈ s'.solist, b ∈ s.solist
  name : ∀ b, (s'.info b).name = (s.info b).name
  keep : ∀ b ∈ s'.solist, ¬ own b → (s'.info b).dynamic = (s.info b).dynamic
  above : ∀ b ∈ s.solist, ¬ own b → top < rank (s.info b).name →
    b ∈ s'.solist ∧ s'.info b = s.info b
  somain : s'.somain = s.somain

namespace Shrunk

variable {own own' : ℕ → Prop} {top top' : ℕ}

lemma refl : Shrunk rank own top s s where
  sub _ hb := hb
  name _ := rfl
  keep _ _ _ := rfl
  above _ hb _ _ := ⟨hb, rfl⟩
  somain := rfl

lemma trans (h : Shrunk rank own top s t) (h' : Shrunk rank own top t u) :
    Shrunk rank own top s u where
  sub b hb := h.sub b (h'.sub b hb)
  name b := (h'.name b).trans (h.name b)
  keep b hb hnot := (h'.keep b hb hnot).trans (h.keep b (h'.sub b hb) hnot)
  above b hb hnot htop := by
    have hfst := h.above b hb hnot htop
    have hsnd := h'.above b hfst.1 hnot (by rwa [hfst.2])
    exact ⟨hsnd.1, hsnd.2.trans hfst.2⟩
  somain := h'.somain.trans h.somain

lemma weaken (h : Shrunk rank own top s t) (hown : ∀ b, own b → own' b) (htop : top ≤ top') :
    Shrunk rank own' top' s t where
  sub := h.sub
  name := h.name
  keep b hb hnot := h.keep b hb fun ho => hnot (hown b ho)
  above b hb hnot hlt := h.above b hb (fun ho => hnot (hown b ho)) (htop.trans_lt hlt)
  somain := h.somain

lemma setPayload (rank : N → ℕ) (top : ℕ) (s : Linker P N) (a i : ℕ) (d : Payload P) :
    Shrunk rank (· = a) top s (s.setPayload a i d) where
  sub _ hb := hb
  name _ := setPayload_name
  keep _ _ hba := by rw [setPayload_info_of_ne hba]
  above _ hb hba _ := ⟨hb, setPayload_info_of_ne hba⟩
  somain := rfl

/-- A new count is a change of the library itself only. -/
lemma setRefcount (rank : N → ℕ) (s : Linker P N) (a n : ℕ) :
    Shrunk rank own (rank (s.info a).name) s (s.setRefcount a n) where
  sub _ hb := hb
  name _ := setRefcount_name
  keep _ _ _ := setRefcount_dynamic
  above b hb _ htop := by
    have hba : b ≠ a := by
      rintro rfl
      exact lt_irrefl _ htop
    exact ⟨hb, setRefcount_info_of_ne hba⟩
  somain := rfl

/-- The library whose entries were released goes. -/
lemma release (h : Shrunk rank (· = a) (rank (s.info a).name - 1) s t) (hnodup : t.solist.Nodup)
    (ha : a ∈ t.solist) :
    Shrunk rank own (rank (s.info a).name) s ((free_info (t.munmap a) a).setRefcount a 0) := by
  have hfree : free_info (t.munmap a) a = { t.munmap a with
      solist := t.solist.erase a, freelist := a :: t.freelist } := if_pos ha
  have hmem : ∀ {b}, b ∈ ((free_info (t.munmap a) a).setRefcount a 0).solist ↔
      b ≠ a ∧ b ∈ t.solist := by
    intro b
    rw [setRefcount_solist, hfree, hnodup.mem_erase_iff]
  refine ⟨?_, ?_, ?_, ?_, ?_⟩
  · intro b hb
    exact h.sub b (hmem.mp hb).2
  · intro b
    rw [setRefcount_name, hfree]
    exact h.name b
  · intro b hb _
    rw [setRefcount_dynamic, hfree]
    exact h.keep b (hmem.mp hb).2 (hmem.mp hb).1
  · intro b hb _ htop
    have hba : b ≠ a := by
      rintro rfl
      exact lt_irrefl _ htop
    have habove := h.above b hb hba ((Nat.sub_le _ _).trans_lt htop)
    refine ⟨hmem.mpr ⟨hba, habove.1⟩, ?_⟩
    rw [setRefcount_info_of_ne hba, hfree]
    exact habove.2
  · rw [hfree]
    exact h.somain

end Shrunk

/-- What `unload_library` does with enough fuel for the libraries of rank below `fuel`. -/
def Unloads (rank : N → ℕ) (exe fuel : ℕ) (unload : Linker P N → ℕ → Option (Linker P N)) :
    Prop :=
  ∀ {s a held}, Live rank exe s held → a ∈ s.solist → 0 < held a → (a = exe → 1 < held a) →
    (unload s a = none ∧ fuel ≤ rank (s.info a).name) ∨
    ∃ s', unload s a = some s' ∧ Live rank exe s' (Function.update held a (held a - 1)) ∧
      Shrunk rank (fun _ => False) (rank (s.info a).name) s s'

/-- **The loop over the entries of a library.**  Afterwards the entries `is` point nowhere, and the
references they were are off the counts. -/
lemma unload_needed_spec {unload : Linker P N → ℕ → Option (Linker P N)}
    (hunload : Unloads rank exe fuel unload) {is : List ℕ} (hnodup : is.Nodup)
    (h : Live rank exe s held) (ha : a ∈ s.solist) (hexe : a ≠ exe)
    (his : ∀ i ∈ is, (s.payload a i).isSome) :
    (unload_needed unload a is s = none ∧ fuel < rank (s.info a).name) ∨
    ∃ s', unload_needed unload a is s = some s' ∧ Live rank exe s' held ∧ a ∈ s'.solist ∧
      Shrunk rank (· = a) (rank (s.info a).name - 1) s s' ∧
      (s'.info a).refcount = (s.info a).refcount ∧
      (∀ j ∉ is, s'.payload a j = s.payload a j) ∧
      ∀ i ∈ is, ∀ x, s'.payload a i ≠ some (.info x) := by
  induction is generalizing s with
  | nil => exact .inr ⟨s, rfl, h, ha, .refl, rfl, by simp, by simp⟩
  | cons i is ih =>
    rw [nodup_cons] at hnodup
    obtain ⟨old, hold⟩ := isSome_iff_exists.mp (his i mem_cons_self)
    have hclear := h.clear ha hexe hold
    have hcleared := Shrunk.setPayload rank (rank (s.info a).name - 1) s a i .zero
    -- the rest of the loop, from a state in which the reference is off the counts
    have hrest : ∀ t, Live rank exe t held → a ∈ t.solist →
        t.info a = (s.setPayload a i .zero).info a →
        Shrunk rank (· = a) (rank (s.info a).name - 1) s t →
        (unload_needed unload a is t = none ∧ fuel < rank (s.info a).name) ∨
        ∃ s', unload_needed unload a is t = some s' ∧ Live rank exe s' held ∧
          a ∈ s'.solist ∧ Shrunk rank (· = a) (rank (s.info a).name - 1) s s' ∧
          (s'.info a).refcount = (s.info a).refcount ∧
          (∀ j ∉ i :: is, s'.payload a j = s.payload a j) ∧
          ∀ j ∈ i :: is, ∀ x, s'.payload a j ≠ some (.info x) := by
      intro t ht hat hinfo hshrunk
      have hpay : ∀ j, t.payload a j =
          if i = j then (s.payload a j).map fun _ => .zero else s.payload a j := by
        intro j
        rw [payload, hinfo, ← payload_setPayload, payload]
      have hsome : ∀ j ∈ is, (t.payload a j).isSome := by
        intro j hj
        rw [hpay]
        split
        · rw [isSome_map]
          exact his j (mem_cons_of_mem _ hj)
        · exact his j (mem_cons_of_mem _ hj)
      have hih := ih hnodup.2 ht hat hsome
      rw [hshrunk.name a] at hih
      refine hih.imp_right ?_
      rintro ⟨s', heq, hlive, hmem, hshrunk', hcount, hkeep, hcut⟩
      refine ⟨s', heq, hlive, hmem, hshrunk.trans hshrunk', ?_, ?_, ?_⟩
      · rw [hcount, hinfo, setPayload_refcount]
      · intro j hj
        rw [mem_cons, not_or] at hj
        rw [hkeep j hj.2, hpay, if_neg (Ne.symm hj.1)]
      · intro j hj x
        by_cases hji : j = i
        · subst hji
          rw [hkeep j hnodup.1, hpay]
          simp
        · exact hcut j ((mem_cons.mp hj).resolve_left hji) x
    rw [unload_needed]
    simp only [hold]
    cases old with
    | name path | zero =>
      refine hrest _ ?_ ha rfl hcleared
      simpa using hclear
    | info x =>
      have hpoints := h.points a ha x (Soinfo.mem_targets.mpr (mem_of_getElem? hold))
      have hrec := hunload hclear hpoints.1 (by simp) (by
        rintro rfl
        simpa using h.exeHeld)
      rw [setPayload_name] at hrec
      rcases hrec with ⟨hnone, hfuel⟩ | ⟨t, hsome, hlive, hshrunk⟩
      · refine .inl ⟨?_, hfuel.trans_lt hpoints.2⟩
        simp [hnone]
      · simp only [hsome]
        have habove := hshrunk.above a ha not_false (by simpa using hpoints.2)
        refine hrest t ?_ habove.1 habove.2 ?_
        · convert hlive using 1
          funext b
          by_cases hb : b = x
          · subst hb
            simp
          · simp [update_of_ne hb, Ne.symm hb]
        · refine hcleared.trans (hshrunk.weaken (by simp) ?_)
          exact Nat.le_sub_one_of_lt hpoints.2

/-- **`unload_library`.** -/
theorem unload_library_unloads (fuel : ℕ) :
    Unloads (P := P) rank exe fuel (unload_library fuel) := by
  induction fuel with
  | zero =>
    intro s a held _ _ _ _
    exact .inl ⟨rfl, Nat.zero_le _⟩
  | succ fuel ih =>
    intro s a held h ha hheld hexe
    rw [unload_library]
    by_cases hone : (s.info a).refcount = 1
    · -- the last reference: the library is neither the executable nor `libdl_info`
      have hcount := h.refcount_eq ha
      have hheld1 : held a = 1 := by omega
      have hentries : s.entries a = 0 := by omega
      have hae : a ≠ exe := fun heq => absurd (hexe heq) (by omega)
      have hdl : a ≠ libdl_info := by
        rintro rfl
        exact (entries_pos h.exeMem h.pinned).ne' hentries
      obtain ⟨ds, hds⟩ := isSome_iff_exists.mp (h.full a ha hdl)
      have hrange : ∀ i ∈ range ds.length, (s.payload a i).isSome := by
        intro i hi
        rw [payload, hds]
        simpa using hi
      rw [if_pos hone, hds]
      rcases unload_needed_spec ih nodup_range h ha hae hrange with
        ⟨hnone, hfuel⟩ | ⟨t, hsome, hlive, hat, hshrunk, hsame, hkeep, hcut⟩
      · refine .inl ⟨?_, hfuel⟩
        simp [hnone]
      · have hentries' : t.entries a = 0 := by
          have hnum := hlive.refcount_eq hat
          omega
        have htargets : (t.info a).targets = [] := by
          refine eq_nil_iff_forall_not_mem.mpr fun x hx => ?_
          obtain ⟨j, hj⟩ := mem_iff_getElem?.mp (Soinfo.mem_targets.mp hx)
          have hj' : t.payload a j = some (.info x) := hj
          by_cases hlt : j ∈ range ds.length
          · exact hcut j hlt x hj'
          · rw [hkeep j hlt, payload, hds] at hj'
            exact hlt (mem_range.mpr (List.getElem?_eq_some_iff.mp hj').1)
        refine .inr ⟨(free_info (t.munmap a) a).setRefcount a 0, by simp only [hsome], ?_, ?_⟩
        · rw [hheld1]
          exact hlive.release hat hae hheld1 hentries' htargets
        · exact hshrunk.release hlive.nodup hat
    · rw [if_neg hone]
      refine .inr ⟨_, rfl, h.decref ha hheld hexe hone, ?_⟩
      exact .setRefcount rank s a _

end Droid.Dlfcn
