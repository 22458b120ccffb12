import DroidPlatform.Linker.Lemmas.Linking
import DroidPlatform.Linker.Lemmas.Unloading

/-!
# Library reference counts

A library is wanted by the handles the program has open and by the `DT_NEEDED` entries of loaded
objects that point to it (`Process.wanted`).  In a process whose libraries need each other without
cycles, and whose `dlopen`s succeed, `refcount` is that number, a library goes exactly when the
number drops to 0, and `dlclose` returns (`refcount_exact`).

`refcount` is an `unsigned`, and opening a library that is loaded takes no memory, so nothing bounds
the number of handles.  The condition is `Countable`: before each call there are fewer than `2 ^ 32`
references to each library.  A library that has been opened `2 ^ 32 + 1` times is unloaded by
the first `dlclose` (`dlclose_early`).
-/

namespace Droid.Dlfcn

open Option Function Nat Linker Process

variable {P N : Type*} {f : Files P N} {rank : N → ℕ} {exe fuel : ℕ} {ext : ℕ → ℕ}
  {s t : Linker P N} {p q : Process P N} {a x : ℕ}

/-- The library `m` is needed by the library or executable `n`. -/
def Needs (f : Files P N) (argv0 : N) (needs : List P) (m n : N) : Prop :=
  (∃ path, f.bname path = n ∧ ∃ p ∈ f.needed path, f.bname p = m) ∨
  (n = argv0 ∧ ∃ p ∈ needs, f.bname p = m)

namespace Process

/-- Open handles, and `DT_NEEDED` entries of loaded objects. -/
def wanted (p : Process P N) (a : ℕ) : ℕ := p.handles a + p.linker.entries a

/-- References that are not entries: the executable holds one to itself. -/
def held (p : Process P N) (a : ℕ) : ℕ := p.handles a + if p.linker.somain = some a then 1 else 0

/-- No count has wrapped: there are fewer than `2 ^ 32` references to each library. -/
def Countable (p : Process P N) : Prop :=
  ∀ a ∈ p.linker.solist, p.held a + p.linker.entries a < 2 ^ 32

instance (p : Process P N) : Decidable p.Countable :=
  inferInstanceAs (Decidable (∀ a ∈ p.linker.solist, _))

lemma held_eq_handles (h : p.linker.somain ≠ some a) : p.held a = p.handles a := by
  rw [held, if_neg h, add_zero]

end Process

/-! ## The calls -/

/-- What the process looks like between calls. -/
def Settled (rank : N → ℕ) (p : Process P N) : Prop :=
  ∃ exe, p.linker.somain = some exe ∧ Steady rank exe p.linker p.held

/-- A successful `dlopen`. -/
lemma Steady.grow (h : Steady rank exe s ext)
    (hgrown : Grown rank ext (fun _ => False) (· = x) s t) (hx : x ∈ t.solist) :
    Steady rank exe (t.incref x) (update ext x (ext x + 1)) where
  toWf := hgrown.wf.incref hx
  exeMem := hgrown.mem h.exeMem
  exeHeld := by
    by_cases hex : exe = x
    · simp [hex]
    · rw [update_of_ne hex]
      exact h.exeHeld
  pinned := by
    have hpinned := h.pinned
    rw [Soinfo.mem_targets] at hpinned ⊢
    rw [incref_dynamic, hgrown.keep exe h.exeMem not_false]
    exact hpinned
  full := by
    intro b hb hdl
    rw [incref_dynamic]
    exact hgrown.full b hb fun hbs => h.full b hbs hdl
  wanted := by
    intro b hb
    by_cases hbx : b = x
    · subst hbx
      simp
    · rw [update_of_ne hbx, incref, entries_setRefcount]
      by_cases hbs : b ∈ s.solist
      · have hwanted := h.wanted b hbs
        have hmono := hgrown.mono b
        omega
      · exact Nat.add_pos_right _ ((hgrown.wanted b hb hbs).resolve_left hbx)

section Calls

variable [DecidableEq N]

section

variable (hrank : ∀ path, ∀ p ∈ f.needed path, rank (f.bname p) < rank (f.bname path))

include hrank

lemma dlopen_grown {filename : Option P} (hmain : s.somain = some exe) (h : Steady rank exe s ext)
    (hopen : dlopen f fuel s filename = some (t, some x)) :
    ∃ u, Grown rank ext (fun _ => False) (· = x) s u ∧ x ∈ u.solist ∧ t = u.incref x := by
  cases filename with
  | none =>
    simp only [dlopen, hmain] at hopen
    obtain ⟨rfl, rfl⟩ := hopen
    exact ⟨s, .refl h.toWf, h.exeMem, rfl⟩
  | some path =>
    simp only [dlopen] at hopen
    split at hopen
    case h_1 => cases hopen
    case h_2 => simp at hopen
    case h_3 u y hfound =>
    obtain ⟨rfl, rfl⟩ := hopen
    obtain ⟨hgrown, hmem, -, -⟩ := find_library_finds hrank fuel h.toWf hfound
    exact ⟨u, hgrown, hmem, rfl⟩

/-- The start of a process. -/
lemma linker_init_settled {argv0 : N} {needs : List P}
    (hexe : ∀ p ∈ needs, rank (f.bname p) < rank argv0)
    (hdl : ∃ path ∈ needs, f.bname path = f.libdl)
    (hinit : linker_init f fuel argv0 needs = some s) : Settled rank ⟨s, fun _ => 0⟩ := by
  have hstart : Wf rank (linker_start f) fun _ => 0 := by
    refine ⟨by simp [linker_start], by simp [linker_start, libdl_info], by simp [linker_start],
      by simp [linker_start], by simp [linker_start], ?_, ?_, fun _ _ => rfl⟩
    · intro b _ x hx
      cases hx
    · intro b _
      rfl
  unfold linker_init at hinit
  split at hinit
  case h_1 => cases hinit
  case h_2 s1 a halloc =>
  have hnew := allocated_of_alloc_info hstart halloc
  have hadl : a ≠ libdl_info := by simpa [linker_start] using hnew.notMem
  set g : Soinfo P N → Soinfo P N :=
    fun x => { x with refcount := 1, dynamic := some (needs.map .name) } with hg
  have hnotinfo : ∀ x, Payload.info x ∉ needs.map Payload.name := by simp
  have hwf := hstart.enter (n := 1) (g := g) hnew
    (List.eq_nil_iff_forall_not_mem.mpr fun x hx => hnotinfo x (Soinfo.mem_targets.mp hx)) rfl
  have hself : ((s1.mmap a).setInfo a g).info a =
      ⟨argv0, false, false, 1, some (needs.map .name)⟩ := by
    simp [mmap, hnew.info, hg]
  have hinfodl : (((s1.mmap a).setInfo a g).info libdl_info).name = f.libdl := by
    rw [setInfo_info_of_ne (symm hadl)]
    simp [mmap, hnew.info, update_of_ne (symm hadl), linker_start]
  have hlist : ((s1.mmap a).setInfo a g).solist = [libdl_info, a] := hnew.solist
  simp only at hinit
  generalize (s1.mmap a).setInfo a g = exe at hwf hself hinfodl hlist hinit
  have hbelow : NamesBelow f rank (exe.info a) := by
    intro p hp
    rw [hself] at hp ⊢
    exact hexe p (by simpa using hp)
  split at hinit
  case h_2 => cases hinit
  case h_1 t hlink =>
  cases hinit
  obtain ⟨hgrown, hpoint⟩ := link_image_grown (find_library_finds hrank fuel) hwf
    (by simp [hlist]) hbelow hlink
  have hpinned : libdl_info ∈ (t.info a).targets := by
    obtain ⟨path, hpath, hname⟩ := hdl
    refine hpoint path libdl_info [a] ?_ hlist (hinfodl.trans hname.symm)
    rw [hself]
    simpa using hpath
  have hmem : a ∈ t.solist := hgrown.mem (by simp [hlist])
  have hheld : (⟨{ t with somain := some a }, fun _ => 0⟩ : Process P N).held =
      update (fun _ => 0) a 1 := by
    funext b
    by_cases hba : b = a
    · simp [held, hba]
    · simp [held, hba, Ne.symm hba]
  refine ⟨a, rfl, ?_⟩
  rw [hheld]
  refine ⟨hgrown.wf.congr rfl rfl rfl rfl (fun _ => rfl) (fun _ => rfl) fun _ => rfl, hmem, ?_,
    hpinned, ?_, ?_⟩
  · simp
  · intro b hb hbdl
    refine hgrown.full b hb fun hbe => ?_
    have hba : b = a := by simpa [hlist, hbdl] using hbe
    rw [hba, hself]
    rfl
  · intro b hb
    by_cases hba : b = a
    · simp [hba]
    · refine Nat.add_pos_right _ ?_
      by_cases hbdl : b = libdl_info
      · rw [hbdl]
        exact entries_pos hmem hpinned
      · exact (hgrown.wanted b hb (by simp [hlist, hba, hbdl])).resolve_left not_false

end

omit [DecidableEq N] in
/-- A `dlclose` of an open handle, while no count has wrapped. -/
lemma dlclose_spec (fuel : ℕ) (h : Steady rank exe p.linker p.held)
    (hmain : p.linker.somain = some exe) (hcount : p.Countable) (hopen : 0 < p.handles a) :
    (dlclose fuel p.linker a = none ∧ fuel ≤ rank (p.linker.info a).name) ∨
    ∃ t, dlclose fuel p.linker a = some t ∧
      Live rank exe t (held ⟨t, update p.handles a (p.handles a - 1)⟩) ∧
      Shrunk rank (fun _ => False) (rank (p.linker.info a).name) p.linker t := by
  have hmem : a ∈ p.linker.solist := by
    by_contra hnot
    have hheld := h.outside a hnot
    rw [held] at hheld
    omega
  have hpos : 0 < p.held a := Nat.add_pos_left hopen _
  have hexe : a = exe → 1 < p.held a := by
    rintro rfl
    rw [held, if_pos hmain]
    omega
  refine (unload_library_unloads fuel ⟨h, hcount⟩ hmem hpos hexe).imp_right ?_
  rintro ⟨t, hsome, hlive, hshrunk⟩
  refine ⟨t, hsome, ?_, hshrunk⟩
  convert hlive using 1
  funext b
  by_cases hba : b = a
  · subst hba
    simp only [held, hshrunk.somain, update_self]
    omega
  · simp only [held, hshrunk.somain, update_of_ne hba]

/-- What a step leads to. -/
lemma Step.settled (hrank : ∀ path, ∀ p ∈ f.needed path, rank (f.bname p) < rank (f.bname path))
    {c : Call P} (h : Settled rank p) (hcount : p.Countable) (hstep : Step f p c q) :
    Settled rank q ∧ q.linker.somain = p.linker.somain ∧
      (∀ b ∈ p.linker.solist, b ∈ q.linker.solist →
        (q.linker.info b).dynamic = (p.linker.info b).dynamic) := by
  obtain ⟨exe, hmain, hsteady⟩ := h
  cases hstep with
  | @dlopen t filename ret fuel hopen =>
    obtain ⟨u, hgrown, hmem, rfl⟩ := dlopen_grown hrank hmain hsteady hopen
    refine ⟨⟨exe, hgrown.somain.trans hmain, ?_⟩, hgrown.somain, ?_⟩
    · convert hsteady.grow hgrown hmem using 1
      funext b
      by_cases hb : b = ret
      · subst hb
        simp only [held, incref_somain, hgrown.somain, update_self]
        omega
      · simp [held, hgrown.somain, update_of_ne hb]
    · intro b hb _
      rw [incref_dynamic, hgrown.keep b hb not_false]
  | @dlclose t handle fuel hopen hclose =>
    rcases dlclose_spec fuel hsteady hmain hcount hopen with
      ⟨hnone, -⟩ | ⟨t', hsome, hlive, hshrunk⟩
    · rw [hnone] at hclose
      cases hclose
    · rw [hsome, some.injEq] at hclose
      subst hclose
      refine ⟨⟨exe, hshrunk.somain.trans hmain, hlive.toSteady⟩, hshrunk.somain, ?_⟩
      intro b _ hb
      exact hshrunk.keep b hb not_false

end Calls

/-- Between calls a library is loaded, and mapped, if it is wanted; the executable stays. -/
lemma Settled.loaded_iff (h : Settled rank p) (hexe : p.linker.somain ≠ some a) :
    a ∈ p.linker.solist ↔ 0 < p.wanted a := by
  obtain ⟨exe, -, hsteady⟩ := h
  have heq := held_eq_handles hexe
  constructor
  · intro ha
    rw [wanted, ← heq]
    exact hsteady.wanted a ha
  · intro hpos
    by_contra hnot
    rw [wanted, ← heq, hsteady.outside a hnot, hsteady.entries_eq_zero hnot] at hpos
    exact absurd hpos (lt_irrefl 0)

/-- **Reference counts are exact.**  Take libraries that need each other without cycles, an
executable that needs `libdl`, and any run of successful `dlopen`s and of `dlclose`s of open
handles, each made while there are fewer than `2 ^ 32` references to each library.  Then the
`refcount` of every library but the executable is the number of open handles and of entries that
point to it.  In the next call a library is unmapped and removed from `solist` exactly if that
number drops to 0, and the objects that stay keep their entries.  Every `dlclose` returns. -/
theorem refcount_exact [DecidableEq N] [Finite N] {argv0 : N} {needs : List P}
    (hacyclic : ∀ n, ¬ Relation.TransGen (Needs f argv0 needs) n n)
    (hdl : ∃ path ∈ needs, f.bname path = f.libdl)
    (hinit : linker_init f fuel argv0 needs = some s) {calls : List (Call P)}
    (hrun : Runs (fun p c q => p.Countable ∧ Step f p c q) ⟨s, fun _ => 0⟩ calls p)
    (hcount : p.Countable) :
    (∀ a ∈ p.linker.solist, p.linker.somain ≠ some a →
      (p.linker.info a).refcount = p.wanted a ∧ 0 < p.wanted a) ∧
    (∀ c q, Step f p c q → ∀ a ∈ p.linker.solist, p.linker.somain ≠ some a →
      (a ∉ q.linker.solist ↔ q.wanted a = 0) ∧ (q.linker.mapped a = false ↔ q.wanted a = 0) ∧
      (a ∈ q.linker.solist → (q.linker.info a).dynamic = (p.linker.info a).dynamic)) ∧
    ∀ a, 0 < p.handles a → ∃ enough, ∀ fuel ≥ enough, (dlclose fuel p.linker a).isSome := by
  obtain ⟨rank, hneeds⟩ := exists_rank hacyclic
  have hrank : ∀ path, ∀ p ∈ f.needed path, rank (f.bname p) < rank (f.bname path) :=
    fun path p hp => hneeds _ _ (.inl ⟨path, rfl, p, hp, rfl⟩)
  have hexe : ∀ p ∈ needs, rank (f.bname p) < rank argv0 :=
    fun p hp => hneeds _ _ (.inr ⟨rfl, p, hp, rfl⟩)
  have hsettled : Settled rank p :=
    hrun.invariant (linker_init_settled hrank hexe hdl hinit)
      fun h hstep => (hstep.2.settled hrank h hstep.1).1
  refine ⟨?_, ?_, ?_⟩
  · intro a ha hne
    refine ⟨?_, (hsettled.loaded_iff hne).mp ha⟩
    obtain ⟨exe, -, hsteady⟩ := hsettled
    rw [hsteady.refcount a ha, toUInt32_eq_self (hcount a ha), held_eq_handles hne,
      wanted]
  · intro c q hstep a ha hne
    obtain ⟨hq, hmain, hkeep⟩ := hstep.settled hrank hsettled hcount
    rw [← hmain] at hne
    have hiff := hq.loaded_iff hne
    have hgone : a ∉ q.linker.solist ↔ q.wanted a = 0 := by rw [hiff, pos_iff_ne_zero, not_not]
    refine ⟨hgone, ?_, hkeep a ha⟩
    obtain ⟨exe, -, hsteady⟩ := hq
    rw [← Bool.not_eq_true, hsteady.mapped, hgone]
  · intro a ha
    obtain ⟨exe, hmain, hsteady⟩ := hsettled
    refine ⟨rank (p.linker.info a).name + 1, fun fuel hfuel => ?_⟩
    rcases dlclose_spec fuel hsteady hmain hcount ha with
      ⟨-, hle⟩ | ⟨t, hsome, -, -⟩
    · exact absurd hle (by omega)
    · rw [hsome]
      rfl

/-! ## Runs -/

section Execution

variable [DecidableEq N]

/-- Make a call, if it succeeds and no count has wrapped. -/
def Process.call (f : Files P N) (fuel : ℕ) (p : Process P N) (c : Call P) :
    Option (Call P × Process P N) :=
  if p.Countable then
    match c with
    | .dlopen filename =>
      match dlopen f fuel p.linker filename with
      | some (t, some ret) => some (c, ⟨t, Function.update p.handles ret (p.handles ret + 1)⟩)
      | _ => none
    | .dlclose handle =>
      if 0 < p.handles handle then
        (dlclose fuel p.linker handle).map fun t =>
          (c, ⟨t, Function.update p.handles handle (p.handles handle - 1)⟩)
      else none
  else none

lemma Step.of_call {c c' : Call P} (h : p.call f fuel c = some (c', q)) :
    p.Countable ∧ Step f p c' q := by
  unfold call at h
  split at h
  case isFalse => cases h
  case isTrue hcount =>
  refine ⟨hcount, ?_⟩
  cases c with
  | dlopen filename =>
    simp only at h
    split at h
    case h_2 => cases h
    case h_1 t ret hopen =>
    cases h
    exact .dlopen hopen
  | dlclose handle =>
    simp only at h
    split at h
    case isFalse => cases h
    case isTrue hopen =>
    rw [map_eq_some_iff] at h
    obtain ⟨t, hclose, heq⟩ := h
    cases heq
    exact .dlclose hopen hclose

end Execution

/-- `libdl`, `libc`, `libm` and a program: `libm` needs the two others, and `libc` twice. -/
def smallFiles : Files (Fin 4) (Fin 4) where
  bname := id
  needed := ![[], [0], [1, 0, 1], [0, 1]]
  loads := fun _ => true
  relocates := fun _ => true
  libdl := 0

lemma smallFiles_acyclic (n : Fin 4) : ¬ Relation.TransGen (Needs smallFiles 3 [0, 1]) n n := by
  have hlt : ∀ m n, Needs smallFiles 3 [0, 1] m n → m < n := by
    have hneeded : ∀ n, ∀ m ∈ smallFiles.needed n, m < n := by decide
    have hexe : ∀ m ∈ ([0, 1] : List (Fin 4)), m < 3 := by decide
    rintro m n (⟨path, rfl, p, hp, rfl⟩ | ⟨rfl, p, hp, rfl⟩)
    · exact hneeded path p hp
    · exact hexe p hp
  intro h
  have hself : Relation.TransGen (· < ·) n n := Relation.TransGen.mono hlt n n h
  rw [Relation.transGen_eq_self] at hself
  exact lt_irrefl n hself

/-- `libm` is opened, opened again, and closed once. -/
theorem refcount_exact_reopened : ∃ s calls p, linker_init smallFiles 5 3 [0, 1] = some s ∧
    Runs (fun p c q => p.Countable ∧ Step smallFiles p c q) ⟨s, fun _ => 0⟩ calls p ∧
    calls.length = 3 ∧ 3 ∈ p.linker.solist ∧ (p.linker.info 3).refcount = p.wanted 3 := by
  have hrun : (linker_init smallFiles 5 3 [0, 1]).any (fun s =>
      (execute (call smallFiles 5) ⟨s, fun _ => 0⟩
        [.dlopen (some 2), .dlopen (some 2), .dlclose 3]).any fun r =>
          decide (r.1.length = 3 ∧ r.2.Countable ∧ 3 ∈ r.2.linker.solist ∧
            r.2.linker.somain ≠ some 3)) = true := by decide +kernel
  rw [any_eq_true] at hrun
  obtain ⟨s, hinit, hexec⟩ := hrun
  have hcall : ∀ p c c' q, call smallFiles 5 p c = some (c', q) →
      p.Countable ∧ Step smallFiles p c' q := fun _ _ _ _ => Step.of_call
  obtain ⟨calls, p, hruns, hlen, hcount, hmem, hexe⟩ := Runs.exists_of_execute
    (P := fun as q => as.length = 3 ∧ q.Countable ∧ 3 ∈ q.linker.solist ∧
      q.linker.somain ≠ some 3)
    hcall _ hexec
  have hdl : ∃ path ∈ ([0, 1]), smallFiles.bname path = smallFiles.libdl :=
    ⟨0, by decide, rfl⟩
  have hexact := refcount_exact smallFiles_acyclic hdl hinit hruns hcount
  exact ⟨s, calls, p, hinit, hruns, hlen, hmem, (hexact.1 3 hmem hexe).1⟩

section Wrap

variable [DecidableEq N] {path : P}

/-- A library that `find_library` returns at once. -/
def Loaded (f : Files P N) (s : Linker P N) (path : P) (x : ℕ) : Prop :=
  s.solist.find? (fun si => (s.info si).name = f.bname path) = some x ∧
    (s.info x).error = false ∧ (s.info x).linked = true

lemma Loaded.dlopen (h : Loaded f s path x) :
    dlopen f 1 s (some path) = some (s.incref x, some x) := by
  simp [Dlfcn.dlopen, find_library, h.1, h.2.1, h.2.2]

lemma Loaded.setRefcount (h : Loaded f s path x) (n : ℕ) :
    Loaded f (s.setRefcount x n) path x := by
  refine ⟨?_, ?_, ?_⟩
  · simpa using h.1
  · simpa [Linker.setRefcount] using h.2.1
  · simpa [Linker.setRefcount] using h.2.2

omit [DecidableEq N] in
lemma Linker.setRefcount_self : s.setRefcount x (s.info x).refcount = s := by
  simp [setRefcount, setInfo]

/-- Opening a library that is loaded only counts. -/
lemma Loaded.reopen (h : Loaded f s path x) (href : (s.info x).refcount < 2 ^ 32)
    (handles : ℕ → ℕ) (n : ℕ) :
    Runs (Step f) ⟨s, handles⟩ (List.replicate n (.dlopen (some path)))
      ⟨s.setRefcount x (toUInt32 ((s.info x).refcount + n)),
        update handles x (handles x + n)⟩ := by
  induction n with
  | zero =>
    rw [add_zero, add_zero, toUInt32_eq_self href, setRefcount_self,
      update_eq_self]
    exact .nil
  | succ n ih =>
    set s' := s.setRefcount x (toUInt32 ((s.info x).refcount + n)) with hs'
    set handles' := update handles x (handles x + n) with hh'
    have hstep : Step f ⟨s', handles'⟩ (.dlopen (some path))
        ⟨s'.incref x, update handles' x (handles' x + 1)⟩ :=
      .dlopen (h.setRefcount _).dlopen
    have hcount : s'.incref x = s.setRefcount x (toUInt32 ((s.info x).refcount + (n + 1))) := by
      rw [incref, hs']
      simp only [Linker.setRefcount, setInfo, update_self,
        update_idem]
      rw [toUInt32, toUInt32, toUInt32, mod_add_mod, add_assoc]
    rw [List.replicate_succ', ← hcount, ← add_assoc]
    refine ih.snoc ?_
    simpa [hh'] using hstep
end Wrap

/-- **A library is unloaded while it is open.**  After `2 ^ 32 + 1` calls of `dlopen` the count of
`libm` is 1, and one `dlclose` removes it although `2 ^ 32` handles are still open. -/
theorem dlclose_early : ∃ s calls p q, linker_init smallFiles 5 3 [0, 1] = some s ∧
    Runs (Step smallFiles) ⟨s, fun _ => 0⟩ calls p ∧ Step smallFiles p (.dlclose 3) q ∧
    3 ∈ p.linker.solist ∧ (p.linker.info 3).refcount = 1 ∧ p.wanted 3 = 2 ^ 32 + 1 ∧
    3 ∉ q.linker.solist ∧ q.linker.mapped 3 = false ∧ q.wanted 3 = 2 ^ 32 := by
  have hfirst : (linker_init smallFiles 5 3 [0, 1]).any (fun s =>
      (dlopen smallFiles 5 s (some 2)).any fun r =>
        r.2 = some 3 ∧ 3 ∈ r.1.solist ∧ (r.1.info 3).refcount = 1 ∧ r.1.entries 3 = 0 ∧
        r.1.solist.find? (fun si => (r.1.info si).name = smallFiles.bname 2) = some 3 ∧
        (r.1.info 3).error = false ∧ (r.1.info 3).linked = true ∧
        (dlclose 5 r.1 3).any fun t =>
          3 ∉ t.solist ∧ t.mapped 3 = false ∧ t.entries 3 = 0) = true := by decide +kernel
  simp only [any_eq_true, decide_eq_true_eq, Prod.exists] at hfirst
  obtain ⟨s, hinit, t, ret, hopen, rfl, hmem, href, hentries, hfind, herror, hlinked,
    u, hclose, hgone, hmapped, hentries'⟩ := hfirst
  have hloaded : Loaded smallFiles t 2 3 := ⟨hfind, herror, hlinked⟩
  have hreopen := hloaded.reopen (by rw [href]; norm_num)
    (update (fun _ => 0) 3 1) (2 ^ 32)
  have hwrap : toUInt32 ((t.info 3).refcount + 2 ^ 32) = (t.info 3).refcount := by
    rw [href]
    decide
  rw [hwrap, setRefcount_self] at hreopen
  have hrun := (Runs.single (Step.dlopen (s := ⟨s, fun _ => 0⟩) hopen)).append hreopen
  refine ⟨s, _, _, _, hinit, hrun, .dlclose ?_ hclose, hmem, href, ?_, hgone, hmapped, ?_⟩
  · simp
  · simp [wanted, hentries]
  · simp [wanted, hentries']

end Droid.Dlfcn
