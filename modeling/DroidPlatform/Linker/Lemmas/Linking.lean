import DroidPlatform.Linker.Lemmas.Counts

/-!
# What linking adds

`Grown` compares the linker before and after a part of a link that succeeded: libraries are added at
the end of `solist`, loaded objects keep their entries, and every library that was added is wanted
by an entry.  Two exceptions are parameters: the entries of the objects `own` are being resolved, and
the libraries `ret` have been added for a caller that still has to count them.

`find_library` and the loop of `link_image` call each other.  The loop is treated for any `find` that
does what `find_library` does (`Finds`), and the recursion is closed by induction on the fuel.
-/

namespace Droid.Dlfcn

open List Linker Soinfo Payload

variable {P N : Type*} {f : Files P N} {rank : N → ℕ} {held : ℕ → ℕ} {s s' t u : Linker P N}
  {a x si : ℕ} {path : P} {own own' ret ret' : ℕ → Prop}
  {find : Linker P N → P → Option (Linker P N × Option ℕ)} {is : List ℕ} {i : ℕ}

structure Grown (rank : N → ℕ) (held : ℕ → ℕ) (own ret : ℕ → Prop) (s s' : Linker P N) :
    Prop where
  wf : Wf rank s' held
  starts : s.solist <+: s'.solist
  name : ∀ a ∈ s.solist, (s'.info a).name = (s.info a).name
  keep : ∀ a ∈ s.solist, ¬ own a → (s'.info a).dynamic = (s.info a).dynamic
  full : ∀ a ∈ s'.solist, (a ∈ s.solist → (s.info a).dynamic.isSome) →
    (s'.info a).dynamic.isSome
  wanted : ∀ a ∈ s'.solist, a ∉ s.solist → ret a ∨ 0 < s'.entries a
  mono : ∀ x, s.entries x ≤ s'.entries x
  somain : s'.somain = s.somain

namespace Grown

lemma refl (h : Wf rank s held) : Grown rank held own ret s s where
  wf := h
  starts := prefix_rfl
  name _ _ := rfl
  keep _ _ _ := rfl
  full _ ha hsome := hsome ha
  wanted _ ha hnot := absurd ha hnot
  mono _ := le_rfl
  somain := rfl

lemma mem (h : Grown rank held own ret s s') (ha : a ∈ s.solist) : a ∈ s'.solist :=
  h.starts.subset ha

/-- Two parts of a link, one after the other. -/
lemma trans (h : Grown rank held own ret s t) (h' : Grown rank held own' ret' t u)
    {own'' ret'' : ℕ → Prop} (hown : ∀ a ∈ s.solist, own a ∨ own' a → own'' a)
    (hret : ∀ a ∉ s.solist, ret a ∨ ret' a → ret'' a) : Grown rank held own'' ret'' s u where
  wf := h'.wf
  starts := h.starts.trans h'.starts
  name a ha := (h'.name a (h.mem ha)).trans (h.name a ha)
  keep a ha hnot := (h'.keep a (h.mem ha) fun ho => hnot (hown a ha (.inr ho))).trans
    (h.keep a ha fun ho => hnot (hown a ha (.inl ho)))
  full a ha hsome := h'.full a ha fun hat => h.full a hat hsome
  wanted a ha hnot := by
    by_cases hat : a ∈ t.solist
    · refine (h.wanted a hat hnot).imp (fun hr => hret a hnot (.inl hr)) fun hpos => ?_
      exact hpos.trans_le (h'.mono a)
    · exact (h'.wanted a ha hat).imp_left fun hr => hret a hnot (.inr hr)
  mono x := (h.mono x).trans (h'.mono x)
  somain := h'.somain.trans h.somain

/-- Edits of what the invariant does not speak of. -/
lemma edit (h : Grown rank held own ret s t) {g : Soinfo P N → Soinfo P N}
    (hname : ∀ y, (g y).name = y.name) (hdynamic : ∀ y, (g y).dynamic = y.dynamic)
    (href : ∀ y, (g y).refcount = y.refcount) : Grown rank held own ret s (t.setInfo si g) := by
  have htargets : ∀ b, ((t.setInfo si g).info b).targets = (t.info b).targets :=
    setInfo_proj targets fun y => by rw [targets, hdynamic, targets]
  have hentries : ∀ x, (t.setInfo si g).entries x = t.entries x :=
    fun x => entries_congr rfl fun b _ => htargets b
  refine ⟨?_, h.starts, ?_, ?_, ?_, ?_, ?_, h.somain⟩
  · exact h.wf.congr rfl rfl rfl rfl (setInfo_proj Soinfo.name hname) htargets
      (setInfo_proj refcount href)
  · intro a ha
    rw [setInfo_proj Soinfo.name hname, h.name a ha]
  · intro a ha hnot
    rw [setInfo_proj dynamic hdynamic, h.keep a ha hnot]
  · intro a ha hsome
    rw [setInfo_proj dynamic hdynamic]
    exact h.full a ha hsome
  · intro a ha hnot
    rw [hentries]
    exact h.wanted a ha hnot
  · intro x
    rw [hentries]
    exact h.mono x

end Grown

/-! ## Resolving the entries of an object -/

/-- What a successful `find_library` does: it returns the first library of that name, or a new one. -/
def Finds (f : Files P N) (rank : N → ℕ) (held : ℕ → ℕ)
    (find : Linker P N → P → Option (Linker P N × Option ℕ)) : Prop :=
  ∀ {s path s' x}, Wf rank s held → find s path = some (s', some x) →
    Grown rank held (fun _ => False) (· = x) s s' ∧ x ∈ s'.solist ∧
      (s'.info x).name = f.bname path ∧
      ∀ a rest, s.solist = a :: rest → (s.info a).name = f.bname path → x = a

/-- The names in the entries of an object are of smaller rank. -/
def NamesBelow (f : Files P N) (rank : N → ℕ) (si : Soinfo P N) : Prop :=
  ∀ path, Payload.name path ∈ si.dynamic.getD [] → rank (f.bname path) < rank si.name

/-- **One entry.**  The library is found, stored in the entry and counted. -/
lemma Grown.resolve (h : Grown rank held (fun _ => False) (· = x) s t) (hsi : si ∈ s.solist)
    (hx : x ∈ t.solist) (hname : (t.info x).name = f.bname path)
    (hpayload : s.payload si i = some (.name path)) (hbelow : NamesBelow f rank (s.info si)) :
    Grown rank held (· = si) (fun _ => False) s
      ((t.setPayload si i (.info x)).incref x) := by
  have hdynamic := h.keep si hsi not_false
  have hpayload' : t.payload si i = some (.name path) := by
    rw [payload, hdynamic]
    exact hpayload
  have hrank : rank (t.info x).name < rank (t.info si).name := by
    rw [hname, h.name si hsi]
    exact hbelow path (mem_of_getElem? hpayload)
  rw [incref_setPayload]
  -- counted first, then stored: in between the reference is held
  have hcounted := h.wf.incref hx
  have hpayload'' : (t.incref x).payload si i = some (.name path) := by
    rw [incref, payload_setRefcount, hpayload']
  have hwf : Wf rank ((t.incref x).setPayload si i (.info x)) held := by
    refine hcounted.setPayload (h.mem hsi) hpayload'' ?_ ?_
    · intro y hy
      rw [info?_eq_some, info.injEq] at hy
      subst hy
      simpa using ⟨hx, hrank⟩
    · intro b
      by_cases hb : b = x
      · subst hb
        simp
      · simp [Function.update_of_ne hb, Ne.symm hb]
  have hentries : ∀ y, ((t.incref x).setPayload si i (.info x)).entries y =
      t.entries y + if x = y then 1 else 0 := by
    intro y
    have hset := entries_setPayload (x := y) (d := .info x) hcounted.nodup (h.mem hsi)
      hpayload''
    simp only [info?, Option.some.injEq, reduceCtorEq, if_false, add_zero] at hset
    rw [hset, incref, entries_setRefcount]
  refine ⟨hwf, h.starts, ?_, ?_, ?_, ?_, ?_, h.somain⟩
  · intro a ha
    rw [setPayload_name, incref_name, h.name a ha]
  · intro a ha hnot
    rw [setPayload_info_of_ne hnot, incref_dynamic, h.keep a ha not_false]
  · intro a ha hsome
    have hfull := h.full a ha hsome
    by_cases hasi : a = si
    · subst hasi
      rw [setPayload_dynamic, incref_dynamic, Option.isSome_map]
      exact hfull
    · rw [setPayload_info_of_ne hasi, incref_dynamic]
      exact hfull
  · intro a ha hnot
    refine .inr ?_
    rw [hentries]
    rcases h.wanted a ha hnot with heq | hpos
    · simp [heq]
    · omega
  · intro y
    rw [hentries]
    exact (h.mono y).trans (Nat.le_add_right _ _)

lemma link_needed_cons (h : link_needed find si (i :: is) s = some (s', true)) :
    ∃ path t x, s.payload si i = some (.name path) ∧ find s path = some (t, some x) ∧
      link_needed find si is ((t.setPayload si i (.info x)).incref x) = some (s', true) := by
  rw [link_needed] at h
  split at h
  case h_2 => cases h
  case h_1 path hpayload =>
  split at h
  case h_1 => cases h
  case h_2 => simp at h
  case h_3 t x hfound => exact ⟨path, t, x, hpayload, hfound, h⟩

/-- **The loop of `link_image`.**  It touches the entries `is` only, and an entry that names the first
library of `solist` leads to it. -/
lemma link_needed_grown (hfind : Finds f rank held find) (hnodup : is.Nodup) (hwf : Wf rank s held)
    (hsi : si ∈ s.solist) (hbelow : NamesBelow f rank (s.info si))
    (hlink : link_needed find si is s = some (s', true)) :
    Grown rank held (· = si) (fun _ => False) s s' ∧
      (∀ j ∉ is, s'.payload si j = s.payload si j) ∧
      ∀ i ∈ is, ∀ path a rest, s.payload si i = some (.name path) → s.solist = a :: rest →
        (s.info a).name = f.bname path → s'.payload si i = some (.info a) := by
  induction is generalizing s with
  | nil =>
    cases hlink
    exact ⟨.refl hwf, fun _ _ => rfl, by simp⟩
  | cons i is ih =>
    rw [nodup_cons] at hnodup
    obtain ⟨path, t, x, hpayload, hfound, hlink⟩ := link_needed_cons hlink
    obtain ⟨hgrown, hx, hname, hfirst⟩ := hfind hwf hfound
    have hstep := hgrown.resolve hsi hx hname hpayload hbelow
    generalize hu : (t.setPayload si i (.info x)).incref x = u at hstep hlink
    have hpay : ∀ j, u.payload si j =
        if i = j then (s.payload si j).map fun _ => .info x else s.payload si j := by
      intro j
      rw [← hu, incref, payload_setRefcount, payload_setPayload]
      have hsame : t.payload si j = s.payload si j := by
        rw [payload, hgrown.keep si hsi not_false, payload]
      rw [hsame]
    have hbelow' : NamesBelow f rank (u.info si) := by
      intro p hp
      rw [hstep.name si hsi]
      obtain ⟨j, hj⟩ := mem_iff_getElem?.mp hp
      have hj' : u.payload si j = some (.name p) := hj
      rw [hpay] at hj'
      split at hj'
      · simp at hj'
      · exact hbelow p (mem_of_getElem? hj')
    obtain ⟨hrest, hkeep, hset⟩ := ih hnodup.2 hstep.wf (hstep.mem hsi) hbelow' hlink
    refine ⟨hstep.trans hrest (by simp) (by simp), ?_, ?_⟩
    · intro j hj
      rw [mem_cons, not_or] at hj
      rw [hkeep j hj.2, hpay, if_neg (Ne.symm hj.1)]
    · intro j hj p a rest hp hlist hnamea
      by_cases hji : j = i
      · subst hji
        rw [hpayload, Option.some.injEq, name.injEq] at hp
        subst hp
        rw [hkeep j hnodup.1, hpay, if_pos rfl, hpayload, hfirst a rest hlist hnamea]
        rfl
      · have hmem : j ∈ is := (mem_cons.mp hj).resolve_left hji
        obtain ⟨rest', hrest'⟩ := hstep.starts
        have hlist' : u.solist = a :: (rest ++ rest') := by rw [← hrest', hlist]; rfl
        refine hset j hmem p a _ ?_ hlist' ?_
        · rw [hpay, if_neg (Ne.symm hji), hp]
        · rw [hstep.name a (by simp [hlist]), hnamea]

lemma link_image_grown (hfind : Finds f rank held find) (hwf : Wf rank s held) (hsi : si ∈ s.solist)
    (hbelow : NamesBelow f rank (s.info si)) (hlink : link_image f find s si = some (s', true)) :
    Grown rank held (· = si) (fun _ => False) s s' ∧
      ∀ path a rest, Payload.name path ∈ (s.info si).dynamic.getD [] → s.solist = a :: rest →
        (s.info a).name = f.bname path → a ∈ (s'.info si).targets := by
  unfold link_image at hlink
  split at hlink
  case h_1 => simp at hlink
  case h_2 ds hds =>
  split at hlink
  case h_1 => cases hlink
  case h_2 => simp at hlink
  case h_3 t hneeded =>
  obtain ⟨hgrown, -, hset⟩ := link_needed_grown hfind nodup_range hwf hsi hbelow hneeded
  split at hlink
  case isFalse => simp at hlink
  case isTrue =>
  simp only [Option.some.injEq, Prod.mk.injEq, and_true] at hlink
  subst hlink
  refine ⟨hgrown.edit (fun _ => rfl) (fun _ => rfl) fun _ => rfl, ?_⟩
  intro path a rest hpath hlist hname
  obtain ⟨i, hi⟩ := mem_iff_getElem?.mp hpath
  have hlt : i < ds.length := by
    rw [hds] at hi
    exact (List.getElem?_eq_some_iff.mp hi).1
  have hinfo := hset i (mem_range.mpr hlt) path a rest hi hlist hname
  rw [mem_targets, setInfo_info_self]
  exact mem_of_getElem? hinfo

/-! ## Finding a library -/

section

variable (hrank : ∀ path, ∀ p ∈ f.needed path, rank (f.bname p) < rank (f.bname path))

include hrank

/-- A library that has just been mapped. -/
lemma load_library_grown (hwf : Wf rank s held) (hload : load_library f s path = some (t, a)) :
    Grown rank held (fun _ => False) (· = a) s t ∧ a ∉ s.solist ∧ a ∈ t.solist ∧
      (t.info a).name = f.bname path ∧ NamesBelow f rank (t.info a) := by
  unfold load_library at hload
  split at hload
  case isFalse => cases hload
  case isTrue =>
  rw [Option.map_eq_some_iff] at hload
  obtain ⟨⟨s1, a1⟩, halloc, heq⟩ := hload
  have hnew := allocated_of_alloc_info hwf halloc
  simp only [Prod.mk.injEq] at heq
  obtain ⟨rfl, rfl⟩ := heq
  have hnotname : ∀ x, Payload.info x ∉ (f.needed path).map Payload.name := by simp
  have hwf' := hwf.enter (n := 0) hnew
    (g := fun x => { x with dynamic := some ((f.needed path).map .name) })
    (eq_nil_iff_forall_not_mem.mpr fun x hx => hnotname x (mem_targets.mp hx)) rfl
  rw [← hwf.outside a1 hnew.notMem, Function.update_eq_self] at hwf'
  have hself : (((s1.mmap a1).setInfo a1 fun x =>
      { x with dynamic := some ((f.needed path).map .name) }).info a1) =
      ⟨f.bname path, false, false, 0, some ((f.needed path).map .name)⟩ := by
    simp [mmap, hnew.info]
  generalize ht : ((s1.mmap a1).setInfo a1 fun x =>
      { x with dynamic := some ((f.needed path).map .name) }) = t at hwf' hself
  have hlist : t.solist = s.solist ++ [a1] := by rw [← ht]; exact hnew.solist
  have hother : ∀ b ∈ s.solist, t.info b = s.info b := by
    intro b hb
    have hba : b ≠ a1 := fun heq => hnew.notMem (heq ▸ hb)
    rw [← ht, setInfo_info_of_ne hba]
    simp [mmap, hnew.info, Function.update_of_ne hba]
  have hmem : a1 ∈ t.solist := by simp [hlist]
  refine ⟨⟨hwf', ⟨[a1], hlist.symm⟩, ?_, ?_, ?_, ?_, ?_, ?_⟩, hnew.notMem, hmem, ?_, ?_⟩
  · intro b hb
    rw [hother b hb]
  · intro b hb _
    rw [hother b hb]
  · intro b hb hsome
    rw [hlist, mem_append, mem_singleton] at hb
    rcases hb with hb | rfl
    · rw [hother b hb]
      exact hsome hb
    · rw [hself]
      rfl
  · intro b hb hnot
    rw [hlist, mem_append, mem_singleton] at hb
    exact .inl (hb.resolve_left hnot)
  · intro x
    have hsame : inDegree s.solist (fun b => (t.info b).targets) x = s.entries x :=
      inDegree_congr fun b hb => by rw [hother b hb]
    rw [← hsame, entries, hlist, inDegree_concat]
    exact Nat.le_add_right _ _
  · rw [← ht]
    exact hnew.somain
  · rw [hself]
  · intro p hp
    rw [hself] at hp ⊢
    simp only [Option.getD_some, mem_map, name.injEq, exists_eq_right] at hp
    exact hrank path p hp

/-- **`find_library`** of an acyclic set of libraries. -/
theorem find_library_finds [DecidableEq N] (fuel : ℕ) :
    Finds f rank held (find_library f fuel) := by
  induction fuel with
  | zero =>
    intro s path s' x _ h
    cases h
  | succ fuel ih =>
    intro s path s' x hwf hfound
    rw [find_library] at hfound
    split at hfound
    case h_1 si hfind =>
      -- the library is there
      have hmem := mem_of_find?_eq_some hfind
      have hname : (s.info si).name = f.bname path := by simpa using find?_some hfind
      split at hfound
      · simp at hfound
      split at hfound
      · simp only [Option.some.injEq] at hfound
        obtain ⟨rfl, rfl⟩ := hfound
        refine ⟨.refl hwf, hmem, hname, ?_⟩
        intro a rest hlist hnamea
        rw [hlist, find?_cons_of_pos (by simpa using hnamea)] at hfind
        exact (Option.some.inj hfind).symm
      · simp at hfound
    case h_2 hfind =>
      split at hfound
      case h_1 => simp at hfound
      case h_2 t a hload =>
      obtain ⟨hgrown, hnot, hmem, hname, hbelow⟩ := load_library_grown hrank hwf hload
      split at hfound
      case h_1 => cases hfound
      case h_2 => simp at hfound
      case h_3 u hlink =>
      simp only [Option.some.injEq, Prod.mk.injEq] at hfound
      obtain ⟨rfl, rfl⟩ := hfound
      have hlinked := (link_image_grown ih hgrown.wf hmem hbelow hlink).1
      refine ⟨hgrown.trans hlinked ?_ (by simp), hlinked.mem hmem, ?_, ?_⟩
      · rintro b hb (hfalse | rfl)
        · exact hfalse
        · exact hnot hb
      · rw [hlinked.name a hmem, hname]
      · intro b rest hlist hnameb
        rw [find?_eq_none] at hfind
        exact absurd (by simpa using hnameb) (hfind b (by simp [hlist]))

end

end Droid.Dlfcn
