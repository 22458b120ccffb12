import DroidPlatform.Core.InDegree
import DroidPlatform.Linker.Dlfcn

/-!
# References between loaded libraries

`Linker.entries s x` is the number of `DT_NEEDED` entries of loaded objects that point to `x`.  `Wf`
is what holds of the linker at every moment of a link or an unload: `solist` and the pool of
`soinfo`s are in order, exactly the libraries in `solist` are mapped, their entries point to
libraries of smaller `rank` that are loaded, and every `refcount` is the number of entries plus the
references `held` elsewhere, as an `unsigned`.

`held` is what makes this an invariant of the single steps.  A reference that has left an entry but
has not been taken off the count yet, or is counted already but not yet stored, is held; so
`Wf.setRefcount` and `Wf.setPayload` can be applied one after the other.
-/

namespace Droid.Dlfcn

open List Option Function Soinfo Linker Payload

variable {P N : Type*} {s : Linker P N} {a b x i n : ℕ} {d : Payload P}
  {g : Soinfo P N → Soinfo P N}

/-! ## The fields of a changed linker -/

namespace Linker

@[simp] lemma setInfo_mapped : (s.setInfo a g).mapped = s.mapped := rfl
@[simp] lemma setInfo_info_self : (s.setInfo a g).info a = g (s.info a) := by simp [setInfo]

lemma setInfo_info_of_ne (h : b ≠ a) : (s.setInfo a g).info b = s.info b := by
  simp [setInfo, update_of_ne h]

lemma setInfo_info : (s.setInfo a g).info b = if b = a then g (s.info b) else s.info b := by
  by_cases h : b = a
  · subst h
    simp
  · rw [setInfo_info_of_ne h, if_neg h]

/-- An edit that keeps a part of an `soinfo` keeps it everywhere. -/
lemma setInfo_proj {β : Type*} (proj : Soinfo P N → β) (h : ∀ y, proj (g y) = proj y) (b : ℕ) :
    proj ((s.setInfo a g).info b) = proj (s.info b) := by
  rw [setInfo_info]
  split <;> simp [h]

@[simp] lemma setPayload_solist : (s.setPayload a i d).solist = s.solist := rfl
@[simp] lemma setRefcount_solist : (s.setRefcount a n).solist = s.solist := rfl
@[simp] lemma incref_somain : (s.incref a).somain = s.somain := rfl

@[simp] lemma setPayload_name : ((s.setPayload a i d).info b).name = (s.info b).name :=
  setInfo_proj Soinfo.name (by intro _; rfl) b

@[simp] lemma setRefcount_name : ((s.setRefcount a n).info b).name = (s.info b).name :=
  setInfo_proj Soinfo.name (by intro _; rfl) b

@[simp] lemma setRefcount_dynamic :
    ((s.setRefcount a n).info b).dynamic = (s.info b).dynamic :=
  setInfo_proj dynamic (by intro _; rfl) b

@[simp] lemma incref_name : ((s.incref a).info b).name = (s.info b).name := setRefcount_name

@[simp] lemma incref_dynamic : ((s.incref a).info b).dynamic = (s.info b).dynamic :=
  setRefcount_dynamic

@[simp] lemma setPayload_refcount :
    ((s.setPayload a i d).info b).refcount = (s.info b).refcount :=
  setInfo_proj refcount (by intro _; rfl) b

lemma setPayload_info_of_ne (h : b ≠ a) : (s.setPayload a i d).info b = s.info b :=
  setInfo_info_of_ne h

lemma setPayload_dynamic :
    ((s.setPayload a i d).info a).dynamic = (s.info a).dynamic.map fun ds => ds.set i d := by
  simp [setPayload]

lemma setRefcount_info_of_ne (h : b ≠ a) : (s.setRefcount a n).info b = s.info b :=
  setInfo_info_of_ne h

@[simp] lemma setRefcount_refcount : ((s.setRefcount a n).info a).refcount = n := by
  simp [setRefcount]

@[simp] lemma setRefcount_targets :
    ((s.setRefcount a n).info b).targets = (s.info b).targets := by
  simp [targets]

/-- The two edits of an entry that has been resolved can be made in either order. -/
lemma incref_setPayload :
    (s.setPayload a i d).incref x = (s.incref x).setPayload a i d := by
  have hinfo : ((s.setPayload a i d).incref x).info = ((s.incref x).setPayload a i d).info := by
    funext b
    simp only [incref, setRefcount, setPayload, setInfo_info]
    split <;> split <;> simp_all
  rw [mk.injEq]
  exact ⟨rfl, rfl, rfl, hinfo, rfl, rfl⟩

lemma payload_setRefcount {si : ℕ} :
    (s.setRefcount a n).payload si i = s.payload si i := by simp [payload]

lemma payload_setPayload {j : ℕ} :
    (s.setPayload a i d).payload a j =
      if i = j then (s.payload a j).map fun _ => d else s.payload a j := by
  rw [payload, setPayload_dynamic, payload]
  cases (s.info a).dynamic with
  | none => simp
  | some ds =>
    simp only [map_some, getD_some, getElem?_set]
    split
    · next h =>
        subst h
        by_cases hi : i < ds.length
        · simp [hi]
        · simp [hi]
    · rfl

/-! ## Entries that point to a library -/

/-- The `DT_NEEDED` entries of loaded objects that point to `x`. -/
def entries (s : Linker P N) (x : ℕ) : ℕ := inDegree s.solist (fun b => (s.info b).targets) x

end Linker

@[simp] lemma Payload.info?_eq_some : d.info? = some x ↔ d = .info x := by
  cases d <;> simp [info?]

lemma Soinfo.mem_targets {si : Soinfo P N} :
    x ∈ si.targets ↔ info x ∈ si.dynamic.getD [] := by
  simp [targets]

/-- Overwriting one payload. -/
lemma count_targets_set (ds : List (Payload P)) {old : Payload P}
    (hold : ds[i]? = some old) :
    ((ds.set i d).filterMap info?).count x + (if old.info? = some x then 1 else 0) =
      (ds.filterMap info?).count x + (if d.info? = some x then 1 else 0) := by
  -- one entry contributes 1 or nothing, whatever stands before and after it
  have hone : ∀ (d : Payload P) ds, ((d :: ds).filterMap info?).count x =
      (ds.filterMap info?).count x + (if d.info? = some x then 1 else 0) := by
    intro d ds
    cases hd : d.info? with
    | none => simp [hd]
    | some y => simp [hd, count_cons]
  induction ds generalizing i with
  | nil => simp at hold
  | cons e ds ih =>
    cases i with
    | zero =>
      rw [getElem?_cons_zero, some.injEq] at hold
      rw [set_cons_zero, hone, hone, hold]
      omega
    | succ i =>
      rw [set_cons_succ, hone, hone]
      have := ih (by simpa using hold)
      omega

namespace Linker

lemma entries_congr {s' : Linker P N} (hlist : s'.solist = s.solist)
    (h : ∀ b ∈ s.solist, (s'.info b).targets = (s.info b).targets) :
    s'.entries x = s.entries x := by
  rw [entries, hlist, inDegree_congr h, entries]

@[simp] lemma entries_setRefcount : (s.setRefcount a n).entries x = s.entries x :=
  entries_congr rfl fun _ _ => setRefcount_targets

lemma entries_setPayload {old : Payload P} (hnodup : s.solist.Nodup) (ha : a ∈ s.solist)
    (hold : s.payload a i = some old) :
    (s.setPayload a i d).entries x + (if old.info? = some x then 1 else 0) =
      s.entries x + (if d.info? = some x then 1 else 0) := by
  have hin := inDegree_update (x := x) hnodup ha fun b _ hb =>
    show ((s.setPayload a i d).info b).targets = (s.info b).targets by
      rw [setPayload_info_of_ne hb]
  cases hdyn : (s.info a).dynamic with
  | none => simp [payload, hdyn] at hold
  | some ds =>
    rw [payload, hdyn] at hold
    have hset := count_targets_set (x := x) (d := d) ds hold
    simp only [targets, setPayload_dynamic, hdyn, map_some,
      getD_some] at hin
    simp only [entries, setPayload_solist, targets]
    omega

lemma entries_pos (hb : b ∈ s.solist) (hx : x ∈ (s.info b).targets) : 0 < s.entries x :=
  inDegree_pos hb hx

end Linker

/-! ## The invariant -/

/-- The linker between two edits; see the head of this module. -/
structure Wf (rank : N → ℕ) (s : Linker P N) (held : ℕ → ℕ) : Prop where
  nodup : s.solist.Nodup
  used : ∀ a ∈ s.solist, a ≤ s.socount
  free : ∀ a ∈ s.freelist, a ∉ s.solist ∧ a ≤ s.socount
  freeNodup : s.freelist.Nodup
  mapped : ∀ a, s.mapped a = true ↔ a ∈ s.solist
  points : ∀ b ∈ s.solist, ∀ x ∈ (s.info b).targets,
    x ∈ s.solist ∧ rank (s.info x).name < rank (s.info b).name
  refcount : ∀ a ∈ s.solist, (s.info a).refcount = toUInt32 (held a + s.entries a)
  outside : ∀ a ∉ s.solist, held a = 0

namespace Wf

variable {rank : N → ℕ} {s' : Linker P N} {held held' : ℕ → ℕ} {old : Payload P}

section

variable (h : Wf rank s held)

include h

/-- Nothing points to a library that is not loaded. -/
lemma entries_eq_zero (hx : x ∉ s.solist) : s.entries x = 0 :=
  inDegree_eq_zero fun b hb hmem => hx (h.points b hb x hmem).1

/-- Edits of what the invariant does not speak of. -/
lemma congr (hlist : s'.solist = s.solist) (hfree : s'.freelist = s.freelist)
    (hcount : s'.socount = s.socount) (hmapped : s'.mapped = s.mapped)
    (hname : ∀ b, (s'.info b).name = (s.info b).name)
    (htargets : ∀ b, (s'.info b).targets = (s.info b).targets)
    (href : ∀ b, (s'.info b).refcount = (s.info b).refcount) : Wf rank s' held where
  nodup := hlist ▸ h.nodup
  used := hlist ▸ hcount ▸ h.used
  free := hlist ▸ hfree ▸ hcount ▸ h.free
  freeNodup := hfree ▸ h.freeNodup
  mapped := hlist ▸ hmapped ▸ h.mapped
  points := by
    intro b hb x hx
    rw [hlist] at hb ⊢
    rw [htargets] at hx
    rw [hname, hname]
    exact h.points b hb x hx
  refcount := by
    intro a ha
    rw [hlist] at ha
    rw [href, h.refcount a ha, entries_congr hlist fun b _ => htargets b]
  outside := hlist ▸ h.outside

/-- **A count changes.** -/
lemma setRefcount {m : ℕ} (ha : a ∈ s.solist) (hn : n = toUInt32 (m + s.entries a)) :
    Wf rank (s.setRefcount a n) (update held a m) where
  nodup := h.nodup
  used := h.used
  free := h.free
  freeNodup := h.freeNodup
  mapped := h.mapped
  points := by
    intro b hb x hx
    rw [setRefcount_targets] at hx
    simpa using h.points b hb x hx
  refcount := by
    intro b hb
    rw [entries_setRefcount]
    by_cases hba : b = a
    · subst hba
      simp [hn]
    · rw [setRefcount_info_of_ne hba, update_of_ne hba]
      exact h.refcount b hb
  outside := by
    intro b hb
    have hba : b ≠ a := fun heq => hb (heq.symm ▸ ha)
    rw [update_of_ne hba]
    exact h.outside b hb

lemma incref (ha : a ∈ s.solist) : Wf rank (s.incref a) (update held a (held a + 1)) := by
  refine h.setRefcount ha ?_
  rw [h.refcount a ha, toUInt32, toUInt32, toUInt32]
  omega

/-- **An entry changes**, and what it referred to before or refers to now is held instead. -/
lemma setPayload (ha : a ∈ s.solist) (hold : s.payload a i = some old)
    (hd : ∀ x, d.info? = some x → x ∈ s.solist ∧ rank (s.info x).name < rank (s.info a).name)
    (hheld : ∀ b,
      held' b + (if d.info? = some b then 1 else 0) = held b + (if old.info? = some b then 1 else 0)) :
    Wf rank (s.setPayload a i d) held' where
  nodup := h.nodup
  used := h.used
  free := h.free
  freeNodup := h.freeNodup
  mapped := h.mapped
  points := by
    intro b hb x hx
    simp only [setPayload_name] at hb ⊢
    by_cases hba : b = a
    · subst hba
      rw [mem_targets, setPayload_dynamic] at hx
      cases hdyn : (s.info b).dynamic with
      | none => simp [hdyn] at hx
      | some ds =>
        simp only [hdyn] at hx
        rcases mem_or_eq_of_mem_set hx with hx | hx
        · exact h.points b hb x (mem_targets.mpr (by simpa [hdyn] using hx))
        · exact hd x (by simp [← hx])
    · rw [setPayload_info_of_ne hba] at hx
      exact h.points b hb x hx
  refcount := by
    intro b hb
    have hentries := entries_setPayload (x := b) (d := d) h.nodup ha hold
    have hsum := hheld b
    rw [setPayload_refcount, h.refcount b hb]
    congr 1
    omega
  outside := by
    intro b hb
    have hsum := hheld b
    have hnot : old.info? ≠ some b := by
      intro heq
      rw [info?_eq_some] at heq
      subst heq
      refine hb (h.points a ha b (mem_targets.mpr ?_)).1
      exact mem_of_getElem? hold
    rw [if_neg hnot, h.outside b hb] at hsum
    omega

end

end Wf

/-! ## A new library -/

/-- What `alloc_info` returns: an `soinfo` that is not in use, at the end of `solist`. -/
structure Allocated (s : Linker P N) (name : N) (s' : Linker P N) (a : ℕ) : Prop where
  notMem : a ∉ s.solist
  solist : s'.solist = s.solist ++ [a]
  info : s'.info = Function.update s.info a ⟨name, false, false, 0, none⟩
  mapped : s'.mapped = s.mapped
  somain : s'.somain = s.somain
  used : ∀ b ∈ s'.solist, b ≤ s'.socount
  free : ∀ b ∈ s'.freelist, b ∉ s'.solist ∧ b ≤ s'.socount
  freeNodup : s'.freelist.Nodup

section New

variable {rank : N → ℕ} {s' : Linker P N} {held : ℕ → ℕ} {name : N}

lemma allocated_of_alloc_info (h : Wf rank s held) (halloc : alloc_info s name = some (s', a)) :
    Allocated s name s' a := by
  unfold alloc_info at halloc
  cases hfree : s.freelist with
  | cons si rest =>
    simp only [hfree, some.injEq, Prod.mk.injEq] at halloc
    obtain ⟨rfl, rfl⟩ := halloc
    have hsi := h.free si (by simp [hfree])
    have hnodup := h.freeNodup
    rw [hfree, nodup_cons] at hnodup
    refine ⟨hsi.1, rfl, rfl, rfl, rfl, ?_, ?_, hnodup.2⟩
    · intro b hb
      rcases mem_append.mp hb with hb | hb
      · exact h.used b hb
      · rw [mem_singleton.mp hb]
        exact hsi.2
    · intro b hb
      have hfreeb := h.free b (by simp [hfree, hb])
      refine ⟨fun hmem => ?_, hfreeb.2⟩
      rcases mem_append.mp hmem with hmem | hmem
      · exact hfreeb.1 hmem
      · exact hnodup.1 (mem_singleton.mp hmem ▸ hb)
  | nil =>
    simp only [hfree] at halloc
    split at halloc
    · cases halloc
    · simp only [some.injEq] at halloc
      obtain ⟨rfl, rfl⟩ := halloc
      refine ⟨fun hmem => ?_, rfl, rfl, rfl, rfl, ?_, ?_, ?_⟩
      · have := h.used _ hmem
        simp only [sopool] at this
        omega
      · intro b hb
        rcases mem_append.mp hb with hb | hb
        · exact (h.used b hb).trans (Nat.le_succ _)
        · rw [mem_singleton.mp hb]
          exact le_rfl
      · simp
      · simp

/-- **A new library** points nowhere, and nothing points to it; its count is what is held of it. -/
lemma Wf.enter (h : Wf rank s held) (hnew : Allocated s name s' a)
    (htargets : (g ⟨name, false, false, 0, none⟩).targets = [])
    (href : (g ⟨name, false, false, 0, none⟩).refcount = toUInt32 n) :
    Wf rank ((s'.mmap a).setInfo a g) (update held a n) := by
  have hself : ((s'.mmap a).setInfo a g).info a = g ⟨name, false, false, 0, none⟩ := by
    simp [mmap, hnew.info]
  have hother : ∀ b, b ≠ a → ((s'.mmap a).setInfo a g).info b = s.info b := by
    intro b hb
    rw [setInfo_info_of_ne hb]
    simp [mmap, hnew.info, update_of_ne hb]
  have hlist : ((s'.mmap a).setInfo a g).solist = s.solist ++ [a] := hnew.solist
  have hne : ∀ b ∈ s.solist, b ≠ a := fun b hb heq => hnew.notMem (heq ▸ hb)
  have hentries : ∀ x, ((s'.mmap a).setInfo a g).entries x = s.entries x := by
    intro x
    rw [entries, hlist, inDegree_concat, hself, htargets]
    exact inDegree_congr fun b hb => by rw [hother b (hne b hb)]
  refine ⟨?_, hnew.used, hnew.free, hnew.freeNodup, ?_, ?_, ?_, ?_⟩
  · rw [hlist]
    rw [← concat_eq_append]
    exact h.nodup.concat hnew.notMem
  · intro b
    rw [hlist]
    by_cases hba : b = a
    · subst hba
      simp [mmap]
    · simp [mmap, hba, hnew.mapped, h.mapped]
  · intro b hb x hx
    rw [hlist, mem_append, mem_singleton] at hb
    rcases hb with hb | rfl
    · rw [hother b (hne b hb)] at hx ⊢
      have hpoints := h.points b hb x hx
      rw [hother x (hne x hpoints.1), hlist]
      exact ⟨mem_append_left _ hpoints.1, hpoints.2⟩
    · rw [hself, htargets] at hx
      cases hx
  · intro b hb
    rw [hlist, mem_append, mem_singleton] at hb
    rw [hentries]
    rcases hb with hb | rfl
    · rw [hother b (hne b hb), update_of_ne (hne b hb)]
      exact h.refcount b hb
    · rw [hself, href, update_self, h.entries_eq_zero hnew.notMem, add_zero]
  · intro b hb
    rw [hlist, mem_append, mem_singleton, not_or] at hb
    rw [update_of_ne hb.2]
    exact h.outside b hb.1

end New

end Droid.Dlfcn
