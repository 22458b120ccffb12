import DroidPlatform.BlobCache.Lemmas.Entries

/-!
# What `set` does to the books

`Accounted d` is the invariant of a cache whose total is too large by `d`: besides the total it keeps
the order of the entries, their limits and that they fit into the address space.  Nothing that `set`
does changes `d`.  With `d = 0`, as it should be, `clean` always finds an entry to remove, and `set`
returns unless memory runs out.

If `d` is not zero, the computation of a new total could wrap around; the limit on the total size is
then supposed to be below `2 ^ 31`.
-/

namespace Droid

open List CacheEntry BlobCache

namespace BlobCache

variable {c c' : BlobCache} {d : ℕ} {key value : Blob}

lemma memory_eq (c : BlobCache) :
    c.memory = 56 + 48 * c.mCacheEntries.length + sizes c.mCacheEntries := by
  rw [memory]
  induction c.mCacheEntries with
  | nil => rfl
  | cons e entries ih =>
    simp only [map_cons, sum_cons, length_cons, sizes_cons, CacheEntry.memory] at *
    omega

def limits (c : BlobCache) : ℕ × ℕ × ℕ := (c.mMaxKeySize, c.mMaxValueSize, c.mMaxTotalSize)

lemma mMaxTotalSize_eq (h : c'.limits = c.limits) : c'.mMaxTotalSize = c.mMaxTotalSize :=
  congrArg (·.2.2) h

lemma cacheable_congr (h : c'.limits = c.limits) {keySize valueSize : ℕ} :
    c'.Cacheable keySize valueSize ↔ c.Cacheable keySize valueSize := by
  simp only [limits, Prod.mk.injEq] at h
  simp only [Cacheable, h]

/-- **The invariant**, for a total that is too large by `d`. -/
structure Accounted (d : ℕ) (c : BlobCache) : Prop where
  total : c.mTotalSize = sizes c.mCacheEntries + d
  bounded : c.mTotalSize ≤ c.mMaxTotalSize
  exact : d = 0 ∨ c.mMaxTotalSize < 2 ^ 31
  increasing : Increasing CacheEntry.compare c.mCacheEntries
  cacheable : ∀ e ∈ c.mCacheEntries, c.Cacheable e.mKey.length e.mValue.length
  memory : c.memory < 2 ^ 32

/-- A later state of a cache. -/
structure Later (d : ℕ) (c c' : BlobCache) : Prop where
  accounted : c'.Accounted d
  limits : c'.limits = c.limits

lemma Later.trans {c'' : BlobCache} (h : Later d c c') (h' : Later d c' c'') : Later d c c'' :=
  ⟨h'.accounted, h'.limits.trans h.limits⟩

lemma accounted_create (maxKeySize maxValueSize maxTotalSize : ℕ) (rand : ℕ → ℕ) :
    (create maxKeySize maxValueSize maxTotalSize rand).Accounted 0 where
  total := rfl
  bounded := Nat.zero_le _
  exact := Or.inl rfl
  increasing := Pairwise.nil
  cacheable := by simp [create]
  memory := by simp [memory_eq, create]

namespace Accounted

/-- What is held fits into the address space. -/
lemma sizes_lt (h : c.Accounted d) : sizes c.mCacheEntries < 2 ^ 32 := by
  have := h.memory
  rw [memory_eq] at this
  omega

lemma total_lt (h : c.Accounted d) : c.mTotalSize < 2 ^ 32 := by
  have hsizes := h.sizes_lt
  have htotal := h.total
  have hbounded := h.bounded
  rcases h.exact with hd | hmax <;> omega

/-! ## Cleaning -/

lemma evict (h : c.Accounted d) {i : ℕ} {e : CacheEntry} (he : c.mCacheEntries[i]? = some e) :
    Later d c (c.evict i e) := by
  obtain ⟨hi, rfl⟩ := List.getElem?_eq_some_iff.mp he
  have hsub : Sublist (c.mCacheEntries.eraseIdx i) c.mCacheEntries := eraseIdx_sublist _ _
  have hsizes : sizes c.mCacheEntries =
      sizes (c.mCacheEntries.eraseIdx i) + c.mCacheEntries[i].size := by
    have hsplit : c.mCacheEntries =
        c.mCacheEntries.take i ++ c.mCacheEntries[i] :: c.mCacheEntries.drop (i + 1) := by
      rw [getElem_cons_drop hi, take_append_drop]
    rw [eraseIdx_eq_take_drop_succ]
    conv_lhs => rw [hsplit]
    simp only [sizes_append, sizes_cons]
    omega
  have htotal := h.total
  have htotal_lt := h.total_lt
  have htotal' : (c.evict i c.mCacheEntries[i]).mTotalSize =
      c.mTotalSize - c.mCacheEntries[i].size := by
    have hsize : toUInt32 c.mCacheEntries[i].size = c.mCacheEntries[i].size :=
      toUInt32_eq_self (by omega)
    rw [BlobCache.evict, hsize, toWord_sub (by omega) (by omega)]
  refine ⟨⟨?_, ?_, h.exact, h.increasing.sublist hsub, ?_, ?_⟩, rfl⟩
  · show (c.evict i c.mCacheEntries[i]).mTotalSize = sizes (c.mCacheEntries.eraseIdx i) + d
    omega
  · exact htotal'.trans_le ((Nat.sub_le _ _).trans h.bounded)
  · exact fun e he => h.cacheable e (hsub.mem he)
  · have hmemory := h.memory
    have hlength := hsub.length_le
    rw [memory_eq] at hmemory ⊢
    show 56 + 48 * (c.mCacheEntries.eraseIdx i).length + sizes (c.mCacheEntries.eraseIdx i) < 2 ^ 32
    omega

/-- Cleaning, if it ends well, leaves at most half of the limit. -/
lemma cleanFrom : ∀ {fuel : ℕ} {c c' : BlobCache}, c.Accounted d → cleanFrom fuel c = .ok c' →
    Later d c c' ∧ c'.mTotalSize ≤ c'.mMaxTotalSize / 2 := by
  intro fuel
  induction fuel with
  | zero =>
    intro c c' _ hclean
    cases hclean
  | succ fuel ih =>
    intro c c' h hclean
    rw [BlobCache.cleanFrom] at hclean
    split_ifs at hclean with hfull hempty
    · cases hentry : c.mCacheEntries[c.mRandState 0 % c.mCacheEntries.length]? with
      | none => simp [hentry, need, bind, Except.bind] at hclean
      | some e =>
        simp only [hentry] at hclean
        obtain ⟨hlater, hhalf⟩ := ih (h.evict hentry).accounted hclean
        exact ⟨(h.evict hentry).trans hlater, hhalf⟩
    · cases hclean
      exact ⟨⟨h, rfl⟩, not_lt.mp hfull⟩

/-- Cleaning ends well if the total is right: there is an entry as long as the total is not zero. -/
lemma cleanFrom_returns : ∀ {fuel : ℕ} {c : BlobCache}, c.Accounted 0 →
    c.mCacheEntries.length < fuel → ∃ c', BlobCache.cleanFrom fuel c = .ok c' := by
  intro fuel
  induction fuel with
  | zero =>
    omega
  | succ fuel ih =>
    intro c h hfuel
    rw [BlobCache.cleanFrom]
    split_ifs with hfull hempty
    · -- nothing is held, but the total is positive
      have htotal := h.total
      rw [length_eq_zero_iff.mp hempty, sizes_nil] at htotal
      omega
    · have hlt : c.mRandState 0 % c.mCacheEntries.length < c.mCacheEntries.length :=
        Nat.mod_lt _ (pos_of_ne_zero hempty)
      have hentry := getElem?_eq_getElem hlt
      obtain ⟨c', hc'⟩ := ih (h.evict hentry).accounted (by
        show (c.mCacheEntries.eraseIdx _).length < fuel
        rw [length_eraseIdx_of_lt hlt]
        omega)
      refine ⟨c', ?_⟩
      simpa only [hentry, need, bind, Except.bind] using hc'
    · exact ⟨c, rfl⟩

/-! ## Storing -/

section Storing

variable {lo same hi : List CacheEntry}

/-- If `malloc` succeeds, the pair and the entries with it fit into the address space. -/
lemma memory_replace (haround : Around compare c.mCacheEntries ⟨key, value⟩ lo same hi)
    (hmemory : c.memory + allocated same key value < 2 ^ 32) :
    56 + 48 * (lo ++ ⟨key, value⟩ :: hi).length + sizes (lo ++ ⟨key, value⟩ :: hi) < 2 ^ 32 ∧
      key.length + value.length < 2 ^ 32 := by
  have heq := haround.eq
  rw [memory_eq, heq] at hmemory
  simp only [length_append, length_cons, sizes_append, sizes_cons, size_mk] at *
  rcases haround.equal with rfl | ⟨⟨key', old⟩, rfl, hequal⟩
  · rw [allocated, if_pos rfl, memory_mk] at hmemory
    omega
  · obtain rfl : key' = key := (compare_eq_zero_iff _ _).mp hequal
    rw [allocated, if_neg (cons_ne_nil _ _)] at hmemory
    simp only [length_singleton, sizes_cons, size_mk] at hmemory
    omega

/-- The books after an entry came into the place of at most one. -/
lemma replace (h : c.Accounted d) (hcacheable : c.Cacheable key.length value.length)
    (haround : Around compare c.mCacheEntries ⟨key, value⟩ lo same hi)
    (hmemory : c.memory + allocated same key value < 2 ^ 32) :
    toWord ((c.mTotalSize : ℤ) + size ⟨key, value⟩ - sizes same) =
        sizes (lo ++ ⟨key, value⟩ :: hi) + d ∧
      (sizes (lo ++ ⟨key, value⟩ :: hi) + d ≤ c.mMaxTotalSize → Later d c
        { c with
          mTotalSize := sizes (lo ++ ⟨key, value⟩ :: hi) + d
          mCacheEntries := lo ++ ⟨key, value⟩ :: hi }) := by
  have htotal := h.total
  have hbounded := h.bounded
  have heq := haround.eq
  have hsizes : sizes c.mCacheEntries = sizes lo + sizes same + sizes hi := by
    rw [heq, sizes_append, sizes_append]
  have hsizes' : sizes (lo ++ ⟨key, value⟩ :: hi) =
      sizes lo + (key.length + value.length) + sizes hi := by
    rw [sizes_append, sizes_cons, size_mk]
    omega
  have hmemory' := memory_replace haround hmemory
  have hfits : sizes (lo ++ ⟨key, value⟩ :: hi) + d < 2 ^ 32 := by
    rcases h.exact with hd | hmax
    · omega
    · have hsize : toUInt32 (key.length + value.length) ≤ c.mMaxTotalSize := hcacheable.2.2.1
      rw [toUInt32_eq_self hmemory'.2] at hsize
      omega
  refine ⟨?_, fun hle => ⟨⟨rfl, hle, h.exact, ?_, ?_, ?_⟩, rfl⟩⟩
  · rw [size_mk, ← Nat.cast_add, toWord_sub (by omega) (by omega)]
    omega
  · exact haround.increasing compare_totalPreorder h.increasing
  · intro e he
    rcases mem_append.mp he with he | he
    · exact h.cacheable e (by simp [heq, he])
    · rcases mem_cons.mp he with rfl | he
      · exact hcacheable
      · exact h.cacheable e (by simp [heq, he])
  · rw [memory_eq]
    exact hmemory'.1

end Storing

/-- **A pass of `set`**: memory runs out, the entry is stored, or room has to be made. -/
theorem setPass_cases (h : c.Accounted d) (hcacheable : c.Cacheable key.length value.length) :
    ∃ lo same hi, Around compare c.mCacheEntries ⟨key, value⟩ lo same hi ∧
      (c.setPass key value = .error .noMemory ∨
        (∃ c', Later d c c' ∧ c'.mCacheEntries = lo ++ ⟨key, value⟩ :: hi ∧
          c.setPass key value = .ok (false, c')) ∨
        key.length + value.length < 2 ^ 32 ∧
          c.mMaxTotalSize < sizes (lo ++ ⟨key, value⟩ :: hi) + d ∧
          c.setPass key value = c.makeRoom) := by
  obtain ⟨lo, same, hi, haround, hpass⟩ := setPass_spec h.increasing key value
  refine ⟨lo, same, hi, haround, ?_⟩
  split_ifs at hpass with hmemory
  · obtain ⟨htotal, hlater⟩ := h.replace hcacheable haround hmemory
    rw [htotal, store] at hpass
    split_ifs at hpass with hfull
    · exact Or.inr (Or.inr ⟨(memory_replace haround hmemory).2, hfull, hpass⟩)
    · exact Or.inr (Or.inl ⟨_, hlater (not_lt.mp hfull), rfl, hpass⟩)
  · exact Or.inl hpass

/-- Making room cleans the cache, or leaves it as it is when there is nothing to clean. -/
lemma makeRoom_cases (h : c.Accounted d) {again : Bool} (hroom : c.makeRoom = .ok (again, c')) :
    again = true ∧ Later d c c' ∧ c'.isCleanable = false ∨
      again = false ∧ c' = c ∧ c.isCleanable = false := by
  rw [makeRoom] at hroom
  split_ifs at hroom with hcleanable
  · cases hclean : c.clean with
    | error f => simp [hclean, bind, Except.bind] at hroom
    | ok c1 =>
      simp only [hclean] at hroom
      cases hroom
      obtain ⟨hlater, hhalf⟩ := h.cleanFrom hclean
      exact Or.inl ⟨rfl, hlater, by simpa [isCleanable] using hhalf⟩
  · cases hroom
    exact Or.inr ⟨rfl, rfl, by simpa using hcleanable⟩

lemma makeRoom_returns (h : c.Accounted 0) : ∃ again c', c.makeRoom = .ok (again, c') := by
  rw [makeRoom]
  split_ifs with hcleanable
  · obtain ⟨c', hclean⟩ := h.cleanFrom_returns (Nat.lt_succ_self c.mCacheEntries.length)
    refine ⟨true, c', ?_⟩
    rw [clean, hclean]
    rfl
  · exact ⟨false, c, rfl⟩

/-! ## `set` -/

/-- An entry does not fit only if something is there already. -/
lemma ne_nil_of_full (hcacheable : c.Cacheable key.length value.length) {lo same hi : List CacheEntry}
    (haround : Around compare c.mCacheEntries ⟨key, value⟩ lo same hi)
    (hfull : c.mMaxTotalSize < sizes (lo ++ ⟨key, value⟩ :: hi) + 0)
    (hfits : key.length + value.length < 2 ^ 32) : c.mCacheEntries ≠ [] := by
  intro hnil
  have heq := haround.eq
  rw [hnil, eq_comm, append_eq_nil_iff, append_eq_nil_iff] at heq
  have hsize : toUInt32 (key.length + value.length) ≤ c.mMaxTotalSize := hcacheable.2.2.1
  rw [toUInt32_eq_self hfits] at hsize
  rw [heq.1.1, heq.2, nil_append, sizes_cons, sizes_nil, size_mk] at hfull
  omega

/-- The loop of `set` keeps the books. -/
lemma setLoop : ∀ {fuel : ℕ} {c c' : BlobCache}, c.Accounted d →
    c.Cacheable key.length value.length → setLoop fuel c key value = .ok c' → Later d c c' := by
  intro fuel
  induction fuel with
  | zero =>
    intro c c' _ _ hset
    cases hset
  | succ fuel ih =>
    intro c c' h hcacheable hset
    rw [BlobCache.setLoop] at hset
    obtain ⟨lo, same, hi, -, hpass | ⟨c1, hlater, -, hpass⟩ | ⟨-, -, hpass⟩⟩ :=
      h.setPass_cases hcacheable
    · rw [hpass] at hset
      cases hset
    · rw [hpass] at hset
      cases hset
      exact hlater
    · cases hroom : c.makeRoom with
      | error f =>
        rw [hpass, hroom] at hset
        cases hset
      | ok r =>
        obtain ⟨again, c1⟩ := r
        rw [hpass, hroom] at hset
        rcases h.makeRoom_cases hroom with ⟨rfl, hlater, -⟩ | ⟨rfl, rfl, -⟩
        · exact hlater.trans (ih hlater.accounted ((cacheable_congr hlater.limits).mpr hcacheable) hset)
        · cases hset
          exact ⟨h, rfl⟩

/-- A pass that does not clean ends the loop, with something in the cache. -/
lemma setLoop_of_not_cleanable (h : c.Accounted 0)
    (hcacheable : c.Cacheable key.length value.length) (hclean : c.isCleanable = false) (fuel : ℕ) :
    BlobCache.setLoop (fuel + 1) c key value = .error .noMemory ∨
      ∃ c', BlobCache.setLoop (fuel + 1) c key value = .ok c' ∧ c'.mCacheEntries ≠ [] := by
  rw [BlobCache.setLoop]
  obtain ⟨lo, same, hi, haround, hpass | ⟨c', -, hentries, hpass⟩ | ⟨hfits, hfull, hpass⟩⟩ :=
    h.setPass_cases hcacheable
  · rw [hpass]
    exact Or.inl rfl
  · rw [hpass]
    exact Or.inr ⟨c', rfl, by simp [hentries]⟩
  · have hroom : c.makeRoom = .ok (false, c) := by
      rw [makeRoom, hclean]
      rfl
    rw [hpass, hroom]
    exact Or.inr ⟨c, rfl, ne_nil_of_full hcacheable haround hfull hfits⟩

/-- **`set` returns** with something in the cache, if the books are right and memory lasts. -/
lemma setLoop_returns (h : c.Accounted 0) (hcacheable : c.Cacheable key.length value.length) :
    BlobCache.setLoop 2 c key value = .error .noMemory ∨
      ∃ c', BlobCache.setLoop 2 c key value = .ok c' ∧ c'.mCacheEntries ≠ [] := by
  cases hclean : c.isCleanable with
  | false => exact h.setLoop_of_not_cleanable hcacheable hclean 1
  | true =>
    rw [BlobCache.setLoop]
    obtain ⟨lo, same, hi, haround, hpass | ⟨c', -, hentries, hpass⟩ | ⟨-, -, hpass⟩⟩ :=
      h.setPass_cases hcacheable
    · rw [hpass]
      exact Or.inl rfl
    · rw [hpass]
      exact Or.inr ⟨c', rfl, by simp [hentries]⟩
    · obtain ⟨again, c1, hroom⟩ := h.makeRoom_returns
      rcases h.makeRoom_cases hroom with ⟨rfl, hlater, hclean'⟩ | ⟨-, -, hfalse⟩
      · -- what is left cannot be cleaned again
        have hcacheable' := (cacheable_congr hlater.limits).mpr hcacheable
        rw [hpass, hroom]
        exact hlater.accounted.setLoop_of_not_cleanable hcacheable' hclean' 0
      · rw [hclean] at hfalse
        cases hfalse

/-- `set` keeps the books. -/
theorem set (h : c.Accounted d) (hset : c.set key value = .ok c') : Later d c c' := by
  rw [BlobCache.set] at hset
  split_ifs at hset with hcacheable
  · exact h.setLoop hcacheable hset
  · cases hset
    exact ⟨h, rfl⟩

/-- What a `set` with the right books comes to. -/
theorem set_returns (h : c.Accounted 0) (key value : Blob) : c.set key value = .error .noMemory ∨
    ∃ c', c.set key value = .ok c' ∧ (¬c.Cacheable key.length value.length → c' = c) ∧
      (c.Cacheable key.length value.length → c'.mCacheEntries ≠ []) := by
  rw [BlobCache.set]
  split_ifs with hcacheable
  · rcases h.setLoop_returns hcacheable with herror | ⟨c', hc', hne⟩
    · exact Or.inl herror
    · exact Or.inr ⟨c', hc', fun hnot => absurd hcacheable hnot, fun _ => hne⟩
  · exact Or.inr ⟨c, rfl, fun _ => rfl, fun hyes => absurd hyes hcacheable⟩

end Accounted

end BlobCache

end Droid
