import DroidPlatform.Region.Lemmas.Operator

/-!
# The rasterizer coalesces

The rasterizer sees one rectangle at a time, and compares it with the last rectangle of the span
it is building and the finished span with the last band it stored.  Streaming the strips of a sweep
through it therefore coalesces twice: each strip in `x` (`foldl_add_span`), and the coalesced strips
in `y` (`flushSpan_stores`).

`Stores ras stored` says what the rasterizer holds between two spans, and `Receives ras bs` what it
holds between two strips, `bs` being the strips so far.  `receives_foldl_add` runs it over a whole
list of strips, and `booleanOperation_hasBands` reads the result off the destructor.
-/

namespace Droid

open List Rasterizer

/-! ## Bounding boxes -/

/-- `box` is the bounding box of a list of rectangles: they lie inside it and touch every edge. -/
structure IsBox (rects : List Rect) (box : Rect) : Prop where
  inside : ∀ r ∈ rects, (box.left ≤ r.left ∧ r.right ≤ box.right) ∧
    box.top ≤ r.top ∧ r.bottom ≤ box.bottom
  left : ∃ r ∈ rects, r.left = box.left
  right : ∃ r ∈ rects, r.right = box.right
  top : ∃ r ∈ rects, r.top = box.top
  bottom : ∃ r ∈ rects, r.bottom = box.bottom

attribute [local simp] bandRects stripRects

lemma isBox_singleton (r : Rect) : IsBox [r] r where
  inside := by
    rintro q hq
    rw [mem_singleton.mp hq]
    exact ⟨⟨le_rfl, le_rfl⟩, le_rfl, le_rfl⟩
  left := ⟨r, by simp⟩
  right := ⟨r, by simp⟩
  top := ⟨r, by simp⟩
  bottom := ⟨r, by simp⟩

/-- A list of rectangles has at most one bounding box. -/
lemma IsBox.unique {rects : List Rect} {box box' : Rect} (h : IsBox rects box)
    (h' : IsBox rects box') : box = box' := by
  obtain ⟨r1, hr1, hl⟩ := h.left
  obtain ⟨r2, hr2, hr⟩ := h.right
  obtain ⟨r3, hr3, ht⟩ := h.top
  obtain ⟨r4, hr4, hb⟩ := h.bottom
  obtain ⟨s1, hs1, hl'⟩ := h'.left
  obtain ⟨s2, hs2, hr'⟩ := h'.right
  obtain ⟨s3, hs3, ht'⟩ := h'.top
  obtain ⟨s4, hs4, hb'⟩ := h'.bottom
  have := h.inside s1 hs1
  have := h.inside s2 hs2
  have := h.inside s3 hs3
  have := h.inside s4 hs4
  have := h'.inside r1 hr1
  have := h'.inside r2 hr2
  have := h'.inside r3 hr3
  have := h'.inside r4 hr4
  ext <;> omega

/-- The left and right edges `bounds` has while the bands with values `vals` are stored. -/
structure Spread (bounds : Rect) (vals : List (List (Run ℤ Unit))) : Prop where
  nil : vals = [] → bounds = ⟨intMax, 0, intMin, 0⟩
  inside : ∀ runs ∈ vals, ∀ r ∈ runs, bounds.left ≤ r.lo ∧ r.hi ≤ bounds.right
  left : vals ≠ [] → ∃ runs ∈ vals, ∃ r ∈ runs, r.lo = bounds.left
  right : vals ≠ [] → ∃ runs ∈ vals, ∃ r ∈ runs, r.hi = bounds.right

variable {runs : List (Run ℤ Unit)} (top bottom : ℤ)

/-- Appending an ordered span compares only its outermost edges with the bounds. -/
lemma Spread.append {bounds : Rect} {vals : List (List (Run ℤ Unit))} (h : Spread bounds vals)
    (hne : runs ≠ []) (hord : OrderedFrom intMin runs) (hmax : ∀ r ∈ runs, r.lo < intMax)
    (top bottom : ℤ) :
    Spread ⟨if (runs.head hne).lo < bounds.left then (runs.head hne).lo else bounds.left, top,
      if (runs.getLast hne).hi > bounds.right then (runs.getLast hne).hi else bounds.right, bottom⟩
      (vals ++ [runs]) := by
  have hfirst : ∀ r ∈ runs, (runs.head hne).lo ≤ r.lo := by
    intro r hr
    obtain ⟨q, qs, rfl⟩ := exists_cons_of_ne_nil hne
    have hq : OrderedFrom q.lo (q :: qs) := ⟨le_rfl, hord.2.1, hord.2.2⟩
    exact (hq.of_mem hr).1
  have hlast : ∀ r ∈ runs, r.hi ≤ (runs.getLast hne).hi := fun r hr => hord.hi_le_getLast hne hr
  have hlo := hmax _ (head_mem hne)
  have hhi := hord.of_mem (getLast_mem hne)
  refine ⟨by simp, ?_, ?_, ?_⟩
  · intro v hv r hr
    rcases mem_append.mp hv with hv | hv
    · have := h.inside v hv r hr
      simp only
      split_ifs <;> omega
    · obtain rfl := mem_singleton.mp hv
      have := hfirst r hr
      have := hlast r hr
      simp only
      split_ifs <;> omega
  · rintro -
    simp only
    split_ifs with hlt
    · exact ⟨runs, by simp, _, head_mem hne, rfl⟩
    · have hvals : vals ≠ [] := by
        rintro rfl
        exact hlt (by rw [h.nil rfl]; exact hlo)
      obtain ⟨v, hv, r, hr, heq⟩ := h.left hvals
      exact ⟨v, mem_append_left _ hv, r, hr, heq⟩
  · rintro -
    simp only
    split_ifs with hlt
    · exact ⟨runs, by simp, _, getLast_mem hne, rfl⟩
    · have hvals : vals ≠ [] := by
        rintro rfl
        exact hlt (by rw [h.nil rfl]; simp only; omega)
      obtain ⟨v, hv, r, hr, heq⟩ := h.right hvals
      exact ⟨v, mem_append_left _ hv, r, hr, heq⟩

/-! ## One span -/

@[simp] lemma length_stripRects (runs : List (Run ℤ Unit)) :
    (stripRects top bottom runs).length = runs.length := length_map _

lemma stripRects_append (rs qs : List (Run ℤ Unit)) :
    stripRects top bottom (rs ++ qs) = stripRects top bottom rs ++ stripRects top bottom qs :=
  map_append

lemma bandRects_append (as bs : List Band) :
    bandRects (as ++ bs) = bandRects as ++ bandRects bs := flatMap_append

@[simp] lemma bandRects_singleton (b : Band) : bandRects [b] = stripRects b.lo b.hi b.val := by
  simp

/-- A rectangle with the top of the span is pushed onto it. -/
lemma add_push (ras : Rasterizer) {top bottom : ℤ} (hne : runs ≠ [])
    (hspan : ras.span = stripRects top bottom runs) (r : Run ℤ Unit) :
    ras.add ⟨r.lo, top, r.hi, bottom⟩
      = { ras with span := stripRects top bottom (push runs r) } := by
  obtain ⟨acc, q, rfl⟩ := (eq_nil_or_concat' runs).resolve_left hne
  have hlast : stripRects top bottom (acc ++ [q])
      = stripRects top bottom acc ++ [⟨q.lo, top, q.hi, bottom⟩] := stripRects_append _ _ _ _
  simp only [add, hspan, hlast, getLast?_concat, dropLast_concat, ne_eq,
    not_true_eq_false, if_false]
  rw [push_append_singleton, push, stripRects_append]
  by_cases h : q.hi = r.lo
  · rw [if_pos h, if_pos ⟨h, rfl⟩]
    rfl
  · rw [if_neg h, if_neg fun hc => h hc.1]
    simp

/-- **The rest of a strip is coalesced into the span.** -/
lemma foldl_add_span : ∀ (rs runs : List (Run ℤ Unit)) (ras : Rasterizer),
    runs ≠ [] → ras.span = stripRects top bottom runs →
    (stripRects top bottom rs).foldl add ras
      = { ras with span := stripRects top bottom (rs.foldl push runs) } := by
  intro rs
  induction rs with
  | nil =>
    intro runs ras _ hspan
    rw [foldl_nil, ← hspan]
    rfl
  | cons r rs ih =>
    intro runs ras hne hspan
    have hpush : push runs r ≠ [] := by
      intro hnil
      have := (mem_map_val_push r r.val runs).mpr (Or.inr rfl)
      simp [hnil] at this
    rw [stripRects, map_cons, foldl_cons, add_push ras hne hspan r]
    exact ih (push runs r) _ hpush rfl

/-! ## Flushing a span -/

/-- Between two spans: the storage holds the bands `stored`, `head` and `tail` delimit the last of
them, and the bounds reach as far as they do. -/
structure Stores (ras : Rasterizer) (stored : List Band) : Prop where
  storage : ras.storage = bandRects stored
  head : ras.head = (bandRects stored.dropLast).length
  tail : ras.tail = ras.storage.length
  vals : ∀ b ∈ stored, b.val ≠ []
  spread : Spread ras.bounds (stored.map Run.val)

lemma sameEdges_iff (t b t' b' : ℤ) : ∀ rs qs : List (Run ℤ Unit), rs.length = qs.length →
    (sameEdges (stripRects t b rs) (stripRects t' b' qs) = true ↔ rs = qs)
  | [], [], _ => by simp [sameEdges]
  | r :: rs, q :: qs, hlen => by
    have ih := sameEdges_iff t b t' b' rs qs (Nat.succ.inj hlen)
    simp only [stripRects, map_cons, sameEdges, cons.injEq, Run.ext_iff,
      and_true] at ih ⊢
    split_ifs with h
    · simp only [false_iff]
      rintro ⟨heq, _⟩
      exact h.elim (fun hl => hl heq.1) fun hr => hr heq.2
    · rw [ih, iff_and_self]
      rintro -
      exact ⟨not_not.mp fun hl => h (Or.inl hl), not_not.mp fun hr => h (Or.inr hr)⟩

variable {stored : List Band} {q : Band}

/-- `head` and `tail` delimit the last band stored. -/
lemma Stores.lastBand_eq {ras : Rasterizer} (h : Stores ras (stored ++ [q])) :
    ras.storage = bandRects stored ++ stripRects q.lo q.hi q.val ∧
      ras.head = (bandRects stored).length ∧ ras.tail - ras.head = q.val.length ∧
      ras.lastBand = stripRects q.lo q.hi q.val := by
  have hst : ras.storage = bandRects stored ++ stripRects q.lo q.hi q.val := by
    rw [h.storage, bandRects_append, bandRects_singleton]
  have hhead : ras.head = (bandRects stored).length := by
    rw [h.head, dropLast_concat]
  have hlen : ras.tail - ras.head = q.val.length := by
    rw [h.tail, hst, length_append, length_stripRects]
    omega
  refine ⟨hst, hhead, hlen, ?_⟩
  rw [lastBand, hlen, hst, hhead, drop_left, ← length_stripRects q.lo q.hi,
    take_length]

lemma Stores.lastBand_nil {ras : Rasterizer} (h : Stores ras []) : ras.lastBand = [] := by
  rw [lastBand, h.storage]
  simp

/-- **`flushSpan` merges exactly the spans that continue the last band.** -/
lemma Stores.merges_iff {ras : Rasterizer} {b : Band} (h : Stores ras (stored ++ [q]))
    (hspan : ras.span = stripRects b.lo b.hi b.val) : ras.merges = true ↔ q.Continues b := by
  obtain ⟨_, _, hlen, hband⟩ := h.lastBand_eq
  obtain ⟨r, rs, hrs⟩ := exists_cons_of_ne_nil (h.vals q (by simp))
  rw [merges, hlen, hspan, length_stripRects]
  by_cases hl : q.val.length = b.val.length
  · have hsame := sameEdges_iff b.lo b.hi q.lo q.hi b.val q.val hl.symm
    rw [hrs, length_cons] at hl
    obtain ⟨c, cs, hcs⟩ := exists_cons_of_length_eq_add_one hl.symm
    rw [if_pos (by rw [hrs, length_cons, hl]), hband]
    simp only [stripRects, map_cons, Run.Continues, hrs, hcs] at hsame ⊢
    rw [Bool.and_eq_true, beq_iff_eq, hsame, eq_comm, @eq_comm _ (c :: cs)]
  · rw [if_neg hl]
    simp only [Bool.false_eq_true, false_iff]
    rintro ⟨_, hval⟩
    exact hl (congrArg length hval)

lemma Stores.not_merges_nil {ras : Rasterizer} (h : Stores ras []) : ras.merges = false := by
  rw [merges, h.lastBand_nil]
  split_ifs
  · split <;> simp_all
  · rfl

/-- A span that continues the last band is merged into it. -/
lemma Stores.flushSpan_merge {ras : Rasterizer} {b : Band} (h : Stores ras (stored ++ [q]))
    (hspan : ras.span = stripRects b.lo b.hi b.val) (hcont : q.Continues b) :
    Stores ras.flushSpan (stored ++ [{ q with hi := b.hi }]) ∧ ras.flushSpan.span = [] := by
  obtain ⟨hst, hhead, hlen, hband⟩ := h.lastBand_eq
  have hm := (h.merges_iff hspan).mpr hcont
  have htail : ras.storage.drop ras.tail = [] := by rw [h.tail, drop_length]
  have htake : ras.storage.take ras.head = bandRects stored := by rw [hst, hhead, take_left]
  have hflush : ras.flushSpan = { ras with
      storage := bandRects stored ++ stripRects q.lo b.hi q.val, span := [] } := by
    obtain ⟨r, rs, hrs⟩ := exists_cons_of_ne_nil (hcont.2 ▸ h.vals q (by simp))
    rw [hrs] at hspan
    rw [flushSpan, hspan]
    simp only [hm, htail, htake, hband]
    simp
  rw [hflush]
  refine ⟨⟨?_, ?_, ?_, ?_, ?_⟩, rfl⟩
  · simp
  · simpa using hhead
  · simp [h.tail, hst]
  · intro c hc
    rcases mem_append.mp hc with hc | hc
    · exact h.vals c (mem_append_left _ hc)
    · rw [mem_singleton.mp hc]
      exact h.vals q (by simp)
  · simpa using h.spread

/-- Any other span is stored after it. -/
lemma Stores.flushSpan_append {ras : Rasterizer} {b : Band} (h : Stores ras stored)
    (hb : b.val ≠ []) (hord : OrderedFrom intMin b.val) (hmax : ∀ r ∈ b.val, r.lo < intMax)
    (hspan : ras.span = stripRects b.lo b.hi b.val) (hm : ras.merges = false) :
    Stores ras.flushSpan (stored ++ [b]) ∧ ras.flushSpan.span = [] := by
  have hspread := h.spread.append hb hord hmax ras.bounds.top ras.bounds.bottom
  have hflush : ras.flushSpan = { ras with
      bounds := ⟨if (b.val.head hb).lo < ras.bounds.left then (b.val.head hb).lo
          else ras.bounds.left, ras.bounds.top,
        if (b.val.getLast hb).hi > ras.bounds.right then (b.val.getLast hb).hi
          else ras.bounds.right, ras.bounds.bottom⟩
      storage := bandRects (stored ++ [b])
      head := (bandRects stored).length
      tail := (bandRects (stored ++ [b])).length
      span := [] } := by
    obtain ⟨lo, hi, runs⟩ := b
    obtain ⟨r, rs, rfl⟩ := exists_cons_of_ne_nil hb
    have hlast : ((stripRects lo hi (r :: rs)).getLast (by simp)).right
        = ((r :: rs).getLast hb).hi := by simp only [stripRects, getLast_map]
    simp only [stripRects, map_cons] at hspan hlast
    rw [flushSpan, hspan]
    simp only [hm, hlast, h.storage, bandRects_append, bandRects_singleton, length_append,
      Nat.add_sub_cancel]
    rfl
  rw [hflush]
  refine ⟨⟨rfl, by simp, rfl, ?_, by simpa using hspread⟩, rfl⟩
  intro c hc
  rcases mem_append.mp hc with hc | hc
  · exact h.vals c hc
  · rwa [mem_singleton.mp hc]

/-- **Flushing a span pushes it onto the stored bands.** -/
theorem Stores.flushSpan {ras : Rasterizer} {b : Band} (h : Stores ras stored) (hb : b.val ≠ [])
    (hord : OrderedFrom intMin b.val) (hmax : ∀ r ∈ b.val, r.lo < intMax)
    (hspan : ras.span = stripRects b.lo b.hi b.val) :
    Stores ras.flushSpan (push stored b) ∧ ras.flushSpan.span = [] := by
  rcases eq_nil_or_concat' stored with rfl | ⟨pre, q, rfl⟩
  · exact h.flushSpan_append hb hord hmax hspan h.not_merges_nil
  · rw [push_append_singleton, push]
    by_cases hc : q.Continues b
    · rw [if_pos hc]
      exact h.flushSpan_merge hspan hc
    · rw [if_neg hc]
      have hm : ras.merges = false := by
        rw [← Bool.not_eq_true, h.merges_iff hspan]
        exact hc
      simpa using h.flushSpan_append hb hord hmax hspan hm

/-! ## Strip after strip -/

/-- What a strip contributes: nothing, or its coalesced rectangles as a band. -/
def joinSpans (runs : List (Run ℤ Unit)) : Option (List (Run ℤ Unit)) :=
  if runs = [] then none else some (coalesce runs)

/-- A band that can be flushed. -/
structure Flushable (b : Band) : Prop where
  ne_nil : b.val ≠ []
  ordered : OrderedFrom intMin b.val
  max : ∀ r ∈ b.val, r.lo < intMax

/-- Between two strips, `bs` being the bands so far: all but the last have been flushed, and the
last one is the span. -/
inductive Receives : Rasterizer → List Band → Prop
  | nil {ras} (h : Stores ras []) (hspan : ras.span = []) : Receives ras []
  | concat {ras bs b} (h : Stores ras (bs.foldl push [])) (hb : Flushable b)
      (hspan : ras.span = stripRects b.lo b.hi b.val) : Receives ras (bs ++ [b])

/-- What is pending is flushed before a new span starts, and by the destructor. -/
def Rasterizer.flushed (ras : Rasterizer) : Rasterizer :=
  if ras.span.isEmpty then ras else ras.flushSpan

lemma Receives.flushed {ras : Rasterizer} {bs : List Band} (h : Receives ras bs) :
    Stores ras.flushed (coalesce bs) ∧ ras.flushed.span = [] := by
  rw [← foldl_push]
  cases h with
  | nil h hspan =>
    rw [Rasterizer.flushed, hspan]
    exact ⟨h, hspan⟩
  | @concat bs b h hb hspan =>
    have hne : ras.span.isEmpty = false := by
      rw [hspan]
      simpa using hb.ne_nil
    rw [Rasterizer.flushed, hne, foldl_append]
    exact h.flushSpan hb.ne_nil hb.ordered hb.max hspan

variable {rect : Rect}

/-- The first rectangle of a strip flushes the span and starts a new one. -/
lemma Receives.add_first {ras : Rasterizer} {bs : List Band} (h : Receives ras bs)
    (htop : ∀ b ∈ bs.getLast?, b.lo ≠ rect.top) :
    ras.add rect = { ras.flushed with span := [rect] } := by
  have hempty := h.flushed.2
  cases h with
  | nil h hspan => simp [add, Rasterizer.flushed, hspan]
  | @concat bs b h hb hspan =>
    have hne : ras.span ≠ [] := by
      rw [hspan]
      simpa using hb.ne_nil
    have htops : ∀ q ∈ ras.span, q.top = b.lo := by
      rw [hspan]
      intro q hq
      obtain ⟨r, _, rfl⟩ := mem_map.mp hq
      rfl
    have hdiff : (ras.span.getLast hne).top ≠ rect.top := by
      rw [htops _ (getLast_mem hne)]
      exact htop b (by simp)
    have hflushed : ras.flushed = ras.flushSpan := by
      rw [Rasterizer.flushed, isEmpty_eq_false_iff.mpr hne]
      rfl
    rw [hflushed] at hempty ⊢
    simp [add, getLast?_eq_some_getLast hne, if_pos hdiff, hempty]

/-- **A strip is received as one coalesced band.** -/
lemma Receives.addStrip {ras : Rasterizer} {bs : List Band} (h : Receives ras bs) {s : Band}
    (hs : Flushable s) (htop : ∀ b ∈ bs.getLast?, b.lo ≠ s.lo) :
    Receives ((stripRects s.lo s.hi s.val).foldl add ras)
      (bs ++ [⟨s.lo, s.hi, coalesce s.val⟩]) := by
  obtain ⟨hstores, _⟩ := h.flushed
  have hflush : Flushable ⟨s.lo, s.hi, coalesce s.val⟩ := by
    refine ⟨mt coalesce_eq_nil.mp hs.ne_nil, hs.ordered.coalesce, ?_⟩
    intro r hr
    obtain ⟨q, hq, hlo, _⟩ := exists_of_mem_coalesce hr
    exact hlo ▸ hs.max q hq
  obtain ⟨lo, hi, runs⟩ := s
  obtain ⟨r, rs, rfl⟩ := exists_cons_of_ne_nil hs.ne_nil
  have hfold := foldl_add_span lo hi rs [r]
    { ras.flushed with span := [⟨r.lo, lo, r.hi, hi⟩] } (by simp) rfl
  rw [← foldl_push] at hflush ⊢
  rw [stripRects, map_cons, foldl_cons, h.add_first htop]
  rw [← foldl_push] at hstores
  refine .concat (b := ⟨lo, hi, rs.foldl push [r]⟩) ?_ hflush ?_
  · rw [← stripRects, hfold]
    exact ⟨hstores.storage, hstores.head, hstores.tail, hstores.vals, hstores.spread⟩
  · rw [← stripRects, hfold]

/-- **Streaming strips through the rasterizer.** -/
theorem Receives.foldl_add : ∀ {strips : List Band} {ras : Rasterizer} {bs : List Band} {p : ℤ},
    Receives ras bs → OrderedFrom p strips → (∀ b ∈ bs.getLast?, b.lo < p) →
    (∀ s ∈ strips, s.val ≠ [] → Flushable s) →
    Receives ((bandRects strips).foldl add ras) (bs ++ filterVals joinSpans strips) := by
  intro strips
  induction strips with
  | nil =>
    intro ras bs p h _ _ _
    simpa [filterVals] using h
  | cons s strips ih =>
    intro ras bs p h hord hlast hflush
    obtain ⟨hlo, hlt, hrest⟩ := hord
    have hflush' := fun c hc => hflush c (mem_cons_of_mem s hc)
    have hsplit : bandRects (s :: strips) = stripRects s.lo s.hi s.val ++ bandRects strips := rfl
    rw [hsplit, filterVals, joinSpans]
    by_cases hs : s.val = []
    · rw [hs]
      refine ih h hrest ?_ hflush'
      intro b hb
      exact lt_of_lt_of_le (hlast b hb) (hlo.trans hlt.le)
    · rw [if_neg hs]
      have hadd := h.addStrip (hflush s mem_cons_self hs)
        fun b hb => ne_of_lt (lt_of_lt_of_le (hlast b hb) hlo)
      simpa using ih hadd hrest (by simpa using hlt) hflush'

/-! ## The destructor -/

lemma mem_bandRects {bs : List Band} : rect ∈ bandRects bs ↔
    ∃ b ∈ bs, ∃ r ∈ b.val, (⟨r.lo, b.lo, r.hi, b.hi⟩ : Rect) = rect := by
  simp

lemma bandRects_eq_nil {bs : List Band} (h : ∀ b ∈ bs, b.val ≠ []) : bandRects bs = [] ↔ bs = [] := by
  cases bs with
  | nil => simp
  | cons b bs =>
    have := h b mem_cons_self
    simp [this]

/-- The first and the last rectangle are in the first and the last band. -/
lemma ends_bandRects {bs : List Band} (h : ∀ b ∈ bs, b.val ≠ []) (hne : bandRects bs ≠ [])
    (hne' : bs ≠ []) : ((bandRects bs).head hne).top = (bs.head hne').lo ∧
      ((bandRects bs).getLast hne).bottom = (bs.getLast hne').hi := by
  refine ⟨?_, ?_⟩
  · obtain ⟨b, bs, rfl⟩ := exists_cons_of_ne_nil hne'
    obtain ⟨r, rs, hr⟩ := exists_cons_of_ne_nil (h b mem_cons_self)
    simp [hr]
  · obtain ⟨bs, b, rfl⟩ := (eq_nil_or_concat' bs).resolve_left hne'
    obtain ⟨rs, r, hr⟩ := (eq_nil_or_concat' b.val).resolve_left (h b (by simp))
    simp [hr]

/-- The bounds the destructor settles are the bounding box. -/
lemma Stores.isBox {ras : Rasterizer} (h : Stores ras stored) {p : ℤ} (hord : OrderedFrom p stored)
    (hne : stored ≠ []) :
    IsBox (bandRects stored) { ras.bounds with
      top := (stored.head hne).lo, bottom := (stored.getLast hne).hi } := by
  have hmap : stored.map Run.val ≠ [] := by simpa using hne
  have hmem : ∀ b ∈ stored, ∃ rect ∈ bandRects stored, rect.top = b.lo ∧ rect.bottom = b.hi := by
    intro b hb
    obtain ⟨r, rs, hr⟩ := exists_cons_of_ne_nil (h.vals b hb)
    exact ⟨_, mem_bandRects.mpr ⟨b, hb, r, by simp [hr], rfl⟩, rfl, rfl⟩
  refine ⟨?_, ?_, ?_, ?_, ?_⟩
  · intro rect hrect
    obtain ⟨b, hb, r, hr, rfl⟩ := mem_bandRects.mp hrect
    refine ⟨h.spread.inside b.val (mem_map_of_mem hb) r hr, ?_, hord.hi_le_getLast hne hb⟩
    obtain ⟨c, cs, rfl⟩ := exists_cons_of_ne_nil hne
    have hc : OrderedFrom c.lo (c :: cs) := ⟨le_rfl, hord.2.1, hord.2.2⟩
    exact (hc.of_mem hb).1
  · obtain ⟨v, hv, r, hr, heq⟩ := h.spread.left hmap
    obtain ⟨b, hb, rfl⟩ := mem_map.mp hv
    exact ⟨_, mem_bandRects.mpr ⟨b, hb, r, hr, rfl⟩, heq⟩
  · obtain ⟨v, hv, r, hr, heq⟩ := h.spread.right hmap
    obtain ⟨b, hb, rfl⟩ := mem_map.mp hv
    exact ⟨_, mem_bandRects.mpr ⟨b, hb, r, hr, rfl⟩, heq⟩
  · obtain ⟨rect, hrect, htop, _⟩ := hmem _ (head_mem hne)
    exact ⟨rect, hrect, htop⟩
  · obtain ⟨rect, hrect, _, hbottom⟩ := hmem _ (getLast_mem hne)
    exact ⟨rect, hrect, hbottom⟩

/-- `reg` is the region of the bands `stored`: its bounds are their bounding box, and a single
rectangle is kept in the bounds only. -/
structure Region.HasBands (reg : Region) (stored : List Band) : Prop where
  vals : ∀ b ∈ stored, b.val ≠ []
  storage : reg.mStorage = if (bandRects stored).length = 1 then [] else bandRects stored
  zero : stored = [] → reg.mBounds = Rect.zero
  isBox : stored ≠ [] → IsBox (bandRects stored) reg.mBounds

/-- **The destructor leaves the region of the coalesced strips.** -/
theorem Receives.finish {ras : Rasterizer} {bs : List Band} {p : ℤ} (h : Receives ras bs)
    (hord : OrderedFrom p bs) : ras.finish.HasBands (coalesce bs) := by
  obtain ⟨hst, _⟩ := h.flushed
  by_cases hne : coalesce bs = []
  · rw [hne] at hst ⊢
    have hfin : ras.finish = ⟨Rect.zero, []⟩ := by
      have hnil : ras.flushed.storage = [] := hst.storage
      rw [Rasterizer.finish, ← Rasterizer.flushed]
      simp only [hnil, hst.spread.nil rfl]
      rfl
    rw [hfin]
    exact ⟨by simp, by simp, fun _ => rfl, fun h => absurd rfl h⟩
  · have hrects : bandRects (coalesce bs) ≠ [] := mt (bandRects_eq_nil hst.vals).mp hne
    obtain ⟨htop, hbottom⟩ := ends_bandRects hst.vals hrects hne
    have hbox := hst.isBox hord.coalesce hne
    rw [← htop, ← hbottom] at hbox
    have hfin : ras.finish = ⟨{ ras.flushed.bounds with
        top := ((bandRects (coalesce bs)).head hrects).top
        bottom := ((bandRects (coalesce bs)).getLast hrects).bottom },
        if (bandRects (coalesce bs)).length = 1 then [] else bandRects (coalesce bs)⟩ := by
      rw [Rasterizer.finish, ← Rasterizer.flushed]
      simp only [hst.storage]
      generalize hl : bandRects (coalesce bs) = l at hrects
      obtain ⟨r, rs, rfl⟩ := exists_cons_of_ne_nil hrects
      simp only [head_cons]
      split_ifs <;> rfl
    rw [hfin]
    exact ⟨hst.vals, rfl, fun h => absurd h hne, fun _ => hbox⟩

end Droid
