import DroidPlatform.Core.RingEvents
import DroidPlatform.Lk.DualCache

/-!
# The hand-over of the two caches

The caches are used in turn: `Handover` counts the uses.  The reader has published the uses below
`p`, with the contents `pub`, and the writer has released those below `c`.  The events say exactly
which uses are on their way between the two: of `content_available`, those published that the
writer has not taken; of `cache_available`, the releases that the reader has not taken, which are two
ahead.

Everything else follows from that.  A cache that is published and not released holds what was
published; what was published, in order, is what has been received; what has been stored is the
beginning of it; and the empty contents that mark the end come last.
-/

namespace Droid.Lk

open List Function Nat Memory

/-! ## Addresses -/

lemma cache_shift_mod (n : ℕ) : cache_shift (n % 2) = (n + 1) % 2 := by
  rcases mod_two_eq_zero_or_one n with h | h
  · rw [h, show (n + 1) % 2 = 1 by omega]
    rfl
  · rw [h, show (n + 1) % 2 = 0 by omega]
    rfl

variable {i j n : ℕ}

/-- Receiving into one cache does not touch the other, nor its padding. -/
lemma cache_apart (page : ℕ) {off : ℕ} (hi : i < 2) (hj : j < 2) (hij : i ≠ j)
    (hfit : off + n ≤ page) :
    cache_buf page j + page ≤ cache_buf page i + off ∨
      cache_buf page i + off + n ≤ padding_buf page j := by
  simp only [cache_buf, padding_buf]
  interval_cases i <;> interval_cases j <;> omega

/-- What is put in front of one cache does not touch the contents of either. -/
lemma padding_apart (page : ℕ) (hi : i < 2) (hj : j < 2) (hfit : n ≤ CACHE_PADDING_SIZE) :
    cache_buf page j + page ≤ padding_buf page i + (CACHE_PADDING_SIZE - n) ∨
      padding_buf page i + (CACHE_PADDING_SIZE - n) + n ≤ cache_buf page j := by
  simp only [cache_buf, padding_buf] at *
  interval_cases i <;> interval_cases j <;> omega

/-- What is put in front of one cache does not touch the other, nor its padding. -/
lemma padding_behind (page : ℕ) (hi : i < 2) (hj : j < 2) (hij : i ≠ j)
    (hfit : n ≤ CACHE_PADDING_SIZE) :
    cache_buf page j + page ≤ padding_buf page i + (CACHE_PADDING_SIZE - n) ∨
      padding_buf page i + (CACHE_PADDING_SIZE - n) + n ≤ padding_buf page j := by
  simp only [cache_buf, padding_buf] at *
  interval_cases i <;> interval_cases j <;> omega

/-! ## The invariant -/

/-- 1 while the reader has taken a cache and not published it. -/
@[simp] def ReadPc.holding : ReadPc → ℕ
  | .checkError | .reading | .setLength | .signal | .clearLast | .signalLast => 1
  | _ => 0

lemma ReadPc.ne_returned {pc : ReadPc} (hholds : pc.holding = 1) : pc ≠ .returned true := by
  rintro rfl
  cases hholds

/-- 1 while the writer has taken a cache and not released it; the last one it keeps. -/
@[simp] def WritePc.holding : WritePc → ℕ
  | .waitContent => 0
  | _ => 1

/-- 1 once the cache that the writer holds has been stored. -/
@[simp] def WritePc.stored : WritePc → ℕ
  | .waitContent | .checkError | .security | .write => 0
  | _ => 1

lemma WritePc.stored_le (w : WritePc) : w.stored ≤ w.holding := by
  cases w <;> simp

/-- The writer has seen the end. -/
@[simp] def WritePc.ending : WritePc → Bool
  | .endFirst | .endSecond | .endThread | .returned _ => true
  | _ => false

/-- The bytes received in caches that are published. -/
@[simp] def Reader.published (r : Reader) : ℕ :=
  if r.pc = .signal then r.bytes_already_read - r.bytes_read else r.bytes_already_read

/-- What the reader knows, and has put into the cache of the use `p`. -/
def ReaderOk (page data_length : ℕ) (input : Memory) (ctx : EngineContext) (p : ℕ) (r : Reader) :
    Prop :=
  match r.pc with
  | .waitCache | .checkError => r.bytes_already_read < data_length
  | .reading => r.bytes_read + r.bytes_left ≤ page ∧
      r.bytes_already_read + r.bytes_read + r.bytes_left ≤ data_length ∧
      0 < r.bytes_read + r.bytes_left ∧
      ctx.memory.Holds (cache_buf page (p % 2)) (input.slice r.bytes_already_read r.bytes_read)
  | .setLength => 0 < r.bytes_read ∧ r.bytes_read ≤ page ∧
      r.bytes_already_read + r.bytes_read ≤ data_length ∧
      ctx.memory.Holds (cache_buf page (p % 2)) (input.slice r.bytes_already_read r.bytes_read)
  | .signal => 0 < r.bytes_read ∧ r.bytes_read ≤ page ∧ r.bytes_read ≤ r.bytes_already_read ∧
      r.bytes_already_read ≤ data_length ∧ ctx.content_length (p % 2) = r.bytes_read ∧
      ctx.memory.Holds (cache_buf page (p % 2))
        (input.slice (r.bytes_already_read - r.bytes_read) r.bytes_read)
  | .waitLast | .clearLast | .returned true => r.bytes_already_read = data_length
  | .signalLast => r.bytes_already_read = data_length ∧ ctx.content_length (p % 2) = 0
  | .error | .returned false => False

/-- What the writer knows of the contents it holds. -/
def WriterOk (content : List UInt8) : WritePc → Prop
  | .release => content ≠ []
  | .endFirst | .endSecond | .endThread => content = []
  | .returned code => content = [] ∧ code = 0
  | .error => False
  | _ => True

structure Handover (page data_length : ℕ) (input : Memory) (s : Download) (p c : ℕ)
    (pub : ℕ → List UInt8) : Prop where
  flipW : s.reader.pc ≠ .returned true → s.ctx.flipIdxW = p % 2
  flipR : s.ctx.flipIdxR = c % 2
  noError : s.ctx.b_error = false
  content : Signalled 2 s.ctx.content_available (c + s.writer.holding) p
  cache : s.writer.ending = false →
    Signalled 2 s.ctx.cache_available (p + s.reader.pc.holding) (c + 2)
  full : ∀ j, c ≤ j → j < p → s.ctx.content_length (j % 2) = (pub j).length ∧
    s.ctx.memory.Holds (cache_buf page (j % 2)) (pub j) ∧ (pub j).length ≤ page
  consumed : s.consumed = (List.range (c + s.writer.stored)).flatMap pub
  received : (List.range p).flatMap pub = input.slice 0 s.reader.published
  marker : ∀ j < p, pub j = [] → j + 1 = p ∧ s.reader.pc = .returned true
  marked : s.reader.pc = .returned true → ∃ j, p = j + 1 ∧ pub j = []
  released : ∀ j < c, pub j ≠ []
  reader : ReaderOk page data_length input s.ctx p s.reader
  writer : WriterOk (pub c) s.writer

namespace Handover

variable {page data_length : ℕ} {input : Memory} {s : Download} {p c : ℕ} {pub : ℕ → List UInt8}
  {r : Reader} {t : Download} {w : WritePc} {m : Memory}

section

variable (h : Handover page data_length input s p c pub)

include h

/-- A writer that has seen the end has the last cache, and the reader has returned. -/
lemma of_ending (hend : s.writer.ending = true) : p = c + 1 ∧ s.reader.pc = .returned true := by
  have hwriter := h.writer
  have hle := h.content.le
  have hfacts : pub c = [] ∧ s.writer.holding = 1 := by
    cases hpc : s.writer <;> simp_all [WriterOk]
  have hmark := h.marker c (by omega) hfacts.1
  exact ⟨hmark.1.symm, hmark.2⟩

/-- While the reader has something to do, it is at most two uses ahead. -/
lemma reader_ahead (hpc : s.reader.pc ≠ .returned true) :
    s.writer.ending = false ∧ p + s.reader.pc.holding ≤ c + 2 := by
  have hend : s.writer.ending = false := by
    by_contra hend
    exact hpc (h.of_ending (by simpa using hend)).2
  exact ⟨hend, (h.cache hend).le⟩

/-- A cache that the writer holds is not the one that the reader is filling. -/
lemma apart (hread : s.reader.pc.holding = 1) (hc : c ≤ j) (hp : j < p) : j % 2 ≠ p % 2 := by
  have hahead := (h.reader_ahead (ReadPc.ne_returned hread)).2
  omega

/-! ## The reader -/

/-- A turn in which the reader only computes: it keeps the cache it holds, if it holds one. -/
lemma reader_local (hholds : r.pc.holding = s.reader.pc.holding)
    (hpub : r.published = s.reader.published) (hret : s.reader.pc ≠ .returned true)
    (hret' : r.pc ≠ .returned true) (hok : ReaderOk page data_length input s.ctx p r) :
    Handover page data_length input { s with reader := r } p c pub :=
  { h with
    flipW := fun _ => h.flipW hret
    cache := fun hend => by
      have hcache := h.cache hend
      rw [← hholds] at hcache
      exact hcache
    received := by
      rw [h.received]
      exact congrArg _ hpub.symm
    marker := fun j hj hnil => absurd (h.marker j hj hnil).2 hret
    marked := fun heq => absurd heq hret'
    reader := hok }

/-- The reader waits for a cache. -/
lemma reader_wait {pc : ReadPc} (hfree : s.reader.pc.holding = 0) (hheld : pc.holding = 1)
    (hpub : s.reader.published = s.reader.bytes_already_read) (hpc : pc ≠ .signal)
    (hret : s.reader.pc ≠ .returned true) (hev : s.ctx.cache_available s.ctx.flipIdxW = true)
    (hok : ReaderOk page data_length input s.ctx p { s.reader with pc := pc }) :
    Handover page data_length input
      { s with ctx := s.ctx.takeCache s.ctx.flipIdxW, reader := { s.reader with pc := pc } }
      p c pub := by
  have hret' := ReadPc.ne_returned hheld
  have hflip := h.flipW hret
  refine { h with
    flipW := fun _ => hflip
    cache := fun hend => ?_
    received := ?_
    marker := fun j hj hnil => absurd (h.marker j hj hnil).2 hret
    marked := fun heq => absurd heq hret'
    reader := hok }
  · have hcache := h.cache hend
    rw [hfree] at hcache
    rw [hflip] at hev ⊢
    rw [hheld]
    exact hcache.wait (by decide) hev
  · rw [h.received, hpub]
    simp [hpc]

/-- The reader receives `n` bytes. -/
lemma reader_receive (hpc : s.reader.pc = .reading) (hn : n ≤ s.reader.bytes_left)
    (hm : m = s.ctx.memory.write (cache_buf page s.ctx.flipIdxW + s.reader.bytes_read)
      (input.slice (s.reader.bytes_already_read + s.reader.bytes_read) n)) :
    Handover page data_length input
      { s with
        ctx := { s.ctx with memory := m }
        reader := { s.reader with
          bytes_left := s.reader.bytes_left - n
          bytes_read := s.reader.bytes_read + n } } p c pub := by
  have hret : s.reader.pc ≠ .returned true := by simp [hpc]
  have hflip := h.flipW hret
  have hok := h.reader
  simp only [ReaderOk, hpc] at hok
  obtain ⟨hfit, hlen, hpos, hholds⟩ := hok
  rw [hflip] at hm
  refine { h with
    flipW := fun _ => hflip
    full := ?_
    received := ?_
    marker := fun j hj hnil => absurd (h.marker j hj hnil).2 hret
    marked := fun heq => absurd heq hret
    reader := ?_ }
  · -- the bytes go to the cache of the use `p`
    intro j hcj hjp
    obtain ⟨hlength, hfull, hpage⟩ := h.full j hcj hjp
    refine ⟨hlength, ?_, hpage⟩
    rw [hm]
    refine hfull.write ?_
    rw [length_slice]
    have hne := h.apart (by simp [hpc]) hcj hjp
    have hroom : s.reader.bytes_read + n ≤ page := by omega
    have hapart := cache_apart page (mod_lt p two_pos) (mod_lt j two_pos) (symm hne) hroom
    simp only [cache_buf] at hapart ⊢
    omega
  · rw [h.received]
    simp [hpc]
  · simp only [ReaderOk, hpc]
    refine ⟨by omega, by omega, by omega, ?_⟩
    rw [slice_add, holds_append, hm]
    refine ⟨hholds.write (.inl ?_), ?_⟩
    · rw [length_slice]
    · rw [length_slice]
      exact holds_write

/-- The reader records a length in the cache it holds. -/
lemma reader_setLength (hholds : s.reader.pc.holding = 1) (hholds' : r.pc.holding = 1)
    (hpub : r.published = s.reader.published)
    (hok : ReaderOk page data_length input (s.ctx.setLength (p % 2) n) p r) :
    Handover page data_length input
      { s with ctx := s.ctx.setLength s.ctx.flipIdxW n, reader := r } p c pub := by
  have hret := ReadPc.ne_returned hholds
  have hret' := ReadPc.ne_returned hholds'
  have hflip := h.flipW hret
  refine { h with
    flipW := fun _ => hflip
    cache := fun hend => ?_
    full := ?_
    received := ?_
    marker := fun j hj hnil => absurd (h.marker j hj hnil).2 hret
    marked := fun heq => absurd heq hret'
    reader := ?_ }
  · have hcache := h.cache hend
    rw [hholds, ← hholds'] at hcache
    exact hcache
  · intro j hcj hjp
    have hne := h.apart hholds hcj hjp
    obtain ⟨hlength, hfull⟩ := h.full j hcj hjp
    refine ⟨?_, hfull⟩
    rw [← hlength, hflip]
    exact update_of_ne hne _ _
  · rw [h.received]
    exact congrArg _ hpub.symm
  · rw [hflip]
    exact hok

/-- **The reader publishes the cache it holds.** -/
lemma reader_signal (flip : ℕ) {bytes : List UInt8} (hholds : s.reader.pc.holding = 1)
    (hholds' : r.pc.holding = 0) (hflip : r.pc ≠ .returned true → flip = (p + 1) % 2)
    (hlength : s.ctx.content_length (p % 2) = bytes.length)
    (hmemory : s.ctx.memory.Holds (cache_buf page (p % 2)) bytes) (hpage : bytes.length ≤ page)
    (hreceived : input.slice 0 s.reader.published ++ bytes = input.slice 0 r.published)
    (hlast : bytes = [] ↔ r.pc = .returned true)
    (hok : ReaderOk page data_length input s.ctx (p + 1) r) :
    Handover page data_length input
      { s with ctx := { s.ctx.signalContent s.ctx.flipIdxW with flipIdxW := flip }, reader := r }
      (p + 1) c (update pub p bytes) := by
  have hret := ReadPc.ne_returned hholds
  obtain ⟨hend, hahead⟩ := h.reader_ahead hret
  have hle := h.content.le
  have hold : ∀ j < p, update pub p bytes j = pub j := fun j hj =>
    update_of_ne hj.ne _ _
  have hpast : ∀ n ≤ p, (range n).flatMap (update pub p bytes) =
      (range n).flatMap pub := by
    intro n hn
    refine flatMap_congr fun j hj => hold j ?_
    exact (mem_range.mp hj).trans_le hn
  refine {
    flipW := hflip
    flipR := h.flipR
    noError := h.noError
    content := ?_
    cache := fun hend => ?_
    full := ?_
    consumed := ?_
    received := ?_
    marker := ?_
    marked := ?_
    released := ?_
    reader := ?_
    writer := ?_ }
  · show Signalled 2 (update s.ctx.content_available s.ctx.flipIdxW true)
      (c + s.writer.holding) (p + 1)
    rw [h.flipW hret]
    refine h.content.signal ?_
    omega
  · have hcache := h.cache hend
    rw [hholds] at hcache
    rw [hholds']
    exact hcache
  · intro j hcj hjp
    rcases Nat.lt_succ_iff_lt_or_eq.mp hjp with hlt | rfl
    · rw [hold j hlt]
      exact h.full j hcj hlt
    · rw [update_self]
      exact ⟨hlength, hmemory, hpage⟩
  · show s.consumed = _
    rw [h.consumed]
    refine (hpast _ ?_).symm
    have := s.writer.stored_le
    omega
  · rw [range_succ, flatMap_append, hpast p le_rfl, h.received, flatMap_singleton,
      update_self]
    exact hreceived
  · intro j hjp hnil
    rcases Nat.lt_succ_iff_lt_or_eq.mp hjp with hlt | rfl
    · rw [hold j hlt] at hnil
      exact absurd (h.marker j hlt hnil).2 hret
    · rw [update_self] at hnil
      exact ⟨rfl, hlast.mp hnil⟩
  · intro heq
    exact ⟨p, rfl, by rw [update_self]; exact hlast.mpr heq⟩
  · intro j hjc
    rw [hold j (by omega)]
    exact h.released j hjc
  · exact hok
  · show WriterOk (update pub p bytes c) s.writer
    rcases lt_or_ge c p with hcp | hpc
    · rw [hold c hcp]
      exact h.writer
    · -- nothing is published: the writer waits
      have hwait : s.writer = .waitContent := by
        cases hw : s.writer <;> simp_all <;> omega
      rw [hwait]
      trivial

/-- **A turn of the reader.** -/
lemma reader_step (hpage : 0 < page)
    (hstep : read_usb_proc page data_length input s (some n) = some t) :
    ∃ p' pub', Handover page data_length input t p' c pub' := by
  have hok := h.reader
  simp only [ReaderOk] at hok
  simp only [read_usb_proc] at hstep
  cases hpc : s.reader.pc <;> simp only [hpc] at hok hstep
  case waitCache =>
    split at hstep
    case isFalse => cases hstep
    case isTrue hev =>
    cases hstep
    refine ⟨p, pub, h.reader_wait ?_ rfl ?_ (by simp) ?_ hev hok⟩
    · simp [hpc]
    · simp [hpc]
    · simp [hpc]
  case checkError =>
    simp only [h.noError] at hstep
    cases hstep
    refine ⟨p, pub, h.reader_local ?_ ?_ (by simp [hpc]) (by simp) ?_⟩
    · simp [hpc]
    · simp [hpc]
    · simp only [ReaderOk]
      split <;> exact ⟨by omega, by omega, by omega, holds_nil⟩
  case reading =>
    split at hstep
    case isTrue =>
      split at hstep
      case isFalse => cases hstep
      case isTrue hn =>
      cases hstep
      exact ⟨p, pub, hpc ▸ h.reader_receive hpc hn rfl⟩
    case isFalse hleft =>
      cases hstep
      refine ⟨p, pub, h.reader_local ?_ ?_ (by simp [hpc]) (by simp) ?_⟩
      · simp [hpc]
      · simp [hpc]
      · simp only [ReaderOk]
        exact ⟨by omega, by omega, by omega, hok.2.2.2⟩
  case setLength =>
    cases hstep
    obtain ⟨hpos, hfit, hlen, hholds⟩ := hok
    refine ⟨p, pub, h.reader_setLength ?_ rfl ?_ ?_⟩
    · simp [hpc]
    · simp [hpc]
    · simp only [ReaderOk, EngineContext.setLength, update_self, Nat.add_sub_cancel]
      exact ⟨hpos, hfit, by omega, hlen, trivial, hholds⟩
  case signal =>
    obtain ⟨hpos, hfit, hle, hlen, hlength, hholds⟩ := hok
    have hflip : cache_shift s.ctx.flipIdxW = (p + 1) % 2 := by
      rw [h.flipW (by simp [hpc]), cache_shift_mod]
    have hpub : s.reader.published = s.reader.bytes_already_read - s.reader.bytes_read := by
      simp [hpc]
    have hbytes : input.slice (s.reader.bytes_already_read - s.reader.bytes_read)
        s.reader.bytes_read ≠ [] := by
      intro hnil
      have := congrArg length hnil
      rw [length_slice, length_nil] at this
      omega
    have hsplit : input.slice 0 s.reader.published ++
        input.slice (s.reader.bytes_already_read - s.reader.bytes_read) s.reader.bytes_read =
        input.slice 0 s.reader.bytes_already_read := by
      obtain ⟨k, hk⟩ := Nat.exists_eq_add_of_le' hle
      rw [hpub, hk, Nat.add_sub_cancel, slice_add, zero_add]
    -- whether there is more to come decides where the reader goes
    have hpublish : ∀ pc, pc = .waitCache ∨ pc = .waitLast →
        ReaderOk page data_length input s.ctx (p + 1) { s.reader with pc := pc } →
        Handover page data_length input
          { s with
            ctx := { s.ctx.signalContent s.ctx.flipIdxW with
              flipIdxW := cache_shift s.ctx.flipIdxW }
            reader := { s.reader with pc := pc } } (p + 1) c
          (update pub p (input.slice (s.reader.bytes_already_read - s.reader.bytes_read)
            s.reader.bytes_read)) := by
      intro pc hpc' hok'
      have hkind : pc.holding = 0 ∧ pc ≠ .signal ∧ pc ≠ .returned true := by
        rcases hpc' with rfl | rfl <;> simp
      refine h.reader_signal _ (by simp [hpc]) hkind.1 (fun _ => hflip) ?_ hholds
        ?_ ?_ ?_ hok'
      · rw [length_slice, hlength]
      · rw [length_slice]
        exact hfit
      · rw [hsplit]
        simp [hkind.2.1]
      · simp [hbytes, hkind.2.2]
    split at hstep
    case isTrue hmore =>
      cases hstep
      exact ⟨p + 1, _, hpublish .waitCache (.inl rfl) hmore⟩
    case isFalse hall =>
      split at hstep
      case isFalse => cases hstep
      case isTrue heq =>
      cases hstep
      exact ⟨p + 1, _, hpublish .waitLast (.inr rfl) heq⟩
  case waitLast =>
    split at hstep
    case isFalse => cases hstep
    case isTrue hev =>
    cases hstep
    refine ⟨p, pub, h.reader_wait ?_ rfl ?_ (by simp) ?_ hev hok⟩
    · simp [hpc]
    · simp [hpc]
    · simp [hpc]
  case clearLast =>
    cases hstep
    refine ⟨p, pub, h.reader_setLength ?_ rfl ?_ ?_⟩
    · simp [hpc]
    · simp [hpc]
    · simp only [ReaderOk, EngineContext.setLength, update_self]
      exact ⟨hok, trivial⟩
  case signalLast =>
    cases hstep
    refine ⟨p + 1, update pub p [], h.reader_signal s.ctx.flipIdxW ?_ rfl
      (by simp) hok.2 holds_nil (zero_le _) ?_ (by simp) hok.1⟩
    · simp [hpc]
    · simp [hpc]
  case returned ok => cases hstep

/-! ## The writer -/

/-- The contents that the writer holds. -/
lemma held (hholds : s.writer.holding = 1) :
    c < p ∧ s.ctx.content_length s.ctx.flipIdxR = (pub c).length ∧
      s.ctx.memory.slice (cache_buf page s.ctx.flipIdxR) (s.ctx.content_length s.ctx.flipIdxR) =
        pub c := by
  have hle := h.content.le
  have hcp : c < p := by omega
  obtain ⟨hlength, hmemory, -⟩ := h.full c le_rfl hcp
  rw [h.flipR]
  exact ⟨hcp, hlength, hmemory.slice_eq hlength⟩

/-- A turn in which the writer keeps the cache it holds and stores nothing. -/
lemma writer_local (hholds : w.holding = s.writer.holding) (hstored : w.stored = s.writer.stored)
    (hend : w.ending = false → s.writer.ending = false) (hok : WriterOk (pub c) w) :
    Handover page data_length input { s with writer := w } p c pub :=
  { h with
    content := by
      have hcontent := h.content
      rw [← hholds] at hcontent
      exact hcontent
    cache := fun hw => h.cache (hend hw)
    consumed := by
      rw [h.consumed]
      exact congrArg (fun n => (range (c + n)).flatMap pub) hstored.symm
    writer := hok }

lemma writer_take (hpc : s.writer = .waitContent)
    (hev : s.ctx.content_available s.ctx.flipIdxR = true) :
    Handover page data_length input
      { s with ctx := s.ctx.takeContent s.ctx.flipIdxR, writer := .checkError } p c pub :=
  { h with
    content := by
      have hcontent := h.content
      rw [hpc] at hcontent
      rw [h.flipR] at hev ⊢
      exact hcontent.wait (by decide) hev
    cache := fun _ => h.cache (by rw [hpc]; rfl)
    consumed := by rw [h.consumed, hpc]; rfl
    writer := trivial }

/-- **The writer stores the cache it holds.**  The room in front of the other cache may change. -/
lemma writer_store (padding_length : ℕ → ℕ) (hholds : s.writer.holding = 1)
    (hstored : s.writer.stored = 0)
    (hm : ∀ j, ∀ bytes : List UInt8, bytes.length ≤ page →
      s.ctx.memory.Holds (cache_buf page (j % 2)) bytes → m.Holds (cache_buf page (j % 2)) bytes) :
    Handover page data_length input
      { s with
        ctx := { s.ctx with memory := m, padding_length := padding_length }
        consumed := s.consumed ++ pub c
        writer := .test } p c pub := by
  have hend : s.writer.ending = false := by
    cases hw : s.writer <;> simp_all
  refine { h with
    content := ?_
    cache := fun _ => h.cache hend
    full := ?_
    consumed := ?_
    reader := ?_
    writer := trivial }
  · have hcontent := h.content
    rw [hholds] at hcontent
    exact hcontent
  · intro j hcj hjp
    obtain ⟨hlength, hmemory, hpage⟩ := h.full j hcj hjp
    exact ⟨hlength, hm j _ hpage hmemory, hpage⟩
  · show s.consumed ++ pub c = _
    rw [h.consumed, hstored, add_zero]
    show _ = (range (c + 1)).flatMap pub
    rw [range_succ, flatMap_append, flatMap_singleton]
  · -- what the reader has put into its cache is still there
    have hok := h.reader
    cases hpc : s.reader.pc with
    | reading =>
      simp only [ReaderOk, hpc] at hok ⊢
      refine ⟨hok.1, hok.2.1, hok.2.2.1, hm p _ ?_ hok.2.2.2⟩
      rw [length_slice]
      omega
    | setLength =>
      simp only [ReaderOk, hpc] at hok ⊢
      refine ⟨hok.1, hok.2.1, hok.2.2.1, hm p _ ?_ hok.2.2.2⟩
      rw [length_slice]
      exact hok.2.1
    | signal =>
      simp only [ReaderOk, hpc] at hok ⊢
      refine ⟨hok.1, hok.2.1, hok.2.2.1, hok.2.2.2.1, hok.2.2.2.2.1, hm p _ ?_ hok.2.2.2.2.2⟩
      rw [length_slice]
      exact hok.2.1
    | error => simp [ReaderOk, hpc] at hok
    | returned ok =>
      cases ok with
      | false => simp [ReaderOk, hpc] at hok
      | true =>
        simp only [ReaderOk, hpc] at hok ⊢
        exact hok
    | _ =>
      simp only [ReaderOk, hpc] at hok ⊢
      exact hok

/-- **The writer releases the cache it holds.** -/
lemma writer_release (hpc : s.writer = .release) :
    Handover page data_length input
      { s with
        ctx := { s.ctx.signalCache s.ctx.flipIdxR with flipIdxR := cache_shift s.ctx.flipIdxR }
        writer := .waitContent } p (c + 1) pub := by
  have hok := h.writer
  rw [hpc] at hok
  have hcontent := h.content
  rw [hpc] at hcontent
  have hle := hcontent.le
  simp only [WritePc.holding] at hle
  refine { h with
    flipR := ?_
    content := hcontent
    cache := fun _ => ?_
    full := fun j hcj hjp => h.full j (by omega) hjp
    consumed := ?_
    released := ?_
    writer := trivial }
  · show cache_shift s.ctx.flipIdxR = (c + 1) % 2
    rw [h.flipR, cache_shift_mod]
  · have hcache := h.cache (by rw [hpc]; rfl)
    rw [h.flipR, ← add_mod_right c 2]
    refine hcache.signal ?_
    omega
  · show s.consumed = _
    rw [h.consumed, hpc]
    rfl
  · intro j hj
    rcases Nat.lt_succ_iff_lt_or_eq.mp hj with hlt | rfl
    · exact h.released j hlt
    · exact hok

/-- The writer has seen the end, and tells. -/
lemma writer_end {cache_available : ℕ → Bool} {thr_end_ev : Bool} (hend : s.writer.ending = true)
    (hend' : w.ending = true) (hok : WriterOk (pub c) w) :
    Handover page data_length input
      { s with
        ctx := { s.ctx with cache_available := cache_available, thr_end_ev := thr_end_ev }
        writer := w } p c pub := by
  have hkind : ∀ w : WritePc, w.ending = true → w.holding = 1 ∧ w.stored = 1 := by
    intro w hw
    cases w <;> simp_all
  refine { h with
    content := ?_
    cache := fun hw => ?_
    consumed := ?_
    writer := hok }
  · have hcontent := h.content
    rw [(hkind _ hend).1, ← (hkind _ hend').1] at hcontent
    exact hcontent
  · rw [show w.ending = false from hw] at hend'
    cases hend'
  · show s.consumed = (range (c + w.stored)).flatMap pub
    rw [h.consumed, (hkind _ hend).2, (hkind _ hend').2]

/-- **A turn of the writer.** -/
lemma writer_step {stored : Stored} (hgood : (Move.writer true stored).Good)
    (hstep : write_storage_proc page s true stored = some t) :
    ∃ c', Handover page data_length input t p c' pub := by
  have hok := h.writer
  simp only [write_storage_proc] at hstep
  cases hpc : s.writer <;> rw [hpc] at hok <;> simp only [hpc] at hstep
  case waitContent =>
    split at hstep
    case isFalse => cases hstep
    case isTrue hev =>
    cases hstep
    exact ⟨c, h.writer_take hpc hev⟩
  case checkError =>
    simp only [h.noError, Bool.false_eq_true, if_false] at hstep
    split at hstep
    case isTrue =>
      cases hstep
      exact ⟨c, h.writer_local (by simp [hpc]) (by simp [hpc])
        (fun _ => by simp [hpc]) trivial⟩
    case isFalse hnone =>
      cases hstep
      -- an empty cache is as good as stored
      obtain ⟨-, hlength, -⟩ := h.held (by simp [hpc])
      have hnil : pub c = [] := by
        rw [not_or, not_not] at hnone
        exact length_eq_zero_iff.mp (hlength.symm.trans hnone.1)
      have hstore := h.writer_store s.ctx.padding_length
        (by simp [hpc]) (by simp [hpc]) fun _ _ _ hm => hm
      rw [hnil, append_nil] at hstore
      exact ⟨c, hstore⟩
  case security =>
    cases hstep
    exact ⟨c, h.writer_local (by simp [hpc]) (by simp [hpc])
      (fun _ => by simp [hpc]) trivial⟩
  case write =>
    obtain ⟨-, -, hcontent⟩ := h.held (by simp [hpc])
    simp only [hcontent] at hstep
    cases stored with
    | failed => exact absurd hgood (by simp [Move.Good])
    | plain =>
      cases hstep
      exact ⟨c, h.writer_store _ (by simp [hpc]) (by simp [hpc])
        fun _ _ _ hm => hm⟩
    | sparse left =>
      cases hstep
      refine ⟨c, h.writer_store _ (by simp [hpc])
        (by simp [hpc]) ?_⟩
      intro j bytes hbytes hm
      refine hm.write ?_
      rw [h.flipR, cache_shift_mod]
      have hapart := padding_apart page (mod_lt (c + 1) two_pos)
        (mod_lt j two_pos) hgood
      omega
  case test =>
    obtain ⟨-, hlength, -⟩ := h.held (by simp [hpc])
    simp only [hlength, length_eq_zero_iff] at hstep
    split at hstep
    case isTrue hnil =>
      cases hstep
      exact ⟨c, h.writer_local (by simp [hpc]) (by simp [hpc])
        (by simp) hnil⟩
    case isFalse hne =>
      cases hstep
      exact ⟨c, h.writer_local (by simp [hpc]) (by simp [hpc])
        (fun _ => by simp [hpc]) hne⟩
  case release =>
    cases hstep
    exact ⟨c + 1, h.writer_release hpc⟩
  case endFirst =>
    cases hstep
    exact ⟨c, h.writer_end (by simp [hpc]) rfl hok⟩
  case endSecond =>
    cases hstep
    exact ⟨c, h.writer_end (by simp [hpc]) rfl hok⟩
  case endThread =>
    cases hstep
    exact ⟨c, h.writer_end (by simp [hpc]) rfl ⟨hok, rfl⟩⟩
  case error => exact hok.elim
  case returned code => cases hstep

end

end Handover

end Droid.Lk
