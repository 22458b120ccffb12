import DroidPlatform.Lk.Lemmas.DualCacheInvariant

/-!
# The download delivers the stream

Whatever the interleaving of the two procedures, if USB delivers, the security check passes and the
storage works, what `write_storage_proc` has stored is the beginning of what was received, in order;
a cache is left alone, with its padding, as long as the writer uses it; and the procedures come to an
end, after a number of turns that depends on the length of the image only, with everything stored and
without an error (`dual_cache_delivers`).

The end is the absence of a deadlock together with a measure: a reader that is blocked has two caches
published, so that the writer has one to take; a writer that is blocked has released everything that
was published, so that the reader has one to fill.
-/

namespace Droid.Lk

open Nat EngineContext Download Reader

variable {page data_length : ℕ} {input : Memory} {s t : Download} {p c : ℕ}
  {pub : ℕ → List UInt8} {m : Move} (ctx : EngineContext)

/-- The writer has taken a cache and not given it back. -/
def Download.Using (s : Download) : Prop :=
  s.writer = .checkError ∨ s.writer = .security ∨ s.writer = .write ∨ s.writer = .test ∨
    s.writer = .release

/-- Between `s` and `t` nothing has happened to the cache `i`, nor to its padding. -/
def Untouched (page : ℕ) (s t : EngineContext) (i : ℕ) : Prop :=
  (∀ a, padding_buf page i ≤ a → a < cache_buf page i + page → t.memory a = s.memory a) ∧
    t.content_length i = s.content_length i ∧ t.padding_length i = s.padding_length i

/-- A good move is one of the reader that receives something, or one of the writer. -/
lemma next_cases (hgood : m.Good) (hstep : s.next page data_length input m = some t) :
    (∃ n, 0 < n ∧ read_usb_proc page data_length input s (some n) = some t) ∨
      ∃ stored, (Move.writer true stored).Good ∧ write_storage_proc page s true stored = some t := by
  cases m with
  | reader usb =>
    cases usb with
    | none => exact absurd hgood not_false
    | some n => exact .inl ⟨n, hgood, hstep⟩
  | writer secure stored =>
    cases secure with
    | false => exact absurd hgood (by simp [Move.Good])
    | true => exact .inr ⟨stored, hgood, hstep⟩

namespace Handover

lemma start (hlen : 0 < data_length) (memory : Memory) (content_length : ℕ → ℕ) :
    Handover page data_length input (.start memory content_length) 0 0 fun _ => [] where
  flipW _ := rfl
  flipR := rfl
  noError := rfl
  content := by
    refine ⟨le_rfl, zero_le 2, fun i _ => ⟨fun h => ?_, ?_⟩⟩
    · cases h
    · rintro ⟨j, -, hj, -⟩
      exact absurd hj (not_lt_zero j)
  cache _ := by
    refine ⟨zero_le 2, le_rfl, fun i hi => ⟨fun _ => ?_, fun _ => rfl⟩⟩
    exact ⟨i, zero_le _, hi, mod_eq_of_lt hi⟩
  full j _ hj := absurd hj (not_lt_zero j)
  consumed := rfl
  received := rfl
  marker j hj := absurd hj (not_lt_zero j)
  marked h := by cases h
  released j hj := absurd hj (not_lt_zero j)
  reader := hlen
  writer := trivial

section

variable (h : Handover page data_length input s p c pub)

include h

/-- **A turn.** -/
lemma step (hpage : 0 < page) (hgood : m.Good) (hstep : s.next page data_length input m = some t) :
    ∃ p' c' pub', Handover page data_length input t p' c' pub' := by
  rcases next_cases hgood hstep with ⟨n, -, hstep⟩ | ⟨stored, hgood, hstep⟩
  · obtain ⟨p', pub', h'⟩ := h.reader_step hpage hstep
    exact ⟨p', c, pub', h'⟩
  · obtain ⟨c', h'⟩ := h.writer_step hgood hstep
    exact ⟨p, c', pub, h'⟩

/-! ## Nobody waits forever -/

/-- A reader that is neither done nor blocked. -/
lemma reader_enabled (hret : s.reader.pc ≠ .returned true)
    (hwait : s.reader.pc.holding = 0 → s.ctx.cache_available s.ctx.flipIdxW = true) :
    ∃ t, read_usb_proc page data_length input s (some 1) = some t := by
  have hok := h.reader
  cases hpc : s.reader.pc with
  | waitCache | waitLast =>
    have hev := hwait (by simp [hpc])
    simp [read_usb_proc, hpc, hev]
  | checkError => simp [read_usb_proc, hpc, h.noError]
  | reading =>
    simp only [read_usb_proc, hpc]
    split
    case isTrue hleft => simp [one_le_iff_ne_zero.mpr hleft.ne']
    case isFalse => simp
  | setLength | clearLast | signalLast => simp [read_usb_proc, hpc]
  | signal =>
    simp only [ReaderOk, hpc] at hok
    simp only [read_usb_proc, hpc]
    split
    case isTrue => simp
    case isFalse hle =>
      rw [if_pos (by omega)]
      simp
  | error => simp [ReaderOk, hpc] at hok
  | returned ok =>
    cases ok with
    | true => exact absurd hpc hret
    | false => simp [ReaderOk, hpc] at hok

/-- A writer that is neither done nor blocked. -/
lemma writer_enabled (hret : s.writer ≠ .returned 0)
    (hwait : s.writer = .waitContent → s.ctx.content_available s.ctx.flipIdxR = true) :
    ∃ t, write_storage_proc page s true .plain = some t := by
  have hok := h.writer
  cases hpc : s.writer with
  | waitContent => simp [write_storage_proc, hpc, hwait hpc]
  | checkError =>
    simp only [write_storage_proc, hpc, h.noError, Bool.false_eq_true, if_false]
    split <;> simp
  | test =>
    simp only [write_storage_proc, hpc]
    split <;> simp
  | error => simp [WriterOk, hpc] at hok
  | returned code =>
    rw [hpc] at hok
    exact absurd (hpc.trans (congrArg _ hok.2)) hret
  | _ => simp [write_storage_proc, hpc]

/-- **No deadlock.** -/
lemma enabled (hnot : ¬ (s.reader.pc = .returned true ∧ s.writer = .returned 0)) :
    ∃ m t, m.Good ∧ s.next page data_length input m = some t := by
  by_cases hret : s.reader.pc = .returned true
  · -- the end has been published and is not released
    have hw : s.writer ≠ .returned 0 := fun heq => hnot ⟨hret, heq⟩
    refine (h.writer_enabled hw fun hwait => ?_).elim fun t ht => ⟨.writer true .plain, t, trivial, ht⟩
    obtain ⟨j, hj, hnil⟩ := h.marked hret
    have hcontent := h.content
    rw [hwait] at hcontent
    have hcp : c < p := by
      by_contra hge
      exact h.released j (by omega) hnil
    rw [h.flipR]
    exact hcontent.apply_of_lt hcp
  · by_cases hev : s.reader.pc.holding = 0 → s.ctx.cache_available s.ctx.flipIdxW = true
    · exact (h.reader_enabled hret hev).elim fun t ht => ⟨.reader (some 1), t, one_pos, ht⟩
    · -- the reader is blocked: both caches are published
      rw [Classical.not_imp] at hev
      obtain ⟨hend, -⟩ := h.reader_ahead hret
      have hcache := h.cache hend
      rw [hev.1] at hcache
      have hblocked : s.ctx.cache_available (p % 2) = false := by
        rw [← h.flipW hret]
        simpa using hev.2
      have hp := hcache.eq_of_blocked hblocked
      have hw : s.writer ≠ .returned 0 := by
        intro heq
        rw [heq] at hend
        cases hend
      refine (h.writer_enabled hw fun hwait => ?_).elim fun t ht =>
        ⟨.writer true .plain, t, trivial, ht⟩
      have hcontent := h.content
      rw [hwait] at hcontent
      rw [h.flipR]
      exact hcontent.apply_of_lt (by simp only [WritePc.holding]; omega)

/-! ## The writer is left alone -/

/-- A writer that uses a cache holds it, and has not seen the end. -/
lemma using_holds (husing : s.Using) : c < p := by
  have hle := h.content.le
  rcases husing with hw | hw | hw | hw | hw <;>
  · rw [hw] at hle
    exact hle

lemma reader_untouched (hcp : c < p) {n : ℕ}
    (hstep : read_usb_proc page data_length input s (some n) = some t) :
    Untouched page s.ctx t.ctx s.ctx.flipIdxR := by
  -- the reader writes to the cache it holds
  have hne : s.reader.pc.holding = 1 → s.ctx.flipIdxR ≠ s.ctx.flipIdxW := by
    intro hholds
    rw [h.flipR, h.flipW (ReadPc.ne_returned hholds)]
    exact h.apart hholds le_rfl hcp
  have hok := h.reader
  cases hpc : s.reader.pc with
  | reading =>
    have hne := hne (by rw [hpc]; rfl)
    have hret : s.reader.pc ≠ .returned true := by simp [hpc]
    simp only [ReaderOk, hpc] at hok
    simp only [read_usb_proc, hpc] at hstep
    split at hstep
    case isTrue =>
      split at hstep
      case isFalse => cases hstep
      case isTrue hn =>
      cases hstep
      refine ⟨fun a hlo hhi => ?_, rfl, rfl⟩
      have hroom : s.reader.bytes_read + n ≤ page := by omega
      have hR : s.ctx.flipIdxR < 2 := h.flipR ▸ mod_lt c two_pos
      have hW : s.ctx.flipIdxW < 2 := h.flipW hret ▸ mod_lt p two_pos
      rcases cache_apart page hW hR (symm hne) hroom with hafter | hbefore
      · exact Memory.write_of_lt (by omega)
      · refine Memory.write_of_le ?_
        rw [Memory.length_slice]
        omega
    case isFalse =>
      cases hstep
      exact ⟨fun _ _ _ => rfl, rfl, rfl⟩
  | setLength | clearLast =>
    simp only [read_usb_proc, hpc] at hstep
    cases hstep
    exact ⟨fun _ _ _ => rfl, Function.update_of_ne (hne (by rw [hpc]; rfl)) _ _, rfl⟩
  | _ =>
    simp only [read_usb_proc, hpc] at hstep
    (repeat' split at hstep) <;> cases hstep <;> exact ⟨fun _ _ _ => rfl, rfl, rfl⟩

lemma writer_untouched {stored : Stored} (hgood : (Move.writer true stored).Good)
    (hstep : write_storage_proc page s true stored = some t) :
    Untouched page s.ctx t.ctx s.ctx.flipIdxR := by
  cases hpc : s.writer with
  | write =>
    simp only [write_storage_proc, hpc] at hstep
    cases stored with
    | failed => exact absurd hgood not_false
    | plain =>
      cases hstep
      exact ⟨fun _ _ _ => rfl, rfl, rfl⟩
    | sparse left =>
      -- what is left over goes in front of the other cache
      cases hstep
      have hfit : left.length ≤ CACHE_PADDING_SIZE := hgood
      rw [h.flipR, cache_shift_mod]
      have hne : c % 2 ≠ (c + 1) % 2 := by omega
      refine ⟨fun a hlo hhi => ?_, rfl, Function.update_of_ne hne _ _⟩
      have hpad := padding_behind page (mod_lt (c + 1) two_pos) (mod_lt c two_pos)
        hne.symm hfit
      rcases hpad with hafter | hbefore
      · exact Memory.write_of_lt (by omega)
      · exact Memory.write_of_le (by omega)
  | _ =>
    simp only [write_storage_proc, hpc] at hstep
    (repeat' split at hstep) <;> cases hstep <;> exact ⟨fun _ _ _ => rfl, rfl, rfl⟩

/-- **A cache is not refilled while the writer uses it.** -/
lemma untouched (hgood : m.Good) (hstep : s.next page data_length input m = some t)
    (husing : s.Using) : Untouched page s.ctx t.ctx s.ctx.flipIdxR := by
  rcases next_cases hgood hstep with ⟨n, -, hstep⟩ | ⟨stored, hgood, hstep⟩
  · exact h.reader_untouched (h.using_holds husing) hstep
  · exact h.writer_untouched hgood hstep

end

end Handover

/-! ## How much is left to do -/

/-- The bytes received. -/
def Reader.received (r : Reader) : ℕ :=
  match r.pc with
  | .reading | .setLength => r.bytes_already_read + r.bytes_read
  | _ => r.bytes_already_read

/-- A bound on the turns of the reader until it has to receive again, and on those of the writer that
they cause. -/
def Reader.weight (r : Reader) : ℕ :=
  match r.pc with
  | .reading => if 0 < r.bytes_left then 0 else 26
  | .setLength => 25
  | .signal => 24
  | .waitLast => 14
  | .clearLast => 13
  | .signalLast => 12
  | .waitCache => 4
  | .checkError => 2
  | .error | .returned _ => 0

def WritePc.weight : WritePc → ℕ
  | .checkError => 7
  | .security => 6
  | .write => 5
  | .test => 4
  | .release | .endFirst => 3
  | .endSecond => 2
  | .endThread => 1
  | .waitContent | .error | .returned _ => 0

/-- The caches on their way to the writer. -/
def EngineContext.waiting : ℕ :=
  (ctx.content_available 0).toNat + (ctx.content_available 1).toNat

def Download.work (data_length : ℕ) (s : Download) : ℕ :=
  30 * (data_length - s.reader.received) + s.reader.weight + 8 * s.ctx.waiting + s.writer.weight

lemma waiting_signalContent (i : ℕ) : (ctx.signalContent i).waiting ≤ ctx.waiting + 1 := by
  simp only [waiting, signalContent, Function.update_apply]
  split <;> split <;> simp <;> omega

lemma waiting_takeContent {i : ℕ} (hi : i < 2) (hev : ctx.content_available i = true) :
    (ctx.takeContent i).waiting + 1 = ctx.waiting := by
  interval_cases i <;>
    simp [waiting, takeContent, hev, add_comm]

namespace Handover

section

variable (h : Handover page data_length input s p c pub)

include h

lemma reader_work (hpage : 0 < page) {n : ℕ} (hn : 0 < n)
    (hstep : read_usb_proc page data_length input s (some n) = some t) :
    t.work data_length < s.work data_length := by
  have hok := h.reader
  cases hpc : s.reader.pc with
  | reading =>
    simp only [ReaderOk, hpc] at hok
    simp only [read_usb_proc, hpc] at hstep
    split at hstep
    case isTrue hleft =>
      split at hstep
      case isFalse => cases hstep
      case isTrue hfit =>
      cases hstep
      simp only [work, Reader.received, weight, hpc, waiting]
      split <;> omega
    case isFalse hleft =>
      cases hstep
      simp only [work, Reader.received, weight, hpc, if_neg hleft]
      omega
  | checkError =>
    simp only [ReaderOk, hpc] at hok
    simp only [read_usb_proc, hpc, h.noError] at hstep
    cases hstep
    have hleft : 0 < if page ≤ data_length - s.reader.bytes_already_read then page
        else data_length - s.reader.bytes_already_read := by
      split <;> omega
    simp only [work, Reader.received, weight, hpc, if_pos hleft]
    omega
  | signal =>
    have hwaiting := waiting_signalContent s.ctx s.ctx.flipIdxW
    simp only [read_usb_proc, hpc] at hstep
    (repeat' split at hstep) <;> cases hstep <;>
    · simp only [work, Reader.received, weight, hpc, waiting]
        at hwaiting ⊢
      omega
  | signalLast =>
    have hwaiting := waiting_signalContent s.ctx s.ctx.flipIdxW
    simp only [read_usb_proc, hpc] at hstep
    cases hstep
    simp only [work, Reader.received, weight, hpc]
    omega
  | error => simp [ReaderOk, hpc] at hok
  | _ =>
    simp only [read_usb_proc, hpc] at hstep
    (repeat' split at hstep) <;> cases hstep <;>
    · simp only [work, Reader.received, weight, hpc, waiting,
        takeCache, setLength]
      omega

lemma writer_work {stored : Stored} (hstep : write_storage_proc page s true stored = some t) :
    t.work data_length < s.work data_length := by
  have hok := h.writer
  cases hpc : s.writer with
  | waitContent =>
    simp only [write_storage_proc, hpc] at hstep
    split at hstep
    case isFalse => cases hstep
    case isTrue hev =>
    have hwaiting := waiting_takeContent s.ctx (h.flipR ▸ mod_lt c two_pos) hev
    cases hstep
    simp only [work, WritePc.weight]
    omega
  | error => simp [WriterOk, hpc] at hok
  | _ =>
    simp only [write_storage_proc, hpc] at hstep
    (repeat' split at hstep) <;> cases hstep <;>
    · simp only [work, WritePc.weight, hpc, waiting,
        signalCache]
      omega

/-- **Every turn is progress.** -/
lemma work_lt (hpage : 0 < page) (hgood : m.Good)
    (hstep : s.next page data_length input m = some t) :
    t.work data_length < s.work data_length := by
  rcases next_cases hgood hstep with ⟨n, hn, hstep⟩ | ⟨stored, -, hstep⟩
  · exact h.reader_work hpage hn hstep
  · exact h.writer_work hstep

/-! ## The end -/

lemma published_le : s.reader.published ≤ data_length := by
  have hok := h.reader
  cases hpc : s.reader.pc <;> simp only [ReaderOk, published, hpc] at hok ⊢
  case returned ok => cases ok <;> simp_all
  all_goals (simp; omega)

/-- What has been stored is the beginning of what arrives. -/
lemma consumed_isPrefix : s.consumed <+: input.slice 0 data_length := by
  have hstored : c + s.writer.stored ≤ p := by
    have hle := h.content.le
    have := s.writer.stored_le
    omega
  rw [h.consumed]
  obtain ⟨k, hk⟩ := Nat.exists_eq_add_of_le hstored
  obtain ⟨n, hn⟩ := Nat.exists_eq_add_of_le h.published_le
  have hreceived := h.received
  rw [hk, List.range_add, List.flatMap_append] at hreceived
  rw [hn, Memory.slice_add, ← hreceived, List.append_assoc]
  exact List.prefix_append _ _

lemma consumed_all (hreader : s.reader.pc = .returned true) (hwriter : s.writer = .returned 0) :
    s.consumed = input.slice 0 data_length := by
  have hok := h.reader
  simp only [ReaderOk, hreader] at hok
  have hp := (h.of_ending (by rw [hwriter]; rfl)).1
  rw [h.consumed, hwriter]
  show (List.range (c + 1)).flatMap pub = _
  rw [← hp, h.received, published, hreader, if_neg (by simp), hok]

end

end Handover

/-- Turns in which USB delivers, the security check passes and the storage works. -/
def Download.Turn (page data_length : ℕ) (input : Memory) (s : Download) (m : Move)
    (t : Download) : Prop :=
  m.Good ∧ s.next page data_length input m = some t

lemma runs_handover (hpage : 0 < page) (hlen : 0 < data_length) {memory : Memory}
    {content_length : ℕ → ℕ} {moves : List Move}
    (hrun : Runs (Turn page data_length input) (.start memory content_length) moves s) :
    (∃ p c pub, Handover page data_length input s p c pub) ∧
      moves.length + s.work data_length ≤ 30 * data_length + 4 := by
  refine hrun.history (P := fun moves s =>
    (∃ p c pub, Handover page data_length input s p c pub) ∧
      moves.length + s.work data_length ≤ 30 * data_length + 4) ?_ ?_
  · exact ⟨⟨0, 0, _, .start hlen memory content_length⟩, le_of_eq (zero_add _)⟩
  · rintro moves s m t ⟨⟨p, c, pub, h⟩, hwork⟩ ⟨hgood, hstep⟩
    have hlt := h.work_lt hpage hgood hstep
    refine ⟨h.step hpage hgood hstep, ?_⟩
    rw [List.length_append, List.length_singleton]
    omega

/-- A turn, by computation. -/
def Download.turn (page data_length : ℕ) (input : Memory) (s : Download) (m : Move) :
    Option (Move × Download) :=
  if m.Good then (s.next page data_length input m).map (m, ·) else none

lemma turn_of_turn (page data_length : ℕ) (input : Memory) (s : Download) (m m' : Move)
    (t : Download) (h : s.turn page data_length input m = some (m', t)) :
    Turn page data_length input s m' t := by
  simp only [turn, Option.ite_none_right_eq_some, Option.map_eq_some_iff] at h
  obtain ⟨hgood, u, hnext, heq⟩ := h
  cases heq
  exact ⟨hgood, hnext⟩

/-- **The download delivers the stream.**  After any turns of the two procedures there is no error,
what has been stored is the beginning of what arrives, and the next turn leaves the cache that the
writer uses as it is; there are only so many turns, and when there is none left both procedures have
returned and everything has been stored. -/
theorem dual_cache_delivers (hpage : 0 < page) (hlen : 0 < data_length) {memory : Memory}
    {content_length : ℕ → ℕ} {moves : List Move}
    (hrun : Runs (Download.Turn page data_length input) (.start memory content_length) moves s) :
    s.ctx.b_error = false ∧ s.consumed <+: input.slice 0 data_length ∧
      (∀ m t, Download.Turn page data_length input s m t → s.Using →
        Untouched page s.ctx t.ctx s.ctx.flipIdxR) ∧
      moves.length ≤ 30 * data_length + 4 ∧
      ((∀ m t, ¬ Download.Turn page data_length input s m t) →
        s.reader.pc = .returned true ∧ s.writer = .returned 0 ∧
          s.consumed = input.slice 0 data_length) := by
  obtain ⟨⟨p, c, pub, h⟩, hwork⟩ := runs_handover hpage hlen hrun
  refine ⟨h.noError, h.consumed_isPrefix, ?_, by omega, fun hend => ?_⟩
  · rintro m t ⟨hgood, hstep⟩ husing
    exact h.untouched hgood hstep husing
  · have hdone : s.reader.pc = .returned true ∧ s.writer = .returned 0 := by
      by_contra hnot
      obtain ⟨m, t, hgood, hstep⟩ := h.enabled hnot
      exact hend m t ⟨hgood, hstep⟩
    exact ⟨hdone.1, hdone.2, h.consumed_all hdone.1 hdone.2⟩

/-- The reader fills both caches of two bytes and has to wait; the writer empties them. -/
def threeBytes : List Move :=
  List.replicate 3 (.reader (some 2)) ++ List.replicate 9 (.reader (some 1)) ++
    List.replicate 12 (.writer true .plain) ++ List.replicate 3 (.reader (some 1)) ++
    List.replicate 6 (.writer true .plain)

theorem dual_cache_delivers_three :
    ∃ moves, ∃ s : Download, Runs (Download.Turn 2 3 fun a => UInt8.ofNat (a + 7))
      (.start (fun _ => 0) fun _ => 0) moves s ∧ s.consumed = [7, 8, 9] ∧
      s.ctx.b_error = false := by
  obtain ⟨moves, s, hrun, hconsumed⟩ := Runs.exists_of_execute
    (P := fun _ s => s.consumed = [7, 8, 9])
    (s := .start (fun _ => 0) fun _ => 0)
    (turn_of_turn 2 3 fun a => UInt8.ofNat (a + 7)) threeBytes (by decide +kernel)
  exact ⟨moves, s, hrun, hconsumed, (dual_cache_delivers (by decide) (by decide) hrun).1⟩

end Droid.Lk
