import DroidPlatform.BufferQueue.Lemmas.Entries

/-!
# Every segment keeps the ledger

The log of a segment is complete and correct: entering its actions one after the other in the ledger
of the queue before the segment gives the ledger of the queue after it, and so for whole runs
(`runs_refine`).  What the queue needs for this are bounds on its three counts
(`BufferQueue.Bounded`), which every segment keeps.  `spec_segment` goes through the operations once
for this and for everything else that is said of segments (`BufferQueue.Spec`).
-/

namespace Droid

open List Option Function Ledger Segment

namespace BufferQueue

lemma Bounded.minBufferSlots {q : BufferQueue} (h : q.Bounded) :
    q.minBufferSlots ≤ numBufferSlots := by
  rw [BufferQueue.minBufferSlots]
  split_ifs
  · exact h.minSync
  · exact h.minAsync

/-! ## Ledgers of changed queues -/

/-- Writing a slot is writing its four entries. -/
lemma ledger_setSlot (q : BufferQueue) (i : Slot) (s : BufferSlot) : (q.setSlot i s).ledger =
    { q.ledger with
      state := update q.ledger.state i s.mBufferState
      buffer := update q.ledger.buffer i s.mGraphicBuffer
      cleanup := update q.ledger.cleanup i s.mNeedsCleanupOnRelease
      frame := update q.ledger.frame i s.frame } := by
  simp only [ledger, setSlot, Ledger.mk.injEq, and_true]
  refine ⟨?_, ?_, ?_, ?_⟩ <;>
  · funext j
    by_cases hj : j = i
    · subst hj
      simp
    · simp [hj]

lemma ledger_freeAllBuffersLocked (q : BufferQueue) :
    q.freeAllBuffersLocked.ledger = q.ledger.freeSlots none := by
  simp [ledger, freeAllBuffersLocked, freeSlots, BufferSlot.freeBufferLocked]

lemma ledger_freeAllBuffersExceptHeadLocked (q : BufferQueue) :
    q.freeAllBuffersExceptHeadLocked.ledger = q.ledger.freeSlots q.mQueue.head? := by
  simp only [ledger, freeAllBuffersExceptHeadLocked, freeSlots, Ledger.mk.injEq]
  refine ⟨?_, ?_, ?_, ?_, ?_⟩
  · funext i
    split_ifs <;> rfl
  · funext i
    split_ifs <;> rfl
  · funext i
    split_ifs <;> rfl
  · funext i
    split_ifs <;> rfl
  · cases q.mQueue <;> simp

/-! ## The search loop -/

/-- What the search loop has found after the slots `is`. -/
lemma foldl_scanSlot (q : BufferQueue) : ∀ (is : List Slot) (found : Option Slot × ℕ),
    (∀ i ∈ (is.foldl q.scanSlot found).1, i ∈ found.1 ∨
      (i ∈ is ∧ (q.mSlots i).mBufferState = .free)) ∧
    (is.foldl q.scanSlot found).2
      = found.2 + is.countP fun i => (q.mSlots i).mBufferState = .dequeued := by
  intro is
  induction is with
  | nil => simp
  | cons i is ih =>
    intro found
    rw [foldl_cons]
    obtain ⟨hfound, hcount⟩ := ih (q.scanSlot found i)
    refine ⟨?_, ?_⟩
    · intro j hj
      rcases hfound j hj with hj | ⟨hj, hfree⟩
      · simp only [scanSlot] at hj
        split_ifs at hj with hfree
        · -- `j` is the slot looked at, or the one found before
          have hj' : j = i ∨ j ∈ found.1 := by
            cases hf : found.1 with
            | none =>
              rw [hf] at hj
              exact Or.inl (mem_some_iff.mp hj).symm
            | some k =>
              rw [hf] at hj
              simp only at hj
              split_ifs at hj
              · exact Or.inl (mem_some_iff.mp hj).symm
              · exact Or.inr hj
          rcases hj' with rfl | hj'
          · exact Or.inr ⟨mem_cons_self, hfree⟩
          · exact Or.inl hj'
        · exact Or.inl hj
      · exact Or.inr ⟨mem_cons_of_mem _ hj, hfree⟩
    · rw [hcount, countP_cons]
      simp only [scanSlot, decide_eq_true_eq]
      split_ifs <;> omega

variable {q : BufferQueue} {i : Slot}

lemma mem_slots : i ∈ q.slots ↔ (i : ℤ) < q.mBufferCount := by
  simp [slots]

/-- A slot the search loop finds is free and in use. -/
lemma scan_found (h : q.scan.1 = some i) :
    (q.mSlots i).mBufferState = .free ∧ (i : ℤ) < q.mBufferCount := by
  rcases (foldl_scanSlot q q.slots (none, 0)).1 i h with hi | ⟨hi, hfree⟩
  · cases hi
  · exact ⟨hfree, mem_slots.mp hi⟩

/-- The search loop counts the dequeued slots. -/
lemma scan_count_eq_zero : q.scan.2 = 0 ↔
    ∀ i : Slot, (i : ℤ) < q.mBufferCount → (q.mSlots i).mBufferState ≠ .dequeued := by
  rw [scan, (foldl_scanSlot q q.slots (none, 0)).2, zero_add]
  simp [mem_slots]

/-! ## Operation by operation -/

section Operations

variable {q q₀ : BufferQueue} {turn : Turn} {seg : Segment} {alloc : Except Status GraphicBuffer}
  {buf : ℤ}

lemma setBufferCountServerLocked_cases (q : BufferQueue) (n : ℤ) :
    (∃ status, q.setBufferCountServerLocked n = .done q status) ∨
    (n ≤ numBufferSlots ∧ q.mClientBufferCount = 0 ∧ q.mBufferCount ≤ n ∧
      q.setBufferCountServerLocked n =
        ⟨{ q with mBufferCount := n, mServerBufferCount := n }, .returns { status := .ok },
          [.resize n]⟩) ∨
    (n ≤ numBufferSlots ∧
      q.setBufferCountServerLocked n = .done { q with mServerBufferCount := n } .ok) := by
  rw [setBufferCountServerLocked]
  split_ifs with hmax hsame hgrow hmin
  · exact Or.inl ⟨_, rfl⟩
  · exact Or.inl ⟨_, rfl⟩
  · exact Or.inr (Or.inl ⟨not_lt.mp hmax, hgrow.1, hgrow.2, rfl⟩)
  · exact Or.inl ⟨_, rfl⟩
  · exact Or.inr (Or.inr ⟨not_lt.mp hmax, rfl⟩)

lemma spec_setBufferCountServer (n : ℤ) :
    Spec q (.call (.setBufferCountServer n)) (q.setBufferCountServer n) := by
  rw [setBufferCountServer]
  rcases q.setBufferCountServerLocked_cases n with
    ⟨status, heq⟩ | ⟨hmax, hclient, hle, heq⟩ | ⟨hmax, heq⟩
  · rw [heq]
    exact spec_done
  · rw [heq]
    exact spec_single (.resize hmax (Or.inl hle)) trivial trivial
      (.keeps ⟨n, n, rfl, Or.inr hmax, fun hne => absurd hclient hne⟩) rfl
  · rw [heq]
    exact .mk_of (fun _ => .nil) (.plain (by simp [done]) rfl) (by simp [done])
      (.keeps ⟨n, _, rfl, Or.inr hmax, fun _ => rfl⟩)

/-- Freeing all slots and setting the count is always allowed. -/
lemma runs_free_resize {n : ℤ} (hn : n ≤ numBufferSlots) :
    Runs Step q.ledger [.free none, .resize n]
      { q.freeAllBuffersLocked with mBufferCount := n }.ledger := by
  have hfree : Runs Step q.ledger [.free none] q.freeAllBuffersLocked.ledger := by
    exact .single .freeAll
  exact hfree.append (.single (.resize hn (Or.inr ⟨rfl, fun i => rfl⟩)))

lemma spec_setBufferCount (n : ℤ) :
    Spec q (.call (.setBufferCount n)) (q.setBufferCount n) := by
  rw [setBufferCount]
  split_ifs with _ hmax _ hzero hmin
  · exact spec_done
  · exact spec_done
  · exact spec_done
  · -- the client gives its count up
    have hcounts : ∀ {server count : ℤ} {q' : BufferQueue},
        q'.counts = { q.counts with client := 0, server, count } →
        server = q.mServerBufferCount ∨ server ≤ numBufferSlots →
        CountsAfter q (.call (.setBufferCount n)) q' :=
      fun hc hserver => .setsClient n _ _ rfl (by rw [hzero]; exact hc) hserver
        fun hn => absurd hzero hn
    rcases { q with mClientBufferCount := 0 }.setBufferCountServerLocked_cases q.defaultBufferCount
      with ⟨status, heq⟩ | ⟨hmax, _, hle, heq⟩ | ⟨hmax, heq⟩
    · rw [heq]
      exact .mk_of (fun _ => .nil) (.plain (by simp [done]) rfl) (by simp [done])
        (hcounts rfl (Or.inl rfl))
    · rw [heq]
      exact .mk_of (fun _ => .single (.resize hmax (Or.inl hle)))
        (.plain (by simp [Action.Plain]) rfl) (by simp [Turn.Enters]) (hcounts rfl (Or.inr hmax))
    · rw [heq]
      exact .mk_of (fun _ => .nil) (.plain (by simp [done]) rfl) (by simp [done])
        (hcounts rfl (Or.inr hmax))
  · exact spec_done
  · exact .mk_of (fun _ => runs_free_resize (not_lt.mp hmax)) (.plain (by simp [Action.Plain]) rfl)
      (by simpa [Turn.Enters] using hzero)
      (.setsClient n _ n rfl rfl (Or.inl rfl) fun _ => ⟨not_lt.mp hmin, rfl⟩)

lemma spec_requestBuffer {slot : ℤ} (hseg : q.requestBuffer slot = some seg) : Spec q turn seg := by
  rw [requestBuffer] at hseg
  split_ifs at hseg
  · exact some.inj hseg ▸ spec_done
  · exact some.inj hseg ▸ spec_done
  · obtain ⟨i, _, rfl⟩ := map_eq_some_iff.mp hseg
    refine spec_quiet ?_ rfl rfl
    rw [ledger_setSlot]
    simp [ledger]

section Search

variable {log : List Action} (hruns : q₀.Bounded → Runs Ledger.Step q₀.ledger log q.ledger)
  (hplain : ∀ a ∈ log, a.Plain) (henters : ∀ a ∈ log, turn.Enters q₀ a)
  (hdequeue : ∀ i b, turn.Enters q₀ (.dequeue i b)) (hcounts : q₀.KeepsCounts q)
include hruns hplain henters hdequeue hcounts

/-- Handing out the slot that was found. -/
lemma spec_handOut (args : DequeueArgs) (alloc : Except Status GraphicBuffer)
    (hi : q.scan.1 = some i) : Spec q₀ turn (q.handOut args alloc i log) := by
  obtain ⟨hfree, hlt⟩ := scan_found hi
  have hspec : ∀ {q' : BufferQueue} {b : Option GraphicBuffer} {r : Reply}, q'.ledger =
      { q.ledger.setState i .dequeued with buffer := update q.ledger.buffer i b } →
      q'.counts = q.counts → (Segment.mk q' (.returns r) (log ++ [.dequeue i b])).acquired? = none →
      Spec q₀ turn ⟨q', .returns r, log ++ [.dequeue i b]⟩ := by
    intro q' b r hq' hc hitem
    refine .mk_of (fun hb => ?_) (.plain ?_ hitem) ?_ (.keeps (hcounts.trans_eq hc))
    · rw [hq']
      exact .snoc (hruns hb) (.dequeue hfree hlt)
    · intro a ha
      rcases mem_append.mp ha with ha | ha
      · exact hplain a ha
      · rw [mem_singleton.mp ha]
        trivial
    · intro a ha
      rcases mem_append.mp ha with ha | ha
      · exact henters a ha
      · rw [mem_singleton.mp ha]
        exact hdequeue i b
  simp only [handOut]
  split_ifs
  · refine hspec ?_ rfl rfl
    rw [ledger_setSlot]
    simp [ledger, setState]
  · cases alloc with
    | error e | ok g =>
      refine hspec ?_ rfl rfl
      rw [ledger_setSlot]
      simp [ledger, setState]

lemma spec_search (args : DequeueArgs) (alloc : Except Status GraphicBuffer) :
    Spec q₀ turn (q.search args alloc log) := by
  have hnone : ∀ {o : Outcome}, (Segment.mk q o log).acquired? = none → Spec q₀ turn ⟨q, o, log⟩ :=
    fun hitem => .mk_of hruns (.plain hplain hitem) henters (.keeps hcounts)
  simp only [search]
  split_ifs
  · exact hnone rfl
  · exact hnone rfl
  · cases hfound : q.scan.1 with
    | none => exact hnone rfl
    | some i => exact spec_handOut hruns hplain henters hdequeue hcounts args alloc hfound

end Search

/-- A pass of `dequeueBuffer` frees and resizes only if the number of buffers needs to change, and
hands out a slot only while the queue has a consumer. -/
lemma spec_dequeuePass (args : DequeueArgs) (alloc : Except Status GraphicBuffer)
    (hchange : q.numberOfBuffersNeedsToChange = true →
      (∀ kept, turn.Enters q (.free kept)) ∧ ∀ n, turn.Enters q (.resize n))
    (hdequeue : q.mAbandoned = false → ∀ i b, turn.Enters q (.dequeue i b)) :
    Spec q turn (q.dequeuePass args alloc) := by
  rw [dequeuePass]
  split_ifs with habandoned hneeds
  · exact spec_done
  · exact spec_quiet rfl rfl rfl
  · obtain ⟨hfree, hresize⟩ := hchange hneeds
    have hclient : q.mClientBufferCount = 0 := by
      by_contra hne
      simp [numberOfBuffersNeedsToChange, hne] at hneeds
    have hcount : q.Bounded → q.resize.mBufferCount ≤ numBufferSlots := by
      intro h
      simp only [resize]
      split_ifs
      · exact h.minBufferSlots
      · exact h.server
    exact spec_search (fun h => runs_free_resize (hcount h)) (by simp [Action.Plain])
      (by simpa using ⟨hfree none, hresize _⟩) (hdequeue (by simpa using habandoned))
      ⟨_, q.resize.mBufferCount, rfl, Or.inl rfl, fun hne => absurd hclient hne⟩ _ alloc
  · exact spec_search (fun _ => .nil) (by simp) (by simp) (hdequeue (by simpa using habandoned))
      (keepsCounts_of_eq rfl) args alloc

lemma spec_switchMode {enabled : Bool} (hdrained : enabled = false → q.draining = false)
    (henters : turn.Enters q (.setSync enabled)) : Spec q turn (q.switchMode enabled) := by
  rw [switchMode]
  split_ifs with hne
  · refine .mk_of (fun _ => .single (.setSync ?_)) (.mode enabled rfl rfl) (by simpa using henters)
      (.keeps (keepsCounts_of_eq rfl))
    rintro rfl
    have hd := hdrained rfl
    simp only [draining, Bool.and_eq_false_iff, Bool.not_eq_false', List.isEmpty_iff] at hd
    rcases hd with hd | hd
    · exact absurd hd hne
    · exact hd
  · exact spec_done

lemma spec_setSynchronousMode (enabled : Bool) :
    Spec q (.call (.setSynchronousMode enabled)) (q.setSynchronousMode enabled) := by
  rw [setSynchronousMode]
  split_ifs with _ _ henabled hdraining
  · exact spec_done
  · exact spec_done
  · exact spec_switchMode (fun hf => absurd henabled (by simp [hf])) rfl
  · exact spec_quiet rfl rfl rfl
  · exact spec_switchMode (fun _ => by simpa using hdraining) rfl

lemma spec_resumeSetAsynchronous : Spec q (.resume .setAsynchronous) q.resumeSetAsynchronous := by
  rw [resumeSetAsynchronous]
  split_ifs with _ hdraining
  · exact spec_done
  · exact spec_quiet rfl rfl rfl
  · exact spec_switchMode (fun _ => by simpa using hdraining) rfl

lemma ledger_enqueue (i : Slot) : (q.enqueue i).ledger = q.ledger.enqueue i := by
  cases hsync : q.mSynchronousMode with
  | true => simp [enqueue, Ledger.enqueue, ledger, hsync]
  | false =>
    cases hq : q.mQueue with
    | nil => simp [enqueue, Ledger.enqueue, ledger, hq]
    | cons front rest =>
      have hset := ledger_setSlot q front { q.mSlots front with mBufferState := .free }
      simp_all [enqueue, Ledger.enqueue, ledger, setState]

lemma counts_enqueue (i : Slot) : (q.enqueue i).counts = q.counts := by
  rw [enqueue]
  split_ifs
  · rfl
  · split <;> rfl

lemma spec_queueFrame (hdeq : (q.mSlots i).mBufferState = .dequeued) (input : QueueBufferInput)
    (henters : ∀ frame, turn.Enters q (.queue i frame)) : Spec q turn (q.queueFrame i input) := by
  have hledger : q.ledger.Step (.queue i (q.newFrame i input))
      (q.queueFrame i input).queue.ledger := by
    have hstep : q.ledger.Step (.queue i (q.newFrame i input)) _ := .queue hdeq rfl
    have hset := ledger_setSlot (q.enqueue i) i
      { q.mSlots i with mBufferState := .queued, frame := q.newFrame i input }
    have hq' : (q.queueFrame i input).queue.ledger = { ((q.enqueue i).setSlot i
        { q.mSlots i with mBufferState := .queued, frame := q.newFrame i input }).ledger with
        counter := (q.mFrameCounter + 1) % 2 ^ 64 } := rfl
    obtain ⟨hbuffer, hcleanup, hframe, _⟩ := q.ledger.enqueue_frame i
    have hb' : update q.ledger.buffer i (q.mSlots i).mGraphicBuffer = q.ledger.buffer :=
      update_eq_self i q.ledger.buffer
    have hc' : update q.ledger.cleanup i (q.mSlots i).mNeedsCleanupOnRelease
        = q.ledger.cleanup := update_eq_self i q.ledger.cleanup
    rw [ledger_enqueue, hbuffer, hcleanup, hframe, hb', hc', ← hbuffer, ← hcleanup] at hset
    rw [hq', hset]
    exact hstep
  exact spec_single hledger trivial (henters _) (.keeps (keepsCounts_of_eq (counts_enqueue i))) rfl

lemma spec_queueBuffer {input : QueueBufferInput} (hseg : q.queueBuffer buf input = some seg) :
    Spec q (.call (.queueBuffer buf input)) seg := by
  rw [queueBuffer] at hseg
  split_ifs at hseg
  · exact some.inj hseg ▸ spec_done
  · exact some.inj hseg ▸ spec_done
  · obtain ⟨i, hi, hseg⟩ := bind_eq_some_iff.mp hseg
    split_ifs at hseg with hdeq
    · exact some.inj hseg ▸ spec_done
    · exact some.inj hseg ▸ spec_done
    · obtain ⟨g, _, hseg⟩ := map_eq_some_iff.mp hseg
      simp only at hseg
      split_ifs at hseg with hcrop
      · exact hseg ▸ spec_done
      · exact hseg ▸ spec_queueFrame (not_not.mp hdeq) input fun _ => slot?_eq hi

lemma spec_cancelBuffer (hseg : q.cancelBuffer buf = some seg) :
    Spec q (.call (.cancelBuffer buf)) seg := by
  rw [cancelBuffer] at hseg
  split_ifs at hseg
  · exact some.inj hseg ▸ spec_done
  · exact some.inj hseg ▸ spec_done
  · obtain ⟨i, hi, hseg⟩ := map_eq_some_iff.mp hseg
    simp only at hseg
    split_ifs at hseg with hdeq
    · exact hseg ▸ spec_done
    · subst hseg
      refine spec_single ?_ trivial (slot?_eq hi) (.keeps (keepsCounts_of_eq rfl)) rfl
      have hstep := Ledger.Step.cancel (l := q.ledger) (not_not.mp hdeq)
      rw [ledger_setSlot]
      simpa [ledger, setState] using hstep

lemma spec_connect (api : ℤ) : Spec q turn (q.connect api) := by
  rw [connect]
  split_ifs
  · exact spec_done
  · exact spec_done
  · exact spec_quiet rfl rfl rfl
  · exact spec_quiet rfl rfl rfl

lemma spec_finishDisconnect (drained : Bool) (henters : ∀ kept, turn.Enters q (.free kept)) :
    Spec q turn (q.finishDisconnect drained) := by
  cases drained with
  | false => exact spec_quiet rfl rfl rfl
  | true =>
    cases hsync : q.mSynchronousMode with
    | true =>
      simp only [finishDisconnect, hsync, if_true]
      refine spec_single ?_ trivial (henters none) (.keeps (keepsCounts_of_eq rfl)) rfl
      have heq : { q.freeAllBuffersLocked with mConnectedApi := noConnectedApi }.ledger
          = q.ledger.freeSlots none := ledger_freeAllBuffersLocked q
      exact .freeAll
    | false =>
      simp only [finishDisconnect, hsync, Bool.not_true, Bool.false_eq_true, if_false]
      refine spec_single ?_ trivial (henters _) (.keeps (keepsCounts_of_eq rfl)) rfl
      have heq : { q.freeAllBuffersExceptHeadLocked with mConnectedApi := noConnectedApi }.ledger
          = q.ledger.freeSlots q.mQueue.head? := ledger_freeAllBuffersExceptHeadLocked q
      rw [heq]
      exact .freeExceptHead hsync

lemma spec_disconnect (api : ℤ) : Spec q (.call (.disconnect api)) (q.disconnect api) := by
  rw [disconnect]
  split_ifs
  · exact spec_done
  · exact spec_quiet rfl rfl rfl
  · exact spec_finishDisconnect true fun _ => trivial
  · exact spec_done

lemma spec_resumeDisconnect : Spec q (.resume .disconnect) q.resumeDisconnect := by
  rw [resumeDisconnect]
  split_ifs
  · exact spec_finishDisconnect false fun _ => trivial
  · exact spec_quiet rfl rfl rfl
  · exact spec_finishDisconnect true fun _ => trivial

lemma spec_acquireBuffer : Spec q (.call .acquireBuffer) q.acquireBuffer := by
  rw [acquireBuffer]
  split
  · exact spec_done
  · next i rest hq =>
      refine .mk_of (fun _ => .single ?_) (.acquire i _ rfl rfl) (by simp [Turn.Enters])
        (.keeps (keepsCounts_of_eq rfl))
      have hstep := Ledger.Step.acquire (l := q.ledger) hq
      have hset := ledger_setSlot q i
        { q.mSlots i with mAcquireCalled := true, mBufferState := .acquired }
      simp_all [ledger, setState]

lemma spec_releaseBuffer {display fence : ℕ} (hseg : q.releaseBuffer buf display fence = some seg) :
    Spec q (.call (.releaseBuffer buf display fence)) seg := by
  rw [releaseBuffer] at hseg
  split_ifs at hseg
  · exact some.inj hseg ▸ spec_done
  · obtain ⟨i, hi, hseg⟩ := map_eq_some_iff.mp hseg
    simp only at hseg
    split_ifs at hseg with hacq hclean
    · subst hseg
      refine spec_single ?_ trivial (slot?_eq hi) (.keeps (keepsCounts_of_eq rfl)) rfl
      have hstep := Ledger.Step.release (l := q.ledger) hacq
      rw [ledger_setSlot]
      simpa [ledger, setState] using hstep
    · subst hseg
      refine spec_single ?_ trivial (slot?_eq hi) (.keeps (keepsCounts_of_eq rfl)) rfl
      have hstep := Ledger.Step.clean (l := q.ledger) hacq hclean
      rw [ledger_setSlot]
      simpa [ledger] using hstep
    · subst hseg
      refine spec_quiet ?_ rfl rfl
      rw [ledger_setSlot]
      simp [ledger]

lemma spec_consumerDisconnect : Spec q (.call .consumerDisconnect) q.consumerDisconnect := by
  rw [consumerDisconnect]
  split_ifs
  · exact spec_done
  · refine spec_single ?_ trivial trivial (.abandons rfl rfl fun _ => rfl) rfl
    have heq : { q.freeAllBuffersLocked with mAbandoned := true, mConsumerListener := none }.ledger
        = q.ledger.freeSlots none := ledger_freeAllBuffersLocked q
    exact .freeAll

/-- **Every segment meets its specification.** -/
theorem spec_segment (hseg : q.segment alloc turn = some seg) : Spec q turn seg := by
  cases turn with
  | call c =>
    cases c with
    | setBufferCount n => exact some.inj hseg ▸ spec_setBufferCount n
    | setBufferCountServer n => exact some.inj hseg ▸ spec_setBufferCountServer n
    | requestBuffer slot => exact spec_requestBuffer hseg
    | dequeueBuffer w hgt format usage =>
      rw [segment, some.injEq, dequeueBuffer] at hseg
      subst hseg
      split
      · exact spec_done
      · exact spec_dequeuePass _ alloc (fun h => ⟨fun _ => h, fun _ => h⟩) fun h _ _ => h
    | queueBuffer buf input => exact spec_queueBuffer hseg
    | cancelBuffer buf => exact spec_cancelBuffer hseg
    | setSynchronousMode enabled => exact some.inj hseg ▸ spec_setSynchronousMode enabled
    | connect api => exact some.inj hseg ▸ spec_connect api
    | disconnect api => exact some.inj hseg ▸ spec_disconnect api
    | acquireBuffer => exact some.inj hseg ▸ spec_acquireBuffer
    | releaseBuffer buf display fence => exact spec_releaseBuffer hseg
    | consumerConnect listener =>
      rw [segment, some.injEq, consumerConnect] at hseg
      subst hseg
      split_ifs
      · exact spec_done
      · exact spec_quiet rfl rfl rfl
    | consumerDisconnect => exact some.inj hseg ▸ spec_consumerDisconnect
    | setDefaultBufferSize w hgt =>
      rw [segment, some.injEq, setDefaultBufferSize] at hseg
      subst hseg
      split_ifs
      · exact spec_done
      · exact spec_quiet rfl rfl rfl
    | setDefaultBufferFormat format
    | setConsumerUsageBits usage
    | setTransformHint hint => exact some.inj hseg ▸ spec_quiet rfl rfl rfl
    | getReleasedBuffers =>
      rw [segment, some.injEq, getReleasedBuffers] at hseg
      subst hseg
      split_ifs
      · exact spec_done
      · exact spec_quiet rfl rfl rfl
  | resume thread =>
    cases thread with
    | dequeue args => exact some.inj hseg ▸
        spec_dequeuePass args alloc (fun h => ⟨fun _ => h, fun _ => h⟩) fun h _ _ => h
    | setAsynchronous => exact some.inj hseg ▸ spec_resumeSetAsynchronous
    | disconnect => exact some.inj hseg ▸ spec_resumeDisconnect

lemma sound_segment (h : q.Bounded) (hseg : q.segment alloc turn = some seg) :
    Sound q seg := (spec_segment hseg).sound h

/-- **Who may do what.** -/
theorem segment_enters (hseg : q.segment alloc turn = some seg) : ∀ a ∈ seg.log, turn.Enters q a :=
  (spec_segment hseg).enters

end Operations

lemma bounded_init {allowSynchronousMode : Bool} {bufferCount : ℤ}
    (hcount : bufferCount < numBufferSlots) : (init allowSynchronousMode bufferCount).Bounded :=
  ⟨hcount, le_of_lt hcount, hcount⟩

end BufferQueue

/-! ## Steps and runs -/

variable {w w' : World}

lemma World.Step.sound {e : Event} (h : w.Step e w') (hb : w.queue.Bounded) :
    Runs Ledger.Step w.queue.ledger e.segment.log w'.queue.ledger ∧ w'.queue.Bounded := by
  obtain ⟨⟨alloc, hseg⟩, hq⟩ := h.segment_eq
  rw [hq]
  exact ⟨(BufferQueue.sound_segment hb hseg).refines, (BufferQueue.sound_segment hb hseg).bounded⟩

/-- **Every run keeps the ledger.** -/
theorem runs_refine {events : List Event} (h : Runs World.Step w events w') (hb : w.queue.Bounded) :
    Runs Step w.queue.ledger (logOf events) w'.queue.ledger ∧ w'.queue.Bounded := by
  refine ⟨?_, ?_⟩
  · exact h.simulate (fun w => w.queue.ledger)
      (fun e => e.segment.log) hb (fun hb hstep => (hstep.sound hb).2) fun hb hstep =>
        (hstep.sound hb).1
  · exact h.invariant hb fun hb hstep => (hstep.sound hb).2

end Droid
