import DroidPlatform.BufferQueue.DequeuedSlot

/-!
# What a failed call leaves behind

A call that returns an error should not have happened.  Three operations of the queue write first
and check later:

* `dequeueBuffer` marks the slot `DEQUEUED` before it asks for a buffer, and does not take the mark
  back when `createGraphicBuffer` fails: the slot is lost, and may have no buffer at all
  (`slot_lost`).  With the allocator behaving, a refused `dequeueBuffer` takes no slot, and every
  slot the producer holds has its buffer (`failed_dequeue_takes_no_slot_iff`);
* `connect` clears `mBufferHasBeenQueued` also if it refuses the producer;
* `releaseBuffer` stores the display and the fence also in a slot it refuses to release
  (`failed_calls_keep_queue_iff`).
-/

namespace Droid

open Option BufferQueue

/-- `createGraphicBuffer` gave a buffer, if this step asked for one. -/
def Allocated (w : World) (e : Event) : Prop :=
  ∃ g, w.queue.segment (.ok g) e.turn = some e.segment

/-! ## The ways a pass of `dequeueBuffer` can go -/

/-- What a pass, as a function of the allocator's answer, does in queue `q` with the answer
`alloc`. -/
inductive Dequeues (q : BufferQueue) (alloc : Except Status GraphicBuffer)
    (pass : Except Status GraphicBuffer → Segment) : Prop
  /-- No slot is found or allowed, and the allocator is not asked. -/
  | nothing (hpass : ∀ alloc', pass alloc' = pass alloc)
      (hlog : ∀ i b, .dequeue i b ∉ (pass alloc).log)
  /-- A slot is handed out with its buffer. -/
  | handsOut (g : GraphicBuffer) (hpass : pass (.ok g) = pass alloc)
      (hlog : ∀ i b, .dequeue i b ∈ (pass alloc).log → b ≠ none)
      (flags : ℕ) (hstatus : (pass alloc).status? = some (flags : ℤ))
  /-- The allocator fails, and the slot is `DEQUEUED` nevertheless. -/
  | fails (e : Status) (halloc : alloc = .error e) (i : Slot)
      (hdeq : ((pass alloc).queue.mSlots i).mBufferState = .dequeued)
      (hold : (q.mSlots i).mBufferState = .free ∨
        ((pass alloc).queue.mSlots i).mGraphicBuffer = none)

namespace BufferQueue

variable {q q₀ : BufferQueue} {alloc : Except Status GraphicBuffer} {args : DequeueArgs}
  {log : List Action} {i : Slot}

/-- Handing out a free slot of the queue `q₀`, or one that has no buffer. -/
lemma handOut_dequeues (hfree : (q.mSlots i).mBufferState = .free)
    (hq : q = q₀ ∨ (q.mSlots i).mGraphicBuffer = none) (hlog : ∀ j b, .dequeue j b ∉ log) :
    Dequeues q₀ alloc fun alloc => q.handOut args alloc i log := by
  have hentry : ∀ {b : Option GraphicBuffer}, b ≠ none →
      ∀ j b', .dequeue j b' ∈ log ++ [.dequeue i b] → b' ≠ none := by
    intro b hb j b' hmem
    rcases List.mem_append.mp hmem with hmem | hmem
    · exact absurd hmem (hlog j b')
    · rw [List.mem_singleton, Action.dequeue.injEq] at hmem
      rw [hmem.2]
      exact hb
  cases hfits : fits (q.mSlots i).mGraphicBuffer (q.request args) with
  | true =>
    have hbuffer : (q.mSlots i).mGraphicBuffer ≠ none := by
      intro hnone
      rw [hnone] at hfits
      cases hfits
    refine .handsOut ⟨0, 0, 0, 0, 0⟩ ?_ ?_ args.returnFlags ?_
    · simp [handOut, hfits]
    · simp only [handOut, hfits]
      exact hentry hbuffer
    · simp only [handOut, hfits]
      rfl
  | false =>
    cases alloc with
    | ok g =>
      refine .handsOut g rfl ?_ (args.returnFlags ||| bufferNeedsReallocation) ?_
      · simp only [handOut, hfits]
        exact hentry (some_ne_none g)
      · simp only [handOut, hfits]
        rfl
    | error e =>
      refine .fails e rfl i ?_ ?_
      · simp [handOut, hfits, setSlot]
      · rcases hq with rfl | hnone
        · exact Or.inl hfree
        · refine Or.inr ?_
          simpa [handOut, hfits, setSlot] using hnone

lemma search_dequeues (hq : q = q₀ ∨ ∀ j, (q.mSlots j).mGraphicBuffer = none)
    (hlog : ∀ j b, .dequeue j b ∉ log) :
    Dequeues q₀ alloc fun alloc => q.search args alloc log := by
  by_cases hclient : q.mClientBufferCount = 0 ∧ q.scan.2 ≠ 0
  · have hpass : ∀ alloc, q.search args alloc log = ⟨q, .returns { status := .einval }, log⟩ := by
      intro alloc
      simp only [search]
      rw [if_pos hclient]
    exact .nothing (fun alloc' => (hpass alloc').trans (hpass alloc).symm) (by
      simpa only [hpass] using hlog)
  by_cases hbusy : q.exceedsMinUndequeued q.scan.2 = true
  · have hpass : ∀ alloc, q.search args alloc log = ⟨q, .returns { status := .ebusy }, log⟩ := by
      intro alloc
      simp only [search]
      rw [if_neg hclient, if_pos hbusy]
    exact .nothing (fun alloc' => (hpass alloc').trans (hpass alloc).symm) (by
      simpa only [hpass] using hlog)
  cases hfound : q.scan.1 with
  | none =>
    have hpass : ∀ alloc, q.search args alloc log = ⟨q, .waits (.dequeue args), log⟩ := by
      intro alloc
      simp only [search]
      rw [if_neg hclient, if_neg hbusy, hfound]
    exact .nothing (fun alloc' => (hpass alloc').trans (hpass alloc).symm) (by
      simpa only [hpass] using hlog)
  | some i =>
    have hpass : (fun alloc => q.search args alloc log) = fun alloc =>
        q.handOut args alloc i log := by
      funext alloc
      simp only [search]
      rw [if_neg hclient, if_neg hbusy, hfound]
    rw [hpass]
    exact handOut_dequeues (scan_found hfound).1 (hq.imp_right fun hnone => hnone i) hlog

lemma dequeuePass_dequeues : Dequeues q alloc fun alloc => q.dequeuePass args alloc := by
  by_cases habandoned : q.mAbandoned = true
  · simp only [dequeuePass, if_pos habandoned]
    exact .nothing (fun _ => rfl) (by simp [Segment.done])
  by_cases hchange : q.numberOfBuffersNeedsToChange = true
  · by_cases hqueue : q.mQueue ≠ []
    · simp only [dequeuePass, if_neg habandoned, if_pos hchange, if_pos hqueue]
      exact .nothing (fun _ => rfl) (by simp)
    · simp only [dequeuePass, if_neg habandoned, if_pos hchange, if_neg hqueue]
      exact search_dequeues (Or.inr fun _ => rfl) (by simp)
  · simp only [dequeuePass, if_neg habandoned, if_neg hchange]
    exact search_dequeues (Or.inl rfl) (by simp)

/-- **The passes of `dequeueBuffer`**, called or resumed. -/
lemma segment_dequeues (q : BufferQueue) (alloc : Except Status GraphicBuffer) {turn : Turn}
    (hturn : turn.isDequeue = true) :
    ∃ pass, (∀ alloc, q.segment alloc turn = some (pass alloc)) ∧ Dequeues q alloc pass := by
  cases turn with
  | call c =>
    cases c with
    | dequeueBuffer w h format usage =>
      refine ⟨fun alloc => q.dequeueBuffer w h format usage alloc, fun _ => rfl, ?_⟩
      by_cases hsize : (w ≠ 0 ∧ h = 0) ∨ (w = 0 ∧ h ≠ 0)
      · simp only [dequeueBuffer, if_pos hsize]
        exact .nothing (fun _ => rfl) (by simp [Segment.done])
      · simp only [dequeueBuffer, if_neg hsize]
        exact dequeuePass_dequeues
    | _ => cases hturn
  | resume thread =>
    cases thread with
    | dequeue args => exact ⟨_, fun _ => rfl, dequeuePass_dequeues⟩
    | _ => cases hturn

end BufferQueue

/-! ## Slots with the producer have buffers -/

namespace Ledger

/-- Every slot with the producer has a buffer. -/
def Filled (l : Ledger) : Prop := ∀ i, l.state i = .dequeued → l.buffer i ≠ none

lemma Filled.step {l l' : Ledger} {a : Action} (h : l.Filled) (hc : l.Consistent)
    (hstep : l.Step a l') (ha : ∀ i b, a = .dequeue i b → b ≠ none) : l'.Filled := by
  intro i hdeq
  have hold := hstep.dequeued_of hc hdeq
  cases hstep with
  | freeAll => cases hdeq
  | freeExceptHead hsync =>
    simp only [freeSlots] at hdeq ⊢
    split_ifs at hdeq ⊢
    exact h i hdeq
  | @dequeue j b hfree hlt =>
    by_cases hij : i = j
    · subst hij
      simpa using ha i b rfl
    · simp only [setState, Function.update_of_ne hij] at hdeq ⊢
      exact h i hdeq
  | @queue j frame hj hnum =>
    have hbuffer := (l.enqueue_frame j).1
    simp only [setState, hbuffer]
    exact h i (by simpa using hold)
  | _ => exact h i (by simpa using hold)

lemma Filled.runs {l l' : Ledger} {log : List Action} (h : l.Filled) (hc : l.Consistent)
    (hruns : Runs Step l log l') (hlog : ∀ i b, .dequeue i b ∈ log → b ≠ none) : l'.Filled := by
  have hhist := hruns.history (P := fun log l' => l'.Consistent ∧
      ((∀ i b, .dequeue i b ∈ log → b ≠ none) → l'.Filled)) ⟨hc, fun _ => h⟩ (by
    rintro log l1 a l2 ⟨hc1, ih⟩ hstep
    refine ⟨hc1.step hstep, fun hlog => ?_⟩
    have hfilled := ih fun i b hmem => hlog i b (List.mem_append_left _ hmem)
    exact hfilled.step hc1 hstep fun i b ha => hlog i b (by simp [ha]))
  exact hhist.2 hlog

end Ledger

lemma filled_init {allowSynchronousMode : Bool} {bufferCount : ℤ} :
    (init allowSynchronousMode bufferCount).ledger.Filled := by
  intro i hdeq
  cases hdeq

namespace Allocated

variable {w w' : World} {e : Event}

/-- A step with a working allocator hands out no slot without a buffer. -/
lemma log_filled (h : Allocated w e) : ∀ i b, .dequeue i b ∈ e.segment.log → b ≠ none := by
  intro i b hmem
  rcases h with ⟨g, hseg⟩
  have hturn := (segment_enters hseg _ hmem).of_dequeue.1
  rcases segment_dequeues w.queue (.ok g) hturn with ⟨pass, hpass, hdeq⟩
  rw [hpass, some.injEq] at hseg
  rw [← hseg] at hmem
  cases hdeq with
  | nothing _ hlog => exact absurd hmem (hlog i b)
  | handsOut _ _ hlog _ _ => exact hlog i b hmem
  | fails e halloc _ _ _ => cases halloc

/-- If the call then returns an error, it has handed out nothing. -/
lemma not_mem_log (h : Allocated w e) (hturn : e.turn.isDequeue = true) {st : Status}
    (hst : e.segment.status? = some st) (herr : st < 0) : ∀ i b, .dequeue i b ∉ e.segment.log := by
  rcases h with ⟨g, hseg⟩
  rcases segment_dequeues w.queue (.ok g) hturn with ⟨pass, hpass, hdeq⟩
  rw [hpass, some.injEq] at hseg
  rw [← hseg] at hst ⊢
  cases hdeq with
  | nothing _ hlog => exact hlog
  | handsOut _ _ _ flags hstatus =>
    rw [hstatus, some.injEq] at hst
    rw [← hst] at herr
    exact absurd herr (not_lt.mpr (Int.natCast_nonneg flags))
  | fails e halloc _ _ _ => cases halloc

lemma filled (h : Allocated w e) (hstep : w.Step e w') (hc : w.queue.ledger.Consistent)
    (hb : w.queue.Bounded) (hfilled : w.queue.ledger.Filled) : w'.queue.ledger.Filled :=
  hfilled.runs hc (hstep.sound hb).1 h.log_filled

/-- A failed pass that takes no slot, and leaves no slot with the producer without a buffer, got the
buffer it asked for. -/
lemma of_kept (hstep : w.Step e w') (hturn : e.turn.isDequeue = true)
    (hkept : ∀ i, (w'.queue.mSlots i).mBufferState = .dequeued →
      (w.queue.mSlots i).mBufferState = .dequeued ∧
        (w'.queue.mSlots i).mGraphicBuffer ≠ none) : Allocated w e := by
  rcases hstep.segment_eq with ⟨⟨alloc, hseg⟩, hq⟩
  rcases segment_dequeues w.queue alloc hturn with ⟨pass, hpass, hdeq⟩
  rw [hpass, some.injEq] at hseg
  cases hdeq with
  | nothing hsame _ => exact ⟨⟨0, 0, 0, 0, 0⟩, by rw [hpass, hsame, hseg]⟩
  | handsOut g hsame _ _ _ => exact ⟨g, by rw [hpass, hsame, hseg]⟩
  | fails e _ i hdeq hold =>
    -- the slot marked without a buffer is one the caller did not hold, or has no buffer now
    rw [hseg, ← hq] at hdeq hold
    have hi := hkept i hdeq
    rcases hold with hfree | hnone
    · rw [hfree] at hi
      cases hi.1
    · exact absurd hnone hi.2

end Allocated

/-- **A failed `dequeueBuffer` takes no slot, if the allocator works.**  In every run in which
`createGraphicBuffer` gives the buffers it is asked for, every `DEQUEUED` slot has a buffer.  A pass
of `dequeueBuffer` that returns an error then leaves no slot `DEQUEUED` that was not before, and
none without a buffer, exactly if `createGraphicBuffer` did not fail in it. -/
theorem failed_dequeue_takes_no_slot_iff (allowSynchronousMode : Bool) (bufferCount : ℤ)
    (hcount : bufferCount < numBufferSlots) (events : List Event) (w : World)
    (h : Runs (fun w e w' => w.Step e w' ∧ Allocated w e)
      (World.init allowSynchronousMode bufferCount) events w) :
    (∀ i, (w.queue.mSlots i).mBufferState = .dequeued →
      (w.queue.mSlots i).mGraphicBuffer ≠ none) ∧
    ∀ e w', w.Step e w' → e.turn.isDequeue = true →
      ∀ st, e.segment.status? = some st → st < 0 →
        ((∀ i, (w'.queue.mSlots i).mBufferState = .dequeued →
          (w.queue.mSlots i).mBufferState = .dequeued ∧
            (w'.queue.mSlots i).mGraphicBuffer ≠ none) ↔ Allocated w e) := by
  obtain ⟨hc, hb, hfilled⟩ : w.queue.ledger.Consistent ∧ w.queue.Bounded ∧ w.queue.ledger.Filled :=
    h.invariant (P := fun w => w.queue.ledger.Consistent ∧ w.queue.Bounded ∧ w.queue.ledger.Filled)
      ⟨consistent_init hcount, bounded_init hcount, filled_init⟩ (by
      rintro w1 e w2 ⟨hc, hb, hfilled⟩ ⟨hstep, halloc⟩
      obtain ⟨hruns, hb'⟩ := hstep.sound hb
      exact ⟨hruns.invariant hc fun hc hstep => hc.step hstep, hb',
        halloc.filled hstep hc hb hfilled⟩)
  refine ⟨hfilled, ?_⟩
  intro e w' hstep hturn st hst herr
  refine ⟨Allocated.of_kept hstep hturn, ?_⟩
  intro halloc i hdeq
  refine ⟨?_, halloc.filled hstep hc hb hfilled i hdeq⟩
  rcases Ledger.dequeued_of_runs (hstep.sound hb).1 hc hdeq with hold | ⟨b, hb⟩
  · exact hold
  · exact absurd hb (halloc.not_mem_log hturn hst herr i b)

/-- What runs with a buffer at hand is a step with a working allocator. -/
lemma Allocated.of_turn {w w' : World} {g : GraphicBuffer} {t : Turn} {e : Event}
    (h : w.turn (.ok g) t = some (e, w')) : w.Step e w' ∧ Allocated w e := by
  refine ⟨World.step_of_turn h, g, ?_⟩
  cases t with
  | call c =>
    obtain ⟨seg, hseg, heq⟩ := map_eq_some_iff.mp h
    cases heq
    exact hseg
  | resume thread =>
    rw [World.turn] at h
    split_ifs at h
    obtain ⟨seg, hseg, heq⟩ := map_eq_some_iff.mp h
    cases heq
    exact hseg

theorem failed_dequeue_takes_no_slot_iff_secondDequeue :
    ∃ events w e w', Runs World.Step (World.init true 2) events w ∧ w.Step e w' ∧
      e.turn.isDequeue = true ∧ e.segment.status? = some .einval ∧
      ∀ i, (w'.queue.mSlots i).mBufferState = .dequeued →
        (w.queue.mSlots i).mBufferState = .dequeued ∧
          (w'.queue.mSlots i).mGraphicBuffer ≠ none := by
  have hturn : ∀ w t e w', w.turn (.ok smallBuffer) t = some (e, w') →
      w.Step e w' ∧ Allocated w e := fun _ _ _ _ h => Allocated.of_turn h
  obtain ⟨events, w, hruns, hnext⟩ := Runs.exists_of_execute
    (P := fun _ w => (w.turn (.ok smallBuffer) (.call (.dequeueBuffer 0 0 1 0))).any (fun r =>
      r.1.turn.isDequeue = true ∧ r.1.segment.status? = some .einval) = true)
    hturn (s := World.init true 2) [.call (.dequeueBuffer 0 0 1 0)] (by decide)
  cases hturn : w.turn (.ok smallBuffer) (.call (.dequeueBuffer 0 0 1 0)) with
  | none => simp [hturn] at hnext
  | some r =>
    rw [hturn, any_some, decide_eq_true_iff] at hnext
    obtain ⟨hstep, halloc⟩ := Allocated.of_turn hturn
    have hiff := (failed_dequeue_takes_no_slot_iff true 2 (by decide) events w hruns).2 r.1 r.2
      hstep hnext.1 _ hnext.2 (by decide)
    exact ⟨events, w, r.1, r.2, hruns.mono And.left, hstep, hnext.1, hnext.2, hiff.mpr halloc⟩

/-- **A slot is lost.**  The first `dequeueBuffer` finds no memory and returns an error; slot 0 is
`DEQUEUED` all the same, without a buffer. -/
theorem slot_lost :
    ∃ events w, Runs World.Step (World.init true 2) events w ∧
      events.map (fun e => (e.turn, e.segment.status?))
        = [(.call (.dequeueBuffer 0 0 1 0), some .noMemory)] ∧
      (w.queue.mSlots 0).mBufferState = .dequeued ∧ (w.queue.mSlots 0).mGraphicBuffer = none :=
  World.exists_run (.error .noMemory) [.call (.dequeueBuffer 0 0 1 0)] (by decide)

/-! ## Calls that write before they check -/

namespace BufferQueue

variable {q : BufferQueue}

lemma connect_keeps_iff {api : ℤ} {st : Status} (hst : (q.connect api).status? = some st)
    (herr : st ≠ .ok) : (q.connect api).queue = q ↔
      q.mAbandoned = true ∨ q.mConsumerListener = none ∨ q.mBufferHasBeenQueued = false := by
  rw [connect] at hst ⊢
  split_ifs at hst ⊢ with habandoned hlistener hok
  · exact iff_of_true rfl (Or.inl habandoned)
  · exact iff_of_true rfl (Or.inr (Or.inl hlistener))
  · exact absurd (some.inj hst).symm herr
  · refine ⟨fun h => ?_, ?_⟩
    · have hqueued : q.mBufferHasBeenQueued = false := (congrArg mBufferHasBeenQueued h).symm
      exact Or.inr (Or.inr hqueued)
    · rintro (h | h | h)
      · exact absurd h habandoned
      · exact absurd h hlistener
      · cases q
        cases h
        rfl

/-- Writing a slot changes nothing exactly if the slot is as written. -/
lemma setSlot_eq_iff {i : Slot} {s : BufferSlot} : q.setSlot i s = q ↔ s = q.mSlots i := by
  refine ⟨fun h => ?_, fun h => ?_⟩
  · have hslot := congrFun (congrArg mSlots h) i
    simpa [setSlot] using hslot
  · rw [h, setSlot, Function.update_eq_self]

lemma releaseBuffer_keeps_iff {buf : ℤ} {display fence : ℕ} {seg : Segment}
    (hseg : q.releaseBuffer buf display fence = some seg) (herr : seg.status? = some .einval) :
    seg.queue = q ↔ ∀ i, slot? buf = some i →
      (q.mSlots i).mEglDisplay = display ∧ (q.mSlots i).mFence = fence := by
  rw [releaseBuffer] at hseg
  split_ifs at hseg with hbuf
  · cases hseg
    refine iff_of_true rfl ?_
    intro i hi
    rw [hbuf] at hi
    cases hi
  · obtain ⟨i, hi, hseg⟩ := map_eq_some_iff.mp hseg
    simp only at hseg
    split_ifs at hseg
    · rw [← hseg] at herr
      cases herr
    · rw [← hseg] at herr
      cases herr
    · rw [← hseg, Segment.done, setSlot_eq_iff]
      refine ⟨?_, fun h => ?_⟩
      · intro h j hj
        rw [hi, some.injEq] at hj
        rw [← hj, ← h]
        exact ⟨rfl, rfl⟩
      · rw [← (h i hi).1, ← (h i hi).2]

end BufferQueue

/-- **When a refused call leaves the queue alone.**  A `connect` that returns an error, exactly if
the queue is abandoned, has no consumer, or no buffer counts as queued; a `releaseBuffer` that
returns `-EINVAL`, exactly if it is given no slot, or the slot already has the display and the
fence. -/
theorem failed_calls_keep_queue_iff (q : BufferQueue) :
    (∀ api st, (q.connect api).status? = some st → st ≠ .ok →
      ((q.connect api).queue = q ↔
        q.mAbandoned = true ∨ q.mConsumerListener = none ∨ q.mBufferHasBeenQueued = false)) ∧
    ∀ buf display fence seg, q.releaseBuffer buf display fence = some seg →
      seg.status? = some .einval →
      (seg.queue = q ↔ ∀ i, BufferQueue.slot? buf = some i →
        (q.mSlots i).mEglDisplay = display ∧ (q.mSlots i).mFence = fence) :=
  ⟨fun _ _ hst herr => connect_keeps_iff hst herr,
    fun _ _ _ _ hseg herr => releaseBuffer_keeps_iff hseg herr⟩

theorem failed_calls_keep_queue_iff_firstFrame :
    ∃ events w seg, Runs World.Step (World.init true 2) events w ∧
      (w.queue.connect 1).status? = some .einval ∧ (w.queue.connect 1).queue ≠ w.queue ∧
      w.queue.releaseBuffer 1 0 0 = some seg ∧ seg.status? = some .einval ∧
      seg.queue = w.queue := by
  obtain ⟨events, w, hruns, hconn, hkept, hrel, hslot⟩ := World.exists_run
    (P := fun _ w => (w.queue.connect 1).status? = some .einval ∧
      ¬ (w.queue.mAbandoned = true ∨ w.queue.mConsumerListener = none ∨
        w.queue.mBufferHasBeenQueued = false) ∧
      (w.queue.releaseBuffer 1 0 0).any (fun seg => seg.status? = some .einval) = true ∧
      (w.queue.mSlots 1).mEglDisplay = 0 ∧ (w.queue.mSlots 1).mFence = 0)
    (w := World.init true 2) (.ok smallBuffer) firstFrame (by decide)
  cases hseg : w.queue.releaseBuffer 1 0 0 with
  | none => simp [hseg] at hrel
  | some seg =>
    rw [hseg, any_some, decide_eq_true_iff] at hrel
    refine ⟨events, w, seg, hruns, hconn, ?_, hseg, hrel, ?_⟩
    · rwa [Ne, (failed_calls_keep_queue_iff w.queue).1 1 _ hconn (by decide)]
    · refine ((failed_calls_keep_queue_iff w.queue).2 1 0 0 seg hseg hrel).mpr ?_
      intro i hi
      obtain rfl : 1 = i := some.inj hi
      exact hslot

/-- **Refused, but not without a trace.**  A producer is connected and has queued a frame.  A second
`connect` is refused, and no buffer counts as queued any more; releasing slot 1, which nobody has
acquired, is refused, and the slot has a new display and a new fence. -/
theorem failed_calls_leave_traces :
    ∃ events w, Runs World.Step (World.init true 2) events w ∧
      (w.queue.connect 1).status? = some .einval ∧ w.queue.mBufferHasBeenQueued = true ∧
      (w.queue.connect 1).queue.mBufferHasBeenQueued = false ∧
      (w.queue.releaseBuffer 1 5 6).bind Segment.status? = some .einval ∧
      (w.queue.mSlots 1).mEglDisplay = 0 ∧ (w.queue.mSlots 1).mFence = 0 ∧
      (w.queue.releaseBuffer 1 5 6).map (fun seg =>
        ((seg.queue.mSlots 1).mEglDisplay, (seg.queue.mSlots 1).mFence)) = some (5, 6) :=
  World.exists_run (.ok smallBuffer) firstFrame (by decide)

end Droid
