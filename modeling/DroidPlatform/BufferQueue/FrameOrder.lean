import DroidPlatform.BufferQueue.Consistency

/-!
# Frames are delivered in order

Three facts about what consumers see, for every interleaving (`bufferQueue_frameOrder`):

* the frame numbers of successive acquisitions increase strictly, as long as the 64-bit frame
  counter does not come around;
* in a stretch of a run that stays in synchronous mode and frees no buffers, what was waiting and
  what is queued meanwhile comes out unchanged, in that order: nothing is lost, nothing comes twice;
* in asynchronous mode an acquisition returns the frame queued last.

They are read off one lemma that says what an entry of the ledger does to the list of waiting frames
(`Ledger.Step.waiting`).
-/

namespace Droid

open List Option Action

/-- The frame an action queues. -/
def Action.queued? : Action → Option (Slot × Frame)
  | .queue i frame => some (i, frame)
  | _ => none

/-- The frame an action hands to the consumer. -/
def Action.acquired? : Action → Option (Slot × Frame)
  | .acquire i frame => some (i, frame)
  | _ => none

namespace Ledger

/-- The frames that wait for the consumer. -/
def waiting (l : Ledger) : List (Slot × Frame) := l.fifo.map fun i => (i, l.frame i)

variable {l l' : Ledger} {a : Action} {log : List Action}

/-- Recording a frame in a slot that does not wait changes no waiting frame. -/
lemma waiting_update {i : Slot} (hi : ∀ j ∈ l.fifo, j ≠ i) (frame : Frame) :
    (l.fifo.map fun j => (j, Function.update l.frame i frame j)) = l.waiting := by
  refine map_congr_left fun j hj => ?_
  rw [Function.update_of_ne (hi j hj)]

/-- **What an entry does to the waiting frames**: it adds one at the end (in asynchronous mode after
dropping the others), it takes the first one out, or it leaves them or drops them all. -/
lemma Step.waiting (hc : l.Consistent) (h : l.Step a l') :
    (∃ i frame, a = .queue i frame ∧ frame.mFrameNumber = (l.counter + 1) % 2 ^ 64 ∧
      l'.counter = (l.counter + 1) % 2 ^ 64 ∧ l'.sync = l.sync ∧
      l'.waiting = (if l.sync then l.waiting else []) ++ [(i, frame)]) ∨
    (∃ i frame, a = .acquire i frame ∧ l.waiting = (i, frame) :: l'.waiting ∧
      l'.counter = l.counter ∧ l'.sync = l.sync) ∨
    (a.queued? = none ∧ a.acquired? = none ∧ l'.counter = l.counter ∧
      (l'.sync = l.sync ∨ ∃ b, a = .setSync b ∧ l'.sync = b ∧ (b = false → l'.waiting = [])) ∧
      (l'.waiting = l.waiting ∨ l'.waiting = [] ∧ ∃ kept, a = .free kept)) := by
  have hne : ∀ {i}, l.state i ≠ .queued → ∀ j ∈ l.fifo, j ≠ i := by
    rintro i hi j hj rfl
    exact hi ((hc.mem_iff j).mp hj)
  cases h with
  | freeAll => exact Or.inr (Or.inr ⟨rfl, rfl, rfl, Or.inl rfl, Or.inr ⟨rfl, none, rfl⟩⟩)
  | freeExceptHead hsync =>
    refine Or.inr (Or.inr ⟨rfl, rfl, rfl, Or.inl rfl, ?_⟩)
    have hlen := hc.async hsync
    cases hf : l.fifo with
    | nil =>
      refine Or.inl ?_
      simp [waiting, freeSlots, hf]
    | cons front rest =>
      rw [hf] at hlen
      obtain rfl : rest = [] := length_eq_zero_iff.mp (by simpa using hlen)
      refine Or.inl ?_
      simp [waiting, freeSlots, hf]
  | resize | dequeue | release
  | clean => exact Or.inr (Or.inr ⟨rfl, rfl, rfl, Or.inl rfl, Or.inl rfl⟩)
  | @queue i frame hdeq hnum =>
    refine Or.inl ⟨i, frame, rfl, hnum, rfl, (l.enqueue_frame i).2.2.2.2.1, ?_⟩
    have hupd := waiting_update (hne (by rw [hdeq]; decide)) frame
    cases hsync : l.sync with
    | true => simpa [waiting, enqueue, setState, hsync] using hupd
    | false =>
      have hlen := hc.async hsync
      cases hf : l.fifo with
      | nil => simp [waiting, enqueue, setState, hf]
      | cons front rest =>
        rw [hf] at hlen
        obtain rfl : rest = [] := length_eq_zero_iff.mp (by simpa using hlen)
        simp [waiting, enqueue, setState, hsync, hf]
  | @cancel i hdeq =>
    refine Or.inr (Or.inr ⟨rfl, rfl, rfl, Or.inl rfl, Or.inl ?_⟩)
    exact waiting_update (hne (by rw [hdeq]; decide)) _
  | @acquire i rest hfifo =>
    refine Or.inr (Or.inl ⟨i, l.frame i, rfl, ?_, rfl, rfl⟩)
    simp [waiting, hfifo, setState]
  | setSync hdrained =>
    refine Or.inr (Or.inr ⟨rfl, rfl, rfl, Or.inr ⟨_, rfl, rfl, ?_⟩, Or.inl rfl⟩)
    intro hb
    simp [waiting, hdrained hb]

/-! ## Numbers -/

/-- The frames queued, and the frames acquired, according to a log. -/
def queuedFrames (log : List Action) : List (Slot × Frame) := log.filterMap Action.queued?

def acquiredFrames (log : List Action) : List (Slot × Frame) := log.filterMap Action.acquired?

lemma queuedFrames_snoc (log : List Action) (a : Action) :
    queuedFrames (log ++ [a]) = queuedFrames log ++ a.queued?.toList := by
  cases hqa : a.queued? <;> simp [queuedFrames, hqa]

lemma acquiredFrames_snoc (log : List Action) (a : Action) :
    acquiredFrames (log ++ [a]) = acquiredFrames log ++ a.acquired?.toList := by
  cases haa : a.acquired? <;> simp [acquiredFrames, haa]

/-- **Numbers increase**: what was acquired and what waits, in this order, carries increasing frame
numbers, none above the counter. -/
structure Numbered (log : List Action) (l : Ledger) : Prop where
  counter : l.counter = (queuedFrames log).length
  sorted : ((acquiredFrames log ++ l.waiting).map (·.2.mFrameNumber)).Pairwise (· < ·)
  le_counter : ∀ x ∈ acquiredFrames log ++ l.waiting, x.2.mFrameNumber ≤ l.counter

lemma Numbered.step (hc : l.Consistent) (h : Numbered log l) (hstep : l.Step a l')
    (hlt : (queuedFrames (log ++ [a])).length < 2 ^ 64) : Numbered (log ++ [a]) l' := by
  have hq := queuedFrames_snoc log a
  have hacq := acquiredFrames_snoc log a
  rcases hstep.waiting hc with ⟨i, frame, rfl, hnum, hcount, _, hw⟩ | ⟨i, frame, rfl, hw, hcount, _⟩ |
    ⟨hnq, hna, hcount, _, hw⟩
  · -- the new frame has the next number, above all others
    rw [hq, length_append] at hlt
    have hnext : (l.counter + 1) % 2 ^ 64 = l.counter + 1 := by
      refine Nat.mod_eq_of_lt ?_
      rw [h.counter]
      exact hlt
    rw [hnext] at hnum hcount
    have hsub : (acquiredFrames log ++ if l.sync then l.waiting else []).Sublist
        (acquiredFrames log ++ l.waiting) := by
      refine Sublist.append (Sublist.refl _) ?_
      split_ifs
      · exact Sublist.refl _
      · exact nil_sublist _
    have hlist : acquiredFrames (log ++ [.queue i frame]) ++ l'.waiting
        = (acquiredFrames log ++ if l.sync then l.waiting else []) ++ [(i, frame)] := by
      rw [hacq, hw]
      simp [acquired?]
    have hle : ∀ x ∈ acquiredFrames log ++ (if l.sync then l.waiting else []),
        x.2.mFrameNumber ≤ l.counter := fun x hx => h.le_counter x (hsub.subset hx)
    refine ⟨?_, ?_, ?_⟩
    · rw [hcount, hq, h.counter]
      simp [queued?]
    · rw [hlist, map_append, pairwise_append]
      refine ⟨h.sorted.sublist (hsub.map _), by simp, ?_⟩
      intro m hm n hn
      obtain ⟨x, hx, rfl⟩ := mem_map.mp hm
      rw [map_singleton, mem_singleton] at hn
      rw [hn, hnum]
      exact Nat.lt_succ_of_le (hle x hx)
    · rw [hlist]
      intro x hx
      rcases mem_append.mp hx with hx | hx
      · exact le_trans (hle x hx) (by rw [hcount]; exact Nat.le_succ _)
      · rw [mem_singleton.mp hx, hcount, hnum]
  · -- an acquired frame only moves from one list to the other
    have hlist : acquiredFrames (log ++ [.acquire i frame]) ++ l'.waiting
        = acquiredFrames log ++ l.waiting := by
      rw [hacq, hw]
      simp [acquired?]
    refine ⟨?_, hlist ▸ h.sorted, ?_⟩
    · rw [hcount, hq, h.counter]
      simp [queued?]
    · rw [hlist, hcount]
      exact h.le_counter
  · have hsub : (acquiredFrames log ++ l'.waiting).Sublist (acquiredFrames log ++ l.waiting) := by
      refine Sublist.append (Sublist.refl _) ?_
      rcases hw with hw | ⟨hw, _⟩
      · rw [hw]
      · rw [hw]
        exact nil_sublist _
    rw [hnq, toList_none, append_nil] at hq
    rw [hna, toList_none, append_nil] at hacq
    refine ⟨by rw [hcount, hq, h.counter], ?_, ?_⟩
    · rw [hacq]
      exact h.sorted.sublist (hsub.map _)
    · rw [hacq, hcount]
      exact fun x hx => h.le_counter x (hsub.subset hx)

/-- From a ledger without frames on, acquired and waiting frames are numbered in order. -/
theorem numbered_of_runs (h : Runs Step l log l') (hc : l.Consistent) (hfifo : l.fifo = [])
    (hcounter : l.counter = 0) (hlt : (queuedFrames log).length < 2 ^ 64) : Numbered log l' := by
  have hhist := h.history
    (P := fun log l => l.Consistent ∧ ((queuedFrames log).length < 2 ^ 64 → Numbered log l))
    ⟨hc, fun _ => ⟨hcounter, by simp [waiting, acquiredFrames, hfifo],
      by simp [waiting, acquiredFrames, hfifo]⟩⟩ (by
    rintro log l a l' ⟨hc, hnum⟩ hstep
    refine ⟨hc.step hstep, fun hlt => (hnum ?_).step hc hstep hlt⟩
    rw [queuedFrames_snoc, length_append] at hlt
    exact lt_of_le_of_lt (Nat.le_add_right _ _) hlt)
  exact hhist.2 hlt

/-! ## The newest frame -/

/-- In asynchronous mode only the frame queued last can be waiting. -/
def Newest (log : List Action) (l : Ledger) : Prop :=
  l.sync = false → ∀ x ∈ l.waiting, (queuedFrames log).getLast? = some x

lemma Newest.step (hc : l.Consistent) (h : Newest log l) (hstep : l.Step a l') :
    Newest (log ++ [a]) l' := by
  intro hsync' x hx
  rcases hstep.waiting hc with ⟨i, frame, rfl, _, _, hsync, hw⟩ | ⟨i, frame, rfl, hw, _, hsync⟩ |
    ⟨hnq, _, _, hmode, hw⟩
  · rw [hw, ← hsync, hsync'] at hx
    rw [queuedFrames_snoc, mem_singleton.mp hx]
    simp [queued?]
  · rw [queuedFrames_snoc]
    simpa [queued?] using h (hsync ▸ hsync') x (by rw [hw]; exact mem_cons_of_mem _ hx)
  · rw [queuedFrames_snoc, hnq, toList_none, append_nil]
    rcases hw with hw | ⟨hw, _⟩
    · rcases hmode with hsync | ⟨b, _, hb, hnil⟩
      · exact h (hsync ▸ hsync') x (hw ▸ hx)
      · rw [hnil (hb ▸ hsync')] at hx
        exact absurd hx not_mem_nil
    · rw [hw] at hx
      exact absurd hx not_mem_nil

theorem newest_of_runs (h : Runs Step l log l') (hc : l.Consistent) (hfifo : l.fifo = []) :
    Newest log l' := by
  have hhist := h.history (P := fun log l => l.Consistent ∧ Newest log l)
    ⟨hc, by intro _ x hx; simp [waiting, hfifo] at hx⟩
    fun hp hstep => ⟨hp.1.step hstep, hp.2.step hp.1 hstep⟩
  exact hhist.2

/-! ## Nothing lost, nothing twice -/

/-- Entries that neither free buffers nor leave synchronous mode. -/
def Orderly (a : Action) : Prop := (∀ kept, a ≠ .free kept) ∧ a ≠ .setSync false

/-- **Conservation.**  In synchronous mode orderly entries only pass frames through. -/
theorem conservation (h : Runs Step l log l') (hc : l.Consistent) (hsync : l.sync = true)
    (horderly : ∀ a ∈ log, Orderly a) :
    l'.Consistent ∧ l'.sync = true ∧
      l.waiting ++ queuedFrames log = acquiredFrames log ++ l'.waiting := by
  have hhist := h.history (P := fun log l' => (∀ a ∈ log, Orderly a) →
      l'.Consistent ∧ l'.sync = true ∧
        l.waiting ++ queuedFrames log = acquiredFrames log ++ l'.waiting)
    (fun _ => ⟨hc, hsync, by simp [queuedFrames, acquiredFrames]⟩) (by
    rintro log l1 a l2 ih hstep horderly
    obtain ⟨hc1, hsync1, heq⟩ := ih fun b hb => horderly b (mem_append_left _ hb)
    obtain ⟨hfree, hasync⟩ := horderly a (by simp)
    rw [queuedFrames_snoc, acquiredFrames_snoc]
    refine ⟨hc1.step hstep, ?_⟩
    rcases hstep.waiting hc1 with ⟨i, frame, rfl, _, _, hmode, hw⟩ |
      ⟨i, frame, rfl, hw, _, hmode⟩ | ⟨hnq, hna, _, hmode, hw⟩
    · rw [hw, hsync1, ← append_assoc, heq]
      exact ⟨hmode.trans hsync1, by simp [queued?, acquired?]⟩
    · refine ⟨hmode.trans hsync1, ?_⟩
      rw [hw] at heq
      simpa [queued?, acquired?] using heq
    · refine ⟨?_, ?_⟩
      · rcases hmode with hmode | ⟨b, rfl, hb, _⟩
        · exact hmode.trans hsync1
        · cases b with
          | true => exact hb
          | false => exact absurd rfl hasync
      · rcases hw with hw | ⟨_, kept, rfl⟩
        · simpa [hnq, hna, hw] using heq
        · exact absurd rfl (hfree kept))
  exact hhist horderly

end Ledger

/-! ## Frames in a run -/

open Ledger in
/-- The frames a run queued. -/
def queuedIn (events : List Event) : List (Slot × Frame) := queuedFrames (logOf events)

/-- The frames `acquireBuffer` returned in a run. -/
def acquiredIn (events : List Event) : List (Slot × Frame) :=
  events.filterMap fun e => e.segment.acquired?

/-- The frames that wait in the FIFO. -/
def BufferQueue.waitingFrames (q : BufferQueue) : List (Slot × Frame) :=
  q.mQueue.map fun i => (i, (q.mSlots i).frame)

/-- A step that begins and ends in synchronous mode and frees no buffers. -/
def World.SyncStep (w : World) (e : Event) (w' : World) : Prop :=
  w.Step e w' ∧ w.queue.mSynchronousMode = true ∧ w'.queue.mSynchronousMode = true ∧
    ∀ kept, .free kept ∉ e.segment.log

lemma BufferQueue.Shape.acquiredFrames_log {seg : Segment} (h : Shape seg) :
    Ledger.acquiredFrames seg.log = seg.acquired?.toList := by
  cases h with
  | plain hlog hitem =>
    rw [hitem, toList_none, Ledger.acquiredFrames, filterMap_eq_nil_iff]
    intro a ha
    have := hlog a ha
    cases a <;> first | rfl | exact absurd this id
  | mode b hlog hitem | acquire i frame hlog hitem =>
    rw [hitem, hlog]
    rfl

variable {w w' : World}

/-- What the log says was acquired is what the replies handed out. -/
lemma acquiredFrames_logOf {events : List Event} (h : Runs World.Step w events w')
    (hb : w.queue.Bounded) : Ledger.acquiredFrames (logOf events) = acquiredIn events := by
  have hhist := h.history (P := fun events w => w.queue.Bounded ∧
      Ledger.acquiredFrames (logOf events) = acquiredIn events) ⟨hb, rfl⟩ (by
    rintro events w e w' ⟨hb, heq⟩ hstep
    refine ⟨(hstep.sound hb).2, ?_⟩
    obtain ⟨⟨alloc, hseg⟩, _⟩ := hstep.segment_eq
    have hshape := (BufferQueue.sound_segment hb hseg).shape.acquiredFrames_log
    rw [Ledger.acquiredFrames, acquiredIn] at heq
    rw [Ledger.acquiredFrames] at hshape
    rw [Ledger.acquiredFrames, acquiredIn, logOf, flatMap_append, filterMap_append, ← logOf, heq,
      flatMap_singleton, hshape]
    cases hacq : e.segment.acquired? <;> simp [hacq])
  exact hhist.2

variable {e : Event}

/-- A step in synchronous mode that frees nothing has only orderly entries. -/
lemma World.SyncStep.orderly (h : w.SyncStep e w') (hb : w.queue.Bounded) :
    ∀ a ∈ e.segment.log, Ledger.Orderly a := by
  obtain ⟨hstep, _, hsync', hfree⟩ := h
  obtain ⟨⟨alloc, hseg⟩, hq⟩ := hstep.segment_eq
  have hsound := BufferQueue.sound_segment hb hseg
  intro a ha
  refine ⟨?_, ?_⟩
  · rintro kept rfl
    exact hfree kept ha
  · rintro rfl
    cases hsound.shape with
    | plain hlog _ => exact hlog _ ha
    | acquire i frame hlog _ => simp [hlog] at ha
    | mode b hlog _ =>
      rw [hlog, mem_singleton] at ha
      cases ha
      have hruns := hsound.refines
      rw [hlog, Runs.single_iff] at hruns
      have hmode : e.segment.queue.ledger.sync = false := by
        generalize e.segment.queue.ledger = l' at hruns
        cases hruns
        rfl
      rw [hq] at hsync'
      exact absurd (hsync'.symm.trans hmode) (by decide)

/-- One such step passes frames through. -/
lemma World.SyncStep.conservation (h : w.SyncStep e w')
    (hb : w.queue.Bounded) (hc : w.queue.ledger.Consistent) :
    w'.queue.ledger.Consistent ∧ w.queue.waitingFrames ++ queuedIn [e]
      = acquiredIn [e] ++ w'.queue.waitingFrames := by
  obtain ⟨hc', _, heq⟩ := Ledger.conservation (h.1.sound hb).1 hc h.2.1 (h.orderly hb)
  have hlog : logOf [e] = e.segment.log := flatMap_singleton _ _
  refine ⟨hc', ?_⟩
  rw [queuedIn, ← acquiredFrames_logOf (.single h.1) hb, hlog]
  exact heq

lemma queuedIn_append (es es' : List Event) : queuedIn (es ++ es') = queuedIn es ++ queuedIn es' := by
  simp [queuedIn, Ledger.queuedFrames, logOf]

lemma acquiredIn_append (es es' : List Event) :
    acquiredIn (es ++ es') = acquiredIn es ++ acquiredIn es' := filterMap_append

/-- What a segment hands out was waiting. -/
lemma World.Step.mem_waiting (h : w.Step e w') (hb : w.queue.Bounded)
    (hc : w.queue.ledger.Consistent) : ∀ x ∈ e.segment.acquired?, x ∈ w.queue.waitingFrames := by
  obtain ⟨⟨alloc, hseg⟩, hq⟩ := h.segment_eq
  have hsound := BufferQueue.sound_segment hb hseg
  intro x hx
  cases hsound.shape with
  | plain _ hitem | mode _ _ hitem => simp [hitem] at hx
  | acquire i frame hlog hitem =>
    have hruns := hsound.refines
    rw [hlog, Runs.single_iff] at hruns
    rw [hitem, mem_some_iff] at hx
    rcases hruns.waiting hc with ⟨_, _, ha, _⟩ | ⟨j, frame', ha, hw, _⟩ | ⟨_, ha, _⟩
    · cases ha
    · cases ha
      have hw' : w.queue.waitingFrames = (i, frame) :: e.segment.queue.ledger.waiting := hw
      rw [hw', ← hx]
      exact mem_cons_self
    · simp [acquired?] at ha

/-- **Frames are delivered in order.** -/
theorem bufferQueue_frameOrder (allowSynchronousMode : Bool) (bufferCount : ℤ)
    (hcount : bufferCount < numBufferSlots) (events : List Event) (w : World)
    (h : Runs World.Step (World.init allowSynchronousMode bufferCount) events w) :
    ((queuedIn events).length < 2 ^ 64 →
      ((acquiredIn events).map (·.2.mFrameNumber)).Pairwise (· < ·)) ∧
    (∀ part w', Runs World.SyncStep w part w' →
      w.queue.waitingFrames ++ queuedIn part = acquiredIn part ++ w'.queue.waitingFrames) ∧
    (∀ e w', w.Step e w' → w.queue.mSynchronousMode = false →
      ∀ x ∈ e.segment.acquired?, (queuedIn events).getLast? = some x) := by
  have hb : (World.init allowSynchronousMode bufferCount).queue.Bounded :=
    BufferQueue.bounded_init hcount
  have hc : (World.init allowSynchronousMode bufferCount).queue.ledger.Consistent :=
    consistent_init hcount
  obtain ⟨hruns, hbw⟩ := runs_refine h hb
  obtain ⟨hcw, _⟩ := reachable_consistent hcount h
  refine ⟨?_, ?_, ?_⟩
  · intro hlt
    have hnum := Ledger.numbered_of_runs hruns hc rfl rfl hlt
    have hsorted := hnum.sorted
    rw [map_append, pairwise_append] at hsorted
    rw [← acquiredFrames_logOf h hb]
    exact hsorted.1
  · intro part w' hpart
    have hhist := hpart.history (P := fun part w' => w'.queue.Bounded ∧
        w'.queue.ledger.Consistent ∧ w.queue.waitingFrames ++ queuedIn part
          = acquiredIn part ++ w'.queue.waitingFrames) ⟨hbw, hcw, by simp [queuedIn, acquiredIn,
            logOf, Ledger.queuedFrames]⟩ (by
      rintro part w1 e w2 ⟨hb1, hc1, heq⟩ hstep
      obtain ⟨hc2, heq'⟩ := hstep.conservation hb1 hc1
      refine ⟨(hstep.1.sound hb1).2, hc2, ?_⟩
      rw [queuedIn_append, acquiredIn_append, ← append_assoc, heq, append_assoc, heq',
        append_assoc])
    exact hhist.2.2
  · intro e w' hstep hsync x hx
    exact Ledger.newest_of_runs hruns hc rfl hsync x (hstep.mem_waiting hbw hcw x hx)

/-- Two frames, queued and acquired one after the other. -/
def twoFrames : List Turn :=
  firstFrame ++ [.call .acquireBuffer, .call (.dequeueBuffer 0 0 1 0), .call (.requestBuffer 1),
    .call (.queueBuffer 1 ⟨8, ⟨0, 0, 1, 1⟩, 0, 0⟩), .call .acquireBuffer]

theorem bufferQueue_frameOrder_twoFrames :
    ∃ events w, Runs World.Step (World.init true 2) events w ∧
      (acquiredIn events).map (·.2.mTimestamp) = [7, 8] ∧
      ((acquiredIn events).map (·.2.mFrameNumber)).Pairwise (· < ·) := by
  obtain ⟨events, w, hruns, hqueued, htimes⟩ := World.exists_run
    (P := fun events _ => (queuedIn events).length < 2 ^ 64 ∧
      (acquiredIn events).map (·.2.mTimestamp) = [7, 8])
    (w := World.init true 2) (.ok smallBuffer) twoFrames (by decide)
  exact ⟨events, w, hruns, htimes,
    (bufferQueue_frameOrder true 2 (by decide) events w hruns).1 hqueued⟩

end Droid
