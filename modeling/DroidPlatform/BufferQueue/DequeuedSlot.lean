import DroidPlatform.BufferQueue.Consistency

/-!
# A dequeued slot stays with the producer

`dequeueBuffer` refuses to hand out a second buffer to a client that has not set a buffer count of
its own.  But it settles the number of buffers first, and if that number has to change, it frees
every slot before it counts the dequeued ones: the slot a producer still fills is taken away and
handed out again (`dequeued_slot_taken_back`).  The comment in the source relies on the client
owning no buffer at that point.

Where no pass of `dequeueBuffer` meets both, a dequeued slot and a number of buffers that has to
change (`Settled`), the rule holds over every stretch of every run (`dequeued_slot_kept`).
-/

namespace Droid

open Turn BufferQueue BufferQueue.Counts

/-- The passes of `dequeueBuffer`. -/
def Turn.isDequeue : Turn → Bool
  | .call (.dequeueBuffer _ _ _ _) => true
  | .resume (.dequeue _) => true
  | _ => false

/-- The segments of `disconnect` and `consumerDisconnect`. -/
def Turn.isDisconnect : Turn → Bool
  | .call (.disconnect _) => true
  | .resume .disconnect => true
  | .call .consumerDisconnect => true
  | _ => false

/-- The producer sets a buffer count of its own. -/
def Turn.setsClientCount : Turn → Bool
  | .call (.setBufferCount n) => n ≠ 0
  | _ => false

/-- The turn returns with success. -/
def Event.Succeeds (e : Event) : Prop := e.segment.status? = some .ok

instance (e : Event) : Decidable e.Succeeds := inferInstanceAs (Decidable (_ = _))

/-- One side has disconnected. -/
def Event.Disconnects (e : Event) : Prop := e.turn.isDisconnect = true ∧ e.Succeeds

instance (e : Event) : Decidable e.Disconnects := inferInstanceAs (Decidable (_ ∧ _))

/-- The producer gives slot `i` back, with a frame or without. -/
def Event.GivesBack (e : Event) (i : Slot) : Prop :=
  match e.turn with
  | .call (.queueBuffer buf _) => buf = i ∧ e.Succeeds
  | .call (.cancelBuffer buf) => buf = i
  | _ => False

instance (e : Event) (i : Slot) : Decidable (e.GivesBack i) := by
  rw [Event.GivesBack]
  split <;> infer_instance

/-- Some slot is with the producer. -/
def BufferQueue.HasDequeued (q : BufferQueue) : Prop := ∃ i, (q.mSlots i).mBufferState = .dequeued

instance (q : BufferQueue) : Decidable q.HasDequeued := inferInstanceAs (Decidable (∃ _, _))

/-- A step that sets no client buffer count, and in which `dequeueBuffer` does not find the number of
buffers unsettled while the producer holds a slot. -/
def Settled (w : World) (e : Event) : Prop :=
  e.turn.setsClientCount = false ∧
    (e.turn.isDequeue = true → w.queue.HasDequeued → w.queue.numberOfBuffersNeedsToChange = false)

instance (w : World) (e : Event) : Decidable (Settled w e) := inferInstanceAs (Decidable (_ ∧ _))

/-! ## What the ledger allows -/

/-- The entries that end the producer's hold of slot `i`. -/
def Action.Takes (i : Slot) : Action → Prop
  | .free _ => True
  | .queue j _ => j = i
  | .cancel j => j = i
  | _ => False

variable {log : List Action}

namespace Ledger

variable {l l' : Ledger} {a : Action} {i : Slot}

/-- Other entries leave a dequeued slot and its buffer alone. -/
lemma Step.keeps_dequeued (hc : l.Consistent) (h : l.Step a l') (hdeq : l.state i = .dequeued)
    (ha : ¬ a.Takes i) : l'.state i = .dequeued ∧ l'.buffer i = l.buffer i := by
  have hmoves := h.moves hc i
  rw [hdeq] at hmoves
  refine ⟨?_, h.buffer_eq ?_ ?_⟩
  · generalize l'.state i = s at hmoves
    cases hmoves with
    | stays => rfl
    | freed => exact absurd trivial ha
    | queued | cancelled => exact absurd rfl ha
  · rintro kept rfl
    exact ha trivial
  · rintro b rfl
    cases h with
    | dequeue hfree _ => simp [hfree] at hdeq

lemma keeps_dequeued_of_runs (h : Runs Step l log l') (hc : l.Consistent)
    (hdeq : l.state i = .dequeued) (hlog : ∀ a ∈ log, ¬ a.Takes i) :
    l'.state i = .dequeued ∧ l'.buffer i = l.buffer i := by
  have hhist := h.history (P := fun log l' => l'.Consistent ∧ ((∀ a ∈ log, ¬ a.Takes i) →
      l'.state i = .dequeued ∧ l'.buffer i = l.buffer i)) ⟨hc, fun _ => ⟨hdeq, rfl⟩⟩ (by
    rintro log l1 a l2 ⟨hc1, ih⟩ hstep
    refine ⟨hc1.step hstep, fun hlog => ?_⟩
    obtain ⟨hdeq1, hbuf⟩ := ih fun b hb => hlog b (List.mem_append_left _ hb)
    obtain ⟨hdeq2, hbuf'⟩ := hstep.keeps_dequeued hc1 hdeq1 (hlog a (by simp))
    exact ⟨hdeq2, hbuf'.trans hbuf⟩)
  exact hhist.2 hlog

/-- A slot is dequeued by `dequeue` only. -/
lemma Step.dequeued_of (hc : l.Consistent) (h : l.Step a l') (hdeq : l'.state i = .dequeued) :
    l.state i = .dequeued ∨ ∃ b, a = .dequeue i b := by
  have hmoves := h.moves hc i
  rw [hdeq] at hmoves
  generalize l.state i = s at hmoves
  cases hmoves with
  | stays => exact Or.inl rfl
  | dequeued => exact Or.inr ⟨_, rfl⟩

lemma dequeued_of_runs (h : Runs Step l log l') (hc : l.Consistent)
    (hdeq : l'.state i = .dequeued) : l.state i = .dequeued ∨ ∃ b, .dequeue i b ∈ log := by
  have hhist := h.history (P := fun log l' => l'.Consistent ∧ (l'.state i = .dequeued →
      l.state i = .dequeued ∨ ∃ b, .dequeue i b ∈ log)) ⟨hc, Or.inl⟩ (by
    rintro log l1 a l2 ⟨hc1, ih⟩ hstep
    refine ⟨hc1.step hstep, fun hdeq2 => ?_⟩
    rcases hstep.dequeued_of hc1 hdeq2 with hdeq1 | ⟨b, rfl⟩
    · exact (ih hdeq1).imp_right fun ⟨b, hb⟩ => ⟨b, List.mem_append_left _ hb⟩
    · exact Or.inr ⟨b, by simp⟩)
  exact hhist.2 hdeq

end Ledger

/-! ## What the operations do -/

variable {i : Slot}

namespace Turn.Enters

variable {q : BufferQueue} {turn : Turn}

lemma of_free {kept : Option Slot} (h : turn.Enters q (.free kept)) :
    turn.isDisconnect = true ∨ turn.setsClientCount = true ∨
      (turn.isDequeue = true ∧ q.numberOfBuffersNeedsToChange = true) := by
  cases turn with
  | call c => cases c <;> simp_all [Enters, isDisconnect, setsClientCount, isDequeue]
  | resume thread => cases thread <;> simp_all [Enters, isDisconnect, isDequeue]

lemma of_queue {frame : Frame} (h : turn.Enters q (.queue i frame)) :
    ∃ input, turn = .call (.queueBuffer i input) := by
  cases turn with
  | call c => cases c <;> simp_all [Enters]
  | resume thread => cases thread <;> simp_all [Enters]

lemma of_cancel (h : turn.Enters q (.cancel i)) : turn = .call (.cancelBuffer i) := by
  cases turn with
  | call c => cases c <;> simp_all [Enters]
  | resume thread => cases thread <;> simp_all [Enters]

lemma of_dequeue {b : Option GraphicBuffer} (h : turn.Enters q (.dequeue i b)) :
    turn.isDequeue = true ∧ q.mAbandoned = false := by
  cases turn with
  | call c => cases c <;> simp_all [Enters, isDequeue]
  | resume thread => cases thread <;> simp_all [Enters, isDequeue]

end Turn.Enters

namespace BufferQueue

variable {q : BufferQueue} {alloc : Except Status GraphicBuffer} {args : DequeueArgs}
  {seg : Segment}

/-- A disconnecting turn that enters something succeeds. -/
lemma succeeds_of_disconnect {turn : Turn} (hseg : q.segment alloc turn = some seg)
    (hturn : turn.isDisconnect = true) (hlog : seg.log ≠ []) : seg.status? = some .ok := by
  cases turn with
  | call c =>
    cases c with
    | disconnect api =>
      cases hseg
      rw [disconnect] at hlog ⊢
      split_ifs at hlog ⊢ <;> first | rfl | exact absurd rfl hlog
    | consumerDisconnect =>
      cases hseg
      rw [consumerDisconnect] at hlog ⊢
      split_ifs at hlog ⊢ <;> first | rfl | exact absurd rfl hlog
    | _ => cases hturn
  | resume thread =>
    cases thread with
    | disconnect =>
      cases hseg
      rw [resumeDisconnect] at hlog ⊢
      split_ifs at hlog ⊢ <;> first | rfl | exact absurd rfl hlog
    | _ => cases hturn

/-- So does `queueBuffer`. -/
lemma succeeds_of_queueBuffer {buf : ℤ} {input : QueueBufferInput}
    (hseg : q.queueBuffer buf input = some seg) (hlog : seg.log ≠ []) : seg.status? = some .ok := by
  rw [queueBuffer] at hseg
  split_ifs at hseg
  · cases hseg
    exact absurd rfl hlog
  · cases hseg
    exact absurd rfl hlog
  · obtain ⟨i, hi, hseg⟩ := Option.bind_eq_some_iff.mp hseg
    split_ifs at hseg
    · cases hseg
      exact absurd rfl hlog
    · cases hseg
      exact absurd rfl hlog
    · obtain ⟨g, _, hseg⟩ := Option.map_eq_some_iff.mp hseg
      simp only at hseg
      split_ifs at hseg
      · cases hseg
        exact absurd rfl hlog
      · cases hseg
        rfl

lemma handOut_outcome :
    ∃ r, (q.handOut args alloc i log).outcome = .returns r ∧ r.outBuf = some i := by
  simp only [handOut]
  split_ifs
  · exact ⟨_, rfl, rfl⟩
  · cases alloc with
    | error e | ok g => exact ⟨_, rfl, rfl⟩

/-- With every slot free the search hands out a slot or waits. -/
lemma search_of_free (hfree : ∀ i, (q.mSlots i).mBufferState = .free)
    (hqueued : q.mBufferHasBeenQueued = false) :
    (q.search args alloc log).outcome ≠ .returns { status := .einval } := by
  have hcount : q.scan.2 = 0 := by
    rw [scan_count_eq_zero]
    intro i _
    rw [hfree i]
    decide
  have hbusy : q.exceedsMinUndequeued q.scan.2 = false := by
    rw [exceedsMinUndequeued, hqueued, Bool.false_and]
  simp only [search]
  rw [if_neg fun h => h.2 hcount, hbusy, if_neg Bool.false_ne_true]
  cases q.scan.1 with
  | none => exact Outcome.noConfusion
  | some i =>
    intro heinval
    obtain ⟨r, hr, hbuf⟩ : ∃ r, (q.handOut args alloc i log).outcome = .returns r ∧
        r.outBuf = some i := handOut_outcome
    rw [hr, Outcome.returns.injEq] at heinval
    rw [heinval] at hbuf
    cases hbuf

/-- **When a pass of `dequeueBuffer` refuses.**  While the producer holds a slot, and has not set a
buffer count, the pass returns `-EINVAL` exactly if the number of buffers is settled. -/
lemma dequeuePass_refuses_iff (hc : q.ledger.Consistent) (hclient : q.mClientBufferCount = 0)
    (habandoned : q.mAbandoned = false) (hdeq : q.HasDequeued) :
    (q.dequeuePass args alloc).outcome = .returns { status := .einval } ↔
      q.numberOfBuffersNeedsToChange = false := by
  obtain ⟨i, hi⟩ := hdeq
  rw [dequeuePass, habandoned, if_neg Bool.false_ne_true]
  cases hchange : q.numberOfBuffersNeedsToChange with
  | true =>
    rw [if_pos rfl]
    refine iff_of_false ?_ (by decide)
    split_ifs
    · simp
    · exact search_of_free (fun i => rfl) rfl
  | false =>
    rw [if_neg Bool.false_ne_true]
    refine iff_of_true ?_ rfl
    have hcount : q.scan.2 ≠ 0 := by
      rw [Ne, scan_count_eq_zero]
      intro hnone
      exact hnone i (hc.lt_count i (fun hfree => by simp [ledger, hi] at hfree)) hi
    simp only [search]
    rw [if_pos ⟨hclient, hcount⟩]

end BufferQueue

/-! ## Runs -/

/-- What holds in every state of a run in which the producer sets no buffer count. -/
structure Unset (w : World) : Prop where
  consistent : w.queue.ledger.Consistent
  bounded : w.queue.Bounded
  client : w.queue.mClientBufferCount = 0
  abandoned : w.queue.HasDequeued → w.queue.mAbandoned = false

lemma unset_init {allowSynchronousMode : Bool} {bufferCount : ℤ}
    (hcount : bufferCount < numBufferSlots) : Unset (World.init allowSynchronousMode bufferCount) where
  consistent := consistent_init hcount
  bounded := bounded_init hcount
  client := rfl
  abandoned := fun _ => rfl

namespace Unset

variable {w w' : World} {e : Event}

lemma step (h : Unset w) (hstep : w.Step e w') (hset : e.turn.setsClientCount = false) :
    Unset w' := by
  obtain ⟨hruns, hbounded⟩ := hstep.sound h.bounded
  obtain ⟨⟨alloc, hseg⟩, hq⟩ := hstep.segment_eq
  have hconsistent := hruns.invariant h.consistent fun hc hstep => hc.step hstep
  have hcounts := (spec_segment hseg).counts
  rw [← hq] at hcounts
  -- a slot that is dequeued now was dequeued before, or the turn is a pass of `dequeueBuffer`
  have hdequeued : w'.queue.HasDequeued → w.queue.mAbandoned = false := by
    rintro ⟨i, hi⟩
    rcases Ledger.dequeued_of_runs hruns h.consistent hi with hi | ⟨b, hb⟩
    · exact h.abandoned ⟨i, hi⟩
    · have henters := segment_enters hseg _ hb
      exact henters.of_dequeue.2
  cases hcounts with
  | keeps hkeeps =>
    exact ⟨hconsistent, hbounded, hkeeps.keeps.1.trans h.client,
      fun hd => hkeeps.keeps.2.trans (hdequeued hd)⟩
  | setsClient n server count hturn hc _ _ =>
    have hn : n = 0 := by simpa [hturn, setsClientCount] using hset
    exact ⟨hconsistent, hbounded, (congrArg BufferQueue.Counts.client hc).trans hn,
      fun hd => (congrArg BufferQueue.Counts.abandoned hc).trans (hdequeued hd)⟩
  | abandons _ hc hfree =>
    refine ⟨hconsistent, hbounded, (congrArg BufferQueue.Counts.client hc).trans h.client, ?_⟩
    rintro ⟨i, hi⟩
    rw [hfree i] at hi
    cases hi

/-- A settled step that neither disconnects nor gives slot `i` back does not take it away. -/
lemma not_takes (hstep : w.Step e w') (hok : Settled w e)
    (hdeq : (w.queue.mSlots i).mBufferState = .dequeued) (hconn : ¬ e.Disconnects)
    (hheld : ¬ e.GivesBack i) : ∀ a ∈ e.segment.log, ¬ a.Takes i := by
  obtain ⟨⟨alloc, hseg⟩, _⟩ := hstep.segment_eq
  obtain ⟨hset, hsettled⟩ := hok
  intro a ha htakes
  have henters := segment_enters hseg a ha
  have hlog : e.segment.log ≠ [] := List.ne_nil_of_mem ha
  cases a with
  | free kept =>
    rcases henters.of_free with hturn | hturn | ⟨hturn, hchange⟩
    · exact hconn ⟨hturn, succeeds_of_disconnect hseg hturn hlog⟩
    · exact absurd (hset.symm.trans hturn) (by decide)
    · exact absurd ((hsettled hturn ⟨i, hdeq⟩).symm.trans hchange) (by decide)
  | queue j frame =>
    obtain rfl : j = i := htakes
    obtain ⟨input, hturn⟩ := henters.of_queue
    rw [hturn] at hseg
    rw [Event.GivesBack, hturn] at hheld
    exact hheld ⟨rfl, succeeds_of_queueBuffer hseg hlog⟩
  | cancel j =>
    obtain rfl : j = i := htakes
    rw [Event.GivesBack, henters.of_cancel] at hheld
    exact hheld rfl
  | _ => exact htakes

/-- While the producer holds a slot, a pass of `dequeueBuffer` in a settled step is refused. -/
lemma refuses (h : Unset w) (hstep : w.Step e w') (hok : Settled w e) (hdeq : w.queue.HasDequeued)
    (hturn : e.turn.isDequeue = true) : e.segment.outcome = .returns { status := .einval } := by
  obtain ⟨⟨alloc, hseg⟩, _⟩ := hstep.segment_eq
  have hrefuses : ∀ args, (w.queue.dequeuePass args alloc).outcome = .returns { status := .einval } :=
    fun args => (dequeuePass_refuses_iff h.consistent h.client (h.abandoned hdeq) hdeq).mpr
      (hok.2 hturn hdeq)
  obtain ⟨turn, seg⟩ := e
  cases turn with
  | call c =>
    cases c with
    | dequeueBuffer width height format usage =>
      have heq : w.queue.dequeueBuffer width height format usage alloc = seg :=
        Option.some.inj hseg
      rw [← heq, dequeueBuffer]
      split
      · -- a bad size is refused with the same code
        rfl
      · exact hrefuses _
    | _ => cases hturn
  | resume thread =>
    cases thread with
    | dequeue args =>
      cases hseg
      exact hrefuses args
    | _ => cases hturn

end Unset

/-- **A dequeued slot stays with the producer**, in every run of settled steps: from the moment it is
`DEQUEUED` until it is given back or one side disconnects, the slot keeps its state and its buffer,
and every `dequeueBuffer` returns `-EINVAL` without handing out a slot.  Being settled is what it
takes: a pass of `dequeueBuffer` returns `-EINVAL` exactly if the number of buffers is settled. -/
theorem dequeued_slot_kept (allowSynchronousMode : Bool) (bufferCount : ℤ)
    (hcount : bufferCount < numBufferSlots) (past : List Event) (w : World)
    (h : Runs (fun w e w' => w.Step e w' ∧ Settled w e) (World.init allowSynchronousMode bufferCount)
      past w)
    (i : Slot) (hdeq : (w.queue.mSlots i).mBufferState = .dequeued) :
    (∀ events w', Runs (fun w e w' => w.Step e w' ∧ Settled w e) w events w' →
      (∀ e ∈ events, ¬ e.Disconnects ∧ ¬ e.GivesBack i) →
      (w'.queue.mSlots i).mBufferState = .dequeued ∧
        (w'.queue.mSlots i).mGraphicBuffer = (w.queue.mSlots i).mGraphicBuffer ∧
        ∀ e ∈ events, e.turn.isDequeue = true → e.segment.outcome = .returns { status := .einval }) ∧
    ∀ args alloc, (w.queue.dequeuePass args alloc).outcome = .returns { status := .einval } ↔
      w.queue.numberOfBuffersNeedsToChange = false := by
  have hunset : Unset w := h.invariant (unset_init hcount) fun hu hstep => hu.step hstep.1 hstep.2.1
  refine ⟨?_, fun args alloc => dequeuePass_refuses_iff hunset.consistent hunset.client
    (hunset.abandoned ⟨i, hdeq⟩) ⟨i, hdeq⟩⟩
  intro events w' hruns
  have hhist := hruns.history (P := fun events w' => Unset w' ∧
      ((∀ e ∈ events, ¬ e.Disconnects ∧ ¬ e.GivesBack i) →
        (w'.queue.mSlots i).mBufferState = .dequeued ∧
        (w'.queue.mSlots i).mGraphicBuffer = (w.queue.mSlots i).mGraphicBuffer ∧
        ∀ e ∈ events, e.turn.isDequeue = true → e.segment.outcome = .returns { status := .einval }))
    ⟨hunset, fun _ => ⟨hdeq, rfl, by simp⟩⟩ (by
    rintro events w1 e w2 ⟨hunset1, ih⟩ ⟨hstep, hok⟩
    refine ⟨hunset1.step hstep hok.1, fun hheld => ?_⟩
    obtain ⟨hdeq1, hbuf, hrefused⟩ := ih fun e he => hheld e (List.mem_append_left _ he)
    obtain ⟨hconn, hgive⟩ := hheld e (by simp)
    obtain ⟨hdeq2, hbuf'⟩ := Ledger.keeps_dequeued_of_runs (hstep.sound hunset1.bounded).1
      hunset1.consistent hdeq1 (Unset.not_takes hstep hok hdeq1 hconn hgive)
    refine ⟨hdeq2, hbuf'.trans hbuf, ?_⟩
    intro e' he' hturn
    rcases List.mem_append.mp he' with he' | he'
    · exact hrefused e' he' hturn
    · rw [List.mem_singleton] at he'
      subst he'
      exact hunset1.refuses hstep hok ⟨i, hdeq1⟩ hturn)
  exact hhist.2

theorem dequeued_slot_kept_dequeueTwice :
    ∃ past w events w', Runs World.Step (World.init true 2) past w ∧ Runs World.Step w events w' ∧
      (w.queue.mSlots 0).mBufferState = .dequeued ∧ events.map Event.turn
        = [.call (.setSynchronousMode true), .call (.dequeueBuffer 0 0 1 0)] ∧
      (w'.queue.mSlots 0).mBufferState = .dequeued := by
  obtain ⟨past, w, events, w', hpast, hevents, hdeq, hturns, hheld⟩ :=
    World.exists_run_of_ok Settled (P := fun w events _ =>
      (w.queue.mSlots 0).mBufferState = .dequeued ∧ events.map Event.turn
        = [.call (.setSynchronousMode true), .call (.dequeueBuffer 0 0 1 0)] ∧
      ∀ e ∈ events, ¬ e.Disconnects ∧ ¬ e.GivesBack 0)
    (w := World.init true 2) (.ok smallBuffer)
    [.call (.consumerConnect (some 0)), .call (.connect 1), .call (.dequeueBuffer 0 0 1 0)]
    [.call (.setSynchronousMode true), .call (.dequeueBuffer 0 0 1 0)] (by decide)
  have hkept := (dequeued_slot_kept true 2 (by decide) past w hpast 0 hdeq).1 events w' hevents hheld
  exact ⟨past, w, events, w', hpast.mono And.left, hevents.mono And.left, hdeq, hturns, hkept.1⟩

/-- **The slot is taken back.**  The consumer asks for fewer buffers while the producer holds slot 0;
the next `dequeueBuffer` hands slot 0 out again. -/
theorem dequeued_slot_taken_back :
    ∃ events w, Runs World.Step (World.init true 2) events w ∧
      (∀ e ∈ events, e.turn.setsClientCount = false ∧ ¬ e.Disconnects ∧ ¬ e.GivesBack 0) ∧
      events.filterMap (fun e => e.segment.outBuf?) = [0, 0] := by
  exact World.exists_run (.ok smallBuffer)
    [.call (.consumerConnect (some 0)), .call (.connect 1), .call (.dequeueBuffer 0 0 1 0),
      .call (.setBufferCountServer 2), .call (.dequeueBuffer 0 0 1 0)] (by decide)

end Droid
