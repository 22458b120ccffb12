import DroidPlatform.BufferQueue.Operations
import DroidPlatform.Core.Trace

/-!
# Producers and consumers around a buffer queue

The queue and the threads that wait inside it.  A step is a lock-held segment: some thread calls an
operation, or one of the waiting threads wakes up and goes on.  Which thread comes next is not
restricted, and a thread may wake up at any time, so every interleaving the lock allows is a run of
the system.
-/

namespace Droid

/-- A call of an operation. -/
inductive Call
  | setBufferCount (bufferCount : ℤ)
  | setBufferCountServer (bufferCount : ℤ)
  | requestBuffer (slot : ℤ)
  | dequeueBuffer (w h format usage : ℕ)
  | queueBuffer (buf : ℤ) (input : QueueBufferInput)
  | cancelBuffer (buf : ℤ)
  | setSynchronousMode (enabled : Bool)
  | connect (api : ℤ)
  | disconnect (api : ℤ)
  | acquireBuffer
  | releaseBuffer (buf : ℤ) (display fence : ℕ)
  | consumerConnect (consumerListener : Option ℕ)
  | consumerDisconnect
  | setDefaultBufferSize (w h : ℕ)
  | setDefaultBufferFormat (defaultFormat : ℕ)
  | setConsumerUsageBits (usage : ℕ)
  | setTransformHint (hint : ℕ)
  | getReleasedBuffers
deriving DecidableEq, Repr

/-- What a thread does next: a call, or going on after a wait. -/
inductive Turn
  | call (c : Call)
  | resume (thread : Waiting)
deriving DecidableEq, Repr

namespace BufferQueue

/-- The segment of a turn.  `alloc` is the answer of `createGraphicBuffer`, should it be asked. -/
def segment (q : BufferQueue) (alloc : Except Status GraphicBuffer) : Turn → Option Segment
  | .call (.setBufferCount n) => some (q.setBufferCount n)
  | .call (.setBufferCountServer n) => some (q.setBufferCountServer n)
  | .call (.requestBuffer slot) => q.requestBuffer slot
  | .call (.dequeueBuffer w h format usage) => some (q.dequeueBuffer w h format usage alloc)
  | .call (.queueBuffer buf input) => q.queueBuffer buf input
  | .call (.cancelBuffer buf) => q.cancelBuffer buf
  | .call (.setSynchronousMode enabled) => some (q.setSynchronousMode enabled)
  | .call (.connect api) => some (q.connect api)
  | .call (.disconnect api) => some (q.disconnect api)
  | .call .acquireBuffer => some q.acquireBuffer
  | .call (.releaseBuffer buf display fence) => q.releaseBuffer buf display fence
  | .call (.consumerConnect listener) => some (q.consumerConnect listener)
  | .call .consumerDisconnect => some q.consumerDisconnect
  | .call (.setDefaultBufferSize w h) => some (q.setDefaultBufferSize w h)
  | .call (.setDefaultBufferFormat format) => some (q.setDefaultBufferFormat format)
  | .call (.setConsumerUsageBits usage) => some (q.setConsumerUsageBits usage)
  | .call (.setTransformHint hint) => some (q.setTransformHint hint)
  | .call .getReleasedBuffers => some q.getReleasedBuffers
  | .resume (.dequeue args) => some (q.dequeuePass args alloc)
  | .resume .setAsynchronous => some q.resumeSetAsynchronous
  | .resume .disconnect => some q.resumeDisconnect

end BufferQueue

/-- A queue with the threads waiting in it. -/
structure World where
  queue : BufferQueue
  waiting : List Waiting

/-- A turn and the segment it ran. -/
structure Event where
  turn : Turn
  segment : Segment

/-- The threads that wait after a segment which began with `waiting`. -/
def Outcome.waiting (waiting : List Waiting) : Outcome → List Waiting
  | .returns _ => waiting
  | .waits thread => thread :: waiting

/-- One step: any call, or any waiting thread going on. -/
inductive World.Step (w : World) : Event → World → Prop
  | call {c alloc seg} (h : w.queue.segment alloc (.call c) = some seg) :
      Step w ⟨.call c, seg⟩ ⟨seg.queue, seg.outcome.waiting w.waiting⟩
  | resume {thread alloc seg} (hmem : thread ∈ w.waiting)
      (h : w.queue.segment alloc (.resume thread) = some seg) :
      Step w ⟨.resume thread, seg⟩ ⟨seg.queue, seg.outcome.waiting (w.waiting.erase thread)⟩

/-- A new queue: no thread waits in it. -/
def World.init (allowSynchronousMode : Bool) (bufferCount : ℤ) : World :=
  ⟨.init allowSynchronousMode bufferCount, []⟩

/-! ## Running the system -/

/-- Run one turn, with `alloc` as the answer of `createGraphicBuffer`. -/
def World.turn (w : World) (alloc : Except Status GraphicBuffer) : Turn → Option (Event × World)
  | .call c => (w.queue.segment alloc (.call c)).map fun seg =>
    (⟨.call c, seg⟩, ⟨seg.queue, seg.outcome.waiting w.waiting⟩)
  | .resume thread =>
    if thread ∈ w.waiting then
      (w.queue.segment alloc (.resume thread)).map fun seg =>
        (⟨.resume thread, seg⟩, ⟨seg.queue, seg.outcome.waiting (w.waiting.erase thread)⟩)
    else none

variable {w w' : World} {e : Event}

lemma World.step_of_turn {alloc : Except Status GraphicBuffer} {t : Turn}
    (h : w.turn alloc t = some (e, w')) : w.Step e w' := by
  cases t with
  | call c =>
    obtain ⟨seg, hseg, heq⟩ := Option.map_eq_some_iff.mp h
    cases heq
    exact .call hseg
  | resume thread =>
    rw [turn] at h
    split_ifs at h with hmem
    obtain ⟨seg, hseg, heq⟩ := Option.map_eq_some_iff.mp h
    cases heq
    exact .resume hmem hseg

/-- A run with a decidable property, found by running a schedule. -/
lemma World.exists_run {P : List Event → World → Prop} [∀ es w, Decidable (P es w)]
    (alloc : Except Status GraphicBuffer) (ts : List Turn)
    (h : (execute (turn · alloc) w ts).any (fun r => P r.1 r.2) = true) :
    ∃ es w', Runs Step w es w' ∧ P es w' := by
  refine Runs.exists_of_execute ?_ ts h
  intro w t e w' hturn
  exact step_of_turn hturn

/-- The same for a run in two parts, with a condition `ok` that every step meets. -/
lemma World.exists_run_of_ok (ok : World → Event → Prop) [∀ w e, Decidable (ok w e)]
    {P : World → List Event → World → Prop} [∀ w es w', Decidable (P w es w')]
    (alloc : Except Status GraphicBuffer) (past future : List Turn)
    (h : (execute (fun w t => (w.turn alloc t).filter fun r => ok w r.1) w past).any (fun r =>
      (execute (fun w t => (w.turn alloc t).filter fun r => ok w r.1) r.2 future).any fun r' =>
        P r.2 r'.1 r'.2) = true) :
    ∃ es w1 es' w2, Runs (fun w e w' => w.Step e w' ∧ ok w e) w es w1 ∧
      Runs (fun w e w' => w.Step e w' ∧ ok w e) w1 es' w2 ∧ P w1 es' w2 := by
  refine Runs.exists_append_of_execute ?_ past future h
  intro w t e w' hturn
  obtain ⟨hturn, hok⟩ := Option.filter_eq_some_iff.mp hturn
  exact ⟨step_of_turn hturn, of_decide_eq_true hok⟩

/-- What the slots, the FIFO, the count and the mode went through in a run. -/
def logOf (events : List Event) : List Action := events.flatMap fun e => e.segment.log

lemma World.Step.segment_eq (h : w.Step e w') :
    (∃ alloc, w.queue.segment alloc e.turn = some e.segment) ∧ w'.queue = e.segment.queue := by
  cases h with
  | call h | resume _ h => exact ⟨⟨_, h⟩, rfl⟩

end Droid
