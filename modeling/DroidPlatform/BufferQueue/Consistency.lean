import DroidPlatform.BufferQueue.Lemmas.Refinement

/-!
# Slots and FIFO stay consistent

In every state a buffer queue can reach, whatever producers and consumers do and however their
lock-held segments interleave, the FIFO and the slot states tell the same story
(`bufferQueue_consistent`).
-/

namespace Droid

open BufferQueue

variable {allowSynchronousMode : Bool} {bufferCount : ℤ}

/-- The ledger of a new queue. -/
lemma consistent_init (hcount : bufferCount < numBufferSlots) :
    (init allowSynchronousMode bufferCount).ledger.Consistent where
  nodup := List.nodup_nil
  mem_iff := by simp [ledger, init, BufferSlot.init]
  lt_count := by simp [ledger, init, BufferSlot.init]
  count_le := hcount
  async := fun _ => Nat.zero_le 1

/-- The ledger of every reachable queue is consistent, and its counts are in bounds. -/
lemma reachable_consistent (hcount : bufferCount < numBufferSlots) {events : List Event} {w : World}
    (h : Runs World.Step (World.init allowSynchronousMode bufferCount) events w) :
    w.queue.ledger.Consistent ∧ w.queue.Bounded := by
  obtain ⟨hruns, hbounded⟩ := runs_refine h (bounded_init hcount)
  exact ⟨hruns.invariant (consistent_init hcount) fun hc hstep => hc.step hstep, hbounded⟩

/-- **Slots and FIFO agree in every reachable state**: the FIFO has no duplicates and holds exactly
the `QUEUED` slots; it and every slot in use stay below `mBufferCount`, which the array of slots can
hold; and in asynchronous mode at most one frame waits. -/
theorem bufferQueue_consistent (allowSynchronousMode : Bool) (bufferCount : ℤ)
    (hcount : bufferCount < numBufferSlots) (events : List Event) (w : World)
    (h : Runs World.Step (World.init allowSynchronousMode bufferCount) events w) :
    w.queue.mQueue.Nodup ∧
      (∀ i, i ∈ w.queue.mQueue ↔ (w.queue.mSlots i).mBufferState = .queued) ∧
      (∀ i ∈ w.queue.mQueue, (i : ℤ) < w.queue.mBufferCount) ∧
      (∀ i, (w.queue.mSlots i).mBufferState ≠ .free → (i : ℤ) < w.queue.mBufferCount) ∧
      w.queue.mBufferCount ≤ numBufferSlots ∧
      (w.queue.mSynchronousMode = false → w.queue.mQueue.length ≤ 1) := by
  obtain ⟨hc, _⟩ := reachable_consistent hcount h
  refine ⟨hc.nodup, hc.mem_iff, ?_, hc.lt_count, hc.count_le, hc.async⟩
  intro i hi
  refine hc.lt_count i ?_
  rw [(hc.mem_iff i).mp hi]
  decide

/-- A schedule: a consumer and a producer connect, and the producer queues its first frame. -/
def firstFrame : List Turn :=
  [.call (.consumerConnect (some 0)), .call (.connect 1), .call (.dequeueBuffer 0 0 1 0),
    .call (.requestBuffer 0), .call (.queueBuffer 0 ⟨7, ⟨0, 0, 1, 1⟩, 0, 0⟩)]

/-- A buffer of the default size. -/
def smallBuffer : GraphicBuffer := ⟨0, 1, 1, 1, 0⟩

theorem bufferQueue_consistent_firstFrame :
    ∃ events w, Runs World.Step (World.init true 2) events w ∧ w.queue.mQueue = [0] ∧
      ∀ i, i ∈ w.queue.mQueue ↔ (w.queue.mSlots i).mBufferState = .queued := by
  obtain ⟨events, w, hruns, hqueue⟩ := World.exists_run (P := fun _ w => w.queue.mQueue = [0])
    (w := World.init true 2) (.ok smallBuffer) firstFrame (by decide)
  exact ⟨events, w, hruns, hqueue,
    (bufferQueue_consistent true 2 (by decide) events w hruns).2.1⟩

end Droid
