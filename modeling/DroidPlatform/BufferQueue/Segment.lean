import DroidPlatform.BufferQueue.BufferSlot

/-!
# What a lock-held segment does

Every operation of the queue runs under `mMutex`, and gives it up only by returning or by waiting on
`mDequeueCondition`.  The code between two such points is a *segment*: it leaves a new state and
either a `Reply` to the caller or a thread that waits (`Waiting`).

A segment also carries a log: the `Action`s it took on slots, FIFO, buffer count and mode, in the
order the source takes them.  The operations record them where the source has the corresponding
statements; that the log is complete is a theorem, not an assumption
(`BufferQueue/Lemmas/Refinement.lean`).
-/

namespace Droid

/-- What a segment can do to the slots, the FIFO, the buffer count and the mode. -/
inductive Action
  /-- `freeBufferLocked` on every slot but `kept`, and without `kept` the FIFO is cleared. -/
  | free (kept : Option Slot)
  /-- `mBufferCount` is set to `n`. -/
  | resize (n : ℤ)
  /-- A free slot becomes `DEQUEUED`, with `buffer` in it. -/
  | dequeue (i : Slot) (buffer : Option GraphicBuffer)
  /-- A `DEQUEUED` slot becomes `QUEUED`, with `frame` recorded in it. -/
  | queue (i : Slot) (frame : Frame)
  /-- A `DEQUEUED` slot is given back. -/
  | cancel (i : Slot)
  /-- The front of the FIFO becomes `ACQUIRED`, and `frame` is handed out. -/
  | acquire (i : Slot) (frame : Frame)
  /-- An `ACQUIRED` slot becomes `FREE`. -/
  | release (i : Slot)
  /-- A stale release clears `mNeedsCleanupOnRelease`. -/
  | clean (i : Slot)
  /-- `mSynchronousMode` changes. -/
  | setSync (enabled : Bool)
deriving DecidableEq, Repr

/-- `BufferItem`, what `acquireBuffer` fills in. -/
structure BufferItem where
  mGraphicBuffer : Option GraphicBuffer
  frame : Frame
  mBuf : Slot
deriving DecidableEq, Repr

/-- `QueueBufferInput`. -/
structure QueueBufferInput where
  timestamp : ℤ
  crop : Rect
  scalingMode : ℤ
  transform : ℕ
deriving DecidableEq, Repr

/-- `QueueBufferOutput`. -/
structure QueueBufferOutput where
  width : ℕ
  height : ℕ
  transformHint : ℕ
  numPendingBuffers : ℕ
deriving DecidableEq, Repr

/-- The consumer is called back, without the lock. -/
inductive Callback
  | onFrameAvailable
  | onBuffersReleased
deriving DecidableEq, Repr

/-- What a call returns: its status and what it wrote through its out-parameters. -/
structure Reply where
  status : Status
  outBuf : Option Slot := none
  buffer : Option GraphicBuffer := none
  item : Option BufferItem := none
  output : Option QueueBufferOutput := none
  value : Option ℤ := none
  callback : Option Callback := none
deriving DecidableEq, Repr

/-- The locals of `dequeueBuffer` that outlive a wait. -/
structure DequeueArgs where
  w : ℕ
  h : ℕ
  format : ℕ
  usage : ℕ
  returnFlags : ℕ
deriving DecidableEq, Repr

/-- A thread inside `mDequeueCondition.wait`. -/
inductive Waiting
  | dequeue (args : DequeueArgs)
  | setAsynchronous
  | disconnect
deriving DecidableEq, Repr

/-- How a segment ends. -/
inductive Outcome
  | returns (reply : Reply)
  | waits (thread : Waiting)
deriving DecidableEq, Repr

structure Segment where
  queue : BufferQueue
  outcome : Outcome
  log : List Action

namespace Segment

/-- The call returns `status` and nothing has changed hands. -/
def done (queue : BufferQueue) (status : Status) : Segment := ⟨queue, .returns { status }, []⟩

variable (seg : Segment)

/-- The reply, if the call returned. -/
def reply? : Option Reply :=
  match seg.outcome with
  | .returns r => some r
  | .waits _ => none

def status? : Option Status := seg.reply?.map Reply.status

/-- The slot `dequeueBuffer` returned. -/
def outBuf? : Option Slot := seg.reply?.bind Reply.outBuf

/-- The item `acquireBuffer` returned. -/
def item? (seg : Segment) : Option BufferItem := seg.reply?.bind Reply.item

/-- The slot and the frame `acquireBuffer` returned. -/
def acquired? : Option (Slot × Frame) :=
  seg.item?.map fun item => (item.mBuf, item.frame)

end Segment

end Droid
