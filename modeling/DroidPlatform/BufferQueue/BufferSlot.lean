import DroidPlatform.Errors
import DroidPlatform.Region.Region

/-!
# The state of a buffer queue

The data of `gui/BufferQueue.h`.  A `BufferQueue` owns `NUM_BUFFER_SLOTS` slots, each in one of
four states, and a FIFO `mQueue` of the slots whose frames wait for the consumer.  Slot numbers that
come in from a client are `int`s and are checked before use; the ones the queue keeps for itself are
`Slot`s.
-/

namespace Droid

/-- `NUM_BUFFER_SLOTS`. -/
def numBufferSlots : ℕ := 32

instance : NeZero numBufferSlots := ⟨by decide⟩

/-- An index into `mSlots`. -/
abbrev Slot := Fin numBufferSlots

namespace Status

/-- `BufferQueue::STALE_BUFFER_SLOT`. -/
def staleBufferSlot : Status := 1

/-- `BufferQueue::NO_BUFFER_AVAILABLE`. -/
def noBufferAvailable : Status := 2

end Status

/-- `BufferSlot::BufferState`. -/
inductive BufferState
  | free
  | dequeued
  | queued
  | acquired
deriving DecidableEq, Repr

/-- A `GraphicBuffer`: which one it is, and what `dequeueBuffer` compares of it. -/
structure GraphicBuffer where
  handle : ℕ
  width : ℕ
  height : ℕ
  format : ℕ
  usage : ℕ
deriving DecidableEq, Repr

/-- What `queueBuffer` records of a frame, and `acquireBuffer` hands out again. -/
structure Frame where
  mCrop : Rect
  mTransform : ℕ
  mScalingMode : ℤ
  mTimestamp : ℤ
  mFrameNumber : ℕ
deriving DecidableEq, Repr

/-- `BufferSlot`.  The five fields of a frame are kept together in `frame`. -/
structure BufferSlot where
  mGraphicBuffer : Option GraphicBuffer
  mEglDisplay : ℕ
  mBufferState : BufferState
  mRequestBufferCalled : Bool
  frame : Frame
  mFence : ℕ
  mAcquireCalled : Bool
  mNeedsCleanupOnRelease : Bool
deriving DecidableEq, Repr

/-- `EGL_NO_DISPLAY`. -/
def eglNoDisplay : ℕ := 0

/-- `EGL_NO_SYNC_KHR`. -/
def eglNoSync : ℕ := 0

/-- `BufferSlot::BufferSlot`, with the crop made invalid and the scaling mode `FREEZE`. -/
def BufferSlot.init : BufferSlot where
  mGraphicBuffer := none
  mEglDisplay := eglNoDisplay
  mBufferState := .free
  mRequestBufferCalled := false
  frame := ⟨⟨0, 0, -1, -1⟩, 0, 0, 0, 0⟩
  mFence := eglNoSync
  mAcquireCalled := false
  mNeedsCleanupOnRelease := false

/-- `BufferQueue`.  A listener is known by a number. -/
structure BufferQueue where
  mSlots : Slot → BufferSlot
  mDefaultWidth : ℕ
  mDefaultHeight : ℕ
  mPixelFormat : ℕ
  mMinUndequeuedBuffers : ℤ
  mMinAsyncBufferSlots : ℤ
  mMinSyncBufferSlots : ℤ
  mBufferCount : ℤ
  mClientBufferCount : ℤ
  mServerBufferCount : ℤ
  mConsumerListener : Option ℕ
  mSynchronousMode : Bool
  mAllowSynchronousMode : Bool
  mConnectedApi : ℤ
  mQueue : List Slot
  mAbandoned : Bool
  mFrameCounter : ℕ
  mBufferHasBeenQueued : Bool
  mDefaultBufferFormat : ℕ
  mConsumerUsageBits : ℕ
  mTransformHint : ℕ

namespace BufferQueue

/-- `NO_CONNECTED_API`. -/
def noConnectedApi : ℤ := 0

/-- `MIN_UNDEQUEUED_BUFFERS`, what the constructor takes when it is not told otherwise. -/
def minUndequeuedBuffers : ℤ := 2

/-- `BufferQueue::BufferQueue`. -/
def init (allowSynchronousMode : Bool) (bufferCount : ℤ) : BufferQueue where
  mSlots := fun _ => .init
  mDefaultWidth := 1
  mDefaultHeight := 1
  mPixelFormat := 1
  mMinUndequeuedBuffers := bufferCount
  mMinAsyncBufferSlots := bufferCount + 1
  mMinSyncBufferSlots := bufferCount
  mBufferCount := bufferCount + 1
  mClientBufferCount := 0
  mServerBufferCount := bufferCount + 1
  mConsumerListener := none
  mSynchronousMode := false
  mAllowSynchronousMode := allowSynchronousMode
  mConnectedApi := noConnectedApi
  mQueue := []
  mAbandoned := false
  mFrameCounter := 0
  mBufferHasBeenQueued := false
  mDefaultBufferFormat := 0
  mConsumerUsageBits := 0
  mTransformHint := 0

/-- The slots from `0` up to `mBufferCount`. -/
def slots (q : BufferQueue) : List Slot :=
  (List.finRange numBufferSlots).filter fun i => (i : ℤ) < q.mBufferCount

/-- The slot with number `buf`, if the array has one. -/
def slot? (buf : ℤ) : Option Slot :=
  if h : 0 ≤ buf ∧ buf < numBufferSlots then some ⟨buf.toNat, by omega⟩ else none

/-- Write one slot. -/
def setSlot (q : BufferQueue) (i : Slot) (s : BufferSlot) : BufferQueue :=
  { q with mSlots := Function.update q.mSlots i s }

end BufferQueue

end Droid
