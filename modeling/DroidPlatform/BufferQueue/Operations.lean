import DroidPlatform.BufferQueue.Segment

/-!
# The operations of a buffer queue

`libs/gui/BufferQueue.cpp`, one definition for each operation, as the segments it consists of.
`dequeuePass` is the body of the `while (tryAgain)` loop of `dequeueBuffer` together with what
follows the loop; `drainQueueLocked` appears as the test for another wait.

Where the source would use a slot that is outside `mSlots`, or a `GraphicBuffer` that is not there,
there is no segment (`none`).
-/

namespace Droid

/-- `freeBufferLocked`: a fence that is set is destroyed. -/
def BufferSlot.freeBufferLocked (s : BufferSlot) : BufferSlot :=
  { s with
    mGraphicBuffer := none
    mNeedsCleanupOnRelease := s.mNeedsCleanupOnRelease || s.mBufferState == .acquired
    mBufferState := .free
    frame := { s.frame with mFrameNumber := 0 }
    mAcquireCalled := false
    mFence := eglNoSync }

namespace BufferQueue

/-! ## Helpers that run under the lock -/

variable (q : BufferQueue)

/-- `freeAllBuffersLocked`. -/
def freeAllBuffersLocked : BufferQueue :=
  { q with
    mQueue := []
    mBufferHasBeenQueued := false
    mSlots := fun i => (q.mSlots i).freeBufferLocked }

/-- `freeAllBuffersExceptHeadLocked`. -/
def freeAllBuffersExceptHeadLocked : BufferQueue :=
  { q with
    mBufferHasBeenQueued := false
    mSlots := fun i =>
      if q.mQueue.head? = some i then q.mSlots i else (q.mSlots i).freeBufferLocked }

/-- `setBufferCountServerLocked`. -/
def setBufferCountServerLocked (bufferCount : ℤ) : Segment :=
  if bufferCount > numBufferSlots then .done q .badValue
  else if bufferCount = q.mBufferCount then .done q .ok
  else if q.mClientBufferCount = 0 ∧ bufferCount ≥ q.mBufferCount then
    -- more buffers at once
    ⟨{ q with mBufferCount := bufferCount, mServerBufferCount := bufferCount },
      .returns { status := .ok }, [.resize bufferCount]⟩
  else if bufferCount < 2 then .done q .badValue
  else
    -- resized during the next `dequeueBuffer`
    .done { q with mServerBufferCount := bufferCount } .ok

/-- The buffers the current mode needs at least. -/
def minBufferSlots : ℤ :=
  if q.mSynchronousMode then q.mMinSyncBufferSlots else q.mMinAsyncBufferSlots

/-- What `QueueBufferOutput::inflate` is given. -/
def bufferOutput : QueueBufferOutput :=
  ⟨q.mDefaultWidth, q.mDefaultHeight, q.mTransformHint, q.mQueue.length⟩

/-- A callback, if there is a listener to call. -/
def notify (callback : Callback) : Option Callback :=
  q.mConsumerListener.map fun _ => callback

/-! ## Buffer counts -/

/-- `setBufferCountServer`. -/
def setBufferCountServer (bufferCount : ℤ) : Segment :=
  q.setBufferCountServerLocked bufferCount

/-- The count `setBufferCount(0)` goes back to. -/
def defaultBufferCount : ℤ :=
  if q.mServerBufferCount ≥ q.minBufferSlots then q.mServerBufferCount else q.minBufferSlots

/-- `setBufferCount`. -/
def setBufferCount (bufferCount : ℤ) : Segment :=
  if q.mAbandoned then .done q .noInit
  else if bufferCount > numBufferSlots then .done q .badValue
  else if q.slots.any fun i => (q.mSlots i).mBufferState = .dequeued then .done q .einval
  else if bufferCount = 0 then
    { q with mClientBufferCount := 0 }.setBufferCountServerLocked q.defaultBufferCount
  else if bufferCount < q.minBufferSlots then .done q .badValue
  else
    ⟨{ q.freeAllBuffersLocked with
        mBufferCount := bufferCount
        mClientBufferCount := bufferCount
        mBufferHasBeenQueued := false
        mQueue := [] },
      .returns { status := .ok, callback := q.notify .onBuffersReleased },
      [.free none, .resize bufferCount]⟩

/-! ## The producer -/

/-- `requestBuffer`. -/
def requestBuffer (slot : ℤ) : Option Segment :=
  if q.mAbandoned then some (.done q .noInit)
  else if slot < 0 ∨ q.mBufferCount ≤ slot then some (.done q .badValue)
  else (slot? slot).map fun i =>
    ⟨q.setSlot i { q.mSlots i with mRequestBufferCalled := true },
      .returns { status := .ok, buffer := (q.mSlots i).mGraphicBuffer }, []⟩

/-- One turn of the search loop of `dequeueBuffer`: the oldest free slot so far, and the number of
dequeued ones. -/
def scanSlot (found : Option Slot × ℕ) (i : Slot) : Option Slot × ℕ :=
  let s := q.mSlots i
  (if s.mBufferState = .free then
      match found.1 with
      | none => some i
      | some j => if s.frame.mFrameNumber < (q.mSlots j).frame.mFrameNumber then some i else some j
    else found.1,
   if s.mBufferState = .dequeued then found.2 + 1 else found.2)

/-- The search loop. -/
def scan : Option Slot × ℕ := q.slots.foldl q.scanSlot (none, 0)

/-- `numberOfBuffersNeedsToChange`. -/
def numberOfBuffersNeedsToChange : Bool :=
  q.mClientBufferCount = 0 &&
    (q.mServerBufferCount ≠ q.mBufferCount || q.mServerBufferCount < q.minBufferSlots)

/-- The resizing step of `dequeueBuffer`. -/
def resize : BufferQueue :=
  { q.freeAllBuffersLocked with
    mBufferCount :=
      if q.mServerBufferCount < q.minBufferSlots then q.minBufferSlots else q.mServerBufferCount
    mBufferHasBeenQueued := false }

/-- `ISurfaceTexture::BUFFER_NEEDS_REALLOCATION`. -/
def bufferNeedsReallocation : ℕ := 1

/-- `ISurfaceTexture::RELEASE_ALL_BUFFERS`. -/
def releaseAllBuffers : ℕ := 2

/-- The size and the format asked for, with the defaults filled in. -/
def request (args : DequeueArgs) : DequeueArgs :=
  let useDefaultSize : Bool := args.w = 0 && args.h = 0
  { args with
    w := if useDefaultSize then q.mDefaultWidth else args.w
    h := if useDefaultSize then q.mDefaultHeight else args.h
    format := if args.format = 0 then q.mPixelFormat else args.format }

/-- The buffer of a slot is there and good for a request. -/
def fits (buffer : Option GraphicBuffer) (r : DequeueArgs) : Bool :=
  match buffer with
  | none => false
  | some b => b.width = r.w && b.height = r.h && b.format = r.format && b.usage &&& r.usage = r.usage

/-- The rest of `dequeueBuffer` once a slot is found.  `alloc` is the answer of
`createGraphicBuffer`, in case it is asked. -/
def handOut (args : DequeueArgs) (alloc : Except Status GraphicBuffer) (buf : Slot)
    (log : List Action) : Segment :=
  let s := { q.mSlots buf with mBufferState := .dequeued }
  if fits s.mGraphicBuffer (q.request args) then
    ⟨q.setSlot buf { s with mFence := eglNoSync },
      .returns { status := args.returnFlags, outBuf := some buf },
      log ++ [.dequeue buf s.mGraphicBuffer]⟩
  else
    match alloc with
    | .error e =>
      ⟨q.setSlot buf s, .returns { status := e, outBuf := some buf },
        log ++ [.dequeue buf s.mGraphicBuffer]⟩
    | .ok graphicBuffer =>
      ⟨{ q with mPixelFormat := (q.request args).format }.setSlot buf
          { s with
            mAcquireCalled := false
            mGraphicBuffer := some graphicBuffer
            mRequestBufferCalled := false
            mFence := eglNoSync
            mEglDisplay := eglNoDisplay },
        .returns { status := (args.returnFlags ||| bufferNeedsReallocation : ℕ),
                   outBuf := some buf },
        log ++ [.dequeue buf (some graphicBuffer)]⟩

/-- The check made once a buffer has been queued: too few buffers would be left undequeued. -/
def exceedsMinUndequeued (dequeuedCount : ℕ) : Bool :=
  q.mBufferHasBeenQueued && q.mBufferCount - (dequeuedCount + 1)
    < q.mMinUndequeuedBuffers - (if q.mSynchronousMode then 1 else 0)

/-- The turn of the loop after the number of buffers has been settled. -/
def search (args : DequeueArgs) (alloc : Except Status GraphicBuffer) (log : List Action) :
    Segment :=
  let (found, dequeuedCount) := q.scan
  if q.mClientBufferCount = 0 ∧ dequeuedCount ≠ 0 then ⟨q, .returns { status := .einval }, log⟩
  else if q.exceedsMinUndequeued dequeuedCount then ⟨q, .returns { status := .ebusy }, log⟩
  else
    match found with
    | none => ⟨q, .waits (.dequeue args), log⟩
    | some buf => q.handOut args alloc buf log

/-- One turn of the `while (tryAgain)` loop of `dequeueBuffer`, up to a wait or to the return. -/
def dequeuePass (args : DequeueArgs) (alloc : Except Status GraphicBuffer) : Segment :=
  if q.mAbandoned then .done q .noInit
  else if q.numberOfBuffersNeedsToChange then
    if q.mQueue ≠ [] then ⟨q, .waits (.dequeue args), []⟩
    else q.resize.search { args with returnFlags := args.returnFlags ||| releaseAllBuffers } alloc
      [.free none, .resize q.resize.mBufferCount]
  else q.search args alloc []

/-- `dequeueBuffer`. -/
def dequeueBuffer (w h format usage : ℕ) (alloc : Except Status GraphicBuffer) : Segment :=
  if (w ≠ 0 ∧ h = 0) ∨ (w = 0 ∧ h ≠ 0) then .done q .badValue
  else q.dequeuePass
    ⟨w, h, if format = 0 then q.mDefaultBufferFormat else format, usage ||| q.mConsumerUsageBits, 0⟩
    alloc

/-- The test of the loop of `drainQueueLocked`. -/
def draining : Bool := q.mSynchronousMode && !q.mQueue.isEmpty

/-- `drainQueueLocked` gives up after a wait. -/
def drainFails : Bool := q.mAbandoned || q.mConnectedApi = noConnectedApi

/-- The end of `setSynchronousMode`. -/
def switchMode (enabled : Bool) : Segment :=
  if q.mSynchronousMode ≠ enabled then
    ⟨{ q with mSynchronousMode := enabled }, .returns { status := .ok }, [.setSync enabled]⟩
  else .done q .ok

/-- `setSynchronousMode`. -/
def setSynchronousMode (enabled : Bool) : Segment :=
  if q.mAbandoned then .done q .noInit
  else if !q.mAllowSynchronousMode && enabled then .done q .ok
  else if enabled then q.switchMode enabled
  else if q.draining then ⟨q, .waits .setAsynchronous, []⟩
  else q.switchMode enabled

/-- `setSynchronousMode(false)` after a wait. -/
def resumeSetAsynchronous : Segment :=
  if q.drainFails then .done q .noInit
  else if q.draining then ⟨q, .waits .setAsynchronous, []⟩
  else q.switchMode false

/-- `NATIVE_WINDOW_SCALING_MODE_FREEZE`, `_SCALE_TO_WINDOW` and `_SCALE_CROP`. -/
def knownScalingMode (scalingMode : ℤ) : Bool :=
  scalingMode = 0 || scalingMode = 1 || scalingMode = 2

/-- `Rect::intersect`. -/
def intersect (r s : Rect) : Rect :=
  ⟨max r.left s.left, max r.top s.top, min r.right s.right, min r.bottom s.bottom⟩

/-- The frame `queueBuffer` records in slot `buf`. -/
def newFrame (buf : Slot) (input : QueueBufferInput) : Frame where
  mCrop := input.crop
  mTransform := input.transform
  mScalingMode :=
    if knownScalingMode input.scalingMode then input.scalingMode
    else (q.mSlots buf).frame.mScalingMode
  mTimestamp := input.timestamp
  mFrameNumber := (q.mFrameCounter + 1) % 2 ^ 64

/-- `mQueue` and the slots after the frame in `buf` joined the FIFO. -/
def enqueue (buf : Slot) : BufferQueue :=
  if q.mSynchronousMode then { q with mQueue := q.mQueue ++ [buf] }
  else
    match q.mQueue with
    | [] => { q with mQueue := [buf] }
    | front :: rest =>
      -- the frame still waiting is dropped
      { q.setSlot front { q.mSlots front with mBufferState := .free } with mQueue := buf :: rest }

/-- `queueBuffer` once its arguments have been checked.  An asynchronous consumer has been told of a
frame that still waits, and is not told again. -/
def queueFrame (buf : Slot) (input : QueueBufferInput) : Segment :=
  let frame := q.newFrame buf input
  let q' := { (q.enqueue buf).setSlot buf { q.mSlots buf with mBufferState := .queued, frame } with
    mFrameCounter := (q.mFrameCounter + 1) % 2 ^ 64
    mBufferHasBeenQueued := true }
  ⟨q', .returns
    { status := .ok
      output := some q'.bufferOutput
      callback :=
        if q.mSynchronousMode || q.mQueue.isEmpty then q.notify .onFrameAvailable else none },
    [.queue buf frame]⟩

/-- `queueBuffer`. -/
def queueBuffer (buf : ℤ) (input : QueueBufferInput) : Option Segment :=
  if q.mAbandoned then some (.done q .noInit)
  else if buf < 0 ∨ buf ≥ q.mBufferCount then some (.done q .einval)
  else (slot? buf).bind fun i =>
    if (q.mSlots i).mBufferState ≠ .dequeued then some (.done q .einval)
    else if (q.mSlots i).mRequestBufferCalled = false then some (.done q .einval)
    else (q.mSlots i).mGraphicBuffer.map fun graphicBuffer =>
      let bufferRect : Rect := ⟨0, 0, toInt32 graphicBuffer.width, toInt32 graphicBuffer.height⟩
      if intersect input.crop bufferRect ≠ input.crop then .done q .einval
      else q.queueFrame i input

/-- `cancelBuffer`. -/
def cancelBuffer (buf : ℤ) : Option Segment :=
  if q.mAbandoned then some (.done q .ok)
  else if buf < 0 ∨ buf ≥ q.mBufferCount then some (.done q .ok)
  else (slot? buf).map fun i =>
    let s := q.mSlots i
    if s.mBufferState ≠ .dequeued then .done q .ok
    else
      ⟨q.setSlot i { s with mBufferState := .free, frame := { s.frame with mFrameNumber := 0 } },
        .returns { status := .ok }, [.cancel i]⟩

/-- The APIs a producer may connect with: `NATIVE_WINDOW_API_EGL`, `_CPU`, `_MEDIA`, `_CAMERA`. -/
def knownApi (api : ℤ) : Bool := 1 ≤ api && api ≤ 4

/-- `connect`. -/
def connect (api : ℤ) : Segment :=
  if q.mAbandoned then .done q .noInit
  else if q.mConsumerListener = none then .done q .noInit
  else if knownApi api ∧ q.mConnectedApi = noConnectedApi then
    ⟨{ q with mConnectedApi := api, mBufferHasBeenQueued := false },
      .returns { status := .ok, output := some q.bufferOutput }, []⟩
  else .done { q with mBufferHasBeenQueued := false } .einval

/-- The end of `disconnect`, once the queue is drained (`freed`) or cannot be. -/
def finishDisconnect (drained : Bool) : Segment :=
  let (q', log) :=
    if !drained then (q, [])
    else if q.mSynchronousMode then (q.freeAllBuffersLocked, [Action.free none])
    else (q.freeAllBuffersExceptHeadLocked, [Action.free q.mQueue.head?])
  ⟨{ q' with mConnectedApi := noConnectedApi },
    .returns { status := .ok, callback := q.notify .onBuffersReleased }, log⟩

/-- `disconnect`. -/
def disconnect (q : BufferQueue) (api : ℤ) : Segment :=
  if q.mAbandoned then .done q .ok
  else if knownApi api ∧ q.mConnectedApi = api then
    if q.draining then ⟨q, .waits .disconnect, []⟩ else q.finishDisconnect true
  else .done q .einval

/-- `disconnect` after a wait. -/
def resumeDisconnect : Segment :=
  if q.drainFails then q.finishDisconnect false
  else if q.draining then ⟨q, .waits .disconnect, []⟩
  else q.finishDisconnect true

/-! ## The consumer -/

/-- `acquireBuffer`. -/
def acquireBuffer : Segment :=
  match q.mQueue with
  | [] => .done q .noBufferAvailable
  | buf :: rest =>
    let s := q.mSlots buf
    let item : BufferItem :=
      ⟨if s.mAcquireCalled then none else s.mGraphicBuffer, s.frame, buf⟩
    ⟨{ q.setSlot buf { s with mAcquireCalled := true, mBufferState := .acquired } with
        mQueue := rest },
      .returns { status := .ok, item := some item }, [.acquire buf s.frame]⟩

/-- `releaseBuffer`.  `INVALID_BUFFER_SLOT` is `-1`. -/
def releaseBuffer (buf : ℤ) (display fence : ℕ) : Option Segment :=
  if buf = -1 then some (.done q .einval)
  else (slot? buf).map fun i =>
    let s := { q.mSlots i with mEglDisplay := display, mFence := fence }
    if s.mBufferState = .acquired then
      ⟨q.setSlot i { s with mBufferState := .free }, .returns { status := .ok }, [.release i]⟩
    else if s.mNeedsCleanupOnRelease then
      ⟨q.setSlot i { s with mNeedsCleanupOnRelease := false },
        .returns { status := .staleBufferSlot }, [.clean i]⟩
    else .done (q.setSlot i s) .einval

/-- `consumerConnect`. -/
def consumerConnect (consumerListener : Option ℕ) : Segment :=
  if q.mAbandoned then .done q .noInit
  else .done { q with mConsumerListener := consumerListener } .ok

/-- `consumerDisconnect`. -/
def consumerDisconnect : Segment :=
  if q.mConsumerListener = none then .done q .einval
  else
    ⟨{ q.freeAllBuffersLocked with mAbandoned := true, mConsumerListener := none },
      .returns { status := .ok }, [.free none]⟩

/-! ## Settings and queries -/

/-- `setDefaultBufferSize`. -/
def setDefaultBufferSize (w h : ℕ) : Segment :=
  if w = 0 ∨ h = 0 then .done q .badValue
  else .done { q with mDefaultWidth := w, mDefaultHeight := h } .ok

/-- `setDefaultBufferFormat`. -/
def setDefaultBufferFormat (defaultFormat : ℕ) : Segment :=
  .done { q with mDefaultBufferFormat := defaultFormat } .ok

/-- `setConsumerUsageBits`. -/
def setConsumerUsageBits (usage : ℕ) : Segment :=
  .done { q with mConsumerUsageBits := usage } .ok

/-- `setTransformHint`. -/
def setTransformHint (hint : ℕ) : Segment :=
  .done { q with mTransformHint := hint } .ok

/-- `getReleasedBuffers`: the mask of the slots the consumer has not acquired. -/
def getReleasedBuffers : Segment :=
  if q.mAbandoned then .done q .noInit
  else
    let mask := (List.finRange numBufferSlots).foldl
      (fun mask i => if (q.mSlots i).mAcquireCalled then mask else mask ||| 1 <<< (i : ℕ)) 0
    ⟨q, .returns { status := .ok, value := some mask }, []⟩

end BufferQueue

end Droid
