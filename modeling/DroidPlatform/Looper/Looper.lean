import DroidPlatform.Core.Doorbell

/-!
# `Looper`

The message queue and the file descriptor requests of a `Looper` (`libs/utils/Looper.cpp`), and what
each of its functions does to them while it holds `mLock`.  The thread that polls, the pipe and the
interleaving with other threads are in `Looper/System.lean`.

Handlers, callbacks and data pointers are only compared and passed on, so they are arbitrary types.
`Vector<MessageEnvelope>` is a list; `KeyedVector<int, Request>`, which is only ever used by key, is
a partial map.  Times are integers of nanoseconds.  What the kernel answers to `epoll_ctl` and what
`systemTime` returns are arguments.
-/

namespace Droid

def LLONG_MAX : ℤ := 2 ^ 63 - 1

def INT_MAX : ℤ := 2 ^ 31 - 1

/-- `toMillisecondTimeoutDelay` of `libs/utils/Timers.cpp`. -/
def toMillisecondTimeoutDelay (referenceTime timeoutTime : ℤ) : ℤ :=
  if timeoutTime > referenceTime then
    let timeoutDelay := timeoutTime - referenceTime
    if timeoutDelay > (INT_MAX - 1) * 1000000 then -1
    else (timeoutDelay + 999999) / 1000000
  else 0

/-! ## Constants -/

def ALOOPER_POLL_WAKE : ℤ := -1
def ALOOPER_POLL_CALLBACK : ℤ := -2
def ALOOPER_POLL_TIMEOUT : ℤ := -3
def ALOOPER_POLL_ERROR : ℤ := -4

def ALOOPER_EVENT_INPUT : BitVec 32 := 1
def ALOOPER_EVENT_OUTPUT : BitVec 32 := 2
def ALOOPER_EVENT_ERROR : BitVec 32 := 4
def ALOOPER_EVENT_HANGUP : BitVec 32 := 8

def EPOLLIN : BitVec 32 := 0x01
def EPOLLOUT : BitVec 32 := 0x04
def EPOLLERR : BitVec 32 := 0x08
def EPOLLHUP : BitVec 32 := 0x10

/-! ## Data -/

structure Message where
  what : ℤ
deriving DecidableEq, Repr

structure MessageEnvelope (H : Type*) where
  uptime : ℤ
  handler : H
  message : Message
deriving DecidableEq, Repr

structure Request (C D : Type*) where
  fd : ℤ
  ident : ℤ
  callback : Option C
  data : D
deriving DecidableEq, Repr

structure Response (C D : Type*) where
  events : BitVec 32
  request : Request C D
deriving DecidableEq, Repr

/-- `struct epoll_event`, as `epoll_wait` fills it in. -/
structure EventItem where
  fd : ℤ
  events : BitVec 32
deriving DecidableEq, Repr

structure Looper (H C D : Type*) where
  mAllowNonCallbacks : Bool
  mWakeReadPipeFd : ℤ
  mMessageEnvelopes : List (MessageEnvelope H) := []
  mSendingMessage : Bool := false
  mRequests : ℤ → Option (Request C D) := fun _ => none
  mResponses : List (Response C D) := []
  mResponseIndex : ℕ := 0
  mNextMessageUptime : ℤ := LLONG_MAX

namespace Looper

variable {H C D : Type*} (l : Looper H C D)

/-! ## Messages -/

/-- The lock-held section of `sendMessageAtTime`, and whether the call goes on to `wake()`. -/
def sendMessageAtTime (uptime : ℤ) (handler : H) (message : Message) : Looper H C D × Bool :=
  let i := slot MessageEnvelope.uptime uptime l.mMessageEnvelopes
  let l' := { l with
    mMessageEnvelopes := l.mMessageEnvelopes.insertIdx i ⟨uptime, handler, message⟩ }
  -- the next thing the looper does after processing messages is to decide on the next wakeup time
  if l.mSendingMessage then (l', false) else (l', i == 0)

/-- Both overloads of `removeMessages`: take out, from the back, the envelopes that match. -/
def removeEnvelopes (isMatch : MessageEnvelope H → Bool) : Looper H C D :=
  { l with mMessageEnvelopes := removeBelow isMatch l.mMessageEnvelopes.length l.mMessageEnvelopes }

def removeMessages [DecidableEq H] (l : Looper H C D) (handler : H) : Looper H C D :=
  l.removeEnvelopes fun messageEnvelope => messageEnvelope.handler = handler

def removeMessagesOf [DecidableEq H] (l : Looper H C D) (handler : H) (what : ℤ) : Looper H C D :=
  l.removeEnvelopes fun messageEnvelope =>
    messageEnvelope.handler = handler && messageEnvelope.message.what = what

/-! ## File descriptors -/

/-- `addFd`, with the answer of `epoll_ctl` as an argument. -/
def addFd (fd ident : ℤ) (callback : Option C) (data : D) (epollResult : ℤ) : Looper H C D × ℤ :=
  if callback.isNone && !l.mAllowNonCallbacks then (l, -1)
  else if callback.isNone && ident < 0 then (l, -1)
  else
    let ident := if callback.isNone then ident else ALOOPER_POLL_CALLBACK
    if epollResult < 0 then (l, -1)
    else
      ({ l with mRequests := Function.update l.mRequests fd (some ⟨fd, ident, callback, data⟩) }, 1)

/-- `removeFd`, with the answer of `epoll_ctl` as an argument. -/
def removeFd (fd : ℤ) (epollResult : ℤ) : Looper H C D × ℤ :=
  match l.mRequests fd with
  | none => (l, 0)
  | some _ =>
    if epollResult < 0 then (l, -1)
    else ({ l with mRequests := Function.update l.mRequests fd none }, 1)

/-! ## Pieces of `pollInner` -/

/-- Adjust the timeout based on when the next message is due. -/
def adjustTimeout (timeoutMillis now : ℤ) : ℤ :=
  if timeoutMillis ≠ 0 ∧ l.mNextMessageUptime ≠ LLONG_MAX then
    let messageTimeoutMillis := toMillisecondTimeoutDelay now l.mNextMessageUptime
    if messageTimeoutMillis ≥ 0 ∧ (timeoutMillis < 0 ∨ messageTimeoutMillis < timeoutMillis) then
      messageTimeoutMillis
    else timeoutMillis
  else timeoutMillis

def clearResponses : Looper H C D :=
  { l with mResponses := [], mResponseIndex := 0 }

/-- The looper's events for the kernel's. -/
def eventsOf (epollEvents : BitVec 32) : BitVec 32 :=
  let flag (mask event : BitVec 32) := if epollEvents &&& mask ≠ 0 then event else 0
  flag EPOLLIN ALOOPER_EVENT_INPUT ||| flag EPOLLOUT ALOOPER_EVENT_OUTPUT |||
    flag EPOLLERR ALOOPER_EVENT_ERROR ||| flag EPOLLHUP ALOOPER_EVENT_HANGUP

/-- An event on a descriptor other than the wake pipe.  One that is no longer registered is
ignored. -/
def pushResponse (item : EventItem) : Looper H C D :=
  match l.mRequests item.fd with
  | none => l
  | some request => { l with mResponses := l.mResponses ++ [⟨eventsOf item.events, request⟩] }

/-- `response.request.callback.clear()` for the response at `i`. -/
def clearCallback (i : ℕ) : Looper H C D :=
  { l with mResponses := l.mResponses.modify i fun response =>
      { response with request.callback := none } }

end Looper

end Droid
