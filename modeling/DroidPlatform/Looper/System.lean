import DroidPlatform.Looper.Looper
import DroidPlatform.Core.Trace

/-!
# A looper, its polling thread and its senders

The system around one `Looper`: the wake pipe, any number of threads that call the looper, and one
thread that runs `pollInner`, never from inside itself.

* A **call** runs its lock-held section in one step, when `mLock` is free.  If it goes on to
  `wake()`, the byte is written in a later step of its own; the pipe is never full.
* The **polling thread** is at one of the points of `pollInner` listed in `Phase`.  It holds `mLock`
  across several steps, in particular across the reads of `awoken()`, each of which is a step: bytes
  may be written between them.  It also makes calls, from handlers, from callbacks and from outside
  of `pollInner`, and only goes on when its own call has returned.

The kernel is not restricted: `epoll_wait` may return at any time, with an error or with any events.
-/

namespace Droid.Looper

variable {τ H C D : Type*}

/-- The threads: the polling one, and the others. -/
inductive Thread (τ : Type*)
  | poller
  | sender (t : τ)
deriving DecidableEq, Repr

/-- What `epoll_wait` returns: an error, or events, none when it timed out. -/
inductive Wakeup
  | failed (eintr : Bool)
  | events (items : List EventItem)
deriving DecidableEq, Repr

/-- Where the polling thread is.  `next` is the `mNextMessageUptime` the timeout was computed
from, `result` the local variable of that name. -/
inductive Phase (H : Type*)
  /-- Not in `pollInner`. -/
  | outside
  /-- The timeout is computed. -/
  | entered (next timeoutMillis : ℤ)
  /-- In `epoll_wait`. -/
  | waiting (next timeoutMillis : ℤ)
  /-- Back from `epoll_wait`, about to take the lock. -/
  | returned (wakeup : Wakeup)
  /-- In the loop over the events. -/
  | handling (items : List EventItem)
  /-- In `awoken`, about to read; the events are those left for the loop. -/
  | reading (items : List EventItem)
  /-- At the label `Done`. -/
  | done (result : ℤ)
  /-- At the head of the loop over the messages. -/
  | dispatching (result : ℤ)
  /-- In `handler->handleMessage(message)`, without the lock. -/
  | sending (handler : H) (message : Message)
  /-- At the head of the loop over the responses, without the lock. -/
  | responding (i : ℕ) (result : ℤ)
  /-- In `handleEvent` of the callback of a response. -/
  | calling (i : ℕ)
  /-- The callback returned 0: about to call `removeFd(fd)`. -/
  | unregistering (i : ℕ) (fd : ℤ)
deriving DecidableEq, Repr

namespace Phase

/-- Whether the polling thread holds `mLock`. -/
def holdsLock : Phase H → Bool
  | handling _ | reading _ | done _ | dispatching _ => true
  | _ => false

/-- Whether the polling thread runs code that may call the looper. -/
def runsClient : Phase H → Bool
  | outside | sending _ _ | calling _ => true
  | _ => false

/-- Where `pollInner` goes on, with the lock taken, after `epoll_wait`. -/
def afterWait : Wakeup → Phase H
  | .failed eintr => done (if eintr then ALOOPER_POLL_WAKE else ALOOPER_POLL_ERROR)
  | .events [] => done ALOOPER_POLL_TIMEOUT
  | .events items => handling items

end Phase

/-- A call of a looper function. -/
inductive Call (H C D : Type*)
  | sendMessageAtTime (uptime : ℤ) (handler : H) (message : Message)
  | removeMessages (handler : H)
  | removeMessagesOf (handler : H) (what : ℤ)
  | addFd (fd ident : ℤ) (callback : Option C) (data : D) (epollResult : ℤ)
  | removeFd (fd epollResult : ℤ)
  | wake
deriving DecidableEq, Repr

/-- Whether the call takes the lock. -/
def Call.locks : Call H C D → Bool
  | wake => false
  | _ => true

/-- What a call does to the looper, and whether a byte is then to be written. -/
def run [DecidableEq H] (l : Looper H C D) : Call H C D → Looper H C D × Bool
  | .sendMessageAtTime uptime handler message => l.sendMessageAtTime uptime handler message
  | .removeMessages handler => (l.removeMessages handler, false)
  | .removeMessagesOf handler what => (l.removeMessagesOf handler what, false)
  | .addFd fd ident callback data epollResult =>
    ((l.addFd fd ident callback data epollResult).1, false)
  | .removeFd fd epollResult => ((l.removeFd fd epollResult).1, false)
  | .wake => (l, true)

/-- The looper, the number of bytes in the wake pipe, the threads that are about to write one, and
the polling thread. -/
structure System (τ H C D : Type*) where
  looper : Looper H C D
  pipe : ℕ := 0
  waking : Thread τ → Bool := fun _ => false
  phase : Phase H := .outside

/-- What happens in a step. -/
inductive Event (τ H C D : Type*)
  | call (t : Thread τ) (c : Call H C D)
  /-- `write(mWakeWritePipeFd, "W", 1)`. -/
  | write (t : Thread τ)
  /-- `pollInner(timeoutMillis)` is called and reads the clock. -/
  | poll (timeoutMillis now : ℤ)
  | wait
  | wakeUp (wakeup : Wakeup)
  | lock
  /-- One turn of the loop over the events. -/
  | handle
  /-- `read(mWakeReadPipeFd, buffer, sizeof(buffer))`. -/
  | read
  /-- The same, interrupted. -/
  | readInterrupted
  | reset
  /-- One turn of the loop over the messages, with what the clock says if it is read. -/
  | dispatch (now : ℤ)
  | handled
  | respond
  | called (callbackResult : ℤ)
  | unregister (epollResult : ℤ)
  | leave (result : ℤ)
deriving DecidableEq, Repr

namespace System

/-- The thread is not inside a call of the looper, and may make one. -/
def MayCall (s : System τ H C D) (t : Thread τ) : Prop :=
  s.waking t = false ∧ (t = .poller → s.phase.runsClient = true)

/-- The size of `buffer` in `awoken`. -/
def bufferSize : ℕ := 16

/-- What a `read` takes out of the pipe.  Nothing is what the non-blocking `read` of an empty pipe
takes. -/
def readCount (s : System τ H C D) : ℕ := min bufferSize s.pipe

/-- A call of another thread or of the polling one. -/
def call [DecidableEq τ] [DecidableEq H] (s : System τ H C D) (t : Thread τ) (c : Call H C D) :
    System τ H C D :=
  { s with
    looper := (s.looper.run c).1
    waking := Function.update s.waking t (s.looper.run c).2 }

/-- One turn of the loop over the events: `awoken()`, a response, or a warning. -/
def handle (s : System τ H C D) (item : EventItem) (items : List EventItem) : System τ H C D :=
  if item.fd = s.looper.mWakeReadPipeFd then
    { s with phase := if item.events &&& EPOLLIN ≠ 0 then .reading items else .handling items }
  else { s with looper := s.looper.pushResponse item, phase := .handling items }

/-- One turn of the loop over the messages. -/
def dispatch (s : System τ H C D) (result now : ℤ) : System τ H C D :=
  match s.looper.mMessageEnvelopes with
  | [] => { s with phase := .responding 0 result }
  | messageEnvelope :: rest =>
    if messageEnvelope.uptime ≤ now then
      { s with
        looper := { s.looper with mMessageEnvelopes := rest, mSendingMessage := true }
        phase := .sending messageEnvelope.handler messageEnvelope.message }
    else
      { s with
        looper := { s.looper with mNextMessageUptime := messageEnvelope.uptime }
        phase := .responding 0 result }

/-- A step of the polling thread in `pollInner`. -/
inductive Polls : System τ H C D → Event τ H C D → System τ H C D → Prop
  | poll {s timeoutMillis now} (h : s.phase = .outside) :
      Polls s (.poll timeoutMillis now) { s with
        phase := .entered s.looper.mNextMessageUptime (s.looper.adjustTimeout timeoutMillis now) }
  | wait {s next timeoutMillis} (h : s.phase = .entered next timeoutMillis) :
      Polls s .wait
        { s with looper := s.looper.clearResponses, phase := .waiting next timeoutMillis }
  | wakeUp {s next timeoutMillis wakeup} (h : s.phase = .waiting next timeoutMillis) :
      Polls s (.wakeUp wakeup) { s with phase := .returned wakeup }
  | lock {s wakeup} (h : s.phase = .returned wakeup) :
      Polls s .lock { s with phase := .afterWait wakeup }
  | handle {s item items} (h : s.phase = .handling (item :: items)) :
      Polls s .handle (s.handle item items)
  | handledAll {s} (h : s.phase = .handling []) :
      Polls s .handle { s with phase := .done ALOOPER_POLL_WAKE }
  | read {s items} (h : s.phase = .reading items) :
      Polls s .read { s with
        pipe := s.pipe - s.readCount
        phase := if s.readCount = bufferSize then .reading items else .handling items }
  | readInterrupted {s items} (h : s.phase = .reading items) : Polls s .readInterrupted s
  | reset {s result} (h : s.phase = .done result) :
      Polls s .reset { s with
        looper := { s.looper with mNextMessageUptime := LLONG_MAX }, phase := .dispatching result }
  | dispatch {s result now} (h : s.phase = .dispatching result) :
      Polls s (.dispatch now) (s.dispatch result now)
  | handled {s handler message} (h : s.phase = .sending handler message) :
      Polls s .handled { s with
        looper := { s.looper with mSendingMessage := false }
        phase := .dispatching ALOOPER_POLL_CALLBACK }
  | respond {s i result response} (h : s.phase = .responding i result)
      (hi : s.looper.mResponses[i]? = some response) :
      Polls s .respond { s with
        phase := if response.request.ident = ALOOPER_POLL_CALLBACK then .calling i
          else .responding (i + 1) result }
  | called {s i response callbackResult} (h : s.phase = .calling i)
      (hi : s.looper.mResponses[i]? = some response) :
      Polls s (.called callbackResult)
        (if callbackResult = 0 then { s with phase := .unregistering i response.request.fd }
        else { s with
          looper := s.looper.clearCallback i, phase := .responding (i + 1) ALOOPER_POLL_CALLBACK })
  | unregister {s i fd epollResult} (h : s.phase = .unregistering i fd) :
      Polls s (.unregister epollResult) { s with
        looper := (s.looper.removeFd fd epollResult).1.clearCallback i
        phase := .responding (i + 1) ALOOPER_POLL_CALLBACK }
  | leave {s i result} (h : s.phase = .responding i result)
      (hi : s.looper.mResponses.length ≤ i) : Polls s (.leave result) { s with phase := .outside }

/-- A step of the system. -/
inductive Step [DecidableEq τ] [DecidableEq H] (s : System τ H C D) :
    Event τ H C D → System τ H C D → Prop
  | call {t c} (hcall : s.MayCall t) (hlock : c.locks = true → s.phase.holdsLock = false) :
      Step s (.call t c) (s.call t c)
  | write {t} (h : s.waking t = true) :
      Step s (.write t)
        { s with pipe := s.pipe + 1, waking := Function.update s.waking t false }
  | polls {e s'} (hown : s.waking .poller = false) (h : s.Polls e s') : Step s e s'

/-- A new looper. -/
def init (allowNonCallbacks : Bool) (wakeReadPipeFd : ℤ) : System τ H C D where
  looper := { mAllowNonCallbacks := allowNonCallbacks, mWakeReadPipeFd := wakeReadPipeFd }

/-- The states a new looper gets to. -/
def Reachable [DecidableEq τ] [DecidableEq H] (s : System τ H C D) : Prop :=
  ∃ allowNonCallbacks wakeReadPipeFd es, Runs Step (init allowNonCallbacks wakeReadPipeFd) es s

end System

end Droid.Looper
