import DroidPlatform.Core.Threads
import DroidPlatform.Core.Word

/-!
# Semaphores

`semaphore.c` keeps a semaphore in one word: a signed value of 31 bits above a bit that says whether the
semaphore is shared between processes.  The value -1 stands for zero with threads that wait.

The three primitives `__sem_dec`, `__sem_trydec` and `__sem_inc` are one loop: load the word, stop if
the value is such, else compute a new value and try to store it with `__bionic_cmpxchg`.  A thread takes
one access to the word at a time.  `Pc` is where it is in `sem_wait`, `sem_timedwait`, `sem_trywait` or
`sem_post`; between two calls it is idle.  `__bionic_cmpxchg` may fail for no reason, as the helper of
the kernel may on processors without exclusive loads and stores, and `__futex_wait_ex` may return at any
time with any result.
-/

namespace Droid.Semaphore

/-! ## The word -/

def SEMCOUNT_SHARED_MASK : ℕ := 0x00000001
def SEMCOUNT_VALUE_MASK : ℕ := 0xfffffffe
def SEMCOUNT_VALUE_SHIFT : ℕ := 1

def SEM_MAX_VALUE : ℕ := 0x3fffffff

/-- Converts a value into the corresponding bit pattern. -/
def SEMCOUNT_FROM_VALUE (val : ℤ) : ℕ := toWord (val <<< SEMCOUNT_VALUE_SHIFT) &&& SEMCOUNT_VALUE_MASK

/-- Converts a bit pattern into the corresponding signed value. -/
def SEMCOUNT_TO_VALUE (sval : ℕ) : ℤ := toInt32 sval >>> SEMCOUNT_VALUE_SHIFT

def SEMCOUNT_ONE : ℕ := SEMCOUNT_FROM_VALUE 1

def SEMCOUNT_DECREMENT (sval : ℕ) : ℕ :=
  toWord (sval - (1 <<< SEMCOUNT_VALUE_SHIFT : ℕ)) &&& SEMCOUNT_VALUE_MASK

def SEMCOUNT_INCREMENT (sval : ℕ) : ℕ :=
  toUInt32 (sval + 1 <<< SEMCOUNT_VALUE_SHIFT) &&& SEMCOUNT_VALUE_MASK

/-- The word of a new semaphore; there is none if the value is too large (`EINVAL`). -/
def sem_init (pshared : ℤ) (value : ℕ) : Option ℕ :=
  if value > SEM_MAX_VALUE then none
  else
    let count := SEMCOUNT_FROM_VALUE value
    some (if pshared ≠ 0 then count ||| SEMCOUNT_SHARED_MASK else count)

/-! ## The primitives -/

inductive Prim
  | dec
  | trydec
  | inc
deriving DecidableEq, Repr

/-- When a primitive leaves its loop without a change. -/
def Prim.stops : Prim → ℤ → Bool
  | dec, ret => ret < 0
  | trydec, ret => ret ≤ 0
  | inc, ret => ret = SEM_MAX_VALUE

/-- What a primitive makes of a value. -/
def Prim.new : Prim → ℕ → ℕ
  | dec, old => SEMCOUNT_DECREMENT old
  | trydec, old => SEMCOUNT_DECREMENT old
  | inc, old => if SEMCOUNT_TO_VALUE old < 0 then SEMCOUNT_ONE else SEMCOUNT_INCREMENT old

/-! ## The calls -/

structure Timespec where
  tv_sec : ℤ
  tv_nsec : ℤ
deriving DecidableEq, Repr

inductive Errno
  | EINVAL
  | EAGAIN
  | EINTR
  | ETIMEDOUT
  | EOVERFLOW
deriving DecidableEq, Repr

/-- What a call returns: 0, or -1 and `errno`. -/
abbrev Result := Option Errno

inductive Call
  | sem_wait
  | sem_timedwait (abs_timeout : Option Timespec)
  | sem_trywait
  | sem_post
deriving DecidableEq, Repr

/-- Where a primitive is called.  `sem_timedwait` does so before it looks at the timeout, and in its
loop. -/
inductive Site
  | wait
  | timedFirst (abs_timeout : Option Timespec)
  | timedLoop (abs_timeout : Timespec)
  | trywait
  | post
deriving DecidableEq, Repr

def Site.prim : Site → Prim
  | wait => .dec
  | timedFirst _ => .trydec
  | timedLoop _ => .dec
  | trywait => .trydec
  | post => .inc

def Site.isPost : Site → Bool
  | post => true
  | _ => false

/-- Where a thread is. -/
inductive Pc
  | idle
  /-- Before `SEM_GET_SHARED`. -/
  | getShared (site : Site)
  /-- Before `clock_gettime`. -/
  | clock_gettime (abs_timeout : Timespec)
  /-- Before the first load of a primitive. -/
  | enter (site : Site)
  /-- Before the load in the loop of a primitive. -/
  | load (site : Site) (shared : ℕ)
  /-- Before `__bionic_cmpxchg`. -/
  | cmpxchg (site : Site) (shared old : ℕ)
  | futex_wait (site : Site)
  | futex_wake
  /-- About to return. -/
  | done (site : Site) (result : Result)
deriving DecidableEq, Repr

/-- What can happen to a thread. -/
inductive Event
  | call (c : Call)
  /-- A load, or what needs no access to the word. -/
  | step
  | cmpxchg (spurious : Bool)
  | clock (now : Timespec)
  | futex (ret : Result)
  | return (site : Site) (result : Result)
deriving DecidableEq, Repr

/-- "Check it as per Posix". -/
def Timespec.invalid (t : Timespec) : Bool :=
  t.tv_sec < 0 ∨ t.tv_nsec < 0 ∨ t.tv_nsec ≥ 1000000000

/-- Whether the timeout is over. -/
def Timespec.expired (abs_timeout now : Timespec) : Bool :=
  let sec := abs_timeout.tv_sec - now.tv_sec
  let nsec := abs_timeout.tv_nsec - now.tv_nsec
  let ts : Timespec := if nsec < 0 then ⟨sec - 1, nsec + 1000000000⟩ else ⟨sec, nsec⟩
  ts.tv_sec < 0 ∨ ts.tv_nsec < 0

def Call.start : Call → Pc
  | sem_wait => .getShared .wait
  | sem_timedwait abs_timeout => .enter (.timedFirst abs_timeout)
  | sem_trywait => .enter .trywait
  | sem_post => .getShared .post

/-- What follows once a primitive returned `ret`. -/
def Site.returned : Site → ℤ → Pc
  | wait, ret => if ret > 0 then .done wait none else .futex_wait wait
  | timedFirst abs_timeout, ret =>
    if ret > 0 then .done (timedFirst abs_timeout) none
    else match abs_timeout with
      | none => .done (timedFirst abs_timeout) (some .EINVAL)
      | some t => if t.invalid then .done (timedFirst abs_timeout) (some .EINVAL)
          else .getShared (timedLoop t)
  | timedLoop t, ret => if ret > 0 then .done (timedLoop t) none else .futex_wait (timedLoop t)
  | trywait, ret => if ret > 0 then .done trywait none else .done trywait (some .EAGAIN)
  | post, ret =>
    if ret < 0 then .futex_wake
    else if ret = SEM_MAX_VALUE then .done post (some .EOVERFLOW)
    else .done post none

/-- What a thread does. -/
def next : Pc → ℕ → Event → Option (Pc × ℕ)
  | .idle, count, .call c => some (c.start, count)
  | .getShared (.timedLoop t), count, .step => some (.clock_gettime t, count)
  | .getShared site, count, .step => some (.enter site, count)
  | .clock_gettime t, count, .clock now =>
    some (if t.expired now then .done (.timedLoop t) (some .ETIMEDOUT) else .enter (.timedLoop t),
      count)
  | .enter site, count, .step => some (.load site (count &&& SEMCOUNT_SHARED_MASK), count)
  | .load site shared, count, .step =>
    let old := count &&& SEMCOUNT_VALUE_MASK
    let ret := SEMCOUNT_TO_VALUE old
    some (if site.prim.stops ret then site.returned ret else .cmpxchg site shared old, count)
  | .cmpxchg site shared old, count, .cmpxchg spurious =>
    if count = old ||| shared ∧ !spurious then
      some (site.returned (SEMCOUNT_TO_VALUE old), site.prim.new old ||| shared)
    else some (.load site shared, count)
  | .futex_wait (.timedLoop t), count, .futex ret =>
    some (if ret = some .ETIMEDOUT ∨ ret = some .EINTR then .done (.timedLoop t) ret
      else .clock_gettime t, count)
  | .futex_wait site, count, .futex _ => some (.enter site, count)
  | .futex_wake, count, .step => some (.done .post none, count)
  | .done site result, count, .return site' result' =>
    if site = site' ∧ result = result' then some (.idle, count) else none
  | _, _, _ => none

/-- One thread takes one step. -/
abbrev Step {ι : Type*} [DecidableEq ι] := Threads.Step (ι := ι) fun _ => next

/-- Nobody uses the semaphore yet. -/
def start (ι : Type*) (count : ℕ) : Threads ι ℕ Pc := ⟨count, fun _ => .idle⟩

end Droid.Semaphore
