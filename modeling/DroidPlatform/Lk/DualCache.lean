import DroidPlatform.Core.Bytes
import DroidPlatform.Core.Trace

/-!
# Downloading through two caches

A big image is downloaded by two threads (`download_commands.c`).  `read_usb_proc` receives from USB
into one of two caches while `write_storage_proc` stores the other; each cache has an event that says
that it has been filled, and one that says that it may be filled.  A cache of length 0 marks the end.
In front of each cache there is room for the bytes of a sparse image that could not be stored with
the package before; `write_data` puts them there.

The threads share the engine context and the memory from `download_base` on.  They take turns in any
order; a turn is what a thread does with the context up to the next thing the other may see.  What
USB, the security check and the storage answer is part of the move.  An event is unsignalled by the
wait that it lets through.
-/

namespace Droid.Lk

def CACHE_PADDING_SIZE : ℕ := 512

structure EngineContext where
  memory : Memory
  padding_length : ℕ → ℕ
  content_length : ℕ → ℕ
  content_available : ℕ → Bool
  cache_available : ℕ → Bool
  thr_end_ev : Bool
  b_error : Bool
  flipIdxR : ℕ
  flipIdxW : ℕ

/-- `init_engine_context`; the lengths of the contents and the memory are whatever they were. -/
def init_engine_context (memory : Memory) (content_length : ℕ → ℕ) : EngineContext where
  memory := memory
  padding_length := fun _ => 0
  content_length := content_length
  content_available := fun _ => false
  cache_available := fun _ => true
  thr_end_ev := false
  b_error := false
  flipIdxR := 0
  flipIdxW := 0

def cache_shift (pre : ℕ) : ℕ := pre ^^^ 1

/-- Where the padding of a cache is, for caches of `page` bytes. -/
def padding_buf (page i : ℕ) : ℕ := i * (CACHE_PADDING_SIZE + page)

def cache_buf (page i : ℕ) : ℕ := padding_buf page i + CACHE_PADDING_SIZE

variable (ctx : EngineContext)

namespace EngineContext

def signalContent (i : ℕ) : EngineContext :=
  { ctx with content_available := Function.update ctx.content_available i true }

def signalCache (i : ℕ) : EngineContext :=
  { ctx with cache_available := Function.update ctx.cache_available i true }

/-- `event_wait`, once the event is signalled -/
def takeContent (i : ℕ) : EngineContext :=
  { ctx with content_available := Function.update ctx.content_available i false }

def takeCache (i : ℕ) : EngineContext :=
  { ctx with cache_available := Function.update ctx.cache_available i false }

def setLength (i n : ℕ) : EngineContext :=
  { ctx with content_length := Function.update ctx.content_length i n }

end EngineContext

def abort_engine : EngineContext :=
  { ctx with
    b_error := true
    cache_available := fun _ => true
    content_available := fun _ => true
    thr_end_ev := true }

/-! ## The two procedures -/

inductive ReadPc
  | waitCache
  | checkError
  | reading
  | setLength
  | signal
  | waitLast
  | clearLast
  | signalLast
  | error
  | returned (ok : Bool)
  deriving DecidableEq, Repr

structure Reader where
  pc : ReadPc
  bytes_already_read : ℕ
  bytes_read : ℕ
  bytes_left : ℕ
  deriving DecidableEq, Repr

inductive WritePc
  | waitContent
  | checkError
  | security
  | write
  | test
  | release
  | endFirst
  | endSecond
  | endThread
  | error
  | returned (code : ℤ)
  deriving DecidableEq, Repr

/-- What `write_data` makes of a package: it fails, it stores everything, or it is a sparse image and
some bytes wait for the next package. -/
inductive Stored
  | failed
  | plain
  | sparse (left : List UInt8)
  deriving DecidableEq, Repr

/-- The download, and the contents the writer has stored. -/
structure Download where
  ctx : EngineContext
  reader : Reader
  writer : WritePc
  consumed : List UInt8

/-- A turn of a thread: of the reader, with what `usb_read` returns (`none` for a negative number), or
of the writer, with the answers of `security_check` and `write_data`. -/
inductive Move
  | reader (usb : Option ℕ)
  | writer (secure : Bool) (stored : Stored)

/-- `read_usb_proc`, for an image of `data_length` bytes that arrive as `input`. -/
def read_usb_proc (page data_length : ℕ) (input : Memory) (s : Download) (usb : Option ℕ) :
    Option Download :=
  let ctx := s.ctx
  let r := s.reader
  let i := ctx.flipIdxW
  match r.pc with
  | .waitCache =>
    if ctx.cache_available i then
      some { s with ctx := ctx.takeCache i, reader := { r with pc := .checkError } }
    else none
  | .checkError =>
    if ctx.b_error then some { s with reader := { r with pc := .error } }
    else
      let bytes_left := data_length - r.bytes_already_read
      some { s with reader := { r with
        pc := .reading
        bytes_read := 0
        bytes_left := if page ≤ bytes_left then page else bytes_left } }
  | .reading =>
    if 0 < r.bytes_left then
      match usb with
      | none => some { s with reader := { r with pc := .error } }
      | some n =>
        if n ≤ r.bytes_left then
          let bytes := input.slice (r.bytes_already_read + r.bytes_read) n
          some { s with
            ctx := { ctx with memory := ctx.memory.write (cache_buf page i + r.bytes_read) bytes }
            reader := { r with
              bytes_left := r.bytes_left - n
              bytes_read := r.bytes_read + n } }
        else none
    else some { s with reader := { r with pc := .setLength } }
  | .setLength =>
    some { s with
      ctx := ctx.setLength i r.bytes_read
      reader := { r with
        pc := .signal
        bytes_already_read := r.bytes_already_read + r.bytes_read } }
  | .signal =>
    -- `flipIdxW` is the reader's own
    let ctx := { ctx.signalContent i with flipIdxW := cache_shift i }
    if r.bytes_already_read < data_length then
      some { s with ctx := ctx, reader := { r with pc := .waitCache } }
    else if r.bytes_already_read = data_length then
      some { s with ctx := ctx, reader := { r with pc := .waitLast } }
    -- a write to address 0
    else none
  | .waitLast =>
    if ctx.cache_available i then
      some { s with ctx := ctx.takeCache i, reader := { r with pc := .clearLast } }
    else none
  | .clearLast =>
    some { s with ctx := ctx.setLength i 0, reader := { r with pc := .signalLast } }
  | .signalLast =>
    some { s with ctx := ctx.signalContent i, reader := { r with pc := .returned true } }
  | .error => some { s with ctx := abort_engine ctx, reader := { r with pc := .returned false } }
  | .returned _ => none

/-- `write_storage_proc` -/
def write_storage_proc (page : ℕ) (s : Download) (secure : Bool) (stored : Stored) :
    Option Download :=
  let ctx := s.ctx
  let i := ctx.flipIdxR
  let content := ctx.memory.slice (cache_buf page i) (ctx.content_length i)
  match s.writer with
  | .waitContent =>
    if ctx.content_available i then
      some { s with ctx := ctx.takeContent i, writer := .checkError }
    else none
  | .checkError =>
    if ctx.b_error then some { s with writer := .error }
    else if ctx.content_length i ≠ 0 ∨ ctx.padding_length i ≠ 0 then
      some { s with writer := .security }
    else some { s with writer := .test }
  | .security =>
    if secure then some { s with writer := .write } else some { s with writer := .error }
  | .write =>
    match stored with
    | .failed => some { s with writer := .error }
    | .plain => some { s with consumed := s.consumed ++ content, writer := .test }
    | .sparse left =>
      let next_flip := cache_shift i
      some { s with
        ctx := { ctx with
          padding_length := Function.update ctx.padding_length next_flip left.length
          memory := ctx.memory.write
            (padding_buf page next_flip + (CACHE_PADDING_SIZE - left.length)) left }
        consumed := s.consumed ++ content
        writer := .test }
  | .test =>
    if ctx.content_length i = 0 then some { s with writer := .endFirst }
    else some { s with writer := .release }
  | .release =>
    -- `flipIdxR` is the writer's own
    some { s with
      ctx := { ctx.signalCache i with flipIdxR := cache_shift i }
      writer := .waitContent }
  | .endFirst => some { s with ctx := ctx.signalCache 0, writer := .endSecond }
  | .endSecond => some { s with ctx := ctx.signalCache 1, writer := .endThread }
  | .endThread => some { s with ctx := { ctx with thr_end_ev := true }, writer := .returned 0 }
  | .error => some { s with ctx := abort_engine ctx, writer := .returned (-1) }
  | .returned _ => none

def Download.next (page data_length : ℕ) (input : Memory) (s : Download) : Move → Option Download
  | .reader usb => read_usb_proc page data_length input s usb
  | .writer secure stored => write_storage_proc page s secure stored

/-- The two procedures at their first statement, for an image that is not empty. -/
def Download.start (memory : Memory) (content_length : ℕ → ℕ) : Download where
  ctx := init_engine_context memory content_length
  reader := ⟨.waitCache, 0, 0, 0⟩
  writer := .waitContent
  consumed := []

/-- USB delivers at least a byte, and the security check and the storage have nothing to complain
about; what is left of a package fits in front of the next. -/
def Move.Good : Move → Prop
  | .reader (some n) => 0 < n
  | .writer true .plain => True
  | .writer true (.sparse left) => left.length ≤ CACHE_PADDING_SIZE
  | _ => False

instance : DecidablePred Move.Good
  | .reader (some n) => inferInstanceAs (Decidable (0 < n))
  | .writer true .plain => .isTrue trivial
  | .writer true (.sparse left) => inferInstanceAs (Decidable (left.length ≤ CACHE_PADDING_SIZE))
  | .reader none | .writer false _ | .writer true .failed => .isFalse (by simp [Move.Good])

end Droid.Lk
