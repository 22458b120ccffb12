import DroidPlatform.BufferQueue.Ledger

/-!
# Who may do what

Which actions a turn can log at all (`Turn.Enters`), and which turns touch the counts and the
abandoned flag (`CountsAfter`).  `Spec` is all that the proofs use of a segment: it keeps the ledger,
makes the entries its turn may make, and leaves the counts as its turn leaves them.
-/

namespace Droid

/-- The entries a turn may make: who may do what. -/
def Turn.Enters (q : BufferQueue) : Turn → Action → Prop
  | .call (.setBufferCount n), .free _ => n ≠ 0
  | .call (.setBufferCount _), .resize _ => True
  | .call (.setBufferCountServer _), .resize _ => True
  | .call (.dequeueBuffer _ _ _ _), .free _ => q.numberOfBuffersNeedsToChange = true
  | .call (.dequeueBuffer _ _ _ _), .resize _ => q.numberOfBuffersNeedsToChange = true
  | .call (.dequeueBuffer _ _ _ _), .dequeue _ _ => q.mAbandoned = false
  | .resume (.dequeue _), .free _ => q.numberOfBuffersNeedsToChange = true
  | .resume (.dequeue _), .resize _ => q.numberOfBuffersNeedsToChange = true
  | .resume (.dequeue _), .dequeue _ _ => q.mAbandoned = false
  | .call (.queueBuffer buf _), .queue i _ => buf = i
  | .call (.cancelBuffer buf), .cancel i => buf = i
  | .call (.setSynchronousMode enabled), .setSync b => b = enabled
  | .resume .setAsynchronous, .setSync b => b = false
  | .call (.disconnect _), .free _ => True
  | .resume .disconnect, .free _ => True
  | .call .consumerDisconnect, .free _ => True
  | .call .acquireBuffer, .acquire _ _ => True
  | .call (.releaseBuffer buf _ _), .release i => buf = i
  | .call (.releaseBuffer buf _ _), .clean i => buf = i
  | _, _ => False

/-- Neither a change of the mode nor an acquisition. -/
def Action.Plain : Action → Prop
  | .setSync _ => False
  | .acquire _ _ => False
  | _ => True

namespace BufferQueue

lemma slot?_eq {buf : ℤ} {i : Slot} (h : slot? buf = some i) : buf = i := by
  rw [slot?] at h
  split_ifs at h with hr
  cases h
  simp only
  omega

lemma slot?_coe (i : Slot) : slot? i = some i := by
  have hlt : (i : ℤ) < numBufferSlots := by exact_mod_cast i.isLt
  rw [slot?]
  simp

/-! ## Counts and the abandoned flag -/

/-- The counts a resize can be asked for fit the array of slots. -/
structure Bounded (q : BufferQueue) : Prop where
  server : q.mServerBufferCount ≤ numBufferSlots
  minSync : q.mMinSyncBufferSlots ≤ numBufferSlots
  minAsync : q.mMinAsyncBufferSlots ≤ numBufferSlots

/-- The fields that decide about `dequeueBuffer` and are hardly ever written. -/
structure Counts where
  client : ℤ
  abandoned : Bool
  minSync : ℤ
  minAsync : ℤ
  server : ℤ
  count : ℤ

def counts (q : BufferQueue) : Counts :=
  ⟨q.mClientBufferCount, q.mAbandoned, q.mMinSyncBufferSlots, q.mMinAsyncBufferSlots,
    q.mServerBufferCount, q.mBufferCount⟩

/-- A client's buffer count and the abandoned flag stay. -/
def Keeps (q q' : BufferQueue) : Prop :=
  q'.mClientBufferCount = q.mClientBufferCount ∧ q'.mAbandoned = q.mAbandoned

/-- The counts stay, up to what the server may ask for.  The number of buffers stays if it is the
client's. -/
def KeepsCounts (q q' : BufferQueue) : Prop :=
  ∃ server count, q'.counts = { q.counts with server, count } ∧
    (server = q.mServerBufferCount ∨ server ≤ numBufferSlots) ∧
    (q.mClientBufferCount ≠ 0 → count = q.mBufferCount)

/-- What a turn does to the counts and to the abandoned flag. -/
inductive CountsAfter (q : BufferQueue) (turn : Turn) (q' : BufferQueue) : Prop
  | keeps (h : q.KeepsCounts q')
  /-- The client sets a buffer count, which the current mode allows, or gives its count up. -/
  | setsClient (n server count : ℤ) (hturn : turn = .call (.setBufferCount n))
      (h : q'.counts = { q.counts with client := n, server, count })
      (hserver : server = q.mServerBufferCount ∨ server ≤ numBufferSlots)
      (hcount : n ≠ 0 → q.minBufferSlots ≤ n ∧ count = n)
  /-- The consumer leaves, and every slot is freed. -/
  | abandons (hturn : turn = .call .consumerDisconnect)
      (h : q'.counts = { q.counts with abandoned := true })
      (hfree : ∀ i, (q'.mSlots i).mBufferState = .free)

variable {q q' q₀ : BufferQueue} {turn : Turn}

lemma keepsCounts_of_eq (h : q'.counts = q.counts) : q.KeepsCounts q' :=
  ⟨_, _, h, Or.inl rfl, fun _ => rfl⟩

lemma KeepsCounts.keeps (h : q.KeepsCounts q') : q.Keeps q' := by
  obtain ⟨server, count, hc, _⟩ := h
  exact ⟨congrArg Counts.client hc, congrArg Counts.abandoned hc⟩

lemma KeepsCounts.trans_eq (h : q₀.KeepsCounts q) (heq : q'.counts = q.counts) :
    q₀.KeepsCounts q' := by
  obtain ⟨server, count, hc, hrest⟩ := h
  exact ⟨server, count, heq.trans hc, hrest⟩

lemma CountsAfter.bounded (h : CountsAfter q turn q') (hb : q.Bounded) : q'.Bounded := by
  have hof : ∀ {c : Counts}, q'.counts = c → c.server ≤ numBufferSlots → c.minSync ≤ numBufferSlots →
      c.minAsync ≤ numBufferSlots → q'.Bounded := by
    rintro c rfl hserver hminSync hminAsync
    exact ⟨hserver, hminSync, hminAsync⟩
  have hle : ∀ {server : ℤ}, server = q.mServerBufferCount ∨ server ≤ numBufferSlots →
      server ≤ numBufferSlots := by
    rintro server (rfl | hle)
    · exact hb.server
    · exact hle
  cases h with
  | keeps h =>
    obtain ⟨server, count, hc, hserver, _⟩ := h
    exact hof hc (hle hserver) hb.minSync hb.minAsync
  | setsClient n server count _ hc hserver _ => exact hof hc (hle hserver) hb.minSync hb.minAsync
  | abandons _ hc _ => exact hof hc hb.server hb.minSync hb.minAsync

/-! ## What is known of a segment -/

/-- What logs look like: a change of the mode and an acquisition are the only action of their
segment, and the acquired frame is the one in the reply. -/
inductive Shape (seg : Segment) : Prop
  | plain (hlog : ∀ a ∈ seg.log, a.Plain) (hitem : seg.acquired? = none)
  | mode (b : Bool) (hlog : seg.log = [.setSync b]) (hitem : seg.acquired? = none)
  | acquire (i : Slot) (frame : Frame) (hlog : seg.log = [.acquire i frame])
      (hitem : seg.acquired? = some (i, frame))

/-- The log of the segment leads from the ledger before to the ledger after, and the counts stay in
bounds. -/
structure Sound (q : BufferQueue) (seg : Segment) : Prop where
  refines : Runs Ledger.Step q.ledger seg.log seg.queue.ledger
  bounded : seg.queue.Bounded
  shape : Shape seg

/-- **The specification of a segment.** -/
structure Spec (q : BufferQueue) (turn : Turn) (seg : Segment) : Prop where
  sound : q.Bounded → Sound q seg
  enters : ∀ a ∈ seg.log, turn.Enters q a
  counts : CountsAfter q turn seg.queue

lemma Spec.mk_of {seg : Segment} (hruns : q.Bounded →
  Runs Ledger.Step q.ledger seg.log seg.queue.ledger)
    (hshape : Shape seg) (henters : ∀ a ∈ seg.log, turn.Enters q a)
    (hcounts : CountsAfter q turn seg.queue) : Spec q turn seg :=
  ⟨fun hb => ⟨hruns hb, hcounts.bounded hb, hshape⟩, henters, hcounts⟩

/-- A segment without entries leaves the ledger alone. -/
lemma spec_quiet {outcome : Outcome} (hl : q'.ledger = q.ledger) (hc : q'.counts = q.counts)
    (hitem : (Segment.mk q' outcome []).acquired? = none) : Spec q turn ⟨q', outcome, []⟩ := by
  refine .mk_of (fun _ => ?_) (.plain (by simp) hitem) (by simp) (.keeps (keepsCounts_of_eq hc))
  rw [hl]
  exact .nil

lemma spec_done {status : Status} : Spec q turn (.done q status) := spec_quiet rfl rfl rfl

/-- A segment with a single entry. -/
lemma spec_single {outcome : Outcome} {a : Action} (h : q.ledger.Step a q'.ledger) (ha : a.Plain)
    (henters : turn.Enters q a) (hc : CountsAfter q turn q')
    (hitem : (Segment.mk q' outcome [a]).acquired? = none) : Spec q turn ⟨q', outcome, [a]⟩ :=
  .mk_of (fun _ => .single h) (.plain (by simpa using ha) hitem) (by simpa using henters) hc

end BufferQueue

end Droid
