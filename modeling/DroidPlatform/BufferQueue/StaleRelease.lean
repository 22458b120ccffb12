import DroidPlatform.BufferQueue.Consistency

/-!
# Releases of slots freed meanwhile

`freeBufferLocked` frees a slot even while the consumer holds it, and remembers with
`mNeedsCleanupOnRelease` that a release is still to come, which must not touch what the slot is used
for by then.

The runs here carry a record of the acquisitions that are not released yet (`Pending`): one entry an
acquisition, oldest first for each slot, marked once the slot has been freed since.  The consumer
releases each acquisition once and in order (`Releasable`).

One flag cannot tell generations apart.  When the slot is acquired again before the old release
arrives, the old release frees the new acquisition (`stale_release_frees_live`).  As long as no
acquisition takes a slot that still waits for such a release (`Fresh`), every release finds the slot
as it should (`release_matches_acquisition`).
-/

namespace Droid

open List Option Function

/-- For each slot the acquisitions not yet released, oldest first.  An entry is `true` if the slot
has been freed since. -/
abbrev Pending := Slot → List Bool

namespace Pending

def enter (p : Pending) : Action → Pending
  | .acquire i _ => Function.update p i (p i ++ [false])
  | .free kept => fun i => if kept = some i then p i else (p i).map fun _ => true
  | _ => p

/-- A release is the release of the oldest acquisition. -/
def release (p : Pending) : Turn → Pending
  | .call (.releaseBuffer buf _ _) =>
    match BufferQueue.slot? buf with
    | some i => Function.update p i (p i).tail
    | none => p
  | _ => p

/-- The record after an event. -/
def after (p : Pending) (e : Event) : Pending := (e.segment.log.foldl enter p).release e.turn

end Pending

/-- A world with the record of the pending acquisitions. -/
structure Tracked where
  world : World
  pending : Pending

/-- The consumer only releases what it has acquired and not yet released. -/
def Releasable (p : Pending) : Turn → Prop
  | .call (.releaseBuffer buf _ _) => ∃ i ∈ BufferQueue.slot? buf, p i ≠ []
  | _ => True

instance (p : Pending) (turn : Turn) : Decidable (Releasable p turn) := by
  unfold Releasable
  split <;> infer_instance

open Ledger BufferQueue

/-- A step of such a consumer, or of anyone else. -/
def Tracked.Step (t : Tracked) (e : Event) (t' : Tracked) : Prop :=
  t.world.Step e t'.world ∧ t'.pending = t.pending.after e ∧ Releasable t.pending e.turn

/-- The step does not acquire a slot for which a release is still to come. -/
def Fresh (w : World) (turn : Turn) : Prop :=
  turn = .call .acquireBuffer →
    ∀ i ∈ w.queue.mQueue.head?, (w.queue.mSlots i).mNeedsCleanupOnRelease = false

instance (w : World) (turn : Turn) : Decidable (Fresh w turn) :=
  inferInstanceAs (Decidable (_ → ∀ i ∈ w.queue.mQueue.head?, _))

def Tracked.init (allowSynchronousMode : Bool) (bufferCount : ℤ) : Tracked :=
  ⟨World.init allowSynchronousMode bufferCount, fun _ => []⟩

/-! ## What an entry does to the record -/

/-- The record of a slot says what the slot says: held by the consumer, freed under it, or neither. -/
inductive Agrees (l : Ledger) (i : Slot) : List Bool → Prop
  | held (hstate : l.state i = .acquired) (hclean : l.cleanup i = false) : Agrees l i [false]
  | stale (hstate : l.state i ≠ .acquired) (hclean : l.cleanup i = true) : Agrees l i [true]
  | idle (hstate : l.state i ≠ .acquired) (hclean : l.cleanup i = false) : Agrees l i []

namespace Agrees

variable {l l' : Ledger} {i : Slot} {p : List Bool} {a : Action}

/-- A slot that is acquired neither before nor after, or both, and keeps its flag. -/
lemma congr (h : Agrees l i p) (hstate : l'.state i = .acquired ↔ l.state i = .acquired)
    (hclean : l'.cleanup i = l.cleanup i) : Agrees l' i p := by
  cases h with
  | held hs hc => exact .held (hstate.mpr hs) (hclean.trans hc)
  | stale hs hc => exact .stale (mt hstate.mp hs) (hclean.trans hc)
  | idle hs hc => exact .idle (mt hstate.mp hs) (hclean.trans hc)

lemma freeSlots (h : Agrees l i p) (kept : Option Slot) :
    Agrees (l.freeSlots kept) i (if kept = some i then p else p.map fun _ => true) := by
  by_cases hkept : kept = some i
  · rw [if_pos hkept]
    refine h.congr ?_ ?_
    · simp [Ledger.freeSlots, hkept]
    · simp [Ledger.freeSlots, hkept]
  · rw [if_neg hkept]
    have hstate : (l.freeSlots kept).state i ≠ .acquired := by simp [Ledger.freeSlots, hkept]
    have hclean : (l.freeSlots kept).cleanup i = (l.cleanup i || l.state i == .acquired) := by
      simp [Ledger.freeSlots, hkept]
    cases h with
    | held hs hc => exact .stale hstate (by simp [hclean, hs])
    | stale hs hc => exact .stale hstate (by simp [hclean, hc])
    | idle hs hc => exact .idle hstate (by simp [hclean, hc, hs])

end Agrees

/-- The entries a release makes. -/
def Action.isRelease : Action → Bool
  | .release _ => true
  | .clean _ => true
  | _ => false

variable {l l' : Ledger} {a : Action} {p : Pending} {i : Slot} {q : BufferQueue} {log : List Action}
  {display fence : ℕ} {buf : ℤ}

/-- Freeing, acquiring and releasing apart, no entry makes a slot `ACQUIRED` or ends that. -/
lemma Ledger.Moves.acquired_iff {s s' : BufferState} (h : Moves i a s s')
    (hfree : ∀ kept, a ≠ .free kept) (hacq : ∀ frame, a ≠ .acquire i frame)
    (hrel : a ≠ .release i) : s' = .acquired ↔ s = .acquired := by
  cases h <;> simp_all

/-- **Every entry but a release's keeps record and slots in agreement**, unless it acquires a slot
whose flag is set. -/
lemma Ledger.Step.agrees (hc : l.Consistent) (h : l.Step a l') (hagrees : ∀ i, Agrees l i (p i))
    (ha : a.isRelease = false) (hfresh : ∀ i frame, a = .acquire i frame → l.cleanup i = false) :
    ∀ i, Agrees l' i (p.enter a i) := by
  intro i
  have hmoves := h.moves hc i
  cases h with
  | freeAll => exact (hagrees i).freeSlots none
  | freeExceptHead hsync => exact (hagrees i).freeSlots _
  | @acquire j rest hf =>
    by_cases hij : i = j
    · -- the flag is clear, so nothing is pending for this slot
      subst hij
      have hclean := hfresh i _ rfl
      have hstate : l.state i ≠ .acquired := by
        rw [(hc.mem_iff i).mp (by simp [hf])]
        decide
      have hnil : p i = [] := by
        generalize hp : p i = pi
        cases hp ▸ hagrees i with
        | held hs _ => exact absurd hs hstate
        | stale _ hcl => exact absurd (hclean.symm.trans hcl) (by decide)
        | idle => rfl
      rw [Pending.enter, update_self, hnil]
      exact .held (by simp [setState]) hclean
    · rw [Pending.enter, update_of_ne hij]
      exact (hagrees i).congr (by simp [setState, hij]) rfl
  | release | clean => cases ha
  | queue =>
    exact (hagrees i).congr (hmoves.acquired_iff (by simp) (by simp) (by simp))
      (congrFun (l.enqueue_frame _).2.1 i)
  | _ => exact (hagrees i).congr (hmoves.acquired_iff (by simp) (by simp) (by simp)) rfl

/-- The same for entries that acquire nothing. -/
lemma Ledger.agrees_of_runs (h : Runs Step l log l') (hc : l.Consistent)
    (hagrees : ∀ i, Agrees l i (p i))
    (hlog : ∀ a ∈ log, a.isRelease = false ∧ ∀ i frame, a ≠ .acquire i frame) :
    ∀ i, Agrees l' i (log.foldl Pending.enter p i) := by
  have hhist := h.history (P := fun log l' => l'.Consistent ∧
      ((∀ a ∈ log, a.isRelease = false ∧ ∀ i frame, a ≠ .acquire i frame) →
        ∀ i, Agrees l' i (log.foldl Pending.enter p i))) ⟨hc, fun _ => hagrees⟩ (by
    rintro log l1 a l2 ⟨hc1, ih⟩ hstep
    refine ⟨hc1.step hstep, fun hlog => ?_⟩
    obtain ⟨ha, hacquire⟩ := hlog a (by simp)
    have hagrees1 := ih fun b hb => hlog b (mem_append_left _ hb)
    rw [foldl_append]
    exact hstep.agrees hc1 hagrees1 ha fun i frame heq => absurd heq (hacquire i frame))
  exact hhist.2 hlog

/-! ## What a release does -/

/-- The call of `releaseBuffer`. -/
def Turn.isRelease : Turn → Bool
  | .call (.releaseBuffer _ _ _) => true
  | _ => false

lemma Turn.eq_of_isRelease {turn : Turn} (h : turn.isRelease = true) :
    ∃ buf display fence, turn = .call (.releaseBuffer buf display fence) := by
  cases turn with
  | call c =>
    cases c with
    | releaseBuffer buf display fence => exact ⟨buf, display, fence, rfl⟩
    | _ => cases h
  | resume thread => cases h

lemma Turn.Enters.of_release {turn : Turn} (h : turn.Enters q a) (ha : a.isRelease = true) :
    turn.isRelease = true := by
  cases a with
  | release i | clean i =>
    cases turn with
    | call c => cases c <;> first | rfl | exact absurd h id
    | resume thread => cases thread <;> exact absurd h id
  | _ => cases ha

lemma Turn.Enters.of_acquire {turn : Turn} {frame : Frame} (h : turn.Enters q (.acquire i frame)) :
    turn = .call .acquireBuffer := by
  cases turn with
  | call c => cases c <;> first | rfl | exact absurd h id
  | resume thread => cases thread <;> exact absurd h id

lemma Pending.release_of_not {turn : Turn} (h : turn.isRelease = false) : p.release turn = p := by
  cases turn with
  | call c => cases c <;> first | rfl | cases h
  | resume thread => rfl

/-- **What a release does**, if the record of its slot agrees with the slot. -/
lemma BufferQueue.releaseBuffer_spec {seg : Segment} {stale : Bool} {rest : List Bool}
    (hseg : q.releaseBuffer buf display fence = some seg) (hslot : slot? buf = some i)
    (hagrees : Agrees q.ledger i (stale :: rest)) : rest = [] ∧
      ((stale = true ∧ seg.status? = some .staleBufferSlot ∧ seg.log = [.clean i]) ∨
      (stale = false ∧ seg.status? = some .ok ∧ seg.log = [.release i])) := by
  have hne : buf ≠ -1 := by
    rintro rfl
    simp [slot?] at hslot
  rw [releaseBuffer, if_neg hne, hslot, map_some, some_inj] at hseg
  cases hagrees with
  | held hs hc =>
    have hs' : (q.mSlots i).mBufferState = .acquired := hs
    rw [if_pos hs'] at hseg
    subst hseg
    exact ⟨rfl, Or.inr ⟨rfl, rfl, rfl⟩⟩
  | stale hs hc =>
    have hs' : (q.mSlots i).mBufferState ≠ .acquired := hs
    have hc' : (q.mSlots i).mNeedsCleanupOnRelease = true := hc
    rw [if_neg hs', if_pos hc'] at hseg
    subst hseg
    exact ⟨rfl, Or.inl ⟨rfl, rfl, rfl⟩⟩

/-- The release of a stale acquisition clears the flag, and nothing else. -/
lemma Ledger.Step.of_clean (h : l.Step (.clean i) l') :
    l' = { l with cleanup := update l.cleanup i false } ∧ l.state i ≠ .acquired := by
  cases h with
  | clean hacq hclean => exact ⟨rfl, hacq⟩

/-- The release of the current acquisition frees the slot. -/
lemma Ledger.Step.of_release (h : l.Step (.release i) l') :
    l' = l.setState i .free ∧ l.state i = .acquired := by
  cases h with
  | release hacq => exact ⟨rfl, hacq⟩

/-! ## Runs -/

namespace Tracked

variable {t t' : Tracked} {e : Event}

/-- What holds in every state of a run. -/
structure Tidy (t : Tracked) : Prop where
  consistent : t.world.queue.ledger.Consistent
  bounded : t.world.queue.Bounded
  agrees : ∀ i, Agrees t.world.queue.ledger i (t.pending i)

lemma tidy_init {allowSynchronousMode : Bool} {bufferCount : ℤ}
    (hcount : bufferCount < numBufferSlots) : Tidy (init allowSynchronousMode bufferCount) where
  consistent := consistent_init hcount
  bounded := bounded_init hcount
  agrees := fun _ => .idle BufferState.noConfusion rfl

/-- A release in an orderly run, with the acquisition it belongs to. -/
lemma Tidy.release (h : t.Tidy) {w' : World} (hstep : t.world.Step e w')
    (hturn : e.turn = .call (.releaseBuffer buf display fence))
    (hslot : slot? buf = some i) {stale : Bool} {rest : List Bool}
    (hpending : t.pending i = stale :: rest) :
    rest = [] ∧
      ((stale = true ∧ e.segment.status? = some .staleBufferSlot ∧ e.segment.log = [.clean i] ∧
        t.world.queue.ledger.Step (.clean i) w'.queue.ledger) ∨
      (stale = false ∧ e.segment.status? = some .ok ∧ e.segment.log = [.release i] ∧
        t.world.queue.ledger.Step (.release i) w'.queue.ledger)) := by
  obtain ⟨⟨alloc, hseg⟩, hq⟩ := hstep.segment_eq
  have hruns := (hstep.sound h.bounded).1
  rw [hturn] at hseg
  obtain ⟨hrest, hcase⟩ := releaseBuffer_spec hseg hslot (hpending ▸ h.agrees i)
  refine ⟨hrest, ?_⟩
  rcases hcase with ⟨hstale, hstatus, hlog⟩ | ⟨hstale, hstatus, hlog⟩
  · rw [hlog, Runs.single_iff] at hruns
    exact Or.inl ⟨hstale, hstatus, hlog, hruns⟩
  · rw [hlog, Runs.single_iff] at hruns
    exact Or.inr ⟨hstale, hstatus, hlog, hruns⟩

/-- After a release the oldest acquisition of its slot is off the record. -/
lemma Tidy.agrees_of_release (h : t.Tidy) (hstep : t.Step e t')
    (hturn : e.turn = .call (.releaseBuffer buf display fence)) :
    ∀ i, Agrees t'.world.queue.ledger i (t'.pending i) := by
  obtain ⟨hworld, hpending, hrel⟩ := hstep
  rw [hturn] at hrel
  obtain ⟨i, hslot, hne⟩ := hrel
  obtain ⟨stale, rest, hp⟩ := exists_cons_of_ne_nil hne
  obtain ⟨rfl, hcase⟩ := h.release hworld hturn hslot hp
  have hagrees := h.agrees i
  rw [hp] at hagrees
  have hafter : t'.pending = update t.pending i [] := by
    have hlog : e.segment.log.foldl Pending.enter t.pending = t.pending := by
      rcases hcase with ⟨_, _, hlog, _⟩ | ⟨_, _, hlog, _⟩
      · rw [hlog]
        rfl
      · rw [hlog]
        rfl
    have hslot' : slot? buf = some i := hslot
    rw [hpending, Pending.after, hlog, hturn, Pending.release, hslot']
    simp [hp]
  intro j
  rw [hafter]
  rcases hcase with ⟨rfl, _, _, hclean⟩ | ⟨rfl, _, _, hrelease⟩
  · obtain ⟨hl, hstate⟩ := hclean.of_clean
    rw [hl]
    by_cases hji : j = i
    · subst hji
      rw [update_self]
      exact .idle hstate (by simp)
    · rw [update_of_ne hji]
      exact (h.agrees j).congr Iff.rfl (by simp [hji])
  · obtain ⟨hl, _⟩ := hrelease.of_release
    rw [hl]
    by_cases hji : j = i
    · subst hji
      rw [update_self]
      cases hagrees with
      | held _ hclean => exact .idle (by simp [setState]) hclean
    · rw [update_of_ne hji]
      exact (h.agrees j).congr (by simp [setState, hji]) rfl

lemma Tidy.step (h : t.Tidy) (hstep : t.Step e t') (hfresh : Fresh t.world e.turn) : t'.Tidy := by
  obtain ⟨hruns, hbounded⟩ := hstep.1.sound h.bounded
  obtain ⟨⟨alloc, hseg⟩, hq⟩ := hstep.1.segment_eq
  refine ⟨hruns.invariant h.consistent fun hc hs => hc.step hs, hbounded, ?_⟩
  cases hturn : e.turn.isRelease with
  | true =>
    obtain ⟨buf, display, fence, hturn⟩ := Turn.eq_of_isRelease hturn
    exact h.agrees_of_release hstep hturn
  | false =>
    have hlog : ∀ a ∈ e.segment.log, a.isRelease = false := by
      intro a ha
      have henters := segment_enters hseg a ha
      by_contra hrel
      rw [henters.of_release (by simpa using hrel)] at hturn
      cases hturn
    rw [hstep.2.1, Pending.after, Pending.release_of_not hturn]
    cases (sound_segment h.bounded hseg).shape with
    | plain hplain _ =>
      refine agrees_of_runs hruns h.consistent h.agrees fun a ha => ⟨hlog a ha, ?_⟩
      rintro i frame rfl
      exact hplain _ ha
    | mode b heq _ =>
      refine agrees_of_runs hruns h.consistent h.agrees fun a ha => ⟨hlog a ha, ?_⟩
      rintro i frame rfl
      simp [heq] at ha
    | acquire i frame heq _ =>
      rw [heq, Runs.single_iff] at hruns
      rw [heq]
      refine hruns.agrees h.consistent h.agrees rfl ?_
      intro j frame' hj
      cases hj
      have hmem : .acquire i frame ∈ e.segment.log := by simp [heq]
      have hacquire := (segment_enters hseg _ hmem).of_acquire
      refine hfresh hacquire i ?_
      have hhead : t.world.queue.ledger.fifo.head? = some i := by
        generalize t'.world.queue.ledger = l' at hruns
        cases hruns with
        | acquire hf => rw [hf, head?_cons]
      exact hhead

end Tracked

/-- Only a release and `freeBufferLocked` end an acquisition. -/
lemma Ledger.Step.of_acquired (hc : l.Consistent) (h : l.Step a l') (hacq : l.state i = .acquired)
    (hfree : l'.state i ≠ .acquired) : (∃ kept, a = .free kept) ∨ a = .release i := by
  have hmoves := h.moves hc i
  rw [hacq] at hmoves
  generalize l'.state i = s at hmoves hfree
  cases hmoves with
  | stays => exact absurd rfl hfree
  | freed => exact Or.inl ⟨_, rfl⟩
  | released => exact Or.inr rfl

lemma Ledger.of_acquired_of_runs (h : Runs Step l log l') (hc : l.Consistent)
    (hacq : l.state i = .acquired) (hfree : l'.state i ≠ .acquired) :
    (∃ kept, .free kept ∈ log) ∨ .release i ∈ log := by
  have hhist := h.history (P := fun log l' => l'.Consistent ∧ (l'.state i ≠ .acquired →
      (∃ kept, .free kept ∈ log) ∨ .release i ∈ log)) ⟨hc, fun hne => absurd hacq hne⟩ (by
    rintro log l1 a l2 ⟨hc1, ih⟩ hstep
    refine ⟨hc1.step hstep, fun hne => ?_⟩
    by_cases hacq1 : l1.state i = .acquired
    · rcases hstep.of_acquired hc1 hacq1 hne with ⟨kept, rfl⟩ | rfl
      · exact Or.inl ⟨kept, by simp⟩
      · exact Or.inr (by simp)
    · exact (ih hacq1).imp (fun ⟨kept, hk⟩ => ⟨kept, mem_append_left _ hk⟩)
        (mem_append_left _))
  exact hhist.2 hfree

/-- **Releases match acquisitions**, in every run in which no slot is acquired again while a release
of it is still to come.  A release that belongs to an acquisition made before the slot was freed
returns `STALE_BUFFER_SLOT` and leaves all slot states as they are; a release that belongs to the
current acquisition frees the slot; and short of `freeBufferLocked`, nothing else ends an
acquisition. -/
theorem release_matches_acquisition (allowSynchronousMode : Bool) (bufferCount : ℤ)
    (hcount : bufferCount < numBufferSlots) (events : List Event) (t : Tracked)
    (h : Runs (fun t e t' => Tracked.Step t e t' ∧ Fresh t.world e.turn)
      (Tracked.init allowSynchronousMode bufferCount) events t)
    (e : Event) (t' : Tracked) (hstep : t.Step e t') (i : Slot) :
    (∀ display fence stale rest, e.turn = .call (.releaseBuffer i display fence) →
      t.pending i = stale :: rest →
      (stale = true → e.segment.status? = some .staleBufferSlot ∧
        ∀ j, (t'.world.queue.mSlots j).mBufferState = (t.world.queue.mSlots j).mBufferState) ∧
      (stale = false → e.segment.status? = some .ok ∧
        (t.world.queue.mSlots i).mBufferState = .acquired ∧
        (t'.world.queue.mSlots i).mBufferState = .free)) ∧
    ((t.world.queue.mSlots i).mBufferState = .acquired →
      (t'.world.queue.mSlots i).mBufferState = .free →
      (∃ kept, .free kept ∈ e.segment.log) ∨
        ((∃ display fence, e.turn = .call (.releaseBuffer i display fence)) ∧
          t.pending i = [false])) := by
  have htidy : t.Tidy := h.invariant (Tracked.tidy_init hcount) fun ht hs => ht.step hs.1 hs.2
  refine ⟨?_, ?_⟩
  · intro display fence stale rest hturn hpending
    obtain ⟨_, hcase⟩ := htidy.release hstep.1 hturn (slot?_coe i) hpending
    rcases hcase with ⟨rfl, hstatus, _, hclean⟩ | ⟨rfl, hstatus, _, hrelease⟩
    · refine ⟨fun _ => ⟨hstatus, fun j => ?_⟩, fun hf => absurd hf (by decide)⟩
      exact congrArg (state · j) hclean.of_clean.1
    · refine ⟨fun ht => absurd ht (by decide), fun _ => ⟨hstatus, hrelease.of_release.2, ?_⟩⟩
      have hfree : t'.world.queue.ledger.state i = .free := by
        rw [hrelease.of_release.1]
        simp [setState]
      exact hfree
  · intro hacq hfree
    have hruns := (hstep.1.sound htidy.bounded).1
    obtain ⟨⟨alloc, hseg⟩, _⟩ := hstep.1.segment_eq
    rcases of_acquired_of_runs hruns htidy.consistent hacq
      (fun hne => by simp [ledger, hfree] at hne) with hkept | hrel
    · exact Or.inl hkept
    · have henters := segment_enters hseg _ hrel
      obtain ⟨buf, display, fence, hturn⟩ := Turn.eq_of_isRelease (henters.of_release rfl)
      rw [hturn] at henters
      obtain rfl : buf = i := henters
      refine Or.inr ⟨⟨display, fence, hturn⟩, ?_⟩
      generalize hp : t.pending i = p
      cases hp ▸ htidy.agrees i with
      | held => rfl
      | stale hs _ | idle hs _ => exact absurd hacq hs

/-! ## Two generations -/

/-- Run one turn of a consumer that releases in order, if the condition `ok` holds. -/
def Tracked.turn (ok : World → Turn → Prop) [∀ w turn, Decidable (ok w turn)]
    (alloc : Except Status GraphicBuffer) (t : Tracked) (turn : Turn) : Option (Event × Tracked) :=
  ((t.world.turn alloc turn).filter fun r =>
    Releasable t.pending r.1.turn ∧ ok t.world r.1.turn).map fun r => (r.1, ⟨r.2, t.pending.after r.1⟩)

lemma Tracked.step_of_turn (ok : World → Turn → Prop) [∀ w turn, Decidable (ok w turn)]
    (alloc : Except Status GraphicBuffer) (t : Tracked) (turn : Turn) (e : Event) (t' : Tracked)
    (h : t.turn ok alloc turn = some (e, t')) : t.Step e t' ∧ ok t.world e.turn := by
  obtain ⟨⟨e', w'⟩, hturn, heq⟩ := map_eq_some_iff.mp h
  cases heq
  obtain ⟨hturn, hok⟩ := filter_eq_some_iff.mp hturn
  obtain ⟨hrel, hok⟩ := of_decide_eq_true hok
  exact ⟨⟨World.step_of_turn hturn, rfl, hrel⟩, hok⟩

/-- The consumer holds slot 0 while the producer disconnects. -/
def freedWhileHeld : List Turn :=
  firstFrame ++ [.call .acquireBuffer, .call (.disconnect 1)]

/-- A new producer connects and its first frame comes in slot 0 again. -/
def secondFrame : List Turn :=
  [.call (.connect 1), .call (.dequeueBuffer 0 0 1 0), .call (.requestBuffer 0),
    .call (.queueBuffer 0 ⟨8, ⟨0, 0, 1, 1⟩, 0, 0⟩)]

theorem release_matches_acquisition_secondFrame :
    ∃ events t e t', Runs Tracked.Step (Tracked.init true 2) events t ∧ t.Step e t' ∧
      t.pending 0 = [true] ∧ (t'.world.queue.mSlots 0).mBufferState = .queued ∧
      e.segment.status? = some .staleBufferSlot := by
  obtain ⟨events, t, es, t', hruns, hruns', hpending, hturns, hqueued⟩ :=
    Runs.exists_append_of_execute (P := fun t es t' => t.pending 0 = [true] ∧
      es.map Event.turn = [.call (.releaseBuffer 0 0 0)] ∧
      (t'.world.queue.mSlots 0).mBufferState = .queued)
    (Tracked.step_of_turn Fresh (.ok smallBuffer)) (s := Tracked.init true 2)
    (freedWhileHeld ++ secondFrame) [.call (.releaseBuffer 0 0 0)] (by decide)
  obtain ⟨e, rfl⟩ : ∃ e, es = [e] := length_eq_one_iff.mp (by
    rw [← length_map, hturns, length_singleton])
  rw [Runs.single_iff] at hruns'
  have hstale := (release_matches_acquisition true 2 (by decide) events t hruns e t' hruns'.1 0).1
    0 0 true [] (by simpa using hturns) hpending
  exact ⟨events, t, e, t', hruns.mono And.left, hruns'.1, hpending, hqueued, (hstale.1 rfl).1⟩

/-- **A stale release frees a live buffer.**  The second frame is acquired before the release of the
first one arrives; that release succeeds, and frees the slot under the consumer. -/
theorem stale_release_frees_live :
    ∃ events t e t', Runs Tracked.Step (Tracked.init true 2) events t ∧ t.Step e t' ∧
      e.turn = .call (.releaseBuffer 0 0 0) ∧ t.pending 0 = [true, false] ∧
      (t.world.queue.mSlots 0).mBufferState = .acquired ∧
      e.segment.status? = some .ok ∧ (t'.world.queue.mSlots 0).mBufferState = .free := by
  obtain ⟨events, t, es, t', hruns, hruns', hturns, hpending, hacq, hstatus, hfree⟩ :=
    Runs.exists_append_of_execute (P := fun t es t' =>
      es.map Event.turn = [.call (.releaseBuffer 0 0 0)] ∧ t.pending 0 = [true, false] ∧
      (t.world.queue.mSlots 0).mBufferState = .acquired ∧
      es.map (·.segment.status?) = [some .ok] ∧ (t'.world.queue.mSlots 0).mBufferState = .free)
    (Tracked.step_of_turn (fun _ _ => True) (.ok smallBuffer))
    (s := Tracked.init true 2) (freedWhileHeld ++ secondFrame ++ [.call .acquireBuffer])
    [.call (.releaseBuffer 0 0 0)] (by decide)
  obtain ⟨e, rfl⟩ : ∃ e, es = [e] := length_eq_one_iff.mp (by
    rw [← length_map, hturns, length_singleton])
  rw [Runs.single_iff] at hruns'
  exact ⟨events, t, e, t', hruns.mono And.left, hruns'.1, by simpa using hturns, hpending, hacq,
    by simpa using hstatus, hfree⟩

end Droid
