import DroidPlatform.BufferQueue.DequeuedSlot

/-!
# A client's buffer count and the mode

`setBufferCount` checks the count against the minimum of the mode in force, and
`setSynchronousMode` leaves the count alone, with the comment that a client cannot have set less
than the asynchronous mode needs.  In synchronous mode it can: the minimum there is one less, and
after a change to asynchronous mode `mBufferCount` is below `mMinAsyncBufferSlots`
(`async_count_too_small`), so that every `dequeueBuffer` after the first frame is refused.

The comment is right in every run in which the counts set in synchronous mode would also do for the
asynchronous mode (`client_count_allows_async`).
-/

namespace Droid

/-- With a count set by the client, asynchronous mode has the buffers it needs. -/
def BufferQueue.AllowsAsync (q : BufferQueue) : Prop :=
  q.mClientBufferCount ≠ 0 → q.mSynchronousMode = false → q.mMinAsyncBufferSlots ≤ q.mBufferCount

/-- A buffer count set in synchronous mode would also do for the asynchronous mode. -/
def SetsAsyncCount (w : World) (e : Event) : Prop :=
  match e.turn with
  | .call (.setBufferCount n) =>
    w.queue.mSynchronousMode = true → n ≠ 0 → w.queue.mMinAsyncBufferSlots ≤ n
  | _ => True

instance (w : World) (e : Event) : Decidable (SetsAsyncCount w e) := by
  obtain ⟨turn, segment⟩ := e
  cases turn with
  | call c => cases c <;> (dsimp only [SetsAsyncCount]; infer_instance)
  | resume i => exact inferInstanceAs (Decidable True)

namespace BufferQueue

variable {q : BufferQueue}

/-- In whatever mode, a count set by the client is large enough for the asynchronous mode. -/
def ClientCountLarge (q : BufferQueue) : Prop :=
  q.mClientBufferCount ≠ 0 → q.mMinAsyncBufferSlots ≤ q.mBufferCount

lemma le_of_minBufferSlots_le {n : ℤ} (h : q.minBufferSlots ≤ n)
    (hsync : q.mSynchronousMode = true → q.mMinAsyncBufferSlots ≤ n) :
    q.mMinAsyncBufferSlots ≤ n := by
  cases hmode : q.mSynchronousMode with
  | true => exact hsync hmode
  | false =>
    rw [minBufferSlots, hmode] at h
    exact h

lemma CountsAfter.clientCountLarge {turn : Turn} {q' : BufferQueue} (h : CountsAfter q turn q')
    (hlarge : q.ClientCountLarge)
    (hturn : ∀ n, turn = .call (.setBufferCount n) → q.mSynchronousMode = true → n ≠ 0 →
      q.mMinAsyncBufferSlots ≤ n) : q'.ClientCountLarge := by
  have hof : ∀ {c : Counts}, q'.counts = c → (c.client ≠ 0 → c.minAsync ≤ c.count) →
      q'.ClientCountLarge := by
    rintro c rfl hc
    exact hc
  cases h with
  | keeps h =>
    obtain ⟨server, count, hc, _, hcount⟩ := h
    refine hof hc fun hclient => ?_
    rw [hcount hclient]
    exact hlarge hclient
  | setsClient n server count hset hc _ hcount =>
    refine hof hc fun hclient => ?_
    rw [(hcount hclient).2]
    exact le_of_minBufferSlots_le (hcount hclient).1 fun hsync => hturn n hset hsync hclient
  | abandons _ hc _ => exact hof hc hlarge

/-- A queue that is in use and drained goes to asynchronous mode at once. -/
lemma allowsAsync_setSynchronousMode_iff (habandoned : q.mAbandoned = false)
    (hqueue : q.mQueue = []) :
    (q.setSynchronousMode false).queue.AllowsAsync ↔ q.ClientCountLarge := by
  have hdraining : q.draining = false := by simp [draining, hqueue]
  have hswitch : q.setSynchronousMode false = q.switchMode false := by
    simp [setSynchronousMode, habandoned, hdraining]
  rw [hswitch, switchMode]
  split_ifs with hmode
  · exact ⟨fun h hclient => h hclient rfl, fun h hclient _ => h hclient⟩
  · exact ⟨fun h hclient => h hclient (not_not.mp hmode), fun h hclient _ => h hclient⟩

/-- Which `setBufferCount` does not break the asynchronous mode. -/
lemma setBufferCount_allowsAsync_iff {n : ℤ} (hst : (q.setBufferCount n).status? = some .ok) :
    ((q.setBufferCount n).queue.setSynchronousMode false).queue.AllowsAsync ↔
      (q.mSynchronousMode = true → n ≠ 0 → q.mMinAsyncBufferSlots ≤ n) := by
  rw [setBufferCount] at hst ⊢
  split_ifs at hst ⊢ with habandoned _ _ hzero hmin
  · cases hst
  · cases hst
  · cases hst
  · -- the client gives its count up
    refine iff_of_true ?_ fun _ hn => absurd hzero hn
    intro hclient
    have hmode : ∀ q' : BufferQueue,
        (q'.setSynchronousMode false).queue.mClientBufferCount = q'.mClientBufferCount := by
      intro q'
      simp only [setSynchronousMode, switchMode]
      split_ifs <;> rfl
    rw [hmode] at hclient
    rcases { q with mClientBufferCount := 0 }.setBufferCountServerLocked_cases q.defaultBufferCount
      with ⟨_, heq⟩ | ⟨_, _, _, heq⟩ | ⟨_, heq⟩ <;>
    · rw [heq] at hclient
      exact absurd rfl hclient
  · cases hst
  · have hinUse : q.mAbandoned = false := by simpa using habandoned
    refine (allowsAsync_setSynchronousMode_iff ?_ ?_).trans ⟨fun h _ hn => h hn, fun h _ => ?_⟩
    · exact hinUse
    · rfl
    · exact le_of_minBufferSlots_le (not_lt.mp hmin) fun hsync => h hsync hzero

end BufferQueue

lemma SetsAsyncCount.clientCountLarge {w w' : World} {e : Event} (h : SetsAsyncCount w e)
    (hstep : w.Step e w') (hlarge : w.queue.ClientCountLarge) : w'.queue.ClientCountLarge := by
  rcases hstep.segment_eq with ⟨⟨alloc, hseg⟩, hq⟩
  rw [hq]
  refine (BufferQueue.spec_segment hseg).counts.clientCountLarge hlarge ?_
  intro n hturn
  rwa [SetsAsyncCount, hturn] at h

/-- **A client's buffer count allows the asynchronous mode**, in every run in which no count below
`mMinAsyncBufferSlots` is set in synchronous mode.  A `setBufferCount` that is accepted breaks this
for the next change to asynchronous mode exactly if it sets such a count. -/
theorem client_count_allows_async (allowSynchronousMode : Bool) (bufferCount : ℤ)
    (events : List Event) (w : World)
    (h : Runs (fun w e w' => w.Step e w' ∧ SetsAsyncCount w e)
      (World.init allowSynchronousMode bufferCount) events w) :
    (w.queue.mClientBufferCount ≠ 0 → w.queue.mSynchronousMode = false →
      w.queue.mMinAsyncBufferSlots ≤ w.queue.mBufferCount) ∧
    ∀ n e w', w.Step e w' → e.turn = .call (.setBufferCount n) → e.Succeeds →
      ((w'.queue.setSynchronousMode false).queue.AllowsAsync ↔ SetsAsyncCount w e) := by
  have hlarge : w.queue.ClientCountLarge :=
    h.invariant (fun hclient => absurd rfl hclient) (by
      rintro w1 e w2 hlarge ⟨hstep, hset⟩
      exact hset.clientCountLarge hstep hlarge)
  refine ⟨fun hclient _ => hlarge hclient, ?_⟩
  intro n e w' hstep hturn hok
  rcases hstep.segment_eq with ⟨⟨alloc, hseg⟩, hq⟩
  rw [hturn] at hseg
  have heq : w.queue.setBufferCount n = e.segment := Option.some.inj hseg
  rw [SetsAsyncCount, hturn, hq, ← heq]
  exact BufferQueue.setBufferCount_allowsAsync_iff (heq ▸ hok)

theorem client_count_allows_async_three :
    ∃ events w, Runs World.Step (World.init true 2) events w ∧ w.queue.mClientBufferCount = 3 ∧
      w.queue.mSynchronousMode = false ∧ w.queue.mMinAsyncBufferSlots ≤ w.queue.mBufferCount := by
  obtain ⟨events, w, _, _, hruns, _, hclient, hmode⟩ := World.exists_run_of_ok SetsAsyncCount
    (P := fun w _ _ => w.queue.mClientBufferCount = 3 ∧ w.queue.mSynchronousMode = false)
    (w := World.init true 2) (.ok smallBuffer)
    [.call (.setSynchronousMode true), .call (.setBufferCount 3),
      .call (.setSynchronousMode false)] [] (by decide)
  have hcount := (client_count_allows_async true 2 events w hruns).1 (by rw [hclient]; decide) hmode
  exact ⟨events, w, hruns.mono And.left, hclient, hmode, hcount⟩

/-- **Too few buffers for the asynchronous mode.**  Two buffers are accepted in synchronous mode and
stay after the change to asynchronous mode, which needs three.  After the first frame
`dequeueBuffer` is refused with `-EBUSY`. -/
theorem async_count_too_small :
    ∃ events w, Runs World.Step (World.init true 2) events w ∧
      w.queue.mClientBufferCount ≠ 0 ∧ w.queue.mSynchronousMode = false ∧
      w.queue.mBufferCount < w.queue.mMinAsyncBufferSlots ∧
      (events.getLast?.bind fun e => e.segment.status?) = some .ebusy :=
  World.exists_run (.ok smallBuffer)
    ([.call (.setSynchronousMode true), .call (.setBufferCount 2),
      .call (.setSynchronousMode false)] ++ firstFrame ++ [.call (.dequeueBuffer 0 0 1 0)])
    (by decide)

end Droid
