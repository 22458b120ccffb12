import DroidPlatform.Looper.System

/-!
# No wake-up is lost

A sender only writes a byte when its message goes to the head of the queue, and not at all while a
message is being handled; the polling thread computes its timeout before it takes the lock.  Still it
never sleeps past the head of the queue: whenever it is in `epoll_wait` and a message is queued, the
message is not due before the time the timeout was computed from, or a byte is in the pipe, or some
thread is about to write one (`no_lost_wake`).

The argument is that of a doorbell.  The attendant is the polling thread, there from the moment it
takes the lock until it has decided on `mNextMessageUptime` and released the lock for good; while a
handler runs the lock is free but the attendant is there, since the queue is looked at again.  Every
step of the system is a move of the doorbell (`Step.doorbell`), given three facts about the state
(`Orderly`): the queue is sorted, `mSendingMessage` is only set while the attendant is there, and the
time a timeout was computed from is still that of the looper.
-/

namespace Droid.Looper

open MessageEnvelope

variable {τ H C D : Type*} (l : Looper H C D)

/-! ## What a call does -/

lemma sendMessageAtTime_fst (uptime : ℤ) (handler : H) (message : Message) :
    (l.sendMessageAtTime uptime handler message).1 = { l with
      mMessageEnvelopes := l.mMessageEnvelopes.insertIdx
        (slot MessageEnvelope.uptime uptime l.mMessageEnvelopes) ⟨uptime, handler, message⟩ } := by
  unfold sendMessageAtTime
  split_ifs <;> rfl

/-- The messages and what the polling thread knows of them are left alone. -/
structure SameMessages (l l' : Looper H C D) : Prop where
  queue : l'.mMessageEnvelopes = l.mMessageEnvelopes
  next : l'.mNextMessageUptime = l.mNextMessageUptime
  sending : l'.mSendingMessage = l.mSendingMessage

namespace SameMessages

lemma refl : SameMessages l l := ⟨rfl, rfl, rfl⟩

lemma addFd (l : Looper H C D) (fd ident : ℤ) (callback : Option C) (data : D) (epollResult : ℤ) :
    SameMessages l (l.addFd fd ident callback data epollResult).1 := by
  unfold Looper.addFd
  split_ifs <;> exact ⟨rfl, rfl, rfl⟩

lemma removeFd (l : Looper H C D) (fd epollResult : ℤ) :
    SameMessages l (l.removeFd fd epollResult).1 := by
  unfold Looper.removeFd
  cases l.mRequests fd with
  | none => exact .refl l
  | some request =>
    split_ifs <;> exact ⟨rfl, rfl, rfl⟩

lemma pushResponse (l : Looper H C D) (item : EventItem) :
    SameMessages l (l.pushResponse item) := by
  unfold Looper.pushResponse
  cases l.mRequests item.fd <;> exact ⟨rfl, rfl, rfl⟩

end SameMessages

/-- What a call does to the messages: the queue stays sorted, and a call that brings the earliest
uptime forward goes on to write a byte, unless a message is being sent. -/
structure CallEffect (l : Looper H C D) (r : Looper H C D × Bool) : Prop where
  next : r.1.mNextMessageUptime = l.mNextMessageUptime
  sending : r.1.mSendingMessage = l.mSendingMessage
  sorted : Timeline MessageEnvelope.uptime l.mMessageEnvelopes →
    Timeline MessageEnvelope.uptime r.1.mMessageEnvelopes
  lower : Timeline MessageEnvelope.uptime l.mMessageEnvelopes →
    earliest MessageEnvelope.uptime r.1.mMessageEnvelopes <
      earliest MessageEnvelope.uptime l.mMessageEnvelopes →
    l.mSendingMessage = true ∨ r.2 = true

namespace CallEffect

lemma of_same {l l' : Looper H C D} (h : SameMessages l l') (wakes : Bool) :
    CallEffect l (l', wakes) where
  next := h.next
  sending := h.sending
  sorted hs := h.queue ▸ hs
  lower _ hlt := absurd (h.queue ▸ hlt) (lt_irrefl _)

lemma sendMessageAtTime (l : Looper H C D) (uptime : ℤ) (handler : H) (message : Message) :
    CallEffect l (l.sendMessageAtTime uptime handler message) := by
  let envelope : MessageEnvelope H := ⟨uptime, handler, message⟩
  have hqueue := sendMessageAtTime_fst l uptime handler message
  refine ⟨by rw [hqueue], by rw [hqueue], fun h => ?_, fun _ hlt => ?_⟩
  · rw [hqueue]
    exact h.insertIdx_slot envelope
  · rw [hqueue, earliest_insertIdx_slot envelope, min_lt_iff] at hlt
    rcases hlt with hlt | hlt
    · -- only a message that goes to the head brings the earliest uptime forward
      have hzero := (slot_eq_zero_iff _ _).mpr hlt
      cases hsending : l.mSendingMessage with
      | true => exact .inl rfl
      | false =>
        refine .inr ?_
        simp only [Looper.sendMessageAtTime, hsending]
        exact beq_iff_eq.mpr hzero
    · exact absurd hlt (lt_irrefl _)

lemma removeEnvelopes (isMatch : MessageEnvelope H → Bool) :
    CallEffect l (l.removeEnvelopes isMatch, false) where
  next := rfl
  sending := rfl
  sorted h := by
    show Timeline _ (removeBelow _ _ _)
    rw [removeBelow_length]
    exact h.sublist List.filter_sublist
  lower h hlt := by
    have hle := h.earliest_le (List.filter_sublist (p := fun e => !isMatch e))
    rw [← removeBelow_length] at hle
    exact absurd hlt (not_lt.mpr hle)

lemma run [DecidableEq H] : ∀ c : Call H C D, CallEffect l (l.run c)
  | .sendMessageAtTime uptime handler message => sendMessageAtTime l uptime handler message
  | .removeMessages _ => removeEnvelopes l _
  | .removeMessagesOf _ _ => removeEnvelopes l _
  | .addFd fd ident callback data epollResult =>
    of_same (.addFd l fd ident callback data epollResult) false
  | .removeFd fd epollResult => of_same (.removeFd l fd epollResult) false
  | .wake => of_same (.refl l) true

end CallEffect

/-! ## The polling thread as an attendant -/

namespace Phase

/-- From taking the lock until `mNextMessageUptime` is decided and the lock released. -/
def attends : Phase H → Bool
  | handling _ | reading _ | done _ | dispatching _ | sending _ _ => true
  | _ => false

/-- The `mNextMessageUptime` the timeout was computed from. -/
def next? : Phase H → Option ℤ
  | entered next _ | waiting next _ => some next
  | _ => none

/-- Whether a message is being sent. -/
def sends : Phase H → Bool
  | sending _ _ => true
  | _ => false

lemma attends_of_sends {p : Phase H} (h : p.sends = true) : p.attends = true := by
  cases p <;> first | rfl | exact absurd h Bool.false_ne_true

lemma attends_afterWait (wakeup : Wakeup) : (afterWait wakeup : Phase H).attends = true := by
  rcases wakeup with _ | _ | _ <;> rfl

lemma next?_of_attends {p : Phase H} (h : p.attends = true) : p.next? = none := by
  cases p <;> first | rfl | exact absurd h Bool.false_ne_true

end Phase

namespace System

/-- The doorbell of a system. -/
def doorbell (s : System τ H C D) : Doorbell ℤ where
  earliest := earliest MessageEnvelope.uptime s.looper.mMessageEnvelopes
  armed := (s.looper.mNextMessageUptime : WithTop ℤ)
  attending := s.phase.attends
  ringing := 0 < s.pipe ∨ ∃ t, s.waking t = true

/-- What else holds of the states of a system. -/
structure Orderly (s : System τ H C D) : Prop where
  sorted : Timeline MessageEnvelope.uptime s.looper.mMessageEnvelopes
  sending : s.looper.mSendingMessage = true → s.phase.sends = true
  next : ∀ n ∈ s.phase.next?, n = s.looper.mNextMessageUptime

lemma orderly_init (allowNonCallbacks : Bool) (wakeReadPipeFd : ℤ) :
    (init allowNonCallbacks wakeReadPipeFd : System τ H C D).Orderly where
  sorted := List.Pairwise.nil
  sending h := absurd h Bool.false_ne_true
  next n hn := absurd hn (Option.not_mem_none n)

/-! ## Calls -/

section Calls

variable [DecidableEq τ] [DecidableEq H] {s : System τ H C D}

lemma Orderly.call (h : s.Orderly) (t : Thread τ) (c : Call H C D) : (s.call t c).Orderly where
  sorted := (CallEffect.run s.looper c).sorted h.sorted
  sending hs := h.sending ((CallEffect.run s.looper c).sending ▸ hs)
  next n hn := (h.next n hn).trans (CallEffect.run s.looper c).next.symm

lemma Orderly.doorbell_call (h : s.Orderly) {t : Thread τ} (ht : s.waking t = false)
    (c : Call H C D) : s.doorbell.Step .visit (s.call t c).doorbell := by
  have heff := CallEffect.run s.looper c
  refine ⟨congrArg some heff.next, rfl, fun hring => ?_, fun hlt => ?_⟩
  · rcases hring with hpipe | ⟨u, hu⟩
    · exact .inl hpipe
    · -- the caller was not about to write, so that whoever was still is
      have hne : u ≠ t := fun heq => by simp [heq, ht] at hu
      exact .inr ⟨u, (Function.update_of_ne hne _ _).trans hu⟩
  · rcases heff.lower h.sorted hlt with hsending | hwakes
    · exact .inl (Phase.attends_of_sends (h.sending hsending))
    · exact .inr (.inr ⟨t, (Function.update_self _ _ _).trans hwakes⟩)

end Calls

/-! ## The steps of `pollInner` -/

section Polls

variable {s s' : System τ H C D} {e : Event τ H C D}

/-- A step that leaves the messages alone and does not begin or end the sending of one. -/
lemma Orderly.of_same (h : s.Orderly) (hsame : SameMessages s.looper s'.looper)
    (hsends : s.phase.sends = false)
    (hnext : ∀ n ∈ s'.phase.next?, n = s.looper.mNextMessageUptime) : s'.Orderly where
  sorted := hsame.queue ▸ h.sorted
  sending hs := by
    rw [hsame.sending] at hs
    exact absurd (hsends ▸ h.sending hs) Bool.false_ne_true
  next n hn := (hnext n hn).trans hsame.next.symm

/-- A step outside of the attended part. -/
lemma doorbell_of_same (hsame : SameMessages s.looper s'.looper) (hpipe : s'.pipe = s.pipe)
    (hwaking : s'.waking = s.waking) (hs : s.phase.attends = false)
    (hs' : s'.phase.attends = false) : s.doorbell.Step .visit s'.doorbell := by
  refine .of_eq ?_
  rw [doorbell, doorbell, hsame.queue, hsame.next, hpipe, hwaking, hs, hs']

attribute [local simp] Phase.next?

/-- The message loop: a message is taken out and sent, or the time of the next one is decided. -/
lemma Orderly.dispatch {result : ℤ} (h : s.Orderly) (hphase : s.phase = .dispatching result)
    (now : ℤ) : (s.dispatch result now).Orderly := by
  have hsends : s.phase.sends = false := by rw [hphase]; rfl
  unfold System.dispatch
  cases hqueue : s.looper.mMessageEnvelopes with
  | nil => exact h.of_same (.refl _) hsends (by simp)
  | cons messageEnvelope rest =>
    have hsorted := hqueue ▸ h.sorted
    dsimp only
    split_ifs
    · exact ⟨hsorted.sublist (List.sublist_cons_self _ _), fun _ => rfl, by simp⟩
    · refine ⟨h.sorted, fun hs => ?_, by simp⟩
      exact absurd (hsends ▸ h.sending hs) Bool.false_ne_true

lemma Orderly.polls (h : s.Orderly) (hstep : s.Polls e s') : s'.Orderly := by
  cases hstep with
  | poll hphase
  | wakeUp hphase
  | handledAll hphase
  | leave hphase _ => exact h.of_same (.refl _) (by rw [hphase]; rfl) (by simp)
  | wait hphase =>
    refine h.of_same ⟨rfl, rfl, rfl⟩ (by rw [hphase]; rfl) fun n hn => h.next n ?_
    rw [hphase]
    exact hn
  | lock hphase =>
    refine h.of_same (.refl _) (by rw [hphase]; rfl) fun n hn => ?_
    rw [Phase.next?_of_attends (Phase.attends_afterWait _)] at hn
    exact absurd hn (Option.not_mem_none n)
  | handle hphase =>
    unfold handle
    split_ifs
    · exact h.of_same (.refl _) (by rw [hphase]; rfl) (by simp)
    · exact h.of_same (.refl _) (by rw [hphase]; rfl) (by simp)
    · exact h.of_same (.pushResponse _ _) (by rw [hphase]; rfl) (by simp)
  | read hphase | respond hphase _ =>
    refine h.of_same (.refl _) (by rw [hphase]; rfl) ?_
    split_ifs <;> simp
  | readInterrupted _ => exact h
  | reset hphase =>
    refine ⟨h.sorted, fun hs => ?_, by simp⟩
    have := h.sending hs
    rw [hphase] at this
    exact this
  | dispatch hphase => exact h.dispatch hphase _
  | handled _ => exact ⟨h.sorted, fun hs => absurd hs Bool.false_ne_true, by simp⟩
  | called hphase _ =>
    split_ifs
    · exact h.of_same (.refl _) (by rw [hphase]; rfl) (by simp)
    · exact h.of_same ⟨rfl, rfl, rfl⟩ (by rw [hphase]; rfl) (by simp)
  | @unregister _ fd epollResult hphase =>
    have hsame := SameMessages.removeFd s.looper fd epollResult
    exact h.of_same ⟨hsame.queue, hsame.next, hsame.sending⟩ (by rw [hphase]; rfl)
      (by simp)

/-- The alarm is set when the message loop ends. -/
lemma doorbell_dispatch (result now : ℤ) :
    ∃ m, s.doorbell.Step m (s.dispatch result now).doorbell := by
  unfold dispatch
  cases hqueue : s.looper.mMessageEnvelopes with
  | nil =>
    refine ⟨.leave, ?_⟩
    show _ ≤ earliest uptime s.looper.mMessageEnvelopes
    rw [hqueue]
    exact le_top
  | cons messageEnvelope rest =>
    dsimp only
    split_ifs
    · exact ⟨.attend, rfl⟩
    · refine ⟨.leave, ?_⟩
      rw [hqueue]
      exact le_rfl

lemma doorbell_polls (hstep : s.Polls e s') : ∃ m, s.doorbell.Step m s'.doorbell := by
  cases hstep with
  | poll hphase
  | wakeUp hphase
  | leave hphase _ => exact ⟨_, doorbell_of_same (.refl _) rfl rfl (by rw [hphase]; rfl) rfl⟩
  | wait hphase => exact ⟨_, doorbell_of_same ⟨rfl, rfl, rfl⟩ rfl rfl (by rw [hphase]; rfl) rfl⟩
  | lock _ => exact ⟨.attend, Phase.attends_afterWait _⟩
  | handle _ =>
    refine ⟨.attend, ?_⟩
    unfold handle
    split_ifs <;> rfl
  | handledAll _ | reset _ | handled _ => exact ⟨.attend, rfl⟩
  | read _ =>
    -- bytes are only taken out of the pipe under the lock
    refine ⟨.attend, ?_⟩
    split_ifs <;> rfl
  | readInterrupted _ => exact ⟨_, .of_eq rfl⟩
  | dispatch _ => exact doorbell_dispatch _ _
  | respond hphase _ =>
    refine ⟨_, doorbell_of_same (.refl _) rfl rfl (by rw [hphase]; rfl) ?_⟩
    split_ifs <;> rfl
  | called hphase _ =>
    split_ifs
    · exact ⟨_, doorbell_of_same (.refl _) rfl rfl (by rw [hphase]; rfl) rfl⟩
    · exact ⟨_, doorbell_of_same ⟨rfl, rfl, rfl⟩ rfl rfl (by rw [hphase]; rfl) rfl⟩
  | @unregister _ fd epollResult hphase =>
    have hsame := SameMessages.removeFd s.looper fd epollResult
    exact ⟨_, doorbell_of_same ⟨hsame.queue, hsame.next, hsame.sending⟩ rfl rfl
      (by rw [hphase]; rfl) rfl⟩

end Polls

/-! ## Every interleaving -/

section Runs

variable [DecidableEq τ] [DecidableEq H] {s s' : System τ H C D} {e : Event τ H C D}

lemma Orderly.step (h : s.Orderly) (hstep : s.Step e s') : s'.Orderly := by
  cases hstep with
  | call _ _ => exact h.call _ _
  | write _ => exact ⟨h.sorted, h.sending, h.next⟩
  | polls _ hpolls => exact h.polls hpolls

/-- **Every step is a move of the doorbell.** -/
theorem Step.doorbell (h : s.Orderly) (hstep : s.Step e s') :
    ∃ m, s.doorbell.Step m s'.doorbell := by
  cases hstep with
  | call hcall _ => exact ⟨.visit, h.doorbell_call hcall.1 _⟩
  | write _ =>
    exact ⟨.visit, rfl, rfl, fun _ => .inl (Nat.succ_pos _), fun hlt => absurd hlt (lt_irrefl _)⟩
  | polls _ hpolls => exact doorbell_polls hpolls

lemma Reachable.orderly_watched (h : s.Reachable) : s.Orderly ∧ s.doorbell.Watched := by
  obtain ⟨allowNonCallbacks, wakeReadPipeFd, es, hruns⟩ := h
  refine hruns.invariant (P := fun s => s.Orderly ∧ s.doorbell.Watched)
    ⟨orderly_init _ _, .inr (.inl le_top)⟩ ?_
  rintro s e s' ⟨horderly, hwatched⟩ hstep
  obtain ⟨m, hm⟩ := hstep.doorbell horderly
  exact ⟨horderly.step hstep, hwatched.step hm⟩

/-- **No wake-up is lost.**  Whatever the senders and the polling thread did, in any interleaving: if
the polling thread is in `epoll_wait`, with a timeout computed from `next`, and a message is queued,
the first message is not due before `next`, or a byte is in the pipe, or some thread is about to
write one. -/
theorem no_lost_wake (h : s.Reachable) {next timeoutMillis : ℤ}
    (hwaiting : s.phase = .waiting next timeoutMillis) {messageEnvelope : MessageEnvelope H}
    (hhead : s.looper.mMessageEnvelopes.head? = some messageEnvelope) :
    next ≤ messageEnvelope.uptime ∨ 0 < s.pipe ∨ ∃ t, s.waking t = true := by
  obtain ⟨horderly, hattends | harmed | hrings⟩ := h.orderly_watched
  · have hnot : s.doorbell.attending = false := by
      show s.phase.attends = false
      rw [hwaiting]
      rfl
    exact absurd (hnot ▸ hattends) Bool.false_ne_true
  · have hnext := horderly.next next (by rw [hwaiting]; rfl)
    obtain ⟨rest, hqueue⟩ := List.head?_eq_some_iff.mp hhead
    change _ ≤ earliest uptime s.looper.mMessageEnvelopes at harmed
    rw [hqueue] at harmed
    exact .inl (hnext ▸ WithTop.coe_le_coe.mp harmed)
  · exact .inr hrings

/-- A message sent after the timeout is computed and before the wait begins. -/
theorem no_lost_wake_late : ∃ s : System Unit Unit Unit Unit, s.Reachable ∧
    s.phase = .waiting LLONG_MAX (-1) ∧
    s.looper.mMessageEnvelopes.head? = some ⟨5, (), ⟨0⟩⟩ ∧
    (LLONG_MAX ≤ 5 ∨ 0 < s.pipe ∨ ∃ t, s.waking t = true) := by
  let computed : System Unit Unit Unit Unit :=
    { (init false 3) with phase := .entered LLONG_MAX (-1) }
  let sent := computed.call (.sender ()) (.sendMessageAtTime 5 () ⟨0⟩)
  let waits : System Unit Unit Unit Unit :=
    { sent with looper := sent.looper.clearResponses, phase := .waiting LLONG_MAX (-1) }
  have hpoll : (init false 3).Step (.poll (-1) 0) computed := .polls rfl (.poll rfl)
  have hsend : computed.Step (.call (.sender ()) (.sendMessageAtTime 5 () ⟨0⟩)) sent :=
    .call ⟨rfl, fun h => nomatch h⟩ fun _ => rfl
  have hwait : sent.Step .wait waits := .polls (by decide) (.wait rfl)
  have hreach : waits.Reachable := ⟨false, 3, _, .cons hpoll (.cons hsend (.single hwait))⟩
  exact ⟨waits, hreach, rfl, rfl, no_lost_wake hreach rfl rfl⟩

end Runs

end System

end Droid.Looper
