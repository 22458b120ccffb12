import Mathlib.Tactic

/-!
# Timelines and doorbells

An *attendant* serves a queue of entries with deadlines, sleeps when nothing is due, and must be
woken in time when somebody posts an entry that is due earlier than the attendant's alarm.

* **Timelines** — lists sorted by a key.  `slot` is the place behind all entries that are not later,
  so that entries with one key stay in order of arrival; `earliest` is the first deadline, `⊤` when
  there is none.  Posting at the slot lowers it to the minimum (`earliest_insertIdx_slot`), and it
  only rises when entries are taken out (`Timeline.earliest_le`).
* **Removal from the back** — `removeBelow` walks down the indices and takes out what matches; the
  whole walk is a `filter` (`removeBelow_length`).
* **Doorbells** — what the protocol between the attendant and the visitors is, without the queue:
  the attendant may do anything while attending, sets the alarm to no more than the earliest deadline
  when leaving, and a visitor who lowers the earliest deadline leaves the bell ringing unless the
  attendant is there.  Every step keeps `Watched`: nobody has to wait for an attendant who sleeps.
-/

namespace Droid

open List

variable {α ι : Type*} {key : α → ι}

/-! ## Timelines -/

/-- The first key. -/
def earliest (key : α → ι) (l : List α) : WithTop ι := (l.head?.map key).elim ⊤ WithTop.some

@[simp] lemma earliest_nil : earliest key [] = ⊤ := rfl

@[simp] lemma earliest_cons (a : α) (l : List α) :
    earliest key (a :: l) = (key a : WithTop ι) := rfl

section Timeline

variable [LinearOrder ι] (key : α → ι)

/-- Sorted by key. -/
def Timeline (l : List α) : Prop := l.Pairwise fun a b => key a ≤ key b

/-- The place behind every leading entry that is not later than `k`. -/
def slot (k : ι) : List α → ℕ
  | [] => 0
  | a :: l => if key a ≤ k then slot k l + 1 else 0

variable {key} {k : ι} {a : α} {l : List α}

lemma slot_cons_of_le (h : key a ≤ k) (l : List α) :
    slot key k (a :: l) = slot key k l + 1 := if_pos h

lemma slot_cons_of_lt (h : k < key a) (l : List α) : slot key k (a :: l) = 0 :=
  if_neg (not_le.mpr h)

lemma slot_le_length (k : ι) : ∀ l : List α, slot key k l ≤ l.length
  | [] => le_rfl
  | a :: l => by
    rcases le_or_gt (key a) k with h | h
    · rw [slot_cons_of_le h]
      exact Nat.succ_le_succ (slot_le_length k l)
    · rw [slot_cons_of_lt h]
      exact Nat.zero_le _

/-- Only what is due before everything else goes to the front. -/
lemma slot_eq_zero_iff (k : ι) (l : List α) :
    slot key k l = 0 ↔ (k : WithTop ι) < earliest key l := by
  cases l with
  | nil => simp [slot]
  | cons a l =>
    rcases le_or_gt (key a) k with h | h
    · simp [slot_cons_of_le h, h]
    · simp [slot_cons_of_lt h, h]

lemma mem_insertIdx_slot {b : α} : b ∈ l.insertIdx (slot key k l) a ↔ b = a ∨ b ∈ l :=
  mem_insertIdx (slot_le_length k l)

/-- Posting an entry at its slot. -/
lemma Timeline.insertIdx_slot (a : α) : ∀ {l : List α}, Timeline key l →
    Timeline key (l.insertIdx (slot key (key a) l) a)
  | [], _ => pairwise_singleton _ _
  | b :: l, h => by
    obtain ⟨hb, hl⟩ := pairwise_cons.mp h
    rcases le_or_gt (key b) (key a) with hle | hlt
    · rw [slot_cons_of_le hle]
      refine pairwise_cons.mpr ⟨fun c hc => ?_, insertIdx_slot a hl⟩
      rcases mem_insertIdx_slot.mp hc with rfl | hc
      · exact hle
      · exact hb c hc
    · rw [slot_cons_of_lt hlt]
      refine pairwise_cons.mpr ⟨fun c hc => ?_, h⟩
      rcases mem_cons.mp hc with rfl | hc
      · exact hlt.le
      · exact hlt.le.trans (hb c hc)

/-- Posting lowers the earliest deadline to the minimum. -/
lemma earliest_insertIdx_slot (a : α) (l : List α) :
    earliest key (l.insertIdx (slot key (key a) l) a) = min (key a : WithTop ι) (earliest key l) := by
  cases l with
  | nil => simp [slot]
  | cons b l =>
    rcases le_or_gt (key b) (key a) with hle | hlt
    · rw [slot_cons_of_le hle, insertIdx_succ_cons, earliest_cons, earliest_cons,
        min_eq_right (WithTop.coe_le_coe.mpr hle)]
    · rw [slot_cons_of_lt hlt, insertIdx_zero, earliest_cons, earliest_cons,
        min_eq_left (WithTop.coe_le_coe.mpr hlt.le)]

/-- Taking entries out never brings a deadline forward. -/
lemma Timeline.earliest_le {l' : List α} (h : Timeline key l) (hsub : l'.Sublist l) :
    earliest key l ≤ earliest key l' := by
  cases l' with
  | nil => exact le_top
  | cons b l' =>
    cases l with
    | nil => exact absurd hsub (by simp)
    | cons a l =>
      rcases mem_cons.mp (hsub.subset mem_cons_self) with rfl | hb
      · exact le_rfl
      · exact WithTop.coe_le_coe.mpr ((pairwise_cons.mp h).1 b hb)

lemma Timeline.sublist {l' : List α} (h : Timeline key l) (hsub : l'.Sublist l) :
    Timeline key l' := Pairwise.sublist hsub h

end Timeline

/-! ## Removal from the back -/

/-- `for (i = n; i != 0; ) if (p(l[--i])) l.removeAt(i)`. -/
def removeBelow (p : α → Bool) : ℕ → List α → List α
  | 0, l => l
  | i + 1, l => removeBelow p i (if (l[i]?).any p then l.eraseIdx i else l)

/-- The walk below `n` filters the first `n` entries. -/
lemma removeBelow_append (p : α → Bool) (l r : List α) :
    removeBelow p l.length (l ++ r) = l.filter (fun a => !p a) ++ r := by
  induction l using reverseRecOn generalizing r with
  | nil => rfl
  | append_singleton l a ih =>
    have ha : ((l ++ [a] ++ r)[l.length]?).any p = p a := by simp
    rw [length_append, length_singleton, removeBelow, ha]
    cases hp : p a with
    | true =>
      have herase : (l ++ [a] ++ r).eraseIdx l.length = l ++ r := by
        simp [eraseIdx_append_of_length_le]
      rw [if_pos rfl, herase, ih]
      simp [hp]
    | false =>
      rw [if_neg Bool.false_ne_true, append_assoc, ih]
      simp [hp]

lemma removeBelow_length (p : α → Bool) (l : List α) :
    removeBelow p l.length l = l.filter fun a => !p a := by
  simpa using removeBelow_append p l []

/-! ## Doorbells -/

/-- An attendant with an alarm, a queue of which only the earliest deadline counts, and a bell. -/
structure Doorbell (ι : Type*) where
  earliest : WithTop ι
  armed : WithTop ι
  attending : Bool
  ringing : Prop

namespace Doorbell

variable [LinearOrder ι] {d d' : Doorbell ι}

/-- Who moves: a visitor, the attendant who is there afterwards, or the attendant going to sleep. -/
inductive Move
  | visit
  | attend
  | leave
deriving DecidableEq, Repr

/-- What a move may do. -/
def Step (d : Doorbell ι) : Move → Doorbell ι → Prop
  | .visit, d' => d'.armed = d.armed ∧ d'.attending = d.attending ∧ (d.ringing → d'.ringing) ∧
      (d'.earliest < d.earliest → d.attending = true ∨ d'.ringing)
  | .attend, d' => d'.attending = true
  | .leave, d' => d'.armed ≤ d'.earliest

lemma Step.of_eq (h : d' = d) : d.Step .visit d' :=
  h ▸ ⟨rfl, rfl, id, fun hlt => absurd hlt (lt_irrefl _)⟩

/-- Somebody is there, or the alarm goes off in time, or the bell rings. -/
def Watched (d : Doorbell ι) : Prop := d.attending = true ∨ d.armed ≤ d.earliest ∨ d.ringing

theorem Watched.step {m : Move} (h : d.Watched) (hstep : d.Step m d') : d'.Watched := by
  cases m with
  | visit =>
    obtain ⟨harmed, hattending, hringing, hlower⟩ := hstep
    rw [Watched, harmed, hattending]
    rcases h with h | h | h
    · exact .inl h
    · rcases lt_or_ge d'.earliest d.earliest with hlt | hge
      · rcases hlower hlt with hthere | hrings
        · exact .inl hthere
        · exact .inr (.inr hrings)
      · exact .inr (.inl (h.trans hge))
    · exact .inr (.inr (hringing h))
  | attend => exact .inl hstep
  | leave => exact .inr (.inl hstep)

end Doorbell

end Droid
