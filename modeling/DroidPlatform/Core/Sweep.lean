import DroidPlatform.Core.RunList

/-!
# Sweeping two run lists

Reading two run lists from left to right cuts the line into pieces on which both are constant.
`SweepStep` is one cut: it takes the first piece off the front of the two lists and leaves what
remains of them, the front run of one list clipped where the other one starts or ends.  `Sweep`
is the whole sequence of cuts.

The point of the relation is that each cut is *exact*: a step removes from each list precisely the
values on its piece (`SweepStep.valueAt_left`, `SweepStep.valueAt_right`), so the pieces form a run
list again (`Sweep.orderedFrom`) whose value at a point is the pair of values there
(`Sweep.valueAt_eq`).  `sweepMeasure` drops on every cut.
-/

namespace Droid

/-- Which of the two lists cover a piece, with their values there. -/
inductive Side (α β : Type*) where
  | left (a : α)
  | right (b : β)
  | both (a : α) (b : β)
deriving DecidableEq, Repr

variable {ι α β : Type*}

def Side.left? : Side α β → Option α
  | left a => some a
  | right _ => none
  | both a _ => some a

def Side.right? : Side α β → Option β
  | left _ => none
  | right b => some b
  | both _ b => some b

/-- The side a point is on, from its values in the two lists. -/
def Side.join : Option α → Option β → Option (Side α β)
  | none, none => none
  | some a, none => some (left a)
  | none, some b => some (right b)
  | some a, some b => some (both a b)

@[simp] lemma Side.join_left?_right? (s : Side α β) : join s.left? s.right? = some s := by
  cases s <;> rfl

/-- Move the start of the first run to `p`. -/
def clipHead (p : ι) : List (Run ι α) → List (Run ι α)
  | [] => []
  | r :: rs => { r with lo := p } :: rs

@[simp] lemma clipHead_clipHead (p q : ι) (l : List (Run ι α)) :
    clipHead p (clipHead q l) = clipHead p l := by
  cases l <;> rfl

variable [LinearOrder ι]

/-- One cut: the first piece `s`, and what it leaves of the two lists. -/
inductive SweepStep : List (Run ι α) → List (Run ι β) → Run ι (Side α β) →
    List (Run ι α) → List (Run ι β) → Prop
  | left {a as bs} (h : ∀ b ∈ bs.head?, a.hi ≤ b.lo) :
      SweepStep (a :: as) bs ⟨a.lo, a.hi, .left a.val⟩ as bs
  | leftClip {a as b bs} (h₁ : a.lo < b.lo) (h₂ : b.lo < a.hi) :
      SweepStep (a :: as) (b :: bs) ⟨a.lo, b.lo, .left a.val⟩ (clipHead b.lo (a :: as)) (b :: bs)
  | right {as b bs} (h : ∀ a ∈ as.head?, b.hi ≤ a.lo) :
      SweepStep as (b :: bs) ⟨b.lo, b.hi, .right b.val⟩ as bs
  | rightClip {a as b bs} (h₁ : b.lo < a.lo) (h₂ : a.lo < b.hi) :
      SweepStep (a :: as) (b :: bs) ⟨b.lo, a.lo, .right b.val⟩ (a :: as) (clipHead a.lo (b :: bs))
  | bothLeft {a as b bs} (h₁ : a.lo = b.lo) (h₂ : a.hi < b.hi) :
      SweepStep (a :: as) (b :: bs) ⟨a.lo, a.hi, .both a.val b.val⟩ as (clipHead a.hi (b :: bs))
  | bothRight {a as b bs} (h₁ : a.lo = b.lo) (h₂ : b.hi < a.hi) :
      SweepStep (a :: as) (b :: bs) ⟨a.lo, b.hi, .both a.val b.val⟩ (clipHead b.hi (a :: as)) bs
  | both {a as b bs} (h₁ : a.lo = b.lo) (h₂ : a.hi = b.hi) :
      SweepStep (a :: as) (b :: bs) ⟨a.lo, a.hi, .both a.val b.val⟩ as bs

/-- The whole sequence of cuts. -/
inductive Sweep : List (Run ι α) → List (Run ι β) → List (Run ι (Side α β)) → Prop
  | nil : Sweep [] [] []
  | cons {as bs s as' bs' out} (hstep : SweepStep as bs s as' bs') (hrest : Sweep as' bs' out) :
      Sweep as bs (s :: out)

variable {as as' : List (Run ι α)} {bs bs' : List (Run ι β)} {s : Run ι (Side α β)} {p x : ι}

/-! ## What one cut does -/

lemma OrderedFrom.of_head {q : ι} {l : List (Run ι α)} (h : OrderedFrom p l)
    (hq : ∀ r ∈ l.head?, q ≤ r.lo) : OrderedFrom q l := by
  cases l with
  | nil => trivial
  | cons r rs => exact ⟨hq r (by simp), h.2⟩

/-- The piece is non-empty, and everything left starts at or after its end. -/
lemma SweepStep.orderedFrom (h : SweepStep as bs s as' bs') (ha : OrderedFrom p as)
    (hb : OrderedFrom p bs) :
    p ≤ s.lo ∧ s.lo < s.hi ∧ OrderedFrom s.hi as' ∧ OrderedFrom s.hi bs' := by
  cases h with
  | left h => exact ⟨ha.1, ha.2.1, ha.2.2, hb.of_head h⟩
  | leftClip h1 h2 => exact ⟨ha.1, h1, ⟨le_rfl, h2, ha.2.2⟩, ⟨le_rfl, hb.2⟩⟩
  | right h => exact ⟨hb.1, hb.2.1, ha.of_head h, hb.2.2⟩
  | rightClip h1 h2 => exact ⟨hb.1, h1, ⟨le_rfl, ha.2⟩, ⟨le_rfl, h2, hb.2.2⟩⟩
  | bothLeft h1 h2 => exact ⟨ha.1, ha.2.1, ha.2.2, ⟨le_rfl, h2, hb.2.2⟩⟩
  | bothRight h1 h2 => exact ⟨ha.1, h1 ▸ hb.2.1, ⟨le_rfl, h2, ha.2.2⟩, hb.2.2⟩
  | both h1 h2 => exact ⟨ha.1, ha.2.1, ha.2.2, h2 ▸ hb.2.2⟩

/-- Cutting a piece off the front of its first run leaves the other values alone. -/
lemma valueAt_clipHead {r : Run ι α} {rs : List (Run ι α)} {q : ι} (hq : r.lo ≤ q)
    (hq' : q ≤ r.hi) :
    valueAt x (r :: rs) = if r.lo ≤ x ∧ x < q then some r.val
      else valueAt x (clipHead q (r :: rs)) := by
  simp only [clipHead, valueAt, Run.Covers]
  by_cases h1 : r.lo ≤ x
  · by_cases h2 : x < q
    · simp [h1, h2, lt_of_lt_of_le h2 hq']
    · simp [h1, not_lt.mp h2]
  · have h2 : ¬ q ≤ x := fun h => h1 (le_trans hq h)
    simp [h1, h2]

/-- A list that starts after a piece has no value on it. -/
lemma valueAt_skip {r : Run ι β} (h : OrderedFrom r.hi as) :
    valueAt x as = if r.Covers x then none else valueAt x as := by
  split
  · next hc => exact valueAt_eq_none h hc.2
  · rfl

section

variable (h : SweepStep as bs s as' bs')

include h

/-- **A cut takes exactly the left values on its piece.** -/
lemma SweepStep.valueAt_left (ha : OrderedFrom p as) (hb : OrderedFrom p bs) :
    valueAt x as = if s.Covers x then s.val.left? else valueAt x as' := by
  have hord := (h.orderedFrom ha hb).2.2.1
  cases h with
  | left h => rfl
  | leftClip h1 h2 => exact valueAt_clipHead h1.le h2.le
  | right h | rightClip h1 h2 => exact valueAt_skip hord
  | bothLeft h1 h2 => rfl
  | bothRight h1 h2 => exact valueAt_clipHead (h1 ▸ hb.2.1.le) h2.le
  | both h1 h2 => rfl

/-- **A cut takes exactly the right values on its piece.** -/
lemma SweepStep.valueAt_right (ha : OrderedFrom p as) (hb : OrderedFrom p bs) :
    valueAt x bs = if s.Covers x then s.val.right? else valueAt x bs' := by
  have hord := (h.orderedFrom ha hb).2.2.2
  cases h with
  | left h | leftClip h1 h2 => exact valueAt_skip hord
  | right h => rfl
  | rightClip h1 h2 => exact valueAt_clipHead h1.le h2.le
  | @bothLeft a as b bs h1 h2 =>
    rw [valueAt_clipHead (h1 ▸ ha.2.1.le) h2.le, ← h1]
    rfl
  | @bothRight a as b bs h1 h2 =>
    simp only [h1]
    rfl
  | @both a as b bs h1 h2 =>
    simp only [h1, h2]
    rfl

/-- The values of a piece are those of the two front runs. -/
lemma SweepStep.left?_mem_head? : ∀ v ∈ s.val.left?, ∃ a ∈ as.head?, a.val = v := by
  cases h <;> simp [Side.left?]

lemma SweepStep.right?_mem_head? : ∀ v ∈ s.val.right?, ∃ b ∈ bs.head?, b.val = v := by
  cases h <;> simp [Side.right?]

/-- No new value appears in what a cut leaves. -/
lemma SweepStep.forall_val_left {P : α → Prop} (hP : ∀ a ∈ as, P a.val) : ∀ a ∈ as', P a.val := by
  cases h <;> simp_all [clipHead]

lemma SweepStep.forall_val_right {P : β → Prop} (hP : ∀ b ∈ bs, P b.val) : ∀ b ∈ bs', P b.val := by
  cases h <;> simp_all [clipHead]

end

/-- Whether the two lists start at different points. -/
def startsApart (as : List (Run ι α)) (bs : List (Run ι β)) : ℕ :=
  if as.head?.map Run.lo = bs.head?.map Run.lo then 0 else 1

lemma startsApart_le_one (as : List (Run ι α)) (bs : List (Run ι β)) : startsApart as bs ≤ 1 := by
  rw [startsApart]
  split_ifs <;> omega

/-- Runs still to be read, counted so that clipping a run to a common start counts as progress. -/
def sweepMeasure (as : List (Run ι α)) (bs : List (Run ι β)) : ℕ :=
  2 * (as.length + bs.length) + startsApart as bs

lemma SweepStep.measure_lt (h : SweepStep as bs s as' bs') :
    sweepMeasure as' bs' < sweepMeasure as bs := by
  have hle := startsApart_le_one as' bs'
  cases h with
  | left h | right h | both h1 h2 => simp only [sweepMeasure, List.length_cons]; omega
  | leftClip h1 h2 => simp [sweepMeasure, startsApart, clipHead, h1.ne]
  | rightClip h1 h2 => simp [sweepMeasure, startsApart, clipHead, h1.ne']
  | bothLeft h1 h2
  | bothRight h1 h2 => simp only [sweepMeasure, clipHead, List.length_cons] at hle ⊢; omega

/-! ## What the whole sweep does -/

theorem Sweep.orderedFrom {out : List (Run ι (Side α β))} (h : Sweep as bs out) :
    ∀ {p : ι}, OrderedFrom p as → OrderedFrom p bs → OrderedFrom p out := by
  induction h with
  | nil => exact fun _ _ => trivial
  | cons hstep _ ih =>
    intro p ha hb
    obtain ⟨h1, h2, ha', hb'⟩ := hstep.orderedFrom ha hb
    exact ⟨h1, h2, ih ha' hb'⟩

/-- **The sweep computes the pair of values at every point.** -/
theorem Sweep.valueAt_eq {out : List (Run ι (Side α β))} (h : Sweep as bs out) (x : ι) :
    ∀ {p : ι}, OrderedFrom p as → OrderedFrom p bs →
      valueAt x out = Side.join (valueAt x as) (valueAt x bs) := by
  induction h with
  | nil => exact fun _ _ => rfl
  | cons hstep _ ih =>
    intro p ha hb
    obtain ⟨_, _, ha', hb'⟩ := hstep.orderedFrom ha hb
    rw [hstep.valueAt_left ha hb, hstep.valueAt_right ha hb, valueAt]
    split
    · exact (Side.join_left?_right? _).symm
    · exact ih ha' hb'

end Droid
