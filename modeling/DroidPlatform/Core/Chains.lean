import Mathlib.Tactic

/-!
# Singly linked chains

Collision chains behind an array of heads: every node carries a `link` to the next one, null is
`none`.  Code that edits such a chain holds a pointer to the *place* where the pointer to a node is
kept, which is either a head or the link of the node before; a `Cell` is such a place.

* `Leads s c as` — from the cell `c` on, the chain begins with the nodes `as`;
* `Path s c as` — these are all its nodes;
* `Represents s chains` — behind the head `i` are the nodes `chains i`, and no node is on two
  chains or twice on one.

`search` walks to the cell of the first node that passes a test.  Writing the link of a node into
its own cell takes the node out, writing a new node into the last cell puts it in at the end; in
both cases the other chains are as before.
-/

namespace Droid

open List Function

/-- Where the pointer to a node is kept. -/
inductive Cell (ι P : Type*)
  | head (i : ι)
  | link (p : P)
  deriving DecidableEq

/-- The heads together with the link fields of all nodes. -/
structure Chains (ι P : Type*) where
  head : ι → Option P
  link : P → Option P

namespace Chains

variable {ι P : Type*} {s s' : Chains ι P} {c : Cell ι P} {as bs : List P} {a : P} {j : ι}

/-- `*c` -/
def get (s : Chains ι P) : Cell ι P → Option P
  | .head i => s.head i
  | .link p => s.link p

@[simp] lemma get_head (s : Chains ι P) (i : ι) : s.get (.head i) = s.head i := rfl
@[simp] lemma get_link (s : Chains ι P) (p : P) : s.get (.link p) = s.link p := rfl

/-- A node is taken out of a list. -/
lemma mem_without {p q : P} {u v : List P} (hnodup : (u ++ p :: v).Nodup) :
    q ∈ u ++ v ↔ q ∈ u ++ p :: v ∧ q ≠ p := by
  rw [nodup_middle, nodup_cons] at hnodup
  constructor
  · intro hq
    refine ⟨by simp at hq ⊢; tauto, ?_⟩
    rintro rfl
    exact hnodup.1 hq
  · rintro ⟨hq, hne⟩
    simpa [hne] using hq

/-! ## Following a chain -/

/-- The cell behind the last of the nodes `as`, which begin at `c`. -/
def endCell (c : Cell ι P) : List P → Cell ι P
  | [] => c
  | a :: as => endCell (.link a) as

@[simp] lemma endCell_nil (c : Cell ι P) : endCell c [] = c := rfl

@[simp] lemma endCell_cons (c : Cell ι P) (a : P) (as : List P) :
    endCell c (a :: as) = endCell (.link a) as := rfl

lemma endCell_mem (c : Cell ι P) (as : List P) :
    endCell c as = c ∨ ∃ a ∈ as, endCell c as = .link a := by
  induction as generalizing c with
  | nil => exact .inl rfl
  | cons a as ih =>
    right
    rcases ih (.link a) with h | ⟨b, hb, h⟩
    · exact ⟨a, by simp, h⟩
    · exact ⟨b, by simp [hb], h⟩

/-- The link of a node that is not among them is another cell. -/
lemma link_ne_endCell {i : ι} (ha : a ∉ as) : Cell.link a ≠ endCell (.head i) as := by
  rcases endCell_mem (Cell.head i) as with he | ⟨b, hb, he⟩
  · simp [he]
  · intro heq
    obtain rfl : a = b := by simpa [he] using heq
    exact ha hb

/-- From `c` on, the chain begins with the nodes `as`. -/
def Leads (s : Chains ι P) : Cell ι P → List P → Prop
  | _, [] => True
  | c, a :: as => s.get c = some a ∧ Leads s (.link a) as

/-- The chain at `c` has the nodes `as`. -/
def Path (s : Chains ι P) (c : Cell ι P) (as : List P) : Prop :=
  s.Leads c as ∧ s.get (endCell c as) = none

lemma leads_append : s.Leads c (as ++ bs) ↔ s.Leads c as ∧ s.Leads (endCell c as) bs := by
  induction as generalizing c with
  | nil => simp [Leads]
  | cons a as ih => simp [Leads, ih, and_assoc]

lemma endCell_append (c : Cell ι P) (as bs : List P) :
    endCell c (as ++ bs) = endCell (endCell c as) bs := by
  induction as generalizing c with
  | nil => rfl
  | cons a as ih => simp [ih]

lemma path_append : s.Path c (as ++ bs) ↔ s.Leads c as ∧ s.Path (endCell c as) bs := by
  rw [Path, Path, leads_append, endCell_append, and_assoc]

lemma path_cons : s.Path c (a :: as) ↔ s.get c = some a ∧ s.Path (.link a) as := by
  simp [Path, Leads, and_assoc]

@[simp] lemma path_nil : s.Path c [] ↔ s.get c = none := by
  simp [Path, Leads]

lemma Path.get_eq (h : s.Path c as) : s.get c = as.head? := by
  cases as with
  | nil => exact path_nil.mp h
  | cons a as => exact (path_cons.mp h).1

/-- A chain reads its first cell and the links of its nodes. -/
lemma Path.transport (h : s.Path c as) (hc : s'.get c = s.get c)
    (hlink : ∀ a ∈ as, s'.link a = s.link a) : s'.Path c as := by
  induction as generalizing c with
  | nil => simpa [hc] using h
  | cons a as ih =>
    rw [path_cons] at h ⊢
    exact ⟨hc.trans h.1, ih h.2 (hlink a (by simp)) fun b hb => hlink b (by simp [hb])⟩

/-- The beginning of a chain reads the same cells but the last. -/
lemma Leads.transport (h : s.Leads c as)
    (hget : ∀ d, d ≠ endCell c as → (d = c ∨ ∃ a ∈ as, d = .link a) → s'.get d = s.get d)
    (hnodup : as.Nodup) (hc : ∀ a ∈ as, c ≠ .link a) : s'.Leads c as := by
  induction as generalizing c with
  | nil => trivial
  | cons a as ih =>
    obtain ⟨ha, hnodup⟩ := nodup_cons.mp hnodup
    refine ⟨?_, ih h.2 (fun d hd hmem => hget d hd ?_) hnodup fun b hb => ?_⟩
    · rw [hget c ?_ (.inl rfl), h.1]
      rcases endCell_mem (.link a) as with he | ⟨b, hb, he⟩
      · rw [endCell_cons, he]
        exact hc a (by simp)
      · rw [endCell_cons, he]
        exact hc b (by simp [hb])
    · rcases hmem with rfl | ⟨b, hb, rfl⟩
      · exact .inr ⟨a, by simp, rfl⟩
      · exact .inr ⟨b, by simp [hb], rfl⟩
    · rintro ⟨⟩
      exact ha hb

/-! ## The table -/

/-- Behind the head `i` are the nodes `chains i`. -/
structure Represents (s : Chains ι P) (chains : ι → List P) : Prop where
  path : ∀ i, s.Path (.head i) (chains i)
  nodup : ∀ i, (chains i).Nodup
  disjoint : ∀ {i j p}, p ∈ chains i → p ∈ chains j → i = j

/-- A cell of one chain is not read by the others. -/
lemma Represents.endCell_ne {chains : ι → List P} {i : ι} {pre post : List P}
    (h : s.Represents chains) (hi : chains i = pre ++ post) (hj : j ≠ i) :
    Cell.head j ≠ endCell (.head i) pre ∧ ∀ a ∈ chains j, Cell.link a ≠ endCell (.head i) pre := by
  refine ⟨?_, fun a ha => link_ne_endCell fun hmem => hj (h.disjoint ha (by simp [hi, hmem]))⟩
  rcases endCell_mem (Cell.head i) pre with he | ⟨b, -, he⟩ <;> simp [he, hj]

/-- The table of zeroed heads. -/
lemma represents_empty (link : P → Option P) :
    Represents (⟨fun _ => none, link⟩ : Chains ι P) fun _ => [] :=
  ⟨fun _ => path_nil.mpr rfl, fun _ => nodup_nil, fun h => absurd h not_mem_nil⟩

/-! ## Searching -/

/-- Walk to the cell of the first node that passes the test, or to the last cell; `none` when the
test faults or the fuel is spent. -/
def search (s : Chains ι P) (test : P → Option Bool) : ℕ → Cell ι P → Option (Cell ι P)
  | 0, _ => none
  | fuel + 1, c =>
    match s.get c with
    | none => some c
    | some p => (test p).bind fun b => if b then some c else s.search test fuel (.link p)

/-- **The walk** stops in front of the first node that passes. -/
theorem search_eq {test : P → Option Bool} {b : P → Bool} {fuel : ℕ} (h : s.Path c as)
    (htest : ∀ a ∈ as, test a = some (b a)) (hfuel : as.length < fuel) :
    s.search test fuel c = some (endCell c (as.takeWhile fun a => !b a)) := by
  induction as generalizing c fuel with
  | nil =>
    obtain ⟨fuel, rfl⟩ : ∃ n, fuel = n + 1 := ⟨fuel - 1, by simp at hfuel; omega⟩
    simp [search, path_nil.mp h]
  | cons a as ih =>
    obtain ⟨fuel, rfl⟩ : ∃ n, fuel = n + 1 := ⟨fuel - 1, by simp at hfuel; omega⟩
    rw [path_cons] at h
    rw [search, h.1]
    simp only [htest a (by simp)]
    cases hb : b a with
    | true => simp [hb]
    | false =>
      simpa [hb] using ih h.2 (fun x hx => htest x (by simp [hx])) (by simpa using hfuel)

lemma takeWhile_append_dropWhile_eq (b : P → Bool) (as : List P) :
    (as.takeWhile fun a => !b a) ++ (as.dropWhile fun a => !b a) = as :=
  takeWhile_append_dropWhile

/-- What the walk finds. -/
lemma get_search (b : P → Bool) (h : s.Path c as) :
    s.get (endCell c (as.takeWhile fun a => !b a)) = as.find? b := by
  rw [← takeWhile_append_dropWhile_eq b as, path_append] at h
  rw [h.2.get_eq]
  clear h
  induction as with
  | nil => rfl
  | cons a as ih => cases hb : b a <;> simp [hb, ih]

/-! ## Editing -/

section Edit

variable [DecidableEq ι] [DecidableEq P]

/-- `*c = v` -/
def set (s : Chains ι P) (c : Cell ι P) (v : Option P) : Chains ι P :=
  match c with
  | .head i => { s with head := Function.update s.head i v }
  | .link p => { s with link := Function.update s.link p v }

@[simp] lemma get_set (s : Chains ι P) (c d : Cell ι P) (v : Option P) :
    (s.set c v).get d = if d = c then v else s.get d := by
  cases c <;> cases d <;> simp [set, update_apply]

lemma link_set (s : Chains ι P) (c : Cell ι P) (v : Option P) (p : P) :
    (s.set c v).link p = if Cell.link p = c then v else s.link p := get_set s c (.link p) v

variable {s : Chains ι P} {chains : ι → List P} {i : ι} {pre post : List P}

namespace Represents

variable {v : Option P}

/-- **Editing one chain.**  A write to a cell of the chain `i` leaves the nodes before the cell
where they are and the other chains alone. -/
lemma set (h : s.Represents chains) (hi : chains i = pre ++ post) {post' : List P}
    (hpost : (s.set (endCell (.head i) pre) v).Path (endCell (.head i) pre) post')
    (hnodup : (pre ++ post').Nodup) (hnew : ∀ p ∈ post', ∀ j, p ∈ chains j → j = i) :
    (s.set (endCell (.head i) pre) v).Represents (update chains i (pre ++ post')) := by
  have hmem : ∀ {p}, p ∈ pre ++ post' → ∀ {j}, p ∈ chains j → j = i := by
    intro p hp j hj
    rcases mem_append.mp hp with hp | hp
    · exact h.disjoint hj (by simp [hi, hp])
    · exact hnew p hp j hj
  refine ⟨fun j => ?_, fun j => ?_, fun {j k p} hj hk => ?_⟩
  · by_cases hji : j = i
    · subst hji
      have hleads := (path_append.mp (hi ▸ h.path j)).1
      rw [update_self, path_append]
      refine ⟨hleads.transport (fun d hd _ => by simp [hd]) ?_ (by simp), hpost⟩
      exact (nodup_append'.mp hnodup).1
    · obtain ⟨hhead, hlink⟩ := h.endCell_ne hi hji
      rw [update_of_ne hji]
      refine (h.path j).transport ?_ fun a ha => ?_
      · rw [get_set, if_neg hhead]
      · rw [link_set, if_neg (hlink a ha)]
  · by_cases hji : j = i
    · subst hji
      rwa [update_self]
    · rw [update_of_ne hji]
      exact h.nodup j
  · by_cases hji : j = i <;> by_cases hki : k = i
    · rw [hji, hki]
    · subst hji
      rw [update_self] at hj
      rw [update_of_ne hki] at hk
      exact (hmem hj hk).symm
    · subst hki
      rw [update_self] at hk
      rw [update_of_ne hji] at hj
      exact hmem hk hj
    · rw [update_of_ne hji] at hj
      rw [update_of_ne hki] at hk
      exact h.disjoint hj hk

/-- Taking a node out: its cell gets its link. -/
theorem remove (h : s.Represents chains) (hi : chains i = pre ++ a :: post) :
    (s.set (endCell (.head i) pre) (s.link a)).Represents
      (update chains i (pre ++ post)) := by
  have hnodup := h.nodup i
  have hpath := h.path i
  rw [hi] at hnodup hpath
  have hnodup' : (pre ++ post).Nodup := (nodup_cons.mp (nodup_middle.mp hnodup)).2
  obtain ⟨-, hrest⟩ := path_append.mp hpath
  refine h.set hi ?_ hnodup' fun p hp j hj => h.disjoint hj (by simp [hi, hp])
  -- the rest of the chain now begins one cell earlier
  have hpost := (path_cons.mp hrest).2
  have hne : ∀ b ∈ post, Cell.link b ≠ endCell (.head i) pre :=
    fun b hb => link_ne_endCell fun hmem => (nodup_append'.mp hnodup').2.2 hmem hb
  cases post with
  | nil => simpa using hpost
  | cons b post =>
    rw [path_cons] at hpost ⊢
    refine ⟨by simpa using hpost.1, hpost.2.transport ?_ fun x hx => ?_⟩
    · rw [get_set, if_neg (hne b (by simp))]
    · rw [link_set, if_neg (hne x (by simp [hx]))]

variable {p : P}

omit [DecidableEq P] in
lemma mem_remove (h : s.Represents chains) (hi : chains i = pre ++ a :: post) :
    p ∈ update chains i (pre ++ post) j ↔ p ∈ chains j ∧ p ≠ a := by
  by_cases hji : j = i
  · subst hji
    rw [update_self, hi]
    exact mem_without (hi ▸ h.nodup j)
  · rw [update_of_ne hji, iff_self_and]
    rintro hp rfl
    exact hji (h.disjoint hp (by simp [hi]))

/-- Putting a new node in at the end: the last cell gets the node. -/
theorem insert (h : s.Represents chains) (hnew : ∀ j, a ∉ chains j) (hlink : s.link a = none) :
    (s.set (endCell (.head i) (chains i)) (some a)).Represents
      (update chains i (chains i ++ [a])) := by
  refine h.set (show chains i = chains i ++ [] by simp) ?_ ?_ fun p hp j hj => ?_
  · simp [path_cons, link_set, link_ne_endCell (hnew i), hlink]
  · exact nodup_append'.mpr ⟨h.nodup i, by simp, by simpa using hnew i⟩
  · obtain rfl := mem_singleton.mp hp
    exact absurd hj (hnew j)

omit [DecidableEq P] in
lemma mem_insert (chains : ι → List P) :
    p ∈ update chains i (chains i ++ [a]) j ↔ p ∈ chains j ∨ (p = a ∧ j = i) := by
  by_cases hji : j = i
  · subst hji
    simp
  · simp [hji]

/-- The link of a node on no chain may be anything. -/
lemma set_link (h : s.Represents chains) (hnew : ∀ j, a ∉ chains j) :
    (s.set (.link a) v).Represents chains := by
  refine ⟨fun j => (h.path j).transport (get_set s _ _ v) fun b hb => ?_, h.nodup, h.disjoint⟩
  rw [link_set, if_neg]
  rintro ⟨⟩
  exact hnew j hb

end Represents

end Edit

end Chains

end Droid
