import Mathlib.Tactic

/-!
# Doubly linked lists

A list whose nodes carry their own `prev` and `next` pointers, with a head that remembers the first
and the last node.  Pointers are `Option P`, the null pointer is `none`.

The head fits into the same picture as the nodes: `mFirst` is what follows null and `mLast` is what
precedes it (`nextOf`, `prevOf`).  A list with the nodes `as` is then a **ring** through null,

  `null ⇄ a₁ ⇄ a₂ ⇄ … ⇄ aₙ ⇄ null`,

and the four insertions and the removal are edits of two neighbouring links of that ring.
`Represents` says that the ring goes through `as`; each operation has one lemma that says what it
does to `as`.
-/

namespace Droid

open List Function Option

/-- The head of a list together with the link fields of all nodes. -/
structure LinkedList (P : Type*) where
  mFirst : Option P
  mLast : Option P
  prev : P → Option P
  next : P → Option P

namespace LinkedList

variable {P : Type*} {l l' : LinkedList P} {as post pre : List P} {x : Option P}

/-- What follows a pointer: null is followed by the first node. -/
def nextOf (l : LinkedList P) : Option P → Option P
  | none => l.mFirst
  | some a => l.next a

/-- What precedes a pointer: null is preceded by the last node. -/
def prevOf (l : LinkedList P) : Option P → Option P
  | none => l.mLast
  | some a => l.prev a

@[simp] lemma nextOf_none (l : LinkedList P) : l.nextOf none = l.mFirst := rfl
@[simp] lemma nextOf_some (l : LinkedList P) (a : P) : l.nextOf (some a) = l.next a := rfl
@[simp] lemma prevOf_none (l : LinkedList P) : l.prevOf none = l.mLast := rfl
@[simp] lemma prevOf_some (l : LinkedList P) (a : P) : l.prevOf (some a) = l.prev a := rfl

/-! ## Chains of links -/

/-- Consecutive pointers are linked both ways. -/
def Links (l : LinkedList P) : List (Option P) → Prop
  | x :: y :: rest => l.nextOf x = y ∧ l.prevOf y = x ∧ Links l (y :: rest)
  | _ => True

lemma links_cons_cons {y : Option P} {rest : List (Option P)} :
    l.Links (x :: y :: rest) ↔ l.nextOf x = y ∧ l.prevOf y = x ∧ l.Links (y :: rest) := Iff.rfl

/-- A chain is cut at one of its pointers. -/
lemma links_append (xs : List (Option P)) (x : Option P) (ys : List (Option P)) :
    l.Links (xs ++ x :: ys) ↔ l.Links (xs ++ [x]) ∧ l.Links (x :: ys) := by
  induction xs with
  | nil => simp [Links]
  | cons a xs ih =>
    cases xs with
    | nil => simp [Links, and_assoc]
    | cons b xs =>
      simp only [cons_append, links_cons_cons, and_assoc] at ih ⊢
      rw [ih]

/-- A chain reads `next` of all its pointers but the last and `prev` of all but the first. -/
lemma Links.transport {xs : List (Option P)} (h : l.Links (x :: xs))
    (hnext : ∀ y ∈ (x :: xs).dropLast, l'.nextOf y = l.nextOf y)
    (hprev : ∀ y ∈ xs, l'.prevOf y = l.prevOf y) : l'.Links (x :: xs) := by
  induction xs generalizing x with
  | nil => trivial
  | cons y xs ih =>
    refine ⟨?_, ?_, ih h.2.2 (fun z hz => hnext z ?_) fun z hz => hprev z ?_⟩
    · rw [hnext x (by simp), h.1]
    · rw [hprev y (by simp), h.2.1]
    · simp [hz]
    · simp [hz]

/-! ## The ring of a list -/

/-- The ring through null, cut open at null. -/
def ring (as : List P) : List (Option P) := none :: (as.map some ++ [none])

/-- The nodes of the list are `as`, in this order. -/
structure Represents (l : LinkedList P) (as : List P) : Prop where
  nodup : as.Nodup
  links : l.Links (ring as)

/-- The first half of a ring ends with the last node before the cut. -/
lemma exists_eq_concat (pre : List P) : ∃ xs, none :: pre.map some = xs ++ [pre.getLast?] := by
  induction pre using reverseRecOn with
  | nil => exact ⟨[], rfl⟩
  | append_singleton pre a _ => exact ⟨none :: pre.map some, by simp⟩

/-- The second half of a ring begins with the first node after the cut. -/
lemma exists_eq_cons (post : List P) : ∃ ys, post.map some ++ [none] = post.head? :: ys := by
  cases post with
  | nil => exact ⟨[], rfl⟩
  | cons a post => exact ⟨post.map some ++ [none], rfl⟩

/-- **Cutting the ring.**  Two lists form a ring when each half is linked and so is the seam. -/
lemma links_ring_append :
    l.Links (ring (pre ++ post)) ↔ l.Links (none :: pre.map some) ∧
      l.nextOf pre.getLast? = post.head? ∧ l.prevOf post.head? = pre.getLast? ∧
      l.Links (post.map some ++ [none]) := by
  obtain ⟨xs, hxs⟩ := exists_eq_concat pre
  obtain ⟨ys, hys⟩ := exists_eq_cons post
  have hring : ring (pre ++ post) = xs ++ pre.getLast? :: post.head? :: ys := by
    calc ring (pre ++ post) = (none :: pre.map some) ++ (post.map some ++ [none]) := by simp [ring]
      _ = xs ++ pre.getLast? :: post.head? :: ys := by rw [hxs, hys]; simp
  rw [hring, links_append, links_cons_cons, hxs, hys]

namespace Represents

variable {l : LinkedList P} {pre post : List P} {a : P}

lemma next_eq (h : l.Represents (pre ++ a :: post)) : l.next a = post.head? := by
  have hlinks := h.links
  rw [append_cons, links_ring_append, getLast?_concat] at hlinks
  exact hlinks.2.1

lemma prev_eq (h : l.Represents (pre ++ a :: post)) : l.prev a = pre.getLast? :=
  (links_ring_append.mp h.links).2.2.1

lemma prev_ne_self (h : l.Represents (pre ++ a :: post)) : l.prev a ≠ some a := by
  rw [h.prev_eq]
  intro e
  have hmem : a ∈ pre := mem_of_mem_getLast? (mem_def.mpr e)
  exact (nodup_append'.mp h.nodup).2.2 hmem (by simp)

lemma mFirst_eq (h : l.Represents as) : l.mFirst = as.head? :=
  (links_ring_append.mp (show l.Links (ring ([] ++ as)) from h.links)).2.1

lemma mLast_eq (h : l.Represents as) : l.mLast = as.getLast? := by
  have hlinks := h.links
  rw [← append_nil as, links_ring_append] at hlinks
  exact hlinks.2.2.1

end Represents

/-- Lists are determined by their links. -/
lemma ext_links (hnext : ∀ q, l.nextOf q = l'.nextOf q) (hprev : ∀ q, l.prevOf q = l'.prevOf q) :
    l = l' := by
  obtain ⟨_, _, _, _⟩ := l
  obtain ⟨_, _, _, _⟩ := l'
  simp only [mk.injEq]
  exact ⟨hnext none, hprev none, funext fun a => hprev (some a), funext fun a => hnext (some a)⟩

/-! ## Editing two neighbouring links -/

/-- The halves of a ring survive every edit that changes only the `next` of the last pointer before
the cut and the `prev` of the first pointer after it. -/
lemma links_halves (hnodup : (pre ++ post).Nodup) (hpre : l.Links (none :: pre.map some))
    (hpost : l.Links (post.map some ++ [none]))
    (hnext : ∀ q ∈ ring (pre ++ post), q ≠ pre.getLast? → l'.nextOf q = l.nextOf q)
    (hprev : ∀ q ∈ ring (pre ++ post), q ≠ post.head? → l'.prevOf q = l.prevOf q) :
    l'.Links (none :: pre.map some) ∧ l'.Links (post.map some ++ [none]) := by
  obtain ⟨hnpre, hnpost, hdisj⟩ := nodup_append'.mp hnodup
  constructor
  · refine hpre.transport (fun q hq => hnext q ?_ ?_) fun q hq => hprev q ?_ ?_
    · have := mem_of_mem_dropLast hq
      simp only [ring, map_append, mem_cons, mem_append] at this ⊢
      tauto
    · obtain ⟨xs, hxs⟩ := exists_eq_concat pre
      have hn : (none :: pre.map some).Nodup := by
        simpa using hnpre.map (some_injective P)
      rw [hxs] at hq hn
      rw [dropLast_concat] at hq
      rintro rfl
      exact (nodup_append'.mp hn).2.2 hq (by simp)
    · simp only [ring, map_append, mem_cons, mem_append]
      tauto
    · obtain ⟨a, ha, rfl⟩ := mem_map.mp hq
      intro h
      exact hdisj ha (mem_of_mem_head? (mem_def.mpr h.symm))
  · obtain ⟨ys, hys⟩ := exists_eq_cons post
    rw [hys] at hpost ⊢
    refine hpost.transport (fun q hq => hnext q ?_ ?_) fun q hq => hprev q ?_ ?_
    · have := mem_of_mem_dropLast hq
      rw [← hys] at this
      simp only [ring, map_append, mem_cons, mem_append] at this ⊢
      tauto
    · rw [← hys, dropLast_concat] at hq
      obtain ⟨a, ha, rfl⟩ := mem_map.mp hq
      intro h
      exact hdisj (mem_of_mem_getLast? (mem_def.mpr h.symm)) ha
    · have : q ∈ post.map some ++ [none] := hys ▸ mem_cons_of_mem _ hq
      simp only [ring, map_append, mem_cons, mem_append] at this ⊢
      tauto
    · have hn : (post.map some ++ [none]).Nodup := by
        simpa [nodup_append'] using hnpost.map (some_injective P)
      rw [hys] at hn
      rintro rfl
      exact (nodup_cons.mp hn).1 hq

section Edit

variable [DecidableEq P] {newNode node : P}

/-- `p->next = v`, where the `next` of null is `mFirst`. -/
def setNext (l : LinkedList P) (p v : Option P) : LinkedList P :=
  match p with
  | none => { l with mFirst := v }
  | some a => { l with next := Function.update l.next a v }

/-- `p->prev = v`, where the `prev` of null is `mLast`. -/
def setPrev (l : LinkedList P) (p v : Option P) : LinkedList P :=
  match p with
  | none => { l with mLast := v }
  | some a => { l with prev := Function.update l.prev a v }

@[simp] lemma nextOf_setNext (l : LinkedList P) (p v q : Option P) :
    (l.setNext p v).nextOf q = if q = p then v else l.nextOf q := by
  cases p <;> cases q <;> simp [setNext, update_apply]

@[simp] lemma prevOf_setPrev (l : LinkedList P) (p v q : Option P) :
    (l.setPrev p v).prevOf q = if q = p then v else l.prevOf q := by
  cases p <;> cases q <;> simp [setPrev, update_apply]

@[simp] lemma prevOf_setNext (l : LinkedList P) (p v q : Option P) :
    (l.setNext p v).prevOf q = l.prevOf q := by
  cases p <;> cases q <;> rfl

@[simp] lemma nextOf_setPrev (l : LinkedList P) (p v q : Option P) :
    (l.setPrev p v).nextOf q = l.nextOf q := by
  cases p <;> cases q <;> rfl

/-- Link the node `n` in between its new neighbours `x` and `y`. -/
def linkBetween (l : LinkedList P) (x : Option P) (n : P) (y : Option P) : LinkedList P :=
  (((l.setPrev (some n) x).setNext (some n) y).setPrev y (some n)).setNext x (some n)

/-- Make `x` and `y` neighbours. -/
def joinLinks (l : LinkedList P) (x y : Option P) : LinkedList P :=
  (l.setNext x y).setPrev y x

attribute [local simp] LinkedList.linkBetween LinkedList.joinLinks

lemma Represents.linkBetween {n : P}
    (h : l.Represents (pre ++ post)) (hn : n ∉ pre ++ post) :
    (l.linkBetween pre.getLast? n post.head?).Represents (pre ++ n :: post) := by
  have hx : pre.getLast? ≠ some n := fun e =>
    hn (mem_append_left _ (mem_of_mem_getLast? (mem_def.mpr e)))
  have hy : post.head? ≠ some n := fun e =>
    hn (mem_append_right _ (mem_of_mem_head? (mem_def.mpr e)))
  have hring : ∀ q ∈ ring (pre ++ post), q ≠ some n := by
    rintro q hq rfl
    simp only [ring] at hq
    simp_all
  obtain ⟨hpre, -, -, hpost⟩ := links_ring_append.mp h.links
  have halves : (l.linkBetween pre.getLast? n post.head?).Links (none :: pre.map some) ∧
      (l.linkBetween pre.getLast? n post.head?).Links (post.map some ++ [none]) :=
    links_halves h.nodup hpre hpost (fun q hq hne => by simp [hne, hring q hq])
    fun q hq hne => by simp [hne, hring q hq]
  obtain ⟨ys, hys⟩ := exists_eq_cons post
  refine ⟨nodup_middle.mpr (nodup_cons.mpr ⟨hn, h.nodup⟩), ?_⟩
  rw [links_ring_append]
  refine ⟨halves.1, ?_, ?_, ?_⟩
  · simp
  · simp [hy.symm, -prevOf_some]
  · rw [map_cons, cons_append, hys, links_cons_cons, ← hys]
    exact ⟨by simp [hx.symm, -nextOf_some],
      by simp, halves.2⟩

lemma Represents.joinLinks {a : P}
    (h : l.Represents (pre ++ a :: post)) :
    (l.joinLinks pre.getLast? post.head?).Represents (pre ++ post) := by
  obtain ⟨hpre, -, -, hrest⟩ := links_ring_append.mp h.links
  have hpost : l.Links (post.map some ++ [none]) := by
    obtain ⟨ys, hys⟩ := exists_eq_cons post
    rw [map_cons, cons_append, hys] at hrest
    rw [hys]
    exact hrest.2.2
  have hnodup : (pre ++ post).Nodup := (nodup_cons.mp (nodup_middle.mp h.nodup)).2
  have halves : (l.joinLinks pre.getLast? post.head?).Links (none :: pre.map some) ∧
      (l.joinLinks pre.getLast? post.head?).Links (post.map some ++ [none]) :=
    links_halves hnodup hpre hpost (fun q _ hne => by simp [hne])
    fun q _ hne => by simp [hne]
  refine ⟨hnodup, links_ring_append.mpr ⟨halves.1, ?_, ?_, halves.2⟩⟩
  · simp
  · simp

/-! ## The operations -/

def insertAfter (l : LinkedList P) (node newNode : P) : LinkedList P :=
  let l := { l with prev := Function.update l.prev newNode (some node) }
  let l := { l with next := Function.update l.next newNode (l.next node) }
  let l := match l.next node with
    | none => { l with mLast := some newNode }
    | some n => { l with prev := Function.update l.prev n (some newNode) }
  { l with next := Function.update l.next node (some newNode) }

def insertBefore (l : LinkedList P) (node newNode : P) : LinkedList P :=
  let l := { l with prev := Function.update l.prev newNode (l.prev node) }
  let l := { l with next := Function.update l.next newNode (some node) }
  let l := match l.prev node with
    | none => { l with mFirst := some newNode }
    | some p => { l with next := Function.update l.next p (some newNode) }
  { l with prev := Function.update l.prev node (some newNode) }

def insertHead (l : LinkedList P) (newNode : P) : LinkedList P :=
  match l.mFirst with
  | none =>
    { l with
      mFirst := some newNode, mLast := some newNode
      prev := Function.update l.prev newNode none, next := Function.update l.next newNode none }
  | some first =>
    let l := { l with prev := Function.update l.prev newNode none }
    let l := { l with next := Function.update l.next newNode (some first) }
    let l := { l with prev := Function.update l.prev first (some newNode) }
    { l with mFirst := some newNode }

def remove (l : LinkedList P) (node : P) : LinkedList P :=
  let l := match l.prev node with
    | none => { l with mFirst := l.next node }
    | some p => { l with next := Function.update l.next p (l.next node) }
  match l.next node with
  | none => { l with mLast := l.prev node }
  | some n => { l with prev := Function.update l.prev n (l.prev node) }

lemma insertAfter_eq (l : LinkedList P) (hne : newNode ≠ node) :
    l.insertAfter node newNode = l.linkBetween (some node) newNode (l.next node) := by
  simp [insertAfter, setPrev, setNext, update_of_ne hne.symm]

lemma insertBefore_eq (l : LinkedList P) (hne : newNode ≠ node) :
    l.insertBefore node newNode = l.linkBetween (l.prev node) newNode (some node) := by
  simp only [insertBefore, linkBetween, setPrev, setNext, update_of_ne hne.symm]
  cases l.prev node <;> simp

lemma insertHead_eq (l : LinkedList P) (newNode : P) :
    l.insertHead newNode = l.linkBetween none newNode l.mFirst := by
  cases hfirst : l.mFirst with
  | none | some first => simp [insertHead, setPrev, setNext, hfirst]

lemma remove_eq (l : LinkedList P) (hne : l.prev node ≠ some node) :
    l.remove node = l.joinLinks (l.prev node) (l.next node) := by
  cases hprev : l.prev node with
  | none => cases hnext : l.next node <;> simp [remove, setPrev, setNext, hprev, hnext]
  | some p =>
    have hp : node ≠ p := fun e => hne (by rw [hprev, e])
    cases hnext : l.next node <;>
      simp [remove, setPrev, setNext, hprev, hnext, update_of_ne hp]

namespace Represents

variable {l : LinkedList P} {pre post : List P} {a n : P}

theorem insertAfter (h : l.Represents (pre ++ a :: post)) (hn : n ∉ pre ++ a :: post) :
    (l.insertAfter a n).Represents (pre ++ a :: n :: post) := by
  have hne : n ≠ a := by rintro rfl; simp at hn
  rw [l.insertAfter_eq hne, h.next_eq]
  rw [append_cons] at h hn ⊢
  simpa using h.linkBetween hn

theorem insertBefore (h : l.Represents (pre ++ a :: post)) (hn : n ∉ pre ++ a :: post) :
    (l.insertBefore a n).Represents (pre ++ n :: a :: post) := by
  have hne : n ≠ a := by rintro rfl; simp at hn
  rw [l.insertBefore_eq hne, h.prev_eq]
  exact h.linkBetween hn

theorem insertHead (h : l.Represents as) (hn : n ∉ as) : (l.insertHead n).Represents (n :: as) := by
  rw [l.insertHead_eq, h.mFirst_eq]
  exact linkBetween (show l.Represents ([] ++ as) from h) hn

theorem remove (h : l.Represents (pre ++ a :: post)) : (l.remove a).Represents (pre ++ post) := by
  rw [l.remove_eq h.prev_ne_self, h.prev_eq, h.next_eq]
  exact h.joinLinks

end Represents

end Edit

/-- The list of a fresh head. -/
lemma represents_nil (prev next : P → Option P) :
    Represents ⟨none, none, prev, next⟩ ([] : List P) := ⟨nodup_nil, rfl, rfl, trivial⟩

end LinkedList

end Droid
