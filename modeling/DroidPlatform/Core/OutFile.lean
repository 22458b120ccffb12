import DroidPlatform.Core.Bytes
import Mathlib.Data.List.GetD

/-!
# Files being written

A file is its size, its bytes and the position of the next write.  Beyond its size it reads as zero,
and so do the holes that a write behind the end leaves; the file carries the proof.

`Shows f l` says that everything up to the position was written and is `l`: writing appends, and
seeking forward from there appends zeros, whether or not the file is long enough yet.  `truncate`
then makes the size right (`Shows.contents_truncate`).

`pieces` are the sizes in which a loop with a bounded buffer handles a long range.
-/

namespace Droid

open List

/-- A file open for writing. -/
@[ext]
structure OutFile where
  size : ℕ
  bytes : Memory
  pos : ℕ
  zero : ∀ i, size ≤ i → bytes i = 0

namespace OutFile

/-- A new file. -/
def empty : OutFile := ⟨0, fun _ => 0, 0, fun _ _ => rfl⟩

def write (f : OutFile) (data : List UInt8) : OutFile where
  size := if data = [] then f.size else max f.size (f.pos + data.length)
  bytes := f.bytes.write f.pos data
  pos := f.pos + data.length
  zero i hi := by
    split_ifs at hi with hdata
    · rw [hdata, Memory.write_nil]
      exact f.zero i hi
    · rw [Memory.write_of_le (le_trans (le_max_right _ _) hi)]
      exact f.zero i (le_trans (le_max_left _ _) hi)

/-- `lseek` to a position. -/
def seek (f : OutFile) (pos : ℕ) : OutFile := { f with pos := pos }

/-- `ftruncate`. -/
def truncate (f : OutFile) (n : ℕ) : OutFile where
  size := n
  bytes i := if i < n then f.bytes i else 0
  pos := f.pos
  zero _ hi := if_neg (not_lt.mpr hi)

/-- Everything before the position is `l`, and nothing is behind it. -/
structure Shows (f : OutFile) (l : List UInt8) : Prop where
  pos : f.pos = l.length
  size : f.size ≤ l.length
  bytes : ∀ i, f.bytes i = l.getD i 0

variable {f : OutFile} {l : List UInt8}

@[simp] lemma write_nil (f : OutFile) : f.write [] = f :=
  OutFile.ext rfl Memory.write_nil rfl

/-- Two writes are one. -/
lemma write_write (f : OutFile) (a b : List UInt8) : (f.write a).write b = f.write (a ++ b) := by
  refine OutFile.ext ?_ (funext fun i => ?_) ?_
  · show (if b = [] then (if a = [] then f.size else max f.size (f.pos + a.length))
      else max (if a = [] then f.size else max f.size (f.pos + a.length))
        (f.pos + a.length + b.length)) =
      if a ++ b = [] then f.size else max f.size (f.pos + (a ++ b).length)
    rcases a with _ | ⟨x, a⟩ <;> rcases b with _ | ⟨y, b⟩ <;> simp
    omega
  · show (f.bytes.write f.pos a).write (f.pos + a.length) b i = f.bytes.write f.pos (a ++ b) i
    simp only [Memory.write]
    rcases lt_or_ge i f.pos with hi | hi
    · simp [not_le.mpr hi, show ¬ f.pos + a.length ≤ i by omega]
    · rcases lt_or_ge i (f.pos + a.length) with hi' | hi'
      · rw [if_neg (not_le.mpr hi'), if_pos hi, if_pos hi, getD_append _ _ _ _ (by omega)]
      · rw [if_pos hi', if_pos hi, if_pos hi, getD_append_right _ _ _ _ (by omega),
          getD_eq_default a _ (by omega), Nat.sub_sub]
  · show f.pos + a.length + b.length = f.pos + (a ++ b).length
    rw [length_append, add_assoc]

lemma shows_empty : empty.Shows [] := ⟨rfl, le_rfl, fun _ => rfl⟩

lemma Shows.write (h : f.Shows l) (data : List UInt8) : (f.write data).Shows (l ++ data) where
  pos := by
    show f.pos + data.length = _
    rw [h.pos, length_append]
  size := by
    show (if data = [] then f.size else max f.size (f.pos + data.length)) ≤ _
    rw [length_append, h.pos]
    have := h.size
    split_ifs <;> omega
  bytes i := by
    show f.bytes.write f.pos data i = _
    rw [Memory.write, h.pos]
    split_ifs with hi
    · rw [getD_append_right _ _ _ _ hi, h.bytes, getD_eq_default _ _ hi]
    · rw [getD_append _ _ _ _ (not_le.mp hi), h.bytes]

/-- Seeking forward leaves zeros. -/
lemma Shows.seek (h : f.Shows l) (n : ℕ) :
    (f.seek (f.pos + n)).Shows (l ++ replicate n 0) where
  pos := by
    show f.pos + n = _
    rw [h.pos, length_append, length_replicate]
  size := by
    rw [length_append]
    exact h.size.trans (Nat.le_add_right _ _)
  bytes i := by
    show f.bytes i = _
    rw [h.bytes]
    rcases lt_or_ge i l.length with hi | hi
    · rw [getD_append _ _ _ _ hi]
    · rw [getD_append_right _ _ _ _ hi, getD_eq_default _ _ hi]
      simp [getElem?_replicate]
      split_ifs <;> rfl

/-- The bytes of a file. -/
def contents (f : OutFile) : List UInt8 := f.bytes.slice 0 f.size

@[simp] lemma length_contents (f : OutFile) : f.contents.length = f.size := Memory.length_slice _

lemma contents_eq (hsize : f.size = l.length) (hbytes : ∀ i < l.length, f.bytes i = l.getD i 0) :
    f.contents = l := by
  refine ext_getElem (by rw [length_contents, hsize]) fun i hi hi' => ?_
  have hbyte := hbytes i hi'
  rw [getD_eq_getElem _ _ hi'] at hbyte
  simpa [contents, Memory.slice] using hbyte

/-- What is shown, cut or filled up to its length. -/
lemma Shows.contents_truncate (h : f.Shows l) : (f.truncate l.length).contents = l :=
  contents_eq rfl fun i hi => (if_pos hi).trans (h.bytes i)

lemma contents_empty_write (l : List UInt8) : (empty.write l).contents = l := by
  have h := shows_empty.write l
  refine contents_eq ?_ fun i _ => h.bytes i
  show (if l = [] then 0 else max 0 (0 + l.length)) = _
  split_ifs with hl <;> simp [hl]

end OutFile

/-! ## Pieces -/

/-- `while (len) { chunk = min(len, size); … len -= chunk; }`: the chunks, on fuel. -/
def piecesOn (size : ℕ) : ℕ → ℕ → List ℕ
  | 0, _ => []
  | fuel + 1, len =>
    if len = 0 then [] else min len size :: piecesOn size fuel (len - min len size)

/-- The chunks of a range. -/
def pieces (size len : ℕ) : List ℕ := piecesOn size len len

/-- **The loop rule.**  What one piece does from `a` to `a + n`, all pieces do from `0` to `len`. -/
lemma foldlM_pieces {σ : Type*} (step : σ → ℕ → Option σ) (R : ℕ → σ → Prop) {size : ℕ}
    (hsize : 0 < size) (len : ℕ) {s : σ} (hs : R 0 s)
    (hstep : ∀ a n s, size ∣ a → a + n ≤ len → n ≤ size → R a s →
      ∃ s', step s n = some s' ∧ R (a + n) s') :
    ∃ s', (pieces size len).foldlM step s = some s' ∧ R len s' := by
  suffices h : ∀ fuel a s, a ≤ len → len - a ≤ fuel → (a = len ∨ size ∣ a) → R a s →
      ∃ s', (piecesOn size fuel (len - a)).foldlM step s = some s' ∧ R len s' from
    h len 0 s (Nat.zero_le _) (Nat.sub_le _ _) (.inr (dvd_zero size)) hs
  intro fuel
  induction fuel with
  | zero =>
    intro a s ha hfuel _ hR
    obtain rfl : a = len := by omega
    exact ⟨s, rfl, hR⟩
  | succ fuel ih =>
    intro a s ha hfuel hdvd hR
    rw [piecesOn]
    split_ifs with hzero
    · obtain rfl : a = len := by omega
      exact ⟨s, rfl, hR⟩
    · have hdvd : size ∣ a := hdvd.resolve_left (by omega)
      obtain ⟨s', hs', hR'⟩ := hstep a (min (len - a) size) s hdvd (by omega) (by omega) hR
      obtain ⟨t, ht, hRt⟩ := ih (a + min (len - a) size) s' (by omega) (by omega) (by
        rcases le_total (len - a) size with hle | hle
        · exact .inl (by omega)
        · rw [min_eq_right hle]
          exact .inr (dvd_add hdvd (dvd_refl size))) hR'
      refine ⟨t, ?_, hRt⟩
      rw [foldlM_cons, hs']
      rw [Nat.sub_sub]
      exact ht

end Droid
