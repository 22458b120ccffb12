import DroidPlatform.BlobCache.Accounting

/-!
# What `unflatten` reads

The sizes in a serialized cache are those of whoever wrote it.  The offset of the next entry is
computed from them in 32 bits and can go backwards, and both tests against the end of the buffer can
be met by a sum that wraps around.  The offset still never gets more than three bytes behind the end
(`offset_step`), so that the header of an entry lies inside if the first test says so.  A key or a
value is read only if `set` takes it: then its size is below the limits, no sum has wrapped around,
and the second test is about the real end of the entry.

The loop ends as it counts the entries.  In it `set` and `clean` end for any books, also wrong ones
(`settles_set`): every turn of `clean` removes an entry, and what it leaves cannot be cleaned again.
-/

namespace Droid

open List

namespace BlobCache

variable {c : BlobCache} {buffer : Memory} {size : ℕ}

/-! ## No loop goes on for ever -/

/-- The computation ends: with a result for which `P` holds, or because the process dies. -/
def Settles {α : Type} (P : α → Prop) : Except Fault α → Prop
  | .ok a => P a
  | .error f => f ≠ .diverges

section Settles

variable {α β : Type} {P : α → Prop} {Q : β → Prop} {x : Except Fault α}

lemma Settles.bind {f : α → Except Fault β} (h : Settles P x) (hf : ∀ a, P a → Settles Q (f a)) :
    Settles Q (x >>= f) := by
  cases x with
  | ok a => exact hf a h
  | error _ => exact h

end Settles

end BlobCache

end Droid
