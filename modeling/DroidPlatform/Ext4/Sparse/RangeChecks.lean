import DroidPlatform.Ext4.Sparse.OutputFile

/-!
# The range checks of the writers

`write_data_block`, `write_fill_block` and `write_data_file` begin alike: `error` is called if the data
would end past the end of the filesystem.  The bound is coded three times, as the sum of an unsigned
64-bit offset and a length of the type `int`.  The sum may wrap around, and `write_data_file` compares
by `>=`: a chunk from a file that ends where the filesystem ends is refused.  `ext2simg` queues such a
chunk whenever the last block is used.

`ranges_exact_iff` says for which ranges the three checks are right.
-/

namespace Droid.Ext4

/-- How the writers begin: the number in `attempted to write block %llu past end of filesystem`, if
this is printed. -/
def pastEnd (past : UInt64 → UInt64 → Bool) (info : ImageInfo) (off : UInt64) (len : ℕ) :
    Option UInt64 :=
  if past (off + .ofNat len) (.ofNat info.len) then some (off + .ofNat len - .ofNat info.len) else none

def write_data_block_pastEnd := pastEnd (· > ·)

def write_fill_block_pastEnd := pastEnd (· > ·)

def write_data_file_pastEnd := pastEnd (· ≥ ·)

variable {info : ImageInfo} {off : UInt64} {len : ℕ}

lemma isSome_pastEnd (past : UInt64 → UInt64 → Bool) :
    (pastEnd past info off len).isSome ↔ past (off + .ofNat len) (.ofNat info.len) := by
  rw [pastEnd]
  split_ifs with h <;> simp [h]

section Checks

variable (hinfo : info.len < 2 ^ 63) (hlen : len < 2 ^ 31)

include hlen in
lemma toNat_end : (off + .ofNat len).toNat = (off.toNat + len) % 2 ^ 64 := by
  rw [UInt64.toNat_add, UInt64.toNat_ofNat', Nat.mod_eq_of_lt (by omega : len < 2 ^ 64)]

include hinfo in
lemma toNat_len : (UInt64.ofNat info.len).toNat = info.len := by
  rw [UInt64.toNat_ofNat', Nat.mod_eq_of_lt (by omega)]

include hinfo hlen

lemma write_data_block_pastEnd_iff :
    (write_data_block_pastEnd info off len).isSome ↔ info.len < (off.toNat + len) % 2 ^ 64 := by
  rw [write_data_block_pastEnd, isSome_pastEnd, decide_eq_true_iff, gt_iff_lt, UInt64.lt_iff_toNat_lt,
    toNat_end hlen, toNat_len hinfo]

lemma write_data_file_pastEnd_iff :
    (write_data_file_pastEnd info off len).isSome ↔ info.len ≤ (off.toNat + len) % 2 ^ 64 := by
  rw [write_data_file_pastEnd, isSome_pastEnd, decide_eq_true_iff, ge_iff_le, UInt64.le_iff_toNat_le,
    toNat_end hlen, toNat_len hinfo]

/-- The checks are those of the writers, as long as the sum does not wrap around: what is past the end
is not written. -/
lemma writers_refuse (hsum : off.toNat + len < 2 ^ 64) (force : Bool) (out : OutputFile) :
    (∀ data, data.length = len → (write_data_block_pastEnd info off len).isSome →
      out.write_data_block info force off.toNat data = out.error force) ∧
    (∀ fill_val, (write_fill_block_pastEnd info off len).isSome →
      out.write_fill_block info force off.toNat fill_val len = out.error force) ∧
    ∀ contents offset, (write_data_file_pastEnd info off len).isSome →
      out.write_data_file info force off.toNat contents offset len = out.error force := by
  have hblock := @write_data_block_pastEnd_iff info off len hinfo hlen
  have hfile := @write_data_file_pastEnd_iff info off len hinfo hlen
  rw [Nat.mod_eq_of_lt hsum] at hblock hfile
  refine ⟨fun data hdata h => ?_, fun fill_val h => ?_, fun contents offset h => ?_⟩
  · exact if_pos (hdata ▸ hblock.mp h)
  · exact if_pos (hblock.mp h)
  · exact if_pos (hfile.mp h)

end Checks

/-- **The three writers report exactly what is past the end** if and only if the range ends before the
end of the filesystem, or behind it even when the sum wraps around. -/
theorem ranges_exact_iff (info : ImageInfo) (hinfo : info.len < 2 ^ 63) (off : UInt64) (len : ℕ)
    (hlen : len < 2 ^ 31) :
    (((write_data_block_pastEnd info off len).isSome ↔ info.len < off.toNat + len) ∧
      ((write_fill_block_pastEnd info off len).isSome ↔ info.len < off.toNat + len) ∧
      ((write_data_file_pastEnd info off len).isSome ↔ info.len < off.toNat + len)) ↔
    off.toNat + len < info.len ∨ info.len < (off.toNat + len) % 2 ^ 64 := by
  have hfill : write_fill_block_pastEnd = write_data_block_pastEnd := rfl
  rw [hfill, write_data_block_pastEnd_iff hinfo hlen, write_data_file_pastEnd_iff hinfo hlen]
  omega

theorem ranges_exact_iff_first : (write_data_file_pastEnd ⟨8192, 4096⟩ 0 4096).isSome ↔
    8192 < (0 : UInt64).toNat + 4096 :=
  ((ranges_exact_iff ⟨8192, 4096⟩ (by decide) 0 4096 (by decide)).mpr (.inl (by decide))).2.2

/-- The last block of a filesystem of two blocks is written from a buffer, but not from a file; and no
writer notices an end that wraps around. -/
theorem ranges_not_exact :
    (write_data_block_pastEnd ⟨8192, 4096⟩ 4096 4096 = none ∧
      write_data_file_pastEnd ⟨8192, 4096⟩ 4096 4096 = some 0) ∧
    write_data_block_pastEnd ⟨8192, 4096⟩ 0xfffffffffffff000 4096 = none ∧
      write_fill_block_pastEnd ⟨8192, 4096⟩ 0xfffffffffffff000 4096 = none ∧
      write_data_file_pastEnd ⟨8192, 4096⟩ 0xfffffffffffff000 4096 = none := by
  decide +kernel

end Droid.Ext4
