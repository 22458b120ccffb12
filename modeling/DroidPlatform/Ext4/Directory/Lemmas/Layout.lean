import DroidPlatform.Core.Packing
import DroidPlatform.Ext4.Directory.MakeDirectory

/-!
# Records in the buffer

`Stored m p es` says that the records `es` are in memory one after the other, from `p` on.  `LaidOut` is
the invariant of a directory that is being filled: its records are stored from the beginning on, are
aligned and long enough, and stay within the blocks.

Each step of `make_directory` keeps it: a record is stored where it fits (`LaidOut.store`), and the last
record is made longer up to the end of its block (`LaidOut.padToBlock`).
-/

namespace Droid.Ext4

open List Nat DirEntry

open Packing

/-! ## One record -/

namespace DirEntry

/-- The part of a record that the directory is about. -/
def content (e : DirEntry) : ℕ × List UInt8 × UInt8 := (e.inode, e.name, e.file_type)

/-- A record that is aligned and has room for its name. -/
structure Proper (e : DirEntry) : Prop where
  aligned : 4 ∣ e.rec_len
  room : 8 + e.name.length ≤ e.rec_len
  name : e.name.length < 2 ^ 8
  inode : e.inode < 2 ^ 32

@[simp] lemma length_encode (e : DirEntry) : e.encode.length = 8 + e.name.length := by
  have hfields : (joinFields e.fields).length = 8 := by simp [fields, joinFields]
  rw [encode, length_append, hfields]

variable {e : DirEntry} {m : Memory} {p : ℕ}

lemma decode_of_holds (h : m.Holds p e.encode) (he : e.Proper) (hlen : e.rec_len < 2 ^ 16) :
    decode m p = e := by
  rw [encode, Memory.holds_append] at h
  have hfields : splitFields [4, 2, 1, 1] (m.slice p 8) =
      [e.inode, e.rec_len, e.name.length, e.file_type.toNat] := by
    rw [h.1.slice_eq (by simp [fields, joinFields])]
    show splitFields (e.fields.map Prod.fst) _ = e.fields.map Prod.snd
    refine splitFields_joinFields ?_
    have hinode := he.inode
    have hname := he.name
    have htype := e.file_type.toNat_lt
    simp only [fields, forall_mem_cons, not_mem_nil, false_implies, implies_true, and_true]
    refine ⟨?_, ?_, ?_, ?_⟩ <;> omega
  have hname : m.slice (p + 8) e.name.length = e.name := by
    have hlen : (joinFields e.fields).length = 8 := by simp [fields, joinFields]
    exact hlen ▸ h.2
  simp [decode, hfields, hname]

/-- Only the length of a record is stored anew. -/
lemma holds_write_rec_len (h : m.Holds p e.encode) (n : ℕ) :
    (m.write (p + 4) (toBytes 2 n)).Holds p (encode { e with rec_len := n }) := by
  simp only [encode, fields, joinFields, flatMap_cons, flatMap_nil, append_nil, append_assoc,
    Memory.holds_append] at h ⊢
  obtain ⟨hinode, -, hname_len, htype, hname⟩ := h
  refine ⟨hinode.write ?_, Memory.holds_write, hname_len.write ?_, htype.write ?_, hname.write ?_⟩
  all_goals simp only [length_toBytes]; omega

end DirEntry

/-! ## All records -/

/-- The records are stored from `p` on. -/
def Stored (m : Memory) : ℕ → List DirEntry → Prop
  | _, [] => True
  | p, e :: es => m.Holds p e.encode ∧ Stored m (p + e.rec_len) es

/-- The length of the records. -/
def totalLen (es : List DirEntry) : ℕ := (es.map DirEntry.rec_len).sum

@[simp] lemma totalLen_nil : totalLen [] = 0 := rfl

@[simp] lemma totalLen_cons (e : DirEntry) (es : List DirEntry) :
    totalLen (e :: es) = e.rec_len + totalLen es := by simp [totalLen]

@[simp] lemma totalLen_append (es es' : List DirEntry) :
    totalLen (es ++ es') = totalLen es + totalLen es' := by simp [totalLen]

variable {m : Memory} {p : ℕ} {e : DirEntry} {es es' : List DirEntry}

lemma stored_append :
    Stored m p (es ++ es') ↔ Stored m p es ∧ Stored m (p + totalLen es) es' := by
  induction es generalizing p with
  | nil => simp [Stored]
  | cons e es ih => simp [Stored, ih, and_assoc, add_assoc]

/-- A store behind the records leaves them. -/
lemma Stored.write (h : Stored m p es) (hes : ∀ e ∈ es, e.Proper) {start : ℕ}
    (hstart : p + totalLen es ≤ start) (bytes : List UInt8) :
    Stored (m.write start bytes) p es := by
  induction es generalizing p with
  | nil => trivial
  | cons e es ih =>
    obtain ⟨he, hrest⟩ := h
    have hroom := (hes e mem_cons_self).room
    rw [totalLen_cons] at hstart
    refine ⟨he.write (.inl ?_), ih hrest (fun q hq => hes q (mem_cons_of_mem _ hq)) ?_⟩
    · rw [length_encode]
      omega
    · omega

/-- A directory that is being filled. -/
structure LaidOut (bs : ℕ) (data : Buffer) (es : List DirEntry) : Prop where
  stored : Stored data.bytes 0 es
  within : Within bs 0 (es.map DirEntry.rec_len)
  proper : ∀ e ∈ es, e.Proper

namespace LaidOut

variable {bs : ℕ} {data : Buffer}

lemma dvd_totalLen (h : LaidOut bs data es) : 4 ∣ totalLen es :=
  dvd_sum fun n hn => by
    obtain ⟨e, he, rfl⟩ := mem_map.mp hn
    exact (h.proper e he).aligned

/-- One more record. -/
lemma store (h : LaidOut bs data es) (he : e.Proper) (hfit : totalLen es % bs + e.rec_len ≤ bs)
    (hlen : totalLen es + e.rec_len ≤ data.len) :
    ∃ data', data.store (totalLen es) e.encode = .ok data' ∧ data'.len = data.len ∧
      LaidOut bs data' (es ++ [e]) := by
  have hroom := he.room
  refine ⟨_, if_pos ?_, rfl, ?_, ?_, ?_⟩
  · rw [length_encode]
    omega
  · rw [stored_append, zero_add]
    refine ⟨h.stored.write h.proper (zero_add _).le _, Memory.holds_write, trivial⟩
  · rw [map_append, within_append, zero_add]
    exact ⟨h.within, hfit, trivial⟩
  · intro q hq
    rcases mem_append.mp hq with hq | hq
    · exact h.proper q hq
    · rwa [mem_singleton.mp hq]

/-- The last record gets longer. -/
lemma lengthen (h : LaidOut bs data (es ++ [e])) {n : ℕ} (hn : 4 ∣ n) (hle : e.rec_len ≤ n)
    (hfit : totalLen es % bs + n ≤ bs) (hlen : totalLen (es ++ [e]) ≤ data.len) :
    ∃ data', data.store (totalLen es + 4) (toBytes 2 n) = .ok data' ∧ data'.len = data.len ∧
      LaidOut bs data' (es ++ [{ e with rec_len := n }]) := by
  obtain ⟨hstored, hwithin, hproper⟩ := h
  rw [stored_append, zero_add] at hstored
  rw [map_append, within_append] at hwithin
  have he : e.Proper := hproper e (by simp)
  have hroom := he.room
  rw [totalLen_append, totalLen_cons] at hlen
  refine ⟨_, if_pos ?_, rfl, ?_, ?_, ?_⟩
  · rw [length_toBytes]
    omega
  · rw [stored_append, zero_add]
    refine ⟨hstored.1.write (fun q hq => hproper q (by simp [hq])) (by omega) _, ?_, trivial⟩
    exact holds_write_rec_len hstored.2.1 n
  · rw [map_append, within_append, zero_add]
    exact ⟨hwithin.1, hfit, trivial⟩
  · intro q hq
    rcases mem_append.mp hq with hq | hq
    · exact hproper q (by simp [hq])
    · rw [mem_singleton.mp hq]
      exact ⟨hn, hroom.trans hle, he.name, he.inode⟩

end LaidOut

/-! ## The steps of `make_directory` -/

section

variable {info : FsInfo} {data : Buffer} {n : ℕ}
  (hbs : 1024 ≤ info.block_size ∧ info.block_size ≤ 4096) {name : List UInt8}
  {dir_inode_num inode inode_num len offset : ℕ}

/-- A record that fits is not moved. -/
lemma padToBlock_of_fit (prev : Option ℕ) (hbs : 0 < info.block_size) (hn : 0 < n)
    (hlt : offset + n < 2 ^ 32) (hfit : offset % info.block_size + n ≤ info.block_size) :
    padToBlock info data offset prev n = .ok (data, offset) := by
  have hend : toUInt32 (offset + n - 1) = offset + n - 1 := toUInt32_eq_self (by omega)
  rw [padToBlock.eq_def, hend]
  rw [if_neg (not_not.mpr ((div_eq_iff hbs hn offset).mpr hfit))]

include hbs in
/-- **Room for a record.**  The last record ends where the next one fits. -/
lemma LaidOut.padToBlock (h4 : 4 ∣ info.block_size) (h : LaidOut info.block_size data (es ++ [e]))
    (hn : 0 < n) (hn' : n ≤ info.block_size) (hdata : data.len < 2 ^ 32)
    (hlen : fit info.block_size (totalLen (es ++ [e])) n + n ≤ data.len) :
    ∃ data' e', padToBlock info data (totalLen (es ++ [e])) (some (totalLen es)) n =
        .ok (data', totalLen (es ++ [e'])) ∧
      data'.len = data.len ∧ LaidOut info.block_size data' (es ++ [e']) ∧
      e'.content = e.content ∧
      totalLen (es ++ [e']) = fit info.block_size (totalLen (es ++ [e])) n := by
  have hpos : 0 < info.block_size := by omega
  set off := totalLen (es ++ [e]) with hoff
  set next := fit info.block_size off n
  have hle : off ≤ next := le_fit hpos off n
  by_cases hfit : off % info.block_size + n ≤ info.block_size
  · have hsame : next = off := if_pos hfit
    exact ⟨data, e, padToBlock_of_fit _ hpos hn (by omega) hfit, rfl, h, rfl, hsame.symm⟩
  · have hnext : next = (off / info.block_size + 1) * info.block_size := if_neg hfit
    have hend : toUInt32 (off + n - 1) = off + n - 1 := toUInt32_eq_self (by omega)
    have hcross := div_of_cross hpos hn' hfit
    have hlast : totalLen es % info.block_size + e.rec_len ≤ info.block_size := by
      have hwithin := h.within
      rw [map_append, within_append, zero_add] at hwithin
      exact hwithin.2.1
    have hrec : (decode data.bytes (totalLen es)).rec_len = e.rec_len := by
      have hstored := h.stored
      rw [stored_append, zero_add] at hstored
      rw [decode_of_holds hstored.2.1 (h.proper e (by simp)) (by omega)]
    have hsum : off = totalLen es + e.rec_len := by simp [hoff]
    have hdvd : 4 ∣ next := dvd_fit h4 h.dvd_totalLen
    have hpad := mod_add_pad hpos hn' hlast (hsum ▸ hfit)
    rw [← hsum, ← hnext] at hpad
    obtain ⟨data', hstore, hlen', hlaid⟩ := h.lengthen
      ((h.proper e (by simp)).aligned.add (dvd_sub hdvd h.dvd_totalLen))
      (le_add_right _ _) hpad.le (by omega)
    have htotal : totalLen (es ++ [{ e with rec_len := e.rec_len + (next - off) }]) = next := by
      simp only [totalLen_append, totalLen_cons, totalLen_nil]
      omega
    refine ⟨data', _, ?_, hlen', hlaid, rfl, htotal⟩
    have hsub : toUInt32 (next + 2 ^ 32 - off) = next - off := by
      rw [toUInt32]
      omega
    have hpadded : toUInt16 (e.rec_len + (next - off)) = e.rec_len + (next - off) :=
      mod_eq_of_lt (by omega)
    rw [padToBlock.eq_def, hend, hcross]
    dsimp only
    rw [if_pos (by omega), ← hnext, hsub, hrec, hpadded, hstore,
      toUInt32_eq_self (show next < 2 ^ 32 by omega), htotal]
    rfl

/-- How many bytes a record with this name needs. -/
def need (name : List UInt8) : ℕ := 8 + align name.length 4

lemma need_le (hname : name.length ≤ 255) :
    4 ∣ need name ∧ 8 + name.length ≤ need name ∧ need name ≤ 264 := by
  rw [need, align, divRoundUp]
  omega

/-- The record that `add_dentry` stores. -/
def newEntry (inode : ℕ) (name : List UInt8) (file_type : UInt8) : DirEntry :=
  { inode, rec_len := need name, file_type, name }

lemma newEntry_proper (file_type : UInt8) (hinode : inode < 2 ^ 32) (hname : name.length ≤ 255) :
    (newEntry inode name file_type).Proper :=
  ⟨(need_le hname).1, (need_le hname).2.1, lt_succ_of_le hname, hinode⟩

@[simp] lemma content_newEntry (inode : ℕ) (name : List UInt8) (file_type : UInt8) :
    (newEntry inode name file_type).content = (inode, name, file_type) := rfl

/-- `add_dentry`, once it is known where the record goes. -/
lemma add_dentry_eq {offset' : ℕ} {prev : Option ℕ} (file_type : UInt8) {data1 data' : Buffer}
    (hname : name.length ≤ 255)
    (hpad : padToBlock info data offset prev (need name) = .ok (data1, offset'))
    (hstore : data1.store offset' (newEntry inode name file_type).encode = .ok data')
    (hlt : offset' + need name < 2 ^ 32) :
    add_dentry info data offset prev inode name file_type =
      .ok (data', offset' + need name, offset') := by
  have hmod : name.length % 2 ^ 8 = name.length := mod_eq_of_lt (lt_succ_of_le hname)
  have hneed : toUInt16 (8 + align name.length 4) = need name := by
    have hle := (need_le hname).2.2
    exact mod_eq_of_lt (show need name < 2 ^ 16 by omega)
  rw [newEntry] at hstore
  rw [add_dentry, hmod, hneed, hpad, take_length]
  simp only [bind, Except.bind, hstore, toUInt32_eq_self hlt, pure, Except.pure]

include hbs in
section

variable (h4 : 4 ∣ info.block_size)

include h4

/-- **One entry.** -/
lemma LaidOut.add_dentry (h : LaidOut info.block_size data (es ++ [e])) (file_type : UInt8)
    (hinode : inode < 2 ^ 32) (hname : name.length ≤ 255) (hdata : data.len < 2 ^ 32)
    (hlen : fit info.block_size (totalLen (es ++ [e])) (need name) + need name ≤ data.len) :
    ∃ data' e', add_dentry info data (totalLen (es ++ [e])) (some (totalLen es)) inode name
        file_type = .ok (data', totalLen (es ++ [e'] ++ [newEntry inode name file_type]),
          totalLen (es ++ [e'])) ∧
      data'.len = data.len ∧
      LaidOut info.block_size data' (es ++ [e'] ++ [newEntry inode name file_type]) ∧
      e'.content = e.content ∧
      totalLen (es ++ [e'] ++ [newEntry inode name file_type]) =
        fit info.block_size (totalLen (es ++ [e])) (need name) + need name := by
  obtain ⟨-, hroom, hneed⟩ := need_le hname
  obtain ⟨data1, e', hpad, hlen1, hlaid1, hcontent, htotal⟩ :=
    h.padToBlock hbs h4 (by omega) (by omega) hdata hlen
  have hproper := newEntry_proper file_type hinode hname
  have hfit : totalLen (es ++ [e']) % info.block_size + need name ≤ info.block_size := by
    rw [htotal]
    exact fit_mod_add_le (by omega) _
  obtain ⟨data', hstore, hlen', hlaid'⟩ := hlaid1.store hproper hfit
    (show totalLen (es ++ [e']) + need name ≤ data1.len by omega)
  have hend : totalLen (es ++ [e'] ++ [newEntry inode name file_type]) =
      totalLen (es ++ [e']) + need name := by
    rw [totalLen_append]
    rfl
  refine ⟨data', e', ?_, hlen'.trans hlen1, hlaid', hcontent, by rw [hend, htotal]⟩
  rw [hend]
  exact add_dentry_eq file_type hname hpad hstore (by omega)

include hbs in
/-- **All entries.** -/
lemma LaidOut.addDentries {dentries : List Dentry}
    (hnames : ∀ d ∈ dentries, d.filename.length ≤ 255) :
    ∀ {data : Buffer} {es : List DirEntry} {e : DirEntry},
      LaidOut info.block_size data (es ++ [e]) → data.len < 2 ^ 32 →
      pack info.block_size (totalLen (es ++ [e])) (dentries.map fun d => need d.filename) <
        data.len →
      ∃ data' es' e' inodes,
        addDentries info data.len dentries data (totalLen (es ++ [e])) (totalLen es) =
          .ok (data', totalLen (es' ++ [e']), totalLen es', inodes) ∧
        data'.len = data.len ∧ LaidOut info.block_size data' (es' ++ [e']) ∧
        (es' ++ [e']).map content = (es ++ [e]).map content ++
          dentries.map (fun d => (0, d.filename, d.file_type)) ∧
        totalLen (es' ++ [e']) = pack info.block_size (totalLen (es ++ [e]))
          (dentries.map fun d => need d.filename) := by
  induction dentries with
  | nil =>
    intro data es e h _ _
    exact ⟨data, es, e, [], rfl, rfl, h, by simp, rfl⟩
  | cons d dentries ih =>
    intro data es e h hdata hpack
    rw [map_cons, pack_cons] at hpack
    have hle := le_pack (show 0 < info.block_size by omega)
      (fit info.block_size (totalLen (es ++ [e])) (need d.filename) + need d.filename)
      (dentries.map fun d => need d.filename)
    obtain ⟨data1, e1, hadd, hlen1, hlaid1, hcontent1, htotal1⟩ :=
      h.add_dentry hbs h4 d.file_type (show 0 < 2 ^ 32 by norm_num)
        (hnames d mem_cons_self) hdata (by omega)
    obtain ⟨data', es', e', inodes, hrest, hlen', hlaid', hcontent', htotal'⟩ :=
      ih (fun q hq => hnames q (mem_cons_of_mem _ hq)) hlaid1 (by omega)
        (by rw [htotal1]; omega)
    rw [htotal1] at htotal'
    refine ⟨data', es', e', totalLen (es ++ [e1]) :: inodes, ?_, hlen'.trans hlen1, hlaid', ?_,
      htotal'⟩
    · have hcheck : ¬ (totalLen (es ++ [e1] ++ [newEntry 0 d.filename d.file_type]) > data.len ∨
          totalLen (es ++ [e1] ++ [newEntry 0 d.filename d.file_type]) = data.len ∧
            dentries ≠ []) := by omega
      rw [hlen1] at hrest
      rw [Ext4.addDentries, hadd]
      simp only [bind, Except.bind, if_neg hcheck, hrest, pure, Except.pure]
    · rw [hcontent']
      simp [hcontent1]

include hbs in
/-- **The first two entries.** -/
lemma add_dots (hinode : inode_num < 2 ^ 32) (hdir : dir_inode_num < 2 ^ 32) (hlt : len < 2 ^ 32)
    (hlen : 24 ≤ len) :
    ∃ data1 data2 es e,
      add_dentry info (.calloc len) 0 none inode_num [46] EXT4_FT_DIR = .ok (data1, 12, 0) ∧
      add_dentry info data1 12 (some 0) dir_inode_num [46, 46] EXT4_FT_DIR =
        .ok (data2, totalLen (es ++ [e]), totalLen es) ∧
      data2.len = len ∧ LaidOut info.block_size data2 (es ++ [e]) ∧ totalLen (es ++ [e]) = 24 ∧
      (es ++ [e]).map content =
        [(inode_num, [46], EXT4_FT_DIR), (dir_inode_num, [46, 46], EXT4_FT_DIR)] := by
  have hpos : 0 < info.block_size := by omega
  have hmod0 : 0 % info.block_size + 12 ≤ info.block_size := by
    rw [zero_mod]
    omega
  have hfit1 : fit info.block_size 12 12 = 12 := by
    refine if_pos ?_
    rw [mod_eq_of_lt (by omega)]
    omega
  have hempty : LaidOut info.block_size (.calloc len) [] := ⟨trivial, trivial, by simp⟩
  have hdot : (newEntry inode_num [46] EXT4_FT_DIR).Proper :=
    newEntry_proper _ hinode (by simp)
  obtain ⟨data1, hstore1, hlen1, hlaid1⟩ := hempty.store hdot hmod0 (show 0 + 12 ≤ len by omega)
  have hlen1' : data1.len = len := hlen1
  have hlaid1' : LaidOut info.block_size data1 ([] ++ [newEntry inode_num [46] EXT4_FT_DIR]) := hlaid1
  have hadd1 : add_dentry info (.calloc len) 0 none inode_num [46] EXT4_FT_DIR =
      .ok (data1, 12, 0) :=
    add_dentry_eq EXT4_FT_DIR (by simp) (padToBlock_of_fit none hpos (by decide)
      (show 0 + 12 < 2 ^ 32 by norm_num) hmod0) hstore1 (show 0 + 12 < 2 ^ 32 by norm_num)
  obtain ⟨data2, e, hadd2, hlen2, hlaid2, hcontent, htotal⟩ :=
    hlaid1'.add_dentry hbs h4 EXT4_FT_DIR hdir (show [46, 46].length ≤ 255 by simp) (by omega)
      (show fit info.block_size 12 12 + 12 ≤ data1.len by omega)
  refine ⟨data1, data2, [e], _, hadd1, hadd2, hlen2.trans hlen1', hlaid2, ?_, ?_⟩
  · rw [nil_append] at htotal
    exact htotal.trans (congrArg (· + 12) hfit1)
  · simp [hcontent]

include hbs in
/-- **The last record** fills the last block. -/
lemma LaidOut.finish (h : LaidOut info.block_size data (es ++ [e])) (hlt : data.len < 2 ^ 32)
    (hlen : data.len = (fit info.block_size (totalLen (es ++ [e])) 8 / info.block_size + 1) * info.block_size) :
    ∃ data1 data' offset e' last,
      Ext4.padToBlock info data (totalLen (es ++ [e])) (some (totalLen es)) REC_LEN_FOR_END =
        .ok (data1, offset) ∧
      data1.store offset (encode
        { inode := 0, rec_len := toUInt16 (data1.len + 2 ^ 32 - offset)
          file_type := EXT4_FT_UNKNOWN, name := [] }) = .ok data' ∧
      data'.len = data.len ∧ LaidOut info.block_size data' (es ++ [e'] ++ [last]) ∧
      totalLen (es ++ [e'] ++ [last]) = data.len ∧ e'.content = e.content ∧
      last.content = (0, [], EXT4_FT_UNKNOWN) := by
  have hmod := fit_mod_add_le (show 8 ≤ info.block_size by omega) (totalLen (es ++ [e]))
  have hdiv := div_add_mod (fit info.block_size (totalLen (es ++ [e])) 8) info.block_size
  have hdvd : 4 ∣ data.len := hlen ▸ h4.mul_left _
  rw [add_mul, mul_comm] at hlen
  obtain ⟨data1, e', hpad, hlen1, hlaid1, hcontent, htotal⟩ :=
    h.padToBlock hbs h4 (show 0 < 8 by norm_num) (by omega) hlt (by omega)
  set off := totalLen (es ++ [e'])
  have hrec : toUInt16 (data1.len + 2 ^ 32 - off) = data.len - off := by
    rw [toUInt16]
    omega
  have hproper : DirEntry.Proper
      { inode := 0, rec_len := data.len - off, file_type := EXT4_FT_UNKNOWN, name := [] } :=
    ⟨dvd_sub hdvd hlaid1.dvd_totalLen, show 8 + 0 ≤ data.len - off by omega, by simp, by norm_num⟩
  obtain ⟨data', hstore, hlen', hlaid'⟩ := hlaid1.store hproper
    (show off % info.block_size + (data.len - off) ≤ _ by
      rw [htotal]
      omega)
    (show off + (data.len - off) ≤ data1.len by omega)
  refine ⟨data1, data', _, e', _, hpad, by rw [hrec]; exact hstore, by omega, hlaid', ?_,
    hcontent, rfl⟩
  rw [totalLen_append, totalLen_cons]
  show off + (data.len - off + 0) = data.len
  omega

include hbs in
/-- **The whole directory.**  The records stay within the blocks, and are those that they should be. -/
lemma fillDirectory_spec {dentries : List Dentry} (hnames : ∀ d ∈ dentries, d.filename.length ≤ 255)
    (hinode : inode_num < 2 ^ 32) (hdir : dir_inode_num < 2 ^ 32) (hlt : len < 2 ^ 32)
    (hlen : len = (fit info.block_size (pack info.block_size 24 (dentries.map fun d => need d.filename)) 8 / info.block_size + 1) * info.block_size) :
    ∃ data inodes es, fillDirectory info (.calloc len) inode_num dir_inode_num dentries =
        .ok (data, inodes) ∧
      data.len = len ∧ LaidOut info.block_size data es ∧ totalLen es = len ∧
      es.map content =
        [(inode_num, [46], EXT4_FT_DIR), (dir_inode_num, [46, 46], EXT4_FT_DIR)] ++
          dentries.map (fun d => (0, d.filename, d.file_type)) ++ [(0, [], EXT4_FT_UNKNOWN)] := by
  have hpos : 0 < info.block_size := by omega
  have hpack := le_pack hpos 24 (dentries.map fun d => need d.filename)
  have hfit := le_fit hpos (pack info.block_size 24 (dentries.map fun d => need d.filename)) 8
  have hend := lt_div_add_one_mul hpos
    (fit info.block_size (pack info.block_size 24 (dentries.map fun d => need d.filename)) 8)
  obtain ⟨data1, data2, es, e, hadd1, hadd2, hlen2, hlaid2, htotal2, hcontent2⟩ :=
    add_dots hbs h4 hinode hdir hlt (by omega)
  obtain ⟨data3, es', e', inodes, hadd3, hlen3, hlaid3, hcontent3, htotal3⟩ :=
    hlaid2.addDentries hbs h4 hnames (by omega) (by rw [htotal2]; omega)
  rw [htotal2] at htotal3
  obtain ⟨data4, data', offset, e'', last, hpad, hstore, hlen', hlaid', htotal', hcontent', hlast⟩ :=
    hlaid3.finish hbs h4 (by omega) (by rw [htotal3]; omega)
  refine ⟨data', inodes, _, ?_, by omega, hlaid', by omega, ?_⟩
  · rw [fillDirectory, hadd1]
    simp only [bind, Except.bind, hadd2, hadd3, hpad, hstore, pure, Except.pure]
  · have hmid : (es' ++ [e'']).map content = (es' ++ [e']).map content := by
      simp [hcontent']
    rw [map_append, hmid, hcontent3, hcontent2, map_singleton, hlast]

end

end

end Droid.Ext4
