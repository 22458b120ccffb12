import DroidPlatform.Ext4.Allocator.Bookkeeping
import DroidPlatform.Ext4.Directory.Lemmas.Layout

/-!
# The directory is a linear directory

Walking the buffer that `make_directory` filled, record by record, gives `.`, `..`, the entries and one
record that is not used; the records stay within the blocks, are aligned, have room for their names and
end where the buffer does (`LinearDirectory`).  No store goes past the end of the buffer and
`critical_error` is not reached.

This is so if and only if the block size is a multiple of four, as those of ext4 are, and the length of
the directory, rounded up, is a number of 32 bits (`make_directory_iff`).  The length that
`dentry_size` computes is where `Packing.pack` ends, if it does not wrap around.  For the converse: no
linear directory with these entries is shorter (`Packing.pack_le`), and a length that wrapped around is.
-/

namespace Droid.Ext4

open List Nat

open Packing

/-! ## Linear directories -/

/-- The records from `p` on, on fuel. -/
def walkFrom (m : Memory) (len : ℕ) : ℕ → ℕ → List DirEntry
  | 0, _ => []
  | fuel + 1, p =>
    if p < len then DirEntry.decode m p :: walkFrom m len fuel (p + (DirEntry.decode m p).rec_len)
    else []

/-- The records of a directory.  Each has at least one byte, or the walk does not end. -/
def Buffer.walk (data : Buffer) : List DirEntry := walkFrom data.bytes data.len data.len 0

/-- A linear directory with blocks of `bs` bytes and with these entries: inode number, name and type of
each. -/
structure LinearDirectory (bs : ℕ) (entries : List (ℕ × List UInt8 × UInt8)) (data : Buffer) :
    Prop where
  blocks : bs ∣ data.len
  tiles : totalLen data.walk = data.len
  within : Within bs 0 (data.walk.map DirEntry.rec_len)
  aligned : ∀ e ∈ data.walk, 4 ∣ e.rec_len
  room : ∀ e ∈ data.walk, 8 + e.name.length ≤ e.rec_len
  entries : data.walk.map DirEntry.content = entries

/-- The entries of a directory that was made; their inode numbers are filled in later. -/
def madeEntries (inode_num dir_inode_num : ℕ) (dentries : List Dentry) :
    List (ℕ × List UInt8 × UInt8) :=
  [(inode_num, [46], EXT4_FT_DIR), (dir_inode_num, [46, 46], EXT4_FT_DIR)] ++
    dentries.map (fun d => (0, d.filename, d.file_type)) ++ [(0, [], EXT4_FT_UNKNOWN)]

/-- How long the directory is, up to the header of the last record. -/
def dirSize (info : FsInfo) (dentries : List Dentry) : ℕ :=
  pack info.block_size 24 (dentries.map (fun d => need d.filename) ++ [REC_LEN_FOR_END])

/-! ## The length of the directory -/

variable {len n : ℕ}

section

variable {info : FsInfo} {dentries : List Dentry}

lemma dentrySizeStep_eq (hn : n ≤ info.block_size) (hbs : info.block_size < 2 ^ 16)
    (hpos : 0 < info.block_size) (hlt : fit info.block_size len n + n < 2 ^ 32) :
    dentrySizeStep info len n = fit info.block_size len n + n := by
  have hmod := mod_lt len hpos
  have hsum : toUInt32 (len % info.block_size + n) = len % info.block_size + n :=
    toUInt32_eq_self (by omega)
  rw [dentrySizeStep]
  by_cases hfit : len % info.block_size + n ≤ info.block_size
  · have hsame : fit info.block_size len n = len := if_pos hfit
    rw [if_neg (by omega), toUInt32_eq_self (by omega), hsame]
  · have hnext : fit info.block_size len n = (len / info.block_size + 1) * info.block_size :=
      if_neg hfit
    have hdiv := div_add_mod len info.block_size
    have hlen : len + (info.block_size - len % info.block_size) = fit info.block_size len n := by
      rw [hnext, add_mul, mul_comm]
      omega
    have hpad : toUInt32 (fit info.block_size len n) = fit info.block_size len n :=
      toUInt32_eq_self (by omega)
    rw [if_pos (by omega), hlen, hpad, toUInt32_eq_self hlt]

/-- The length is computed as it should be, if it is a number of 32 bits. -/
lemma foldl_dentrySizeStep {sizes : List ℕ} (hsizes : ∀ n ∈ sizes, n ≤ info.block_size)
    (hbs : info.block_size < 2 ^ 16) (hpos : 0 < info.block_size) :
    ∀ {len : ℕ}, pack info.block_size len sizes < 2 ^ 32 →
      sizes.foldl (dentrySizeStep info) len = pack info.block_size len sizes := by
  induction sizes with
  | nil => exact fun _ => rfl
  | cons n sizes ih =>
    intro len hlt
    rw [pack_cons] at hlt ⊢
    have hle := le_pack hpos (fit info.block_size len n + n) sizes
    rw [foldl_cons, dentrySizeStep_eq (hsizes n mem_cons_self) hbs hpos (by omega)]
    exact ih (fun k hk => hsizes k (mem_cons_of_mem _ hk)) hlt

lemma dentry_size_eq_foldl (info : FsInfo) (dentries : List Dentry) :
    dentry_size info dentries = (dentries.map (fun d => need d.filename) ++ [REC_LEN_FOR_END]).foldl
      (dentrySizeStep info) 24 := by
  rw [foldl_append, foldl_map]
  rfl

lemma directoryLen_lt (info : FsInfo) (dentries : List Dentry) :
    directoryLen info dentries < 2 ^ 32 := toUInt32_lt _

variable (hbs : 1024 ≤ info.block_size ∧ info.block_size ≤ 4096)
  (hnames : ∀ d ∈ dentries, d.filename.length ≤ 255)

include hbs hnames in
lemma dentry_size_eq (hlt : dirSize info dentries < 2 ^ 32) :
    dentry_size info dentries = dirSize info dentries := by
  rw [dentry_size_eq_foldl]
  refine foldl_dentrySizeStep ?_ (by omega) (by omega) hlt
  intro n hn
  rcases mem_append.mp hn with hn | hn
  · obtain ⟨d, hd, rfl⟩ := mem_map.mp hn
    exact (need_le (hnames d hd)).2.2.trans (by omega)
  · rw [mem_singleton.mp hn, REC_LEN_FOR_END]
    omega

include hbs hnames in
/-- The buffer is as long as it should be, or there is none. -/
lemma directoryLen_eq (hlt : dirSize info dentries < 2 ^ 32) :
    directoryLen info dentries = if dirSize info dentries + info.block_size ≤ 2 ^ 32 then
      (dirSize info dentries + info.block_size - 1) / info.block_size * info.block_size else 0 := by
  rw [directoryLen, dentry_size_eq hbs hnames hlt, blocksFor]
  split_ifs with hsmall
  · have hle := div_mul_le_self (dirSize info dentries + info.block_size - 1) info.block_size
    rw [toUInt32_eq_self (show dirSize info dentries + info.block_size - 1 < 2 ^ 32 by omega),
      toUInt32_eq_self (by omega)]
  · have hwrap : toUInt32 (dirSize info dentries + info.block_size - 1) < info.block_size := by
      rw [toUInt32]
      omega
    rw [div_eq_of_lt hwrap, zero_mul]
    rfl

include hbs hnames in
/-- The last record ends with the block in which it begins. -/
lemma directoryLen_eq_mul (hsmall : dirSize info dentries + info.block_size ≤ 2 ^ 32) :
    directoryLen info dentries = (fit info.block_size (pack info.block_size 24
      (dentries.map fun d => need d.filename)) 8 / info.block_size + 1) * info.block_size := by
  have hsize : dirSize info dentries = fit info.block_size (pack info.block_size 24
      (dentries.map fun d => need d.filename)) 8 + 8 := by
    rw [dirSize, pack_append]
    rfl
  have hmod := fit_mod_add_le (show 8 ≤ info.block_size by omega)
    (pack info.block_size 24 (dentries.map fun d => need d.filename))
  rw [directoryLen_eq hbs hnames (by omega), if_pos hsmall]
  congr 1
  rw [Nat.div_eq_iff (by omega), add_mul, mul_comm]
  have hdiv := div_add_mod (fit info.block_size (pack info.block_size 24
    (dentries.map fun d => need d.filename)) 8) info.block_size
  omega

end

/-! ## Walking a directory -/

variable {es : List DirEntry}

lemma walkFrom_of_stored {m : Memory} (hes : ∀ e ∈ es, e.Proper)
    (hlt : ∀ e ∈ es, e.rec_len < 2 ^ 16) : ∀ {fuel p : ℕ}, Stored m p es → p + totalLen es = len →
      totalLen es ≤ fuel → walkFrom m len fuel p = es := by
  induction es with
  | nil =>
    intro fuel p _ hlen _
    cases fuel with
    | zero => rfl
    | succ fuel => exact if_neg (by simp at hlen; omega)
  | cons e es ih =>
    rintro fuel p ⟨hstored, hrest⟩ hlen hfuel
    have he := hes e mem_cons_self
    have hroom := he.room
    rw [totalLen_cons] at hlen hfuel
    cases fuel with
    | zero => omega
    | succ fuel =>
      rw [walkFrom, if_pos (by omega),
        DirEntry.decode_of_holds hstored he (hlt e mem_cons_self)]
      rw [ih (fun q hq => hes q (mem_cons_of_mem _ hq))
        (fun q hq => hlt q (mem_cons_of_mem _ hq)) hrest (by omega) (by omega)]

variable {data : Buffer} {bs : ℕ}

lemma LaidOut.linearDirectory (h : LaidOut bs data es) (hbs : bs < 2 ^ 16)
    (hlen : totalLen es = data.len) (hblocks : bs ∣ data.len) :
    LinearDirectory bs (es.map DirEntry.content) data := by
  have hlt : ∀ e ∈ es, e.rec_len < 2 ^ 16 := fun e he =>
    (h.within.le (mem_map_of_mem he)).trans_lt hbs
  have hwalk : data.walk = es :=
    walkFrom_of_stored h.proper hlt h.stored (by omega) hlen.le
  refine ⟨hblocks, ?_, ?_, ?_, ?_, ?_⟩
  all_goals rw [hwalk]
  · exact hlen
  · exact h.within
  · exact fun e he => (h.proper e he).aligned
  · exact fun e he => (h.proper e he).room

variable {dentries : List Dentry} {dir_inode_num inode_num : ℕ} {info : FsInfo}

/-- No linear directory with these entries is shorter. -/
lemma LinearDirectory.dirSize_le (hbs : 1024 ≤ info.block_size)
    (h : LinearDirectory info.block_size (madeEntries inode_num dir_inode_num dentries) data) :
    dirSize info dentries ≤ data.len := by
  have hneed : ∀ e ∈ data.walk, need e.name ≤ e.rec_len := by
    intro e he
    have haligned := h.aligned e he
    have hroom := h.room e he
    rw [need, align, divRoundUp]
    omega
  have hsizes : Forall₂ (· ≤ ·) (data.walk.map fun e => need e.name)
      (data.walk.map DirEntry.rec_len) := by
    rw [forall₂_map_left_iff, forall₂_map_right_iff, forall₂_same]
    exact hneed
  have hneeds : (data.walk.map fun e => need e.name) =
      [12, 12] ++ dentries.map (fun d => need d.filename) ++ [REC_LEN_FOR_END] := by
    have hcontent := congrArg (map fun c : ℕ × List UInt8 × UInt8 => need c.2.1) h.entries
    rw [map_map] at hcontent
    exact hcontent.trans (by simp [madeEntries]; decide)
  have hpack := pack_le hsizes (le_refl 0) h.within
  have hdots : pack info.block_size 0 [12, 12] = 24 := by
    have hfit1 : fit info.block_size 0 12 = 0 := if_pos (by rw [zero_mod]; omega)
    have hfit2 : fit info.block_size 12 12 = 12 :=
      if_pos (by rw [mod_eq_of_lt (by omega)]; omega)
    simp [hfit1, hfit2]
  rw [hneeds, append_assoc, pack_append, hdots, zero_add] at hpack
  exact hpack.trans h.tiles.le

/-- The records fill the first block, so their alignment is that of the block size. -/
lemma LinearDirectory.dvd {entries : List (ℕ × List UInt8 × UInt8)}
    (h : LinearDirectory bs entries data) (hpos : 0 < data.len) : 4 ∣ bs := by
  refine dvd_sub_of_within (fun n hn => ?_) h.within (zero_le _) ?_
  · obtain ⟨e, he, rfl⟩ := mem_map.mp hn
    exact h.aligned e he
  · rw [zero_add]
    exact (le_of_dvd hpos h.blocks).trans h.tiles.ge

/-! ## The buffer keeps its length -/

section

variable {info : FsInfo} {data data' : Buffer} {prev : Option ℕ} {offset offset' : ℕ}

lemma bind_eq_ok {ε α β : Type} {x : Except ε α} {f : α → Except ε β} {b : β}
    (h : (x >>= f) = .ok b) : ∃ a, x = .ok a ∧ f a = .ok b := by
  cases x with
  | error err => simp [bind, Except.bind] at h
  | ok a => exact ⟨a, rfl, h⟩

lemma Buffer.len_store {p : ℕ} {bytes : List UInt8} (h : data.store p bytes = .ok data') :
    data'.len = data.len := by
  rw [store] at h
  split_ifs at h
  cases h
  rfl

lemma len_padToBlock (h : padToBlock info data offset prev n = .ok (data', offset')) :
    data'.len = data.len := by
  rw [padToBlock.eq_def] at h
  dsimp only at h
  split_ifs at h
  · cases prev with
    | none => simp at h
    | some prev =>
      obtain ⟨data1, hstore, heq⟩ := bind_eq_ok h
      cases heq
      exact Buffer.len_store hstore
  · cases h
    rfl

lemma len_add_dentry {inode dentry : ℕ} {name : List UInt8} {file_type : UInt8}
    (h : add_dentry info data offset prev inode name file_type = .ok (data', offset', dentry)) :
    data'.len = data.len := by
  obtain ⟨⟨data1, offset1⟩, hpad, h⟩ := bind_eq_ok h
  obtain ⟨data2, hstore, h⟩ := bind_eq_ok h
  cases h
  rw [Buffer.len_store hstore, len_padToBlock hpad]

lemma len_addDentries : ∀ {data : Buffer}
    {offset dentry offset' last : ℕ} {inodes : List ℕ},
    addDentries info len dentries data offset dentry = .ok (data', offset', last, inodes) →
      data'.len = data.len := by
  induction dentries with
  | nil =>
    intro data offset dentry offset' last inodes h
    cases h
    rfl
  | cons d dentries ih =>
    intro data offset dentry offset' last inodes h
    obtain ⟨⟨data1, offset1, dentry1⟩, hadd, h⟩ := bind_eq_ok h
    dsimp only at h
    split_ifs at h
    obtain ⟨⟨data2, offset2, last2, inodes2⟩, hrest, h⟩ := bind_eq_ok h
    cases h
    rw [ih hrest, len_add_dentry hadd]

lemma len_fillDirectory {inodes : List ℕ}
    (h : fillDirectory info data inode_num dir_inode_num dentries = .ok (data', inodes)) :
    data'.len = data.len := by
  obtain ⟨⟨data1, offset1, dentry1⟩, hdot, h⟩ := bind_eq_ok h
  obtain ⟨⟨data2, offset2, dentry2⟩, hdotdot, h⟩ := bind_eq_ok h
  obtain ⟨⟨data3, offset3, prev, inodes3⟩, hadd, h⟩ := bind_eq_ok h
  obtain ⟨⟨data4, offset4⟩, hpad, h⟩ := bind_eq_ok h
  obtain ⟨data5, hstore, h⟩ := bind_eq_ok h
  cases h
  rw [Buffer.len_store hstore, len_padToBlock hpad, len_addDentries hadd, len_add_dentry hdotdot,
    len_add_dentry hdot]

end

/-! ## The result -/

/-- Calls that succeed. -/
structure InodeCalls.Succeed (calls : InodeCalls) : Prop where
  allocate_inode : calls.allocate_inode < EXT4_ALLOCATE_FAILED
  get_inode : ∀ inode_num, (calls.get_inode inode_num).isSome
  inode_allocate_extents : ∀ len, 0 < len → calls.inode_allocate_extents len = true

section

variable {calls : InodeCalls}

/-- The number of the new inode, and that of the parent. -/
def inodeNum (calls : InodeCalls) (dir_inode_num : ℕ) : ℕ :=
  if dir_inode_num ≠ 0 then calls.allocate_inode else EXT4_ROOT_INO

def parentNum (dir_inode_num : ℕ) : ℕ := if dir_inode_num ≠ 0 then dir_inode_num else EXT4_ROOT_INO

lemma InodeCalls.Succeed.inodeNum_lt (hcalls : calls.Succeed) (dir_inode_num : ℕ) :
    inodeNum calls dir_inode_num < EXT4_ALLOCATE_FAILED := by
  rw [inodeNum]
  split_ifs
  · exact hcalls.allocate_inode
  · rw [EXT4_ROOT_INO, EXT4_ALLOCATE_FAILED]
    norm_num

/-- If the calls succeed, the directory is what the buffer is filled with, if there is one. -/
lemma make_directory_eq (info : FsInfo) (dentries : List Dentry) (hcalls : calls.Succeed)
    (dir_inode_num : ℕ) (force : Bool) (dirs : ℕ) :
    ∃ i_flags, make_directory info force calls dir_inode_num dentries dirs =
      if 0 < directoryLen info dentries then
        (fillDirectory info (.calloc (directoryLen info dentries)) (inodeNum calls dir_inode_num)
          (parentNum dir_inode_num) dentries).map fun r => some
            { inode_num := inodeNum calls dir_inode_num
              i_mode := S_IFDIR
              i_links_count := toUInt16 (dirs + 2)
              i_flags := i_flags ||| EXT4_NOATIME_FL
              data := r.1
              inodes := r.2 }
      else if force then .ok none else .error .error := by
  obtain ⟨i_flags, hflags⟩ :=
    Option.isSome_iff_exists.mp (hcalls.get_inode (inodeNum calls dir_inode_num))
  refine ⟨i_flags, ?_⟩
  have hnum := (hcalls.inodeNum_lt dir_inode_num).ne
  rw [inodeNum] at hnum hflags
  rw [make_directory]
  rw [if_neg hnum, hflags, InodeCalls.inode_allocate_data_extents]
  by_cases hpos : 0 < directoryLen info dentries
  · rw [if_pos ⟨hcalls.inode_allocate_extents _ hpos, hpos⟩, if_pos hpos]
    rfl
  · rw [if_neg fun h => hpos h.2, if_neg hpos]

lemma len_make_directory {dirs : ℕ} {force : Bool} {dir : Directory} (hcalls : calls.Succeed)
    (h : make_directory info force calls dir_inode_num dentries dirs = .ok (some dir)) :
    dir.data.len = directoryLen info dentries := by
  obtain ⟨i_flags, hmake⟩ := make_directory_eq info dentries hcalls dir_inode_num force dirs
  rw [hmake] at h
  split_ifs at h with hpos hforce
  · cases hfill : fillDirectory info (.calloc (directoryLen info dentries))
      (inodeNum calls dir_inode_num) (parentNum dir_inode_num) dentries with
    | error err => simp [hfill, Except.map] at h
    | ok r =>
      rw [hfill] at h
      cases h
      exact len_fillDirectory hfill
  · simp at h

end

/-- **Making a directory.**  If the calls for the inode succeed, the result is a linear directory with
the entries in order, and no fault occurs, if and only if the block size is a multiple of four and the
length of the directory, rounded up to whole blocks, is a number of 32 bits. -/
theorem make_directory_iff {info : FsInfo} {dentries : List Dentry} {calls : InodeCalls}
    {dir_inode_num : ℕ} (hbs : 1024 ≤ info.block_size ∧ info.block_size ≤ 4096)
    (hnames : ∀ d ∈ dentries, 1 ≤ d.filename.length ∧ d.filename.length ≤ 255)
    (hdir : dir_inode_num < 2 ^ 32) (hcalls : calls.Succeed) (force : Bool) (dirs : ℕ) :
    (∃ dir, make_directory info force calls dir_inode_num dentries dirs = .ok (some dir) ∧
      LinearDirectory info.block_size
        (madeEntries (inodeNum calls dir_inode_num) (parentNum dir_inode_num) dentries) dir.data) ↔
      4 ∣ info.block_size ∧ dirSize info dentries + info.block_size ≤ 2 ^ 32 := by
  have hnames' : ∀ d ∈ dentries, d.filename.length ≤ 255 := fun d hd => (hnames d hd).2
  have hpos : 0 < info.block_size := by omega
  have hsize : 24 ≤ dirSize info dentries := le_pack hpos _ _
  constructor
  · rintro ⟨dir, hmake, hlinear⟩
    -- a length that wrapped around is too short
    have hle := hlinear.dirSize_le hbs.1
    have hlen := len_make_directory hcalls hmake
    have hlt : dirSize info dentries < 2 ^ 32 := by
      rw [hlen] at hle
      exact hle.trans_lt (directoryLen_lt info dentries)
    refine ⟨hlinear.dvd (by omega), ?_⟩
    by_contra hwrap
    rw [hlen, directoryLen_eq hbs hnames' hlt, if_neg hwrap] at hle
    omega
  · rintro ⟨h4, hsmall⟩
    have hlen := directoryLen_eq_mul hbs hnames' hsmall
    have hroot : EXT4_ROOT_INO < 2 ^ 32 := by norm_num [EXT4_ROOT_INO]
    have hparent : parentNum dir_inode_num < 2 ^ 32 := by
      rw [parentNum]
      split_ifs <;> assumption
    have hinode : inodeNum calls dir_inode_num < 2 ^ 32 :=
      (hcalls.inodeNum_lt dir_inode_num).trans (by norm_num [EXT4_ALLOCATE_FAILED])
    obtain ⟨data, inodes, es, hfill, hdata, hlaid, htotal, hcontent⟩ :=
      fillDirectory_spec hbs h4 hnames' hinode hparent (directoryLen_lt info dentries) hlen
    obtain ⟨i_flags, hmake⟩ := make_directory_eq info dentries hcalls dir_inode_num force dirs
    have hlen' : 0 < directoryLen info dentries := by
      rw [hlen]
      exact mul_pos (succ_pos _) hpos
    rw [if_pos hlen', hfill] at hmake
    refine ⟨_, hmake, ?_⟩
    rw [madeEntries, ← hcontent]
    refine hlaid.linearDirectory (by omega) (htotal.trans hdata.symm) ?_
    rw [hdata, hlen]
    exact Dvd.intro_left _ rfl

/-- Calls that all succeed. -/
def freshCalls : InodeCalls where
  allocate_inode := 11
  get_inode _ := some 0
  inode_allocate_extents _ := true

lemma freshCalls_succeed : freshCalls.Succeed :=
  ⟨by norm_num [freshCalls, EXT4_ALLOCATE_FAILED], fun _ => rfl, fun _ _ => rfl⟩

/-- A file with the longest name there can be. -/
def longName : Dentry := ⟨List.replicate 255 97, EXT4_FT_REG_FILE⟩

lemma length_longName : longName.filename.length = 255 := length_replicate

lemma twoGroups_block_size :
    1024 ≤ twoGroups.block_size ∧ twoGroups.block_size ≤ 4096 := by decide

/-- A directory of two blocks: the fourth long name does not fit into the first. -/
theorem make_directory_iff_twoBlocks :
    ∃ dir, make_directory twoGroups false freshCalls 2 (List.replicate 4 longName) 0 =
        .ok (some dir) ∧
      LinearDirectory 1024 (madeEntries 11 2 (List.replicate 4 longName)) dir.data := by
  have hnames : ∀ d ∈ replicate 4 longName,
      1 ≤ d.filename.length ∧ d.filename.length ≤ 255 := by
    intro d hd
    rw [eq_of_mem_replicate hd, length_longName]
    omega
  exact (make_directory_iff twoGroups_block_size hnames (by norm_num) freshCalls_succeed false
    0).mpr ⟨by decide, by decide +kernel⟩

/-! ## A directory that is too long -/

lemma pack_longNames (k : ℕ) : ∃ c, (c = 792 ∨ c = 816) ∧
    pack 1024 24 (replicate (3 * (k + 1)) 264) = k * 1024 + c ∧ (0 < k → c = 792) := by
  induction k with
  | zero => exact ⟨816, .inr rfl, by decide, by simp⟩
  | succ k ih =>
    obtain ⟨c, hc, hpack, -⟩ := ih
    refine ⟨792, .inl rfl, ?_, fun _ => rfl⟩
    rw [show 3 * (k + 1 + 1) = 3 * (k + 1) + 3 by ring, replicate_add, pack_append, hpack]
    have hfit1 : fit 1024 (k * 1024 + c) 264 = (k + 1) * 1024 := by
      rw [fit, if_neg (by omega)]
      omega
    have hfit2 : fit 1024 ((k + 1) * 1024 + 264) 264 = (k + 1) * 1024 + 264 := if_pos (by omega)
    have hfit3 : fit 1024 ((k + 1) * 1024 + 264 + 264) 264 = (k + 1) * 1024 + 264 + 264 :=
      if_pos (by omega)
    simp [hfit1, hfit2, hfit3]

/-- The directory would be longer than `2 ^ 32` bytes, but what is computed is one block. -/
lemma directoryLen_longNames :
    directoryLen twoGroups (replicate (3 * 2 ^ 22 + 1) longName) = 1024 := by
  have hneed : need longName.filename = 264 := by decide +kernel
  obtain ⟨c, -, hpack, hc⟩ := pack_longNames (2 ^ 22 - 1)
  rw [hc (by norm_num)] at hpack
  have hsum : pack twoGroups.block_size 24 (replicate (3 * 2 ^ 22) 264) = 2 ^ 32 - 232 := hpack
  have hfold : (replicate (3 * 2 ^ 22) 264).foldl (dentrySizeStep twoGroups) 24 =
      2 ^ 32 - 232 := by
    rw [foldl_dentrySizeStep (fun n hn => ?_) (by decide) (by decide) (by rw [hsum]; norm_num), hsum]
    rw [eq_of_mem_replicate hn]
    decide
  have hsize : dentry_size twoGroups (replicate (3 * 2 ^ 22 + 1) longName) = 272 := by
    rw [dentry_size_eq_foldl, map_replicate, hneed, replicate_add, append_assoc,
      foldl_append, hfold]
    decide
  rw [directoryLen, hsize]
  decide

/-- The fault of a run, if there is one. -/
def faultOf {α : Type} : Except Fault α → Option Fault
  | .error fault => some fault
  | .ok _ => none

/-- A store past the end is not avoided by entries that follow. -/
lemma faultOf_addDentries_append (rest : List Dentry) : ∀ {data : Buffer} {offset dentry : ℕ},
      faultOf (addDentries info len dentries data offset dentry) = some .out_of_bounds →
      addDentries info len (dentries ++ rest) data offset dentry = .error .out_of_bounds := by
  induction dentries with
  | nil =>
    intro data offset dentry h
    simp [addDentries, faultOf] at h
  | cons d dentries ih =>
    intro data offset dentry h
    rw [addDentries] at h
    rw [cons_append, addDentries]
    cases hadd : add_dentry info data offset (some dentry) 0 d.filename d.file_type with
    | error fault =>
      rw [hadd] at h
      exact congrArg _ (Option.some.inj h)
    | ok r =>
      obtain ⟨data1, offset1, dentry1⟩ := r
      simp only [hadd, bind, Except.bind] at h ⊢
      by_cases hcheck : offset1 > len ∨ offset1 = len ∧ dentries ≠ []
      · simp [if_pos hcheck, faultOf] at h
      · rw [if_neg hcheck] at h
        cases hrest : addDentries info len dentries data1 offset1 dentry1 with
        | ok r => simp [hrest, faultOf, pure, Except.pure] at h
        | error fault =>
          rw [hrest] at h
          have hne : dentries ≠ [] := by
            rintro rfl
            simp [addDentries] at hrest
          have hcheck' : ¬ (offset1 > len ∨ offset1 = len ∧ dentries ++ rest ≠ []) := by
            rintro (hgt | ⟨heq, -⟩)
            · exact hcheck (.inl hgt)
            · exact hcheck (.inr ⟨heq, hne⟩)
          rw [if_neg hcheck', ih (by rw [hrest]; exact h)]

/-- **A store past the end.**  With so many long names, the fourth of them is stored behind the
buffer. -/
theorem make_directory_overruns :
    make_directory twoGroups false freshCalls 2 (List.replicate (3 * 2 ^ 22 + 1) longName) 0 =
      .error .out_of_bounds := by
  obtain ⟨data1, data2, es, e, hadd1, hadd2, hlen, -⟩ := add_dots twoGroups_block_size (by decide)
    (show 11 < 2 ^ 32 by norm_num) (show 2 < 2 ^ 32 by norm_num) (show 1024 < 2 ^ 32 by norm_num)
    (by norm_num)
  have hrun : faultOf ((add_dentry twoGroups (.calloc 1024) 0 none 11 [46] EXT4_FT_DIR).bind
      fun r => (add_dentry twoGroups r.1 r.2.1 (some r.2.2) 2 [46, 46] EXT4_FT_DIR).bind
        fun r => addDentries twoGroups 1024 (replicate 4 longName) r.1 r.2.1 r.2.2) =
      some .out_of_bounds := by
    decide +kernel
  rw [hadd1] at hrun
  dsimp only [Except.bind] at hrun
  rw [hadd2] at hrun
  have hfill : ∀ rest, fillDirectory twoGroups (.calloc 1024) 11 2
      (replicate 4 longName ++ rest) = .error .out_of_bounds := by
    intro rest
    rw [fillDirectory, hadd1]
    simp only [bind, Except.bind, hadd2, hlen, faultOf_addDentries_append rest hrun]
  obtain ⟨i_flags, hmake⟩ := make_directory_eq twoGroups
    (replicate (3 * 2 ^ 22 + 1) longName) freshCalls_succeed 2 false 0
  rw [hmake, directoryLen_longNames, if_pos (by norm_num)]
  exact congrArg _ (hfill _)

end Droid.Ext4
