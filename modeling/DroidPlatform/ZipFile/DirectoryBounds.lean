import DroidPlatform.ZipFile.ZipFileRO
import DroidPlatform.Core.Probe

/-!
# Where a scan of the central directory reads

`parseZipArchive` looks at a record before it knows that the record is there.  It reads the four bytes
of a signature wherever the lengths of the records before lead to, and it hashes and stores a name
before it compares the end of the record with the end of the directory.  So it stays inside of the
mapped directory exactly when the records `Fit` (`parse_inside_iff`): every record that is reached
has the four bytes of a signature left, and the name of every record that passes the checks ends
inside.

The scan always ends (`parseEntries_spec`): the hash table has more slots than there are entries.
-/

namespace Droid

open List Option

/-! ## The size of the hash table -/

lemma roundUpPower2_spec {val : ℕ} (hpos : 0 < val) (hval : val ≤ 2 ^ 31) :
    ∃ k, roundUpPower2 val = 2 ^ k ∧ val ≤ 2 ^ k := by
  obtain ⟨u, rfl⟩ : ∃ u, val = u + 1 := ⟨val - 1, by omega⟩
  have hword : toWord (((u + 1 : ℕ)) - 1) = u := by
    rw [toWord]
    omega
  have hall := (Smears.self u).double.double.double.double.double.eq_two_pow_sub_one
    (by norm_num; omega)
  have hsize : u.size ≤ 31 := Nat.size_le.mpr (by omega)
  have hpow : 2 ^ u.size ≤ 2 ^ 31 := Nat.pow_le_pow_right two_pos hsize
  refine ⟨u.size, ?_, Nat.lt_size_self u⟩
  simp only [roundUpPower2, hword]
  rw [hall, Nat.sub_add_cancel Nat.one_le_two_pow]
  exact toUInt32_eq_self (by omega)

namespace ZipFileRO

lemma get2LE_lt (m : Memory) (buf : ℕ) : get2LE m buf < 2 ^ 16 := by
  refine Nat.or_lt_two_pow ?_ ?_
  · exact (UInt8.toNat_lt _).trans (by norm_num)
  · rw [Nat.shiftLeft_eq]
    have := UInt8.toNat_lt (m (buf + 1))
    omega

/-- The number of slots in use. -/
def occupied (table : List (Option HashEntry)) : ℕ := table.countP Option.isSome

/-- A table of a power of two of slots, at least `left` of them more than what is free for. -/
structure Roomy (table : List (Option HashEntry)) (left : ℕ) : Prop where
  isPow : ∃ k, table.length = 2 ^ k
  free : occupied table + left < table.length

/-- Probing finds an empty slot if there is one among the probes. -/
lemma findSlot_spec {table : List (Option HashEntry)} {k : ℕ} (hlen : table.length = 2 ^ k) :
    ∀ {fuel ent : ℕ}, ent < table.length →
      (∃ j < fuel, table[probe table.length ent 1 j]? = some none) →
      ∃ e, findSlot table fuel ent = some e ∧ table[e]? = some none := by
  intro fuel
  induction fuel with
  | zero =>
    rintro ent _ ⟨j, hj, _⟩
    exact absurd hj (Nat.not_lt_zero j)
  | succ fuel ih =>
    rintro ent hent ⟨j, hj, hfree⟩
    have hget : table[ent]? = some (table.getD ent none) := by
      rw [getD_eq_getElem?_getD, getElem?_eq_getElem hent, getD_some]
    rw [findSlot]
    cases hslot : table.getD ent none with
    | none => exact ⟨ent, by simp, hget.trans (by rw [hslot])⟩
    | some entry =>
      -- the first probe is taken, so that the empty slot is among the others
      have hj0 : j ≠ 0 := by
        rintro rfl
        rw [probe_zero hent, hget, hslot] at hfree
        cases hfree
      have hnext : (ent + 1) &&& (table.length - 1) = probe table.length ent 1 1 := by
        rw [hlen, Nat.and_two_pow_sub_one_eq_mod, probe]
      rw [isSome_some, hnext]
      refine ih (probe_lt (by omega) _) ⟨j - 1, by omega, ?_⟩
      rw [← hfree, probe, probe, Nat.mod_add_mod]
      congr 2
      omega

lemma Roomy.addToHash {table : List (Option HashEntry)} {left : ℕ} (h : Roomy table (left + 1))
    (str strLen hash : ℕ) : ∃ ent, table[ent]? = some none ∧
      addToHash table str strLen hash =
        some (table.set ent (some ⟨str, strLen % 2 ^ 16⟩)) := by
  obtain ⟨k, hk⟩ := h.isPow
  have hfree : none ∈ table := by
    by_contra hnone
    have hall : occupied table = table.length := countP_eq_length.mpr fun slot hslot => by
      cases slot with
      | none => exact absurd hslot hnone
      | some entry => rfl
    have := h.free
    omega
  obtain ⟨i, hi, hget⟩ := mem_iff_getElem.mp hfree
  have hstart : hash &&& (table.length - 1) < table.length := by
    rw [hk, Nat.and_two_pow_sub_one_eq_mod]
    exact Nat.mod_lt _ (Nat.two_pow_pos k)
  obtain ⟨j, hj, hprobe⟩ : ∃ j < table.length,
      probe table.length (hash &&& (table.length - 1)) 1 j = i :=
    exists_probe_eq (Nat.coprime_one_right table.length) hi
  obtain ⟨e, hfind, he⟩ := findSlot_spec hk hstart ⟨j, hj, by
    rw [hprobe, getElem?_eq_getElem hi, hget]⟩
  exact ⟨e, he, by simp [ZipFileRO.addToHash, hfind]⟩

lemma Roomy.set {table : List (Option HashEntry)} {left ent : ℕ} (h : Roomy table (left + 1))
    (hent : table[ent]? = some none) (entry : HashEntry) :
    Roomy (table.set ent (some entry)) left := by
  obtain ⟨hlt, hget⟩ := List.getElem?_eq_some_iff.mp hent
  refine ⟨by simpa using h.isPow, ?_⟩
  have hcount : occupied (table.set ent (some entry)) = occupied table + 1 := by
    rw [occupied, countP_set hlt, hget]
    simp [occupied]
  have := h.free
  rw [length_set]
  omega

lemma Roomy.init (d : Directory) (h : d.mNumEntries < 2 ^ 16) :
    Roomy (replicate (roundUpPower2 (1 + d.mNumEntries * 4 / 3)) none) d.mNumEntries := by
  obtain ⟨k, hk, hle⟩ := roundUpPower2_spec
    (show 0 < 1 + d.mNumEntries * 4 / 3 by omega) (by omega)
  refine ⟨⟨k, by simpa using hk⟩, ?_⟩
  rw [occupied, countP_replicate]
  simp
  omega

/-! ## What a scan has read -/

variable {ent : ℕ}

namespace Scan

variable {len : ℕ}

lemma inside_read {s : Scan} {p n : ℕ} : (s.read p n).Inside len ↔ p + n ≤ len ∧ s.Inside len := by
  simp [Inside, read, and_assoc]

/-- An entry put into an empty slot. -/
lemma inside_set {s : Scan} (hent : s.mHashTable[ent]? = some none) (entry : HashEntry) :
    Inside { s with mHashTable := s.mHashTable.set ent (some entry) } len ↔
      entry.name + entry.nameLen ≤ len ∧ s.Inside len := by
  obtain ⟨hlt, hget⟩ := List.getElem?_eq_some_iff.mp hent
  constructor
  · rintro ⟨hreads, htable⟩
    refine ⟨htable (some entry) (mem_set hlt _) entry rfl, hreads, fun slot hslot e he => ?_⟩
    obtain ⟨i, hi, rfl⟩ := mem_iff_getElem.mp hslot
    have hne : ent ≠ i := by
      rintro rfl
      simp [hget] at he
    refine htable _ (mem_iff_getElem.mpr ⟨i, by simpa using hi, ?_⟩) e he
    exact getElem_set_ne hne _
  · rintro ⟨hentry, hreads, htable⟩
    refine ⟨hreads, fun slot hslot e he => ?_⟩
    rcases mem_or_eq_of_mem_set hslot with hslot | rfl
    · exact htable slot hslot e he
    · cases he
      exact hentry

end Scan

/-! ## The records of a directory -/

variable {d : Directory}

namespace Directory

/-- The mapped bytes. -/
def bytes (d : Directory) : Memory := d.memory fun _ => 0

/-- The record at `p` passes the checks that come before its name is looked at. -/
def Lists (d : Directory) (p : ℕ) : Prop :=
  get4LE d.bytes p = kCDESignature ∧ p + kCDELen ≤ d.data.length ∧
    toInt32 (get4LE d.bytes (p + kCDELocalOffset)) < d.mDirectoryOffset

/-- Where the name of the record at `p` ends. -/
def nameEnd (d : Directory) (p : ℕ) : ℕ := p + kCDELen + get2LE d.bytes (p + kCDENameLen)

/-- Where the record at `p` ends. -/
def recordEnd (d : Directory) (p : ℕ) : ℕ :=
  d.nameEnd p + get2LE d.bytes (p + kCDEExtraLen) + get2LE d.bytes (p + kCDECommentLen)

/-- `d.Reaches p k q`: the lengths of `k` records, from the one at `p` on, lead to `q`. -/
inductive Reaches (d : Directory) : ℕ → ℕ → ℕ → Prop
  | here (p) : Reaches d p 0 p
  | next {p k q} (hlists : d.Lists p) (hend : d.recordEnd p ≤ d.data.length)
      (h : Reaches d (d.recordEnd p) k q) : Reaches d p (k + 1) q

/-- What a scan takes for granted of the record at `p`. -/
def FitsAt (d : Directory) (p : ℕ) : Prop :=
  p + 4 ≤ d.data.length ∧ (d.Lists p → d.nameEnd p ≤ d.data.length)

/-- What a scan takes for granted of the directory. -/
def Fits (d : Directory) : Prop := ∀ k < d.mNumEntries, ∀ p, d.Reaches 0 k p → d.FitsAt p

variable (behind : Memory)

lemma memory_eq {i : ℕ} (h : i < d.data.length) : d.memory behind i = d.bytes i := by
  simp [bytes, memory, h]

lemma get2LE_memory {p : ℕ} (h : p + 2 ≤ d.data.length) :
    get2LE (d.memory behind) p = get2LE d.bytes p := by
  rw [get2LE, get2LE, memory_eq behind (by omega), memory_eq behind (by omega)]

lemma get4LE_memory {p : ℕ} (h : p + 4 ≤ d.data.length) :
    get4LE (d.memory behind) p = get4LE d.bytes p := by
  rw [get4LE, get4LE, memory_eq behind (by omega), memory_eq behind (by omega),
    memory_eq behind (by omega), memory_eq behind (by omega)]

variable {left : ℕ}

/-- The records from `p` on, one after the other. -/
lemma fits_succ_iff {p : ℕ} :
    (∀ k < left + 1, ∀ q, d.Reaches p k q → d.FitsAt q) ↔
      d.FitsAt p ∧ (d.Lists p → d.recordEnd p ≤ d.data.length →
        ∀ k < left, ∀ q, d.Reaches (d.recordEnd p) k q → d.FitsAt q) := by
  constructor
  · intro h
    refine ⟨h 0 (Nat.succ_pos left) p (.here p), fun hlists hend k hk q hq => ?_⟩
    exact h (k + 1) (Nat.succ_lt_succ hk) q (.next hlists hend hq)
  · rintro ⟨hp, hrest⟩ k hk q hq
    cases hq with
    | here => exact hp
    | next hlists hend hq => exact hrest hlists hend _ (Nat.lt_of_succ_lt_succ hk) q hq

/-- What is not a record only has to have room for a signature. -/
lemma fits_iff_of_not_lists {p : ℕ} {rest : Prop} (h : ¬ d.Lists p) :
    d.FitsAt p ∧ (d.Lists p → rest) ↔ p + 4 ≤ d.data.length := by
  simp [FitsAt, h]

/-! ## One record after the other -/

section Step

variable {d : Directory} {m : Memory} {left ptr : ℕ} {s : Scan}

/-- No signature, or no room for a record. -/
lemma parseEntries_of_not_record
    (h : get4LE m ptr = kCDESignature → d.data.length < ptr + kCDELen) :
    d.parseEntries m (left + 1) ptr s = some (s.read ptr 4, false) := by
  rw [parseEntries]
  by_cases hsig : get4LE m ptr = kCDESignature
  · simp [h hsig]
  · simp [hsig]

/-- A record of something that is not in front of the directory. -/
lemma parseEntries_of_bad_offset (hsig : get4LE m ptr = kCDESignature)
    (hlen : ptr + kCDELen ≤ d.data.length)
    (h : (d.mDirectoryOffset : ℤ) ≤ toInt32 (get4LE m (ptr + kCDELocalOffset))) :
    d.parseEntries m (left + 1) ptr s =
      some ((s.read ptr 4).read (ptr + kCDELocalOffset) 4, false) := by
  rw [parseEntries]
  simp [hsig, hlen, h]

/-- What a record that passes the checks adds to a scan, with its name in the slot `ent`. -/
def addRecord (m : Memory) (ptr ent : ℕ) (s : Scan) : Scan :=
  let s := (s.read ptr 4).read (ptr + kCDELocalOffset) 4
  let s := ((s.read (ptr + kCDENameLen) 2).read (ptr + kCDEExtraLen) 2).read (ptr + kCDECommentLen) 2
  let s := s.read (ptr + kCDELen) (get2LE m (ptr + kCDENameLen))
  { s with mHashTable :=
      s.mHashTable.set ent (some ⟨ptr + kCDELen, get2LE m (ptr + kCDENameLen)⟩) }

lemma parseEntries_of_record (hroom : Roomy s.mHashTable (left + 1))
    (hsig : get4LE m ptr = kCDESignature) (hlen : ptr + kCDELen ≤ d.data.length)
    (h : toInt32 (get4LE m (ptr + kCDELocalOffset)) < d.mDirectoryOffset) :
    ∃ ent, s.mHashTable[ent]? = some none ∧
      let next := ptr + (kCDELen + get2LE m (ptr + kCDENameLen) + get2LE m (ptr + kCDEExtraLen) +
        get2LE m (ptr + kCDECommentLen))
      d.parseEntries m (left + 1) ptr s =
        if next > d.data.length then some (addRecord m ptr ent s, false)
        else d.parseEntries m left next (addRecord m ptr ent s) := by
  obtain ⟨ent, hent, hadd⟩ := hroom.addToHash (ptr + kCDELen) (get2LE m (ptr + kCDENameLen))
    (computeHash m (ptr + kCDELen) (get2LE m (ptr + kCDENameLen)))
  rw [Nat.mod_eq_of_lt (get2LE_lt _ _)] at hadd
  refine ⟨ent, hent, ?_⟩
  rw [parseEntries]
  simp only [hsig, not_lt.mpr hlen, not_le.mpr h, Scan.read, hadd]
  rfl

lemma inside_addRecord (hent : s.mHashTable[ent]? = some none)
    (hlen : ptr + kCDELen ≤ d.data.length) :
    (addRecord m ptr ent s).Inside d.data.length ↔
      ptr + kCDELen + get2LE m (ptr + kCDENameLen) ≤ d.data.length ∧ s.Inside d.data.length := by
  refine (Scan.inside_set (by exact hent) _).trans ?_
  simp only [Scan.inside_read, kCDELen, kCDELocalOffset, kCDENameLen, kCDEExtraLen,
    kCDECommentLen] at hlen ⊢
  constructor
  · rintro ⟨hname, _, _, _, _, _, _, hs⟩
    exact ⟨hname, hs⟩
  · rintro ⟨hname, hs⟩
    exact ⟨hname, hname, by omega, by omega, by omega, by omega, by omega, hs⟩

end Step

/-- The scan ends. -/
lemma parseEntries_returns {m : Memory} : ∀ {left ptr : ℕ} {s : Scan},
    Roomy s.mHashTable left → ∃ s' ok, d.parseEntries m left ptr s = some (s', ok) := by
  intro left
  induction left with
  | zero => exact fun {ptr s} _ => ⟨s, true, rfl⟩
  | succ left ih =>
    intro ptr s hroom
    by_cases hrecord : get4LE m ptr = kCDESignature ∧ ptr + kCDELen ≤ d.data.length
    · obtain ⟨hsig, hlen⟩ := hrecord
      rcases le_or_gt (d.mDirectoryOffset : ℤ) (toInt32 (get4LE m (ptr + kCDELocalOffset)))
        with hoffset | hoffset
      · exact ⟨_, _, parseEntries_of_bad_offset hsig hlen hoffset⟩
      · obtain ⟨ent, hent, hparse⟩ := parseEntries_of_record hroom hsig hlen hoffset
        have hroom' : Roomy (addRecord m ptr ent s).mHashTable left := hroom.set hent _
        rw [hparse]
        split_ifs
        · exact ⟨_, _, rfl⟩
        · exact ih hroom'
    · refine ⟨_, _, parseEntries_of_not_record fun hsig => ?_⟩
      exact not_le.mp fun hlen => hrecord ⟨hsig, hlen⟩

/-- What is not a record ends the scan. -/
lemma inside_of_not_lists (behind : Memory) {ptr : ℕ} {s s' : Scan} {ok : Bool}
    (hlists : ¬ d.Lists ptr)
    (h : d.parseEntries (d.memory behind) (left + 1) ptr s = some (s', ok)) :
    s'.Inside d.data.length ↔ ptr + 4 ≤ d.data.length ∧ s.Inside d.data.length := by
  by_cases hlen : ptr + kCDELen ≤ d.data.length
  · simp only [kCDELen] at hlen
    by_cases hsig : get4LE d.bytes ptr = kCDESignature
    · have hoffset := not_lt.mp fun hlt => hlists ⟨hsig, hlen, hlt⟩
      rw [← get4LE_memory behind (by omega)] at hsig
      rw [← get4LE_memory behind (by simp only [kCDELocalOffset]; omega)] at hoffset
      rw [parseEntries_of_bad_offset hsig hlen hoffset] at h
      cases h
      rw [Scan.inside_read, Scan.inside_read]
      exact and_iff_right (by simp only [kCDELocalOffset]; omega)
    · rw [← get4LE_memory behind (by omega)] at hsig
      rw [parseEntries_of_not_record fun heq => absurd heq hsig] at h
      cases h
      exact Scan.inside_read
  · rw [parseEntries_of_not_record fun _ => not_le.mp hlen] at h
    cases h
    exact Scan.inside_read

/-- The scan stays inside exactly when every record that it reaches fits. -/
lemma parseEntries_inside_iff :
    ∀ {left ptr : ℕ} {s s' : Scan} {ok : Bool}, Roomy s.mHashTable left →
      d.parseEntries (d.memory behind) left ptr s = some (s', ok) →
      (s'.Inside d.data.length ↔
        s.Inside d.data.length ∧ ∀ k < left, ∀ q, d.Reaches ptr k q → d.FitsAt q) := by
  intro left
  induction left with
  | zero =>
    intro ptr s s' ok _ h
    cases h
    simp
  | succ left ih =>
    intro ptr s s' ok hroom h
    rw [fits_succ_iff]
    by_cases hlists : d.Lists ptr
    · obtain ⟨hsig, hlen, hoffset⟩ := id hlists
      have hlen' : ptr + 46 ≤ d.data.length := hlen
      rw [← get4LE_memory behind (by omega)] at hsig
      rw [← get4LE_memory behind (by simp only [kCDELocalOffset]; omega)] at hoffset
      obtain ⟨ent, hent, hparse⟩ := parseEntries_of_record hroom hsig hlen hoffset
      have hroom' : Roomy (addRecord (d.memory behind) ptr ent s).mHashTable left :=
        hroom.set hent _
      have hnext : ptr + (kCDELen + get2LE (d.memory behind) (ptr + kCDENameLen) +
          get2LE (d.memory behind) (ptr + kCDEExtraLen) +
          get2LE (d.memory behind) (ptr + kCDECommentLen)) = d.recordEnd ptr := by
        rw [get2LE_memory behind (by simp only [kCDENameLen]; omega),
          get2LE_memory behind (by simp only [kCDEExtraLen]; omega),
          get2LE_memory behind (by simp only [kCDECommentLen]; omega), recordEnd, nameEnd]
        omega
      have hadd : (addRecord (d.memory behind) ptr ent s).Inside d.data.length ↔
          d.FitsAt ptr ∧ s.Inside d.data.length := by
        rw [inside_addRecord hent hlen, get2LE_memory behind (by simp only [kCDENameLen]; omega)]
        simp only [FitsAt, hlists, true_imp_iff]
        exact and_congr_left' (iff_and_self.mpr fun _ => by omega)
      rw [hparse, hnext] at h
      split_ifs at h with hend
      · cases h
        rw [hadd]
        simp [not_le.mpr hend, and_comm]
      · rw [ih hroom' h, hadd, and_assoc, and_left_comm]
        simp [hlists, not_lt.mp hend]
    · rw [inside_of_not_lists behind hlists h, fits_iff_of_not_lists hlists, and_comm]

end Directory

/-! ## Archives -/

variable {file : List UInt8} {mmaps : Bool}

lemma mapDirectory_mNumEntries_lt {eocdOffset : ℕ}
    (h : mapDirectory file eocdOffset mmaps = some d) : d.mNumEntries < 2 ^ 16 := by
  simp only [mapDirectory] at h
  split_ifs at h
  cases h
  dsimp only
  exact get2LE_lt _ _

lemma mapCentralDirectory_mNumEntries_lt {mallocs : Bool}
    (h : mapCentralDirectory file mallocs mmaps = some d) : d.mNumEntries < 2 ^ 16 := by
  simp only [mapCentralDirectory] at h
  split_ifs at h
  obtain ⟨i, _, hmap⟩ := bind_eq_some_iff.mp h
  exact mapDirectory_mNumEntries_lt hmap

/-- **Where `parseZipArchive` reads.**  For every file, whatever lies behind the mapped directory: the
scan ends, and it stays inside of the directory, in what it reads and in the names it stores, exactly
when the records fit. -/
theorem parse_inside_iff {file : List UInt8} {mallocs mmaps : Bool} {d : Directory}
    (h : mapCentralDirectory file mallocs mmaps = some d) (behind : Memory) :
    ∃ s ok, d.parseZipArchive behind = some (s, ok) ∧ (s.Inside d.data.length ↔ d.Fits) := by
  have hroom := Roomy.init d (mapCentralDirectory_mNumEntries_lt h)
  obtain ⟨s, ok, hs⟩ : ∃ s ok, d.parseZipArchive behind = some (s, ok) :=
    Directory.parseEntries_returns hroom
  refine ⟨s, ok, hs, ?_⟩
  have hempty : Scan.Inside
      { mHashTable := replicate (roundUpPower2 (1 + d.mNumEntries * 4 / 3)) none }
      d.data.length := by
    refine ⟨by simp, fun slot hslot entry hentry => ?_⟩
    rw [eq_of_mem_replicate hslot] at hentry
    cases hentry
  rw [Directory.parseEntries_inside_iff behind hroom hs, and_iff_right hempty]
  rfl

/-- A four-byte signature, `directory`, and the record that says there is one entry in it. -/
def archive (directory : List UInt8) : List UInt8 :=
  [0x50, 0x4b, 0x03, 0x04] ++ directory ++ [0x50, 0x4b, 0x05, 0x06, 0, 0, 0, 0, 1, 0, 1, 0] ++
    toBytes 4 directory.length ++ [4, 0, 0, 0, 0, 0]

/-- The central directory record of an entry named `a`. -/
def recordOfA : List UInt8 :=
  [0x50, 0x4b, 0x01, 0x02] ++ List.replicate 24 0 ++ [1, 0] ++ List.replicate 16 0 ++ [0x61]

/-- An archive with one entry: its record fits. -/
theorem parse_inside_iff_a : ∃ d, mapCentralDirectory (archive recordOfA) true true = some d ∧
    d.Fits ∧ ∃ s ok, d.parseZipArchive (fun _ => 0) = some (s, ok) ∧ s.Inside d.data.length := by
  have hmap : mapCentralDirectory (archive recordOfA) true true = some ⟨1, 4, recordOfA⟩ := by
    decide +kernel
  have hinside : ((Directory.mk 1 4 recordOfA).parseZipArchive fun _ => 0).all
      (fun r => r.1.Inside recordOfA.length) = true := by decide +kernel
  obtain ⟨s, ok, hs, hiff⟩ := parse_inside_iff hmap fun _ => 0
  rw [hs, all_some, decide_eq_true_iff] at hinside
  exact ⟨_, hmap, hiff.mp hinside, s, ok, hs, hinside⟩

/-- The directory of two bytes is too short for a signature; in that of 46 bytes the name of the only
record begins where the directory ends.  Both archives are mapped, the signature is read past the end
of the first directory, and the name is hashed and stored past the end of the second. -/
theorem parse_outside :
    mapCentralDirectory (archive [0x50, 0x4b]) true true = some ⟨1, 4, [0x50, 0x4b]⟩ ∧
    mapCentralDirectory (archive (recordOfA.take 46)) true true =
      some ⟨1, 4, recordOfA.take 46⟩ ∧
    ((Directory.mk 1 4 [0x50, 0x4b]).parseZipArchive fun _ => 0).any
      (fun r => (0, 4) ∈ r.1.reads ∧ ¬ r.1.Inside 2) = true ∧
    ((Directory.mk 1 4 (recordOfA.take 46)).parseZipArchive fun _ => 0).any
      (fun r => (46, 1) ∈ r.1.reads ∧ some ⟨46, 1⟩ ∈ r.1.mHashTable ∧ ¬ r.1.Inside 46) = true := by
  refine ⟨?_, ?_, ?_, ?_⟩ <;> decide +kernel

end ZipFileRO

end Droid
