import Mathlib.Tactic

/-!
# Query packets

The resolver cache does not parse queries into records, it works on their bytes.  A `DnsPacket` is a
buffer with a cursor; here the cursor is the list of bytes from the cursor to the end of the buffer,
so that a read past the end is a read of an empty list.

* `check_query` accepts the queries that can be cached;
* `hash_query` and `is_equal_query` are meant for accepted queries only.

On accepted queries of one length `is_equal_query` is an equivalence: it compares the question
section, and an accepted question section reads the same way every time.  On a query that was not
accepted it need not even be reflexive.
-/

namespace Droid.Resolv

open Option

abbrev Bytes := List UInt8

/-! ## Reading -/

/-- `_dnsPacket_skip` -/
def skip (count : ℕ) (cursor : Bytes) : Bytes := cursor.drop count

/-- `_dnsPacket_readInt16`; `none` is the result `-1`. -/
def read_int16 : Bytes → Option (ℕ × Bytes)
  | a :: b :: rest => some (a.toNat * 256 + b.toNat, rest)
  | _ => none

/-! ## Checking -/

def DNS_HEADER_SIZE : ℕ := 12

def DNS_TYPE_A : Bytes := [0, 1]
def DNS_TYPE_PTR : Bytes := [0, 12]
def DNS_TYPE_MX : Bytes := [0, 15]
def DNS_TYPE_AAAA : Bytes := [0, 28]
/-- The source writes `"\00\0377"`.  An octal escape has at most three digits, so that the second
byte is `\037` and the `7` is a third one that is never compared. -/
def DNS_TYPE_ALL : Bytes := [0, 31]
def DNS_CLASS_IN : Bytes := [0, 1]

/-- `_dnsPacket_checkBytes` -/
def check_bytes (bytes cursor : Bytes) : Option Bytes :=
  if bytes.isPrefixOf cursor then some (cursor.drop bytes.length) else none

/-- `_dnsPacket_checkQName` -/
def check_qname : Bytes → Option Bytes
  | [] => none
  | c :: p =>
    if c = 0 then some p
    -- no label compression in the names of a query
    else if c ≥ 64 then none
    else check_qname (p.drop c.toNat)
  termination_by p => p.length
  decreasing_by simp

/-- `_dnsPacket_checkQR` -/
def check_qr (cursor : Bytes) : Option Bytes := do
  let p ← check_qname cursor
  let p ← check_bytes DNS_TYPE_A p <|> check_bytes DNS_TYPE_PTR p <|> check_bytes DNS_TYPE_MX p <|>
    check_bytes DNS_TYPE_AAAA p <|> check_bytes DNS_TYPE_ALL p
  check_bytes DNS_CLASS_IN p

/-- The loop over the question records. -/
def check_qrs : ℕ → Bytes → Option Bytes
  | 0, cursor => some cursor
  | count + 1, cursor => (check_qr cursor).bind (check_qrs count)

/-- A 16-bit field of the header. -/
def count_at (query : Bytes) (i : ℕ) : ℕ :=
  (query.getD i 0).toNat * 256 + (query.getD (i + 1) 0).toNat

/-- `_dnsPacket_checkQuery` -/
def check_query (query : Bytes) : Bool :=
  if query.length < DNS_HEADER_SIZE then false
  else if query.getD 2 0 &&& 0xFC ≠ 0 ∨ query.getD 3 0 ≠ 0 then false
  else if count_at query 6 ≠ 0 ∨ count_at query 8 ≠ 0 ∨ count_at query 10 ≠ 0 then false
  else if count_at query 4 = 0 then false
  else (check_qrs (count_at query 4) (query.drop DNS_HEADER_SIZE)).isSome

/-! ## Hashing -/

def FNV_MULT : UInt32 := 16777619
def FNV_BASIS : UInt32 := 2166136261

/-- One byte goes into the hash. -/
def fnv (hash : UInt32) (b : UInt8) : UInt32 := hash * FNV_MULT ^^^ b.toUInt32

/-- `_dnsPacket_hashBytes`.  The loop never counts `numBytes` down, so that it hashes everything up
to the end of the packet. -/
def hash_bytes (numBytes : ℕ) (hash : UInt32) (cursor : Bytes) : UInt32 × Bytes :=
  if numBytes > 0 then (cursor.foldl fnv hash, []) else (hash, cursor)

/-- `_dnsPacket_hashQName` -/
def hash_qname (hash : UInt32) : Bytes → UInt32 × Bytes
  | [] => (hash, [])
  | c :: p =>
    if c = 0 then (hash, p)
    else if c ≥ 64 then (hash, p)
    else if c.toNat ≥ p.length then (hash, p)
    else hash_qname ((p.take c.toNat).foldl fnv hash) (p.drop c.toNat)
  termination_by p => p.length
  decreasing_by simp

/-- `_dnsPacket_hashQR` -/
def hash_qr (hash : UInt32) (cursor : Bytes) : UInt32 × Bytes :=
  let (hash, cursor) := hash_qname hash cursor
  hash_bytes 4 hash cursor

/-- The loop over the question records. -/
def hash_qrs : ℕ → UInt32 → Bytes → UInt32
  | 0, hash, _ => hash
  | count + 1, hash, cursor =>
    let (hash, cursor) := hash_qr hash cursor
    hash_qrs count hash cursor

/-- `_dnsPacket_hashQuery`.  Byte 2 is read whether or not the packet has one; no result for such a
short packet is ever used. -/
def hash_query (query : Bytes) : UInt32 :=
  let hash := FNV_BASIS * FNV_MULT ^^^ (query.getD 2 0 &&& 1).toUInt32
  match read_int16 (skip 4 query) with
  | none => hash
  | some (count, cursor) => hash_qrs count hash (skip 6 cursor)

/-! ## Comparing -/

/-- `_dnsPacket_isEqualDomainName`; on success, both cursors behind the name. -/
def is_equal_domain_name : Bytes → Bytes → Option (Bytes × Bytes)
  | c₁ :: p₁, c₂ :: p₂ =>
    if c₁ ≠ c₂ then none
    else if c₁ = 0 then some (p₁, p₂)
    else if c₁ ≥ 64 then none
    else if c₁.toNat > p₁.length ∨ c₁.toNat > p₂.length then none
    else if p₁.take c₁.toNat ≠ p₂.take c₁.toNat then none
    else is_equal_domain_name (p₁.drop c₁.toNat) (p₂.drop c₁.toNat)
  | _, _ => none
  termination_by p => p.length
  decreasing_by simp

/-- `_dnsPacket_isEqualBytes` -/
def is_equal_bytes (numBytes : ℕ) (p₁ p₂ : Bytes) : Option (Bytes × Bytes) :=
  if numBytes > p₁.length ∨ numBytes > p₂.length then none
  else if p₁.take numBytes ≠ p₂.take numBytes then none
  else some (p₁.drop numBytes, p₂.drop numBytes)

/-- `_dnsPacket_isEqualQR` -/
def is_equal_qr (p₁ p₂ : Bytes) : Option (Bytes × Bytes) :=
  (is_equal_domain_name p₁ p₂).bind fun p => is_equal_bytes (2 + 2) p.1 p.2

/-- The loop over the question records. -/
def is_equal_qrs : ℕ → Bytes → Bytes → Bool
  | 0, _, _ => true
  | count + 1, p₁, p₂ =>
    match is_equal_qr p₁ p₂ with
    | none => false
    | some (p₁, p₂) => is_equal_qrs count p₁ p₂

/-- `_dnsPacket_isEqualQuery` -/
def is_equal_query (query₁ query₂ : Bytes) : Bool :=
  if query₁.getD 2 0 &&& 1 ≠ query₂.getD 2 0 &&& 1 then false
  else match read_int16 (skip 4 query₁), read_int16 (skip 4 query₂) with
    | some (count₁, p₁), some (count₂, p₂) =>
      if count₁ ≠ count₂ then false else is_equal_qrs count₁ (skip 6 p₁) (skip 6 p₂)
    | _, _ => false

/-! ## Question sections -/

/-- Labels of one to 63 bytes, each behind its length, ended by a zero byte. -/
inductive QName : Bytes → Prop
  | root : QName [0]
  | label {c : UInt8} {label name : Bytes} (h0 : c ≠ 0) (h64 : ¬ c ≥ 64)
      (hlabel : label.length = c.toNat) (hname : QName name) : QName (c :: (label ++ name))

variable {p q r s : Bytes} {n : ℕ}

lemma QName.length_pos {name : Bytes} (h : QName name) : 0 < name.length := by
  cases h <;> simp

lemma check_qname_append {name : Bytes} (h : QName name) : check_qname (name ++ r) = some r := by
  induction h with
  | root => simp [check_qname]
  | label h0 h64 hlabel _ ih =>
    rw [List.cons_append, check_qname, if_neg h0, if_neg h64, List.append_assoc, ← hlabel,
      List.drop_left, ih]

/-- A label that ends before the end of the packet is one of a longer name. -/
lemma QName.cons_take {c : UInt8} {name : Bytes} (h0 : c ≠ 0) (h64 : ¬ c ≥ 64) (h : QName name)
    (hdrop : p.drop c.toNat = name ++ r) :
    QName (c :: (p.take c.toNat ++ name)) ∧ c :: p = c :: (p.take c.toNat ++ name) ++ r := by
  have hlen := congrArg List.length hdrop
  have hpos := h.length_pos
  simp only [List.length_drop, List.length_append] at hlen
  refine ⟨.label h0 h64 (by simp; omega) h, ?_⟩
  rw [List.cons_append, List.append_assoc, ← hdrop, List.take_append_drop]

lemma check_qname_iff : check_qname p = some r ↔ ∃ name, QName name ∧ p = name ++ r := by
  refine ⟨fun h => ?_, ?_⟩
  · fun_induction check_qname p with
    | case1 => cases h
    | case2 p => exact ⟨[0], .root, by simpa using h⟩
    | case3 => cases h
    | case4 c p h0 h64 ih =>
      obtain ⟨name, hname, hdrop⟩ := ih h
      exact ⟨_, hname.cons_take h0 h64 hdrop⟩
  · rintro ⟨name, hname, rfl⟩
    exact check_qname_append hname

/-- No name goes on where another one ends. -/
lemma QName.append_inj {a b : Bytes} (ha : QName a) (hb : QName b) (h : a ++ r = b ++ s) :
    a = b ∧ r = s := by
  have hrs : some r = some s := by rw [← check_qname_append ha, h, check_qname_append hb]
  cases hrs
  exact ⟨List.append_cancel_right h, rfl⟩

lemma is_equal_domain_name_iff : is_equal_domain_name p q = some (r, s) ↔
    ∃ name, QName name ∧ p = name ++ r ∧ q = name ++ s := by
  refine ⟨fun h => ?_, ?_⟩
  · fun_induction is_equal_domain_name p q with
    | case2 p1 c p2 heq =>
      cases h
      rw [← not_ne_iff.mp heq]
      exact ⟨[0], .root, rfl, rfl⟩
    | case6 c p1 c2 p2 heq h0 h64 _ htake ih =>
      obtain ⟨name, hname, hp, hq⟩ := ih h
      rw [← not_ne_iff.mp heq]
      obtain ⟨hlabel, hp'⟩ := hname.cons_take h0 h64 hp
      exact ⟨_, hlabel, hp', not_ne_iff.mp htake ▸ (hname.cons_take h0 h64 hq).2⟩
    | _ => cases h
  · rintro ⟨name, hname, rfl, rfl⟩
    induction hname with
    | root => simp [is_equal_domain_name]
    | label h0 h64 hlabel _ ih =>
      simp only [List.cons_append, List.append_assoc, is_equal_domain_name, ← hlabel]
      simp [h0, h64, ih]

/-- A question: its name, and TYPE and CLASS behind it. -/
@[ext] structure Question where
  name : Bytes
  isName : QName name
  fields : Bytes
  isFields : fields.length = 2 + 2

def Question.bytes (e : Question) : Bytes := e.name ++ e.fields

lemma Question.bytes_inj {e f : Question} (h : e.bytes ++ r = f.bytes ++ s) : e = f ∧ r = s := by
  simp only [bytes, List.append_assoc] at h
  obtain ⟨hname, hrest⟩ := e.isName.append_inj f.isName h
  obtain ⟨hfields, hrs⟩ := List.append_inj hrest (e.isFields.trans f.isFields.symm)
  exact ⟨Question.ext hname hfields, hrs⟩

lemma is_equal_bytes_iff : is_equal_bytes n p q = some (r, s) ↔
    ∃ bytes, bytes.length = n ∧ p = bytes ++ r ∧ q = bytes ++ s := by
  simp only [is_equal_bytes]
  constructor
  · intro h
    split_ifs at h with hlen htake
    cases h
    refine ⟨p.take n, by simp; omega, by simp, ?_⟩
    rw [not_ne_iff.mp htake, List.take_append_drop]
  · rintro ⟨bytes, rfl, rfl, rfl⟩
    simp

lemma is_equal_qr_iff : is_equal_qr p q = some (r, s) ↔
    ∃ e : Question, p = e.bytes ++ r ∧ q = e.bytes ++ s := by
  simp only [is_equal_qr, Option.bind_eq_some_iff, Prod.exists, is_equal_domain_name_iff,
    is_equal_bytes_iff]
  constructor
  · rintro ⟨_, _, ⟨name, hname, rfl, rfl⟩, fields, hfields, rfl, rfl⟩
    exact ⟨⟨name, hname, fields, hfields⟩, by simp [Question.bytes], by simp [Question.bytes]⟩
  · rintro ⟨⟨name, hname, fields, hfields⟩, rfl, rfl⟩
    exact ⟨fields ++ r, fields ++ s, ⟨name, hname, by simp [Question.bytes], by simp [Question.bytes]⟩,
      fields, hfields, rfl, rfl⟩

/-- The bytes of a list of questions. -/
def wire (es : List Question) : Bytes := es.flatMap Question.bytes

lemma wire_cons (e : Question) (es : List Question) (r : Bytes) :
    wire (e :: es) ++ r = e.bytes ++ (wire es ++ r) := by
  simp [wire]

lemma wire_inj {es fs : List Question} (hlen : es.length = fs.length)
    (h : wire es ++ r = wire fs ++ s) : es = fs ∧ r = s := by
  induction es generalizing fs with
  | nil =>
    cases fs with
    | nil => exact ⟨rfl, h⟩
    | cons f fs => cases hlen
  | cons e es ih =>
    cases fs with
    | nil => cases hlen
    | cons f fs =>
      rw [wire_cons, wire_cons] at h
      obtain ⟨rfl, hrest⟩ := Question.bytes_inj h
      obtain ⟨rfl, hrs⟩ := ih (by simpa using hlen) hrest
      exact ⟨rfl, hrs⟩

lemma is_equal_qrs_iff : is_equal_qrs n p q = true ↔
    ∃ es r s, es.length = n ∧ p = wire es ++ r ∧ q = wire es ++ s := by
  induction n generalizing p q with
  | zero => simp [is_equal_qrs, wire]
  | succ n ih =>
    constructor
    · intro h
      rw [is_equal_qrs] at h
      split at h
      · cases h
      · rename_i hqr
        obtain ⟨e, rfl, rfl⟩ := is_equal_qr_iff.mp hqr
        obtain ⟨es, r, s, rfl, rfl, rfl⟩ := ih.mp h
        exact ⟨e :: es, r, s, rfl, (wire_cons ..).symm, (wire_cons ..).symm⟩
    · rintro ⟨es, r, s, hlen, rfl, rfl⟩
      obtain ⟨e, es, rfl⟩ := List.exists_cons_of_length_eq_add_one hlen
      rw [is_equal_qrs, is_equal_qr_iff.mpr ⟨e, wire_cons .., wire_cons ..⟩]
      exact ih.mpr ⟨es, r, s, by simpa using hlen, rfl, rfl⟩

/-! ## Accepted sections -/

lemma check_bytes_iff {bytes : Bytes} : check_bytes bytes p = some r ↔ p = bytes ++ r := by
  simp only [check_bytes, Option.ite_none_right_eq_some, List.isPrefixOf_iff_prefix]
  constructor
  · rintro ⟨⟨t, rfl⟩, h⟩
    simpa using h
  · rintro rfl
    simp

/-- The question is of one of these types, and of the class IN. -/
def Question.HasType (types : List Bytes) (e : Question) : Prop :=
  ∃ type ∈ types, e.fields = type ++ DNS_CLASS_IN

/-- The types that are accepted. -/
def supported : List Bytes := [DNS_TYPE_A, DNS_TYPE_PTR, DNS_TYPE_MX, DNS_TYPE_AAAA, DNS_TYPE_ALL]

/-- At most one of the alternatives is there. -/
lemma check_types_iff :
    (check_bytes DNS_TYPE_A p <|> check_bytes DNS_TYPE_PTR p <|> check_bytes DNS_TYPE_MX p <|>
      check_bytes DNS_TYPE_AAAA p <|> check_bytes DNS_TYPE_ALL p) = some r ↔
      ∃ type ∈ supported, p = type ++ r := by
  simp only [orElse_eq_orElse, orElse_eq_or, supported, List.mem_cons, List.not_mem_nil, or_false]
  constructor
  · simp only [or_eq_some_iff, check_bytes_iff]
    rintro (rfl | ⟨-, rfl | ⟨-, rfl | ⟨-, rfl | ⟨-, rfl⟩⟩⟩⟩) <;> simp
  · rintro ⟨type, rfl | rfl | rfl | rfl | rfl, rfl⟩ <;>
      simp [check_bytes, DNS_TYPE_A, DNS_TYPE_PTR, DNS_TYPE_MX, DNS_TYPE_AAAA, DNS_TYPE_ALL]

lemma check_qr_iff : check_qr p = some r ↔
    ∃ e : Question, e.HasType supported ∧ p = e.bytes ++ r := by
  simp only [check_qr, bind_eq_bind, bind_eq_some_iff, check_qname_iff, check_types_iff,
    check_bytes_iff]
  constructor
  · rintro ⟨_, ⟨name, hname, rfl⟩, _, ⟨type, htype, rfl⟩, rfl⟩
    have hlen : (type ++ DNS_CLASS_IN).length = 2 + 2 := by
      revert type
      decide
    exact ⟨⟨name, hname, _, hlen⟩, ⟨type, htype, rfl⟩, by simp [Question.bytes]⟩
  · rintro ⟨⟨name, hname, fields, hfields⟩, ⟨type, htype, rfl⟩, rfl⟩
    exact ⟨_, ⟨name, hname, List.append_assoc ..⟩, _, ⟨type, htype, List.append_assoc ..⟩, rfl⟩

lemma check_qrs_iff : check_qrs n p = some r ↔
    ∃ es : List Question, es.length = n ∧ (∀ e ∈ es, e.HasType supported) ∧ p = wire es ++ r := by
  induction n generalizing p with
  | zero => simp [check_qrs, wire]
  | succ n ih =>
    simp only [check_qrs, bind_eq_some_iff, check_qr_iff, ih]
    constructor
    · rintro ⟨_, ⟨e, he, rfl⟩, es, rfl, hes, rfl⟩
      exact ⟨e :: es, rfl, List.forall_mem_cons.mpr ⟨he, hes⟩, (wire_cons ..).symm⟩
    · rintro ⟨es, hlen, hes, rfl⟩
      obtain ⟨e, es, rfl⟩ := List.exists_cons_of_length_eq_add_one hlen
      rw [List.forall_mem_cons] at hes
      exact ⟨_, ⟨e, hes.1, wire_cons ..⟩, es, by simpa using hlen, hes.2, rfl⟩

/-! ## Equality is an equivalence on accepted queries -/

variable {query₁ query₂ : Bytes}

/-- What a query comparison has seen when it succeeds. -/
lemma is_equal_query_iff : is_equal_query query₁ query₂ = true ↔
    query₁.getD 2 0 &&& 1 = query₂.getD 2 0 &&& 1 ∧ ∃ count p1 p2,
      read_int16 (skip 4 query₁) = some (count, p1) ∧
      read_int16 (skip 4 query₂) = some (count, p2) ∧
      is_equal_qrs count (skip 6 p1) (skip 6 p2) = true := by
  rw [is_equal_query]
  by_cases hrd : query₁.getD 2 0 &&& 1 = query₂.getD 2 0 &&& 1
  · simp only [ne_eq]
    cases h1 : read_int16 (skip 4 query₁) with
    | none => simp
    | some r1 =>
      cases h2 : read_int16 (skip 4 query₂) with
      | none => simp
      | some r2 =>
        obtain ⟨count1, p1⟩ := r1
        obtain ⟨count2, p2⟩ := r2
        by_cases hcount : count1 = count2
        · subst hcount
          simp
        · simp [hcount, Ne.symm hcount]
  · simp only [hrd, ne_eq, not_false_eq_true, if_true, false_and, Bool.false_eq_true]

lemma is_equal_query_symm (h : is_equal_query query₁ query₂ = true) :
    is_equal_query query₂ query₁ = true := by
  rw [is_equal_query_iff] at h ⊢
  obtain ⟨hrd, count, p1, p2, h1, h2, hqrs⟩ := h
  obtain ⟨es, r, s, hlen, hp, hq⟩ := is_equal_qrs_iff.mp hqrs
  exact ⟨hrd.symm, count, p2, p1, h2, h1, is_equal_qrs_iff.mpr ⟨es, s, r, hlen, hq, hp⟩⟩

lemma is_equal_query_trans {query3 : Bytes} (h : is_equal_query query₁ query₂ = true)
    (h' : is_equal_query query₂ query3 = true) : is_equal_query query₁ query3 = true := by
  rw [is_equal_query_iff] at h h' ⊢
  obtain ⟨hrd, count, p1, p2, h1, h2, hqrs⟩ := h
  obtain ⟨hrd', count', p2', p3, h2', h3, hqrs'⟩ := h'
  rw [h2] at h2'
  cases h2'
  refine ⟨hrd.trans hrd', count, p1, p3, h1, h3, ?_⟩
  obtain ⟨es, r, s, hlen, hp, hq⟩ := is_equal_qrs_iff.mp hqrs
  obtain ⟨fs, _, u, hlen', hq', ht⟩ := is_equal_qrs_iff.mp hqrs'
  obtain ⟨rfl, -⟩ := wire_inj (hlen.trans hlen'.symm) (hq.symm.trans hq')
  exact is_equal_qrs_iff.mpr ⟨es, r, u, hlen, hp, ht⟩

variable {query : Bytes}

/-- The count and the cursor behind the header of a packet that has one. -/
lemma read_int16_header (h : DNS_HEADER_SIZE ≤ query.length) :
    ∃ p, read_int16 (skip 4 query) = some (count_at query 4, p) ∧
      skip 6 p = query.drop DNS_HEADER_SIZE := by
  match query, h with
  | _ :: _ :: _ :: _ :: a :: b :: p, _ => exact ⟨p, rfl, rfl⟩

/-- An accepted query is equal to itself. -/
lemma is_equal_query_refl (h : check_query query = true) : is_equal_query query query = true := by
  rw [check_query] at h
  split_ifs at h with hlen hflags hcounts hqd
  obtain ⟨p, hread, hskip⟩ := read_int16_header (not_lt.mp hlen)
  refine is_equal_query_iff.mpr ⟨rfl, _, p, p, hread, hread, ?_⟩
  obtain ⟨r, hr⟩ := Option.isSome_iff_exists.mp h
  obtain ⟨es, hlen, -, hes⟩ := check_qrs_iff.mp hr
  exact is_equal_qrs_iff.mpr ⟨es, r, r, hlen, hskip.trans hes, hskip.trans hes⟩

end Droid.Resolv
