import DroidPlatform.Resolv.DnsPacket

/-!
# The queries that are accepted

`check_query` is meant to recognise plain queries: a header without flags, answers and additional
records, and behind it as many questions as it announces, each for an address, a pointer, a mail
exchange, an IPv6 address or everything, in the class IN.

It does (`check_query_iff`), but for the last type: `DNS_TYPE_ALL` has the bytes of type 31 and not
those of type 255.  So `recognises_iff`: it is wrong about the queries with a question of type 31
that are otherwise fine, which it accepts, and about those with one of type 255, which it rejects.
-/

namespace Droid.Resolv

variable {query : Bytes} {es : List Question}

/-- A query with a header that can be cached, field by field. -/
structure PlainHeader (query : Bytes) : Prop where
  size : DNS_HEADER_SIZE ≤ query.length
  qr : query.getD 2 0 >>> 7 = 0
  opcode : query.getD 2 0 >>> 3 &&& 15 = 0
  aa : query.getD 2 0 >>> 2 &&& 1 = 0
  ra : query.getD 3 0 >>> 7 = 0
  z : query.getD 3 0 >>> 4 &&& 7 = 0
  rcode : query.getD 3 0 &&& 15 = 0
  ancount : count_at query 6 = 0
  nscount : count_at query 8 = 0
  arcount : count_at query 10 = 0
  qdcount : 0 < count_at query 4

/-- The packet asks these questions, all of the given types. -/
structure Asks (types : List Bytes) (query : Bytes) (es : List Question) : Prop where
  header : PlainHeader query
  count : es.length = count_at query 4
  hasType : ∀ e ∈ es, e.HasType types
  isPrefix : wire es <+: query.drop DNS_HEADER_SIZE

lemma flags_iff (b : UInt8) :
    (b &&& 0xFC = 0 ↔ b >>> 7 = 0 ∧ b >>> 3 &&& 15 = 0 ∧ b >>> 2 &&& 1 = 0) ∧
      (b = 0 ↔ b >>> 7 = 0 ∧ b >>> 4 &&& 7 = 0 ∧ b &&& 15 = 0) := by
  obtain ⟨b⟩ := b
  revert b
  decide +kernel

lemma plainHeader_iff : PlainHeader query ↔ DNS_HEADER_SIZE ≤ query.length ∧
    (query.getD 2 0 &&& 0xFC = 0 ∧ query.getD 3 0 = 0) ∧
    (count_at query 6 = 0 ∧ count_at query 8 = 0 ∧ count_at query 10 = 0) ∧
    count_at query 4 ≠ 0 := by
  rw [(flags_iff (query.getD 2 0)).1, (flags_iff (query.getD 3 0)).2]
  constructor
  · intro h
    exact ⟨h.size, ⟨⟨h.qr, h.opcode, h.aa⟩, h.ra, h.z, h.rcode⟩,
      ⟨h.ancount, h.nscount, h.arcount⟩, h.qdcount.ne'⟩
  · rintro ⟨hsize, ⟨⟨hqr, hopcode, haa⟩, hra, hz, hrcode⟩, ⟨han, hns, har⟩, hqd⟩
    exact ⟨hsize, hqr, hopcode, haa, hra, hz, hrcode, han, hns, har, Nat.pos_of_ne_zero hqd⟩

/-- **What is accepted.** -/
theorem check_query_iff : check_query query = true ↔ ∃ es, Asks supported query es := by
  have hsection : (check_qrs (count_at query 4) (query.drop DNS_HEADER_SIZE)).isSome = true ↔
      ∃ es : List Question, es.length = count_at query 4 ∧ (∀ e ∈ es, e.HasType supported) ∧
        wire es <+: query.drop DNS_HEADER_SIZE := by
    simp only [Option.isSome_iff_exists, check_qrs_iff, List.IsPrefix, @eq_comm _ (_ ++ _)]
    grind
  have hasks : (∃ es, Asks supported query es) ↔ PlainHeader query ∧
      (check_qrs (count_at query 4) (query.drop DNS_HEADER_SIZE)).isSome = true := by
    rw [hsection]
    exact ⟨fun ⟨es, h⟩ => ⟨h.header, es, h.count, h.hasType, h.isPrefix⟩,
      fun ⟨h, es, hcount, htype, hprefix⟩ => ⟨es, h, hcount, htype, hprefix⟩⟩
  rw [hasks, plainHeader_iff, check_query]
  split_ifs with hlen hflags hcounts hqd
  all_goals grind

/-- The packet decides what is asked. -/
lemma Asks.unique {types types' : List Bytes} {fs : List Question} (h : Asks types query es)
    (h' : Asks types' query fs) : es = fs := by
  obtain ⟨r, hr⟩ := h.isPrefix
  obtain ⟨s, hs⟩ := h'.isPrefix
  exact (wire_inj (h.count.trans h'.count.symm) (hr.trans hs.symm)).1

/-- Another type in the place of one leaves the queries without it. -/
lemma asks_imp_iff (common : List Bytes) (a b : Bytes) (hab : a ∉ common ++ [b]) :
    ((∃ es, Asks (common ++ [a]) query es) → ∃ es, Asks (common ++ [b]) query es) ↔
      ∀ es, Asks (common ++ [a]) query es → ∀ e ∈ es, ¬ e.HasType [a] := by
  constructor
  · rintro h es hes e he ⟨_, ha, hfields⟩
    obtain ⟨fs, hfs⟩ := h ⟨es, hes⟩
    obtain ⟨type, htype, hfields'⟩ := hfs.hasType e (hes.unique hfs ▸ he)
    rw [List.mem_singleton] at ha
    rw [List.append_cancel_right (hfields'.symm.trans hfields), ha] at htype
    exact hab htype
  · rintro h ⟨es, hes⟩
    refine ⟨es, hes.header, hes.count, fun e he => ?_, hes.isPrefix⟩
    obtain ⟨type, htype, hfields⟩ := hes.hasType e he
    rcases List.mem_append.mp htype with hcommon | ha
    · exact ⟨type, List.mem_append_left _ hcommon, hfields⟩
    · exact absurd ⟨type, ha, hfields⟩ (h es hes e he)

/-- The types that are meant: A, PTR, MX, AAAA and ALL, big-endian. -/
def specified : List Bytes := [[0, 1], [0, 12], [0, 15], [0, 28], [0, 255]]

/-- **When `check_query` is right about a packet.** -/
theorem recognises_iff : (check_query query = true ↔ ∃ es, Asks specified query es) ↔
    (∀ es, Asks supported query es → ∀ e ∈ es, ¬ e.HasType [[0, 31]]) ∧
      ∀ es, Asks specified query es → ∀ e ∈ es, ¬ e.HasType [[0, 255]] := by
  rw [check_query_iff]
  exact iff_iff_implies_and_implies.trans <| and_congr
    (asks_imp_iff [[0, 1], [0, 12], [0, 15], [0, 28]] [0, 31] [0, 255] (by decide))
    (asks_imp_iff [[0, 1], [0, 12], [0, 15], [0, 28]] [0, 255] [0, 31] (by decide))

/-- Everything about `a`. -/
def anyQuery : Bytes := [0, 0, 1, 0, 0, 1, 0, 0, 0, 0, 0, 0, 1, 97, 0, 0, 255, 0, 1]

theorem not_recognises_any : ¬ (check_query anyQuery = true ↔ ∃ es, Asks specified anyQuery es) := by
  have hname : QName (1 :: ([97] ++ [0])) := .label (by decide) (by decide) rfl .root
  have hasks : Asks specified anyQuery [⟨_, hname, [0, 255, 0, 1], rfl⟩] :=
    { header := by constructor <;> decide
      count := rfl
      hasType := by simp [Question.HasType, specified, DNS_CLASS_IN]
      isPrefix := List.prefix_rfl }
  have hcheck : check_query anyQuery = false := by decide +kernel
  rw [hcheck]
  exact fun h => Bool.false_ne_true (h.mpr ⟨_, hasks⟩)

end Droid.Resolv
