import DroidPlatform.Core.Chains
import DroidPlatform.Core.LinkedList
import DroidPlatform.Core.Word
import DroidPlatform.Resolv.DnsPacket

/-!
# The resolver cache

`struct resolv_cache` keeps the answers of recent queries.  An entry is in two lists at once: in the
collision chain of its hash, which begins in one of `max_entries` slots and goes on through `hlink`,
and in the ring `mru_list`, which begins with the entry that was used last.

Entries live at addresses.  `heap` is the memory they live in: an address that `calloc` never
returned or that was freed holds nothing, and touching it makes the whole operation `none`.  So does
a walk that outlasts its fuel, which is one unit for every address that was ever handed out.  The
links are kept apart from the other fields, in `table` and `mru`; in `mru` the null pointer stands
for `&cache->mru_list`.

The clock and the outcome of `calloc` are arguments of the operations.
-/

namespace Droid.Resolv

/-! ## Entries -/

/-- `Entry`, its links apart; the lengths are those of the lists. -/
structure Entry where
  hash : UInt32
  query : Bytes
  answer : Bytes
  /-- `time_t` when the entry isn't valid any more. -/
  expires : ℤ
  id : ℤ
  deriving DecidableEq, Repr, Inhabited

/-- The part of an `Entry` that is filled in for a search. -/
structure Key where
  hash : UInt32
  query : Bytes
  deriving DecidableEq, Repr

def Entry.key (e : Entry) : Key := ⟨e.hash, e.query⟩

/-- `entry_init_key`; `none` is the result 0. -/
def entry_init_key (query : Bytes) : Option Key :=
  let key : Key := ⟨hash_query query, query⟩
  if check_query query then some key else none

def entry_equals (query₁ query₂ : Bytes) : Bool :=
  if query₁.length ≠ query₂.length then false else is_equal_query query₁ query₂

/-- The test a lookup makes on each node: `node->hash == key->hash && entry_equals(node, key)`. -/
def Entry.isFor (e : Entry) (key : Key) : Bool :=
  decide (e.hash = key.hash) && entry_equals e.query key.query

/-! ## The lifetime of an answer -/

/-- `ns_initparse` and `ns_parserr` on the answer section: `none` when the message does not parse,
else for each record its time to live, or `none` when the record does not parse. -/
abbrev NsParse := Bytes → Option (List (Option UInt32))

/-- The loop of `answer_getTTL` from record `n` on. -/
def min_ttl : ℕ → UInt32 → List (Option UInt32) → UInt32
  | _, result, [] => result
  | n, result, none :: records => min_ttl (n + 1) result records
  | n, result, some ttl :: records =>
    min_ttl (n + 1) (if n = 0 ∨ ttl < result then ttl else result) records

def answer_getTTL (ns : NsParse) (answer : Bytes) : UInt32 :=
  match ns answer with
  | none => 0
  | some records => min_ttl 0 0 records

/-- `ttl + _time_now()`, stored into a `time_t`. -/
def expiry (ns : NsParse) (answer : Bytes) (now : ℤ) : ℤ :=
  toInt32 ((answer_getTTL ns answer).toNat + now)

/-! ## The cache -/

structure Cache where
  max_entries : ℕ
  num_entries : ℤ
  mru : LinkedList ℕ
  last_id : ℤ
  /-- The slots `entries[]` and the `hlink` fields. -/
  table : Chains ℕ ℕ
  /-- The entry at an address. -/
  heap : ℕ → Option Entry
  /-- The address that `calloc` returns next. -/
  fresh : ℕ

/-- `_resolv_cache_create` for a given size. -/
def Cache.create (max_entries : ℕ) : Cache :=
  ⟨max_entries, 0, ⟨none, none, fun _ => none, fun _ => none⟩, 0,
    ⟨fun _ => none, fun _ => none⟩, fun _ => none, 0⟩

def entry_mru_remove (l : LinkedList ℕ) (e : ℕ) : LinkedList ℕ :=
  let l := l.setNext (l.prevOf (some e)) (l.nextOf (some e))
  l.setPrev (l.nextOf (some e)) (l.prevOf (some e))

def entry_mru_add (l : LinkedList ℕ) (e : ℕ) : LinkedList ℕ :=
  let first := l.nextOf none
  let l := l.setNext (some e) first
  let l := l.setPrev (some e) none
  let l := l.setNext none (some e)
  l.setPrev first (some e)

variable (c : Cache)

namespace Cache

/-- Change the entry at `p`. -/
def modify (c : Cache) (p : ℕ) (f : Entry → Entry) : Option Cache :=
  (c.heap p).map fun e => { c with heap := Function.update c.heap p (some (f e)) }

/-- `entry_alloc` when `calloc` succeeds; the entry is at the address `fresh` from before. -/
def entry_alloc (key : Key) (answer : Bytes) : Cache :=
  { c with
    heap := Function.update c.heap c.fresh (some ⟨key.hash, key.query, answer, 0, 0⟩)
    table := c.table.set (.link c.fresh) none
    fresh := c.fresh + 1 }

/-- `entry_free` -/
def entry_free (c : Cache) (p : ℕ) : Option Cache :=
  (c.heap p).map fun _ => { c with heap := Function.update c.heap p none }

/-- `_cache_lookup_p` -/
def cache_lookup_p (c : Cache) (key : Key) : Option (Cell ℕ ℕ) :=
  c.table.search (fun p => (c.heap p).map (·.isFor key)) (c.fresh + 1)
    (.head (key.hash.toNat % c.max_entries))

/-- `_cache_add_p` -/
def cache_add_p (lookup : Cell ℕ ℕ) (e : ℕ) : Option Cache := do
  let c := { c with table := c.table.set lookup (some e), last_id := toInt32 (c.last_id + 1) }
  let c ← c.modify e fun entry => { entry with id := c.last_id }
  return { c with mru := entry_mru_add c.mru e, num_entries := c.num_entries + 1 }

/-- `_cache_remove_p` -/
def cache_remove_p (c : Cache) (lookup : Cell ℕ ℕ) : Option Cache := do
  let e ← c.table.get lookup
  let c := { c with mru := entry_mru_remove c.mru e }
  let c := { c with table := c.table.set lookup (c.table.link e) }
  let c ← c.entry_free e
  return { c with num_entries := c.num_entries - 1 }

/-- The key of the entry `mru_list.mru_prev`; the list head itself is all zero. -/
def oldest_key (c : Cache) : Option Key :=
  match c.mru.prevOf none with
  | none => some ⟨0, []⟩
  | some oldest => (c.heap oldest).map Entry.key

/-- `_cache_remove_oldest` -/
def cache_remove_oldest : Option Cache := do
  let oldest ← c.oldest_key
  let lookup ← c.cache_lookup_p oldest
  match c.table.get lookup with
  | none => return c
  | some _ => c.cache_remove_p lookup

/-- The inner loop of `_cache_flush_locked`. -/
def flush_chain (i : ℕ) : ℕ → Cache → Option Cache
  | 0, _ => none
  | fuel + 1, c =>
    match c.table.get (.head i) with
    | none => some c
    | some node => do
      let c := { c with table := c.table.set (.head i) (c.table.link node) }
      let c ← c.entry_free node
      flush_chain i fuel c

/-- The outer loop of `_cache_flush_locked`, from slot `nn` on. -/
def flush_chains : ℕ → ℕ → Cache → Option Cache
  | 0, _, c => some c
  | n + 1, nn, c => (flush_chain nn (c.fresh + 1) c).bind (flush_chains n (nn + 1))

/-- `_cache_flush_locked` -/
def cache_flush_locked : Option Cache := do
  let c ← flush_chains c.max_entries 0 c
  return { c with
    mru := (c.mru.setNext none none).setPrev none none
    num_entries := 0
    last_id := 0 }

end Cache

/-! ## The interface -/

inductive ResolvCacheStatus
  | unsupported
  | notfound
  | found
  deriving DecidableEq, Repr

/-- What `_resolv_cache_lookup` returns, writes to `*answerlen` and copies to `answer`. -/
structure LookupResult where
  status : ResolvCacheStatus
  answerlen : Option ℕ
  answer : Option Bytes
  deriving DecidableEq, Repr

namespace Cache

/-- `_resolv_cache_lookup` -/
def resolv_cache_lookup (query : Bytes) (answersize now : ℤ) : Option (Cache × LookupResult) :=
  match entry_init_key query with
  | none => some (c, ⟨.unsupported, none, none⟩)
  | some key => do
    let lookup ← c.cache_lookup_p key
    match c.table.get lookup with
    | none => return (c, ⟨.notfound, none, none⟩)
    | some e =>
      let entry ← c.heap e
      if now ≥ entry.expires then
        let c ← c.cache_remove_p lookup
        return (c, ⟨.notfound, none, none⟩)
      else if (entry.answer.length : ℤ) > answersize then
        return (c, ⟨.unsupported, some entry.answer.length, none⟩)
      else
        let mru := if some e ≠ c.mru.nextOf none then
          entry_mru_add (entry_mru_remove c.mru e) e else c.mru
        return ({ c with mru := mru }, ⟨.found, some entry.answer.length, some entry.answer⟩)

/-- The end of `_resolv_cache_add`: the answer is stored if it may be cached. -/
def store_answer (ns : NsParse) (c : Cache) (key : Key) (lookup : Cell ℕ ℕ) (answer : Bytes)
    (now : ℤ) (calloc : Bool) : Option Cache :=
  if answer_getTTL ns answer > 0 ∧ calloc then do
    let e := c.fresh
    let c := c.entry_alloc key answer
    let c ← c.modify e fun entry => { entry with expires := expiry ns answer now }
    c.cache_add_p lookup e
  else some c

/-- `_resolv_cache_add`; `calloc` says whether there is memory for the entry. -/
def resolv_cache_add (ns : NsParse) (c : Cache) (query answer : Bytes) (now : ℤ) (calloc : Bool) :
    Option Cache :=
  match entry_init_key query with
  | none => some c
  | some key => do
    let lookup ← c.cache_lookup_p key
    match c.table.get lookup with
    | some _ => return c
    | none =>
      if c.num_entries ≥ c.max_entries then
        let c ← c.cache_remove_oldest
        -- the cells of the table have changed
        let lookup ← c.cache_lookup_p key
        match c.table.get lookup with
        | some _ => return c
        | none => c.store_answer ns key lookup answer now calloc
      else c.store_answer ns key lookup answer now calloc

end Cache

end Droid.Resolv
