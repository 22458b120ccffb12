import DroidPlatform.Core.Trace
import DroidPlatform.Core.Word

/-!
# Opening and closing libraries

The linker keeps an `soinfo` for every library it has loaded, in `solist`, and counts how often it is
wanted: `dlopen` and every `DT_NEEDED` entry that leads to a library raise its `refcount`,
`dlclose` and the unloading of a library that needs it lower it.  The entries themselves remember
what they led to: `link_image` stores the `soinfo` of the needed library in the payload of the entry,
and `unload_library` follows these pointers.

An `soinfo` is an index: 0 is `libdl_info`, which is static, and `k + 1` is `sopool + k`.  Of the
dynamic section only the `DT_NEEDED` entries are kept.  What depends on files (`Files`) is given: the
names of the libraries, what they need, and whether mapping and relocating them works out.
Constructors and destructors do not call back.

`find_library` calls itself through `link_image`, and `unload_library` itself; the recursions run
on `fuel`, and `none` is the result of a run that did not end, or of a null pointer followed.
-/

namespace Droid.Dlfcn

/-- The libraries: paths, and the base names they are known by. -/
structure Files (P N : Type*) where
  bname : P → N
  /-- the `DT_NEEDED` entries, in the order of the dynamic section -/
  needed : P → List P
  /-- `load_library` finds the file and maps it -/
  loads : P → Bool
  /-- the relocations and protections of `link_image` succeed -/
  relocates : N → Bool
  /-- `"libdl.so"` -/
  libdl : N

/-- The payload of a `DT_NEEDED` entry: a name to look up, the `soinfo` it led to, or the 0 that
unloading leaves. -/
inductive Payload (P : Type*)
  | name (path : P)
  | info (si : ℕ)
  | zero
  deriving DecidableEq, Repr

def Payload.info? {P : Type*} : Payload P → Option ℕ
  | .info si => some si
  | _ => none

structure Soinfo (P N : Type*) where
  name : N
  /-- `FLAG_LINKED` -/
  linked : Bool
  /-- `FLAG_ERROR` -/
  error : Bool
  refcount : ℕ
  dynamic : Option (List (Payload P))

/-- What the `DT_NEEDED` entries point to. -/
def Soinfo.targets {P N : Type*} (si : Soinfo P N) : List ℕ :=
  (si.dynamic.getD []).filterMap Payload.info?

structure Linker (P N : Type*) where
  solist : List ℕ
  freelist : List ℕ
  socount : ℕ
  info : ℕ → Soinfo P N
  /-- the memory of the library is mapped -/
  mapped : ℕ → Bool
  somain : Option ℕ

def libdl_info : ℕ := 0

/-- `sopool + k` -/
def sopool (k : ℕ) : ℕ := k + 1

def SO_MAX : ℕ := 160

variable {P N : Type*}

namespace Linker

def setInfo (s : Linker P N) (si : ℕ) (f : Soinfo P N → Soinfo P N) : Linker P N :=
  { s with info := Function.update s.info si (f (s.info si)) }

def payload (s : Linker P N) (si i : ℕ) : Option (Payload P) :=
  ((s.info si).dynamic.getD [])[i]?

def setPayload (s : Linker P N) (si i : ℕ) (d : Payload P) : Linker P N :=
  s.setInfo si fun x => { x with dynamic := x.dynamic.map fun ds => ds.set i d }

def setRefcount (s : Linker P N) (si n : ℕ) : Linker P N :=
  s.setInfo si fun x => { x with refcount := n }

/-- `si->refcount++`, of an `unsigned` -/
def incref (s : Linker P N) (si : ℕ) : Linker P N :=
  s.setRefcount si (toUInt32 ((s.info si).refcount + 1))

/-- `si->refcount--` -/
def decref (s : Linker P N) (si : ℕ) : Linker P N :=
  s.setRefcount si (toUInt32 ((s.info si).refcount + (2 ^ 32 - 1)))

def mmap (s : Linker P N) (si : ℕ) : Linker P N :=
  { s with mapped := Function.update s.mapped si true }

def munmap (s : Linker P N) (si : ℕ) : Linker P N :=
  { s with mapped := Function.update s.mapped si false }

end Linker

/-! ## The list of libraries -/

def alloc_info (s : Linker P N) (name : N) : Option (Linker P N × ℕ) :=
  let enter := fun (s : Linker P N) si =>
    ({ s with
        solist := s.solist ++ [si]
        info := Function.update s.info si ⟨name, false, false, 0, none⟩ }, si)
  match s.freelist with
  | si :: rest => some (enter { s with freelist := rest } si)
  | [] =>
    if s.socount = SO_MAX then none
    else some (enter { s with socount := s.socount + 1 } (sopool s.socount))

def free_info (s : Linker P N) (si : ℕ) : Linker P N :=
  if si ∈ s.solist then
    { s with solist := s.solist.erase si, freelist := si :: s.freelist }
  else s

/-! ## Loading and linking -/

/-- The `DT_NEEDED` loop of `link_image`, over the entries `is` that are left. -/
def link_needed (find : Linker P N → P → Option (Linker P N × Option ℕ)) (si : ℕ) :
    List ℕ → Linker P N → Option (Linker P N × Bool)
  | [], s => some (s, true)
  | i :: is, s =>
    match s.payload si i with
    | some (.name path) =>
      match find s path with
      | none => none
      | some (s, none) => some (s, false)
      | some (s, some lsi) =>
        link_needed find si is ((s.setPayload si i (.info lsi)).incref lsi)
    -- a section that is linked for the first time holds names only
    | _ => none

def link_image (f : Files P N) (find : Linker P N → P → Option (Linker P N × Option ℕ))
    (s : Linker P N) (si : ℕ) : Option (Linker P N × Bool) :=
  let fail := fun (s : Linker P N) =>
    some (s.setInfo si fun x => { x with error := true }, false)
  match (s.info si).dynamic with
  | none => fail s
  | some ds =>
    match link_needed find si (List.range ds.length) s with
    | none => none
    | some (s, false) => fail s
    | some (s, true) =>
      if f.relocates (s.info si).name then
        some (s.setInfo si fun x => { x with linked := true }, true)
      else fail s

def load_library (f : Files P N) (s : Linker P N) (path : P) : Option (Linker P N × ℕ) :=
  if f.loads path then
    (alloc_info s (f.bname path)).map fun (s, si) =>
      ((s.mmap si).setInfo si fun x =>
        { x with dynamic := some ((f.needed path).map .name) }, si)
  else none

/-- `find_library` of a name that is not null, with `init_library`. -/
def find_library [DecidableEq N] (f : Files P N) :
    ℕ → Linker P N → P → Option (Linker P N × Option ℕ)
  | 0, _, _ => none
  | fuel + 1, s, path =>
    match s.solist.find? fun si => (s.info si).name = f.bname path with
    | some si =>
      if (s.info si).error then some (s, none)
      else if (s.info si).linked then some (s, some si)
      -- recursive link
      else some (s, none)
    | none =>
      match load_library f s path with
      | none => some (s, none)
      | some (s, si) =>
        match link_image f (find_library f fuel) s si with
        | none => none
        | some (s, false) => some (s.munmap si, none)
        | some (s, true) => some (s, some si)

/-! ## Unloading -/

/-- The loop of `unload_library` over the `DT_NEEDED` entries. -/
def unload_needed (unload : Linker P N → ℕ → Option (Linker P N)) (si : ℕ) :
    List ℕ → Linker P N → Option (Linker P N)
  | [], s => some s
  | i :: is, s =>
    let cleared := s.setPayload si i .zero
    match s.payload si i with
    -- `validate_soinfo` accepts what `link_image` has stored
    | some (.info lsi) =>
      match unload cleared lsi with
      | none => none
      | some s => unload_needed unload si is s
    | _ => unload_needed unload si is cleared

def unload_library : ℕ → Linker P N → ℕ → Option (Linker P N)
  | 0, _, _ => none
  | fuel + 1, s, si =>
    if (s.info si).refcount = 1 then
      match (s.info si).dynamic with
      | none => none
      | some ds =>
        match unload_needed (unload_library fuel) si (List.range ds.length) s with
        | none => none
        | some s => some ((free_info (s.munmap si) si).setRefcount si 0)
    else some (s.decref si)

/-! ## The interface -/

/-- Before anything is loaded: `solist` holds `libdl_info`. -/
def linker_start (f : Files P N) : Linker P N where
  solist := [libdl_info]
  freelist := []
  socount := 0
  info := fun _ => ⟨f.libdl, true, false, 0, none⟩
  mapped := fun si => si = libdl_info
  somain := none

/-- `__linker_init_post_relocation` for an executable `argv0` that needs the libraries `needs`;
`none` if the process does not start. -/
def linker_init [DecidableEq N] (f : Files P N) (fuel : ℕ) (argv0 : N) (needs : List P) :
    Option (Linker P N) :=
  match alloc_info (linker_start f) argv0 with
  | none => none
  | some (s, si) =>
    let exe := (s.mmap si).setInfo si fun x =>
      { x with refcount := 1, dynamic := some (needs.map .name) }
    match link_image f (find_library f fuel) exe si with
    | some (s, true) => some { s with somain := some si }
    | _ => none

def dlopen [DecidableEq N] (f : Files P N) (fuel : ℕ) (s : Linker P N) (filename : Option P) :
    Option (Linker P N × Option ℕ) :=
  let found := match filename with
    | none => some (s, s.somain)
    | some path => find_library f fuel s path
  match found with
  | none => none
  | some (s, none) => some (s, none)
  | some (s, some ret) => some (s.incref ret, some ret)

def dlclose (fuel : ℕ) (s : Linker P N) (handle : ℕ) : Option (Linker P N) :=
  unload_library fuel s handle

/-! ## A process -/

/-- The linker, and how many handles of each library the program has open. -/
structure Process (P N : Type*) where
  linker : Linker P N
  handles : ℕ → ℕ

inductive Call (P : Type*)
  | dlopen (filename : Option P)
  | dlclose (handle : ℕ)

/-- A `dlopen` that succeeds, or a `dlclose` of an open handle. -/
inductive Step [DecidableEq N] (f : Files P N) : Process P N → Call P → Process P N → Prop
  | dlopen {s t filename ret fuel} (h : dlopen f fuel s.linker filename = some (t, some ret)) :
      Step f s (.dlopen filename)
        ⟨t, Function.update s.handles ret (s.handles ret + 1)⟩
  | dlclose {s t handle fuel} (hopen : 0 < s.handles handle)
      (h : dlclose fuel s.linker handle = some t) :
      Step f s (.dlclose handle) ⟨t, Function.update s.handles handle (s.handles handle - 1)⟩

end Droid.Dlfcn
