import Mathlib.Data.List.Find
import WineGlass.Lib.Run

/-!
# Import thunks

`wg_dll_mapper.c` gives each imported function an entry and an address eight bytes
behind the one before; every load moves the addresses to its own page. Names are C
strings, without the terminator. What stands behind an unterminated name buffer is
an input of `resolve`. `answers` records what `resolve` said since the last load; the
code does not read it.
-/

namespace WineGlass.Thunks

open Runs

abbrev U64 := BitVec 64
abbrev Byte := BitVec 8
abbrev Name := List Byte

def name (s : String) : Name := s.toList.map fun c => BitVec.ofNat 8 c.toNat

/-- `WG_THUNK_BASE`, and the place for 32-bit programs. -/
def thunkBase : U64 := 0xDEAD0000
def thunkBase32 : U64 := 0xC00000

def regionSize : Nat := 0x20000
def capacity : Nat := 4096

/-- `WG_DLG_SENTINEL`, the first of them, in the page. -/
def sentinelOffset : Nat := 0x10000

/-- The stubs that `wg_dll_mapper_register` compares with, and the others. -/
inductive Stub
  | default | return1 | returnNeg1 | getCurrentProcess | other (n : Nat)
  deriving DecidableEq, Repr

structure Entry where
  dllName : Name
  funcName : Name
  thunkAddr : U64
  handler : Stub
  numArgs : Nat
  defaultRet : Int
  deriving DecidableEq, Repr

structure Mapper where
  entries : List Entry
  nextThunk : U64

def Stub.ret : Stub → Int
  | .return1 => 1
  | .returnNeg1 | .getCurrentProcess => -1
  | _ => 0

/-- `wg_dll_mapper_register`. -/
def register (m : Mapper) (dll func : Name) (handler : Stub) (numArgs : Nat) : U64 × Mapper :=
  if capacity ≤ m.entries.length then (0, m)
  else (m.nextThunk,
    { entries := m.entries ++
        [⟨dll.take 63, func.take 127, m.nextThunk, handler, numArgs, handler.ret⟩]
      nextThunk := m.nextThunk + 8 })

-- ---------------------------------------------------------------------------
-- Names
-- ---------------------------------------------------------------------------

def dot : Byte := 0x2E

def lowerByte (c : Byte) : Byte := if 0x41 ≤ c ∧ c ≤ 0x5A then c + 0x20 else c

/-- Two names that `strcasecmp` takes for equal have the same `lower`. -/
def lower (s : Name) : Name := s.map lowerByte

/-- The part before the last dot. -/
def cutLastDot : Name → Option Name
  | [] => none
  | c :: cs =>
    match cutLastDot cs with
    | some p => some (c :: p)
    | none => if c = dot then some [] else none

/-- What `strrchr` and the terminator leave. -/
def stem (s : Name) : Name := (cutLastDot s).getD s

/-- A name in a `char[64]` that `strncpy` gave 63 bytes, with `junk` behind it. -/
def stripped (junk s : Name) : Name :=
  stem (if s.length < 63 then s else s.take 63 ++ junk)

def Entry.exact (dll func : Name) (e : Entry) : Bool :=
  lower e.dllName = lower dll && e.funcName = func

def Entry.loose (junk : Name × Name) (dll func : Name) (e : Entry) : Bool :=
  lower (stripped junk.1 e.dllName) = lower (stripped junk.2 dll) && e.funcName = func

/-- `wg_dll_mapper_resolve`. -/
def resolve (junk : Name × Name) (m : Mapper) (dll func : Name) : U64 × Mapper :=
  match m.entries.find? (·.exact dll func) with
  | some e => (e.thunkAddr, m)
  | none =>
    match m.entries.find? (·.loose junk dll func) with
    | some e => (e.thunkAddr, m)
    | none => register m dll func .default 0

/-- The entry that the handler of a thunk finds by its address. -/
def dispatch (m : Mapper) (addr : U64) : Option Entry := m.entries.find? (·.thunkAddr = addr)

/-- `wg_dll_mapper_get_handler`. -/
def getHandler (m : Mapper) (addr : U64) : Option Stub := (dispatch m addr).map (·.handler)

-- ---------------------------------------------------------------------------
-- Loads
-- ---------------------------------------------------------------------------

def baseOf (is64 : Bool) : U64 := if is64 then thunkBase else thunkBase32

/-- `map_thunks_to_blink` in a fresh VM. -/
def mapThunks (m : Mapper) (base : U64) : Mapper where
  entries := m.entries.mapIdx fun i e => { e with thunkAddr := base + BitVec.ofNat 64 (8 * i) }
  nextThunk := base + BitVec.ofNat 64 (8 * m.entries.length)

/-- The methods of the fake COM objects, with their arguments. -/
def comMethods : List (Name × Nat) :=
  [(name "__comQI", 3), (name "__comA1", 1), (name "__comA2", 2), (name "__comA3", 3),
    (name "__comA4", 4), (name "__comA5", 5)]

def registerAll (m : Mapper) : List (Name × Nat) → List U64 × Mapper
  | [] => ([], m)
  | (f, n) :: fs =>
    let r := register m (name "COM") f .default n
    let rest := registerAll r.2 fs
    (r.1 :: rest.1, rest.2)

/-- `base` is the mapped page's, `com` what `s_com_qi` and the others hold. -/
structure State where
  mapper : Mapper
  base : Option U64
  com : List (BitVec 32)
  answers : List ((Name × Name) × U64)

def State.init : State := ⟨⟨[], thunkBase⟩, none, List.replicate 6 0, []⟩

inductive Action
  | load (is64 : Bool)
  | register (dll func : Name) (handler : Stub) (numArgs : Nat)
  | resolve (dll func : Name) (junk : Name × Name)
  | buildCom
  deriving DecidableEq, Repr

/-- The label is the address returned. -/
def step (s : State) : Action → Option (State × Option U64)
  | .load is64 =>
    some (⟨mapThunks s.mapper (baseOf is64), some (baseOf is64), s.com, []⟩, none)
  | .register dll func handler numArgs =>
    let r := register s.mapper dll func handler numArgs
    some ({ s with mapper := r.2 }, some r.1)
  | .resolve dll func junk =>
    if s.base = none then none
    else
      let r := resolve junk s.mapper dll func
      let answers := if r.1 = 0 then s.answers else ((dll, func), r.1) :: s.answers
      some ({ s with mapper := r.2, answers }, some r.1)
  | .buildCom =>
    if s.base = none then none
    else if s.com.head? = some 0 then
      let r := registerAll s.mapper comMethods
      some ({ s with mapper := r.2, com := r.1.map (·.setWidth 32) }, none)
    else some (s, none)

-- ---------------------------------------------------------------------------
-- What a thunk stands for
-- ---------------------------------------------------------------------------

/-- A module by its full name: without an extension it is a DLL. -/
def canon (dll : Name) : Name := if dot ∈ dll then lower dll else lower dll ++ name ".dll"

def Entry.key (e : Entry) : Name × Name := (e.dllName, e.funcName)

/-- The same function of the same module. -/
def Same (k k' : Name × Name) : Prop := canon k.1 = canon k'.1 ∧ k.2 = k'.2

instance : Decidable (Same k k') := inferInstanceAs (Decidable (_ ∧ _))

structure Identifies (s : State) : Prop where
  same_iff : ∀ x ∈ s.answers, ∀ y ∈ s.answers, Same x.1 y.1 ↔ x.2 = y.2
  inside : ∀ x ∈ s.answers, ∃ base, s.base = some base ∧ base.toNat ≤ x.2.toNat ∧
    x.2.toNat < base.toNat + sentinelOffset ∧ x.2.toNat < base.toNat + regionSize
  selects : ∀ x ∈ s.answers, ∃ e, dispatch s.mapper x.2 = some e ∧ Same e.key x.1
  cached : ∀ x ∈ comMethods.zip s.com, x.2 ≠ 0 →
    ∃ e, dispatch s.mapper (x.2.setWidth 64) = some e ∧ e.key = (name "COM", x.1.1)
  refuses : ∀ junk dll func, (resolve junk s.mapper dll func).1 = 0 →
    s.mapper.entries.length = capacity ∧ (resolve junk s.mapper dll func).2 = s.mapper

/-- No entry of the function is spelled otherwise. -/
def Spelled (m : Mapper) (dll func : Name) : Prop :=
  ∀ e ∈ m.entries, Same e.key (dll, func) → lower e.dllName = lower dll

/-- The function is not one of another module that differs in its extension. -/
def Apart (m : Mapper) (dll func : Name) : Prop :=
  ∀ e ∈ m.entries, e.funcName = func → lower (stem e.dllName) = lower (stem dll) →
    canon e.dllName = canon dll

def Fits (dll func : Name) : Prop := dll.length < 63 ∧ func.length ≤ 127

instance : Decidable (Fits dll func) := inferInstanceAs (Decidable (_ ∧ _))

/-- Names fit their buffers and mean one function; the width of the programs does not
change once the COM methods have addresses. -/
def Faithful (s : State) : Action → Prop
  | .load is64 => ∀ c ∈ s.com, c ≠ 0 → s.base = some (baseOf is64)
  | .register dll func _ _ => Fits dll func ∧ Spelled s.mapper dll func
  | .resolve dll func _ => Fits dll func ∧ Apart s.mapper dll func
  | .buildCom => ∀ f ∈ comMethods, Spelled s.mapper (name "COM") f.1

-- ---------------------------------------------------------------------------
-- Names and modules
-- ---------------------------------------------------------------------------

theorem lowerByte_dot : lowerByte c = dot ↔ c = dot := by
  unfold lowerByte dot
  split
  · rename_i h
    constructor
    · intro hc
      bv_omega
    · rintro rfl
      exact absurd h (by decide)
  · exact Iff.rfl

theorem cutLastDot_lower (s : Name) : cutLastDot (lower s) = (cutLastDot s).map lower := by
  induction s with
  | nil => rfl
  | cons c s ih =>
    simp only [lower, List.map_cons, cutLastDot] at ih ⊢
    rw [ih]
    cases cutLastDot s with
    | some p => rfl
    | none => by_cases hc : c = dot <;> simp [lowerByte_dot, hc, lower]

theorem stem_lower (s : Name) : stem (lower s) = lower (stem s) := by
  unfold stem
  rw [cutLastDot_lower]
  cases cutLastDot s <;> rfl

theorem cutLastDot_none (h : dot ∉ s) : cutLastDot s = none := by
  induction s with
  | nil => rfl
  | cons c s ih =>
    obtain ⟨hc, hs⟩ := not_or.1 (mt List.mem_cons.2 h)
    simp [cutLastDot, ih hs, Ne.symm hc]

theorem cutLastDot_append (h : dot ∉ t) : cutLastDot (s ++ dot :: t) = some s := by
  induction s with
  | nil => simp [cutLastDot, cutLastDot_none h]
  | cons c s ih => simp [cutLastDot, ih]

/-- What `canon` adds, the stem leaves out again. -/
theorem stem_canon (d : Name) : stem (canon d) = lower (stem d) := by
  unfold canon
  split
  · exact stem_lower d
  · rename_i h
    have hdll : name ".dll" = dot :: name "dll" := by decide
    rw [hdll, stem, cutLastDot_append (by decide), stem, cutLastDot_none h]
    rfl

theorem lower_stem_of_canon (h : canon d = canon d') : lower (stem d) = lower (stem d') := by
  rw [← stem_canon, h, stem_canon]

theorem lower_has_dot : dot ∈ lower d ↔ dot ∈ d := by
  simp only [lower, List.mem_map, lowerByte_dot, exists_eq_right]

theorem canon_of_lower (h : lower d = lower d') : canon d = canon d' := by
  have hdot : dot ∈ d ↔ dot ∈ d' := by rw [← lower_has_dot, h, lower_has_dot]
  simp only [canon, h, hdot]

theorem Same.symm (h : Same k k') : Same k' k := ⟨h.1.symm, h.2.symm⟩

theorem Same.trans (h : Same k k') (h' : Same k' k'') : Same k k'' :=
  ⟨h.1.trans h'.1, h.2.trans h'.2⟩

theorem stripped_short (h : s.length < 63) : stripped junk s = stem s := by
  rw [stripped, if_pos h]

-- ---------------------------------------------------------------------------
-- The table
-- ---------------------------------------------------------------------------

/-- The entries lie one behind the other from `base` on. -/
structure Laid (m : Mapper) (base : U64) : Prop where
  origin : base = thunkBase ∨ base = thunkBase32
  addr : ∀ i e, m.entries[i]? = some e → e.thunkAddr.toNat = base.toNat + 8 * i
  next : m.nextThunk.toNat = base.toNat + 8 * m.entries.length
  room : m.entries.length ≤ capacity

theorem Laid.bounds (h : Laid m base) : 0 < base.toNat ∧ base.toNat < 0xE0000000 := by
  obtain rfl | rfl := h.origin <;> decide

theorem Laid.inj (h : Laid m base) (he : e ∈ m.entries) (he' : e' ∈ m.entries)
    (ha : e.thunkAddr = e'.thunkAddr) : e = e' := by
  obtain ⟨i, hi⟩ := List.mem_iff_getElem?.1 he
  obtain ⟨j, hj⟩ := List.mem_iff_getElem?.1 he'
  have hij : i = j := by
    have haddr := h.addr i e hi
    rw [ha, h.addr j e' hj] at haddr
    omega
  subst hij
  exact Option.some.inj (hi.symm.trans hj)

theorem find?_unique {l : List β} {p : β → Bool} (hx : x ∈ l) (hp : p x)
    (h : ∀ y ∈ l, p y → y = x) : l.find? p = some x := by
  cases hf : l.find? p with
  | none => exact absurd hp (by simpa using List.find?_eq_none.1 hf x hx)
  | some y => rw [h y (List.mem_of_find?_eq_some hf) (List.find?_some hf)]

/-- Dispatch at an entry's address selects it. -/
theorem Laid.dispatch (h : Laid m base) (he : e ∈ m.entries) :
    dispatch m e.thunkAddr = some e := by
  refine find?_unique he (decide_eq_true rfl) fun y hy ha => ?_
  exact h.inj hy he (of_decide_eq_true ha)

theorem Laid.inside (h : Laid m base) (he : e ∈ m.entries) :
    base.toNat ≤ e.thunkAddr.toNat ∧ e.thunkAddr.toNat < base.toNat + 8 * capacity := by
  obtain ⟨i, hi⟩ := List.mem_iff_getElem?.1 he
  have haddr := h.addr i e hi
  have hlt := (List.getElem?_eq_some_iff.1 hi).1
  have hroom := h.room
  omega

theorem Laid.ne_zero (h : Laid m base) (he : e ∈ m.entries) : e.thunkAddr ≠ 0 := by
  intro hz
  have hin := (h.inside he).1
  have hpos := h.bounds.1
  simp [hz] at hin
  omega

/-- The first entry of a function. -/
def first (m : Mapper) (k : Name × Name) : Option Entry := m.entries.find? fun e => Same e.key k

theorem first_spec (h : first m k = some e) : e ∈ m.entries ∧ Same e.key k :=
  ⟨List.mem_of_find?_eq_some h, of_decide_eq_true (List.find?_some h :)⟩

theorem first_same (h : Same k k') : first m k = first m k' := by
  refine List.find?_congr fun e _ => decide_eq_decide.2 ?_
  exact ⟨fun he => he.trans h, fun he => he.trans h.symm⟩

/-- A table in which every function has one spelling that fits. -/
structure Table (m : Mapper) (base : U64) : Prop extends Laid m base where
  fits : ∀ e ∈ m.entries, Fits e.dllName e.funcName
  spelled : ∀ e ∈ m.entries, Spelled m e.dllName e.funcName

theorem exact_spec {e : Entry} :
    e.exact dll func ↔ lower e.dllName = lower dll ∧ e.funcName = func := by
  simp [Entry.exact]

/-- The exact comparison finds the first entry or none. -/
theorem Table.find_exact (h : Table m base)
    (hf : m.entries.find? (·.exact dll func) = some e) : first m (dll, func) = some e := by
  have he := List.mem_of_find?_eq_some hf
  have hx := exact_spec.1 (List.find?_some hf :)
  rw [← hf]
  refine List.find?_congr fun y hy => Bool.eq_iff_iff.2 ?_
  rw [exact_spec, decide_eq_true_eq]
  constructor
  · rintro ⟨hcanon, rfl⟩
    have hey : Same y.key e.key := ⟨hcanon.trans (canon_of_lower hx.1).symm, hx.2.symm⟩
    exact ⟨(h.spelled e he y hy hey).trans hx.1, rfl⟩
  · rintro ⟨hlow, rfl⟩
    exact ⟨canon_of_lower hlow, rfl⟩

/-- Without the extensions the comparison finds the first entry. -/
theorem Table.find_loose (h : Table m base) (hf : Fits dll func) (ha : Apart m dll func) :
    m.entries.find? (·.loose junk dll func) = first m (dll, func) := by
  refine List.find?_congr fun y hy => Bool.eq_iff_iff.2 ?_
  simp only [Entry.loose, stripped_short (h.fits y hy).1, stripped_short hf.1,
    Bool.and_eq_true, decide_eq_true_eq]
  constructor
  · rintro ⟨hstem, rfl⟩
    exact ⟨ha y hy rfl hstem, rfl⟩
  · rintro ⟨hcanon, rfl⟩
    exact ⟨lower_stem_of_canon hcanon, rfl⟩

theorem Table.resolve (h : Table m base) (hf : Fits dll func) (ha : Apart m dll func) :
    resolve junk m dll func =
      match first m (dll, func) with
      | some e => (e.thunkAddr, m)
      | none => register m dll func .default 0 := by
  unfold Thunks.resolve
  cases hx : m.entries.find? (·.exact dll func) with
  | some e => simp only [h.find_exact hx]
  | none => simp only [h.find_loose hf ha]

-- ---------------------------------------------------------------------------
-- Registration
-- ---------------------------------------------------------------------------

/-- The entry that `register` appends. -/
def Mapper.fresh (m : Mapper) (dll func : Name) (handler : Stub) (n : Nat) : Entry :=
  ⟨dll.take 63, func.take 127, m.nextThunk, handler, n, handler.ret⟩

theorem register_cases (m : Mapper) (dll func : Name) (handler : Stub) (n : Nat) :
    (m.entries.length ≥ capacity ∧ register m dll func handler n = (0, m)) ∨
    (m.entries.length < capacity ∧ register m dll func handler n = (m.nextThunk,
      ⟨m.entries ++ [m.fresh dll func handler n], m.nextThunk + 8⟩)) := by
  unfold register
  split
  · rename_i h
    exact .inl ⟨h, rfl⟩
  · rename_i h
    exact .inr ⟨not_le.1 h, rfl⟩

theorem fresh_key (h : Fits dll func) : (Mapper.fresh m dll func handler n).key = (dll, func) := by
  simp only [Mapper.fresh, Entry.key, List.take_of_length_le h.1.le, List.take_of_length_le h.2]

theorem register_mem (he : e ∈ m.entries) : e ∈ (register m dll func handler n).2.entries := by
  obtain ⟨-, hr⟩ | ⟨-, hr⟩ := register_cases m dll func handler n
  · simpa [hr] using he
  · simp [hr, he]

/-- Entries that were there first stay first. -/
theorem register_first (h : first m k = some e) :
    first (register m dll func handler n).2 k = some e := by
  obtain ⟨-, hr⟩ | ⟨-, hr⟩ := register_cases m dll func handler n
  · rw [hr]
    exact h
  · rw [hr, first, List.find?_append]
    unfold first at h
    rw [h]
    rfl

theorem Laid.next_ne_zero (h : Laid m base) : m.nextThunk ≠ 0 := by
  intro hz
  have hnext := h.next
  have hpos := h.bounds.1
  simp [hz] at hnext
  omega

theorem getElem?_snoc {l : List β} (h : (l ++ [x])[i]? = some y) :
    l[i]? = some y ∨ i = l.length ∧ y = x := by
  obtain hlt | rfl | hgt := Nat.lt_trichotomy i l.length
  · rw [List.getElem?_append_left hlt] at h
    exact .inl h
  · rw [List.getElem?_concat_length] at h
    exact .inr ⟨rfl, (Option.some.inj h).symm⟩
  · have hlen := (List.getElem?_eq_some_iff.1 h).1
    rw [List.length_append, List.length_singleton] at hlen
    omega

/-- A failed registration left a full table as it was. -/
theorem Laid.register_zero (h : Laid m base) (hz : (register m dll func handler n).1 = 0) :
    m.entries.length = capacity ∧ (register m dll func handler n).2 = m := by
  obtain ⟨hfull, hr⟩ | ⟨-, hr⟩ := register_cases m dll func handler n
  · exact ⟨le_antisymm h.room hfull, by rw [hr]⟩
  · rw [hr] at hz
    exact absurd hz h.next_ne_zero

theorem Laid.register (h : Laid m base) : Laid (register m dll func handler n).2 base := by
  obtain ⟨-, hr⟩ | ⟨hlt, hr⟩ := register_cases m dll func handler n
  · rwa [hr]
  · rw [hr]
    have hnext := h.next
    have hbase := h.bounds.2
    have hcap : m.entries.length < 4096 := hlt
    refine ⟨h.origin, fun i e hi => ?_, ?_, ?_⟩
    · obtain hold | ⟨rfl, rfl⟩ := getElem?_snoc hi
      · exact h.addr i e hold
      · exact hnext
    · rw [List.length_append, List.length_singleton]
      bv_omega
    · rw [List.length_append, List.length_singleton]
      exact hlt

theorem Table.register (h : Table m base) (hf : Fits dll func) (hs : Spelled m dll func) :
    Table (register m dll func handler n).2 base := by
  obtain ⟨-, hr⟩ | ⟨hlt, hr⟩ := register_cases m dll func handler n
  · rwa [hr]
  · have hkey : (m.fresh dll func handler n).key = (dll, func) := fresh_key hf
    have hdll : (m.fresh dll func handler n).dllName = dll := congrArg Prod.fst hkey
    have hfunc : (m.fresh dll func handler n).funcName = func := congrArg Prod.snd hkey
    refine ⟨h.toLaid.register, ?_, ?_⟩ <;> rw [hr]
    · intro e he
      obtain he | he := List.mem_append.1 he
      · exact h.fits e he
      · obtain rfl := List.mem_singleton.1 he
        rwa [hdll, hfunc]
    · intro e he y hy hsame
      obtain he | he := List.mem_append.1 he <;> obtain hy | hy := List.mem_append.1 hy
      · exact h.spelled e he y hy hsame
      · obtain rfl := List.mem_singleton.1 hy
        rw [hkey] at hsame
        rw [hdll]
        exact (hs e he hsame.symm).symm
      · obtain rfl := List.mem_singleton.1 he
        rw [hdll, hfunc] at hsame
        rw [hdll]
        exact hs y hy hsame
      · rw [List.mem_singleton.1 he, List.mem_singleton.1 hy]

theorem registerAll_mem (l : List (Name × Nat)) (he : e ∈ m.entries) :
    e ∈ (registerAll m l).2.entries := by
  induction l generalizing m with
  | nil => exact he
  | cons f fs ih => exact ih (register_mem he)

theorem registerAll_first (h : first m k = some e) : first (registerAll m fs).2 k = some e := by
  induction fs generalizing m with
  | nil => exact h
  | cons f fs ih => exact ih (register_first h)

theorem spelled_register (h : Spelled m dll func) (hfit : dll.length < 63) :
    Spelled (register m dll func' handler n).2 dll func := by
  obtain ⟨-, hr⟩ | ⟨-, hr⟩ := register_cases m dll func' handler n <;> rw [hr]
  · exact h
  · intro e he hsame
    obtain he | he := List.mem_append.1 he
    · exact h e he hsame
    · rw [List.mem_singleton.1 he, Mapper.fresh, List.take_of_length_le hfit.le]

theorem com_fits : ∀ f ∈ comMethods, Fits (name "COM") f.1 := by decide

theorem Table.registerAll (h : Table m base) (hf : ∀ f ∈ fs, Fits (name "COM") f.1)
    (hs : ∀ f ∈ fs, Spelled m (name "COM") f.1) : Table (registerAll m fs).2 base := by
  induction fs generalizing m with
  | nil => exact h
  | cons f fs ih =>
    obtain ⟨hf, hfs⟩ := List.forall_mem_cons.1 hf
    obtain ⟨hs, hss⟩ := List.forall_mem_cons.1 hs
    exact ih (h.register hf hs) hfs fun g hg => spelled_register (hss g hg) (by decide)

/-- What each method got is the address of its entry. -/
theorem registerAll_got (hf : ∀ f ∈ fs, Fits (name "COM") f.1) :
    ∀ x ∈ fs.zip (registerAll m fs).1, x.2 ≠ 0 →
      ∃ e ∈ (registerAll m fs).2.entries, e.thunkAddr = x.2 ∧ e.key = (name "COM", x.1.1) := by
  induction fs generalizing m with
  | nil => exact fun x hx => nomatch hx
  | cons f fs ih =>
    obtain ⟨hf, hfs⟩ := List.forall_mem_cons.1 hf
    intro x hx hne
    obtain rfl | hx := List.mem_cons.1 hx
    · obtain ⟨-, hr⟩ | ⟨-, hr⟩ := register_cases m (name "COM") f.1 .default f.2
      · exact absurd (congrArg Prod.fst hr) hne
      · have hmem : m.fresh (name "COM") f.1 .default f.2 ∈
            (register m (name "COM") f.1 .default f.2).2.entries := by
          rw [hr]
          exact List.mem_append_right _ (List.mem_singleton_self _)
        have hkept := registerAll_mem fs hmem
        exact ⟨_, hkept, (congrArg Prod.fst hr).symm, fresh_key hf⟩
    · exact ih hfs x hx hne

-- ---------------------------------------------------------------------------
-- Runs
-- ---------------------------------------------------------------------------

structure Inv (s : State) : Prop where
  table : Table s.mapper (s.base.getD thunkBase)
  answered : ∀ x ∈ s.answers, s.base.isSome ∧ ∃ e, first s.mapper x.1 = some e ∧ e.thunkAddr = x.2
  cached : ∀ x ∈ comMethods.zip s.com, x.2 ≠ 0 →
    ∃ e ∈ s.mapper.entries, e.thunkAddr = x.2.setWidth 64 ∧ e.key = (name "COM", x.1.1)

theorem Inv.init : Inv .init := by
  refine ⟨⟨⟨.inl rfl, ?_, rfl, ?_⟩, ?_, ?_⟩, ?_, ?_⟩
  · simp [State.init]
  · decide
  · simp [State.init]
  · simp [State.init]
  · simp [State.init]
  · decide

theorem mapThunks_mem (base : U64) (h : e ∈ m.entries) :
    ∃ i, m.entries[i]? = some e ∧
      { e with thunkAddr := base + BitVec.ofNat 64 (8 * i) } ∈ (mapThunks m base).entries := by
  obtain ⟨i, hi⟩ := List.mem_iff_getElem?.1 h
  exact ⟨i, hi, List.mem_iff_getElem?.2 ⟨i, by simp [mapThunks, List.getElem?_mapIdx, hi]⟩⟩

theorem mapThunks_key (h : e ∈ (mapThunks m base).entries) : ∃ e' ∈ m.entries, e'.key = e.key := by
  obtain ⟨i, hi⟩ := List.mem_iff_getElem?.1 h
  simp only [mapThunks, List.getElem?_mapIdx, Option.map_eq_some_iff] at hi
  obtain ⟨e', he', rfl⟩ := hi
  exact ⟨e', List.mem_of_getElem? he', rfl⟩

theorem Laid.mapThunks (h : Laid m base) (hb : base' = thunkBase ∨ base' = thunkBase32) :
    Laid (mapThunks m base') base' := by
  have hlt : base'.toNat < 0xE0000000 := by obtain rfl | rfl := hb <;> decide
  have hroom : m.entries.length ≤ 4096 := h.room
  refine ⟨hb, fun i e hi => ?_, ?_, ?_⟩
  · have hlen := (List.getElem?_eq_some_iff.1 hi).1
    simp only [Thunks.mapThunks, List.getElem?_mapIdx, List.length_mapIdx,
      Option.map_eq_some_iff] at hi hlen
    obtain ⟨e', -, rfl⟩ := hi
    bv_omega
  · simp only [Thunks.mapThunks, List.length_mapIdx]
    bv_omega
  · simpa [Thunks.mapThunks] using h.room

theorem Table.mapThunks (h : Table m base) (hb : base' = thunkBase ∨ base' = thunkBase32) :
    Table (mapThunks m base') base' := by
  refine ⟨h.toLaid.mapThunks hb, fun e he => ?_, fun e he y hy hsame => ?_⟩
  · obtain ⟨e', he', hkey⟩ := mapThunks_key he
    obtain ⟨hd, hf⟩ := Prod.mk.inj hkey
    rw [← hd, ← hf]
    exact h.fits e' he'
  · obtain ⟨e', he', hkey⟩ := mapThunks_key he
    obtain ⟨y', hy', hkey'⟩ := mapThunks_key hy
    obtain ⟨hd, -⟩ := Prod.mk.inj hkey
    obtain ⟨hd', -⟩ := Prod.mk.inj hkey'
    rw [← hd, ← hd']
    refine h.spelled e' he' y' hy' ?_
    have hsame : Same y.key e.key := hsame
    rwa [← hkey, ← hkey'] at hsame

theorem baseOf_cases (is64 : Bool) : baseOf is64 = thunkBase ∨ baseOf is64 = thunkBase32 := by
  cases is64 <;> decide

/-- With the page where it was, every entry keeps its address. -/
theorem mapThunks_same (h : Laid m base) (he : e ∈ m.entries) :
    e ∈ (mapThunks m base).entries := by
  obtain ⟨i, hi, hmem⟩ := mapThunks_mem base he
  have haddr := h.addr i e hi
  have hsame : base + BitVec.ofNat 64 (8 * i) = e.thunkAddr := by bv_omega
  rwa [hsame] at hmem

theorem Inv.load (hi : Inv s) (hok : ∀ c ∈ s.com, c ≠ 0 → s.base = some (baseOf is64)) :
    Inv ⟨mapThunks s.mapper (baseOf is64), some (baseOf is64), s.com, []⟩ := by
  refine ⟨hi.table.mapThunks (baseOf_cases is64), List.forall_mem_nil _, fun x hx hne => ?_⟩
  obtain ⟨e, he, haddr, hkey⟩ := hi.cached x hx hne
  have hlaid := hi.table.toLaid
  rw [hok x.2 (List.of_mem_zip hx).2 hne] at hlaid
  exact ⟨e, mapThunks_same hlaid he, haddr, hkey⟩

/-- A table that grew keeps what was said about its entries. -/
theorem Inv.grow (hi : Inv s) (ht : Table m (s.base.getD thunkBase))
    (hmem : ∀ e ∈ s.mapper.entries, e ∈ m.entries)
    (hfirst : ∀ k e, first s.mapper k = some e → first m k = some e) :
    Inv { s with mapper := m } := by
  refine ⟨ht, fun x hx => ?_, fun x hx hne => ?_⟩
  · obtain ⟨hb, e, he, haddr⟩ := hi.answered x hx
    exact ⟨hb, e, hfirst _ _ he, haddr⟩
  · obtain ⟨e, he, h⟩ := hi.cached x hx hne
    exact ⟨e, hmem e he, h⟩

theorem Inv.register (hi : Inv s) (handler : Stub) (n : Nat) (hf : Fits dll func)
    (hs : Spelled s.mapper dll func) :
    Inv { s with mapper := (register s.mapper dll func handler n).2 } :=
  hi.grow (hi.table.register hf hs) (fun _ => register_mem) fun _ _ => register_first

theorem Inv.answer (hi : Inv s) (hb : s.base.isSome) (he : first s.mapper k = some e) :
    Inv { s with answers := (k, e.thunkAddr) :: s.answers } := by
  refine ⟨hi.table, List.forall_mem_cons.2 ⟨⟨hb, e, he, rfl⟩, hi.answered⟩, hi.cached⟩

/-- A function without an entry gets the last one. -/
theorem first_register (hf : Fits dll func) (hn : first m (dll, func) = none)
    (hne : (Thunks.register m dll func handler n).1 ≠ 0) :
    ∃ e, first (Thunks.register m dll func handler n).2 (dll, func) = some e ∧
      e.thunkAddr = (Thunks.register m dll func handler n).1 := by
  obtain ⟨-, hr⟩ | ⟨-, hr⟩ := register_cases m dll func handler n
  · exact absurd (congrArg Prod.fst hr) hne
  · refine ⟨m.fresh dll func handler n, ?_, by rw [hr]; rfl⟩
    have hkey : Same (m.fresh dll func handler n).key (dll, func) := by
      rw [fresh_key hf]
      exact ⟨rfl, rfl⟩
    unfold first at hn
    rw [hr, first, List.find?_append, hn]
    simp [hkey]

/-- A function without an entry has no other spelling either. -/
theorem spelled_of_none (hn : first m (dll, func) = none) : Spelled m dll func := by
  intro e he hsame
  have hnot := List.find?_eq_none.1 hn e he
  exact absurd (decide_eq_true hsame) hnot

theorem Inv.resolve (hi : Inv s) (hb : s.base.isSome) (hf : Fits dll func)
    (ha : Apart s.mapper dll func) :
    let r := resolve junk s.mapper dll func
    Inv { s with mapper := r.2, answers := if r.1 = 0 then s.answers else ((dll, func), r.1) :: s.answers } := by
  simp only [hi.table.resolve hf ha]
  cases hfst : first s.mapper (dll, func) with
  | some e =>
    rw [if_neg (hi.table.ne_zero (first_spec hfst).1)]
    exact hi.answer hb hfst
  | none =>
    have hreg := hi.register .default 0 hf (spelled_of_none hfst)
    dsimp only
    split
    · exact hreg
    · rename_i hne
      obtain ⟨e, he, haddr⟩ := first_register hf hfst hne
      rw [← haddr]
      exact hreg.answer hb he

/-- The addresses lie below `2 ^ 32`, so the cast keeps them. -/
theorem registerAll_cached (ht : Table (registerAll m fs).2 base)
    (hf : ∀ f ∈ fs, Fits (name "COM") f.1) :
    ∀ x ∈ fs.zip ((registerAll m fs).1.map (·.setWidth 32)), x.2 ≠ (0 : BitVec 32) →
      ∃ e ∈ (registerAll m fs).2.entries, e.thunkAddr = x.2.setWidth 64 ∧
        e.key = (name "COM", x.1.1) := by
  rw [List.zip_map_right]
  intro x hx hne
  obtain ⟨y, hy, rfl⟩ := List.mem_map.1 hx
  have hy0 : y.2 ≠ 0 := by
    intro hz
    simp [hz] at hne
  obtain ⟨e, he, haddr, hkey⟩ := registerAll_got hf y hy hy0
  refine ⟨e, he, ?_, hkey⟩
  have hin := (ht.inside he).2
  have hbase := ht.bounds.2
  have hcap : capacity = 4096 := rfl
  have hlow : y.2.toNat < 2 ^ 32 := by
    rw [← haddr]
    omega
  rw [haddr]
  apply BitVec.eq_of_toNat_eq
  simp only [Prod.map_snd, BitVec.toNat_setWidth]
  omega

theorem Inv.buildCom (hi : Inv s)
    (hs : ∀ f ∈ comMethods, Spelled s.mapper (name "COM") f.1) :
    Inv { s with mapper := (registerAll s.mapper comMethods).2,
                 com := (registerAll s.mapper comMethods).1.map (·.setWidth 32) } := by
  have ht := hi.table.registerAll com_fits hs
  have hcached := registerAll_cached ht com_fits
  have hgrow := hi.grow ht (fun _ => registerAll_mem _) fun _ _ => registerAll_first
  generalize registerAll s.mapper comMethods = r at *
  exact ⟨ht, hgrow.answered, hcached⟩

theorem step_inv (hi : Inv s) (hok : Faithful s a) (h : step s a = some (s', e)) : Inv s' := by
  cases a with
  | load is64 =>
    obtain rfl : _ = s' := congrArg Prod.fst (Option.some.inj h)
    exact hi.load hok
  | register dll func handler n =>
    obtain rfl : _ = s' := congrArg Prod.fst (Option.some.inj h)
    exact hi.register handler n hok.1 hok.2
  | resolve dll func junk =>
    simp only [step] at h
    split at h
    · cases h
    · rename_i hb
      obtain rfl : _ = s' := congrArg Prod.fst (Option.some.inj h)
      exact hi.resolve (Option.isSome_iff_ne_none.2 hb) hok.1 hok.2
  | buildCom =>
    simp only [step] at h
    split at h
    · cases h
    · have hcom := hi.buildCom hok
      split at h <;> simp only [Option.some.injEq, Prod.mk.injEq] at h <;> rw [← h.1]
      · exact hcom
      · exact hi

/-- What `resolve` says lies in the table's part of the page, or it is 0. -/
theorem Laid.resolve (h : Laid m base) :
    Laid (resolve junk m dll func).2 base ∧ (resolve junk m dll func).1.toNat < 2 ^ 32 := by
  have hbase := h.bounds.2
  have hcap : capacity = 4096 := rfl
  have hentry : ∀ e ∈ m.entries, e.thunkAddr.toNat < 2 ^ 32 := by
    intro e he
    have hin := (h.inside he).2
    omega
  unfold Thunks.resolve
  split
  · rename_i e he
    exact ⟨h, hentry e (List.mem_of_find?_eq_some he)⟩
  · split
    · rename_i e he
      exact ⟨h, hentry e (List.mem_of_find?_eq_some he)⟩
    · refine ⟨h.register, ?_⟩
      obtain ⟨-, hr⟩ | ⟨hlt, hr⟩ := register_cases m dll func .default 0 <;> rw [hr]
      · exact Nat.two_pow_pos 32
      · have hnext := h.next
        dsimp only
        omega

theorem Laid.registerAll (h : Laid m base) (l : List (Name × Nat)) :
    Laid (registerAll m l).2 base := by
  induction l generalizing m with
  | nil => exact h
  | cons f l ih => exact ih h.register

/-- Whatever the names, the entries lie one behind the other in every run. -/
theorem laid_run (h : Run step anyStep .init tr s) : Laid s.mapper (s.base.getD thunkBase) := by
  refine h.invariant (P := fun _ s => Laid s.mapper (s.base.getD thunkBase)) Inv.init.table.toLaid
    fun {_ s a s' _} hlaid _ hst => ?_
  cases a with
  | load is64 =>
    obtain rfl : _ = s' := congrArg Prod.fst (Option.some.inj hst)
    exact hlaid.mapThunks (baseOf_cases is64)
  | register dll func handler n =>
    obtain rfl : _ = s' := congrArg Prod.fst (Option.some.inj hst)
    exact hlaid.register
  | resolve dll func junk =>
    simp only [step] at hst
    split at hst
    · cases hst
    · obtain rfl : _ = s' := congrArg Prod.fst (Option.some.inj hst)
      exact hlaid.resolve.1
  | buildCom =>
    have hcom := hlaid.registerAll comMethods
    simp only [step] at hst
    generalize registerAll s.mapper comMethods = r at hst hcom
    split at hst
    · cases hst
    · split at hst <;> obtain rfl : _ = s' := congrArg Prod.fst (Option.some.inj hst)
      · exact hcom
      · exact hlaid

theorem Inv.identifies (hi : Inv s) : Identifies s := by
  have hlaid := hi.table.toLaid
  refine ⟨fun x hx y hy => ?_, fun x hx => ?_, fun x hx => ?_, fun x hx hne => ?_,
    fun junk dll func hz => ?_⟩
  · obtain ⟨-, e, he, hxa⟩ := hi.answered x hx
    obtain ⟨-, f, hf, hya⟩ := hi.answered y hy
    obtain ⟨hem, hex⟩ := first_spec he
    obtain ⟨hfm, hfy⟩ := first_spec hf
    constructor
    · intro hsame
      rw [first_same hsame, hf] at he
      obtain rfl := Option.some.inj he
      exact hxa.symm.trans hya
    · intro heq
      obtain rfl := hlaid.inj hem hfm (hxa.trans (heq.trans hya.symm))
      exact hex.symm.trans hfy
  · obtain ⟨hb, e, he, haddr⟩ := hi.answered x hx
    obtain ⟨base, hbase⟩ := Option.isSome_iff_exists.1 hb
    obtain ⟨hlo, hhi⟩ := hlaid.inside (first_spec he).1
    rw [haddr, hbase, Option.getD_some] at hlo hhi
    unfold capacity at hhi
    refine ⟨base, hbase, hlo, ?_, ?_⟩
    · unfold sentinelOffset
      omega
    · unfold regionSize
      omega
  · obtain ⟨-, e, he, haddr⟩ := hi.answered x hx
    obtain ⟨hem, hex⟩ := first_spec he
    exact ⟨e, haddr ▸ hlaid.dispatch hem, hex⟩
  · obtain ⟨e, he, haddr, hkey⟩ := hi.cached x hx hne
    exact ⟨e, haddr ▸ hlaid.dispatch he, hkey⟩
  · unfold Thunks.resolve at hz ⊢
    split
    · rename_i e he
      simp only [he] at hz
      exact absurd hz (hlaid.ne_zero (List.mem_of_find?_eq_some he))
    · rename_i hno
      simp only [hno] at hz
      split
      · rename_i e he
        simp only [he] at hz
        exact absurd hz (hlaid.ne_zero (List.mem_of_find?_eq_some he))
      · rename_i hno'
        simp only [hno'] at hz
        exact hlaid.register_zero hz

/-- While names fit their buffers and their extensions mean nothing, and the page does
not move under the cached addresses, thunks identify functions. -/
theorem thunks_law (h : Run step Faithful .init tr s) : Identifies s := by
  have hinv : Inv s := h.invariant (P := fun _ s => Inv s) Inv.init step_inv
  exact hinv.identifies

instance : Decidable (Spelled m dll func) := inferInstanceAs (Decidable (∀ e ∈ m.entries, _))
instance : Decidable (Apart m dll func) := inferInstanceAs (Decidable (∀ e ∈ m.entries, _))

instance : Decidable (Faithful s a) :=
  match a with
  | .load _ => List.decidableBAll _ s.com
  | .register .. => inferInstanceAs (Decidable (_ ∧ _))
  | .resolve .. => inferInstanceAs (Decidable (_ ∧ _))
  | .buildCom => inferInstanceAs (Decidable (∀ f ∈ comMethods, _))

theorem thunks_law_reload :
    ∃ tr s, Run step Faithful .init tr s ∧ s.answers.length = 2 ∧ Identifies s := by
  have hrun : (exec step Faithful .init
      [.register (name "kernel32.dll") (name "Sleep") (.other 0) 1, .load true, .buildCom,
        .load true, .resolve (name "KERNEL32") (name "Sleep") ([], []),
        .resolve (name "user32.dll") (name "Beep") ([], [])]).any
      (fun r => r.2.answers.length = 2) = true := by
    decide +kernel
  obtain ⟨tr, s, hr, hs⟩ := Run.of_exec_any hrun
  exact ⟨tr, s, hr, of_decide_eq_true hs, thunks_law hr⟩

/-- A function name of 128 bytes is cut off in its entry and never found again. -/
theorem longName_twice : ∃ tr s, Run step anyStep .init tr s ∧ ¬ Identifies s := by
  have hrun : (exec step anyStep .init
      [.load false, .resolve (name "a.dll") (List.replicate 128 0x78) ([], []),
        .resolve (name "a.dll") (List.replicate 128 0x78) ([], [])]).any
      (fun r => ∃ x ∈ r.2.answers, ∃ y ∈ r.2.answers, x.1 = y.1 ∧ x.2 ≠ y.2) = true := by
    decide +kernel
  obtain ⟨tr, s, hr, hs⟩ := Run.of_exec_any hrun
  obtain ⟨x, hx, y, hy, hsame, hne⟩ := of_decide_eq_true hs
  refine ⟨tr, s, hr, fun hid => hne ((hid.same_iff x hx y hy).1 ?_)⟩
  rw [hsame]
  exact ⟨rfl, rfl⟩

/-- After a 64-bit load the COM methods of a 32-bit program select nothing. -/
example : ((exec step anyStep .init [.load false, .buildCom, .load true]).any fun r =>
    (r.2.com.head?.map fun c => dispatch r.2.mapper (c.setWidth 64)) = some none) = true := by
  decide +kernel

end WineGlass.Thunks
