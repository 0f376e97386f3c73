import Mathlib.Logic.Function.Basic
import WineGlass.Lib.Spans
import WineGlass.Lib.Word

/-!
# The memory space

`wg_memory.c`: a table of at most 1024 regions, searched from the front.
Addresses and sizes are 64-bit and wrap. A region's buffer holds `size` bytes;
the bytewise accessors look every byte up, the wide ones only the first, and
copy from there on. A copy that leaves the buffer is `none`.
-/

namespace WineGlass.Memory

open Spans Word

/-- `WG_PAGE_SIZE` and `WG_MAX_REGIONS`. -/
def pageSize : BitVec 64 := 4096
def maxRegions : Nat := 1024

abbrev Addr := BitVec 64
abbrev Byte := BitVec 8

/-- `data` gives the byte at an offset into the buffer. -/
structure Region where
  base : Addr
  size : BitVec 64
  prot : BitVec 32
  data : Nat → Byte

structure Space where
  regions : List Region

def Space.init : Space := ⟨[]⟩

/-- `addr >= r->base && addr < r->base + r->size`. -/
def Region.covers (r : Region) (addr : Addr) : Bool :=
  decide (r.base ≤ addr) && decide (addr < r.base + r.size)

def findRegion (s : Space) (addr : Addr) : Option Nat :=
  s.regions.findIdx? fun r => r.covers addr

/-- A pointer into the buffer of a region. -/
structure Ptr where
  region : Nat
  offset : Nat
  deriving DecidableEq, Repr

def resolve (s : Space) (addr : Addr) : Option Ptr :=
  match findRegion s addr with
  | none => none
  | some i =>
    match s.regions[i]? with
    | none => none
    | some r => some ⟨i, (addr - r.base).toNat⟩

-- ---------------------------------------------------------------------------
-- Mapping
-- ---------------------------------------------------------------------------

/-- `(size + WG_PAGE_SIZE - 1) & ~(WG_PAGE_SIZE - 1)`, one page at least. -/
def alignedSize (size : BitVec 64) : BitVec 64 :=
  let aligned := (size + pageSize - 1) &&& ~~~(pageSize - 1)
  if aligned = 0 then pageSize else aligned

/-- `wg_memory_map`; `ok` tells whether `calloc` succeeds. -/
def map (s : Space) (base size : BitVec 64) (prot : BitVec 32) (ok : Bool) : Bool × Space :=
  if maxRegions ≤ s.regions.length then (false, s)
  else if !ok then (false, s)
  else (true, ⟨s.regions ++ [⟨base, alignedSize size, prot, fun _ => 0⟩]⟩)

def unmap (s : Space) (base : BitVec 64) : Bool × Space :=
  match s.regions.findIdx? fun r => r.base == base with
  | none => (false, s)
  | some i => (true, ⟨swapRemove s.regions i⟩)

-- ---------------------------------------------------------------------------
-- Bytes
-- ---------------------------------------------------------------------------

/-- `*p`, of a pointer into a buffer. -/
def Space.get (s : Space) (p : Ptr) : Byte :=
  match s.regions[p.region]? with
  | none => 0
  | some r => r.data p.offset

def Region.store (r : Region) (offset : Nat) (b : Byte) : Region :=
  { r with data := Function.update r.data offset b }

/-- `*p = b`. -/
def Space.put (s : Space) (p : Ptr) (b : Byte) : Space :=
  ⟨s.regions.modify p.region fun r => r.store p.offset b⟩

def readU8 (s : Space) (addr : Addr) : Byte :=
  match resolve s addr with
  | none => 0
  | some p => s.get p

def writeU8 (s : Space) (addr : Addr) (b : Byte) : Space :=
  match resolve s addr with
  | none => s
  | some p => s.put p b

/-- `wg_memory_read` of `len` bytes. -/
def read (s : Space) (addr : Addr) : Nat → Option (List Byte)
  | 0 => some []
  | len + 1 =>
    match resolve s addr with
    | none => none
    | some p =>
      match read s (addr + 1) len with
      | none => none
      | some bs => some (s.get p :: bs)

def write (s : Space) (addr : Addr) : List Byte → Bool × Space
  | [] => (true, s)
  | b :: bs =>
    match resolve s addr with
    | none => (false, s)
    | some p => write (s.put p b) (addr + 1) bs

-- ---------------------------------------------------------------------------
-- Wide accesses
-- ---------------------------------------------------------------------------

/-- Whether `n` bytes from the pointer on lie in the region's buffer. -/
def Space.fits (s : Space) (p : Ptr) (n : Nat) : Bool :=
  match s.regions[p.region]? with
  | none => false
  | some r => decide (p.offset + n ≤ r.size.toNat)

/-- `memcpy(&v, p, n)`. -/
def loadBytes (s : Space) (p : Ptr) (n : Nat) : Option Nat :=
  if s.fits p n then some (word (fun i => s.get ⟨p.region, p.offset + i⟩) n) else none

/-- `memcpy(p, …, n)`, byte by byte. -/
def putBytes (s : Space) (p : Ptr) : List Byte → Space
  | [] => s
  | b :: bs => putBytes (s.put p b) ⟨p.region, p.offset + 1⟩ bs

/-- The `n` bytes of a value. -/
def bytesOf (n v : Nat) : List Byte := (List.range n).map (byteAt v)

def storeBytes (s : Space) (p : Ptr) (n v : Nat) : Option Space :=
  if s.fits p n then some (putBytes s p (bytesOf n v)) else none

def wideRead (n : Nat) (s : Space) (addr : Addr) : Option Nat :=
  match resolve s addr with
  | none => some 0
  | some p => loadBytes s p n

def wideWrite (n : Nat) (s : Space) (addr : Addr) (v : Nat) : Option Space :=
  match resolve s addr with
  | none => some s
  | some p => storeBytes s p n v

def readU16 := wideRead 2
def readU32 := wideRead 4
def readU64 := wideRead 8
def writeU16 := wideWrite 2
def writeU32 := wideWrite 4
def writeU64 := wideWrite 8

-- ---------------------------------------------------------------------------
-- What a lookup finds
-- ---------------------------------------------------------------------------

theorem covers_iff {r : Region} {addr : Addr} : r.covers addr = true ↔
    r.base.toNat ≤ addr.toNat ∧ addr.toNat < r.base.toNat + r.size.toNat ∧
      r.base.toNat + r.size.toNat < 2 ^ 64 := by
  have hb := r.base.isLt
  have hz := r.size.isLt
  have ha := addr.isLt
  rw [Region.covers, Bool.and_eq_true, decide_eq_true_eq, decide_eq_true_eq, BitVec.le_def,
    BitVec.lt_def, BitVec.toNat_add]
  omega

theorem findRegion_some (h : findRegion s addr = some i) :
    ∃ r, s.regions[i]? = some r ∧ r.covers addr = true := by
  obtain ⟨hi, hc, -⟩ := List.findIdx?_eq_some_iff_getElem.1 h
  exact ⟨_, List.getElem?_eq_getElem hi, hc⟩

/-- A resolved pointer is the offset of its address into a region that covers it. -/
theorem resolve_some : resolve s addr = some p ↔ findRegion s addr = some p.region ∧
    ∃ r, s.regions[p.region]? = some r ∧ r.base.toNat + p.offset = addr.toNat ∧
      p.offset < r.size.toNat := by
  unfold resolve
  cases hf : findRegion s addr with
  | none => simp
  | some i =>
    obtain ⟨r, hr, hc⟩ := findRegion_some hf
    obtain ⟨hle, hlt, hw⟩ := covers_iff.1 hc
    have hoff : (addr - r.base).toNat = addr.toNat - r.base.toNat :=
      BitVec.toNat_sub_of_le (BitVec.le_def.2 hle)
    simp only [hr, Option.some.injEq]
    constructor
    · rintro rfl
      exact ⟨rfl, r, hr, by dsimp only; omega, by dsimp only; omega⟩
    · rintro ⟨rfl, r', hr', hsum, -⟩
      obtain rfl := Option.some.inj (hr.symm.trans hr')
      obtain ⟨i, o⟩ := p
      dsimp only at hsum ⊢
      rw [hoff]
      congr 1
      omega

theorem resolve_none : resolve s addr = none ↔ findRegion s addr = none := by
  unfold resolve
  cases hf : findRegion s addr with
  | none => simp
  | some i =>
    obtain ⟨r, hr, -⟩ := findRegion_some hf
    simp [hr]

-- ---------------------------------------------------------------------------
-- Stores
-- ---------------------------------------------------------------------------

theorem put_regions (s : Space) (p : Ptr) (b : Byte) (j : Nat) :
    ((s.put p b).regions[j]?).map (fun r => (r.base, r.size)) =
      (s.regions[j]?).map fun r => (r.base, r.size) := by
  rw [Space.put, List.getElem?_modify]
  cases s.regions[j]? with
  | none => rfl
  | some r =>
    rcases Decidable.eq_or_ne p.region j with rfl | hj
    · simp [Region.store]
    · simp [hj]

theorem put_findRegion (s : Space) (p : Ptr) (b : Byte) (addr : Addr) :
    findRegion (s.put p b) addr = findRegion s addr := by
  have hmod (l : List Region) (i : Nat) :
      (l.modify i fun r => r.store p.offset b).findIdx? (fun r => r.covers addr) =
        l.findIdx? fun r => r.covers addr := by
    induction l generalizing i with
    | nil => cases i <;> rfl
    | cons r l ih =>
      cases i with
      | zero => simp [List.findIdx?_cons, Region.covers, Region.store]
      | succ i => simp [List.findIdx?_cons, ih]
  exact hmod s.regions p.region

theorem put_resolve (s : Space) (p : Ptr) (b : Byte) (addr : Addr) :
    resolve (s.put p b) addr = resolve s addr := by
  unfold resolve
  rw [put_findRegion]
  cases findRegion s addr with
  | none => rfl
  | some i =>
    have h := put_regions s p b i
    cases hr : s.regions[i]? with
    | none =>
      rw [hr, Option.map_none, Option.map_eq_none_iff] at h
      simp only [h, hr]
    | some r =>
      rw [hr, Option.map_some, Option.map_eq_some_iff] at h
      obtain ⟨r', hr', he⟩ := h
      simp only [hr, hr', (Prod.mk.inj he).1]

theorem put_get_self (s : Space) (p : Ptr) (b : Byte) (h : p.region < s.regions.length) :
    (s.put p b).get p = b := by
  simp [Space.get, Space.put, List.getElem?_eq_getElem h, Region.store]

theorem put_get_ne (s : Space) (b : Byte) (h : q ≠ p) : (s.put p b).get q = s.get q := by
  obtain ⟨i, o⟩ := p
  obtain ⟨j, o'⟩ := q
  unfold Space.get Space.put
  rw [List.getElem?_modify]
  dsimp only
  rcases Decidable.eq_or_ne i j with rfl | hij
  · have ho : o' ≠ o := by
      rintro rfl
      exact h rfl
    cases s.regions[i]? with
    | none => rfl
    | some r => simp [Region.store, Function.update_of_ne ho]
  · cases s.regions[j]? with
    | none => rfl
    | some r => simp [hij]

end WineGlass.Memory
