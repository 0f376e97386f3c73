import WineGlass.Lib.Fields
import WineGlass.Lib.Walk

/-!
# PE images

The data model of `wg_pe_loader.c`: a byte buffer whose accesses are checked,
the image parsed from it, and the lookup of an RVA in the sections. An access
that leaves the buffer is `none`; a pointer into the buffer is its offset.
-/

namespace WineGlass.Pe

open Fields

abbrev Byte := BitVec 8
abbrev U16 := BitVec 16
abbrev U32 := BitVec 32
abbrev U64 := BitVec 64

/-- `size` bytes; what `bytes` gives beyond them is never looked at. -/
structure Buffer where
  bytes : Nat → Byte
  size : Nat

def Buffer.load (d : Buffer) (off n : Nat) : Option Nat :=
  if off + n ≤ d.size then some (get d.bytes ⟨off, n⟩) else none

def Buffer.store (d : Buffer) (off n v : Nat) : Option Buffer :=
  if off + n ≤ d.size then some { d with bytes := set d.bytes ⟨off, n⟩ v } else none

def Buffer.load8 (d : Buffer) (off : Nat) : Option Byte := (d.load off 1).map (BitVec.ofNat 8)
def Buffer.load16 (d : Buffer) (off : Nat) : Option U16 := (d.load off 2).map (BitVec.ofNat 16)
def Buffer.load32 (d : Buffer) (off : Nat) : Option U32 := (d.load off 4).map (BitVec.ofNat 32)

/-- `WGPESection`; `data` is an offset into `raw_data`. -/
structure Section where
  name : List Byte
  virtualSize : U32
  virtualAddress : U32
  rawSize : U32
  rawOffset : U32
  characteristics : U32
  data : Option Nat
  deriving DecidableEq, Repr

structure ImportFunc where
  name : List Byte
  ordinal : U16
  iatRva : U32
  deriving DecidableEq, Repr

structure ImportDll where
  dllName : List Byte
  functions : List ImportFunc
  deriving DecidableEq, Repr

/-- The RVA and size of a data directory. -/
structure Directory where
  rva : U32
  size : U32
  deriving DecidableEq, Repr

structure Image where
  imageBase : U64
  entryPoint : U32
  sizeOfImage : U32
  sizeOfHeaders : U32
  subsystem : U16
  dllCharacteristics : U16
  machine : U16
  is64bit : Bool
  sections : List Section
  imports : List ImportDll
  exports : Directory
  reloc : Directory
  tls : Directory
  raw : Buffer

-- ---------------------------------------------------------------------------
-- Lookup
-- ---------------------------------------------------------------------------

/-- The pointer one turn of the loop in `rva_to_ptr` returns. -/
def Section.ptr (s : Section) (rva : U32) : Option Nat :=
  if s.virtualAddress ≤ rva ∧ rva < s.virtualAddress + s.rawSize then
    let offset := rva - s.virtualAddress
    match s.data with
    | none => none
    | some data => if offset < s.rawSize then some (data + offset.toNat) else none
  else none

def rvaToPtr (sections : List Section) (rva : U32) : Option Nat :=
  sections.findSome? fun s => s.ptr rva

/-- The pointer one turn of the loop in `rva_to_mut` returns. -/
def Section.mut (s : Section) (rva need : U32) : Option Nat :=
  match s.data with
  | none => none
  | some data =>
    if s.virtualAddress ≤ rva ∧ rva + need ≤ s.virtualAddress + s.rawSize then
      some (data + (rva - s.virtualAddress).toNat)
    else none

def rvaToMut (sections : List Section) (rva need : U32) : Option Nat :=
  sections.findSome? fun s => s.mut rva need

theorem rvaToPtr_some (h : rvaToPtr ss rva = some p) :
    ∃ s ∈ ss, ∃ data, s.data = some data ∧ (rva - s.virtualAddress).toNat < s.rawSize.toNat ∧
      p = data + (rva - s.virtualAddress).toNat := by
  obtain ⟨s, hs, hp⟩ := List.exists_of_findSome?_eq_some h
  refine ⟨s, hs, ?_⟩
  unfold Section.ptr at hp
  split at hp
  case isFalse => cases hp
  dsimp only at hp
  split at hp
  case h_1 => cases hp
  rename_i data hdata
  split at hp
  case isFalse => cases hp
  rename_i hlt
  exact ⟨data, hdata, BitVec.lt_def.1 hlt, (Option.some.inj hp).symm⟩

theorem mut_some (h : Section.mut s rva need = some p) :
    ∃ data, s.data = some data ∧ s.virtualAddress ≤ rva ∧
      rva + need ≤ s.virtualAddress + s.rawSize ∧ p = data + (rva - s.virtualAddress).toNat := by
  unfold Section.mut at h
  split at h
  case h_1 => cases h
  rename_i data hdata
  split at h
  case isFalse => cases h
  rename_i hc
  exact ⟨data, hdata, hc.1, hc.2, (Option.some.inj h).symm⟩

-- ---------------------------------------------------------------------------
-- Checked accesses
-- ---------------------------------------------------------------------------

def Buffer.u8 (d : Buffer) (off : Nat) : Byte := BitVec.ofNat 8 (get d.bytes ⟨off, 1⟩)
def Buffer.u16 (d : Buffer) (off : Nat) : U16 := BitVec.ofNat 16 (get d.bytes ⟨off, 2⟩)
def Buffer.u32 (d : Buffer) (off : Nat) : U32 := BitVec.ofNat 32 (get d.bytes ⟨off, 4⟩)

variable {d : Buffer} {α : Type}

theorem load_some (h : off + n ≤ d.size) : d.load off n = some (get d.bytes ⟨off, n⟩) := if_pos h

theorem load16_some (h : off + 2 ≤ d.size) : d.load16 off = some (d.u16 off) := by
  rw [Buffer.load16, load_some h]
  rfl

theorem load32_some (h : off + 4 ≤ d.size) : d.load32 off = some (d.u32 off) := by
  rw [Buffer.load32, load_some h]
  rfl

theorem load_bind {f : Nat → Option α} : ((d.load off n).bind f).isSome ↔
    off + n ≤ d.size ∧ (f (get d.bytes ⟨off, n⟩)).isSome := by
  unfold Buffer.load
  split <;> rename_i h <;> simp [h]

theorem load8_bind {f : Byte → Option α} : ((d.load8 off).bind f).isSome ↔
    off + 1 ≤ d.size ∧ (f (d.u8 off)).isSome := by
  rw [Buffer.load8, Option.bind_map]
  exact load_bind

theorem load16_bind {f : U16 → Option α} : ((d.load16 off).bind f).isSome ↔
    off + 2 ≤ d.size ∧ (f (d.u16 off)).isSome := by
  rw [Buffer.load16, Option.bind_map]
  exact load_bind

theorem load32_bind {f : U32 → Option α} : ((d.load32 off).bind f).isSome ↔
    off + 4 ≤ d.size ∧ (f (d.u32 off)).isSome := by
  rw [Buffer.load32, Option.bind_map]
  exact load_bind

theorem load_eq (h : d.load off n = some v) : v = get d.bytes ⟨off, n⟩ := by
  unfold Buffer.load at h
  split at h
  · exact (Option.some.inj h).symm
  · cases h

theorem load16_eq (h : d.load16 off = some v) : v = d.u16 off := by
  obtain ⟨w, hw, rfl⟩ := Option.map_eq_some_iff.1 h
  rw [load_eq hw, Buffer.u16]

theorem load32_eq (h : d.load32 off = some v) : v = d.u32 off := by
  obtain ⟨w, hw, rfl⟩ := Option.map_eq_some_iff.1 h
  rw [load_eq hw, Buffer.u32]

end WineGlass.Pe
