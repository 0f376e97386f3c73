import Mathlib.Data.Nat.Digits.Defs
import WineGlass.Pe.Image

/-!
# Loading an image

`wg_pe_load_memory` and `parse_imports`. Every read goes through a checked
access of the buffer (`raw_data` is a copy of it), so `none` means that the code
reads a byte outside, and `some none` that it returns NULL.
-/

namespace WineGlass.Pe

open Word

def maxSections : Nat := 96
def maxImports : Nat := 256
def maxImportFuncs : Nat := 4096

/-- What `strncpy` finds for a `char[256]` that keeps its last byte. -/
def nameLimit : Nat := 255

/-- `strncpy` of at most `n` bytes: those before the terminator. -/
def strncpy (d : Buffer) : (n off : Nat) → Option (List Byte)
  | 0, _ => some []
  | n + 1, off => (d.load8 off).bind fun c =>
    if c = 0 then some [] else (strncpy d n (off + 1)).map fun s => c :: s

-- ---------------------------------------------------------------------------
-- Imports
-- ---------------------------------------------------------------------------

/-- `"Ordinal_%u"`. -/
def ordinalName (ordinal : U16) : List Byte :=
  ("Ordinal_".toList ++ Nat.toDigits 10 ordinal.toNat).map fun c => BitVec.ofNat 8 c.toNat

/-- `*thunk & 0x8000000000000000ULL`, or `0x80000000` of a 4-byte thunk. -/
def byOrdinal (w thunk : Nat) : Bool := thunk.testBit (8 * w - 1)

def hintRva (thunk : Nat) : U32 := BitVec.ofNat 32 thunk &&& 0x7FFFFFFF

/-- The body of the thunk loop; `w` is `sizeof(*thunk)`. -/
def importFunc (d : Buffer) (ss : List Section) (w thunk : Nat) (iatRva : U32) :
    Option ImportFunc :=
  if byOrdinal w thunk then
    let ordinal := BitVec.ofNat 16 thunk
    some ⟨ordinalName ordinal, ordinal, iatRva⟩
  else
    match rvaToPtr ss (hintRva thunk) with
    | none => some ⟨[], 0, iatRva⟩
    | some hint =>
      (d.load16 hint).bind fun ordinal =>
      (strncpy d nameLimit (hint + 2)).map fun name => ⟨name, ordinal, iatRva⟩

/-- The thunk loop at `num_functions = num`, with room for `left` more. -/
def parseThunks (d : Buffer) (ss : List Section) (w : Nat) (iatRva : U32) (thunk : Nat) :
    (left num : Nat) → Option (List ImportFunc)
  | 0, num => (d.load (thunk + w * num) w).bind fun _ => some []
  | left + 1, num =>
    (d.load (thunk + w * num) w).bind fun t =>
      if t = 0 then some []
      else
        (importFunc d ss w t (iatRva + BitVec.ofNat 32 (num * w))).bind fun f =>
        (parseThunks d ss w iatRva thunk left (num + 1)).map fun fs => f :: fs

/-- The body of the descriptor loop for the descriptor at `desc`, whose name is at
`dll`: nothing when its thunks are in no section. -/
def parseDll (d : Buffer) (ss : List Section) (w desc dll : Nat) : Option (Option ImportDll) :=
  (strncpy d nameLimit dll).bind fun dllName =>
  (d.load32 desc).bind fun originalFirstThunk =>
  (d.load32 (desc + 16)).bind fun firstThunk =>
    match rvaToPtr ss (if originalFirstThunk ≠ 0 then originalFirstThunk else firstThunk) with
    | none => some none
    | some thunk =>
      (parseThunks d ss w firstThunk thunk maxImportFuncs 0).map fun functions =>
        some ⟨dllName, functions⟩

/-- The descriptor loop at descriptor `k` of the array `desc`, with
`num_imports = num`. A buffer runs out of descriptors before `fuel` does, when
that starts above its size. -/
def parseDescriptors (d : Buffer) (ss : List Section) (w desc : Nat) :
    (fuel k num : Nat) → Option (List ImportDll)
  | 0, _, _ => none
  | fuel + 1, k, num =>
    (d.load32 (desc + 20 * k + 12)).bind fun name =>
      if name = 0 ∨ maxImports ≤ num then some []
      else
        match rvaToPtr ss name with
        | none => some []
        | some dll =>
          (parseDll d ss w (desc + 20 * k) dll).bind fun imp =>
            match imp with
            | none => parseDescriptors d ss w desc fuel (k + 1) num
            | some imp =>
              (parseDescriptors d ss w desc fuel (k + 1) (num + 1)).map fun imports =>
                imp :: imports

def parseImports (d : Buffer) (ss : List Section) (w : Nat) (dir : Directory) :
    Option (List ImportDll) :=
  if dir.rva = 0 ∨ dir.size = 0 then some []
  else
    match rvaToPtr ss dir.rva with
    | none => some []
    | some desc => parseDescriptors d ss w desc (d.size + 1) 0 0

-- ---------------------------------------------------------------------------
-- Headers
-- ---------------------------------------------------------------------------

/-- What the optional headers of the two magics differ in: where `ImageBase` (of
`baseWidth` bytes) and `NumberOfRvaAndSizes` stand, and the size. -/
structure OptionalLayout where
  is64bit : Bool
  imageBase : Nat
  baseWidth : Nat
  numberOfRvaAndSizes : Nat
  size : Nat
  deriving DecidableEq, Repr

def optionalHeader64 : OptionalLayout := ⟨true, 24, 8, 108, 112⟩
def optionalHeader32 : OptionalLayout := ⟨false, 28, 4, 92, 96⟩

def optionalLayout (magic : U16) : Option OptionalLayout :=
  if magic = 0x20B then some optionalHeader64
  else if magic = 0x10B then some optionalHeader32
  else none

def OptionalLayout.thunkWidth (l : OptionalLayout) : Nat := if l.is64bit then 8 else 4

/-- Section header `i` of the array at `headers`; the 32-bit sum of pointer and
size decides whether the section gets its data. -/
def parseSection (d : Buffer) (headers i : Nat) : Option Section :=
  let sh := headers + 40 * i
  (d.load sh 8).bind fun name =>
  (d.load32 (sh + 8)).bind fun virtualSize =>
  (d.load32 (sh + 12)).bind fun virtualAddress =>
  (d.load32 (sh + 16)).bind fun sizeOfRawData =>
  (d.load32 (sh + 20)).bind fun pointerToRawData =>
  (d.load32 (sh + 36)).bind fun characteristics =>
    some {
      name := (List.range 8).map (byteAt name)
      virtualSize, virtualAddress, characteristics
      rawSize := sizeOfRawData
      rawOffset := pointerToRawData
      data :=
        if 0 < pointerToRawData ∧ 0 < sizeOfRawData ∧
            (pointerToRawData + sizeOfRawData).toNat ≤ d.size then
          some pointerToRawData.toNat
        else none }

def parseSections (d : Buffer) (headers : Nat) : (left i : Nat) → Option (List Section)
  | 0, _ => some []
  | left + 1, i =>
    (parseSection d headers i).bind fun s =>
    (parseSections d headers left (i + 1)).map fun ss => s :: ss

/-- `directories[i]`, zeros when there are no more than `i`. -/
def directory (d : Buffer) (directories : Nat) (num : U32) (i : Nat) : Option Directory :=
  if i < num.toNat then
    (d.load32 (directories + 8 * i)).bind fun rva =>
    (d.load32 (directories + 8 * i + 4)).bind fun size => some ⟨rva, size⟩
  else some ⟨0, 0⟩

/-- From the sections on, `opt` being the offset of the optional header. -/
def loadTables (d : Buffer) (l : OptionalLayout) (opt numberOfSections : Nat)
    (sizeOfOptionalHeader : U16) (num : U32) :
    Option (List Section × List ImportDll × Directory × Directory × Directory) :=
  (parseSections d (opt + sizeOfOptionalHeader.toNat) (min numberOfSections maxSections) 0).bind
    fun ss =>
  (directory d (opt + l.size) num 1).bind fun dir =>
  (parseImports d ss l.thunkWidth dir).bind fun imports =>
  (directory d (opt + l.size) num 0).bind fun exports =>
  (directory d (opt + l.size) num 5).bind fun reloc =>
  (directory d (opt + l.size) num 9).bind fun tls => some (ss, imports, exports, reloc, tls)

/-- From the optional header on, `coff` being the offset of the COFF header. -/
def loadImage (d : Buffer) (l : OptionalLayout) (coff : Nat) (machine numberOfSections : U16) :
    Option Image :=
  let opt := coff + 20
  (d.load32 (opt + 16)).bind fun entryPoint =>
  (d.load (opt + l.imageBase) l.baseWidth).bind fun imageBase =>
  (d.load32 (opt + 56)).bind fun sizeOfImage =>
  (d.load32 (opt + 60)).bind fun sizeOfHeaders =>
  (d.load16 (opt + 68)).bind fun subsystem =>
  (d.load16 (opt + 70)).bind fun dllCharacteristics =>
  (d.load32 (opt + l.numberOfRvaAndSizes)).bind fun num =>
  (d.load16 (coff + 16)).bind fun sizeOfOptionalHeader =>
  (loadTables d l opt numberOfSections.toNat sizeOfOptionalHeader num).bind
    fun (sections, imports, exports, reloc, tls) =>
    some {
      imageBase := BitVec.ofNat 64 imageBase
      is64bit := l.is64bit
      raw := d
      entryPoint, sizeOfImage, sizeOfHeaders, subsystem, dllCharacteristics, machine
      sections, imports, exports, reloc, tls }

/-- From the COFF header on; `alloc` tells whether `calloc` and `malloc` succeed. -/
def loadCoff (alloc : Bool) (d : Buffer) (coff : Nat) : Option (Option Image) :=
  (d.load16 coff).bind fun machine =>
  (d.load16 (coff + 2)).bind fun numberOfSections =>
    if !alloc then some none
    else
      (d.load16 (coff + 20)).bind fun magic =>
        match optionalLayout magic with
        | none => some none
        | some l => (loadImage d l coff machine numberOfSections).map some

def loadMemory (alloc : Bool) (d : Buffer) : Option (Option Image) :=
  if d.size < 64 then some none
  else
    (d.load16 0).bind fun magic =>
      if magic ≠ 0x5A4D then some none
      else
        (d.load32 0x3C).bind fun peOffset =>
          if d.size < (peOffset + 4).toNat then some none
          else
            (d.load32 peOffset.toNat).bind fun signature =>
              if signature ≠ 0x00004550 then some none
              else loadCoff alloc d (peOffset.toNat + 4)

end WineGlass.Pe
