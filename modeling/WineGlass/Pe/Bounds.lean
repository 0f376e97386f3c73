import WineGlass.Pe.Load

/-!
# What loading reads

`loadMemory` stays in the buffer exactly when the file holds everything its
headers, section table, directories and import tables announce, each up to where
the loader stops looking (`FileIn`): nothing but the first four bytes of the PE
header is checked against the size. Given that, the sections, and with them the
lookups, stay inside where no 32-bit sum wraps.
-/

namespace WineGlass.Pe

open Fields Walk

-- ---------------------------------------------------------------------------
-- Strings and thunks
-- ---------------------------------------------------------------------------

/-- The longest name fits, or a terminator comes before the end of the file. -/
def StringIn (d : Buffer) (off : Nat) : Prop :=
  (∀ i < nameLimit, off + i < d.size) ∨ ∃ i, off + i < d.size ∧ d.u8 (off + i) = 0

theorem strncpy_isSome : (strncpy d n off).isSome ↔
    (∀ i < n, off + i < d.size) ∨ ∃ i, off + i < d.size ∧ d.u8 (off + i) = 0 := by
  induction n generalizing off with
  | zero => exact iff_of_true rfl (.inl fun _ hi => absurd hi (Nat.not_lt_zero _))
  | succ n ih =>
    have hshift : ∀ i, off + 1 + i = off + (i + 1) := fun i => by omega
    rw [strncpy, load8_bind]
    constructor
    · rintro ⟨hin, hrest⟩
      split at hrest
      case isTrue hz => exact .inr ⟨0, hin, hz⟩
      rw [Option.isSome_map, ih] at hrest
      rcases hrest with hall | ⟨i, hi, hz⟩
      · refine .inl fun i hi => ?_
        cases i with
        | zero => exact hin
        | succ i => exact hshift i ▸ hall i (Nat.lt_of_succ_lt_succ hi)
      · exact .inr ⟨i + 1, hshift i ▸ hi, hshift i ▸ hz⟩
    · intro h
      have hin : off + 1 ≤ d.size := by
        rcases h with hall | ⟨i, hi, -⟩
        · exact hall 0 (Nat.succ_pos n)
        · omega
      refine ⟨hin, ?_⟩
      split
      case isTrue => rfl
      rename_i hz
      rw [Option.isSome_map, ih]
      rcases h with hall | ⟨i, hi, hzi⟩
      · exact .inl fun i hi => hshift i ▸ hall (i + 1) (Nat.succ_lt_succ hi)
      · cases i with
        | zero => exact absurd hzi hz
        | succ i => exact .inr ⟨i, (hshift i).symm ▸ hi, (hshift i).symm ▸ hzi⟩

/-- The hint and the name behind a thunk that imports by name. -/
def HintIn (d : Buffer) (ss : List Section) (w thunk : Nat) : Prop :=
  byOrdinal w thunk = false → ∀ hint, rvaToPtr ss (hintRva thunk) = some hint →
    hint + 2 ≤ d.size ∧ StringIn d (hint + 2)

theorem importFunc_isSome : (importFunc d ss w t rva).isSome ↔ HintIn d ss w t := by
  unfold importFunc HintIn
  cases byOrdinal w t with
  | true => simp
  | false =>
    cases rvaToPtr ss (hintRva t) with
    | none => simp
    | some hint => simp [load16_bind, strncpy_isSome, StringIn]

/-- Entry `i` of a thunk array. -/
def thunkAt (d : Buffer) (w thunk i : Nat) : Nat := get d.bytes ⟨thunk + w * i, w⟩

/-- Every entry up to the terminator or the table's limit, with what it points to. -/
def ThunksIn (d : Buffer) (ss : List Section) (w thunk : Nat) : Prop :=
  Walks
    (fun i => thunk + w * i + w ≤ d.size ∧
      (i < maxImportFuncs → thunkAt d w thunk i ≠ 0 → HintIn d ss w (thunkAt d w thunk i)))
    (fun i => i < maxImportFuncs ∧ thunkAt d w thunk i ≠ 0) 0

theorem parseThunks_isSome :
    (parseThunks d ss w rva thunk maxImportFuncs 0).isSome ↔ ThunksIn d ss w thunk := by
  refine loop_iff (f := fun left i => (parseThunks d ss w rva thunk left i).isSome)
    (n := maxImportFuncs) (fun left i hi => ?_) ?_ (Nat.zero_add _)
  · have hlt : i < maxImportFuncs := by omega
    rw [parseThunks, load_bind, ite_isSome, bind_isSome fun _ _ => by rw [Option.isSome_map],
      importFunc_isSome, ← thunkAt]
    simp only [hlt, true_and, forall_const, imp_and, and_assoc, ne_eq]
  · rw [walks_of_not_goes (fun h => Nat.lt_irrefl _ h.1), parseThunks, load_bind]
    exact and_congr_right fun _ => iff_of_true rfl fun h => absurd h (Nat.lt_irrefl _)

-- ---------------------------------------------------------------------------
-- Descriptors
-- ---------------------------------------------------------------------------

section
variable (d : Buffer) (ss : List Section) (w desc : Nat)

/-- `Name` of descriptor `k`. -/
def descName (k : Nat) : U32 := d.u32 (desc + 20 * k + 12)

/-- Where the thunks of descriptor `k` are said to be. -/
def descThunks (k : Nat) : U32 :=
  if d.u32 (desc + 20 * k) ≠ 0 then d.u32 (desc + 20 * k) else d.u32 (desc + 20 * k + 16)

/-- How many of the first `k` descriptors have thunks in a section. -/
def filled (k : Nat) : Nat := (List.range k).countP fun j => (rvaToPtr ss (descThunks d desc j)).isSome

/-- Descriptor `k` is a further one to import from. -/
def Described (k : Nat) : Prop := descName d desc k ≠ 0 ∧ filled d ss desc k < maxImports

/-- Descriptor `k` up to its name, and if there is one, the rest of it with the DLL's name and
the thunks. -/
def DescriptorIn (k : Nat) : Prop :=
  desc + 20 * k + 16 ≤ d.size ∧
    (Described d ss desc k → ∀ dll, rvaToPtr ss (descName d desc k) = some dll →
      StringIn d dll ∧ desc + 20 * k + 20 ≤ d.size ∧
        ∀ thunk, rvaToPtr ss (descThunks d desc k) = some thunk → ThunksIn d ss w thunk)

/-- The loop goes on after descriptor `k`. -/
def Continued (k : Nat) : Prop :=
  Described d ss desc k ∧ (rvaToPtr ss (descName d desc k)).isSome

end

theorem parseDll_isSome : (parseDll d ss w (desc + 20 * k) dll).isSome ↔
    StringIn d dll ∧ desc + 20 * k + 20 ≤ d.size ∧
      ∀ thunk, rvaToPtr ss (descThunks d desc k) = some thunk → ThunksIn d ss w thunk := by
  refine (bind_isSome (P := desc + 20 * k + 20 ≤ d.size ∧
    ∀ thunk, rvaToPtr ss (descThunks d desc k) = some thunk → ThunksIn d ss w thunk)
    fun dllName _ => ?_).trans (and_congr_left fun _ => strncpy_isSome)
  refine load32_bind.trans ?_
  rw [load32_bind, ← descThunks]
  cases rvaToPtr ss (descThunks d desc k) with
  | none => simp; omega
  | some thunk => simp [parseThunks_isSome]; omega

/-- A descriptor is skipped when its thunks are in no section. -/
theorem parseDll_skips (h : parseDll d ss w (desc + 20 * k) dll = some r) :
    r.isSome = (rvaToPtr ss (descThunks d desc k)).isSome := by
  obtain ⟨dllName, -, h⟩ := Option.bind_eq_some_iff.1 h
  obtain ⟨oft, hoft, h⟩ := Option.bind_eq_some_iff.1 h
  obtain ⟨ft, hft, h⟩ := Option.bind_eq_some_iff.1 h
  obtain rfl := load32_eq hoft
  obtain rfl := load32_eq hft
  rw [← descThunks] at h
  split at h
  · rename_i hnone
    rw [hnone, ← Option.some.inj h]
    rfl
  · rename_i thunk hthunk
    obtain ⟨fs, -, rfl⟩ := Option.map_eq_some_iff.1 h
    rw [hthunk]
    rfl

theorem filled_succ : filled d ss desc (k + 1) =
    filled d ss desc k + if (rvaToPtr ss (descThunks d desc k)).isSome then 1 else 0 := by
  rw [filled, List.range_succ, List.countP_append, List.countP_singleton, filled]

theorem parseDescriptors_isSome :
    (parseDescriptors d ss w desc (d.size + 1) 0 0).isSome ↔
      Walks (DescriptorIn d ss w desc) (Continued d ss desc) 0 := by
  refine loop_iff
    (f := fun fuel k => (parseDescriptors d ss w desc fuel k (filled d ss desc k)).isSome)
    (n := d.size + 1) (fun fuel k _ => ?_) ?_ (Nat.zero_add _)
  · rw [parseDescriptors, load32_bind, ite_isSome, ← descName, not_or, Nat.not_le]
    change _ ∧ (Described d ss desc k → _) ↔ _
    unfold DescriptorIn Continued
    cases hdll : rvaToPtr ss (descName d desc k) with
    | none => simp
    | some dll =>
      refine (and_congr_right fun _ => imp_congr_right fun _ => (bind_isSome
        (P := (parseDescriptors d ss w desc fuel (k + 1) (filled d ss desc (k + 1))).isSome)
        fun imp himp => ?_).trans (and_congr_left fun _ => parseDll_isSome)).trans ?_
      · rw [filled_succ, ← parseDll_skips himp]
        cases imp <;> simp
      · simp only [Option.some.injEq, forall_eq', Option.isSome_some, and_true]
        exact (and_congr_right fun _ => imp_and).trans and_assoc.symm
  · refine iff_of_false (by simp [parseDescriptors]) fun h => ?_
    have := (walks_iff.1 h).1.1
    omega

/-- The descriptors of the import directory, if there is one and it lies in a section. -/
def ImportsIn (d : Buffer) (ss : List Section) (w : Nat) (dir : Directory) : Prop :=
  dir.rva ≠ 0 → dir.size ≠ 0 → ∀ desc, rvaToPtr ss dir.rva = some desc →
    Walks (DescriptorIn d ss w desc) (Continued d ss desc) 0

theorem parseImports_isSome : (parseImports d ss w dir).isSome ↔ ImportsIn d ss w dir := by
  rw [parseImports, ite_isSome, not_or, and_imp, ImportsIn]
  cases rvaToPtr ss dir.rva with
  | none => simp
  | some desc => simp [parseDescriptors_isSome]

-- ---------------------------------------------------------------------------
-- Headers
-- ---------------------------------------------------------------------------

/-- Section header `i` of the array at `headers`, as the file has it. -/
def sectionAt (d : Buffer) (headers i : Nat) : Section :=
  let sh := headers + 40 * i
  { name := (List.range 8).map (Word.byteAt (get d.bytes ⟨sh, 8⟩))
    virtualSize := d.u32 (sh + 8)
    virtualAddress := d.u32 (sh + 12)
    rawSize := d.u32 (sh + 16)
    rawOffset := d.u32 (sh + 20)
    characteristics := d.u32 (sh + 36)
    data :=
      if 0 < d.u32 (sh + 20) ∧ 0 < d.u32 (sh + 16) ∧
          (d.u32 (sh + 20) + d.u32 (sh + 16)).toNat ≤ d.size then
        some (d.u32 (sh + 20)).toNat
      else none }

def sectionTable (d : Buffer) (headers n : Nat) : List Section :=
  (List.range' 0 n).map (sectionAt d headers)

theorem parseSection_isSome :
    (parseSection d headers i).isSome ↔ headers + 40 * i + 40 ≤ d.size := by
  simp only [parseSection, load_bind, load32_bind, Option.isSome_some, and_true]
  omega

theorem parseSection_some (h : parseSection d headers i = some s) : s = sectionAt d headers i := by
  simp only [parseSection, Option.bind_eq_some_iff] at h
  obtain ⟨name, hname, vs, hvs, va, hva, raw, hraw, ptr, hptr, ch, hch, h⟩ := h
  obtain rfl := load32_eq hvs
  obtain rfl := load32_eq hva
  obtain rfl := load32_eq hraw
  obtain rfl := load32_eq hptr
  obtain rfl := load32_eq hch
  rw [load_eq hname] at h
  exact (Option.some.inj h).symm

theorem parseSections_isSome : (parseSections d headers n i).isSome ↔
    ∀ j, i ≤ j → j < i + n → headers + 40 * j + 40 ≤ d.size := by
  induction n generalizing i with
  | zero => exact iff_of_true rfl fun j hj hlt => by omega
  | succ n ih =>
    rw [parseSections, bind_isSome fun _ _ => by rw [Option.isSome_map], parseSection_isSome, ih]
    constructor
    · rintro ⟨hi, hrest⟩ j hj hlt
      rcases Nat.eq_or_lt_of_le hj with rfl | hj
      · exact hi
      · exact hrest j hj (by omega)
    · intro h
      exact ⟨h i (Nat.le_refl i) (by omega), fun j hj hlt => h j (by omega) (by omega)⟩

theorem parseSections_some (h : parseSections d headers n i = some ss) :
    ss = (List.range' i n).map (sectionAt d headers) := by
  induction n generalizing i ss with
  | zero => exact (Option.some.inj h).symm
  | succ n ih =>
    obtain ⟨s, hs, h⟩ := Option.bind_eq_some_iff.1 h
    obtain ⟨rest, hrest, rfl⟩ := Option.map_eq_some_iff.1 h
    rw [List.range'_succ, List.map_cons, parseSection_some hs, ih hrest]

/-- Directory `i` as the file has it, zeros when there are no more than `i`. -/
def directoryAt (d : Buffer) (directories : Nat) (num : U32) (i : Nat) : Directory :=
  if i < num.toNat then ⟨d.u32 (directories + 8 * i), d.u32 (directories + 8 * i + 4)⟩ else ⟨0, 0⟩

theorem directory_isSome : (directory d directories num i).isSome ↔
    (i < num.toNat → directories + 8 * i + 8 ≤ d.size) := by
  unfold directory
  split
  case isFalse h => exact iff_of_true rfl fun hi => absurd hi h
  rename_i h
  simp only [load32_bind, Option.isSome_some, and_true, h, true_imp_iff]
  omega

theorem directory_some (h : directory d directories num i = some dir) :
    dir = directoryAt d directories num i := by
  unfold directory at h
  unfold directoryAt
  split at h
  case isFalse hi =>
    rw [if_neg hi]
    exact (Option.some.inj h).symm
  rename_i hi
  obtain ⟨rva, hrva, h⟩ := Option.bind_eq_some_iff.1 h
  obtain ⟨size, hsize, h⟩ := Option.bind_eq_some_iff.1 h
  obtain rfl := load32_eq hrva
  obtain rfl := load32_eq hsize
  rw [if_pos hi]
  exact (Option.some.inj h).symm

-- `coff` is the offset of the COFF header, four bytes after the signature.
section
variable (d : Buffer) (coff : Nat)

/-- The first section header, and how many are looked at. -/
def sectionHeaders : Nat := coff + 20 + (d.u16 (coff + 16)).toNat
def sectionCount : Nat := min (d.u16 (coff + 2)).toNat maxSections

/-- The section headers, the directories looked at, and the imports. -/
def TablesIn (l : OptionalLayout) : Prop :=
  (∀ i < sectionCount d coff, sectionHeaders d coff + 40 * i + 40 ≤ d.size) ∧
  (∀ i ∈ [0, 1, 5, 9], i < (d.u32 (coff + 20 + l.numberOfRvaAndSizes)).toNat →
    coff + 20 + l.size + 8 * i + 8 ≤ d.size) ∧
  ImportsIn d (sectionTable d (sectionHeaders d coff) (sectionCount d coff)) l.thunkWidth
    (directoryAt d (coff + 20 + l.size) (d.u32 (coff + 20 + l.numberOfRvaAndSizes)) 1)

/-- The COFF header, the optional header and the tables behind them. -/
def CoffIn (alloc : Bool) : Prop :=
  coff + 4 ≤ d.size ∧ (alloc → coff + 22 ≤ d.size ∧
    ∀ l, optionalLayout (d.u16 (coff + 20)) = some l →
      coff + 20 + l.size ≤ d.size ∧ TablesIn d coff l)

end

/-- The file holds all that its headers announce, as far as the loader looks. -/
def FileIn (alloc : Bool) (d : Buffer) : Prop :=
  64 ≤ d.size → d.u16 0 = 0x5A4D → (d.u32 0x3C + 4).toNat ≤ d.size →
    (d.u32 0x3C).toNat + 4 ≤ d.size ∧
      (d.u32 (d.u32 0x3C).toNat = 0x00004550 → CoffIn d ((d.u32 0x3C).toNat + 4) alloc)

theorem loadTables_isSome :
    (loadTables d l (coff + 20) (d.u16 (coff + 2)).toNat (d.u16 (coff + 16))
      (d.u32 (coff + 20 + l.numberOfRvaAndSizes))).isSome ↔ TablesIn d coff l := by
  -- What each table is read to be is what the file has, so the steps are independent.
  have himports : ∀ ss, parseSections d (coff + 20 + (d.u16 (coff + 16)).toNat)
      (min (d.u16 (coff + 2)).toNat maxSections) 0 = some ss → ∀ dir,
      directory d (coff + 20 + l.size) (d.u32 (coff + 20 + l.numberOfRvaAndSizes)) 1 = some dir →
      ((parseImports d ss l.thunkWidth dir).isSome ↔
        ImportsIn d (sectionTable d (sectionHeaders d coff) (sectionCount d coff)) l.thunkWidth
          (directoryAt d (coff + 20 + l.size)
            (d.u32 (coff + 20 + l.numberOfRvaAndSizes)) 1)) := by
    intro ss hss dir hdir
    rw [parseImports_isSome, parseSections_some hss, directory_some hdir]
    rfl
  unfold loadTables TablesIn
  rw [bind_isSome fun ss hss => bind_isSome fun dir hdir => (bind_isSome fun _ _ =>
    bind_isSome fun _ _ => bind_isSome fun _ _ => bind_isSome fun _ _ =>
      iff_of_true rfl trivial).trans (and_congr_left fun _ => himports ss hss dir hdir)]
  simp only [parseSections_isSome, directory_isSome, List.forall_mem_cons, List.not_mem_nil,
    Nat.zero_le, Nat.zero_add, false_imp_iff, forall_const, and_true]
  constructor
  · rintro ⟨hsec, h1, himp, h0, h5, h9⟩
    exact ⟨hsec, ⟨h0, h1, h5, h9⟩, himp⟩
  · rintro ⟨hsec, ⟨h0, h1, h5, h9⟩, himp⟩
    exact ⟨hsec, h1, himp, h0, h5, h9⟩

theorem optionalLayout_cases (h : optionalLayout magic = some l) :
    l = optionalHeader64 ∨ l = optionalHeader32 := by
  unfold optionalLayout at h
  split at h
  · exact .inl (Option.some.inj h).symm
  · split at h
    · exact .inr (Option.some.inj h).symm
    · cases h

theorem loadImage_isSome (hl : l = optionalHeader64 ∨ l = optionalHeader32) :
    (loadImage d l coff machine (d.u16 (coff + 2))).isSome ↔
      coff + 20 + l.size ≤ d.size ∧ TablesIn d coff l := by
  unfold loadImage
  simp only [load_bind, load32_bind, load16_bind]
  rw [bind_isSome fun a _ => iff_of_true rfl trivial, and_true, loadTables_isSome]
  have hfields : coff + 20 + 16 + 4 ≤ coff + 20 + l.size ∧
      coff + 20 + l.imageBase + l.baseWidth ≤ coff + 20 + l.size ∧
      coff + 20 + 70 + 2 ≤ coff + 20 + l.size ∧
      coff + 20 + l.numberOfRvaAndSizes + 4 = coff + 20 + l.size := by
    rcases hl with rfl | rfl <;> simp [optionalHeader64, optionalHeader32]
  constructor
  · rintro ⟨-, -, -, -, -, -, hnum, -, htables⟩
    exact ⟨by omega, htables⟩
  · rintro ⟨hsize, htables⟩
    refine ⟨?_, ?_, ?_, ?_, ?_, ?_, ?_, ?_, htables⟩ <;> omega

theorem loadCoff_isSome : (loadCoff alloc d coff).isSome ↔ CoffIn d coff alloc := by
  unfold loadCoff CoffIn
  rw [load16_bind, load16_bind, ite_isSome, load16_bind]
  refine (and_congr_right fun _ => and_congr_right fun _ => imp_congr_right fun _ =>
    and_congr_right (c := ∀ l, optionalLayout (d.u16 (coff + 20)) = some l →
      coff + 20 + l.size ≤ d.size ∧ TablesIn d coff l) fun _ => ?_).trans ?_
  · cases hl : optionalLayout (d.u16 (coff + 20)) with
    | none => simp
    | some l => simp [loadImage_isSome (optionalLayout_cases hl)]
  simp only [Bool.not_eq_true', Bool.not_eq_false]
  constructor
  · rintro ⟨-, hin, hrest⟩
    exact ⟨hin, hrest⟩
  · rintro ⟨hin, hrest⟩
    exact ⟨by omega, hin, hrest⟩

theorem loadMemory_isSome : (loadMemory alloc d).isSome ↔ FileIn alloc d := by
  unfold loadMemory FileIn
  simp only [ite_isSome, load16_bind, load32_bind, loadCoff_isSome, Nat.not_lt, ne_eq, not_not]
  constructor
  · exact fun h hsize hmagic hpe => (h hsize).2 hmagic |>.2 hpe
  · exact fun h hsize => ⟨by omega, fun hmagic => ⟨by omega, h hsize hmagic⟩⟩

-- ---------------------------------------------------------------------------
-- Loaded images
-- ---------------------------------------------------------------------------

/-- The section headers of a file that are looked at. -/
def fileSections (d : Buffer) : List Section :=
  sectionTable d (sectionHeaders d ((d.u32 0x3C).toNat + 4))
    (sectionCount d ((d.u32 0x3C).toNat + 4))

/-- What the loader records of a file. -/
structure Loaded (d : Buffer) (img : Image) : Prop where
  raw : img.raw = d
  sections : img.sections = fileSections d
  base : ∃ l, (l = optionalHeader64 ∨ l = optionalHeader32) ∧ img.is64bit = l.is64bit ∧
    img.imageBase =
      BitVec.ofNat 64 (get d.bytes ⟨(d.u32 0x3C).toNat + 24 + l.imageBase, l.baseWidth⟩)

theorem loadTables_sections (h : loadTables d l opt n soh num = some (ss, rest)) :
    ss = sectionTable d (opt + soh.toNat) (min n maxSections) := by
  obtain ⟨ss', hss, h⟩ := Option.bind_eq_some_iff.1 h
  obtain ⟨dir, -, h⟩ := Option.bind_eq_some_iff.1 h
  obtain ⟨imports, -, h⟩ := Option.bind_eq_some_iff.1 h
  obtain ⟨exports, -, h⟩ := Option.bind_eq_some_iff.1 h
  obtain ⟨reloc, -, h⟩ := Option.bind_eq_some_iff.1 h
  obtain ⟨tls, -, h⟩ := Option.bind_eq_some_iff.1 h
  obtain ⟨rfl, -⟩ := Prod.mk.inj (Option.some.inj h)
  exact parseSections_some hss

theorem loadImage_loaded (hl : l = optionalHeader64 ∨ l = optionalHeader32)
    (h : loadImage d l ((d.u32 0x3C).toNat + 4) machine
      (d.u16 ((d.u32 0x3C).toNat + 4 + 2)) = some img) : Loaded d img := by
  obtain ⟨entry, -, h⟩ := Option.bind_eq_some_iff.1 h
  obtain ⟨base, hbase, h⟩ := Option.bind_eq_some_iff.1 h
  obtain ⟨sizeOfImage, -, h⟩ := Option.bind_eq_some_iff.1 h
  obtain ⟨sizeOfHeaders, -, h⟩ := Option.bind_eq_some_iff.1 h
  obtain ⟨subsystem, -, h⟩ := Option.bind_eq_some_iff.1 h
  obtain ⟨dll, -, h⟩ := Option.bind_eq_some_iff.1 h
  obtain ⟨num, -, h⟩ := Option.bind_eq_some_iff.1 h
  obtain ⟨soh, hsoh, h⟩ := Option.bind_eq_some_iff.1 h
  obtain ⟨⟨ss, rest⟩, htables, h⟩ := Option.bind_eq_some_iff.1 h
  obtain rfl := Option.some.inj h
  obtain rfl := load16_eq hsoh
  refine ⟨rfl, loadTables_sections htables, l, hl, rfl, ?_⟩
  rw [load_eq hbase]

theorem loadMemory_loaded (h : loadMemory alloc d = some (some img)) : Loaded d img := by
  unfold loadMemory at h
  split at h
  case isTrue => cases h
  obtain ⟨magic, -, h⟩ := Option.bind_eq_some_iff.1 h
  split at h
  case isTrue => cases h
  obtain ⟨peOffset, hpe, h⟩ := Option.bind_eq_some_iff.1 h
  obtain rfl := load32_eq hpe
  split at h
  case isTrue => cases h
  obtain ⟨signature, -, h⟩ := Option.bind_eq_some_iff.1 h
  split at h
  case isTrue => cases h
  unfold loadCoff at h
  obtain ⟨machine, -, h⟩ := Option.bind_eq_some_iff.1 h
  obtain ⟨n, hn, h⟩ := Option.bind_eq_some_iff.1 h
  obtain rfl := load16_eq hn
  split at h
  case isTrue => cases h
  obtain ⟨optMagic, -, h⟩ := Option.bind_eq_some_iff.1 h
  split at h
  case h_1 => cases h
  rename_i l hl
  obtain ⟨img', himg, he⟩ := Option.map_eq_some_iff.1 h
  obtain rfl := Option.some.inj he
  exact loadImage_loaded (optionalLayout_cases hl) himg

def SectionsIn (img : Image) : Prop :=
  ∀ s ∈ img.sections, s.data.isSome → s.rawOffset.toNat + s.rawSize.toNat ≤ img.raw.size

/-- The loader's sum of pointer and size wraps to one that fits. -/
def SectionWraps (size : Nat) (s : Section) : Prop :=
  2 ^ 32 ≤ s.rawOffset.toNat + s.rawSize.toNat ∧
    s.rawOffset.toNat + s.rawSize.toNat - 2 ^ 32 ≤ size ∧
    size < s.rawOffset.toNat + s.rawSize.toNat

/-- The end of a range wraps where the section's end does not, and the range leaves the
file. -/
def RangeWraps (size : Nat) (s : Section) (rva need : U32) : Prop :=
  2 ^ 32 ≤ rva.toNat + need.toNat ∧ s.virtualAddress.toNat + s.rawSize.toNat < 2 ^ 32 ∧
    size < s.rawOffset.toNat + (rva.toNat - s.virtualAddress.toNat) + need.toNat

theorem sectionAt_fits : ((sectionAt d headers i).data.isSome →
    (sectionAt d headers i).rawOffset.toNat + (sectionAt d headers i).rawSize.toNat ≤ d.size) ↔
    ¬ SectionWraps d.size (sectionAt d headers i) := by
  generalize hs : sectionAt d headers i = s
  have hdata : s.data = if 0 < s.rawOffset ∧ 0 < s.rawSize ∧
      (s.rawOffset + s.rawSize).toNat ≤ d.size then some s.rawOffset.toNat else none := by
    subst hs
    rfl
  have ho := s.rawOffset.isLt
  have hz := s.rawSize.isLt
  rw [hdata]
  unfold SectionWraps
  have h0 : (0 : U32).toNat = 0 := rfl
  simp only [BitVec.lt_def, BitVec.toNat_add, h0]
  split <;> simp <;> omega

theorem sectionAt_data (h : (sectionAt d headers i).data = some p) :
    p = (sectionAt d headers i).rawOffset.toNat := by
  unfold sectionAt at h
  dsimp only at h
  split at h
  · exact (Option.some.inj h).symm
  · cases h

theorem Loaded.section_mem (h : Loaded d img) (hs : s ∈ img.sections) :
    ∃ i, s = sectionAt d (sectionHeaders d ((d.u32 0x3C).toNat + 4)) i := by
  rw [h.sections] at hs
  obtain ⟨i, -, rfl⟩ := List.mem_map.1 hs
  exact ⟨i, rfl⟩

/-- A pointer found stays in its section's data. -/
theorem Loaded.ptr_lt (h : Loaded d img) (hin : SectionsIn img)
    (hp : rvaToPtr img.sections rva = some p) : p < img.raw.size := by
  obtain ⟨s, hs, data, hdata, hlt, rfl⟩ := rvaToPtr_some hp
  have hfit := hin s hs (by rw [hdata]; rfl)
  obtain ⟨i, rfl⟩ := h.section_mem hs
  rw [sectionAt_data hdata]
  omega

/-- A range found stays in the data unless its end wraps. -/
theorem Loaded.mut_le (h : Loaded d img) (hin : SectionsIn img)
    (hp : rvaToMut img.sections rva need = some p) :
    ∃ s ∈ img.sections, Section.mut s rva need = some p ∧
      (p + need.toNat ≤ img.raw.size ↔ ¬ RangeWraps img.raw.size s rva need) := by
  obtain ⟨s, hs, hmut⟩ := List.exists_of_findSome?_eq_some hp
  refine ⟨s, hs, hmut, ?_⟩
  obtain ⟨data, hdata, hle, hend, rfl⟩ := mut_some hmut
  have hfit := hin s hs (by rw [hdata]; rfl)
  obtain ⟨i, rfl⟩ := h.section_mem hs
  obtain rfl := sectionAt_data hdata
  generalize sectionAt d _ i = s at *
  have hsub : (rva - s.virtualAddress).toNat = rva.toNat - s.virtualAddress.toNat :=
    BitVec.toNat_sub_of_le hle
  have hr := rva.isLt
  have hn := need.isLt
  have hv := s.virtualAddress.isLt
  have hz := s.rawSize.isLt
  rw [BitVec.le_def] at hle hend
  rw [BitVec.toNat_add, BitVec.toNat_add] at hend
  rw [hsub]
  unfold RangeWraps
  omega

/-- What is to be had of the loader: reads, sections and lookups in bounds. -/
structure Safe (alloc : Bool) (d : Buffer) : Prop where
  reads : (loadMemory alloc d).isSome
  sections : ∀ img, loadMemory alloc d = some (some img) → SectionsIn img
  pointers : ∀ img, loadMemory alloc d = some (some img) →
    ∀ rva p, rvaToPtr img.sections rva = some p → p < img.raw.size
  ranges : ∀ img, loadMemory alloc d = some (some img) →
    ∀ rva need p, rvaToMut img.sections rva need = some p → p + need.toNat ≤ img.raw.size

theorem load_law (alloc : Bool) (d : Buffer) :
    ((loadMemory alloc d).isSome ↔ FileIn alloc d) ∧
      ∀ img, loadMemory alloc d = some (some img) →
        (SectionsIn img ↔ ∀ s ∈ fileSections d, ¬ SectionWraps d.size s) ∧
        ((∀ s ∈ fileSections d, ¬ SectionWraps d.size s) →
          (∀ rva p, rvaToPtr img.sections rva = some p → p < img.raw.size) ∧
          ∀ rva need p, rvaToMut img.sections rva need = some p →
            ∃ s ∈ fileSections d, Section.mut s rva need = some p ∧
              (p + need.toNat ≤ img.raw.size ↔ ¬ RangeWraps d.size s rva need)) := by
  refine ⟨loadMemory_isSome, fun img himg => ?_⟩
  have h := loadMemory_loaded himg
  have hraw := h.raw
  have hiff : SectionsIn img ↔ ∀ s ∈ fileSections d, ¬ SectionWraps d.size s := by
    rw [← h.sections]
    refine forall_congr' fun s => forall_congr' fun hs => ?_
    obtain ⟨i, rfl⟩ := h.section_mem hs
    rw [hraw]
    exact sectionAt_fits
  refine ⟨hiff, fun hfit => ⟨fun rva p hp => h.ptr_lt (hiff.2 hfit) hp, fun rva need p hp => ?_⟩⟩
  rw [← h.sections, ← hraw]
  exact h.mut_le (hiff.2 hfit) hp

/-- `size` bytes, zero but for those given. -/
def Buffer.sparse (size : Nat) (bytes : List (Nat × Byte)) : Buffer where
  bytes i := (bytes.lookup i).getD 0
  size := size

/-- The bytes `MZ`, `e_lfanew` and the signature, which stands at 64. -/
def signed : List (Nat × Byte) := [(0, 0x4D), (1, 0x5A), (0x3C, 64), (64, 0x50), (65, 0x45)]

/-- A file that ends behind the signature. -/
def cutFile : Buffer := .sparse 68 signed

/-- A PE32+ file of 512 bytes with one section of 0x200 bytes at 0xFFFFFF00. -/
def wrapFile : Buffer := .sparse 512 <| signed ++
  [(70, 1), (84, 112), (88, 0x0B), (89, 2), (213, 0x10), (217, 2),
    (220, 0x00), (221, 0xFF), (222, 0xFF), (223, 0xFF)]

/-- The same with its section of 0x100 bytes at 0x100: a range at the top RVAs is found in it. -/
def fitFile : Buffer := .sparse 512 <| signed ++
  [(70, 1), (84, 112), (88, 0x0B), (89, 2), (213, 0x10), (217, 1), (221, 1)]

/-- The one section of such a file. -/
def onlySection (rawSize rawOffset : U32) : Section :=
  { name := List.replicate 8 0, virtualSize := 0, virtualAddress := 0x1000
    rawSize, rawOffset, characteristics := 0, data := some rawOffset.toNat }

theorem loaded_sections
    (h : ((loadMemory alloc d).map fun r => r.map fun img => img.sections) = some (some ss)) :
    ∃ img, loadMemory alloc d = some (some img) ∧ img.sections = ss ∧ img.raw = d := by
  obtain ⟨r, hr, h⟩ := Option.map_eq_some_iff.1 h
  obtain ⟨img, rfl, hss⟩ := Option.map_eq_some_iff.1 h
  exact ⟨img, hr, hss, (loadMemory_loaded hr).raw⟩

/-- Reads, sections and ranges each leave some file. -/
theorem headers_unchecked :
    loadMemory true cutFile = none ∧
    (∃ img, loadMemory true wrapFile = some (some img) ∧ ¬ SectionsIn img) ∧
    (∃ img p, loadMemory true fitFile = some (some img) ∧ SectionsIn img ∧
      rvaToMut img.sections 0xFFFFFFFC 8 = some p ∧ img.raw.size < p) ∧
    ¬ Safe true cutFile ∧ ¬ Safe true wrapFile ∧ ¬ Safe true fitFile := by
  have hcut : loadMemory true cutFile = none := rfl
  obtain ⟨wrapped, hwrap, hwss, hwraw⟩ : ∃ img, loadMemory true wrapFile = some (some img) ∧
      img.sections = [onlySection 0x200 0xFFFFFF00] ∧ img.raw = wrapFile := loaded_sections rfl
  obtain ⟨fitting, hfit, hfss, hfraw⟩ : ∃ img, loadMemory true fitFile = some (some img) ∧
      img.sections = [onlySection 0x100 0x100] ∧ img.raw = fitFile := loaded_sections rfl
  have hout : ¬ SectionsIn wrapped := by
    intro h
    have := h (onlySection 0x200 0xFFFFFF00) (by rw [hwss]; exact List.mem_singleton_self _) rfl
    rw [hwraw] at this
    revert this
    decide
  have hin : SectionsIn fitting := by
    intro s hs _
    rw [hfss] at hs
    obtain rfl := List.mem_singleton.1 hs
    rw [hfraw]
    decide
  have hmut : rvaToMut fitting.sections 0xFFFFFFFC 8 = some 4294963452 := by
    rw [hfss]
    decide
  have hfar : fitting.raw.size < 4294963452 := by
    rw [hfraw]
    decide
  refine ⟨hcut, ⟨wrapped, hwrap, hout⟩, ⟨fitting, _, hfit, hin, hmut, hfar⟩, fun h => ?_,
    fun h => hout (h.sections _ hwrap), fun h => ?_⟩
  · have := h.reads
    rw [hcut] at this
    cases this
  · have := h.ranges _ hfit _ _ _ hmut
    omega

end WineGlass.Pe
