import WineGlass.Lib.CStrings
import WineGlass.Pe.LoadDll

/-!
# Exports by name

`wg_module_export`: the modules that `wg_load_dll` has mapped, and the walk over the export
directory of one of them. As in the loader an access is checked, so that `none` is a read outside
the file. A name that a directory gives is found at its address (`exports_law`), whatever that
address is of.
-/

namespace WineGlass.Pe

open CStrings Fields

/-- `WGLoadedModule`. A record is kept of 32-bit files that the loader took, and of no others. -/
structure Module where
  name : List Byte
  base : U32
  img : Image
  accepted : ∃ alloc, loadMemory alloc img.raw = some (some img)
  narrow : img.is64bit = false

/-- `s_modules`. -/
abbrev Modules : Type := Vector (Option Module) 16

/-- Plug-ins that are loaded and then emulated. -/
def emulated : List (List Byte) := [str "nsprocess.dll", str "nsexec.dll"]

/-- `strcmp(nm, func) == 0`, for the string at `nm`. -/
def sameString (d : Buffer) (nm : Nat) : (func : List Byte) → Option Bool
  | [] => (d.load8 nm).map fun b => b == 0
  | c :: func => (d.load8 nm).bind fun b =>
    if b ≠ c then some false
    else if b = 0 then some true
    else sameString d (nm + 1) func

/-- What is read of the export directory. -/
structure ExportDirectory where
  nfuncs : U32
  nnames : U32
  funcRva : U32
  nameRva : U32
  ordRva : U32
  deriving DecidableEq, Repr

def exportDirectory (d : Buffer) (ed : Nat) : Option ExportDirectory :=
  (d.load32 (ed + 20)).bind fun nfuncs =>
  (d.load32 (ed + 24)).bind fun nnames =>
  (d.load32 (ed + 28)).bind fun funcRva =>
  (d.load32 (ed + 32)).bind fun nameRva =>
  (d.load32 (ed + 36)).map fun ordRva => ⟨nfuncs, nnames, funcRva, nameRva, ordRva⟩

/-- Where the tables of a directory are. -/
structure ExportTables where
  names : Nat
  ords : Nat
  funcs : Nat
  nfuncs : U32

def exportTables (img : Image) (e : ExportDirectory) : Option ExportTables :=
  (peRvaPtr img e.nameRva (e.nnames * 4)).bind fun names =>
  (peRvaPtr img e.ordRva (e.nnames * 2)).bind fun ords =>
  (peRvaPtr img e.funcRva (e.nfuncs * 4)).map fun funcs => ⟨names, ords, funcs, e.nfuncs⟩

/-- The condition of the name loop. -/
def namedAt (img : Image) (nrva : U32) (func : List Byte) : Option Bool :=
  match peRvaPtr img nrva 1 with
  | none => some false
  | some nm => sameString img.raw nm func

/-- What the name loop returns at the name it found. -/
def addressAt (img : Image) (base : U32) (t : ExportTables) (k : U32) : Option U32 :=
  (img.raw.load16 (t.ords + (k * 2).toNat)).bind fun idx =>
    if t.nfuncs ≤ idx.setWidth 32 then some 0
    else (img.raw.load32 (t.funcs + idx.toNat * 4)).map fun frva => base + frva

/-- The name loop at `k` with `left` to go. -/
def findExport (img : Image) (base : U32) (func : List Byte) (t : ExportTables) :
    (left : Nat) → (k : U32) → Option U32
  | 0, _ => some 0
  | left + 1, k =>
    (img.raw.load32 (t.names + (k * 4).toNat)).bind fun nrva =>
    (namedAt img nrva func).bind fun same =>
      if same then addressAt img base t k else findExport img base func t left (k + 1)

/-- The lookup in the image of a module. -/
def imageExport (img : Image) (base : U32) (func : List Byte) : Option U32 :=
  if img.exports.rva = 0 ∨ img.exports.size = 0 then some 0
  else
    match peRvaPtr img img.exports.rva 40 with
    | none => some 0
    | some ed =>
      (exportDirectory img.raw ed).bind fun e =>
        match exportTables img e with
        | none => some 0
        | some t => findExport img base func t e.nnames.toNat 0

def Modules.at (ms : Modules) (base : U32) : Option Module :=
  ms.toList.findSome? fun m => m.filter fun m => m.base == base

def moduleExport (ms : Modules) (base : U32) (func : List Byte) : Option U32 :=
  match ms.at base with
  | none => some 0
  | some m => if m.name ∈ emulated then some 0 else imageExport m.img base func

-- ---------------------------------------------------------------------------
-- Reads
-- ---------------------------------------------------------------------------

def Buffer.exportDirectory (d : Buffer) (ed : Nat) : ExportDirectory :=
  ⟨d.u32 (ed + 20), d.u32 (ed + 24), d.u32 (ed + 28), d.u32 (ed + 32), d.u32 (ed + 36)⟩

/-- No sum of the loader or of the lookup wraps, and the names are ended in the file. -/
structure Unwrapped (img : Image) : Prop where
  sections : ∀ s ∈ img.sections, ¬ SectionWraps img.raw.size s
  directory : img.exports.rva.toNat + 40 < 2 ^ 32
  tables : ∀ ed, peRvaPtr img img.exports.rva 40 = some ed →
    (img.raw.exportDirectory ed).nameRva.toNat +
      4 * (img.raw.exportDirectory ed).nnames.toNat < 2 ^ 32 ∧
    (img.raw.exportDirectory ed).ordRva.toNat +
      2 * (img.raw.exportDirectory ed).nnames.toNat < 2 ^ 32 ∧
    (img.raw.exportDirectory ed).funcRva.toNat +
      4 * (img.raw.exportDirectory ed).nfuncs.toNat < 2 ^ 32
  names : ∀ ed, peRvaPtr img img.exports.rva 40 = some ed →
    ∀ t, exportTables img (img.raw.exportDirectory ed) = some t →
      ∀ k < (img.raw.exportDirectory ed).nnames.toNat,
        (img.raw.u32 (t.names + 4 * k)).toNat + 1 < 2 ^ 32 ∧
        ∀ nm, peRvaPtr img (img.raw.u32 (t.names + 4 * k)) 1 = some nm →
          ∃ i, nm + i < img.raw.size ∧ img.raw.u8 (nm + i) = 0

section
variable {d : Buffer} {img : Image}

/-- A range found is in the file, when its end does not wrap. -/
theorem Loaded.peRvaPtr_le (h : Loaded img.raw img)
    (hs : ∀ s ∈ img.sections, ¬ SectionWraps img.raw.size s)
    (hfit : rva.toNat + need.toNat < 2 ^ 32) (hp : peRvaPtr img rva need = some p) :
    p + need.toNat ≤ img.raw.size := by
  have hsum : (rva + need).toNat = rva.toNat + need.toNat := by
    rw [BitVec.toNat_add, Nat.mod_eq_of_lt hfit]
  unfold peRvaPtr at hp
  split at hp
  case isTrue hc =>
    obtain rfl := Option.some.inj hp
    exact hsum ▸ hc.2
  split at hp
  case h_1 => cases hp
  rename_i s hfind
  have hmem := List.mem_of_find?_eq_some hfind
  have hcover := of_decide_eq_true (List.find?_some
    (p := fun s : Section => decide (s.virtualAddress ≤ rva ∧
      rva + need ≤ s.virtualAddress + s.extent)) hfind)
  split at hp
  case h_1 => cases hp
  rename_i data hdata
  split at hp
  case isFalse => cases hp
  rename_i hin
  obtain rfl := Option.some.inj hp
  obtain ⟨i, rfl⟩ := h.section_mem hmem
  have hraw := sectionAt_fits.2 (hs _ hmem) (by rw [hdata]; rfl)
  rw [sectionAt_data hdata]
  generalize sectionAt img.raw _ i = s at *
  have hsub : (rva - s.virtualAddress).toNat = rva.toNat - s.virtualAddress.toNat :=
    BitVec.toNat_sub_of_le hcover.1
  have hlo := BitVec.le_def.1 hcover.1
  rw [BitVec.le_def, BitVec.toNat_add, hsub, Nat.mod_eq_of_lt (by omega)] at hin
  omega

theorem exportDirectory_is (h : ed + 40 ≤ d.size) :
    exportDirectory d ed = some (d.exportDirectory ed) := by
  have hload : ∀ i, i + 4 ≤ 40 → d.load32 (ed + i) = some (d.u32 (ed + i)) :=
    fun i hi => load32_some (by omega)
  rw [exportDirectory, hload 20 (by decide), hload 24 (by decide), hload 28 (by decide),
    hload 32 (by decide), hload 36 (by decide)]
  rfl

/-- A comparison goes no further than the string's end. -/
theorem sameString_isSome (h : nm + i < d.size) (hz : d.u8 (nm + i) = 0) :
    (sameString d nm func).isSome := by
  induction func generalizing nm i with
  | nil =>
    rw [sameString, Option.isSome_map, Buffer.load8, Option.isSome_map, load_some (by omega)]
    rfl
  | cons c func ih =>
    rw [sameString, load8_bind]
    refine ⟨by omega, ?_⟩
    split
    · rfl
    split
    · rfl
    rename_i hne
    cases i with
    | zero => exact absurd hz hne
    | succ i =>
      have hshift : nm + 1 + i = nm + (i + 1) := by omega
      exact ih (hshift ▸ h) (hshift ▸ hz)

theorem scaled_toNat (k : U32) (w : Nat) (hw : w < 2 ^ 32) (h : w * k.toNat < 2 ^ 32) :
    (k * BitVec.ofNat 32 w).toNat = w * k.toNat := by
  rw [BitVec.toNat_mul, BitVec.toNat_ofNat, Nat.mod_eq_of_lt hw, Nat.mul_comm, Nat.mod_eq_of_lt h]

theorem succ_toNat (h : k.toNat + 1 < 2 ^ 32) : (k + 1 : U32).toNat = k.toNat + 1 := by
  rw [BitVec.toNat_add]
  exact Nat.mod_eq_of_lt h

/-- The tables and the names that a lookup goes over are in the file. -/
structure TablesHeld (img : Image) (nnames : Nat) (t : ExportTables) : Prop where
  small : 4 * nnames < 2 ^ 32
  names : t.names + 4 * nnames ≤ img.raw.size
  ords : t.ords + 2 * nnames ≤ img.raw.size
  funcs : t.funcs + 4 * t.nfuncs.toNat ≤ img.raw.size
  strings : ∀ k < nnames, ∀ func, (namedAt img (img.raw.u32 (t.names + 4 * k)) func).isSome

theorem addressAt_isSome (h : TablesHeld img n t) (hk : k.toNat < n) :
    (addressAt img base t k).isSome := by
  have hsmall := h.small
  have hords := h.ords
  have hfuncs := h.funcs
  have hscaled : (k * 2).toNat = 2 * k.toNat := scaled_toNat k 2 (by decide) (by omega)
  rw [addressAt, load16_bind]
  refine ⟨by omega, ?_⟩
  split
  · rfl
  rename_i hidx
  generalize img.raw.u16 (t.ords + (k * 2).toNat) = idx at *
  have hlt := idx.isLt
  rw [BitVec.le_def, BitVec.toNat_setWidth, Nat.mod_eq_of_lt (by omega)] at hidx
  rw [load32_some (by omega)]
  rfl

theorem findExport_isSome (h : TablesHeld img n t) (hk : k.toNat + left = n) :
    (findExport img base func t left k).isSome := by
  induction left generalizing k with
  | zero => rfl
  | succ left ih =>
    have hsmall := h.small
    have hnames := h.names
    have hscaled : (k * 4).toNat = 4 * k.toNat := scaled_toNat k 4 (by decide) (by omega)
    rw [findExport, load32_bind, hscaled]
    refine ⟨by omega, ?_⟩
    obtain ⟨same, hsame⟩ := Option.isSome_iff_exists.1 (h.strings k.toNat (by omega) func)
    rw [hsame, Option.bind_some]
    split
    · exact addressAt_isSome h (by omega)
    · exact ih (by rw [succ_toNat (by omega)]; omega)

theorem Unwrapped.held (h : Unwrapped img) (hd : Loaded img.raw img)
    (hed : peRvaPtr img img.exports.rva 40 = some ed)
    (ht : exportTables img (img.raw.exportDirectory ed) = some t) :
    TablesHeld img (img.raw.exportDirectory ed).nnames.toNat t := by
  obtain ⟨hnames, hords, hfuncs⟩ := h.tables ed hed
  have hstrings := h.names ed hed t ht
  generalize img.raw.exportDirectory ed = e at *
  have hn : (e.nnames * 4).toNat = 4 * e.nnames.toNat := scaled_toNat _ 4 (by decide) (by omega)
  have ho : (e.nnames * 2).toNat = 2 * e.nnames.toNat := scaled_toNat _ 2 (by decide) (by omega)
  have hf : (e.nfuncs * 4).toNat = 4 * e.nfuncs.toNat := scaled_toNat _ 4 (by decide) (by omega)
  obtain ⟨names, hpn, ht⟩ := Option.bind_eq_some_iff.1 ht
  obtain ⟨ords, hpo, ht⟩ := Option.bind_eq_some_iff.1 ht
  obtain ⟨funcs, hpf, rfl⟩ := Option.map_eq_some_iff.1 ht
  refine ⟨by omega, ?_, ?_, ?_, fun k hk func => ?_⟩
  · exact hn ▸ hd.peRvaPtr_le h.sections (by omega) hpn
  · exact ho ▸ hd.peRvaPtr_le h.sections (by omega) hpo
  · exact hf ▸ hd.peRvaPtr_le h.sections (by omega) hpf
  · have hended := (hstrings k hk).2
    unfold namedAt
    split
    · rfl
    · rename_i nm hnm
      obtain ⟨i, hi, hz⟩ := hended nm hnm
      exact sameString_isSome hi hz

/-- A lookup where nothing wraps reads in the file. -/
theorem imageExport_isSome (hd : Loaded img.raw img) (h : Unwrapped img) :
    (imageExport img base func).isSome := by
  unfold imageExport
  split
  · rfl
  split
  · rfl
  rename_i ed hed
  have hin : ed + 40 ≤ img.raw.size := hd.peRvaPtr_le h.sections h.directory hed
  rw [exportDirectory_is hin, Option.bind_some]
  split
  · rfl
  · rename_i t ht
    exact findExport_isSome (h.held hd hed ht) (Nat.zero_add _)

end

-- ---------------------------------------------------------------------------
-- Well-formed directories
-- ---------------------------------------------------------------------------

/-- An entry of the name and the ordinal table. -/
structure Export where
  name : List Byte
  ordinal : U16

/-- The `n` bytes at `rva` are raw data of the image, and stand at `p` of the file. -/
def Shown (img : Image) (rva : U32) (n p : Nat) : Prop := ∃ s ∈ img.sections, s.Shows rva n p

/-- The tables at `t` have the entries `es`, and the addresses `fs`. -/
structure TablesAre (img : Image) (e : ExportDirectory) (es : List Export) (fs : List U32)
    (t : ExportTables) : Prop where
  nfuncs : t.nfuncs = e.nfuncs
  names : Shown img e.nameRva (4 * es.length) t.names
  ords : Shown img e.ordRva (2 * es.length) t.ords
  funcs : Shown img e.funcRva (4 * fs.length) t.funcs
  name : ∀ k x, es[k]? = some x → ∃ q, TextAt img.raw q x.name ∧
    Shown img (img.raw.u32 (t.names + 4 * k)) (x.name.length + 1) q
  ordinal : ∀ k x, es[k]? = some x →
    img.raw.u16 (t.ords + 2 * k) = x.ordinal ∧ x.ordinal.toNat < fs.length
  address : ∀ i a, fs[i]? = some a → img.raw.u32 (t.funcs + 4 * i) = a

/-- The export directory of an image is there and lists `es`; its addresses are `fs`. -/
def Exports (img : Image) (es : List Export) (fs : List U32) : Prop :=
  if img.exports.rva = 0 ∨ img.exports.size = 0 then es = []
  else ∃ ed, Shown img img.exports.rva 40 ed ∧
    (img.raw.exportDirectory ed).nfuncs.toNat = fs.length ∧
    (img.raw.exportDirectory ed).nnames.toNat = es.length ∧
    (es ≠ [] → ∃ t, TablesAre img (img.raw.exportDirectory ed) es fs t)

/-- The address that a directory gives for a name, and 0 for one it does not have. -/
def addressOf (es : List Export) (fs : List U32) (base : U32) (func : List Byte) : U32 :=
  match es.find? fun x => x.name == func with
  | none => 0
  | some x => base + fs.getD x.ordinal.toNat 0

section
variable {d : Buffer} {img : Image}

theorem sameString_text (h : TextAt d nm name) (hin : nm + name.length + 1 ≤ d.size)
    (hfunc : 0 ∉ func) : sameString d nm func = some (name == func) := by
  have h8 : d.load8 nm = some (d.u8 nm) := by
    rw [Buffer.load8, load_some (by omega)]
    rfl
  induction func generalizing nm name with
  | nil =>
    rw [sameString, h8, Option.map_some]
    cases name with
    | nil => rw [show d.u8 nm = 0 from h]; rfl
    | cons b name =>
      obtain ⟨hb, hbyte, -⟩ := h
      rw [hbyte, beq_false_of_ne hb]
      rfl
  | cons c func ih =>
    rw [sameString, h8, Option.bind_some]
    obtain ⟨hc, hrestf⟩ := not_or.1 (List.mem_cons.not.1 hfunc)
    cases name with
    | nil =>
      rw [show d.u8 nm = 0 from h, if_pos hc]
      rfl
    | cons b name =>
      obtain ⟨hb, hbyte, hrest⟩ := h
      rw [List.length_cons] at hin
      rw [hbyte]
      by_cases hbc : b = c
      · subst hbc
        have hnext : d.load8 (nm + 1) = some (d.u8 (nm + 1)) := by
          rw [Buffer.load8, load_some (by omega)]
          rfl
        rw [if_neg (not_not.2 rfl), if_neg hb, ih hrest (by omega) hrestf hnext]
        simp
      · rw [if_pos hbc]
        simp [hbc]

variable (h : Layout img) (hd : Loaded img.raw img)
include h hd

theorem Shown.inside (hp : Shown img rva n p) :
    p + n ≤ img.raw.size ∧ rva.toNat + n < 2 ^ 32 := by
  obtain ⟨s, hs, hp⟩ := hp
  have hup := hp.upper
  have hfill := (filled_le s).1
  have hreach := (reach_le s).2
  have hin := (h.inside s hs).2
  have hsize := img.sizeOfImage.isLt
  refine ⟨(h.laid hd).inside ⟨s, hd.sections ▸ hs, hp.holds⟩, by omega⟩

theorem Shown.ptr (hp : Shown img rva n p) (hneed : need.toNat = n) (hn : 0 < n) :
    peRvaPtr img rva need = some p := by
  obtain ⟨s, hs, hp⟩ := hp
  subst hneed
  exact peRvaPtr_shown h hd hs hp (.inl hn)

theorem namedAt_is (hq : Shown img nrva (name.length + 1) q) (ht : TextAt img.raw q name)
    (hfunc : 0 ∉ func) : namedAt img nrva func = some (name == func) := by
  obtain ⟨s, hs, hp⟩ := hq
  have hin := (Shown.inside h hd ⟨s, hs, hp⟩).1
  have hfirst : Shown img nrva 1 q := ⟨s, hs, hp.sub (k := 0) (by omega) rfl⟩
  rw [namedAt, hfirst.ptr h hd rfl Nat.one_pos]
  exact sameString_text ht hin hfunc

variable {e : ExportDirectory} (ht : TablesAre img e es fs t)
  (hfs : e.nfuncs.toNat = fs.length)
include ht hfs

theorem addressAt_is (hk : es[k.toNat]? = some x) :
    addressAt img base t k = some (base + fs.getD x.ordinal.toNat 0) := by
  obtain ⟨hordinal, hlt⟩ := ht.ordinal _ _ hk
  obtain ⟨hlen, -⟩ := List.getElem?_eq_some_iff.1 hk
  have hords := ht.ords.inside h hd
  have hfuncs := ht.funcs.inside h hd
  have hscaled : (k * 2).toNat = 2 * k.toNat := scaled_toNat k 2 (by decide) (by omega)
  have hget : fs[x.ordinal.toNat]? = some (fs.getD x.ordinal.toNat 0) := by
    rw [List.getD_eq_getElem?_getD, List.getElem?_eq_getElem hlt, Option.getD_some]
  have hfew : ¬ t.nfuncs ≤ x.ordinal.setWidth 32 := by
    have hx := x.ordinal.isLt
    rw [ht.nfuncs, BitVec.le_def, BitVec.toNat_setWidth, Nat.mod_eq_of_lt (by omega)]
    omega
  rw [addressAt, hscaled, load16_some (by omega), Option.bind_some, hordinal, if_neg hfew,
    Nat.mul_comm, load32_some (by omega), ht.address _ _ hget, Option.map_some]

/-- The name loop behind the entries `done`. -/
theorem findExport_is (hfunc : 0 ∉ func) (hes : es = done ++ rest) :
    findExport img base func t rest.length (BitVec.ofNat 32 done.length) =
      some (addressOf rest fs base func) := by
  induction rest generalizing done with
  | nil => rfl
  | cons x rest ih =>
    have hnames := ht.names.inside h hd
    have hlen : es.length = done.length + (rest.length + 1) := by
      rw [hes, List.length_append, List.length_cons]
    have hk : (BitVec.ofNat 32 done.length).toNat = done.length := by
      rw [BitVec.toNat_ofNat, Nat.mod_eq_of_lt (by omega)]
    have hscaled : (BitVec.ofNat 32 done.length * 4).toNat = 4 * done.length :=
      (scaled_toNat _ 4 (by decide) (by omega)).trans (by rw [hk])
    have hat : es[done.length]? = some x := by
      rw [hes, List.getElem?_append_right (Nat.le_refl _), Nat.sub_self]
      rfl
    obtain ⟨q, htext, hq⟩ := ht.name _ _ hat
    rw [List.length_cons, findExport, hscaled, load32_some (by omega), Option.bind_some,
      namedAt_is h hd hq htext hfunc, Option.bind_some, addressOf, List.find?_cons]
    cases hsame : x.name == func with
    | true => exact addressAt_is h hd ht hfs (by rw [hk]; exact hat)
    | false =>
      have hnext : BitVec.ofNat 32 done.length + 1 = BitVec.ofNat 32 (done ++ [x]).length := by
        rw [List.length_append, List.length_singleton, BitVec.ofNat_add]
        rfl
      rw [if_neg Bool.false_ne_true, hnext]
      exact ih (by rw [hes, List.append_assoc, List.singleton_append])

omit ht hfs in
/-- A name is looked up in the directory, and its address returned. -/
theorem imageExport_is (hx : Exports img es fs) (hfunc : 0 ∉ func) :
    imageExport img base func = some (addressOf es fs base func) := by
  unfold Exports at hx
  unfold imageExport
  split at hx
  case isTrue hno =>
    subst hx
    rw [if_pos hno]
    rfl
  rename_i hdir
  obtain ⟨ed, hed, hnfuncs, hnnames, htables⟩ := hx
  rw [if_neg hdir, hed.ptr h hd rfl (by decide)]
  dsimp only
  rw [exportDirectory_is (hed.inside h hd).1, Option.bind_some]
  generalize img.raw.exportDirectory ed = e at *
  cases hes : es with
  | nil =>
    rw [hnnames, hes]
    split <;> rfl
  | cons x rest =>
    obtain ⟨t, ht⟩ := htables (by rw [hes]; exact List.cons_ne_nil x rest)
    have hlen : es.length = rest.length + 1 := by rw [hes, List.length_cons]
    obtain ⟨hord, hlt⟩ := ht.ordinal 0 x (by rw [hes]; rfl)
    have hn := (ht.names.inside h hd).2
    have ho := (ht.ords.inside h hd).2
    have hf := (ht.funcs.inside h hd).2
    have hnames : peRvaPtr img e.nameRva (e.nnames * 4) = some t.names :=
      ht.names.ptr h hd
        ((scaled_toNat _ 4 (by decide) (by omega)).trans (by rw [hnnames])) (by omega)
    have hords : peRvaPtr img e.ordRva (e.nnames * 2) = some t.ords :=
      ht.ords.ptr h hd
        ((scaled_toNat _ 2 (by decide) (by omega)).trans (by rw [hnnames])) (by omega)
    have hfuncs : peRvaPtr img e.funcRva (e.nfuncs * 4) = some t.funcs :=
      ht.funcs.ptr h hd
        ((scaled_toNat _ 4 (by decide) (by omega)).trans (by rw [hnfuncs])) (by omega)
    have htabs : exportTables img e = some t := by
      rw [exportTables, hnames, hords, hfuncs]
      show some (ExportTables.mk t.names t.ords t.funcs e.nfuncs) = some t
      rw [← ht.nfuncs]
    rw [htabs]
    dsimp only
    rw [hnnames, ← hes]
    exact findExport_is h hd ht hnfuncs hfunc (List.nil_append es).symm

end

theorem exports_law (ms : Modules) (base : U32) (func : List Byte) :
    (ms.at base = none → moduleExport ms base func = some 0) ∧
      ∀ m, ms.at base = some m →
        (m.name ∈ emulated → moduleExport ms base func = some 0) ∧
        (m.name ∉ emulated →
          (Unwrapped m.img → (moduleExport ms base func).isSome) ∧
          ∀ es fs, Layout m.img → Exports m.img es fs → 0 ∉ func →
            moduleExport ms base func = some (addressOf es fs base func)) := by
  unfold moduleExport
  refine ⟨fun hm => by rw [hm], fun m hm => ?_⟩
  obtain ⟨alloc, hload⟩ := m.accepted
  have hd := loadMemory_loaded hload
  rw [hm]
  dsimp only
  refine ⟨fun hname => if_pos hname, fun hname => ?_⟩
  rw [if_neg hname]
  exact ⟨imageExport_isSome hd, fun es fs h hx => imageExport_is h hd hx⟩

/-- A PE32 file with one section of 0x200 bytes at 0x1000, and an export directory of 0x80 bytes
at `rva`. -/
def exportHeaders (rva : Byte × Byte) : List (Nat × Byte) := signed ++
  [(70, 1), (84, 144), (88, 0x0B), (89, 1), (118, 0x40), (145, 0x20), (149, 2), (180, 6),
    (184, rva.1), (185, rva.2), (188, 0x80), (241, 2), (245, 0x10), (249, 2), (253, 2)]

/-- It exports `a`, at 0x1100, and `b`, at the text `a.d` of the directory. -/
def exportFile : Buffer := .sparse 1024 <| exportHeaders (0x00, 0x10) ++
  [(532, 2), (536, 2), (540, 0x28), (541, 0x10), (544, 0x30), (545, 0x10), (548, 0x38),
    (549, 0x10), (553, 0x11), (556, 0x44), (557, 0x10), (560, 0x3C), (561, 0x10), (564, 0x3E),
    (565, 0x10), (570, 1), (572, 97), (574, 98), (580, 97), (581, 46), (582, 100)]

/-- Its one name is at the last RVA. -/
def lastNameFile : Buffer := .sparse 1024 <| exportHeaders (0x00, 0x10) ++
  [(532, 1), (536, 1), (540, 0x28), (541, 0x10), (544, 0x30), (545, 0x10), (548, 0x38),
    (549, 0x10), (560, 0xFF), (561, 0xFF), (562, 0xFF), (563, 0xFF)]

/-- What the loader makes of such a file. -/
def exportImage (d : Buffer) : Image :=
  { imageBase := 0x400000, entryPoint := 0, sizeOfImage := 0x2000, sizeOfHeaders := 0x200
    subsystem := 0, dllCharacteristics := 0, machine := 0, is64bit := false
    sections := [dllSection], imports := [], exports := ⟨0x1000, 0x80⟩, reloc := ⟨0, 0⟩
    tls := ⟨0, 0⟩, raw := d }

theorem exportFile_loads : loadMemory true exportFile = some (some (exportImage exportFile)) := rfl

theorem lastNameFile_loads :
    loadMemory true lastNameFile = some (some (exportImage lastNameFile)) := rfl

def exportModule (name : String) : Module :=
  ⟨str name, 0x400000, exportImage exportFile, ⟨true, exportFile_loads⟩, rfl⟩

def lastNameModule : Module :=
  ⟨str "last.dll", 0x400000, exportImage lastNameFile, ⟨true, lastNameFile_loads⟩, rfl⟩

/-- The module is the only one. -/
def onlyModule (m : Module) : Modules := ⟨(some m :: List.replicate 15 none).toArray, rfl⟩

theorem onlyModule_at (m : Module) : (onlyModule m).at m.base = some m := by
  have hlist : (onlyModule m).toList = some m :: List.replicate 15 none := rfl
  rw [Modules.at, hlist, List.findSome?_cons, Option.filter_some, if_pos (beq_self_eq_true _)]

theorem exportImage_layout : Layout (exportImage exportFile) where
  word := rfl
  lfanew := by decide +kernel
  header := by decide +kernel
  headers := by decide
  stored := by decide
  files := List.pairwise_singleton _ _
  aligned := by decide
  above := by decide
  inside := by decide
  apart := List.pairwise_singleton _ _

/-- The bytes of the one section. -/
theorem exportImage_shown (hlo : 0x1000 ≤ rva.toNat) (hup : rva.toNat + n ≤ 0x1200) :
    Shown (exportImage exportFile) rva n (0x200 + (rva.toNat - 0x1000)) :=
  ⟨dllSection, List.mem_singleton_self _, by decide, hlo, hup, rfl⟩

def exportList : List Export := [⟨str "a", 0⟩, ⟨str "b", 1⟩]

theorem exportImage_exports : Exports (exportImage exportFile) exportList [0x1100, 0x1044] := by
  refine (if_neg (by decide)).mpr ⟨512, exportImage_shown (by decide) (by decide),
    by decide +kernel, by decide +kernel, fun _ => ⟨⟨560, 568, 552, 2⟩, ?_⟩⟩
  refine ⟨by decide +kernel, ?_, ?_, ?_, ?_, ?_, ?_⟩
  · exact exportImage_shown (by decide +kernel) (by decide +kernel)
  · exact exportImage_shown (by decide +kernel) (by decide +kernel)
  · exact exportImage_shown (by decide +kernel) (by decide +kernel)
  · rintro (_ | _ | k) x hx <;> cases hx
    · exact ⟨572, ⟨by decide, by decide +kernel, show Buffer.u8 _ _ = 0 by decide +kernel⟩,
        exportImage_shown (by decide +kernel) (by decide +kernel)⟩
    · exact ⟨574, ⟨by decide, by decide +kernel, show Buffer.u8 _ _ = 0 by decide +kernel⟩,
        exportImage_shown (by decide +kernel) (by decide +kernel)⟩
  · rintro (_ | _ | k) x hx <;> cases hx <;> decide +kernel
  · rintro (_ | _ | k) x hx <;> cases hx <;> decide +kernel

/-- The name `a` gets its function. -/
theorem exported_a : moduleExport (onlyModule (exportModule "plugin.dll")) 0x400000 (str "a") =
    some 0x401100 :=
  (((exports_law _ _ _).2 _ (onlyModule_at (exportModule "plugin.dll"))).2 (by decide)).2
    exportList _ exportImage_layout exportImage_exports (by decide)

/-- An address of the export directory. -/
def InDirectory (m : Module) (a : U32) : Prop :=
  ∃ i, a = m.base + m.img.exports.rva + i ∧ i < m.img.exports.size

/-- A forwarder gives the address of its text, a plug-in that is emulated gives no address, and
the last RVA is taken for one of the headers. -/
theorem forwarder_unfollowed :
    (∃ m es fs, Layout m.img ∧ Exports m.img es fs ∧ (∃ x ∈ es, x.name = str "b") ∧
      ∃ a, moduleExport (onlyModule m) m.base (str "b") = some a ∧ InDirectory m a) ∧
    (∃ m es fs, Layout m.img ∧ Exports m.img es fs ∧ addressOf es fs m.base (str "a") ≠ 0 ∧
      moduleExport (onlyModule m) m.base (str "a") = some 0) ∧
    ∃ m, moduleExport (onlyModule m) m.base (str "a") = none := by
  have hload := loadMemory_loaded exportFile_loads
  refine ⟨⟨exportModule "plugin.dll", exportList, _, exportImage_layout, exportImage_exports,
    ⟨_, List.mem_cons_of_mem _ (List.mem_singleton_self _), rfl⟩, 0x401044, ?_, 0x44, by decide,
    by decide⟩, ⟨exportModule "nsexec.dll", exportList, _, exportImage_layout,
    exportImage_exports, by decide, ?_⟩, lastNameModule, ?_⟩
  · rw [moduleExport, onlyModule_at]
    dsimp only
    rw [if_neg (by decide)]
    exact imageExport_is exportImage_layout hload exportImage_exports (by decide)
  · rw [moduleExport, onlyModule_at]
    exact if_pos (by decide)
  · rw [moduleExport, onlyModule_at]
    dsimp only
    rw [if_neg (by decide)]
    decide +kernel

end WineGlass.Pe
