import WineGlass.Pe.Bounds
import WineGlass.Pe.Slots

/-!
# The imports of a well-formed image

What an import directory says, read from the file by the format's own rules: where the raw
data of the sections holds an RVA, the zero-terminated strings, thunks and descriptors. For
every file that is laid out so, `wg_pe_load_memory` records just that, and the array slots it
writes read the same.
-/

namespace WineGlass.Pe

open Fields

-- ---------------------------------------------------------------------------
-- The format
-- ---------------------------------------------------------------------------

/-- The file has raw data of the section. -/
def Section.Stored (s : Section) : Prop := 0 < s.rawOffset ∧ 0 < s.rawSize

instance (s : Section) : Decidable s.Stored := inferInstanceAs (Decidable (_ ∧ _))

/-- The raw data is in the file and the RVA space, and no two sections' data share an RVA. -/
structure Laid (size : Nat) (ss : List Section) : Prop where
  stored : ∀ s ∈ ss, s.Stored → s.rawOffset.toNat + s.rawSize.toNat ≤ size ∧
    s.virtualAddress.toNat + s.rawSize.toNat < 2 ^ 32
  apart : ss.Pairwise fun s t => s.Stored → t.Stored →
    s.virtualAddress.toNat + s.rawSize.toNat ≤ t.virtualAddress.toNat ∨
      t.virtualAddress.toNat + t.rawSize.toNat ≤ s.virtualAddress.toNat

/-- The `n` bytes at `rva` are raw data of the section, and stand at `p` of the file. -/
structure Section.Holds (s : Section) (rva : U32) (n p : Nat) : Prop where
  stored : s.Stored
  lower : s.virtualAddress.toNat ≤ rva.toNat
  upper : rva.toNat + n ≤ s.virtualAddress.toNat + s.rawSize.toNat
  place : p = s.rawOffset.toNat + (rva.toNat - s.virtualAddress.toNat)

def Holds (ss : List Section) (rva : U32) (n p : Nat) : Prop := ∃ s ∈ ss, s.Holds rva n p

/-- The string `s` with its terminator stands at `p`. -/
def TextAt (d : Buffer) : (p : Nat) → (s : List Byte) → Prop
  | p, [] => d.u8 p = 0
  | p, c :: s => c ≠ 0 ∧ d.u8 p = c ∧ TextAt d (p + 1) s

inductive Import
  | ordinal (n : U16)
  | named (hint : U16) (name : List Byte)

section
variable (d : Buffer) (ss : List Section) (w : Nat)

/-- The `w` bytes of a thunk: the top bit and the ordinal, or the RVA of hint and name. -/
def ThunkIs (t : Nat) : Import → Prop
  | .ordinal n => t.testBit (8 * w - 1) ∧ BitVec.ofNat 16 t = n
  | .named hint name => t ≠ 0 ∧ t < 2 ^ 31 ∧
    ∃ p, Holds ss (BitVec.ofNat 32 t) (2 + name.length + 1) p ∧ d.u16 p = hint ∧
      TextAt d (p + 2) name

/-- The thunks from `p` to the zero one. -/
def ThunksAt : (p : Nat) → List Import → Prop
  | p, [] => get d.bytes ⟨p, w⟩ = 0
  | p, i :: imports => ThunkIs d ss w (get d.bytes ⟨p, w⟩) i ∧ ThunksAt (p + w) imports

/-- A descriptor; `thunks` is none when they are in no section. -/
structure Dll where
  name : List Byte
  firstThunk : U32
  thunks : Option (List Import)

/-- `OriginalFirstThunk`, or `FirstThunk` when that is zero. -/
def thunksRva (p : Nat) : U32 := if d.u32 p ≠ 0 then d.u32 p else d.u32 (p + 16)

/-- The thunks at an RVA. -/
def ThunksOf (rva : U32) : Option (List Import) → Prop
  | none => ∀ p, ¬ Holds ss rva 1 p
  | some imports => imports.length ≤ maxImportFuncs ∧
    ∃ p, Holds ss rva (w * (imports.length + 1)) p ∧ ThunksAt d ss w p imports

/-- The descriptor at `p`. -/
structure DllAt (p : Nat) (dll : Dll) : Prop where
  named : d.u32 (p + 12) ≠ 0
  name : ∃ q, Holds ss (d.u32 (p + 12)) (dll.name.length + 1) q ∧ TextAt d q dll.name
  firstThunk : d.u32 (p + 16) = dll.firstThunk
  thunks : ThunksOf d ss w (thunksRva d p) dll.thunks

/-- The descriptors from `p` to the one without a name. -/
def DllsAt : (p : Nat) → List Dll → Prop
  | p, [] => d.u32 (p + 12) = 0
  | p, dll :: dlls => DllAt d ss w p dll ∧ DllsAt (p + 20) dlls

/-- What the import directory lists. -/
def Lists (dir : Directory) (dlls : List Dll) : Prop :=
  if dir.rva = 0 ∨ dir.size = 0 then dlls = []
  else dlls.length ≤ maxImports ∧
    ∃ p, Holds ss dir.rva (20 * (dlls.length + 1)) p ∧ DllsAt d ss w p dlls

end

/-- The optional header of a file, and what it says of its directories. -/
def optHeader (d : Buffer) : Nat := (d.u32 0x3C).toNat + 24

def numDirectories (d : Buffer) (l : OptionalLayout) : U32 :=
  d.u32 (optHeader d + l.numberOfRvaAndSizes)

/-- A file whose headers, directories and section table are there, with at most 96 sections,
and whose import directory lists `dlls`. -/
structure WellFormedFile (d : Buffer) (l : OptionalLayout) (dlls : List Dll) : Prop where
  size : 64 ≤ d.size
  magic : d.u16 0 = 0x5A4D
  signature : d.u32 (d.u32 0x3C).toNat = 0x00004550
  layout : optionalLayout (d.u16 (optHeader d)) = some l
  directories : optHeader d + l.size + 8 * (numDirectories d l).toNat ≤ d.size
  count : (d.u16 ((d.u32 0x3C).toNat + 6)).toNat ≤ maxSections
  table : optHeader d + (d.u16 ((d.u32 0x3C).toNat + 20)).toNat +
    40 * (d.u16 ((d.u32 0x3C).toNat + 6)).toNat ≤ d.size
  laid : Laid d.size (fileSections d)
  imports : Lists d (fileSections d) l.thunkWidth
    (directoryAt d (optHeader d + l.size) (numDirectories d l) 1) dlls

-- ---------------------------------------------------------------------------
-- What is recorded
-- ---------------------------------------------------------------------------

def Import.record (iatRva : U32) : Import → ImportFunc
  | .ordinal n => ⟨ordinalName n, n, iatRva⟩
  | .named hint name => ⟨name.take nameLimit, hint, iatRva⟩

/-- The functions of a descriptor, from number `i` on. -/
def records (w : Nat) (firstThunk : U32) (i : Nat) : List Import → List ImportFunc
  | [] => []
  | imp :: imports =>
    imp.record (firstThunk + BitVec.ofNat 32 (i * w)) :: records w firstThunk (i + 1) imports

def Dll.record (w : Nat) (dll : Dll) : Option ImportDll :=
  dll.thunks.map fun imports => ⟨dll.name.take nameLimit, records w dll.firstThunk 0 imports⟩

-- ---------------------------------------------------------------------------
-- Lookups
-- ---------------------------------------------------------------------------

variable {d : Buffer} {ss : List Section}

theorem sectionAt_rule (d : Buffer) (headers i : Nat) : ∃ s, sectionAt d headers i = s ∧
    s.data = if 0 < s.rawOffset ∧ 0 < s.rawSize ∧ (s.rawOffset + s.rawSize).toNat ≤ d.size then
      some s.rawOffset.toNat else none := ⟨_, rfl, rfl⟩

/-- The loader gives a section its data just when the file has it. -/
theorem Laid.data (h : Laid d.size (fileSections d)) (hs : s ∈ fileSections d) :
    s.data = if s.Stored then some s.rawOffset.toNat else none := by
  have hin := h.stored s hs
  obtain ⟨i, -, hi⟩ := List.mem_map.1 hs
  obtain ⟨t, ht, hdata⟩ := sectionAt_rule d (sectionHeaders d ((d.u32 0x3C).toNat + 4)) i
  obtain rfl := ht.symm.trans hi
  refine hdata.trans (if_congr ⟨fun h => ⟨h.1, h.2.1⟩, fun h => ⟨h.1, h.2, ?_⟩⟩ rfl rfl)
  rw [BitVec.toNat_add]
  exact (Nat.mod_le _ _).trans (hin h).1

/-- The lookup in one section finds what its raw data holds. -/
theorem ptr_iff {s : Section} (hdata : s.data = if s.Stored then some s.rawOffset.toNat else none)
    (hend : s.Stored → s.virtualAddress.toNat + s.rawSize.toNat < 2 ^ 32) :
    s.ptr rva = some p ↔ s.Holds rva 1 p := by
  unfold Section.ptr
  rw [hdata]
  by_cases hst : s.Stored
  · have hr := rva.isLt
    have hsum : (s.virtualAddress + s.rawSize).toNat =
        s.virtualAddress.toNat + s.rawSize.toNat := by
      rw [BitVec.toNat_add, Nat.mod_eq_of_lt (hend hst)]
    simp only [if_pos hst, BitVec.le_def, BitVec.lt_def, hsum]
    constructor
    · intro h
      split at h
      case isFalse => cases h
      rename_i hin
      split at h
      case isFalse => cases h
      refine ⟨hst, hin.1, hin.2, ?_⟩
      rw [← Option.some.inj h, BitVec.toNat_sub_of_le (BitVec.le_def.2 hin.1)]
    · rintro ⟨-, hlo, hup, rfl⟩
      have hsub : (rva - s.virtualAddress).toNat = rva.toNat - s.virtualAddress.toNat :=
        BitVec.toNat_sub_of_le (BitVec.le_def.2 hlo)
      rw [if_pos ⟨hlo, hup⟩, hsub, if_pos (by omega)]
  · simp only [if_neg hst]
    refine iff_of_false ?_ fun h => hst h.stored
    split <;> exact nofun

/-- Where the data of a section is, no other one's is. -/
theorem Laid.unique (h : Laid size ss) (hp : Holds ss rva n p) (hq : Holds ss rva 1 q)
    (hn : 0 < n) : p = q := by
  obtain ⟨s, hs, hsp⟩ := hp
  obtain ⟨t, ht, htq⟩ := hq
  have hlow : rva.toNat + 1 ≤ s.virtualAddress.toNat + s.rawSize.toNat :=
    Nat.le_trans (Nat.add_le_add_left hn _) hsp.upper
  have hst : s = t := by
    by_contra hne
    have : Std.Symm fun s t : Section => s.Stored → t.Stored →
        s.virtualAddress.toNat + s.rawSize.toNat ≤ t.virtualAddress.toNat ∨
          t.virtualAddress.toNat + t.rawSize.toNat ≤ s.virtualAddress.toNat :=
      ⟨fun a b hab hb ha => (hab ha hb).symm⟩
    have hlo := hsp.lower
    have hlo' := htq.lower
    have hup' := htq.upper
    rcases h.apart.forall hs ht hne hsp.stored htq.stored with hap | hap <;> omega
  subst hst
  rw [hsp.place, htq.place]

theorem findSome?_unique {f : α → Option β} {l : List α} (hx : x ∈ l) (hy : f x = some y)
    (hall : ∀ z ∈ l, ∀ w, f z = some w → w = y) : l.findSome? f = some y := by
  cases hf : l.findSome? f with
  | none => exact absurd hy (by rw [List.findSome?_eq_none_iff.1 hf x hx]; exact nofun)
  | some w =>
    obtain ⟨z, hz, hw⟩ := List.exists_of_findSome?_eq_some hf
    rw [hall z hz w hw]

theorem Section.Holds.first {s : Section} (h : s.Holds rva n p) (hn : 0 < n) : s.Holds rva 1 p :=
  ⟨h.stored, h.lower, Nat.le_trans (Nat.add_le_add_left hn _) h.upper, h.place⟩

/-- What the lookup finds in the sections of a file. -/
theorem rvaToPtr_holds (h : Laid d.size (fileSections d)) (hn : 0 < n)
    (hp : Holds (fileSections d) rva n p) : rvaToPtr (fileSections d) rva = some p := by
  have hiff : ∀ s ∈ fileSections d, ∀ q, s.ptr rva = some q ↔ s.Holds rva 1 q :=
    fun s hs q => ptr_iff (h.data hs) fun hst => (h.stored s hs hst).2
  obtain ⟨s, hs, hsp⟩ := hp
  exact findSome?_unique hs ((hiff s hs p).2 (hsp.first hn)) fun t ht q hq =>
    h.unique ⟨t, ht, (hiff t ht q).1 hq⟩ ⟨s, hs, hsp.first hn⟩ Nat.one_pos

theorem rvaToPtr_nowhere (h : Laid d.size (fileSections d))
    (hp : ∀ p, ¬ Holds (fileSections d) rva 1 p) : rvaToPtr (fileSections d) rva = none := by
  refine List.findSome?_eq_none_iff.2 fun s hs => ?_
  cases hq : s.ptr rva with
  | none => rfl
  | some q =>
    exact absurd ⟨s, hs, (ptr_iff (h.data hs) fun hst => (h.stored s hs hst).2).1 hq⟩ (hp q)

/-- A range that is held is in the file. -/
theorem Laid.inside (h : Laid size ss) (hp : Holds ss rva n p) : p + n ≤ size := by
  obtain ⟨s, hs, hsp⟩ := hp
  have hin := (h.stored s hs hsp.stored).1
  have hlo := hsp.lower
  have hup := hsp.upper
  have hpl := hsp.place
  omega

-- ---------------------------------------------------------------------------
-- The walks
-- ---------------------------------------------------------------------------

theorem strncpy_text (h : TextAt d p s) (hin : p + s.length + 1 ≤ d.size) :
    strncpy d n p = some (s.take n) := by
  induction n generalizing p s with
  | zero => rw [strncpy, List.take_zero]
  | succ n ih =>
    have h8 : d.load8 p = some (d.u8 p) := by
      rw [Buffer.load8, load_some (by omega)]
      rfl
    rw [strncpy, h8, Option.bind_some]
    cases s with
    | nil => rw [show d.u8 p = 0 from h, if_pos rfl, List.take_nil]
    | cons c s =>
      obtain ⟨hc, rfl, hs⟩ := h
      rw [List.length_cons] at hin
      rw [if_neg hc, ih hs (by omega), Option.map_some, List.take_succ_cons]

theorem hintRva_of_lt (h : t < 2 ^ 31) : hintRva t = BitVec.ofNat 32 t := by
  have hmask : (0x7FFFFFFF : U32).toNat = 2 ^ 31 - 1 := rfl
  rw [hintRva, ← BitVec.toNat_inj, BitVec.toNat_and, BitVec.toNat_ofNat, hmask,
    Nat.and_two_pow_sub_one_eq_mod, Nat.mod_eq_of_lt (h.trans (by decide)), Nat.mod_eq_of_lt h]

theorem importFunc_is (hl : Laid d.size (fileSections d)) (hw : 4 ≤ w)
    (h : ThunkIs d (fileSections d) w t imp) :
    importFunc d (fileSections d) w t rva = some (imp.record rva) := by
  cases imp with
  | ordinal n =>
    obtain ⟨htop, rfl⟩ := h
    exact if_pos htop
  | named hint name =>
    obtain ⟨-, ht, p, hp, rfl, hname⟩ := h
    have hin := hl.inside hp
    have htop : byOrdinal w t = false :=
      Nat.testBit_lt_two_pow (Nat.lt_of_lt_of_le ht (Nat.pow_le_pow_right Nat.two_pos (by omega)))
    rw [importFunc, htop, hintRva_of_lt ht, rvaToPtr_holds hl (by omega) hp]
    rw [if_neg Bool.false_ne_true]
    dsimp only
    rw [load16_some (by omega), Option.bind_some, strncpy_text hname (by omega)]
    rfl

theorem ThunkIs.ne_zero (h : ThunkIs d ss w t imp) : t ≠ 0 := by
  cases imp with
  | ordinal n =>
    rintro rfl
    exact absurd h.1 (by simp)
  | named hint name => exact h.1

/-- The thunk loop from entry `num` on. -/
theorem parseThunks_is (hl : Laid d.size (fileSections d)) (hw : 4 ≤ w)
    (h : ThunksAt d (fileSections d) w (p + w * num) imports) (hleft : imports.length ≤ left)
    (hin : p + w * (num + imports.length + 1) ≤ d.size) :
    parseThunks d (fileSections d) w firstThunk p left num =
      some (records w firstThunk num imports) := by
  induction imports generalizing left num with
  | nil =>
    have hload : d.load (p + w * num) w = some 0 :=
      (load_some (by rw [List.length_nil, Nat.mul_succ] at hin; omega)).trans
        (congrArg some h)
    cases left <;> rw [parseThunks, hload] <;> rfl
  | cons imp imports ih =>
    obtain ⟨himp, hrest⟩ := h
    obtain ⟨left, rfl⟩ : ∃ l, left = l + 1 := ⟨left - 1, by rw [List.length_cons] at hleft; omega⟩
    have hend : w * (num + 1) ≤ w * (num + (imp :: imports).length + 1) :=
      Nat.mul_le_mul_left w (by omega)
    rw [parseThunks, load_some (by rw [Nat.mul_succ] at hend; omega), Option.bind_some,
      if_neg himp.ne_zero, importFunc_is hl hw himp, Option.bind_some, ih ?_ ?_ ?_, Option.map_some]
    · rfl
    · rw [Nat.mul_succ, ← Nat.add_assoc]
      exact hrest
    · exact Nat.le_of_succ_le_succ hleft
    · rw [List.length_cons] at hin
      rw [show num + 1 + imports.length + 1 = num + (imports.length + 1) + 1 by omega]
      exact hin

theorem parseDll_is (hl : Laid d.size (fileSections d)) (hw : 4 ≤ w)
    (h : DllAt d (fileSections d) w p dll) (hin : p + 20 ≤ d.size) :
    ∃ q, rvaToPtr (fileSections d) (d.u32 (p + 12)) = some q ∧
      parseDll d (fileSections d) w p q = some (dll.record w) := by
  obtain ⟨q, hq, hname⟩ := h.name
  refine ⟨q, rvaToPtr_holds hl (Nat.succ_pos _) hq, ?_⟩
  have hin' : q + (dll.name.length + 1) ≤ d.size := hl.inside hq
  rw [parseDll, strncpy_text hname (by omega), Option.bind_some, load32_some (by omega),
    Option.bind_some, load32_some (by omega), Option.bind_some, ← thunksRva, h.firstThunk,
    Dll.record]
  have hthunks := h.thunks
  cases hd : dll.thunks with
  | none =>
    rw [hd] at hthunks
    rw [rvaToPtr_nowhere hl hthunks]
    rfl
  | some imports =>
    rw [hd] at hthunks
    obtain ⟨hlen, r, hr, hat⟩ := hthunks
    have hpos : 0 < w * (imports.length + 1) := Nat.mul_pos (by omega) (Nat.succ_pos _)
    have hparse : parseThunks d (fileSections d) w dll.firstThunk r maxImportFuncs 0 =
        some (records w dll.firstThunk 0 imports) :=
      parseThunks_is hl hw hat hlen (by rw [Nat.zero_add]; exact hl.inside hr)
    rw [rvaToPtr_holds hl hpos hr]
    dsimp only
    rw [hparse]
    rfl

/-- The descriptor loop from descriptor `k` on, `num` of those before being recorded. -/
theorem parseDescriptors_is (hl : Laid d.size (fileSections d)) (hw : 4 ≤ w)
    (h : DllsAt d (fileSections d) w (p + 20 * k) dlls) (hnum : num + dlls.length ≤ maxImports)
    (hfuel : dlls.length < fuel) (hin : p + 20 * (k + dlls.length + 1) ≤ d.size) :
    parseDescriptors d (fileSections d) w p fuel k num =
      some (dlls.filterMap (Dll.record w)) := by
  induction dlls generalizing fuel k num with
  | nil =>
    obtain ⟨fuel, rfl⟩ : ∃ f, fuel = f + 1 := ⟨fuel - 1, by omega⟩
    have hname : d.u32 (p + 20 * k + 12) = 0 := h
    rw [List.length_nil] at hin
    rw [parseDescriptors, load32_some (by omega), Option.bind_some, hname, if_pos (.inl rfl)]
    rfl
  | cons dll dlls ih =>
    obtain ⟨hdll, hrest⟩ := h
    rw [List.length_cons] at hnum hfuel hin
    obtain ⟨fuel, rfl⟩ : ∃ f, fuel = f + 1 := ⟨fuel - 1, by omega⟩
    obtain ⟨q, hq, hparse⟩ := parseDll_is hl hw hdll (by omega)
    have hgo : ¬ (d.u32 (p + 20 * k + 12) = 0 ∨ maxImports ≤ num) := by
      rw [not_or]
      exact ⟨hdll.named, by omega⟩
    have hnext : ∀ n, n + dlls.length ≤ maxImports →
        parseDescriptors d (fileSections d) w p fuel (k + 1) n =
          some (dlls.filterMap (Dll.record w)) :=
      fun n hn => ih hrest hn (by omega) (by omega)
    rw [parseDescriptors, load32_some (by omega), Option.bind_some, if_neg hgo, hq]
    dsimp only
    rw [hparse, Option.bind_some, List.filterMap_cons]
    cases dll.record w with
    | none => exact hnext num (by omega)
    | some imp =>
      dsimp only
      rw [hnext (num + 1) (by omega), Option.map_some]

theorem parseImports_is (hl : Laid d.size (fileSections d)) (hw : 4 ≤ w)
    (h : Lists d (fileSections d) w dir dlls) :
    parseImports d (fileSections d) w dir = some (dlls.filterMap (Dll.record w)) := by
  unfold Lists at h
  unfold parseImports
  split
  · rename_i hdir
    rw [if_pos hdir] at h
    rw [h]
    rfl
  · rename_i hdir
    rw [if_neg hdir] at h
    obtain ⟨hlen, p, hp, hat⟩ := h
    have hin := hl.inside hp
    rw [rvaToPtr_holds hl (Nat.mul_pos (by decide) (Nat.succ_pos _)) hp]
    exact parseDescriptors_is hl hw hat (by omega) (by omega) (by rw [Nat.zero_add]; exact hin)

-- ---------------------------------------------------------------------------
-- The file
-- ---------------------------------------------------------------------------

theorem parseSections_is (h : ∀ j < n, headers + 40 * j + 40 ≤ d.size) :
    parseSections d headers n 0 = some (sectionTable d headers n) := by
  obtain ⟨ss, hss⟩ := Option.isSome_iff_exists.1
    (parseSections_isSome.2 fun j _ hj => h j (Nat.zero_add n ▸ hj))
  rw [hss, parseSections_some hss]
  rfl

theorem directory_is (h : ∀ j < num.toNat, directories + 8 * j + 8 ≤ d.size) (i : Nat) :
    directory d directories num i = some (directoryAt d directories num i) := by
  obtain ⟨dir, hdir⟩ := Option.isSome_iff_exists.1 (directory_isSome.2 (h i))
  rw [hdir, directory_some hdir]

theorem loadTables_is
    (hsec : ∀ j < min n maxSections, opt + soh.toNat + 40 * j + 40 ≤ d.size)
    (hdir : ∀ j < num.toNat, opt + l.size + 8 * j + 8 ≤ d.size)
    (himp : parseImports d (sectionTable d (opt + soh.toNat) (min n maxSections)) l.thunkWidth
      (directoryAt d (opt + l.size) num 1) = some imports) :
    ∃ rest, loadTables d l opt n soh num =
      some (sectionTable d (opt + soh.toNat) (min n maxSections), imports, rest) := by
  rw [loadTables, parseSections_is hsec, Option.bind_some, directory_is hdir, Option.bind_some,
    himp, Option.bind_some, directory_is hdir, Option.bind_some, directory_is hdir,
    Option.bind_some, directory_is hdir, Option.bind_some]
  exact ⟨_, rfl⟩

theorem loadImage_is (hl : l = optionalHeader64 ∨ l = optionalHeader32)
    (hin : coff + 20 + l.size ≤ d.size)
    (htables : ∃ rest, loadTables d l (coff + 20) n.toNat (d.u16 (coff + 16))
      (d.u32 (coff + 20 + l.numberOfRvaAndSizes)) = some (ss, imports, rest)) :
    ∃ img, loadImage d l coff m n = some img ∧ img.sections = ss ∧ img.imports = imports := by
  obtain ⟨⟨exports, reloc, tls⟩, htables⟩ := htables
  have hfields : coff + 20 + 16 + 4 ≤ coff + 20 + l.size ∧
      coff + 20 + l.imageBase + l.baseWidth ≤ coff + 20 + l.size ∧
      coff + 20 + 70 + 2 ≤ coff + 20 + l.size ∧
      coff + 20 + l.numberOfRvaAndSizes + 4 = coff + 20 + l.size := by
    rcases hl with rfl | rfl <;> simp [optionalHeader64, optionalHeader32]
  unfold loadImage
  dsimp only
  rw [load32_some (by omega), Option.bind_some, load_some (by omega), Option.bind_some,
    load32_some (by omega), Option.bind_some, load32_some (by omega), Option.bind_some,
    load16_some (by omega), Option.bind_some, load16_some (by omega), Option.bind_some,
    load32_some (by omega), Option.bind_some, load16_some (by omega), Option.bind_some, htables]
  exact ⟨_, rfl, rfl, rfl⟩

/-- A file with sound headers is loaded, with the sections it has and what `parseImports`
gives. -/
theorem loadMemory_is (h : WellFormedFile d l dlls)
    (himp : parseImports d (fileSections d) l.thunkWidth
      (directoryAt d (optHeader d + l.size) (numDirectories d l) 1) = some imports) :
    ∃ img, loadMemory true d = some (some img) ∧ img.sections = fileSections d ∧
      img.imports = imports := by
  have hdirs := h.directories
  have hsize := h.size
  have hopt : optHeader d = (d.u32 0x3C).toNat + 24 := rfl
  have hle : (d.u32 0x3C + 4).toNat ≤ (d.u32 0x3C).toNat + 4 := by
    rw [BitVec.toNat_add]
    exact Nat.mod_le _ _
  have hcount : min (d.u16 ((d.u32 0x3C).toNat + 6)).toNat maxSections =
      (d.u16 ((d.u32 0x3C).toNat + 6)).toNat := Nat.min_eq_left h.count
  have htable := h.table
  have hlayout := h.layout
  have hwidth : 96 ≤ l.size := by
    rcases optionalLayout_cases hlayout with rfl | rfl <;> decide
  have htables : ∃ rest, loadTables d l ((d.u32 0x3C).toNat + 4 + 20)
      (d.u16 ((d.u32 0x3C).toNat + 6)).toNat (d.u16 ((d.u32 0x3C).toNat + 20)) (numDirectories d l) =
      some (fileSections d, imports, rest) :=
    loadTables_is (fun j hj => by rw [hcount] at hj; omega) (fun j hj => by omega) himp
  obtain ⟨img, himg, hsections, himports⟩ := loadImage_is
    (m := d.u16 ((d.u32 0x3C).toNat + 4)) (optionalLayout_cases hlayout)
    (by omega) htables
  refine ⟨img, ?_, hsections, himports⟩
  rw [loadMemory, if_neg (by omega), load16_some (by omega), Option.bind_some,
    if_neg (not_not.2 h.magic), load32_some (by omega), Option.bind_some, if_neg (by omega),
    load32_some (by omega), Option.bind_some, if_neg (not_not.2 h.signature), loadCoff,
    load16_some (by omega), Option.bind_some, load16_some (by omega), Option.bind_some,
    if_neg (by decide), load16_some (by omega), Option.bind_some]
  rw [show optionalLayout (d.u16 ((d.u32 0x3C).toNat + 4 + 20)) = some l from hlayout]
  exact (congrArg (Option.map some) himg)

/-- The loader records what the directory lists, as its slots do. -/
theorem imports_law (d : Buffer) (l : OptionalLayout) (dlls : List Dll)
    (h : WellFormedFile d l dlls) :
    ∃ img table, loadMemory true d = some (some img) ∧
      img.imports = dlls.filterMap (Dll.record l.thunkWidth) ∧
      fillImports d img.sections l.thunkWidth
        (directoryAt d (optHeader d + l.size) (numDirectories d l) 1) = some table ∧
      table.read = img.imports := by
  have hw : 4 ≤ l.thunkWidth := by
    rcases optionalLayout_cases h.layout with rfl | rfl <;> decide
  have himp := parseImports_is h.laid hw h.imports
  obtain ⟨img, himg, hsections, himports⟩ := loadMemory_is h himp
  obtain ⟨table, htable, hread⟩ := Option.map_eq_some_iff.1 (fillImports_read.trans himp)
  exact ⟨img, table, himg, himports, hsections ▸ htable, hread.trans himports.symm⟩

/-- A PE32+ file with one section of 0x100 bytes at 0x1000. Its first descriptor has thunks in
no section; the second one an ordinal and a name. -/
def importFile : Buffer := .sparse 512 <| signed ++
  [(70, 1), (84, 128), (88, 0x0B), (89, 2), (196, 2), (209, 0x10), (212, 60),
    (229, 0x10), (233, 1), (237, 1),
    (268, 0x40), (269, 0x10), (273, 0x50),
    (288, 0x42), (289, 0x10), (292, 0x50), (293, 0x10),
    (320, 0x41), (322, 0x42),
    (336, 7), (343, 0x80), (344, 0x70), (345, 0x10),
    (368, 3), (370, 0x66)]

/-- What its directory lists. -/
def importDlls : List Dll :=
  [⟨[0x41], 0x5000, none⟩, ⟨[0x42], 0x1050, some [.ordinal 7, .named 3 [0x66]]⟩]

theorem importFile_sections : fileSections importFile = [onlySection 0x100 0x100] := by
  decide +kernel

theorem importFile_laid : Laid importFile.size (fileSections importFile) := by
  rw [importFile_sections]
  refine ⟨fun s hs _ => ?_, List.pairwise_singleton _ _⟩
  obtain rfl := List.mem_singleton.1 hs
  decide

theorem holds_only (hs : s.Stored) (hlo : s.virtualAddress.toNat ≤ rva.toNat)
    (hup : rva.toNat + n ≤ s.virtualAddress.toNat + s.rawSize.toNat) :
    Holds [s] rva n (s.rawOffset.toNat + (rva.toNat - s.virtualAddress.toNat)) :=
  ⟨s, List.mem_singleton_self s, hs, hlo, hup, rfl⟩

/-- Its first descriptor. -/
theorem importFile_first :
    DllAt importFile [onlySection 0x100 0x100] 8 256 ⟨[0x41], 0x5000, none⟩ where
  named := by decide +kernel
  name := ⟨320, holds_only (by decide) (by decide +kernel) (by decide +kernel),
    by decide, by decide +kernel, (by decide +kernel : importFile.u8 321 = 0)⟩
  firstThunk := by decide +kernel
  thunks p := by
    have hrva : thunksRva importFile 256 = 0x5000 := by decide +kernel
    rw [hrva]
    rintro ⟨s, hs, h⟩
    obtain rfl := List.mem_singleton.1 hs
    exact absurd h.upper (by decide)

/-- Its second one. -/
theorem importFile_second : DllAt importFile [onlySection 0x100 0x100] 8 276
    ⟨[0x42], 0x1050, some [.ordinal 7, .named 3 [0x66]]⟩ where
  named := by decide +kernel
  name := ⟨322, holds_only (by decide) (by decide +kernel) (by decide +kernel),
    by decide, by decide +kernel, (by decide +kernel : importFile.u8 323 = 0)⟩
  firstThunk := by decide +kernel
  thunks := by
    have hhint : ThunkIs importFile [onlySection 0x100 0x100] 8
        (get importFile.bytes ⟨344, 8⟩) (.named 3 [0x66]) :=
      ⟨by decide +kernel, by decide +kernel, 368,
        holds_only (by decide) (by decide +kernel) (by decide +kernel), by decide +kernel,
        by decide, by decide +kernel, (by decide +kernel : importFile.u8 371 = 0)⟩
    have hrva : thunksRva importFile 276 = 0x1050 := by decide +kernel
    rw [hrva]
    exact ⟨by decide, 336, holds_only (by decide) (by decide) (by decide),
      ⟨by decide +kernel, by decide +kernel⟩, hhint,
      (by decide +kernel : get importFile.bytes ⟨352, 8⟩ = 0)⟩

theorem importFile_wellFormed : WellFormedFile importFile optionalHeader64 importDlls where
  size := by decide
  magic := by decide +kernel
  signature := by decide +kernel
  layout := by decide +kernel
  directories := by decide +kernel
  count := by decide +kernel
  table := by decide +kernel
  laid := importFile_laid
  imports := by
    have hdir : directoryAt importFile (optHeader importFile + optionalHeader64.size)
        (numDirectories importFile optionalHeader64) 1 = ⟨0x1000, 60⟩ := by decide +kernel
    rw [hdir, importFile_sections, Lists, if_neg (by decide)]
    exact ⟨by decide, 256, holds_only (by decide) (by decide) (by decide), importFile_first,
      importFile_second, (by decide +kernel : importFile.u32 308 = 0)⟩

/-- The second descriptor takes the slot of the first, which has no thunks to be found. -/
theorem imports_law_skip : ∃ img table, loadMemory true importFile = some (some img) ∧
    img.imports = [⟨[0x42], [⟨ordinalName 7, 7, 0x1050⟩, ⟨[0x66], 3, 0x1058⟩]⟩] ∧
    fillImports importFile img.sections 8 ⟨0x1000, 60⟩ = some table ∧ table.read = img.imports := by
  have hdir : directoryAt importFile (optHeader importFile + optionalHeader64.size)
      (numDirectories importFile optionalHeader64) 1 = ⟨0x1000, 60⟩ := by decide +kernel
  obtain ⟨img, table, himg, himports, htable, hread⟩ :=
    imports_law importFile optionalHeader64 importDlls importFile_wellFormed
  exact ⟨img, table, himg, himports, hdir ▸ htable, hread⟩

end WineGlass.Pe
