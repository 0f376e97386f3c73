import Mathlib.Logic.Function.Basic
import WineGlass.Lib.CStrings
import WineGlass.Pe.Load

/-!
# The import table

`parse_imports` on the arrays it writes: the names are `char[256]` that `strncpy` and
`snprintf` write into, the functions and the DLLs are the slots of zeroed arrays, and a
descriptor that is skipped leaves its slot to the next one. What the slots in use hold is
what `parseImports` lists, for every file.
-/

namespace WineGlass.Pe

open CStrings (cstr)

/-- `char[256]`. -/
abbrev Chars := Nat → Byte

/-- The string of the array. -/
def Chars.read (a : Chars) : List Byte := cstr ((List.range 256).map a)

/-- `strncpy(a, s, 255)`: the characters, then zeros; the last byte stays. -/
def Chars.strncpy (a : Chars) (s : List Byte) : Chars :=
  fun i => if i < nameLimit then s.getD i 0 else a i

/-- `snprintf(a, 256, ..)`: the text as far as it fits, and the terminator. -/
def Chars.snprintf (a : Chars) (s : List Byte) : Chars :=
  fun i => if i ≤ (s.take nameLimit).length then (s.take nameLimit).getD i 0 else a i

/-- `WGPEImportFunc`. -/
structure FuncSlot where
  name : Chars
  ordinal : U16
  iatRva : U32

/-- `WGPEImportDll`. -/
structure DllSlot where
  dllName : Chars
  numFunctions : Nat
  functions : Nat → FuncSlot

structure ImportTable where
  numImports : Nat
  imports : Nat → DllSlot

/-- What `calloc` gives. -/
def FuncSlot.zero : FuncSlot := ⟨fun _ => 0, 0, 0⟩
def DllSlot.zero : DllSlot := ⟨fun _ => 0, 0, fun _ => .zero⟩
def ImportTable.zero : ImportTable := ⟨0, fun _ => .zero⟩

def FuncSlot.read (f : FuncSlot) : ImportFunc := ⟨f.name.read, f.ordinal, f.iatRva⟩

def DllSlot.read (s : DllSlot) : ImportDll :=
  ⟨s.dllName.read, (List.range s.numFunctions).map fun i => (s.functions i).read⟩

def ImportTable.read (t : ImportTable) : List ImportDll :=
  (List.range t.numImports).map fun k => (t.imports k).read

/-- `imp->functions[imp->num_functions++]` is what the turn left there. -/
def DllSlot.push (s : DllSlot) (f : FuncSlot) : DllSlot :=
  { s with
    functions := Function.update s.functions s.numFunctions f
    numFunctions := s.numFunctions + 1 }

/-- The current slot is what the turn left there, and in use when it is kept. -/
def ImportTable.put (t : ImportTable) (s : DllSlot) (kept : Bool) : ImportTable where
  numImports := if kept then t.numImports + 1 else t.numImports
  imports := Function.update t.imports t.numImports s

-- ---------------------------------------------------------------------------
-- The loops
-- ---------------------------------------------------------------------------

/-- The body of the thunk loop, for the slot `func`. -/
def fillFunc (d : Buffer) (ss : List Section) (w thunk : Nat) (iatRva : U32) (func : FuncSlot) :
    Option FuncSlot :=
  let func := { func with iatRva }
  if byOrdinal w thunk then
    let ordinal := BitVec.ofNat 16 thunk
    some { func with ordinal, name := func.name.snprintf (ordinalName ordinal) }
  else
    match rvaToPtr ss (hintRva thunk) with
    | none => some func
    | some hint =>
      (d.load16 hint).bind fun ordinal =>
      (strncpy d nameLimit (hint + 2)).map fun name =>
        { func with ordinal, name := func.name.strncpy name }

/-- The thunk loop, with room for `left` more functions. -/
def fillThunks (d : Buffer) (ss : List Section) (w : Nat) (iatRva : U32) (thunk : Nat) :
    (left : Nat) → DllSlot → Option DllSlot
  | 0, imp => (d.load (thunk + w * imp.numFunctions) w).map fun _ => imp
  | left + 1, imp =>
    (d.load (thunk + w * imp.numFunctions) w).bind fun t =>
      if t = 0 then some imp
      else
        (fillFunc d ss w t (iatRva + BitVec.ofNat 32 (imp.numFunctions * w))
          (imp.functions imp.numFunctions)).bind fun func =>
        fillThunks d ss w iatRva thunk left (imp.push func)

/-- The body of the descriptor loop, for the slot `imp`, and whether the slot is kept. -/
def fillDll (d : Buffer) (ss : List Section) (w desc dll : Nat) (imp : DllSlot) :
    Option (DllSlot × Bool) :=
  (strncpy d nameLimit dll).bind fun dllName =>
  let imp := { imp with dllName := imp.dllName.strncpy dllName, numFunctions := 0 }
  (d.load32 desc).bind fun originalFirstThunk =>
  (d.load32 (desc + 16)).bind fun firstThunk =>
    match rvaToPtr ss (if originalFirstThunk ≠ 0 then originalFirstThunk else firstThunk) with
    | none => some (imp, false)
    | some thunk =>
      (fillThunks d ss w firstThunk thunk maxImportFuncs imp).map fun imp => (imp, true)

/-- The descriptor loop at descriptor `k`. -/
def fillDescriptors (d : Buffer) (ss : List Section) (w desc : Nat) :
    (fuel k : Nat) → ImportTable → Option ImportTable
  | 0, _, _ => none
  | fuel + 1, k, t =>
    (d.load32 (desc + 20 * k + 12)).bind fun name =>
      if name = 0 ∨ maxImports ≤ t.numImports then some t
      else
        match rvaToPtr ss name with
        | none => some t
        | some dll =>
          (fillDll d ss w (desc + 20 * k) dll (t.imports t.numImports)).bind fun (imp, kept) =>
          fillDescriptors d ss w desc fuel (k + 1) (t.put imp kept)

def fillImports (d : Buffer) (ss : List Section) (w : Nat) (dir : Directory) :
    Option ImportTable :=
  if dir.rva = 0 ∨ dir.size = 0 then some .zero
  else
    match rvaToPtr ss dir.rva with
    | none => some .zero
    | some desc => fillDescriptors d ss w desc (d.size + 1) 0 .zero

-- ---------------------------------------------------------------------------
-- Names
-- ---------------------------------------------------------------------------

variable {d : Buffer} {ss : List Section}

/-- An array with the characters of `s` and a zero behind them reads as `s`. -/
theorem read_of {a : Chars} {s : List Byte} (hlen : s.length < 256) (hne : ∀ c ∈ s, c ≠ 0)
    (ha : ∀ i ≤ s.length, a i = s.getD i 0) : a.read = s := by
  have hsplit : (List.range 256).map a =
      s ++ 0 :: (List.range (255 - s.length)).map fun i => a (s.length + 1 + i) := by
    apply List.ext_getElem?
    intro i
    rcases Nat.lt_trichotomy i s.length with hi | rfl | hi
    · rw [List.getElem?_append_left hi, List.getElem?_map, List.getElem?_range (by omega),
        Option.map_some, ha i hi.le, List.getD_eq_getElem?_getD, List.getElem?_eq_getElem hi]
      rfl
    · rw [List.getElem?_append_right (Nat.le_refl _), Nat.sub_self, List.getElem?_map,
        List.getElem?_range hlen, Option.map_some, ha _ (Nat.le_refl _),
        List.getD_eq_getElem?_getD, List.getElem?_eq_none (Nat.le_refl _)]
      rfl
    · obtain ⟨j, rfl⟩ := Nat.exists_eq_add_of_lt hi
      rw [List.getElem?_append_right (by omega), show s.length + j + 1 - s.length = j + 1 by omega,
        List.getElem?_cons_succ, List.getElem?_map, List.getElem?_map]
      by_cases hj : j < 255 - s.length
      · rw [List.getElem?_range (by omega), List.getElem?_range hj, Option.map_some,
          Option.map_some, Nat.add_right_comm]
      · rw [List.getElem?_eq_none (by simp; omega), List.getElem?_eq_none (by simp; omega)]
        rfl
  rw [Chars.read, hsplit, cstr, List.takeWhile_append_of_pos (by simpa using hne)]
  simp

theorem read_strncpy {a : Chars} {s : List Byte} (hend : a nameLimit = 0)
    (hlen : s.length ≤ nameLimit) (hne : ∀ c ∈ s, c ≠ 0) : (a.strncpy s).read = s := by
  refine read_of (Nat.lt_succ_of_le hlen) hne fun i hi => ?_
  unfold Chars.strncpy
  split
  · rfl
  · obtain rfl : i = nameLimit := by omega
    rw [hend, List.getD_eq_getElem?_getD, List.getElem?_eq_none (by omega)]
    rfl

theorem read_snprintf {a : Chars} {s : List Byte} (hlen : s.length ≤ nameLimit)
    (hne : ∀ c ∈ s, c ≠ 0) : (a.snprintf s).read = s := by
  refine read_of (Nat.lt_succ_of_le hlen) hne fun i hi => ?_
  rw [Chars.snprintf, List.take_of_length_le hlen, if_pos hi]

theorem strncpy_spec (h : strncpy d n off = some s) : s.length ≤ n ∧ ∀ c ∈ s, c ≠ 0 := by
  induction n generalizing off s with
  | zero =>
    obtain rfl := Option.some.inj h
    exact ⟨Nat.le_refl _, fun c hc => absurd hc List.not_mem_nil⟩
  | succ n ih =>
    obtain ⟨c, -, h⟩ := Option.bind_eq_some_iff.1 h
    split at h
    · obtain rfl := Option.some.inj h
      exact ⟨Nat.zero_le _, fun c hc => absurd hc List.not_mem_nil⟩
    · rename_i hc
      obtain ⟨t, ht, rfl⟩ := Option.map_eq_some_iff.1 h
      obtain ⟨hlen, hne⟩ := ih ht
      refine ⟨Nat.succ_le_succ hlen, fun b hb => ?_⟩
      rcases List.mem_cons.1 hb with rfl | hb
      · exact hc
      · exact hne b hb

theorem ordinal_label : "Ordinal_".toList = ['O', 'r', 'd', 'i', 'n', 'a', 'l', '_'] := by simp

theorem digits_length (n : U16) : (Nat.toDigits 10 n.toNat).length ≤ 5 := by
  have hn := n.isLt
  rw [Nat.length_toDigits_le_iff (by decide) (by decide)]
  omega

theorem ordinalName_length (n : U16) :
    (ordinalName n).length = 8 + (Nat.toDigits 10 n.toNat).length := by
  unfold ordinalName
  rw [List.length_map, ordinal_label, List.length_append]
  rfl

/-- The name of an ordinal fits, and no character of it is zero. -/
theorem ordinalName_spec (n : U16) :
    (ordinalName n).length ≤ nameLimit ∧ ∀ c ∈ ordinalName n, c ≠ 0 := by
  refine ⟨?_, fun c hc => ?_⟩
  · have hdigits := digits_length n
    rw [ordinalName_length, nameLimit]
    omega
  · obtain ⟨k, hk, rfl⟩ := List.mem_map.1 hc
    rw [ordinal_label] at hk
    rcases List.mem_append.1 hk with hlabel | hk
    · have hall : (['O', 'r', 'd', 'i', 'n', 'a', 'l', '_'].all fun k =>
          BitVec.ofNat 8 k.toNat != 0) = true := by decide
      exact bne_iff_ne.1 (List.all_eq_true.1 hall k hlabel)
    · have hk : k.isDigit := Nat.isDigit_of_mem_toDigits (by decide) (by decide) hk
      simp only [Char.isDigit, Bool.and_eq_true, decide_eq_true_eq] at hk
      have h1 : 48 ≤ k.toNat := hk.1
      have h2 : k.toNat ≤ 57 := hk.2
      rw [ne_eq, ← BitVec.toNat_inj, BitVec.toNat_ofNat]
      simp
      omega

-- ---------------------------------------------------------------------------
-- What the slots hold
-- ---------------------------------------------------------------------------

/-- The state in which a slot is taken: nothing was stored in its functions, and its name
is terminated whatever it is. -/
structure DllSlot.Fresh (s : DllSlot) : Prop where
  name : s.dllName nameLimit = 0
  functions : ∀ i, s.functions i = .zero

def ImportTable.Fresh (t : ImportTable) : Prop := ∀ k, t.numImports ≤ k → (t.imports k).Fresh

theorem fillFunc_read :
    (fillFunc d ss w t rva .zero).map FuncSlot.read = importFunc d ss w t rva := by
  unfold fillFunc importFunc
  cases byOrdinal w t with
  | true =>
    obtain ⟨hlen, hne⟩ := ordinalName_spec (BitVec.ofNat 16 t)
    simp [FuncSlot.read, read_snprintf hlen hne]
  | false =>
    simp only [Bool.false_eq_true, if_false]
    cases rvaToPtr ss (hintRva t) with
    | none => rfl
    | some hint =>
      dsimp only
      cases d.load16 hint with
      | none => rfl
      | some ordinal =>
        rw [Option.bind_some, Option.bind_some]
        cases hname : strncpy d nameLimit (hint + 2) with
        | none => rfl
        | some name =>
          obtain ⟨hlen, hne⟩ := strncpy_spec hname
          have hread : (Chars.strncpy FuncSlot.zero.name name).read = name :=
            read_strncpy rfl hlen hne
          simp [FuncSlot.read, hread]

/-- One more function: what the slot reads to grows at the end. -/
theorem DllSlot.read_push (s : DllSlot) (f : FuncSlot) :
    (s.push f).read = { s.read with functions := s.read.functions ++ [f.read] } := by
  have hold : (List.range s.numFunctions).map
        (fun i => (Function.update s.functions s.numFunctions f i).read) =
      (List.range s.numFunctions).map fun i => (s.functions i).read := by
    refine List.map_congr_left fun i hi => ?_
    rw [Function.update_of_ne (Nat.ne_of_lt (List.mem_range.1 hi))]
  simp only [DllSlot.read, DllSlot.push, List.range_succ, List.map_append, List.map_singleton,
    Function.update_self, hold]

theorem fillThunks_read (imp : DllSlot) (h : ∀ i, imp.numFunctions ≤ i → imp.functions i = .zero) :
    (fillThunks d ss w rva thunk left imp).map DllSlot.read =
      (parseThunks d ss w rva thunk left imp.numFunctions).map fun fs =>
        { imp.read with functions := imp.read.functions ++ fs } := by
  induction left generalizing imp with
  | zero =>
    rw [fillThunks, parseThunks]
    cases d.load (thunk + w * imp.numFunctions) w with
    | none => rfl
    | some t => simp
  | succ left ih =>
    rw [fillThunks, parseThunks]
    cases d.load (thunk + w * imp.numFunctions) w with
    | none => rfl
    | some t =>
      rw [Option.bind_some, Option.bind_some]
      split
      · simp
      · rw [h _ (Nat.le_refl _), ← fillFunc_read, Option.map_bind, Option.bind_map, Option.map_bind]
        congr 1
        funext func
        have hzero : ∀ i, (imp.push func).numFunctions ≤ i → (imp.push func).functions i = .zero :=
          fun i hi => (Function.update_of_ne (Nat.ne_of_gt hi) _ _).trans (h i (Nat.le_of_succ_le hi))
        rw [Function.comp_apply, Function.comp_apply, ih _ hzero, DllSlot.read_push]
        simp [DllSlot.push, Function.comp_def]

theorem fillDll_read (imp : DllSlot) (h : imp.Fresh) :
    (fillDll d ss w desc dll imp).map (fun r => if r.2 then some r.1.read else none) =
      parseDll d ss w desc dll := by
  unfold fillDll parseDll
  rw [Option.map_bind]
  refine Option.bind_congr fun dllName hname => ?_
  obtain ⟨hlen, hne⟩ := strncpy_spec hname
  rw [Function.comp_apply, Option.map_bind]
  refine Option.bind_congr fun oft _ => ?_
  rw [Function.comp_apply, Option.map_bind]
  refine Option.bind_congr fun ft _ => ?_
  rw [Function.comp_apply]
  cases rvaToPtr ss (if oft ≠ 0 then oft else ft) with
  | none => rfl
  | some thunk =>
    have hfill : (fillThunks d ss w ft thunk maxImportFuncs
        { imp with dllName := imp.dllName.strncpy dllName, numFunctions := 0 }).map DllSlot.read =
        _ := fillThunks_read _ fun i _ => h.functions i
    replace hfill := congrArg (Option.map some) hfill
    rw [Option.map_map, Option.map_map] at hfill
    dsimp only
    rw [Option.map_map]
    refine hfill.trans ?_
    congr 1
    funext fs
    simp [DllSlot.read, read_strncpy h.name hlen hne]

/-- A slot that is not kept is as fresh as before. -/
theorem fillDll_skipped (h : imp.Fresh) (hfill : fillDll d ss w desc dll imp = some (imp', false)) :
    imp'.Fresh := by
  obtain ⟨dllName, -, hfill⟩ := Option.bind_eq_some_iff.1 hfill
  obtain ⟨oft, -, hfill⟩ := Option.bind_eq_some_iff.1 hfill
  obtain ⟨ft, -, hfill⟩ := Option.bind_eq_some_iff.1 hfill
  split at hfill
  · obtain rfl := (Prod.mk.inj (Option.some.inj hfill)).1
    have hname : imp.dllName.strncpy dllName nameLimit = imp.dllName nameLimit :=
      if_neg (Nat.lt_irrefl _)
    exact ⟨hname.trans h.name, h.functions⟩
  · obtain ⟨imp'', -, himp⟩ := Option.map_eq_some_iff.1 hfill
    cases (Prod.mk.inj himp).2

/-- A slot that is kept shows at the end, one that is not does not show. -/
theorem ImportTable.read_put (t : ImportTable) (s : DllSlot) (kept : Bool) :
    (t.put s kept).read = t.read ++ if kept then [s.read] else [] := by
  have hold : (List.range t.numImports).map
        (fun k => (Function.update t.imports t.numImports s k).read) =
      (List.range t.numImports).map fun k => (t.imports k).read := by
    refine List.map_congr_left fun k hk => ?_
    rw [Function.update_of_ne (Nat.ne_of_lt (List.mem_range.1 hk))]
  cases kept <;>
    simp only [ImportTable.read, ImportTable.put, Bool.false_eq_true, if_false, if_true,
      List.range_succ, List.map_append, List.map_singleton, Function.update_self, hold,
      List.append_nil]

/-- The slots behind those in use are fresh after a turn, too. -/
theorem ImportTable.Fresh.put (h : t.Fresh) (hs : kept = false → s.Fresh) :
    (ImportTable.put t s kept).Fresh := by
  intro k hk
  rcases eq_or_ne k t.numImports with rfl | hne
  · cases kept with
    | true => exact absurd hk (Nat.not_succ_le_self _)
    | false =>
      have himp : (t.put s false).imports t.numImports = s := Function.update_self _ _ _
      rw [himp]
      exact hs rfl
  · have himp : (t.put s kept).imports k = t.imports k := Function.update_of_ne hne _ _
    rw [himp]
    refine h k (Nat.le_trans ?_ hk)
    cases kept
    · exact Nat.le_refl _
    · exact Nat.le_succ _

theorem fillDescriptors_read (t : ImportTable) (h : t.Fresh) :
    (fillDescriptors d ss w desc fuel k t).map ImportTable.read =
      (parseDescriptors d ss w desc fuel k t.numImports).map fun imports => t.read ++ imports := by
  induction fuel generalizing k t with
  | zero => rfl
  | succ fuel ih =>
    rw [fillDescriptors, parseDescriptors]
    cases d.load32 (desc + 20 * k + 12) with
    | none => rfl
    | some name =>
      rw [Option.bind_some, Option.bind_some]
      split
      · simp
      · cases rvaToPtr ss name with
        | none => simp
        | some dll =>
          dsimp only
          have hslot := h t.numImports (Nat.le_refl _)
          rw [← fillDll_read _ hslot, Option.bind_map, Option.map_bind, Option.map_bind]
          refine Option.bind_congr fun r hr => ?_
          obtain ⟨imp, kept⟩ := r
          have hfresh : (t.put imp kept).Fresh := h.put fun hk => fillDll_skipped hslot (hk ▸ hr)
          refine (ih _ hfresh).trans ?_
          rw [ImportTable.read_put]
          cases kept <;> simp [ImportTable.put, Function.comp_def]

/-- The slots in use hold what `parseImports` lists. -/
theorem fillImports_read :
    (fillImports d ss w dir).map ImportTable.read = parseImports d ss w dir := by
  unfold fillImports parseImports
  split
  · rfl
  · cases rvaToPtr ss dir.rva with
    | none => rfl
    | some desc =>
      refine (fillDescriptors_read .zero fun _ _ => ⟨rfl, fun _ => rfl⟩).trans ?_
      rw [show (fun imports => ImportTable.zero.read ++ imports) = id from rfl, Option.map_id]
      rfl

end WineGlass.Pe
