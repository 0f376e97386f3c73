import Mathlib.Data.List.Nodup
import WineGlass.Lib.Units
import WineGlass.Pe.Dialogs

/-!
# Resources

`wg_find_resource`, which follows the resource directory in the memory of the guest, and the calls
that read the data entry it comes to. A directory is a tree whose tables tell what is in them apart
by numbers and names; `Placed` is where it lies in the bytes of a section, in whatever order. The
walk finds what is in the tree, and what `pe_find_dialog` finds of it in the file is the same.
-/

namespace WineGlass.Resources

open Fields Pe Units

-- ---------------------------------------------------------------------------
-- The walk
-- ---------------------------------------------------------------------------

/-- `".rsrc"` -/
def rsrcName : List Byte := [0x2E, 0x72, 0x73, 0x72, 0x63]

def rsrcRva (img : Image) : U32 :=
  ((img.sections.find? fun s => s.name.takeWhile (· ≠ 0) = rsrcName).map
    Section.virtualAddress).getD 0

/-- `if (a >= 'a' && a <= 'z') a -= 32`. -/
def upper (c : U16) : U16 := if 0x61 ≤ c ∧ c ≤ 0x7A then c - 32 else c

/-- `gname`, the guest's string; of a wide one all of the buffer is read. -/
def gname (m : Mem) (wide : Bool) (want : U32) (k : Nat) : U16 :=
  if 63 ≤ k then 0
  else if wide then unit 2 m want.toNat k
  else ((upto (unit 1 m want.toNat) 63)[k]?.getD 0).setWidth 16

/-- `rname`, of `ln` characters. -/
def rname (m : Mem) (nvo : U32) (ln k : Nat) : U16 :=
  if k < ln then unit 2 m (nvo + 2).toNat k else 0

def nameMatches (m : Mem) (wide : Bool) (want nvo : U32) : Bool :=
  let ln := min (unit 2 m nvo.toNat 0).toNat 63
  (List.range (ln + 1)).all fun k => upper (rname m nvo ln k) == upper (gname m wide want k)

/-- Whether an entry is the one that is wanted; of the languages the first one is. -/
def entryMatches (m : Mem) (wide : Bool) (base : U32) (want : Option U32) (ent0 : U32) : Bool :=
  match want with
  | none => true
  | some want =>
    if want ≤ 0xFFFF then decide (¬ IsDirectory ent0) && ent0 &&& 0xFFFF == want
    else decide (IsDirectory ent0) && nameMatches m wide want (base + (ent0 &&& 0x7FFFFFFF))

def total (m : Mem) (dir : U32) : Nat :=
  (unit 2 m (dir + 12).toNat 0).toNat + (unit 2 m (dir + 12).toNat 1).toNat

/-- `ent[k]` of entry `i`. -/
def ent (m : Mem) (dir : U32) (i k : Nat) : U32 :=
  unit 4 m (dir + 16 + BitVec.ofNat 32 i * 8).toNat k

/-- The levels from the table at `dir` on, one for each of `wants`. -/
def levels (m : Mem) (wide : Bool) (base : U32) : (wants : List (Option U32)) → (dir : U32) → U32
  | [], _ => 0
  | want :: wants, dir =>
    if total m dir = 0 ∨ 4096 < total m dir then 0
    else
      match (List.range (total m dir)).find? fun i =>
        entryMatches m wide base want (ent m dir i 0) with
      | none => 0
      | some i =>
        let found := ent m dir i 1
        if found = 0 then 0
        else if IsDirectory found then levels m wide base wants (base + (found &&& 0x7FFFFFFF))
        else base + found

/-- `wg_find_resource` -/
def findResource (m : Mem) (peImage : Option Image) (wide : Bool) (nameArg typeArg : U32) : U32 :=
  match peImage with
  | none => 0
  | some img =>
    if rsrcRva img = 0 then 0
    else
      let base := img.imageBase.setWidth 32 + rsrcRva img
      levels m wide base [some typeArg, some nameArg, none] base

def loadResource (m : Mem) (img : Image) (h : U32) : U32 :=
  let drva : U32 := if h = 0 then 0 else unit 4 m h.toNat 0
  if drva = 0 then 0 else img.imageBase.setWidth 32 + drva

def lockResource (h : U32) : U32 := h

def sizeofResource (m : Mem) (h : U32) : U32 := if h = 0 then 0 else unit 4 m (h + 4).toNat 0

-- ---------------------------------------------------------------------------
-- Trees of resources
-- ---------------------------------------------------------------------------

inductive Key where
  | id (n : U16)
  | name (s : List U16)
  deriving DecidableEq

inductive Tree where
  | data (rva size : U32)
  | table (es : List (Key × Tree))

inductive Query where
  | any
  | id (n : U16)
  | name (s : List U16)

/-- Names are told apart by their first 63 characters, of which the case does not count. -/
def Query.fits : Query → Key → Bool
  | .any, _ => true
  | .id n, .id k => n == k
  | .name s, .name t => s.map upper == (t.take 63).map upper
  | _, _ => false

/-- The data on the way that fits, a query for each level. -/
def Tree.find : List Query → Tree → Option (U32 × U32)
  | _, .data rva size => some (rva, size)
  | [], .table _ => none
  | q :: qs, .table es => (es.find? fun e => q.fits e.1).bind fun e => Tree.find qs e.2

theorem Tree.find_data (qs : List Query) : Tree.find qs (.data rva size) = some (rva, size) := by
  cases qs <;> rfl

/-- The string of the guest, as far as it is looked at. -/
def asked (m : Mem) (wide : Bool) (want : U32) : List U16 :=
  if wide then upto (unit 2 m want.toNat) 63
  else (upto (unit 1 m want.toNat) 63).map (BitVec.setWidth 16)

/-- `MAKEINTRESOURCE` or a string. -/
def query (m : Mem) (wide : Bool) (want : U32) : Query :=
  if want ≤ 0xFFFF then .id (want.setWidth 16) else .name (asked m wide want)

/-- How an entry says where `t` is. -/
def Tree.offset (p : Nat) : Tree → Nat
  | .data _ _ => p
  | .table _ => 2 ^ 31 + p

/-- The first half of the entry at `e` is the key, whose name is within the section. -/
def KeyAt (r : Nat → Byte) (n e : Nat) : Key → Prop
  | .id k => get r ⟨e, 4⟩ = k.toNat
  | .name s => ∃ q, get r ⟨e, 4⟩ = 2 ^ 31 + q ∧ q + 2 + 2 * s.length ≤ n ∧
      get r ⟨q, 2⟩ = s.length ∧ 0 ∉ s ∧ ∀ i c, s[i]? = some c → unit 2 r (q + 2) i = c

/-- The tree lies at `p` of the `n` bytes of a section. -/
inductive Placed (r : Nat → Byte) (n : Nat) : Nat → Tree → Prop
  | data (hin : p + 16 ≤ n) (hp : 0 < p) (hrva : get r ⟨p, 4⟩ = rva.toNat)
      (hsize : get r ⟨p + 4, 4⟩ = size.toNat) : Placed r n p (.data rva size)
  | table (place : Nat → Nat) (hin : p + 16 + 8 * es.length ≤ n) (hmax : es.length ≤ 4096)
      (hcount : get r ⟨p + 12, 2⟩ + get r ⟨p + 14, 2⟩ = es.length)
      (hkey : ∀ i e, es[i]? = some e → KeyAt r n (p + 16 + 8 * i) e.1)
      (hoff : ∀ i e, es[i]? = some e → get r ⟨p + 16 + 8 * i + 4, 4⟩ = e.2.offset (place i))
      (hsub : ∀ i e, es[i]? = some e → Placed r n (place i) e.2) : Placed r n p (.table es)

/-- The section is in memory from `base` on. -/
structure Mapped (m : Mem) (base : U32) (r : Nat → Byte) (n : Nat) : Prop where
  bound : n ≤ 2 ^ 31
  fits : base.toNat + n ≤ 2 ^ 32
  bytes : ∀ k < n, m (base.toNat + k) = r k

-- ---------------------------------------------------------------------------
-- Reads
-- ---------------------------------------------------------------------------

section
variable {m : Mem} {base : U32} {r : Nat → Byte} {n : Nat}

theorem Mapped.toNat (hm : Mapped m base r n) (hp : p < n) :
    (base + BitVec.ofNat 32 p).toNat = base.toNat + p := by
  have := hm.fits
  have := hm.bound
  rw [BitVec.toNat_add, BitVec.toNat_ofNat]
  omega

theorem Mapped.unit (hm : Mapped m base r n) (hp : p < n) (hin : p + k * i + k ≤ n) :
    unit k m (base + BitVec.ofNat 32 p).toNat i = unit k r p i := by
  rw [hm.toNat hp, Units.unit, Units.unit]
  congr 1
  refine Word.word_congr fun j hj => ?_
  dsimp only at hj ⊢
  rw [← hm.bytes (p + k * i + j) (by omega)]
  exact congrArg m (by omega)

theorem unit_zero (h : get r ⟨p, k⟩ < 2 ^ (8 * k)) : (unit k r p 0).toNat = get r ⟨p, k⟩ := by
  rw [Units.unit, BitVec.toNat_ofNat, Nat.mul_zero, Nat.add_zero, Nat.mod_eq_of_lt h]

theorem get_lt_pow : get r ⟨p, k⟩ < 2 ^ (8 * k) := by
  have h := get_lt (m := r) (f := ⟨p, k⟩)
  rwa [show (256 : Nat) = 2 ^ 8 from rfl, ← pow_mul] at h

/-- `base + a + b` for an offset that is made up of several. -/
theorem base_add (base : U32) (p k : Nat) :
    base + BitVec.ofNat 32 p + BitVec.ofNat 32 k = base + BitVec.ofNat 32 (p + k) := by
  rw [BitVec.add_assoc, BitVec.ofNat_add]

theorem total_placed (hm : Mapped m base r n) (hin : p + 16 ≤ n) :
    total m (base + BitVec.ofNat 32 p) = get r ⟨p + 12, 2⟩ + get r ⟨p + 14, 2⟩ := by
  have haddr : base + BitVec.ofNat 32 p + 12 = base + BitVec.ofNat 32 (p + 12) := base_add base p 12
  rw [total, haddr, hm.unit (by omega) (by omega), hm.unit (by omega) (by omega),
    unit_zero get_lt_pow]
  congr 1
  rw [Units.unit, BitVec.toNat_ofNat]
  exact Nat.mod_eq_of_lt get_lt_pow

theorem ent_placed (hm : Mapped m base r n) (hk : k ≤ 1) (hin : p + 16 + 8 * i + 8 ≤ n) :
    ent m (base + BitVec.ofNat 32 p) i k = BitVec.ofNat 32 (get r ⟨p + 16 + 8 * i + 4 * k, 4⟩) := by
  have haddr : base + BitVec.ofNat 32 p + 16 + BitVec.ofNat 32 i * 8 =
      base + BitVec.ofNat 32 (p + 16 + 8 * i) := by
    rw [← base_add, ← base_add, Nat.mul_comm, BitVec.ofNat_mul]
    rfl
  rw [ent, haddr, hm.unit (by omega) (by omega)]
  rfl

-- ---------------------------------------------------------------------------
-- The two halves of an offset
-- ---------------------------------------------------------------------------

theorem isDirectory_iff (hv : v < 2 ^ 32) : IsDirectory (BitVec.ofNat 32 v) ↔ 2 ^ 31 ≤ v := by
  have hmask : (0x80000000 : U32) = BitVec.twoPow 32 31 := rfl
  have hbit : (BitVec.ofNat 32 v).getLsbD 31 = decide (2 ^ 31 ≤ v) := by
    rw [← BitVec.msb_eq_getLsbD_last, BitVec.msb_eq_decide, BitVec.toNat_ofNat, Nat.mod_eq_of_lt hv]
  rw [IsDirectory, hmask, BitVec.and_twoPow, hbit]
  simp

/-- `& 0x7FFFFFFF`. -/
theorem low_bits (hv : v < 2 ^ 32) :
    (BitVec.ofNat 32 v : U32) &&& 0x7FFFFFFF = BitVec.ofNat 32 (v % 2 ^ 31) := by
  have hmask : (0x7FFFFFFF : U32).toNat = 2 ^ 31 - 1 := rfl
  rw [← BitVec.toNat_inj, BitVec.toNat_and, BitVec.toNat_ofNat, hmask,
    Nat.and_two_pow_sub_one_eq_mod, BitVec.toNat_ofNat, Nat.mod_eq_of_lt hv]
  omega

-- ---------------------------------------------------------------------------
-- Keys
-- ---------------------------------------------------------------------------

theorem upper_eq_zero {c : U16} : upper c = 0 ↔ c = 0 := by
  unfold upper
  split
  · rename_i h
    constructor <;> intro hc <;> bv_omega
  · exact Iff.rfl

theorem zero_notMem_upper {s : List U16} (h : 0 ∉ s) : 0 ∉ s.map upper := by
  intro hmem
  obtain ⟨c, hc, hzero⟩ := List.mem_map.1 hmem
  exact h (upper_eq_zero.1 hzero ▸ hc)

theorem str_upto {f : Nat → BitVec w} (h : f k = 0) : Str f (upto f k) := by
  induction k generalizing f with
  | zero => exact h
  | succ k ih =>
    rw [upto]
    split
    · assumption
    · rename_i hne
      exact ⟨hne, rfl, ih h⟩

theorem str_map {f : Nat → BitVec w} {g : BitVec w → BitVec v} (hg : ∀ c, g c = 0 ↔ c = 0)
    (h : Str f s) : Str (fun i => g (f i)) (s.map g) := by
  induction s generalizing f with
  | nil => exact (hg _).2 h
  | cons c s ih => exact ⟨fun hc => h.1 ((hg c).1 hc), congrArg g h.2.1, ih h.2.2⟩

/-- The buffer has the string that is asked for. -/
theorem str_gname : Str (gname m wide want) (asked m wide want) := by
  cases wide with
  | true =>
    have hsame : upto (gname m true want) 63 = upto (unit 2 m want.toNat) 63 :=
      upto_congr fun i hi _ => if_neg (Nat.not_le_of_lt hi)
    rw [asked, if_pos rfl, ← hsame]
    exact str_upto rfl
  | false =>
    -- The copy ends before the buffer does.
    let copy := upto (unit 1 m want.toNat) 63
    have hlen : copy.length ≤ 63 := upto_length_le
    have hcopy : Str (fun k => copy[k]?.getD 0) copy := by
      refine str_of_getElem? zero_notMem_upto fun i hi => ?_
      rcases Nat.lt_or_eq_of_le hi with hlt | rfl
      · rw [List.getElem?_append_left hlt]
        simp [hlt]
      · simp
    have hg : gname m false want = fun k => (copy[k]?.getD 0).setWidth 16 := by
      funext k
      unfold gname
      split
      · rename_i hk
        rw [List.getElem?_eq_none (hlen.trans hk)]
        rfl
      · rfl
    rw [hg]
    refine str_map (fun c => ?_) hcopy
    have hc := c.isLt
    rw [← BitVec.toNat_inj, ← BitVec.toNat_inj, BitVec.toNat_setWidth, Nat.mod_eq_of_lt (by omega)]
    rfl

theorem rname_getElem {s : List U16} (hm : Mapped m base r n) (hq : q + 2 + 2 * s.length ≤ n)
    (hat : ∀ i c, s[i]? = some c → unit 2 r (q + 2) i = c) (hk : k ≤ (s.take 63).length) :
    ((s.take 63).map upper ++ [0])[k]? =
      some (upper (rname m (base + BitVec.ofNat 32 q) (s.take 63).length k)) := by
  rcases Nat.lt_or_eq_of_le hk with hlt | rfl
  · have hlen : (s.take 63).length ≤ s.length := List.length_take_le' 63 s
    have hs : s[k]? = some (s.take 63)[k] := by
      rw [← List.getElem?_eq_getElem, List.getElem?_take_of_lt]
      exact Nat.lt_of_lt_of_le hlt (List.length_take_le 63 s)
    have haddr : base + BitVec.ofNat 32 q + 2 = base + BitVec.ofNat 32 (q + 2) := base_add base q 2
    have hread : rname m (base + BitVec.ofNat 32 q) (s.take 63).length k = (s.take 63)[k] := by
      rw [rname, if_pos hlt, haddr, hm.unit (by omega) (by omega)]
      exact hat k _ hs
    rw [hread, List.getElem?_append_left (by rwa [List.length_map]), List.getElem?_map,
      List.getElem?_eq_getElem hlt, Option.map_some]
  · rw [rname, if_neg (Nat.lt_irrefl _), List.getElem?_append_right (by simp)]
    simp [upper]

theorem nameMatches_eq {s : List U16} (hm : Mapped m base r n) (hq : q + 2 + 2 * s.length ≤ n)
    (hlen : get r ⟨q, 2⟩ = s.length) (hs : 0 ∉ s)
    (hat : ∀ i c, s[i]? = some c → unit 2 r (q + 2) i = c) :
    nameMatches m wide want (base + BitVec.ofNat 32 q) =
      ((asked m wide want).map upper == (s.take 63).map upper) := by
  have hln : min (unit 2 m (base + BitVec.ofNat 32 q).toNat 0).toNat 63 = (s.take 63).length := by
    rw [hm.unit (by omega) (by omega), unit_zero get_lt_pow, hlen, List.length_take, Nat.min_comm]
  have hasked : Str (fun k => upper (gname m wide want k)) ((asked m wide want).map upper) :=
    str_map (fun _ => upper_eq_zero) str_gname
  have hnz : 0 ∉ (s.take 63).map upper :=
    zero_notMem_upper fun hmem => hs (List.mem_of_mem_take hmem)
  rw [Bool.eq_iff_iff, nameMatches, hln, List.all_eq_true, beq_iff_eq]
  simp only [List.mem_range, Nat.lt_succ_iff, beq_iff_eq]
  constructor
  · intro hall
    refine Str.unique hasked (str_of_getElem? hnz fun i hi => ?_)
    rw [List.length_map] at hi
    rw [rname_getElem hm hq hat hi, hall i hi]
  · intro heq k hk
    have hget := hasked.getElem? (i := k) (by rw [heq, List.length_map]; exact hk)
    rw [heq, rname_getElem hm hq hat hk] at hget
    exact Option.some.inj hget

theorem id_eq_iff {k : U16} (hw : want ≤ 0xFFFF) :
    (BitVec.ofNat 32 k.toNat : U32) &&& 0xFFFF = want ↔ want.setWidth 16 = k := by
  have hk := k.isLt
  have hw : want.toNat ≤ 0xFFFF := hw
  have hmask : (0xFFFF : U32).toNat = 2 ^ 16 - 1 := rfl
  rw [← BitVec.toNat_inj, ← BitVec.toNat_inj, BitVec.toNat_and, hmask,
    Nat.and_two_pow_sub_one_eq_mod, BitVec.toNat_ofNat, BitVec.toNat_setWidth]
  omega

/-- The test of an entry is that of its key. -/
theorem entryMatches_key (hm : Mapped m base r n) (hk : KeyAt r n e k) :
    entryMatches m wide base (some want) (BitVec.ofNat 32 (get r ⟨e, 4⟩)) =
      (query m wide want).fits k := by
  have hbound := hm.bound
  cases k with
  | id k =>
    replace hk : get r ⟨e, 4⟩ = k.toNat := hk
    have hdir : ¬ IsDirectory (BitVec.ofNat 32 k.toNat) := by
      rw [isDirectory_iff (by omega)]
      omega
    rw [hk, entryMatches, query, decide_eq_false hdir, decide_eq_true hdir]
    split
    · rename_i hw
      rw [Bool.true_and, Bool.eq_iff_iff, beq_iff_eq, id_eq_iff hw, Query.fits, beq_iff_eq]
    · rfl
  | name s =>
    obtain ⟨q, hword, hq, hlen, hs, hat⟩ := hk
    have hdir : IsDirectory (BitVec.ofNat 32 (2 ^ 31 + q)) := by
      rw [isDirectory_iff (by omega)]
      omega
    have hlow : (2 ^ 31 + q) % 2 ^ 31 = q := by omega
    rw [hword, entryMatches, query, decide_eq_true hdir, decide_eq_false (not_not_intro hdir)]
    split
    · rfl
    · rw [low_bits (by omega), hlow, nameMatches_eq hm hq hlen hs hat, Bool.true_and, Query.fits]

-- ---------------------------------------------------------------------------
-- Levels
-- ---------------------------------------------------------------------------

/-- A search by index is one of the elements. -/
theorem find?_range {es : List α} {f : Nat → Bool} {g : α → Bool}
    (h : ∀ i e, es[i]? = some e → f i = g e) :
    es.find? g = ((List.range es.length).find? f).bind fun i => es[i]? := by
  cases hfind : (List.range es.length).find? f with
  | none =>
    rw [Option.bind_none, List.find?_eq_none]
    intro e he
    obtain ⟨i, hi, rfl⟩ := List.getElem_of_mem he
    rw [← h i _ (List.getElem?_eq_getElem hi)]
    exact List.find?_eq_none.1 hfind i (List.mem_range.2 hi)
  | some i =>
    obtain ⟨hf, hi, hbefore⟩ := List.find?_range_eq_some.1 hfind
    have hi := List.mem_range.1 hi
    rw [Option.bind_some, List.getElem?_eq_getElem hi, List.find?_eq_some_iff_getElem]
    refine ⟨h i _ (List.getElem?_eq_getElem hi) ▸ hf, i, hi, rfl, fun j hj => ?_⟩
    rw [← h j _ (List.getElem?_eq_getElem (hj.trans hi))]
    exact hbefore j hj

/-- The query of a level; the third one takes the first language. -/
def queryOf (m : Mem) (wide : Bool) (want : Option U32) : Query := want.elim .any (query m wide)

/-- An address that stands for what was found. -/
def Stands (r : Nat → Byte) (n : Nat) (base a : U32) : Option (U32 × U32) → Prop
  | none => a = 0
  | some d => ∃ q, Placed r n q (.data d.1 d.2) ∧ a = base + BitVec.ofNat 32 q

theorem levels_placed (wide : Bool) (wants : List (Option U32)) (hm : Mapped m base r n)
    (ht : Placed r n p (.table es)) :
    Stands r n base (levels m wide base wants (base + BitVec.ofNat 32 p))
      (Tree.find (wants.map (queryOf m wide)) (.table es)) := by
  induction wants generalizing p es with
  | nil => exact rfl
  | cons want wants ih =>
    cases ht with
    | table place hin hmax hcount hkey hoff hsub =>
    have hfits : ∀ i e, es[i]? = some e →
        entryMatches m wide base want (ent m (base + BitVec.ofNat 32 p) i 0) =
          (queryOf m wide want).fits e.1 := by
      intro i e he
      have hi : i < es.length := (List.getElem?_eq_some_iff.1 he).1
      rw [ent_placed hm (Nat.zero_le 1) (by omega)]
      cases want with
      | none => rfl
      | some want => exact entryMatches_key hm (hkey i e he)
    rw [levels, total_placed hm (by omega), hcount, List.map_cons, Tree.find, find?_range hfits]
    split
    · rename_i hno
      have hnil : es = [] := List.length_eq_zero_iff.1 (hno.resolve_right (by omega))
      subst hnil
      exact rfl
    cases hfind : (List.range es.length).find? fun i =>
      entryMatches m wide base want (ent m (base + BitVec.ofNat 32 p) i 0) with
    | none => exact rfl
    | some i =>
      have hi : i < es.length := List.mem_range.1 (List.mem_of_find?_eq_some hfind)
      have he := List.getElem?_eq_getElem hi
      have hbound := hm.bound
      dsimp only
      rw [Option.bind_some, he, Option.bind_some, ent_placed hm (Nat.le_refl 1) (by omega),
        Nat.mul_one, hoff i _ he]
      have hplaced := hsub i _ he
      generalize es[i].2 = t at hplaced
      cases t with
      | data rva size =>
        have hdata := hplaced
        cases hplaced with
        | data hin hp hrva hsize =>
        have hne : (BitVec.ofNat 32 (place i) : U32) ≠ 0 := by
          intro h0
          have := congrArg BitVec.toNat h0
          rw [BitVec.toNat_ofNat] at this
          change _ = 0 at this
          omega
        have hdir : ¬ IsDirectory (BitVec.ofNat 32 (place i)) := by
          rw [isDirectory_iff (by omega)]
          omega
        rw [Tree.offset, if_neg hne, if_neg hdir, Tree.find_data]
        exact ⟨place i, hdata, rfl⟩
      | table sub =>
        have hlow : (2 ^ 31 + place i) % 2 ^ 31 = place i := by
          cases hplaced
          omega
        have hdir : IsDirectory (BitVec.ofNat 32 (2 ^ 31 + place i)) := by
          cases hplaced
          rw [isDirectory_iff (by omega)]
          omega
        have hne : (BitVec.ofNat 32 (2 ^ 31 + place i) : U32) ≠ 0 := by
          rintro h0
          rw [h0] at hdir
          exact hdir rfl
        rw [Tree.offset, if_neg hne, if_pos hdir, low_bits (by cases hplaced; omega), hlow]
        exact ih hplaced

/-- What is read of a data entry. -/
theorem data_read (hm : Mapped m base r n) (hd : Placed r n q (.data rva size)) :
    base + BitVec.ofNat 32 q ≠ 0 ∧ unit 4 m (base + BitVec.ofNat 32 q).toNat 0 = rva ∧
      unit 4 m (base + BitVec.ofNat 32 q + 4).toNat 0 = size := by
  cases hd with
  | data hin hp hrva hsize =>
  have hfits := hm.fits
  have haddr : base + BitVec.ofNat 32 q + 4 = base + BitVec.ofNat 32 (q + 4) := base_add base q 4
  have hat := hm.toNat (p := q) (by omega)
  refine ⟨fun h0 => ?_, ?_, ?_⟩
  · rw [h0] at hat
    change 0 = _ at hat
    omega
  · rw [hm.unit (by omega) (by omega), ← BitVec.toNat_inj]
    exact (unit_zero get_lt_pow).trans hrva
  · rw [haddr, hm.unit (by omega) (by omega), ← BitVec.toNat_inj]
    exact (unit_zero get_lt_pow).trans hsize

end

-- ---------------------------------------------------------------------------
-- What the calls find
-- ---------------------------------------------------------------------------

/-- The address of the resource's directory. -/
def rsrcBase (img : Image) : U32 := img.imageBase.setWidth 32 + rsrcRva img

/-- What the guest gets of a resource by the handle `h`. -/
def Shown (m : Mem) (img : Image) (h : U32) : Option (U32 × U32) → Prop
  | none => h = 0
  | some (rva, size) => h ≠ 0 ∧ sizeofResource m h = size ∧
      lockResource (loadResource m img h) = if rva = 0 then 0 else img.imageBase.setWidth 32 + rva

theorem Stands.shown (img : Image) (hm : Mapped m base r n) (h : Stands r n base a d) :
    Shown m img a d := by
  cases d with
  | none => exact h
  | some d =>
    obtain ⟨q, hd, rfl⟩ := h
    obtain ⟨hne, hrva, hsize⟩ := data_read hm hd
    refine ⟨hne, ?_, ?_⟩
    · rw [sizeofResource, if_neg hne, hsize]
    · rw [lockResource, loadResource, if_neg hne, hrva]

theorem find_stands (wide : Bool) (nameArg typeArg : U32) (hrsrc : rsrcRva img ≠ 0)
    (hm : Mapped m (rsrcBase img) r n) (ht : Placed r n 0 (.table es)) :
    Stands r n (rsrcBase img) (findResource m (some img) wide nameArg typeArg)
      (Tree.find [query m wide typeArg, query m wide nameArg, .any] (.table es)) := by
  have h := levels_placed wide [some typeArg, some nameArg, none] hm ht
  rw [show rsrcBase img + BitVec.ofNat 32 0 = rsrcBase img from BitVec.add_zero _] at h
  rw [findResource, if_neg hrsrc]
  exact h

/-- The guest is shown the data that the tree has for the type and the name, in the first of its
languages, and nothing when there is none. -/
theorem resources_law (hrsrc : rsrcRva img ≠ 0) (hm : Mapped m (rsrcBase img) r n)
    (ht : Placed r n 0 (.table es)) :
    Shown m img (findResource m (some img) wide nameArg typeArg)
      (Tree.find [query m wide typeArg, query m wide nameArg, .any] (.table es)) :=
  (find_stands wide nameArg typeArg hrsrc hm ht).shown img hm

-- A section with a dialog and a resource that has a name, and an image with no other section.

def sampleBytes : List Byte :=
  [0, 0, 0, 0, 0, 0, 0, 0, 0, 0, 0, 0, 0, 0, 2, 0, 5, 0, 0, 0, 32, 0, 0, 0x80, 10, 0, 0, 0, 56,
    0, 0, 0x80, 0, 0, 0, 0, 0, 0, 0, 0, 0, 0, 0, 0, 0, 0, 1, 0, 101, 0, 0, 0, 80, 0, 0, 0x80, 0,
    0, 0, 0, 0, 0, 0, 0, 0, 0, 0, 0, 1, 0, 0, 0, 128, 0, 0, 0x80, 104, 0, 0, 0x80, 0, 0, 0, 0, 0,
    0, 0, 0, 0, 0, 0, 0, 0, 0, 1, 0, 9, 4, 0, 0, 136, 0, 0, 0, 0, 0, 0, 0, 0, 0, 0, 0, 0, 0, 0,
    0, 0, 0, 1, 0, 9, 4, 0, 0, 152, 0, 0, 0, 2, 0, 0x41, 0, 0x42, 0, 0, 0, 0xA8, 0x10, 0, 0, 4,
    0, 0, 0, 0, 0, 0, 0, 0, 0, 0, 0, 0xAC, 0x10, 0, 0, 2, 0, 0, 0, 0, 0, 0, 0, 0, 0, 0, 0, 1, 2,
    3, 4, 5, 6]

def sampleRead (k : Nat) : Byte := sampleBytes.getD k 0

def sampleTypes : List (Key × Tree) :=
  [(.id 5, .table [(.id 101, .table [(.id 1033, .data 0x10A8 4)])]),
    (.id 10, .table [(.name [0x41, 0x42], .table [(.id 1033, .data 0x10AC 2)])])]

def sampleImage : Image where
  imageBase := 0x400000
  entryPoint := 0
  sizeOfImage := 0
  sizeOfHeaders := 0
  subsystem := 0
  dllCharacteristics := 0
  machine := 0
  is64bit := false
  sections := [⟨rsrcName ++ [0, 0, 0], 174, 0x1000, 174, 140, 0, some 140⟩]
  imports := []
  exports := ⟨0, 0⟩
  reloc := ⟨0, 0⟩
  tls := ⟨0, 0⟩
  raw := ⟨fun a => if a < 140 then if a = 137 then 0x10 else 0 else sampleRead (a - 140), 314⟩

/-- The guest's memory, with the string `"ab"` in it. -/
def sampleMem : Mem := fun a =>
  if 0x401000 ≤ a then sampleRead (a - 0x401000)
  else if a = 0x20000 then 0x61 else if a = 0x20002 then 0x62 else 0

theorem forall_cons {P : Nat → α → Prop} (h : P 0 a)
    (hrest : ∀ (i : Nat) e, l[i]? = some e → P (i + 1) e) :
    ∀ (i : Nat) e, (a :: l)[i]? = some e → P i e
  | 0, _, rfl => h
  | i + 1, e, he => hrest i e he

theorem forall_one {P : Nat → α → Prop} (h : P 0 a) : ∀ (i : Nat) e, [a][i]? = some e → P i e :=
  forall_cons h nofun

theorem sample_data (p : Nat) (rva size : U32) (h : p + 16 ≤ 174 ∧ 0 < p ∧
    get sampleRead ⟨p, 4⟩ = rva.toNat ∧ get sampleRead ⟨p + 4, 4⟩ = size.toNat) :
    Placed sampleRead 174 p (.data rva size) := .data h.1 h.2.1 h.2.2.1 h.2.2.2

theorem sample_mapped : Mapped sampleMem (rsrcBase sampleImage) sampleRead 174 where
  bound := by decide
  fits := by decide +kernel
  bytes := by decide +kernel

theorem sample_placed : Placed sampleRead 174 0 (.table sampleTypes) := by
  have hdialog : Placed sampleRead 174 80 (.table [(.id 1033, .data 0x10A8 4)]) :=
    .table (fun _ => 136) (by decide) (by decide) (by decide +kernel)
      (forall_one (by change get _ _ = _; decide +kernel)) (forall_one (by decide +kernel))
      (forall_one (sample_data 136 _ _ (by decide +kernel)))
  have hnamed : Placed sampleRead 174 104 (.table [(.id 1033, .data 0x10AC 2)]) :=
    .table (fun _ => 152) (by decide) (by decide) (by decide +kernel)
      (forall_one (by change get _ _ = _; decide +kernel)) (forall_one (by decide +kernel))
      (forall_one (sample_data 152 _ _ (by decide +kernel)))
  have hdialogs : Placed sampleRead 174 32
      (.table [(.id 101, .table [(.id 1033, .data 0x10A8 4)])]) :=
    .table (fun _ => 80) (by decide) (by decide) (by decide +kernel)
      (forall_one (by change get _ _ = _; decide +kernel)) (forall_one (by decide +kernel))
      (forall_one hdialog)
  have hname : KeyAt sampleRead 174 72 (.name [0x41, 0x42]) :=
    ⟨128, by decide +kernel, by decide, by decide +kernel, by decide,
      forall_cons (by decide +kernel) (forall_one (by decide +kernel))⟩
  have hnames : Placed sampleRead 174 56
      (.table [(.name [0x41, 0x42], .table [(.id 1033, .data 0x10AC 2)])]) :=
    .table (fun _ => 104) (by decide) (by decide) (by decide +kernel) (forall_one hname)
      (forall_one (by decide +kernel)) (forall_one hnamed)
  exact .table (fun i => if i = 0 then 32 else 56) (by decide) (by decide) (by decide +kernel)
    (forall_cons (by change get _ _ = _; decide +kernel)
      (forall_one (by change get _ _ = _; decide +kernel)))
    (forall_cons (by decide +kernel) (forall_one (by decide +kernel)))
    (forall_cons hdialogs (forall_one hnames))

/-- `FindResourceW(NULL, L"ab", RT_RCDATA)` -/
theorem resources_law_named : rsrcRva sampleImage ≠ 0 ∧
    Mapped sampleMem (rsrcBase sampleImage) sampleRead 174 ∧
    Placed sampleRead 174 0 (.table sampleTypes) ∧
    Shown sampleMem sampleImage (findResource sampleMem (some sampleImage) true 0x20000 10)
      (some (0x10AC, 2)) := by
  have hrsrc : rsrcRva sampleImage ≠ 0 := by decide +kernel
  have hfind : Tree.find [query sampleMem true 10, query sampleMem true 0x20000, .any]
      (.table sampleTypes) = some (0x10AC, 2) := by decide +kernel
  exact ⟨hrsrc, sample_mapped, sample_placed,
    hfind ▸ resources_law hrsrc sample_mapped sample_placed⟩

-- ---------------------------------------------------------------------------
-- The dialogs in the file
-- ---------------------------------------------------------------------------

/-- The header's field says where the section is, and the section is at `fb` of the file. -/
structure InFile (img : Image) (fb : Nat) (r : Nat → Byte) (n : Nat) : Prop where
  header : 64 ≤ img.raw.size ∧ resourceField img.raw + 4 ≤ img.raw.size
  field : img.raw.u32 (resourceField img.raw) = rsrcRva img
  fits : (rsrcRva img).toNat + n ≤ 2 ^ 32
  own : ∀ k < n, peRva img (rsrcRva img + BitVec.ofNat 32 k) = some (fb + k)
  inside : fb + n ≤ img.raw.size
  bytes : ∀ k < n, img.raw.bytes (fb + k) = r k

/-- The data begin and end in the section. -/
def DataIn (img : Image) (n : Nat) (rva size : U32) : Prop :=
  ∃ p < n, rva = rsrcRva img + BitVec.ofNat 32 p ∧ p + size.toNat ≤ n

/-- A dialog has a number, and data in its first language. -/
def DialogIn (img : Image) (n : Nat) (e : Key × Tree) : Prop :=
  (∃ k, e.1 = .id k) ∧ ∃ key rva size langs,
    e.2 = .table ((key, .data rva size) :: langs) ∧ DataIn img n rva size

/-- No two types are the same, and the dialogs are a table of them. -/
structure Regular (img : Image) (n : Nat) (es : List (Key × Tree)) : Prop where
  types : (es.map Prod.fst).Nodup
  dialogs : ∀ t, (Key.id 5, t) ∈ es → ∃ sub, t = .table sub ∧ ∀ e ∈ sub, DialogIn img n e

section
variable {img : Image} {r : Nat → Byte}

theorem InFile.get (hf : InFile img fb r n) (hin : p + w ≤ n) :
    get img.raw.bytes ⟨fb + p, w⟩ = get r ⟨p, w⟩ := by
  refine Word.word_congr fun j hj => ?_
  dsimp only at hj ⊢
  rw [← hf.bytes (p + j) (by omega), Nat.add_assoc]

theorem InFile.entries (hf : InFile img fb r n) (hin : p + 16 ≤ n)
    (hcount : Fields.get r ⟨p + 12, 2⟩ + Fields.get r ⟨p + 14, 2⟩ = c) :
    Pe.entries img.raw (fb + p) = c := by
  rw [← hcount, Pe.entries, Buffer.u16, Buffer.u16, Nat.add_assoc, Nat.add_assoc,
    hf.get (by omega), hf.get (by omega), BitVec.toNat_ofNat, BitVec.toNat_ofNat,
    Nat.mod_eq_of_lt get_lt_pow, Nat.mod_eq_of_lt get_lt_pow]

theorem InFile.u32 (hf : InFile img fb r n) (hin : p + 4 ≤ n) :
    img.raw.u32 (fb + p) = BitVec.ofNat 32 (Fields.get r ⟨p, 4⟩) := by
  rw [Buffer.u32, hf.get hin]

theorem behind_table (hp : p < 2 ^ 31) : behind fb (BitVec.ofNat 32 (2 ^ 31 + p)) = fb + p := by
  rw [behind, low_bits (by omega), BitVec.toNat_ofNat]
  omega

theorem behind_data (fb : Nat) (hp : p < 2 ^ 31) : behind fb (BitVec.ofNat 32 p) = fb + p := by
  rw [behind, low_bits (by omega), BitVec.toNat_ofNat]
  omega

/-- A table as the file has it: its entries, what they are called and where they lead. -/
structure Listed (d : Buffer) (fb p : Nat) (r : Nat → Byte) (n : Nat) (es : List (Key × Tree))
    (place : Nat → Nat) : Prop where
  head : fb + p + 16 ≤ d.size
  count : Pe.entries d (fb + p) = es.length
  inside : ∀ i < es.length, fb + p + 16 + i * 8 + 8 ≤ d.size
  id : ∀ i k t, es[i]? = some (.id k, t) → entryId d (fb + p) i = k.setWidth 32
  name : ∀ i s t, es[i]? = some (.name s, t) → IsDirectory (entryId d (fb + p) i)
  off : ∀ i e, es[i]? = some e → entryOff d (fb + p) i = BitVec.ofNat 32 (e.2.offset (place i))
  sub : ∀ i e, es[i]? = some e → Placed r n (place i) e.2

theorem listed (hf : InFile img fb r n) (hn : n ≤ 2 ^ 31) (ht : Placed r n p (.table es)) :
    ∃ place, Listed img.raw fb p r n es place := by
  have hinside := hf.inside
  cases ht with
  | table place hin hmax hcount hkey hoff hsub =>
  have hbound : ∀ {i : Nat} {e : Key × Tree}, es[i]? = some e → i < es.length :=
    fun h => (List.getElem?_eq_some_iff.1 h).1
  have hid : ∀ {i : Nat} {e : Key × Tree}, es[i]? = some e →
      entryId img.raw (fb + p) i = BitVec.ofNat 32 (Fields.get r ⟨p + 16 + 8 * i, 4⟩) := by
    intro i e he
    have hi := hbound he
    have haddr : fb + p + 16 + i * 8 = fb + (p + 16 + 8 * i) := by omega
    rw [entryId, haddr, hf.u32 (by omega)]
  refine ⟨place, by omega, hf.entries (by omega) hcount, fun i hi => by omega, ?_, ?_, ?_, hsub⟩
  · intro i k t he
    have hk : Fields.get r ⟨p + 16 + 8 * i, 4⟩ = k.toNat := hkey i _ he
    rw [hid he, hk, BitVec.ofNat_toNat]
  · intro i s t he
    obtain ⟨q, hword, hq, -⟩ : KeyAt r n (p + 16 + 8 * i) (.name s) := hkey i _ he
    rw [hid he, hword, isDirectory_iff (by omega)]
    exact Nat.le_add_right _ _
  · intro i e he
    have hi := hbound he
    have haddr : fb + p + 16 + i * 8 + 4 = fb + (p + 16 + 8 * i + 4) := by omega
    rw [entryOff, haddr, hf.u32 (by omega), hoff i e he]

theorem Listed.directory (h : Listed d fb p r n es place) (hn : n ≤ 2 ^ 31)
    (he : es[i]? = some (k, .table ts)) :
    IsDirectory (entryOff d (fb + p) i) ∧ behind fb (entryOff d (fb + p) i) = fb + place i := by
  have hplaced := h.sub i _ he
  rw [h.off i _ he]
  cases hplaced with
  | table _ hin =>
  exact ⟨(isDirectory_iff (by rw [Tree.offset]; omega)).2 (Nat.le_add_right _ _),
    behind_table (by omega)⟩

/-- The entry of the dialogs is known by its number. -/
theorem dialogs_iff (h : Listed d fb 0 r n es place) (hn : n ≤ 2 ^ 31) (hr : Regular img n es)
    (he : es[i]? = some e) : Dialogs d fb i ↔ e.1 = .id 5 := by
  obtain ⟨k, t⟩ := e
  constructor
  · rintro ⟨hid, -⟩
    cases k with
    | id k =>
      have hk := (h.id i k t he).symm.trans hid
      rw [← BitVec.toNat_inj, BitVec.toNat_setWidth] at hk
      have hlt := k.isLt
      refine congrArg Key.id (BitVec.toNat_inj.1 ?_)
      change k.toNat % 2 ^ 32 = 5 at hk
      change k.toNat = 5
      omega
    | name s =>
      have hdir := h.name i s t he
      rw [Nat.add_zero, hid] at hdir
      exact absurd rfl hdir
  · rintro rfl
    obtain ⟨sub, rfl, -⟩ := hr.dialogs t (List.mem_of_getElem? he)
    exact ⟨h.id i 5 _ he, (h.directory hn he).1⟩

/-- So is a dialog's. -/
theorem named_iff {dlg : U16} (h : Listed d fb p r n es place) (hn : n ≤ 2 ^ 31)
    (he : es[i]? = some e) (hd : DialogIn img n e) :
    Named d (dlg.setWidth 32) (fb + p) i ↔ e.1 = .id dlg := by
  obtain ⟨k, t⟩ := e
  obtain ⟨⟨k, rfl⟩, key, rva, size, langs, rfl, -⟩ := hd
  have hlt := k.isLt
  have hlow : (k.setWidth 32) &&& 0x7FFFFFFF = k.setWidth 32 := by
    rw [← BitVec.ofNat_toNat, low_bits (by omega), Nat.mod_eq_of_lt (by omega)]
  rw [Named, h.id i k _ he, hlow, and_iff_left (h.directory hn he).1, Key.id.injEq]
  constructor
  · intro heq
    have hlt' := dlg.isLt
    rw [← BitVec.toNat_inj, BitVec.toNat_setWidth, BitVec.toNat_setWidth] at heq
    exact BitVec.toNat_inj.1 (by omega)
  · rintro rfl
    rfl

theorem fits_id {k : Key} : (Query.id c).fits k = true ↔ k = .id c := by
  cases k with
  | id k => rw [Query.fits, beq_iff_eq, Key.id.injEq, eq_comm]
  | name s => exact iff_of_false nofun nofun

/-- The way from a dialog to its data. -/
theorem language_file (hf : InFile img fb r n) (hn : n ≤ 2 ^ 31)
    (h : Listed img.raw fb p r n es place)
    (he : es[j]? = some (k, .table ((key, .data rva size) :: langs))) :
    LanguageIn img.raw fb (fb + p) j ∧ img.raw.u32 (dataEntry img.raw fb (fb + p) j) = rva := by
  obtain ⟨inner, hl⟩ := listed hf hn (h.sub j _ he)
  have hinside := hl.inside 0 (Nat.zero_lt_succ _)
  have hoff := hl.off 0 _ rfl
  have hdata := hl.sub 0 _ rfl
  have hfile := hf.inside
  cases hdata with
  | data hin hp hrva hsize =>
  have hentry : dataEntry img.raw fb (fb + p) j = fb + inner 0 := by
    rw [dataEntry, (h.directory hn he).2, ← behind_data fb (p := inner 0) (by omega)]
    exact congrArg (behind fb) hoff
  refine ⟨⟨?_, ?_⟩, ?_⟩
  · rw [(h.directory hn he).2]
    omega
  · rw [hentry]
    omega
  · rw [hentry, hf.u32 (by omega), hrva, BitVec.ofNat_toNat, BitVec.setWidth_eq]

theorem rootBase (hf : InFile img fb r n) (hn : 0 < n) :
    peRva img (img.raw.u32 (resourceField img.raw)) = some fb := by
  have h := hf.own 0 hn
  rwa [BitVec.add_zero, ← hf.field] at h

/-- The search stays in the file. -/
theorem directoryIn (dlg : U16) (hf : InFile img fb r n) (hn : n ≤ 2 ^ 31) (hr : Regular img n es)
    (ht : Placed r n 0 (.table es)) : DirectoryIn img (dlg.setWidth 32) := by
  obtain ⟨place, hl⟩ := listed hf hn ht
  have hpos : 0 < n := by
    cases ht
    omega
  refine ⟨hf.header.1, hf.header.2, fun base hbase => ?_⟩
  obtain rfl := Option.some.inj ((rootBase hf hpos).symm.trans hbase)
  have hhead := hl.head
  have hcount : Pe.entries img.raw fb = es.length := hl.count
  refine ⟨by omega, fun i _ _ hi => ⟨?_, fun hdialogs => ?_⟩⟩
  · rw [hcount] at hi
    exact hl.inside i hi
  rw [hcount] at hi
  have he := List.getElem?_eq_getElem hi
  have hkey : es[i].1 = .id 5 := (dialogs_iff hl hn hr he).1 hdialogs
  obtain ⟨sub, hsub, hin⟩ := hr.dialogs es[i].2 (by rw [← hkey]; exact List.getElem_mem hi)
  replace he : es[i]? = some (.id 5, .table sub) := by rw [he, ← hkey, ← hsub]
  obtain ⟨inner, hls⟩ := listed hf hn (hl.sub i _ he)
  have hnames : names img.raw fb i = fb + place i := (hl.directory hn he).2
  rw [hnames]
  refine ⟨hls.head, fun j _ _ hj => ⟨?_, fun hnamed => ?_⟩⟩
  · rw [hls.count] at hj
    exact hls.inside j hj
  rw [hls.count] at hj
  have he' := List.getElem?_eq_getElem hj
  obtain ⟨-, key, rva, size, langs, ht', -⟩ := hin _ (List.getElem_mem hj)
  exact (language_file (k := sub[j].1) hf hn hls (by rw [he', ← ht'])).1

/-- Two types at different places are different. -/
theorem Regular.unique {es : List (Key × Tree)} {i j : Nat} (hr : Regular img n es)
    (hi : es[i]? = some e) (hj : es[j]? = some e') (hk : e.1 = e'.1) : i = j := by
  obtain ⟨hi', rfl⟩ := List.getElem?_eq_some_iff.1 hi
  obtain ⟨hj', rfl⟩ := List.getElem?_eq_some_iff.1 hj
  refine (@List.Nodup.getElem_inj_iff _ _ hr.types i (by simpa) j (by simpa)).1 ?_
  simpa using hk

/-- The dialog `dlg` is at entry `j` of the dialogs, which are at entry `i`. -/
structure Way (img : Image) (n : Nat) (es : List (Key × Tree)) (dlg : U16) (i j : Nat)
    (sub : List (Key × Tree)) (rva size : U32) : Prop where
  dialogs : es[i]? = some (.id 5, .table sub)
  dialog : ∃ key langs, sub[j]? = some (.id dlg, .table ((key, .data rva size) :: langs))
  first : ∀ j' < j, ∀ e, sub[j']? = some e → e.1 ≠ .id dlg
  data : DataIn img n rva size

theorem ways {es : List (Key × Tree)} (hr : Regular img n es) (dlg : U16) :
    (Tree.find [.id 5, .id dlg, .any] (.table es) = none ∧
      ∀ (i : Nat) sub, es[i]? = some (.id 5, .table sub) → ∀ e ∈ sub, e.1 ≠ .id dlg) ∨
    ∃ i j sub rva size, Way img n es dlg i j sub rva size ∧
      Tree.find [.id 5, .id dlg, .any] (.table es) = some (rva, size) := by
  rw [Tree.find]
  cases htype : es.find? fun e => (Query.id 5).fits e.1 with
  | none =>
    refine .inl ⟨rfl, fun i sub he => ?_⟩
    exact absurd (fits_id.2 rfl) (List.find?_eq_none.1 htype _ (List.mem_of_getElem? he))
  | some e =>
    obtain ⟨hfits, i, hi, rfl, -⟩ := List.find?_eq_some_iff_getElem.1 htype
    have hkey : es[i].1 = .id 5 := fits_id.1 hfits
    obtain ⟨sub, hsub, hin⟩ := hr.dialogs es[i].2 (by rw [← hkey]; exact List.getElem_mem hi)
    have he : es[i]? = some (.id 5, .table sub) := by
      rw [List.getElem?_eq_getElem hi, ← hkey, ← hsub]
    rw [Option.bind_some, hsub, Tree.find]
    cases hname : sub.find? fun e => (Query.id dlg).fits e.1 with
    | none =>
      refine .inl ⟨rfl, fun i' sub' he' e hmem hk => ?_⟩
      obtain rfl := hr.unique he he' rfl
      obtain ⟨-, heq⟩ := Prod.mk.inj (Option.some.inj (he.symm.trans he'))
      obtain rfl := Tree.table.inj heq
      exact List.find?_eq_none.1 hname e hmem (fits_id.2 hk)
    | some e =>
      obtain ⟨hfits', j, hj, rfl, hbefore⟩ := List.find?_eq_some_iff_getElem.1 hname
      have hkey' : sub[j].1 = .id dlg := fits_id.1 hfits'
      obtain ⟨-, key, rva, size, langs, htable, hdata⟩ := hin _ (List.getElem_mem hj)
      refine .inr
        ⟨i, j, sub, rva, size, ⟨he, ⟨key, langs, ?_⟩, fun j' hj' e he' hk => ?_, hdata⟩, ?_⟩
      · rw [List.getElem?_eq_getElem hj, ← hkey', ← htable]
      · obtain ⟨hlt, rfl⟩ := List.getElem?_eq_some_iff.1 he'
        have hno := hbefore j' hj'
        rw [fits_id.2 hk] at hno
        cases hno
      · rw [Option.bind_some, htable]
        rfl

/-- What `pe_find_dialog` finds is what the tree has. -/
theorem found_iff (hf : InFile img fb r n) (hn : n ≤ 2 ^ 31) (hr : Regular img n es)
    (ht : Placed r n 0 (.table es)) : Found img (BitVec.setWidth 32 (dlg : U16)) t ↔
      ∃ rva size, Tree.find [.id 5, .id dlg, .any] (.table es) = some (rva, size) ∧
        peRva img rva = some t := by
  obtain ⟨place, hl⟩ := listed hf hn ht
  have hpos : 0 < n := by
    cases ht
    omega
  have hcount : Pe.entries img.raw fb = es.length := hl.count
  have htypes : ∀ {i : Nat} {sub : List (Key × Tree)}, es[i]? = some (.id 5, .table sub) →
      ∃ inner, names img.raw fb i = fb + place i ∧ Listed img.raw fb (place i) r n sub inner :=
    fun he => (listed hf hn (hl.sub _ _ he)).imp fun _ h => ⟨(hl.directory hn he).2, h⟩
  -- An entry that has dialogs is the entry for their type.
  have hdialogs : ∀ {i : Nat}, i < es.length → Dialogs img.raw fb i →
      ∃ sub, es[i]? = some (.id 5, .table sub) ∧ ∀ e ∈ sub, DialogIn img n e := by
    intro i hi hd
    have hkey : es[i].1 = .id 5 := (dialogs_iff hl hn hr (List.getElem?_eq_getElem hi)).1 hd
    obtain ⟨sub, hsub, hin⟩ := hr.dialogs es[i].2 (by rw [← hkey]; exact List.getElem_mem hi)
    exact ⟨sub, by rw [List.getElem?_eq_getElem hi, ← hkey, ← hsub], hin⟩
  rcases ways hr dlg with ⟨hnone, hno⟩ | ⟨i, j, sub, rva, size, hway, hsome⟩
  · refine iff_of_false ?_ fun ⟨rva, size, hfind, _⟩ => ?_
    · rintro ⟨base, hbase, i, hi, ⟨hd, j, hj, hnamed⟩, -⟩
      obtain rfl := Option.some.inj ((rootBase hf hpos).symm.trans hbase)
      obtain ⟨sub, he, hin⟩ := hdialogs (hcount ▸ hi) hd
      obtain ⟨inner, hnames, hls⟩ := htypes he
      rw [hnames] at hj hnamed
      rw [hls.count] at hj
      have hmem := List.getElem_mem hj
      exact hno i sub he _ hmem
        ((named_iff hls hn (List.getElem?_eq_getElem hj) (hin _ hmem)).1 hnamed)
    · rw [hnone] at hfind
      cases hfind
  · obtain ⟨he, ⟨key, langs, he'⟩, hfirst, -⟩ := hway
    obtain ⟨inner, hnames, hls⟩ := htypes he
    obtain ⟨-, hrva⟩ := language_file hf hn hls he'
    have hi : i < es.length := (List.getElem?_eq_some_iff.1 he).1
    have hj : j < sub.length := (List.getElem?_eq_some_iff.1 he').1
    obtain ⟨sub', hsub', hin⟩ :
        ∃ sub', .table sub = Tree.table sub' ∧ ∀ e ∈ sub', DialogIn img n e :=
      hr.dialogs _ (List.mem_of_getElem? he)
    obtain rfl := Tree.table.inj hsub'
    have hnamed : ∀ {j' : Nat} (hj' : j' < sub.length),
        Named img.raw (BitVec.setWidth 32 dlg) (names img.raw fb i) j' ↔ sub[j'].1 = .id dlg := by
      intro j' hj'
      rw [hnames]
      exact named_iff hls hn (List.getElem?_eq_getElem hj') (hin _ (List.getElem_mem hj'))
    have hat : Named img.raw (BitVec.setWidth 32 dlg) (names img.raw fb i) j := by
      rw [hnamed hj, (List.getElem?_eq_some_iff.1 he').2]
    have hbefore : ∀ j' < j, ¬ Named img.raw (BitVec.setWidth 32 dlg) (names img.raw fb i) j' :=
      fun j' hj' h => hfirst j' hj' _ (List.getElem?_eq_getElem (hj'.trans hj))
        ((hnamed (hj'.trans hj)).1 h)
    have hcount' : Pe.entries img.raw (names img.raw fb i) = sub.length := by rw [hnames, hls.count]
    constructor
    · rintro ⟨base, hbase, i', hi', ⟨hd, -⟩, -, j', hnamed', hfirst', htarget⟩
      obtain rfl := Option.some.inj ((rootBase hf hpos).symm.trans hbase)
      obtain ⟨sub', he'', -⟩ := hdialogs (hcount ▸ hi') hd
      obtain rfl := hr.unique he'' he rfl
      obtain rfl : j' = j := by
        rcases Nat.lt_trichotomy j' j with hlt | heq | hlt
        · exact absurd hnamed' (hbefore j' hlt)
        · exact heq
        · exact absurd hat (hfirst' j hlt)
      rw [hnames, hrva] at htarget
      exact ⟨rva, size, hsome, htarget⟩
    · rintro ⟨rva', size', hfind, htarget⟩
      obtain ⟨rfl, rfl⟩ := Prod.mk.inj (Option.some.inj (hsome.symm.trans hfind))
      refine ⟨fb, rootBase hf hpos, i, hcount ▸ hi, ⟨⟨?_, ?_⟩, j, hcount' ▸ hj, hat⟩,
        fun i' hi' hhit => ?_, j, hat, hbefore, ?_⟩
      · exact hl.id i 5 _ he
      · exact (hl.directory hn he).1
      · obtain ⟨sub', he'', -⟩ := hdialogs (hi'.trans hi) hhit.1
        exact absurd (hr.unique he'' he rfl) (Nat.ne_of_lt hi')
      · rw [hnames, hrva]
        exact htarget

theorem DataIn.reads (hrsrc : rsrcRva img ≠ 0) (hm : Mapped m (rsrcBase img) r n)
    (hf : InFile img fb r n) (h : DataIn img n rva size) :
    rva ≠ 0 ∧ ∃ f, peRva img rva = some f ∧ ∀ k < size.toNat,
      m ((img.imageBase.setWidth 32 + rva).toNat + k) = img.raw.bytes (f + k) := by
  obtain ⟨p, hp, rfl, hin⟩ := h
  have hfits := hf.fits
  have hpos : 0 < (rsrcRva img).toNat := Nat.pos_of_ne_zero fun h0 => hrsrc (BitVec.toNat_inj.1 h0)
  refine ⟨fun h0 => ?_, fb + p, hf.own p hp, fun k hk => ?_⟩
  · have hval := congrArg BitVec.toNat h0
    rw [BitVec.toNat_add, BitVec.toNat_ofNat] at hval
    change _ = 0 at hval
    omega
  · have haddr : (img.imageBase.setWidth 32 + (rsrcRva img + BitVec.ofNat 32 p)).toNat =
        (rsrcBase img).toNat + p := by rw [← BitVec.add_assoc, ← rsrcBase, hm.toNat hp]
    rw [haddr, Nat.add_assoc, Nat.add_assoc, hm.bytes _ (by omega), hf.bytes _ (by omega)]

/-- The two walks agree on the dialogs: each finds the one that the directory has, and the template
in the file is what the guest is shown. -/
theorem dialogs_law (wide : Bool) (dlg : U16) (hrsrc : rsrcRva img ≠ 0)
    (hm : Mapped m (rsrcBase img) r n) (hf : InFile img fb r n) (hr : Regular img n es)
    (ht : Placed r n 0 (.table es)) :
    ∃ found, peFindDialog img (dlg.setWidth 32) = some found ∧
      let h := findResource m (some img) wide (dlg.setWidth 32) rtDialog
      (found = none ↔ Tree.find [.id 5, .id dlg, .any] (.table es) = none) ∧
      (h = 0 ↔ found = none) ∧ ∀ f, found = some f → ∀ k < (sizeofResource m h).toNat,
        m ((lockResource (loadResource m img h)).toNat + k) = img.raw.bytes (f + k) := by
  obtain ⟨found, hfound⟩ := Option.isSome_iff_exists.1
    (peFindDialog_isSome.2 (directoryIn dlg hf hm.bound hr ht))
  have hq : query m wide (dlg.setWidth 32) = .id dlg := by
    have hle : dlg.setWidth 32 ≤ 0xFFFF := by bv_omega
    rw [query, if_pos hle, BitVec.setWidth_setWidth_of_le _ (by decide), BitVec.setWidth_eq]
  have hshown := (find_stands wide (dlg.setWidth 32) rtDialog hrsrc hm ht).shown img hm
  rw [hq] at hshown
  change Shown m img _ (Tree.find [.id 5, .id dlg, .any] (.table es)) at hshown
  refine ⟨found, hfound, ?_⟩
  have hiff : ∀ t, found = some t ↔ ∃ rva size,
      Tree.find [.id 5, .id dlg, .any] (.table es) = some (rva, size) ∧ peRva img rva = some t :=
    fun t => (peFindDialog_found hfound).trans (found_iff hf hm.bound hr ht)
  rcases ways hr dlg with ⟨hnone, -⟩ | ⟨i, j, sub, rva, size, hway, hsome⟩
  · rw [hnone] at hshown
    have hno : found = none := by
      cases found with
      | none => rfl
      | some t =>
        obtain ⟨rva, size, hfind, -⟩ := (hiff t).1 rfl
        rw [hnone] at hfind
        cases hfind
    subst hno
    exact ⟨iff_of_true rfl hnone, iff_of_true hshown rfl, nofun⟩
  · obtain ⟨hne, f, hf', hbytes⟩ := hway.data.reads hrsrc hm hf
    rw [hsome] at hshown
    obtain ⟨hh, hsize, hload⟩ := hshown
    obtain rfl : found = some f := (hiff f).2 ⟨rva, size, hsome, hf'⟩
    rw [if_neg hne] at hload
    refine ⟨iff_of_false nofun (by rw [hsome]; nofun), iff_of_false hh nofun, ?_⟩
    rintro _ ⟨⟩ k hk
    rw [hload]
    rw [hsize] at hk
    exact hbytes k hk

end

theorem dialogs_law_sample : rsrcRva sampleImage ≠ 0 ∧
    Mapped sampleMem (rsrcBase sampleImage) sampleRead 174 ∧ InFile sampleImage 140 sampleRead 174 ∧
    Regular sampleImage 174 sampleTypes ∧ Placed sampleRead 174 0 (.table sampleTypes) ∧
    ∃ found, peFindDialog sampleImage 101 = some found ∧ found ≠ none := by
  have hrsrc : rsrcRva sampleImage ≠ 0 := by decide +kernel
  have hfile : InFile sampleImage 140 sampleRead 174 :=
    ⟨by decide +kernel, by decide +kernel, by decide +kernel, by decide +kernel, by decide,
      by decide +kernel⟩
  have hregular : Regular sampleImage 174 sampleTypes := by
    refine ⟨by decide, fun t ht => ?_⟩
    obtain rfl : t = .table [(.id 101, .table [(.id 1033, .data 0x10A8 4)])] := by
      simpa [sampleTypes] using ht
    refine ⟨_, rfl, List.forall_mem_singleton.2 ⟨⟨101, rfl⟩, .id 1033, 0x10A8, 4, [], rfl, 168, ?_⟩⟩
    decide +kernel
  refine ⟨hrsrc, sample_mapped, hfile, hregular, sample_placed, ?_⟩
  obtain ⟨found, hfound, hiff, -⟩ := dialogs_law true 101 hrsrc sample_mapped hfile hregular
    sample_placed
  refine ⟨found, hfound, fun h => ?_⟩
  exact absurd (hiff.1 h) (by decide +kernel)

end WineGlass.Resources
