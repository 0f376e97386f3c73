import WineGlass.Lib.Walk
import WineGlass.Pe.Image

/-!
# Dialogs among the resources

`pe_rva` and `pe_find_dialog`: the way through the three levels of the resource directory to the
template of a dialog. The walk has no end of the data in its hands, so that a read outside the
file is `none` here; what has to lie in the file for it to stay inside is `DirectoryIn`, and
`Found` is the template that it comes to.
-/

namespace WineGlass.Pe

open Walk

def peRva (img : Image) (rva : U32) : Option Nat :=
  (img.sections.find? fun s =>
    decide (s.virtualAddress ≤ rva ∧ rva < s.virtualAddress + s.rawSize)).map fun s =>
      s.rawOffset.toNat + (rva - s.virtualAddress).toNat

/-- `base + (off & 0x7fffffff)`. -/
def behind (base : Nat) (off : U32) : Nat := base + (off &&& 0x7FFFFFFF).toNat

def IsDirectory (off : U32) : Prop := off &&& 0x80000000 ≠ 0

instance (off : U32) : Decidable (IsDirectory off) := inferInstanceAs (Decidable (_ ≠ _))

/-- The first language of the entry with the offset `o1`, and its data. -/
def firstLanguage (img : Image) (base : Nat) (o1 : U32) : Option (Option Nat) :=
  (img.raw.load32 (behind base o1 + 16 + 4)).bind fun o2 =>
  (img.raw.load32 (behind base o2)).map fun dataRva => peRva img dataRva

/-- A turn of the loop over the names of a type. -/
def nameTurn (img : Image) (base : Nat) (dlgId : U32) (l1 j : Nat) :
    Option (Option (Option Nat)) :=
  (img.raw.load32 (l1 + 16 + j * 8)).bind fun id =>
  (img.raw.load32 (l1 + 16 + j * 8 + 4)).bind fun o1 =>
    if id &&& 0x7FFFFFFF = dlgId ∧ IsDirectory o1 then (firstLanguage img base o1).map some
    else some none

/-- `RT_DIALOG` -/
def rtDialog : U32 := 5

/-- A turn of the loop over the types. -/
def typeTurn (img : Image) (base : Nat) (dlgId : U32) (i : Nat) :
    Option (Option (Option Nat)) :=
  (img.raw.load32 (base + 16 + i * 8)).bind fun nameid =>
  (img.raw.load32 (base + 16 + i * 8 + 4)).bind fun off =>
    if nameid = rtDialog ∧ IsDirectory off then
      (img.raw.load16 (behind base off + 12)).bind fun a =>
      (img.raw.load16 (behind base off + 14)).bind fun b =>
      search (nameTurn img base dlgId (behind base off)) (a.toNat + b.toNat) 0
    else some none

/-- `pe_find_dialog`; the inner `none` is NULL. -/
def peFindDialog (img : Image) (dlgId : U32) : Option (Option Nat) :=
  (img.raw.load32 0x3C).bind fun lfanew =>
  (img.raw.load32 (lfanew.toNat + 24 + 112)).bind fun rsrcRva =>
    match peRva img rsrcRva with
    | none => some none
    | some base =>
      (img.raw.load16 (base + 12)).bind fun n =>
      (img.raw.load16 (base + 14)).bind fun i =>
      (search (typeTurn img base dlgId) (n.toNat + i.toNat) 0).map Option.join

-- ---------------------------------------------------------------------------
-- The directory
-- ---------------------------------------------------------------------------

section
variable (d : Buffer) (base : Nat) (dlgId : U32)

/-- How many entries the level at `p` has, and what they say. -/
def entries (p : Nat) : Nat := (d.u16 (p + 12)).toNat + (d.u16 (p + 14)).toNat
def entryId (p k : Nat) : U32 := d.u32 (p + 16 + k * 8)
def entryOff (p k : Nat) : U32 := d.u32 (p + 16 + k * 8 + 4)

/-- Entry `j` of the level at `p` has the dialog's id. -/
def Named (p j : Nat) : Prop := entryId d p j &&& 0x7FFFFFFF = dlgId ∧ IsDirectory (entryOff d p j)

/-- Entry `i` of the root has the names of the dialogs. -/
def Dialogs (i : Nat) : Prop := entryId d base i = rtDialog ∧ IsDirectory (entryOff d base i)

instance (p j : Nat) : Decidable (Named d dlgId p j) := inferInstanceAs (Decidable (_ ∧ _))
instance (i : Nat) : Decidable (Dialogs d base i) := inferInstanceAs (Decidable (_ ∧ _))

/-- Those names. -/
def names (i : Nat) : Nat := behind base (entryOff d base i)

/-- Entry `i` of the root has the dialog. -/
def Hit (i : Nat) : Prop :=
  Dialogs d base i ∧ ∃ j < entries d (names d base i), Named d dlgId (names d base i) j

/-- The data entry that name `j` of the level at `p` leads to. -/
def dataEntry (p j : Nat) : Nat := behind base (d.u32 (behind base (entryOff d p j) + 16 + 4))

/-- The data entry of a name and the way there. -/
def LanguageIn (p j : Nat) : Prop :=
  behind base (entryOff d p j) + 24 ≤ d.size ∧ dataEntry d base p j + 4 ≤ d.size

/-- The names at `p` up to the dialog's. -/
def NamesIn (p : Nat) : Prop :=
  Walks
    (fun j => j < entries d p → p + 16 + j * 8 + 8 ≤ d.size ∧
      (Named d dlgId p j → LanguageIn d base p j))
    (fun j => ¬ Named d dlgId p j) 0

/-- The types up to the one that has the dialog. -/
def TypesIn : Prop :=
  Walks
    (fun i => i < entries d base → base + 16 + i * 8 + 8 ≤ d.size ∧
      (Dialogs d base i → names d base i + 16 ≤ d.size ∧ NamesIn d base dlgId (names d base i)))
    (fun i => ¬ Hit d base dlgId i) 0

end

/-- `e_lfanew + 24 + 112`. -/
def resourceField (d : Buffer) : Nat := (d.u32 0x3C).toNat + 24 + 112

/-- What of the resource directory the search passes. -/
def DirectoryIn (img : Image) (dlgId : U32) : Prop :=
  64 ≤ img.raw.size ∧ resourceField img.raw + 4 ≤ img.raw.size ∧
    ∀ base, peRva img (img.raw.u32 (resourceField img.raw)) = some base →
      base + 16 ≤ img.raw.size ∧ TypesIn img.raw base dlgId

/-- The first name of the first type that has the dialog leads to the data at `t`. -/
def Found (img : Image) (dlgId : U32) (t : Nat) : Prop :=
  ∃ base, peRva img (img.raw.u32 (resourceField img.raw)) = some base ∧
    ∃ i < entries img.raw base, Hit img.raw base dlgId i ∧ (∀ i' < i, ¬ Hit img.raw base dlgId i') ∧
      ∃ j, Named img.raw dlgId (names img.raw base i) j ∧
        (∀ j' < j, ¬ Named img.raw dlgId (names img.raw base i) j') ∧
        peRva img (img.raw.u32 (dataEntry img.raw base (names img.raw base i) j)) = some t

-- ---------------------------------------------------------------------------
-- Reads
-- ---------------------------------------------------------------------------

section
variable {img : Image}

theorem firstLanguage_isSome :
    (firstLanguage img base (entryOff img.raw p j)).isSome ↔ LanguageIn img.raw base p j := by
  rw [firstLanguage, load32_bind, Option.isSome_map, Buffer.load32, Option.isSome_map]
  unfold LanguageIn dataEntry Buffer.load
  simp

theorem firstLanguage_some (h : firstLanguage img base (entryOff img.raw p j) = some r) :
    r = peRva img (img.raw.u32 (dataEntry img.raw base p j)) := by
  obtain ⟨o2, ho2, h⟩ := Option.bind_eq_some_iff.1 h
  obtain ⟨dataRva, hrva, rfl⟩ := Option.map_eq_some_iff.1 h
  rw [load32_eq hrva, load32_eq ho2, dataEntry]

theorem nameTurn_isSome : (nameTurn img base dlgId p j).isSome ↔
    p + 16 + j * 8 + 8 ≤ img.raw.size ∧
      (Named img.raw dlgId p j → LanguageIn img.raw base p j) := by
  rw [nameTurn, load32_bind, load32_bind, ← entryOff, ← entryId, ← and_assoc]
  refine and_congr (by omega) ?_
  split
  · rename_i hnamed
    replace hnamed : Named img.raw dlgId p j := hnamed
    rw [Option.isSome_map, firstLanguage_isSome, imp_iff_right hnamed]
  · rename_i hnamed
    exact iff_of_true rfl fun h => absurd h hnamed

theorem nameTurn_some (h : nameTurn img base dlgId p j = some r) :
    r = if Named img.raw dlgId p j then
      some (peRva img (img.raw.u32 (dataEntry img.raw base p j))) else none := by
  obtain ⟨id, hid, h⟩ := Option.bind_eq_some_iff.1 h
  obtain ⟨o1, ho1, h⟩ := Option.bind_eq_some_iff.1 h
  obtain rfl := load32_eq hid
  obtain rfl := load32_eq ho1
  change (if Named img.raw dlgId p j then _ else _) = some r at h
  split at h
  · rename_i hnamed
    obtain ⟨q, hq, rfl⟩ := Option.map_eq_some_iff.1 h
    rw [if_pos hnamed, firstLanguage_some hq]
  · rename_i hnamed
    rw [if_neg hnamed, Option.some.inj h]

theorem nameTurn_goes (h : nameTurn img base dlgId p j = some r) :
    r = none ↔ ¬ Named img.raw dlgId p j := by
  rw [nameTurn_some h]
  split
  · rename_i hnamed
    exact iff_of_false nofun (not_not_intro hnamed)
  · rename_i hnamed
    exact iff_of_true rfl hnamed

theorem names_isSome : (search (nameTurn img base dlgId p) (entries img.raw p) 0).isSome ↔
    NamesIn img.raw base dlgId p :=
  search_iff (fun _ => nameTurn_isSome) fun _ _ => nameTurn_goes

/-- What the names of a type come to. -/
theorem names_some (h : search (nameTurn img base dlgId p) (entries img.raw p) 0 = some r) :
    (r = none ∧ ∀ j < entries img.raw p, ¬ Named img.raw dlgId p j) ∨
      ∃ j < entries img.raw p, Named img.raw dlgId p j ∧
        (∀ j' < j, ¬ Named img.raw dlgId p j') ∧
        r = some (peRva img (img.raw.u32 (dataEntry img.raw base p j))) := by
  rcases search_some h with ⟨hr, hall⟩ | ⟨q, j, hr, -, hlt, hat, hall⟩
  · exact .inl ⟨hr, fun j hj => (nameTurn_goes (hall j (Nat.zero_le j) (by omega))).1 rfl⟩
  · have hturn := nameTurn_some hat
    split at hturn
    case isFalse => cases hturn
    rename_i hnamed
    exact .inr ⟨j, by omega, hnamed,
      fun j' hj' => (nameTurn_goes (hall j' (Nat.zero_le j') hj')).1 rfl, hr.trans hturn⟩

theorem typeTurn_isSome : (typeTurn img base dlgId i).isSome ↔
    base + 16 + i * 8 + 8 ≤ img.raw.size ∧
      (Dialogs img.raw base i → names img.raw base i + 16 ≤ img.raw.size ∧
        NamesIn img.raw base dlgId (names img.raw base i)) := by
  rw [typeTurn, load32_bind, load32_bind, ← entryOff, ← entryId, ← and_assoc]
  refine and_congr (by omega) ?_
  split
  · rename_i hdialogs
    replace hdialogs : Dialogs img.raw base i := hdialogs
    rw [load16_bind, load16_bind, ← names, ← entries, names_isSome, ← and_assoc,
      imp_iff_right hdialogs]
    exact and_congr_left fun _ => by omega
  · rename_i hdialogs
    exact iff_of_true rfl fun h => absurd h hdialogs

/-- What a turn over the types comes to. -/
theorem typeTurn_some (h : typeTurn img base dlgId i = some r) :
    (r = none ∧ ¬ Hit img.raw base dlgId i) ∨
      Hit img.raw base dlgId i ∧ ∃ j, Named img.raw dlgId (names img.raw base i) j ∧
        (∀ j' < j, ¬ Named img.raw dlgId (names img.raw base i) j') ∧
        r = some (peRva img (img.raw.u32 (dataEntry img.raw base (names img.raw base i) j))) := by
  obtain ⟨nameid, hid, h⟩ := Option.bind_eq_some_iff.1 h
  obtain ⟨off, hoff, h⟩ := Option.bind_eq_some_iff.1 h
  obtain rfl := load32_eq hid
  obtain rfl := load32_eq hoff
  change (if Dialogs img.raw base i then _ else _) = some r at h
  split at h
  case isFalse hno => exact .inl ⟨(Option.some.inj h).symm, fun hhit => hno hhit.1⟩
  rename_i hdialogs
  obtain ⟨a, ha, h⟩ := Option.bind_eq_some_iff.1 h
  obtain ⟨b, hb, h⟩ := Option.bind_eq_some_iff.1 h
  obtain rfl := load16_eq ha
  obtain rfl := load16_eq hb
  rcases names_some h with ⟨hr, hall⟩ | ⟨j, hlt, hnamed, hfirst, hr⟩
  · exact .inl ⟨hr, fun ⟨_, j, hj, hat⟩ => hall j hj hat⟩
  · exact .inr ⟨⟨hdialogs, j, hlt, hnamed⟩, j, hnamed, hfirst, hr⟩

theorem typeTurn_goes (h : typeTurn img base dlgId i = some r) :
    r = none ↔ ¬ Hit img.raw base dlgId i := by
  rcases typeTurn_some h with ⟨rfl, hno⟩ | ⟨hhit, j, -, -, rfl⟩
  · exact iff_of_true rfl hno
  · exact iff_of_false nofun fun hno => hno hhit

theorem types_isSome : (search (typeTurn img base dlgId) (entries img.raw base) 0).isSome ↔
    TypesIn img.raw base dlgId :=
  search_iff (fun _ => typeTurn_isSome) fun _ _ => typeTurn_goes

/-- The search for a dialog stays in the file when what it passes lies there. -/
theorem peFindDialog_isSome : (peFindDialog img dlgId).isSome ↔ DirectoryIn img dlgId := by
  rw [peFindDialog, load32_bind, load32_bind]
  unfold DirectoryIn
  refine and_congr (by omega) (and_congr Iff.rfl ?_)
  rw [← resourceField]
  cases hbase : peRva img (img.raw.u32 (resourceField img.raw)) with
  | none => simp
  | some base =>
    dsimp only
    rw [load16_bind, load16_bind, Option.isSome_map, ← entries, types_isSome, ← and_assoc]
    simp only [Option.some.injEq, forall_eq']
    exact and_congr_left fun _ => by omega

/-- What the search finds. -/
theorem peFindDialog_found (h : peFindDialog img dlgId = some r) : r = some t ↔ Found img dlgId t := by
  obtain ⟨lfanew, hl, h⟩ := Option.bind_eq_some_iff.1 h
  obtain ⟨rsrcRva, hr, h⟩ := Option.bind_eq_some_iff.1 h
  obtain rfl := load32_eq hl
  obtain rfl := load32_eq hr
  unfold Found
  rw [← resourceField] at h
  cases hbase : peRva img (img.raw.u32 (resourceField img.raw)) with
  | none =>
    rw [hbase] at h
    obtain rfl := Option.some.inj h
    simp
  | some base =>
    rw [hbase] at h
    dsimp only at h
    obtain ⟨n, hn, h⟩ := Option.bind_eq_some_iff.1 h
    obtain ⟨i, hi, h⟩ := Option.bind_eq_some_iff.1 h
    obtain rfl := load16_eq hn
    obtain rfl := load16_eq hi
    obtain ⟨q, hq, rfl⟩ := Option.map_eq_some_iff.1 h
    simp only [Option.some.injEq, exists_eq_left']
    rcases search_some hq with ⟨rfl, hall⟩ | ⟨p, i, rfl, -, hlt, hat, hall⟩
    · refine iff_of_false nofun ?_
      rintro ⟨i, hi, hhit, -⟩
      exact (typeTurn_goes (hall i (Nat.zero_le i) (by unfold entries at hi; omega))).1 rfl hhit
    · rcases typeTurn_some hat with ⟨hno, -⟩ | ⟨hhit, j, hnamed, hfirst, hp⟩
      · cases hno
      have hpast : ∀ i' < i, ¬ Hit img.raw base dlgId i' :=
        fun i' hi' => (typeTurn_goes (hall i' (Nat.zero_le i') hi')).1 rfl
      obtain rfl := Option.some.inj hp
      constructor
      · intro ht
        exact ⟨i, by unfold entries; omega, hhit, hpast, j, hnamed, hfirst, ht⟩
      · rintro ⟨i', -, hhit', hpast', j', hnamed', hfirst', ht⟩
        obtain rfl : i = i' := by
          by_contra hne
          rcases Nat.lt_or_gt_of_ne hne with hlt | hlt
          · exact hpast' i hlt hhit
          · exact hpast i' hlt hhit'
        obtain rfl : j = j' := by
          by_contra hne
          rcases Nat.lt_or_gt_of_ne hne with hlt | hlt
          · exact hfirst' j hlt hnamed
          · exact hfirst j' hlt hnamed'
        exact ht

end

end WineGlass.Pe
