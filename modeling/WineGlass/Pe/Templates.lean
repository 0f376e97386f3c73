import WineGlass.Engine.Controls
import WineGlass.Lib.CStrings
import WineGlass.Pe.Dialogs
import WineGlass.Pe.LoadDll

/-!
# Dialog templates

`res_skip_sz` and `wg_parse_dialog`: a template is read item by item into the controls, from
pointers alone. What its parts have to be for the reads to end in the file is said as a grammar,
with the place each part ends at (`FieldEnds`, `ItemEnds`, `ItemsIn`). A call meets what is asked
of it just when the parts it comes to are there (`templates_law`).
-/

namespace WineGlass.Pe

open CStrings Controls Walk

-- ---------------------------------------------------------------------------
-- Reading
-- ---------------------------------------------------------------------------

/-- The loop of `res_skip_sz`: the units before the zero one, and where that ends. A file has
no more than `fuel` units when `fuel` is its size. -/
def skipUnits (d : Buffer) : (fuel p : Nat) → Option (List U16 × Nat)
  | 0, _ => none
  | fuel + 1, p => (d.load16 p).bind fun c =>
    if c = 0 then some ([], p + 2)
    else (skipUnits d fuel (p + 2)).map fun r => (c :: r.1, r.2)

/-- `res_skip_sz`: a string, or the number that stands for one, and what is behind it. -/
def resSkipSz (d : Buffer) (p : Nat) : Option (List U16 × Nat) :=
  (d.load16 p).bind fun v =>
    if v = 0xFFFF then some ([], p + 4) else skipUnits d d.size p

/-- `WG_CLS_PROGRESS` and `WG_CLS_LISTVIEW`. -/
def clsProgress : U16 := 0x0090
def clsListView : U16 := 0x0091

/-- The class of a name, of which 39 units are looked at. -/
def className (clsname : List U16) : U16 :=
  let ca := (clsname.take 39).map fun c =>
    if c < 128 then tolower (c.setWidth 8) else chr '?'
  if (strstr ca (str "progress")).isSome then clsProgress
  else if (strstr ca (str "listview")).isSome ∨ (strstr ca (str "syslistview")).isSome then
    clsListView
  else 0

def readClass (d : Buffer) (p : Nat) : Option (U16 × Nat) :=
  (d.load16 p).bind fun w0 =>
    if w0 = 0xFFFF then (d.load16 (p + 2)).map fun cls => (cls, p + 4)
    else (resSkipSz d p).map fun r => (className r.1, r.2)

/-- The next multiple of 4 behind the template's start. -/
def dwordAlign (t p : Nat) : Nat := t + (p - t + 3) / 4 * 4

/-- The body of the item loop. The height and the place below the top, which only the renderer
looks at, are read and left out. -/
def readItem (d : Buffer) (t p : Nat) : Option (Item × Nat) :=
  let p := dwordAlign t p
  (d.load32 (p + 8)).bind fun style =>
  (d.load16 (p + 12)).bind fun x =>
  (d.load (p + 14) 6).bind fun _ =>
  (d.load32 (p + 20)).bind fun id =>
  (readClass d (p + 24)).bind fun cls =>
  (resSkipSz d cls.2).bind fun title =>
  (d.load16 title.2).map fun extra =>
    (⟨id, style, x, cls.1, title.1.take 79⟩, title.2 + 2 + extra.toNat)

/-- The item loop with `left` to go. -/
def readItems (d : Buffer) (t : Nat) (hwnd : U32) : (left p : Nat) → Table → Option Table
  | 0, _, table => some table
  | left + 1, p, table =>
    if table.ctrls.length < 160 then
      (readItem d t p).bind fun r => readItems d t hwnd left r.2 (table.push (r.1.ctrl hwnd))
    else some table

/-- The menu, the class, the title and the font. -/
def skipStrings (d : Buffer) (style : U32) (p : Nat) : Option Nat :=
  (resSkipSz d p).bind fun menu =>
  (resSkipSz d menu.2).bind fun cls =>
  (resSkipSz d cls.2).bind fun title =>
    if style &&& 0x40 ≠ 0 then (resSkipSz d (title.2 + 6)).map Prod.snd else some title.2

/-- `wg_parse_dialog` at the template `t`; only a `DLGTEMPLATEEX` is taken. -/
def parseTemplate (d : Buffer) (t : Nat) (hwnd : U32) (table : Table) : Option Table :=
  (d.load16 t).bind fun dlgVer =>
  (d.load16 (t + 2)).bind fun sig =>
    if dlgVer ≠ 1 ∨ sig ≠ 0xFFFF then some table
    else
      (d.load32 (t + 12)).bind fun style =>
      (d.load16 (t + 16)).bind fun cItems =>
      (d.load (t + 22) 4).bind fun _ =>
      (skipStrings d style (t + 26)).bind fun p => readItems d t hwnd cItems.toNat p table

/-- `wg_parse_dialog`; an engine has an image or not. -/
def wgParseDialog (pe : Option Image) (table : Table) (hwnd dlgId : U32) : Option Table :=
  match pe with
  | none => some (table.remove hwnd)
  | some img =>
    (peFindDialog img dlgId).bind fun t =>
      match t with
      | none => some (table.remove hwnd)
      | some t => parseTemplate img.raw t hwnd (table.remove hwnd)

-- ---------------------------------------------------------------------------
-- The grammar
-- ---------------------------------------------------------------------------

section
variable (d : Buffer)

/-- The units `s` and a zero one stand at `p`. -/
def UnitsAt : (p : Nat) → (s : List U16) → Prop
  | p, [] => d.u16 p = 0
  | p, c :: s => c ≠ 0 ∧ d.u16 p = c ∧ UnitsAt (p + 2) s

/-- The string field at `p` is in the file as far as it is looked at, and ends at `q`. -/
def FieldEnds (p q : Nat) : Prop :=
  p + 2 ≤ d.size ∧
    if d.u16 p = 0xFFFF then q = p + 4
    else ∃ s, UnitsAt d p s ∧ q = p + 2 * s.length + 2 ∧ q ≤ d.size

/-- The class at `p`: a number behind 0xFFFF, or a name. -/
def ClassEnds (p q : Nat) : Prop :=
  FieldEnds d p q ∧ (d.u16 p = 0xFFFF → p + 4 ≤ d.size)

/-- The item behind `p`, up to the size of its creation data; the item behind it is behind
those. -/
def ItemEnds (t p q : Nat) : Prop :=
  dwordAlign t p + 24 ≤ d.size ∧ ∃ c, ClassEnds d (dwordAlign t p + 24) c ∧
    ∃ e, FieldEnds d c e ∧ e + 2 ≤ d.size ∧ q = e + 2 + (d.u16 e).toNat

def ItemsIn (t : Nat) : (n p : Nat) → Prop
  | 0, _ => True
  | n + 1, p => ∃ q, ItemEnds d t p q ∧ ItemsIn t n q

/-- Menu, class, title and font. -/
def StringsEnd (style : U32) (p q : Nat) : Prop :=
  ∃ menu, FieldEnds d p menu ∧ ∃ cls, FieldEnds d menu cls ∧ ∃ title, FieldEnds d cls title ∧
    if style &&& 0x40 ≠ 0 then FieldEnds d (title + 6) q else q = title

/-- A template at `t` with as many of its items as there is `room` for. -/
def TemplateIn (t room : Nat) : Prop :=
  t + 4 ≤ d.size ∧ (d.u16 t = 1 → d.u16 (t + 2) = 0xFFFF →
    t + 26 ≤ d.size ∧ ∃ p, StringsEnd d (d.u32 (t + 12)) (t + 26) p ∧
      ItemsIn d t (min (d.u16 (t + 16)).toNat room) p)

end

/-- The controls of the other windows. -/
def others (table : Table) (hwnd : U32) : List Ctrl := table.ctrls.filter (·.hwnd != hwnd)

/-- What of the image a call passes is in the file. -/
def DialogIn (pe : Option Image) (table : Table) (hwnd dlgId : U32) : Prop :=
  ∀ img, pe = some img → DirectoryIn img dlgId ∧
    ∀ t, Found img dlgId t → TemplateIn img.raw t (160 - (others table hwnd).length)

/-- A call returns, with no read outside, room for its controls, and the controls of other
windows as they were. -/
def ParsesInside (pe : Option Image) (table : Table) (hwnd dlgId : U32) : Prop :=
  ∃ table', wgParseDialog pe table hwnd dlgId = some table' ∧ table'.ctrls.length ≤ 160 ∧
    others table' hwnd = others table hwnd

-- ---------------------------------------------------------------------------
-- Strings
-- ---------------------------------------------------------------------------

section
variable {d : Buffer}

theorem load16_iff : d.load16 p = some v ↔ p + 2 ≤ d.size ∧ v = d.u16 p := by
  constructor
  · intro h
    refine ⟨?_, load16_eq h⟩
    have hsome : (d.load p 2).isSome := by
      obtain ⟨w, hw, -⟩ := Option.map_eq_some_iff.1 h
      rw [hw]
      rfl
    unfold Buffer.load at hsome
    split at hsome
    · assumption
    · cases hsome
  · rintro ⟨hin, rfl⟩
    exact load16_some hin

/-- The reader takes what the grammar has, and nothing else. -/
theorem skipUnits_iff : skipUnits d fuel p = some (s, q) ↔
    s.length < fuel ∧ UnitsAt d p s ∧ q = p + 2 * s.length + 2 ∧ q ≤ d.size := by
  induction fuel generalizing p s q with
  | zero => exact iff_of_false nofun fun h => absurd h.1 (Nat.not_lt_zero _)
  | succ fuel ih =>
    rw [skipUnits, Option.bind_eq_some_iff]
    constructor
    · rintro ⟨c, hc, h⟩
      obtain ⟨hin, rfl⟩ := load16_iff.1 hc
      split at h
      case isTrue hz =>
        obtain ⟨rfl, rfl⟩ := Prod.mk.inj (Option.some.inj h)
        exact ⟨Nat.succ_pos _, hz, rfl, hin⟩
      case isFalse hz =>
        obtain ⟨⟨s', q'⟩, hrest, he⟩ := Option.map_eq_some_iff.1 h
        obtain ⟨rfl, rfl⟩ : _ :: s' = s ∧ q' = q := Prod.mk.inj he
        obtain ⟨hlen, hat, hq, hend⟩ := ih.1 hrest
        refine ⟨Nat.succ_lt_succ hlen, ⟨hz, rfl, hat⟩, ?_, hend⟩
        rw [hq, List.length_cons, Nat.mul_succ]
        omega
    · rintro ⟨hlen, hat, rfl, hend⟩
      refine ⟨_, load16_some (by omega), ?_⟩
      cases s with
      | nil =>
        rw [if_pos (show d.u16 p = 0 from hat)]
        rfl
      | cons c s =>
        obtain ⟨hc, rfl, hat⟩ := hat
        rw [if_neg hc, Option.map_eq_some_iff]
        rw [List.length_cons] at hlen hend ⊢
        have hq : p + 2 + 2 * s.length + 2 = p + 2 * (s.length + 1) + 2 := by omega
        exact ⟨(s, p + 2 + 2 * s.length + 2),
          ih.2 ⟨Nat.lt_of_succ_lt_succ hlen, hat, rfl, hq ▸ hend⟩, Prod.ext rfl hq⟩

theorem resSkipSz_iff : (∃ s, resSkipSz d p = some (s, q)) ↔ FieldEnds d p q := by
  unfold resSkipSz FieldEnds
  simp only [Option.bind_eq_some_iff, load16_iff]
  constructor
  · rintro ⟨s, v, ⟨hin, rfl⟩, h⟩
    refine ⟨hin, ?_⟩
    split at h
    case isTrue hord =>
      rw [if_pos hord]
      exact (Prod.mk.inj (Option.some.inj h)).2.symm
    case isFalse hord =>
      rw [if_neg hord]
      exact ⟨s, (skipUnits_iff.1 h).2⟩
  · rintro ⟨hin, h⟩
    split at h
    case isTrue hord =>
      subst h
      exact ⟨[], _, ⟨hin, rfl⟩, if_pos hord⟩
    case isFalse hord =>
      obtain ⟨s, hat, hq, hend⟩ := h
      refine ⟨s, _, ⟨hin, rfl⟩, ?_⟩
      rw [if_neg hord]
      exact skipUnits_iff.2 ⟨by omega, hat, hq, hend⟩

-- ---------------------------------------------------------------------------
-- Items
-- ---------------------------------------------------------------------------

theorem readClass_iff : (∃ cls, readClass d p = some (cls, q)) ↔ ClassEnds d p q := by
  unfold readClass ClassEnds
  simp only [Option.bind_eq_some_iff, load16_iff, ← resSkipSz_iff]
  constructor
  · rintro ⟨cls, w0, ⟨hin, rfl⟩, h⟩
    split at h
    case isTrue hord =>
      obtain ⟨v, hv, he⟩ := Option.map_eq_some_iff.1 h
      obtain ⟨rfl, rfl⟩ := Prod.mk.inj he
      refine ⟨⟨[], ?_⟩, fun _ => (load16_iff.1 hv).1⟩
      rw [resSkipSz, load16_some hin, Option.bind_some, if_pos hord]
    case isFalse hord =>
      obtain ⟨⟨s, q'⟩, hs, he⟩ := Option.map_eq_some_iff.1 h
      obtain ⟨-, rfl⟩ := Prod.mk.inj he
      exact ⟨⟨s, hs⟩, fun hc => absurd hc hord⟩
  · rintro ⟨⟨s, hs⟩, hord⟩
    have hin := (resSkipSz_iff.1 ⟨s, hs⟩).1
    by_cases h : d.u16 p = 0xFFFF
    · have hq : q = p + 4 := by
        have hends := (resSkipSz_iff.1 ⟨s, hs⟩).2
        rwa [if_pos h] at hends
      refine ⟨d.u16 (p + 2), _, ⟨hin, rfl⟩, ?_⟩
      rw [if_pos h, load16_some (hord h), hq, Option.map_some]
    · refine ⟨className s, _, ⟨hin, rfl⟩, ?_⟩
      rw [if_neg h, hs, Option.map_some]

theorem readItem_iff : (∃ i, readItem d t p = some (i, q)) ↔ ItemEnds d t p q := by
  unfold ItemEnds
  simp only [← readClass_iff, ← resSkipSz_iff]
  constructor
  · rintro ⟨i, h⟩
    unfold readItem at h
    dsimp only at h
    obtain ⟨style, -, h⟩ := Option.bind_eq_some_iff.1 h
    obtain ⟨x, -, h⟩ := Option.bind_eq_some_iff.1 h
    obtain ⟨y, -, h⟩ := Option.bind_eq_some_iff.1 h
    obtain ⟨id, hid, h⟩ := Option.bind_eq_some_iff.1 h
    obtain ⟨⟨cls, c⟩, hcls, h⟩ := Option.bind_eq_some_iff.1 h
    obtain ⟨⟨title, e⟩, htitle, h⟩ := Option.bind_eq_some_iff.1 h
    obtain ⟨extra, hextra, h⟩ := Option.map_eq_some_iff.1 h
    obtain ⟨-, rfl⟩ := Prod.mk.inj h
    obtain ⟨hend, rfl⟩ := load16_iff.1 hextra
    have hin : dwordAlign t p + 20 + 4 ≤ d.size :=
      (load32_bind.1 (Option.isSome_iff_exists.2 ⟨_, Option.bind_eq_some_iff.2 ⟨id, hid, rfl⟩⟩)).1
    exact ⟨hin, c, ⟨cls, hcls⟩, e, ⟨title, htitle⟩, hend, rfl⟩
  · rintro ⟨hin, c, ⟨cls, hcls⟩, e, ⟨title, htitle⟩, hend, rfl⟩
    refine ⟨⟨d.u32 (dwordAlign t p + 20), d.u32 (dwordAlign t p + 8), d.u16 (dwordAlign t p + 12), cls,
      title.take 79⟩, ?_⟩
    unfold readItem
    dsimp only
    rw [load32_some (by omega), Option.bind_some, load16_some (by omega), Option.bind_some,
      load_some (by omega), Option.bind_some, load32_some (by omega), Option.bind_some, hcls,
      Option.bind_some, htitle, Option.bind_some, load16_some hend, Option.map_some]

/-- The loop stays in the file when the items that there is room for do. -/
theorem readItems_isSome : (readItems d t hwnd left p table).isSome ↔
    ItemsIn d t (min left (160 - table.ctrls.length)) p := by
  induction left generalizing p table with
  | zero =>
    rw [Nat.zero_min]
    exact iff_of_true rfl trivial
  | succ left ih =>
    rw [readItems]
    split
    case isFalse hfull =>
      rw [Nat.sub_eq_zero_of_le (Nat.le_of_not_lt hfull), Nat.min_zero]
      exact iff_of_true rfl trivial
    rename_i hroom
    have hpush : ∀ c, (table.push c).ctrls.length = table.ctrls.length + 1 := fun c => by
      rw [Table.push, dif_pos hroom, List.length_append, List.length_singleton]
    have hmin : min (left + 1) (160 - table.ctrls.length) =
        min left (160 - (table.ctrls.length + 1)) + 1 := by omega
    rw [hmin, ItemsIn]
    constructor
    · intro h
      obtain ⟨⟨i, q⟩, hitem, h⟩ := bind_isSome_some h
      exact ⟨q, readItem_iff.1 ⟨i, hitem⟩, hpush (i.ctrl hwnd) ▸ ih.1 h⟩
    · rintro ⟨q, hends, hrest⟩
      obtain ⟨i, hitem⟩ := readItem_iff.2 hends
      rw [hitem, Option.bind_some, ih, hpush]
      exact hrest

/-- The items come behind the controls that there are. -/
theorem readItems_some (h : readItems d t hwnd left p table = some table') :
    ∃ items, table' = table.pushItems hwnd items := by
  induction left generalizing p table with
  | zero => exact ⟨[], (Option.some.inj h).symm⟩
  | succ left ih =>
    rw [readItems] at h
    split at h
    case isFalse => exact ⟨[], (Option.some.inj h).symm⟩
    rename_i hroom
    obtain ⟨⟨i, q⟩, -, h⟩ := Option.bind_eq_some_iff.1 h
    obtain ⟨items, rfl⟩ := ih h
    exact ⟨i :: items, (if_pos hroom).symm⟩

end

-- ---------------------------------------------------------------------------
-- Templates
-- ---------------------------------------------------------------------------

theorem skipStrings_iff : skipStrings d style p = some q ↔ StringsEnd d style p q := by
  unfold StringsEnd skipStrings
  simp only [← resSkipSz_iff]
  constructor
  · intro h
    obtain ⟨⟨s, menu⟩, hmenu, h⟩ := Option.bind_eq_some_iff.1 h
    obtain ⟨⟨s', cls⟩, hcls, h⟩ := Option.bind_eq_some_iff.1 h
    obtain ⟨⟨s'', title⟩, htitle, h⟩ := Option.bind_eq_some_iff.1 h
    refine ⟨menu, ⟨s, hmenu⟩, cls, ⟨s', hcls⟩, title, ⟨s'', htitle⟩, ?_⟩
    dsimp only at h
    by_cases hfont : style &&& 0x40 ≠ 0
    · rw [if_pos hfont] at h ⊢
      obtain ⟨⟨f, e⟩, hf, rfl⟩ := Option.map_eq_some_iff.1 h
      exact ⟨f, hf⟩
    · rw [if_neg hfont] at h ⊢
      exact (Option.some.inj h).symm
  · rintro ⟨menu, ⟨s, hmenu⟩, cls, ⟨s', hcls⟩, title, ⟨s'', htitle⟩, h⟩
    rw [hmenu, Option.bind_some, hcls, Option.bind_some, htitle, Option.bind_some]
    dsimp only
    by_cases hfont : style &&& 0x40 ≠ 0
    · rw [if_pos hfont] at h ⊢
      obtain ⟨f, hf⟩ := h
      rw [hf, Option.map_some]
    · rw [if_neg hfont] at h ⊢
      rw [h]

theorem parseTemplate_isSome : (parseTemplate d t hwnd table).isSome ↔
    TemplateIn d t (160 - table.ctrls.length) := by
  rw [parseTemplate, load16_bind, load16_bind]
  unfold TemplateIn
  rw [← and_assoc]
  refine and_congr (by omega) ?_
  split
  case isTrue hno =>
    refine iff_of_true rfl fun hver hsig => ?_
    rcases hno with hno | hno
    · exact absurd hver hno
    · exact absurd hsig hno
  rename_i hyes
  rw [not_or, not_not, not_not] at hyes
  rw [imp_iff_right hyes.1, imp_iff_right hyes.2, load32_bind, load16_bind, load_bind]
  constructor
  · rintro ⟨-, -, hin, h⟩
    obtain ⟨p, hp, h⟩ := bind_isSome_some h
    exact ⟨hin, p, skipStrings_iff.1 hp, readItems_isSome.1 h⟩
  · rintro ⟨hin, p, hp, hitems⟩
    refine ⟨by omega, by omega, hin, ?_⟩
    rw [skipStrings_iff.2 hp, Option.bind_some]
    exact readItems_isSome.2 hitems

/-- A call leaves what the items of a template make of the controls. -/
theorem wgParseDialog_some (h : wgParseDialog pe table hwnd dlgId = some table') :
    ∃ items, table' = table.parseDialog hwnd items := by
  unfold wgParseDialog at h
  split at h
  case h_1 => exact ⟨none, (Option.some.inj h).symm⟩
  obtain ⟨t, -, h⟩ := Option.bind_eq_some_iff.1 h
  cases t with
  | none => exact ⟨none, (Option.some.inj h).symm⟩
  | some t =>
    obtain ⟨ver, -, h⟩ := Option.bind_eq_some_iff.1 h
    obtain ⟨sig, -, h⟩ := Option.bind_eq_some_iff.1 h
    split at h
    case isTrue => exact ⟨none, (Option.some.inj h).symm⟩
    obtain ⟨style, -, h⟩ := Option.bind_eq_some_iff.1 h
    obtain ⟨n, -, h⟩ := Option.bind_eq_some_iff.1 h
    obtain ⟨size, -, h⟩ := Option.bind_eq_some_iff.1 h
    obtain ⟨p, -, h⟩ := Option.bind_eq_some_iff.1 h
    obtain ⟨items, rfl⟩ := readItems_some h
    exact ⟨some items, rfl⟩

theorem others_push (hc : c.hwnd = hwnd) : others (table.push c) hwnd = others table hwnd := by
  unfold others Table.push
  split
  · rw [List.filter_append, List.filter_singleton, hc, bne_self_eq_false]
    exact List.append_nil _
  · rfl

theorem others_pushItems (hwnd : U32) (items : List Item) :
    others (table.pushItems hwnd items) hwnd = others table hwnd := by
  induction items generalizing table with
  | nil => rfl
  | cons i items ih =>
    rw [Table.pushItems]
    split
    · exact ih.trans (others_push rfl)
    · rfl

theorem others_remove (table : Table) (hwnd : U32) :
    others (table.remove hwnd) hwnd = others table hwnd := by
  rw [others, remove_kept, Table.kept, others, List.filter_filter]
  refine List.filter_congr fun c _ => ?_
  rw [bne, Bool.and_self]

/-- A dialog's items are the only controls that change. -/
theorem others_parseDialog (table : Table) (hwnd : U32) (items : Option (List Item)) :
    others (table.parseDialog hwnd items) hwnd = others table hwnd := by
  cases items with
  | none => exact others_remove table hwnd
  | some items => exact (others_pushItems hwnd items).trans (others_remove table hwnd)

theorem wgParseDialog_isSome : (wgParseDialog pe table hwnd dlgId).isSome ↔
    DialogIn pe table hwnd dlgId := by
  unfold wgParseDialog DialogIn
  cases pe with
  | none => exact iff_of_true rfl nofun
  | some img =>
    have hroom : (table.remove hwnd).ctrls.length = (others table hwnd).length := rfl
    simp only [Option.some.injEq, forall_eq']
    rw [← peFindDialog_isSome]
    cases hfind : peFindDialog img dlgId with
    | none => exact iff_of_false nofun fun h => nomatch h.1
    | some r =>
      rw [Option.bind_some, Option.isSome_some, and_iff_right rfl]
      have hfound := fun t => peFindDialog_found (t := t) hfind
      cases r with
      | none => exact iff_of_true rfl fun t ht => nomatch (hfound t).2 ht
      | some t =>
        rw [parseTemplate_isSome, hroom]
        refine ⟨fun h t' ht' => ?_, fun h => h t ((hfound t).1 rfl)⟩
        obtain rfl := Option.some.inj ((hfound t').2 ht')
        exact h

theorem templates_law (pe : Option Image) (table : Table) (hwnd dlgId : U32) :
    ParsesInside pe table hwnd dlgId ↔ DialogIn pe table hwnd dlgId := by
  rw [← wgParseDialog_isSome, Option.isSome_iff_exists]
  refine ⟨fun ⟨table', h, _⟩ => ⟨table', h⟩, fun ⟨table', h⟩ => ⟨table', h, table'.fits, ?_⟩⟩
  obtain ⟨items, rfl⟩ := wgParseDialog_some h
  exact others_parseDialog table hwnd items

/-- A PE32 file whose one dialog, 101, has one item: its title starts with the last two units of
the file. -/
def dialogFile (last : Byte) : Buffer := .sparse 1024 <| signed ++
  [(70, 1), (84, 144), (88, 0x0B), (89, 1), (118, 0x40), (145, 0x20), (149, 2), (180, 6),
    (201, 0x10), (241, 2), (245, 0x10), (249, 2), (253, 2),
    -- the types, the names, the languages and the data entry
    (526, 1), (528, 5), (532, 0x20), (535, 0x80), (558, 1), (560, 101), (564, 0x40), (567, 0x80),
    (596, 0x60), (608, 0xC0), (609, 0x11),
    -- the template and its item
    (960, 1), (962, 0xFF), (963, 0xFF), (976, 1), (1016, 0xFF), (1017, 0xFF), (1018, 0x80),
    (1020, last), (1022, last)]

def dialogImage (last : Byte) : Image :=
  { imageBase := 0x400000, entryPoint := 0, sizeOfImage := 0x2000, sizeOfHeaders := 0x200
    subsystem := 0, dllCharacteristics := 0, machine := 0, is64bit := false
    sections := [dllSection], imports := [], exports := ⟨0, 0⟩, reloc := ⟨0, 0⟩
    tls := ⟨0, 0⟩, raw := dialogFile last }

def noControls : Table := (Controls.Desk.load 0 0 0).table

/-- A title that the file cuts off is read on behind its end. -/
theorem title_unended : ∃ img table hwnd dlgId, loadMemory true img.raw = some (some img) ∧
    ¬ ParsesInside (some img) table hwnd dlgId := by
  refine ⟨dialogImage 65, noControls, 0x10000, 101, rfl, ?_⟩
  have hleaves : (wgParseDialog (some (dialogImage 65)) noControls 0x10000 101).isSome = false := by
    decide +kernel
  rintro ⟨table', h, -⟩
  rw [h] at hleaves
  cases hleaves

example : ((wgParseDialog (some (dialogImage 0)) noControls 0x10000 101).map fun table =>
    table.ctrls.map fun c => (c.hwnd, c.cls)) = some [(0x10000, 0x80)] := by decide +kernel

end WineGlass.Pe
