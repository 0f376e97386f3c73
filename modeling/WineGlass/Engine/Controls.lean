import Mathlib.Data.List.Nodup
import WineGlass.Lib.Run

/-!
# Dialog controls

`s_ctrls` and the calls that fill and compact it: the dialogs, the pages of nsDialogs,
`CreateWindowExW` and `DestroyWindow`. The handle of a control is its place in the array.
What only the renderer reads of a control is left out.
-/

namespace WineGlass.Controls

open Runs

abbrev U16 := BitVec 16
abbrev U32 := BitVec 32

/-- `WGDlgCtrl`. `serial` is not in the source: it tells two controls apart. -/
structure Ctrl where
  hwnd : U32
  id : U32
  style : U32
  x : U16
  cls : U16
  isBitmap : Bool := false
  hbitmap : U32 := 0
  text : List U16
  serial : Nat := 0
  deriving DecidableEq, Repr

/-- What makes a control the one it is. -/
structure Face where
  serial : Nat
  owner : U32
  cls : U16
  text : List U16
  deriving DecidableEq, Repr

def Ctrl.face (c : Ctrl) : Face := ⟨c.serial, c.hwnd, c.cls, c.text⟩

/-- The first `s_ctrl_count` entries of `s_ctrls`, and the number of controls made so far. -/
structure Table where
  ctrls : List Ctrl
  made : Nat
  fits : ctrls.length ≤ 160
  ordered : ctrls.Pairwise fun c d => c.serial < d.serial
  below : ∀ c ∈ ctrls, c.serial < made

/-- `WG_CTRL_HWND_BASE` -/
def ctrlBase : U32 := 0x00C70000

/-- `wg_find_ctrl`, as a place in the array. -/
def Table.find (t : Table) (hwnd id : U32) : Option Nat :=
  t.ctrls.findIdx? fun c => c.hwnd == hwnd && c.id == id

/-- `wg_ctrl_from_handle` -/
def Table.fromHandle (t : Table) (h : U32) : Option Ctrl :=
  if ctrlBase ≤ h ∧ h < ctrlBase + 160 then t.ctrls[(h - ctrlBase).toNat]? else none

/-- `wg_remove_ctrls` -/
def Table.remove (t : Table) (hwnd : U32) : Table where
  ctrls := t.ctrls.filter (·.hwnd != hwnd)
  made := t.made
  fits := Nat.le_trans (List.length_filter_le ..) t.fits
  ordered := t.ordered.filter _
  below c hc := t.below c (List.mem_filter.1 hc).1

/-- `s_ctrls[s_ctrl_count++]`, when there is room. -/
def Table.push (t : Table) (c : Ctrl) : Table :=
  if h : t.ctrls.length < 160 then
    { ctrls := t.ctrls ++ [{ c with serial := t.made }]
      made := t.made + 1
      fits := by
        rw [List.length_append]
        exact Nat.succ_le_of_lt h
      ordered := List.pairwise_append.2 ⟨t.ordered, List.pairwise_singleton .., fun d hd e he => by
        rw [List.mem_singleton.1 he]
        exact t.below d hd⟩
      below := fun d hd => by
        obtain hd | hd := List.mem_append.1 hd
        · exact Nat.lt_succ_of_lt (t.below d hd)
        · rw [List.mem_singleton.1 hd]
          exact Nat.lt_succ_self _ }
  else t

/-- The image for the placeholders of a page that have none. -/
def Ctrl.fill (page : U32) (load : Ctrl → U32) (c : Ctrl) : Ctrl :=
  if c.hwnd = page ∧ c.isBitmap ∧ c.hbitmap = 0 then { c with hbitmap := load c } else c

theorem Ctrl.fill_face : (Ctrl.fill page load c).face = c.face := by
  unfold Ctrl.fill
  split <;> rfl

theorem Ctrl.fill_serial : (Ctrl.fill page load c).serial = c.serial :=
  congrArg Face.serial Ctrl.fill_face

def Table.fill (t : Table) (page : U32) (load : Ctrl → U32) : Table where
  ctrls := t.ctrls.map (Ctrl.fill page load)
  made := t.made
  fits := by simpa using t.fits
  ordered := List.pairwise_map.2 <| t.ordered.imp fun h => by
    rwa [Ctrl.fill_serial, Ctrl.fill_serial]
  below c hc := by
    obtain ⟨d, hd, rfl⟩ := List.mem_map.1 hc
    rw [Ctrl.fill_serial]
    exact t.below d hd

-- ---------------------------------------------------------------------------
-- Calls
-- ---------------------------------------------------------------------------

/-- An item of a dialog template, its class resolved and its title cut to 79 units. -/
structure Item where
  id : U32
  style : U32
  x : U16
  cls : U16
  text : List U16
  deriving DecidableEq, Repr

def Item.ctrl (hwnd : U32) (i : Item) : Ctrl where
  hwnd
  id := i.id
  style := i.style
  x := i.x
  cls := i.cls
  isBitmap := i.cls == 0x0082 && i.style &&& 0x0F == 0x0E
  text := i.text

/-- The loop of `wg_parse_dialog`. -/
def Table.pushItems (t : Table) (hwnd : U32) : List Item → Table
  | [] => t
  | i :: is => if t.ctrls.length < 160 then (t.push (i.ctrl hwnd)).pushItems hwnd is else t

/-- `wg_parse_dialog`; without `items` there is no template. -/
def Table.parseDialog (t : Table) (hwnd : U32) (items : Option (List Item)) : Table :=
  match items with
  | none => t.remove hwnd
  | some is => (t.remove hwnd).pushItems hwnd is

/-- `wg_register_child_control` -/
def Table.register (t : Table) (parent : U32) (i : Item) (isBitmap : Bool) (hbitmap : U32) :
    Table :=
  t.push { hwnd := parent, id := i.id, style := i.style ||| 0x10000000, x := i.x, cls := i.cls,
           isBitmap, hbitmap, text := i.text.takeWhile (· != 0) |>.take 79 }

/-- The statics the calls share; `windows` is the `count` of the window manager. -/
structure Desk where
  table : Table
  innerPage : U32
  nsdPage : U32
  nsdNextId : U32
  windows : Nat

/-- A load empties the array and the window manager; the pages stay. -/
def Desk.load (innerPage nsdPage nsdNextId : U32) : Desk :=
  ⟨⟨[], 0, by simp, .nil, nofun⟩, innerPage, nsdPage, nsdNextId, 0⟩

/-- What `wg_wm_create_window` returns: there are `WG_MAX_WINDOWS`, and none is reused. -/
def Desk.fresh (d : Desk) : U32 := if d.windows < 64 then 0x10000 + .ofNat 32 d.windows else 0

def Desk.create (d : Desk) : Desk := { d with windows := min 64 (d.windows + 1) }

/-- `wg_retire_inner_page` -/
def Desk.retireInnerPage (d : Desk) (keep : U32) : Desk :=
  let table :=
    if d.innerPage ≠ 0 ∧ d.innerPage ≠ keep then d.table.remove d.innerPage else d.table
  { d with table, innerPage := keep }

/-- The left edge of what a page shows beside its images. -/
def Table.leftEdge (t : Table) (page : U32) (pw : Int) : Int :=
  t.ctrls.foldl (fun m c => if c.hwnd = page ∧ !c.isBitmap then min m c.x.toInt else m) pw

/-- Whether `Show` adds an image of its own. `load` gives 0 for an image that cannot be
loaded, and for every image when there is no file. -/
def Desk.strips (d : Desk) (image : U32) (pw ph : Int) : Bool :=
  d.nsdPage ≠ 0 && !(d.table.ctrls.any fun c => c.hwnd == d.nsdPage && c.isBitmap) &&
    40 ≤ d.table.leftEdge d.nsdPage pw && d.table.leftEdge d.nsdPage pw < pw && 0 < ph &&
    image ≠ 0

inductive Action
  | dialogBox (items : Option (List Item))
  | createDialog (items : Option (List Item))
  | createWindow (parent : U32) (known : Bool) (i : Item)
  | nsdCreate
  | nsdControl (i : Item) (isBitmap : Bool)
  | nsdShow (load : Ctrl → U32) (image : U32) (pw ph : Int)
  | destroyWindow (hwnd : U32)
  | getDlgItem (hwnd id : U32)

def Desk.act (d : Desk) : Action → Desk × U32
  | .dialogBox items =>
    ({ d.create with table := d.table.parseDialog d.fresh items }, d.fresh)
  | .createDialog items =>
    let d' := d.create.retireInnerPage d.fresh
    ({ d' with table := d'.table.parseDialog d.fresh items }, d.fresh)
  | .createWindow parent known i =>
    let table := if parent ≠ 0 ∧ known then d.table.register parent i false 0 else d.table
    ({ d.create with table }, d.fresh)
  | .nsdCreate => ({ d.create.retireInnerPage d.fresh with nsdPage := d.fresh }, d.fresh)
  | .nsdControl i isBitmap =>
    let table := d.table.register d.nsdPage { i with id := d.nsdNextId } isBitmap 0
    ({ d with table, nsdNextId := d.nsdNextId + 1 },
      if d.table.ctrls.length < table.ctrls.length then
        ctrlBase + .ofNat 32 (table.ctrls.length - 1) else 0)
  | .nsdShow load image pw ph =>
    let table := if d.nsdPage ≠ 0 then d.table.fill d.nsdPage load else d.table
    if d.strips image pw ph then
      ({ d with
          table := table.register d.nsdPage ⟨d.nsdNextId, 0x0E, 0, 0x0082, []⟩ true image
          nsdNextId := d.nsdNextId + 1 }, 0)
    else ({ d with table }, 0)
  | .destroyWindow hwnd => ({ d with table := d.table.remove hwnd }, 1)
  | .getDlgItem hwnd id =>
    (d, (d.table.find hwnd id).elim 0 fun k => ctrlBase + .ofNat 32 k)

-- ---------------------------------------------------------------------------
-- Handles
-- ---------------------------------------------------------------------------

/-- Whether a call takes the controls of the inner page away. -/
def Desk.retires (d : Desk) (w : U32) : Bool :=
  d.innerPage ≠ 0 && d.innerPage ≠ d.fresh && w == d.innerPage

/-- Whether a call takes the controls of a window away: it destroys the window, turns the
page, or parses the dialog of the window. -/
def Desk.removes (d : Desk) : Action → U32 → Bool
  | .dialogBox _, w => w == d.fresh
  | .createDialog _, w => w == d.fresh || d.retires w
  | .nsdCreate, w => d.retires w
  | .destroyWindow hwnd, w => w == hwnd
  | _, _ => false

/-- How many controls a call makes, when there is room. -/
def Desk.adds (d : Desk) : Action → Nat
  | .dialogBox items | .createDialog items => (items.map List.length).getD 0
  | .createWindow parent known _ => if parent ≠ 0 ∧ known then 1 else 0
  | .nsdControl .. => 1
  | .nsdShow _ image pw ph => if d.strips image pw ph then 1 else 0
  | _ => 0

/-- A handle the guest has been given, the control it was given for, and whether the
window of that control has kept it. -/
structure Note where
  handle : U32
  face : Face
  live : Bool
  deriving DecidableEq, Repr

def Note.after (gone : U32 → Bool) (n : Note) : Note :=
  { n with live := n.live && !gone n.face.owner }

/-- What is noted of the answer to `GetDlgItem`. -/
def Desk.noted (d : Desk) : Action → List Note
  | .getDlgItem hwnd id =>
    (d.table.ctrls.find? fun c => c.hwnd == hwnd && c.id == id).toList.map fun c =>
      ⟨(d.act (.getDlgItem hwnd id)).2, c.face, true⟩
  | _ => []

/-- The statics with the notes, which are not in the source. -/
structure Sys where
  desk : Desk
  given : List Note

def Sys.step (s : Sys) (a : Action) : Option (Sys × U32) :=
  some (⟨(s.desk.act a).1, s.given.map (Note.after (s.desk.removes a)) ++ s.desk.noted a⟩,
    (s.desk.act a).2)

/-- What a handle denotes. -/
def Table.denotes (t : Table) (h : U32) : Option Face := (t.fromHandle h).map Ctrl.face

/-- A handle denotes its control as long as the window keeps it, and then nothing. -/
def Table.Honours (t : Table) (n : Note) : Prop :=
  t.denotes n.handle = if n.live then some n.face else none

def Sys.Stable (s : Sys) : Prop := ∀ n ∈ s.given, s.desk.table.Honours n

instance (s : Sys) : Decidable s.Stable :=
  inferInstanceAs (Decidable (∀ n ∈ s.given,
    s.desk.table.denotes n.handle = if n.live then some n.face else none))

/-- The place a handle stands for. -/
def slotOf (h : U32) : Nat := (h - ctrlBase).toNat

/-- The controls whose windows are left alone. -/
def Table.kept (t : Table) (gone : U32 → Bool) : List Ctrl := t.ctrls.filter fun c => !gone c.hwnd

/-- A call moves no control a handle was given for, and leaves nothing where one was. -/
def Meets (s : Sys) (a : Action) : Prop :=
  ∀ n ∈ s.given,
    if (n.after (s.desk.removes a)).live then
      ∀ c ∈ s.desk.table.ctrls.take (slotOf n.handle), s.desk.removes a c.hwnd = false
    else
      min 160 ((s.desk.table.kept (s.desk.removes a)).length + s.desk.adds a) ≤ slotOf n.handle

instance (s : Sys) (a : Action) : Decidable (Meets s a) :=
  inferInstanceAs (Decidable (∀ n ∈ s.given,
    if (n.after (s.desk.removes a)).live then
      ∀ c ∈ s.desk.table.ctrls.take (slotOf n.handle), s.desk.removes a c.hwnd = false
    else
      min 160 ((s.desk.table.kept (s.desk.removes a)).length + s.desk.adds a) ≤ slotOf n.handle))

-- ---------------------------------------------------------------------------
-- What a call does to the array
-- ---------------------------------------------------------------------------

def Table.faces (t : Table) : List Face := t.ctrls.map Ctrl.face

theorem Table.faces_nodup (t : Table) : t.faces.Nodup :=
  List.pairwise_map.2 <| t.ordered.imp fun h he => absurd (congrArg Face.serial he) (Nat.ne_of_lt h)

/-- Controls are added at the end. -/
structure Grown (t t' : Table) (n : Nat) : Prop where
  faces : ∃ r, t'.faces = t.faces ++ r
  length : t'.ctrls.length = min 160 (t.ctrls.length + n)

theorem Grown.refl (t : Table) : Grown t t 0 := by
  refine ⟨⟨[], by simp⟩, ?_⟩
  have := t.fits
  omega

theorem Grown.trans (h : Grown t₁ t₂ m) (h' : Grown t₂ t₃ n) : Grown t₁ t₃ (m + n) := by
  obtain ⟨⟨r, hr⟩, hlen⟩ := h
  obtain ⟨⟨r', hr'⟩, hlen'⟩ := h'
  refine ⟨⟨r ++ r', by rw [hr', hr, List.append_assoc]⟩, ?_⟩
  have := t₁.fits
  omega

theorem push_grown (t : Table) (c : Ctrl) : Grown t (t.push c) 1 := by
  have hfits := t.fits
  unfold Table.push
  split
  · rename_i h
    refine ⟨⟨_, List.map_append⟩, ?_⟩
    simp only [List.length_append, List.length_singleton]
    omega
  · exact ⟨⟨[], by simp⟩, by omega⟩

theorem pushItems_grown (hwnd : U32) (is : List Item) :
    Grown t (t.pushItems hwnd is) is.length := by
  induction is generalizing t with
  | nil => exact .refl t
  | cons i is ih =>
    simp only [Table.pushItems, List.length_cons]
    split
    · rw [Nat.add_comm]
      exact (push_grown t (i.ctrl hwnd)).trans ih
    · have hfits := t.fits
      exact ⟨⟨[], by simp⟩, by omega⟩

theorem fill_grown (t : Table) (page : U32) (load : Ctrl → U32) : Grown t (t.fill page load) 0 := by
  refine ⟨⟨[], by simp [Table.faces, Table.fill, Ctrl.fill_face]⟩, ?_⟩
  have := t.fits
  simp only [Table.fill, List.length_map]
  omega

/-- A call drops the controls of some windows and adds others at the end. -/
structure Edited (t t' : Table) (gone : U32 → Bool) (n : Nat) : Prop where
  faces : ∃ r, t'.faces = (t.kept gone).map Ctrl.face ++ r
  length : t'.ctrls.length = min 160 ((t.kept gone).length + n)

theorem Grown.edited (h : Grown t₁ t' n) (hkept : t₁.ctrls = t.kept gone) :
    Edited t t' gone n := by
  obtain ⟨hfaces, hlen⟩ := h
  rw [show t₁.faces = (t.kept gone).map Ctrl.face from congrArg _ hkept] at hfaces
  rw [hkept] at hlen
  exact ⟨hfaces, hlen⟩

theorem kept_all (t : Table) : t.ctrls = t.kept fun _ => false := by simp [Table.kept]

theorem remove_kept (t : Table) (hwnd : U32) : (t.remove hwnd).ctrls = t.kept (· == hwnd) := rfl

theorem parseDialog_grown (t : Table) (hwnd : U32) (items : Option (List Item)) :
    Grown (t.remove hwnd) (t.parseDialog hwnd items) ((items.map List.length).getD 0) := by
  cases items with
  | none => exact .refl _
  | some is => exact pushItems_grown hwnd is

theorem retireInnerPage_kept (d : Desk) :
    (d.create.retireInnerPage d.fresh).table.ctrls = d.table.kept d.retires := by
  show (if d.innerPage ≠ 0 ∧ d.innerPage ≠ d.fresh then d.table.remove d.innerPage
    else d.table).ctrls = _
  split
  · rename_i h
    have hpage : d.retires = (· == d.innerPage) := by
      funext w
      simp only [Desk.retires]
      grind
    rw [hpage, remove_kept]
  · rename_i h
    have hno : d.retires = fun _ => false := by
      funext w
      simp only [Desk.retires]
      grind
    rw [hno, ← kept_all]

theorem register_grown (t : Table) (parent : U32) (i : Item) (b : Bool) (hb : U32) :
    Grown t (t.register parent i b hb) 1 := push_grown ..

theorem act_edited (d : Desk) (a : Action) :
    Edited d.table (d.act a).1.table (d.removes a) (d.adds a) := by
  cases a with
  | dialogBox items => exact (parseDialog_grown ..).edited rfl
  | createDialog items =>
    refine (parseDialog_grown ..).edited ?_
    rw [remove_kept, Table.kept, retireInnerPage_kept, Table.kept, List.filter_filter]
    simp [Table.kept, Desk.removes]
  | createWindow parent known i =>
    simp only [Desk.act, Desk.adds]
    split
    · exact (register_grown ..).edited (kept_all _)
    · exact (Grown.refl _).edited (kept_all _)
  | nsdCreate => exact (Grown.refl _).edited (retireInnerPage_kept d)
  | nsdControl i b => exact (register_grown ..).edited (kept_all _)
  | nsdShow load image pw ph =>
    have hfill : Grown d.table (if d.nsdPage ≠ 0 then d.table.fill d.nsdPage load else d.table)
        0 := by
      split
      · exact fill_grown ..
      · exact .refl _
    simp only [Desk.act, Desk.adds]
    split
    · exact (hfill.trans (register_grown ..)).edited (kept_all _)
    · exact hfill.edited (kept_all _)
  | destroyWindow hwnd => exact (Grown.refl _).edited rfl
  | getDlgItem hwnd id => exact (Grown.refl _).edited (kept_all _)

-- ---------------------------------------------------------------------------
-- What a handle denotes after a call
-- ---------------------------------------------------------------------------

/-- An entry keeps its place when the array is compacted just when nothing before it goes. -/
theorem stays_iff {l r : List α} {p : α → Bool} (hn : (l.filter p ++ r).Nodup)
    (hx : l[j]? = some x) (hp : p x = true) :
    (l.filter p ++ r)[j]? = some x ↔ ∀ y ∈ l.take j, p y = true := by
  obtain ⟨hj, rfl⟩ := List.getElem?_eq_some_iff.1 hx
  have hsplit : l.filter p = (l.take j).filter p ++ l[j] :: (l.drop (j + 1)).filter p := by
    conv_lhs => rw [← List.take_append_drop j l, List.drop_eq_getElem_cons hj]
    rw [List.filter_append, List.filter_cons_of_pos hp]
  have htake : (l.take j).length = j := by
    rw [List.length_take]
    omega
  rw [hsplit, List.append_assoc, List.cons_append] at hn ⊢
  have hbefore := List.length_filter_le p (l.take j)
  rw [← List.length_filter_eq_length_iff, htake, List.getElem?_append_right (by omega)]
  constructor
  · intro h
    obtain ⟨k, hk⟩ := Nat.exists_eq_add_of_le (htake ▸ hbefore)
    cases k with
    | zero => omega
    | succ k =>
      rw [show j - ((l.take j).filter p).length = k + 1 by omega, List.getElem?_cons_succ] at h
      have hlater := List.mem_of_getElem? h
      exact absurd hlater (List.nodup_cons.1 (List.nodup_append.1 hn).2.1).1
  · intro h
    rw [h, Nat.sub_self, List.getElem?_cons_zero]

theorem fromHandle_eq (t : Table) (h : U32) : t.fromHandle h = t.ctrls[slotOf h]? := by
  unfold Table.fromHandle
  split
  · rfl
  · rename_i hout
    have hfar : 160 ≤ slotOf h := by
      simp only [slotOf, ctrlBase] at hout ⊢
      bv_omega
    exact (List.getElem?_eq_none (Nat.le_trans t.fits hfar)).symm

theorem denotes_eq (t : Table) (h : U32) : t.denotes h = t.faces[slotOf h]? := by
  rw [Table.denotes, fromHandle_eq, Table.faces, List.getElem?_map]

theorem Edited.stays (h : Edited t t' gone n) (hx : t.denotes x = some f)
    (hf : gone f.owner = false) :
    t'.denotes x = some f ↔ ∀ c ∈ t.ctrls.take (slotOf x), gone c.hwnd = false := by
  obtain ⟨⟨r, hr⟩, -⟩ := h
  have hkept : (t.kept gone).map Ctrl.face = t.faces.filter fun f => !gone f.owner := by
    rw [Table.faces, List.filter_map]
    rfl
  have hn := t'.faces_nodup
  rw [denotes_eq] at hx ⊢
  rw [hr, hkept] at hn ⊢
  rw [stays_iff hn hx (by simp [hf]), Table.faces, ← List.map_take, List.forall_mem_map]
  simp [Ctrl.face]

theorem Edited.ends (h : Edited t t' gone n) :
    t'.denotes x = none ↔ min 160 ((t.kept gone).length + n) ≤ slotOf x := by
  rw [denotes_eq, List.getElem?_eq_none_iff, Table.faces, List.length_map, h.length]

/-- `GetDlgItem` gives the handle of the control asked for. -/
theorem find_denotes {t : Table} {hwnd i : U32}
    (h : (t.ctrls.find? fun c => c.hwnd == hwnd && c.id == i) = some c) :
    t.denotes ((t.find hwnd i).elim 0 fun k => ctrlBase + .ofNat 32 k) = some c.face := by
  rw [List.find?_eq_bind_findIdx?_getElem?] at h
  obtain ⟨k, hk, hc⟩ := Option.bind_eq_some_iff.1 h
  have hfits := t.fits
  have hlt := (List.getElem?_eq_some_iff.1 hc).1
  have hslot : slotOf (ctrlBase + .ofNat 32 k) = k := by
    simp only [slotOf, ctrlBase]
    bv_omega
  rw [Table.find, hk, Option.elim_some, denotes_eq, hslot, Table.faces, List.getElem?_map, hc]
  rfl

theorem noted_honours (s : Sys) (a : Action) (n : Note) (hn : n ∈ s.desk.noted a) :
    (s.desk.act a).1.table.Honours n := by
  cases a with
  | getDlgItem hwnd id =>
    simp only [Desk.noted, List.mem_map, Option.mem_toList] at hn
    obtain ⟨c, hc, rfl⟩ := hn
    exact find_denotes hc
  | dialogBox | createDialog | createWindow | nsdCreate | nsdControl | nsdShow | destroyWindow =>
    cases hn

/-- What one call does to the handles given before it. -/
theorem step_stable (hs : s.Stable) (h : s.step a = some (s', e)) : s'.Stable ↔ Meets s a := by
  cases h
  have hedit := act_edited s.desk a
  have heach : ∀ n ∈ s.given, ((s.desk.act a).1.table.Honours (n.after (s.desk.removes a)) ↔
      if (n.after (s.desk.removes a)).live then
        ∀ c ∈ s.desk.table.ctrls.take (slotOf n.handle), s.desk.removes a c.hwnd = false
      else min 160 ((s.desk.table.kept (s.desk.removes a)).length + s.desk.adds a) ≤
        slotOf n.handle) := by
    intro n hn
    unfold Table.Honours
    split
    · rename_i hlive
      obtain ⟨hwas, hstays⟩ := Bool.and_eq_true_iff.1 hlive
      have hx := hs n hn
      rw [Table.Honours, if_pos hwas] at hx
      have hkeeps : s.desk.removes a n.face.owner = false := by simpa using hstays
      exact hedit.stays hx hkeeps
    · exact hedit.ends
  constructor
  · intro hstable n hn
    exact (heach n hn).1 (hstable _ (List.mem_append_left _ (List.mem_map_of_mem hn)))
  · intro hm n hn
    obtain hn | hn := List.mem_append.1 hn
    · obtain ⟨m, hmem, rfl⟩ := List.mem_map.1 hn
      exact (heach m hmem).2 (hm m hmem)
    · exact noted_honours s a n hn

/-- In a run of such calls every handle denotes its control as long as the window keeps it,
and nothing after; no other call leaves it so. -/
theorem controls_law (h : Run Sys.step Meets ⟨.load page nsd next, []⟩ tr s) :
    s.Stable ∧ ∀ a s' e, s.step a = some (s', e) → (s'.Stable ↔ Meets s a) := by
  have hs : s.Stable := h.invariant (P := fun _ s => s.Stable) nofun
    fun hs hm h => (step_stable hs h).2 hm
  exact ⟨hs, fun a s' e h => step_stable hs h⟩

/-- A button, class 0x80. -/
def button (id : U32) : Item := ⟨id, 0x50000000, 0, 0x0080, [0x4F, 0x4B]⟩

/-- A handle into the first dialog, after the second is destroyed. -/
theorem controls_law_first : ∃ tr s, Run Sys.step Meets ⟨.load 0 0 2200, []⟩ tr s ∧
    s.given.length = 1 ∧ s.Stable := by
  have hexec : (exec Sys.step Meets ⟨.load 0 0 2200, []⟩ [.dialogBox (some [button 1]),
      .dialogBox (some [button 1, button 2]), .getDlgItem 0x10000 1,
      .destroyWindow 0x10001]).any fun r => decide (r.2.given.length = 1) := by decide +kernel
  obtain ⟨tr, s, hr, hp⟩ := Run.of_exec_any hexec
  exact ⟨tr, s, hr, of_decide_eq_true hp, (controls_law hr).1⟩

/-- Destroying the first dialog moves the controls of the second. -/
theorem destroy_shifts : ¬ ∀ tr s, Run Sys.step anyStep ⟨.load 0 0 2200, []⟩ tr s → s.Stable := by
  intro hall
  have hexec : (exec Sys.step anyStep ⟨.load 0 0 2200, []⟩ [.dialogBox (some [button 1]),
      .dialogBox (some [button 1, button 2]), .getDlgItem 0x10001 1,
      .destroyWindow 0x10000]).any fun r => decide (¬ r.2.Stable) := by decide +kernel
  obtain ⟨tr, s, hr, hp⟩ := Run.of_exec_any hexec
  exact of_decide_eq_true hp (hall tr s hr)

end WineGlass.Controls
