import WineGlass.Lib.Units

/-!
# Searches

`wg_findfile_first`, `wg_findfile_next` and `wg_findfile_close`. A search has a copy of the names
that matched when it began, and a place in it; 64 searches can be open. A search delivers each of
its names once and in order, whatever the host's directories come to and whatever other searches
there are (`search_law`). Malloc is taken to succeed, and the switches for startup movies are off.
-/

namespace WineGlass.Searches

open Fields Units

abbrev Byte := BitVec 8
abbrev U16 := BitVec 16
abbrev U32 := BitVec 32
abbrev U64 := BitVec 64

/-- A C string, without its end. -/
abbrev Name := { s : List Byte // 0 ∉ s }

structure Stat where
  isDir : Bool
  size : U64

/-- The host at the time of a call: `opendir` with `readdir`, `fnmatch` and `stat`. -/
structure World where
  list : List Byte → Option (List Name)
  fnmatch : List Byte → List Byte → Bool
  stat : List Byte → Option Stat

/-- `WGFindState` -/
structure Find where
  inUse : Bool
  dir : List Byte
  names : List Name
  pos : Nat

/-- `s_finds`, the guest's memory and `s_last_error`. -/
structure Sys where
  finds : Fin 64 → Find
  mem : Mem
  lastError : U32

-- ---------------------------------------------------------------------------
-- The calls
-- ---------------------------------------------------------------------------

/-- `FILE_ATTRIBUTE_DIRECTORY` or `FILE_ATTRIBUTE_NORMAL`. -/
def attributes : Option Stat → Nat
  | some ⟨true, _⟩ => 0x10
  | _ => 0x80

def sizeOf : Option Stat → Nat
  | some ⟨false, size⟩ => size.toNat
  | _ => 0

/-- What is written before the name. -/
def findHead (st : Option Stat) : List (Extent × Nat) :=
  [(⟨0x00, 4⟩, attributes st), (⟨0x1C, 4⟩, sizeOf st / 2 ^ 32), (⟨0x20, 4⟩, sizeOf st % 2 ^ 32)]

/-- The `WIN32_FIND_DATAW` of a file. -/
def findData (st : Option Stat) (name : Name) : Nat → Byte :=
  put 2 (setAll (fun _ => 0) (findHead st)) 0x2C ((name.1.take 259).map (BitVec.setWidth 16))

/-- `"%s/%s"` in 2048 characters. -/
def full (dir : List Byte) (name : Name) : List Byte := (dir ++ 0x2F :: name.1).take 2047

def writeFindData (w : World) (m : Mem) (dataAddr : U32) (dir : List Byte) (name : Name) : Mem :=
  if dataAddr = 0 then m
  else copy m dataAddr.toNat (findData (w.stat (full dir name)) name) 0x250

/-- `INVALID_HANDLE_VALUE` -/
def invalid (is64 : Bool) : U64 := if is64 then 0xFFFFFFFFFFFFFFFF else 0xFFFFFFFF

/-- The directory and the pattern of a path; `"*"` for want of one. -/
def splitPattern (real : List Byte) : List Byte × List Byte :=
  let rdir := real.take 1023
  match strrchr rdir 0x2F with
  | none => (rdir, [0x2A])
  | some i => (rdir.take i, if rdir.drop (i + 1) = [] then [0x2A] else rdir.drop (i + 1))

/-- `WG_FIND_BASE` -/
def findBase : U32 := 0xF1000000

def handleOf (i : Fin 64) : U32 := findBase + BitVec.ofNat 32 i

def slotOf (h : U32) : Option (Fin 64) :=
  if hin : findBase ≤ h ∧ h < findBase + 64 then
    some ⟨(h - findBase).toNat, by unfold findBase at hin ⊢; bv_omega⟩
  else none

def freeSlot (s : Sys) : Option (Fin 64) := (List.finRange 64).find? fun i => !(s.finds i).inUse

def Sys.setFind (s : Sys) (i : Fin 64) (f : Find) : Sys :=
  { s with finds := Function.update s.finds i f }

/-- `real` is what `wg_files_map_path` makes of the pattern. -/
def findFirst (w : World) (is64 : Bool) (s : Sys) (real : Option (List Byte)) (dataAddr : U32) :
    U64 × Sys :=
  match real with
  | none => (invalid is64, s)
  | some real =>
    let (rdir, glob) := splitPattern real
    match w.list rdir with
    | none => (invalid is64, { s with lastError := 3 })
    | some entries =>
      match freeSlot s with
      | none => (invalid is64, s)
      | some i =>
        match entries.filter fun name => w.fnmatch glob name.1 with
        | [] => (invalid is64, { s.setFind i ⟨false, rdir, [], 0⟩ with lastError := 2 })
        | name :: rest =>
          let s := s.setFind i ⟨true, rdir, name :: rest, 1⟩
          ((handleOf i).setWidth 64, { s with mem := writeFindData w s.mem dataAddr rdir name })

def findNext (w : World) (s : Sys) (h dataAddr : U32) : U64 × Sys :=
  match slotOf h with
  | none => (0, s)
  | some i =>
    let fs := s.finds i
    if fs.inUse then
      match fs.names[fs.pos]? with
      | none => (0, { s with lastError := 18 })
      | some name =>
        (1, { s.setFind i { fs with pos := fs.pos + 1 } with
          mem := writeFindData w s.mem dataAddr fs.dir name })
    else (0, { s with lastError := 18 })

/-- What it answers is the handler's. -/
def findClose (s : Sys) (h : U32) : U64 × Sys :=
  match slotOf h with
  | none => (1, s)
  | some i => (1, if (s.finds i).inUse then s.setFind i ⟨false, [], [], 0⟩ else s)

/-- A call, in the host's world of the time, or what else changes the memory. -/
inductive Action where
  | first (w : World) (is64 : Bool) (real : Option (List Byte)) (dataAddr : U32)
  | next (w : World) (h dataAddr : U32)
  | close (h : U32)
  | poke (m : Mem)

def step (s : Sys) : Action → U64 × Sys
  | .first w is64 real dataAddr => findFirst w is64 s real dataAddr
  | .next w h dataAddr => findNext w s h dataAddr
  | .close h => findClose s h
  | .poke m => (0, { s with mem := m })

def run (s : Sys) (as : List Action) : Sys := as.foldl (fun s a => (step s a).2) s

-- ---------------------------------------------------------------------------
-- What the guest reads
-- ---------------------------------------------------------------------------

/-- A `WIN32_FIND_DATAW` as the guest reads it. -/
structure Record where
  attributes : Nat
  size : Nat
  name : List (BitVec (8 * 2))
  deriving DecidableEq

def readRecord (m : Mem) (p : Nat) : Record where
  attributes := get m ⟨p, 4⟩
  size := get m ⟨p + 0x1C, 4⟩ * 2 ^ 32 + get m ⟨p + 0x20, 4⟩
  name := upto (unit 2 m (p + 0x2C)) 260

/-- What there is to say of a file: of its name no more than 259 characters. -/
def record (st : Option Stat) (name : Name) : Record where
  attributes := attributes st
  size := sizeOf st
  name := (name.1.take 259).map (BitVec.setWidth 16)

theorem get_put_after {l : List (BitVec (8 * k))} (h : p + k * l.length ≤ e.start) :
    get (put k m p l) e = get m e := by
  induction l generalizing m p with
  | nil => rfl
  | cons c l ih =>
    rw [List.length_cons, Nat.mul_succ] at h
    rw [put, ih (by omega), get_set_apart (.inl (by dsimp only; omega))]

theorem wide_ne_zero {c : Byte} : c.setWidth 16 = 0 ↔ c = 0 := by
  constructor <;> intro h <;> bv_omega

theorem findHead_inside (st : Option Stat) : ∀ w ∈ findHead st, w.1.start + w.1.width ≤ 0x2C := by
  simp [findHead]

theorem head_read (st : Option Stat) (name : Name) (hw : w ∈ findHead st) :
    get (copy m p (findData st name) 0x250) ⟨p + w.1.start, w.1.width⟩ = w.2 % 256 ^ w.1.width := by
  have hin := findHead_inside st w hw
  have hp : (findHead st).Pairwise fun a b => Extent.Apart a.1 b.1 := by
    simp [findHead, Extent.Apart]
  rw [get_copy (by omega), ← get_setAll hp hw]
  exact get_put hin

theorem sizeOf_lt (st : Option Stat) : sizeOf st < 2 ^ 64 := by
  unfold sizeOf
  split
  · exact BitVec.isLt _
  · decide

/-- The guest reads what there is to say. -/
theorem record_read (m : Mem) (p : Nat) (st : Option Stat) (name : Name) :
    readRecord (copy m p (findData st name) 0x250) p = record st name := by
  have hattr : get (copy m p (findData st name) 0x250) ⟨p, 4⟩ = attributes st := by
    refine (head_read st name (List.mem_cons_self ..)).trans (Nat.mod_eq_of_lt ?_)
    unfold attributes
    split <;> decide
  have hhigh : get (copy m p (findData st name) 0x250) ⟨p + 0x1C, 4⟩ = sizeOf st / 2 ^ 32 := by
    refine (head_read st name (.tail _ (List.mem_cons_self ..))).trans (Nat.mod_eq_of_lt ?_)
    have hlt := sizeOf_lt st
    dsimp only
    omega
  have hlow : get (copy m p (findData st name) 0x250) ⟨p + 0x20, 4⟩ = sizeOf st % 2 ^ 32 :=
    (head_read st name (.tail _ (.tail _ (List.mem_cons_self ..)))).trans (Nat.mod_mod _ _)
  -- The name ends where the record was zero before.
  let text : List (BitVec (8 * 2)) := (name.1.take 259).map (BitVec.setWidth 16)
  have hlen : text.length ≤ 259 := by simp [text]
  have hnz : 0 ∉ text := by
    intro hmem
    obtain ⟨c, hc, hzero⟩ := List.mem_map.1 hmem
    have hmem : 0 ∈ name.1.take 259 := wide_ne_zero.1 hzero ▸ hc
    exact name.2 (List.mem_of_mem_take hmem)
  have hstr : Str (unit 2 (findData st name) 0x2C) text := by
    refine str_of_getElem? hnz fun i hi => ?_
    rcases Nat.lt_or_eq_of_le hi with hlt | rfl
    · rw [List.getElem?_append_left hlt, List.getElem?_eq_getElem hlt]
      exact congrArg some (unit_put _ hlt).symm
    · have hzero : get (findData st name) ⟨0x2C + 2 * text.length, 2⟩ = 0 := by
        refine (get_put_after (Nat.le_refl _)).trans ?_
        refine (get_setAll_apart fun w hw => ?_).trans ?_
        · have hin := findHead_inside st w hw
          exact .inl (by dsimp only; omega)
        · simp [Fields.get, Word.word]
      rw [List.getElem?_append_right (Nat.le_refl _), Nat.sub_self, Units.unit, hzero]
      rfl
  have hname : upto (unit 2 (copy m p (findData st name) 0x250) (p + 0x2C)) 260 = text := by
    rw [upto_congr fun i hi _ => ?_, hstr.upto, List.take_of_length_le (by omega)]
    rw [Units.unit, Units.unit, Nat.add_assoc, get_copy (by omega)]
  rw [readRecord, hattr, hhigh, hlow, hname, record, Nat.div_add_mod']

-- ---------------------------------------------------------------------------
-- What is left of a search
-- ---------------------------------------------------------------------------

/-- The directory of a search and the names it is still to deliver. -/
def Find.left (f : Find) : Option (List Byte × List Name) :=
  if f.inUse then some (f.dir, f.names.drop f.pos) else none

def Sys.left (s : Sys) (hnd : U32) : Option (List Byte × List Name) :=
  (slotOf hnd).bind fun i => (s.finds i).left

theorem slotOf_handleOf (i : Fin 64) : slotOf (handleOf i) = some i := by
  revert i
  decide

theorem handleOf_slotOf (h : slotOf hnd = some i) : handleOf i = hnd := by
  unfold slotOf at h
  split at h
  · rename_i hin
    obtain rfl := Option.some.inj h
    rw [handleOf, BitVec.ofNat_toNat, BitVec.setWidth_eq, BitVec.add_comm, BitVec.sub_add_cancel]
  · cases h

theorem left_setFind {s : Sys} {f : Find} (hi : slotOf hnd = some i) :
    (s.setFind i f).left = Function.update s.left hnd f.left := by
  funext hnd'
  by_cases heq : hnd' = hnd
  · subst heq
    simp [Sys.left, Sys.setFind, hi]
  · rw [Function.update_of_ne heq]
    unfold Sys.left
    cases hi' : slotOf hnd' with
    | none => rfl
    | some i' =>
      have hne : i' ≠ i := by
        rintro rfl
        exact heq ((handleOf_slotOf hi').symm.trans (handleOf_slotOf hi))
      simp [Sys.setFind, hne]

/-- A search delivers its next name. -/
theorem findNext_some {s : Sys} (w : World) (data : U32)
    (h : s.left hnd = some (dir, name :: rest)) :
    (findNext w s hnd data).1 = 1 ∧
      (findNext w s hnd data).2.left = Function.update s.left hnd (some (dir, rest)) ∧
      (findNext w s hnd data).2.mem = writeFindData w s.mem data dir name := by
  obtain ⟨i, hi, hf⟩ := Option.bind_eq_some_iff.1 h
  obtain ⟨hu, heq⟩ := Option.ite_none_right_eq_some.1 hf
  obtain ⟨rfl, hdrop⟩ := Prod.mk.inj (Option.some.inj heq)
  have hat : (s.finds i).names[(s.finds i).pos]? = some name := by
    have hzero := congrArg (·[0]?) hdrop
    simpa using hzero
  have hrest : (s.finds i).names.drop ((s.finds i).pos + 1) = rest := by
    rw [← List.drop_drop, hdrop]
    rfl
  rw [findNext, hi]
  dsimp only
  rw [if_pos hu, hat]
  refine ⟨rfl, (left_setFind hi).trans ?_, rfl⟩
  rw [Find.left, if_pos hu, hrest]

/-- One that has none left says so. -/
theorem findNext_none {s : Sys} (w : World) (data : U32)
    (h : ∀ dir name rest, s.left hnd ≠ some (dir, name :: rest)) :
    (findNext w s hnd data).1 = 0 ∧ (findNext w s hnd data).2.left = s.left ∧
      (findNext w s hnd data).2.mem = s.mem ∧
      (∀ d, s.left hnd = some d → (findNext w s hnd data).2.lastError = 18) := by
  unfold findNext
  cases hi : slotOf hnd with
  | none => exact ⟨rfl, rfl, rfl, fun d hd => by simp [Sys.left, hi] at hd⟩
  | some i =>
    dsimp only
    split
    · rename_i hu
      cases hat : (s.finds i).names[(s.finds i).pos]? with
      | none => exact ⟨rfl, rfl, rfl, fun _ _ => rfl⟩
      | some name =>
        refine absurd ?_ (h (s.finds i).dir name ((s.finds i).names.drop ((s.finds i).pos + 1)))
        obtain ⟨hlt, rfl⟩ := List.getElem?_eq_some_iff.1 hat
        rw [Sys.left, hi, Option.bind_some, Find.left, if_pos hu, List.drop_eq_getElem_cons hlt]
    · exact ⟨rfl, rfl, rfl, fun _ _ => rfl⟩

theorem findNext_other {s : Sys} (w : World) (data : U32) (hne : other ≠ hnd) :
    (findNext w s hnd data).2.left other = s.left other := by
  by_cases h : ∃ dir name rest, s.left hnd = some (dir, name :: rest)
  · obtain ⟨dir, name, rest, h⟩ := h
    rw [(findNext_some w data h).2.1, Function.update_of_ne hne]
  · simp only [not_exists] at h
    rw [(findNext_none w data h).2.1]

theorem findClose_left (s : Sys) (hnd : U32) :
    (findClose s hnd).2.left = Function.update s.left hnd none := by
  unfold findClose
  cases hi : slotOf hnd with
  | none =>
    refine (Function.update_eq_self_iff.2 ?_).symm
    rw [Sys.left, hi, Option.bind_none]
  | some i =>
    dsimp only
    split
    · exact left_setFind hi
    · rename_i hu
      refine (Function.update_eq_self_iff.2 ?_).symm
      rw [Sys.left, hi, Option.bind_some, Find.left, if_neg hu]

/-- Why a search does not begin. -/
inductive Refused (w : World) (s : Sys) (real : Option (List Byte)) : Prop
  | path (h : real = none)
  | dir (h : real = some r) (hl : w.list (splitPattern r).1 = none)
  | full (h : ∀ i, (s.finds i).inUse)
  | empty (h : real = some r) (hl : w.list (splitPattern r).1 = some entries)
      (hm : ∀ name ∈ entries, w.fnmatch (splitPattern r).2 name.1 = false)

/-- A search that begins has a handle that no other has, and delivers the first of its names. -/
structure Begun (w : World) (s s' : Sys) (real : Option (List Byte)) (data hnd : U32)
    (dir : List Byte) (name : Name) (rest : List Name) : Prop where
  matched : ∃ r entries, real = some r ∧ dir = (splitPattern r).1 ∧ w.list dir = some entries ∧
    entries.filter (fun name => w.fnmatch (splitPattern r).2 name.1) = name :: rest
  fresh : s.left hnd = none
  left : s'.left = Function.update s.left hnd (some (dir, rest))
  mem : s'.mem = writeFindData w s.mem data dir name

theorem freeSlot_none {s : Sys} (h : freeSlot s = none) : ∀ i, (s.finds i).inUse := by
  intro i
  simpa using List.find?_eq_none.1 h i (List.mem_finRange i)

theorem freeSlot_some {s : Sys} (h : freeSlot s = some i) : (s.finds i).inUse = false := by
  simpa using List.find?_some h

theorem left_unused {s : Sys} (h : (s.finds i).inUse = false) : s.left (handleOf i) = none := by
  rw [Sys.left, slotOf_handleOf, Option.bind_some, Find.left, h, if_neg Bool.false_ne_true]

theorem findFirst_cases {s : Sys} (w : World) (is64 : Bool) (real : Option (List Byte))
    (data : U32) :
    (Refused w s real ∧ (findFirst w is64 s real data).1 = invalid is64 ∧
      (findFirst w is64 s real data).2.left = s.left ∧
      (findFirst w is64 s real data).2.mem = s.mem) ∨
    ∃ i dir name rest, (findFirst w is64 s real data).1 = (handleOf i).setWidth 64 ∧
      Begun w s (findFirst w is64 s real data).2 real data (handleOf i) dir name rest := by
  unfold findFirst
  cases real with
  | none => exact .inl ⟨.path rfl, rfl, rfl, rfl⟩
  | some r =>
    dsimp only
    cases hl : w.list (splitPattern r).1 with
    | none => exact .inl ⟨.dir rfl hl, rfl, rfl, rfl⟩
    | some entries =>
      dsimp only
      cases hs : freeSlot s with
      | none => exact .inl ⟨.full (freeSlot_none hs), rfl, rfl, rfl⟩
      | some i =>
        have hunused := left_unused (freeSlot_some hs)
        have hset := fun f => left_setFind (s := s) (f := f) (slotOf_handleOf i)
        dsimp only
        cases hm : entries.filter fun name => w.fnmatch (splitPattern r).2 name.1 with
        | nil =>
          refine .inl ⟨.empty rfl hl fun name hmem => ?_, rfl, (hset _).trans ?_, rfl⟩
          · simpa using List.filter_eq_nil_iff.1 hm name hmem
          · exact Function.update_eq_self_iff.2 hunused.symm
        | cons name rest =>
          exact .inr ⟨i, _, name, rest, rfl, ⟨r, entries, rfl, rfl, hl, hm⟩, hunused, hset _, rfl⟩

theorem handle_ne_invalid (i : Fin 64) (is64 : Bool) : (handleOf i).setWidth 64 ≠ invalid is64 := by
  revert i is64
  decide

/-- A search begins unless there is a reason. -/
theorem refused_iff {s : Sys} (w : World) (is64 : Bool) (real : Option (List Byte)) (data : U32) :
    (findFirst w is64 s real data).1 = invalid is64 ↔ Refused w s real := by
  rcases findFirst_cases w is64 real data with ⟨href, hret, -⟩ | ⟨i, dir, name, rest, hret, hb⟩
  · exact iff_of_true hret href
  refine iff_of_false (hret ▸ handle_ne_invalid i is64) fun href => ?_
  obtain ⟨r, entries, rfl, rfl, hl, hm⟩ := hb.matched
  cases href with
  | path h => cases h
  | dir h hl' =>
    obtain rfl := Option.some.inj h
    rw [hl] at hl'
    cases hl'
  | full h =>
    have hfresh := hb.fresh
    rw [Sys.left, slotOf_handleOf, Option.bind_some, Find.left, if_pos (h i)] at hfresh
    cases hfresh
  | empty h hl' hno =>
    obtain rfl := Option.some.inj h
    obtain rfl := Option.some.inj (hl.symm.trans hl')
    have hmem : name ∈ entries.filter fun name => w.fnmatch (splitPattern _).2 name.1 :=
      hm ▸ List.mem_cons_self
    obtain ⟨hin, hyes⟩ := List.mem_filter.1 hmem
    rw [hno name hin] at hyes
    cases hyes

-- ---------------------------------------------------------------------------
-- Runs
-- ---------------------------------------------------------------------------

/-- Whether it asks for the next name of `hnd`. -/
def Action.asks (hnd : U32) : Action → Bool
  | .next _ h _ => h == hnd
  | _ => false

/-- What leaves the search as it is, or takes a name of it. -/
theorem step_left {s : Sys} (h : s.left hnd = some (dir, names)) (hclose : a ≠ .close hnd) :
    (step s a).2.left hnd = some (dir, names.drop (if a.asks hnd then 1 else 0)) := by
  cases a with
  | first w is64 real data =>
    rcases findFirst_cases (s := s) w is64 real data with
      ⟨-, -, hl, -⟩ | ⟨i, dir', name, rest, -, hb⟩
    · exact (congrFun hl hnd).trans h
    · have hne : hnd ≠ handleOf i := by
        rintro rfl
        rw [hb.fresh] at h
        cases h
      exact (congrFun hb.left hnd).trans ((Function.update_of_ne hne _ _).trans h)
  | next w hnd' data =>
    by_cases heq : hnd' = hnd
    · subst heq
      have hasks : (Action.next w hnd' data).asks hnd' = true := beq_self_eq_true _
      rw [hasks, if_pos rfl]
      cases names with
      | nil =>
        obtain ⟨-, hl, -⟩ := findNext_none (s := s) w data fun _ _ _ h' => by
          rw [h] at h'
          cases h'
        exact (congrFun hl hnd').trans h
      | cons name rest =>
        obtain ⟨-, hl, -⟩ := findNext_some w data h
        exact (congrFun hl hnd').trans (Function.update_self ..)
    · have hasks : (Action.next w hnd' data).asks hnd = false := beq_eq_false_iff_ne.2 heq
      rw [hasks, if_neg Bool.false_ne_true]
      exact (findNext_other w data (Ne.symm heq)).trans h
  | close hnd' =>
    have hne : hnd ≠ hnd' := fun heq => hclose (heq ▸ rfl)
    exact (congrFun (findClose_left s hnd') hnd).trans ((Function.update_of_ne hne _ _).trans h)
  | poke m => exact h

/-- How many names of `hnd` are asked for. -/
def asked (hnd : U32) (as : List Action) : Nat := as.countP fun a => a.asks hnd

theorem run_left {s : Sys} (as : List Action) (h : s.left hnd = some (dir, names))
    (hclose : ∀ a ∈ as, a ≠ .close hnd) :
    (run s as).left hnd = some (dir, names.drop (asked hnd as)) := by
  induction as generalizing s names with
  | nil => exact h
  | cons a as ih =>
    obtain ⟨ha, has⟩ := List.forall_mem_cons.1 hclose
    have hrest := ih (step_left h ha) has
    rw [List.drop_drop] at hrest
    rw [run, List.foldl_cons, asked, List.countP_cons, Nat.add_comm]
    exact hrest

theorem writeFindData_read (w : World) (m : Mem) (dir : List Byte) (name : Name) (h : data ≠ 0) :
    readRecord (writeFindData w m data dir name) data.toNat =
      record (w.stat (full dir name)) name := by
  rw [writeFindData, if_neg h, record_read]

/-- What a search that began delivers: the names that matched then, the first of them at once and
each of the others to a call of its own, and then no more. -/
structure Delivers (s : Sys) (hnd : U32) (data : U32) (w : World) (dir : List Byte) (name : Name)
    (rest : List Name) : Prop where
  first : data ≠ 0 → readRecord s.mem data.toNat = record (w.stat (full dir name)) name
  next : ∀ as, (∀ a ∈ as, a ≠ .close hnd) → ∀ nm, rest[asked hnd as]? = some nm → ∀ w' data',
    (findNext w' (run s as) hnd data').1 = 1 ∧ (data' ≠ 0 →
      readRecord (findNext w' (run s as) hnd data').2.mem data'.toNat =
        record (w'.stat (full dir nm)) nm)
  last : ∀ as, (∀ a ∈ as, a ≠ .close hnd) → rest.length ≤ asked hnd as → ∀ w' data',
    (findNext w' (run s as) hnd data').1 = 0 ∧
      (findNext w' (run s as) hnd data').2.lastError = 18 ∧
      (findNext w' (run s as) hnd data').2.mem = (run s as).mem

/-- A call of FindFirstFile is refused for one of four reasons. Otherwise its handle is no other
search's, and whatever calls come between, it delivers the names that matched at the time. -/
theorem search_law (w : World) (is64 : Bool) (s : Sys) (real : Option (List Byte)) (data : U32) :
    ((findFirst w is64 s real data).1 = invalid is64 ↔ Refused w s real) ∧
    (¬ Refused w s real → ∃ i dir name rest,
      (findFirst w is64 s real data).1 = (handleOf i).setWidth 64 ∧
      Begun w s (findFirst w is64 s real data).2 real data (handleOf i) dir name rest ∧
      Delivers (findFirst w is64 s real data).2 (handleOf i) data w dir name rest) := by
  refine ⟨refused_iff w is64 real data, fun hok => ?_⟩
  rcases findFirst_cases w is64 real data with ⟨href, -⟩ | ⟨i, dir, name, rest, hret, hb⟩
  · exact absurd href hok
  have hleft : (findFirst w is64 s real data).2.left (handleOf i) = some (dir, rest) := by
    rw [hb.left, Function.update_self]
  refine ⟨i, dir, name, rest, hret, hb, ⟨fun hdata => ?_, fun as hclose nm hnm w' data' => ?_,
    fun as hclose hlen w' data' => ?_⟩⟩
  · rw [hb.mem, writeFindData_read w _ _ _ hdata]
  · obtain ⟨hlt, rfl⟩ := List.getElem?_eq_some_iff.1 hnm
    have hrun := run_left as hleft hclose
    rw [List.drop_eq_getElem_cons hlt] at hrun
    obtain ⟨hone, -, hmem⟩ := findNext_some w' data' hrun
    exact ⟨hone, fun hdata => by rw [hmem, writeFindData_read w' _ _ _ hdata]⟩
  · have hrun := run_left as hleft hclose
    rw [List.drop_eq_nil_of_le hlen] at hrun
    obtain ⟨hzero, -, hmem, herr⟩ := findNext_none w' data' fun _ _ _ h => by
      rw [hrun] at h
      cases h
    exact ⟨hzero, herr _ hrun, hmem⟩

end WineGlass.Searches
