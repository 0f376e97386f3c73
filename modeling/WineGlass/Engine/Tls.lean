import WineGlass.Coop.Slots
import WineGlass.Lib.Bits

/-!
# Thread-local and fiber-local storage

32 rows of 32-bit cells. In cooperative mode a thread's row is its slot in the
scheduler. In real-threads mode a pthread draws one of rows 1 to 31 and gives it
back when it exits; whoever finds none free, and every cooperative thread, works
on row 0, the main thread's. No row is ever cleared. Thread 0 is the main thread;
`row` is where each live thread's values are.
-/

namespace WineGlass.Tls

open Runs Coop

inductive Kind
  | tls | fls
  deriving DecidableEq, Repr

inductive Mode
  | real | cooperative
  deriving DecidableEq, Repr

/-- `s_tls_slots` and `s_fls_slots`, `s_tls_slot_used`, how many of the scheduler's
slots are taken, and the threads. -/
structure State where
  cells : Kind → Slot → Nat → U32
  used : Slot → Bool
  taken : Nat
  row : Nat → Option Slot
  started : Nat

local instance slots_pos : NeZero 32 := ⟨Nat.succ_ne_zero 31⟩

def State.init : State where
  cells _ _ _ := 0
  used _ := false
  taken := 1
  row t := if t = 0 then some 0 else none
  started := 1

/-- Slots a row has. -/
def slotCount : Nat := 1088

-- ---------------------------------------------------------------------------
-- Rows
-- ---------------------------------------------------------------------------

def allocTlsSlot (s : State) : Slot × State :=
  match (List.finRange 32).find? fun i => i != 0 && !s.used i with
  | some i => (i, { s with used := Function.update s.used i true })
  | none => (0, s)

def freeTlsSlot (s : State) (i : Slot) : State :=
  if i = 0 then s else { s with used := Function.update s.used i false }

/-- The slot `wg_sched_create_thread` takes when `taken` are. -/
def nextSlot (taken : Nat) : Option Slot :=
  if h : taken < 32 then some ⟨taken, h⟩ else none

/-- A cooperative thread's row. When the scheduler is full some handlers run the
start routine in place, on the thread `t` that called them. -/
def coopRow (mode : Mode) (s : State) (t : Nat) (inPlace : Bool) : Option Slot × State :=
  match nextSlot s.taken with
  | some i => (some (if mode = .real then 0 else i), { s with taken := s.taken + 1 })
  | none => (if inPlace then s.row t else none, s)

/-- What brings a thread up: `CreateThread`, which in real-threads mode first tries
for a machine and a pthread of its own, or one of `_beginthreadex`, `_beginthread`,
`QueueUserWorkItem` and `SubmitThreadpoolWork`. -/
inductive Start
  | createThread (machine pthread inPlace : Bool)
  | coopThread (inPlace : Bool)
  deriving DecidableEq, Repr

def startRow (mode : Mode) (s : State) (t : Nat) : Start → Option Slot × State
  | .createThread machine pthread inPlace =>
    if mode = .real ∧ machine then
      let (i, s') := allocTlsSlot s
      -- The row of a pthread that was not made stays taken.
      if pthread then (some i, s') else coopRow mode s' t inPlace
    else coopRow mode s t inPlace
  | .coopThread inPlace => coopRow mode s t inPlace

-- ---------------------------------------------------------------------------
-- Handlers
-- ---------------------------------------------------------------------------

/-- `TlsGetValue` and `FlsGetValue` on row `i`. -/
def getValue (s : State) (k : Kind) (i : Slot) (slot : Nat) : U64 :=
  if slot < slotCount then (s.cells k i slot).setWidth 64 else 0

/-- `TlsSetValue` and `FlsSetValue` on row `i`. -/
def setValue (s : State) (k : Kind) (i : Slot) (slot : Nat) (v : U64) : State :=
  if slot < slotCount then
    { s with cells := fun k' i' slot' =>
        if k' = k ∧ i' = i ∧ slot' = slot then v.setWidth 32 else s.cells k' i' slot' }
  else s

def exitThread (mode : Mode) (s : State) (t : Nat) (i : Slot) : State :=
  let s := if mode = .real then freeTlsSlot s i else s
  { s with row := Function.update s.row t none }

inductive Action
  | start (t : Nat) (how : Start)
  | exit (t : Nat)
  | set (k : Kind) (t slot : Nat) (v : U64)
  | get (k : Kind) (t slot : Nat)
  deriving DecidableEq, Repr

def startThread (mode : Mode) (s : State) (t : Nat) (how : Start) : State :=
  let (i, s) := startRow mode s t how
  match i with
  | none => s
  | some i => { s with row := Function.update s.row s.started (some i), started := s.started + 1 }

/-- A live thread acts; the label is what the call returns. -/
def step (mode : Mode) (s : State) : Action → Option (State × U64)
  | .start t how => (s.row t).map fun _ => (startThread mode s t how, 0)
  | .exit t => if t = 0 then none else (s.row t).map fun i => (exitThread mode s t i, 0)
  | .set k t slot v => (s.row t).map fun i => (setValue s k i slot v, 1)
  | .get k t slot => (s.row t).map fun i => (s, getValue s k i slot)

-- ---------------------------------------------------------------------------
-- Isolation
-- ---------------------------------------------------------------------------

/-- What the thread `t` last put in the slot. -/
def lastSet (k : Kind) (t slot : Nat) (tr : List (Action × U64)) : U64 :=
  tr.foldl (fun v x => match x.1 with
    | .set k' t' slot' v' => if k' = k ∧ t' = t ∧ slot' = slot then v' else v
    | _ => v) 0

/-- Whatever a thread reads is what that thread last set. -/
def Isolated (tr : List (Action × U64)) : Prop :=
  ∀ before k t slot v after, tr = before ++ (.get k t slot, v) :: after →
    v = lastSet k t slot before

/-- No live thread works on the row and nothing is left in it. -/
def Clean (s : State) (i : Slot) : Prop :=
  (∀ t, s.row t ≠ some i) ∧ ∀ k slot, s.cells k i slot = 0

/-- A thread starts on a clean row, and a set value fits the cell it goes to. -/
def Faithful (mode : Mode) (s : State) : Action → Prop
  | .start t how => ∀ i, (startRow mode s t how).1 = some i → Clean s i
  | .set _ _ slot v => v.toNat < 2 ^ 32 ∧ (slot < slotCount ∨ v = 0)
  | _ => True

@[simp] theorem lastSet_nil : lastSet k t slot [] = 0 := rfl

@[simp] theorem lastSet_snoc : lastSet k t slot (tr ++ [(a, r)]) = match a with
    | .set k' t' slot' v' => if k' = k ∧ t' = t ∧ slot' = slot then v' else lastSet k t slot tr
    | _ => lastSet k t slot tr := by
  simp only [lastSet, List.foldl_append, List.foldl_cons, List.foldl_nil]

theorem Isolated.snoc (h : Isolated tr)
    (hr : ∀ k t slot, a = .get k t slot → r = lastSet k t slot tr) : Isolated (tr ++ [(a, r)]) := by
  intro before k t slot v after he
  cases after using List.reverseRecOn with
  | nil =>
    obtain ⟨rfl, hlast⟩ := List.append_inj' he rfl
    simp only [List.cons.injEq, Prod.mk.injEq, and_true] at hlast
    obtain ⟨rfl, rfl⟩ := hlast
    exact hr k t slot rfl
  | append_singleton after x =>
    rw [← List.cons_append, ← List.append_assoc] at he
    obtain ⟨rfl, -⟩ := List.append_inj' he rfl
    exact h before k t slot v after rfl

-- ---------------------------------------------------------------------------
-- What the operations change
-- ---------------------------------------------------------------------------

/-- The values are left alone, and who works where. -/
def SameRows (s s' : State) : Prop :=
  s'.cells = s.cells ∧ s'.row = s.row ∧ s'.started = s.started

theorem SameRows.trans (h : SameRows s s') (h' : SameRows s' s'') : SameRows s s'' :=
  ⟨h'.1.trans h.1, h'.2.1.trans h.2.1, h'.2.2.trans h.2.2⟩

theorem allocTlsSlot_same (s : State) : SameRows s (allocTlsSlot s).2 := by
  unfold allocTlsSlot
  split <;> exact ⟨rfl, rfl, rfl⟩

theorem freeTlsSlot_same (s : State) (i : Slot) : SameRows s (freeTlsSlot s i) := by
  unfold freeTlsSlot
  split <;> exact ⟨rfl, rfl, rfl⟩

theorem coopRow_same (mode : Mode) (s : State) (t : Nat) (inPlace : Bool) :
    SameRows s (coopRow mode s t inPlace).2 := by
  unfold coopRow
  split <;> exact ⟨rfl, rfl, rfl⟩

theorem startRow_same (mode : Mode) (s : State) (t : Nat) (how : Start) :
    SameRows s (startRow mode s t how).2 := by
  have ha := allocTlsSlot_same s
  cases how with
  | createThread machine pthread inPlace =>
    simp only [startRow]
    split
    · split
      · exact ha
      · exact ha.trans (coopRow_same ..)
    · exact coopRow_same ..
  | coopThread inPlace => exact coopRow_same ..

/-- A start changes nothing of this, or gives the next thread a row. -/
theorem startThread_cases (mode : Mode) (s : State) (t : Nat) (how : Start) :
    SameRows s (startThread mode s t how) ∨
    ∃ i, (startRow mode s t how).1 = some i ∧
      (startThread mode s t how).cells = s.cells ∧
      (startThread mode s t how).row = Function.update s.row s.started (some i) ∧
      (startThread mode s t how).started = s.started + 1 := by
  obtain ⟨hcells, hrow, hstarted⟩ := startRow_same mode s t how
  unfold startThread
  dsimp only
  split
  · exact .inl ⟨hcells, hrow, hstarted⟩
  · rename_i i hi
    exact .inr ⟨i, hi, hcells, by rw [hrow, hstarted], by rw [hstarted]⟩

theorem exitThread_cells (mode : Mode) (s : State) (t : Nat) (i : Slot) :
    (exitThread mode s t i).cells = s.cells ∧ (exitThread mode s t i).started = s.started ∧
      (exitThread mode s t i).row = Function.update s.row t none := by
  unfold exitThread
  split
  · obtain ⟨hcells, hrow, hstarted⟩ := freeTlsSlot_same s i
    exact ⟨hcells, hstarted, congrArg (Function.update · t none) hrow⟩
  · exact ⟨rfl, rfl, rfl⟩

theorem setValue_rows (s : State) (k : Kind) (i : Slot) (slot : Nat) (v : U64) :
    (setValue s k i slot v).row = s.row ∧ (setValue s k i slot v).started = s.started := by
  unfold setValue
  split <;> exact ⟨rfl, rfl⟩

theorem setValue_cells : (setValue s k i slot v).cells k' i' slot' =
    if slot < slotCount ∧ k' = k ∧ i' = i ∧ slot' = slot then v.setWidth 32
    else s.cells k' i' slot' := by
  unfold setValue
  split <;> simp [*]

/-- A value that fits its cell is read back there, and no other cell changes. -/
theorem getValue_setValue (hv : v.toNat < 2 ^ 32) (hslot : slot < slotCount ∨ v = 0) :
    getValue (setValue s k i slot v) k' i' slot' =
      if k = k' ∧ i = i' ∧ slot = slot' then v else getValue s k' i' slot' := by
  have hback : (v.setWidth 32).setWidth 64 = v := Bits.narrow_lt hv
  simp only [getValue, setValue_cells]
  by_cases hhere : k = k' ∧ i = i' ∧ slot = slot'
  · obtain ⟨rfl, rfl, rfl⟩ := hhere
    rcases hslot with hlt | rfl
    · simp [hlt, hback]
    · simp +contextual
  · have hthere : ¬ (k' = k ∧ i' = i ∧ slot' = slot) := fun ⟨h1, h2, h3⟩ =>
      hhere ⟨h1.symm, h2.symm, h3.symm⟩
    simp [hhere, hthere]

-- ---------------------------------------------------------------------------
-- The invariant
-- ---------------------------------------------------------------------------

/-- Live threads work on rows of their own, each of which holds what its thread
last set; a thread to come has set nothing. -/
structure Inv (tr : List (Action × U64)) (s : State) : Prop where
  own : ∀ t u i, s.row t = some i → s.row u = some i → t = u
  value : ∀ k t slot i, s.row t = some i → getValue s k i slot = lastSet k t slot tr
  fresh : ∀ k t slot, s.started ≤ t → s.row t = none ∧ lastSet k t slot tr = 0
  isolated : Isolated tr

theorem init_inv : Inv [] .init where
  own t u i ht hu := by
    simp only [State.init, Option.ite_none_right_eq_some] at ht hu
    exact ht.1.trans hu.1.symm
  value k t slot i _ := by simp [getValue, State.init]
  fresh k t slot ht := ⟨if_neg (Nat.ne_of_gt ht), rfl⟩
  isolated before k t slot v after he := by simp at he

theorem getValue_congr (hc : s'.cells = s.cells) : getValue s' k i slot = getValue s k i slot := by
  simp only [getValue, hc]

theorem getValue_clean (hc : ∀ k slot, s.cells k i slot = 0) : getValue s k i slot = 0 := by
  simp [getValue, hc]

theorem Inv.same (h : Inv tr s) (hs : SameRows s s') (hset : ∀ k t slot,
    lastSet k t slot (tr ++ [x]) = lastSet k t slot tr) (hi : Isolated (tr ++ [x])) :
    Inv (tr ++ [x]) s' := by
  obtain ⟨hcells, hrow, hstarted⟩ := hs
  refine ⟨?_, ?_, ?_, hi⟩
  · rw [hrow]
    exact h.own
  · intro k t slot i ht
    rw [hset, getValue_congr hcells]
    exact h.value k t slot i (hrow ▸ ht)
  · intro k t slot ht
    rw [hset, hrow]
    exact h.fresh k t slot (hstarted ▸ ht)

theorem Inv.start (h : Inv tr s) (hok : Faithful mode s (.start t how)) :
    Inv (tr ++ [(.start t how, r)]) (startThread mode s t how) := by
  have hiso := h.isolated.snoc (a := .start t how) (r := r) nofun
  obtain hs | ⟨i, hi, hcells, hrow, hstarted⟩ := startThread_cases mode s t how
  · exact h.same hs (fun k t slot => by simp) hiso
  obtain ⟨hfree, hzero⟩ := hok i hi
  refine ⟨?_, ?_, ?_, hiso⟩
  · rintro u w j hu hw
    rw [hrow] at hu hw
    obtain ⟨rfl, hj⟩ | ⟨-, hu⟩ := update_cases hu <;>
      obtain ⟨rfl, hj'⟩ | ⟨-, hw⟩ := update_cases hw
    · rfl
    · exact absurd (hw.trans hj.symm) (hfree w)
    · exact absurd (hu.trans hj'.symm) (hfree u)
    · exact h.own u w j hu hw
  · rintro k u slot j hu
    rw [hrow] at hu
    simp only [lastSet_snoc, getValue_congr hcells]
    obtain ⟨rfl, hj⟩ | ⟨-, hu⟩ := update_cases hu
    · cases hj
      rw [getValue_clean hzero, (h.fresh k s.started slot (Nat.le_refl _)).2]
    · exact h.value k u slot j hu
  · intro k u slot hu
    rw [hstarted] at hu
    have hne : u ≠ s.started := Nat.ne_of_gt hu
    simp only [lastSet_snoc, hrow, Function.update_of_ne hne]
    exact h.fresh k u slot (Nat.le_of_succ_le hu)

theorem Inv.exit (h : Inv tr s) : Inv (tr ++ [(.exit t, r)]) (exitThread mode s t i) := by
  obtain ⟨hcells, hstarted, hrow⟩ := exitThread_cells mode s t i
  have hold : ∀ {u j}, (exitThread mode s t i).row u = some j → s.row u = some j := by
    rintro u j hu
    rw [hrow] at hu
    obtain ⟨-, hu⟩ | ⟨-, hu⟩ := update_cases hu
    · cases hu
    · exact hu
  refine ⟨fun u w j hu hw => h.own u w j (hold hu) (hold hw), ?_, ?_, h.isolated.snoc nofun⟩
  · intro k u slot j hu
    simp only [lastSet_snoc, getValue_congr hcells]
    exact h.value k u slot j (hold hu)
  · intro k u slot hu
    rw [hstarted] at hu
    have hf := h.fresh k u slot hu
    simp only [lastSet_snoc, hrow]
    refine ⟨?_, hf.2⟩
    by_cases hut : u = t
    · subst hut
      exact Function.update_self ..
    · rw [Function.update_of_ne hut]
      exact hf.1

theorem Inv.set (h : Inv tr s) (ht : s.row t = some i) (hok : Faithful mode s (.set k t slot v)) :
    Inv (tr ++ [(.set k t slot v, r)]) (setValue s k i slot v) := by
  obtain ⟨hrow, hstarted⟩ := setValue_rows s k i slot v
  refine ⟨?_, ?_, ?_, h.isolated.snoc nofun⟩
  · rw [hrow]
    exact h.own
  · intro k' u slot' j hu
    rw [hrow] at hu
    have hsame : i = j ↔ t = u := by
      constructor
      · rintro rfl
        exact h.own t u i ht hu
      · rintro rfl
        exact Option.some.inj (ht.symm.trans hu)
    simp only [lastSet_snoc, getValue_setValue hok.1 hok.2, hsame, h.value k' u slot' j hu]
  · intro k' u slot' hu
    rw [hstarted] at hu
    obtain ⟨hnone, hzero⟩ := h.fresh k' u slot' hu
    have htu : t ≠ u := by
      rintro rfl
      simp [hnone] at ht
    simp [hrow, hnone, hzero, htu]

theorem step_inv (h : Inv tr s) (hok : Faithful mode s a) (hs : step mode s a = some (s', r)) :
    Inv (tr ++ [(a, r)]) s' := by
  cases a with
  | start t how =>
    simp only [step, Option.map_eq_some_iff, Prod.mk.injEq] at hs
    obtain ⟨i, -, rfl, rfl⟩ := hs
    exact h.start hok
  | exit t =>
    simp only [step, Option.ite_none_left_eq_some, Option.map_eq_some_iff, Prod.mk.injEq] at hs
    obtain ⟨-, i, -, rfl, rfl⟩ := hs
    exact h.exit
  | set k t slot v =>
    simp only [step, Option.map_eq_some_iff, Prod.mk.injEq] at hs
    obtain ⟨i, ht, rfl, rfl⟩ := hs
    exact h.set ht hok
  | get k t slot =>
    simp only [step, Option.map_eq_some_iff, Prod.mk.injEq] at hs
    obtain ⟨i, ht, rfl, rfl⟩ := hs
    refine h.same ⟨rfl, rfl, rfl⟩ (fun k t slot => by simp) (h.isolated.snoc ?_)
    rintro k t slot ⟨⟩
    exact h.value k t slot i ht

/-- In every run in which each thread starts on a clean row and each value set fits
its cell, a thread reads what it last set. -/
theorem tls_law (h : Run (step mode) (Faithful mode) .init tr s) : Isolated tr :=
  (h.invariant init_inv step_inv).isolated

theorem tls_law_two : ∃ tr s, Run (step .real) (Faithful .real) .init tr s ∧ Isolated tr ∧
    tr.getLast? = some (.get .tls 1 5, 0x1234) := by
  have hclean : Clean .init (1 : Slot) :=
    ⟨fun t ht => absurd (Option.ite_none_right_eq_some.1 ht).2 (by decide), fun _ _ => rfl⟩
  have hstart : Faithful .real .init (.start 0 (.createThread true true false)) := by
    rintro i hi
    obtain rfl : (1 : Slot) = i := Option.some.inj hi
    exact hclean
  have hfits : ∀ s t, Faithful .real s (.set .tls t 5 0x1234) := fun _ _ => by
    simp only [Faithful]
    decide
  have hget : ∀ s t, Faithful .real s (.get .tls t 5) := fun _ _ => trivial
  have hr : Run (step .real) (Faithful .real) .init _ _ :=
    .snoc (.snoc (.snoc .nil hstart rfl) (hfits _ 1) rfl) (hget _ 1) rfl
  exact ⟨_, _, hr, tls_law hr, rfl⟩

/-- A pthread's row goes to the next one with what the first left there. -/
theorem recycled_row_leaks :
    ¬ ∀ mode tr s, Run (step mode) anyStep .init tr s → Isolated tr := by
  intro hall
  have hexec : (exec (step .real) anyStep .init [.start 0 (.createThread true true false),
      .set .tls 1 5 7, .exit 1, .start 0 (.createThread true true false), .get .tls 2 5]).any
        (fun r => decide (r.1.getLast? = some (.get .tls 2 5, 7) ∧ lastSet .tls 2 5 r.1 = 0)) =
          true := by
    decide
  obtain ⟨tr, s, hr, hp⟩ := Run.of_exec_any hexec
  obtain ⟨hlast, hzero⟩ := of_decide_eq_true hp
  obtain ⟨before, rfl⟩ := List.getLast?_eq_some_iff.1 hlast
  have h := hall .real _ s hr before .tls 2 5 7 [] rfl
  rw [lastSet_snoc] at hzero
  exact absurd (h.trans hzero) (by decide)

-- ---------------------------------------------------------------------------
-- Cooperative mode
-- ---------------------------------------------------------------------------

/-- The slot the scheduler gives is the one `coopRow` is told. -/
theorem nextSlot_freeSlot (h : Numbered e k) : nextSlot (k + 1) = e.freeSlot := by
  unfold nextSlot
  split
  · rename_i hk
    exact (h.freeSlot hk).symm
  · have hk : k = 31 := Nat.le_antisymm (Nat.le_of_lt_succ h.lt) (by omega)
    subst hk
    exact h.full.symm

def Start.inPlace : Start → Bool
  | .createThread _ _ inPlace => inPlace
  | .coopThread inPlace => inPlace

/-- No start routine runs in place for want of a slot, and a value fits its cell. -/
def Fits (s : State) : Action → Prop
  | .start _ how => s.taken < 32 ∨ how.inPlace = false
  | .set _ _ slot v => v.toNat < 2 ^ 32 ∧ (slot < slotCount ∨ v = 0)
  | _ => True

/-- The rows of the slots not taken are as they were at first. -/
structure Unused (s : State) : Prop where
  row : ∀ t i, s.row t = some i → i.val < s.taken
  cell : ∀ k i slot, s.taken ≤ i.val → s.cells k i slot = 0

theorem startRow_cooperative :
    startRow .cooperative s t how = coopRow .cooperative s t how.inPlace := by
  cases how <;> rfl

theorem coopRow_fits (hok : Fits s (.start t how)) :
    (∃ i : Slot, i.val = s.taken ∧ startRow .cooperative s t how =
      (some i, { s with taken := s.taken + 1 })) ∨ startRow .cooperative s t how = (none, s) := by
  rw [startRow_cooperative]
  unfold coopRow nextSlot
  split
  · rename_i i hi
    simp only [Option.dite_none_right_eq_some, Option.some.injEq] at hi
    obtain ⟨hlt, rfl⟩ := hi
    exact .inl ⟨_, rfl, rfl⟩
  · rename_i hnone
    simp only [dite_eq_right_iff, reduceCtorEq, imp_false, Nat.not_lt] at hnone
    have hno : how.inPlace = false := hok.resolve_left (Nat.not_lt.2 hnone)
    exact .inr (by simp [hno])

theorem Unused.faithful (h : Unused s) (hok : Fits s a) : Faithful .cooperative s a := by
  cases a with
  | start t how =>
    intro i hi
    obtain ⟨j, hj, heq⟩ | heq := coopRow_fits hok
    · rw [heq] at hi
      obtain rfl : j = i := Option.some.inj hi
      exact ⟨fun u hu => Nat.lt_irrefl _ (hj ▸ h.row u j hu), fun k slot => h.cell k j slot hj.ge⟩
    · simp [heq] at hi
  | exit t => trivial
  | set k t slot v => exact hok
  | get k t slot => trivial

theorem Unused.step (h : Unused s) (hok : Fits s a) (hs : step .cooperative s a = some (s', r)) :
    Unused s' := by
  cases a with
  | start t how =>
    simp only [Tls.step, Option.map_eq_some_iff, Prod.mk.injEq, startThread] at hs
    obtain ⟨-, -, rfl, -⟩ := hs
    obtain ⟨j, hj, heq⟩ | heq := coopRow_fits hok
    · rw [heq]
      refine ⟨fun u i hu => ?_, fun k i slot hi => h.cell k i slot (Nat.le_of_succ_le hi)⟩
      obtain ⟨-, hi⟩ | ⟨-, hu⟩ := update_cases hu
      · cases hi
        exact hj ▸ Nat.lt_succ_self _
      · exact Nat.lt_succ_of_lt (h.row u i hu)
    · rw [heq]
      exact h
  | exit t =>
    simp only [Tls.step, Option.ite_none_left_eq_some, Option.map_eq_some_iff, Prod.mk.injEq] at hs
    obtain ⟨-, i, -, rfl, -⟩ := hs
    refine ⟨fun u j hu => ?_, h.cell⟩
    obtain ⟨-, hu⟩ | ⟨-, hu⟩ := update_cases hu
    · cases hu
    · exact h.row u j hu
  | set k t slot v =>
    simp only [Tls.step, Option.map_eq_some_iff, Prod.mk.injEq] at hs
    obtain ⟨i, ht, rfl, -⟩ := hs
    have hi := h.row t i ht
    have htaken : (setValue s k i slot v).taken = s.taken := by
      unfold setValue
      split <;> rfl
    refine ⟨fun u j hu => ?_, fun k' j slot' hj => ?_⟩
    · rw [htaken]
      exact h.row u j ((setValue_rows s k i slot v).1 ▸ hu)
    · rw [htaken] at hj
      have hne : j ≠ i := by
        rintro rfl
        exact Nat.not_lt.2 hj hi
      simp only [setValue_cells, hne, false_and, and_false, ↓reduceIte]
      exact h.cell k' j slot' hj
  | get k t slot =>
    simp only [Tls.step, Option.map_eq_some_iff, Prod.mk.injEq] at hs
    obtain ⟨i, -, rfl, -⟩ := hs
    exact h

theorem init_unused : Unused .init where
  row t i hi := by
    simp only [State.init, Option.ite_none_right_eq_some, Option.some.injEq] at hi
    exact hi.2 ▸ Nat.zero_lt_one
  cell k i slot hi := rfl

/-- In cooperative mode every thread that gets a slot starts on a clean row, so
only the width of the values is left of the condition. -/
theorem cooperative_faithful (h : Run (step .cooperative) Fits .init tr s) :
    Run (step .cooperative) (Faithful .cooperative) .init tr s := by
  refine (h.invariant (P := fun tr s => Run (Tls.step .cooperative) (Faithful .cooperative) .init tr s ∧
    Unused s) ⟨.nil, init_unused⟩ ?_).1
  rintro tr s a s' e ⟨hr, hu⟩ hok hs
  exact ⟨hr.snoc (hu.faithful hok) hs, hu.step hok hs⟩

end WineGlass.Tls
