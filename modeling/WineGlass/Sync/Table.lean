import Mathlib.Logic.Function.Iterate
import WineGlass.Lib.CInt

/-!
# The object table of `wg_sync.c`

`g_objs` is a fixed table of slots; a handle is a base plus the slot index,
so closing an object and creating another may give the same handle again. A
pointer into the table is a slot index. `ident` and `fresh` are not in the
source: they number the objects in creation order, so that two objects that
lived in one slot can be told apart.
-/

namespace WineGlass.Sync

open CInt

def syncMax : Nat := 8192
def syncBase : Nat := 0x00090000

def syncInfinite : Nat := 0xFFFFFFFF
def waitObject0 : Nat := 0x00000000
def waitTimeout : Nat := 0x00000102
def waitFailed : Nat := 0xFFFFFFFF

inductive ObjType
  | free | event | mutex | sem | thread | cv
  deriving DecidableEq, Repr

/-- `WGSyncObj`. The generation of a condition variable is its `count`. -/
structure SyncObj where
  type : ObjType := .free
  handle : Nat := 0
  manual : Bool := false
  signalled : Bool := false
  ownerTid : Nat := 0
  recursion : Int := 0
  count : Int := 0
  max : Int := 0
  exited : Bool := false
  exitCode : Nat := 0
  deriving DecidableEq, Repr

structure Table where
  objs : Nat → SyncObj
  ident : Nat → Nat
  fresh : Nat

/-- What an atomic section does to the objects, as seen from outside. The
second argument of `posted` is the count the release reports as previous. -/
inductive Event
  | created (id : Nat) (o : SyncObj)
  | closed (id : Nat)
  | set (id : Nat)
  | reset (id : Nat)
  | pulsed (id : Nat)
  | kicked (id : Nat)
  | posted (id : Nat) (prev n : Int)
  | woke (id : Nat)
  | acquired (t id : Nat)
  | released (t id : Nat)
  | reacquired (t id : Nat)
  deriving DecidableEq, Repr

/-- `satisfied_locked`. -/
def satisfiedLocked (o : SyncObj) (callerTid : Nat) : Bool :=
  match o.type with
  | .event => o.signalled
  | .mutex => o.ownerTid == 0 || o.ownerTid == callerTid
  | .sem => decide (0 < o.count)
  | .thread => o.exited
  | _ => false

/-- `acquire_locked`. -/
def acquireLocked (o : SyncObj) (callerTid : Nat) : SyncObj :=
  match o.type with
  | .event => if o.manual then o else { o with signalled := false }
  | .mutex => { o with ownerTid := callerTid, recursion := cInt (o.recursion + 1) }
  | .sem => { o with count := cLong (o.count - 1) }
  | _ => o

namespace Table

/-- `memset(g_objs, 0, sizeof(g_objs))`. -/
def init : Table := { objs := fun _ => {}, ident := fun _ => 0, fresh := 0 }

/-- A store through the pointer to slot `i`. -/
def modify (T : Table) (i : Nat) (f : SyncObj → SyncObj) : Table :=
  { T with objs := Function.update T.objs i (f (T.objs i)) }

/-- A new object in slot `i`. -/
def put (T : Table) (i : Nat) (o : SyncObj) : Table :=
  { objs := Function.update T.objs i o
    ident := Function.update T.ident i T.fresh
    fresh := T.fresh + 1 }

@[simp] theorem modify_self (T : Table) : (T.modify i f).objs i = f (T.objs i) := by simp [modify]
theorem modify_ne (T : Table) (h : j ≠ i) : (T.modify i f).objs j = T.objs j := by simp [modify, h]
@[simp] theorem modify_ident (T : Table) : (T.modify i f).ident = T.ident := rfl
@[simp] theorem modify_fresh (T : Table) : (T.modify i f).fresh = T.fresh := rfl
@[simp] theorem put_self (T : Table) : (T.put i o).objs i = o := by simp [put]
theorem put_ne (T : Table) (h : j ≠ i) : (T.put i o).objs j = T.objs j := by simp [put, h]
@[simp] theorem put_ident_self (T : Table) : (T.put i o).ident i = T.fresh := by simp [put]
theorem put_ident_ne (T : Table) (h : j ≠ i) : (T.put i o).ident j = T.ident j := by simp [put, h]
@[simp] theorem put_fresh (T : Table) : (T.put i o).fresh = T.fresh + 1 := rfl

/-- The scan of `alloc_obj_locked`, from slot `i` with `n` slots left. -/
def firstFree (g : Nat → SyncObj) : Nat → Nat → Option Nat
  | _, 0 => none
  | i, n + 1 => if (g i).type = .free then some i else firstFree g (i + 1) n

/-- `alloc_obj_locked`, with the stores its caller makes to the new object. -/
def allocObjLocked (T : Table) (ty : ObjType) (set : SyncObj → SyncObj) : Option (Nat × Table) :=
  (firstFree T.objs 0 syncMax).map fun i =>
    (i, T.put i (set { type := ty, handle := syncBase + i }))

/-- `find_locked`. -/
def findLocked (T : Table) (h : Nat) : Option Nat :=
  if h < syncBase ∨ syncBase + syncMax ≤ h then none
  else
    let o := T.objs (h - syncBase)
    if o.type ≠ .free ∧ o.handle = h then some (h - syncBase) else none

/-- The acquire loop of a wait, over the slots it takes. -/
def acquireAll (T : Table) (t : Nat) : List Nat → Table
  | [] => T
  | i :: is => acquireAll (T.modify i (acquireLocked · t)) t is

/-- Slots whose objects are live and known by the right handle, numbered
apart: what every table the program reaches looks like. -/
structure Wf (T : Table) : Prop where
  handle : (T.objs i).type ≠ .free → i < syncMax ∧ (T.objs i).handle = syncBase + i
  identLt : (T.objs i).type ≠ .free → T.ident i < T.fresh
  identInj : (T.objs i).type ≠ .free → (T.objs j).type ≠ .free → T.ident i = T.ident j → i = j

theorem init_wf : Wf init :=
  ⟨fun h => absurd rfl h, fun h => absurd rfl h, fun h => absurd rfl h⟩

theorem firstFree_some {g : Nat → SyncObj} (h : firstFree g i n = some j) :
    i ≤ j ∧ j < i + n ∧ (g j).type = .free := by
  induction n generalizing i with
  | zero => cases h
  | succ n ih =>
    simp only [firstFree] at h
    split at h
    · cases h
      exact ⟨Nat.le_refl _, by omega, by assumption⟩
    · obtain ⟨h1, h2, h3⟩ := ih h
      exact ⟨by omega, by omega, h3⟩

theorem findLocked_eq_some {T : Table} : T.findLocked h = some i ↔
    h = syncBase + i ∧ i < syncMax ∧ (T.objs i).type ≠ .free ∧ (T.objs i).handle = h := by
  unfold findLocked
  constructor
  · intro hf
    split at hf
    · cases hf
    · simp only [Option.ite_none_right_eq_some, Option.some.injEq] at hf
      obtain ⟨⟨ht, hh⟩, rfl⟩ := hf
      exact ⟨by omega, by omega, ht, hh⟩
  · rintro ⟨rfl, hi, ht, hh⟩
    simp [hi, ht, hh]

theorem findLocked_live {T : Table} (h : T.findLocked k = some i) : (T.objs i).type ≠ .free :=
  (findLocked_eq_some.mp h).2.2.1

/-- In a well-formed table a handle finds its slot exactly when the slot is
in use. -/
theorem Wf.find {T : Table} (hw : T.Wf) :
    T.findLocked (syncBase + i) = some i ↔ (T.objs i).type ≠ .free := by
  rw [findLocked_eq_some]
  constructor
  · exact fun h => h.2.2.1
  · intro h
    obtain ⟨h1, h2⟩ := hw.handle h
    exact ⟨rfl, h1, h, h2⟩

/-- A store that keeps the type and the handle. -/
def Keeps (f : SyncObj → SyncObj) : Prop := ∀ o, (f o).type = o.type ∧ (f o).handle = o.handle

theorem Keeps.modify_type {f : SyncObj → SyncObj} (hf : Keeps f) (T : Table) (i j : Nat) :
    ((T.modify i f).objs j).type = (T.objs j).type := by
  by_cases h : j = i
  · subst h; simp [(hf _).1]
  · rw [modify_ne _ h]

theorem Keeps.modify_handle {f : SyncObj → SyncObj} (hf : Keeps f) (T : Table) (i j : Nat) :
    ((T.modify i f).objs j).handle = (T.objs j).handle := by
  by_cases h : j = i
  · subst h; simp [(hf _).2]
  · rw [modify_ne _ h]

theorem Keeps.modify_find {f : SyncObj → SyncObj} (hf : Keeps f) (T : Table) (i h : Nat) :
    (T.modify i f).findLocked h = T.findLocked h := by
  simp only [findLocked, hf.modify_type, hf.modify_handle]

theorem keeps_acquire (t : Nat) : Keeps (acquireLocked · t) := by
  intro o
  cases h : o.type <;> simp only [acquireLocked, h, and_self]
  split <;> simp [h]

theorem Wf.modify {T : Table} (hw : T.Wf) (hf : Keeps f) : (T.modify i f).Wf := by
  constructor
  · intro j hj
    rw [hf.modify_type] at hj
    rw [hf.modify_handle]
    exact hw.handle hj
  · intro j hj
    rw [hf.modify_type] at hj
    exact hw.identLt hj
  · intro j k hj hk
    rw [hf.modify_type] at hj hk
    exact hw.identInj hj hk

theorem Wf.put {T : Table} (hw : T.Wf) (hi : i < syncMax) (ho : o.handle = syncBase + i) :
    (T.put i o).Wf := by
  constructor
  · intro j hj
    by_cases hji : j = i
    · subst hji; simpa using ⟨hi, ho⟩
    · rw [put_ne _ hji] at hj ⊢
      exact hw.handle hj
  · intro j hj
    by_cases hji : j = i
    · subst hji; simp
    · rw [put_ne _ hji] at hj
      rw [put_ident_ne _ hji]
      exact Nat.lt_succ_of_lt (hw.identLt hj)
  · intro j k hj hk he
    by_cases hji : j = i <;> by_cases hki : k = i
    · rw [hji, hki]
    · subst hji
      rw [put_ne _ hki] at hk
      rw [put_ident_self, put_ident_ne _ hki] at he
      exact absurd he (Nat.ne_of_gt (hw.identLt hk))
    · subst hki
      rw [put_ne _ hji] at hj
      rw [put_ident_self, put_ident_ne _ hji] at he
      exact absurd he (Nat.ne_of_lt (hw.identLt hj))
    · rw [put_ne _ hji] at hj
      rw [put_ne _ hki] at hk
      rw [put_ident_ne _ hji, put_ident_ne _ hki] at he
      exact hw.identInj hj hk he

/-- `wg_sync_close` of slot `i`; the other fields stay as they were. -/
def release (T : Table) (i : Nat) : Table := T.modify i ({ · with type := .free, handle := 0 })

theorem release_ne (T : Table) (h : j ≠ i) : (T.release i).objs j = T.objs j := modify_ne T h

theorem release_live {T : Table} (h : ((T.release i).objs j).type ≠ .free) :
    j ≠ i ∧ (T.objs j).type ≠ .free := by
  by_cases hji : j = i
  · subst hji; simp [release] at h
  · rw [release_ne _ hji] at h
    exact ⟨hji, h⟩

/-- Closing a slot loses only the handle that found it. -/
theorem release_find {T : Table} (hj : T.findLocked h = some j) (hji : j ≠ i) :
    (T.release i).findLocked h = some j := by
  rw [findLocked_eq_some] at hj ⊢
  rwa [release_ne _ hji]

theorem put_find {T : Table} (hj : T.findLocked h = some j) (hji : j ≠ i) :
    (T.put i o).findLocked h = some j := by
  rw [findLocked_eq_some] at hj ⊢
  rwa [put_ne _ hji]

theorem Wf.release {T : Table} (hw : T.Wf) : (T.release i).Wf := by
  constructor
  · intro j hj
    obtain ⟨h, hj⟩ := release_live hj
    rw [release_ne _ h]
    exact hw.handle hj
  · intro j hj
    exact hw.identLt (release_live hj).2
  · intro j k hj hk
    exact hw.identInj (release_live hj).2 (release_live hk).2

@[simp] theorem acquireAll_ident (T : Table) (t : Nat) : (T.acquireAll t is).ident = T.ident := by
  induction is generalizing T with
  | nil => rfl
  | cons i is ih => rw [acquireAll, ih, modify_ident]

@[simp] theorem acquireAll_fresh (T : Table) (t : Nat) : (T.acquireAll t is).fresh = T.fresh := by
  induction is generalizing T with
  | nil => rfl
  | cons i is ih => rw [acquireAll, ih, modify_fresh]

@[simp] theorem acquireAll_type (T : Table) (t j : Nat) :
    ((T.acquireAll t is).objs j).type = (T.objs j).type := by
  induction is generalizing T with
  | nil => rfl
  | cons i is ih =>
    rw [acquireAll, ih]
    exact (keeps_acquire t).modify_type T i j

/-- A wait acquires a slot once for every time it lists it. -/
theorem acquireAll_objs (T : Table) (t i : Nat) :
    (T.acquireAll t is).objs i = (acquireLocked · t)^[is.count i] (T.objs i) := by
  induction is generalizing T with
  | nil => rfl
  | cons j is ih =>
    rw [acquireAll, ih]
    by_cases hji : j = i
    · subst hji
      rw [List.count_cons_self, Function.iterate_succ_apply, modify_self]
    · rw [List.count_cons_of_ne hji, modify_ne _ (Ne.symm hji)]

theorem acquireAll_not_mem (T : Table) (h : i ∉ is) : (T.acquireAll t is).objs i = T.objs i := by
  rw [acquireAll_objs, List.count_eq_zero_of_not_mem h]
  rfl

@[simp] theorem acquireAll_find (T : Table) (t h : Nat) :
    (T.acquireAll t is).findLocked h = T.findLocked h := by
  induction is generalizing T with
  | nil => rfl
  | cons i is ih =>
    rw [acquireAll, ih]
    exact (keeps_acquire t).modify_find T i h

theorem Wf.acquireAll {T : Table} (hw : T.Wf) : (T.acquireAll t is).Wf := by
  induction is generalizing T with
  | nil => exact hw
  | cons i is ih => exact ih (hw.modify (keeps_acquire t))

end Table

end WineGlass.Sync
