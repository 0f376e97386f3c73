import Mathlib.Data.List.Nodup
import Mathlib.Data.List.Perm.Basic
import WineGlass.Lib.Run

/-!
# Event handles in cooperative mode

Events and mutexes are slots of one table, and their handles lie between those
of files, which are numbered on for good, and those of sockets. `CloseHandle`
puts the slot of any handle in the range on a free list, from which only events
are made. `live` and `files` are what a caller holds: the slots of the events
and mutexes not yet closed, and the handles of the open files.
-/

namespace WineGlass.Events

open Runs

/-- `WG_EVENT_BASE`, `WG_MAX_EVENTS`, `WG_FILE_HANDLE_BASE` and `WG_MAX_FILE_HANDLES`. -/
def eventBase : Nat := 0x200
def maxEvents : Nat := 3584
def fileBase : Nat := 0x100
def maxFiles : Nat := 64

structure State where
  signalled : Nat → Bool
  manual : Nat → Bool
  free : List Nat
  next : Nat
  live : List Nat
  files : List Nat
  nextFile : Nat

def State.init : State := ⟨fun _ => false, fun _ => false, [], 0, [], [], fileBase⟩

/-- The handles a caller holds. -/
def State.handles (s : State) : List Nat := s.live.map (eventBase + ·) ++ s.files

def InRange (h : Nat) : Prop := eventBase ≤ h ∧ h < eventBase + maxEvents

instance : Decidable (InRange h) := inferInstanceAs (Decidable (_ ∧ _))

-- ---------------------------------------------------------------------------
-- Handlers
-- ---------------------------------------------------------------------------

/-- The slot a new event takes: a closed one, or the next. -/
def takeSlot (s : State) : Option (Nat × State) :=
  match s.free with
  | i :: free => some (i, { s with free })
  | [] => if s.next < maxEvents then some (s.next, { s with next := s.next + 1 }) else none

/-- What `CreateEvent` and `CreateEventEx` have in common; 0 when the table is full. -/
def newEvent (s : State) (manual signalled : Bool) : State × Nat :=
  match takeSlot s with
  | none => (s, 0)
  | some (i, s) =>
    ({ s with
        signalled := Function.update s.signalled i signalled
        manual := Function.update s.manual i manual
        live := i :: s.live }, eventBase + i)

/-- `CreateEventW`. -/
def createEvent (s : State) (manualReset initialState : Nat) : State × Nat :=
  newEvent s (manualReset != 0) (initialState != 0)

/-- `CreateEventExW`. -/
def createEventEx (s : State) (flags : Nat) : State × Nat :=
  newEvent s (flags.testBit 0) (flags.testBit 1)

/-- `CreateMutexW`: a handle, and no state of its own. -/
def createMutex (s : State) : State × Nat :=
  if s.next < maxEvents then
    ({ s with next := s.next + 1, live := s.next :: s.live }, eventBase + s.next)
  else (s, 0)

/-- `wg_files_open`, as far as handles go. -/
def openFile (s : State) : State × Nat :=
  if s.files.length < maxFiles then
    ({ s with files := s.nextFile :: s.files, nextFile := s.nextFile + 1 }, s.nextFile)
  else (s, 0xFFFFFFFF)

/-- `CloseHandle`, which reports success whatever it is given. -/
def closeHandle (s : State) (h : Nat) : State × Nat :=
  let free := if InRange h ∧ s.free.length < maxEvents then (h - eventBase) :: s.free else s.free
  let live := if InRange h then s.live.erase (h - eventBase) else s.live
  ({ s with free, live, files := s.files.erase h }, 1)

inductive Action
  | createEvent (manualReset initialState : Nat)
  | createEventEx (flags : Nat)
  | createMutex
  | openFile
  | close (h : Nat)
  deriving DecidableEq, Repr

def act (s : State) : Action → State × Nat
  | .createEvent manualReset initialState => createEvent s manualReset initialState
  | .createEventEx flags => createEventEx s flags
  | .createMutex => createMutex s
  | .openFile => openFile s
  | .close h => closeHandle s h

def step (s : State) (a : Action) : Option (State × Nat) := some (act s a)

-- ---------------------------------------------------------------------------
-- What a handle is for
-- ---------------------------------------------------------------------------

/-- The state of the event behind a handle. -/
def State.event (s : State) (h : Nat) : Bool × Bool :=
  (s.signalled (h - eventBase), s.manual (h - eventBase))

/-- Open objects have handles of their own, and no call touches one it is not
given. -/
structure Separate (ok : State → Action → Prop) (s : State) : Prop where
  unique : s.handles.Nodup
  untouched (a : Action) (h : Nat) : ok s a → h ∈ s.handles → a ≠ .close h →
    h ∈ (act s a).1.handles ∧ (InRange h → (act s a).1.event h = s.event h)

/-- What is closed in the range of events is open, and no file handle has
reached that range. -/
def Proper (s : State) : Action → Prop
  | .close h => InRange h → h ∈ s.handles
  | .openFile => s.nextFile < eventBase
  | _ => True

-- ---------------------------------------------------------------------------
-- The tables
-- ---------------------------------------------------------------------------

structure Inv (s : State) : Prop where
  nodup : (s.free ++ s.live).Nodup
  slot : ∀ i ∈ s.free ++ s.live, i < s.next
  next : s.next ≤ maxEvents
  files : s.files.Nodup
  file : ∀ h ∈ s.files, h < s.nextFile ∧ h < eventBase

variable {s : State}

theorem init_inv : Inv .init := ⟨.nil, nofun, by decide, .nil, nofun⟩

theorem mem_handles : h ∈ s.handles ↔ (∃ i ∈ s.live, eventBase + i = h) ∨ h ∈ s.files := by
  simp [State.handles]

theorem Inv.inRange (hi : Inv s) (h : i ∈ s.live) : InRange (eventBase + i) :=
  ⟨Nat.le_add_right .., Nat.add_lt_add_left
    (Nat.lt_of_lt_of_le (hi.slot i (List.mem_append_right _ h)) hi.next) _⟩

theorem Inv.file_range (hi : Inv s) (h : f ∈ s.files) : ¬ InRange f := fun hr =>
  Nat.not_lt.2 hr.1 (hi.file f h).2

/-- In range, a handle is open exactly when its slot is. -/
theorem Inv.mem_live (hi : Inv s) (hr : InRange h) : h ∈ s.handles ↔ h - eventBase ∈ s.live := by
  rw [mem_handles]
  constructor
  · rintro (⟨i, hl, rfl⟩ | hf)
    · rwa [Nat.add_sub_cancel_left]
    · exact absurd hr (hi.file_range hf)
  · intro hl
    exact .inl ⟨_, hl, Nat.add_sub_cancel' hr.1⟩

theorem Inv.unique (hi : Inv s) : s.handles.Nodup := by
  refine List.nodup_append.2 ⟨?_, hi.files, ?_⟩
  · exact (List.nodup_append.1 hi.nodup).2.1.map fun _ _ he => Nat.add_left_cancel he
  · intro h hl f hf he
    obtain ⟨i, hi', rfl⟩ := List.mem_map.1 hl
    exact hi.file_range (he ▸ hf) (hi.inRange hi')

-- ---------------------------------------------------------------------------
-- Steps
-- ---------------------------------------------------------------------------

/-- A slot taken for an event is no open one. -/
theorem Inv.take (hi : Inv s) (ht : takeSlot s = some (i, s')) (sig man : Nat → Bool) :
    i ∉ s.live ∧ Inv { s' with signalled := sig, manual := man, live := i :: s'.live } ∧
      s'.live = s.live ∧ s'.files = s.files ∧ s'.signalled = s.signalled ∧ s'.manual = s.manual := by
  unfold takeSlot at ht
  split at ht
  · rename_i j free hfree
    obtain ⟨rfl, rfl⟩ := Prod.mk.inj (Option.some.inj ht)
    have hnodup := hi.nodup
    have hslot := hi.slot
    rw [hfree] at hnodup hslot
    have hperm : (free ++ j :: s.live).Perm (j :: free ++ s.live) := List.perm_middle
    refine ⟨?_, ⟨hperm.nodup_iff.2 hnodup, fun i hm => hslot i (hperm.mem_iff.1 hm), hi.next,
      hi.files, hi.file⟩, rfl, rfl, rfl, rfl⟩
    exact fun hl => (List.nodup_cons.1 hnodup).1 (List.mem_append_right _ hl)
  · rename_i hfree
    simp only [Option.ite_none_right_eq_some, Option.some.injEq, Prod.mk.injEq] at ht
    obtain ⟨hlt, rfl, rfl⟩ := ht
    have hnodup := hi.nodup
    have hslot := hi.slot
    rw [hfree, List.nil_append] at hnodup hslot
    have hnew : s.next ∉ s.live := fun hl => Nat.lt_irrefl _ (hslot _ hl)
    refine ⟨hnew, ⟨?_, fun i hm => ?_, hlt, hi.files, hi.file⟩, rfl, rfl, rfl, rfl⟩
    · simpa [hfree] using ⟨hnew, hnodup⟩
    · simp only [hfree, List.nil_append, List.mem_cons] at hm
      rcases hm with rfl | hm
      · exact Nat.lt_succ_self _
      · exact Nat.lt_succ_of_lt (hslot i hm)

theorem Inv.newEvent (hi : Inv s) : Inv (newEvent s man sig).1 := by
  unfold Events.newEvent
  split
  · exact hi
  · rename_i i s' ht
    exact (hi.take ht _ _).2.1

theorem newEvent_untouched (hi : Inv s) (hh : h ∈ s.handles) :
    h ∈ (newEvent s man sig).1.handles ∧
      (InRange h → (newEvent s man sig).1.event h = s.event h) := by
  unfold newEvent
  split
  · exact ⟨hh, fun _ => rfl⟩
  · rename_i i s' ht
    obtain ⟨hnew, -, hlive, hfiles, hsig, hman⟩ := hi.take ht s.signalled s.manual
    refine ⟨?_, fun hr => ?_⟩
    · rw [mem_handles] at hh ⊢
      rcases hh with ⟨j, hj, rfl⟩ | hf
      · exact .inl ⟨j, List.mem_cons_of_mem _ (hlive ▸ hj), rfl⟩
      · exact .inr (hfiles ▸ hf)
    · have hne : h - eventBase ≠ i := fun he => hnew (he ▸ (hi.mem_live hr).1 hh)
      simp only [State.event, Function.update_of_ne hne, hsig, hman]

theorem Inv.createMutex (hi : Inv s) : Inv (createMutex s).1 := by
  unfold Events.createMutex
  split
  · rename_i hlt
    have hnew : s.next ∉ s.free ++ s.live := fun hm => Nat.lt_irrefl _ (hi.slot _ hm)
    have hperm : (s.free ++ s.next :: s.live).Perm (s.next :: (s.free ++ s.live)) :=
      List.perm_middle
    refine ⟨hperm.nodup_iff.2 (List.nodup_cons.2 ⟨hnew, hi.nodup⟩), fun i hm => ?_, hlt,
      hi.files, hi.file⟩
    rcases List.mem_cons.1 (hperm.mem_iff.1 hm) with rfl | hm
    · exact Nat.lt_succ_self _
    · exact Nat.lt_succ_of_lt (hi.slot i hm)
  · exact hi

theorem Inv.openFile (hi : Inv s) (hok : Proper s .openFile) : Inv (openFile s).1 := by
  unfold Events.openFile
  split
  · refine ⟨hi.nodup, hi.slot, hi.next, List.nodup_cons.2 ⟨fun hm => ?_, hi.files⟩, ?_⟩
    · exact Nat.lt_irrefl _ (hi.file _ hm).1
    · rintro f hf
      rcases List.mem_cons.1 hf with rfl | hf
      · exact ⟨Nat.lt_succ_self _, hok⟩
      · exact ⟨Nat.lt_succ_of_lt (hi.file f hf).1, (hi.file f hf).2⟩
  · exact hi

theorem Inv.closeHandle (hi : Inv s) (hok : Proper s (.close h)) : Inv (closeHandle s h).1 := by
  have hfiles : (s.files.erase h).Nodup := hi.files.erase h
  have hfile : ∀ f ∈ s.files.erase h, f < s.nextFile ∧ f < eventBase := fun f hf =>
    hi.file f (List.mem_of_mem_erase hf)
  by_cases hr : InRange h
  · have hl := (hi.mem_live hr).1 (hok hr)
    have hperm : (s.free ++ s.live).Perm
        ((h - eventBase) :: s.free ++ s.live.erase (h - eventBase)) :=
      ((List.perm_cons_erase hl).append_left s.free).trans List.perm_middle
    by_cases hroom : s.free.length < maxEvents
    · simp only [Events.closeHandle, hr, hroom, and_self, ↓reduceIte]
      exact ⟨hperm.nodup_iff.1 hi.nodup, fun i hm => hi.slot i (hperm.mem_iff.2 hm), hi.next,
        hfiles, hfile⟩
    · -- A free list that is full drops the slot.
      simp only [Events.closeHandle, hr, hroom, and_false, ↓reduceIte]
      have hsub : (s.free ++ s.live.erase (h - eventBase)).Sublist (s.free ++ s.live) :=
        (List.erase_sublist ..).append_left s.free
      exact ⟨hi.nodup.sublist hsub, fun i hm => hi.slot i (hsub.subset hm), hi.next, hfiles, hfile⟩
  · simp only [Events.closeHandle, hr, false_and, ↓reduceIte]
    exact ⟨hi.nodup, hi.slot, hi.next, hfiles, hfile⟩

theorem step_inv (hi : Inv s) (hok : Proper s a) : Inv (act s a).1 := by
  cases a with
  | createEvent | createEventEx => exact hi.newEvent
  | createMutex => exact hi.createMutex
  | openFile => exact hi.openFile hok
  | close h => exact hi.closeHandle hok

theorem closeHandle_untouched (hne : h ≠ g) (hh : h ∈ s.handles) :
    h ∈ (closeHandle s g).1.handles := by
  rw [mem_handles] at hh ⊢
  simp only [closeHandle]
  rcases hh with ⟨i, hl, rfl⟩ | hf
  · refine .inl ⟨i, ?_, rfl⟩
    split
    · rename_i hr
      have hback : eventBase + (g - eventBase) = g := Nat.add_sub_cancel' hr.1
      refine (List.mem_erase_of_ne fun he => hne ?_).2 hl
      rw [he, hback]
    · exact hl
  · exact .inr ((List.mem_erase_of_ne hne).2 hf)

theorem untouched (hi : Inv s) (hh : h ∈ s.handles) (ha : a ≠ .close h) :
    h ∈ (act s a).1.handles ∧ (InRange h → (act s a).1.event h = s.event h) := by
  cases a with
  | createEvent | createEventEx => exact newEvent_untouched hi hh
  | createMutex =>
    simp only [act, createMutex]
    split
    · refine ⟨?_, fun _ => rfl⟩
      rw [mem_handles] at hh ⊢
      exact hh.imp_left fun ⟨i, hl, he⟩ => ⟨i, List.mem_cons_of_mem _ hl, he⟩
    · exact ⟨hh, fun _ => rfl⟩
  | openFile =>
    simp only [act, openFile]
    split
    · refine ⟨?_, fun _ => rfl⟩
      rw [mem_handles] at hh ⊢
      exact hh.imp_right fun hf => List.mem_cons_of_mem _ hf
    · exact ⟨hh, fun _ => rfl⟩
  | close g =>
    refine ⟨closeHandle_untouched ?_ hh, fun _ => rfl⟩
    rintro rfl
    exact ha rfl

/-- In every run that closes, in the range of events, only what is open. -/
theorem events_law (h : Run step Proper .init tr s) : Separate Proper s := by
  have hi : Inv s := h.invariant (P := fun _ s => Inv s) init_inv fun {_ s a s' e} hi hok hst => by
    obtain rfl := (congrArg Prod.fst (Option.some.inj hst) : (act s a).1 = s')
    exact step_inv hi hok
  exact ⟨hi.unique, fun a h _ hh ha => untouched hi hh ha⟩

instance (s : State) (a : Action) : Decidable (Proper s a) := by
  cases a <;> unfold Proper <;> infer_instance

theorem events_law_recycled : ∃ tr s, Run step Proper .init tr s ∧ Separate Proper s ∧
    s.handles = [0x200, 0x201] := by
  have hexec : (exec step Proper .init [.createEvent 1 0, .createMutex, .close 0x200,
      .createEventEx 2]).any (fun r => decide (r.2.handles = [0x200, 0x201])) = true := by
    decide
  obtain ⟨tr, s, hr, hp⟩ := Run.of_exec_any hexec
  exact ⟨tr, s, hr, events_law hr, of_decide_eq_true hp⟩

/-- An event closed twice gives its slot to two new ones. -/
theorem closed_twice_aliases : ¬ ∀ tr s, Run step anyStep .init tr s → Separate anyStep s := by
  intro hall
  have hexec : (exec step anyStep .init [.createEvent 1 0, .close 0x200, .close 0x200,
      .createEvent 1 0, .createEvent 0 1]).any (fun r => decide (r.2.handles = [0x200, 0x200])) =
        true := by
    decide
  obtain ⟨tr, s, hr, hp⟩ := Run.of_exec_any hexec
  have hnodup := (hall tr s hr).unique
  rw [of_decide_eq_true hp] at hnodup
  exact absurd hnodup (by decide)

end WineGlass.Events
