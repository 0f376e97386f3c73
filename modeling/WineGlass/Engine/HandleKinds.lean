import WineGlass.Engine.Events
import WineGlass.Sync.Table

/-!
# Kinds of handles

Every kind of object has a table and a base of its own, and a handler that is given a handle
looks for it by its number. Files are the exception: their handles count up from `0x100` for good
and run through the ranges of all other kinds. `real` is `s_use_real_threads`: events, mutexes and
most threads are then objects of `wg_sync.c`. `φ` is what an open file holds, whatever a read or
a write does to it.
-/

namespace WineGlass.HandleKinds

open Runs Events

inductive Kind
  | file | event | socket | thread | pipe | port | work | sync | mapping
  deriving DecidableEq, Repr

/-- The first handle of a kind. -/
def Kind.base : Kind → Nat
  | .file => 0x100
  | .event => 0x200
  | .socket => 0x1000
  | .thread => 0x7000
  | .pipe => 0x7300
  | .port => 0x8500
  | .work => 0x9000
  | .sync => 0x90000
  | .mapping => 0xFE0000

/-- How many handles it has room for; of files, up to the next kind. -/
def Kind.room : Kind → Nat
  | .file => 0x100
  | .event => maxEvents
  | .socket => 128
  | .thread => 0x100 + 32
  | .pipe => 2
  | .port => 1
  | .work => 16
  | .sync => Sync.syncMax
  | .mapping => 128

def Kind.Has (k : Kind) (h : Nat) : Prop := k.base ≤ h ∧ h < k.base + k.room

/-- `threads` are the scheduler's threads in the order of their slots, none of which is freed,
and whether they have exited. -/
structure State (φ : Type) where
  table : Events.State
  content : Nat → φ
  sync : Sync.Table
  sockets : Nat → Bool
  threads : List Bool
  pipe : Bool
  port : Bool
  works : Nat
  maps : Nat

def State.init (x : φ) : State φ :=
  ⟨.init, fun _ => x, .init, fun _ => false, [false], false, false, 0, 0⟩

/-- The main thread has a handle apart from the others'. -/
def threadHandle (i : Nat) : Nat := if i = 0 then 0x7000 else 0x7100 + (i - 1)

-- ---------------------------------------------------------------------------
-- Objects
-- ---------------------------------------------------------------------------

variable {φ : Type}

def Valid (s : State φ) : Kind → Nat → Prop
  | .file, h => h ∈ s.table.files
  | .event, h => InRange h ∧ h - eventBase ∈ s.table.live
  | .socket, h => ∃ i < 128, s.sockets i ∧ h = 0x1000 + i
  | .thread, h => ∃ i < s.threads.length, h = threadHandle i
  | .pipe, h => s.pipe ∧ (h = 0x7300 ∨ h = 0x7301)
  | .port, h => s.port ∧ h = 0x8500
  | .work, h => ∃ i < s.works, h = 0x9000 + i
  | .sync, h => (s.sync.findLocked h).isSome
  | .mapping, h => ∃ i < s.maps, h = 0xFE0000 + i

/-- The state of an object. -/
inductive Content (φ : Type)
  | file (x : φ)
  | event (signalled manual : Bool)
  | thread (exited : Bool)
  | sync (o : Sync.SyncObj)
  | plain

/-- `wg_sched_find`, and whether the thread has exited. -/
def threadExited (s : State φ) (h : Nat) : Option Bool :=
  (s.threads.zipIdx.find? fun t => threadHandle t.2 = h).map Prod.fst

def content (s : State φ) : Kind → Nat → Content φ
  | .file, h => .file (s.content h)
  | .event, h => .event (s.table.event h).1 (s.table.event h).2
  | .thread, h => .thread ((threadExited s h).getD false)
  | .sync, h => .sync (s.sync.objs (h - Sync.syncBase))
  | _, _ => .plain

-- ---------------------------------------------------------------------------
-- Handlers that are given a handle
-- ---------------------------------------------------------------------------

inductive Op (φ : Type)
  | closeHandle
  | waitForSingleObject (infinite : Bool) (callerTid : Nat)
  | readFile (f : φ → φ)
  | writeFile (f : φ → φ)
  | getFileType

/-- `CloseHandle`. -/
def closeHandle (real : Bool) (s : State φ) (h : Nat) : State φ × Nat :=
  if real then
    let sync := match s.sync.findLocked h with
      | some i => s.sync.release i
      | none => s.sync
    ({ s with sync, table := { s.table with files := s.table.files.erase h } }, 1)
  else ({ s with table := (Events.closeHandle s.table h).1 }, 1)

/-- `wg_event_consume`. -/
def eventConsume (t : Events.State) (h : Nat) : Events.State :=
  if InRange h ∧ t.manual (h - eventBase) = false then
    { t with signalled := Function.update t.signalled (h - eventBase) false }
  else t

/-- `WaitForSingleObject` as far as it goes before it sleeps, for which 258 stands. -/
def wait (real : Bool) (s : State φ) (h : Nat) (infinite : Bool) (callerTid : Nat) :
    State φ × Nat :=
  if real then
    match s.sync.findLocked h with
    | some i =>
      if Sync.satisfiedLocked (s.sync.objs i) callerTid then
        ({ s with sync := s.sync.modify i (Sync.acquireLocked · callerTid) }, 0)
      else (s, 258)
    | none => (s, if infinite then 0 else 258)
  else
    let signalled := InRange h ∧ s.table.signalled (h - eventBase)
    if signalled ∨ threadExited s h = some true then
      ({ s with table := eventConsume s.table h }, 0)
    else (s, 258)

/-- `ReadFile`: `find_file` and what the read does to the file. -/
def readFile (s : State φ) (h : Nat) (f : φ → φ) : State φ × Nat :=
  if h ∈ s.table.files then
    ({ s with content := Function.update s.content h (f (s.content h)) }, 1)
  else (s, 0)

/-- `WriteFile`: output and pipes are logged, and what is no file is a sink. -/
def writeFile (s : State φ) (h : Nat) (f : φ → φ) : State φ × Nat :=
  if h = 0xF1 ∨ h = 0xF2 ∨ h = 0x7301 then (s, 1)
  else if h ∈ s.table.files then
    ({ s with content := Function.update s.content h (f (s.content h)) }, 1)
  else (s, 1)

def getFileType (h : Nat) : Nat := if 0x100 ≤ h ∧ h < 0x200 then 1 else 0

def call (real : Bool) (s : State φ) (h : Nat) : Op φ → State φ × Nat
  | .closeHandle => closeHandle real s h
  | .waitForSingleObject infinite callerTid => wait real s h infinite callerTid
  | .readFile f => readFile s h f
  | .writeFile f => writeFile s h f
  | .getFileType => (s, getFileType h)

-- ---------------------------------------------------------------------------
-- Handlers that make objects
-- ---------------------------------------------------------------------------

inductive Action (φ : Type)
  | createEvent (manualReset initialState : Nat)
  | createMutex (initialOwner : Nat) (callerTid : Nat)
  | setEvent (h : Nat)
  | createFile (x : φ)
  | socket
  | closesocket (h : Nat)
  | createThread (spawned : Bool)
  | exitThread (i : Nat)
  | createPipe
  | createIoCompletionPort
  | createThreadpoolWork
  | createFileMapping
  | load
  | call (h : Nat) (op : Op φ)

/-- `alloc_obj_locked` for a caller; 0 when the table is full. -/
def newSync (s : State φ) (ty : Sync.ObjType) (set : Sync.SyncObj → Sync.SyncObj) :
    State φ × Nat :=
  match s.sync.allocObjLocked ty set with
  | some (i, sync) => ({ s with sync }, Sync.syncBase + i)
  | none => (s, 0)

/-- The scan of `alloc_socket`. -/
def firstClosed (fds : Nat → Bool) : Option Nat := (List.range 128).find? fun i => !fds i

/-- `CreateThread`: a real thread when one can be made, else a slot of the scheduler. -/
def createThread (real spawned : Bool) (s : State φ) : State φ × Nat :=
  if real && spawned then newSync s .thread id
  else if s.threads.length < 32 then
    ({ s with threads := s.threads ++ [false] }, threadHandle s.threads.length)
  else (s, 0x7100)

def act (real : Bool) (s : State φ) : Action φ → State φ × Nat
  | .createEvent manualReset initialState =>
    if real then
      newSync s .event fun o =>
        { o with manual := manualReset != 0, signalled := initialState != 0 }
    else
      let r := Events.createEvent s.table manualReset initialState
      ({ s with table := r.1 }, r.2)
  | .createMutex initialOwner callerTid =>
    if real then
      newSync s .mutex fun o =>
        if initialOwner ≠ 0 then { o with ownerTid := callerTid, recursion := 1 } else o
    else
      let r := Events.createMutex s.table
      ({ s with table := r.1 }, r.2)
  | .setEvent h =>
    if real then
      match s.sync.findLocked h with
      | some i =>
        if (s.sync.objs i).type = .event then
          ({ s with sync := s.sync.modify i ({ · with signalled := true }) }, 1)
        else (s, 0)
      | none => (s, 0)
    else if InRange h then
      let signalled := Function.update s.table.signalled (h - eventBase) true
      ({ s with table := { s.table with signalled } }, 1)
    else (s, 1)
  | .createFile x =>
    let r := Events.openFile s.table
    ({ s with table := r.1, content := Function.update s.content r.2 x }, r.2)
  | .socket =>
    match firstClosed s.sockets with
    | some i => ({ s with sockets := Function.update s.sockets i true }, 0x1000 + i)
    | none => (s, 0xFFFFFFFF)
  | .closesocket h =>
    if 0x1000 ≤ h ∧ h < 0x1000 + 128 then
      ({ s with sockets := Function.update s.sockets (h - 0x1000) false }, 0)
    else (s, 0)
  | .createThread spawned => createThread real spawned s
  | .exitThread i => ({ s with threads := s.threads.set i true }, 0)
  | .createPipe => ({ s with pipe := true }, 1)
  | .createIoCompletionPort => ({ s with port := true }, 0x8500)
  | .createThreadpoolWork =>
    if s.works < 16 then ({ s with works := s.works + 1 }, 0x9000 + s.works) else (s, 0)
  | .createFileMapping =>
    if s.maps < 128 then ({ s with maps := s.maps + 1 }, 0xFE0000 + s.maps) else (s, 0)
  | .load => ({ s with threads := [false] }, 1)
  | .call h op => call real s h op

def step (real : Bool) (s : State φ) (a : Action φ) : Option (State φ × Nat) :=
  some (act real s a)

-- ---------------------------------------------------------------------------
-- What a handle is for
-- ---------------------------------------------------------------------------

/-- What a handler returns for an object. -/
def answer (real : Bool) : Op φ → Kind → Content φ → Nat
  | .closeHandle, _, _ => 1
  | .waitForSingleObject infinite callerTid, _, c =>
    match real, c with
    | true, .sync o => if Sync.satisfiedLocked o callerTid then 0 else 258
    | true, _ => if infinite then 0 else 258
    | false, .event signalled _ => if signalled then 0 else 258
    | false, .thread exited => if exited then 0 else 258
    | false, _ => 258
  | .readFile _, k, _ => if k = .file then 1 else 0
  | .writeFile _, _, _ => 1
  | .getFileType, k, _ => if k = .file then 1 else 0

/-- What becomes of an object that is not closed. -/
def after (real : Bool) : Op φ → Content φ → Content φ
  | .readFile f, .file x => .file (f x)
  | .writeFile f, .file x => .file (f x)
  | .waitForSingleObject _ callerTid, .sync o =>
    if real && Sync.satisfiedLocked o callerTid then .sync (Sync.acquireLocked o callerTid)
    else .sync o
  | .waitForSingleObject _ _, .event signalled manual =>
    if real then .event signalled manual else .event (signalled && manual) manual
  | _, c => c

/-- A handle is of one object, and a handler that is given it does what the object is for and
leaves everything else alone. -/
structure Faithful (real : Bool) (s : State φ) : Prop where
  one : Valid s k h → Valid s k' h → k = k'
  answers (op : Op φ) : Valid s k h → (call real s h op).2 = answer real op k (content s k h)
  becomes (op : Op φ) : Valid s k h → op ≠ .closeHandle →
    Valid (call real s h op).1 k h ∧
      content (call real s h op).1 k h = after real op (content s k h)
  closes : Valid s .file h → ¬ Valid (call real s h .closeHandle).1 .file h
  spares (op : Op φ) : Valid s k h → Valid s k' h' → (k', h') ≠ (k, h) →
    Valid (call real s h op).1 k' h' ∧
      content (call real s h op).1 k' h' = content s k' h'
  nothing (op : Op φ) : Valid (call real s h op).1 k' h' → Valid s k' h'

/-- A file is opened before the file handles reach those of events. -/
def Proper (s : State φ) : Action φ → Prop
  | .createFile _ => s.table.files.length < maxFiles → s.table.nextFile < eventBase
  | _ => True

-- ---------------------------------------------------------------------------
-- Ranges
-- ---------------------------------------------------------------------------

theorem Kind.apart (k k' : Kind) :
    k = k' ∨ k.base + k.room ≤ k'.base ∨ k'.base + k'.room ≤ k.base := by
  cases k <;> cases k' <;> decide

theorem Kind.Has.eq {k k' : Kind} (h : k.Has n) (h' : k'.Has n) : k = k' := by
  obtain ⟨hle, hlt⟩ := h
  obtain ⟨hle', hlt'⟩ := h'
  rcases k.apart k' with he | he | he
  · exact he
  · omega
  · omega

structure Inv (s : State φ) : Prop where
  nodup : s.table.files.Nodup
  file : ∀ h ∈ s.table.files, fileBase ≤ h ∧ h < eventBase ∧ h < s.table.nextFile
  nextFile : fileBase ≤ s.table.nextFile
  slot : ∀ i ∈ s.table.free ++ s.table.live, i < maxEvents
  next : s.table.next ≤ maxEvents
  threads : s.threads.length ≤ 32
  works : s.works ≤ 16
  maps : s.maps ≤ 128

variable {s : State φ}

theorem init_inv (x : φ) : Inv (.init x) :=
  ⟨.nil, nofun, Nat.le_refl _, nofun, Nat.zero_le _, Nat.le_add_left 1 31, Nat.zero_le _,
    Nat.zero_le _⟩

/-- The handles of a kind stay in its range. -/
theorem Valid.has (hi : Inv s) (h : Valid s k n) : k.Has n := by
  unfold Kind.Has
  cases k with
  | file =>
    obtain ⟨hle, hlt, -⟩ := hi.file n h
    exact ⟨hle, hlt⟩
  | event => exact h.1
  | socket =>
    obtain ⟨i, hi, -, rfl⟩ := h
    exact ⟨Nat.le_add_right _ _, Nat.add_lt_add_left hi _⟩
  | thread =>
    obtain ⟨i, hlt, rfl⟩ := h
    have hle := hi.threads
    simp only [threadHandle, Kind.base, Kind.room]
    split <;> omega
  | pipe =>
    simp only [Kind.base, Kind.room]
    rcases h.2 with rfl | rfl <;> decide
  | port =>
    obtain ⟨-, rfl⟩ := h
    decide
  | work =>
    obtain ⟨i, hlt, rfl⟩ := h
    have hle := hi.works
    simp only [Kind.base, Kind.room]
    omega
  | sync =>
    obtain ⟨i, hf⟩ := Option.isSome_iff_exists.1 h
    obtain ⟨rfl, hlt, -⟩ := Sync.Table.findLocked_eq_some.1 hf
    exact ⟨Nat.le_add_right _ _, Nat.add_lt_add_left hlt _⟩
  | mapping =>
    obtain ⟨i, hlt, rfl⟩ := h
    have hle := hi.maps
    simp only [Kind.base, Kind.room]
    omega

theorem Inv.one (hi : Inv s) (h : Valid s k n) (h' : Valid s k' n) : k = k' :=
  (h.has hi).eq (h'.has hi)

theorem threadHandle_inj (h : threadHandle i = threadHandle j) : i = j := by
  unfold threadHandle at h
  split at h <;> split at h <;> omega

theorem threadExited_valid (h : threadExited s n = some b) : Valid s .thread n := by
  obtain ⟨⟨a, i⟩, hf, -⟩ := Option.map_eq_some_iff.1 h
  have hmem := List.mem_of_find?_eq_some hf
  have hn := List.find?_some hf
  obtain ⟨-, hlt, -⟩ := List.mem_zipIdx hmem
  exact ⟨i, by simpa using hlt, (of_decide_eq_true hn).symm⟩

/-- A handle of another kind is none of an event, a file, a thread or a synchronisation object. -/
theorem Inv.other (hi : Inv s) (h : Valid s k n) :
    (k ≠ .event → ¬ InRange n) ∧ (k ≠ .file → n ∉ s.table.files) ∧
      (k ≠ .thread → threadExited s n = none) ∧ (k ≠ .sync → s.sync.findLocked n = none) := by
  refine ⟨fun hk hr => hk ?_, fun hk hf => hk (hi.one h hf), fun hk => ?_, fun hk => ?_⟩
  · exact (h.has hi).eq (show Kind.event.Has n from hr)
  · cases ht : threadExited s n with
    | none => rfl
    | some b => exact absurd (hi.one h (threadExited_valid ht)) hk
  · cases hf : s.sync.findLocked n with
    | none => rfl
    | some i =>
      have hv : Valid s .sync n := Option.isSome_iff_exists.2 ⟨i, hf⟩
      exact absurd (hi.one h hv) hk

-- ---------------------------------------------------------------------------
-- What a call does
-- ---------------------------------------------------------------------------

/-- Nothing that is behind another handle changes. -/
def Spares (s s' : State φ) (h : Nat) : Prop :=
  ∀ k' h', Valid s k' h' → h' ≠ h → Valid s' k' h' ∧ content s' k' h' = content s k' h'

/-- No object appears. -/
def Shrinks (s s' : State φ) : Prop := ∀ k' h', Valid s' k' h' → Valid s k' h'

theorem Spares.refl (s : State φ) (h : Nat) : Spares s s h := fun _ _ hv _ => ⟨hv, rfl⟩

theorem Shrinks.refl (s : State φ) : Shrinks s s := fun _ _ hv => hv

theorem slot_ne (hr : InRange n) (hr' : InRange h) (hne : n ≠ h) :
    n - eventBase ≠ h - eventBase := by
  unfold InRange at hr hr'
  omega

theorem content_spares (x : φ) :
    Spares s { s with content := Function.update s.content h x } h := by
  intro k' h' hv hne
  cases k' with
  | file =>
    refine ⟨hv, ?_⟩
    simp only [content, Function.update_of_ne hne]
  | _ => exact ⟨hv, rfl⟩

theorem content_shrinks (x : φ) :
    Shrinks s { s with content := Function.update s.content h x } := by
  intro k' h' hv
  cases k' <;> exact hv

theorem eventConsume_spares :
    Spares s { s with table := eventConsume s.table h } h := by
  intro k' h' hv hne
  unfold eventConsume
  split
  · rename_i hc
    cases k' with
    | event =>
      refine ⟨hv, ?_⟩
      simp only [content, Events.State.event, Function.update_of_ne (slot_ne hv.1 hc.1 hne)]
    | _ => exact ⟨hv, rfl⟩
  · exact ⟨hv, rfl⟩

theorem eventConsume_shrinks : Shrinks s { s with table := eventConsume s.table h } := by
  intro k' h' hv
  unfold eventConsume at hv
  split at hv
  · cases k' <;> exact hv
  · exact hv

theorem acquire_spares (hf : s.sync.findLocked h = some i) (t : Nat) :
    Spares s { s with sync := s.sync.modify i (Sync.acquireLocked · t) } h := by
  intro k' h' hv hne
  have hfind : (s.sync.modify i (Sync.acquireLocked · t)).findLocked h' = s.sync.findLocked h' :=
    (Sync.Table.keeps_acquire t).modify_find s.sync i h'
  cases k' with
  | sync =>
    refine ⟨(congrArg Option.isSome hfind).trans hv, ?_⟩
    obtain ⟨j, hj⟩ := Option.isSome_iff_exists.1 hv
    obtain ⟨rfl, -⟩ := Sync.Table.findLocked_eq_some.1 hf
    obtain ⟨rfl, -⟩ := Sync.Table.findLocked_eq_some.1 hj
    have hij : j ≠ i := fun he => hne (by rw [he])
    simp only [content, Nat.add_sub_cancel_left, Sync.Table.modify_ne _ hij]
  | _ => exact ⟨hv, rfl⟩

theorem acquire_shrinks (t : Nat) :
    Shrinks s { s with sync := s.sync.modify i (Sync.acquireLocked · t) } := by
  intro k' h' hv
  cases k' with
  | sync =>
    have hfind : (s.sync.modify i (Sync.acquireLocked · t)).findLocked h' = s.sync.findLocked h' :=
      (Sync.Table.keeps_acquire t).modify_find s.sync i h'
    exact (congrArg Option.isSome hfind).symm.trans hv
  | _ => exact hv

theorem wait_spares (real : Bool) (s : State φ) (h : Nat) :
    Spares s (wait real s h infinite t).1 h ∧ Shrinks s (wait real s h infinite t).1 := by
  unfold wait
  split
  · split
    · rename_i i hf
      split
      · exact ⟨acquire_spares hf t, acquire_shrinks t⟩
      · exact ⟨.refl s h, .refl s⟩
    · exact ⟨.refl s h, .refl s⟩
  · dsimp only
    split
    · exact ⟨eventConsume_spares, eventConsume_shrinks⟩
    · exact ⟨.refl s h, .refl s⟩

theorem release_find (T : Sync.Table) :
    ((T.release i).findLocked n = some j → T.findLocked n = some j) ∧
      (n ≠ Sync.syncBase + i → T.findLocked n = some j → (T.release i).findLocked n = some j) := by
  simp only [Sync.Table.findLocked_eq_some, Sync.Table.release]
  by_cases hj : j = i
  · rw [hj, Sync.Table.modify_self]
    refine ⟨fun h => absurd rfl h.2.2.1, fun hne h => absurd h.1 hne⟩
  · rw [Sync.Table.modify_ne _ hj]
    exact ⟨fun h => h, fun _ h => h⟩

theorem closeHandle_spares (real : Bool) (s : State φ) (h : Nat) :
    Spares s (closeHandle real s h).1 h ∧ Shrinks s (closeHandle real s h).1 := by
  unfold closeHandle
  split
  · constructor
    · intro k' h' hv hne
      cases k' with
      | file => exact ⟨(List.mem_erase_of_ne hne).2 hv, rfl⟩
      | sync =>
        cases hf : s.sync.findLocked h with
        | none => exact ⟨hv, rfl⟩
        | some i =>
          obtain ⟨j, hj⟩ := Option.isSome_iff_exists.1 hv
          obtain ⟨rfl, -⟩ := Sync.Table.findLocked_eq_some.1 hf
          refine ⟨Option.isSome_iff_exists.2 ⟨j, (release_find s.sync).2 hne hj⟩, ?_⟩
          obtain ⟨rfl, -⟩ := Sync.Table.findLocked_eq_some.1 hj
          have hij : j ≠ i := fun he => hne (by rw [he])
          simp only [content, Sync.Table.release, Nat.add_sub_cancel_left,
            Sync.Table.modify_ne _ hij]
      | _ => exact ⟨hv, rfl⟩
    · intro k' h' hv
      cases k' with
      | file => exact List.mem_of_mem_erase hv
      | sync =>
        cases hf : s.sync.findLocked h with
        | none =>
          simp only [Valid, hf] at hv
          exact hv
        | some i =>
          simp only [Valid, hf] at hv
          obtain ⟨j, hj⟩ := Option.isSome_iff_exists.1 hv
          exact Option.isSome_iff_exists.2 ⟨j, (release_find s.sync).1 hj⟩
      | _ => exact hv
  · constructor
    · intro k' h' hv hne
      cases k' with
      | file => exact ⟨(List.mem_erase_of_ne hne).2 hv, rfl⟩
      | event =>
        refine ⟨⟨hv.1, ?_⟩, rfl⟩
        simp only [Events.closeHandle]
        split
        · rename_i hr
          exact (List.mem_erase_of_ne (slot_ne hv.1 hr hne)).2 hv.2
        · exact hv.2
      | _ => exact ⟨hv, rfl⟩
    · intro k' h' hv
      cases k' with
      | file => exact List.mem_of_mem_erase hv
      | event =>
        refine ⟨hv.1, ?_⟩
        have hl := hv.2
        simp only [Events.closeHandle] at hl
        split at hl
        · exact List.mem_of_mem_erase hl
        · exact hl
      | _ => exact hv

theorem call_spares (real : Bool) (s : State φ) (h : Nat) (op : Op φ) :
    Spares s (call real s h op).1 h ∧ Shrinks s (call real s h op).1 := by
  cases op with
  | closeHandle => exact closeHandle_spares real s h
  | waitForSingleObject => exact wait_spares real s h
  | readFile f =>
    simp only [call, readFile]
    split
    · exact ⟨content_spares _, content_shrinks _⟩
    · exact ⟨.refl s h, .refl s⟩
  | writeFile f =>
    simp only [call, writeFile]
    split
    · exact ⟨.refl s h, .refl s⟩
    · split
      · exact ⟨content_spares _, content_shrinks _⟩
      · exact ⟨.refl s h, .refl s⟩
  | getFileType => exact ⟨.refl s h, .refl s⟩

/-- A call does to its object what the object is for. -/
def Acts (real : Bool) (s : State φ) (k : Kind) (n : Nat) (op : Op φ) : Prop :=
  (call real s n op).2 = answer real op k (content s k n) ∧
    (op ≠ .closeHandle → Valid (call real s n op).1 k n ∧
      content (call real s n op).1 k n = after real op (content s k n))

theorem wait_real_acts (hi : Inv s) (h : Valid s k n) :
    Acts true s k n (.waitForSingleObject infinite t) := by
  obtain ⟨-, -, -, hsync⟩ := hi.other h
  by_cases hk : k = .sync
  · subst hk
    obtain ⟨i, hf⟩ := Option.isSome_iff_exists.1 h
    obtain ⟨rfl, -⟩ := Sync.Table.findLocked_eq_some.1 hf
    have hfind : (s.sync.modify i (Sync.acquireLocked · t)).findLocked (Sync.syncBase + i) =
        s.sync.findLocked (Sync.syncBase + i) :=
      (Sync.Table.keeps_acquire t).modify_find s.sync i _
    unfold Acts call wait
    simp only [if_true, hf, content, answer, after, Nat.add_sub_cancel_left, Bool.true_and]
    by_cases hs : Sync.satisfiedLocked (s.sync.objs i) t = true
    · simp only [hs, if_true]
      refine ⟨trivial, fun _ => ⟨(congrArg Option.isSome hfind).trans h, ?_⟩⟩
      simp only [Sync.Table.modify_self]
    · simp only [hs, Bool.false_eq_true, if_false]
      exact ⟨trivial, fun _ => ⟨h, trivial⟩⟩
  · unfold Acts call wait
    simp only [if_true, hsync hk]
    refine ⟨?_, fun _ => ⟨h, ?_⟩⟩
    · cases k <;> first | rfl | exact absurd rfl hk
    · cases k <;> first | rfl | exact absurd rfl hk

theorem wait_acts (hi : Inv s) (h : Valid s k n) :
    Acts false s k n (.waitForSingleObject infinite t) := by
  obtain ⟨hevent, -, hthread, -⟩ := hi.other h
  unfold Acts call wait
  simp only [Bool.false_eq_true, if_false]
  by_cases hk : k = .event
  · subst hk
    have hr : InRange n := h.1
    have hno := hthread nofun
    simp only [hr, true_and, hno, reduceCtorEq, or_false]
    cases hs : s.table.signalled (n - eventBase) with
    | false =>
      simp only [Bool.false_eq_true, if_false]
      refine ⟨?_, fun _ => ⟨h, ?_⟩⟩
      · simp [answer, content, Events.State.event, hs]
      · simp [after, content, Events.State.event, hs]
    | true =>
      simp only [if_true]
      refine ⟨?_, fun _ => ?_⟩
      · simp [answer, content, Events.State.event, hs]
      · cases hm : s.table.manual (n - eventBase) with
        | false =>
          have hc : eventConsume s.table n = { s.table with
              signalled := Function.update s.table.signalled (n - eventBase) false } :=
            if_pos ⟨hr, hm⟩
          rw [hc]
          refine ⟨h, ?_⟩
          simp [after, content, Events.State.event, hs, hm]
        | true =>
          have hc : eventConsume s.table n = s.table := if_neg (by simp [hm])
          rw [hc]
          refine ⟨h, ?_⟩
          simp [after, content, Events.State.event, hs, hm]
  · have hr := hevent hk
    have hsame : eventConsume s.table n = s.table := if_neg fun hc => hr hc.1
    simp only [hr, false_and, false_or, hsame]
    by_cases hx : threadExited s n = some true
    · have ht : k = .thread := by
        by_contra ht
        rw [hthread ht] at hx
        cases hx
      subst ht
      simp only [hx, if_true, content, answer, after, Option.getD_some]
      exact ⟨trivial, fun _ => ⟨h, trivial⟩⟩
    · simp only [hx, if_false]
      refine ⟨?_, fun _ => ⟨h, by cases k <;> first | rfl | exact absurd rfl hk⟩⟩
      cases k with
      | thread =>
        simp only [content, answer]
        cases he : threadExited s n with
        | none => rfl
        | some b =>
          cases b with
          | false => rfl
          | true => exact absurd he hx
      | event => exact absurd rfl hk
      | _ => rfl

theorem transfer_acts (h : Valid s k n) (f : φ → φ) :
    (k ≠ .file → content s k n = after real (.readFile f) (content s k n) ∧
      content s k n = after real (.writeFile f) (content s k n)) := by
  intro hk
  cases k with
  | file => exact absurd rfl hk
  | _ => exact ⟨rfl, rfl⟩

theorem call_acts (hi : Inv s) (h : Valid s k n) (op : Op φ) : Acts real s k n op := by
  obtain ⟨-, hfile, -, -⟩ := hi.other h
  cases op with
  | closeHandle =>
    refine ⟨?_, fun hne => absurd rfl hne⟩
    cases real <;> rfl
  | waitForSingleObject =>
    cases real with
    | false => exact wait_acts hi h
    | true => exact wait_real_acts hi h
  | readFile f =>
    by_cases hk : k = .file
    · subst hk
      have hmem : n ∈ s.table.files := h
      simp only [Acts, call, readFile, hmem, if_true, answer, content, Function.update_self, after,
        true_and]
      exact fun _ => ⟨h, trivial⟩
    · simp only [Acts, call, readFile, hfile hk, if_false, answer, hk, true_and]
      exact fun _ => ⟨h, (transfer_acts h f hk).1⟩
  | writeFile f =>
    by_cases hk : k = .file
    · subst hk
      have hmem : n ∈ s.table.files := h
      obtain ⟨hle, hlt⟩ := h.has hi
      have hlog : ¬ (n = 0xF1 ∨ n = 0xF2 ∨ n = 0x7301) := by
        simp only [Kind.base, Kind.room] at hle hlt
        omega
      simp only [Acts, call, writeFile, hlog, hmem, if_true, if_false, answer, content,
        Function.update_self, after, true_and]
      exact fun _ => ⟨h, trivial⟩
    · simp only [Acts, call, writeFile, hfile hk, if_false, ite_self, answer, true_and]
      exact fun _ => ⟨h, (transfer_acts h f hk).2⟩
  | getFileType =>
    refine ⟨?_, fun _ => ⟨h, by cases k <;> rfl⟩⟩
    simp only [call, answer, getFileType]
    by_cases hk : k = .file
    · obtain ⟨hle, hlt⟩ := h.has hi
      subst hk
      rw [if_pos rfl, if_pos ⟨hle, hlt⟩]
    · have hno : ¬ (0x100 ≤ n ∧ n < 0x200) := fun hr =>
        hk ((h.has hi).eq (show Kind.file.Has n from hr))
      rw [if_neg hk, if_neg hno]

theorem Inv.faithful (hi : Inv s) (real : Bool) : Faithful real s where
  one := hi.one
  answers op h := (call_acts hi h op).1
  becomes op h hne := (call_acts hi h op).2 hne
  closes h hv := by
    rename_i n
    have hout : n ∉ s.table.files.erase n := hi.nodup.not_mem_erase
    cases real with
    | true => exact hout hv
    | false => exact hout hv
  spares op h hv hne := by
    rename_i k n k' n'
    by_cases hn : n' = n
    · subst hn
      exact absurd (by rw [hi.one hv h]) hne
    · exact (call_spares real s n op).1 k' n' hv hn
  nothing op hv := (call_spares real s _ op).2 _ _ hv

-- ---------------------------------------------------------------------------
-- Runs
-- ---------------------------------------------------------------------------

/-- What the invariant says of the table of events and files. -/
def TableOk (t : Events.State) : Prop :=
  (t.files.Nodup ∧ (∀ h ∈ t.files, fileBase ≤ h ∧ h < eventBase ∧ h < t.nextFile) ∧
    fileBase ≤ t.nextFile) ∧ (∀ i ∈ t.free ++ t.live, i < maxEvents) ∧ t.next ≤ maxEvents

theorem Inv.table (hi : Inv s) : TableOk s.table :=
  ⟨⟨hi.nodup, hi.file, hi.nextFile⟩, hi.slot, hi.next⟩

theorem Inv.withTable (hi : Inv s) (ht : TableOk t) : Inv { s with table := t } :=
  ⟨ht.1.1, ht.1.2.1, ht.1.2.2, ht.2.1, ht.2.2, hi.threads, hi.works, hi.maps⟩

theorem takeSlot_ok (ht : TableOk t) (h : takeSlot t = some (i, t')) :
    i < maxEvents ∧ TableOk t' ∧ t'.live = t.live := by
  obtain ⟨hfiles, hslot, hnext⟩ := ht
  unfold takeSlot at h
  split at h
  · rename_i j free hfree
    obtain ⟨rfl, rfl⟩ := Prod.mk.inj (Option.some.inj h)
    rw [hfree] at hslot
    refine ⟨hslot j (List.mem_cons_self ..), ⟨hfiles, fun i hm => ?_, hnext⟩, rfl⟩
    exact hslot i (List.mem_cons_of_mem _ hm)
  · simp only [Option.ite_none_right_eq_some, Option.some.injEq, Prod.mk.injEq] at h
    obtain ⟨hlt, rfl, rfl⟩ := h
    exact ⟨hlt, ⟨hfiles, hslot, hlt⟩, rfl⟩

/-- A slot below the end of the table goes into use. -/
theorem TableOk.use (ht : TableOk t) (hi : i < maxEvents) (sig man : Nat → Bool) :
    TableOk { t with signalled := sig, manual := man, live := i :: t.live } := by
  refine ⟨ht.1, fun j hj => ?_, ht.2.2⟩
  rcases List.mem_append.1 hj with hj | hj
  · exact ht.2.1 j (List.mem_append_left _ hj)
  · rcases List.mem_cons.1 hj with rfl | hj
    · exact hi
    · exact ht.2.1 j (List.mem_append_right _ hj)

theorem newEvent_ok (ht : TableOk t) (man sig : Bool) : TableOk (newEvent t man sig).1 := by
  unfold newEvent
  split
  · exact ht
  · rename_i h
    obtain ⟨hlt, ht', -⟩ := takeSlot_ok ht h
    exact ht'.use hlt _ _

theorem createMutex_ok (ht : TableOk t) : TableOk (Events.createMutex t).1 := by
  unfold Events.createMutex
  split
  · rename_i hlt
    have hnew : TableOk { t with next := t.next + 1 } := ⟨ht.1, ht.2.1, hlt⟩
    exact hnew.use hlt _ _
  · exact ht

theorem openFile_ok (ht : TableOk t)
    (hok : t.files.length < maxFiles → t.nextFile < eventBase) : TableOk (openFile t).1 := by
  unfold openFile
  split
  · rename_i hroom
    obtain ⟨⟨hnodup, hfile, hnext⟩, hrest⟩ := ht
    have hnew : t.nextFile ∉ t.files := fun hm => Nat.lt_irrefl _ (hfile _ hm).2.2
    refine ⟨⟨List.nodup_cons.2 ⟨hnew, hnodup⟩, ?_, Nat.le_succ_of_le hnext⟩, hrest⟩
    rintro h hm
    rcases List.mem_cons.1 hm with rfl | hm
    · exact ⟨hnext, hok hroom, Nat.lt_succ_self _⟩
    · obtain ⟨hle, hlt, hold⟩ := hfile h hm
      exact ⟨hle, hlt, Nat.lt_succ_of_lt hold⟩
  · exact ht

theorem closeFile_ok (ht : TableOk t) (h : Nat) : TableOk { t with files := t.files.erase h } :=
  ⟨⟨ht.1.1.erase h, fun g hg => ht.1.2.1 g (List.mem_of_mem_erase hg), ht.1.2.2⟩, ht.2⟩

theorem closeHandle_ok (ht : TableOk t) (h : Nat) : TableOk (Events.closeHandle t h).1 := by
  obtain ⟨hfiles, hslot, hnext⟩ := ht
  refine ⟨(closeFile_ok ⟨hfiles, hslot, hnext⟩ h).1, fun i hi => ?_, hnext⟩
  rcases List.mem_append.1 hi with hi | hi
  · simp only [Events.closeHandle] at hi
    split at hi
    · rename_i hr
      rcases List.mem_cons.1 hi with he | hi
      · obtain ⟨⟨hle, hlt⟩, -⟩ := hr
        omega
      · exact hslot i (List.mem_append_left _ hi)
    · exact hslot i (List.mem_append_left _ hi)
  · simp only [Events.closeHandle] at hi
    split at hi
    · exact hslot i (List.mem_append_right _ (List.mem_of_mem_erase hi))
    · exact hslot i (List.mem_append_right _ hi)

theorem newSync_inv (hi : Inv s) (ty : Sync.ObjType) (set : Sync.SyncObj → Sync.SyncObj) :
    Inv (newSync s ty set).1 := by
  unfold newSync
  split
  · exact ⟨hi.nodup, hi.file, hi.nextFile, hi.slot, hi.next, hi.threads, hi.works, hi.maps⟩
  · exact hi

theorem Inv.withContent (hi : Inv s) (c : Nat → φ) (sync : Sync.Table) :
    Inv { s with content := c, sync } :=
  ⟨hi.nodup, hi.file, hi.nextFile, hi.slot, hi.next, hi.threads, hi.works, hi.maps⟩

theorem call_inv (hi : Inv s) (real : Bool) (h : Nat) (op : Op φ) : Inv (call real s h op).1 := by
  cases op with
  | closeHandle =>
    cases real with
    | true =>
      obtain ⟨⟨hnodup, hfile, hnext⟩, hslots⟩ := closeFile_ok hi.table h
      exact ⟨hnodup, hfile, hnext, hslots.1, hslots.2, hi.threads, hi.works, hi.maps⟩
    | false => exact hi.withTable (closeHandle_ok hi.table h)
  | waitForSingleObject infinite t =>
    unfold call wait
    cases real with
    | true =>
      simp only [if_true]
      split
      · split
        · exact hi.withContent s.content _
        · exact hi
      · exact hi
    | false =>
      simp only [Bool.false_eq_true, if_false]
      split
      · refine hi.withTable ?_
        unfold eventConsume
        split
        · exact hi.table
        · exact hi.table
      · exact hi
  | readFile f =>
    simp only [call, readFile]
    split
    · exact hi.withContent _ s.sync
    · exact hi
  | writeFile f =>
    simp only [call, writeFile]
    split
    · exact hi
    · split
      · exact hi.withContent _ s.sync
      · exact hi
  | getFileType => exact hi

theorem act_inv (hi : Inv s) (real : Bool) (hok : Proper s a) : Inv (act real s a).1 := by
  cases a with
  | createEvent =>
    cases real with
    | true => exact newSync_inv hi _ _
    | false => exact hi.withTable (newEvent_ok hi.table _ _)
  | createMutex =>
    cases real with
    | true => exact newSync_inv hi _ _
    | false => exact hi.withTable (createMutex_ok hi.table)
  | setEvent h =>
    unfold act
    cases real with
    | true =>
      simp only [if_true]
      split
      · split
        · exact hi.withContent s.content _
        · exact hi
      · exact hi
    | false =>
      simp only [Bool.false_eq_true, if_false]
      split
      · exact hi.withTable hi.table
      · exact hi
  | createFile x => exact (hi.withContent _ s.sync).withTable (openFile_ok hi.table hok)
  | socket =>
    simp only [act]
    split
    · exact ⟨hi.nodup, hi.file, hi.nextFile, hi.slot, hi.next, hi.threads, hi.works, hi.maps⟩
    · exact hi
  | closesocket h =>
    simp only [act]
    split
    · exact ⟨hi.nodup, hi.file, hi.nextFile, hi.slot, hi.next, hi.threads, hi.works, hi.maps⟩
    · exact hi
  | createThread spawned =>
    simp only [act, createThread]
    split
    · exact newSync_inv hi _ _
    · split
      · rename_i hlt
        refine ⟨hi.nodup, hi.file, hi.nextFile, hi.slot, hi.next, ?_, hi.works, hi.maps⟩
        rw [List.length_append]
        exact hlt
      · exact hi
  | exitThread i =>
    refine ⟨hi.nodup, hi.file, hi.nextFile, hi.slot, hi.next, ?_, hi.works, hi.maps⟩
    exact Nat.le_trans (Nat.le_of_eq (List.length_set ..)) hi.threads
  | createPipe | createIoCompletionPort =>
    exact ⟨hi.nodup, hi.file, hi.nextFile, hi.slot, hi.next, hi.threads, hi.works, hi.maps⟩
  | createThreadpoolWork =>
    simp only [act]
    split
    · rename_i hlt
      exact ⟨hi.nodup, hi.file, hi.nextFile, hi.slot, hi.next, hi.threads, hlt, hi.maps⟩
    · exact hi
  | createFileMapping =>
    simp only [act]
    split
    · rename_i hlt
      exact ⟨hi.nodup, hi.file, hi.nextFile, hi.slot, hi.next, hi.threads, hi.works, hlt⟩
    · exact hi
  | load =>
    exact ⟨hi.nodup, hi.file, hi.nextFile, hi.slot, hi.next, Nat.le_add_left 1 31, hi.works,
      hi.maps⟩
  | call h op => exact call_inv hi real h op

/-- As long as no file is opened once 256 have been, every handle is of one object. -/
theorem handle_kinds_law (real : Bool) (x : φ)
    (h : Run (step real) Proper (.init x) tr s) : Faithful real s := by
  refine Inv.faithful (h.invariant (P := fun _ s => Inv s) (init_inv x) ?_) real
  rintro _ s a s' _ hi hok hst
  obtain rfl := (congrArg Prod.fst (Option.some.inj hst) : (act real s a).1 = s')
  exact act_inv hi real hok

instance (s : State φ) (a : Action φ) : Decidable (Proper s a) := by
  cases a <;> unfold Proper <;> infer_instance

theorem handle_kinds_law_mixed : ∃ tr s, Run (step false) Proper (State.init ()) tr s ∧
    Faithful false s ∧ s.table.files = [0x101] ∧ s.table.live = [0] := by
  have hexec : (exec (step false) Proper (State.init ()) [.createEvent 1 0, .createFile (),
      .createFile (), .socket, .createThread false, .createPipe, .call 0x100 .closeHandle]).any
      (fun r => decide (r.2.table.files = [0x101] ∧ r.2.table.live = [0])) = true := by
    decide
  obtain ⟨tr, s, hrun, hs⟩ := Run.of_exec_any hexec
  exact ⟨tr, s, hrun, handle_kinds_law false () hrun, of_decide_eq_true hs⟩

/-- An event, and `n` files opened and closed one after another. -/
def opened (n : Nat) : State Unit :=
  let s := (act false (.init ()) (.createEvent 1 0)).1
  { s with table := { s.table with nextFile := 0x100 + n } }

theorem opened_run (n : Nat) (h : n ≤ 0x100) :
    ∃ tr, Run (step false) anyStep (State.init ()) tr (opened n) := by
  induction n with
  | zero => exact ⟨_, .single (a := .createEvent 1 0) trivial rfl⟩
  | succ n ih =>
    obtain ⟨tr, hrun⟩ := ih (Nat.le_of_succ_le h)
    have hclose : act false (act false (opened n) (.createFile ())).1
        (.call (0x100 + n) .closeHandle) = (opened (n + 1), 1) := by
      have hr : ¬ InRange (0x100 + n) := fun hr => by
        have hle : 0x200 ≤ 0x100 + n := hr.1
        omega
      simp [act, call, closeHandle, Events.closeHandle, opened, Events.createEvent, newEvent,
        takeSlot, State.init, Events.State.init, openFile, maxFiles, maxEvents, fileBase, hr,
        Nat.add_assoc]
    have hopen : Run (step false) anyStep (State.init ()) _ _ :=
      hrun.snoc (a := .createFile ()) trivial rfl
    exact ⟨_, hopen.snoc trivial (congrArg some hclose)⟩

/-- The 257th file gets the handle of the first event. -/
theorem event_handle_twice : ∃ tr s, Run (step false) anyStep (State.init ()) tr s ∧
    Valid s .file 0x200 ∧ Valid s .event 0x200 := by
  obtain ⟨tr, hrun⟩ := opened_run 0x100 (Nat.le_refl _)
  refine ⟨_, _, hrun.snoc trivial (a := .createFile ()) rfl, ?_, ?_⟩
  · exact List.mem_cons_self ..
  · exact ⟨by decide, List.mem_cons_self ..⟩

end WineGlass.HandleKinds
