import WineGlass.Lib.Run
import WineGlass.Lib.Stdio

/-!
# File handles

`wg_win32_files.c` over the streams of ISO C, and the handlers of `wg_engine.c` that call
it, for paths without configuration injection; beside them the Win32 model, a byte array
with a position. `F` are the files of the host. An entry's `access` is not in the source:
it notes what its opener asked for; `dirty` is what only `fclose` is sure to transmit.
-/

namespace WineGlass.FileHandles

open Stdio Runs

abbrev U32 := BitVec 32
abbrev U64 := BitVec 64
abbrev Byte := BitVec 8

/-- `INVALID_HANDLE_VALUE` and `INVALID_SET_FILE_POINTER`. -/
def invalid : U32 := 0xFFFFFFFF

def wantsRead (access : U32) : Bool := access &&& 0x80000000 ≠ 0
def wantsWrite (access : U32) : Bool := access &&& 0x40000000 ≠ 0

inductive Disposition
  | createNew | createAlways | openExisting | openAlways | truncateExisting
  deriving DecidableEq, Repr

def Disposition.code : Disposition → U32
  | .createNew => 1
  | .createAlways => 2
  | .openExisting => 3
  | .openAlways => 4
  | .truncateExisting => 5

inductive Action (F : Type)
  | create (path : F) (access : U32) (creation : Disposition)
  | read (h : U32) (count : U32) (overlapped : Option U64)
  | write (h : U32) (data : List Byte) (overlapped : Option U64)
  | seek (h : U32) (distance : U32) (high : Option U32) (method : Whence)
  | close (h : U32)
  deriving DecidableEq

/-- What a call returns and stores; `high` is what stands behind `lpDistanceToMoveHigh`. -/
inductive Result
  | handle (h : U32)
  | read (ok : Bool) (data : List Byte)
  | written (ok : Bool) (count : U32)
  | pointer (low : U32) (high : Option U32)
  | closed (ok : Bool)
  deriving DecidableEq, Repr

-- ---------------------------------------------------------------------------
-- The code
-- ---------------------------------------------------------------------------

/-- `WGFileEntry`. -/
structure Entry (F : Type) where
  handle : U32
  path : F
  fp : Stream
  access : U32
  dirty : Bool

/-- `WG_MAX_FILE_HANDLES` entries. -/
structure Sys (F : Type) where
  disk : F → Node Byte
  files : Fin 64 → Option (Entry F)
  nextHandle : U32

def Sys.load (disk : F → Node Byte) : Sys F := ⟨disk, fun _ => none, 0x100⟩

def modeOf (access creation : U32) : Mode :=
  if creation = 1 then if wantsWrite access then .wbPlus else .rb
  else if creation = 2 then .wbPlus
  else if creation = 3 then if wantsWrite access then .rbPlus else .rb
  else if creation = 4 then if wantsWrite access then .abPlus else .rb
  else if creation = 5 then .wb
  else if wantsWrite access then .wbPlus else .rb

variable {F : Type}

def Sys.content (s : Sys F) (e : Entry F) : List Byte := (s.disk e.path).bytes

/-- `find_file`. -/
def Sys.find (s : Sys F) (h : U32) : Option (Fin 64 × Entry F) :=
  (List.finRange 64).findSome? fun i =>
    (s.files i).bind fun e => if e.handle = h then some (i, e) else none

def Sys.put (s : Sys F) (i : Fin 64) (e : Entry F) : Sys F :=
  { s with files := Function.update s.files i (some e) }

def Sys.free (s : Sys F) : Option (Fin 64) :=
  (List.finRange 64).find? fun i => (s.files i).isNone

/-- `wg_files_ensure_parents`. -/
def ensureParents (n : Node Byte) : Node Byte :=
  match n with
  | .nowhere => .absent
  | n => n

/-- `WF_CHUNK`. -/
def chunk : Nat := 0x100000

/-- The loop of `WriteFile`: a `wg_files_write` for each chunk, until one is short. -/
def writeLoop : Nat → List Byte → Stream → List Byte → Nat → Option (Nat × List Byte × Stream)
  | 0, c, f, _, total => some (total, c, f)
  | fuel + 1, c, f, data, total =>
    if data.isEmpty then some (total, c, f)
    else
      match fwrite 0 c f (data.take chunk) with
      | none => none
      | some (nw, c, f) =>
        if nw < (data.take chunk).length then some (total + nw, c, f)
        else writeLoop fuel c f (data.drop chunk) (total + nw)

/-- The standard streams and a pipe, by number. -/
def spewed (h : U32) : Bool := h = 0xF1 ∨ h = 0xF2 ∨ h = 0x7301

/-- `ReadFile`, at most 128 MB at once. -/
def readFile (s : Sys F) (h count : U32) (overlapped : Option U64) : Option (Result × Sys F) :=
  match s.find h with
  | none => some (.read false [], s)
  | some (i, e) =>
    let fp := match overlapped with
      | some offset => fseek (s.content e) e.fp offset.toInt .set
      | none => fseek (s.content e) e.fp 0 .cur
    match fread (s.content e) fp (min count.toNat 0x8000000) with
    | none => none
    | some (bs, fp) => some (.read true bs, s.put i { e with fp })

/-- `SetFilePointer`, with what `fseek` leaves told by `ftell`. -/
def setFilePointer (s : Sys F) (h distance : U32) (high : Option U32) (method : Whence) :
    Result × Sys F :=
  match s.find h with
  | none => (.pointer invalid high, s)
  | some (i, e) =>
    let fp := fseek (s.content e) e.fp distance.toInt method
    (.pointer (.ofNat 32 fp.pos) high, s.put i { e with fp })

/-- `CloseHandle`. -/
def closeHandle (s : Sys F) (h : U32) : Result × Sys F :=
  match s.find h with
  | none => (.closed true, s)
  | some (i, _) => (.closed true, { s with files := Function.update s.files i none })

/-- Nothing that another stream has written on the path is still to be transmitted. -/
def Sys.Quiet (s : Sys F) (path : F) (h : Option U32) : Prop :=
  ∀ i, ∀ e ∈ s.files i, e.path = path → some e.handle ≠ h → e.dirty = false

def Sys.Alone (s : Sys F) (path : F) (h : Option U32) : Prop :=
  ∀ i, ∀ e ∈ s.files i, e.path = path → some e.handle = h

/-- What a stream sees does not hang on another stream's buffer. -/
def Sys.Clear (s : Sys F) : Action F → Prop
  | .create path _ creation => s.Quiet path none ∧
      (creation = .createAlways ∨ creation = .createNew ∨ creation = .truncateExisting →
        s.Alone path none)
  | .read h .. | .seek h .. => ∀ r ∈ s.find h, s.Quiet r.2.path (some h)
  | .write h data _ => data = [] ∨ ∀ r ∈ s.find h, s.Alone r.2.path (some h)
  | .close _ => True

section
variable [DecidableEq F]

/-- `wg_files_create`; the file is opened, and perhaps emptied, before an entry is sought. -/
def filesCreate (endFirst : Bool) (s : Sys F) (path : F) (access creation : U32) : U32 × Sys F :=
  let mode := modeOf access creation
  let retry := fopen mode endFirst (s.disk path) = none ∧ (creation = 2 ∨ creation = 4)
  let node := if retry then ensureParents (s.disk path) else s.disk path
  match fopen mode endFirst node with
  | none => (invalid, { s with disk := Function.update s.disk path node })
  | some (fp, c) =>
    let s := { s with disk := Function.update s.disk path (.file c) }
    match s.free with
    | none => (invalid, s)
    | some i =>
      (s.nextHandle, { s.put i ⟨s.nextHandle, path, fp, access, false⟩ with
        nextHandle := s.nextHandle + 1 })

/-- `WriteFile`; it does not look at `lpOverlapped`. -/
def writeFile (s : Sys F) (h : U32) (data : List Byte) : Option (Result × Sys F) :=
  if spewed h then some (.written true (.ofNat 32 data.length), s)
  else
    match s.find h with
    | none => some (.written true (.ofNat 32 data.length), s)
    | some (i, e) =>
      match writeLoop data.length (s.content e) e.fp data 0 with
      | none => none
      | some (total, c, fp) =>
        some (.written true (.ofNat 32 total),
          { s.put i { e with fp, dirty := e.dirty || !data.isEmpty } with
            disk := if data.isEmpty then s.disk else Function.update s.disk e.path (.file c) })

instance (s : Sys F) (path : F) (h : Option U32) : Decidable (s.Quiet path h) :=
  inferInstanceAs (Decidable (∀ i, ∀ e ∈ s.files i, e.path = path → some e.handle ≠ h →
    e.dirty = false))

instance (s : Sys F) (path : F) (h : Option U32) : Decidable (s.Alone path h) :=
  inferInstanceAs (Decidable (∀ i, ∀ e ∈ s.files i, e.path = path → some e.handle = h))

instance (s : Sys F) (a : Action F) : Decidable (s.Clear a) :=
  match a with
  | .create path _ creation => inferInstanceAs (Decidable (s.Quiet path none ∧
      (creation = .createAlways ∨ creation = .createNew ∨ creation = .truncateExisting →
        s.Alone path none)))
  | .read h .. | .seek h .. =>
    inferInstanceAs (Decidable (∀ r ∈ s.find h, s.Quiet r.2.path (some h)))
  | .write h data _ =>
    inferInstanceAs (Decidable (data = [] ∨ ∀ r ∈ s.find h, s.Alone r.2.path (some h)))
  | .close _ => .isTrue trivial

def Sys.act (endFirst : Bool) (s : Sys F) : Action F → Option (Sys F × Result)
  | .create path access creation =>
    let r := filesCreate endFirst s path access creation.code
    some (r.2, .handle r.1)
  | .read h count overlapped => (readFile s h count overlapped).map Prod.swap
  | .write h data _ => (writeFile s h data).map Prod.swap
  | .seek h distance high method => some (setFilePointer s h distance high method).swap
  | .close h => some (closeHandle s h).swap

/-- A step is `none` where ISO C leaves it open. -/
def Sys.step (endFirst : Bool) (s : Sys F) (a : Action F) : Option (Sys F × Result) :=
  if s.Clear a then s.act endFirst a else none

end

-- ---------------------------------------------------------------------------
-- The Win32 model
-- ---------------------------------------------------------------------------

structure Open (F : Type) where
  path : F
  read : Bool
  write : Bool
  pos : Nat

structure Win (F : Type) where
  disk : F → Node Byte
  handles : U32 → Option (Open F)

def Win.load (disk : F → Node Byte) : Win F := ⟨disk, fun _ => none⟩

/-- The content a file is opened with. -/
def Disposition.opens (d : Disposition) (write : Bool) : Node Byte → Option (List Byte)
  | .nowhere => none
  | .absent =>
    match d with
    | .createNew | .createAlways | .openAlways => some []
    | .openExisting | .truncateExisting => none
  | .file c =>
    match d with
    | .createNew => none
    | .createAlways => some []
    | .openExisting | .openAlways => some c
    | .truncateExisting => if write then some [] else none

def Win.content (w : Win F) (o : Open F) : List Byte := (w.disk o.path).bytes

def Win.put (w : Win F) (h : U32) (o : Open F) : Win F :=
  { w with handles := Function.update w.handles h (some o) }

/-- A distance of 32 bits is signed, one of 64 as a whole. -/
def distanceOf (low : U32) : Option U32 → Int
  | none => low.toInt
  | some high => high.toInt * 2 ^ 32 + low.toNat

def Win.origin (w : Win F) (o : Open F) : Whence → Nat
  | .set => 0
  | .cur => o.pos
  | .last => (w.content o).length

section
variable [DecidableEq F]

/-- A call, where `fresh` is the handle a creation would give. -/
def Win.act (fresh : U32) (w : Win F) : Action F → Win F × Result
  | .create path access d =>
    match d.opens (wantsWrite access) (w.disk path) with
    | none => (w, .handle invalid)
    | some c =>
      ({ w.put fresh ⟨path, wantsRead access, wantsWrite access, 0⟩ with
        disk := Function.update w.disk path (.file c) }, .handle fresh)
  | .read h count overlapped =>
    match w.handles h with
    | none => (w, .read false [])
    | some o =>
      let pos := (overlapped.map BitVec.toNat).getD o.pos
      if !o.read || overlapped.isSome && (w.content o).length ≤ pos then (w, .read false [])
      else
        let bs := ((w.content o).drop pos).take count.toNat
        (w.put h { o with pos := pos + bs.length }, .read true bs)
  | .write h data overlapped =>
    match w.handles h with
    | none => (w, .written false 0)
    | some o =>
      if !o.write then (w, .written false 0)
      else
        let pos := match overlapped with
          | none => o.pos
          | some offset => if offset = -1 then (w.content o).length else offset.toNat
        ({ w.put h { o with pos := pos + data.length } with
          disk := if data.isEmpty then w.disk
            else Function.update w.disk o.path (.file (overwrite 0 (w.content o) pos data)) },
          .written true (.ofNat 32 data.length))
  | .seek h distance high method =>
    match w.handles h with
    | none => (w, .pointer invalid high)
    | some o =>
      let target := w.origin o method + distanceOf distance high
      if target < 0 ∨ high = none ∧ 2 ^ 32 ≤ target then (w, .pointer invalid high)
      else (w.put h { o with pos := target.toNat },
        .pointer (.ofNat 32 target.toNat) (high.map fun _ => .ofNat 32 (target.toNat / 2 ^ 32)))
  | .close h =>
    match w.handles h with
    | none => (w, .closed false)
    | some _ => ({ w with handles := Function.update w.handles h none }, .closed true)

/-- The runs of the Win32 model: a creation gives any handle that is not in use. -/
inductive Win.Run (disk : F → Node Byte) : List (Action F × Result) → Win F → Prop
  | nil : Win.Run disk [] (.load disk)
  | snoc : Win.Run disk tr w → w.act fresh a = (w', r) →
      (r = .handle fresh → w.handles fresh = none ∧ fresh ≠ invalid) →
      Win.Run disk (tr ++ [(a, r)]) w'

end

-- ---------------------------------------------------------------------------
-- The condition
-- ---------------------------------------------------------------------------

/-- What `fopen` does is what the disposition asks for. -/
def Suits (endFirst write : Bool) (n : Node Byte) : Disposition → Prop
  | .createNew => n = .nowhere ∨ write = true ∧ n = .absent
  | .createAlways => n ≠ .nowhere
  | .openExisting => True
  | .openAlways => n ≠ .nowhere ∧
      if write then endFirst = true → n.bytes = [] else n ≠ .absent
  | .truncateExisting => n = .nowhere ∨ write = true ∧ n ≠ .absent

def Sys.Room (s : Sys F) : Prop :=
  (∃ i, s.files i = none) ∧ s.nextHandle ≠ invalid ∧
    ∀ i, ∀ e ∈ s.files i, e.handle ≠ s.nextHandle

/-- The stream of a write is turned to output and at the end if it appends. -/
def Turned (s : Sys F) (e : Entry F) : Prop :=
  e.fp.last ≠ .input false ∧ (e.fp.append = true → e.fp.pos = (s.content e).length)

/-- An offset of `OVERLAPPED` is that of a byte there is. -/
def Within (c : List Byte) : Option U64 → Prop
  | none => True
  | some offset => offset.toNat < 2 ^ 63 ∧ offset.toNat < c.length

/-- A high half says no more than the low half alone. -/
def Plain (distance : U32) : Option U32 → Prop
  | none => True
  | some high => high = 0 ∧ distance.toNat < 2 ^ 31

def Meets (endFirst : Bool) (s : Sys F) (a : Action F) : Prop :=
  s.Clear a ∧
  match a with
  | .create path access d => Suits endFirst (wantsWrite access) (s.disk path) d ∧
      ((d.opens (wantsWrite access) (s.disk path)).isSome → s.Room)
  | .read h count overlapped => ∀ r ∈ s.find h,
      wantsRead r.2.access = true ∧ r.2.fp.readable = true ∧
      Within (s.content r.2) overlapped ∧
      (count.toNat ≤ 0x8000000 ∨ (s.content r.2).length ≤
        (overlapped.map BitVec.toNat).getD r.2.fp.pos + 0x8000000)
  | .write h data overlapped => spewed h = false ∧ (s.find h).isSome = true ∧
      ∀ r ∈ s.find h, wantsWrite r.2.access = true ∧ overlapped = none ∧ (data ≠ [] → Turned s r.2)
  | .seek h distance high method => ∀ r ∈ s.find h,
      Plain distance high ∧
      0 ≤ method.origin (s.content r.2) r.2.fp + distance.toInt ∧
      method.origin (s.content r.2) r.2.fp + distance.toInt < 2 ^ 32
  | .close h => (s.find h).isSome = true

-- ---------------------------------------------------------------------------
-- The table
-- ---------------------------------------------------------------------------

theorem find_some {s : Sys F} (h : s.find x = some (i, e)) : s.files i = some e ∧ e.handle = x := by
  obtain ⟨j, -, hj⟩ := List.exists_of_findSome?_eq_some h
  obtain ⟨e', he', hif⟩ := Option.bind_eq_some_iff.1 hj
  obtain ⟨hx, heq⟩ := Option.ite_none_right_eq_some.1 hif
  obtain ⟨rfl, rfl⟩ := Prod.mk.inj (Option.some.inj heq)
  exact ⟨he', hx⟩

theorem find_none {s : Sys F} (h : s.find x = none) (i : Fin 64) (e : Entry F)
    (hi : s.files i = some e) : e.handle ≠ x := by
  have hnone := List.findSome?_eq_none_iff.1 h i (List.mem_finRange i)
  simpa [hi] using hnone

theorem free_some {s : Sys F} (h : s.free = some i) : s.files i = none := by
  simpa using List.find?_some h

theorem free_none {s : Sys F} (h : s.free = none) (i : Fin 64) : s.files i ≠ none := by
  have hnone := List.find?_eq_none.1 h i (List.mem_finRange i)
  simpa using hnone

-- ---------------------------------------------------------------------------
-- Refinement
-- ---------------------------------------------------------------------------

def Entry.view (e : Entry F) : Open F := ⟨e.path, wantsRead e.access, wantsWrite e.access, e.fp.pos⟩

/-- The handles of the model are those of the table, with the positions of their streams. -/
structure Refines (s : Sys F) (w : Win F) : Prop where
  disk : w.disk = s.disk
  opens (i : Fin 64) (e : Entry F) : s.files i = some e → w.handles e.handle = some e.view
  only (h : U32) (o : Open F) : w.handles h = some o → ∃ i e, s.files i = some e ∧ e.handle = h
  distinct (i j : Fin 64) (e e' : Entry F) : s.files i = some e → s.files j = some e' →
    e.handle = e'.handle → i = j
  writable (i : Fin 64) (e : Entry F) : s.files i = some e → wantsWrite e.access = true →
    e.fp.writable = true

variable {s : Sys F} {w : Win F} {i : Fin 64} {e e' : Entry F} {endFirst : Bool}

theorem load_refines (disk : F → Node Byte) : Refines (.load disk) (.load disk) where
  disk := rfl
  opens _ _ h := by cases h
  only _ _ h := by cases h
  distinct _ _ _ _ h := by cases h
  writable _ _ h := by cases h

theorem Refines.unknown (h : Refines s w) (hx : s.find x = none) : w.handles x = none := by
  cases hw : w.handles x with
  | none => rfl
  | some o =>
    obtain ⟨i, e, hi, he⟩ := h.only x o hw
    exact absurd he (find_none hx i e hi)

theorem Refines.known (h : Refines s w) (hx : s.find x = some (i, e)) :
    w.handles x = some e.view := by
  obtain ⟨hi, rfl⟩ := find_some hx
  exact h.opens i e hi

theorem Refines.content (h : Refines s w) (e : Entry F) : w.content e.view = s.content e := by
  rw [Win.content, h.disk]
  rfl

/-- An entry stored under a handle that no other entry has. -/
theorem Refines.store (h : Refines s w) (hi : ∀ a, s.files i = some a → a.handle = e.handle)
    (hother : ∀ j a, s.files j = some a → a.handle = e.handle → j = i)
    (hw : wantsWrite e.access = true → e.fp.writable = true) (d : F → Node Byte) (n : U32) :
    Refines { s.put i e with disk := d, nextHandle := n }
      { w.put e.handle e.view with disk := d } := by
  have hcases : ∀ {j a}, (s.put i e).files j = some a →
      j = i ∧ a = e ∨ j ≠ i ∧ s.files j = some a := by
    intro j a hj
    by_cases hji : j = i
    · subst hji
      exact .inl ⟨rfl, by simpa [Sys.put] using hj.symm⟩
    · exact .inr ⟨hji, by simpa [Sys.put, hji] using hj⟩
  constructor
  · rfl
  · intro j a hj
    obtain ⟨rfl, rfl⟩ | ⟨hji, hj⟩ := hcases hj
    · simp [Win.put]
    · have hne : a.handle ≠ e.handle := fun heq => hji (hother j a hj heq)
      simpa [Win.put, hne] using h.opens j a hj
  · intro x o hx
    by_cases hxe : x = e.handle
    · exact ⟨i, e, by simp [Sys.put], hxe.symm⟩
    · obtain ⟨j, a, hj, rfl⟩ := h.only x o (by simpa [Win.put, hxe] using hx)
      have hji : j ≠ i := by
        rintro rfl
        exact hxe (hi a hj)
      exact ⟨j, a, by simpa [Sys.put, hji] using hj, rfl⟩
  · intro j k a b hj hk heq
    obtain ⟨rfl, rfl⟩ | ⟨hji, hj'⟩ := hcases hj
    · obtain ⟨rfl, rfl⟩ | ⟨hki, hk'⟩ := hcases hk
      · rfl
      · exact (hother k b hk' heq.symm).symm
    · obtain ⟨rfl, rfl⟩ | ⟨hki, hk'⟩ := hcases hk
      · exact hother j a hj' heq
      · exact h.distinct j k a b hj' hk' heq
  · intro j a hj hwrite
    obtain ⟨rfl, rfl⟩ | ⟨hji, hj⟩ := hcases hj
    · exact hw hwrite
    · exact h.writable j a hj hwrite

/-- A call on an open file changes its stream, and perhaps the disk. -/
theorem Refines.put (h : Refines s w) (hx : s.find x = some (i, e)) (e' : Entry F)
    (hh : e'.handle = e.handle)
    (ha : e'.access = e.access) (hw : e'.fp.writable = e.fp.writable) (d : F → Node Byte) :
    Refines { s.put i e' with disk := d } { w.put x e'.view with disk := d } := by
  obtain ⟨hi, rfl⟩ := find_some hx
  rw [← hh]
  refine h.store (fun a ha => ?_) (fun j a hj heq => ?_) (fun hwrite => ?_) d s.nextHandle
  · rw [hh, Option.some.inj (ha.symm.trans hi)]
  · exact h.distinct j i a e hj hi (heq.trans hh)
  · rw [hw]
    exact h.writable i e hi (ha ▸ hwrite)

/-- Only its stream. -/
theorem Refines.stream (h : Refines s w) (hx : s.find x = some (i, e)) (fp : Stream)
    (hw : fp.writable = e.fp.writable) :
    Refines (s.put i { e with fp }) (w.put x { e with fp }.view) := by
  obtain ⟨d, handles⟩ := w
  obtain rfl : d = s.disk := h.disk
  exact h.put hx { e with fp } rfl rfl hw s.disk

theorem Refines.remove (h : Refines s w) (hx : s.find x = some (i, e)) :
    Refines { s with files := Function.update s.files i none }
      { w with handles := Function.update w.handles x none } := by
  obtain ⟨hi, rfl⟩ := find_some hx
  have hstay : ∀ {j a}, Function.update s.files i none j = some a → j ≠ i ∧ s.files j = some a := by
    intro j a hj
    by_cases hji : j = i
    · simp [hji] at hj
    · exact ⟨hji, by simpa [hji] using hj⟩
  constructor
  · exact h.disk
  · intro j a hj
    obtain ⟨hji, hj⟩ := hstay hj
    have hne : a.handle ≠ e.handle := fun heq => hji (h.distinct j i a e hj hi heq)
    simpa [hne] using h.opens j a hj
  · intro x o hx
    by_cases hxe : x = e.handle
    · simp [hxe] at hx
    · obtain ⟨j, a, hj, rfl⟩ := h.only x o (by simpa [hxe] using hx)
      have hji : j ≠ i := by
        rintro rfl
        exact hxe (congrArg Entry.handle (Option.some.inj (hj.symm.trans hi)))
      exact ⟨j, a, by simpa [hji] using hj, rfl⟩
  · intro j k a b hj hk heq
    exact h.distinct j k a b (hstay hj).2 (hstay hk).2 heq
  · intro j a hj
    exact h.writable j a (hstay hj).2

-- ---------------------------------------------------------------------------
-- The calls
-- ---------------------------------------------------------------------------

theorem chunk_pos : 0 < chunk := by decide

theorem writeLoop_nil (fuel : Nat) (c : List Byte) (f : Stream) (total : Nat) :
    writeLoop fuel c f [] total = some (total, c, f) := by
  cases fuel <;> rfl

theorem writeLoop_succ {c : List Byte} {f : Stream} (h : f.Writes c) (hdata : data ≠ []) :
    writeLoop (fuel + 1) c f data total =
      writeLoop fuel (overwrite 0 c f.pos (data.take chunk)) (f.wrote (data.take chunk).length)
        (data.drop chunk) (total + (data.take chunk).length) := by
  have hpos : chunk ≠ 0 := Nat.ne_of_gt chunk_pos
  have hfirst : data.take chunk ≠ [] := by
    simp [hdata, hpos]
  have hempty : data.isEmpty = false := by simpa using hdata
  rw [writeLoop, hempty, if_neg Bool.false_ne_true, h.fwrite 0 hfirst]
  exact if_neg (Nat.lt_irrefl _)

/-- The loop writes everything, as one write does. -/
theorem writeLoop_all (fuel : Nat) (c : List Byte) (f : Stream) (data : List Byte) (total : Nat)
    (h : f.Writes c) (hdata : data ≠ []) (hfuel : data.length ≤ fuel) :
    writeLoop fuel c f data total =
      some (total + data.length, overwrite 0 c f.pos data, f.wrote data.length) := by
  induction fuel generalizing c f data total with
  | zero => exact absurd (List.eq_nil_of_length_eq_zero (Nat.le_zero.1 hfuel)) hdata
  | succ fuel ih =>
    have hdone := List.take_append_drop chunk data
    rw [writeLoop_succ h hdata]
    by_cases hrest : data.drop chunk = []
    · rw [hrest, List.append_nil] at hdone
      rw [hrest, hdone, writeLoop_nil]
    · have hlen : (data.drop chunk).length ≤ fuel := by
        have := chunk_pos
        rw [List.length_drop]
        omega
      have hsum : (data.take chunk).length + (data.drop chunk).length = data.length := by
        rw [← List.length_append, hdone]
      have hpos : (f.wrote (data.take chunk).length).pos = f.pos + (data.take chunk).length := rfl
      rw [ih _ _ _ _ (h.next 0 _) hrest hlen, hpos, overwrite_overwrite, hdone]
      simp only [Stream.wrote, Nat.add_assoc, hsum]

theorem seek_inside {c : List Byte} {f : Stream} {m : Whence} {d : Int}
    (h : 0 ≤ m.origin c f + d) :
    fseek c f d m = { f with pos := (m.origin c f + d).toNat, last := .none } := by
  simp [fseek, Int.not_lt.2 h]

theorem seek_current (c : List Byte) (f : Stream) : fseek c f 0 .cur = { f with last := .none } := by
  rw [seek_inside (by simp [Whence.origin])]
  simp [Whence.origin]

/-- A step of the code under the condition is a step of the model with the same result. -/
def Simulated [DecidableEq F] (endFirst : Bool) (s : Sys F) (w : Win F) (a : Action F) : Prop :=
  ∃ s' r fresh w', s.step endFirst a = some (s', r) ∧ w.act fresh a = (w', r) ∧
    (r = .handle fresh → w.handles fresh = none ∧ fresh ≠ invalid) ∧ Refines s' w'

theorem read_toNat {o : U64} (h : o.toNat < 2 ^ 63) : o.toInt = o.toNat :=
  BitVec.toInt_eq_toNat_of_lt (by omega)

/-- From a positioned stream, `min` bytes of what is there. -/
theorem fread_at {c : List Byte} {f : Stream} (hf : f.last = .none) (hr : f.readable = true)
    (hcap : n ≤ cap ∨ c.length ≤ f.pos + cap) :
    ∃ f', fread c f (min n cap) = some (((c.drop f.pos).take n), f') ∧
      f'.pos = f.pos + ((c.drop f.pos).take n).length ∧ f'.writable = f.writable := by
  have htake : (c.drop f.pos).take (min n cap) = (c.drop f.pos).take n := by
    obtain hle | hle := hcap
    · rw [Nat.min_eq_left hle]
    · by_cases hn : n ≤ cap
      · rw [Nat.min_eq_left hn]
      · have hlen : (c.drop f.pos).length ≤ cap := by
          rw [List.length_drop]
          omega
        rw [Nat.min_eq_right (by omega), List.take_of_length_le hlen,
          List.take_of_length_le (by omega)]
  unfold fread
  by_cases h0 : min n cap = 0
  · rw [h0, List.take_zero] at htake
    exact ⟨f, by simp [h0, ← htake], by simp [← htake], rfl⟩
  · simp only [h0, ↓reduceIte, hf, reduceCtorEq, hr, Bool.not_true, Bool.false_eq_true, htake]
    exact ⟨_, rfl, rfl, rfl⟩

variable [DecidableEq F]

theorem Refines.read (h : Refines s w) (hm : Meets endFirst s (.read x count overlapped)) :
    Simulated endFirst s w (.read x count overlapped) := by
  obtain ⟨hclear, hm⟩ := hm
  have hstep : s.step endFirst (.read x count overlapped) =
      (readFile s x count overlapped).map Prod.swap := if_pos hclear
  cases hx : s.find x with
  | none =>
    refine ⟨s, .read false [], 0, w, ?_, ?_, nofun, h⟩
    · simp [hstep, readFile, hx]
    · simp [Win.act, h.unknown hx]
  | some r =>
    obtain ⟨i, e⟩ := r
    obtain ⟨hread, hreadable, hoff, hcap⟩ := hm _ hx
    have hw := h.known hx
    -- Where the stream stands after the handler's seek.
    let pos := (overlapped.map BitVec.toNat).getD e.fp.pos
    have hseek : (match overlapped with
        | some offset => fseek (s.content e) e.fp offset.toInt .set
        | none => fseek (s.content e) e.fp 0 .cur) = { e.fp with pos, last := .none } := by
      cases overlapped with
      | none => exact seek_current ..
      | some o =>
        have hpos := read_toNat hoff.1
        show fseek (s.content e) e.fp o.toInt .set = _
        rw [hpos, seek_inside (by simp [Whence.origin])]
        simp [Whence.origin, pos]
    have hinside : (overlapped.isSome && decide ((s.content e).length ≤ pos)) = false := by
      cases overlapped with
      | none => rfl
      | some o => simpa [pos] using hoff.2
    obtain ⟨fp, hfread, hfp, hwritable⟩ := fread_at (f := { e.fp with pos, last := .none })
      (c := s.content e) rfl hreadable hcap
    refine ⟨s.put i { e with fp }, .read true (((s.content e).drop pos).take count.toNat), 0,
      w.put x { e.view with pos := pos + (((s.content e).drop pos).take count.toNat).length },
      ?_, ?_, nofun, ?_⟩
    · simp only [hstep, readFile, hx, hseek, hfread]
      rfl
    · have hview : e.view.read = true := hread
      simp only [Win.act, hw, hview, h.content e, Bool.not_true, Bool.false_or]
      rw [if_neg]
      · rfl
      · have hpos : (overlapped.map BitVec.toNat).getD e.view.pos = pos := rfl
        rw [hpos, hinside]
        exact Bool.false_ne_true
    · have hview : ({ e with fp } : Entry F).view = { e.view with pos := fp.pos } := rfl
      rw [← hfp, ← hview]
      exact h.stream hx fp hwritable

theorem Refines.seek (h : Refines s w) (hm : Meets endFirst s (.seek x distance high method)) :
    Simulated endFirst s w (.seek x distance high method) := by
  obtain ⟨hclear, hm⟩ := hm
  have hstep : s.step endFirst (.seek x distance high method) =
      some (setFilePointer s x distance high method).swap := if_pos hclear
  cases hx : s.find x with
  | none =>
    refine ⟨s, .pointer invalid high, 0, w, ?_, ?_, nofun, h⟩
    · simp [hstep, setFilePointer, hx]
    · simp [Win.act, h.unknown hx]
  | some r =>
    obtain ⟨i, e⟩ := r
    obtain ⟨hhigh, hlow, hfits⟩ := hm _ hx
    have hdist : distanceOf distance high = distance.toInt := by
      cases high with
      | none => rfl
      | some y =>
        obtain ⟨rfl, hsmall⟩ := hhigh
        have hd : distance.toInt = distance.toNat := BitVec.toInt_eq_toNat_of_lt (by omega)
        simp [distanceOf, hd]
    have horigin : w.origin e.view method = method.origin (s.content e) e.fp := by
      cases method with
      | set => rfl
      | cur => rfl
      | last => exact congrArg List.length (h.content e)
    generalize htarget : (method.origin (s.content e) e.fp : Int) + distance.toInt = target
      at hlow hfits
    have hzero : target.toNat / 2 ^ 32 = 0 := Nat.div_eq_of_lt (by omega)
    have hhighs : (high.map fun _ => BitVec.ofNat 32 (target.toNat / 2 ^ 32)) = high := by
      cases high with
      | none => rfl
      | some y =>
        obtain ⟨rfl, -⟩ := hhigh
        exact congrArg (fun n => some (BitVec.ofNat 32 n)) hzero
    have hseek : fseek (s.content e) e.fp distance.toInt method =
        { e.fp with pos := target.toNat, last := .none } := by
      rw [seek_inside (htarget ▸ hlow), htarget]
    refine ⟨_, .pointer (.ofNat 32 target.toNat) high, 0, _, ?_, ?_, nofun,
      h.stream hx { e.fp with pos := target.toNat, last := .none } rfl⟩
    · simp [hstep, setFilePointer, hx, hseek]
    · have hin : ¬ (target < 0 ∨ high = none ∧ 2 ^ 32 ≤ target) := by omega
      simp only [Win.act, h.known hx, horigin, hdist, htarget, hin, ↓reduceIte, hhighs]
      rfl

theorem Refines.write (h : Refines s w) (hm : Meets endFirst s (.write x data overlapped)) :
    Simulated endFirst s w (.write x data overlapped) := by
  obtain ⟨hclear, hspew, hknown, hm⟩ := hm
  have hstep : s.step endFirst (.write x data overlapped) =
      (writeFile s x data).map Prod.swap := if_pos hclear
  obtain ⟨⟨i, e⟩, hx⟩ := Option.isSome_iff_exists.1 hknown
  obtain ⟨hwrite, rfl, hturned⟩ := hm _ hx
  have hmay : (!e.view.write) = false := by
    rw [show e.view.write = true from hwrite]
    rfl
  by_cases hdata : data = []
  · subst hdata
    refine ⟨_, .written true 0, 0, _, ?_, ?_, nofun, h.stream hx e.fp rfl⟩
    · simp [hstep, writeFile, hspew, hx, writeLoop_nil]
      rfl
    · simp only [Win.act, h.known hx, hmay, Bool.false_eq_true, ↓reduceIte]
      rfl
  · have hempty : data.isEmpty = false := by simpa using hdata
    obtain ⟨hlast, hend⟩ := hturned hdata
    have hwrites : e.fp.Writes (s.content e) :=
      ⟨h.writable i e (find_some hx).1 hwrite, hlast, hend⟩
    have hloop := writeLoop_all data.length _ _ data 0 hwrites hdata (Nat.le_refl _)
    let e' : Entry F := { e with fp := e.fp.wrote data.length, dirty := e.dirty || !false }
    refine ⟨_, .written true (.ofNat 32 data.length), 0, _, ?_, ?_, nofun,
      h.put hx e' rfl rfl rfl
        (Function.update s.disk e.path (.file (overwrite 0 (s.content e) e.fp.pos data)))⟩
    · simp only [hstep, writeFile, hspew, Bool.false_eq_true, ↓reduceIte, hx, hloop, hempty,
        Nat.zero_add]
      rfl
    · simp only [Win.act, h.known hx, hmay, Bool.false_eq_true, ↓reduceIte, hempty, h.content e,
        h.disk]
      rfl

theorem Refines.close (h : Refines s w) (hm : Meets endFirst s (.close x)) :
    Simulated endFirst s w (.close x) := by
  obtain ⟨hclear, hknown⟩ := hm
  obtain ⟨⟨i, e⟩, hx⟩ := Option.isSome_iff_exists.1 hknown
  refine ⟨_, .closed true, 0, _, ?_, ?_, nofun, h.remove hx⟩
  · rw [Sys.step, if_pos hclear]
    simp only [Sys.act, closeHandle, hx]
    rfl
  · simp [Win.act, h.known hx]

/-- What `fopen` makes of a disposition that suits it. -/
theorem fopen_suits {n : Node Byte} (hs : Suits endFirst (wantsWrite access) n d) :
    (d.opens (wantsWrite access) n = none → fopen (modeOf access d.code) endFirst n = none ∧
      d ≠ .createAlways ∧ d ≠ .openAlways) ∧
    ∀ c, d.opens (wantsWrite access) n = some c →
      ∃ fp, fopen (modeOf access d.code) endFirst n = some (fp, c) ∧ fp.pos = 0 ∧
        (wantsWrite access = true → fp.writable = true) := by
  generalize hw : wantsWrite access = write at hs
  cases d <;> cases n <;> cases write <;>
    simp_all [Suits, Disposition.opens, modeOf, Disposition.code, fopen, Mode.stream, Node.bytes]

theorem Refines.create (h : Refines s w) (hm : Meets endFirst s (.create path access d)) :
    Simulated endFirst s w (.create path access d) := by
  obtain ⟨hclear, hsuits, hroom⟩ := hm
  obtain ⟨hnone, hsome⟩ := fopen_suits hsuits
  have hstep : ∀ r, filesCreate endFirst s path access d.code = r →
      s.step endFirst (.create path access d) = some (r.2, .handle r.1) := by
    rintro r rfl
    exact if_pos hclear
  cases hopens : d.opens (wantsWrite access) (s.disk path) with
  | none =>
    obtain ⟨hfail, hnot⟩ := hnone hopens
    refine ⟨s, .handle invalid, 0, w, ?_, ?_, fun heq => ?_, h⟩
    · refine hstep (invalid, s) ?_
      have hretry : ¬ (d.code = 2 ∨ d.code = 4) := by
        cases d <;> simp_all [Disposition.code]
      simp only [filesCreate, hfail, hretry, and_false, ↓reduceIte, Function.update_eq_self]
    · simp [Win.act, h.disk, hopens]
    · exact absurd (Result.handle.inj heq) (by decide)
  | some c =>
    obtain ⟨fp, hopen, hpos, hwritable⟩ := hsome c hopens
    obtain ⟨⟨j, hj⟩, hvalid, hfresh⟩ := hroom (by rw [hopens]; rfl)
    cases hfree : s.free with
    | none => exact absurd hj (free_none hfree j)
    | some i =>
      let e : Entry F := ⟨s.nextHandle, path, fp, access, false⟩
      have hunused : w.handles s.nextHandle = none := by
        cases hw : w.handles s.nextHandle with
        | none => rfl
        | some o =>
          obtain ⟨k, a, hk, ha⟩ := h.only _ o hw
          exact absurd ha (hfresh k a hk)
      refine ⟨_, .handle s.nextHandle, s.nextHandle, _, hstep (s.nextHandle, _) ?_, ?_,
        fun _ => ⟨hunused, hvalid⟩,
        h.store (i := i) (e := e) ?_ ?_ hwritable (Function.update s.disk path (.file c))
          (s.nextHandle + 1)⟩
      · have hfree' : ∀ disk, Sys.free { s with disk } = some i := fun _ => hfree
        simp only [filesCreate, hopen, reduceCtorEq, false_and, ↓reduceIte, hfree']
        rfl
      · have hview : e.view = ⟨path, wantsRead access, wantsWrite access, 0⟩ := by
          simp [Entry.view, e, hpos]
        simp only [Win.act, h.disk, hopens, hview]
        rfl
      · intro a ha
        exact absurd ((free_some hfree).symm.trans ha) nofun
      · intro k a hk ha
        exact absurd ha (hfresh k a hk)

-- ---------------------------------------------------------------------------
-- The law
-- ---------------------------------------------------------------------------

theorem Refines.step (h : Refines s w) (hm : Meets endFirst s a) : Simulated endFirst s w a := by
  cases a with
  | create path access d => exact h.create hm
  | read x count overlapped => exact h.read hm
  | write x data overlapped => exact h.write hm
  | seek x distance high method => exact h.seek hm
  | close x => exact h.close hm

/-- What a run of the code returns, the model can return too. -/
theorem run_refines {disk : F → Node Byte}
    (h : Run (Sys.step endFirst) (Meets endFirst) (.load disk) tr s) :
    ∃ w, Win.Run disk tr w ∧ Refines s w := by
  refine h.invariant (P := fun tr s => ∃ w, Win.Run disk tr w ∧ Refines s w)
    ⟨_, .nil, load_refines disk⟩ ?_
  rintro tr s a s' r ⟨w, hw, href⟩ hm hs
  obtain ⟨s₁, r₁, fresh, w', hs', hact, hfresh, href'⟩ := href.step hm
  obtain ⟨rfl, rfl⟩ := Prod.mk.inj (Option.some.inj (hs'.symm.trans hs))
  exact ⟨w', hw.snoc hact hfresh, href'⟩

/-- In every run whose calls meet the condition, each call has an outcome, and results and
contents are those of the model. -/
theorem handles_law (disk : F → Node Byte)
    (h : Run (Sys.step endFirst) (Meets endFirst) (.load disk) tr s) :
    (∃ w, Win.Run disk tr w ∧ w.disk = s.disk) ∧
      ∀ a, Meets endFirst s a → ∃ s' r, s.step endFirst a = some (s', r) := by
  obtain ⟨w, hw, href⟩ := run_refines h
  refine ⟨⟨w, hw, href.disk⟩, fun a hm => ?_⟩
  obtain ⟨s', r, -, -, hs, -⟩ := href.step hm
  exact ⟨s', r, hs⟩

instance (endFirst write : Bool) (n : Node Byte) (d : Disposition) :
    Decidable (Suits endFirst write n d) :=
  match d with
  | .createNew => inferInstanceAs (Decidable (n = .nowhere ∨ write = true ∧ n = .absent))
  | .createAlways => inferInstanceAs (Decidable (n ≠ .nowhere))
  | .openExisting => .isTrue trivial
  | .openAlways => inferInstanceAs (Decidable (n ≠ .nowhere ∧
      if write then endFirst = true → n.bytes = [] else n ≠ .absent))
  | .truncateExisting => inferInstanceAs (Decidable (n = .nowhere ∨ write = true ∧ n ≠ .absent))

instance (c : List Byte) (overlapped : Option U64) : Decidable (Within c overlapped) :=
  match overlapped with
  | none => .isTrue trivial
  | some offset =>
    inferInstanceAs (Decidable (offset.toNat < 2 ^ 63 ∧ offset.toNat < c.length))

instance (distance : U32) (high : Option U32) : Decidable (Plain distance high) :=
  match high with
  | none => .isTrue trivial
  | some high => inferInstanceAs (Decidable (high = 0 ∧ distance.toNat < 2 ^ 31))

instance (s : Sys F) : Decidable s.Room :=
  inferInstanceAs (Decidable ((∃ i, s.files i = none) ∧ s.nextHandle ≠ invalid ∧
    ∀ i, ∀ e ∈ s.files i, e.handle ≠ s.nextHandle))

instance (s : Sys F) (e : Entry F) : Decidable (Turned s e) :=
  inferInstanceAs (Decidable (e.fp.last ≠ .input false ∧
    (e.fp.append = true → e.fp.pos = (s.content e).length)))

instance (endFirst : Bool) (s : Sys F) (a : Action F) : Decidable (Meets endFirst s a) :=
  match a with
  | .create path access d => inferInstanceAs (Decidable (s.Clear (.create path access d) ∧
      Suits endFirst (wantsWrite access) (s.disk path) d ∧
      ((d.opens (wantsWrite access) (s.disk path)).isSome → s.Room)))
  | .read h count overlapped => inferInstanceAs (Decidable (s.Clear (.read h count overlapped) ∧
      ∀ r ∈ s.find h, wantsRead r.2.access = true ∧ r.2.fp.readable = true ∧
      Within (s.content r.2) overlapped ∧
      (count.toNat ≤ 0x8000000 ∨ (s.content r.2).length ≤
        (overlapped.map BitVec.toNat).getD r.2.fp.pos + 0x8000000)))
  | .write h data overlapped => inferInstanceAs (Decidable (s.Clear (.write h data overlapped) ∧
      spewed h = false ∧ (s.find h).isSome = true ∧
      ∀ r ∈ s.find h, wantsWrite r.2.access = true ∧ overlapped = none ∧ (data ≠ [] → Turned s r.2)))
  | .seek h distance high method =>
    inferInstanceAs (Decidable (s.Clear (.seek h distance high method) ∧ ∀ r ∈ s.find h,
      Plain distance high ∧
      0 ≤ method.origin (s.content r.2) r.2.fp + distance.toInt ∧
      method.origin (s.content r.2) r.2.fp + distance.toInt < 2 ^ 32))
  | .close h => inferInstanceAs (Decidable (s.Clear (.close h) ∧ (s.find h).isSome = true))

/-- A file `[7]` under the only path. -/
def oneFile : Unit → Node Byte := fun _ => .file [7]

def genericRead : U32 := 0x80000000
def genericWrite : U32 := 0x40000000

/-- The file is opened for reading and writing, read to its end, and written on. -/
theorem handles_law_append : ∃ tr s,
    Run (Sys.step true) (Meets true) (.load oneFile) tr s ∧ s.disk () = .file [7, 8] ∧
      ∃ w, Win.Run oneFile tr w ∧ w.disk = s.disk := by
  have hexec : (exec (Sys.step true) (Meets true) (.load oneFile) [
      .create () (genericRead ||| genericWrite) .openExisting, .read 0x100 2 none,
      .write 0x100 [8] none, .close 0x100]).any fun r =>
        decide (r.2.disk () = .file [7, 8]) := by decide +kernel
  obtain ⟨tr, s, hr, hp⟩ := Run.of_exec_any hexec
  exact ⟨tr, s, hr, of_decide_eq_true hp, (handles_law oneFile hr).1⟩

/-- The results of a creation in the model. -/
theorem create_result (hw : Win.Run disk [(.create path access d, .handle h)] w)
    (hd : d.opens (wantsWrite access) (disk path) = none) : h = invalid := by
  generalize htr : [(Action.create path access d, Result.handle h)] = tr at hw
  cases hw with
  | nil => cases htr
  | snoc hw hact hfresh =>
    rw [← List.nil_append [_]] at htr
    obtain ⟨rfl, heq⟩ := List.append_inj' htr rfl
    obtain ⟨rfl, rfl⟩ := Prod.mk.inj (List.singleton_inj.1 heq)
    generalize htr : ([] : List (Action F × Result)) = tr at hw
    cases hw with
    | nil =>
      have hdisk : (Win.load disk).disk path = disk path := rfl
      rw [Win.act, hdisk, hd] at hact
      exact (Result.handle.inj (Prod.mk.inj hact).2).symm
    | snoc => simp at htr

/-- `CREATE_NEW` empties a file that exists. -/
theorem createNew_truncates : ¬ ∀ tr s, Run (Sys.step true) anyStep (.load oneFile) tr s →
    ∃ w, Win.Run oneFile tr w ∧ w.disk = s.disk := by
  intro hall
  obtain ⟨w, hw, -⟩ := hall _ _ (.single (a := .create () genericWrite .createNew) trivial rfl)
  exact absurd (create_result hw rfl) (by decide +kernel)

end WineGlass.FileHandles
