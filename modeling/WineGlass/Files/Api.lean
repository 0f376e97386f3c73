import WineGlass.Files.Handles

/-!
# The file calls below the handlers

`wg_files_read`, `wg_files_get_size` and the two calls that set the pointer, for files with a
stream and for those whose content is served from memory (`inj`).
-/

namespace WineGlass.FileApi

open FileHandles Stdio

variable {F : Type}

/-- The open files, and the content and position of those served from memory. -/
structure Store (F : Type) where
  sys : Sys F
  inj : Fin 64 → Option (List Byte × Nat)

def Store.stream (s : Store F) (i : Fin 64) (e : Entry F) (fp : Stream) : Store F :=
  { s with sys := s.sys.put i { e with fp } }

def Store.inject (s : Store F) (i : Fin 64) (bytes : List Byte) (pos : Nat) : Store F :=
  { s with inj := Function.update s.inj i (some (bytes, pos)) }

/-- `wg_files_read`: nothing for a handle that is not open. -/
def Store.read (s : Store F) (h : U32) (n : Nat) : Option (Option (List Byte) × Store F) :=
  match s.sys.find h with
  | none => some (none, s)
  | some (i, e) =>
    match s.inj i with
    | some (bytes, pos) =>
      let got := (bytes.drop pos).take n
      some (some got, s.inject i bytes (pos + got.length))
    | none => (fread (s.sys.content e) e.fp n).map fun r => (some r.1, s.stream i e r.2)

/-- `wg_files_get_size`; the position is set back. -/
def Store.getSize (s : Store F) (h : U32) : U32 × Store F :=
  match s.sys.find h with
  | none => (invalid, s)
  | some (i, e) =>
    match s.inj i with
    | some (bytes, _) => (.ofNat 32 bytes.length, s)
    | none =>
      let fp := fseek (s.sys.content e) e.fp 0 .last
      (.ofNat 32 fp.pos, s.stream i e (fseek (s.sys.content e) fp e.fp.pos .set))

def whence (method : U32) : Whence := if method = 1 then .cur else if method = 2 then .last else .set

/-- A position inside the content that is served. -/
def injected (bytes : List Byte) (pos : Nat) (distance : Int) (method : U32) : Nat :=
  let base := if method = 1 then pos else if method = 2 then bytes.length else 0
  min (base + distance).toNat bytes.length

/-- `wg_files_set_pointer`. -/
def Store.setPointer (s : Store F) (h distance method : U32) : U32 × Store F :=
  match s.sys.find h with
  | none => (invalid, s)
  | some (i, e) =>
    match s.inj i with
    | some (bytes, pos) =>
      let pos := injected bytes pos distance.toInt method
      (.ofNat 32 pos, s.inject i bytes pos)
    | none =>
      let fp := fseek (s.sys.content e) e.fp distance.toInt (whence method)
      (.ofNat 32 fp.pos, s.stream i e fp)

/-- `wg_files_set_pointer_64`. -/
def Store.setPointer64 (s : Store F) (h : U32) (offset : U64) (method : U32) : U64 × Store F :=
  match s.sys.find h with
  | none => (0, s)
  | some (i, e) =>
    match s.inj i with
    | some (bytes, pos) =>
      let pos := injected bytes pos offset.toInt method
      (.ofNat 64 pos, s.inject i bytes pos)
    | none =>
      let fp := fseek (s.sys.content e) e.fp offset.toInt (whence method)
      (.ofNat 64 fp.pos, s.stream i e fp)

-- ---------------------------------------------------------------------------
-- Guest memory
-- ---------------------------------------------------------------------------

def bytesAt (m : Nat → Byte) (p n : Nat) : List Byte := (List.range n).map fun i => m (p + i)

def putBytes (m : Nat → Byte) (p : Nat) (bs : List Byte) : Nat → Byte := fun a =>
  if p ≤ a then (bs[a - p]?).getD (m a) else m a

-- ---------------------------------------------------------------------------
-- The table after a call
-- ---------------------------------------------------------------------------

theorem findSome_change {f f' : α → Option β} (hsome : ∀ a, f a = some b → f' a = some b')
    (hnone : ∀ a, f a = none → f' a = none) (l : List α) (h : l.findSome? f = some b) :
    l.findSome? f' = some b' := by
  induction l with
  | nil => cases h
  | cons a l ih =>
    rw [List.findSome?_cons] at h ⊢
    cases ha : f a with
    | none =>
      rw [ha] at h
      rw [hnone a ha]
      exact ih h
    | some c =>
      rw [ha] at h
      obtain rfl := Option.some.inj h
      rw [hsome a ha]

/-- The slot that is looked up keeps its handle. -/
theorem find_put {s : Sys F} (h : s.find x = some (i, e)) (e' : Entry F) (he : e'.handle = e.handle) :
    (s.put i e').find x = some (i, e') := by
  obtain ⟨hslot, hhandle⟩ := find_some h
  refine findSome_change (fun j hj => ?_) (fun j hj => ?_) _ h
  · obtain ⟨a, -, ha⟩ := Option.bind_eq_some_iff.1 hj
    split at ha
    · obtain ⟨rfl, -⟩ := Prod.mk.inj (Option.some.inj ha)
      have hput : (s.put j e').files j = some e' := Function.update_self ..
      rw [hput, Option.bind_some, if_pos (he.trans hhandle)]
    · cases ha
  · have hji : j ≠ i := by
      rintro rfl
      rw [hslot, Option.bind_some, if_pos hhandle] at hj
      cases hj
    have hput : (s.put i e').files j = s.files j := Function.update_of_ne hji ..
    rw [hput]
    exact hj

/-- The entry behind a handle has a stream of its own. -/
structure Store.Has (s : Store F) (h : U32) (i : Fin 64) (e : Entry F) : Prop where
  find : s.sys.find h = some (i, e)
  plain : s.inj i = none

theorem Store.Has.stream {s : Store F} (hs : s.Has h i e) (fp : Stream) :
    (s.stream i e fp).Has h i { e with fp } := ⟨find_put hs.find { e with fp } rfl, hs.plain⟩

theorem stream_content (s : Store F) (i : Fin 64) (e : Entry F) (fp : Stream) :
    (s.stream i e fp).sys.content { e with fp } = s.sys.content e := rfl

theorem Store.Has.setPointer64 {s : Store F} (hs : s.Has h i e) (offset : U64) (method : U32) :
    s.setPointer64 h offset method =
      (.ofNat 64 (fseek (s.sys.content e) e.fp offset.toInt (whence method)).pos,
        s.stream i e (fseek (s.sys.content e) e.fp offset.toInt (whence method))) := by
  rw [Store.setPointer64, hs.find]
  dsimp only
  rw [hs.plain]

theorem Store.Has.setPointer {s : Store F} (hs : s.Has h i e) (distance method : U32) :
    s.setPointer h distance method =
      (.ofNat 32 (fseek (s.sys.content e) e.fp distance.toInt (whence method)).pos,
        s.stream i e (fseek (s.sys.content e) e.fp distance.toInt (whence method))) := by
  rw [Store.setPointer, hs.find]
  dsimp only
  rw [hs.plain]

theorem Store.Has.read {s : Store F} (hs : s.Has h i e) (n : Nat) :
    s.read h n = (fread (s.sys.content e) e.fp n).map fun r => (some r.1, s.stream i e r.2) := by
  rw [Store.read, hs.find]
  dsimp only
  rw [hs.plain]

end WineGlass.FileApi
