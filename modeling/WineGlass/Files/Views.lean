import WineGlass.Engine.GuestHeap
import WineGlass.Files.Api
import WineGlass.Lib.Fields
import WineGlass.Lib.Run

/-!
# Views of files

`CreateFileMapping` notes a file handle in one of 128 entries. `MapViewOfFile` allocates guest
memory and reads the file into it through the handle, once.
-/

namespace WineGlass.FileViews

open FileHandles FileApi Stdio Runs GuestHeap Fields

variable {F : Type}

/-- `WG_FILEMAP_BASE`. -/
def mapBase : U32 := 0x00FE0000

structure Guest (F : Type) where
  mem : Nat → Byte
  heap : GuestHeap.State
  files : Store F
  maps : Fin 128 → Option U32
  lastError : U32

-- ---------------------------------------------------------------------------
-- The code
-- ---------------------------------------------------------------------------

def Guest.free (g : Guest F) : Option (Fin 128) :=
  (List.finRange 128).find? fun i => (g.maps i).isNone

def createFileMapping (g : Guest F) (hfile : U32) : U32 × Guest F :=
  if hfile = 0 then (0, { g with lastError := 8 })
  else
    match g.free with
    | some i =>
      (mapBase + .ofNat 32 i, { g with maps := Function.update g.maps i (some hfile) })
    | none => (0, { g with lastError := 8 })

/-- The file handle behind a mapping's. -/
def Guest.mapped (g : Guest F) (hmap : U32) : Option U32 :=
  if h : mapBase ≤ hmap ∧ (hmap - mapBase).toNat < 128 then g.maps ⟨(hmap - mapBase).toNat, h.2⟩
  else none

/-- How much is mapped: what is asked for, or what there is behind the offset, and 128 MB at
most. -/
def mapSize (last offset : U64) (size : U32) : U32 :=
  let mapsize := if size = 0 then if offset < last then (last - offset).setWidth 32 else 0x1000 else size
  if 0x8000000 < mapsize then 0x8000000 else mapsize

/-- What `wg_guest_alloc` clears for a request. -/
def blockSize (n : Nat) : Nat := roundPage (if n = 0 then 1 else n)

/-- `MapViewOfFile`; `ok` and `room` tell whether `calloc` and `malloc` succeed. -/
def mapViewOfFile (g : Guest F) (hmap offHigh offLow size : U32) (ok room : Bool) :
    Option (Nat × Guest F) :=
  let offset : U64 := offHigh.setWidth 64 <<< 32 ||| offLow.setWidth 64
  match g.mapped hmap with
  | none => some (0, { g with lastError := 8 })
  | some fh =>
    let (last, files) := if size = 0 then g.files.setPointer64 fh 0 2 else (0, g.files)
    let mapsize := mapSize last offset size
    let (heap, gaddr) := guestAllocAligned g.heap mapsize.toNat 0x10000 ok
    if gaddr = 0 then some (0, { g with files, heap, lastError := 8 })
    else
      let mem := zero g.mem ⟨gaddr, blockSize mapsize.toNat⟩
      let files := (files.setPointer64 fh offset 0).2
      if !room then some (0, { g with mem, files, heap, lastError := 8 })
      else
        (files.read fh mapsize.toNat).map fun r =>
          (gaddr, { g with mem := putBytes mem gaddr (r.1.getD []), files := r.2, heap })

/-- `CloseHandle`, for files; a mapping is not one. -/
def closeHandle (g : Guest F) (h : U32) : Guest F :=
  match g.files.sys.find h with
  | none => g
  | some (i, _) =>
    { g with files := ⟨(FileHandles.closeHandle g.files.sys h).2, Function.update g.files.inj i none⟩ }

/-- The calls, and whatever else may change memory, the heap and the files between them. -/
inductive Action (F : Type)
  | create (hfile : U32)
  | map (hmap offHigh offLow size : U32) (ok room : Bool)
  | unmap (view : U64)
  | close (h : U32)
  | other (mem : Nat → Byte) (heap : GuestHeap.State) (files : Store F)

def step (g : Guest F) : Action F → Option (Guest F × Nat)
  | .create hfile => some ((createFileMapping g hfile).2, (createFileMapping g hfile).1.toNat)
  | .map hmap offHigh offLow size ok room =>
    (mapViewOfFile g hmap offHigh offLow size ok room).map Prod.swap
  | .unmap _ => some (g, 1)
  | .close h => some (closeHandle g h, 1)
  | .other mem heap files => some ({ g with mem, heap, files }, 0)

-- ---------------------------------------------------------------------------
-- Views
-- ---------------------------------------------------------------------------

/-- The handle reads the content. -/
def Holds (s : Store F) (h : U32) (c : List Byte) : Prop :=
  ∃ i e, s.sys.find h = some (i, e) ∧ ((∃ pos, s.inj i = some (c, pos)) ∨
    s.inj i = none ∧ e.fp.readable = true ∧ s.sys.content e = c)

/-- No other stream holds back a part of what the handle reads. -/
def Reads (s : Store F) (h : U32) (c : List Byte) : Prop :=
  Holds s h c ∧ ∀ r ∈ s.sys.find h, s.sys.Quiet r.2.path (some h)

/-- How much a view is to show. -/
def asked (c : List Byte) (offset : Nat) (size : U32) : Nat :=
  min (if size = 0 then c.length - offset else size.toNat) 0x8000000

/-- The block at the address is at least as long as is asked for, and has the content from
the offset on, and zeros behind it. -/
structure Shows (g : Guest F) (addr : Nat) (c : List Byte) (offset : Nat) (size : U32) : Prop where
  block : ∃ b ∈ g.heap.live, b.start = addr ∧ asked c offset size ≤ b.len ∧
    ∀ k < b.len, g.mem (addr + k) = if k < asked c offset size then c.getD (offset + k) 0 else 0

def joined (offHigh offLow : U32) : U64 := offHigh.setWidth 64 <<< 32 ||| offLow.setWidth 64

/-- The files whose mappings were created, in order. -/
def created (tr : List (Action F × Nat)) : List U32 :=
  tr.filterMap fun x =>
    match x with
    | (.create h, r) => if r = 0 then none else some h
    | _ => none

/-- What mappings and views do after a run. -/
structure Sound (tr : List (Action F × Nat)) (g : Guest F) : Prop where
  kept : ∀ i h, (created tr)[i]? = some h → g.mapped (mapBase + .ofNat 32 i) = some h
  room : ∀ h, h ≠ 0 → (created tr).length < 128 →
    (createFileMapping g h).1 = mapBase + .ofNat 32 (created tr).length
  views : ∀ i h, (created tr)[i]? = some h → ∀ c, Reads g.files h c → c.length < 2 ^ 63 →
    ∀ offHigh offLow size ok room, (joined offHigh offLow).toNat < 2 ^ 63 →
      (size = 0 → c.length - (joined offHigh offLow).toNat < 2 ^ 32) →
      ∃ addr g', mapViewOfFile g (mapBase + .ofNat 32 i) offHigh offLow size ok room =
          some (addr, g') ∧
        (addr ≠ 0 → Shows g' addr c (joined offHigh offLow).toNat size)

/-- The mappings that are open: created, and not closed since. -/
def opened (tr : List (Action F × Nat)) : List Nat :=
  tr.foldl (fun l x =>
    match x with
    | (.create _, r) => if r = 0 then l else r :: l
    | (.close h, _) => l.erase h.toNat
    | _ => l) []

/-- A program that has opened the file `[7]` for reading. -/
def reader : Guest Unit where
  mem := fun _ => 0
  heap := .init
  files := ⟨(filesCreate true (.load oneFile) () genericRead 3).2, fun _ => none⟩
  maps := fun _ => none
  lastError := 0

/-- The program, with a mapping of the file. -/
def mapping : Guest Unit := (createFileMapping reader 0x100).2

-- ---------------------------------------------------------------------------
-- The table
-- ---------------------------------------------------------------------------

theorem slot_toNat (i : Fin 128) : (mapBase + .ofNat 32 i - mapBase).toNat = i := by
  have hi := i.isLt
  unfold mapBase
  bv_omega

theorem slot_le (i : Fin 128) : mapBase ≤ mapBase + .ofNat 32 i := by
  have hi := i.isLt
  unfold mapBase
  bv_omega

theorem mapped_slot (g : Guest F) (i : Fin 128) : g.mapped (mapBase + .ofNat 32 i) = g.maps i := by
  have hslot := slot_toNat i
  rw [Guest.mapped, dif_pos ⟨slot_le i, by omega⟩]
  exact congrArg g.maps (Fin.ext hslot)

/-- The entries are used one after the other. -/
def Filled (g : Guest F) (l : List U32) : Prop := l.length ≤ 128 ∧ ∀ i : Fin 128, g.maps i = l[i.val]?

theorem Filled.free {g : Guest F} (h : Filled g l) :
    g.free = if hl : l.length < 128 then some ⟨l.length, hl⟩ else none := by
  obtain ⟨-, hmaps⟩ := h
  unfold Guest.free
  split
  · rename_i hl
    refine List.find?_eq_some_iff_getElem.2 ⟨?_, l.length, by simpa using hl, by simp, ?_⟩
    · rw [hmaps]
      simp
    · intro j hj
      rw [List.getElem_finRange, hmaps]
      simp [hj]
  · rename_i hl
    refine List.find?_eq_none.2 fun i _ => ?_
    have hi : i.val < l.length := by
      omega
    rw [hmaps]
    simp [hi]

theorem Filled.create {g : Guest F} (h : Filled g l) (hfile : U32) :
    Filled (createFileMapping g hfile).2
        (l ++ if (createFileMapping g hfile).1.toNat = 0 then [] else [hfile]) ∧
      (hfile ≠ 0 → l.length < 128 → (createFileMapping g hfile).1 = mapBase + .ofNat 32 l.length) := by
  have hfree := h.free
  unfold createFileMapping
  split
  · rename_i hzero
    refine ⟨?_, fun hne => absurd hzero hne⟩
    exact (List.append_nil l).symm ▸ ⟨h.1, h.2⟩
  · split
    · rename_i i hi
      rw [hi] at hfree
      split at hfree
      · rename_i hl
        obtain rfl := Option.some.inj hfree
        have hslot := slot_le ⟨l.length, hl⟩
        have hne : (mapBase + BitVec.ofNat 32 l.length).toNat ≠ 0 := by
          have hle : mapBase.toNat ≤ (mapBase + BitVec.ofNat 32 l.length).toNat := hslot
          have hpos : 0 < mapBase.toNat := by decide
          omega
        refine ⟨⟨?_, fun j => ?_⟩, fun _ _ => rfl⟩
        · dsimp only
          rw [if_neg hne, List.length_append]
          exact hl
        · dsimp only
          rw [if_neg hne]
          by_cases hj : j = ⟨l.length, hl⟩
          · subst hj
            rw [Function.update_self, List.getElem?_append_right (Nat.le_refl _), Nat.sub_self]
            rfl
          · have hval : j.val ≠ l.length := fun hv => hj (Fin.ext hv)
            rw [Function.update_of_ne hj, h.2]
            obtain hlt | hgt := Nat.lt_or_gt_of_ne hval
            · rw [List.getElem?_append_left hlt]
            · rw [List.getElem?_eq_none (by omega), List.getElem?_eq_none]
              rw [List.length_append]
              exact hgt
      · cases hfree
    · rename_i hnone
      rw [hnone] at hfree
      split at hfree
      · cases hfree
      · rename_i hl
        refine ⟨?_, fun _ hlt => absurd hlt hl⟩
        exact (List.append_nil l).symm ▸ ⟨h.1, h.2⟩

theorem map_maps {g : Guest F} (h : mapViewOfFile g hmap offHigh offLow size ok room = some (r, g')) :
    g'.maps = g.maps := by
  unfold mapViewOfFile at h
  dsimp only at h
  split at h
  · cases h
    rfl
  · rename_i fh hfh
    generalize (if size = 0 then g.files.setPointer64 fh 0 2 else (0, g.files)) = found at h
    split at h
    · cases h
      rfl
    · split at h
      · cases h
        rfl
      · obtain ⟨x, -, hx⟩ := Option.map_eq_some_iff.1 h
        cases hx
        rfl

theorem closeHandle_maps (g : Guest F) (h : U32) : (closeHandle g h).maps = g.maps := by
  unfold closeHandle
  split <;> rfl

theorem created_append (tr tr' : List (Action F × Nat)) :
    created (tr ++ tr') = created tr ++ created tr' := List.filterMap_append

theorem run_filled {g₀ : Guest F} (h0 : ∀ i, g₀.maps i = none) (h : Run step anyStep g₀ tr g) :
    Filled g (created tr) := by
  refine h.invariant (P := fun tr g => Filled g (created tr))
    ⟨Nat.zero_le _, fun i => (h0 i).trans List.getElem?_nil.symm⟩ ?_
  intro tr g a g' r hg _ hs
  rw [created_append]
  cases a with
  | create hfile =>
    cases hs
    have hnext := (hg.create hfile).1
    have hlast : created [(Action.create (F := F) hfile, (createFileMapping g hfile).1.toNat)] =
        if (createFileMapping g hfile).1.toNat = 0 then [] else [hfile] := by
      unfold created
      split <;> simp [*]
    rw [hlast]
    exact hnext
  | map hmap offHigh offLow size ok room =>
    obtain ⟨x, hx, hswap⟩ := Option.map_eq_some_iff.1 hs
    cases hswap
    have hmaps := map_maps hx
    refine ⟨?_, fun i => ?_⟩
    · exact (List.append_nil (created tr)).symm ▸ hg.1
    · rw [hmaps]
      exact (List.append_nil (created tr)).symm ▸ hg.2 i
  | unmap view =>
    cases hs
    exact (List.append_nil (created tr)).symm ▸ hg
  | close x =>
    cases hs
    refine ⟨?_, fun i => ?_⟩
    · exact (List.append_nil (created tr)).symm ▸ hg.1
    · rw [closeHandle_maps]
      exact (List.append_nil (created tr)).symm ▸ hg.2 i
  | other mem heap files =>
    cases hs
    exact (List.append_nil (created tr)).symm ▸ hg

-- ---------------------------------------------------------------------------
-- One view
-- ---------------------------------------------------------------------------

/-- A request that is met has a live block of its own, as large as is cleared. -/
theorem alloc_block (h : guestAlloc s request ok = (s', a)) (ha : a ≠ 0) :
    ⟨a, blockSize request⟩ ∈ s'.live ∧ request ≤ blockSize request := by
  obtain ⟨h0, -⟩ | ⟨hsmall, hlive⟩ := guestAlloc_live h
  · exact absurd h0 ha
  · refine ⟨hlive ▸ List.mem_cons_self, ?_⟩
    have hround := (le_roundPage (x := if request = 0 then 1 else request) (by split <;> omega)).1
    refine Nat.le_trans ?_ hround
    split <;> omega

theorem drop_min (c : List Byte) (n : Nat) : c.drop (min n c.length) = c.drop n := by
  obtain hle | hle := Nat.le_total n c.length
  · rw [Nat.min_eq_left hle]
  · rw [Nat.min_eq_right hle, List.drop_length, List.drop_eq_nil_of_le hle]

/-- The end is found, and the handle still reads the content. -/
theorem Holds.last {s : Store F} (h : Holds s x c) (hc : c.length < 2 ^ 63) :
    (s.setPointer64 x 0 2).1.toNat = c.length ∧ Holds (s.setPointer64 x 0 2).2 x c := by
  obtain ⟨i, e, hfind, ⟨pos, hinj⟩ | ⟨hinj, hread, rfl⟩⟩ := h
  · have hend : injected c pos 0 2 = c.length := by
      simp [injected]
    have hset : s.setPointer64 x 0 2 = (.ofNat 64 c.length, s.inject i c c.length) := by
      rw [Store.setPointer64, hfind]
      dsimp only
      rw [hinj]
      exact congrArg (fun p => ((.ofNat 64 p, s.inject i c p) : U64 × Store F)) hend
    rw [hset]
    refine ⟨?_, i, e, hfind, .inl ⟨c.length, Function.update_self ..⟩⟩
    rw [BitVec.toNat_ofNat]
    omega
  · have hseek : fseek (s.sys.content e) e.fp (0 : U64).toInt (whence 2) =
        { e.fp with pos := (s.sys.content e).length, last := .none } := by
      have hlast : whence 2 = .last := by decide
      have hzero : (0 : U64).toInt = 0 := by decide
      rw [hlast, hzero, seek_inside (by simp [Whence.origin])]
      simp [Whence.origin]
    have hs : s.Has x i e := ⟨hfind, hinj⟩
    rw [hs.setPointer64, hseek]
    refine ⟨?_, i, _, (hs.stream _).find, .inr ⟨hinj, hread, rfl⟩⟩
    dsimp only
    rw [BitVec.toNat_ofNat]
    omega

/-- From an offset, the bytes behind it are read. -/
theorem Holds.read {s : Store F} (h : Holds s x c) {offset : U64} (ho : offset.toNat < 2 ^ 63)
    (n : Nat) : ∃ s', (s.setPointer64 x offset 0).2.read x n =
      some (some ((c.drop offset.toNat).take n), s') := by
  obtain ⟨i, e, hfind, ⟨pos, hinj⟩ | ⟨hinj, hread, rfl⟩⟩ := h
  · have hat : injected c pos offset.toInt 0 = min offset.toNat c.length := by
      rw [read_toNat ho]
      simp [injected]
    have hset : (s.setPointer64 x offset 0).2 = s.inject i c (min offset.toNat c.length) := by
      rw [Store.setPointer64, hfind]
      dsimp only
      rw [hinj]
      exact congrArg (s.inject i c) hat
    have hfind' : (s.inject i c (min offset.toNat c.length)).sys.find x = some (i, e) := hfind
    have hinj' : (s.inject i c (min offset.toNat c.length)).inj i =
        some (c, min offset.toNat c.length) := Function.update_self ..
    rw [hset, Store.read, hfind']
    dsimp only
    rw [hinj']
    dsimp only
    rw [drop_min]
    exact ⟨_, rfl⟩
  · have hseek : fseek (s.sys.content e) e.fp offset.toInt (whence 0) =
        { e.fp with pos := offset.toNat, last := .none } := by
      have hset : whence 0 = .set := by decide
      rw [read_toNat ho, hset, seek_inside (by simp [Whence.origin])]
      simp [Whence.origin]
    obtain ⟨fp, hfp, -⟩ := fread_at (c := s.sys.content e)
      (f := { e.fp with pos := offset.toNat, last := .none }) rfl hread (.inl (Nat.le_refl n))
    rw [Nat.min_self] at hfp
    have hs : s.Has x i e := ⟨hfind, hinj⟩
    rw [hs.setPointer64, hseek, (hs.stream _).read, stream_content, hfp]
    exact ⟨_, rfl⟩

/-- The size of the view is what it is to show, or there is nothing to show. -/
theorem mapSize_asked {last offset : U64} (hlast : size = 0 → last.toNat = c.length)
    (hleft : size = 0 → c.length - offset.toNat < 2 ^ 32) :
    (mapSize last offset size).toNat = asked c offset.toNat size ∨
      asked c offset.toNat size = 0 ∧ c.length ≤ offset.toNat := by
  unfold mapSize asked
  dsimp only
  by_cases hsize : size = 0
  · have hc := hlast hsize
    have hn := hleft hsize
    simp only [if_pos hsize]
    by_cases hlt : offset < last
    · refine .inl ?_
      have hlt' : offset.toNat < last.toNat := hlt
      have hwidth : ((last - offset).setWidth 32).toNat = c.length - offset.toNat := by
        rw [BitVec.toNat_setWidth, BitVec.toNat_sub_of_le (Nat.le_of_lt hlt'), hc]
        exact Nat.mod_eq_of_lt hn
      rw [if_pos hlt]
      split
      · rename_i hbig
        have hbig' : 0x8000000 < ((last - offset).setWidth 32).toNat := hbig
        rw [hwidth] at hbig'
        exact (Nat.min_eq_right (Nat.le_of_lt hbig')).symm
      · rename_i hbig
        have hbig' : ¬ 0x8000000 < ((last - offset).setWidth 32).toNat := hbig
        rw [hwidth] at hbig' ⊢
        exact (Nat.min_eq_left (Nat.not_lt.1 hbig')).symm
    · have hle : last.toNat ≤ offset.toNat := Nat.not_lt.1 hlt
      refine .inr ⟨?_, hc ▸ hle⟩
      omega
  · refine .inl ?_
    simp only [if_neg hsize]
    split
    · rename_i hbig
      have hbig' : 0x8000000 < size.toNat := hbig
      exact (Nat.min_eq_right (Nat.le_of_lt hbig')).symm
    · rename_i hbig
      have hbig' : ¬ 0x8000000 < size.toNat := hbig
      exact (Nat.min_eq_left (Nat.not_lt.1 hbig')).symm

/-- Bytes read into memory that was cleared. -/
theorem view_byte (m : Nat → Byte) (a len : Nat) (bs : List Byte) (hk : k < len) :
    putBytes (zero m ⟨a, len⟩) a bs (a + k) = bs.getD k 0 := by
  unfold putBytes
  rw [if_pos (Nat.le_add_right a k), Nat.add_sub_cancel_left, zero,
    if_pos ⟨Nat.le_add_right a k, Nat.add_lt_add_left hk a⟩]
  exact (List.getD_eq_getElem?_getD ..).symm

theorem view_shows (hn : n = asked c offset size ∨ asked c offset size = 0 ∧ c.length ≤ offset)
    (k : Nat) : ((c.drop offset).take n).getD k 0 =
      if k < asked c offset size then c.getD (offset + k) 0 else 0 := by
  simp only [List.getD_eq_getElem?_getD, List.getElem?_take, List.getElem?_drop]
  obtain rfl | ⟨hzero, hle⟩ := hn
  · split <;> rfl
  · rw [hzero, if_neg (Nat.not_lt_zero k), List.getElem?_eq_none (Nat.le_trans hle (Nat.le_add_right ..))]
    split <;> rfl

theorem map_shows {g : Guest F} (hm : g.mapped hmap = some fh) (hr : Holds g.files fh c)
    (hc : c.length < 2 ^ 63) (ho : (joined offHigh offLow).toNat < 2 ^ 63)
    (hleft : size = 0 → c.length - (joined offHigh offLow).toNat < 2 ^ 32) (ok room : Bool) :
    ∃ addr g', mapViewOfFile g hmap offHigh offLow size ok room = some (addr, g') ∧
      (addr ≠ 0 → Shows g' addr c (joined offHigh offLow).toNat size) := by
  obtain ⟨found, hfound, hlast, hr'⟩ : ∃ found : U64 × Store F,
      (if size = 0 then g.files.setPointer64 fh 0 2 else (0, g.files)) = found ∧
      (size = 0 → found.1.toNat = c.length) ∧ Holds found.2 fh c := by
    split
    · obtain ⟨hlen, hr'⟩ := hr.last hc
      exact ⟨_, rfl, fun _ => hlen, hr'⟩
    · rename_i hne
      exact ⟨_, rfl, fun h => absurd h hne, hr⟩
  unfold mapViewOfFile
  rw [hm]
  dsimp only
  rw [hfound]
  have hsize := mapSize_asked hlast hleft
  rw [show offHigh.setWidth 64 <<< 32 ||| offLow.setWidth 64 = joined offHigh offLow from rfl]
  generalize joined offHigh offLow = offset at ho hsize ⊢
  generalize mapSize found.1 offset size = mapsize at hsize ⊢
  generalize hga : guestAllocAligned g.heap mapsize.toNat 0x10000 ok = r
  obtain ⟨heap, gaddr⟩ := r
  dsimp only
  split
  · exact ⟨0, _, rfl, fun h => absurd rfl h⟩
  · rename_i hgaddr
    split
    · exact ⟨0, _, rfl, fun h => absurd rfl h⟩
    · obtain ⟨s', hread⟩ := hr'.read ho mapsize.toNat
      rw [hread]
      refine ⟨gaddr, _, rfl, fun _ => ⟨⟨gaddr, blockSize mapsize.toNat⟩, ?_, rfl, ?_, ?_⟩⟩
      · exact (alloc_block hga hgaddr).1
      · have hroom := (alloc_block hga hgaddr).2
        show asked c offset.toNat size ≤ blockSize mapsize.toNat
        omega
      · intro k hk
        dsimp only
        rw [Option.getD_some, view_byte _ _ _ _ hk, view_shows hsize]

-- ---------------------------------------------------------------------------
-- The law
-- ---------------------------------------------------------------------------

/-- From the start of a program, a mapping stands for the file it was created for, and its
views show what the file's handle reads. -/
theorem views_law {g₀ g : Guest F} {tr : List (Action F × Nat)} (h0 : ∀ i, g₀.maps i = none)
    (h : Run step anyStep g₀ tr g) : Sound tr g := by
  have hfill := run_filled h0 h
  have hkept : ∀ i x, (created tr)[i]? = some x → g.mapped (mapBase + .ofNat 32 i) = some x := by
    intro i x hi
    have hlt : i < (created tr).length := (List.getElem?_eq_some_iff.1 hi).1
    have hslot : i < 128 := Nat.lt_of_lt_of_le hlt hfill.1
    have hmap := mapped_slot g ⟨i, hslot⟩
    rw [hfill.2 ⟨i, hslot⟩] at hmap
    exact hmap.trans hi
  refine ⟨hkept, fun x hx hlt => (hfill.create x).2 hx hlt, ?_⟩
  intro i x hi c hr hc offHigh offLow size ok room ho hleft
  exact map_shows (hkept i x hi) hr.1 hc ho hleft ok room

/-- The file is mapped, and its only byte is seen. -/
theorem views_law_mapped : ∃ tr g, Run step anyStep reader tr g ∧ Sound tr g ∧
    g.mem 0x20000000 = 7 ∧ g.mem 0x20000001 = 0 := by
  have hexec : (exec step anyStep reader [.create 0x100, .map mapBase 0 0 0 true true]).any fun r =>
      decide (r.2.mem 0x20000000 = 7 ∧ r.2.mem 0x20000001 = 0) := by decide +kernel
  obtain ⟨tr, g, hr, hp⟩ := Run.of_exec_any hexec
  exact ⟨tr, g, hr, views_law (fun _ => rfl) hr, of_decide_eq_true hp⟩

theorem opened_recycled (tr : List (Action F × Nat)) (hfile h : U32) (hh : h.toNat ≠ 0) (r : Nat) :
    opened (tr ++ [(.create hfile, h.toNat)] ++ [(.close h, r)]) = opened tr := by
  unfold opened
  rw [List.foldl_append, List.foldl_append]
  simp only [List.foldl_cons, List.foldl_nil, if_neg hh]
  exact List.erase_cons_head ..

/-- Mappings that are closed again use up the entries. -/
theorem run_used (n : Nat) (hn : n ≤ 128) : ∃ tr g, Run step anyStep reader tr g ∧
    (created tr).length = n ∧ opened tr = [] := by
  induction n with
  | zero => exact ⟨[], reader, .nil, rfl, rfl⟩
  | succ n ih =>
    obtain ⟨tr, g, hr, hlen, hopen⟩ := ih (Nat.le_of_succ_le hn)
    have hroom := (run_filled (fun _ => rfl) hr).create 0x100
    have hmap := hroom.2 (by decide) (hlen ▸ hn)
    generalize hh : (createFileMapping g 0x100).1 = h at hmap
    have hne : h.toNat ≠ 0 := by
      subst hmap
      have hle : mapBase.toNat ≤ (mapBase + .ofNat 32 (created tr).length).toNat :=
        slot_le ⟨(created tr).length, hlen ▸ hn⟩
      have hpos : 0 < mapBase.toNat := by decide
      omega
    have hcreate : step g (.create 0x100) = some ((createFileMapping g 0x100).2, h.toNat) := by
      rw [← hh]
      rfl
    refine ⟨_, _, .snoc (.snoc hr trivial hcreate) trivial (a := .close h) rfl, ?_, ?_⟩
    · rw [created_append, created_append, List.length_append, List.length_append, hlen]
      simp [created, hne]
    · rw [opened_recycled tr 0x100 h hne, hopen]

/-- A view moves the position of the handle, is zeros once the file is closed, is cut off at
128 MB and at the size modulo 2^32, and is read from elsewhere for an offset of 2^63; and
mappings that were closed keep others from being created. -/
theorem views_wrong :
    ((mapping.files.sys.find 0x100).map fun r => r.2.fp.pos) = some 0 ∧
    ((mapViewOfFile mapping mapBase 0 0 0 true true).bind fun r =>
      (r.2.files.sys.find 0x100).map fun r => r.2.fp.pos) = some 1 ∧
    ((mapViewOfFile (closeHandle mapping 0x100) mapBase 0 0 0 true true).map fun r =>
      (r.1, r.2.mem 0x20000000)) = some (0x20000000, 0) ∧
    ((mapViewOfFile mapping mapBase 0 0 0x8000001 true true).map fun r => (r.1, r.2.heap.live)) =
      some (0x20000000, [⟨0x20000000, 0x8000000⟩]) ∧
    mapSize (.ofNat 64 (2 ^ 32 + 1)) 0 0 = 1 ∧
    ((mapViewOfFile mapping mapBase 0x80000000 0 1 true true).map fun r =>
      (r.1, r.2.mem 0x20000000)) = some (0x20000000, 7) ∧
    ¬ ∀ tr g, Run step anyStep reader tr g → (opened tr).length < 128 →
      (createFileMapping g 0x100).1 ≠ 0 := by
  refine ⟨by decide +kernel, by decide +kernel, by decide +kernel, by decide +kernel,
    by decide +kernel, by decide +kernel, fun hall => ?_⟩
  obtain ⟨tr, g, hr, hlen, hopen⟩ := run_used 128 (Nat.le_refl _)
  have hfree := (run_filled (fun _ => rfl) hr).free
  rw [dif_neg (by omega)] at hfree
  refine hall tr g hr (hopen ▸ Nat.zero_lt_succ 127) ?_
  unfold createFileMapping
  rw [if_neg (by decide), hfree]

end WineGlass.FileViews
