import WineGlass.Files.Api
import WineGlass.Lib.Fields

/-!
# Sizes and seeks

`GetFileSize`, `GetFileSizeEx` and `SetFilePointer` over the calls of `wg_win32_files.c`. The
handlers take the low halves of their registers, and sizes and distances have 32 bits.
-/

namespace WineGlass.FileSizes

open FileHandles FileApi Stdio Fields

variable {F : Type}

structure World (F : Type) where
  mem : Nat → Byte
  files : Store F
  lastError : U32

-- ---------------------------------------------------------------------------
-- The code
-- ---------------------------------------------------------------------------

/-- What a handler sees of a register. -/
def arg (x : U64) : U32 := x.setWidth 32

/-- The pointers that a size is stored behind. -/
def wanted (p : U32) : Bool := 0x10000 < p ∧ p < 0xF0000000

def World.getFileSize (w : World F) (handle high : U64) : U64 × World F :=
  let r := w.files.getSize (arg handle)
  let mem := if wanted (arg high) then set w.mem ⟨(arg high).toNat, 4⟩ 0 else w.mem
  (r.1.setWidth 64, { w with files := r.2, mem })

def World.getFileSizeEx (w : World F) (handle size : U64) : U64 × World F :=
  if arg handle = invalid then (0, { w with lastError := 6 })
  else
    let r := w.files.getSize (arg handle)
    let mem := if wanted (arg size) then set w.mem ⟨(arg size).toNat, 8⟩ r.1.toNat else w.mem
    (1, { w with files := r.2, mem })

/-- Seeks that an installer makes in its own file look at the file's size first. -/
def tracked (distance method : U32) : Bool :=
  method = 0 ∧ 100000 < distance.toInt ∧ distance.toInt < 2000000

def World.setFilePointer (w : World F) (handle distance _high method : U64) : U64 × World F :=
  let files :=
    if tracked (arg distance) (arg method) then (w.files.getSize (arg handle)).2 else w.files
  let r := files.setPointer (arg handle) (arg distance) (arg method)
  (r.1.setWidth 64, { w with files := r.2 })

/-- The stub of `wg_dll_mapper.c`, which has no handler. -/
def World.setFilePointerEx (w : World F) (_handle _distance _new _method : U64) : U64 × World F :=
  (1, w)

-- ---------------------------------------------------------------------------
-- Positions and lengths
-- ---------------------------------------------------------------------------

def position (s : Store F) (h : U32) : Option Nat :=
  (s.sys.find h).map fun r =>
    match s.inj r.1 with
    | some (_, pos) => pos
    | none => r.2.fp.pos

def length (s : Store F) (h : U32) : Option Nat :=
  (s.sys.find h).map fun r =>
    match s.inj r.1 with
    | some (bytes, _) => bytes.length
    | none => (s.sys.content r.2).length

/-- The content is served from memory. -/
def served (s : Store F) (h : U32) : Bool := (s.sys.find h).any fun r => (s.inj r.1).isSome

def origin (len pos : Nat) (method : U32) : Nat :=
  if method = 1 then pos else if method = 2 then len else 0

/-- A stream stays where it is instead of going before the start, and content that is served
has no place outside it. -/
def moved (served : Bool) (len pos : Nat) (distance : Int) (method : U32) : Nat :=
  let target := origin len pos method + distance
  if served then min target.toNat len else if target < 0 then pos else target.toNat

/-- The claim's seeks: both calls take the distance to the same place. -/
def SeeksAgree (w : World F) (h : U64) : Prop :=
  ∀ distance high new method, get w.mem ⟨(arg high).toNat, 4⟩ = distance.toNat / 2 ^ 32 →
    position (w.setFilePointer h distance high method).2.files (arg h) =
      position (w.setFilePointerEx h distance new method).2.files (arg h)

/-- The claim's sizes: the whole length, behind any pointer. -/
def SizesStored (w : World F) (h : U64) : Prop :=
  ∀ len, length w.files (arg h) = some len → ∀ size : U64, size ≠ 0 →
    get (w.getFileSizeEx h size).2.mem ⟨size.toNat, 8⟩ = len

/-- What sizes and seeks of 32 bits do with a file of any length at any position. -/
structure Narrow (w : World F) (h : U64) (len pos : Nat) : Prop where
  seek : ∀ distance high method,
    (w.setFilePointer h distance high method).1 = .ofNat 64
      (moved (served w.files (arg h)) len pos (arg distance).toInt (arg method) % 2 ^ 32) ∧
    position (w.setFilePointer h distance high method).2.files (arg h) =
      some (moved (served w.files (arg h)) len pos (arg distance).toInt (arg method))
  kept : ∀ distance high method,
    (w.setFilePointer h distance high method).2.mem = w.mem ∧
    length (w.setFilePointer h distance high method).2.files (arg h) = some len
  size : ∀ high, (w.getFileSize h high).1 = .ofNat 64 (len % 2 ^ 32) ∧
    position (w.getFileSize h high).2.files (arg h) = some pos ∧
    length (w.getFileSize h high).2.files (arg h) = some len
  sizeEx : ∀ size, (w.getFileSizeEx h size).1 = 1 ∧
    position (w.getFileSizeEx h size).2.files (arg h) = some pos ∧
    length (w.getFileSizeEx h size).2.files (arg h) = some len
  high : ∀ high, wanted (arg high) →
    get (w.getFileSize h high).2.mem ⟨(arg high).toNat, 4⟩ = 0
  agree : len < 2 ^ 32 → ∀ high, (w.getFileSize h high).1 = .ofNat 64 len ∧
    (w.setFilePointer h 0 high 2).1 = .ofNat 64 len ∧
    ∀ size, wanted (arg size) → get (w.getFileSizeEx h size).2.mem ⟨(arg size).toNat, 8⟩ = len

-- ---------------------------------------------------------------------------
-- The calls
-- ---------------------------------------------------------------------------

/-- The pointer has moved to `pos`, and nothing else has changed. -/
structure Moves (s s' : Store F) (h : U32) (len pos : Nat) : Prop where
  position : position s' h = some pos
  length : length s' h = some len
  served : served s' h = served s h

theorem moves_stream {s : Store F} (hs : s.Has h i e) (fp : Stream) :
    Moves s (s.stream i e fp) h (s.sys.content e).length fp.pos := by
  have hs' := hs.stream fp
  constructor
  · rw [position, hs'.find, Option.map_some, hs'.plain]
  · rw [length, hs'.find, Option.map_some, hs'.plain]
    rfl
  · rw [served, served, hs'.find, hs.find, Option.any_some, Option.any_some, hs.plain]
    exact congrArg Option.isSome hs'.plain

theorem moves_inject {s : Store F} (hf : s.sys.find h = some (i, e)) (hi : s.inj i = some (bytes, p))
    (pos : Nat) : Moves s (s.inject i bytes pos) h bytes.length pos := by
  have hf' : (s.inject i bytes pos).sys.find h = some (i, e) := hf
  have hi' : (s.inject i bytes pos).inj i = some (bytes, pos) := Function.update_self ..
  constructor
  · rw [position, hf', Option.map_some, hi']
  · rw [length, hf', Option.map_some, hi']
  · rw [served, served, hf', hf, Option.any_some, Option.any_some, hi, hi']
    rfl

/-- An open handle: its length, its position and whether its content is served. -/
theorem open_cases {s : Store F} (hlen : length s h = some len) (hpos : position s h = some pos) :
    (∃ i e, s.Has h i e ∧ len = (s.sys.content e).length ∧ pos = e.fp.pos ∧ served s h = false) ∨
      ∃ i e bytes, s.sys.find h = some (i, e) ∧ s.inj i = some (bytes, pos) ∧
        len = bytes.length ∧ served s h = true := by
  unfold length at hlen
  unfold position at hpos
  unfold served
  cases hf : s.sys.find h with
  | none =>
    rw [hf] at hlen
    cases hlen
  | some r =>
    obtain ⟨i, e⟩ := r
    rw [hf, Option.map_some] at hlen hpos
    dsimp only at hlen hpos
    rw [Option.any_some]
    cases hi : s.inj i with
    | none =>
      rw [hi] at hlen hpos
      exact .inl ⟨i, e, ⟨hf, hi⟩, (Option.some.inj hlen).symm,
        (Option.some.inj hpos).symm, rfl⟩
    | some c =>
      obtain ⟨bytes, p⟩ := c
      rw [hi] at hlen hpos
      obtain rfl := Option.some.inj hpos
      exact .inr ⟨i, e, bytes, rfl, hi, (Option.some.inj hlen).symm, rfl⟩

theorem getSize_spec {s : Store F} (hlen : length s h = some len) (hpos : position s h = some pos) :
    (s.getSize h).1 = .ofNat 32 len ∧ Moves s (s.getSize h).2 h len pos := by
  obtain ⟨i, e, hs, rfl, rfl, -⟩ | ⟨i, e, bytes, hf, hi, rfl, -⟩ := open_cases hlen hpos
  · have hend : fseek (s.sys.content e) e.fp 0 .last =
        { e.fp with pos := (s.sys.content e).length, last := .none } := by
      rw [seek_inside (by simp [Whence.origin])]
      simp [Whence.origin]
    have hback (fp : Stream) : (fseek (s.sys.content e) fp e.fp.pos .set).pos = e.fp.pos := by
      rw [seek_inside (by simp [Whence.origin])]
      simp [Whence.origin]
    rw [Store.getSize, hs.find]
    dsimp only
    rw [hs.plain]
    dsimp only
    rw [hend]
    refine ⟨rfl, ?_⟩
    have hmoves := moves_stream hs
      (fseek (s.sys.content e) { e.fp with pos := (s.sys.content e).length, last := .none } e.fp.pos .set)
    rw [hback] at hmoves
    exact hmoves
  · rw [Store.getSize, hf]
    dsimp only
    rw [hi]
    exact ⟨rfl, hpos, hlen, rfl⟩

theorem origin_stream (c : List Byte) (fp : Stream) (method : U32) :
    (whence method).origin c fp = origin c.length fp.pos method := by
  unfold whence origin
  split
  · rfl
  · split <;> rfl

theorem setPointer_spec {s : Store F} (hlen : length s h = some len) (hpos : position s h = some pos)
    (distance method : U32) :
    (s.setPointer h distance method).1 =
        .ofNat 32 (moved (served s h) len pos distance.toInt method) ∧
      Moves s (s.setPointer h distance method).2 h len
        (moved (served s h) len pos distance.toInt method) := by
  obtain ⟨i, e, hs, rfl, rfl, hserved⟩ | ⟨i, e, bytes, hf, hi, rfl, hserved⟩ := open_cases hlen hpos
  · have hmoved : (fseek (s.sys.content e) e.fp distance.toInt (whence method)).pos =
        moved (served s h) (s.sys.content e).length e.fp.pos distance.toInt method := by
      rw [hserved, fseek, moved, origin_stream, if_neg Bool.false_ne_true]
      split <;> rfl
    rw [hs.setPointer, ← hmoved]
    exact ⟨rfl, moves_stream hs _⟩
  · have hmoved : injected bytes pos distance.toInt method =
        moved (served s h) bytes.length pos distance.toInt method := by
      rw [hserved]
      rfl
    rw [Store.setPointer, hf]
    dsimp only
    rw [hi]
    dsimp only
    rw [hmoved]
    exact ⟨rfl, moves_inject hf hi _⟩

-- ---------------------------------------------------------------------------
-- The law
-- ---------------------------------------------------------------------------

theorem low_word (n : Nat) : (BitVec.ofNat 32 n).setWidth 64 = BitVec.ofNat 64 (n % 2 ^ 32) := by
  refine BitVec.eq_of_toNat_eq ?_
  simp only [BitVec.toNat_setWidth, BitVec.toNat_ofNat]

/-- A seek, whether the size was looked at before or not. -/
theorem setFilePointer_spec {w : World F} {h : U64} (hlen : length w.files (arg h) = some len)
    (hpos : position w.files (arg h) = some pos) (distance high method : U64) :
    (w.setFilePointer h distance high method).1 = .ofNat 64
        (moved (served w.files (arg h)) len pos (arg distance).toInt (arg method) % 2 ^ 32) ∧
      Moves w.files (w.setFilePointer h distance high method).2.files (arg h) len
        (moved (served w.files (arg h)) len pos (arg distance).toInt (arg method)) := by
  have hbefore : Moves w.files (if tracked (arg distance) (arg method) then
      (w.files.getSize (arg h)).2 else w.files) (arg h) len pos := by
    split
    · exact (getSize_spec hlen hpos).2
    · exact ⟨hpos, hlen, rfl⟩
  obtain ⟨hval, hmoves⟩ :=
    setPointer_spec hbefore.length hbefore.position (arg distance) (arg method)
  rw [hbefore.served] at hval hmoves
  refine ⟨?_, hmoves.position, hmoves.length, hmoves.served.trans hbefore.served⟩
  rw [← low_word, ← hval]
  rfl

theorem moved_end (served : Bool) (len pos : Nat) : moved served len pos 0 2 = len := by
  have horigin : origin len pos 2 = len := by
    rw [origin, if_neg (by decide), if_pos rfl]
  rw [moved, horigin, Int.add_zero]
  split
  · exact Nat.min_self len
  · exact if_neg (Int.not_lt.2 (Int.natCast_nonneg len))

/-- Sizes and distances have 32 bits: a seek goes to the place that the low half of its
distance says, whatever the high half is, and tells the low half of the position; the sizes
of a file below 4 GB agree with a seek to its end and are stored behind a pointer that is
wanted. -/
theorem sizes_law {w : World F} {h : U64} (hh : arg h ≠ invalid)
    (hlen : length w.files (arg h) = some len) (hpos : position w.files (arg h) = some pos) :
    Narrow w h len pos := by
  obtain ⟨hval, hmoves⟩ := getSize_spec hlen hpos
  have hsize : ∀ high, (w.getFileSize h high).1 = .ofNat 64 (len % 2 ^ 32) := by
    intro high
    rw [← low_word, ← hval]
    rfl
  have hex : ∀ size, w.getFileSizeEx h size = (1, { w with
      files := (w.files.getSize (arg h)).2
      mem := if wanted (arg size) then
        set w.mem ⟨(arg size).toNat, 8⟩ (w.files.getSize (arg h)).1.toNat else w.mem }) :=
    fun size => if_neg hh
  constructor
  · intro distance high method
    obtain ⟨hret, hmoved⟩ := setFilePointer_spec hlen hpos distance high method
    exact ⟨hret, hmoved.position⟩
  · intro distance high method
    exact ⟨rfl, (setFilePointer_spec hlen hpos distance high method).2.length⟩
  · intro high
    exact ⟨hsize high, hmoves.position, hmoves.length⟩
  · intro size
    rw [hex]
    exact ⟨rfl, hmoves.position, hmoves.length⟩
  · intro high hwanted
    have hmem : (w.getFileSize h high).2.mem = set w.mem ⟨(arg high).toNat, 4⟩ 0 := if_pos hwanted
    rw [hmem, get_set, Nat.zero_mod]
  · intro hsmall high
    have hlow : len % 2 ^ 32 = len := Nat.mod_eq_of_lt hsmall
    refine ⟨?_, ?_, fun size hwanted => ?_⟩
    · rw [hsize, hlow]
    · have hend : moved (served w.files (arg h)) len pos (arg 0).toInt (arg 2) = len :=
        moved_end _ len pos
      rw [(setFilePointer_spec hlen hpos 0 high 2).1, hend, hlow]
    · rw [hex]
      dsimp only
      rw [if_pos hwanted, get_set, hval, BitVec.toNat_ofNat, hlow]
      have hwidth : len < 256 ^ 8 := by
        omega
      exact Nat.mod_eq_of_lt hwidth

/-- The file `[7]`, opened. -/
def small : World Unit where
  mem := fun _ => 0
  files := ⟨(filesCreate true (.load oneFile) () genericRead 3).2, fun _ => none⟩
  lastError := 0

theorem sizes_law_small : Narrow small 0x100 1 0 :=
  sizes_law (by decide) (by decide +kernel) (by decide +kernel)

/-- A file of 4 GB, opened. -/
def large : World Unit where
  mem := fun _ => 0
  files :=
    { sys := { (filesCreate true (.load oneFile) () genericRead 3).2 with
        disk := fun _ => .file (List.replicate (2 ^ 32) 0) }
      inj := fun _ => none }
  lastError := 0

/-- `SetFilePointerEx` moves nothing, a size is not stored behind a low pointer, and 4 GB
are told as nothing. -/
theorem sizes_wrong : ¬ SeeksAgree small 0x100 ∧ ¬ SizesStored small 0x100 ∧
    ¬ SizesStored large 0x100 := by
  refine ⟨?_, ?_, ?_⟩
  · intro hagree
    have hseek := hagree 1 0 0 0 (by decide +kernel)
    revert hseek
    decide +kernel
  · intro hstored
    have hsize := hstored 1 (by decide +kernel) 0x8000 (by decide)
    revert hsize
    decide +kernel
  · intro hstored
    have hlen : length large.files (arg 0x100) = some (2 ^ 32) := by
      have hfind : (large.files.sys.find (arg 0x100)).isSome = true := by decide +kernel
      obtain ⟨r, hr⟩ := Option.isSome_iff_exists.1 hfind
      rw [length, hr, Option.map_some]
      exact congrArg some List.length_replicate
    have hpos : position large.files (arg 0x100) = some 0 := by decide +kernel
    have hval : (large.files.getSize (arg 0x100)).1 = 0 := (getSize_spec hlen hpos).1
    have hmem : (large.getFileSizeEx 0x100 0x20000).2.mem = set large.mem ⟨0x20000, 8⟩ 0 := by
      rw [World.getFileSizeEx, if_neg (by decide)]
      dsimp only
      rw [hval]
      rfl
    have hsize := hstored (2 ^ 32) hlen 0x20000 (by decide)
    rw [hmem] at hsize
    have hzero : get (set large.mem ⟨0x20000, 8⟩ 0) ⟨0x20000, 8⟩ = 0 := get_set
    exact absurd (hzero.symm.trans hsize) (by decide)

end WineGlass.FileSizes
