import Mathlib.Data.List.Forall2
import WineGlass.Files.Path
import WineGlass.Lib.Units

/-!
# Relative paths

Three handlers of `wg_engine.c` give a program its directory, and `CreateFileW` opens what
it makes of them. `SetCurrentDirectory` tracks one, `GetCurrentDirectory` answers with it
and `GetFullPathName` with the directory of the executable.
-/

namespace WineGlass.Relative

open Paths Thunks Files Units

abbrev Wide := List (BitVec 16)

def underscore : Byte := 0x5F
def question : Byte := 0x3F

/-- A wide character in a `char`, or the mark of the handler. -/
def narrow (mark : Byte) (c : BitVec 16) : Byte := if c < 128 then c.setWidth 8 else mark

def widen (s : Name) : Wide := s.map (·.setWidth 16)

inductive SetDir
  | ansi (path : Name)
  | wide (path : Wide)

/-- The tracked directory after `SetCurrentDirectoryA` or `SetCurrentDirectoryW`. -/
def SetDir.cwd : SetDir → Name
  | .ansi path => setCwd path
  | .wide path => setCwd (path.map (narrow question))

def backslashes (s : Name) : Name := s.map fun c => if c = slash then backslash else c

/-- `C:\` and the path below `drive_c`, in a `char[1024]`. -/
def windowsPath (rel : Name) : Name :=
  backslashes ((name "C:\\" ++ rel.dropWhile (· = slash)).take 1023)

/-- `wg_files_exe_win_path`, where `find_in_bottle` leaves `found`. -/
def exeWinPath (exePath driveC : Name) (found : Option Name) : Name :=
  if driveC ≠ [] ∧ driveC.isPrefixOf exePath then windowsPath (exePath.drop driveC.length)
  else
    match found with
    | some f => if driveC ≠ [] then windowsPath (f.drop driveC.length) else name "C:\\a.exe"
    | none => name "C:\\a.exe"

/-- The path before its last backslash. -/
def dirOf (path : Name) : Name :=
  match strrchr path backslash with
  | some i => path.take i
  | none => path

def rooted (dir : Name) : Name :=
  if 2 ≤ dir.length ∧ dir.getLast? = some colon then dir ++ [backslash] else dir

/-- What is returned, and what a buffer of `room` characters then has. -/
def answer (room : BitVec 32) (s : List α) : Nat × Option (List α) :=
  (s.length, if s.length < room.toNat then some s else none)

def currentDirectory (win cwd : Name) : Name := rooted (if cwd = [] then dirOf win else cwd)

def getCurrentDirectoryA (win cwd : Name) (room : BitVec 32) : Nat × Option Name :=
  answer room (currentDirectory win cwd)

def getCurrentDirectoryW (win cwd : Name) (room : BitVec 32) : Nat × Option Wide :=
  answer room (widen (currentDirectory win cwd))

/-- The path itself after a drive letter, and else below the executable's directory; in a
`char[520]`. -/
def fullPath (win a : Name) : Name :=
  let full :=
    if a[1]? = some colon then a
    else
      let dir := rooted (dirOf win)
      dir ++ (if dir.getLast? = some backslash then [] else [backslash]) ++ a
  backslashes (full.take 519)

/-- Where `lpFilePart` points to, in characters. -/
def filePart (full : Name) : Nat :=
  match strrchr full backslash with
  | some i => i + 1
  | none => 0

def getFullPathNameA (win a : Name) (room : BitVec 32) : (Nat × Option Name) × Nat :=
  let full := fullPath win (a.take 519)
  (answer room full, filePart full)

def getFullPathNameW (win : Name) (p : Wide) (room : BitVec 32) :
    (Nat × Option Wide) × Nat :=
  let full := fullPath win ((p.take 519).map (narrow question))
  (answer room (widen full), filePart full)

/-- What the paths of a program depend on. -/
structure Host where
  exePath : Name
  driveC : Name
  found : Option Name
  set : SetDir

def Host.cwd (h : Host) : Name := h.set.cwd
def Host.win (h : Host) : Name := exeWinPath h.exePath h.driveC h.found

/-- The host path that `CreateFileW` opens. -/
def Host.opened (h : Host) (path : Wide) : Name :=
  mapPath h.exePath h.driveC h.cwd ((path.take 259).map (narrow underscore))

def Host.file (h : Host) (path : Wide) : List Name := resolve (h.opened path)

-- ---------------------------------------------------------------------------
-- The same file
-- ---------------------------------------------------------------------------

/-- Some of the backslashes are slashes in the second. -/
def Variant (p q : Wide) : Prop := List.Forall₂ (fun a b => b = a ∨ a = 0x5C ∧ b = 0x2F) p q

/-- Every way to name the file opens what the path itself opens. -/
structure SameFile (h : Host) (p : Wide) : Prop where
  full : ∀ room w, (getFullPathNameW h.win p room).1.2 = some w → h.file w = h.file p
  fullAnsi : ∀ room a s, widen a = p → (getFullPathNameA h.win a room).1.2 = some s →
    h.file (widen s) = h.file p
  here : ∀ room d, (getCurrentDirectoryW h.win h.cwd room).2 = some d →
    h.file (d ++ 0x5C :: p) = h.file p
  hereAnsi : ∀ room d, (getCurrentDirectoryA h.win h.cwd room).2 = some d →
    h.file (widen d ++ 0x5C :: p) = h.file p
  slashes : ∀ q, Variant p q → h.file q = h.file p

/-- A path below no drive and no separator, of characters that a name can have. -/
structure IsRelative (p : Wide) : Prop where
  first : ∀ c ∈ p.head?, c ≠ 0x2F ∧ c ≠ 0x5C
  colon : 0x3A ∉ p
  question : 0x3F ∉ p

/-- `\\?\` at the start. -/
def longPrefix (s : Name) : Bool :=
  match s with
  | a :: b :: c :: d :: _ => isSep a && isSep b && c = question && isSep d
  | _ => false

/-- No long prefix, and no drive letter behind the start. -/
structure Plain (s : Name) : Prop where
  long : longPrefix s = false
  drive : lastDrive s.tail = none

/-- Nothing is too long for the buffers. -/
structure Fits (h : Host) (p : Wide) : Prop where
  driveC : h.driveC.length ≤ 500
  exe : (rooted (dirOf h.win)).length + p.length ≤ 258
  dir : (currentDirectory h.win h.cwd).length + p.length ≤ 258

/-- The moves of a guest path below its drive. -/
def way (path : Name) : List (Move Name) := moves (fixSeparators (skipDrive path))

/-- What `CreateFileW` reads of a widened string. -/
def typed (s : Name) : Name := s.map fun c => if c < 128 then c else underscore

def Host.base (h : Host) : List Name := resolve (fixSeparators h.driveC)

def Host.dir (h : Host) : Name := if h.cwd = [] then dirOf h.win else h.cwd

/-- Where a path leads from the tracked directory. -/
def Host.fromCwd (h : Host) (p : Wide) : List Name :=
  go (go h.base (way h.cwd)) (moves (fixSeparators (p.map (narrow underscore))))

/-- Where it leads from the executable's. -/
def Host.fromExe (h : Host) (a : Name) : List Name :=
  if isExe (typed (fullPath h.win a)) then resolve h.exePath
  else go (go h.base (way (typed (dirOf h.win)))) (moves (fixSeparators (typed a)))

/-- Where it leads from the one that `GetCurrentDirectory` answers with. -/
def Host.fromDir (h : Host) (p : Wide) : List Name :=
  let base := if isAbs h.dir then h.base else go h.base (way h.cwd)
  go (go base (way (typed h.dir))) (moves (fixSeparators (p.map (narrow underscore))))

/-- The directories that the handlers start from are the same one as far as the path goes. -/
structure Leads (h : Host) (p : Wide) : Prop where
  exe : h.fromExe (p.map (narrow question)) = h.fromCwd p
  ansi : ∀ a, widen a = p → h.fromExe a = h.fromCwd p
  dir : h.fromDir p = h.fromCwd p

-- ---------------------------------------------------------------------------
-- Characters
-- ---------------------------------------------------------------------------

theorem narrow_eq_iff (hk : k < 128) (hm : mark ≠ k) :
    narrow mark c = k ↔ c = k.setWidth 16 := by
  unfold narrow
  split
  · bv_omega
  · simp only [hm, false_iff]
    bv_omega

theorem narrow_widen (c : Byte) : narrow mark (c.setWidth 16) = if c < 128 then c else mark := by
  have hback : (c.setWidth 16).setWidth 8 = c := by
    simp
  have hlt : c.setWidth 16 < 128 ↔ c < 128 := by
    bv_omega
  simp only [narrow, hback, hlt]

theorem widen_inj (h : widen a = widen b) : a = b := by
  have hback := congrArg (List.map (·.setWidth 8)) h
  simpa [widen, Function.comp_def] using hback

theorem typed_eq (s : Name) : typed s = (widen s).map (narrow underscore) := by
  simp only [typed, widen, List.map_map]
  refine List.map_congr_left fun c _ => ?_
  rw [Function.comp_apply, narrow_widen]

/-- The change leaves alone what the mapping looks at. -/
structure Keeps (f : Byte → Byte) : Prop where
  letter : ∀ c, isLetter (f c) = isLetter c
  colon : ∀ c, f c = colon ↔ c = colon
  sep : ∀ c, isSep (f c) = isSep c
  question : ∀ c, f c = question ↔ c = question

theorem keeps_typed : Keeps fun c => if c < 128 then c else underscore := by
  constructor <;> intro c <;> by_cases hc : c < 128 <;> simp only [hc, if_true, if_false]
  · have hletter : isLetter underscore = false := by decide
    rw [hletter]
    symm
    simp only [isLetter, decide_eq_false_iff_not]
    bv_omega
  · have hmark : underscore ≠ colon := by decide
    simp only [hmark, false_iff]
    rintro rfl
    exact hc (by decide)
  · have hsep : isSep underscore = false := by decide
    rw [hsep]
    symm
    simp only [isSep, decide_eq_false_iff_not]
    rintro (rfl | rfl) <;> exact hc (by decide)
  · have hmark : underscore ≠ question := by decide
    simp only [hmark, false_iff]
    rintro rfl
    exact hc (by decide)

theorem keeps_backslashes : Keeps fun c => if c = slash then backslash else c := by
  constructor <;> intro c <;> by_cases hc : c = slash <;> simp only [hc, if_true, if_false] <;>
    decide

theorem Keeps.comp (hf : Keeps f) (hg : Keeps g) : Keeps (f ∘ g) where
  letter c := (hf.letter (g c)).trans (hg.letter c)
  colon c := (hf.colon (g c)).trans (hg.colon c)
  sep c := (hf.sep (g c)).trans (hg.sep c)
  question c := (hf.question (g c)).trans (hg.question c)

section

variable {f : Byte → Byte} (hf : Keeps f)
include hf

theorem Keeps.driveAt (s : Name) : driveAt (s.map f) = driveAt s := by
  match s with
  | [] | [_] | [_, _] => rfl
  | a :: b :: c :: s =>
    simp only [List.map_cons, Files.driveAt, hf.letter, hf.colon, hf.sep]

theorem Keeps.lastDrive (s : Name) : lastDrive (s.map f) = (lastDrive s).map (List.map f) := by
  induction s with
  | nil => rfl
  | cons c s ih =>
    have hat := hf.driveAt (c :: s)
    rw [List.map_cons] at hat ⊢
    rw [Files.lastDrive, Files.lastDrive, ih, hat]
    cases Files.lastDrive s with
    | some t => rfl
    | none => cases Files.driveAt (c :: s) <;> rfl

theorem Keeps.longPrefix (s : Name) : longPrefix (s.map f) = longPrefix s := by
  match s with
  | [] | [_] | [_, _] | [_, _, _] => rfl
  | a :: b :: c :: d :: s =>
    simp only [List.map_cons, Relative.longPrefix, hf.question, hf.sep]

theorem Keeps.isAbs (s : Name) : isAbs (s.map f) = isAbs s := by
  match s with
  | [] => rfl
  | [a] => simp only [List.map_cons, List.map_nil, Files.isAbs, hf.sep]
  | a :: b :: s => simp only [List.map_cons, Files.isAbs, hf.sep, hf.colon]

theorem Keeps.skipDrive (s : Name) : skipDrive (s.map f) = (skipDrive s).map f := by
  match s with
  | [] | [_] => rfl
  | a :: b :: s =>
    simp only [List.map_cons, Files.skipDrive, hf.colon]
    split <;> rfl

theorem Keeps.plain (hs : Plain s) : Plain (s.map f) where
  long := (hf.longPrefix s).trans hs.long
  drive := by rw [← List.map_tail, hf.lastDrive, hs.drive, Option.map_none]

end

-- ---------------------------------------------------------------------------
-- Joins
-- ---------------------------------------------------------------------------

theorem driveAt_none (h : colon ∉ s) : driveAt s = false := by
  match s with
  | [] | [_] | [_, _] => rfl
  | a :: b :: c :: s =>
    have hb : b ≠ colon := fun hb => h (hb ▸ .tail a (.head _))
    simp [driveAt, hb]

theorem lastDrive_none (h : colon ∉ s) : lastDrive s = none := by
  induction s with
  | nil => rfl
  | cons c s ih =>
    have hs : colon ∉ s := fun hc => h (.tail c hc)
    rw [lastDrive, ih hs, driveAt_none h]
    rfl

theorem driveAt_join (x : Name) (c : Byte) :
    driveAt (c :: x ++ backslash :: a) = driveAt (c :: x ++ [backslash]) := by
  match x with
  | [] =>
    have hb : decide (backslash = colon) = false := by decide
    cases a <;> simp [driveAt, hb]
  | [b] => rfl
  | b :: d :: x => rfl

theorem lastDrive_join (ha : colon ∉ a) (x : Name) :
    lastDrive (x ++ backslash :: a) = none ↔ lastDrive (x ++ [backslash]) = none := by
  induction x with
  | nil =>
    have hb : colon ≠ backslash := by decide
    have hjoin : colon ∉ backslash :: a := by
      simp [hb, ha]
    have hself : colon ∉ [backslash] := by
      simp [hb]
    simp only [List.nil_append, lastDrive_none hjoin, lastDrive_none hself]
  | cons c x ih =>
    have hat := driveAt_join (a := a) x c
    simp only [List.cons_append] at hat ⊢
    rw [lastDrive, lastDrive, hat]
    cases hl : lastDrive (x ++ backslash :: a) with
    | some t =>
      cases hr : lastDrive (x ++ [backslash]) with
      | some u => simp
      | none => cases hl.symm.trans (ih.2 hr)
    | none =>
      rw [ih.1 hl]
      cases driveAt (c :: (x ++ [backslash])) <;> simp

theorem tail_join (ha : colon ∉ a) (x : Name) :
    lastDrive (x ++ backslash :: a).tail = none ↔ lastDrive (x ++ [backslash]).tail = none := by
  cases x with
  | nil =>
    have hnil : lastDrive [] = none := rfl
    simp [lastDrive_none ha, hnil]
  | cons c x => exact lastDrive_join ha x

theorem longPrefix_letter (hc : isSep c = false) : longPrefix (c :: s) = false := by
  match s with
  | [] | [_] | [_, _] => rfl
  | _ :: _ :: _ :: _ => simp [longPrefix, hc]

theorem longPrefix_join (ha : question ∉ a) (x : Name) :
    longPrefix (x ++ backslash :: a) = longPrefix (x ++ [backslash]) := by
  match x with
  | [] =>
    match a, ha with
    | [], _ | [_], _ | [_, _], _ => rfl
    | b :: c :: d :: a, ha =>
      have hc : c ≠ question := fun hc => ha (hc ▸ .tail b (.head _))
      simp [longPrefix, hc]
  | [x] =>
    match a, ha with
    | [], _ | [_], _ => rfl
    | b :: c :: a, ha =>
      have hb : b ≠ question := fun hb => ha (hb ▸ .head _)
      simp [longPrefix, hb]
  | [x, y] =>
    have hb : backslash ≠ question := by decide
    cases a <;> simp [longPrefix, hb]
  | [x, y, z] => rfl
  | x :: y :: z :: w :: _ => rfl

theorem Plain.join (h : Plain (x ++ [backslash])) (hc : colon ∉ a) (hq : question ∉ a) :
    Plain (x ++ backslash :: a) where
  long := (longPrefix_join hq x).trans h.long
  drive := (tail_join hc x).2 h.drive

theorem Plain.restart (h : Plain s) : restart (stripLong s) = s := by
  have hstrip : stripLong s = s := by
    match s, h.long with
    | [], _ | [_], _ | [_, _], _ | [_, _, _], _ => rfl
    | a :: b :: c :: d :: s, hlong =>
      refine if_neg ?_
      rintro ⟨ha, hb, hc, hd⟩
      simp [longPrefix, ha, hb, hc, hd, question] at hlong
  rw [hstrip, Files.restart, h.drive, Option.getD_none]

-- ---------------------------------------------------------------------------
-- Ways
-- ---------------------------------------------------------------------------

theorem fix_back : fixSeparators (x ++ backslash :: a) = fixSeparators x ++ slash :: fixSeparators a := by
  simp only [fixSeparators, List.map_append, List.map_cons]
  rfl

theorem fix_backslashes (s : Name) : fixSeparators (backslashes s) = fixSeparators s := by
  simp only [fixSeparators, backslashes, List.map_map]
  refine List.map_congr_left fun c _ => ?_
  rw [Function.comp_apply]
  split
  · rename_i hc
    rw [hc]
    decide
  · rfl

/-- Separators at the start lead nowhere. -/
theorem go_dropWhile (place : List Name) (s : Name) :
    go place (moves (fixSeparators (s.dropWhile isSep))) = go place (moves (fixSeparators s)) := by
  induction s with
  | nil => rfl
  | cons c s ih =>
    rw [List.dropWhile_cons]
    split
    · rename_i hc
      have hslash : fixSeparators (c :: s) = [] ++ slash :: fixSeparators s := by
        have hfix : (if c = backslash then slash else c) = slash := by
          obtain rfl | rfl := of_decide_eq_true hc <;> decide
        simp only [fixSeparators, List.map_cons, hfix, List.nil_append]
      rw [ih, hslash, moves_join, moves_nil]
      rfl
    · rfl

theorem skipDrive_join (hx : x ≠ []) (a : Name) :
    skipDrive (x ++ backslash :: a) = skipDrive x ++ backslash :: a := by
  match x, hx with
  | [b], _ =>
    have hb : backslash ≠ colon := by decide
    simp [skipDrive, hb]
  | b :: c :: x, _ =>
    simp only [List.cons_append, skipDrive]
    split <;> rfl

theorem way_join (hx : x ≠ []) (a : Name) :
    way (x ++ backslash :: a) = way x ++ moves (fixSeparators a) := by
  rw [way, skipDrive_join hx, fix_back, moves_join]
  rfl

theorem go_way_join (hx : x ≠ []) (place : List Name) (a : Name) :
    go place (way (x ++ backslash :: a)) = go (go place (way x)) (moves (fixSeparators a)) := by
  rw [way_join hx, go_append]

/-- A separator at the end leads nowhere. -/
theorem go_way_root (hx : x ≠ []) (place : List Name) :
    go place (way (x ++ [backslash])) = go place (way x) := by
  rw [go_way_join hx, show fixSeparators [] = [] from rfl, moves_nil]
  rfl

-- ---------------------------------------------------------------------------
-- Mapped paths
-- ---------------------------------------------------------------------------

/-- The path, behind the tracked directory unless it is absolute. -/
def joined (cwd s : Name) : Name := if !isAbs s ∧ cwd ≠ [] then cwd ++ backslash :: s else s

theorem length_skipDrive (s : Name) : (skipDrive s).length ≤ s.length := by
  match s with
  | [] | [_] => exact Nat.le_refl _
  | a :: b :: s =>
    rw [skipDrive]
    split
    · simp only [List.length_cons]
      omega
    · exact Nat.le_refl _

theorem place_go (exePath driveC s : Name) :
    place exePath driveC (some (s.dropWhile isSep)) =
      go (resolve (fixSeparators driveC)) (moves (fixSeparators s)) := by
  rw [← go_dropWhile, go_eq]
  rfl

/-- A path that fits leads where its moves do. -/
theorem file_of (hs : Plain s) (hlen : driveC.length + (joined cwd s).length ≤ 1022) :
    resolve (mapPath exePath driveC cwd s) =
      if isExe s then resolve exePath
      else go (resolve (fixSeparators driveC)) (way (joined cwd s)) := by
  have hd : driveC.length ≤ 1023 := by
    omega
  rw [resolve_mapPath hd]
  unfold target
  simp only [hs.restart]
  split
  · rfl
  · have hcut : (if !isAbs s ∧ cwd ≠ [] then cut (cwd ++ backslash :: s) else s) = joined cwd s := by
      unfold joined at hlen ⊢
      split
      · rename_i h
        rw [if_pos h] at hlen
        exact List.take_of_length_le (by omega)
      · rfl
    have hkept : kept driveC ((skipDrive (joined cwd s)).dropWhile isSep) =
        (skipDrive (joined cwd s)).dropWhile isSep := by
      have hle := (List.length_dropWhile_le isSep _).trans (length_skipDrive (joined cwd s))
      exact List.take_of_length_le (by omega)
    rw [hcut, Option.map_some, hkept, place_go]
    rfl

-- ---------------------------------------------------------------------------
-- The path itself
-- ---------------------------------------------------------------------------

theorem skipDrive_self (h : colon ∉ s) : skipDrive s = s := by
  match s with
  | [] | [_] => rfl
  | a :: b :: s =>
    have hb : b ≠ colon := fun hb => h (hb ▸ .tail a (.head _))
    exact if_neg hb

theorem way_self (h : colon ∉ s) : way s = moves (fixSeparators s) := by
  rw [way, skipDrive_self h]

theorem isExe_colon (h : isExe s = true) : colon ∈ s := by
  have hlower : colon ∈ lower s := by
    obtain heq | heq := of_decide_eq_true h <;> rw [heq] <;> decide
  obtain ⟨c, hc, hlow⟩ := List.mem_map.1 hlower
  have hself : c = colon := by
    revert hlow
    unfold lowerByte colon
    split
    · bv_omega
    · exact fun hlow => hlow
  exact hself ▸ hc

theorem isExe_none (h : colon ∉ s) : isExe s = false :=
  Bool.eq_false_iff.2 fun hexe => h (isExe_colon hexe)

theorem Variant.mem (h : Variant p q) (hk : k ∈ q) : k ∈ p ∨ k = 0x2F := by
  induction h with
  | nil => exact .inl hk
  | cons hab _ ih =>
    cases hk with
    | head =>
      obtain rfl | ⟨-, rfl⟩ := hab
      · exact .inl (.head _)
      · exact .inr rfl
    | tail _ hk => exact (ih hk).imp_left (.tail _)

section

variable {p q : Wide} (hp : IsRelative p)
include hp

theorem IsRelative.no_colon (hm : mark ≠ Files.colon) : Files.colon ∉ p.map (narrow mark) := by
  intro h
  obtain ⟨c, hc, heq⟩ := List.mem_map.1 h
  obtain rfl := (narrow_eq_iff (by decide) hm).1 heq
  exact hp.colon hc

theorem IsRelative.no_question : Relative.question ∉ p.map (narrow underscore) := by
  intro h
  obtain ⟨c, hc, heq⟩ := List.mem_map.1 h
  obtain rfl := (narrow_eq_iff (by decide) (by decide)).1 heq
  exact hp.question hc

theorem IsRelative.no_sep : ∀ c ∈ (p.map (narrow underscore)).head?, isSep c = false := by
  intro c hc
  rw [List.head?_map, Option.mem_def, Option.map_eq_some_iff] at hc
  obtain ⟨w, hw, rfl⟩ := hc
  obtain ⟨hslash, hback⟩ := hp.first w hw
  refine decide_eq_false ?_
  rintro (heq | heq)
  · exact hback ((narrow_eq_iff (by decide) (by decide)).1 heq)
  · exact hslash ((narrow_eq_iff (by decide) (by decide)).1 heq)

theorem IsRelative.plain : Plain (p.map (narrow underscore)) where
  long := by
    have hsep := hp.no_sep
    match p.map (narrow underscore), hsep with
    | [], _ => rfl
    | a :: _, hsep => exact longPrefix_letter (hsep a rfl)
  drive := lastDrive_none fun h => hp.no_colon (by decide) (List.mem_of_mem_tail h)

theorem IsRelative.not_abs : isAbs (p.map (narrow underscore)) = false := by
  have hsep := hp.no_sep
  have hcolon : Files.colon ∉ p.map (narrow underscore) := hp.no_colon (by decide)
  match p.map (narrow underscore), hsep, hcolon with
  | [], _, _ => rfl
  | [a], hsep, _ => exact hsep a rfl
  | a :: b :: _, hsep, hcolon =>
    have hb : b ≠ Files.colon := fun hb => hcolon (hb ▸ .tail a (.head _))
    simp [isAbs, hb, hsep a rfl]

theorem IsRelative.variant (h : Variant p q) : IsRelative q := by
  have hmem : ∀ {k}, k ∉ p → k ≠ 0x2F → k ∉ q := by
    intro k hk hslash hq
    exact (h.mem hq).elim hk hslash
  refine ⟨?_, hmem hp.colon (by decide), hmem hp.question (by decide)⟩
  cases h with
  | nil => rintro c ⟨⟩
  | @cons a b p q hab _ =>
    rintro c ⟨rfl⟩
    obtain ⟨hslash, hback⟩ := hp.first a rfl
    obtain rfl | ⟨rfl, -⟩ := hab
    · exact ⟨hslash, hback⟩
    · cases hback rfl

end

theorem Variant.fix (h : Variant p q) :
    fixSeparators (q.map (narrow underscore)) = fixSeparators (p.map (narrow underscore)) := by
  induction h with
  | nil => rfl
  | cons hab _ ih =>
    simp only [fixSeparators, List.map_cons] at ih ⊢
    rw [ih]
    congr 1
    obtain rfl | ⟨rfl, rfl⟩ := hab
    · rfl
    · decide

theorem length_rooted (d : Name) : d.length ≤ (rooted d).length := by
  rw [rooted]
  split
  · simp
  · exact Nat.le_refl _

theorem joined_abs (h : isAbs s = true) : joined cwd s = s :=
  if_neg fun hn => by simp [h] at hn

theorem way_joined (h : isAbs s = false) (place : List Name) (cwd : Name) :
    go place (way (joined cwd s)) = go (go place (way cwd)) (way s) := by
  have hskip : skipDrive s = s := by
    match s, h with
    | [], _ | [_], _ => rfl
    | a :: b :: s, h =>
      have hb : b ≠ colon := fun hb => by simp [isAbs, hb] at h
      exact if_neg hb
  cases cwd with
  | nil =>
    have hnil : way [] = [.stay] := moves_nil
    simp [joined, hnil, go]
  | cons c cwd =>
    have hjoin : joined (c :: cwd) s = c :: cwd ++ backslash :: s := if_pos ⟨by simp [h], by simp⟩
    rw [hjoin, go_way_join (List.cons_ne_nil c cwd), way.eq_def s, hskip]

theorem length_joined (cwd s : Name) : (joined cwd s).length ≤ cwd.length + s.length + 1 := by
  unfold joined
  split
  · simp only [List.length_append, List.length_cons]
    omega
  · omega

theorem Fits.cwd (hfit : Fits h p) : h.cwd.length + p.length ≤ 258 := by
  have hdir := hfit.dir
  by_cases hcwd : h.cwd = []
  · simp only [hcwd, List.length_nil]
    omega
  · rw [currentDirectory, if_neg hcwd] at hdir
    have hle := length_rooted h.cwd
    omega

theorem file_self (h : Host) (hp : IsRelative p) (hfit : Fits h p) : h.file p = h.fromCwd p := by
  have hcwd := hfit.cwd
  have hdrive := hfit.driveC
  have htake : p.take 259 = p := List.take_of_length_le (by omega)
  have hlen := length_joined h.cwd (p.map (narrow underscore))
  rw [List.length_map] at hlen
  have hno : colon ∉ p.map (narrow underscore) := hp.no_colon (by decide)
  rw [Host.file, Host.opened, htake, file_of hp.plain (by omega), isExe_none hno,
    if_neg Bool.false_ne_true, way_joined hp.not_abs,
    way_self hno]
  rfl

theorem file_variant (h : Host) (hp : IsRelative p) (hfit : Fits h p) (hq : Variant p q) :
    h.file q = h.file p := by
  have hlen : q.length = p.length := hq.length_eq.symm
  have hfit' : Fits h q := ⟨hfit.driveC, hlen ▸ hfit.exe, hlen ▸ hfit.dir⟩
  rw [file_self h (hp.variant hq) hfit', file_self h hp hfit, Host.fromCwd, hq.fix]
  rfl

-- ---------------------------------------------------------------------------
-- Below the executable's directory
-- ---------------------------------------------------------------------------

theorem dirOf_drive (s : Name) :
    ∃ rest, dirOf (0x43 :: colon :: backslash :: s) = 0x43 :: colon :: rest := by
  have hself : strrchr [0x43, colon, backslash] backslash = some 2 := by decide
  have happ := strrchr_append (a := [0x43, colon, backslash]) (b := s) (c := backslash)
  simp only [List.cons_append, List.nil_append] at happ
  rw [dirOf, happ, hself]
  cases strrchr s backslash with
  | none => exact ⟨[], rfl⟩
  | some i => exact ⟨(backslash :: s).take (i + 1), rfl⟩

theorem windowsPath_drive (rel : Name) :
    ∃ s, windowsPath rel = 0x43 :: colon :: backslash :: s :=
  ⟨backslashes ((rel.dropWhile (· = slash)).take 1020), rfl⟩

theorem exeWinPath_drive (exePath driveC : Name) (found : Option Name) :
    ∃ s, exeWinPath exePath driveC found = 0x43 :: colon :: backslash :: s := by
  have hpicked : ∃ s, name "C:\\a.exe" = 0x43 :: colon :: backslash :: s := ⟨name "a.exe", by decide⟩
  unfold exeWinPath
  split
  · exact windowsPath_drive _
  · split
    · split
      · exact windowsPath_drive _
      · exact hpicked
    · exact hpicked

theorem dirOf_exe (h : Host) : ∃ rest, dirOf h.win = 0x43 :: colon :: rest := by
  obtain ⟨s, hs⟩ := exeWinPath_drive h.exePath h.driveC h.found
  rw [Host.win, hs]
  exact dirOf_drive s

theorem rooted_cases (d : Name) : rooted d = d ∨ rooted d = d ++ [backslash] := by
  rw [rooted]
  split
  · exact .inr rfl
  · exact .inl rfl

theorem typed_join (x a : Name) : typed (x ++ backslash :: a) = typed x ++ backslash :: typed a := by
  simp only [typed, List.map_append, List.map_cons]
  rfl

theorem typed_backslashes (s : Name) : typed (backslashes s) = backslashes (typed s) := by
  simp only [typed, backslashes, List.map_map]
  refine List.map_congr_left fun c _ => ?_
  simp only [Function.comp_apply]
  by_cases hc : c = slash
  · rw [hc]
    decide
  · have htyped : (if c < 128 then c else underscore) ≠ slash := by
      split
      · exact hc
      · decide
    rw [if_neg hc, if_neg htyped]

theorem way_backslashes (s : Name) : way (backslashes s) = way s := by
  rw [way, way, backslashes, keeps_backslashes.skipDrive]
  exact congrArg moves (fix_backslashes (skipDrive s))

/-- The executable's directory, a backslash unless it is there, and the path. -/
theorem fullPath_join (hdir : dirOf win = 0x43 :: colon :: rest) (ha : colon ∉ a)
    (hlen : (rooted (dirOf win)).length + a.length ≤ 258) :
    ∃ d, fullPath win a = backslashes (0x43 :: colon :: d ++ backslash :: a) ∧
      (0x43 :: colon :: d = dirOf win ∨ 0x43 :: colon :: d ++ [backslash] = dirOf win) := by
  have hsecond : a[1]? ≠ some colon := fun h => ha (List.mem_of_getElem? h)
  unfold fullPath
  rw [if_neg hsecond]
  dsimp only
  obtain heq | heq := rooted_cases (dirOf win)
  · by_cases hlast : (dirOf win).getLast? = some backslash
    · obtain ⟨d, hd⟩ := List.getLast?_eq_some_iff.1 hlast
      rw [hdir] at hd
      match d, hd with
      | [], hd => simp at hd
      | [_], hd => simp [colon, backslash] at hd
      | x :: y :: d, hd =>
        simp only [List.cons_append, List.cons.injEq] at hd
        obtain ⟨rfl, rfl, rfl⟩ := hd
        refine ⟨d, ?_, .inr hdir.symm⟩
        rw [heq, if_pos hlast, List.take_of_length_le, hdir]
        · simp
        · rw [heq] at hlen
          simp only [List.length_append, List.length_nil]
          omega
    · refine ⟨rest, ?_, .inl hdir.symm⟩
      rw [heq, if_neg hlast, List.take_of_length_le, hdir]
      · simp
      · rw [heq] at hlen
        simp only [List.length_append, List.length_singleton]
        omega
  · have hlast : (rooted (dirOf win)).getLast? = some backslash := by
      rw [heq]
      simp
    refine ⟨rest, ?_, .inl hdir.symm⟩
    rw [if_pos hlast, List.take_of_length_le, heq, hdir]
    · simp
    · simp only [List.length_append, List.length_nil]
      omega

/-- A path of the executable's directory leads from there. -/
theorem file_exe (h : Host) (hexe : Plain (dirOf h.win ++ [backslash]))
    (hdrive : h.driveC.length ≤ 500) (ha : colon ∉ a)
    (hlen : (rooted (dirOf h.win)).length + a.length ≤ 258) :
    h.file (widen (fullPath h.win a)) = h.fromExe a := by
  obtain ⟨rest, hdir⟩ := dirOf_exe h
  obtain ⟨d, hfull, hd⟩ := fullPath_join hdir ha hlen
  have hroot := length_rooted (dirOf h.win)
  have hback : colon ∉ [backslash] := by decide
  have hplain : Plain (0x43 :: colon :: d ++ backslash :: a) := by
    refine ⟨?_, (tail_join ha (0x43 :: colon :: d)).2 ?_⟩
    · exact longPrefix_letter (by decide)
    · obtain hd | hd := hd
      · rw [hd]
        exact hexe.drive
      · rw [← hd, List.append_assoc] at hexe
        exact (tail_join hback (0x43 :: colon :: d)).1 hexe.drive
  have hcount : (fullPath h.win a).length ≤ 259 := by
    have hle : (0x43 :: colon :: d).length ≤ (dirOf h.win).length := by
      obtain hd | hd := hd
      · rw [hd]
      · rw [← hd, List.length_append]
        exact Nat.le_add_right ..
    rw [hfull, backslashes, List.length_map, List.length_append]
    have hcons : (backslash :: a).length = a.length + 1 := rfl
    omega
  have htyped : Plain (typed (fullPath h.win a)) := by
    rw [hfull]
    exact keeps_typed.plain (keeps_backslashes.plain hplain)
  have habs : isAbs (typed (fullPath h.win a)) = true := by
    rw [hfull, typed, backslashes, keeps_typed.isAbs, keeps_backslashes.isAbs]
    simp [isAbs]
  have hwide : (widen (fullPath h.win a)).take 259 = widen (fullPath h.win a) :=
    List.take_of_length_le (by simpa [widen] using hcount)
  have hsize : h.driveC.length + (joined h.cwd (typed (fullPath h.win a))).length ≤ 1022 := by
    rw [joined_abs habs, typed, List.length_map]
    omega
  have hstart : go h.base (way (typed (0x43 :: colon :: d))) =
      go h.base (way (typed (dirOf h.win))) := by
    obtain hd | hd := hd
    · rw [hd]
    · have hends : typed (0x43 :: colon :: d ++ [backslash]) =
          typed (0x43 :: colon :: d) ++ [backslash] := typed_join (0x43 :: colon :: d) []
      rw [← hd, hends, go_way_root (by simp [typed])]
  rw [Host.file, Host.opened, hwide, ← typed_eq, file_of htyped hsize, joined_abs habs, Host.fromExe]
  split
  · rfl
  · rw [← hstart, hfull, typed_backslashes, way_backslashes, typed_join, go_way_join (by simp [typed])]
    rfl

-- ---------------------------------------------------------------------------
-- Below the current directory
-- ---------------------------------------------------------------------------

/-- The only separator of the picked executable's path is its third character. -/
theorem isExe_join (h : isExe (x ++ backslash :: a) = true) : x.length = 2 := by
  have hat : ∀ t : Name, lower (x ++ backslash :: a) = t → t[x.length]? = some backslash := by
    rintro t rfl
    have hlow : lowerByte backslash = backslash := by decide
    rw [lower, List.getElem?_map, List.getElem?_append_right (Nat.le_refl _), Nat.sub_self]
    simp [hlow]
  have hlt : x.length < 8 := by
    obtain heq | heq := of_decide_eq_true h <;>
    · have hlen := congrArg List.length heq
      simp only [lower, List.length_map, List.length_append, List.length_cons] at hlen
      have hname : (name "C:\\a.exe").length = 8 ∧ (name "C:/a.exe").length = 8 := by decide
      omega
  have hback : ∀ i < 8, (lower (name "C:\\a.exe"))[i]? = some backslash → i = 2 := by decide
  have hslash : ∀ i < 8, (lower (name "C:/a.exe"))[i]? ≠ some backslash := by decide
  obtain heq | heq := of_decide_eq_true h
  · exact hback _ hlt (hat _ heq)
  · exact absurd (hat _ heq) (hslash _ hlt)

theorem isExe_second (h : isExe (b :: c :: s) = true) : c = colon := by
  have hlow : lowerByte c = colon := by
    have hnames : (lower (name "C:\\a.exe"))[1]? = some colon ∧
        (lower (name "C:/a.exe"))[1]? = some colon := by decide
    obtain heq | heq := of_decide_eq_true h
    · rw [← heq] at hnames
      exact Option.some.inj hnames.1
    · rw [← heq] at hnames
      exact Option.some.inj hnames.2
  revert hlow
  unfold lowerByte colon
  split
  · bv_omega
  · exact fun hlow => hlow

/-- What `GetCurrentDirectory` answers with is no bare drive. -/
theorem isExe_rooted (d a : Name) : isExe (typed (rooted d) ++ backslash :: a) = false := by
  refine Bool.eq_false_iff.2 fun h => ?_
  have hlen := isExe_join h
  rw [typed, List.length_map] at hlen
  obtain ⟨b, c, hbc⟩ := List.length_eq_two.1 hlen
  rw [hbc] at h
  have hcolon := (keeps_typed.colon c).1 (isExe_second h)
  have hroot : rooted d = d := by
    obtain heq | heq := rooted_cases d
    · exact heq
    · rw [heq] at hbc
      have hlast := congrArg List.getLast? hbc
      simp only [List.getLast?_concat, hcolon] at hlast
      cases hlast
  rw [hroot] at hbc
  refine absurd hroot ?_
  rw [rooted, if_pos ⟨by rw [hbc]; exact Nat.le_refl 2, by rw [hbc, hcolon]; rfl⟩]
  simp

theorem isAbs_join (hx : x ≠ []) (a : Name) : isAbs (x ++ backslash :: a) = isAbs x := by
  match x, hx with
  | [b], _ =>
    have hb : backslash ≠ colon := by decide
    simp [isAbs, hb]
  | b :: c :: x, _ => rfl

theorem Host.dir_ne (h : Host) : h.dir ≠ [] := by
  unfold Host.dir
  split
  · obtain ⟨rest, hrest⟩ := dirOf_exe h
    rw [hrest]
    exact List.cons_ne_nil 0x43 (colon :: rest)
  · assumption

theorem rooted_plain (h : Plain (d ++ [backslash])) : Plain (rooted d ++ [backslash]) := by
  obtain heq | heq := rooted_cases d
  · rw [heq]
    exact h
  · rw [heq, List.append_assoc]
    exact h.join (by decide) (by decide)

theorem go_rooted (hd : d ≠ []) (place : List Name) :
    go place (way (typed (rooted d))) = go place (way (typed d)) := by
  obtain heq | heq := rooted_cases d
  · rw [heq]
  · have hends : typed (d ++ [backslash]) = typed d ++ [backslash] := typed_join d []
    rw [heq, hends, go_way_root (by simpa [typed] using hd)]

/-- A path behind what `GetCurrentDirectory` answers with leads from there. -/
theorem file_dir (h : Host) (hdir : Plain (h.dir ++ [backslash])) (hp : IsRelative p)
    (hfit : Fits h p) :
    h.file (widen (currentDirectory h.win h.cwd) ++ 0x5C :: p) = h.fromDir p := by
  have hcwd := hfit.cwd
  have hdrive := hfit.driveC
  have hlen := hfit.dir
  have hcur : currentDirectory h.win h.cwd = rooted h.dir := rfl
  rw [hcur] at hlen ⊢
  have hne : typed (rooted h.dir) ≠ [] := by
    have hle := length_rooted h.dir
    have hpos := List.length_pos_iff.2 h.dir_ne
    refine List.ne_nil_of_length_pos ?_
    rw [typed, List.length_map]
    omega
  have htake : (widen (rooted h.dir) ++ 0x5C :: p).take 259 = widen (rooted h.dir) ++ 0x5C :: p := by
    refine List.take_of_length_le ?_
    rw [List.length_append, widen, List.length_map, List.length_cons]
    omega
  have hread : (widen (rooted h.dir) ++ 0x5C :: p).map (narrow underscore) =
      typed (rooted h.dir) ++ backslash :: p.map (narrow underscore) := by
    rw [List.map_append, ← typed_eq, List.map_cons]
    rfl
  have hplain : Plain (typed (rooted h.dir) ++ backslash :: p.map (narrow underscore)) := by
    have hends : typed (rooted h.dir ++ [backslash]) = typed (rooted h.dir) ++ [backslash] :=
      typed_join (rooted h.dir) []
    have htyped := keeps_typed.plain (rooted_plain hdir)
    rw [← typed, hends] at htyped
    exact htyped.join (hp.no_colon (by decide)) hp.no_question
  have hsize := length_joined h.cwd (typed (rooted h.dir) ++ backslash :: p.map (narrow underscore))
  rw [List.length_append, typed, List.length_map, List.length_cons, List.length_map, ← typed] at hsize
  have habs : isAbs (typed (rooted h.dir) ++ backslash :: p.map (narrow underscore)) = isAbs h.dir := by
    rw [isAbs_join hne, typed, keeps_typed.isAbs]
    obtain heq | heq := rooted_cases h.dir
    · rw [heq]
    · rw [heq, isAbs_join h.dir_ne]
  rw [Host.file, Host.opened, htake, hread, file_of hplain (by omega), isExe_rooted,
    if_neg Bool.false_ne_true, Host.fromDir]
  cases hroot : isAbs h.dir with
  | true =>
    rw [hroot] at habs
    rw [joined_abs habs, go_way_join hne, go_rooted h.dir_ne, if_pos rfl]
    rfl
  | false =>
    rw [hroot] at habs
    rw [way_joined habs, go_way_join hne, go_rooted h.dir_ne, if_neg Bool.false_ne_true]
    rfl

-- ---------------------------------------------------------------------------
-- The law
-- ---------------------------------------------------------------------------

theorem answer_some {s : List α} (h : (answer room s).2 = some w) : w = s := by
  unfold answer at h
  dsimp only at h
  split at h
  · exact (Option.some.inj h).symm
  · cases h

theorem answer_large {s : List α} (h : s.length ≤ 519) : (answer 0xFFFFFFFF s).2 = some s := by
  refine if_pos ?_
  have htop : (0xFFFFFFFF : BitVec 32).toNat = 4294967295 := rfl
  omega

theorem length_fullPath (win a : Name) : (fullPath win a).length ≤ 519 := by
  simp only [fullPath, backslashes, List.length_map]
  exact List.length_take_le ..

/-- A relative path means the same to every call exactly when the directories that the calls
start from lead to the same one, for directories without a drive letter inside. -/
theorem relative_law (h : Host) (hp : IsRelative p) (hfit : Fits h p)
    (hexe : Plain (dirOf h.win ++ [backslash])) (hdir : Plain (h.dir ++ [backslash])) :
    SameFile h p ↔ Leads h p := by
  have hself := file_self h hp hfit
  have hshort : p.length ≤ 258 := (Nat.le_add_left ..).trans hfit.exe
  have hwide : fullPath h.win ((p.take 519).map (narrow question)) =
      fullPath h.win (p.map (narrow question)) := by
    rw [List.take_of_length_le (by omega)]
  have hnarrow : ∀ a : Name, widen a = p → a.take 519 = a ∧ a.length = p.length ∧ colon ∉ a := by
    rintro a rfl
    rw [widen, List.length_map] at hshort
    refine ⟨List.take_of_length_le (by omega), by rw [widen, List.length_map], fun hc => ?_⟩
    exact hp.colon (List.mem_map.2 ⟨colon, hc, by decide⟩)
  have hfull : h.file (widen (fullPath h.win (p.map (narrow question)))) =
      h.fromExe (p.map (narrow question)) :=
    file_exe h hexe hfit.driveC (hp.no_colon (by decide)) (by simpa using hfit.exe)
  have hansi : ∀ a : Name, widen a = p → h.file (widen (fullPath h.win a)) = h.fromExe a := by
    intro a ha
    obtain ⟨-, hlen, hc⟩ := hnarrow a ha
    exact file_exe h hexe hfit.driveC hc (hlen ▸ hfit.exe)
  have hfrom := file_dir h hdir hp hfit
  have hcur : (currentDirectory h.win h.cwd).length ≤ 519 := by
    have hle := hfit.dir
    omega
  constructor
  · intro hs
    refine ⟨?_, ?_, ?_⟩
    · rw [← hfull, ← hself]
      refine hs.full 0xFFFFFFFF _ ?_
      unfold getFullPathNameW
      rw [hwide]
      exact answer_large (by simpa [widen] using length_fullPath h.win _)
    · intro a ha
      obtain ⟨htake, -⟩ := hnarrow a ha
      rw [← hansi a ha, ← hself]
      refine hs.fullAnsi 0xFFFFFFFF a _ ha ?_
      unfold getFullPathNameA
      rw [htake]
      exact answer_large (length_fullPath h.win a)
    · rw [← hfrom, ← hself]
      exact hs.here 0xFFFFFFFF _ (answer_large (by simpa [widen] using hcur))
  · intro hl
    refine ⟨?_, ?_, ?_, ?_, fun q hq => file_variant h hp hfit hq⟩
    · intro room w hw
      unfold getFullPathNameW at hw
      rw [hwide] at hw
      rw [answer_some hw, hfull, hl.exe, hself]
    · intro room a s ha hs
      obtain ⟨htake, -⟩ := hnarrow a ha
      unfold getFullPathNameA at hs
      rw [htake] at hs
      rw [answer_some hs, hansi a ha, hl.ansi a ha, hself]
    · intro room d hd
      rw [answer_some hd, hfrom, hl.dir, hself]
    · intro room d hd
      rw [answer_some hd, hfrom, hl.dir, hself]

/-- A program of the bottle that works in its own directory. -/
def steam (set : SetDir) : Host where
  exePath := name "/docs/Bottle/drive_c/Steam/steam.exe"
  driveC := bottle
  found := none
  set

theorem relative_law_steam : SameFile (steam (.ansi (name "C:\\Steam"))) (widen (name "a\\b")) := by
  have hcwd : (steam (.ansi (name "C:\\Steam"))).fromCwd (widen (name "a\\b")) =
      [name "docs", name "Bottle", name "drive_c", name "Steam", name "a", name "b"] := by
    decide +kernel
  have hansi : ∀ a, widen a = widen (name "a\\b") → (steam (.ansi (name "C:\\Steam"))).fromExe a =
      [name "docs", name "Bottle", name "drive_c", name "Steam", name "a", name "b"] := by
    intro a ha
    obtain rfl := widen_inj ha
    decide +kernel
  have hleads : Leads (steam (.ansi (name "C:\\Steam"))) (widen (name "a\\b")) := by
    refine ⟨?_, fun a ha => (hansi a ha).trans hcwd.symm, ?_⟩ <;> rw [hcwd] <;> decide +kernel
  have hfirst : ∀ c ∈ (widen (name "a\\b")).head?, c ≠ 0x2F ∧ c ≠ 0x5C := by
    rintro c ⟨rfl⟩
    decide
  refine (relative_law (steam (.ansi (name "C:\\Steam"))) ⟨hfirst, ?_, ?_⟩ ⟨?_, ?_, ?_⟩ ⟨?_, ?_⟩
    ⟨?_, ?_⟩).2 hleads
  all_goals decide +kernel

/-- The full path of a file of the current directory is one of the executable's. -/
theorem full_path_elsewhere :
    ¬ SameFile (steam (.ansi (name "C:\\Temp"))) (widen (name "x")) := by
  intro h
  have hfull := h.full 0xFFFFFFFF (widen (name "C:\\Steam\\x")) (by decide +kernel)
  revert hfull
  decide +kernel

end WineGlass.Relative
