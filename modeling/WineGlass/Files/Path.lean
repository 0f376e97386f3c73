import WineGlass.Engine.Thunks
import WineGlass.Lib.Paths

/-!
# Mapping of guest paths

`wg_files_map_path` rewrites a guest path into a path of the host below `drive_c`. Every
buffer on the way is fixed: the handler's for the guest path, the one for the current
directory, the one for their join and the one for the result. Strings are C strings,
without the terminator.
-/

namespace WineGlass.Files

open Paths Thunks

def slash : Byte := 0x2F
def backslash : Byte := 0x5C
def colon : Byte := 0x3A

def isSep (c : Byte) : Bool := c = backslash ∨ c = slash

def isLetter (c : Byte) : Bool := 0x41 ≤ c ∧ c ≤ 0x5A ∨ 0x61 ≤ c ∧ c ≤ 0x7A

def fixSeparators (s : Name) : Name := s.map fun c => if c = backslash then slash else c

/-- The path without `\\?\` and `UNC\`. -/
def stripLong (src : Name) : Name :=
  match src with
  | a :: b :: c :: d :: rest =>
    if isSep a ∧ isSep b ∧ c = 0x3F ∧ isSep d then
      if lower (rest.take 4) = lower (name "UNC\\") ∨ lower (rest.take 4) = lower (name "UNC/") then
        rest.drop 4
      else rest
    else src
  | _ => src

def driveAt (src : Name) : Bool :=
  match src with
  | a :: b :: c :: _ => isLetter a && b = colon && isSep c
  | _ => false

/-- The last place where a drive letter starts a path. -/
def lastDrive : Name → Option Name
  | [] => none
  | c :: cs =>
    match lastDrive cs with
    | some s => some s
    | none => if driveAt (c :: cs) then some (c :: cs) else none

/-- A drive letter behind the first character starts the path anew. -/
def restart (src : Name) : Name := (lastDrive src.tail).getD src

def isExe (src : Name) : Bool :=
  lower src = lower (name "C:\\a.exe") ∨ lower src = lower (name "C:/a.exe")

def isAbs (src : Name) : Bool :=
  match src with
  | a :: b :: _ => b = colon ∨ isSep a
  | [a] => isSep a
  | [] => false

def skipDrive (src : Name) : Name :=
  match src with
  | _ :: c :: rest => if c = colon then rest else src
  | _ => src

/-- The path below `drive_c`, or `none` for the picked executable; `keep` is what the
buffer keeps of the join. -/
def target (keep : Name → Name) (cwd buf : Name) : Option Name :=
  let src := restart (stripLong buf)
  if isExe src then none
  else
    let src := if !isAbs src ∧ cwd ≠ [] then keep (cwd ++ backslash :: src) else src
    some ((skipDrive src).dropWhile isSep)

/-- `wg_files_map_path` with buffers that keep what `keep` says. -/
def mapWith (keep : Name → Name) (exePath driveC cwd buf : Name) : Name :=
  match target keep cwd buf with
  | none => exePath
  | some [] => fixSeparators (keep driveC)
  | some p => fixSeparators (keep (driveC ++ slash :: p))

/-- `snprintf` into a `char[1024]`. -/
def cut (s : Name) : Name := s.take 1023

def mapPath (exePath driveC cwd buf : Name) : Name := mapWith cut exePath driveC cwd buf

/-- `SetCurrentDirectory` reads 519 bytes, and `wg_files_set_cwd` keeps 1023. -/
def setCwd (dir : Name) : Name := (dir.take 519).take 1023

-- ---------------------------------------------------------------------------
-- Where a path leads
-- ---------------------------------------------------------------------------

def move (c : Name) : Move Name :=
  if c = [] ∨ c = [dot] then .stay else if c = [dot, dot] then .up else .down c

def moves (path : Name) : List (Move Name) := (path.splitOn slash).map move

/-- An absolute path of the host with its `.` and `..` resolved. -/
def resolve (path : Name) : List Name := go [] (moves path)

/-- The host path `host` for a guest path is the executable's or lies inside `drive_c`, and
leads where the path `full` leads that nothing is cut off. -/
structure Contained (exePath driveC host full : Name) : Prop where
  inside : resolve host = resolve exePath ∨ resolve driveC <+: resolve host
  whole : resolve host = resolve full

/-- How far a path below `drive_c` climbs with `..`, and the names it then goes down. -/
def climb (p : Name) : Nat := (normal (moves (fixSeparators p))).1

def descent (p : Name) : List Name := (normal (moves (fixSeparators p))).2

/-- How many names the climb leaves of `drive_c`. -/
def leaves (driveC p : Name) : Nat := (resolve (fixSeparators driveC)).length - climb p

/-- Where the path below `drive_c` leads. -/
def place (exePath driveC : Name) : Option Name → List Name
  | none => resolve exePath
  | some p => (resolve (fixSeparators driveC)).take (leaves driveC p) ++ descent p

/-- What the last buffer keeps of the path behind `drive_c`. -/
def kept (driveC p : Name) : Name := p.take (1022 - driveC.length)

/-- The names of `drive_c` that the climb leaves are its own, and those it takes are gone
down again. -/
structure Regains (driveC p : Name) : Prop where
  left : (resolve driveC).take (leaves driveC p) <+: resolve (fixSeparators driveC)
  again : (resolve driveC).drop (leaves driveC p) <+: descent p

/-- What is mapped regains `drive_c` after its climb, or it climbs and goes down to the
executable; and what is cut off leads nowhere else. -/
structure Safe (exePath driveC : Name) (host full : Option Name) : Prop where
  stays : ∀ p ∈ host, place exePath driveC (some p) = resolve exePath ∨ Regains driveC p
  harmless : place exePath driveC host = place exePath driveC full

theorem moves_join : moves (d ++ slash :: p) = moves d ++ moves p := by
  rw [moves, List.splitOn_append_cons_self, List.map_append]
  rfl

theorem fix_join : fixSeparators (d ++ slash :: p) = fixSeparators d ++ slash :: fixSeparators p := by
  simp only [fixSeparators, List.map_append, List.map_cons]
  rfl

theorem moves_nil : moves [] = [.stay] := by
  simp [moves, move]

theorem resolve_join : resolve (d ++ slash :: p) = apply (resolve d) (normal (moves p)) := by
  rw [resolve, moves_join, go_append, go_eq]
  rfl

theorem place_nil : place exePath driveC (some []) = resolve (fixSeparators driveC) := by
  have hnil : normal (moves (fixSeparators [])) = (0, []) := by
    rw [show fixSeparators [] = [] from rfl, moves_nil]
    rfl
  simp [place, leaves, climb, descent, hnil]

/-- Without cuts a path leads to its place. -/
theorem resolve_mapWith_id (exePath driveC cwd buf : Name) :
    resolve (mapWith id exePath driveC cwd buf) =
    place exePath driveC (target id cwd buf) := by
  unfold mapWith
  split
  · rename_i h
    rw [h]
    rfl
  · rename_i h
    rw [h, place_nil]
    rfl
  · rename_i p _ h
    rw [h, id, fix_join, resolve_join]
    rfl

theorem cut_join (hd : d.length ≤ 1023) :
    cut (d ++ slash :: p) = d ++ slash :: kept d p ∨ cut (d ++ slash :: p) = d ∧ kept d p = [] := by
  unfold cut kept
  obtain heq | hlt := Nat.eq_or_lt_of_le hd
  · right
    rw [List.take_append, heq]
    simp [List.take_of_length_le heq.le]
  · left
    rw [List.take_append, List.take_of_length_le hd]
    obtain ⟨k, hk⟩ : ∃ k, 1023 - d.length = k + 1 := ⟨1022 - d.length, by omega⟩
    rw [hk, List.take_succ_cons]
    congr 3
    omega

/-- With them it leads to the place of what is kept. -/
theorem resolve_mapPath (hd : driveC.length ≤ 1023) (exePath cwd buf : Name) :
    resolve (mapPath exePath driveC cwd buf) =
      place exePath driveC ((target cut cwd buf).map (kept driveC)) := by
  unfold mapPath mapWith
  split
  · rename_i h
    rw [h]
    rfl
  · rename_i h
    have hkept : kept driveC [] = [] := List.take_nil
    rw [h, Option.map_some, hkept, place_nil, cut, List.take_of_length_le hd]
  · rename_i p _ h
    rw [h, Option.map_some]
    obtain hcut | ⟨hcut, hkept⟩ := cut_join (p := p) hd <;> rw [hcut]
    · rw [fix_join, resolve_join]
      rfl
    · rw [hkept, place_nil]

-- ---------------------------------------------------------------------------
-- The law
-- ---------------------------------------------------------------------------

theorem regains_iff : resolve driveC <+: place exePath driveC (some p) ↔ Regains driveC p := by
  constructor
  · intro h
    obtain ⟨hleft, hagain⟩ := inside_iff.1 h
    exact ⟨hleft, hagain⟩
  · rintro ⟨hleft, hagain⟩
    exact inside_iff.2 ⟨hleft, hagain⟩

/-- A path that never climbs above a `drive_c` without backslashes stays below it. -/
theorem Regains.of_level (hd : fixSeparators driveC = driveC) (hp : climb p = 0) :
    Regains driveC p := by
  have hleaves : leaves driveC p = (resolve driveC).length := by
    rw [leaves, hd, hp, Nat.sub_zero]
  constructor
  · have hself : resolve driveC <+: resolve driveC := List.prefix_rfl
    simpa only [hleaves, List.take_length, hd] using hself
  · rw [hleaves, List.drop_length]
    exact List.nil_prefix

/-- The path a handler maps, from a buffer of `limit` bytes, is contained exactly when it
is safe. -/
theorem containment_law (hd : driveC.length ≤ 1023) (exePath dir guest : Name) (limit : Nat) :
    Contained exePath driveC (mapPath exePath driveC (setCwd dir) (guest.take limit))
        (mapWith id exePath driveC dir guest) ↔
      Safe exePath driveC ((target cut (setCwd dir) (guest.take limit)).map (kept driveC))
        (target id dir guest) := by
  have hhost := resolve_mapPath hd exePath (setCwd dir) (guest.take limit)
  have hfull := resolve_mapWith_id exePath driveC dir guest
  constructor
  · rintro ⟨hin, hwhole⟩
    rw [hhost] at hin hwhole
    rw [hfull] at hwhole
    refine ⟨fun p hp => ?_, hwhole⟩
    rw [Option.mem_def.1 hp] at hin
    exact hin.imp_right regains_iff.1
  · rintro ⟨hstays, hharm⟩
    refine ⟨?_, ?_⟩
    · rw [hhost]
      cases h : (target cut (setCwd dir) (guest.take limit)).map (kept driveC) with
      | none => exact .inl rfl
      | some p => exact (hstays p h).imp_right regains_iff.2
    · rw [hhost, hfull, hharm]

/-- A phone's bottle. -/
def bottle : Name := name "/docs/Bottle/drive_c"

def picked : Name := name "/docs/setup.exe"

theorem containment_law_relative :
    Contained picked bottle (mapPath picked bottle (setCwd (name "C:\\Temp")) ((name "a\\..\\b").take 259))
      (mapWith id picked bottle (name "C:\\Temp") (name "a\\..\\b")) := by
  refine (containment_law (by decide) picked (name "C:\\Temp") (name "a\\..\\b") 259).2 ⟨?_, ?_⟩
  · have htarget : (target cut (setCwd (name "C:\\Temp")) ((name "a\\..\\b").take 259)).map (kept bottle) =
        some (name "Temp\\a\\..\\b") := by decide +kernel
    rintro p hp
    obtain rfl := Option.some.inj (htarget.symm.trans hp)
    exact .inr (.of_level (by decide +kernel) (by decide +kernel))
  · decide +kernel

/-- Two components `..` lead out of the bottle. -/
theorem climbs_out : ¬ Contained picked bottle
    (mapPath picked bottle (setCwd []) ((name "C:\\..\\..\\secret").take 259))
    (mapWith id picked bottle [] (name "C:\\..\\..\\secret")) := by
  rintro ⟨hin, -⟩
  revert hin
  decide +kernel

end WineGlass.Files
