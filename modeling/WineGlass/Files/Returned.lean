import WineGlass.Files.Canon
import WineGlass.Files.Relative

/-!
# Calls that return a path

What the handlers write into the caller's buffer, and what they report when it is too small. A
handler that leaves one of its own arrays is `none` here, and so is a write with a negative size.
-/

namespace WineGlass.Returned

open Paths Thunks Files Relative Canon

abbrev U32 := BitVec 32

/-- The returned length, and the characters that are written. -/
structure Outcome (w : Nat) where
  ret : U32
  written : Option (List (BitVec w))
  deriving DecidableEq

/-- A handler, by the caller's buffer and its size in characters. -/
abbrev Call (w : Nat) := U32 → U32 → Option (Outcome w)

def kernel32 : Name := name "C:\\Windows\\System32\\kernel32.dll"

/-- The path of the module: of any other than the program's it is the same. -/
def modulePath (h : Host) (own : Bool) : Name := if own then h.win else kernel32

def getModuleFileNameA (h : Host) (own : Bool) : Call 8 := fun lpFilename nSize =>
  let path := modulePath h own
  if lpFilename ≠ 0 ∧ nSize ≠ 0 then
    if nSize.toInt < 0 then none
    else
      let len := min path.length (nSize.toNat - 1)
      some ⟨.ofNat 32 len, some ((path ++ [0]).take (len + 1))⟩
  else some ⟨.ofNat 32 path.length, none⟩

/-- `wbuf[520]` -/
def getModuleFileNameW (h : Host) (own : Bool) : Call 16 := fun lpFilename nSize =>
  let path := modulePath h own
  if lpFilename ≠ 0 ∧ nSize ≠ 0 then
    if nSize.toInt < 0 then none
    else
      let len := min path.length (nSize.toNat - 1)
      if 520 ≤ len then none else some ⟨.ofNat 32 len, some (widen (path.take len) ++ [0])⟩
  else some ⟨.ofNat 32 path.length, none⟩

/-- What is written when there is room for it, and its length. -/
def lengthOr (full : List (BitVec w)) : Call w := fun out size =>
  some ⟨.ofNat 32 full.length, if out ≠ 0 ∧ full.length < size.toNat then some (full ++ [0]) else none⟩

/-- The directory has a `char[520]`. -/
def getCurrentDirectoryA (h : Host) : Call 8 := fun lpBuffer nBufferLength =>
  let dir := currentDirectory h.win h.cwd
  if 520 ≤ dir.length then none else lengthOr dir lpBuffer nBufferLength

def getCurrentDirectoryW (h : Host) : Call 16 := fun lpBuffer nBufferLength =>
  let dir := currentDirectory h.win h.cwd
  if 520 ≤ dir.length then none else lengthOr (widen dir) lpBuffer nBufferLength

/-- The directory of the executable, for a path that is not below a drive, does not fit. -/
def overlong (h : Host) (a : Name) : Prop :=
  a[1]? ≠ some colon ∧ 520 ≤ (rooted (dirOf h.win)).length

instance (h : Host) (a : Name) : Decidable (overlong h a) := inferInstanceAs (Decidable (_ ∧ _))

def getFullPathNameA (h : Host) (lpFileName : Name) : Call 8 := fun lpBuffer nBufferLength =>
  let aname := lpFileName.take 519
  if overlong h aname then none else lengthOr (fullPath h.win aname) lpBuffer nBufferLength

def getFullPathNameW (h : Host) (lpFileName : Wide) : Call 16 := fun lpBuffer nBufferLength =>
  let aname := (lpFileName.take 519).map (narrow question)
  if overlong h aname then none else lengthOr (widen (fullPath h.win aname)) lpBuffer nBufferLength

/-- The size is that of the string with its zero. -/
def sizeOr (full : List (BitVec w)) : Call w := fun out size =>
  let n := full.length + 1
  some ⟨.ofNat 32 (if n ≤ size.toNat then n - 1 else n),
    if out ≠ 0 ∧ n ≤ size.toNat then some (full ++ [0]) else none⟩

def windows : Wide := widen (name "C:\\Windows")

def temp : Wide := widen (name "C:\\Temp\\")

def getWindowsDirectoryW : Call 16 := sizeOr windows

def getTempPathW : Call 16 := sizeOr temp

def argument (p : Wide) : Name := (p.take 519).map (narrow question)

/-- A null pointer is an empty path. -/
def combined (dir file : Name) : Name :=
  if file ≠ [] ∧ (file[1]? = some colon ∨ file.head? = some backslash) then file
  else if dir ≠ [] then
    dir ++ (if dir.getLast? = some backslash ∨ dir.getLast? = some slash then [] else [backslash]) ++
      file
  else file

/-- What is written to the destination, of a `uint16_t[520]`. -/
def deliver (dest : U32) (path : Name) : Option Wide :=
  if dest ≠ 0 then some (widen ((pathCanon (path.take 1039)).take 519) ++ [0]) else none

def pathCombineW (dest : U32) (dir file : Wide) : Option Wide :=
  deliver dest (combined (argument dir) (argument file))

def pathCanonicalizeW (dest : U32) (src : Wide) : Option Wide := deliver dest (argument src)

-- ---------------------------------------------------------------------------
-- The caller's buffer
-- ---------------------------------------------------------------------------

/-- A call to get `full` writes no more than the buffer has, a string with its zero, all of it when
there is room; and when there is not, the size that it reports is enough. -/
structure Respects (call : Call w) (full : List (BitVec w)) (out size : U32) : Prop where
  meets : ∃ r, call out size = some r ∧
    (∀ s ∈ r.written, s.length ≤ size.toNat ∧ s.getLast? = some 0) ∧
    (out ≠ 0 → full.length < size.toNat → r.written = some (full ++ [0])) ∧
    (size.toNat ≤ full.length → ∀ out', out' ≠ 0 →
      ∃ r', call out' r.ret = some r' ∧ r'.written = some (full ++ [0]))

/-- At most `MAX_PATH` characters, with a zero at the end. -/
def Limited (written : Option Wide) : Prop := ∀ s ∈ written, s.length ≤ 260 ∧ s.getLast? = some 0

-- ---------------------------------------------------------------------------
-- One handler
-- ---------------------------------------------------------------------------

variable {h : Host} {call : Call w} {full : List (BitVec w)} {out size : U32}

theorem toNat_length (hlt : n < 2 ^ 32) : (BitVec.ofNat 32 n).toNat = n := by
  simp only [BitVec.toNat_ofNat]
  exact Nat.mod_eq_of_lt hlt

theorem ended (full : List (BitVec w)) : (full ++ [0]).getLast? = some 0 := List.getLast?_concat ..

/-- A handler that reports the length without its zero. -/
theorem length_iff {P : Prop} [Decidable P] (hcall : ∀ out size, call out size =
      if P then none else lengthOr full out size) (hn : ¬ P → full.length < 2 ^ 32) :
    Respects call full out size ↔ ¬ P ∧ full.length < size.toNat := by
  constructor
  · rintro ⟨r, hr, -, -, hsmall⟩
    rw [hcall] at hr
    split at hr
    · cases hr
    · rename_i hfits
      refine ⟨hfits, Nat.lt_of_not_le fun hle => ?_⟩
      obtain ⟨r', hr', hw⟩ := hsmall hle 1 (by decide)
      cases hr
      rw [hcall, if_neg hfits] at hr'
      cases hr'
      simp only [toNat_length (hn hfits), Nat.lt_irrefl, and_false, ↓reduceIte] at hw
      cases hw
  · rintro ⟨hfits, hlt⟩
    refine ⟨_, (hcall out size).trans (if_neg hfits), ?_, ?_, fun hle => ?_⟩
    · intro s hs
      dsimp only at hs
      split at hs
      · cases hs
        exact ⟨by simpa using Nat.succ_le_of_lt hlt, ended full⟩
      · cases hs
    · intro hout _
      exact if_pos ⟨hout, hlt⟩
    · exact absurd hle (Nat.not_le.2 hlt)

/-- A handler that reports the size it needs. -/
theorem size_respects (hn : full.length + 1 < 2 ^ 32) : Respects (sizeOr full) full out size := by
  refine ⟨_, rfl, fun s hs => ?_, fun hout hlt => if_pos ⟨hout, hlt⟩, fun hle out' hout => ?_⟩
  · dsimp only at hs
    split at hs
    · rename_i hroom
      cases hs
      exact ⟨by simpa using hroom.2, ended full⟩
    · cases hs
  · refine ⟨_, rfl, if_pos ⟨hout, ?_⟩⟩
    dsimp only
    rw [if_neg (Nat.not_le.2 (Nat.lt_succ_of_le hle)), toNat_length hn]

-- ---------------------------------------------------------------------------
-- The path of the module
-- ---------------------------------------------------------------------------

theorem length_windowsPath (rel : Name) : (windowsPath rel).length ≤ 1023 := by
  simp only [windowsPath, backslashes, List.length_map]
  exact List.length_take_le ..

theorem length_win (h : Host) : h.win.length ≤ 1023 := by
  have hdefault : (name "C:\\a.exe").length ≤ 1023 := by decide
  simp only [Host.win, exeWinPath.eq_def]
  split
  · exact length_windowsPath _
  · split
    · split
      · exact length_windowsPath _
      · exact hdefault
    · exact hdefault

theorem length_modulePath (h : Host) (own : Bool) : (modulePath h own).length ≤ 1023 := by
  cases own
  · change kernel32.length ≤ 1023
    decide
  · exact length_win h

/-- A handler that cuts its string to the buffer, and reports what is left of it. -/
structure Cuts (call : Call w) (full : List (BitVec w)) (cut : Nat → Option (List (BitVec w))) :
    Prop where
  call_eq : ∀ out size, call out size =
    if out ≠ 0 ∧ size ≠ 0 then
      if size.toInt < 0 then none
      else
        let len := min full.length (size.toNat - 1)
        (cut len).map fun s => ⟨.ofNat 32 len, some s⟩
    else some ⟨.ofNat 32 full.length, none⟩
  length : ∀ s ∈ cut k, k ≤ full.length → s.length = k + 1
  all : ∀ s ∈ cut full.length, s = full ++ [0]
  short : full.length < 2 ^ 31

/-- The size of a cut string is too small for all of it. -/
theorem Cuts.reported {cut : Nat → Option (List (BitVec w))} (hcut : Cuts call full cut)
    (hr : call out size = some r) : r.ret.toNat ≤ full.length := by
  have hshort := hcut.short
  rw [hcut.call_eq] at hr
  split at hr
  · split at hr
    · cases hr
    · obtain ⟨s, -, rfl⟩ := Option.map_eq_some_iff.1 hr
      dsimp only
      rw [toNat_length (by omega)]
      exact Nat.min_le_left ..
  · cases hr
    exact (toNat_length (by omega)).le

theorem Cuts.large {cut : Nat → Option (List (BitVec w))} (hcut : Cuts call full cut)
    (hr : call out size = some r) (hw : r.written = some (full ++ [0])) :
    full.length < size.toNat := by
  rw [hcut.call_eq] at hr
  split at hr
  · rename_i hargs
    split at hr
    · cases hr
    · obtain ⟨s, hs, rfl⟩ := Option.map_eq_some_iff.1 hr
      cases hw
      have hlen := hcut.length _ hs (Nat.min_le_left ..)
      have hsize : size.toNat ≠ 0 := fun hzero => hargs.2 (BitVec.eq_of_toNat_eq hzero)
      simp only [List.length_append, List.length_singleton, Nat.add_right_cancel_iff] at hlen
      omega
  · cases hr
    cases hw

theorem Cuts.respects_iff {cut : Nat → Option (List (BitVec w))} (hcut : Cuts call full cut) :
    Respects call full out size ↔
      full.length < size.toNat ∧ (out ≠ 0 → 0 ≤ size.toInt ∧ (cut full.length).isSome) := by
  have hroom : full.length < size.toNat → min full.length (size.toNat - 1) = full.length := by omega
  have hsize : full.length < size.toNat → size ≠ 0 := by
    rintro hlt rfl
    exact Nat.not_lt_zero _ hlt
  constructor
  · rintro ⟨r, hr, -, -, hsmall⟩
    have hlt : full.length < size.toNat := by
      refine Nat.lt_of_not_le fun hle => ?_
      obtain ⟨r', hr', hw⟩ := hsmall hle 1 (by decide)
      exact absurd (hcut.large hr' hw) (Nat.not_lt.2 (hcut.reported hr))
    refine ⟨hlt, fun hout => ?_⟩
    rw [hcut.call_eq, if_pos ⟨hout, hsize hlt⟩] at hr
    split at hr
    · cases hr
    · rename_i hpos
      obtain ⟨s, hs, -⟩ := Option.map_eq_some_iff.1 hr
      rw [hroom hlt] at hs
      exact ⟨Int.not_lt.1 hpos, by rw [hs]; rfl⟩
  · rintro ⟨hlt, hfits⟩
    have hle : ¬ size.toNat ≤ full.length := Nat.not_le.2 hlt
    cases Decidable.em (out = 0) with
    | inl hout =>
      refine ⟨_, (hcut.call_eq ..).trans (if_neg fun hargs => hargs.1 hout), ?_, ?_, ?_⟩
      · rintro s ⟨⟩
      · exact fun hne => absurd hout hne
      · exact fun hsmall => absurd hsmall hle
    | inr hout =>
      obtain ⟨hpos, hsome⟩ := hfits hout
      obtain ⟨s, hs⟩ := Option.isSome_iff_exists.1 hsome
      have heq := hcut.all s hs
      refine ⟨⟨.ofNat 32 full.length, some s⟩, ?_, ?_, ?_, ?_⟩
      · rw [hcut.call_eq, if_pos ⟨hout, hsize hlt⟩, if_neg (Int.not_lt.2 hpos)]
        simp only [hroom hlt, hs, Option.map_some]
      · rintro _ ⟨⟩
        subst heq
        exact ⟨by simpa using Nat.succ_le_of_lt hlt, ended full⟩
      · exact fun _ _ => congrArg some heq
      · exact fun hsmall => absurd hsmall hle

theorem length_widen (s : Name) : (widen s).length = s.length := List.length_map ..

theorem ansi_cuts (h : Host) (own : Bool) :
    Cuts (getModuleFileNameA h own) (modulePath h own) fun len =>
      some ((modulePath h own ++ [0]).take (len + 1)) where
  call_eq out size := rfl
  length := by
    rintro k _ ⟨⟩ hk
    simp only [List.length_take, List.length_append, List.length_singleton]
    omega
  all := by
    rintro _ ⟨⟩
    exact List.take_of_length_le (by simp)
  short := (length_modulePath h own).trans_lt (by decide)

theorem wide_cuts (h : Host) (own : Bool) :
    Cuts (getModuleFileNameW h own) (widen (modulePath h own)) fun len =>
      if 520 ≤ len then none else some (widen ((modulePath h own).take len) ++ [0]) where
  call_eq out size := by
    simp only [getModuleFileNameW, length_widen]
    split
    · split
      · rfl
      · split
        · rfl
        · rfl
    · rfl
  length := by
    intro k s hs hk
    rw [length_widen] at hk
    split at hs
    · cases hs
    · cases hs
      simp [length_widen, hk]
  all := by
    intro s hs
    rw [length_widen] at hs
    split at hs
    · cases hs
    · cases hs
      rw [List.take_length]
  short := by
    rw [length_widen]
    exact (length_modulePath h own).trans_lt (by decide)

-- ---------------------------------------------------------------------------
-- Every handler
-- ---------------------------------------------------------------------------

theorem limited_iff (dest : U32) (path : Name) :
    Limited (deliver dest path) ↔ dest = 0 ∨ (pathCanon (path.take 1039)).length ≤ 259 := by
  rw [deliver]
  split
  · rename_i hdest
    have hlen : ∀ s : Name, (widen (s.take 519) ++ [0]).length = min 519 s.length + 1 := by
      simp [length_widen]
    constructor
    · intro hlim
      have hle := (hlim _ rfl).1
      rw [hlen] at hle
      right
      omega
    · rintro (hzero | hle)
      · exact absurd hzero hdest
      · rintro _ ⟨⟩
        refine ⟨?_, ended _⟩
        rw [hlen]
        omega
  · rename_i hdest
    refine iff_of_true ?_ (.inl (not_not.1 hdest))
    rintro s ⟨⟩

/-- Which calls respect the buffer. The names of the module are cut, the directory and the full path
report a length that does not count the zero, and the combined path can be longer than
`MAX_PATH`. -/
theorem path_buffers_law (h : Host) (own : Bool) (lpFileName : Name) (p dir file : Wide)
    (out size : U32) :
    (Respects (getModuleFileNameA h own) (modulePath h own) out size ↔
      (modulePath h own).length < size.toNat ∧ (out ≠ 0 → 0 ≤ size.toInt)) ∧
    (Respects (getModuleFileNameW h own) (widen (modulePath h own)) out size ↔
      (modulePath h own).length < size.toNat ∧
        (out ≠ 0 → 0 ≤ size.toInt ∧ (modulePath h own).length < 520)) ∧
    (Respects (getCurrentDirectoryA h) (currentDirectory h.win h.cwd) out size ↔
      (currentDirectory h.win h.cwd).length < 520 ∧
        (currentDirectory h.win h.cwd).length < size.toNat) ∧
    (Respects (getCurrentDirectoryW h) (widen (currentDirectory h.win h.cwd)) out size ↔
      (currentDirectory h.win h.cwd).length < 520 ∧
        (currentDirectory h.win h.cwd).length < size.toNat) ∧
    (Respects (getFullPathNameA h lpFileName) (fullPath h.win (lpFileName.take 519)) out size ↔
      ¬ overlong h (lpFileName.take 519) ∧
        (fullPath h.win (lpFileName.take 519)).length < size.toNat) ∧
    (Respects (getFullPathNameW h p) (widen (fullPath h.win (argument p))) out size ↔
      ¬ overlong h (argument p) ∧ (fullPath h.win (argument p)).length < size.toNat) ∧
    Respects getWindowsDirectoryW windows out size ∧ Respects getTempPathW temp out size ∧
    (Limited (pathCombineW out dir file) ↔
      out = 0 ∨ (pathCanon ((combined (argument dir) (argument file)).take 1039)).length ≤ 259) ∧
    (Limited (pathCanonicalizeW out p) ↔
      out = 0 ∨ (pathCanon ((argument p).take 1039)).length ≤ 259) := by
  have hfull : ∀ a, (fullPath h.win a).length < 2 ^ 32 := fun a =>
    (length_fullPath h.win a).trans_lt (by decide)
  refine ⟨?_, ?_, ?_, ?_, ?_, ?_, ?_, ?_, limited_iff .., limited_iff ..⟩
  · exact (ansi_cuts h own).respects_iff.trans (by simp)
  · exact (wide_cuts h own).respects_iff.trans (by simp [length_widen])
  · refine (length_iff (fun _ _ => rfl) ?_).trans (and_congr_left' Nat.not_le)
    omega
  · refine (length_iff (fun _ _ => rfl) ?_).trans ?_
    · rw [length_widen]
      omega
    · rw [length_widen, Nat.not_le]
  · exact length_iff (fun _ _ => rfl) fun _ => hfull _
  · refine (length_iff (fun _ _ => rfl) fun _ => ?_).trans ?_
    · rw [length_widen]
      exact hfull _
    · rw [length_widen]
      rfl
  · exact size_respects (by decide)
  · exact size_respects (by decide)

/-- The size that `GetCurrentDirectoryA` asks for is not enough for it. -/
theorem directory_size_short :
    ¬ Respects (getCurrentDirectoryA (steam (.ansi (name "C:\\Steam")))) (name "C:\\Steam") 1 8 := by
  rintro ⟨r, hr, -, -, hsmall⟩
  obtain ⟨r', hr', hw⟩ := hsmall (by decide) 1 (by decide)
  obtain rfl : r = ⟨8, none⟩ := Option.some.inj (hr.symm.trans (by decide +kernel))
  obtain rfl : r' = ⟨8, none⟩ := Option.some.inj (hr'.symm.trans (by decide +kernel))
  cases hw

end WineGlass.Returned
