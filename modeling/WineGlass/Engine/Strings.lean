import WineGlass.Lib.Units

/-!
# The string routines

The handlers for the string functions of the C library and of Win32. Each takes its arguments
from the low halves of registers and works on a host copy of bounded size: what it returns and
writes is right as long as the copy tells as much as the strings do. Memory is what the guest can
read; a byte that is not mapped reads as something.
-/

namespace WineGlass.Strings

open Units

abbrev U64 := BitVec 64

/-- `args[i]`. -/
def low (a : U64) : BitVec 32 := a.setWidth 32

-- ---------------------------------------------------------------------------
-- Copies
-- ---------------------------------------------------------------------------

/-- `wg_read_cstr` and `wg_read_wstr`: the string, of at most `cap - 1` characters, read in
chunks. -/
def readUnits (k chunk cap : Nat) (m : Mem) (addr : BitVec 32) : List (BitVec (8 * k)) :=
  if addr = 0 ∨ cap = 0 then []
  else
    let buf := fun i =>
      unit k m (addr + BitVec.ofNat 32 (k * (chunk * (i / chunk)))).toNat (i % chunk)
    upto buf (cap - 1)

def readCstr : Nat → Mem → BitVec 32 → List (BitVec (8 * 1)) := readUnits 1 256

def readWstr : Nat → Mem → BitVec 32 → List (BitVec (8 * 2)) := readUnits 2 128

/-- The copy of the `lstr` family, in one read. -/
def scan (k n : Nat) (m : Mem) (addr : BitVec 32) : List (BitVec (8 * k)) :=
  upto (unit k m addr.toNat) n

/-- `n` bytes. -/
def bytes (m : Mem) (p n : Nat) : List (BitVec (8 * 1)) := (List.range n).map (unit 1 m p)

/-- `64u * 1024 * 1024`. -/
def memLimit : Nat := 67108864

/-- `(uint32_t)(int32_t)r`. -/
def ret32 (r : Int) : U64 := (BitVec.ofInt 32 r).setWidth 64

/-- The guest's pointer to what was found in the copy. -/
def pointer (k : Nat) (a : U64) (o : Option Nat) : U64 :=
  o.elim 0 fun i => (low a + BitVec.ofNat 32 (k * i)).setWidth 64

-- ---------------------------------------------------------------------------
-- One copy or two
-- ---------------------------------------------------------------------------

section

variable {k : Nat} (rd : Mem → BitVec 32 → List (BitVec (8 * k)))

def lengthOf (m : Mem) (a0 : U64) : U64 := BitVec.ofNat 64 (rd m (low a0)).length

def orderOf (m : Mem) (a0 a1 : U64) : U64 := ret32 (diff (rd m (low a0)) (rd m (low a1)))

def orderWithin (m : Mem) (a0 a1 a2 : U64) : U64 :=
  ret32 (diff ((rd m (low a0)).take (low a2).toNat) ((rd m (low a1)).take (low a2).toNat))

def findIn (m : Mem) (a0 a1 : U64) : U64 :=
  pointer k a0 (CStrings.strchr (rd m (low a0) ++ [0]) (a1.setWidth (8 * k)))

def findLastIn (m : Mem) (a0 a1 : U64) : U64 :=
  pointer k a0 (Units.strrchr (rd m (low a0) ++ [0]) (a1.setWidth (8 * k)))

def copyTo (m : Mem) (a0 a1 : U64) : U64 × Mem :=
  ((low a0).setWidth 64, put k m (low a0).toNat (rd m (low a1) ++ [0]))

/-- The array of `n` characters comes from `calloc`, and its size in bytes has 32 bits. -/
def copyPadded (alloc : Bool) (m : Mem) (a0 a1 a2 : U64) : U64 × Mem :=
  let n := (low a2).toNat
  let o := (pad n ((rd m (low a1)).take n)).take (k * n % 2 ^ 32 / k)
  ((low a0).setWidth 64, if alloc then put k m (low a0).toNat o else m)

end

-- ---------------------------------------------------------------------------
-- The C library
-- ---------------------------------------------------------------------------

def strlen : Mem → U64 → U64 := lengthOf (readCstr 4096)

def wcslen : Mem → U64 → U64 := lengthOf (readWstr 4096)

def strnlen (m : Mem) (a0 a1 : U64) : U64 :=
  BitVec.ofNat 64 (min (readCstr 4096 m (low a0)).length (low a1).toNat)

def strcmp : Mem → U64 → U64 → U64 := orderOf (readCstr 4096)

def wcscmp : Mem → U64 → U64 → U64 := orderOf (readWstr 4096)

def strncmp : Mem → U64 → U64 → U64 → U64 := orderWithin (readCstr 4096)

def wcsncmp : Mem → U64 → U64 → U64 → U64 := orderWithin (readWstr 4096)

/-- `alloc` is that there is memory for the copies. -/
def memcmp (alloc : Bool) (m : Mem) (a0 a1 a2 : U64) : U64 :=
  let n := min (low a2).toNat memLimit
  ret32 (if alloc then diff (bytes m (low a0).toNat n) (bytes m (low a1).toNat n) else 0)

def memchr (alloc : Bool) (m : Mem) (a0 a1 a2 : U64) : U64 :=
  let n := min (low a2).toNat memLimit
  pointer 1 a0 (if alloc then CStrings.strchr (bytes m (low a0).toNat n) (a1.setWidth 8) else none)

def strcpy : Mem → U64 → U64 → U64 × Mem := copyTo (readCstr 4096)

def wcscpy : Mem → U64 → U64 → U64 × Mem := copyTo (readWstr 4096)

def strncpy : Bool → Mem → U64 → U64 → U64 → U64 × Mem := copyPadded (readCstr 4096)

def wcsncpy : Bool → Mem → U64 → U64 → U64 → U64 × Mem := copyPadded (readWstr 4096)

def strcat (m : Mem) (a0 a1 : U64) : U64 × Mem :=
  let d := readCstr 8192 m (low a0)
  let s := readCstr 4096 m (low a1)
  ((low a0).setWidth 64,
    if d.length + s.length < 8192 then put 1 m (low a0).toNat (d ++ (s ++ [0])) else m)

def strchr : Mem → U64 → U64 → U64 := findIn (readCstr 4096)

def wcschr : Mem → U64 → U64 → U64 := findIn (readWstr 4096)

def strrchr : Mem → U64 → U64 → U64 := findLastIn (readCstr 4096)

def wcsrchr : Mem → U64 → U64 → U64 := findLastIn (readWstr 4096)

def strstr (m : Mem) (a0 a1 : U64) : U64 :=
  pointer 1 a0 (CStrings.strstr (readCstr 8192 m (low a0)) (readCstr 1024 m (low a1)))

def strspn (m : Mem) (a0 a1 : U64) : U64 :=
  BitVec.ofNat 64 (span (readCstr 4096 m (low a0)) (readCstr 256 m (low a1))).length

/-- `_strdup`; `alloc` gives the block of a size, or 0. -/
def strdup (alloc : Nat → BitVec 32) (m : Mem) (a0 : U64) : U64 × Mem :=
  let s := readCstr 4096 m (low a0)
  let g := alloc (s.length + 1)
  (g.setWidth 64, if g ≠ 0 then put 1 m g.toNat (s ++ [0]) else m)

-- ---------------------------------------------------------------------------
-- Win32
-- ---------------------------------------------------------------------------

def lstrlen (k : Nat) (m : Mem) (a0 : U64) : U64 :=
  if low a0 ≠ 0 then lengthOf (scan k 1023) m a0 else 0

def lstrlenA : Mem → U64 → U64 := lstrlen 1

def lstrlenW : Mem → U64 → U64 := lstrlen 2

def lstrcpy (k : Nat) (m : Mem) (a0 a1 : U64) : U64 × Mem :=
  if low a0 ≠ 0 ∧ low a1 ≠ 0 then copyTo (scan k 1023) m a0 a1 else (0, m)

def lstrcpyA : Mem → U64 → U64 → U64 × Mem := lstrcpy 1

def lstrcpyW : Mem → U64 → U64 → U64 × Mem := lstrcpy 2

def lstrcpynW (m : Mem) (a0 a1 a2 : U64) : U64 × Mem :=
  if low a0 ≠ 0 ∧ low a1 ≠ 0 ∧ 0 < (low a2).toInt then
    let maxlen := min (low a2).toNat 1024
    copyTo (scan 2 (maxlen - 1)) m a0 a1
  else (0, m)

/-- `copylen` is cut to `1022 - dlen`, and is `-1` when the copy of the destination is full. -/
def lstrcatW (m : Mem) (a0 a1 : U64) : U64 × Mem :=
  if low a0 ≠ 0 ∧ low a1 ≠ 0 then
    let dst := scan 2 1023 m (low a0)
    let src := scan 2 1023 m (low a1)
    ((low a0).setWidth 64, put 2 m (low a0).toNat ((dst ++ src).take 1022 ++ [0]))
  else (0, m)

/-- A function that has no handler. -/
def unhandled (m : Mem) : U64 × Mem := (0, m)

def lstrcpynA (m : Mem) (_a0 _a1 _a2 : U64) : U64 × Mem := unhandled m

def lstrcatA (m : Mem) (_a0 _a1 : U64) : U64 × Mem := unhandled m

def lstrcmpA (m : Mem) (_a0 _a1 : U64) : U64 := (unhandled m).1

def lstrcmpiA (_m : Mem) (_a0 _a1 : U64) : U64 := 0

def lstrcmpW (_m : Mem) (_a0 _a1 : U64) : U64 := 0

def lstrcmpiW (_m : Mem) (_a0 _a1 : U64) : U64 := 0

-- ---------------------------------------------------------------------------
-- What the guest has
-- ---------------------------------------------------------------------------

/-- `len` bytes at an address that has 32 bits. -/
structure Room (a : U64) (len : Nat) : Prop where
  nonnull : a ≠ 0
  low : a.toNat < 2 ^ 32
  fits : a.toNat + len ≤ 2 ^ 32

structure StringAt (k : Nat) (m : Mem) (a : U64) (s : List (BitVec (8 * k))) : Prop where
  str : Str (unit k m a.toNat) s
  room : Room a (k * (s.length + 1))

/-- The characters before the first zero, of at most `n`. -/
def text (k : Nat) (m : Mem) (a : U64) (n : Nat) : List (BitVec (8 * k)) :=
  upto (unit k m a.toNat) n

/-- An array of `n` characters, or one that has a zero before. -/
structure ArrayAt (k : Nat) (m : Mem) (a : U64) (n : Nat) : Prop where
  room : Room a (k * min n ((text k m a n).length + 1))

/-- The guest's pointer to place `o` of what is at `a`. -/
def Points (k : Nat) (a : U64) (o : Option Nat) (r : U64) : Prop :=
  o.elim (r = 0) fun i => r.toNat = a.toNat + k * i

/-- The `int` in a register. -/
def intOf (r : U64) : Int := (low r).toInt

/-- The sign of a comparison is the sign of another. -/
def SameSign (r x : Int) : Prop := (r < 0 ↔ x < 0) ∧ (0 < r ↔ 0 < x)

section

variable {k : Nat} {m : Mem} {a : U64}

theorem low_toNat (h : a.toNat < 2 ^ 32) : (low a).toNat = a.toNat := by
  rw [low, BitVec.toNat_setWidth, Nat.mod_eq_of_lt h]

theorem low_ne_zero (h : Room a n) : low a ≠ 0 := fun h0 => h.nonnull <| BitVec.eq_of_toNat_eq <| by
  rw [← low_toNat h.low, h0]
  rfl

theorem low_setWidth (h : a.toNat < 2 ^ 32) : (low a).setWidth 64 = a :=
  BitVec.eq_of_toNat_eq <| by
    have hlow := low_toNat h
    rw [BitVec.toNat_setWidth, hlow, Nat.mod_eq_of_lt a.isLt]

theorem low_le (n : U64) : (low n).toNat ≤ n.toNat := by
  rw [low, BitVec.toNat_setWidth]
  exact Nat.mod_le _ _

theorem StringAt.array (h : StringAt k m a s) (n : Nat) : ArrayAt k m a n := by
  refine ⟨h.room.nonnull, h.room.low, ?_⟩
  have hfits := h.room.fits
  have hle : min n ((text k m a n).length + 1) ≤ s.length + 1 := by
    rw [text, h.str.upto, List.length_take]
    omega
  exact (Nat.add_le_add_left (Nat.mul_le_mul_left k hle) _).trans hfits

theorem StringAt.short (hk : 0 < k) (h : StringAt k m a s) : s.length < 2 ^ 32 := by
  have hfits := h.room.fits
  have hle := Nat.le_mul_of_pos_left (s.length + 1) hk
  omega

theorem text_take (k : Nat) (m : Mem) (a : U64) (n j : Nat) :
    (text k m a n).take j = text k m a (min j n) := upto_take

theorem bytes_take (m : Mem) (p n j : Nat) : (bytes m p n).take j = bytes m p (min j n) := by
  rw [bytes, ← List.map_take, List.take_range, bytes]

theorem intOf_ret32 (h : r.natAbs < 2 ^ 31) : intOf (ret32 r) = r := by
  have hlow : low (ret32 r) = BitVec.ofInt 32 r := by
    rw [low, ret32]
    exact BitVec.setWidth_setWidth_of_le _ (by decide)
  rw [intOf, hlow, BitVec.toInt_ofInt]
  exact Int.bmod_eq_of_le (by omega) (by omega)

/-- A pointer into the guest's array is null only when nothing was found. -/
theorem points_pointer (hk : 0 < k) (ha : Room a n) (ho : ∀ i ∈ o, a.toNat + k * i < 2 ^ 32) :
    Points k a o' (pointer k a o) ↔ o = o' := by
  have hpos : a.toNat ≠ 0 := fun h0 => ha.nonnull (BitVec.eq_of_toNat_eq h0)
  cases o with
  | none =>
    cases o' with
    | none => exact iff_of_true rfl rfl
    | some i =>
      refine iff_of_false (fun h => ?_) (fun h => by cases h)
      have h : 0 = a.toNat + k * i := h
      omega
  | some j =>
    have hj := ho j rfl
    have hval : (pointer k a (some j)).toNat = a.toNat + k * j := by
      rw [pointer, Option.elim_some, BitVec.toNat_setWidth, BitVec.toNat_add, BitVec.toNat_ofNat,
        low_toNat ha.low]
      omega
    cases o' with
    | none =>
      refine iff_of_false (fun h => ?_) (fun h => by cases h)
      have h : pointer k a (some j) = 0 := h
      rw [h] at hval
      have hval : 0 = a.toNat + k * j := hval
      omega
    | some i =>
      rw [Points, Option.elim_some, hval, Option.some.injEq, Nat.add_left_cancel_iff]
      exact Nat.mul_right_inj (Nat.ne_of_gt hk)

end

-- ---------------------------------------------------------------------------
-- Copies against strings
-- ---------------------------------------------------------------------------

/-- The copy is the first `N` characters, as far as there are characters. -/
def Reads (k N : Nat) (rd : Mem → BitVec 32 → List (BitVec (8 * k))) : Prop :=
  ∀ m a n, ArrayAt k m a n → (rd m (low a)).take n = (text k m a n).take N

section

variable {k N : Nat} {rd : Mem → BitVec 32 → List (BitVec (8 * k))} {m : Mem} {a : U64}

/-- No chunk starts beyond the array, so no address wraps. -/
theorem reads_units (hk : 0 < k) (hcap : 0 < cap) :
    Reads k (cap - 1) (readUnits k chunk cap) := by
  intro m a n h
  have h0 : ¬ (low a = 0 ∨ cap = 0) := fun h0 => h0.elim (low_ne_zero h.room) (Nat.ne_of_gt hcap)
  rw [readUnits, if_neg h0, upto_take, text_take, Nat.min_comm]
  refine upto_congr fun i hi hle => ?_
  have hlen : i ≤ (text k m a n).length := by
    rw [← upto_take, List.length_take] at hle
    exact hle.trans (Nat.min_le_right _ _)
  have hin : i + 1 ≤ min n ((text k m a n).length + 1) := by omega
  have hfits := h.room.fits
  have hmul := Nat.mul_le_mul_left k hin
  have hsplit : k * (chunk * (i / chunk)) + k * (i % chunk) = k * i := by
    rw [← Nat.mul_add, Nat.div_add_mod]
  rw [Nat.mul_succ] at hmul
  have haddr : (low a + BitVec.ofNat 32 (k * (chunk * (i / chunk)))).toNat =
      a.toNat + k * (chunk * (i / chunk)) := by
    rw [BitVec.toNat_add, BitVec.toNat_ofNat, low_toNat h.room.low, Nat.add_mod_mod]
    exact Nat.mod_eq_of_lt (by omega)
  rw [unit, unit, haddr, Nat.add_assoc, hsplit]

theorem reads_scan : Reads k N (scan k N) := by
  intro m a n h
  rw [scan, low_toNat h.room.low, upto_take, text_take, Nat.min_comm]
  rfl

theorem Reads.string (hrd : Reads k N rd) (h : StringAt k m a s) : rd m (low a) = s.take N := by
  have hr := hrd m a ((rd m (low a)).length + s.length) (h.array _)
  rwa [text, h.str.upto, List.take_of_length_le (Nat.le_add_right _ _),
    List.take_of_length_le (Nat.le_add_left _ _)] at hr

theorem Reads.within (hrd : Reads k N rd) (h : ArrayAt k m a n) (hj : j ≤ n) :
    (rd m (low a)).take j = (text k m a n).take (min j N) := by
  have hr := congrArg (List.take j) (hrd m a n h)
  rwa [List.take_take, List.take_take, Nat.min_eq_left hj] at hr

end

-- ---------------------------------------------------------------------------
-- When a routine is right
-- ---------------------------------------------------------------------------

section

variable (k N : Nat) (m : Mem)

def LengthLaw (f : U64 → U64) : Prop :=
  ∀ a s, StringAt k m a s → ((f a).toNat = s.length ↔ s.length ≤ N)

def LengthWithinLaw (f : U64 → U64 → U64) : Prop :=
  ∀ a n, ArrayAt k m a n.toNat →
    ((f a n).toNat = (text k m a n.toNat).length ↔
      (text k m a n.toNat).length ≤ min (low n).toNat N)

def OrderLaw (f : U64 → U64 → U64) : Prop :=
  ∀ a b s t, StringAt k m a s → StringAt k m b t →
    (Ordered (intOf (f a b)) s t ↔ (s.take N = t.take N → s = t))

def OrderWithinLaw (f : U64 → U64 → U64 → U64) : Prop :=
  ∀ a b n, ArrayAt k m a n.toNat → ArrayAt k m b n.toNat →
    (Ordered (intOf (f a b n)) (text k m a n.toNat) (text k m b n.toNat) ↔
      ((text k m a n.toNat).take (min (low n).toNat N) =
          (text k m b n.toNat).take (min (low n).toNat N) →
        text k m a n.toNat = text k m b n.toNat))

def FindLaw (f : U64 → U64 → U64) : Prop :=
  ∀ a s c, StringAt k m a s →
    (Points k a (CStrings.strchr (s ++ [0]) (c.setWidth (8 * k))) (f a c) ↔
      s.length ≤ N ∨ c.setWidth (8 * k) ∈ s.take N ∨ c.setWidth (8 * k) ∉ s ++ [0])

def FindLastLaw (f : U64 → U64 → U64) : Prop :=
  ∀ a s c, StringAt k m a s →
    (Points k a (Units.strrchr (s ++ [0]) (c.setWidth (8 * k))) (f a c) ↔
      s.length ≤ N ∨ c.setWidth (8 * k) ∉ s.drop N ++ [0])

def CopyLaw (f : U64 → U64 → U64 × Mem) : Prop :=
  ∀ d a s, StringAt k m a s → Room d (k * (s.length + 1)) →
    (f d a = (d, put k m d.toNat (s ++ [0])) ↔ s.length ≤ N)

def PadLaw (f : Bool → U64 → U64 → U64 → U64 × Mem) : Prop :=
  ∀ alloc d a n, ArrayAt k m a n.toNat → Room d (k * n.toNat) →
    (f alloc d a n = (d, put k m d.toNat (pad n.toNat (text k m a n.toNat))) ↔
      if alloc then (text k m a n.toNat).length ≤ N
      else put k m d.toNat (pad n.toNat (text k m a n.toNat)) = m)

/-- The destination is right when it has what it had and all of the source. -/
def AppendLaw (M : Nat) (f : U64 → U64 → U64 × Mem) : Prop :=
  ∀ d a t s, StringAt k m d t → StringAt k m a s → Room d (k * (t.length + s.length + 1)) →
    (f d a = (d, put k m (d.toNat + k * t.length) (s ++ [0])) ↔
      t.length + s.length ≤ M ∧ s.length ≤ N)

/-- `collate` is the comparison of Win32, which depends on the user's language. -/
def CollateLaw (f : U64 → U64 → U64) : Prop :=
  ∀ (collate : List (BitVec (8 * k)) → List (BitVec (8 * k)) → Int) a b s t,
    StringAt k m a s → StringAt k m b t →
      (SameSign (intOf (f a b)) (collate s t) ↔ collate s t = 0)

variable {k N m} {rd : Mem → BitVec 32 → List (BitVec (8 * k))}

theorem StringAt.inside (hk : 0 < k) (h : StringAt k m a s) (hi : i < s.length + 1) :
    a.toNat + k * i < 2 ^ 32 := by
  have hfits := h.room.fits
  have hmul := Nat.mul_lt_mul_of_pos_left hi hk
  omega

theorem lengthOf_law (hk : 0 < k) (hrd : Reads k N rd) : LengthLaw k N m (lengthOf rd m) := by
  intro a s h
  have hs := h.short hk
  rw [lengthOf, hrd.string h, BitVec.toNat_ofNat, List.length_take]
  omega

theorem natAbs_diff_lt (hk : k ≤ 3) (s t : List (BitVec (8 * k))) :
    (diff s t).natAbs < 2 ^ 31 := by
  have hpow : 2 ^ (8 * k) ≤ 2 ^ 24 := Nat.pow_le_pow_right (by decide) (by omega)
  exact (diff_natAbs.trans_le hpow).trans (by decide)

theorem orderOf_law (hk : k ≤ 3) (hrd : Reads k N rd) : OrderLaw k N m (orderOf rd m) := by
  intro a b s t hs ht
  rw [orderOf, intOf_ret32 (natAbs_diff_lt hk _ _), hrd.string hs, hrd.string ht]
  exact ordered_take (.inl ⟨hs.str.zero_notMem, ht.str.zero_notMem⟩)

theorem orderWithin_law (hk : k ≤ 3) (hrd : Reads k N rd) :
    OrderWithinLaw k N m (orderWithin rd m) := by
  intro a b n ha hb
  rw [orderWithin, intOf_ret32 (natAbs_diff_lt hk _ _), hrd.within ha (low_le n),
    hrd.within hb (low_le n)]
  exact ordered_take (.inl ⟨zero_notMem_upto, zero_notMem_upto⟩)

theorem findIn_law (hk : 0 < k) (hrd : Reads k N rd) : FindLaw k N m (findIn rd m) := by
  intro a s c h
  rw [findIn, hrd.string h, points_pointer hk h.room fun i hi => ?_]
  · exact strchr_cut h.str.zero_notMem
  · have hlt := strchr_lt hi
    rw [List.length_append, List.length_take] at hlt
    exact h.inside hk (hlt.trans_le (Nat.succ_le_succ (Nat.min_le_right _ _)))

theorem findLastIn_law (hk : 0 < k) (hrd : Reads k N rd) :
    FindLastLaw k N m (findLastIn rd m) := by
  intro a s c h
  rw [findLastIn, hrd.string h, points_pointer hk h.room fun i hi => ?_]
  · exact strrchr_cut
  · have hlt := strrchr_lt hi
    rw [List.length_append, List.length_take] at hlt
    exact h.inside hk (hlt.trans_le (Nat.succ_le_succ (Nat.min_le_right _ _)))

theorem copyTo_law (hrd : Reads k N rd) : CopyLaw k N m (copyTo rd m) := by
  intro d a s h hd
  rw [copyTo, low_setWidth hd.low, low_toNat hd.low, hrd.string h, Prod.mk.injEq,
    put_take_iff h.str.zero_notMem]
  exact and_iff_right rfl

theorem copyPadded_law (hk : 0 < k) (hrd : Reads k N rd) : PadLaw k N m (copyPadded rd · m) := by
  intro alloc d a n ha hd
  have hpos : d.toNat ≠ 0 := fun h0 => hd.nonnull (BitVec.eq_of_toNat_eq h0)
  have hfits := hd.fits
  have hle := Nat.le_mul_of_pos_left n.toNat hk
  have hn : (low n).toNat = n.toNat := low_toNat (by omega)
  have hsize : k * n.toNat % 2 ^ 32 / k = n.toNat := by
    rw [Nat.mod_eq_of_lt (by omega), Nat.mul_div_cancel_left _ hk]
  have htext : (text k m a n.toNat).length ≤ n.toNat := upto_length_le
  have hcut : ((text k m a n.toNat).take N).length ≤ n.toNat := by
    rw [List.length_take]
    omega
  beta_reduce
  rw [copyPadded, low_setWidth hd.low, low_toNat hd.low]
  simp only [hn, hsize, hrd m a n.toNat ha, Prod.mk.injEq, true_and]
  rw [List.take_of_length_le (Nat.le_of_eq (length_pad hcut))]
  cases alloc with
  | false => exact eq_comm
  | true =>
    have hzero : 0 ∉ text k m a n.toNat := zero_notMem_upto
    simp only [if_true]
    rw [← pad_take_iff hzero htext]
    constructor
    · intro h
      exact put_inj h ((length_pad hcut).trans (length_pad htext).symm)
    · intro h
      rw [h]

end

-- ---------------------------------------------------------------------------
-- The C library
-- ---------------------------------------------------------------------------

theorem reads_cstr (cap : Nat) (hcap : 0 < cap) : Reads 1 (cap - 1) (readCstr cap) :=
  reads_units Nat.one_pos hcap

theorem reads_wstr (cap : Nat) (hcap : 0 < cap) : Reads 2 (cap - 1) (readWstr cap) :=
  reads_units Nat.two_pos hcap

theorem strnlen_law : LengthWithinLaw 1 4095 m (strnlen m) := by
  intro a n h
  have hrd := congrArg List.length ((reads_cstr 4096 (by decide)).within h (low_le n))
  have hlt := (low n).isLt
  rw [List.length_take, List.length_take] at hrd
  rw [strnlen, BitVec.toNat_ofNat, Nat.min_comm, hrd]
  omega

/-- Two arrays of bytes are compared in full when there is memory for them and the first
64 MiB tell them apart. -/
def MemcmpLaw (m : Mem) (f : Bool → U64 → U64 → U64 → U64) : Prop :=
  ∀ alloc a b n, Room a n.toNat → Room b n.toNat →
    (Ordered (intOf (f alloc a b n)) (bytes m a.toNat n.toNat) (bytes m b.toNat n.toNat) ↔
      bytes m a.toNat n.toNat = bytes m b.toNat n.toNat ∨
        alloc ∧ bytes m a.toNat (min (low n).toNat memLimit) ≠
          bytes m b.toNat (min (low n).toNat memLimit))

theorem memcmp_law : MemcmpLaw m (memcmp · m) := by
  intro alloc a b n ha hb
  have hfair : Fair (bytes m a.toNat n.toNat) (bytes m b.toNat n.toNat) := .inr (by simp [bytes])
  have hj : min (min (low n).toNat memLimit) n.toNat = min (low n).toNat memLimit :=
    Nat.min_eq_left ((Nat.min_le_left _ _).trans (low_le n))
  have hcut := ordered_take (n := min (low n).toNat memLimit) hfair
  rw [bytes_take, bytes_take, hj] at hcut
  beta_reduce
  rw [memcmp, low_toNat ha.low, low_toNat hb.low]
  cases alloc with
  | false =>
    rw [if_neg Bool.false_ne_true, intOf_ret32 (by decide), ordered_zero hfair]
    simp
  | true =>
    rw [if_pos rfl, intOf_ret32 (natAbs_diff_lt (by decide) _ _), hcut]
    tauto

def MemchrLaw (m : Mem) (f : Bool → U64 → U64 → U64 → U64) : Prop :=
  ∀ alloc a c n, Room a n.toNat →
    (Points 1 a (CStrings.strchr (bytes m a.toNat n.toNat) (c.setWidth 8)) (f alloc a c n) ↔
      c.setWidth 8 ∉ bytes m a.toNat n.toNat ∨
        alloc ∧ c.setWidth 8 ∈ bytes m a.toNat (min (low n).toNat memLimit))

theorem memchr_law : MemchrLaw m (memchr · m) := by
  intro alloc a c n ha
  have hfits := ha.fits
  have hle := (Nat.min_le_left (low n).toNat memLimit).trans (low_le n)
  have hcut := strchr_take (n := min (low n).toNat memLimit) (c := c.setWidth 8)
    (bytes m a.toNat n.toNat)
  rw [bytes_take, Nat.min_eq_left hle] at hcut
  beta_reduce
  rw [memchr, low_toNat ha.low]
  cases alloc with
  | false =>
    rw [if_neg Bool.false_ne_true, points_pointer Nat.one_pos ha (fun i hi => by cases hi), eq_comm,
      strchr_eq_none_iff]
    simp
  | true =>
    rw [if_pos rfl, points_pointer Nat.one_pos ha fun i hi => ?_, hcut]
    · simp
    · have hlt := strchr_lt hi
      rw [bytes, List.length_map, List.length_range] at hlt
      omega

/-- A destination that is written as a whole ends up as the string it should be. -/
theorem put_append_iff (ht : StringAt k m d t) (hx : 0 ∉ x) (hs : 0 ∉ s) :
    put k m d.toNat (x ++ [0]) = put k m (d.toNat + k * t.length) (s ++ [0]) ↔ x = t ++ s := by
  have hts : 0 ∉ t ++ s := fun h0 => (List.mem_append.1 h0).elim ht.str.zero_notMem hs
  rw [ht.str.put_tail, ← List.append_assoc, put_string_inj hx hts]

theorem strcat_law : AppendLaw 1 4095 m 8191 (strcat m) := by
  intro d a t s ht hs hd
  have htext : readCstr 8192 m (low d) = t.take 8191 := (reads_cstr 8192 (by decide)).string ht
  have hsrc : readCstr 4096 m (low a) = s.take 4095 := (reads_cstr 4096 (by decide)).string hs
  have ht0 := ht.str.zero_notMem
  have hs0 := hs.str.zero_notMem
  have hx : 0 ∉ t.take 8191 ++ s.take 4095 := fun h0 =>
    (List.mem_append.1 h0).elim (fun h => ht0 (List.mem_of_mem_take h))
      fun h => hs0 (List.mem_of_mem_take h)
  have hlen : (t.take 8191).length + (s.take 4095).length =
      min 8191 t.length + min 4095 s.length := by rw [List.length_take, List.length_take]
  rw [strcat, low_setWidth hd.low, low_toNat hd.low]
  simp only [htext, hsrc, Prod.mk.injEq, true_and]
  split
  · rename_i hlt
    rw [← List.append_assoc, put_append_iff ht hx hs0]
    constructor
    · intro h
      have h := congrArg List.length h
      rw [List.length_append, List.length_append] at h
      omega
    · rintro ⟨htl, hsl⟩
      rw [List.take_of_length_le (by omega), List.take_of_length_le hsl]
  · rename_i hlt
    refine iff_of_false (fun h => ?_) (by omega)
    -- nothing was written, and the source is not empty
    have hall : Str (unit 1 m d.toNat) (t ++ s) := by
      rw [h, ht.str.put_tail, ← List.append_assoc]
      exact str_put fun h0 => (List.mem_append.1 h0).elim ht0 hs0
    have hnil := congrArg List.length (ht.str.unique hall)
    rw [List.length_append] at hnil
    omega

/-- The needle is found in the first 8191 characters, where no other string begins with its
first 1023, or there is neither. -/
def StrstrLaw (m : Mem) (f : U64 → U64 → U64) : Prop :=
  ∀ a b s x, StringAt 1 m a s → StringAt 1 m b x →
    (Points 1 a (CStrings.strstr s x) (f a b) ↔
      (∃ i, First x s i ∧ (∀ j < i, ¬ x.take 1023 <+: s.drop j) ∧
          i + (x.take 1023).length ≤ 8191) ∨
        ¬ x <:+: s ∧ ¬ x.take 1023 <:+: s.take 8191)

theorem strstr_law : StrstrLaw m (strstr m) := by
  intro a b s x ha hb
  have hs : readCstr 8192 m (low a) = s.take 8191 := (reads_cstr 8192 (by decide)).string ha
  have hx : readCstr 1024 m (low b) = x.take 1023 := (reads_cstr 1024 (by decide)).string hb
  rw [strstr, hs, hx, points_pointer Nat.one_pos ha.room fun i hi => ?_, strstr_cut]
  have hle := CStrings.strstr_le hi
  rw [List.length_take, List.length_take] at hle
  exact ha.inside Nat.one_pos (by omega)

def StrspnLaw (m : Mem) (f : U64 → U64 → U64) : Prop :=
  ∀ a b s x, StringAt 1 m a s → StringAt 1 m b x →
    ((f a b).toNat = (span s x).length ↔
      ∀ t, t <+: s → (∀ c ∈ t, c ∈ x) → t.length ≤ 4095 ∧ ∀ c ∈ t, c ∈ x.take 255)

theorem strspn_law : StrspnLaw m (strspn m) := by
  intro a b s x ha hb
  have hs : readCstr 4096 m (low a) = s.take 4095 := (reads_cstr 4096 (by decide)).string ha
  have hx : readCstr 256 m (low b) = x.take 255 := (reads_cstr 256 (by decide)).string hb
  have hle : (span (s.take 4095) (x.take 255)).length ≤ (s.take 4095).length :=
    (List.takeWhile_prefix _).length_le
  rw [List.length_take] at hle
  rw [strspn, hs, hx, BitVec.toNat_ofNat, Nat.mod_eq_of_lt (by omega), span_cut]

/-- A block for the string and the string in it, or no block. -/
def StrdupLaw (m : Mem) (f : (Nat → BitVec 32) → U64 → U64 × Mem) : Prop :=
  ∀ alloc a s, StringAt 1 m a s →
    (f alloc a = ((alloc (s.length + 1)).setWidth 64,
        if alloc (s.length + 1) ≠ 0 then put 1 m (alloc (s.length + 1)).toNat (s ++ [0]) else m) ↔
      s.length ≤ 4095 ∨ alloc 4096 = 0 ∧ alloc (s.length + 1) = 0)

theorem strdup_law : StrdupLaw m (strdup · m) := by
  intro alloc a s h
  have hs : readCstr 4096 m (low a) = s.take 4095 := (reads_cstr 4096 (by decide)).string h
  simp only [strdup, hs]
  rcases Nat.lt_or_ge 4095 s.length with hlt | hle
  · have hlen : (s.take 4095).length + 1 = 4096 :=
      congrArg (· + 1) (List.length_take_of_le (Nat.le_of_lt hlt))
    rw [hlen, Prod.mk.injEq]
    constructor
    · rintro ⟨hret, hmem⟩
      have hret : alloc 4096 = alloc (s.length + 1) := BitVec.eq_of_toNat_eq <| by
        have h := congrArg BitVec.toNat hret
        rw [BitVec.toNat_setWidth, BitVec.toNat_setWidth] at h
        omega
      by_cases h0 : alloc (s.length + 1) = 0
      · exact .inr ⟨hret.trans h0, h0⟩
      · rw [hret, if_pos h0, if_pos h0] at hmem
        exact .inl ((put_take_iff h.str.zero_notMem).1 hmem)
    · rintro (hle | ⟨h0, h0'⟩)
      · exact absurd hle (Nat.not_le.2 hlt)
      · simp only [h0, h0', ne_eq, not_true, if_false, and_self]
  · rw [List.take_of_length_le hle]
    simp [hle]

-- ---------------------------------------------------------------------------
-- Win32
-- ---------------------------------------------------------------------------

theorem lstrlen_law (hk : 0 < k) : LengthLaw k 1023 m (lstrlen k m) := by
  intro a s h
  rw [lstrlen, if_pos (low_ne_zero h.room)]
  exact lengthOf_law hk reads_scan a s h

theorem lstrcpy_law : CopyLaw k 1023 m (lstrcpy k m) := by
  intro d a s h hd
  rw [lstrcpy, if_pos ⟨low_ne_zero hd, low_ne_zero h.room⟩]
  exact copyTo_law reads_scan d a s h hd

/-- Up to `n - 1` characters and a zero, for a positive `int`. -/
def CopyWithinLaw (m : Mem) (f : U64 → U64 → U64 → U64 × Mem) : Prop :=
  ∀ d a n, 0 < (low n).toInt → ArrayAt 2 m a ((low n).toNat - 1) →
    Room d (2 * ((text 2 m a ((low n).toNat - 1)).length + 1)) →
    (f d a n = (d, put 2 m d.toNat (text 2 m a ((low n).toNat - 1) ++ [0])) ↔
      (text 2 m a ((low n).toNat - 1)).length ≤ 1023)

theorem lstrcpynW_law : CopyWithinLaw m (lstrcpynW m) := by
  intro d a n hn ha hd
  have hzero : 0 ∉ text 2 m a ((low n).toNat - 1) := zero_notMem_upto
  have hcut : scan 2 (min (low n).toNat 1024 - 1) m (low a) =
      (text 2 m a ((low n).toNat - 1)).take 1023 := by
    have hmin : min (low n).toNat 1024 - 1 = min 1023 ((low n).toNat - 1) := by omega
    rw [scan, low_toNat ha.room.low, hmin, text_take]
    rfl
  rw [lstrcpynW, if_pos ⟨low_ne_zero hd, low_ne_zero ha.room, hn⟩]
  simp only [copyTo, hcut, low_setWidth hd.low, low_toNat hd.low, Prod.mk.injEq, true_and]
  exact put_take_iff hzero

def AppendShortLaw (m : Mem) (f : U64 → U64 → U64 × Mem) : Prop :=
  ∀ d a t s, StringAt 2 m d t → StringAt 2 m a s → Room d (2 * (t.length + s.length + 1)) →
    (f d a = (d, put 2 m (d.toNat + 2 * t.length) (s ++ [0])) ↔ t.length + s.length ≤ 1022)

theorem lstrcatW_law : AppendShortLaw m (lstrcatW m) := by
  intro d a t s ht hs hd
  have ht0 := ht.str.zero_notMem
  have hs0 := hs.str.zero_notMem
  have hdst : scan 2 1023 m (low d) = t.take 1023 := reads_scan.string ht
  have hsrc : scan 2 1023 m (low a) = s.take 1023 := reads_scan.string hs
  have hx : 0 ∉ (t.take 1023 ++ s.take 1023).take 1022 := fun h0 =>
    (List.mem_append.1 (List.mem_of_mem_take h0)).elim (fun h => ht0 (List.mem_of_mem_take h))
      fun h => hs0 (List.mem_of_mem_take h)
  rw [lstrcatW, if_pos ⟨low_ne_zero hd, low_ne_zero hs.room⟩]
  simp only [hdst, hsrc, low_setWidth hd.low, low_toNat hd.low, Prod.mk.injEq, true_and]
  rw [put_append_iff ht hx hs0]
  constructor
  · intro h
    have h := congrArg List.length h
    simp only [List.length_take, List.length_append] at h
    omega
  · intro h
    have htl : t.length ≤ 1023 := by omega
    have hsl : s.length ≤ 1023 := by omega
    rw [List.take_of_length_le htl, List.take_of_length_le hsl, List.take_of_length_le]
    rwa [List.length_append]

theorem intOf_zero : intOf 0 = 0 := by decide

/-- To return 0 is to say that the strings are equal. -/
theorem equal_law : CollateLaw k m fun _ _ => 0 := by
  intro collate a b s t _ _
  rw [intOf_zero, SameSign]
  omega

/-- The pointer to the destination is not returned. -/
def NeverLaw (f : U64 → U64 × Mem) : Prop := ∀ d, d ≠ 0 → (f d).1 ≠ d

theorem unhandled_law : NeverLaw fun _ => unhandled m := fun _ hd h => hd h.symm

/-- For each routine, for which strings it does what it should. -/
structure RoutineLaws (m : Mem) : Prop where
  strlen_right : LengthLaw 1 4095 m (strlen m)
  wcslen_right : LengthLaw 2 4095 m (wcslen m)
  strnlen_right : LengthWithinLaw 1 4095 m (strnlen m)
  strcmp_right : OrderLaw 1 4095 m (strcmp m)
  wcscmp_right : OrderLaw 2 4095 m (wcscmp m)
  strncmp_right : OrderWithinLaw 1 4095 m (strncmp m)
  wcsncmp_right : OrderWithinLaw 2 4095 m (wcsncmp m)
  memcmp_right : MemcmpLaw m (memcmp · m)
  memchr_right : MemchrLaw m (memchr · m)
  strcpy_right : CopyLaw 1 4095 m (strcpy m)
  wcscpy_right : CopyLaw 2 4095 m (wcscpy m)
  strncpy_right : PadLaw 1 4095 m (strncpy · m)
  wcsncpy_right : PadLaw 2 4095 m (wcsncpy · m)
  strcat_right : AppendLaw 1 4095 m 8191 (strcat m)
  strchr_right : FindLaw 1 4095 m (strchr m)
  wcschr_right : FindLaw 2 4095 m (wcschr m)
  strrchr_right : FindLastLaw 1 4095 m (strrchr m)
  wcsrchr_right : FindLastLaw 2 4095 m (wcsrchr m)
  strstr_right : StrstrLaw m (strstr m)
  strspn_right : StrspnLaw m (strspn m)
  strdup_right : StrdupLaw m (strdup · m)
  lstrlenA_right : LengthLaw 1 1023 m (lstrlenA m)
  lstrlenW_right : LengthLaw 2 1023 m (lstrlenW m)
  lstrcpyA_right : CopyLaw 1 1023 m (lstrcpyA m)
  lstrcpyW_right : CopyLaw 2 1023 m (lstrcpyW m)
  lstrcpynA_wrong : ∀ a n, NeverLaw fun d => lstrcpynA m d a n
  lstrcpynW_right : CopyWithinLaw m (lstrcpynW m)
  lstrcatA_wrong : ∀ a, NeverLaw fun d => lstrcatA m d a
  lstrcatW_right : AppendShortLaw m (lstrcatW m)
  lstrcmpA_right : CollateLaw 1 m (lstrcmpA m)
  lstrcmpW_right : CollateLaw 2 m (lstrcmpW m)
  lstrcmpiA_right : CollateLaw 1 m (lstrcmpiA m)
  lstrcmpiW_right : CollateLaw 2 m (lstrcmpiW m)

theorem string_routines_law (m : Mem) : RoutineLaws m where
  strlen_right := lengthOf_law Nat.one_pos (reads_cstr 4096 (by decide))
  wcslen_right := lengthOf_law Nat.two_pos (reads_wstr 4096 (by decide))
  strnlen_right := strnlen_law
  strcmp_right := orderOf_law (by decide) (reads_cstr 4096 (by decide))
  wcscmp_right := orderOf_law (by decide) (reads_wstr 4096 (by decide))
  strncmp_right := orderWithin_law (by decide) (reads_cstr 4096 (by decide))
  wcsncmp_right := orderWithin_law (by decide) (reads_wstr 4096 (by decide))
  memcmp_right := memcmp_law
  memchr_right := memchr_law
  strcpy_right := copyTo_law (reads_cstr 4096 (by decide))
  wcscpy_right := copyTo_law (reads_wstr 4096 (by decide))
  strncpy_right := copyPadded_law Nat.one_pos (reads_cstr 4096 (by decide))
  wcsncpy_right := copyPadded_law Nat.two_pos (reads_wstr 4096 (by decide))
  strcat_right := strcat_law
  strchr_right := findIn_law Nat.one_pos (reads_cstr 4096 (by decide))
  wcschr_right := findIn_law Nat.two_pos (reads_wstr 4096 (by decide))
  strrchr_right := findLastIn_law Nat.one_pos (reads_cstr 4096 (by decide))
  wcsrchr_right := findLastIn_law Nat.two_pos (reads_wstr 4096 (by decide))
  strstr_right := strstr_law
  strspn_right := strspn_law
  strdup_right := strdup_law
  lstrlenA_right := lstrlen_law Nat.one_pos
  lstrlenW_right := lstrlen_law Nat.two_pos
  lstrcpyA_right := lstrcpy_law
  lstrcpyW_right := lstrcpy_law
  lstrcpynA_wrong _ _ := unhandled_law
  lstrcpynW_right := lstrcpynW_law
  lstrcatA_wrong _ := unhandled_law
  lstrcatW_right := lstrcatW_law
  lstrcmpA_right := equal_law
  lstrcmpW_right := equal_law
  lstrcmpiA_right := equal_law
  lstrcmpiW_right := equal_law

/-- 4096 characters at `0x10000`. -/
theorem strlen_short :
    ∃ m s, StringAt 1 m 0x10000 s ∧ (strlen m 0x10000).toNat ≠ s.length := by
  have hzero : 0 ∉ List.replicate 4096 (65 : BitVec (8 * 1)) := fun h =>
    absurd (List.eq_of_mem_replicate h) (by decide)
  have hat : StringAt 1 (put 1 (fun _ => 0) 0x10000 (List.replicate 4096 65 ++ [0])) 0x10000
      (List.replicate 4096 65) := by
    refine ⟨str_put hzero, by decide, by decide, ?_⟩
    rw [List.length_replicate]
    decide
  refine ⟨_, _, hat, fun h => ?_⟩
  have hle := (lengthOf_law Nat.one_pos (reads_cstr 4096 (by decide)) _ _ hat).1 h
  rw [List.length_replicate] at hle
  omega

end WineGlass.Strings
