import Mathlib.Algebra.Ring.Int.Defs
import Mathlib.Algebra.Ring.Nat
import Mathlib.Data.List.Basic
import Mathlib.Data.List.TakeWhile

/-!
# C strings

The string functions of the C library that the source calls, on the characters of their
strings: `cstr` is what an array holds before its first zero. Numbers are parsed with a `long`
of 64 bits, which `strtol` does not leave.
-/

namespace CStrings

abbrev Byte := BitVec 8

/-- A character of the source. -/
def chr (c : Char) : Byte := BitVec.ofNat 8 c.toNat

/-- A string literal of the source. -/
def str (s : String) : List Byte := s.toList.map chr

def cstr (mem : List (BitVec w)) : List (BitVec w) := mem.takeWhile (· != 0)

/-- `strchr`, for a character that is not zero. -/
def strchr (s : List (BitVec w)) (c : BitVec w) : Option Nat := s.findIdx? (· == c)

/-- `strstr`, as the place of the first occurrence. -/
def strstr : List (BitVec w) → List (BitVec w) → Option Nat
  | [], n => if n.isEmpty then some 0 else none
  | c :: cs, n => if n.isPrefixOf (c :: cs) then some 0 else (strstr cs n).map (· + 1)

def isdigit (c : Byte) : Bool := 0x30 ≤ c && c ≤ 0x39

def isspace (c : Byte) : Bool := c == 0x20 || 0x09 ≤ c && c ≤ 0x0D

def tolower (c : Byte) : Byte := if 0x41 ≤ c && c ≤ 0x5A then c + 0x20 else c

/-- Whether two strings are equal up to case. -/
def casecmp (a b : List Byte) : Bool := a.map tolower == b.map tolower

def strcasestr (s n : List Byte) : Option Nat := strstr (s.map tolower) (n.map tolower)

/-- The value of a string of digits. -/
def number (ds : List Byte) : Nat := ds.foldl (fun v d => 10 * v + (d.toNat - 0x30)) 0

/-- What a `long` holds of a number. -/
def clamp (v : Int) : Int := max (-2 ^ 63) (min v (2 ^ 63 - 1))

/-- `strtol` for base 10, with the rest of the string; none when there are no digits. -/
def strtol (s : List Byte) : Option (Int × List Byte) :=
  let s := s.dropWhile isspace
  let neg := s.head? = some (chr '-')
  let s := if neg ∨ s.head? = some (chr '+') then s.drop 1 else s
  let ds := s.takeWhile isdigit
  if ds.isEmpty then none
  else some (clamp (if neg then -number ds else number ds), s.dropWhile isdigit)

/-- `atoll`; `atoi` is its low half. -/
def atoll (s : List Byte) : BitVec 64 := BitVec.ofInt 64 ((strtol s).elim 0 Prod.fst)

def atoi (s : List Byte) : BitVec 32 := (atoll s).setWidth 32

-- ---------------------------------------------------------------------------
-- The string of an array
-- ---------------------------------------------------------------------------

/-- More of the array gives more of the string. -/
theorem cstr_append (a b : List (BitVec w)) : cstr a <+: cstr (a ++ b) := by
  unfold cstr
  induction a with
  | nil => exact List.nil_prefix
  | cons c cs ih =>
    rw [List.cons_append, List.takeWhile_cons, List.takeWhile_cons]
    split
    · exact (List.prefix_append_right_inj [c]).2 ih
    · exact List.prefix_rfl

theorem cstr_initial (a : List (BitVec w)) : cstr a <+: a := List.takeWhile_prefix _

-- ---------------------------------------------------------------------------
-- The first occurrence
-- ---------------------------------------------------------------------------

/-- The occurrence is followed by what follows it in the string. -/
theorem strstr_split {s n : List (BitVec w)} (h : strstr s n = some i) :
    s = s.take i ++ (n ++ s.drop (i + n.length)) := by
  induction s generalizing i with
  | nil =>
    rw [strstr] at h
    split at h
    · rename_i hn
      simp [List.isEmpty_iff.1 hn]
    · cases h
  | cons c cs ih =>
    rw [strstr] at h
    split at h
    · rename_i hn
      cases h
      obtain ⟨t, ht⟩ := List.isPrefixOf_iff_prefix.1 hn
      rw [← ht]
      simp
    · obtain ⟨j, hj, rfl⟩ := Option.map_eq_some_iff.1 h
      have hi := ih hj
      rw [Nat.add_right_comm, List.take_succ_cons, List.drop_succ_cons, List.cons_append, ← hi]

theorem strstr_le {s n : List (BitVec w)} (h : strstr s n = some i) : i + n.length ≤ s.length := by
  induction s generalizing i with
  | nil =>
    rw [strstr] at h
    split at h
    · rename_i hn
      cases h
      simp [List.isEmpty_iff.1 hn]
    · cases h
  | cons c cs ih =>
    rw [strstr] at h
    split at h
    · rename_i hn
      cases h
      rw [Nat.zero_add]
      exact (List.isPrefixOf_iff_prefix.1 hn).length_le
    · obtain ⟨j, hj, rfl⟩ := Option.map_eq_some_iff.1 h
      have hle := ih hj
      rw [List.length_cons]
      omega

/-- What comes after the first occurrence does not matter. -/
theorem strstr_append {s n : List (BitVec w)} (h : strstr s n = some i) (t : List (BitVec w)) :
    strstr (s ++ t) n = some i := by
  induction s generalizing i with
  | nil =>
    rw [strstr] at h
    split at h
    · rename_i hn
      cases h
      rw [List.isEmpty_iff.1 hn, List.nil_append]
      cases t <;> rfl
    · cases h
  | cons c cs ih =>
    rw [strstr] at h
    rw [List.cons_append, strstr]
    split at h
    · rename_i hn
      cases h
      have hlong : n.isPrefixOf (c :: (cs ++ t)) := List.isPrefixOf_iff_prefix.2
        ((List.isPrefixOf_iff_prefix.1 hn).trans (List.prefix_append (c :: cs) t))
      rw [if_pos hlong]
    · rename_i hn
      obtain ⟨j, hj, rfl⟩ := Option.map_eq_some_iff.1 h
      have hle := strstr_le hj
      have hshort : ¬ n.isPrefixOf (c :: (cs ++ t)) := fun hp => hn <|
        List.isPrefixOf_iff_prefix.2 <| List.prefix_of_prefix_length_le
          (List.isPrefixOf_iff_prefix.1 hp) (List.prefix_append (c :: cs) t)
          (by rw [List.length_cons]; omega)
      rw [if_neg hshort, ih hj, Option.map_some]

theorem strcasestr_append {s n : List Byte} (h : strcasestr s n = some i) (t : List Byte) :
    strcasestr (s ++ t) n = some i := by
  rw [strcasestr, List.map_append]
  exact strstr_append h _

-- ---------------------------------------------------------------------------
-- Characters
-- ---------------------------------------------------------------------------

theorem strchr_append {a : List (BitVec w)} (h : c ∉ a) (b : List (BitVec w)) :
    strchr (a ++ c :: b) c = some a.length := by
  unfold strchr
  induction a with
  | nil => simp [List.findIdx?_cons]
  | cons d ds ih =>
    rw [List.mem_cons, not_or] at h
    simp [List.findIdx?_cons, Ne.symm h.1, ih h.2]

theorem strchr_none {s : List (BitVec w)} (h : c ∉ s) : strchr s c = none := by
  rw [strchr, List.findIdx?_eq_none_iff]
  intro d hd
  have hne : d ≠ c := fun he => h (he ▸ hd)
  simpa using hne

/-- Digits are read after spaces and up to what is none, and the number is what a `long` holds
of it. -/
theorem atoll_number {l ds : List Byte} (hl : ∀ c ∈ l, isspace c) (hne : ds ≠ [])
    (hds : ∀ d ∈ ds, isdigit d) (ht : ∀ c ∈ t.head?, isdigit c = false) :
    atoll (l ++ (ds ++ t)) = BitVec.ofInt 64 (clamp (number ds)) := by
  obtain ⟨d, ds', rfl⟩ := List.exists_cons_of_ne_nil hne
  have hd := hds d List.mem_cons_self
  have hspace : isspace d = false := by
    simp only [isdigit, isspace, Bool.and_eq_true, decide_eq_true_eq, Bool.or_eq_false_iff,
      Bool.and_eq_false_iff, beq_eq_false_iff_ne, decide_eq_false_iff_not] at hd ⊢
    bv_omega
  have hsign : d ≠ chr '-' ∧ d ≠ chr '+' := by
    constructor <;> rintro rfl <;> exact absurd hd (by decide)
  have hskip : (l ++ (d :: ds' ++ t)).dropWhile isspace = d :: ds' ++ t := by
    rw [List.dropWhile_append_of_pos hl, List.cons_append,
      List.dropWhile_cons_of_neg (by simp [hspace])]
  have hdigits : (d :: ds' ++ t).takeWhile isdigit = d :: ds' := by
    rw [List.takeWhile_append_of_pos hds]
    cases t with
    | nil => simp
    | cons c cs => rw [List.takeWhile_cons_of_neg (by simp [ht c rfl]), List.append_nil]
  unfold atoll strtol
  simp only [hskip]
  simp only [List.cons_append, List.head?_cons, Option.some.injEq, hsign.1, hsign.2, or_self,
    if_false]
  rw [← List.cons_append, hdigits]
  simp

theorem atoll_digits {ds : List Byte} (hne : ds ≠ []) (hds : ∀ d ∈ ds, isdigit d)
    (ht : ∀ c ∈ t.head?, isdigit c = false) (hfit : number ds < 2 ^ 63) :
    atoll (ds ++ t) = BitVec.ofNat 64 (number ds) := by
  have hclamp : clamp (number ds) = number ds := by
    unfold clamp
    omega
  rw [← List.nil_append (ds ++ t), atoll_number (fun _ h => absurd h List.not_mem_nil) hne hds ht,
    hclamp, BitVec.ofInt_natCast]

end CStrings
