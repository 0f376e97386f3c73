import WineGlass.Lib.CStrings

/-!
# Numbers as text

The conversions of `printf` for integers: what each makes of its flags, width and precision, and
`snprintf` for a format that is one conversion.
-/

namespace CFormat

open CStrings

/-- The digits of a number. -/
def digits (base : Nat) (upper : Bool) (n : Nat) : List Byte :=
  (Nat.toDigits base n).map fun d => chr (if upper then d.toUpper else d)

/-- `%d` and `%zu` -/
def decimal (v : Int) : List Byte := (if v < 0 then [chr '-'] else []) ++ digits 10 false v.natAbs

def isflag (c : Byte) : Bool := (str "-+ 0#").contains c

/-- A conversion to one of `d`, `i`, `u`, `x`, `X` and `o`. -/
structure Conversion where
  flags : List Byte
  width : Nat
  precision : Option Nat
  c : Byte
  deriving DecidableEq, Repr

namespace Conversion

variable (k : Conversion)

def has (f : Char) : Bool := k.flags.contains (chr f)

def signed : Bool := k.c == chr 'd' || k.c == chr 'i'

def base : Nat :=
  if k.c = chr 'o' then 8 else if k.c = chr 'x' ∨ k.c = chr 'X' then 16 else 10

/-- The number that the bits of an argument are. -/
def value (v : BitVec 64) : Int := if k.signed then v.toInt else v.toNat

def sign (v : Int) : List Byte :=
  if k.signed then
    if v < 0 then str "-" else if k.has '+' then str "+" else if k.has ' ' then str " " else []
  else if k.has '#' && k.base == 16 && v != 0 then [chr '0', k.c]
  else []

/-- The digits, at least as many as the precision. -/
def body (n : Nat) : List Byte :=
  let ds := if n = 0 ∧ k.precision = some 0 then [] else digits k.base (k.c == chr 'X') n
  let ds := List.replicate (k.precision.getD 1 - ds.length) (chr '0') ++ ds
  if k.has '#' && k.base == 8 && ds.head? != some (chr '0') then chr '0' :: ds else ds

def text (v : BitVec 64) : List Byte :=
  let sign := k.sign (k.value v)
  let body := k.body (k.value v).natAbs
  let fill := k.width - (sign.length + body.length)
  if k.has '-' then sign ++ body ++ List.replicate fill (chr ' ')
  else if k.has '0' && k.precision.isNone then sign ++ List.replicate fill (chr '0') ++ body
  else List.replicate fill (chr ' ') ++ sign ++ body

end Conversion

/-- `snprintf` for a conversion of a `long long`. -/
def snprintf (fmt : List Byte) (v : BitVec 64) : List Byte :=
  let s := fmt.drop 1
  let flags := s.takeWhile isflag
  let s := s.drop flags.length
  let width := s.takeWhile isdigit
  let s := s.drop width.length
  let (precision, s) :=
    if s.head? = some (chr '.') then
      let ds := (s.drop 1).takeWhile isdigit
      (some (number ds), (s.drop 1).drop ds.length)
    else (none, s)
  Conversion.text ⟨flags, number width, precision, (s.drop 2).headD 0⟩ v

-- ---------------------------------------------------------------------------
-- Digits
-- ---------------------------------------------------------------------------

theorem digits_length {base n : Nat} {upper : Bool} (hb : 1 < base) (hk : 0 < k)
    (hn : n < base ^ k) :
    (digits base upper n).length ≤ k := by
  rw [digits, List.length_map]
  exact (Nat.length_toDigits_le_iff hb hk).2 hn

theorem decimal_length {v : Int} (hk : 0 < k) (hv : v.natAbs < 10 ^ k) :
    (decimal v).length ≤ k + 1 := by
  have hlen : (digits 10 false v.natAbs).length ≤ k := digits_length (by decide) hk hv
  rw [decimal, List.length_append]
  split <;> simp only [List.length_singleton, List.length_nil] <;> omega

/-- A run of characters is read up to one that does not belong to it. -/
theorem takeWhile_run {p : Byte → Bool} {l s : List Byte} (hl : ∀ c ∈ l, p c)
    (hs : ∀ c ∈ s.head?, p c = false) : (l ++ s).takeWhile p = l := by
  rw [List.takeWhile_append_of_pos hl]
  cases s with
  | nil => simp
  | cons c s => rw [List.takeWhile_cons_of_neg (by simp [hs c rfl]), List.append_nil]

/-- A precision in a format. -/
def point : Option (List Byte) → List Byte
  | none => []
  | some ds => chr '.' :: ds

end CFormat
