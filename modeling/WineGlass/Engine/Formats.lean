import WineGlass.Engine.Printf

/-!
# What a format means

A format is text and conversions, each with its flags, width, precision and length, and the
arguments it takes. It means what the C library makes of it, with the rule of the Windows runtime
for the width of the characters of a string.
-/

namespace WineGlass.Formats

open CStrings Units Strings CFormat Printf

-- ---------------------------------------------------------------------------
-- Formats
-- ---------------------------------------------------------------------------

inductive Length
  | none | hh | h | l | ll | j | z | t | w | I | I32 | I64
  deriving DecidableEq, Repr

def Length.spelling : Length → List Byte
  | none => []
  | hh => str "hh"
  | h => str "h"
  | l => str "l"
  | ll => str "ll"
  | j => str "j"
  | z => str "z"
  | t => str "t"
  | w => str "w"
  | I => str "I"
  | I32 => str "I32"
  | I64 => str "I64"

/-- A width or a precision: a number in the format, or an argument. -/
inductive Amount
  | lit (ds : List Byte)
  | star (v : U64)
  deriving DecidableEq, Repr

/-- What is converted: an integer to one of `d`, `i`, `u`, `x`, `X` and `o`, a character, or a
string, which is at an address. -/
inductive Value
  | int (c : Byte) (v : U64)
  | char (v : U64)
  | text (capital : Bool) (s : List Byte) (p : U64)
  deriving DecidableEq, Repr

structure Item where
  flags : List Byte
  width : Option Amount
  precision : Option Amount
  length : Length
  value : Value
  deriving DecidableEq, Repr

inductive Piece
  | plain (c : Byte)
  | percent
  | item (i : Item)
  deriving DecidableEq, Repr

-- ---------------------------------------------------------------------------
-- How they are written
-- ---------------------------------------------------------------------------

def Amount.spelling : Amount → List Byte
  | lit ds => ds
  | star _ => [chr '*']

def Value.c : Value → Byte
  | int c _ => c
  | char _ => chr 'c'
  | text capital _ _ => if capital then chr 'S' else chr 's'

/-- A conversion after its percent sign, before `s`. -/
def Item.spelling (i : Item) (s : List Byte) : List Byte :=
  i.flags ++ (i.width.elim [] Amount.spelling ++
    (i.precision.elim [] (fun a => chr '.' :: a.spelling) ++ (i.length.spelling ++ i.value.c :: s)))

def Piece.spelling : Piece → List Byte → List Byte
  | plain c, s => c :: s
  | percent, s => chr '%' :: chr '%' :: s
  | item i, s => chr '%' :: i.spelling s

def spelling (ps : List Piece) : List Byte := ps.foldr Piece.spelling []

def Amount.args : Amount → List U64
  | lit _ => []
  | star v => [v]

def Value.arg : Value → U64
  | int _ v => v
  | char v => v
  | text _ _ p => p

/-- The arguments in their order, each in a slot of its own. -/
def Item.args (i : Item) : List U64 :=
  i.width.elim [] Amount.args ++ (i.precision.elim [] Amount.args ++ [i.value.arg])

def Piece.args : Piece → List U64
  | plain _ => []
  | percent => []
  | item i => i.args

/-- Whether the characters of an argument are wide: a modifier says so, or else the function or,
for `%S`, the other kind. -/
def Length.wideArg (length : Length) (wide capital : Bool) : Bool :=
  match length with
  | l | w => true
  | h => false
  | _ => wide != capital

/-- The string of a conversion is in memory. -/
def Item.Held (i : Item) (m : Mem) (wide : Bool) : Prop :=
  match i.value with
  | .text capital s p =>
    if i.length.wideArg wide capital then StringAt 2 m p (s.map (·.setWidth 16))
    else StringAt 1 m p s
  | _ => True

def Piece.Held (p : Piece) (m : Mem) (wide : Bool) : Prop := ∀ i, p = .item i → i.Held m wide

/-- The conversions that C has. -/
structure Item.Valid (i : Item) : Prop where
  flags : ∀ c ∈ i.flags, CFormat.isflag c
  width : ∀ ds, i.width = some (.lit ds) → (∀ d ∈ ds, isdigit d) ∧ ds.head? ≠ some (chr '0')
  precision : ∀ ds, i.precision = some (.lit ds) → ∀ d ∈ ds, isdigit d
  value : match i.value with
    | .int c _ => c ∈ str "diuxXo" ∧ i.length ≠ .w
    | .char _ => i.length ∈ [.none, .h, .l, .w]
    | .text _ s _ => i.length ∈ [.none, .h, .l, .w] ∧ ∀ c ∈ s, c ≠ 0 ∧ c < 128

def Piece.Valid : Piece → Prop
  | plain c => c ≠ 0 ∧ c ≠ chr '%'
  | percent => True
  | item i => i.Valid

-- ---------------------------------------------------------------------------
-- What they mean
-- ---------------------------------------------------------------------------

/-- The number of an argument for a star. -/
def starOf (v : U64) : Int := (v.setWidth 32).toInt

/-- A negative width is a flag and a width. -/
def Item.flagsOf (i : Item) : List Byte :=
  match i.width with
  | some (.star v) => if starOf v < 0 then i.flags ++ [chr '-'] else i.flags
  | _ => i.flags

def Item.widthOf (i : Item) : Nat :=
  match i.width with
  | none => 0
  | some (.lit ds) => number ds
  | some (.star v) => (starOf v).natAbs

/-- A negative precision is none. -/
def Item.precisionOf (i : Item) : Option Nat :=
  match i.precision with
  | none => none
  | some (.lit ds) => some (number ds)
  | some (.star v) => if starOf v < 0 then none else some (starOf v).toNat

/-- The bits of an integer argument. -/
def Length.bits : Length → Nat
  | hh => 8
  | h => 16
  | none | l | w | I32 => 32
  | ll | j | z | t | I | I64 => 64

def Length.extend (length : Length) (c : Byte) (v : U64) : U64 :=
  if c = chr 'd' ∨ c = chr 'i' then (v.setWidth length.bits).signExtend 64
  else (v.setWidth length.bits).setWidth 64

/-- A text in its width. -/
def Item.pad (i : Item) (t : List (BitVec 16)) : List (BitVec 16) :=
  let fill := List.replicate (i.widthOf - t.length) 0x20
  if i.flagsOf.contains (chr '-') then t ++ fill else fill ++ t

def Item.int (i : Item) (c : Byte) (v : U64) : List Byte :=
  Conversion.text ⟨i.flagsOf, i.widthOf, i.precisionOf, c⟩ (i.length.extend c v)

/-- The characters of a conversion. -/
def Item.text (i : Item) (wide : Bool) : List (BitVec 16) :=
  match i.value with
  | .int c v => (i.int c v).map (·.setWidth 16)
  | .char v =>
    i.pad [if wide && i.length.wideArg wide false then v.setWidth 16
      else (v.setWidth 8).setWidth 16]
  | .text _ s _ => i.pad ((i.precisionOf.elim s s.take).map (·.setWidth 16))

def Piece.text (wide : Bool) : Piece → List (BitVec 16)
  | plain c => [c.setWidth 16]
  | percent => [0x25]
  | item i => i.text wide

def text (wide : Bool) (ps : List Piece) : List (BitVec 16) := ps.flatMap (Piece.text wide)

/-- An amount as it is copied for the host. -/
def amountText : Option Amount → List Byte
  | none => []
  | some (.lit ds) => ds
  | some (.star v) => decimal (starOf v)

def Item.widthText (i : Item) : List Byte := amountText i.width

/-- A conversion that the source does not get wrong: it fits into its copy; the precision is not
negative; an integer is as long as the source takes it to be and its text is not too long; a
character has no width; and a string is not to be padded or cut, is not too long, and is wide by
the rule the source has. -/
structure Item.Kept (i : Item) (wide : Bool) : Prop where
  width : 1 + i.flags.length + i.widthText.length ≤ 32
  star : ∀ v, i.width = some (.star v) → 1 + i.flags.length + i.widthText.length < 32
  lit : ∀ ds, i.precision = some (.lit ds) → ds ≠ [] →
    1 + i.flags.length + i.widthText.length + 1 + ds.length ≤ 32
  precision : ∀ v, i.precision = some (.star v) → 0 ≤ starOf v ∧
    1 + i.flags.length + i.widthText.length + 1 + (decimal (starOf v)).length < 32
  value : match i.value with
    | .int c v => i.length ≠ .I32 ∧ (i.int c v).length ≤ 599 ∧
        ((i.length = .hh ∨ i.length = .h ∨ i.length = .I) →
          i.length.extend c v = Length.none.extend c v)
    | .char v =>
        i.widthOf ≤ 1 ∧ (wide ∧ i.length.wideArg wide false → v.setWidth 16 < (256 : BitVec 16))
    | .text capital s _ => s.length ≤ 2047 ∧ i.widthOf ≤ s.length ∧
        (∀ n ∈ i.precisionOf, s.length ≤ n) ∧ (capital → i.length = .none)

def Piece.Kept (p : Piece) (wide : Bool) : Prop := ∀ i, p = .item i → i.Kept wide

/-- A text is in the array. -/
structure Copied (b : Spec) (t : List Byte) : Prop where
  cells : b.cells.length = 40
  si : b.si = t.length
  text : b.cells.take b.si = t

theorem Copied.put {b : Spec} {t : List Byte} (h : Copied b t) (ht : t.length < 40) (c : Byte) :
    ∃ b', b.put c = some b' ∧ Copied b' (t ++ [c]) := by
  obtain ⟨hcells, hsi, htext⟩ := h
  refine ⟨⟨b.cells.set b.si c, b.si + 1⟩, if_pos (by omega), ?_, ?_, ?_⟩
  · rw [List.length_set, hcells]
  · rw [List.length_append, List.length_singleton, hsi]
  · rw [List.take_succ_eq_append_getElem (by rw [List.length_set]; omega), List.getElem_set_self,
      List.take_set_of_le (Nat.le_refl _), htext]

theorem Copied.puts {b : Spec} {t : List Byte} (h : Copied b t) (cs : List Byte)
    (hlen : t.length + cs.length ≤ 40) : ∃ b', b.puts cs = some b' ∧ Copied b' (t ++ cs) := by
  induction cs generalizing b t with
  | nil => exact ⟨b, rfl, by rwa [List.append_nil]⟩
  | cons c cs ih =>
    rw [List.length_cons] at hlen
    obtain ⟨b₁, hput, h₁⟩ := h.put (by omega) c
    obtain ⟨b₂, hputs, h₂⟩ := ih h₁ (by rw [List.length_append, List.length_singleton]; omega)
    refine ⟨b₂, ?_, by rwa [List.append_assoc] at h₂⟩
    rw [Spec.puts, List.foldlM_cons, hput]
    exact hputs

theorem Copied.print {b : Spec} {t u : List Byte} (h : Copied b t)
    (hlen : t.length + u.length < 32) :
    ∃ b', b.print u = some b' ∧ Copied b' (t ++ u) := by
  obtain ⟨hcells, hsi, htext⟩ := h
  have hu : u.take (31 - b.si) = u := List.take_of_length_le (by omega)
  refine ⟨⟨b.cells.take b.si ++ (u ++ [0]) ++ b.cells.drop (b.si + (u ++ [0]).length),
    b.si + u.length⟩, ?_, ?_, ?_, ?_⟩
  · rw [Spec.print, if_pos (by omega), if_pos (by omega), hu]
  · simp only [List.length_append, List.length_take, List.length_drop, List.length_singleton]
    omega
  · dsimp only
    rw [List.length_append, hsi]
  · have hlong : (b.cells.take b.si ++ u).length = b.si + u.length := by
      rw [List.length_append, htext, hsi]
    rw [← List.append_assoc (b.cells.take b.si), List.append_assoc _ [0], ← hlong, List.take_left,
      htext]

theorem Copied.finish {b : Spec} {t : List Byte} (h : Copied b t) (ht : t.length < 40)
    (h0 : ∀ c ∈ t, c ≠ 0) : b.finish = some t := by
  obtain ⟨b', hput, -, -, htext⟩ := h.put ht 0
  rw [Spec.finish, hput, Option.map_some, cstr, ← List.take_append_drop b'.si b'.cells, htext,
    List.append_assoc]
  exact congrArg some (takeWhile_run (fun c hc => bne_iff_ne.2 (h0 c hc)) (by rintro d ⟨⟩; rfl))

-- ---------------------------------------------------------------------------
-- Reading a conversion
-- ---------------------------------------------------------------------------

/-- The argument after `vs`. -/
def after (va : U32) : List U64 → U32
  | [] => va
  | _ :: vs => after (va + 8) vs

/-- The digits of an amount in the format. -/
def digitsOf : Option Amount → List Byte
  | some (.lit ds) => ds
  | _ => []

/-- The text for an amount that is an argument. -/
def shownOf : Option Amount → Option (List Byte)
  | some (.star v) => some (decimal (starOf v))
  | _ => none

def Length.mods : Length → Mods
  | none | .I | I32 => ⟨false, false, false⟩
  | hh | h => ⟨false, true, false⟩
  | l | w => ⟨false, false, true⟩
  | ll | j | z | t | I64 => ⟨true, false, false⟩

def dotOf : Option Amount → Option (List Byte × Option (List Byte))
  | none => none
  | some a => some (digitsOf (some a), shownOf (some a))

/-- A conversion as it is read. -/
def Item.directive (i : Item) (rest : List Byte) (va : U32) : Directive :=
  ⟨i.flags, digitsOf i.width, shownOf i.width, dotOf i.precision, i.length.mods, i.value.c, rest,
    va⟩

/-- What a conversion ends with. -/
def Ends (c : Byte) : Prop := ismodifier c = false ∧ c ≠ chr '6' ∧ chr '@' < c

instance (c : Byte) : Decidable (Ends c) := inferInstanceAs (Decidable (_ ∧ _))

theorem Copied.amount {b : Spec} {t : List Byte} (h : Copied b t) (a : Option Amount)
    (hlen : t.length + (amountText a).length ≤ 40)
    (hstar : ∀ v, a = some (.star v) → t.length + (decimal (starOf v)).length < 32) :
    ∃ b₁ b₂, b.puts (digitsOf a) = some b₁ ∧ b₁.printStar (shownOf a) = some b₂ ∧
      Copied b₂ (t ++ amountText a) := by
  cases a with
  | none => exact ⟨b, b, rfl, rfl, by rwa [amountText, List.append_nil]⟩
  | some a =>
    cases a with
    | lit ds =>
      obtain ⟨b', hputs, h'⟩ := h.puts ds hlen
      exact ⟨b', b', hputs, rfl, h'⟩
    | star v =>
      obtain ⟨b', hprint, h'⟩ := h.print (hstar v rfl)
      exact ⟨b, b', rfl, hprint, h'⟩

/-- The text of a precision. -/
def Item.pointText (i : Item) : Option (List Byte) := i.precision.map fun a => amountText (some a)

theorem Item.Kept.copied {i : Item} {wide : Bool} (hk : i.Kept wide) (rest : List Byte) (va : U32)
    (cells : List Byte) (hcells : cells.length = 40) :
    ∃ b, (i.directive rest va).assemble cells = some b ∧
      Copied b (chr '%' :: (i.flags ++ (i.widthText ++ point i.pointText))) := by
  have hlen := hk.width
  have hstart : Copied ⟨cells, 0⟩ [] := ⟨hcells, rfl, rfl⟩
  obtain ⟨b₁, h₁, hc₁⟩ := hstart.put (by decide) (chr '%')
  obtain ⟨b₂, h₂, hc₂⟩ := hc₁.puts i.flags
    (by rw [List.length_append, List.length_singleton, List.length_nil]; omega)
  have hflags : ([] ++ [chr '%'] ++ i.flags).length = 1 + i.flags.length := by
    rw [List.length_append]
    rfl
  obtain ⟨b₃, b₄, h₃, h₄, hc₄⟩ := hc₂.amount i.width
    (by rw [hflags]; exact Nat.le_trans hlen (by decide))
    (fun v hv => by
      have hstar := hk.star v hv
      rw [Item.widthText, hv] at hstar
      rw [hflags]
      exact hstar)
  have hwidth : ([] ++ [chr '%'] ++ i.flags ++ amountText i.width).length =
      1 + i.flags.length + i.widthText.length := by
    rw [List.length_append, hflags]
    rfl
  unfold Directive.assemble Item.directive Item.pointText
  simp only [Option.bind_eq_bind, h₁, h₂, h₃, h₄, Option.bind_some]
  cases hp : i.precision with
  | none =>
    refine ⟨b₄, rfl, ?_⟩
    simpa [point, Item.widthText] using hc₄
  | some a =>
    obtain ⟨b₅, h₅, hc₅⟩ := hc₄.put (by rw [hwidth]; omega) (chr '.')
    have hdot : ([] ++ [chr '%'] ++ i.flags ++ amountText i.width ++ [chr '.']).length =
        1 + i.flags.length + i.widthText.length + 1 := by
      rw [List.length_append, hwidth]
      rfl
    obtain ⟨b₆, b₇, h₆, h₇, hc₇⟩ := hc₅.amount (some a)
      (by
        rw [hdot]
        cases a with
        | star v =>
          have hstar := (hk.precision v hp).2
          show _ + (decimal (starOf v)).length ≤ 40
          omega
        | lit ds =>
          cases ds with
          | nil => exact Nat.le_trans (Nat.succ_le_succ hlen) (by decide)
          | cons d ds =>
            have hlit := hk.lit _ hp (List.cons_ne_nil d ds)
            show _ + (d :: ds).length ≤ 40
            omega)
      (fun v hv => by
        rw [hdot]
        exact (hk.precision v (hp.trans hv)).2)
    refine ⟨b₇, ?_, ?_⟩
    · simp only [dotOf, h₅, h₆, h₇, Option.bind_some]
    · simpa [point, Item.widthText] using hc₇

section Convert

variable {i : Item} {m : Mem} {wide : Bool}

/-- What a conversion puts to the output is its meaning, and it takes one more argument. -/
structure Converts (i : Item) (wide : Bool) (r : Option (List Byte × U32)) (va : U32) : Prop where
  some : ∃ bs : List Byte, r = some (bs, va) ∧ bs.map (·.setWidth 16) = i.text wide

end Convert

-- ---------------------------------------------------------------------------
-- The loop
-- ---------------------------------------------------------------------------

section Loop

variable {m : Mem} {wide : Bool}

end Loop

/-- `"%-*d|%s%%"` with 5, 42 and a string. -/
def row : List Piece :=
  [.item ⟨str "-", some (.star 5), none, .none, .int (chr 'd') 42⟩, .plain (chr '|'),
    .item ⟨[], none, none, .none, .text false (str "hi") 280⟩, .percent]

end WineGlass.Formats
