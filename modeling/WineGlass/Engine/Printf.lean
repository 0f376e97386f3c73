import WineGlass.Engine.Strings
import WineGlass.Lib.CFormat

/-!
# The formatter behind the `printf` family

`wg_guest_vsprintf` takes a conversion apart, puts it together again in an array of 40 bytes for
the host's `snprintf`, and collects the text in an array of 8192. None is an access outside an
array, or past the end of the format.
-/

namespace WineGlass.Printf

open CStrings Units Strings CFormat

abbrev U32 := BitVec 32

-- ---------------------------------------------------------------------------
-- The conversion as it is read
-- ---------------------------------------------------------------------------

def isflag (c : Byte) : Bool := (str "-+ 0#").contains c

def ismodifier (c : Byte) : Bool := (str "hljztLwI").contains c

structure Mods where
  len64 : Bool
  narrowMod : Bool
  wideMod : Bool
  deriving DecidableEq, Repr

/-- The loop over the length modifiers, with the characters still to be passed. -/
def modifiers : List Byte → Nat → Mods → Mods × List Byte
  | [], _, m => (m, [])
  | _ :: s, skip + 1, m => modifiers s skip m
  | c :: s, 0, m =>
    if ismodifier c then
      if c = chr 'l' ∧ s.head? = some (chr 'l') then modifiers s 1 { m with len64 := true }
      else if c = chr 'l' ∨ c = chr 'w' then modifiers s 0 { m with wideMod := true }
      else if c = chr 'j' ∨ c = chr 'z' ∨ c = chr 't' then modifiers s 0 { m with len64 := true }
      else if c = chr 'h' then modifiers s 0 { m with narrowMod := true }
      else if c = chr 'I' ∧ s.take 2 = str "64" then modifiers s 2 { m with len64 := true }
      else modifiers s 0 m
    else (m, c :: s)

/-- A conversion: what is copied of it, with the numbers for its stars; its character, zero at the
end of the format; and the format and the arguments after it. -/
structure Directive where
  flags : List Byte
  width : List Byte
  star : Option (List Byte)
  dot : Option (List Byte × Option (List Byte))
  mods : Mods
  c : Byte
  rest : List Byte
  va : U32
  deriving DecidableEq, Repr

/-- What `wg_va_next` reads. -/
def vaNext (m : Mem) (va : U32) : U64 := unit 8 m va.toNat 0

/-- The number for a star, when there is one. -/
def readStar (m : Mem) (s : List Byte) (va : U32) : Option (List Byte) × List Byte × U32 :=
  if s.head? = some (chr '*') then
    (some (decimal ((vaNext m va).setWidth 32).toInt), s.drop 1, va + 8)
  else (none, s, va)

/-- The part of the loop that reads a conversion after its `%`. -/
def readDirective (m : Mem) (s : List Byte) (va : U32) : Directive :=
  let flags := (s.takeWhile isflag).take 31
  let s := s.drop flags.length
  let width := (s.takeWhile isdigit).take (31 - flags.length)
  let s := s.drop width.length
  let (star, s, va) := readStar m s va
  let si := 1 + flags.length + width.length + (star.getD []).length
  let (dot, s, va) :=
    if s.head? = some (chr '.') then
      let s := s.drop 1
      let ds := (s.takeWhile isdigit).take (31 - si)
      let s := s.drop ds.length
      let (star, s, va) := readStar m s va
      (some (ds, star), s, va)
    else (none, s, va)
  let (mods, s) := modifiers s 0 ⟨false, false, false⟩
  ⟨flags, width, star, dot, mods, s.headD 0, s.drop 1, va⟩

-- ---------------------------------------------------------------------------
-- The conversion as it is put together
-- ---------------------------------------------------------------------------

/-- `spec` and `si`. -/
structure Spec where
  cells : List Byte
  si : Nat
  deriving DecidableEq, Repr

/-- `spec[si++] = c` -/
def Spec.put (b : Spec) (c : Byte) : Option Spec :=
  if b.si < 40 then some ⟨b.cells.set b.si c, b.si + 1⟩ else none

def Spec.puts (b : Spec) (cs : List Byte) : Option Spec := cs.foldlM Spec.put b

/-- `si += snprintf(spec + si, 32 - si, ...)`, where the size is not to be negative. -/
def Spec.print (b : Spec) (t : List Byte) : Option Spec :=
  let wrote := if b.si < 32 then t.take (31 - b.si) ++ [0] else []
  if b.si ≤ 32 then
    some ⟨b.cells.take b.si ++ wrote ++ b.cells.drop (b.si + wrote.length), b.si + t.length⟩
  else none

/-- `spec[si] = 0`, and the string then in the array. -/
def Spec.finish (b : Spec) : Option (List Byte) := (b.put 0).map fun b => cstr b.cells

def Spec.printStar (b : Spec) : Option (List Byte) → Option Spec
  | none => some b
  | some t => b.print t

def Directive.assemble (d : Directive) (cells : List Byte) : Option Spec := do
  let b ← Spec.put ⟨cells, 0⟩ (chr '%')
  let b ← b.puts d.flags
  let b ← b.puts d.width
  let b ← b.printStar d.star
  match d.dot with
  | none => some b
  | some (ds, star) =>
    let b ← b.put (chr '.')
    let b ← b.puts ds
    b.printStar star

/-- What the source gets from outside: the text of the host's `snprintf` for a conversion and the
64 bits of its argument, and what is in `spec` before a conversion, of which the rest of the format
is given. -/
structure Host where
  snprintf : List Byte → U64 → List Byte
  junk : List Byte → Nat → Byte

/-- A character of a wide string. -/
def narrow (c : BitVec 16) : Byte := if c < 128 then c.setWidth 8 else chr '?'

/-- The `switch`: what is put to the output, and the arguments left. -/
def Directive.convert (d : Directive) (host : Host) (m : Mem) (wide : Bool) :
    Option (List Byte × U32) := do
  let spec ← d.assemble ((List.range 40).map (host.junk d.rest))
  let v := vaNext m d.va
  let next := d.va + 8
  if (str "diuxXo").contains d.c then
    let v := if d.mods.len64 then v
      else if d.c = chr 'd' ∨ d.c = chr 'i' then (v.setWidth 32).signExtend 64
      else (v.setWidth 32).setWidth 64
    let spec ← spec.puts [chr 'l', chr 'l', d.c]
    let spec ← spec.finish
    some ((host.snprintf spec v).take 599, next)
  else if d.c = chr 'p' then some (str "0x" ++ digits 16 true v.toNat, next)
  else if (str "cC").contains d.c then some ([v.setWidth 8], next)
  else if (str "fFgGeEaA").contains d.c then
    let spec ← spec.put d.c
    let spec ← spec.finish
    some ((host.snprintf spec v).take 599, next)
  else if (str "sS").contains d.c then
    let p : U32 := v.setWidth 32
    let argwide := if wide then !d.mods.narrowMod else d.mods.wideMod
    let argwide := if d.c = chr 'S' then !argwide else argwide
    let text := if argwide then (readWstr 2048 m p).map narrow else readCstr 2048 m p
    some (text, next)
  else some (chr '%' :: if d.c = 0 then [] else [d.c], d.va)

-- ---------------------------------------------------------------------------
-- The formatter
-- ---------------------------------------------------------------------------

/-- Where the loop is: the format from `i`, the output, and the arguments left. -/
structure State where
  fmt : List Byte
  out : List Byte
  va : U32
  deriving DecidableEq, Repr

/-- What is put to `out` at `oi`, with the limit at the end of the loop. -/
def State.emit (t : State) (text : List Byte) (fmt : List Byte) (va : U32) : Option State :=
  if t.out.length < 8192 then some ⟨fmt, (t.out ++ text).take 8191, va⟩ else none

/-- One turn of the loop at a character of the format. At the end of the format the turn is one
past it. -/
def State.turn (t : State) (host : Host) (m : Mem) (wide : Bool) (c : Byte) (s : List Byte) :
    Option State :=
  if c ≠ chr '%' then t.emit [c] s t.va
  else if s.head? = some (chr '%') then t.emit [chr '%'] (s.drop 1) t.va
  else
    let d := readDirective m s t.va
    match d.convert host m wide with
    | none => none
    | some (text, va) => if d.c = 0 then none else t.emit text d.rest va

/-- The loop, for a format of up to `n` characters. -/
def scan (host : Host) (m : Mem) (wide : Bool) : Nat → State → Option State
  | 0, t => some t
  | n + 1, t =>
    match t.fmt with
    | [] => some t
    | c :: s =>
      if t.out.length < 8191 then
        match t.turn host m wide c s with
        | none => none
        | some t => scan host m wide n t
      else some t

/-- What is written to the guest. -/
inductive Written
  | nothing
  | wide (us : List (BitVec 16))
  | narrow (us : List Byte)
  deriving DecidableEq, Repr

def formatOf (m : Mem) (wide : Bool) (fmt : U32) : List Byte :=
  if wide then (readWstr 2048 m fmt).map narrow else readCstr 2048 m fmt

def written (wide alloc : Bool) (buf count : U32) (out : List Byte) : Written :=
  if buf ≠ 0 ∧ count ≠ 0 then
    let n := if count.toNat ≤ out.length then count.toNat - 1 else out.length
    if wide then if alloc then .wide ((out.take n).map (·.setWidth 16) ++ [0]) else .nothing
    else .narrow ((out ++ [0]).take (n + 1))
  else .nothing

/-- `wg_guest_vsprintf`: what it writes, and the length it returns. -/
def vsprintf (host : Host) (alloc : Bool) (m : Mem) (wide : Bool) (buf count fmt va : U32) :
    Option (Written × Nat) :=
  let fmt := formatOf m wide fmt
  (scan host m wide fmt.length ⟨fmt, [], va⟩).map fun t =>
    (written wide alloc buf count t.out, t.out.length)

-- ---------------------------------------------------------------------------
-- What it stands for
-- ---------------------------------------------------------------------------

/-- A conversion takes this much of `spec` up to its precision, and in all. -/
def Directive.before (d : Directive) : Nat :=
  1 + d.flags.length + d.width.length + (d.star.getD []).length

def Directive.size (d : Directive) : Nat :=
  d.before + d.dot.elim 0 fun dot => 1 + dot.1.length + (dot.2.getD []).length

/-- The conversion is whole, its point is in `spec`, there are 32 bytes up to a star for the
precision, and there is room for what the host's conversion has at its end. -/
structure Directive.Fits (d : Directive) : Prop where
  ends : d.c ≠ 0
  point : ∀ dot ∈ d.dot, d.before < 40
  star : ∀ dot ∈ d.dot, dot.2.isSome → d.before + 1 + dot.1.length ≤ 32
  int : (str "diuxXo").contains d.c → d.size ≤ 36
  double : (str "fFgGeEaA").contains d.c → d.size ≤ 38

/-- The conversion at hand, if one is, fits. -/
def State.Fits (t : State) (m : Mem) : Prop :=
  ∀ c s, t.fmt = c :: s → t.out.length < 8191 → c = chr '%' → s.head? ≠ some (chr '%') →
    (readDirective m s t.va).Fits

/-- The states of the loop from a state on. -/
inductive Reached (host : Host) (m : Mem) (wide : Bool) (t₀ : State) : State → Prop
  | start : Reached host m wide t₀ t₀
  | turn : Reached host m wide t₀ t → t.fmt = c :: s → t.out.length < 8191 →
      t.turn host m wide c s = some t' → Reached host m wide t₀ t'

/-- The loop stops here. -/
def State.Done (t : State) : Prop := t.fmt = [] ∨ 8191 ≤ t.out.length

/-- What is written is at most `count` elements and ends with a zero. -/
def Written.Ended (w : Written) (count : U32) : Prop :=
  match w with
  | .nothing => True
  | .wide us => us.length ≤ count.toNat ∧ us.getLast? = some 0
  | .narrow us => us.length ≤ count.toNat ∧ us.getLast? = some 0

/-- No access is outside an array, and what is written is ended. -/
def Safe (r : Option (Written × Nat)) (count : U32) : Prop := ∃ w n, r = some (w, n) ∧ w.Ended count

/-- The end of a narrow text is written when there is room for it, or when a character there is
zero itself. -/
def Room (wide : Bool) (buf count : U32) (out : List Byte) : Prop :=
  wide = true ∨ buf = 0 ∨ count = 0 ∨ out.length < count.toNat ∨ out[count.toNat - 1]? = some 0

-- ---------------------------------------------------------------------------
-- The array of a conversion
-- ---------------------------------------------------------------------------

theorem puts_eq (b : Spec) (cs : List Byte) (h : b.si + cs.length ≤ 40) :
    ∃ b', b.puts cs = some b' ∧ b'.si = b.si + cs.length := by
  induction cs generalizing b with
  | nil => exact ⟨b, rfl, rfl⟩
  | cons c cs ih =>
    rw [List.length_cons] at h
    obtain ⟨b', hb, hsi⟩ := ih ⟨b.cells.set b.si c, b.si + 1⟩ (by dsimp only; omega)
    refine ⟨b', ?_, ?_⟩
    · rw [Spec.puts, List.foldlM_cons, Spec.put, if_pos (by omega)]
      exact hb
    · rw [hsi, List.length_cons]
      dsimp only
      omega

theorem puts_some {b b' : Spec} {cs : List Byte} (h : b.puts cs = some b') :
    b'.si = b.si + cs.length ∧ (cs ≠ [] → b'.si ≤ 40) := by
  induction cs generalizing b with
  | nil =>
    cases h
    exact ⟨rfl, fun hne => absurd rfl hne⟩
  | cons c cs ih =>
    rw [Spec.puts, List.foldlM_cons, Spec.put] at h
    split at h
    · rename_i hlt
      obtain ⟨hsi, hle⟩ := ih h
      dsimp only at hsi
      refine ⟨by rw [hsi, List.length_cons]; omega, fun _ => ?_⟩
      cases cs with
      | nil => rw [hsi, List.length_nil]; omega
      | cons d ds => exact hle (List.cons_ne_nil d ds)
    · cases h

theorem printStar_eq (b : Spec) (star : Option (List Byte)) (h : star.isSome → b.si ≤ 32) :
    ∃ b', b.printStar star = some b' ∧ b'.si = b.si + (star.getD []).length := by
  cases star with
  | none => exact ⟨b, rfl, rfl⟩
  | some t => exact ⟨_, if_pos (h rfl), rfl⟩

/-- What the loops leave room for. -/
structure Directive.Bounded (d : Directive) : Prop where
  width : 1 + d.flags.length + d.width.length ≤ 32
  dot : ∀ dot ∈ d.dot, dot.1.length ≤ 31 - d.before

theorem readDirective_bounded (m : Mem) (s : List Byte) (va : U32) :
    (readDirective m s va).Bounded := by
  have hflags := List.length_take_le 31 (s.takeWhile isflag)
  unfold readDirective
  dsimp only
  generalize (s.takeWhile isflag).take 31 = flags at *
  have hwidth := List.length_take_le (31 - flags.length) ((s.drop flags.length).takeWhile isdigit)
  generalize ((s.drop flags.length).takeWhile isdigit).take (31 - flags.length) = width at *
  generalize readStar m _ va = x
  obtain ⟨star, s, va⟩ := x
  dsimp only
  split
  · refine ⟨by dsimp only; omega, ?_⟩
    rintro dot ⟨⟩
    exact List.length_take_le ..
  · refine ⟨by dsimp only; omega, ?_⟩
    rintro dot ⟨⟩

theorem modifiers_suffix (s : List Byte) (skip : Nat) (mods : Mods) :
    (modifiers s skip mods).2 <:+ s := by
  induction s generalizing skip mods with
  | nil => exact List.suffix_rfl
  | cons c s ih =>
    have hnext : ∀ skip mods, (modifiers s skip mods).2 <:+ c :: s := fun skip mods =>
      (ih skip mods).trans (List.suffix_cons c s)
    cases skip with
    | succ skip => exact hnext skip mods
    | zero =>
      rw [modifiers]
      split
      · split
        · exact hnext ..
        · split
          · exact hnext ..
          · split
            · exact hnext ..
            · split
              · exact hnext ..
              · split <;> exact hnext ..
      · exact List.suffix_rfl

theorem readStar_suffix (m : Mem) (s : List Byte) (va : U32) : (readStar m s va).2.1 <:+ s := by
  rw [readStar]
  split
  · exact List.drop_suffix ..
  · exact List.suffix_rfl

/-- What follows a conversion is the end of the format. -/
theorem readDirective_rest (m : Mem) (s : List Byte) (va : U32) :
    (readDirective m s va).rest <:+ s := by
  unfold readDirective
  dsimp only
  have hflags := List.drop_suffix ((s.takeWhile isflag).take 31).length s
  generalize (s.takeWhile isflag).take 31 = flags at *
  generalize s.drop flags.length = s₁ at *
  have hwidth := List.drop_suffix ((s₁.takeWhile isdigit).take (31 - flags.length)).length s₁
  generalize (s₁.takeWhile isdigit).take (31 - flags.length) = width at *
  generalize s₁.drop width.length = s₂ at *
  have hstar := readStar_suffix m s₂ va
  generalize readStar m s₂ va = x at *
  obtain ⟨star, s₃, va₃⟩ := x
  have hs₃ : s₃ <:+ s := hstar.trans (hwidth.trans hflags)
  dsimp only
  split
  · generalize ((s₃.drop 1).takeWhile isdigit).take _ = ds
    have hds : (s₃.drop 1).drop ds.length <:+ s :=
      (List.drop_suffix ..).trans ((List.drop_suffix ..).trans hs₃)
    generalize (s₃.drop 1).drop ds.length = s₄ at *
    have hstar := readStar_suffix m s₄ va₃
    generalize readStar m s₄ va₃ = x at *
    obtain ⟨star, s₅, va₅⟩ := x
    exact (List.drop_suffix ..).trans ((modifiers_suffix ..).trans (hstar.trans hds))
  · exact (List.drop_suffix ..).trans ((modifiers_suffix ..).trans hs₃)

/-- The conversion is put together when the point and a star after it are in their bounds. -/
def Directive.Placed (d : Directive) : Prop :=
  ∀ dot ∈ d.dot, d.before < 40 ∧ (dot.2.isSome → d.before + 1 + dot.1.length ≤ 32)

theorem assemble_eq {d : Directive} (hb : d.Bounded) (cells : List Byte) :
    (d.Placed → ∃ b, d.assemble cells = some b ∧ b.si = d.size) ∧
      (¬ d.Placed → d.assemble cells = none) := by
  obtain ⟨hwidth, hdot⟩ := hb
  obtain ⟨b₁, h₁, hsi₁⟩ := puts_eq ⟨cells.set 0 (chr '%'), 1⟩ d.flags (by dsimp only; omega)
  obtain ⟨b₂, h₂, hsi₂⟩ := puts_eq b₁ d.width (by dsimp only at hsi₁; omega)
  obtain ⟨b₃, h₃, hsi₃⟩ := printStar_eq b₂ d.star fun _ => by dsimp only at hsi₁; omega
  have hbefore : b₃.si = d.before := by
    rw [hsi₃, hsi₂, hsi₁]
    rfl
  have hput : Spec.put ⟨cells, 0⟩ (chr '%') = some ⟨cells.set 0 (chr '%'), 1⟩ := rfl
  unfold Directive.assemble Directive.Placed Directive.size
  simp only [hput, h₁, h₂, h₃, Option.bind_eq_bind, Option.bind_some]
  cases hd : d.dot with
  | none => simp [hbefore]
  | some dot =>
    obtain ⟨ds, star⟩ := dot
    have hds := hdot (ds, star) hd
    dsimp only at hds ⊢
    by_cases hpoint : d.before < 40
    · obtain ⟨b₄, h₄, hsi₄⟩ := puts_eq ⟨b₃.cells.set b₃.si (chr '.'), b₃.si + 1⟩ ds
        (by dsimp only; omega)
      dsimp only at hsi₄
      rw [Spec.put, if_pos (by omega), Option.bind_some, h₄, Option.bind_some]
      by_cases hstar : star.isSome → d.before + 1 + ds.length ≤ 32
      · obtain ⟨b₅, h₅, hsi₅⟩ := printStar_eq b₄ star fun h => by have := hstar h; omega
        refine ⟨fun _ => ⟨b₅, h₅, ?_⟩, fun h => absurd ?_ h⟩
        · rw [hsi₅, hsi₄, hbefore, Option.elim_some]
          dsimp only
          omega
        · rintro _ ⟨⟩
          exact ⟨hpoint, hstar⟩
      · refine ⟨fun h => absurd (h _ rfl).2 hstar, fun _ => ?_⟩
        cases star with
        | none => exact absurd (fun h => by cases h) hstar
        | some t =>
          simp only [Option.isSome_some, forall_const] at hstar
          exact if_neg (by omega)
    · refine ⟨fun h => absurd (h _ rfl).1 hpoint, fun _ => ?_⟩
      rw [Spec.put, if_neg (by omega), Option.bind_none]

theorem puts_finish (b : Spec) (c : Byte) (cs : List Byte) :
    ((b.puts (cs ++ [c])).bind Spec.finish).isSome ↔ b.si + cs.length + 1 < 40 := by
  by_cases h : b.si + (cs ++ [c]).length ≤ 40
  · obtain ⟨b', hb, hsi⟩ := puts_eq b (cs ++ [c]) h
    rw [List.length_append, List.length_singleton] at h hsi
    rw [hb, Option.bind_some, Spec.finish, Option.isSome_map, Spec.put]
    split
    · exact iff_of_true rfl (by omega)
    · exact iff_of_false Bool.false_ne_true (by omega)
  · rw [List.length_append, List.length_singleton] at h
    refine iff_of_false (fun hs => ?_) (by omega)
    obtain ⟨x, hx⟩ := Option.isSome_iff_exists.1 hs
    obtain ⟨b', hb, -⟩ := Option.bind_eq_some_iff.1 hx
    obtain ⟨hsi, hle⟩ := puts_some hb
    have hlen := hle (by simp)
    rw [hsi, List.length_append, List.length_singleton] at hlen
    omega

theorem isSome_finish (o : Option Spec) (f : List Byte → β) :
    (o.bind fun b => b.finish.bind fun t => some (f t)).isSome = (o.bind Spec.finish).isSome := by
  cases o with
  | none => rfl
  | some b =>
    rw [Option.bind_some, Option.bind_some]
    cases b.finish <;> rfl

/-- No conversion is one of an integer and of a floating-point number. -/
theorem int_not_double {c : Byte} (h : (str "diuxXo").contains c) :
    (str "fFgGeEaA").contains c = false := by
  have hmem : c ∈ [chr 'd', chr 'i', chr 'u', chr 'x', chr 'X', chr 'o'] :=
    List.contains_iff_mem.1 h
  simp only [List.mem_cons, List.not_mem_nil, or_false] at hmem
  rcases hmem with rfl | rfl | rfl | rfl | rfl | rfl <;> rfl

theorem double_not_char {c : Byte} (h : (str "fFgGeEaA").contains c) :
    c ≠ chr 'p' ∧ (str "cC").contains c = false := by
  have hmem : c ∈ [chr 'f', chr 'F', chr 'g', chr 'G', chr 'e', chr 'E', chr 'a', chr 'A'] :=
    List.contains_iff_mem.1 h
  simp only [List.mem_cons, List.not_mem_nil, or_false] at hmem
  rcases hmem with rfl | rfl | rfl | rfl | rfl | rfl | rfl | rfl <;> decide

/-- A conversion is done without an access outside `spec` when it fits. -/
theorem convert_iff {d : Directive} (hb : d.Bounded) (host : Host) (m : Mem) (wide : Bool) :
    (d.convert host m wide).isSome ∧ d.c ≠ 0 ↔ d.Fits := by
  obtain ⟨hplaced, hnot⟩ := assemble_eq hb ((List.range 40).map (host.junk d.rest))
  by_cases hp : d.Placed
  · obtain ⟨b, hasm, hsi⟩ := hplaced hp
    have hfits : d.Fits ↔ d.c ≠ 0 ∧ ((str "diuxXo").contains d.c → d.size ≤ 36) ∧
        ((str "fFgGeEaA").contains d.c → d.size ≤ 38) :=
      ⟨fun h => ⟨h.ends, h.int, h.double⟩, fun ⟨he, hi, hd⟩ =>
        ⟨he, fun dot hdot => (hp dot hdot).1, fun dot hdot => (hp dot hdot).2, hi, hd⟩⟩
    rw [hfits, and_comm]
    refine and_congr_right fun hc => ?_
    have hint := puts_finish b d.c [chr 'l', chr 'l']
    have hdouble := puts_finish b d.c []
    rw [hsi] at hint hdouble
    unfold Directive.convert
    simp only [hasm, Option.bind_eq_bind, Option.bind_some]
    cases hi : (str "diuxXo").contains d.c with
    | true =>
      rw [if_pos rfl, int_not_double hi, isSome_finish]
      simp only [List.length_cons, List.length_nil] at hint
      refine hint.trans ?_
      simp only [true_implies, Bool.false_eq_true, false_implies, and_true]
      omega
    | false =>
      rw [if_neg Bool.false_ne_true]
      cases hd : (str "fFgGeEaA").contains d.c with
      | true =>
        obtain ⟨hp, hc⟩ := double_not_char hd
        rw [if_neg hp, hc, if_neg Bool.false_ne_true, if_pos rfl]
        have hone : b.puts ([] ++ [d.c]) = b.put d.c := by simp [Spec.puts]
        rw [hone] at hdouble
        rw [isSome_finish]
        simp only [List.length_nil] at hdouble
        refine hdouble.trans ?_
        simp only [Bool.false_eq_true, false_implies, true_implies, true_and]
        omega
      | false =>
        simp only [Bool.false_eq_true, false_implies, and_true, iff_true, if_false]
        split
        · rfl
        · split
          · rfl
          · split <;> rfl
  · refine iff_of_false (fun h => ?_) fun h =>
      hp fun dot hdot => ⟨h.point dot hdot, h.star dot hdot⟩
    rw [Directive.convert, hnot hp] at h
    cases h.1

-- ---------------------------------------------------------------------------
-- The loop
-- ---------------------------------------------------------------------------

section Loop

variable {host : Host} {m : Mem} {wide : Bool}

theorem turn_iff {t : State} (hfmt : t.fmt = c :: s) (hout : t.out.length < 8191) :
    (t.turn host m wide c s).isSome ↔ t.Fits m := by
  have hemit : ∀ text fmt va, t.emit text fmt va = some ⟨fmt, (t.out ++ text).take 8191, va⟩ :=
    fun _ _ _ => if_pos (Nat.lt_succ_of_lt hout)
  have hfits : t.Fits m ↔
      (c = chr '%' → s.head? ≠ some (chr '%') → (readDirective m s t.va).Fits) :=
    ⟨fun h => h c s hfmt hout, fun h d u hd _ => by
      rw [hfmt] at hd
      cases hd
      exact h⟩
  rw [hfits, State.turn]
  split
  · rename_i hc
    rw [hemit]
    exact iff_of_true rfl fun h => absurd h hc
  · rename_i hc
    split
    · rename_i hs
      rw [hemit]
      exact iff_of_true rfl fun _ h => absurd hs h
    · rename_i hs
      rw [← convert_iff (readDirective_bounded m s t.va) host m wide]
      simp only [not_not.1 hc, hs, ne_eq, not_false_iff, true_implies]
      cases (readDirective m s t.va).convert host m wide with
      | none => simp
      | some x =>
        simp only [hemit, Option.isSome_some, true_and]
        split
        · rename_i hz
          exact iff_of_false Bool.false_ne_true fun h => h hz
        · rename_i hz
          exact iff_of_true rfl hz

/-- A turn takes the format further. -/
theorem turn_length {t t' : State} (h : t.turn host m wide c s = some t') :
    t'.fmt.length ≤ s.length := by
  have hemit : ∀ text fmt va, t.emit text fmt va = some t' → t'.fmt = fmt := by
    intro text fmt va he
    rw [State.emit] at he
    split at he
    · cases he
      rfl
    · cases he
  rw [State.turn] at h
  split at h
  · rw [hemit _ _ _ h]
  · split at h
    · rw [hemit _ _ _ h]
      exact (List.drop_suffix 1 s).length_le
    · dsimp only at h
      split at h
      · cases h
      · split at h
        · cases h
        · rw [hemit _ _ _ h]
          exact (readDirective_rest m s t.va).length_le

theorem reached_done {t t' : State} (hd : t.Done) (h : Reached host m wide t t') : t' = t := by
  induction h with
  | start => rfl
  | turn _ hfmt hout _ ih =>
    rw [ih] at hfmt hout
    rcases hd with hnil | hfull
    · rw [hnil] at hfmt
      cases hfmt
    · exact absurd hout (Nat.not_lt.2 hfull)

theorem Reached.trans {t t' t'' : State} (h : Reached host m wide t t')
    (h' : Reached host m wide t' t'') : Reached host m wide t t'' := by
  induction h' with
  | start => exact h
  | turn _ hfmt hout hturn ih => exact .turn ih hfmt hout hturn

/-- There is one way to go on. -/
theorem reached_turn {t t' t₁ : State} (hfmt : t.fmt = c :: s) (hout : t.out.length < 8191)
    (hturn : t.turn host m wide c s = some t₁) :
    Reached host m wide t t' ↔ t' = t ∨ Reached host m wide t₁ t' := by
  constructor
  · intro h
    induction h with
    | start => exact .inl rfl
    | turn _ hfmt' hout' hturn' ih =>
      rcases ih with rfl | ih
      · rw [hfmt] at hfmt'
        cases hfmt'
        rw [hturn] at hturn'
        cases hturn'
        exact .inr .start
      · exact .inr (.turn ih hfmt' hout' hturn')
  · rintro (rfl | h)
    · exact .start
    · exact (Reached.turn .start hfmt hout hturn).trans h

/-- The loop is done when every conversion that it comes to fits. -/
theorem scan_iff {t : State} (hn : t.fmt.length ≤ n) :
    (scan host m wide n t).isSome ↔ ∀ t', Reached host m wide t t' → t'.Fits m := by
  have hdone : ∀ t : State, t.Done → ∀ t', Reached host m wide t t' → t'.Fits m := by
    rintro t hd t' h c s hfmt hout
    rw [reached_done hd h] at hfmt hout
    rcases hd with hnil | hfull
    · rw [hnil] at hfmt
      cases hfmt
    · exact absurd hout (Nat.not_lt.2 hfull)
  induction n generalizing t with
  | zero => exact iff_of_true rfl (hdone t (.inl (List.length_eq_zero_iff.1 (Nat.le_zero.1 hn))))
  | succ n ih =>
    rw [scan]
    cases hfmt : t.fmt with
    | nil => exact iff_of_true rfl (hdone t (.inl hfmt))
    | cons c s =>
      dsimp only
      split
      · rename_i hout
        have hfits : (t.turn host m wide c s).isSome ↔ t.Fits m := turn_iff hfmt hout
        cases hturn : t.turn host m wide c s with
        | none =>
          rw [hturn] at hfits
          exact iff_of_false Bool.false_ne_true fun h => Bool.false_ne_true (hfits.2 (h t .start))
        | some t₁ =>
          rw [hturn] at hfits
          have hlen := turn_length hturn
          rw [hfmt, List.length_cons] at hn
          simp only [reached_turn hfmt hout hturn, forall_eq_or_imp]
          exact (ih (Nat.le_trans hlen (Nat.le_of_succ_le_succ hn))).trans
            (and_iff_right (hfits.1 rfl)).symm
      · rename_i hout
        exact iff_of_true rfl (hdone t (.inr (Nat.not_lt.1 hout)))

/-- The loop ends where it is done. -/
theorem scan_reached {t t' : State} (hn : t.fmt.length ≤ n) (h : scan host m wide n t = some t') :
    Reached host m wide t t' ∧ t'.Done := by
  induction n generalizing t with
  | zero =>
    cases h
    exact ⟨.start, .inl (List.length_eq_zero_iff.1 (Nat.le_zero.1 hn))⟩
  | succ n ih =>
    rw [scan] at h
    cases hfmt : t.fmt with
    | nil =>
      rw [hfmt] at h
      cases h
      exact ⟨.start, .inl hfmt⟩
    | cons c s =>
      rw [hfmt] at h hn
      dsimp only at h
      split at h
      · rename_i hout
        cases hturn : t.turn host m wide c s with
        | none =>
          rw [hturn] at h
          cases h
        | some t₁ =>
          rw [hturn] at h
          have hlen := Nat.le_trans (turn_length hturn) (Nat.le_of_succ_le_succ hn)
          obtain ⟨hreached, hdone⟩ := ih hlen h
          exact ⟨(Reached.turn .start hfmt hout hturn).trans hreached, hdone⟩
      · rename_i hout
        cases h
        exact ⟨.start, .inr (Nat.not_lt.1 hout)⟩

/-- There is one end. -/
theorem reached_end {t₀ t t' : State} (h : Reached host m wide t₀ t) (hd : t.Done)
    (h' : Reached host m wide t₀ t') : Reached host m wide t' t := by
  induction h' with
  | start => exact h
  | turn _ hfmt hout hturn ih =>
    rcases (reached_turn hfmt hout hturn).1 ih with rfl | hnext
    · rcases hd with hnil | hfull
      · rw [hnil] at hfmt
        cases hfmt
      · exact absurd hout (Nat.not_lt.2 hfull)
    · exact hnext

end Loop

theorem written_ended {wide alloc : Bool} {buf count : U32} {out : List Byte} :
    (written wide alloc buf count out).Ended count ↔ Room wide buf count out := by
  unfold written Room
  split
  · rename_i hboth
    have hcount : 0 < count.toNat := by
      have hne := hboth.2
      bv_omega
    cases wide with
    | true =>
      refine iff_of_true ?_ (.inl rfl)
      cases alloc with
      | false => trivial
      | true =>
        refine ⟨?_, by simp⟩
        simp only [List.length_append, List.length_map, List.length_take, List.length_singleton]
        split <;> omega
    | false =>
      simp only [Bool.false_eq_true, hboth.1, hboth.2, false_or, if_false]
      split
      · rename_i hle
        have htake : (out ++ [0]).take (count.toNat - 1 + 1) = out.take count.toNat := by
          rw [Nat.sub_add_cancel hcount, List.take_append_of_le_length hle]
        rw [htake]
        have hlen : (out.take count.toNat).length = count.toNat := List.length_take_of_le hle
        rw [Written.Ended, hlen, List.getLast?_eq_getElem?, hlen,
          List.getElem?_take_of_lt (by omega)]
        exact ⟨fun h => .inr h.2, fun h => ⟨Nat.le_refl _, h.resolve_left (by omega)⟩⟩
      · rename_i hlt
        have htake : (out ++ [0]).take (out.length + 1) = out ++ [0] :=
          List.take_of_length_le (by simp)
        rw [htake]
        refine iff_of_true ⟨?_, by simp⟩ (.inl (by omega))
        rw [List.length_append, List.length_singleton]
        omega
  · rename_i hnone
    refine iff_of_true trivial (.inr ?_)
    rw [not_and_or, not_not, not_not] at hnone
    exact hnone.imp_right .inl

/-- The formatter is safe when every conversion it comes to fits, and the narrow text has room for
its end. -/
theorem printf_law (host : Host) (alloc : Bool) (m : Mem) (wide : Bool) (buf count fmt va : U32) :
    Safe (vsprintf host alloc m wide buf count fmt va) count ↔
      ∀ t, Reached host m wide ⟨formatOf m wide fmt, [], va⟩ t →
        t.Fits m ∧ (t.Done → Room wide buf count t.out) := by
  have hn := Nat.le_refl (formatOf m wide fmt).length
  have hiff : (scan host m wide _ ⟨formatOf m wide fmt, [], va⟩).isSome ↔
      ∀ t, Reached host m wide _ t → t.Fits m := scan_iff hn
  unfold Safe vsprintf
  constructor
  · rintro ⟨w, n, hr, hend⟩ t ht
    obtain ⟨t', hscan, hw⟩ := Option.map_eq_some_iff.1 hr
    cases hw
    refine ⟨hiff.1 (by rw [hscan]; rfl) t ht, fun hd => ?_⟩
    obtain ⟨hreached, hdone⟩ := scan_reached hn hscan
    rw [reached_done hd (reached_end hreached hdone ht)] at hend
    exact written_ended.1 hend
  · intro hall
    obtain ⟨t, hscan⟩ := Option.isSome_iff_exists.1 (hiff.2 fun t ht => (hall t ht).1)
    obtain ⟨hreached, hdone⟩ := scan_reached hn hscan
    exact ⟨_, _, congrArg (Option.map _) hscan, written_ended.2 ((hall t hreached).2 hdone)⟩

/-- A format from address 1 on, and its arguments from 256. -/
def page (fmt args : List Byte) : Mem := fun i =>
  if i < 256 then fmt.getD (i - 1) 0 else args.getD (i - 256) 0

/-- A host that has no text for anything. -/
def silent : Host := ⟨fun _ _ => [], fun _ _ => 0⟩

/-- The number for a star is put behind thirty flags, and a narrow text that fills the buffer has
no end. -/
theorem formatter_faults :
    vsprintf silent true (page (str "%000000000000000000000000000000*d") [0, 0, 0, 0x80]) false
        512 100 1 256 = none ∧
      ¬ Safe (vsprintf silent true (page (str "ab") []) false 512 2 1 256) 2 := by
  have hr : vsprintf silent true (page (str "ab") []) false 512 2 1 256 =
      some (.narrow (str "ab"), 2) := rfl
  refine ⟨rfl, ?_⟩
  rw [hr]
  rintro ⟨w, n, h, hend⟩
  cases h
  exact absurd hend.2 (by decide)

end WineGlass.Printf
