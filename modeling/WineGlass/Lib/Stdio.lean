import Mathlib.Algebra.Ring.Int.Defs
import Mathlib.Algebra.Ring.Nat
import Mathlib.Data.List.Basic

/-!
# Streams

Files and the binary streams of ISO C over them, one stream at a time. Between input and
output a stream must be positioned, unless the input met the end of the file: what a stream
does otherwise is left open, and is `none` here.
-/

namespace Stdio

/-- What is under a path; `nowhere` has no directory for it. -/
inductive Node (β : Type u)
  | nowhere
  | absent
  | file (content : List β)
  deriving DecidableEq, Repr

def Node.bytes : Node β → List β
  | .file c => c
  | _ => []

inductive Mode
  | rb | rbPlus | wb | wbPlus | abPlus
  deriving DecidableEq, Repr

inductive Last
  | none
  | input (atEnd : Bool)
  | output
  deriving DecidableEq, Repr

structure Stream where
  readable : Bool
  writable : Bool
  append : Bool
  pos : Nat
  last : Last
  deriving DecidableEq, Repr

def Mode.stream (m : Mode) (pos : Nat) : Stream where
  readable := m ≠ .wb
  writable := m ≠ .rb
  append := m = .abPlus
  pos
  last := .none

/-- Whether an append stream starts at the end of the file is for the implementation to
define, and `endFirst` here. -/
def fopen (m : Mode) (endFirst : Bool) : Node β → Option (Stream × List β)
  | .nowhere => none
  | .absent => if m = .rb ∨ m = .rbPlus then none else some (m.stream 0, [])
  | .file c =>
    if m = .wb ∨ m = .wbPlus then some (m.stream 0, [])
    else some (m.stream (if m = .abPlus ∧ endFirst then c.length else 0), c)

/-- The bytes of `c` from `pos` on replaced, and a gap before them filled. -/
def overwrite (fill : β) (c : List β) (pos : Nat) (bs : List β) : List β :=
  c.take pos ++ List.replicate (pos - c.length) fill ++ bs ++ c.drop (pos + bs.length)

/-- What is read, and the stream after. -/
def fread (c : List β) (f : Stream) (n : Nat) : Option (List β × Stream) :=
  if n = 0 then some ([], f)
  else if f.last = .output then none
  else if !f.readable then some ([], f)
  else
    let bs := (c.drop f.pos).take n
    some (bs, { f with pos := f.pos + bs.length, last := .input (decide (bs.length < n)) })

/-- How many are written, the file and the stream after. -/
def fwrite (fill : β) (c : List β) (f : Stream) (bs : List β) : Option (Nat × List β × Stream) :=
  if bs.isEmpty then some (0, c, f)
  else if f.last = .input false then none
  else if !f.writable then some (0, c, f)
  else
    let pos := if f.append then c.length else f.pos
    some (bs.length, overwrite fill c pos bs, { f with pos := pos + bs.length, last := .output })

inductive Whence
  | set | cur | last
  deriving DecidableEq, Repr

def Whence.origin (c : List β) (f : Stream) : Whence → Nat
  | .set => 0
  | .cur => f.pos
  | .last => c.length

/-- A position before the start is refused. -/
def fseek (c : List β) (f : Stream) (offset : Int) (w : Whence) : Stream :=
  let target := w.origin c f + offset
  if target < 0 then f else { f with pos := target.toNat, last := .none }

theorem length_overwrite (fill : β) (c : List β) (pos : Nat) (bs : List β) :
    (overwrite fill c pos bs).length = max c.length (pos + bs.length) := by
  simp only [overwrite, List.length_append, List.length_take, List.length_replicate,
    List.length_drop]
  omega

/-- A byte after a write is one of those written or the one there before. -/
theorem getD_overwrite (fill : β) (c : List β) (pos : Nat) (bs : List β) (k : Nat) :
    (overwrite fill c pos bs).getD k fill =
      if pos ≤ k ∧ k < pos + bs.length then bs.getD (k - pos) fill else c.getD k fill := by
  have hfront : (c.take pos ++ List.replicate (pos - c.length) fill).length = pos := by
    simp only [List.length_append, List.length_take, List.length_replicate]
    omega
  have hnew : (c.take pos ++ List.replicate (pos - c.length) fill ++ bs).length = pos + bs.length := by
    rw [List.length_append, hfront]
  simp only [overwrite, List.getD_eq_getElem?_getD]
  by_cases hlow : k < pos
  · rw [if_neg (by omega), List.getElem?_append_left (by omega), List.getElem?_append_left (by omega)]
    by_cases hc : k < c.length
    · rw [List.getElem?_append_left (by rw [List.length_take]; omega), List.getElem?_take_of_lt hlow]
    · rw [List.getElem?_append_right (by rw [List.length_take]; omega), List.getElem?_replicate,
        List.getElem?_eq_none (Nat.not_lt.1 hc)]
      split <;> rfl
  · by_cases hin : k < pos + bs.length
    · rw [if_pos ⟨Nat.not_lt.1 hlow, hin⟩, List.getElem?_append_left (by omega),
        List.getElem?_append_right (by omega), hfront]
    · rw [if_neg (by omega), List.getElem?_append_right (by omega), hnew, List.getElem?_drop,
        Nat.add_sub_cancel' (Nat.not_lt.1 hin)]

theorem overwrite_ext (fill : β) {c c' : List β} (hlen : c.length = c'.length)
    (h : ∀ k, c.getD k fill = c'.getD k fill) : c = c' := by
  refine List.ext_getElem hlen fun k hk hk' => ?_
  have hget := h k
  simpa [List.getD_eq_getElem?_getD, hk, hk'] using hget

/-- Writes that are apart commute. -/
theorem overwrite_comm {fill : β} {c as bs : List β} {p q : Nat}
    (h : p + as.length ≤ q ∨ q + bs.length ≤ p) :
    overwrite fill (overwrite fill c p as) q bs = overwrite fill (overwrite fill c q bs) p as := by
  refine overwrite_ext fill ?_ fun k => ?_
  · simp only [length_overwrite]
    omega
  · simp only [getD_overwrite]
    by_cases ha : p ≤ k ∧ k < p + as.length
    · rw [if_pos ha, if_neg (by omega), if_pos ha]
    · rw [if_neg ha, if_neg ha]

/-- Two writes one after the other are one. -/
theorem overwrite_overwrite (fill : β) (c : List β) (pos : Nat) (as bs : List β) :
    overwrite fill (overwrite fill c pos as) (pos + as.length) bs =
      overwrite fill c pos (as ++ bs) := by
  have hlen := length_overwrite fill c pos as
  have hgap : pos + as.length - (overwrite fill c pos as).length = 0 := by omega
  have hfront : (c.take pos ++ List.replicate (pos - c.length) fill ++ as).length =
      pos + as.length := by
    simp only [List.length_append, List.length_take, List.length_replicate]
    omega
  have htake : (overwrite fill c pos as).take (pos + as.length) =
      c.take pos ++ List.replicate (pos - c.length) fill ++ as := by
    rw [overwrite, ← hfront, List.take_left]
  have hdrop : (overwrite fill c pos as).drop (pos + as.length + bs.length) =
      c.drop (pos + (as.length + bs.length)) := by
    rw [overwrite, ← List.drop_drop, ← hfront, List.drop_left, List.drop_drop, hfront, Nat.add_assoc]
  rw [overwrite, hgap, htake, hdrop, overwrite]
  simp

/-- A write as ISO C fixes it: a stream that may write, after no input short of the end,
and that stands at the end if it appends. -/
structure Stream.Writes (c : List β) (f : Stream) : Prop where
  writable : f.writable = true
  turned : f.last ≠ .input false
  atEnd : f.append = true → f.pos = c.length

def Stream.wrote (f : Stream) (n : Nat) : Stream := { f with pos := f.pos + n, last := .output }

theorem Stream.Writes.fwrite {c : List β} (h : f.Writes c) (fill : β) (hbs : bs ≠ []) :
    fwrite fill c f bs = some (bs.length, overwrite fill c f.pos bs, f.wrote bs.length) := by
  have hpos : (if f.append then c.length else f.pos) = f.pos := by
    split
    · rename_i ha
      exact (h.atEnd ha).symm
    · rfl
  have hne : bs.isEmpty = false := by simpa using hbs
  simp [Stdio.fwrite, hne, h.turned, h.writable, hpos, Stream.wrote]

/-- After a write the stream may write on. -/
theorem Stream.Writes.next {c : List β} {f : Stream} (h : f.Writes c) (fill : β) (bs : List β) :
    (f.wrote bs.length).Writes (overwrite fill c f.pos bs) := by
  refine ⟨h.writable, nofun, fun ha => ?_⟩
  have hpos := h.atEnd ha
  show f.pos + bs.length = _
  rw [length_overwrite]
  omega

end Stdio
