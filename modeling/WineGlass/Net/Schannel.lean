import Mathlib.Algebra.Ring.Nat
import Mathlib.Data.List.Basic

/-!
# Schannel

What the handlers of `wg_schannel.c` share: the buffers of a guest's message, and a context
with the callbacks that SecureTransport reads and writes through. SecureTransport is not part
of the source; a session of it is a value of a type `σ`.
-/

namespace WineGlass.Schannel

abbrev Byte := BitVec 8
abbrev U32 := BitVec 32
abbrev U64 := BitVec 64

/-- A `SecBuffer` with the `cbBuffer` bytes it stands for, in memory of its own. -/
structure SecBuf where
  bufferType : U32
  pvBuffer : U32
  bytes : List Byte
  small : bytes.length < 2 ^ 32
  deriving DecidableEq, Repr

def SecBuf.size (b : SecBuf) : Nat := b.bytes.length

/-- `WGTlsCtx`, less its descriptor, which is never opened. -/
structure Ctx (σ : Type) where
  active : Bool
  ssl : Option σ
  inBuf : List Byte
  inPos : Nat
  outBuf : List Byte
  handshakeDone : Bool
  credHandle : U64
  ctxHandle : U64

variable {σ : Type}

/-- `buf_read_cb` for `len` bytes; nothing is `errSSLWouldBlock`. -/
def Ctx.bufReadCb (c : Ctx σ) (len : Nat) : List Byte × Ctx σ :=
  let copy := min len (c.inBuf.length - c.inPos)
  ((c.inBuf.drop c.inPos).take copy, { c with inPos := c.inPos + copy })

/-- A number of calls of the callback, with the bytes they give. -/
def Ctx.pull (c : Ctx σ) : List Nat → List Byte × Ctx σ
  | [] => ([], c)
  | n :: ns =>
    let (bs, c) := c.bufReadCb n
    let (bs', c) := c.pull ns
    (bs ++ bs', c)

theorem pull_eq (c : Ctx σ) (ns : List Nat) : c.pull ns =
    ((c.inBuf.drop c.inPos).take ns.sum,
      { c with inPos := c.inPos + min ns.sum (c.inBuf.length - c.inPos) }) := by
  induction ns generalizing c with
  | nil => simp [Ctx.pull]
  | cons n ns ih =>
    have hcopy : (c.inBuf.drop c.inPos).take (min n (c.inBuf.length - c.inPos)) =
        (c.inBuf.drop c.inPos).take n := by
      rw [← List.length_drop, ← List.take_eq_take_min]
    have hrest : c.inBuf.drop (c.inPos + min n (c.inBuf.length - c.inPos)) =
        (c.inBuf.drop c.inPos).drop n := by
      rcases Nat.le_total n (c.inBuf.length - c.inPos) with hle | hle
      · rw [Nat.min_eq_left hle, List.drop_drop]
      · rw [Nat.min_eq_right hle, List.drop_eq_nil_of_le (by omega),
          List.drop_eq_nil_of_le (by rw [List.length_drop]; omega)]
    have hpos : min n (c.inBuf.length - c.inPos) +
        min ns.sum (c.inBuf.length - (c.inPos + min n (c.inBuf.length - c.inPos))) =
        min (n + ns.sum) (c.inBuf.length - c.inPos) := by omega
    simp only [Ctx.pull, Ctx.bufReadCb, ih, hcopy, hrest, List.sum_cons, ← List.take_add,
      Nat.add_assoc, hpos]

/-- `buf_write_cb` -/
def Ctx.bufWriteCb (c : Ctx σ) (data : List Byte) : Ctx σ := { c with outBuf := c.outBuf ++ data }

theorem bufWriteCb_outBuf (c : Ctx σ) (chunks : List (List Byte)) :
    (chunks.foldl Ctx.bufWriteCb c).outBuf = c.outBuf ++ chunks.flatten := by
  induction chunks generalizing c with
  | nil => simp
  | cons x xs ih => simp [ih, Ctx.bufWriteCb]

/-- The sessions the handlers go on with. -/
def Ctx.session (c : Ctx σ) : Option σ := if c.handshakeDone then c.ssl else none

end WineGlass.Schannel
