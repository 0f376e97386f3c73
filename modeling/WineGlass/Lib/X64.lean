import Mathlib.Logic.Function.Basic
import WineGlass.Lib.Word

/-!
# A few instructions of x86-64

Code in 64-bit mode as far as short functions written by hand need it: what is below is decoded
from its bytes and executed. A function runs to its own `ret`; what it calls is given from
outside, so that a run is the list of its calls and the machine that it leaves. Of the flags
those are kept that the branches look at.
-/

namespace X64

open Word

abbrev Byte := BitVec 8
abbrev U32 := BitVec 32
abbrev U64 := BitVec 64
abbrev Mem := U64 → Byte

def read64 (mem : Mem) (a : U64) : U64 :=
  BitVec.ofNat 64 (word (fun i => mem (a + BitVec.ofNat 64 i)) 8)

def write64 (mem : Mem) (a v : U64) : Mem := fun x =>
  if (x - a).toNat < 8 then byteAt v.toNat (x - a).toNat else mem x

-- ---------------------------------------------------------------------------
-- Memory
-- ---------------------------------------------------------------------------

theorem read64_congr (h : ∀ i < 8, mem (a + BitVec.ofNat 64 i) = mem' (a + BitVec.ofNat 64 i)) :
    read64 mem a = read64 mem' a := by
  rw [read64, read64, word_congr h]

theorem offset_toNat (h : i < 2 ^ 64) : (a + BitVec.ofNat 64 i - a).toNat = i := by
  rw [BitVec.add_comm, BitVec.add_sub_cancel, BitVec.toNat_ofNat, Nat.mod_eq_of_lt h]

theorem read_write : read64 (write64 mem a v) a = v := by
  have hbyte : ∀ i < 8, write64 mem a v (a + BitVec.ofNat 64 i) = byteAt v.toNat i := fun i hi => by
    rw [write64, offset_toNat (by omega), if_pos hi]
  have hv : v.toNat < 256 ^ 8 := v.isLt
  rw [read64, word_congr hbyte, word_byteAt, Nat.mod_eq_of_lt hv, BitVec.ofNat_toNat,
    BitVec.setWidth_eq]

theorem write_outside (h : ¬ (x - a).toNat < 8) : write64 mem a v x = mem x := if_neg h

theorem read_write_apart (h : ∀ i < 8, ¬ (b + BitVec.ofNat 64 i - a).toNat < 8) :
    read64 (write64 mem a v) b = read64 mem b := read64_congr fun i hi => write_outside (h i hi)

-- ---------------------------------------------------------------------------
-- Instructions
-- ---------------------------------------------------------------------------

abbrev Reg := Fin 16

abbrev rax : Reg := 0
abbrev rcx : Reg := 1
abbrev rdx : Reg := 2
abbrev rbx : Reg := 3
abbrev rsp : Reg := 4
abbrev rsi : Reg := 6

/-- `xor` is of the low halves, and the immediates are sign-extended bytes. -/
inductive Insn
  | push (r : Reg)
  | pop (r : Reg)
  | mov (dst src : Reg)
  | load (dst base : Reg)
  | cmp (a b : Reg)
  | test (a b : Reg)
  | add (r : Reg) (imm : Byte)
  | sub (r : Reg) (imm : Byte)
  | xor (dst src : Reg)
  | jae (rel : Byte)
  | jz (rel : Byte)
  | jmp (rel : Byte)
  | call (r : Reg)
  | ret
  | hlt
  deriving DecidableEq, Repr

/-- The fields of a ModRM byte without a REX extension; `mod` is 3 for a register. -/
def modField (b : Byte) : Nat := b.toNat / 64
def regField (b : Byte) : Reg := Fin.ofNat 16 (b.toNat / 8 % 8)
def rmField (b : Byte) : Reg := Fin.ofNat 16 (b.toNat % 8)

/-- The instructions with REX.W. -/
def decodeWide (op modrm imm : Byte) : Option (Insn × Nat) :=
  let reg := regField modrm
  let rm := rmField modrm
  if modField modrm = 3 then
    if op = 0x89 then some (.mov rm reg, 3)
    else if op = 0x39 then some (.cmp rm reg, 3)
    else if op = 0x85 then some (.test rm reg, 3)
    else if op = 0x83 ∧ reg = 0 then some (.add rm imm, 4)
    else if op = 0x83 ∧ reg = 5 then some (.sub rm imm, 4)
    else none
  -- Numbers 4 and 5 stand for an SIB byte and a displacement here.
  else if modField modrm = 0 ∧ op = 0x8B ∧ rm ≠ 4 ∧ rm ≠ 5 then some (.load reg rm, 3)
  else none

/-- The instruction that begins with four bytes, and its length. -/
def decode (b₀ b₁ b₂ b₃ : Byte) : Option (Insn × Nat) :=
  if b₀.toNat / 8 = 0x50 / 8 then some (.push (rmField b₀), 1)
  else if b₀.toNat / 8 = 0x58 / 8 then some (.pop (rmField b₀), 1)
  else if b₀ = 0x48 then decodeWide b₁ b₂ b₃
  else if b₀ = 0x31 ∧ modField b₁ = 3 then some (.xor (rmField b₁) (regField b₁), 2)
  else if b₀ = 0xFF ∧ modField b₁ = 3 ∧ regField b₁ = 2 then some (.call (rmField b₁), 2)
  else if b₀ = 0x73 then some (.jae b₁, 2)
  else if b₀ = 0x74 then some (.jz b₁, 2)
  else if b₀ = 0xEB then some (.jmp b₁, 2)
  else if b₀ = 0xC3 then some (.ret, 1)
  else if b₀ = 0xF4 then some (.hlt, 1)
  else none

structure Machine where
  regs : Reg → U64
  rip : U64
  cf : Bool
  zf : Bool
  mem : Mem

def Machine.set (m : Machine) (r : Reg) (v : U64) : Machine :=
  { m with regs := Function.update m.regs r v }

def Machine.push (m : Machine) (v : U64) : Machine :=
  { m.set rsp (m.regs rsp - 8) with mem := write64 m.mem (m.regs rsp - 8) v }

def Machine.eax (m : Machine) : U32 := (m.regs rax).setWidth 32

/-- What an instruction comes to: the next one of the function, the first one of another, or the
one behind the call of the function. -/
inductive Next
  | go (m : Machine)
  | call (m : Machine)
  | ret (m : Machine)

/-- `m` is at the next instruction already. -/
def Machine.exec (m : Machine) : Insn → Option Next
  | .push r => some (.go (m.push (m.regs r)))
  | .pop r =>
    some (.go ((m.set rsp (m.regs rsp + 8)).set r (read64 m.mem (m.regs rsp))))
  | .mov dst src => some (.go (m.set dst (m.regs src)))
  | .load dst base => some (.go (m.set dst (read64 m.mem (m.regs base))))
  | .cmp a b =>
    some (.go { m with cf := decide (m.regs a < m.regs b), zf := m.regs a == m.regs b })
  | .test a b => some (.go { m with cf := false, zf := m.regs a &&& m.regs b == 0 })
  | .add r imm =>
    let v := m.regs r + imm.signExtend 64
    some (.go { m.set r v with cf := decide (v < m.regs r), zf := v == 0 })
  | .sub r imm =>
    let v := m.regs r - imm.signExtend 64
    some (.go { m.set r v with cf := decide (m.regs r < imm.signExtend 64), zf := v == 0 })
  | .xor dst src =>
    let v := (m.regs dst).setWidth 32 ^^^ (m.regs src).setWidth 32
    some (.go { m.set dst (v.setWidth 64) with cf := false, zf := v == 0 })
  | .jae rel => some (.go (if m.cf then m else { m with rip := m.rip + rel.signExtend 64 }))
  | .jz rel => some (.go (if m.zf then { m with rip := m.rip + rel.signExtend 64 } else m))
  | .jmp rel => some (.go { m with rip := m.rip + rel.signExtend 64 })
  | .call r => some (.call { m.push m.rip with rip := m.regs r })
  | .ret => some (.ret { m.set rsp (m.regs rsp + 8) with rip := read64 m.mem (m.regs rsp) })
  | .hlt => none

def Machine.step (m : Machine) : Option Next :=
  (decode (m.mem m.rip) (m.mem (m.rip + 1)) (m.mem (m.rip + 2)) (m.mem (m.rip + 3))).bind
    fun i => Machine.exec { m with rip := m.rip + BitVec.ofNat 64 i.2 } i.1

-- ---------------------------------------------------------------------------
-- Functions
-- ---------------------------------------------------------------------------

/-- A call: the machine at the first instruction of what is called, and when that has
returned. -/
structure Call where
  entry : Machine
  after : Machine

/-- The rest of a function that has made `k` calls. -/
def run (callee : Nat → Machine → Machine) : (fuel k : Nat) → Machine →
    Option (List Call × Machine)
  | 0, _, _ => none
  | fuel + 1, k, m => m.step.bind fun next =>
    match next with
    | .go m => run callee fuel k m
    | .call m =>
      (run callee fuel (k + 1) (callee k m)).map fun r => (⟨m, callee k m⟩ :: r.1, r.2)
    | .ret m => some ([], m)

section
variable {callee : Nat → Machine → Machine}

theorem run_go (h : m.step = some (.go m')) :
    run callee (fuel + 1) k m = run callee fuel k m' := by
  rw [run, h]
  rfl

theorem run_call (h : m.step = some (.call m')) : run callee (fuel + 1) k m =
    (run callee fuel (k + 1) (callee k m')).map fun r => (⟨m', callee k m'⟩ :: r.1, r.2) := by
  rw [run, h]
  rfl

theorem run_ret (h : m.step = some (.ret m')) : run callee (fuel + 1) k m = some ([], m') := by
  rw [run, h]
  rfl

theorem run_succ (h : run callee fuel k m = some r) : run callee (fuel + 1) k m = some r := by
  induction fuel generalizing k m r with
  | zero => cases h
  | succ fuel ih =>
    rw [run] at h ⊢
    obtain ⟨next, hnext, h⟩ := Option.bind_eq_some_iff.1 h
    rw [hnext, Option.bind_some]
    cases next with
    | go m' => exact ih h
    | ret m' => exact h
    | call m' =>
      obtain ⟨r', hr', he⟩ := Option.map_eq_some_iff.1 h
      exact Option.map_eq_some_iff.2 ⟨r', ih hr', he⟩

/-- A function has one run. -/
theorem run_unique (h : run callee fuel k m = some r) (h' : run callee fuel' k m = some r') :
    r = r' := by
  have hmore : ∀ {f r}, run callee f k m = some r → ∀ n, run callee (f + n) k m = some r := by
    intro f r h n
    induction n with
    | zero => exact h
    | succ n ih => exact run_succ ih
  have hboth := hmore h fuel'
  rw [Nat.add_comm, hmore h' fuel] at hboth
  exact (Option.some.inj hboth).symm

end

/-- The registers that a call need not keep, the stack pointer aside. -/
def scratch : List Reg := [rax, rcx, rdx, 8, 9, 10, 11]

/-- What the convention of Windows asks of a function that is entered as `m` and left as `m'`:
it returns, and keeps the registers that are not scratch ones and, of its caller's stack, `n`
bytes behind the 32 that it may use. -/
structure Returns (n : Nat) (m m' : Machine) : Prop where
  returned : m'.rip = read64 m.mem (m.regs rsp)
  popped : m'.regs rsp = m.regs rsp + 8
  saved : ∀ r ∉ scratch, r ≠ rsp → m'.regs r = m.regs r
  stack : ∀ i < n, m'.mem (m.regs rsp + BitVec.ofNat 64 (40 + i)) =
    m.mem (m.regs rsp + BitVec.ofNat 64 (40 + i))

end X64
