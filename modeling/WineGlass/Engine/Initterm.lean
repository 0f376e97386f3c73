import WineGlass.Lib.X64

/-!
# The initialisers of the CRT

The code that `map_initterm_tramp` maps, to which the thunks of `_initterm` and `_initterm_e`
jump: a loop over the table of initialisers. Each turn comes to the next with the caller's frame
as it was (`turn_null`, `turn_call`), so that the whole table is called whatever the initialisers
answer, which `_initterm` asks for and `_initterm_e` does not (`initterm_law`).
-/

namespace WineGlass.Initterm

open X64

def tramp : List Byte :=
  [0x53, 0x56, 0x48, 0x89, 0xCB, 0x48, 0x89, 0xD6,
    -- loop
    0x48, 0x39, 0xF3, 0x73, 0x18, 0x48, 0x8B, 0x03, 0x48, 0x85, 0xC0, 0x74, 0x0A,
    0x48, 0x83, 0xEC, 0x28, 0xFF, 0xD0, 0x48, 0x83, 0xC4, 0x28,
    -- next
    0x48, 0x83, 0xC3, 0x08, 0xEB, 0xE3,
    -- done
    0x31, 0xC0, 0x5E, 0x5B, 0xC3]

/-- The page, with HLT for the rest. -/
def page (i : Nat) : Byte := tramp.getD i 0xF4

def mapInittermTramp (mem : Mem) (addr : U64) : Mem := fun x =>
  if (x - addr).toNat < 0x1000 then page (x - addr).toNat else mem x

/-- The page is at `addr`. -/
def Mapped (addr : U64) (mem : Mem) : Prop :=
  ∀ i < 0x1000, mem (addr + BitVec.ofNat 64 i) = page i

theorem mapInittermTramp_mapped (mem : Mem) (addr : U64) :
    Mapped addr (mapInittermTramp mem addr) := fun i hi => by
  rw [mapInittermTramp, offset_toNat (by omega), if_pos hi]

/-- What the thunk of either function does: the registers and the stack are the caller's. -/
def enter (addr : U64) (m : Machine) : Machine := { m with rip := addr }

-- ---------------------------------------------------------------------------
-- Tables and initialisers
-- ---------------------------------------------------------------------------

/-- How many entries there are from `first` to `last`. -/
def entryCount (first last : U64) : Nat := (last.toNat - first.toNat) / 8

/-- Entry `k`. -/
def entry (mem : Mem) (first : U64) (k : Nat) : U64 := read64 mem (first + BitVec.ofNat 64 (8 * k))

def table (mem : Mem) (first last : U64) : List U64 :=
  (List.range (entryCount first last)).map (entry mem first)

/-- The entries that are called. -/
def initialisers (mem : Mem) (first last : U64) : List U64 :=
  (table mem first last).filter (· != 0)

/-- What a guest calls: `addr` holds the code, and the table and the code are apart from the part
of the stack that is free. -/
structure Entered (addr first last : U64) (m : Machine) : Prop where
  code : Mapped addr m.mem
  inRcx : m.regs rcx = first
  inRdx : m.regs rdx = last
  aligned : (m.regs rsp).toNat % 16 = 8
  whole : 8 ∣ last.toNat - first.toNat
  codeApart : ∀ i < 0x1000, ∀ j < 64,
    addr + BitVec.ofNat 64 i ≠ m.regs rsp - 64 + BitVec.ofNat 64 j
  tableApart : ∀ i < 8 * entryCount first last, ∀ j < 64,
    first + BitVec.ofNat 64 i ≠ m.regs rsp - 64 + BitVec.ofNat 64 j

/-- Initialisers that keep the calling convention where the stack pointer is `sp`, and leave the
code and the table. `answer` is what each call leaves in EAX. -/
structure Inits (addr first last sp : U64) where
  call : Nat → Machine → Machine
  answer : Nat → U32
  returns : ∀ k m, m.regs rsp = sp → Returns 32 m (call k m)
  answers : ∀ k m, m.regs rsp = sp → (call k m).eax = answer k
  code : ∀ k m, m.regs rsp = sp → ∀ i < 0x1000,
    (call k m).mem (addr + BitVec.ofNat 64 i) = m.mem (addr + BitVec.ofNat 64 i)
  table : ∀ k m, m.regs rsp = sp → ∀ i < 8 * entryCount first last,
    (call k m).mem (first + BitVec.ofNat 64 i) = m.mem (first + BitVec.ofNat 64 i)

/-- The stack pointer at the initialisers' first instructions. -/
def low (m : Machine) : U64 := m.regs rsp - 64

/-- The functions that jump here. -/
inductive Fn
  | initterm
  | inittermE

/-- All calls up to the first that fails, whose answer is the result. -/
def UpToFailure : List U64 → List (U64 × U32) → U32 → Prop
  | [], calls, result => calls = [] ∧ result = 0
  | _ :: _, [], _ => False
  | t :: ts, c :: calls, result =>
    c.1 = t ∧ if c.2 = 0 then UpToFailure ts calls result else calls = [] ∧ result = c.2

/-- The calls and the result that a function owes for a table, calls being targets with what they
answer. -/
def Fn.Right : Fn → List U64 → List (U64 × U32) → U32 → Prop
  | .initterm, ts, calls, result => calls.map Prod.fst = ts ∧ result = 0
  | .inittermE, ts, calls, result => UpToFailure ts calls result

/-- At a call the stack pointer is aligned, and 32 bytes are free that are not of the frame of the
caller: the return address and the two registers below it. -/
structure Ready (m c : Machine) : Prop where
  aligned : (c.regs rsp + 8).toNat % 16 = 0
  shadow : ∀ i < 32, ∀ j < 24, c.regs rsp + BitVec.ofNat 64 (8 + i) ≠
    m.regs rsp - 16 + BitVec.ofNat 64 j

/-- The code does what the function is to do. -/
def Meets (f : Fn) (addr first last : U64) (m : Machine)
    (inits : Inits addr first last (low m)) : Prop :=
  ∃ fuel calls m', run inits.call fuel 0 (enter addr m) = some (calls, m') ∧
    f.Right (initialisers m.mem first last) (calls.map fun c => (c.entry.rip, c.after.eax))
      m'.eax ∧
    (∀ c ∈ calls, Ready m c.entry) ∧ Returns 0 m m'

-- ---------------------------------------------------------------------------
-- The code
-- ---------------------------------------------------------------------------

/-- Where byte `i` of the code is. -/
def pc (addr : U64) (i : Nat) : U64 := addr + BitVec.ofNat 64 i

theorem pc_add : pc addr i + BitVec.ofNat 64 n = pc addr (i + n) := by
  rw [pc, pc, BitVec.add_assoc, BitVec.ofNat_add]

/-- The instruction at byte `i` is executed. -/
theorem step_at {m : Machine} (i : Nat) (insn : Insn) (len : Nat) (h : Mapped addr m.mem)
    (hrip : m.rip = pc addr i) (hi : i + 3 < 0x1000)
    (hd : decode (page i) (page (i + 1)) (page (i + 2)) (page (i + 3)) = some (insn, len)) :
    m.step = Machine.exec { m with rip := pc addr (i + len) } insn := by
  have hbyte : ∀ n < 4, m.mem (m.rip + BitVec.ofNat 64 n) = page (i + n) := fun n hn => by
    rw [hrip, pc_add]
    exact h (i + n) (by omega)
  have h0 : m.mem m.rip = page i := by
    have := hbyte 0 (by decide)
    rwa [BitVec.add_zero] at this
  rw [Machine.step, h0, show (1 : U64) = BitVec.ofNat 64 1 from rfl, hbyte 1 (by decide),
    show (2 : U64) = BitVec.ofNat 64 2 from rfl, hbyte 2 (by decide),
    show (3 : U64) = BitVec.ofNat 64 3 from rfl, hbyte 3 (by decide), hd, Option.bind_some, hrip,
    pc_add]

-- ---------------------------------------------------------------------------
-- The stack
-- ---------------------------------------------------------------------------

/-- Places of the stack that do not overlap. -/
theorem places_apart (base : U64) (d e : Nat) (h : d + 8 ≤ e ∨ e + 8 ≤ d) (hd : d ≤ 128) (he : e ≤ 128) (hi : i < 8) :
    ¬ (base + BitVec.ofNat 64 e + BitVec.ofNat 64 i - (base + BitVec.ofNat 64 d)).toNat < 8 := by
  simp only [BitVec.toNat_sub, BitVec.toNat_add, BitVec.toNat_ofNat]
  have := base.isLt
  omega

/-- What is apart from the free stack is not written by a push. -/
theorem not_pushed (h : ∀ j < 64, x ≠ base + BitVec.ofNat 64 j) (hd : d + 8 ≤ 64) :
    ¬ (x - (base + BitVec.ofNat 64 d)).toNat < 8 := by
  intro hlt
  refine h (d + (x - (base + BitVec.ofNat 64 d)).toNat) (by omega) ?_
  rw [BitVec.ofNat_add, ← BitVec.add_assoc, BitVec.ofNat_toNat, BitVec.setWidth_eq, BitVec.add_comm,
    BitVec.sub_add_cancel]

section
variable {addr first last : U64} {m₀ m : Machine}

/-- The machine `m` in the loop with entry `k` to come, in a call that began as `m₀`. -/
structure InLoop (addr first last : U64) (m₀ m : Machine) (k : Nat) : Prop where
  next : m.regs rbx = first + BitVec.ofNat 64 (8 * k)
  limit : m.regs rsi = last
  stack : m.regs rsp = m₀.regs rsp - 16
  saved : ∀ r ∉ scratch, r ≠ rsp → r ≠ rbx → r ≠ rsi → m.regs r = m₀.regs r
  oldRsi : read64 m.mem (m₀.regs rsp - 16) = m₀.regs rsi
  oldRbx : read64 m.mem (m₀.regs rsp - 8) = m₀.regs rbx
  back : read64 m.mem (m₀.regs rsp) = read64 m₀.mem (m₀.regs rsp)
  code : Mapped addr m.mem
  table : ∀ i < 8 * entryCount first last,
    m.mem (first + BitVec.ofNat 64 i) = m₀.mem (first + BitVec.ofNat 64 i)

/-- The stack pointer of the caller and the places below it, counted from the lowest one. -/
theorem stack_places (sp : U64) : sp - 64 + BitVec.ofNat 64 64 = sp ∧
    sp - 64 + BitVec.ofNat 64 56 = sp - 8 ∧ sp - 64 + BitVec.ofNat 64 48 = sp - 16 := by
  refine ⟨?_, ?_, ?_⟩ <;> bv_omega

/-- What the pushes leave of the memory. -/
structure Pushed (sp : U64) (mem mem' : Mem) (bx si : U64) : Prop where
  free : ∀ x, (∀ j < 64, x ≠ sp - 64 + BitVec.ofNat 64 j) → mem' x = mem x
  oldRsi : read64 mem' (sp - 16) = si
  oldRbx : read64 mem' (sp - 8) = bx
  back : read64 mem' sp = read64 mem sp

theorem pushed (sp : U64) (mem : Mem) (bx si : U64) :
    Pushed sp mem (write64 (write64 mem (sp - 8) bx) (sp - 16) si) bx si := by
  obtain ⟨htop, hbx, hsi⟩ := stack_places sp
  have hsi_bx : ∀ i < 8, ¬ (sp - 8 + BitVec.ofNat 64 i - (sp - 16)).toNat < 8 := fun i hi => by
    rw [← hbx, ← hsi]
    exact places_apart _ _ _ (by decide) (by decide) (by decide) hi
  have hsi_top : ∀ i < 8, ¬ (sp + BitVec.ofNat 64 i - (sp - 16)).toNat < 8 := fun i hi => by
    have := places_apart (sp - 64) 48 64 (by decide) (by decide) (by decide) hi
    rwa [htop, hsi] at this
  have hbx_top : ∀ i < 8, ¬ (sp + BitVec.ofNat 64 i - (sp - 8)).toNat < 8 := fun i hi => by
    have := places_apart (sp - 64) 56 64 (by decide) (by decide) (by decide) hi
    rwa [htop, hbx] at this
  refine ⟨fun x hx => ?_, read_write, (read_write_apart hsi_bx).trans read_write,
    (read_write_apart hsi_top).trans (read_write_apart hbx_top)⟩
  rw [← hbx, ← hsi, write_outside (not_pushed hx (by decide)),
    write_outside (not_pushed hx (by decide))]

/-- The two pushes and the two moves. -/
theorem enter_loop (h : Entered addr first last m₀) : ∃ m, InLoop addr first last m₀ m 0 ∧
    m.rip = pc addr 8 ∧ ∀ callee fuel k, run callee (fuel + 4) k (enter addr m₀) = run callee fuel k m := by
  let a₁ := Machine.push { enter addr m₀ with rip := pc addr 1 } (m₀.regs rbx)
  let a₂ := Machine.push { a₁ with rip := pc addr 2 } (m₀.regs rsi)
  let a₃ := Machine.set { a₂ with rip := pc addr 5 } rbx (m₀.regs rcx)
  let a₄ := Machine.set { a₃ with rip := pc addr 8 } rsi (m₀.regs rdx)
  have hsp : m₀.regs rsp - 8 - 8 = m₀.regs rsp - 16 := by bv_omega
  have hmem : a₂.mem =
      write64 (write64 m₀.mem (m₀.regs rsp - 8) (m₀.regs rbx)) (m₀.regs rsp - 16) (m₀.regs rsi) :=
    congrArg (fun sp => write64 a₁.mem sp (m₀.regs rsi)) hsp
  have hp := pushed (m₀.regs rsp) m₀.mem (m₀.regs rbx) (m₀.regs rsi)
  rw [← hmem] at hp
  have hcode₁ : Mapped addr a₁.mem := fun i hi => by
    have hx := h.codeApart i hi
    obtain ⟨-, hbx, -⟩ := stack_places (m₀.regs rsp)
    show write64 m₀.mem (m₀.regs rsp - 8) (m₀.regs rbx) _ = _
    rw [← hbx, write_outside (not_pushed hx (by decide))]
    exact h.code i hi
  have hcode : Mapped addr a₂.mem := fun i hi =>
    (hp.free _ (h.codeApart i hi)).trans (h.code i hi)
  have h₁ : (enter addr m₀).step = some (.go a₁) :=
    step_at 0 (.push rbx) 1 h.code (BitVec.add_zero addr).symm (by decide) rfl
  have h₂ : a₁.step = some (.go a₂) := step_at 1 (.push rsi) 1 hcode₁ rfl (by decide) rfl
  have h₃ : a₂.step = some (.go a₃) := step_at 2 (.mov rbx rcx) 3 hcode rfl (by decide) rfl
  have h₄ : a₃.step = some (.go a₄) := step_at 5 (.mov rsi rdx) 3 hcode rfl (by decide) rfl
  refine ⟨a₄, ?_, rfl, fun callee fuel k => ?_⟩
  · refine ⟨?_, h.inRdx, hsp, fun r _ hsp hbx hsi => ?_, hp.oldRsi, hp.oldRbx, hp.back, hcode,
      fun i hi => hp.free _ (h.tableApart i hi)⟩
    · exact h.inRcx.trans (BitVec.add_zero first).symm
    · show Function.update (Function.update (Function.update (Function.update m₀.regs _ _) _ _) _ _)
        _ _ r = _
      rw [Function.update_of_ne hsi, Function.update_of_ne hbx, Function.update_of_ne hsp,
        Function.update_of_ne hsp]
  · rw [run_go h₁, run_go h₂, run_go h₃, run_go h₄]

/-- The test at the head, while there are entries. -/
theorem head_more (h : InLoop addr first last m₀ m k) (hk : k < entryCount first last) :
    m.regs rbx < m.regs rsi := by
  have hlast := last.isLt
  rw [h.next, h.limit, BitVec.lt_def, BitVec.toNat_add, BitVec.toNat_ofNat]
  unfold entryCount at hk
  omega

theorem head_end (h : InLoop addr first last m₀ m (entryCount first last))
    (hw : 8 ∣ last.toNat - first.toNat) : ¬ m.regs rbx < m.regs rsi := by
  have hlast := last.isLt
  have hfirst := first.isLt
  rw [h.next, h.limit, BitVec.lt_def, BitVec.toNat_add, BitVec.toNat_ofNat]
  unfold entryCount
  omega

/-- A branch. -/
theorem pc_jump {rel : Byte} (h : BitVec.ofNat 64 i + rel.signExtend 64 = BitVec.ofNat 64 j) :
    pc addr i + rel.signExtend 64 = pc addr j := by
  rw [pc, BitVec.add_assoc, h, pc]

/-- What is done to scratch registers and flags does not matter. -/
theorem InLoop.scratched (h : InLoop addr first last m₀ m k) (hmem : m'.mem = m.mem)
    (hregs : ∀ r ∉ scratch, m'.regs r = m.regs r) : InLoop addr first last m₀ m' k where
  next := (hregs _ (by decide)).trans h.next
  limit := (hregs _ (by decide)).trans h.limit
  stack := (hregs _ (by decide)).trans h.stack
  saved r hr h₁ h₂ h₃ := (hregs r hr).trans (h.saved r hr h₁ h₂ h₃)
  oldRsi := hmem ▸ h.oldRsi
  oldRbx := hmem ▸ h.oldRbx
  back := hmem ▸ h.back
  code := hmem ▸ h.code
  table := hmem ▸ h.table

theorem ne_rax (h : r ∉ scratch) : r ≠ rax := by
  rintro rfl
  exact h List.mem_cons_self

/-- The end of the loop. -/
theorem finish (h : InLoop addr first last m₀ m (entryCount first last)) (hrip : m.rip = pc addr 8)
    (hw : 8 ∣ last.toNat - first.toNat) : ∃ m', Returns 0 m₀ m' ∧ m'.eax = 0 ∧
      ∀ callee fuel k, run callee (fuel + 6) k m = some ([], m') := by
  let v := (m.regs rax).setWidth 32 ^^^ (m.regs rax).setWidth 32
  let b₁ : Machine := { m with
    rip := pc addr 11, cf := decide (m.regs rbx < m.regs rsi), zf := m.regs rbx == m.regs rsi }
  let b₂ : Machine := { b₁ with rip := pc addr 37 }
  let b₃ : Machine := { b₂.set rax (v.setWidth 64) with
    rip := pc addr 39, cf := false, zf := v == 0 }
  let b₄ : Machine := { (b₃.set rsp (m.regs rsp + 8)).set rsi (read64 m.mem (m.regs rsp)) with
    rip := pc addr 40 }
  let b₅ : Machine := { (b₄.set rsp (m.regs rsp + 8 + 8)).set rbx
    (read64 m.mem (m.regs rsp + 8)) with rip := pc addr 41 }
  let b₆ : Machine := { b₅.set rsp (m.regs rsp + 8 + 8 + 8) with
    rip := read64 m.mem (m.regs rsp + 8 + 8) }
  have h₁ : m.step = some (.go b₁) := step_at 8 (.cmp rbx rsi) 3 h.code hrip (by decide) rfl
  have h₂ : b₁.step = some (.go b₂) := by
    refine (step_at (m := b₁) 11 (.jae 0x18) 2 h.code rfl (by decide) rfl).trans ?_
    have hcf : ¬ b₁.cf := fun hc => head_end h hw (of_decide_eq_true hc)
    rw [Machine.exec, if_neg hcf, pc_jump (j := 37) (by decide)]
  have h₃ : b₂.step = some (.go b₃) := step_at 37 (.xor rax rax) 2 h.code rfl (by decide) rfl
  have h₄ : b₃.step = some (.go b₄) := step_at 39 (.pop rsi) 1 h.code rfl (by decide) rfl
  have h₅ : b₄.step = some (.go b₅) := step_at 40 (.pop rbx) 1 h.code rfl (by decide) rfl
  have h₆ : b₅.step = some (.ret b₆) := step_at 41 .ret 1 h.code rfl (by decide) rfl
  have hsp₁ : m.regs rsp + 8 = m₀.regs rsp - 8 := by rw [h.stack]; bv_omega
  have hsp₂ : m.regs rsp + 8 + 8 = m₀.regs rsp := by rw [h.stack]; bv_omega
  refine ⟨b₆, ⟨?_, ?_, fun r hr hsp => ?_, nofun⟩, ?_, fun callee fuel k => ?_⟩
  · show read64 m.mem (m.regs rsp + 8 + 8) = _
    rw [hsp₂, h.back]
  · show m.regs rsp + 8 + 8 + 8 = _
    rw [hsp₂]
  · show Function.update (Function.update (Function.update (Function.update (Function.update
      (Function.update m.regs _ _) _ _) _ _) _ _) _ _) _ _ r = _
    rw [Function.update_of_ne hsp]
    by_cases hbx : r = rbx
    · rw [hbx, Function.update_self, hsp₁, h.oldRbx]
    rw [Function.update_of_ne hbx, Function.update_of_ne hsp]
    by_cases hsi : r = rsi
    · rw [hsi, Function.update_self, h.stack, h.oldRsi]
    rw [Function.update_of_ne hsi, Function.update_of_ne hsp,
      Function.update_of_ne (ne_rax hr)]
    exact h.saved r hr hsp hbx hsi
  · have hv : v = 0 := BitVec.xor_self
    show (v.setWidth 64).setWidth 32 = 0
    rw [hv]
    rfl
  · rw [run_go h₁, run_go h₂, run_go h₃, run_go h₄, run_go h₅, run_ret h₆]

/-- The entry is taken from the table. -/
theorem look (h : InLoop addr first last m₀ m k) (hrip : m.rip = pc addr 8)
    (hk : k < entryCount first last) : ∃ m', InLoop addr first last m₀ m' k ∧
      m'.rip = pc addr 19 ∧ m'.regs rax = entry m₀.mem first k ∧
      m'.zf = (entry m₀.mem first k == 0) ∧
      ∀ callee fuel j, run callee (fuel + 4) j m = run callee fuel j m' := by
  let v := read64 m.mem (m.regs rbx)
  let b₁ : Machine := { m with
    rip := pc addr 11, cf := decide (m.regs rbx < m.regs rsi), zf := m.regs rbx == m.regs rsi }
  let b₂ : Machine := { b₁ with rip := pc addr 13 }
  let b₃ : Machine := Machine.set { b₂ with rip := pc addr 16 } rax v
  let b₄ : Machine := { b₃ with rip := pc addr 19, cf := false, zf := v &&& v == 0 }
  have h₁ : m.step = some (.go b₁) := step_at 8 (.cmp rbx rsi) 3 h.code hrip (by decide) rfl
  have h₂ : b₁.step = some (.go b₂) := by
    refine (step_at (m := b₁) 11 (.jae 0x18) 2 h.code rfl (by decide) rfl).trans ?_
    have hcf : b₁.cf := decide_eq_true (head_more h hk)
    rw [Machine.exec, if_pos hcf]
  have h₃ : b₂.step = some (.go b₃) := step_at 13 (.load rax rbx) 3 h.code rfl (by decide) rfl
  have h₄ : b₃.step = some (.go b₄) := step_at 16 (.test rax rax) 3 h.code rfl (by decide) rfl
  have hv : v = entry m₀.mem first k := by
    show read64 m.mem (m.regs rbx) = _
    rw [h.next]
    refine read64_congr fun i hi => ?_
    rw [BitVec.add_assoc, ← BitVec.ofNat_add]
    exact h.table _ (by omega)
  refine ⟨b₄, h.scratched rfl fun r hr => ?_, rfl, hv, ?_, fun callee fuel j => ?_⟩
  · exact Function.update_of_ne (ne_rax hr) _ _
  · show (v &&& v == 0) = _
    rw [BitVec.and_self, hv]
  · rw [run_go h₁, run_go h₂, run_go h₃, run_go h₄]

/-- The step to the next entry. -/
theorem advance (h : InLoop addr first last m₀ m k) (hrip : m.rip = pc addr 31) :
    ∃ m', InLoop addr first last m₀ m' (k + 1) ∧ m'.rip = pc addr 8 ∧
      ∀ callee fuel j, run callee (fuel + 2) j m = run callee fuel j m' := by
  let v := m.regs rbx + 8
  let b₁ : Machine := { m.set rbx v with
    rip := pc addr 35, cf := decide (v < m.regs rbx), zf := v == 0 }
  let b₂ : Machine := { b₁ with rip := pc addr 8 }
  have h₁ : m.step = some (.go b₁) := step_at 31 (.add rbx 8) 4 h.code hrip (by decide) rfl
  have h₂ : b₁.step = some (.go b₂) := by
    refine (step_at (m := b₁) 35 (.jmp 0xE3) 2 h.code rfl (by decide) rfl).trans ?_
    rw [Machine.exec, pc_jump (j := 8) (by decide)]
  refine ⟨b₂, ⟨?_, h.limit, h.stack, fun r hr hsp hbx hsi => ?_, h.oldRsi, h.oldRbx, h.back, h.code,
    h.table⟩, rfl, fun callee fuel j => ?_⟩
  · show m.regs rbx + 8 = _
    rw [h.next, Nat.mul_succ, BitVec.ofNat_add, ← BitVec.add_assoc]
    rfl
  · exact (Function.update_of_ne hbx _ _).trans (h.saved r hr hsp hbx hsi)
  · rw [run_go h₁, run_go h₂]

/-- A turn with no initialiser. -/
theorem turn_null (h : InLoop addr first last m₀ m k) (hrip : m.rip = pc addr 8)
    (hk : k < entryCount first last) (hnull : entry m₀.mem first k = 0) :
    ∃ m', InLoop addr first last m₀ m' (k + 1) ∧ m'.rip = pc addr 8 ∧
      ∀ callee fuel j, run callee (fuel + 7) j m = run callee fuel j m' := by
  obtain ⟨m₁, h₁, hrip₁, -, hzf, hrun₁⟩ := look h hrip hk
  let b : Machine := { m₁ with rip := pc addr 31 }
  have hjump : m₁.step = some (.go b) := by
    refine (step_at 19 (.jz 0x0A) 2 h₁.code hrip₁ (by decide) rfl).trans ?_
    have hz : m₁.zf := by rw [hzf, hnull]; rfl
    rw [Machine.exec, if_pos hz, pc_jump (j := 31) (by decide)]
  have hb : InLoop addr first last m₀ b k := h₁.scratched rfl fun _ _ => rfl
  obtain ⟨m₂, h₂, hrip₂, hrun₂⟩ := advance hb rfl
  refine ⟨m₂, h₂, hrip₂, fun callee fuel j => ?_⟩
  rw [hrun₁ callee (fuel + 3) j, run_go hjump, hrun₂]

/-- A call of an initialiser: what it was entered with is a turn's machine with the return address
pushed, and what it leaves is one again. -/
theorem call_kept (h₀ : Entered addr first last m₀) (inits : Inits addr first last (low m₀))
    (h : InLoop addr first last m₀ m k) (hmem : c.mem = write64 m.mem (low m₀) (pc addr 27))
    (hsp : c.regs rsp = low m₀) (hregs : ∀ r ∉ scratch, r ≠ rsp → c.regs r = m.regs r)
    (j : Nat) : (inits.call j c).rip = pc addr 27 ∧
      ∀ m', m'.mem = (inits.call j c).mem → m'.regs rsp = (inits.call j c).regs rsp + 0x28 →
        (∀ r ≠ rsp, m'.regs r = (inits.call j c).regs r) → InLoop addr first last m₀ m' k := by
  have hr := inits.returns j c hsp
  obtain ⟨htop, hbx, hsi⟩ := stack_places (m₀.regs rsp)
  have hfree : ∀ x, (∀ n < 64, x ≠ low m₀ + BitVec.ofNat 64 n) → c.mem x = m.mem x := by
    intro x hx
    rw [hmem, ← BitVec.add_zero (low m₀)]
    exact write_outside (not_pushed (d := 0) hx (by decide))
  -- The initialiser keeps the frame, and so does the push.
  have hframe : ∀ d, 48 ≤ d → d ≤ 64 →
      read64 (inits.call j c).mem (low m₀ + BitVec.ofNat 64 d) =
        read64 m.mem (low m₀ + BitVec.ofNat 64 d) := by
    intro d hlo hup
    refine read64_congr fun i hi => ?_
    have hkept := hr.stack (d - 40 + i) (by omega)
    rw [hsp, show 40 + (d - 40 + i) = d + i by omega, BitVec.ofNat_add, ← BitVec.add_assoc] at hkept
    have hapart := places_apart (low m₀) 0 d (.inl (by omega)) (by decide) (by omega) hi
    rw [hkept, hmem]
    rw [BitVec.add_zero] at hapart
    exact write_outside hapart
  have hsaved : ∀ r ∉ scratch, r ≠ rsp → (inits.call j c).regs r = m.regs r :=
    fun r hs hne => (hr.saved r hs hne).trans (hregs r hs hne)
  refine ⟨?_, fun m' hmem' hsp' hregs' => ⟨?_, ?_, ?_, fun r hs hne hnbx hnsi => ?_, ?_, ?_, ?_,
    fun i hi => ?_, fun i hi => ?_⟩⟩
  · rw [hr.returned, hsp, hmem, read_write]
  · rw [hregs' _ (by decide), hsaved _ (by decide) (by decide), h.next]
  · rw [hregs' _ (by decide), hsaved _ (by decide) (by decide), h.limit]
  · rw [hsp', hr.popped, hsp, low]
    bv_omega
  · rw [hregs' r hne, hsaved r hs hne, h.saved r hs hne hnbx hnsi]
  · rw [hmem', ← hsi, ← low, hframe 48 (by decide) (by decide), low, hsi, h.oldRsi]
  · rw [hmem', ← hbx, ← low, hframe 56 (by decide) (by decide), low, hbx, h.oldRbx]
  · have hlow : low m₀ + BitVec.ofNat 64 64 = m₀.regs rsp := htop
    have hback := hframe 64 (by decide) (by decide)
    rw [hlow] at hback
    rw [hmem', hback, h.back]
  · rw [hmem', inits.code j c hsp i hi, hfree _ (h₀.codeApart i hi), h.code i hi]
  · rw [hmem', inits.table j c hsp i hi, hfree _ (h₀.tableApart i hi), h.table i hi]

/-- A turn with an initialiser, the `j`th call. -/
theorem turn_call (h₀ : Entered addr first last m₀) (inits : Inits addr first last (low m₀))
    (h : InLoop addr first last m₀ m k) (hrip : m.rip = pc addr 8)
    (hk : k < entryCount first last) (hentry : entry m₀.mem first k ≠ 0) (j : Nat) :
    ∃ c m', InLoop addr first last m₀ m' (k + 1) ∧ m'.rip = pc addr 8 ∧
      c.rip = entry m₀.mem first k ∧ c.regs rsp = low m₀ ∧
      ∀ fuel, run inits.call (fuel + 10) j m =
        (run inits.call fuel (j + 1) m').map fun r => (⟨c, inits.call j c⟩ :: r.1, r.2) := by
  obtain ⟨m₁, h₁, hrip₁, hrax, hzf, hrun₁⟩ := look h hrip hk
  let v := m₁.regs rsp - 0x28
  let b₁ : Machine := { m₁ with rip := pc addr 21 }
  let b₂ : Machine := { b₁.set rsp v with
    rip := pc addr 25, cf := decide (m₁.regs rsp < 0x28), zf := v == 0 }
  let c : Machine := { Machine.push { b₂ with rip := pc addr 27 } (pc addr 27) with
    rip := m₁.regs rax }
  have hs₁ : m₁.step = some (.go b₁) := by
    refine (step_at 19 (.jz 0x0A) 2 h₁.code hrip₁ (by decide) rfl).trans ?_
    have hz : ¬ m₁.zf := by simpa [hzf] using hentry
    rw [Machine.exec, if_neg hz]
  have hs₂ : b₁.step = some (.go b₂) := step_at 21 (.sub rsp 0x28) 4 h₁.code rfl (by decide) rfl
  have hs₃ : b₂.step = some (.call c) := step_at 25 (.call rax) 2 h₁.code rfl (by decide) rfl
  have hsp : m₁.regs rsp - 0x28 - 8 = low m₀ := by
    rw [h₁.stack, low]
    bv_omega
  have hmem : c.mem = write64 m₁.mem (low m₀) (pc addr 27) := by
    show write64 m₁.mem (m₁.regs rsp - 0x28 - 8) _ = _
    rw [hsp]
  obtain ⟨hret, hkept⟩ := call_kept h₀ inits h₁ hmem hsp
    (fun r _ hne => (Function.update_of_ne hne _ _).trans (Function.update_of_ne hne _ _)) j
  let w := (inits.call j c).regs rsp + 0x28
  let b₄ : Machine := { (inits.call j c).set rsp w with
    rip := pc addr 31, cf := decide (w < (inits.call j c).regs rsp), zf := w == 0 }
  have h₄ : InLoop addr first last m₀ b₄ k :=
    hkept b₄ rfl rfl fun r hne => Function.update_of_ne hne _ _
  have hs₄ : (inits.call j c).step = some (.go b₄) :=
    step_at 27 (.add rsp 0x28) 4 h₄.code hret (by decide) rfl
  obtain ⟨m₅, h₅, hrip₅, hrun₅⟩ := advance h₄ rfl
  refine ⟨c, m₅, h₅, hrip₅, hrax, hsp, fun fuel => ?_⟩
  rw [hrun₁ inits.call (fuel + 6) j, run_go hs₁, run_go hs₂, run_call hs₃, run_go hs₄, hrun₅]

end

-- ---------------------------------------------------------------------------
-- The whole table
-- ---------------------------------------------------------------------------

/-- The calls of a table's entries, from call `j` on. -/
def called (answer : Nat → U32) : (j : Nat) → List U64 → List (U64 × U32)
  | _, [] => []
  | j, t :: ts => if t = 0 then called answer j ts else (t, answer j) :: called answer (j + 1) ts

section
variable {addr first last : U64} {m₀ m : Machine}

/-- The loop from entry `k` on. -/
theorem loop_runs (h₀ : Entered addr first last m₀) (inits : Inits addr first last (low m₀))
    (h : InLoop addr first last m₀ m k) (hrip : m.rip = pc addr 8)
    (hk : k + left = entryCount first last) (j : Nat) :
    ∃ fuel calls m', run inits.call fuel j m = some (calls, m') ∧
      (calls.map fun c => (c.entry.rip, c.after.eax)) =
        called inits.answer j ((table m₀.mem first last).drop k) ∧
      (∀ c ∈ calls, c.entry.regs rsp = low m₀) ∧ m'.eax = 0 ∧ Returns 0 m₀ m' := by
  have hlen : (table m₀.mem first last).length = entryCount first last := by
    rw [table, List.length_map, List.length_range]
  induction left generalizing k m j with
  | zero =>
    obtain rfl : k = entryCount first last := hk
    obtain ⟨m', hret, heax, hrun⟩ := finish h hrip h₀.whole
    refine ⟨6, [], m', hrun _ 0 j, ?_, nofun, heax, hret⟩
    rw [List.drop_eq_nil_of_le (Nat.le_of_eq hlen)]
    rfl
  | succ left ih =>
    have hlt : k < entryCount first last := by omega
    have hdrop : (table m₀.mem first last).drop k =
        entry m₀.mem first k :: (table m₀.mem first last).drop (k + 1) := by
      rw [List.drop_eq_getElem_cons (hlen ▸ hlt)]
      simp [table]
    rw [hdrop, called]
    by_cases hnull : entry m₀.mem first k = 0
    · obtain ⟨m₁, h₁, hrip₁, hrun₁⟩ := turn_null h hrip hlt hnull
      obtain ⟨fuel, calls, m', hrun, hcalls⟩ := ih h₁ hrip₁ (by omega) j
      rw [if_pos hnull]
      exact ⟨fuel + 7, calls, m', (hrun₁ _ _ _).trans hrun, hcalls⟩
    · obtain ⟨c, m₁, h₁, hrip₁, htarget, hsp, hrun₁⟩ := turn_call h₀ inits h hrip hlt hnull j
      obtain ⟨fuel, calls, m', hrun, hcalls, hstack, hend⟩ := ih h₁ hrip₁ (by omega) (j + 1)
      rw [if_neg hnull]
      refine ⟨fuel + 10, ⟨c, inits.call j c⟩ :: calls, m', ?_, ?_, ?_, hend⟩
      · rw [hrun₁, hrun]
        rfl
      · rw [List.map_cons, hcalls, htarget, inits.answers j c hsp]
      · exact List.forall_mem_cons.2 ⟨hsp, hstack⟩

/-- A call of either function runs through the table and returns 0. -/
theorem tramp_runs (h₀ : Entered addr first last m₀) (inits : Inits addr first last (low m₀)) :
    ∃ fuel calls m', run inits.call fuel 0 (enter addr m₀) = some (calls, m') ∧
      (calls.map fun c => (c.entry.rip, c.after.eax)) =
        called inits.answer 0 (table m₀.mem first last) ∧
      (∀ c ∈ calls, c.entry.regs rsp = low m₀) ∧ m'.eax = 0 ∧ Returns 0 m₀ m' := by
  obtain ⟨m, h, hrip, hrun₀⟩ := enter_loop h₀
  obtain ⟨fuel, calls, m', hrun, hrest⟩ := loop_runs h₀ inits h hrip (Nat.zero_add _) 0
  exact ⟨fuel + 4, calls, m', (hrun₀ _ _ _).trans hrun, hrest⟩

theorem ready_of_low (h₀ : Entered addr first last m₀) (hc : c.regs rsp = low m₀) :
    Ready m₀ c := by
  have haligned := h₀.aligned
  refine ⟨?_, fun i hi j hj => ?_⟩
  · rw [hc, low]
    bv_omega
  · rw [hc, low]
    bv_omega

theorem called_targets : (called answer j ts).map Prod.fst = ts.filter (· != 0) := by
  induction ts generalizing j with
  | nil => rfl
  | cons t ts ih =>
    rw [called]
    by_cases ht : t = 0
    · rw [if_pos ht, ih, List.filter_cons_of_neg (by simp [ht])]
    · rw [if_neg ht, List.map_cons, ih, List.filter_cons_of_pos (by simpa using ht)]

/-- All entries are what is asked for when none of them fails. -/
theorem called_upToFailure : UpToFailure (ts.filter (· != 0)) (called answer j ts) 0 ↔
    ∀ i < (ts.filter (· != 0)).length, answer (j + i) = 0 := by
  induction ts generalizing j with
  | nil => exact iff_of_true ⟨rfl, rfl⟩ nofun
  | cons t ts ih =>
    rw [called]
    by_cases ht : t = 0
    · rw [if_pos ht, List.filter_cons_of_neg (by simp [ht]), ih]
    · rw [if_neg ht, List.filter_cons_of_pos (by simpa using ht), UpToFailure, and_iff_right rfl,
        List.length_cons]
      split
      · rename_i hzero
        rw [ih]
        constructor
        · intro h i hi
          cases i with
          | zero => exact hzero
          | succ i =>
            rw [Nat.add_succ, ← Nat.succ_add]
            exact h i (Nat.lt_of_succ_lt_succ hi)
        · intro h i hi
          have := h (i + 1) (Nat.succ_lt_succ hi)
          rwa [Nat.add_succ, ← Nat.succ_add] at this
      · rename_i hfails
        exact iff_of_false (fun h => hfails h.2.symm) fun h => hfails (h 0 (Nat.succ_pos _))

/-- What either function owes is done when no initialiser fails that `_initterm_e` asks of. -/
theorem meets_iff (h : Entered addr first last m₀) (inits : Inits addr first last (low m₀)) :
    Meets f addr first last m₀ inits ↔ (f = .inittermE →
      ∀ k < (initialisers m₀.mem first last).length, inits.answer k = 0) := by
  obtain ⟨fuel, calls, m', hrun, hcalls, hstack, heax, hret⟩ := tramp_runs h inits
  have hright : Meets f addr first last m₀ inits ↔
      f.Right (initialisers m₀.mem first last)
        (called inits.answer 0 (table m₀.mem first last)) 0 := by
    constructor
    · rintro ⟨fuel', calls', m'', hrun', hright, -⟩
      obtain ⟨rfl, rfl⟩ := Prod.mk.inj (run_unique hrun' hrun)
      rwa [hcalls, heax] at hright
    · intro hright
      refine ⟨fuel, calls, m', hrun, ?_, fun c hc => ready_of_low h (hstack c hc), hret⟩
      rwa [hcalls, heax]
  rw [hright]
  cases f with
  | initterm => exact iff_of_true ⟨called_targets, rfl⟩ nofun
  | inittermE =>
    refine called_upToFailure.trans ⟨fun h _ k hk => ?_, fun h k hk => ?_⟩
    · have := h k hk
      rwa [Nat.zero_add] at this
    · rw [Nat.zero_add]
      exact h rfl k hk

theorem initterm_law (h : Entered addr first last m₀) (inits : Inits addr first last (low m₀))
    (f : Fn) : Meets f addr first last m₀ inits ↔ (f = .inittermE →
      ∀ k < (initialisers m₀.mem first last).length, inits.answer k = 0) := meets_iff h inits

end

/-- A table with a null entry between two initialisers, and the code. -/
def loaded : Mem :=
  mapInittermTramp (write64 (write64 (fun _ => 0) 0x1000 0x5000) 0x1010 0x6000) 0x00C30000

def caller : Machine where
  regs r := if r = rcx then 0x1000 else if r = rdx then 0x1018 else if r = rsp then 0x8008 else 0
  rip := 0
  cf := false
  zf := false
  mem := loaded

theorem caller_entered : Entered 0x00C30000 0x1000 0x1018 caller where
  code := mapInittermTramp_mapped _ _
  inRcx := rfl
  inRdx := rfl
  aligned := by decide
  whole := by decide
  codeApart i hi j hj := by
    have hsp : caller.regs rsp = 0x8008 := rfl
    rw [hsp]
    bv_omega
  tableApart i hi j hj := by
    have hsp : caller.regs rsp = 0x8008 := rfl
    have hcount : entryCount 0x1000 0x1018 = 3 := rfl
    rw [hcount] at hi
    rw [hsp]
    bv_omega

/-- Initialisers that only answer. -/
def answering (a : U32) (addr first last sp : U64) : Inits addr first last sp where
  call _ m := { (m.set rsp (m.regs rsp + 8)).set rax (a.setWidth 64) with
    rip := read64 m.mem (m.regs rsp) }
  answer _ := a
  returns _ m _ := ⟨rfl, rfl, fun r hr hsp => (Function.update_of_ne (ne_rax hr) _ _).trans
    (Function.update_of_ne hsp _ _), fun _ _ => rfl⟩
  answers _ m _ := by
    show (a.setWidth 64).setWidth 32 = a
    rw [BitVec.setWidth_setWidth_of_le _ (by decide), BitVec.setWidth_eq]
  code _ _ _ _ _ := rfl
  table _ _ _ _ _ := rfl

theorem initterm_law_runs :
    Meets .inittermE 0x00C30000 0x1000 0x1018 caller (answering 0 _ _ _ _) :=
  (initterm_law caller_entered (answering 0 _ _ _ _) .inittermE).2 fun _ _ _ => rfl

/-- An initialiser fails, and the rest are called. -/
theorem failure_ignored : ∃ addr first last m inits, Entered addr first last m ∧
    ¬ Meets .inittermE addr first last m inits := by
  refine ⟨0x00C30000, 0x1000, 0x1018, caller, answering 1 _ _ _ _, caller_entered, fun h => ?_⟩
  have hlen : 0 < (initialisers caller.mem 0x1000 0x1018).length := by decide +kernel
  have hzero := (meets_iff caller_entered _).1 h rfl 0 hlen
  exact absurd hzero (by decide)

end WineGlass.Initterm
