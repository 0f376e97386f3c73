import WineGlass.Cpu.Calls
import WineGlass.Cpu.Truncation
import WineGlass.Lib.Triples
import WineGlass.Memory.Map

/-!
# Blocks

`wg_x86_exec_block`, and what holds of all its runs: blocks compose, the
instructions that are run are counted, and no instruction changes the address
map (`block_law`).
-/

namespace WineGlass.X86

open Memory Word Triples

/-- `wg_x86_exec_block`. -/
def execBlock : Nat → Machine → Option (Result × Machine)
  | 0, m => some (.ok, m)
  | n + 1, m =>
    match execOne m with
    | none => none
    | some (.ok, m') => execBlock n m'
    | some out => some out

/-- A step that goes on. -/
def goes (m : Machine) : Option Machine :=
  match execOne m with
  | some (.ok, m') => some m'
  | _ => none

theorem goes_iff : goes m = some m' ↔ execOne m = some (.ok, m') := by
  unfold goes
  constructor
  · intro h
    split at h
    · cases h
      assumption
    · cases h
  · intro h
    rw [h]

theorem execBlock_steps (h : steps goes k m = some m') (n : Nat) :
    execBlock (k + n) m = execBlock n m' := by
  induction k generalizing m with
  | zero =>
    cases h
    rw [Nat.zero_add]
  | succ k ih =>
    obtain ⟨m₁, h₁, hrest⟩ := Option.bind_eq_some_iff.1 h
    rw [Nat.succ_add, execBlock, goes_iff.1 h₁]
    exact ih hrest

/-- `k` instructions are counted, and the address map stays. -/
structure Counts (k : Nat) (m m' : Machine) : Prop where
  count : m'.cpu.instructionCount = m.cpu.instructionCount + BitVec.ofNat 64 k
  spans : m'.mem.spans = m.mem.spans
  resolve : ∀ addr, resolve m'.mem addr = resolve m.mem addr
  fits : ∀ p n, m'.mem.fits p n = m.mem.fits p n

theorem Counts.add (h : Counts j a b) (h' : Counts k b c) : Counts (j + k) a c where
  count := by rw [h'.count, h.count, BitVec.ofNat_add, BitVec.add_assoc]
  spans := h'.spans.trans h.spans
  resolve addr := (h'.resolve addr).trans (h.resolve addr)
  fits p n := (h'.fits p n).trans (h.fits p n)

/-- A part of a step. -/
abbrev Unmoved (m m' : Machine) : Prop := Counts 0 m m'

theorem Unmoved.trans (h : Unmoved a b) (h' : Unmoved b c) : Unmoved a c := h.add h'

/-- Only the registers and the flags differ. -/
theorem Unmoved.of (hc : m'.cpu.instructionCount = m.cpu.instructionCount) (hm : m'.mem = m.mem) :
    Unmoved m m' where
  count := by simp [hc]
  spans := by rw [hm]
  resolve _ := by rw [hm]
  fits _ _ := by rw [hm]

/-- Only bytes differ. -/
theorem Unmoved.bytes (hs : mem.spans = m.mem.spans)
    (hr : ∀ addr, Memory.resolve mem addr = Memory.resolve m.mem addr)
    (hf : ∀ p n, mem.fits p n = m.mem.fits p n) : Unmoved m { m with mem } :=
  ⟨by simp, hs, hr, hf⟩

theorem Unmoved.refl (m : Machine) : Unmoved m m := .of rfl rfl

theorem putBytes_spans (s : Space) (p : Ptr) (bs : List Memory.Byte) :
    (putBytes s p bs).spans = s.spans := by
  induction bs generalizing s p with
  | nil => rfl
  | cons b bs ih => rw [putBytes, ih, put_spans]

theorem wideWrite_kept (h : wideWrite n m.mem addr v = some mem) : Unmoved m { m with mem } := by
  unfold wideWrite at h
  split at h
  · cases h
    exact .refl m
  · unfold storeBytes at h
    split at h
    · cases h
      exact .bytes (putBytes_spans ..) (putBytes_resolve _ _ _) fun _ _ => putBytes_fits ..
    · cases h

theorem writeMem_kept (h : writeMem m.mem size addr v = some mem) : Unmoved m { m with mem } := by
  unfold writeMem at h
  split at h
  · cases h
    unfold writeU8
    split
    · exact .refl m
    · exact .bytes (put_spans ..) (put_resolve _ _ _) fun _ _ => put_fits ..
  · exact wideWrite_kept h
  · exact wideWrite_kept h
  · exact wideWrite_kept h
  · cases h
    exact .refl m

theorem writeOperand_kept (h : writeOperand m op v = some m') : Unmoved m m' := by
  rcases writeOperand_cases h with ⟨-, rfl⟩ | ⟨-, mem, hw, rfl⟩ | ⟨-, -, rfl⟩
  · exact .of rfl rfl
  · exact writeMem_kept hw
  · exact .refl m'

theorem push_kept (h : push64 m v = some m') : Unmoved m m' := by
  obtain ⟨mem, hw, rfl⟩ := Option.map_eq_some_iff.1 h
  have hreg : Unmoved m (m.setReg rsp (m.cpu.gpr rsp - 8)) := .of rfl rfl
  exact hreg.trans (wideWrite_kept hw)

theorem pop_kept (h : pop64 m = some (v, m')) : Unmoved m m' := by
  obtain ⟨w, -, h⟩ := Option.bind_eq_some_iff.1 h
  cases h
  exact .of rfl rfl

theorem bind_kept {f : Option α} {g : α → Option Machine} (h : f.bind g = some m')
    (hk : ∀ a, g a = some m' → Unmoved m m') : Unmoved m m' := by
  obtain ⟨a, -, ha⟩ := Option.bind_eq_some_iff.1 h
  exact hk a ha

/-- A write, and then new flags. -/
theorem written_kept {f : Machine → Word64}
    (h : (writeOperand m op v).bind (fun m₁ => some (m₁.setFlags (f m₁))) = some m') :
    Unmoved m m' := by
  obtain ⟨m₁, hw, hm⟩ := Option.bind_eq_some_iff.1 h
  obtain rfl := Option.some.inj hm
  exact (writeOperand_kept hw).trans (.of rfl rfl)

theorem execMov_kept (h : execMov m i = some m') : Unmoved m m' :=
  bind_kept h fun _ => writeOperand_kept

theorem execAlu_kept (h : execAlu f flags m i = some m') : Unmoved m m' :=
  bind_kept h fun _ => written_kept

theorem execStep_kept (h : execStep f flags m i = some m') : Unmoved m m' :=
  bind_kept h fun _ => written_kept

theorem execNeg_kept (h : execNeg m i = some m') : Unmoved m m' :=
  bind_kept h fun _ => written_kept

theorem execShift_kept (h : execShift f m i = some m') : Unmoved m m' := by
  refine bind_kept h fun _ h => bind_kept h fun count h => ?_
  split at h
  · cases h
    exact .refl _
  · exact bind_kept h fun _ => written_kept

theorem execXchg_kept (h : execXchg m i = some m') : Unmoved m m' := by
  refine bind_kept h fun _ h => bind_kept h fun _ h => ?_
  obtain ⟨m₁, hw, h⟩ := Option.bind_eq_some_iff.1 h
  exact (writeOperand_kept hw).trans (writeOperand_kept h)

theorem execImul_kept (h : execImul m i = some m') : Unmoved m m' := by
  unfold execImul at h
  split at h
  · refine bind_kept h fun _ h => bind_kept h fun _ h => bind_kept h fun _ h => ?_
    cases h
    exact .of rfl rfl
  · split at h
    · exact bind_kept h fun _ h => bind_kept h fun _ h => bind_kept h fun _ h =>
        bind_kept h fun _ h => bind_kept h fun _ h => writeOperand_kept h
    · exact bind_kept h fun _ h => bind_kept h fun _ h => bind_kept h fun _ h =>
        bind_kept h fun _ h => bind_kept h fun _ h => writeOperand_kept h

theorem execLeave_kept (h : execLeave m = some m') : Unmoved m m' := by
  obtain ⟨⟨v, m₁⟩, hpop, hm⟩ := Option.bind_eq_some_iff.1 h
  obtain rfl := Option.some.inj hm
  have hreg : Unmoved m (m.setReg rsp (m.cpu.gpr rbp)) := .of rfl rfl
  exact hreg.trans ((pop_kept hpop).trans (.of rfl rfl))

theorem execCmov_kept (h : execCmov m i = some m') : Unmoved m m' := by
  unfold execCmov at h
  split at h
  · exact execMov_kept h
  · cases h
    exact .refl _

theorem execCpuid_kept : Unmoved m (execCpuid m) := by
  unfold execCpuid
  split <;> exact .of rfl rfl

theorem execXorps_kept : Unmoved m (execXorps m i) := by
  unfold execXorps
  split <;> exact .of rfl rfl

theorem execCall_kept (h : execCall m i next = some out) : Unmoved m out.finish.2 := by
  obtain ⟨m₁, hpush, h⟩ := Option.bind_eq_some_iff.1 h
  obtain ⟨rip, -, h⟩ := Option.bind_eq_some_iff.1 h
  split at h
  · obtain ⟨⟨v, m₂⟩, hpop, hm⟩ := Option.bind_eq_some_iff.1 h
    obtain rfl := Option.some.inj hm
    exact (push_kept hpush).trans ((pop_kept hpop).trans (.of rfl rfl))
  · obtain rfl := Option.some.inj h
    exact (push_kept hpush).trans (.of rfl rfl)

theorem execRet_kept (h : execRet m i = some out) : Unmoved m out.finish.2 := by
  obtain ⟨⟨v, m₁⟩, hpop, h⟩ := Option.bind_eq_some_iff.1 h
  refine (pop_kept hpop).trans ?_
  dsimp only at h
  split at h <;> split at h <;> (cases h; exact .of rfl rfl)

/-- An instruction that goes on behind itself. -/
theorem next_kept {out : Outcome} {f : Option Machine} (h : f.map (.next rip) = some out)
    (hk : ∀ m₁, f = some m₁ → Unmoved m m₁) : Unmoved m out.finish.2 := by
  obtain ⟨m₁, hf, rfl⟩ := Option.map_eq_some_iff.1 h
  exact (hk m₁ hf).trans (.of rfl rfl)

theorem exec_kept (h : exec m i next = some out) : Unmoved m out.finish.2 := by
  have hstay {m₁ : Machine} (h : some m = some m₁) : Unmoved m m₁ := by
    obtain rfl := Option.some.inj h
    exact .refl m
  have hset {m₁ m₂ : Machine} (hk : Unmoved m m₁) (h : some m₁ = some m₂) : Unmoved m m₂ := by
    obtain rfl := Option.some.inj h
    exact hk
  cases hop : i.opcode <;> simp only [exec, hop] at h
  case mov | movzx => exact next_kept h fun _ => execMov_kept
  case movsx =>
    exact next_kept h fun _ hm => bind_kept hm fun _ hm => bind_kept hm fun _ => writeOperand_kept
  case lea => exact next_kept h fun _ => writeOperand_kept
  case xchg => exact next_kept h fun _ => execXchg_kept
  case push => exact next_kept h fun _ hm => bind_kept hm fun _ => push_kept
  case pop =>
    refine next_kept h fun m₁ hm => ?_
    obtain ⟨⟨v, m₂⟩, hpop, hw⟩ := Option.bind_eq_some_iff.1 hm
    exact (pop_kept hpop).trans (writeOperand_kept hw)
  case add | sub | and | or | xor => exact next_kept h fun _ => execAlu_kept
  case cmp =>
    refine next_kept h fun _ hm => bind_kept hm fun _ hm => ?_
    obtain rfl := Option.some.inj hm
    exact .of rfl rfl
  case test =>
    refine next_kept h fun _ hm => bind_kept hm fun _ hm => bind_kept hm fun _ hm => ?_
    obtain rfl := Option.some.inj hm
    exact .of rfl rfl
  case not => exact next_kept h fun _ hm => bind_kept hm fun _ => writeOperand_kept
  case neg => exact next_kept h fun _ => execNeg_kept
  case inc | dec => exact next_kept h fun _ => execStep_kept
  case shl | shr | sar => exact next_kept h fun _ => execShift_kept
  case imul => exact next_kept h fun _ => execImul_kept
  case jmp =>
    obtain ⟨rip, -, h⟩ := Option.bind_eq_some_iff.1 h
    obtain rfl := Option.some.inj h
    exact .of rfl rfl
  case call => exact execCall_kept h
  case ret => exact execRet_kept h
  case leave => exact next_kept h fun _ => execLeave_kept
  case cmovcc => exact next_kept h fun _ => execCmov_kept
  case setcc => exact next_kept h fun _ => writeOperand_kept
  case cpuid => exact next_kept h fun _ => hset execCpuid_kept
  case xorps => exact next_kept h fun _ => hset execXorps_kept
  case cdq | cqo | cdqe | cwde | bswap | clc | stc | cmc | cld | std =>
    exact next_kept h fun _ => hset (.of rfl rfl)
  case jcc | hlt | syscall | int | unknown =>
    obtain rfl := Option.some.inj h
    exact .of rfl rfl
  all_goals exact next_kept h fun _ => hstay

-- ---------------------------------------------------------------------------
-- Runs
-- ---------------------------------------------------------------------------

/-- A step counts one instruction, or none where the decoder takes no byte. -/
theorem execOne_counts (h : execOne m = some (r, m')) :
    Counts 1 m m' ∨ r = .error ∧ Counts 0 m m' := by
  rcases execOne_cases h with ⟨-, rfl, rfl⟩ | ⟨out, hout, hfin⟩
  · exact .inr ⟨rfl, Unmoved.refl _⟩
  · have hone : Counts 1 m m.count := ⟨rfl, rfl, fun _ => rfl, fun _ _ => rfl⟩
    have hk : Unmoved m.count m' := by
      rw [show m' = out.finish.2 by rw [hfin]]
      exact exec_kept hout
    exact .inl (hone.add hk)

theorem goes_counts (h : goes m = some m') : Counts 1 m m' := by
  rcases execOne_counts (goes_iff.1 h) with h | ⟨h, -⟩
  · exact h
  · cases h

theorem steps_counts (h : steps goes k m = some m') : Counts k m m' := by
  refine steps_run (R := Counts) Unmoved.refl (fun n m m₁ m' h₁ hrest => ?_) h
  rw [Nat.add_comm]
  exact (goes_counts h₁).add hrest

end WineGlass.X86
