import WineGlass.Cpu.Operands

/-!
# Calls and returns

CALL pushes the address behind it and then reads its operand, so the target is
the one of the state before the push only where the push moves nothing the
operand depends on.
-/

namespace WineGlass.X86

open Memory Word

/-- What RET adds to RSP behind the return address. -/
def dropped (i : Instruction) : Word64 := if 0 < i.numOperands then i.op0.imm else 0

/-- A RET with RSP and its slot as the call left them goes back. -/
def Returns (m m1 : Machine) : Prop :=
  ∀ m2, (decode (codeAt m2)).2.overread = false → (insnAt m2).opcode = .ret →
    m2.cpu.gpr rsp = m1.cpu.gpr rsp →
    readU64 m2.mem (m2.cpu.gpr rsp) = readU64 m1.mem (m1.cpu.gpr rsp) →
    ∃ m3, execOne m2 = some (.ok, m3) ∧ m3.cpu.rip = nextRip m ∧
      m3.cpu.gpr rsp = m.cpu.gpr rsp + dropped (insnAt m2)

/-- The step goes to the target and leaves the return address on the stack. -/
def Calls (m : Machine) (target : Word64) : Prop :=
  ∃ m1, execOne m = some (.ok, m1) ∧ m1.cpu.rip = target ∧
    m1.cpu.gpr rsp = m.cpu.gpr rsp - 8 ∧
    readU64 m1.mem (m1.cpu.gpr rsp) = some (nextRip m).toNat ∧ Returns m m1

/-- The registers, with RSP lowered. -/
def lowered (m : Machine) : State := m.cpu.setReg rsp (m.cpu.gpr rsp - 8)

/-- What the operand reads with RSP lowered and the return address in the slot is the target. -/
def Reread (m : Machine) (slot : Ptr) (target : Word64) : Prop :=
  match resolve m.mem (computeAddr (lowered m) (insnAt m).op0) with
  | none => target = 0
  | some p => m.mem.fits p 8 = true ∧ ∀ i < 8,
      overlaid 8 m.mem slot (nextRip m).toNat ⟨p.region, p.offset + i⟩ = byteAt target.toNat i

/-- The push moves neither the target nor anything behind the slot's region. -/
def CallFits (m : Machine) (slot : Ptr) (target : Word64) : Prop :=
  m.mem.fits slot 8 = true ∧ nextRip m ≠ 0 ∧
    match (insnAt m).op0.type with
    | .reg => (insnAt m).op0.regIndex ≠ rsp
    | .mem => Reread m slot target
    | _ => True

instance (m : Machine) (slot : Ptr) (target : Word64) : Decidable (Reread m slot target) := by
  unfold Reread
  split <;> infer_instance

instance (m : Machine) (slot : Ptr) (target : Word64) : Decidable (CallFits m slot target) := by
  unfold CallFits
  refine @instDecidableAnd _ _ _ (@instDecidableAnd _ _ _ ?_)
  split <;> infer_instance

-- ---------------------------------------------------------------------------
-- Returning
-- ---------------------------------------------------------------------------

theorem ret_is (hover : (decode (codeAt m)).2.overread = false) (hop : (insnAt m).opcode = .ret) :
    execOne m = (execRet m.count (insnAt m)).map Outcome.finish := by
  rw [exec_is hover hop nofun, exec, hop]

theorem setReg_gpr (m : Machine) (r : Nat) (v : Word64) : (m.setReg r v).cpu.gpr r = v := Function.update_self ..

theorem setReg_gpr_ne (m : Machine) (v : Word64) (h : i ≠ r) : (m.setReg r v).cpu.gpr i = m.cpu.gpr i :=
  Function.update_of_ne h ..

theorem setReg_twice (m : Machine) (r : Nat) (v u : Word64) : (m.setReg r v).setReg r u = m.setReg r u := by
  simp only [Machine.setReg, State.setReg, Function.update_idem]

theorem execRet_eq (h : readU64 m.mem (m.cpu.gpr rsp) = some v) : execRet m i =
    some (if BitVec.ofNat 64 v = 0 then
        .stop .halt ((m.setReg rsp (m.cpu.gpr rsp + 8 + dropped i)).setRip (BitVec.ofNat 64 v))
      else .next (BitVec.ofNat 64 v) (m.setReg rsp (m.cpu.gpr rsp + 8 + dropped i))) := by
  have hdrop : (if 0 < i.numOperands then
      (m.setReg rsp (m.cpu.gpr rsp + 8)).setReg rsp ((m.setReg rsp (m.cpu.gpr rsp + 8)).cpu.gpr rsp + i.op0.imm)
      else m.setReg rsp (m.cpu.gpr rsp + 8)) = m.setReg rsp (m.cpu.gpr rsp + 8 + dropped i) := by
    unfold dropped
    split
    · rw [setReg_twice, setReg_gpr]
    · exact congrArg (m.setReg rsp) (BitVec.add_zero _).symm
  rw [execRet, pop64, h, ← hdrop]
  show (if BitVec.ofNat 64 v = 0 then _ else _) = _
  split <;> rfl

/-- Where the slot holds an address other than 0, RET goes there. -/
theorem ret_goes (hover : (decode (codeAt m)).2.overread = false) (hop : (insnAt m).opcode = .ret)
    (hslot : readU64 m.mem (m.cpu.gpr rsp) = some v) (hv : BitVec.ofNat 64 v ≠ 0) :
    ∃ m', execOne m = some (.ok, m') ∧ m'.cpu.rip = BitVec.ofNat 64 v ∧
      m'.cpu.gpr rsp = m.cpu.gpr rsp + 8 + dropped (insnAt m) := by
  have hstep := ret_is hover hop
  rw [execRet_eq (m := m.count) hslot, if_neg hv] at hstep
  exact ⟨_, hstep, rfl, setReg_gpr m.count rsp _⟩

theorem ret_halts (hover : (decode (codeAt m)).2.overread = false) (hop : (insnAt m).opcode = .ret)
    (hslot : readU64 m.mem (m.cpu.gpr rsp) = some v) (hv : BitVec.ofNat 64 v = 0) :
    execOne m ≠ some (.ok, m') := by
  rw [ret_is hover hop, execRet_eq (m := m.count) hslot, if_pos hv]
  intro h
  cases (Prod.mk.inj (Option.some.inj h)).1

/-- A page with a RET on it, away from the stack. -/
def retMachine (sp : Word64) : Machine where
  cpu := ⟨fun _ => sp, if sp < 0x2000 then 0x3000 else 0x1000, 0x202, fun _ => (0, 0), 0⟩
  mem := ⟨[⟨if sp < 0x2000 then 0x3000 else 0x1000, 4096, 7, fun i => if i = 0 then 0xC3 else 0⟩]⟩

theorem retMachine_slot (sp : Word64) : readU64 (retMachine sp).mem sp = some 0 := by
  have hnone : resolve (retMachine sp).mem sp = none := by
    rw [resolve_none, findRegion, List.findIdx?_eq_none_iff]
    intro r hr
    rw [retMachine, List.mem_singleton] at hr
    subst hr
    rw [Bool.eq_false_iff, ne_eq, covers_iff]
    rintro ⟨hle, hlt, -⟩
    dsimp only at hle hlt
    split at hle
    · rename_i hsp
      have hsp' : sp.toNat < 0x2000 := hsp
      exact absurd (Nat.lt_of_lt_of_le hsp' (by decide)) (Nat.not_lt.2 hle)
    · rename_i hsp
      have hsp' : ¬sp.toNat < 0x2000 := hsp
      rw [if_neg hsp] at hlt
      exact hsp' hlt
  rw [readU64, wideRead, hnone]

theorem retMachine_code (sp : Word64) : (insnAt (retMachine sp)).opcode = .ret ∧
    (decode (codeAt (retMachine sp))).2.overread = false := by
  have hcode : codeAt (retMachine sp) = codeAt (retMachine 0) ∨
      codeAt (retMachine sp) = codeAt (retMachine 0x2000) := by
    unfold codeAt retMachine
    by_cases h : sp < 0x2000
    · exact .inl (by rw [if_pos h]; rfl)
    · exact .inr (by rw [if_neg h]; rfl)
  unfold insnAt
  rcases hcode with h | h
  · rw [h]
    decide
  · rw [h]
    decide

theorem returns_iff (h : readU64 m1.mem (m1.cpu.gpr rsp) = some (nextRip m).toNat)
    (hsp : m1.cpu.gpr rsp = m.cpu.gpr rsp - 8) : Returns m m1 ↔ nextRip m ≠ 0 := by
  have hback : BitVec.ofNat 64 (nextRip m).toNat = nextRip m := BitVec.ofNat_toNat .. |>.trans (BitVec.setWidth_eq _)
  constructor
  · intro hret hzero
    obtain ⟨hop, hover⟩ := retMachine_code (m1.cpu.gpr rsp)
    have hslot : readU64 (retMachine (m1.cpu.gpr rsp)).mem (m1.cpu.gpr rsp) =
        readU64 m1.mem (m1.cpu.gpr rsp) := by
      rw [retMachine_slot, h, hzero]
      rfl
    obtain ⟨m3, hx, -⟩ := hret (retMachine (m1.cpu.gpr rsp)) hover hop rfl hslot
    exact ret_halts hover hop (retMachine_slot _) rfl hx
  · intro hne m2 hover hop hsp2 hslot
    obtain ⟨m3, hx, hrip, hrsp⟩ := ret_goes hover hop (hslot.trans h) (by rwa [hback])
    refine ⟨m3, hx, hrip.trans hback, hrsp.trans ?_⟩
    rw [hsp2, hsp, BitVec.sub_add_cancel]

-- ---------------------------------------------------------------------------
-- Calling
-- ---------------------------------------------------------------------------

theorem call_is (hover : (decode (codeAt m)).2.overread = false) (hop : (insnAt m).opcode = .call) :
    execOne m = (execCall m.count (insnAt m) (nextRip m)).map Outcome.finish := by
  rw [exec_is hover hop nofun, exec, hop]

/-- The machine behind the push. -/
def pushed (m : Machine) (slot : Ptr) : Machine :=
  { m.count with
    cpu := m.count.cpu.setReg rsp (m.cpu.gpr rsp - 8)
    mem := putBytes m.mem slot (bytesOf 8 (nextRip m).toNat) }

theorem push_eq (hslot : resolve m.mem (m.cpu.gpr rsp - 8) = some slot) :
    push64 m.count (nextRip m) = if m.mem.fits slot 8 then some (pushed m slot) else none := by
  have hrsp : (m.count.setReg rsp (m.count.cpu.gpr rsp - 8)).cpu.gpr rsp = m.cpu.gpr rsp - 8 :=
    setReg_gpr m.count rsp _
  rw [push64, hrsp]
  show (wideWrite 8 m.mem (m.cpu.gpr rsp - 8) (nextRip m).toNat).map _ = _
  rw [wideWrite, hslot]
  show (storeBytes m.mem slot 8 (nextRip m).toNat).map _ = _
  unfold storeBytes
  split <;> rfl

theorem pushed_slot (hslot : resolve m.mem (m.cpu.gpr rsp - 8) = some slot)
    (hfits : m.mem.fits slot 8 = true) :
    readU64 (pushed m slot).mem (m.cpu.gpr rsp - 8) = some (nextRip m).toNat := by
  have hwrite : wideWrite 8 m.mem (m.cpu.gpr rsp - 8) (nextRip m).toNat = some (pushed m slot).mem := by
    rw [wideWrite, hslot]
    show storeBytes m.mem slot 8 (nextRip m).toNat = _
    rw [storeBytes, if_pos hfits]
    rfl
  exact (wideRead_wideWrite hslot hwrite).trans (congrArg some (Nat.mod_eq_of_lt (nextRip m).isLt))

theorem execCall_eq (hslot : resolve m.mem (m.cpu.gpr rsp - 8) = some slot)
    (hfits : m.mem.fits slot 8 = true) : execCall m.count i (nextRip m) =
      (branchTarget (pushed m slot) i.op0).bind fun rip =>
        if isThunk rip then some (.stop .syscall (((pushed m slot).setReg rsp (m.cpu.gpr rsp)).setRip (nextRip m)))
        else some (.next rip (pushed m slot)) := by
  have hpush := push_eq hslot
  rw [if_pos hfits] at hpush
  have hrsp : (pushed m slot).cpu.gpr rsp = m.cpu.gpr rsp - 8 := setReg_gpr m.count rsp _
  have hpop : pop64 (pushed m slot) =
      some (nextRip m, (pushed m slot).setReg rsp (m.cpu.gpr rsp)) := by
    rw [pop64, hrsp, pushed_slot hslot hfits, BitVec.sub_add_cancel]
    show some (BitVec.ofNat 64 (nextRip m).toNat, _) = _
    rw [BitVec.ofNat_toNat, BitVec.setWidth_eq]
  rw [execCall, hpush]
  show (branchTarget (pushed m slot) i.op0).bind _ = _
  refine congrArg _ (funext fun rip => ?_)
  rw [hpop]
  rfl

/-- The step is right where the operand reads the target after the push. -/
theorem call_step (hover : (decode (codeAt m)).2.overread = false) (hop : (insnAt m).opcode = .call)
    (hslot : resolve m.mem (m.cpu.gpr rsp - 8) = some slot) (hthunk : isThunk callee = false) :
    Calls m callee ↔ m.mem.fits slot 8 = true ∧ nextRip m ≠ 0 ∧
      branchTarget (pushed m slot) (insnAt m).op0 = some callee := by
  have hstep := call_is hover hop
  by_cases hfits : m.mem.fits slot 8 = true
  · rw [execCall_eq hslot hfits] at hstep
    rw [and_iff_right hfits]
    have hrsp : (pushed m slot).cpu.gpr rsp = m.cpu.gpr rsp - 8 := setReg_gpr m.count rsp _
    cases hb : branchTarget (pushed m slot) (insnAt m).op0 with
    | none =>
      refine iff_of_false ?_ nofun
      rintro ⟨m1, hx, -⟩
      rw [hb] at hstep
      cases hstep.symm.trans hx
    | some rip =>
      rw [hb, Option.bind_some] at hstep
      cases ht : isThunk rip with
      | true =>
        rw [ht, if_pos rfl] at hstep
        refine iff_of_false ?_ ?_
        · rintro ⟨m1, hx, -⟩
          cases (Prod.mk.inj (Option.some.inj (hstep.symm.trans hx))).1
        · rintro ⟨-, h⟩
          rw [Option.some.inj h, hthunk] at ht
          cases ht
      | false =>
        rw [ht, if_neg Bool.false_ne_true] at hstep
        have hret : Returns m ((pushed m slot).setRip rip) ↔ nextRip m ≠ 0 :=
          returns_iff ((congrArg _ hrsp).trans (pushed_slot hslot hfits)) hrsp
        constructor
        · rintro ⟨m1, hx, hrip, -, -, hback⟩
          obtain ⟨-, rfl⟩ := Prod.mk.inj (Option.some.inj (hstep.symm.trans hx))
          exact ⟨hret.1 hback, congrArg some hrip⟩
        · rintro ⟨hne, h⟩
          refine ⟨_, hstep, Option.some.inj h, hrsp, ?_, hret.2 hne⟩
          exact (congrArg _ hrsp).trans (pushed_slot hslot hfits)
  · refine iff_of_false ?_ fun h => hfits h.1
    rintro ⟨m1, hx, -⟩
    have hpush := push_eq hslot
    rw [if_neg hfits] at hpush
    rw [execCall, hpush] at hstep
    cases hstep.symm.trans hx

theorem word_eq_iff (f : Nat → Memory.Byte) (v : Word64) :
    BitVec.ofNat 64 (word f 8) = v ↔ ∀ i < 8, f i = byteAt v.toNat i := by
  have hlt : word f 8 < 2 ^ 64 := word_lt (f := f) (n := 8)
  constructor
  · rintro rfl i hi
    rw [BitVec.toNat_ofNat, Nat.mod_eq_of_lt hlt, byteAt_word hi]
  · intro h
    rw [word_congr h, word_byteAt]
    exact BitVec.eq_of_toNat_eq (by rw [BitVec.toNat_ofNat]; exact Nat.mod_eq_of_lt v.isLt ▸ by omega)

theorem reread_iff (hslot : resolve m.mem (m.cpu.gpr rsp - 8) = some slot)
    (hsize : (insnAt m).op0.size = 8) (hmem : (insnAt m).op0.type = .mem) :
    branchTarget (pushed m slot) (insnAt m).op0 = some callee ↔ Reread m slot callee := by
  have hregion : slot.region < m.mem.regions.length := by
    obtain ⟨-, r, hr, -, -⟩ := resolve_some.1 hslot
    exact (List.getElem?_eq_some_iff.1 hr).1
  have hread : branchTarget (pushed m slot) (insnAt m).op0 =
      (wideRead 8 (pushed m slot).mem (computeAddr (lowered m) (insnAt m).op0)).map (BitVec.ofNat 64) := by
    simp only [branchTarget, readOperand, hmem, readMem, hsize, reduceCtorEq, ↓reduceIte]
    rfl
  have hres : resolve (pushed m slot).mem (computeAddr (lowered m) (insnAt m).op0) =
      resolve m.mem (computeAddr (lowered m) (insnAt m).op0) := putBytes_resolve ..
  rw [hread, wideRead, hres, Reread]
  cases resolve m.mem (computeAddr (lowered m) (insnAt m).op0) with
  | none => exact Option.some_inj.trans eq_comm
  | some p =>
    have hfits : (pushed m slot).mem.fits p 8 = m.mem.fits p 8 := putBytes_fits ..
    show (loadBytes (pushed m slot).mem p 8).map _ = _ ↔ _
    rw [loadBytes, hfits]
    by_cases hp : m.mem.fits p 8 = true
    · rw [if_pos hp, Option.map_some, Option.some_inj, word_eq_iff]
      refine Iff.trans ?_ (and_iff_right hp).symm
      refine forall₂_congr fun i _ => ?_
      exact Eq.congr (putBytes_overlaid hregion _) rfl
    · rw [if_neg hp]
      exact iff_of_false (by simp) fun h => hp h.1

theorem lowered_reg (m : Machine) (h : r ≠ rsp) : (lowered m).gpr r = m.cpu.gpr r := Function.update_of_ne h ..

theorem target_kept (hslot : resolve m.mem (m.cpu.gpr rsp - 8) = some slot)
    (hop : (insnAt m).opcode = .call) (ht : branchTarget m (insnAt m).op0 = some callee) :
    branchTarget (pushed m slot) (insnAt m).op0 = some callee ↔
      match (insnAt m).op0.type with
      | .reg => (insnAt m).op0.regIndex ≠ rsp
      | .mem => Reread m slot callee
      | _ => True := by
  obtain ⟨srcs, low, md, -, hshape⟩ := insn_shape hop (by simp)
  have hsize (h : (insnAt m).op0.type ≠ .rel) : (insnAt m).op0.size = 8 := (hshape.call hop).resolve_left h
  cases htype : (insnAt m).op0.type with
  | rel =>
    refine iff_of_true (.trans ?_ ht) trivial
    simp only [branchTarget, htype, ↓reduceIte]
  | imm =>
    refine iff_of_true (.trans ?_ ht) trivial
    simp only [branchTarget, readOperand, htype]
  | none =>
    refine iff_of_true (.trans ?_ ht) trivial
    simp only [branchTarget, readOperand, htype]
  | mem => exact reread_iff hslot (hsize (by simp [htype])) htype
  | reg =>
    have h8 := hsize (by simp [htype])
    have hall (v : Word64) : v &&& maskFor 8 = v := BitVec.and_allOnes
    have hbefore : callee = m.cpu.gpr (insnAt m).op0.regIndex := by
      simp only [branchTarget, readOperand, htype, reduceCtorEq, ↓reduceIte, h8, hall] at ht
      exact (Option.some.inj ht).symm
    have hafter : branchTarget (pushed m slot) (insnAt m).op0 =
        some ((lowered m).gpr (insnAt m).op0.regIndex) := by
      simp only [branchTarget, readOperand, htype, reduceCtorEq, ↓reduceIte, h8, hall]
      rfl
    rw [hafter, Option.some_inj, hbefore]
    constructor
    · intro heq hrsp
      rw [hrsp] at heq
      have hself : (lowered m).gpr rsp = m.cpu.gpr rsp - 8 := setReg_gpr m rsp _
      rw [hself] at heq
      bv_omega
    · exact lowered_reg m

/-- CALL goes where its operand points before the push, and RET comes back, exactly where the
push moves nothing the operand depends on and the address behind the call is not 0. -/
theorem call_law (hover : (decode (codeAt m)).2.overread = false) (hop : (insnAt m).opcode = .call)
    (hslot : resolve m.mem (m.cpu.gpr rsp - 8) = some slot)
    (ht : branchTarget m (insnAt m).op0 = some callee) (hthunk : isThunk callee = false) :
    Calls m callee ↔ CallFits m slot callee := by
  rw [call_step hover hop hslot hthunk, target_kept hslot hop ht, CallFits]

/-- A call at 0x1000, with RSP at 0x1800 and 0x1200 in the other registers. -/
def callMachine (code : List Byte) : Machine := .of code fun r => if r = rsp then 0x1800 else 0x1200

/-- The slot of such a call. -/
def SlotOf (code : List Byte) : Prop := resolve (callMachine code).mem
  ((callMachine code).cpu.gpr rsp - 8) = some ⟨0, 0x7F8⟩

instance (code : List Byte) : Decidable (SlotOf code) := inferInstanceAs (Decidable (_ = _))

/-- `call rbx`. -/
theorem call_law_rbx : Calls (callMachine [0xFF, 0xD3]) 0x1200 :=
  have hslot : SlotOf [0xFF, 0xD3] := by decide +kernel
  (call_law (by decide) (by decide) hslot (by decide +kernel) (by decide)).2 (by decide +kernel)

/-- `call [rsp]` reads the return address it has pushed. -/
theorem call_pushed : ¬∀ (m : Machine) (slot : Ptr) (callee : Word64),
    (decode (codeAt m)).2.overread = false → (insnAt m).opcode = .call →
    resolve m.mem (m.cpu.gpr rsp - 8) = some slot →
    branchTarget m (insnAt m).op0 = some callee → isThunk callee = false → Calls m callee := by
  intro h
  have hslot : SlotOf [0xFF, 0x14, 0x24] := by decide +kernel
  have hcalls := h (callMachine [0xFF, 0x14, 0x24]) ⟨0, 0x7F8⟩ 0 (by decide) (by decide) hslot
    (by decide +kernel) (by decide)
  have hkept := ((call_step (by decide) (by decide) hslot (by decide)).1 hcalls).2.2
  exact absurd hkept (by decide +kernel)

end WineGlass.X86
