import WineGlass.Engine.Calls
import WineGlass.Lib.Fields

/-!
# Exceptions of the guest

The engine raises an exception by calling the handlers of a chain of records on the
guest's stack; its head is the first word of a TEB. The state of the exception in flight
is global, and the TEB is the main thread's. `dispatches` is not the program's: it says
which dispatches are in progress, the last one first. What the allocator gives and
leaves in memory is an input.
-/

namespace WineGlass.Seh

open Runs Fields
open Function (update)
open Calls (U32 U64 Cpu)

abbrev Ram := Nat → BitVec 8

def read32 (ram : Ram) (a : U32) : U32 := BitVec.ofNat 32 (get ram ⟨a.toNat, 4⟩)

def write32 (ram : Ram) (a v : U32) : Ram := set ram ⟨a.toNat, 4⟩ v.toNat

/-- Words at offsets from a base. -/
def writeWords (ram : Ram) (base : U32) (ws : List (U32 × U32)) : Ram :=
  ws.foldl (fun ram w => write32 ram (base + w.1) w.2) ram

/-- `s_seh_active` and the globals beside it. -/
structure Exception where
  active : Bool
  frame : U32
  excrec : U32
  ctx : U32
  dispctx : U32
  depth : Nat
  deriving DecidableEq, Repr

/-- What the claim of a failed raise is about. -/
def Exception.core (x : Exception) : Bool × Nat × U32 := (x.active, x.depth, x.frame)

/-- A dispatch in progress: its thread, the stack pointer where it was raised, the record
whose handler runs, and the exception state before. -/
structure Dispatch where
  thread : Nat
  esp : U32
  frame : U32
  before : Bool × Nat × U32
  deriving DecidableEq, Repr

/-- `teb` gives each thread's TEB, `mainTeb` is `s_main_teb`. -/
structure State where
  cpus : Nat → Cpu
  ram : Ram
  teb : Nat → U32
  mainTeb : U32
  seh : Exception
  dispatches : List Dispatch

def State.start (teb : Nat → U32) (main : Nat) : State :=
  ⟨fun _ => ⟨fun _ => 0, 0⟩, fun _ => 0, teb, teb main, ⟨false, 0, 0, 0, 0, 0⟩, []⟩

/-- The main thread has a TEB of its own. -/
def Own (teb : Nat → U32) (main : Nat) : Prop := ∀ t, teb t = teb main → t = main

-- ---------------------------------------------------------------------------
-- The engine
-- ---------------------------------------------------------------------------

/-- `WG_SEH_SENTINEL`. -/
def sentinel : U32 := 0xC10020

def ValidFrame (frame : U32) : Prop := 0x1000 < frame ∧ frame < 0xFFFFFFFE

instance : Decidable (ValidFrame f) := inferInstanceAs (Decidable (_ ∧ _))

def Cpu.reg32 (c : Cpu) (i : Nat) : U32 := (c.regs i).setWidth 32

/-- `wg_seh_call_handler` on the running thread. -/
def callHandler (s : State) (t : Nat) (handler frame : U32) : State :=
  let newRsp := Cpu.reg32 (s.cpus t) 4 - 20
  { s with ram := writeWords s.ram newRsp [(0, sentinel), (4, s.seh.excrec), (8, frame),
             (12, s.seh.ctx), (16, s.seh.dispctx)],
           cpus := update s.cpus t ((s.cpus t).jump newRsp handler 0) }

/-- The words of a guest `CONTEXT`. -/
def contextWords (c : Cpu) (faultRip : U32) : List (U32 × U32) :=
  [(0x00, 0x10007), (0x9C, Cpu.reg32 c 7), (0xA0, Cpu.reg32 c 6), (0xA4, Cpu.reg32 c 3),
    (0xA8, Cpu.reg32 c 2), (0xAC, Cpu.reg32 c 1), (0xB0, Cpu.reg32 c 0), (0xB4, Cpu.reg32 c 5),
    (0xB8, faultRip), (0xC4, Cpu.reg32 c 4), (0xC0, 0x202), (0xBC, 0x1B), (0xC8, 0x23)]

/-- The arguments of `wg_raise_guest_exception`, and what its allocations give. -/
structure Fault where
  code : U32
  addr : U32
  rip : U32
  isWrite : Bool
  ctx : U32
  excrec : U32
  dispctx : U32
  heap : Ram

def Fault.allocated (x : Fault) : Bool := x.ctx ≠ 0 ∧ x.excrec ≠ 0 ∧ x.dispctx ≠ 0

/-- Memory with the `CONTEXT` and the exception record. -/
def Fault.filled (x : Fault) (c : Cpu) : Ram :=
  writeWords (writeWords x.heap x.ctx (contextWords c x.rip)) x.excrec
    [(0, x.code), (4, 0), (8, 0), (12, x.rip), (16, 2), (20, if x.isWrite then 1 else 0),
      (24, x.addr)]

/-- Where the chain starts for `wg_raise_guest_exception`. -/
def chainHead (s : State) : U32 := read32 s.ram s.mainTeb

def Fault.handler (x : Fault) (s : State) (t : Nat) : U32 :=
  read32 (x.filled (s.cpus t)) (chainHead s + 4)

/-- `wg_raise_guest_exception`. -/
def raise (s : State) (t : Nat) (x : Fault) : State × Bool :=
  if 8 < s.seh.depth then (s, false)
  else if ¬ ValidFrame (chainHead s) then (s, false)
  else if !x.allocated then ({ s with ram := x.heap }, false)
  else
    let raised := { s with
      ram := x.filled (s.cpus t)
      seh := ⟨true, chainHead s, x.excrec, x.ctx, x.dispctx, s.seh.depth + 1⟩ }
    if x.handler s t ≤ 0x1000 then ({ raised with seh := { raised.seh with active := false } }, false)
    else (callHandler raised t (x.handler s t) (chainHead s), true)

/-- The registers of a guest `CONTEXT`. -/
def resume (s : State) (t : Nat) : Cpu :=
  let w := fun off => read32 s.ram (s.seh.ctx + off)
  let regs := fun i => if i = 1 then (w 0xAC).setWidth 64 else if i = 2 then (w 0xA8).setWidth 64
    else if i = 3 then (w 0xA4).setWidth 64 else if i = 5 then (w 0xB4).setWidth 64
    else if i = 6 then (w 0xA0).setWidth 64 else if i = 7 then (w 0x9C).setWidth 64
    else (s.cpus t).regs i
  (Cpu.mk regs 0).jump (w 0xC4) (w 0xB8) (w 0xB0)

/-- The record the search goes on with, if there is one with a handler. -/
def nextFrame (s : State) : Option U32 :=
  let next := read32 s.ram s.seh.frame
  if ValidFrame next ∧ s.seh.frame < next ∧ 0x1000 < read32 s.ram (next + 4) then some next
  else none

def Exception.over (x : Exception) : Exception := { x with active := false, depth := 0 }

/-- `handle_blink_thunk` at `WG_SEH_SENTINEL`. -/
def disposition (s : State) (t : Nat) (disp : U32) : State :=
  if disp = 0 then
    { s with cpus := update s.cpus t (resume s t), seh := s.seh.over }
  else
    match nextFrame s with
    | some next =>
      callHandler { s with seh := { s.seh with frame := next } } t (read32 s.ram (next + 4)) next
    | none => { s with seh := s.seh.over, cpus := update s.cpus t { s.cpus t with rip := 0 } }

/-- `RtlUnwind`, called with the given return address and clean stack pointer. -/
def rtlUnwind (s : State) (t : Nat) (target value retAddr cleanRsp : U32) : State :=
  { s with ram := if ValidFrame target then write32 s.ram s.mainTeb target else s.ram,
           seh := s.seh.over,
           cpus := update s.cpus t ((s.cpus t).jump cleanRsp retAddr value) }

-- ---------------------------------------------------------------------------
-- Runs
-- ---------------------------------------------------------------------------

/-- Threads run in any order; `guest` is whatever one does by itself. -/
inductive Action
  | guest (t : Nat) (c : Cpu) (ram : Ram)
  | raise (t : Nat) (x : Fault)
  | disposition (t : Nat) (disp : U32)
  | unwind (t : Nat) (target value retAddr cleanRsp : U32)

/-- The dispatch of a thread that goes on last. -/
def State.innermost (s : State) (t : Nat) : Option Dispatch :=
  s.dispatches.find? fun d => d.thread = t

/-- The unwinding thread leaves the stack below the target, and the handlers there. -/
def Abandoned (t : Nat) (target : U32) (d : Dispatch) : Prop :=
  d.thread = t ∧ (ValidFrame target → d.esp ≤ target)

instance : Decidable (Abandoned t target d) := inferInstanceAs (Decidable (_ ∧ (_ → _)))

def begin (s : State) (t : Nat) : Dispatch :=
  ⟨t, Cpu.reg32 (s.cpus t) 4, read32 s.ram (s.teb t), s.seh.core⟩

/-- The label says what `wg_raise_guest_exception` returned. -/
def step (s : State) : Action → Option (State × Bool)
  | .guest t c ram => some ({ s with cpus := update s.cpus t c, ram }, true)
  | .raise t x =>
    let r := raise s t x
    let dispatches := if r.2 then begin s t :: s.dispatches else s.dispatches
    some ({ r.1 with dispatches }, r.2)
  | .disposition t disp =>
    match s.innermost t with
    | none => none
    | some d =>
      let dispatches :=
        if disp ≠ 0 ∧ (nextFrame s).isSome then
          s.dispatches.replaceF fun e =>
            if e.thread = t then some { e with frame := read32 s.ram d.frame } else none
        else s.dispatches.eraseP fun e => e.thread = t
      some ({ disposition s t disp with dispatches }, true)
  | .unwind t target value retAddr cleanRsp =>
    some ({ rtlUnwind s t target value retAddr cleanRsp with
      dispatches := s.dispatches.filter fun d => ¬ Abandoned t target d }, true)

/-- Only the main thread raises and unwinds, the first record has a handler, the code that
goes on is in the only dispatch, a search comes to its end with the state as it was
before the raise, and unwinding abandons every dispatch. -/
def Proper (s : State) : Action → Prop
  | .guest .. => True
  | .raise t x => s.seh.depth ≤ 8 → s.teb t = s.mainTeb ∧
      (ValidFrame (chainHead s) → x.allocated = true → 0x1000 < x.handler s t)
  | .disposition _ disp =>
    if disp = 0 then s.dispatches.length = 1
    else nextFrame s = none → s.dispatches.map Dispatch.before = [(false, 0, s.seh.frame)]
  | .unwind t target .. =>
    (ValidFrame target → s.teb t = s.mainTeb) ∧ ∀ d ∈ s.dispatches, Abandoned t target d

/-- The steps work on the thread that takes them. -/
def Works (s : State) (a : Action) (s' : State) (raised : Bool) : Prop :=
  match a with
  | .guest .. => True
  | .raise t x =>
    if raised then ValidFrame (read32 s.ram (s.teb t)) ∧ s'.seh.frame = read32 s.ram (s.teb t)
    else s'.seh.core = s.seh.core ∧
      (8 < s.seh.depth ∨ ¬ ValidFrame (read32 s.ram (s.teb t)) ∨ x.allocated = false)
  | .disposition t disp => ∃ d, s.innermost t = some d ∧
      (disp ≠ 0 → if s'.dispatches.length < s.dispatches.length then s'.seh.core = d.before
        else s'.seh.frame = read32 s.ram d.frame)
  | .unwind t target .. =>
    (ValidFrame target → read32 s'.ram (s.teb t) = target) ∧
      ∀ i, ¬ Extent.Has ⟨(s.teb t).toNat, 4⟩ i → s'.ram i = s.ram i

-- ---------------------------------------------------------------------------
-- What a step can do
-- ---------------------------------------------------------------------------

@[simp] theorem callHandler_seh : (callHandler s t handler frame).seh = s.seh := rfl
@[simp] theorem callHandler_teb : (callHandler s t handler frame).teb = s.teb := rfl
@[simp] theorem callHandler_mainTeb : (callHandler s t handler frame).mainTeb = s.mainTeb := rfl

/-- A proper raise is refused, with the state as it was, or calls the first handler. -/
theorem raise_cases (hok : Proper s (.raise t x)) :
    (∃ ram, raise s t x = ({ s with ram }, false) ∧
      (8 < s.seh.depth ∨ s.teb t = s.mainTeb ∧ ¬ ValidFrame (chainHead s) ∨ x.allocated = false)) ∨
    (s.seh.depth ≤ 8 ∧ s.teb t = s.mainTeb ∧ ValidFrame (chainHead s) ∧
      raise s t x = (callHandler { s with
        ram := x.filled (s.cpus t)
        seh := ⟨true, chainHead s, x.excrec, x.ctx, x.dispctx, s.seh.depth + 1⟩ } t (x.handler s t)
          (chainHead s), true)) := by
  unfold raise
  by_cases hdepth : 8 < s.seh.depth
  · exact .inl ⟨s.ram, if_pos hdepth, .inl hdepth⟩
  · obtain ⟨hteb, hhandler⟩ := hok (Nat.not_lt.1 hdepth)
    rw [if_neg hdepth]
    by_cases hvalid : ValidFrame (chainHead s)
    · rw [if_neg (not_not.2 hvalid)]
      by_cases halloc : x.allocated = true
      · rw [if_neg (by simp [halloc]), if_neg (BitVec.not_le.2 (hhandler hvalid halloc))]
        exact .inr ⟨Nat.not_lt.1 hdepth, hteb, hvalid, rfl⟩
      · rw [if_pos (by simpa using halloc)]
        exact .inl ⟨x.heap, rfl, .inr (.inr (by simpa using halloc))⟩
    · exact .inl ⟨s.ram, if_pos hvalid, .inr (.inl ⟨hteb, hvalid⟩)⟩

theorem disposition_cases (h : step s (.disposition t disp) = some (s', e)) :
    ∃ d, s.innermost t = some d ∧
      ((disp ≠ 0 ∧ ∃ next, nextFrame s = some next ∧ s'.seh = { s.seh with frame := next } ∧
          s'.dispatches = s.dispatches.replaceF fun e =>
            if e.thread = t then some { e with frame := read32 s.ram d.frame } else none) ∨
        ((disp = 0 ∨ nextFrame s = none) ∧ s'.seh = s.seh.over ∧
          s'.dispatches = s.dispatches.eraseP fun e => e.thread = t)) ∧
      s'.teb = s.teb ∧ s'.mainTeb = s.mainTeb := by
  simp only [step] at h
  split at h
  · cases h
  · rename_i d hd
    obtain rfl : _ = s' := congrArg Prod.fst (Option.some.inj h)
    refine ⟨d, hd, ?_⟩
    unfold disposition
    by_cases hdisp : disp = 0
    · simp [hdisp]
    · rw [if_neg hdisp]
      cases hnext : nextFrame s with
      | none => simp
      | some next =>
        have hne : ¬ disp = 0#32 := hdisp
        simp [hne]

-- ---------------------------------------------------------------------------
-- The invariant
-- ---------------------------------------------------------------------------

/-- Every dispatch in progress is the main thread's, and the last one's record is the
global one. -/
structure Inv (teb : Nat → U32) (main : Nat) (s : State) : Prop where
  tebs : s.teb = teb ∧ s.mainTeb = teb main
  depth : s.seh.depth = s.dispatches.length
  owner : ∀ d ∈ s.dispatches, d.thread = main
  top : ∀ d ∈ s.dispatches.head?, d.frame = s.seh.frame

theorem Inv.start : Inv teb main (.start teb main) :=
  ⟨⟨rfl, rfl⟩, rfl, List.forall_mem_nil _, fun _ hd => nomatch hd⟩

/-- The one thread that raises is the thread of every dispatch. -/
theorem Inv.innermost (hi : Inv teb main s)
    (hd : s.innermost t = some d) : ∃ rest, s.dispatches = d :: rest ∧ d.thread = t := by
  have hdt : d.thread = t := of_decide_eq_true (List.find?_some hd :)
  have hmain := hi.owner d (List.mem_of_find?_eq_some hd)
  unfold State.innermost at hd
  cases hl : s.dispatches with
  | nil => simp [hl] at hd
  | cons e rest =>
    have he : e.thread = t := by
      rw [hi.owner e (hl ▸ List.mem_cons_self), ← hmain, hdt]
    have hhead : (e :: rest).find? (fun d => decide (d.thread = t)) = some e :=
      List.find?_cons_of_pos (decide_eq_true he)
    rw [hl, hhead] at hd
    obtain rfl := Option.some.inj hd
    exact ⟨rest, rfl, hdt⟩

/-- The search goes on from the thread's own record. -/
theorem nextFrame_eq (h : nextFrame s = some next) : next = read32 s.ram s.seh.frame := by
  simp only [nextFrame] at h
  split at h
  · exact (Option.some.inj h).symm
  · cases h

theorem Inv.ofEmpty (ht : s.teb = teb ∧ s.mainTeb = teb main) (hd : s.seh.depth = 0)
    (he : s.dispatches = []) : Inv teb main s := by
  refine ⟨ht, by rw [hd, he]; rfl, fun d hm => ?_, fun d hm => ?_⟩
  · rw [he] at hm
    cases hm
  · rw [he] at hm
    cases hm

theorem step_inv (hown : Own teb main) (hi : Inv teb main s) (hok : Proper s a)
    (hs : step s a = some (s', e)) : Inv teb main s' := by
  cases a with
  | guest t c ram =>
    obtain rfl : _ = s' := congrArg Prod.fst (Option.some.inj hs)
    exact ⟨hi.tebs, hi.depth, hi.owner, hi.top⟩
  | raise t x =>
    obtain rfl : _ = s' := congrArg Prod.fst (Option.some.inj hs)
    obtain ⟨ram, hr, -⟩ | ⟨-, hteb, -, hr⟩ := raise_cases hok
    · simp only [hr]
      exact ⟨hi.tebs, hi.depth, hi.owner, hi.top⟩
    · simp only [hr]
      refine ⟨hi.tebs, congrArg (· + 1) hi.depth, List.forall_mem_cons.2 ⟨?_, hi.owner⟩, ?_⟩
      · rw [hi.tebs.1, hi.tebs.2] at hteb
        exact hown t hteb
      · rintro d ⟨⟩
        simp only [begin, hteb]
        rfl
  | disposition t disp =>
    obtain ⟨d, hd, hcase, hteb, hmain⟩ := disposition_cases hs
    obtain ⟨rest, hl, hdt⟩ := hi.innermost hd
    have htebs : s'.teb = teb ∧ s'.mainTeb = teb main :=
      ⟨hteb.trans hi.tebs.1, hmain.trans hi.tebs.2⟩
    have howner := hi.owner
    have hdepth := hi.depth
    rw [hl] at howner hdepth
    obtain ⟨-, next, hnext, hseh, hdis⟩ | ⟨hend, hseh, hdis⟩ := hcase
    · have hframe : d.frame = s.seh.frame := hi.top d (by rw [hl]; rfl)
      have hlist : s'.dispatches = { d with frame := read32 s.ram d.frame } :: rest := by
        simp [hdis, hl, hdt]
      obtain ⟨hd, hrest⟩ := List.forall_mem_cons.1 howner
      refine ⟨htebs, ?_, ?_, ?_⟩ <;> rw [hlist]
      · rw [hseh]
        exact hdepth
      · exact List.forall_mem_cons.2 ⟨hd, hrest⟩
      · rintro e ⟨⟩
        rw [hseh, nextFrame_eq hnext, hframe]
    · have hone : s.dispatches.length = 1 := by
        simp only [Proper] at hok
        split at hok
        · exact hok
        · rename_i hdisp
          have hlen := congrArg List.length (hok (hend.resolve_left hdisp))
          simpa using hlen
      rw [hl] at hone
      have hrest : rest = [] := List.length_eq_zero_iff.1 (Nat.succ.inj hone)
      refine .ofEmpty htebs (by rw [hseh]; rfl) ?_
      simp [hdis, hl, hdt, hrest]
  | unwind t target value retAddr cleanRsp =>
    obtain rfl : _ = s' := congrArg Prod.fst (Option.some.inj hs)
    refine .ofEmpty hi.tebs rfl ?_
    exact List.filter_eq_nil_iff.2 fun d hd => by simpa using hok.2 d hd

-- ---------------------------------------------------------------------------
-- The law
-- ---------------------------------------------------------------------------

theorem read32_write32 (ram : Ram) (a v : U32) : read32 (write32 ram a v) a = v := by
  have hv : v.toNat < 256 ^ 4 := v.isLt
  rw [read32, write32, get_set, Nat.mod_eq_of_lt hv, BitVec.ofNat_toNat, BitVec.setWidth_eq]

theorem Inv.works (hi : Inv teb main s) (hok : Proper s a)
    (hs : step s a = some (s', e)) : Works s a s' e := by
  cases a with
  | guest t c ram => trivial
  | raise t x =>
    obtain ⟨rfl, rfl⟩ := Prod.mk.inj (Option.some.inj hs)
    obtain ⟨ram, hr, hwhy⟩ | ⟨hdepth, hteb, hvalid, hr⟩ := raise_cases hok
    · simp only [Works, hr]
      refine ⟨trivial, hwhy.imp_right (Or.imp_left ?_)⟩
      rintro ⟨hteb, hno⟩
      rwa [hteb]
    · simp only [Works, hr, hteb]
      exact ⟨hvalid, rfl⟩
  | disposition t disp =>
    obtain ⟨d, hd, hcase, -⟩ := disposition_cases hs
    obtain ⟨rest, hl, hdt⟩ := hi.innermost hd
    refine ⟨d, hd, fun hdisp => ?_⟩
    obtain ⟨-, next, hnext, hseh, hdis⟩ | ⟨hend, hseh, hdis⟩ := hcase
    · have hframe : d.frame = s.seh.frame := hi.top d (by rw [hl]; rfl)
      have hlen : s'.dispatches.length = s.dispatches.length := by simp [hdis, hl, hdt]
      rw [if_neg (Nat.not_lt.2 hlen.ge), hseh, nextFrame_eq hnext, hframe]
    · have hlen : s'.dispatches.length < s.dispatches.length := by simp [hdis, hl, hdt]
      simp only [Proper, if_neg hdisp, hl, List.map_cons] at hok
      obtain ⟨hbefore, -⟩ := List.cons.inj (hok (hend.resolve_left hdisp))
      rw [if_pos hlen, hseh, hbefore]
      rfl
  | unwind t target value retAddr cleanRsp =>
    obtain rfl : _ = s' := congrArg Prod.fst (Option.some.inj hs)
    obtain ⟨hteb, -⟩ := hok
    simp only [Works, rtlUnwind]
    split
    · rename_i hvalid
      rw [hteb hvalid]
      exact ⟨fun _ => read32_write32 .., fun i hi => set_outside hi⟩
    · rename_i hvalid
      exact ⟨fun h => absurd h hvalid, fun _ _ => rfl⟩

/-- In a run of proper steps the depth is the number of dispatches in progress, and every
proper step works on the thread that takes it. -/
theorem seh_law (hown : Own teb main)
    (h : Run step Proper (.start teb main) tr s) : s.seh.depth = s.dispatches.length ∧
      ∀ a s' e, Proper s a → step s a = some (s', e) → Works s a s' e := by
  have hinv : Inv teb main s := h.invariant (P := fun _ s => Inv teb main s) .start
    fun hi hok hs => step_inv hown hi hok hs
  exact ⟨hinv.depth, fun a s' e hok hs => hinv.works hok hs⟩

/-- The TEBs of a program; its main thread is thread 0. -/
def tebs (t : Nat) : U32 := if t = 0 then 0x70000000 else 0x70010000

theorem tebs_own : Own tebs 0 := by
  intro t h
  unfold tebs at h
  split at h
  · assumption
  · exact absurd h (by decide)

/-- The chain of the main thread starts at `0x7F0000`, that of the others at `0x7E0000`. -/
def chains : Ram :=
  writeWords (fun _ => 0) 0 [(0x70000000, 0x7F0000), (0x70010000, 0x7E0000),
    (0x7F0004, 0x401000), (0x7E0004, 0x402000)]

def fault : Fault := ⟨0xC0000005, 0, 0x403000, false, 0x20001000, 0x20002000, 0x20003000, chains⟩

def prepared : State :=
  { State.start tebs 0 with cpus := update (State.start tebs 0).cpus 0 ⟨fun _ => 0, 0⟩
                            ram := chains }

theorem prepared_run {ok : State → Action → Prop} (hok : ok (.start tebs 0) (.guest 0 ⟨fun _ => 0, 0⟩ chains)) :
    Run step ok (.start tebs 0) [(.guest 0 ⟨fun _ => 0, 0⟩ chains, true)] prepared :=
  .single hok rfl

theorem raise_step (h : (raise s t x).2 = true) :
    step s (.raise t x) = some ({ (raise s t x).1 with dispatches := begin s t :: s.dispatches }, true) := by
  simp only [step, h, ↓reduceIte]

theorem seh_law_raise : ∃ tr s s', Run step Proper (.start tebs 0) tr s ∧
    step s (.raise 0 fault) = some (s', true) ∧ s.seh.depth = s.dispatches.length ∧
      Works s (.raise 0 fault) s' true := by
  have hraise : (raise prepared 0 fault).2 = true := by decide +kernel
  have hok : Proper prepared (.raise 0 fault) := fun _ => ⟨rfl, fun _ _ => by decide +kernel⟩
  obtain ⟨hdepth, hworks⟩ := seh_law tebs_own (prepared_run trivial)
  exact ⟨_, _, _, prepared_run trivial, raise_step hraise, hdepth, hworks _ _ _ hok (raise_step hraise)⟩

/-- A fault of another thread goes to the handlers of the main thread. -/
theorem other_chain : ∃ tr s s', Run step anyStep (.start tebs 0) tr s ∧
    step s (.raise 1 fault) = some (s', true) ∧ ¬ Works s (.raise 1 fault) s' true := by
  have hraise : (raise prepared 1 fault).2 = true := by decide +kernel
  have hframe : (raise prepared 1 fault).1.seh.frame ≠ read32 prepared.ram (prepared.teb 1) := by
    decide +kernel
  exact ⟨_, _, _, prepared_run trivial, raise_step hraise, fun h => hframe h.2⟩

end WineGlass.Seh
