import WineGlass.Lib.Run

/-!
# Calls of window procedures

The engine calls a window procedure of a 32-bit program by jumping into it with a
sentinel as return address. One stack of 64 frames serves all guest threads, one set of
globals the modal dialogs. `pending` and the thread numbers on the call stack are not
the program's: they say which calls each thread has made and not finished. The
arguments that go to the guest's stack are left out.
-/

namespace WineGlass.Calls

open Runs
open Function (update)

abbrev U32 := BitVec 32
abbrev U64 := BitVec 64

/-- What the scheduler keeps of a thread. -/
structure Cpu where
  regs : Nat → U64
  rip : U64

/-- The handlers set RSP, RIP and EAX and leave the rest. -/
def Cpu.jump (c : Cpu) (rsp rip eax : U32) : Cpu where
  regs := update (update c.regs 4 (rsp.setWidth 64)) 0 (eax.setWidth 64)
  rip := rip.setWidth 64

/-- `WGPendingCall`. -/
structure PendingCall where
  retAddr : U32
  retRsp : U32
  ovrEax : U32
  ovr : Bool
  savedRegs : Nat → U64

structure Dialog where
  hwnd : U32
  retAddr : U32
  retRsp : U32
  deriving DecidableEq, Repr

/-- `s_dlg_active` and the globals beside it. -/
structure DialogState where
  active : Bool
  dialog : Dialog
  proc : U32
  result : U32

/-- A call a thread has not come back from. -/
inductive Activation
  | call (p : PendingCall)
  | dialog (d : Dialog)

/-- The top of the call stack comes first. -/
structure State where
  cpus : Nat → Cpu
  callstack : List (Nat × PendingCall)
  dlg : DialogState
  pending : Nat → List Activation

def State.init : State :=
  ⟨fun _ => ⟨fun _ => 0, 0⟩, [], ⟨false, ⟨0, 0, 0⟩, 0, 1⟩, fun _ => []⟩

/-- The arguments of `wg_call_wndproc_ovr`; `sync` marks the callers that do not look at
what it returns. -/
structure Request where
  proc : U32
  retAddr : U32
  cleanRsp : U32
  ovr : Bool
  ovrEax : U32
  sync : Bool

-- ---------------------------------------------------------------------------
-- The engine
-- ---------------------------------------------------------------------------

def Request.frame (r : Request) (c : Cpu) : PendingCall :=
  ⟨r.retAddr, r.cleanRsp, r.ovrEax, r.ovr, c.regs⟩

def maxDepth : Nat := 64

/-- `wg_call_wndproc_ovr`; `none` is its `false`. -/
def callWndproc (s : State) (t : Nat) (r : Request) : Option State :=
  if r.proc = 0 ∨ maxDepth ≤ s.callstack.length then none
  else
    let p := r.frame (s.cpus t)
    some { s with cpus := update s.cpus t ((s.cpus t).jump (r.cleanRsp - 20) r.proc 0),
                  callstack := (t, p) :: s.callstack,
                  pending := update s.pending t (.call p :: s.pending t) }

/-- `SendMessage` and the others: without a frame they answer their caller. -/
def call (s : State) (t : Nat) (r : Request) : State :=
  match callWndproc s t r with
  | some s' => s'
  | none =>
    if r.sync then s
    else
      let eax := if r.ovr then r.ovrEax else 0
      { s with cpus := update s.cpus t ((s.cpus t).jump r.cleanRsp r.retAddr eax) }

def Cpu.restore (c : Cpu) (p : PendingCall) : Cpu :=
  let result := if p.ovr then p.ovrEax else (c.regs 0).setWidth 32
  let saved := fun i => if i < 16 then p.savedRegs i else c.regs i
  (Cpu.mk saved c.rip).jump p.retRsp p.retAddr result

/-- `handle_blink_thunk` at `WG_SENDMSG_SENTINEL`. -/
def sentinel (s : State) (t : Nat) : State :=
  match s.callstack with
  | [] => { s with cpus := update s.cpus t { s.cpus t with rip := 0 } }
  | (_, p) :: rest =>
    { s with callstack := rest, cpus := update s.cpus t ((s.cpus t).restore p) }

/-- `DialogBoxParamW`; without a procedure it returns at once. -/
def dialogBox (s : State) (t : Nat) (proc : U32) (d : Dialog) : State :=
  if proc = 0 then
    { s with cpus := update s.cpus t ((s.cpus t).jump d.retRsp d.retAddr 0) }
  else
    { s with cpus := update s.cpus t ((s.cpus t).jump (d.retRsp - 20) proc 0),
             dlg := ⟨true, d, proc, 1⟩,
             pending := update s.pending t (.dialog d :: s.pending t) }

/-- `EndDialog`, called with the given return address and clean stack pointer. -/
def endDialog (s : State) (t : Nat) (result retAddr cleanRsp : U32) : State :=
  if s.dlg.active then
    { s with dlg := { s.dlg with active := false, result },
             callstack := [],
             cpus := update s.cpus t
              ((s.cpus t).jump s.dlg.dialog.retRsp s.dlg.dialog.retAddr result) }
  else { s with cpus := update s.cpus t ((s.cpus t).jump cleanRsp retAddr 1) }

-- ---------------------------------------------------------------------------
-- Runs
-- ---------------------------------------------------------------------------

/-- The calls made inside the innermost dialog, the dialog, and what it was opened in. -/
def innermost : List Activation → Option (List PendingCall × Dialog × List Activation)
  | [] => none
  | .dialog d :: l => some ([], d, l)
  | .call p :: l => (innermost l).map fun r => (p :: r.1, r.2)

/-- Threads run in any order; `guest` is whatever one does by itself. In `endDialog` thread
`t` ends the dialog `hDlg` of thread `u`. -/
inductive Action
  | guest (t : Nat) (c : Cpu)
  | call (t : Nat) (r : Request)
  | ret (t : Nat)
  | dialogBox (t : Nat) (proc : U32) (d : Dialog)
  | endDialog (t u : Nat) (hDlg result retAddr cleanRsp : U32)

/-- A thread comes to the sentinel from the call it made last, and a dialog is ended when
none opened inside it is left. -/
def step (s : State) : Action → Option (State × Unit)
  | .guest t c => some ({ s with cpus := update s.cpus t c }, ())
  | .call t r => some (call s t r, ())
  | .ret t =>
    match s.pending t with
    | .call _ :: l => some ({ sentinel s t with pending := update s.pending t l }, ())
    | _ => none
  | .dialogBox t proc d => some (dialogBox s t proc d, ())
  | .endDialog t u hDlg result retAddr cleanRsp =>
    match innermost (s.pending u) with
    | none => none
    | some (_, d, l) =>
      if d.hwnd = hDlg then
        some ({ endDialog s t result retAddr cleanRsp with pending := update s.pending u l }, ())
      else none

/-- Dialogs do not nest, and one is ended by its own thread with no frame left but of
calls made inside it. -/
def Modal (s : State) : Action → Prop
  | .dialogBox _ proc _ => proc ≠ 0 → s.dlg.active = false
  | .endDialog t u .. => t = u ∧ (∀ f ∈ s.callstack, f.1 = u) ∧
      ∀ r ∈ innermost (s.pending u), s.callstack.length ≤ r.1.length
  | _ => True

/-- Calls find room, and the frame on top is of the thread that returns. -/
def Orderly (s : State) (a : Action) : Prop :=
  Modal s a ∧
    match a with
    | .call _ r => r.proc = 0 ∨ r.sync = true ∨ s.callstack.length < maxDepth
    | .ret t => s.callstack.head?.map Prod.fst = some t
    | _ => True

/-- A thread is back from a call. -/
structure Resumed (p : PendingCall) (before after : Cpu) : Prop where
  rip : after.rip = p.retAddr.setWidth 64
  rsp : after.regs 4 = p.retRsp.setWidth 64
  saved : ∀ i < 16, i ≠ 0 → i ≠ 4 → after.regs i = p.savedRegs i
  eax : after.regs 0 = (if p.ovr then p.ovrEax else (before.regs 0).setWidth 32).setWidth 64

/-- Who returns comes back from its own last call; a call is made, or asked for again. -/
def Returns (s : State) (a : Action) (s' : State) : Prop :=
  match a with
  | .ret t => (∃ p l, s.pending t = .call p :: l ∧ Resumed p (s.cpus t) (s'.cpus t)) ∧
      ∀ u, u ≠ t → s'.cpus u = s.cpus u
  | .call t r => r.proc = 0 ∨ s' = s ∨
      s'.pending t = .call (r.frame (s.cpus t)) :: s.pending t
  | _ => True

def dialogs (l : List Activation) : List Dialog :=
  l.filterMap fun | .call _ => none | .dialog d => some d

def calls (l : List Activation) : List PendingCall :=
  l.filterMap fun | .call p => some p | .dialog _ => none

/-- The frames of a thread. -/
def frames (stack : List (Nat × PendingCall)) (v : Nat) : List PendingCall :=
  (stack.filter fun f => f.1 = v).map Prod.snd

/-- The globals hold every dialog that has not been ended. -/
def Recorded (s : State) : Prop :=
  ∀ v, ∀ d ∈ dialogs (s.pending v), s.dlg.active = true ∧ s.dlg.dialog = d

/-- The call that created the dialog returns, and nothing outside it is lost. -/
structure Closes (s : State) (u : Nat) (hDlg result : U32) (s' : State) : Prop where
  returned : ∃ ps d l, innermost (s.pending u) = some (ps, d, l) ∧ d.hwnd = hDlg ∧
    s'.pending u = l ∧ s'.cpus u = (s.cpus u).jump d.retRsp d.retAddr result ∧
    ∀ v, frames s'.callstack v =
      if v = u then (frames s.callstack v).drop ps.length else frames s.callstack v
  others : ∀ v, v ≠ u → s'.cpus v = s.cpus v ∧ s'.pending v = s.pending v
  outer : Recorded s'

-- ---------------------------------------------------------------------------
-- What is pending
-- ---------------------------------------------------------------------------

@[simp] theorem dialogs_call : dialogs (.call p :: l) = dialogs l := rfl
@[simp] theorem dialogs_dialog : dialogs (.dialog d :: l) = d :: dialogs l := rfl
@[simp] theorem calls_call : calls (.call p :: l) = p :: calls l := rfl
@[simp] theorem calls_dialog : calls (.dialog d :: l) = calls l := rfl

theorem innermost_spec (h : innermost l = some (ps, d, l')) :
    dialogs l = d :: dialogs l' ∧ calls l = ps ++ calls l' := by
  induction l generalizing ps with
  | nil => cases h
  | cons a l ih =>
    cases a with
    | call p =>
      obtain ⟨⟨qs, e⟩, hr, heq⟩ := Option.map_eq_some_iff.1 h
      obtain ⟨rfl, rfl⟩ := Prod.mk.inj heq
      obtain ⟨hd, hc⟩ := ih hr
      exact ⟨hd, congrArg (p :: ·) hc⟩
    | dialog e =>
      obtain ⟨rfl, he⟩ := Prod.mk.inj (Option.some.inj h)
      obtain ⟨rfl, rfl⟩ := Prod.mk.inj he
      exact ⟨rfl, rfl⟩

theorem callWndproc_cases (s : State) (t : Nat) (r : Request) :
    (callWndproc s t r = none ∧ (r.proc = 0 ∨ maxDepth ≤ s.callstack.length)) ∨
    callWndproc s t r = some { s with
      cpus := update s.cpus t ((s.cpus t).jump (r.cleanRsp - 20) r.proc 0)
      callstack := (t, r.frame (s.cpus t)) :: s.callstack
      pending := update s.pending t (.call (r.frame (s.cpus t)) :: s.pending t) } := by
  unfold callWndproc
  split
  · rename_i h
    exact .inl ⟨rfl, h⟩
  · exact .inr rfl

/-- A call is made, or at most the thread's registers change. -/
theorem call_cases (s : State) (t : Nat) (r : Request) :
    ((r.proc = 0 ∨ maxDepth ≤ s.callstack.length) ∧ (r.sync = true → call s t r = s) ∧
      ∃ c, call s t r = { s with cpus := update s.cpus t c }) ∨
    call s t r = { s with
      cpus := update s.cpus t ((s.cpus t).jump (r.cleanRsp - 20) r.proc 0)
      callstack := (t, r.frame (s.cpus t)) :: s.callstack
      pending := update s.pending t (.call (r.frame (s.cpus t)) :: s.pending t) } := by
  unfold call
  obtain ⟨hn, hno⟩ | hs := callWndproc_cases s t r
  · rw [hn]
    refine .inl ⟨hno, fun hsync => if_pos hsync, ?_⟩
    dsimp only
    split
    · exact ⟨s.cpus t, by rw [Function.update_eq_self]⟩
    · exact ⟨_, rfl⟩
  · rw [hs]
    exact .inr rfl

theorem ret_cases (h : step s (.ret t) = some (s', e)) : ∃ p l, s.pending t = .call p :: l ∧
    s' = { sentinel s t with pending := update s.pending t l } := by
  simp only [step] at h
  split at h
  · rename_i p l hp
    exact ⟨p, l, hp, (congrArg Prod.fst (Option.some.inj h)).symm⟩
  · cases h

theorem endDialog_cases (h : step s (.endDialog t u hDlg result retAddr cleanRsp) = some (s', e)) :
    ∃ ps d l, innermost (s.pending u) = some (ps, d, l) ∧ d.hwnd = hDlg ∧
      s' = { endDialog s t result retAddr cleanRsp with pending := update s.pending u l } := by
  simp only [step] at h
  split at h
  · cases h
  · rename_i ps d l hin
    split at h
    · rename_i hd
      exact ⟨ps, d, l, hin, hd, (congrArg Prod.fst (Option.some.inj h)).symm⟩
    · cases h

-- ---------------------------------------------------------------------------
-- Dialogs
-- ---------------------------------------------------------------------------

/-- The one dialog of a run in which they do not nest. -/
structure Single (s : State) : Prop where
  recorded : Recorded s
  one : ∀ v, (dialogs (s.pending v)).length ≤ 1
  owner : ∀ v w, dialogs (s.pending v) ≠ [] → dialogs (s.pending w) ≠ [] → v = w

theorem Single.init : Single .init := by
  refine ⟨fun v d hd => ?_, fun v => Nat.zero_le 1, fun v w hv => absurd rfl hv⟩
  exact absurd hd List.not_mem_nil

theorem Single.congr (h : Single s) (hd : ∀ v, dialogs (s'.pending v) = dialogs (s.pending v))
    (hdlg : s'.dlg = s.dlg) : Single s' := by
  refine ⟨fun v d hv => ?_, fun v => ?_, fun v w hv hw => ?_⟩
  · rw [hdlg]
    exact h.recorded v d (hd v ▸ hv)
  · exact hd v ▸ h.one v
  · exact h.owner v w (hd v ▸ hv) (hd w ▸ hw)

/-- An update that keeps the dialogs of a thread keeps all. -/
theorem dialogs_update {f : Nat → List Activation} (h : dialogs l = dialogs (f t)) :
    dialogs (update f t l v) = dialogs (f v) := by
  by_cases hv : v = t
  · subst hv
    rw [Function.update_self, h]
  · rw [Function.update_of_ne hv]

theorem Single.empty (h : Single s) (hf : s.dlg.active = false) (v : Nat) :
    dialogs (s.pending v) = [] := by
  refine List.eq_nil_iff_forall_not_mem.2 fun d hd => ?_
  have hact := (h.recorded v d hd).1
  rw [hf] at hact
  cases hact

theorem Single.open (h : Single s) (hf : s.dlg.active = false) :
    Single { s with dlg := ⟨true, d, proc, 1⟩, cpus,
                    pending := update s.pending t (.dialog d :: s.pending t) } := by
  have hd : ∀ v, dialogs (update s.pending t (.dialog d :: s.pending t) v) =
      if v = t then [d] else [] := by
    intro v
    by_cases hv : v = t
    · subst hv
      rw [Function.update_self, if_pos rfl, dialogs_dialog, h.empty hf]
    · rw [Function.update_of_ne hv, if_neg hv, h.empty hf]
  refine ⟨fun v e he => ?_, fun v => ?_, fun v w hv hw => ?_⟩
  · rw [hd] at he
    split at he
    · exact ⟨rfl, (List.mem_singleton.1 he).symm⟩
    · cases he
  · rw [hd]
    split <;> simp
  · rw [hd] at hv hw
    have hv : v = t := by simpa using hv
    have hw : w = t := by simpa using hw
    exact hv.trans hw.symm

/-- With its one dialog ended no dialog is left. -/
theorem Single.ended (h : Single s) (hin : innermost (s.pending u) = some (ps, d, l)) (v : Nat) :
    dialogs (update s.pending u l v) = [] := by
  have hd := (innermost_spec hin).1
  by_cases hv : v = u
  · subst hv
    have hone := h.one v
    rw [hd, List.length_cons] at hone
    rw [Function.update_self]
    exact List.length_eq_zero_iff.1 (by omega)
  · rw [Function.update_of_ne hv]
    by_contra hne
    exact hv (h.owner v u hne (by simp [hd]))

theorem Single.of_empty (h : ∀ v, dialogs (s.pending v) = []) : Single s := by
  refine ⟨fun v d hd => ?_, fun v => ?_, fun v w hv => absurd (h v) hv⟩
  · rw [h] at hd
    cases hd
  · rw [h]
    exact Nat.zero_le 1

theorem step_single (h : Single s) (hok : Modal s a) (hs : step s a = some (s', e)) :
    Single s' := by
  cases a with
  | guest t c =>
    obtain rfl : _ = s' := congrArg Prod.fst (Option.some.inj hs)
    exact h.congr (fun _ => rfl) rfl
  | call t r =>
    obtain rfl : call s t r = s' := congrArg Prod.fst (Option.some.inj hs)
    obtain ⟨-, -, c, hc⟩ | hc := call_cases s t r <;> rw [hc]
    · exact h.congr (fun _ => rfl) rfl
    · exact h.congr (fun _ => dialogs_update dialogs_call) rfl
  | ret t =>
    obtain ⟨p, l, hp, rfl⟩ := ret_cases hs
    have hd : dialogs l = dialogs (s.pending t) := by rw [hp, dialogs_call]
    refine h.congr (fun _ => dialogs_update hd) ?_
    unfold sentinel
    split <;> rfl
  | dialogBox t proc d =>
    obtain rfl : dialogBox s t proc d = s' := congrArg Prod.fst (Option.some.inj hs)
    unfold dialogBox
    split
    · exact h.congr (fun _ => rfl) rfl
    · rename_i hproc
      exact h.open (hok hproc)
  | endDialog t u hDlg result retAddr cleanRsp =>
    obtain ⟨ps, d, l, hin, -, rfl⟩ := endDialog_cases hs
    exact .of_empty (h.ended hin)

theorem Single.closes (h : Single s) (hok : Modal s (.endDialog t u hDlg result retAddr cleanRsp))
    (hs : step s (.endDialog t u hDlg result retAddr cleanRsp) = some (s', e)) :
    Closes s u hDlg result s' := by
  obtain ⟨ps, d, l, hin, hd, rfl⟩ := endDialog_cases hs
  obtain ⟨rfl, hown, hlen⟩ := hok
  have hmem : d ∈ dialogs (s.pending t) := by simp [(innermost_spec hin).1]
  obtain ⟨hact, hdlg⟩ := h.recorded t d hmem
  have hend : endDialog s t result retAddr cleanRsp = { s with
      dlg := { s.dlg with active := false, result }
      callstack := []
      cpus := update s.cpus t ((s.cpus t).jump d.retRsp d.retAddr result) } := by
    rw [endDialog, if_pos hact, hdlg]
  rw [hend]
  refine ⟨⟨ps, d, l, hin, hd, Function.update_self .., Function.update_self .., fun v => ?_⟩,
    fun v hv => ⟨Function.update_of_ne hv .., Function.update_of_ne hv ..⟩, fun v e he => ?_⟩
  · have hframes : (frames s.callstack v).length ≤ s.callstack.length := by
      rw [frames, List.length_map]
      exact List.length_filter_le ..
    have hps := hlen _ hin
    split
    · exact (List.drop_eq_nil_of_le (Nat.le_trans hframes hps)).symm
    · rename_i hv
      have hnone : s.callstack.filter (fun f => f.1 = v) = [] := by
        refine List.filter_eq_nil_iff.2 fun f hf => ?_
        simpa [hown f hf] using Ne.symm hv
      rw [frames, frames, hnone]
      rfl
  · rw [h.ended hin] at he
    cases he

-- ---------------------------------------------------------------------------
-- Frames
-- ---------------------------------------------------------------------------

/-- Each thread's frames on the stack are its pending calls. -/
def Framed (stack : List (Nat × PendingCall)) (pending : Nat → List Activation) : Prop :=
  ∀ v, frames stack v = calls (pending v)

theorem frames_cons : frames ((t, p) :: stack) v =
    if v = t then p :: frames stack v else frames stack v := by
  unfold frames
  by_cases hv : v = t
  · simp [hv]
  · simp [hv, Ne.symm hv]

theorem calls_update {f : Nat → List Activation} :
    calls (update f t l v) = if v = t then calls l else calls (f v) := by
  by_cases hv : v = t
  · subst hv
    rw [Function.update_self, if_pos rfl]
  · rw [Function.update_of_ne hv, if_neg hv]

/-- What changes no calls of a thread changes none. -/
theorem Framed.congr (h : Framed stack pending) (hc : calls l = calls (pending t)) :
    Framed stack (update pending t l) := by
  intro v
  rw [calls_update, h v]
  split
  · rename_i hv
    rw [hv, hc]
  · rfl

theorem Framed.push (h : Framed stack pending) :
    Framed ((t, p) :: stack) (update pending t (.call p :: pending t)) := by
  intro v
  rw [frames_cons, calls_update, h v]
  split
  · rename_i hv
    rw [hv, calls_call]
  · rfl

/-- The frame on top is the last call of its thread. -/
theorem Framed.top (h : Framed ((t, p) :: stack) pending) (hp : pending t = .call q :: l) :
    p = q ∧ Framed stack (update pending t l) := by
  have hown := h t
  rw [frames_cons, if_pos rfl, hp, calls_call] at hown
  obtain ⟨hpq, hrest⟩ := List.cons.inj hown
  refine ⟨hpq, fun v => ?_⟩
  rw [calls_update]
  split
  · rename_i hv
    rw [hv, hrest]
  · rename_i hv
    rw [← h v, frames_cons, if_neg hv]

theorem Framed.ended (h : Framed stack pending) (hin : innermost (pending u) = some (ps, d, l))
    (hown : ∀ f ∈ stack, f.1 = u) (hlen : stack.length ≤ ps.length) :
    Framed [] (update pending u l) := by
  have hall : frames stack u = stack.map Prod.snd := by
    rw [frames, List.filter_eq_self.2 fun f hf => decide_eq_true (hown f hf)]
  have hnil : calls l = [] := by
    have hcalls := congrArg List.length (hall.symm.trans (h u))
    rw [(innermost_spec hin).2, List.length_map, List.length_append] at hcalls
    exact List.length_eq_zero_iff.1 (by omega)
  intro v
  rw [calls_update]
  split
  · exact hnil.symm
  · rename_i hv
    have hnone : stack.filter (fun f => f.1 = v) = [] := by
      refine List.filter_eq_nil_iff.2 fun f hf => ?_
      simpa [hown f hf] using Ne.symm hv
    have hempty : frames stack v = [] := by
      rw [frames, hnone]
      rfl
    rw [← h v, hempty]
    rfl

theorem orderly_ret (h : Orderly s (.ret t)) : ∃ p rest, s.callstack = (t, p) :: rest := by
  obtain ⟨⟨_, q⟩, htop, rfl⟩ := Option.map_eq_some_iff.1 h.2
  obtain ⟨rest, hstack⟩ := List.head?_eq_some_iff.1 htop
  exact ⟨q, rest, hstack⟩

theorem step_framed (h : Framed s.callstack s.pending) (hd : Single s) (hok : Orderly s a)
    (hs : step s a = some (s', e)) : Framed s'.callstack s'.pending := by
  cases a with
  | guest t c =>
    obtain rfl : _ = s' := congrArg Prod.fst (Option.some.inj hs)
    exact h
  | call t r =>
    obtain rfl : call s t r = s' := congrArg Prod.fst (Option.some.inj hs)
    obtain ⟨-, -, c, hc⟩ | hc := call_cases s t r <;> rw [hc]
    · exact h
    · exact h.push
  | ret t =>
    obtain ⟨p, l, hp, rfl⟩ := ret_cases hs
    obtain ⟨q, rest, hstack⟩ := orderly_ret hok
    rw [hstack] at h
    simp only [sentinel, hstack]
    exact (h.top hp).2
  | dialogBox t proc d =>
    obtain rfl : dialogBox s t proc d = s' := congrArg Prod.fst (Option.some.inj hs)
    unfold dialogBox
    split
    · exact h
    · exact h.congr calls_dialog
  | endDialog t u hDlg result retAddr cleanRsp =>
    obtain ⟨ps, d, l, hin, -, rfl⟩ := endDialog_cases hs
    obtain ⟨rfl, hown, hlen⟩ := hok.1
    have hmem : d ∈ dialogs (s.pending t) := by simp [(innermost_spec hin).1]
    rw [endDialog, if_pos (hd.recorded t d hmem).1]
    exact h.ended hin hown (hlen _ hin)

theorem restore_resumed (c : Cpu) (p : PendingCall) : Resumed p c (c.restore p) := by
  refine ⟨rfl, rfl, fun i hi h0 h4 => ?_, ?_⟩
  · simp only [Cpu.restore, Cpu.jump, Function.update_of_ne h0, Function.update_of_ne h4, hi, ↓reduceIte]
  · simp only [Cpu.restore, Cpu.jump, Function.update_self]

theorem Framed.returns (h : Framed s.callstack s.pending) (hok : Orderly s a)
    (hs : step s a = some (s', e)) : Returns s a s' := by
  cases a with
  | call t r =>
    obtain rfl : call s t r = s' := congrArg Prod.fst (Option.some.inj hs)
    obtain ⟨hno, hsync, -⟩ | hc := call_cases s t r
    · obtain hproc | hs | hroom := hok.2
      · exact .inl hproc
      · exact .inr (.inl (hsync hs))
      · exact .inl (hno.resolve_right (Nat.not_le.2 hroom))
    · rw [hc]
      exact .inr (.inr (Function.update_self ..))
  | ret t =>
    obtain ⟨p, l, hp, rfl⟩ := ret_cases hs
    obtain ⟨q, rest, hstack⟩ := orderly_ret hok
    rw [hstack] at h
    obtain ⟨rfl, -⟩ := h.top hp
    simp only [sentinel, hstack]
    refine ⟨⟨q, l, hp, ?_⟩, fun u hu => Function.update_of_ne hu ..⟩
    dsimp only
    rw [Function.update_self]
    exact restore_resumed ..
  | _ => trivial

-- ---------------------------------------------------------------------------
-- The laws
-- ---------------------------------------------------------------------------

/-- While dialogs do not nest and frames of no other call are on the stack, a dialog that
is ended returns to its own caller. -/
theorem modal_law (h : Run step Modal .init tr s) : Recorded s ∧
    ∀ t u hDlg result retAddr cleanRsp s' e,
      Modal s (.endDialog t u hDlg result retAddr cleanRsp) →
      step s (.endDialog t u hDlg result retAddr cleanRsp) = some (s', e) →
        Closes s u hDlg result s' := by
  have hsingle : Single s := h.invariant (P := fun _ s => Single s) .init step_single
  exact ⟨hsingle.recorded, fun _ _ _ _ _ _ _ _ hok hs => hsingle.closes hok hs⟩

/-- A dialog of the main program, and one opened inside its procedure. -/
def outerDialog : Dialog := ⟨0x10, 0x402000, 0x700000⟩
def innerDialog : Dialog := ⟨0x20, 0x404000, 0x6F0000⟩

theorem modal_law_outer : ∃ tr s s' e, Run step Modal .init tr s ∧
    step s (.endDialog 1 1 0x10 7 0x401000 0x6F0000) = some (s', e) ∧ Closes s 1 0x10 7 s' := by
  have hopen : Modal .init (.dialogBox 1 0x403000 outerDialog) := fun _ => rfl
  have hrun : Run step Modal .init _ _ := .single hopen rfl
  have hend : Modal (dialogBox .init 1 0x403000 outerDialog)
      (.endDialog 1 1 0x10 7 0x401000 0x6F0000) :=
    ⟨rfl, fun _ hf => absurd hf List.not_mem_nil, fun _ _ => Nat.zero_le _⟩
  exact ⟨_, _, _, _, hrun, rfl, (modal_law hrun).2 1 1 0x10 7 0x401000 0x6F0000 _ _ hend rfl⟩

/-- With the inner dialog the outer one ends too, and its caller is forgotten. -/
theorem outer_forgotten : ∃ tr s s' e, Run step anyStep .init tr s ∧
    step s (.endDialog 1 1 0x20 7 0x401000 0x6E0000) = some (s', e) ∧ ¬ Closes s 1 0x20 7 s' := by
  have hrun : Run step anyStep .init _ _ :=
    .snoc (.snoc .nil (a := .dialogBox 1 0x403000 outerDialog) trivial rfl)
      (a := .dialogBox 1 0x405000 innerDialog) trivial rfl
  refine ⟨_, _, _, _, hrun, rfl, fun hc => ?_⟩
  have houter := hc.outer 1 outerDialog List.mem_cons_self
  exact absurd houter.1 (by decide)

/-- In a run whose calls find room and return in the order of the stack, a thread always
comes back from its own last call. -/
theorem calls_law (h : Run step Orderly .init tr s) (hok : Orderly s a)
    (hs : step s a = some (s', e)) : Returns s a s' := by
  have hinv : Single s ∧ Framed s.callstack s.pending :=
    h.invariant (P := fun _ s => Single s ∧ Framed s.callstack s.pending) ⟨.init, fun _ => rfl⟩
      fun hi hok hs => ⟨step_single hi.1 hok.1 hs, step_framed hi.2 hi.1 hok hs⟩
  exact hinv.2.returns hok hs

/-- A call that asks for `proc` and is answered at `retAddr`. -/
def request (proc retAddr : U32) : Request := ⟨proc, retAddr, 0x700000, false, 0, false⟩

theorem calls_law_nested : ∃ tr s s' e, Run step Orderly .init tr s ∧
    step s (.ret 1) = some (s', e) ∧ Returns s (.ret 1) s' := by
  have hfirst : Orderly .init (.call 1 (request 0x401000 0x402000)) := ⟨trivial, by decide⟩
  have hsecond : Orderly (call .init 1 (request 0x401000 0x402000))
      (.call 1 (request 0x403000 0x404000)) := ⟨trivial, .inr (.inr (by decide))⟩
  have hrun : Run step Orderly .init _ _ := .snoc (.snoc .nil hfirst rfl) hsecond rfl
  have hret : Orderly (call (call .init 1 (request 0x401000 0x402000)) 1
      (request 0x403000 0x404000)) (.ret 1) := ⟨trivial, rfl⟩
  exact ⟨_, _, _, _, hrun, rfl, calls_law hrun hret rfl⟩

/-- Two threads call: the first one to return resumes where the second one called. -/
theorem wrong_caller : ∃ tr s s' e, Run step anyStep .init tr s ∧
    step s (.ret 1) = some (s', e) ∧ ¬ Returns s (.ret 1) s' := by
  have hrun : Run step anyStep .init _ _ :=
    .snoc (.snoc .nil (a := .call 1 (request 0x401000 0x402000)) trivial rfl)
      (a := .call 2 (request 0x401000 0x404000)) trivial rfl
  refine ⟨_, _, _, _, hrun, rfl, ?_⟩
  rintro ⟨⟨p, l, hp, hr⟩, -⟩
  have hp : [Activation.call ((request 0x401000 0x402000).frame ⟨fun _ => 0, 0⟩)] = .call p :: l := hp
  obtain rfl := Activation.call.inj (List.cons.inj hp).1
  exact absurd hr.rip (by decide)

end WineGlass.Calls
