import WineGlass.Engine.Completion
import WineGlass.Lib.Fields

/-!
# Overlapped socket calls

`WSASend`, `WSASendTo`, `WSARecv`, `WSARecvFrom` and `ConnectEx`, in the socket layer and in the
dispatcher that completes them afterwards. The layer writes the count of an overlapped call itself,
and the dispatcher decodes the arguments again. Every handler sees its arguments cut to 32 bits.
`malloc` does not fail, and what the pointers name is mapped.
-/

namespace WineGlass.Overlapped

open Fields Word Completion

abbrev U64 := BitVec 64
abbrev Mem := Nat → BitVec 8

inductive Call
  | wsaSend | wsaSendTo | wsaRecv | wsaRecvFrom | connectEx
  deriving DecidableEq, Repr

/-- Where a call has its `lpOverlapped`. -/
def Call.lpOverlapped : Call → Nat
  | .wsaSend | .wsaRecv => 5
  | .wsaSendTo | .wsaRecvFrom => 7
  | .connectEx => 6

/-- Where the code looks for it. -/
def Call.taken : Call → Nat
  | .connectEx => 6
  | _ => 5

/-- How a thunk is entered: the slots of its arguments, of which a 32-bit guest has only the low
half. -/
structure Guest where
  is64 : Bool
  slot : Nat → U64

def Guest.args64 (g : Guest) (i : Nat) : U64 :=
  if g.is64 then g.slot i else ((g.slot i).setWidth 32).setWidth 64

def Guest.args (g : Guest) (i : Nat) : U32 := (g.args64 i).setWidth 32

/-- `InternalHigh` of an `OVERLAPPED`, which is after a pointer. -/
def Guest.internalHigh (g : Guest) (p : U64) : U64 :=
  if g.is64 then p + 8 else (p.setWidth 32 + 4 : U32).setWidth 64

/-- The host's sockets. An error is the one that `errno_to_wsa` makes of `errno`, or `WSAETIMEDOUT`
from a `connect` that takes 15 seconds. `send` gets what has been gathered and the length it is
told. -/
structure Host where
  send : Nat → List (BitVec 8) → Nat → Except U32 Nat
  recv : Nat → Nat → Except U32 (List (BitVec 8))
  connect : Nat → List (BitVec 8) → Except U32 Unit

structure State where
  mem : Mem
  fds : Nat → Option Nat
  lastError : U32
  port : Completion.State

/-- A write to what is taken for an `OVERLAPPED`. -/
structure Store where
  addr : U64
  value : U32
  deriving DecidableEq, Repr

structure Answer where
  state : State
  ret : U64
  stores : List Store

def maxSockets : Nat := 128
def sockBase : U32 := 0x1000
def winSocketError : U64 := -1
def wsaEInval : U32 := 10022
def wsaENotSock : U32 := 10038
def errorIoPending : U32 := 997

def lookupFd (s : State) (h : U32) : Option Nat :=
  if h < sockBase ∨ sockBase.toNat + maxSockets ≤ h.toNat then none
  else s.fds (h - sockBase).toNat

def Mem.get32 (m : Mem) (p : U32) : U32 := .ofNat 32 (get m ⟨p.toNat, 4⟩)

def Mem.put32 (m : Mem) (p v : U32) : Mem := Fields.set m ⟨p.toNat, 4⟩ v.toNat

/-- Nothing is written at a null pointer. -/
def Mem.give (m : Mem) (p v : U32) : Mem := if p ≠ 0 then m.put32 p v else m

def Mem.bytes (m : Mem) (p n : Nat) : List (BitVec 8) := (List.range n).map fun i => m (p + i)

def Mem.write (m : Mem) (p : Nat) (b : List (BitVec 8)) : Mem := fun a =>
  if p ≤ a then b.getD (a - p) (m a) else m a

/-- A `WSABUF`, its length and its pointer. -/
def wsabuf (m : Mem) (bufs : U32) (i : Nat) : U32 × U32 :=
  let e := bufs + .ofNat 32 (8 * i)
  (m.get32 e, .ofNat 32 (get m ⟨e.toNat + 4, 4⟩))

def bufCount (g : Guest) : Nat := min (g.args 2).toNat 16

def total (m : Mem) (g : Guest) : Nat :=
  ((List.range (bufCount g)).map fun i => (wsabuf m (g.args 1) i).1.toNat).sum

def gather (m : Mem) (g : Guest) : List (BitVec 8) :=
  (List.range (bufCount g)).flatMap fun i =>
    let e := wsabuf m (g.args 1) i
    if e.1 ≠ 0 ∧ e.2 ≠ 0 then m.bytes e.2.toNat e.1.toNat else []

/-- The buffers are read again, one after another, as they are filled. -/
def scatter (bufs : U32) : List Nat → List (BitVec 8) → Mem → Mem
  | [], _, m => m
  | i :: is, got, m =>
    if got = [] then m
    else
      let e := wsabuf m bufs i
      let n := min e.1.toNat got.length
      scatter bufs is (got.drop n) (if e.2 ≠ 0 ∧ 0 < n then m.write e.2.toNat (got.take n) else m)

-- ---------------------------------------------------------------------------
-- The socket layer
-- ---------------------------------------------------------------------------

def fail (s : State) (e : U32) (ret : U64) : Answer := ⟨{ s with lastError := e }, ret, []⟩

/-- What `WSASend` and `WSARecv` end with. -/
def count (s : State) (g : Guest) (m : Mem) (n : U32) : Answer :=
  let m := m.give (g.args 3) n
  if g.args 5 ≠ 0 then
    ⟨{ s with mem := m.put32 (g.args 5 + 4) n }, 0, [⟨(g.args 5 + 4).setWidth 64, n⟩]⟩
  else ⟨{ s with mem := m }, 0, []⟩

/-- `WSASend` and `WSASendTo`. -/
def wsaSend (host : Host) (s : State) (g : Guest) : Answer :=
  match lookupFd s (g.args 0) with
  | none => fail s wsaENotSock winSocketError
  | some fd =>
    if g.args 2 = 0 ∨ g.args 1 = 0 then fail s wsaEInval winSocketError
    else if total s.mem g = 0 then ⟨{ s with mem := s.mem.give (g.args 3) 0 }, 0, []⟩
    else
      match host.send fd (gather s.mem g) (total s.mem g) with
      | .error e => fail s e winSocketError
      | .ok sent => count s g s.mem (.ofNat 32 sent)

/-- `WSARecv` and `WSARecvFrom`. -/
def wsaRecv (host : Host) (s : State) (g : Guest) : Answer :=
  match lookupFd s (g.args 0) with
  | none => fail s wsaENotSock winSocketError
  | some fd =>
    if g.args 2 = 0 ∨ g.args 1 = 0 then fail s wsaEInval winSocketError
    else
      match host.recv fd (min (total s.mem g) 65536) with
      | .error e => fail s e winSocketError
      | .ok got =>
        count s g (scatter (g.args 1) (List.range (bufCount g)) got s.mem) (.ofNat 32 got.length)

/-- `read_sockaddr`, as far as the guest's bytes: at most a `sockaddr_storage`. -/
def readSockaddr (m : Mem) (p len : U32) : List (BitVec 8) :=
  if p = 0 ∨ len.toInt ≤ 0 then [] else m.bytes p.toNat (min len.toNat 128)

def connectEx (host : Host) (s : State) (g : Guest) : Answer :=
  match lookupFd s (g.args 0) with
  | none => fail s wsaENotSock 0
  | some fd =>
    match host.connect fd (readSockaddr s.mem (g.args 1) (g.args 2)) with
    | .error e => fail s e 0
    | .ok _ => ⟨{ s with mem := s.mem.give (g.args 5) 0 }, 1, []⟩

/-- `wg_winsock_handle`. -/
def handle (host : Host) (s : State) (g : Guest) : Call → Answer
  | .wsaSend | .wsaSendTo => wsaSend host s g
  | .wsaRecv | .wsaRecvFrom => wsaRecv host s g
  | .connectEx => connectEx host s g

-- ---------------------------------------------------------------------------
-- The dispatcher
-- ---------------------------------------------------------------------------

/-- `iocp_post`, and what is written to the `OVERLAPPED` at `p`. -/
def complete (r : Answer) (g : Guest) (p bytes : U32) (ret : U64) : Answer where
  state :=
    { r.state with
      mem := (r.state.mem.put32 p 0).put32 (p + 4) bytes
      lastError := errorIoPending
      port := iocpPost r.state.port ⟨bytes, iocpCompKey r.state.port (g.args 0), p⟩ }
  ret := ret
  stores := r.stores ++ [⟨p.setWidth 64, 0⟩, ⟨(p + 4).setWidth 64, bytes⟩]

/-- The count is what is found where the socket layer has left it. -/
def counted (m : Mem) (g : Guest) : U32 := if g.args 3 ≠ 0 then m.get32 (g.args 3) else 0

def dispatch (host : Host) (s : State) (g : Guest) (c : Call) : Answer :=
  let r := handle host s g c
  match c with
  | .connectEx =>
    if r.ret = 1 ∧ g.args 6 ≠ 0 then complete r g (g.args 6) 0 0 else r
  | .wsaSend | .wsaSendTo | .wsaRecv | .wsaRecvFrom =>
    if r.ret = 0 ∧ g.args 5 ≠ 0 then
      complete r g (g.args 5) (counted r.state.mem g) 0xFFFFFFFF
    else r

-- ---------------------------------------------------------------------------
-- What a completion is
-- ---------------------------------------------------------------------------

/-- The bytes that the host takes from a send, if it gets so far and the host succeeds. -/
def sent (host : Host) (s : State) (g : Guest) : Option U32 :=
  (lookupFd s (g.args 0)).bind fun fd =>
    if g.args 2 = 0 ∨ g.args 1 = 0 then none
    else if total s.mem g = 0 then some 0
    else (host.send fd (gather s.mem g) (total s.mem g)).toOption.map (.ofNat 32)

def received (host : Host) (s : State) (g : Guest) : Option U32 :=
  (lookupFd s (g.args 0)).bind fun fd =>
    if g.args 2 = 0 ∨ g.args 1 = 0 then none
    else (host.recv fd (min (total s.mem g) 65536)).toOption.map fun got => .ofNat 32 got.length

/-- A connection moves nothing. -/
def connected (host : Host) (s : State) (g : Guest) : Option U32 :=
  (lookupFd s (g.args 0)).bind fun fd =>
    (host.connect fd (readSockaddr s.mem (g.args 1) (g.args 2))).toOption.map fun _ => 0

def moved (host : Host) (s : State) (g : Guest) : Call → Option U32
  | .wsaSend | .wsaSendTo => sent host s g
  | .wsaRecv | .wsaRecvFrom => received host s g
  | .connectEx => connected host s g

/-- The transfer to complete: one that succeeds, of a call with an `OVERLAPPED`. -/
def completion (host : Host) (s : State) (g : Guest) (c : Call) : Option U32 :=
  if g.args64 c.lpOverlapped = 0 then none else moved host s g c

/-- One packet for a completed transfer, with its count and its pointer. -/
def Posted (s : State) (g : Guest) (c : Call) (n : Option U32) (s' : State) : Prop :=
  ∃ ps, s'.port.queue = s.port.queue ++ ps ∧
    ps.map (fun p => (p.bytes, p.compKey, p.overlapped.setWidth 64)) =
      n.toList.map fun n => (n, iocpCompKey s.port (g.args 0), g.args64 c.lpOverlapped)

/-- A completed transfer has its status and its count in the `OVERLAPPED`, and nothing else is
taken for one. -/
def Written (g : Guest) (o : U64) (stores : List Store) : Option U32 → Prop
  | none => stores = []
  | some n => ⟨o, 0⟩ ∈ stores ∧ ⟨g.internalHigh o, n⟩ ∈ stores ∧
    ∀ st ∈ stores, st = ⟨o, 0⟩ ∨ st = ⟨g.internalHigh o, n⟩

structure Completes (host : Host) (s : State) (g : Guest) (c : Call) : Prop where
  posted : Posted s g c (completion host s g c) (dispatch host s g c).state
  written : Written g (g.args64 c.lpOverlapped) (dispatch host s g c).stores
    (completion host s g c)

/-- Where the count goes and where it is found again do not get in each other's way. -/
def Kept (g : Guest) (n : U32) : Prop :=
  if g.args 3 = 0 then n = 0
  else ∀ i, Extent.Has ⟨(g.args 3).toNat, 4⟩ i → Extent.Has ⟨(g.args 5 + 4).toNat, 4⟩ i →
    byteAt n.toNat (i - (g.args 5 + 4).toNat) = byteAt n.toNat (i - (g.args 3).toNat)

/-- The call has no `OVERLAPPED` and nothing that is taken for one; or a 32-bit guest has one, it
is what is taken for one, the port has room and the count is kept. -/
def Located (s : State) (g : Guest) (c : Call) (n : U32) : Prop :=
  g.args64 c.lpOverlapped = 0 ∧ g.args c.taken = 0 ∨
  g.is64 = false ∧ g.args64 c.lpOverlapped ≠ 0 ∧
    (g.args c.taken).setWidth 64 = g.args64 c.lpOverlapped ∧
    s.port.queue.length < maxCompletions - 1 ∧ (c = .connectEx ∨ Kept g n)

-- ---------------------------------------------------------------------------
-- Counts
-- ---------------------------------------------------------------------------

variable {s : State} {g : Guest} {c : Call} {host : Host}

theorem get32_put32 (m : Mem) (p v : U32) : (m.put32 p v).get32 p = v := by
  have hget : get (m.put32 p v) ⟨p.toNat, 4⟩ = v.toNat % 256 ^ 4 := get_set
  rw [Mem.get32, hget]
  exact BitVec.eq_of_toNat_eq (by simp [Nat.mod_eq_of_lt v.isLt])

/-- A count that is written twice is found where it was written first, unless the second write
changes it. -/
theorem get32_put32_put32 (m : Mem) (a b v : U32) : ((m.put32 a v).put32 b v).get32 a = v ↔
    ∀ i, Extent.Has ⟨a.toNat, 4⟩ i → Extent.Has ⟨b.toNat, 4⟩ i →
      byteAt v.toNat (i - b.toNat) = byteAt v.toNat (i - a.toNat) := by
  have hfit : ∀ m' : Mem, m'.get32 a = v ↔ get m' ⟨a.toNat, 4⟩ = v.toNat := fun m' => by
    have hlt : get m' ⟨a.toNat, 4⟩ < 2 ^ 32 := get_lt
    rw [Mem.get32, ← BitVec.toNat_inj, BitVec.toNat_ofNat, Nat.mod_eq_of_lt hlt]
  rw [hfit, get_eq_iff v.isLt]
  refine forall_congr' fun i => forall_congr' fun ha => ?_
  by_cases hb : Extent.Has ⟨b.toNat, 4⟩ i
  · rw [Mem.put32, set_inside hb]
    exact ⟨fun h _ => h, fun h => h hb⟩
  · rw [Mem.put32, set_outside hb, Mem.put32, set_inside ha]
    exact ⟨fun _ h => absurd h hb, fun _ => rfl⟩

theorem kept_zero : Kept g 0 := by
  unfold Kept
  split
  · rfl
  · intro i _ _
    simp [byteAt]

theorem counted_zero (m : Mem) : counted (m.give (g.args 3) 0) g = 0 := by
  unfold counted Mem.give
  split
  · exact get32_put32 m _ _
  · rfl

theorem counted_count (m : Mem) (n : U32) (h : g.args 5 ≠ 0) :
    counted (count s g m n).state.mem g = n ↔ Kept g n := by
  unfold counted count Mem.give Kept
  rw [if_pos h]
  by_cases h3 : g.args 3 = 0
  · rw [if_neg (not_not.2 h3), if_pos h3]
    exact eq_comm
  · simp only [if_pos h3, if_neg h3]
    exact get32_put32_put32 m _ _ n

-- ---------------------------------------------------------------------------
-- What the socket layer leaves
-- ---------------------------------------------------------------------------

/-- What a call returns when it succeeds. -/
def Call.done : Call → U64
  | .connectEx => 1
  | _ => 0

structure Moves (s : State) (g : Guest) (c : Call) (r : Answer) (n : U32) : Prop where
  ret : r.ret = c.done
  port : r.state.port = s.port
  stores : ∀ st ∈ r.stores, g.args c.taken ≠ 0 ∧ c ≠ .connectEx ∧
    st = ⟨(g.args c.taken + 4).setWidth 64, n⟩
  nothing : c = .connectEx → n = 0
  counted : c ≠ .connectEx → g.args 5 ≠ 0 → (counted r.state.mem g = n ↔ Kept g n)

structure Fails (s : State) (c : Call) (r : Answer) : Prop where
  ret : r.ret ≠ c.done
  port : r.state.port = s.port
  stores : r.stores = []

theorem fail_fails (h : ret ≠ c.done) : Fails s c (fail s e ret) := ⟨h, rfl, rfl⟩

theorem count_moves (hd : c.done = 0) (hc : c.taken = 5) :
    Moves s g c (count s g m n) n where
  ret := by
    unfold count
    dsimp only
    split <;> exact hd.symm
  port := by
    unfold count
    dsimp only
    split <;> rfl
  stores st hst := by
    have hne : c ≠ .connectEx := by
      rintro rfl
      cases hc
    unfold count at hst
    dsimp only at hst
    split at hst
    · rename_i h5
      rw [hc]
      exact ⟨h5, hne, List.mem_singleton.1 hst⟩
    · cases hst
  nothing := by
    rintro rfl
    cases hc
  counted _ h5 := counted_count m n h5

/-- The layer's answer, by what the host moves. -/
def Answers (s : State) (g : Guest) (c : Call) (r : Answer) : Option U32 → Prop
  | none => Fails s c r
  | some n => Moves s g c r n

theorem wsaSend_answers (hd : c.done = 0) (hc : c.taken = 5) :
    Answers s g c (wsaSend host s g) (sent host s g) := by
  have hz : c = .connectEx → (0 : U32) = 0 := fun _ => rfl
  have hne : winSocketError ≠ c.done := hd.symm ▸ by decide
  unfold sent wsaSend
  cases lookupFd s (g.args 0) with
  | none => exact fail_fails hne
  | some fd =>
    rw [Option.bind_some]
    dsimp only
    by_cases hbad : g.args 2 = 0 ∨ g.args 1 = 0
    · rw [if_pos hbad, if_pos hbad]
      exact fail_fails hne
    · rw [if_neg hbad, if_neg hbad]
      by_cases h0 : total s.mem g = 0
      · rw [if_pos h0, if_pos h0]
        exact ⟨hd.symm, rfl, nofun, hz, fun _ _ => iff_of_true (counted_zero s.mem) kept_zero⟩
      · rw [if_neg h0, if_neg h0]
        cases host.send fd (gather s.mem g) (total s.mem g) with
        | error e => exact fail_fails hne
        | ok n => exact count_moves hd hc

theorem wsaRecv_answers (hd : c.done = 0) (hc : c.taken = 5) :
    Answers s g c (wsaRecv host s g) (received host s g) := by
  have hne : winSocketError ≠ c.done := hd.symm ▸ by decide
  unfold received wsaRecv
  cases lookupFd s (g.args 0) with
  | none => exact fail_fails hne
  | some fd =>
    rw [Option.bind_some]
    dsimp only
    by_cases hbad : g.args 2 = 0 ∨ g.args 1 = 0
    · rw [if_pos hbad, if_pos hbad]
      exact fail_fails hne
    · rw [if_neg hbad, if_neg hbad]
      cases host.recv fd (min (total s.mem g) 65536) with
      | error e => exact fail_fails hne
      | ok got => exact count_moves hd hc

theorem connectEx_answers :
    Answers s g .connectEx (connectEx host s g) (connected host s g) := by
  have hne : (0 : U64) ≠ Call.connectEx.done := by decide
  unfold connected connectEx
  cases lookupFd s (g.args 0) with
  | none => exact fail_fails hne
  | some fd =>
    rw [Option.bind_some]
    dsimp only
    cases host.connect fd (readSockaddr s.mem (g.args 1) (g.args 2)) with
    | error e => exact fail_fails hne
    | ok u => exact ⟨rfl, rfl, nofun, fun _ => rfl, fun h => absurd rfl h⟩

theorem handle_answers (host : Host) (s : State) (g : Guest) (c : Call) :
    Answers s g c (handle host s g c) (moved host s g c) := by
  cases c with
  | wsaSend => exact wsaSend_answers rfl rfl
  | wsaSendTo => exact wsaSend_answers rfl rfl
  | wsaRecv => exact wsaRecv_answers rfl rfl
  | wsaRecvFrom => exact wsaRecv_answers rfl rfl
  | connectEx => exact connectEx_answers

-- ---------------------------------------------------------------------------
-- What the dispatcher makes of it
-- ---------------------------------------------------------------------------

/-- The count that the dispatcher completes a call with. -/
def Call.bytes (g : Guest) (r : Answer) : Call → U32
  | .connectEx => 0
  | _ => counted r.state.mem g

/-- One shape for the five calls. -/
theorem dispatch_shape (host : Host) (s : State) (g : Guest) (c : Call) :
    ∃ ret, dispatch host s g c =
      let r := handle host s g c
      if r.ret = c.done ∧ g.args c.taken ≠ 0 then
        complete r g (g.args c.taken) (c.bytes g r) ret
      else r := by
  cases c with
  | connectEx => exact ⟨0, rfl⟩
  | wsaSend => exact ⟨0xFFFFFFFF, rfl⟩
  | wsaSendTo => exact ⟨0xFFFFFFFF, rfl⟩
  | wsaRecv => exact ⟨0xFFFFFFFF, rfl⟩
  | wsaRecvFrom => exact ⟨0xFFFFFFFF, rfl⟩

theorem posted_none (hp : s'.port = s.port) : Posted s g c none s' :=
  ⟨[], by rw [hp, List.append_nil], rfl⟩

theorem not_posted (hp : s'.port = s.port) : ¬ Posted s g c (some n) s' := by
  rintro ⟨ps, hq, hps⟩
  rw [hp] at hq
  have hnil : ps = [] := List.append_right_eq_self.1 hq.symm
  rw [hnil] at hps
  cases hps

/-- A packet is accepted when there is room. -/
theorem posted_iff (hwf : s.port.completions.Wf maxCompletions) (p : U32)
    (hp : s'.port = iocpPost s.port ⟨n, iocpCompKey s.port (g.args 0), p⟩) :
    Posted s g c (some n) s' ↔
      p.setWidth 64 = g.args64 c.lpOverlapped ∧ s.port.queue.length < maxCompletions - 1 := by
  by_cases hroom : s.port.queue.length < maxCompletions - 1
  · have hpost := (post_queue (p := ⟨n, iocpCompKey s.port (g.args 0), p⟩) hwf hroom).2
    rw [← hp] at hpost
    constructor
    · rintro ⟨ps, hq, hps⟩
      rw [hpost, List.append_cancel_left_eq] at hq
      rw [← hq] at hps
      simp only [List.map_cons, List.map_nil, Option.toList_some, List.cons.injEq, Prod.mk.injEq,
        true_and, and_true] at hps
      exact ⟨hps, hroom⟩
    · rintro ⟨heq, -⟩
      refine ⟨_, hpost, ?_⟩
      simp only [List.map_cons, List.map_nil, Option.toList_some, heq]
  · refine iff_of_false ?_ fun h => hroom h.2
    rintro ⟨ps, hq, hps⟩
    rw [hp, post_full hwf hroom] at hq
    have hnil : ps = [] := List.append_right_eq_self.1 hq.symm
    rw [hnil] at hps
    cases hps

/-- The two writes of the dispatcher are four apart, whatever the width of a pointer. -/
theorem apart_four (p : U32) (o : U64) :
    ¬ (o = p.setWidth 64 ∧ o + 8 = (p + 4).setWidth 64) ∧
    ¬ (o = (p + 4).setWidth 64 ∧ o + 8 = p.setWidth 64) ∧
    o ≠ o + 8 ∧ p ≠ p + 4 ∧ p ≠ p + 4 + 4 := by
  refine ⟨?_, ?_, ?_, ?_, ?_⟩
  · rintro ⟨rfl, h⟩
    bv_omega
  · rintro ⟨rfl, h⟩
    bv_omega
  · bv_omega
  · bv_omega
  · bv_omega

/-- What the layer and the dispatcher write is right for an `OVERLAPPED` of a 32-bit guest that is
where it is taken to be. -/
theorem written_iff {p n bytes : U32} {stores : List Store}
    (hs : ∀ st ∈ stores, st = ⟨(p + 4).setWidth 64, n⟩)
    (hg : g.is64 = false → ∃ q : U32, o = q.setWidth 64) :
    Written g o (stores ++ [⟨p.setWidth 64, 0⟩, ⟨(p + 4).setWidth 64, bytes⟩]) (some n) ↔
      g.is64 = false ∧ p.setWidth 64 = o ∧ bytes = n := by
  have hinj : ∀ {a b : U32}, (a.setWidth 64 : U64) = b.setWidth 64 → a = b := fun h => by bv_omega
  have haddr : ∀ st ∈ stores ++ [⟨p.setWidth 64, 0⟩, ⟨(p + 4).setWidth 64, bytes⟩],
      st.addr = p.setWidth 64 ∨ st.addr = (p + 4).setWidth 64 := by
    intro st hst
    simp only [List.mem_append, List.mem_cons, List.not_mem_nil, or_false] at hst
    rcases hst with hst | rfl | rfl
    · exact .inr (congrArg Store.addr (hs st hst))
    · exact .inl rfl
    · exact .inr rfl
  constructor
  · rintro ⟨ho, hn, hall⟩
    have hoa := haddr _ ho
    have hna := haddr _ hn
    cases h64 : g.is64 with
    | true =>
      rw [Guest.internalHigh, if_pos h64] at hna
      obtain ⟨h1, h2, h3, -, -⟩ := apart_four p o
      rcases hoa with hoa | hoa <;> rcases hna with hna | hna
      · exact absurd (hoa.trans hna.symm) h3
      · exact absurd ⟨hoa, hna⟩ h1
      · exact absurd ⟨hoa, hna⟩ h2
      · exact absurd (hoa.trans hna.symm) h3
    | false =>
      obtain ⟨q, rfl⟩ := hg h64
      have hfield : g.internalHigh (q.setWidth 64) = (q + 4).setWidth 64 := by
        rw [Guest.internalHigh, if_neg (by rw [h64]; nofun)]
        congr 2
        bv_omega
      rw [hfield] at hall
      have h0 := hall ⟨p.setWidth 64, 0⟩ (by simp)
      have h1 := hall ⟨(p + 4).setWidth 64, bytes⟩ (by simp)
      obtain ⟨-, -, -, h4, h8⟩ := apart_four q 0
      obtain rfl : q = p := by
        rcases hoa with hoa | hoa
        · exact hinj hoa
        · rcases h0 with h0 | h0
          · exact (hinj (Store.mk.inj h0).1).symm
          · have hq := hinj hoa
            rw [hinj (Store.mk.inj h0).1] at hq
            exact absurd hq h8
      refine ⟨rfl, rfl, ?_⟩
      rcases h1 with h1 | h1
      · exact absurd (hinj (Store.mk.inj h1).1).symm h4
      · exact (Store.mk.inj h1).2
  · rintro ⟨h64, rfl, rfl⟩
    have hfield : g.internalHigh (p.setWidth 64) = (p + 4).setWidth 64 := by
      rw [Guest.internalHigh, if_neg (by rw [h64]; nofun)]
      congr 2
      bv_omega
    rw [Written, hfield]
    refine ⟨by simp, by simp, fun st hst => ?_⟩
    simp only [List.mem_append, List.mem_cons, List.not_mem_nil, or_false] at hst
    rcases hst with hst | rfl | rfl
    · exact .inr (hs st hst)
    · exact .inl rfl
    · exact .inr rfl

theorem bytes_iff (hm : Moves s g c r n) (h : g.args c.taken ≠ 0) :
    c.bytes g r = n ↔ c = .connectEx ∨ Kept g n := by
  cases c with
  | connectEx => exact iff_of_true (hm.nothing rfl).symm (.inl rfl)
  | wsaSend => exact (hm.counted nofun h).trans (or_iff_right nofun).symm
  | wsaSendTo => exact (hm.counted nofun h).trans (or_iff_right nofun).symm
  | wsaRecv => exact (hm.counted nofun h).trans (or_iff_right nofun).symm
  | wsaRecvFrom => exact (hm.counted nofun h).trans (or_iff_right nofun).symm

theorem Guest.narrow (g : Guest) (i : Nat) (h : g.is64 = false) :
    ∃ q : U32, g.args64 i = q.setWidth 64 := by
  refine ⟨(g.slot i).setWidth 32, ?_⟩
  rw [Guest.args64, if_neg (by rw [h]; nofun)]

-- ---------------------------------------------------------------------------
-- The law
-- ---------------------------------------------------------------------------

/-- A transfer is completed as it should be, exactly when its `OVERLAPPED` is found. -/
theorem overlapped_law (host : Host) (s : State) (g : Guest) (c : Call)
    (hwf : s.port.completions.Wf maxCompletions) :
    Completes host s g c ↔ ∀ n, moved host s g c = some n → Located s g c n := by
  obtain ⟨ret, hd⟩ := dispatch_shape host s g c
  have hans := handle_answers host s g c
  cases hm : moved host s g c with
  | none =>
    rw [hm] at hans
    have hr : dispatch host s g c = handle host s g c := hd.trans (if_neg fun h => hans.ret h.1)
    have hnone : completion host s g c = none := by
      unfold completion
      rw [hm]
      exact ite_self none
    refine iff_of_true ⟨?_, ?_⟩ nofun
    · rw [hnone, hr]
      exact posted_none hans.port
    · rw [hnone, hr]
      exact hans.stores
  | some n =>
    rw [hm] at hans
    simp only [Option.some.injEq, forall_eq']
    by_cases hp : g.args c.taken = 0
    · have hr : dispatch host s g c = handle host s g c := hd.trans (if_neg fun h => h.2 hp)
      have hst : (handle host s g c).stores = [] :=
        List.eq_nil_iff_forall_not_mem.2 fun st h => (hans.stores st h).1 hp
      by_cases ho : g.args64 c.lpOverlapped = 0
      · have hnone : completion host s g c = none := if_pos ho
        refine iff_of_true ⟨?_, ?_⟩ (.inl ⟨ho, hp⟩)
        · rw [hnone, hr]
          exact posted_none hans.port
        · rw [hnone, hr]
          exact hst
      · have hsome : completion host s g c = some n := (if_neg ho).trans hm
        refine iff_of_false (fun h => ?_) ?_
        · have hpost := h.posted
          rw [hsome, hr] at hpost
          exact not_posted hans.port hpost
        · rintro (⟨h0, -⟩ | ⟨-, -, heq, -⟩)
          · exact ho h0
          · rw [hp] at heq
            exact ho heq.symm
    · have hr : dispatch host s g c = complete (handle host s g c) g (g.args c.taken)
          (c.bytes g (handle host s g c)) ret := hd.trans (if_pos ⟨hans.ret, hp⟩)
      by_cases ho : g.args64 c.lpOverlapped = 0
      · have hnone : completion host s g c = none := if_pos ho
        refine iff_of_false (fun h => ?_) ?_
        · have hw := h.written
          rw [hnone, hr] at hw
          exact List.cons_ne_nil _ _ (List.append_eq_nil_iff.1 hw).2
        · rintro (⟨-, h0⟩ | ⟨-, hne, -⟩)
          · exact hp h0
          · exact hne ho
      · have hsome : completion host s g c = some n := (if_neg ho).trans hm
        have hw : Written g (g.args64 c.lpOverlapped) _ (some n) ↔
            _ ∧ _ ∧ c.bytes g (handle host s g c) = n :=
          written_iff (fun st h => (hans.stores st h).2.2) (g.narrow _)
        have hport : (dispatch host s g c).state.port = iocpPost s.port
            ⟨c.bytes g (handle host s g c), iocpCompKey s.port (g.args 0), g.args c.taken⟩ := by
          rw [hr, complete, hans.port]
        constructor
        · rintro ⟨hpost, hwritten⟩
          rw [hsome] at hpost hwritten
          rw [hr] at hwritten
          obtain ⟨h64, heq, hb⟩ := hw.1 hwritten
          rw [hb] at hport
          exact .inr ⟨h64, ho, heq, ((posted_iff hwf _ hport).1 hpost).2, (bytes_iff hans hp).1 hb⟩
        · rintro (⟨h0, -⟩ | ⟨h64, -, heq, hroom, hkept⟩)
          · exact absurd h0 ho
          · have hb := (bytes_iff hans hp).2 hkept
            rw [hb] at hport
            refine ⟨?_, ?_⟩
            · rw [hsome]
              exact (posted_iff hwf _ hport).2 ⟨heq, hroom⟩
            · rw [hsome, hr]
              exact hw.2 ⟨h64, heq, hb⟩

/-- A host that sends everything, and a socket with one buffer of five bytes. -/
def oneBuffer : Host × State where
  fst := ⟨fun _ _ n => .ok n, fun _ _ => .ok [], fun _ _ => .ok ()⟩
  snd :=
    { mem := fun a => if a = 0x2000 then 5 else if a = 0x2005 then 0x30 else 0
      fds := fun i => if i = 0 then some 3 else none
      lastError := 0
      port := Completion.State.init }

/-- The arguments 0 to 3, 5 and 7 of a 32-bit guest. -/
def guest (five seven : U64) : Guest :=
  ⟨false, fun i => [0x1000, 0x2000, 1, 0x5000, 0, five, 16, seven, 0].getD i 0⟩

theorem overlapped_law_send : Completes oneBuffer.1 oneBuffer.2 (guest 0x4000 0) .wsaSend ∧
    moved oneBuffer.1 oneBuffer.2 (guest 0x4000 0) .wsaSend = some 5 := by
  have hmoved : moved oneBuffer.1 oneBuffer.2 (guest 0x4000 0) .wsaSend = some 5 := by decide
  refine ⟨(overlapped_law _ _ _ _ ⟨by decide, by decide⟩).2 fun n _ => ?_, hmoved⟩
  refine .inr ⟨rfl, by decide, by decide, by decide, .inr fun i ha hb => ?_⟩
  obtain ⟨hle, -⟩ := ha
  obtain ⟨-, hlt⟩ := hb
  change 0x5000 ≤ i at hle
  change i < 0x4004 + 4 at hlt
  omega

/-- A datagram is sent to an address, and the address is taken for an `OVERLAPPED`. -/
theorem address_overwritten :
    ¬ Completes oneBuffer.1 oneBuffer.2 (guest 0x6000 0) .wsaSendTo := by
  rintro ⟨-, h⟩
  have hnone : completion oneBuffer.1 oneBuffer.2 (guest 0x6000 0) .wsaSendTo = none := by decide
  rw [hnone] at h
  have hst : (dispatch oneBuffer.1 oneBuffer.2 (guest 0x6000 0) .wsaSendTo).stores =
      [⟨0x6004, 5⟩, ⟨0x6000, 0⟩, ⟨0x6004, 5⟩] := by decide
  rw [hst] at h
  cases h

end WineGlass.Overlapped
