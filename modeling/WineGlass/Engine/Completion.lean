import WineGlass.Lib.Ring
import WineGlass.Lib.Run

/-!
# The completion port

There is one port. Packets wait in a ring of 64 slots, whatever posts them; a
socket call with an `OVERLAPPED` posts one with the completion key its socket is
bound with. Bindings are only added, to a table of 32, and looked up oldest
first; closing a socket leaves its binding, and its handle is given out again.
`latest` is not in the source: it is the key of a socket's most recent
association, and forgets it when the socket is closed.
-/

namespace WineGlass.Completion

open Runs Rings

abbrev U32 := BitVec 32

/-- `WGIocpBinding`. -/
structure Binding where
  sockHandle : U32
  compKey : U32
  deriving DecidableEq, Repr

/-- `WGCompletion`. -/
structure Packet where
  bytes : U32
  compKey : U32
  overlapped : U32
  deriving DecidableEq, Repr

/-- `WG_MAX_IOCP_SOCK` and `WG_MAX_COMPLETIONS`. -/
def maxIocpSock : Nat := 32
def maxCompletions : Nat := 64

structure State where
  bindings : List Binding
  completions : Buffer Packet
  latest : U32 → Option U32

def State.init : State := ⟨[], ⟨fun _ => ⟨0, 0, 0⟩, 0, 0⟩, fun _ => none⟩

def State.bound (s : State) (h : U32) : Option U32 :=
  (s.bindings.find? fun b => b.sockHandle == h).map Binding.compKey

/-- `iocp_comp_key`, 0 for a socket without a binding. -/
def iocpCompKey (s : State) (h : U32) : U32 := (s.bound h).getD 0

/-- `iocp_post`; a full ring drops the packet. -/
def iocpPost (s : State) (p : Packet) : State :=
  { s with completions := (s.completions.push maxCompletions p).getD s.completions }

/-- `iocp_get`. -/
def iocpGet (s : State) : Option (Packet × State) :=
  (s.completions.pop maxCompletions).map fun r => (r.1, { s with completions := r.2 })

-- ---------------------------------------------------------------------------
-- Handlers
-- ---------------------------------------------------------------------------

/-- What a call shows: a packet it reports as posted, one a socket call
completes with, beside the key it should have, or one it returns. -/
inductive Event
  | posted (p : Packet)
  | completed (key : Option U32) (p : Packet)
  | got (p : Packet)
  | nothing
  deriving DecidableEq, Repr

/-- `CreateIoCompletionPort` with a socket; the whole table drops a binding. -/
def createIoCompletionPort (s : State) (fileH compKey : U32) : State :=
  { s with
    bindings := if s.bindings.length < maxIocpSock then s.bindings ++ [⟨fileH, compKey⟩]
      else s.bindings
    latest := Function.update s.latest fileH (some compKey) }

/-- `ConnectEx`, `WSASend` or `WSARecv` done at once, with an `OVERLAPPED`. -/
def overlappedCall (s : State) (h bytes overlapped : U32) : State × Event :=
  let p : Packet := ⟨bytes, iocpCompKey s h, overlapped⟩
  (iocpPost s p, .completed (s.latest h) p)

/-- `PostQueuedCompletionStatus`, which always reports success. -/
def postQueuedCompletionStatus (s : State) (p : Packet) : State × Event := (iocpPost s p, .posted p)

/-- `GetQueuedCompletionStatus` and the `Ex` form, which returns one entry. -/
def getQueuedCompletionStatus (s : State) : State × Event :=
  match iocpGet s with
  | none => (s, .nothing)
  | some (p, s') => (s', .got p)

/-- `closesocket`, as far as the port is concerned. -/
def closeSocket (s : State) (h : U32) : State :=
  { s with latest := Function.update s.latest h none }

inductive Action
  | associate (fileH compKey : U32)
  | overlapped (h bytes overlapped : U32)
  | post (p : Packet)
  | get
  | close (h : U32)
  deriving DecidableEq, Repr

def step (s : State) : Action → Option (State × Event)
  | .associate fileH compKey => some (createIoCompletionPort s fileH compKey, .nothing)
  | .overlapped h bytes overlapped => some (overlappedCall s h bytes overlapped)
  | .post p => some (postQueuedCompletionStatus s p)
  | .get => some (getQueuedCompletionStatus s)
  | .close h => some (closeSocket s h, .nothing)

-- ---------------------------------------------------------------------------
-- What a port is for
-- ---------------------------------------------------------------------------

def State.queue (s : State) : List Packet := s.completions.items maxCompletions

def Event.sent : Event → Option Packet
  | .posted p | .completed _ p => some p
  | _ => none

def Event.returned : Event → Option Packet
  | .got p => some p
  | _ => none

def sent (tr : List (Action × Event)) : List Packet := tr.filterMap fun x => x.2.sent

def returned (tr : List (Action × Event)) : List Packet := tr.filterMap fun x => x.2.returned

/-- Socket completions carry the key of the socket's latest association. -/
def Keyed (tr : List (Action × Event)) : Prop :=
  ∀ k p, .completed (some k) p ∈ tr.map Prod.snd → p.compKey = k

/-- Packets come out once, in the order they went in. -/
structure Ordered (tr : List (Action × Event)) (s : State) : Prop where
  balanced : returned tr ++ s.queue = sent tr
  keyed : Keyed tr

/-- The ring has room for a packet, and the table for a binding, which is the
first of its socket or says what the first one says. -/
def Faithful (s : State) : Action → Prop
  | .associate fileH compKey =>
    s.bound fileH = none ∧ s.bindings.length < maxIocpSock ∨ s.bound fileH = some compKey
  | .overlapped .. | .post _ => s.queue.length < maxCompletions - 1
  | .get | .close _ => True

-- ---------------------------------------------------------------------------
-- Steps
-- ---------------------------------------------------------------------------

variable {s : State}

theorem post_queue (h : s.completions.Wf maxCompletions)
    (hroom : s.queue.length < maxCompletions - 1) :
    (iocpPost s p).completions.Wf maxCompletions ∧ (iocpPost s p).queue = s.queue ++ [p] := by
  unfold iocpPost
  cases hp : s.completions.push maxCompletions p with
  | none =>
    have hfull := h.push_none.1 hp
    change s.queue.length + 1 = 64 at hfull
    change s.queue.length < 63 at hroom
    omega
  | some r => exact h.push hp

/-- A packet that there is no room for is dropped. -/
theorem post_full (h : s.completions.Wf maxCompletions)
    (hroom : ¬ s.queue.length < maxCompletions - 1) : iocpPost s p = s := by
  have hlt : s.queue.length < maxCompletions := Buffer.length_items.trans_lt h.count_lt
  have hfull : s.completions.push maxCompletions p = none := by
    refine h.push_none.2 ?_
    change ¬ s.queue.length < 63 at hroom
    change s.queue.length < 64 at hlt
    change s.queue.length + 1 = 64
    omega
  rw [iocpPost, hfull]
  rfl

theorem get_queue (h : s.completions.Wf maxCompletions) (hg : iocpGet s = some (p, s')) :
    s'.completions.Wf maxCompletions ∧ s.queue = p :: s'.queue ∧ s'.bindings = s.bindings ∧
      s'.latest = s.latest := by
  obtain ⟨r, hr, heq⟩ := Option.map_eq_some_iff.1 hg
  obtain ⟨rfl, rfl⟩ := Prod.mk.inj heq
  obtain ⟨hwf, hq⟩ := h.pop hr
  exact ⟨hwf, hq, rfl, rfl⟩

/-- A binding at the end answers for its socket if nothing before it does. -/
theorem bound_append (h : U32) :
    State.bound { s with bindings := s.bindings ++ [⟨fileH, key⟩], latest := l } h =
      (s.bound h).or (if fileH = h then some key else none) := by
  simp only [State.bound, List.find?_append]
  cases hf : s.bindings.find? fun b => b.sockHandle == h with
  | some b => rfl
  | none =>
    by_cases hh : fileH = h
    · simp [hh]
    · simp [hh]

/-- After a faithful association the socket has its key, and no other socket's
key is another one. -/
theorem associate_bound (hok : Faithful s (.associate fileH key)) :
    let s' := createIoCompletionPort s fileH key
    s'.bound fileH = some key ∧ ∀ h k, s.bound h = some k → s'.bound h = some k := by
  unfold createIoCompletionPort
  dsimp only
  split
  · refine ⟨?_, fun h k hk => ?_⟩
    · rw [bound_append, if_pos rfl]
      rcases hok with ⟨hnone, -⟩ | hsome
      · rw [hnone]
        rfl
      · rw [hsome]
        rfl
    · rw [bound_append, hk]
      rfl
  · rename_i hfull
    exact ⟨hok.resolve_left fun hno => hfull hno.2, fun _ _ hk => hk⟩

-- ---------------------------------------------------------------------------
-- Runs
-- ---------------------------------------------------------------------------

@[simp] theorem sent_snoc : sent (tr ++ [(a, e)]) = sent tr ++ e.sent.toList := by
  simp only [sent, List.filterMap_append]
  cases he : e.sent <;> simp [he]

@[simp] theorem returned_snoc : returned (tr ++ [(a, e)]) = returned tr ++ e.returned.toList := by
  simp only [returned, List.filterMap_append]
  cases he : e.returned <;> simp [he]

structure Inv (tr : List (Action × Event)) (s : State) : Prop extends Ordered tr s where
  wf : s.completions.Wf maxCompletions
  latest (h k : U32) : s.latest h = some k → s.bound h = some k

theorem init_inv : Inv [] .init where
  balanced := rfl
  keyed := nofun
  wf := ⟨by decide, by decide⟩
  latest := nofun

theorem Keyed.snoc (h : Keyed tr) (he : ∀ k p, e = .completed (some k) p → p.compKey = k) :
    Keyed (tr ++ [(a, e)]) := by
  intro k p hm
  simp only [List.map_append, List.mem_append, List.map_cons, List.map_nil,
    List.mem_singleton] at hm
  rcases hm with hm | hm
  · exact h k p hm
  · exact he k p hm.symm

/-- A step that neither posts nor returns a packet. -/
theorem Ordered.quiet (h : Ordered tr s) (hq : s'.queue = s.queue) :
    Ordered (tr ++ [(a, .nothing)]) s' :=
  ⟨by simpa [Event.sent, Event.returned, hq] using h.balanced, h.keyed.snoc nofun⟩

theorem step_inv (h : Inv tr s) (hok : Faithful s a) (hst : step s a = some (s', e)) :
    Inv (tr ++ [(a, e)]) s' := by
  have hb := h.balanced
  cases a with
  | associate fileH key =>
    obtain ⟨rfl, rfl⟩ := Prod.mk.inj (Option.some.inj hst)
    obtain ⟨hself, hkeep⟩ := associate_bound hok
    refine ⟨h.toOrdered.quiet rfl, h.wf,
      fun f k hk => ?_⟩
    by_cases hf : f = fileH
    · subst hf
      simp only [createIoCompletionPort, Function.update_self] at hk
      exact hk ▸ hself
    · simp only [createIoCompletionPort, Function.update_of_ne hf] at hk
      exact hkeep f k (h.latest f k hk)
  | overlapped f bytes ovl =>
    obtain ⟨rfl, rfl⟩ := Prod.mk.inj (Option.some.inj hst)
    obtain ⟨hwf, hq⟩ := post_queue h.wf hok
    refine ⟨⟨?_, h.keyed.snoc fun k p hp => ?_⟩, hwf, h.latest⟩
    · simp only [hq, returned_snoc, sent_snoc, ← hb]
      simp [Event.sent, Event.returned]
    · obtain ⟨hkey, rfl⟩ := Event.completed.inj hp
      simp only [iocpCompKey, h.latest f k hkey, Option.getD_some]
  | post p =>
    obtain ⟨rfl, rfl⟩ := Prod.mk.inj (Option.some.inj hst)
    obtain ⟨hwf, hq⟩ := post_queue h.wf hok
    refine ⟨⟨?_, h.keyed.snoc nofun⟩, hwf, h.latest⟩
    simp only [hq, returned_snoc, sent_snoc, ← hb]
    simp [Event.sent, Event.returned]
  | get =>
    simp only [step, getQueuedCompletionStatus, Option.some.injEq] at hst
    split at hst
    · obtain ⟨rfl, rfl⟩ := Prod.mk.inj hst
      exact ⟨h.toOrdered.quiet rfl, h.wf,
        h.latest⟩
    · rename_i p s₁ hg
      obtain ⟨rfl, rfl⟩ := Prod.mk.inj hst
      obtain ⟨hwf, hq, hbind, hlatest⟩ := get_queue h.wf hg
      refine ⟨⟨?_, h.keyed.snoc nofun⟩, hwf, fun f k hk => ?_⟩
      · rw [returned_snoc, sent_snoc, ← hb, hq]
        simp [Event.sent, Event.returned]
      · rw [hlatest] at hk
        rw [State.bound, hbind]
        exact h.latest f k hk
  | close f =>
    obtain ⟨rfl, rfl⟩ := Prod.mk.inj (Option.some.inj hst)
    refine ⟨h.toOrdered.quiet rfl, h.wf,
      fun g k hk => ?_⟩
    by_cases hg : g = f
    · simp [closeSocket, hg] at hk
    · simp only [closeSocket, Function.update_of_ne hg] at hk
      exact h.latest g k hk

/-- In every run in which neither the ring nor the table of bindings is
outgrown, and no socket is bound with a second key. -/
theorem completion_law (h : Run step Faithful .init tr s) : Ordered tr s :=
  (h.invariant (P := Inv) init_inv fun hi hok hst => step_inv hi hok hst).toOrdered

instance (s : State) (a : Action) : Decidable (Faithful s a) := by
  cases a <;> unfold Faithful <;> infer_instance

theorem completion_law_socket : ∃ tr s, Run step Faithful .init tr s ∧ Ordered tr s ∧
    returned tr = [⟨100, 7, 0x500000⟩] ∧ s.queue = [⟨0, 9, 0⟩] := by
  have hexec : (exec step Faithful .init [.associate 0x1000 7, .overlapped 0x1000 100 0x500000,
      .post ⟨0, 9, 0⟩, .get]).any (fun r => decide (returned r.1 = [⟨100, 7, 0x500000⟩]) &&
        decide (r.2.queue = [⟨0, 9, 0⟩])) = true := by
    decide +kernel
  obtain ⟨tr, s, hr, hp⟩ := Run.of_exec_any hexec
  obtain ⟨hgot, hleft⟩ := Bool.and_eq_true_iff.1 hp
  exact ⟨tr, s, hr, completion_law hr, of_decide_eq_true hgot, of_decide_eq_true hleft⟩

/-- A new socket with the handle of a closed one completes with the old key. -/
theorem stale_binding_answers : ¬ ∀ tr s, Run step anyStep .init tr s → Ordered tr s := by
  intro hall
  have hexec : (exec step anyStep .init [.associate 0x1000 7, .close 0x1000, .associate 0x1000 8,
      .overlapped 0x1000 100 0x500000]).any (fun r =>
        decide (.completed (some 8) ⟨100, 7, 0x500000⟩ ∈ r.1.map Prod.snd)) = true := by
    decide +kernel
  obtain ⟨tr, s, hr, hp⟩ := Run.of_exec_any hexec
  have hkey := (hall tr s hr).keyed 8 _ (of_decide_eq_true hp)
  cases hkey

end WineGlass.Completion
