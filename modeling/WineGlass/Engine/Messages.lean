import WineGlass.Lib.Ring
import WineGlass.Lib.Run

/-!
# Thread messages

One ring of 64 slots holds the messages of all threads. `PostThreadMessage`
appends to it; `GetMessage` and `PeekMessage` take the oldest message of a
thread id out of the middle. Which id that is differs: `GetMessage` takes the
scheduler's current id, or in real-threads mode the id of the calling pthread,
`PeekMessage` always the scheduler's, or 1 if it has none. `WM_TIMER` messages
are made up on the way out and never queued, so they are left out.
-/

namespace WineGlass.Messages

open Runs Rings

abbrev U32 := BitVec 32

/-- An entry of `s_thread_msgs`. -/
structure Msg where
  tid : U32
  msg : U32
  wparam : U32
  lparam : U32
  deriving DecidableEq, Repr

/-- `WG_MAX_THREAD_MSGS`. -/
def maxThreadMsgs : Nat := 64

inductive Mode
  | cooperative | real
  deriving DecidableEq, Repr

/-- `currentTid` is `wg_sched_current_tid`; in real-threads mode the scheduler
keeps the main thread current. -/
structure State where
  msgs : Buffer Msg
  currentTid : U32

def State.init : State := ⟨⟨fun _ => ⟨0, 0, 0, 0⟩, 0, 0⟩, 1⟩

/-- `tmsg_push`; a full ring drops the message. -/
def tmsgPush (r : Buffer Msg) (m : Msg) : Buffer Msg := (r.push maxThreadMsgs m).getD r

/-- `tmsg_pop`. -/
def tmsgPop (r : Buffer Msg) (tid : U32) : Option (Msg × Buffer Msg) :=
  r.take maxThreadMsgs fun m => m.tid == tid

-- ---------------------------------------------------------------------------
-- Handlers
-- ---------------------------------------------------------------------------

/-- What a call shows: a post that reports success, or a message written to the
buffer of thread `t`, to keep or only to look at. -/
inductive Event
  | posted (m : Msg)
  | delivered (t : U32) (m : Msg)
  | peeked (t : U32) (m : Msg)
  | nothing
  deriving DecidableEq, Repr

/-- The id `GetMessage` takes messages of, called by thread `t`. -/
def getTid (mode : Mode) (s : State) (t : U32) : U32 :=
  match mode with
  | .cooperative => s.currentTid
  | .real => t

/-- The id `PeekMessage` takes messages of. -/
def peekTid (s : State) : U32 := if s.currentTid = 0 then 1 else s.currentTid

/-- `PostThreadMessageW`, which always reports success. -/
def postThreadMessage (s : State) (m : Msg) : State × Event :=
  ({ s with msgs := tmsgPush s.msgs m }, .posted m)

/-- `GetMessageW`; `buf` tells whether `lpMsg` is not null. -/
def getMessage (mode : Mode) (s : State) (t : U32) (buf : Bool) : State × Event :=
  match tmsgPop s.msgs (getTid mode s t) with
  | none => (s, .nothing)
  | some (m, r) => ({ s with msgs := r }, if buf then .delivered t m else .nothing)

/-- `PeekMessageW`, which never looks at `wRemoveMsg`. -/
def peekMessage (s : State) (t : U32) (buf remove : Bool) : State × Event :=
  if buf then
    match tmsgPop s.msgs (peekTid s) with
    | none => (s, .nothing)
    | some (m, r) => ({ s with msgs := r }, if remove then .delivered t m else .peeked t m)
  else (s, .nothing)

inductive Action
  | post (m : Msg)
  | get (t : U32) (buf : Bool)
  | peek (t : U32) (buf remove : Bool)
  | switch (tid : U32)
  deriving DecidableEq, Repr

/-- Cooperative threads call as the current one; `GetCurrentThreadId`. -/
def Calls (mode : Mode) (s : State) (t : U32) : Prop :=
  match mode with
  | .cooperative => t = peekTid s
  | .real => True

instance : Decidable (Calls mode s t) := by
  unfold Calls
  cases mode <;> infer_instance

def step (mode : Mode) (s : State) : Action → Option (State × Event)
  | .post m => some (postThreadMessage s m)
  | .get t buf => if Calls mode s t then some (getMessage mode s t buf) else none
  | .peek t buf remove => if Calls mode s t then some (peekMessage s t buf remove) else none
  | .switch tid =>
    match mode with
    | .cooperative => some ({ s with currentTid := tid }, .nothing)
    | .real => none

-- ---------------------------------------------------------------------------
-- What a queue is for
-- ---------------------------------------------------------------------------

def State.queue (s : State) : List Msg := s.msgs.items maxThreadMsgs

/-- The messages waiting for thread `t`, oldest first. -/
def State.pending (s : State) (t : U32) : List Msg := s.queue.filter fun m => m.tid == t

def Event.postedTo (t : U32) : Event → Option Msg
  | .posted m => if m.tid = t then some m else none
  | _ => none

def Event.gotBy (t : U32) : Event → Option Msg
  | .delivered u m => if u = t then some m else none
  | _ => none

def sent (t : U32) (tr : List (Action × Event)) : List Msg := tr.filterMap fun x => x.2.postedTo t

def received (t : U32) (tr : List (Action × Event)) : List Msg := tr.filterMap fun x => x.2.gotBy t

/-- What thread `t` was sent is what it received, in that order, and what waits
for it. -/
def Balanced (tr : List (Action × Event)) (s : State) : Prop :=
  ∀ t, received t tr ++ s.pending t = sent t tr

/-- Every message got was posted to the thread that got it. -/
def Addressed (tr : List (Action × Event)) : Prop :=
  ∀ t m, .delivered t m ∈ tr.map Prod.snd → m.tid = t

/-- A call that takes messages of `tid` for thread `t` finds none, or is `t`'s
own and keeps what it takes. -/
def Keeps (s : State) (tid t : U32) (keep : Bool) : Prop :=
  s.pending tid = [] ∨ tid = t ∧ keep = true

/-- The ring has room for a post, and messages are taken only by the thread
they are for, into a buffer, and not by a `PeekMessage` without `PM_REMOVE`. -/
def Faithful (mode : Mode) (s : State) : Action → Prop
  | .post _ => s.queue.length < maxThreadMsgs - 1
  | .get t buf => Keeps s (getTid mode s t) t buf
  | .peek t buf remove => buf = true → Keeps s (peekTid s) t remove
  | .switch _ => True

-- ---------------------------------------------------------------------------
-- The queue
-- ---------------------------------------------------------------------------

theorem filter_take {q : α → Bool} {l : List α} (h : l.find? q = some x) :
    l.filter q = x :: (l.eraseP q).filter q := by
  induction l with
  | nil => cases h
  | cons a l ih =>
    cases ha : q a with
    | true => simp_all
    | false => simp_all

theorem filter_erase_other {q q' : α → Bool} {l : List α} (h : ∀ x, q x = true → q' x = false) :
    (l.eraseP q).filter q' = l.filter q' := by
  induction l with
  | nil => rfl
  | cons a l ih =>
    cases ha : q a with
    | true => simp [ha, h a ha]
    | false => simp [ha, List.filter_cons, ih]

variable {s s' : State} {mode : Mode}

theorem push_queue (h : s.msgs.Wf maxThreadMsgs) (hroom : s.queue.length < maxThreadMsgs - 1) :
    let r := tmsgPush s.msgs m
    r.Wf maxThreadMsgs ∧ r.items maxThreadMsgs = s.queue ++ [m] := by
  unfold tmsgPush
  cases hp : s.msgs.push maxThreadMsgs m with
  | none =>
    have hfull := h.push_none.1 hp
    change s.queue.length + 1 = 64 at hfull
    change s.queue.length < 63 at hroom
    omega
  | some r => exact h.push hp

/-- What taking a message of `tid` does to the queue. -/
theorem pop_queue (h : s.msgs.Wf maxThreadMsgs) (tid : U32) :
    (s.pending tid = [] ∧ tmsgPop s.msgs tid = none) ∨
    ∃ m r, tmsgPop s.msgs tid = some (m, r) ∧ r.Wf maxThreadMsgs ∧ m.tid = tid ∧
      s.pending tid = m :: State.pending { s with msgs := r } tid ∧
      ∀ t ≠ tid, State.pending { s with msgs := r } t = s.pending t := by
  cases hp : tmsgPop s.msgs tid with
  | none =>
    refine .inl ⟨?_, rfl⟩
    refine List.filter_eq_nil_iff.2 fun m hm => ?_
    simpa using h.take_none hp m hm
  | some mr =>
    obtain ⟨hr, hfind, herase⟩ := h.take hp
    refine .inr ⟨mr.1, mr.2, rfl, hr, ?_, ?_, fun t ht => ?_⟩
    · simpa using List.find?_some hfind
    · refine (filter_take hfind).trans ?_
      rw [← herase]
      rfl
    · simp only [State.pending, State.queue, herase]
      refine filter_erase_other fun m hm => ?_
      simp_all [Ne.symm]

-- ---------------------------------------------------------------------------
-- Runs
-- ---------------------------------------------------------------------------

@[simp] theorem sent_snoc : sent t (tr ++ [(a, e)]) = sent t tr ++ (e.postedTo t).toList := by
  simp only [sent, List.filterMap_append]
  cases he : e.postedTo t <;> simp [he]

@[simp] theorem received_snoc : received t (tr ++ [(a, e)]) = received t tr ++ (e.gotBy t).toList := by
  simp only [received, List.filterMap_append]
  cases he : e.gotBy t <;> simp [he]

structure Inv (tr : List (Action × Event)) (s : State) : Prop where
  wf : s.msgs.Wf maxThreadMsgs
  balanced : Balanced tr s
  addressed : Addressed tr

theorem init_inv : Inv [] .init := ⟨⟨by decide, by decide⟩, fun _ => rfl, nofun⟩

/-- A step that shows nothing of messages and leaves them where they are. -/
theorem Inv.quiet (h : Inv tr s) (hm : s'.msgs = s.msgs) : Inv (tr ++ [(a, .nothing)]) s' where
  wf := hm ▸ h.wf
  balanced t := by
    simpa [Event.gotBy, Event.postedTo, State.pending, State.queue, hm] using h.balanced t
  addressed t m hd := h.addressed t m (by simpa using hd)

theorem Inv.deliver (h : Inv tr s) (hr : r.Wf maxThreadMsgs) (hm : m.tid = t)
    (hpend : s.pending t = m :: State.pending { s with msgs := r } t)
    (hother : ∀ u ≠ t, State.pending { s with msgs := r } u = s.pending u) :
    Inv (tr ++ [(a, .delivered t m)]) { s with msgs := r } where
  wf := hr
  balanced u := by
    have hb := h.balanced u
    by_cases hu : u = t
    · subst hu
      rw [hpend] at hb
      simpa [Event.gotBy, Event.postedTo] using hb
    · rw [← hother u hu] at hb
      simpa [Event.gotBy, Event.postedTo, Ne.symm hu] using hb
  addressed u m' hd := by
    simp only [List.map_append, List.mem_append, List.map_cons, List.map_nil,
      List.mem_singleton] at hd
    rcases hd with hd | hd
    · exact h.addressed u m' hd
    · obtain ⟨rfl, rfl⟩ := Event.delivered.inj hd
      exact hm

theorem step_inv (h : Inv tr s) (hok : Faithful mode s a) (hst : step mode s a = some (s', e)) :
    Inv (tr ++ [(a, e)]) s' := by
  cases a with
  | post m =>
    obtain ⟨rfl, rfl⟩ := Prod.mk.inj (Option.some.inj hst)
    obtain ⟨hwf, hitems⟩ := push_queue h.wf hok
    refine ⟨hwf, fun t => ?_, fun t m' hd => h.addressed t m' ?_⟩
    · have hb := h.balanced t
      have hpend : State.pending { s with msgs := tmsgPush s.msgs m } t =
          s.pending t ++ [m].filter fun m => m.tid == t := by
        simp only [State.pending, State.queue, hitems, List.filter_append]
      change _ ++ State.pending { s with msgs := tmsgPush s.msgs m } t = _
      rw [hpend]
      rw [sent_snoc, received_snoc, ← hb]
      by_cases hm : m.tid = t
      · simp [Event.gotBy, Event.postedTo, hm]
      · simp [Event.gotBy, Event.postedTo, hm]
    · simpa using hd
  | get t buf =>
    simp only [step, Option.ite_none_right_eq_some, Option.some.injEq] at hst
    obtain ⟨-, hst⟩ := hst
    unfold getMessage at hst
    obtain ⟨-, hpop⟩ | ⟨m, r, hpop, hr, hm, hpend, hother⟩ := pop_queue h.wf (getTid mode s t)
    · rw [hpop] at hst
      obtain ⟨rfl, rfl⟩ := Prod.mk.inj hst
      exact h.quiet rfl
    · rw [hpop] at hst
      rcases hok with hnone | ⟨ht, hbuf⟩
      · rw [hnone] at hpend
        cases hpend
      · subst hbuf
        obtain ⟨rfl, rfl⟩ := Prod.mk.inj hst
        rw [ht] at hm hpend hother
        exact h.deliver hr hm hpend hother
  | peek t buf remove =>
    simp only [step, Option.ite_none_right_eq_some, Option.some.injEq] at hst
    obtain ⟨-, hst⟩ := hst
    unfold peekMessage at hst
    cases buf with
    | false =>
      obtain ⟨rfl, rfl⟩ := Prod.mk.inj hst
      exact h.quiet rfl
    | true =>
      obtain ⟨-, hpop⟩ | ⟨m, r, hpop, hr, hm, hpend, hother⟩ := pop_queue h.wf (peekTid s)
      · simp only [↓reduceIte, hpop] at hst
        obtain ⟨rfl, rfl⟩ := Prod.mk.inj hst
        exact h.quiet rfl
      · simp only [↓reduceIte, hpop] at hst
        rcases hok rfl with hnone | ⟨ht, hrem⟩
        · rw [hnone] at hpend
          cases hpend
        · subst hrem
          obtain ⟨rfl, rfl⟩ := Prod.mk.inj hst
          rw [ht] at hm hpend hother
          exact h.deliver hr hm hpend hother
  | switch tid =>
    cases mode with
    | cooperative =>
      obtain ⟨rfl, rfl⟩ := Prod.mk.inj (Option.some.inj hst)
      exact h.quiet rfl
    | real => cases hst

theorem run_inv (h : Run (step mode) (Faithful mode) .init tr s) : Inv tr s :=
  h.invariant (P := Inv) init_inv fun hi hok hst => step_inv hi hok hst

theorem peek_leaves (h : s.msgs.Wf maxThreadMsgs) (hok : Faithful mode s (.peek t buf false)) :
    (peekMessage s t buf false).1 = s := by
  cases buf with
  | false => rfl
  | true =>
    rcases hok rfl with hnone | ⟨-, hkeep⟩
    · obtain ⟨-, hpop⟩ | ⟨m, r, -, -, -, hpend, -⟩ := pop_queue h (peekTid s)
      · simp only [peekMessage, ↓reduceIte, hpop]
      · rw [hnone] at hpend
        cases hpend
    · cases hkeep

/-- What the queue owes its threads. -/
structure Delivers (mode : Mode) (tr : List (Action × Event)) (s : State) : Prop where
  balanced : Balanced tr s
  addressed : Addressed tr
  peek (t : U32) (buf : Bool) : Faithful mode s (.peek t buf false) →
    (peekMessage s t buf false).1.queue = s.queue
  post (m : Msg) : Faithful mode s (.post m) → (postThreadMessage s m).1.queue = s.queue ++ [m]

/-- In every run in which the ring never fills and messages are taken only by
their own thread, to keep, each is delivered once, in the order of the posts. -/
theorem messages_law (h : Run (step mode) (Faithful mode) .init tr s) : Delivers mode tr s :=
  have hi := run_inv h
  ⟨hi.balanced, hi.addressed, fun _ _ hok => congrArg State.queue (peek_leaves hi.wf hok),
    fun _ hok => (push_queue hi.wf hok).2⟩

instance (s : State) (tid t : U32) (keep : Bool) : Decidable (Keeps s tid t keep) :=
  inferInstanceAs (Decidable (_ ∨ _))

instance (mode : Mode) (s : State) (a : Action) : Decidable (Faithful mode s a) := by
  cases a <;> unfold Faithful <;> infer_instance

/-- Two messages for the main thread around one for another thread. -/
theorem messages_law_interleaved : ∃ tr s,
    Run (step .real) (Faithful .real) .init tr s ∧ Delivers .real tr s ∧
    received 1 tr = [⟨1, 0x400, 1, 0⟩, ⟨1, 0x401, 2, 0⟩] ∧ s.queue = [⟨0x1000, 0x400, 7, 0⟩] := by
  have hexec : (exec (step .real) (Faithful .real) .init
      [.post ⟨1, 0x400, 1, 0⟩, .post ⟨0x1000, 0x400, 7, 0⟩, .post ⟨1, 0x401, 2, 0⟩,
        .peek 1 true true, .get 1 true]).any (fun r =>
        decide (received 1 r.1 = [⟨1, 0x400, 1, 0⟩, ⟨1, 0x401, 2, 0⟩]) &&
          decide (r.2.queue = [⟨0x1000, 0x400, 7, 0⟩])) = true := by
    decide +kernel
  obtain ⟨tr, s, hr, hp⟩ := Run.of_exec_any hexec
  obtain ⟨hgot, hleft⟩ := Bool.and_eq_true_iff.1 hp
  exact ⟨tr, s, hr, messages_law hr, of_decide_eq_true hgot, of_decide_eq_true hleft⟩

/-- 63 messages for a thread that is gone make the next post vanish. -/
theorem full_ring_drops : ¬ ∀ tr s, Run (step .real) anyStep .init tr s → Balanced tr s := by
  intro hall
  have hexec : (exec (step .real) anyStep .init
      (List.replicate 63 (.post ⟨0x1000, 0x400, 0, 0⟩) ++ [.post ⟨1, 0x400, 0, 0⟩])).any (fun r =>
        decide (¬ received 1 r.1 ++ r.2.pending 1 = sent 1 r.1)) = true := by
    decide +kernel
  obtain ⟨tr, s, hr, hp⟩ := Run.of_exec_any hexec
  exact of_decide_eq_true hp (hall tr s hr 1)

end WineGlass.Messages
