import Mathlib.Data.List.Nodup
import WineGlass.Lib.Run

/-!
# The directed lock

`dir_lock`, `dir_unlock`, `wg_dir_set_prefer` and the pair around a blocking wait: the thunk lock
as it is unless the environment asks for another. A step is what a thread does between taking
`s_dir_m` and giving it up, with what it does beside that to its own variables; the timed wait
ends one step and begins another, with or without its time being up. `depth` is not in the source:
the calls of a thread that have returned and have not been undone.
-/

namespace WineGlass.Directed

open Runs

abbrev Thread := BitVec 64
abbrev Tid := BitVec 32

/-- What does not change: `s_cur_guest_tid`, `wg_cs_pin_on` and `s_pin_cap`. -/
structure Config where
  tid : Thread → Tid
  csPinOn : Bool
  pinCap : Int

/-- `WG_MAX_TID`. -/
def maxTid : Tid := 0x1100

/-- Where a thread is: in guest code or a handler, in a blocking wait, or in the loop of
`dir_lock`, for a wait that ends or not. -/
inductive Phase
  | running
  | blocked
  | asleep (ends : Bool)
  | awake (timedOut ends : Bool)
  | exited
  deriving DecidableEq, Repr

structure State where
  owner : Thread
  owned : Bool
  recur : Int
  ownerTid : Tid
  prefer : Tid
  waiters : Int
  tidBlocked : Tid → Bool
  mainBlocked : Bool
  phase : Thread → Phase
  csHeld : Thread → Int
  blocking : Thread → Int
  pinSlices : Thread → Int
  spinPin : Thread → Int
  depth : Thread → Nat

/-- The owner that nobody is yet may be any thread. -/
def State.init (owner : Thread) : State :=
  ⟨owner, false, 0, 0, 0, 0, fun _ => false, false, fun _ => .running, fun _ => 0, fun _ => 0,
    fun _ => 0, fun _ => 0, fun _ => 0⟩

inductive Action
  | lock (t : Thread)
  | wake (t : Thread) (timedOut : Bool)
  | retry (t : Thread)
  | unlock (t : Thread)
  | setPrefer (t : Thread) (tid : Tid)
  | blockBegin (t : Thread)
  | blockEnd (t : Thread)
  | enter (t : Thread)
  | leave (t : Thread)
  | spin (t : Thread) (window : Int)
  | exit (t : Thread)
  deriving DecidableEq, Repr

inductive Event
  | acquired (t : Thread)
  | pinned (t : Thread)
  | released (t : Thread)
  deriving DecidableEq, Repr

/-- `INT_MAX`; what `s_dir_rec++` does there is not defined. -/
def intMax : Int := 2147483647

/-- What follows `dir_lock` in `wg_thunk_block_end`. -/
def unblock (c : Config) (s : State) (t : Thread) : State :=
  { s with
    tidBlocked :=
      if c.tid t < maxTid then Function.update s.tidBlocked (c.tid t) false else s.tidBlocked
    blocking := if s.blocking t > 0 then Function.update s.blocking t (s.blocking t - 1)
      else s.blocking }

/-- The test of the loop in `dir_lock`. -/
def Free (c : Config) (s : State) (t : Thread) : Prop :=
  s.owned = false ∧ (s.prefer = 0 ∨ s.prefer = c.tid t)

instance : Decidable (Free c s t) := inferInstanceAs (Decidable (_ ∧ _))

/-- A call of `dir_lock` that returns with one more hold. -/
def returns (c : Config) (s : State) (t : Thread) (ends : Bool) : State :=
  let s := { s with
    phase := Function.update s.phase t .running
    depth := Function.update s.depth t (s.depth t + 1) }
  if ends then unblock c s t else s

/-- What follows the loop in `dir_lock`. -/
def acquire (c : Config) (s : State) (t : Thread) (ends : Bool) : State :=
  returns c { s with
    owner := t
    owned := true
    recur := 1
    ownerTid := c.tid t
    prefer := if s.prefer = c.tid t then 0 else s.prefer } t ends

/-- `dir_lock`, up to its end or its first sleep. -/
def dirLock (c : Config) (s : State) (t : Thread) (ends : Bool) : Option (State × List Event) :=
  if s.owned ∧ s.owner = t then
    if s.recur = intMax then none
    else some (returns c { s with recur := s.recur + 1 } t ends, [])
  else if Free c s t then some (acquire c s t ends, [.acquired t])
  else
    some ({ s with
      waiters := s.waiters + 1
      phase := Function.update s.phase t (.asleep ends) }, [])

/-- The preferred thread has not come for the lock while `t` slept. -/
def dropPrefer (c : Config) (s : State) (t : Thread) (timedOut : Bool) : State :=
  if timedOut ∧ s.owned = false ∧ s.prefer ≠ 0 ∧ s.prefer ≠ c.tid t then { s with prefer := 0 }
  else s

/-- One more turn of the loop in `dir_lock`. -/
def retry (c : Config) (s : State) (t : Thread) (timedOut ends : Bool) : State × List Event :=
  let s := dropPrefer c s t timedOut
  if Free c s t then (acquire c { s with waiters := s.waiters - 1 } t ends, [.acquired t])
  else ({ s with phase := Function.update s.phase t (.asleep ends) }, [])

/-- `pthread_cond_broadcast`. -/
def Phase.broadcast : Phase → Phase
  | .asleep ends => .awake false ends
  | ph => ph

/-- `want_pin`, where the cap and a blocking wait allow it. -/
def Pins (c : Config) (s : State) (t : Thread) : Prop :=
  ((c.csPinOn ∧ s.csHeld t > 0) ∨ s.spinPin t > 0) ∧ s.blocking t = 0 ∧ s.pinSlices t < c.pinCap

instance : Decidable (Pins c s t) := inferInstanceAs (Decidable (_ ∧ _))

/-- `dir_unlock`. -/
def dirUnlock (c : Config) (s : State) (t : Thread) : State × List Event :=
  let s := { s with
    recur := s.recur - 1
    depth := Function.update s.depth t (s.depth t - 1) }
  if s.recur ≤ 0 then
    let s := { s with recur := 0 }
    if Pins c s t then
      ({ s with
        pinSlices := Function.update s.pinSlices t (s.pinSlices t + 1)
        spinPin := if s.spinPin t > 0 then Function.update s.spinPin t (s.spinPin t - 1)
          else s.spinPin }, [.pinned t])
    else
      ({ s with
        pinSlices := Function.update s.pinSlices t 0
        spinPin := Function.update s.spinPin t 0
        owned := false
        phase := fun u => (s.phase u).broadcast }, [.released t])
  else (s, [])

/-- `wg_dir_set_prefer`. -/
def setPrefer (c : Config) (s : State) (t : Thread) (tid : Tid) : State :=
  if tid = 0 ∨ tid = c.tid t then s
  else if tid < maxTid ∧ s.tidBlocked tid then s
  else { s with prefer := tid, phase := fun u => (s.phase u).broadcast }

/-- `wg_thunk_block_begin`. -/
def blockBegin (c : Config) (s : State) (t : Thread) : State × List Event :=
  let s := { s with
    blocking := Function.update s.blocking t (s.blocking t + 1)
    mainBlocked := if c.tid t = 1 then true else s.mainBlocked
    tidBlocked :=
      if c.tid t < maxTid then Function.update s.tidBlocked (c.tid t) true else s.tidBlocked }
  let r := dirUnlock c s t
  ({ r.1 with phase := Function.update r.1.phase t .blocked }, r.2)

/-- `wg_thunk_block_end`, up to its end or its first sleep. -/
def blockEnd (c : Config) (s : State) (t : Thread) : Option (State × List Event) :=
  dirLock c { s with mainBlocked := if c.tid t = 1 then false else s.mainBlocked } t true

def step (c : Config) (s : State) : Action → Option (State × List Event)
  | .lock t => if s.phase t = .running then dirLock c s t false else none
  | .wake t timedOut =>
    match s.phase t with
    | .asleep ends =>
      some ({ s with phase := Function.update s.phase t (.awake timedOut ends) }, [])
    | _ => none
  | .retry t =>
    match s.phase t with
    | .awake timedOut ends => some (retry c s t timedOut ends)
    | _ => none
  | .unlock t => if s.phase t = .running then some (dirUnlock c s t) else none
  | .setPrefer t tid => if s.phase t = .running then some (setPrefer c s t tid, []) else none
  | .blockBegin t => if s.phase t = .running then some (blockBegin c s t) else none
  | .blockEnd t => if s.phase t = .blocked then blockEnd c s t else none
  | .enter t =>
    if s.phase t = .running then
      some ({ s with csHeld := Function.update s.csHeld t (s.csHeld t + 1) }, [])
    else none
  | .leave t =>
    if s.phase t = .running then
      some ({ s with
        csHeld := if s.csHeld t > 0 then Function.update s.csHeld t (s.csHeld t - 1)
          else s.csHeld }, [])
    else none
  | .spin t window =>
    if s.phase t = .running then
      some ({ s with spinPin := Function.update s.spinPin t window }, [])
    else none
  | .exit t =>
    if s.phase t = .running then
      some ({ s with phase := Function.update s.phase t .exited }, [])
    else none

/-- What the callers keep to: handlers and slices run with the lock, what was locked is unlocked
by who locked it, and a thread ends without it. -/
def Nested (s : State) : Action → Prop
  | .unlock t | .setPrefer t _ | .blockBegin t | .enter t | .leave t | .spin t _ => 0 < s.depth t
  | .exit t => s.depth t = 0
  | _ => True

instance (s : State) (a : Action) : Decidable (Nested s a) := by
  cases a <;> unfold Nested <;> infer_instance

def Phase.contends : Phase → Bool
  | .asleep _ | .awake _ _ => true
  | _ => false

def Phase.waits : Phase → Bool
  | .blocked => true
  | .asleep ends | .awake _ ends => ends
  | _ => false

def events (tr : List (Action × List Event)) : List Event := tr.flatMap Prod.snd

def Event.acquirer : Event → Option Thread
  | .acquired t => some t
  | _ => none

/-- Who took the lock, in order. -/
def acquirers (tr : List (Action × List Event)) : List Thread :=
  (events tr).filterMap Event.acquirer

-- ---------------------------------------------------------------------------
-- The lock
-- ---------------------------------------------------------------------------

/-- The threads of `l` are those in the loop of `dir_lock`. -/
structure Held (l : List Thread) (s : State) : Prop where
  nodup : l.Nodup
  contends : ∀ t, t ∈ l ↔ (s.phase t).contends
  waiters : s.waiters = l.length
  holder : s.owned → (s.phase s.owner).contends = false ∧ s.recur = s.depth s.owner
  depth : ∀ t, 0 < s.depth t → s.owned ∧ s.owner = t
  free : s.owned = false → s.recur = 0

variable {c : Config} {l : List Thread} {s : State}

theorem init_held (owner : Thread) : Held [] (.init owner) where
  nodup := .nil
  contends _ := iff_of_false List.not_mem_nil nofun
  waiters := rfl
  holder h := nomatch h
  depth _ h := absurd h (Nat.lt_irrefl 0)
  free _ := rfl

/-- A step that leaves the lock and who contends for it alone. -/
theorem Held.same (hi : Held l s) (phase : ∀ u, (s'.phase u).contends = (s.phase u).contends)
    (owned : s'.owned = s.owned) (owner : s'.owner = s.owner) (recur : s'.recur = s.recur)
    (depth : s'.depth = s.depth) (waiters : s'.waiters = s.waiters) : Held l s' where
  nodup := hi.nodup
  contends u := by rw [phase, hi.contends]
  waiters := waiters.trans hi.waiters
  holder h := by
    rw [phase, owner, recur, depth]
    exact hi.holder (owned ▸ h)
  depth u hu := by
    rw [owned, owner]
    exact hi.depth u (depth ▸ hu)
  free h := recur.trans (hi.free (owned ▸ h))

theorem update_contends {ph : Phase} (h : ph.contends = (s.phase t).contends) (u : Thread) :
    (Function.update s.phase t ph u).contends = (s.phase u).contends := by
  by_cases hu : u = t
  · subst hu
    rw [Function.update_self, h]
  · rw [Function.update_of_ne hu]

theorem Phase.broadcast_contends (ph : Phase) : ph.broadcast.contends = ph.contends := by
  cases ph <;> rfl

theorem Held.idle (hi : Held l s) (h : s.owned = false) (u : Thread) : s.depth u = 0 :=
  Nat.eq_zero_of_not_pos fun hu => by
    have ho := (hi.depth u hu).1
    rw [h] at ho
    cases ho

/-- The owner has it once more. -/
theorem again_held (hi : Held l s) (ho : s.owned) (ends : Bool) :
    Held l (returns c { s with recur := s.recur + 1 } s.owner ends) := by
  have hsame : Held l { s with
      recur := s.recur + 1
      phase := Function.update s.phase s.owner .running
      depth := Function.update s.depth s.owner (s.depth s.owner + 1) } := by
    obtain ⟨hphase, hrec⟩ := hi.holder ho
    have hcontends : ∀ u, (Function.update s.phase s.owner .running u).contends =
        (s.phase u).contends := update_contends hphase.symm
    refine ⟨hi.nodup, fun u => ?_, hi.waiters, fun _ => ⟨?_, ?_⟩, fun u hu => ⟨ho, ?_⟩, fun h => ?_⟩
    · rw [hcontends, hi.contends]
    · exact (hcontends _).trans hphase
    · simp [hrec]
    · by_contra hne
      simp only [Function.update_of_ne (Ne.symm hne)] at hu
      exact hne (hi.depth u hu).2
    · rw [ho] at h
      cases h
  cases ends with
  | false => exact hsame
  | true => exact hsame.same (fun _ => rfl) rfl rfl rfl rfl rfl

/-- The lock goes to one who did not contend for it. -/
theorem acquire_held (hi : Held l s) (ho : s.owned = false) (ht : (s.phase t).contends = false)
    (ends : Bool) : Held l (acquire c s t ends) := by
  have hcontends : ∀ u, (Function.update s.phase t .running u).contends = (s.phase u).contends :=
    update_contends ht.symm
  have htaken : Held l { s with
      owner := t
      owned := true
      recur := 1
      phase := Function.update s.phase t .running
      depth := Function.update s.depth t (s.depth t + 1) } := by
    refine ⟨hi.nodup, fun u => ?_, hi.waiters, fun _ => ⟨?_, ?_⟩, fun u hu => ⟨rfl, ?_⟩, nofun⟩
    · rw [hcontends, hi.contends]
    · exact (hcontends _).trans ht
    · simp [hi.idle ho t]
    · by_contra hne
      simp only [Function.update_of_ne (Ne.symm hne), hi.idle ho, Nat.lt_irrefl] at hu
  cases ends with
  | false => exact htaken.same (fun _ => rfl) rfl rfl rfl rfl rfl
  | true => exact htaken.same (fun _ => rfl) rfl rfl rfl rfl rfl

/-- A thread that contends no more. -/
theorem Held.leaves (hi : Held l s) (h : (s.phase t).contends) :
    Held (l.erase t) { s with
      waiters := s.waiters - 1
      phase := Function.update s.phase t .running } := by
  have hmem := (hi.contends t).2 h
  refine ⟨hi.nodup.erase t, fun u => ?_, ?_, fun ho => ?_, hi.depth, hi.free⟩
  · rw [hi.nodup.mem_erase_iff, hi.contends]
    by_cases hu : u = t
    · subst hu
      simp [Phase.contends]
    · simp [hu]
  · have hpos := List.length_pos_of_mem hmem
    simp only [hi.waiters, List.length_erase_of_mem hmem]
    omega
  · obtain ⟨hphase, hrec⟩ := hi.holder ho
    have hne : s.owner ≠ t := by
      rintro rfl
      rw [h] at hphase
      cases hphase
    exact ⟨by simp only [Function.update_of_ne hne, hphase], hrec⟩

theorem dirLock_held (hi : Held l s) (ht : (s.phase t).contends = false)
    (h : dirLock c s t ends = some (s', e)) : ∃ l', Held l' s' := by
  unfold dirLock at h
  split at h
  · rename_i hown
    obtain ⟨ho, rfl⟩ := hown
    split at h
    · cases h
    · obtain ⟨rfl, -⟩ := Prod.mk.inj (Option.some.inj h)
      exact ⟨l, again_held hi ho ends⟩
  · rename_i hown
    split at h
    · rename_i hfree
      obtain ⟨rfl, -⟩ := Prod.mk.inj (Option.some.inj h)
      exact ⟨l, acquire_held hi hfree.1 ht ends⟩
    · obtain ⟨rfl, -⟩ := Prod.mk.inj (Option.some.inj h)
      have hout : t ∉ l := by
        rw [hi.contends, ht]
        exact Bool.false_ne_true
      refine ⟨t :: l, List.nodup_cons.2 ⟨hout, hi.nodup⟩, fun u => ?_, ?_, fun ho => ?_, hi.depth,
        hi.free⟩
      · rw [List.mem_cons, hi.contends]
        by_cases hu : u = t
        · subst hu
          simp [Phase.contends]
        · simp [hu]
      · simp [hi.waiters]
      · obtain ⟨hphase, hrec⟩ := hi.holder ho
        have hne : s.owner ≠ t := fun he => hown ⟨ho, he⟩
        exact ⟨by simp only [Function.update_of_ne hne, hphase], hrec⟩

theorem retry_held (hi : Held l s) (ht : s.phase t = .awake timedOut ends) :
    ∃ l', Held l' (retry c s t timedOut ends).1 := by
  have hdrop : Held l (dropPrefer c s t timedOut) := by
    unfold dropPrefer
    split
    · exact hi.same (fun _ => rfl) rfl rfl rfl rfl rfl
    · exact hi
  have hphase : (dropPrefer c s t timedOut).phase t = .awake timedOut ends := by
    unfold dropPrefer
    split <;> exact ht
  unfold retry
  generalize dropPrefer c s t timedOut = s₁ at hdrop hphase
  have hcontends : (s₁.phase t).contends := by rw [hphase]; rfl
  simp only
  split
  · rename_i hfree
    have hleft := acquire_held (c := c) (hdrop.leaves hcontends) hfree.1
      (t := t) (by simp [Phase.contends]) ends
    refine ⟨_, hleft.same (fun u => ?_) ?_ ?_ ?_ ?_ ?_⟩ <;> cases ends <;>
      simp [acquire, returns, unblock]
  · exact ⟨l, hdrop.same (update_contends (by rw [hphase]; rfl)) rfl rfl rfl rfl rfl⟩

theorem dirUnlock_held (hi : Held l s) (hd : 0 < s.depth t) : Held l (dirUnlock c s t).1 := by
  obtain ⟨ho, rfl⟩ := hi.depth t hd
  obtain ⟨hphase, hrec⟩ := hi.holder ho
  have hundone : ∀ u, 0 < Function.update s.depth s.owner (s.depth s.owner - 1) u →
      u = s.owner ∧ 1 < s.depth s.owner := fun u hu => by
    by_cases hut : u = s.owner
    · subst hut
      rw [Function.update_self] at hu
      exact ⟨rfl, by omega⟩
    · rw [Function.update_of_ne hut] at hu
      exact absurd (hi.depth u hu).2.symm hut
  unfold dirUnlock
  simp only
  split
  · rename_i hle
    split
    · refine ⟨hi.nodup, hi.contends, hi.waiters, fun _ => ⟨hphase, ?_⟩, fun u hu => ⟨ho, ?_⟩,
        fun h => absurd (ho.symm.trans h) nofun⟩
      · simp only [Function.update_self]
        omega
      · exact (hundone u hu).1.symm
    · refine ⟨hi.nodup, fun u => ?_, hi.waiters, nofun, fun u hu => ?_, fun _ => rfl⟩
      · rw [hi.contends, Phase.broadcast_contends]
      · have := (hundone u hu).2
        omega
  · refine ⟨hi.nodup, hi.contends, hi.waiters, fun _ => ⟨hphase, ?_⟩, fun u hu => ⟨ho, ?_⟩,
      fun h => absurd (ho.symm.trans h) nofun⟩
    · simp only [Function.update_self]
      omega
    · exact (hundone u hu).1.symm

theorem dirUnlock_phase (c : Config) (s : State) (t u : Thread) :
    (dirUnlock c s t).1.phase u = s.phase u ∨
      (dirUnlock c s t).1.phase u = (s.phase u).broadcast := by
  unfold dirUnlock
  simp only
  split
  · split
    · exact .inl rfl
    · exact .inr rfl
  · exact .inl rfl

theorem dirUnlock_kept (c : Config) (s : State) (t : Thread) :
    (dirUnlock c s t).1.blocking = s.blocking ∧ (dirUnlock c s t).1.mainBlocked = s.mainBlocked ∧
      (dirUnlock c s t).1.tidBlocked = s.tidBlocked := by
  unfold dirUnlock
  simp only
  split
  · split <;> exact ⟨rfl, rfl, rfl⟩
  · exact ⟨rfl, rfl, rfl⟩

theorem blockBegin_held (hi : Held l s) (hd : 0 < s.depth t) (ht : s.phase t = .running) :
    Held l (blockBegin c s t).1 := by
  have hcounted : Held l { s with
      blocking := Function.update s.blocking t (s.blocking t + 1)
      mainBlocked := if c.tid t = 1 then true else s.mainBlocked
      tidBlocked := if c.tid t < maxTid then Function.update s.tidBlocked (c.tid t) true
        else s.tidBlocked } := hi.same (fun _ => rfl) rfl rfl rfl rfl rfl
  refine (dirUnlock_held (c := c) hcounted hd).same (update_contends ?_) rfl rfl rfl rfl rfl
  have hrunning : (s.phase t).contends = false := by rw [ht]; rfl
  rcases dirUnlock_phase c _ t t with hp | hp
  · rw [hp]
    exact hrunning.symm
  · rw [hp, Phase.broadcast_contends]
    exact hrunning.symm

theorem setPrefer_held (hi : Held l s) : Held l (setPrefer c s t x) := by
  unfold setPrefer
  split
  · exact hi
  · split
    · exact hi
    · exact hi.same (fun u => (s.phase u).broadcast_contends) rfl rfl rfl rfl rfl

theorem step_held (hi : Held l s) (hok : Nested s a) (h : step c s a = some (s', e)) :
    ∃ l', Held l' s' := by
  cases a with
  | lock t =>
    simp only [step, Option.ite_none_right_eq_some] at h
    obtain ⟨hp, h⟩ := h
    exact dirLock_held hi (by rw [hp]; rfl) h
  | wake t timedOut =>
    simp only [step] at h
    split at h
    · rename_i ends hp
      obtain ⟨rfl, -⟩ := Prod.mk.inj (Option.some.inj h)
      exact ⟨l, hi.same (update_contends (by rw [hp]; rfl)) rfl rfl rfl rfl rfl⟩
    · cases h
  | retry t =>
    simp only [step] at h
    split at h
    · rename_i timedOut ends hp
      have hheld := retry_held (c := c) hi hp
      rw [Option.some.inj h] at hheld
      exact hheld
    · cases h
  | unlock t =>
    simp only [step, Option.ite_none_right_eq_some, Option.some.injEq] at h
    have hheld := dirUnlock_held (c := c) hi hok
    rw [h.2] at hheld
    exact ⟨l, hheld⟩
  | setPrefer t x =>
    simp only [step, Option.ite_none_right_eq_some, Option.some.injEq, Prod.mk.injEq] at h
    obtain ⟨-, rfl, -⟩ := h
    exact ⟨l, setPrefer_held hi⟩
  | blockBegin t =>
    simp only [step, Option.ite_none_right_eq_some, Option.some.injEq] at h
    have hheld := blockBegin_held (c := c) hi hok h.1
    rw [h.2] at hheld
    exact ⟨l, hheld⟩
  | blockEnd t =>
    simp only [step, Option.ite_none_right_eq_some, blockEnd] at h
    obtain ⟨hp, h⟩ := h
    have hcleared : Held l { s with
        mainBlocked := if c.tid t = 1 then false else s.mainBlocked } :=
      hi.same (fun _ => rfl) rfl rfl rfl rfl rfl
    exact dirLock_held hcleared (by simp only [hp, Phase.contends]) h
  | enter t =>
    simp only [step, Option.ite_none_right_eq_some, Option.some.injEq, Prod.mk.injEq] at h
    obtain ⟨-, rfl, -⟩ := h
    exact ⟨l, hi.same (fun _ => rfl) rfl rfl rfl rfl rfl⟩
  | leave t =>
    simp only [step, Option.ite_none_right_eq_some, Option.some.injEq, Prod.mk.injEq] at h
    obtain ⟨-, rfl, -⟩ := h
    exact ⟨l, hi.same (fun _ => rfl) rfl rfl rfl rfl rfl⟩
  | spin t window =>
    simp only [step, Option.ite_none_right_eq_some, Option.some.injEq, Prod.mk.injEq] at h
    obtain ⟨-, rfl, -⟩ := h
    exact ⟨l, hi.same (fun _ => rfl) rfl rfl rfl rfl rfl⟩
  | exit t =>
    simp only [step, Option.ite_none_right_eq_some, Option.some.injEq, Prod.mk.injEq] at h
    obtain ⟨hp, rfl, -⟩ := h
    exact ⟨l, hi.same (update_contends (by rw [hp]; rfl)) rfl rfl rfl rfl rfl⟩

-- ---------------------------------------------------------------------------
-- Blocking waits
-- ---------------------------------------------------------------------------

/-- `s_blocking` and `s_tid_blocked` say who waits; `s_main_blocked` is no more than a hint. -/
structure Waiting (c : Config) (s : State) : Prop where
  blocking : ∀ t, s.blocking t = if (s.phase t).waits then 1 else 0
  marked : ∀ x, s.tidBlocked x → x < maxTid ∧ ∃ t, c.tid t = x ∧ (s.phase t).waits
  main : s.mainBlocked → ∃ t, c.tid t = 1 ∧ s.phase t = .blocked

theorem init_waiting (owner : Thread) : Waiting c (.init owner) where
  blocking _ := rfl
  marked _ h := nomatch h
  main h := nomatch h

theorem Waiting.same (hi : Waiting c s) (phase : ∀ u, (s'.phase u).waits = (s.phase u).waits)
    (blocked : ∀ u, s.phase u = .blocked → s'.phase u = .blocked)
    (blocking : s'.blocking = s.blocking) (marked : s'.tidBlocked = s.tidBlocked)
    (main : s'.mainBlocked = s.mainBlocked) : Waiting c s' where
  blocking u := by rw [blocking, phase, hi.blocking]
  marked x hx := by
    rw [marked] at hx
    obtain ⟨hlt, u, hu, hw⟩ := hi.marked x hx
    exact ⟨hlt, u, hu, by rw [phase, hw]⟩
  main h := by
    rw [main] at h
    obtain ⟨u, hu, hb⟩ := hi.main h
    exact ⟨u, hu, blocked u hb⟩

theorem update_waits {ph : Phase} (h : ph.waits = (s.phase t).waits) (u : Thread) :
    (Function.update s.phase t ph u).waits = (s.phase u).waits := by
  by_cases hu : u = t
  · subst hu
    rw [Function.update_self, h]
  · rw [Function.update_of_ne hu]

theorem update_blocked {ph : Phase} (h : s.phase t ≠ .blocked) (u : Thread)
    (hu : s.phase u = .blocked) : Function.update s.phase t ph u = .blocked := by
  have hne : u ≠ t := by
    rintro rfl
    exact h hu
  rw [Function.update_of_ne hne, hu]

theorem Phase.broadcast_waits (ph : Phase) : ph.broadcast.waits = ph.waits := by
  cases ph <;> rfl

theorem Waiting.broadcast (hi : Waiting c s) (phase : s'.phase = fun u => (s.phase u).broadcast)
    (blocking : s'.blocking = s.blocking) (marked : s'.tidBlocked = s.tidBlocked)
    (main : s'.mainBlocked = s.mainBlocked) : Waiting c s' := by
  refine hi.same (fun u => ?_) (fun u hu => ?_) blocking marked main
  · rw [phase, Phase.broadcast_waits]
  · rw [phase]
    exact congrArg Phase.broadcast hu

/-- `t` is about to contend: if it is in a blocking wait, that wait ends. -/
structure Ending (c : Config) (s : State) (t : Thread) (ends : Bool) : Prop where
  blocking : ∀ t, s.blocking t = if (s.phase t).waits then 1 else 0
  marked : ∀ x, s.tidBlocked x → x < maxTid ∧ ∃ t, c.tid t = x ∧ (s.phase t).waits
  main : s.mainBlocked → ∃ u ≠ t, c.tid u = 1 ∧ s.phase u = .blocked
  phase : (s.phase t).waits = ends

theorem Waiting.ending (hi : Waiting c s) (h : s.phase t ≠ .blocked) :
    Ending c s t (s.phase t).waits := by
  refine ⟨hi.blocking, hi.marked, fun hm => ?_, rfl⟩
  obtain ⟨u, hu, hb⟩ := hi.main hm
  refine ⟨u, ?_, hu, hb⟩
  rintro rfl
  exact h hb

theorem Ending.same (hi : Ending c s t ends) (phase : s'.phase = s.phase)
    (blocking : s'.blocking = s.blocking) (marked : s'.tidBlocked = s.tidBlocked)
    (main : s'.mainBlocked = s.mainBlocked) : Ending c s' t ends := by
  obtain ⟨h1, h2, h3, h4⟩ := hi
  exact ⟨by rwa [blocking, phase], by rwa [marked, phase], by rwa [main, phase], by rwa [phase]⟩

theorem Ending.sleeps (hi : Ending c s t ends) :
    Waiting c { s with phase := Function.update s.phase t (.asleep ends) } := by
  have hwaits : ∀ u, (Function.update s.phase t (.asleep ends) u).waits = (s.phase u).waits :=
    update_waits hi.phase.symm
  refine ⟨fun u => ?_, fun x hx => ?_, fun hm => ?_⟩
  · rw [hwaits]
    exact hi.blocking u
  · obtain ⟨hlt, u, hu, hw⟩ := hi.marked x hx
    exact ⟨hlt, u, hu, (hwaits u).trans hw⟩
  · obtain ⟨u, hne, hu, hb⟩ := hi.main hm
    exact ⟨u, hu, by simp only [Function.update_of_ne hne, hb]⟩

theorem Ending.returns (hi : Ending c s t ends) : Waiting c (returns c s t ends) := by
  have hmain : s.mainBlocked → ∃ u, c.tid u = 1 ∧
      Function.update s.phase t .running u = .blocked := fun hm => by
    obtain ⟨u, hne, hu, hb⟩ := hi.main hm
    exact ⟨u, hu, by rw [Function.update_of_ne hne, hb]⟩
  obtain ⟨hblocking, hmarked, -, hends⟩ := hi
  cases ends with
  | false =>
    have hwaits : ∀ u, (Function.update s.phase t .running u).waits = (s.phase u).waits :=
      update_waits hends.symm
    refine ⟨fun u => ?_, fun x hx => ?_, hmain⟩
    · exact (hblocking u).trans (by rw [← hwaits u]; rfl)
    · obtain ⟨hlt, u, hu, hw⟩ := hmarked x hx
      exact ⟨hlt, u, hu, (hwaits u).trans hw⟩
  | true =>
    refine ⟨fun u => ?_, fun x hx => ?_, hmain⟩
    · by_cases hut : u = t
      · subst hut
        have hone : s.blocking u = 1 := by rw [hblocking, hends]; rfl
        simp [Directed.returns, unblock, hone, Phase.waits]
      · simp only [Directed.returns, unblock, if_true, Function.update_of_ne hut]
        split
        · rw [Function.update_of_ne hut, hblocking]
        · rw [hblocking]
    · have hold : s.tidBlocked x ∧ x ≠ c.tid t := by
        simp only [Directed.returns, unblock, if_true] at hx
        split at hx
        · by_cases hxt : x = c.tid t
          · subst hxt
            rw [Function.update_self] at hx
            cases hx
          · rw [Function.update_of_ne hxt] at hx
            exact ⟨hx, hxt⟩
        · rename_i hge
          refine ⟨hx, ?_⟩
          rintro rfl
          exact hge (hmarked _ hx).1
      obtain ⟨hlt, u, hu, hw⟩ := hmarked x hold.1
      have hne : u ≠ t := by
        rintro rfl
        exact hold.2 hu.symm
      refine ⟨hlt, u, hu, ?_⟩
      simp only [Directed.returns, unblock, if_true, Function.update_of_ne hne, hw]

theorem Ending.acquire (hi : Ending c s t ends) : Waiting c (acquire c s t ends) :=
  Ending.returns (hi.same rfl rfl rfl rfl)

theorem dirLock_waiting (hi : Ending c s t ends) (h : dirLock c s t ends = some (s', e)) :
    Waiting c s' := by
  unfold dirLock at h
  split at h
  · split at h
    · cases h
    · obtain ⟨rfl, -⟩ := Prod.mk.inj (Option.some.inj h)
      exact Ending.returns (hi.same rfl rfl rfl rfl)
  · split at h
    · obtain ⟨rfl, -⟩ := Prod.mk.inj (Option.some.inj h)
      exact hi.acquire
    · obtain ⟨rfl, -⟩ := Prod.mk.inj (Option.some.inj h)
      have hjoined : Ending c { s with waiters := s.waiters + 1 } t ends :=
        hi.same rfl rfl rfl rfl
      exact hjoined.sleeps

theorem retry_waiting (hi : Ending c s t ends) : Waiting c (retry c s t timedOut ends).1 := by
  have hdrop : Ending c (dropPrefer c s t timedOut) t ends := by
    unfold dropPrefer
    split
    · exact hi.same rfl rfl rfl rfl
    · exact hi
  unfold retry
  generalize dropPrefer c s t timedOut = s₁ at hdrop
  simp only
  split
  · exact Ending.acquire (hdrop.same rfl rfl rfl rfl)
  · exact hdrop.sleeps

theorem dirUnlock_waiting (hi : Waiting c s) : Waiting c (dirUnlock c s t).1 := by
  unfold dirUnlock
  simp only
  split
  · split
    · exact hi.same (fun _ => rfl) (fun _ hu => hu) rfl rfl rfl
    · exact hi.broadcast rfl rfl rfl rfl
  · exact hi.same (fun _ => rfl) (fun _ hu => hu) rfl rfl rfl

theorem blockBegin_waiting (hi : Waiting c s) (ht : s.phase t = .running) :
    Waiting c (blockBegin c s t).1 := by
  have hzero : s.blocking t = 0 := by rw [hi.blocking, ht]; rfl
  have hphase : ∀ u, u ≠ t → ((blockBegin c s t).1.phase u).waits = (s.phase u).waits ∧
      (s.phase u = .blocked → (blockBegin c s t).1.phase u = .blocked) := fun u hu => by
    have hcase : (blockBegin c s t).1.phase u = s.phase u ∨
        (blockBegin c s t).1.phase u = (s.phase u).broadcast := by
      simp only [blockBegin, Function.update_of_ne hu]
      exact dirUnlock_phase c _ t u
    rcases hcase with hp | hp
    · exact ⟨congrArg Phase.waits hp, hp.trans⟩
    · exact ⟨(congrArg Phase.waits hp).trans (Phase.broadcast_waits _),
        fun hb => hp.trans (congrArg Phase.broadcast hb)⟩
  have hself : (blockBegin c s t).1.phase t = .blocked := Function.update_self ..
  have hkept : (blockBegin c s t).1.blocking = Function.update s.blocking t (s.blocking t + 1) ∧
      (blockBegin c s t).1.mainBlocked = (if c.tid t = 1 then true else s.mainBlocked) ∧
      (blockBegin c s t).1.tidBlocked =
        (if c.tid t < maxTid then Function.update s.tidBlocked (c.tid t) true
          else s.tidBlocked) := dirUnlock_kept c _ t
  obtain ⟨hblocking, hmain, hmarked⟩ := hkept
  refine ⟨fun u => ?_, fun x hx => ?_, fun hm => ?_⟩
  · rw [hblocking]
    by_cases hu : u = t
    · subst hu
      rw [Function.update_self, hself, hzero]
      rfl
    · rw [Function.update_of_ne hu, (hphase u hu).1, hi.blocking]
  · rw [hmarked] at hx
    have hcase : x = c.tid t ∧ c.tid t < maxTid ∨ s.tidBlocked x := by
      split at hx
      · rename_i hlt
        by_cases hxt : x = c.tid t
        · exact .inl ⟨hxt, hlt⟩
        · rw [Function.update_of_ne hxt] at hx
          exact .inr hx
      · exact .inr hx
    rcases hcase with ⟨rfl, hlt⟩ | hold
    · exact ⟨hlt, t, rfl, by rw [hself]; rfl⟩
    · obtain ⟨hlt, u, hu, hw⟩ := hi.marked x hold
      have hne : u ≠ t := by
        rintro rfl
        rw [ht] at hw
        cases hw
      exact ⟨hlt, u, hu, (hphase u hne).1.trans hw⟩
  · rw [hmain] at hm
    split at hm
    · rename_i hone
      exact ⟨t, hone, hself⟩
    · obtain ⟨u, hu, hb⟩ := hi.main hm
      have hne : u ≠ t := by
        rintro rfl
        rw [ht] at hb
        cases hb
      exact ⟨u, hu, (hphase u hne).2 hb⟩

theorem setPrefer_waiting (hi : Waiting c s) : Waiting c (setPrefer c s t x) := by
  unfold setPrefer
  split
  · exact hi
  · split
    · exact hi
    · exact hi.broadcast rfl rfl rfl rfl

theorem step_waiting (hi : Waiting c s) (h : step c s a = some (s', e)) : Waiting c s' := by
  cases a with
  | lock t =>
    simp only [step, Option.ite_none_right_eq_some] at h
    obtain ⟨hp, h⟩ := h
    have hending := hi.ending (t := t) (by rw [hp]; nofun)
    rw [hp] at hending
    exact dirLock_waiting hending h
  | wake t timedOut =>
    simp only [step] at h
    split at h
    · rename_i ends hp
      obtain ⟨rfl, -⟩ := Prod.mk.inj (Option.some.inj h)
      exact hi.same (update_waits (by rw [hp]; rfl)) (update_blocked (by rw [hp]; nofun)) rfl rfl
        rfl
    · cases h
  | retry t =>
    simp only [step] at h
    split at h
    · rename_i timedOut ends hp
      have hending := hi.ending (t := t) (by rw [hp]; nofun)
      rw [hp] at hending
      have hwaiting : Waiting c (retry c s t timedOut ends).1 := retry_waiting hending
      rw [Option.some.inj h] at hwaiting
      exact hwaiting
    · cases h
  | unlock t =>
    simp only [step, Option.ite_none_right_eq_some, Option.some.injEq] at h
    have hwaiting := dirUnlock_waiting (t := t) hi
    rw [h.2] at hwaiting
    exact hwaiting
  | setPrefer t x =>
    simp only [step, Option.ite_none_right_eq_some, Option.some.injEq, Prod.mk.injEq] at h
    obtain ⟨-, rfl, -⟩ := h
    exact setPrefer_waiting hi
  | blockBegin t =>
    simp only [step, Option.ite_none_right_eq_some, Option.some.injEq] at h
    have hwaiting := blockBegin_waiting hi h.1
    rw [h.2] at hwaiting
    exact hwaiting
  | blockEnd t =>
    simp only [step, Option.ite_none_right_eq_some, blockEnd] at h
    obtain ⟨hp, h⟩ := h
    have hending : Ending c { s with
        mainBlocked := if c.tid t = 1 then false else s.mainBlocked } t true := by
      refine ⟨hi.blocking, hi.marked, fun hm => ?_, by simp only [hp, Phase.waits]⟩
      simp only at hm
      split at hm
      · cases hm
      · rename_i hne
        obtain ⟨u, hu, hb⟩ := hi.main hm
        refine ⟨u, ?_, hu, hb⟩
        rintro rfl
        exact hne hu
    exact dirLock_waiting hending h
  | enter t =>
    simp only [step, Option.ite_none_right_eq_some, Option.some.injEq, Prod.mk.injEq] at h
    obtain ⟨-, rfl, -⟩ := h
    exact hi.same (fun _ => rfl) (fun _ hu => hu) rfl rfl rfl
  | leave t =>
    simp only [step, Option.ite_none_right_eq_some, Option.some.injEq, Prod.mk.injEq] at h
    obtain ⟨-, rfl, -⟩ := h
    exact hi.same (fun _ => rfl) (fun _ hu => hu) rfl rfl rfl
  | spin t window =>
    simp only [step, Option.ite_none_right_eq_some, Option.some.injEq, Prod.mk.injEq] at h
    obtain ⟨-, rfl, -⟩ := h
    exact hi.same (fun _ => rfl) (fun _ hu => hu) rfl rfl rfl
  | exit t =>
    simp only [step, Option.ite_none_right_eq_some, Option.some.injEq, Prod.mk.injEq] at h
    obtain ⟨hp, rfl, -⟩ := h
    exact hi.same (update_waits (by rw [hp]; rfl)) (update_blocked (by rw [hp]; nofun)) rfl rfl rfl

-- ---------------------------------------------------------------------------
-- Pins
-- ---------------------------------------------------------------------------

/-- How often `t` has kept the lock since it last gave it up. -/
def Event.count (t : Thread) (n : Int) : Event → Int
  | .pinned u => if u = t then n + 1 else n
  | .released u => if u = t then 0 else n
  | .acquired _ => n

def pinned (tr : List (Action × List Event)) (t : Thread) : Int :=
  (events tr).foldl (Event.count t) 0

/-- What a step says of pins is what it does, and it stops at the cap. -/
structure Capped (c : Config) (s s' : State) (e : List Event) : Prop where
  counts : ∀ t, s'.pinSlices t = e.foldl (Event.count t) (s.pinSlices t)
  cap : ∀ t, s'.pinSlices t ≤ max (s.pinSlices t) (max 0 c.pinCap)

/-- Steps that neither pin nor give up the lock. -/
def Event.quiet : Event → Bool
  | .acquired _ => true
  | _ => false

theorem Capped.of (h : s'.pinSlices = s.pinSlices) (he : ∀ x ∈ e, x.quiet) : Capped c s s' e where
  counts t := by
    rw [h]
    induction e with
    | nil => rfl
    | cons x e ih =>
      have hx := he x List.mem_cons_self
      cases x with
      | acquired u => exact ih fun y hy => he y (List.mem_cons_of_mem _ hy)
      | pinned u => cases hx
      | released u => cases hx
  cap t := by
    rw [h]
    exact Int.le_max_left _ _

theorem returns_pinSlices (c : Config) (s : State) (t : Thread) (ends : Bool) :
    (returns c s t ends).pinSlices = s.pinSlices := by
  cases ends <;> rfl

theorem quiet_acquired (t : Thread) : ∀ x ∈ [Event.acquired t], x.quiet := by
  rintro x hx
  rw [List.mem_singleton.1 hx]
  rfl

theorem dirLock_capped (h : dirLock c s t ends = some (s', e)) : Capped c s s' e := by
  unfold dirLock at h
  split at h
  · split at h
    · cases h
    · obtain ⟨rfl, rfl⟩ := Prod.mk.inj (Option.some.inj h)
      exact .of (returns_pinSlices ..) nofun
  · split at h
    · obtain ⟨rfl, rfl⟩ := Prod.mk.inj (Option.some.inj h)
      exact .of (returns_pinSlices ..) (quiet_acquired t)
    · obtain ⟨rfl, rfl⟩ := Prod.mk.inj (Option.some.inj h)
      exact .of rfl nofun

theorem retry_capped (c : Config) (s : State) (t : Thread) (timedOut ends : Bool) :
    Capped c s (retry c s t timedOut ends).1 (retry c s t timedOut ends).2 := by
  have hdrop : (dropPrefer c s t timedOut).pinSlices = s.pinSlices := by
    unfold dropPrefer
    split <;> rfl
  unfold retry
  generalize dropPrefer c s t timedOut = s₁ at hdrop
  simp only
  split
  · exact .of ((returns_pinSlices ..).trans hdrop) (quiet_acquired t)
  · exact .of hdrop nofun

theorem dirUnlock_capped (c : Config) (s : State) (t : Thread) :
    Capped c s (dirUnlock c s t).1 (dirUnlock c s t).2 := by
  unfold dirUnlock
  simp only
  split
  · split
    · rename_i hpins
      have hlt : s.pinSlices t < c.pinCap := hpins.2.2
      refine ⟨fun u => ?_, fun u => ?_⟩ <;> by_cases hu : u = t
      · subst hu
        simp [Event.count]
      · simp [Event.count, Function.update_of_ne hu, Ne.symm hu]
      · subst hu
        simp only [Function.update_self]
        omega
      · simp only [Function.update_of_ne hu, Int.le_max_left]
    · refine ⟨fun u => ?_, fun u => ?_⟩ <;> by_cases hu : u = t
      · subst hu
        simp [Event.count]
      · simp [Event.count, Function.update_of_ne hu, Ne.symm hu]
      · subst hu
        simp only [Function.update_self]
        omega
      · simp only [Function.update_of_ne hu, Int.le_max_left]
  · exact .of rfl nofun

theorem step_capped (h : step c s a = some (s', e)) : Capped c s s' e := by
  cases a with
  | lock t =>
    simp only [step, Option.ite_none_right_eq_some] at h
    exact dirLock_capped h.2
  | wake t timedOut =>
    simp only [step] at h
    split at h
    · obtain ⟨rfl, rfl⟩ := Prod.mk.inj (Option.some.inj h)
      exact .of rfl nofun
    · cases h
  | retry t =>
    simp only [step] at h
    split at h
    · rename_i timedOut ends hp
      have hcapped := retry_capped c s t timedOut ends
      rw [Option.some.inj h] at hcapped
      exact hcapped
    · cases h
  | unlock t =>
    simp only [step, Option.ite_none_right_eq_some, Option.some.injEq] at h
    have hcapped := dirUnlock_capped c s t
    rw [h.2] at hcapped
    exact hcapped
  | setPrefer t x =>
    simp only [step, Option.ite_none_right_eq_some, Option.some.injEq, Prod.mk.injEq] at h
    obtain ⟨-, rfl, rfl⟩ := h
    refine .of ?_ nofun
    unfold setPrefer
    split
    · rfl
    · split <;> rfl
  | blockBegin t =>
    simp only [step, Option.ite_none_right_eq_some, Option.some.injEq] at h
    obtain ⟨-, h⟩ := h
    obtain ⟨rfl, rfl⟩ := Prod.mk.inj h
    obtain ⟨hcounts, hcap⟩ := dirUnlock_capped c { s with
      blocking := Function.update s.blocking t (s.blocking t + 1)
      mainBlocked := if c.tid t = 1 then true else s.mainBlocked
      tidBlocked := if c.tid t < maxTid then Function.update s.tidBlocked (c.tid t) true
        else s.tidBlocked } t
    exact ⟨hcounts, hcap⟩
  | blockEnd t =>
    simp only [step, Option.ite_none_right_eq_some, blockEnd] at h
    obtain ⟨hcounts, hcap⟩ := dirLock_capped h.2
    exact ⟨hcounts, hcap⟩
  | enter t | leave t | spin t window | exit t =>
    simp only [step, Option.ite_none_right_eq_some, Option.some.injEq, Prod.mk.injEq] at h
    obtain ⟨-, rfl, rfl⟩ := h
    exact .of rfl nofun

-- ---------------------------------------------------------------------------
-- Runs
-- ---------------------------------------------------------------------------

/-- What a run is known to keep. -/
structure Inv (c : Config) (tr : List (Action × List Event)) (s : State) : Prop where
  held : ∃ l, Held l s
  waiting : Waiting c s
  pins : ∀ t, s.pinSlices t = pinned tr t
  capped : ∀ t, pinned tr t ≤ max 0 c.pinCap

theorem events_snoc (tr : List (Action × List Event)) (a : Action) (e : List Event) :
    events (tr ++ [(a, e)]) = events tr ++ e := by
  simp [events]

theorem pinned_snoc (tr : List (Action × List Event)) (a : Action) (e : List Event) (t : Thread) :
    pinned (tr ++ [(a, e)]) t = e.foldl (Event.count t) (pinned tr t) := by
  rw [pinned, events_snoc, List.foldl_append]
  rfl

theorem run_inv (h : Run (step c) Nested (.init owner) tr s) : Inv c tr s := by
  refine h.invariant (P := Inv c) ⟨⟨[], init_held owner⟩, init_waiting owner, fun _ => rfl,
    fun _ => Int.le_max_left _ _⟩ ?_
  rintro tr s a s' e ⟨⟨l, hheld⟩, hwaiting, hpins, hcap⟩ hok hs
  obtain ⟨hcounts, hstop⟩ := step_capped hs
  refine ⟨step_held hheld hok hs, step_waiting hwaiting hs, fun t => ?_, fun t => ?_⟩
  · rw [hcounts, hpins, pinned_snoc]
  · have hle := hcap t
    have hmax := hstop t
    rw [hcounts, hpins] at hmax
    rw [pinned_snoc]
    omega

def Action.thread : Action → Thread
  | .lock t | .wake t _ | .retry t | .unlock t | .setPrefer t _ | .blockBegin t | .blockEnd t
  | .enter t | .leave t | .spin t _ | .exit t => t

/-- Nobody takes the lock in a step that neither gives it up nor finds it free. -/
structure Stays (s s' : State) (e : List Event) : Prop where
  owned : s'.owned = s.owned
  owner : s'.owner = s.owner
  nobody : ∀ u, .acquired u ∉ e

theorem dirLock_stays (ho : s.owned) (h : dirLock c s t ends = some (s', e)) : Stays s s' e := by
  unfold dirLock at h
  split at h
  · split at h
    · cases h
    · obtain ⟨rfl, rfl⟩ := Prod.mk.inj (Option.some.inj h)
      cases ends <;> exact ⟨rfl, rfl, nofun⟩
  · rw [if_neg fun hf : Free c s t => Bool.false_ne_true (hf.1.symm.trans ho)] at h
    obtain ⟨rfl, rfl⟩ := Prod.mk.inj (Option.some.inj h)
    exact ⟨rfl, rfl, nofun⟩

theorem retry_owned (ho : s.owned) (c : Config) (t : Thread) (timedOut ends : Bool) :
    retry c s t timedOut ends =
      ({ s with phase := Function.update s.phase t (.asleep ends) }, []) := by
  have hdrop : dropPrefer c s t timedOut = s :=
    if_neg fun hf => Bool.false_ne_true (hf.2.1.symm.trans ho)
  rw [retry, hdrop, if_neg fun hf : Free c s t => Bool.false_ne_true (hf.1.symm.trans ho)]

theorem retry_stays (ho : s.owned) (c : Config) (t : Thread) (timedOut ends : Bool) :
    Stays s (retry c s t timedOut ends).1 (retry c s t timedOut ends).2 := by
  rw [retry_owned ho]
  exact ⟨rfl, rfl, nofun⟩

theorem dirUnlock_stays (c : Config) (s : State) (t : Thread) :
    ((dirUnlock c s t).2 = [.released t] ∧ (dirUnlock c s t).1.owned = false) ∨
      Stays s (dirUnlock c s t).1 (dirUnlock c s t).2 := by
  unfold dirUnlock
  simp only
  split
  · split
    · exact .inr ⟨rfl, rfl, fun u hu => nomatch List.mem_singleton.1 hu⟩
    · exact .inl ⟨rfl, rfl⟩
  · exact .inr ⟨rfl, rfl, nofun⟩

/-- While it is owned, the lock changes hands only through a release by its owner. -/
theorem step_stays (hi : Held l s) (ho : s.owned) (hok : Nested s a)
    (h : step c s a = some (s', e)) :
    (a.thread = s.owner ∧ e = [.released s.owner] ∧ s'.owned = false) ∨ Stays s s' e := by
  cases a with
  | lock t =>
    simp only [step, Option.ite_none_right_eq_some] at h
    exact .inr (dirLock_stays ho h.2)
  | wake t timedOut =>
    simp only [step] at h
    split at h
    · obtain ⟨rfl, rfl⟩ := Prod.mk.inj (Option.some.inj h)
      exact .inr ⟨rfl, rfl, nofun⟩
    · cases h
  | retry t =>
    simp only [step] at h
    split at h
    · rename_i timedOut ends hp
      have hstays := retry_stays ho c t timedOut ends
      rw [Option.some.inj h] at hstays
      exact .inr hstays
    · cases h
  | unlock t =>
    simp only [step, Option.ite_none_right_eq_some, Option.some.injEq] at h
    have hstays := dirUnlock_stays c s t
    rw [h.2, ← (hi.depth t hok).2] at hstays
    exact hstays.imp_left fun hr => ⟨(hi.depth t hok).2.symm, hr⟩
  | setPrefer t x =>
    simp only [step, Option.ite_none_right_eq_some, Option.some.injEq, Prod.mk.injEq] at h
    obtain ⟨-, rfl, rfl⟩ := h
    unfold setPrefer
    split
    · exact .inr ⟨rfl, rfl, nofun⟩
    · split <;> exact .inr ⟨rfl, rfl, nofun⟩
  | blockBegin t =>
    simp only [step, Option.ite_none_right_eq_some, Option.some.injEq] at h
    obtain ⟨rfl, rfl⟩ := Prod.mk.inj h.2
    have hown := (hi.depth t hok).2
    rcases dirUnlock_stays c { s with
      blocking := Function.update s.blocking t (s.blocking t + 1)
      mainBlocked := if c.tid t = 1 then true else s.mainBlocked
      tidBlocked := if c.tid t < maxTid then Function.update s.tidBlocked (c.tid t) true
        else s.tidBlocked } t with ⟨he, hfree⟩ | ⟨h1, h2, h3⟩
    · exact .inl ⟨hown.symm, hown ▸ he, hfree⟩
    · exact .inr ⟨h1, h2, h3⟩
  | blockEnd t =>
    simp only [step, Option.ite_none_right_eq_some, blockEnd] at h
    have hcleared : ({ s with
        mainBlocked := if c.tid t = 1 then false else s.mainBlocked } : State).owned := ho
    obtain ⟨h1, h2, h3⟩ := dirLock_stays hcleared h.2
    exact .inr ⟨h1, h2, h3⟩
  | enter t | leave t | spin t window | exit t =>
    simp only [step, Option.ite_none_right_eq_some, Option.some.injEq, Prod.mk.injEq] at h
    obtain ⟨-, rfl, rfl⟩ := h
    exact .inr ⟨rfl, rfl, nofun⟩

/-- The lock is one thread's, as many times as it has locked it; it stays so until that thread
gives it up, which a blocking wait does at once if the thread has it once, and which the pins put
off no longer than the cap. -/
structure Safe (c : Config) (tr : List (Action × List Event)) (s : State) : Prop where
  exclusive : 0 < s.depth t → 0 < s.depth u → t = u
  nesting : 0 < s.depth t → s.owned ∧ s.owner = t ∧ s.recur = s.depth t
  free : s.owned = false → s.recur = 0 ∧ ∀ t, s.depth t = 0
  stays : s.owned → Nested s a → step c s a = some (s', e) →
    (a.thread = s.owner ∧ e = [.released s.owner] ∧ s'.owned = false) ∨ Stays s s' e
  waiters : ∃ l : List Thread, l.Nodup ∧ (∀ t, t ∈ l ↔ (s.phase t).contends) ∧
    s.waiters = l.length
  blocks : s.phase t = .running → 0 < s.depth t → ∃ s' e, step c s (.blockBegin t) = some (s', e) ∧
    (s'.owned = false ↔ s.depth t = 1)
  capped : pinned tr t ≤ max 0 c.pinCap
  marked : s.tidBlocked x → ∃ t, c.tid t = x ∧ (s.phase t).waits
  main : s.mainBlocked → ∃ t, c.tid t = 1 ∧ s.phase t = .blocked

/-- In every interleaving. -/
theorem directed_law (c : Config) (owner : Thread)
    (h : Run (step c) Nested (.init owner) tr s) : Safe c tr s := by
  obtain ⟨⟨l, hi⟩, hwaiting, -, hcap⟩ := run_inv h
  constructor
  case exclusive =>
    intro t u ht hu
    exact (hi.depth t ht).2.symm.trans (hi.depth u hu).2
  case nesting =>
    intro t ht
    obtain ⟨ho, rfl⟩ := hi.depth t ht
    exact ⟨ho, rfl, (hi.holder ho).2⟩
  case free => exact fun ho => ⟨hi.free ho, hi.idle ho⟩
  case stays => exact fun ho hok hs => step_stays hi ho hok hs
  case waiters => exact ⟨l, hi.nodup, hi.contends, hi.waiters⟩
  case blocks =>
    intro t ht hd
    obtain ⟨ho, rfl⟩ := hi.depth t hd
    have hrec := (hi.holder ho).2
    have hzero : s.blocking s.owner = 0 := by rw [hwaiting.blocking, ht]; rfl
    refine ⟨_, _, if_pos ht, ?_⟩
    simp only [dirUnlock, Pins, Function.update_self, hzero]
    split
    · simp only [Int.reduceAdd, Int.one_ne_zero, false_and, and_false, if_false, true_iff]
      omega
    · simp only [ho, Bool.true_eq_false, false_iff]
      omega
  case capped => exact hcap _
  case marked => exact fun hx => (hwaiting.marked _ hx).2
  case main => exact hwaiting.main

/-- A thread that sleeps is counted; one that waits has given the lock up and is marked. -/
theorem directed_law_wait : ∃ c tr s, Run (step c) Nested (.init 0) tr s ∧ Safe c tr s ∧
    s.waiters = 1 ∧ s.phase 1 = .blocked ∧ s.depth 2 = 1 ∧ pinned tr 2 = 2 := by
  have hexec : (exec (step ⟨fun t => t.truncate 32, true, 64⟩) Nested (.init 0) [.lock 1, .lock 2,
      .blockBegin 1, .retry 2, .enter 2, .unlock 2, .lock 2, .lock 3, .unlock 2, .lock 2]).any
      (fun r => decide (r.2.waiters = 1 ∧ r.2.phase 1 = .blocked ∧ r.2.depth 2 = 1 ∧
        pinned r.1 2 = 2)) = true := by
    decide
  obtain ⟨tr, s, hrun, hs⟩ := Run.of_exec_any hexec
  exact ⟨_, tr, s, hrun, directed_law _ 0 hrun, of_decide_eq_true hs⟩

end WineGlass.Directed
