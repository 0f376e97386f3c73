import WineGlass.Sync.Calls

/-!
# Critical sections in real-threads mode

`EnterCriticalSection`, `_Mtx_lock` and their like look the guest's pointer up in
a map that only grows and work on the `wg_sync` mutex found there, 0 if there is
none. A handler makes its calls into `wg_sync` one by one, and the other threads
run in between: `begin` is the lookup, `go` the next call, `resume` what a waiting
enter does. A pointer is the 32-bit word the handler takes. `inside` records who
was told it entered what; the code does not read it. The hash index over the map,
the GIL and its pin are left out.
-/

namespace WineGlass.Sections

open Runs

/-- `WG_MAX_CS`. -/
def maxCs : Nat := 16384

inductive Api
  | criticalSection | mtx
  deriving DecidableEq, Repr

inductive Kind
  | enter | tryEnter | leave
  deriving DecidableEq, Repr

/-- What the handlers return for success and for failure. -/
def Api.code : Api → Bool → Nat
  | .criticalSection, ok => if ok then 1 else 0
  | .mtx, ok => if ok then 0 else 3

/-- Where a thread is: outside, with the mutex its pointer was found to have,
before the infinite wait, or in it. -/
inductive Phase
  | idle
  | found (a : Api) (k : Kind) (p m : Nat)
  | contended (a : Api) (p m : Nat)
  | waiting (a : Api) (p m : Nat)
  deriving DecidableEq, Repr

/-- `map` is `s_cs_map`. -/
structure State where
  sync : Sync.State
  map : List (Nat × Nat)
  phases : Nat → Phase
  inside : List (Nat × Nat)
  exited : Nat → Bool

def State.init : State := ⟨.init, [], fun _ => .idle, [], fun _ => false⟩

/-- `wg_cs_mutex_for`. -/
def mutexFor (s : State) (p : Nat) : Nat × State :=
  match s.map.lookup p with
  | some m => (m, s)
  | none =>
    if s.map.length < maxCs then
      let r := Sync.createMutex s.sync false 0
      let m := r.2.ret.getD 0
      (m, { s with sync := r.1, map := s.map ++ [(p, m)] })
    else (0, s)

def State.to (s : State) (t : Nat) (ph : Phase) : State :=
  { s with phases := Function.update s.phases t ph }

/-- Thread `t` is told that it has entered `p`. -/
def State.enter (s : State) (t p : Nat) : State :=
  { s.to t .idle with inside := (t, p) :: s.inside }

/-- The call a handler makes of the mutex it found. -/
def goFound (s : State) (t : Nat) (a : Api) (k : Kind) (p m : Nat) : State × Option Nat :=
  match k with
  | .leave =>
    let sync := if m = 0 then s.sync else (Sync.releaseMutex s.sync m t).1
    ({ s.to t .idle with sync, inside := s.inside.erase (t, p) }, some (a.code true))
  | .tryEnter =>
    if m = 0 then (s.to t .idle, some (a.code false))
    else
      let r := Sync.waitSingle s.sync t m 0
      let s := { s with sync := r.1 }
      if r.2.ret = some Sync.waitObject0 then (s.enter t p, some (a.code true))
      else (s.to t .idle, some (a.code false))
  | .enter =>
    if m = 0 then (s.enter t p, some (a.code true))
    else
      let r := Sync.waitSingle s.sync t m 0
      let s := { s with sync := r.1 }
      if r.2.ret = some Sync.waitObject0 then (s.enter t p, some (a.code true))
      else (s.to t (.contended a p m), none)

/-- The end of the infinite wait, whatever it returns. -/
def settle (s : State) (t : Nat) (a : Api) (p m : Nat) (r : Sync.State × Sync.Label) :
    State × Option Nat :=
  let s := { s with sync := r.1 }
  match r.2.ret with
  | some _ => (s.enter t p, some (a.code true))
  | none => (s.to t (.waiting a p m), none)

/-- `env` is what the rest of the guest and the watchdog do to the `wg_sync` table.
`InitializeCriticalSection`, `_Mtx_init` and their counterparts do nothing. -/
inductive Action
  | begin (t : Nat) (a : Api) (k : Kind) (p : Nat)
  | go (t : Nat)
  | resume (t : Nat)
  | initSection (p : Nat)
  | deleteSection (p : Nat)
  | exit (t : Nat)
  | env (a : Sync.Action)
  deriving DecidableEq, Repr

/-- A thread outside the handlers; it leaves only what it entered. -/
def Begins (s : State) (t : Nat) (k : Kind) (p : Nat) : Prop :=
  s.phases t = .idle ∧ s.exited t = false ∧ Sync.Free s.sync t ∧
    (k = .leave → (t, p) ∈ s.inside)

instance : Decidable (Begins s t k p) := inferInstanceAs (Decidable (_ ∧ _))

def Outside (s : State) (a : Sync.Action) : Prop :=
  match a.thread with
  | some t => s.phases t = .idle
  | none => True

instance : Decidable (Outside s a) := by
  unfold Outside
  cases a.thread <;> infer_instance

/-- The label is what the handler returns, once it does. -/
def step (s : State) : Action → Option (State × Option Nat)
  | .begin t a k p =>
    if Begins s t k p then
      let r := mutexFor s p
      some (r.2.to t (.found a k p r.1), none)
    else none
  | .go t =>
    match s.phases t with
    | .found a k p m => some (goFound s t a k p m)
    | .contended a p m => some (settle s t a p m (Sync.waitSingle s.sync t m Sync.syncInfinite))
    | .idle | .waiting .. => none
  | .resume t =>
    match s.phases t with
    | .waiting a p m => (Sync.step s.sync (.resume t)).map (settle s t a p m)
    | _ => none
  | .initSection _ | .deleteSection _ => some (s, none)
  | .exit t =>
    if s.phases t = .idle then
      some ({ s with exited := Function.update s.exited t true }, none)
    else none
  | .env a =>
    if Outside s a then (Sync.step s.sync a).map fun r => ({ s with sync := r.1 }, none) else none

-- ---------------------------------------------------------------------------
-- Exclusion
-- ---------------------------------------------------------------------------

/-- The slot of the mutex a pointer has. -/
def State.slot (s : State) (p : Nat) : Option Nat :=
  (s.map.lookup p).bind s.sync.table.findLocked

/-- Whoever entered a pointer's section owns its mutex. -/
def Guarded (s : State) : Prop :=
  ∀ t p, (t, p) ∈ s.inside → ∃ i, s.slot p = some i ∧
    (s.sync.table.objs i).type = .mutex ∧ (s.sync.table.objs i).ownerTid = t

def Exclusive (s : State) : Prop :=
  ∀ t u p, (t, p) ∈ s.inside → (u, p) ∈ s.inside → t = u

theorem Guarded.exclusive (h : Guarded s) : Exclusive s := by
  intro t u p ht hu
  obtain ⟨i, hi, -, rfl⟩ := h t p ht
  obtain ⟨j, hj, -, rfl⟩ := h u p hu
  rw [Option.some.inj (hi.symm.trans hj)]

/-- `wg_cs_mutex_for` gives the pointer a mutex: the one it has, or a new one,
for which both tables have room. -/
def HasMutex (s : State) (p : Nat) : Prop :=
  match s.map.lookup p with
  | some m => m ≠ 0
  | none => s.map.length < maxCs ∧ Sync.Table.firstFree s.sync.table.objs 0 Sync.syncMax ≠ none

/-- The mutex a thread inside a handler is about to acquire. -/
def Phase.wants : Phase → Option Nat
  | .idle | .found _ .leave _ _ => none
  | .found _ _ _ m | .contended _ _ m | .waiting _ _ m => some m

/-- An enter finds a mutex, no thread is 2^31 levels deep in one, and nothing else
the guest does changes a mutex of the map. -/
def Faithful (s : State) : Action → Prop
  | .begin _ _ k p => k = .enter → HasMutex s p
  | .go t | .resume t => ∀ m i, (s.phases t).wants = some m →
      s.sync.table.findLocked m = some i → (s.sync.table.objs i).recursion < CInt.intMax
  | .env a => ∀ r, Sync.step s.sync a = some r → ∀ p i, s.slot p = some i →
      r.1.table.objs i = s.sync.table.objs i
  | _ => True

-- ---------------------------------------------------------------------------
-- Calls of `wg_sync`
-- ---------------------------------------------------------------------------

/-- What `wg_sync_wait_single` does with the mutex in slot `i`, found by `m`. -/
inductive Waited (s : Sync.State) (t m timeout i : Nat) : Sync.State × Sync.Label → Prop
  | taken (hsat : Sync.satisfiedLocked (s.table.objs i) t)
      (hT : r.1.table = s.table.modify i (Sync.acquireLocked · t)) (hc : r.1.calls t = .idle)
      (hr : r.2.ret = some Sync.waitObject0) : Waited s t m timeout i r
  | missed (hT : r.1.table = s.table) (hc : r.1.calls t = .idle)
      (hr : r.2.ret = some Sync.waitTimeout) (h0 : timeout = 0) : Waited s t m timeout i r
  | parked (hT : r.1.table = s.table) (hc : r.1.calls t = .waitSingle m timeout)
      (hr : r.2.ret = none) (h0 : timeout ≠ 0) : Waited s t m timeout i r

theorem waitSinglePass_waited (hT : s'.table = s.table) :
    Waited s t m timeout i (Sync.waitSinglePass s' t m timeout i) := by
  unfold Sync.waitSinglePass
  rw [hT]
  split
  · rename_i hsat
    refine .taken hsat ?_ ?_ rfl
    · simp [Sync.take, Sync.endSingle, Sync.State.leave, hT, Sync.Table.acquireAll]
    · simp [Sync.take, Sync.endSingle]
  · split
    · rename_i h0
      exact .missed hT Sync.endSingle_calls_self rfl h0
    · rename_i h0
      exact .parked hT (Sync.park_calls_self _) rfl h0

theorem waitSingle_waited (hf : s.table.findLocked m = some i) :
    Waited s t m timeout i (Sync.waitSingle s t m timeout) := by
  unfold Sync.waitSingle
  rw [hf]
  exact waitSinglePass_waited rfl

theorem resume_waited (hf : s.table.findLocked m = some i)
    (hc : s.calls t = .waitSingle m timeout) (hs : Sync.step s (.resume t) = some r) :
    Waited s t m timeout i r := by
  simp only [Sync.step, hc, Sync.waitSingleResume, hf, Option.some.injEq] at hs
  rw [← hs]
  exact waitSinglePass_waited rfl

theorem waitSingle_step (hf : Sync.Free s t) :
    Sync.step s (.waitSingle t m timeout) = some (Sync.waitSingle s t m timeout) := if_pos hf

theorem releaseMutex_step (hf : Sync.Free s t) :
    Sync.step s (.call t (.releaseMutex m)) = some (Sync.releaseMutex s m t) := if_pos hf

/-- A mutex its owner releases. -/
theorem releaseMutex_owned (hf : s.table.findLocked m = some i)
    (hty : (s.table.objs i).type = .mutex) (ho : (s.table.objs i).ownerTid = t)
    (hr : 0 < (s.table.objs i).recursion) :
    (Sync.releaseMutex s m t).1.table = s.table.modify i Sync.releaseOnce := by
  simp only [Sync.releaseMutex, hf, hty, ho, hr, and_self, ↓reduceIte]
  split
  · rename_i h1
    simp [Sync.Table.modify, Sync.releaseOnce, h1]
  · rename_i h1
    simp [Sync.Table.modify, Sync.releaseOnce, h1]

/-- What `wg_sync_create_mutex` does: nothing, or an object nobody owns in a slot
that was free. -/
theorem createMutex_cases (s : Sync.State) :
    (Sync.Table.firstFree s.table.objs 0 Sync.syncMax = none ∧
      Sync.createMutex s false 0 = (s, ⟨some 0, []⟩)) ∨
    ∃ i o, Sync.Table.firstFree s.table.objs 0 Sync.syncMax = some i ∧
      i < Sync.syncMax ∧ (s.table.objs i).type = .free ∧
      o = { type := .mutex, handle := Sync.syncBase + i } ∧
      (Sync.createMutex s false 0).1 = s.setTable (s.table.put i o) ∧
      (Sync.createMutex s false 0).2.ret = some (Sync.syncBase + i) := by
  unfold Sync.createMutex Sync.createObj Sync.Table.allocObjLocked
  cases hf : Sync.Table.firstFree s.table.objs 0 Sync.syncMax with
  | none => exact .inl ⟨rfl, by simp⟩
  | some i =>
    obtain ⟨-, hlt, hfree⟩ := Sync.Table.firstFree_some hf
    refine .inr ⟨i, _, rfl, by simpa using hlt, hfree, rfl, ?_, ?_⟩
    · simp
    · simp

-- ---------------------------------------------------------------------------
-- One mutex
-- ---------------------------------------------------------------------------

/-- The fields of a mutex count how often each thread is inside. -/
structure Held (o : Sync.SyncObj) (n : Nat → Nat) : Prop where
  type : o.type = .mutex
  count : ∀ t, (n t : Int) = if o.ownerTid = t then o.recursion else 0
  unowned : o.ownerTid = 0 ↔ o.recursion = 0

theorem Held.owner (h : Held o n) (ht : 0 < n t) : o.ownerTid = t := by
  by_contra hne
  have hc := h.count t
  rw [if_neg hne] at hc
  exact Nat.ne_of_gt ht (Int.natCast_eq_zero.1 hc)

theorem Held.depth (h : Held o n) : o.recursion = n o.ownerTid := by
  simpa using (h.count o.ownerTid).symm

theorem Held.acquire (h : Held o n) (hsat : Sync.satisfiedLocked o t) (ht : t ≠ 0)
    (hfits : o.recursion < CInt.intMax) (hn : ∀ u, n' u = n u + if u = t then 1 else 0) :
    Held (Sync.acquireLocked o t) n' := by
  have hdepth := h.depth
  have hnext : CInt.cInt (o.recursion + 1) = o.recursion + 1 :=
    CInt.cInt_eq (by unfold CInt.intMax; omega) (by omega)
  have hfree : o.ownerTid = 0 ∨ o.ownerTid = t := by
    simpa [Sync.satisfiedLocked, h.type] using hsat
  simp only [Sync.acquireLocked, h.type, hnext]
  refine ⟨rfl, fun u => ?_, iff_of_false ht ?_⟩
  · have hc := h.count u
    have h0 := h.unowned
    rw [hn]
    by_cases hu : u = t
    · subst hu
      have hsame : (n u : Int) = o.recursion := by
        rcases hfree with hfree | hfree
        · rw [hc, hfree, if_neg (Ne.symm ht), h0.1 hfree]
        · rw [hc, if_pos hfree]
      simpa using hsame
    · simp only [hu, Ne.symm hu, ↓reduceIte, Nat.add_zero, hc]
      rcases hfree with hfree | hfree
      · simp [h0.1 hfree]
      · simp [hfree, Ne.symm hu]
  · dsimp only
    omega

theorem Held.release (h : Held o n) (ht : 0 < n t) (h0 : t ≠ 0)
    (hn : ∀ u, n' u = n u - if u = t then 1 else 0) : Held (Sync.releaseOnce o) n' := by
  obtain rfl := h.owner ht
  have hdepth := h.depth
  unfold Sync.releaseOnce
  split
  · rename_i hlast
    refine ⟨h.type, fun u => ?_, by simp⟩
    have hc := h.count u
    rw [hn]
    by_cases hu : u = o.ownerTid
    · subst hu
      simp
      omega
    · simpa [hu, Ne.symm hu] using hc
  · rename_i hlast
    refine ⟨h.type, fun u => ?_, iff_of_false h0 hlast⟩
    have hc := h.count u
    rw [hn]
    by_cases hu : u = o.ownerTid
    · subst hu
      simp only [↓reduceIte]
      omega
    · simpa [hu, Ne.symm hu] using hc

-- ---------------------------------------------------------------------------
-- The invariant
-- ---------------------------------------------------------------------------

/-- What holds of thread `t` in each phase. -/
def At (s : State) (t : Nat) : Phase → Prop
  | .idle => True
  | .found _ k p m => t ≠ 0 ∧ s.sync.calls t = .idle ∧ (m ≠ 0 → s.map.lookup p = some m) ∧
      (k ≠ .tryEnter → m ≠ 0) ∧ (k = .leave → (t, p) ∈ s.inside)
  | .contended _ p m => t ≠ 0 ∧ s.sync.calls t = .idle ∧ m ≠ 0 ∧ s.map.lookup p = some m
  | .waiting _ p m => t ≠ 0 ∧ s.sync.calls t = .waitSingle m Sync.syncInfinite ∧ m ≠ 0 ∧
      s.map.lookup p = some m

structure Inv (s : State) : Prop where
  sane : Sync.Sane s.sync
  live : ∀ p m, s.map.lookup p = some m → m ≠ 0 → ∃ i, s.sync.table.findLocked m = some i
  inj : ∀ p q m, s.map.lookup p = some m → s.map.lookup q = some m → m ≠ 0 → p = q
  held : ∀ p i, s.slot p = some i →
    Held (s.sync.table.objs i) fun t => s.inside.count (t, p)
  entered : ∀ t p, (t, p) ∈ s.inside → ∃ i, s.slot p = some i
  phase : ∀ t, At s t (s.phases t)

theorem init_inv : Inv .init where
  sane := Sync.init_sane
  live := nofun
  inj := nofun
  held p i h := by simp [State.slot, State.init] at h
  entered := nofun
  phase _ := trivial

variable {s s' : State}

theorem slot_some : s.slot p = some i ↔
    ∃ m, s.map.lookup p = some m ∧ s.sync.table.findLocked m = some i := by
  simp [State.slot, Option.bind_eq_some_iff]

theorem slot_handle (h : s.slot p = some i) : s.map.lookup p = some (Sync.syncBase + i) := by
  obtain ⟨m, hm, hf⟩ := slot_some.1 h
  rw [hm, (Sync.Table.findLocked_eq_some.1 hf).1]

theorem find_zero (T : Sync.Table) : T.findLocked 0 = none := by
  simp [Sync.Table.findLocked, Sync.syncBase]

theorem handle_ne_zero (i : Nat) : Sync.syncBase + i ≠ 0 := by simp [Sync.syncBase]

/-- No two pointers share a slot. -/
theorem Inv.slot_inj (h : Inv s) (hp : s.slot p = some i) (hq : s.slot q = some i) : p = q :=
  h.inj p q _ (slot_handle hp) (slot_handle hq) (handle_ne_zero i)

theorem Inv.slot_of (h : Inv s) (hm : s.map.lookup p = some m) (h0 : m ≠ 0) :
    ∃ i, s.slot p = some i ∧ s.sync.table.findLocked m = some i := by
  obtain ⟨i, hi⟩ := h.live p m hm h0
  exact ⟨i, slot_some.2 ⟨m, hm, hi⟩, hi⟩

theorem At.keep (h : At s t ph) (hc : s'.sync.calls t = s.sync.calls t)
    (hm : ∀ p m, s.map.lookup p = some m → s'.map.lookup p = some m)
    (hi : ∀ p, (t, p) ∈ s.inside → (t, p) ∈ s'.inside) : At s' t ph := by
  cases ph with
  | idle => trivial
  | found a k p m =>
    obtain ⟨ht, hcall, hlook, hne, hin⟩ := h
    exact ⟨ht, hc.trans hcall, fun h0 => hm p m (hlook h0), hne, fun hk => hi p (hin hk)⟩
  | contended a p m =>
    obtain ⟨ht, hcall, hne, hlook⟩ := h
    exact ⟨ht, hc.trans hcall, hne, hm p m hlook⟩
  | waiting a p m =>
    obtain ⟨ht, hcall, hne, hlook⟩ := h
    exact ⟨ht, hc.trans hcall, hne, hm p m hlook⟩

/-- The mutexes of the map are left alone, and what is inside them. -/
theorem Inv.still (h : Inv s) (hs : Sync.Sane s'.sync) (hmap : s'.map = s.map)
    (hin : s'.inside = s.inside)
    (hobj : ∀ p i, s.slot p = some i → s'.sync.table.objs i = s.sync.table.objs i)
    (hph : ∀ t, At s' t (s'.phases t)) : Inv s' := by
  have hfind : ∀ p m i, s.map.lookup p = some m → s.sync.table.findLocked m = some i →
      s'.sync.table.findLocked m = some i := by
    intro p m i hm hi
    have ho := hobj p i (slot_some.2 ⟨m, hm, hi⟩)
    rw [Sync.Table.findLocked_eq_some] at hi ⊢
    rwa [ho]
  have hslot : ∀ p i, s'.slot p = some i ↔ s.slot p = some i := by
    intro p i
    constructor
    · intro hi
      obtain ⟨m, hm, hf⟩ := slot_some.1 hi
      rw [hmap] at hm
      by_cases h0 : m = 0
      · subst h0
        simp [find_zero] at hf
      · obtain ⟨j, hj, hfj⟩ := h.slot_of hm h0
        rwa [← Option.some.inj ((hfind p m j hm hfj).symm.trans hf)]
    · intro hi
      obtain ⟨m, hm, hf⟩ := slot_some.1 hi
      exact slot_some.2 ⟨m, hmap ▸ hm, hfind p m i hm hf⟩
  refine ⟨hs, ?_, ?_, ?_, ?_, hph⟩
  · intro p m hm h0
    rw [hmap] at hm
    obtain ⟨i, hi⟩ := h.live p m hm h0
    exact ⟨i, hfind p m i hm hi⟩
  · rw [hmap]
    exact h.inj
  · intro p i hi
    rw [hslot] at hi
    rw [hobj p i hi, hin]
    exact h.held p i hi
  · intro t p ht
    obtain ⟨i, hi⟩ := h.entered t p (hin ▸ ht)
    exact ⟨i, (hslot p i).2 hi⟩

/-- The mutex of one pointer is stored to, as the threads inside it change. -/
theorem Inv.store (h : Inv s) (hs : Sync.Sane s'.sync) (hp : s.slot p = some i)
    (hk : Sync.Table.Keeps f) (hT : s'.sync.table = s.sync.table.modify i f)
    (hmap : s'.map = s.map) (hheld : Held (f (s.sync.table.objs i)) fun t => s'.inside.count (t, p))
    (hother : ∀ t q, q ≠ p → s'.inside.count (t, q) = s.inside.count (t, q))
    (hph : ∀ t, At s' t (s'.phases t)) : Inv s' := by
  have hslot : ∀ q, s'.slot q = s.slot q := by
    intro q
    have hfind : (s.sync.table.modify i f).findLocked = s.sync.table.findLocked :=
      funext fun m => hk.modify_find _ _ _
    simp only [State.slot, hmap, hT, hfind]
  refine ⟨hs, ?_, ?_, ?_, ?_, hph⟩
  · intro q m hm h0
    rw [hmap] at hm
    rw [hT]
    obtain ⟨j, hj⟩ := h.live q m hm h0
    exact ⟨j, (hk.modify_find _ _ _).trans hj⟩
  · rw [hmap]
    exact h.inj
  · intro q j hq
    rw [hslot] at hq
    by_cases hqp : q = p
    · subst hqp
      obtain rfl : i = j := Option.some.inj (hp.symm.trans hq)
      rwa [hT, Sync.Table.modify_self]
    · have hj : j ≠ i := by
        rintro rfl
        exact hqp (h.slot_inj hq hp)
      rw [hT, Sync.Table.modify_ne _ hj]
      simp only [hother _ q hqp]
      exact h.held q j hq
  · intro t q ht
    rw [hslot]
    by_cases hqp : q = p
    · exact ⟨i, hqp ▸ hp⟩
    · refine h.entered t q (List.count_pos_iff.1 ?_)
      rw [← hother t q hqp]
      exact List.count_pos_iff.2 ht

-- ---------------------------------------------------------------------------
-- The lookup
-- ---------------------------------------------------------------------------

theorem lookup_new (hnone : s.map.lookup p = none) :
    (s.map ++ [(p, m)]).lookup q = if q = p then some m else s.map.lookup q := by
  rw [List.lookup_append]
  by_cases hq : q = p
  · subst hq
    simp [hnone]
  · cases hl : s.map.lookup q <;> simp [hq]

/-- A pointer for which no mutex could be made. -/
theorem Inv.addZero (h : Inv s) (hnone : s.map.lookup p = none) :
    Inv { s with map := s.map ++ [(p, 0)] } := by
  have hlook : ∀ q m, m ≠ 0 → (s.map ++ [(p, 0)]).lookup q = some m → s.map.lookup q = some m := by
    intro q m h0 hm
    rw [lookup_new hnone] at hm
    split at hm
    · exact absurd (Option.some.inj hm).symm h0
    · exact hm
  have hslot : ∀ q, State.slot { s with map := s.map ++ [(p, 0)] } q = s.slot q := by
    intro q
    simp only [State.slot, lookup_new hnone]
    split
    · rename_i hq
      subst hq
      simp [hnone, find_zero]
    · rfl
  refine ⟨h.sane, ?_, ?_, ?_, ?_, fun t => (h.phase t).keep rfl ?_ fun _ => id⟩
  · intro q m hm h0
    exact h.live q m (hlook q m h0 hm) h0
  · intro q r m hq hr h0
    exact h.inj q r m (hlook q m h0 hq) (hlook r m h0 hr) h0
  · intro q i hq
    exact h.held q i (hslot q ▸ hq)
  · intro t q ht
    obtain ⟨i, hi⟩ := h.entered t q ht
    exact ⟨i, (hslot q).trans hi⟩
  · intro q m hm
    simp only [lookup_new hnone]
    split
    · rename_i hq
      subst hq
      simp [hnone] at hm
    · exact hm

/-- A pointer with a new mutex. -/
theorem Inv.addMutex (h : Inv s) (hnone : s.map.lookup p = none) (hs : Sync.Sane sync)
    (hc : sync.calls = s.sync.calls) (hi : i < Sync.syncMax)
    (hfree : (s.sync.table.objs i).type = .free)
    (hT : sync.table = s.sync.table.put i { type := .mutex, handle := Sync.syncBase + i }) :
    Inv { s with sync, map := s.map ++ [(p, Sync.syncBase + i)] } := by
  have hne : ∀ {m j}, s.sync.table.findLocked m = some j → j ≠ i := by
    rintro m j hj rfl
    exact Sync.Table.findLocked_live hj hfree
  have hold : ∀ {m j}, s.sync.table.findLocked m = some j → sync.table.findLocked m = some j := by
    intro m j hj
    rw [hT]
    exact Sync.Table.put_find hj (hne hj)
  have hnew : sync.table.findLocked (Sync.syncBase + i) = some i := by
    rw [hT, Sync.Table.findLocked_eq_some, Sync.Table.put_self]
    exact ⟨rfl, hi, nofun, rfl⟩
  have hslot : ∀ q, State.slot { s with sync, map := s.map ++ [(p, Sync.syncBase + i)] } q =
      if q = p then some i else s.slot q := by
    intro q
    simp only [State.slot, lookup_new hnone]
    split
    · exact hnew
    · cases hm : s.map.lookup q with
      | none => rfl
      | some m =>
        by_cases h0 : m = 0
        · subst h0
          simp [find_zero]
        · obtain ⟨j, hj⟩ := h.live q m hm h0
          simp [hj, hold hj]
  have hnobody : ∀ t, s.inside.count (t, p) = 0 := by
    intro t
    rw [List.count_eq_zero]
    intro ht
    obtain ⟨j, hj⟩ := h.entered t p ht
    simp [State.slot, hnone] at hj
  refine ⟨hs, ?_, ?_, ?_, ?_, fun t => (h.phase t).keep (congrFun hc t) ?_ fun _ => id⟩
  · intro q m hm h0
    simp only [lookup_new hnone] at hm
    split at hm
    · cases hm
      exact ⟨i, hnew⟩
    · obtain ⟨j, hj⟩ := h.live q m hm h0
      exact ⟨j, hold hj⟩
  · -- A handle in use is not the new one.
    have hother : ∀ q, s.map.lookup q ≠ some (Sync.syncBase + i) := by
      intro q hm
      obtain ⟨j, hj⟩ := h.live q _ hm (handle_ne_zero i)
      exact hne hj (Nat.add_left_cancel (Sync.Table.findLocked_eq_some.1 hj).1).symm
    intro q r m hq hr h0
    simp only [lookup_new hnone] at hq hr
    split at hq <;> split at hr
    · rename_i h1 h2
      rw [h1, h2]
    · cases hq
      exact absurd hr (hother r)
    · cases hr
      exact absurd hq (hother q)
    · exact h.inj q r m hq hr h0
  · intro q j hq
    rw [hslot] at hq
    dsimp only
    split at hq
    · rename_i hqp
      subst hqp
      cases hq
      rw [hT, Sync.Table.put_self]
      exact ⟨rfl, fun t => by simp [hnobody], by simp⟩
    · obtain ⟨m, -, hj⟩ := slot_some.1 hq
      rw [hT, Sync.Table.put_ne _ (hne hj)]
      exact h.held q j hq
  · intro t q ht
    obtain ⟨j, hj⟩ := h.entered t q ht
    rw [hslot]
    split
    · exact ⟨i, rfl⟩
    · exact ⟨j, hj⟩
  · intro q m hm
    simp only [lookup_new hnone]
    split
    · rename_i hq
      subst hq
      simp [hnone] at hm
    · exact hm

/-- What the lookup gives: the pointer's mutex, or 0. -/
structure Looked (s : State) (p : Nat) (r : Nat × State) : Prop where
  inv : Inv r.2
  here : r.1 ≠ 0 → r.2.map.lookup p = some r.1
  has : HasMutex s p ↔ r.1 ≠ 0
  phases : r.2.phases = s.phases
  inside : r.2.inside = s.inside
  calls : r.2.sync.calls = s.sync.calls

theorem mutexFor_spec (h : Inv s) (hf : Sync.Free s.sync t) : Looked s p (mutexFor s p) := by
  unfold mutexFor
  cases hl : s.map.lookup p with
  | some m => exact ⟨h, fun _ => hl, by simp [HasMutex, hl], rfl, rfl, rfl⟩
  | none =>
    dsimp only
    split
    · obtain ⟨hfull, heq⟩ | ⟨i, o, hfirst, hi, hfree, rfl, hsync, hret⟩ := createMutex_cases s.sync
      · rw [heq]
        refine ⟨h.addZero hl, fun h0 => absurd rfl h0, ?_, rfl, rfl, rfl⟩
        simp [HasMutex, hl, hfull]
      · have hsane : Sync.Sane (Sync.createMutex s.sync false 0).1 := by
          have hstep : Sync.step s.sync (.call t (.createMutex false)) =
              some (Sync.createMutex s.sync false t) := if_pos hf
          exact Sync.step_sane h.sane hstep
        have hinv := h.addMutex hl hsane (by rw [hsync]; rfl) hi hfree (by rw [hsync]; rfl)
        simp only [hret, Option.getD_some]
        refine ⟨hinv, fun _ => ?_, iff_of_true ?_ (handle_ne_zero i), rfl, rfl, by rw [hsync]; rfl⟩
        · simp [lookup_new hl]
        · rename_i hroom
          simp [HasMutex, hl, hroom, hfirst]
    · rename_i hfull
      refine ⟨h, fun h0 => absurd rfl h0, ?_, rfl, rfl, rfl⟩
      simp [HasMutex, hl, hfull]

-- ---------------------------------------------------------------------------
-- Steps
-- ---------------------------------------------------------------------------

/-- Every thread but `t` is where it was; `t` is where it should be. -/
theorem phases_update (h : Inv s) (t : Nat) (ph : Phase) (hself : At s' t ph)
    (hph : s'.phases = Function.update s.phases t ph)
    (hc : ∀ u, u ≠ t → s'.sync.calls u = s.sync.calls u)
    (hm : ∀ p m, s.map.lookup p = some m → s'.map.lookup p = some m)
    (hi : ∀ u p, u ≠ t → (u, p) ∈ s.inside → (u, p) ∈ s'.inside) (u : Nat) :
    At s' u (s'.phases u) := by
  rw [hph]
  by_cases hu : u = t
  · subst hu
    rwa [Function.update_self]
  · rw [Function.update_of_ne hu]
    exact (h.phase u).keep (hc u hu) hm fun p => hi u p hu

/-- Only the calling thread moves in `wg_sync`. -/
theorem calls_other (hs : Sync.step x a = some r) (ha : a.thread = some t) (hu : u ≠ t) :
    r.1.calls u = x.calls u := by
  refine Sync.step_calls hs ?_
  rw [ha, Ne, Option.some.injEq]
  exact Ne.symm hu

/-- Thread `t` has acquired the mutex of `p`, and is told so. -/
theorem Inv.enter (h : Inv s) (hs : Sync.step s.sync a = some r) (ha : a.thread = some t)
    (ht : t ≠ 0) (hp : s.slot p = some i) (hsat : Sync.satisfiedLocked (s.sync.table.objs i) t)
    (hfits : (s.sync.table.objs i).recursion < CInt.intMax)
    (hT : r.1.table = s.sync.table.modify i (Sync.acquireLocked · t)) :
    Inv (State.enter { s with sync := r.1 } t p) := by
  have hcount : ∀ u q, ((t, p) :: s.inside).count (u, q) =
      s.inside.count (u, q) + if u = t ∧ q = p then 1 else 0 := by
    intro u q
    rw [List.count_cons]
    congr 1
    by_cases huq : u = t ∧ q = p
    · obtain ⟨rfl, rfl⟩ := huq
      simp
    · have hne : ¬ (t = u ∧ p = q) := fun ⟨h1, h2⟩ => huq ⟨h1.symm, h2.symm⟩
      simp [huq, hne]
  refine h.store (Sync.step_sane h.sane hs) hp (Sync.Table.keeps_acquire t) hT rfl ?_ ?_ ?_
  · refine (h.held p i hp).acquire hsat ht hfits fun u => (hcount u p).trans ?_
    simp
  · intro u q hq
    exact (hcount u q).trans (by simp [hq])
  · refine phases_update h t .idle trivial rfl (fun u hu => ?_) (fun _ _ => id) ?_
    · exact calls_other hs ha hu
    · exact fun u q _ hin => List.mem_cons_of_mem _ hin

/-- A call of `wg_sync` that changes no object. -/
theorem Inv.move (h : Inv s) (hs : Sync.step s.sync a = some r) (ha : a.thread = some t)
    (hT : r.1.table = s.sync.table) (hself : At { s with sync := r.1 } t ph) :
    Inv (State.to { s with sync := r.1 } t ph) := by
  refine h.still (Sync.step_sane h.sane hs) rfl rfl (fun p i _ => ?_) ?_
  · exact congrArg (·.objs i) hT
  · refine phases_update h t ph ?_ rfl (fun u hu => ?_) (fun _ _ => id) fun _ _ _ => id
    · exact hself.keep rfl (fun _ _ => id) fun _ => id
    · exact calls_other hs ha hu

theorem Inv.leave (h : Inv s) (hs : Sync.step s.sync a = some r) (ha : a.thread = some t)
    (hin : (t, p) ∈ s.inside) (hp : s.slot p = some i) (ht : t ≠ 0)
    (hT : r.1.table = s.sync.table.modify i Sync.releaseOnce) :
    Inv { s.to t .idle with sync := r.1, inside := s.inside.erase (t, p) } := by
  have hcount : ∀ u q, (s.inside.erase (t, p)).count (u, q) =
      s.inside.count (u, q) - if u = t ∧ q = p then 1 else 0 := by
    intro u q
    rw [List.count_erase]
    congr 1
    simp only [beq_iff_eq, Prod.mk.injEq]
    exact if_congr ⟨fun ⟨h1, h2⟩ => ⟨h1.symm, h2.symm⟩, fun ⟨h1, h2⟩ => ⟨h1.symm, h2.symm⟩⟩ rfl rfl
  have hkeeps : Sync.Table.Keeps Sync.releaseOnce := by
    intro o
    unfold Sync.releaseOnce
    split <;> exact ⟨rfl, rfl⟩
  refine h.store (Sync.step_sane h.sane hs) hp hkeeps hT rfl ?_ ?_ ?_
  · refine (h.held p i hp).release (t := t) (List.count_pos_iff.2 hin) ht fun u =>
      (hcount u p).trans ?_
    simp
  · intro u q hq
    exact (hcount u q).trans (by simp [hq])
  · refine phases_update h t .idle trivial rfl (fun u hu => ?_) (fun _ _ => id) ?_
    · exact calls_other hs ha hu
    · intro u q hu hmem
      refine (List.mem_erase_of_ne ?_).2 hmem
      rintro ⟨⟩
      exact hu rfl

theorem Inv.goFound (h : Inv s) (hph : s.phases t = .found a k p m) (hok : Faithful s (.go t)) :
    Inv (goFound s t a k p m).1 := by
  have hat := h.phase t
  rw [hph] at hat
  obtain ⟨ht, hcall, hlook, hne, hin⟩ := hat
  have hfree : Sync.Free s.sync t := ⟨ht, hcall⟩
  have hwait : Sync.step s.sync (.waitSingle t m 0) = some (Sync.waitSingle s.sync t m 0) :=
    waitSingle_step hfree
  have hquiet : Inv (s.to t .idle) := by
    refine h.still h.sane rfl rfl (fun _ _ _ => rfl) ?_
    exact phases_update h t .idle trivial rfl (fun _ _ => rfl) (fun _ _ => id)
      fun _ _ _ => id
  unfold Sections.goFound
  cases k with
  | leave =>
    have h0 : m ≠ 0 := hne nofun
    obtain ⟨i, hi, hf⟩ := h.slot_of (hlook h0) h0
    have hheld := h.held p i hi
    have hpos : 0 < s.inside.count (t, p) := List.count_pos_iff.2 (hin rfl)
    have howner := hheld.owner hpos
    have hrec : 0 < (s.sync.table.objs i).recursion := by
      rw [hheld.depth, howner]
      exact Int.natCast_pos.2 hpos
    simp only [h0, ↓reduceIte]
    exact h.leave (releaseMutex_step hfree) rfl (hin rfl) hi ht
      (releaseMutex_owned hf hheld.type howner hrec)
  | tryEnter =>
    dsimp only
    split
    · exact hquiet
    · rename_i h0
      obtain ⟨i, hi, hf⟩ := h.slot_of (hlook h0) h0
      have hfits := hok m i (by rw [hph]; rfl) hf
      have hw : Waited s.sync t m 0 i _ := waitSingle_waited hf
      cases hw with
      | taken hsat hT hc hr =>
        rw [if_pos hr]
        exact h.enter hwait rfl ht hi hsat hfits hT
      | missed hT hc hr =>
        rw [if_neg (by rw [hr]; decide)]
        exact h.move hwait rfl hT trivial
      | parked _ _ _ h0 => exact absurd rfl h0
  | enter =>
    have h0 : m ≠ 0 := hne nofun
    obtain ⟨i, hi, hf⟩ := h.slot_of (hlook h0) h0
    have hfits := hok m i (by rw [hph]; rfl) hf
    simp only [h0, ↓reduceIte]
    have hw : Waited s.sync t m 0 i _ := waitSingle_waited hf
    cases hw with
    | taken hsat hT hc hr =>
      rw [if_pos hr]
      exact h.enter hwait rfl ht hi hsat hfits hT
    | missed hT hc hr =>
      rw [if_neg (by rw [hr]; decide)]
      exact h.move hwait rfl hT ⟨ht, hc, h0, hlook h0⟩
    | parked _ _ _ h0 => exact absurd rfl h0

/-- A step of the infinite wait. -/
theorem Inv.settle (h : Inv s) (hs : Sync.step s.sync b = some r) (hb : b.thread = some t)
    (ht : t ≠ 0) (h0 : m ≠ 0) (hm : s.map.lookup p = some m)
    (hf : s.sync.table.findLocked m = some i)
    (hfits : (s.sync.table.objs i).recursion < CInt.intMax)
    (hw : Waited s.sync t m Sync.syncInfinite i r) : Inv (settle s t a p m r).1 := by
  have hi : s.slot p = some i := slot_some.2 ⟨m, hm, hf⟩
  unfold Sections.settle
  cases hw with
  | taken hsat hT hc hr =>
    simp only [hr]
    exact h.enter hs hb ht hi hsat hfits hT
  | missed _ _ _ h0 => cases h0
  | parked hT hc hr =>
    simp only [hr]
    exact h.move hs hb hT ⟨ht, hc, h0, hm⟩

theorem Inv.begin (h : Inv s) (hb : Begins s t k p) (hok : k = .enter → HasMutex s p) :
    Inv ((mutexFor s p).2.to t (.found a k p (mutexFor s p).1)) := by
  obtain ⟨-, -, hf, hin⟩ := hb
  obtain ⟨hinv, hhere, hhas, hph, hinside, hcalls⟩ := mutexFor_spec (p := p) h hf
  have hmutex : k ≠ .tryEnter → HasMutex s p := by
    intro hk
    cases k with
    | tryEnter => exact absurd rfl hk
    | enter => exact hok rfl
    | leave =>
      obtain ⟨i, hi⟩ := h.entered t p (hin rfl)
      simp only [HasMutex, slot_handle hi]
      exact handle_ne_zero i
  refine hinv.still hinv.sane rfl rfl (fun _ _ _ => rfl) ?_
  refine phases_update hinv t _ ?_ rfl (fun _ _ => rfl) (fun _ _ => id) fun _ _ _ => id
  refine ⟨hf.1, (congrFun hcalls t).trans hf.2, hhere, fun hk => hhas.1 (hmutex hk), fun hk => ?_⟩
  exact hinside ▸ hin hk

theorem step_inv (h : Inv s) (hok : Faithful s a) (hst : step s a = some (s', o)) : Inv s' := by
  cases a with
  | begin t a k p =>
    simp only [step, Option.ite_none_right_eq_some, Option.some.injEq, Prod.mk.injEq] at hst
    obtain ⟨hb, rfl, -⟩ := hst
    exact h.begin hb hok
  | go t =>
    have hat := h.phase t
    cases hph : s.phases t with
    | idle | waiting => simp [step, hph] at hst
    | found a k p m =>
      simp only [step, hph, Option.some.injEq] at hst
      obtain rfl : _ = s' := congrArg Prod.fst hst
      exact h.goFound hph hok
    | contended a p m =>
      rw [hph] at hat
      obtain ⟨ht, hcall, h0, hm⟩ := hat
      obtain ⟨i, -, hf⟩ := h.slot_of hm h0
      have hfits := hok m i (by rw [hph]; rfl) hf
      simp only [step, hph, Option.some.injEq] at hst
      obtain rfl : _ = s' := congrArg Prod.fst hst
      exact h.settle (waitSingle_step ⟨ht, hcall⟩) rfl ht h0 hm hf hfits (waitSingle_waited hf)
  | resume t =>
    have hat := h.phase t
    cases hph : s.phases t with
    | idle | found | contended => simp [step, hph] at hst
    | waiting a p m =>
      rw [hph] at hat
      obtain ⟨ht, hcall, h0, hm⟩ := hat
      obtain ⟨i, -, hf⟩ := h.slot_of hm h0
      simp only [step, hph, Option.map_eq_some_iff] at hst
      obtain ⟨r, hr, hst⟩ := hst
      have hfits := hok m i (by rw [hph]; rfl) hf
      obtain rfl : _ = s' := congrArg Prod.fst hst
      exact h.settle hr rfl ht h0 hm hf hfits (resume_waited hf hcall hr)
  | initSection p | deleteSection p =>
    simp only [step, Option.some.injEq, Prod.mk.injEq] at hst
    exact hst.1 ▸ h
  | exit t =>
    simp only [step, Option.ite_none_right_eq_some, Option.some.injEq, Prod.mk.injEq] at hst
    obtain ⟨-, rfl, -⟩ := hst
    exact h.still h.sane rfl rfl (fun _ _ _ => rfl) fun u => (h.phase u).keep rfl (fun _ _ => id)
      fun _ => id
  | env b =>
    simp only [step, Option.ite_none_right_eq_some, Option.map_eq_some_iff, Prod.mk.injEq] at hst
    obtain ⟨hout, r, hr, rfl, -⟩ := hst
    refine h.still (Sync.step_sane h.sane hr) rfl rfl (hok r hr) fun u => ?_
    -- The acting thread is outside the handlers; the others stay where they were.
    by_cases hu : b.thread = some u
    · simp only [Outside, hu] at hout
      simp only [hout]
      trivial
    · exact (h.phase u).keep (Sync.step_calls hr hu) (fun _ _ => id) fun _ => id

theorem Inv.guarded (h : Inv s) : Guarded s := by
  intro t p ht
  obtain ⟨i, hi⟩ := h.entered t p ht
  have hheld := h.held p i hi
  exact ⟨i, hi, hheld.type, hheld.owner (List.count_pos_iff.2 ht)⟩

theorem run_inv (h : Run step Faithful .init tr s) : Inv s :=
  h.invariant (P := fun _ s => Inv s) init_inv fun hi hok hst => step_inv hi hok hst

/-- In every run in which enters find a mutex and nothing else touches one, whoever
was told it entered owns the mutex, and is inside alone. -/
theorem sections_law (h : Run step Faithful .init tr s) : Guarded s ∧ Exclusive s :=
  have hg := (run_inv h).guarded
  ⟨hg, hg.exclusive⟩

-- ---------------------------------------------------------------------------
-- What the rest of the guest may do
-- ---------------------------------------------------------------------------

/-- Only its release and its closing reach a mutex: no creation does, and no
operation on an object of another type. -/
theorem runOp_mutex {x : Sync.State} (hty : (x.table.objs i).type = .mutex)
    (hrel : ∀ m, op = .releaseMutex m → x.table.findLocked m ≠ some i)
    (hclose : ∀ m, op = .close m → x.table.findLocked m ≠ some i) :
    (Sync.runOp x t op).1.table.objs i = x.table.objs i := by
  have hmod : ∀ {j f}, j ≠ i → (x.table.modify j f).objs i = x.table.objs i := fun hj =>
    Sync.Table.modify_ne _ (Ne.symm hj)
  have htype : ∀ {j ty}, (x.table.objs j).type = ty → ty ≠ .mutex → j ≠ i := by
    rintro j ty hj hne rfl
    exact hne (hj.symm.trans hty)
  have hcreate : ∀ ty set, (Sync.createObj x ty set).1.table.objs i = x.table.objs i := by
    intro ty set
    unfold Sync.createObj Sync.Table.allocObjLocked
    cases hf : Sync.Table.firstFree x.table.objs 0 Sync.syncMax with
    | none => rfl
    | some j =>
      have hj : i ≠ j := (htype (Sync.Table.firstFree_some hf).2.2 (by simp)).symm
      exact Sync.Table.put_ne _ hj
  have hsignal : ∀ h b bcast ev, (Sync.signalEvent x h b bcast ev).1.table.objs i = x.table.objs i := by
    intro h b bcast ev
    unfold Sync.signalEvent
    split
    · rfl
    · split
      · rename_i hj
        cases bcast <;> simp only [Bool.false_eq_true, ↓reduceIte, Sync.setTable_table, Sync.broadcast_table] <;>
          exact hmod (htype hj (by simp))
      · rfl
  cases op with
  | createEvent | createMutex | createSemaphore | createThreadObj | createCv => exact hcreate _ _
  | setEvent | resetEvent | pulseEvent => exact hsignal _ _ _ _
  | releaseMutex h =>
    simp only [Sync.runOp, Sync.releaseMutex]
    split
    · rfl
    · rename_i j hj
      have hne : j ≠ i := by
        rintro rfl
        exact hrel h rfl hj
      split
      · split <;> simpa using hmod hne
      · rfl
  | releaseSemaphore h n =>
    simp only [Sync.runOp, Sync.releaseSemaphore]
    split
    · rfl
    · split
      · rename_i hj
        simpa using hmod (htype hj (by simp))
      · rfl
  | threadExit h code =>
    simp only [Sync.runOp, Sync.threadExit]
    split
    · rfl
    · split
      · rename_i hj
        simpa using hmod (htype hj.1 (by simp))
      · rfl
  | cvWake cv all =>
    simp only [Sync.runOp, Sync.cvWake]
    split
    · rfl
    · split
      · rename_i hj
        simpa using hmod (htype hj (by simp))
      · rfl
  | isKnown h => rfl
  | threadExitCode h =>
    simp only [Sync.runOp, Sync.threadExitCode]
    split <;> rfl
  | close h =>
    simp only [Sync.runOp, Sync.close]
    split
    · rfl
    · rename_i j hj
      have hne : j ≠ i := by
        rintro rfl
        exact hclose h rfl hj
      exact Sync.Table.release_ne _ (Ne.symm hne)

/-- A call that neither releases nor closes a mutex of the map is within the
condition. -/
theorem env_call_faithful (h : Inv s)
    (hop : ∀ p m, s.map.lookup p = some m → op ≠ .releaseMutex m ∧ op ≠ .close m) :
    Faithful s (.env (.call t op)) := by
  intro r hr p i hp
  simp only [Sync.step, Option.ite_none_right_eq_some, Option.some.injEq] at hr
  obtain ⟨-, rfl⟩ := hr
  have hm := slot_handle hp
  have hnot : ∀ m, (op = .releaseMutex m ∨ op = .close m) → s.sync.table.findLocked m ≠ some i := by
    rintro m hopm hf
    obtain rfl := (Sync.Table.findLocked_eq_some.1 hf).1
    exact hopm.elim (hop p _ hm).1 (hop p _ hm).2
  exact runOp_mutex (h.held p i hp).type (fun m ho => hnot m (.inl ho)) fun m ho => hnot m (.inr ho)

-- ---------------------------------------------------------------------------
-- Runs
-- ---------------------------------------------------------------------------

instance : Decidable (HasMutex s p) := by
  unfold HasMutex
  cases s.map.lookup p <;> infer_instance

/-- `Faithful` for runs without other calls, where it can be evaluated. -/
def Checks (s : State) : Action → Prop
  | .begin _ _ k p => k = .enter → HasMutex s p
  | .go t | .resume t => ∀ i ∈ (s.phases t).wants.bind s.sync.table.findLocked,
      (s.sync.table.objs i).recursion < CInt.intMax
  | .env _ => False
  | _ => True

instance : Decidable (Checks s a) := by
  cases a <;> unfold Checks <;> infer_instance

theorem Checks.faithful (s : State) (a : Action) (h : Checks s a) : Faithful s a := by
  cases a with
  | begin | initSection | deleteSection | exit => exact h
  | go t | resume t =>
    intro m i hm hi
    exact h i (by simp [hm, hi])
  | env b => exact h.elim

/-- Thread 2 finds the section of thread 1 taken, waits, and gets it. -/
theorem sections_law_contended : ∃ tr s, Run step Faithful .init tr s ∧ (Guarded s ∧ Exclusive s) ∧
    s.inside = [(2, 0x500000)] := by
  have hexec : (exec step Checks .init
      [.begin 1 .criticalSection .enter 0x500000, .go 1, .begin 2 .criticalSection .enter 0x500000,
        .go 2, .go 2, .begin 1 .criticalSection .leave 0x500000, .go 1, .resume 2]).any (fun r =>
        decide (r.2.inside = [(2, 0x500000)])) = true := by
    decide +kernel
  obtain ⟨tr, s, hr, hp⟩ := Run.of_exec_any hexec
  have hrun := hr.mono Checks.faithful
  exact ⟨tr, s, hrun, sections_law hrun, of_decide_eq_true hp⟩

/-- An event closed twice takes a mutex with it, and two threads are inside. -/
theorem closed_mutex_opens : ¬ ∀ tr s, Run step anyStep .init tr s → Exclusive s := by
  intro hall
  have hexec : (exec step anyStep .init
      [.env (.call 1 (.createEvent true false)), .env (.call 1 (.close 0x90000)),
        .begin 1 .criticalSection .enter 0x500000, .go 1, .env (.call 1 (.close 0x90000)),
        .begin 2 .criticalSection .enter 0x500000, .go 2, .go 2]).any (fun r =>
        decide (r.2.inside = [(2, 0x500000), (1, 0x500000)])) = true := by
    decide +kernel
  obtain ⟨tr, s, hr, hp⟩ := Run.of_exec_any hexec
  have hin : s.inside = [(2, 0x500000), (1, 0x500000)] := of_decide_eq_true hp
  have h12 := hall tr s hr 1 2 0x500000 (by simp [hin]) (by simp [hin])
  exact absurd h12 (by decide)

end WineGlass.Sections
