import WineGlass.Coop.Scheduler
import WineGlass.Lib.Spans

/-!
# Thread slots

A slot goes from free to a thread and no further: an exited thread keeps its
slot, its handle and its stack until the next program is loaded. So the slots
are taken in order and what a thread is given is a function of its slot. `Kept`
is what every operation but a creation does to that; `Numbered e k` says slots 0
to `k` are taken.
-/

namespace WineGlass.Coop

open Runs Spans

/-- What a creation fixes of a thread. -/
def Thread.identity (t : Thread) : U32 × U32 × U32 × U32 :=
  (t.id, t.handle, t.stackBase, t.stackSize)

def Engine.allocators (e : Engine) : U32 × U32 × U32 := (e.nextId, e.nextHandle, e.nextStackAddr)

/-- The current slot is a thread's. -/
def Settled (e : Engine) : Prop := ∀ i, e.current = some i → e.state i ≠ .free

structure Kept (e e' : Engine) : Prop where
  free (i : Slot) : e'.state i = .free ↔ e.state i = .free
  identity (i : Slot) : (e'.threads i).identity = (e.threads i).identity
  allocators : e'.allocators = e.allocators
  settled : Settled e'

/-- A run in which no thread's slot is marked free again; the code never does. -/
def Proper (_ : Engine) (a : Action) : Prop := a ≠ .save .free

-- ---------------------------------------------------------------------------
-- What the operations keep
-- ---------------------------------------------------------------------------

theorem Kept.refl (h : Settled e) : Kept e e := ⟨fun _ => .rfl, fun _ => rfl, rfl, h⟩

theorem Kept.trans (h : Kept e e') (h' : Kept e' e'') : Kept e e'' where
  free i := (h'.free i).trans (h.free i)
  identity i := (h'.identity i).trans (h.identity i)
  allocators := h'.allocators.trans h.allocators
  settled := h'.settled

/-- A thread's slot is written, and perhaps made current. -/
theorem kept_write (h : Settled e) (hi : e.state i ≠ .free) (ht : t.state ≠ .free)
    (hid : t.identity = (e.threads i).identity) (hc : c = e.current ∨ c = some i ∨ c = none) :
    Kept e { e.set i t with current := c, blink, paused } where
  free j := by
    by_cases hj : j = i
    · subst hj
      simp only [Engine.state] at hi
      simp [Engine.state, Engine.set, hi, ht]
    · simp [Engine.state, Engine.set, Function.update_of_ne hj]
  identity j := by
    by_cases hj : j = i
    · subst hj
      simpa [Engine.set] using hid
    · simp [Engine.set, Function.update_of_ne hj]
  allocators := rfl
  settled j hj := by
    by_cases hji : j = i
    · subst hji
      simpa [Engine.state, Engine.set] using ht
    · rcases hc with rfl | rfl | rfl
      · simpa [Engine.state, Engine.set, Function.update_of_ne hji] using h j hj
      · exact absurd (Option.some.inj hj).symm hji
      · cases hj

theorem save_kept (h : Settled e) (hst : st ≠ .free) : Kept e (save e st) := by
  unfold save
  split
  · exact .refl h
  · rename_i i hc
    exact kept_write h (h i hc) hst rfl (.inl rfl)

theorem enter_kept (h : Settled e) (hi : e.state i ≠ .free) : Kept e (e.enter i) :=
  kept_write h hi nofun rfl (.inr (.inl rfl))

theorem switchNext_kept (h : Settled e) : Kept e (switchNext e).2 := by
  obtain ⟨i, hi, heq⟩ | ⟨-, heq⟩ := switchNext_cases e
  · rw [heq]
    exact enter_kept h (by simp [hi])
  · rw [heq]
    exact .refl h

theorem yield_kept (h : Settled e) (hst : st ≠ .free) : Kept e (yield e st).2 := by
  have hs := save_kept h hst
  obtain ⟨i, hi, heq⟩ | ⟨-, ⟨i, hc, heq⟩ | ⟨-, heq⟩⟩ := yield_cases e st
  · rw [heq]
    exact hs.trans (enter_kept hs.settled (by simp [hi]))
  · rw [heq]
    exact hs.trans (enter_kept hs.settled ((hs.free i).not.2 (h i hc)))
  · rw [heq]
    exact .refl h

theorem setWait_kept (h : Settled e) : Kept e (setWait e w) := by
  unfold setWait
  split
  · exact .refl h
  · rename_i i hc
    exact kept_write h (h i hc) (h i hc) rfl (.inl rfl)

theorem wake_thread (e : Engine) (w : U32) (i : Slot) :
    (wake e w).threads i = e.threads i ∨ e.state i = .waiting ∧
      (wake e w).threads i = { e.threads i with state := .ready, waitHandle := 0 } := by
  unfold wake
  dsimp only
  split
  · rename_i hw
    exact .inr ⟨hw.1, rfl⟩
  · exact .inl rfl

theorem wake_kept (h : Settled e) : Kept e (wake e w) where
  free i := by
    obtain heq | ⟨hw, heq⟩ := wake_thread e w i
    · simp [Engine.state, heq]
    · simp only [Engine.state] at hw
      simp [Engine.state, heq, hw]
  identity i := by
    obtain heq | ⟨-, heq⟩ := wake_thread e w i <;> simp [heq, Thread.identity]
  allocators := rfl
  settled i hc := by
    have hi := h i hc
    obtain heq | ⟨-, heq⟩ := wake_thread e w i
    · simpa [Engine.state, heq] using hi
    · simp [Engine.state, heq]

theorem resumeThread_kept (h : Settled e) : Kept e (resumeThread e w) := by
  unfold resumeThread
  split
  · exact .refl h
  split
  · rename_i hs
    exact kept_write h (by simp [hs]) nofun rfl (.inl rfl)
  · exact .refl h

theorem exitThread_kept (h : Settled e) : Kept e (exitThread e code) := by
  unfold exitThread
  split
  · exact .refl h
  · rename_i i hc
    have hx : Kept e { e.set i { e.threads i with state := .exited, exitCode := code } with
        current := none } := kept_write h (h i hc) nofun rfl (.inr (.inr rfl))
    exact hx.trans (switchNext_kept hx.settled)

theorem preempt_kept (h : Settled e) : Kept e (preempt e) := by
  unfold preempt
  split
  · exact yield_kept h nofun
  · exact .refl h

theorem tick_kept (h : Settled e) : Kept e (tick e) := by
  unfold tick
  split
  · have hs : Kept e (save e .waiting) := save_kept h nofun
    have hn := hs.trans (switchNext_kept hs.settled)
    split
    · rename_i heq
      rw [heq] at hn
      exact ⟨hn.free, hn.identity, hn.allocators, hn.settled⟩
    · rename_i heq
      rwa [heq] at hn
  · exact .refl h

theorem giveTeb_kept (h : Settled e) : Kept e (giveTeb e w teb) := by
  unfold giveTeb
  split
  · exact .refl h
  · rename_i i hf
    have hi := firstSlot_some hf
    split
    · exact .refl h
    · exact kept_write h (by simp_all) (by simp_all [Thread.withTeb, Engine.state]) rfl (.inl rfl)

/-- Only a creation changes which slots are taken, by whom, or the allocators. -/
theorem act_kept (h : Settled e) (hp : Proper e a)
    (hno : ∀ start param flags teb, a ≠ .create start param flags teb) : Kept e (act e a) := by
  cases a with
  | create start param flags teb => exact absurd rfl (hno start param flags teb)
  | save st => exact save_kept h fun hst => hp (hst ▸ rfl)
  | switch => exact switchNext_kept h
  | yieldReady => exact yield_kept h nofun
  | yieldWaiting => exact yield_kept h nofun
  | wait w =>
    have hw : Kept e (setWait e w) := setWait_kept h
    exact hw.trans (yield_kept hw.settled nofun)
  | setWait w => exact setWait_kept h
  | wake w => exact wake_kept h
  | resume w => exact resumeThread_kept h
  | exit code => exact exitThread_kept h
  | preempt => exact preempt_kept h
  | tick => exact tick_kept h
  | pause on => exact ⟨fun _ => .rfl, fun _ => rfl, rfl, h⟩
  | guest m => exact ⟨fun _ => .rfl, fun _ => rfl, rfl, h⟩

-- ---------------------------------------------------------------------------
-- Which slots are taken
-- ---------------------------------------------------------------------------

/-- The handle of the `k`-th creation. -/
def nthHandle (k : Nat) : U32 := .ofNat 32 (0x7100 + k)

def slotHandle (i : Slot) : U32 :=
  match i.val with
  | 0 => 0x7000
  | k + 1 => nthHandle k

/-- Slots 0 to `k` are taken, and their handles tell them apart. -/
structure Numbered (e : Engine) (k : Nat) : Prop where
  lt : k < 32
  free (i : Slot) : e.state i = .free ↔ k < i.val
  handle (i : Slot) : e.state i ≠ .free → (e.threads i).handle = slotHandle i
  next : e.nextHandle = nthHandle k
  settled : Settled e

theorem load_numbered (teb : U32) (m : Machine) : Numbered (.load teb m) 0 where
  lt := by decide
  free i := by
    by_cases hi : i = 0
    · subst hi
      simp [Engine.load, Engine.state]
    · simp [Engine.load, Engine.state, Fin.pos_iff_ne_zero, hi]
  handle i hi := by
    by_cases h0 : i = 0
    · subst h0
      rfl
    · simp [Engine.load, Engine.state, h0] at hi
  next := rfl
  settled i hi := by
    obtain rfl := Option.some.inj hi
    simp [Engine.load, Engine.state]

theorem Numbered.kept (h : Numbered e k) (hk : Kept e e') : Numbered e' k where
  lt := h.lt
  free i := (hk.free i).trans (h.free i)
  handle i hi := by
    have hid := congrArg (·.2.1) (hk.identity i)
    exact hid.trans (h.handle i ((hk.free i).not.1 hi))
  next := (congrArg (·.2.1) hk.allocators).trans h.next
  settled := hk.settled

theorem slotHandle_inj : ∀ i j : Slot, slotHandle i = slotHandle j → i = j := by decide

theorem Numbered.find (h : Numbered e k) (hi : e.state i ≠ .free) :
    e.find (e.threads i).handle = some i := by
  cases hf : e.find (e.threads i).handle with
  | none =>
    have hno := firstSlot_none.1 hf i
    simp [hi] at hno
  | some j =>
    have hj := firstSlot_some hf
    simp only [Bool.and_eq_true, beq_iff_eq, bne_iff_ne] at hj
    rw [h.handle i hi, h.handle j hj.2] at hj
    exact congrArg some (slotHandle_inj j i hj.1)

theorem Numbered.freeSlot (h : Numbered e k) (hk : k + 1 < 32) :
    e.freeSlot = some ⟨k + 1, hk⟩ := by
  have hnext : e.state ⟨k + 1, hk⟩ = .free := (h.free _).2 (Nat.lt_succ_self k)
  cases hf : e.freeSlot with
  | none =>
    have hno := firstSlot_none.1 hf ⟨k + 1, hk⟩
    simp [hnext] at hno
  | some i =>
    have hi : e.state i = .free := by simpa using firstSlot_some hf
    have hle : i ≤ ⟨k + 1, hk⟩ := firstSlot_le hf (by simp [hnext])
    have hlt : k < i.val := (h.free i).1 hi
    exact congrArg some (le_antisymm hle (Fin.mk_le_of_le_val hlt))

theorem Numbered.full (h : Numbered e 31) : e.freeSlot = none := by
  refine firstSlot_none.2 fun i => ?_
  have hi : ¬ e.state i = .free := (h.free i).not.2 (by omega)
  simp [hi]

theorem Numbered.enroll (h : Numbered e k) (hk : k + 1 < 32) (ht : t.state ≠ .free)
    (hh : t.handle = e.nextHandle) : Numbered (e.enroll ⟨k + 1, hk⟩ t) (k + 1) where
  lt := hk
  free i := by
    by_cases hi : i = ⟨k + 1, hk⟩
    · subst hi
      simp [Engine.state, ht]
    · have hne : i.val ≠ k + 1 := fun he => hi (Fin.ext he)
      rw [Engine.state, enroll_ne hi]
      refine (h.free i).trans ?_
      omega
  handle i hi := by
    by_cases hik : i = ⟨k + 1, hk⟩
    · subst hik
      rw [enroll_self, hh, h.next]
      rfl
    · rw [Engine.state, enroll_ne hik] at hi
      rw [enroll_ne hik]
      exact h.handle i hi
  next := by
    have hn := congrArg (· + 1) h.next
    refine hn.trans ?_
    simp only [nthHandle, ← Nat.add_assoc, BitVec.ofNat_add]
    rfl
  settled i hc := by
    have hi := h.settled i hc
    have hik : i ≠ ⟨k + 1, hk⟩ := by
      rintro rfl
      exact hi ((h.free _).2 (Nat.lt_succ_self k))
    rwa [Engine.state, enroll_ne hik]

/-- The thread a creation handler makes of a fresh one. -/
def Thread.given (t : Thread) : Option U32 → Thread
  | none => t
  | some teb => if teb = 0 then t else t.withTeb teb

theorem given_identity (t : Thread) (teb : Option U32) : (t.given teb).identity = t.identity := by
  unfold Thread.given
  split
  · rfl
  split <;> rfl

theorem given_state (t : Thread) (teb : Option U32) : (t.given teb).state = t.state := by
  unfold Thread.given
  split
  · rfl
  split <;> rfl

theorem newThread_state (e : Engine) (start param flags : U32) :
    (e.newThread start param flags).state = .ready ∨
    (e.newThread start param flags).state = .suspended := by
  simp only [Engine.newThread]
  split <;> simp

/-- A creation takes the next slot and writes nothing else, as long as there is
one. The handle given out finds the new thread. -/
theorem Numbered.create_eq (h : Numbered e k) (start param flags : U32) (teb : Option U32) :
    (∃ hk : k + 1 < 32, create e start param flags teb =
      (e.nextHandle, e.enroll ⟨k + 1, hk⟩ ((e.newThread start param flags).given teb))) ∨
    k = 31 ∧ create e start param flags teb = (0, e) := by
  by_cases hk : k + 1 < 32
  · have hc : createThread e start param flags =
        (e.nextHandle, e.enroll ⟨k + 1, hk⟩ (e.newThread start param flags)) := by
      simp only [createThread, h.freeSlot hk]
    have hnz : ∀ k < 31, nthHandle k ≠ 0 := by decide
    have hnext : e.nextHandle ≠ 0 := h.next ▸ hnz k (by omega)
    refine .inl ⟨hk, ?_⟩
    unfold create
    rw [hc]
    cases teb with
    | none => rfl
    | some teb =>
      have hnew : (e.newThread start param flags).state ≠ .free := by
        rcases newThread_state e start param flags with hs | hs
        all_goals simp [hs]
      have hf : (e.enroll ⟨k + 1, hk⟩ (e.newThread start param flags)).find e.nextHandle =
          some ⟨k + 1, hk⟩ := by
        have hfind := (h.enroll hk hnew rfl).find (i := ⟨k + 1, hk⟩) (by simpa [Engine.state] using hnew)
        rwa [enroll_self] at hfind
      simp only [hnext, ↓reduceIte, giveTeb, hf, Thread.given, enroll_self]
      split
      · rfl
      · simp [Engine.enroll, Engine.set]
  · obtain rfl : k = 31 := by have := h.lt; omega
    have hc : createThread e start param flags = (0, e) := by
      simp only [createThread, h.full]
    refine .inr ⟨rfl, ?_⟩
    unfold create
    rw [hc]
    cases teb <;> rfl

/-- A creation writes one free slot and the allocators. -/
theorem Numbered.create_frame (h : Numbered e k) (start param flags : U32) (teb : Option U32) :
    (create e start param flags teb).2 = e ∨
    ∃ i t, e.state i = .free ∧ (t.state = .ready ∨ t.state = .suspended) ∧
      (create e start param flags teb).2 = e.enroll i t := by
  obtain ⟨hk, heq⟩ | ⟨-, heq⟩ := h.create_eq start param flags teb
  · refine .inr ⟨_, _, (h.free _).2 (Nat.lt_succ_self k), ?_, congrArg Prod.snd heq⟩
    rw [given_state]
    exact newThread_state e start param flags
  · exact .inl (congrArg Prod.snd heq)

-- ---------------------------------------------------------------------------
-- Ids and stacks
-- ---------------------------------------------------------------------------

/-- The id and the stack of the `k`-th creation. -/
def nthId (k : Nat) : U32 := .ofNat 32 (0x1000 + k)
def nthStack (k : Nat) : U32 := .ofNat 32 (0x60000000 + k * 0x101000)

/-- Id, stack base and stack size of the thread in a slot; the main thread's
stack is not in the table. -/
def slotGrant (i : Slot) : U32 × U32 × U32 :=
  match i.val with
  | 0 => (1, 0, 0)
  | k + 1 => (nthId k, nthStack k, threadStack)

def Thread.grant (t : Thread) : U32 × U32 × U32 := (t.id, t.stackBase, t.stackSize)

structure Filled (e : Engine) (k : Nat) : Prop extends Numbered e k where
  grant (i : Slot) : e.state i ≠ .free → (e.threads i).grant = slotGrant i
  nextId : e.nextId = nthId k
  nextStack : e.nextStackAddr = nthStack k

theorem load_filled (teb : U32) (m : Machine) : Filled (.load teb m) 0 where
  toNumbered := load_numbered teb m
  grant i hi := by
    by_cases h0 : i = 0
    · subst h0
      rfl
    · simp [Engine.load, Engine.state, h0] at hi
  nextId := rfl
  nextStack := rfl

theorem Filled.kept (h : Filled e k) (hk : Kept e e') : Filled e' k where
  toNumbered := h.toNumbered.kept hk
  grant i hi := by
    have hid := congrArg (fun x => (x.1, x.2.2)) (hk.identity i)
    exact hid.trans (h.grant i ((hk.free i).not.1 hi))
  nextId := (congrArg (·.1) hk.allocators).trans h.nextId
  nextStack := (congrArg (·.2.2) hk.allocators).trans h.nextStack

theorem Filled.enroll (h : Filled e k) (hk : k + 1 < 32) (ht : t.state ≠ .free)
    (hid : t.identity = (e.newThread start param flags).identity) :
    Filled (e.enroll ⟨k + 1, hk⟩ t) (k + 1) where
  toNumbered := h.toNumbered.enroll hk ht (congrArg (·.2.1) hid)
  grant i hi := by
    by_cases hik : i = ⟨k + 1, hk⟩
    · subst hik
      have hg := congrArg (fun x => (x.1, x.2.2)) hid
      rw [enroll_self]
      refine hg.trans ?_
      simp [Engine.newThread, Thread.identity, slotGrant, h.nextId, h.nextStack]
    · rw [Engine.state, enroll_ne hik] at hi
      rw [enroll_ne hik]
      exact h.grant i hi
  nextId := by
    have hn := congrArg (· + 1) h.nextId
    refine hn.trans ?_
    simp only [nthId, ← Nat.add_assoc, BitVec.ofNat_add]
    rfl
  nextStack := by
    have hn := congrArg (· + (threadStack + 0x1000)) h.nextStack
    have hs : 0x60000000 + (k + 1) * 0x101000 = 0x60000000 + k * 0x101000 + 0x101000 := by omega
    refine hn.trans ?_
    simp only [nthStack, hs, BitVec.ofNat_add]
    rfl

theorem Filled.create_next (h : Filled e k) (start param flags : U32) (teb : Option U32) :
    ∃ k', Filled (create e start param flags teb).2 k' := by
  obtain ⟨hk, heq⟩ | ⟨-, heq⟩ := h.create_eq start param flags teb
  · refine ⟨k + 1, ?_⟩
    rw [heq]
    refine h.enroll hk ?_ (given_identity _ teb)
    rw [given_state]
    rcases newThread_state e start param flags with hs | hs
    all_goals simp [hs]
  · exact ⟨k, by rwa [heq]⟩

theorem Filled.act (h : Filled e k) (hp : Proper e a) : ∃ k', Filled (act e a) k' := by
  by_cases ha : ∃ start param flags teb, a = .create start param flags teb
  · obtain ⟨start, param, flags, teb, rfl⟩ := ha
    exact h.create_next start param flags teb
  · have hno : ∀ start param flags teb, a ≠ .create start param flags teb := by
      simpa using ha
    exact ⟨k, h.kept (act_kept h.settled hp hno)⟩

theorem run_filled (h : Run step Proper (.load teb m) tr e) : ∃ k, Filled e k := by
  refine h.invariant (P := fun _ e => ∃ k, Filled e k) ⟨0, load_filled teb m⟩ ?_
  intro _ e a e' _ hf hp hs
  obtain ⟨k, hf⟩ := hf
  obtain ⟨rfl, -⟩ := Prod.mk.inj (Option.some.inj hs)
  exact hf.act hp

-- ---------------------------------------------------------------------------
-- Live threads
-- ---------------------------------------------------------------------------

/-- Neither a free slot nor an exited thread. -/
def Engine.Alive (e : Engine) (i : Slot) : Prop := e.state i ≠ .free ∧ e.state i ≠ .exited

instance (e : Engine) (i : Slot) : Decidable (e.Alive i) := inferInstanceAs (Decidable (_ ∧ _))

def Engine.alive (e : Engine) : Nat := (List.finRange 32).countP fun i => e.Alive i

/-- How many threads there have been, the main one included. -/
def Engine.taken (e : Engine) : Nat := (List.finRange 32).countP fun i => e.state i != .free

local instance slots_pos : NeZero 32 := ⟨Nat.succ_ne_zero 31⟩

/-- The main thread has the stack blink set up, `[0x7EFF0000, 0x7FFF0000)`. -/
def Engine.stack (e : Engine) (i : Slot) : Span :=
  if i = 0 then ⟨0x7EFF0000, 0x1000000⟩
  else ⟨(e.threads i).stackBase.toNat, (e.threads i).stackSize.toNat⟩

/-- Live threads are told apart by what they were given. -/
structure Distinct (e : Engine) : Prop where
  handle (i j : Slot) : e.Alive i → e.Alive j → i ≠ j → (e.threads i).handle ≠ (e.threads j).handle
  id (i j : Slot) : e.Alive i → e.Alive j → i ≠ j → (e.threads i).id ≠ (e.threads j).id
  stack (i j : Slot) : e.Alive i → e.Alive j → i ≠ j → Apart (e.stack i) (e.stack j)
  size (i : Slot) : e.Alive i → i ≠ 0 → (e.stack i).len = 0x100000
  find (i : Slot) : e.Alive i → e.find (e.threads i).handle = some i

/-- Creation succeeds with fewer than 32 live threads. -/
def Recycles (e : Engine) : Prop :=
  ∀ start param flags, e.alive < 32 → (createThread e start param flags).1 ≠ 0

theorem countP_lt (p : Slot → Bool) :
    (List.finRange 32).countP p < 32 ↔ ∃ i, p i = false := by
  have hle : (List.finRange 32).countP p ≤ 32 := by
    simpa using List.countP_le_length (l := List.finRange 32)
  have hall : (List.finRange 32).countP p = 32 ↔ ∀ i, p i = true := by
    simpa using List.countP_eq_length (p := p) (l := List.finRange 32)
  constructor
  · intro hlt
    by_contra hno
    simp only [not_exists, Bool.not_eq_false] at hno
    exact Nat.ne_of_lt hlt (hall.2 hno)
  · rintro ⟨i, hi⟩
    refine Nat.lt_of_le_of_ne hle fun heq => ?_
    simp [hall.1 heq i] at hi

theorem alive_lt (e : Engine) : e.alive < 32 ↔ ∃ i, ¬ e.Alive i := by
  simp [Engine.alive, countP_lt]

theorem taken_lt (e : Engine) : e.taken < 32 ↔ ∃ i, e.state i = .free := by
  simp [Engine.taken, countP_lt]

theorem slotGrant_id : ∀ i j : Slot, (slotGrant i).1 = (slotGrant j).1 → i = j := by decide

theorem slotGrant_size : ∀ i : Slot, i ≠ 0 → (slotGrant i).2.2 = threadStack := by decide

theorem slotGrant_apart : ∀ i j : Slot, i ≠ 0 → j ≠ 0 → i ≠ j →
    Apart ⟨(slotGrant i).2.1.toNat, 0x100000⟩ ⟨(slotGrant j).2.1.toNat, 0x100000⟩ := by
  decide

theorem slotGrant_main : ∀ i : Slot, i ≠ 0 →
    Apart ⟨(slotGrant i).2.1.toNat, 0x100000⟩ ⟨0x7EFF0000, 0x1000000⟩ := by
  decide

theorem Filled.stack (h : Filled e k) (hi : e.Alive i) (h0 : i ≠ 0) :
    e.stack i = ⟨(slotGrant i).2.1.toNat, 0x100000⟩ := by
  have hg := h.grant i hi.1
  simp only [Thread.grant, Prod.ext_iff, slotGrant_size i h0] at hg
  simp [Engine.stack, h0, hg, threadStack]

theorem Filled.distinct (h : Filled e k) : Distinct e where
  handle i j hi hj hij heq := by
    rw [h.handle i hi.1, h.handle j hj.1] at heq
    exact hij (slotHandle_inj i j heq)
  id i j hi hj hij heq := by
    have hgi := congrArg (·.1) (h.grant i hi.1)
    have hgj := congrArg (·.1) (h.grant j hj.1)
    exact hij (slotGrant_id i j (hgi.symm.trans (heq.trans hgj)))
  stack i j hi hj hij := by
    by_cases hi0 : i = 0
    · subst hi0
      rw [h.stack hj hij.symm, Engine.stack, if_pos rfl]
      exact (slotGrant_main j hij.symm).symm
    by_cases hj0 : j = 0
    · subst hj0
      rw [h.stack hi hij, Engine.stack, if_pos rfl]
      exact slotGrant_main i hij
    · rw [h.stack hi hi0, h.stack hj hj0]
      exact slotGrant_apart i j hi0 hj0 hij
  size i hi h0 := by rw [h.stack hi h0]
  find i hi := h.find hi.1

theorem Numbered.creates (h : Numbered e k) (start param flags : U32) :
    (createThread e start param flags).1 ≠ 0 ↔ ∃ i, e.state i = .free := by
  obtain ⟨hk, heq⟩ | ⟨rfl, heq⟩ := h.create_eq start param flags none
  · have hnz : ∀ k < 31, nthHandle k ≠ 0 := by decide
    refine iff_of_true ?_ ⟨⟨k + 1, hk⟩, (h.free _).2 (Nat.lt_succ_self k)⟩
    have hret : (createThread e start param flags).1 = e.nextHandle := congrArg Prod.fst heq
    rw [hret, h.next]
    exact hnz k (by omega)
  · have hret : (createThread e start param flags).1 = 0 := congrArg Prod.fst heq
    refine iff_of_false (by simp [hret]) ?_
    rintro ⟨i, hi⟩
    have := (h.free i).1 hi
    omega

/-- Live threads are kept apart in every run; a slot is given back in none. So
creation meets the limit of live threads until a thread has exited and all 32
slots are taken. -/
theorem slots_law (teb : U32) (m : Machine) (tr : List (Action × Unit)) (e : Engine)
    (h : Run step Proper (.load teb m) tr e) :
    Distinct e ∧ (Recycles e ↔ (∀ i, e.state i ≠ .exited) ∨ e.taken < 32) := by
  obtain ⟨k, hf⟩ := run_filled h
  refine ⟨hf.distinct, ?_⟩
  simp only [Recycles, hf.creates, alive_lt, taken_lt, forall_const]
  constructor
  · intro hr
    by_cases hfree : ∃ i, e.state i = .free
    · exact .inr hfree
    · refine .inl fun i hi => hfree (hr ⟨i, ?_⟩)
      simp [Engine.Alive, hi]
  · rintro (hno | hfree) hdead
    · obtain ⟨i, hi⟩ := hdead
      refine ⟨i, ?_⟩
      by_contra hi'
      exact hi ⟨hi', hno i⟩
    · exact hfree

instance (e : Engine) (a : Action) : Decidable (Proper e a) := inferInstanceAs (Decidable (_ ≠ _))

theorem slots_law_exited : ∃ tr e, Run step Proper (.load 0x20000000 .zero) tr e ∧
    e.state 1 = .exited ∧ Distinct e ∧
    (Recycles e ↔ (∀ i, e.state i ≠ .exited) ∨ e.taken < 32) := by
  have hexec : (exec step Proper (.load 0x20000000 .zero) [.create 0x401000 7 0 (some 0x20004000),
      .yieldReady, .exit 0]).any fun r => r.2.state 1 == .exited := by decide
  obtain ⟨tr, e, hr, hp⟩ := Run.of_exec_any hexec
  exact ⟨tr, e, hr, eq_of_beq hp, slots_law _ _ _ _ hr⟩

/-- With one of 31 workers gone, 31 threads are alive and a creation fails. -/
theorem exited_slot_lost : ¬ ∀ tr e, Run step Proper (.load 0x20000000 .zero) tr e →
    Recycles e := by
  intro hall
  have hexec : (exec step Proper (.load 0x20000000 .zero)
      (List.replicate 31 (.create 0x401000 7 0 none) ++ [.yieldReady, .exit 0])).any (fun r =>
        decide (r.2.alive < 32) && decide ((createThread r.2 0x401000 7 0).1 = 0)) = true := by
    decide +kernel
  obtain ⟨tr, e, hr, hp⟩ := Run.of_exec_any hexec
  obtain ⟨halive, hfail⟩ := Bool.and_eq_true_iff.1 hp
  exact hall tr e hr 0x401000 7 0 (of_decide_eq_true halive) (of_decide_eq_true hfail)

end WineGlass.Coop
