import Mathlib.Data.Fintype.Card
import WineGlass.Lib.Run

/-!
# The fair lock

`fair_lock` and `fair_unlock`, the ticket lock that can stand for the thunk lock. A step is what
a thread does between taking `s_fair_m` and giving it up, so `pthread_cond_wait` ends one step and
begins another; it may also return for no reason. Tickets are `unsigned long`s and threads are
`pthread_t`s, both of 64 bits. `depth` is not in the source: the calls of a thread that have
returned and have not been undone.
-/

namespace WineGlass.FairLock

open Runs

abbrev Thread := BitVec 64
abbrev Ticket := BitVec 64

/-- Where a thread is: not in `fair_lock`, asleep in `pthread_cond_wait`, or back from its sleep
and about to take `s_fair_m` again. -/
inductive Phase
  | idle
  | asleep (my : Ticket)
  | awake (my : Ticket)
  deriving DecidableEq, Repr

structure State where
  next : Ticket
  serving : Ticket
  owner : Thread
  owned : Bool
  recur : Int
  phase : Thread → Phase
  depth : Thread → Nat

/-- The owner that nobody is yet may be any thread. -/
def State.init (owner : Thread) : State :=
  ⟨0, 0, owner, false, 0, fun _ => .idle, fun _ => 0⟩

inductive Action
  | lock (t : Thread)
  | wake (t : Thread)
  | retry (t : Thread)
  | unlock (t : Thread)
  deriving DecidableEq, Repr

inductive Event
  | drew (t : Thread) (my : Ticket)
  | acquired (t : Thread) (my : Ticket)
  deriving DecidableEq, Repr

/-- `INT_MAX`; what `s_fair_rec++` does there is not defined. -/
def intMax : Int := 2147483647

/-- The test of the loop in `fair_lock`, and what follows it. -/
def await (s : State) (t : Thread) (my : Ticket) : State × List Event :=
  if s.serving ≠ my then ({ s with phase := Function.update s.phase t (.asleep my) }, [])
  else
    ({ s with
        owner := t
        owned := true
        recur := 1
        phase := Function.update s.phase t .idle
        depth := Function.update s.depth t (s.depth t + 1) }, [.acquired t my])

/-- `fair_lock`, up to its end or its sleep. -/
def lock (s : State) (t : Thread) : Option (State × List Event) :=
  if s.phase t ≠ .idle then none
  else if s.owned ∧ s.owner = t then
    if s.recur = intMax then none
    else
      some ({ s with
        recur := s.recur + 1
        depth := Function.update s.depth t (s.depth t + 1) }, [])
  else
    let my := s.next
    let r := await { s with next := s.next + 1 } t my
    some (r.1, .drew t my :: r.2)

/-- `pthread_cond_broadcast`. -/
def Phase.broadcast : Phase → Phase
  | .asleep my => .awake my
  | ph => ph

/-- `fair_unlock`. -/
def unlock (s : State) (t : Thread) : Option (State × List Event) :=
  if s.phase t ≠ .idle then none
  else
    let s := { s with recur := s.recur - 1, depth := Function.update s.depth t (s.depth t - 1) }
    if s.recur ≤ 0 then
      some ({ s with
        recur := 0
        owned := false
        serving := s.serving + 1
        phase := fun u => (s.phase u).broadcast }, [])
    else some (s, [])

def step (s : State) : Action → Option (State × List Event)
  | .lock t => lock s t
  | .wake t =>
    match s.phase t with
    | .asleep my => some ({ s with phase := Function.update s.phase t (.awake my) }, [])
    | _ => none
  | .retry t =>
    match s.phase t with
    | .awake my => some (await s t my)
    | _ => none
  | .unlock t => unlock s t

/-- A thread unlocks what it has locked. -/
def Nested (s : State) : Action → Prop
  | .unlock t => 0 < s.depth t
  | _ => True

instance (s : State) (a : Action) : Decidable (Nested s a) := by
  cases a <;> unfold Nested <;> infer_instance

-- ---------------------------------------------------------------------------
-- Tickets
-- ---------------------------------------------------------------------------

def Event.draw : Event → Option (Thread × Ticket)
  | .drew t my => some (t, my)
  | _ => none

def Event.acquisition : Event → Option (Thread × Ticket)
  | .acquired t my => some (t, my)
  | _ => none

def events (tr : List (Action × List Event)) : List Event := tr.flatMap Prod.snd

/-- The tickets in the order they were drawn. -/
def drawn (tr : List (Action × List Event)) : List (Thread × Ticket) :=
  (events tr).filterMap Event.draw

/-- The tickets in the order they were served. -/
def served (tr : List (Action × List Event)) : List (Thread × Ticket) :=
  (events tr).filterMap Event.acquisition

/-- The lock is one thread's, as many times as it has locked it; tickets are numbered as they are
drawn and served in that order, and the one that is next is not asleep. -/
structure Fair (tr : List (Action × List Event)) (s : State) : Prop where
  exclusive : 0 < s.depth t → 0 < s.depth u → t = u
  nesting : 0 < s.depth t → s.owned ∧ s.owner = t ∧ s.recur = s.depth t
  free : s.owned = false → s.recur = 0 ∧ ∀ t, s.depth t = 0
  reenters : 0 < s.depth t → s.recur ≠ intMax →
    ∃ s', step s (.lock t) = some (s', []) ∧ s'.depth t = s.depth t + 1 ∧ s'.next = s.next
  order : served tr <+: drawn tr
  numbered : (drawn tr)[i]? = some d → d.2 = BitVec.ofNat 64 i
  waits : (drawn tr)[i]? = some (t, my) → (served tr).length ≤ i →
    s.phase t = .asleep my ∨ s.phase t = .awake my
  next : s.owned = false → (drawn tr)[(served tr).length]? = some (t, my) →
    s.phase t = .awake my ∧ ∃ s', step s (.retry t) = some (s', [.acquired t my]) ∧ 0 < s'.depth t

-- ---------------------------------------------------------------------------
-- The queue
-- ---------------------------------------------------------------------------

/-- `dr` and `sv` are the tickets drawn and served so far, and `q` are those between. -/
structure Inv (dr sv q : List (Thread × Ticket)) (s : State) : Prop where
  split : dr = sv ++ q
  numbered : ∀ i d, dr[i]? = some d → d.2 = BitVec.ofNat 64 i
  next : s.next = BitVec.ofNat 64 dr.length
  serving : BitVec.ofNat 64 sv.length = s.serving + if s.owned then 1 else 0
  nodup : (q.map Prod.fst).Nodup
  waits : ∀ t my, (t, my) ∈ q ↔ s.phase t = .asleep my ∨ s.phase t = .awake my
  asleep : ∀ t my, s.phase t = .asleep my → my ≠ s.serving
  holder : s.owned → s.phase s.owner = .idle ∧ 0 < s.depth s.owner ∧ s.recur = s.depth s.owner
  depth : ∀ t, 0 < s.depth t → s.owned ∧ s.owner = t
  free : s.owned = false → s.recur = 0

variable {dr sv q : List (Thread × Ticket)} {s : State}

theorem init_inv (owner : Thread) : Inv [] [] [] (.init owner) where
  split := rfl
  numbered := nofun
  next := rfl
  serving := rfl
  nodup := .nil
  waits _ _ := iff_of_false List.not_mem_nil fun h => h.elim nofun nofun
  asleep _ _ h := nomatch h
  holder h := nomatch h
  depth _ h := absurd h (Nat.lt_irrefl 0)
  free _ := rfl

theorem Inv.notMem (hi : Inv dr sv q s) (h : s.phase t = .idle) : t ∉ q.map Prod.fst := by
  rintro hm
  obtain ⟨⟨u, my⟩, hq, rfl⟩ := List.mem_map.1 hm
  rcases (hi.waits u my).1 hq with hp | hp
  · rw [hp] at h
    cases h
  · rw [hp] at h
    cases h

/-- There are no more tickets about than threads. -/
theorem Inv.room (hi : Inv dr sv q s) : q.length + (if s.owned then 1 else 0) ≤ 2 ^ 64 := by
  have hcard : ∀ l : List Thread, l.Nodup → l.length ≤ 2 ^ 64 := fun l hl => by
    have hmap : (l.map BitVec.toFin).Nodup := hl.map fun a b h => BitVec.toFin_inj.1 h
    have hle := hmap.length_le_card
    rwa [List.length_map, Fintype.card_fin] at hle
  split
  · rename_i ho
    have hout := hi.notMem (hi.holder ho).1
    have hle := hcard _ (List.nodup_cons.2 ⟨hout, hi.nodup⟩)
    rwa [List.length_cons, List.length_map] at hle
  · have hle := hcard _ hi.nodup
    rwa [List.length_map] at hle

/-- The ticket that is served next is the first of the queue, when the lock is free. -/
theorem Inv.turn (hi : Inv dr sv q s) (h : q[i]? = some (t, my)) :
    my = s.serving ↔ i = 0 ∧ s.owned = false := by
  have hroom := hi.room
  have hlt : i < q.length := (List.getElem?_eq_some_iff.1 h).1
  have hdr : dr[sv.length + i]? = some (t, my) := by
    rw [hi.split, List.getElem?_append_right (Nat.le_add_right _ _), Nat.add_sub_cancel_left, h]
  have hmy : my = s.serving + (if s.owned then 1 else 0) + BitVec.ofNat 64 i := by
    rw [← hi.serving, ← BitVec.ofNat_add]
    exact hi.numbered _ _ hdr
  rw [hmy]
  cases ho : s.owned with
  | false =>
    rw [ho] at hroom
    simp only [Bool.false_eq_true, if_false] at hroom ⊢
    constructor
    · intro he
      exact ⟨by bv_omega, trivial⟩
    · rintro ⟨rfl, -⟩
      bv_omega
  | true =>
    rw [ho] at hroom
    simp only [if_true] at hroom ⊢
    refine iff_of_false (fun he => ?_) nofun
    bv_omega

theorem Inv.index (hi : Inv dr sv q s) (h : s.phase t = .asleep my ∨ s.phase t = .awake my) :
    ∃ i : Nat, q[i]? = some (t, my) := List.mem_iff_getElem?.1 ((hi.waits t my).2 h)

/-- A thread that is awake and not served goes back to sleep. -/
theorem await_inv (hi : Inv dr sv q s) (h : s.phase t = .awake my) :
    ∃ q', Inv dr (sv ++ (await s t my).2.filterMap Event.acquisition) q' (await s t my).1 := by
  obtain ⟨i, hq⟩ := hi.index (.inr h)
  unfold await
  split
  · rename_i hne
    refine ⟨q, ?_⟩
    rw [List.filterMap_nil, List.append_nil]
    refine ⟨hi.split, hi.numbered, hi.next, hi.serving, hi.nodup, fun u my' => ?_, fun u my' hu => ?_,
      fun ho => ?_, hi.depth, hi.free⟩
    · rw [hi.waits]
      by_cases hu : u = t
      · subst hu
        simp only [h, Function.update_self, reduceCtorEq, false_or, or_false, Phase.asleep.injEq,
          Phase.awake.injEq]
      · simp only [Function.update_of_ne hu]
    · by_cases hut : u = t
      · subst hut
        simp only [Function.update_self, Phase.asleep.injEq] at hu
        exact hu ▸ Ne.symm hne
      · simp only [Function.update_of_ne hut] at hu
        exact hi.asleep u my' hu
    · obtain ⟨hidle, hrest⟩ := hi.holder ho
      have hne : s.owner ≠ t := by
        rintro rfl
        rw [h] at hidle
        cases hidle
      exact ⟨by simp only [Function.update_of_ne hne, hidle], hrest⟩
  · rename_i heq
    rw [ne_eq, Decidable.not_not] at heq
    obtain ⟨rfl, ho⟩ := (hi.turn hq).1 heq.symm
    have hzero : ∀ u, s.depth u = 0 := fun u => Nat.eq_zero_of_not_pos fun hp => by
      have hown := (hi.depth u hp).1
      rw [ho] at hown
      cases hown
    cases q with
    | nil => cases hq
    | cons d q =>
      obtain rfl : d = (t, my) := Option.some.inj hq
      have hnodup := List.nodup_cons.1 hi.nodup
      refine ⟨q, ?_, hi.numbered, hi.next, ?_, hnodup.2, fun u my' => ?_, fun u my' hu => ?_,
        fun _ => ⟨Function.update_self .., ?_, ?_⟩, fun u hu => ⟨rfl, ?_⟩, nofun⟩
      · rw [hi.split, List.append_assoc]
        rfl
      · have hs := hi.serving
        rw [ho] at hs
        show BitVec.ofNat 64 (sv ++ [(t, my)]).length = s.serving + 1
        rw [List.length_append, BitVec.ofNat_add, hs]
        simp
      · by_cases hu : u = t
        · subst hu
          simp only [Function.update_self, reduceCtorEq, or_self, iff_false]
          exact fun hm => hnodup.1 (List.mem_map.2 ⟨_, hm, rfl⟩)
        · have hw := hi.waits u my'
          rw [List.mem_cons] at hw
          simp only [Function.update_of_ne hu, ← hw, Prod.mk.injEq, hu, false_and, false_or]
      · by_cases hut : u = t
        · subst hut
          simp only [Function.update_self, reduceCtorEq] at hu
        · simp only [Function.update_of_ne hut] at hu
          exact hi.asleep u my' hu
      · simp only [Function.update_self]
        exact Nat.succ_pos _
      · simp only [Function.update_self, hzero]
        rfl
      · by_contra hut
        simp only [Function.update_of_ne (Ne.symm hut), hzero] at hu
        exact Nat.lt_irrefl 0 hu

/-- Drawing a ticket is joining the queue. -/
theorem draw_inv (hi : Inv dr sv q s) (h : s.phase t = .idle) (ho : ¬ (s.owned ∧ s.owner = t)) :
    Inv (dr ++ [(t, s.next)]) sv (q ++ [(t, s.next)])
      { s with next := s.next + 1, phase := Function.update s.phase t (.awake s.next) } := by
  have hout := hi.notMem h
  refine ⟨?_, fun i d hd => ?_, ?_, hi.serving, ?_, fun u my => ?_, fun u my hu => ?_, fun how => ?_,
    hi.depth, hi.free⟩
  · rw [hi.split, List.append_assoc]
  · rw [List.getElem?_append] at hd
    split at hd
    · exact hi.numbered i d hd
    · rename_i hge
      obtain ⟨rfl, hlt⟩ : d = (t, s.next) ∧ i - dr.length = 0 := by
        cases hj : i - dr.length with
        | zero =>
          rw [hj] at hd
          exact ⟨(Option.some.inj hd).symm, rfl⟩
        | succ j =>
          rw [hj] at hd
          cases hd
      have hlen : i = dr.length := by omega
      rw [hlen]
      exact hi.next
  · rw [List.length_append, BitVec.ofNat_add, ← hi.next]
    rfl
  · rw [List.map_append]
    refine List.nodup_append.2 ⟨hi.nodup, List.nodup_singleton _, fun a ha b hb he => ?_⟩
    rw [he, List.mem_singleton.1 hb] at ha
    exact hout ha
  · rw [List.mem_append, List.mem_singleton, hi.waits]
    by_cases hu : u = t
    · subst hu
      simp only [h, Function.update_self, reduceCtorEq, or_self, false_or, Prod.mk.injEq, true_and,
        Phase.awake.injEq]
      exact eq_comm
    · simp only [Function.update_of_ne hu, Prod.mk.injEq, hu, false_and, or_false]
  · by_cases hut : u = t
    · subst hut
      simp only [Function.update_self, reduceCtorEq] at hu
    · simp only [Function.update_of_ne hut] at hu
      exact hi.asleep u my hu
  · have hne : s.owner ≠ t := fun he => ho ⟨how, he⟩
    obtain ⟨hidle, hrest⟩ := hi.holder how
    exact ⟨by simp only [Function.update_of_ne hne, hidle], hrest⟩

-- ---------------------------------------------------------------------------
-- Steps
-- ---------------------------------------------------------------------------

/-- What a step leaves of the queue, with what it says. -/
def Kept (dr sv : List (Thread × Ticket)) (s' : State) (e : List Event) : Prop :=
  ∃ q', Inv (dr ++ e.filterMap Event.draw) (sv ++ e.filterMap Event.acquisition) q' s'

theorem kept_quiet (hi : Inv dr sv q s) : Kept dr sv s [] := by
  refine ⟨q, ?_⟩
  rwa [List.filterMap_nil, List.append_nil, List.filterMap_nil, List.append_nil]

theorem await_draws (s : State) (t : Thread) (my : Ticket) :
    (await s t my).2.filterMap Event.draw = [] := by
  unfold await
  split <;> rfl

/-- A thread that comes late goes to the end of the queue first. -/
theorem await_update (s : State) (t : Thread) (my : Ticket) (ph : Phase) :
    await { s with phase := Function.update s.phase t ph } t my = await s t my := by
  simp only [await, Function.update_idem]

theorem lock_kept (hi : Inv dr sv q s) (h : lock s t = some (s', e)) : Kept dr sv s' e := by
  unfold lock at h
  split at h
  · cases h
  · rename_i hidle
    rw [ne_eq, Decidable.not_not] at hidle
    split at h
    · rename_i hown
      split at h
      · cases h
      · obtain ⟨rfl, rfl⟩ := Prod.mk.inj (Option.some.inj h)
        obtain ⟨howned, rfl⟩ := hown
        refine kept_quiet (q := q) ⟨hi.split, hi.numbered, hi.next, hi.serving, hi.nodup, hi.waits,
          hi.asleep, fun _ => ⟨hidle, ?_, ?_⟩, fun u hu => ⟨howned, ?_⟩, fun hf => ?_⟩
        · simp only [Function.update_self]
          exact Nat.succ_pos _
        · simp only [Function.update_self, (hi.holder howned).2.2]
          rfl
        · by_contra hut
          simp only [Function.update_of_ne (Ne.symm hut)] at hu
          exact hut (hi.depth u hu).2
        · rw [howned] at hf
          cases hf
    · rename_i hown
      obtain ⟨rfl, rfl⟩ := Prod.mk.inj (Option.some.inj h)
      have hjoin := draw_inv hi hidle hown
      obtain ⟨q', hq'⟩ := await_inv hjoin (Function.update_self ..)
      rw [await_update { s with next := s.next + 1 } t s.next (.awake s.next)] at hq'
      refine ⟨q', ?_⟩
      have hdraw : (Event.drew t s.next :: (await { s with next := s.next + 1 } t s.next).2).filterMap
          Event.draw = [(t, s.next)] := congrArg ((t, s.next) :: ·) (await_draws _ t s.next)
      rw [hdraw]
      exact hq'

theorem Phase.broadcast_ne (ph : Phase) : ph.broadcast ≠ .asleep my := by
  cases ph <;> nofun

theorem Phase.broadcast_awake {ph : Phase} :
    ph.broadcast = .awake my ↔ ph = .asleep my ∨ ph = .awake my := by
  cases ph <;> simp [Phase.broadcast]

theorem unlock_kept (hi : Inv dr sv q s) (hd : 0 < s.depth t) (h : unlock s t = some (s', e)) :
    Kept dr sv s' e := by
  obtain ⟨howned, rfl⟩ := hi.depth t hd
  obtain ⟨hidle, -, hrec⟩ := hi.holder howned
  unfold unlock at h
  rw [if_neg (not_not.2 hidle)] at h
  simp only at h
  split at h
  · rename_i hle
    obtain ⟨rfl, rfl⟩ := Prod.mk.inj (Option.some.inj h)
    refine kept_quiet (q := q) ⟨hi.split, hi.numbered, hi.next, ?_, hi.nodup, fun u my => ?_,
      fun u my hu => absurd hu (Phase.broadcast_ne _), nofun, fun u hu => ?_, fun _ => rfl⟩
    · have hs := hi.serving
      rw [howned, if_pos rfl] at hs
      rw [hs]
      simp
    · simp only [hi.waits, Phase.broadcast_ne, Phase.broadcast_awake, false_or]
    · by_cases hut : u = s.owner
      · subst hut
        simp only [Function.update_self] at hu
        omega
      · simp only [Function.update_of_ne hut] at hu
        exact absurd (hi.depth u hu).2.symm hut
  · rename_i hgt
    obtain ⟨rfl, rfl⟩ := Prod.mk.inj (Option.some.inj h)
    refine kept_quiet (q := q) ⟨hi.split, hi.numbered, hi.next, hi.serving, hi.nodup, hi.waits,
      hi.asleep, fun _ => ⟨hidle, ?_, ?_⟩, fun u hu => ?_, fun hf => ?_⟩
    · simp only [Function.update_self]
      omega
    · simp only [Function.update_self]
      omega
    · by_cases hut : u = s.owner
      · exact ⟨howned, hut.symm⟩
      · simp only [Function.update_of_ne hut] at hu
        exact hi.depth u hu
    · rw [howned] at hf
      cases hf

theorem step_kept (hi : Inv dr sv q s) (hok : Nested s a) (h : step s a = some (s', e)) :
    Kept dr sv s' e := by
  cases a with
  | lock t => exact lock_kept hi h
  | wake t =>
    simp only [step] at h
    split at h
    · rename_i my hp
      obtain ⟨rfl, rfl⟩ := Prod.mk.inj (Option.some.inj h)
      refine kept_quiet (q := q) ⟨hi.split, hi.numbered, hi.next, hi.serving, hi.nodup,
        fun u my' => ?_, fun u my' hu => ?_, fun ho => ?_, hi.depth, hi.free⟩
      · rw [hi.waits]
        by_cases hu : u = t
        · subst hu
          simp only [hp, Function.update_self, reduceCtorEq, false_or, or_false,
            Phase.asleep.injEq, Phase.awake.injEq]
        · simp only [Function.update_of_ne hu]
      · by_cases hut : u = t
        · subst hut
          simp only [Function.update_self, reduceCtorEq] at hu
        · simp only [Function.update_of_ne hut] at hu
          exact hi.asleep u my' hu
      · obtain ⟨hidle, hrest⟩ := hi.holder ho
        have hne : s.owner ≠ t := by
          rintro rfl
          rw [hp] at hidle
          cases hidle
        exact ⟨by simp only [Function.update_of_ne hne, hidle], hrest⟩
    · cases h
  | retry t =>
    simp only [step] at h
    split at h
    · rename_i my hp
      have hawait := Option.some.inj h
      obtain ⟨q', hq'⟩ := await_inv hi hp
      have hdraw := await_draws s t my
      rw [hawait] at hq' hdraw
      refine ⟨q', ?_⟩
      rw [hdraw, List.append_nil]
      exact hq'
    · cases h
  | unlock t => exact unlock_kept hi hok h

theorem run_inv (h : Run step Nested (.init owner) tr s) : ∃ q, Inv (drawn tr) (served tr) q s := by
  refine h.invariant (P := fun tr s => ∃ q, Inv (drawn tr) (served tr) q s) ⟨[], init_inv owner⟩ ?_
  rintro tr s a s' e ⟨q, hi⟩ hok hs
  have hk := step_kept hi hok hs
  have hflat : events (tr ++ [(a, e)]) = events tr ++ e := by simp [events]
  rw [drawn, served, hflat, List.filterMap_append, List.filterMap_append]
  exact hk

/-- In every interleaving of properly nested calls. -/
theorem fair_lock_law (owner : Thread) (h : Run step Nested (.init owner) tr s) : Fair tr s := by
  obtain ⟨q, hi⟩ := run_inv h
  have hqueue : ∀ {i : Nat}, (served tr).length ≤ i →
      (drawn tr)[i]? = q[i - (served tr).length]? := fun hle => by
    rw [hi.split, List.getElem?_append_right hle]
  constructor
  case exclusive =>
    intro t u ht hu
    exact (hi.depth t ht).2.symm.trans (hi.depth u hu).2
  case nesting =>
    intro t ht
    obtain ⟨ho, rfl⟩ := hi.depth t ht
    exact ⟨ho, rfl, (hi.holder ho).2.2⟩
  case free =>
    intro ho
    refine ⟨hi.free ho, fun t => Nat.eq_zero_of_not_pos fun ht => ?_⟩
    have hown := (hi.depth t ht).1
    rw [ho] at hown
    cases hown
  case reenters =>
    intro t ht hmax
    obtain ⟨ho, rfl⟩ := hi.depth t ht
    have hidle := (hi.holder ho).1
    refine ⟨{ s with
        recur := s.recur + 1
        depth := Function.update s.depth s.owner (s.depth s.owner + 1) }, ?_,
      Function.update_self .., rfl⟩
    rw [step, lock, if_neg (not_not.2 hidle), if_pos ⟨ho, rfl⟩, if_neg hmax]
  case order => exact ⟨q, hi.split.symm⟩
  case numbered =>
    intro i d hd
    exact hi.numbered i d hd
  case waits =>
    intro i t my hd hle
    rw [hqueue hle] at hd
    exact (hi.waits t my).1 (List.mem_of_getElem? hd)
  case next =>
    intro t my ho hd
    rw [hqueue (Nat.le_refl _), Nat.sub_self] at hd
    have hmy : my = s.serving := (hi.turn hd).2 ⟨rfl, ho⟩
    have hp : s.phase t = .awake my := by
      rcases (hi.waits t my).1 (List.mem_of_getElem? hd) with hp | hp
      · exact absurd hmy (hi.asleep t my hp)
      · exact hp
    refine ⟨hp, (await s t my).1, ?_, ?_⟩
    · simp only [step, hp]
      rw [await, if_neg (not_not.2 hmy.symm)]
    · rw [await, if_neg (not_not.2 hmy.symm)]
      simp only [Function.update_self]
      exact Nat.succ_pos _

/-- A second thread sleeps while the first locks twice, and is served when it has unlocked twice. -/
theorem fair_lock_law_two : ∃ tr s, Run step Nested (.init 0) tr s ∧ Fair tr s ∧
    served tr = [(1, 0), (2, 1)] ∧ s.depth 2 = 1 := by
  have hexec : (exec step Nested (.init 0) [.lock 1, .lock 2, .lock 1, .wake 2, .retry 2, .unlock 1,
      .unlock 1, .retry 2]).any
      (fun r => decide (served r.1 = [(1, 0), (2, 1)] ∧ r.2.depth 2 = 1)) = true := by
    decide
  obtain ⟨tr, s, hrun, hs⟩ := Run.of_exec_any hexec
  exact ⟨tr, s, hrun, fair_lock_law 0 hrun, of_decide_eq_true hs⟩

end WineGlass.FairLock
