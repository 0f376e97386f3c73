import WineGlass.Srw.Table
import WineGlass.Lib.CInt
import WineGlass.Lib.Run

/-!
# SRW locks

The functions under `s_srw_lock`. An acquire that finds its entry taken
releases the lock, runs `wg_thunk_block_begin` and takes the lock again to
look the pointer up once more and wait: the step it does first and each pass
of its wait loop are steps of their own (`acquire`, `resume`). `holds` records
what each thread has acquired and not released; the code does not read it. The
`[SRW-...]` messages and `waited_ms`, which only times one of them, are left
out, and `wg_srw_kick` does nothing while it is off.
-/

namespace WineGlass.Srw

open CInt

inductive Mode
  | shared
  | exclusive
  deriving DecidableEq, Repr

structure Hold where
  tid : Nat
  ptr : Nat
  mode : Mode
  deriving DecidableEq, Repr

-- ---------------------------------------------------------------------------
-- One entry
-- ---------------------------------------------------------------------------

/-- The uncontended part of `wg_srw_acquire_shared`, and `wg_srw_try_shared`. -/
def acquireShared (s : WGSrw) (tid : Nat) : Option WGSrw :=
  if s.writerTid = 0 ∨ s.writerTid = tid then some { s with readers := cInt (s.readers + 1) }
  else none

/-- A pass of the wait loop of `wg_srw_acquire_shared`. -/
def awaitShared (s : WGSrw) (tid : Nat) : Option WGSrw :=
  if s.writerTid ≠ 0 ∧ s.writerTid ≠ tid then none
  else some { s with readers := cInt (s.readers + 1) }

/-- The uncontended part of `wg_srw_acquire_exclusive`. -/
def acquireExclusive (s : WGSrw) (tid : Nat) : Option WGSrw :=
  if s.writerTid = tid then some { s with writerRec := cInt (s.writerRec + 1) }
  else if s.readers = 0 ∧ s.writerTid = 0 then some { s with writerTid := tid, writerRec := 1 }
  else none

/-- A pass of the wait loop of `wg_srw_acquire_exclusive`. -/
def awaitExclusive (s : WGSrw) (tid : Nat) : Option WGSrw :=
  if 0 < s.readers ∨ s.writerTid ≠ 0 ∧ s.writerTid ≠ tid then none
  else some { s with writerTid := tid, writerRec := 1 }

/-- `wg_srw_try_exclusive`. -/
def tryExclusive (s : WGSrw) (tid : Nat) : Option WGSrw :=
  if s.readers = 0 ∧ (s.writerTid = 0 ∨ s.writerTid = tid) then
    some { s with writerTid := tid, writerRec := cInt (s.writerRec + 1) }
  else none

/-- `wg_srw_release_shared`. -/
def releaseShared (s : WGSrw) : WGSrw :=
  if 0 < s.readers then { s with readers := s.readers - 1 } else s

/-- `wg_srw_release_exclusive`. -/
def releaseExclusive (s : WGSrw) (tid : Nat) : WGSrw :=
  if s.writerTid = tid then
    let r := cInt (s.writerRec - 1)
    if r ≤ 0 then { s with writerTid := 0, writerRec := 0 } else { s with writerRec := r }
  else s

def acquireEntry : Mode → WGSrw → Nat → Option WGSrw
  | .shared => acquireShared
  | .exclusive => acquireExclusive

def awaitEntry : Mode → WGSrw → Nat → Option WGSrw
  | .shared => awaitShared
  | .exclusive => awaitExclusive

def tryEntry : Mode → WGSrw → Nat → Option WGSrw
  | .shared => acquireShared
  | .exclusive => tryExclusive

def releaseEntry : Mode → WGSrw → Nat → WGSrw
  | .shared, s, _ => releaseShared s
  | .exclusive, s, tid => releaseExclusive s tid

-- ---------------------------------------------------------------------------
-- States and steps
-- ---------------------------------------------------------------------------

/-- Where a thread is: outside, between the two critical sections of a
contended acquire, or in the wait loop with the entry it looked up. -/
inductive Phase
  | idle
  | contended (m : Mode) (p : Nat)
  | waiting (m : Mode) (p : Nat) (e : Entry)
  deriving DecidableEq, Repr

structure State where
  table : Table
  phases : Nat → Phase
  holds : List Hold

def State.init : State := ⟨Table.init, fun _ => .idle, []⟩

inductive Outcome
  | granted
  | refused
  | blocked
  | released
  deriving DecidableEq, Repr

inductive Action
  | acquire (t : Nat) (m : Mode) (p : Nat)
  | tryAcquire (t : Nat) (m : Mode) (p : Nat)
  | resume (t : Nat)
  | release (t : Nat) (m : Mode) (p : Nat)
  deriving DecidableEq, Repr

/-- Entry `e` of table `T` acquired, or thread `t` left in phase `ph`. -/
def State.settle (s : State) (T : Table) (t : Nat) (m : Mode) (p : Nat) (e : Entry)
    (v : Option WGSrw) (ph : Phase) (o : Outcome) : State × Outcome :=
  match v with
  | some v => (⟨T.set e v, Function.update s.phases t .idle, ⟨t, p, m⟩ :: s.holds⟩, .granted)
  | none => (⟨T, Function.update s.phases t ph, s.holds⟩, o)

/-- A thread outside the functions that may call one. -/
def Free (s : State) (t : Nat) : Prop := t ≠ 0 ∧ s.phases t = .idle

instance : Decidable (Free s t) := inferInstanceAs (Decidable (_ ∧ _))

def step (s : State) : Action → Option (State × Outcome)
  | .acquire t m p =>
    if Free s t then
      (srwFor s.table p).map fun (e, T) =>
        s.settle T t m p e (acquireEntry m (T.get e) t) (.contended m p) .blocked
    else none
  | .tryAcquire t m p =>
    if Free s t then
      (srwFor s.table p).map fun (e, T) =>
        s.settle T t m p e (tryEntry m (T.get e) t) .idle .refused
    else none
  | .resume t =>
    match s.phases t with
    | .idle => none
    | .contended m p =>
      (srwFor s.table p).map fun (e, T) =>
        s.settle T t m p e (awaitEntry m (T.get e) t) (.waiting m p e) .blocked
    | .waiting m p e =>
      some (s.settle s.table t m p e (awaitEntry m (s.table.get e) t) (.waiting m p e) .blocked)
  | .release t m p =>
    if Free s t then
      (srwFor s.table p).map fun (e, T) =>
        (⟨T.set e (releaseEntry m (T.get e) t), s.phases, s.holds.erase ⟨t, p, m⟩⟩, .released)
    else none

-- ---------------------------------------------------------------------------
-- The account of an entry
-- ---------------------------------------------------------------------------

def holdsIn (m : Mode) (H : List Hold) : Nat := H.countP (·.mode = m)

theorem holdsIn_cons (H : List Hold) :
    holdsIn m (⟨t, p, m'⟩ :: H) = holdsIn m H + if m' = m then 1 else 0 := by
  simp [holdsIn, List.countP_cons]

theorem holdsIn_pos {H : List Hold} (hx : x ∈ H) : 0 < holdsIn x.mode H :=
  List.countP_pos_iff.mpr ⟨x, hx, by simp⟩

/-- Entry `s` counts exactly the holds in `H`, and a writer holds alone. -/
structure Agrees (s : WGSrw) (H : List Hold) : Prop where
  readers : s.readers = holdsIn .shared H
  writerRec : s.writerRec = holdsIn .exclusive H
  recLe : s.writerRec ≤ intMax
  written : s.writerTid ≠ 0 → 0 < s.writerRec ∧ ∀ h ∈ H, h.tid = s.writerTid
  unwritten : s.writerTid = 0 → s.writerRec = 0

/-- A counter the acquire may raise is not at the end of `int`. -/
def Fits (m : Mode) (s : WGSrw) : Prop :=
  match m with
  | .shared => s.readers < intMax
  | .exclusive => s.writerRec < intMax

instance : Decidable (Fits m s) := by
  unfold Fits
  cases m <;> infer_instance

/-- What every acquire comes to, when it gets the entry: one more hold, in a
mode that fits the holds of other threads. -/
inductive Taken (s : WGSrw) (t : Nat) : Mode → WGSrw → Prop
  | shared (hw : s.writerTid = 0 ∨ s.writerTid = t) :
      Taken s t .shared { s with readers := cInt (s.readers + 1) }
  | again (hw : s.writerTid = t) :
      Taken s t .exclusive { s with writerRec := cInt (s.writerRec + 1) }
  | fresh (hr : s.readers ≤ 0) (hw : s.writerTid = 0) (hv : v = 1 ∨ v = cInt (s.writerRec + 1)) :
      Taken s t .exclusive { s with writerTid := t, writerRec := v }

theorem acquireEntry_taken (h : acquireEntry m s t = some v) : Taken s t m v := by
  cases m with
  | shared =>
    simp only [acquireEntry, acquireShared, Option.ite_none_right_eq_some, Option.some.injEq] at h
    obtain ⟨hw, rfl⟩ := h
    exact .shared hw
  | exclusive =>
    simp only [acquireEntry, acquireExclusive] at h
    split at h
    · rename_i hw
      cases h
      exact .again hw
    · simp only [Option.ite_none_right_eq_some, Option.some.injEq] at h
      obtain ⟨⟨hr, hw⟩, rfl⟩ := h
      exact .fresh (by omega) hw (.inl rfl)

theorem tryEntry_taken (h : tryEntry m s t = some v) : Taken s t m v := by
  cases m with
  | shared => exact acquireEntry_taken (m := .shared) h
  | exclusive =>
    simp only [tryEntry, tryExclusive, Option.ite_none_right_eq_some, Option.some.injEq] at h
    obtain ⟨⟨hr, hw | rfl⟩, rfl⟩ := h
    · exact .fresh (by omega) hw (.inr rfl)
    · exact .again rfl

/-- A thread that waits does not have the entry. -/
theorem awaitEntry_taken (h : awaitEntry m s t = some v) (hn : m = .exclusive → s.writerTid ≠ t) :
    Taken s t m v := by
  cases m with
  | shared =>
    simp only [awaitEntry, awaitShared, Option.ite_none_left_eq_some, Option.some.injEq] at h
    obtain ⟨hw, rfl⟩ := h
    refine .shared ?_
    by_contra hno
    exact hw (not_or.mp hno)
  | exclusive =>
    simp only [awaitEntry, awaitExclusive, Option.ite_none_left_eq_some, Option.some.injEq] at h
    obtain ⟨hw, rfl⟩ := h
    rw [not_or, not_and_or, not_not, not_not] at hw
    exact .fresh (by omega) (hw.2.resolve_right (hn rfl)) (.inl rfl)

theorem Taken.ptr (h : Taken s t m v) : v.ptr = s.ptr := by cases h <;> rfl

section
variable {s : WGSrw} {H : List Hold}

theorem Agrees.empty (hr : s.readers = 0) (hw : s.writerTid = 0) (hc : s.writerRec = 0) :
    Agrees s [] := ⟨hr, hc, by rw [hc]; decide, fun h => absurd hw h, fun _ => hc⟩

theorem Agrees.perm (h : Agrees s H) (hp : H.Perm H') : Agrees s H' := by
  refine ⟨h.readers.trans ?_, h.writerRec.trans ?_, h.recLe, fun hw => ?_, h.unwritten⟩
  · exact congrArg Nat.cast (hp.countP_eq _)
  · exact congrArg Nat.cast (hp.countP_eq _)
  · exact ⟨(h.written hw).1, fun x hx => (h.written hw).2 x (hp.mem_iff.mpr hx)⟩

/-- Without a writer and without readers there is no hold. -/
theorem Agrees.nil (h : Agrees s H) (hr : s.readers ≤ 0) (hw : s.writerTid = 0) : H = [] := by
  have h1 := h.readers
  have h2 := h.writerRec
  rw [h.unwritten hw] at h2
  rw [List.eq_nil_iff_forall_not_mem]
  intro x hx
  have hpos := holdsIn_pos hx
  cases hm : x.mode <;> rw [hm] at hpos <;> omega

/-- The holder of an exclusive hold is the writer. -/
theorem Agrees.writer (h : Agrees s H) (hx : x ∈ H) (hm : x.mode = .exclusive) :
    s.writerTid ≠ 0 ∧ s.writerTid = x.tid := by
  have hpos := holdsIn_pos hx
  have hne : s.writerTid ≠ 0 := by
    intro h0
    have h1 := h.writerRec
    rw [h.unwritten h0] at h1
    rw [hm] at hpos
    omega
  exact ⟨hne, ((h.written hne).2 x hx).symm⟩

theorem Agrees.take (h : Agrees s H) (ht : t ≠ 0) (hv : Taken s t m v) (hf : Fits m s) :
    Agrees v (⟨t, p, m⟩ :: H) := by
  have hr := h.readers
  have hc := h.writerRec
  cases hv with
  | shared hw =>
    have hfits : s.readers < intMax := hf
    rw [cInt_eq (by unfold intMax; omega) (by omega)]
    refine ⟨?_, ?_, h.recLe, fun hne => ⟨(h.written hne).1, ?_⟩, h.unwritten⟩
    · simp [holdsIn_cons, hr]
    · simp [holdsIn_cons, hc]
    · intro x hx
      rcases List.mem_cons.mp hx with rfl | hx
      · exact (hw.resolve_left hne).symm
      · exact (h.written hne).2 x hx
  | again hw =>
    have hfits : s.writerRec < intMax := hf
    rw [cInt_eq (by unfold intMax; omega) (by omega)]
    have hne : s.writerTid ≠ 0 := hw ▸ ht
    refine ⟨?_, ?_, hfits, fun _ => ⟨?_, ?_⟩, fun h0 => absurd h0 hne⟩
    · simp [holdsIn_cons, hr]
    · simp [holdsIn_cons, hc]
    · exact Int.lt_add_one_of_le (by omega)
    · intro x hx
      rcases List.mem_cons.mp hx with rfl | hx
      · exact hw.symm
      · exact (h.written hne).2 x hx
  | @fresh v hr0 hw hv =>
    obtain rfl := h.nil hr0 hw
    obtain rfl : v = 1 := by
      rcases hv with hv | hv
      · exact hv
      · rw [hv, h.unwritten hw]
        decide
    refine ⟨?_, ?_, (by decide : (1 : Int) ≤ intMax), fun _ => ⟨Int.one_pos, ?_⟩, fun h => absurd h ht⟩
    · simp [holdsIn_cons, hr]
    · simp [holdsIn]
    · intro x hx
      obtain rfl := List.mem_singleton.mp hx
      rfl

theorem Agrees.release (h : Agrees s (⟨t, p, m⟩ :: H)) : Agrees (releaseEntry m s t) H := by
  have hf := h.recLe
  have hr := h.readers
  have hc := h.writerRec
  have htid (hne : s.writerTid ≠ 0) : ∀ x ∈ H, x.tid = s.writerTid := fun x hx =>
    (h.written hne).2 x (List.mem_cons_of_mem _ hx)
  rw [holdsIn_cons] at hr hc
  cases m with
  | shared =>
    simp only [↓reduceIte, reduceCtorEq, Nat.add_zero] at hr hc
    simp only [releaseEntry, releaseShared]
    rw [if_pos (by omega)]
    refine ⟨?_, hc, hf, fun hne => ⟨(h.written hne).1, htid hne⟩, h.unwritten⟩
    rw [hr]
    simp
  | exclusive =>
    simp only [↓reduceIte, reduceCtorEq, Nat.add_zero] at hr hc
    obtain ⟨hne, hw⟩ : s.writerTid ≠ 0 ∧ s.writerTid = t := h.writer List.mem_cons_self rfl
    have hsub : cInt (s.writerRec - 1) = s.writerRec - 1 :=
      cInt_eq (by unfold intMax; omega) (by omega)
    simp only [releaseEntry, releaseExclusive, if_pos hw, hsub]
    split
    · have hzero : holdsIn .exclusive H = 0 := by omega
      refine ⟨hr, ?_, (by decide : (0 : Int) ≤ intMax), fun h0 => absurd rfl h0, fun _ => rfl⟩
      rw [hzero]
      rfl
    · rename_i hlast
      refine ⟨hr, ?_, ?_, fun _ => ⟨?_, htid hne⟩, fun h0 => absurd h0 hne⟩
      · rw [hc]
        simp
      · exact Int.le_trans (Int.sub_le_self _ Int.one_nonneg) hf
      · exact Int.not_le.mp hlast

-- ---------------------------------------------------------------------------
-- When an acquire gets the entry
-- ---------------------------------------------------------------------------

/-- What an acquire in mode `m` tests. -/
def Open (m : Mode) (s : WGSrw) (t : Nat) : Prop :=
  match m with
  | .shared => s.writerTid = 0 ∨ s.writerTid = t
  | .exclusive => s.writerTid = t ∨ s.readers = 0 ∧ s.writerTid = 0

theorem acquireEntry_isSome : (acquireEntry m s t).isSome ↔ Open m s t := by
  cases m with
  | shared =>
    simp only [acquireEntry, acquireShared, Open]
    split <;> simp [*]
  | exclusive =>
    simp only [acquireEntry, acquireExclusive, Open]
    split
    · simp [*]
    · split <;> simp [*]

theorem awaitEntry_isSome (h : Agrees s H) (hn : m = .exclusive → s.writerTid ≠ t) :
    (awaitEntry m s t).isSome ↔ Open m s t := by
  have hr := h.readers
  cases m with
  | shared =>
    simp only [awaitEntry, awaitShared, Open]
    by_cases h0 : s.writerTid = 0 <;> by_cases h1 : s.writerTid = t <;> simp [h0, h1]
  | exclusive =>
    have hne := hn rfl
    simp only [awaitEntry, awaitExclusive, Open, hne, false_or]
    split
    · rename_i hbusy
      simp only [Option.isSome_none, Bool.false_eq_true, false_iff, not_and]
      rintro h0 h1
      rcases hbusy with hpos | ⟨hw, -⟩
      · omega
      · exact hw h1
    · rename_i hfree
      rw [not_or, not_and_or, not_not, not_not] at hfree
      simp only [Option.isSome_some, true_iff]
      exact ⟨by omega, hfree.2.resolve_right hne⟩

theorem holdsIn_exists {H : List Hold} (h : 0 < holdsIn m H) : ∃ x ∈ H, x.mode = m := by
  obtain ⟨x, hx, hm⟩ := List.countP_pos_iff.mp h
  exact ⟨x, hx, of_decide_eq_true hm⟩

/-- A writer has an exclusive hold. -/
theorem Agrees.held (h : Agrees s H) (hw : s.writerTid ≠ 0) :
    ∃ x ∈ H, x.mode = .exclusive ∧ x.tid = s.writerTid := by
  obtain ⟨hpos, htid⟩ := h.written hw
  have hc := h.writerRec
  obtain ⟨x, hx, hm⟩ := holdsIn_exists (m := .exclusive) (H := H) (by omega)
  exact ⟨x, hx, hm, htid x hx⟩

/-- While no other thread's hold conflicts, only the caller's own shared holds
on the entry keep it from having the entry exclusively. -/
theorem Agrees.open_iff (h : Agrees s H)
    (hother : ∀ x ∈ H, x.tid ≠ t → m = .shared ∧ x.mode = .shared) :
    Open m s t ↔
      ¬(m = .exclusive ∧ s.writerTid ≠ t ∧ ∃ x ∈ H, x.tid = t ∧ x.mode = .shared) := by
  have hwriter : s.writerTid ≠ 0 → s.writerTid = t := by
    intro hw
    obtain ⟨x, hx, hm, hxt⟩ := h.held hw
    by_contra hne
    have hshared := (hother x hx (hxt ▸ hne)).2
    rw [hm] at hshared
    cases hshared
  cases m with
  | shared =>
    refine ⟨fun _ => nofun, fun _ => ?_⟩
    by_cases hw : s.writerTid = 0
    · exact .inl hw
    · exact .inr (hwriter hw)
  | exclusive =>
    have hr := h.readers
    refine ⟨?_, fun hno => ?_⟩
    · rintro (hw | ⟨h0, -⟩) ⟨-, hne, x, hx, -, hm⟩
      · exact hne hw
      · have hpos := holdsIn_pos hx
        rw [hm] at hpos
        omega
    · by_cases hw : s.writerTid = t
      · exact .inl hw
      · refine .inr ⟨?_, by_contra fun h0 => hw (hwriter h0)⟩
        by_contra h0
        obtain ⟨x, hx, hm⟩ := holdsIn_exists (m := .shared) (H := H) (by omega)
        refine hno ⟨rfl, hw, x, hx, ?_, hm⟩
        by_contra hne
        cases (hother x hx hne).1

end

end WineGlass.Srw
