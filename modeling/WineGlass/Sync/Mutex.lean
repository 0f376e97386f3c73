import WineGlass.Sync.Calls

/-!
# Mutexes

Holds are counted on the trace: `depth evs t n` is how many times more often
thread `t` acquired object number `n` than it released it. `MutexInv` relates
the count to the two fields of a mutex and to the threads inside a
condition-variable sleep, which keep their holds while the mutex is let go.
-/

namespace WineGlass.Sync

open CInt Runs

-- ---------------------------------------------------------------------------
-- Holds
-- ---------------------------------------------------------------------------

def depth (evs : List Event) (t n : Nat) : Int :=
  evs.count (.acquired t n) - evs.count (.released t n)

@[simp] theorem depth_nil : depth [] t n = 0 := rfl

@[simp] theorem depth_append (evs ev : List Event) (t n : Nat) :
    depth (evs ++ ev) t n = depth evs t n + depth ev t n := by
  simp only [depth, List.count_append]
  omega

/-- The holds a thread inside a sleep will have again. -/
def lent (C : Core) (t i : Nat) : Int :=
  match C.sleeps t with
  | some (csMtx, saved) => if C.table.findLocked csMtx = some i then saved else 0
  | none => 0

/-- The holds thread `t` has of the mutex in slot `i`. -/
def held (C : Core) (t i : Nat) : Int :=
  if (C.table.objs i).ownerTid = t then (C.table.objs i).recursion else lent C t i

structure MutexInv (evs : List Event) (C : Core) : Prop where
  owner : (C.table.objs i).type = .mutex →
    ((C.table.objs i).ownerTid = 0 ↔ (C.table.objs i).recursion = 0)
  nonneg : (C.table.objs i).type = .mutex → 0 ≤ (C.table.objs i).recursion
  sleeper : C.sleeps t = some (csMtx, saved) → t ≠ 0 ∧ 0 < saved ∧
    ∃ i, C.table.findLocked csMtx = some i ∧ (C.table.objs i).type = .mutex ∧
      (C.table.objs i).ownerTid ≠ t
  counted : (C.table.objs i).type = .mutex → t ≠ 0 → depth evs t (C.table.ident i) = held C t i
  fresh : C.table.fresh ≤ n → depth evs t n = 0

-- ---------------------------------------------------------------------------
-- What the callers owe
-- ---------------------------------------------------------------------------

/-- A sleep is entered by the owner of the mutex, and a handle a sleeping
thread has to come back to is not closed. -/
def MutexRules (s : State) : Action → Prop
  | .cvSleep t _ csMtx _ => ∀ i, s.table.findLocked csMtx = some i →
      (s.table.objs i).type = .mutex → (s.table.objs i).ownerTid = t
  | .call _ (.close h) => ∀ t saved, s.core.sleeps t ≠ some (h, saved)
  | _ => True

/-- No mutex is acquired beyond the range of its `int recursion`. -/
def DepthFits (s : State) (a : Action) : Prop :=
  ∀ i ∈ s.grants a, (s.table.objs i).type = .mutex →
    (s.table.objs i).recursion + (s.grants a).count i ≤ intMax

def MutexOk (s : State) (a : Action) : Prop := MutexRules s a ∧ DepthFits s a

-- ---------------------------------------------------------------------------
-- Effects keep the invariant
-- ---------------------------------------------------------------------------

theorem lent_modify {f : SyncObj → SyncObj} (hf : Table.Keeps f) (C : Core) :
    lent (C.modify i f) t j = lent C t j := by
  simp only [lent, modify_sleeps, modify_table, hf.modify_find]

theorem held_modify_ne {f : SyncObj → SyncObj} (hf : Table.Keeps f) (C : Core) (hji : j ≠ i) :
    held (C.modify i f) t j = held C t j := by
  simp only [held, modify_table, Table.modify_ne _ hji, lent_modify hf]

theorem init_mutex : MutexInv [] State.init.core := by
  refine ⟨fun h => ?_, fun h => ?_, fun h => ?_, fun h => ?_, fun _ => rfl⟩ <;> cases h

theorem MutexInv.pos (h : MutexInv evs C) (hty : (C.table.objs i).type = .mutex)
    (ho : (C.table.objs i).ownerTid ≠ 0) : 0 < (C.table.objs i).recursion := by
  have hne := (h.owner hty).not.mp ho
  have hnn := h.nonneg hty
  omega

/-- A store to the object in slot `i`. What it does to a mutex is left to
the caller; every other mutex is as it was. -/
theorem MutexInv.store {C' : Core} (h : MutexInv evs C) (hf : Table.Keeps f)
    (ht : C'.table = C.table.modify i f)
    (hown : (C.table.objs i).type = .mutex → ((f (C.table.objs i)).ownerTid = 0 ↔
      (f (C.table.objs i)).recursion = 0))
    (hnn : (C.table.objs i).type = .mutex → 0 ≤ (f (C.table.objs i)).recursion)
    (hsl : ∀ {t csMtx saved}, C'.sleeps t = some (csMtx, saved) → t ≠ 0 ∧ 0 < saved ∧
      ∃ j, C.table.findLocked csMtx = some j ∧ (C.table.objs j).type = .mutex ∧
        (C'.table.objs j).ownerTid ≠ t)
    (hcnt : ∀ {t j}, (C.table.objs j).type = .mutex → t ≠ 0 →
      depth evs t (C.table.ident j) + depth ev t (C.table.ident j) = held C' t j)
    (hev : ∀ t n, C.table.fresh ≤ n → depth ev t n = 0) : MutexInv (evs ++ ev) C' := by
  have hty {j : Nat} : (C'.table.objs j).type = (C.table.objs j).type := by
    rw [ht, hf.modify_type]
  have hfind {k : Nat} : C'.table.findLocked k = C.table.findLocked k := by
    rw [ht, hf.modify_find]
  constructor
  · intro j hj
    rw [hty] at hj
    by_cases hji : j = i
    · subst hji
      rw [ht, Table.modify_self]
      exact hown hj
    · rw [ht, Table.modify_ne _ hji]
      exact h.owner hj
  · intro j hj
    rw [hty] at hj
    by_cases hji : j = i
    · subst hji
      rw [ht, Table.modify_self]
      exact hnn hj
    · rw [ht, Table.modify_ne _ hji]
      exact h.nonneg hj
  · intro t csMtx saved hs
    obtain ⟨h1, h2, j, hj, hm, ho⟩ := hsl hs
    exact ⟨h1, h2, j, hfind ▸ hj, hty ▸ hm, ho⟩
  · intro j t hj h0
    rw [hty] at hj
    rw [depth_append, ht, Table.modify_ident]
    exact hcnt hj h0
  · intro n t hn
    rw [ht, Table.modify_fresh] at hn
    rw [depth_append, hev t n hn, Int.add_zero]
    exact h.fresh hn

/-- A store to an object that is no mutex. -/
theorem MutexInv.other (h : MutexInv evs C) (hty : (C.table.objs i).type ≠ .mutex)
    (hf : Table.Keeps f) (hev : ∀ t n, depth ev t n = 0) : MutexInv (evs ++ ev) (C.modify i f) := by
  have hne {j : Nat} (hj : (C.table.objs j).type = .mutex) : j ≠ i := by
    rintro rfl
    exact hty hj
  refine h.store hf rfl (fun hi => absurd hi hty) (fun hi => absurd hi hty) ?_ ?_ fun t n _ => hev t n
  · intro t csMtx saved hs
    obtain ⟨h1, h2, j, hj, hm, ho⟩ := h.sleeper hs
    refine ⟨h1, h2, j, hj, hm, ?_⟩
    rwa [modify_table, Table.modify_ne _ (hne hm)]
  · intro t j hj h0
    rw [hev, Int.add_zero, h.counted hj h0]
    exact (held_modify_ne hf C (hne hj)).symm

theorem depth_released : depth [.released t n] u m = if u = t ∧ m = n then -1 else 0 := by
  simp only [depth, List.count_cons, List.count_nil, beq_iff_eq, reduceCtorEq, Event.released.injEq,
    eq_comm (a := u), eq_comm (a := m), ↓reduceIte]
  split <;> rfl

theorem MutexInv.release (h : MutexInv evs C) (hw : C.table.Wf)
    (hty : (C.table.objs i).type = .mutex) (ht : t ≠ 0) (ho : (C.table.objs i).ownerTid = t)
    (hr : 0 < (C.table.objs i).recursion) (hs : C.sleeps t = none) :
    MutexInv (evs ++ [.released t (C.table.ident i)]) (C.modify i releaseOnce) := by
  have hf : Table.Keeps releaseOnce := by
    intro o
    unfold releaseOnce
    split <;> exact ⟨rfl, rfl⟩
  refine h.store hf rfl (fun _ => ?_) (fun _ => ?_) ?_ ?_ ?_
  · unfold releaseOnce
    split
    · simp
    · rename_i hz
      simp only [ho, ht, false_iff]
      exact hz
  · unfold releaseOnce
    split
    · exact Int.le_refl 0
    · show 0 ≤ (C.table.objs i).recursion - 1
      omega
  · intro u csMtx saved hu
    obtain ⟨h1, h2, j, hj, hm, hou⟩ := h.sleeper hu
    refine ⟨h1, h2, j, hj, hm, ?_⟩
    by_cases hji : j = i
    · subst hji
      rw [modify_table, Table.modify_self]
      unfold releaseOnce
      split
      · exact Ne.symm h1
      · exact hou
    · rwa [modify_table, Table.modify_ne _ hji]
  · intro u j hj h0
    rw [h.counted hj h0, depth_released]
    by_cases hji : j = i
    · subst hji
      by_cases hut : u = t
      · subst hut
        simp only [held, ho, true_and, ↓reduceIte, modify_table, Table.modify_self, releaseOnce]
        split
        · rename_i hz
          simp [lent, hs, Ne.symm ht]
          omega
        · simp
          omega
      · have hou : (releaseOnce (C.table.objs j)).ownerTid ≠ u := by
          unfold releaseOnce
          split
          · exact Ne.symm h0
          · simpa [ho] using Ne.symm hut
        simp only [held, modify_table, Table.modify_self, hou, ho, Ne.symm hut, hut, false_and,
          ↓reduceIte, lent_modify hf, Int.add_zero]
    · have hne : C.table.ident j ≠ C.table.ident i := by
        intro he
        exact hji (hw.identInj (by simp [hj]) (by simp [hty]) he)
      simp only [hne, and_false, ↓reduceIte, Int.add_zero]
      exact (held_modify_ne hf C hji).symm
  · intro u n hn
    have hlt := hw.identLt (i := i) (by simp [hty])
    rw [depth_released, if_neg]
    rintro ⟨-, rfl⟩
    omega

/-- Letting the mutex go for a sleep: the holds move from the fields to the
sleeping thread. -/
theorem MutexInv.sleep (h : MutexInv evs C) (ht : t ≠ 0) (hi : C.table.findLocked csMtx = some i)
    (hty : (C.table.objs i).type = .mutex) (hs : C.sleeps t = none)
    (ho : (C.table.objs i).ownerTid = t) :
    MutexInv (evs ++ []) ((C.modify i ({ · with ownerTid := 0, recursion := 0 })).setSleep t
      (some (csMtx, (C.table.objs i).recursion))) := by
  have hf : Table.Keeps ({ · with ownerTid := 0, recursion := 0 }) := fun _ => ⟨rfl, rfl⟩
  have hpos := h.pos hty (by rwa [ho])
  refine h.store hf rfl (fun _ => by simp) (fun _ => Int.le_refl 0) ?_ ?_ fun _ _ _ => rfl
  · intro u k saved hu
    by_cases hut : u = t
    · subst hut
      rw [setSleep_self] at hu
      cases hu
      refine ⟨ht, hpos, i, hi, hty, ?_⟩
      simpa using Ne.symm ht
    · rw [setSleep_ne _ hut] at hu
      obtain ⟨h1, h2, j, hj, hm, hou⟩ := h.sleeper hu
      refine ⟨h1, h2, j, hj, hm, ?_⟩
      by_cases hji : j = i
      · subst hji
        simpa using Ne.symm h1
      · rwa [setSleep_table, modify_table, Table.modify_ne _ hji]
  · intro u j hj h0
    rw [h.counted hj h0, depth_nil, Int.add_zero]
    have hl : lent ((C.modify i ({ · with ownerTid := 0, recursion := 0 })).setSleep t
        (some (csMtx, (C.table.objs i).recursion))) u j =
        if u = t then if i = j then (C.table.objs i).recursion else 0 else lent C u j := by
      split
      · subst_vars
        simp only [lent, setSleep_self, setSleep_table, modify_table, hf.modify_find, hi,
          Option.some.injEq]
      · rename_i hut
        simp only [lent, setSleep_ne _ hut, setSleep_table, modify_table, modify_sleeps,
          hf.modify_find]
    simp only [held, hl, setSleep_table, modify_table]
    by_cases hji : j = i
    · subst hji
      simp only [Table.modify_self, Ne.symm h0, ↓reduceIte, eq_comm (a := u), ho]
    · simp only [Table.modify_ne _ hji, Ne.symm hji, ↓reduceIte]
      by_cases hut : u = t
      · subst hut
        simp [lent, hs]
      · simp [hut]

/-- Taking the mutex back: the holds return to the fields. -/
theorem MutexInv.wake (h : MutexInv evs C) (hs : C.sleeps t = some (csMtx, saved))
    (hi : C.table.findLocked csMtx = some i)
    (ho : (C.table.objs i).ownerTid = 0 ∨ (C.table.objs i).ownerTid = t) :
    MutexInv (evs ++ [.reacquired t (C.table.ident i)])
      ((C.modify i ({ · with ownerTid := t, recursion := saved })).setSleep t none) := by
  obtain ⟨ht, hpos, k, hk, hty, hne⟩ := h.sleeper hs
  obtain rfl : k = i := by simpa [hk] using hi
  replace ho : (C.table.objs k).ownerTid = 0 := ho.resolve_right hne
  have hf : Table.Keeps ({ · with ownerTid := t, recursion := saved }) := fun _ => ⟨rfl, rfl⟩
  have hother {u : Nat} {x : Nat × Int} (hu : ((C.modify k ({ · with ownerTid := t, recursion := saved })).setSleep t
      none).sleeps u = some x) : u ≠ t ∧ C.sleeps u = some x := by
    have hut : u ≠ t := by
      rintro rfl
      rw [setSleep_self] at hu
      cases hu
    rw [setSleep_ne _ hut] at hu
    exact ⟨hut, hu⟩
  refine h.store hf rfl (fun _ => ?_) (fun _ => Int.le_of_lt hpos) ?_ ?_ ?_
  · simp only [ht, false_iff]
    exact Int.ne_of_gt hpos
  · intro u m sv hu
    obtain ⟨hut, hu⟩ := hother hu
    obtain ⟨h1, h2, j, hj, hm, hou⟩ := h.sleeper hu
    refine ⟨h1, h2, j, hj, hm, ?_⟩
    by_cases hjk : j = k
    · subst hjk
      simpa using Ne.symm hut
    · rwa [setSleep_table, modify_table, Table.modify_ne _ hjk]
  · intro u j hj h0
    have hev : depth [.reacquired t (C.table.ident k)] u (C.table.ident j) = 0 := by simp [depth]
    rw [h.counted hj h0, hev, Int.add_zero]
    simp only [held, setSleep_table, modify_table]
    by_cases hut : u = t
    · subst hut
      have hl : lent ((C.modify k ({ · with ownerTid := u, recursion := saved })).setSleep u none) u j = 0 := by
        simp [lent]
      rw [hl]
      by_cases hjk : j = k
      · subst hjk
        simp only [ho, Ne.symm h0, ↓reduceIte, lent, hs, hi, Table.modify_self]
      · simp only [Table.modify_ne _ hjk, lent, hs, hi, Option.some.injEq, Ne.symm hjk, ↓reduceIte]
    · have hl : lent ((C.modify k ({ · with ownerTid := t, recursion := saved })).setSleep t none) u j =
          lent C u j := by
        simp only [lent, setSleep_ne _ hut, setSleep_table, modify_table, modify_sleeps, hf.modify_find]
      rw [hl]
      by_cases hjk : j = k
      · subst hjk
        simp only [ho, Ne.symm h0, Table.modify_self, Ne.symm hut, ↓reduceIte]
      · simp only [Table.modify_ne _ hjk]
  · intro u n _
    simp [depth]

theorem MutexInv.close (h : MutexInv evs C) (hi : C.table.findLocked k = some i)
    (hk : ∀ t saved, C.sleeps t ≠ some (k, saved)) :
    MutexInv (evs ++ [.closed (C.table.ident i)]) { C with table := C.table.release i } := by
  have hmtx {j : Nat} (hj : ((C.table.release i).objs j).type = .mutex) :
      j ≠ i ∧ (C.table.objs j).type = .mutex := by
    obtain ⟨hji, -⟩ := Table.release_live (i := i) (j := j) (T := C.table) (by simp [hj])
    rw [Table.release_ne _ hji] at hj
    exact ⟨hji, hj⟩
  have hslot {t m j : Nat} {saved : Int} (hs : C.sleeps t = some (m, saved))
      (hj : C.table.findLocked m = some j) : j ≠ i := by
    rintro rfl
    rw [Table.findLocked_eq_some] at hi hj
    exact hk t saved (by rw [hs, hj.1, hi.1])
  constructor
  · intro j hj
    obtain ⟨hji, hj⟩ := hmtx hj
    rw [Table.release_ne _ hji]
    exact h.owner hj
  · intro j hj
    obtain ⟨hji, hj⟩ := hmtx hj
    rw [Table.release_ne _ hji]
    exact h.nonneg hj
  · intro t m saved hs
    obtain ⟨h1, h2, j, hj, hm, ho⟩ := h.sleeper hs
    have hji := hslot hs hj
    refine ⟨h1, h2, j, Table.release_find hj hji, ?_, ?_⟩ <;> rwa [Table.release_ne _ hji]
  · intro j t hj h0
    obtain ⟨hji, hj⟩ := hmtx hj
    have hl : lent { C with table := C.table.release i } t j = lent C t j := by
      simp only [lent]
      cases hs : C.sleeps t with
      | none => rfl
      | some x =>
        obtain ⟨-, -, q, hq, -, -⟩ := h.sleeper hs
        simp only [hq, Table.release_find hq (hslot hs hq)]
    rw [depth_append]
    simp only [held, Table.release_ne _ hji, hl]
    have hz : depth [.closed (C.table.ident i)] t (C.table.ident j) = 0 := by simp [depth]
    show depth evs t (C.table.ident j) + depth _ t (C.table.ident j) = _
    rw [hz, Int.add_zero, h.counted hj h0, held]
  · intro n t hn
    rw [depth_append, h.fresh hn]
    simp [depth]

theorem depth_acquired : depth [.acquired t n] u m = if u = t ∧ m = n then 1 else 0 := by
  simp only [depth, List.count_cons, List.count_nil, beq_iff_eq, reduceCtorEq, Event.acquired.injEq,
    eq_comm (a := u), eq_comm (a := m), ↓reduceIte]
  split <;> rfl

theorem depth_created : depth (.created n o :: initialHold o n) u m =
    if o.type = .mutex ∧ o.ownerTid ≠ 0 ∧ u = o.ownerTid ∧ m = n then 1 else 0 := by
  have hcons (ev : List Event) : depth (.created n o :: ev) u m = depth ev u m := by simp [depth]
  rw [hcons]
  unfold initialHold
  split
  · rename_i ho
    rw [depth_acquired]
    simp only [ho.1, ho.2, ne_eq, not_false_eq_true, true_and]
  · rename_i ho
    rw [depth_nil, if_neg]
    exact fun hc => ho ⟨hc.1, hc.2.1⟩

theorem MutexInv.create (h : MutexInv evs C) (hw : C.table.Wf) (hfree : (C.table.objs i).type = .free)
    (hm : o.type = .mutex → o.ownerTid = 0 ∧ o.recursion = 0 ∨ o.ownerTid ≠ 0 ∧ o.recursion = 1) :
    MutexInv (evs ++ .created C.table.fresh o :: initialHold o C.table.fresh)
      { C with table := C.table.put i o } := by
  have hslot {t m : Nat} {saved : Int} (hs : C.sleeps t = some (m, saved)) :
      ∃ k, k ≠ i ∧ C.table.findLocked m = some k ∧ (C.table.put i o).findLocked m = some k := by
    obtain ⟨-, -, k, hk, hty, -⟩ := h.sleeper hs
    have hki : k ≠ i := by
      rintro rfl
      rw [hfree] at hty
      cases hty
    exact ⟨k, hki, hk, Table.put_find hk hki⟩
  have hl {t j : Nat} (hji : j ≠ i) : lent { C with table := C.table.put i o } t j = lent C t j := by
    simp only [lent]
    cases hs : C.sleeps t with
    | none => rfl
    | some x =>
      obtain ⟨k, -, hk, hk'⟩ := hslot hs
      simp only [hk, hk']
  have hl0 {t : Nat} : lent { C with table := C.table.put i o } t i = 0 := by
    simp only [lent]
    cases hs : C.sleeps t with
    | none => rfl
    | some x =>
      obtain ⟨k, hki, -, hk'⟩ := hslot hs
      simp only [hk', Option.some.injEq, hki, ↓reduceIte]
  constructor
  · intro j hj
    by_cases hji : j = i
    · subst hji
      rw [Table.put_self] at hj ⊢
      rcases hm hj with ⟨h1, h2⟩ | ⟨h1, h2⟩
      · simp [h1, h2]
      · simp [h1, h2]
    · rw [Table.put_ne _ hji] at hj ⊢
      exact h.owner hj
  · intro j hj
    by_cases hji : j = i
    · subst hji
      rw [Table.put_self] at hj ⊢
      rcases hm hj with ⟨-, h2⟩ | ⟨-, h2⟩ <;> simp [h2]
    · rw [Table.put_ne _ hji] at hj ⊢
      exact h.nonneg hj
  · intro t m saved hs
    obtain ⟨h1, h2, k, hk, hty, ho⟩ := h.sleeper hs
    obtain ⟨k', hki, hk', hput⟩ := hslot hs
    obtain rfl : k' = k := by simpa [hk] using hk'.symm
    refine ⟨h1, h2, k', hput, ?_, ?_⟩ <;> rwa [Table.put_ne _ hki]
  · intro j t hj h0
    rw [depth_append, depth_created]
    by_cases hji : j = i
    · subst hji
      rw [Table.put_self] at hj
      simp only [held, Table.put_self, hl0, Table.put_ident_self, h.fresh (Nat.le_refl _), hj, and_true,
        true_and, Int.zero_add]
      rcases hm hj with ⟨h1, h2⟩ | ⟨h1, h2⟩
      · simp [h1, h2]
      · simp only [h1, h2, ne_eq, not_false_eq_true, true_and, eq_comm (a := t)]
    · rw [Table.put_ne _ hji] at hj
      have hlt := hw.identLt (i := j) (by simp [hj])
      simp only [held, Table.put_ne _ hji, hl hji, Table.put_ident_ne _ hji, Nat.ne_of_lt hlt, and_false,
        ↓reduceIte, Int.add_zero]
      exact h.counted hj h0
  · intro n t hn
    rw [Table.put_fresh] at hn
    rw [depth_append, depth_created, h.fresh (by omega), if_neg (by omega), Int.add_zero]

theorem acquire_mutex (hty : o.type = .mutex) (h0 : 0 ≤ o.recursion) (hr : o.recursion + 1 ≤ intMax) :
    acquireLocked o t = { o with ownerTid := t, recursion := o.recursion + 1 } := by
  simp only [acquireLocked, hty]
  rw [cInt_eq (by unfold intMax; omega) hr]

theorem acquire_mutex_iterate {o : SyncObj} {n : Nat} (hty : o.type = .mutex) (h0 : 0 ≤ o.recursion)
    (hr : o.recursion + ((n + 1 : Nat) : Int) ≤ intMax) :
    (acquireLocked · t)^[n + 1] o =
      { o with ownerTid := t, recursion := o.recursion + ((n + 1 : Nat) : Int) } := by
  induction n with
  | zero => exact acquire_mutex hty h0 hr
  | succ n ih =>
    rw [Function.iterate_succ_apply', ih (by omega), acquire_mutex]
    · simp only [SyncObj.mk.injEq, and_self, true_and, and_true]
      omega
    · exact hty
    · show 0 ≤ o.recursion + ((n + 1 : Nat) : Int)
      omega
    · show o.recursion + ((n + 1 : Nat) : Int) + 1 ≤ intMax
      omega

/-- A mutex after a wait took it as often as it is listed. -/
theorem acquireAll_mutex {T : Table} (hty : (T.objs i).type = .mutex)
    (h0 : 0 ≤ (T.objs i).recursion) (hr : (T.objs i).recursion + is.count i ≤ intMax) (hi : i ∈ is) :
    ((T.acquireAll t is).objs i).recursion = (T.objs i).recursion + is.count i ∧
      ((T.acquireAll t is).objs i).ownerTid = t := by
  obtain ⟨n, hn⟩ := Nat.exists_eq_succ_of_ne_zero (Nat.ne_of_gt (List.count_pos_iff.mpr hi))
  rw [Table.acquireAll_objs, hn]
  rw [hn] at hr
  rw [acquire_mutex_iterate hty h0 hr]
  exact ⟨rfl, rfl⟩

theorem depth_grant {T : Table} {is : List Nat} (hw : T.Wf) (hi : (T.objs i).type ≠ .free)
    (his : ∀ j ∈ is, (T.objs j).type ≠ .free) :
    depth (is.map (Event.acquired t <| T.ident ·)) u (T.ident i) =
      if u = t then (is.count i : Int) else 0 := by
  have hrel : (is.map (Event.acquired t <| T.ident ·)).count (.released u (T.ident i)) = 0 := by
    rw [List.count_eq_zero]
    simp
  rw [depth, hrel, count_acquired hw hi his]
  split <;> simp

theorem MutexInv.grant (h : MutexInv evs C) (hw : C.table.Wf) (ht : t ≠ 0) (hs : C.sleeps t = none)
    (hsat : ∀ i ∈ is, satisfiedLocked (C.table.objs i) t)
    (hfits : ∀ i ∈ is, (C.table.objs i).type = .mutex →
      (C.table.objs i).recursion + is.count i ≤ intMax) :
    MutexInv (evs ++ is.map (.acquired t <| C.table.ident ·))
      { C with table := C.table.acquireAll t is } := by
  have hlive : ∀ j ∈ is, (C.table.objs j).type ≠ .free := fun j hj => satisfied_live (hsat j hj)
  have hmine {j : Nat} (hj : j ∈ is) (hm : (C.table.objs j).type = .mutex) :
      (C.table.objs j).ownerTid = 0 ∨ (C.table.objs j).ownerTid = t := by
    have h' := hsat j hj
    simpa [satisfiedLocked, hm] using h'
  have hl {u j : Nat} : lent { C with table := C.table.acquireAll t is } u j = lent C u j := by
    simp only [lent, Table.acquireAll_find]
  constructor
  · intro j hj
    rw [Table.acquireAll_type] at hj
    by_cases hmem : j ∈ is
    · obtain ⟨h1, h2⟩ := acquireAll_mutex (t := t) hj (h.nonneg hj) (hfits j hmem hj) hmem
      have hpos : 0 < is.count j := List.count_pos_iff.mpr hmem
      have hnn := h.nonneg hj
      simp only [h1, h2, ht, false_iff]
      omega
    · rw [Table.acquireAll_not_mem _ hmem]
      exact h.owner hj
  · intro j hj
    rw [Table.acquireAll_type] at hj
    have hnn := h.nonneg hj
    by_cases hmem : j ∈ is
    · obtain ⟨h1, -⟩ := acquireAll_mutex (t := t) hj (h.nonneg hj) (hfits j hmem hj) hmem
      rw [h1]
      omega
    · rwa [Table.acquireAll_not_mem _ hmem]
  · intro u m saved hu
    obtain ⟨h1, h2, j, hj, hm, ho⟩ := h.sleeper hu
    have hut : u ≠ t := by
      rintro rfl
      simp [hs] at hu
    refine ⟨h1, h2, j, by rwa [Table.acquireAll_find], by rwa [Table.acquireAll_type], ?_⟩
    by_cases hmem : j ∈ is
    · rw [(acquireAll_mutex hm (h.nonneg hm) (hfits j hmem hm) hmem).2]
      exact Ne.symm hut
    · rwa [Table.acquireAll_not_mem _ hmem]
  · intro j u hj h0
    rw [Table.acquireAll_type] at hj
    rw [depth_append, Table.acquireAll_ident, depth_grant hw (by simp [hj]) hlive, h.counted hj h0]
    simp only [held, hl]
    by_cases hmem : j ∈ is
    · obtain ⟨h1, h2⟩ := acquireAll_mutex (t := t) hj (h.nonneg hj) (hfits j hmem hj) hmem
      rw [h1, h2]
      by_cases hut : u = t
      · subst hut
        have hlent : lent C u j = 0 := by simp [lent, hs]
        rcases hmine hmem hj with ho | ho
        · simp [ho, Ne.symm h0, hlent, (h.owner hj).mp ho]
        · simp [ho]
      · rcases hmine hmem hj with ho | ho
        · simp [ho, Ne.symm h0, hut, Ne.symm hut]
        · simp [ho, hut, Ne.symm hut]
    · rw [Table.acquireAll_not_mem _ hmem, List.count_eq_zero_of_not_mem hmem]
      simp
  · intro n u hn
    rw [Table.acquireAll_fresh] at hn
    rw [depth_append, h.fresh hn, Int.zero_add]
    have hno {e : Event} (he : ∀ j ∈ is, .acquired t (C.table.ident j) ≠ e) :
        (is.map (Event.acquired t <| C.table.ident ·)).count e = 0 := by
      rw [List.count_eq_zero]
      intro hc
      obtain ⟨j, hj, hje⟩ := List.mem_map.mp hc
      exact he j hj hje
    rw [depth, hno, hno]
    · rfl
    · intro j _ he
      cases he
    · intro j hj he
      have hlt := hw.identLt (hlive j hj)
      cases he
      omega

theorem effect_mutex (hok : MutexOk s a) (hw : C.table.Wf) (h : MutexInv evs C)
    (he : Effect s a C ev C') : MutexInv (evs ++ ev) C' := by
  obtain ⟨hrules, hfits⟩ := hok
  have hmod {i : Nat} {ty : ObjType} (hty : (C.table.objs i).type = ty) (hne : ty ≠ .mutex) :
      (C.table.objs i).type ≠ .mutex := by rwa [hty]
  cases he with
  | create _ _ hfree _ _ hm => exact h.create hw hfree hm
  | signal hty hk =>
    refine h.other (hmod hty (by simp)) (fun _ => ⟨rfl, rfl⟩) fun t n => ?_
    cases hk <;> simp [depth]
  | release hty ht ho hr hs => exact h.release hw hty ht ho hr hs
  | post _ _ _ hty => exact h.other (hmod hty (by simp)) (fun _ => ⟨rfl, rfl⟩) (by simp [depth])
  | exit hty => exact h.other (hmod hty (by simp)) (fun _ => ⟨rfl, rfl⟩) (by simp)
  | bump _ hty => exact h.other (hmod hty (by simp)) (fun _ => ⟨rfl, rfl⟩) (by simp [depth])
  | close ha hc hi =>
    subst ha hc
    exact h.close hi hrules
  | grant hc hg ht hs hsat =>
    subst hc hg
    exact h.grant hw ht hs hsat hfits
  | sleep ha hc ht hi hty hs hsaved =>
    subst ha hc
    have ho := hrules _ hi hty
    have hpos := h.pos hty (by rw [core_table, ho]; exact ht)
    rw [if_pos hpos] at hsaved
    subst hsaved
    exact h.sleep ht hi hty hs ho
  | wake hs hi ho => exact h.wake hs hi ho
  | abandon hs hn =>
    obtain ⟨-, -, i, hi, hty, -⟩ := h.sleeper hs
    exact absurd hty (hn i hi)

theorem run_mutex (h : Run step MutexOk .init tr s) : MutexInv (Trace.events tr) s.core :=
  run_effects h init_mutex fun _ hok hw hp he => effect_mutex hok hw hp he

-- ---------------------------------------------------------------------------
-- Sleeps
-- ---------------------------------------------------------------------------

theorem cvSleep_restored {t cv csMtx timeout i : Nat} {s : State}
    (hi : s.table.findLocked csMtx = some i) (hty : (s.table.objs i).type = .mutex)
    (ho : (s.table.objs i).ownerTid = t) (hpos : 0 < (s.table.objs i).recursion) :
    Restored t csMtx i (s.table.objs i).recursion (cvSleep s t cv csMtx timeout) := by
  have hf : Table.Keeps ({ · with ownerTid := 0, recursion := 0 }) := fun _ => ⟨rfl, rfl⟩
  have hfail : Restored t csMtx i (s.table.objs i).recursion (s, ⟨some waitFailed, []⟩) :=
    .inr ⟨by simp, ho, rfl⟩
  simp only [cvSleep, hi]
  cases s.table.findLocked cv with
  | none => exact hfail
  | some c =>
    dsimp only
    split
    · have hpass : ∀ s' saved gen, SleepPass s' t cv csMtx timeout saved gen True
          (cvSleepPass s' t cv csMtx timeout saved gen) := fun _ _ _ => cvSleepPass_cases
      refine (hpass _ _ _).restored ?_ ?_
      · rwa [broadcast_table, setTable_table, hf.modify_find]
      · rwa [broadcast_table, setTable_table, hf.modify_type]
    · exact hfail

/-- A thread inside a sleep that was begun at depth `saved` on the mutex
numbered `n` in slot `i`. -/
structure Sleeping (t csMtx i n : Nat) (saved : Int) (s : State) : Prop where
  reach : ∃ tr, Run step MutexOk .init tr s
  sleep : (s.calls t).sleep = some (csMtx, saved)
  find : s.table.findLocked csMtx = some i
  type : (s.table.objs i).type = .mutex
  ident : s.table.ident i = n

theorem sleeping_spares (h : Sleeping t csMtx i n saved s) (hok : MutexOk s a) : s.Spares a i := by
  rintro u k rfl hk
  rw [Table.findLocked_eq_some] at hk
  obtain ⟨rfl, -⟩ := hk
  obtain ⟨rfl, -⟩ := Table.findLocked_eq_some.mp h.find
  exact hok.1 t saved h.sleep

theorem Sleeping.step (h : Sleeping t csMtx i n saved s) (hok : MutexOk s a)
    (hst : step s a = some (s', l)) (hin : a.thread = some t → l.ret = none) :
    Sleeping t csMtx i n saved s' := by
  obtain ⟨tr, hrun⟩ := h.reach
  have hstay := step_stays (run_sane hrun) hst (by simp [h.type]) (sleeping_spares h hok)
  refine ⟨⟨_, .snoc hrun hok hst⟩, ?_, hstay.find h.find, hstay.type.trans h.type,
    hstay.ident.trans h.ident⟩
  by_cases ha : a.thread = some t
  · rcases step_sleep hst ha h.sleep h.find h.type with ⟨-, hs⟩ | ⟨hret, -⟩
    · exact hs
    · exact absurd (hin ha) hret
  · rw [step_calls hst ha]
    exact h.sleep

theorem sleep_returns (hrun : Run step MutexOk .init tr s)
    (hi : s.table.findLocked csMtx = some i) (hty : (s.table.objs i).type = .mutex)
    (hcall : Run step MutexOk s ((.cvSleep t cv csMtx timeout, l) :: rest) s')
    (hret : Trace.Returns ((.cvSleep t cv csMtx timeout, l) :: rest) t rv) :
    (s'.table.objs i).type = .mutex ∧ s'.table.ident i = s.table.ident i ∧
      (s'.table.objs i).ownerTid = t ∧
      (s'.table.objs i).recursion = (s.table.objs i).recursion := by
  have hsane := run_sane hrun
  have hlive : (s.table.objs i).type ≠ .free := by simp [hty]
  have hbegin {s₁ : State} {l : Label} (hok : MutexOk s (.cvSleep t cv csMtx timeout))
      (hst : step s (.cvSleep t cv csMtx timeout) = some (s₁, l)) :
      Stays s.table s₁.table i ∧ Restored t csMtx i (s.table.objs i).recursion (s₁, l) := by
    refine ⟨step_stays hsane hst hlive (by rintro u k ⟨⟩), ?_⟩
    simp only [step, Option.ite_none_right_eq_some, Option.some.injEq] at hst
    have ho := hok.1 i hi hty
    rw [← hst.2]
    exact cvSleep_restored hi hty ho ((run_mutex hrun).pos hty (by rw [core_table, ho]; exact hst.1.1))
  obtain ⟨_, s₁, a, l', _, hok, hst, ha, hl, hcase⟩ := run_call
    (Q := fun _ s₁ => Sleeping t csMtx i (s.table.ident i) (s.table.objs i).recursion s₁) hcall rfl hret
    (by
      intro s₁ hok hst hnone
      obtain ⟨hstay, hs | ⟨hs, -⟩⟩ := hbegin hok hst
      · exact ⟨⟨_, .snoc hrun hok hst⟩, hs.2, hstay.find hi, hstay.type.trans hty, hstay.ident⟩
      · exact absurd hnone hs)
    fun hq hok hst hin => hq.step hok hst hin
  have hdone {s₀ : State} {saved : Int} (hstay : Stays s₀.table s'.table i)
      (hr : Restored t csMtx i saved (s', l')) : (s'.table.objs i).ownerTid = t ∧
        (s'.table.objs i).recursion = saved := by
    rcases hr with ⟨hs, -⟩ | ⟨-, h1, h2⟩
    · rw [hl] at hs
      cases hs
    · exact ⟨h1, h2⟩
  rcases hcase with ⟨-, rfl, rfl⟩ | hq
  · obtain ⟨hstay, hr⟩ := hbegin hok hst
    exact ⟨hstay.type.trans hty, hstay.ident, hdone hstay hr⟩
  · obtain ⟨tr₁, hrun₁⟩ := hq.reach
    have hstay := step_stays (run_sane hrun₁) hst (by simp [hq.type]) (sleeping_spares hq hok)
    exact ⟨hstay.type.trans hq.type, hstay.ident.trans hq.ident,
      hdone hstay (step_sleep hst ha hq.sleep hq.find hq.type)⟩

-- ---------------------------------------------------------------------------
-- The law
-- ---------------------------------------------------------------------------

/-- Thread `t` holds the mutex in slot `i` and has not let it go for a sleep. -/
def Owns (evs : List Event) (s : State) (t i : Nat) : Prop :=
  0 < depth evs t (s.table.ident i) ∧
    ∀ csMtx saved, (s.calls t).sleep = some (csMtx, saved) → s.table.findLocked csMtx ≠ some i

theorem held_owner (ho : (C.table.objs i).ownerTid = t) : held C t i = (C.table.objs i).recursion :=
  if_pos ho

theorem held_other (ho : (C.table.objs i).ownerTid ≠ t)
    (hno : ∀ m saved, C.sleeps t = some (m, saved) → C.table.findLocked m ≠ some i) :
    held C t i = 0 := by
  rw [held, if_neg ho, lent]
  cases hs : C.sleeps t with
  | none => rfl
  | some x => exact if_neg (hno x.1 x.2 hs)

theorem MutexInv.owns (h : MutexInv evs s.core) (hty : (s.table.objs i).type = .mutex) (ht : t ≠ 0) :
    Owns evs s t i ↔ (s.table.objs i).ownerTid = t := by
  have hd : depth evs t (s.table.ident i) = held s.core t i := h.counted hty ht
  constructor
  · rintro ⟨hpos, hno⟩
    by_contra ho
    rw [hd, held_other ho hno] at hpos
    exact Int.lt_irrefl 0 hpos
  · intro ho
    refine ⟨?_, fun m saved hs hf => ?_⟩
    · rw [hd, held_owner ho]
      exact h.pos hty (by rw [core_table, ho]; exact ht)
    · obtain ⟨-, -, j, hj, -, hne⟩ := h.sleeper hs
      obtain rfl : i = j := by simpa [hf] using hj
      exact hne ho

theorem release_refused (hf : Free s t) (hi : s.table.findLocked k = some i)
    (ho : (s.table.objs i).ownerTid ≠ t) :
    step s (.call t (.releaseMutex k)) = some (s, ⟨some 0, []⟩) := by
  simp [step, hf, runOp, releaseMutex, hi, ho]

/-- Along every run: the fields of a mutex count the holds of its one owner,
others cannot release it, and a sleep returns with the mutex as it was. -/
theorem mutex_law (h : Run step MutexOk .init tr s) :
    (∀ i, (s.table.objs i).type = .mutex →
      (∀ t, t ≠ 0 → (Owns (Trace.events tr) s t i ↔ (s.table.objs i).ownerTid = t)) ∧
      ((s.table.objs i).ownerTid ≠ 0 → (s.table.objs i).recursion =
        depth (Trace.events tr) (s.table.objs i).ownerTid (s.table.ident i)) ∧
      ((s.table.objs i).recursion = 0 ↔ (s.table.objs i).ownerTid = 0)) ∧
    (∀ t k i, Free s t → s.table.findLocked k = some i → (s.table.objs i).type = .mutex →
      (s.table.objs i).ownerTid ≠ t →
      step s (.call t (.releaseMutex k)) = some (s, ⟨some 0, []⟩)) ∧
    (∀ t cv csMtx timeout i l rest s' rv, s.table.findLocked csMtx = some i →
      (s.table.objs i).type = .mutex →
      Run step MutexOk s ((.cvSleep t cv csMtx timeout, l) :: rest) s' →
      Trace.Returns ((.cvSleep t cv csMtx timeout, l) :: rest) t rv →
      (s'.table.objs i).type = .mutex ∧ s'.table.ident i = s.table.ident i ∧
        (s'.table.objs i).ownerTid = t ∧
        (s'.table.objs i).recursion = (s.table.objs i).recursion) := by
  have hinv := run_mutex h
  refine ⟨fun i hty => ⟨fun t ht => hinv.owns hty ht, fun ho => ?_, (hinv.owner hty).symm⟩, ?_, ?_⟩
  · have hd := hinv.counted hty ho
    rw [core_table] at hd
    simp [hd, held]
  · intro t k i hf hi _ ho
    exact release_refused hf hi ho
  · intro t cv csMtx timeout i l rest s' rv hi hty hcall hret
    exact sleep_returns h hi hty hcall hret

-- ---------------------------------------------------------------------------
-- The range of the recursion count
-- ---------------------------------------------------------------------------

/-- Thread 1 has a mutex in slot 0 and has acquired it `n` times. -/
structure Nested (n : Nat) (evs : List Event) (s : State) : Prop where
  idle : s.calls 1 = .idle
  obj : s.table.objs 0 =
    { type := .mutex, handle := syncBase, ownerTid := 1, recursion := cInt n }
  depth : depth evs 1 (s.table.ident 0) = n

theorem nested_create : ∃ s l, step .init (.call 1 (.createMutex true)) = some (s, l) ∧
    Nested 1 l.events s := by
  refine ⟨_, _, rfl, rfl, ?_, ?_⟩
  · rfl
  · rfl

theorem nested_wait (h : Nested n evs s) :
    ∃ s' l, step s (.waitSingle 1 syncBase 0) = some (s', l) ∧ Nested (n + 1) (evs ++ l.events) s' := by
  obtain ⟨hidle, hobj, hd⟩ := h
  have hf : s.table.findLocked syncBase = some 0 := by
    rw [Table.findLocked_eq_some, hobj]
    exact ⟨rfl, by decide, by simp, rfl⟩
  have hsat : satisfiedLocked (s.table.objs 0) 1 := by simp [hobj, satisfiedLocked]
  have hstep : step s (.waitSingle 1 syncBase 0) =
      some (take { s with waitq := wqSet s.waitq 1 syncBase } 1 [0] waitObject0 endSingle) := by
    simp [step, Free, hidle, waitSingle, hf, waitSinglePass, hsat]
  refine ⟨_, _, hstep, ?_, ?_, ?_⟩
  · exact endSingle_calls_self
  · show (s.table.modify 0 (acquireLocked · 1)).objs 0 = _
    rw [Table.modify_self, hobj]
    simp only [acquireLocked, cInt_add]
    rfl
  · show Sync.depth (evs ++ [.acquired 1 (s.table.ident 0)]) 1 (s.table.ident 0) = _
    rw [depth_append, hd, depth_acquired, if_pos ⟨rfl, rfl⟩]
    rfl

theorem nested_run (n : Nat) : ∃ tr s, Run step MutexRules .init tr s ∧ Nested (n + 1) (Trace.events tr) s := by
  induction n with
  | zero =>
    obtain ⟨s, l, hs, hn⟩ := nested_create
    refine ⟨_, s, .single (by trivial) hs, ?_⟩
    simpa [Trace.events] using hn
  | succ n ih =>
    obtain ⟨tr, s, hr, hn⟩ := ih
    obtain ⟨s', l, hs, hn'⟩ := nested_wait hn
    refine ⟨_, s', .snoc hr (by trivial) hs, ?_⟩
    rwa [events_snoc]

/-- Acquired 2^31 times, a mutex counts a negative depth. -/
theorem mutex_depth_wraps : ∃ tr s, Run step MutexRules .init tr s ∧
    (s.table.objs 0).type = .mutex ∧ (s.table.objs 0).ownerTid = 1 ∧
    (s.table.objs 0).recursion ≠ depth (Trace.events tr) 1 (s.table.ident 0) ∧
    (s.table.objs 0).recursion < 0 := by
  obtain ⟨tr, s, hr, hn⟩ := nested_run (2 ^ 31 - 1)
  have hrec : (s.table.objs 0).recursion = -2 ^ 31 := by
    rw [hn.obj]
    decide
  refine ⟨tr, s, hr, by rw [hn.obj], by rw [hn.obj], ?_, ?_⟩
  · rw [hrec, hn.depth]
    decide
  · rw [hrec]
    decide

-- ---------------------------------------------------------------------------
-- A run
-- ---------------------------------------------------------------------------

instance : Decidable (DepthFits s a) := inferInstanceAs (Decidable (∀ i ∈ s.grants a, _ → _))

/-- `MutexRules` for runs that close nothing, where it can be evaluated. -/
def mutexChecks (s : State) : Action → Bool
  | .cvSleep t _ csMtx _ => (s.table.findLocked csMtx).all fun i => (s.table.objs i).ownerTid == t
  | .call _ (.close _) => false
  | _ => true

theorem mutexChecks_ok (s : State) (a : Action) (h : mutexChecks s a = true ∧ DepthFits s a) :
    MutexOk s a := by
  obtain ⟨hc, hfits⟩ := h
  refine ⟨?_, hfits⟩
  cases a with
  | cvSleep t cv csMtx timeout =>
    intro i hi _
    simpa [mutexChecks, hi] using hc
  | call t op =>
    cases op with
    | close => cases hc
    | _ => trivial
  | _ => trivial

/-- Thread 1 sleeps at depth 2 while thread 2 takes the mutex, wakes it and
gives the mutex back. -/
def handover : List Action :=
  [.call 1 (.createMutex true), .call 1 .createCv, .waitSingle 1 syncBase 0,
    .cvSleep 1 (syncBase + 1) syncBase syncInfinite, .waitSingle 2 syncBase 0,
    .call 2 (.cvWake (syncBase + 1) false), .resume 1, .call 2 (.releaseMutex syncBase), .resume 1]

theorem mutex_law_handover : ∃ tr s, Run step MutexOk .init tr s ∧
    (s.table.objs 0).ownerTid = 1 ∧ (s.table.objs 0).recursion = 2 ∧
    (s.table.objs 0).recursion = depth (Trace.events tr) 1 (s.table.ident 0) := by
  have hexec : (exec step (fun s a => mutexChecks s a = true ∧ DepthFits s a)
      .init handover).any (fun r =>
      decide ((r.2.table.objs 0).type = .mutex ∧ (r.2.table.objs 0).ownerTid = 1 ∧
        (r.2.table.objs 0).recursion = 2)) = true := by decide +kernel
  obtain ⟨tr, s, hr, hs⟩ := Run.of_exec_any hexec
  obtain ⟨hty, ho, hrec⟩ := of_decide_eq_true hs
  have hrun := hr.mono mutexChecks_ok
  refine ⟨tr, s, hrun, ho, hrec, ?_⟩
  have hd := ((mutex_law hrun).1 0 hty).2.1 (by rw [ho]; decide)
  rwa [ho] at hd

end WineGlass.Sync
