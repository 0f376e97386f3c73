import Mathlib.Algebra.Ring.Nat
import WineGlass.Lib.Probe

/-!
# The table of SRW locks

A guest lock pointer is looked up in a hash table that only grows, to at most
32768 locks; a pointer first seen after that gets the one entry all of them
share. `locate` says what entry a pointer has already, and `srwFor_spec` that
a lookup gives every pointer the same entry for good.
-/

namespace WineGlass.Srw

/-- `WGSrw`. -/
structure WGSrw where
  ptr : Nat := 0
  readers : Int := 0
  writerTid : Nat := 0
  writerRec : Int := 0
  deriving DecidableEq, Repr

/-- `WG_MAX_SRW`. -/
def maxSrw : Nat := 32768

/-- The length of `s_srw_hash`. -/
def hashSlots : Nat := maxSrw * 2

structure Table where
  srw : Nat → WGSrw
  count : Nat
  hash : Nat → Nat
  overflow : WGSrw

def Table.init : Table := ⟨fun _ => {}, 0, fun _ => 0, {}⟩

/-- What `wg_srw_for` points to. -/
inductive Entry
  | slot (i : Nat)
  | overflow
  deriving DecidableEq, Repr

def Table.get (T : Table) : Entry → WGSrw
  | .slot i => T.srw i
  | .overflow => T.overflow

def Table.set (T : Table) : Entry → WGSrw → Table
  | .slot i, v => { T with srw := Function.update T.srw i v }
  | .overflow, v => { T with overflow := v }

/-- The home slot of a pointer; the product is a `uint32_t`. -/
def srwHash (p : Nat) : Nat := p * 2654435761 % 2 ^ 32 % hashSlots

/-- A slot of `s_srw_hash` holds an index plus one, 0 when it is empty. -/
def Table.slot (T : Table) (h : Nat) : Option Nat :=
  if T.hash h = 0 then none else some (T.srw (T.hash h - 1)).ptr

/-- The loop of `wg_srw_for`: where the walk for `p` stops. -/
def Table.walk (T : Table) (p : Nat) : Option Nat :=
  Probe.find hashSlots T.slot p (srwHash p) hashSlots

/-- `wg_srw_for`. -/
def srwFor (T : Table) (p : Nat) : Option (Entry × Table) :=
  match T.walk p with
  | none => none
  | some h =>
    if T.hash h ≠ 0 then some (.slot (T.hash h - 1), T)
    else if T.count < maxSrw then
      some (.slot T.count,
        { T with
          srw := Function.update T.srw T.count { ptr := p }
          hash := Function.update T.hash h (T.count + 1)
          count := T.count + 1 })
    else some (.overflow, T)

/-- The entry a pointer has, if a lookup of it adds none. -/
def locate (T : Table) (p : Nat) : Option Entry :=
  match T.walk p with
  | none => none
  | some h =>
    if T.hash h ≠ 0 then some (.slot (T.hash h - 1))
    else if T.count < maxSrw then none
    else some .overflow

-- ---------------------------------------------------------------------------
-- A well-formed table
-- ---------------------------------------------------------------------------

structure Table.Wf (T : Table) : Prop where
  countLe : T.count ≤ maxSrw
  hashLe : T.hash h ≤ T.count
  hashInj : T.hash h ≠ 0 → T.hash h = T.hash h' → h = h'
  placed : Probe.Placed hashSlots srwHash T.slot

theorem Table.init_wf : Table.init.Wf := by
  refine ⟨Nat.zero_le _, Nat.le_refl 0, fun h => absurd rfl h, ?_⟩
  intro r k h
  simp [slot, init] at h

theorem srwHash_lt (p : Nat) : srwHash p < hashSlots := Nat.mod_lt _ (by decide)

theorem slot_eq_none {T : Table} : T.slot h = none ↔ T.hash h = 0 := by
  unfold Table.slot
  split <;> simp_all

/-- A walk of the table always ends, at the pointer or where it may go. -/
theorem Table.Wf.find {T : Table} (hT : T.Wf) (p : Nat) :
    ∃ h, T.walk p = some h ∧ Probe.Stops T.slot p h := by
  obtain ⟨e, he, h0⟩ : ∃ e < hashSlots, T.slot e = none := by
    refine Probe.exists_empty (show maxSrw < hashSlots by decide)
      (fun i hi => (?_ : T.hash i - 1 < maxSrw)) fun i j hi hj hij => ?_
    · rw [Ne, slot_eq_none] at hi
      have h1 := hT.hashLe (h := i)
      have h2 := hT.countLe
      omega
    · rw [Ne, slot_eq_none] at hi hj
      exact hT.hashInj hi (by omega)
  obtain ⟨h, hf⟩ := Probe.find_isSome (k := p) (srwHash_lt p) he h0
  exact ⟨h, hf, (Probe.find_some (srwHash_lt p) hf).1⟩

theorem srwFor_located (h : locate T p = some e) : srwFor T p = some (e, T) := by
  unfold locate at h
  unfold srwFor
  split at h
  · cases h
  · split at h
    · cases h
      simp_all
    · split at h
      · cases h
      · cases h
        simp_all

theorem locate_found (hf : T.walk p = some r) (hr : T.hash r ≠ 0) :
    locate T p = some (.slot (T.hash r - 1)) := by
  simp only [locate, hf]
  rw [if_pos hr]

theorem locate_empty (hf : T.walk p = some r) (hr : T.hash r = 0) :
    locate T p = if T.count < maxSrw then none else some .overflow := by
  simp only [locate, hf]
  rw [if_neg (not_not.mpr hr)]

theorem locate_slot (hT : T.Wf) (h : locate T p = some (.slot i)) :
    i < T.count ∧ (T.srw i).ptr = p := by
  obtain ⟨r, hf, hs⟩ := hT.find p
  simp only [locate, hf] at h
  split at h
  · rename_i hr
    cases h
    have hle := hT.hashLe (h := r)
    refine ⟨by omega, ?_⟩
    rcases hs with hs | hs
    · exact absurd (slot_eq_none.mp hs) hr
    · simpa [Table.slot, hr] using hs
  · split at h <;> cases h

/-- Two pointers share an entry only when the table is full. -/
theorem locate_inj (hT : T.Wf) (hp : locate T p = some e) (hq : locate T q = some e)
    (hne : p ≠ q) : e = .overflow := by
  cases e with
  | overflow => rfl
  | slot i => exact absurd ((locate_slot hT hp).2.symm.trans (locate_slot hT hq).2) hne

/-- A pointer that is in no slot. -/
theorem locate_absent (hT : T.Wf) (h : ∀ i < T.count, (T.srw i).ptr ≠ p) :
    locate T p = if T.count < maxSrw then none else some .overflow := by
  obtain ⟨r, hf, hs⟩ := hT.find p
  have hr : T.hash r = 0 := by
    rcases hs with hs | hs
    · exact slot_eq_none.mp hs
    · by_contra hr
      have hle := hT.hashLe (h := r)
      simp only [Table.slot, hr, ↓reduceIte, Option.some.injEq] at hs
      exact h (T.hash r - 1) (by omega) hs
  exact locate_empty hf hr

-- ---------------------------------------------------------------------------
-- Stores that keep the pointers
-- ---------------------------------------------------------------------------

section
variable {T : Table} {e : Entry}

@[simp] theorem set_get (T : Table) (e : Entry) (v : WGSrw) : (T.set e v).get e = v := by
  cases e <;> simp [Table.get, Table.set]

theorem set_get_ne (h : e' ≠ e) : (T.set e v).get e' = T.get e' := by
  cases e <;> cases e' <;> simp_all [Table.get, Table.set]

theorem set_slot (hv : v.ptr = (T.get e).ptr) (h : Nat) : (T.set e v).slot h = T.slot h := by
  cases e with
  | overflow => rfl
  | slot i =>
    have hptr (j : Nat) : (Function.update T.srw i v j).ptr = (T.srw j).ptr := by
      by_cases hj : j = i
      · subst hj
        simpa [Table.get] using hv
      · rw [Function.update_of_ne hj]
    simp only [Table.slot, Table.set, hptr]

@[simp] theorem set_hash (T : Table) (e : Entry) (v : WGSrw) : (T.set e v).hash = T.hash := by
  cases e <;> rfl

@[simp] theorem set_count (T : Table) (e : Entry) (v : WGSrw) : (T.set e v).count = T.count := by
  cases e <;> rfl

theorem walk_set (hv : v.ptr = (T.get e).ptr) (p : Nat) : (T.set e v).walk p = T.walk p := by
  have hslot : (T.set e v).slot = T.slot := funext (set_slot hv)
  simp only [Table.walk, hslot]

theorem locate_set (hv : v.ptr = (T.get e).ptr) (p : Nat) : locate (T.set e v) p = locate T p := by
  simp only [locate, walk_set hv, set_hash, set_count]

theorem Table.Wf.set (hT : T.Wf) (hv : v.ptr = (T.get e).ptr) : (T.set e v).Wf := by
  refine ⟨?_, ?_, ?_, ?_⟩
  · rw [set_count]
    exact hT.countLe
  · rw [set_count, set_hash]
    exact hT.hashLe
  · rw [set_hash]
    exact hT.hashInj
  · rw [funext (set_slot hv)]
    exact hT.placed

end

-- ---------------------------------------------------------------------------
-- Lookups
-- ---------------------------------------------------------------------------

/-- What a lookup of `p` does: nothing, or a fresh entry for `p` alone. -/
structure Looked (T : Table) (p : Nat) (e : Entry) (T' : Table) : Prop where
  wf : T'.Wf
  here : locate T' p = some e
  keeps : locate T q = some e' → locate T' q = some e'
  change : T' = T ∨ (e = .slot T.count ∧ T'.count = T.count + 1 ∧ T'.get e = { ptr := p } ∧
    (∀ e', e' ≠ e → T'.get e' = T.get e') ∧ ∀ q, locate T q ≠ some e)

/-- A walk in a table with more pointers stops where it stopped. -/
theorem walk_grow {T T' : Table} (hg : ∀ i, T.slot i ≠ none → T'.slot i = T.slot i) (hf : T.walk p = some h)
    (hs : Probe.Stops T'.slot p h) : T'.walk p = some h := by
  unfold Table.walk at hf ⊢
  exact Probe.find_grow (srwHash_lt p) hg hf hs

/-- A fresh entry for `p`, found through the bucket `h`. -/
def Table.insert (T : Table) (p h : Nat) : Table :=
  { T with
    srw := Function.update T.srw T.count { ptr := p }
    hash := Function.update T.hash h (T.count + 1)
    count := T.count + 1 }

section
variable {T : Table} {p q h i : Nat}

theorem insert_slot (hT : T.Wf) : (T.insert p h).slot = Function.update T.slot h (some p) := by
  funext i
  by_cases hi : i = h
  · subst hi
    simp [Table.slot, Table.insert]
  · have hle := hT.hashLe (h := i)
    rw [Function.update_of_ne hi]
    simp only [Table.slot, Table.insert, Function.update_of_ne hi]
    split
    · rfl
    · rw [Function.update_of_ne (by omega)]

theorem insert_grow (hT : T.Wf) (h0 : T.hash h = 0) (hi : T.slot i ≠ none) :
    (T.insert p h).slot i = T.slot i := by
  rw [insert_slot hT, Function.update_of_ne]
  rintro rfl
  exact hi (slot_eq_none.mpr h0)

theorem insert_wf (hT : T.Wf) (hf : T.walk p = some h) (h0 : T.hash h = 0)
    (hlt : T.count < maxSrw) : (T.insert p h).Wf := by
  refine ⟨hlt, fun {i} => ?_, fun {i j} hi hij => ?_, ?_⟩
  · have hle := hT.hashLe (h := i)
    by_cases hih : i = h
    · subst hih
      simp [Table.insert]
    · simp only [Table.insert, Function.update_of_ne hih]
      omega
  · have hlei := hT.hashLe (h := i)
    have hlej := hT.hashLe (h := j)
    dsimp only [Table.insert] at hi hij
    by_cases hih : i = h <;> by_cases hjh : j = h
    · rw [hih, hjh]
    · subst hih
      rw [Function.update_self, Function.update_of_ne hjh] at hij
      omega
    · subst hjh
      rw [Function.update_self, Function.update_of_ne hih] at hij
      omega
    · rw [Function.update_of_ne hih] at hi hij
      rw [Function.update_of_ne hjh] at hij
      exact hT.hashInj hi hij
  · rw [insert_slot hT]
    exact hT.placed.insert srwHash_lt hf (slot_eq_none.mpr h0)

theorem insert_locate (hT : T.Wf) (hf : T.walk p = some h) (h0 : T.hash h = 0) :
    locate (T.insert p h) p = some (.slot T.count) := by
  have hthere : (T.insert p h).slot h = some p := by rw [insert_slot hT, Function.update_self]
  have hf' : (T.insert p h).walk p = some h := walk_grow (fun i => insert_grow hT h0) hf (.inr hthere)
  have hentry : (T.insert p h).hash h = T.count + 1 := Function.update_self ..
  rw [locate_found hf' (hentry ▸ Nat.succ_ne_zero _), hentry, Nat.add_sub_cancel]

/-- The entries found before are found where they were. -/
theorem insert_keeps (hT : T.Wf) (h0 : T.hash h = 0) (hlt : T.count < maxSrw)
    (hq : locate T q = some e) : locate (T.insert p h) q = some e := by
  obtain ⟨r, hfq, hstop⟩ := hT.find q
  simp only [locate, hfq, hlt, ↓reduceIte, ite_not] at hq
  split at hq
  · cases hq
  · rename_i hr
    have hr' : T.slot r ≠ none := fun hn => hr (slot_eq_none.mp hn)
    have hrh : r ≠ h := by
      rintro rfl
      exact hr h0
    have hfq' : (T.insert p h).walk q = some r := walk_grow (fun i => insert_grow hT h0) hfq
      (.inr ((insert_grow hT h0 hr').trans (hstop.resolve_left hr')))
    have hsame : (T.insert p h).hash r = T.hash r := Function.update_of_ne hrh ..
    rw [← Option.some.inj hq, locate_found hfq' (hsame ▸ hr), hsame]

theorem looked_insert (hT : T.Wf) (hf : T.walk p = some h) (h0 : T.hash h = 0)
    (hlt : T.count < maxSrw) : Looked T p (.slot T.count) (T.insert p h) := by
  refine ⟨insert_wf hT hf h0 hlt, insert_locate hT hf h0, insert_keeps hT h0 hlt,
    .inr ⟨rfl, rfl, ?_, ?_, ?_⟩⟩
  · simp [Table.get, Table.insert]
  · intro e' he'
    cases e' with
    | overflow => rfl
    | slot i =>
      have hi : i ≠ T.count := fun hi => he' (hi ▸ rfl)
      simp [Table.get, Table.insert, Function.update_of_ne hi]
  · intro q hq
    have hlt' := (locate_slot hT hq).1
    omega

end

theorem srwFor_spec (hT : T.Wf) (p : Nat) : ∃ e T', srwFor T p = some (e, T') ∧ Looked T p e T' := by
  obtain ⟨h, hf, -⟩ := hT.find p
  by_cases hloc : ∃ e, locate T p = some e
  · obtain ⟨e, he⟩ := hloc
    exact ⟨e, T, srwFor_located he, hT, he, id, .inl rfl⟩
  · have hnone : T.hash h = 0 ∧ T.count < maxSrw := by
      by_contra hno
      refine hloc ?_
      simp only [locate, hf]
      split
      · exact ⟨_, rfl⟩
      · rename_i h0
        rw [not_not] at h0
        rw [if_neg fun hlt => hno ⟨h0, hlt⟩]
        exact ⟨_, rfl⟩
    obtain ⟨h0, hlt⟩ := hnone
    refine ⟨_, _, ?_, looked_insert hT hf h0 hlt⟩
    simp only [srwFor, hf, h0, ne_eq, not_true_eq_false, ↓reduceIte, hlt, Table.insert]

end WineGlass.Srw
