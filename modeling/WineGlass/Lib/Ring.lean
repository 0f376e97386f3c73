import Mathlib.Data.Nat.ModEq
import Mathlib.Logic.Function.Basic

/-!
# Ring buffers

`n` slots hold a queue from `head` up to, not including, `tail`; one slot stays
empty, so that an empty ring and a full one differ. `items` is the queue. A
slot of the ring is a position `pos n head a`, `a` slots on from the head, and
every operation is described by what it does to the positions.
-/

namespace Rings

structure Buffer (α : Type) where
  slots : Nat → α
  head : Nat
  tail : Nat

variable {α : Type} {n : Nat} {r r' : Buffer α} {p : α → Bool} {x : α}

def next (n i : Nat) : Nat := (i + 1) % n

/-- The slot `a` places on from `h`. -/
def pos (n h a : Nat) : Nat := (h + a) % n

structure Buffer.Wf (n : Nat) (r : Buffer α) : Prop where
  head : r.head < n
  tail : r.tail < n

def Buffer.count (n : Nat) (r : Buffer α) : Nat := (r.tail + n - r.head) % n

/-- Oldest first. -/
def Buffer.items (n : Nat) (r : Buffer α) : List α :=
  (List.range (r.count n)).map fun a => r.slots (pos n r.head a)

-- ---------------------------------------------------------------------------
-- Operations
-- ---------------------------------------------------------------------------

/-- `none` when the ring is full. -/
def Buffer.push (n : Nat) (r : Buffer α) (x : α) : Option (Buffer α) :=
  if next n r.tail = r.head then none
  else some ⟨Function.update r.slots r.tail x, r.head, next n r.tail⟩

def Buffer.pop (n : Nat) (r : Buffer α) : Option (α × Buffer α) :=
  if r.head = r.tail then none else some (r.slots r.head, { r with head := next n r.head })

/-- The first slot from `i` on that holds a `p`. -/
def Buffer.scan (n : Nat) (r : Buffer α) (p : α → Bool) : Nat → Nat → Option Nat
  | _, 0 => none
  | i, fuel + 1 =>
    if i = r.tail then none
    else if p (r.slots i) then some i
    else r.scan n p (next n i) fuel

/-- The slots after `j` moved down by one. -/
def shift (n tail : Nat) : (Nat → α) → Nat → Nat → Nat → α
  | slots, _, 0 => slots
  | slots, j, fuel + 1 =>
    if next n j = tail then slots
    else shift n tail (Function.update slots j (slots (next n j))) (next n j) fuel

/-- The oldest item with `p`, taken out of the middle. -/
def Buffer.take (n : Nat) (r : Buffer α) (p : α → Bool) : Option (α × Buffer α) :=
  match r.scan n p r.head n with
  | none => none
  | some i => some (r.slots i, ⟨shift n r.tail r.slots i n, r.head, (r.tail + n - 1) % n⟩)

-- ---------------------------------------------------------------------------
-- Positions
-- ---------------------------------------------------------------------------

theorem pos_lt (hn : 0 < n) : pos n h a < n := Nat.mod_lt _ hn

theorem pos_zero (h : i < n) : pos n i 0 = i := Nat.mod_eq_of_lt h

theorem next_pos : next n (pos n h a) = pos n h (a + 1) := by
  unfold next pos
  rw [Nat.mod_add_mod, Nat.add_assoc]

theorem pos_inj (ha : a < n) (hb : b < n) (h : pos n i a = pos n i b) : a = b :=
  (Nat.ModEq.add_left_cancel' i h).eq_of_lt_of_lt ha hb

theorem Buffer.Wf.count_lt (h : r.Wf n) : r.count n < n :=
  Nat.mod_lt _ (Nat.zero_lt_of_lt h.head)

theorem Buffer.Wf.tail_pos (h : r.Wf n) : r.tail = pos n r.head (r.count n) := by
  have hh := h.head
  have hsum : r.head + (r.tail + n - r.head) = r.tail + n := by omega
  rw [pos, count, Nat.add_mod_mod, hsum, Nat.add_mod_right, Nat.mod_eq_of_lt h.tail]

/-- A position is the tail only past the last item. -/
theorem Buffer.Wf.pos_tail (h : r.Wf n) (ha : a ≤ r.count n) :
    pos n r.head a = r.tail ↔ a = r.count n := by
  rw [h.tail_pos]
  refine ⟨fun he => ?_, fun he => he ▸ rfl⟩
  exact pos_inj (Nat.lt_of_le_of_lt ha h.count_lt) h.count_lt he

@[simp] theorem Buffer.length_items : (r.items n).length = r.count n := by simp [items]

theorem Buffer.getElem_items (ha : a < (r.items n).length) :
    (r.items n)[a] = r.slots (pos n r.head a) := by
  simp [items]

/-- A ring with its tail at a position holds that many items. -/
theorem count_of_pos {slots : Nat → α} (hh : h < n) (hc : c < n) :
    Buffer.count n ⟨slots, h, pos n h c⟩ = c := by
  have hw : Buffer.Wf n (⟨slots, h, pos n h c⟩ : Buffer α) := ⟨hh, pos_lt (Nat.zero_lt_of_lt hh)⟩
  exact pos_inj hw.count_lt hc hw.tail_pos.symm

-- ---------------------------------------------------------------------------
-- Push and pop
-- ---------------------------------------------------------------------------

theorem Buffer.Wf.push_none (h : r.Wf n) : r.push n x = none ↔ (r.items n).length + 1 = n := by
  have hc := h.count_lt
  have hz : r.head = pos n r.head 0 := (pos_zero h.head).symm
  simp only [Buffer.push, ite_eq_left_iff, reduceCtorEq, imp_false, not_not, length_items]
  rw [h.tail_pos, next_pos]
  constructor
  · intro he
    by_contra hne
    have hlt : r.count n + 1 < n := by omega
    exact Nat.succ_ne_zero _ (pos_inj hlt (Nat.zero_lt_of_lt hc) (he.trans hz))
  · intro he
    rw [he, pos, Nat.add_mod_right]
    exact Nat.mod_eq_of_lt h.head

theorem Buffer.Wf.push (h : r.Wf n) (hp : r.push n x = some r') :
    r'.Wf n ∧ r'.items n = r.items n ++ [x] := by
  have hc := h.count_lt
  have hroom : r.count n + 1 < n := by
    have hne : ¬(r.items n).length + 1 = n := fun he => by
      rw [h.push_none.2 he] at hp
      cases hp
    rw [length_items] at hne
    omega
  simp only [Buffer.push, Option.ite_none_left_eq_some, Option.some.injEq] at hp
  obtain ⟨-, rfl⟩ := hp
  have htail := h.tail_pos
  have hcount : Buffer.count n ⟨Function.update r.slots r.tail x, r.head, next n r.tail⟩ =
      r.count n + 1 := by
    rw [htail, next_pos]
    exact count_of_pos h.head hroom
  refine ⟨⟨h.head, Nat.mod_lt _ (Nat.zero_lt_of_lt hc)⟩, ?_⟩
  rw [items, hcount, List.range_succ, List.map_append, List.map_singleton]
  congr 1
  · refine List.map_congr_left fun a ha => Function.update_of_ne ?_ _ _
    have hlt := List.mem_range.1 ha
    exact (h.pos_tail hlt.le).not.2 hlt.ne
  · rw [← htail]
    exact congrArg (fun y => [y]) (Function.update_self ..)

theorem Buffer.Wf.pop_none (h : r.Wf n) : r.pop n = none ↔ r.items n = [] := by
  have hz := h.pos_tail (Nat.zero_le _)
  rw [pos_zero h.head] at hz
  simp only [Buffer.pop, ite_eq_left_iff, reduceCtorEq, imp_false, not_not]
  rw [hz, ← List.length_eq_zero_iff, length_items]
  exact eq_comm

theorem Buffer.Wf.pop (h : r.Wf n) (hp : r.pop n = some (x, r')) :
    r'.Wf n ∧ r.items n = x :: r'.items n := by
  have hc := h.count_lt
  simp only [Buffer.pop, Option.ite_none_left_eq_some, Option.some.injEq, Prod.mk.injEq] at hp
  obtain ⟨hne, rfl, rfl⟩ := hp
  have hpos : r.count n ≠ 0 := by
    intro h0
    have hz := (h.pos_tail (Nat.zero_le _)).2 h0.symm
    rw [pos_zero h.head] at hz
    exact hne hz
  obtain ⟨c, hcc⟩ := Nat.exists_eq_succ_of_ne_zero hpos
  have hnext : next n r.head < n := Nat.mod_lt _ (Nat.zero_lt_of_lt hc)
  -- One place on from the new head is two from the old one.
  have hshift (a : Nat) : pos n (next n r.head) a = pos n r.head (a + 1) := by
    rw [pos, next, pos, Nat.mod_add_mod]
    congr 1
    omega
  have hcount : Buffer.count n { r with head := next n r.head } = c := by
    have htail : r.tail = pos n (next n r.head) c := by
      rw [hshift, ← Nat.succ_eq_add_one, ← hcc]
      exact h.tail_pos
    rw [htail]
    exact count_of_pos hnext (by omega)
  refine ⟨⟨hnext, h.tail⟩, ?_⟩
  rw [items, hcc, List.range_succ_eq_map, List.map_cons, List.map_map, pos_zero h.head, items,
    hcount]
  congr 1
  refine List.map_congr_left fun a _ => ?_
  exact congrArg r.slots (hshift a).symm

-- ---------------------------------------------------------------------------
-- Taking from the middle
-- ---------------------------------------------------------------------------

theorem Buffer.Wf.scan_none (h : r.Wf n) (hf : r.count n ≤ a + fuel) (ha : a ≤ r.count n)
    (hs : r.scan n p (pos n r.head a) fuel = none) :
    ∀ b, a ≤ b → b < r.count n → p (r.slots (pos n r.head b)) = false := by
  induction fuel generalizing a with
  | zero =>
    intro b hab hb
    omega
  | succ fuel ih =>
    intro b hab hb
    have hne : pos n r.head a ≠ r.tail := (h.pos_tail ha).not.2 (by omega)
    simp only [scan, if_neg hne] at hs
    split at hs
    · cases hs
    · rename_i hpa
      rcases Nat.eq_or_lt_of_le hab with rfl | hlt
      · exact Bool.eq_false_iff.2 hpa
      · rw [next_pos] at hs
        exact ih (by omega) (by omega) hs b hlt hb

theorem Buffer.Wf.scan_some (h : r.Wf n) (ha : a ≤ r.count n)
    (hs : r.scan n p (pos n r.head a) fuel = some i) :
    ∃ b, a ≤ b ∧ b < r.count n ∧ i = pos n r.head b ∧ p (r.slots i) = true ∧
      ∀ c, a ≤ c → c < b → p (r.slots (pos n r.head c)) = false := by
  induction fuel generalizing a with
  | zero => cases hs
  | succ fuel ih =>
    simp only [scan] at hs
    split at hs
    · cases hs
    rename_i hne
    have hlt : a < r.count n := Nat.lt_of_le_of_ne ha ((h.pos_tail ha).not.1 hne)
    split at hs
    · rename_i hpa
      obtain rfl := Option.some.inj hs
      exact ⟨a, Nat.le_refl _, hlt, rfl, hpa, fun c hc hc' => absurd hc' (by omega)⟩
    · rename_i hpa
      rw [next_pos] at hs
      obtain ⟨b, hab, hb, hi, hpb, hfirst⟩ := ih hlt hs
      refine ⟨b, by omega, hb, hi, hpb, fun c hc hcb => ?_⟩
      rcases Nat.eq_or_lt_of_le hc with rfl | hac
      · exact Bool.eq_false_iff.2 hpa
      · exact hfirst c hac hcb

/-- What the loop does to each position before `c`, where the tail is. -/
theorem shift_pos {slots : Nat → α} (hc : c < n) (hj : j < c) (hf : c ≤ j + fuel) (hb : b < n) :
    shift n (pos n h c) slots (pos n h j) fuel (pos n h b) =
      if j ≤ b ∧ b + 1 < c then slots (pos n h (b + 1)) else slots (pos n h b) := by
  induction fuel generalizing j slots with
  | zero => omega
  | succ fuel ih =>
    rw [shift, next_pos]
    split
    · rename_i heq
      obtain rfl : j + 1 = c := pos_inj (by omega) hc heq
      rw [if_neg (by omega)]
    · rename_i hne
      have hlt : j + 1 < c := Nat.lt_of_le_of_ne hj fun he => hne (he ▸ rfl)
      rw [ih hlt (by omega)]
      rcases Nat.lt_trichotomy b j with hbj | rfl | hbj
      · have hother : pos n h b ≠ pos n h j := fun he => by
          have := pos_inj hb (by omega) he
          omega
        rw [if_neg (by omega), if_neg (by omega), Function.update_of_ne hother]
      · rw [if_neg (by omega), if_pos ⟨Nat.le_refl _, hlt⟩, Function.update_self]
      · have hother : pos n h b ≠ pos n h j := fun he => by
          have := pos_inj hb (by omega) he
          omega
        by_cases hbc : b + 1 < c
        · have hother' : pos n h (b + 1) ≠ pos n h j := fun he => by
            have := pos_inj (by omega) (by omega) he
            omega
          rw [if_pos ⟨hbj, hbc⟩, if_pos ⟨hbj.le, hbc⟩, Function.update_of_ne hother']
        · rw [if_neg fun hh => hbc hh.2, if_neg fun hh => hbc hh.2, Function.update_of_ne hother]

theorem Buffer.Wf.take_none (h : r.Wf n) (ht : r.take n p = none) : ∀ x ∈ r.items n, p x = false := by
  unfold Buffer.take at ht
  split at ht
  · rename_i hs
    have hfuel : r.count n ≤ 0 + n := by
      rw [Nat.zero_add]
      exact h.count_lt.le
    have hnone := h.scan_none hfuel (Nat.zero_le _) ((pos_zero h.head).symm ▸ hs)
    intro x hx
    obtain ⟨a, ha, rfl⟩ := List.mem_map.1 hx
    exact hnone a (Nat.zero_le _) (List.mem_range.1 ha)
  · cases ht

theorem Buffer.Wf.take (h : r.Wf n) (ht : r.take n p = some (x, r')) :
    r'.Wf n ∧ (r.items n).find? p = some x ∧ r'.items n = (r.items n).eraseP p := by
  have hc := h.count_lt
  have hn : 0 < n := Nat.zero_lt_of_lt hc
  unfold Buffer.take at ht
  split at ht
  · cases ht
  rename_i i hs
  obtain ⟨rfl, rfl⟩ := Prod.mk.inj (Option.some.inj ht)
  have hs0 : r.scan n p (pos n r.head 0) n = some i := by rwa [pos_zero h.head]
  obtain ⟨b, -, hb, rfl, hpb, hfirst⟩ := h.scan_some (Nat.zero_le _) hs0
  have hlen : b < (r.items n).length := length_items.symm ▸ hb
  have hbefore : ∀ j (hj : j < b), ¬ p ((r.items n).get ⟨j, hj.trans hlen⟩) = true := by
    intro j hj
    rw [List.get_eq_getElem, getElem_items, hfirst j (Nat.zero_le _) hj]
    exact Bool.false_ne_true
  obtain ⟨c, hcc⟩ := Nat.exists_eq_succ_of_ne_zero (Nat.ne_zero_of_lt hb)
  have htail : (r.tail + n - 1) % n = pos n r.head c := by
    rw [h.tail_pos, hcc, pos, pos, Nat.add_sub_assoc hn, Nat.mod_add_mod]
    have hsum : r.head + c.succ + (n - 1) = r.head + c + n := by omega
    rw [hsum, Nat.add_mod_right]
  refine ⟨⟨h.head, Nat.mod_lt _ hn⟩, ?_, ?_⟩
  · refine List.find?_eq_some_iff_getElem.2 ⟨hpb, b, hlen, getElem_items _, fun j hj => ?_⟩
    simpa using hbefore j hj
  · have hidx : (r.items n).findIdx? p = some b := by
      refine List.findIdx?_eq_some_iff_getElem.2 ⟨hlen, ?_, hbefore⟩
      rwa [getElem_items]
    rw [List.eraseP_eq_eraseIdx, hidx]
    have hcount : Buffer.count n ⟨shift n r.tail r.slots (pos n r.head b) n, r.head,
        (r.tail + n - 1) % n⟩ = c := by
      rw [htail]
      exact count_of_pos h.head (by omega)
    refine List.ext_getElem ?_ fun a ha ha' => ?_
    · rw [length_items, hcount, List.length_eraseIdx_of_lt hlen, length_items, hcc]
      rfl
    · rw [length_items, hcount] at ha
      have hshift : shift n r.tail r.slots (pos n r.head b) n (pos n r.head a) =
          if b ≤ a ∧ a + 1 < r.count n then r.slots (pos n r.head (a + 1))
          else r.slots (pos n r.head a) := by
        rw [h.tail_pos]
        exact shift_pos hc hb (by omega) (by omega)
      rw [getElem_items]
      refine hshift.trans ?_
      simp only [List.getElem_eraseIdx, getElem_items]
      by_cases hab : a < b
      · rw [if_neg (by omega), dif_pos hab]
      · rw [if_pos (by omega), dif_neg hab]

end Rings
