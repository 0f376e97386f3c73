import Mathlib.Algebra.Order.Group.Nat
import Mathlib.Data.List.Pairwise
import WineGlass.Lib.Word

/-!
# Little-endian fields of a byte sequence

A field is a run of bytes holding a word. Fields that are apart are read and
written independently; `update` rewrites each field of a list from its old
value, and a sequence is determined by the words of some fields and the bytes
outside them.
-/

namespace Fields

open Word

structure Extent where
  start : Nat
  width : Nat
  deriving DecidableEq, Repr

def Extent.Has (f : Extent) (i : Nat) : Prop := f.start ≤ i ∧ i < f.start + f.width

instance : Decidable (Extent.Has f i) := inferInstanceAs (Decidable (_ ∧ _))

def Extent.Apart (f g : Extent) : Prop :=
  f.start + f.width ≤ g.start ∨ g.start + g.width ≤ f.start

instance : Decidable (Extent.Apart f g) := inferInstanceAs (Decidable (_ ∨ _))

def get (m : Nat → BitVec 8) (f : Extent) : Nat := word (fun i => m (f.start + i)) f.width

def set (m : Nat → BitVec 8) (f : Extent) (v : Nat) : Nat → BitVec 8 := fun i =>
  if f.Has i then byteAt v (i - f.start) else m i

/-- The bytes of the field cleared. -/
def zero (m : Nat → BitVec 8) (f : Extent) : Nat → BitVec 8 := fun i => if f.Has i then 0 else m i

/-- Each field gets the value `g` makes of its old one. -/
def update (g : Extent → Nat → Nat) (m : Nat → BitVec 8) (fs : List Extent) : Nat → BitVec 8 :=
  fs.foldl (fun m f => set m f (g f (get m f))) m

-- ---------------------------------------------------------------------------
-- One field
-- ---------------------------------------------------------------------------

theorem Extent.Apart.symm (h : Extent.Apart f g) : g.Apart f := Or.symm h

theorem Extent.Apart.not_has (h : Extent.Apart f g) (hg : g.Has i) : ¬ f.Has i := by
  rintro hf
  unfold Extent.Has at hf hg
  rcases h with h | h <;> omega

theorem get_lt : get m f < 256 ^ f.width := word_lt

/-- A field is its low part and its high part. -/
theorem get_add : get m ⟨a, n + k⟩ = get m ⟨a, n⟩ + 256 ^ n * get m ⟨a + n, k⟩ := by
  simp only [get, word_add, Nat.add_assoc]

theorem zero_has (m : Nat → BitVec 8) (h : Extent.Has f i) : zero m f i = 0 := if_pos h

theorem zero_not_has (m : Nat → BitVec 8) (h : ¬ Extent.Has f i) : zero m f i = m i := if_neg h

theorem zero_empty (m : Nat → BitVec 8) (a : Nat) : zero m ⟨a, 0⟩ = m := by
  funext i
  refine zero_not_has m fun h => ?_
  exact absurd (Nat.lt_of_le_of_lt h.1 h.2) (Nat.lt_irrefl a)

/-- Two fields one after the other are cleared as one. -/
theorem zero_append (m : Nat → BitVec 8) (a n k : Nat) :
    zero (zero m ⟨a, n⟩) ⟨a + n, k⟩ = zero m ⟨a, n + k⟩ := by
  funext i
  by_cases hin : Extent.Has ⟨a, n + k⟩ i
  · rw [zero_has _ hin]
    by_cases hright : Extent.Has ⟨a + n, k⟩ i
    · exact zero_has _ hright
    · rw [zero_not_has _ hright]
      unfold Extent.Has at hin hright
      exact zero_has m ⟨hin.1, by dsimp only at *; omega⟩
  · unfold Extent.Has at hin
    dsimp only at hin
    rw [zero_not_has, zero_not_has, zero_not_has]
    all_goals
      unfold Extent.Has
      dsimp only
      omega

theorem get_congr (h : ∀ i, Extent.Has f i → m i = m' i) : get m f = get m' f :=
  word_congr fun _ hi => h _ ⟨Nat.le_add_right .., Nat.add_lt_add_left hi _⟩

theorem set_inside (h : Extent.Has f i) : set m f v i = byteAt v (i - f.start) := if_pos h

theorem set_outside (h : ¬ Extent.Has f i) : set m f v i = m i := if_neg h

theorem get_set : get (set m f v) f = v % 256 ^ f.width := by
  rw [← word_byteAt, get]
  refine word_congr fun i hi => ?_
  rw [set_inside ⟨Nat.le_add_right .., Nat.add_lt_add_left hi _⟩, Nat.add_sub_cancel_left]

theorem get_set_apart (h : Extent.Apart f g) : get (set m f v) g = get m g :=
  get_congr fun _ hi => set_outside (h.not_has hi)

/-- The byte of a field is a byte of its word. -/
theorem byteAt_get (h : Extent.Has f i) : byteAt (get m f) (i - f.start) = m i := by
  obtain ⟨hle, hlt⟩ := h
  rw [get, byteAt_word (Nat.sub_lt_left_of_lt_add hle hlt), Nat.add_sub_cancel' hle]

theorem get_eq_iff (hv : v < 256 ^ f.width) :
    get m f = v ↔ ∀ i, Extent.Has f i → m i = byteAt v (i - f.start) := by
  constructor
  · rintro rfl i hi
    exact (byteAt_get hi).symm
  · intro h
    have hset : get m f = get (set m f v) f :=
      get_congr fun i hi => (h i hi).trans (set_inside hi).symm
    rw [hset, get_set, Nat.mod_eq_of_lt hv]

/-- The words of some fields and the bytes outside them say everything. -/
theorem eq_of_fields (fs : List Extent) (hin : ∀ f ∈ fs, get m f = get m' f)
    (hout : ∀ i, (∀ f ∈ fs, ¬ Extent.Has f i) → m i = m' i) : m = m' := by
  funext i
  by_cases h : ∃ f ∈ fs, Extent.Has f i
  · obtain ⟨f, hf, hi⟩ := h
    have hw : byteAt (get m f) (i - f.start) = byteAt (get m' f) (i - f.start) := by rw [hin f hf]
    rwa [byteAt_get hi, byteAt_get hi] at hw
  · exact hout i fun f hf hi => h ⟨f, hf, hi⟩

-- ---------------------------------------------------------------------------
-- Lists of fields
-- ---------------------------------------------------------------------------

theorem update_outside (h : ∀ f ∈ fs, ¬ Extent.Has f i) : update g m fs i = m i := by
  induction fs generalizing m with
  | nil => rfl
  | cons f fs ih =>
    obtain ⟨hf, hfs⟩ := List.forall_mem_cons.1 h
    exact (ih hfs).trans (set_outside hf)

theorem get_update_apart (h : ∀ f ∈ fs, Extent.Apart f e) : get (update g m fs) e = get m e :=
  get_congr fun _ hi => update_outside fun f hf => (h f hf).not_has hi

theorem get_update (hp : fs.Pairwise Extent.Apart) (hf : f ∈ fs) :
    get (update g m fs) f = g f (get m f) % 256 ^ f.width := by
  induction fs generalizing m with
  | nil => cases hf
  | cons e fs ih =>
    obtain ⟨he, hp⟩ := List.pairwise_cons.1 hp
    rcases List.mem_cons.1 hf with rfl | hf
    · exact (get_update_apart fun e hmem => (he e hmem).symm).trans get_set
    · exact (ih hp hf).trans (by rw [get_set_apart (he f hf)])

/-- Words written one after another. -/
def setAll (m : Nat → BitVec 8) (ws : List (Extent × Nat)) : Nat → BitVec 8 :=
  ws.foldl (fun m w => set m w.1 w.2) m

theorem get_setAll_apart (h : ∀ w ∈ ws, Extent.Apart w.1 e) : get (setAll m ws) e = get m e := by
  induction ws generalizing m with
  | nil => rfl
  | cons w ws ih =>
    obtain ⟨hw, hws⟩ := List.forall_mem_cons.1 h
    exact (ih hws).trans (get_set_apart hw)

theorem get_setAll (hp : ws.Pairwise fun a b => Extent.Apart a.1 b.1) (hw : w ∈ ws) :
    get (setAll m ws) w.1 = w.2 % 256 ^ w.1.width := by
  induction ws generalizing m with
  | nil => cases hw
  | cons e ws ih =>
    obtain ⟨he, hp⟩ := List.pairwise_cons.1 hp
    rcases List.mem_cons.1 hw with rfl | hw
    · exact (get_setAll_apart fun x hx => (he x hx).symm).trans get_set
    · exact ih hp hw

/-- A byte is the last writer's, or what it was. -/
theorem setAll_last (m : Nat → BitVec 8) (ws : List (Extent × Nat)) (i : Nat) :
    (setAll m ws i = m i ∧ ∀ w ∈ ws, ¬ w.1.Has i) ∨
    ∃ l w r, ws = l ++ w :: r ∧ w.1.Has i ∧ (∀ x ∈ r, ¬ x.1.Has i) ∧
      setAll m ws i = byteAt w.2 (i - w.1.start) := by
  induction ws generalizing m with
  | nil => exact .inl ⟨rfl, List.forall_mem_nil _⟩
  | cons w ws ih =>
    obtain ⟨heq, hno⟩ | ⟨l, x, r, rfl, hx, hr, heq⟩ := ih (set m w.1 w.2)
    · by_cases hi : w.1.Has i
      · exact .inr ⟨[], w, ws, rfl, hi, hno, heq.trans (set_inside hi)⟩
      · exact .inl ⟨heq.trans (set_outside hi), List.forall_mem_cons.2 ⟨hi, hno⟩⟩
    · exact .inr ⟨w :: l, x, r, rfl, hx, hr, heq⟩

/-- The last writer settles the byte. -/
theorem setAll_of_last (hi : Extent.Has w.1 i) (hr : ∀ x ∈ r, ¬ x.1.Has i) :
    setAll m (l ++ w :: r) i = byteAt w.2 (i - w.1.start) := by
  have hrest : setAll (set (setAll m l) w.1 w.2) r i = set (setAll m l) w.1 w.2 i := by
    obtain ⟨heq, -⟩ | ⟨l', x, r', rfl, hx, -, -⟩ := setAll_last (set (setAll m l) w.1 w.2) r i
    · exact heq
    · exact absurd hx (hr x (by simp))
  rw [setAll, List.foldl_append, List.foldl_cons]
  exact hrest.trans (set_inside hi)

/-- A byte after the writes depends on no other before. -/
theorem setAll_congr (h : m i = m' i) : setAll m ws i = setAll m' ws i := by
  induction ws generalizing m m' with
  | nil => exact h
  | cons w ws ih =>
    have hset : set m w.1 w.2 i = set m' w.1 w.2 i := by
      unfold set
      rw [h]
    exact ih hset

-- ---------------------------------------------------------------------------
-- Copies
-- ---------------------------------------------------------------------------

/-- The first `n` bytes of `b`, at `p`. -/
def copy (m : Nat → BitVec 8) (p : Nat) (b : Nat → BitVec 8) (n : Nat) : Nat → BitVec 8 :=
  set m ⟨p, n⟩ (get b ⟨0, n⟩)

theorem copy_inside (h : i < n) : copy m p b n (p + i) = b i := by
  have hin : Extent.Has ⟨p, n⟩ (p + i) := ⟨Nat.le_add_right .., Nat.add_lt_add_left h p⟩
  have hb : Extent.Has ⟨0, n⟩ i := ⟨Nat.zero_le i, (Nat.zero_add n).symm ▸ h⟩
  rw [copy, set_inside hin, Nat.add_sub_cancel_left]
  exact byteAt_get hb

theorem get_copy (h : k + w ≤ n) : get (copy m p b n) ⟨p + k, w⟩ = get b ⟨k, w⟩ := by
  refine word_congr fun i hi => ?_
  rw [Nat.add_assoc]
  exact copy_inside (Nat.lt_of_lt_of_le (Nat.add_lt_add_left hi k) h)

theorem set_get : set m f (get m f) = m := by
  funext i
  by_cases h : f.Has i
  · rw [set_inside h, byteAt_get h]
  · rw [set_outside h]

end Fields
