import Mathlib.Algebra.Ring.Int.Defs
import Mathlib.Algebra.Ring.Nat
import Mathlib.Data.List.Forall2
import Mathlib.Data.List.Pairwise
import Mathlib.Data.List.Perm.Basic
import Mathlib.Data.List.Perm.Subperm

/-!
# Spans of addresses

A span is a start and a length. `Apart` spans share no address; a family of
spans is kept apart by the four things an allocator does to it: it adds a span
past all others, splits one, narrows one, or reorders them.
-/

namespace Spans

structure Span where
  start : Nat
  len : Nat
  deriving DecidableEq, Repr

def Span.stop (a : Span) : Nat := a.start + a.len

def Apart (a b : Span) : Prop := a.stop ≤ b.start ∨ b.stop ≤ a.start

def Within (a b : Span) : Prop := b.start ≤ a.start ∧ a.stop ≤ b.stop

instance : Decidable (Apart a b) := inferInstanceAs (Decidable (_ ∨ _))

theorem Apart.symm (h : Apart a b) : Apart b a := Or.symm h

instance : Std.Symm Apart := ⟨fun _ _ => Apart.symm⟩

theorem Within.refl (a : Span) : Within a a := ⟨Nat.le_refl _, Nat.le_refl _⟩

theorem Within.trans (h : Within a b) (h' : Within b c) : Within a c :=
  ⟨Nat.le_trans h'.1 h.1, Nat.le_trans h.2 h'.2⟩

theorem Apart.within (h : Apart b c) (hw : Within a b) : Apart a c := by
  rcases h with h | h
  · exact .inl (Nat.le_trans hw.2 h)
  · exact .inr (Nat.le_trans h hw.1)

-- ---------------------------------------------------------------------------
-- Families of spans
-- ---------------------------------------------------------------------------

/-- No two spans of the family meet. -/
def AllApart (l : List Span) : Prop := l.Pairwise Apart

instance (l : List Span) : Decidable (AllApart l) := inferInstanceAs (Decidable (l.Pairwise Apart))

theorem AllApart.perm (h : AllApart l) (hp : l.Perm l') : AllApart l' :=
  (hp.pairwise_iff (fun hab => Apart.symm hab)).1 h

theorem AllApart.nil : AllApart [] := List.Pairwise.nil

theorem AllApart.tail (h : AllApart (a :: l)) : AllApart l := (List.pairwise_cons.1 h).2

theorem AllApart.left (h : AllApart (l ++ l')) : AllApart l := (List.pairwise_append.1 h).1

/-- A span past the end of all others joins them. -/
theorem AllApart.beyond (h : AllApart l) (hb : ∀ b ∈ l, b.stop ≤ a.start) : AllApart (a :: l) :=
  List.pairwise_cons.2 ⟨fun b hm => .inr (hb b hm), h⟩

theorem AllApart.narrow (h : AllApart (b :: l)) (hw : Within a b) : AllApart (a :: l) := by
  obtain ⟨hb, hl⟩ := List.pairwise_cons.1 h
  exact List.pairwise_cons.2 ⟨fun c hc => (hb c hc).within hw, hl⟩

theorem AllApart.split (h : AllApart (b :: l)) (ha : Apart a a') (hw : Within a b)
    (hw' : Within a' b) : AllApart (a :: a' :: l) := by
  refine List.pairwise_cons.2 ⟨fun c hc => ?_, h.narrow hw'⟩
  rcases List.mem_cons.1 hc with rfl | hc
  · exact ha
  · exact ((List.pairwise_cons.1 h).1 c hc).within hw

theorem covered_mem {R : α → β → Prop} (h : List.Forall₂ R l l') (ha : a ∈ l) : ∃ b ∈ l', R a b := by
  induction h with
  | nil => cases ha
  | cons hab _ ih =>
    cases ha with
    | head => exact ⟨_, List.mem_cons_self, hab⟩
    | tail _ ha =>
      obtain ⟨b, hb, hr⟩ := ih ha
      exact ⟨b, List.mem_cons_of_mem _ hb, hr⟩

theorem AllApart.subperm (h : AllApart l') (hl : l.Subperm l') : AllApart l := by
  obtain ⟨m, hperm, hsub⟩ := hl
  exact AllApart.perm (List.Pairwise.sublist hsub h) hperm

/-- Spans within others that are apart. -/
theorem AllApart.covered (h : AllApart l') (hw : List.Forall₂ Within l l') : AllApart l := by
  induction hw with
  | nil => exact h
  | cons hab hl ih =>
    obtain ⟨hb, h⟩ := List.pairwise_cons.1 h
    refine List.pairwise_cons.2 ⟨fun c hc => ?_, ih h⟩
    obtain ⟨d, hd, hcd⟩ := covered_mem hl hc
    exact (((hb d hd).within hab).symm.within hcd).symm

/-- Spans with the same start are the same one. -/
theorem AllApart.eq_of_start (h : AllApart l) (ha : a ∈ l) (hb : b ∈ l) (hstart : a.start = b.start)
    (hla : 0 < a.len) (hlb : 0 < b.len) : a = b := by
  by_contra hne
  have hapart : Apart a b := List.Pairwise.forall h ha hb hne
  unfold Apart Span.stop at hapart
  omega

/-- Spans that are apart have room for all of them in what they are within. -/
theorem AllApart.total_le (h : AllApart l) (hw : ∀ a ∈ l, Within a r) :
    (l.map Span.len).sum ≤ r.len := by
  induction hn : l.length using Nat.strongRecOn generalizing l r with
  | _ n ih =>
    subst hn
    cases l with
    | nil => exact Nat.zero_le _
    | cons a l =>
      obtain ⟨ha, hl⟩ := List.pairwise_cons.1 h
      obtain ⟨hlow, hhigh⟩ := hw a List.mem_cons_self
      -- The others lie on one side of `a` or the other.
      let low : Span → Bool := fun b => b.stop ≤ a.start
      have hbelow : ∀ b ∈ l.filter low, Within b ⟨r.start, a.start - r.start⟩ := by
        intro b hb
        obtain ⟨hb, hside⟩ := List.mem_filter.1 hb
        refine ⟨(hw b (List.mem_cons_of_mem _ hb)).1, ?_⟩
        exact Nat.le_trans (of_decide_eq_true hside) (Nat.le_of_eq (Nat.add_sub_cancel' hlow).symm)
      have habove : ∀ b ∈ l.filter (!low ·), Within b ⟨a.stop, r.stop - a.stop⟩ := by
        intro b hb
        obtain ⟨hb, hside⟩ := List.mem_filter.1 hb
        refine ⟨(ha b hb).resolve_right (by simpa [low] using hside), ?_⟩
        exact Nat.le_trans (hw b (List.mem_cons_of_mem _ hb)).2
          (Nat.le_of_eq (Nat.add_sub_cancel' hhigh).symm)
      have hlt : ∀ p : Span → Bool, (l.filter p).length < (a :: l).length := fun p =>
        Nat.lt_succ_of_le (List.length_filter_le ..)
      have hlower := ih _ (hlt low) (hl.filter _) hbelow rfl
      have hupper := ih _ (hlt (!low ·)) (hl.filter _) habove rfl
      have hsum := ((List.filter_append_perm low l).map Span.len).sum_nat
      rw [List.map_append, List.sum_append_nat] at hsum
      rw [List.map_cons, List.sum_cons, ← hsum]
      unfold Span.stop at *
      dsimp only at hlower hupper
      omega

-- ---------------------------------------------------------------------------
-- Removal of the first that fits
-- ---------------------------------------------------------------------------

theorem eraseP_perm {p : α → Bool} {l : List α} (ha : a ∈ l) (hp : p a = true) :
    ∃ b, p b = true ∧ l.Perm (b :: l.eraseP p) := by
  obtain ⟨b, l₁, l₂, -, hb, hl, he⟩ := List.exists_of_eraseP ha hp
  refine ⟨b, hb, ?_⟩
  rw [he, hl]
  exact List.perm_middle

/-- What is not removed is still among the others. -/
theorem subperm_eraseP {p : α → Bool} {l l' : List α} (h : l.Subperm l') (hl : ∀ a ∈ l, ¬ p a = true) :
    l.Subperm (l'.eraseP p) := by
  by_cases hex : ∃ a ∈ l', p a = true
  · obtain ⟨a, ha, hpa⟩ := hex
    obtain ⟨b, hb, hperm⟩ := eraseP_perm ha hpa
    classical
    have herase := (h.trans hperm.subperm).erase b
    rwa [List.erase_of_not_mem fun hmem => hl b hmem hb, List.erase_cons_head] at herase
  · rw [List.eraseP_of_forall_not fun a ha hpa => hex ⟨a, ha, hpa⟩]
    exact h

theorem filter_eraseP {p f : α → Bool} (hf : ∀ a, p a = true → f a = true) (l : List α) :
    (l.eraseP p).filter f = (l.filter f).eraseP p := by
  rw [List.eraseP_filter]
  refine congrArg (fun q : α → Bool => (l.eraseP q).filter f) (funext fun a => ?_)
  cases ha : p a with
  | true => exact (hf a ha).symm
  | false => rfl

theorem filter_eraseP_of_not {p f : α → Bool} (hf : ∀ a, p a = true → f a = false) (l : List α) :
    (l.eraseP p).filter f = l.filter f := by
  induction l with
  | nil => rfl
  | cons a l ih =>
    rw [List.eraseP_cons]
    cases ha : p a with
    | true => simp [hf a ha]
    | false =>
      rw [cond_false, List.filter_cons, List.filter_cons, ih]

theorem forall₂_eraseP {R : α → β → Prop} {p : α → Bool} {q : β → Bool}
    (hR : ∀ a b, R a b → p a = q b) (h : List.Forall₂ R l l') :
    List.Forall₂ R (l.eraseP p) (l'.eraseP q) := by
  induction h with
  | nil => exact .nil
  | @cons a b l l' hab hl ih =>
    rw [List.eraseP_cons, List.eraseP_cons, hR a b hab]
    cases q b with
    | true => exact hl
    | false => exact .cons hab ih

-- ---------------------------------------------------------------------------
-- Removal by moving the last element down
-- ---------------------------------------------------------------------------

/-- `a[i] = a[--n]`: the last element takes the place of the removed one. -/
def swapRemove (l : List α) (i : Nat) : List α :=
  match l.getLast? with
  | none => []
  | some x => (l.set i x).dropLast

theorem swapRemove_perm {l : List α} (h : i < l.length) : (l[i] :: swapRemove l i).Perm l := by
  rcases List.eq_nil_or_concat l with rfl | ⟨m, x, rfl⟩
  · cases h
  simp only [List.concat_eq_append, List.length_append, List.length_singleton] at h
  simp only [swapRemove, List.concat_eq_append, List.getLast?_append, List.getLast?_singleton,
    Option.some_or]
  rcases Nat.lt_succ_iff_lt_or_eq.1 h with hi | rfl
  · rw [List.set_append_left _ _ hi, List.dropLast_concat, List.getElem_append_left hi]
    have hset : (m.set i x).Perm (x :: m.eraseIdx i) := List.set_perm_cons_eraseIdx hi x
    calc m[i] :: m.set i x
      _ |>.Perm (m[i] :: x :: m.eraseIdx i) := hset.cons _
      _ |>.Perm (x :: m[i] :: m.eraseIdx i) := .swap ..
      _ |>.Perm (x :: m) := (List.getElem_cons_eraseIdx_perm hi).cons x
      _ |>.Perm (m ++ [x]) := (List.perm_append_singleton x m).symm
  · simp only [List.set_append_right _ _ (Nat.le_refl _), Nat.sub_self, List.set_cons_zero,
      List.dropLast_concat, List.getElem_append_right (Nat.le_refl _), List.getElem_cons_zero]
    exact (List.perm_append_singleton x m).symm

end Spans
