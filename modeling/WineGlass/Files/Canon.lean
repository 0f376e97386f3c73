import WineGlass.Files.Path

/-!
# Canonical paths

`wg_path_canon_a` cuts a path into its components, keeps them on a stack of 64 and joins
what is there into a buffer of 1040 characters.
-/

namespace WineGlass.Canon

open Paths Thunks Files

-- ---------------------------------------------------------------------------
-- The code
-- ---------------------------------------------------------------------------

/-- What `strtok_r` finds between separators. -/
def components (s : Name) : List Name := (s.splitOnP isSep).filter fun c => c ≠ []

def lead (s : Name) : Bool := s.head?.any isSep

def isDrive (c : Name) : Bool := c.getLast? = some colon

/-- Without the component before, but never without the drive. -/
def pop (segs : List Name) : List Name :=
  match segs with
  | [] => []
  | [d] => if isDrive d then [d] else []
  | _ => segs.dropLast

def segment (segs : List Name) (t : Name) : List Name :=
  if t = [dot] then segs
  else if t = [dot, dot] then pop segs
  else if segs.length < 64 then segs ++ [t] else segs

/-- The loop that joins the components, up to the first that does not fit. -/
def joinFrom (out : Name) (first : Bool) : List Name → Name
  | [] => out
  | c :: cs =>
    if 1040 ≤ out.length + c.length + 2 then out
    else joinFrom ((if first then out else out ++ [backslash]) ++ c) false cs

def bareDrive (out : Name) : Bool := out.length = 2 ∧ out[1]? = some colon

def finish (out : Name) : Name := if bareDrive out then out ++ [backslash] else out

def pathCanon (p : Name) : Name :=
  let tmp := p.take 1039
  finish (joinFrom (if lead tmp then [backslash] else []) true ((components tmp).foldl segment []))

-- ---------------------------------------------------------------------------
-- The canonical path
-- ---------------------------------------------------------------------------

def keep (place : List Name) (t : Name) : List Name :=
  if t = [dot] then place else if t = [dot, dot] then pop place else place ++ [t]

/-- The components that are left. -/
def stack (cs : List Name) : List Name := cs.foldl keep []

def rest (cs : List Name) : Name := cs.flatMap fun c => backslash :: c

def join : List Name → Name
  | [] => []
  | c :: cs => c ++ rest cs

def glue (lead : Bool) (cs : List Name) : Name := (if lead then [backslash] else []) ++ join cs

/-- The path of the components that are left, for any number of them. -/
def canonical (p : Name) : Name := finish (glue (lead p) (stack (components p)))

/-- No dots are left, nothing is left to do, and only a bare drive is longer than before. -/
structure Normal (p r : Name) : Prop where
  named : ∀ c ∈ components r, c ≠ [dot] ∧ c ≠ [dot, dot]
  again : pathCanon r = r
  short : ∃ t, t.length ≤ p.length ∧ (r = t ∨ bareDrive t = true ∧ r = t ++ [backslash])

structure Canonical (p r : Name) : Prop extends Normal p r where
  path : r = canonical p

/-- Never more than 64 components are left. -/
def Low (p : Name) : Prop := ∀ k, (stack ((components p).take k)).length ≤ 64

/-- Only the first component is a drive. -/
def Regular (p : Name) : Prop := ∀ c ∈ (components p).tail, isDrive c = false

/-- Never more than 64 since there was none behind the drive. -/
def settled (p : Name) : Bool :=
  match components p with
  | [] => true
  | d :: cs =>
    if isDrive d then settles 63 true 0 (cs.map move) else settles 64 true 0 ((d :: cs).map move)

/-- The join ends two characters before the buffer does, and three if nothing is joined. -/
def Room (out : Name) (segs : List Name) : Prop :=
  (out ++ join segs).length ≤ 1037 + if 2 ≤ segs.length then 1 else 0

def Roomy (p : Name) : Prop := Room (if lead p then [backslash] else []) (stack (components p))

-- ---------------------------------------------------------------------------
-- Components
-- ---------------------------------------------------------------------------

def Clean (c : Name) : Prop := c ≠ [] ∧ ∀ x ∈ c, isSep x = false

theorem no_sep (s : Name) : ∀ c ∈ s.splitOnP isSep, ∀ x ∈ c, isSep x = false := by
  induction s with
  | nil => simp
  | cons b s ih =>
    rw [List.splitOnP_cons_eq_if_modifyHead]
    obtain ⟨c, cs, hcs⟩ := List.exists_cons_of_ne_nil (List.splitOnP_ne_nil isSep s)
    rw [hcs] at ih ⊢
    cases hb : isSep b with
    | true => simpa using ih
    | false => simpa [hb] using ih

theorem components_clean (s : Name) : ∀ c ∈ components s, Clean c := by
  intro c hc
  obtain ⟨hmem, hne⟩ := List.mem_filter.1 hc
  exact ⟨of_decide_eq_true hne, no_sep s c hmem⟩

theorem components_sep (hb : isSep b = true) (x y : Name) :
    components (x ++ b :: y) = components x ++ components y := by
  rw [components, List.splitOnP_append_cons x y hb, List.filter_append]
  rfl

theorem components_append (x y : Name) :
    components (x ++ backslash :: y) = components x ++ components y :=
  components_sep (by decide) x y

theorem components_self (h : Clean c) : components c = [c] := by
  rw [components, List.splitOnP_eq_singleton h.2]
  simp [h.1]

theorem components_nil : components [] = [] := by
  simp [components]

theorem components_rest (h : ∀ c ∈ cs, Clean c) (x : Name) :
    components (x ++ rest cs) = components x ++ cs := by
  induction cs generalizing x with
  | nil => simp [rest]
  | cons c cs ih =>
    have hc := h c (.head _)
    have hcs := ih (fun d hd => h d (.tail _ hd)) (x ++ backslash :: c)
    rw [components_append, components_self hc, List.append_assoc, List.append_assoc] at hcs
    exact hcs

theorem components_join (h : ∀ c ∈ cs, Clean c) : components (join cs) = cs := by
  cases cs with
  | nil => exact components_nil
  | cons c cs =>
    rw [join, components_rest (fun d hd => h d (.tail _ hd)), components_self (h c (.head _))]
    rfl

theorem components_glue (h : ∀ c ∈ cs, Clean c) (l : Bool) : components (glue l cs) = cs := by
  cases l with
  | false => exact components_join h
  | true =>
    have happ := components_append [] (join cs)
    rw [components_nil, components_join h] at happ
    exact happ

theorem components_finish (s : Name) : components (finish s) = components s := by
  unfold finish
  split
  · rw [components_append, components_nil, List.append_nil]
  · rfl

theorem lead_glue (h : ∀ c ∈ cs, Clean c) (l : Bool) : lead (glue l cs) = l := by
  cases l with
  | true => rfl
  | false =>
    match cs, h with
    | [], _ => rfl
    | [] :: _, h => exact absurd rfl (h [] (.head _)).1
    | (b :: c) :: _, h => exact (h (b :: c) (.head _)).2 b (.head _)

theorem lead_finish (s : Name) : lead (finish s) = lead s := by
  unfold finish
  split
  · rename_i hbare
    match s, hbare with
    | _ :: _, _ => rfl
  · rfl

-- ---------------------------------------------------------------------------
-- Stacks of components
-- ---------------------------------------------------------------------------

/-- A step leaves what was there, with the component behind it or not, and no dots. -/
structure Stacks (f : List Name → Name → List Name) : Prop where
  sub : ∀ st t, (f st t).Sublist (st ++ [t])
  named : ∀ st t, (∀ c ∈ st, c ≠ [dot] ∧ c ≠ [dot, dot]) →
    ∀ c ∈ f st t, c ≠ [dot] ∧ c ≠ [dot, dot]

theorem pop_sublist (st : List Name) : (pop st).Sublist st := by
  match st with
  | [] => exact List.Sublist.refl []
  | [d] =>
    rw [pop]
    split
    · exact List.Sublist.refl [d]
    · exact List.nil_sublist [d]
  | _ :: _ :: _ => exact List.dropLast_sublist _

theorem named_append {st : List Name} {t : Name}
    (h : ∀ c ∈ st, c ≠ [dot] ∧ c ≠ [dot, dot]) (hdot : t ≠ [dot]) (hup : t ≠ [dot, dot]) :
    ∀ c ∈ st ++ [t], c ≠ [dot] ∧ c ≠ [dot, dot] := by
  intro c hc
  obtain hc | hc := List.mem_append.1 hc
  · exact h c hc
  · obtain rfl := List.mem_singleton.1 hc
    exact ⟨hdot, hup⟩

theorem keep_stacks : Stacks keep where
  sub st t := by
    unfold keep
    split
    · exact List.sublist_append_left st [t]
    · split
      · exact (pop_sublist st).trans (List.sublist_append_left st [t])
      · exact List.Sublist.refl _
  named st t h := by
    unfold keep
    split
    · exact h
    · split
      · exact fun c hc => h c ((pop_sublist st).subset hc)
      · exact named_append h ‹_› ‹_›

theorem segment_stacks : Stacks segment where
  sub st t := by
    unfold segment
    split
    · exact List.sublist_append_left st [t]
    · split
      · exact (pop_sublist st).trans (List.sublist_append_left st [t])
      · split
        · exact List.Sublist.refl _
        · exact List.sublist_append_left st [t]
  named st t h := by
    unfold segment
    split
    · exact h
    · split
      · exact fun c hc => h c ((pop_sublist st).subset hc)
      · split
        · exact named_append h ‹_› ‹_›
        · exact h

section

variable {f : List Name → Name → List Name} (hf : Stacks f)
include hf

theorem Stacks.foldl_sublist (cs st : List Name) : (cs.foldl f st).Sublist (st ++ cs) := by
  induction cs generalizing st with
  | nil =>
    rw [List.append_nil]
    exact List.Sublist.refl st
  | cons c cs ih =>
    have hstep := (hf.sub st c).append_right cs
    rw [List.append_assoc] at hstep
    exact (ih (f st c)).trans hstep

theorem Stacks.foldl_named (cs : List Name) (h : ∀ c ∈ st, c ≠ [dot] ∧ c ≠ [dot, dot]) :
    ∀ c ∈ cs.foldl f st, c ≠ [dot] ∧ c ≠ [dot, dot] := by
  induction cs generalizing st with
  | nil => exact h
  | cons c cs ih => exact ih (hf.named st c h)

theorem Stacks.foldl_clean (s : Name) : ∀ c ∈ (components s).foldl f [], Clean c :=
  fun c hc => components_clean s c ((hf.foldl_sublist (components s) []).subset hc)

end

theorem length_segment (h : st.length ≤ 64) (t : Name) : (segment st t).length ≤ 64 := by
  unfold segment
  split
  · exact h
  · split
    · exact (pop_sublist st).length_le.trans h
    · split
      · rw [List.length_append]
        assumption
      · exact h

theorem length_segments (cs : List Name) (h : st.length ≤ 64) :
    (cs.foldl segment st).length ≤ 64 := by
  induction cs generalizing st with
  | nil => exact h
  | cons c cs ih => exact ih (length_segment h c)

/-- Components without dots stay as they are. -/
theorem segments_self {cs st : List Name} (h : ∀ c ∈ cs, c ≠ [dot] ∧ c ≠ [dot, dot])
    (hlen : (st ++ cs).length ≤ 64) : cs.foldl segment st = st ++ cs := by
  induction cs generalizing st with
  | nil => exact (List.append_nil st).symm
  | cons c cs ih =>
    obtain ⟨hdot, hup⟩ := h c (.head _)
    rw [List.length_append, List.length_cons] at hlen
    have hpush : segment st c = st ++ [c] := by
      rw [segment, if_neg hdot, if_neg hup, if_pos (by omega)]
    rw [List.foldl_cons, hpush, ih (fun d hd => h d (.tail _ hd)), List.append_assoc]
    · rfl
    · simp only [List.length_append, List.length_singleton]
      omega

/-- A stack that never is too high is the right one. -/
theorem segments_low (cs : List Name) (h : ∀ k, (stack (cs.take k)).length ≤ 64) :
    cs.foldl segment [] = stack cs := by
  induction cs using List.reverseRecOn with
  | nil => rfl
  | append_singleton cs c ih =>
    have hbefore : cs.foldl segment [] = stack cs := by
      refine ih fun k => ?_
      have hk := h (min k cs.length)
      rw [List.take_append_of_le_length (Nat.min_le_right ..)] at hk
      simpa [List.take_eq_take_min] using hk
    have hafter := h (cs ++ [c]).length
    rw [List.take_length, stack, List.foldl_append, ← stack] at hafter
    rw [List.foldl_append, stack, List.foldl_append, ← stack, hbefore]
    simp only [List.foldl_cons, List.foldl_nil, segment, keep] at hafter ⊢
    split
    · rfl
    · rename_i hdot
      rw [if_neg hdot] at hafter
      split
      · rfl
      · rename_i hup
        rw [if_neg hup, List.length_append] at hafter
        exact if_pos hafter

-- ---------------------------------------------------------------------------
-- Behind the drive
-- ---------------------------------------------------------------------------

/-- Nothing, or the drive. -/
def Base (b : List Name) : Prop := b = [] ∨ ∃ d, b = [d] ∧ isDrive d = true

theorem pop_base (hb : Base b) (h : ∀ c ∈ st, isDrive c = false) :
    pop (b ++ st) = b ++ st.dropLast := by
  obtain rfl | ⟨d, rfl, hd⟩ := hb
  · match st, h with
    | [], _ => rfl
    | [c], h => exact if_neg (Bool.not_eq_true _ ▸ h c (.head _))
    | _ :: _ :: _, _ => rfl
  · match st with
    | [] => exact if_pos hd
    | _ :: _ => rfl

theorem move_down (h : move c = .down d) : d = c := by
  unfold move at h
  split at h
  · cases h
  · split at h
    · cases h
    · exact (Move.down.inj h).symm

/-- The components above the base, and what the moves make of them. -/
structure Above (b : List Name) (f : List Name → Name → List Name)
    (run : List Name → List (Move Name) → List Name) : Prop where
  nil : ∀ st, run st [] = st
  cons : ∀ st m ms, run st (m :: ms) = run (run st [m]) ms
  step : ∀ st c, (∀ d ∈ st, isDrive d = false) → c ≠ [] → f (b ++ st) c = b ++ run st [move c]
  kept : ∀ st c, (∀ d ∈ st, isDrive d = false) → isDrive c = false →
    ∀ d ∈ run st [move c], isDrive d = false

theorem Above.foldl (h : Above b f run) (cs : List Name)
    (hcs : ∀ c ∈ cs, c ≠ [] ∧ isDrive c = false) (hst : ∀ d ∈ st, isDrive d = false) :
    cs.foldl f (b ++ st) = b ++ run st (cs.map move) := by
  induction cs generalizing st with
  | nil => exact congrArg (b ++ ·) (h.nil st).symm
  | cons c cs ih =>
    obtain ⟨hne, hdrive⟩ := hcs c (.head _)
    rw [List.foldl_cons, List.map_cons, h.cons, h.step st c hst hne]
    exact ih (fun d hd => hcs d (.tail _ hd)) (h.kept st c hst hdrive)

/-- The move of a component: it stays, goes up or goes down to the component. -/
theorem move_cases (hne : c ≠ []) : c = [dot] ∧ move c = .stay ∨ c = [dot, dot] ∧ move c = .up ∨
    (c ≠ [dot] ∧ c ≠ [dot, dot]) ∧ move c = .down c := by
  unfold move
  by_cases hdot : c = [dot]
  · exact .inl ⟨hdot, if_pos (.inr hdot)⟩
  · rw [if_neg fun h => h.elim hne hdot]
    by_cases hup : c = [dot, dot]
    · exact .inr (.inl ⟨hup, if_pos hup⟩)
    · exact .inr (.inr ⟨⟨hdot, hup⟩, if_neg hup⟩)

theorem drives_append {st : List Name} (hst : ∀ d ∈ st, isDrive d = false)
    (hc : isDrive c = false) : ∀ d ∈ st ++ [c], isDrive d = false :=
  List.forall_mem_append.2 ⟨hst, List.forall_mem_singleton.2 hc⟩

theorem segments_above (hb : Base b) : Above b segment (goWithin (64 - b.length)) where
  nil _ := rfl
  cons st m ms := by
    cases m <;> rfl
  step st c hst hne := by
    obtain ⟨hc, hm⟩ | ⟨rfl, hm⟩ | ⟨⟨hdot, hup⟩, hm⟩ := move_cases hne <;> rw [hm]
    · exact if_pos hc
    · have hdot : [dot, dot] ≠ [dot] := by decide
      rw [segment, if_neg hdot, if_pos rfl, pop_base hb hst]
      rfl
    · rw [segment, if_neg hdot, if_neg hup, List.length_append, List.append_assoc, goWithin, goWithin]
      by_cases hlt : st.length < 64 - b.length
      · rw [if_pos hlt, if_pos (by omega)]
      · rw [if_neg hlt, if_neg (by omega)]
  kept st c hst hc := by
    cases hm : move c with
    | stay => exact hst
    | up => exact fun d hd => hst d ((List.dropLast_sublist st).subset hd)
    | down d =>
      rw [goWithin, goWithin, move_down hm]
      split
      · exact drives_append hst hc
      · exact hst

theorem stack_above (hb : Base b) : Above b keep go where
  nil _ := rfl
  cons st m ms := by
    cases m <;> rfl
  step st c hst hne := by
    obtain ⟨hc, hm⟩ | ⟨rfl, hm⟩ | ⟨⟨hdot, hup⟩, hm⟩ := move_cases hne <;> rw [hm]
    · exact if_pos hc
    · have hdot : [dot, dot] ≠ [dot] := by decide
      rw [keep, if_neg hdot, if_pos rfl, pop_base hb hst]
      rfl
    · rw [keep, if_neg hdot, if_neg hup, List.append_assoc]
      rfl
  kept st c hst hc := by
    cases hm : move c with
    | stay => exact hst
    | up => exact fun d hd => hst d ((List.dropLast_sublist st).subset hd)
    | down d =>
      rw [move_down hm]
      exact drives_append hst hc

/-- Of a regular path the code keeps the right components, or fewer. -/
theorem segments_cases (hreg : Regular p) :
    settled p = true ∧ (components p).foldl segment [] = stack (components p) ∨
      settled p = false ∧
        ((components p).foldl segment []).length < (stack (components p)).length := by
  have hclean := components_clean p
  unfold Regular at hreg
  unfold settled stack
  revert hclean hreg
  cases components p with
  | nil => exact fun _ _ => .inl ⟨rfl, rfl⟩
  | cons d cs =>
    intro hreg hclean
    dsimp only
    have hcs : ∀ c ∈ cs, c ≠ [] ∧ isDrive c = false :=
      fun c hc => ⟨(hclean c (.tail _ hc)).1, hreg c hc⟩
    have hnone : ∀ c ∈ ([] : List Name), isDrive c = false := fun c hc => nomatch hc
    cases hd : isDrive d with
    | true =>
      have hdot : d ≠ [dot] := by
        rintro rfl
        cases hd
      have hup : d ≠ [dot, dot] := by
        rintro rfl
        cases hd
      have hbase : Base [d] := .inr ⟨d, rfl, hd⟩
      have hseg : segment [] d = [d] := by
        rw [segment, if_neg hdot, if_neg hup]
        rfl
      have hkeep : keep [] d = [d] := by
        rw [keep, if_neg hdot, if_neg hup]
        rfl
      have hcode := (segments_above hbase).foldl cs hcs hnone
      have hspec := (stack_above hbase).foldl cs hcs hnone
      rw [List.append_nil] at hcode hspec
      rw [List.foldl_cons, List.foldl_cons, hseg, hkeep, hcode, hspec, if_pos rfl]
      refine (goWithin_cases 63 (cs.map move)).imp (And.imp_right fun heq => ?_)
        (And.imp_right fun hlt => ?_)
      · exact congrArg ([d] ++ ·) heq
      · rw [List.length_append, List.length_append]
        exact Nat.add_lt_add_left hlt _
    | false =>
      have hall : ∀ c ∈ d :: cs, c ≠ [] ∧ isDrive c = false :=
        List.forall_mem_cons.2 ⟨⟨(hclean d (.head _)).1, hd⟩, hcs⟩
      have hbase : Base [] := .inl rfl
      have hcode := (segments_above hbase).foldl (d :: cs) hall hnone
      have hspec := (stack_above hbase).foldl (d :: cs) hall hnone
      rw [List.append_nil, List.nil_append] at hcode hspec
      rw [hcode, hspec, if_neg Bool.false_ne_true]
      exact goWithin_cases 64 ((d :: cs).map move)

-- ---------------------------------------------------------------------------
-- The join
-- ---------------------------------------------------------------------------

/-- What the loop joins of the components: the first `k`. -/
structure Joins (out : Name) (first : Bool) (cs : List Name) (k : Nat) (all : Name) : Prop where
  le : k ≤ cs.length
  eq : joinFrom out first cs = all
  again : joinFrom out first (cs.take k) = all

theorem joinFrom_rest (out : Name) (cs : List Name) :
    ∃ k, Joins out false cs k (out ++ rest (cs.take k)) ∧
      (k = cs.length ↔ cs = [] ∨ out.length + (rest cs).length ≤ 1038) := by
  induction cs generalizing out with
  | nil => exact ⟨0, ⟨Nat.le_refl 0, (List.append_nil out).symm, (List.append_nil out).symm⟩, by simp⟩
  | cons c cs ih =>
    have hrest : (rest (c :: cs)).length = c.length + 1 + (rest cs).length := by
      simp only [rest, List.flatMap_cons, List.length_append, List.length_cons]
    by_cases hfull : 1040 ≤ out.length + c.length + 2
    · refine ⟨0, ⟨Nat.zero_le _, ?_, (List.append_nil out).symm⟩, ?_⟩
      · rw [joinFrom, if_pos hfull]
        exact (List.append_nil out).symm
      · simp only [List.length_cons, reduceCtorEq, false_or, hrest, false_iff]
        omega
    · obtain ⟨k, ⟨hle, heq, hagain⟩, hk⟩ := ih (out ++ backslash :: c)
      have hout : out ++ [backslash] ++ c = out ++ backslash :: c := by
        simp
      have hjoin : out ++ backslash :: c ++ rest (cs.take k) = out ++ rest ((c :: cs).take (k + 1)) := by
        simp [rest]
      rw [hjoin] at heq hagain
      refine ⟨k + 1, ⟨Nat.succ_le_succ hle, ?_, ?_⟩, ?_⟩
      · rw [joinFrom, if_neg hfull, if_neg Bool.false_ne_true, hout]
        exact heq
      · rw [List.take_succ_cons, joinFrom, if_neg hfull, if_neg Bool.false_ne_true, hout]
        exact hagain
      · rw [List.length_append, List.length_cons] at hk
        simp only [List.length_cons, Nat.add_right_cancel_iff, reduceCtorEq, false_or, hrest, hk]
        constructor
        · rintro (rfl | h)
          · simp only [rest, List.flatMap_nil, List.length_nil]
            omega
          · omega
        · intro h
          exact .inr (by omega)

/-- The loop joins all components exactly when there is room for the join. -/
theorem joinFrom_first (hcs : ∀ c ∈ cs, Clean c) (hout : out.length ≤ 1) :
    ∃ k, Joins out true cs k (out ++ join (cs.take k)) ∧ (k = cs.length ↔ Room out cs) := by
  cases cs with
  | nil =>
    refine ⟨0, ⟨Nat.le_refl 0, (List.append_nil out).symm, (List.append_nil out).symm⟩, ?_⟩
    simp only [List.length_nil, true_iff, Room, join, List.append_nil]
    omega
  | cons c cs =>
    have hjoin : (out ++ join (c :: cs)).length = out.length + c.length + (rest cs).length := by
      simp only [join, List.length_append]
      omega
    have hpos : 2 * cs.length ≤ (rest cs).length := by
      have hne : ∀ d ∈ cs, 1 ≤ d.length :=
        fun d hd => List.length_pos_of_ne_nil (hcs d (.tail _ hd)).1
      clear hjoin hcs
      induction cs with
      | nil => exact Nat.le_refl 0
      | cons d cs ih =>
        have hd := hne d (.head _)
        have hrest := ih fun e he => hne e (.tail _ he)
        simp only [rest, List.flatMap_cons, List.length_append, List.length_cons] at hrest ⊢
        omega
    by_cases hfull : 1040 ≤ out.length + c.length + 2
    · refine ⟨0, ⟨Nat.zero_le _, ?_, (List.append_nil out).symm⟩, ?_⟩
      · rw [joinFrom, if_pos hfull]
        exact (List.append_nil out).symm
      · rw [Room, hjoin, List.length_cons]
        split <;> omega
    · obtain ⟨k, ⟨hle, heq, hagain⟩, hk⟩ := joinFrom_rest (out ++ c) cs
      rw [List.append_assoc] at heq hagain
      refine ⟨k + 1, ⟨Nat.succ_le_succ hle, ?_, ?_⟩, ?_⟩
      · rw [joinFrom, if_neg hfull, if_pos rfl]
        exact heq
      · rw [List.take_succ_cons, joinFrom, if_neg hfull, if_pos rfl]
        exact hagain
      · rw [List.length_append] at hk
        rw [Room, hjoin, List.length_cons, Nat.add_right_cancel_iff, hk]
        cases cs with
        | nil =>
          simp only [rest, List.flatMap_nil, List.length_nil, true_or, true_iff]
          omega
        | cons d cs =>
          simp only [List.length_cons, reduceCtorEq, false_or] at hpos ⊢
          rw [if_pos (by omega)]

-- ---------------------------------------------------------------------------
-- Lengths
-- ---------------------------------------------------------------------------

/-- The characters of the components, and a separator for each. -/
def weight (cs : List Name) : Nat := (cs.map fun c => c.length + 1).sum

theorem weight_cons : weight (c :: cs) = c.length + 1 + weight cs := rfl

theorem weight_sublist {a b : List Name} (h : a.Sublist b) : weight a ≤ weight b := by
  induction h with
  | slnil => exact Nat.le_refl _
  | cons c _ ih =>
    rw [weight_cons]
    omega
  | cons_cons c _ ih =>
    rw [weight_cons, weight_cons]
    omega

theorem weight_split (s : Name) : weight (s.splitOnP isSep) = s.length + 1 := by
  induction s with
  | nil => rfl
  | cons b s ih =>
    obtain ⟨c, cs, hcs⟩ := List.exists_cons_of_ne_nil (List.splitOnP_ne_nil isSep s)
    rw [List.splitOnP_cons_eq_if_modifyHead, hcs]
    rw [hcs, weight_cons] at ih
    cases hb : isSep b with
    | true =>
      rw [if_pos rfl, weight_cons, weight_cons, List.length_nil, List.length_cons]
      omega
    | false =>
      rw [if_neg Bool.false_ne_true, List.modifyHead_cons, weight_cons, List.length_cons,
        List.length_cons]
      omega

theorem weight_components (s : Name) : weight (components s) ≤ s.length + 1 := by
  have hle := weight_sublist (List.filter_sublist (p := fun c => c ≠ []) (l := s.splitOnP isSep))
  rw [weight_split] at hle
  exact hle

theorem length_rest (cs : List Name) : (rest cs).length = weight cs := by
  induction cs with
  | nil => rfl
  | cons c cs ih =>
    rw [weight_cons, ← ih]
    simp only [rest, List.flatMap_cons, List.length_append, List.length_cons]

/-- A join of components that a path has is not longer than the path. -/
theorem length_glue (h : cs.Sublist (components p)) : (glue (lead p) cs).length ≤ p.length := by
  have hjoin : (join cs).length = weight cs - 1 := by
    cases cs with
    | nil => rfl
    | cons c cs =>
      rw [join, List.length_append, length_rest, weight_cons]
      omega
  have hcs := weight_sublist h
  rw [glue, List.length_append, hjoin]
  cases hl : lead p with
  | false =>
    have hall := weight_components p
    rw [if_neg Bool.false_ne_true, List.length_nil]
    omega
  | true =>
    match p, hl, hcs with
    | b :: q, hb, hcs =>
      have hsame : components (b :: q) = components q := by
        have happ := components_sep hb [] q
        rw [components_nil] at happ
        exact happ
      have hall := weight_components q
      rw [hsame] at hcs
      rw [if_pos rfl, List.length_cons, List.length_cons, List.length_nil]
      omega

-- ---------------------------------------------------------------------------
-- The law
-- ---------------------------------------------------------------------------

theorem finish_cases (t : Name) :
    finish t = t ∨ bareDrive t = true ∧ finish t = t ++ [backslash] := by
  unfold finish
  split
  · exact .inr ⟨‹_›, rfl⟩
  · exact .inl rfl

theorem length_finish (h : t.length ≤ 1039) : (finish t).length ≤ 1039 := by
  obtain heq | ⟨hbare, heq⟩ := finish_cases t
  · rwa [heq]
  · have hlen : t.length = 2 := (of_decide_eq_true hbare).1
    rw [heq, List.length_append, hlen]
    decide

/-- The first components of the stack are joined: all of them if there is room. -/
theorem pathCanon_eq (hp : p.length ≤ 1039) :
    ∃ k, Joins (if lead p then [backslash] else []) true ((components p).foldl segment []) k
        (glue (lead p) (((components p).foldl segment []).take k)) ∧
      (k = ((components p).foldl segment []).length ↔
        Room (if lead p then [backslash] else []) ((components p).foldl segment [])) ∧
      pathCanon p = finish (glue (lead p) (((components p).foldl segment []).take k)) := by
  have hout : (if lead p then [backslash] else [] : Name).length ≤ 1 := by
    split <;> decide
  obtain ⟨k, hk, hroom⟩ := joinFrom_first (segment_stacks.foldl_clean p) hout
  refine ⟨k, hk, hroom, ?_⟩
  unfold pathCanon
  rw [List.take_of_length_le hp]
  exact congrArg finish hk.eq

/-- Components that are joined are found again. -/
theorem pathCanon_glue (hclean : ∀ c ∈ cs, Clean c) (hnamed : ∀ c ∈ cs, c ≠ [dot] ∧ c ≠ [dot, dot])
    (hcount : cs.length ≤ 64) (hlen : (glue l cs).length ≤ 1039)
    (hjoin : joinFrom (if l then [backslash] else []) true cs = glue l cs) :
    pathCanon (finish (glue l cs)) = finish (glue l cs) := by
  have hself : cs.foldl segment [] = [] ++ cs := segments_self hnamed (by simpa using hcount)
  unfold pathCanon
  dsimp only
  rw [List.take_of_length_le (length_finish hlen), lead_finish, lead_glue hclean,
    components_finish, components_glue hclean, hself]
  exact congrArg finish hjoin

/-- Whatever is kept of a path is in normal form. -/
theorem pathCanon_normal (hp : p.length ≤ 1039) : Normal p (pathCanon p) := by
  obtain ⟨k, hk, -, hcanon⟩ := pathCanon_eq hp
  have hpart : ∀ c ∈ ((components p).foldl segment []).take k,
      c ∈ (components p).foldl segment [] := fun c hc => List.mem_of_mem_take hc
  have hclean := fun c hc => segment_stacks.foldl_clean p c (hpart c hc)
  have hnone : ∀ c ∈ ([] : List Name), c ≠ [dot] ∧ c ≠ [dot, dot] := fun c hc => nomatch hc
  have hnamed := fun c hc => segment_stacks.foldl_named (components p) hnone c (hpart c hc)
  have hsub : (((components p).foldl segment []).take k).Sublist (components p) :=
    (List.take_sublist k _).trans (segment_stacks.foldl_sublist (components p) [])
  have hshort := length_glue hsub
  have hcount : (((components p).foldl segment []).take k).length ≤ 64 :=
    (List.length_take_le' ..).trans (length_segments (components p) (Nat.zero_le 64))
  refine ⟨?_, ?_, _, hshort, ?_⟩
  · rw [hcanon, components_finish, components_glue hclean]
    exact hnamed
  · rw [hcanon]
    exact pathCanon_glue hclean hnamed hcount (hshort.trans hp) hk.again
  · rw [hcanon]
    exact finish_cases _

theorem pathCanon_canonical (hp : p.length ≤ 1039)
    (hseg : (components p).foldl segment [] = stack (components p)) (hroom : Roomy p) :
    pathCanon p = canonical p := by
  obtain ⟨k, -, hk, hcanon⟩ := pathCanon_eq hp
  rw [hseg] at hk hcanon
  rw [hcanon, hk.2 hroom, List.take_length]
  rfl

/-- A path that the buffer holds comes out in normal form. It comes out canonical when never
more than 64 of its components are left and there is room for the join; for a path without
drives inside this is so exactly when no more than 64 were left since none was, and there is
room. -/
theorem path_canon_law (hp : p.length ≤ 1039) :
    Normal p (pathCanon p) ∧
      (Low p ∧ Roomy p → Canonical p (pathCanon p)) ∧
      (Regular p → (Canonical p (pathCanon p) ↔ settled p = true ∧ Roomy p)) := by
  refine ⟨pathCanon_normal hp, ?_, ?_⟩
  · rintro ⟨hlow, hroom⟩
    exact ⟨pathCanon_normal hp, pathCanon_canonical hp (segments_low (components p) hlow) hroom⟩
  · intro hreg
    constructor
    · intro h
      obtain ⟨k, hk, hroom, hcanon⟩ := pathCanon_eq hp
      have hpart : ((components p).foldl segment []).take k = stack (components p) := by
        have hclean := fun c hc =>
          segment_stacks.foldl_clean p c (List.mem_of_mem_take (i := k) hc)
        have hspec : ∀ c ∈ stack (components p), Clean c := keep_stacks.foldl_clean p
        have hsame := congrArg components (hcanon.symm.trans h.path)
        rw [canonical, components_finish, components_finish, components_glue hclean,
          components_glue hspec] at hsame
        exact hsame
      obtain ⟨hs, hseg⟩ | ⟨-, hlt⟩ := segments_cases hreg
      · refine ⟨hs, ?_⟩
        have hlen := congrArg List.length hpart
        rw [← hseg, List.length_take] at hlen
        have hle := hk.le
        rw [Roomy, ← hseg]
        exact hroom.1 (by omega)
      · rw [← hpart, List.length_take] at hlt
        omega
    · rintro ⟨hs, hroom⟩
      obtain ⟨-, hseg⟩ | ⟨hn, -⟩ := segments_cases hreg
      · exact ⟨pathCanon_normal hp, pathCanon_canonical hp hseg hroom⟩
      · rw [hs] at hn
        cases hn

theorem path_canon_law_up : Canonical (name "C:\\a\\..\\b") (pathCanon (name "C:\\a\\..\\b")) := by
  refine ((path_canon_law (by decide)).2.2 ?_).2 ⟨by decide +kernel, ?_⟩
  · unfold Regular
    decide +kernel
  · unfold Roomy Room
    decide +kernel

/-- The last of 65 components is lost. -/
theorem component_lost : ¬ Canonical (List.replicate 65 (name "a\\")).flatten
    (pathCanon (List.replicate 65 (name "a\\")).flatten) := by
  intro h
  have hlen := congrArg List.length h.path
  revert hlen
  decide +kernel

end WineGlass.Canon
