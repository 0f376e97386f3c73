import Mathlib.Data.List.TakeDrop
import Mathlib.Data.List.TakeWhile
import WineGlass.Lib.CStrings
import WineGlass.Lib.Fields

/-!
# Strings of wide or narrow characters

A character is `k` bytes of memory, and a string is what comes before the first zero. A routine
that works on a copy of bounded size sees the first characters of its strings: what it finds in
them against what there is in the strings is the subject of the second half.
-/

namespace Units

open CStrings Fields

abbrev Mem := Nat → BitVec 8

/-- What is before the first zero, of at most `n` characters. -/
def upto (f : Nat → BitVec w) : Nat → List (BitVec w)
  | 0 => []
  | n + 1 => if f 0 = 0 then [] else f 0 :: upto (fun i => f (i + 1)) n

/-- The string `s` is there, and its zero. -/
def Str (f : Nat → BitVec w) : List (BitVec w) → Prop
  | [] => f 0 = 0
  | c :: s => c ≠ 0 ∧ f 0 = c ∧ Str (fun i => f (i + 1)) s

/-- Character `i` from an address. -/
def unit (k : Nat) (m : Mem) (p i : Nat) : BitVec (8 * k) := .ofNat _ (get m ⟨p + k * i, k⟩)

def put (k : Nat) (m : Mem) (p : Nat) : List (BitVec (8 * k)) → Mem
  | [] => m
  | c :: l => put k (set m ⟨p, k⟩ c.toNat) (p + k) l

/-- The difference at the first place where two strings differ, their zeros included. -/
def diff : List (BitVec w) → List (BitVec w) → Int
  | [], [] => 0
  | [], b :: _ => -b.toNat
  | a :: _, [] => a.toNat
  | a :: s, b :: t => if a = b then diff s t else (a.toNat : Int) - b.toNat

/-- `r` says which of the two comes first. -/
def Ordered (r : Int) (s t : List (BitVec w)) : Prop := (r < 0 ↔ s < t) ∧ (0 < r ↔ t < s)

/-- Neither has a zero in it, or both end together. -/
def Fair (s t : List (BitVec w)) : Prop := 0 ∉ s ∧ 0 ∉ t ∨ s.length = t.length

/-- `strrchr`, for a character that is not zero. -/
def strrchr : List (BitVec w) → BitVec w → Option Nat
  | [], _ => none
  | d :: s, c =>
    match strrchr s c with
    | some i => some (i + 1)
    | none => if d = c then some 0 else none

/-- At least `n` characters, zeros after the string. -/
def pad (n : Nat) (s : List (BitVec w)) : List (BitVec w) := s ++ List.replicate (n - s.length) 0

/-- `n` is in `s` at `i` and not before. -/
def First (n s : List (BitVec w)) (i : Nat) : Prop :=
  n <+: s.drop i ∧ ∀ j < i, ¬ n <+: s.drop j

-- ---------------------------------------------------------------------------
-- Streams
-- ---------------------------------------------------------------------------

section

variable {f g : Nat → BitVec w} {s t : List (BitVec w)}

theorem Str.upto (h : Str f s) (n : Nat) : upto f n = s.take n := by
  induction n generalizing f s with
  | zero => rfl
  | succ n ih =>
    cases s with
    | nil => exact if_pos h
    | cons c s =>
      obtain ⟨hc, rfl, hs⟩ := h
      rw [Units.upto, if_neg hc, ih hs, List.take_succ_cons]

theorem upto_length_le : (upto f n).length ≤ n := by
  induction n generalizing f with
  | zero => exact Nat.le_refl 0
  | succ n ih =>
    rw [upto]
    split
    · exact Nat.zero_le _
    · exact Nat.succ_le_succ ih

theorem upto_take : (upto f n).take j = upto f (min j n) := by
  induction n generalizing f j with
  | zero => simp [upto]
  | succ n ih =>
    cases j with
    | zero => simp [upto]
    | succ j =>
      rw [Nat.add_min_add_right, upto, upto]
      split
      · rfl
      · rw [List.take_succ_cons, ih]

theorem upto_congr (h : ∀ i < n, i ≤ (upto g n).length → f i = g i) : upto f n = upto g n := by
  induction n generalizing f g with
  | zero => rfl
  | succ n ih =>
    rw [upto, upto, h 0 (Nat.succ_pos n) (Nat.zero_le _)]
    split
    · rfl
    · rename_i h0
      congr 1
      refine ih fun i hi hle => h (i + 1) (Nat.succ_lt_succ hi) ?_
      rw [upto, if_neg h0]
      exact Nat.succ_le_succ hle

theorem zero_notMem_upto : 0 ∉ upto f n := by
  induction n generalizing f with
  | zero => exact List.not_mem_nil
  | succ n ih =>
    rw [upto]
    split
    · exact List.not_mem_nil
    · rename_i h0
      exact List.not_mem_cons_of_ne_of_not_mem (Ne.symm h0) ih

theorem Str.zero_notMem (h : Str f s) : 0 ∉ s := by
  have hs := h.upto s.length
  rw [List.take_length] at hs
  exact hs ▸ zero_notMem_upto

theorem Str.unique (hs : Str f s) (ht : Str f t) : s = t := by
  have h := hs.upto (s.length + t.length)
  rw [ht.upto, List.take_of_length_le (Nat.le_add_left _ _),
    List.take_of_length_le (Nat.le_add_right _ _)] at h
  exact h.symm

theorem Str.getElem? (h : Str f s) (hi : i ≤ s.length) : (s ++ [0])[i]? = some (f i) := by
  induction s generalizing f i with
  | nil =>
    obtain rfl := Nat.le_zero.1 hi
    exact congrArg some (Eq.symm h)
  | cons c s ih =>
    obtain ⟨-, hc, hs⟩ := h
    cases i with
    | zero => exact congrArg some hc.symm
    | succ i => exact ih hs (Nat.le_of_succ_le_succ hi)

theorem str_of_getElem? (hs : 0 ∉ s) (h : ∀ i ≤ s.length, (s ++ [0])[i]? = some (f i)) :
    Str f s := by
  induction s generalizing f with
  | nil => exact (Option.some.inj (h 0 (Nat.le_refl 0))).symm
  | cons c s ih =>
    rw [List.mem_cons, not_or] at hs
    refine ⟨Ne.symm hs.1, (Option.some.inj (h 0 (Nat.zero_le _))).symm, ih hs.2 fun i hi => ?_⟩
    exact h (i + 1) (Nat.succ_le_succ hi)

end

-- ---------------------------------------------------------------------------
-- Memory
-- ---------------------------------------------------------------------------

section

variable {k : Nat} {m : Mem} {l l' s : List (BitVec (8 * k))}

theorem put_append : put k m p (a ++ b) = put k (put k m p a) (p + k * a.length) b := by
  induction a generalizing m p with
  | nil => rfl
  | cons c a ih =>
    have hp : p + k + k * a.length = p + k * (a.length + 1) := by rw [Nat.mul_succ]; omega
    rw [List.cons_append, put, put, ih, hp, List.length_cons]

theorem get_put (h : e.start + e.width ≤ p) : get (put k m p l) e = get m e := by
  induction l generalizing m p with
  | nil => rfl
  | cons c l ih =>
    rw [put, ih (Nat.le_add_right_of_le h)]
    exact get_set_apart (Or.inr h)

theorem unit_put (m : Mem) (hi : i < l.length) : unit k (put k m p l) p i = l[i] := by
  induction l generalizing m p i with
  | nil => cases hi
  | cons c l ih =>
    cases i with
    | zero =>
      have hc : c.toNat < 256 ^ k := by
        rw [show 256 = 2 ^ 8 from rfl, ← Nat.pow_mul]
        exact c.isLt
      have hget : get (put k (set m ⟨p, k⟩ c.toNat) (p + k) l) ⟨p, k⟩ = c.toNat := by
        rw [get_put (e := ⟨p, k⟩) (Nat.le_refl _), get_set, Nat.mod_eq_of_lt hc]
      rw [put, unit, Nat.mul_zero, Nat.add_zero, hget, BitVec.ofNat_toNat, BitVec.setWidth_eq]
      rfl
    | succ i =>
      have hp : p + k * (i + 1) = p + k + k * i := by rw [Nat.mul_succ]; omega
      have hrest := ih (p := p + k) (set m ⟨p, k⟩ c.toNat) (Nat.lt_of_succ_lt_succ hi)
      rw [unit] at hrest
      rw [put, unit, hp, hrest, List.getElem_cons_succ]

theorem set_get : set m e (get m e) = m := by
  funext i
  by_cases hi : e.Has i
  · rw [set_inside hi, byteAt_get hi]
  · exact set_outside hi

/-- Writing what is there. -/
theorem put_self (h : ∀ i < l.length, l[i]? = some (unit k m p i)) : put k m p l = m := by
  induction l generalizing p with
  | nil => rfl
  | cons c l ih =>
    have hc : c = unit k m p 0 := Option.some.inj (h 0 (Nat.succ_pos _))
    have hget : get m ⟨p, k⟩ < 2 ^ (8 * k) := by
      rw [Nat.pow_mul]
      exact get_lt
    have hset : set m ⟨p, k⟩ c.toNat = m := by
      rw [hc, unit, Nat.mul_zero, Nat.add_zero, BitVec.toNat_ofNat, Nat.mod_eq_of_lt hget, set_get]
    rw [put, hset]
    refine ih fun i hi => ?_
    have hp : p + k * (i + 1) = p + k + k * i := by rw [Nat.mul_succ]; omega
    have hi := h (i + 1) (Nat.succ_lt_succ hi)
    rwa [List.getElem?_cons_succ, unit, hp] at hi

theorem put_inj (h : put k m p l = put k m p l') (hl : l.length = l'.length) : l = l' :=
  List.ext_getElem hl fun i hi hi' => by
    rw [← unit_put m hi, ← unit_put m hi', h]

/-- A string that was written is there. -/
theorem str_put (hs : 0 ∉ s) : Str (unit k (put k m p (s ++ [0])) p) s := by
  refine str_of_getElem? hs fun i hi => ?_
  have hlt : i < (s ++ [0]).length := by
    rw [List.length_append, List.length_singleton]
    omega
  rw [unit_put m hlt, List.getElem?_eq_getElem hlt]

theorem Str.put_tail (h : Str (unit k m p) s) :
    put k m (p + k * s.length) l = put k m p (s ++ l) := by
  have hself : put k m p s = m := put_self fun i hi => by
    rw [← h.getElem? (Nat.le_of_lt hi), List.getElem?_append_left hi]
  rw [put_append, hself]

theorem put_string_inj (hs : 0 ∉ s) (hl : 0 ∉ l) :
    put k m p (s ++ [0]) = put k m p (l ++ [0]) ↔ s = l := by
  constructor
  · intro h
    have hs : Str (unit k (put k m p (s ++ [0])) p) s := str_put hs
    rw [h] at hs
    exact hs.unique (str_put hl)
  · rintro rfl
    rfl

theorem put_take_iff (hs : 0 ∉ s) :
    put k m p (s.take n ++ [0]) = put k m p (s ++ [0]) ↔ s.length ≤ n := by
  rw [put_string_inj (fun h0 => hs (List.mem_of_mem_take h0)) hs]
  exact List.take_eq_self_iff s

theorem length_pad (h : s.length ≤ n) : (pad n s).length = n := by
  rw [pad, List.length_append, List.length_replicate]
  omega

theorem pad_take_iff (hs : 0 ∉ s) (hn : s.length ≤ n) :
    pad n (s.take j) = pad n s ↔ s.length ≤ j := by
  constructor
  · intro h
    by_contra hlt
    have hj : j < s.length := Nat.lt_of_not_le hlt
    have hlen : (s.take j).length = j := List.length_take_of_le (Nat.le_of_lt hj)
    have hcut : (pad n (s.take j))[j]? = some 0 := by
      rw [pad, List.getElem?_append_right (Nat.le_of_eq hlen), hlen, Nat.sub_self,
        List.getElem?_replicate, if_pos (by omega)]
    have hall : (pad n s)[j]? = s[j]? := List.getElem?_append_left hj
    rw [h, hall] at hcut
    exact hs (List.mem_of_getElem? hcut)
  · intro h
    rw [List.take_of_length_le h]

end

-- ---------------------------------------------------------------------------
-- Order
-- ---------------------------------------------------------------------------

section

variable {s t : List (BitVec w)}

theorem Fair.tail (h : Fair (a :: s) (b :: t)) : Fair s t := by
  rcases h with ⟨hs, ht⟩ | hl
  · exact .inl ⟨fun h0 => hs (List.mem_cons_of_mem _ h0), fun h0 => ht (List.mem_cons_of_mem _ h0)⟩
  · exact .inr (Nat.succ.inj hl)

theorem Fair.take (h : Fair s t) (n : Nat) : Fair (s.take n) (t.take n) := by
  rcases h with ⟨hs, ht⟩ | hl
  · exact .inl ⟨fun h0 => hs (List.mem_of_mem_take h0), fun h0 => ht (List.mem_of_mem_take h0)⟩
  · refine .inr ?_
    rw [List.length_take, List.length_take, hl]

theorem pos_of_fair (h : Fair (a :: s) []) : 0 < a.toNat := by
  rcases h with ⟨hs, -⟩ | hl
  · rw [List.mem_cons, not_or] at hs
    refine Nat.pos_of_ne_zero fun h0 => hs.1 ?_
    exact (BitVec.eq_of_toNat_eq (by simpa using h0)).symm
  · cases hl

theorem Fair.symm (h : Fair s t) : Fair t s := Or.imp And.symm Eq.symm h

theorem diff_swap : diff t s = -diff s t := by
  induction s generalizing t with
  | nil => cases t <;> simp [diff]
  | cons a s ih =>
    cases t with
    | nil => simp [diff]
    | cons b t =>
      rw [diff, diff]
      by_cases h : a = b
      · rw [if_pos h, if_pos h.symm, ih]
      · rw [if_neg h, if_neg (Ne.symm h)]
        omega

theorem diff_neg (h : Fair s t) : diff s t < 0 ↔ s < t := by
  induction s generalizing t with
  | nil =>
    cases t with
    | nil => simp [diff]
    | cons b t =>
      have hb := pos_of_fair h.symm
      simp [diff, hb]
  | cons a s ih =>
    cases t with
    | nil => simp [diff]
    | cons b t =>
      rw [List.cons_lt_cons_iff, diff, BitVec.lt_def]
      by_cases hab : a = b
      · rw [if_pos hab, ih h.tail]
        simp [hab]
      · rw [if_neg hab]
        simp only [hab, false_and, or_false]
        omega

theorem ordered_diff (h : Fair s t) : Ordered (diff s t) s t := by
  refine ⟨diff_neg h, ?_⟩
  rw [← diff_neg h.symm, diff_swap (s := s)]
  omega

theorem diff_eq_zero (h : Fair s t) : diff s t = 0 ↔ s = t := by
  induction s generalizing t with
  | nil =>
    cases t with
    | nil => simp [diff]
    | cons b t =>
      have hb := Nat.ne_of_gt (pos_of_fair h.symm)
      simpa [diff] using hb
  | cons a s ih =>
    cases t with
    | nil =>
      have ha := Nat.ne_of_gt (pos_of_fair h)
      simpa [diff] using ha
    | cons b t =>
      rw [diff, List.cons.injEq]
      by_cases hab : a = b
      · rw [if_pos hab, ih h.tail]
        simp [hab]
      · have hne : a.toNat ≠ b.toNat := fun he => hab (BitVec.eq_of_toNat_eq he)
        rw [if_neg hab]
        simp only [hab, false_and, iff_false]
        omega

/-- Only equal strings have no order. -/
theorem ordered_zero (h : Fair s t) : Ordered 0 s t ↔ s = t := by
  have ho := ordered_diff h
  rw [← diff_eq_zero h]
  constructor
  · rintro ⟨hlt, hgt⟩
    have h1 := ho.1.trans hlt.symm
    have h2 := ho.2.trans hgt.symm
    omega
  · intro h0
    rwa [h0] at ho

theorem diff_take (h : s.take n ≠ t.take n) : diff (s.take n) (t.take n) = diff s t := by
  induction n generalizing s t with
  | zero => exact absurd rfl h
  | succ n ih =>
    cases s with
    | nil => cases t <;> rfl
    | cons a s =>
      cases t with
      | nil => rfl
      | cons b t =>
        rw [List.take_succ_cons, List.take_succ_cons, diff, diff]
        by_cases hab : a = b
        · rw [if_pos hab, if_pos hab]
          refine ih fun he => h ?_
          rw [List.take_succ_cons, List.take_succ_cons, hab, he]
        · rw [if_neg hab, if_neg hab]

/-- What the first characters say of the strings is right unless they agree. -/
theorem ordered_take (h : Fair s t) :
    Ordered (diff (s.take n) (t.take n)) s t ↔ (s.take n = t.take n → s = t) := by
  by_cases he : s.take n = t.take n
  · rw [(diff_eq_zero (h.take n)).2 he, ordered_zero h]
    simp [he]
  · rw [diff_take he]
    exact iff_of_true (ordered_diff h) fun h => absurd h he

theorem diff_natAbs : (diff s t).natAbs < 2 ^ w := by
  induction s generalizing t with
  | nil =>
    cases t with
    | nil => exact Nat.two_pow_pos w
    | cons b t =>
      rw [diff, Int.natAbs_neg]
      exact b.isLt
  | cons a s ih =>
    cases t with
    | nil => exact a.isLt
    | cons b t =>
      rw [diff]
      split
      · exact ih
      · have ha := a.isLt
        have hb := b.isLt
        omega

end

-- ---------------------------------------------------------------------------
-- Search
-- ---------------------------------------------------------------------------

section

variable {s t x a b : List (BitVec w)} {c : BitVec w}

theorem strchr_eq_none_iff : strchr s c = none ↔ c ∉ s := by
  constructor
  · intro h hc
    have hne := List.findIdx?_eq_none_iff.1 h c hc
    simp at hne
  · exact strchr_none

theorem strchr_lt (h : strchr s c = some i) : i < s.length :=
  (List.findIdx?_eq_some_iff_findIdx_eq.1 h).1

theorem strchr_append_of_mem (h : c ∈ a) (b : List (BitVec w)) :
    strchr (a ++ b) c = strchr a c := by
  have happ : strchr (a ++ b) c = (strchr a c).or ((strchr b c).map (· + a.length)) :=
    List.findIdx?_append
  cases hd : strchr a c with
  | none => exact absurd h (strchr_eq_none_iff.1 hd)
  | some i => rw [happ, hd, Option.some_or]

/-- The first characters tell where the character is, if it is among them or nowhere. -/
theorem strchr_take (s : List (BitVec w)) :
    strchr (s.take n) c = strchr s c ↔ c ∉ s ∨ c ∈ s.take n := by
  by_cases hc : c ∈ s.take n
  · have happ := strchr_append_of_mem hc (s.drop n)
    rw [List.take_append_drop] at happ
    exact iff_of_true happ.symm (.inr hc)
  · rw [strchr_none hc, eq_comm, strchr_eq_none_iff]
    simp [hc]

/-- The same of a copy with its zero. -/
theorem strchr_cut (hs : 0 ∉ s) :
    strchr (s.take n ++ [0]) c = strchr (s ++ [0]) c ↔
      s.length ≤ n ∨ c ∈ s.take n ∨ c ∉ s ++ [0] := by
  rcases Nat.lt_or_ge n s.length with hlt | hle
  · have hsplit : s ++ [0] = s.take n ++ (s.drop n ++ [0]) := by
      rw [← List.append_assoc, List.take_append_drop]
    by_cases hc : c ∈ s.take n
    · rw [hsplit, strchr_append_of_mem hc, strchr_append_of_mem hc]
      simp [hc]
    · by_cases h0 : c = 0
      · rw [h0] at hc ⊢
        have hne : n ≠ s.length := Nat.ne_of_lt hlt
        rw [strchr_append hc, strchr_append hs, List.length_take_of_le (Nat.le_of_lt hlt)]
        refine iff_of_false (fun h => hne (Option.some.inj h)) ?_
        rintro (h | h | h)
        · exact Nat.not_le.2 hlt h
        · exact hc h
        · exact h (List.mem_append_right _ (List.mem_singleton.2 rfl))
      · have hcut : c ∉ s.take n ++ [0] := fun h =>
          (List.mem_append.1 h).elim hc fun h => h0 (List.mem_singleton.1 h)
        rw [strchr_none hcut, eq_comm, strchr_eq_none_iff]
        simp [hc, Nat.not_le.2 hlt]
  · rw [List.take_of_length_le hle]
    simp [hle]

theorem strrchr_append :
    strrchr (a ++ b) c = ((strrchr b c).map (· + a.length)).or (strrchr a c) := by
  induction a with
  | nil => simp [strrchr]
  | cons d a ih =>
    rw [List.cons_append, strrchr, ih, strrchr]
    cases strrchr b c with
    | none => cases strrchr a c <;> rfl
    | some i => rfl

theorem strrchr_eq_none_iff : strrchr s c = none ↔ c ∉ s := by
  induction s with
  | nil => simp [strrchr]
  | cons d s ih =>
    rw [strrchr, List.mem_cons, not_or, ← ih]
    cases strrchr s c with
    | none => simp [eq_comm]
    | some i => simp

theorem strrchr_lt (h : strrchr s c = some i) : i < s.length := by
  induction s generalizing i with
  | nil => cases h
  | cons d s ih =>
    rw [strrchr] at h
    split at h
    · rename_i j hj
      cases h
      exact Nat.succ_lt_succ (ih hj)
    · split at h
      · cases h
        exact Nat.succ_pos _
      · cases h

/-- The last place is known when the character is not in the rest. -/
theorem strrchr_cut :
    strrchr (s.take n ++ [0]) c = strrchr (s ++ [0]) c ↔ s.length ≤ n ∨ c ∉ s.drop n ++ [0] := by
  rcases Nat.lt_or_ge n s.length with hlt | hle
  · have hsplit : s ++ [0] = s.take n ++ (s.drop n ++ [0]) := by
      rw [← List.append_assoc, List.take_append_drop]
    have hlen : (s.take n).length = n := List.length_take_of_le (Nat.le_of_lt hlt)
    rw [hsplit, strrchr_append, strrchr_append (b := s.drop n ++ [0]), hlen]
    cases hd : strrchr (s.drop n ++ [0]) c with
    | none =>
      have hn := strrchr_eq_none_iff.1 hd
      have h0 : strrchr [0] c = none :=
        strrchr_eq_none_iff.2 fun h => hn (List.mem_append_right _ h)
      rw [h0]
      simp only [Option.map_none, Option.none_or, hn, not_false_eq_true, or_true]
    | some j =>
      have hmem : c ∈ s.drop n ++ [0] := by
        by_contra hn
        rw [strrchr_eq_none_iff.2 hn] at hd
        cases hd
      refine iff_of_false (fun he => ?_) (by simp only [hmem, not_true, or_false]; omega)
      rw [Option.map_some, Option.some_or] at he
      cases h0 : strrchr [0] c with
      | none =>
        rw [h0, Option.map_none, Option.none_or] at he
        have hi := strrchr_lt he
        omega
      | some i =>
        rw [h0, Option.map_some, Option.some_or, Option.some.injEq] at he
        rw [strrchr_append, h0, Option.map_some, Option.some_or, Option.some.injEq,
          List.length_drop] at hd
        omega
  · rw [List.take_of_length_le hle]
    simp [hle]

theorem strstr_eq_some_iff : strstr s x = some i ↔ First x s i := by
  induction s generalizing i with
  | nil =>
    rw [strstr, First]
    cases x with
    | nil =>
      cases i with
      | zero => simp
      | succ i =>
        exact iff_of_false (fun h => by simp at h) fun h => h.2 0 (Nat.succ_pos i) List.nil_prefix
    | cons d x => simp
  | cons e s ih =>
    rw [strstr]
    by_cases hx : x <+: e :: s
    · rw [if_pos (List.isPrefixOf_iff_prefix.2 hx), First]
      cases i with
      | zero => simpa using hx
      | succ i => exact iff_of_false (fun h => by cases h) fun h => h.2 0 (Nat.succ_pos i) hx
    · have hneg : ¬ x.isPrefixOf (e :: s) := fun h => hx (List.isPrefixOf_iff_prefix.1 h)
      rw [if_neg hneg, Option.map_eq_some_iff]
      cases i with
      | zero =>
        refine iff_of_false ?_ fun h => hx h.1
        rintro ⟨j, -, h⟩
        cases h
      | succ i =>
        constructor
        · rintro ⟨j, hj, heq⟩
          obtain rfl := Nat.succ.inj heq
          obtain ⟨hat, hno⟩ := ih.1 hj
          refine ⟨hat, fun j hlt => ?_⟩
          cases j with
          | zero => exact hx
          | succ j => exact hno j (Nat.lt_of_succ_lt_succ hlt)
        · rintro ⟨hat, hno⟩
          exact ⟨i, ih.2 ⟨hat, fun j hlt => hno (j + 1) (Nat.succ_lt_succ hlt)⟩, rfl⟩

theorem infix_of_prefix_drop (h : x <+: s.drop i) : x <:+: s :=
  h.isInfix.trans (List.drop_suffix i s).isInfix

theorem strstr_eq_none_iff : strstr s x = none ↔ ¬ x <:+: s := by
  constructor
  · rintro h ⟨a, b, rfl⟩
    induction a with
    | nil =>
      cases hx : x ++ b with
      | nil =>
        obtain ⟨rfl, rfl⟩ := List.append_eq_nil_iff.1 hx
        cases h
      | cons e s =>
        have hp : x.isPrefixOf (e :: s) :=
          List.isPrefixOf_iff_prefix.2 (hx ▸ List.prefix_append x b)
        rw [List.nil_append, hx, strstr, if_pos hp] at h
        cases h
    | cons d a ih =>
      rw [List.cons_append, List.cons_append, strstr] at h
      split at h
      · cases h
      · exact ih (Option.map_eq_none_iff.1 h)
  · intro h
    cases hs : strstr s x with
    | none => rfl
    | some i => exact absurd (infix_of_prefix_drop (strstr_eq_some_iff.1 hs).1) h

theorem prefix_drop_take : x <+: (s.take n).drop i ↔ x <+: s.drop i ∧ x.length ≤ n - i := by
  rw [List.drop_take, List.prefix_take_iff]

/-- A search for the first `k` characters in the first `n` finds what is looked for. -/
theorem strstr_cut :
    strstr (s.take n) (x.take k) = strstr s x ↔
      (∃ i, First x s i ∧ (∀ j < i, ¬ x.take k <+: s.drop j) ∧ i + (x.take k).length ≤ n) ∨
        ¬ x <:+: s ∧ ¬ x.take k <:+: s.take n := by
  cases hx : strstr s x with
  | none =>
    have hno := strstr_eq_none_iff.1 hx
    rw [strstr_eq_none_iff]
    constructor
    · intro h
      exact .inr ⟨hno, h⟩
    · rintro (⟨i, hi, -⟩ | h)
      · exact absurd (infix_of_prefix_drop hi.1) hno
      · exact h.2
  | some i =>
    have hi := strstr_eq_some_iff.1 hx
    rw [strstr_eq_some_iff]
    constructor
    · rintro ⟨hat, hno⟩
      have hlen := (prefix_drop_take.1 hat).2
      have hearly : ∀ j < i, ¬ x.take k <+: s.drop j := fun j hj hp =>
        hno j hj (prefix_drop_take.2 ⟨hp, hlen.trans (Nat.sub_le_sub_left (Nat.le_of_lt hj) n)⟩)
      refine .inl ⟨i, hi, hearly, ?_⟩
      rcases Nat.eq_zero_or_pos i with rfl | hpos
      · rwa [Nat.zero_add]
      · have hne : x.take k ≠ [] := fun h0 => hearly 0 hpos (h0 ▸ List.nil_prefix)
        have hlong := List.length_pos_iff.2 hne
        omega
    · rintro (⟨j, hj, hearly, hend⟩ | ⟨hno, -⟩)
      · obtain rfl : i = j := Option.some.inj (hx.symm.trans (strstr_eq_some_iff.2 hj))
        refine ⟨prefix_drop_take.2 ⟨(List.take_prefix k x).trans hj.1, by omega⟩, fun l hl hp => ?_⟩
        exact hearly l hl (prefix_drop_take.1 hp).1
      · exact absurd (infix_of_prefix_drop hi.1) hno

theorem prefix_takeWhile_iff {p : BitVec w → Bool} :
    t <+: s.takeWhile p ↔ t <+: s ∧ ∀ c ∈ t, p c := by
  induction s generalizing t with
  | nil => simp +contextual
  | cons d s ih =>
    rw [List.takeWhile_cons]
    cases t with
    | nil => simp
    | cons e t =>
      rw [List.cons_prefix_cons, List.forall_mem_cons]
      by_cases hd : p d
      · rw [if_pos hd, List.cons_prefix_cons, ih]
        constructor
        · rintro ⟨rfl, ht, hp⟩
          exact ⟨⟨rfl, ht⟩, hd, hp⟩
        · rintro ⟨⟨rfl, ht⟩, -, hp⟩
          exact ⟨rfl, ht, hp⟩
      · rw [if_neg hd]
        refine iff_of_false (fun h => by simp at h) ?_
        rintro ⟨⟨rfl, -⟩, he, -⟩
        exact hd he

/-- The characters of `s` up to the first that is not in `a`. -/
def span (s a : List (BitVec w)) : List (BitVec w) := s.takeWhile a.contains

theorem prefix_span_iff : t <+: span s a ↔ t <+: s ∧ ∀ c ∈ t, c ∈ a := by
  rw [span, prefix_takeWhile_iff]
  simp only [List.contains_iff_mem]

theorem span_cut :
    (span (s.take n) (a.take k)).length = (span s a).length ↔
      ∀ t, t <+: s → (∀ c ∈ t, c ∈ a) → t.length ≤ n ∧ ∀ c ∈ t, c ∈ a.take k := by
  have hcut : ∀ t, t <+: span (s.take n) (a.take k) ↔
      (t <+: s ∧ t.length ≤ n) ∧ ∀ c ∈ t, c ∈ a.take k := fun t => by
    rw [prefix_span_iff, List.prefix_take_iff]
  have hle : span (s.take n) (a.take k) <+: span s a := by
    obtain ⟨⟨hs, -⟩, ha⟩ := (hcut _).1 List.prefix_rfl
    exact prefix_span_iff.2 ⟨hs, fun c hc => List.mem_of_mem_take (ha c hc)⟩
  constructor
  · intro h t hs ha
    have ht := prefix_span_iff.2 ⟨hs, ha⟩
    rw [← hle.eq_of_length h, hcut] at ht
    exact ⟨ht.1.2, ht.2⟩
  · intro h
    obtain ⟨hs, ha⟩ := prefix_span_iff.1 (List.prefix_rfl : span s a <+: span s a)
    obtain ⟨hn, hk⟩ := h _ hs ha
    exact Nat.le_antisymm hle.length_le ((hcut _).2 ⟨⟨hs, hn⟩, hk⟩).length_le

end

end Units
