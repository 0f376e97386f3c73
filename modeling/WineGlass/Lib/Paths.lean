import Mathlib.Data.List.Basic

/-!
# Paths

A place is the list of names that leads to it from the root. A path is a list of moves,
and what it does from any place is said by two things: how far it climbs, and which names
it then goes down.
-/

namespace Paths

inductive Move (β : Type u)
  | stay
  | up
  | down (name : β)
  deriving DecidableEq, Repr

/-- The root is above itself. -/
def go (place : List β) : List (Move β) → List β
  | [] => place
  | .stay :: ms => go place ms
  | .up :: ms => go place.dropLast ms
  | .down b :: ms => go (place ++ [b]) ms

/-- The normal form of `k` times up and then down along `names`, and then the moves. -/
def normalFrom (k : Nat) (names : List β) : List (Move β) → Nat × List β
  | [] => (k, names)
  | .stay :: ms => normalFrom k names ms
  | .up :: ms =>
    match names with
    | [] => normalFrom (k + 1) [] ms
    | b :: bs => normalFrom k (b :: bs).dropLast ms
  | .down b :: ms => normalFrom k (names ++ [b]) ms

def normal (ms : List (Move β)) : Nat × List β := normalFrom 0 [] ms

def apply (place : List β) (r : Nat × List β) : List β := place.take (place.length - r.1) ++ r.2

theorem go_append (ms ms' : List (Move β)) : go place (ms ++ ms') = go (go place ms) ms' := by
  induction ms generalizing place with
  | nil => rfl
  | cons m ms ih => cases m <;> exact ih

theorem go_apply (place : List β) (k : Nat) (names : List β) (ms : List (Move β)) :
    go (apply place (k, names)) ms = apply place (normalFrom k names ms) := by
  induction ms generalizing k names with
  | nil => rfl
  | cons m ms ih =>
    cases m with
    | stay => exact ih k names
    | up =>
      cases names with
      | nil =>
        have hup : (apply place (k, [])).dropLast = apply place (k + 1, []) := by
          simp only [apply, List.append_nil]
          rw [List.dropLast_eq_take, List.take_take, List.length_take]
          congr 1
          omega
        simp only [go, normalFrom, hup, ih]
      | cons b bs =>
        have hup : (apply place (k, b :: bs)).dropLast = apply place (k, (b :: bs).dropLast) :=
          List.dropLast_append_of_ne_nil (List.cons_ne_nil b bs)
        simp only [go, normalFrom, hup, ih]
    | down b =>
      have hdown : apply place (k, names) ++ [b] = apply place (k, names ++ [b]) :=
        List.append_assoc ..
      simp only [go, normalFrom, hdown, ih]

/-- The moves of a path do what its normal form says. -/
theorem go_eq (place : List β) (ms : List (Move β)) : go place ms = apply place (normal ms) := by
  have h := go_apply place 0 [] ms
  simpa [apply, normal] using h

theorem prefix_append_iff {d a b : List β} :
    d <+: a ++ b ↔ d.take a.length <+: a ∧ d.drop a.length <+: b := by
  induction a generalizing d with
  | nil => simp
  | cons x xs ih =>
    cases d with
    | nil => simp
    | cons y ys => simp [List.cons_prefix_cons, ih, and_assoc]

/-- A path leads below `d` when the climb leaves `d`'s own names and the rest of them is
gone down again. -/
theorem inside_iff {d place : List β} : d <+: apply place r ↔
    d.take (place.length - r.1) <+: place ∧ d.drop (place.length - r.1) <+: r.2 := by
  have hlen : (place.take (place.length - r.1)).length = place.length - r.1 := by
    simp
  rw [apply, prefix_append_iff, hlen, List.prefix_take_iff]
  have hle : (d.take (place.length - r.1)).length ≤ place.length - r.1 := List.length_take_le ..
  simp only [hle, and_true]

-- ---------------------------------------------------------------------------
-- A stack of bounded depth
-- ---------------------------------------------------------------------------

/-- Down to where `n` names are, and no further. -/
def goWithin (n : Nat) (place : List β) : List (Move β) → List β
  | [] => place
  | .stay :: ms => goWithin n place ms
  | .up :: ms => goWithin n place.dropLast ms
  | .down b :: ms => goWithin n (if place.length < n then place ++ [b] else place) ms

/-- No name was refused since the place was last the root; `ok` says so of the moves that led
to the depth. -/
def settles (n : Nat) (ok : Bool) (depth : Nat) : List (Move β) → Bool
  | [] => ok
  | .stay :: ms => settles n ok depth ms
  | .up :: ms => settles n (ok || depth ≤ 1) (depth - 1) ms
  | .down _ :: ms => settles n (ok && depth < n) (depth + 1) ms

/-- The two places are the same, or names were refused and the bounded one is less deep. -/
def Behind (ok : Bool) (bounded place : List β) : Prop :=
  if ok then bounded = place else bounded.length < place.length

theorem Behind.up (h : Behind ok bounded place) :
    Behind (ok || place.length ≤ 1) bounded.dropLast place.dropLast := by
  cases ok with
  | true => exact congrArg List.dropLast (h : bounded = place)
  | false =>
    have hlt : bounded.length < place.length := h
    by_cases hone : place.length ≤ 1
    · have hbounded : bounded = [] := List.eq_nil_of_length_eq_zero (by omega)
      have hplace : place.dropLast = [] := List.eq_nil_of_length_eq_zero (by
        rw [List.length_dropLast]
        omega)
      rw [Bool.false_or, decide_eq_true hone, hbounded, hplace]
      rfl
    · rw [Bool.false_or, decide_eq_false hone]
      change bounded.dropLast.length < place.dropLast.length
      rw [List.length_dropLast, List.length_dropLast]
      omega

theorem Behind.down {bounded place : List β} (h : Behind ok bounded place) (n : Nat) (b : β) :
    Behind (ok && place.length < n) (if bounded.length < n then bounded ++ [b] else bounded)
      (place ++ [b]) := by
  cases ok with
  | true =>
    obtain rfl : bounded = place := h
    by_cases hlt : bounded.length < n
    · rw [if_pos hlt, decide_eq_true hlt]
      rfl
    · rw [if_neg hlt, decide_eq_false hlt]
      change bounded.length < (bounded ++ [b]).length
      rw [List.length_append]
      exact Nat.lt_succ_self _
  | false =>
    have hlt : bounded.length < place.length := h
    change (if bounded.length < n then bounded ++ [b] else bounded).length < (place ++ [b]).length
    rw [List.length_append, List.length_singleton]
    split
    · rw [List.length_append, List.length_singleton]
      omega
    · omega

theorem goWithin_behind (ms : List (Move β)) (h : Behind ok bounded place) (n : Nat) :
    Behind (settles n ok place.length ms) (goWithin n bounded ms) (go place ms) := by
  induction ms generalizing ok bounded place with
  | nil => exact h
  | cons m ms ih =>
    cases m with
    | stay => exact ih h
    | up =>
      have hup := ih h.up
      rw [List.length_dropLast] at hup
      exact hup
    | down b =>
      have hdown := ih (h.down n b)
      rw [List.length_append] at hdown
      exact hdown

/-- A stack of `n` names comes to the right place when it settles, and to a less deep one
when not. -/
theorem goWithin_cases (n : Nat) (ms : List (Move β)) :
    settles n true 0 ms = true ∧ goWithin n [] ms = go [] ms ∨
      settles n true 0 ms = false ∧ (goWithin n [] ms).length < (go [] ms).length := by
  have hstart : Behind true ([] : List β) [] := rfl
  have h := goWithin_behind ms hstart n
  cases hs : settles n true 0 ms with
  | true => exact .inl ⟨rfl, by simpa only [Behind, List.length_nil, hs, if_true] using h⟩
  | false =>
    refine .inr ⟨rfl, ?_⟩
    rw [List.length_nil, hs] at h
    exact h

end Paths
