import WineGlass.Lib.CInt

/-!
# Computations that may fault

C gives no meaning to a signed result that is out of range or to an access
outside of an object. A computation with such steps ends in a fault at the first
of them, so one that ends well has kept to the ranges all along.
-/

namespace Faults

open CInt

inductive Fault
  | overflow
  | outside
  deriving DecidableEq

abbrev Faulty := Except Fault

/-- The values of an `int`. -/
def Fits (x : Int) : Prop := -intMax - 1 ≤ x ∧ x ≤ intMax

instance (x : Int) : Decidable (Fits x) := inferInstanceAs (Decidable (_ ∧ _))

/-- The result of an operation on `int`s whose exact value is `x`. -/
def int (x : Int) : Faulty Int := if Fits x then .ok x else .error .overflow

def get [GetElem? c Nat α valid] (xs : c) (i : Nat) : Faulty α :=
  match xs[i]? with
  | some a => .ok a
  | none => .error .outside

def put (xs : Vector α n) (i : Nat) (a : α) : Faulty (Vector α n) :=
  if h : i < n then .ok (xs.set i a h) else .error .outside

/-- The turns `0`, …, `n - 1` of a loop. -/
def each (f : Nat → σ → Faulty σ) : Nat → σ → Faulty σ
  | 0, s => .ok s
  | n + 1, s => each f n s >>= f n

/-- The computation ends without a fault. -/
def Ends (x : Faulty α) : Prop := ∃ a, x = .ok a

-- ---------------------------------------------------------------------------
-- Single steps
-- ---------------------------------------------------------------------------

@[simp] theorem ok_bind (a : α) (f : α → Faulty β) : (Except.ok a >>= f) = f a := rfl

@[simp] theorem error_bind (e : Fault) (f : α → Faulty β) :
    ((Except.error e : Faulty α) >>= f) = .error e := rfl

theorem bind_eq_ok {x : Faulty α} {f : α → Faulty β} :
    x >>= f = .ok b ↔ ∃ a, x = .ok a ∧ f a = .ok b := by
  cases x with
  | ok a => simp
  | error e => simp

theorem fits_iff : Fits x ↔ -2147483648 ≤ x ∧ x ≤ 2147483647 := Iff.rfl

theorem int_ok (h : Fits x) : int x = .ok x := if_pos h

theorem int_error (h : ¬ Fits x) : int x = .error .overflow := if_neg h

theorem int_eq_ok : int x = .ok y ↔ Fits x ∧ x = y := by
  unfold int
  split <;> simp_all

theorem get_ok [GetElem? c Nat α valid] {xs : c} (h : xs[i]? = some a) : get xs i = .ok a := by
  unfold get
  rw [h]

theorem put_ok {xs : Vector α n} (h : i < n) : put xs i a = .ok (xs.set i a h) := dif_pos h

theorem Ends.ok (a : α) : Ends (.ok a : Faulty α) := ⟨a, rfl⟩

theorem not_ends_error {e : Fault} : ¬ Ends (.error e : Faulty α) := by
  rintro ⟨a, h⟩
  cases h

instance : DecidablePred (Ends : Faulty α → Prop)
  | .ok a => isTrue (.ok a)
  | .error _ => isFalse not_ends_error

theorem ends_int : Ends (int x) ↔ Fits x := by
  constructor
  · rintro ⟨y, h⟩
    exact (int_eq_ok.mp h).1
  · exact fun h => ⟨x, int_ok h⟩

theorem ends_bind {x : Faulty α} {f : α → Faulty β} :
    Ends (x >>= f) ↔ ∃ a, x = .ok a ∧ Ends (f a) := by
  cases x with
  | ok a => simp
  | error e => simp [not_ends_error]

-- ---------------------------------------------------------------------------
-- Loops
-- ---------------------------------------------------------------------------

@[simp] theorem each_zero (f : Nat → σ → Faulty σ) (s : σ) : each f 0 s = .ok s := rfl

theorem each_succ (f : Nat → σ → Faulty σ) : each f (n + 1) s = each f n s >>= f n := rfl

/-- What every turn keeps holds when the loop is over. -/
theorem each_keeps {f : Nat → σ → Faulty σ} {I : Nat → σ → Prop} (init : I 0 s)
    (keep : ∀ {j s s'}, j < n → I j s → f j s = .ok s' → I (j + 1) s')
    (h : each f n s = .ok s') : I n s' := by
  induction n generalizing s' with
  | zero =>
    cases h
    exact init
  | succ n ih =>
    obtain ⟨m, hm, hn⟩ := bind_eq_ok.mp h
    exact keep (Nat.lt_succ_self n) (ih (fun hj => keep (Nat.lt_succ_of_lt hj)) hm) hn

/-- When a turn's faults depend on the turn alone. -/
theorem ends_each {f : Nat → σ → Faulty σ} {P : Nat → Prop}
    (turn : ∀ j s, j < n → (Ends (f j s) ↔ P j)) : Ends (each f n s) ↔ ∀ j < n, P j := by
  induction n with
  | zero => simp [Ends]
  | succ n ih =>
    have hrest := ih fun j s hj => turn j s (Nat.lt_succ_of_lt hj)
    rw [each_succ, ends_bind]
    constructor
    · rintro ⟨m, hm, hn⟩ j hj
      rcases Nat.lt_succ_iff_lt_or_eq.mp hj with hj | rfl
      · exact hrest.mp ⟨m, hm⟩ j hj
      · exact (turn j m (Nat.lt_succ_self j)).mp hn
    · intro hall
      obtain ⟨m, hm⟩ := hrest.mpr fun j hj => hall j (Nat.lt_succ_of_lt hj)
      exact ⟨m, hm, (turn n m (Nat.lt_succ_self n)).mpr (hall n (Nat.lt_succ_self n))⟩

end Faults
