import WineGlass.Lib.Move
import WineGlass.Memory.Map
import WineGlass.Memory.Wide

/-!
# Writes that stop

`wg_memory_write` looks up and stores one byte at a time, so a range that runs
into a hole is written up to the hole.
-/

namespace WineGlass.Memory

open Moves

/-- `s'` is `s` with the first `n` bytes of `bs` at `addr`. -/
def Stored (s s' : Space) (addr : Addr) (bs : List Byte) (n : Nat) : Prop :=
  ∀ a, visible s' a = if (a - addr).toNat < n then bs[(a - addr).toNat]? else visible s a

/-- Everything is written, or a failure changes nothing. -/
def AllOrNothing (s : Space) (addr : Addr) (bs : List Byte) : Prop :=
  if (write s addr bs).1 then Stored s (write s addr bs).2 addr bs bs.length
  else ∀ a, visible (write s addr bs).2 a = visible s a

/-- The first `n` of `len` addresses are mapped, and the next one is not. -/
structure MappedUpTo (s : Space) (addr : Addr) (len n : Nat) : Prop where
  le : n ≤ len
  mapped : ∀ i, i < n → (resolve s (addr + BitVec.ofNat 64 i)).isSome
  hole : n < len → resolve s (addr + BitVec.ofNat 64 n) = none

variable {s : Space} {addr : Addr} {bs : List Byte}

theorem visible_put (hp : resolve s addr = some p) (b : Byte) :
    visible (s.put p b) = Function.update (visible s) addr (some b) := by
  funext a
  unfold visible
  rw [put_resolve]
  by_cases ha : a = addr
  · obtain ⟨-, r, hr, -, -⟩ := resolve_some.1 hp
    rw [ha, Function.update_self, hp, Option.map_some,
      put_get_self s p b (List.getElem?_eq_some_iff.1 hr).1]
  · rw [Function.update_of_ne ha]
    cases hq : resolve s a with
    | none => rfl
    | some q =>
      have hne : q ≠ p := by
        rintro rfl
        exact ha (resolve_inj hq hp)
      rw [Option.map_some, Option.map_some, put_get_ne s b hne]

theorem MappedUpTo.put (h : MappedUpTo (s.put p b) addr len n) : MappedUpTo s addr len n where
  le := h.le
  mapped i hi := put_resolve s p b _ ▸ h.mapped i hi
  hole hn := put_resolve s p b _ ▸ h.hole hn

theorem MappedUpTo.succ (h : MappedUpTo s (addr + 1) len n) (hp : resolve s addr = some p) :
    MappedUpTo s addr (len + 1) (n + 1) where
  le := Nat.succ_le_succ h.le
  mapped i hi := by
    cases i with
    | zero => rw [BitVec.add_zero, hp]; rfl
    | succ i => exact add_succ addr i ▸ h.mapped i (Nat.lt_of_succ_lt_succ hi)
  hole hn := add_succ addr n ▸ h.hole (Nat.lt_of_succ_lt_succ hn)

/-- One byte more, in front. -/
theorem Stored.cons (h : Stored (s.put p b) s' (addr + 1) bs n) (hp : resolve s addr = some p)
    (hn : n < 2 ^ 64) : Stored s s' addr (b :: bs) (n + 1) := by
  intro a
  have hshift := offset_shift a addr (show 1 ≤ 2 ^ 64 by decide)
  have hoff := add_offset a addr
  rw [h a, show addr + 1 = addr + BitVec.ofNat 64 1 from rfl, hshift, visible_put hp]
  generalize ho : (a - addr).toNat = o at *
  cases o with
  | zero =>
    obtain rfl : addr = a := by simpa using hoff
    rw [if_neg (show ¬1 ≤ 0 by decide), if_neg (by omega), Function.update_self]
    simp
  | succ o =>
    have hne : a ≠ addr := by
      rintro rfl
      simp at ho
    simp [hne]

/-- A write reaches up to the first hole of its range and changes nothing else; it succeeds exactly
when there is none, and then the whole range reads back. -/
theorem write_law (s : Space) (addr : Addr) (bs : List Byte) (h : bs.length ≤ 2 ^ 64) :
    ∃ n, MappedUpTo s addr bs.length n ∧ ((write s addr bs).1 = true ↔ n = bs.length) ∧
      Stored s (write s addr bs).2 addr bs n := by
  induction bs generalizing s addr with
  | nil => exact ⟨0, ⟨Nat.le_refl 0, nofun, nofun⟩, iff_of_true rfl rfl, fun _ => rfl⟩
  | cons b bs ih =>
    unfold write
    rw [List.length_cons] at h ⊢
    split
    · rename_i hnone
      refine ⟨0, ⟨Nat.zero_le _, nofun, fun _ => ?_⟩, ?_, fun _ => rfl⟩
      · rw [BitVec.add_zero, hnone]
      · exact iff_of_false nofun (Nat.succ_ne_zero _).symm
    · rename_i p hp
      obtain ⟨n, hup, hres, hstored⟩ := ih (s.put p b) (addr + 1) (by omega)
      have hle := hup.le
      refine ⟨n + 1, hup.put.succ hp, ?_, hstored.cons hp (by omega)⟩
      rw [hres, Nat.succ_inj]

/-- One page. -/
def onePage : Space := ⟨[⟨0x1000, 0x1000, 7, fun _ => 0⟩]⟩

theorem write_law_page : ∃ n, MappedUpTo onePage 0x1ffe 3 n ∧
    ((write onePage 0x1ffe [1, 2, 3]).1 = true ↔ n = 3) ∧
      Stored onePage (write onePage 0x1ffe [1, 2, 3]).2 0x1ffe [1, 2, 3] n :=
  write_law onePage 0x1ffe [1, 2, 3] (by decide)

/-- The write fails at the end of the page, with two bytes written. -/
theorem write_partial : ¬∀ (s : Space) (addr : Addr) (bs : List Byte), bs.length < 2 ^ 64 →
    AllOrNothing s addr bs := by
  intro h
  have hfail : (write onePage 0x1ffe [1, 2, 3]).1 = false := by decide
  have hnothing := h onePage 0x1ffe [1, 2, 3] (by decide)
  rw [AllOrNothing, hfail, if_neg Bool.false_ne_true] at hnothing
  exact absurd (hnothing 0x1fff) (by decide)

end WineGlass.Memory
