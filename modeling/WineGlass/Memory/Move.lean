import Mathlib.Logic.Function.Basic
import WineGlass.Lib.Move

/-!
# `memcpy` and `memmove` inside the guest

`WGBlinkVM_MemCopy` cuts the copy where either range meets a page boundary and
moves the pieces in ascending order, each with one host `memmove`; the bounce
buffer reads the whole source first. Of blink the page table is a parameter: it
gives each mapped page a host page of its own.
-/

namespace WineGlass.MemMove

open Moves

abbrev U64 := BitVec 64
abbrev Byte := BitVec 8

/-- Host memory, by host address. -/
abbrev Ram := Nat → Byte

/-- `page` is the page table, by page numbers; `rom` is `IsRomAddress`. -/
structure Vm where
  page : Nat → Option Nat
  rom : Nat → Bool
  own : ∀ p q h, page p = some h → page q = some h → p = q

def lookupAddress (vm : Vm) (a : U64) : Option Nat :=
  (vm.page (a.toNat / 4096)).map fun h => 4096 * h + a.toNat % 4096

/-- The C library's `memmove`. -/
def memmove (ram : Ram) (pd ps k : Nat) : Ram := fun i =>
  if pd ≤ i ∧ i < pd + k then ram (ps + (i - pd)) else ram i

/-- `kd < ks ? kd : ks`, and at most `n`. -/
def pieceLen (dst src : U64) (n : Nat) : Nat :=
  min (min (4096 - dst.toNat % 4096) (4096 - src.toNat % 4096)) n

theorem pieceLen_pos (h : n ≠ 0) : 0 < pieceLen dst src n := by
  unfold pieceLen
  omega

/-- The loop of `WGBlinkVM_MemCopy`: whether it gets to the end, and the memory. -/
def copyLoop (vm : Vm) (ram : Ram) (dst src : U64) (n : Nat) : Bool × Ram :=
  if h : n = 0 then (true, ram)
  else
    let k := pieceLen dst src n
    match lookupAddress vm dst, lookupAddress vm src with
    | some pd, some ps =>
      have : n - k < n := Nat.sub_lt (Nat.pos_of_ne_zero h) (pieceLen_pos h)
      copyLoop vm (if vm.rom pd then ram else memmove ram pd ps k)
        (dst + BitVec.ofNat 64 k) (src + BitVec.ofNat 64 k) (n - k)
    | _, _ => (false, ram)
termination_by n

/-- `WGBlinkVM_MemCopy`. -/
def memCopy (vm : Vm) (ram : Ram) (dst src : U64) (n : U64) : U64 × Ram :=
  let r := copyLoop vm ram dst src n.toNat
  (if r.1 then dst else 0, r.2)

/-- The byte that the guest sees at an address. -/
def view (vm : Vm) (ram : Ram) (a : U64) : Option Byte := (lookupAddress vm a).map ram

def store (vm : Vm) (ram : Ram) (a : U64) (b : Byte) : Ram :=
  match lookupAddress vm a with
  | some p => if vm.rom p then ram else Function.update ram p b
  | none => ram

/-- `wg_blink_read_mem`. -/
def readMem (vm : Vm) (ram : Ram) (a : U64) (n : Nat) : List Byte :=
  (List.range n).map fun i => (view vm ram (a + BitVec.ofNat 64 i)).getD 0

/-- `wg_blink_write_mem`. -/
def writeMem (vm : Vm) (ram : Ram) (a : U64) : List Byte → Ram
  | [] => ram
  | b :: bs => writeMem vm (store vm ram a b) (a + 1) bs

/-- The copy through a buffer, when `malloc` gives one. -/
def bounce (vm : Vm) (malloc : Bool) (ram : Ram) (dst src : U64) (n : U64) : Ram :=
  if malloc then writeMem vm ram dst (readMem vm ram src n.toNat) else ram

/-- `64u * 1024 * 1024`. -/
def maxCopy : Nat := 67108864

/-- The handler; `fast` is that `WG_NO_FASTMEM` is not set. -/
def handler (vm : Vm) (fast malloc : Bool) (ram : Ram) (dst src n : U64) : U64 × Ram :=
  (dst,
    if dst ≠ 0 ∧ src ≠ 0 ∧ n ≠ 0 ∧ n.toNat ≤ maxCopy then
      if fast then
        let r := memCopy vm ram dst src n
        if r.1 = 0 then bounce vm malloc r.2 dst src n else r.2
      else bounce vm malloc ram dst src n
    else ram)

-- ---------------------------------------------------------------------------
-- Ranges
-- ---------------------------------------------------------------------------

def Mapped (vm : Vm) (a : U64) (n : Nat) : Prop :=
  ∀ i, i < n → (lookupAddress vm (a + BitVec.ofNat 64 i)).isSome

def Writable (vm : Vm) (a : U64) (n : Nat) : Prop :=
  ∀ i, i < n → ∃ p, lookupAddress vm (a + BitVec.ofNat 64 i) = some p ∧ vm.rom p = false

/-- The handler leaves memory alone. -/
def Refused (dst src n : U64) : Prop := dst = 0 ∨ src = 0 ∨ maxCopy < n.toNat

/-- A page of either range begins at offset `b`. -/
def Boundary (dst src : U64) (b : Nat) : Prop :=
  4096 ∣ dst.toNat + b ∨ 4096 ∣ src.toNat + b

/-- The source byte at `y` is the destination byte at `x`, in an earlier piece. -/
def Rereads (dst src : U64) (n x y : Nat) : Prop :=
  src + BitVec.ofNat 64 y = dst + BitVec.ofNat 64 x ∧
    ∃ b, x < b ∧ b ≤ y ∧ y < n ∧ Boundary dst src b

/-- Whatever is read after it was written over has been written over by itself. -/
def Undisturbed (g : U64 → Option Byte) (dst src : U64) (n : Nat) : Prop :=
  ∀ x y, Rereads dst src n x y → g (src + BitVec.ofNat 64 x) = g (src + BitVec.ofNat 64 y)

variable {vm : Vm} {ram : Ram} {dst src a : U64}

theorem lookup_add (vm : Vm) (a : U64) (h : a.toNat % 4096 + j < 4096) :
    lookupAddress vm (a + BitVec.ofNat 64 j) = (lookupAddress vm a).map (· + j) := by
  have ha := a.isLt
  have hsum : (a + BitVec.ofNat 64 j).toNat = a.toNat + j := by
    rw [BitVec.toNat_add, BitVec.toNat_ofNat]
    omega
  have hdiv : (a.toNat + j) / 4096 = a.toNat / 4096 := by omega
  have hmod : (a.toNat + j) % 4096 = a.toNat % 4096 + j := by omega
  simp only [lookupAddress, hsum, hdiv, hmod, Option.map_map, Function.comp_def, Nat.add_assoc]

/-- Two guest addresses with host addresses less than a page apart, in the same page. -/
theorem lookup_near (ha : lookupAddress vm a = some p) (hb : lookupAddress vm c = some q)
    (hq : p ≤ q) (hlt : q - p < 4096 - a.toNat % 4096) : c = a + BitVec.ofNat 64 (q - p) := by
  obtain ⟨h, hpage, rfl⟩ := Option.map_eq_some_iff.1 ha
  obtain ⟨h', hpage', rfl⟩ := Option.map_eq_some_iff.1 hb
  obtain rfl : h = h' := by omega
  have hown := vm.own _ _ _ hpage hpage'
  apply BitVec.eq_of_toNat_eq
  have hc := c.isLt
  rw [BitVec.toNat_add, BitVec.toNat_ofNat]
  omega

-- ---------------------------------------------------------------------------
-- A piece
-- ---------------------------------------------------------------------------

theorem memmove_add (h : i < k) : memmove ram pd ps k (pd + i) = ram (ps + i) := by
  simp [memmove, h]

theorem view_memmove (ram : Ram) (hd : lookupAddress vm dst = some pd) (hs : lookupAddress vm src = some ps)
    (hkd : k ≤ 4096 - dst.toNat % 4096) (hks : k ≤ 4096 - src.toNat % 4096) :
    view vm (memmove ram pd ps k) = move (view vm ram) dst src k := by
  have hdm : dst.toNat % 4096 < 4096 := Nat.mod_lt _ (by decide)
  have hsm : src.toNat % 4096 < 4096 := Nat.mod_lt _ (by decide)
  funext c
  by_cases hc : (c - dst).toNat < k
  · rw [move_lt hc]
    have hcd := lookup_add vm dst (j := (c - dst).toNat) (by omega)
    have hcs := lookup_add vm src (j := (c - dst).toNat) (by omega)
    rw [add_offset, hd] at hcd
    rw [ofNat_toNat_self, hs] at hcs
    simp only [view, hcd, hcs, Option.map_some, memmove_add hc]
  · rw [move_ge (Nat.not_lt.1 hc)]
    unfold view
    cases hl : lookupAddress vm c with
    | none => rfl
    | some q =>
      have hout : ¬ (pd ≤ q ∧ q < pd + k) := by
        rintro ⟨hle, hlt⟩
        obtain rfl := lookup_near hd hl hle (by omega)
        rw [add_sub_cancel_ofNat _ (by omega)] at hc
        omega
      simp [memmove, hout]

-- ---------------------------------------------------------------------------
-- The pieces
-- ---------------------------------------------------------------------------

/-- The lengths of the pieces. -/
def pieces (dst src : U64) (n : Nat) : List Nat :=
  if n = 0 then []
  else pieceLen dst src n :: pieces (dst + BitVec.ofNat 64 (pieceLen dst src n))
    (src + BitVec.ofNat 64 (pieceLen dst src n)) (n - pieceLen dst src n)
termination_by n
decreasing_by exact Nat.sub_lt (Nat.pos_of_ne_zero ‹_›) (pieceLen_pos ‹_›)

theorem pieceLen_le : pieceLen dst src n ≤ n := Nat.min_le_right ..

theorem pieces_sum : (pieces dst src n).sum = n := by
  fun_induction pieces dst src n with
  | case1 => rfl
  | case2 dst src n h ih =>
    have hk : pieceLen dst src n ≤ n := pieceLen_le
    rw [List.sum_cons, ih]
    omega

theorem Mapped.rest (h : Mapped vm a n) (hk : k ≤ n) : Mapped vm (a + BitVec.ofNat 64 k) (n - k) := by
  intro i hi
  rw [add_ofNat_add]
  exact h (k + i) (by omega)

theorem Writable.rest (h : Writable vm a n) (hk : k ≤ n) :
    Writable vm (a + BitVec.ofNat 64 k) (n - k) := by
  intro i hi
  rw [add_ofNat_add]
  exact h (k + i) (by omega)

/-- The loop moves the pieces. -/
theorem copyLoop_moves (ram : Ram) (hd : Writable vm dst n) (hs : Mapped vm src n) :
    (copyLoop vm ram dst src n).1 = true ∧
      view vm (copyLoop vm ram dst src n).2 = moves (view vm ram) dst src (pieces dst src n) := by
  fun_induction pieces dst src n generalizing ram with
  | case1 =>
    rw [copyLoop, dif_pos rfl]
    exact ⟨rfl, rfl⟩
  | case2 dst src n h ih =>
    have hn : 0 < n := Nat.pos_of_ne_zero h
    have hk : pieceLen dst src n ≤ n := pieceLen_le
    obtain ⟨pd, hpd, hrom⟩ := hd 0 hn
    obtain ⟨ps, hps⟩ := Option.isSome_iff_exists.1 (hs 0 hn)
    rw [BitVec.add_zero] at hpd hps
    have hview := view_memmove ram (k := pieceLen dst src n) hpd hps
      ((Nat.min_le_left ..).trans (Nat.min_le_left ..))
      ((Nat.min_le_left ..).trans (Nat.min_le_right ..))
    rw [copyLoop, dif_neg h]
    simp only [hpd, hps, hrom, Bool.false_eq_true, ↓reduceIte, moves]
    rw [← hview]
    exact ih _ (hd.rest hk) (hs.rest hk)

theorem boundary_add :
    Boundary (dst + BitVec.ofNat 64 k) (src + BitVec.ofNat 64 k) b ↔ Boundary dst src (k + b) := by
  unfold Boundary
  rw [BitVec.toNat_add, BitVec.toNat_add, BitVec.toNat_ofNat]
  refine or_congr ?_ ?_ <;> omega

/-- A piece begins behind `x` where a page does. -/
theorem lt_start_iff (hn : n ≤ 2 ^ 64) (hy : y < n) : x < start (pieces dst src n) y ↔
    ∃ b, x < b ∧ b ≤ y ∧ Boundary dst src b := by
  fun_induction pieces dst src n generalizing x y with
  | case1 => cases hy
  | case2 dst src n h ih =>
    obtain ⟨k, hkdef⟩ : ∃ k, k = pieceLen dst src n := ⟨_, rfl⟩
    have hk : k ≤ n := hkdef ▸ pieceLen_le
    rw [← hkdef] at ih ⊢
    unfold pieceLen at hkdef
    have hfirst : ∀ b, 0 < b → b < k → ¬ Boundary dst src b := by
      intro b h0 hb hB
      unfold Boundary at hB
      omega
    rw [start]
    split
    · rename_i hyk
      refine iff_of_false (Nat.not_lt_zero x) ?_
      rintro ⟨b, hx, hb, hB⟩
      exact hfirst b (by omega) (by omega) hB
    · rename_i hyk
      have hB : Boundary dst src k := by
        unfold Boundary
        omega
      have hrest : ∀ z, z < start (pieces (dst + BitVec.ofNat 64 k) (src + BitVec.ofNat 64 k) (n - k))
          (y - k) ↔ ∃ b, z < b ∧ b ≤ y - k ∧ Boundary dst src (k + b) := by
        intro z
        simp only [ih (show n - k ≤ 2 ^ 64 by omega) (show y - k < n - k by omega),
          boundary_add]
      constructor
      · intro hx
        by_cases hxk : x < k
        · exact ⟨k, hxk, Nat.not_lt.1 hyk, hB⟩
        · obtain ⟨b, hz, hb, hbB⟩ := (hrest (x - k)).1 (by omega)
          exact ⟨k + b, by omega, by omega, hbB⟩
      · rintro ⟨b, hx, hb, hbB⟩
        by_cases hbk : b ≤ k
        · omega
        · obtain ⟨z, rfl⟩ := Nat.exists_eq_add_of_lt (Nat.not_le.1 hbk)
          have := (hrest (x - k)).2 ⟨z + 1, by omega, by omega, hbB⟩
          omega

theorem undisturbed_iff {g : U64 → Option Byte} (hn : n ≤ 2 ^ 64) : Undisturbed g dst src n ↔
    ∀ y, y < n → (src + BitVec.ofNat 64 y - dst).toNat < start (pieces dst src n) y →
      g (src + (src + BitVec.ofNat 64 y - dst)) = g (src + BitVec.ofNat 64 y) := by
  constructor
  · intro h y hy hlt
    obtain ⟨b, hx, hb, hB⟩ := (lt_start_iff hn hy).1 hlt
    have hsame := h _ y ⟨(add_offset _ dst).symm, b, hx, hb, hy, hB⟩
    rwa [ofNat_toNat_self] at hsame
  · rintro h x y ⟨hxy, b, hx, hb, hy, hB⟩
    have hsame := h y hy
    rw [hxy, add_sub_cancel_ofNat dst (show x < 2 ^ 64 by omega), ← hxy] at hsame
    have hoff : dst + BitVec.ofNat 64 x - dst = BitVec.ofNat 64 x := by
      rw [BitVec.add_comm, BitVec.add_sub_cancel]
    rw [← hsame ((lt_start_iff hn hy).2 ⟨b, hx, hb, hB⟩), hxy, hoff]

-- ---------------------------------------------------------------------------
-- The bounce buffer
-- ---------------------------------------------------------------------------

theorem view_store (ha : lookupAddress vm a = some p) (hrom : vm.rom p = false) :
    view vm (store vm ram a b) = Function.update (view vm ram) a (some b) := by
  funext c
  simp only [store, ha, hrom, Bool.false_eq_true, ↓reduceIte]
  by_cases hc : c = a
  · simp [view, hc, ha]
  · rw [Function.update_of_ne hc]
    unfold view
    cases hq : lookupAddress vm c with
    | none => rfl
    | some q =>
      have hne : q ≠ p := by
        rintro rfl
        have hmod : a.toNat % 4096 < 4096 := Nat.mod_lt _ (by decide)
        exact hc (by simpa using lookup_near ha hq (Nat.le_refl q) (by omega))
      rw [Option.map_some, Function.update_of_ne hne, Option.map_some]

theorem view_writeMem (hw : Writable vm a bs.length) (hlen : bs.length ≤ 2 ^ 64) (c : U64) :
    view vm (writeMem vm ram a bs) c =
      if (c - a).toNat < bs.length then bs[(c - a).toNat]? else view vm ram c := by
  induction bs generalizing ram a with
  | nil => rfl
  | cons b bs ih =>
    rw [List.length_cons] at hw hlen ⊢
    obtain ⟨p, hp, hrom⟩ := hw 0 (Nat.succ_pos _)
    rw [BitVec.add_zero] at hp
    have hrest : Writable vm (a + BitVec.ofNat 64 1) bs.length := hw.rest (Nat.succ_pos _)
    have hshift := offset_shift c a (show 1 ≤ 2 ^ 64 by decide)
    rw [writeMem, show a + 1 = a + BitVec.ofNat 64 1 from rfl, ih hrest (by omega), hshift,
      view_store hp hrom]
    have hself : c = a → (c - a).toNat = 0 := by
      rintro rfl
      simp
    have hoff := add_offset c a
    generalize (c - a).toNat = o at *
    cases o with
    | zero =>
      obtain rfl : a = c := by simpa using hoff
      have hpast : ¬ 2 ^ 64 + 0 - 1 < bs.length := by omega
      rw [if_neg (show ¬ 1 ≤ 0 by decide), if_neg hpast, Function.update_self]
      simp
    | succ o =>
      have hne : c ≠ a := fun h => Nat.succ_ne_zero o (hself h)
      simp [hne]

theorem readMem_get (hs : Mapped vm src n) (hi : i < n) :
    (readMem vm ram src n)[i]? = view vm ram (src + BitVec.ofNat 64 i) := by
  obtain ⟨p, hp⟩ := Option.isSome_iff_exists.1 (hs i hi)
  simp [readMem, hi, view, hp]

/-- The buffer moves the range as a whole. -/
theorem view_bounce {n : U64} (hd : Writable vm dst n.toNat) (hs : Mapped vm src n.toNat) :
    view vm (bounce vm true ram dst src n) = move (view vm ram) dst src n.toNat := by
  funext c
  have hlen : (readMem vm ram src n.toNat).length = n.toNat := by simp [readMem]
  have hn := n.isLt
  rw [bounce, if_pos rfl, view_writeMem (hlen.symm ▸ hd) (by omega), hlen]
  split
  · rename_i hc
    rw [move_lt hc, readMem_get hs hc, ofNat_toNat_self]
  · rename_i hc
    rw [move_ge (Nat.not_lt.1 hc)]

-- ---------------------------------------------------------------------------
-- The handler
-- ---------------------------------------------------------------------------

instance : Decidable (Refused dst src n) := inferInstanceAs (Decidable (_ ∨ _ ∨ _))

theorem handler_refused {n : U64} (h : Refused dst src n) :
    (handler vm fast malloc ram dst src n).2 = ram := by
  refine if_neg ?_
  rintro ⟨hdst, hsrc, -, hn⟩
  rcases h with h | h | h
  · exact hdst h
  · exact hsrc h
  · exact absurd hn (Nat.not_le.2 h)

theorem handler_slow {n : U64} (h : ¬ Refused dst src n) :
    (handler vm false malloc ram dst src n).2 = bounce vm malloc ram dst src n := by
  by_cases hn : n = 0
  · subst hn
    cases malloc <;> simp [handler, bounce, readMem, writeMem]
  · obtain ⟨hdst, hsrc, hmax⟩ : dst ≠ 0 ∧ src ≠ 0 ∧ ¬ maxCopy < n.toNat := by simpa [Refused] using h
    exact if_pos ⟨hdst, hsrc, hn, Nat.not_lt.1 hmax⟩

theorem handler_fast {n : U64} (h : ¬ Refused dst src n) (hd : Writable vm dst n.toNat)
    (hs : Mapped vm src n.toNat) : view vm (handler vm true malloc ram dst src n).2 =
      moves (view vm ram) dst src (pieces dst src n.toNat) := by
  obtain ⟨hdone, hview⟩ := copyLoop_moves ram hd hs
  rw [← hview]
  obtain ⟨hdst, hsrc, hmax⟩ : dst ≠ 0 ∧ src ≠ 0 ∧ ¬ maxCopy < n.toNat := by simpa [Refused] using h
  by_cases hn : n = 0
  · subst hn
    simp [handler, copyLoop]
  · rw [handler, if_pos ⟨hdst, hsrc, hn, Nat.not_lt.1 hmax⟩]
    simp only [memCopy, hdone, ↓reduceIte, hdst]

theorem pieces_moved_iff {g : U64 → Option Byte} (hn : n ≤ 2 ^ 64) :
    Moved g (moves g dst src (pieces dst src n)) dst src n ↔ Undisturbed g dst src n := by
  have hiff := moved_iff g dst src (pieces dst src n) (pieces_sum ▸ hn)
  rw [pieces_sum] at hiff
  exact hiff.trans (undisturbed_iff hn).symm

/-- The handler moves the range exactly when it does not refuse it, or nothing need move,
and no piece disturbs a later one; its two paths agree exactly then. -/
theorem memmove_law (vm : Vm) (ram : Ram) (fast malloc : Bool) (dst src n : U64)
    (hd : Writable vm dst n.toNat) (hs : Mapped vm src n.toNat) :
    (Moved (view vm ram) (view vm (handler vm fast malloc ram dst src n).2) dst src n.toNat ↔
      if Refused dst src n ∨ fast = false ∧ malloc = false then
        ∀ i, i < n.toNat → view vm ram (dst + BitVec.ofNat 64 i) = view vm ram (src + BitVec.ofNat 64 i)
      else fast = true → Undisturbed (view vm ram) dst src n.toNat) ∧
    (view vm (handler vm true malloc ram dst src n).2 =
        view vm (handler vm false true ram dst src n).2 ↔
      Refused dst src n ∨ Undisturbed (view vm ram) dst src n.toNat) := by
  have hn : n.toNat ≤ 2 ^ 64 := Nat.le_of_lt n.isLt
  have hwhole := move_moved (view vm ram) dst src hn
  by_cases hr : Refused dst src n
  · rw [handler_refused hr, if_pos (.inl hr), handler_refused hr, handler_refused hr]
    exact ⟨moved_self_iff, iff_of_true rfl (.inl hr)⟩
  refine ⟨?_, ?_⟩
  · cases fast with
    | true =>
      rw [handler_fast hr hd hs, if_neg (by simp [hr]), pieces_moved_iff hn]
      exact ⟨fun h _ => h, fun h => h rfl⟩
    | false =>
      rw [handler_slow hr]
      cases malloc with
      | true =>
        rw [view_bounce hd hs, if_neg (by simp [hr])]
        exact iff_of_true hwhole nofun
      | false =>
        rw [if_pos (.inr ⟨rfl, rfl⟩)]
        exact moved_self_iff
  · rw [handler_fast hr hd hs, handler_slow hr, view_bounce hd hs, or_iff_right hr,
      ← pieces_moved_iff hn]
    exact ⟨fun h => h ▸ hwhole, fun h => h.unique hwhole⟩

/-- Nothing is disturbed when the destination lies behind the source, or apart from it. -/
theorem undisturbed_of_le {g : U64 → Option Byte} (h : n ≤ (dst - src).toNat) :
    Undisturbed g dst src n := by
  rintro x y ⟨hxy, b, hx, hb, hy, -⟩
  have hd := congrArg BitVec.toNat hxy
  have hs := src.isLt
  have hdlt := dst.isLt
  simp only [BitVec.toNat_add, BitVec.toNat_sub, BitVec.toNat_ofNat] at hd h
  omega

/-- A guest whose pages are those of the host. -/
def flat : Vm := ⟨some, fun _ => false, by simp⟩

def count : Ram := fun i => BitVec.ofNat 8 i

theorem flat_lookup (a : U64) : lookupAddress flat a = some a.toNat := by
  simp only [lookupAddress, flat, Option.map_some, Option.some.injEq]
  exact Nat.div_add_mod ..

theorem flat_writable (a : U64) (n : Nat) : Writable flat a n := fun _ _ => ⟨_, flat_lookup _, rfl⟩

theorem flat_mapped (a : U64) (n : Nat) : Mapped flat a n := fun _ _ => by rw [flat_lookup]; rfl

/-- Three bytes one down, over a page boundary. -/
theorem memmove_law_down : Moved (view flat count)
    (view flat (handler flat true true count 0x1ffe 0x1fff 3).2) 0x1ffe 0x1fff 3 := by
  refine (memmove_law flat count true true 0x1ffe 0x1fff 3 (flat_writable _ _) (flat_mapped _ _)).1.2 ?_
  rw [if_neg (by decide)]
  exact fun _ => undisturbed_of_le (by decide)

/-- Three bytes one up: the first piece is one byte, which the second reads again. -/
theorem moved_up_repeats : ¬ ∀ (dst src n : U64), Writable flat dst n.toNat → Mapped flat src n.toNat →
    Moved (view flat count) (view flat (handler flat true true count dst src n).2) dst src n.toNat := by
  intro h
  have hmoved := h 0x1fff 0x1ffe 3 (flat_writable _ _) (flat_mapped _ _)
  rw [handler_fast (by decide) (flat_writable _ _) (flat_mapped _ _), pieces_moved_iff (by decide)]
    at hmoved
  have hsame := hmoved 0 1 ⟨by decide, 1, by decide, by decide, by decide, .inl (by decide)⟩
  simp only [view, flat_lookup] at hsame
  exact absurd hsame (by decide)

end WineGlass.MemMove
