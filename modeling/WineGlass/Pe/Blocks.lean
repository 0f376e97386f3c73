import WineGlass.Pe.Relocation

/-!
# The relocation blocks

The block loop of `wg_pe_rebase` turn by turn: which blocks it comes to, and where the
headers and entries lie that it reads. A sum of offset and size can wrap to one that passes
the check, and the data of a section can end within a block.
-/

namespace WineGlass.Pe

open CInt Fields

section
variable (ss : List Section) (reloc : Directory) (delta : U64)

/-- One turn of the block loop: `some none` ends it, `none` is an access outside the buffer. -/
def turn (off : U32) (d : Buffer) : Option (Option (U32 × Buffer)) :=
  if off + 8 ≤ reloc.size then
    match rvaToPtr ss (reloc.rva + off) with
    | none => some none
    | some blk =>
      (d.load32 blk).bind fun pageRva =>
      (d.load32 (blk + 4)).bind fun blkSize =>
        if blkSize < 8 ∨ reloc.size < off + blkSize then some none
        else
          (fixups ss delta pageRva blk ((blkSize - 8).toNat / 2) 0 d).map fun d =>
            some (off + blkSize, d)
  else some none

end

theorem relocate_turn : relocate ss reloc delta (fuel + 1) off d =
    (turn ss reloc delta off d).bind fun
      | none => some d
      | some (off', d') => relocate ss reloc delta fuel off' d' := by
  rw [relocate, turn]
  by_cases hmore : off + 8 ≤ reloc.size
  · rw [if_pos hmore, if_pos hmore]
    cases rvaToPtr ss (reloc.rva + off) with
    | none => rfl
    | some blk =>
      dsimp only
      rw [Option.bind_assoc]
      refine Option.bind_congr fun page _ => ?_
      rw [Option.bind_assoc]
      refine Option.bind_congr fun size _ => ?_
      split
      · rfl
      · rw [Option.bind_map]
        rfl
  · rw [if_neg hmore, if_neg hmore]
    rfl

/-- The block loop of a call, begun and come to `off` after `n` turns. -/
inductive Reaches (img : Image) (b : U64) : Nat → U32 → Buffer → Prop
  | start : img.imageBase ≠ b → img.reloc.rva ≠ 0 → img.reloc.size ≠ 0 →
      Reaches img b 0 0 img.raw
  | turn : Reaches img b n off d →
      turn img.sections img.reloc (b - img.imageBase) off d = some (some (off', d')) →
      Reaches img b (n + 1) off' d'

theorem Reaches.relocate (h : Reaches img b n off d) :
    relocate img.sections img.reloc (b - img.imageBase) (n + fuel) 0 img.raw =
      relocate img.sections img.reloc (b - img.imageBase) fuel off d := by
  induction h generalizing fuel with
  | start => rw [Nat.zero_add]
  | turn _ ht ih => rw [Nat.add_right_comm, Nat.add_assoc, ih, relocate_turn, ht, Option.bind_some]

/-- The loop reads the header at `blk`. -/
def HasBlock (img : Image) (off : U32) (blk : Nat) : Prop :=
  off + 8 ≤ img.reloc.size ∧ rvaToPtr img.sections (img.reloc.rva + off) = some blk

/-- The header passes the check, and has `count` entries. -/
def Passes (img : Image) (off : U32) (d : Buffer) (blk : Nat) (page : U32) (count : Nat) : Prop :=
  d.load32 blk = some page ∧ ∃ size, d.load32 (blk + 4) = some size ∧
    ¬ (size < 8 ∨ img.reloc.size < off + size) ∧ count = (size - 8).toNat / 2

-- ---------------------------------------------------------------------------
-- The bytes of the directory
-- ---------------------------------------------------------------------------

/-- The section an RVA is found in. -/
def holder (img : Image) (off : U32) : Option Section :=
  img.sections.find? fun s => (s.ptr (img.reloc.rva + off)).isSome

/-- The `w` bytes at `k` from the byte `off` of the directory are bytes of the directory, and
of the section that byte is found in. -/
def Inside (img : Image) (off : U32) (k : Int) (w : Nat) : Prop :=
  ∃ s ∈ holder img off, 0 ≤ off.toNat + k ∧ off.toNat + k + w ≤ img.reloc.size.toNat ∧
    s.virtualAddress.toNat ≤ img.reloc.rva.toNat + off.toNat + k ∧
    img.reloc.rva.toNat + off.toNat + k + w ≤ s.virtualAddress.toNat + s.rawSize.toNat

/-- How much of the directory there is from its byte `off` on in the section of that byte. -/
def room (img : Image) (off : U32) : Nat :=
  match holder img off with
  | none => 0
  | some s => min (img.reloc.size.toNat - off.toNat)
      (s.virtualAddress.toNat + s.rawSize.toNat - (img.reloc.rva.toNat + off.toNat))

theorem ptr_range (h : (Section.ptr s rva).isSome) :
    s.virtualAddress.toNat ≤ rva.toNat ∧ s.virtualAddress.toNat + s.rawSize.toNat < 2 ^ 32 := by
  unfold Section.ptr at h
  split at h
  case isFalse => cases h
  rename_i hin
  obtain ⟨hl, hu⟩ := hin
  rw [BitVec.le_def] at hl
  rw [BitVec.lt_def, BitVec.toNat_add] at hu
  have := s.virtualAddress.isLt
  have := s.rawSize.isLt
  omega

theorem holder_range (h : holder img off = some s) :
    s.virtualAddress.toNat ≤ img.reloc.rva.toNat + off.toNat ∧
      s.virtualAddress.toNat + s.rawSize.toNat < 2 ^ 32 := by
  unfold holder at h
  have hsome := List.find?_some h
  obtain ⟨hl, hu⟩ := ptr_range hsome
  rw [BitVec.toNat_add] at hl
  exact ⟨hl.trans (Nat.mod_le ..), hu⟩

theorem inside_room (hw : 0 < w) : Inside img off (k : Nat) w ↔ k + w ≤ room img off := by
  unfold Inside room
  cases hs : holder img off with
  | none => simp; omega
  | some s =>
    obtain ⟨hl, -⟩ := holder_range hs
    simp only [Option.mem_def, Option.some.injEq, exists_eq_left']
    omega

theorem room_le (h : 0 < room img off) :
    off.toNat + room img off ≤ img.reloc.size.toNat ∧
      img.reloc.rva.toNat + off.toNat + room img off < 2 ^ 32 := by
  unfold room at *
  cases hs : holder img off with
  | none =>
    rw [hs] at h
    exact absurd h (Nat.lt_irrefl _)
  | some s =>
    obtain ⟨-, hu⟩ := holder_range hs
    rw [hs] at h
    dsimp only at h ⊢
    omega

-- ---------------------------------------------------------------------------
-- The condition
-- ---------------------------------------------------------------------------

/-- The header, and the entries up to one whose fixup leaves the buffer, end within what
there is of the directory; and no more entries than `i * 2` can count. -/
def Fits (img : Image) (b : U64) (off : U32) (d : Buffer) : Prop :=
  ∀ blk, HasBlock img off blk → 8 ≤ room img off ∧ ∀ page count, Passes img off d blk page count →
    ∃ m ≤ count, (m = count ∨
        fixups img.sections (b - img.imageBase) page blk m 0 d = none) ∧
      m ≤ 2 ^ 30 ∧ 8 + 2 * m ≤ room img off

/-- The block loop of the call ends, and what it reads of headers and entries lies in the
directory; an entry is read once the fixups of those before it are done. -/
structure Orderly (img : Image) (b : U64) : Prop where
  ends : ∃ limit, ∀ n off d, Reaches img b n off d → n ≤ limit
  header : ∀ n off d blk, Reaches img b n off d → HasBlock img off blk → Inside img off (0 : Nat) 8
  entry : ∀ n off d blk page count i, Reaches img b n off d → HasBlock img off blk →
    Passes img off d blk page count → i < count →
    (fixups img.sections (b - img.imageBase) page blk i 0 d).isSome →
    Inside img off (8 + cInt (i * 2)) 2

/-- The first entries of those done are done. -/
theorem fixups_le (hle : m ≤ n) (h : (fixups ss delta page blk n i d).isSome) :
    (fixups ss delta page blk m i d).isSome := by
  induction m generalizing n i d with
  | zero => rfl
  | succ m ih =>
    cases n with
    | zero => omega
    | succ n =>
      rw [fixups] at h ⊢
      obtain ⟨d', h⟩ := Option.isSome_iff_exists.1 h
      obtain ⟨off, hoff, h⟩ := Option.bind_eq_some_iff.1 h
      obtain ⟨e, he, h⟩ := Option.bind_eq_some_iff.1 h
      obtain ⟨d₁, hd, h⟩ := Option.bind_eq_some_iff.1 h
      rw [hoff, Option.bind_some, he, Option.bind_some, hd, Option.bind_some]
      exact ih (Nat.le_of_succ_le_succ hle) (Option.isSome_of_eq_some h)

theorem cInt_small {i : Nat} (h : i < 2 ^ 30) : cInt ((i : Int) * 2) = i * 2 :=
  cInt_eq (by unfold intMax; omega) (by unfold intMax; omega)

/-- When the entries that are read lie inside, there is room for them. -/
theorem room_of_inside {m : Nat} (h8 : 8 ≤ room img off)
    (h : ∀ i < m, Inside img off (8 + cInt ((i : Int) * 2)) 2) :
    m ≤ 2 ^ 30 ∧ 8 + 2 * m ≤ room img off := by
  have hroom : ∀ i < m, i < 2 ^ 30 → 8 + 2 * i + 2 ≤ room img off := by
    intro i hi hsmall
    have hin := h i hi
    rw [cInt_small hsmall, show (8 + (i : Int) * 2) = ((8 + 2 * i : Nat) : Int) by omega] at hin
    exact (inside_room (Nat.succ_pos 1)).1 hin
  have hm : m ≤ 2 ^ 30 := by
    by_contra hbig
    -- the entry after 2 ^ 30 others is looked for 2 GiB before its block
    obtain ⟨s, -, hlow, -⟩ := h (2 ^ 30) (by omega)
    rw [show cInt (((2 ^ 30 : Nat) : Int) * 2) = -2 ^ 31 by decide] at hlow
    have hlast := hroom (2 ^ 30 - 1) (by omega) (by omega)
    have hsize := (room_le (by omega : 0 < room img off)).1
    have := img.reloc.size.isLt
    omega
  refine ⟨hm, ?_⟩
  cases m with
  | zero => exact h8
  | succ m =>
    have := hroom m (Nat.lt_succ_self m) (by omega)
    omega

/-- A turn that goes on leads at least 8 bytes on. -/
theorem Fits.turn (h : Fits img b off d) (hrva : img.reloc.rva ≠ 0)
    (ht : turn img.sections img.reloc (b - img.imageBase) off d = some (some (off', d'))) :
    off.toNat + 8 ≤ off'.toNat := by
  unfold Pe.turn at ht
  split at ht
  case isFalse => cases ht
  rename_i hmore
  split at ht
  case h_1 => cases ht
  rename_i blk hblk
  obtain ⟨page, hpage, ht⟩ := Option.bind_eq_some_iff.1 ht
  obtain ⟨size, hsize, ht⟩ := Option.bind_eq_some_iff.1 ht
  split at ht
  case isTrue => cases ht
  rename_i hpass
  obtain ⟨d₁, hd, heq⟩ := Option.map_eq_some_iff.1 ht
  obtain ⟨rfl, rfl⟩ := Prod.mk.inj (Option.some.inj heq)
  obtain ⟨h8, hfits⟩ := h blk ⟨hmore, hblk⟩
  obtain ⟨m, hle, hm, -, hroom⟩ := hfits page _ ⟨hpage, size, hsize, hpass, rfl⟩
  have hdone := fixups_le hle (Option.isSome_of_eq_some hd)
  obtain rfl : m = (size - 8).toNat / 2 := by
    rcases hm with hm | hm
    · exact hm
    · rw [hm] at hdone
      cases hdone
  have hpos : 0 < room img off := by omega
  obtain ⟨-, hend⟩ := room_le hpos
  have hrva' : 0 < img.reloc.rva.toNat := Nat.pos_of_ne_zero fun h => hrva (BitVec.eq_of_toNat_eq h)
  have hsmall : ¬ size.toNat < 8 := fun h => hpass (.inl (BitVec.lt_def.2 h))
  have hsub : (size - 8).toNat = size.toNat - 8 :=
    BitVec.toNat_sub_of_le (BitVec.le_def.2 (Nat.le_of_not_lt hsmall))
  have h8' : (8 : U32).toNat = 8 := rfl
  rw [BitVec.toNat_add]
  omega

theorem Reaches.rva (h : Reaches img b n off d) : img.reloc.rva ≠ 0 := by
  induction h with
  | start _ h _ => exact h
  | turn _ _ ih => exact ih

/-- Where all blocks fit, every turn leads on. -/
theorem Reaches.advances (h : Reaches img b n off d)
    (hfits : ∀ n off d, Reaches img b n off d → Fits img b off d) : 8 * n ≤ off.toNat := by
  induction h with
  | start => exact Nat.zero_le _
  | turn h ht ih =>
    have := (hfits _ _ _ h).turn h.rva ht
    omega

/-- The block loop ends, reading headers and entries of the directory only, if and only if
every block it comes to fits. -/
theorem blocks_law (img : Image) (b : U64) :
    Orderly img b ↔ ∀ n off d, Reaches img b n off d → Fits img b off d := by
  constructor
  · intro h n off d hr blk hblk
    have h8 : 8 ≤ room img off := by
      simpa using (inside_room (by decide)).1 (h.header n off d blk hr hblk)
    refine ⟨h8, fun page count hpass => ?_⟩
    have hsome : ∃ m, m = count ∨
        fixups img.sections (b - img.imageBase) page blk m 0 d = none := ⟨count, .inl rfl⟩
    classical
    -- `m` entries are read: all, or those up to the first whose fixup fails
    let m := Nat.find hsome
    have hle : m ≤ count := Nat.find_min' hsome (.inl rfl)
    have hread : ∀ i < m, Inside img off (8 + cInt ((i : Int) * 2)) 2 := by
      intro i hi
      have hgo := Nat.find_min hsome hi
      refine h.entry n off d blk page count i hr hblk hpass (hi.trans_le hle) ?_
      exact Option.isSome_iff_ne_none.2 fun hnone => hgo (.inr hnone)
    exact ⟨m, hle, Nat.find_spec hsome, room_of_inside h8 hread⟩
  · intro hfits
    refine ⟨⟨2 ^ 29, fun n off d hr => ?_⟩, fun n off d blk hr hblk => ?_,
      fun n off d blk page count i hr hblk hpass hi hdone => ?_⟩
    · have := hr.advances hfits
      have := off.isLt
      omega
    · exact (inside_room (by decide)).2 (hfits n off d hr blk hblk).1
    · obtain ⟨m, hle, hm, hsmall, hroom⟩ := (hfits n off d hr blk hblk).2 page count hpass
      have him : i < m := by
        rcases hm with rfl | hm
        · exact hi
        · by_contra hge
          have := fixups_le (Nat.le_of_not_lt hge) hdone
          rw [hm] at this
          cases this
      rw [cInt_small (him.trans_le hsmall),
        show (8 + (i : Int) * 2) = ((8 + 2 * i : Nat) : Int) by omega]
      exact (inside_room (by decide)).2 (by omega)

/-- Two blocks in a directory of 16 bytes: one of 8 bytes, and one of 8 less than 2 ^ 32. -/
def wrapImage : Image := oneBlock 0 0x100 0x100 16 <| .sparse 512
  [(0x104, 8), (0x10C, 0xF8), (0x10D, 0xFF), (0x10E, 0xFF), (0x10F, 0xFF)]

/-- The size of the second block passes the check, and its entries lie behind the directory. -/
theorem wrap_escapes : ¬ ∀ img b, Orderly img b := by
  intro h
  have hfirst : turn wrapImage.sections wrapImage.reloc (1 - wrapImage.imageBase) 0 wrapImage.raw =
      some (some (8, wrapImage.raw)) := rfl
  have hreach : Reaches wrapImage 1 1 8 wrapImage.raw :=
    .turn (.start (by decide) (by decide) (by decide)) hfirst
  have hpass : Passes wrapImage 8 wrapImage.raw 0x108 0 0x7FFFFFF8 :=
    ⟨rfl, 0xFFFFFFF8, rfl, by decide, rfl⟩
  obtain ⟨s, -, -, hout, -⟩ := (h wrapImage 1).entry 1 8 _ 0x108 0 _ 0 hreach ⟨by decide, rfl⟩ hpass
    (by decide) rfl
  revert hout
  decide

end WineGlass.Pe
