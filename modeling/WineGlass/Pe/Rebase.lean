import WineGlass.Lib.CInt
import WineGlass.Pe.Image

/-!
# Rebasing

`wg_pe_rebase`: the relocation blocks are walked through `rva_to_ptr`, each fixup
is moved by the difference of the bases, and the `ImageBase` of the header is
rewritten. `none` is an access outside the buffer, or a block loop that `fuel`
turns do not end.
-/

namespace WineGlass.Pe

open CInt Fields

/-- `page_rva + (e & 0xFFF)`. -/
def fixRva (page : U32) (e : U16) : U32 := page + (e &&& 0xFFF).setWidth 32

/-- The bytes moved for an entry: DIR64 and HIGHLOW, all others being skipped. -/
def fixWidth (e : U16) : Option Nat :=
  if e >>> 12 = 10 then some 8 else if e >>> 12 = 3 then some 4 else none

/-- `v = v + delta` on `w` bytes, added in 64 bits. -/
def move (d : Buffer) (p w : Nat) (delta : U64) : Option Buffer :=
  (d.load p w).bind fun v => d.store p w (BitVec.ofNat 64 v + delta).toNat

/-- The body of the entry loop. -/
def fixup (ss : List Section) (delta : U64) (page : U32) (d : Buffer) (e : U16) : Option Buffer :=
  match fixWidth e with
  | none => some d
  | some w =>
    match rvaToMut ss (fixRva page e) (BitVec.ofNat 32 w) with
    | none => some d
    | some p => move d p w delta

/-- `blk + 8 + i * 2`, the product being an `int`; none before the buffer. -/
def entryOffset (blk i : Nat) : Option Nat :=
  if 0 ≤ (blk : Int) + 8 + cInt (i * 2) then some ((blk : Int) + 8 + cInt (i * 2)).toNat else none

/-- The entry loop at `i` with `left` entries to go. -/
def fixups (ss : List Section) (delta : U64) (page : U32) (blk : Nat) :
    (left i : Nat) → Buffer → Option Buffer
  | 0, _, d => some d
  | left + 1, i, d =>
    (entryOffset blk i).bind fun off =>
    (d.load16 off).bind fun e =>
    (fixup ss delta page d e).bind fun d => fixups ss delta page blk left (i + 1) d

/-- The block loop at `off`. -/
def relocate (ss : List Section) (reloc : Directory) (delta : U64) :
    (fuel : Nat) → (off : U32) → Buffer → Option Buffer
  | 0, _, _ => none
  | fuel + 1, off, d =>
    if off + 8 ≤ reloc.size then
      match rvaToPtr ss (reloc.rva + off) with
      | none => some d
      | some blk =>
        (d.load32 blk).bind fun pageRva =>
        (d.load32 (blk + 4)).bind fun blkSize =>
          if blkSize < 8 ∨ reloc.size < off + blkSize then some d
          else
            (fixups ss delta pageRva blk ((blkSize - 8).toNat / 2) 0 d).bind fun d =>
            relocate ss reloc delta fuel (off + blkSize) d
    else some d

/-- The rewriting of `ImageBase` in the header. -/
def writeBase (is64bit : Bool) (newBase : U64) (d : Buffer) : Option Buffer :=
  if 0x100 < d.size then
    (d.load32 0x3C).bind fun peOff =>
      if peOff.toNat + 24 + 36 ≤ d.size then
        if is64bit then d.store (peOff.toNat + 24 + 24) 8 newBase.toNat
        else d.store (peOff.toNat + 24 + 28) 4 (newBase.setWidth 32).toNat
      else some d
  else some d

/-- `wg_pe_rebase`, with its result. -/
def rebase (fuel : Nat) (img : Image) (newBase : U64) : Option (Bool × Image) :=
  if img.imageBase = newBase then some (true, img)
  else if img.reloc.rva = 0 ∨ img.reloc.size = 0 then some (false, img)
  else
    (relocate img.sections img.reloc (newBase - img.imageBase) fuel 0 img.raw).bind fun d =>
    (writeBase img.is64bit newBase d).bind fun d =>
      some (true, { img with raw := d, imageBase := newBase })

/-- The call succeeds and leaves `img'`. -/
def Rebases (img : Image) (newBase : U64) (img' : Image) : Prop :=
  ∃ fuel, rebase fuel img newBase = some (true, img')

-- ---------------------------------------------------------------------------
-- More fuel
-- ---------------------------------------------------------------------------

theorem relocate_fuel (h : relocate ss reloc delta fuel off d = some d') :
    relocate ss reloc delta (fuel + 1) off d = some d' := by
  induction fuel generalizing off d with
  | zero => cases h
  | succ fuel ih =>
    unfold relocate at h ⊢
    split at h
    case isFalse hend => rwa [if_neg hend]
    rename_i hmore
    rw [if_pos hmore]
    split at h
    · exact h
    obtain ⟨page, hpage, h⟩ := Option.bind_eq_some_iff.1 h
    obtain ⟨size, hsize, h⟩ := Option.bind_eq_some_iff.1 h
    simp only [hpage, hsize, Option.bind_some]
    split at h
    case isTrue hstop => rwa [if_pos hstop]
    rename_i hgo
    obtain ⟨d₁, hd₁, h⟩ := Option.bind_eq_some_iff.1 h
    rw [if_neg hgo, hd₁, Option.bind_some]
    exact ih h

theorem rebase_fuel (h : rebase fuel img b = some r) : rebase (fuel + k) img b = some r := by
  induction k with
  | zero => exact h
  | succ k ih =>
    rw [← Nat.add_assoc]
    unfold rebase at ih ⊢
    split at ih
    case isTrue heq => rwa [if_pos heq]
    rename_i hne
    rw [if_neg hne]
    split at ih
    case isTrue hno => rwa [if_pos hno]
    rename_i hdir
    obtain ⟨d, hd, ih⟩ := Option.bind_eq_some_iff.1 ih
    rwa [if_neg hdir, relocate_fuel hd]

/-- A call leaves one image. -/
theorem Rebases.unique (h₁ : Rebases img b img₁) (h₂ : Rebases img b img₂) : img₁ = img₂ := by
  obtain ⟨f₁, h₁⟩ := h₁
  obtain ⟨f₂, h₂⟩ := h₂
  have h := rebase_fuel (k := f₂) h₁
  rw [Nat.add_comm, rebase_fuel h₂] at h
  exact (Prod.mk.inj (Option.some.inj h)).2.symm

end WineGlass.Pe
