import WineGlass.Pe.Imports
import WineGlass.Pe.Mapping
import WineGlass.Pe.Relocation

/-!
# Two ways to relocate a DLL

`wg_load_dll` maps the file as it is and moves the fixups in the guest, through an RVA lookup
of its own; `wg_pe_rebase` moves them in the file, and the `ImageBase` field with them. For an
image whose parts are apart the guest is at each turn the mapping of the file at that turn, so
that the two leave the same but for that field (`paths_iff`).
-/

namespace WineGlass.Pe

open Fields Word

/-- What of a section an RVA can lie in, for `pe_rva_ptr`. -/
def Section.extent (s : Section) : U32 := if s.virtualSize ≠ 0 then s.virtualSize else s.rawSize

def peRvaPtr (img : Image) (rva need : U32) : Option Nat :=
  if rva + need ≤ img.sizeOfHeaders ∧ (rva + need).toNat ≤ img.raw.size then some rva.toNat
  else
    match img.sections.find? fun s =>
      decide (s.virtualAddress ≤ rva ∧ rva + need ≤ s.virtualAddress + s.extent) with
    | none => none
    | some s =>
      match s.data with
      | none => none
      | some data =>
        if rva - s.virtualAddress + need ≤ s.rawSize then
          some (data + (rva - s.virtualAddress).toNat)
        else none

/-- The body of the entry loop: HIGHLOW only. -/
def guestFixup (base delta page : U32) (g : Guest) (v : U16) : Guest :=
  if v >>> 12 = 3 then
    let target := (base + page + (v &&& 0xFFF).setWidth 32).toNat
    let val := BitVec.ofNat 32 (g.read target 4) + delta
    g.write target 4 (byteAt val.toNat)
  else g

/-- The entry loop at entry `i` with `left` to go. -/
def guestFixups (d : Buffer) (base delta page : U32) (ents : Nat) :
    (left i : Nat) → Guest → Option Guest
  | 0, _, g => some g
  | left + 1, i, g =>
    (d.load16 (ents + i * 2)).bind fun v =>
    guestFixups d base delta page ents left (i + 1) (guestFixup base delta page g v)

/-- The block loop at `off`. -/
def guestRelocate (img : Image) (base delta : U32) : (fuel : Nat) → (off : U32) → Guest →
    Option Guest
  | 0, _, _ => none
  | fuel + 1, off, g =>
    if off + 8 ≤ img.reloc.size then
      match peRvaPtr img (img.reloc.rva + off) 8 with
      | none => some g
      | some blk =>
        (img.raw.load32 blk).bind fun pageRva =>
        (img.raw.load32 (blk + 4)).bind fun blkSize =>
          if blkSize < 8 ∨ img.reloc.size < off + blkSize then some g
          else
            let nent := (blkSize - 8) / 2
            match peRvaPtr img (img.reloc.rva + off + 8) (nent * 2) with
            | none => some g
            | some ents =>
              (guestFixups img.raw base delta pageRva ents nent.toNat 0 g).bind fun g =>
              guestRelocate img base delta fuel (off + blkSize) g
    else some g

/-- The load base, `next` being `s_dll_next_base`, and how far it is from the preferred one. -/
def placement (img : Image) (next : U32) : U32 × U32 :=
  if img.reloc.rva ≠ 0 ∧ img.reloc.size ≠ 0 then (next, next - img.imageBase.setWidth 32)
  else (img.imageBase.setWidth 32, 0)

/-- `wg_load_dll` of a module that is not loaded, up to its imports. -/
def loadDll (fuel : Nat) (g : Guest) (img : Image) (next : U32) : Option Guest :=
  if img.is64bit then some g
  else
    (mapImage img (placement img next).1 g).bind fun g =>
      if (placement img next).2 ≠ 0 ∧ img.reloc.rva ≠ 0 ∧ img.reloc.size ≠ 0 then
        guestRelocate img (placement img next).1 (placement img next).2 fuel 0 g
      else some g

/-- The call leaves `g'`. -/
def LoadsDll (g : Guest) (img : Image) (next : U32) (g' : Guest) : Prop :=
  ∃ fuel, loadDll fuel g img next = some g'

-- ---------------------------------------------------------------------------
-- Images whose parts are apart
-- ---------------------------------------------------------------------------

/-- What a section takes of the RVA space. -/
def Section.reach (s : Section) : Nat := max s.virtualSize.toNat s.rawSize.toNat

/-- A 32-bit image laid out as the format says: the headers first, in the file and in the RVA
space, and then the sections, on pages of their own and with raw data of their own. -/
structure Layout (img : Image) : Prop where
  word : img.is64bit = false
  lfanew : 64 ≤ (img.raw.u32 0x3C).toNat
  header : (img.raw.u32 0x3C).toNat + 120 ≤ img.sizeOfHeaders.toNat
  headers : img.sizeOfHeaders.toNat ≤ img.raw.size
  stored : ∀ s ∈ img.sections, s.Stored → img.sizeOfHeaders.toNat ≤ s.rawOffset.toNat ∧
    s.rawOffset.toNat + s.rawSize.toNat ≤ img.raw.size
  files : img.sections.Pairwise fun s t => s.Stored → t.Stored →
    s.rawOffset.toNat + s.rawSize.toNat ≤ t.rawOffset.toNat ∨
      t.rawOffset.toNat + t.rawSize.toNat ≤ s.rawOffset.toNat
  aligned : ∀ s ∈ img.sections, 4096 ∣ s.virtualAddress.toNat
  above : ∀ s ∈ img.sections, img.sizeOfHeaders.toNat ≤ s.virtualAddress.toNat
  inside : ∀ s ∈ img.sections, s.virtualAddress.toNat < img.sizeOfImage.toNat ∧
    s.virtualAddress.toNat + s.reach ≤ img.sizeOfImage.toNat
  apart : img.sections.Pairwise fun s t =>
    s.virtualAddress.toNat + s.reach ≤ t.virtualAddress.toNat ∨
      t.virtualAddress.toNat + t.reach ≤ s.virtualAddress.toNat

/-- The `n` bytes at `rva` are raw data of the section that is mapped, and stand at `p` of the
file. -/
structure Section.Shows (s : Section) (rva : U32) (n p : Nat) : Prop where
  stored : s.Stored
  lower : s.virtualAddress.toNat ≤ rva.toNat
  upper : rva.toNat + n ≤ s.virtualAddress.toNat + s.filled
  place : p = s.rawOffset.toNat + (rva.toNat - s.virtualAddress.toNat)

/-- The blocks `bs` tile the relocation directory, their entries are padding or words, and the
directory and the words are mapped raw data, the words beside the directory. -/
structure Relocations (img : Image) (bs : List Extent) : Prop where
  directory : img.reloc.rva ≠ 0 ∧ img.reloc.size ≠ 0
  shown : ∃ s ∈ img.sections, ∃ p, s.Shows img.reloc.rva img.reloc.size.toNat p
  tiles : Tiles img 0 bs
  types : ∀ b ∈ bs, ∀ i < entryCount b,
    entryAt img.raw b i >>> 12 = 0 ∨ entryAt img.raw b i >>> 12 = 3
  words : ∀ b ∈ bs, ∀ i < entryCount b, entryAt img.raw b i >>> 12 = 3 →
    ∃ s ∈ img.sections, ∃ p, s.Shows (fixRva (img.raw.u32 b.start) (entryAt img.raw b i)) 4 p
  apart : ∀ s ∈ slots img bs, ∀ b ∈ bs, s.Apart b

/-- The `ImageBase` field of the optional header. -/
def imageBaseField (img : Image) : Extent := ⟨(img.raw.u32 0x3C).toNat + 52, 4⟩

-- ---------------------------------------------------------------------------
-- Places
-- ---------------------------------------------------------------------------

theorem reach_le (s : Section) : s.virtualSize.toNat ≤ s.reach ∧ s.rawSize.toNat ≤ s.reach :=
  ⟨Nat.le_max_left .., Nat.le_max_right ..⟩

theorem Section.Shows.holds {s : Section} (h : s.Shows rva n p) : s.Holds rva n p :=
  ⟨h.stored, h.lower, h.upper.trans (Nat.add_le_add_left (filled_le s).1 _), h.place⟩

theorem Layout.laid (h : Layout img) (hd : Loaded d img) : Laid d.size (fileSections d) := by
  have hraw := hd.raw
  have hss := hd.sections
  subst hraw
  rw [← hss]
  refine ⟨fun s hs hst => ⟨(h.stored s hs hst).2, ?_⟩, h.apart.imp fun {s t} hst _ _ => ?_⟩
  · have hin := (h.inside s hs).2
    have hle := (reach_le s).2
    have hsize := img.sizeOfImage.isLt
    omega
  · have hs := (reach_le s).2
    have ht := (reach_le t).2
    omega

section
variable {img : Image} (h : Layout img) (hd : Loaded img.raw img) {base : U32}
  (hb : 4096 ∣ base.toNat) (hfit : base.toNat + img.sizeOfImage.toNat ≤ 2 ^ 32)
include h hfit

theorem room_start (hs : s ∈ img.sections) :
    (s.room base).start = base.toNat + s.virtualAddress.toNat := by
  have hin := (h.inside s hs).1
  rw [Section.room, BitVec.toNat_add, Nat.mod_eq_of_lt (by omega)]

include hb

theorem room_aligned (hs : s ∈ img.sections) : 4096 ∣ (s.room base).start := by
  rw [room_start h hfit hs]
  exact Nat.dvd_add hb (h.aligned s hs)

theorem rooms_apart : img.sections.Pairwise fun s t => (s.room base).Apart (t.room base) := by
  refine h.apart.imp_of_mem fun {s t} hs ht hap => ?_
  have hs₀ := room_start h hfit hs
  have ht₀ := room_start h hfit ht
  have hs₁ := h.aligned s hs
  have ht₁ := h.aligned t ht
  have hs₂ := (reach_le s).1
  have ht₂ := (reach_le t).1
  have hws : (s.room base).width = (s.virtualSize.toNat + 4095) / 4096 * 4096 := rfl
  have hwt : (t.room base).width = (t.virtualSize.toNat + 4095) / 4096 * 4096 := rfl
  unfold Extent.Apart
  omega

/-- An address in a section's pages is looked up there. -/
theorem find_room (hs : s ∈ img.sections) (ha : (s.room base).Has a) :
    (img.sections.find? fun s => decide ((s.room base).Has a)) = some s := by
  cases hf : img.sections.find? fun s => decide ((s.room base).Has a) with
  | none => exact absurd (decide_eq_true ha) (List.find?_eq_none.1 hf s hs)
  | some t =>
    have ht := List.mem_of_find?_eq_some hf
    have hta : (t.room base).Has a := of_decide_eq_true
      (List.find?_some (p := fun s : Section => decide ((s.room base).Has a)) hf)
    by_cases hst : s = t
    · rw [hst]
    · have : Std.Symm fun s t : Section => (s.room base).Apart (t.room base) :=
        ⟨fun a b hab => hab.symm⟩
      exact absurd hta (((rooms_apart h hb hfit).forall hs ht hst).symm.not_has ha)

include hd

/-- The image is mapped whatever became of its bytes. -/
theorem mapImage_moved (g : Guest) (hsize : d.size = img.raw.size) (b : U64) :
    mapImage { img with raw := d, imageBase := b } base g = some (mappedImage img base g d) := by
  refine mapImage_is
    (fun s hs => room_aligned h hb hfit hs) (fun s hs data hdata => ?_) (rooms_apart h hb hfit)
  have hmem : s ∈ fileSections img.raw := hd.sections ▸ hs
  rw [(h.laid hd).data hmem] at hdata
  split at hdata
  case isFalse => cases hdata
  rename_i hst
  obtain rfl := Option.some.inj hdata
  exact (Nat.add_le_add_left (filled_le s).1 _).trans
    (((h.laid hd).stored s hmem hst).1.trans_eq hsize.symm)

/-- What is shown of the file is where it is shown. -/
theorem origin_shown (hs : s ∈ img.sections) (hp : s.Shows rva n p) (hi : i < n) :
    origin img base g (base.toNat + rva.toNat + i) = some (p + i) := by
  have hstart := room_start h hfit hs
  have hlo := hp.lower
  have hup := hp.upper
  have hle := (filled_le s).2
  have hw : (s.room base).width = (s.virtualSize.toNat + 4095) / 4096 * 4096 := rfl
  have hdata : s.data = some s.rawOffset.toNat := by
    rw [(h.laid hd).data (hd.sections ▸ hs), if_pos hp.stored]
  rw [origin, find_room h hb hfit hs ⟨by omega, by omega⟩]
  dsimp only
  rw [hdata, Option.bind_some, if_pos (by omega), hp.place]
  congr 1
  omega

/-- And nowhere else. -/
theorem origin_only (hs : s ∈ img.sections) (hp : s.Shows rva n p) (ho : (Extent.mk p n).Has o)
    (ha : origin img base g a = some o) : a = base.toNat + rva.toNat + (o - p) := by
  have hplace := hp.place
  have hlo := hp.lower
  have hup := hp.upper
  have hsle := (filled_le s).1
  obtain ⟨ho₁, ho₂⟩ := ho
  dsimp only at ho₁ ho₂
  unfold origin at ha
  split at ha
  · rename_i t hfind
    have ht := List.mem_of_find?_eq_some hfind
    have hta : (t.room base).Has a := of_decide_eq_true
      (List.find?_some (p := fun s : Section => decide ((s.room base).Has a)) hfind)
    have htle := (filled_le t).1
    obtain ⟨data, hdata, ha⟩ := Option.bind_eq_some_iff.1 ha
    rw [(h.laid hd).data (hd.sections ▸ ht)] at hdata
    split at hdata
    case isFalse => cases hdata
    rename_i hst
    obtain rfl := Option.some.inj hdata
    split at ha
    case isFalse => cases ha
    rename_i hk
    have ho := Option.some.inj ha
    by_cases hstt : s = t
    · subst hstt
      have hstart := room_start h hfit hs
      have := hta.1
      omega
    · have : Std.Symm fun s t : Section => s.Stored → t.Stored →
          s.rawOffset.toNat + s.rawSize.toNat ≤ t.rawOffset.toNat ∨
            t.rawOffset.toNat + t.rawSize.toNat ≤ s.rawOffset.toNat :=
        ⟨fun a b hab hb ha => (hab ha hb).symm⟩
      rcases h.files.forall hs ht hstt hp.stored hst with hap | hap <;> omega
  · split at ha
    case isFalse => cases ha
    rename_i hc
    have hhead := (h.stored s hs hp.stored).1
    obtain ⟨hlo', hup'⟩ := hc.2.1
    have ho := Option.some.inj ha
    dsimp only at hlo' hup'
    omega

/-- The headers come from the headers, as far as the pages reach that were there before. -/
theorem origin_header (ho : o < img.sizeOfHeaders.toNat) :
    origin img base g a = some o ↔
      a = base.toNat + o ∧ g.reaches base.toNat (base.toNat + o) := by
  have hheaders := h.headers
  constructor
  · intro ha
    unfold origin at ha
    split at ha
    · rename_i t hfind
      have ht := List.mem_of_find?_eq_some hfind
      obtain ⟨data, hdata, ha⟩ := Option.bind_eq_some_iff.1 ha
      rw [(h.laid hd).data (hd.sections ▸ ht)] at hdata
      split at hdata
      case isFalse => cases hdata
      rename_i hst
      obtain rfl := Option.some.inj hdata
      split at ha
      case isFalse => cases ha
      have hhead := (h.stored t ht hst).1
      have := Option.some.inj ha
      omega
    · split at ha
      case isFalse => cases ha
      rename_i hc
      have hlo := hc.2.1.1
      have hoa := Option.some.inj ha
      dsimp only at hlo
      obtain rfl : a = base.toNat + o := by omega
      exact ⟨rfl, hc.2.2⟩
  · rintro ⟨rfl, hreach⟩
    have hnone : (img.sections.find? fun s => decide ((s.room base).Has (base.toNat + o))) = none := by
      refine List.find?_eq_none.2 fun s hs hc => ?_
      have hstart := room_start h hfit hs
      have hhas := (of_decide_eq_true hc).1
      have habove := h.above s hs
      omega
    have hne : img.sizeOfHeaders ≠ 0 := by
      rintro hz
      rw [hz] at ho
      exact absurd ho (Nat.not_lt_zero _)
    rw [origin, hnone]
    dsimp only
    rw [if_pos ⟨⟨hne, hheaders⟩, ⟨Nat.le_add_right .., Nat.add_lt_add_left ho _⟩, hreach⟩,
      Nat.add_sub_cancel_left]

-- ---------------------------------------------------------------------------
-- One fixup
-- ---------------------------------------------------------------------------

omit hd in
theorem shown_reaches (hs : s ∈ img.sections) (hp : s.Shows rva n p) (hi : i < n) :
    (mappedImage img base g d).reaches (base.toNat + rva.toNat) (base.toNat + rva.toNat + i) := by
  have hstart := room_start h hfit hs
  have hlo := hp.lower
  have hup := hp.upper
  have hle := (filled_le s).2
  refine reaches_iff.2 fun j hj hji => ?_
  have hpage : s.onPage base (j / 4096) := by
    simp only [Section.onPage, Bool.and_eq_true, decide_eq_true_eq]
    omega
  simp only [mappedImage, Bool.or_eq_true, List.any_eq_true]
  exact .inr ⟨s, hs, hpage⟩

theorem read_shown (hsize : d.size = img.raw.size) (hs : s ∈ img.sections)
    (hp : s.Shows rva n p) :
    (mappedImage img base g d).read (base.toNat + rva.toNat) n = get d.bytes ⟨p, n⟩ := by
  refine word_congr fun i hi => ?_
  rw [if_pos (shown_reaches h hb hfit hs hp hi), mappedImage_byte hsize,
    origin_shown h hd hb hfit hs hp hi]
  rfl

theorem write_shown (hsize : d.size = img.raw.size) (hs : s ∈ img.sections)
    (hp : s.Shows rva n p) :
    (mappedImage img base g d).write (base.toNat + rva.toNat) n (byteAt v) =
      mappedImage img base g { d with bytes := set d.bytes ⟨p, n⟩ v } := by
  have hbytes : ∀ a, ((mappedImage img base g d).write (base.toNat + rva.toNat) n (byteAt v)).bytes
      a = (mappedImage img base g { d with bytes := set d.bytes ⟨p, n⟩ v }).bytes a := by
    intro a
    have hold : (mappedImage img base g d).bytes a = _ := mappedImage_byte hsize
    rw [mappedImage_byte (d := { d with bytes := set d.bytes ⟨p, n⟩ v }) hsize, Guest.write]
    dsimp only
    split
    · rename_i hc
      obtain ⟨i, rfl⟩ := Nat.exists_eq_add_of_le hc.1.1
      have hi : i < n := Nat.lt_of_add_lt_add_left hc.1.2
      have hin : Extent.Has ⟨p, n⟩ (p + i) := ⟨Nat.le_add_right .., Nat.add_lt_add_left hi p⟩
      rw [origin_shown h hd hb hfit hs hp hi, Option.elim_some, set_inside hin,
        Nat.add_sub_cancel_left, Nat.add_sub_cancel_left]
    · rename_i hc
      rw [hold]
      cases ho : origin img base g a with
      | none => rfl
      | some o =>
        refine (set_outside fun hin => hc ?_).symm
        obtain ⟨hlo, hup⟩ := hin
        have ha := origin_only h hd hb hfit hs hp ⟨hlo, hup⟩ ho
        dsimp only at hlo hup
        subst ha
        exact ⟨⟨Nat.le_add_right .., by dsimp only; omega⟩,
          shown_reaches h hb hfit hs hp (by omega)⟩
  exact congrArg (Guest.mk _) (funext hbytes)

omit hb hfit in
/-- `wg_pe_rebase` finds the word that is shown. -/
theorem rvaToMut_shown (hs : s ∈ img.sections) (hp : s.Shows rva 4 p) :
    rvaToMut img.sections rva 4 = some p := by
  have hl := h.laid hd
  have hss := hd.sections
  have h4 : (4 : U32).toNat = 4 := rfl
  have hup := hp.holds.upper
  have htop := (hl.stored s (hss ▸ hs) hp.stored).2
  have hmut : ∀ t ∈ img.sections, ∀ q, t.mut rva 4 = some q ↔ t.Holds rva 4 q := by
    intro t ht q
    rw [hss] at ht
    unfold Section.mut
    rw [hl.data ht]
    by_cases hst : t.Stored
    · have hend : (t.virtualAddress + t.rawSize).toNat =
          t.virtualAddress.toNat + t.rawSize.toNat := by
        rw [BitVec.toNat_add, Nat.mod_eq_of_lt (hl.stored t ht hst).2]
      have hneed : (rva + 4).toNat = rva.toNat + 4 := by
        rw [BitVec.toNat_add, Nat.mod_eq_of_lt (by omega), h4]
      simp only [if_pos hst, BitVec.le_def, hend, hneed]
      constructor
      · intro hq
        split at hq
        case isFalse => cases hq
        rename_i hin
        refine ⟨hst, hin.1, hin.2, ?_⟩
        rw [← Option.some.inj hq, BitVec.toNat_sub_of_le (BitVec.le_def.2 hin.1)]
      · rintro ⟨-, hlo, hup, rfl⟩
        rw [if_pos ⟨hlo, hup⟩, BitVec.toNat_sub_of_le (BitVec.le_def.2 hlo)]
    · simp only [if_neg hst]
      exact iff_of_false nofun fun hq => hst hq.stored
  refine findSome?_unique hs ((hmut s hs p).2 hp.holds) fun t ht q hq => ?_
  exact hl.unique ⟨t, hss ▸ ht, (hmut t ht q).1 hq⟩ ⟨s, hss ▸ hs, hp.holds.first (by decide)⟩
    (by decide)

omit h hd hb hfit in
/-- Adding in 32 bits is adding in 64 bits, as far as a word shows it. -/
theorem byteAt_delta (v : Nat) (b₀ : U64) (hi : i < 4) :
    byteAt (BitVec.ofNat 32 v + (base - b₀.setWidth 32)).toNat i =
      byteAt (BitVec.ofNat 64 v + (base.setWidth 64 - b₀)).toNat i := by
  have hnarrow : BitVec.ofNat 32 v + (base - b₀.setWidth 32) =
      (BitVec.ofNat 64 v + (base.setWidth 64 - b₀)).setWidth 32 := by
    have hb := base.isLt
    have hb₀ := b₀.isLt
    apply BitVec.eq_of_toNat_eq
    simp only [BitVec.toNat_add, BitVec.toNat_sub, BitVec.toNat_setWidth, BitVec.toNat_ofNat]
    omega
  rw [hnarrow, BitVec.toNat_setWidth]
  exact byteAt_mod (n := 4) hi

omit h hd hb hfit in
theorem write_congr {g : Guest} (hbytes : ∀ i < n, b i = b' i) :
    g.write a n b = g.write a n b' := by
  unfold Guest.write
  congr 1
  funext i
  split
  · rename_i hc
    obtain ⟨⟨hlo, hup⟩, -⟩ := hc
    exact hbytes _ (by dsimp only at hlo hup; omega)
  · rfl

/-- One word is moved in the guest as it is in the file. -/
theorem guestFixup_shown (hsize : d.size = img.raw.size) (hs : s ∈ img.sections)
    (hp : s.Shows (fixRva page e) 4 p) (he : e >>> 12 = 3) :
    guestFixup base (base - img.imageBase.setWidth 32) page (mappedImage img base g d) e =
      mappedImage img base g (moveAll (base.setWidth 64 - img.imageBase) d [⟨p, 4⟩]) := by
  have htarget : (base + page + (e &&& 0xFFF).setWidth 32).toNat =
      base.toNat + (fixRva page e).toNat := by
    have hin := (h.inside s hs).2
    have hreach := (reach_le s).1
    have hle := (filled_le s).2
    have hup := hp.upper
    rw [BitVec.add_assoc, ← fixRva, BitVec.toNat_add, Nat.mod_eq_of_lt (by omega)]
  rw [guestFixup, if_pos he, htarget]
  dsimp only
  rw [read_shown h hd hb hfit hsize hs hp, write_congr fun i hi => byteAt_delta (get d.bytes ⟨p, 4⟩) img.imageBase hi,
    write_shown h hd hb hfit hsize hs hp]
  rfl

/-- The entry loop of a block. -/
theorem guestFixups_slots (hr : Relocations img bs) (hblk : blk ∈ bs)
    (hsize : d.size = img.raw.size) (hin : blk.start + blk.width ≤ img.raw.size)
    (hi : i + left = entryCount blk) :
    guestFixups img.raw base (base - img.imageBase.setWidth 32) (img.raw.u32 blk.start)
        (blk.start + 8) left i (mappedImage img base g d) =
      some (mappedImage img base g (moveAll (base.setWidth 64 - img.imageBase) d
        ((List.range' i left).flatMap fun j =>
          (slotOf img.sections (img.raw.u32 blk.start) (entryAt img.raw blk j)).toList))) := by
  induction left generalizing i d with
  | zero => rfl
  | succ left ih =>
    have hlt : i < entryCount blk := by omega
    have hload : img.raw.load16 (blk.start + 8 + i * 2) = some (entryAt img.raw blk i) := by
      unfold entryCount at hlt
      rw [load16_some (by omega), entryAt, Nat.mul_comm]
    have hstep : guestFixup base (base - img.imageBase.setWidth 32) (img.raw.u32 blk.start)
        (mappedImage img base g d) (entryAt img.raw blk i) =
        mappedImage img base g (moveAll (base.setWidth 64 - img.imageBase) d
          (slotOf img.sections (img.raw.u32 blk.start) (entryAt img.raw blk i)).toList) := by
      rcases hr.types blk hblk i hlt with he | he
      · have hskip : slotOf img.sections (img.raw.u32 blk.start) (entryAt img.raw blk i) = none := by
          rw [slotOf, fixWidth, he]
          rfl
        rw [hskip, guestFixup, he, if_neg (by decide)]
        rfl
      · obtain ⟨s, hs, p, hp⟩ := hr.words blk hblk i hlt he
        have hslot : slotOf img.sections (img.raw.u32 blk.start) (entryAt img.raw blk i) =
            some ⟨p, 4⟩ := by
          rw [slotOf, fixWidth, he]
          exact congrArg (Option.map fun p => Extent.mk p 4) (rvaToMut_shown h hd hs hp)
        rw [hslot, guestFixup_shown h hd hb hfit hsize hs hp he]
        rfl
    rw [guestFixups, hload, Option.bind_some, hstep, List.range'_succ, List.flatMap_cons,
      moveAll_append]
    exact ih hsize (by omega)

-- ---------------------------------------------------------------------------
-- The blocks
-- ---------------------------------------------------------------------------

omit hb hfit in
/-- The lookup of `wg_load_dll`, for more than no bytes or off the edges of the section. -/
theorem peRvaPtr_shown (hs : s ∈ img.sections) (hp : s.Shows rva need.toNat p)
    (hedge : 0 < need.toNat ∨
      s.virtualAddress.toNat < rva.toNat ∧ rva.toNat < s.virtualAddress.toNat + s.filled) :
    peRvaPtr img rva need = some p := by
  have hlo := hp.lower
  have hup := hp.upper
  have hle := filled_le s
  have hreach := reach_le s
  have hin := h.inside s hs
  have hsoi := img.sizeOfImage.isLt
  have habove := h.above s hs
  have hsum : (rva + need).toNat = rva.toNat + need.toNat := by
    rw [BitVec.toNat_add, Nat.mod_eq_of_lt (by omega)]
  have hextent : ∀ t ∈ img.sections, t.extent.toNat ≤ t.reach ∧ t.filled ≤ t.extent.toNat ∧
      (t.virtualAddress + t.extent).toNat = t.virtualAddress.toNat + t.extent.toNat := by
    intro t ht
    have htle := filled_le t
    have htreach := reach_le t
    have htin := (h.inside t ht).2
    have hext : t.extent.toNat ≤ t.reach ∧ t.filled ≤ t.extent.toNat := by
      unfold Section.extent
      split <;> omega
    rw [BitVec.toNat_add, Nat.mod_eq_of_lt (by omega)]
    exact ⟨hext.1, hext.2, rfl⟩
  have hcover : ∀ t ∈ img.sections,
      (t.virtualAddress ≤ rva ∧ rva + need ≤ t.virtualAddress + t.extent) → t = s := by
    intro t ht ⟨htlo, htup⟩
    obtain ⟨htr, -, hte⟩ := hextent t ht
    rw [BitVec.le_def] at htlo htup
    rw [hsum, hte] at htup
    by_contra hne
    have : Std.Symm fun s t : Section =>
        s.virtualAddress.toNat + s.reach ≤ t.virtualAddress.toNat ∨
          t.virtualAddress.toNat + t.reach ≤ s.virtualAddress.toNat :=
      ⟨fun a b hab => hab.symm⟩
    rcases h.apart.forall ht hs hne with hap | hap <;> omega
  have hfind : (img.sections.find? fun s =>
      decide (s.virtualAddress ≤ rva ∧ rva + need ≤ s.virtualAddress + s.extent)) = some s := by
    obtain ⟨-, hfill, hte⟩ := hextent s hs
    have hself : s.virtualAddress ≤ rva ∧ rva + need ≤ s.virtualAddress + s.extent := by
      rw [BitVec.le_def, BitVec.le_def, hsum, hte]
      omega
    cases hf : img.sections.find? fun s =>
        decide (s.virtualAddress ≤ rva ∧ rva + need ≤ s.virtualAddress + s.extent) with
    | none => exact absurd (decide_eq_true hself) (List.find?_eq_none.1 hf s hs)
    | some t =>
      have ht := of_decide_eq_true (List.find?_some (p := fun s : Section =>
        decide (s.virtualAddress ≤ rva ∧ rva + need ≤ s.virtualAddress + s.extent)) hf)
      rw [hcover t (List.mem_of_find?_eq_some hf) ht]
  have hsub : (rva - s.virtualAddress).toNat = rva.toNat - s.virtualAddress.toNat :=
    BitVec.toNat_sub_of_le (BitVec.le_def.2 hlo)
  have hhead : ¬ (rva + need ≤ img.sizeOfHeaders ∧ (rva + need).toNat ≤ img.raw.size) := by
    rw [BitVec.le_def, hsum]
    omega
  have hraw : rva - s.virtualAddress + need ≤ s.rawSize := by
    rw [BitVec.le_def, BitVec.toNat_add, hsub, Nat.mod_eq_of_lt (by omega)]
    omega
  have hdata : s.data = some s.rawOffset.toNat := by
    rw [(h.laid hd).data (hd.sections ▸ hs), if_pos hp.stored]
  rw [peRvaPtr, if_neg hhead, hfind]
  dsimp only
  rw [hdata]
  dsimp only
  rw [if_pos hraw, hsub, hp.place]

omit h hd hb hfit in
theorem Section.Shows.sub {s : Section} (hp : s.Shows rva n p) (hk : k + m ≤ n)
    (hrva : rva'.toNat = rva.toNat + k) : s.Shows rva' m (p + k) where
  stored := hp.stored
  lower := by have := hp.lower; omega
  upper := by have := hp.upper; omega
  place := by
    have hlo := hp.lower
    have hpl := hp.place
    omega

omit h hd hb hfit in
theorem Tiles.at_end (ht : Tiles img off rest) (he : img.reloc.size.toNat ≤ off) : rest = [] := by
  induction ht with
  | done => rfl
  | block _ _ large _ tail _ =>
    have hle := tail.le
    omega

/-- The block loop. -/
theorem guestRelocate_slots (hr : Relocations img bs) (ht : Tiles img off rest)
    (hsub : ∀ b ∈ rest, b ∈ bs) (hsize : d.size = img.raw.size) :
    guestRelocate img base (base - img.imageBase.setWidth 32) (rest.length + 1)
        (BitVec.ofNat 32 off) (mappedImage img base g d) =
      some (mappedImage img base g
        (moveAll (base.setWidth 64 - img.imageBase) d (slots img rest))) := by
  have h8 : (8 : U32).toNat = 8 := rfl
  obtain ⟨s, hs, p₀, hdir⟩ := hr.shown
  have hin := h.inside s hs
  have hsoi := img.sizeOfImage.isLt
  have hreach := reach_le s
  have hfill := filled_le s
  have hup := hdir.upper
  have hlow := hdir.lower
  have habove := h.above s hs
  have hheader := h.header
  induction ht generalizing d with
  | done =>
    have hend : ¬ BitVec.ofNat 32 img.reloc.size.toNat + 8 ≤ img.reloc.size := by
      rw [BitVec.ofNat_toNat, BitVec.setWidth_eq, BitVec.le_def, BitVec.toNat_add]
      omega
    rw [guestRelocate, if_neg hend]
    rfl
  | @block off p w rest found size large inside tail ih =>
    have hle := tail.le
    have hblk : Extent.mk p w ∈ bs := hsub _ List.mem_cons_self
    have hmore : BitVec.ofNat 32 off + 8 ≤ img.reloc.size := by
      rw [BitVec.le_def, BitVec.toNat_add, BitVec.toNat_ofNat]
      omega
    have hrva : (img.reloc.rva + BitVec.ofNat 32 off).toNat = img.reloc.rva.toNat + off := by
      rw [BitVec.toNat_add, BitVec.toNat_ofNat]
      omega
    have hrva8 : (img.reloc.rva + BitVec.ofNat 32 off + 8).toNat = img.reloc.rva.toNat + (off + 8) := by
      rw [BitVec.toNat_add, hrva]
      omega
    -- The block is where both lookups find it.
    have hplace : p = p₀ + off := by
      have hfirst := hdir.sub (k := off) (m := 8) (by omega) hrva
      have hptr := rvaToPtr_holds (h.laid hd) (by decide)
        ⟨s, hd.sections ▸ hs, hfirst.holds⟩
      rw [← hd.sections, found] at hptr
      exact Option.some.inj hptr
    have hhead : peRvaPtr img (img.reloc.rva + BitVec.ofNat 32 off) 8 = some p := by
      rw [hplace]
      exact peRvaPtr_shown h hd hs (hdir.sub (by omega) hrva) (.inl (by decide))
    generalize hw : img.raw.u32 (p + 4) = blkSize at *
    have hwidth := blkSize.isLt
    have hgo : ¬ (blkSize < 8 ∨ img.reloc.size < BitVec.ofNat 32 off + blkSize) := by
      rw [BitVec.lt_def, BitVec.lt_def, BitVec.toNat_add, BitVec.toNat_ofNat]
      omega
    have hcount : ((blkSize - 8) / 2).toNat = entryCount ⟨p, w⟩ := by
      rw [BitVec.toNat_udiv, BitVec.toNat_sub_of_le (BitVec.le_def.2 (by omega)), h8, size,
        entryCount]
      rfl
    have hbytes : ((blkSize - 8) / 2 * 2).toNat = entryCount ⟨p, w⟩ * 2 := by
      have hlt : entryCount ⟨p, w⟩ * 2 < 2 ^ 32 := by
        unfold entryCount
        dsimp only
        omega
      rw [BitVec.toNat_mul, hcount]
      exact Nat.mod_eq_of_lt hlt
    have hfits : 8 + entryCount ⟨p, w⟩ * 2 ≤ w := by
      unfold entryCount
      dsimp only
      omega
    have hents : 0 < entryCount ⟨p, w⟩ ∨ off + 8 < img.reloc.size.toNat →
        peRvaPtr img (img.reloc.rva + BitVec.ofNat 32 off + 8) ((blkSize - 8) / 2 * 2) =
          some (p + 8) := by
      intro hedge
      rw [hplace, Nat.add_assoc]
      refine peRvaPtr_shown h hd hs (hdir.sub (by omega) hrva8) ?_
      omega
    have hfix := guestFixups_slots (g := g) h hd hb hfit hr hblk hsize inside
      (Nat.zero_add (entryCount ⟨p, w⟩))
    have hnext : BitVec.ofNat 32 off + blkSize = BitVec.ofNat 32 (off + w) := by
      rw [BitVec.ofNat_add, ← size, BitVec.ofNat_toNat, BitVec.setWidth_eq]
    rw [guestRelocate, if_pos hmore, hhead]
    dsimp only
    rw [load32_some (by omega), Option.bind_some, load32_some (by omega), Option.bind_some, hw,
      if_neg hgo, hcount]
    cases hptr : peRvaPtr img (img.reloc.rva + BitVec.ofNat 32 off + 8)
        ((blkSize - 8) / 2 * 2) with
    | some ents =>
      dsimp only
      have hsame : guestFixups img.raw base (base - img.imageBase.setWidth 32) (img.raw.u32 p) ents
          (entryCount ⟨p, w⟩) 0 (mappedImage img base g d) =
          guestFixups img.raw base (base - img.imageBase.setWidth 32) (img.raw.u32 p) (p + 8)
          (entryCount ⟨p, w⟩) 0 (mappedImage img base g d) := by
        rcases Nat.eq_zero_or_pos (entryCount ⟨p, w⟩) with hz | hpos
        · rw [hz]
          rfl
        · rw [Option.some.inj (hptr.symm.trans (hents (.inl hpos)))]
      have hrest := ih
        (d := moveAll (base.setWidth 64 - img.imageBase) d (blockSlots img.sections img.raw ⟨p, w⟩))
        (fun b hb' => hsub b (List.mem_cons_of_mem _ hb')) hsize
      rw [← moveAll_append] at hrest
      rw [hsame, hfix, Option.bind_some, hnext, List.length_cons]
      exact hrest
    | none =>
      -- Only an empty last block at the very end of the section is not found.
      have hlast : entryCount ⟨p, w⟩ = 0 ∧ img.reloc.size.toNat ≤ off + 8 := by
        by_contra hc
        rw [hents (by omega)] at hptr
        cases hptr
      obtain rfl := tail.at_end (by omega)
      have hnone : slots img [⟨p, w⟩] = [] := by
        rw [slots, List.flatMap_singleton, blockSlots, hlast.1]
        rfl
      rw [hnone]
      rfl

-- ---------------------------------------------------------------------------
-- The two paths
-- ---------------------------------------------------------------------------

omit hb hfit in
theorem slot_shown (hr : Relocations img bs) (hf : f ∈ slots img bs) :
    ∃ s ∈ img.sections, ∃ rva p, s.Shows rva 4 p ∧ f = ⟨p, 4⟩ := by
  obtain ⟨b, hbs, i, hi, hslot⟩ := mem_slots.1 hf
  rcases hr.types b hbs i hi with he | he
  · rw [slotOf, fixWidth, he] at hslot
    cases hslot
  · obtain ⟨s, hs, p, hp⟩ := hr.words b hbs i hi he
    refine ⟨s, hs, _, p, hp, ?_⟩
    rw [slotOf, fixWidth, he] at hslot
    have hmut := congrArg (Option.map fun p => Extent.mk p 4) (rvaToMut_shown h hd hs hp)
    exact (Option.some.inj (hmut.symm.trans hslot)).symm

omit hb hfit in
/-- A word that is moved is behind the headers and in the file. -/
theorem slot_behind (hr : Relocations img bs) (hf : f ∈ slots img bs) :
    img.sizeOfHeaders.toNat ≤ f.start ∧ f.start + f.width ≤ img.raw.size := by
  obtain ⟨s, hs, rva, p, hp, rfl⟩ := slot_shown h hd hr hf
  obtain ⟨hhead, hend⟩ := h.stored s hs hp.stored
  have hle := (filled_le s).1
  have hlo := hp.lower
  have hup := hp.upper
  have hpl := hp.place
  dsimp only
  omega

omit hb hfit hd in
theorem baseField_layout :
    baseField img = if 0x100 < img.raw.size then some (imageBaseField img) else none := by
  have hheader := h.header
  have hheaders := h.headers
  have hfits : (img.raw.u32 0x3C).toNat + 60 ≤ img.raw.size := by omega
  unfold baseField
  simp only [hfits, and_true, h.word, Bool.false_eq_true, if_false]
  rfl

omit hb hfit in
/-- `wg_pe_rebase` to another base moves the words and writes the header. -/
theorem rebases_moved (hr : Relocations img bs) (hsmall : img.raw.size ≤ 2 ^ 29)
    (hne : img.imageBase ≠ base.setWidth 64) :
    ∃ d', Rebases img (base.setWidth 64) { img with raw := d', imageBase := base.setWidth 64 } ∧
      d'.size = img.raw.size ∧
      ∀ o, d'.bytes o = if 0x100 < img.raw.size ∧ (imageBaseField img).Has o then
          byteAt base.toNat (o - (imageBaseField img).start)
        else (moveAll (base.setWidth 64 - img.imageBase) img.raw (slots img bs)).bytes o := by
  obtain ⟨s, hs, p₀, hdir⟩ := hr.shown
  have hdirsize : img.reloc.size.toNat ≤ img.raw.size := by
    have hin := (h.stored s hs hdir.stored).2
    have hup := hdir.upper
    have hlo := hdir.lower
    have hle := (filled_le s).1
    omega
  have hrelocate : relocate img.sections img.reloc (base.setWidth 64 - img.imageBase)
      (bs.length + 1) 0 img.raw =
      some (moveAll (base.setWidth 64 - img.imageBase) img.raw (slots img bs)) :=
    relocate_slots hr.tiles (by omega) (fun _ _ => ⟨rfl, fun _ _ => rfl⟩) fun f hf =>
      ⟨(slot_behind h hd hr hf).2, hr.apart f hf⟩
  have hheader := h.header
  have hlfanew := h.lfanew
  have hpe : (moveAll (base.setWidth 64 - img.imageBase) img.raw (slots img bs)).u32 0x3C =
      img.raw.u32 0x3C := by
    rw [Buffer.u32, Buffer.u32]
    refine congrArg _ (get_moveAll (e := ⟨0x3C, 4⟩) fun f hf => .inr ?_)
    have hbehind := (slot_behind h hd hr hf).1
    dsimp only
    omega
  have hrun : ∀ d', writeBase img.is64bit (base.setWidth 64)
      (moveAll (base.setWidth 64 - img.imageBase) img.raw (slots img bs)) = some d' →
      Rebases img (base.setWidth 64) { img with raw := d', imageBase := base.setWidth 64 } := by
    intro d' hd'
    refine ⟨bs.length + 1, ?_⟩
    rw [rebase, if_neg hne, if_neg (not_or.2 hr.directory), hrelocate, Option.bind_some, hd',
      Option.bind_some]
  have hfield := baseField_layout h
  by_cases hlong : 0x100 < img.raw.size
  · rw [if_pos hlong] at hfield
    obtain ⟨v, hv, hwrite⟩ := writeBase_some (b := base.setWidth 64)
      (d := moveAll (base.setWidth 64 - img.imageBase) img.raw (slots img bs)) rfl hpe hfield
    refine ⟨_, hrun _ hwrite, rfl, fun o => ?_⟩
    by_cases ho : (imageBaseField img).Has o
    · have hi : o - (imageBaseField img).start < 4 := by
        have h₁ := ho.1
        have h₂ : o < (imageBaseField img).start + 4 := ho.2
        omega
      rw [if_pos ⟨hlong, ho⟩]
      refine (set_inside ho).trans ?_
      have hv : v % 256 ^ 4 = (base.setWidth 64).toNat % 256 ^ 4 := hv
      rw [← byteAt_mod hi, hv, byteAt_mod hi, BitVec.toNat_setWidth,
        Nat.mod_eq_of_lt (base.isLt.trans (by decide))]
    · rw [if_neg fun hc => ho hc.2]
      exact set_outside ho
  · rw [if_neg hlong] at hfield
    exact ⟨_, hrun _ (writeBase_none rfl (fun hc => absurd hc hlong) hfield), rfl,
      fun o => (if_neg fun hc => hlong hc.1).symm⟩

omit hb hfit in
/-- The loader takes the base from the field. -/
theorem imageBase_field : get img.raw.bytes (imageBaseField img) = img.imageBase.toNat := by
  obtain ⟨l, hl, h64, hbase⟩ := hd.base
  rw [h.word] at h64
  obtain rfl : l = optionalHeader32 := by
    rcases hl with rfl | rfl
    · cases h64
    · rfl
  have hlt : get img.raw.bytes (imageBaseField img) < 256 ^ 4 := get_lt
  rw [hbase, BitVec.toNat_ofNat]
  exact (Nat.mod_eq_of_lt (hlt.trans (by decide))).symm

omit h hd hb hfit in
theorem placement_is (hr : Relocations img bs) :
    placement img base = (base, base - img.imageBase.setWidth 32) := if_pos hr.directory

/-- What `wg_load_dll` leaves: the mapping of the file with its words moved. -/
theorem loadsDll_is (hr : Relocations img bs) (g : Guest) :
    LoadsDll g img base (mappedImage img base g
      (if img.imageBase = base.setWidth 64 then img.raw
        else moveAll (base.setWidth 64 - img.imageBase) img.raw (slots img bs))) := by
  refine ⟨bs.length + 1, ?_⟩
  have hmap : mapImage img base g = some (mappedImage img base g img.raw) :=
    mapImage_moved h hd hb hfit g rfl img.imageBase
  rw [loadDll, if_neg (by rw [h.word]; decide), placement_is hr, hmap, Option.bind_some]
  dsimp only
  by_cases heq : img.imageBase = base.setWidth 64
  · have hzero : base - img.imageBase.setWidth 32 = 0 := by
      rw [heq, BitVec.setWidth_setWidth_of_le _ (by decide), BitVec.setWidth_eq]
      exact BitVec.sub_self base
    rw [if_pos heq, if_neg fun hc => hc.1 hzero]
  · have hnz : base - img.imageBase.setWidth 32 ≠ 0 := by
      intro hz
      have hlt : img.imageBase.toNat < 2 ^ 32 := by
        rw [← imageBase_field h hd]
        exact get_lt (f := imageBaseField img)
      refine heq (BitVec.eq_of_toNat_eq ?_)
      have hb := base.isLt
      have hz := congrArg BitVec.toNat hz
      simp only [BitVec.toNat_sub, BitVec.toNat_setWidth] at hz ⊢
      have h0 : (0 : U32).toNat = 0 := rfl
      omega
    rw [if_neg heq, if_pos ⟨hnz, hr.directory⟩]
    exact guestRelocate_slots h hd hb hfit hr hr.tiles (fun _ hb => hb) rfl

/-- What the two paths leave is the same just when the field of the header is. -/
theorem paths_iff (hr : Relocations img bs) (hsmall : img.raw.size ≤ 2 ^ 29) (g : Guest) :
    ∃ img' g', Rebases img (base.setWidth 64) img' ∧ LoadsDll g img base g' ∧
      (mapImage img' base g = some g' ↔ (0x100 < img.raw.size → ∀ i < 4,
        g.reaches base.toNat (base.toNat + ((imageBaseField img).start + i)) →
          byteAt img.imageBase.toNat i = byteAt base.toNat i)) := by
  have hload := loadsDll_is h hd hb hfit hr g
  by_cases heq : img.imageBase = base.setWidth 64
  · rw [if_pos heq] at hload
    refine ⟨img, _, ⟨0, if_pos heq⟩, hload, iff_of_true ?_ fun _ i _ _ => ?_⟩
    · exact mapImage_moved h hd hb hfit g rfl img.imageBase
    · rw [heq, BitVec.toNat_setWidth, Nat.mod_eq_of_lt (base.isLt.trans (by decide))]
  rw [if_neg heq] at hload
  obtain ⟨d', hrebase, hsize, hbytes⟩ := rebases_moved h hd hr hsmall heq
  refine ⟨_, _, hrebase, hload, ?_⟩
  have hheader := h.header
  have hfield : (imageBaseField img).start = (img.raw.u32 0x3C).toNat + 52 := rfl
  -- The words that are moved are no part of the field.
  have hkept : ∀ i < 4, (moveAll (base.setWidth 64 - img.imageBase) img.raw (slots img bs)).bytes
      ((imageBaseField img).start + i) = byteAt img.imageBase.toNat i := by
    intro i hi
    have hin : (imageBaseField img).Has ((imageBaseField img).start + i) :=
      ⟨Nat.le_add_right .., Nat.add_lt_add_left hi _⟩
    have hbyte := byteAt_get (m := img.raw.bytes) hin
    rw [Nat.add_sub_cancel_left, imageBase_field h hd] at hbyte
    rw [hbyte]
    refine update_outside fun f hf hc => ?_
    have hbehind := (slot_behind h hd hr hf).1
    have := hc.1
    omega
  have hmoved : (moveAll (base.setWidth 64 - img.imageBase) img.raw (slots img bs)).size =
      img.raw.size := rfl
  rw [mapImage_moved h hd hb hfit g hsize, Option.some.injEq, mappedImage_eq_iff hsize hmoved]
  constructor
  · intro hall hlong i hi hreach
    have hin : (imageBaseField img).Has ((imageBaseField img).start + i) :=
      ⟨Nat.le_add_right .., Nat.add_lt_add_left hi _⟩
    have horigin := (origin_header (g := g) h hd hb hfit (o := (imageBaseField img).start + i)
      (by omega)).2 ⟨rfl, hreach⟩
    have heq := hall _ _ horigin
    rw [hbytes, if_pos ⟨hlong, hin⟩, Nat.add_sub_cancel_left, hkept i hi] at heq
    exact heq.symm
  · intro hcond a o horigin
    rw [hbytes]
    split
    · rename_i hc
      obtain ⟨i, rfl⟩ := Nat.exists_eq_add_of_le hc.2.1
      have hi : i < 4 := Nat.lt_of_add_lt_add_left hc.2.2
      obtain ⟨rfl, hreach⟩ := (origin_header h hd hb hfit (by omega)).1 horigin
      rw [Nat.add_sub_cancel_left, hkept i hi, hcond hc.1 i hi hreach]
    · rfl

end

-- ---------------------------------------------------------------------------
-- More fuel
-- ---------------------------------------------------------------------------

theorem guestRelocate_fuel (h : guestRelocate img base delta fuel off g = some g') :
    guestRelocate img base delta (fuel + 1) off g = some g' := by
  induction fuel generalizing off g with
  | zero => cases h
  | succ fuel ih =>
    unfold guestRelocate at h ⊢
    split at h
    case isFalse hend => rwa [if_neg hend]
    rename_i hmore
    rw [if_pos hmore]
    split at h
    · exact h
    obtain ⟨page, hpage, h⟩ := Option.bind_eq_some_iff.1 h
    obtain ⟨size, hsize, h⟩ := Option.bind_eq_some_iff.1 h
    simp only [hpage, hsize, Option.bind_some]
    split at h
    case isTrue hstop => rwa [if_pos hstop]
    rename_i hgo
    rw [if_neg hgo]
    dsimp only at h ⊢
    split at h
    · exact h
    obtain ⟨g₁, hg₁, h⟩ := Option.bind_eq_some_iff.1 h
    rw [hg₁, Option.bind_some]
    exact ih h

theorem loadDll_fuel (h : loadDll fuel g img next = some g') :
    loadDll (fuel + k) g img next = some g' := by
  induction k with
  | zero => exact h
  | succ k ih =>
    rw [← Nat.add_assoc]
    unfold loadDll at ih ⊢
    split at ih
    case isTrue h64 => rwa [if_pos h64]
    rename_i h32
    rw [if_neg h32]
    obtain ⟨g₁, hg₁, ih⟩ := Option.bind_eq_some_iff.1 ih
    rw [hg₁, Option.bind_some]
    split at ih
    case isFalse hno => rwa [if_neg hno]
    rename_i hreloc
    rw [if_pos hreloc]
    exact guestRelocate_fuel ih

/-- A call leaves one guest. -/
theorem LoadsDll.unique (h₁ : LoadsDll g img next g₁) (h₂ : LoadsDll g img next g₂) : g₁ = g₂ := by
  obtain ⟨f₁, h₁⟩ := h₁
  obtain ⟨f₂, h₂⟩ := h₂
  have h := loadDll_fuel (k := f₂) h₁
  rw [Nat.add_comm, loadDll_fuel h₂] at h
  exact (Option.some.inj h).symm

-- ---------------------------------------------------------------------------
-- The law
-- ---------------------------------------------------------------------------

/-- `wg_load_dll` leaves what mapping the rebased image leaves. -/
def PathsAgree (img : Image) (base : U32) (g : Guest) : Prop :=
  ∀ img' g', Rebases img (base.setWidth 64) img' → LoadsDll g img base g' →
    mapImage img' base g = some g'

/-- No byte of the `ImageBase` field that the headers bring to a mapped page differs between the
two bases. -/
def FieldKept (img : Image) (base : U32) (g : Guest) : Prop :=
  0x100 < img.raw.size → ∀ i < 4,
    g.reaches base.toNat (base.toNat + ((imageBaseField img).start + i)) →
      byteAt img.imageBase.toNat i = byteAt base.toNat i

theorem pathsAgree_iff (h : Layout img) (hd : Loaded img.raw img) (hb : 4096 ∣ base.toNat)
    (hfit : base.toNat + img.sizeOfImage.toNat ≤ 2 ^ 32) (hr : Relocations img bs)
    (hsmall : img.raw.size ≤ 2 ^ 29) (g : Guest) :
    (∃ img' g', Rebases img (base.setWidth 64) img' ∧ LoadsDll g img base g') ∧
      (PathsAgree img base g ↔ FieldKept img base g) := by
  obtain ⟨img', g', hrebase, hload, hiff⟩ := paths_iff h hd hb hfit hr hsmall g
  refine ⟨⟨img', g', hrebase, hload⟩, fun hagree => hiff.1 (hagree img' g' hrebase hload),
    fun hkept img'' g'' hrebase' hload' => ?_⟩
  rw [hrebase'.unique hrebase, hload'.unique hload]
  exact hiff.2 hkept

theorem dll_paths_law (d : Buffer) (img : Image) (bs : List Extent)
    (hload : loadMemory true d = some (some img)) (hsmall : d.size ≤ 2 ^ 29) (h : Layout img)
    (hr : Relocations img bs) (base : U32) (hb : 4096 ∣ base.toNat)
    (hfit : base.toNat + img.sizeOfImage.toNat ≤ 2 ^ 32) (g : Guest) :
    (∃ img' g', Rebases img (base.setWidth 64) img' ∧ LoadsDll g img base g') ∧
      (PathsAgree img base g ↔ FieldKept img base g) := by
  have hd := loadMemory_loaded hload
  obtain rfl := hd.raw
  exact pathsAgree_iff h hd hb hfit hr hsmall g

/-- A PE32 file with one section of 0x200 bytes at 0x1000 that starts with its relocation
directory: one block with a word at 0x1020. The preferred base is 0x400000. -/
def dllFile : Buffer := .sparse 1024 <| signed ++
  [(70, 1), (84, 144), (88, 0x0B), (89, 1), (118, 0x40), (145, 0x20), (149, 2), (180, 6),
    (225, 0x10), (228, 12), (241, 2), (245, 0x10), (249, 2), (253, 2),
    (513, 0x10), (516, 12), (520, 0x20), (521, 0x30), (545, 0x10), (546, 0x40)]

def dllSection : Section :=
  { name := List.replicate 8 0, virtualSize := 0x200, virtualAddress := 0x1000, rawSize := 0x200
    rawOffset := 0x200, characteristics := 0, data := some 512 }

/-- What the loader makes of it. -/
def dllImage : Image :=
  { imageBase := 0x400000, entryPoint := 0, sizeOfImage := 0x2000, sizeOfHeaders := 0x200
    subsystem := 0, dllCharacteristics := 0, machine := 0, is64bit := false
    sections := [dllSection], imports := [], exports := ⟨0, 0⟩, reloc := ⟨0x1000, 12⟩
    tls := ⟨0, 0⟩, raw := dllFile }

theorem dllFile_loads : loadMemory true dllFile = some (some dllImage) := rfl

theorem dllImage_layout : Layout dllImage where
  word := rfl
  lfanew := by decide +kernel
  header := by decide +kernel
  headers := by decide
  stored := by decide
  files := List.pairwise_singleton _ _
  aligned := by decide
  above := by decide
  inside := by decide
  apart := List.pairwise_singleton _ _

theorem dllImage_relocations : Relocations dllImage [⟨512, 12⟩] where
  directory := by decide
  shown := ⟨dllSection, List.mem_singleton_self _, 512, by decide, by decide, by decide, by decide⟩
  tiles := tiles_one dllImage 512 (by decide +kernel) (by decide +kernel) (by decide) (by decide)
  types := by decide +kernel
  words := by
    intro b hb i hi he
    obtain rfl := List.mem_singleton.1 hb
    have hi : i < 2 := hi
    refine ⟨dllSection, List.mem_singleton_self _, 544, ?_⟩
    cases i with
    | zero => exact ⟨by decide, by decide +kernel, by decide +kernel, by decide +kernel⟩
    | succ i =>
      obtain rfl : i = 0 := by omega
      exact absurd he (by decide +kernel)
  apart := by decide +kernel

/-- A guest with one page, at 0x60000000. -/
def onePage : Guest := ⟨fun p => p == 0x60000, fun _ => 0⟩

/-- A guest with nothing mapped gets no headers, and the same sections. -/
theorem dll_paths_law_bare : (∃ img' g', Rebases dllImage 0x60000000 img' ∧
    LoadsDll ⟨fun _ => false, fun _ => 0⟩ dllImage 0x60000000 g') ∧
    PathsAgree dllImage 0x60000000 ⟨fun _ => false, fun _ => 0⟩ := by
  obtain ⟨hruns, hiff⟩ := dll_paths_law dllFile dllImage _ dllFile_loads (by decide)
    dllImage_layout dllImage_relocations 0x60000000 (by decide) (by decide)
    ⟨fun _ => false, fun _ => 0⟩
  refine ⟨hruns, hiff.2 fun _ i _ hreach => ?_⟩
  have hpage := reaches_iff.1 hreach (0x60000000 : U32).toNat (Nat.le_refl _) (Nat.le_add_right ..)
  cases hpage

/-- Where the page of the headers is mapped, the guest keeps the preferred base in them. -/
theorem base_kept : ∃ d img bs base g, loadMemory true d = some (some img) ∧ Layout img ∧
    Relocations img bs ∧ 4096 ∣ base.toNat ∧ base.toNat + img.sizeOfImage.toNat ≤ 2 ^ 32 ∧
    ¬ PathsAgree img base g := by
  refine ⟨dllFile, dllImage, _, 0x60000000, onePage, dllFile_loads, dllImage_layout,
    dllImage_relocations, by decide, by decide, fun hagree => ?_⟩
  have hkept := (pathsAgree_iff dllImage_layout (loadMemory_loaded dllFile_loads) (by decide)
    (by decide) dllImage_relocations (by decide) onePage).2.1 hagree
  have hbyte := hkept (by decide) 2 (by decide) (by decide +kernel)
  revert hbyte
  decide

end WineGlass.Pe
