import WineGlass.Engine.Thunks
import WineGlass.Memory.Map
import WineGlass.Memory.Wide
import WineGlass.Pe.Image

/-!
# Import binding

`load_pe_blink` and `load_pe_builtin` walk the import tables in the same order and
write eight bytes for every function that has a thunk. In a 32-bit image a slot has
four: the other four are the slot's tail, and whoever comes last wins.
-/

namespace WineGlass.Binding

open Runs Fields Thunks
open Word (byteAt)
open Pe (Image)

/-- One turn of the inner loop. -/
structure Slot where
  dll : Name
  func : Name
  addr : U64

def slots (pe : Image) : List Slot :=
  pe.imports.flatMap fun imp => imp.functions.map fun f =>
    ⟨imp.dllName, f.name, pe.imageBase + f.iatRva.setWidth 64⟩

def width (pe : Image) : Nat := if pe.is64bit then 8 else 4

/-- The loops over the imports; `junk n` lies behind the names of the `n`th. -/
def bind (write : M → U64 → U64 → Option M) (junk : Nat → Name × Name) :
    Nat → List Slot → Mapper → M → Option (Mapper × M)
  | _, [], m, mem => some (m, mem)
  | n, s :: ss, m, mem =>
    let r := resolve (junk n) m s.dll s.func
    if r.1 = 0 then bind write junk (n + 1) ss r.2 mem
    else
      match write mem s.addr r.1 with
      | none => none
      | some mem => bind write junk (n + 1) ss r.2 mem

/-- `wg_blink_write_mem` of eight bytes. -/
def blinkWrite (mem : Nat → Byte) (addr v : U64) : Option (Nat → Byte) :=
  some (set mem ⟨addr.toNat, 8⟩ v.toNat)

/-- `wg_memory_write_u64`; `none` leaves the buffer of a region. -/
def builtinWrite (mem : Memory.Space) (addr v : U64) : Option Memory.Space :=
  Memory.writeU64 mem addr v.toNat

/-- Each slot's address with what `wg_dll_mapper_resolve` says of its function. -/
def thunks (junk : Nat → Name × Name) : Nat → List Slot → Mapper → List (U64 × U64)
  | _, [], _ => []
  | n, s :: ss, m =>
    let r := resolve (junk n) m s.dll s.func
    (s.addr, r.1) :: thunks junk (n + 1) ss r.2

-- ---------------------------------------------------------------------------
-- What binding is for
-- ---------------------------------------------------------------------------

def slotOf (w : Nat) (b : U64 × U64) : Extent := ⟨b.1.toNat, w⟩

/-- The bytes that are written and are not the slot's. -/
def tailOf (w : Nat) (b : U64 × U64) : Extent := ⟨b.1.toNat + w, 8 - w⟩

def InImage (pe : Image) (a : Nat) : Prop :=
  pe.imageBase.toNat ≤ a ∧ a < pe.imageBase.toNat + pe.sizeOfImage.toNat

instance : Decidable (InImage pe a) := inferInstanceAs (Decidable (_ ∧ _))

/-- Every slot holds its thunk and the rest of the image is as before. -/
structure Exact (pe : Image) (bs : List (U64 × U64)) (before after : Nat → Byte) : Prop where
  held : ∀ b ∈ bs, b.2 ≠ 0 ∧ get after (slotOf (width pe) b) = b.2.toNat
  frame : ∀ a, InImage pe a → (∀ b ∈ bs, ¬ (slotOf (width pe) b).Has a) → after a = before a

/-- The image lies in its address space, its slots in the image and not in each other. -/
structure WellFormed (pe : Image) : Prop where
  space : pe.imageBase.toNat + pe.sizeOfImage.toNat ≤ if pe.is64bit then 2 ^ 64 else 2 ^ 32
  inside : ∀ s ∈ slots pe, pe.imageBase.toNat ≤ s.addr.toNat ∧
    s.addr.toNat + width pe ≤ pe.imageBase.toNat + pe.sizeOfImage.toNat
  apart : (slots pe).Pairwise fun s t =>
    Extent.Apart ⟨s.addr.toNat, width pe⟩ ⟨t.addr.toNat, width pe⟩

/-- What a byte of a bound image should be. -/
def wanted (w : Nat) (bs : List (U64 × U64)) (before : Nat → Byte) (a : Nat) : Byte :=
  match bs.find? fun b => decide ((slotOf w b).Has a) with
  | some b => byteAt b.2.toNat (a - b.1.toNat)
  | none => before a

/-- Where the tail of a slot is written last, in the image, a zero was wanted. -/
def TailsClean (pe : Image) (bs : List (U64 × U64)) (before : Nat → Byte) : Prop :=
  ∀ l b r, bs = l ++ b :: r → ∀ a, (tailOf (width pe) b).Has a → InImage pe a →
    (∀ c ∈ r, ¬ (slotOf 8 c).Has a) → wanted (width pe) bs before a = 0

def view (mem : Memory.Space) (a : Nat) : Byte := Memory.readU8 mem (BitVec.ofNat 64 a)

/-- The regions of the image are apart, and each slot lies in one. -/
structure Mapped (pe : Image) (mem : Memory.Space) : Prop where
  apart : Spans.AllApart mem.spans
  found : ∀ s ∈ slots pe, Memory.findRegion mem s.addr ≠ none
  whole : ∀ s ∈ slots pe, Memory.Whole (width pe) mem s.addr

-- ---------------------------------------------------------------------------
-- The loops
-- ---------------------------------------------------------------------------

/-- The writes of the loops. -/
def writeAll (write : M → U64 → U64 → Option M) : List (U64 × U64) → M → Option M
  | [], mem => some mem
  | b :: bs, mem =>
    if b.2 = 0 then writeAll write bs mem
    else (write mem b.1 b.2).bind (writeAll write bs)

theorem bind_eq (write : M → U64 → U64 → Option M) (n : Nat) (ss : List Slot) (m : Mapper)
    (mem : M) : (bind write junk n ss m mem).map Prod.snd =
      writeAll write (thunks junk n ss m) mem := by
  induction ss generalizing n m mem with
  | nil => rfl
  | cons s ss ih =>
    simp only [bind, thunks, writeAll]
    split
    · exact ih ..
    · cases write mem s.addr (resolve (junk n) m s.dll s.func).1 with
      | none => rfl
      | some mem => exact ih ..

theorem thunks_addr (junk : Nat → Name × Name) (n : Nat) (ss : List Slot) (m : Mapper) :
    (thunks junk n ss m).map Prod.fst = ss.map Slot.addr := by
  induction ss generalizing n m with
  | nil => rfl
  | cons s ss ih => simp only [thunks, List.map_cons, ih]

theorem thunks_lt (h : Laid m base) : ∀ b ∈ thunks junk n ss m, b.2.toNat < 2 ^ 32 := by
  induction ss generalizing n m with
  | nil => exact List.forall_mem_nil _
  | cons s ss ih => exact List.forall_mem_cons.2 ⟨h.resolve.2, ih h.resolve.1⟩

theorem writeAll_ne (h : ∀ b ∈ bs, b.2 ≠ (0 : U64)) (hb : bs = b :: bs') :
    writeAll write bs mem = (write mem b.1 b.2).bind (writeAll write bs') := by
  subst hb
  exact if_neg (h b List.mem_cons_self)

-- ---------------------------------------------------------------------------
-- The bytes of a bound image
-- ---------------------------------------------------------------------------

/-- The slots as the proofs use them: inside the image, apart, and with thunks that fit. -/
structure Slots (pe : Image) (bs : List (U64 × U64)) : Prop where
  inside : ∀ b ∈ bs, ∀ a, (slotOf (width pe) b).Has a → InImage pe a
  apart : bs.Pairwise fun b c => Extent.Apart (slotOf (width pe) b) (slotOf (width pe) c)
  room : ∀ b ∈ bs, b.1.toNat + 8 ≤ 2 ^ 64
  fits : ∀ b ∈ bs, b.2.toNat < 256 ^ width pe

theorem width_le (pe : Image) : width pe ≤ 8 := by
  unfold width
  split <;> decide

theorem WellFormed.slots (h : WellFormed pe) (junk : Nat → Name × Name) (n : Nat)
    (hl : Laid m base) :
    Slots pe (thunks junk n (slots pe) m) := by
  have haddr := thunks_addr junk n (Binding.slots pe) m
  have hmem : ∀ b ∈ thunks junk n (Binding.slots pe) m, ∃ s ∈ Binding.slots pe, s.addr = b.1 := by
    intro b hb
    have hfst := List.mem_map_of_mem (f := Prod.fst) hb
    rw [haddr] at hfst
    exact List.mem_map.1 hfst
  refine ⟨fun b hb a ha => ?_, ?_, fun b hb => ?_, fun b hb => ?_⟩
  · obtain ⟨s, hs, hsb⟩ := hmem b hb
    obtain ⟨hlo, hhi⟩ := h.inside s hs
    rw [hsb] at hlo hhi
    exact ⟨hlo.trans ha.1, ha.2.trans_le hhi⟩
  · have hp := h.apart
    rw [← List.pairwise_map (f := Slot.addr)
      (R := fun a b => Extent.Apart ⟨a.toNat, width pe⟩ ⟨b.toNat, width pe⟩), ← haddr,
      List.pairwise_map] at hp
    exact hp
  · obtain ⟨s, hs, hsb⟩ := hmem b hb
    obtain ⟨hlo, hhi⟩ := h.inside s hs
    have hspace := h.space
    unfold width at hhi
    rw [hsb] at hhi
    split at hhi <;> rename_i h64 <;> simp only [h64] at hspace <;> simp at hspace <;> omega
  · have hlt := thunks_lt hl b hb
    unfold width
    split <;> omega

theorem wanted_slot (hs : Slots pe bs) (hb : b ∈ bs) (ha : (slotOf (width pe) b).Has a) :
    wanted (width pe) bs before a = byteAt b.2.toNat (a - b.1.toNat) := by
  cases hf : bs.find? fun b => decide ((slotOf (width pe) b).Has a) with
  | none => exact absurd (decide_eq_true ha) (List.find?_eq_none.1 hf b hb)
  | some c =>
    have hc : (slotOf (width pe) c).Has a := of_decide_eq_true (List.find?_some hf :)
    have hbc : c = b := by
      by_contra hne
      have : Std.Symm fun b c : U64 × U64 =>
          Extent.Apart (slotOf (width pe) b) (slotOf (width pe) c) := ⟨fun _ _ => .symm⟩
      have hapart := hs.apart.forall (List.mem_of_find?_eq_some hf) hb hne
      exact hapart.not_has ha hc
    rw [wanted, hf, hbc]

theorem wanted_outside (h : ∀ b ∈ bs, ¬ (slotOf w b).Has a) : wanted w bs before a = before a := by
  have hf : (bs.find? fun b => decide ((slotOf w b).Has a)) = none :=
    List.find?_eq_none.2 fun b hb => by simpa using h b hb
  rw [wanted, hf]

theorem exact_iff_wanted (hs : Slots pe bs) (hne : ∀ b ∈ bs, b.2 ≠ 0) :
    Exact pe bs before after ↔
      ∀ a, InImage pe a → after a = wanted (width pe) bs before a := by
  constructor
  · intro h a ha
    by_cases hin : ∃ b ∈ bs, (slotOf (width pe) b).Has a
    · obtain ⟨b, hb, hba⟩ := hin
      rw [wanted_slot hs hb hba]
      exact (get_eq_iff (hs.fits b hb)).1 (h.held b hb).2 a hba
    · have hout : ∀ b ∈ bs, ¬ (slotOf (width pe) b).Has a := fun b hb hba => hin ⟨b, hb, hba⟩
      rw [wanted_outside hout]
      exact h.frame a ha hout
  · intro h
    refine ⟨fun b hb => ⟨hne b hb, (get_eq_iff (hs.fits b hb)).2 fun a ha => ?_⟩, fun a ha hout => ?_⟩
    · rw [h a (hs.inside b hb a ha), wanted_slot hs hb ha]
      rfl
    · rw [h a ha, wanted_outside hout]

/-- The bytes that the loops leave. -/
def written (bs : List (U64 × U64)) (before : Nat → Byte) : Nat → Byte :=
  setAll before (bs.map fun b => (slotOf 8 b, b.2.toNat))

theorem written_cons : written (b :: bs) before = written bs (set before (slotOf 8 b) b.2.toNat) := rfl

theorem eight_cases : (slotOf 8 b).Has a ↔
    (slotOf (width pe) b).Has a ∨ (tailOf (width pe) b).Has a := by
  have hw := width_le pe
  simp only [slotOf, tailOf, Extent.Has]
  omega

/-- A thunk has no byte for the tail. -/
theorem tail_zero (hs : Slots pe bs) (hb : b ∈ bs) (ha : (tailOf (width pe) b).Has a) :
    byteAt b.2.toNat (a - b.1.toNat) = 0 := by
  have hle : width pe ≤ a - b.1.toNat := Nat.le_sub_of_add_le' ha.1
  exact Word.byteAt_of_lt ((hs.fits b hb).trans_le (Nat.pow_le_pow_right (by decide) hle))

theorem written_last (hb : (slotOf 8 b).Has a) (hr : ∀ c ∈ r, ¬ (slotOf 8 c).Has a) :
    written (l ++ b :: r) before a = byteAt b.2.toNat (a - b.1.toNat) := by
  rw [written, List.map_append, List.map_cons]
  refine setAll_of_last hb fun x hx => ?_
  obtain ⟨c, hc, rfl⟩ := List.mem_map.1 hx
  exact hr c hc

/-- The last eight bytes over a byte are its own slot's, or a tail that must be clean. -/
theorem written_iff (hs : Slots pe bs) :
    (∀ a, InImage pe a → written bs before a = wanted (width pe) bs before a) ↔
      TailsClean pe bs before := by
  constructor
  · rintro h l b r rfl a ha hin hr
    have hb : b ∈ l ++ b :: r := by simp
    rw [← h a hin, written_last (eight_cases.2 (.inr ha)) hr]
    exact tail_zero hs hb ha
  · intro h a hin
    obtain ⟨heq, hno⟩ | ⟨l, w, r, hbs, hw, hr, heq⟩ :=
      setAll_last before (bs.map fun b => (slotOf 8 b, b.2.toNat)) a
    · rw [written, heq, wanted_outside fun b hb ha => ?_]
      exact hno _ (List.mem_map_of_mem hb) (eight_cases.2 (.inl ha))
    · obtain ⟨l', bs', rfl, hl, hbs'⟩ := List.map_eq_append_iff.1 hbs
      obtain ⟨b, r', rfl, rfl, rfl⟩ := List.map_eq_cons_iff.1 hbs'
      have hb : b ∈ l' ++ b :: r' := by simp
      have hlast : ∀ c ∈ r', ¬ (slotOf 8 c).Has a := fun c hc => hr _ (List.mem_map_of_mem hc)
      rw [written, heq]
      obtain hslot | htail := eight_cases.1 hw
      · exact (wanted_slot hs hb hslot).symm
      · rw [h l' b r' rfl a htail hin hlast]
        exact tail_zero hs hb htail

-- ---------------------------------------------------------------------------
-- The two loaders
-- ---------------------------------------------------------------------------

theorem blink_written (hne : ∀ b ∈ bs, b.2 ≠ 0) :
    writeAll blinkWrite bs mem = some (written bs mem) := by
  induction bs generalizing mem with
  | nil => rfl
  | cons b bs ih =>
    obtain ⟨hb, hbs⟩ := List.forall_mem_cons.1 hne
    rw [writeAll, if_neg hb, written_cons, ← ih hbs]
    rfl

theorem Exact.congr (h : ∀ a, a < 2 ^ 64 → after a = after' a) (hs : Slots pe bs)
    (hp : pe.imageBase.toNat + pe.sizeOfImage.toNat ≤ 2 ^ 64) (he : Exact pe bs before after) :
    Exact pe bs before after' := by
  have hin : ∀ a, InImage pe a → after a = after' a := fun a ha => h a (ha.2.trans_le hp)
  refine ⟨fun b hb => ⟨(he.held b hb).1, ?_⟩, fun a ha hout => ?_⟩
  · rw [← (he.held b hb).2]
    exact get_congr fun a ha => (hin a (hs.inside b hb a ha)).symm
  · rw [← hin a ha, he.frame a ha hout]

/-- A whole write shows in the view as eight bytes. -/
theorem builtinWrite_view (hw : Memory.Whole 8 mem b.1) (hf : Memory.findRegion mem b.1 ≠ none)
    (hroom : b.1.toNat + 8 ≤ 2 ^ 64) :
    ∃ mem', builtinWrite mem b.1 b.2 = some mem' ∧
      (∀ a, Memory.findRegion mem' a = Memory.findRegion mem a) ∧
      ∀ a, a < 2 ^ 64 → view mem' a = set (view mem) (slotOf 8 b) b.2.toNat a := by
  obtain ⟨p, hp⟩ := Option.ne_none_iff_exists'.1 (mt Memory.resolve_none.1 hf)
  obtain ⟨mem', hwr, hfind, hin, hout⟩ := hw.write_view (by decide) hp b.2.toNat
  refine ⟨mem', hwr, hfind, fun a ha => ?_⟩
  by_cases hhas : (slotOf 8 b).Has a
  · rw [set_inside hhas, view]
    have hle : b.1.toNat ≤ a := hhas.1
    have hlt : a < b.1.toNat + 8 := hhas.2
    have haddr : BitVec.ofNat 64 a = b.1 + BitVec.ofNat 64 (a - b.1.toNat) := by
      apply BitVec.eq_of_toNat_eq
      simp only [BitVec.toNat_ofNat, BitVec.toNat_add]
      omega
    rw [haddr, hin _ (by omega)]
    rfl
  · rw [set_outside hhas, view, view]
    refine hout _ fun k hk heq => hhas ?_
    have hnat := congrArg BitVec.toNat heq
    simp only [BitVec.toNat_ofNat, BitVec.toNat_add] at hnat
    constructor <;> simp only [slotOf] <;> omega

theorem builtin_written (mem : Memory.Space) (hne : ∀ b ∈ bs, b.2 ≠ 0) (hroom : ∀ b ∈ bs, b.1.toNat + 8 ≤ 2 ^ 64)
    (hf : ∀ b ∈ bs, Memory.findRegion mem b.1 ≠ none) (hw : ∀ b ∈ bs, Memory.Whole 8 mem b.1) :
    ∃ mem', writeAll builtinWrite bs mem = some mem' ∧
      ∀ a, a < 2 ^ 64 → view mem' a = written bs (view mem) a := by
  induction bs generalizing mem with
  | nil => exact ⟨mem, rfl, fun _ _ => rfl⟩
  | cons b bs ih =>
    obtain ⟨hb, hbs⟩ := List.forall_mem_cons.1 hne
    obtain ⟨hr, hrs⟩ := List.forall_mem_cons.1 hroom
    obtain ⟨hfb, hfs⟩ := List.forall_mem_cons.1 hf
    obtain ⟨hwb, hws⟩ := List.forall_mem_cons.1 hw
    obtain ⟨mem₁, hwr, hfind, hview⟩ := builtinWrite_view hwb hfb hr
    have hfs' : ∀ c ∈ bs, Memory.findRegion mem₁ c.1 ≠ none := by simpa only [hfind] using hfs
    have hws' : ∀ c ∈ bs, Memory.Whole 8 mem₁ c.1 := by
      simpa only [Memory.Whole, hfind] using hws
    obtain ⟨mem₂, hall, hview₂⟩ := ih mem₁ hbs hrs hfs' hws'
    refine ⟨mem₂, ?_, fun a ha => ?_⟩
    · rw [writeAll, if_neg hb, hwr]
      exact hall
    · rw [hview₂ a ha, written_cons]
      exact setAll_congr (hview a ha)

/-- A buffer that no write leaves has every write whole. -/
theorem whole_of_writeAll (mem : Memory.Space) (ha : Spans.AllApart mem.spans)
    (hne : ∀ b ∈ bs, b.2 ≠ 0) (hf : ∀ b ∈ bs, Memory.findRegion mem b.1 ≠ none)
    (hroom : ∀ b ∈ bs, b.1.toNat + 8 ≤ 2 ^ 64)
    (hall : writeAll builtinWrite bs mem = some mem') : ∀ b ∈ bs, Memory.Whole 8 mem b.1 := by
  induction bs generalizing mem with
  | nil => exact List.forall_mem_nil _
  | cons b bs ih =>
    obtain ⟨hb, hbs⟩ := List.forall_mem_cons.1 hne
    obtain ⟨hfb, hfs⟩ := List.forall_mem_cons.1 hf
    obtain ⟨hr, hrs⟩ := List.forall_mem_cons.1 hroom
    obtain ⟨p, hp⟩ := Option.ne_none_iff_exists'.1 (mt Memory.resolve_none.1 hfb)
    rw [writeAll, if_neg hb] at hall
    obtain ⟨mem₁, hwr, hall⟩ := Option.bind_eq_some_iff.1 hall
    have hfits : mem.fits p 8 = true := by
      simp only [builtinWrite, Memory.writeU64, Memory.wideWrite, hp, Memory.storeBytes] at hwr
      split at hwr
      · assumption
      · cases hwr
    have hwb : Memory.Whole 8 mem b.1 := Memory.whole_of_fits ha hp hfits
    obtain ⟨mem₂, hwr', hfind, -⟩ := builtinWrite_view hwb hfb hr
    obtain rfl := Option.some.inj (hwr.symm.trans hwr')
    have hspans : mem₁.spans = mem.spans := by
      have hagree := (hwb.agrees (by decide) hp).write b.2.toNat
      rw [Option.some.inj (hwr.symm.trans hagree), Memory.write_spans]
    have hfs' : ∀ c ∈ bs, Memory.findRegion mem₁ c.1 ≠ none := by simpa only [hfind] using hfs
    have hws := ih mem₁ (hspans ▸ ha) hbs hfs' hrs hall
    refine List.forall_mem_cons.2 ⟨hwb, ?_⟩
    simpa only [Memory.Whole, hfind] using hws

-- ---------------------------------------------------------------------------
-- The law
-- ---------------------------------------------------------------------------

/-- Binding by one of the loaders is exact. -/
def Binds (write : M → U64 → U64 → Option M) (view : M → Nat → Byte) (pe : Image)
    (bs : List (U64 × U64)) (mem : M) : Prop :=
  ∃ mem', writeAll write bs mem = some mem' ∧ Exact pe bs (view mem) (view mem')

/-- Every function has a thunk, and no tail falls on a byte that is wanted. -/
def Bindable (pe : Image) (bs : List (U64 × U64)) (before : Nat → Byte) : Prop :=
  (∀ b ∈ bs, b.2 ≠ 0) ∧ TailsClean pe bs before

theorem blink_binds_iff (hs : Slots pe bs) :
    Binds blinkWrite id pe bs mem ↔ Bindable pe bs mem := by
  constructor
  · rintro ⟨mem', hall, he⟩
    have hne : ∀ b ∈ bs, b.2 ≠ 0 := fun b hb => (he.held b hb).1
    obtain rfl := Option.some.inj ((blink_written hne).symm.trans hall)
    exact ⟨hne, (written_iff hs).1 ((exact_iff_wanted hs hne).1 he)⟩
  · rintro ⟨hne, hclean⟩
    exact ⟨_, blink_written hne, (exact_iff_wanted hs hne).2 ((written_iff hs).2 hclean)⟩

theorem builtin_binds_iff (hs : Slots pe bs) (ha : Spans.AllApart mem.spans)
    (hf : ∀ b ∈ bs, Memory.findRegion mem b.1 ≠ none)
    (hp : pe.imageBase.toNat + pe.sizeOfImage.toNat ≤ 2 ^ 64) :
    Binds builtinWrite view pe bs mem ↔
      Bindable pe bs (view mem) ∧ ∀ b ∈ bs, Memory.Whole 8 mem b.1 := by
  constructor
  · rintro ⟨mem', hall, he⟩
    have hne : ∀ b ∈ bs, b.2 ≠ 0 := fun b hb => (he.held b hb).1
    have hw := whole_of_writeAll mem ha hne hf hs.room hall
    obtain ⟨mem₁, hall₁, hview⟩ := builtin_written mem hne hs.room hf hw
    obtain rfl := Option.some.inj (hall₁.symm.trans hall)
    have he := he.congr hview hs hp
    exact ⟨⟨hne, (written_iff hs).1 ((exact_iff_wanted hs hne).1 he)⟩, hw⟩
  · rintro ⟨⟨hne, hclean⟩, hw⟩
    obtain ⟨mem₁, hall, hview⟩ := builtin_written mem hne hs.room hf hw
    have he : Exact pe bs (view mem) (written bs (view mem)) :=
      (exact_iff_wanted hs hne).2 ((written_iff hs).2 hclean)
    exact ⟨mem₁, hall, he.congr (fun a ha => (hview a ha).symm) hs hp⟩

theorem binds_iff (after : M → Nat → Byte) : (∃ r, bind write junk n ss m mem = some r ∧
      Exact pe (thunks junk n ss m) (after mem) (after r.2)) ↔
    Binds write after pe (thunks junk n ss m) mem := by
  unfold Binds
  rw [← bind_eq]
  cases bind write junk n ss m mem with
  | none => simp
  | some r => simp

theorem forall_thunks {P : U64 → Prop} :
    (∀ b ∈ thunks junk n ss m, P b.1) ↔ ∀ s ∈ ss, P s.addr := by
  have h := congrArg (fun l => ∀ a ∈ l, P a) (thunks_addr junk n ss m)
  simp only [List.forall_mem_map] at h
  exact iff_of_eq h

/-- Binding a well-formed image is exact if and only if every function has a thunk, no
tail of a slot falls on what is wanted there and, with the builtin memory, none leaves
its region. -/
theorem binding_law (hr : Run Thunks.step anyStep .init tr t) (hwf : WellFormed pe)
    (junk : Nat → Name × Name) :
    (∀ mem, (∃ r, bind blinkWrite junk 0 (slots pe) t.mapper mem = some r ∧
        Exact pe (thunks junk 0 (slots pe) t.mapper) mem r.2) ↔
      Bindable pe (thunks junk 0 (slots pe) t.mapper) mem) ∧
    ∀ mem, Mapped pe mem →
      ((∃ r, bind builtinWrite junk 0 (slots pe) t.mapper mem = some r ∧
          Exact pe (thunks junk 0 (slots pe) t.mapper) (view mem) (view r.2)) ↔
        Bindable pe (thunks junk 0 (slots pe) t.mapper) (view mem) ∧
          ∀ s ∈ slots pe, Memory.Whole 8 mem s.addr) := by
  have hs := hwf.slots junk 0 (laid_run hr)
  refine ⟨fun mem => (binds_iff id).trans (blink_binds_iff hs), fun mem hm => ?_⟩
  have hspace : pe.imageBase.toNat + pe.sizeOfImage.toNat ≤ 2 ^ 64 := by
    have h := hwf.space
    split at h <;> omega
  rw [binds_iff view, ← forall_thunks (P := Memory.Whole 8 mem)]
  refine builtin_binds_iff hs hm.apart ?_ hspace
  exact (forall_thunks (P := fun a => Memory.findRegion mem a ≠ none)).2 hm.found

/-- In a 64-bit image there are no tails. -/
theorem bindable_wide (h : pe.is64bit = true) : Bindable pe bs before ↔ ∀ b ∈ bs, b.2 ≠ 0 := by
  refine and_iff_left fun l b r _ a ha _ _ => absurd ha ?_
  simp only [tailOf, width, h, ↓reduceIte, Extent.Has]
  omega

/-- Two tables of one function each, the second in front of the first. -/
def twoTables (is64bit : Bool) : Image where
  imageBase := 0x400000
  entryPoint := 0x1000
  sizeOfImage := 0x3000
  sizeOfHeaders := 0x400
  subsystem := 2
  dllCharacteristics := 0
  machine := if is64bit then 0x8664 else 0x14C
  is64bit
  sections := []
  imports := [⟨name "a.dll", [⟨name "f", 0, if is64bit then 0x2008 else 0x2004⟩]⟩,
    ⟨name "b.dll", [⟨name "g", 0, 0x2000⟩]⟩]
  exports := ⟨0, 0⟩
  reloc := ⟨0, 0⟩
  tls := ⟨0, 0⟩
  raw := ⟨fun _ => 0, 0⟩

theorem twoTables_wellFormed : WellFormed (twoTables b) := by
  cases b
  · exact ⟨by decide, by decide, by decide⟩
  · exact ⟨by decide, by decide, by decide⟩

theorem binding_law_wide :
    ∃ r, bind blinkWrite (fun _ => ([], [])) 0 (slots (twoTables true)) ⟨[], thunkBase⟩
        (fun _ => 0) = some r ∧
      Exact (twoTables true) (thunks (fun _ => ([], [])) 0 (slots (twoTables true)) ⟨[], thunkBase⟩)
        (fun _ => 0) r.2 := by
  have hstubs : ((thunks (fun _ => ([], [])) 0 (slots (twoTables true)) ⟨[], thunkBase⟩).all
      fun b => b.2 != 0) = true := by decide +kernel
  refine ((binding_law (.nil : Run Thunks.step anyStep .init [] .init) twoTables_wellFormed _).1
    fun _ => 0).2 ((bindable_wide rfl).2 fun b hb => ?_)
  simpa using List.all_eq_true.1 hstubs b hb

/-- The second table's eight bytes clear the first one's slot. -/
theorem slot_cleared : WellFormed (twoTables false) ∧
    ∃ tr t, Run Thunks.step anyStep .init tr t ∧ t.base = some thunkBase32 ∧
      ¬ ∃ r, bind blinkWrite (fun _ => ([], [])) 0 (slots (twoTables false)) t.mapper
          (fun _ => 0) = some r ∧
        Exact (twoTables false) (thunks (fun _ => ([], [])) 0 (slots (twoTables false)) t.mapper)
          (fun _ => 0) r.2 := by
  refine ⟨twoTables_wellFormed, _, _, .single (a := .load false) trivial rfl, rfl, ?_⟩
  rintro ⟨r, hr, he⟩
  have hcleared : (bind blinkWrite (fun _ => ([], [])) 0 (slots (twoTables false))
      (mapThunks ⟨[], thunkBase⟩ thunkBase32) fun _ => 0).map
        (fun r => get r.2 ⟨0x402004, 4⟩) = some 0 := by
    decide +kernel
  have hslot : ((0x402004, thunkBase32) : U64 × U64) ∈ thunks (fun _ => ([], [])) 0
      (slots (twoTables false)) (mapThunks ⟨[], thunkBase⟩ thunkBase32) := by
    decide +kernel
  have hheld := (he.held _ hslot).2
  have hzero : some (get r.2 ⟨0x402004, 4⟩) = some 0 := by
    rw [← hcleared]
    exact (congrArg (Option.map fun r => get r.2 ⟨0x402004, 4⟩) hr).symm
  have hstub : get r.2 ⟨0x402004, 4⟩ = 0xC00000 := hheld
  rw [hstub] at hzero
  exact absurd hzero (by decide)

end WineGlass.Binding
