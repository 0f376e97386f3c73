import WineGlass.Lib.Bits
import WineGlass.Lib.Run
import WineGlass.Memory.Space

/-!
# Mapping and unmapping

`wg_memory_map` takes any range, over live regions too; where two regions
cover an address the one earlier in the table is seen, and `wg_memory_unmap`
moves the last region into the hole. So what is seen is settled by the regions
alone at an address that one region covers, and by their order elsewhere.
-/

namespace WineGlass.Memory

open Runs Spans Bits

/-- The byte seen at an address. -/
def visible (s : Space) (addr : Addr) : Option Byte := (resolve s addr).map s.get

def Region.span (r : Region) : Span := ⟨r.base.toNat, r.size.toNat⟩

def Space.spans (s : Space) : List Span := s.regions.map Region.span

inductive Action
  | map (base size : BitVec 64) (prot : BitVec 32) (ok : Bool)
  | unmap (base : BitVec 64)
  | writeU8 (addr : Addr) (b : Byte)
  | write (addr : Addr) (bs : List Byte)
  deriving DecidableEq

def step (s : Space) : Action → Option (Space × Bool)
  | .map base size prot ok => some ((map s base size prot ok).2, (map s base size prot ok).1)
  | .unmap base => some ((unmap s base).2, (unmap s base).1)
  | .writeU8 addr b => some (writeU8 s addr b, true)
  | .write addr bs => some ((write s addr bs).2, (write s addr bs).1)

/-- A map asks for pages no live region has. -/
def Fresh (s : Space) : Action → Prop
  | .map base size _ _ => ∀ b ∈ s.spans, Apart ⟨base.toNat, (alignedSize size).toNat⟩ b
  | _ => True

/-- The requested range, rounded up to whole pages, ends below `2 ^ 64`. -/
def InSpace (base size : BitVec 64) : Prop :=
  size.toNat + 4095 < 2 ^ 64 ∧ base.toNat + (alignedSize size).toNat < 2 ^ 64

/-- At most one region covers the address. -/
def Single (s : Space) (addr : Addr) : Prop :=
  s.regions.Pairwise fun r r' => ¬(r.covers addr = true ∧ r'.covers addr = true)

-- ---------------------------------------------------------------------------
-- The regions and their order
-- ---------------------------------------------------------------------------

theorem visible_eq : visible s addr =
    (s.regions.find? fun r => r.covers addr).map fun r => r.data (addr - r.base).toNat := by
  rw [List.find?_eq_bind_findIdx?_getElem?]
  unfold visible resolve findRegion
  cases hf : s.regions.findIdx? fun r => r.covers addr with
  | none => rfl
  | some i =>
    obtain ⟨hi, -, -⟩ := List.findIdx?_eq_some_iff_getElem.1 hf
    simp [List.getElem?_eq_getElem hi, Space.get]

/-- The only element with a property is the first one with it. -/
theorem find_only {p : α → Bool} {l : List α} (h : l.Pairwise fun a b => ¬(p a = true ∧ p b = true))
    (ha : a ∈ l) (hp : p a = true) : l.find? p = some a := by
  induction l with
  | nil => cases ha
  | cons b l ih =>
    obtain ⟨hhead, htail⟩ := List.pairwise_cons.1 h
    rcases List.mem_cons.1 ha with rfl | ha
    · exact List.find?_cons_of_pos hp
    · have hno : ¬p b = true := fun hb => hhead a ha ⟨hb, hp⟩
      rw [List.find?_cons_of_neg hno, ih htail ha]

/-- Where one region covers an address at most, only the regions matter. -/
theorem visible_perm (h : Single s addr) (hp : (r :: s'.regions).Perm s.regions)
    (hr : r.covers addr = false) : visible s' addr = visible s addr := by
  have hsymm : ∀ {r r' : Region}, ¬(r.covers addr = true ∧ r'.covers addr = true) →
      ¬(r'.covers addr = true ∧ r.covers addr = true) := fun hno hc => hno hc.symm
  have h' := (List.pairwise_cons.1 ((hp.pairwise_iff hsymm).2 h)).2
  rw [visible_eq, visible_eq]
  congr 1
  cases hf : s.regions.find? fun r => r.covers addr with
  | none =>
    refine List.find?_eq_none.2 fun r' hr' => ?_
    exact List.find?_eq_none.1 hf r' (hp.subset (List.mem_cons_of_mem r hr'))
  | some r' =>
    have hc : r'.covers addr = true := List.find?_some (p := fun r : Region => r.covers addr) hf
    rcases List.mem_cons.1 (hp.mem_iff.2 (List.mem_of_find?_eq_some hf)) with rfl | hr'
    · rw [hr] at hc
      cases hc
    · exact find_only h' hr' hc

theorem unmap_some (h : unmap s base = (true, s')) :
    ∃ r ∈ s.regions, r.base = base ∧ (r :: s'.regions).Perm s.regions := by
  unfold unmap at h
  split at h
  · cases h
  · rename_i i hf
    obtain ⟨hi, hb, -⟩ := List.findIdx?_eq_some_iff_getElem.1 hf
    obtain rfl := (Prod.mk.inj h).2
    exact ⟨s.regions[i], List.getElem_mem hi, eq_of_beq hb, swapRemove_perm hi⟩

theorem map_some (h : map s base size prot ok = (true, s')) :
    s'.regions = s.regions ++ [⟨base, alignedSize size, prot, fun _ => 0⟩] := by
  unfold map at h
  split at h
  · cases h
  split at h
  · cases h
  · rw [← (Prod.mk.inj h).2]

-- ---------------------------------------------------------------------------
-- Sizes
-- ---------------------------------------------------------------------------

theorem le_alignedSize (h : size.toNat + 4095 < 2 ^ 64) :
    size.toNat ≤ (alignedSize size).toNat := by
  have hone : pageSize - 1 = 4095#64 := rfl
  have hsum : (size + pageSize - 1).toNat = size.toNat + 4095 := by
    unfold pageSize
    bv_omega
  have hmask : ((size + pageSize - 1) &&& ~~~(pageSize - 1)).toNat =
      (size.toNat + 4095) / 4096 * 4096 := by
    rw [hone]
    refine (and_not_lowMask _ 12).trans ?_
    simp only [hsum, Nat.reducePow]
  unfold alignedSize
  dsimp only
  split
  · rename_i h0
    have hzero : (0 : BitVec 64).toNat = 0 := rfl
    rw [h0, hzero] at hmask
    omega
  · rw [hmask]
    omega

-- ---------------------------------------------------------------------------
-- Spans
-- ---------------------------------------------------------------------------

theorem put_spans (s : Space) (p : Ptr) (b : Byte) : (s.put p b).spans = s.spans := by
  refine List.ext_getElem? fun j => ?_
  have h := congrArg (Option.map fun x : Addr × BitVec 64 => (⟨x.1.toNat, x.2.toNat⟩ : Span))
    (put_regions s p b j)
  rw [Option.map_map, Option.map_map] at h
  rw [Space.spans, Space.spans, List.getElem?_map, List.getElem?_map]
  exact h

theorem write_spans (s : Space) (addr : Addr) (bs : List Byte) :
    (write s addr bs).2.spans = s.spans := by
  induction bs generalizing s addr with
  | nil => rfl
  | cons b bs ih =>
    unfold write
    split
    · rfl
    · rw [ih, put_spans]

theorem step_apart (h : AllApart s.spans) (hok : Fresh s a) (hst : step s a = some (s', r)) :
    AllApart s'.spans := by
  cases a with
  | map base size prot ok =>
    obtain rfl := congrArg Prod.fst (Option.some.inj hst)
    cases hm : map s base size prot ok with
    | mk done s' =>
      cases done with
      | false =>
        have hsame : s' = s := by
          unfold map at hm
          split at hm
          · exact (Prod.mk.inj hm).2.symm
          split at hm
          · exact (Prod.mk.inj hm).2.symm
          · cases hm
        rwa [hsame]
      | true =>
        rw [Space.spans, map_some hm, List.map_append]
        refine AllApart.perm (List.pairwise_cons.2 ⟨hok, h⟩) ?_
        exact (List.perm_append_singleton _ _).symm
  | unmap base =>
    obtain rfl := congrArg Prod.fst (Option.some.inj hst)
    cases hm : unmap s base with
    | mk done s' =>
      cases done with
      | false =>
        have hsame : s' = s := by
          unfold unmap at hm
          split at hm
          · exact (Prod.mk.inj hm).2.symm
          · cases hm
        rwa [hsame]
      | true =>
        obtain ⟨r, -, -, hp⟩ := unmap_some hm
        exact (h.perm (hp.map Region.span).symm).tail
  | writeU8 addr b =>
    obtain rfl := congrArg Prod.fst (Option.some.inj hst)
    unfold writeU8
    split
    · exact h
    · rwa [put_spans]
  | write addr bs =>
    obtain rfl := congrArg Prod.fst (Option.some.inj hst)
    rwa [write_spans]

-- ---------------------------------------------------------------------------
-- The law of regions
-- ---------------------------------------------------------------------------

/-- What every map and unmap from a state does. -/
structure RegionLaw (s : Space) : Prop where
  covered : ∀ base size prot ok s', map s base size prot ok = (true, s') → InSpace base size →
    ∃ r, s'.regions = s.regions ++ [r] ∧ r.base = base ∧
      ∀ addr, base.toNat ≤ addr.toNat → addr.toNat < base.toNat + size.toNat →
        r.covers addr = true ∧ findRegion s' addr ≠ none
  unseen : ∀ base s', unmap s base = (true, s') →
    ∃ r ∈ s.regions, r.base = base ∧ ∀ addr, r.covers addr = false → Single s addr →
      visible s' addr = visible s addr

theorem map_covered (h : map s base size prot ok = (true, s')) (hin : InSpace base size) :
    ∃ r, s'.regions = s.regions ++ [r] ∧ r.base = base ∧
      ∀ addr, base.toNat ≤ addr.toNat → addr.toNat < base.toNat + size.toNat →
        r.covers addr = true ∧ findRegion s' addr ≠ none := by
  refine ⟨_, map_some h, rfl, fun addr hle hlt => ?_⟩
  have hsize := le_alignedSize hin.1
  have hc : Region.covers ⟨base, alignedSize size, prot, fun _ => 0⟩ addr = true :=
    covers_iff.2 ⟨hle, by dsimp only; omega, hin.2⟩
  refine ⟨hc, fun hno => ?_⟩
  rw [findRegion, List.findIdx?_eq_none_iff] at hno
  have hmem := hno _ (map_some h ▸ List.mem_append_right _ (List.mem_singleton_self _))
  rw [hc] at hmem
  cases hmem

/-- In every run a map whose rounded range stays in the address space covers its
range, and an unmap changes nothing at an address outside the region that one
region covers at most; where every map asks for fresh pages, live regions never
overlap. -/
theorem region_law (_ : Run step anyStep .init tr s) :
    RegionLaw s ∧ (Run step Fresh .init tr s → AllApart s.spans) := by
  refine ⟨⟨fun base size prot ok s' hm hin => map_covered hm hin, fun base s' hu => ?_⟩, fun h => ?_⟩
  · obtain ⟨r, hr, hb, hp⟩ := unmap_some hu
    exact ⟨r, hr, hb, fun addr hc hs => visible_perm hs hp hc⟩
  · exact h.invariant (P := fun _ s => AllApart s.spans) .nil
      fun hi hok hst => step_apart hi hok hst

/-- Two pages, the second mapped again after a write to it. -/
theorem region_law_remapped :
    ∃ tr s, Run step anyStep .init tr s ∧
      (RegionLaw s ∧ (Run step Fresh .init tr s → AllApart s.spans)) ∧
      s.regions.map Region.base = [0x1000, 0x2000] := by
  obtain ⟨tr, s, hr, hb⟩ := Run.of_exec_any
    (show (exec step anyStep .init [.map 0x1000 0x1000 3 true, .map 0x2000 0x1000 3 true,
      .writeU8 0x2000 1, .unmap 0x2000, .map 0x2000 0x1000 3 true]).any
        (fun r => decide (r.2.regions.map Region.base = [0x1000, 0x2000])) = true by decide)
  exact ⟨tr, s, hr, region_law hr, of_decide_eq_true hb⟩

/-- A page mapped over a live one hides behind it, until a third region is
unmapped and the later page takes its place at the front. -/
theorem unmap_elsewhere_changes_byte :
    ∃ tr s, Run step anyStep .init tr s ∧ ¬AllApart s.spans ∧ visible s 0x5000 = some 1 ∧
      (unmap s 0x1000).1 = true ∧ visible (unmap s 0x1000).2 0x5000 = some 0 := by
  obtain ⟨tr, s, hr, hs⟩ := Run.of_exec_any
    (show (exec step anyStep .init [.map 0x1000 0x1000 3 true, .map 0x5000 0x1000 3 true,
      .writeU8 0x5000 1, .map 0x5000 0x1000 3 true]).any
        (fun r => decide (¬AllApart r.2.spans ∧ visible r.2 0x5000 = some 1 ∧
          (unmap r.2 0x1000).1 = true ∧ visible (unmap r.2 0x1000).2 0x5000 = some 0)) = true by
      decide)
  exact ⟨tr, s, hr, of_decide_eq_true hs⟩

end WineGlass.Memory
