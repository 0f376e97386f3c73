import WineGlass.Engine.Regions
import WineGlass.Lib.Fields

/-!
# Committed pages

Region 3 has a bit for each of its pages, and a page is cleared when its bit is first set. The
32-bit heap has no such bits: what `VirtualAlloc` gives of it is cleared at once, and a commit or
a decommit there does nothing.
-/

namespace WineGlass.Commits

open Runs Spans Fields GuestHeap Regions

abbrev Byte := BitVec 8
abbrev U32 := BitVec 32

-- ---------------------------------------------------------------------------
-- The code
-- ---------------------------------------------------------------------------

/-- What memory the host has for a call: `calloc` in the 32-bit heap, the fast way to fill,
the bitmap, and where in region 3 a chunk of zeros is not to be had. -/
structure Host where
  ok : Bool
  fast : Bool
  bitmapOk : Bool
  fails : List Nat
  deriving DecidableEq, Repr

/-- `s_commit_bm` is allocated by the first commit. -/
structure Machine where
  regions : Regions.State
  bitmap : Option (Nat → Bool)
  mem : Nat → Byte

def Machine.init (mem : Nat → Byte) : Machine := ⟨.init, none, mem⟩

/-- `wg_zero_range64`, for so many chunks of 4 MB. -/
def zeroChunks (fails : List Nat) : Nat → (Nat → Byte) → Nat → Nat → Nat → Byte
  | 0, m, _, _ => m
  | n + 1, m, addr, len =>
    if addr ∈ fails then m
    else
      let chunk := min len 0x400000
      zeroChunks fails n (zero m ⟨addr, chunk⟩) (addr + chunk) (len - chunk)

def zeroRange64 (fails : List Nat) (m : Nat → Byte) (addr len : Nat) : Nat → Byte :=
  zeroChunks fails ((len + 0x3FFFFF) / 0x400000) m addr len

/-- `wg_page_mark`, for pages one after the other. -/
def mark (bm : Nat → Bool) (pg n : Nat) (v : Bool) : Nat → Bool := fun q =>
  if pg ≤ q ∧ q < pg + n then v else bm q

/-- How many pages from one on are not committed. -/
def runLength (bm : Nat → Bool) (pg : Nat) : Nat → Nat
  | 0 => 0
  | n + 1 => if bm pg then 0 else runLength bm (pg + 1) n + 1

/-- The loop of `wg_guest_map64` over the `n` pages from `pg` on: a committed page is passed,
a run of others is marked and cleared. No more turns are needed than there are pages. -/
def mapPages (fails : List Nat) :
    Nat → (Nat → Bool) → (Nat → Byte) → Nat → Nat → (Nat → Bool) × (Nat → Byte)
  | 0, bm, m, _, _ => (bm, m)
  | turns + 1, bm, m, pg, n =>
    if n = 0 then (bm, m)
    else if bm pg then mapPages fails turns bm m (pg + 1) (n - 1)
    else
      let k := runLength bm pg n
      mapPages fails turns (mark bm pg k true)
        (zeroRange64 fails m (heap64Base + pg * 0x1000) (k * 0x1000)) (pg + k) (n - k)

/-- `wg_guest_map64`. -/
def map64 (g : Machine) (e : Host) (addr size : Nat) : Machine :=
  let first := addr / 0x1000 * 0x1000
  let last := roundPage64 (addr + size)
  match g.bitmap.or (if e.bitmapOk then some fun _ => false else none) with
  | none => { g with mem := zeroRange64 e.fails g.mem first (u64 (2 ^ 64 + last - first)) }
  | some bm =>
    if first < heap64Base ∨ heap64End < last then
      { g with
        bitmap := some bm
        mem := zeroRange64 e.fails g.mem first (u64 (2 ^ 64 + last - first)) }
    else
      let n := (last - first) / 0x1000
      let r := mapPages e.fails n bm g.mem ((first - heap64Base) / 0x1000) n
      { g with bitmap := some r.1, mem := r.2 }

/-- The pages of a range inside region 3: the first, and how many. -/
def clampedFirst (addr : Nat) : Nat := (max (addr / 0x1000 * 0x1000) heap64Base - heap64Base) / 0x1000

def clampedCount (addr size : Nat) : Nat :=
  (min (roundPage64 (addr + size)) heap64End - max (addr / 0x1000 * 0x1000) heap64Base) / 0x1000

/-- `wg_uncommit64`. -/
def uncommit64 (g : Machine) (addr size : Nat) : Machine :=
  { g with bitmap := g.bitmap.map (mark · (clampedFirst addr) (clampedCount addr size) false) }

/-- A request to the 32-bit heap, cleared: a block used before in the fast way or with zeros
of `calloc`, one at the pointer with those. -/
def allocLow (g : Machine) (e : Host) (size : Nat) : Machine × Nat :=
  let n := if u32 size = 0 then 1 else u32 size
  let reused := (freeListTake g.regions.heap.freeBlocks (roundPage n)).1 ≠ 0
  let (heap, a) := Regions.allocLow g.regions.heap size e.ok
  let mem := if a = 0 ∨ reused ∧ !e.fast ∧ !e.ok then g.mem else zero g.mem ⟨a, roundPage n⟩
  ({ g with regions := { g.regions with heap }, mem }, a)

/-- `MEM_COMMIT`, `MEM_DECOMMIT` and `MEM_RELEASE`. -/
def memCommit : U32 := 0x1000
def memDecommit : U32 := 0x4000
def memRelease : U32 := 0x8000

/-- `VirtualAlloc`. -/
def virtualAlloc (c : Config) (g : Machine) (e : Host) (addr size : Nat) (type : U32) :
    Machine × Nat :=
  if size = 0 then (g, 0)
  else if addr ≠ 0 then
    (if heap64Base ≤ addr ∧ type &&& memCommit ≠ 0 then map64 g e addr size else g, addr)
  else if c.cutoff ≤ size then
    let (region3, a, commit) := reserve64 c g.regions.region3 size
    let g := { g with regions := { g.regions with region3 } }
    if a ≠ 0 then (if type &&& memCommit ≠ 0 then map64 g e a commit else g, a)
    else allocLow g e size
  else allocLow g e size

/-- `VirtualFree`. -/
def virtualFree (g : Machine) (addr size : Nat) (type : U32) : Machine :=
  if type &&& memRelease ≠ 0 then
    let g' := { g with regions := Regions.virtualFree g.regions addr }
    if heap64Base ≤ addr then
      match find64 g.regions.region3.tracked addr with
      | none => g'
      | some i =>
        let size := (g.regions.region3.tracked.getD i ⟨0, 0⟩).len
        if size = 0 then g' else uncommit64 g' addr (roundPage64 size)
    else g'
  else if type &&& memDecommit ≠ 0 ∧ heap64Base ≤ addr then
    uncommit64 g addr (if size = 0 then 0x1000 else size)
  else g

inductive Action
  | alloc (addr size : Nat) (type : U32) (e : Host)
  | free (addr size : Nat) (type : U32)
  | write (addr : Nat) (b : Byte)
  deriving DecidableEq, Repr

/-- Arguments are 64 bits wide. -/
def Action.Fits : Action → Prop
  | .alloc addr size .. | .free addr size _ => addr < 2 ^ 64 ∧ size < 2 ^ 64
  | .write addr _ => addr < 2 ^ 64

instance (a : Action) : Decidable a.Fits := by cases a <;> unfold Action.Fits <;> infer_instance

def step (c : Config) (g : Machine) (a : Action) : Option (Machine × Nat) :=
  if a.Fits then
    match a with
    | .alloc addr size type e => some (virtualAlloc c g e addr size type)
    | .free addr size type => some (virtualFree g addr size type, 1)
    | .write addr b => some ({ g with mem := Function.update g.mem addr b }, 0)
  else none

-- ---------------------------------------------------------------------------
-- What is committed
-- ---------------------------------------------------------------------------

/-- The page with the number has a byte in the range. -/
def touches (addr size p : Nat) : Bool := p * 0x1000 < addr + size ∧ addr < (p + 1) * 0x1000

/-- The reservations in region 3 that are held, and the pages there that are committed. -/
structure View where
  held : List Span
  committed : Nat → Bool

def View.init : View := ⟨[], fun _ => false⟩

/-- The range in region 3 that a call commits. -/
def commits : Action → Nat → Option (Nat × Nat)
  | .alloc addr size type _, r =>
    let base := if addr = 0 then r else addr
    if r ≠ 0 ∧ type &&& memCommit ≠ 0 ∧ heap64Base ≤ base then some (base, size) else none
  | _, _ => none

/-- The range in region 3 that a call decommits: one page for a size of 0, and all of the
reservation that it releases. -/
def View.decommits (v : View) : Action → Option (Nat × Nat)
  | .free addr size type =>
    if type &&& memRelease ≠ 0 then
      (v.held.find? fun b => b.start == addr).map fun b => (b.start, b.len)
    else if type &&& memDecommit ≠ 0 ∧ heap64Base ≤ addr then
      some (addr, if size = 0 then 0x1000 else size)
    else none
  | _ => none

def View.reserves (v : View) : Action → Nat → List Span
  | .alloc addr size _ _, r => if addr = 0 ∧ heap64Base ≤ r then ⟨r, pages size⟩ :: v.held else v.held
  | .free addr _ type, _ =>
    if type &&& memRelease ≠ 0 then v.held.eraseP fun b => b.start == addr else v.held
  | .write .., _ => v.held

def within (range : Option (Nat × Nat)) (p : Nat) : Bool := range.any fun r => touches r.1 r.2 p

def View.step (v : View) (x : Action × Nat) : View where
  held := v.reserves x.1 x.2
  committed p := (v.committed p || within (commits x.1 x.2) p) && !within (v.decommits x.1) p

def view (tr : List (Action × Nat)) : View := tr.foldl View.step .init

/-- What a call leaves in memory: pages that it commits and that were not committed are zeros,
and so is what it gives of the 32-bit heap; all else is as before. -/
def View.after (v : View) (m : Nat → Byte) (a : Action) (r : Nat) : Nat → Byte :=
  match a with
  | .write addr b => Function.update m addr b
  | .free .. => m
  | .alloc addr size _ _ => fun x =>
    if within (commits a r) (x / 0x1000) ∧ !v.committed (x / 0x1000) then 0
    else if addr = 0 ∧ r ≠ 0 ∧ r < heap64Base ∧ r ≤ x ∧ x < r + pages size then 0
    else m x

/-- The host has the memory, and a range in region 3 ends there; a new reservation does not wrap
around, is not cut to 32 bits, and has a place in the table. -/
def Meets (c : Config) (g : Machine) : Action → Prop
  | .alloc addr size _ e => (e.fails = [] ∧ (g.bitmap.isSome ∨ e.bitmapOk) ∧ (e.fast ∨ e.ok)) ∧
      if addr ≠ 0 then heap64Base ≤ addr → addr + size ≤ heap64End
      else Regions.Meets c g.regions (.alloc size e.ok) ∧
        (c.cutoff ≤ size → g.regions.region3.tracked.length < maxAlloc64)
  | .free addr size _ => addr + (if size = 0 then 0x1000 else size) + 0x1000 ≤ 2 ^ 64
  | .write .. => True

instance (c : Config) (g : Machine) (a : Action) : Decidable (Meets c g a) := by
  cases a <;> unfold Meets <;> infer_instance

-- ---------------------------------------------------------------------------
-- Zeros
-- ---------------------------------------------------------------------------

theorem zeroChunks_all (n : Nat) (m : Nat → Byte) (addr len : Nat) :
    zeroChunks [] n m addr len = zero m ⟨addr, min len (n * 0x400000)⟩ := by
  induction n generalizing m addr len with
  | zero =>
    rw [Nat.zero_mul, Nat.min_zero, zero_empty]
    rfl
  | succ n ih =>
    rw [zeroChunks, if_neg List.not_mem_nil]
    dsimp only
    rw [ih, zero_append]
    congr 2
    omega

theorem zeroRange64_all (m : Nat → Byte) (addr len : Nat) :
    zeroRange64 [] m addr len = zero m ⟨addr, len⟩ := by
  rw [zeroRange64, zeroChunks_all, Nat.min_eq_left (by omega)]

-- ---------------------------------------------------------------------------
-- The bitmap
-- ---------------------------------------------------------------------------

theorem runLength_le (bm : Nat → Bool) (pg n : Nat) : runLength bm pg n ≤ n := by
  induction n generalizing pg with
  | zero => exact Nat.le_refl 0
  | succ n ih =>
    rw [runLength]
    split
    · exact Nat.zero_le _
    · exact Nat.succ_le_succ (ih _)

/-- The pages of a run are not committed. -/
theorem runLength_free {bm : Nat → Bool} (hq : pg ≤ q) (h : q < pg + runLength bm pg n) :
    bm q = false := by
  induction n generalizing pg with
  | zero => exact absurd (Nat.lt_of_le_of_lt hq h) (Nat.lt_irrefl pg)
  | succ n ih =>
    rw [runLength] at h
    split at h
    · exact absurd (Nat.lt_of_le_of_lt hq h) (Nat.lt_irrefl pg)
    · rename_i hpg
      obtain rfl | hlt := Nat.eq_or_lt_of_le hq
      · simpa using hpg
      · have hnext : pg + 1 ≤ q := hlt
        exact ih hnext (by omega)

theorem runLength_pos {bm : Nat → Bool} (h : ¬ bm pg = true) (hn : n ≠ 0) : 0 < runLength bm pg n := by
  obtain ⟨n, rfl⟩ := Nat.exists_eq_succ_of_ne_zero hn
  rw [runLength, if_neg h]
  exact Nat.succ_pos _

/-- The pages from `pg` on that are not committed, cleared. -/
def fresh (bm : Nat → Bool) (m : Nat → Byte) (pg n : Nat) : Nat → Byte := fun x =>
  if heap64Base + pg * 0x1000 ≤ x ∧ x < heap64Base + (pg + n) * 0x1000 ∧
      bm ((x - heap64Base) / 0x1000) = false then 0
  else m x

theorem fresh_in {bm : Nat → Bool} (h : pg ≤ (x - heap64Base) / 0x1000 ∧
    (x - heap64Base) / 0x1000 < pg + n) (hx : heap64Base ≤ x)
    (hbit : bm ((x - heap64Base) / 0x1000) = false) (m : Nat → Byte) : fresh bm m pg n x = 0 :=
  if_pos ⟨by omega, by omega, hbit⟩

theorem fresh_out {bm : Nat → Bool} (h : heap64Base ≤ x → pg ≤ (x - heap64Base) / 0x1000 →
    (x - heap64Base) / 0x1000 < pg + n → bm ((x - heap64Base) / 0x1000) = true)
    (m : Nat → Byte) : fresh bm m pg n x = m x := by
  refine if_neg fun hin => ?_
  rw [h (by omega) (by omega) (by omega)] at hin
  exact absurd hin.2.2 (by decide)

/-- The loop marks its pages, and clears those that were not committed. -/
theorem mapPages_spec (hturns : n ≤ turns) (bm : Nat → Bool) (m : Nat → Byte) (pg : Nat) :
    mapPages [] turns bm m pg n = (mark bm pg n true, fresh bm m pg n) := by
  induction turns generalizing bm m pg n with
  | zero =>
    obtain rfl := Nat.le_zero.1 hturns
    refine Prod.ext (funext fun q => ?_) (funext fun x => ?_)
    · exact (if_neg (by omega)).symm
    · exact (if_neg (by omega)).symm
  | succ turns ih =>
    rw [mapPages]
    split
    · rename_i hn
      subst hn
      refine Prod.ext (funext fun q => ?_) (funext fun x => ?_)
      · exact (if_neg (by omega)).symm
      · exact (if_neg (by omega)).symm
    · rename_i hn
      split
      · rename_i hpg
        rw [ih (by omega)]
        refine Prod.ext (funext fun q => ?_) (funext fun x => ?_)
        · simp only [mark]
          by_cases hq : q = pg
          · subst hq
            rw [if_neg (by omega), if_pos (by omega), hpg]
          · exact if_congr (by omega) rfl rfl
        · by_cases hin : heap64Base ≤ x ∧ pg ≤ (x - heap64Base) / 0x1000 ∧
              (x - heap64Base) / 0x1000 < pg + n ∧ bm ((x - heap64Base) / 0x1000) = false
          · obtain ⟨hx, hlow, hhigh, hbit⟩ := hin
            have hne : (x - heap64Base) / 0x1000 ≠ pg := by
              rintro hq
              rw [hq, hpg] at hbit
              cases hbit
            exact (fresh_in ⟨by omega, by omega⟩ hx hbit m).trans
              (fresh_in ⟨hlow, hhigh⟩ hx hbit m).symm
          · have hset : heap64Base ≤ x → pg ≤ (x - heap64Base) / 0x1000 →
                (x - heap64Base) / 0x1000 < pg + n → bm ((x - heap64Base) / 0x1000) = true :=
              fun hx hlow hhigh => eq_true_of_ne_false fun hbit => hin ⟨hx, hlow, hhigh, hbit⟩
            exact (fresh_out (fun hx hlow hhigh => hset hx (by omega) (by omega)) m).trans
              (fresh_out hset m).symm
      · rename_i hpg
        have hpos := runLength_pos hpg hn
        have hle := runLength_le bm pg n
        have hfree : ∀ q, pg ≤ q → q < pg + runLength bm pg n → bm q = false := fun q => runLength_free
        dsimp only
        generalize runLength bm pg n = k at *
        rw [ih (by omega), zeroRange64_all]
        refine Prod.ext (funext fun q => ?_) (funext fun x => ?_)
        · simp only [mark]
          by_cases hq : pg ≤ q ∧ q < pg + k
          · rw [if_neg (by omega), if_pos hq, if_pos (by omega)]
          · rw [if_neg hq]
            exact if_congr (by omega) rfl rfl
        · show fresh (mark bm pg k true) (zero m ⟨heap64Base + pg * 0x1000, k * 0x1000⟩) (pg + k)
            (n - k) x = fresh bm m pg n x
          by_cases hrun : Extent.Has ⟨heap64Base + pg * 0x1000, k * 0x1000⟩ x
          · have hrun' := hrun
            unfold Extent.Has at hrun'
            dsimp only at hrun'
            rw [fresh_out fun hx hlow hhigh => absurd hlow (by omega), zero_has _ hrun,
              fresh_in ⟨by omega, by omega⟩ (by omega) (hfree _ (by omega) (by omega))]
          · have hrun' := hrun
            unfold Extent.Has at hrun'
            dsimp only at hrun'
            have hsame : pg + k ≤ (x - heap64Base) / 0x1000 →
                mark bm pg k true ((x - heap64Base) / 0x1000) = bm ((x - heap64Base) / 0x1000) :=
              fun hq => if_neg (by omega)
            by_cases hin : heap64Base ≤ x ∧ pg + k ≤ (x - heap64Base) / 0x1000 ∧
                (x - heap64Base) / 0x1000 < pg + n ∧ bm ((x - heap64Base) / 0x1000) = false
            · obtain ⟨hx, hlow, hhigh, hbit⟩ := hin
              rw [fresh_in ⟨hlow, by omega⟩ hx ((hsame hlow).trans hbit),
                fresh_in ⟨by omega, hhigh⟩ hx hbit]
            · have hset : heap64Base ≤ x → pg + k ≤ (x - heap64Base) / 0x1000 →
                  (x - heap64Base) / 0x1000 < pg + n → bm ((x - heap64Base) / 0x1000) = true :=
                fun hx hlow hhigh => eq_true_of_ne_false fun hbit => hin ⟨hx, hlow, hhigh, hbit⟩
              rw [fresh_out fun hx hlow hhigh => (hsame hlow).trans (hset hx hlow (by omega)),
                zero_not_has _ hrun, fresh_out fun hx hlow hhigh => hset hx (by omega) hhigh]

-- ---------------------------------------------------------------------------
-- Ranges and pages
-- ---------------------------------------------------------------------------

/-- The first page of region 3 by its number, and how many pages there are. -/
def basePage : Nat := 0x100000
def windowPages : Nat := 0x2700000

def firstPage (addr : Nat) : Nat := (addr / 0x1000 * 0x1000 - heap64Base) / 0x1000

def pageCount (addr size : Nat) : Nat := (roundPage64 (addr + size) - addr / 0x1000 * 0x1000) / 0x1000

theorem touches_iff : touches addr size p = true ↔ p * 0x1000 < addr + size ∧ addr < (p + 1) * 0x1000 :=
  decide_eq_true_iff

theorem touches_window (ha : heap64Base ≤ addr) (hsize : 0 < size) (hend : addr + size ≤ heap64End) :
    touches addr size (basePage + q) = true ↔
      firstPage addr ≤ q ∧ q < firstPage addr + pageCount addr size := by
  rw [touches_iff]
  unfold firstPage pageCount roundPage64 u64 heap64Base heap64End basePage at *
  omega

/-- The bits of region 3; there are none before the bitmap is. -/
def Machine.bits (g : Machine) : Nat → Bool := g.bitmap.getD fun _ => false

theorem map64_spec {g : Machine} {e : Host} (hfails : e.fails = [])
    (hbitmap : g.bitmap.isSome = true ∨ e.bitmapOk = true) (ha : heap64Base ≤ addr)
    (hend : addr + size ≤ heap64End) :
    map64 g e addr size = { g with
      bitmap := some (mark g.bits (firstPage addr) (pageCount addr size) true)
      mem := fresh g.bits g.mem (firstPage addr) (pageCount addr size) } := by
  have hbits : g.bitmap.or (if e.bitmapOk then some fun _ => false else none) = some g.bits := by
    unfold Machine.bits
    cases hb : g.bitmap with
    | some bm => rfl
    | none =>
      rw [hb] at hbitmap
      rw [if_pos (hbitmap.resolve_left Bool.false_ne_true)]
      rfl
  have hin : ¬(addr / 0x1000 * 0x1000 < heap64Base ∨ heap64End < roundPage64 (addr + size)) := by
    unfold roundPage64 u64 heap64Base heap64End at *
    omega
  unfold map64
  dsimp only
  rw [hbits]
  dsimp only
  rw [if_neg hin, hfails, mapPages_spec (Nat.le_refl _)]
  rfl

/-- The bits and the pages that are committed agree. -/
def Agree (g : Machine) (v : View) : Prop := ∀ q < windowPages, g.bits q = v.committed (basePage + q)

/-- A commit sets the bits of its pages. -/
theorem mark_touches (ha : heap64Base ≤ addr) (hsize : 0 < size) (hend : addr + size ≤ heap64End)
    (bm : Nat → Bool) (q : Nat) :
    mark bm (firstPage addr) (pageCount addr size) true q =
      (bm q || touches addr size (basePage + q)) := by
  have hiff := touches_window (q := q) ha hsize hend
  unfold mark
  split
  · rename_i hin
    rw [hiff.2 hin, Bool.or_true]
  · rename_i hout
    rw [eq_false_of_ne_true fun h => hout (hiff.1 h), Bool.or_false]

/-- A commit clears those of its pages that were not committed. -/
theorem fresh_touches {g : Machine} {v : View} (hg : Agree g v) (ha : heap64Base ≤ addr)
    (hsize : 0 < size) (hend : addr + size ≤ heap64End) (x : Nat) :
    fresh g.bits g.mem (firstPage addr) (pageCount addr size) x =
      if touches addr size (x / 0x1000) ∧ !v.committed (x / 0x1000) then 0 else g.mem x := by
  by_cases hx : heap64Base ≤ x
  · have hpage : x / 0x1000 = basePage + (x - heap64Base) / 0x1000 := by
      unfold heap64Base basePage at *
      omega
    have hiff := touches_window (q := (x - heap64Base) / 0x1000) ha hsize hend
    rw [hpage]
    by_cases htouch : touches addr size (basePage + (x - heap64Base) / 0x1000) = true
    · have hwin : (x - heap64Base) / 0x1000 < windowPages := by
        rw [touches_iff] at htouch
        unfold heap64Base heap64End basePage windowPages at *
        omega
      have hbit := hg _ hwin
      cases hc : v.committed (basePage + (x - heap64Base) / 0x1000) with
      | true =>
        rw [fresh_out fun _ _ _ => hbit.trans hc, if_neg]
        rintro ⟨-, hno⟩
        cases hno
      | false =>
        rw [fresh_in (hiff.1 htouch) hx (hbit.trans hc), if_pos ⟨htouch, rfl⟩]
    · rw [fresh_out fun _ hlow hhigh => absurd (hiff.2 ⟨hlow, hhigh⟩) htouch,
        if_neg fun h => htouch h.1]
  · rw [fresh_out fun h => absurd h hx, if_neg]
    rintro ⟨htouch, -⟩
    rw [touches_iff] at htouch
    unfold heap64Base at *
    omega

theorem clamped_touches (ha : heap64Base ≤ addr) (hsize : 0 < size)
    (hend : addr + size + 0x1000 ≤ 2 ^ 64) (hq : q < windowPages) :
    touches addr size (basePage + q) = true ↔
      clampedFirst addr ≤ q ∧ q < clampedFirst addr + clampedCount addr size := by
  have hround : roundPage64 (addr + size) = (addr + size + 0xFFF) / 0x1000 * 0x1000 := by
    rw [roundPage64, u64_eq (by omega)]
  have hfirst : max (addr / 0x1000 * 0x1000) heap64Base = addr / 0x1000 * 0x1000 := by
    unfold heap64Base at *
    omega
  rw [touches_iff, clampedFirst, clampedCount, hround, hfirst]
  unfold heap64Base heap64End basePage windowPages at *
  omega

/-- A decommit takes the bits of its pages away. -/
theorem uncommit_bits (g : Machine) (ha : heap64Base ≤ addr) (hsize : 0 < size)
    (hend : addr + size + 0x1000 ≤ 2 ^ 64) (hq : q < windowPages) :
    (uncommit64 g addr size).bits q = (g.bits q && !touches addr size (basePage + q)) := by
  have hiff := clamped_touches ha hsize hend hq
  generalize touches addr size (basePage + q) = t at hiff
  unfold uncommit64 Machine.bits
  cases g.bitmap with
  | none => exact (Bool.false_and _).symm
  | some bm =>
    rw [Option.map_some, Option.getD_some, Option.getD_some]
    unfold mark
    split
    · rename_i hin
      rw [hiff.2 hin, Bool.not_true, Bool.and_false]
    · rename_i hout
      rw [eq_false_of_ne_true fun h => hout (hiff.1 h), Bool.not_false, Bool.and_true]

-- ---------------------------------------------------------------------------
-- The 32-bit heap
-- ---------------------------------------------------------------------------

/-- Whatever is freed, blocks of the 32-bit heap end below 4 GB. -/
structure Bounded (h : GuestHeap.State) : Prop where
  ptr : h.heapPtr < 2 ^ 32
  free : ∀ b ∈ h.freeBlocks, b.stop ≤ 2 ^ 32
  sizes : ∀ x ∈ h.allocSizes, x.1 + roundPage x.2 ≤ 2 ^ 32

theorem freeListTake_bounded {free : List Span} (h : ∀ b ∈ free, b.stop ≤ 2 ^ 32)
    (halloc : alloc ≤ 512 * 1024 * 1024) (ht : freeListTake free alloc = (a, free')) :
    (a ≠ 0 → a + alloc ≤ 2 ^ 32) ∧ ∀ b ∈ free', b.stop ≤ 2 ^ 32 := by
  have hround := le_roundGranule halloc
  obtain hnone | ⟨i, hi, hle, htake⟩ := freeListTake_cases free alloc
  · obtain ⟨rfl, rfl⟩ := Prod.mk.inj (hnone.symm.trans ht)
    exact ⟨fun hne => absurd rfl hne, h⟩
  · have hstop : free[i].start + free[i].len ≤ 2 ^ 32 := h _ (List.getElem_mem hi)
    obtain htake | htake := htake
    · obtain ⟨rfl, rfl⟩ := Prod.mk.inj (htake.symm.trans ht)
      refine ⟨fun _ => by omega, fun b hb => ?_⟩
      obtain hb | rfl := List.mem_or_eq_of_mem_set hb
      · exact h b hb
      · unfold Span.stop u32
        dsimp only
        omega
    · obtain ⟨rfl, rfl⟩ := Prod.mk.inj (htake.symm.trans ht)
      refine ⟨fun _ => by omega, fun b hb => h b ?_⟩
      exact (swapRemove_perm hi).mem_iff.1 (List.mem_cons_of_mem _ hb)

theorem track_bounded {sizes : List (Nat × Nat)} (h : ∀ x ∈ sizes, x.1 + roundPage x.2 ≤ 2 ^ 32)
    (ha : a + roundPage n ≤ 2 ^ 32) : ∀ x ∈ trackAlloc sizes a n, x.1 + roundPage x.2 ≤ 2 ^ 32 := by
  unfold trackAlloc
  split
  · intro x hx
    rcases List.mem_cons.1 hx with rfl | hx
    · exact ha
    · exact h x hx
  · exact h

theorem Bounded.alloc (h : Bounded s) (he : guestAlloc s request ok = (s', a)) :
    Bounded s' ∧ (a ≠ 0 → a + roundPage (if request = 0 then 1 else request) ≤ 2 ^ 32) := by
  unfold guestAlloc at he
  dsimp only at he
  generalize (if request = 0 then 1 else request) = size at he ⊢
  split at he
  · obtain ⟨rfl, rfl⟩ := Prod.mk.inj he
    exact ⟨h, fun hne => absurd rfl hne⟩
  rename_i hsize
  have hle := (le_roundPage (x := size) (by omega)).2
  have hq : skipThunks (hop s.heapPtr (roundPage size)) (roundPage size) < 2 ^ 32 := hop_lt h.ptr
  split at he
  · rename_i free ht
    have hfree := (freeListTake_bounded h.free hle ht).2
    generalize skipThunks (hop s.heapPtr (roundPage size)) (roundPage size) = q at hq he
    split at he
    · obtain ⟨rfl, rfl⟩ := Prod.mk.inj he
      exact ⟨⟨hq, hfree, h.sizes⟩, fun hne => absurd rfl hne⟩
    rename_i hfit
    split at he
    · obtain ⟨rfl, rfl⟩ := Prod.mk.inj he
      exact ⟨⟨hq, hfree, h.sizes⟩, fun hne => absurd rfl hne⟩
    obtain ⟨rfl, rfl⟩ := Prod.mk.inj he
    have hstop : q + roundPage size ≤ 2 ^ 32 := by
      unfold u32 at hfit
      omega
    refine ⟨⟨?_, hfree, track_bounded h.sizes hstop⟩, fun _ => hstop⟩
    show roundPage (u32 (q + roundPage size)) < 2 ^ 32
    generalize u32 (q + roundPage size) = x
    unfold roundPage u32
    omega
  · rename_i reuse free hne ht
    obtain ⟨hreuse, hfree⟩ := freeListTake_bounded h.free hle ht
    obtain ⟨rfl, rfl⟩ := Prod.mk.inj he
    exact ⟨⟨h.ptr, hfree, track_bounded h.sizes (hreuse hne)⟩, hreuse⟩

theorem allocSizeFor_mem {sizes : List (Nat × Nat)} (h : allocSizeFor sizes addr ≠ 0) :
    (addr, allocSizeFor sizes addr) ∈ sizes := by
  unfold allocSizeFor at *
  split at h
  · rename_i x hx
    have haddr := List.find?_some hx
    rw [← eq_of_beq haddr]
    exact List.mem_of_find?_eq_some hx
  · exact absurd rfl h

theorem Bounded.free_block (h : Bounded s) (addr : Nat) :
    ∀ b ∈ guestFree s addr, b.stop ≤ 2 ^ 32 := by
  obtain hsame | ⟨hne, hf⟩ := guestFree_cases s addr
  · rw [hsame]
    exact h.free
  · rw [hf]
    intro b hb
    rcases List.mem_append.1 hb with hb | hb
    · exact h.free b hb
    · obtain rfl := List.mem_singleton.1 hb
      exact h.sizes _ (allocSizeFor_mem hne)

/-- What `VirtualAlloc` gives of the 32-bit heap is cleared. -/
theorem Bounded.allocLow {g : Machine} {e : Host} (h : Bounded g.regions.heap)
    (hhost : e.fast = true ∨ e.ok = true) (he : allocLow g e size = (g', a)) :
    ∃ heap, g' = { g with
        regions := { g.regions with heap }
        mem := if a = 0 then g.mem else zero g.mem ⟨a, roundPage (if u32 size = 0 then 1 else u32 size)⟩ } ∧
      Regions.allocLow g.regions.heap size e.ok = (heap, a) ∧ Bounded heap ∧
      (a ≠ 0 → a + roundPage (if u32 size = 0 then 1 else u32 size) ≤ 2 ^ 32) := by
  unfold Commits.allocLow at he
  dsimp only at he
  generalize hr : Regions.allocLow g.regions.heap size e.ok = r at he
  obtain ⟨heap, p⟩ := r
  obtain ⟨rfl, rfl⟩ := Prod.mk.inj he
  have hup : Bounded { g.regions.heap with heapPtr := alignPtr g.regions.heap.heapPtr 0x10000 } :=
    ⟨(le_alignPtr h.ptr).2, h.free, h.sizes⟩
  have hbound := hup.alloc hr
  refine ⟨heap, ?_, rfl, hbound⟩
  have hcond : (p = 0 ∨ (freeListTake g.regions.heap.freeBlocks
      (roundPage (if u32 size = 0 then 1 else u32 size))).1 ≠ 0 ∧ (!e.fast) = true ∧ (!e.ok) = true) ↔
      p = 0 := by
    refine ⟨?_, .inl⟩
    rintro (hp | ⟨-, hfast, hok⟩)
    · exact hp
    · obtain h | h := hhost
      · rw [h] at hfast
        cases hfast
      · rw [h] at hok
        cases hok
  simp only [hcond]

-- ---------------------------------------------------------------------------
-- A new reservation in region 3
-- ---------------------------------------------------------------------------

theorem takeExact_len {tracked : List Span} (h : (takeExact tracked want n freed).1 = some b) :
    b.len = want := by
  induction n generalizing freed with
  | zero => cases h
  | succ n ih =>
    rw [takeExact] at h
    split at h
    · cases h
    · split at h
      · rename_i hlen
        split at h
        · exact ih h
        · obtain rfl := Option.some.inj h
          exact hlen
      · exact ih h

/-- Without `WG_WHOLEBLOCK`, no more is there to commit than was asked for. -/
theorem reserve_commit (hwhole : c.wholeBlock = false) (hsize : 0 < size) (hp : pages size < 2 ^ 64)
    (he : reserve64 c r size = (r', a, commit)) : commit = size ∨ commit = pages size := by
  have hwant : roundPage64 (roundPage64 size) = pages size := by
    rw [roundPage64_eq hp, roundPage64_eq (by rw [pages_pages]; exact hp), pages_pages]
  unfold reserve64 at he
  dsimp only at he
  rw [if_neg (Nat.ne_of_gt hsize)] at he
  split at he
  · rename_i b freed hb
    split at he
    · have hlen : b.len = commit := congrArg (fun x => x.2.2) he
      unfold freeTake64 at hb
      dsimp only at hb
      rw [hwhole] at hb
      split at hb
      · rename_i b' freed' htake
        have hb' : some b' = some b := congrArg Prod.fst hb
        obtain rfl := Option.some.inj hb'
        have hexact := takeExact_len (congrArg Prod.fst htake)
        exact .inr (hlen.symm.trans (hexact.trans hwant))
      · cases hb
    · exact .inl (congrArg (fun x => x.2.2) he).symm
  · exact .inl (congrArg (fun x => x.2.2) he).symm

theorem track_length (hroom : tracked.length < maxAlloc64) (b : Span) :
    (trackAlloc64 tracked b).length = tracked.length + 1 := by
  rw [trackAlloc64, if_pos hroom, List.length_append, List.length_singleton]

theorem bump_tracked (hroom : tracked.length < maxAlloc64)
    (he : bump64 ⟨ptr, tracked, freed⟩ size = (r', a)) :
    tracked.length ≤ r'.tracked.length ∧ (a ≠ 0 → r'.tracked.length = tracked.length + 1) := by
  unfold bump64 at he
  dsimp only at he
  split at he
  · obtain ⟨rfl, rfl⟩ := Prod.mk.inj he
    exact ⟨Nat.le_refl _, fun hne => absurd rfl hne⟩
  · obtain ⟨rfl, -⟩ := Prod.mk.inj he
    have hlen := track_length hroom ⟨roundGranule64 ptr, size⟩
    exact ⟨Nat.le_trans (Nat.le_succ _) (Nat.le_of_eq hlen.symm), fun _ => hlen⟩

/-- A reservation has its place in the table, if there is one. -/
theorem reserve_tracked (hroom : r.tracked.length < maxAlloc64)
    (he : reserve64 c r size = (r', a, commit)) :
    r.tracked.length ≤ r'.tracked.length ∧ (a ≠ 0 → r'.tracked.length = r.tracked.length + 1) := by
  unfold reserve64 at he
  dsimp only at he
  split at he
  · rename_i b freed hb
    split at he
    · obtain ⟨rfl, -⟩ := Prod.mk.inj he
      have hlen := track_length hroom b
      exact ⟨Nat.le_trans (Nat.le_succ _) (Nat.le_of_eq hlen.symm), fun _ => hlen⟩
    · generalize hr : bump64 _ _ = x at he
      obtain ⟨rfl, hrest⟩ := Prod.mk.inj he
      obtain ⟨rfl, -⟩ := Prod.mk.inj hrest
      obtain ⟨next, addr⟩ := x
      exact bump_tracked hroom hr
  · rename_i freed hb
    generalize hr : bump64 _ _ = x at he
    obtain ⟨rfl, hrest⟩ := Prod.mk.inj he
    obtain ⟨rfl, -⟩ := Prod.mk.inj hrest
    obtain ⟨next, addr⟩ := x
    exact bump_tracked hroom hr

theorem touches_pages (ha : 0x1000 ∣ a) (size p : Nat) : touches a (pages size) p = touches a size p := by
  rw [Bool.eq_iff_iff, touches_iff, touches_iff]
  unfold pages
  omega

-- ---------------------------------------------------------------------------
-- One call
-- ---------------------------------------------------------------------------

/-- The blocks of region 3 are those held, all of them in the table, and the bits are right. -/
structure Ok (g : Machine) (v : View) : Prop where
  blocks : Regions.Inv g.regions.region3 v.held
  full : v.held.length ≤ g.regions.region3.tracked.length
  agree : Agree g v
  low : Bounded g.regions.heap

theorem init_ok (mem : Nat → Byte) : Ok (.init mem) .init where
  blocks := ⟨.nil, fun _ h => absurd h List.not_mem_nil, .refl [], Nat.le_refl _,
    show heap64Base ≤ heap64End by decide⟩
  full := Nat.le_refl 0
  agree _ _ := rfl
  low := ⟨show heapBase < 2 ^ 32 by decide, fun _ h => absurd h List.not_mem_nil, fun _ h => absurd h List.not_mem_nil⟩

theorem bits_some (regions : Regions.State) (bm : Nat → Bool) (mem : Nat → Byte) :
    (⟨regions, some bm, mem⟩ : Machine).bits = bm := rfl

theorem within_some (addr size p : Nat) : within (some (addr, size)) p = touches addr size p := rfl

theorem alloc_decommits (v : View) : v.decommits (.alloc addr size type e) = none := rfl

theorem within_none (p : Nat) : within none p = false := rfl

/-- The pages that are committed after a call. -/
theorem step_committed (v : View) (a : Action) (r p : Nat) : (v.step (a, r)).committed p =
    ((v.committed p || within (commits a r) p) && !within (v.decommits a) p) := rfl

/-- A call that commits, decommits and reserves nothing. -/
theorem Ok.still (h : Ok g v) (hc : commits a r = none) (hd : v.decommits a = none)
    (hr : v.reserves a r = v.held) : Ok g (v.step (a, r)) := by
  have hheld : (v.step (a, r)).held = v.held := hr
  refine ⟨hheld ▸ h.blocks, hheld ▸ h.full, fun q hq => ?_, h.low⟩
  rw [step_committed, hc, hd, h.agree q hq]
  cases v.committed (basePage + q) <;> rfl

/-- A range that is committed in region 3. -/
theorem commit_range (h : Agree g v) {e : Host} (hhost : e.fails = [] ∧ (g.bitmap.isSome ∨ e.bitmapOk))
    (ha : heap64Base ≤ addr) (hsize : 0 < size) (hend : addr + size ≤ heap64End) :
    ∃ bm mem, map64 g e addr size = ⟨g.regions, some bm, mem⟩ ∧
      (∀ q < windowPages, bm q = (v.committed (basePage + q) || touches addr size (basePage + q))) ∧
      ∀ x, mem x = if touches addr size (x / 0x1000) ∧ !v.committed (x / 0x1000) then 0 else g.mem x := by
  rw [map64_spec hhost.1 hhost.2 ha hend]
  refine ⟨_, _, rfl, fun q hq => ?_, fresh_touches h ha hsize hend⟩
  rw [mark_touches ha hsize hend, h q hq]

/-- A call at an address that is given. -/
theorem Ok.allocAt (h : Ok g v) (haddr : addr ≠ 0) (hm : Meets c g (.alloc addr size type e))
    (he : virtualAlloc c g e addr size type = (g', r)) :
    g'.mem = v.after g.mem (.alloc addr size type e) r ∧ Ok g' (v.step (.alloc addr size type e, r)) := by
  obtain ⟨⟨hfails, hbitmap, -⟩, hend⟩ := hm
  rw [if_pos haddr] at hend
  have hheld : (v.step (.alloc addr size type e, r)).held = v.held := if_neg fun hz => haddr hz.1
  have hafter : ∀ x, v.after g.mem (.alloc addr size type e) r x =
      if within (commits (.alloc addr size type e) r) (x / 0x1000) ∧ !v.committed (x / 0x1000) then 0
      else g.mem x := by
    intro x
    rw [View.after]
    dsimp only
    rw [if_neg (c := addr = 0 ∧ _) fun hz => haddr hz.1]
  unfold virtualAlloc at he
  rw [if_pos haddr] at he
  by_cases hcommit : size ≠ 0 ∧ heap64Base ≤ addr ∧ type &&& memCommit ≠ 0
  · obtain ⟨hsize, hcommit⟩ := hcommit
    rw [if_neg hsize, if_pos hcommit] at he
    obtain ⟨rfl, rfl⟩ := Prod.mk.inj he
    have hrange : commits (.alloc addr size type e) addr = some (addr, size) := by
      simp only [commits, if_neg haddr]
      exact if_pos ⟨haddr, hcommit.2, hcommit.1⟩
    obtain ⟨bm, mem, hmap, hbits, hmem⟩ := commit_range h.agree ⟨hfails, hbitmap⟩ hcommit.1
      (Nat.pos_of_ne_zero hsize) (hend hcommit.1)
    rw [hmap]
    refine ⟨funext fun x => ?_, hheld ▸ h.blocks, hheld ▸ h.full, fun q hq => ?_, h.low⟩
    · rw [hafter, hrange, within_some]
      exact hmem x
    · rw [bits_some, hbits q hq, step_committed, hrange, within_some, alloc_decommits, within_none,
        Bool.not_false, Bool.and_true]
  · have hsame : g' = g := by
      split at he
      · exact (congrArg Prod.fst he).symm
      · rename_i hsize
        rw [if_neg fun hin => hcommit ⟨hsize, hin⟩] at he
        exact (congrArg Prod.fst he).symm
    have hrange : commits (.alloc addr size type e) r = none := by
      simp only [commits, if_neg haddr]
      refine if_neg fun hin => hcommit ⟨?_, hin.2.2, hin.2.1⟩
      rintro hsize
      rw [if_pos hsize] at he
      exact hin.1 (congrArg Prod.snd he).symm
    subst hsame
    refine ⟨funext fun x => ?_, h.still hrange rfl hheld⟩
    rw [hafter, hrange]
    exact (if_neg fun hin => absurd hin.1 Bool.false_ne_true).symm

/-- A reservation that region 3 does not serve. -/
theorem Ok.allocLow (h : Ok g v) (hsize : size ≠ 0) (hzeros : e.fast = true ∨ e.ok = true)
    (hnarrow : size < 2 ^ 32 ∨ (Regions.allocLow g.regions.heap size e.ok).2 = 0)
    (he : allocLow g e size = (g', r)) :
    g'.mem = v.after g.mem (.alloc 0 size type e) r ∧ Ok g' (v.step (.alloc 0 size type e, r)) := by
  obtain ⟨heap, rfl, hheap, hbound, hstop⟩ := h.low.allocLow hzeros he
  have hsmall : r ≠ 0 → u32 size ≤ 512 * 1024 * 1024 := by
    intro hr
    obtain ⟨hzero, -⟩ | ⟨hle, -⟩ := guestAlloc_live hheap
    · exact absurd hzero hr
    · exact hle
  have hbelow : ¬ heap64Base ≤ r := by
    unfold heap64Base
    by_cases hr : r = 0
    · omega
    · have hle := hstop hr
      have hn := hsmall hr
      have hround := (le_roundPage (x := if u32 size = 0 then 1 else u32 size) (by split <;> omega)).1
      have hpos : 0 < if u32 size = 0 then 1 else u32 size := by
        split <;> omega
      omega
  have hrange : commits (.alloc 0 size type e) r = none := if_neg fun hin => hbelow hin.2.2
  have hheld : (v.step (.alloc 0 size type e, r)).held = v.held := if_neg fun hin => hbelow hin.2
  refine ⟨funext fun x => ?_, hheld ▸ h.blocks, hheld ▸ h.full, fun q hq => ?_, hbound⟩
  · rw [View.after, hrange]
    dsimp only
    rw [if_neg (c := within none (x / 0x1000) = true ∧ _) fun hin => absurd hin.1 Bool.false_ne_true]
    by_cases hr : r = 0
    · rw [if_pos hr, if_neg fun hin => hin.2.1 hr]
    · have hfull : u32 size = size := by
        obtain hlt | hzero := hnarrow
        · exact u32_eq hlt
        · rw [hheap] at hzero
          exact absurd hzero hr
      rw [if_neg hr, hfull, roundPage_pages hsize (hfull ▸ hsmall hr)]
      by_cases hin : Extent.Has ⟨r, pages size⟩ x
      · rw [zero_has _ hin, if_pos ⟨rfl, hr, Nat.not_le.1 hbelow, hin.1, hin.2⟩]
      · rw [zero_not_has _ hin, if_neg fun hin' => hin ⟨hin'.2.2.2.1, hin'.2.2.2.2⟩]
  · rw [step_committed, hrange, ← h.agree q hq]
    show g.bits q = _
    cases g.bits q <;> rfl

/-- A new reservation. -/
theorem Ok.allocNew (h : Ok g v) (hwhole : c.wholeBlock = false)
    (hm : Meets c g (.alloc 0 size type e)) (he : virtualAlloc c g e 0 size type = (g', r)) :
    g'.mem = v.after g.mem (.alloc 0 size type e) r ∧ Ok g' (v.step (.alloc 0 size type e, r)) := by
  obtain ⟨⟨hfails, hbitmap, hzeros⟩, hm⟩ := hm
  rw [if_neg (not_not_intro rfl)] at hm
  obtain ⟨hfit, hroom⟩ := hm
  unfold virtualAlloc at he
  split at he
  · obtain ⟨rfl, rfl⟩ := Prod.mk.inj he
    have hrange : commits (.alloc 0 size type e) 0 = none := by
      simp [commits]
    refine ⟨funext fun x => ?_, h.still hrange rfl rfl⟩
    rw [View.after, hrange]
    dsimp only
    rw [if_neg fun hin => absurd hin.1 Bool.false_ne_true, if_neg fun hin => hin.2.1 rfl]
  rename_i hsize
  obtain ⟨hwrap, hmet⟩ := hfit.resolve_left hsize
  rw [if_neg (not_not_intro rfl)] at he
  split at he
  · rename_i hcut
    generalize hr : reserve64 c g.regions.region3 size = x at he hmet
    obtain ⟨region3, a, commit⟩ := x
    dsimp only at he
    have hpos := Nat.pos_of_ne_zero hsize
    have hres := h.blocks.reserve c hpos (hwrap hcut) hr
    have hp64 : pages size < 2 ^ 64 := Nat.lt_of_le_of_lt (Nat.le_add_left ..) (hwrap hcut)
    have hcommit := reserve_commit hwhole hpos hp64 hr
    have htracked := reserve_tracked (hroom hcut) hr
    split at he
    · rename_i ha
      obtain ⟨hzero, -⟩ | ⟨-, hblocks⟩ := hres
      · exact absurd hzero ha
      have hpages : pages commit = pages size := by
        obtain rfl | rfl := hcommit
        · rfl
        · exact pages_pages size
      rw [hpages] at hblocks
      have hblock := hblocks.blocks _ List.mem_cons_self
      have habove : heap64Base ≤ a := hblock.above
      obtain rfl : a = r := congrArg Prod.snd he
      have hheld : (v.step (.alloc 0 size type e, a)).held = ⟨a, pages size⟩ :: v.held :=
        if_pos ⟨rfl, habove⟩
      have hfull : (⟨a, pages size⟩ :: v.held).length ≤ region3.tracked.length := by
        rw [htracked.2 ha, List.length_cons]
        exact Nat.succ_le_succ h.full
      have hafter : ∀ x, v.after g.mem (.alloc 0 size type e) a x =
          if within (commits (.alloc 0 size type e) a) (x / 0x1000) ∧ !v.committed (x / 0x1000) then 0
          else g.mem x := by
        intro x
        rw [View.after]
        dsimp only
        rw [if_neg (c := 0 = 0 ∧ _) fun hin => absurd habove (Nat.not_le.2 hin.2.2.1)]
      split at he
      · rename_i hflag
        have hrange : commits (.alloc 0 size type e) a = some (a, size) := if_pos ⟨ha, hflag, habove⟩
        have hend : a + commit ≤ heap64End := by
          have hbelow : a + pages size ≤ region3.ptr := hblock.below
          have hptr := hblocks.ptr.2
          have hle := (le_pages commit).1
          omega
        have hcpos : 0 < commit := by
          obtain rfl | rfl := hcommit
          · exact hpos
          · exact Nat.lt_of_lt_of_le hpos (le_pages size).1
        have hsame : ∀ p, touches a commit p = touches a size p := by
          intro p
          obtain rfl | rfl := hcommit
          · rfl
          · exact touches_pages (Nat.dvd_trans (by decide) hblock.aligned) size p
        have hagree : Agree { g with regions := { g.regions with region3 } } v := h.agree
        obtain ⟨bm, mem, hmap, hbits, hmem⟩ := commit_range hagree ⟨hfails, hbitmap⟩ habove hcpos hend
        rw [hmap] at he
        obtain rfl := congrArg Prod.fst he
        refine ⟨funext fun x => ?_, hheld ▸ hblocks, hheld ▸ hfull, fun q hq => ?_, h.low⟩
        · rw [hafter, hrange, within_some, ← hsame]
          exact hmem x
        · rw [bits_some, hbits q hq, step_committed, hrange, within_some, hsame, alloc_decommits,
            within_none, Bool.not_false, Bool.and_true]
      · rename_i hflag
        have hrange : commits (.alloc 0 size type e) a = none := if_neg fun hin => hflag hin.2.1
        obtain rfl := congrArg Prod.fst he
        refine ⟨funext fun x => ?_, hheld ▸ hblocks, hheld ▸ hfull, fun q hq => ?_, h.low⟩
        · rw [hafter, hrange]
          exact (if_neg fun hin => absurd hin.1 Bool.false_ne_true).symm
        · rw [step_committed, hrange, ← h.agree q hq]
          show g.bits q = _
          cases g.bits q <;> rfl
    · rename_i ha
      have hagree : Agree { g with regions := { g.regions with region3 } } v := h.agree
      have hnext : Ok { g with regions := { g.regions with region3 } } v := by
        obtain ⟨-, hblocks⟩ | ⟨-, hblocks⟩ := hres
        · exact ⟨hblocks, Nat.le_trans h.full htracked.1, hagree, h.low⟩
        · have habove : heap64Base ≤ a := (hblocks.blocks _ List.mem_cons_self).above
          rw [Decidable.not_not.1 ha] at habove
          exact absurd habove (by decide)
      refine hnext.allocLow hsize hzeros ?_ he
      obtain hlt | ⟨-, hne⟩ | hzero := hmet
      · exact .inl hlt
      · exact absurd hne ha
      · exact .inr hzero
  · rename_i hcut
    refine h.allocLow hsize hzeros ?_ he
    obtain hlt | ⟨hcut', -⟩ | hzero := hmet
    · exact .inl hlt
    · exact absurd hcut' hcut
    · exact .inr hzero

theorem Ok.known (h : Ok g v) : (g.regions.region3.tracked.map whole).Perm v.held :=
  h.blocks.tracked.perm_of_length_le (by rw [List.length_map]; exact h.full)

/-- What is looked for in the table is looked for among the reservations. -/
theorem Ok.find_none (h : Ok g v) (hf : find64 g.regions.region3.tracked addr = none) :
    v.held.find? (fun b => b.start == addr) = none := by
  refine List.find?_eq_none.2 fun b hb hstart => ?_
  obtain ⟨t, ht, rfl⟩ := List.mem_map.1 (h.known.mem_iff.2 hb)
  exact find64_none hf ht (eq_of_beq hstart)

theorem Ok.find_some (h : Ok g v) (hf : find64 g.regions.region3.tracked addr = some i) :
    ∃ t, g.regions.region3.tracked.getD i ⟨0, 0⟩ = t ∧ whole t ∈ v.held ∧
      v.held.find? (fun b => b.start == addr) = some (whole t) := by
  obtain ⟨hi, hstart⟩ := find64_some hf
  have hmem : whole g.regions.region3.tracked[i] ∈ v.held :=
    h.known.mem_iff.1 (List.mem_map_of_mem (List.getElem_mem hi))
  refine ⟨_, List.getD_eq_getElem _ _ hi, hmem, ?_⟩
  cases hfind : v.held.find? fun b => b.start == addr with
  | none =>
    have hno := List.find?_eq_none.1 hfind _ hmem
    exact absurd (beq_iff_eq.2 hstart) hno
  | some b =>
    have hb := List.mem_of_find?_eq_some hfind
    have hroom := fun c hc => (h.blocks.blocks c (List.mem_append_left _ hc)).room
    have hsame : b.start = (whole g.regions.region3.tracked[i]).start :=
      (eq_of_beq (List.find?_some (p := fun b : Span => b.start == addr) hfind)).trans hstart.symm
    rw [h.blocks.apart.left.eq_of_start hb hmem hsame (hroom _ hb) (hroom _ hmem)]

theorem free64_tracked (r : Region3) (h : heap64Base ≤ addr) : (free64 r addr).tracked =
    match find64 r.tracked addr with
    | none => r.tracked
    | some i => swapRemove r.tracked i := by
  unfold free64
  rw [if_neg (Nat.not_lt.2 h)]
  cases find64 r.tracked addr with
  | none => rfl
  | some i =>
    dsimp only
    split
    · rfl
    · split
      · rfl
      · split <;> rfl

/-- The table and the reservations stay the same. -/
theorem Ok.free_full (h : Ok g v) (ha : heap64Base ≤ addr) :
    (v.held.eraseP fun b => b.start == addr).length ≤ (free64 g.regions.region3 addr).tracked.length := by
  rw [free64_tracked _ ha]
  cases hf : find64 g.regions.region3.tracked addr with
  | none => exact Nat.le_trans List.length_eraseP_le h.full
  | some i =>
    obtain ⟨t, -, hmem, hfind⟩ := h.find_some hf
    obtain ⟨hi, -⟩ := find64_some hf
    have herase := List.length_eraseP_of_mem hmem (List.find?_some hfind)
    have hlen := (swapRemove_perm hi).length_eq
    rw [List.length_cons] at hlen
    have hfull := h.full
    dsimp only
    omega

theorem uncommit_regions (g : Machine) (regions : Regions.State) (addr size : Nat) :
    uncommit64 { g with regions } addr size = { uncommit64 g addr size with regions } := rfl

/-- A release of a block, or a decommit of a range. -/
theorem Ok.free (h : Ok g v) (hm : Meets c g (.free addr size type)) :
    (virtualFree g addr size type).mem = g.mem ∧
      Ok (virtualFree g addr size type) (v.step (.free addr size type, r)) := by
  -- The range that is decommitted, in bits.
  have hdrop : ∀ a n, heap64Base ≤ a → 0 < n → a + n + 0x1000 ≤ 2 ^ 64 →
      v.decommits (.free addr size type) = some (a, n) → ∀ q < windowPages,
      (uncommit64 g a n).bits q =
        (v.step (.free addr size type, r)).committed (basePage + q) := by
    intro a n ha hn hend hrange q hq
    rw [uncommit_bits g ha hn hend hq, h.agree q hq, step_committed, hrange, within_some]
    have hno : within (commits (.free addr size type) r) (basePage + q) = false := within_none _
    rw [hno, Bool.or_false]
  have hheld : (v.step (.free addr size type, r)).held =
      if type &&& memRelease ≠ 0 then v.held.eraseP fun b => b.start == addr else v.held := rfl
  have hidle : v.decommits (.free addr size type) = none → ∀ q < windowPages,
      g.bits q = (v.step (.free addr size type, r)).committed (basePage + q) := by
    intro hrange q hq
    have hno : within (commits (.free addr size type) r) (basePage + q) = false := within_none _
    rw [step_committed, hrange, hno, within_none, h.agree q hq, Bool.or_false, Bool.not_false, Bool.and_true]
  unfold virtualFree
  by_cases hrel : type &&& memRelease ≠ 0
  · rw [if_pos hrel] at hheld ⊢
    have hrange : v.decommits (.free addr size type) =
        (v.held.find? fun b => b.start == addr).map fun b => (b.start, b.len) := if_pos hrel
    by_cases hhigh : heap64Base ≤ addr
    · have hregions : Regions.virtualFree g.regions addr =
          { g.regions with region3 := free64 g.regions.region3 addr } := if_pos hhigh
      have hblocks := h.blocks.free addr
      have hfull := h.free_full hhigh
      dsimp only
      rw [if_pos hhigh, hregions]
      cases hf : find64 g.regions.region3.tracked addr with
      | none =>
        rw [h.find_none hf] at hrange
        exact ⟨rfl, hheld ▸ hblocks, hheld ▸ hfull, hidle hrange, h.low⟩
      | some i =>
        obtain ⟨t, ht, hmem, hfind⟩ := h.find_some hf
        have hblock := h.blocks.blocks _ (List.mem_append_left _ hmem)
        have hfound := List.find?_some (p := fun b : Span => b.start == addr) hfind
        have hstart : t.start = addr := eq_of_beq hfound
        have hbelow : t.start + pages t.len ≤ g.regions.region3.ptr := hblock.below
        have hend : g.regions.region3.ptr ≤ 0x2800000000 := h.blocks.ptr.2
        have hroom : 0 < pages t.len := hblock.room
        have hlen : t.len ≠ 0 := by
          rintro hzero
          rw [hzero] at hroom
          exact absurd hroom (by decide)
        rw [hfind] at hrange
        have hpages : roundPage64 t.len = pages t.len := roundPage64_eq (by omega)
        dsimp only
        rw [ht, if_neg hlen, hpages, uncommit_regions]
        refine ⟨rfl, hheld ▸ hblocks, hheld ▸ hfull, fun q hq => ?_, h.low⟩
        refine hdrop addr (pages t.len) hhigh hroom (by omega) ?_ q hq
        rw [hrange, ← hstart]
        rfl
    · have hnone : v.held.find? (fun b => b.start == addr) = none := by
        refine List.find?_eq_none.2 fun b hb hstart => hhigh ?_
        rw [← eq_of_beq hstart]
        exact (h.blocks.blocks b (List.mem_append_left _ hb)).above
      have hkept : (v.held.eraseP fun b => b.start == addr) = v.held :=
        List.eraseP_of_forall_not (List.find?_eq_none.1 hnone)
      rw [hkept] at hheld
      rw [hnone] at hrange
      dsimp only
      rw [if_neg hhigh, Regions.virtualFree, if_neg hhigh]
      exact ⟨rfl, hheld ▸ h.blocks, hheld ▸ h.full, hidle hrange,
        ⟨h.low.ptr, h.low.free_block addr, h.low.sizes⟩⟩
  · rw [if_neg hrel] at hheld ⊢
    by_cases hdec : type &&& memDecommit ≠ 0 ∧ heap64Base ≤ addr
    · have hrange : v.decommits (.free addr size type) = some (addr, if size = 0 then 0x1000 else size) :=
        (if_neg hrel).trans (if_pos hdec)
      rw [if_pos hdec]
      refine ⟨rfl, hheld ▸ h.blocks, hheld ▸ h.full, ?_, h.low⟩
      exact hdrop _ _ hdec.2 (by split <;> omega) hm hrange
    · have hrange : v.decommits (.free addr size type) = none := (if_neg hrel).trans (if_neg hdec)
      rw [if_neg hdec]
      exact ⟨rfl, hheld ▸ h.blocks, hheld ▸ h.full, hidle hrange, h.low⟩

/-- Each call leaves in memory what the view says. -/
theorem Ok.step (h : Ok g v) (hwhole : c.wholeBlock = false) (hm : Meets c g a)
    (hs : step c g a = some (g', r)) : g'.mem = v.after g.mem a r ∧ Ok g' (v.step (a, r)) := by
  unfold Commits.step at hs
  split at hs
  case isFalse => cases hs
  cases a with
  | alloc addr size type e =>
    have he := Option.some.inj hs
    by_cases haddr : addr = 0
    · subst haddr
      exact h.allocNew hwhole hm he
    · exact h.allocAt haddr hm he
  | free addr size type =>
    obtain ⟨rfl, rfl⟩ := Prod.mk.inj (Option.some.inj hs)
    exact h.free hm
  | write addr b =>
    obtain ⟨rfl, rfl⟩ := Prod.mk.inj (Option.some.inj hs)
    have hsame : Ok { g with mem := Function.update g.mem addr b } v := ⟨h.blocks, h.full, h.agree, h.low⟩
    exact ⟨rfl, hsame.still rfl rfl rfl⟩

-- ---------------------------------------------------------------------------
-- The law
-- ---------------------------------------------------------------------------

theorem view_append (tr : List (Action × Nat)) (x : Action × Nat) :
    view (tr ++ [x]) = (view tr).step x := List.foldl_append

/-- Wherever a run has come to, a call leaves in memory what the pages that are committed say. -/
theorem commits_law (cutoff : Nat) (mem : Nat → Byte)
    (h : Run (step ⟨cutoff, false⟩) (Meets ⟨cutoff, false⟩) (.init mem) tr g)
    (hm : Meets ⟨cutoff, false⟩ g a) (hs : step ⟨cutoff, false⟩ g a = some (g', r)) :
    g'.mem = (view tr).after g.mem a r := by
  have hok : Ok g (view tr) := by
    refine h.invariant (P := fun tr g => Ok g (view tr)) (init_ok mem) fun hok hm hs => ?_
    rw [view_append]
    exact (hok.step rfl hm hs).2
  exact (hok.step rfl hm hs).1

def host : Host := ⟨true, true, true, []⟩

/-- Two pages of region 3 are written, one of them is decommitted, and both are committed. -/
theorem commits_law_again : ∃ tr g g', Run (step usual) (Meets usual) (.init fun _ => 1) tr g ∧
    step usual g (.alloc 0x100000000 0x2000 memCommit host) = some (g', 0x100000000) ∧
    g'.mem = (view tr).after g.mem (.alloc 0x100000000 0x2000 memCommit host) 0x100000000 ∧
    g'.mem 0x100000000 = 7 ∧ g'.mem 0x100001000 = 0 := by
  have hexec : (exec (step usual) (Meets usual) (.init fun _ => 1) [.alloc 0 0x100000 0x2000 host,
      .alloc 0x100000000 0x2000 memCommit host, .write 0x100000000 7, .write 0x100001000 8,
      .free 0x100001000 0x1000 memDecommit]).any fun r =>
        (step usual r.2 (.alloc 0x100000000 0x2000 memCommit host)).any fun x =>
          decide (Meets usual r.2 (.alloc 0x100000000 0x2000 memCommit host) ∧ x.2 = 0x100000000 ∧
            x.1.mem 0x100000000 = 7 ∧ x.1.mem 0x100001000 = 0) := by decide +kernel
  obtain ⟨tr, g, hr, hp⟩ := Run.of_exec_any hexec
  obtain ⟨⟨g', r⟩, hs, hx⟩ := (Option.any_eq_true _ _).1 hp
  obtain ⟨hm, hr', hbytes⟩ := of_decide_eq_true hx
  obtain rfl : r = 0x100000000 := hr'
  exact ⟨tr, g, g', hr, hs, commits_law (1024 * 1024) (fun _ => 1) hr hm hs, hbytes⟩

/-- A page of the 32-bit heap keeps its byte when it is decommitted and committed again, a
decommit of size 0 leaves the second page of a reservation, and a range past the end of region 3
is cleared though its page is committed. -/
theorem commits_lost :
    ((exec (step usual) anyStep (.init fun _ => 1) [.alloc 0 0x10000 0x3000 host, .write 0x20000000 7,
      .free 0x20000000 0x1000 memDecommit, .alloc 0x20000000 0x1000 memCommit host]).map fun r =>
        r.2.mem 0x20000000) = some 7 ∧
    ((exec (step usual) anyStep (.init fun _ => 1) [.alloc 0 0x100000 0x2000 host,
      .alloc 0x100000000 0x2000 memCommit host, .write 0x100001000 7, .free 0x100000000 0 memDecommit,
      .alloc 0x100000000 0x2000 memCommit host]).map fun r => r.2.mem 0x100001000) = some 7 ∧
    ((exec (step usual) anyStep (.init fun _ => 1) [.alloc 0x27FFFFF000 0x1000 memCommit host,
      .write 0x27FFFFF000 7, .alloc 0x27FFFFF000 0x2000 memCommit host]).map fun r =>
        r.2.mem 0x27FFFFF000) = some 0 :=
  ⟨by decide +kernel, by decide +kernel, by decide +kernel⟩

end WineGlass.Commits
