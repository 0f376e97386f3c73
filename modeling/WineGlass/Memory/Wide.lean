import WineGlass.Memory.Space

/-!
# Wide accesses against bytewise ones

A wide accessor looks its first byte up and copies from there, so it does what
the bytewise one does exactly when the first byte is unmapped or every byte is
found in the region of the first. `wide_law` is that equivalence, with a copy
that leaves the buffer on the failing side.
-/

namespace WineGlass.Memory

open Word Spans

/-- What `wg_memory_read` makes of `n` bytes: their word, 0 when it fails. -/
def bytewiseRead (n : Nat) (s : Space) (addr : Addr) : Nat :=
  match read s addr n with
  | none => 0
  | some bs => word (fun i => bs.getD i 0) n

/-- A wide accessor stays in the buffers and does what the bytewise one does. -/
structure Agrees (rd : Space → Addr → Option Nat) (wr : Space → Addr → Nat → Option Space)
    (n : Nat) (s : Space) (addr : Addr) : Prop where
  read : rd s addr = some (bytewiseRead n s addr)
  write : ∀ v, wr s addr v = some (write s addr (bytesOf n v)).2

/-- All `n` bytes are found in the region of the first. -/
def Whole (n : Nat) (s : Space) (addr : Addr) : Prop :=
  ∀ i < n, findRegion s (addr + BitVec.ofNat 64 i) = findRegion s addr

theorem add_succ (addr : Addr) (i : Nat) :
    addr + BitVec.ofNat 64 (i + 1) = addr + 1 + BitVec.ofNat 64 i := by
  rw [BitVec.ofNat_add, BitVec.add_comm (BitVec.ofNat 64 i), BitVec.add_assoc]
  rfl

/-- The bytes of a whole access follow one another in the buffer. -/
theorem Whole.resolve (h : Whole n s addr) (hp : resolve s addr = some p) (hk : k < n) :
    resolve s (addr + BitVec.ofNat 64 k) = some ⟨p.region, p.offset + k⟩ := by
  obtain ⟨hf, r, hr, hsum, hlt⟩ := resolve_some.1 hp
  induction k with
  | zero => simpa using hp
  | succ k ih =>
    obtain ⟨-, r', hr', hsum', hlt'⟩ := resolve_some.1 (ih (Nat.lt_of_succ_lt hk))
    obtain rfl := Option.some.inj (hr.symm.trans hr')
    have hf' := (h (k + 1) hk).trans hf
    obtain ⟨r'', hr'', hc⟩ := findRegion_some hf'
    obtain rfl := Option.some.inj (hr.symm.trans hr'')
    obtain ⟨hle, hlt, hw⟩ := covers_iff.1 hc
    -- The previous byte is below the region's end, so this one does not wrap.
    have hnext : (addr + BitVec.ofNat 64 (k + 1)).toNat =
        (addr + BitVec.ofNat 64 k).toNat + 1 := by
      rw [BitVec.ofNat_add, ← BitVec.add_assoc, BitVec.toNat_add]
      exact Nat.mod_eq_of_lt (by simp only [BitVec.toNat_ofNat] at *; omega)
    refine resolve_some.2 ⟨hf', r, hr, ?_, ?_⟩ <;> dsimp only at * <;> omega

-- ---------------------------------------------------------------------------
-- Copies byte by byte
-- ---------------------------------------------------------------------------

theorem read_run (h : ∀ k < n, resolve s (addr + BitVec.ofNat 64 k) = some ⟨i, o + k⟩) :
    read s addr n = some ((List.range n).map fun k => s.get ⟨i, o + k⟩) := by
  induction n generalizing addr o with
  | zero => rfl
  | succ n ih =>
    have h0 := h 0 (Nat.succ_pos n)
    rw [BitVec.add_zero] at h0
    have hrest : read s (addr + 1) n = some ((List.range n).map fun k => s.get ⟨i, o + 1 + k⟩) :=
      ih fun k hk => by
        rw [← add_succ, h (k + 1) (Nat.succ_lt_succ hk), Nat.add_right_comm, Nat.add_assoc]
    simp only [read, h0, hrest, List.range_succ_eq_map, List.map_cons, List.map_map]
    congr 2
    refine List.map_congr_left fun k _ => ?_
    rw [Function.comp, Nat.add_assoc, Nat.add_comm 1]

theorem write_run (h : ∀ k < bs.length, resolve s (addr + BitVec.ofNat 64 k) = some ⟨i, o + k⟩) :
    write s addr bs = (true, putBytes s ⟨i, o⟩ bs) := by
  induction bs generalizing s addr o with
  | nil => rfl
  | cons b bs ih =>
    have h0 := h 0 (Nat.succ_pos bs.length)
    rw [BitVec.add_zero] at h0
    simp only [write, h0, putBytes]
    refine ih fun k hk => ?_
    rw [put_resolve, ← add_succ, h (k + 1) (Nat.succ_lt_succ hk), Nat.add_right_comm,
      Nat.add_assoc]

/-- A bytewise write leaves what none of its addresses finds. -/
theorem write_frame (h : ∀ k < bs.length, resolve s (addr + BitVec.ofNat 64 k) ≠ some q) :
    (write s addr bs).2.get q = s.get q := by
  induction bs generalizing s addr with
  | nil => rfl
  | cons b bs ih =>
    have h0 := h 0 (Nat.succ_pos bs.length)
    rw [BitVec.add_zero] at h0
    unfold write
    split
    · rfl
    · rename_i p hp
      rw [ih fun k hk => ?_]
      · refine put_get_ne s b ?_
        rintro rfl
        exact h0 hp
      · rw [put_resolve, ← add_succ]
        exact h (k + 1) (Nat.succ_lt_succ hk)

theorem put_length (s : Space) (p : Ptr) (b : Byte) :
    (s.put p b).regions.length = s.regions.length := List.length_modify ..

theorem putBytes_below (h : o' < o) :
    (putBytes s ⟨i, o⟩ bs).get ⟨i, o'⟩ = s.get ⟨i, o'⟩ := by
  induction bs generalizing s o with
  | nil => rfl
  | cons b bs ih =>
    rw [putBytes, ih (Nat.lt_succ_of_lt h)]
    exact put_get_ne s b fun he => Nat.ne_of_lt h (Ptr.mk.inj he).2

theorem putBytes_get (hi : i < s.regions.length) (hk : k < bs.length) :
    (putBytes s ⟨i, o⟩ bs).get ⟨i, o + k⟩ = bs[k] := by
  induction bs generalizing s o k with
  | nil => cases hk
  | cons b bs ih =>
    cases k with
    | zero => exact (putBytes_below (Nat.lt_succ_self o)).trans (put_get_self s ⟨i, o⟩ b hi)
    | succ k =>
      have hnext := ih (s := s.put ⟨i, o⟩ b) (o := o + 1) (by rwa [put_length])
        (Nat.lt_of_succ_lt_succ hk)
      rwa [Nat.add_right_comm, Nat.add_assoc] at hnext

theorem putBytes_beside (h : p.region ≠ q.region ∨ p.offset < q.offset ∨ q.offset + bs.length ≤ p.offset) :
    (putBytes s q bs).get p = s.get p := by
  induction bs generalizing s q with
  | nil => rfl
  | cons b bs ih =>
    rw [List.length_cons] at h
    rw [putBytes, ih (q := ⟨q.region, q.offset + 1⟩) (h.imp_right fun h => by dsimp only; omega)]
    refine put_get_ne s b ?_
    rintro rfl
    omega

-- ---------------------------------------------------------------------------
-- The law
-- ---------------------------------------------------------------------------

theorem length_bytesOf : (bytesOf n v).length = n := by
  rw [bytesOf, List.length_map, List.length_range]

/-- A byte, with the `n` bytes of a value put over those from `q` on. -/
def overlaid (n : Nat) (s : Space) (q : Ptr) (v : Nat) (p : Ptr) : Byte :=
  if p.region = q.region ∧ q.offset ≤ p.offset ∧ p.offset < q.offset + n then byteAt v (p.offset - q.offset)
  else s.get p

theorem putBytes_overlaid (hi : q.region < s.regions.length) (p : Ptr) :
    (putBytes s q (bytesOf n v)).get p = overlaid n s q v p := by
  unfold overlaid
  split
  · rename_i h
    obtain ⟨i, o⟩ := p
    obtain ⟨rfl, hle, hlt⟩ := h
    have hk : o - q.offset < (bytesOf n v).length := by
      rw [length_bytesOf]
      dsimp only at hle hlt
      omega
    have hget := putBytes_get (o := q.offset) hi hk
    rw [Nat.add_sub_cancel' hle] at hget
    rw [hget]
    simp [bytesOf]
  · rename_i h
    refine putBytes_beside ?_
    rw [length_bytesOf]
    omega

theorem putBytes_resolve (s : Space) (p : Ptr) (bs : List Byte) (addr : Addr) :
    Memory.resolve (putBytes s p bs) addr = Memory.resolve s addr := by
  induction bs generalizing s p with
  | nil => rfl
  | cons b bs ih => rw [putBytes, ih, put_resolve]

theorem put_fits (s : Space) (p q : Ptr) (b : Byte) (n : Nat) :
    (s.put p b).fits q n = s.fits q n := by
  have h := put_regions s p b q.region
  unfold Space.fits
  cases hr : s.regions[q.region]? with
  | none =>
    rw [hr, Option.map_none, Option.map_eq_none_iff] at h
    rw [h]
  | some r =>
    rw [hr, Option.map_some, Option.map_eq_some_iff] at h
    obtain ⟨r', hr', he⟩ := h
    simp only [hr', (Prod.mk.inj he).2]

theorem putBytes_fits (s : Space) (p q : Ptr) (bs : List Byte) (n : Nat) :
    (putBytes s p bs).fits q n = s.fits q n := by
  induction bs generalizing s p with
  | nil => rfl
  | cons b bs ih => rw [putBytes, ih, put_fits]

/-- What is written to mapped memory is read back. -/
theorem wideRead_wideWrite (hp : Memory.resolve s addr = some p)
    (h : wideWrite n s addr v = some s') : wideRead n s' addr = some (v % 256 ^ n) := by
  obtain ⟨-, r, hr, -, -⟩ := resolve_some.1 hp
  simp only [wideWrite, hp, storeBytes] at h
  split at h
  case isFalse => cases h
  rename_i hfits
  obtain rfl := Option.some.inj h
  simp only [wideRead, putBytes_resolve, hp, loadBytes, putBytes_fits, hfits, ↓reduceIte]
  rw [← word_byteAt, word_congr fun k hk => ?_]
  rw [putBytes_get (List.getElem?_eq_some_iff.1 hr).1 (by rwa [length_bytesOf])]
  simp [bytesOf]

theorem Whole.fits (h : Whole n s addr) (hn : 0 < n) (hp : Memory.resolve s addr = some p) :
    s.fits p n = true := by
  obtain ⟨-, r, hr, -, hlt⟩ := resolve_some.1 (h.resolve hp (Nat.sub_one_lt_of_lt hn))
  dsimp only at hr hlt
  rw [Space.fits, hr, decide_eq_true_eq]
  omega

theorem Whole.agrees (h : Whole n s addr) (hn : 0 < n) (hp : Memory.resolve s addr = some p) :
    Agrees (wideRead n) (wideWrite n) n s addr where
  read := by
    have hread := read_run fun k hk => h.resolve hp hk
    simp only [wideRead, hp, loadBytes, h.fits hn hp, ↓reduceIte, bytewiseRead, hread]
    congr 1
    refine word_congr fun k hk => ?_
    simp [List.getD_eq_getElem?_getD, hk]
  write v := by
    have hwrite : write s addr (bytesOf n v) = (true, putBytes s p (bytesOf n v)) :=
      write_run fun k hk => h.resolve hp (by rwa [length_bytesOf] at hk)
    simp only [wideWrite, hp, storeBytes, h.fits hn hp, ↓reduceIte, hwrite]

/-- A pointer is found through one address only. -/
theorem resolve_inj (h : Memory.resolve s a = some p) (h' : Memory.resolve s b = some p) :
    a = b := by
  obtain ⟨-, r, hr, hsum, -⟩ := resolve_some.1 h
  obtain ⟨-, r', hr', hsum', -⟩ := resolve_some.1 h'
  obtain rfl := Option.some.inj (hr.symm.trans hr')
  exact BitVec.eq_of_toNat_eq (hsum.symm.trans hsum')

theorem putBytes_findRegion (s : Space) (p : Ptr) (bs : List Byte) (addr : Addr) :
    findRegion (putBytes s p bs) addr = findRegion s addr := by
  induction bs generalizing s p with
  | nil => rfl
  | cons b bs ih => rw [putBytes, ih, put_findRegion]

/-- A whole write changes its own bytes and nothing that is found elsewhere. -/
theorem Whole.write_view (h : Whole n s addr) (hn : 0 < n) (hp : Memory.resolve s addr = some p)
    (v : Nat) : ∃ s', wideWrite n s addr v = some s' ∧
      (∀ a, findRegion s' a = findRegion s a) ∧
      (∀ k < n, readU8 s' (addr + BitVec.ofNat 64 k) = byteAt v k) ∧
      ∀ a, (∀ k < n, a ≠ addr + BitVec.ofNat 64 k) → readU8 s' a = readU8 s a := by
  have hbytes := (h.agrees hn hp).write v
  have hput : wideWrite n s addr v = some (putBytes s p (bytesOf n v)) := by
    simp only [wideWrite, hp, storeBytes, h.fits hn hp, ↓reduceIte]
  refine ⟨_, hput, putBytes_findRegion s p _, fun k hk => ?_, fun a ha => ?_⟩
  · obtain ⟨-, r, hr, -, -⟩ := resolve_some.1 hp
    rw [readU8, putBytes_resolve, h.resolve hp hk]
    dsimp only
    rw [putBytes_get (List.getElem?_eq_some_iff.1 hr).1 (by rwa [length_bytesOf])]
    simp [bytesOf]
  · rw [readU8, readU8, putBytes_resolve]
    cases hq : Memory.resolve s a with
    | none => rfl
    | some q =>
      rw [hput] at hbytes
      rw [Option.some.inj hbytes]
      refine write_frame fun k hk hres => ?_
      rw [length_bytesOf] at hk
      exact ha k hk (resolve_inj hq hres)

/-- Where regions are apart, a copy that stays in its buffer is whole. -/
theorem whole_of_fits (hs : AllApart (s.regions.map fun r => ⟨r.base.toNat, r.size.toNat⟩))
    (hp : Memory.resolve s addr = some p) (hf : s.fits p n = true) : Whole n s addr := by
  obtain ⟨hfind, r, hr, hsum, hlt⟩ := resolve_some.1 hp
  obtain ⟨r', hr', hc⟩ := findRegion_some hfind
  obtain rfl := Option.some.inj (hr.symm.trans hr')
  obtain ⟨hle, -, hw⟩ := covers_iff.1 hc
  rw [Space.fits, hr, decide_eq_true_eq] at hf
  intro k hk
  have hk : (addr + BitVec.ofNat 64 k).toNat = addr.toNat + k := by
    rw [BitVec.toNat_add, BitVec.toNat_ofNat, Nat.add_mod_mod]
    exact Nat.mod_eq_of_lt (by omega)
  have hcov : r.covers (addr + BitVec.ofNat 64 k) = true := covers_iff.2 ⟨by omega, by omega, hw⟩
  rw [hfind]
  obtain ⟨hi, hri⟩ := List.getElem?_eq_some_iff.1 hr
  refine List.findIdx?_eq_some_iff_getElem.2 ⟨hi, hri ▸ hcov, fun j hj => ?_⟩
  -- An earlier region that covered the byte too would meet this one.
  have hapart := List.pairwise_iff_getElem.1 hs j p.region (by simp; omega) (by simpa using hi) hj
  simp only [List.getElem_map, hri] at hapart
  rw [Bool.not_eq_true, ← Bool.not_eq_true]
  intro hother
  obtain ⟨hlo, hhi, -⟩ := covers_iff.1 hother
  obtain ⟨hlo', hhi', -⟩ := covers_iff.1 hcov
  rcases hapart with hapart | hapart <;> simp only [Span.stop] at hapart <;> omega

theorem agrees_unmapped (h : Memory.resolve s addr = none) (hn : 0 < n) :
    Agrees (wideRead n) (wideWrite n) n s addr := by
  obtain ⟨m, rfl⟩ := Nat.exists_eq_succ_of_ne_zero (Nat.pos_iff_ne_zero.1 hn)
  refine ⟨by simp only [wideRead, h, bytewiseRead, read], fun v => ?_⟩
  simp only [wideWrite, h, bytesOf, List.range_succ_eq_map, List.map_cons, write]

/-- A byte that is found elsewhere is written by the wide accessor only. -/
theorem Agrees.whole (h : Agrees (wideRead n) (wideWrite n) n s addr)
    (hp : Memory.resolve s addr = some p) : Whole n s addr := by
  obtain ⟨hf, r, hr, hsum, hlt⟩ := resolve_some.1 hp
  have hregion : p.region < s.regions.length := (List.getElem?_eq_some_iff.1 hr).1
  intro k hk
  obtain ⟨v, hv⟩ := byteAt_ne (s.get ⟨p.region, p.offset + k⟩) k
  have hw := h.write v
  simp only [wideWrite, hp, storeBytes] at hw
  split at hw
  case isFalse => cases hw
  have hput := Option.some.inj hw
  have hwide : (putBytes s p (bytesOf n v)).get ⟨p.region, p.offset + k⟩ = byteAt v k := by
    rw [putBytes_get hregion (by rwa [length_bytesOf])]
    simp [bytesOf]
  by_contra hother
  refine hv ?_
  rw [← hwide, hput]
  refine write_frame fun j hj hres => hother ?_
  -- Only address `k` can find that byte, and it does not.
  obtain ⟨hfj, r', hr', hsum', -⟩ := resolve_some.1 hres
  obtain rfl := Option.some.inj (hr.symm.trans hr')
  dsimp only at hfj hsum'
  have haddr : addr + BitVec.ofNat 64 j = addr + BitVec.ofNat 64 k := by
    apply BitVec.eq_of_toNat_eq
    have hle : (addr + BitVec.ofNat 64 j).toNat < 2 ^ 64 := BitVec.isLt _
    rw [← hsum', BitVec.toNat_add, BitVec.toNat_ofNat, Nat.add_mod_mod,
      Nat.mod_eq_of_lt (by omega)]
    omega
  rw [← haddr, hfj, hf]

theorem wide_agrees_iff (hn : 0 < n) : Agrees (wideRead n) (wideWrite n) n s addr ↔
    findRegion s addr = none ∨ Whole n s addr := by
  cases hp : Memory.resolve s addr with
  | none =>
    have hf := resolve_none.1 hp
    exact ⟨fun _ => .inl hf, fun _ => agrees_unmapped hp hn⟩
  | some p =>
    have hf := (resolve_some.1 hp).1
    constructor
    · exact fun h => .inr (h.whole hp)
    · rintro (h | h)
      · rw [hf] at h
        cases h
      · exact h.agrees hn hp

/-- A wide access agrees with the bytewise one, for every value written, exactly
when its first byte is unmapped or all its bytes are found in one region. -/
theorem wide_law (s : Space) (addr : Addr) :
    (Agrees readU16 writeU16 2 s addr ↔ findRegion s addr = none ∨ Whole 2 s addr) ∧
    (Agrees readU32 writeU32 4 s addr ↔ findRegion s addr = none ∨ Whole 4 s addr) ∧
    (Agrees readU64 writeU64 8 s addr ↔ findRegion s addr = none ∨ Whole 8 s addr) :=
  ⟨wide_agrees_iff (by decide), wide_agrees_iff (by decide), wide_agrees_iff (by decide)⟩

/-- Two pages mapped one after the other: a 16-bit read across their border
leaves the first page's buffer, where the bytewise read returns both bytes. -/
theorem border_read_leaves_buffer :
    let s := (map (map .init 0x1000 0x1000 3 true).2 0x2000 0x1000 3 true).2
    readU16 s 0x1FFF = none ∧ read s 0x1FFF 2 = some [0, 0] ∧
      ¬Agrees readU16 writeU16 2 s 0x1FFF := by
  refine ⟨by decide, by decide, fun h => ?_⟩
  have hread := h.read
  revert hread
  decide

end WineGlass.Memory
