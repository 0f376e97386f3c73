import WineGlass.Gdi.Dib
import Mathlib.Tactic.Linarith

/-!
# Decoding within the file

What decoding a file comes to, from its first bytes to its last row, and when it ends.
-/

namespace WineGlass.Gdi

open Faults Grids

variable {n : Nat} {d : Vector Byte n} {room : Nat → Bool} {t : Bitmaps}

-- ---------------------------------------------------------------------------
-- Headers
-- ---------------------------------------------------------------------------

theorem get_byte (h : p < n) : get d p = .ok (byteAt d p) := by
  refine get_ok ?_
  unfold byteAt
  rw [Vector.getElem?_eq_getElem h]
  rfl

theorem ends_get : Ends (get d p) ↔ p < n := by
  constructor
  · rintro ⟨b, h⟩
    unfold Faults.get at h
    by_contra hout
    rw [Vector.getElem?_eq_none (Nat.le_of_not_lt hout)] at h
    cases h
  · exact fun h => ⟨_, get_byte h⟩

theorem rd16_ok (h : p + 1 < n) : rd16 d p = .ok (word16 d p) := by
  unfold rd16
  rw [get_byte (Nat.lt_of_succ_lt h), ok_bind, get_byte h, ok_bind]
  rfl

theorem rd32_ok (h : p + 3 < n) : rd32 d p = .ok (word32 d p) := by
  unfold rd32
  rw [get_byte (by omega), ok_bind, get_byte (by omega), ok_bind, get_byte (by omega), ok_bind,
    get_byte h, ok_bind]
  rfl

theorem readInfo_ok (h : 54 ≤ n) : readInfo d 14 = .ok (infoOf d) := by
  unfold readInfo
  rw [rd32_ok (by omega), ok_bind, rd32_ok (by omega), ok_bind, rd32_ok (by omega), ok_bind,
    rd16_ok (by omega), ok_bind, rd32_ok (by omega), ok_bind, rd32_ok (by omega), ok_bind]
  rfl

theorem height_ok (h : (infoOf d).biH ≠ -2147483648) :
    (infoOf d).height = .ok (infoOf d).biH.natAbs := by
  have hlo := (word32 d 22).le_toInt
  have hhi := (word32 d 22).toInt_lt
  unfold Info.height Info.topDown
  have hH : (infoOf d).biH = (word32 d 22).toInt := rfl
  by_cases hneg : (infoOf d).biH < 0
  · rw [if_pos (decide_eq_true hneg), int_ok (fits_iff.mpr (by omega)),
      Int.ofNat_natAbs_of_nonpos (Int.le_of_lt hneg)]
  · rw [if_neg (by simpa using hneg), Int.natAbs_of_nonneg (Int.not_lt.mp hneg)]

theorem height_overflow (h : (infoOf d).biH = -2147483648) :
    (infoOf d).height = .error .overflow := by
  unfold Info.height Info.topDown
  rw [h]
  rfl

theorem fromBmp_refused (h : ¬ Accepted d) : fromBmpMemory room t d = .ok (0, t) := by
  unfold fromBmpMemory
  by_cases hlong : n < 54
  · rw [if_pos hlong]
  · rw [if_neg hlong, get_byte (by omega), ok_bind, get_byte (by omega), ok_bind]
    by_cases hbm : byteAt d 0 ≠ 0x42#8 ∨ byteAt d 1 ≠ 0x4D#8
    · rw [if_pos hbm]
    · rw [if_neg hbm, rd32_ok (by omega), ok_bind]
      simp only [not_or, not_not] at hbm
      by_cases hoff : (word32 d 10).toNat ≥ n
      · rw [if_pos hoff]
      · rw [if_neg hoff]
        unfold decodeDib
        rw [readInfo_ok (by omega), ok_bind]
        by_cases hsize : (infoOf d).biSize.toNat < 40
        · rw [if_pos hsize]
        · rw [if_neg hsize, if_pos]
          intro hcomp
          exact h ⟨by omega, hbm.1, hbm.2, Nat.lt_of_not_le hoff, Nat.le_of_not_lt hsize, hcomp⟩

theorem fromBmp_accepted (h : Accepted d) : fromBmpMemory room t d =
    decodeImage room t (infoOf d) d 14 d (offBits d) (n - offBits d) := by
  have hlong := h.long
  have hoff : ¬ (word32 d 10).toNat ≥ n := Nat.not_le_of_lt h.off
  unfold fromBmpMemory
  rw [if_neg (by omega), get_byte (by omega), ok_bind, get_byte (by omega), ok_bind,
    if_neg (by simp [h.b, h.m]), rd32_ok (by omega), ok_bind, if_neg hoff]
  unfold decodeDib
  rw [readInfo_ok hlong, ok_bind, if_neg (Nat.not_lt_of_le h.size), if_neg (not_not_intro h.comp)]
  rfl

-- ---------------------------------------------------------------------------
-- Pixels
-- ---------------------------------------------------------------------------

theorem bytes_le_stride (i : Info) : i.biW.toNat * (i.biBpp.toNat / 8) ≤ i.stride := by
  unfold Info.stride
  omega

/-- The bytes of a pixel are in the file when its rows are. -/
theorem byte_in (hoff : offBits d < n) (hrows : ¬ Truncated d) (hy : y < (infoOf d).biH.natAbs)
    (hx : x < (infoOf d).biW.toNat) (hc : c < (infoOf d).biBpp.toNat / 8) :
    offBits d + y * (infoOf d).stride + (x * ((infoOf d).biBpp.toNat / 8) + c) < n := by
  unfold Truncated at hrows
  have hstride := bytes_le_stride (infoOf d)
  generalize (infoOf d).stride = s at *
  generalize (infoOf d).biBpp.toNat / 8 = k at *
  have hpixel : x * k + c < (infoOf d).biW.toNat * k :=
    calc x * k + c < x * k + k := Nat.add_lt_add_left hc _
      _ = (x + 1) * k := (Nat.succ_mul x k).symm
      _ ≤ (infoOf d).biW.toNat * k := Nat.mul_le_mul_right k hx
  have hrow : y * s + s ≤ s * (infoOf d).biH.natAbs :=
    calc y * s + s = (y + 1) * s := (Nat.succ_mul y s).symm
      _ ≤ (infoOf d).biH.natAbs * s := Nat.mul_le_mul_right s hy
      _ = s * (infoOf d).biH.natAbs := Nat.mul_comm ..
  omega

/-- A colour of the palette at `pal`, or the index as a grey. -/
def shade (d : Vector Byte n) (i : Info) (pal : Nat) (idx : Byte) : U32 :=
  if idx.toNat < i.palN then
    pack (byteAt d (pal + idx.toNat * 4 + 2)) (byteAt d (pal + idx.toNat * 4 + 1))
      (byteAt d (pal + idx.toNat * 4)) 0xFF#8
  else pack idx idx idx 0xFF#8

theorem pixel8_ok {i : Info} (hbpp : i.biBpp = 8#16) (hin : row + x < n)
    (hpal : (byteAt d (row + x)).toNat < i.palN →
      pal + (byteAt d (row + x)).toNat * 4 + 2 < n) :
    pixelAt d d i pal row x = .ok (shade d i pal (byteAt d (row + x))) := by
  unfold pixelAt shade
  rw [if_pos hbpp, get_byte hin, ok_bind]
  by_cases hidx : (byteAt d (row + x)).toNat < i.palN
  · have hin := hpal hidx
    rw [if_pos hidx, if_pos hidx]
    dsimp only
    rw [get_byte (by omega), ok_bind, get_byte (by omega), ok_bind, get_byte hin, ok_bind]
    rfl
  · rw [if_neg hidx, if_neg hidx]

theorem pixel24_ok {i : Info} (hbpp : i.biBpp = 24#16) (hin : row + x * 3 + 2 < n) :
    pixelAt d d i pal row x = .ok (pack (byteAt d (row + x * 3 + 2)) (byteAt d (row + x * 3 + 1))
      (byteAt d (row + x * 3)) 0xFF#8) := by
  unfold pixelAt
  rw [if_neg (by simp [hbpp]), if_pos hbpp]
  dsimp only
  rw [get_byte (by omega), ok_bind, get_byte (by omega), ok_bind, get_byte hin, ok_bind]
  rfl

theorem pixel32_ok {i : Info} (hbpp : i.biBpp = 32#16) (hin : row + x * 4 + 3 < n) :
    pixelAt d d i pal row x = .ok (pack (byteAt d (row + x * 4 + 2)) (byteAt d (row + x * 4 + 1))
      (byteAt d (row + x * 4))
      (if byteAt d (row + x * 4 + 3) ≠ 0#8 then byteAt d (row + x * 4 + 3) else 0xFF#8)) := by
  unfold pixelAt
  rw [if_neg (by simp [hbpp]), if_neg (by simp [hbpp])]
  dsimp only
  rw [get_byte (by omega), ok_bind, get_byte (by omega), ok_bind, get_byte (by omega), ok_bind,
    get_byte hin, ok_bind]
  rfl

theorem ends_pixel8 {i : Info} (hbpp : i.biBpp = 8#16) (hin : row + x < n) :
    Ends (pixelAt d d i pal row x) ↔
      ((byteAt d (row + x)).toNat < i.palN → pal + (byteAt d (row + x)).toNat * 4 + 2 < n) := by
  constructor
  · intro h hidx
    unfold pixelAt at h
    rw [if_pos hbpp, get_byte hin, ok_bind, if_pos hidx] at h
    obtain ⟨b, -, h⟩ := ends_bind.mp h
    obtain ⟨g, -, h⟩ := ends_bind.mp h
    obtain ⟨r, hr, -⟩ := ends_bind.mp h
    exact ends_get.mp ⟨r, hr⟩
  · exact fun hpal => ⟨_, pixel8_ok hbpp hin hpal⟩

/-- Where a pixel's own bytes are in the file, only the palette can be missing. -/
theorem ends_pixel (h : (infoOf d).Supported) (hoff : offBits d < n) (hrows : ¬ Truncated d)
    (hy : y < (infoOf d).biH.natAbs) (hx : x < (infoOf d).biW.toNat) :
    Ends (pixelAt d d (infoOf d) (14 + (infoOf d).biSize.toNat)
      (offBits d + y * (infoOf d).stride) x) ↔
    ((infoOf d).biBpp = 8#16 → indexAt d x y < (infoOf d).palN →
      14 + (infoOf d).biSize.toNat + indexAt d x y * 4 + 2 < n) := by
  have hbyte {k : Nat} (hk : (infoOf d).biBpp.toNat / 8 = k) (c : Nat) (hc : c < k) :
      offBits d + y * (infoOf d).stride + (x * k + c) < n := by
    rw [← hk] at hc ⊢
    exact byte_in hoff hrows hy hx hc
  rcases h.bpp with hbpp | hbpp | hbpp
  · have hin := hbyte (k := 1) (by rw [hbpp]; rfl) 0 (by omega)
    rw [ends_pixel8 hbpp (by omega)]
    exact ⟨fun h _ => h, fun h => h hbpp⟩
  · have hin := hbyte (k := 3) (by rw [hbpp]; rfl) 2 (by omega)
    exact iff_of_true ⟨_, pixel24_ok hbpp (by omega)⟩ fun h8 => by simp [hbpp] at h8
  · have hin := hbyte (k := 4) (by rw [hbpp]; rfl) 3 (by omega)
    exact iff_of_true ⟨_, pixel32_ok hbpp (by omega)⟩ fun h8 => by simp [hbpp] at h8

theorem dest_lt (i : Info) (hy : y < h) : i.dest h y < h := by
  unfold Info.dest
  split <;> omega

theorem dest_inj (i : Info) (hy : y < h) (hz : z < h) (heq : i.dest h y = i.dest h z) : y = z := by
  unfold Info.dest at heq
  split at heq <;> omega

theorem rows_short (hoff : offBits d < n) {bm : Bitmap} (hh : bm.h = (infoOf d).biH.natAbs)
    (h : Truncated d) :
    decodeRows (infoOf d) bm d 14 d (offBits d) (n - offBits d) = .ok bm :=
  if_pos ⟨by omega, by rw [hh]; exact h⟩

theorem rows_filled {bm : Bitmap} (hh : bm.h = (infoOf d).biH.natAbs) (h : ¬ Truncated d) :
    decodeRows (infoOf d) bm d 14 d (offBits d) (n - offBits d) = (do
      let px ← fill (fun x y => pixelAt d d (infoOf d) (14 + (infoOf d).biSize.toNat)
        (offBits d + y * (infoOf d).stride) x) ((infoOf d).dest bm.h) bm.px
      .ok { bm with px }) :=
  if_neg fun hcap => h (by rw [hh] at hcap; exact hcap.2)

theorem ends_rows (ha : Accepted d) (hs : (infoOf d).Supported) {bm : Bitmap}
    (hw : bm.w = (infoOf d).biW.toNat) (hh : bm.h = (infoOf d).biH.natAbs) :
    Ends (decodeRows (infoOf d) bm d 14 d (offBits d) (n - offBits d)) ↔ PaletteIn d := by
  by_cases htrunc : Truncated d
  · rw [rows_short ha.off hh htrunc]
    exact iff_of_true (.ok _) fun _ h => absurd htrunc h
  · have hfill := ends_fill (g := bm.px) (f := fun x y => pixelAt d d (infoOf d)
      (14 + (infoOf d).biSize.toNat) (offBits d + y * (infoOf d).stride) x)
      (fun y hy => dest_lt (infoOf d) hy)
    rw [rows_filled hh htrunc, ends_bind]
    constructor
    · rintro ⟨px, hpx, -⟩ h8 - y hy x hx
      exact (ends_pixel hs ha.off htrunc hy hx).mp (hfill.mp ⟨px, hpx⟩ y (hh ▸ hy) x (hw ▸ hx)) h8
    · intro h
      obtain ⟨px, hpx⟩ := hfill.mpr fun y hy x hx =>
        (ends_pixel hs ha.off htrunc (hh ▸ hy) (hw ▸ hx)).mpr fun h8 =>
          h h8 htrunc y (hh ▸ hy) x (hw ▸ hx)
      exact ⟨px, hpx, .ok _⟩

theorem rows_shape {bm bm' : Bitmap} (h : decodeRows i bm d bih d bits cap = .ok bm') :
    bm'.handle = bm.handle ∧ bm'.w = bm.w ∧ bm'.h = bm.h := by
  unfold decodeRows at h
  split at h
  · cases h
    exact ⟨rfl, rfl, rfl⟩
  · obtain ⟨px, -, h⟩ := bind_eq_ok.mp h
    cases h
    exact ⟨rfl, rfl, rfl⟩

-- ---------------------------------------------------------------------------
-- Slots
-- ---------------------------------------------------------------------------

theorem alloc_spec (h : t.allocSlot room w k = some (slot, bm)) :
    (t.slots[slot]? = some none ∧ ∀ j < slot, t.slots[j]? ≠ some none) ∧
      bm.handle = t.next ∧ bm.w = w.toNat ∧ bm.h = k.toNat := by
  unfold Bitmaps.allocSlot at h
  split at h
  · cases h
  · split at h
    · cases h
    · rename_i i hfind
      split at h
      · cases h
        obtain ⟨hlt, hfree, hused⟩ := List.findIdx?_eq_some_iff_getElem.mp hfind
        refine ⟨⟨?_, fun j hj heq => ?_⟩, rfl, rfl, rfl⟩
        · rw [List.getElem?_eq_getElem hlt, Option.isNone_iff_eq_none.mp hfree]
        · obtain ⟨hjlt, hnone⟩ := List.getElem?_eq_some_iff.mp heq
          exact hused j hj (by rw [hnone]; rfl)
      · cases h

/-- The new bitmap is found under its handle when that is fresh, and only then. -/
theorem found_iff (hfree : t.slots[slot]? = some none) (hh : b.handle = t.next) :
    (t.slots.set slot (some b)).findIdx? (Bitmap.is t.next) = some slot ↔
      ∀ j < slot, ∀ c, t.slots[j]? = some (some c) → c.handle ≠ t.next := by
  obtain ⟨hlt, -⟩ := List.getElem?_eq_some_iff.mp hfree
  rw [List.findIdx?_eq_some_iff_getElem]
  constructor
  · rintro ⟨_, -, hothers⟩ j hj c hc heq
    obtain ⟨hjlt, hjc⟩ := List.getElem?_eq_some_iff.mp hc
    refine hothers j hj ?_
    rw [List.getElem_set_ne (Nat.ne_of_gt hj), hjc]
    exact decide_eq_true heq
  · intro h
    refine ⟨by simpa using hlt, by simp [Bitmap.is, hh], fun j hj => ?_⟩
    have hjlt : j < t.slots.length := Nat.lt_trans hj hlt
    rw [List.getElem_set_ne (Nat.ne_of_gt hj)]
    cases hc : t.slots[j] with
    | none => simp [Bitmap.is]
    | some c =>
      have hne := h j hj c (by rw [List.getElem?_eq_getElem hjlt, hc])
      simpa [Bitmap.is] using hne

-- ---------------------------------------------------------------------------
-- The law
-- ---------------------------------------------------------------------------

theorem image_refused (hH : (infoOf d).biH ≠ -2147483648) (hs : ¬ (infoOf d).Supported) :
    decodeImage room t (infoOf d) d 14 d bits cap = .ok (0, t) := by
  unfold decodeImage
  rw [height_ok hH, ok_bind]
  by_cases hdim : (infoOf d).biW ≤ 0 ∨ ((infoOf d).biH.natAbs : Int) ≤ 0 ∨ (infoOf d).biW > 16384 ∨
      ((infoOf d).biH.natAbs : Int) > 16384
  · rw [if_pos hdim]
  · rw [if_neg hdim, if_pos]
    by_contra hbpp
    refine hs ⟨by omega, by omega, ?_⟩
    simp only [not_and_or, not_not] at hbpp
    exact hbpp

theorem image_supported (hH : (infoOf d).biH ≠ -2147483648) (hs : (infoOf d).Supported) :
    decodeImage room t (infoOf d) d 14 d bits cap =
      (match t.allocSlot room (infoOf d).biW (infoOf d).biH.natAbs with
      | none => .ok (0, t)
      | some (slot, bm) => do
        let bm ← decodeRows (infoOf d) bm d 14 d bits cap
        .ok (bm.handle, t.fill slot bm)) := by
  have hw := hs.w
  have hh := hs.h
  unfold decodeImage
  rw [height_ok hH, ok_bind, if_neg (by omega)]
  refine if_neg ?_
  rintro ⟨h8, h24, h32⟩
  rcases hs.bpp with h | h | h
  · exact h8 h
  · exact h24 h
  · exact h32 h

theorem returns_slot {bm bm' : Bitmap}
    (halloc : t.allocSlot room (infoOf d).biW (infoOf d).biH.natAbs = some (slot, bm))
    (hshape : bm'.handle = bm.handle ∧ bm'.w = bm.w ∧ bm'.h = bm.h)
    (hw : 0 ≤ (infoOf d).biW) :
    Returns t d bm'.handle (t.fill slot bm') ↔ t.Fresh slot := by
  obtain ⟨⟨hfree, hused⟩, hhandle, hbw, hbh⟩ := alloc_spec halloc
  obtain ⟨hh', hw', hbh'⟩ := hshape
  obtain ⟨hlt, hslot⟩ := List.getElem?_eq_some_iff.mp hfree
  have hnext : bm'.handle = t.next := hh'.trans hhandle
  unfold Returns Bitmaps.Fresh
  rw [hnext]
  constructor
  · rintro (⟨-, hsame⟩ | ⟨hne, k, b, hk, hset, hfind, -, -⟩)
    · have hlist := congrArg (fun u => u.slots[slot]?) hsame
      simp [Bitmaps.fill, hlt, hslot] at hlist
    · have hkslot : k = slot := by
        by_contra hkne
        have hlist : (t.fill slot bm').slots[slot]? = some (some bm') :=
          List.getElem?_set_self hlt
        rw [hset, List.getElem?_set_ne hkne, hfree] at hlist
        cases hlist
      subst hkslot
      exact ⟨hne, (found_iff hfree hnext).mp hfind⟩
  · rintro ⟨hne, hfresh⟩
    refine .inr ⟨hne, slot, bm', hfree, rfl, (found_iff hfree hnext).mpr hfresh, ?_, ?_⟩
    · rw [hw', hbw, Int.toNat_of_nonneg hw]
    · rw [hbh', hbh, Int.toNat_natCast]

/-- A file is decoded within its bytes exactly when its height, handle and palette allow it. -/
theorem bmp_law (room : Nat → Bool) (t : Bitmaps) (d : Vector Byte n) :
    Decodes room t d ↔ BmpOk room t d := by
  unfold Decodes BmpOk
  by_cases ha : Accepted d
  · rw [fromBmp_accepted ha]
    by_cases hH : (infoOf d).biH = -2147483648
    · constructor
      · rintro ⟨h, t', himage, -⟩
        unfold decodeImage at himage
        rw [height_overflow hH] at himage
        cases himage
      · exact fun h => absurd hH (h ha).1
    · by_cases hs : (infoOf d).Supported
      · rw [image_supported hH hs]
        cases halloc : t.allocSlot room (infoOf d).biW (infoOf d).biH.natAbs with
        | none =>
          refine iff_of_true ⟨0, t, rfl, .inl ⟨rfl, rfl⟩⟩ fun _ => ⟨hH, fun _ slot b h => ?_⟩
          cases h
        | some r =>
          obtain ⟨slot, bm⟩ := r
          obtain ⟨-, -, hbw, hbh⟩ := alloc_spec halloc
          have hends := ends_rows ha hs hbw hbh
          constructor
          · rintro ⟨h, t', himage, hret⟩ -
            obtain ⟨bm', hrows, hok⟩ := bind_eq_ok.mp himage
            cases hok
            refine ⟨hH, fun _ slot' b heq => ?_⟩
            cases heq
            exact ⟨(returns_slot halloc (rows_shape hrows) (Int.le_of_lt hs.w.1)).mp hret,
              hends.mp ⟨bm', hrows⟩⟩
          · intro h
            obtain ⟨hfresh, hpal⟩ := (h ha).2 hs slot bm rfl
            obtain ⟨bm', hrows⟩ := hends.mpr hpal
            refine ⟨bm'.handle, t.fill slot bm', ?_,
              (returns_slot halloc (rows_shape hrows) (Int.le_of_lt hs.w.1)).mpr hfresh⟩
            simp only [hrows, ok_bind]
      · rw [image_refused hH hs]
        exact iff_of_true ⟨0, t, rfl, .inl ⟨rfl, rfl⟩⟩ fun _ => ⟨hH, fun h => absurd h hs⟩
  · rw [fromBmp_refused ha]
    exact iff_of_true ⟨0, t, rfl, .inl ⟨rfl, rfl⟩⟩ fun h => absurd h ha

/-- A file of one grey pixel, with an info header of `40 + 256 * s` bytes. -/
def dot (s h0 h3 : Byte) : Vector Byte 58 :=
  #v[0x42, 0x4D, 0, 0, 0, 0, 0, 0, 0, 0, 54, 0, 0, 0,
    40, s, 0, 0, 1, 0, 0, 0, h0, 0, 0, h3, 1, 0, 8, 0, 0, 0, 0, 0, 0, 0, 0, 0, 0, 0, 0, 0, 0, 0, 0,
    0, 0, 0, 0, 0, 0, 0, 0, 0, 7, 0, 0, 0]

/-- A palette behind the end of the file, and the least height. -/
theorem bmp_outside :
    ¬ Decodes (fun _ => true) ⟨[none], 0x0B170000⟩ (dot 16 1 0) ∧
      ¬ Decodes (fun _ => true) ⟨[none], 0x0B170000⟩ (dot 0 0 0x80) := by
  constructor
  · rintro ⟨h, t', hrun, -⟩
    have hfault : ¬ Ends (fromBmpMemory (fun _ => true) ⟨[none], 0x0B170000⟩ (dot 16 1 0)) := by
      decide +kernel
    exact hfault ⟨_, hrun⟩
  · rintro ⟨h, t', hrun, -⟩
    have hfault : ¬ Ends (fromBmpMemory (fun _ => true) ⟨[none], 0x0B170000⟩ (dot 0 0 0x80)) := by
      decide +kernel
    exact hfault ⟨_, hrun⟩

end WineGlass.Gdi
