import WineGlass.Gdi.Bmp
import Mathlib.Data.List.GetD

/-!
# Decoding a picture's file

The bytes of `Bmp.encode`, read back field by field, row by row and through the palette.
-/

namespace WineGlass.Gdi

open Faults Grids

variable {b : Bmp}

-- ---------------------------------------------------------------------------
-- The headers
-- ---------------------------------------------------------------------------

theorem encode_byte (h : i < b.size) : byteAt b.encode i = b.byte i := by
  unfold byteAt Bmp.encode
  rw [Vector.getElem?_eq_getElem h, Vector.getElem_ofFn]
  rfl

theorem Bmp.stride_pos (b : Bmp) : 0 < b.stride := by
  have hw := b.wide.1
  have hbytes : 1 ≤ b.depth.bytes := by cases b.depth <;> simp [Depth.bytes]
  have hmul : 1 * 1 ≤ b.w * b.depth.bytes := Nat.mul_le_mul hw hbytes
  unfold Bmp.stride
  omega

theorem Bmp.off_lt (b : Bmp) : b.off < b.size :=
  Nat.lt_add_of_pos_right (Nat.mul_pos b.stride_pos b.high.1)

theorem Bmp.off_ge (b : Bmp) : 54 ≤ b.off := Nat.le_add_right 54 _

theorem Bmp.palette_small (b : Bmp) : b.depth.palette.length ≤ 256 := by
  cases hd : b.depth with
  | eight pal small => exact small
  | twentyfour => exact Nat.zero_le _
  | thirtytwo => exact Nat.zero_le _

theorem encode_header (h : i < 54) : byteAt b.encode i = b.header.getD i 0 := by
  have hoff := b.off_lt
  have hge := b.off_ge
  rw [encode_byte (by omega)]
  exact if_pos h

theorem getD_words (ws : List U32) (k c : Nat) (hk : k < ws.length) (hc : c < 4) :
    (ws.flatMap le32).getD (4 * k + c) 0 = lane c (ws.getD k 0) := by
  induction ws generalizing k with
  | nil => exact absurd hk (Nat.not_lt_zero k)
  | cons w ws ih =>
    have hlen : (le32 w).length = 4 := rfl
    rw [List.flatMap_cons]
    cases k with
    | zero =>
      rw [List.getD_append _ _ _ _ (by omega), List.getD_cons_zero, Nat.mul_zero, Nat.zero_add]
      match c, hc with
      | 0, _ => rfl
      | 1, _ => rfl
      | 2, _ => rfl
      | 3, _ => rfl
    | succ k =>
      rw [List.getD_append_right _ _ _ _ (by omega), List.getD_cons_succ, hlen,
        show 4 * (k + 1) + c - 4 = 4 * k + c by omega]
      exact ih k (Nat.lt_of_succ_lt_succ hk)

theorem encode_lane (k c : Nat) (hk : k < 13) (hc : c < 4) :
    byteAt b.encode (2 + 4 * k + c) = lane c (b.words.getD k 0) := by
  rw [encode_header (by omega), Bmp.header, show 2 + 4 * k + c = 4 * k + c + 1 + 1 by omega,
    List.getD_cons_succ, List.getD_cons_succ]
  exact getD_words b.words k c hk hc

theorem encode_word (k : Nat) (hk : k < 13) :
    word32 b.encode (2 + 4 * k) = b.words.getD k 0 := by
  unfold word32
  rw [← Nat.add_zero (2 + 4 * k), encode_lane k 0 hk (by decide), Nat.add_zero,
    encode_lane k 1 hk (by decide), encode_lane k 2 hk (by decide), encode_lane k 3 hk (by decide)]
  exact pack_lanes _

theorem encode_bpp : word16 b.encode 28 = b.depth.bpp := by
  have h28 : byteAt b.encode 28 = lane 2 (b.words.getD 6 0) := encode_lane 6 2 (by decide) (by decide)
  have h29 : byteAt b.encode 29 = lane 3 (b.words.getD 6 0) := encode_lane 6 3 (by decide) (by decide)
  unfold word16
  rw [h28, h29, Bmp.words, List.getD_cons_succ, List.getD_cons_succ, List.getD_cons_succ,
    List.getD_cons_succ, List.getD_cons_succ, List.getD_cons_succ, List.getD_cons_zero]
  cases b.depth <;> simp [Depth.bpp, lane]

theorem infoOf_encode : infoOf b.encode =
    { biSize := 40#32, biW := b.w, biH := b.height, biBpp := b.depth.bpp, biComp := 0#32
      biClrUsed := .ofNat 32 b.depth.palette.length } := by
  have hw := b.wide.2
  have hh := b.high.2
  have hsize : word32 b.encode 14 = 40#32 := encode_word 3 (by decide)
  have hwide : word32 b.encode 18 = .ofNat 32 b.w := encode_word 4 (by decide)
  have hhigh : word32 b.encode 22 = .ofInt 32 b.height := encode_word 5 (by decide)
  have hcomp : word32 b.encode 30 = 0#32 := encode_word 7 (by decide)
  have hclr : word32 b.encode 46 = .ofNat 32 b.depth.palette.length := encode_word 11 (by decide)
  have hwint : (BitVec.ofNat 32 b.w).toInt = b.w := by
    rw [BitVec.toInt_ofNat']
    exact Int.bmod_eq_of_le_mul_two (by omega) (by omega)
  have hhint : (BitVec.ofInt 32 b.height).toInt = b.height := by
    rw [BitVec.toInt_ofInt]
    unfold Bmp.height
    split <;> exact Int.bmod_eq_of_le_mul_two (by omega) (by omega)
  unfold infoOf
  rw [hsize, hwide, hhigh, hcomp, hclr, encode_bpp, hwint, hhint]

theorem offBits_encode : offBits b.encode = b.off := by
  have hpal := b.palette_small
  have hoff : word32 b.encode 10 = .ofNat 32 b.off := encode_word 2 (by decide)
  unfold offBits
  rw [hoff, BitVec.toNat_ofNat]
  unfold Bmp.off
  omega

theorem accepted_encode : Accepted b.encode where
  long := Nat.le_trans b.off_ge (Nat.le_of_lt b.off_lt)
  b := encode_header (by decide)
  m := encode_header (by decide)
  off := offBits_encode ▸ b.off_lt
  size := by
    rw [infoOf_encode]
    exact Nat.le_refl 40
  comp := by rw [infoOf_encode]

theorem height_natAbs : b.height.natAbs = b.h := by
  unfold Bmp.height
  split <;> omega

theorem supported_encode : (infoOf b.encode).Supported := by
  have hw := b.wide
  have hh := b.high
  rw [infoOf_encode]
  refine ⟨by simp only; omega, by simp only [height_natAbs]; omega, ?_⟩
  cases b.depth with
  | eight => exact .inl rfl
  | twentyfour => exact .inr (.inl rfl)
  | thirtytwo => exact .inr (.inr rfl)

-- ---------------------------------------------------------------------------
-- The rows
-- ---------------------------------------------------------------------------

theorem Depth.bpp_bytes (d : Depth) : d.bpp.toNat / 8 = d.bytes := by
  cases d <;> simp [Depth.bpp, Depth.bytes]

theorem stride_encode : (infoOf b.encode).stride = b.stride := by
  unfold Info.stride Bmp.stride
  rw [infoOf_encode]
  simp only [Depth.bpp_bytes, Int.toNat_natCast]

theorem natAbs_encode : (infoOf b.encode).biH.natAbs = b.h := by
  rw [infoOf_encode]
  exact height_natAbs

theorem not_truncated : ¬ Truncated b.encode := by
  unfold Truncated
  rw [stride_encode, offBits_encode, natAbs_encode]
  unfold Bmp.size
  omega

theorem row_lt (hy : y < b.h) : b.row y < b.h := by
  unfold Bmp.row
  split <;> omega

theorem dest_encode : (infoOf b.encode).dest b.h y = b.row y := by
  have htop : (infoOf b.encode).topDown = b.topDown := by
    have hh := b.high.1
    unfold Info.topDown
    rw [infoOf_encode]
    unfold Bmp.height
    cases b.topDown with
    | false => simp
    | true =>
      simp
      omega
  unfold Info.dest Bmp.row
  rw [htop]

theorem Depth.bytes_pos (d : Depth) : 0 < d.bytes := by cases d <;> simp [Depth.bytes]

/-- Byte `c` of the pixel in column `x` of row `y`. -/
theorem encode_pixel (hx : x < b.w) (hy : y < b.h) (hc : c < b.depth.bytes)
    (hp : look b.px x (b.row y) = some p) :
    byteAt b.encode (b.off + y * b.stride + (x * b.depth.bytes + c)) = b.depth.pixelByte p c := by
  have hpos := b.depth.bytes_pos
  have hge := b.off_ge
  have hcol : x * b.depth.bytes + c < b.stride :=
    calc x * b.depth.bytes + c < (x + 1) * b.depth.bytes := by
          rw [Nat.succ_mul]
          exact Nat.add_lt_add_left hc _
      _ ≤ b.w * b.depth.bytes := Nat.mul_le_mul_right _ hx
      _ ≤ b.stride := by
          unfold Bmp.stride
          omega
  have hrow : y * b.stride + b.stride ≤ b.stride * b.h := by
    rw [← Nat.succ_mul, Nat.mul_comm b.stride]
    exact Nat.mul_le_mul_right _ hy
  have hsub : b.off + y * b.stride + (x * b.depth.bytes + c) - b.off =
      b.stride * y + (x * b.depth.bytes + c) := by
    rw [Nat.mul_comm b.stride]
    omega
  have hx' : (x * b.depth.bytes + c) / b.depth.bytes = x := by
    rw [Nat.mul_comm, Nat.mul_add_div hpos, Nat.div_eq_of_lt hc, Nat.add_zero]
  have hc' : (x * b.depth.bytes + c) % b.depth.bytes = c := by
    rw [Nat.mul_comm, Nat.mul_add_mod, Nat.mod_eq_of_lt hc]
  rw [look_nat hx (row_lt hy)] at hp
  rw [encode_byte (by unfold Bmp.size; omega)]
  unfold Bmp.byte Bmp.rowByte
  rw [if_neg (by omega), if_neg (by omega), hsub, Nat.mul_add_div b.stride_pos,
    Nat.div_eq_of_lt hcol, Nat.add_zero, Nat.mul_add_mod, Nat.mod_eq_of_lt hcol, hx', hc', hp]
  exact if_pos hx

/-- Byte `c` of an entry of the palette. -/
theorem encode_palette (hk : k < b.depth.palette.length) (hc : c < 4) :
    byteAt b.encode (54 + k * 4 + c) = bgra c (b.depth.palette.getD k 0) := by
  have hoff := b.off_lt
  have hlt : 54 + k * 4 + c < b.off := by
    unfold Bmp.off
    omega
  rw [encode_byte (by omega)]
  unfold Bmp.byte
  rw [if_neg (by omega), if_pos hlt, show 54 + k * 4 + c - 54 = 4 * k + c by omega,
    Nat.mul_add_mod, Nat.mul_add_div (by decide), Nat.div_eq_of_lt hc, Nat.mod_eq_of_lt hc,
    Nat.add_zero]

-- ---------------------------------------------------------------------------
-- Pixels
-- ---------------------------------------------------------------------------

/-- The palette's entry for a pixel. -/
theorem shade_encode {pal : List U32} {small : pal.length ≤ 256} (hd : b.depth = .eight pal small)
    (hp : p ∈ pal ∧ lane 3 p = 0xFF#8) :
    (BitVec.ofNat 8 (pal.idxOf p)).toNat < (infoOf b.encode).palN ∧
    14 + (infoOf b.encode).biSize.toNat + (BitVec.ofNat 8 (pal.idxOf p)).toNat * 4 + 2 < b.size ∧
    shade b.encode (infoOf b.encode) (14 + (infoOf b.encode).biSize.toNat)
      (BitVec.ofNat 8 (pal.idxOf p)) = p := by
  have hidx := List.idxOf_lt_length_of_mem hp.1
  have hnat : (BitVec.ofNat 8 (pal.idxOf p)).toNat = pal.idxOf p := by
    rw [BitVec.toNat_ofNat]
    exact Nat.mod_eq_of_lt (by omega)
  have hpal : b.depth.palette = pal := by rw [hd]; rfl
  have hn : (infoOf b.encode).palN = pal.length := by
    have hclr : (BitVec.ofNat 32 pal.length).toNat = pal.length := by
      rw [BitVec.toNat_ofNat]
      exact Nat.mod_eq_of_lt (by omega)
    have hne : BitVec.ofNat 32 pal.length ≠ 0#32 := by
      intro h
      have h0 := congrArg BitVec.toNat h
      rw [hclr] at h0
      simp only [BitVec.toNat_ofNat, Nat.zero_mod] at h0
      omega
    unfold Info.palN
    rw [infoOf_encode]
    simp only [hpal]
    rw [if_pos hne, hclr]
  have hsize : 14 + (infoOf b.encode).biSize.toNat = 54 := by
    rw [infoOf_encode]
    rfl
  have hentry : pal.getD (pal.idxOf p) 0 = p := by
    rw [List.getD_eq_getElem _ _ hidx, List.getElem_idxOf]
  have hbyte (c : Nat) (hc : c < 4) : byteAt b.encode (54 + pal.idxOf p * 4 + c) = bgra c p := by
    rw [encode_palette (by rw [hpal]; exact hidx) hc, hpal, hentry]
  have hoff : b.off = 54 + 4 * pal.length := by rw [Bmp.off, hpal]
  have hlt := b.off_lt
  rw [hn, hnat, hsize]
  refine ⟨hidx, by omega, ?_⟩
  unfold shade
  rw [hn, hnat, if_pos hidx, hbyte 2 (by decide), hbyte 1 (by decide),
    ← Nat.add_zero (54 + pal.idxOf p * 4), hbyte 0 (by decide), ← hp.2]
  exact pack_lanes p

theorem repair_opaque (h : lane 3 p = 0xFF#8) : repair p = p := by
  unfold repair
  rw [if_neg]
  rw [h]
  decide

theorem mem_of_look {w h : Nat} {px : Pixels w h} (hp : look px x y = some p) : p ∈ px := by
  unfold look at hp
  split at hp
  · exact Vector.mem_of_getElem? hp
  · cases hp

/-- Every pixel of the file decodes to the picture's. -/
theorem pixelAt_encode (hx : x < b.w) (hy : y < b.h) (hp : look b.px x (b.row y) = some p) :
    pixelAt b.encode b.encode (infoOf b.encode) (14 + (infoOf b.encode).biSize.toNat)
      (offBits b.encode + y * (infoOf b.encode).stride) x = .ok (repair p) := by
  have hholds := b.holds p (mem_of_look hp)
  have hbpp : (infoOf b.encode).biBpp = b.depth.bpp := by rw [infoOf_encode]
  have hin (c : Nat) (hc : c < b.depth.bytes) :
      b.off + y * b.stride + (x * b.depth.bytes + c) < b.size := by
    have h := byte_in accepted_encode.off not_truncated (natAbs_encode (b := b) ▸ hy)
      (x := x) (c := c) (by rw [infoOf_encode]; exact hx) (by rw [hbpp, Depth.bpp_bytes]; exact hc)
    rwa [hbpp, Depth.bpp_bytes, offBits_encode, stride_encode] at h
  have hbyte (c : Nat) (hc : c < b.depth.bytes) := encode_pixel hx hy hc hp
  rw [offBits_encode, stride_encode]
  cases hd : b.depth with
  | eight pal small =>
    rw [hd] at hbpp hin hbyte hholds
    have h0 : byteAt b.encode (b.off + y * b.stride + x) = BitVec.ofNat 8 (pal.idxOf p) := by
      have h := hbyte 0 Nat.one_pos
      rwa [show Depth.bytes (.eight pal small) = 1 from rfl, Nat.mul_one, Nat.add_zero] at h
    have hlt := hin 0 Nat.one_pos
    rw [show Depth.bytes (.eight pal small) = 1 from rfl, Nat.mul_one, Nat.add_zero] at hlt
    obtain ⟨-, hpal, hshade⟩ := shade_encode hd hholds
    rw [pixel8_ok hbpp hlt (by rw [h0]; exact fun _ => hpal), h0, hshade, repair_opaque hholds.2]
  | twentyfour =>
    rw [hd] at hbpp hin hbyte hholds
    have h0 := hbyte 0 (by decide)
    have h1 := hbyte 1 (by decide)
    have h2 := hbyte 2 (by decide)
    have hlt := hin 2 (by decide)
    rw [show Depth.bytes .twentyfour = 3 from rfl, ← Nat.add_assoc] at h0 h1 h2 hlt
    rw [pixel24_ok hbpp hlt, h2, h1, ← Nat.add_zero (b.off + y * b.stride + x * 3), h0,
      repair_opaque hholds, ← show lane 3 p = 0xFF#8 from hholds]
    exact congrArg _ (pack_lanes p)
  | thirtytwo =>
    rw [hd] at hbpp hin hbyte
    have h0 := hbyte 0 (by decide)
    have h1 := hbyte 1 (by decide)
    have h2 := hbyte 2 (by decide)
    have h3 := hbyte 3 (by decide)
    have hlt := hin 3 (by decide)
    rw [show Depth.bytes .thirtytwo = 4 from rfl, ← Nat.add_assoc] at h0 h1 h2 h3 hlt
    rw [pixel32_ok hbpp hlt, h3, h2, h1, ← Nat.add_zero (b.off + y * b.stride + x * 4), h0]
    exact congrArg _ (pack_repair p)

-- ---------------------------------------------------------------------------
-- The picture
-- ---------------------------------------------------------------------------

theorem rows_encode (handle : U32) (px₀ : Pixels b.w b.h) :
    ∃ px : Pixels b.w b.h,
      decodeRows (infoOf b.encode) ⟨handle, b.w, b.h, px₀⟩ b.encode 14 b.encode (offBits b.encode)
        (b.size - offBits b.encode) = .ok ⟨handle, b.w, b.h, px⟩ ∧
      ∀ x < b.w, ∀ y < b.h, ∃ p, look b.px x y = some p ∧ look px x y = some (repair p) := by
  have hcell (y : Nat) (hy : y < b.h) (x : Nat) (hx : x < b.w) :
      ∃ p, look b.px x (b.row y) = some p := by
    have hlt := row_lt hy
    exact look_inside ⟨by omega, by omega, by omega, by omega⟩
  have hfill := ends_fill (g := px₀) (f := fun x y => pixelAt b.encode b.encode (infoOf b.encode)
    (14 + (infoOf b.encode).biSize.toNat) (offBits b.encode + y * (infoOf b.encode).stride) x)
    (fun y hy => dest_lt (infoOf b.encode) hy)
  obtain ⟨px, hpx⟩ := hfill.mpr fun y hy x hx => by
    obtain ⟨p, hp⟩ := hcell y hy x hx
    exact ⟨_, pixelAt_encode hx hy hp⟩
  refine ⟨px, ?_, fun x hx y hy => ?_⟩
  · have hh : (⟨handle, b.w, b.h, px₀⟩ : Bitmap).h = (infoOf b.encode).biH.natAbs :=
      natAbs_encode.symm
    rw [rows_filled hh not_truncated, hpx]
    rfl
  · -- the row of the file that holds row `y`
    have hrow : b.row y < b.h := row_lt hy
    have hback : b.row (b.row y) = y := by
      unfold Bmp.row
      split <;> omega
    obtain ⟨p, hp⟩ := hcell _ hrow x hx
    obtain ⟨q, hq, hlook⟩ := fill_look (fun j hj => dest_lt (infoOf b.encode) hj)
      (fun j hj k hk => dest_inj (infoOf b.encode) hj hk) hpx (b.row y) hrow x hx
    rw [pixelAt_encode hx hrow hp] at hq
    cases hq
    rw [dest_encode, hback] at hlook
    rw [hback] at hp
    exact ⟨p, hp, hlook⟩

/-- The file of a picture decodes to the picture, with alpha 0 taken for opaque, if there is a
slot and memory for it. -/
theorem decode_encode (room : Nat → Bool) (t : Bitmaps) (b : Bmp) :
    fromBmpMemory room t b.encode =
      match t.allocSlot room b.w b.h with
      | none => .ok (0, t)
      | some (slot, _) => .ok (t.next, t.fill slot
          { handle := t.next, w := b.w, h := b.h, px := b.px.map repair }) := by
  have hH : (infoOf b.encode).biH ≠ -2147483648 := by
    have hh := b.high
    rw [infoOf_encode]
    simp only
    unfold Bmp.height
    split <;> omega
  have hW : (infoOf b.encode).biW = b.w := by rw [infoOf_encode]
  rw [fromBmp_accepted accepted_encode, image_supported hH supported_encode, hW, natAbs_encode]
  cases halloc : t.allocSlot room b.w b.h with
  | none => rfl
  | some r =>
    obtain ⟨slot, bm⟩ := r
    obtain ⟨-, hhandle, hw, hh⟩ := alloc_spec halloc
    obtain ⟨handle, w, h, px₀⟩ := bm
    simp only [Int.toNat_natCast] at hhandle hw hh
    subst hhandle hw hh
    obtain ⟨px, hrows, hpx⟩ := rows_encode t.next px₀
    have heq : px = b.px.map repair := by
      refine Grids.ext fun x hx y hy => ?_
      obtain ⟨p, hp, hq⟩ := hpx x hx y hy
      rw [look_nat hx hy] at hp
      rw [hq, look_nat hx hy, Vector.getElem?_map, hp]
      rfl
    simp only [hrows, ok_bind, heq]

theorem lane_repair (h : lane 3 p = 0#8) :
    lane 3 (repair p) = 0xFF#8 ∧ lane 0 (repair p) = lane 0 p ∧ lane 1 (repair p) = lane 1 p ∧
      lane 2 (repair p) = lane 2 p := by
  have hrepair := toNat_pack (lane 0 p) (lane 1 p) (lane 2 p)
    (if lane 3 p ≠ 0#8 then lane 3 p else 0xFF#8)
  rw [pack_repair, if_neg (not_not_intro h)] at hrepair
  have h0 := (lane 0 p).isLt
  have h1 := (lane 1 p).isLt
  have h2 := (lane 2 p).isLt
  have h255 : (255#8).toNat = 255 := rfl
  rw [h255] at hrepair
  refine ⟨?_, ?_, ?_, ?_⟩
  all_goals
    apply BitVec.eq_of_toNat_eq
    rw [toNat_lane, channel, hrepair]
    omega

/-- The picture comes back from either order of rows, with alpha 0 taken for opaque and nothing
else changed. -/
theorem bmp_exact (room : Nat → Bool) (t : Bitmaps) (b : Bmp) :
    (fromBmpMemory room t b.encode =
      match t.allocSlot room b.w b.h with
      | none => .ok (0, t)
      | some (slot, _) => .ok (t.next, t.fill slot
          { handle := t.next, w := b.w, h := b.h, px := b.px.map repair })) ∧
    (∀ topDown, fromBmpMemory room t { b with topDown }.encode = fromBmpMemory room t b.encode) ∧
    ((∀ p ∈ b.px, lane 3 p ≠ 0#8) → b.px.map repair = b.px) ∧
    ∀ p, lane 3 p = 0#8 → lane 3 (repair p) = 0xFF#8 ∧ lane 0 (repair p) = lane 0 p ∧
      lane 1 (repair p) = lane 1 p ∧ lane 2 (repair p) = lane 2 p := by
  refine ⟨decode_encode room t b, fun topDown => ?_, fun h => ?_, fun p => lane_repair⟩
  · rw [decode_encode room t b, decode_encode room t { b with topDown }]
  · refine Vector.ext fun i hi => ?_
    rw [Vector.getElem_map]
    exact if_neg (h _ (Vector.getElem_mem hi))

/-- One pixel of alpha 0. -/
def clearDot : Bmp where
  w := 1
  h := 1
  px := #v[0x00332211#32]
  depth := .thirtytwo
  topDown := false
  wide := by decide
  high := by decide
  holds _ _ := trivial

theorem clear_becomes_opaque : ¬ ∀ (room : Nat → Bool) (t : Bitmaps) (b : Bmp),
    fromBmpMemory room t b.encode =
      match t.allocSlot room b.w b.h with
      | none => .ok (0, t)
      | some (slot, _) => .ok (t.next, t.fill slot
          { handle := t.next, w := b.w, h := b.h, px := b.px }) := by
  intro h
  have hdot := h (fun _ => true) ⟨[none], 0x0B170000⟩ clearDot
  rw [decode_encode] at hdot
  have hslots := congrArg (fun r => r.toOption.bind fun r => r.2.slots.head?) hdot
  have hpx : (clearDot.px.map repair).toList = clearDot.px.toList :=
    congrArg (fun r => r.elim [] fun b => b.elim [] fun b => b.px.toList) hslots
  exact absurd hpx (by decide +kernel)

end WineGlass.Gdi
