import WineGlass.Lib.Units

/-!
# `WideCharToMultiByte` and `MultiByteToWideChar`

Each of the two handlers takes its text into an array of the host, counted or up to its zero,
and gives the size of what it has there, or writes as much of it as the guest has room for.
-/

namespace WineGlass.Transcode

open CStrings Units

abbrev U16 := BitVec 16
abbrev U32 := BitVec 32
abbrev U64 := BitVec 64

/-- What fits an array of 2048, but for one. -/
def cap : Nat := 2047

/-- The text in the array: with its zero, when it is not counted and the zero is reached. -/
def source (k : Nat) (m : Mem) (src count : U32) : List (BitVec (8 * k)) :=
  if src = 0 then []
  else if count.toInt < 0 then
    let t := upto (fun i => unit k m (src + .ofNat 32 (k * i)).toNat 0) cap
    if t.length < cap then t ++ [0] else t
  else (List.range (min count.toNat cap)).map (unit k m src.toNat)

/-- What is returned and written. With a negative size the write leaves the array. -/
def deliver (k : Nat) (m : Mem) (dest room : U32) (out : List (BitVec (8 * k))) :
    Option (U64 × Mem) :=
  if room = 0 then some (.ofNat 64 out.length, m)
  else
    let n : Int := min out.length room.toInt
    if dest = 0 then some (.ofInt 64 n, m)
    else if n < 0 then none
    else some (.ofInt 64 n, put k m dest.toNat (out.take n.toNat))

def narrow (c : U16) : Byte := if c < 128 then c.setWidth 8 else chr '?'

def widen (c : Byte) : U16 := c.setWidth 16

abbrev Handler := Mem → U32 → U32 → U32 → U32 → Option (U64 × Mem)

def wideCharToMultiByte : Handler := fun m wstr cch mbstr cbmb =>
  deliver 1 m mbstr cbmb ((source 2 m wstr cch).map narrow)

def multiByteToWideChar : Handler := fun m mbstr cbmb wstr cch =>
  deliver 2 m wstr cch ((source 1 m mbstr cbmb).map widen)

-- ---------------------------------------------------------------------------
-- The protocol
-- ---------------------------------------------------------------------------

/-- A text in characters of `k` bytes. -/
def enc (k : Nat) (u : List Byte) : List (BitVec (8 * k)) := u.map (·.setWidth (8 * k))

/-- A count that says how long a text is, or that it has its zero at the end. -/
def Counts (count : U32) (u : List Byte) : Prop :=
  if count.toInt < 0 then ∃ t, 0 ∉ t ∧ u = t ++ [0] else count.toNat = u.length

/-- The guest has the ASCII text `u`, its zero included where there is one. -/
structure TextAt (k : Nat) (m : Mem) (p count : U32) (u : List Byte) : Prop where
  nonnull : p ≠ 0
  fits : p.toNat + k * u.length ≤ 2 ^ 32
  ascii : ∀ c ∈ u, c < 128
  units : ∀ i < u.length, (enc k u)[i]? = some (unit k m p.toNat i)
  counts : Counts count u

/-- A call with room for the text: all of it is written, and the opposite call gives it back. -/
structure Full (h h' : Handler) (k k' : Nat) (m : Mem) (src count : U32) (u : List Byte)
    (dest room : U32) : Prop where
  written : h m src count dest room =
    some (.ofNat 64 u.length, put k' m dest.toNat (enc k' u))
  back : ∀ count' dest', Counts count' u → dest' ≠ 0 →
    h' (put k' m dest.toNat (enc k' u)) dest count' dest' (.ofNat 32 u.length) =
      some (.ofNat 64 u.length,
        put k (put k' m dest.toNat (enc k' u)) dest'.toNat (enc k u))

/-- A call with size 0 gives the size to call with, a call with room for the text is full, and one
that has not enough fails without leaving its room. -/
structure Protocol (h h' : Handler) (k k' : Nat) (m : Mem) (src count : U32) (u : List Byte)
    (dest room : U32) : Prop where
  query : room = 0 → ∃ n : U32, h m src count dest room = some (n.setWidth 64, m) ∧
    n.toNat = u.length ∧ Full h h' k k' m src count u dest n
  enough : room ≠ 0 → u.length ≤ room.toInt → Full h h' k k' m src count u dest room
  small : room ≠ 0 → room.toInt < u.length → ∃ m', h m src count dest room = some (0, m') ∧
    ∀ i, i < dest.toNat ∨ dest.toNat + k' * room.toNat ≤ i → m' i = m i

-- ---------------------------------------------------------------------------
-- The text
-- ---------------------------------------------------------------------------

variable {k k' : Nat} {m : Mem} {src count dest room : U32} {u : List Byte}

theorem enc_length (k : Nat) (u : List Byte) : (enc k u).length = u.length := List.length_map _

theorem TextAt.single (h : TextAt k m src count u) (hi : i < u.length) (hk : 0 < k) :
    unit k m (src + .ofNat 32 (k * i)).toNat 0 = unit k m src.toNat i := by
  have hfits := h.fits
  have hlt : k * i < k * u.length := Nat.mul_lt_mul_of_pos_left hi hk
  have haddr : (src + BitVec.ofNat 32 (k * i)).toNat = src.toNat + k * i := by
    rw [BitVec.toNat_add, BitVec.toNat_ofNat]
    omega
  rw [unit, unit, haddr, Nat.mul_zero, Nat.add_zero]

/-- The array has the start of the text. -/
theorem source_eq (h : TextAt k m src count u) (hk : 0 < k) :
    source k m src count = (enc k u).take cap := by
  have hcounts := h.counts
  unfold Counts at hcounts
  rw [source, if_neg h.nonnull]
  split
  · rename_i hneg
    rw [if_pos hneg] at hcounts
    obtain ⟨t, ht, rfl⟩ := hcounts
    have hwide : (BitVec.setWidth (8 * k) (0 : Byte)) = 0 := by simp
    have hend : enc k (t ++ [0]) = enc k t ++ [0] := by
      rw [enc, enc, List.map_append, List.map_singleton, hwide]
    have hmem : ∀ c ∈ t, c.setWidth (8 * k) = 0 → c = 0 := fun c _ hc => by
      rw [← BitVec.toNat_inj, BitVec.toNat_setWidth, Nat.mod_eq_of_lt] at hc
      · exact BitVec.toNat_inj.1 hc
      · exact c.isLt.trans_le (Nat.pow_le_pow_right (by decide) (by omega))
    have hstr : Str (fun i => unit k m (src + .ofNat 32 (k * i)).toNat 0) (enc k t) := by
      refine str_of_getElem? (fun h0 => ?_) fun i hi => ?_
      · obtain ⟨c, hc, hc0⟩ := List.mem_map.1 h0
        exact ht (hmem c hc hc0 ▸ hc)
      · rw [enc_length] at hi
        have hlt : i < (t ++ [0]).length := by
          rw [List.length_append, List.length_singleton]
          omega
        rw [h.single hlt hk, ← h.units i hlt, hend]
    dsimp only
    rw [hstr.upto, hend, List.length_take, enc_length]
    split
    · rename_i hlt
      rw [List.take_of_length_le (by rw [enc_length]; omega), List.take_of_length_le]
      rw [List.length_append, enc_length, List.length_singleton]
      omega
    · rw [List.take_append_of_le_length]
      rw [enc_length]
      omega
  · rename_i hpos
    rw [if_neg hpos] at hcounts
    rw [hcounts]
    refine List.ext_getElem? fun i => ?_
    rw [List.getElem?_map, List.getElem?_take]
    by_cases hi : i < min u.length cap
    · rw [List.getElem?_range hi, if_pos (by omega), h.units i (by omega)]
      rfl
    · rw [List.getElem?_eq_none (by rw [List.length_range]; omega), Option.map_none]
      split
      · exact (List.getElem?_eq_none (by rw [enc_length]; omega)).symm
      · rfl

theorem TextAt.short (h : TextAt k m src count u) (hk : 0 < k) : u.length ≤ 2 ^ 32 := by
  have hfits := h.fits
  have hle := Nat.le_mul_of_pos_left u.length hk
  omega

-- ---------------------------------------------------------------------------
-- The handlers
-- ---------------------------------------------------------------------------

/-- A handler, by the sizes of the characters that it converts between. -/
structure Converts (h : Handler) (k k' : Nat) : Prop where
  pos : 0 < k
  pos' : 0 < k'
  eq : ∀ {m src count u} dest room, TextAt k m src count u →
    h m src count dest room = deliver k' m dest room ((enc k' u).take cap)

theorem wide_converts : Converts wideCharToMultiByte 2 1 where
  pos := by decide
  pos' := by decide
  eq {m src count u} dest room h := by
    have hmap : (enc 2 u).map narrow = enc 1 u := by
      rw [enc, enc, List.map_map]
      refine List.map_congr_left fun c hc => ?_
      have hlt := h.ascii c hc
      show narrow (c.setWidth 16) = c.setWidth 8
      rw [narrow, if_pos (by bv_omega)]
      bv_omega
    rw [wideCharToMultiByte, source_eq h (by decide)]
    exact congrArg (deliver 1 m dest room) ((List.map_take).trans (congrArg (List.take cap) hmap))

theorem multi_converts : Converts multiByteToWideChar 1 2 where
  pos := by decide
  pos' := by decide
  eq {m src count u} dest room h := by
    have hmap : (enc 1 u).map widen = enc 2 u := by
      rw [enc, enc, List.map_map]
      refine List.map_congr_left fun c _ => ?_
      show widen (c.setWidth 8) = c.setWidth 16
      rw [widen, BitVec.setWidth_eq]
    rw [multiByteToWideChar, source_eq h (by decide)]
    exact congrArg (deliver 2 m dest room) ((List.map_take).trans (congrArg (List.take cap) hmap))

-- ---------------------------------------------------------------------------
-- Calls
-- ---------------------------------------------------------------------------

variable {h h' : Handler} {out : List (BitVec (8 * k))}

theorem deliver_enough (hd : dest ≠ 0) (hroom : out.length ≤ room.toInt) :
    deliver k m dest room out = some (.ofNat 64 out.length, put k m dest.toNat out) := by
  unfold deliver
  by_cases h0 : room = 0
  · have hnil : out = [] := by
      subst h0
      exact List.length_eq_zero_iff.1 (Int.natCast_eq_zero.1 (Int.le_antisymm hroom (Int.natCast_nonneg _)))
    rw [if_pos h0, hnil]
    rfl
  · have hn : min (out.length : Int) room.toInt = out.length := min_eq_left hroom
    simp only [if_neg h0, if_neg hd, hn, Int.toNat_natCast, List.take_length,
      BitVec.ofInt_natCast]
    rw [if_neg (by omega)]

/-- A call gives no more than there is in the array, and only a size that the text has is too small
for nothing. -/
theorem deliver_some (hd : dest ≠ 0) (hlen : out.length ≤ cap) (hN : N ≤ 2 ^ 32)
    (hs : deliver k m dest room out = some (.ofNat 64 N, m')) :
    N ≤ out.length ∧ (room ≠ 0 → 0 ≤ room.toInt ∧ (out.length ≤ N ∨ room.toInt = N)) := by
  have hcap : cap = 2047 := rfl
  unfold deliver at hs
  split at hs
  · rename_i h0
    rw [Option.some.injEq, Prod.mk.injEq, ← BitVec.toNat_inj] at hs
    have heq := hs.1
    rw [BitVec.toNat_ofNat, BitVec.toNat_ofNat] at heq
    exact ⟨by omega, fun h => absurd h0 h⟩
  · dsimp only at hs
    split at hs
    · cases hs
    · rename_i hpos
      obtain ⟨n, hn⟩ := Int.eq_ofNat_of_zero_le (Int.not_lt.1 hpos)
      rw [hn, Option.some.injEq, Prod.mk.injEq, ← BitVec.toNat_inj, BitVec.ofInt_natCast] at hs
      have heq := hs.1
      rw [BitVec.toNat_ofNat, BitVec.toNat_ofNat] at heq
      omega

/-- What was written is a text for the opposite call. -/
theorem TextAt.written (ht : TextAt k m src count u) (hd : dest ≠ 0)
    (hfit : dest.toNat + k' * u.length ≤ 2 ^ 32) (hc : Counts count' u) :
    TextAt k' (put k' m dest.toNat (enc k' u)) dest count' u := by
  refine ⟨hd, hfit, ht.ascii, fun i hi => ?_, hc⟩
  have hlt : i < (enc k' u).length := by
    rwa [enc_length]
  rw [unit_put m hlt, List.getElem?_eq_getElem hlt]

theorem size_toInt (h : n ≤ cap) : (BitVec.ofNat 32 n).toInt = n := by
  have hle : n ≤ 2047 := h
  have hn : (BitVec.ofNat 32 n).toNat = n := by
    rw [BitVec.toNat_ofNat]
    omega
  rw [BitVec.toInt_eq_toNat_of_lt (by omega), hn]

theorem take_enc (h : u.length ≤ cap) : (enc k u).take cap = enc k u :=
  List.take_of_length_le (by rwa [enc_length])

/-- A call with room for a text that fits the array. -/
theorem full_of_le (hh : Converts h k k') (hh' : Converts h' k' k) (ht : TextAt k m src count u)
    (hd : dest ≠ 0) (hfit : dest.toNat + k' * u.length ≤ 2 ^ 32) (hcap : u.length ≤ cap)
    (hroom : u.length ≤ room.toInt) : Full h h' k k' m src count u dest room where
  written := by
    rw [hh.eq dest room ht, take_enc hcap, deliver_enough hd (by rwa [enc_length]), enc_length]
  back count' dest' hc hd' := by
    have hint := size_toInt hcap
    rw [hh'.eq dest' _ (ht.written hd hfit hc), take_enc hcap,
      deliver_enough hd' (by rw [enc_length, hint]), enc_length]

/-- A longer text is cut. -/
theorem Full.le_cap (hf : Full h h' k k' m src count u dest room) (hh : Converts h k k')
    (ht : TextAt k m src count u) (hd : dest ≠ 0) : u.length ≤ cap := by
  have hw := hf.written
  rw [hh.eq dest room ht] at hw
  have hle : ((enc k' u).take cap).length ≤ cap := List.length_take_le _ _
  exact (deliver_some hd hle (ht.short hh.pos) hw).1.trans hle

/-- The protocol is kept exactly by a text that fits the array, in a call that asks for its size or
has room for it. -/
theorem protocol_iff (hh : Converts h k k') (hh' : Converts h' k' k) (ht : TextAt k m src count u)
    (hd : dest ≠ 0) (hfit : dest.toNat + k' * u.length ≤ 2 ^ 32) :
    Protocol h h' k k' m src count u dest room ↔
      u.length ≤ cap ∧ (room = 0 ∨ u.length ≤ room.toInt) := by
  constructor
  · rintro ⟨hquery, henough, hsmall⟩
    by_cases h0 : room = 0
    · obtain ⟨n, -, -, hf⟩ := hquery h0
      exact ⟨hf.le_cap hh ht hd, .inl h0⟩
    · by_cases hle : u.length ≤ room.toInt
      · exact ⟨(henough h0 hle).le_cap hh ht hd, .inr hle⟩
      · obtain ⟨m', hs, -⟩ := hsmall h0 (Int.not_le.1 hle)
        rw [hh.eq dest room ht] at hs
        have hlen : ((enc k' u).take cap).length ≤ cap := List.length_take_le _ _
        obtain ⟨-, hroom⟩ := deliver_some (N := 0) hd hlen (by decide) hs
        obtain ⟨hpos, hnil | hzero⟩ := hroom h0
        · have hcap : cap = 2047 := rfl
          rw [List.length_take, enc_length] at hnil
          omega
        · exact absurd (BitVec.toInt_inj.1 hzero) h0
  · rintro ⟨hcap, hroom⟩
    have hle : u.length ≤ 2047 := hcap
    refine ⟨fun h0 => ?_, fun _ hle => ?_, fun h0 hlt => ?_⟩
    · have hint := size_toInt hcap
      refine ⟨.ofNat 32 u.length, ?_, ?_, ?_⟩
      · rw [hh.eq dest room ht, take_enc hcap, deliver, if_pos h0, enc_length]
        congr 2
        bv_omega
      · rw [BitVec.toNat_ofNat]
        omega
      · exact full_of_le hh hh' ht hd hfit hcap (by rw [hint])
    · exact full_of_le hh hh' ht hd hfit hcap hle
    · exact absurd hlt (Int.not_lt.2 (hroom.resolve_left h0))

/-- The two handlers keep the protocol for the texts of at most 2047 characters, as long as no call
has too little room. -/
theorem transcode_law (hd : dest ≠ 0) :
    (TextAt 2 m src count u → dest.toNat + u.length ≤ 2 ^ 32 →
      (Protocol wideCharToMultiByte multiByteToWideChar 2 1 m src count u dest room ↔
        u.length ≤ cap ∧ (room = 0 ∨ u.length ≤ room.toInt))) ∧
    (TextAt 1 m src count u → dest.toNat + 2 * u.length ≤ 2 ^ 32 →
      (Protocol multiByteToWideChar wideCharToMultiByte 1 2 m src count u dest room ↔
        u.length ≤ cap ∧ (room = 0 ∨ u.length ≤ room.toInt))) :=
  ⟨fun ht hfit => protocol_iff wide_converts multi_converts ht hd (by rwa [Nat.one_mul]),
    fun ht hfit => protocol_iff multi_converts wide_converts ht hd hfit⟩

/-- `ab`, with its zero, at `0x1000`. -/
def ab (k : Nat) : Mem := put k (fun _ => 0) 0x1000 (enc k (str "ab" ++ [0]))

theorem ab_text (hk : k = 1 ∨ k = 2) : TextAt k (ab k) 0x1000 0xFFFFFFFF (str "ab" ++ [0]) := by
  have hcounts : Counts 0xFFFFFFFF (str "ab" ++ [0]) := ⟨str "ab", by decide, rfl⟩
  rcases hk with rfl | rfl
  · exact ⟨by decide, by decide, by decide, by decide, hcounts⟩
  · exact ⟨by decide, by decide, by decide, by decide, hcounts⟩

theorem transcode_law_ab :
    Protocol wideCharToMultiByte multiByteToWideChar 2 1 (ab 2) 0x1000 0xFFFFFFFF (str "ab" ++ [0])
      0x2000 0 ∧
    Protocol multiByteToWideChar wideCharToMultiByte 1 2 (ab 1) 0x1000 0xFFFFFFFF (str "ab" ++ [0])
      0x2000 3 := by
  constructor
  · exact ((transcode_law (by decide)).1 (ab_text (.inr rfl)) (by decide)).2 ⟨by decide, .inl rfl⟩
  · exact ((transcode_law (by decide)).2 (ab_text (.inl rfl)) (by decide)).2 ⟨by decide, .inr (by decide)⟩

/-- A buffer of one byte gets the first of three, and the call succeeds. -/
theorem small_buffer_cut : ¬ ∀ m src count u dest room, TextAt 2 m src count u → dest ≠ 0 →
    dest.toNat + u.length ≤ 2 ^ 32 →
    Protocol wideCharToMultiByte multiByteToWideChar 2 1 m src count u dest room := by
  intro hall
  have hp := hall (ab 2) 0x1000 0xFFFFFFFF (str "ab" ++ [0]) 0x2000 1 (ab_text (.inr rfl)) (by decide)
    (by decide)
  rw [protocol_iff wide_converts multi_converts (ab_text (.inr rfl)) (by decide) (by decide)] at hp
  exact absurd hp.2 (by decide)

end WineGlass.Transcode
