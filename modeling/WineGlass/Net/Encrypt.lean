import WineGlass.Net.Schannel

/-!
# EncryptMessage

The handler gives the plaintext of the data buffer to `SSLWrite` and cuts what that has
written into three pieces: five bytes for the header buffer, 32 for the trailer buffer, and
the rest for the data buffer as far as it fits.
-/

namespace WineGlass.Schannel

variable {σ : Type}

/-- The data, header and trailer buffers of a message, the last of each. -/
structure Slots where
  data : Option SecBuf := none
  header : Option SecBuf := none
  trailer : Option SecBuf := none

def Slots.note (s : Slots) (b : SecBuf) : Slots :=
  if b.bufferType = 1 then { s with data := some b }
  else if b.bufferType = 7 then { s with header := some b }
  else if b.bufferType = 6 then { s with trailer := some b }
  else s

def scan (msg : List SecBuf) : Slots := msg.foldl Slots.note {}

/-- What `SSLWrite` does: the chunks it passes to its callback, and whether it gave `noErr`. -/
structure Written (σ : Type) where
  ssl : σ
  chunks : List (List Byte)
  noErr : Bool
  processed : Nat

/-- What is written to each of the three buffers, its length being stored in the descriptor. -/
structure Pieces where
  header : Option (List Byte) := none
  data : Option (List Byte) := none
  trailer : Option (List Byte) := none
  deriving DecidableEq, Repr

/-- Whether the header buffer gets the first five bytes. -/
def takesHeader (header : Option SecBuf) (len : Nat) : Bool :=
  header.any fun b => b.pvBuffer ≠ 0 && 5 ≤ b.size && 5 ≤ len

/-- What the data and trailer buffers get of the bytes behind the header, if there are any. -/
def cutPayload (trailer : Option SecBuf) (data : SecBuf) (payload : List Byte) :
    Option (List Byte) × Option (List Byte) :=
  match trailer with
  | some t =>
    let trlActual := if 32 < payload.length then 32 else 0
    let dataActual := payload.length - trlActual
    let wlen := min dataActual data.size
    (if 0 < dataActual then some (payload.take wlen) else none,
      if 0 < trlActual ∧ t.pvBuffer ≠ 0 ∧ trlActual ≤ t.size then
        some ((payload.drop wlen).take trlActual)
      else none)
  | none => (some (payload.take (min payload.length data.size)), none)

/-- The distribution of `out`. -/
def distribute (s : Slots) (data : SecBuf) (out : List Byte) : Pieces :=
  if 0 < out.length then
    let header := if takesHeader s.header out.length then some (out.take 5) else none
    let payload := out.drop (if takesHeader s.header out.length then 5 else 0)
    if 0 < payload.length then
      let (d, t) := cutPayload s.trailer data payload
      { header, data := d, trailer := t }
    else { header }
  else {}

/-- The handler up to the call of `SSLWrite`: the data buffer, and the context after it. -/
def encrypts (sslWrite : σ → List Byte → Written σ) (c : Option (Ctx σ)) (msg : List SecBuf) :
    Option (SecBuf × Ctx σ) :=
  c.bind fun c =>
  c.session.bind fun ssl =>
  (scan msg).data.bind fun data =>
    if data.pvBuffer = 0 ∨ data.size = 0 then none
    else
      let w := sslWrite ssl data.bytes
      let c := w.chunks.foldl Ctx.bufWriteCb { c with ssl := some w.ssl, outBuf := [] }
      if !w.noErr && w.processed == 0 then none else some (data, c)

/-- `EncryptMessage`; `none` is `SEC_E_INTERNAL_ERROR`, all else `SEC_E_OK`. -/
def encryptMessage (sslWrite : σ → List Byte → Written σ) (c : Option (Ctx σ))
    (msg : List SecBuf) : Option (Ctx σ × Pieces) :=
  (encrypts sslWrite c msg).map fun r => (r.2, distribute (scan msg) r.1 r.2.outBuf)

/-- `SecPkgContext_StreamSizes` -/
structure StreamSizes where
  header : U32
  trailer : U32
  maximumMessage : U32
  buffers : U32
  blockSize : U32
  deriving DecidableEq, Repr

/-- `QueryContextAttributes` for `SECPKG_ATTR_STREAM_SIZES`. -/
def streamSizes : StreamSizes := ⟨5, 36, 16384, 4, 16⟩

-- ---------------------------------------------------------------------------
-- Delivery
-- ---------------------------------------------------------------------------

/-- What a buffer holds for the caller afterwards: what was written to it, if it fits. One that
was not written to keeps its size, and so what it held before. -/
def holds (slot : Option SecBuf) (piece : Option (List Byte)) : Option (List Byte) :=
  match slot, piece with
  | none, _ => some []
  | some b, some w => if w.length ≤ b.size then some w else none
  | some b, none => if b.size = 0 then some [] else none

/-- The bytes the three buffers hold, in the order header, data, trailer. -/
def delivered (s : Slots) (p : Pieces) : Option (List Byte) :=
  (holds s.header p.header).bind fun h =>
  (holds s.data p.data).bind fun d =>
  (holds s.trailer p.trailer).map fun t => h ++ d ++ t

/-- A buffer that is there and stands for some bytes. -/
def filled (slot : Option SecBuf) : Bool := slot.any fun b => b.size ≠ 0

/-- How `len` bytes are to fit in the buffers. -/
def Fits (s : Slots) (data : SecBuf) (len : Nat) : Prop :=
  let payload := len - if takesHeader s.header len then 5 else 0
  (takesHeader s.header len ∨ ¬ filled s.header) ∧ 0 < payload ∧
    if 32 < payload ∧ s.trailer.isSome then
      payload ≤ 32 + data.size ∧ s.trailer.any fun t => t.pvBuffer ≠ 0 && 32 ≤ t.size
    else payload ≤ data.size ∧ ¬ filled s.trailer

instance (s : Slots) (data : SecBuf) (len : Nat) : Decidable (Fits s data len) := by
  unfold Fits
  infer_instance

theorem holds_written (h : w.length ≤ b.size) : holds (some b) (some w) = some w := if_pos h

theorem holds_kept : holds slot none = some [] ↔ ¬ filled slot := by
  cases slot <;> simp [holds, filled]

theorem holds_none (h : holds slot none = some w) : w = [] ∧ ¬ filled slot := by
  cases slot with
  | none => simpa [holds, filled, eq_comm] using h
  | some b =>
    simp only [holds] at h
    split at h
    · rename_i hb
      exact ⟨(Option.some.inj h).symm, by simp [filled, hb]⟩
    · cases h

/-- What the header buffer holds: its part of `out`, or nothing that is not its own. -/
theorem holds_header (header : Option SecBuf) (out : List Byte) :
    holds header (if takesHeader header out.length then some (out.take 5) else none) =
      if takesHeader header out.length ∨ ¬ filled header then
        some (out.take (if takesHeader header out.length then 5 else 0)) else none := by
  cases header with
  | none => simp [takesHeader, filled, holds]
  | some b =>
    by_cases ht : takesHeader (some b) out.length
    · have hsize : 5 ≤ b.size := by
        simp only [takesHeader, Option.any_some, Bool.and_eq_true, decide_eq_true_eq] at ht
        exact ht.1.2
      simp only [ht, if_true, true_or]
      exact holds_written (by rw [List.length_take]; omega)
    · simp [ht, holds, filled]

theorem take_self (l : List Byte) (n : Nat) : l.take n = l ↔ l.length ≤ n := by
  refine ⟨fun h => ?_, List.take_of_length_le⟩
  rw [← h, List.length_take]
  omega

/-- What the data and trailer buffers hold together is the payload. -/
theorem holds_payload (hpos : 0 < payload.length) :
    ((holds (some data) (cutPayload trailer data payload).1).bind fun d =>
      (holds trailer (cutPayload trailer data payload).2).map fun t => d ++ t) = some payload ↔
    if 32 < payload.length ∧ trailer.isSome then
      payload.length ≤ 32 + data.size ∧ trailer.any fun t => t.pvBuffer ≠ 0 && 32 ≤ t.size
    else payload.length ≤ data.size ∧ ¬ filled trailer := by
  have hkeep : ∀ {n slot}, ((holds slot none).map fun t => payload.take n ++ t) = some payload ↔
      payload.length ≤ n ∧ ¬ filled slot := by
    intro n slot
    rw [Option.map_eq_some_iff]
    constructor
    · rintro ⟨w, hw, h⟩
      obtain ⟨rfl, hempty⟩ := holds_none hw
      rw [List.append_nil, take_self] at h
      exact ⟨h, hempty⟩
    · rintro ⟨hle, hempty⟩
      exact ⟨[], holds_kept.2 hempty, by rw [List.append_nil, take_self]; exact hle⟩
  cases trailer with
  | none =>
    have hfit : (payload.take (min payload.length data.size)).length ≤ data.size := by
      rw [List.length_take]
      omega
    simp only [cutPayload, holds_written hfit, Option.bind_some, Option.isSome_none,
      Bool.false_eq_true, and_false, if_false]
    rw [hkeep]
    exact and_congr_left fun _ => by omega
  | some t =>
    by_cases hlong : 32 < payload.length
    · have hdata : 0 < payload.length - 32 := by omega
      simp only [cutPayload, hlong, if_true, hdata, Option.isSome_some, Nat.zero_lt_succ, true_and,
        Option.any_some, Bool.and_eq_true, decide_eq_true_eq]
      rw [holds_written (by rw [List.length_take]; omega), Option.bind_some]
      split
      · rename_i hfits
        rw [holds_written (by rw [List.length_take]; omega), Option.map_some, Option.some.injEq,
          ← List.take_add, take_self, and_iff_left hfits]
        omega
      · rename_i hno
        rw [hkeep]
        exact iff_of_false (fun h => by omega) fun h => hno h.2
    · simp only [cutPayload, hlong, if_false, Nat.sub_zero, hpos, if_true, Nat.lt_irrefl, false_and]
      rw [holds_written (by rw [List.length_take]; omega), Option.bind_some, hkeep]
      exact and_congr_left fun _ => by omega

theorem delivered_distribute (hdata : s.data = some data) (hn : data.size ≠ 0) :
    delivered s (distribute s data out) = some out ↔ Fits s data out.length := by
  have hkept : ∀ d, holds (some data) none ≠ some d := by
    intro d h
    obtain ⟨-, hempty⟩ := holds_none h
    exact hempty (by simp [filled, hn])
  generalize hpos : (if takesHeader s.header out.length then 5 else 0) = pos
  by_cases hpay : 0 < (out.drop pos).length
  · have hlen : 0 < out.length := by
      rw [List.length_drop] at hpay
      omega
    have hparts : delivered s (distribute s data out) =
        (holds s.header
          (if takesHeader s.header out.length then some (out.take 5) else none)).bind fun h =>
        ((holds (some data) (cutPayload s.trailer data (out.drop pos)).1).bind fun d =>
          (holds s.trailer (cutPayload s.trailer data (out.drop pos)).2).map fun t =>
            d ++ t).map fun r => h ++ r := by
      simp only [delivered, distribute, hlen, if_true, hpos, hpay, hdata, Option.map_bind,
        Option.map_map, Function.comp_def, List.append_assoc]
    rw [hparts, holds_header, hpos, Fits, hpos, ← List.length_drop, ← holds_payload hpay]
    split
    · rename_i hhead
      rw [Option.bind_some, Option.map_eq_some_iff, and_iff_right hhead, and_iff_right hpay]
      constructor
      · rintro ⟨r, hr, h⟩
        rw [hr, List.append_cancel_left (h.trans (List.take_append_drop pos out).symm)]
      · intro h
        exact ⟨_, h, List.take_append_drop ..⟩
    · rename_i hhead
      exact iff_of_false nofun fun h => hhead h.1
  · have hnone : delivered s (distribute s data out) = none := by
      have hpiece : (distribute s data out).data = none := by
        unfold distribute
        split
        · simp only [hpos, hpay, if_false]
        · rfl
      rw [delivered, hdata, hpiece, Option.eq_none_iff_forall_ne_some.2 hkept]
      simp
    rw [hnone, Fits, hpos, ← List.length_drop]
    exact iff_of_false nofun fun h => hpay h.2.1

-- ---------------------------------------------------------------------------
-- The law
-- ---------------------------------------------------------------------------

variable {sslWrite : σ → List Byte → Written σ} {c : Option (Ctx σ)}

theorem encrypts_data (h : encrypts sslWrite c msg = some (data, c')) :
    (scan msg).data = some data ∧ data.size ≠ 0 := by
  obtain ⟨c, -, h⟩ := Option.bind_eq_some_iff.1 h
  obtain ⟨ssl, -, h⟩ := Option.bind_eq_some_iff.1 h
  obtain ⟨d, hd, h⟩ := Option.bind_eq_some_iff.1 h
  split at h
  · cases h
  rename_i hn
  dsimp only at h
  split at h
  · cases h
  · cases h
    exact ⟨hd, fun h0 => hn (.inr h0)⟩

/-- After the call the buffers hold what `SSLWrite` has written. -/
def Delivers (sslWrite : σ → List Byte → Written σ) (c : Option (Ctx σ)) (msg : List SecBuf) :
    Prop :=
  ∀ c' p, encryptMessage sslWrite c msg = some (c', p) → delivered (scan msg) p = some c'.outBuf

/-- A call that succeeds delivers what was written if and only if that fits. -/
theorem encrypt_law (sslWrite : σ → List Byte → Written σ) (c : Option (Ctx σ))
    (msg : List SecBuf) : Delivers sslWrite c msg ↔
      ∀ data c', encrypts sslWrite c msg = some (data, c') →
        Fits (scan msg) data c'.outBuf.length := by
  constructor
  · intro h data c' he
    obtain ⟨hdata, hn⟩ := encrypts_data he
    refine (delivered_distribute hdata hn).1 (h c' _ ?_)
    rw [encryptMessage, he, Option.map_some]
  · intro h c' p he
    obtain ⟨⟨data, c₁⟩, hd, heq⟩ := Option.map_eq_some_iff.1 he
    obtain ⟨rfl, rfl⟩ := Prod.mk.inj heq
    obtain ⟨hdata, hn⟩ := encrypts_data hd
    exact (delivered_distribute hdata hn).2 (h data _ hd)

/-- With the sizes that `streamSizes` gives, `spare` bytes more than the header and the plaintext
fit when the payload is longer than 32 bytes and `spare` is at most 32. -/
theorem fits_advertised (spare : Nat) (hh : s.header = some header) (ht : s.trailer = some trailer)
    (hheader : header.pvBuffer ≠ 0 ∧ header.size = streamSizes.header.toNat)
    (htrailer : trailer.pvBuffer ≠ 0 ∧ trailer.size = streamSizes.trailer.toNat) :
    Fits s data (5 + data.size + spare) ↔ 32 < data.size + spare ∧ spare ≤ 32 := by
  have htakes : takesHeader s.header (5 + data.size + spare) = true := by
    have hlen : 5 ≤ 5 + data.size + spare := by omega
    rw [hh, takesHeader, Option.any_some, hheader.2]
    simp [hlen, streamSizes, show ¬ header.pvBuffer = 0#32 from hheader.1]
  have hfilled : filled s.trailer = true := by
    rw [ht, filled, Option.any_some, htrailer.2]
    rfl
  have hroom : (s.trailer.any fun t => t.pvBuffer ≠ 0 && 32 ≤ t.size) = true := by
    rw [ht, Option.any_some, htrailer.2]
    simp [streamSizes, show ¬ trailer.pvBuffer = 0#32 from htrailer.1]
  have hsome : s.trailer.isSome = true := by rw [ht, Option.isSome_some]
  simp only [Fits, htakes, hfilled, hroom, hsome, if_true, true_or, true_and, and_true, not_true,
    and_false]
  split
  · omega
  · exact iff_of_false nofun fun h => by omega

def buf (bufferType pvBuffer : U32) (n : Nat) (h : n < 2 ^ 32) : SecBuf :=
  ⟨bufferType, pvBuffer, .replicate n 0, by rwa [List.length_replicate]⟩

/-- A header, one byte of data and a trailer of the sizes that are advertised. -/
def oneByte : List SecBuf :=
  [buf 7 0x1000 5 (by decide), buf 1 0x2000 1 (by decide), buf 6 0x3000 36 (by decide)]

/-- A session that has shaken hands. -/
def ready : Ctx Unit := ⟨true, some (), [], 0, [], true, 0x9000, 0x9001⟩

/-- A record header, and 24 bytes more than the plaintext. -/
def sealed (_ : Unit) (plain : List Byte) : Written Unit :=
  ⟨(), [[23, 3, 3, 0, 25], .replicate (plain.length + 24) 0xAA], true, plain.length⟩

/-- Of the record for one byte of plaintext 24 bytes are lost. -/
theorem short_payload_cut : ¬ ∀ msg, Delivers sealed (some ready) msg := by
  intro h
  have hd := (delivered_distribute (s := scan oneByte) rfl (by decide)).1 (h oneByte _ _ rfl)
  have hfits := (fits_advertised 24 rfl rfl (by decide) (by decide)).1 hd
  exact absurd hfits.1 (by decide)

end WineGlass.Schannel
