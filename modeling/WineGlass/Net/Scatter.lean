import WineGlass.Lib.Spread
import WineGlass.Net.Overlapped

/-!
# Scatter and gather

What `WSASend` hands to the host and `WSARecv` writes, against the buffers that the guest has
listed. The two handlers read the array at steps of eight bytes, up to sixteen elements of it, and
read it again when they copy: a null pointer is passed over in the copies, not in the lengths.
-/

namespace WineGlass.Overlapped

open Fields Completion Spread

/-- Element `i` of the guest's array, its pointer and its length. -/
def Guest.buffer (g : Guest) (m : Mem) (i : Nat) : Nat × Nat :=
  let p := (g.args64 1).toNat
  if g.is64 then (get m ⟨p + 16 * i + 8, 8⟩, get m ⟨p + 16 * i, 4⟩)
  else (get m ⟨p + 8 * i + 4, 4⟩, get m ⟨p + 8 * i, 4⟩)

def pointed (e : Nat × Nat) : Bool := e.1 ≠ 0

/-- The buffers of the array. A null pointer has none. -/
def Guest.buffers (g : Guest) (m : Mem) : List (Nat × Nat) :=
  ((List.range (g.args 2).toNat).map (g.buffer m)).filter pointed

/-- What is in them. -/
def Guest.content (g : Guest) (m : Mem) : List (BitVec 8) :=
  (g.buffers m).flatMap fun e => m.bytes e.1 e.2

/-- The element that the code reads. -/
def element (m : Mem) (g : Guest) (i : Nat) : Nat × Nat :=
  ((wsabuf m (g.args 1) i).2.toNat, (wsabuf m (g.args 1) i).1.toNat)

def elements (m : Mem) (g : Guest) : List (Nat × Nat) :=
  (List.range (bufCount g)).map (element m g)

/-- What the host finds in the buffer for a send, whose memory had `junk`. -/
def handed (junk : Nat → BitVec 8) (m : Mem) (g : Guest) : List (BitVec 8) :=
  gather m g ++ (List.range (total m g - (gather m g).length)).map junk

/-- What the host takes of it. -/
def takes (host : Host) (s : State) (g : Guest) : Option Nat :=
  (lookupFd s (g.args 0)).bind fun fd =>
    if g.args 2 = 0 ∨ g.args 1 = 0 then none
    else if total s.mem g = 0 then some 0
    else (host.send fd (gather s.mem g) (total s.mem g)).toOption

/-- What the host has received. -/
def gets (host : Host) (s : State) (g : Guest) : Option (List (BitVec 8)) :=
  (lookupFd s (g.args 0)).bind fun fd =>
    if g.args 2 = 0 ∨ g.args 1 = 0 then none
    else (host.recv fd (min (total s.mem g) 65536)).toOption

/-- The writes of `scatter`. -/
def stores (bufs : U32) : List Nat → List (BitVec 8) → Mem → List (Nat × List (BitVec 8))
  | [], _, _ => []
  | i :: is, got, m =>
    if got = [] then []
    else
      let e := wsabuf m bufs i
      let n := min e.1.toNat got.length
      if e.2 ≠ 0 ∧ 0 < n then
        (e.2.toNat, got.take n) :: stores bufs is (got.drop n) (m.write e.2.toNat (got.take n))
      else stores bufs is (got.drop n) m

def Mem.apply (m : Mem) (ws : List (Nat × List (BitVec 8))) : Mem :=
  ws.foldl (fun m w => m.write w.1 w.2) m

/-- A guest that asks for the count has it. -/
def Reported (g : Guest) (r : Answer) (k : Nat) : Prop :=
  g.args 3 ≠ 0 → (r.state.mem.get32 (g.args 3)).toNat = k

/-- The `k` bytes that the host takes are the first that the guest has listed. -/
structure SendFaithful (host : Host) (junk : Nat → BitVec 8) (s : State) (g : Guest) (k : Nat) :
    Prop where
  bytes : (handed junk s.mem g).take k = (g.content s.mem).take k
  listed : k ≤ (g.content s.mem).length
  reported : Reported g (wsaSend host s g) k

/-- The received bytes are put into the buffers in their order, and nothing else is written but the
count. -/
structure RecvFaithful (host : Host) (s : State) (g : Guest) (got : List (BitVec 8))
    (ws : List (Nat × List (BitVec 8))) : Prop where
  mem : (wsaRecv host s g).state.mem =
    (count s g (s.mem.apply ws) (.ofNat 32 got.length)).state.mem
  spread : ws = Spread.spread (g.buffers s.mem) got
  all : joined ws = got
  reported : Reported g (wsaRecv host s g) got.length

/-- The guest can tell `k` from the count. -/
def Countable (g : Guest) (k : Nat) : Prop :=
  g.args 3 ≠ 0 → k < 2 ^ 32 ∧ (g.args 5 ≠ 0 → Kept g (.ofNat 32 k))

/-- An array in the low 4 GB; a 64-bit guest has its buffers there too, and zeros between the
lengths and the pointers. -/
structure WellFormed (m : Mem) (g : Guest) : Prop where
  fits : (g.args64 1).toNat + (if g.is64 then 16 else 8) * (g.args 2).toNat ≤ 2 ^ 32
  clean : g.is64 → ∀ i < (g.args 2).toNat,
    get m ⟨(g.args64 1).toNat + 16 * i + 4, 4⟩ = 0 ∧
      get m ⟨(g.args64 1).toNat + 16 * i + 12, 4⟩ = 0

/-- No buffer is over the array. -/
def Beside (m : Mem) (g : Guest) : Prop :=
  ∀ e ∈ elements m g, e.1 = 0 ∨ e.1 + e.2 ≤ (g.args 1).toNat ∨
    (g.args 1).toNat + 8 * bufCount g ≤ e.1

/-- The bytes that a 32-bit guest has in the buffers of its first sixteen elements are enough. -/
def Gathered (m : Mem) (g : Guest) (k : Nat) : Prop :=
  if g.is64 then k = 0 else k ≤ room ((elements m g).filter pointed)

/-- None of the bytes is for a null pointer of a 32-bit guest. -/
def Placed (m : Mem) (g : Guest) (got : List (BitVec 8)) : Prop :=
  if g.is64 then got = [] else ∀ w ∈ spread (elements m g) got, w.1 ≠ 0

instance (m : Mem) (g : Guest) : Decidable (Beside m g) := inferInstanceAs (Decidable (∀ _ ∈ _, _))

instance (m : Mem) (g : Guest) (k : Nat) : Decidable (Gathered m g k) := by
  unfold Gathered
  infer_instance

instance (m : Mem) (g : Guest) (got : List (BitVec 8)) : Decidable (Placed m g got) := by
  unfold Placed
  infer_instance

-- ---------------------------------------------------------------------------
-- The array
-- ---------------------------------------------------------------------------

variable {m : Mem} {g : Guest} {s : State} {host : Host}

theorem args64_32 (h : g.is64 = false) (i : Nat) : g.args64 i = (g.args i).setWidth 64 := by
  simp [Guest.args, Guest.args64, h]

theorem args_toNat (h : g.is64 = false) (i : Nat) : (g.args64 i).toNat = (g.args i).toNat := by
  rw [args64_32 h, BitVec.toNat_setWidth]
  exact Nat.mod_eq_of_lt ((g.args i).isLt.trans (by decide))

theorem get_toNat (m : Mem) (p : Nat) : (BitVec.ofNat 32 (get m ⟨p, 4⟩)).toNat = get m ⟨p, 4⟩ := by
  rw [BitVec.toNat_ofNat]
  exact Nat.mod_eq_of_lt get_lt

/-- The element at an address that does not wrap. -/
theorem element_eq (h : (g.args 1).toNat + 8 * i < 2 ^ 32) : element m g i =
    (get m ⟨(g.args 1).toNat + 8 * i + 4, 4⟩, get m ⟨(g.args 1).toNat + 8 * i, 4⟩) := by
  have haddr : (g.args 1 + BitVec.ofNat 32 (8 * i)).toNat = (g.args 1).toNat + 8 * i := by
    rw [BitVec.toNat_add, BitVec.toNat_ofNat]
    omega
  simp only [element, wsabuf, Mem.get32, haddr, get_toNat]

theorem bufCount_le (g : Guest) : bufCount g ≤ (g.args 2).toNat ∧ bufCount g ≤ 16 := by
  unfold bufCount
  omega

/-- A 32-bit guest has what the code reads at the start of its array. -/
theorem buffers_elements (hw : WellFormed m g) (h : g.is64 = false) :
    ∃ rest, g.buffers m = (elements m g ++ rest).filter pointed := by
  have hfits := hw.fits
  have hle := bufCount_le g
  rw [h, if_neg Bool.false_ne_true, args_toNat h] at hfits
  have hsplit : (g.args 2).toNat = bufCount g + ((g.args 2).toNat - bufCount g) := by
    omega
  have hsame : elements m g = (List.range (bufCount g)).map (g.buffer m) := by
    refine List.map_congr_left fun i hi => ?_
    have hi := List.mem_range.1 hi
    rw [element_eq (by omega), Guest.buffer, h, if_neg Bool.false_ne_true, args_toNat h]
  rw [Guest.buffers, hsplit, List.range_add, List.map_append, ← hsame]
  exact ⟨_, rfl⟩

/-- Of the array of a 64-bit guest the code reads null pointers only. -/
theorem elements_null (hw : WellFormed m g) (h : g.is64 = true) : ∀ e ∈ elements m g, e.1 = 0 := by
  intro e he
  obtain ⟨j, hj, rfl⟩ := List.mem_map.1 he
  have hj := List.mem_range.1 hj
  have hfits := hw.fits
  have hle := bufCount_le g
  rw [if_pos h] at hfits
  have hlow : (g.args 1).toNat = (g.args64 1).toNat := by
    rw [Guest.args, BitVec.toNat_setWidth]
    exact Nat.mod_eq_of_lt (by omega)
  obtain ⟨hpad, hhigh⟩ := hw.clean h (j / 2) (by omega)
  rw [element_eq (by omega), hlow]
  rcases Nat.mod_two_eq_zero_or_one j with h2 | h2
  · rwa [show (g.args64 1).toNat + 8 * j + 4 = (g.args64 1).toNat + 16 * (j / 2) + 4 by omega]
  · rwa [show (g.args64 1).toNat + 8 * j + 4 = (g.args64 1).toNat + 16 * (j / 2) + 12 by omega]

-- ---------------------------------------------------------------------------
-- Sends
-- ---------------------------------------------------------------------------

theorem bytes_length (m : Mem) (p n : Nat) : (m.bytes p n).length = n := by
  simp [Mem.bytes]

theorem content_length (m : Mem) (es : List (Nat × Nat)) :
    (es.flatMap fun e => m.bytes e.1 e.2).length = room es := by
  simp only [List.length_flatMap, bytes_length]
  rfl

theorem gather_eq (m : Mem) (g : Guest) :
    gather m g = ((elements m g).filter pointed).flatMap fun e => m.bytes e.1 e.2 := by
  unfold gather elements
  induction List.range (bufCount g) with
  | nil => rfl
  | cons i is ih =>
    rw [List.flatMap_cons, ih, List.map_cons, List.filter_cons, pointed]
    dsimp only
    have hnull : (wsabuf m (g.args 1) i).2 ≠ 0 ↔ (element m g i).1 ≠ 0 :=
      not_congr BitVec.toNat_inj.symm
    by_cases hp : (element m g i).1 ≠ 0
    · rw [if_pos (decide_eq_true hp), List.flatMap_cons]
      congr 1
      split
      · rfl
      · rename_i h0
        have hlen : (wsabuf m (g.args 1) i).1 = 0 := by
          by_contra hne
          exact h0 ⟨hne, hnull.2 hp⟩
        simp [element, hlen, Mem.bytes]
    · rw [if_neg fun h => hp (of_decide_eq_true h), if_neg fun h => hp (hnull.1 h.2),
        List.nil_append]

theorem gather_length (m : Mem) (g : Guest) :
    (gather m g).length = room ((elements m g).filter pointed) := by
  rw [gather_eq, content_length]

/-- Whatever the memory had before, the host takes what has been gathered, or more than that. -/
theorem handed_iff {c : List (BitVec 8)} (hc : gather m g <+: c) :
    (∀ junk, (handed junk m g).take k = c.take k ∧ k ≤ c.length) ↔ k ≤ (gather m g).length := by
  constructor
  · intro h
    by_contra hlt
    have hlen := congrArg List.length (h fun _ => 0).1
    have hk := (h fun _ => 0).2
    rw [List.length_take, List.length_take, handed, List.length_append, List.length_map,
      List.length_range] at hlen
    have hat : ∀ b : BitVec 8, (c.take k)[(gather m g).length]? = some b := by
      intro b
      rw [← (h fun _ => b).1, List.getElem?_take, if_pos (by omega), handed,
        List.getElem?_append_right (Nat.le_refl _), Nat.sub_self, List.getElem?_map,
        List.getElem?_range (by omega)]
      rfl
    have h01 := (hat 0).symm.trans (hat 1)
    exact absurd (Option.some.inj h01) (by decide)
  · intro hk junk
    obtain ⟨rest, rfl⟩ := hc
    rw [handed, List.take_append_of_le_length hk, List.take_append_of_le_length hk,
      List.length_append]
    exact ⟨rfl, Nat.le_add_right_of_le hk⟩

theorem gathered_iff (hw : WellFormed s.mem g) :
    (∀ junk, (handed junk s.mem g).take k = (g.content s.mem).take k ∧
      k ≤ (g.content s.mem).length) ↔ Gathered s.mem g k := by
  unfold Gathered
  cases h : g.is64 with
  | false =>
    obtain ⟨rest, hrest⟩ := buffers_elements hw h
    have hc : gather s.mem g <+: g.content s.mem := by
      rw [gather_eq, Guest.content, hrest, List.filter_append, List.flatMap_append]
      exact List.prefix_append _ _
    rw [handed_iff hc, gather_length, if_neg Bool.false_ne_true]
  | true =>
    have hnil : gather s.mem g = [] := by
      rw [gather_eq, List.filter_eq_nil_iff.2 fun e he => by simp [pointed, elements_null hw h e he]]
      rfl
    have hc : gather s.mem g <+: g.content s.mem := by
      rw [hnil]
      exact List.nil_prefix
    rw [handed_iff hc, hnil, if_pos rfl, List.length_nil, Nat.le_zero]

-- ---------------------------------------------------------------------------
-- The count
-- ---------------------------------------------------------------------------

theorem count_reported (m : Mem) (k : Nat) :
    Reported g (count s g m (.ofNat 32 k)) k ↔ Countable g k := by
  unfold Reported Countable
  refine forall_congr' fun h3 => ?_
  have hk : ∀ v : U32, v.toNat = k ↔ k < 2 ^ 32 ∧ v = BitVec.ofNat 32 k := by
    intro v
    rw [← BitVec.toNat_inj, BitVec.toNat_ofNat]
    have := v.isLt
    constructor
    · rintro rfl
      exact ⟨this, (Nat.mod_eq_of_lt this).symm⟩
    · rintro ⟨hlt, hv⟩
      rwa [Nat.mod_eq_of_lt hlt] at hv
  rw [hk]
  refine and_congr_right fun _ => ?_
  by_cases h5 : g.args 5 = 0
  · refine iff_of_true ?_ fun h => absurd h5 h
    unfold count Mem.give
    rw [if_neg (not_not.2 h5), if_pos h3]
    exact get32_put32 m _ _
  · have hcounted := counted_count (s := s) m (BitVec.ofNat 32 k) h5
    rw [counted, if_pos h3] at hcounted
    rw [hcounted, imp_iff_right h5]

theorem send_reported (h : takes host s g = some k) :
    Reported g (wsaSend host s g) k ↔ Countable g k := by
  unfold takes at h
  unfold wsaSend
  cases hfd : lookupFd s (g.args 0) with
  | none => simp [hfd] at h
  | some fd =>
    rw [hfd, Option.bind_some] at h
    dsimp only
    split at h
    · cases h
    · rename_i hok
      rw [if_neg hok]
      split at h
      · rename_i h0
        cases h
        rw [if_pos h0]
        refine iff_of_true (fun h3 => ?_) fun _ => ⟨by decide, fun _ => kept_zero⟩
        rw [Mem.give, if_pos h3, get32_put32]
        rfl
      · rename_i h0
        rw [if_neg h0]
        cases hs : host.send fd (gather s.mem g) (total s.mem g) with
        | error e => simp [hs, Except.toOption] at h
        | ok n =>
          obtain rfl : n = k := by simpa [hs, Except.toOption] using h
          exact count_reported s.mem n

-- ---------------------------------------------------------------------------
-- Receives
-- ---------------------------------------------------------------------------

theorem scatter_stores (bufs : U32) (is : List Nat) (got : List (BitVec 8)) (m : Mem) :
    scatter bufs is got m = m.apply (stores bufs is got m) := by
  induction is generalizing got m with
  | nil => rfl
  | cons i is ih =>
    simp only [scatter, stores]
    by_cases hnil : got = []
    · rw [if_pos hnil, if_pos hnil]
      rfl
    · rw [if_neg hnil, if_neg hnil, ih]
      split <;> rfl

theorem recv_count (h : gets host s g = some got) : wsaRecv host s g =
    count s g (s.mem.apply (stores (g.args 1) (List.range (bufCount g)) got s.mem))
      (.ofNat 32 got.length) := by
  unfold gets at h
  unfold wsaRecv
  cases hfd : lookupFd s (g.args 0) with
  | none => simp [hfd] at h
  | some fd =>
    rw [hfd, Option.bind_some] at h
    dsimp only
    split at h
    · cases h
    · rename_i hok
      rw [if_neg hok]
      cases hr : host.recv fd (min (total s.mem g) 65536) with
      | error e => simp [hr, Except.toOption] at h
      | ok got' =>
        obtain rfl : got' = got := by simpa [hr, Except.toOption] using h
        dsimp only
        rw [scatter_stores]

/-- The code reads the same elements from two memories that have the same array. -/
theorem element_congr {m' : Mem} (hw : (g.args 1).toNat + 8 * bufCount g ≤ 2 ^ 32)
    (h : ∀ a, (g.args 1).toNat ≤ a → a < (g.args 1).toNat + 8 * bufCount g → m' a = m a)
    (hi : i < bufCount g) : element m' g i = element m g i := by
  rw [element_eq (by omega), element_eq (by omega)]
  refine Prod.ext ?_ ?_ <;>
  · refine get_congr fun a ha => h a ?_ ?_ <;>
    · unfold Extent.Has at ha
      dsimp only at ha
      omega

theorem write_outside (m : Mem) (b : List (BitVec 8)) (h : a < p ∨ p + b.length ≤ a) :
    m.write p b a = m a := by
  unfold Mem.write
  split
  · rw [List.getD_eq_getElem?_getD, List.getElem?_eq_none (by omega), Option.getD_none]
  · rfl

/-- The elements are dealt their bytes as they were at the call, and null pointers lose theirs. -/
theorem stores_spread (hw : (g.args 1).toNat + 8 * bufCount g ≤ 2 ^ 32) (hb : Beside m g)
    {is : List Nat} (his : ∀ i ∈ is, i < bufCount g) {m' : Mem}
    (h : ∀ a, (g.args 1).toNat ≤ a → a < (g.args 1).toNat + 8 * bufCount g → m' a = m a)
    (got : List (BitVec 8)) :
    stores (g.args 1) is got m' = (spread (is.map (element m g)) got).filter fun w => w.1 ≠ 0 := by
  induction is generalizing got m' with
  | nil => rfl
  | cons i is ih =>
    have hi := his i List.mem_cons_self
    have his' : ∀ j ∈ is, j < bufCount g := fun j hj => his j (List.mem_cons_of_mem _ hj)
    have he := element_congr hw h hi
    have hptr : (wsabuf m' (g.args 1) i).2.toNat = (element m g i).1 := congrArg Prod.fst he
    have hlen : (wsabuf m' (g.args 1) i).1.toNat = (element m g i).2 := congrArg Prod.snd he
    have hnull : (wsabuf m' (g.args 1) i).2 ≠ 0 ↔ (element m g i).1 ≠ 0 :=
      hptr ▸ not_congr BitVec.toNat_inj.symm
    simp only [stores, hptr, hlen, hnull]
    by_cases hnil : got = []
    · rw [if_pos hnil, hnil, spread_nil]
      rfl
    rw [if_neg hnil, List.map_cons, spread_cons, List.filter_append]
    have htake : got.take (min (element m g i).2 got.length) = got.take (element m g i).2 := by
      rw [← List.take_take, List.take_length]
    have hdrop : got.drop (min (element m g i).2 got.length) = got.drop (element m g i).2 := by
      rcases Nat.le_total (element m g i).2 got.length with hle | hle
      · rw [Nat.min_eq_left hle]
      · rw [Nat.min_eq_right hle, List.drop_of_length_le hle, List.drop_length]
    have hempty : got.take (element m g i).2 = [] ↔ ¬ 0 < min (element m g i).2 got.length := by
      rw [← List.length_eq_zero_iff, List.length_take]
      omega
    rw [htake, hdrop]
    split
    · rename_i hgets
      have hkeep : ∀ a, (g.args 1).toNat ≤ a → a < (g.args 1).toNat + 8 * bufCount g →
          m'.write (element m g i).1 (got.take (element m g i).2) a = m a := by
        intro a hlo hhi
        rw [write_outside, h a hlo hhi]
        have hmem : element m g i ∈ elements m g :=
          List.mem_map.2 ⟨i, List.mem_range.2 hi, rfl⟩
        have hle := List.length_take_le (element m g i).2 got
        rcases hb _ hmem with h0 | hbelow | habove
        · exact absurd h0 hgets.1
        · exact .inr (by omega)
        · exact .inl (by omega)
      rw [ih his' hkeep, if_neg fun h => hempty.1 h hgets.2, List.filter_cons,
        if_pos (decide_eq_true hgets.1)]
      rfl
    · rename_i hgets
      rw [ih his' h]
      split
      · rfl
      · rename_i hsome
        have h0 : ¬ (element m g i).1 ≠ 0 := fun hp => hgets ⟨hp, by_contra fun h0 => hsome (hempty.2 h0)⟩
        rw [List.filter_cons, if_neg (by simpa using h0)]
        rfl

theorem room_elements (m : Mem) (g : Guest) : room (elements m g) = total m g := by
  rw [room, elements, List.map_map]
  rfl

theorem array_fits (hw : WellFormed m g) : (g.args 1).toNat + 8 * bufCount g ≤ 2 ^ 32 := by
  have hfits := hw.fits
  have hle := bufCount_le g
  have hlow : (g.args 1).toNat ≤ (g.args64 1).toNat := by
    rw [Guest.args, BitVec.toNat_setWidth]
    exact Nat.mod_le _ _
  split at hfits <;> omega

/-- The pieces are what the guest has listed exactly when no null pointer gets one. -/
theorem placed_iff (hw : WellFormed m g) (hb : Beside m g) (hlen : got.length ≤ total m g) :
    (stores (g.args 1) (List.range (bufCount g)) got m = spread (g.buffers m) got ∧
      joined (stores (g.args 1) (List.range (bufCount g)) got m) = got) ↔ Placed m g got := by
  have hstores : stores (g.args 1) (List.range (bufCount g)) got m =
      (spread (elements m g) got).filter fun w => w.1 ≠ 0 :=
    stores_spread (array_fits hw) hb (fun i hi => List.mem_range.1 hi) (fun _ _ _ => rfl) got
  rw [hstores]
  have hall : joined (spread (elements m g) got) = got := by
    rw [joined_spread, room_elements, List.take_of_length_le hlen]
  unfold Placed
  cases h : g.is64 with
  | false =>
    rw [if_neg Bool.false_ne_true]
    constructor
    · rintro ⟨-, hjoined⟩ w hw
      have hkept := joined_filter (fun w hw => (spread_piece hw).1) (hjoined.trans hall.symm) w hw
      exact of_decide_eq_true hkept
    · intro hplaced
      have hsame : (spread (elements m g) got).filter (fun w => w.1 ≠ 0) =
          spread (elements m g) got := List.filter_eq_self.2 fun w hw => decide_eq_true (hplaced w hw)
      have hpointed : spread ((elements m g).filter pointed) got = spread (elements m g) got :=
        spread_filter (p := fun q => decide (q ≠ 0)) fun w hw => decide_eq_true (hplaced w hw)
      have henough : got.length ≤ room ((elements m g).filter pointed) := by
        have htake : joined (spread ((elements m g).filter pointed) got) = _ := joined_spread
        rw [hpointed, hall] at htake
        rw [htake, List.length_take]
        exact Nat.min_le_left _ _
      obtain ⟨rest, hrest⟩ := buffers_elements hw h
      rw [hsame, hrest, List.filter_append, spread_enough henough, hpointed]
      exact ⟨rfl, hall⟩
  | true =>
    have hnull := elements_null hw h
    have hnil : (spread (elements m g) got).filter (fun w => w.1 ≠ 0) = [] := by
      refine List.filter_eq_nil_iff.2 fun w hw => ?_
      obtain ⟨-, e, he, hkey⟩ := spread_piece hw
      simp [← hkey, hnull e he]
    rw [hnil, if_pos rfl]
    constructor
    · rintro ⟨-, hjoined⟩
      exact hjoined.symm
    · rintro rfl
      exact ⟨(spread_nil _).symm, rfl⟩

-- ---------------------------------------------------------------------------
-- The law
-- ---------------------------------------------------------------------------

/-- A send is what the guest has listed, as far as the host takes it, exactly when that is no more
than its buffers among the first sixteen elements have; a receive, exactly when no null pointer is
in the way of its bytes. Of a 64-bit guest's array the code finds no buffer. -/
theorem scatter_law (hw : WellFormed s.mem g) :
    (∀ k, takes host s g = some k →
      ((∀ junk, SendFaithful host junk s g k) ↔ Gathered s.mem g k ∧ Countable g k)) ∧
    ∀ got, gets host s g = some got → got.length ≤ total s.mem g → Beside s.mem g →
      (RecvFaithful host s g got (stores (g.args 1) (List.range (bufCount g)) got s.mem) ↔
        Placed s.mem g got ∧ Countable g got.length) := by
  constructor
  · intro k hk
    rw [← gathered_iff hw, ← send_reported hk]
    constructor
    · intro h
      exact ⟨fun junk => ⟨(h junk).bytes, (h junk).listed⟩, (h fun _ => 0).reported⟩
    · rintro ⟨h, hrep⟩ junk
      exact ⟨(h junk).1, (h junk).2, hrep⟩
  · intro got hgot hlen hb
    have hcount := recv_count hgot
    rw [← placed_iff hw hb hlen, ← count_reported (s := s) (s.mem.apply _), ← hcount]
    constructor
    · rintro ⟨-, hspread, hall, hrep⟩
      exact ⟨⟨hspread, hall⟩, hrep⟩
    · rintro ⟨⟨hspread, hall⟩, hrep⟩
      exact ⟨congrArg (·.state.mem) hcount, hspread, hall, hrep⟩

theorem oneBuffer_wellFormed : WellFormed oneBuffer.2.mem (guest 0 0) := ⟨by decide, nofun⟩

/-- All five bytes are sent, and none are received. -/
theorem scatter_law_one : (∀ junk, SendFaithful oneBuffer.1 junk oneBuffer.2 (guest 0 0) 5) ∧
    RecvFaithful oneBuffer.1 oneBuffer.2 (guest 0 0) [] [] := by
  have hcount : ∀ k < 2 ^ 32, Countable (guest 0 0) k := fun k hk _ => ⟨hk, fun h5 => absurd rfl h5⟩
  constructor
  · exact ((scatter_law oneBuffer_wellFormed).1 5 (by decide)).2 ⟨by decide, hcount 5 (by decide)⟩
  · have hbeside : Beside oneBuffer.2.mem (guest 0 0) := by
      decide
    refine ((scatter_law oneBuffer_wellFormed).2 [] (by decide) (Nat.zero_le _) hbeside).2 ⟨?_, hcount 0 (by decide)⟩
    decide

/-- A null pointer with a length of five: the host gets five bytes that the guest has not listed. -/
theorem null_buffer_sent : ¬ ∀ (host : Host) (s : State) (g : Guest), WellFormed s.mem g →
    ∀ k, takes host s g = some k → ∀ junk, SendFaithful host junk s g k := by
  intro hall
  let s : State := { oneBuffer.2 with mem := fun a => if a = 0x2000 then 5 else 0 }
  have hw : WellFormed s.mem (guest 0 0) := ⟨by decide, nofun⟩
  have h := fun junk => hall oneBuffer.1 s (guest 0 0) hw 5 (by decide) junk
  have hgathered : Gathered s.mem (guest 0 0) 5 :=
    (gathered_iff hw).1 fun junk => ⟨(h junk).bytes, (h junk).listed⟩
  exact absurd hgathered (by decide)

end WineGlass.Overlapped
