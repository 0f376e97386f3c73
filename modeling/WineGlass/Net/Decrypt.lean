import WineGlass.Lib.Run
import WineGlass.Net.Schannel

/-!
# DecryptMessage

The handler offers the bytes of the data buffer to `SSLRead` and tells the caller what is left
of them. The caller keeps what it is told is left, adds what arrives, and calls again; `arrived`
and `returned` note the ciphertext and the plaintext of all calls.
-/

namespace WineGlass.Schannel

open Runs

/-- A session, as far as reading goes: the bytes it has pulled, and how many bytes of plaintext
it has returned. -/
structure Session where
  fed : List Byte
  given : Nat
  deriving DecidableEq, Repr

/-- What `SSLRead` may do. It knows the plaintext of the records that a stream completes, and
whether the stream has been closed; it asks its callback for bytes until it has something to
return or there are no more. -/
structure SecureTransport where
  plain : List Byte → List Byte
  closed : List Byte → Bool
  asks : Session → List Byte → Nat → List Nat
  plain_nil : plain [] = []
  plain_append : ∀ xs ys, plain xs <+: plain (xs ++ ys)
  asks_all : ∀ s avail want,
    ((plain (s.fed ++ avail.take (asks s avail want).sum)).drop s.given).take want = [] →
      avail.length ≤ (asks s avail want).sum

variable {T : SecureTransport}

/-- `SSLRead` into a buffer of `want` bytes. -/
def sslRead (T : SecureTransport) (c : Ctx Session) (s : Session) (want : Nat) :
    List Byte × Ctx Session :=
  let (pulled, c) := c.pull (T.asks s (c.inBuf.drop c.inPos) want)
  let fed := s.fed ++ pulled
  let plain := ((T.plain fed).drop s.given).take want
  (plain, { c with ssl := some ⟨fed, s.given + plain.length⟩ })

inductive Status
  | ok | incomplete | expired | internal
  deriving DecidableEq, Repr

/-- A descriptor as the caller finds it afterwards. -/
structure Desc where
  bufferType : U32
  pvBuffer : U32
  cbBuffer : Nat
  deriving DecidableEq, Repr

def Desc.isExtra (d : Desc) : Bool := d.bufferType == 5

def SecBuf.desc (b : SecBuf) : Desc := ⟨b.bufferType, b.pvBuffer, b.size⟩

/-- The first data buffer with something in it. -/
def firstData (msg : List SecBuf) : Option (Nat × SecBuf) :=
  (msg.findIdx? fun b => b.bufferType == 1 && b.size ≠ 0).bind fun i => (msg[i]?).map fun b => (i, b)

/-- The loop over the buffers other than the data buffer `idx`: the first stands for what is
left over, and the others are empty. -/
def markRest (leftover idx : Nat) : (bi : Nat) → (setExtra : Bool) → List Desc → List Desc
  | _, _, [] => []
  | bi, setExtra, d :: ds =>
    if bi = idx then d :: markRest leftover idx (bi + 1) setExtra ds
    else if !setExtra && 0 < leftover then
      ⟨5, d.pvBuffer, leftover⟩ :: markRest leftover idx (bi + 1) true ds
    else ⟨0, 0, 0⟩ :: markRest leftover idx (bi + 1) setExtra ds

structure Decrypted where
  status : Status
  ctx : Ctx Session
  plain : List Byte
  descs : List Desc

/-- `DecryptMessage` -/
def decryptMessage (T : SecureTransport) (c : Ctx Session) (msg : List SecBuf) : Decrypted :=
  let descs := msg.map SecBuf.desc
  match c.session, firstData msg with
  | some s, some (idx, data) =>
    if data.pvBuffer = 0 then ⟨.internal, c, [], descs⟩
    else
      let (plain, c) := sslRead T { c with inBuf := data.bytes, inPos := 0 } s data.size
      if plain ≠ [] then
        ⟨.ok, c, plain, markRest (c.inBuf.length - c.inPos) idx 0 false
          (descs.set idx ⟨1, data.pvBuffer, plain.length⟩)⟩
      else if c.ssl.any fun s => T.closed s.fed then ⟨.expired, c, [], descs⟩
      else ⟨.incomplete, c, [], descs⟩
  | _, _ => ⟨.internal, c, [], descs⟩

-- ---------------------------------------------------------------------------
-- The caller
-- ---------------------------------------------------------------------------

/-- What the caller has of `data` after a call: the extra bytes, or all when nothing was taken. -/
def keeps (r : Decrypted) (data : List Byte) : List Byte :=
  match r.status with
  | .ok =>
    match r.descs.find? Desc.isExtra with
    | some d => data.drop (data.length - d.cbBuffer)
    | none => []
  | .incomplete | .internal => data
  | .expired => []

structure Sys where
  ctx : Ctx Session
  pend : List Byte
  arrived : List Byte
  returned : List Byte

/-- A call with the bytes that have arrived, in a message with a number of empty buffers before
and behind the data buffer. -/
structure Present where
  new : List Byte
  pvBuffer : U32
  before : Nat
  after : Nat

def empties (n : Nat) : List SecBuf := .replicate n ⟨0, 0, [], by decide⟩

/-- The message of a caller, its data buffer among empty ones. -/
def present (m n : Nat) (b : SecBuf) : List SecBuf := empties m ++ b :: empties n

def Sys.step (T : SecureTransport) (s : Sys) (a : Present) : Option (Sys × Status) :=
  if h : a.pvBuffer ≠ 0 ∧ s.pend ++ a.new ≠ [] ∧ (s.pend ++ a.new).length < 2 ^ 32 then
    let r := decryptMessage T s.ctx
      (present a.before a.after ⟨1, a.pvBuffer, s.pend ++ a.new, h.2.2⟩)
    some (⟨r.ctx, keeps r (s.pend ++ a.new), s.arrived ++ a.new, s.returned ++ r.plain⟩, r.status)
  else none

/-- A session after its handshake. -/
def Sys.start (credHandle ctxHandle : U64) : Sys :=
  ⟨⟨true, some ⟨[], 0⟩, [], 0, [], true, credHandle, ctxHandle⟩, [], [], []⟩

def Sys.session (s : Sys) : Session := s.ctx.session.getD ⟨[], 0⟩

/-- Every byte that has arrived has reached the session once or is still with the caller; what
was returned is plaintext of the stream in order; and it is all of it when the caller has
nothing left to present. -/
structure Once (T : SecureTransport) (s : Sys) : Prop where
  fed : s.session.fed ++ s.pend = s.arrived
  order : s.returned <+: T.plain s.arrived
  whole : s.pend = [] → s.returned = T.plain s.arrived

section
variable (T : SecureTransport) (s : Sys) (a : Present)

/-- How much of the bytes presented `SSLRead` pulls. -/
def pulls : Nat := (T.asks s.session (s.pend ++ a.new) (s.pend ++ a.new).length).sum

/-- The stream the session has then. -/
def fedAfter : List Byte := s.session.fed ++ (s.pend ++ a.new).take (pulls T s a)

/-- The plaintext that is then there to be returned. -/
def due : List Byte := (T.plain (fedAfter T s a)).drop s.session.given

/-- There is plaintext to return, and when bytes are left a buffer to say so, when none are room
for all the plaintext; or the stream has been closed. -/
def Meets : Prop :=
  if due T s a ≠ [] then
    if pulls T s a < (s.pend ++ a.new).length then 0 < a.before + a.after
    else (due T s a).length ≤ (s.pend ++ a.new).length
  else T.closed (fedAfter T s a) = true

end

-- ---------------------------------------------------------------------------
-- One call
-- ---------------------------------------------------------------------------

/-- `SSLRead` on bytes that are offered afresh. -/
theorem sslRead_eq (c : Ctx Session) (bs : List Byte) (s : Session) (want : Nat) :
    sslRead T { c with inBuf := bs, inPos := 0 } s want =
      let fed := s.fed ++ bs.take (T.asks s bs want).sum
      let plain := ((T.plain fed).drop s.given).take want
      (plain, { c with inBuf := bs, inPos := min (T.asks s bs want).sum bs.length,
                       ssl := some ⟨fed, s.given + plain.length⟩ }) := by
  simp only [sslRead, pull_eq, List.drop_zero, Nat.sub_zero, Nat.zero_add]

theorem firstData_eq (hb : b.bufferType = 1) (hn : b.size ≠ 0) :
    firstData (empties n ++ b :: rest) = some (n, b) := by
  have hfind : (empties n ++ b :: rest).findIdx? (fun b => b.bufferType == 1 && b.size ≠ 0) =
      some n := by
    induction n with
    | zero => simp [empties, List.findIdx?_cons, hb, hn]
    | succ n ih =>
      simp only [empties, List.replicate_succ, List.cons_append, List.findIdx?_cons] at ih ⊢
      rw [ih]
      rfl
  rw [firstData, hfind, Option.bind_some, List.getElem?_append_right (by simp [empties])]
  simp [empties]

/-- There is an extra buffer afterwards just when something is left over and there is a buffer
besides the data buffer. -/
theorem find_markRest (bi : Nat) (done : Bool) (hds : ∀ d ∈ ds, ¬ d.isExtra) :
    ((markRest l k bi done ds).find? Desc.isExtra).map Desc.cbBuffer =
      if done = false ∧ 0 < l ∧ (2 ≤ ds.length ∨ ds.length = 1 ∧ bi ≠ k) then some l else none := by
  induction ds generalizing bi done with
  | nil => simp [markRest]
  | cons d ds ih =>
    have htail : ∀ e ∈ ds, ¬ e.isExtra := fun e he => hds e (List.mem_cons_of_mem _ he)
    rw [markRest]
    split
    · rename_i hk
      rw [List.find?_cons_of_neg (hds d List.mem_cons_self), ih _ _ htail, List.length_cons]
      congr 1
      simp only [eq_iff_iff, and_congr_right_iff]
      omega
    · rename_i hk
      split
      · rename_i hset
        simp only [Bool.and_eq_true, Bool.not_eq_true', decide_eq_true_eq] at hset
        have hmore : 2 ≤ (d :: ds).length ∨ (d :: ds).length = 1 ∧ bi ≠ k := by
          rw [List.length_cons]
          omega
        rw [List.find?_cons_of_pos (by rfl), Option.map_some, if_pos ⟨hset.1, hset.2, hmore⟩]
      · rename_i hset
        simp only [Bool.and_eq_true, Bool.not_eq_true', decide_eq_true_eq] at hset
        rw [List.find?_cons_of_neg (by decide), ih _ _ htail, if_neg fun h => hset ⟨h.1, h.2.1⟩,
          if_neg fun h => hset ⟨h.1, h.2.1⟩]

/-- What the caller keeps of the data after a call that succeeds. -/
theorem keeps_ok {c : Ctx Session} {plain : List Byte} (hb : b.bufferType = 1) :
    keeps ⟨.ok, c, plain, markRest (b.size - k) m 0 false
      (((present m n b).map SecBuf.desc).set m ⟨1, b.pvBuffer, plain.length⟩)⟩ b.bytes =
      if k < b.size ∧ 0 < m + n then b.bytes.drop k else [] := by
  have hnone : ∀ d ∈ ((present m n b).map SecBuf.desc).set m ⟨1, b.pvBuffer, plain.length⟩,
      ¬ d.isExtra := by
    intro d hd
    obtain hd | rfl := List.mem_or_eq_of_mem_set hd
    · obtain ⟨e, he, rfl⟩ := List.mem_map.1 hd
      have hkind : e.bufferType = 0 ∨ e.bufferType = 1 := by
        simp only [present, empties, List.mem_append, List.mem_replicate, List.mem_cons] at he
        rcases he with ⟨-, rfl⟩ | rfl | ⟨-, rfl⟩
        · exact .inl rfl
        · exact .inr hb
        · exact .inl rfl
      rcases hkind with h | h <;> simp [Desc.isExtra, SecBuf.desc, h]
    · simp [Desc.isExtra]
  have hfind := find_markRest (l := b.size - k) (k := m) 0 false hnone
  have hcount : (2 ≤ (((present m n b).map SecBuf.desc).set m ⟨1, b.pvBuffer, plain.length⟩).length ∨
      (((present m n b).map SecBuf.desc).set m ⟨1, b.pvBuffer, plain.length⟩).length = 1 ∧ 0 ≠ m) ↔
      0 < m + n := by
    simp only [List.length_set, List.length_map, present, empties, List.length_append,
      List.length_replicate, List.length_cons]
    omega
  simp only [hcount, true_and, Nat.sub_pos_iff_lt] at hfind
  unfold keeps
  dsimp only
  split
  · rename_i d hd
    rw [hd] at hfind
    split at hfind
    · rename_i hcond
      rw [if_pos hcond, Option.some.inj hfind]
      congr 1
      exact Nat.sub_sub_self (Nat.le_of_lt hcond.1)
    · cases hfind
  · rename_i hd
    rw [hd] at hfind
    split at hfind
    · cases hfind
    · rename_i hcond
      rw [if_neg hcond]

theorem session_some {c : Ctx σ} (h : c.session = some x) :
    Ctx.session { c with inBuf := bs, inPos := k, ssl := some y } = some y := by
  unfold Ctx.session at h ⊢
  split at h
  · rename_i hdone
    rw [if_pos hdone]
  · cases h

/-- What the handler does with the data buffer of a message. -/
theorem decryptMessage_eq (hs : c.session = some x) (hb : b.bufferType = 1)
    (hptr : b.pvBuffer ≠ 0) (hn : b.size ≠ 0) (k : Nat)
    (hk : k = (T.asks x b.bytes b.size).sum) (plain : List Byte)
    (hplain : plain = ((T.plain (x.fed ++ b.bytes.take k)).drop x.given).take b.size) :
    (decryptMessage T c (present m n b)).plain = plain ∧
      (decryptMessage T c (present m n b)).ctx.session =
        some ⟨x.fed ++ b.bytes.take k, x.given + plain.length⟩ ∧
      keeps (decryptMessage T c (present m n b)) b.bytes =
        if plain ≠ [] then if k < b.size ∧ 0 < m + n then b.bytes.drop k else []
        else if T.closed (x.fed ++ b.bytes.take k) then [] else b.bytes := by
  have hread := sslRead_eq (T := T) c b.bytes x b.size
  dsimp only at hread
  rw [← hk, ← hplain] at hread
  unfold decryptMessage
  rw [hs, show firstData (present m n b) = some (m, b) from firstData_eq hb hn]
  simp only [if_neg hptr, hread]
  split
  · refine ⟨rfl, session_some hs, ?_⟩
    rw [show b.bytes.length - min k b.bytes.length = b.size - k by unfold SecBuf.size; omega]
    exact keeps_ok hb
  · rename_i hempty
    rw [not_not] at hempty
    split
    · rename_i hclosed
      exact ⟨hempty.symm, session_some hs, (if_pos hclosed).symm⟩
    · rename_i hopen
      exact ⟨hempty.symm, session_some hs, (if_neg hopen).symm⟩

/-- What the caller has left after a call. -/
def leftover (T : SecureTransport) (s : Sys) (a : Present) : List Byte :=
  if due T s a ≠ [] then
    if pulls T s a < (s.pend ++ a.new).length ∧ 0 < a.before + a.after then
      (s.pend ++ a.new).drop (pulls T s a)
    else []
  else if T.closed (fedAfter T s a) then [] else s.pend ++ a.new

/-- What one call does. -/
structure Called (T : SecureTransport) (s : Sys) (a : Present) (s' : Sys) : Prop where
  some_bytes : s.pend ++ a.new ≠ []
  session : s'.ctx.session = some s'.session
  fed : s'.session.fed = fedAfter T s a
  given : s'.session.given =
    s.session.given + ((due T s a).take (s.pend ++ a.new).length).length
  pend : s'.pend = leftover T s a
  arrived : s'.arrived = s.arrived ++ a.new
  returned : s'.returned = s.returned ++ (due T s a).take (s.pend ++ a.new).length

theorem step_called (hs : s.ctx.session = some s.session) (h : s.step T a = some (s', st)) :
    Called T s a s' := by
  unfold Sys.step at h
  split at h
  case isFalse => cases h
  rename_i hen
  obtain ⟨hptr, hne, hsmall⟩ := hen
  have hlen : (s.pend ++ a.new).length ≠ 0 := fun h => hne (List.eq_nil_of_length_eq_zero h)
  obtain ⟨hplain, hsession, hkeeps⟩ := decryptMessage_eq (T := T) (m := a.before) (n := a.after)
    (b := ⟨1, a.pvBuffer, s.pend ++ a.new, hsmall⟩) hs rfl hptr hlen _ rfl _ rfl
  have htake : (due T s a).take (s.pend ++ a.new).length ≠ [] ↔ due T s a ≠ [] := by
    rw [not_iff_not, List.take_eq_nil_iff, or_iff_right hlen]
  cases h
  refine ⟨hne, ?_, ?_, ?_, ?_, rfl, congrArg (s.returned ++ ·) hplain⟩
  · rw [Sys.session, hsession]
    rfl
  · rw [Sys.session, hsession]
    rfl
  · rw [Sys.session, hsession]
    rfl
  · refine hkeeps.trans ?_
    simp only [leftover, ← htake]
    rfl

-- ---------------------------------------------------------------------------
-- The law
-- ---------------------------------------------------------------------------

/-- A session that runs, what it has returned being plaintext of what it has pulled. -/
structure Sound (T : SecureTransport) (s : Sys) : Prop where
  session : s.ctx.session = some s.session
  given : s.session.given = s.returned.length
  order : s.returned <+: T.plain s.session.fed

/-- What there is to return is what `returned` lacks of the plaintext. -/
theorem Sound.due_eq (h : Sound T s) : s.returned ++ due T s a = T.plain (fedAfter T s a) := by
  obtain ⟨rest, hrest⟩ := h.order.trans (T.plain_append ..)
  rw [due, h.given, fedAfter, ← hrest, List.drop_left]

theorem Sound.called (h : Sound T s) (hc : Called T s a s') : Sound T s' where
  session := hc.session
  given := by simp only [hc.given, hc.returned, List.length_append, h.given]
  order := by
    rw [hc.fed, hc.returned, ← h.due_eq]
    exact (List.prefix_append_right_inj _).2 (List.take_prefix ..)

/-- Where there is nothing to return, `SSLRead` pulls all it is offered. -/
theorem pulls_all (hdue : due T s a = []) : (s.pend ++ a.new).length ≤ pulls T s a := by
  refine T.asks_all s.session (s.pend ++ a.new) _ ?_
  show (due T s a).take _ = []
  rw [hdue, List.take_nil]

theorem called_once (hs : Sound T s) (ho : Once T s) (hc : Called T s a s') :
    Once T s' ↔ Meets T s a := by
  have hs' := hs.called hc
  have hall : fedAfter T s a ++ (s.pend ++ a.new).drop (pulls T s a) = s'.arrived := by
    rw [fedAfter, List.append_assoc, List.take_append_drop, ← List.append_assoc, ho.fed, hc.arrived]
  have horder : s'.session.fed ++ s'.pend = s'.arrived → s'.returned <+: T.plain s'.arrived := by
    intro h
    rw [← h]
    exact hs'.order.trans (T.plain_append ..)
  have hpend := hc.pend
  unfold leftover at hpend
  unfold Meets
  split <;> rename_i hdue
  · rw [if_pos hdue] at hpend
    split <;> rename_i hless
    · -- bytes are left, which the caller gets back only through another buffer
      have hdrop : (s.pend ++ a.new).drop (pulls T s a) ≠ [] := by
        rw [Ne, List.drop_eq_nil_iff]
        exact Nat.not_le.2 hless
      constructor
      · intro h
        by_contra hno
        rw [if_neg fun h => hno h.2] at hpend
        have hfed := h.fed
        rw [hpend, hc.fed, ← hall, List.append_cancel_left_eq] at hfed
        exact hdrop hfed.symm
      · intro hother
        rw [if_pos ⟨hless, hother⟩] at hpend
        have hfed : s'.session.fed ++ s'.pend = s'.arrived := by rw [hpend, hc.fed, hall]
        exact ⟨hfed, horder hfed, fun h => absurd (hpend.symm.trans h) hdrop⟩
    · -- all is pulled: the caller has nothing left, so all plaintext must be returned
      rw [if_neg fun h => hless h.1] at hpend
      rw [List.drop_eq_nil_of_le (Nat.le_of_not_lt hless), List.append_nil] at hall
      have hfed : s'.session.fed ++ s'.pend = s'.arrived := by
        rw [hpend, hc.fed, hall, List.append_nil]
      have hwhole : s'.returned = T.plain s'.arrived ↔
          (due T s a).length ≤ (s.pend ++ a.new).length := by
        rw [hc.returned, ← hall, ← hs.due_eq, List.append_cancel_left_eq]
        exact ⟨fun h => by rw [← h, List.length_take]; omega, List.take_of_length_le⟩
      exact ⟨fun h => hwhole.1 (h.whole hpend),
        fun h => ⟨hfed, horder hfed, fun _ => hwhole.2 h⟩⟩
  · rw [not_not] at hdue
    rw [if_neg (not_not.2 hdue)] at hpend
    rw [List.drop_eq_nil_of_le (pulls_all hdue), List.append_nil] at hall
    constructor
    · intro h
      by_contra hopen
      -- the caller presents again what the session has already pulled
      have hfed := h.fed
      rw [hpend, if_neg hopen, hc.fed, ← hall, List.append_right_eq_self] at hfed
      exact hc.some_bytes hfed
    · intro hclosed
      rw [if_pos hclosed] at hpend
      have hfed : s'.session.fed ++ s'.pend = s'.arrived := by
        rw [hpend, hc.fed, hall, List.append_nil]
      refine ⟨hfed, horder hfed, fun _ => ?_⟩
      rw [hc.returned, ← hall, ← hs.due_eq, hdue, List.take_nil]

theorem start_sound : Sound T (.start cred ctx) ∧ Once T (.start cred ctx) := by
  refine ⟨⟨rfl, rfl, List.nil_prefix⟩, rfl, List.nil_prefix, fun _ => T.plain_nil.symm⟩

/-- In a run of such calls every byte reaches the session once, and the plaintext is returned;
any other call breaks this. -/
theorem decrypt_law (h : Run (Sys.step T) (Meets T) (.start cred ctx) tr s) :
    Once T s ∧ ∀ a s' st, s.step T a = some (s', st) → (Once T s' ↔ Meets T s a) := by
  have hs : Sound T s ∧ Once T s := h.invariant (P := fun _ s => Sound T s ∧ Once T s) start_sound
    fun hs hm h => by
      have hc := step_called hs.1.session h
      exact ⟨hs.1.called hc, (called_once hs.1 hs.2 hc).2 hm⟩
  exact ⟨hs.2, fun a s' st h => called_once hs.1 hs.2 (step_called hs.1.session h)⟩

-- ---------------------------------------------------------------------------
-- A session without a cipher
-- ---------------------------------------------------------------------------

/-- The contents of the records at the start of a stream: type, version, length and content. -/
def contents : Nat → List Byte → List Byte
  | n + 1, _ :: _ :: _ :: hi :: lo :: rest =>
    let len := 256 * hi.toNat + lo.toNat
    if len ≤ rest.length then rest.take len ++ contents n (rest.drop len) else []
  | _, _ => []

theorem contents_append (n m : Nat) (xs ys : List Byte) (h : n ≤ m) :
    contents n xs <+: contents m (xs ++ ys) := by
  induction n, xs using contents.induct generalizing m with
  | case1 n t v v' hi lo rest len hlen ih =>
    cases m with
    | zero => omega
    | succ m =>
      have hlen' : len ≤ (rest ++ ys).length := by
        rw [List.length_append]
        omega
      simp only [contents, List.cons_append]
      rw [if_pos hlen, if_pos hlen', List.take_append_of_le_length hlen,
        List.drop_append_of_le_length hlen, List.prefix_append_right_inj]
      exact ih m (Nat.le_of_succ_le_succ h)
  | case2 n t v v' hi lo rest len hlen =>
    simp only [contents]
    rw [if_neg hlen]
    exact List.nil_prefix
  | case3 n xs hno =>
    unfold contents
    split
    · exact absurd rfl (hno _ _ _ _ _ _ _ rfl)
    · exact List.nil_prefix

/-- Records in the clear; the callback is asked for a header and then for the rest. -/
def inClear : SecureTransport where
  plain xs := contents xs.length xs
  closed _ := false
  asks _ avail _ := [5, avail.length]
  plain_nil := rfl
  plain_append xs ys := contents_append _ _ xs ys (by rw [List.length_append]; omega)
  asks_all s avail want _ := by
    simp only [List.sum_cons, List.sum_nil]
    omega

instance (T : SecureTransport) (s : Sys) (a : Present) : Decidable (Meets T s a) := by
  unfold Meets
  infer_instance

/-- A record with two bytes, presented whole. -/
theorem decrypt_law_whole : ∃ tr s, Run (Sys.step inClear) (Meets inClear) (.start 0x9000 0x9001)
    tr s ∧ s.returned = [7, 8] ∧ Once inClear s := by
  have hexec : (exec (Sys.step inClear) (Meets inClear) (.start 0x9000 0x9001)
      [⟨[23, 3, 3, 0, 2, 7, 8], 0x5000, 0, 3⟩]).any fun r => decide (r.2.returned = [7, 8]) := by
    decide +kernel
  obtain ⟨tr, s, hr, hp⟩ := Run.of_exec_any hexec
  exact ⟨tr, s, hr, of_decide_eq_true hp, (decrypt_law hr).1⟩

/-- The first bytes of a record are pulled, and the caller is told to present them again. -/
theorem split_record_repeats : ¬ ∀ T tr s,
    Run (Sys.step T) anyStep (.start 0x9000 0x9001) tr s → Once T s := by
  intro hall
  have hexec : (exec (Sys.step inClear) anyStep (.start 0x9000 0x9001)
      [⟨[23, 3, 3], 0x5000, 0, 3⟩]).any fun r =>
        decide (r.2.session.fed ++ r.2.pend ≠ r.2.arrived) := by decide +kernel
  obtain ⟨tr, s, hr, hp⟩ := Run.of_exec_any hexec
  exact of_decide_eq_true hp (hall inClear tr s hr).fed

end WineGlass.Schannel
