import WineGlass.Lib.Run
import WineGlass.Net.Http

/-!
# The body of a response

`WinHttpQueryDataAvailable` fills the buffer when it is empty, `WinHttpReadData` empties it and
then reads for the guest. Both are the handlers of a request whose connection is open.
-/

namespace WineGlass.Http

open CStrings

def Reply.buffered (r : Reply) : Nat := r.data.length - r.bufPos

/-- Whether all of the content has been handed over, as far as it is known. -/
def Reply.complete (r : Reply) : Bool := r.hasContentLength && r.contentLength ≤ r.totalBodyRead

/-- The buffer made ready for a read: allocated, or what is left moved to its start. -/
def Reply.rewind (r : Reply) : Reply :=
  match r.buf with
  | none => { r with buf := some 65536, data := [], bufPos := 0 }
  | some _ => if 0 < r.bufPos then { r with data := r.data.drop r.bufPos, bufPos := 0 } else r

/-- `WinHttpQueryDataAvailable` -/
def Reply.queryDataAvailable (r : Reply) (rest : List Byte) (k : Nat) : U32 × Reply × List Byte :=
  if r.buffered = 0 ∧ ¬ r.complete then
    let r := r.rewind
    let (got, rest) := slotRead rest (65536 - r.data.length) k
    let r := { r with data := r.data ++ got }
    (BitVec.ofNat 32 r.buffered, r, rest)
  else (BitVec.ofNat 32 r.buffered, r, rest)

/-- `WinHttpReadData`: first from the buffer, then from the connection. -/
def Reply.readData (r : Reply) (rest : List Byte) (toRead : U32) (k : Nat) :
    List Byte × Reply × List Byte :=
  let give := min r.buffered toRead.toNat
  let left := toRead.toNat - give
  let (got, rest) := if 0 < left then slotRead rest (min left 65536) k else ([], rest)
  ((r.data.drop r.bufPos).take give ++ got,
    { r with bufPos := r.bufPos + give, totalBodyRead := r.totalBodyRead + (give + got.length) }, rest)

end WineGlass.Http

namespace WineGlass.Body

open CStrings Http Runs

/-- Calls, with what the host has ready for their read. -/
inductive Action
  | query (k : Nat)
  | read (toRead : U32) (k : Nat)
  deriving DecidableEq, Repr

inductive Label
  | available (n : U32)
  | bytes (bs : List Byte)
  deriving DecidableEq, Repr

/-- A response, the request, what the connection has left, and the bytes handed to the guest. -/
structure Sys where
  stream : List Byte
  reply : Reply
  rest : List Byte
  given : List Byte

/-- A request whose headers have been received, in reads of the host's choice. -/
def Sys.start (stream : List Byte) (reads : List Nat) : Sys :=
  let (_, reply, rest) := blank.receiveHeaders reads stream
  ⟨stream, reply, rest, []⟩

def Sys.step (s : Sys) : Action → Option (Sys × Label)
  | .query k =>
    let (n, reply, rest) := s.reply.queryDataAvailable s.rest k
    some ({ s with reply, rest }, .available n)
  | .read toRead k =>
    let (bs, reply, rest) := s.reply.readData s.rest toRead k
    some ({ s with reply, rest, given := s.given ++ bs }, .bytes bs)

-- ---------------------------------------------------------------------------
-- What the guest is to get
-- ---------------------------------------------------------------------------

/-- What follows the headers. -/
def afterHead (stream : List Byte) : List Byte :=
  (strstr stream blankLine).elim [] fun i => stream.drop (i + 4)

/-- `Content-Length`, if the headers have it. -/
def contentLength (stream : List Byte) : Option Nat :=
  (strstr stream blankLine).bind fun i => lengthIn (stream.take (i + 4))

def body (stream : List Byte) : List Byte :=
  (contentLength stream).elim (afterHead stream) (afterHead stream).take

/-- The guest has the beginning of the body, what follows is buffered or still to come, and the
buffer is inside its allocation. -/
structure Sound (s : Sys) : Prop where
  body : s.given <+: body s.stream
  ahead : s.given ++ s.reply.data.drop s.reply.bufPos ++ s.rest = afterHead s.stream
  inside : s.reply.data.length ≤ s.reply.buf.getD 0
  within : s.reply.bufPos ≤ s.reply.data.length

/-- How many of `n` bytes are buffered, and how many of the others are ready. -/
def Sys.offers (s : Sys) (n k : Nat) : Nat :=
  min s.reply.buffered n +
    min (n - min s.reply.buffered n) (min 65536 (min k s.rest.length))

/-- A query that reads gets no more than the allocation holds; a read gets no more than there
is left of the content. -/
def Meets (s : Sys) : Action → Prop
  | .query k => s.reply.buffered = 0 → ¬ s.reply.complete →
      min (min 65536 k) s.rest.length ≤ s.reply.buf.getD 65536
  | .read toRead k => ∀ n ∈ contentLength s.stream, s.given.length + s.offers toRead.toNat k ≤ n

instance (s : Sys) (a : Action) : Decidable (Meets s a) :=
  match a with
  | .query _ => inferInstanceAs (Decidable (_ → _ → _))
  | .read n k => decidable_of_iff
      ((contentLength s.stream).all fun m => s.given.length + s.offers n.toNat k ≤ m)
      (by cases h : contentLength s.stream <;> simp [Meets, h])

-- ---------------------------------------------------------------------------
-- One call
-- ---------------------------------------------------------------------------

theorem body_iff (h : given <+: afterHead stream) :
    given <+: body stream ↔ ∀ n ∈ contentLength stream, given.length ≤ n := by
  unfold body
  cases contentLength stream with
  | none => simpa using h
  | some n => simp [List.prefix_take_iff, h]

theorem Sound.given_initial (h : Sound s) : s.given <+: afterHead s.stream := by
  rw [← h.ahead, List.append_assoc]
  exact List.prefix_append ..

/-- The buffer a query reads into. -/
theorem rewind_spec {r : Reply} (h : r.buffered = 0) (hw : r.bufPos ≤ r.data.length) :
    r.rewind.data = [] ∧ r.rewind.bufPos = 0 ∧ r.rewind.buf = some (r.buf.getD 65536) := by
  have hall : r.bufPos = r.data.length := Nat.le_antisymm hw (Nat.le_of_sub_eq_zero h)
  unfold Reply.rewind
  cases hb : r.buf with
  | none => exact ⟨rfl, rfl, rfl⟩
  | some c =>
    dsimp only
    split
    · exact ⟨by rw [hall, List.drop_length], rfl, rfl⟩
    · rename_i hpos
      have hzero : r.bufPos = 0 := Nat.eq_zero_of_not_pos hpos
      exact ⟨List.length_eq_zero_iff.1 (hall ▸ hzero), hzero, hb⟩

theorem slotRead_length (rest : List Byte) (len k : Nat) :
    (slotRead rest len k).1.length = min (min len k) rest.length := List.length_take

/-- What a query that reads does. -/
theorem query_reads {r : Reply} (rest : List Byte) (k : Nat) (hw : r.bufPos ≤ r.data.length)
    (hread : r.buffered = 0 ∧ ¬ r.complete) :
    ∃ r', r.queryDataAvailable rest k =
        (BitVec.ofNat 32 r'.buffered, r', (slotRead rest 65536 k).2) ∧
      r'.data = (slotRead rest 65536 k).1 ∧ r'.bufPos = 0 ∧ r'.buf = some (r.buf.getD 65536) := by
  obtain ⟨hdata, hpos, hbuf⟩ := rewind_spec hread.1 hw
  rw [Reply.queryDataAvailable, if_pos hread]
  dsimp only
  rw [hdata, List.nil_append, List.length_nil, Nat.sub_zero]
  exact ⟨_, rfl, rfl, hpos, hbuf⟩

theorem query_sound (h : Sound s) (hs : s.step (.query k) = some (s', e)) :
    Sound s' ↔ Meets s (.query k) := by
  by_cases hread : s.reply.buffered = 0 ∧ ¬ s.reply.complete
  · obtain ⟨r', heq, hdata, hpos, hbuf⟩ := query_reads s.rest k h.within hread
    rw [Sys.step, heq] at hs
    cases hs
    have hnone : s.reply.data.drop s.reply.bufPos = [] :=
      List.drop_eq_nil_of_le (Nat.le_of_sub_eq_zero hread.1)
    have hahead := h.ahead
    rw [hnone, List.append_nil] at hahead
    have hfits : r'.data.length ≤ r'.buf.getD 0 ↔
        min (min 65536 k) s.rest.length ≤ s.reply.buf.getD 65536 := by
      rw [hdata, hbuf, slotRead_length, Option.getD_some]
    constructor
    · intro hs' _ _
      exact hfits.1 hs'.inside
    · intro hm
      refine ⟨h.body, ?_, hfits.2 (hm hread.1 hread.2), ?_⟩
      · dsimp only
        rw [hdata, hpos, List.drop_zero, List.append_assoc, slotRead_append, hahead]
      · dsimp only
        rw [hpos]
        exact Nat.zero_le _
  · rw [Sys.step, Reply.queryDataAvailable, if_neg hread] at hs
    cases hs
    exact ⟨fun _ h0 hc => absurd ⟨h0, hc⟩ hread, fun _ => ⟨h.body, h.ahead, h.inside, h.within⟩⟩

/-- What a read hands over: it goes to the connection only when the buffer is empty. -/
theorem read_spec (r : Reply) (rest : List Byte) (toRead : U32) (k : Nat) :
    ∃ bs rest' total, r.readData rest toRead k = (bs,
        { r with bufPos := r.bufPos + min r.buffered toRead.toNat, totalBodyRead := total }, rest') ∧
      bs ++ (r.data.drop (r.bufPos + min r.buffered toRead.toNat) ++ rest') =
        r.data.drop r.bufPos ++ rest ∧
      bs.length = min r.buffered toRead.toNat + min (toRead.toNat - min r.buffered toRead.toNat)
        (min 65536 (min k rest.length)) := by
  have hbuffered : (r.data.drop r.bufPos).length = r.buffered := List.length_drop
  unfold Reply.readData
  generalize toRead.toNat = n
  dsimp only
  rcases Nat.le_total n r.buffered with hle | hle
  · rw [Nat.min_eq_right hle, Nat.sub_self, if_neg (Nat.lt_irrefl 0)]
    refine ⟨_, _, _, rfl, ?_, ?_⟩
    · rw [List.append_nil, ← List.append_assoc, ← List.drop_drop, List.take_append_drop]
    · rw [List.append_nil, List.length_take, hbuffered, Nat.min_eq_left hle, Nat.zero_min,
        Nat.add_zero]
  · have hread : (if 0 < n - r.buffered then slotRead rest (min (n - r.buffered) 65536) k
        else ([], rest)) = slotRead rest (min (n - r.buffered) 65536) k := by
      split
      · rfl
      · rename_i hzero
        rw [Nat.eq_zero_of_not_pos hzero, slotRead, Nat.zero_min, Nat.zero_min]
        rfl
    have hempty : r.data.drop (r.bufPos + r.buffered) = [] := by
      refine List.drop_eq_nil_of_le ?_
      unfold Reply.buffered
      omega
    have htake : (r.data.drop r.bufPos).take r.buffered = r.data.drop r.bufPos :=
      List.take_of_length_le (Nat.le_of_eq hbuffered)
    rw [Nat.min_eq_left hle, hread, htake]
    refine ⟨_, _, _, rfl, ?_, ?_⟩
    · rw [hempty, List.nil_append, List.append_assoc, slotRead_append]
    · rw [List.length_append, hbuffered, slotRead_length]
      omega

theorem read_sound (h : Sound s) (hs : s.step (.read n k) = some (s', e)) :
    Sound s' ↔ Meets s (.read n k) := by
  obtain ⟨bs, rest', total, heq, hahead, hlen⟩ := read_spec s.reply s.rest n k
  rw [Sys.step, heq] at hs
  cases hs
  have hall : s.given ++ bs ++ s.reply.data.drop (s.reply.bufPos + min s.reply.buffered n.toNat) ++
      rest' = afterHead s.stream := by
    rw [List.append_assoc, List.append_assoc, hahead, ← List.append_assoc, h.ahead]
  have hinit : s.given ++ bs <+: afterHead s.stream := by
    rw [← hall, List.append_assoc]
    exact List.prefix_append ..
  have hbody := body_iff hinit
  rw [List.length_append, hlen] at hbody
  constructor
  · intro hs'
    exact hbody.1 hs'.body
  · intro hm
    refine ⟨hbody.2 hm, hall, h.inside, ?_⟩
    have hw := h.within
    unfold Reply.buffered
    dsimp only
    omega

/-- What one call does to what the guest is to get. -/
theorem step_sound (h : Sound s) (hs : s.step a = some (s', e)) : Sound s' ↔ Meets s a := by
  cases a with
  | query k => exact query_sound h hs
  | read n k => exact read_sound h hs

-- ---------------------------------------------------------------------------
-- Runs
-- ---------------------------------------------------------------------------

/-- What a request has right after the headers. -/
theorem receive_spec (h : blank.receiveHeaders reads stream = (b, r, rest))
    (hr : r.headersReceived) :
    ∃ raw n, readHead reads [] stream = (some (raw, n), rest) ∧ r.data = raw.drop n ∧
      r.bufPos = 0 ∧ r.buf.getD 0 = r.data.length := by
  unfold Reply.receiveHeaders at h
  cases hhead : readHead reads [] stream with
  | mk found rest' =>
    cases found with
    | none =>
      rw [hhead] at h
      cases h
      cases hr
    | some x =>
      obtain ⟨raw, n⟩ := x
      rw [hhead] at h
      dsimp only at h
      cases hscan : scanStatus (cstr raw) with
      | none =>
        rw [hscan] at h
        cases h
        cases hr
      | some x =>
        rw [hscan] at h
        cases h
        refine ⟨raw, n, rfl, ?_⟩
        cases lengthIn (cstr raw) <;> cases raw.drop n <;> exact ⟨rfl, rfl, rfl⟩

theorem start_sound (h : (Sys.start stream reads).reply.headersReceived) :
    Sound (Sys.start stream reads) := by
  cases hrec : blank.receiveHeaders reads stream with
  | mk b x =>
    obtain ⟨r, rest⟩ := x
    have hstart : Sys.start stream reads = ⟨stream, r, rest, []⟩ := by rw [Sys.start, hrec]
    rw [hstart] at h ⊢
    obtain ⟨raw, n, hhead, hdata, hpos, hbuf⟩ := receive_spec hrec h
    obtain ⟨hall, i, hi, rfl⟩ := readHead_spec hhead
    rw [List.nil_append] at hall
    -- The headers of the response end where those of what was read do.
    have hstream : strstr stream blankLine = some i := by
      obtain ⟨t, ht⟩ := cstr_initial raw
      have hraw := strstr_append hi (t ++ rest)
      rwa [← List.append_assoc, ht, hall] at hraw
    have hle : i + 4 ≤ raw.length := Nat.le_trans (strstr_le hi) (cstr_initial raw).length_le
    refine ⟨List.nil_prefix, ?_, Nat.le_of_eq hbuf.symm, hpos ▸ Nat.zero_le _⟩
    dsimp only
    rw [afterHead, hstream, Option.elim_some, hdata, hpos, List.drop_zero, List.nil_append, ← hall,
      List.drop_append_of_le_length hle]

/-- A query reports what is buffered after it. -/
theorem query_reports (r : Reply) (rest : List Byte) (k : Nat) : ∃ r' rest',
    r.queryDataAvailable rest k = (BitVec.ofNat 32 r'.buffered, r', rest') := by
  unfold Reply.queryDataAvailable
  split
  · exact ⟨_, _, rfl⟩
  · exact ⟨_, _, rfl⟩

/-- What a query reports is buffered, and a read that asks for as much delivers it. -/
theorem report_delivered {s s' s'' : Sys} {n m : U32} (hq : s.step (.query k) = some (s', .available n)) (hle : n ≤ m)
    (hread : s'.step (.read m k') = some (s'', .bytes bs)) : n.toNat ≤ bs.length := by
  have hreport : n.toNat ≤ s'.reply.buffered := by
    obtain ⟨r', rest', heq⟩ := query_reports s.reply s.rest k
    rw [Sys.step, heq] at hq
    cases hq
    rw [BitVec.toNat_ofNat]
    exact Nat.mod_le ..
  obtain ⟨bs', rest', total, heq, -, hlen⟩ := read_spec s'.reply s'.rest m k'
  rw [Sys.step, heq] at hread
  cases hread
  rw [hlen]
  exact Nat.le_trans (Nat.le_min.2 ⟨hreport, hle⟩) (Nat.le_add_right ..)

/-- In a run of such calls the guest gets the body in order and no more, from inside the buffer;
no other call leaves it so. What a query reports a read of that size delivers. -/
theorem body_law (hr : (Sys.start stream reads).reply.headersReceived)
    (h : Run Sys.step Meets (.start stream reads) tr s) :
    Sound s ∧ (∀ a s' e, s.step a = some (s', e) → (Sound s' ↔ Meets s a)) ∧
      ∀ k s' n, s.step (.query k) = some (s', .available n) →
        ∀ m k' s'' bs, n ≤ m → s'.step (.read m k') = some (s'', .bytes bs) →
          n.toNat ≤ bs.length := by
  have hs : Sound s := h.invariant (P := fun _ s => Sound s) (start_sound hr)
    fun hs hm h => (step_sound hs h).2 hm
  exact ⟨hs, fun a s' e h => step_sound hs h, fun k s' n hq m k' s'' bs hle hread =>
    report_delivered hq hle hread⟩

/-- A response with a body of three bytes, and what else the connection delivers. -/
def response (more : String) : List Byte := str ("HTTP/1.1 200 OK\r\nContent-Length: 3\r\n\r\n" ++ more)

/-- The headers in one read, then a query and two reads of the body. -/
theorem body_law_three : ∃ tr s,
    Run Sys.step Meets (.start (response "abc") [38]) tr s ∧ s.given = str "abc" ∧ Sound s := by
  have hexec : (exec Sys.step Meets (.start (response "abc") [38])
      [.query 100, .read 2 0, .read 5 9]).any fun r => decide (r.2.given = str "abc") := by
    decide +kernel
  obtain ⟨tr, s, hr, hp⟩ := Run.of_exec_any hexec
  exact ⟨tr, s, hr, of_decide_eq_true hp, (body_law (by decide +kernel) hr).1⟩

/-- A byte comes with the headers; when it is read, a query reads two into its place. -/
theorem refill_overflows : ¬ ∀ stream reads, (Sys.start stream reads).reply.headersReceived →
    ∀ tr s, Run Sys.step anyStep (.start stream reads) tr s → Sound s := by
  intro hall
  have hexec : (exec Sys.step anyStep (.start (response "abc") [39])
      [.read 1 0, .query 100]).any fun r =>
        decide (¬ r.2.reply.data.length ≤ r.2.reply.buf.getD 0) := by decide +kernel
  obtain ⟨tr, s, hr, hp⟩ := Run.of_exec_any hexec
  exact of_decide_eq_true hp (hall _ _ (by decide +kernel) tr s hr).inside

end WineGlass.Body
