import WineGlass.Lib.CFormat
import WineGlass.Lib.Lines
import WineGlass.Net.Requests

/-!
# Queries about the headers of a response

`WinHttpQueryHeaders` answers a call that gives a buffer and its length in bytes with the text it
is asked for, or with the length it needs.
-/

namespace WineGlass.Headers

open CFormat CStrings Http Lines Requests

-- ---------------------------------------------------------------------------
-- The source
-- ---------------------------------------------------------------------------

/-- What is written to the buffer of a call. -/
inductive Written
  | number (v : U32)
  | text (units : List U16)
  deriving DecidableEq, Repr

/-- What a call returns, what it writes at its buffer and at its length, and the error it sets. -/
structure Outcome where
  ok : Bool
  buffer : Option Written
  length : Option U32
  lastError : Option U32
  deriving DecidableEq, Repr

/-- The arguments of a call: of the pointers, what is at the name and at the length, none being no
pointer, and whether there is a buffer. -/
structure Query where
  infoLevel : U32
  name : Option (List U16)
  buf : Bool
  buflen : Option U32
  deriving DecidableEq, Repr

def notFound : Outcome := ⟨false, none, none, some 12150⟩

/-- A call with too small a buffer. -/
def Query.insufficient (q : Query) (need : U32) : Outcome :=
  ⟨false, none, q.buflen.map fun _ => need, some 122⟩

/-- A query for a number. -/
def Query.number (q : Query) (v : U32) : Outcome :=
  if q.buflen.getD 0 < 4 then q.insufficient 4
  else ⟨true, if q.buf then some (.number v) else none, q.buflen.map fun _ => 4, none⟩

/-- A query for a text whose length is given, none being a write before the host's array. -/
def Query.text (q : Query) (t : List Byte) (len : Nat) : Option Outcome :=
  let need : U32 := BitVec.ofNat 32 ((len + 1) * 2)
  let avail := q.buflen.getD 0
  if avail < need then some (q.insufficient need)
  else if q.buf then
    (writeWstrTo t (avail / 2).toInt).map fun units =>
      ⟨true, some (.text units), q.buflen.map fun _ => need, none⟩
  else some ⟨true, none, q.buflen.map fun _ => need, none⟩

/-- `WinHttpQueryHeaders`, with the request of the handle. -/
def queryHeaders (req : Option Reply) (q : Query) : Option Outcome :=
  match req with
  | none => some notFound
  | some req =>
    let query := q.infoLevel &&& 0xFFFF
    let asNumber := q.infoLevel &&& 0x20000000 ≠ 0
    if !req.headersReceived then some notFound
    else if query = 19 then
      let tmp := decimal req.statusCode.toInt
      if asNumber then some (q.number req.statusCode) else q.text tmp tmp.length
    else if query = 5 then
      let tmp := decimal req.contentLength
      if !req.hasContentLength then some notFound
      else if asNumber then some (q.number (BitVec.ofNat 32 req.contentLength))
      else q.text tmp tmp.length
    else if query = 22 then q.text (cstr req.respHeaders) req.respHeaders.length
    else if query = 20 then q.text req.statusText req.statusText.length
    else if query = 65535 then
      match q.name with
      | none => some notFound
      | some name =>
        match findHeaderValue (cstr req.respHeaders) (readWstr 256 name ++ [colon]) with
        | none => some notFound
        | some val => q.text (val.take 4095) (val.take 4095).length
    else some notFound

-- ---------------------------------------------------------------------------
-- What it stands for
-- ---------------------------------------------------------------------------

/-- The head of a response: the status line and the fields. -/
structure Head where
  status : List Byte
  fields : List Field
  deriving DecidableEq, Repr

/-- The lines of a head, before `s`. -/
def Head.lines (h : Head) (s : List Byte) : List Byte :=
  joined (h.status :: h.fields.map Field.line) s

def Head.block (h : Head) : List Byte := h.lines [cr, lf]

def contentLength : List Byte := str "Content-Length"

/-- The value of the first field of a name. -/
def Head.value (h : Head) (name : List Byte) : Option (List Byte) :=
  (lookup h.fields name).map Field.text

structure Head.WellFormed (h : Head) : Prop where
  status : str "HTTP/" <+: h.status
  line : ∀ c ∈ h.status, c ≠ 0 ∧ c ≠ cr ∧ c ≠ lf
  fields : ∀ f ∈ h.fields, f.WellFormed
  length : ∀ v ∈ h.value contentLength, v ≠ [] ∧ ∀ d ∈ v, isdigit d
  size : h.block.length ≤ 16384

/-- The answer with a text to a call with a buffer of `avail` bytes: the text and its end when they
fit, and the bytes they take. -/
def sized (t : List Byte) (avail : U32) : Outcome :=
  let size := 2 * (t.length + 1)
  if avail.toNat < size then ⟨false, none, some (BitVec.ofNat 32 size), some 122⟩
  else ⟨true, some (.text (t.map (·.setWidth 16) ++ [0])), some (BitVec.ofNat 32 size), none⟩

/-- A text, or that there is none, is what a query is answered with whatever the buffer's length. -/
def Serves (r : Reply) (level : U32) (name : Option (List U16)) (t : Option (List Byte)) : Prop :=
  ∀ avail, queryHeaders (some r) ⟨level, name, true, some avail⟩ =
    some (t.elim notFound (sized · avail))

/-- The length of the body that the head gives is the one recorded. -/
def Head.Recorded (h : Head) (r : Reply) : Prop :=
  match h.value contentLength with
  | some v => r.hasContentLength ∧ r.contentLength = number v
  | none => r.hasContentLength = false

/-- A query by name reads up to 255 characters of it, takes the blanks after a value for its own and
has room for 2047 characters. -/
def Head.Fits (h : Head) (name : List Byte) : Prop :=
  match lookup h.fields (name.take 255), lookup h.fields name with
  | some f, some g => f.text = g.text ∧ f.tail = [] ∧ f.text.length ≤ 2047
  | none, none => True
  | _, _ => False

/-- A length is a number that `atoll` holds, or there is nothing that is taken for one: neither what
an earlier response has left nor the first bytes of the body. -/
def Head.Alone (h : Head) (r : Reply) (early : List Byte) : Prop :=
  match h.value contentLength with
  | some v => number v < 2 ^ 63
  | none => r.hasContentLength = false ∧
      after (cr :: lf :: cstr early) (cr :: lf :: contentLength ++ [colon]) = none

-- ---------------------------------------------------------------------------
-- The answers with a text
-- ---------------------------------------------------------------------------

theorem bytes_toNat {n : Nat} (hn : n < 2 ^ 31 - 1) :
    (BitVec.ofNat 32 (2 * (n + 1))).toNat = 2 * (n + 1) := by
  rw [BitVec.toNat_ofNat, Nat.mod_eq_of_lt (by omega)]

/-- A text that fits is as many bytes as a call with too small a buffer reports. -/
theorem sized_protocol {t : List Byte} (ht : t.length < 2 ^ 31 - 1) {small avail need : U32}
    (hs : sized t small = ⟨false, none, some need, some 122⟩) (ha : need ≤ avail) :
    ∃ units, sized t avail = ⟨true, some (.text units), some need, none⟩ ∧
      2 * units.length = need.toNat := by
  unfold sized at hs
  dsimp only at hs
  split at hs
  · cases hs
    refine ⟨t.map (·.setWidth 16) ++ [0], if_neg ?_, by simp [bytes_toNat ht]⟩
    rw [BitVec.le_def, bytes_toNat ht] at ha
    omega
  · cases hs

theorem writeWstrTo_whole {t : List Byte} {n : Int} (hn : t.length < n) :
    writeWstrTo t n = some ((t.take 2047).map (·.setWidth 16) ++ [0]) := by
  have hlen : (min (t.length : Int) 2047).toNat = min 2047 t.length := by omega
  rw [writeWstrTo, if_neg (by omega), if_neg (by omega), hlen, ← List.take_length (l := t),
    List.take_take]
  simp

variable {q : Query} {t : List Byte}

/-- A text query reports the room for the whole text, and writes up to 2047 characters of it. -/
theorem text_eq (hlen : t.length < 2 ^ 30) (avail : U32) :
    (Query.mk level name true (some avail)).text t t.length =
      if avail.toNat < 2 * (t.length + 1) then
        some ⟨false, none, some (BitVec.ofNat 32 (2 * (t.length + 1))), some 122⟩
      else some ⟨true, some (.text ((t.take 2047).map (·.setWidth 16) ++ [0])),
        some (BitVec.ofNat 32 (2 * (t.length + 1))), none⟩ := by
  rw [Query.text]
  simp only [Option.getD_some, BitVec.lt_def, Nat.mul_comm (t.length + 1) 2,
    bytes_toNat (show t.length < 2 ^ 31 - 1 by omega)]
  split
  · rfl
  · rename_i hroom
    have hhalf : (avail / 2).toInt = avail.toNat / 2 := by
      have hdiv : (avail / 2).toNat = avail.toNat / 2 := BitVec.toNat_udiv
      rw [BitVec.toInt_eq_toNat_of_lt (by omega), hdiv]
      rfl
    rw [if_pos True.intro, hhalf, writeWstrTo_whole (by omega)]
    rfl

theorem byte_eq {a b : Byte} (h : a.setWidth 16 = b.setWidth 16) : a = b := by
  simpa using congrArg (BitVec.setWidth 8) h

/-- The text that is written is the one asked for when it is the same and not too long. -/
theorem text_serves {u : List Byte} (ht : t.length < 2 ^ 30) :
    (∀ avail, (Query.mk level name true (some avail)).text t t.length = some (sized u avail)) ↔
      t = u ∧ u.length ≤ 2047 := by
  constructor
  · intro h
    have hsmall := h 0
    have hlarge := h (BitVec.ofNat 32 (2 * (t.length + 1)))
    rw [text_eq ht, sized] at hsmall hlarge
    rw [bytes_toNat (by omega), if_neg (Nat.lt_irrefl _)] at hlarge
    split at hlarge
    · cases hlarge
    · have hunits : (t.take 2047).map (BitVec.setWidth 16) ++ [0] =
          u.map (BitVec.setWidth 16) ++ [0] := by
        have hout := congrArg (fun o => o.bind Outcome.buffer) hlarge
        simpa using hout
      have htake := List.map_injective_iff.2 (fun _ _ => byte_eq) (List.append_cancel_right hunits)
      have hlen := congrArg List.length htake
      rw [List.length_take] at hlen
      rw [if_pos (by simp), if_pos (by simp)] at hsmall
      have hneed := congrArg (fun o => (o.bind Outcome.length).elim 0 BitVec.toNat) hsmall
      dsimp only [Option.bind_some, Option.elim_some] at hneed
      rw [bytes_toNat (by omega), bytes_toNat (by omega)] at hneed
      rw [List.take_of_length_le (by omega)] at htake
      exact ⟨htake, by omega⟩
  · rintro ⟨rfl, hshort⟩ avail
    rw [text_eq ht, List.take_of_length_le hshort, sized]
    split <;> rfl

-- ---------------------------------------------------------------------------
-- The fields of a head
-- ---------------------------------------------------------------------------

/-- The search of `find_header_value` is one at the starts of lines. -/
theorem headerAt_seek {key : List Byte} (hk : lf ∉ key) (hne : key ≠ []) {fuel : Nat}
    {s : List Byte} (hfuel : s.length < fuel) (prev : Option Byte) :
    headerAt key fuel prev s =
      (seek key (prev = none ∨ prev = some lf) s).map (·.dropWhile isblank) := by
  induction fuel generalizing s prev with
  | zero => cases hfuel
  | succ fuel ih =>
    rw [headerAt]
    cases h : strcasestr s key with
    | none => rw [seek_absent h, Option.map_none]
    | some i =>
      have hle := strstr_le h
      have hpos := List.length_pos_iff.2 hne
      rw [List.length_map, List.length_map] at hle
      have hlast : decide (key.getLast? = none ∨ key.getLast? = some lf) = false := by
        rw [decide_eq_false_iff_not, List.getLast?_eq_none_iff, not_or]
        exact ⟨hne, fun hlast => hk (List.mem_of_getLast? hlast)⟩
      have hbegins :
          (if i = 0 then decide (prev = none ∨ prev = some lf) else s[i - 1]? == some lf) =
          decide ((if i = 0 then prev else s[i - 1]?) = none ∨
            (if i = 0 then prev else s[i - 1]?) = some lf) := by
        split
        · rfl
        · rw [List.getElem?_eq_getElem (by omega)]
          simp [Bool.beq_eq_decide_eq]
      rw [seek_first hk h _ hne, hbegins]
      dsimp only
      generalize (if i = 0 then prev else s[i - 1]?) = before
      by_cases hstart : before = none ∨ before = some lf
      · rw [if_pos (show before = none ∨ before = some (chr '\n') from hstart),
          if_pos (decide_eq_true hstart)]
        rfl
      · rw [if_neg (show ¬(before = none ∨ before = some (chr '\n')) from hstart),
          if_neg (by simpa using hstart), ih (by rw [List.length_drop]; omega), hlast]

/-- The value of a field's line, and of what follows it. -/
theorem rest_value {f : Field} (hf : f.WellFormed) {t : List Byte} (ht : ∀ c ∈ t.head?, c = cr) :
    ((f.rest ++ t).dropWhile isblank).takeWhile (fun c => c != chr '\r' && c != chr '\n') =
      f.text ++ f.tail := by
  have hend : t.dropWhile isblank = t ∧
      t.takeWhile (fun c => c != chr '\r' && c != chr '\n') = [] := by
    cases t with
    | nil => exact ⟨rfl, rfl⟩
    | cons c cs =>
      cases ht c rfl
      exact ⟨rfl, rfl⟩
  have hdrop : (f.rest ++ t).dropWhile isblank = f.text ++ f.tail ++ t := by
    rw [Field.rest, List.append_assoc, List.dropWhile_append_of_pos hf.lead]
    cases hv : f.text with
    | nil => rw [hf.alone hv, List.nil_append, List.nil_append, hend.1]
    | cons c cs =>
      have hc := hf.first c (by rw [hv]; rfl)
      rw [List.cons_append, List.cons_append, List.dropWhile_cons_of_neg (by simp [hc])]
  have hkeep : ∀ c ∈ f.text ++ f.tail, (c != chr '\r' && c != chr '\n') = true := by
    intro c hc
    obtain ⟨-, hcr, hlf⟩ := hf.rest_clean c (List.mem_append_right _ hc)
    simp only [bne_iff_ne, Bool.and_eq_true]
    exact ⟨hcr, hlf⟩
  rw [hdrop, List.takeWhile_append_of_pos hkeep, hend.2, List.append_nil]

/-- What is before the first `c`, and what follows. -/
theorem takeWhile_split {l a : List Byte} {c : Byte} (h : l.takeWhile (· != c) = a) :
    ∃ t, l = a ++ t ∧ ∀ d ∈ t.head?, d = c := by
  refine ⟨l.dropWhile (· != c), ?_, fun d hd => ?_⟩
  · rw [← h, List.takeWhile_append_dropWhile]
  · have hstop := List.head?_dropWhile_not (· != c) l
    rw [hd] at hstop
    simpa using hstop

/-- The status line is no field. -/
theorem status_line {h : Head} (hw : h.WellFormed) {name : List Byte} (hn : Named name) :
    starts (name ++ [colon]) h.status = false := by
  have hslash := hn.key_not_mem (c := chr '/') (by decide) (by decide)
  obtain ⟨u, hu⟩ := hw.status
  have hstop : starts (name ++ [colon]) h.status = starts (name ++ [colon]) (str "HTTP") := by
    rw [← hu]
    exact starts_line hslash (by decide) (str "HTTP") u
  rw [hstop, Bool.eq_false_iff]
  intro hs
  have hcolon : colon ∈ (str "HTTP").map tolower :=
    (starts_iff.1 hs).subset ((mem_lower (by decide)).2 (by simp))
  revert hcolon
  decide

/-- A query by name finds the first field of it, and takes the blanks after the value too. -/
theorem findHeaderValue_fields {h : Head} (hw : h.WellFormed) {name : List Byte} (hn : Named name)
    {e : List Byte} (he : e = [cr] ∨ e = [cr, lf]) :
    findHeaderValue (h.lines e) (name ++ [colon]) =
      (lookup h.fields name).map fun f => f.text ++ f.tail := by
  have hlf := hn.key_not_mem (c := lf) (by decide) (by decide)
  have hcr := hn.key_not_mem (c := cr) (by decide) (by decide)
  have hnil : starts (name ++ [colon]) [] = false := by simp [starts]
  have hend : seek (name ++ [colon]) true e = none := by
    rcases he with rfl | rfl
    · rw [seek, ← List.nil_append [cr], starts_line hcr (by decide), hnil]
      rfl
    · exact (seek_line List.not_mem_nil hcr hnil []).trans rfl
  have hseek := seek_fields hn hw.fields hend
  rw [findHeaderValue, headerAt_seek hlf (by simp) (Nat.lt_succ_self _), Head.lines, joined,
    List.foldr_cons, ← joined, decide_eq_true (Or.inl rfl),
    seek_line (fun hmem => (hw.line lf hmem).2.2 rfl) hcr (status_line hw hn), Option.map_map]
  cases hfind : lookup h.fields name with
  | none =>
    rw [hfind] at hseek
    rw [Option.map_eq_none_iff.1 hseek]
    rfl
  | some f =>
    rw [hfind] at hseek
    obtain ⟨v, hv, hcut⟩ := Option.map_eq_some_iff.1 hseek
    obtain ⟨t, rfl, ht⟩ := takeWhile_split hcut
    rw [hv, Option.map_some, Option.map_some]
    exact congrArg some (rest_value (hw.fields f (List.mem_of_find?_eq_some hfind)) ht)

-- ---------------------------------------------------------------------------
-- The response
-- ---------------------------------------------------------------------------

theorem joined_append (ls : List (List Byte)) (s : List Byte) :
    joined ls s = joined ls [] ++ s := by
  induction ls with
  | nil => rfl
  | cons l ls ih =>
    rw [joined, List.foldr_cons, ← joined, ih, joined, joined, List.foldr_cons]
    simp

theorem mem_joined {ls : List (List Byte)} {p : Byte → Prop} (hls : ∀ l ∈ ls, ∀ c ∈ l, p c)
    (hcr : p cr) (hlf : p lf) {s : List Byte} (hs : ∀ c ∈ s, p c) : ∀ c ∈ joined ls s, p c := by
  induction ls with
  | nil => exact hs
  | cons l ls ih =>
    have ih := ih fun m hm => hls m (List.mem_cons_of_mem l hm)
    simp only [joined, List.foldr_cons, List.mem_append, List.mem_cons] at ih ⊢
    rintro c (hc | rfl | rfl | hc)
    · exact hls l List.mem_cons_self c hc
    · exact hcr
    · exact hlf
    · exact ih c hc

theorem Head.block_append (h : Head) (s : List Byte) : h.block ++ s = h.lines (cr :: lf :: s) := by
  rw [Head.block, Head.lines, Head.lines, joined_append, List.append_assoc,
    joined_append _ (_ :: _)]
  rfl

namespace Head.WellFormed

variable {h : Head}

theorem lines_clean (hw : h.WellFormed) :
    ∀ l ∈ h.status :: h.fields.map Field.line, ∀ c ∈ l, c ≠ 0 ∧ c ≠ cr ∧ c ≠ lf := by
  intro l hl
  rcases List.mem_cons.1 hl with rfl | hl
  · exact hw.line
  · obtain ⟨f, hf, rfl⟩ := List.mem_map.1 hl
    exact (hw.fields f hf).clean

theorem zero_free (hw : h.WellFormed) : ∀ c ∈ h.block, c ≠ 0 :=
  mem_joined (fun l hl c hc => (hw.lines_clean l hl c hc).1) (by decide) (by decide) (by decide)

/-- A head is the whole of its string, and what follows it is there up to its end. -/
theorem cstr_block (hw : h.WellFormed) (s : List Byte) : cstr (h.block ++ s) = h.block ++ cstr s :=
  List.takeWhile_append_of_pos fun c hc => bne_iff_ne.2 (hw.zero_free c hc)

theorem cstr_take (hw : h.WellFormed) (n : Nat) : cstr (h.block.take n) = h.block.take n := by
  refine List.takeWhile_eq_self_iff.2 fun c hc => bne_iff_ne.2 ?_
  exact hw.zero_free c (List.mem_of_mem_take hc)

theorem blank_line (hw : h.WellFormed) (s : List Byte) :
    strstr (h.block ++ s) blankLine = some (h.block.length - 4) := by
  have hlines := hw.lines_clean
  rw [h.block_append, show blankLine = [cr, lf, cr, lf] by decide, Head.lines,
    strstr_blank fun hc => (hw.line cr hc).2.1 rfl]
  · rw [Head.block, Head.lines, joined_append _ [cr, lf], List.length_append]
    rfl
  · intro l hl
    refine ⟨?_, fun hc => (hlines l (List.mem_cons_of_mem _ hl) cr hc).2.1 rfl⟩
    obtain ⟨f, -, rfl⟩ := List.mem_map.1 hl
    simp [Field.line]

theorem four_le (hw : h.WellFormed) : 4 ≤ h.block.length := by
  have hle := strstr_le (hw.blank_line [])
  simp [blankLine, str] at hle
  omega

/-- The headers that are kept of a head. -/
theorem take_block (hw : h.WellFormed) :
    ∃ e, h.block.take 16383 = h.lines e ∧ (e = [cr] ∨ e = [cr, lf]) := by
  have hsize := hw.size
  rw [Head.block, Head.lines, joined_append] at hsize ⊢
  rw [List.length_append, List.length_cons, List.length_singleton] at hsize
  rcases Nat.lt_or_eq_of_le hsize with hlt | heq
  · refine ⟨[cr, lf], ?_, Or.inr rfl⟩
    rw [Head.lines, joined_append _ [cr, lf], List.take_of_length_le]
    rw [List.length_append, List.length_cons, List.length_singleton]
    omega
  · refine ⟨[cr], ?_, Or.inl rfl⟩
    rw [Head.lines, joined_append _ [cr], List.take_append, List.take_of_length_le (by omega),
      show 16383 - (joined (h.status :: h.fields.map Field.line) []).length = 1 by omega]
    rfl

end Head.WellFormed

theorem scanStatus_text {raw : List Byte} (h : scanStatus raw = some (code, text)) :
    text.length ≤ 127 := by
  unfold scanStatus at h
  split at h
  · simp only [Option.bind_eq_bind, Option.bind_eq_some_iff] at h
    obtain ⟨_, _, _, _, _, _, _, _, hlast⟩ := h
    cases hlast
    exact List.length_take_le ..
  · cases h

/-- What the reads find of a response is its head, with the part of the body that they have got. -/
theorem readHead_block {h : Head} (hw : h.WellFormed) {raw rest : List Byte}
    (hr : readHead reads [] (h.block ++ (early ++ rest)) = (some (raw, n), rest)) :
    raw = h.block ++ early ∧ n = h.block.length := by
  obtain ⟨hall, i, hi, rfl⟩ := readHead_spec hr
  rw [List.nil_append, ← List.append_assoc] at hall
  cases List.append_cancel_right hall
  rw [hw.cstr_block, hw.blank_line] at hi
  have hfour := hw.four_le
  cases hi
  exact ⟨rfl, by omega⟩

/-- What a response leaves in its slot. -/
theorem received {h : Head} (hw : h.WellFormed) {r r' : Reply}
    (hr : r.receiveHeaders reads (h.block ++ (early ++ rest)) = (true, r', rest)) :
    r'.headersReceived ∧ r'.respHeaders = h.block.take 16383 ∧ r'.statusText.length ≤ 127 ∧
      (r'.hasContentLength, r'.contentLength) =
        (lengthIn (h.block ++ cstr early)).elim (r.hasContentLength, r.contentLength)
          (true, ·) := by
  unfold Reply.receiveHeaders at hr
  cases hhead : readHead reads [] (h.block ++ (early ++ rest)) with
  | mk found rest' =>
    rw [hhead] at hr
    cases found with
    | none => cases hr
    | some x =>
      obtain ⟨raw, n⟩ := x
      dsimp only at hr
      cases hscan : scanStatus (cstr raw) with
      | none =>
        rw [hscan] at hr
        cases hr
      | some x =>
        obtain ⟨code, text⟩ := x
        rw [hscan] at hr
        dsimp only at hr
        cases hr
        obtain ⟨rfl, rfl⟩ := readHead_block hw hhead
        refine ⟨rfl, ?_, scanStatus_text hscan, ?_⟩
        · rw [List.take_left]
        · rw [hw.cstr_block]
          cases lengthIn (h.block ++ cstr early) <;>
            cases (h.block ++ early).drop h.block.length <;> rfl

-- ---------------------------------------------------------------------------
-- The queries
-- ---------------------------------------------------------------------------

/-- The name of a query, as the source reads it. -/
theorem readWstr_name {name : List Byte} (hn : Named name) (junk : List U16) :
    readWstr 256 (name.map (·.setWidth 16) ++ 0 :: junk) = name.take 255 := by
  have hsmall : ∀ c ∈ name, c.toNat < 128 ∧ c ≠ 0 := by
    intro c hc
    have ht := hn.tchars c hc
    simp only [tchar, Bool.and_eq_true, decide_eq_true_eq, BitVec.le_def] at ht
    refine ⟨Nat.lt_of_le_of_lt ht.1.2 (by decide), ?_⟩
    rintro rfl
    exact absurd ht.1.1 (by decide)
  rw [readWstr, List.takeWhile_append_of_pos, List.takeWhile_cons_of_neg (by simp), List.append_nil,
    ← List.map_take, List.map_map]
  · refine (List.map_congr_left fun c hc => ?_).trans (List.map_id _)
    have hc := hsmall c (List.mem_of_mem_take hc)
    dsimp only [Function.comp, id]
    rw [if_pos]
    · simp
    · rw [BitVec.lt_def, BitVec.toNat_setWidth_of_le (by decide)]
      exact hc.1
  · intro c hc
    obtain ⟨d, hd, rfl⟩ := List.mem_map.1 hc
    refine bne_iff_ne.2 fun h => (hsmall d hd).2 (byte_eq h)

section Queries

variable {h : Head} {r r' : Reply}

/-- The query for a field. -/
theorem custom_eq (hw : h.WellFormed) (hreceived : r'.headersReceived)
    (hheaders : r'.respHeaders = h.block.take 16383) {name : List Byte} (hn : Named name)
    (junk : List U16) (avail : U32) :
    queryHeaders (some r') ⟨65535, some (name.map (·.setWidth 16) ++ 0 :: junk), true, some avail⟩ =
      ((lookup h.fields (name.take 255)).map fun f => (f.text ++ f.tail).take 4095).elim
        (some notFound) fun t => (Query.mk 65535 (some (name.map (·.setWidth 16) ++ 0 :: junk)) true
          (some avail)).text t t.length := by
  obtain ⟨e, htake, he⟩ := hw.take_block
  have hname : Named (name.take 255) := by
    refine ⟨?_, fun c hc => hn.tchars c (List.mem_of_mem_take hc)⟩
    simpa using hn.nonempty
  rw [queryHeaders, hreceived, hheaders, hw.cstr_take, htake]
  simp only [readWstr_name hn, findHeaderValue_fields hw hname he]
  cases lookup h.fields (name.take 255) <;> rfl

/-- What a query takes for the value of a field. -/
theorem value_iff {f : Field} {u : List Byte} (hlast : ∀ c ∈ u.getLast?, isblank c = false)
    (hf : f.WellFormed) :
    (f.text ++ f.tail).take 4095 = u ∧ u.length ≤ 2047 ↔
      f.text = u ∧ f.tail = [] ∧ f.text.length ≤ 2047 := by
  constructor
  · rintro ⟨rfl, hshort⟩
    rw [List.length_take] at hshort
    rw [List.take_of_length_le (by omega)] at hlast ⊢
    have hnone : f.tail = [] := by
      cases htail : f.tail.getLast? with
      | none => exact List.getLast?_eq_none_iff.1 htail
      | some c =>
        have hblank := hf.tail c (List.mem_of_getLast? htail)
        rw [hlast c (by rw [List.getLast?_append, htail]; rfl)] at hblank
        cases hblank
    rw [hnone, List.append_nil] at hshort ⊢
    exact ⟨rfl, rfl, by omega⟩
  · rintro ⟨rfl, hnone, hshort⟩
    rw [hnone, List.append_nil, List.take_of_length_le (by omega)]
    exact ⟨rfl, hshort⟩

/-- A query by name is answered with the value when the name and the value are not too long and
there are no blanks after the value. -/
theorem custom_serves (hw : h.WellFormed) (hreceived : r'.headersReceived)
    (hheaders : r'.respHeaders = h.block.take 16383) {name : List Byte} (hn : Named name) :
    (∀ junk, Serves r' 65535 (some (name.map (·.setWidth 16) ++ 0 :: junk)) (h.value name)) ↔
      h.Fits name := by
  have htaken : ∀ f : Field, ((f.text ++ f.tail).take 4095).length < 2 ^ 30 := fun f =>
    Nat.lt_of_le_of_lt (List.length_take_le ..) (by decide)
  simp only [Serves, custom_eq hw hreceived hheaders hn, Head.value, Head.Fits]
  cases hcut : lookup h.fields (name.take 255) with
  | none =>
    cases lookup h.fields name with
    | none => simp
    | some g =>
      refine iff_of_false (fun hall => ?_) id
      have hfirst := hall [] 0
      simp [sized, notFound] at hfirst
  | some f =>
    cases hfind : lookup h.fields name with
    | none =>
      refine iff_of_false (fun hall => ?_) id
      have hfirst := hall [] 0
      rw [Option.map_some, Option.elim_some, text_eq (htaken f), if_pos (by simp)] at hfirst
      simp [notFound] at hfirst
    | some g =>
      have hf := hw.fields f (List.mem_of_find?_eq_some hcut)
      have hg := hw.fields g (List.mem_of_find?_eq_some hfind)
      refine Iff.trans ?_ (value_iff hg.last hf)
      exact ⟨fun hall => (text_serves (htaken f)).1 (hall []),
        fun hboth junk => (text_serves (htaken f)).2 hboth⟩

/-- The number that `atoll` makes of the value of a field. -/
theorem atoll_value {f : Field} (hf : f.WellFormed) (hne : f.text ≠ [])
    (hdigits : ∀ d ∈ f.text, isdigit d) {t : List Byte} (ht : ∀ c ∈ t.head?, c = cr) :
    (atoll (f.rest ++ t)).toNat = min (number f.text) (2 ^ 63 - 1) := by
  have hblank : ∀ c, isblank c → isspace c ∧ isdigit c = false := by
    intro c hc
    simp only [isblank, Bool.or_eq_true, beq_iff_eq] at hc
    rcases hc with rfl | rfl <;> decide
  have hstop : ∀ c ∈ (f.tail ++ t).head?, isdigit c = false := by
    cases htail : f.tail with
    | nil =>
      rintro c hc
      rw [ht c hc]
      rfl
    | cons d ds =>
      rintro c ⟨⟩
      exact (hblank d (hf.tail d (by simp [htail]))).2
  have hnumber := atoll_number (fun c hc => (hblank c (hf.lead c hc)).1) hne hdigits hstop
  have hclamp : clamp (number f.text) = (min (number f.text) (2 ^ 63 - 1) : Nat) := by
    unfold clamp
    omega
  rw [Field.rest, List.append_assoc, List.append_assoc, hnumber, hclamp, BitVec.ofInt_natCast,
    BitVec.toNat_ofNat, Nat.mod_eq_of_lt (by omega)]

theorem received_length (hr : r.contentLength < 2 ^ 64)
    (hlength : (r'.hasContentLength, r'.contentLength) =
      (lengthIn raw).elim (r.hasContentLength, r.contentLength) (true, ·)) :
    (r'.contentLength : Int).natAbs < 10 ^ 20 := by
  have hsnd := congrArg Prod.snd hlength
  rw [lengthIn] at hsnd
  rw [Int.natAbs_natCast]
  cases hfind : strcasestr raw (str "\r\nContent-Length:") with
  | none =>
    rw [hfind] at hsnd
    exact lt_of_eq_of_lt hsnd (Nat.lt_trans hr (by decide))
  | some i =>
    rw [hfind] at hsnd
    exact lt_of_eq_of_lt hsnd (Nat.lt_trans (BitVec.isLt _) (by decide))

/-- The length of the body. -/
theorem recorded_iff (hw : h.WellFormed)
    (hlength : (r'.hasContentLength, r'.contentLength) =
      (lengthIn (h.block ++ cstr early)).elim (r.hasContentLength, r.contentLength) (true, ·)) :
    h.Recorded r' ↔ h.Alone r early := by
  have hkey : str "\r\nContent-Length:" = cr :: lf :: contentLength ++ [colon] := rfl
  have hnamed : Named contentLength := ⟨by decide, List.all_eq_true.1 (by decide +kernel)⟩
  have hsearch := after_fields (fun hc => (hw.line cr hc).2.1 rfl) hnamed hw.fields (cstr early)
  have hin : lengthIn (h.block ++ cstr early) =
      (after (h.lines (cr :: lf :: cstr early)) (cr :: lf :: contentLength ++ [colon])).map
        fun v => (atoll v).toNat := by
    rw [← h.block_append, lengthIn, after, Option.map_map, hkey]
    rfl
  rw [hin] at hlength
  rw [← Head.lines] at hsearch
  unfold Head.Recorded Head.Alone Head.value
  cases hfind : lookup h.fields contentLength with
  | none =>
    rw [hfind, Option.map_none, Option.none_or] at hsearch
    cases hlate : after (cr :: lf :: cstr early) (cr :: lf :: contentLength ++ [colon]) with
    | none =>
      rw [hlate, Option.map_none, Option.map_eq_none_iff] at hsearch
      rw [hsearch] at hlength
      have hhas := congrArg Prod.fst hlength
      dsimp only [Option.map_none, Option.elim_none] at hhas
      simp [hhas]
    | some v =>
      rw [hlate, Option.map_some] at hsearch
      obtain ⟨w, hw, -⟩ := Option.map_eq_some_iff.1 hsearch
      rw [hw] at hlength
      have hhas := congrArg Prod.fst hlength
      dsimp only [Option.map_some, Option.elim_some] at hhas
      simp [hhas]
  | some f =>
    rw [hfind] at hsearch
    obtain ⟨v, hv, hcut⟩ := Option.map_eq_some_iff.1 hsearch
    obtain ⟨t, rfl, ht⟩ := takeWhile_split hcut
    obtain ⟨hne, hdigits⟩ := hw.length f.text (by rw [Head.value, hfind]; rfl)
    have hvalue := atoll_value (hw.fields f (List.mem_of_find?_eq_some hfind)) hne hdigits ht
    rw [hv, Option.map_some, Option.elim_some, hvalue] at hlength
    obtain ⟨hhas, hlen⟩ := Prod.mk.inj hlength
    simp only [Option.map_some, hhas, hlen, true_and]
    omega

/-- A query for a short text of the response. -/
theorem serves_short {level : U32} {name : Option (List U16)} {t : List Byte} (ht : t.length ≤ 2047)
    (hq : ∀ avail, queryHeaders (some r') ⟨level, name, true, some avail⟩ =
      (Query.mk level name true (some avail)).text t t.length) :
    Serves r' level name (some t) := by
  intro avail
  rw [hq avail]
  exact (text_serves (Nat.lt_of_le_of_lt ht (by decide))).2 ⟨rfl, ht⟩ avail

/-- What the queries about a response give. By name it is the value of the field, for names and
values that are not too long and have no blanks after them; the length of the body is that of the
head unless the first bytes of the body have one; and a text has the size that is reported, the
whole head up to 2047 characters. -/
theorem headers_law {h : Head} (hw : h.WellFormed) {r r' : Reply} (hr : r.contentLength < 2 ^ 64)
    (hrec : r.receiveHeaders reads (h.block ++ (early ++ rest)) = (true, r', rest)) :
    (∀ name, Named name →
      ((∀ junk, Serves r' 65535 (some (name.map (·.setWidth 16) ++ 0 :: junk)) (h.value name)) ↔
        h.Fits name)) ∧
    (h.Recorded r' ↔ h.Alone r early) ∧
    ∀ name, (Serves r' 22 name (some h.block) ↔ h.block.length ≤ 2047) ∧
      Serves r' 19 name (some (decimal r'.statusCode.toInt)) ∧
      Serves r' 20 name (some r'.statusText) ∧
      Serves r' 5 name
        (if r'.hasContentLength then some (decimal r'.contentLength) else none) := by
  obtain ⟨hreceived, hheaders, htext, hlength⟩ := received hw hrec
  refine ⟨fun name hn => custom_serves hw hreceived hheaders hn, recorded_iff hw hlength,
    fun name => ⟨?_, ?_, ?_, ?_⟩⟩
  · have hq : ∀ avail, queryHeaders (some r') ⟨22, name, true, some avail⟩ =
        (Query.mk 22 name true (some avail)).text (h.block.take 16383)
          (h.block.take 16383).length := by
      intro avail
      simp [queryHeaders, hreceived, hheaders, hw.cstr_take]
    have htake := List.length_take_le 16383 h.block
    simp only [Serves, hq]
    refine (text_serves (by omega)).trans ⟨And.right, fun hshort => ⟨?_, hshort⟩⟩
    exact List.take_of_length_le (by omega)
  · have hfit : r'.statusCode.toInt.natAbs < 10 ^ 20 := by
      have hlt := BitVec.toInt_lt (x := r'.statusCode)
      have hle := BitVec.le_toInt r'.statusCode
      omega
    refine serves_short (Nat.le_trans (decimal_length (k := 20) (by decide) hfit) (by decide)) fun avail => ?_
    simp [queryHeaders, hreceived]
  · refine serves_short (by omega) fun avail => ?_
    simp [queryHeaders, hreceived]
  · cases hhas : r'.hasContentLength with
    | false => exact fun avail => by simp [queryHeaders, hreceived, hhas]
    | true =>
      have hfit := received_length hr hlength
      refine serves_short (Nat.le_trans (decimal_length (k := 20) (by decide) hfit) (by decide)) fun avail => ?_
      simp [queryHeaders, hreceived, hhas]

end Queries

/-- A head with a field, and one with none. -/
def typed : Head := ⟨str "HTTP/1.1 200 OK", [⟨str "Type", str " ", str "a", []⟩]⟩

def bare : Head := ⟨str "HTTP/1.1 200 OK", []⟩

def keeps (c : Byte) : Bool := c != 0 && (c != cr && c != lf)

theorem keeps_all {l : List Byte} (h : l.all keeps) : ∀ c ∈ l, c ≠ 0 ∧ c ≠ cr ∧ c ≠ lf := by
  intro c hc
  have hk := List.all_eq_true.1 h c hc
  simpa only [keeps, Bool.and_eq_true, bne_iff_ne] using hk

theorem typed_wellFormed : typed.WellFormed where
  status := ⟨_, rfl⟩
  line := keeps_all (by decide +kernel)
  fields f hf := by
    cases List.mem_singleton.1 hf
    exact ⟨⟨by decide, List.all_eq_true.1 (by decide +kernel)⟩, by decide, by simp, by decide,
      by decide, by simp, keeps_all (by decide +kernel)⟩
  length := by
    have hnone : typed.value contentLength = none := by decide +kernel
    rw [hnone]
    simp
  size := by decide +kernel

theorem headers_law_typed : ∃ r : Reply, Serves r 65535
    (some ((str "type").map (·.setWidth 16) ++ 0 :: [])) (some (str "a")) := by
  have hrec : blank.receiveHeaders [64] (typed.block ++ ([] ++ [])) =
      (true, (blank.receiveHeaders [64] (typed.block ++ ([] ++ []))).2.1, []) := by decide +kernel
  have hname : Named (str "type") := ⟨by decide, List.all_eq_true.1 (by decide +kernel)⟩
  have hfits : typed.Fits (str "type") := ⟨rfl, rfl, by decide⟩
  exact ⟨_, ((headers_law typed_wellFormed (by decide) hrec).1 _ hname).2 hfits []⟩

/-- The first bytes of the body are taken for a field. -/
theorem body_length : ∃ (h : Head) (r : Reply), h.WellFormed ∧ h.value contentLength = none ∧
    blank.receiveHeaders [64] (h.block ++ (str "Content-Length: 5" ++ [])) = (true, r, []) ∧
    ¬ h.Recorded r := by
  refine ⟨bare, (blank.receiveHeaders [64] (bare.block ++ (str "Content-Length: 5" ++ []))).2.1,
    ?_, rfl, ?_, ?_⟩
  · exact ⟨⟨_, rfl⟩, keeps_all (by decide +kernel), by simp [bare],
      by simp [bare, Head.value, lookup], by decide +kernel⟩
  · decide +kernel
  · show ¬ (_ = false)
    decide +kernel

end WineGlass.Headers
