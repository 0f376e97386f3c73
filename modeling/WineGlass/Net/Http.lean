import WineGlass.Lib.CStrings

/-!
# Responses

What `wg_winhttp.c` reads of a response. A connection is the bytes that the host has still to
deliver; a read asks for a number of bytes and gets what is there, a number that the host
chooses, nothing being the end of the connection or an error.
-/

namespace WineGlass.Http

open CStrings

abbrev U16 := BitVec 16
abbrev U32 := BitVec 32

/-- The fields of `WGHttpSlot` for a response. `data` is what `buf` holds, `bufLen` bytes, and
`buf` the size of its allocation. -/
structure Reply where
  statusCode : U32
  statusText : List Byte
  respHeaders : List Byte
  buf : Option Nat
  data : List Byte
  bufPos : Nat
  contentLength : Nat
  hasContentLength : Bool
  headersReceived : Bool
  totalBodyRead : Nat
  deriving DecidableEq, Repr

/-- The fields of a new request. -/
def blank : Reply := ⟨0, [], [], none, [], 0, 0, false, false, 0⟩

/-- `slot_read` of `len` bytes where the host has `k` ready, and what it has left. -/
def slotRead (rest : List Byte) (len k : Nat) : List Byte × List Byte :=
  (rest.take (min len k), rest.drop (min len k))

/-- The end of the headers. -/
def blankLine : List Byte := str "\r\n\r\n"

/-- The loop of `http_receive_headers`: what is read, and the length of the headers in it. -/
def readHead : List Nat → List Byte → List Byte → Option (List Byte × Nat) × List Byte
  | [], _, rest => (none, rest)
  | k :: ks, raw, rest =>
    if raw.length < 32767 then
      let (got, rest) := slotRead rest (32767 - raw.length) k
      if got.isEmpty then (none, rest)
      else match strstr (cstr (raw ++ got)) blankLine with
        | some i => (some (raw ++ got, i + 4), rest)
        | none => readHead ks (raw ++ got) rest
    else (none, rest)

/-- `sscanf` with the format of a status line, whose blanks skip line ends too. -/
def scanStatus (raw : List Byte) : Option (U32 × List Byte) :=
  if (str "HTTP/").isPrefixOf raw then do
    let (_, raw) ← strtol (raw.drop 5)
    guard (raw.head? = some (chr '.'))
    let (_, raw) ← strtol (raw.drop 1)
    let (code, raw) ← strtol raw
    let text := (raw.dropWhile isspace).takeWhile fun c => c != chr '\r' && c != chr '\n'
    some (BitVec.ofInt 32 code, text.take 127)
  else none

/-- The value of the first `Content-Length` in a string. -/
def lengthIn (raw : List Byte) : Option Nat :=
  (strcasestr raw (str "\r\nContent-Length:")).map fun i => (atoll (raw.drop (i + 17))).toNat

/-- `http_receive_headers`, with what the connection has left. -/
def Reply.receiveHeaders (r : Reply) (reads : List Nat) (stream : List Byte) :
    Bool × Reply × List Byte :=
  match readHead reads [] stream with
  | (none, rest) => (false, r, rest)
  | (some (raw, hdrLen), rest) =>
    match scanStatus (cstr raw) with
    | none => (false, r, rest)
    | some (statusCode, statusText) =>
      let r := match lengthIn (cstr raw) with
        | some n => { r with contentLength := n, hasContentLength := true }
        | none => r
      let extra := raw.drop hdrLen
      let r := if extra.isEmpty then r else { r with buf := some extra.length, data := extra }
      (true, { r with statusCode, statusText, respHeaders := (raw.take hdrLen).take 16383,
                      headersReceived := true }, rest)

/-- The loop of `find_header_value`, `prev` being what comes before `s`. -/
def headerAt (name : List Byte) : Nat → Option Byte → List Byte → Option (List Byte)
  | 0, _, _ => none
  | fuel + 1, prev, s =>
    match strcasestr s name with
    | none => none
    | some i =>
      let before := if i = 0 then prev else s[i - 1]?
      let p := s.drop (i + name.length)
      if before = none ∨ before = some (chr '\n') then
        some (p.dropWhile fun c => c == chr ' ' || c == chr '\t')
      else headerAt name fuel name.getLast? p

/-- `find_header_value`, up to the end of the line. -/
def findHeaderValue (headers name : List Byte) : Option (List Byte) :=
  (headerAt name (headers.length + 1) none headers).map
    (·.takeWhile fun c => c != chr '\r' && c != chr '\n')

-- ---------------------------------------------------------------------------
-- Headers
-- ---------------------------------------------------------------------------

@[simp] theorem slotRead_append (rest : List Byte) (len k : Nat) :
    (slotRead rest len k).1 ++ (slotRead rest len k).2 = rest := List.take_append_drop ..

theorem slotRead_le (rest : List Byte) (len k : Nat) : (slotRead rest len k).1.length ≤ len :=
  Nat.le_trans (List.length_take_le ..) (Nat.min_le_left ..)

/-- The headers of a response are those of the stream it begins, and what was read after them
is what the stream has next. -/
theorem readHead_spec (h : readHead ks raw rest = (some (raw', n), rest')) :
    raw' ++ rest' = raw ++ rest ∧ ∃ i, strstr (cstr raw') blankLine = some i ∧ n = i + 4 := by
  induction ks generalizing raw rest with
  | nil => cases h
  | cons k ks ih =>
    rw [readHead] at h
    split at h
    · dsimp only at h
      split at h
      · cases h
      · have hall : raw ++ (slotRead rest (32767 - raw.length) k).1 ++
            (slotRead rest (32767 - raw.length) k).2 = raw ++ rest := by
          rw [List.append_assoc, slotRead_append]
        split at h
        · rename_i i hi
          cases h
          exact ⟨hall, i, hi, rfl⟩
        · obtain ⟨happ, hfound⟩ := ih h
          exact ⟨happ.trans hall, hfound⟩
    · cases h

end WineGlass.Http
