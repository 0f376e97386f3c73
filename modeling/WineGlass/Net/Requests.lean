import Mathlib.Data.List.FinRange
import WineGlass.Lib.Run
import WineGlass.Net.Redirect

/-!
# Sessions, connections and requests

The three kinds of WinHTTP objects share a table of 16 slots, and a handle is the number of a
slot, which the next object of any kind may get after a close. A request keeps the handle of its
connection.
-/

namespace WineGlass.Requests

open CStrings Http Runs Uri

/-- `WG_MAX_HTTP` slots. -/
abbrev Slot := Fin 16

abbrev Table := Slot → HttpSlot

def handleOf (i : Slot) : U32 := 0x3000 + BitVec.ofNat 32 i

local instance slots_pos : NeZero 16 := ⟨Nat.succ_ne_zero 15⟩

def slotOf (h : U32) : Option Slot :=
  if 0x3000 ≤ h ∧ h < 0x3010 then some (Fin.ofNat 16 (h - 0x3000).toNat) else none

/-- A slot after `memset`. -/
def empty : HttpSlot := ⟨.none, false, 0, [], 0, 0, [], false, none, blank, by decide⟩

/-- The slot `alloc_handle` takes. -/
def Table.unused (t : Table) : Option Slot := (List.finRange 16).find? fun i => !(t i).inUse

/-- `get_slot` -/
def Table.get (t : Table) (h : U32) : Option Slot :=
  (slotOf h).bind fun i => if (t i).inUse then some i else none

/-- The slot of a handle that is to be of a kind. -/
def Table.getKind (t : Table) (type : Kind) (h : U32) : Option Slot :=
  (t.get h).bind fun i => if (t i).type = type then some i else none

/-- `read_wstr`, the memory at the pointer given. -/
def readWstr (max : Nat) (w : List U16) : List Byte :=
  ((w.takeWhile (· != 0)).take (min max 2048 - 1)).map fun c =>
    if c < 128 then c.setWidth 8 else chr '?'

/-- `write_wstr_to`, none being a write before the host's array. -/
def writeWstrTo (t : List Byte) (maxChars : Int) : Option (List U16) :=
  let len : Int := if maxChars ≤ t.length then maxChars - 1 else t.length
  let wlen := min len 2047
  if wlen < 0 then none else some ((t.take wlen.toNat).map (·.setWidth 16) ++ [0])

theorem readWstr_length (w : List U16) : (readWstr 512 w).length < 512 := by
  rw [readWstr, List.length_map, List.length_take]
  omega

-- ---------------------------------------------------------------------------
-- Calls
-- ---------------------------------------------------------------------------

/-- What a call returns: a handle, 0 being none, or whether it has succeeded and the URLs it has
connected to, or tried to. -/
inductive Result
  | handle (h : U32)
  | answer (ok : Bool) (asked : List Url)
  deriving DecidableEq, Repr

/-- A slot for a new object. -/
def Table.alloc (t : Table) (slot : HttpSlot) : Option Slot × Table :=
  match t.unused with
  | none => (none, t)
  | some i => (some i, Function.update t i { slot with inUse := true })

/-- `WinHttpOpen` -/
def Table.openSession (t : Table) : Option Slot × Table := t.alloc { empty with type := .session }

/-- `WinHttpConnect` -/
def Table.connect (t : Table) (session : U32) (server : List U16) (port : U32) :
    Option Slot × Table :=
  match t.getKind .session session with
  | none => (none, t)
  | some _ => t.alloc { empty with
      type := .connect, sessionH := session, server := readWstr 512 server,
      port := port.setWidth 16, fits := readWstr_length server }

/-- The slot `WinHttpOpenRequest` makes. -/
def newRequest (conn : U32) (path : Option (List U16)) (flags : U32) : HttpSlot :=
  { empty with
    type := .request, connectH := conn, path := path.elim (str "/") (readWstr 4096)
    useSsl := flags &&& 0x00800000 != 0 }

/-- `WinHttpOpenRequest` -/
def Table.openRequest (t : Table) (conn : U32) (path : Option (List U16)) (flags : U32) :
    Option Slot × Table :=
  match t.getKind .connect conn with
  | none => (none, t)
  | some _ => t.alloc (newRequest conn path flags)

/-- Where `WinHttpSendRequest` sends a request. -/
def urlOf (req conn : HttpSlot) : Url where
  https := req.useSsl
  host := conn.server
  port := if conn.port = 0 then defaultPort req.useSsl else conn.port
  path := if req.path.isEmpty then str "/" else req.path

/-- `WinHttpSendRequest` -/
def Table.sendRequest (t : Table) (h : U32) (connect : Connect) (wrote : Bool) :
    (Bool × List Url) × Table :=
  match t.getKind .request h with
  | none => ((false, []), t)
  | some i =>
    match t.get (t i).connectH with
    | none => ((false, []), t)
    | some c =>
      let req := t i
      ((connect.opened req.useSsl ≠ none ∧ wrote, [urlOf req (t c)]),
        Function.update t i { req with fd := connect.leaves req.useSsl req.fd })

/-- `WinHttpReceiveResponse` -/
def Table.receiveResponse (t : Table) (h : U32) (reads : List Nat) (stream : List Byte)
    (hops : List Hop) : (Bool × List Url) × Table :=
  match t.getKind .request h with
  | none => ((false, []), t)
  | some i =>
    let req := t i
    if req.fd = none then ((false, []), t)
    else
      let (ok, reply, _) := req.reply.receiveHeaders reads stream
      if ok then
        let (asked, req) := redirects ((t.get req.connectH).map t) 5 hops { req with reply }
        ((req.reply.headersReceived, asked), Function.update t i req)
      else ((false, []), t)

/-- `WinHttpCloseHandle` -/
def Table.closeHandle (t : Table) (h : U32) : Table :=
  match t.get h with
  | none => t
  | some i =>
    let slot := t i
    Function.update t i { slot with
      type := .none, inUse := false, fd := none, reply := { slot.reply with buf := none, data := [] } }

inductive Action
  | openSession
  | connect (session : U32) (server : List U16) (port : U32)
  | openRequest (conn : U32) (path : Option (List U16)) (flags : U32)
  | send (h : U32) (connect : Connect) (wrote : Bool)
  | receive (h : U32) (reads : List Nat) (stream : List Byte) (hops : List Hop)
  | close (h : U32)

-- ---------------------------------------------------------------------------
-- What the guest may rely on
-- ---------------------------------------------------------------------------

/-- What a request was opened with: its connection object, with the server and the port it had,
and whether it was to be secure. The URL is that of the connection it has now. -/
structure Note where
  conn : Nat
  server : List Byte
  port : U16
  secure : Bool
  url : Option Url

/-- The table with notes that are not in the source: the number of the object in each slot, how
many have been made, and a note for each request. -/
structure Sys where
  table : Table
  objects : Slot → Nat
  made : Nat
  notes : Slot → Note

def Sys.start : Sys := ⟨fun _ => empty, fun _ => 0, 0, fun _ => ⟨0, [], 0, false, none⟩⟩

/-- The notes after a new object, which is a request when there is a note for it. -/
def Sys.enter (s : Sys) (note : Note) : Option Slot × Table → Sys × Result
  | (none, table) => ({ s with table }, .handle 0)
  | (some i, table) =>
    ({ table, objects := Function.update s.objects i s.made, made := s.made + 1,
       notes := Function.update s.notes i note }, .handle (handleOf i))

/-- The note for a request on a connection. -/
def Sys.noteFor (s : Sys) (conn flags : U32) : Note :=
  match s.table.getKind .connect conn with
  | none => s.notes 0
  | some c => ⟨s.objects c, (s.table c).server, (s.table c).port, flags &&& 0x00800000 != 0, none⟩

/-- The URL of a request's connection is noted. -/
def Sys.noteUrl (s : Sys) (h : U32) (url : Option Url) : Slot → Note :=
  match s.table.getKind .request h, url with
  | some i, some u => Function.update s.notes i { s.notes i with url := some u }
  | _, _ => s.notes

def Sys.step (s : Sys) : Action → Option (Sys × Result)
  | .openSession => some (s.enter (s.notes 0) s.table.openSession)
  | .connect session server port => some (s.enter (s.notes 0) (s.table.connect session server port))
  | .openRequest conn path flags =>
    some (s.enter (s.noteFor conn flags) (s.table.openRequest conn path flags))
  | .send h connect wrote =>
    let ((ok, asked), table) := s.table.sendRequest h connect wrote
    let url := asked.head?.filter fun u => (connect.opened u.https).isSome
    some ({ s with table, notes := s.noteUrl h url }, .answer ok asked)
  | .receive h reads stream hops =>
    let ((ok, asked), table) := s.table.receiveResponse h reads stream hops
    some ({ s with table, notes := s.noteUrl h asked.getLast? }, .answer ok asked)
  | .close h => some ({ s with table := s.table.closeHandle h }, .answer true [])

/-- The connection object of a request, while it is open. -/
def Sys.Alive (s : Sys) (i : Slot) : Prop :=
  ∃ c ∈ s.table.get (s.table i).connectH, s.objects c = (s.notes i).conn

instance (s : Sys) (i : Slot) : Decidable (s.Alive i) := inferInstanceAs (Decidable (∃ _ ∈ _, _))

/-- A request goes to the server and port of its connection object, and nowhere when that is
closed. -/
def Sent (s : Sys) (i : Slot) (ok : Bool) (asked : List Url) : Prop :=
  (s.Alive i → ∃ u, asked = [u] ∧ u.host = (s.notes i).server ∧
    u.port = if (s.notes i).port = 0 then defaultPort (s.notes i).secure else (s.notes i).port) ∧
  (¬ s.Alive i → ok = false ∧ asked = [])

/-- Redirects are followed as they are meant, at most 5, and when that fails nothing is left. -/
structure Followed (req : HttpSlot) (ok : Bool) (asked : List Url)
    (ideal : List Url × Option (Nat × Reply)) : Prop where
  few : asked.length ≤ 5
  asks : asked = ideal.1
  fails : ideal.2 = none → ok = false ∧ req.fd = none ∧ req.reply.Unreadable
  answers : ∀ fd reply, ideal.2 = some (fd, reply) → ok ∧ req.fd = some fd ∧ req.reply = reply

/-- What the guest is promised of a call. -/
def Addressed (s : Sys) (s' : Sys) : Action → Result → Prop
  | .send h _ _, .answer ok asked =>
    match s.table.getKind .request h with
    | some i => Sent s i ok asked
    | none => ok = false ∧ asked = []
  | .receive h reads stream hops, .answer ok asked =>
    ∀ i ∈ s.table.getKind .request h, ∀ fd ∈ (s.table i).fd,
      ∃ base ∈ (s.notes i).url,
        match (s.table i).reply.receiveHeaders reads stream with
        | (true, reply, _) => Followed (s'.table i) ok asked (follow base fd reply 5 hops)
        | (false, _) => ok = false ∧ asked = []
  | _, _ => True

/-- The slot of a request's connection still has the connection object, whose port does not
depend on the scheme any more; and the locations are such as are resolved. -/
def Meets (s : Sys) : Action → Prop
  | .send h _ _ => ∀ i ∈ s.table.getKind .request h, ∀ c ∈ s.table.get (s.table i).connectH,
      s.objects c = (s.notes i).conn ∧
        ((s.notes i).port ≠ 0 ∨ (s.table i).useSsl = (s.notes i).secure)
  | .receive h reads stream hops => ∀ i ∈ s.table.getKind .request h, (s.table i).fd ≠ none →
      ∀ base ∈ (s.notes i).url, ((s.table i).reply.receiveHeaders reads stream).1 →
        Follows ((s.table.get (s.table i).connectH).map s.table) 5 base
          ((s.table i).reply.receiveHeaders reads stream).2.1 hops
  | _ => True

instance (s : Sys) (a : Action) : Decidable (Meets s a) :=
  match a with
  | .send .. => inferInstanceAs (Decidable (∀ _ ∈ _, ∀ _ ∈ _, _ ∧ (_ ∨ _)))
  | .receive .. => inferInstanceAs (Decidable (∀ _ ∈ _, _ → ∀ _ ∈ _, _ → _))
  | .openSession | .connect .. | .openRequest .. | .close _ => inferInstanceAs (Decidable True)

-- ---------------------------------------------------------------------------
-- The table
-- ---------------------------------------------------------------------------

/-- The note for a request says what its slot is, as long as its connection object is there. -/
structure Noted (t : Table) (objects : Slot → Nat) (made : Nat) (req : HttpSlot) (note : Note) :
    Prop where
  older : note.conn < made
  conn : ∀ c ∈ t.get req.connectH, objects c = note.conn →
    (t c).server = note.server ∧ (t c).port = note.port
  url : req.fd ≠ none → ∃ u ∈ note.url, u.https = req.useSsl

structure Coherent (s : Sys) : Prop where
  older : ∀ i, (s.table i).inUse → s.objects i < s.made
  noted : ∀ i, (s.table i).inUse → (s.table i).type = .request →
    Noted s.table s.objects s.made (s.table i) (s.notes i)

theorem get_spec {t : Table} (h : t.get w = some c) : slotOf w = some c ∧ (t c).inUse := by
  obtain ⟨d, hd, hc⟩ := Option.bind_eq_some_iff.1 h
  split at hc
  · rename_i huse
    cases hc
    exact ⟨hd, huse⟩
  · cases hc

theorem get_of {t : Table} (h : slotOf w = some c) (hc : (t c).inUse) : t.get w = some c := by
  rw [Table.get, h, Option.bind_some, if_pos hc]

theorem getKind_spec {t : Table} (h : t.getKind type w = some i) :
    t.get w = some i ∧ (t i).inUse ∧ (t i).type = type := by
  obtain ⟨j, hj, hi⟩ := Option.bind_eq_some_iff.1 h
  split at hi
  · rename_i htype
    cases hi
    exact ⟨hj, (get_spec hj).2, htype⟩
  · cases hi

theorem Noted.enter {slot : HttpSlot} (h : Noted t objects made req note) :
    Noted (Function.update t i slot) (Function.update objects i made) (made + 1) req note where
  older := Nat.lt_succ_of_lt h.older
  conn c hc hobj := by
    obtain ⟨hslot, huse⟩ := get_spec hc
    by_cases hci : c = i
    · subst hci
      rw [Function.update_self] at hobj
      exact absurd hobj (Nat.ne_of_gt h.older)
    · rw [Function.update_of_ne hci] at huse hobj ⊢
      exact h.conn c (get_of hslot huse) hobj
  url := h.url

/-- A new object. -/
theorem Coherent.enter {slot : HttpSlot} (h : Coherent s)
    (hreq : slot.type = .request → Noted s.table s.objects s.made slot note) :
    Coherent ⟨Function.update s.table i slot, Function.update s.objects i s.made, s.made + 1,
      Function.update s.notes i note⟩ where
  older j hj := by
    dsimp only at hj ⊢
    by_cases hji : j = i
    · subst hji
      rw [Function.update_self]
      exact Nat.lt_succ_self _
    · rw [Function.update_of_ne hji] at hj ⊢
      exact Nat.lt_succ_of_lt (h.older j hj)
  noted j hj ht := by
    dsimp only at hj ht ⊢
    by_cases hji : j = i
    · subst hji
      rw [Function.update_self] at ht ⊢
      rw [Function.update_self]
      exact (hreq ht).enter
    · rw [Function.update_of_ne hji] at hj ht ⊢
      rw [Function.update_of_ne hji]
      exact (h.noted j hj ht).enter

/-- A slot is closed, or stays what it is. -/
theorem Noted.keep {slot : HttpSlot} (h : Noted t objects made req note)
    (hs : slot.inUse → (t i).inUse ∧ slot.server = (t i).server ∧ slot.port = (t i).port) :
    Noted (Function.update t i slot) objects made req note where
  older := h.older
  conn c hc hobj := by
    obtain ⟨hslot, huse⟩ := get_spec hc
    by_cases hci : c = i
    · subst hci
      rw [Function.update_self] at huse ⊢
      obtain ⟨hin, hserver, hport⟩ := hs huse
      rw [hserver, hport]
      exact h.conn c (get_of hslot hin) hobj
    · rw [Function.update_of_ne hci] at huse ⊢
      exact h.conn c (get_of hslot huse) hobj
  url := h.url

/-- A request after one of its calls. -/
theorem Coherent.call {req : HttpSlot} {note : Note} (h : Coherent s) (hsame : (s.table i).Same req)
    (hin : (s.table i).inUse) (ht : (s.table i).type = .request)
    (hn : note.conn = (s.notes i).conn ∧ note.server = (s.notes i).server ∧
      note.port = (s.notes i).port)
    (hurl : req.fd ≠ none → ∃ u ∈ note.url, u.https = req.useSsl) :
    Coherent { s with table := Function.update s.table i req,
                      notes := Function.update s.notes i note } := by
  obtain ⟨htype, huse, hconn, hserver, hport⟩ := hsame
  have hkeep : ∀ r n, Noted s.table s.objects s.made r n →
      Noted (Function.update s.table i req) s.objects s.made r n :=
    fun r n hrn => hrn.keep fun _ => ⟨hin, hserver, hport⟩
  refine ⟨fun j hj => ?_, fun j hj hjt => ?_⟩
  · dsimp only at hj ⊢
    by_cases hji : j = i
    · exact hji ▸ h.older i hin
    · rw [Function.update_of_ne hji] at hj
      exact h.older j hj
  · dsimp only at hj hjt ⊢
    by_cases hji : j = i
    · subst hji
      have hold := hkeep _ _ (h.noted j hin ht)
      rw [Function.update_self, Function.update_self]
      refine ⟨hn.1 ▸ hold.older, ?_, hurl⟩
      rw [hconn, hn.1, hn.2.1, hn.2.2]
      exact hold.conn
    · rw [Function.update_of_ne hji] at hj hjt ⊢
      rw [Function.update_of_ne hji]
      exact hkeep _ _ (h.noted j hj hjt)

theorem Coherent.close {slot : HttpSlot} (h : Coherent s) (hs : slot.inUse = false) :
    Coherent { s with table := Function.update s.table i slot } := by
  refine ⟨fun j hj => ?_, fun j hj ht => ?_⟩
  · dsimp only at hj ⊢
    by_cases hji : j = i
    · subst hji
      rw [Function.update_self, hs] at hj
      cases hj
    · rw [Function.update_of_ne hji] at hj
      exact h.older j hj
  · dsimp only at hj ht ⊢
    by_cases hji : j = i
    · subst hji
      rw [Function.update_self, hs] at hj
      cases hj
    · rw [Function.update_of_ne hji] at hj ht ⊢
      exact (h.noted j hj ht).keep fun huse => by
        rw [hs] at huse
        cases huse

-- ---------------------------------------------------------------------------
-- One call
-- ---------------------------------------------------------------------------

theorem alloc_coherent {slot : HttpSlot} (h : Coherent s)
    (hreq : slot.type = .request → Noted s.table s.objects s.made slot note)
    (he : s.enter note (s.table.alloc slot) = (s', r)) : Coherent s' := by
  unfold Table.alloc at he
  cases hfree : s.table.unused with
  | none =>
    rw [hfree] at he
    cases he
    exact h
  | some i =>
    rw [hfree] at he
    cases he
    exact h.enter fun ht => ⟨(hreq ht).older, (hreq ht).conn, (hreq ht).url⟩

theorem noteUrl_eq {s : Sys} (hk : s.table.getKind .request w = some i) (url : Option Url) :
    s.noteUrl w url = Function.update s.notes i
      { s.notes i with url := url.or (s.notes i).url } := by
  unfold Sys.noteUrl
  rw [hk]
  cases url with
  | none => exact (Function.update_eq_self i s.notes).symm
  | some u => rfl

theorem noteUrl_none (s : Sys) (w : U32) : s.noteUrl w none = s.notes := by
  unfold Sys.noteUrl
  cases s.table.getKind .request w <;> rfl

/-- The URL noted for the connection a request is sent on, which may be an earlier one. -/
theorem send_url {req : HttpSlot} {connect : Connect} {url : Url} (hurl : url.https = req.useSsl)
    (hold : req.fd ≠ none → ∃ u ∈ note, u.https = req.useSsl)
    (hfd : connect.leaves req.useSsl req.fd ≠ none) :
    ∃ u ∈ ((some url).filter fun u => (connect.opened u.https).isSome).or note,
      u.https = req.useSsl := by
  rw [Option.filter_some, hurl]
  unfold Connect.leaves at hfd
  split
  · exact ⟨url, rfl, hurl⟩
  · rename_i hopen
    split at hfd
    · exact hold hfd
    · exact absurd (Option.isSome_iff_ne_none.2 hfd) hopen

theorem send_addressed (h : Coherent s) (hm : Meets s (.send w connect wrote))
    (hs : s.step (.send w connect wrote) = some (s', r)) :
    Coherent s' ∧ Addressed s s' (.send w connect wrote) r := by
  unfold Sys.step Table.sendRequest at hs
  cases hk : s.table.getKind .request w with
  | none =>
    simp only [hk, Sys.noteUrl] at hs
    cases hs
    refine ⟨h, ?_⟩
    rw [Addressed, hk]
    exact ⟨rfl, rfl⟩
  | some i =>
    obtain ⟨-, hin, ht⟩ := getKind_spec hk
    have hnoted := h.noted i hin ht
    cases hc : s.table.get (s.table i).connectH with
    | none =>
      simp only [hk, hc, Sys.noteUrl, List.head?_nil, Option.filter_none] at hs
      cases hs
      refine ⟨h, ?_⟩
      rw [Addressed, hk]
      refine ⟨?_, fun _ => ⟨rfl, rfl⟩⟩
      rintro ⟨c, hget, -⟩
      rw [hc] at hget
      cases hget
    | some c =>
      obtain ⟨hobj, hscheme⟩ := hm i hk c hc
      obtain ⟨hserver, hport⟩ := hnoted.conn c hc hobj
      simp only [hk, hc, noteUrl_eq hk, List.head?_cons] at hs
      cases hs
      constructor
      · exact h.call ⟨rfl, rfl, rfl, rfl, rfl⟩ hin ht ⟨rfl, rfl, rfl⟩ (send_url rfl hnoted.url)
      · rw [Addressed, hk]
        refine ⟨fun _ => ⟨_, rfl, hserver, ?_⟩, fun hdead => absurd ⟨c, hc, hobj⟩ hdead⟩
        unfold urlOf
        dsimp only
        rw [hport]
        split
        · rename_i hzero
          rw [hscheme.resolve_left (absurd hzero)]
        · rfl

/-- No connection, or no response on it. -/
theorem receive_fails {t : Table} (hk : t.getKind .request w = some i)
    (h : (t i).fd = none ∨ ((t i).reply.receiveHeaders reads stream).1 = false) :
    t.receiveResponse w reads stream hops = ((false, []), t) := by
  rw [Table.receiveResponse, hk]
  dsimp only
  split
  · rfl
  · rename_i hfd
    rw [if_neg (by rw [h.resolve_left hfd]; exact Bool.false_ne_true)]

theorem receive_follows {t : Table} (hk : t.getKind .request w = some i) (hfd : (t i).fd ≠ none)
    (hrec : (t i).reply.receiveHeaders reads stream = (true, reply, rest)) :
    t.receiveResponse w reads stream hops =
      let (asked, req) := redirects ((t.get (t i).connectH).map t) 5 hops { t i with reply }
      ((req.reply.headersReceived, asked), Function.update t i req) := by
  rw [Table.receiveResponse, hk]
  dsimp only
  rw [if_neg hfd, hrec]
  rfl

theorem receive_addressed (h : Coherent s) (hm : Meets s (.receive w reads stream hops))
    (hs : s.step (.receive w reads stream hops) = some (s', r)) :
    Coherent s' ∧ Addressed s s' (.receive w reads stream hops) r := by
  rw [Sys.step] at hs
  cases hk : s.table.getKind .request w with
  | none =>
    rw [Table.receiveResponse, hk] at hs
    cases hs
    refine ⟨by rwa [List.getLast?_nil, noteUrl_none], ?_⟩
    rw [Addressed, hk]
    exact nofun
  | some i =>
    obtain ⟨-, hin, ht⟩ := getKind_spec hk
    have hnoted := h.noted i hin ht
    by_cases hfd : (s.table i).fd = none
    · rw [receive_fails hk (.inl hfd)] at hs
      cases hs
      refine ⟨by rwa [List.getLast?_nil, noteUrl_none], ?_⟩
      rw [Addressed, hk]
      rintro j hj fd hopen
      cases hj
      rw [hfd] at hopen
      cases hopen
    obtain ⟨base, hbase, hssl⟩ := hnoted.url hfd
    have hbegin := hm i hk hfd base hbase
    cases hrec : (s.table i).reply.receiveHeaders reads stream with
    | mk ok x =>
      obtain ⟨reply, rest⟩ := x
      rw [hrec] at hbegin
      cases ok with
      | false =>
        rw [receive_fails hk (.inr (by rw [hrec]))] at hs
        cases hs
        refine ⟨by rwa [List.getLast?_nil, noteUrl_none], ?_⟩
        rw [Addressed, hk]
        rintro j hj fd -
        cases hj
        refine ⟨base, hbase, ?_⟩
        rw [hrec]
        exact ⟨rfl, rfl⟩
      | true =>
        obtain ⟨fd, hopen⟩ := Option.ne_none_iff_exists'.1 hfd
        have hends : Ends base
            (redirects ((s.table.get (s.table i).connectH).map s.table) 5 hops
              { s.table i with reply }) (follow base fd reply 5 hops) :=
          redirects_follow (hbegin rfl) hopen (receive_received hrec) hssl.symm
        have hsame := redirects_same ((s.table.get (s.table i).connectH).map s.table) 5 hops
          { s.table i with reply }
        have hfew := follow_length base fd reply 5 hops
        rw [receive_follows hk hfd hrec] at hs
        generalize redirects _ 5 hops _ = x at hs hends hsame
        obtain ⟨asked, req⟩ := x
        cases hs
        constructor
        · rw [noteUrl_eq hk]
          refine h.call hsame hin ht ⟨rfl, rfl, rfl⟩ fun hne => ?_
          cases hlast : (follow base fd reply 5 hops).2 with
          | none => exact absurd (hends.fails hlast).1 hne
          | some y =>
            obtain ⟨-, -, -, hscheme⟩ := hends.answers y.1 y.2 hlast
            rw [← hends.asks] at hscheme
            dsimp only at hscheme ⊢
            cases hask : asked.getLast? with
            | none => exact ⟨base, hbase, by rw [hscheme, hask]; rfl⟩
            | some u => exact ⟨u, rfl, by rw [hscheme, hask]; rfl⟩
        · rw [Addressed, hk]
          rintro j hj fd' hfd'
          cases hj
          rw [hopen] at hfd'
          cases hfd'
          refine ⟨base, hbase, ?_⟩
          rw [hrec]
          dsimp only
          rw [Function.update_self]
          have hasks : asked = (follow base fd reply 5 hops).1 := hends.asks
          refine ⟨by rwa [hasks], hasks, fun hnone => ?_, fun fd' reply' hlast => ?_⟩
          · obtain ⟨hclosed, hunread⟩ := hends.fails hnone
            exact ⟨hunread.headers.1, hclosed, hunread⟩
          · obtain ⟨hfd', hreply, hrec', -⟩ := hends.answers fd' reply' hlast
            exact ⟨by rw [show req.reply = reply' from hreply, hrec'], hfd', hreply⟩

/-- What one call does to the notes, and what the guest gets. -/
theorem step_addressed (h : Coherent s) (hm : Meets s a) (hs : s.step a = some (s', r)) :
    Coherent s' ∧ Addressed s s' a r := by
  cases a with
  | openSession =>
    refine ⟨alloc_coherent h ?_ (Option.some.inj hs), trivial⟩
    rintro ⟨⟩
  | connect session server port =>
    rw [Sys.step, Table.connect] at hs
    cases hk : s.table.getKind .session session with
    | none =>
      rw [hk] at hs
      cases hs
      exact ⟨h, trivial⟩
    | some i =>
      rw [hk] at hs
      refine ⟨alloc_coherent h ?_ (Option.some.inj hs), trivial⟩
      rintro ⟨⟩
  | openRequest conn path flags =>
    rw [Sys.step, Table.openRequest, Sys.noteFor] at hs
    cases hk : s.table.getKind .connect conn with
    | none =>
      rw [hk] at hs
      cases hs
      exact ⟨h, trivial⟩
    | some c =>
      rw [hk] at hs
      refine ⟨alloc_coherent h (fun _ => ?_) (Option.some.inj hs), trivial⟩
      obtain ⟨hget, huse, -⟩ := getKind_spec hk
      refine ⟨h.older c huse, fun d hd _ => ?_, absurd rfl⟩
      have hcd : s.table.get conn = some d := hd
      rw [hget] at hcd
      cases hcd
      exact ⟨rfl, rfl⟩
  | send w connect wrote => exact send_addressed h hm hs
  | receive w reads stream hops => exact receive_addressed h hm hs
  | close w =>
    rw [Sys.step, Table.closeHandle] at hs
    cases hk : s.table.get w with
    | none =>
      rw [hk] at hs
      cases hs
      exact ⟨h, trivial⟩
    | some i =>
      rw [hk] at hs
      cases hs
      exact ⟨h.close rfl, trivial⟩

theorem start_coherent : Coherent .start where
  older i h := by cases h
  noted i h := by cases h

/-- In a run of such calls every request goes to the server of its connection object, and every
redirect where it points, or nothing is left of it. -/
theorem requests_law (h : Run Sys.step Meets .start tr s) (hm : Meets s a)
    (hs : s.step a = some (s', r)) : Addressed s s' a r := by
  have hcoherent : Coherent s := h.invariant (P := fun _ s => Coherent s) start_coherent
    fun hc hm h => (step_addressed hc hm h).1
  exact (step_addressed hcoherent hm hs).2

/-- A session, a connection to a server named by one letter, and a request on it. -/
def opening (server : Char) : List Action :=
  [.openSession, .connect 0x3000 [BitVec.ofNat 16 server.toNat] 80, .openRequest 0x3001 none 0]

/-- A redirect to another server, and its response. -/
def redirect : Action :=
  .receive 0x3002 [100] (str "HTTP/1.1 302 Found\r\nLocation: http://b/x\r\n\r\n")
    [⟨⟨some 6, true⟩, true, [100], str "HTTP/1.1 200 OK\r\n\r\n"⟩]

theorem requests_law_redirect : ∃ tr s s' r, Run Sys.step Meets .start tr s ∧
    s.step redirect = some (s', r) ∧ r = .answer true [⟨false, str "b", 80, str "/x"⟩] ∧
      Addressed s s' redirect r := by
  have hexec : (exec Sys.step Meets .start
      (opening 'a' ++ [.send 0x3002 ⟨some 5, true⟩ true])).any fun x =>
        decide (Meets x.2 redirect) && (x.2.step redirect).any fun y =>
          decide (y.2 = .answer true [⟨false, str "b", 80, str "/x"⟩]) := by decide +kernel
  obtain ⟨tr, s, hr, hp⟩ := Run.of_exec_any hexec
  obtain ⟨hm, hany⟩ := Bool.and_eq_true_iff.1 hp
  rw [Option.any_eq_true] at hany
  obtain ⟨⟨s', r⟩, hs, hresult⟩ := hany
  exact ⟨tr, s, s', r, hr, hs, of_decide_eq_true hresult,
    requests_law hr (of_decide_eq_true hm) hs⟩

/-- The connection of a request is closed, and its slot taken by one to another server, to which
the request then goes. -/
theorem slot_reused : ¬ ∀ tr s, Run Sys.step anyStep .start tr s → ∀ a s' r,
    s.step a = some (s', r) → Addressed s s' a r := by
  intro hall
  have hexec : (exec Sys.step anyStep .start
      (opening 'a' ++ [.close 0x3001, .connect 0x3000 [0x62] 80])).any fun x =>
        decide (x.2.table.getKind .request 0x3002 = some 2 ∧ ¬ x.2.Alive 2) &&
          (x.2.step (.send 0x3002 ⟨some 5, true⟩ true)).any fun y =>
            decide (y.2 = .answer true [⟨false, str "b", 80, str "/"⟩]) := by decide +kernel
  obtain ⟨tr, s, hr, hp⟩ := Run.of_exec_any hexec
  obtain ⟨hfacts, hany⟩ := Bool.and_eq_true_iff.1 hp
  obtain ⟨hk, hdead⟩ := of_decide_eq_true hfacts
  rw [Option.any_eq_true] at hany
  obtain ⟨⟨s', r⟩, hs, hresult⟩ := hany
  have hr' : r = .answer true [⟨false, str "b", 80, str "/"⟩] := of_decide_eq_true hresult
  have haddr := hall tr s hr _ s' r hs
  have hk' : s.table.getKind .request 0x3002 = some 2 := hk
  rw [hr', Addressed, hk'] at haddr
  cases (haddr.2 hdead).1

end WineGlass.Requests
