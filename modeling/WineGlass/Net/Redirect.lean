import WineGlass.Lib.Uri
import WineGlass.Net.Http

/-!
# Redirects

The slots of `wg_winhttp.c`, and the loop of `WinHttpReceiveResponse` that follows redirects,
beside the loop it stands for, which resolves each `Location` against the URL of the response
that has it.
-/

namespace WineGlass.Http

open CStrings Uri

inductive Kind
  | none | session | connect | request
  deriving DecidableEq, Repr

/-- `WGHttpSlot`, less what is only sent in a request; a session of TLS goes with its
descriptor. -/
structure HttpSlot where
  type : Kind
  inUse : Bool
  sessionH : U32
  server : List Byte
  port : U16
  connectH : U32
  path : List Byte
  useSsl : Bool
  fd : Option Nat
  reply : Reply
  fits : server.length < 512
  deriving DecidableEq

/-- What `http_connect_to` finds: the descriptor it is connected by, and whether a session of TLS
starts on it. -/
structure Connect where
  fd : Option Nat
  tls : Bool
  deriving DecidableEq, Repr

/-- The descriptor of a connection that is made. -/
def Connect.opened (c : Connect) (ssl : Bool) : Option Nat := if ssl ∧ ¬ c.tls then none else c.fd

/-- What `http_connect_to` leaves in `req->fd`. -/
def Connect.leaves (c : Connect) (ssl : Bool) (fd : Option Nat) : Option Nat :=
  if c.fd = none then fd else c.opened ssl

/-- What happens to the request that follows a redirect: the connection, whether all of it is
written, and the response. -/
structure Hop where
  connect : Connect
  wrote : Bool
  reads : List Nat
  stream : List Byte
  deriving DecidableEq, Repr

-- ---------------------------------------------------------------------------
-- The source
-- ---------------------------------------------------------------------------

/-- The part of a redirect's URL after `//`: the host, the port, and where the path starts. -/
def parseServer (h : List Byte) (port : U16) : List Byte × U16 × Option (List Byte) :=
  let host := fun hlen => if 0 < hlen ∧ hlen < 512 then h.take hlen else []
  let explicit := fun colon => (atoi (h.drop (colon + 1))).setWidth 16
  match strchr h (chr ':'), strchr h (chr '/') with
  | some colon, none => (host colon, explicit colon, none)
  | some colon, some slash =>
    if colon < slash then (host colon, explicit colon, some (h.drop slash))
    else (host slash, port, some (h.drop slash))
  | none, some slash => (host slash, port, some (h.drop slash))
  | none, none => (h.take 511, port, none)

/-- The parse of a redirect's URL, an empty host being none of the cases. -/
def parseRedirect (conn : Option HttpSlot) (useSsl : Bool) (url : List Byte) :
    List Byte × U16 × Bool × Option (List Byte) :=
  if casecmp (url.take 8) (str "https://") then
    let (host, port, pathStart) := parseServer (url.drop 8) 443
    (host, port, true, pathStart)
  else if casecmp (url.take 7) (str "http://") then
    let (host, port, pathStart) := parseServer (url.drop 7) 80
    (host, port, false, pathStart)
  else if url.head? = some (chr '/') then
    match conn with
    | some c => (c.server.take 511, if c.port ≠ 0 then c.port else if useSsl then 443 else 80, useSsl,
        some url)
    | none => ([], 0, false, some url)
  else ([], 0, false, none)

def Reply.redirected (r : Reply) : Bool :=
  r.statusCode == 301 || r.statusCode == 302 || r.statusCode == 303 || r.statusCode == 307 ||
    r.statusCode == 308

def Reply.location (r : Reply) : Option (List Byte) := findHeaderValue r.respHeaders (str "Location:")

/-- The fields of a response after the connection is closed, of which only the status text
stays. -/
def Reply.cleared (r : Reply) : Reply := { blank with statusText := r.statusText }

/-- The loop of `WinHttpReceiveResponse`, with `n` redirects left to follow: the requests it
makes, and the slot. -/
def redirects (conn : Option HttpSlot) : Nat → List Hop → HttpSlot → List Url × HttpSlot
  | 0, _, req => ([], req)
  | n + 1, hops, req =>
    match if req.reply.redirected then req.reply.location else none with
    | none => ([], req)
    | some loc =>
      let (host, port, ssl, pathStart) := parseRedirect conn req.useSsl (loc.take 4095)
      let path := (pathStart.getD [chr '/']).take 4095
      let req := { req with fd := none, path, useSsl := ssl, reply := req.reply.cleared }
      if host.isEmpty then ([], req)
      else
        let url := ⟨ssl, host, port, path⟩
        match hops with
        | [] => ([url], req)
        | hop :: hops =>
          match hop.connect.opened ssl with
          | none => ([url], req)
          | some fd =>
            let req := { req with fd := some fd }
            if hop.wrote then
              let (ok, reply, _) := req.reply.receiveHeaders hop.reads hop.stream
              let req := { req with reply }
              if ok then
                let (urls, req) := redirects conn n hops req
                (url :: urls, req)
              else ([url], req)
            else ([url], req)

-- ---------------------------------------------------------------------------
-- What it stands for
-- ---------------------------------------------------------------------------

/-- Redirects followed from the response of `base`: the requests, and the descriptor and the
response at the end, none when following fails. -/
def follow (base : Url) (fd : Nat) (reply : Reply) : Nat → List Hop → List Url × Option (Nat × Reply)
  | 0, _ => ([], some (fd, reply))
  | n + 1, hops =>
    match if reply.redirected then reply.location else none with
    | none => ([], some (fd, reply))
    | some loc =>
      match resolve base loc with
      | none => ([], none)
      | some url =>
        match hops with
        | [] => ([url], none)
        | hop :: hops =>
          match if hop.wrote then hop.connect.opened url.https else none,
              blank.receiveHeaders hop.reads hop.stream with
          | some fd, (true, reply, _) =>
            let (urls, last) := follow url fd reply n hops
            (url :: urls, last)
          | _, _ => ([url], none)

theorem follow_length (base : Url) (fd : Nat) (reply : Reply) (n : Nat) (hops : List Hop) :
    (follow base fd reply n hops).1.length ≤ n := by
  induction n generalizing base fd reply hops with
  | zero => exact Nat.le_refl 0
  | succ n ih =>
    rw [follow]
    split
    · exact Nat.zero_le _
    · split
      · exact Nat.zero_le _
      · split
        · exact Nat.succ_le_succ (Nat.zero_le n)
        · split
          · exact Nat.succ_le_succ (ih ..)
          · exact Nat.succ_le_succ (Nat.zero_le n)

/-- The server of a connection object, as the loop uses it. -/
def HttpSlot.serves (c : HttpSlot) (base : Url) : Prop :=
  c.server = base.host ∧ (if c.port ≠ 0 then c.port else defaultPort base.https) = base.port ∧
    base.host ≠ []

instance (c : HttpSlot) (base : Url) : Decidable (c.serves base) :=
  inferInstanceAs (Decidable (_ ∧ _ ∧ _))

/-- A name of a server, and perhaps a port, as far as the parse has room for it. -/
def Served (s : List Byte) : Prop :=
  Plain (authorityOf s) ∧ (nameOf (authorityOf s)).length < 512

/-- A location that the loop resolves: a URL of the web with a plain server, a path on the server
of the connection object when the response came from there, or a URL that is not of the web. -/
def Straight (conn : Option HttpSlot) (base : Url) (loc : List Byte) : Prop :=
  loc.length < 4096 ∧ chr '#' ∉ loc ∧
    (∀ s ∈ (afterScheme "https" loc).or (afterScheme "http" loc), Served s) ∧
    ((afterScheme "https" loc).or (afterScheme "http" loc) = none → hasScheme loc ∨
      loc.head? = some (chr '/') ∧ (str "//").isPrefixOf loc = false ∧ ∃ c ∈ conn, c.serves base)

/-- Each location is one that the loop resolves, and a request that is connected is written and
answered. -/
def Follows (conn : Option HttpSlot) : Nat → Url → Reply → List Hop → Prop
  | 0, _, _, _ => True
  | n + 1, base, reply, hops => ∀ loc ∈ if reply.redirected then reply.location else none,
      Straight conn base loc ∧
        ∀ url ∈ resolve base loc, ∀ hop ∈ hops.head?, hop.connect.opened url.https ≠ none →
          hop.wrote ∧ (blank.receiveHeaders hop.reads hop.stream).1 ∧
            Follows conn n url (blank.receiveHeaders hop.reads hop.stream).2.1 hops.tail

section

local instance bytes_beq : LawfulBEq Byte := inferInstance

instance (s : List Byte) : Decidable (Served s) :=
  decidable_of_iff (((∀ c ∈ authorityOf s, c ≠ chr '@' ∧ c ≠ chr '[' ∧ c ≠ chr '/' ∧ c ≠ chr '?') ∧
      nameOf (authorityOf s) ≠ [] ∧ (chr ':' ∈ authorityOf s → digitsOf (authorityOf s) ≠ [] ∧
        (∀ d ∈ digitsOf (authorityOf s), isdigit d) ∧
          number (digitsOf (authorityOf s)) < 2 ^ 16)) ∧ (nameOf (authorityOf s)).length < 512)
    ⟨fun h => ⟨⟨h.1.1, h.1.2.1, h.1.2.2⟩, h.2⟩,
      fun h => ⟨⟨h.1.name, h.1.host, h.1.port⟩, h.2⟩⟩

end

instance (conn : Option HttpSlot) (base : Url) (loc : List Byte) :
    Decidable (Straight conn base loc) := inferInstanceAs (Decidable (_ ∧ _ ∧ _ ∧ (_ → _)))

instance Follows.decidable (conn : Option HttpSlot) : ∀ n base reply hops,
    Decidable (Follows conn n base reply hops)
  | 0, _, _, _ => inferInstanceAs (Decidable True)
  | n + 1, _, _, _ =>
    have := Follows.decidable conn n
    inferInstanceAs (Decidable (∀ _ ∈ _, _ ∧ ∀ _ ∈ _, ∀ _ ∈ _, _ → _ ∧ _ ∧ _))

-- ---------------------------------------------------------------------------
-- Locations
-- ---------------------------------------------------------------------------

theorem nameOf_colon (a : List Byte) : chr ':' ∉ nameOf a := fun h => by
  simpa using List.mem_takeWhile_imp h

/-- The port after a name, in what follows it. -/
theorem atoi_port (h : Plain (authorityOf s)) (hc : chr ':' ∈ authorityOf s) :
    (atoi (digitsOf (authorityOf s) ++ pathOf s)).setWidth 16 =
      BitVec.ofNat 16 (number (digitsOf (authorityOf s))) := by
  obtain ⟨hne, hdigits, hfit⟩ := h.port hc
  have hend : ∀ c ∈ (pathOf s).head?, isdigit c = false := by
    intro c hc
    rcases pathOf_cases s with hp | ⟨t, hp⟩
    · rw [hp] at hc
      cases hc
    · rw [hp, List.head?_cons] at hc
      cases hc
      decide
  rw [atoi, atoll_digits hne hdigits hend (Nat.lt_trans hfit (by decide))]
  bv_omega

/-- A path is what the parse takes for one. -/
def pathStart (p : List Byte) : Option (List Byte) := if p.isEmpty then none else some p

theorem parseServer_port {n ds p : List Byte} (port : U16) (hn : chr ':' ∉ n ∧ chr '/' ∉ n)
    (hne : n ≠ []) (hlen : n.length < 512) (hds : chr '/' ∉ ds)
    (hp : p = [] ∨ ∃ t, p = chr '/' :: t) :
    parseServer (n ++ chr ':' :: (ds ++ p)) port =
      (n, (atoi (ds ++ p)).setWidth 16, pathStart p) := by
  have hhost : 0 < n.length ∧ n.length < 512 := ⟨List.length_pos_iff.2 hne, hlen⟩
  have htake : (n ++ chr ':' :: (ds ++ p)).take n.length = n := List.take_left
  have hdigits : (n ++ chr ':' :: (ds ++ p)).drop (n.length + 1) = ds ++ p := by
    rw [List.drop_append, List.drop_of_length_le (Nat.le_succ _), Nat.add_sub_cancel_left]
    rfl
  have hne' : chr '/' ∉ n ++ chr ':' :: ds := by
    have hcolon : chr '/' ≠ chr ':' := by decide
    simp [hn.2, hds, hcolon]
  have hcolon := strchr_append hn.1 (ds ++ p)
  unfold parseServer
  rcases hp with rfl | ⟨t, rfl⟩
  · have hslash : strchr (n ++ chr ':' :: (ds ++ [])) (chr '/') = none := by
      rw [List.append_nil]
      exact strchr_none hne'
    simp only [hcolon, hslash, if_pos hhost, htake, hdigits]
    rfl
  · have hassoc : n ++ chr ':' :: (ds ++ chr '/' :: t) = (n ++ chr ':' :: ds) ++ chr '/' :: t := by
      simp
    have hslash : strchr (n ++ chr ':' :: (ds ++ chr '/' :: t)) (chr '/') =
        some (n ++ chr ':' :: ds).length := by rw [hassoc, strchr_append hne']
    have hdrop : (n ++ chr ':' :: (ds ++ chr '/' :: t)).drop (n ++ chr ':' :: ds).length =
        chr '/' :: t := by rw [hassoc, List.drop_left]
    have hlt : n.length < (n ++ chr ':' :: ds).length := by simp
    simp only [hcolon, hslash, if_pos hlt, if_pos hhost, htake, hdigits, hdrop]
    rfl

theorem parseServer_name {n p : List Byte} (port : U16) (hn : chr ':' ∉ n ∧ chr '/' ∉ n)
    (hne : n ≠ []) (hlen : n.length < 512) (hp : p = [] ∨ ∃ t, p = chr '/' :: t) :
    parseServer (n ++ p) port = (n, port, pathStart p) := by
  have hhost : 0 < n.length ∧ n.length < 512 := ⟨List.length_pos_iff.2 hne, hlen⟩
  unfold parseServer
  rcases hp with rfl | ⟨t, rfl⟩
  · rw [List.append_nil, strchr_none hn.1, strchr_none hn.2]
    dsimp only
    rw [List.take_of_length_le (Nat.le_of_lt_succ hlen)]
    rfl
  · rw [strchr_append hn.2]
    have hcolon : ∀ c, strchr (n ++ chr '/' :: t) (chr ':') = some c → ¬ c < n.length := by
      intro c hc hlt
      obtain ⟨hget, hlt', -⟩ := List.findIdx?_eq_some_iff_getElem.1 hc
      rw [List.getElem_append_left hlt, beq_iff_eq] at hlt'
      exact hn.1 (hlt' ▸ List.getElem_mem hlt)
    cases hc : strchr (n ++ chr '/' :: t) (chr ':') with
    | none => simp [hhost, pathStart]
    | some c => simp [hhost, pathStart, hcolon c hc]

theorem parseServer_plain (port : U16) (h : Plain (authorityOf s))
    (hlen : (nameOf (authorityOf s)).length < 512) :
    parseServer s port = (nameOf (authorityOf s),
      if chr ':' ∈ authorityOf s then BitVec.ofNat 16 (number (digitsOf (authorityOf s))) else port,
      pathStart (pathOf s)) := by
  have hslash := authorityOf_slash s
  by_cases hc : chr ':' ∈ authorityOf s
  · have hsplit : nameOf (authorityOf s) ++ chr ':' :: (digitsOf (authorityOf s) ++ pathOf s) = s := by
      rw [← List.cons_append, ← List.append_assoc, ← authority_split hc, authority_path]
    have hno : chr '/' ∉ nameOf (authorityOf s) ∧ chr '/' ∉ digitsOf (authorityOf s) := by
      rw [authority_split hc] at hslash
      simp only [List.mem_append, List.mem_cons, not_or] at hslash
      exact ⟨hslash.1, hslash.2.2⟩
    have hparse := parseServer_port port ⟨nameOf_colon _, hno.1⟩ h.host hlen hno.2 (pathOf_cases s)
    rw [hsplit, atoi_port h hc] at hparse
    rw [hparse, if_pos hc]
  · have hname := (nameOf_eq hc).1
    have hparse := parseServer_name port ⟨hc, hslash⟩ (hname ▸ h.host) (hname ▸ hlen) (pathOf_cases s)
    rw [hname, if_neg hc]
    rwa [authority_path] at hparse

theorem afterScheme_https (s : List Byte) : afterScheme "https" s =
    if casecmp (s.take 8) (str "https://") then some (s.drop 8) else none := rfl

theorem afterScheme_http (s : List Byte) : afterScheme "http" s =
    if casecmp (s.take 7) (str "http://") then some (s.drop 7) else none := rfl

/-- What the parse gives for the URL that a location refers to. -/
def Parses (r : List Byte × U16 × Bool × Option (List Byte)) : Option Url → Prop
  | some u => u.host ≠ [] ∧ r.1 = u.host ∧ r.2.1 = u.port ∧ r.2.2.1 = u.https ∧
      (r.2.2.2.getD [chr '/']).take 4095 = u.path
  | none => r.1 = []

theorem parse_absolute (https : Bool) (h : Plain (authorityOf s))
    (hlen : (nameOf (authorityOf s)).length < 512) (hs : s.length < 4096) :
    Parses ((parseServer s (defaultPort https)).1, (parseServer s (defaultPort https)).2.1, https,
      (parseServer s (defaultPort https)).2.2) (absolute https s) := by
  have hpath : (pathOf s).length < 4096 := by
    have hsplit := congrArg List.length (authority_path s)
    rw [List.length_append] at hsplit
    omega
  rw [parseServer_plain _ h hlen, absolute_plain https h]
  refine ⟨h.host, rfl, rfl, rfl, ?_⟩
  unfold pathStart
  dsimp only
  split
  · rfl
  · rw [Option.getD_some, List.take_of_length_le (Nat.le_of_lt_succ hpath)]

theorem scheme_slash (h : loc.head? = some (chr '/')) : hasScheme loc = false := by
  obtain ⟨cs, rfl⟩ : ∃ cs, loc = chr '/' :: cs := by
    cases loc with
    | nil => cases h
    | cons c cs =>
      cases h
      exact ⟨cs, rfl⟩
  have hcolon : (chr '/' != chr ':') = true := by decide
  simp [hasScheme, hcolon]

/-- The parse of such a location is what it refers to. -/
theorem parse_straight (h : Straight conn base loc) :
    Parses (parseRedirect conn base.https (loc.take 4095)) (resolve base loc) := by
  obtain ⟨hlen, hhash, hserved, hother⟩ := h
  have hwhole : loc.take 4095 = loc := List.take_of_length_le (Nat.le_of_lt_succ hlen)
  have hfragment : loc.takeWhile (· != chr '#') = loc := by
    refine List.takeWhile_eq_self_iff.2 fun c hc => ?_
    have hne : c ≠ chr '#' := fun he => hhash (he ▸ hc)
    simpa using hne
  rw [hwhole]
  unfold parseRedirect resolve
  rw [hfragment]
  dsimp only
  rw [afterScheme_https, afterScheme_http]
  rw [afterScheme_https, afterScheme_http] at hserved hother
  have hdrop : ∀ n, (loc.drop n).length < 4096 := fun n => by
    rw [List.length_drop]
    omega
  by_cases hhttps : casecmp (loc.take 8) (str "https://")
  · rw [if_pos hhttps] at hserved ⊢
    rw [if_pos hhttps]
    obtain ⟨hplain, hname⟩ := hserved _ rfl
    exact parse_absolute true hplain hname (hdrop 8)
  by_cases hhttp : casecmp (loc.take 7) (str "http://")
  · rw [if_neg hhttps, if_pos hhttp] at hserved ⊢
    rw [if_neg hhttps, if_pos hhttp]
    obtain ⟨hplain, hname⟩ := hserved _ rfl
    exact parse_absolute false hplain hname (hdrop 7)
  · rw [if_neg hhttps, if_neg hhttp] at hother ⊢
    rw [if_neg hhttps, if_neg hhttp]
    dsimp only
    rcases hother rfl with hscheme | ⟨hhead, htwo, c, rfl, hserver, hport, hhost⟩
    · have hhead : loc.head? ≠ some (chr '/') := fun he => by
        rw [scheme_slash he] at hscheme
        cases hscheme
      rw [if_neg hhead, if_pos hscheme]
      rfl
    · have htake : c.server.take 511 = base.host := by
        rw [List.take_of_length_le (Nat.le_of_lt_succ c.fits), hserver]
      have hscheme : ¬ hasScheme loc := by
        rw [scheme_slash hhead]
        exact Bool.false_ne_true
      have hsame : ¬ (str "//").isPrefixOf loc := by
        rw [htwo]
        exact Bool.false_ne_true
      rw [if_pos hhead, if_neg hscheme, if_neg hsame, if_pos hhead]
      exact ⟨hhost, htake, hport, rfl, hwhole⟩

-- ---------------------------------------------------------------------------
-- The loop
-- ---------------------------------------------------------------------------

/-- The headers of a response leave nothing of an earlier one. -/
theorem cleared_receive (r : Reply) (reads : List Nat) (stream : List Byte) :
    r.cleared.receiveHeaders reads stream =
      match blank.receiveHeaders reads stream with
      | (true, reply, rest) => (true, reply, rest)
      | (false, _, rest) => (false, r.cleared, rest) := by
  unfold Reply.receiveHeaders
  cases readHead reads [] stream with
  | mk found rest =>
    cases found with
    | none => rfl
    | some x =>
      dsimp only
      cases scanStatus (cstr x.1) with
      | none => rfl
      | some y => cases lengthIn (cstr x.1) <;> cases x.1.drop x.2 <;> rfl

theorem receive_received {r : Reply} (h : r.receiveHeaders reads stream = (true, reply, rest)) :
    reply.headersReceived := by
  unfold Reply.receiveHeaders at h
  split at h
  · cases h
  · split at h
    · cases h
    · cases h
      rfl

/-- Nothing of a response can be read. -/
structure Reply.Unreadable (r : Reply) : Prop where
  headers : r.headersReceived = false ∧ r.respHeaders = []
  data : r.data = []

theorem cleared_unreadable (r : Reply) : r.cleared.Unreadable := ⟨⟨rfl, rfl⟩, rfl⟩

/-- The slot at the end of the loop, beside the end of the loop it stands for. -/
structure Ends (base : Url) (r : List Url × HttpSlot) (ideal : List Url × Option (Nat × Reply)) :
    Prop where
  asks : r.1 = ideal.1
  fails : ideal.2 = none → r.2.fd = none ∧ r.2.reply.Unreadable
  answers : ∀ fd reply, ideal.2 = some (fd, reply) → r.2.fd = some fd ∧ r.2.reply = reply ∧
    reply.headersReceived ∧ r.2.useSsl = (ideal.1.getLast?.getD base).https

theorem Ends.fail (hfd : req.fd = none) (hr : req.reply.Unreadable) :
    Ends base (us, req) (us, none) := ⟨rfl, fun _ => ⟨hfd, hr⟩, nofun⟩

theorem Ends.stop (hfd : req.fd = some fd) (hr : req.reply.headersReceived)
    (hssl : req.useSsl = base.https) : Ends base ([], req) ([], some (fd, req.reply)) := by
  refine ⟨rfl, nofun, fun fd' reply h => ?_⟩
  cases h
  exact ⟨hfd, rfl, hr, hssl⟩

theorem Ends.cons (h : Ends url r ideal) :
    Ends base (url :: r.1, r.2) (url :: ideal.1, ideal.2) where
  asks := congrArg (url :: ·) h.asks
  fails := h.fails
  answers fd reply hlast := by
    have hans := h.answers fd reply hlast
    rwa [List.getLast?_cons, Option.getD_some]

theorem redirects_follow (hm : Follows conn n base req.reply hops) (hfd : req.fd = some fd)
    (hr : req.reply.headersReceived) (hssl : req.useSsl = base.https) :
    Ends base (redirects conn n hops req) (follow base fd req.reply n hops) := by
  induction n generalizing base fd hops req with
  | zero => exact .stop hfd hr hssl
  | succ n ih =>
    rw [Follows] at hm
    rw [redirects, follow]
    cases hloc : if req.reply.redirected then req.reply.location else none with
    | none => exact .stop hfd hr hssl
    | some loc =>
      obtain ⟨hstraight, hhops⟩ := hm loc hloc
      have hparse := parse_straight hstraight
      rw [← hssl] at hparse
      dsimp only
      cases hurl : resolve base loc with
      | none =>
        rw [hurl] at hparse
        rw [if_pos (List.isEmpty_iff.2 hparse)]
        refine .fail rfl ?_
        exact cleared_unreadable req.reply
      | some url =>
        rw [hurl] at hparse
        obtain ⟨hhost, hserver, hport, hhttps, hpath⟩ := hparse
        have hne : ¬ url.host.isEmpty := by rwa [List.isEmpty_iff]
        simp only [hserver, hport, hhttps, hpath, if_neg hne]
        cases hops with
        | nil =>
          refine .fail rfl ?_
          exact cleared_unreadable req.reply
        | cons hop hops =>
          dsimp only
          cases hopen : hop.connect.opened url.https with
          | none =>
            rw [ite_self]
            refine .fail rfl ?_
            exact cleared_unreadable req.reply
          | some fd' =>
            obtain ⟨hwrote, hok, hrec⟩ := hhops url hurl hop rfl (by simp [hopen])
            rw [if_pos hwrote, cleared_receive]
            cases hresp : blank.receiveHeaders hop.reads hop.stream with
            | mk ok x =>
              rw [hresp] at hok hrec
              cases ok with
              | false => cases hok
              | true =>
                let req' := { req with
                  fd := some fd', path := url.path, useSsl := url.https, reply := x.1 }
                have hgo : Ends url (redirects conn n hops req') (follow url fd' x.1 n hops) :=
                  ih hrec rfl (receive_received hresp) rfl
                dsimp only
                rw [if_pos hwrote, if_pos rfl]
                exact hgo.cons

/-- The slot stays the request it is. -/
def HttpSlot.Same (r r' : HttpSlot) : Prop :=
  r'.type = r.type ∧ r'.inUse = r.inUse ∧ r'.connectH = r.connectH ∧ r'.server = r.server ∧
    r'.port = r.port

theorem redirects_same (conn : Option HttpSlot) (n : Nat) (hops : List Hop) (req : HttpSlot) :
    req.Same (redirects conn n hops req).2 := by
  induction n generalizing hops req with
  | zero => exact ⟨rfl, rfl, rfl, rfl, rfl⟩
  | succ n ih =>
    rw [redirects]
    split
    · exact ⟨rfl, rfl, rfl, rfl, rfl⟩
    · dsimp only
      split
      · exact ⟨rfl, rfl, rfl, rfl, rfl⟩
      · split
        · exact ⟨rfl, rfl, rfl, rfl, rfl⟩
        · split
          · exact ⟨rfl, rfl, rfl, rfl, rfl⟩
          · split
            · split
              · exact ih _ { req with fd := _, path := _, useSsl := _, reply := _ }
              · exact ⟨rfl, rfl, rfl, rfl, rfl⟩
            · exact ⟨rfl, rfl, rfl, rfl, rfl⟩

end WineGlass.Http
