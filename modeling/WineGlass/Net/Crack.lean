import WineGlass.Net.Requests

/-!
# Taking a URL apart

`WinHttpCrackUrl`, from the guest's characters to the components that it gets. A write before an
array of the host is `none`.
-/

namespace WineGlass.Crack

open CStrings Uri Http Requests

/-- A component of `URL_COMPONENTS`: the guest's buffer, and its size in characters. -/
structure Component where
  ptr : U32
  len : U32

structure Components where
  scheme : Component
  host : Component
  path : Component
  extra : Component

/-- What is written to the buffer, and the length that is reported. -/
structure Written where
  text : Option (List U16)
  length : Option U32
  deriving DecidableEq

structure Cracked where
  nScheme : U32
  nPort : U16
  scheme : Written
  host : Written
  path : Written
  extra : Written
  deriving DecidableEq

/-- The local variables of the parse. -/
structure Parsed where
  https : Bool
  host : List Byte
  port : U16
  path : List Byte
  extra : List Byte
  deriving DecidableEq

def schemeText (https : Bool) : List Byte := if https then str "https" else str "http"

def internetScheme (https : Bool) : U32 := if https then 2 else 1

/-- The path from its slash on, with what follows its question mark. -/
def parsePath : Option (List Byte) → List Byte × List Byte
  | some slash =>
    match strchr slash (chr '?') with
    | some q => (if q < 4096 then slash.take q else [], (slash.drop q).take 2047)
    | none => (slash.take 4095, [])
  | none => ([chr '/'], [])

/-- The server is looked for as in a redirect. -/
def parseUrl (url : List Byte) : Parsed :=
  let parse := fun https p =>
    let (host, port, slash) := parseServer p (defaultPort https)
    let (path, extra) := parsePath slash
    ⟨https, host, port, path, extra⟩
  if casecmp (url.take 8) (str "https://") then parse true (url.drop 8)
  else if casecmp (url.take 7) (str "http://") then parse false (url.drop 7)
  else parse false url

def fill (c : Component) (t : List Byte) : Option Written :=
  let length := if 0 < c.len then some (BitVec.ofNat 32 t.length) else none
  if c.ptr ≠ 0 ∧ 0 < c.len then (writeWstrTo t c.len.toInt).map fun text => ⟨some text, length⟩
  else some ⟨none, length⟩

def url (w : List U16) (urlLength : U32) : List Byte :=
  let n := if urlLength = 0 ∨ 4000 < urlLength then 4000 else urlLength.toNat
  readWstr (n + 1) w

/-- `WinHttpCrackUrl`, the characters at the URL's pointer given. -/
def crackUrl (w : List U16) (urlLength : U32) : Option Components → Option (U32 × Option Cracked)
  | none => some (0, none)
  | some c => do
    let p := parseUrl (url w urlLength)
    let scheme ← fill c.scheme (schemeText p.https)
    let host ← fill c.host p.host
    let path ← fill c.path p.path
    let extra ← fill c.extra p.extra
    return (1, some ⟨internetScheme p.https, p.port, scheme, host, path, extra⟩)

-- ---------------------------------------------------------------------------
-- What is promised
-- ---------------------------------------------------------------------------

def wide (t : List Byte) : List U16 := t.map (·.setWidth 16)

/-- The guest has `u` at its pointer, by its length or up to a zero. -/
structure Given (u : List Byte) (w : List U16) (urlLength : U32) : Prop where
  chars : ∀ c ∈ u, c ≠ 0 ∧ c < 128
  at_ptr : (∃ t, w = wide u ++ 0 :: t) ∧ (urlLength = 0 ∨ u.length ≤ urlLength.toNat) ∨
    (∃ t, w = wide u ++ t) ∧ u ≠ [] ∧ u.length = urlLength.toNat

/-- `u` is a URL: a scheme in any case, and `s` after the two slashes. -/
def Web (https : Bool) (u s : List Byte) : Prop :=
  ∃ head, u = head ++ s ∧ casecmp head (schemeText https ++ str "://")

/-- A component that has room for `t` and its zero gets it. -/
def Gets (c : Component) (t : List Byte) (out : Written) : Prop :=
  c.ptr ≠ 0 → t.length < c.len.toNat →
    out = ⟨some (wide t ++ [0]), some (.ofNat 32 t.length)⟩

/-- The components are those of the URL, which is put together from them. -/
structure Rebuilds (gets : Component → List Byte → Written → Prop) (https : Bool) (s : List Byte)
    (c : Components) (out : Cracked) (host port path extra : List Byte) : Prop where
  text : host ++ port ++ path ++ extra = s
  shape : chr ':' ∉ host ∧ chr '/' ∉ host ∧ chr '?' ∉ path ∧ ∀ d ∈ extra.head?, d = chr '?'
  nScheme : out.nScheme = internetScheme https
  nPort : port = [] ∧ out.nPort = defaultPort https ∨
    ∃ ds, port = chr ':' :: ds ∧ out.nPort = .ofNat 16 (number ds)
  scheme : gets c.scheme (schemeText https) out.scheme
  host : gets c.host host out.host
  path : gets c.path path out.path
  extra : gets c.extra extra out.extra

/-- A URL is taken apart when every buffer has room for all of it. -/
def Promised (https : Bool) (u s : List Byte) (c : Components)
    (r : Option (U32 × Option Cracked)) : Prop :=
  (∀ k ∈ [c.scheme, c.host, c.path, c.extra], k.ptr ≠ 0 ∧ u.length < k.len.toNat) →
    ∃ out host port path extra, r = some (1, some out) ∧
      Rebuilds Gets https s c out host port path extra

-- ---------------------------------------------------------------------------
-- What is done
-- ---------------------------------------------------------------------------

/-- A component gets as much as it has room for, and the length of the whole. -/
structure Cut (c : Component) (t : List Byte) (out : Written) : Prop where
  text : out.text =
    if c.ptr ≠ 0 ∧ 0 < c.len then some (wide (t.take (c.len.toNat - 1)) ++ [0]) else none
  inside : ∀ x ∈ out.text, x.length ≤ c.len.toNat
  length : out.length = if 0 < c.len then some (.ofNat 32 t.length) else none

/-- Without a path there is the root. -/
def withPath (s : List Byte) : List Byte := if pathOf s = [] then s ++ [chr '/'] else s

/-- A size below 2 GB, for a component that has a buffer. -/
def Component.Small (c : Component) : Prop := c.ptr ≠ 0 → c.len.toNat < 2 ^ 31

instance (c : Component) : Decidable c.Small := inferInstanceAs (Decidable (_ → _))

structure Components.Small (c : Components) : Prop where
  scheme : c.scheme.Small
  host : c.host.Small
  path : c.path.Small
  extra : c.extra.Small

theorem length_wide (t : List Byte) : (wide t).length = t.length := List.length_map ..

theorem writeWstrTo_eq (hn : 0 < n) (ht : t.length ≤ 2047) :
    writeWstrTo t (n : Nat) = some (wide (t.take (n - 1)) ++ [0]) := by
  have hlen : min (if (n : Int) ≤ t.length then (n : Int) - 1 else t.length) 2047 =
      (min t.length (n - 1) : Nat) := by
    split <;> omega
  unfold writeWstrTo
  dsimp only
  rw [hlen, if_neg (Int.not_lt.2 (Int.natCast_nonneg _)), Int.toNat_natCast, Nat.min_comm,
    ← List.take_take, List.take_length]
  rfl

/-- Nothing is longer than the host's array for the guest's characters. -/
theorem fill_cut {c : Component} (hc : c.Small) (ht : t.length ≤ 2047) :
    ∃ out, fill c t = some out ∧ Cut c t out := by
  unfold fill
  dsimp only
  by_cases hbuf : c.ptr ≠ 0 ∧ 0 < c.len
  · have hint : c.len.toInt = (c.len.toNat : Int) :=
      BitVec.toInt_eq_toNat_of_lt (by have hsmall := hc hbuf.1; omega)
    have hpos : 0 < c.len.toNat := hbuf.2
    rw [if_pos hbuf, hint, writeWstrTo_eq hpos ht]
    refine ⟨_, rfl, (if_pos hbuf).symm, ?_, rfl⟩
    rintro _ ⟨⟩
    rw [List.length_append, length_wide, List.length_take, List.length_singleton]
    omega
  · rw [if_neg hbuf]
    exact ⟨_, rfl, (if_neg hbuf).symm, nofun, rfl⟩

/-- A cut component that fits is whole. -/
theorem Cut.gets {c : Component} {out : Written} (h : Cut c t out) : Gets c t out := by
  intro hptr hlt
  have hpos : 0 < c.len := Nat.zero_lt_of_lt hlt
  have htext := h.text
  have hlength := h.length
  rw [if_pos ⟨hptr, hpos⟩, List.take_of_length_le (Nat.le_sub_one_of_lt hlt)] at htext
  rw [if_pos hpos] at hlength
  cases out
  cases htext
  cases hlength
  rfl

-- ---------------------------------------------------------------------------
-- The parse
-- ---------------------------------------------------------------------------

theorem length_url (w : List U16) (urlLength : U32) : (url w urlLength).length ≤ 2047 := by
  simp only [url, readWstr, List.length_map, List.length_take]
  omega

theorem narrow_wide (hu : ∀ c ∈ u, c ≠ (0 : Byte) ∧ c < 128) :
    (wide u).map (fun c => if c < 128 then c.setWidth 8 else chr '?') = u := by
  rw [wide, List.map_map]
  refine (List.map_congr_left fun c hc => ?_).trans (List.map_id u)
  have hlow := (hu c hc).2
  have hwide : (c.setWidth 16 : U16) < 128 := by bv_omega
  rw [Function.comp_apply, if_pos hwide]
  exact BitVec.setWidth_setWidth_of_le c (by decide)

theorem wide_nonzero (hu : ∀ c ∈ u, c ≠ (0 : Byte) ∧ c < 128) : ∀ c ∈ wide u, (c != 0) = true := by
  intro c hc
  obtain ⟨b, hb, rfl⟩ := List.mem_map.1 hc
  have hne := (hu b hb).1
  rw [bne_iff_ne]
  intro h0
  exact hne (by bv_omega)

/-- What is read is the URL. -/
theorem Given.url_eq (h : Given u w urlLength) (hlen : u.length ≤ 2047) : url w urlLength = u := by
  have hread : (w.takeWhile (· != 0)).take (min ((if urlLength = 0 ∨ 4000 < urlLength then 4000
      else urlLength.toNat) + 1) 2048 - 1) = wide u := by
    rcases h.at_ptr with ⟨⟨t, rfl⟩, hn⟩ | ⟨⟨t, rfl⟩, hne, hn⟩
    · rw [List.takeWhile_append_of_pos (wide_nonzero h.chars),
        List.takeWhile_cons_of_neg (by simp), List.append_nil]
      refine List.take_of_length_le ?_
      rw [length_wide]
      split
      · omega
      · rename_i hcap
        have hle := hn.resolve_left fun h0 => hcap (.inl h0)
        omega
    · have hkeep : ¬ (urlLength = 0 ∨ 4000 < urlLength) := by
        have hpos := List.length_pos_iff.2 hne
        rintro (h0 | hcap)
        · rw [h0] at hn
          exact absurd hn (Nat.ne_of_gt hpos)
        · have hcap : 4000 < urlLength.toNat := hcap
          omega
      rw [List.takeWhile_append_of_pos (wide_nonzero h.chars), if_neg hkeep, ← hn]
      exact List.take_left' (by rw [length_wide]; omega)
  simp only [url, readWstr]
  rw [hread]
  exact narrow_wide h.chars

theorem length_head (h : casecmp head (schemeText https ++ str "://")) :
    head.length = if https then 8 else 7 := by
  have hlen := congrArg List.length (eq_of_beq h)
  rw [List.length_map, List.length_map] at hlen
  rw [hlen]
  cases https <;> rfl

/-- The scheme is found, and what follows it. -/
theorem parse_web (h : Web https u s) :
    parseUrl u = ⟨https, (parseServer s (defaultPort https)).1,
      (parseServer s (defaultPort https)).2.1,
      (parsePath (parseServer s (defaultPort https)).2.2).1,
      (parsePath (parseServer s (defaultPort https)).2.2).2⟩ := by
  obtain ⟨head, rfl, hcase⟩ := h
  have hlen := length_head hcase
  unfold parseUrl
  cases https with
  | true =>
    have htext : schemeText true ++ str "://" = str "https://" := by decide
    have htake : (head ++ s).take 8 = head := List.take_left' hlen
    have hdrop : (head ++ s).drop 8 = s := List.drop_left' hlen
    rw [htext] at hcase
    rw [htake, hdrop, if_pos hcase]
  | false =>
    have htext : schemeText false ++ str "://" = str "http://" := by decide
    have htake : (head ++ s).take 7 = head := List.take_left' hlen
    have hdrop : (head ++ s).drop 7 = s := List.drop_left' hlen
    rw [htext] at hcase
    have hother : ¬ casecmp ((head ++ s).take 8) (str "https://") := by
      intro hs
      have hseven := congrArg (List.take 7) (eq_of_beq hs)
      rw [← List.map_take, List.take_take, Nat.min_eq_left (by decide), htake,
        eq_of_beq hcase] at hseven
      exact absurd hseven (by decide)
    rw [if_neg hother, htake, hdrop, if_pos hcase]

/-- The path is what is before its first question mark. -/
theorem parse_path (hlen : p.length ≤ 2047) :
    (parsePath (pathStart p)).1 ++ (parsePath (pathStart p)).2 = (if p = [] then [chr '/'] else p) ∧
      chr '?' ∉ (parsePath (pathStart p)).1 ∧
        ∀ d ∈ (parsePath (pathStart p)).2.head?, d = chr '?' := by
  cases p with
  | nil => exact ⟨rfl, by decide, nofun⟩
  | cons c p =>
    have hstart : pathStart (c :: p) = some (c :: p) := rfl
    rw [hstart, if_neg (List.cons_ne_nil c p), parsePath]
    cases hq : strchr (c :: p) (chr '?') with
    | none =>
      have hno : chr '?' ∉ c :: p := by
        intro hmem
        have hnone := List.findIdx?_eq_none_iff.1 hq _ hmem
        simp at hnone
      dsimp only
      rw [List.take_of_length_le (by omega)]
      exact ⟨List.append_nil _, hno, nofun⟩
    | some q =>
      obtain ⟨hlt, hat, hbefore⟩ := List.findIdx?_eq_some_iff_getElem.1 hq
      dsimp only
      rw [if_pos (by omega), List.take_of_length_le (i := 2047) (by rw [List.length_drop]; omega)]
      refine ⟨List.take_append_drop .., ?_, fun d hd => ?_⟩
      · intro hmem
        obtain ⟨j, hj, heq⟩ := List.mem_take_iff_getElem.1 hmem
        refine hbefore j (by omega) ?_
        simp [heq]
      · rw [List.head?_drop, List.getElem?_eq_getElem hlt] at hd
        cases hd
        exact eq_of_beq hat

-- ---------------------------------------------------------------------------
-- The law
-- ---------------------------------------------------------------------------

/-- The name and the port of an authority. -/
theorem authority_parts (https : Bool) (a : List Byte) : ∃ port, nameOf a ++ port = a ∧
    (port = [] ∧ portNum https a = defaultPort https ∨
      ∃ ds, port = chr ':' :: ds ∧ portNum https a = .ofNat 16 (number ds)) := by
  by_cases hc : chr ':' ∈ a
  · exact ⟨_, (authority_split hc).symm, .inr ⟨_, rfl, if_pos hc⟩⟩
  · exact ⟨[], by rw [List.append_nil, (nameOf_eq hc).1], .inl ⟨rfl, if_neg hc⟩⟩

theorem authority_withPath (s : List Byte) :
    authorityOf s ++ (if pathOf s = [] then [chr '/'] else pathOf s) = withPath s := by
  have hsplit := authority_path s
  unfold withPath
  split
  · rename_i hp
    rw [hp, List.append_nil] at hsplit
    rw [hsplit]
  · exact hsplit

theorem parseServer_short (s : List Byte) (port : U16) (hlen : s.length ≤ 2047) :
    (parseServer s port).1.length ≤ 2047 ∧ ∀ t ∈ (parseServer s port).2.2, t.length ≤ 2047 := by
  have hhost : ∀ k, (if 0 < k ∧ k < 512 then s.take k else []).length ≤ 2047 := by
    intro k
    split
    · exact (List.length_take_le' ..).trans hlen
    · exact Nat.zero_le _
  have hdrop : ∀ k, (s.drop k).length ≤ 2047 := fun k => by
    rw [List.length_drop]
    exact (Nat.sub_le ..).trans hlen
  unfold parseServer
  dsimp only
  split
  · exact ⟨hhost _, nofun⟩
  · split
    · exact ⟨hhost _, by rintro _ ⟨⟩; exact hdrop _⟩
    · exact ⟨hhost _, by rintro _ ⟨⟩; exact hdrop _⟩
  · exact ⟨hhost _, by rintro _ ⟨⟩; exact hdrop _⟩
  · exact ⟨(List.length_take_le' ..).trans hlen, nofun⟩

theorem parsePath_short {p : Option (List Byte)} (hlen : ∀ t ∈ p, t.length ≤ 2047) :
    (parsePath p).1.length ≤ 2047 ∧ (parsePath p).2.length ≤ 2047 := by
  cases p with
  | none => exact ⟨by decide, by decide⟩
  | some t =>
    have ht := hlen t rfl
    simp only [parsePath]
    split
    · dsimp only
      refine ⟨?_, List.length_take_le ..⟩
      split
      · exact (List.length_take_le' ..).trans ht
      · exact Nat.zero_le _
    · exact ⟨(List.length_take_le' ..).trans ht, Nat.zero_le _⟩

theorem parse_short (hlen : u.length ≤ 2047) : (parseUrl u).host.length ≤ 2047 ∧
    (parseUrl u).path.length ≤ 2047 ∧ (parseUrl u).extra.length ≤ 2047 := by
  have hparse : ∀ https p, p.length ≤ 2047 →
      (parseServer p (defaultPort https)).1.length ≤ 2047 ∧
      (parsePath (parseServer p (defaultPort https)).2.2).1.length ≤ 2047 ∧
      (parsePath (parseServer p (defaultPort https)).2.2).2.length ≤ 2047 := by
    intro https p hp
    obtain ⟨hhost, hpath⟩ := parseServer_short p (defaultPort https) hp
    exact ⟨hhost, parsePath_short hpath⟩
  have hdrop : ∀ k, (u.drop k).length ≤ 2047 := fun k => by
    rw [List.length_drop]
    exact (Nat.sub_le ..).trans hlen
  unfold parseUrl
  dsimp only
  split
  · exact hparse true _ (hdrop 8)
  · split
    · exact hparse false _ (hdrop 7)
    · exact hparse false _ hlen

/-- Whatever the text is, each component of its parse is cut to its buffer. -/
theorem crack_cut {c : Components} (hc : c.Small) (w : List U16) (urlLength : U32) :
    ∃ out, crackUrl w urlLength (some c) = some (1, some out) ∧
      out.nScheme = internetScheme (parseUrl (url w urlLength)).https ∧
      out.nPort = (parseUrl (url w urlLength)).port ∧
      Cut c.scheme (schemeText (parseUrl (url w urlLength)).https) out.scheme ∧
      Cut c.host (parseUrl (url w urlLength)).host out.host ∧
      Cut c.path (parseUrl (url w urlLength)).path out.path ∧
      Cut c.extra (parseUrl (url w urlLength)).extra out.extra := by
  obtain ⟨hhost, hpath, hextra⟩ := parse_short (length_url w urlLength)
  have hscheme : ∀ https, (schemeText https).length ≤ 2047 := by
    decide
  obtain ⟨scheme, hs, hscut⟩ := fill_cut hc.scheme (hscheme (parseUrl (url w urlLength)).https)
  obtain ⟨host, hh, hhcut⟩ := fill_cut hc.host hhost
  obtain ⟨path, hp, hpcut⟩ := fill_cut hc.path hpath
  obtain ⟨extra, he, hecut⟩ := fill_cut hc.extra hextra
  refine ⟨⟨_, _, scheme, host, path, extra⟩, ?_, rfl, rfl, hscut, hhcut, hpcut, hecut⟩
  simp only [crackUrl, hs, hh, hp, he]
  rfl

/-- Every call with components succeeds. For a URL of at most 2047 characters with a plain server
the components are those of the URL, as far as the buffers go. -/
theorem crack_law {c : Components} (hc : c.Small) (w : List U16) (urlLength : U32) :
    (∃ out, crackUrl w urlLength (some c) = some (1, some out)) ∧
    ∀ https u s, Given u w urlLength → u.length ≤ 2047 → Web https u s → Served s →
      ∃ out host port path extra, crackUrl w urlLength (some c) = some (1, some out) ∧
        Rebuilds Cut https (withPath s) c out host port path extra := by
  obtain ⟨out, hout, hkind, hport, hscheme, hhost, hpath, hextra⟩ := crack_cut hc w urlLength
  refine ⟨⟨out, hout⟩, fun https u s hu hlen hweb hs => ?_⟩
  have hp : (pathOf s).length ≤ 2047 := by
    obtain ⟨head, rfl, -⟩ := hweb
    have hle : (pathOf s).length ≤ s.length := (List.dropWhile_sublist _).length_le
    rw [List.length_append] at hlen
    omega
  obtain ⟨hsplit, hmark, hstart⟩ := parse_path hp
  obtain ⟨port, hname, hnum⟩ := authority_parts https (authorityOf s)
  have hslash : chr '/' ∉ nameOf (authorityOf s) := fun hmem =>
    authorityOf_slash s ((List.takeWhile_prefix _).subset hmem)
  rw [hu.url_eq hlen, parse_web hweb, parseServer_plain _ hs.1 hs.2] at hkind hport hscheme hhost hpath hextra
  refine ⟨out, _, port, _, _, hout, ?_, ⟨nameOf_colon _, hslash, hmark, hstart⟩, hkind, ?_, hscheme,
    hhost, hpath, hextra⟩
  · rw [hname, List.append_assoc, hsplit, authority_withPath]
  · rw [hport]
    exact hnum

/-- Four buffers of a size. -/
def buffers (n : U32) : Components := ⟨⟨0x1000, n⟩, ⟨0x2000, n⟩, ⟨0x3000, n⟩, ⟨0x4000, n⟩⟩

theorem ascii_all {u : List Byte} (h : u.all fun c => c != 0 && c < 128) :
    ∀ c ∈ u, c ≠ 0 ∧ c < 128 := by
  intro c hc
  simpa using List.all_eq_true.1 h c hc

/-- `HTTP://` -/
def webHead : List Byte := [chr 'H', chr 'T', chr 'T', chr 'P', chr ':', chr '/', chr '/']

theorem web_webHead (s : List Byte) : Web false (webHead ++ s) s := ⟨webHead, rfl, by decide +kernel⟩

/-- `h:8/p?` -/
def served : List Byte := [chr 'h', chr ':', chr '8', chr '/', chr 'p', chr '?']

theorem crack_law_port : ∃ out host port path extra,
    crackUrl (wide (webHead ++ served) ++ [0]) 0 (some (buffers 8)) = some (1, some out) ∧
      Rebuilds Cut false (withPath served) (buffers 8) out host port path extra :=
  (crack_law ⟨by decide, by decide, by decide, by decide⟩ _ _).2 false (webHead ++ served) served
    ⟨ascii_all (by decide +kernel), .inl ⟨⟨[], rfl⟩, .inl rfl⟩⟩ (by decide) (web_webHead _) (by decide +kernel)

/-- A URL without a path gets one. -/
theorem root_added : ¬ ∀ https u s w n c, Given u w n → Web https u s → Served s →
    Promised https u s c (crackUrl w n (some c)) := by
  intro hall
  obtain ⟨out, host, port, path, extra, hout, hre⟩ := hall false (webHead ++ [chr 'h']) [chr 'h']
    (wide (webHead ++ [chr 'h']) ++ [0]) 0 (buffers 99)
    ⟨ascii_all (by decide +kernel), .inl ⟨⟨[], rfl⟩, .inl rfl⟩⟩ (web_webHead _) (by decide +kernel) (by decide)
  have hroot : (crackUrl (wide (webHead ++ [chr 'h']) ++ [0]) 0 (some (buffers 99))).map
      (fun r => r.2.map (·.path)) = some (some ⟨some (wide [chr '/'] ++ [0]), some 1⟩) := by
    decide +kernel
  rw [hout] at hroot
  have hpath : out.path = ⟨some (wide [chr '/'] ++ [0]), some 1⟩ :=
    Option.some.inj (Option.some.inj hroot)
  have hshort : path.length < 99 := by
    have hlen := congrArg List.length hre.text
    simp only [List.length_append] at hlen
    have hone : [chr 'h'].length = 1 := rfl
    omega
  have hgets := hre.path (by decide) hshort
  rw [hpath] at hgets
  have hwide : wide [chr '/'] = wide path :=
    List.append_cancel_right (Option.some.inj (Written.mk.inj hgets).1)
  have hmem : (0x2F : U16) ∈ wide path := by
    rw [← hwide]
    decide
  obtain ⟨b, hb, hslash⟩ := List.mem_map.1 hmem
  have hin : b ∈ [chr 'h'] := by
    rw [← hre.text]
    simp [hb]
  obtain rfl : b = chr 'h' := List.mem_singleton.1 hin
  exact absurd hslash (by decide)

end WineGlass.Crack
