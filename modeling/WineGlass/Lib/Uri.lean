import WineGlass.Lib.CStrings

/-!
# References

What a reference in a document of the web refers to, for the two schemes of the web: a whole
URL, one without a scheme, one without an authority, or one relative to the document. A host
may be a name, or an address between brackets. The part after `#` is not sent to a server.
-/

namespace Uri

open CStrings

structure Url where
  https : Bool
  host : List Byte
  port : BitVec 16
  path : List Byte
  deriving DecidableEq, Repr

def defaultPort (https : Bool) : BitVec 16 := if https then 443 else 80

/-- What follows the scheme `name`, if the reference has it. -/
def afterScheme (name : String) (s : List Byte) : Option (List Byte) :=
  let scheme := str name ++ str "://"
  if casecmp (s.take scheme.length) scheme then some (s.drop scheme.length) else none

/-- Whether the reference has a scheme at all. -/
def hasScheme (s : List Byte) : Bool :=
  s.any (· == chr ':') && (s.takeWhile (· != chr ':')).all fun c =>
    c != chr '/' && c != chr '?'

/-- A port, the default being meant when there are no digits. -/
def portOf (https : Bool) (s : List Byte) : Option (BitVec 16) :=
  if s.all isdigit ∧ number s < 2 ^ 16 then
    some (if s.isEmpty then defaultPort https else BitVec.ofNat 16 (number s))
  else none

/-- Host and port of an authority. -/
def hostPort (https : Bool) (authority : List Byte) : Option (List Byte × BitVec 16) :=
  let s := match strchr authority (chr '@') with
    | some i => authority.drop (i + 1)
    | none => authority
  let close := if s.head? = some (chr '[') then chr ']' else chr ':'
  let host := s.takeWhile (· != close)
  let rest := (s.dropWhile (· != close)).drop (if close = chr ']' then 1 else 0)
  let host := if close = chr ']' then host.drop 1 else host
  if host.isEmpty then none
  else if rest.isEmpty then some (host, defaultPort https)
  else if rest.head? = some (chr ':') then (portOf https (rest.drop 1)).map fun p => (host, p)
  else none

/-- A reference that names a server, after `//`. -/
def absolute (https : Bool) (s : List Byte) : Option Url :=
  let inside := fun c => c != chr '/' && c != chr '?'
  let path := s.dropWhile inside
  (hostPort https (s.takeWhile inside)).map fun (host, port) =>
    ⟨https, host, port, if path.head? = some (chr '/') then path else chr '/' :: path⟩

/-- The path up to its last `/`. -/
def directory (path : List Byte) : List Byte :=
  ((path.takeWhile (· != chr '?')).reverse.dropWhile (· != chr '/')).reverse

/-- What `ref` refers to in the response of `base`. -/
def resolve (base : Url) (ref : List Byte) : Option Url :=
  let ref := ref.takeWhile (· != chr '#')
  match afterScheme "https" ref, afterScheme "http" ref with
  | some s, _ => absolute true s
  | none, some s => absolute false s
  | none, none =>
    if hasScheme ref then none
    else if (str "//").isPrefixOf ref then absolute base.https (ref.drop 2)
    else if ref.head? = some (chr '/') then some { base with path := ref }
    else if ref.head? = some (chr '?') then
      some { base with path := base.path.takeWhile (· != chr '?') ++ ref }
    else if ref.isEmpty then some base
    else some { base with path := directory base.path ++ ref }

example : resolve ⟨false, str "a", 80, str "/x/y?z"⟩ (str "w") =
    some ⟨false, str "a", 80, str "/x/w"⟩ := by decide +kernel

example : resolve ⟨false, str "a", 80, str "/x/y?z"⟩ (str "//[::1]:81?w") =
    some ⟨false, str "::1", 81, str "/?w"⟩ := by decide +kernel

-- ---------------------------------------------------------------------------
-- Servers without an address in brackets
-- ---------------------------------------------------------------------------

def nameOf (authority : List Byte) : List Byte := authority.takeWhile (· != chr ':')

def digitsOf (authority : List Byte) : List Byte := (authority.dropWhile (· != chr ':')).drop 1

/-- An authority that is a name, and perhaps a port. -/
structure Plain (authority : List Byte) : Prop where
  name : ∀ c ∈ authority, c ≠ chr '@' ∧ c ≠ chr '[' ∧ c ≠ chr '/' ∧ c ≠ chr '?'
  host : nameOf authority ≠ []
  port : chr ':' ∈ authority → digitsOf authority ≠ [] ∧ (∀ d ∈ digitsOf authority, isdigit d) ∧
    number (digitsOf authority) < 2 ^ 16

/-- The port that is meant. -/
def portNum (https : Bool) (authority : List Byte) : BitVec 16 :=
  if chr ':' ∈ authority then BitVec.ofNat 16 (number (digitsOf authority)) else defaultPort https

/-- The two parts of an authority. -/
theorem rest_eq (h : chr ':' ∈ a) : a.dropWhile (· != chr ':') = chr ':' :: digitsOf a := by
  have hne : a.dropWhile (· != chr ':') ≠ [] := by
    intro hnil
    have hall := List.dropWhile_eq_nil_iff.1 hnil _ h
    simp at hall
  obtain ⟨c, cs, hcs⟩ := List.exists_cons_of_ne_nil hne
  have hc : c = chr ':' := by
    have hhead := List.head_dropWhile_not (· != chr ':') hne
    simpa [hcs] using hhead
  rw [digitsOf, hcs, List.drop_one, List.tail_cons, hc]

theorem authority_split (h : chr ':' ∈ a) : a = nameOf a ++ chr ':' :: digitsOf a := by
  rw [← rest_eq h]
  exact List.takeWhile_append_dropWhile.symm

theorem nameOf_eq (h : chr ':' ∉ a) : nameOf a = a ∧ a.dropWhile (· != chr ':') = [] := by
  have hall : ∀ c ∈ a, (c != chr ':') = true := fun c hc => by
    have hne : c ≠ chr ':' := fun he => h (he ▸ hc)
    simpa using hne
  exact ⟨List.takeWhile_eq_self_iff.2 hall, List.dropWhile_eq_nil_iff.2 hall⟩

theorem hostPort_plain (https : Bool) (h : Plain a) :
    hostPort https a = some (nameOf a, portNum https a) := by
  have hat : strchr a (chr '@') = none := strchr_none fun hmem => (h.name _ hmem).1 rfl
  have hopen : a.head? ≠ some (chr '[') := fun he =>
    (h.name _ (List.mem_of_mem_head? he)).2.1 rfl
  have hcolon : chr ':' ≠ chr ']' := by decide
  unfold hostPort
  simp only [hat, if_neg hopen, if_neg hcolon, List.drop_zero]
  have hhost : ¬ (a.takeWhile (· != chr ':')).isEmpty := by
    rw [List.isEmpty_iff]
    exact h.host
  rw [if_neg hhost]
  by_cases hmem : chr ':' ∈ a
  · obtain ⟨hne, hdigits, hfit⟩ := h.port hmem
    have hport : portOf https (digitsOf a) = some (portNum https a) := by
      have hall : (digitsOf a).all isdigit := List.all_eq_true.2 hdigits
      rw [portOf, if_pos ⟨hall, hfit⟩, if_neg (by rwa [List.isEmpty_iff]), portNum, if_pos hmem]
    rw [rest_eq hmem, if_neg (by simp), List.head?_cons, if_pos rfl, List.drop_one, List.tail_cons, hport]
    rfl
  · rw [(nameOf_eq hmem).2, if_pos List.isEmpty_nil, portNum, if_neg hmem]
    rfl

/-- What follows the authority of a reference, after `//`. -/
def authorityOf (s : List Byte) : List Byte := s.takeWhile (· != chr '/')

def pathOf (s : List Byte) : List Byte := s.dropWhile (· != chr '/')

theorem authority_path (s : List Byte) : authorityOf s ++ pathOf s = s :=
  List.takeWhile_append_dropWhile

theorem authorityOf_slash (s : List Byte) : chr '/' ∉ authorityOf s := fun h => by
  simpa using List.mem_takeWhile_imp h

theorem pathOf_cases (s : List Byte) : pathOf s = [] ∨ ∃ t, pathOf s = chr '/' :: t := by
  cases hp : pathOf s with
  | nil => exact .inl rfl
  | cons c t =>
    have hne : s.dropWhile (· != chr '/') ≠ [] := fun hnil => by
      rw [pathOf, hnil] at hp
      cases hp
    have hhead := List.head_dropWhile_not (· != chr '/') hne
    have hc : c = chr '/' := by
      simpa [show s.dropWhile (· != chr '/') = c :: t from hp] using hhead
    exact .inr ⟨t, by rw [hc]⟩

theorem absolute_plain (https : Bool) (h : Plain (authorityOf s)) :
    absolute https s = some ⟨https, nameOf (authorityOf s), portNum https (authorityOf s),
      if (pathOf s).isEmpty then [chr '/'] else pathOf s⟩ := by
  have hinside : ∀ c ∈ authorityOf s, (c != chr '/' && c != chr '?') = true := fun c hc => by
    simpa using ⟨(h.name c hc).2.2.1, (h.name c hc).2.2.2⟩
  have htake : (authorityOf s ++ pathOf s).takeWhile (fun c => c != chr '/' && c != chr '?') =
      authorityOf s := by
    rw [List.takeWhile_append_of_pos hinside]
    rcases pathOf_cases s with hp | ⟨t, hp⟩ <;> rw [hp] <;> simp
  have hdrop : (authorityOf s ++ pathOf s).dropWhile (fun c => c != chr '/' && c != chr '?') =
      pathOf s := by
    rw [List.dropWhile_append_of_pos hinside]
    rcases pathOf_cases s with hp | ⟨t, hp⟩ <;> rw [hp] <;> simp
  rw [authority_path] at htake hdrop
  simp only [absolute, htake, hdrop, hostPort_plain https h, Option.map_some]
  rcases pathOf_cases s with hp | ⟨t, hp⟩ <;> rw [hp] <;> simp

end Uri
