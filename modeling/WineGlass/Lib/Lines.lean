import WineGlass.Lib.CStrings

/-!
# Lines of a text

Texts of lines that end with a carriage return and a line feed, and the search for a key at the
start of a line. Keys are compared up to case. A field is a line with a name, a colon and a value
between blanks.
-/

namespace Lines

open CStrings

def cr : Byte := chr '\r'

def lf : Byte := chr '\n'

def colon : Byte := chr ':'

def isblank (c : Byte) : Bool := c == chr ' ' || c == chr '\t'

/-- The text begins with the key. -/
def starts (key s : List Byte) : Bool := (key.map tolower).isPrefixOf (s.map tolower)

/-- What follows the key at the first line that starts with it; whether the text begins a line is
given. -/
def seek (key : List Byte) : Bool → List Byte → Option (List Byte)
  | _, [] => none
  | begins, c :: cs =>
    if begins && starts key (c :: cs) then some ((c :: cs).drop key.length)
    else seek key (c == lf) cs

/-- What follows the first occurrence. -/
def after (s p : List Byte) : Option (List Byte) :=
  (strcasestr s p).map fun i => s.drop (i + p.length)

/-- The lines before `s`. -/
def joined (ls : List (List Byte)) (s : List Byte) : List Byte :=
  ls.foldr (fun l s => l ++ cr :: lf :: s) s

/-- A character of a name: a visible one that is no delimiter. -/
def tchar (c : Byte) : Bool :=
  0x21 ≤ c && c ≤ 0x7E && !(str "\"(),/:;<=>?@[\\]\x7b\x7d").contains c

structure Named (name : List Byte) : Prop where
  nonempty : name ≠ []
  tchars : ∀ c ∈ name, tchar c

structure Field where
  name : List Byte
  lead : List Byte
  text : List Byte
  tail : List Byte
  deriving DecidableEq, Repr

/-- What follows the colon. -/
def Field.rest (f : Field) : List Byte := f.lead ++ (f.text ++ f.tail)

def Field.line (f : Field) : List Byte := f.name ++ colon :: f.rest

structure Field.WellFormed (f : Field) : Prop where
  name : Named f.name
  lead : ∀ c ∈ f.lead, isblank c
  tail : ∀ c ∈ f.tail, isblank c
  first : ∀ c ∈ f.text.head?, isblank c = false
  last : ∀ c ∈ f.text.getLast?, isblank c = false
  alone : f.text = [] → f.tail = []
  text : ∀ c ∈ f.text, c ≠ 0 ∧ c ≠ cr ∧ c ≠ lf

/-- The first field of a name. -/
def lookup (fs : List Field) (name : List Byte) : Option Field :=
  fs.find? fun f => casecmp name f.name

-- ---------------------------------------------------------------------------
-- Characters
-- ---------------------------------------------------------------------------

/-- What is no letter has no other case. -/
theorem tolower_eq_iff {x c : Byte} (hc : c < 0x41) : tolower x = c ↔ x = c := by
  unfold tolower
  split
  · rename_i hx
    simp only [Bool.and_eq_true, decide_eq_true_eq] at hx
    bv_omega
  · exact Iff.rfl

theorem mem_lower {l : List Byte} {c : Byte} (hc : c < 0x41) : c ∈ l.map tolower ↔ c ∈ l := by
  simp only [List.mem_map, tolower_eq_iff hc, exists_eq_right]

theorem casecmp_length {a b : List Byte} (h : casecmp a b) : a.length = b.length := by
  have hlen := congrArg List.length (beq_iff_eq.1 h)
  rwa [List.length_map, List.length_map] at hlen

theorem Named.not_mem {name : List Byte} {c : Byte} (h : Named name) (hc : tchar c = false) :
    c ∉ name := by
  intro hmem
  have ht := h.tchars c hmem
  simp [hc] at ht

/-- A key is a name and its colon. -/
theorem Named.key_not_mem {name : List Byte} {c : Byte} (h : Named name) (hc : tchar c = false)
    (hne : c ≠ colon) : c ∉ name ++ [colon] := by
  rw [List.mem_append, List.mem_singleton, not_or]
  exact ⟨h.not_mem hc, hne⟩

theorem isblank_ne {c : Byte} (h : isblank c) : c ≠ 0 ∧ c ≠ cr ∧ c ≠ lf := by
  simp only [isblank, Bool.or_eq_true, beq_iff_eq] at h
  rcases h with rfl | rfl <;> decide

/-- What follows the key of a field's line. -/
theorem Field.drop_key {f : Field} {name : List Byte} (hc : casecmp name f.name) (s : List Byte) :
    (f.line ++ s).drop (name ++ [colon]).length = f.rest ++ s := by
  rw [Field.line, List.append_assoc, List.length_append, casecmp_length hc, List.length_singleton,
    ← List.drop_drop, List.drop_left, List.cons_append, List.drop_succ_cons, List.drop_zero]

namespace Field.WellFormed

variable {f : Field}

theorem rest_clean (h : f.WellFormed) : ∀ c ∈ f.rest, c ≠ 0 ∧ c ≠ cr ∧ c ≠ lf := by
  intro c hc
  rw [rest, List.mem_append, List.mem_append] at hc
  rcases hc with hc | hc | hc
  · exact isblank_ne (h.lead c hc)
  · exact h.text c hc
  · exact isblank_ne (h.tail c hc)

/-- There is no end of a line, or of a string, in a field. -/
theorem clean (h : f.WellFormed) : ∀ c ∈ f.line, c ≠ 0 ∧ c ≠ cr ∧ c ≠ lf := by
  intro c hc
  rw [line, List.mem_append, List.mem_cons] at hc
  rcases hc with hc | rfl | hc
  · refine ⟨?_, ?_, ?_⟩ <;> rintro rfl <;> exact h.name.not_mem (by decide) hc
  · decide
  · exact h.rest_clean c hc

theorem cr_rest (h : f.WellFormed) : cr ∉ f.rest := fun hc => (h.rest_clean cr hc).2.1 rfl

end Field.WellFormed

-- ---------------------------------------------------------------------------
-- Prefixes
-- ---------------------------------------------------------------------------

/-- What has no `c` begins a text before a `c`. -/
theorem prefix_before {a l : List Byte} {c : Byte} (ha : c ∉ a) (s : List Byte) :
    a <+: l ++ c :: s ↔ a <+: l := by
  induction l generalizing a with
  | nil =>
    cases a with
    | nil => simp
    | cons x xs =>
      have hx : x ≠ c := fun h => ha (h ▸ List.mem_cons_self)
      simp [List.cons_prefix_cons, hx]
  | cons y ys ih =>
    cases a with
    | nil => simp
    | cons x xs =>
      rw [List.cons_append, List.cons_prefix_cons, List.cons_prefix_cons,
        ih fun h => ha (List.mem_cons_of_mem _ h)]

/-- Two texts up to their first `c`. -/
theorem prefix_key {a b : List Byte} {c : Byte} (ha : c ∉ a) (hb : c ∉ b) (v : List Byte) :
    a ++ [c] <+: b ++ c :: v ↔ a = b := by
  induction a generalizing b with
  | nil =>
    cases b with
    | nil => simp
    | cons y ys =>
      have hy : c ≠ y := fun h => hb (h ▸ List.mem_cons_self)
      simp [List.cons_prefix_cons, hy]
  | cons x xs ih =>
    cases b with
    | nil =>
      have hx : x ≠ c := fun h => ha (h ▸ List.mem_cons_self)
      simp [List.cons_prefix_cons, hx]
    | cons y ys =>
      rw [List.cons_append, List.cons_append, List.cons_prefix_cons, List.cons_eq_cons,
        ih (fun h => ha (List.mem_cons_of_mem _ h)) fun h => hb (List.mem_cons_of_mem _ h)]

theorem takeWhile_before {l : List Byte} {c : Byte} (hl : c ∉ l) (s : List Byte) :
    (l ++ c :: s).takeWhile (· != c) = l := by
  have hall : ∀ x ∈ l, (x != c) = true := by
    rintro x hx
    simp only [bne_iff_ne]
    rintro rfl
    exact hl hx
  rw [List.takeWhile_append_of_pos hall, List.takeWhile_cons_of_neg (by simp), List.append_nil]

theorem starts_iff {key s : List Byte} : starts key s ↔ key.map tolower <+: s.map tolower :=
  List.isPrefixOf_iff_prefix

/-- A key is looked for in one line. -/
theorem starts_line {key : List Byte} {c : Byte} (hk : c ∉ key) (hc : c < 0x41) (l s : List Byte) :
    starts key (l ++ c :: s) = starts key l := by
  rw [Bool.eq_iff_iff, starts_iff, starts_iff, List.map_append, List.map_cons,
    (tolower_eq_iff hc).2 rfl, prefix_before fun h => hk ((mem_lower hc).1 h)]

theorem starts_field {name : List Byte} {f : Field} (hn : Named name) (hf : f.WellFormed) :
    starts (name ++ [colon]) f.line = casecmp name f.name := by
  have hname : colon ∉ name.map tolower := fun h =>
    hn.not_mem (by decide) ((mem_lower (by decide)).1 h)
  have hfield : colon ∉ f.name.map tolower := fun h =>
    hf.name.not_mem (by decide) ((mem_lower (by decide)).1 h)
  rw [Bool.eq_iff_iff, starts_iff, Field.line, List.map_append, List.map_append, List.map_cons,
    List.map_cons, List.map_nil, (tolower_eq_iff (by decide)).2 (rfl : colon = colon),
    prefix_key hname hfield, casecmp, beq_iff_eq]

-- ---------------------------------------------------------------------------
-- The search at the starts of lines
-- ---------------------------------------------------------------------------

section Seek

variable {key : List Byte}

theorem seek_inside {l : List Byte} (hl : lf ∉ l) (s : List Byte) :
    seek key false (l ++ s) = seek key false s := by
  induction l with
  | nil => rfl
  | cons c cs ih =>
    rw [List.mem_cons, not_or] at hl
    rw [List.cons_append, seek, Bool.false_and, if_neg Bool.false_ne_true,
      beq_eq_false_iff_ne.2 (Ne.symm hl.1), ih hl.2]

theorem seek_start {s : List Byte} (hs : starts key s) (hne : s ≠ []) :
    seek key true s = some (s.drop key.length) := by
  cases s with
  | nil => exact absurd rfl hne
  | cons c cs => rw [seek, hs, Bool.and_true, if_pos rfl]

/-- Past the first line, when it does not start with the key. -/
theorem seek_line {l : List Byte} (hl : lf ∉ l) (hk : cr ∉ key) (hs : starts key l = false)
    (s : List Byte) : seek key true (l ++ cr :: lf :: s) = seek key true s := by
  have hend : seek key false (cr :: lf :: s) = seek key true s := by
    simp [seek, show (cr == lf) = false from rfl]
  have hline := starts_line hk (by decide) l (lf :: s)
  rw [hs] at hline
  cases l with
  | nil =>
    rw [List.nil_append] at hline ⊢
    rw [seek, hline, Bool.and_false, if_neg Bool.false_ne_true, show (cr == lf) = false from rfl]
    simp [seek]
  | cons c cs =>
    rw [List.mem_cons, not_or] at hl
    rw [List.cons_append] at hline ⊢
    rw [seek, hline, Bool.and_false, if_neg Bool.false_ne_true,
      beq_eq_false_iff_ne.2 (Ne.symm hl.1), seek_inside hl.2, hend]

theorem seek_absent {s : List Byte} (h : strcasestr s key = none) (begins : Bool) :
    seek key begins s = none := by
  induction s generalizing begins with
  | nil => rfl
  | cons c cs ih =>
    rw [strcasestr, List.map_cons, strstr] at h
    split at h
    · cases h
    · rename_i hn
      rw [seek, if_neg, ih (Option.map_eq_none_iff.1 h)]
      intro hs
      exact hn (Bool.and_eq_true _ _ ▸ hs).2

/-- The search goes on after the first occurrence when that is not at the start of a line. -/
theorem seek_first {s : List Byte} (hk : lf ∉ key) (h : strcasestr s key = some i)
    (begins : Bool) (hne : key ≠ []) :
    seek key begins s =
      if (if i = 0 then begins else s[i - 1]? == some lf) then some (s.drop (i + key.length))
      else seek key false (s.drop (i + key.length)) := by
  induction s generalizing i begins with
  | nil =>
    have hle := strstr_le h
    simp only [List.map_nil, List.length_nil, List.length_map] at hle
    exact absurd (List.eq_nil_of_length_eq_zero (by omega)) hne
  | cons c cs ih =>
    rw [strcasestr, List.map_cons, strstr] at h
    split at h
    · rename_i hstart
      cases h
      have hs : starts key (c :: cs) := hstart
      rw [seek, hs, Bool.and_true, if_pos rfl, Nat.zero_add]
      cases begins with
      | true => rfl
      | false =>
        rw [if_neg Bool.false_ne_true, if_neg Bool.false_ne_true]
        have hlen := (starts_iff.1 hs).length_le
        rw [List.length_map, List.length_map] at hlen
        have hno : lf ∉ (c :: cs).take key.length := by
          intro hmem
          have htake := List.prefix_iff_eq_take.1 (starts_iff.1 hs)
          rw [List.length_map, ← List.map_take] at htake
          rw [← mem_lower (by decide), ← htake, mem_lower (by decide)] at hmem
          exact hk hmem
        have hall : seek key false _ = seek key false _ :=
          seek_inside hno ((c :: cs).drop key.length)
        rw [List.take_append_drop] at hall
        rw [← hall, seek, Bool.false_and, if_neg Bool.false_ne_true]
    · rename_i hstart
      obtain ⟨j, hj, rfl⟩ := Option.map_eq_some_iff.1 h
      have hs : starts key (c :: cs) = false := Bool.eq_false_iff.2 hstart
      rw [seek, hs, Bool.and_false, if_neg Bool.false_ne_true, ih hj, if_neg (Nat.succ_ne_zero j),
        Nat.add_sub_cancel, Nat.add_right_comm, List.drop_succ_cons]
      cases j with
      | zero => simp
      | succ j => simp

/-- The search through the fields of a text. -/
theorem seek_fields {name : List Byte} {fs : List Field} (hn : Named name)
    (hfs : ∀ f ∈ fs, f.WellFormed) {s : List Byte} (hs : seek (name ++ [colon]) true s = none) :
    (seek (name ++ [colon]) true (joined (fs.map Field.line) s)).map (·.takeWhile (· != cr)) =
      (lookup fs name).map Field.rest := by
  have hcr := hn.key_not_mem (c := cr) (by decide) (by decide)
  induction fs with
  | nil => simp [joined, lookup, hs]
  | cons f fs ih =>
    have hf := hfs f List.mem_cons_self
    have ih := ih fun g hg => hfs g (List.mem_cons_of_mem f hg)
    rw [List.map_cons, joined, List.foldr_cons, ← joined]
    have hstart := starts_field hn hf
    cases hc : casecmp name f.name with
    | true =>
      rw [hc, ← starts_line hcr (by decide) f.line (lf :: joined (fs.map Field.line) s)] at hstart
      rw [seek_start hstart (by simp), Field.drop_key hc, Option.map_some,
        takeWhile_before hf.cr_rest, lookup, List.find?_cons_of_pos (by simp [hc]), Option.map_some]
    | false =>
      rw [hc] at hstart
      rw [seek_line (fun h => (hf.clean lf h).2.2 rfl) hcr hstart, ih, lookup, lookup,
        List.find?_cons_of_neg (by simp [hc])]

end Seek

-- ---------------------------------------------------------------------------
-- The search for the end of a line and what follows
-- ---------------------------------------------------------------------------

theorem strstr_line {l : List Byte} (hl : cr ∉ l) (s p : List Byte) :
    strstr (l ++ cr :: lf :: s) (cr :: lf :: p) =
      if p.isPrefixOf s then some l.length
      else (strstr s (cr :: lf :: p)).map (· + (l.length + 2)) := by
  induction l with
  | nil =>
    have hfirst : (cr :: lf :: p).isPrefixOf (cr :: lf :: s) = p.isPrefixOf s := by
      simp [List.isPrefixOf]
    have hsecond : (cr :: lf :: p).isPrefixOf (lf :: s) = false := by
      simp [List.isPrefixOf, show (cr == lf) = false from rfl]
    rw [List.nil_append, strstr, hfirst, strstr, hsecond, if_neg Bool.false_ne_true,
      Option.map_map]
    rfl
  | cons c cs ih =>
    rw [List.mem_cons, not_or] at hl
    have hfirst : (cr :: lf :: p).isPrefixOf (c :: (cs ++ cr :: lf :: s)) = false := by
      simp [List.isPrefixOf, hl.1]
    rw [List.cons_append, strstr, hfirst, if_neg Bool.false_ne_true, ih hl.2]
    split
    · rfl
    · rw [Option.map_map, List.length_cons]
      congr 1

/-- The empty line is at the end of lines that are not. -/
theorem strstr_blank {l : List Byte} (hl : cr ∉ l) {ls : List (List Byte)}
    (hls : ∀ m ∈ ls, m ≠ [] ∧ cr ∉ m) (s : List Byte) :
    strstr (joined (l :: ls) (cr :: lf :: s)) [cr, lf, cr, lf] =
      some ((joined (l :: ls) []).length - 2) := by
  induction ls generalizing l with
  | nil =>
    rw [joined, List.foldr_cons, List.foldr_nil, strstr_line hl, if_pos (by simp [List.isPrefixOf])]
    simp [joined]
  | cons m ls ih =>
    obtain ⟨hm, hcr⟩ := hls m List.mem_cons_self
    have hnot : [cr, lf].isPrefixOf (joined (m :: ls) (cr :: lf :: s)) = false := by
      cases m with
      | nil => exact absurd rfl hm
      | cons c cs =>
        rw [List.mem_cons, not_or] at hcr
        simp [joined, List.isPrefixOf, hcr.1]
    rw [joined, List.foldr_cons, ← joined, strstr_line hl, hnot, if_neg Bool.false_ne_true,
      ih hcr fun n hn => hls n (List.mem_cons_of_mem m hn), Option.map_some]
    simp only [joined, List.foldr_cons, List.length_append, List.length_cons]
    congr 1
    omega

theorem drop_line (l s : List Byte) (n : Nat) :
    (l ++ cr :: lf :: s).drop (l.length + (n + 2)) = s.drop n := by
  rw [← List.drop_drop, List.drop_left, List.drop_succ_cons, List.drop_succ_cons]

theorem after_line {l : List Byte} (hl : cr ∉ l) (s key : List Byte) :
    after (l ++ cr :: lf :: s) (cr :: lf :: key) =
      if starts key s then some (s.drop key.length) else after s (cr :: lf :: key) := by
  have hlower : cr ∉ l.map tolower := fun h => hl ((mem_lower (by decide)).1 h)
  have hline : strcasestr (l ++ cr :: lf :: s) (cr :: lf :: key) =
      if starts key s then some l.length
      else (strcasestr s (cr :: lf :: key)).map (· + (l.length + 2)) := by
    have hstr := strstr_line hlower (s.map tolower) (key.map tolower)
    rw [List.length_map] at hstr
    rw [strcasestr, List.map_append]
    exact hstr
  rw [after, hline]
  split
  · rw [Option.map_some, List.length_cons, List.length_cons, drop_line]
  · rw [after, Option.map_map]
    congr 1
    funext i
    dsimp only [Function.comp]
    rw [← drop_line l s, List.length_cons, List.length_cons]
    congr 1
    omega

/-- The search for a field in a text, and then in what follows. -/
theorem after_fields {l name : List Byte} {fs : List Field} (hl : cr ∉ l) (hn : Named name)
    (hfs : ∀ f ∈ fs, f.WellFormed) (s : List Byte) :
    (after (joined (l :: fs.map Field.line) (cr :: lf :: s)) (cr :: lf :: name ++ [colon])).map
        (·.takeWhile (· != cr)) =
      ((lookup fs name).map Field.rest).or
        ((after (cr :: lf :: s) (cr :: lf :: name ++ [colon])).map (·.takeWhile (· != cr))) := by
  have hcr := hn.key_not_mem (c := cr) (by decide) (by decide)
  induction fs generalizing l with
  | nil =>
    have hstart : starts (name ++ [colon]) (cr :: lf :: s) = false := by
      have hnil : starts (name ++ [colon]) [] = false := by simp [starts]
      rw [← hnil]
      exact starts_line hcr (by decide) [] (lf :: s)
    rw [joined, List.map_nil, List.foldr_cons, List.foldr_nil, List.cons_append, List.cons_append,
      after_line hl, hstart, if_neg Bool.false_ne_true]
    rfl
  | cons f fs ih =>
    have hf := hfs f List.mem_cons_self
    have hline : starts (name ++ [colon]) (joined ((f :: fs).map Field.line) (cr :: lf :: s)) =
        casecmp name f.name := by
      rw [← starts_field hn hf]
      exact starts_line hcr (by decide) f.line _
    rw [joined, List.foldr_cons, ← joined, List.cons_append, List.cons_append, after_line hl, hline]
    cases hc : casecmp name f.name with
    | true =>
      rw [if_pos rfl, Option.map_some, List.map_cons, joined, List.foldr_cons, Field.drop_key hc]
      rw [takeWhile_before hf.cr_rest, lookup, List.find?_cons_of_pos (by simp [hc])]
      rfl
    | false =>
      have hno := (hf.clean cr · |>.2.1 rfl)
      rw [if_neg Bool.false_ne_true, List.map_cons, ← List.cons_append, ← List.cons_append,
        ih hno fun g hg => hfs g (List.mem_cons_of_mem f hg), lookup, lookup,
        List.find?_cons_of_neg (by simp [hc])]

end Lines
