import Mathlib.Data.List.Perm.Basic
import WineGlass.Files.Api
import WineGlass.Lib.Fields

/-!
# Positional input and output

`ReadFile` and `WriteFile` with the guest's memory: the buffer, the count and the `OVERLAPPED`
structure whose offset says where in the file a call is meant to go.
-/

namespace WineGlass.Positional

open FileHandles FileApi Stdio Runs Fields

variable {F : Type}

structure Guest (F : Type) where
  mem : Nat → Byte
  is64 : Bool
  files : Store F

structure Args where
  handle : U32
  buf : U64
  nbytes : U32
  count : U64
  overlapped : U64

/-- How much a read gives at most: 128 MB. -/
def Args.capped (a : Args) : Nat := min a.nbytes.toNat 0x8000000

inductive Call
  | readFile (a : Args)
  | writeFile (a : Args)

def Call.args : Call → Args
  | .readFile a | .writeFile a => a

-- ---------------------------------------------------------------------------
-- The code
-- ---------------------------------------------------------------------------

/-- `Offset` and `OffsetHigh` of the structure. -/
def Guest.offset (g : Guest F) (overlapped : U64) : U64 :=
  let ofield : U64 := if g.is64 then 16 else 8
  let lo : U32 := .ofNat 32 (get g.mem ⟨(overlapped + ofield).toNat, 4⟩)
  let hi : U32 := .ofNat 32 (get g.mem ⟨(overlapped + ofield + 4).toNat, 4⟩)
  hi.setWidth 64 <<< 32 ||| lo.setWidth 64

def putUnless0 (m : Nat → Byte) (p : U64) (width n : Nat) : Nat → Byte :=
  if p = 0 then m else set m ⟨p.toNat, width⟩ n

/-- What `ReadFile` leaves in memory: the bytes, their count and `InternalHigh`. -/
def Guest.received (g : Guest F) (a : Args) (bs : List Byte) : Nat → Byte :=
  let mem := putUnless0 (putBytes g.mem a.buf.toNat bs) a.count 4 bs.length
  if a.overlapped = 0 then mem
  else if g.is64 then set mem ⟨(a.overlapped + 8).toNat, 8⟩ bs.length
  else set mem ⟨(a.overlapped + 4).toNat, 4⟩ bs.length

/-- `ReadFile`; an offset goes to the pointer of the handle. -/
def Guest.readFile (g : Guest F) (a : Args) : Option (Guest F × Result) :=
  let files :=
    if a.overlapped = 0 then (g.files.setPointer a.handle 0 1).2
    else (g.files.setPointer64 a.handle (g.offset a.overlapped) 0).2
  (files.read a.handle a.capped).map fun r =>
    match r with
    | (none, files) => ({ g with files }, .read false [])
    | (some bs, files) => ({ g with files, mem := g.received a bs }, .read true bs)

def Guest.data (g : Guest F) (a : Args) : List Byte := bytesAt g.mem a.buf.toNat a.nbytes.toNat

-- ---------------------------------------------------------------------------
-- Transfers
-- ---------------------------------------------------------------------------

/-- What a call is meant to transfer, and what it has read. -/
inductive Transfer (F : Type)
  | none
  | read (path : F) (offset : U64) (n : Nat) (got : List Byte)
  | write (path : F) (offset : U64) (data : List Byte)
  deriving DecidableEq

def Guest.transfer (g : Guest F) (c : Call) (r : Result) : Transfer F :=
  match g.files.sys.find c.args.handle with
  | .none => .none
  | some (_, e) =>
    match c, r with
    | .readFile a, .read _ bs => .read e.path (g.offset a.overlapped) a.capped bs
    | .writeFile a, _ => .write e.path (g.offset a.overlapped) (g.data a)
    | _, _ => .none

/-- What is read is what is at the offset. -/
def Transfer.Exact (disk : F → Node Byte) : Transfer F → Prop
  | .read path offset n got => got = ((disk path).bytes.drop offset.toNat).take n
  | _ => True

variable [DecidableEq F]

/-- What is written goes to the offset. -/
def Transfer.apply (disk : F → Node Byte) : Transfer F → F → Node Byte
  | .write path offset data =>
    if data = [] then disk
    else Function.update disk path (.file (overwrite 0 (disk path).bytes offset.toNat data))
  | _ => disk

/-- Each transfer is exact after the ones before it. -/
def Exact (disk : F → Node Byte) : List (Transfer F) → Prop
  | [] => True
  | t :: ts => t.Exact disk ∧ Exact (t.apply disk) ts

def applyAll (disk : F → Node Byte) (ts : List (Transfer F)) : F → Node Byte :=
  ts.foldl Transfer.apply disk

/-- `WriteFile`, on the stream of the handle. -/
def Guest.writeFile (g : Guest F) (a : Args) : Option (Guest F × Result) :=
  (FileHandles.writeFile g.files.sys a.handle (g.data a)).map fun r =>
    match r.1 with
    | .written ok n =>
      (⟨putUnless0 g.mem a.count 4 n.toNat, g.is64, ⟨r.2, g.files.inj⟩⟩, .written ok n)
    | r' => (⟨g.mem, g.is64, ⟨r.2, g.files.inj⟩⟩, r')

def Guest.call (g : Guest F) : Call → Option (Guest F × Result)
  | .readFile a => g.readFile a
  | .writeFile a => g.writeFile a

/-- No other stream's buffer has a part in the call. -/
def Guest.Clear (g : Guest F) : Call → Prop
  | .readFile a => g.files.sys.Clear (.read a.handle a.nbytes none)
  | .writeFile a => g.files.sys.Clear (.write a.handle (g.data a) none)

/-- A step of the code, labelled with the transfer that it is meant to make. -/
def Guest.step (g : Guest F) (c : Call) : Option (Guest F × Transfer F) :=
  (g.call c).map fun r => (r.1, g.transfer c r.2)

/-- The call has an offset: a read's is below 2^63, and a write's is where the handle's
position is. -/
def Meets (g : Guest F) (c : Call) : Prop :=
  g.Clear c ∧ c.args.overlapped ≠ 0 ∧ ∃ r ∈ g.files.sys.find c.args.handle,
    g.files.inj r.1 = none ∧
    match c with
    | .readFile a => r.2.fp.readable = true ∧ (g.offset a.overlapped).toNat < 2 ^ 63
    | .writeFile a => spewed a.handle = false ∧ (a.nbytes ≠ 0 →
        r.2.fp.Writes (g.files.sys.content r.2) ∧ r.2.fp.pos = (g.offset a.overlapped).toNat)

/-- The byte of the last write that covers the place, or the one there before. -/
def lastWritten (path : F) (k : Nat) (init : Byte) (ts : List (Transfer F)) : Byte :=
  ts.foldl (fun b t =>
    match t with
    | .write q offset data =>
      if q = path ∧ offset.toNat ≤ k ∧ k < offset.toNat + data.length then
        data.getD (k - offset.toNat) 0
      else b
    | _ => b) init

def Transfer.isWrite : Transfer F → Bool
  | .write .. => true
  | _ => false

/-- The two do not write the same bytes of one file. -/
def Apart : Transfer F → Transfer F → Prop
  | .write p o d, .write q o' d' =>
    p ≠ q ∨ o.toNat + d.length ≤ o'.toNat ∨ o'.toNat + d'.length ≤ o.toNat
  | _, _ => True

/-- The calls transfer at their offsets, and what is read is what was last written there. -/
structure Positioned (disk : F → Node Byte) (ts : List (Transfer F)) (disk' : F → Node Byte) :
    Prop where
  exact : Exact disk ts
  final : disk' = applyAll disk ts
  last : ∀ before path offset n got later, ts = before ++ .read path offset n got :: later →
    ∀ k b, got[k]? = some b → b = lastWritten path (offset.toNat + k)
      ((disk path).bytes.getD (offset.toNat + k) 0) before

/-- The same writes, to ranges that are apart, in any order. -/
def Reordered (ts us : List (Transfer F)) : Prop :=
  (us.filter Transfer.isWrite).Perm (ts.filter Transfer.isWrite) ∧
    ∀ t ∈ ts.filter Transfer.isWrite, ∀ u ∈ ts.filter Transfer.isWrite, t ≠ u → Apart t u

-- ---------------------------------------------------------------------------
-- Transfers one after the other
-- ---------------------------------------------------------------------------

theorem exact_append {disk : F → Node Byte} (ts us : List (Transfer F)) :
    Exact disk (ts ++ us) ↔ Exact disk ts ∧ Exact (applyAll disk ts) us := by
  induction ts generalizing disk with
  | nil => exact ⟨fun h => ⟨trivial, h⟩, And.right⟩
  | cons t ts ih =>
    rw [List.cons_append, Exact, Exact, ih, and_assoc]
    rfl

theorem applyAll_append (disk : F → Node Byte) (ts us : List (Transfer F)) :
    applyAll disk (ts ++ us) = applyAll (applyAll disk ts) us := List.foldl_append

theorem apply_byte (disk : F → Node Byte) (t : Transfer F) (path : F) (k : Nat) :
    (t.apply disk path).bytes.getD k 0 = lastWritten path k ((disk path).bytes.getD k 0) [t] := by
  cases t with
  | none => rfl
  | read => rfl
  | write q offset data =>
    simp only [Transfer.apply, lastWritten, List.foldl_cons, List.foldl_nil]
    by_cases hdata : data = []
    · subst hdata
      rw [if_pos rfl, if_neg]
      rintro ⟨-, hle, hlt⟩
      exact absurd (Nat.lt_of_le_of_lt hle hlt) (Nat.lt_irrefl _)
    · rw [if_neg hdata]
      by_cases hq : q = path
      · subst hq
        rw [Function.update_self]
        simp only [Node.bytes, getD_overwrite, true_and]
      · rw [Function.update_of_ne (Ne.symm hq), if_neg fun h => hq h.1]

/-- A byte after transfers is the one last written. -/
theorem applyAll_byte (disk : F → Node Byte) (ts : List (Transfer F)) (path : F) (k : Nat) :
    (applyAll disk ts path).bytes.getD k 0 =
      lastWritten path k ((disk path).bytes.getD k 0) ts := by
  induction ts generalizing disk with
  | nil => rfl
  | cons t ts ih =>
    have hstep := ih (t.apply disk)
    rw [apply_byte] at hstep
    exact hstep

theorem applyAll_filter (disk : F → Node Byte) (ts : List (Transfer F)) :
    applyAll disk (ts.filter Transfer.isWrite) = applyAll disk ts := by
  induction ts generalizing disk with
  | nil => rfl
  | cons t ts ih =>
    cases t with
    | none => exact ih disk
    | read => exact ih disk
    | write path offset data => exact ih (Transfer.apply disk (.write path offset data))

theorem apply_comm {t u : Transfer F} (h : Apart t u) (disk : F → Node Byte) :
    u.apply (t.apply disk) = t.apply (u.apply disk) := by
  cases t with
  | none => rfl
  | read => rfl
  | write p o d =>
    cases u with
    | none => rfl
    | read => rfl
    | write q o' d' =>
      simp only [Transfer.apply]
      by_cases hd : d = []
      · simp only [hd, if_true]
      · by_cases hd' : d' = []
        · simp only [hd', if_true]
        · simp only [hd, hd', if_false]
          obtain hpq | hapart := h
          · rw [Function.update_of_ne hpq, Function.update_of_ne hpq.symm, Function.update_comm hpq]
          · by_cases hpq : p = q
            · subst hpq
              simp only [Function.update_self, Function.update_idem, Node.bytes]
              rw [overwrite_comm hapart]
            · rw [Function.update_of_ne hpq, Function.update_of_ne (Ne.symm hpq),
                Function.update_comm hpq]

/-- Writes that are apart leave the same files in any order. -/
theorem applyAll_reordered (disk : F → Node Byte) (h : Reordered ts us) :
    applyAll disk us = applyAll disk ts := by
  obtain ⟨hperm, hapart⟩ := h
  rw [← applyAll_filter disk us, ← applyAll_filter disk ts]
  refine hperm.foldl_eq' (fun t ht u hu z => ?_) disk
  by_cases htu : t = u
  · rw [htu]
  · exact (apply_comm (hapart t (hperm.mem_iff.1 ht) u (hperm.mem_iff.1 hu) htu) z)

-- ---------------------------------------------------------------------------
-- One call
-- ---------------------------------------------------------------------------

omit [DecidableEq F] in
theorem readFile_meets {g : Guest F} (hs : g.files.Has a.handle i e) (hov : a.overlapped ≠ 0)
    (hread : e.fp.readable = true) (hoff : (g.offset a.overlapped).toNat < 2 ^ 63) :
    ∃ g', g.readFile a = some (g', .read true
        (((g.files.sys.content e).drop (g.offset a.overlapped).toNat).take a.capped)) ∧
      g'.files.sys.disk = g.files.sys.disk := by
  have hseek : fseek (g.files.sys.content e) e.fp (g.offset a.overlapped).toInt (whence 0) =
      { e.fp with pos := (g.offset a.overlapped).toNat, last := .none } := by
    have hset : whence 0 = .set := by decide
    rw [read_toNat hoff, hset, seek_inside (by simp [Whence.origin])]
    simp [Whence.origin]
  obtain ⟨fp, hfp, -⟩ := fread_at (c := g.files.sys.content e)
    (f := { e.fp with pos := (g.offset a.overlapped).toNat, last := .none }) rfl hread
    (.inl (Nat.le_refl a.capped))
  rw [Nat.min_self] at hfp
  have hset := hs.setPointer64 (g.offset a.overlapped) 0
  rw [hseek] at hset
  unfold Guest.readFile
  dsimp only
  rw [if_neg hov, hset, (hs.stream _).read, stream_content, hfp]
  exact ⟨_, rfl, rfl⟩

theorem writeFile_meets {g : Guest F} (hs : g.files.Has a.handle i e) (hspew : spewed a.handle = false)
    (hw : a.nbytes ≠ 0 → e.fp.Writes (g.files.sys.content e) ∧
      e.fp.pos = (g.offset a.overlapped).toNat) :
    ∃ g' r, g.writeFile a = some (g', r) ∧
      g'.files.sys.disk =
        (Transfer.write e.path (g.offset a.overlapped) (g.data a)).apply g.files.sys.disk := by
  unfold Guest.writeFile FileHandles.writeFile
  rw [hspew, if_neg Bool.false_ne_true, hs.find]
  dsimp only
  by_cases hdata : g.data a = []
  · rw [hdata, writeLoop_nil]
    exact ⟨_, _, rfl, rfl⟩
  · have hn : a.nbytes ≠ 0 := by
      rintro hn
      exact hdata (by simp [Guest.data, bytesAt, hn])
    obtain ⟨hwrites, hpos⟩ := hw hn
    have hempty : (g.data a).isEmpty = false := by simpa using hdata
    rw [writeLoop_all _ _ _ _ _ hwrites hdata (Nat.le_refl _), hempty]
    refine ⟨_, _, rfl, ?_⟩
    simp only [Transfer.apply, if_neg hdata, Bool.false_eq_true, if_false, hpos]
    rfl

/-- A call under the condition has an outcome, and transfers at its offset. -/
theorem meets_call {g : Guest F} (hm : Meets g c) : ∃ g' t, g.step c = some (g', t) ∧
    t.Exact g.files.sys.disk ∧ g'.files.sys.disk = t.apply g.files.sys.disk := by
  obtain ⟨-, hov, ⟨i, e⟩, hfind, hinj, hm⟩ := hm
  have hs : g.files.Has c.args.handle i e := ⟨hfind, hinj⟩
  cases c with
  | readFile a =>
    obtain ⟨hread, hoff⟩ := hm
    obtain ⟨g', hg, hdisk⟩ := readFile_meets hs hov hread hoff
    have ht : ∀ ok bs, g.transfer (.readFile a) (.read ok bs) =
        .read e.path (g.offset a.overlapped) a.capped bs := by
      intro ok bs
      rw [Guest.transfer, hs.find]
    refine ⟨g', .read e.path (g.offset a.overlapped) a.capped
      (((g.files.sys.content e).drop (g.offset a.overlapped).toNat).take a.capped), ?_, ?_, ?_⟩
    · rw [← ht true]
      exact congrArg (Option.map _) hg
    · rfl
    · exact hdisk
  | writeFile a =>
    obtain ⟨hspew, hw⟩ := hm
    obtain ⟨g', r, hg, hdisk⟩ := writeFile_meets hs hspew hw
    have ht : g.transfer (.writeFile a) r = .write e.path (g.offset a.overlapped) (g.data a) := by
      rw [Guest.transfer, hs.find]
    refine ⟨g', .write e.path (g.offset a.overlapped) (g.data a), ?_, ?_, ?_⟩
    · rw [← ht]
      exact congrArg (Option.map _) hg
    · trivial
    · exact hdisk

-- ---------------------------------------------------------------------------
-- The law
-- ---------------------------------------------------------------------------

theorem run_exact {g : Guest F} (h : Run Guest.step Meets g tr g') :
    Exact g.files.sys.disk (tr.map Prod.snd) ∧
      g'.files.sys.disk = applyAll g.files.sys.disk (tr.map Prod.snd) := by
  refine h.invariant (P := fun tr g' => Exact g.files.sys.disk (tr.map Prod.snd) ∧
    g'.files.sys.disk = applyAll g.files.sys.disk (tr.map Prod.snd)) ⟨trivial, rfl⟩ ?_
  rintro tr g₁ c g₂ t ⟨hexact, hdisk⟩ hm hstep
  obtain ⟨g₂', t', hstep', ht, hnext⟩ := meets_call hm
  obtain ⟨rfl, rfl⟩ := Prod.mk.inj (Option.some.inj (hstep'.symm.trans hstep))
  rw [List.map_append, exact_append, applyAll_append, ← hdisk]
  exact ⟨⟨hexact, ht, trivial⟩, hnext⟩

theorem exact_last {disk : F → Node Byte} {got : List Byte}
    (h : Exact disk (before ++ .read path offset n got :: later)) (hb : got[k]? = some b) :
    b = lastWritten path (offset.toNat + k) ((disk path).bytes.getD (offset.toNat + k) 0) before := by
  obtain ⟨-, hread, -⟩ := (exact_append before _).1 h
  have hgot : got = ((applyAll disk before path).bytes.drop offset.toNat).take n := hread
  have hk : k < n := by
    have hlen : k < got.length := (List.getElem?_eq_some_iff.1 hb).1
    rw [hgot, List.length_take] at hlen
    omega
  rw [hgot, List.getElem?_take_of_lt hk, List.getElem?_drop] at hb
  rw [← applyAll_byte, List.getD_eq_getElem?_getD, hb]
  rfl

/-- In every run whose calls meet the condition, the calls transfer at their offsets, a read
gives what was last written there, and no other order of writes to disjoint ranges leaves
other files; and every such call has an outcome. -/
theorem positional_law {g : Guest F} (h : Run Guest.step Meets g tr g') :
    Positioned g.files.sys.disk (tr.map Prod.snd) g'.files.sys.disk ∧
      (∀ tr₂ g₂, Run Guest.step Meets g tr₂ g₂ →
        Reordered (tr.map Prod.snd) (tr₂.map Prod.snd) →
        g₂.files.sys.disk = g'.files.sys.disk) ∧
      ∀ c, Meets g' c → ∃ g₂ t, g'.step c = some (g₂, t) := by
  obtain ⟨hexact, hdisk⟩ := run_exact h
  refine ⟨⟨hexact, hdisk, ?_⟩, ?_, ?_⟩
  · intro before path offset n got later hts k b hb
    rw [hts] at hexact
    exact exact_last hexact hb
  · intro tr₂ g₂ h₂ hre
    rw [(run_exact h₂).2, hdisk, applyAll_reordered _ hre]
  · intro c hm
    obtain ⟨g₂, t, hstep, -⟩ := meets_call hm
    exact ⟨g₂, t, hstep⟩

instance (g : Guest F) (c : Call) : Decidable (g.Clear c) :=
  match c with
  | .readFile a => inferInstanceAs (Decidable (g.files.sys.Clear (.read a.handle a.nbytes none)))
  | .writeFile a =>
    inferInstanceAs (Decidable (g.files.sys.Clear (.write a.handle (g.data a) none)))

instance (f : Stream) (c : List Byte) : Decidable (f.Writes c) :=
  decidable_of_iff (f.writable = true ∧ f.last ≠ .input false ∧ (f.append = true → f.pos = c.length))
    ⟨fun ⟨hw, hl, ha⟩ => ⟨hw, hl, ha⟩, fun ⟨hw, hl, ha⟩ => ⟨hw, hl, ha⟩⟩

instance (g : Guest F) (c : Call) : Decidable (Meets g c) :=
  match c with
  | .readFile a => inferInstanceAs (Decidable (g.Clear (.readFile a) ∧ a.overlapped ≠ 0 ∧
      ∃ r ∈ g.files.sys.find a.handle, g.files.inj r.1 = none ∧
        r.2.fp.readable = true ∧ (g.offset a.overlapped).toNat < 2 ^ 63))
  | .writeFile a => inferInstanceAs (Decidable (g.Clear (.writeFile a) ∧ a.overlapped ≠ 0 ∧
      ∃ r ∈ g.files.sys.find a.handle, g.files.inj r.1 = none ∧
        spewed a.handle = false ∧ (a.nbytes ≠ 0 →
          r.2.fp.Writes (g.files.sys.content r.2) ∧ r.2.fp.pos = (g.offset a.overlapped).toNat)))

/-- A program of 32 bits that has opened the file `[7]`, with structures for the offsets 0, 1
and 4 and two bytes in a buffer. -/
def opened : Guest Unit where
  mem := putBytes (set (set (fun _ => 0) ⟨0x1108, 4⟩ 1) ⟨0x1208, 4⟩ 4) 0x3000 [8, 9]
  is64 := false
  files :=
    ⟨(filesCreate true (.load oneFile) () (genericRead ||| genericWrite) 3).2, fun _ => none⟩

/-- The file is read to its end, written on there and read again. -/
theorem positional_law_end : ∃ tr g', Run Guest.step Meets opened tr g' ∧
    Positioned oneFile (tr.map Prod.snd) g'.files.sys.disk ∧ g'.files.sys.disk () = .file [7, 8, 9] := by
  have hexec : (exec Guest.step Meets opened [.readFile ⟨0x100, 0x2000, 2, 0, 0x1000⟩,
      .writeFile ⟨0x100, 0x3000, 2, 0, 0x1100⟩, .readFile ⟨0x100, 0x2000, 2, 0, 0x1100⟩]).any fun r =>
        decide (r.2.files.sys.disk () = .file [7, 8, 9]) := by decide +kernel
  obtain ⟨tr, g', hr, hp⟩ := Run.of_exec_any hexec
  have hdisk : opened.files.sys.disk = oneFile := by
    funext u
    cases u
    decide +kernel
  have hlaw := (positional_law hr).1
  rw [hdisk] at hlaw
  exact ⟨tr, g', hr, hlaw, of_decide_eq_true hp⟩

/-- A write at offset 4 goes to the start of the file. -/
theorem write_misplaced : ¬ ∀ tr g', Run Guest.step anyStep opened tr g' →
    Positioned opened.files.sys.disk (tr.map Prod.snd) g'.files.sys.disk := by
  intro hall
  have hexec : (exec Guest.step anyStep opened [.writeFile ⟨0x100, 0x3000, 2, 0, 0x1200⟩]).any fun r =>
      decide (r.1.map Prod.snd = [.write () 4 [8, 9]] ∧
        r.2.files.sys.disk () = .file [8, 9]) := by decide +kernel
  obtain ⟨tr, g', hr, hp⟩ := Run.of_exec_any hexec
  obtain ⟨htr, hdisk⟩ := of_decide_eq_true hp
  have hfinal := (hall tr g' hr).final
  rw [htr] at hfinal
  have hbytes := congrFun hfinal ()
  rw [hdisk] at hbytes
  revert hbytes
  decide +kernel

end WineGlass.Positional
