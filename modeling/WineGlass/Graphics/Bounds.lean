import WineGlass.Graphics.Grammar
import WineGlass.Graphics.Progress

/-!
# What translating reads

Reading stays in the blob and the shader chunk exactly when the container's
entries that are looked at, the shader's two header dwords, and each instruction
from one declared end to the next lie there: an entry is only checked with a sum
that may wrap, and neither the header nor the tokens are checked at all.
-/

namespace WineGlass.Dxbc

open Pe (Buffer load32_bind load32_eq)
open Turns Walk

-- ---------------------------------------------------------------------------
-- The chunk table
-- ---------------------------------------------------------------------------

def tagShex : U32 := fourcc 'S' 'H' 'E' 'X'
def tagShdr : U32 := fourcc 'S' 'H' 'D' 'R'

section
variable (d : Buffer) (size tag : U32)

def chunkCount : U32 := d.u32 28
def chunkOffset (i : Nat) : U32 := d.u32 (32 + 4 * i)

/-- The table is looked through: it ends, as the code computes it, in the blob. -/
def Tabled : Prop := ¬ size < 32 ∧ ¬ size < 32 + chunkCount d * 4

/-- Entry `i` passes the check of its offset and has the tag. -/
def Candidate (i : Nat) : Prop :=
  ¬ size < chunkOffset d i + 8 ∧ d.u32 (chunkOffset d i).toNat = tag

instance : Decidable (Tabled d size) := inferInstanceAs (Decidable (_ ∧ _))
instance (i : Nat) : Decidable (Candidate d size tag i) := inferInstanceAs (Decidable (_ ∧ _))

/-- Entry `i` and, when its offset passes the check, the chunk's two dwords. -/
def EntryIn (i : Nat) : Prop := 32 + 4 * i + 4 ≤ d.size ∧
  (¬ size < chunkOffset d i + 8 → (chunkOffset d i).toNat + 8 ≤ d.size)

/-- The entries up to the first candidate. -/
def LookupIn : Prop := Tabled d size →
  Walks (fun i => i < (chunkCount d).toNat → EntryIn d size i)
    (fun i => i < (chunkCount d).toNat ∧ ¬ Candidate d size tag i) 0

/-- The chunk of the first candidate: its data and size. -/
def chunkEntry : Option (Nat × U32) :=
  if Tabled d size then
    ((List.range' 0 (chunkCount d).toNat).find? fun i => Candidate d size tag i).map fun i =>
      ((chunkOffset d i).toNat + 8, d.u32 ((chunkOffset d i).toNat + 4))
  else none

end

theorem scanChunks_isSome : (scanChunks (blob d) size tag (chunkCount d).toNat 0).isSome ↔
    Walks (fun i => i < (chunkCount d).toNat → EntryIn d size i)
      (fun i => i < (chunkCount d).toNat ∧ ¬ Candidate d size tag i) 0 := by
  refine loop_iff (f := fun left i => (scanChunks (blob d) size tag left i).isSome)
    (n := (chunkCount d).toNat) (fun left i hi => ?_) ?_ (Nat.zero_add _)
  · have hlt : i < (chunkCount d).toNat := by omega
    change ((d.load32 _).bind _).isSome ↔ _
    rw [load32_bind, ← chunkOffset]
    unfold EntryIn Candidate
    split
    · rename_i hskip
      simp only [hlt, hskip, not_true_eq_false, false_and, not_false_eq_true, false_imp_iff,
        and_true, and_self, forall_const]
    · rename_i hlook
      change _ ∧ ((d.load32 _).bind fun ctag => (d.load32 _).bind _).isSome ↔ _
      rw [load32_bind, load32_bind, ite_isSome]
      simp only [hlt, hlook, not_false_eq_true, true_and, forall_const]
      constructor
      · rintro ⟨hentry, -, hchunk, hrest⟩
        exact ⟨⟨hentry, hchunk⟩, hrest⟩
      · rintro ⟨⟨hentry, hchunk⟩, hrest⟩
        exact ⟨hentry, by omega, hchunk, hrest⟩
  · rw [walks_of_not_goes (fun h => Nat.lt_irrefl _ h.1)]
    exact iff_of_true rfl fun h => absurd h (Nat.lt_irrefl _)

theorem findChunk_isSome (hsize : d.size = size.toNat) :
    (findChunk (blob d) size tag).isSome ↔ LookupIn d size tag := by
  unfold findChunk LookupIn Tabled
  rw [ite_isSome, and_imp]
  refine imp_congr_right fun h32 => ?_
  change ((d.load32 28).bind _).isSome ↔ _
  rw [load32_bind, ite_isSome, ← chunkCount, scanChunks_isSome]
  refine and_iff_right ?_
  rw [BitVec.lt_def] at h32
  have : (32 : U32).toNat = 32 := rfl
  omega

theorem scanChunks_some (h : scanChunks (blob d) size tag left i = some r) :
    r = ((List.range' i left).find? fun i => Candidate d size tag i).map fun i =>
      ((chunkOffset d i).toNat + 8, d.u32 ((chunkOffset d i).toNat + 4)) := by
  induction left generalizing i with
  | zero => exact (Option.some.inj h).symm
  | succ left ih =>
    obtain ⟨off, hoff, h⟩ := Option.bind_eq_some_iff.1 h
    obtain rfl := load32_eq hoff
    rw [← chunkOffset] at h
    rw [List.range'_succ, List.find?_cons]
    split at h
    · rename_i hskip
      have hno : ¬ Candidate d size tag i := fun hc => hc.1 hskip
      rw [decide_eq_false hno]
      exact ih h
    · rename_i hlook
      obtain ⟨ctag, htag, h⟩ := Option.bind_eq_some_iff.1 h
      obtain ⟨csize, hcsize, h⟩ := Option.bind_eq_some_iff.1 h
      obtain rfl := load32_eq htag
      obtain rfl := load32_eq hcsize
      split at h
      · rename_i hyes
        rw [decide_eq_true (show Candidate d size tag i from ⟨hlook, hyes⟩)]
        exact (Option.some.inj h).symm
      · rename_i hno
        rw [decide_eq_false fun hc : Candidate d size tag i => hno hc.2]
        exact ih h

theorem findChunk_some (h : findChunk (blob d) size tag = some r) : r = chunkEntry d size tag := by
  unfold findChunk at h
  unfold chunkEntry
  split at h
  · rename_i h32
    rw [if_neg fun ht => ht.1 h32]
    exact (Option.some.inj h).symm
  · rename_i h32
    obtain ⟨count, hcount, h⟩ := Option.bind_eq_some_iff.1 h
    obtain rfl := load32_eq hcount
    rw [← chunkCount] at h
    split at h
    · rename_i htable
      rw [if_neg fun ht => ht.2 htable]
      exact (Option.some.inj h).symm
    · rename_i htable
      rw [if_pos ⟨h32, htable⟩]
      exact scanChunks_some h

-- ---------------------------------------------------------------------------
-- The header
-- ---------------------------------------------------------------------------

section
variable (d : Buffer) (size : U32)

/-- `wg_dxbc_is_dxbc` says yes. -/
def Magic : Prop := ¬ size < 4 ∧ d.u32 0 = fourcc 'D' 'X' 'B' 'C'

instance : Decidable (Magic d size) := inferInstanceAs (Decidable (_ ∧ _))

/-- The shader's chunk: SHEX, or else SHDR. -/
def shaderEntry : Option (Nat × U32) :=
  (chunkEntry d size tagShex).or (chunkEntry d size tagShdr)

/-- The program that a shader chunk announces. -/
def programAt (sh : Nat) (shsz : U32) : Program where
  chunk := sh
  chunkSize := shsz
  isPixel := bits (d.u32 sh) 16 0xffff == 0
  start := sh + 8
  stop := sh + 4 * (if d.u32 (sh + 4) ≠ 0 then (d.u32 (sh + 4)).toNat else shsz.toNat / 4)

def announced : Option Program :=
  if Magic d size then (shaderEntry d size).map fun sh => programAt d sh.1 sh.2 else none

/-- The lookups that are made, and the two dwords in front of the tokens. -/
def HeaderIn : Prop := Magic d size →
  LookupIn d size tagShex ∧ (chunkEntry d size tagShex = none → LookupIn d size tagShdr) ∧
    ∀ sh shsz, shaderEntry d size = some (sh, shsz) → sh + 8 ≤ d.size

end

theorem findShader_isSome (hsize : d.size = size.toNat) : (findShader (blob d) size).isSome ↔
    LookupIn d size tagShex ∧ (chunkEntry d size tagShex = none → LookupIn d size tagShdr) := by
  rw [findShader, bind_isSome, findChunk_isSome hsize]
  · rfl
  intro sh hsh
  obtain rfl := findChunk_some hsh
  change _ ↔ (chunkEntry d size (fourcc 'S' 'H' 'E' 'X') = none → _)
  cases chunkEntry d size (fourcc 'S' 'H' 'E' 'X') with
  | none => simpa [tagShdr] using findChunk_isSome hsize
  | some found => simp

theorem findShader_some (h : findShader (blob d) size = some r) : r = shaderEntry d size := by
  obtain ⟨sh, hsh, h⟩ := Option.bind_eq_some_iff.1 h
  obtain rfl := findChunk_some hsh
  change r = (chunkEntry d size (fourcc 'S' 'H' 'E' 'X')).or _
  cases hx : chunkEntry d size (fourcc 'S' 'H' 'E' 'X') with
  | none =>
    rw [hx] at h
    exact findChunk_some h
  | some found =>
    rw [hx] at h
    exact (Option.some.inj h).symm

theorem readHeader_isSome : (readHeader (blob d) sh shsz).isSome ↔ sh + 8 ≤ d.size := by
  change ((d.load32 sh).bind fun ver => (d.load32 (sh + 4)).bind _).isSome ↔ _
  simp only [load32_bind, Option.isSome_some, and_true]
  omega

theorem readHeader_some (h : readHeader (blob d) sh shsz = some prog) :
    prog = programAt d sh shsz := by
  obtain ⟨ver, hver, h⟩ := Option.bind_eq_some_iff.1 h
  obtain ⟨len, hlen, h⟩ := Option.bind_eq_some_iff.1 h
  obtain rfl := load32_eq hver
  obtain rfl := load32_eq hlen
  exact (Option.some.inj h).symm

/-- The magic can be looked at in every blob. -/
theorem isDxbc_eq (hsize : d.size = size.toNat) :
    isDxbc (blob d) size = some (decide (Magic d size)) := by
  unfold isDxbc
  split
  · rename_i h4
    rw [decide_eq_false fun h : Magic d size => h.1 h4]
  · rename_i h4
    have hfour : (4 : U32).toNat = 4 := rfl
    have hin : 0 + 4 ≤ d.size := by
      rw [BitVec.lt_def] at h4
      omega
    have hload : (blob d).dword 0 = some (d.u32 0) := by
      change d.load32 0 = _
      rw [Buffer.load32, Pe.load_some hin, Option.map_some, Buffer.u32]
    have hmagic : Magic d size ↔ d.u32 0 = fourcc 'D' 'X' 'B' 'C' := and_iff_right h4
    rw [hload, Option.map_some, decide_eq_decide.2 hmagic]
    rfl

theorem program_isSome (hsize : d.size = size.toNat) :
    (program (blob d) size).isSome ↔ HeaderIn d size := by
  rw [program, isDxbc_eq hsize, Option.bind_some, ite_isSome, HeaderIn]
  refine imp_congr (by simp) ?_
  refine (bind_isSome (P := ∀ sh shsz, shaderEntry d size = some (sh, shsz) → sh + 8 ≤ d.size)
    fun sh hsh => ?_).trans ?_
  · rw [← findShader_some hsh]
    cases sh with
    | none => simp
    | some sh =>
      obtain ⟨sh, shsz⟩ := sh
      simp [readHeader_isSome]
  · rw [findShader_isSome hsize, and_assoc]

theorem program_some (hsize : d.size = size.toNat) (h : program (blob d) size = some r) :
    r = announced d size := by
  rw [program, isDxbc_eq hsize, Option.bind_some] at h
  unfold announced
  split at h
  · rename_i hno
    rw [if_neg (by simpa using hno)]
    exact (Option.some.inj h).symm
  · rename_i hyes
    rw [if_pos (by simpa using hyes)]
    obtain ⟨sh, hsh, h⟩ := Option.bind_eq_some_iff.1 h
    rw [← findShader_some hsh]
    cases sh with
    | none => exact (Option.some.inj h).symm
    | some sh =>
      obtain ⟨prog, hprog, rfl⟩ := Option.map_eq_some_iff.1 h
      rw [readHeader_some hprog]
      rfl

-- ---------------------------------------------------------------------------
-- The tokens
-- ---------------------------------------------------------------------------

/-- The part of the shader chunk that lies in the blob. -/
def window (d : Buffer) (prog : Program) : Memory where
  dword a := if prog.chunk ≤ a ∧ a + 4 ≤ prog.chunk + prog.chunkSize.toNat then d.load32 a else none
  limit := d.size
  mapped a ha := by
    split
    · exact (blob d).mapped a ha
    · rfl

/-- Where instructions start, going by their declared lengths alone. -/
inductive Visited (m : Memory) (stop start : Nat) : Nat → Prop
  | start : Visited m stop start start
  | next (h : Visited m stop start p) (hd : ¬ Done stop p) (hn : next m stop p = some q) :
      Visited m stop start q

section
variable (d : Buffer) (size : U32)

/-- The claimed bounds: the lookup and the header in the blob, the header in the chunk, every
turn's reads in the blob and those of `read_operand` in the chunk as well. -/
structure ReadsIn : Prop where
  lookup : (program (blob d) size).isSome
  header : ∀ prog, program (blob d) size = some (some prog) → 8 ≤ prog.chunkSize.toNat
  tokens : ∀ prog, program (blob d) size = some (some prog) →
    ∀ p, Reaches (Done prog.stop) (turn (blob d) (window d prog) prog.stop) prog.start p →
      ¬ Done prog.stop p → (turn (blob d) (window d prog) prog.stop p).isSome

/-- What a blob has to hold for that. -/
def BlobIn : Prop := HeaderIn d size ∧ ∀ prog, announced d size = some prog →
  8 ≤ prog.chunkSize.toNat ∧ ∀ p, Visited (blob d) prog.stop prog.start p → ¬ Done prog.stop p →
    InsnIn (blob d) (window d prog) prog.stop p

end

theorem visited_of_reaches (h : Reaches (Done stop) (turn m ops stop) start p) :
    Visited m stop start p := by
  induction h with
  | start => exact .start
  | next _ hd ht ih => exact .next ih hd (turn_next ht)

/-- Where every turn that is reached can be taken, the loop gets to all instructions. -/
theorem reaches_of_visited
    (h : ∀ p, Reaches (Done stop) (turn m ops stop) start p → ¬ Done stop p →
      (turn m ops stop p).isSome) (hv : Visited m stop start p) :
    Reaches (Done stop) (turn m ops stop) start p := by
  induction hv with
  | start => exact .start
  | next _ hd hn ih =>
    obtain ⟨⟨insn, q⟩, hturn⟩ := Option.isSome_iff_exists.1 (h _ ih hd)
    obtain rfl := Option.some.inj (hn.symm.trans (turn_next hturn))
    exact .next ih hd hturn

theorem reads_law (bytes : Nat → BitVec 8) (size : U32) :
    ReadsIn ⟨bytes, size.toNat⟩ size ↔ BlobIn ⟨bytes, size.toNat⟩ size := by
  generalize hd : Buffer.mk bytes size.toNat = d
  have hsize : d.size = size.toNat := by rw [← hd]
  constructor
  · intro h
    obtain ⟨r, hr⟩ := Option.isSome_iff_exists.1 h.lookup
    have hann := program_some hsize hr
    refine ⟨(program_isSome hsize).1 h.lookup, fun prog hprog => ?_⟩
    have hrun : program (blob d) size = some (some prog) := by rw [hr, hann, hprog]
    refine ⟨h.header prog hrun, fun p hp hdone => turn_isSome.1 ?_⟩
    exact h.tokens prog hrun p (reaches_of_visited (h.tokens prog hrun) hp) hdone
  · rintro ⟨hheader, h⟩
    refine ⟨(program_isSome hsize).2 hheader, fun prog hrun => ?_, fun prog hrun p hp hdone => ?_⟩
    · exact (h prog (program_some hsize hrun).symm).1
    · have hin := (h prog (program_some hsize hrun).symm).2
      exact turn_isSome.2 (hin p (visited_of_reaches hp) hdone)

/-- A container whose SHEX chunk ends with the blob before its first dword. -/
def emptyBlob : Buffer := container []

/-- A vertex shader of one MOV without its operands. -/
def movBlob : Buffer := container [0x10050, 3, 0x01000036]

/-- A chunk table of one entry that points four bytes before 4 GiB. -/
def farBlob : Buffer where
  bytes i := BitVec.ofNat 8 (([fourcc 'D' 'X' 'B' 'C', 0, 0, 0, 0, 1, 36, 1, 0xFFFFFFFC].getD
    (i / 4) 0).toNat / 256 ^ (i % 4))
  size := 36

/-- The header, an operand and a chunk offset leave these blobs. -/
theorem unchecked_reads : program (blob emptyBlob) 44 = none ∧ program (blob farBlob) 36 = none ∧
    (∃ prog, program (blob movBlob) 56 = some (some prog) ∧
      turn (blob movBlob) (blob movBlob) prog.stop prog.start = none) ∧
    ¬ ReadsIn ⟨emptyBlob.bytes, (44 : U32).toNat⟩ 44 ∧
    ¬ ReadsIn ⟨farBlob.bytes, (36 : U32).toNat⟩ 36 ∧
    ¬ ReadsIn ⟨movBlob.bytes, (56 : U32).toNat⟩ 56 := by
  have hempty : program (blob emptyBlob) 44 = none := by decide
  have hfar : program (blob farBlob) 36 = none := by decide
  have hmov : program (blob movBlob) 56 = some (some ⟨44, 12, false, 52, 56⟩) := by decide
  refine ⟨hempty, hfar, ⟨_, hmov, by decide⟩, fun h => ?_, fun h => ?_, fun h => ?_⟩
  · have hlookup : (program (blob emptyBlob) 44).isSome := h.lookup
    rw [hempty] at hlookup
    cases hlookup
  · have hlookup : (program (blob farBlob) 36).isSome := h.lookup
    rw [hfar] at hlookup
    cases hlookup
  · have hturn : (turn (blob movBlob) (window movBlob ⟨44, 12, false, 52, 56⟩) 56 52).isSome :=
      h.tokens _ hmov 52 .start (by decide)
    revert hturn
    decide

end WineGlass.Dxbc
