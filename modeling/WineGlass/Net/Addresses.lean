import WineGlass.Lib.Fields
import WineGlass.Lib.Spans

/-!
# Socket addresses

The host and the guest have different layouts of a socket address: the host has a length and a
family of one byte each where the guest has a family of two, and the two name IPv6 differently.
Guest addresses are numbers below `2 ^ 32`.
-/

namespace WineGlass.Winsock

open Fields Spans

abbrev Mem := Nat → BitVec 8

inductive Family
  | inet | inet6
  deriving DecidableEq, Repr

/-- `AF_INET` and `AF_INET6` of the host. -/
def Family.bsd : Family → Nat
  | .inet => 2
  | .inet6 => 30

def Family.win : Family → Nat
  | .inet => 2
  | .inet6 => 23

/-- The size of the family's structure, on either side. -/
def Family.len : Family → Nat
  | .inet => 16
  | .inet6 => 28

/-- The members that are the same on either side: port and address, or port, flow info, address
and scope. -/
def Family.parts : Family → List Extent
  | .inet => [⟨2, 2⟩, ⟨4, 4⟩]
  | .inet6 => [⟨2, 2⟩, ⟨4, 4⟩, ⟨8, 16⟩, ⟨24, 4⟩]

/-- Where the last of them ends. -/
def Family.needs : Family → Nat
  | .inet => 8
  | .inet6 => 28

/-- An address of the host, the bytes of its structure. -/
structure HostAddr where
  family : Family
  bytes : Mem

/-- The guest's structure, as `getaddrinfo` and `write_sockaddr` build it. -/
def HostAddr.wsa (a : HostAddr) : Mem :=
  setAll (fun _ => 0) ([(⟨0, 1⟩, a.family.win % 256), (⟨1, 1⟩, a.family.win / 256)] ++
    a.family.parts.map fun e => (e, get a.bytes e))

-- ---------------------------------------------------------------------------
-- Handlers
-- ---------------------------------------------------------------------------

/-- `read_sockaddr`: the host's structure, and its length. -/
def readSockaddr (m : Mem) (ptr : Nat) (len : Int) : Mem × Nat :=
  if ptr = 0 ∨ len ≤ 0 then (fun _ => 0, 0)
  else
    let len := min len.toNat 128
    let buf := copy (fun _ => 0) 0 (fun i => m (ptr + i)) len
    let winFam := get buf ⟨0, 2⟩
    if winFam = 2 then (setAll buf [(⟨0, 1⟩, 16), (⟨1, 1⟩, 2)], 16)
    else if winFam = 23 then (setAll buf [(⟨0, 1⟩, 28), (⟨1, 1⟩, 30)], 28)
    else (set buf ⟨1, 1⟩ winFam, len)

/-- `write_sockaddr`, for the two families. -/
def writeSockaddr (m : Mem) (ptr lenPtr : Nat) (a : HostAddr) : Mem :=
  if ptr = 0 ∨ lenPtr = 0 then m
  else
    let wlen := a.family.len
    let buflen := get m ⟨lenPtr, 4⟩
    set (copy m ptr a.wsa (min wlen buflen)) ⟨lenPtr, 4⟩ wlen

/-- A result of the host's `getaddrinfo`, whose `ai_addrlen` is the size of its structure. -/
structure HostInfo where
  flags : Nat
  socktype : Nat
  protocol : Nat
  addr : HostAddr

def HostInfo.len (ai : HostInfo) : Nat := ai.addr.family.len

/-- The words of a node, `aih`. -/
def header (node saPtr next : Nat) (ai : HostInfo) : List (Extent × Nat) :=
  [(⟨node, 4⟩, ai.flags), (⟨node + 4, 4⟩, ai.addr.family.win), (⟨node + 8, 4⟩, ai.socktype),
    (⟨node + 12, 4⟩, ai.protocol), (⟨node + 16, 4⟩, ai.len), (⟨node + 20, 4⟩, 0),
    (⟨node + 24, 4⟩, saPtr), (⟨node + 28, 4⟩, next)]

/-- One turn of the loop of `getaddrinfo`. -/
def writeNode (m : Mem) (node prevNext saPtr next : Nat) (ai : HostInfo) : Mem :=
  let m := setAll m (header node saPtr next ai)
  let m := copy m saPtr ai.addr.wsa ai.len
  let m := set m ⟨node + 16, 4⟩ ai.len
  if prevNext ≠ 0 then set m ⟨prevNext, 4⟩ node else m

/-- The loop of `getaddrinfo`. -/
def serialise : List HostInfo → Nat → Nat → Mem → Mem
  | [], _, _, m => m
  | ai :: rest, ptr, prevNext, m =>
    let saPtr := (ptr + 32) % 2 ^ 32
    let past := (saPtr + (ai.len + 3) / 4 * 4) % 2 ^ 32
    let next := if rest.isEmpty then 0 else past
    serialise rest (if next ≠ 0 then next else past) ((ptr + 28) % 2 ^ 32)
      (writeNode m ptr prevNext saPtr next ai)

/-- `s_gai_base`, a region of 1 MB that the engine has mapped. -/
structure Region where
  base : Nat
  pos : 0 < base
  small : base + 2 ^ 20 ≤ 2 ^ 32

/-- `getaddrinfo` after the host has answered. -/
def Region.getaddrinfo (r : Region) (m : Mem) (res : Nat) (infos : List HostInfo) : Mem :=
  let m := serialise infos r.base 0 m
  if res ≠ 0 then set m ⟨res, 4⟩ r.base else m

-- ---------------------------------------------------------------------------
-- What the guest may rely on
-- ---------------------------------------------------------------------------

/-- What the host gets is the address. -/
structure HostAddr.Is (a : HostAddr) (r : Mem × Nat) : Prop where
  family : get r.1 ⟨1, 1⟩ = a.family.bsd
  parts : ∀ e ∈ a.family.parts, get r.1 e = get a.bytes e
  len : r.2 = a.family.len

/-- The nodes from `p` on are those of the results, and their addresses survive. -/
def Chain (m : Mem) : List HostInfo → Nat → Prop
  | [], p => p = 0
  | ai :: rest, p => p ≠ 0 ∧ get m ⟨p + 4, 4⟩ = ai.addr.family.win ∧
      ai.addr.Is (readSockaddr m (get m ⟨p + 24, 4⟩) (get m ⟨p + 16, 4⟩)) ∧
      Chain m rest (get m ⟨p + 28, 4⟩)

/-- The nodes and their addresses. -/
def nodes (m : Mem) : List HostInfo → Nat → List Span
  | [], _ => []
  | ai :: rest, p =>
    ⟨p, 32⟩ :: ⟨get m ⟨p + 24, 4⟩, ai.len⟩ :: nodes m rest (get m ⟨p + 28, 4⟩)

structure Delivered (r : Region) (m : Mem) (first : Nat) (infos : List HostInfo) : Prop where
  chain : Chain m infos first
  apart : AllApart (nodes m infos first)
  inside : ∀ s ∈ nodes m infos first, Within s ⟨r.base, 2 ^ 20⟩

/-- What the nodes take up. -/
def total (infos : List HostInfo) : Nat := (infos.map fun ai => 32 + ai.len).sum

-- ---------------------------------------------------------------------------
-- One address
-- ---------------------------------------------------------------------------

/-- The bytes of a family, of which the host uses one for a length. -/
def familyBytes : List Extent := [⟨0, 1⟩, ⟨1, 1⟩]

/-- The members of a structure are apart, and the last ends at `needs`. -/
theorem parts_apart (f : Family) : (familyBytes ++ f.parts).Pairwise Extent.Apart := by
  cases f <;> decide

theorem parts_needs {f : Family} (he : e ∈ f.parts) (hi : e.Has i) : i < f.needs := by
  have hend : ∀ e ∈ f.parts, e.start + e.width ≤ f.needs := by cases f <;> decide
  exact Nat.lt_of_lt_of_le hi.2 (hend e he)

theorem needs_le (f : Family) : 2 ≤ f.needs ∧ f.needs ≤ f.len ∧ f.len ≤ 28 := by
  cases f <;> decide

theorem wsa_member (a : HostAddr) {w : Extent × Nat}
    (hw : w ∈ [((⟨0, 1⟩ : Extent), a.family.win % 256), (⟨1, 1⟩, a.family.win / 256)] ++
      a.family.parts.map fun e => (e, get a.bytes e)) :
    get a.wsa w.1 = w.2 % 256 ^ w.1.width := by
  refine get_setAll (List.pairwise_map.1 ?_) hw
  have hall : ([((⟨0, 1⟩ : Extent), a.family.win % 256), (⟨1, 1⟩, a.family.win / 256)] ++
      a.family.parts.map fun e => (e, get a.bytes e)).map Prod.fst =
      familyBytes ++ a.family.parts := by simp [familyBytes, Function.comp_def]
  rw [hall]
  exact parts_apart a.family

theorem wsa_parts (a : HostAddr) (he : e ∈ a.family.parts) : get a.wsa e = get a.bytes e := by
  have hmem := wsa_member a (List.mem_append_right _ (List.mem_map_of_mem he))
  rwa [Nat.mod_eq_of_lt get_lt] at hmem

theorem wsa_family (a : HostAddr) : get a.wsa ⟨0, 2⟩ = a.family.win := by
  have hlow := wsa_member a (List.mem_append_left _ List.mem_cons_self)
  have hhigh := wsa_member a (List.mem_append_left _ (List.mem_cons_of_mem _ List.mem_cons_self))
  have hsplit : get a.wsa ⟨0, 1 + 1⟩ = get a.wsa ⟨0, 1⟩ + 256 ^ 1 * get a.wsa ⟨0 + 1, 1⟩ := get_add
  rw [Nat.zero_add, hlow, hhigh] at hsplit
  rw [hsplit]
  cases a.family <;> rfl

/-- The structure that is read when the family is one of the two. -/
theorem readSockaddr_eq (f : Family) (hptr : ptr ≠ 0)
    (hfam : get (copy (fun _ => 0) 0 (fun i => m (ptr + i)) f.len) ⟨0, 2⟩ = f.win) :
    readSockaddr m ptr f.len = (setAll (copy (fun _ => 0) 0 (fun i => m (ptr + i)) f.len)
      [(⟨0, 1⟩, f.len), (⟨1, 1⟩, f.bsd)], f.len) := by
  cases f with
  | inet =>
    have hfam' : get (copy (fun _ => 0) 0 (fun i => m (ptr + i)) 16) ⟨0, 2⟩ = 2 := hfam
    unfold readSockaddr
    rw [if_neg (by simp [hptr, Family.len])]
    exact if_pos hfam'
  | inet6 =>
    have hfam' : get (copy (fun _ => 0) 0 (fun i => m (ptr + i)) 28) ⟨0, 2⟩ = 23 := hfam
    unfold readSockaddr
    rw [if_neg (by simp [hptr, Family.len])]
    have hne : ¬ get (copy (fun _ => 0) 0 (fun i => m (ptr + i)) 28) ⟨0, 2⟩ = 2 := by
      rw [hfam']
      decide
    exact (if_neg hne).trans (if_pos hfam')

/-- The structure of a guest is read as the address it was written for. -/
theorem read_is (a : HostAddr) (hptr : ptr ≠ 0)
    (hm : ∀ i < a.family.needs, m (ptr + i) = a.wsa i) :
    a.Is (readSockaddr m ptr a.family.len) := by
  obtain ⟨htwo, hneeds, hlen⟩ := needs_le a.family
  have hbuf : ∀ i < a.family.needs,
      copy (fun _ => 0) 0 (fun i => m (ptr + i)) a.family.len i = a.wsa i := by
    intro i hi
    rw [← hm i hi]
    have hin := copy_inside (m := fun _ => 0) (p := 0) (b := fun i => m (ptr + i))
      (Nat.lt_of_lt_of_le hi hneeds)
    rwa [Nat.zero_add] at hin
  have hfam : get (copy (fun _ => 0) 0 (fun i => m (ptr + i)) a.family.len) ⟨0, 2⟩ =
      a.family.win := by
    rw [← wsa_family]
    exact get_congr fun i hi => hbuf i (Nat.lt_of_lt_of_le hi.2 htwo)
  rw [readSockaddr_eq a.family hptr hfam]
  have hapart := List.pairwise_append.1 (parts_apart a.family)
  refine ⟨?_, fun e he => ?_, rfl⟩
  · have hset : get (setAll (copy (fun _ => 0) 0 (fun i => m (ptr + i)) a.family.len)
        [(⟨0, 1⟩, a.family.len), (⟨1, 1⟩, a.family.bsd)]) ⟨1, 1⟩ = a.family.bsd % 256 ^ 1 :=
      get_setAll (by simp [Extent.Apart]) (List.mem_cons_of_mem _ List.mem_cons_self)
    rw [hset]
    cases a.family <;> rfl
  · rw [← wsa_parts a he]
    refine (get_setAll_apart fun w hw => ?_).trans (get_congr fun i hi => hbuf i (parts_needs he hi))
    have hmem : w.1 ∈ familyBytes := by
      rcases List.mem_cons.1 hw with rfl | hw
      · exact List.mem_cons_self
      · rw [List.mem_singleton.1 hw]
        exact List.mem_cons_of_mem _ List.mem_cons_self
    exact hapart.2.2 w.1 hmem e he

-- ---------------------------------------------------------------------------
-- The list
-- ---------------------------------------------------------------------------

theorem size_le (ai : HostInfo) : (ai.len + 3) / 4 * 4 = ai.len ∧ 8 ≤ ai.len ∧ ai.len ≤ 28 := by
  unfold HostInfo.len
  cases ai.addr.family <;> decide

/-- A node's own words, and its address, below `2 ^ 32`. -/
structure Node (m : Mem) (p next : Nat) (ai : HostInfo) : Prop where
  family : get m ⟨p + 4, 4⟩ = ai.addr.family.win
  len : get m ⟨p + 16, 4⟩ = ai.len
  addr : get m ⟨p + 24, 4⟩ = p + 32
  next : get m ⟨p + 28, 4⟩ = next
  bytes : ∀ i < ai.len, m (p + 32 + i) = ai.addr.wsa i

theorem header_apart (p q next : Nat) (ai : HostInfo) :
    (header p q next ai).Pairwise fun a b => Extent.Apart a.1 b.1 := by
  simp [header, Extent.Apart]

theorem header_within {w : Extent × Nat} (hw : w ∈ header p q next ai) :
    p ≤ w.1.start ∧ w.1.start + w.1.width ≤ p + 32 := by
  simp only [header, List.mem_cons, List.not_mem_nil, or_false] at hw
  rcases hw with rfl | rfl | rfl | rfl | rfl | rfl | rfl | rfl <;> dsimp only <;> omega

theorem header_outside (hi : ¬ (p ≤ i ∧ i < p + 32)) : setAll m (header p q next ai) i = m i := by
  obtain ⟨heq, -⟩ | ⟨l, w, r, hl, hw, -, -⟩ := setAll_last m (header p q next ai) i
  · exact heq
  · obtain ⟨hlow, hhigh⟩ := header_within (hl ▸ List.mem_append_right l List.mem_cons_self)
    exact absurd ⟨Nat.le_trans hlow hw.1, Nat.lt_of_lt_of_le hw.2 hhigh⟩ hi

/-- What a turn writes without the word of the previous node. -/
theorem writeNode_first (m : Mem) (ai : HostInfo) (hp : p + 32 < 2 ^ 32) (hnext : next < 2 ^ 32) :
    Node (writeNode m p 0 (p + 32) next ai) p next ai ∧
      ∀ i, ¬ (p ≤ i ∧ i < p + 32 + ai.len) → writeNode m p 0 (p + 32) next ai i = m i := by
  obtain ⟨-, -, hlen⟩ := size_le ai
  have hwrite : writeNode m p 0 (p + 32) next ai =
      set (copy (setAll m (header p (p + 32) next ai)) (p + 32) ai.addr.wsa ai.len)
        ⟨p + 16, 4⟩ ai.len := by rw [writeNode, if_neg (fun h => h rfl)]
  have hword : ∀ w ∈ header p (p + 32) next ai, Extent.Apart ⟨p + 16, 4⟩ w.1 →
      w.2 < 256 ^ w.1.width → get (writeNode m p 0 (p + 32) next ai) w.1 = w.2 := by
    intro w hw hapart hfit
    have haddr : Extent.Apart ⟨p + 32, ai.len⟩ w.1 := .inr (header_within hw).2
    rw [hwrite, get_set_apart hapart, copy, get_set_apart haddr, get_setAll (header_apart ..) hw,
      Nat.mod_eq_of_lt hfit]
  refine ⟨⟨?_, ?_, ?_, ?_, ?_⟩, ?_⟩
  · have hwin : ai.addr.family.win < 256 ^ 4 := by cases ai.addr.family <;> decide
    exact hword (⟨p + 4, 4⟩, ai.addr.family.win) (by simp [header]) (.inr (by dsimp only; omega)) hwin
  · rw [hwrite, get_set]
    exact Nat.mod_eq_of_lt (show ai.len < 256 ^ 4 by omega)
  · exact hword (⟨p + 24, 4⟩, p + 32) (by simp [header]) (.inl (by dsimp only; omega)) hp
  · exact hword (⟨p + 28, 4⟩, next) (by simp [header]) (.inl (by dsimp only; omega)) hnext
  · intro i hi
    rw [hwrite, set_outside (by unfold Extent.Has; dsimp only; omega)]
    exact copy_inside hi
  · intro i hi
    rw [hwrite, set_outside (by unfold Extent.Has; dsimp only; omega), copy,
      set_outside (by unfold Extent.Has; dsimp only; omega)]
    exact header_outside fun h => hi ⟨h.1, Nat.lt_of_lt_of_le h.2 (Nat.le_add_right ..)⟩

/-- The word of the previous node says already where this one is. -/
theorem writeNode_next {m : Mem} (hp : p + 32 < 2 ^ 32) (hnext : next < 2 ^ 32)
    (hprev : prevNext ≠ 0 → prevNext + 4 ≤ p ∧ get m ⟨prevNext, 4⟩ = p) :
    writeNode m p prevNext (p + 32) next ai = writeNode m p 0 (p + 32) next ai := by
  by_cases hzero : prevNext = 0
  · rw [hzero]
  · obtain ⟨hbefore, hword⟩ := hprev hzero
    have hkeep : get (writeNode m p 0 (p + 32) next ai) ⟨prevNext, 4⟩ = p := by
      refine Eq.trans (get_congr fun i hi => ?_) hword
      exact (writeNode_first m ai hp hnext).2 i fun h =>
        absurd (Nat.lt_of_lt_of_le hi.2 hbefore) (Nat.not_lt.2 h.1)
    have hpatch : writeNode m p prevNext (p + 32) next ai =
        set (writeNode m p 0 (p + 32) next ai) ⟨prevNext, 4⟩ p := by
      rw [writeNode, if_pos hzero, writeNode, if_neg (fun h => h rfl)]
    have hset := set_get (m := writeNode m p 0 (p + 32) next ai) (f := ⟨prevNext, 4⟩)
    rwa [hkeep, ← hpatch] at hset

theorem Node.congr (h : Node m p n ai) (hm : ∀ i, p ≤ i ∧ i < p + 32 + ai.len → m' i = m i) :
    Node m' p n ai := by
  have hword : ∀ k, k + 4 ≤ 32 → get m' ⟨p + k, 4⟩ = get m ⟨p + k, 4⟩ := fun k hk =>
    get_congr fun i hi => hm i ⟨Nat.le_trans (Nat.le_add_right ..) hi.1, by
      have hlt := hi.2
      dsimp only at hlt
      omega⟩
  refine ⟨?_, ?_, ?_, ?_, fun i hi => ?_⟩
  · rw [hword 4 (by decide), h.family]
  · rw [hword 16 (by decide), h.len]
  · rw [hword 24 (by decide), h.addr]
  · rw [hword 28 (by decide), h.next]
  · rw [hm _ ⟨by omega, Nat.add_lt_add_left hi _⟩, h.bytes i hi]

/-- The address of a node survives. -/
theorem Node.is (h : Node m p n ai) :
    ai.addr.Is (readSockaddr m (get m ⟨p + 24, 4⟩) (get m ⟨p + 16, 4⟩)) := by
  rw [h.addr, h.len]
  exact read_is ai.addr (Nat.succ_ne_zero _) fun i hi =>
    h.bytes i (Nat.lt_of_lt_of_le hi (needs_le ai.addr.family).2.1)

/-- One turn of the loop, where there is room. -/
theorem serialise_cons (hfit : p + total (ai :: rest) ≤ 2 ^ 32)
    (hprev : prevNext ≠ 0 → prevNext + 4 ≤ p ∧ get m ⟨prevNext, 4⟩ = p) :
    serialise (ai :: rest) p prevNext m = serialise rest (p + 32 + ai.len) (p + 28)
      (writeNode m p 0 (p + 32) (if rest.isEmpty then 0 else p + 32 + ai.len) ai) := by
  obtain ⟨hround, hmin, -⟩ := size_le ai
  rw [total, List.map_cons, List.sum_cons] at hfit
  have hsa : (p + 32) % 2 ^ 32 = p + 32 := Nat.mod_eq_of_lt (by omega)
  have hword : (p + 28) % 2 ^ 32 = p + 28 := Nat.mod_eq_of_lt (by omega)
  rw [serialise, hsa, hword, hround]
  cases rest with
  | nil =>
    simp only [List.isEmpty_nil, if_true]
    rw [serialise, serialise, writeNode_next (by omega) (by decide) hprev]
  | cons next rest =>
    rw [List.map_cons, List.sum_cons] at hfit
    have hpast : (p + 32 + ai.len) % 2 ^ 32 = p + 32 + ai.len := Nat.mod_eq_of_lt (by omega)
    simp only [List.isEmpty_cons, Bool.false_eq_true, if_false, hpast, ite_self]
    rw [writeNode_next (by omega) (by omega) hprev]

/-- The nodes one after another. -/
def layout : List HostInfo → Nat → List Span
  | [], _ => []
  | ai :: rest, p => ⟨p, 32⟩ :: ⟨p + 32, ai.len⟩ :: layout rest (p + 32 + ai.len)

theorem total_cons (ai : HostInfo) (rest : List HostInfo) :
    total (ai :: rest) = 32 + ai.len + total rest := by
  rw [total, List.map_cons, List.sum_cons]
  rfl

/-- The loop writes nothing but its nodes, which are those of the results as long as nothing
else is written there. -/
theorem serialise_spec (infos : List HostInfo) (prevNext : Nat) (hpos : 0 < p) (hfit : p + total infos ≤ 2 ^ 32)
    (hprev : infos ≠ [] → prevNext ≠ 0 → prevNext + 4 ≤ p ∧ get m ⟨prevNext, 4⟩ = p) :
    (∀ i, ¬ (p ≤ i ∧ i < p + total infos) → serialise infos p prevNext m i = m i) ∧
      (infos ≠ [] → ∀ m' : Mem,
        (∀ i, p ≤ i ∧ i < p + total infos → m' i = serialise infos p prevNext m i) →
          Chain m' infos p ∧ nodes m' infos p = layout infos p) := by
  induction infos generalizing p prevNext m with
  | nil => exact ⟨fun _ _ => rfl, fun h => absurd rfl h⟩
  | cons ai rest ih =>
    rw [serialise_cons hfit (hprev (List.cons_ne_nil _ _))]
    rw [total_cons] at hfit ⊢
    obtain ⟨-, hmin, hmax⟩ := size_le ai
    generalize hn : (if rest.isEmpty then 0 else p + 32 + ai.len) = next
    have hnext : next < 2 ^ 32 ∧ (rest ≠ [] → next = p + 32 + ai.len) ∧ (rest = [] → next = 0) := by
      subst hn
      cases rest with
      | nil => exact ⟨by simp, fun h => absurd rfl h, fun _ => rfl⟩
      | cons aj rest =>
        rw [total_cons] at hfit
        refine ⟨?_, fun _ => rfl, fun h => absurd h (List.cons_ne_nil _ _)⟩
        rw [List.isEmpty_cons, if_neg Bool.false_ne_true]
        omega
    obtain ⟨hnode, hkeep⟩ := writeNode_first m ai (p := p) (by omega) hnext.1
    obtain ⟨hout, hchain⟩ := ih (p + 28) (p := p + 32 + ai.len) (Nat.succ_le_of_lt (by omega))
      (by omega) fun hne _ => ⟨by omega, hnode.next.trans (hnext.2.1 hne)⟩
    refine ⟨fun i hi => (hout i (by omega)).trans (hkeep i (by omega)), fun _ m' hm' => ?_⟩
    have hnode' := hnode.congr fun i hi => (hm' i (by omega)).trans (hout i (by omega))
    have hrest : Chain m' rest (get m' ⟨p + 28, 4⟩) ∧
        nodes m' rest (get m' ⟨p + 28, 4⟩) = layout rest (p + 32 + ai.len) := by
      rw [hnode'.next]
      by_cases hne : rest = []
      · subst hne
        exact ⟨hnext.2.2 rfl, rfl⟩
      · rw [hnext.2.1 hne]
        exact hchain hne m' fun i hi => hm' i (by omega)
    exact ⟨⟨Nat.ne_of_gt hpos, hnode'.family, hnode'.is, hrest.1⟩, by
      rw [nodes, layout, hnode'.addr, hrest.2]⟩

theorem layout_within (hs : s ∈ layout infos p) : Within s ⟨p, total infos⟩ := by
  induction infos generalizing p with
  | nil => cases hs
  | cons ai rest ih =>
    unfold Within Span.stop at *
    rw [total_cons]
    rcases List.mem_cons.1 hs with rfl | hs
    · dsimp only
      omega
    · rcases List.mem_cons.1 hs with rfl | hs
      · dsimp only
        omega
      · have hw := ih hs
        dsimp only at hw ⊢
        omega

theorem layout_apart (infos : List HostInfo) (p : Nat) : AllApart (layout infos p) := by
  induction infos generalizing p with
  | nil => exact .nil
  | cons ai rest ih =>
    have hlater : ∀ b ∈ layout rest (p + 32 + ai.len), p + 32 + ai.len ≤ b.start :=
      fun b hb => (layout_within hb).1
    refine List.pairwise_cons.2 ⟨fun b hb => .inl ?_, List.pairwise_cons.2 ⟨fun b hb => .inl ?_, ih _⟩⟩
    · rcases List.mem_cons.1 hb with rfl | hb
      · exact Nat.le_refl _
      · exact Nat.le_trans (Nat.le_add_right ..) (hlater b hb)
    · exact hlater b hb

theorem nodes_total (m : Mem) (infos : List HostInfo) (p : Nat) :
    ((nodes m infos p).map Span.len).sum = total infos := by
  induction infos generalizing p with
  | nil => rfl
  | cons ai rest ih =>
    rw [nodes, List.map_cons, List.map_cons, List.sum_cons, List.sum_cons, ih, total_cons,
      Nat.add_assoc]

/-- The results of the host are delivered where there are any and they fit. -/
theorem delivered_iff (r : Region) (m : Mem) (infos : List HostInfo) (hres : res ≠ 0)
    (hapart : Extent.Apart ⟨res, 4⟩ ⟨r.base, 2 ^ 20⟩) :
    Delivered r (r.getaddrinfo m res infos) (get (r.getaddrinfo m res infos) ⟨res, 4⟩) infos ↔
      infos ≠ [] ∧ total infos ≤ 2 ^ 20 := by
  have hsmall := r.small
  have hpos := r.pos
  have hset : r.getaddrinfo m res infos = set (serialise infos r.base 0 m) ⟨res, 4⟩ r.base := by
    rw [Region.getaddrinfo, if_pos hres]
  have hfirst : get (r.getaddrinfo m res infos) ⟨res, 4⟩ = r.base := by
    rw [hset, get_set]
    exact Nat.mod_eq_of_lt (show r.base < 2 ^ 32 by omega)
  rw [hfirst]
  constructor
  · intro h
    have hle := h.apart.total_le h.inside
    rw [nodes_total] at hle
    refine ⟨?_, hle⟩
    -- the first pointer is the region's base, also where no node stands there
    rintro rfl
    exact absurd h.chain (Nat.ne_of_gt hpos)
  · rintro ⟨hne, hfit⟩
    obtain ⟨-, hchain⟩ := serialise_spec (m := m) infos 0 hpos (by omega) fun _ h => absurd rfl h
    obtain ⟨hlist, hnodes⟩ := hchain hne (r.getaddrinfo m res infos) fun i hi => by
      rw [hset]
      refine set_outside fun hin => ?_
      unfold Extent.Has at hin
      unfold Extent.Apart at hapart
      dsimp only at hin hapart
      omega
    refine ⟨hlist, hnodes ▸ layout_apart .., fun s hs => ?_⟩
    rw [hnodes] at hs
    exact (layout_within hs).trans ⟨Nat.le_refl _, Nat.add_le_add_left hfit _⟩

-- ---------------------------------------------------------------------------
-- The caller's buffer
-- ---------------------------------------------------------------------------

/-- What `getpeername` and `getsockname` get: a buffer of `n` bytes and a word that says so. -/
structure Buffer (m : Mem) (ptr lenPtr n : Nat) : Prop where
  given : ptr ≠ 0 ∧ lenPtr ≠ 0
  fits : ptr + n ≤ 2 ^ 32 ∧ lenPtr + 4 ≤ 2 ^ 32
  apart : Extent.Apart ⟨ptr, n⟩ ⟨lenPtr, 4⟩
  len : get m ⟨lenPtr, 4⟩ = n

theorem writeSockaddr_outside (hi : ¬ (Extent.mk ptr (get m ⟨lenPtr, 4⟩)).Has i)
    (hl : ¬ (Extent.mk lenPtr 4).Has i) : writeSockaddr m ptr lenPtr a i = m i := by
  unfold writeSockaddr
  by_cases h : ptr = 0 ∨ lenPtr = 0
  · rw [if_pos h]
  · rw [if_neg h, set_outside hl]
    refine set_outside fun hin => hi ⟨hin.1, Nat.lt_of_lt_of_le hin.2 ?_⟩
    exact Nat.add_le_add_left (Nat.min_le_right ..) _

theorem writeSockaddr_len (hb : Buffer m ptr lenPtr n) (a : HostAddr) :
    get (writeSockaddr m ptr lenPtr a) ⟨lenPtr, 4⟩ = a.family.len := by
  rw [writeSockaddr, if_neg (not_or.2 hb.given), get_set]
  cases a.family <;> rfl

/-- The part of the address for which there is room. -/
theorem writeSockaddr_inside (hb : Buffer m ptr lenPtr n) (a : HostAddr) (hlen : i < a.family.len)
    (hi : i < n) : writeSockaddr m ptr lenPtr a (ptr + i) = a.wsa i := by
  rw [writeSockaddr, if_neg (not_or.2 hb.given), hb.len]
  have hout : ¬ (Extent.mk lenPtr 4).Has (ptr + i) :=
    hb.apart.symm.not_has ⟨Nat.le_add_right .., Nat.add_lt_add_left hi _⟩
  rw [set_outside hout]
  exact copy_inside (Nat.lt_min.2 ⟨hlen, hi⟩)

/-- Past the family the host's structure has the bytes of the guest's. -/
theorem readSockaddr_byte (f : Family) (hptr : ptr ≠ 0) (htwo : 2 ≤ i) (hi : i < f.len) :
    (readSockaddr m ptr f.len).1 i = m (ptr + i) := by
  have hlen : min (f.len : Int).toNat 128 = f.len := by cases f <;> rfl
  have hpos : ¬ (ptr = 0 ∨ (f.len : Int) ≤ 0) := by
    cases f <;> simp [hptr, Family.len]
  have hcopy : copy (fun _ => 0) 0 (fun i => m (ptr + i)) f.len i = m (ptr + i) := by
    have hin := copy_inside (m := fun _ => 0) (p := 0) (b := fun i => m (ptr + i)) hi
    rwa [Nat.zero_add] at hin
  have hlow : ¬ (Extent.mk 0 1).Has i := fun h => absurd h.2 (by dsimp only; omega)
  have hhigh : ¬ (Extent.mk 1 1).Has i := fun h => absurd h.2 (by dsimp only; omega)
  unfold readSockaddr
  rw [if_neg hpos, hlen]
  dsimp only
  split
  · exact (set_outside hhigh).trans ((set_outside hlow).trans hcopy)
  · split
    · exact (set_outside hhigh).trans ((set_outside hlow).trans hcopy)
    · exact (set_outside hhigh).trans hcopy

theorem HostAddr.Is.byte (h : HostAddr.Is a r) (he : e ∈ a.family.parts) (hi : e.Has i) :
    r.1 i = a.wsa i := by
  rw [← byteAt_get (m := r.1) hi, ← byteAt_get (m := a.wsa) hi, h.parts e he, wsa_parts a he]

/-- Memory that differs from the address in every byte from `ptr` on. -/
def stale (a : HostAddr) (ptr lenPtr n : Nat) : Mem :=
  set (fun i => a.wsa (i - ptr) + 1) ⟨lenPtr, 4⟩ n

theorem stale_buffer (a : HostAddr) (hn : n < 28) : Buffer (stale a 4096 8192 n) 4096 8192 n where
  given := by decide
  fits := ⟨by omega, by decide⟩
  apart := .inl (by dsimp only; omega)
  len := by
    rw [stale, get_set]
    exact Nat.mod_eq_of_lt (show n < 2 ^ 32 by omega)

/-- A buffer keeps the address, whatever the memory holds, where the last member fits. -/
theorem survives_iff (a : HostAddr) (n : Nat) :
    (∀ m ptr lenPtr, Buffer m ptr lenPtr n → a.Is (readSockaddr (writeSockaddr m ptr lenPtr a) ptr
      (get (writeSockaddr m ptr lenPtr a) ⟨lenPtr, 4⟩))) ↔ a.family.needs ≤ n := by
  obtain ⟨htwo, hneeds, hlen⟩ := needs_le a.family
  constructor
  · intro h
    by_contra hshort
    have hbuf := stale_buffer a (n := n) (by omega)
    have his := h _ _ _ hbuf
    rw [writeSockaddr_len hbuf] at his
    obtain ⟨e, he, hlast, hsecond⟩ : ∃ e ∈ a.family.parts, e.Has (a.family.needs - 1) ∧
        2 ≤ a.family.needs - 1 := by
      cases a.family with
      | inet => exact ⟨⟨4, 4⟩, by simp [Family.parts], ⟨by decide, by decide⟩, by decide⟩
      | inet6 => exact ⟨⟨24, 4⟩, by simp [Family.parts], ⟨by decide, by decide⟩, by decide⟩
    have hbyte := his.byte he hlast
    rw [readSockaddr_byte a.family hbuf.given.1 hsecond (by omega),
      writeSockaddr_outside (by rw [hbuf.len]; exact fun h => absurd h.2 (by dsimp only; omega))
        (fun h => absurd h.1 (by dsimp only; omega)),
      stale, set_outside (fun h => absurd h.1 (by dsimp only; omega)), Nat.add_sub_cancel_left]
      at hbyte
    exact absurd hbyte (by grind)
  · intro hfit m ptr lenPtr hb
    rw [writeSockaddr_len hb]
    exact read_is a hb.given.1 fun i hi => writeSockaddr_inside hb a (by omega) (by omega)

-- ---------------------------------------------------------------------------
-- Both ways to the guest
-- ---------------------------------------------------------------------------

/-- The results arrive where there are any and they fit, a caller's address arrives where its
members do, and no buffer is overrun. -/
theorem addresses_law (r : Region) (m : Mem) (infos : List HostInfo) (hres : res ≠ 0)
    (hapart : Extent.Apart ⟨res, 4⟩ ⟨r.base, 2 ^ 20⟩) (a : HostAddr) (n : Nat) :
    (Delivered r (r.getaddrinfo m res infos) (get (r.getaddrinfo m res infos) ⟨res, 4⟩) infos ↔
      infos ≠ [] ∧ total infos ≤ 2 ^ 20) ∧
    ((∀ m ptr lenPtr, Buffer m ptr lenPtr n →
      a.Is (readSockaddr (writeSockaddr m ptr lenPtr a) ptr
        (get (writeSockaddr m ptr lenPtr a) ⟨lenPtr, 4⟩))) ↔ a.family.needs ≤ n) ∧
    ∀ m ptr lenPtr i, Buffer m ptr lenPtr n → ¬ (Extent.mk ptr n).Has i →
      ¬ (Extent.mk lenPtr 4).Has i → writeSockaddr m ptr lenPtr a i = m i :=
  ⟨delivered_iff r m infos hres hapart, survives_iff a n, fun _ _ _ _ hb hi hl =>
    writeSockaddr_outside (hb.len ▸ hi) hl⟩

def loopback : HostAddr := ⟨.inet, set (set (fun _ => 0) ⟨2, 2⟩ 0x5000) ⟨4, 4⟩ 0x0100007F⟩

def scratch : Region := ⟨0x00B00000, by decide, by decide⟩

theorem addresses_law_loopback :
    Delivered scratch (scratch.getaddrinfo (fun _ => 0) 64 [⟨0, 1, 6, loopback⟩])
      (get (scratch.getaddrinfo (fun _ => 0) 64 [⟨0, 1, 6, loopback⟩]) ⟨64, 4⟩)
      [⟨0, 1, 6, loopback⟩] :=
  (addresses_law scratch (fun _ => 0) _ (by decide) (.inl (by decide)) loopback 16).1.2
    ⟨List.cons_ne_nil _ _, by decide⟩

theorem total_replicate (n : Nat) (ai : HostInfo) :
    total (List.replicate n ai) = n * (32 + ai.len) := by
  induction n with
  | zero => exact (Nat.zero_mul _).symm
  | succ n ih => rw [List.replicate_succ, total_cons, ih, Nat.succ_mul, Nat.add_comm]

/-- A list of 1048608 bytes, and a buffer of four bytes that is said to hold the address. -/
theorem address_cut :
    ¬ Delivered scratch
      (scratch.getaddrinfo (fun _ => 0) 64 (List.replicate 21846 ⟨0, 1, 6, loopback⟩))
      (get (scratch.getaddrinfo (fun _ => 0) 64 (List.replicate 21846 ⟨0, 1, 6, loopback⟩)) ⟨64, 4⟩)
      (List.replicate 21846 ⟨0, 1, 6, loopback⟩) ∧
    Buffer (stale loopback 4096 8192 4) 4096 8192 4 ∧
    ¬ loopback.Is (readSockaddr (writeSockaddr (stale loopback 4096 8192 4) 4096 8192 loopback) 4096
      16) := by
  refine ⟨fun h => ?_, stale_buffer _ (by decide), fun h => ?_⟩
  · have hfit := ((delivered_iff scratch _ _ (by decide) (.inl (by decide))).1 h).2
    rw [total_replicate] at hfit
    exact absurd hfit (by decide)
  · exact absurd (h.parts ⟨4, 4⟩ (by simp [loopback, Family.parts])) (by decide +kernel)

end WineGlass.Winsock
