import WineGlass.Coop.Entry
import WineGlass.Engine.Messages
import WineGlass.Engine.Tls

/-!
# Pointer-sized values of a 64-bit guest

Handlers take their arguments as 32-bit words, and the tables between the one
that hands a value over and the one that gets it have 32-bit cells. `GetMessage`
fills the 28 bytes of a 32-bit `MSG`, whatever the guest.
-/

namespace WineGlass.PointerWidth

open Fields Coop Messages

-- ---------------------------------------------------------------------------
-- Messages
-- ---------------------------------------------------------------------------

/-- The entry `PostThreadMessage` queues. -/
def queued (tid msg : Coop.U32) (wParam lParam : U64) : Msg :=
  ⟨tid, msg, wParam.setWidth 32, lParam.setWidth 32⟩

/-- `msgbuf`: no window, the message, `wParam`, `lParam`, no time and no point. -/
def msgWrites (buf : Nat) (m : Msg) : List (Extent × Nat) :=
  [(⟨buf, 4⟩, 0), (⟨buf + 4, 4⟩, m.msg.toNat), (⟨buf + 8, 4⟩, m.wparam.toNat),
    (⟨buf + 12, 4⟩, m.lparam.toNat), (⟨buf + 16, 4⟩, 0), (⟨buf + 20, 4⟩, 0), (⟨buf + 24, 4⟩, 0)]

/-- The buffer, which is a 32-bit argument too, unless it is null. -/
def fillMessage (mem : Mem) (buf : U64) (m : Msg) : Mem :=
  let p : Coop.U32 := buf.setWidth 32
  if p = 0 then mem else setAll mem (msgWrites p.toNat m)

/-- `GetMessageW` where a message is queued. -/
def getMessage (mode : Messages.Mode) (t : Coop.U32) (buf : U64) (x : Messages.State × Mem) :
    Option (Messages.State × Mem) :=
  match tmsgPop x.1.msgs (getTid mode x.1 t) with
  | none => none
  | some (m, r) => some ({ x.1 with msgs := r }, fillMessage x.2 buf m)

/-- A message loop that has turned `n` times. -/
def getMessages (mode : Messages.Mode) (t : Coop.U32) (buf : U64) :
    Nat → Messages.State × Mem → Option (Messages.State × Mem)
  | 0, x => some x
  | n + 1, x => (getMessage mode t buf x).bind (getMessages mode t buf n)

/-- A post to a thread, and the loop in which that thread gets its messages. -/
structure Posting where
  mode : Messages.Mode
  state : Messages.State
  wf : state.msgs.Wf maxThreadMsgs
  tid : Coop.U32
  receiver : getTid mode state tid = tid
  msg : Coop.U32
  mem : Mem
  buf : U64

/-- Memory when the thread has got every message that was queued for it before,
and the one posted. -/
def Posting.receive (p : Posting) (wParam lParam : U64) : Option Mem :=
  let s := (postThreadMessage p.state (queued p.tid p.msg wParam lParam)).1
  (getMessages p.mode p.tid p.buf ((p.state.pending p.tid).length + 1) (s, p.mem)).map Prod.snd

inductive Param
  | wParam | lParam
  deriving DecidableEq, Repr

/-- Where a 64-bit guest reads it in a `MSG`. -/
def Param.offset : Param → Nat
  | .wParam => 16
  | .lParam => 24

def Posting.read (p : Posting) (which : Param) (mem : Mem) : U64 :=
  .ofNat 64 (get mem ⟨p.buf.toNat + which.offset, 8⟩)

-- ---------------------------------------------------------------------------
-- Channels
-- ---------------------------------------------------------------------------

/-- `EncodePointer` and `DecodePointer`. -/
def encodePointer (v : U64) : U64 := (v.setWidth 32 : Coop.U32).setWidth 64

/-- A creation of a thread or of a thread-pool work in a 64-bit guest. The table of
works keeps 32 bits of callback and context, as the handlers do. -/
structure Creation where
  engine : Engine
  reached : Reached engine
  real : List U64
  mem : Mem
  mainTeb : Coop.U32
  path : Path
  start : U64
  flags : Coop.U32
  grants : Grants engine real
  fresh : Machine

def Creation.entry (c : Creation) (v : U64) : Option Entry :=
  Coop.entry c.engine c.mem c.mainTeb ⟨c.path, true, c.start, v, c.flags⟩ c.grants c.fresh

theorem rcx_lt : 1 < 16 := by decide

theorem rdx_lt : 2 < 16 := by decide

/-- The register the start routine takes the value from: the first argument's, RCX,
and for a thread-pool callback the second's, RDX. -/
def Creation.register (c : Creation) (x : Entry) : U64 :=
  if c.path = .submitThreadpoolWork then getElem x.machine.weg 2 rdx_lt
  else getElem x.machine.weg 1 rcx_lt

/-- A way for the guest to hand a pointer-sized value over. -/
inductive Channel
  | storage (s : Tls.State) (k : Tls.Kind) (i : Slot) (slot : Nat)
  | pointer
  | message (p : Posting) (which : Param) (other : U64)
  | thread (c : Creation)

/-- What arrives, if anything does. -/
def handOver : Channel → U64 → Option U64
  | .storage s k i slot, v => some (Tls.getValue (Tls.setValue s k i slot v) k i slot)
  | .pointer, v => some (encodePointer v)
  | .message p .wParam lParam, v => (p.receive v lParam).map (p.read .wParam)
  | .message p .lParam wParam, v => (p.receive wParam v).map (p.read .lParam)
  | .thread c, v => (c.entry v).map c.register

/-- The buffer is where the handler looks for it. -/
def Posting.Hits (p : Posting) : Prop := p.buf ≠ 0 ∧ p.buf.toNat < 2 ^ 32

instance (p : Posting) : Decidable p.Hits := inferInstanceAs (Decidable (_ ∧ _))

/-- What a message parameter must be to arrive: no more is written of the 64-bit
fields than zeros in `wParam` and in the low half of `lParam`. -/
def Posting.constant (p : Posting) (which : Param) : Nat :=
  if p.Hits then
    match which with
    | .wParam => 0
    | .lParam => 2 ^ 32 * get p.mem ⟨p.buf.toNat + 28, 4⟩
  else get p.mem ⟨p.buf.toNat + which.offset, 8⟩

def Carries : Channel → U64 → Prop
  | .storage _ _ _ slot, v => v.toNat < 2 ^ 32 ∧ (slot < Tls.slotCount ∨ v = 0)
  | .pointer, v => v.toNat < 2 ^ 32
  | .message p which _, v => v.toNat = p.constant which
  | .thread c, v => if c.path = .submitThreadpoolWork then v = 0 else v.toNat < 2 ^ 32

-- ---------------------------------------------------------------------------
-- The buffer
-- ---------------------------------------------------------------------------

theorem getMessage_state (mode : Messages.Mode) (t : Coop.U32) (buf : U64) (mem : Mem)
    (hx : PointerWidth.getMessage mode t buf (s, mem) = some (s', mem')) :
    s' = (Messages.getMessage mode s t (decide (buf.setWidth 32 ≠ (0 : Coop.U32)))).1 := by
  unfold PointerWidth.getMessage at hx
  unfold Messages.getMessage
  split at hx
  · cases hx
  · rename_i m r hp
    simp only [Option.some.injEq, Prod.mk.injEq] at hx
    simp only [hp]
    exact hx.1.symm

theorem msgWrites_inside (h : w ∈ msgWrites p m) : w.1.start + w.1.width ≤ p + 28 := by
  simp only [msgWrites, List.mem_cons, List.not_mem_nil, or_false] at h
  rcases h with rfl | rfl | rfl | rfl | rfl | rfl | rfl <;> dsimp only <;> omega

theorem msgWrites_apart : (msgWrites p m).Pairwise fun a b => Extent.Apart a.1 b.1 := by
  simp only [msgWrites, List.pairwise_cons, List.mem_cons, List.not_mem_nil, or_false, Extent.Apart]
  refine ⟨?_, ?_, ?_, ?_, ?_, ?_, nofun, .nil⟩
  all_goals
    rintro w h
    rcases h with rfl | rfl | rfl | rfl | rfl | rfl
    all_goals dsimp only; omega

/-- The handler writes nothing of the field. -/
def Clear (buf : U64) (f : Extent) : Prop :=
  (buf.setWidth 32 : Coop.U32) = 0 ∨ (buf.setWidth 32 : Coop.U32).toNat + 28 ≤ f.start

theorem get_fillMessage (h : Clear buf f) : get (fillMessage mem buf m) f = get mem f := by
  unfold fillMessage
  rcases h with h0 | h
  · simp [h0]
  · dsimp only
    split
    · rfl
    · exact get_setAll_apart fun w hw => .inl ((msgWrites_inside hw).trans h)

/-- The loop gets the messages queued for the thread, and fills the buffer with
each in turn. -/
theorem getMessages_last (mem : Mem) (buf : U64) (hwf : s.msgs.Wf maxThreadMsgs) (hq : s.pending tid = l ++ [m])
    (ht : getTid mode s tid = tid) : ∃ s' mem',
      getMessages mode tid buf (l.length + 1) (s, mem) = some (s', fillMessage mem' buf m) ∧
      ∀ f, Clear buf f → get mem' f = get mem f := by
  induction l generalizing s mem with
  | nil =>
    obtain ⟨hnone, -⟩ | ⟨x, r, hpop, -, -, hpend, -⟩ := pop_queue hwf tid
    · simp [hq] at hnone
    · rw [hq] at hpend
      obtain rfl : m = x := (List.cons.inj hpend).1
      refine ⟨{ s with msgs := r }, mem, ?_, fun f _ => rfl⟩
      simp [getMessages, PointerWidth.getMessage, ht, hpop]
  | cons y l ih =>
    obtain ⟨hnone, -⟩ | ⟨x, r, hpop, hwf', -, hpend, -⟩ := pop_queue hwf tid
    · simp [hq] at hnone
    · rw [hq] at hpend
      obtain ⟨rfl, hq'⟩ := List.cons.inj hpend
      have ht' : getTid mode { s with msgs := r } tid = tid := ht
      obtain ⟨s', mem', hrun, hmem⟩ := ih (fillMessage mem buf y) hwf' hq'.symm ht'
      refine ⟨s', mem', ?_, fun f hf => (hmem f hf).trans (get_fillMessage hf)⟩
      rw [List.length_cons, getMessages]
      simpa [PointerWidth.getMessage, ht, hpop] using hrun

-- ---------------------------------------------------------------------------
-- Message parameters
-- ---------------------------------------------------------------------------

/-- One turn too many finds nothing queued. -/
theorem getMessages_none (mem : Mem) (buf : U64) (hwf : s.msgs.Wf maxThreadMsgs) (hq : s.pending tid = l)
    (ht : getTid mode s tid = tid) : getMessages mode tid buf (l.length + 1) (s, mem) = none := by
  induction l generalizing s mem with
  | nil =>
    obtain ⟨-, hpop⟩ | ⟨x, r, -, -, -, hpend, -⟩ := pop_queue hwf tid
    · simp [getMessages, PointerWidth.getMessage, ht, hpop]
    · simp [hq] at hpend
  | cons y l ih =>
    obtain ⟨hnone, -⟩ | ⟨x, r, hpop, hwf', -, hpend, -⟩ := pop_queue hwf tid
    · simp [hq] at hnone
    · rw [hq] at hpend
      obtain ⟨rfl, hq'⟩ := List.cons.inj hpend
      have ht' : getTid mode { s with msgs := r } tid = tid := ht
      have hrest := ih (fillMessage mem buf y) hwf' hq'.symm ht'
      rw [List.length_cons, getMessages]
      simpa [PointerWidth.getMessage, ht, hpop] using hrest

/-- What the receiver's buffer holds in the end. -/
theorem Posting.receive_eq {p : Posting} (h : p.receive wParam lParam = some final) :
    ∃ mem', final = fillMessage mem' p.buf (queued p.tid p.msg wParam lParam) ∧
      ∀ f, Clear p.buf f → get mem' f = get p.mem f := by
  obtain ⟨⟨s', mem''⟩, hrun, rfl⟩ := Option.map_eq_some_iff.1 h
  have hreceiver : ∀ r, getTid p.mode { p.state with msgs := r } p.tid = p.tid := fun _ => p.receiver
  by_cases hroom : p.state.queue.length < maxThreadMsgs - 1
  · obtain ⟨hwf, hitems⟩ := push_queue (m := queued p.tid p.msg wParam lParam) p.wf hroom
    have hpend : Messages.State.pending
        (postThreadMessage p.state (queued p.tid p.msg wParam lParam)).1 p.tid =
        p.state.pending p.tid ++ [queued p.tid p.msg wParam lParam] := by
      have hkeep : [queued p.tid p.msg wParam lParam].filter (fun m => m.tid == p.tid) =
          [queued p.tid p.msg wParam lParam] := by simp [queued]
      simp only [postThreadMessage, State.pending, State.queue, hitems, List.filter_append, hkeep]
    obtain ⟨s'', mem', hlast, hmem⟩ := getMessages_last p.mem p.buf hwf hpend
      (hreceiver _)
    rw [hlast] at hrun
    cases hrun
    exact ⟨mem', rfl, hmem⟩
  · -- A full ring drops the message.
    have hfull : p.state.msgs.push maxThreadMsgs (queued p.tid p.msg wParam lParam) = none := by
      refine p.wf.push_none.2 ?_
      have hlt : p.state.queue.length < maxThreadMsgs := by
        simpa [Messages.State.queue] using p.wf.count_lt
      change p.state.queue.length + 1 = maxThreadMsgs
      simp only [maxThreadMsgs] at hlt hroom ⊢
      omega
    have hdrop : tmsgPush p.state.msgs (queued p.tid p.msg wParam lParam) = p.state.msgs := by
      rw [tmsgPush, hfull]
      rfl
    have hnone := getMessages_none (s := p.state) p.mem p.buf p.wf rfl p.receiver
    rw [postThreadMessage, hdrop, hnone] at hrun
    cases hrun

/-- A buffer the handler finds: `wParam` and half of `lParam` are zeros, and the
other half is what it was. -/
theorem fillMessage_hit {p : Posting} (h : p.Hits) (which : Param) :
    get (fillMessage mem p.buf m) ⟨p.buf.toNat + which.offset, 8⟩ =
      match which with
      | .wParam => 0
      | .lParam => 2 ^ 32 * get mem ⟨p.buf.toNat + 28, 4⟩ := by
  have hp : (p.buf.setWidth 32 : Coop.U32).toNat = p.buf.toNat := by
    rw [BitVec.toNat_setWidth]
    exact Nat.mod_eq_of_lt h.2
  have hne : ¬ (p.buf.setWidth 32 : Coop.U32) = 0 := fun h0 => h.1 (by
    apply BitVec.eq_of_toNat_eq
    rw [← hp, h0]
    rfl)
  have hz : ∀ {e : Extent}, (e, 0) ∈ msgWrites p.buf.toNat m →
      get (setAll mem (msgWrites p.buf.toNat m)) e = 0 := fun he => by
    simpa using get_setAll msgWrites_apart he
  simp only [fillMessage, hne, ↓reduceIte, hp]
  cases which with
  | wParam =>
    rw [Param.offset, get_add (n := 4) (k := 4), hz (by simp [msgWrites]), hz (by simp [msgWrites])]
    rfl
  | lParam =>
    have hold : get (setAll mem (msgWrites p.buf.toNat m)) ⟨p.buf.toNat + 28, 4⟩ =
        get mem ⟨p.buf.toNat + 28, 4⟩ :=
      get_setAll_apart fun w hw => .inl (msgWrites_inside hw)
    rw [Param.offset, get_add (n := 4) (k := 4), hz (by simp [msgWrites]), hold, Nat.zero_add]
    rfl

theorem Posting.miss_clear {p : Posting} (h : ¬ p.Hits) (which : Param) :
    Clear p.buf ⟨p.buf.toNat + which.offset, 8⟩ := by
  by_cases h0 : p.buf = 0
  · exact .inl (by simp [h0])
  · have hbig : 2 ^ 32 ≤ p.buf.toNat := Nat.not_lt.1 fun hlt => h ⟨h0, hlt⟩
    have hlow : 16 ≤ which.offset := by cases which <;> decide
    refine .inr ?_
    rw [BitVec.toNat_setWidth]
    dsimp only
    omega

/-- Either field reads the same whatever was posted. -/
theorem Posting.receive_read {p : Posting} (h : p.receive wParam lParam = some final) (which : Param) :
    get final ⟨p.buf.toNat + which.offset, 8⟩ = p.constant which := by
  obtain ⟨mem', rfl, hmem⟩ := Posting.receive_eq h
  unfold Posting.constant
  split
  · rename_i hit
    rw [fillMessage_hit hit]
    cases which with
    | wParam => rfl
    | lParam =>
      have hp : (p.buf.setWidth 32 : Coop.U32).toNat ≤ p.buf.toNat := by
        rw [BitVec.toNat_setWidth]
        exact Nat.mod_le ..
      dsimp only
      rw [hmem _ (.inr (Nat.add_le_add_right hp 28))]
  · rename_i hmiss
    have hclear := Posting.miss_clear hmiss which
    exact (get_fillMessage hclear).trans (hmem _ hclear)

theorem Posting.read_iff {p : Posting} (h : p.receive wParam lParam = some final) (which : Param) :
    p.read which final = v ↔ v.toNat = p.constant which := by
  have hlt : p.constant which < 2 ^ 64 := Posting.receive_read h which ▸ get_lt
  rw [Posting.read, Posting.receive_read h]
  constructor
  · rintro rfl
    exact Nat.mod_eq_of_lt hlt
  · intro hv
    rw [← hv, BitVec.ofNat_toNat, BitVec.setWidth_eq]

-- ---------------------------------------------------------------------------
-- Threads and cells
-- ---------------------------------------------------------------------------

/-- A new thread finds the low half of its parameter in RCX, and a cooperative one
nothing in RDX. -/
theorem Creation.registers (c : Creation) (h : c.entry v = some x) :
    getElem x.machine.weg 1 rcx_lt = (v.setWidth 32 : Coop.U32).setWidth 64 ∧
      (c.path ≠ .realThread → getElem x.machine.weg 2 rdx_lt = 0) := by
  obtain ⟨k, hk⟩ := c.reached.numbered
  have hcoop : ∀ {s : Spawn}, s.param = v → coopEntry c.engine c.mem c.mainTeb s c.grants = some x →
      x.machine.weg[1] = (v.setWidth 32 : Coop.U32).setWidth 64 ∧ x.machine.weg[2] = 0 := by
    rintro s rfl hx
    have hgpr : ∀ (t : Thread) teb, (t.given teb).regs.gpr = t.regs.gpr := by
      intro t teb
      unfold Thread.given
      split
      · rfl
      split <;> rfl
    have hweg : x.machine.weg = (entryRegs s.start32 s.param32 (entrySp c.engine.nextStackAddr)
        c.engine.creatorFs).gpr := by
      rw [coopEntry_eq hk hx]
      exact hgpr _ _
    simp only [hweg]
    exact ⟨rfl, rfl⟩
  unfold Creation.entry Coop.entry at h
  cases hp : c.path
  all_goals simp only [hp] at h
  · exact (hcoop rfl h).imp_right fun h0 _ => h0
  · refine ⟨?_, fun hn => absurd rfl hn⟩
    obtain rfl := Option.some.inj h
    simp only [realEntry, ↓reduceIte, Vector.getElem_set_self]
    rfl
  · exact (hcoop rfl h).imp_right fun h0 _ => h0
  · exact (hcoop rfl h).imp_right fun h0 _ => h0
  all_goals
    rw [Option.ite_none_left_eq_some] at h
    exact (hcoop rfl h.2).imp_right fun h0 _ => h0

theorem storage_iff : Tls.getValue (Tls.setValue s k i slot v) k i slot = v ↔
    v.toNat < 2 ^ 32 ∧ (slot < Tls.slotCount ∨ v = 0) := by
  constructor
  · intro h
    rw [← h]
    unfold Tls.getValue
    split
    · rename_i hlt
      refine ⟨?_, .inl hlt⟩
      rw [widen_toNat]
      exact BitVec.isLt _
    · exact ⟨by decide, .inr rfl⟩
  · rintro ⟨hv, hslot⟩
    rw [Tls.getValue_setValue hv hslot]
    simp

/-- A value arrives as it was exactly when the cells on its way carry it. -/
theorem pointer_width_law (c : Channel) (h : handOver c v = some r) : r = v ↔ Carries c v := by
  cases c with
  | storage s k i slot =>
    obtain rfl := Option.some.inj h
    exact storage_iff
  | pointer =>
    obtain rfl := Option.some.inj h
    exact narrow_eq
  | message p which other =>
    cases which with
    | wParam | lParam =>
      obtain ⟨final, hfinal, rfl⟩ := Option.map_eq_some_iff.1 h
      exact Posting.read_iff hfinal _
  | thread c =>
    obtain ⟨x, hx, rfl⟩ := Option.map_eq_some_iff.1 h
    obtain ⟨hcx, hdx⟩ := c.registers hx
    simp only [Carries, Creation.register]
    split
    · rename_i hp
      rw [hdx (by simp [hp])]
      exact eq_comm
    · rw [hcx]
      exact narrow_eq

/-- A message to the main thread of a program just loaded. -/
def firstPosting : Posting where
  mode := .real
  state := .init
  wf := init_inv.wf
  tid := 1
  receiver := rfl
  msg := 0x400
  mem _ := 0
  buf := 0x7FFE0000

theorem pointer_width_law_message :
    handOver (.message firstPosting .wParam 0) 5 = some 0 ∧
      ((0 : U64) = 5 ↔ Carries (.message firstPosting .wParam 0) 5) := by
  have h : handOver (.message firstPosting .wParam 0) 5 = some 0 := by decide +kernel
  exact ⟨h, pointer_width_law _ h⟩

/-- `EncodePointer` of an address of the 64-bit heap. -/
theorem wide_pointer_cut : ¬ ∀ c v r, handOver c v = some r → r = v := fun h =>
  absurd (h .pointer 0x100001000 0x1000 rfl) (by decide)

end WineGlass.PointerWidth
