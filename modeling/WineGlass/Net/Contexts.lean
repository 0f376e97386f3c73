import Mathlib.Data.List.FinRange
import WineGlass.Lib.Run
import WineGlass.Net.Schannel

/-!
# Credentials and security contexts

A credential and the contexts made from it share one of the 16 entries of the table: a context
is made in the entry its credential is found in. `FreeCredentialsHandle` does nothing. A session
of SecureTransport is a number here, a new one for each `SSLCreateContext`, which is taken to
succeed.
-/

namespace WineGlass.Contexts

open Runs Schannel

/-- `WG_MAX_TLS` entries. -/
abbrev Slot := Fin 16

/-- `WGSchannel`, and the number of sessions made so far. -/
structure Table where
  ctx : Slot → Ctx Nat
  nextHandle : U32
  made : Nat

def blank : Ctx Nat := ⟨false, none, [], 0, [], false, 0, 0⟩

/-- `wg_schannel_create` -/
def Table.create : Table := ⟨fun _ => blank, 0x9000, 0⟩

/-- The entry `alloc_ctx` takes. -/
def Table.unused (t : Table) : Option Slot := (List.finRange 16).find? fun i => !(t.ctx i).active

/-- `alloc_ctx` -/
def Table.allocCtx (t : Table) : Option (Slot × Table) :=
  t.unused.map fun i => (i, { t with ctx := Function.update t.ctx i { blank with active := true } })

/-- `find_by_ctx_handle` -/
def Table.findByCtxHandle (t : Table) (h : U32) : Option Slot :=
  (List.finRange 16).find? fun i => (t.ctx i).active && (t.ctx i).ctxHandle == h.setWidth 64

def Table.findByCredHandle (t : Table) (h : U32) : Option Slot :=
  (List.finRange 16).find? fun i => (t.ctx i).active && (t.ctx i).credHandle == h.setWidth 64

-- ---------------------------------------------------------------------------
-- Calls
-- ---------------------------------------------------------------------------

/-- `AcquireCredentialsHandle`; none is `SEC_E_INTERNAL_ERROR`. -/
def Table.acquireCredentialsHandle (t : Table) : Option (U32 × Table) :=
  t.allocCtx.map fun (i, t) =>
    let c := { t.ctx i with credHandle := t.nextHandle.setWidth 64 }
    (t.nextHandle, { t with ctx := Function.update t.ctx i c, nextHandle := t.nextHandle + 1 })

/-- What `SSLHandshake` answers. -/
inductive Answer
  | noErr | wouldBlock | failed
  deriving DecidableEq, Repr

/-- What `SSLHandshake` does with a session: the bytes it asks its callback for, what it writes,
and its answer. -/
structure Handshake where
  asks : List Nat
  chunks : List (List Byte)
  answer : Answer
  deriving DecidableEq, Repr

/-- The entry a call continues with, if its context is found. -/
def Table.continued (t : Table) (ctxIn : Option U32) : Option Slot := ctxIn.bind t.findByCtxHandle

/-- The first call of a context: the entry of the credential, or else a new one, gets a handle
and a session. -/
def Table.begin (t : Table) (cred : Option U32) : Option (Slot × Table) :=
  let slot := match cred.bind t.findByCredHandle with
    | some i => some (i, t)
    | none => t.allocCtx
  slot.map fun (i, t) =>
    let c := { t.ctx i with ctxHandle := t.nextHandle.setWidth 64, ssl := some t.made }
    (i, ⟨Function.update t.ctx i c, t.nextHandle + 1, t.made + 1⟩)

/-- The loop over the input buffers: the last token is what the session reads. -/
def feed (c : Ctx Nat) (input : List SecBuf) : Ctx Nat :=
  input.foldl (fun c b => if b.bufferType = 2 ∧ b.size ≠ 0 ∧ b.pvBuffer ≠ 0 then
    { c with inBuf := b.bytes, inPos := 0 } else c) c

/-- Whether a token of `len` bytes, `len` being cut to 32 bits, goes into a buffer. -/
def takesToken (len : Nat) (b : SecBuf) : Bool :=
  (b.bufferType == 2 || b.bufferType == 0) && b.pvBuffer ≠ 0 && len % 2 ^ 32 ≤ b.size

/-- The loop over the output buffers: the buffer the token goes into, and what is written. -/
def storeToken (out : List Byte) (output : List SecBuf) : Option (Nat × List Byte) :=
  if 0 < out.length then
    (output.findIdx? (takesToken out.length)).map fun k => (k, out.take (out.length % 2 ^ 32))
  else none

def clearOut (c : Ctx Nat) : Ctx Nat := { c with outBuf := [] }

/-- The handshake step in an entry, a null session failing. -/
def shake (c : Ctx Nat) (input : List SecBuf) (hs : Handshake) : Answer × Ctx Nat :=
  let c := clearOut (feed c input)
  match c.ssl with
  | none => (.failed, c)
  | some _ =>
    let c := hs.chunks.foldl Ctx.bufWriteCb (c.pull hs.asks).2
    (hs.answer, if hs.answer = .noErr then { c with handshakeDone := true } else c)

inductive Result
  | credential (h : U32)
  | context (answer : Answer) (h : U32) (ssl : Option Nat) (produced : List Byte)
      (token : Option (Nat × List Byte))
  | refused
  | done
  deriving DecidableEq, Repr

/-- The call in entry `i`. -/
def Table.proceed (t : Table) (i : Slot) (input output : List SecBuf) (hs : Handshake) :
    Result × Table :=
  let (answer, c) := shake (t.ctx i) input hs
  (.context answer (c.ctxHandle.setWidth 32) c.ssl c.outBuf (storeToken c.outBuf output),
    { t with ctx := Function.update t.ctx i c })

/-- `InitializeSecurityContext` -/
def Table.initializeSecurityContext (t : Table) (cred ctxIn : Option U32)
    (input output : List SecBuf) (hs : Handshake) : Result × Table :=
  match t.continued ctxIn with
  | some i => t.proceed i input output hs
  | none =>
    match t.begin cred with
    | none => (.refused, t)
    | some (i, t) => t.proceed i input output hs

/-- `DeleteSecurityContext` -/
def Table.deleteSecurityContext (t : Table) (h : U32) : Table :=
  match t.findByCtxHandle h with
  | none => t
  | some i =>
    let c := { t.ctx i with ssl := none, inBuf := [], outBuf := [], active := false }
    { t with ctx := Function.update t.ctx i c }

inductive Action
  | acquire
  | free (cred : U32)
  | init (cred ctxIn : Option U32) (input output : List SecBuf) (hs : Handshake)
  | delete (h : U32)
  deriving DecidableEq

def Table.act (t : Table) : Action → Result × Table
  | .acquire =>
    match t.acquireCredentialsHandle with
    | none => (.refused, t)
    | some (h, t) => (.credential h, t)
  | .free _ => (.done, t)
  | .init cred ctxIn input output hs => t.initializeSecurityContext cred ctxIn input output hs
  | .delete h => (.done, t.deleteSecurityContext h)

-- ---------------------------------------------------------------------------
-- What the guest may rely on
-- ---------------------------------------------------------------------------

/-- The table with notes that are not in the source: the credentials not freed, the contexts
returned and not deleted with their sessions, and the handles of those deleted. -/
structure Sys where
  table : Table
  creds : List U32
  live : List (U32 × Nat)
  dead : List U32

def Sys.start : Sys := ⟨.create, [], [], []⟩

/-- The notes on the contexts after a call that has returned one. -/
def noteContext (live : List (U32 × Nat)) (h : U32) (ssl : Option Nat) : List (U32 × Nat) :=
  if h ∈ live.map Prod.fst then live else (ssl.map fun x => (h, x)).toList ++ live

def Sys.step (s : Sys) (a : Action) : Option (Sys × Result) :=
  let (r, table) := s.table.act a
  let s := { s with table }
  some (match a, r with
    | .acquire, .credential h => { s with creds := h :: s.creds }
    | .free h, _ => { s with creds := s.creds.erase h }
    | .init .., .context answer h ssl _ _ =>
      if answer = .failed then s else { s with live := noteContext s.live h ssl }
    | .delete h, _ =>
      if h ∈ s.live.map Prod.fst then
        { s with live := s.live.filter (·.1 ≠ h), dead := h :: s.dead }
      else s
    | _, _ => s, r)

/-- Contexts and credentials of the guest. -/
def Sys.count (s : Sys) : Nat := s.live.length + s.creds.length

/-- A context handle names its own session until it is deleted, and then nothing. -/
structure Named (s : Sys) : Prop where
  names : ∀ p ∈ s.live, ∃ i, s.table.findByCtxHandle p.1 = some i ∧ (s.table.ctx i).ssl = some p.2
  gone : ∀ h ∈ s.dead, s.table.findByCtxHandle h = none

/-- A call is refused only when there are 16 contexts and credentials, and a token is stored
whole or the call fails. -/
structure Served (s : Sys) (r : Result) : Prop where
  room : r = .refused → 16 ≤ s.count
  token : ∀ answer h ssl produced token, r = .context answer h ssl produced token →
    answer ≠ .failed → produced ≠ [] → ∃ k, token = some (k, produced)

/-- The next handle is no handle the guest may have. -/
def Sys.Fresh (s : Sys) : Prop :=
  s.table.nextHandle ≠ 0 ∧ s.table.nextHandle ∉ s.dead ∧
    ∀ i, (s.table.ctx i).active → (s.table.ctx i).ctxHandle ≠ s.table.nextHandle.setWidth 64

/-- A new context gets a fresh handle, and an entry that stands for no context of the guest,
where there is one as long as there are fewer than 16 contexts and credentials. -/
def Sys.Begins (s : Sys) (cred : Option U32) : Prop :=
  s.Fresh ∧
    match cred.bind s.table.findByCredHandle with
    | some i => ∀ p ∈ s.live, (s.table.ctx i).ctxHandle ≠ p.1.setWidth 64
    | none => s.count < 16 → s.table.unused.isSome

/-- A new credential finds an entry, a new context one of its own, and a token that is not a
failure's a buffer with room for it. -/
def Meets (s : Sys) : Action → Prop
  | .acquire => s.count < 16 → s.table.unused.isSome
  | .init cred ctxIn _ output hs =>
    (s.table.continued ctxIn = none → s.Begins cred) ∧
      (hs.answer ≠ .failed → hs.chunks.flatten ≠ [] →
        ∃ b ∈ output, takesToken hs.chunks.flatten.length b ∧ hs.chunks.flatten.length ≤ b.size)
  | _ => True

instance (s : Sys) : Decidable s.Fresh := inferInstanceAs (Decidable (_ ∧ _ ∧ _))

instance (s : Sys) (cred : Option U32) : Decidable (s.Begins cred) :=
  match h : cred.bind s.table.findByCredHandle with
  | some i => decidable_of_iff (s.Fresh ∧ ∀ p ∈ s.live, (s.table.ctx i).ctxHandle ≠ p.1.setWidth 64)
      (by rw [Sys.Begins, h])
  | none => decidable_of_iff (s.Fresh ∧ (s.count < 16 → s.table.unused.isSome))
      (by rw [Sys.Begins, h])

instance (s : Sys) (a : Action) : Decidable (Meets s a) :=
  match a with
  | .acquire => inferInstanceAs (Decidable (_ → _))
  | .init .. => inferInstanceAs (Decidable ((_ → _) ∧ (_ → _ → _)))
  | .free _ => inferInstanceAs (Decidable True)
  | .delete _ => inferInstanceAs (Decidable True)

-- ---------------------------------------------------------------------------
-- The table
-- ---------------------------------------------------------------------------

/-- What holds of the entries: contexts have handles of their own, which are those of the
guest's contexts, and of no deleted one. -/
structure Coherent (ctx : Slot → Ctx Nat) (live : List (U32 × Nat)) (dead : List U32) : Prop where
  distinct : ∀ i j, (ctx i).active → (ctx j).active → (ctx i).ctxHandle = (ctx j).ctxHandle →
    (ctx i).ctxHandle ≠ 0 → i = j
  session : ∀ i, (ctx i).active → (ctx i).ssl ≠ none → (ctx i).ctxHandle ≠ 0
  names : ∀ p ∈ live, ∃ i, (ctx i).active ∧ (ctx i).ctxHandle = p.1.setWidth 64 ∧
    (ctx i).ssl = some p.2
  gone : ∀ h ∈ dead, h ≠ 0 ∧ ∀ i, (ctx i).active → (ctx i).ctxHandle ≠ h.setWidth 64

theorem widen_inj {h w : U32} (he : h.setWidth 64 = w.setWidth 64) : h = w := by
  bv_omega

theorem widen_ne {h : U32} (hne : h ≠ 0) : h.setWidth 64 ≠ 0 := fun he => hne (widen_inj he)

theorem narrow_widen (h : U32) : (h.setWidth 64).setWidth 32 = h := by
  bv_omega

section
variable {ctx : Slot → Ctx Nat} {live : List (U32 × Nat)} {dead : List U32}

theorem Coherent.named (h : Coherent s.table.ctx s.live s.dead) : Named s where
  names p hp := by
    obtain ⟨i, hi, hh, hx⟩ := h.names p hp
    have hne : (s.table.ctx i).ctxHandle ≠ 0 := h.session i hi (by simp [hx])
    have hsome : (s.table.findByCtxHandle p.1).isSome := by
      rw [Table.findByCtxHandle, List.find?_isSome]
      exact ⟨i, List.mem_finRange i, by simp [hi, hh]⟩
    obtain ⟨j, hj⟩ := Option.isSome_iff_exists.1 hsome
    have hfound := List.find?_some hj
    rw [Bool.and_eq_true, beq_iff_eq] at hfound
    obtain rfl := h.distinct i j hi hfound.1 (hh.trans hfound.2.symm) hne
    exact ⟨i, hj, hx⟩
  gone w hw := by
    rw [Table.findByCtxHandle, List.find?_eq_none]
    intro i _ hfound
    rw [Bool.and_eq_true, beq_iff_eq] at hfound
    exact (h.gone w hw).2 i hfound.1 hfound.2

/-- Only these three fields of the entries matter. -/
theorem Coherent.congr (h : Coherent ctx live dead)
    (hf : ∀ i, (ctx' i).active = (ctx i).active ∧ (ctx' i).ctxHandle = (ctx i).ctxHandle ∧
      (ctx' i).ssl = (ctx i).ssl) : Coherent ctx' live dead where
  distinct i j hi hj := by
    rw [(hf i).1] at hi
    rw [(hf j).1] at hj
    rw [(hf i).2.1, (hf j).2.1]
    exact h.distinct i j hi hj
  session i hi := by
    rw [(hf i).1] at hi
    rw [(hf i).2.1, (hf i).2.2]
    exact h.session i hi
  names p hp := by
    obtain ⟨i, hi, hh, hx⟩ := h.names p hp
    exact ⟨i, by rw [(hf i).1, hi], by rw [(hf i).2.1, hh], by rw [(hf i).2.2, hx]⟩
  gone w hw := by
    refine ⟨(h.gone w hw).1, fun i hi => ?_⟩
    rw [(hf i).1] at hi
    rw [(hf i).2.1]
    exact (h.gone w hw).2 i hi

/-- An entry that stands for no context of the guest is given another content. -/
theorem Coherent.set (h : Coherent ctx live dead)
    (hi : (ctx i).active → ∀ p ∈ live, (ctx i).ctxHandle ≠ p.1.setWidth 64)
    (hown : c.active → c.ctxHandle ≠ 0 → ∀ j, j ≠ i → (ctx j).active →
      (ctx j).ctxHandle ≠ c.ctxHandle)
    (hssl : c.active → c.ssl ≠ none → c.ctxHandle ≠ 0)
    (hdead : c.active → ∀ w ∈ dead, c.ctxHandle ≠ w.setWidth 64) :
    Coherent (Function.update ctx i c) live dead where
  distinct j k hj hk heq hne := by
    by_cases hji : j = i <;> by_cases hki : k = i
    · exact hji.trans hki.symm
    · subst hji
      rw [Function.update_self] at hj heq hne
      rw [Function.update_of_ne hki] at hk heq
      exact absurd heq.symm (hown hj hne k hki hk)
    · subst hki
      rw [Function.update_self] at hk heq
      rw [Function.update_of_ne hji] at hj heq hne
      exact absurd heq (hown hk (heq ▸ hne) j hji hj)
    · rw [Function.update_of_ne hji] at hj heq hne
      rw [Function.update_of_ne hki] at hk heq
      exact h.distinct j k hj hk heq hne
  session j hj := by
    by_cases hji : j = i
    · subst hji
      rw [Function.update_self] at hj ⊢
      exact hssl hj
    · rw [Function.update_of_ne hji] at hj ⊢
      exact h.session j hj
  names p hp := by
    obtain ⟨j, hj, hh, hx⟩ := h.names p hp
    have hji : j ≠ i := by
      rintro rfl
      exact hi hj p hp hh
    exact ⟨j, by rw [Function.update_of_ne hji]; exact ⟨hj, hh, hx⟩⟩
  gone w hw := by
    refine ⟨(h.gone w hw).1, fun j hj => ?_⟩
    by_cases hji : j = i
    · subst hji
      rw [Function.update_self] at hj ⊢
      exact hdead hj w hw
    · rw [Function.update_of_ne hji] at hj ⊢
      exact (h.gone w hw).2 j hj

/-- A context is noted. -/
theorem Coherent.note (h : Coherent ctx live dead) (hi : (ctx i).active)
    (hw : (ctx i).ctxHandle = w.setWidth 64) :
    Coherent ctx (noteContext live w (ctx i).ssl) dead := by
  unfold noteContext
  split
  · exact h
  refine ⟨h.distinct, h.session, fun p hp => ?_, h.gone⟩
  rcases List.mem_append.1 hp with hp | hp
  · obtain ⟨x, hx, rfl⟩ := Option.map_eq_some_iff.1 (Option.mem_toList.1 hp)
    exact ⟨i, hi, hw, hx⟩
  · exact h.names p hp

end

-- ---------------------------------------------------------------------------
-- One call
-- ---------------------------------------------------------------------------

/-- The entry stands for the same context. -/
def Same (c d : Ctx Nat) : Prop :=
  d.active = c.active ∧ d.ctxHandle = c.ctxHandle ∧ d.ssl = c.ssl

theorem Same.trans (h : Same c d) (h' : Same d e) : Same c e :=
  ⟨h'.1.trans h.1, h'.2.1.trans h.2.1, h'.2.2.trans h.2.2⟩

theorem feed_same (c : Ctx Nat) (input : List SecBuf) : Same c (feed c input) := by
  unfold feed
  induction input generalizing c with
  | nil => exact ⟨rfl, rfl, rfl⟩
  | cons b bs ih =>
    rw [List.foldl_cons]
    split
    · exact Same.trans ⟨rfl, rfl, rfl⟩ (ih _)
    · exact ih c

theorem write_same (c : Ctx Nat) (chunks : List (List Byte)) :
    Same c (chunks.foldl Ctx.bufWriteCb c) := by
  induction chunks generalizing c with
  | nil => exact ⟨rfl, rfl, rfl⟩
  | cons x xs ih => exact Same.trans ⟨rfl, rfl, rfl⟩ (ih _)

/-- What a handshake step does to its entry. -/
theorem shake_spec (c : Ctx Nat) (input : List SecBuf) (hs : Handshake) :
    Same c (shake c input hs).2 ∧ ((shake c input hs).1 ≠ .failed →
      (shake c input hs).1 = hs.answer ∧
        (shake c input hs).2.outBuf = hs.chunks.flatten) := by
  have hfeed : Same c (clearOut (feed c input)) := feed_same c input
  have hclear : (clearOut (feed c input)).outBuf = [] := rfl
  unfold shake
  generalize clearOut (feed c input) = d at hfeed hclear
  dsimp only
  cases d.ssl with
  | none => exact ⟨hfeed, fun h => absurd rfl h⟩
  | some x =>
    have hwrite : Same c (hs.chunks.foldl Ctx.bufWriteCb (d.pull hs.asks).2) := by
      rw [pull_eq]
      exact hfeed.trans (Same.trans ⟨rfl, rfl, rfl⟩ (write_same _ _))
    have hout : (hs.chunks.foldl Ctx.bufWriteCb (d.pull hs.asks).2).outBuf =
        hs.chunks.flatten := by
      rw [bufWriteCb_outBuf, pull_eq, hclear, List.nil_append]
    dsimp only
    split
    · exact ⟨hwrite, fun _ => ⟨rfl, hout⟩⟩
    · exact ⟨hwrite, fun _ => ⟨rfl, hout⟩⟩

/-- A token is stored whole when one of the buffers has room for it. -/
theorem storeToken_whole (hne : out ≠ []) (hb : b ∈ output) (ht : takesToken out.length b)
    (hle : out.length ≤ b.size) : ∃ k, storeToken out output = some (k, out) := by
  have hsome : (output.findIdx? (takesToken out.length)).isSome := by
    rw [List.findIdx?_isSome, List.any_eq_true]
    exact ⟨b, hb, ht⟩
  obtain ⟨k, hk⟩ := Option.isSome_iff_exists.1 hsome
  have hsmall : out.length % 2 ^ 32 = out.length := Nat.mod_eq_of_lt (Nat.lt_of_le_of_lt hle b.small)
  refine ⟨k, ?_⟩
  rw [storeToken, if_pos (List.length_pos_iff.2 hne), hk, Option.map_some, hsmall, List.take_length]

/-- What the call does in the entry of its context. -/
theorem proceed_spec {t : Table} (input output : List SecBuf) (h : Coherent t.ctx live dead)
    (hi : (t.ctx i).active) (hw : (t.ctx i).ctxHandle = w.setWidth 64) :
    ∃ answer produced token t', t.proceed i input output hs =
        (.context answer w (t.ctx i).ssl produced token, t') ∧
      Coherent t'.ctx live dead ∧ Coherent t'.ctx (noteContext live w (t.ctx i).ssl) dead ∧
      (answer ≠ .failed → answer = hs.answer ∧ produced = hs.chunks.flatten ∧
        token = storeToken produced output) := by
  obtain ⟨hsame, hans⟩ := shake_spec (t.ctx i) input hs
  unfold Table.proceed
  generalize shake (t.ctx i) input hs = r at hsame hans
  obtain ⟨answer, c⟩ := r
  have hctx : Coherent (Function.update t.ctx i c) live dead := by
    refine h.congr fun j => ?_
    by_cases hji : j = i
    · subst hji
      rw [Function.update_self]
      exact hsame
    · rw [Function.update_of_ne hji]
      exact ⟨rfl, rfl, rfl⟩
  refine ⟨answer, c.outBuf, storeToken c.outBuf output, { t with ctx := Function.update t.ctx i c },
    ?_, hctx, ?_, fun hne => ⟨(hans hne).1, (hans hne).2, rfl⟩⟩
  · dsimp only
    rw [hsame.2.1, hsame.2.2, hw, narrow_widen]
  · have hnote := hctx.note (i := i) (w := w) (by rw [Function.update_self, hsame.1, hi])
      (by rw [Function.update_self, hsame.2.1, hw])
    rwa [Function.update_self, hsame.2.2] at hnote

theorem unused_spec {t : Table} (h : t.unused = some i) : (t.ctx i).active = false := by
  have hfound := List.find?_some h
  simpa using hfound

theorem found_spec {t : Table} (h : t.findByCtxHandle w = some i) :
    (t.ctx i).active ∧ (t.ctx i).ctxHandle = w.setWidth 64 := by
  have hfound := List.find?_some h
  rwa [Bool.and_eq_true, beq_iff_eq] at hfound

theorem cred_spec {t : Table} (h : t.findByCredHandle w = some i) : (t.ctx i).active := by
  have hfound := List.find?_some h
  exact (Bool.and_eq_true_iff.1 hfound).1

/-- A credential is put into an entry that was not in use. -/
theorem acquire_spec {t : Table} (h : Coherent t.ctx live dead)
    (ha : t.acquireCredentialsHandle = some (w, t')) : Coherent t'.ctx live dead := by
  obtain ⟨⟨i, t₁⟩, ht₁, ha⟩ := Option.map_eq_some_iff.1 ha
  obtain ⟨j, hj, heq⟩ := Option.map_eq_some_iff.1 ht₁
  cases heq
  cases ha
  have hinactive := unused_spec hj
  dsimp only
  rw [Function.update_idem, Function.update_self]
  refine h.set (fun hi => ?_) (fun _ h0 => absurd rfl h0) (fun _ hn => absurd rfl hn)
    fun _ w hw => (widen_ne (h.gone w hw).1).symm
  rw [hinactive] at hi
  cases hi

/-- A context begins in an entry of its own. -/
theorem begin_spec {s : Sys} (h : Coherent s.table.ctx s.live s.dead) (hb : s.Begins cred)
    (ht : s.table.begin cred = some (i, t')) :
    Coherent t'.ctx s.live s.dead ∧ (t'.ctx i).active ∧
      (t'.ctx i).ctxHandle = s.table.nextHandle.setWidth 64 := by
  obtain ⟨⟨hne, hdead, hown⟩, hslot⟩ := hb
  have hset : ∀ (i : Slot) (c : Ctx Nat),
      ((s.table.ctx i).active → ∀ p ∈ s.live, (s.table.ctx i).ctxHandle ≠ p.1.setWidth 64) →
      c.ctxHandle = s.table.nextHandle.setWidth 64 →
      Coherent (Function.update s.table.ctx i c) s.live s.dead := by
    intro i c hi hc
    refine h.set hi (fun _ _ j _ hj => ?_) (fun _ _ => ?_) fun _ w hw he => ?_
    · rw [hc]
      exact hown j hj
    · rw [hc]
      exact widen_ne hne
    · rw [hc] at he
      exact hdead (widen_inj he ▸ hw)
  unfold Table.begin at ht
  cases hcred : cred.bind s.table.findByCredHandle with
  | some j =>
    rw [hcred] at ht hslot
    obtain ⟨w, -, hw⟩ := Option.bind_eq_some_iff.1 hcred
    cases ht
    dsimp only
    rw [Function.update_self]
    exact ⟨hset _ _ (fun _ => hslot) rfl, cred_spec hw, rfl⟩
  | none =>
    rw [hcred] at ht
    obtain ⟨⟨j, t₁⟩, ht₁, heq⟩ := Option.map_eq_some_iff.1 ht
    obtain ⟨k, hk, hkeq⟩ := Option.map_eq_some_iff.1 ht₁
    cases hkeq
    cases heq
    have hinactive := unused_spec hk
    dsimp only
    rw [Function.update_idem, Function.update_self, Function.update_self]
    refine ⟨hset _ _ (fun hi => ?_) rfl, rfl, rfl⟩
    rw [hinactive] at hi
    cases hi

/-- There is no entry for a new context. -/
theorem begin_none {t : Table} (h : t.begin cred = none) :
    cred.bind t.findByCredHandle = none ∧ t.unused = none := by
  unfold Table.begin at h
  cases hcred : cred.bind t.findByCredHandle with
  | some j =>
    rw [hcred] at h
    cases h
  | none =>
    rw [hcred, Option.map_eq_none_iff] at h
    exact ⟨rfl, Option.map_eq_none_iff.1 h⟩

theorem Coherent.mono (h : Coherent ctx live dead) (hl : ∀ p ∈ live', p ∈ live) :
    Coherent ctx live' dead :=
  ⟨h.distinct, h.session, fun p hp => h.names p (hl p hp), h.gone⟩

/-- After a deletion the other contexts keep their sessions, and the handle names nothing. -/
theorem delete_spec {t : Table} (h : Coherent t.ctx live dead) (w : U32) :
    Coherent (t.deleteSecurityContext w).ctx (live.filter (·.1 ≠ w)) dead ∧
      (w ∈ live.map Prod.fst →
        w ≠ 0 ∧ ∀ i, ((t.deleteSecurityContext w).ctx i).active →
          ((t.deleteSecurityContext w).ctx i).ctxHandle ≠ w.setWidth 64) := by
  have hrest : Coherent t.ctx (live.filter (·.1 ≠ w)) dead :=
    h.mono fun p hp => (List.mem_filter.1 hp).1
  unfold Table.deleteSecurityContext
  cases hfind : t.findByCtxHandle w with
  | none =>
    refine ⟨hrest, fun hw => ?_⟩
    obtain ⟨p, hp, rfl⟩ := List.mem_map.1 hw
    obtain ⟨i, hi, hh, -⟩ := h.names p hp
    have hno := List.find?_eq_none.1 hfind i (List.mem_finRange i)
    simp [hi, hh] at hno
  | some i =>
    obtain ⟨hi, hh⟩ := found_spec hfind
    dsimp only
    constructor
    · refine hrest.set (fun _ p hp he => ?_) nofun nofun nofun
      have hne := (List.mem_filter.1 hp).2
      exact absurd (widen_inj (hh.symm.trans he)).symm (by simpa using hne)
    · intro hw
      obtain ⟨p, hp, rfl⟩ := List.mem_map.1 hw
      obtain ⟨j, hj, hhj, hx⟩ := h.names p hp
      have hnz : (t.ctx j).ctxHandle ≠ 0 := h.session j hj (by simp [hx])
      refine ⟨fun h0 => hnz (by rw [hhj, h0]; rfl), fun k hk he => ?_⟩
      by_cases hki : k = i
      · subst hki
        rw [Function.update_self] at hk
        cases hk
      · rw [Function.update_of_ne hki] at hk he
        exact hki (h.distinct k i hk hi (he.trans hh.symm) (he.symm ▸ hhj ▸ hnz))

-- ---------------------------------------------------------------------------
-- The law
-- ---------------------------------------------------------------------------

def Sys.Coherent (s : Sys) : Prop := Contexts.Coherent s.table.ctx s.live s.dead

theorem served_other (hr : r ≠ .refused) (hc : ∀ answer h ssl produced token,
    r ≠ .context answer h ssl produced token) : Served s r :=
  ⟨fun h => absurd h hr, fun answer h ssl produced token he => (hc answer h ssl produced token he).elim⟩

/-- The call in an entry keeps the notes right and stores its token. -/
theorem proceed_step {s : Sys} {t : Table} {w : U32} {hs : Handshake}
    (h : Contexts.Coherent t.ctx s.live s.dead)
    (hi : (t.ctx i).active) (hw : (t.ctx i).ctxHandle = w.setWidth 64)
    (htoken : hs.answer ≠ .failed → hs.chunks.flatten ≠ [] →
      ∃ b ∈ output, takesToken hs.chunks.flatten.length b ∧ hs.chunks.flatten.length ≤ b.size)
    (hact : s.table.act (.init cred ctxIn input output hs) = t.proceed i input output hs)
    (hstep : s.step (.init cred ctxIn input output hs) = some (s', r)) :
    s'.Coherent ∧ Served s r := by
  obtain ⟨answer, produced, token, t', hp, hkeep, hnote, hans⟩ :=
    proceed_spec input output h hi hw
  rw [hp] at hact
  simp only [Sys.step, hact, Option.some.injEq, Prod.mk.injEq] at hstep
  obtain ⟨rfl, rfl⟩ := hstep
  constructor
  · split
    · exact hkeep
    · exact hnote
  · refine ⟨nofun, fun answer' h' ssl' produced' token' he hne hsome => ?_⟩
    cases he
    obtain ⟨rfl, rfl, rfl⟩ := hans hne
    obtain ⟨b, hb, htakes, hle⟩ := htoken hne hsome
    exact storeToken_whole hsome hb htakes hle

theorem step_coherent (h : s.Coherent) (hm : Meets s a) (hs : s.step a = some (s', r)) :
    s'.Coherent ∧ Served s r := by
  cases a with
  | acquire =>
    cases hacq : s.table.acquireCredentialsHandle with
    | none =>
      have hact : s.table.act .acquire = (.refused, s.table) := by rw [Table.act, hacq]
      simp only [Sys.step, hact] at hs
      cases hs
      refine ⟨h, fun _ => ?_, nofun⟩
      by_contra hcount
      have hsome := hm (Nat.lt_of_not_le hcount)
      rw [Table.acquireCredentialsHandle, Option.map_eq_none_iff, Table.allocCtx,
        Option.map_eq_none_iff] at hacq
      rw [hacq] at hsome
      cases hsome
    | some x =>
      obtain ⟨w, t'⟩ := x
      have hact : s.table.act .acquire = (.credential w, t') := by rw [Table.act, hacq]
      simp only [Sys.step, hact] at hs
      cases hs
      exact ⟨acquire_spec h hacq, served_other nofun nofun⟩
  | free w =>
    cases hs
    exact ⟨h, served_other nofun nofun⟩
  | init cred ctxIn input output hs' =>
    obtain ⟨hbegin, htoken⟩ := hm
    cases hcont : s.table.continued ctxIn with
    | some i =>
      obtain ⟨w, -, hw⟩ := Option.bind_eq_some_iff.1 hcont
      obtain ⟨hi, hh⟩ := found_spec hw
      exact proceed_step h hi hh htoken
        (by rw [Table.act, Table.initializeSecurityContext, hcont]) hs
    | none =>
      have hb := hbegin hcont
      cases hbeg : s.table.begin cred with
      | none =>
        obtain ⟨hcred, hfull⟩ := begin_none hbeg
        have hact : s.table.act (.init cred ctxIn input output hs') = (.refused, s.table) := by
          rw [Table.act, Table.initializeSecurityContext, hcont, hbeg]
        simp only [Sys.step, hact] at hs
        cases hs
        refine ⟨h, fun _ => ?_, nofun⟩
        by_contra hcount
        have hslot := hb.2
        rw [hcred] at hslot
        have hsome := hslot (Nat.lt_of_not_le hcount)
        rw [hfull] at hsome
        cases hsome
      | some x =>
        obtain ⟨i, t'⟩ := x
        obtain ⟨hkeep, hi, hh⟩ := begin_spec h hb hbeg
        exact proceed_step hkeep hi hh htoken
          (by rw [Table.act, Table.initializeSecurityContext, hcont, hbeg]) hs
  | delete w =>
    obtain ⟨hkeep, hgone⟩ := delete_spec h w
    simp only [Sys.step, Table.act, Option.some.injEq, Prod.mk.injEq] at hs
    obtain ⟨rfl, rfl⟩ := hs
    refine ⟨?_, served_other nofun nofun⟩
    split
    case isTrue hw => exact ⟨hkeep.distinct, hkeep.session, hkeep.names, fun v hv => by
        rcases List.mem_cons.1 hv with rfl | hv
        · exact hgone hw
        · exact hkeep.gone v hv⟩
    case isFalse hw =>
      -- A handle that was not returned, or that of a call that has failed.
      refine hkeep.mono fun p hp => List.mem_filter.2 ⟨hp, ?_⟩
      have hne : p.1 ≠ w := fun he => hw (he ▸ List.mem_map_of_mem hp)
      simpa using hne

theorem start_coherent : Sys.start.Coherent where
  distinct _ _ hi := by cases hi
  session _ hi := by cases hi
  names _ hp := by cases hp
  gone _ hw := by cases hw

/-- In a run of such calls every context handle names the session it was given until it is
deleted, and nothing after, no call is refused for want of an entry below 16, and no token is
lost. -/
theorem contexts_law (h : Run Sys.step Meets .start tr s) :
    Named s ∧ ∀ a s' r, Meets s a → s.step a = some (s', r) → Named s' ∧ Served s r := by
  have hs : s.Coherent := h.invariant (P := fun _ s => s.Coherent) start_coherent
    fun hs hm h => (step_coherent hs hm h).1
  refine ⟨hs.named, fun a s' r hm ha => ?_⟩
  obtain ⟨hs', hserved⟩ := step_coherent hs hm ha
  exact ⟨hs'.named, hserved⟩

/-- `SSLHandshake` writes its first flight and waits for the answer. -/
def hello : Handshake := ⟨[], [[0x16, 3, 3]], .wouldBlock⟩

/-- A token buffer of four bytes. -/
def tokenBuf : SecBuf := ⟨2, 0x40000, [0, 0, 0, 0], by decide⟩

/-- One credential, its context, the context deleted. -/
theorem contexts_law_one : ∃ tr s, Run Sys.step Meets .start tr s ∧
    s.live = [] ∧ s.dead = [0x9001] ∧ Named s := by
  have hexec : (exec Sys.step Meets .start [.acquire,
      .init (some 0x9000) none [] [tokenBuf] hello,
      .init (some 0x9000) (some 0x9001) [tokenBuf] [tokenBuf] hello,
      .delete 0x9001]).any fun r => decide (r.2.live = [] ∧ r.2.dead = [0x9001]) := by
    decide +kernel
  obtain ⟨tr, s, hr, hp⟩ := Run.of_exec_any hexec
  obtain ⟨hlive, hdead⟩ := of_decide_eq_true hp
  exact ⟨tr, s, hr, hlive, hdead, (contexts_law hr).1⟩

/-- The second context of a credential takes the entry of the first, whose handle then names
nothing. -/
theorem second_replaces : ¬ ∀ tr s, Run Sys.step anyStep .start tr s → Named s := by
  intro hall
  have hexec : (exec Sys.step anyStep .start [.acquire,
      .init (some 0x9000) none [] [tokenBuf] hello,
      .init (some 0x9000) none [] [tokenBuf] hello]).any fun r =>
        decide (0x9001 ∈ r.2.live.map Prod.fst ∧ r.2.table.findByCtxHandle 0x9001 = none) := by
    decide +kernel
  obtain ⟨tr, s, hr, hp⟩ := Run.of_exec_any hexec
  obtain ⟨hlive, hnone⟩ := of_decide_eq_true hp
  obtain ⟨p, hmem, heq⟩ := List.mem_map.1 hlive
  obtain ⟨i, hi, -⟩ := (hall tr s hr).names p hmem
  rw [heq, hnone] at hi
  cases hi

end WineGlass.Contexts
