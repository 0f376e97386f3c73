import WineGlass.Graphics.Lifetimes

/-!
# Runs of COM calls

What the guest is promised about its objects' lifetimes, and the calls after which it still holds.
-/

namespace WineGlass.Com

open Fields Relation Runs

-- ---------------------------------------------------------------------------
-- The promise and its condition
-- ---------------------------------------------------------------------------

structure Lifetimes (s : Sys) : Prop where
  /-- A backend object is released once, and is when all objects made from it have no reference. -/
  once : s.log.Pairwise fun x y => ∀ h, x = .release h → y ≠ .release h
  all : ∀ p h, .wrap p h ∈ s.log → (∀ q, .wrap q h ∈ s.log → s.Dead q) → .release h ∈ s.log
  /-- Not before, and it is not used afterwards. -/
  after : ∀ p h, .wrap p h ∈ s.log → .release h ∈ s.log → s.Dead p
  unused : s.log.Pairwise fun x y => ∀ h, x = .release h → y ≠ .pass h
  gone : ∀ o ∈ s.objs, o.refcount = 0 → ∀ m, s.Headers m → s.comFromThis m o.guest = none
  creation : ∀ r ∈ s.asked, if r.1 < maxCom then r.2 ≠ 0 ∧ ¬ Failed s.ret else Failed s.ret

/-- A method makes an object. -/
def makes (m : Mem) (iface : Iface) (method : Nat) (args : Nat → Nat) (o : ComObj) : Bool :=
  if method ≤ 2 then method = 0 ∧ asksDxgi m o args = true
  else if iface.methodCount ≤ method then false
  else
    match iface with
    | .d3d11Device =>
      match deviceMaking m args method with
      | some _ => true
      | none => method = 40 ∧ o.aux = 0
    | .d3d11Context | .d3d11Child => false
    | _ => (dxgiMaking args o.iface method).isSome

/-- The allocator's requests for the objects that a call makes. -/
def Sys.creations (s : Sys) (i : Input) : List Nat :=
  match i.act with
  | .factory _ => [0]
  | .device _ ctxOut scOut =>
    if i.env.available = true ∧ i.env.gpu 0 = false then []
    else 0 :: ((if ctxOut = 0 then [] else [1]) ++ if scOut = 0 then [] else [2])
  | .call iface method args =>
    match s.comFromThis i.mem (args 0) with
    | some (_, o) => if makes i.mem iface method args o then [0] else []
    | none => []

/-- No call gives a last reference back, and each creation has an entry and memory. -/
structure Careful (s : Sys) (i : Input) : Prop where
  last : ∀ iface args, i.act = .call iface 2 args → ∀ k o,
    s.comFromThis i.mem (args 0) = some (k, o) → o.refcount ≠ 1
  room : ∀ j < (s.creations i).length, s.objs.length + j < maxCom
  memory : ∀ k ∈ s.creations i, i.env.alloc k ≠ 0

-- ---------------------------------------------------------------------------
-- Creations
-- ---------------------------------------------------------------------------

/-- The requests at `gs` were answered one after another. -/
structure Asks (s s' : Sys) (gs : List Nat) (rs : List (Nat × Nat)) : Prop where
  asked : s'.asked = s.asked ++ rs
  count : rs.length = gs.length
  given : (∀ r ∈ rs, r.2 ≠ 0) ↔ (∀ g ∈ gs, g ≠ 0) ∧ ∀ j < gs.length, s.objs.length + j < maxCom
  live : ∀ r ∈ rs, r.2 ≠ 0 → r.1 < maxCom
  grown : (∀ r ∈ rs, r.2 ≠ 0) → s'.objs.length = s.objs.length + gs.length

theorem Asks.none (ha : s'.asked = s.asked) (hl : s'.objs.length = s.objs.length) :
    Asks s s' [] [] where
  asked := by simp [ha]
  count := rfl
  given := by simp
  live := by simp
  grown _ := hl

theorem Asks.trans (h : Asks s s' gs rs) (h' : Asks s' s'' gs' rs') :
    Asks s s'' (gs ++ gs') (rs ++ rs') where
  asked := by rw [h'.asked, h.asked, List.append_assoc]
  count := by rw [List.length_append, List.length_append, h.count, h'.count]
  given := by
    rw [List.forall_mem_append, List.forall_mem_append, h'.given]
    constructor
    · rintro ⟨hr, hg', hj'⟩
      rw [h.grown hr] at hj'
      obtain ⟨hg, hj⟩ := h.given.1 hr
      refine ⟨⟨hg, hg'⟩, fun j hlt => ?_⟩
      rw [List.length_append] at hlt
      by_cases hjl : j < gs.length
      · exact hj j hjl
      · have hrest := hj' (j - gs.length) (by omega)
        omega
    · rintro ⟨⟨hg, hg'⟩, hj⟩
      rw [List.length_append] at hj
      have hr := h.given.2 ⟨hg, fun j hlt => hj j (by omega)⟩
      refine ⟨hr, hg', fun j hlt => ?_⟩
      rw [h.grown hr]
      have hrest := hj (gs.length + j) (by omega)
      omega
  live := List.forall_mem_append.2 ⟨h.live, h'.live⟩
  grown hr := by
    rw [List.forall_mem_append] at hr
    rw [h'.grown hr.2, h.grown hr.1, List.length_append, Nat.add_assoc]

abbrev Asked (s s' : Sys) (gs : List Nat) : Prop := ∃ rs, Asks s s' gs rs

theorem Asked.none (ha : s'.asked = s.asked) (hl : s'.objs.length = s.objs.length) :
    Asked s s' [] := ⟨[], .none ha hl⟩

theorem Asked.trans (h : Asked s s' gs) (h' : Asked s' s'' gs') : Asked s s'' (gs ++ gs') := by
  obtain ⟨rs, h⟩ := h
  obtain ⟨rs', h'⟩ := h'
  exact ⟨rs ++ rs', h.trans h'⟩

theorem Asked.after (h : Asked s s' gs) (h' : Asked s' s'' []) : Asked s s'' gs := by
  have hall := h.trans h'
  rwa [List.append_nil] at hall

theorem Asked.ret (h : Asked s s' gs) (r : Nat) : Asked s { s' with ret := r } gs :=
  h.after (.none rfl rfl)

theorem live_le (s : Sys) : s.live ≤ s.objs.length := List.countP_le_length

theorem comNew_asked (s : Sys) (m : Mem) (iface : Iface) (backend : Option Handle) (g : Nat) :
    Asked s (s.comNew m iface backend g).1 [g] := by
  have hlive := live_le s
  by_cases hroom : Sys.Room s g
  · rw [comNew_room hroom]
    obtain ⟨hlen, hg⟩ := hroom
    exact ⟨[(s.live, g)], ⟨rfl, rfl, by simp [hg, hlen], by simp; omega, by simp⟩⟩
  · rw [comNew_full hroom]
    refine ⟨[(s.live, 0)], ⟨rfl, rfl, ?_, by simp, by simp⟩⟩
    constructor
    · intro h
      exact absurd rfl (h (s.live, 0) List.mem_cons_self)
    · rintro ⟨hg, hj⟩
      exact absurd ⟨hj 0 Nat.one_pos, hg g List.mem_cons_self⟩ hroom

theorem putPtr_asked (s : Sys) (out p : Nat) : Asked s (s.putPtr out p) [] := by
  unfold Sys.putPtr
  split <;> exact .none rfl rfl

theorem gpuMake_asked (s : Sys) (ok : Bool) : Asked s (s.gpuMake ok).1 [] := by
  cases ok <;> exact .none rfl rfl

theorem update_asked (s : Sys) (k : Nat) (f : ComObj → ComObj) : Asked s (s.update k f) [] :=
  .none rfl (List.length_modify ..)

theorem enter_asked (s : Sys) (m : Mem) (k : Making) (backend res : Option Handle)
    (args : Nat → Nat) (e : Env) : Asked s (s.enter m k backend res args e) [e.alloc 0] := by
  unfold Sys.enter
  have hnew := comNew_asked s m k.iface backend (e.alloc 0)
  generalize s.comNew m k.iface backend (e.alloc 0) = r at hnew ⊢
  obtain ⟨s₁, m₁, g⟩ := r
  refine Asked.after ?_ (putPtr_asked ..)
  dsimp only at hnew ⊢
  cases s₁.comFromThis m₁ g with
  | none => exact hnew
  | some r => exact hnew.after ((update_asked ..).after (.none rfl rfl))

theorem create_asked (s : Sys) (m : Mem) (o : ComObj) (k : Making) (args : Nat → Nat) (e : Env) :
    Asked s (s.create m o k args e) [e.alloc 0] := by
  unfold Sys.create Sys.backendFor
  cases k.source with
  | null | shared | same => exact enter_asked ..
  | made | wrapped =>
    exact (Asked.none rfl rfl : Asked s (s.pass _) []).trans
      ((gpuMake_asked ..).trans (enter_asked ..))

theorem immediate_asked (s : Sys) (m : Mem) (k : Nat) (o : ComObj) (out : Nat) (e : Env) :
    Asked s (s.immediate m k o out e) (if o.aux = 0 then [e.alloc 0] else []) := by
  unfold Sys.immediate
  by_cases haux : o.aux = 0
  · rw [if_pos haux, if_pos haux]
    have hnew := comNew_asked s m .d3d11Context o.backend (e.alloc 0)
    generalize s.comNew m .d3d11Context o.backend (e.alloc 0) = r at hnew ⊢
    exact (hnew.after (update_asked ..)).after (putPtr_asked ..)
  · rw [if_neg haux, if_neg haux]
    exact putPtr_asked ..

theorem withContext_asked (s : Sys) (m : Mem) (dev : Handle) (d out : Nat) (e : Env) :
    Asked s (s.withContext m dev d out e) (if out = 0 then [] else [e.alloc 1]) := by
  unfold Sys.withContext
  by_cases hout : out = 0
  · rw [if_pos hout, if_pos hout]
    exact .none rfl rfl
  · rw [if_neg hout, if_neg hout]
    have hnew := comNew_asked s m .d3d11Context (some dev) (e.alloc 1)
    generalize s.comNew m .d3d11Context (some dev) (e.alloc 1) = r at hnew ⊢
    obtain ⟨s₁, m₁, ctx⟩ := r
    dsimp only at hnew ⊢
    refine Asked.after ?_ (putPtr_asked ..)
    cases s.comFromThis m d with
    | none => exact hnew
    | some r => exact hnew.after (update_asked ..)

theorem withSwapchain_asked (s : Sys) (m : Mem) (dev : Handle) (out : Nat) (e : Env) :
    Asked s (s.withSwapchain m dev out e) (if out = 0 then [] else [e.alloc 2]) := by
  unfold Sys.withSwapchain
  by_cases hout : out = 0
  · rw [if_pos hout, if_pos hout]
    exact .none rfl rfl
  · rw [if_neg hout, if_neg hout]
    have hmake : Asked s ((s.pass [some dev]).gpuMake (e.gpu 1)).1 [] :=
      (Asked.none rfl rfl : Asked s (s.pass _) []).trans (gpuMake_asked ..)
    generalize (s.pass [some dev]).gpuMake (e.gpu 1) = r at hmake ⊢
    exact (hmake.trans (comNew_asked r.1 m .dxgiSwapchain r.2 (e.alloc 2))).after (putPtr_asked ..)

theorem context_asked (s : Sys) (m : Mem) (o : ComObj) (method : Nat) (args : Nat → Nat) (e : Env) :
    Asked s (s.context m o method args e) [] := by
  unfold Sys.context Sys.map Sys.unmap
  split
  · split
    · split
      · exact update_asked ..
      · exact .none rfl rfl
    · exact .none rfl rfl
  · split
    · split <;> exact .none rfl rfl
    · exact .none rfl rfl
  · split <;> exact .none rfl rfl

theorem child_asked (s : Sys) (m : Mem) (o : ComObj) (method : Nat) (args : Nat → Nat) :
    Asked s (s.child m o method args) [] := by
  unfold Sys.child
  split
  · dsimp only
    split
    · exact (putPtr_asked ..).trans (update_asked ..)
    · exact putPtr_asked ..
  · exact .none rfl rfl

theorem release_asked (s : Sys) (k : Nat) (o : ComObj) : Asked s (s.release k o) [] := by
  unfold Sys.release
  dsimp only
  split
  · split
    · exact ((update_asked s k _).ret _).after ((update_asked ..).after (.none rfl rfl))
    · exact (update_asked s k _).ret _
  · exact (update_asked s k _).ret _

-- ---------------------------------------------------------------------------
-- The creations of a call
-- ---------------------------------------------------------------------------

theorem iunknown_asked (s : Sys) (m : Mem) (k : Nat) (o : ComObj) (method : Nat) (args : Nat → Nat)
    (e : Env) : Asked s (s.iunknown m k o method args e)
      (if method = 0 ∧ asksDxgi m o args = true then [e.alloc 0] else []) := by
  match method with
  | 0 =>
    unfold Sys.iunknown
    cases hd : asksDxgi m o args with
    | true => exact (create_asked s m o dxgiSide args e).ret _
    | false =>
      exact ((update_asked s k _).trans (putPtr_asked (s.addRef k) (args 2) o.guest)).ret _
  | 1 => exact (update_asked s k _).ret _
  | n + 2 =>
    rw [if_neg (fun h => absurd h.1 (Nat.succ_ne_zero _))]
    exact release_asked s k o

theorem dxgi_asked (s : Sys) (m : Mem) (o : ComObj) (method : Nat) (args : Nat → Nat) (e : Env) :
    Asked s (s.dxgi m o method args e)
      (if (dxgiMaking args o.iface method).isSome = true then [e.alloc 0] else []) := by
  unfold Sys.dxgi
  cases dxgiMaking args o.iface method with
  | some k => exact (create_asked s m o k args e).ret _
  | none =>
    dsimp only
    split <;> exact .none rfl rfl

theorem gpuDevice_asked (s : Sys) (e : Env) : Asked s (s.gpuDevice e).1 [] := by
  obtain ⟨n, -, hs, -⟩ := gpuDevice_cases s e
  rw [hs]
  exact .none rfl rfl

theorem factory_asked (s : Sys) (m : Mem) (out : Nat) (e : Env) :
    Asked s (s.createDXGIFactory m out e) [e.alloc 0] := by
  unfold Sys.createDXGIFactory
  have hdev := gpuDevice_asked s e
  generalize s.gpuDevice e = r at hdev ⊢
  exact ((hdev.trans (comNew_asked r.1 m .dxgiFactory r.2 (e.alloc 0))).after (putPtr_asked ..)).ret _

theorem gpuDevice_none (s : Sys) (e : Env) :
    (s.gpuDevice e).2 = none ↔ e.available = true ∧ e.gpu 0 = false := by
  unfold Sys.gpuDevice Sys.gpuMake
  cases e.available <;> cases e.gpu 0 <;> simp

theorem device_asked (s : Sys) (m : Mem) (devOut ctxOut scOut : Nat) (e : Env)
    (hdev : ¬ (e.available = true ∧ e.gpu 0 = false)) :
    Asked s (s.createDevice m devOut ctxOut scOut e) (e.alloc 0 ::
      ((if ctxOut = 0 then [] else [e.alloc 1]) ++ if scOut = 0 then [] else [e.alloc 2])) ∧
    (s.createDevice m devOut ctxOut scOut e).ret = sOk := by
  unfold Sys.createDevice
  have hmake := gpuDevice_asked s e
  rw [← gpuDevice_none s e] at hdev
  generalize s.gpuDevice e = r at hmake hdev ⊢
  obtain ⟨s₁, dev⟩ := r
  cases dev with
  | none => exact absurd rfl hdev
  | some dev =>
    have hnew := hmake.trans (comNew_asked s₁ m .d3d11Device (some dev) (e.alloc 0))
    dsimp only at hnew ⊢
    generalize s₁.comNew m .d3d11Device (some dev) (e.alloc 0) = q at hnew ⊢
    have hall := (hnew.after (putPtr_asked q.1 devOut q.2.2)).trans
      ((withContext_asked _ q.2.1 dev q.2.2 ctxOut e).trans
        (withSwapchain_asked _ q.2.1 dev scOut e))
    exact ⟨hall.ret sOk, rfl⟩

/-- What a method asks for, and that it succeeds if it does. -/
theorem dispatch_asked (s : Sys) (m : Mem) (iface : Iface) (method : Nat) (args : Nat → Nat) (e : Env)
    (hf : s.comFromThis m (args 0) = some (k, o)) :
    Asked s (s.dispatch m iface method args e)
      (if makes m iface method args o = true then [e.alloc 0] else []) ∧
    (makes m iface method args o = true → (s.dispatch m iface method args e).ret = sOk) := by
  unfold Sys.dispatch makes
  rw [hf]
  dsimp only
  by_cases hlow : method ≤ 2
  · rw [if_pos hlow, if_pos hlow]
    refine ⟨?_, fun hm => ?_⟩
    · simp only [decide_eq_true_eq]
      exact iunknown_asked s m k o method args e
    · obtain ⟨rfl, hd⟩ := of_decide_eq_true hm
      rw [Sys.iunknown, if_pos hd]
  · rw [if_neg hlow, if_neg hlow]
    by_cases hcount : iface.methodCount ≤ method
    · rw [if_pos hcount, if_pos hcount]
      exact ⟨.none rfl rfl, fun h => Bool.noConfusion h⟩
    · rw [if_neg hcount, if_neg hcount]
      have hdxgi : Asked s (s.dxgi m o method args e)
            (if (dxgiMaking args o.iface method).isSome = true then [e.alloc 0] else []) ∧
          ((dxgiMaking args o.iface method).isSome = true → (s.dxgi m o method args e).ret = sOk) := by
        refine ⟨dxgi_asked s m o method args e, fun h => ?_⟩
        unfold Sys.dxgi
        obtain ⟨k, hk⟩ := Option.isSome_iff_exists.1 h
        rw [hk]
      cases iface with
      | d3d11Device =>
        unfold Sys.device
        cases deviceMaking m args method with
        | some k => exact ⟨(create_asked s m o k args e).ret _, fun _ => rfl⟩
        | none =>
          by_cases h40 : method = 40
          · have haux : decide (method = 40 ∧ o.aux = 0) = decide (o.aux = 0) := by simp [h40]
            dsimp only
            rw [haux, if_pos h40]
            refine ⟨?_, fun _ => rfl⟩
            simp only [decide_eq_true_eq]
            exact (immediate_asked s m k o (args 1) e).ret sOk
          · have hno : decide (method = 40 ∧ o.aux = 0) = false := by simp [h40]
            dsimp only
            rw [hno, if_neg h40]
            exact ⟨.none rfl rfl, fun h => Bool.noConfusion h⟩
      | d3d11Context =>
        exact ⟨(context_asked s m o method args e).ret _, fun h => Bool.noConfusion h⟩
      | d3d11Child => exact ⟨(child_asked s m o method args).ret _, fun h => Bool.noConfusion h⟩
      | dxgiFactory | dxgiAdapter | dxgiOutput | dxgiSwapchain | dxgiDevice => exact hdxgi

/-- A call makes its requests one after another, and succeeds if it makes any. -/
theorem step_asked (s : Sys) (i : Input) :
    Asked { s with asked := [] } (s.step i) ((s.creations i).map i.env.alloc) ∧
      (s.creations i ≠ [] → (s.step i).ret = sOk) := by
  unfold Sys.step Sys.creations
  cases i.act with
  | factory out => exact ⟨factory_asked .., fun _ => rfl⟩
  | device devOut ctxOut scOut =>
    by_cases hdev : i.env.available = true ∧ i.env.gpu 0 = false
    · simp only [if_pos hdev]
      refine ⟨?_, fun h => absurd rfl h⟩
      have hnone := (gpuDevice_none { s with asked := [] } i.env).2 hdev
      have hmake := gpuDevice_asked { s with asked := [] } i.env
      unfold Sys.createDevice
      generalize Sys.gpuDevice { s with asked := [] } i.env = r at hnone hmake ⊢
      obtain ⟨s₁, dev⟩ := r
      subst hnone
      exact hmake.ret _
    · simp only [if_neg hdev]
      obtain ⟨hasked, hret⟩ := device_asked { s with asked := [] } i.mem devOut ctxOut scOut i.env hdev
      refine ⟨?_, fun _ => hret⟩
      rw [List.map_cons, List.map_append]
      convert hasked using 3 <;> split <;> rfl
  | call iface method args =>
    dsimp only
    cases hf : s.comFromThis i.mem (args 0) with
    | none =>
      have hf' : Sys.comFromThis { s with asked := [] } i.mem (args 0) = none := hf
      refine ⟨?_, fun h => absurd rfl h⟩
      unfold Sys.dispatch
      rw [hf']
      exact .none rfl rfl
    | some r =>
      obtain ⟨k, o⟩ := r
      have hf' : Sys.comFromThis { s with asked := [] } i.mem (args 0) = some (k, o) := hf
      obtain ⟨hasked, hret⟩ := dispatch_asked { s with asked := [] } i.mem iface method args i.env hf'
      dsimp only
      cases hm : makes i.mem iface method args o with
      | true =>
        rw [hm] at hasked hret
        exact ⟨hasked, fun _ => hret rfl⟩
      | false =>
        rw [hm] at hasked
        exact ⟨hasked, fun h => absurd rfl h⟩

-- ---------------------------------------------------------------------------
-- Before the first last reference
-- ---------------------------------------------------------------------------

/-- Every object has references, and nothing was released. -/
structure Unreleased (b : Book) : Prop where
  positive : ∀ o ∈ b.objs, 0 < o.refcount
  none : ∀ h, .release h ∉ b.log
  wrapped : ∀ p h, .wrap p h ∈ b.log → ∃ o ∈ b.objs, o.guest = p
  inUse : ∀ o ∈ b.objs, o.inUse = true ∧ o.guest ≠ 0

theorem Unreleased.note (h : Unreleased b) (hl : Plain l) : Unreleased (b.note l) where
  positive := h.positive
  none a hm := h.none a ((note_release hl.1).1 hm)
  wrapped p a hm := h.wrapped p a ((note_wrap hl).1 hm)
  inUse := h.inUse

theorem Unreleased.update (h : Unreleased b) (hf : ∀ o, Alike (f o) o)
    (hpos : ∀ o, b.objs[k]? = some o → 0 < (f o).refcount) : Unreleased (b.update k f) where
  positive o ho := by
    rcases mem_modify ho with ho | ⟨o', ho', rfl⟩
    · exact h.positive o ho
    · exact hpos o' ho'
  none := h.none
  wrapped p a hm := by
    obtain ⟨o, ho, hg⟩ := h.wrapped p a hm
    obtain ⟨o', ho', hal⟩ := update_forth hf ho
    exact ⟨o', ho', hal.guest.trans hg⟩
  inUse o ho := by
    obtain ⟨o', ho', hal⟩ := update_back hf ho
    rw [hal.inUse, hal.guest]
    exact h.inUse o' ho'

theorem Unreleased.edit (h : Unreleased b) (he : Edit counted tidy b b') (hc : counted) :
    Unreleased b' := by
  cases he with
  | pass a _ => exact h.note ⟨by simp, by simp⟩
  | give p => exact h.note ⟨by simp, by simp⟩
  | gpu => exact ⟨h.positive, h.none, h.wrapped, h.inUse⟩
  | adjust k f hf =>
    refine h.update (fun o => .of_core (hf o)) fun o ho => ?_
    have hcore := hf o
    unfold ComObj.core at hcore
    simp only [Prod.mk.injEq] at hcore
    rw [hcore.2.2.2.1]
    exact h.positive o (List.mem_of_getElem? ho)
  | up k hcount _ =>
    refine h.update (up_alike _) fun o ho => ?_
    have hlt := hcount hc o ho
    dsimp only
    omega
  | new o res n hb _ =>
    refine ⟨fun x hx => ?_, fun a hm => h.none a (add_release (o := o) (n := n).1 hm),
      fun p a hm => ?_, fun x hx => ?_⟩
    · rcases List.mem_append.1 hx with hx | hx
      · exact h.positive x hx
      · rw [List.mem_singleton.1 hx, hb.inUse.2]
        exact Nat.one_pos
    · rcases add_wrap (n := n) hm with hm | ⟨rfl, -⟩
      · obtain ⟨x, hx, hg⟩ := h.wrapped p a hm
        exact ⟨x, List.mem_append_left _ hx, hg⟩
      · exact ⟨o, List.mem_append_right _ (List.mem_singleton.2 rfl), rfl⟩
    · rcases List.mem_append.1 hx with hx | hx
      · exact h.inUse x hx
      · rw [List.mem_singleton.1 hx]
        exact ⟨hb.inUse.1, hb.guest⟩

theorem Unreleased.edits (h : Unreleased b) (he : Edits counted tidy b b') (hc : counted) :
    Unreleased b' := by
  induction he with
  | refl => exact h
  | tail _ he ih => exact ih.edit he hc

theorem Unreleased.step {s : Sys} (h : Unreleased s.toBook) (hs : Sound s.toBook i)
    (hc : Careful s i) : Unreleased (s.step i).toBook := by
  obtain ⟨iface, args, k, o, ha, hf, hstep⟩ | he := step_edits s i
  · rw [hstep]
    have ho := (find_some hf).2.1
    have hpos := h.positive o (List.mem_of_getElem? ho)
    have hne := hc.last iface args ha k o hf
    obtain ⟨a, ⟨-, hz, -⟩, -⟩ | ⟨-, hbook⟩ := release_cases { s with asked := [] } k o
    · omega
    · rw [hbook]
      exact h.update (up_alike _) fun _ _ => by dsimp only; omega
  · exact h.edits he hs.counted

/-- What the last call got, if it asked for anything. -/
structure Granted (s : Sys) : Prop where
  granted : ∀ r ∈ s.asked, r.2 ≠ 0 ∧ r.1 < maxCom
  ret : s.asked ≠ [] → s.ret = sOk

theorem granted_iff (s : Sys) (i : Input) : Granted (s.step i) ↔
    (∀ j < (s.creations i).length, s.objs.length + j < maxCom) ∧
      ∀ k ∈ s.creations i, i.env.alloc k ≠ 0 := by
  obtain ⟨⟨rs, h⟩, hret⟩ := step_asked s i
  have hasked : (s.step i).asked = rs := by simpa using h.asked
  have hcount := h.count
  have hgiven := h.given
  rw [List.length_map] at hcount
  rw [List.length_map, List.forall_mem_map] at hgiven
  constructor
  · intro hg
    have hall := hgiven.1 fun r hr => (hg.granted r (hasked ▸ hr)).1
    exact ⟨hall.2, hall.1⟩
  · rintro ⟨hj, hk⟩
    have hall := hgiven.2 ⟨hk, hj⟩
    refine ⟨fun r hr => ?_, fun hne => hret fun hnil => hne ?_⟩
    · rw [hasked] at hr
      exact ⟨hall r hr, h.live r hr (hall r hr)⟩
    · rw [hnil] at hcount
      rw [hasked]
      exact List.eq_nil_of_length_eq_zero hcount

theorem Unreleased.lifetimes {s : Sys} (h : Unreleased s.toBook) (hg : Granted s) :
    Lifetimes s where
  once := List.pairwise_iff_forall_sublist.2 fun hs a he =>
    absurd (hs.subset (he ▸ List.mem_cons_self)) (h.none a)
  all p a hm hdead := by
    obtain ⟨o, ho, hp⟩ := h.wrapped p a hm
    exact absurd (hdead p hm o ho hp) (Nat.ne_of_gt (h.positive o ho))
  after p a _ hr := absurd hr (h.none a)
  unused := List.pairwise_iff_forall_sublist.2 fun hs a he =>
    absurd (hs.subset (he ▸ List.mem_cons_self)) (h.none a)
  gone o ho hz := absurd hz (Nat.ne_of_gt (h.positive o ho))
  creation r hr := by
    rw [if_pos (hg.granted r hr).2, hg.ret (List.ne_nil_of_mem hr)]
    exact ⟨(hg.granted r hr).1, by decide⟩

/-- An object that lost its last reference is found. -/
theorem Lifetimes.last {s : Sys} (h : Lifetimes (s.step i)) (hu : Unreleased s.toBook)
    (hs : Sound s.toBook i) (ha : i.act = .call iface 2 args)
    (hf : s.comFromThis i.mem (args 0) = some (k, o)) : o.refcount ≠ 1 := fun hone => by
  have ho := (find_some hf).2.1
  obtain ⟨hin, hg⟩ := hu.inUse o (List.mem_of_getElem? ho)
  have hheads : ∀ f : ComObj → ComObj, (∀ y, (f y).guest = y.guest) → ∀ j y,
      (s.objs.modify k f)[j]? = some y → get i.mem (idField y.guest) = j := by
    intro f hfg j y hy
    rw [List.getElem?_modify, Option.map_eq_map, Option.map_eq_some_iff] at hy
    obtain ⟨w, hw, rfl⟩ := hy
    have hguest : (if k = j then f w else w).guest = w.guest := by
      split
      · exact hfg w
      · rfl
    rw [hguest]
    exact hs.headers j w hw
  -- the table has the same addresses, and this object without references
  obtain ⟨x, hx, hxg, hxz, hxu, hheads⟩ : ∃ x, (s.step i).objs[k]? = some x ∧ x.guest = o.guest ∧
      x.refcount = 0 ∧ x.inUse = true ∧ (s.step i).Headers i.mem := by
    rw [step_release ha hf]
    obtain ⟨a, -, hbook⟩ | ⟨-, hbook⟩ := release_cases { s with asked := [] } k o
    · refine ⟨{ o with refcount := o.refcount - 1, backend := none }, ?_, rfl, ?_, hin, ?_⟩
      · rw [hbook, Book.drop, Book.note, Book.update, List.getElem?_modify_eq, ho]
        rfl
      · simp [hone]
      · rw [hbook]
        exact hheads _ fun _ => rfl
    · refine ⟨{ o with refcount := o.refcount - 1 }, ?_, rfl, ?_, hin, ?_⟩
      · rw [hbook, Book.update, List.getElem?_modify_eq, ho]
        rfl
      · simp [hone]
      · rw [hbook]
        exact hheads _ fun _ => rfl
  have hgone := h.gone x (List.mem_of_getElem? hx) hxz i.mem hheads
  rw [hxg, find_eq hg (hs.headers k o ho) hx hxu] at hgone
  cases hgone

/-- After the calls so far, the promise outlasts exactly the careful ones. -/
theorem lifetimes_iff {s : Sys} (hu : Unreleased s.toBook) (hs : Sound s.toBook i) :
    Lifetimes (s.step i) ↔ Careful s i := by
  constructor
  · intro h
    have hgranted : Granted (s.step i) := by
      obtain ⟨⟨rs, hasked⟩, hret⟩ := step_asked s i
      have hlist : (s.step i).asked = rs := by simpa using hasked.asked
      have hok : (s.step i).asked ≠ [] → (s.step i).ret = sOk := fun hne => hret fun hnil => hne (by
        have hcount := hasked.count
        rw [hnil] at hcount
        rw [hlist]
        exact List.eq_nil_of_length_eq_zero hcount)
      refine ⟨fun r hr => ?_, hok⟩
      have hcreate := h.creation r hr
      rw [hok (List.ne_nil_of_mem hr)] at hcreate
      split at hcreate
      · exact ⟨hcreate.1, ‹_›⟩
      · exact absurd hcreate (by decide)
    obtain ⟨hroom, hmem⟩ := (granted_iff s i).1 hgranted
    exact ⟨fun iface args ha k o hf => h.last hu hs ha hf, hroom, hmem⟩
  · intro hc
    exact (hu.step hs hc).lifetimes ((granted_iff s i).2 ⟨hc.room, hc.memory⟩)

-- ---------------------------------------------------------------------------
-- Runs
-- ---------------------------------------------------------------------------

theorem owned_init (vt : Iface → Nat) : Owned (Sys.init vt).toBook where
  other := .nil
  owned _ h := nomatch h
  released _ h := nomatch h
  once := .nil

theorem kept_init (vt : Iface → Nat) : Kept (Sys.init vt).toBook where
  toOwned := owned_init vt
  inUse _ h := nomatch h
  apart := .nil
  known _ _ h := nomatch h
  wraps _ h := nomatch h
  outside _ h := nomatch h
  resource _ h := nomatch h
  view _ h := nomatch h
  dead _ _ h := nomatch h
  shared _ h := nomatch h
  unused := .nil
  drained _ h := nomatch h

theorem unreleased_init (vt : Iface → Nat) : Unreleased (Sys.init vt).toBook where
  positive _ h := nomatch h
  none _ h := nomatch h
  wrapped _ _ h := nomatch h
  inUse _ h := nomatch h

theorem run_step (h : step s i = some (s', e)) : s' = s.step i := by
  cases h
  rfl

theorem run_owned (h : Run step ok (Sys.init vt) tr s) : Owned s.toBook := by
  refine Run.invariant (P := fun _ s => Owned s.toBook) h (owned_init vt) fun hp _ hs => ?_
  rw [run_step hs]
  exact hp.step _

theorem run_kept
    (h : Run step (fun s i => Sound s.toBook i ∧ i.Ordered s.toBook) (Sys.init vt) tr s) :
    Kept s.toBook := by
  refine Run.invariant (P := fun _ s => Kept s.toBook) h (kept_init vt) fun hp hok hs => ?_
  rw [run_step hs]
  exact hp.step hok.1 hok.2

theorem run_unreleased
    (h : Run step (fun s i => Sound s.toBook i ∧ Careful s i) (Sys.init vt) tr s) :
    Unreleased s.toBook ∧ Granted s := by
  refine Run.invariant (P := fun _ s => Unreleased s.toBook ∧ Granted s) h
    ⟨unreleased_init vt, ⟨fun _ h => (nomatch h), fun h => absurd rfl h⟩⟩ fun hp hok hs => ?_
  rw [run_step hs]
  exact ⟨hp.1.step hok.1 hok.2, (granted_iff _ _).2 ⟨hok.2.room, hok.2.memory⟩⟩

/-- Backends are released once by any guest, and in order by one that gives references back in order;
all of the promise holds as long as no last reference is given back and creations have room. -/
theorem lifetimes_law (vt : Iface → Nat) :
    (∀ tr s, Run step anyStep (Sys.init vt) tr s →
      s.log.Pairwise fun x y => ∀ h, x = .release h → y ≠ .release h) ∧
    (∀ tr s, Run step (fun s i => Sound s.toBook i ∧ i.Ordered s.toBook) (Sys.init vt) tr s →
      (∀ p h, .wrap p h ∈ s.log → .release h ∈ s.log → s.Dead p) ∧
      (s.log.Pairwise fun x y => ∀ h, x = .release h → y ≠ .pass h) ∧
      ∀ o ∈ s.objs, o.ownsBackend = true → o.refcount = 0 → o.backend = none) ∧
    ∀ tr s, Run step (fun s i => Sound s.toBook i ∧ Careful s i) (Sys.init vt) tr s →
      Lifetimes s ∧ ∀ i, Sound s.toBook i → (Lifetimes (s.step i) ↔ Careful s i) := by
  refine ⟨fun tr s h => (run_owned h).once, fun tr s h => ?_, fun tr s h => ?_⟩
  · have hkept := run_kept h
    exact ⟨hkept.dead, hkept.unused, hkept.drained⟩
  · obtain ⟨hun, hg⟩ := run_unreleased h
    exact ⟨hun.lifetimes hg, fun i hs => lifetimes_iff hun hs⟩

/-- The answers to a call that makes up to two objects. -/
def answers (p q : Nat) : Env where
  alloc k := if k = 0 then p else if k = 1 then q else 0
  gpu _ := true
  available := true

def makesFactory : Input := ⟨fun _ => 0, answers 0x1000 0, .factory 0x100⟩

theorem lifetimes_law_factory :
    Lifetimes ((Sys.init fun _ => 0).step makesFactory) := by
  have hsound : Sound (Sys.init fun _ => 0).toBook makesFactory := by
    refine ⟨fun _ _ h => (nomatch h), fun _ _ _ h => (nomatch h), fun k l hkl hk => ?_,
      fun _ h => (nomatch h)⟩
    have hk' : k = 0 := by
      by_contra hne
      simp [makesFactory, answers, hne] at hk
    subst hk'
    simp [makesFactory, answers, Ne.symm hkl]
  have hcareful : Careful (Sys.init fun _ => 0) makesFactory :=
    ⟨fun _ _ h => (nomatch h), by decide, by decide⟩
  exact (((lifetimes_law fun _ => 0).2.2 _ _ .nil).2 _ hsound).2 hcareful

/-- A guest makes a device with its context, a texture and a shader-resource view of it, releases the
texture and binds the view. -/
def bindsReleased : List Input :=
  let m := setAll (fun _ => 0) [(⟨0x1008, 4⟩, 0), (⟨0x2008, 4⟩, 1), (⟨0x3008, 4⟩, 2),
    (⟨0x4008, 4⟩, 3), (⟨0x5000, 4⟩, 0x4000)]
  [⟨m, answers 0x1000 0x2000, .device 0x100 0x108 0⟩,
    ⟨m, answers 0x3000 0, .call .d3d11Device 5 fun k =>
      if k = 0 then 0x1000 else if k = 3 then 0x110 else 0⟩,
    ⟨m, answers 0x4000 0, .call .d3d11Device 7 fun k =>
      if k = 0 then 0x1000 else if k = 1 then 0x3000 else if k = 3 then 0x118 else 0⟩,
    ⟨m, answers 0 0, .call .d3d11Child 2 fun k => if k = 0 then 0x3000 else 0⟩,
    ⟨m, answers 0 0, .call .d3d11Context 8 fun k =>
      if k = 0 then 0x2000 else if k = 2 then 1 else if k = 3 then 0x5000 else 0⟩]

theorem run_foldl (l : List Input) (s : Sys) : ∃ tr, Run step anyStep s tr (l.foldl Sys.step s) := by
  induction l generalizing s with
  | nil => exact ⟨[], .nil⟩
  | cons i l ih =>
    obtain ⟨tr, h⟩ := ih (s.step i)
    exact ⟨_, h.cons trivial rfl⟩

/-- The view is live when the texture's backend is released, and the backend is bound afterwards. -/
theorem view_outlives :
    (∃ tr s, Run step anyStep (Sys.init fun _ => 0) tr s ∧ ¬ Lifetimes s) ∧
    (bindsReleased.foldl Sys.step (Sys.init fun _ => 0)).log.drop 10 =
      [.release (.made 1), .pass (.made 0), .pass (.made 1)] := by
  refine ⟨?_, by decide +kernel⟩
  obtain ⟨tr, h⟩ := run_foldl bindsReleased (Sys.init fun _ => 0)
  refine ⟨tr, _, h, fun hlife => ?_⟩
  have hview := hlife.after 0x4000 (.made 1) (by decide +kernel) (by decide +kernel)
  exact absurd hview (by unfold Book.Dead; decide +kernel)

end WineGlass.Com
