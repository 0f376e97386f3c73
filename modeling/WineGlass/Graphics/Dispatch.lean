import WineGlass.Graphics.Edits

/-!
# Calls as edits

Each handler is a chain of edits, whoever calls it; for an orderly caller the chain is orderly too.
`Release` is the one call that is not.
-/

namespace WineGlass.Com

open Fields Relation

/-- An orderly call on a table in order. -/
structure Tidy (b : Book) (i : Input) : Prop where
  base : Base b
  sound : Sound b i
  ordered : i.Ordered b

/-- No count is at its end. -/
def Book.Counted (b : Book) : Prop := ∀ o ∈ b.objs, o.refcount + 1 < 2 ^ 32

-- ---------------------------------------------------------------------------
-- Objects
-- ---------------------------------------------------------------------------

theorem live_backend {s : Sys} (hb : Base s.toBook) (hh : Book.Headers s.toBook m)
    (hp : p = 0 ∨ s.toBook.Live p) (h : s.comFromThis m p = some (k, o)) : 0 < o.refcount := by
  obtain rfl | ⟨o', ho', hg, hl⟩ := hp
  · exact absurd rfl (find_some h).1
  · obtain ⟨j, hj, -⟩ := find_at hb hh ho'
    rwa [(find_live hh hj hg h).2]

theorem up_edits (s : Sys) (k : Nat) (hc : counted → s.toBook.Counted)
    (ht : tidy → ∀ o, s.objs[k]? = some o → 0 < o.refcount ∨
      ∃ v ∈ s.objs, v.parent ≠ 0 ∧ v.parent = o.guest ∧ 0 < v.refcount) :
    Edits counted tidy s.toBook (s.addRef k).toBook :=
  .single (.up k (fun c o ho => hc c o (List.mem_of_getElem? ho)) ht)

/-- A method of IUnknown but `Release`. -/
theorem iunknown_edits (s : Sys) (m : Mem) (k : Nat) (o : ComObj) (args : Nat → Nat) (e : Env)
    (hm : method < 2) (hf : s.comFromThis m (args 0) = some (k, o)) (hc : counted → s.toBook.Counted)
    (hl : tidy → 0 < o.refcount)
    (ht : tidy → Base s.toBook ∧ s.Headers m ∧
      (e.alloc 0 ≠ 0 → ∀ o' ∈ s.objs, o'.guest ≠ e.alloc 0)) :
    Edits counted tidy s.toBook (s.iunknown m k o method args e).toBook := by
  have ho := (find_some hf).2.1
  have hup : Edits counted tidy s.toBook (s.addRef k).toBook := up_edits s k hc fun t o' ho' => by
    rw [ho] at ho'
    cases ho'
    exact .inl (hl t)
  match method, hm with
  | 0, _ =>
    unfold Sys.iunknown
    cases hd : asksDxgi m o args with
    | true =>
      have hi : o.iface = .d3d11Device := by
        have hboth := of_decide_eq_true hd
        exact hboth.1
      refine create_edits s m o args e ⟨by simp [dxgiSide], by simp [dxgiSide], by simp [dxgiSide]⟩
        fun t => ⟨(ht t).1, (ht t).2.1, (ht t).2.2, ⟨List.mem_of_getElem? ho, by rw [hi]; decide⟩,
          fun h => Bool.noConfusion h⟩
    | false => exact hup.trans (Edits.putPtr ..)
  | 1, _ => exact hup

theorem dxgi_edits (s : Sys) (m : Mem) (o : ComObj) (method : Nat) (args : Nat → Nat) (e : Env)
    (ht : tidy → Base s.toBook ∧ s.Headers m ∧ o ∈ s.objs ∧
      (e.alloc 0 ≠ 0 → ∀ o' ∈ s.objs, o'.guest ≠ e.alloc 0)) :
    Edits counted tidy s.toBook (s.dxgi m o method args e).toBook := by
  unfold Sys.dxgi
  cases hk : dxgiMaking args o.iface method with
  | some k =>
    obtain ⟨hsane, hview, hi⟩ := dxgiMaking_sane hk
    exact create_edits s m o args e hsane fun t => ⟨(ht t).1, (ht t).2.1, (ht t).2.2.2,
      ⟨(ht t).2.2.1, hi⟩, fun h => by rw [hview] at h; cases h⟩
  | none =>
    have hpass (hi : o.iface = .dxgiSwapchain) :
        Edits counted tidy s.toBook (s.pass [o.backend]).toBook :=
      Edits.pass s _ fun t h hm => .inl ((ht t).1.loose (ht t).2.2.1 (by rw [hi]; decide)
        (List.mem_singleton.1 hm).symm).1
    dsimp only
    split
    · exact .refl
    · exact .refl
    · exact .refl
    · exact hpass ‹_›
    · exact hpass ‹_›
    · exact .refl

theorem immediate_edits (s : Sys) (m : Mem) (k : Nat) (o : ComObj) (out : Nat) (e : Env)
    (ht : tidy → Base s.toBook ∧ o ∈ s.objs ∧ o.iface ≠ .d3d11Child ∧
      (e.alloc 0 ≠ 0 → ∀ o' ∈ s.objs, o'.guest ≠ e.alloc 0)) :
    Edits counted tidy s.toBook (s.immediate m k o out e).toBook := by
  unfold Sys.immediate
  by_cases haux : o.aux = 0
  · rw [if_pos haux]
    let r := s.comNew m .d3d11Context o.backend (e.alloc 0)
    have hnew : Edits counted tidy s.toBook r.1.toBook :=
      comNew_edits (n := 0) s .d3d11Context o.backend (Nat.zero_le _) fun t hroom =>
        ⟨(ht t).2.2.2 hroom.2, fun a ha => .inr ((ht t).1.loose (ht t).2.1 (ht t).2.2.1 ha)⟩
    exact (hnew.tail (.adjust k (fun o => { o with aux := r.2.2 }) fun _ => rfl)).trans
      (Edits.putPtr (r.1.update k fun o => { o with aux := r.2.2 }) out r.2.2)
  · rw [if_neg haux]
    exact Edits.putPtr ..

theorem device_edits (s : Sys) (m : Mem) (k : Nat) (o : ComObj) (method : Nat) (args : Nat → Nat)
    (e : Env) (ht : tidy → Base s.toBook ∧ s.Headers m ∧ o ∈ s.objs ∧ o.iface ≠ .d3d11Child ∧
      (e.alloc 0 ≠ 0 → ∀ o' ∈ s.objs, o'.guest ≠ e.alloc 0))
    (hres : tidy → ∀ k, deviceMaking m args method = some k → k.view = true →
      s.Resource (args 1)) :
    Edits counted tidy s.toBook (s.device m k o method args e).toBook := by
  unfold Sys.device
  cases hk : deviceMaking m args method with
  | some k' =>
    exact create_edits s m o args e (deviceMaking_sane hk) fun t => ⟨(ht t).1, (ht t).2.1,
      (ht t).2.2.2.2, ⟨(ht t).2.2.1, (ht t).2.2.2.1⟩, hres t k' hk⟩
  | none =>
    by_cases h40 : method = 40
    · simp only [if_pos h40]
      exact immediate_edits s m k o _ e fun t =>
        ⟨(ht t).1, (ht t).2.2.1, (ht t).2.2.2.1, (ht t).2.2.2.2⟩
    · simp only [if_neg h40]
      exact .refl

theorem context_edits (s : Sys) (m : Mem) (o : ComObj) (method : Nat) (args : Nat → Nat) (e : Env)
    (ht : tidy → Base s.toBook ∧ s.Headers m ∧ o ∈ s.objs ∧ o.iface ≠ .d3d11Child)
    (hp : tidy → ∀ p ∈ named m args method, p = 0 ∨ s.toBook.Live p) :
    Edits counted tidy s.toBook (s.context m o method args e).toBook := by
  have hnamed : ∀ p, (tidy → p = 0 ∨ s.toBook.Live p) → ∀ k o', s.comFromThis m p = some (k, o') →
      tidy → ∀ h, o'.backend = some h → s.toBook.Usable h := fun p hlive k o' hf t h hb =>
    .inr ⟨o', List.mem_of_getElem? (find_some hf).2.1, hb,
      live_backend (ht t).1 (ht t).2.1 (hlive t) hf⟩
  unfold Sys.context
  split
  · unfold Sys.map
    split
    · split
      · exact .single (.adjust _ _ fun _ => rfl)
      · exact .refl
    · exact .refl
  · unfold Sys.unmap
    split
    · rename_i k o' hf
      split
      · refine Edits.pass s _ fun t h hm => ?_
        exact hnamed _ (fun t => hp t (args 1) (by simp [named])) k o' hf t h
          (List.mem_singleton.1 hm).symm
      · exact .refl
    · exact .refl
  · rename_i hmap hunmap
    split
    · rename_i ps hps
      refine Edits.pass s _ fun t h hm => ?_
      rcases List.mem_cons.1 hm with hm | hm
      · exact .inl ((ht t).1.loose (ht t).2.2.1 (ht t).2.2.2 hm.symm).1
      · obtain ⟨p, hpp, hback⟩ := List.mem_map.1 hm
        have hlive : p = 0 ∨ s.toBook.Live p := hp t p (by
          rw [named, if_neg hunmap, hps]
          exact hpp)
        unfold Sys.backendOf at hback
        cases hf : s.comFromThis m p with
        | none => rw [hf] at hback; cases hback
        | some r =>
          rw [hf] at hback
          exact hnamed p (fun _ => hlive) r.1 r.2 hf t h hback
    · exact .refl

theorem child_edits (s : Sys) (m : Mem) (o : ComObj) (method : Nat) (args : Nat → Nat)
    (hc : counted → s.toBook.Counted)
    (ht : tidy → Base s.toBook ∧ s.Headers m ∧ o ∈ s.objs ∧ 0 < o.refcount) :
    Edits counted tidy s.toBook (s.child m o method args).toBook := by
  unfold Sys.child
  by_cases h : method = 7 ∧ o.parent ≠ 0 ∧ args 1 ≠ 0
  · rw [if_pos h]
    have hput : Edits counted tidy s.toBook (s.putPtr (args 1) o.parent).toBook := Edits.putPtr ..
    have hobjs : (s.putPtr (args 1) o.parent).objs = s.objs := by
      unfold Sys.putPtr
      split <;> rfl
    dsimp only
    cases hf : (s.putPtr (args 1) o.parent).comFromThis m o.parent with
    | none => exact hput
    | some r =>
      refine hput.trans (up_edits _ r.1 (fun c => ?_) fun t o' ho' => .inr ?_)
      · unfold Book.Counted
        rw [hobjs]
        exact hc c
      · rw [hobjs] at ho' ⊢
        -- the view's resource is the object that is found at its address
        obtain ⟨hb, hh, ho, hl⟩ := ht t
        obtain ⟨-, p, hp, hg, -, -⟩ := hb.view o ho h.2.1
        obtain ⟨j, hj, -⟩ := find_at hb hh hp
        have hheads : (s.putPtr (args 1) o.parent).toBook.Headers m := by
          unfold Book.Headers
          rw [hobjs]
          exact hh
        have hj' : (s.putPtr (args 1) o.parent).objs[j]? = some p := by rw [hobjs, hj]
        have hsame := (find_live hheads hj' hg hf).1
        rw [hsame, hj] at ho'
        exact ⟨o, ho, h.2.1, (Option.some.inj ho') ▸ hg.symm, hl⟩
  · rw [if_neg h]

-- ---------------------------------------------------------------------------
-- Entry points
-- ---------------------------------------------------------------------------

/-- A handle of `gpuDevice`, new or not. -/
theorem device_loose (hb : Base b) (h : (a = .made b.gpus ∧ 0 < n) ∨ a = .stub) :
    (a = .made b.gpus ∧ 0 < n) ∨ (b.Unowned a ∧ b.Below a) := by
  refine h.imp_right ?_
  rintro rfl
  exact ⟨hb.stub, .inl rfl⟩

theorem factory_edits (s : Sys) (m : Mem) (out : Nat) (e : Env)
    (ht : tidy → Base s.toBook ∧ (e.alloc 0 ≠ 0 → ∀ o ∈ s.objs, o.guest ≠ e.alloc 0)) :
    Edits counted tidy s.toBook (s.createDXGIFactory m out e).toBook := by
  obtain ⟨n, hn, hs, hdev⟩ := gpuDevice_cases s e
  unfold Sys.createDXGIFactory
  rcases hp : s.gpuDevice e with ⟨s₁, dev⟩
  rw [hp] at hs hdev
  dsimp only at hs hdev ⊢
  subst hs
  exact (comNew_edits s .dxgiFactory dev hn fun t hroom =>
    ⟨(ht t).2 hroom.2, fun a ha => device_loose (ht t).1 (hdev a ha)⟩).trans (Edits.putPtr ..)

theorem context_between (h : Between s dev e 1) (ha : ∀ j, 1 ≠ j → e.alloc 1 ≠ 0 →
    e.alloc 1 ≠ e.alloc j) : Between (s.withContext m dev d out e) dev e 2 := by
  unfold Sys.withContext
  by_cases hout : out = 0
  · rw [if_pos hout]
    exact ⟨h.loose, fun j hj => h.spare j (by omega)⟩
  · rw [if_neg hout]
    have hnew := h.comNew ha m .d3d11Context (some dev)
    dsimp only
    rcases hp : s.comNew m .d3d11Context (some dev) (e.alloc 1) with ⟨s₁, m₁, ctx⟩
    rw [hp] at hnew
    have hput : ∀ s' : Sys, Between s' dev e 2 → Between (s'.putPtr out ctx) dev e 2 := by
      intro s' hb
      unfold Sys.putPtr
      split
      · exact hb
      · exact hb.same rfl (fun hm => by simpa [Sys.note] using hm) (Nat.le_refl _)
    cases s.comFromThis m d with
    | none => exact hput _ hnew
    | some r =>
      refine hput _ (hnew.frame (fun o ho => ?_) (fun hm => hm) (Nat.le_refl _))
      obtain ⟨k, hk⟩ := List.mem_iff_getElem?.1 ho
      simp only [Sys.update, List.getElem?_modify, Option.map_eq_map, Option.map_eq_some_iff] at hk
      obtain ⟨o', ho', rfl⟩ := hk
      exact ⟨o', List.mem_of_getElem? ho', by split <;> exact ⟨rfl, rfl, rfl⟩⟩

theorem withContext_edits (s : Sys) (m : Mem) (dev : Handle) (d out : Nat) (e : Env)
    (ht : tidy → Between s dev e 1) :
    Edits counted tidy s.toBook (s.withContext m dev d out e).toBook := by
  unfold Sys.withContext
  by_cases hout : out = 0
  · rw [if_pos hout]
  · rw [if_neg hout]
    let r := s.comNew m .d3d11Context (some dev) (e.alloc 1)
    have hnew : Edits counted tidy s.toBook r.1.toBook :=
      comNew_edits (n := 0) s .d3d11Context (some dev) (Nat.zero_le _) fun t hroom =>
        ⟨(ht t).spare 1 (Nat.le_refl _) hroom.2,
          fun a ha => .inr ((Option.some.inj ha) ▸ (ht t).loose)⟩
    dsimp only
    cases s.comFromThis m d with
    | none => exact hnew.trans (Edits.putPtr r.1 out r.2.2)
    | some q =>
      exact (hnew.tail (.adjust q.1 (fun o => { o with aux := r.2.2 }) fun _ => rfl)).trans
        (Edits.putPtr (r.1.update q.1 fun o => { o with aux := r.2.2 }) out r.2.2)

theorem withSwapchain_edits (s : Sys) (m : Mem) (dev : Handle) (out : Nat) (e : Env)
    (ht : tidy → Between s dev e 2) :
    Edits counted tidy s.toBook (s.withSwapchain m dev out e).toBook := by
  unfold Sys.withSwapchain
  by_cases hout : out = 0
  · rw [if_pos hout]
  · rw [if_neg hout]
    have hpass : Edits counted tidy s.toBook (s.pass [some dev]).toBook :=
      Edits.pass s [some dev] fun t h hm => by
        cases List.mem_singleton.1 hm
        exact .inl (ht t).loose.1
    cases e.gpu 1 with
    | false =>
      have hnew : Edits counted tidy (s.pass [some dev]).toBook
          ((s.pass [some dev]).comNew m .dxgiSwapchain none (e.alloc 2)).1.toBook :=
        comNew_edits (n := 0) (s.pass [some dev]) .dxgiSwapchain none (Nat.zero_le _) fun t hroom =>
          ⟨(ht t).spare 2 (Nat.le_refl _) hroom.2, fun a ha => by cases ha⟩
      exact (hpass.trans hnew).trans (Edits.putPtr ..)
    | true =>
      have hnew : Edits counted tidy (s.pass [some dev]).toBook
          (Sys.comNew { s.pass [some dev] with gpus := s.gpus + 1 } m .dxgiSwapchain
            (some (.made s.gpus)) (e.alloc 2)).1.toBook :=
        comNew_edits (n := 1) (s.pass [some dev]) .dxgiSwapchain (some (.made s.gpus))
          (Nat.le_refl _) fun t hroom => ⟨(ht t).spare 2 (Nat.le_refl _) hroom.2, fun a ha => .inl
          ⟨(Option.some.inj ha).symm, Nat.one_pos⟩⟩
      exact (hpass.trans hnew).trans (Edits.putPtr ..)

theorem device_between {s : Sys} (hb : Base s.toBook) (hdev : (a = .made s.gpus ∧ 0 < n) ∨ a = .stub)
    (hf : ∀ j, e.alloc j ≠ 0 → ∀ o ∈ s.objs, o.guest ≠ e.alloc j) :
    Between ({ s with gpus := s.gpus + n } : Sys) a e 0 := by
  refine ⟨?_, fun j _ => hf j⟩
  obtain ⟨rfl, hn⟩ | rfl := hdev
  · exact ⟨⟨hb.next.1, hb.next.2⟩, .inr ⟨s.gpus, Nat.lt_add_of_pos_right hn, rfl⟩⟩
  · exact ⟨⟨hb.stub.1, hb.stub.2⟩, .inl rfl⟩

theorem createDevice_edits (s : Sys) (m : Mem) (devOut ctxOut scOut : Nat) (e : Env)
    (ht : tidy → Base s.toBook ∧ (∀ j, e.alloc j ≠ 0 → ∀ o ∈ s.objs, o.guest ≠ e.alloc j) ∧
      ∀ j l, j ≠ l → e.alloc j ≠ 0 → e.alloc j ≠ e.alloc l) :
    Edits counted tidy s.toBook (s.createDevice m devOut ctxOut scOut e).toBook := by
  obtain ⟨n, hn, hs, hdev⟩ := gpuDevice_cases s e
  unfold Sys.createDevice
  rcases hp : s.gpuDevice e with ⟨s₁, dev⟩
  rw [hp] at hs hdev
  dsimp only at hs hdev ⊢
  subst hs
  cases dev with
  | none =>
    match n, hn with
    | 0, _ => exact .refl
    | 1, _ => exact .single .gpu
  | some dev =>
    have hnew : Edits counted tidy s.toBook
        (Sys.comNew { s with gpus := s.gpus + n } m .d3d11Device (some dev) (e.alloc 0)).1.toBook :=
      comNew_edits s .d3d11Device (some dev) hn fun t hroom =>
        ⟨(ht t).2.1 0 hroom.2, fun a ha => device_loose (ht t).1 (hdev a ha)⟩
    have hbetween : tidy → Between
        (Sys.comNew { s with gpus := s.gpus + n } m .d3d11Device (some dev) (e.alloc 0)).1 dev e 1 :=
      fun t => (device_between (ht t).1 (hdev dev rfl) (ht t).2.1).comNew ((ht t).2.2 0) m _ _
    dsimp only
    generalize Sys.comNew { s with gpus := s.gpus + n } m .d3d11Device (some dev) (e.alloc 0) = r
      at hnew hbetween
    have hput : tidy → Between (r.1.putPtr devOut r.2.2) dev e 1 := fun t => by
      unfold Sys.putPtr
      split
      · exact hbetween t
      · exact (hbetween t).same rfl (fun hm => by simpa [Sys.note] using hm) (Nat.le_refl _)
    exact ((hnew.trans (Edits.putPtr r.1 devOut r.2.2)).trans
      (withContext_edits _ r.2.1 dev r.2.2 ctxOut e hput)).trans
        (withSwapchain_edits _ r.2.1 dev scOut e fun t => context_between (hput t) ((ht t).2.2 1))

-- ---------------------------------------------------------------------------
-- Any call
-- ---------------------------------------------------------------------------

/-- The object that an orderly caller calls. -/
theorem Tidy.self {s : Sys} (h : Tidy s.toBook i) (ha : i.act = .call iface method args)
    (hf : s.comFromThis i.mem (args 0) = some (k, o)) :
    o ∈ s.objs ∧ o.guest = args 0 ∧ 0 < o.refcount ∧ o.iface = iface := by
  obtain ⟨o', ho', hg, hl, hi⟩ := (h.ordered iface method args ha).self
  obtain ⟨j, hj, -⟩ := find_at h.base h.sound.headers ho'
  obtain ⟨-, rfl⟩ := find_live h.sound.headers hj hg hf
  exact ⟨ho', hg, hl, hi⟩

theorem dispatch_edits (s : Sys) (i : Input) (ha : i.act = .call iface method args)
    (hf : s.comFromThis i.mem (args 0) = some (k, o)) (hm : method ≠ 2) :
    Edits s.toBook.Counted (Tidy s.toBook i) s.toBook
      (s.dispatch i.mem iface method args i.env).toBook := by
  have hfresh : Tidy s.toBook i → i.env.alloc 0 ≠ 0 → ∀ o' ∈ s.objs, o'.guest ≠ i.env.alloc 0 :=
    fun t => t.sound.fresh 0
  unfold Sys.dispatch
  rw [hf]
  dsimp only
  by_cases hlow : method ≤ 2
  · rw [if_pos hlow]
    exact iunknown_edits s i.mem k o args i.env (by omega) hf id (fun t => (t.self ha hf).2.2.1)
      fun t => ⟨t.base, t.sound.headers, hfresh t⟩
  · rw [if_neg hlow]
    split
    · exact .refl
    · have hdxgi : Edits s.toBook.Counted (Tidy s.toBook i) s.toBook
          (s.dxgi i.mem o method args i.env).toBook :=
        dxgi_edits s i.mem o method args i.env fun t =>
          ⟨t.base, t.sound.headers, (t.self ha hf).1, hfresh t⟩
      cases iface with
      | d3d11Device =>
        exact device_edits s i.mem k o method args i.env (fun t => ⟨t.base, t.sound.headers,
          (t.self ha hf).1, by rw [(t.self ha hf).2.2.2]; decide, hfresh t⟩)
          fun t => (t.ordered _ _ _ ha).resource rfl
      | d3d11Context =>
        exact context_edits s i.mem o method args i.env (fun t => ⟨t.base, t.sound.headers,
          (t.self ha hf).1, by rw [(t.self ha hf).2.2.2]; decide⟩)
          fun t => (t.ordered _ _ _ ha).bound rfl
      | d3d11Child =>
        exact child_edits s i.mem o method args id fun t => ⟨t.base, t.sound.headers,
          (t.self ha hf).1, (t.self ha hf).2.2.1⟩
      | dxgiFactory | dxgiAdapter | dxgiOutput | dxgiSwapchain | dxgiDevice => exact hdxgi

theorem step_release {s : Sys} (ha : i.act = .call iface 2 args)
    (hf : s.comFromThis i.mem (args 0) = some (k, o)) :
    s.step i = Sys.release { s with asked := [] } k o := by
  have hf' : Sys.comFromThis { s with asked := [] } i.mem (args 0) = some (k, o) := hf
  unfold Sys.step
  rw [ha]
  dsimp only
  unfold Sys.dispatch
  rw [hf']
  exact if_pos (Nat.le_refl 2)

/-- A call gives a reference back, or is a chain of edits. -/
theorem step_edits (s : Sys) (i : Input) :
    (∃ iface args k o, i.act = .call iface 2 args ∧ s.comFromThis i.mem (args 0) = some (k, o) ∧
      s.step i = Sys.release { s with asked := [] } k o) ∨
    Edits s.toBook.Counted (Tidy s.toBook i) s.toBook (s.step i).toBook := by
  cases ha : i.act with
  | factory out =>
    rw [Sys.step, ha]
    exact .inr (factory_edits { s with asked := [] } i.mem out i.env fun t =>
      ⟨t.base, t.sound.fresh 0⟩)
  | device devOut ctxOut scOut =>
    rw [Sys.step, ha]
    exact .inr (createDevice_edits { s with asked := [] } i.mem devOut ctxOut scOut i.env fun t =>
      ⟨t.base, t.sound.fresh, t.sound.apart⟩)
  | call iface method args =>
    cases hf : s.comFromThis i.mem (args 0) with
    | none =>
      right
      have hf' : Sys.comFromThis { s with asked := [] } i.mem (args 0) = none := hf
      rw [Sys.step, ha]
      dsimp only
      unfold Sys.dispatch
      rw [hf']
    | some r =>
      have hf' : Sys.comFromThis { s with asked := [] } i.mem (args 0) = some r := hf
      by_cases hm : method = 2
      · subst hm
        exact .inl ⟨iface, args, r.1, r.2, rfl, hf, step_release ha hf⟩
      · right
        rw [Sys.step, ha]
        exact dispatch_edits { s with asked := [] } i ha hf' hm

end WineGlass.Com
