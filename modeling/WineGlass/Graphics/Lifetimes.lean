import WineGlass.Graphics.Dispatch

/-!
# Lifetimes of COM objects

Backends are released once in every run. That a backend outlives the objects made from it, and that
none is used after its release, depends on the order in which the guest gives references back. A
released object stays in the table for good.
-/

namespace WineGlass.Com

open Fields Relation Runs

-- ---------------------------------------------------------------------------
-- Tables
-- ---------------------------------------------------------------------------

theorem mem_modify {l : List α} (h : a ∈ l.modify k f) :
    a ∈ l ∨ ∃ c, l[k]? = some c ∧ a = f c := by
  obtain ⟨j, hj⟩ := List.mem_iff_getElem?.1 h
  rw [List.getElem?_modify, Option.map_eq_map, Option.map_eq_some_iff] at hj
  obtain ⟨c, hc, rfl⟩ := hj
  by_cases hkj : k = j
  · subst hkj
    exact .inr ⟨c, hc, by simp⟩
  · rw [if_neg hkj]
    exact .inl (List.mem_of_getElem? hc)

theorem pairwise_modify {l : List α} (hf : ∀ a c, R a c → R (f a) c ∧ R a (f c))
    (h : l.Pairwise R) : (l.modify k f).Pairwise R := by
  induction l generalizing k with
  | nil => simp
  | cons x l ih =>
    obtain ⟨hx, hl⟩ := List.pairwise_cons.1 h
    cases k with
    | zero =>
      rw [List.modify_zero_cons]
      exact List.pairwise_cons.2 ⟨fun c hc => (hf x c (hx c hc)).1, hl⟩
    | succ k =>
      rw [List.modify_succ_cons]
      refine List.pairwise_cons.2 ⟨fun c hc => ?_, ih hl⟩
      rcases mem_modify hc with hc | ⟨d, hd, rfl⟩
      · exact hx c hc
      · exact (hf x d (hx d (List.mem_of_getElem? hd))).2

/-- What is not updated differs from what is. -/
theorem mem_modify_other {l : List α} (hp : l.Pairwise R) (ho : l[k]? = some o)
    (hx : x ∈ l.modify k f) : (x ∈ l ∧ (R x o ∨ R o x)) ∨ x = f o := by
  obtain ⟨j, hj⟩ := List.mem_iff_getElem?.1 hx
  rw [List.getElem?_modify, Option.map_eq_map, Option.map_eq_some_iff] at hj
  obtain ⟨c, hc, rfl⟩ := hj
  by_cases hkj : k = j
  · subst hkj
    rw [ho] at hc
    cases hc
    exact .inr (by simp)
  · rw [if_neg hkj]
    obtain ⟨hk, hko⟩ := List.getElem?_eq_some_iff.1 ho
    obtain ⟨hj, hjc⟩ := List.getElem?_eq_some_iff.1 hc
    have hpair := List.pairwise_iff_getElem.1 hp
    refine .inl ⟨List.mem_of_getElem? hc, ?_⟩
    rw [← hko, ← hjc]
    exact (Nat.lt_or_gt_of_ne hkj).elim (fun h => .inr (hpair k j hk hj h))
      fun h => .inl (hpair j k hj hk h)

/-- What of an entry does not change while its backend is not released. -/
structure Alike (o o' : ComObj) : Prop where
  inUse : o.inUse = o'.inUse
  iface : o.iface = o'.iface
  guest : o.guest = o'.guest
  backend : o.backend = o'.backend
  owns : o.ownsBackend = o'.ownsBackend
  parent : o.parent = o'.parent

theorem Alike.refl (o : ComObj) : Alike o o := ⟨rfl, rfl, rfl, rfl, rfl, rfl⟩

theorem Alike.of_core {o o' : ComObj} (h : o.core = o'.core) : Alike o o' := by
  unfold ComObj.core at h
  simp only [Prod.mk.injEq] at h
  obtain ⟨hu, hi, hg, -, hb, ho, hp⟩ := h
  exact ⟨hu, hi, hg, hb, ho, hp⟩

theorem update_back {b : Book} (hf : ∀ o, Alike (f o) o) (h : o ∈ (b.update k f).objs) :
    ∃ o' ∈ b.objs, Alike o o' := by
  rcases mem_modify h with h | ⟨c, hc, rfl⟩
  · exact ⟨o, h, .refl o⟩
  · exact ⟨c, List.mem_of_getElem? hc, hf c⟩

theorem update_forth {b : Book} (hf : ∀ o, Alike (f o) o) (h : o ∈ b.objs) :
    ∃ o' ∈ (b.update k f).objs, Alike o' o := by
  obtain ⟨j, hj⟩ := List.mem_iff_getElem?.1 h
  by_cases hkj : k = j
  · refine ⟨f o, List.mem_of_getElem? (i := j) ?_, hf o⟩
    rw [Book.update, List.getElem?_modify, hj, hkj]
    simp
  · refine ⟨o, List.mem_of_getElem? (i := j) ?_, .refl o⟩
    rw [Book.update, List.getElem?_modify, hj]
    simp [hkj]

-- ---------------------------------------------------------------------------
-- Released once
-- ---------------------------------------------------------------------------

theorem note_release {b : Book} (hl : ∀ h, Event.release h ∉ l) :
    .release a ∈ (b.note l).log ↔ .release a ∈ b.log :=
  ⟨fun h => (List.mem_append.1 h).resolve_right (hl a), fun h => List.mem_append_left _ h⟩

theorem Owned.note (h : Owned b) (hl : ∀ a, Event.release a ∉ l) : Owned (b.note l) where
  other := h.other
  owned o ho hown a hb := ⟨(h.owned o ho hown a hb).1, fun hm =>
    (h.owned o ho hown a hb).2 ((note_release hl).1 hm)⟩
  released a hm := h.released a ((note_release hl).1 hm)
  once := List.pairwise_append.2 ⟨h.once,
    List.pairwise_iff_forall_sublist.2 fun hs a he => absurd (hs.subset (he ▸ List.mem_cons_self))
      (hl a), fun x _ y hy a _ he => hl a (he ▸ hy)⟩

theorem Owned.update (h : Owned b) (hf : ∀ o, Alike (f o) o) : Owned (b.update k f) where
  other := pairwise_modify (fun o o' hoo =>
    ⟨fun a hown hown' hb => hoo a ((hf o).owns ▸ hown) hown' ((hf o).backend ▸ hb),
      fun a hown hown' hb => by
        rw [(hf o').backend]
        exact hoo a hown ((hf o').owns ▸ hown') hb⟩) h.other
  owned o ho hown a hb := by
    obtain ⟨o', ho', hal⟩ := update_back hf ho
    exact h.owned o' ho' (hal.owns ▸ hown) a (hal.backend ▸ hb)
  released := h.released
  once := h.once

theorem lt_gpus (h : ∃ n < g, a = Handle.made n) (hg : g ≤ g') : ∃ n < g', a = Handle.made n :=
  h.imp fun _ hn => ⟨Nat.lt_of_lt_of_le hn.1 hg, hn.2⟩

theorem wraps_release {hs : List Handle} : Event.release a ∉ hs.map (.wrap p) := fun hm => by
  obtain ⟨_, -, he⟩ := List.mem_map.1 hm
  cases he

theorem Owned.new (h : Owned b) (hb : b.Born o n) (hs : List Handle) :
    Owned ⟨b.objs ++ [o], b.gpus + n, b.log ++ hs.map (.wrap o.guest)⟩ where
  other := by
    refine List.pairwise_append.2 ⟨h.other, List.pairwise_singleton _ _, fun o' ho' x hx a hown hown'
      hback hback' => ?_⟩
    rw [List.mem_singleton.1 hx] at hown' hback'
    obtain ⟨m, hm, he⟩ := (h.owned o' ho' hown a hback).1
    rw [(hb.owned hown' a hback').1] at he
    cases he
    exact Nat.lt_irrefl _ hm
  owned x hx hown a hback := by
    rw [List.mem_append, not_or]
    rcases List.mem_append.1 hx with hx | hx
    · obtain ⟨hlt, hnot⟩ := h.owned x hx hown a hback
      exact ⟨lt_gpus hlt (Nat.le_add_right ..), hnot, wraps_release⟩
    · rw [List.mem_singleton.1 hx] at hown hback
      obtain ⟨rfl, hn⟩ := hb.owned hown a hback
      refine ⟨⟨b.gpus, Nat.lt_add_of_pos_right hn, rfl⟩, fun hm => ?_, wraps_release⟩
      obtain ⟨m, hm, he⟩ := h.released _ hm
      cases he
      exact Nat.lt_irrefl _ hm
  released a hm := lt_gpus (h.released a ((List.mem_append.1 hm).resolve_right wraps_release))
    (Nat.le_add_right ..)
  once := (h.note fun _ => wraps_release).once

theorem up_alike (n : ComObj → Nat) (o : ComObj) : Alike { o with refcount := n o } o :=
  ⟨rfl, rfl, rfl, rfl, rfl, rfl⟩

theorem Owned.edit (h : Owned b) (he : Edit counted tidy b b') : Owned b' := by
  cases he with
  | pass a _ => exact h.note (by simp)
  | give p => exact h.note (by simp)
  | gpu =>
    exact ⟨h.other, fun o ho hown a hb => ⟨lt_gpus (h.owned o ho hown a hb).1 (Nat.le_succ _),
      (h.owned o ho hown a hb).2⟩, fun a hm => lt_gpus (h.released a hm) (Nat.le_succ _), h.once⟩
  | adjust k f hf => exact h.update fun o => .of_core (hf o)
  | up k _ _ => exact h.update (up_alike _)
  | new o res n hb _ => exact h.new hb _

/-- The last reference of an owner: its backend goes to the GPU layer. -/
def ComObj.Last (o : ComObj) (a : Handle) : Prop :=
  o.backend = some a ∧ o.refcount - 1 = 0 ∧ o.ownsBackend = true

def Book.drop (b : Book) (k n : Nat) (a : Handle) : Book :=
  (b.update k fun o => { o with refcount := n, backend := none }).note [.release a]

theorem release_cases (s : Sys) (k : Nat) (o : ComObj) :
    (∃ a, o.Last a ∧ (s.release k o).toBook = s.toBook.drop k (o.refcount - 1) a) ∨
    ((∀ a, ¬ o.Last a) ∧ (s.release k o).toBook =
      s.toBook.update k fun o' => { o' with refcount := o.refcount - 1 }) := by
  unfold Sys.release ComObj.Last
  cases hb : o.backend with
  | none => exact .inr ⟨fun _ h => (nomatch h.1), rfl⟩
  | some a =>
    by_cases hlast : o.refcount - 1 = 0 ∧ o.ownsBackend = true
    · simp only [if_pos hlast]
      refine .inl ⟨a, ⟨rfl, hlast⟩, ?_⟩
      simp only [Sys.note, Sys.update, Book.drop, Book.note, Book.update, List.modify_modify_eq]
      rfl
    · simp only [if_neg hlast]
      exact .inr ⟨fun _ h => hlast h.2, rfl⟩

theorem drop_release : .release c ∈ (Book.drop b k n a).log ↔ .release c ∈ b.log ∨ c = a := by
  simp [Book.drop, Book.note, Book.update]

theorem drop_wrap : .wrap p c ∈ (Book.drop b k n a).log ↔ .wrap p c ∈ b.log := by
  simp [Book.drop, Book.note, Book.update]

theorem Owned.drop (h : Owned b) (ho : b.objs[k]? = some o) (hown : o.ownsBackend = true)
    (hb : o.backend = some a) : Owned (b.drop k n a) := by
  obtain ⟨hlt, hnot⟩ := h.owned o (List.mem_of_getElem? ho) hown a hb
  refine ⟨?_, fun x hx hown' c hc => ?_, fun c hm => ?_, ?_⟩
  · exact pairwise_modify (fun x y _ => ⟨fun _ _ _ hc => (nomatch hc),
      fun _ _ _ _ hc => (nomatch hc)⟩) h.other
  · obtain ⟨hmem, hother⟩ | rfl := mem_modify_other h.other ho hx
    · obtain ⟨hlt', hnot'⟩ := h.owned x hmem hown' c hc
      refine ⟨hlt', fun hm => (drop_release.1 hm).elim hnot' ?_⟩
      rintro rfl
      exact hother.elim (fun hne => hne c hown' hown hc hb) fun hne => hne c hown hown' hb hc
    · cases hc
  · rcases drop_release.1 hm with hm | rfl
    · exact h.released c hm
    · exact hlt
  · refine List.pairwise_append.2 ⟨h.once, List.pairwise_singleton _ _, fun x hx y hy c hxc hyc => ?_⟩
    rw [List.mem_singleton.1 hy] at hyc
    cases hyc
    exact hnot (hxc ▸ hx)

theorem Owned.edits (h : Owned b) (he : Edits counted tidy b b') : Owned b' := by
  induction he with
  | refl => exact h
  | tail _ he ih => exact ih.edit he

theorem Owned.step {s : Sys} (h : Owned s.toBook) (i : Input) : Owned (s.step i).toBook := by
  obtain ⟨iface, args, k, o, -, hf, hstep⟩ | he := step_edits s i
  · rw [hstep]
    obtain ⟨a, hlast, hbook⟩ | ⟨-, hbook⟩ := release_cases { s with asked := [] } k o
    · rw [hbook]
      exact h.drop (find_some hf).2.1 hlast.2.2 hlast.1
    · rw [hbook]
      exact h.update (up_alike _)
  · exact h.edits he

-- ---------------------------------------------------------------------------
-- The table in order
-- ---------------------------------------------------------------------------

/-- Backends are released after the objects made from them, and not used again. -/
structure Kept (b : Book) : Prop extends Base b where
  dead : ∀ p h, .wrap p h ∈ b.log → .release h ∈ b.log → b.Dead p
  shared : ∀ o ∈ b.objs, o.parent ≠ 0 → ∀ h, .wrap o.parent h ∈ b.log → .wrap o.guest h ∈ b.log
  unused : b.log.Pairwise fun x y => ∀ h, x = .release h → y ≠ .pass h
  drained : ∀ o ∈ b.objs, o.ownsBackend = true → o.refcount = 0 → o.backend = none

/-- Events that make nothing and release nothing. -/
def Plain (l : List Event) : Prop := (∀ a, Event.release a ∉ l) ∧ ∀ p a, Event.wrap p a ∉ l

theorem note_wrap {b : Book} (hl : Plain l) : .wrap p a ∈ (b.note l).log ↔ .wrap p a ∈ b.log :=
  ⟨fun h => (List.mem_append.1 h).resolve_right (hl.2 p a), fun h => List.mem_append_left _ h⟩

theorem Base.note (h : Base b) (hl : Plain l) : Base (b.note l) where
  toOwned := h.toOwned.note hl.1
  inUse := h.inUse
  apart := h.apart
  known p a hm := h.known p a ((note_wrap hl).1 hm)
  wraps o ho a hb := (note_wrap hl).2 (h.wraps o ho a hb)
  outside o ho hi := ⟨(h.outside o ho hi).1, (h.outside o ho hi).2.1, fun a hb =>
    ((h.outside o ho hi).2.2 a hb).note (hl.1 a)⟩
  resource o ho hp a hm hr := h.resource o ho hp a ((note_wrap hl).1 hm)
    fun hm' => hr ((note_release hl.1).2 hm')
  view := h.view

/-- No new event releases anything or uses what is released. -/
theorem unused_note {l l' : List Event}
    (h : l.Pairwise fun x y => ∀ a, x = .release a → y ≠ .pass a)
    (hl : ∀ a, Event.release a ∉ l') (hpass : ∀ a, .pass a ∈ l' → Event.release a ∉ l) :
    (l ++ l').Pairwise fun x y => ∀ a, x = .release a → y ≠ .pass a :=
  List.pairwise_append.2 ⟨h, List.pairwise_iff_forall_sublist.2 fun hs a he =>
    absurd (hs.subset (he ▸ List.mem_cons_self)) (hl a),
    fun _ hx _ hy a hxa hya => hpass a (hya ▸ hy) (hxa ▸ hx)⟩

theorem Kept.note (h : Kept b) (hl : Plain l)
    (hpass : ∀ a, .pass a ∈ l → Event.release a ∉ b.log) : Kept (b.note l) where
  toBase := h.toBase.note hl
  dead p a hm hr := h.dead p a ((note_wrap hl).1 hm) ((note_release hl.1).1 hr)
  shared o ho hp a hm := (note_wrap hl).2 (h.shared o ho hp a ((note_wrap hl).1 hm))
  unused := unused_note h.unused hl.1 hpass
  drained := h.drained

theorem Base.update (h : Base b) (hf : ∀ o, Alike (f o) o) : Base (b.update k f) where
  toOwned := h.toOwned.update hf
  inUse o ho := by
    obtain ⟨o', ho', hal⟩ := update_back hf ho
    rw [hal.inUse, hal.guest]
    exact h.inUse o' ho'
  apart := pairwise_modify (fun o o' hoo => by rw [(hf o).guest, (hf o').guest]; exact ⟨hoo, hoo⟩)
    h.apart
  known p a hm := by
    obtain ⟨hbelow, o, ho, hg⟩ := h.known p a hm
    obtain ⟨o', ho', hal⟩ := update_forth hf ho
    exact ⟨hbelow, o', ho', hal.guest.trans hg⟩
  wraps o ho a hb := by
    obtain ⟨o', ho', hal⟩ := update_back hf ho
    rw [hal.guest]
    exact h.wraps o' ho' a (hal.backend ▸ hb)
  outside o ho hi := by
    obtain ⟨o', ho', hal⟩ := update_back hf ho
    rw [hal.iface] at hi
    rw [hal.owns, hal.parent, hal.backend]
    obtain ⟨hown, hp, hun⟩ := h.outside o' ho' hi
    refine ⟨hown, hp, fun a hb => ⟨fun x hx hxo hxb => ?_, (hun a hb).2⟩⟩
    obtain ⟨x', hx', hal'⟩ := update_back hf hx
    exact (hun a hb).1 x' hx' (hal'.owns ▸ hxo) (hal'.backend ▸ hxb)
  resource o ho := by
    obtain ⟨o', ho', hal⟩ := update_back hf ho
    rw [hal.parent, hal.guest, hal.backend]
    exact h.resource o' ho'
  view o ho hp := by
    obtain ⟨o', ho', hal⟩ := update_back hf ho
    rw [hal.parent] at hp
    rw [hal.iface, hal.parent]
    obtain ⟨hi, p, hpm, hpg, hpp, hpi⟩ := h.view o' ho' hp
    obtain ⟨p', hp', halp⟩ := update_forth hf hpm
    exact ⟨hi, p', hp', halp.guest.trans hpg, halp.parent.trans hpp, halp.iface.trans hpi⟩

/-- An update that gives references only to objects without released backends. -/
theorem Kept.update (h : Kept b) (hf : ∀ o, Alike (f o) o)
    (hdead : ∀ o, b.objs[k]? = some o → o.refcount = 0 → (f o).refcount = 0 ∨
      ∀ a, .wrap o.guest a ∈ b.log → .release a ∉ b.log)
    (hdrain : ∀ o, b.objs[k]? = some o → o.ownsBackend = true → (f o).refcount = 0 →
      o.refcount = 0 ∨ o.backend = none) : Kept (b.update k f) where
  toBase := h.toBase.update hf
  dead p a hm hr o ho hg := by
    rcases mem_modify ho with ho | ⟨o', ho', rfl⟩
    · exact h.dead p a hm hr o ho hg
    · have hzero := h.dead p a hm hr o' (List.mem_of_getElem? ho') ((hf o').guest.symm.trans hg)
      refine (hdead o' ho' hzero).resolve_right fun hnot => ?_
      rw [(hf o').guest] at hg
      exact hnot a (hg ▸ hm) hr
  shared o ho := by
    obtain ⟨o', ho', hal⟩ := update_back hf ho
    rw [hal.parent, hal.guest]
    exact h.shared o' ho'
  unused := h.unused
  drained o ho hown hzero := by
    rcases mem_modify ho with ho | ⟨o', ho', rfl⟩
    · exact h.drained o ho hown hzero
    · have hm := List.mem_of_getElem? ho'
      rw [(hf o').owns] at hown
      rw [(hf o').backend]
      exact (hdrain o' ho' hown hzero).elim (h.drained o' hm hown) id

theorem mem_wraps {hs : List Handle} : Event.wrap p a ∈ hs.map (.wrap q) ↔ p = q ∧ a ∈ hs := by
  constructor
  · intro hm
    obtain ⟨c, hc, he⟩ := List.mem_map.1 hm
    cases he
    exact ⟨rfl, hc⟩
  · rintro ⟨rfl, ha⟩
    exact List.mem_map_of_mem ha

/-- What a new object is made from. -/
theorem made_from {r r' : Option Handle} (h : a ∈ r.toList ++ r'.toList) :
    r = some a ∨ r' = some a := by
  simpa [Option.mem_toList] using h

theorem Base.below (h : Base b) (ho : o ∈ b.objs) (hb : o.backend = some a) : b.Below a :=
  (h.known _ _ (h.wraps o ho a hb)).1

theorem Book.Fits.res_below (hf : Book.Fits b o res n) (h : Base b) (hr : res = some a) :
    b.Below a := by
  obtain ⟨-, hnone⟩ | ⟨p, hp, -, -, -, -, hb⟩ := hf.view
  · rw [hnone] at hr
    cases hr
  · exact h.below hp (hb.trans hr)

theorem Book.Fits.plain (hf : Book.Fits b o res n) (h : Base b) (hp : o.parent = 0) :
    res = none := by
  obtain ⟨-, hnone⟩ | ⟨p, hm, hg, -⟩ := hf.view
  · exact hnone
  · exact absurd (hg.trans hp) (h.inUse p hm).2

theorem Below.mono {b b' : Book} (h : b.Below a) (hg : b.gpus ≤ b'.gpus) : b'.Below a :=
  h.imp_right fun ⟨n, hn, he⟩ => ⟨n, Nat.lt_of_lt_of_le hn hg, he⟩

/-- The book with a new object. -/
def Book.add (b : Book) (o : ComObj) (res : Option Handle) (n : Nat) : Book :=
  ⟨b.objs ++ [o], b.gpus + n, b.log ++ (o.backend.toList ++ res.toList).map (.wrap o.guest)⟩

theorem add_mem (hx : x ∈ (Book.add b o res n).objs) : x ∈ b.objs ∨ x = o :=
  (List.mem_append.1 hx).imp_right List.mem_singleton.1

theorem add_wrap (hm : .wrap p a ∈ (Book.add b o res n).log) :
    .wrap p a ∈ b.log ∨ (p = o.guest ∧ (o.backend = some a ∨ res = some a)) :=
  (List.mem_append.1 hm).imp_right fun hw => (mem_wraps.1 hw).imp_right made_from

theorem add_release : .release a ∈ (Book.add b o res n).log ↔ .release a ∈ b.log :=
  note_release fun _ => wraps_release

theorem Base.add (h : Base b) (hb : b.Born o n) (hf : b.Fits o res n) : Base (b.add o res n) where
  toOwned := h.toOwned.new hb _
  inUse x hx := by
    rcases add_mem hx with hx | rfl
    · exact h.inUse x hx
    · exact ⟨hb.inUse.1, hb.guest⟩
  apart := List.pairwise_append.2 ⟨h.apart, List.pairwise_singleton _ _, fun x hx y hy => by
    rw [List.mem_singleton.1 hy]
    exact hf.fresh x hx⟩
  known p a hm := by
    rcases add_wrap hm with hm | ⟨rfl, ha⟩
    · obtain ⟨hbelow, x, hx, hg⟩ := h.known p a hm
      exact ⟨Below.mono hbelow (Nat.le_add_right ..), x, List.mem_append_left _ hx, hg⟩
    · refine ⟨?_, o, List.mem_append_right _ (List.mem_singleton.2 rfl), rfl⟩
      have hres : res = some a → (b.add o res n).Below a :=
        fun hr => Below.mono (hf.res_below h hr) (Nat.le_add_right ..)
      rcases ha with ha | ha
      · obtain ⟨rfl, hn⟩ | ⟨-, hbelow⟩ | hr := hf.backend a ha
        · exact .inr ⟨b.gpus, Nat.lt_add_of_pos_right hn, rfl⟩
        · exact Below.mono hbelow (Nat.le_add_right ..)
        · exact hres hr
      · exact hres ha
  wraps x hx a hback := by
    rcases add_mem hx with hx | rfl
    · exact List.mem_append_left _ (h.wraps x hx a hback)
    · exact List.mem_append_right _ (mem_wraps.2 ⟨rfl, by simp [hback]⟩)
  outside x hx hi := by
    rcases add_mem hx with hx' | rfl
    · obtain ⟨hown, hp, hun⟩ := h.outside x hx' hi
      refine ⟨hown, hp, fun a hback => ⟨fun y hy hyo hyb => ?_, fun hm =>
        (hun a hback).2 (add_release.1 hm)⟩⟩
      rcases add_mem hy with hy | rfl
      · exact (hun a hback).1 y hy hyo hyb
      · rw [(hb.owned hyo a hyb).1] at hback
        exact not_below (h.below hx' hback)
    · obtain ⟨hown, hp⟩ := hf.outside hi
      have hnone := hf.plain h hp
      refine ⟨hown, hp, fun a hback => ?_⟩
      have hun : b.Unowned a := by
        obtain ⟨rfl, -⟩ | ⟨hun, -⟩ | hr := hf.backend a hback
        · exact h.next
        · exact hun
        · rw [hnone] at hr
          cases hr
      refine ⟨fun y hy hyo => ?_, fun hm => hun.2 (add_release.1 hm)⟩
      rcases add_mem hy with hy | rfl
      · exact hun.1 y hy hyo
      · rw [hown] at hyo
        cases hyo
  resource x hx hp a hm hr := by
    rw [add_release] at hr
    rcases add_mem hx with hx | rfl
    · rcases add_wrap hm with hm | ⟨hg, -⟩
      · exact h.resource x hx hp a hm hr
      · exact absurd hg (hf.fresh x hx)
    · rcases add_wrap hm with hm | ⟨-, hback | hres⟩
      · obtain ⟨-, y, hy, hg⟩ := h.known _ a hm
        exact absurd hg (hf.fresh y hy)
      · exact hback
      · rw [hf.plain h hp] at hres
        cases hres
  view x hx hp := by
    rcases add_mem hx with hx | rfl
    · obtain ⟨hi, y, hy, hrest⟩ := h.view x hx hp
      exact ⟨hi, y, List.mem_append_left _ hy, hrest⟩
    · have hi : x.iface = .d3d11Child := by
        by_contra hi
        exact hp (hf.outside hi).2
      obtain ⟨hz, -⟩ | ⟨y, hy, hg, hyp, hyi, -⟩ := hf.view
      · exact absurd hz hp
      · exact ⟨hi, y, List.mem_append_left _ hy, hg, hyp, hyi⟩

/-- What has references has no released backend. -/
theorem Kept.alive (h : Kept b) (ho : o ∈ b.objs) (hl : 0 < o.refcount)
    (hw : .wrap o.guest a ∈ b.log) : .release a ∉ b.log := fun hr =>
  Nat.ne_of_gt hl (h.dead _ a hw hr o ho rfl)

theorem Kept.add (h : Kept b) (hb : b.Born o n) (hf : b.Fits o res n) : Kept (b.add o res n) where
  toBase := h.toBase.add hb hf
  dead p a hm hr x hx hg := by
    rw [add_release] at hr
    have hres : res ≠ some a := fun hres => by
      obtain ⟨-, hnone⟩ | ⟨y, hy, -, -, -, hl, hback⟩ := hf.view
      · rw [hnone] at hres
        cases hres
      · exact h.alive hy hl (h.wraps y hy a (hback.trans hres)) hr
    rcases add_wrap hm with hm' | ⟨-, hback | hback⟩
    · rcases add_mem hx with hx | rfl
      · exact h.dead p a hm' hr x hx hg
      · obtain ⟨-, y, hy, hyg⟩ := h.known p a hm'
        exact absurd (hyg.trans hg.symm) (hf.fresh y hy)
    · obtain ⟨rfl, -⟩ | ⟨hun, -⟩ | hres' := hf.backend a hback
      · exact absurd hr h.next.2
      · exact absurd hr hun.2
      · exact absurd hres' hres
    · exact absurd hback hres
  shared x hx hp a hm := by
    rcases add_mem hx with hx | rfl
    · obtain ⟨-, y, hy, hyg, -⟩ := h.view x hx hp
      rcases add_wrap hm with hm | ⟨hg, -⟩
      · exact List.mem_append_left _ (h.shared x hx hp a hm)
      · exact absurd (hyg.trans hg) (hf.fresh y hy)
    · obtain ⟨hz, -⟩ | ⟨y, hy, hg, hyp, -, hl, hback⟩ := hf.view
      · exact absurd hz hp
      · rcases add_wrap hm with hm | ⟨hself, -⟩
        · rw [← hg] at hm
          have hsome := h.resource y hy hyp a hm (h.alive hy hl hm)
          rw [hback] at hsome
          exact List.mem_append_right _ (mem_wraps.2 ⟨rfl, by simp [hsome]⟩)
        · exact absurd (hg.trans hself) (hf.fresh y hy)
  unused := unused_note h.unused (fun _ => wraps_release) fun a hm => by
    obtain ⟨_, -, hw⟩ := List.mem_map.1 hm
    cases hw
  drained x hx hown hz := by
    rcases add_mem hx with hx | rfl
    · exact h.drained x hx hown hz
    · rw [hb.inUse.2] at hz
      cases hz

theorem Kept.usable (h : Kept b) (hu : b.Usable a) : .release a ∉ b.log := by
  obtain hun | ⟨o, ho, hb, hl⟩ := hu
  · exact hun.2
  · exact h.alive ho hl (h.wraps o ho a hb)

theorem Kept.edit (h : Kept b) (he : Edit counted tidy b b') (hc : counted) (ht : tidy) :
    Kept b' := by
  cases he with
  | pass a hu =>
    refine h.note ⟨by simp, by simp⟩ fun c hm => ?_
    cases List.mem_singleton.1 hm
    exact h.usable (hu ht)
  | give p => exact h.note ⟨by simp, by simp⟩ (by simp)
  | gpu =>
    have hbase : Base { b with gpus := b.gpus + 1 } := by
      refine ⟨h.toOwned.edit (.gpu : Edit True True b _), h.inUse, h.apart,
        fun p a hm => ⟨Below.mono (h.known p a hm).1 (Nat.le_succ _), (h.known p a hm).2⟩, h.wraps,
        fun o ho hi => ?_, h.resource, h.view⟩
      obtain ⟨hown, hp, hun⟩ := h.outside o ho hi
      exact ⟨hown, hp, fun a hb => ⟨(hun a hb).1, (hun a hb).2⟩⟩
    exact ⟨hbase, h.dead, h.shared, h.unused, h.drained⟩
  | adjust k f hf =>
    have hcount : ∀ o, (f o).refcount = o.refcount := fun o => by
      have hcore := hf o
      unfold ComObj.core at hcore
      simp only [Prod.mk.injEq] at hcore
      exact hcore.2.2.2.1
    exact h.update (fun o => .of_core (hf o)) (fun o _ hz => .inl ((hcount o).trans hz))
      fun o _ _ hz => .inl ((hcount o).symm.trans hz)
  | up k hcount hlive =>
    refine h.update (up_alike _) (fun o ho hz => .inr fun a hw hr => ?_) fun o ho _ hz => ?_
    · -- a reference to an object without references comes from a view of it
      obtain hl | ⟨v, hv, hp, hvp, hl⟩ := hlive ht o ho
      · exact Nat.ne_of_gt hl hz
      · exact h.alive hv hl (h.shared v hv hp a (hvp ▸ hw)) hr
    · have hlt := hcount hc o ho
      dsimp only at hz
      omega
  | new o res n hb hf => exact h.add hb (hf ht)

-- ---------------------------------------------------------------------------
-- References given back
-- ---------------------------------------------------------------------------

section Drop
variable {b : Book} {o : ComObj} {k n : Nat} {a : Handle}

theorem Base.drop_back (h : Base b) (ho : b.objs[k]? = some o) (hx : x ∈ (b.drop k n a).objs) :
    (x ∈ b.objs ∧ x.guest ≠ o.guest) ∨ x = { o with refcount := n, backend := none } :=
  (mem_modify_other h.apart ho hx).imp_left fun hm => ⟨hm.1, hm.2.elim id Ne.symm⟩

/-- The entry that an entry was. -/
theorem Base.drop_was (h : Base b) (ho : b.objs[k]? = some o) (hx : x ∈ (b.drop k n a).objs) :
    ∃ y ∈ b.objs, x.inUse = y.inUse ∧ x.iface = y.iface ∧ x.guest = y.guest ∧
      x.ownsBackend = y.ownsBackend ∧ x.parent = y.parent ∧
      ∀ c, x.backend = some c → y.backend = some c := by
  obtain ⟨hm, -⟩ | rfl := h.drop_back ho hx
  · exact ⟨x, hm, rfl, rfl, rfl, rfl, rfl, fun _ hc => hc⟩
  · exact ⟨o, List.mem_of_getElem? ho, rfl, rfl, rfl, rfl, rfl, fun _ hc => (nomatch hc)⟩

theorem drop_forth (hx : x ∈ b.objs) : ∃ y ∈ (b.drop k n a).objs, y.iface = x.iface ∧
    y.guest = x.guest ∧ y.parent = x.parent := by
  obtain ⟨j, hj⟩ := List.mem_iff_getElem?.1 hx
  by_cases hkj : k = j
  · refine ⟨{ x with refcount := n, backend := none }, List.mem_of_getElem? (i := j) ?_, rfl, rfl,
      rfl⟩
    rw [Book.drop, Book.note, Book.update, List.getElem?_modify, hj, hkj]
    simp
  · refine ⟨x, List.mem_of_getElem? (i := j) ?_, rfl, rfl, rfl⟩
    rw [Book.drop, Book.note, Book.update, List.getElem?_modify, hj]
    simp [hkj]

theorem Base.drop (h : Base b) (ho : b.objs[k]? = some o) (hown : o.ownsBackend = true)
    (hb : o.backend = some a) : Base (b.drop k n a) where
  toOwned := h.toOwned.drop ho hown hb
  inUse x hx := by
    obtain ⟨y, hy, hu, -, hg, -⟩ := h.drop_was ho hx
    rw [hu, hg]
    exact h.inUse y hy
  apart := pairwise_modify (fun _ _ hxy => ⟨hxy, hxy⟩) h.apart
  known p c hm := by
    obtain ⟨hbelow, x, hx, hg⟩ := h.known p c (drop_wrap.1 hm)
    obtain ⟨y, hy, -, hyg, -⟩ := drop_forth (k := k) (n := n) (a := a) hx
    exact ⟨hbelow, y, hy, hyg.trans hg⟩
  wraps x hx c hc := by
    obtain ⟨y, hy, -, -, hg, -, -, hback⟩ := h.drop_was ho hx
    rw [drop_wrap, hg]
    exact h.wraps y hy c (hback c hc)
  outside x hx hi := by
    obtain ⟨y, hy, -, hyi, -, hyo, hyp, hback⟩ := h.drop_was ho hx
    rw [hyi] at hi
    obtain ⟨hno, hp, hun⟩ := h.outside y hy hi
    refine ⟨hyo.trans hno, hyp.trans hp, fun c hc => ⟨fun z hz hzo hzb => ?_, fun hm => ?_⟩⟩
    · obtain ⟨w, hw, -, -, -, hwo, -, hwb⟩ := h.drop_was ho hz
      exact (hun c (hback c hc)).1 w hw (hwo ▸ hzo) (hwb c hzb)
    · rcases drop_release.1 hm with hm | rfl
      · exact (hun c (hback c hc)).2 hm
      · exact (hun c (hback c hc)).1 o (List.mem_of_getElem? ho) hown hb
  resource x hx hp c hm hr := by
    rw [drop_wrap] at hm
    rw [drop_release, not_or] at hr
    obtain ⟨hx, -⟩ | rfl := h.drop_back ho hx
    · exact h.resource x hx hp c hm hr.1
    · have hsome := h.resource o (List.mem_of_getElem? ho) hp c hm hr.1
      rw [hb] at hsome
      exact absurd (Option.some.inj hsome).symm hr.2
  view x hx hp := by
    obtain ⟨y, hy, -, hyi, -, -, hyp, -⟩ := h.drop_was ho hx
    rw [hyp] at hp
    rw [hyi, hyp]
    obtain ⟨hi, z, hz, hzg, hzp, hzi⟩ := h.view y hy hp
    obtain ⟨w, hw, hwi, hwg, hwp⟩ := drop_forth (k := k) (n := n) (a := a) hz
    exact ⟨hi, w, hw, hwg.trans hzg, hwp.trans hzp, hwi.trans hzi⟩

/-- The last reference of an owner, after those of all objects made from its backend. -/
theorem Kept.drop (h : Kept b) (ho : b.objs[k]? = some o) (hown : o.ownsBackend = true)
    (hb : o.backend = some a)
    (hall : ∀ q, .wrap q a ∈ b.log → q ≠ o.guest → b.Dead q) : Kept (b.drop k 0 a) where
  toBase := h.toBase.drop ho hown hb
  dead p c hm hr x hx hg := by
    rw [drop_wrap] at hm
    obtain ⟨hx', hne⟩ | rfl := h.drop_back ho hx
    · rcases drop_release.1 hr with hr | rfl
      · exact h.dead p c hm hr x hx' hg
      · exact hall p hm (fun he => hne (hg.trans he)) x hx' hg
    · rfl
  shared x hx hp c hm := by
    obtain ⟨y, hy, -, -, hg, -, hyp, -⟩ := h.drop_was ho hx
    rw [drop_wrap, hg]
    rw [drop_wrap, hyp] at hm
    exact h.shared y hy (hyp ▸ hp) c hm
  unused := List.pairwise_append.2 ⟨h.unused, List.pairwise_singleton _ _, fun x _ y hy c _ hyc => by
    rw [List.mem_singleton.1 hy] at hyc
    cases hyc⟩
  drained x hx hxo hz := by
    obtain ⟨hx, -⟩ | rfl := h.drop_back ho hx
    · exact h.drained x hx hxo hz
    · rfl

end Drop

theorem Kept.release {s : Sys} (h : Kept s.toBook) (ho : s.objs[k]? = some o) (hl : 0 < o.refcount)
    (hall : o.refcount = 1 → o.ownsBackend = true → ∀ a, o.backend = some a → ∀ q,
      .wrap q a ∈ s.log → q ≠ o.guest → s.toBook.Dead q) : Kept (s.release k o).toBook := by
  obtain ⟨a, ⟨hb, hz, hown⟩, hbook⟩ | ⟨hnot, hbook⟩ := release_cases s k o
  · rw [hbook, hz]
    exact h.drop ho hown hb (hall (by omega) hown a hb)
  · rw [hbook]
    refine h.update (up_alike _) (fun o' ho' hz => ?_) fun o' ho' hown hz => .inr ?_
    · rw [ho] at ho'
      cases ho'
      exact absurd hz (Nat.ne_of_gt hl)
    · rw [ho] at ho'
      cases ho'
      cases hb : o.backend with
      | none => rfl
      | some a => exact absurd ⟨hb, hz, hown⟩ (hnot a)

theorem Kept.edits (h : Kept b) (he : Edits counted tidy b b') (hc : counted) (ht : tidy) :
    Kept b' := by
  induction he with
  | refl => exact h
  | tail _ he ih => exact ih.edit he hc ht

theorem Kept.step {s : Sys} (h : Kept s.toBook) (hs : Sound s.toBook i) (ho : i.Ordered s.toBook) :
    Kept (s.step i).toBook := by
  have htidy : Tidy s.toBook i := ⟨h.toBase, hs, ho⟩
  obtain ⟨iface, args, k, o, ha, hf, hstep⟩ | he := step_edits s i
  · rw [hstep]
    obtain ⟨hm, hg, hl, -⟩ := htidy.self ha hf
    refine Kept.release (s := { s with asked := [] }) h (find_some hf).2.1 hl fun hone hown a hb q hq
      hne => (ho iface 2 args ha).last rfl o hm hg hone hown a hb q hq (hg ▸ hne)
  · exact h.edits he hs.counted htidy

end WineGlass.Com
