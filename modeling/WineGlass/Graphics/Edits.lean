import Mathlib.Logic.Relation
import WineGlass.Graphics.Com

/-!
# What a call does to the table

Every call but `Release` is a chain of a few edits of the table and the log. Each edit says what it
does in any case, and under which conditions on the caller it also keeps backends and views in
order.
-/

namespace WineGlass.Com

open Fields Relation

-- ---------------------------------------------------------------------------
-- Conditions
-- ---------------------------------------------------------------------------

/-- A handle that the book may know. -/
def Book.Below (b : Book) (h : Handle) : Prop := h = .stub ∨ ∃ n < b.gpus, h = .made n

/-- Nobody owns the object, and it was not released. -/
def Book.Unowned (b : Book) (h : Handle) : Prop :=
  (∀ o ∈ b.objs, o.ownsBackend = true → o.backend ≠ some h) ∧ Event.release h ∉ b.log

/-- The backend of an object with references, or of one that shares it for good. -/
def Book.Usable (b : Book) (h : Handle) : Prop :=
  b.Unowned h ∨ ∃ o ∈ b.objs, o.backend = some h ∧ 0 < o.refcount

/-- The guest's memory still has the numbers of the objects. -/
def Book.Headers (b : Book) (m : Mem) : Prop :=
  ∀ i o, b.objs[i]? = some o → get m (idField o.guest) = i

/-- The caller's memory and what its environment answers are in order. -/
structure Sound (b : Book) (i : Input) : Prop where
  headers : b.Headers i.mem
  fresh : ∀ k, i.env.alloc k ≠ 0 → ∀ o ∈ b.objs, o.guest ≠ i.env.alloc k
  apart : ∀ k l, k ≠ l → i.env.alloc k ≠ 0 → i.env.alloc k ≠ i.env.alloc l
  counted : ∀ o ∈ b.objs, o.refcount + 1 < 2 ^ 32

/-- The object at an address has references. -/
def Book.Live (b : Book) (p : Nat) : Prop := ∃ o ∈ b.objs, o.guest = p ∧ 0 < o.refcount

/-- The object at an address has none. -/
def Book.Dead (b : Book) (p : Nat) : Prop := ∀ o ∈ b.objs, o.guest = p → o.refcount = 0

/-- NULL, or a buffer or texture with references. -/
def Book.Resource (b : Book) (p : Nat) : Prop :=
  p = 0 ∨ ∃ o ∈ b.objs, o.guest = p ∧ 0 < o.refcount ∧ o.iface = .d3d11Child ∧ o.parent = 0

/-- The objects that a method of the context hands to the GPU layer. -/
def named (m : Mem) (args : Nat → Nat) (method : Nat) : List Nat :=
  if method = 15 then [args 1] else (bindings m args method).getD []

/-- The caller uses objects with references only, each through its own interface, and gives the last
reference of an owner back after those of all others that are made from its backend. -/
structure Ordered (b : Book) (m : Mem) (iface : Iface) (method : Nat) (args : Nat → Nat) : Prop where
  self : ∃ o ∈ b.objs, o.guest = args 0 ∧ 0 < o.refcount ∧ o.iface = iface
  resource : iface = .d3d11Device → ∀ k, deviceMaking m args method = some k → k.view = true →
    b.Resource (args 1)
  bound : iface = .d3d11Context → ∀ p ∈ named m args method, p = 0 ∨ b.Live p
  last : method = 2 → ∀ o ∈ b.objs, o.guest = args 0 → o.refcount = 1 → o.ownsBackend = true →
    ∀ h, o.backend = some h → ∀ q, .wrap q h ∈ b.log → q ≠ args 0 → b.Dead q

def Input.Ordered (i : Input) (b : Book) : Prop :=
  ∀ iface method args, i.act = .call iface method args → Com.Ordered b i.mem iface method args

/-- Two entries of the table own different objects. -/
def Other (o o' : ComObj) : Prop :=
  ∀ h, o.ownsBackend = true → o'.ownsBackend = true → o.backend = some h → o'.backend ≠ some h

/-- Every owned object of the GPU layer has one owner, and nothing was released twice. -/
structure Owned (b : Book) : Prop where
  other : b.objs.Pairwise Other
  owned : ∀ o ∈ b.objs, o.ownsBackend = true → ∀ h, o.backend = some h →
    (∃ n < b.gpus, h = .made n) ∧ .release h ∉ b.log
  released : ∀ h, .release h ∈ b.log → ∃ n < b.gpus, h = .made n
  once : b.log.Pairwise fun x y => ∀ h, x = .release h → y ≠ .release h

/-- The table and the log agree. -/
structure Base (b : Book) : Prop extends Owned b where
  inUse : ∀ o ∈ b.objs, o.inUse = true ∧ o.guest ≠ 0
  apart : b.objs.Pairwise fun o o' => o.guest ≠ o'.guest
  known : ∀ p h, .wrap p h ∈ b.log → b.Below h ∧ ∃ o ∈ b.objs, o.guest = p
  wraps : ∀ o ∈ b.objs, ∀ h, o.backend = some h → .wrap o.guest h ∈ b.log
  outside : ∀ o ∈ b.objs, o.iface ≠ .d3d11Child → o.ownsBackend = false ∧ o.parent = 0 ∧
    ∀ h, o.backend = some h → b.Unowned h
  resource : ∀ o ∈ b.objs, o.parent = 0 → ∀ h, .wrap o.guest h ∈ b.log → .release h ∉ b.log →
    o.backend = some h
  view : ∀ o ∈ b.objs, o.parent ≠ 0 → o.iface = .d3d11Child ∧
    ∃ p ∈ b.objs, p.guest = o.parent ∧ p.parent = 0 ∧ p.iface = .d3d11Child

-- ---------------------------------------------------------------------------
-- Edits
-- ---------------------------------------------------------------------------

def Book.note (b : Book) (l : List Event) : Book := { b with log := b.log ++ l }

def Book.update (b : Book) (id : Nat) (f : ComObj → ComObj) : Book :=
  { b with objs := b.objs.modify id f }

/-- What an object is, apart from the caller's data in it. -/
def ComObj.core (o : ComObj) : Bool × Iface × Nat × Nat × Option Handle × Bool × Nat :=
  (o.inUse, o.iface, o.guest, o.refcount, o.backend, o.ownsBackend, o.parent)

/-- What is new is in use, has one reference and owns nothing but a new backend. -/
structure Book.Born (b : Book) (o : ComObj) (n : Nat) : Prop where
  inUse : o.inUse = true ∧ o.refcount = 1
  guest : o.guest ≠ 0
  owned : o.ownsBackend = true → ∀ h, o.backend = some h → h = .made b.gpus ∧ 0 < n

/-- A new object that is made from a backend nobody owns or from a resource with references. -/
structure Book.Fits (b : Book) (o : ComObj) (res : Option Handle) (n : Nat) : Prop where
  fresh : ∀ o' ∈ b.objs, o'.guest ≠ o.guest
  backend : ∀ h, o.backend = some h →
    (h = .made b.gpus ∧ 0 < n) ∨ (b.Unowned h ∧ b.Below h) ∨ res = some h
  outside : o.iface ≠ .d3d11Child → o.ownsBackend = false ∧ o.parent = 0
  view : (o.parent = 0 ∧ res = none) ∨ ∃ p ∈ b.objs, p.guest = o.parent ∧ p.parent = 0 ∧
    p.iface = .d3d11Child ∧ 0 < p.refcount ∧ p.backend = res

inductive Edit (counted tidy : Prop) (b : Book) : Book → Prop
  | pass (h : Handle) (ht : tidy → b.Usable h) : Edit counted tidy b (b.note [.pass h])
  | give (p : Nat) : Edit counted tidy b (b.note [.give p])
  | gpu : Edit counted tidy b { b with gpus := b.gpus + 1 }
  | adjust (id : Nat) (f : ComObj → ComObj) (hf : ∀ o, (f o).core = o.core) :
    Edit counted tidy b (b.update id f)
  | up (id : Nat) (hc : counted → ∀ o, b.objs[id]? = some o → o.refcount + 1 < 2 ^ 32)
    (ht : tidy → ∀ o, b.objs[id]? = some o → 0 < o.refcount ∨
      ∃ v ∈ b.objs, v.parent ≠ 0 ∧ v.parent = o.guest ∧ 0 < v.refcount) :
    Edit counted tidy b
      (b.update id fun o => { o with refcount := (o.refcount + 1) % 2 ^ 32 })
  | new (o : ComObj) (res : Option Handle) (n : Nat) (hb : b.Born o n) (ht : tidy → b.Fits o res n) :
    Edit counted tidy b
      ⟨b.objs ++ [o], b.gpus + n, b.log ++ (o.backend.toList ++ res.toList).map (.wrap o.guest)⟩

abbrev Edits (counted tidy : Prop) : Book → Book → Prop := ReflTransGen (Edit counted tidy)

theorem Book.Unowned.note (h : Book.Unowned b a) (hl : Event.release a ∉ l) :
    (b.note l).Unowned a :=
  ⟨h.1, fun hm => (List.mem_append.1 hm).elim h.2 hl⟩

theorem Book.Usable.note (h : Book.Usable b a) (hl : ∀ a, Event.release a ∉ l) :
    (b.note l).Usable a := h.imp (fun hu => hu.note (hl a)) id

theorem edits_pass (hs : List Handle) (ht : tidy → ∀ h ∈ hs, Book.Usable b h) :
    Edits counted tidy b (b.note (hs.map .pass)) := by
  induction hs generalizing b with
  | nil =>
    have hb : b.note ([].map .pass) = b := by simp [Book.note]
    rw [hb]
  | cons h hs ih =>
    refine (ReflTransGen.single (.pass h fun t => ht t h List.mem_cons_self)).trans ?_
    have hb : b.note ((h :: hs).map .pass) = (b.note [.pass h]).note (hs.map .pass) := by
      simp [Book.note]
    rw [hb]
    exact ih fun t a ha => (ht t a (List.mem_cons_of_mem _ ha)).note (by simp)

theorem Edits.pass (s : Sys) (hs : List (Option Handle))
    (ht : tidy → ∀ h, some h ∈ hs → s.toBook.Usable h) :
    Edits counted tidy s.toBook (s.pass hs).toBook :=
  edits_pass _ fun t h hm => ht t h (by simpa using hm)

theorem Edits.putPtr (s : Sys) (out p : Nat) :
    Edits counted tidy s.toBook (s.putPtr out p).toBook := by
  unfold Sys.putPtr
  split
  · exact .refl
  · exact .single (.give p)

theorem Edits.gpuMake (s : Sys) (ok : Bool) :
    Edits counted tidy s.toBook (s.gpuMake ok).1.toBook := by
  cases ok with
  | false => exact .refl
  | true => exact .single .gpu

-- ---------------------------------------------------------------------------
-- Looking up and creating
-- ---------------------------------------------------------------------------

/-- What `com_new` puts into the table. -/
def newObj (iface : Iface) (backend : Option Handle) (guest : Nat) : ComObj :=
  { inUse := true, iface, guest, refcount := 1, backend }

/-- The memory after `com_new`. -/
def headed (s : Sys) (m : Mem) (iface : Iface) (guest : Nat) : Mem :=
  setAll m [(⟨guest, 8⟩, s.vtable iface), (idField guest, s.objs.length),
    (⟨(guest + 12) % 2 ^ 32, 4⟩, iface.index)]

/-- There is an entry and an address for a new object. -/
def Sys.Room (s : Sys) (guest : Nat) : Prop := s.objs.length < maxCom ∧ guest ≠ 0

theorem comNew_full (h : ¬ Sys.Room s g) :
    s.comNew m iface backend g = ({ s with asked := s.asked ++ [(s.live, 0)] }, m, 0) := by
  refine if_pos ?_
  by_contra hne
  obtain ⟨hlen, hg⟩ := not_or.1 hne
  exact h ⟨Nat.lt_of_not_le hlen, hg⟩

theorem comNew_room (h : Sys.Room s g) :
    s.comNew m iface backend g =
      ({ s with
          objs := s.objs ++ [newObj iface backend g]
          log := s.log ++ backend.toList.map (.wrap g)
          asked := s.asked ++ [(s.live, g)] }, headed s m iface g, g) :=
  if_neg (not_or.2 ⟨Nat.not_le_of_lt h.1, h.2⟩)

theorem find_some (h : Sys.comFromThis s m p = some (k, o)) :
    p ≠ 0 ∧ s.objs[k]? = some o ∧ o.inUse = true := by
  unfold Sys.comFromThis at h
  split at h
  · cases h
  · rename_i hp
    split at h
    · rename_i o' ho
      split at h
      · rename_i hu
        cases h
        exact ⟨hp, ho, hu⟩
      · cases h
    · cases h

theorem find_eq (hp : p ≠ 0) (hid : get m (idField p) = k) (ho : s.objs[k]? = some o)
    (hu : o.inUse = true) : Sys.comFromThis s m p = some (k, o) := by
  subst hid
  unfold Sys.comFromThis
  rw [if_neg hp, ho]
  exact if_pos hu

/-- `com_from_this` finds what `com_new` has made. -/
theorem find_new (h : Sys.Room s g) (b : Book)
    (hb : b.objs = s.objs ++ [newObj iface backend g]) (v a r) :
    Sys.comFromThis ⟨b, v, a, r⟩ (headed s m iface g) g =
      some (s.objs.length, newObj iface backend g) := by
  refine find_eq h.2 ?_ ?_ rfl
  · have hlen := h.1
    unfold maxCom at hlen
    rw [headed, setAll, List.foldl_cons, List.foldl_cons, List.foldl_cons, List.foldl_nil,
      get_set_apart (by unfold Extent.Apart idField; dsimp only; omega), get_set]
    exact Nat.mod_eq_of_lt (show s.objs.length < 256 ^ 4 by omega)
  · dsimp only
    rw [hb, List.getElem?_concat_length]

theorem find_live (hh : s.Headers m) (ho : s.objs[j]? = some o) (hg : o.guest = p)
    (h : Sys.comFromThis s m p = some (k, o')) : k = j ∧ o' = o := by
  obtain ⟨-, hid, -⟩ := find_some h
  have hget : get m (idField p) = k := by
    unfold Sys.comFromThis at h
    split at h
    · cases h
    · split at h
      · split at h
        · cases h
          rfl
        · cases h
      · cases h
  have hj := hh j o ho
  rw [hg, hget] at hj
  subst hj
  rw [ho] at hid
  exact ⟨rfl, (Option.some.inj hid).symm⟩

theorem modify_concat (l : List α) (a : α) (f : α → α) :
    (l ++ [a]).modify l.length f = l ++ [f a] := by
  induction l with
  | nil => rfl
  | cons x l ih =>
    rw [List.cons_append, List.length_cons, List.modify_succ_cons, ih]
    rfl

/-- The object of a creating method. -/
def Making.obj (k : Making) (backend : Option Handle) (res guest : Nat) : ComObj :=
  k.fill res (newObj k.iface backend guest)

/-- The resource that it is a view of. -/
def Making.source? (k : Making) (res : Option Handle) : Option Handle :=
  if k.view then res else none

theorem enter_full (h : ¬ Sys.Room s (e.alloc 0)) :
    s.enter m k backend res args e = { s with asked := s.asked ++ [(s.live, 0)] } := by
  rw [Sys.enter, comNew_full h]
  exact if_pos (.inr rfl)

theorem enter_room (h : Sys.Room s (e.alloc 0)) :
    s.enter m k backend res args e =
      Sys.putPtr { s with
        objs := s.objs ++ [k.obj backend (args 1) (e.alloc 0)]
        log := s.log ++ (backend.toList ++ (k.source? res).toList).map (.wrap (e.alloc 0))
        asked := s.asked ++ [(s.live, e.alloc 0)] } (args k.out) (e.alloc 0) := by
  rw [Sys.enter, comNew_room h]
  dsimp only
  rw [find_new h _ rfl]
  have hmod : (s.objs ++ [newObj k.iface backend (e.alloc 0)]).modify s.objs.length
      (k.fill (args 1)) = s.objs ++ [k.obj backend (args 1) (e.alloc 0)] := modify_concat ..
  have hwrap : (if k.view then res.toList.map (Event.wrap (e.alloc 0)) else []) =
      (k.source? res).toList.map (.wrap (e.alloc 0)) := by
    unfold Making.source?
    cases k.view <;> rfl
  dsimp only [Sys.note, Sys.update]
  rw [hmod, hwrap, List.append_assoc, ← List.map_append]

/-- What the tables of creating methods have in common. -/
structure Making.Sane (k : Making) : Prop where
  view : k.source = .wrapped ∨ k.source = .same → k.view = true
  owns : k.owns = true → k.source = .made ∨ k.source = .wrapped
  child : k.view = true ∨ k.owns = true → k.iface = .d3d11Child

/-- A creating method of an object that is no child, with a proper resource. -/
structure Ready (s : Sys) (m : Mem) (o : ComObj) (k : Making) (args : Nat → Nat) (e : Env) :
    Prop where
  base : Base s.toBook
  headers : s.Headers m
  fresh : e.alloc 0 ≠ 0 → ∀ o' ∈ s.objs, o'.guest ≠ e.alloc 0
  self : o ∈ s.objs ∧ o.iface ≠ .d3d11Child
  resource : k.view = true → s.Resource (args 1)

theorem Base.loose (hb : Base b) (ho : o ∈ b.objs) (hi : o.iface ≠ .d3d11Child)
    (h : o.backend = some a) : b.Unowned a ∧ b.Below a :=
  ⟨(hb.outside o ho hi).2.2 a h, (hb.known _ _ (hb.wraps o ho a h)).1⟩

/-- A live object is found at its address. -/
theorem find_at (hb : Base s.toBook) (hh : Book.Headers s.toBook m) (ho : o ∈ s.objs) :
    ∃ k, s.objs[k]? = some o ∧ Sys.comFromThis s m o.guest = some (k, o) := by
  obtain ⟨k, hk⟩ := List.mem_iff_getElem?.1 ho
  exact ⟨k, hk, find_eq (hb.inUse o ho).2 (hh k o hk) hk (hb.inUse o ho).1⟩

theorem Ready.source (h : Ready s m o k args e) (hv : k.view = true) :
    (args 1 = 0 ∧ s.backendOf m (args 1) = none) ∨ ∃ p ∈ s.objs, p.guest = args 1 ∧ p.parent = 0 ∧
      p.iface = .d3d11Child ∧ 0 < p.refcount ∧ p.backend = s.backendOf m (args 1) := by
  obtain hz | ⟨p, hp, hg, hl, hi, hr⟩ := h.resource hv
  · exact .inl ⟨hz, by rw [Sys.backendOf, Sys.comFromThis, if_pos hz]; rfl⟩
  · obtain ⟨j, -, hf⟩ := find_at h.base h.headers hp
    rw [hg] at hf
    exact .inr ⟨p, hp, hg, hr, hi, hl, by rw [Sys.backendOf, hf]; rfl⟩

theorem Ready.fits (h : Ready s m o k args e) (hk : k.Sane) (hobjs : s'.objs = s.objs)
    (hroom : Sys.Room s' (e.alloc 0))
    (hback : ∀ a, backend = some a → (a = .made s'.gpus ∧ 0 < n) ∨
      (s'.toBook.Unowned a ∧ s'.toBook.Below a) ∨ k.source? (s.backendOf m (args 1)) = some a) :
    s'.toBook.Fits (k.obj backend (args 1) (e.alloc 0)) (k.source? (s.backendOf m (args 1))) n := by
  refine ⟨?_, hback, fun hi => ?_, ?_⟩
  · rw [hobjs]
    exact h.fresh hroom.2
  · cases hv : k.view with
    | true => exact absurd (hk.child (.inl hv)) hi
    | false =>
      cases hw : k.owns with
      | true => exact absurd (hk.child (.inr hw)) hi
      | false => exact ⟨hw, by simp [Making.obj, Making.fill, hv]⟩
  · unfold Making.source? Making.obj Making.fill
    cases hv : k.view with
    | false => exact .inl ⟨rfl, rfl⟩
    | true =>
      obtain hz | hp := h.source hv
      · exact .inl hz
      · rw [hobjs]
        exact .inr hp

theorem enter_edits (s : Sys) (hn : n ≤ 1)
    (hb : k.owns = true → ∀ h, backend = some h → h = .made s.gpus ∧ 0 < n)
    (ht : tidy → Sys.Room s (e.alloc 0) →
      s.toBook.Fits (k.obj backend (args 1) (e.alloc 0)) (k.source? res) n) :
    Edits counted tidy s.toBook
      (Sys.enter { s with gpus := s.gpus + n } m k backend res args e).toBook := by
  by_cases hroom : Sys.Room s (e.alloc 0)
  · rw [enter_room (s := { s with gpus := s.gpus + n }) hroom]
    exact (ReflTransGen.single
      (.new (k.obj backend (args 1) (e.alloc 0)) (k.source? res) n ⟨⟨rfl, rfl⟩, hroom.2, hb⟩
        fun t => ht t hroom)).trans (Edits.putPtr _ ..)
  · rw [enter_full (s := { s with gpus := s.gpus + n }) hroom]
    cases n with
    | zero => exact .refl
    | succ n =>
      obtain rfl : n = 0 := by omega
      exact .single .gpu

/-- A creating method that asks the GPU layer. -/
theorem made_edits (hs : List (Option Handle)) (ok : Bool)
    (hu : tidy → ∀ h, some h ∈ hs → s.toBook.Usable h) (hk : k.Sane)
    (ht : tidy → Ready s m o k args e) (hres : k.source? (s.backendOf m (args 1)) = k.source? res) :
    Edits counted tidy s.toBook (Sys.enter ((s.pass hs).gpuMake ok).1 m k ((s.pass hs).gpuMake ok).2
      res args e).toBook := by
  refine (Edits.pass s hs hu).trans ?_
  cases ok with
  | false =>
    refine enter_edits (n := 0) (s.pass hs) (Nat.zero_le _) (fun _ _ h => ?_) fun t hroom => ?_
    · cases h
    · rw [← hres]
      exact (ht t).fits hk rfl hroom fun _ h => by cases h
  | true =>
    refine enter_edits (n := 1) (s.pass hs) (Nat.le_refl _) (fun _ a h => ?_) fun t hroom => ?_
    · cases h
      exact ⟨rfl, Nat.one_pos⟩
    · rw [← hres]
      refine (ht t).fits hk rfl hroom fun a h => .inl ?_
      cases h
      exact ⟨rfl, Nat.one_pos⟩

theorem create_edits (s : Sys) (m : Mem) (o : ComObj) (args : Nat → Nat) (e : Env) (hk : k.Sane)
    (ht : tidy → Ready s m o k args e) :
    Edits counted tidy s.toBook (s.create m o k args e).toBook := by
  have hself : tidy → ∀ h, o.backend = some h → s.toBook.Usable h := fun t h ha =>
    .inl ((ht t).base.loose (ht t).self.1 (ht t).self.2 ha).1
  unfold Sys.create Sys.backendFor
  cases hsrc : k.source with
  | null =>
    refine enter_edits (n := 0) s (Nat.zero_le _) (fun _ _ h => ?_) fun t hroom => ?_
    · cases h
    · exact (ht t).fits hk rfl hroom fun _ h => by cases h
  | shared =>
    refine enter_edits (n := 0) s (Nat.zero_le _) (fun ho => ?_) fun t hroom => ?_
    · rcases hk.owns ho with h | h <;> rw [hsrc] at h <;> cases h
    · exact (ht t).fits hk rfl hroom fun a h => .inr (.inl
        ((ht t).base.loose (ht t).self.1 (ht t).self.2 h))
  | made =>
    exact made_edits [o.backend] (e.gpu 0) (fun t h hm => hself t h (List.mem_singleton.1 hm).symm)
      hk ht rfl
  | wrapped =>
    have hview := hk.view (.inl hsrc)
    refine made_edits [o.backend, s.backendOf m (args 1)] (e.gpu 0) (fun t h hm => ?_) hk ht rfl
    rcases List.mem_cons.1 hm with hm | hm
    · exact hself t h hm.symm
    · obtain ⟨-, hz⟩ | ⟨p, hp, -, -, -, hl, hb⟩ := (ht t).source hview
      · rw [← List.mem_singleton.1 hm] at hz
        cases hz
      · exact .inr ⟨p, hp, hb.trans (List.mem_singleton.1 hm).symm, hl⟩
  | same =>
    have hview := hk.view (.inr hsrc)
    refine enter_edits (n := 0) s (Nat.zero_le _) (fun ho => ?_) fun t hroom => ?_
    · rcases hk.owns ho with h | h <;> rw [hsrc] at h <;> cases h
    · refine (ht t).fits hk rfl hroom fun a h => .inr (.inr ?_)
      rw [Making.source?, if_pos hview]
      exact h

theorem deviceMaking_sane (h : deviceMaking m args method = some k) : k.Sane := by
  unfold deviceMaking at h
  split at h <;> cases h
  all_goals exact ⟨by grind, by simp, by simp⟩

theorem dxgiMaking_sane (h : dxgiMaking args iface method = some k) :
    k.Sane ∧ k.view = false ∧ iface ≠ .d3d11Child := by
  unfold dxgiMaking at h
  split at h <;> (try split at h) <;> cases h
  all_goals exact ⟨⟨by simp, by simp, by simp⟩, rfl, by simp⟩

-- ---------------------------------------------------------------------------
-- The other handlers
-- ---------------------------------------------------------------------------

theorem comNew_edits (s : Sys) (iface : Iface) (backend : Option Handle) (hn : n ≤ 1)
    (ht : tidy → Sys.Room s g → (∀ o ∈ s.objs, o.guest ≠ g) ∧ ∀ a, backend = some a →
      (a = .made s.gpus ∧ 0 < n) ∨ (s.toBook.Unowned a ∧ s.toBook.Below a)) :
    Edits counted tidy s.toBook
      (Sys.comNew { s with gpus := s.gpus + n } m iface backend g).1.toBook := by
  by_cases hroom : Sys.Room s g
  · rw [comNew_room (s := { s with gpus := s.gpus + n }) hroom]
    have hnew : Edit counted tidy s.toBook ⟨s.objs ++ [newObj iface backend g], s.gpus + n,
        s.log ++ (backend.toList ++ (none : Option Handle).toList).map (.wrap g)⟩ :=
      .new (newObj iface backend g) none n ⟨⟨rfl, rfl⟩, hroom.2, fun h => Bool.noConfusion h⟩
      fun t => by
        obtain ⟨hfresh, hback⟩ := ht t hroom
        exact ⟨hfresh, fun a ha => (hback a ha).imp_right .inl,
          fun _ => ⟨rfl, rfl⟩, .inl ⟨rfl, rfl⟩⟩
    rw [Option.toList_none, List.append_nil] at hnew
    exact .single hnew
  · rw [comNew_full (s := { s with gpus := s.gpus + n }) hroom]
    cases n with
    | zero => exact .refl
    | succ n =>
      obtain rfl : n = 0 := by omega
      exact .single .gpu

theorem gpuDevice_cases (s : Sys) (e : Env) : ∃ n ≤ 1,
    (s.gpuDevice e).1 = { s with gpus := s.gpus + n } ∧ ∀ a, (s.gpuDevice e).2 = some a →
      (a = .made s.gpus ∧ 0 < n) ∨ a = .stub := by
  unfold Sys.gpuDevice Sys.gpuMake
  cases e.available with
  | false => exact ⟨0, Nat.zero_le _, rfl, fun a h => .inr (Option.some.inj h).symm⟩
  | true =>
    cases e.gpu 0 with
    | false => exact ⟨0, Nat.zero_le _, rfl, fun a h => by cases h⟩
    | true => exact ⟨1, Nat.le_refl _, rfl, fun a h => .inl ⟨(Option.some.inj h).symm, Nat.one_pos⟩⟩

theorem Base.stub (hb : Base b) : b.Unowned .stub := by
  refine ⟨fun o ho hown h => ?_, fun h => ?_⟩
  · obtain ⟨n, -, hn⟩ := (hb.owned o ho hown _ h).1
    cases hn
  · obtain ⟨n, -, hn⟩ := hb.released _ h
    cases hn

theorem not_below : ¬ Book.Below b (.made b.gpus) := by
  rintro (h | ⟨n, hn, h⟩)
  · cases h
  · cases h
    exact Nat.lt_irrefl _ hn

/-- The GPU layer's next object is in no entry yet. -/
theorem Base.next (hb : Base b) : b.Unowned (.made b.gpus) := by
  refine ⟨fun o ho _ h => not_below (hb.known _ _ (hb.wraps o ho _ h)).1, fun h => ?_⟩
  obtain ⟨n, hn, he⟩ := hb.released _ h
  cases he
  exact Nat.lt_irrefl _ hn

/-- What holds between the creations of one call, the next of which asks for address `k`. -/
structure Between (s : Sys) (dev : Handle) (e : Env) (k : Nat) : Prop where
  loose : s.toBook.Unowned dev ∧ s.toBook.Below dev
  spare : ∀ j, k ≤ j → e.alloc j ≠ 0 → ∀ o ∈ s.objs, o.guest ≠ e.alloc j

theorem Between.frame (h : Between s dev e k) (hobjs : ∀ o ∈ s'.objs, ∃ o' ∈ s.objs,
    o.guest = o'.guest ∧ o.ownsBackend = o'.ownsBackend ∧ o.backend = o'.backend)
    (hlog : .release dev ∈ s'.log → .release dev ∈ s.log) (hg : s.gpus ≤ s'.gpus) :
    Between s' dev e k := by
  refine ⟨⟨⟨fun o ho hown hb => ?_, fun hm => h.loose.1.2 (hlog hm)⟩, ?_⟩, fun j hj hz o ho => ?_⟩
  · obtain ⟨o', ho', -, hown', hb'⟩ := hobjs o ho
    exact h.loose.1.1 o' ho' (hown' ▸ hown) (hb' ▸ hb)
  · exact h.loose.2.imp_right fun ⟨n, hn, he⟩ => ⟨n, Nat.lt_of_lt_of_le hn hg, he⟩
  · obtain ⟨o', ho', hguest, -, -⟩ := hobjs o ho
    exact hguest ▸ h.spare j hj hz o' ho'

theorem Between.comNew (h : Between s dev e k) (ha : ∀ j, k ≠ j → e.alloc k ≠ 0 →
    e.alloc k ≠ e.alloc j) (m : Mem) (iface : Iface) (backend : Option Handle) :
    Between (s.comNew m iface backend (e.alloc k)).1 dev e (k + 1) := by
  by_cases hroom : Sys.Room s (e.alloc k)
  · rw [comNew_room hroom]
    refine ⟨⟨⟨fun o ho => ?_, fun hm => ?_⟩, h.loose.2⟩, fun j hj hz o ho => ?_⟩
    · rcases List.mem_append.1 ho with ho | ho
      · exact h.loose.1.1 o ho
      · rw [List.mem_singleton.1 ho]
        exact fun hown => Bool.noConfusion hown
    · rcases List.mem_append.1 hm with hm | hm
      · exact h.loose.1.2 hm
      · obtain ⟨_, -, hw⟩ := List.mem_map.1 hm
        cases hw
    · rcases List.mem_append.1 ho with ho | ho
      · exact h.spare j (by omega) hz o ho
      · rw [List.mem_singleton.1 ho]
        exact ha j (by omega) hroom.2
  · rw [comNew_full hroom]
    exact ⟨h.loose, fun j hj => h.spare j (by omega)⟩

theorem Between.same (h : Between s dev e k) (hobjs : s'.objs = s.objs)
    (hlog : .release dev ∈ s'.log → .release dev ∈ s.log) (hg : s.gpus ≤ s'.gpus) :
    Between s' dev e k :=
  h.frame (fun o ho => ⟨o, hobjs ▸ ho, rfl, rfl, rfl⟩) hlog hg

end WineGlass.Com
