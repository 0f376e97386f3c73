import WineGlass.Lib.Fields
import WineGlass.Lib.Run

/-!
# COM objects

The table of COM objects behind the guest's D3D11 and DXGI interfaces, and the calls that make,
count, release and bind them. The GPU layer is outside: its objects are numbered as they are made,
and a log keeps what it was handed and what it was told to release, beside the pointers that the
guest was given. Guest addresses are numbers below `2 ^ 32`.
-/

namespace WineGlass.Com

open Fields

abbrev Mem := Nat → BitVec 8

inductive Iface
  | dxgiFactory | dxgiAdapter | dxgiOutput | dxgiSwapchain
  | d3d11Device | d3d11Context | d3d11Child | dxgiDevice
  deriving DecidableEq, Repr

/-- The interface's number, as `com_new` stores it. -/
def Iface.index : Iface → Nat
  | .dxgiFactory => 0
  | .dxgiAdapter => 1
  | .dxgiOutput => 2
  | .dxgiSwapchain => 3
  | .d3d11Device => 4
  | .d3d11Context => 5
  | .d3d11Child => 6
  | .dxgiDevice => 7

/-- `kMethodCount`. -/
def Iface.methodCount : Iface → Nat
  | .dxgiFactory => 14
  | .dxgiAdapter => 11
  | .dxgiOutput => 19
  | .dxgiSwapchain => 18
  | .d3d11Device => 43
  | .d3d11Context => 108
  | .d3d11Child => 16
  | .dxgiDevice => 12

/-- `(void *)0x1`, the device where there is no GPU, or an object of the GPU layer. -/
inductive Handle
  | stub
  | made (n : Nat)
  deriving DecidableEq, Repr

/-- `WGComObj`, with the two words of the description that `Map` and `Unmap` read. -/
structure ComObj where
  inUse : Bool
  iface : Iface
  guest : Nat
  refcount : Nat
  backend : Option Handle
  ownsBackend : Bool := false
  aux : Nat := 0
  descLen : Nat := 0
  desc : Nat × Nat := (0, 0)
  mapScratch : Nat := 0
  mapSize : Nat := 0
  parent : Nat := 0

inductive Event
  /-- The GPU layer is handed a backend object, or told to release one. -/
  | pass (h : Handle) | release (h : Handle)
  /-- The guest is given a pointer to a COM object. -/
  | give (p : Nat)
  /-- The COM object at `p` is made from a backend object. -/
  | wrap (p : Nat) (h : Handle)
  deriving DecidableEq, Repr

/-- What outlasts a call. -/
structure Book where
  objs : List ComObj
  gpus : Nat
  log : List Event

/-- With the creations of the last call, as how many objects were live and the pointer they got,
and its result. -/
structure Sys extends Book where
  vtable : Iface → Nat
  asked : List (Nat × Nat)
  ret : Nat

/-- What the allocator and the GPU layer answer to a call, request by request. -/
structure Env where
  alloc : Nat → Nat
  gpu : Nat → Bool
  available : Bool

def sOk : Nat := 0
def eFail : Nat := 0x80004005
def dxgiErrorNotFound : Nat := 0x887A0002

/-- `FAILED`. -/
def Failed (hr : Nat) : Prop := 0x80000000 ≤ hr

instance : Decidable (Failed hr) := inferInstanceAs (Decidable (_ ≤ _))

def maxCom : Nat := 4096

def word (m : Mem) (p : Nat) : Nat := get m ⟨p % 2 ^ 32, 4⟩

/-- Where an object's memory has its number. -/
def idField (p : Nat) : Extent := ⟨(p + 8) % 2 ^ 32, 4⟩

-- ---------------------------------------------------------------------------
-- The table
-- ---------------------------------------------------------------------------

/-- How many objects have references. -/
def Sys.live (s : Sys) : Nat := s.objs.countP fun o => 0 < o.refcount

def Sys.comNew (s : Sys) (m : Mem) (iface : Iface) (backend : Option Handle) (guest : Nat) :
    Sys × Mem × Nat :=
  if maxCom ≤ s.objs.length ∨ guest = 0 then ({ s with asked := s.asked ++ [(s.live, 0)] }, m, 0)
  else
    ({ s with
        objs := s.objs ++ [{ inUse := true, iface, guest, refcount := 1, backend }]
        log := s.log ++ backend.toList.map (.wrap guest)
        asked := s.asked ++ [(s.live, guest)] },
      setAll m [(⟨guest, 8⟩, s.vtable iface), (idField guest, s.objs.length),
        (⟨(guest + 12) % 2 ^ 32, 4⟩, iface.index)], guest)

/-- `com_from_this`; a negative number lies past the table. -/
def Sys.comFromThis (s : Sys) (m : Mem) (self : Nat) : Option (Nat × ComObj) :=
  if self = 0 then none
  else
    match s.objs[get m (idField self)]? with
    | some o => if o.inUse then some (get m (idField self), o) else none
    | none => none

def Sys.update (s : Sys) (id : Nat) (f : ComObj → ComObj) : Sys :=
  { s with objs := s.objs.modify id f }

def Sys.note (s : Sys) (l : List Event) : Sys := { s with log := s.log ++ l }

/-- `put_ptr`; what the guest's memory then holds is up to the guest. -/
def Sys.putPtr (s : Sys) (out val : Nat) : Sys :=
  if out = 0 ∨ val = 0 then s else s.note [.give val]

/-- A call of the GPU layer. -/
def Sys.pass (s : Sys) (hs : List (Option Handle)) : Sys := s.note ((hs.filterMap id).map .pass)

/-- A new object of the GPU layer, where it makes one. -/
def Sys.gpuMake (s : Sys) (ok : Bool) : Sys × Option Handle :=
  if ok then ({ s with gpus := s.gpus + 1 }, some (.made s.gpus)) else (s, none)

/-- `p ? p->backend : NULL`. -/
def Sys.backendOf (s : Sys) (m : Mem) (p : Nat) : Option Handle :=
  (s.comFromThis m p).bind fun r => r.2.backend

-- ---------------------------------------------------------------------------
-- Creation
-- ---------------------------------------------------------------------------

/-- Where a new object has its backend from. -/
inductive Source
  /-- From nowhere, or from `this`. -/
  | null | shared
  /-- A new object of the GPU layer; one that it makes of the resource in `args[1]`. -/
  | made | wrapped
  /-- From that resource itself. -/
  | same
  deriving DecidableEq, Repr

/-- What a creating method makes, and the argument that gets it. -/
structure Making where
  iface : Iface
  source : Source
  out : Nat
  owns : Bool := false
  view : Bool := false
  aux : Nat := 0
  descLen : Nat := 0
  desc : Nat × Nat := (0, 0)

/-- What the method fills in after `com_new`. -/
def Making.fill (k : Making) (res : Nat) (o : ComObj) : ComObj :=
  { o with ownsBackend := k.owns, aux := k.aux, descLen := k.descLen, desc := k.desc
           parent := if k.view then res else 0 }

def Sys.backendFor (s : Sys) (o : ComObj) (k : Making) (res : Option Handle) (ok : Bool) :
    Sys × Option Handle :=
  match k.source with
  | .null => (s, none)
  | .shared => (s, o.backend)
  | .made => (s.pass [o.backend]).gpuMake ok
  | .wrapped => (s.pass [o.backend, res]).gpuMake ok
  | .same => (s, res)

/-- The rest of a creating method. The log also says what a view is a view of. -/
def Sys.enter (s : Sys) (m : Mem) (k : Making) (backend res : Option Handle) (args : Nat → Nat)
    (e : Env) : Sys :=
  let (s, m, g) := s.comNew m k.iface backend (e.alloc 0)
  let s :=
    match s.comFromThis m g with
    | some (id, _) =>
      (s.update id (k.fill (args 1))).note (if k.view then res.toList.map (.wrap g) else [])
    | none => s
  s.putPtr (args k.out) g

/-- A creating method. -/
def Sys.create (s : Sys) (m : Mem) (o : ComObj) (k : Making) (args : Nat → Nat) (e : Env) : Sys :=
  let res := s.backendOf m (args 1)
  let (s, backend) := s.backendFor o k res (e.gpu 0)
  s.enter m k backend res args e

/-- `pDesc`, or nothing where it is NULL. -/
def descOf (m : Mem) (p len : Nat) : Nat × (Nat × Nat) :=
  if p = 0 then (0, 0, 0) else (len, word m p, word m (p + 4))

/-- `DepthEnable`, `DepthWriteMask` and `DepthFunc` of a depth-stencil description. -/
def depthState (m : Mem) (p : Nat) : Nat :=
  (if word m p ≠ 0 then 1 else 0) + (if word m (p + 4) ≠ 0 then 2 else 0) +
    word m (p + 8) % 16 * 16

/-- The creating methods of `handle_device`. -/
def deviceMaking (m : Mem) (args : Nat → Nat) : Nat → Option Making
  | 3 => some { iface := .d3d11Child, source := .made, out := 3, owns := true,
                descLen := (descOf m (args 1) 24).1, desc := (descOf m (args 1) 24).2 }
  | 5 => some { iface := .d3d11Child, source := .made, out := 3, owns := true,
                descLen := (descOf m (args 1) 44).1, desc := (descOf m (args 1) 44).2 }
  | 7 => some { iface := .d3d11Child, source := .same, out := 3, view := true }
  | 9 | 10 => some { iface := .d3d11Child, source := .wrapped, out := 3, owns := true, view := true }
  | 20 => some { iface := .d3d11Child, source := .null, out := 2,
                 aux := if args 1 = 0 then 0 else word m (args 1 + 8) }
  | 22 => some { iface := .d3d11Child, source := .null, out := 2,
                 aux := if args 1 = 0 then 0 else depthState m (args 1) }
  | 11 => some { iface := .d3d11Child, source := .made, out := 5 }
  | 12 | 15 =>
    some { iface := .d3d11Child, out := 4,
           source := if args 1 ≠ 0 ∧ args 2 ≠ 0 ∧ args 2 ≤ 0x100000 then .made else .null }
  | 4 | 6 | 8 => some { iface := .d3d11Child, source := .null, out := 3 }
  | 13 | 16 | 17 | 18 => some { iface := .d3d11Child, source := .null, out := 4 }
  | 14 => some { iface := .d3d11Child, source := .null, out := 9 }
  | 19 => some { iface := .d3d11Child, source := .null, out := 1 }
  | 21 | 23 | 24 | 25 | 26 => some { iface := .d3d11Child, source := .null, out := 2 }
  | 27 => some { iface := .d3d11Child, source := .null, out := 7 }
  | _ => none

/-- The creating methods of `handle_dxgi`; only the first adapter and the first output exist. -/
def dxgiMaking (args : Nat → Nat) : Iface → Nat → Option Making
  | .dxgiFactory, 7 | .dxgiFactory, 12 =>
    if args 1 = 0 then some { iface := .dxgiAdapter, source := .shared, out := 2 } else none
  | .dxgiFactory, 10 => some { iface := .dxgiSwapchain, source := .made, out := 3 }
  | .dxgiDevice, 6 => some { iface := .dxgiAdapter, source := .shared, out := 2 }
  | .dxgiDevice, 7 => some { iface := .dxgiAdapter, source := .shared, out := 1 }
  | .dxgiAdapter, 6 => some { iface := .dxgiFactory, source := .shared, out := 2 }
  | .dxgiAdapter, 7 =>
    if args 1 = 0 then some { iface := .dxgiOutput, source := .shared, out := 2 } else none
  | .dxgiSwapchain, 9 => some { iface := .d3d11Child, source := .made, out := 3 }
  | _, _ => none

-- ---------------------------------------------------------------------------
-- Handlers
-- ---------------------------------------------------------------------------

/-- `++o->refcount`. -/
def Sys.addRef (s : Sys) (id : Nat) : Sys :=
  s.update id fun o => { o with refcount := (o.refcount + 1) % 2 ^ 32 }

def Sys.release (s : Sys) (id : Nat) (o : ComObj) : Sys :=
  let n := o.refcount - 1
  let s := { s.update id fun o => { o with refcount := n } with ret := n }
  match o.backend with
  | some h =>
    if n = 0 ∧ o.ownsBackend then
      (s.update id fun o => { o with backend := none }).note [.release h]
    else s
  | none => s

/-- `Data1` of the GUIDs of `IDXGIDevice` to `IDXGIDevice4`. -/
def dxgiDeviceIds : List Nat := [0x54EC77FA, 0x77DB970F, 0x05008617, 0x6007896C, 0x95B4F95F]

/-- `this` is asked for its DXGI side. -/
def asksDxgi (m : Mem) (o : ComObj) (args : Nat → Nat) : Bool :=
  o.iface = .d3d11Device ∧ (if args 1 = 0 then 0 else word m (args 1)) ∈ dxgiDeviceIds

/-- What `QueryInterface` makes for that. -/
def dxgiSide : Making := { iface := .dxgiDevice, source := .shared, out := 2 }

/-- `handle_iunknown`, for the methods that it handles. -/
def Sys.iunknown (s : Sys) (m : Mem) (id : Nat) (o : ComObj) (method : Nat) (args : Nat → Nat)
    (e : Env) : Sys :=
  match method with
  | 0 =>
    if asksDxgi m o args then { s.create m o dxgiSide args e with ret := sOk }
    else { (s.addRef id).putPtr (args 2) o.guest with ret := sOk }
  | 1 => { s.addRef id with ret := (o.refcount + 1) % 2 ^ 32 }
  | _ => s.release id o

/-- `handle_dxgi`. -/
def Sys.dxgi (s : Sys) (m : Mem) (o : ComObj) (method : Nat) (args : Nat → Nat) (e : Env) : Sys :=
  match dxgiMaking args o.iface method with
  | some k => { s.create m o k args e with ret := sOk }
  | none =>
    match o.iface, method with
    | .dxgiFactory, 7 | .dxgiFactory, 12 | .dxgiAdapter, 7 => { s with ret := dxgiErrorNotFound }
    | .dxgiSwapchain, 8 | .dxgiSwapchain, 13 => { s.pass [o.backend] with ret := sOk }
    | _, _ => { s with ret := sOk }

/-- `GetImmediateContext`. -/
def Sys.immediate (s : Sys) (m : Mem) (id : Nat) (o : ComObj) (out : Nat) (e : Env) : Sys :=
  if o.aux = 0 then
    let (s, _, ctx) := s.comNew m .d3d11Context o.backend (e.alloc 0)
    (s.update id fun o => { o with aux := ctx }).putPtr out ctx
  else s.putPtr out o.aux

/-- `handle_device`. -/
def Sys.device (s : Sys) (m : Mem) (id : Nat) (o : ComObj) (method : Nat) (args : Nat → Nat)
    (e : Env) : Sys :=
  match deviceMaking m args method with
  | some k => { s.create m o k args e with ret := sOk }
  | none =>
    if method = 40 then { s.immediate m id o (args 1) e with ret := sOk }
    else { s with ret := if method = 37 then 0xB100 else sOk }

/-- The objects whose backends a method of the context hands on, with the context's own. -/
def bindings (m : Mem) (args : Nat → Nat) : Nat → Option (List Nat)
  | 9 | 11 | 17 | 19 | 50 | 53 => some [args 1]
  | 7 | 8 | 16 => some [if args 2 ≠ 0 ∧ args 3 ≠ 0 then word m (args 3) else 0]
  | 18 => some [if args 3 ≠ 0 then word m (args 3) else 0]
  | 33 => some [if args 1 ≠ 0 ∧ args 2 ≠ 0 then word m (args 2) else 0, args 3]
  | 12 | 13 | 24 | 35 | 36 => some []
  | 44 => if args 1 ≠ 0 ∧ args 2 ≠ 0 then some [] else none
  | _ => none

/-- The bytes that `Map` hands out. -/
def mapBytes (r : Option ComObj) : Nat :=
  let size :=
    match r with
    | some o =>
      if 44 ≤ o.descLen then o.desc.1 * (if o.desc.2 = 0 then 1 else o.desc.2) * 4 % 2 ^ 32
      else if 24 ≤ o.descLen then o.desc.1
      else 0x10000
    | none => 0x10000
  if size = 0 ∨ 0x4000000 < size then 0x10000 else size

def Sys.map (s : Sys) (m : Mem) (res : Nat) (e : Env) : Sys :=
  match s.comFromThis m res with
  | some (id, o) =>
    if o.mapScratch = 0 ∨ o.mapSize < mapBytes (some o) then
      s.update id fun o' => { o' with mapScratch := e.alloc 0, mapSize := mapBytes (some o) }
    else s
  | none => s

/-- The bytes that `Unmap` reads back. -/
def unmapBytes (o : ComObj) : Nat :=
  let size := if 24 ≤ o.descLen then o.desc.1 else o.mapSize
  if size = 0 ∨ o.mapSize < size then o.mapSize else size

def Sys.unmap (s : Sys) (m : Mem) (res : Nat) : Sys :=
  match s.comFromThis m res with
  | some (_, o) =>
    if o.mapScratch ≠ 0 ∧ 0 < unmapBytes o ∧ unmapBytes o ≤ 0x400000 then s.pass [o.backend] else s
  | none => s

/-- `handle_context`. -/
def Sys.context (s : Sys) (m : Mem) (o : ComObj) (method : Nat) (args : Nat → Nat) (e : Env) : Sys :=
  match method with
  | 14 => s.map m (args 1) e
  | 15 => s.unmap m (args 1)
  | _ =>
    match bindings m args method with
    | some ps => s.pass (o.backend :: ps.map (s.backendOf m))
    | none => s

/-- The methods of a device child: of what changes anything, `GetResource` of a view. -/
def Sys.child (s : Sys) (m : Mem) (o : ComObj) (method : Nat) (args : Nat → Nat) : Sys :=
  if method = 7 ∧ o.parent ≠ 0 ∧ args 1 ≠ 0 then
    let s := s.putPtr (args 1) o.parent
    match s.comFromThis m o.parent with
    | some (id, _) => s.addRef id
    | none => s
  else s

/-- `wg_d3d11_dispatch`, with the interface and the method of the thunk's slot. -/
def Sys.dispatch (s : Sys) (m : Mem) (iface : Iface) (method : Nat) (args : Nat → Nat) (e : Env) :
    Sys :=
  match s.comFromThis m (args 0) with
  | none => { s with ret := eFail }
  | some (id, o) =>
    if method ≤ 2 then s.iunknown m id o method args e
    else if iface.methodCount ≤ method then { s with ret := sOk }
    else
      match iface with
      | .d3d11Device => s.device m id o method args e
      | .d3d11Context => { s.context m o method args e with ret := sOk }
      | .d3d11Child => { s.child m o method args with ret := sOk }
      | _ => s.dxgi m o method args e

-- ---------------------------------------------------------------------------
-- Entry points
-- ---------------------------------------------------------------------------

/-- `wg_gpu_available() ? wg_gpu_create_device() : (WGGpuDevice)0x1`. -/
def Sys.gpuDevice (s : Sys) (e : Env) : Sys × Option Handle :=
  if e.available then s.gpuMake (e.gpu 0) else (s, some .stub)

def Sys.createDXGIFactory (s : Sys) (m : Mem) (out : Nat) (e : Env) : Sys :=
  let (s, dev) := s.gpuDevice e
  let (s, _, g) := s.comNew m .dxgiFactory dev (e.alloc 0)
  { s.putPtr out g with ret := sOk }

/-- The device's immediate context, where the guest asks for it at once. -/
def Sys.withContext (s : Sys) (m : Mem) (dev : Handle) (d out : Nat) (e : Env) : Sys :=
  if out = 0 then s
  else
    let dobj := s.comFromThis m d
    let (s, _, ctx) := s.comNew m .d3d11Context (some dev) (e.alloc 1)
    let s :=
      match dobj with
      | some (id, _) => s.update id fun o => { o with aux := ctx }
      | none => s
    s.putPtr out ctx

def Sys.withSwapchain (s : Sys) (m : Mem) (dev : Handle) (out : Nat) (e : Env) : Sys :=
  if out = 0 then s
  else
    let (s, sc) := (s.pass [some dev]).gpuMake (e.gpu 1)
    let (s, _, g) := s.comNew m .dxgiSwapchain sc (e.alloc 2)
    s.putPtr out g

/-- `D3D11CreateDevice`, and with `scOut` the form that also makes a swap chain. -/
def Sys.createDevice (s : Sys) (m : Mem) (devOut ctxOut scOut : Nat) (e : Env) : Sys :=
  let (s, dev) := s.gpuDevice e
  match dev with
  | none => { s with ret := eFail }
  | some dev =>
    let (s, m, d) := s.comNew m .d3d11Device (some dev) (e.alloc 0)
    { ((s.putPtr devOut d).withContext m dev d ctxOut e).withSwapchain m dev scOut e with ret := sOk }

inductive Act
  | factory (out : Nat)
  | device (devOut ctxOut scOut : Nat)
  | call (iface : Iface) (method : Nat) (args : Nat → Nat)

/-- A call of the guest, the memory that it finds and what its environment answers. -/
structure Input where
  mem : Mem
  env : Env
  act : Act

def Sys.step (s : Sys) (i : Input) : Sys :=
  let s := { s with asked := [] }
  match i.act with
  | .factory out => s.createDXGIFactory i.mem out i.env
  | .device devOut ctxOut scOut => s.createDevice i.mem devOut ctxOut scOut i.env
  | .call iface method args => s.dispatch i.mem iface method args i.env

def step (s : Sys) (i : Input) : Option (Sys × Nat) := some (s.step i, (s.step i).ret)

/-- `wg_d3d11_init`. -/
def Sys.init (vtable : Iface → Nat) : Sys where
  objs := []
  gpus := 0
  log := []
  vtable := vtable
  asked := []
  ret := 0

end WineGlass.Com
