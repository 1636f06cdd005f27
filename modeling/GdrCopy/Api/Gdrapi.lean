import GdrCopy.Driver.Munmap
/-!
# The library

The calls of `gdrapi.c` on a `gdr_t` that pin, map, query and unpin, over the
driver. Every system call a call makes on behalf of a `gdr_mh_t` is recorded,
with the driver's state at that moment and what the pin returned for it.
-/

namespace gdrapi

open gdrdrv

/-! ## Constants -/

def GDR_API_VERSION : Nat := 2 <<< 16 ||| 5
def MINIMUM_GDRDRV_VERSION : Nat := 2 <<< 16 ||| 0
def GDRDRV_MINIMUM_VERSION_WITH_GET_INFO_V2 : Nat := 2 <<< 16 ||| 4
def GDRDRV_MINIMUM_VERSION_WITH_PIN_BUFFER_V2 : Nat := 2 <<< 16 ||| 5
def GDRDRV_MINIMUM_VERSION_WITH_REQ_MAPPING_TYPE : Nat := 2 <<< 16 ||| 5

def GDR_PIN_FLAG_DEFAULT : Nat := 0
def GDR_PIN_FLAG_FORCE_PCIE : Nat := 1

def GDR_MAP_FLAG_DEFAULT : Nat := 0

def GDR_MAPPING_TYPE_NONE : Nat := 0
def GDR_MAPPING_TYPE_WC : Nat := 1
def GDR_MAPPING_TYPE_CACHING : Nat := 2
def GDR_MAPPING_TYPE_DEVICE : Nat := 3
def GDR_MAPPING_TYPE_MAX : Nat := 4

def gdr_is_mapped (mapping_type : Nat) : Bool := mapping_type != GDR_MAPPING_TYPE_NONE

/-! ## Data -/

/-- `gdr_memh_t` at address `ptr`, which is what a `gdr_mh_t` holds. `handle` is a `uint32_t`. -/
structure Memh where
  ptr : Nat
  handle : Nat
  mapping_type : Nat
  deriving DecidableEq, Repr

/-- `struct gdr`. -/
structure Gdr where
  fd : Nat
  memhs : List Memh
  page_size : Nat
  page_shift : Nat
  gdrdrv_version : Nat
  deriving DecidableEq, Repr

/-- ghost: a pin, with the handle the driver returned, the address of the mr it created,
and the host pages of the buffers pinned before it. -/
structure Pin where
  handle : Nat
  mr : Nat
  before : Nat
  deriving DecidableEq, Repr

/-- What a system call asks of the driver. `munmap` and `undo` name the VMAs that the range meets, each with the
host pages that go; `undo` is the one of the error exit of `gdr_map_v2`. -/
inductive Request where
  | ioctl (cmd : Cmd)
  | mmap (off : BitVec 64)
  | munmap (cs : List Cut)
  | undo (cs : List Cut)

/-- The handle field of an ioctl. -/
def handleField : Cmd → Option Nat
  | .unpin_buffer _ _ handle => some handle
  | .get_cb_flag _ _ handle => some handle
  | .get_info _ _ handle => some handle
  | .get_info_v2 _ _ handle => some handle
  | .req_mapping_type _ handle _ => some handle
  | _ => none

/-- A system call on behalf of a `gdr_mh_t`. -/
structure Sys where
  kernel : Kernel
  request : Request
  pin : Option Pin

/-- The searches that the driver makes for the call on `fd`, each in a file and for a handle: the field of an ioctl, the
page offset of an `mmap`, and that of every piece of a VMA that goes. -/
def Sys.searches (P : Platform) (fd : Nat) (c : Sys) : List (Nat × Nat) :=
  match c.request with
  | .ioctl cmd => (handleField cmd).toList.map fun handle => (fd, handle)
  | .mmap off => [(fd, gdrdrv_handle_from_off (off.toNat >>> P.PAGE_SHIFT))]
  | .munmap cs => (goneAll P cs c.kernel.fresh).map fun v => (v.vm_file, gdrdrv_handle_from_off v.vm_pgoff)
  | .undo cs => (goneAll P cs c.kernel.fresh).map fun v => (v.vm_file, gdrdrv_handle_from_off v.vm_pgoff)

/-- The driver, a `gdr_t` of the thread group `cur`, and the address of the next `gdr_memh_t`. -/
structure Session where
  kernel : Kernel
  gdr : Gdr
  cur : Nat
  fresh : Nat
  /-- ghost: the pin of each `gdr_memh_t`. -/
  pins : Nat → Option Pin
  /-- ghost: the host pages of all buffers pinned so far. -/
  pages : Nat
  /-- ghost: the system calls so far. -/
  calls : List Sys

section
variable (P : Platform)

/-! ## gdr_open -/

/-- The loop that finds `page_shift`, a `uint8_t` that starts at 255. -/
def pageShiftLoop (ps_tmp page_shift : Nat) : Nat :=
  if _ : 0 < ps_tmp then
    if ps_tmp &&& 0x1 = 1 then (page_shift + 1) % 256 else pageShiftLoop (ps_tmp >>> 1) ((page_shift + 1) % 256)
  else page_shift
  termination_by ps_tmp
  decreasing_by rw [Nat.shiftRight_eq_div_pow]; omega

/-- The `gdr_t` once the driver is open as `fd` and its versions suit. -/
def gdr_open (k : Kernel) (cur : Nat) (kzalloc : Bool) : Option Session :=
  let r := gdrdrv_open k 0 cur kzalloc
  if r.1 ≠ 0 then none
  else
    match gdrdrv_ioctl P r.2 k.fresh cur (.get_version true) with
    | .ok (⟨0, .version gdrdrv_version minimum_gdr_api_version⟩, k') =>
      if gdrdrv_version < MINIMUM_GDRDRV_VERSION ∨ GDR_API_VERSION < minimum_gdr_api_version then none
      else
        some
          { kernel := k', gdr := ⟨k.fresh, [], P.PAGE_SIZE, pageShiftLoop P.PAGE_SIZE 255, gdrdrv_version⟩, cur := cur,
            fresh := 0, pins := fun _ => none, pages := 0, calls := [] }
    | _ => none

/-! ## System calls -/

/-- `errno` after an ioctl that returned `ret`, or 0. -/
def errno (r : Reply) : Int := -r.ret

def ioctl (s : Session) (cmd : Cmd) : Except Fault (Reply × Session) :=
  (gdrdrv_ioctl P s.kernel s.gdr.fd s.cur cmd).map fun r => (r.1, { s with kernel := r.2 })

/-- Record that `mh` is about to make a request. -/
def Session.log (s : Session) (mh : Memh) (request : Request) : Session :=
  { s with calls := s.calls ++ [⟨s.kernel, request, s.pins mh.ptr⟩] }

/-- An ioctl that carries `mh->handle`. -/
def ioctlOn (s : Session) (mh : Memh) (cmd : Nat → Cmd) : Except Fault (Reply × Session) :=
  ioctl P (s.log mh (.ioctl (cmd mh.handle))) (cmd mh.handle)

/-- `rounded_size`. -/
def roundedSize (g : Gdr) (size : Nat) : Nat := u64 (g.page_size - 1 + size) &&& (2 ^ 64 - 1 - (g.page_size - 1))

/-- `(off_t)mh->handle << g->page_shift`. -/
def magicOff (g : Gdr) (mh : Memh) : BitVec 64 := BitVec.ofNat 64 (mh.handle <<< g.page_shift)

/-- `mmap` of `mh`, which the kernel places at host page `start`. -/
def mmapOn (s : Session) (mh : Memh) (env : RemapEnv) (start size : Nat) : Except Fault (Reply × Session) :=
  (sysMmap P env s.kernel s.gdr.fd s.cur start (roundedSize s.gdr size) (magicOff s.gdr mh)).map fun r =>
    (r.1, { s.log mh (.mmap (magicOff s.gdr mh)) with kernel := r.2 })

/-- What is left for Linux to decide in a `munmap`. -/
structure MunmapEnv where
  /-- The `errno` with which it refuses the range (it ends past the user's part of the address space, a VMA cannot be
  split), or 0. -/
  errno : Int
  /-- The VMAs of other files in the caller's address space. Those of its own file are all there. -/
  here : Nat → Bool
  /-- `Cut.inPlace` for each VMA. -/
  inPlace : Nat → Bool

/-- The part of a `munmap` that falls on `v`. -/
def cutOf (env : MunmapEnv) (va len : Nat) (v : Vma) : Cut :=
  ⟨v, (va - v.vm_start) / P.PAGE_SIZE, (min (va + len) v.vm_end - v.vm_start) / P.PAGE_SIZE, env.inPlace v.id⟩

/-- The VMAs of which the range holds a host page. -/
def cutsOf (k : Kernel) (fd : Nat) (env : MunmapEnv) (va len : Nat) : List Cut :=
  ((k.vmas.filter fun v => v.vm_file = fd ∨ env.here v.id).map (cutOf P env va len)).filter fun c => c.a < c.b

/-- `munmap` of whole host pages, by a process that has the driver open as `fd`: `errno` or 0, what the range meets, and
the new state. A range that is one region goes as a whole. -/
def munmap (k : Kernel) (fd : Nat) (env : MunmapEnv) (va len : Nat) : Int × List Cut × Kernel :=
  if va % P.PAGE_SIZE ≠ 0 ∨ len = 0 ∨ 2 ^ 64 ≤ va + len then (EINVAL, [], k)
  else if env.errno ≠ 0 then (env.errno, [], k)
  else
    match k.vmas.find? fun v => v.vm_file = fd ∧ v.vm_start = va ∧ v.vm_end = va + len with
    | some vma => (0, [⟨vma, 0, vma.pages P, true⟩], sysMunmap k vma)
    | none => (0, cutsOf P k fd env va len, sysMunmapRange P k (cutsOf P k fd env va len))

/-- `munmap` for `mh`. One that is refused does not get to the driver. -/
def munmapOn (s : Session) (mh : Memh) (request : List Cut → Request) (env : MunmapEnv) (va len : Nat) :
    Int × Session :=
  let r := munmap P s.kernel s.gdr.fd env va len
  if r.1 ≠ 0 then (r.1, s) else (0, { s.log mh (request r.2.1) with kernel := r.2.2 })

/-! ## Pinning and unpinning -/

/-- The end of both pin calls: a new `gdr_memh_t`, or the error. -/
def pinned (s : Session) (addr size : BitVec 64) (r : Reply × Session) : Int × Option Nat × Session :=
  match r.1 with
  | ⟨0, .handle handle⟩ =>
    let mr := ((r.2.kernel.files s.gdr.fd).bind fun info => info.mr_list.head?.map (·.ptr)).getD 0
    (0, some s.fresh,
      { r.2 with
        gdr := { s.gdr with memhs := ⟨s.fresh, u32 handle, GDR_MAPPING_TYPE_NONE⟩ :: s.gdr.memhs }
        fresh := s.fresh + 1
        pins := Function.update s.pins s.fresh (some ⟨handle, mr, s.pages⟩)
        pages := s.pages + span P (mappedSize addr.toNat size.toNat) })
  | reply => (errno reply, none, r.2)

def gdr_pin_buffer (s : Session) (calloc : Bool) (env : PinEnv) (unpin : PutEnv) (addr size p2p_token : BitVec 64)
    (va_space : BitVec 32) : Except Fault (Int × Option Nat × Session) :=
  if !calloc then .ok (ENOMEM, none, s)
  else (ioctl P s (.pin_buffer true true env unpin addr size p2p_token va_space)).map (pinned P s addr size)

def gdr_pin_buffer_v2_internal (s : Session) (calloc : Bool) (env : PinEnv) (unpin : PutEnv) (addr size : BitVec 64)
    (flags : Nat) : Except Fault (Int × Option Nat × Session) :=
  if !calloc then .ok (ENOMEM, none, s)
  else
    let params_flags : BitVec 32 :=
      if flags &&& GDR_PIN_FLAG_FORCE_PCIE ≠ 0 then BitVec.ofNat 32 GDRDRV_PIN_BUFFER_FLAG_FORCE_PCIE else 0
    (ioctl P s (.pin_buffer_v2 true true env unpin addr size params_flags)).map (pinned P s addr size)

def gdr_pin_buffer_v2 (s : Session) (calloc : Bool) (env : PinEnv) (unpin : PutEnv) (addr size : BitVec 64)
    (flags : Nat) : Except Fault (Int × Option Nat × Session) :=
  if GDRDRV_MINIMUM_VERSION_WITH_PIN_BUFFER_V2 ≤ s.gdr.gdrdrv_version then
    gdr_pin_buffer_v2_internal P s calloc env unpin addr size flags
  else if flags = GDR_PIN_FLAG_DEFAULT then gdr_pin_buffer P s calloc env unpin addr size 0 0
  else .ok (EINVAL, none, s)

/-- `mh` leaves the list and is freed, whatever the driver answers. -/
def gdr_unpin_buffer (s : Session) (mh : Memh) (env : PutEnv) : Except Fault (Int × Session) := do
  let (r, s) ← ioctlOn P s mh fun handle => .unpin_buffer true env handle
  .ok (errno r, { s with gdr := { s.gdr with memhs := s.gdr.memhs.filter fun m => m.ptr ≠ mh.ptr } })

/-! ## Queries -/

/-- The flag, if the call succeeds. -/
def gdr_get_callback_flag (s : Session) (mh : Memh) : Except Fault (Int × Option Nat × Session) := do
  let (r, s) ← ioctlOn P s mh fun handle => .get_cb_flag true true handle
  match r with
  | ⟨0, .flag flag⟩ => .ok (0, some flag, s)
  | r => .ok (errno r, none, s)

/-- `gdr_info_v2_t`. -/
structure InfoV2 where
  va : Nat
  mapped_size : Nat
  page_size : Nat
  tm_cycles : Nat
  cycles_per_ms : Nat
  mapped : Bool
  wc_mapping : Bool
  mapping_type : Nat
  deriving DecidableEq, Repr

def gdr_get_info_v2 (s : Session) (mh : Memh) : Except Fault (Int × Option InfoV2 × Session) := do
  if GDRDRV_MINIMUM_VERSION_WITH_GET_INFO_V2 ≤ s.gdr.gdrdrv_version then
    let (r, s) ← ioctlOn P s mh fun handle => .get_info_v2 true true handle
    match r with
    | ⟨0, .infoV2 va mapped_size page_size tm_cycles tsc_khz mapping_type⟩ =>
      .ok (0, some ⟨va, mapped_size, page_size, tm_cycles, tsc_khz, gdr_is_mapped mapping_type,
        mapping_type == GDR_MAPPING_TYPE_WC, mapping_type⟩, s)
    | r => .ok (errno r, none, s)
  else
    let (r, s) ← ioctlOn P s mh fun handle => .get_info true true handle
    match r with
    | ⟨0, .info va mapped_size page_size tm_cycles tsc_khz mapped wc_mapping⟩ =>
      .ok (0, some ⟨va, mapped_size, page_size, tm_cycles, tsc_khz, mapped != 0, wc_mapping != 0,
        if mapped ≠ 0 then if wc_mapping ≠ 0 then GDR_MAPPING_TYPE_WC else GDR_MAPPING_TYPE_CACHING
        else GDR_MAPPING_TYPE_NONE⟩, s)
    | r => .ok (errno r, none, s)

/-! ## Mapping -/

/-- Set `mh->mapping_type`. -/
def Session.setType (s : Session) (mh : Memh) (t : Nat) : Session :=
  { s with gdr := { s.gdr with
    memhs := s.gdr.memhs.map fun m => if m.ptr = mh.ptr then { m with mapping_type := t } else m } }

/-- `gdr_map_v2` from the moment the mapping is at `va`: the mapping type it got, or an error. -/
def checkMapped (s : Session) (mh : Memh) (flags : Nat) : Except Fault (Int × Session) := do
  let (status, info, s) ← gdr_get_info_v2 P s mh
  match info with
  | none => .ok (status, s)
  | some info =>
    if !gdr_is_mapped info.mapping_type then .ok (EAGAIN, s)
    else if flags ≠ GDR_MAP_FLAG_DEFAULT ∧ info.mapping_type ≠ flags then .ok (EINVAL, s)
    else .ok (0, s.setType mh info.mapping_type)

/-- The request for a mapping type, which `flags` numbers like the driver does. -/
def reqMappingType (s : Session) (mh : Memh) (flags : Nat) : Except Fault (Int × Session) :=
  if GDRDRV_MINIMUM_VERSION_WITH_REQ_MAPPING_TYPE ≤ s.gdr.gdrdrv_version then
    (ioctlOn P s mh fun handle => .req_mapping_type true handle flags).map fun r => (errno r.1, r.2)
  else .ok (0, s)

/-- For a region that goes as a whole. -/
def wholeEnv : MunmapEnv := ⟨0, fun _ => false, fun _ => true⟩

/-- The status, and the address unless there is an error. -/
def gdr_map_v2 (s : Session) (mh : Memh) (env : RemapEnv) (start size flags : Nat) :
    Option (Int × Option Nat × Session) := do
  if gdr_is_mapped mh.mapping_type then some (EAGAIN, none, s)
  else if 3 < flags then some (EINVAL, none, s)
  else
    let (status, s) ← (reqMappingType P s mh flags).toOption
    if status ≠ 0 then some (status, none, s)
    else
      let va := start * P.PAGE_SIZE
      let (r, s) ← (mmapOn P s mh env start size).toOption
      if r.ret ≠ 0 then some (errno r, none, s)
      else
        let (status, s) ← (checkMapped P s mh flags).toOption
        if status ≠ 0 then
          -- the region that the `mmap` has added, so nothing is left to decide
          some (status, none, (munmapOn P s mh .undo wholeEnv va (roundedSize s.gdr size)).2)
        else some (0, some va, s)

def gdr_unmap (s : Session) (mh : Memh) (env : MunmapEnv) (va size : Nat) : Int × Session :=
  if !gdr_is_mapped mh.mapping_type then (EINVAL, s)
  else
    let r := munmapOn P s mh .munmap env va (roundedSize s.gdr size)
    if r.1 ≠ 0 then (r.1, r.2) else (0, r.2.setType mh GDR_MAPPING_TYPE_NONE)

/-! ## Runs -/

/-- A call on the `gdr_t`. `mh` is the `gdr_mh_t` it is given. -/
inductive Call where
  | pin_buffer (calloc : Bool) (env : PinEnv) (unpin : PutEnv) (addr size p2p_token : BitVec 64) (va_space : BitVec 32)
  | pin_buffer_v2 (calloc : Bool) (env : PinEnv) (unpin : PutEnv) (addr size : BitVec 64) (flags : Nat)
  | unpin_buffer (mh : Nat) (env : PutEnv)
  | get_callback_flag (mh : Nat)
  | get_info_v2 (mh : Nat)
  | map_v2 (mh : Nat) (env : RemapEnv) (start size flags : Nat)
  | unmap (mh : Nat) (env : MunmapEnv) (va size : Nat)

/-- What a call returns and leaves. A freed `gdr_mh_t` has no result. -/
def Call.run (s : Session) (c : Call) : Option (Int × Session) :=
  let on (mh : Nat) (f : Memh → Option (Int × Session)) : Option (Int × Session) := do
    let m ← s.gdr.memhs.find? (·.ptr = mh)
    f m
  match c with
  | .pin_buffer calloc env unpin addr size p2p_token va_space =>
    (gdr_pin_buffer P s calloc env unpin addr size p2p_token va_space).toOption.map fun r => (r.1, r.2.2)
  | .pin_buffer_v2 calloc env unpin addr size flags =>
    (gdr_pin_buffer_v2 P s calloc env unpin addr size flags).toOption.map fun r => (r.1, r.2.2)
  | .unpin_buffer mh env => on mh fun m => (gdr_unpin_buffer P s m env).toOption
  | .get_callback_flag mh => on mh fun m => (gdr_get_callback_flag P s m).toOption.map fun r => (r.1, r.2.2)
  | .get_info_v2 mh => on mh fun m => (gdr_get_info_v2 P s m).toOption.map fun r => (r.1, r.2.2)
  | .map_v2 mh env start size flags => on mh fun m => (gdr_map_v2 P s m env start size flags).map fun r => (r.1, r.2.2)
  | .unmap mh env va size => on mh fun m => some (gdr_unmap P s m env va size)

/-- A call of the thread, or an operation of someone else that does not pin or unpin
on this file: another file, a callback, a fork, an unmap of any pages. An unpin may zap through an `mr->vma`
that is gone; the driver then goes on with whatever it reads as `vma`. -/
inductive Step : Session → Option Call → Session → Prop
  | call {s s' : Session} {c : Call} {ret : Int} : c.run P s = some (ret, s') → Step s (some c) s'
  | stale {s s' : Session} {mh : Nat} {env : PutEnv} {vma : Vma} {ret : Int} : (∀ v ∈ s.kernel.vmas, v.id ≠ vma.id) →
    Call.run P { s with kernel := s.kernel.withStale vma } (.unpin_buffer mh env) = some (ret, s') →
    Step s (some (.unpin_buffer mh env)) { s' with kernel := s'.kernel.dropStale vma }
  | other {s : Session} {o : SysOp} {k : Kernel} : o.Leaves s.gdr.fd → SysStep P s.kernel o k →
    Step s none { s with kernel := k }

/-- `gdr_open` on a driver in any state it can be in. -/
def Opened (s : Session) : Prop := ∃ k cur kzalloc os, SysRun P k os ∧ gdr_open P k cur kzalloc = some s

abbrev Run := Runs.Run (Opened P) (Step P)

end

end gdrapi
