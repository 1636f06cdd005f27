import Mathlib.Logic.Function.Basic
import GdrCopy.Driver.Mmap
/-!
# The ioctls of gdrdrv

Each handler takes the private data of the file it is called on and answers
with the return value, the output parameters and the new state. `cfu` and
`ctu` say whether `copy_from_user` and `copy_to_user` succeed.
-/

set_option linter.style.nameCheck false

namespace gdrdrv

/-- The output parameters of an ioctl, as `copy_to_user` delivers them. -/
inductive Out where
  | none
  | handle (handle : Nat)
  | flag (flag : Nat)
  | info (va mapped_size page_size tm_cycles tsc_khz mapped wc_mapping : Nat)
  | infoV2 (va mapped_size page_size tm_cycles tsc_khz mapping_type : Nat)
  | attr (val : Nat)
  | version (gdrdrv_version minimum_gdr_api_version : Nat)
  deriving DecidableEq, Repr

structure Reply where
  ret : Int
  out : Out
  deriving DecidableEq, Repr

def Reply.err (ret : Int) : Reply := ⟨ret, .none⟩

/-- Deliver `out` to the caller, or `-EFAULT`. -/
def copy_to_user (ctu : Bool) (ret : Int) (out : Out) : Reply := if ctu then ⟨ret, out⟩ else .err (-EFAULT)

/-- What the kernel and the NVIDIA driver answer while a buffer is pinned. -/
structure PinEnv where
  kmalloc : Bool
  /-- The page table of `nvidia_p2p_get_pages*`, or `n` for the status `-(n + 1)`. -/
  get_pages : Except Nat PageTable
  tm_cycles : Nat
  tsc_khz : Nat
  put : PutEnv

namespace Kernel

/-- The private data of file `f` becomes `info`. -/
def setFile (s : Kernel) (f : Nat) (info : Option Info) : Kernel :=
  { s with files := Function.update s.files f info }

end Kernel

section
variable (P : Platform)

/-! ## Pinning -/

/-- `round_up(x, GPU_PAGE_SIZE)`. -/
def round_up (x : Nat) : Nat := u64 (1 + (u64 (2 ^ 64 - 1 + x) ||| (GPU_PAGE_SIZE - 1)))

/-- The mr that `__gdrdrv_pin_buffer` sets up before it calls the NVIDIA driver. -/
def newMr (ptr : Nat) (addr size p2p_token va_space : Nat) (force_pci : Bool) : Mr where
  ptr := ptr
  handle := 0
  offset := addr &&& GPU_PAGE_OFFSET
  p2p_token := p2p_token
  va_space := va_space
  page_size := 0
  va := addr &&& GPU_PAGE_MASK
  mapped_size := u64 (2 ^ 64 + round_up (u64 (addr + size)) - (addr &&& GPU_PAGE_MASK))
  cpu_mapping_type := .NONE
  req_mapping_type := .NONE
  page_table := none
  cb_flag := false
  tm_cycles := 0
  tsc_khz := 0
  vma := none
  mapping := none
  force_pci := force_pci

/-- `p2p_token`, `va_space` and `force_pci` of the new mr, or the error of the checks on `flags` and tokens. -/
def pinArgs (p2p_token va_space flags : Nat) : Except Int (Nat × Nat × Bool) :=
  if !P.gdr_use_persistent_mapping then
    if GDRDRV_PIN_BUFFER_FLAG_DEFAULT ≠ flags then .error (-EINVAL) else .ok (p2p_token, va_space, false)
  else if p2p_token ≠ 0 ∨ va_space ≠ 0 then .error (-EINVAL)
  else if flags &&& GDRDRV_PIN_BUFFER_FLAG_FORCE_PCIE ≠ 0 then
    if P.force_bar1 then .ok (0, 0, true) else .error (-EINVAL)
  else .ok (0, 0, false)

/-- The checks on a page table just obtained: the mr's `page_size`, or the error. -/
def checkPageTable (pt : PageTable) : Except Int Nat :=
  if !versionCompatible pt.version P.NVIDIA_P2P_PAGE_TABLE_VERSION then .error (-EFAULT)
  else
    match pt.page_size with
    | .NVIDIA_P2P_PAGE_SIZE_4KB => .error (-EINVAL)
    | .NVIDIA_P2P_PAGE_SIZE_64KB => .ok (64 * 1024)
    | .NVIDIA_P2P_PAGE_SIZE_128KB => .error (-EINVAL)
    | .unknown => .error (-EINVAL)

/-- The error exit: free `mr` and return `ret`. -/
def pinFail (env : PutEnv) (mr : Mr) (s : Kernel) (ret : Int) : Except Fault (Int × Nat × Kernel) := do
  let (vmas, refcount) ← gdr_free_mr_unlocked P env mr s.vmas s.gdrdrv_nv_get_pages_refcount
  .ok (ret, 0, { s with vmas := vmas, gdrdrv_nv_get_pages_refcount := refcount })

/-- The status, the handle and the new state. -/
def __gdrdrv_pin_buffer (env : PinEnv) (s : Kernel) (f : Nat) (info : Info) (addr size p2p_token va_space flags : Nat) :
    Except Fault (Int × Nat × Kernel) :=
  if !env.kmalloc then .ok (-ENOMEM, 0, s)
  else
    let ptr := s.fresh
    let table := s.fresh + 1
    let s := { s with fresh := s.fresh + 2 }
    match pinArgs P p2p_token va_space flags with
    | .error ret => pinFail P env.put (newMr ptr addr size 0 0 false) s ret
    | .ok (p2p_token, va_space, force_pci) =>
      let mr := newMr ptr addr size p2p_token va_space force_pci
      match env.get_pages with
      | .error n => pinFail P env.put mr s (-(n + 1))
      | .ok pt =>
        let s := { s with gdrdrv_nv_get_pages_refcount := s.gdrdrv_nv_get_pages_refcount + 1 }
        let pt := { pt with id := table }
        let mr := { mr with page_table := some pt, tm_cycles := env.tm_cycles, tsc_khz := env.tsc_khz }
        match checkPageTable P pt with
        | .error ret => pinFail P env.put mr s ret
        | .ok page_size =>
          let mr := { mr with page_size := page_size }
          match gdr_generate_mr_handle P info mr.mapped_size with
          | none => pinFail P env.put mr s (-ENOMEM)
          | some (handle, info) =>
            let mr := { mr with handle := handle }
            .ok (0, handle, s.setFile f (some (info.list_add mr)))

def __gdrdrv_unpin_buffer (env : PutEnv) (s : Kernel) (f : Nat) (info : Info) (handle : Nat) :
    Except Fault (Int × Kernel) := do
  match gdr_mr_from_handle_unlocked info handle with
  | none => .ok (-EINVAL, s)
  | some mr =>
    let (mr, vmas) ← if gdr_mr_is_mapped mr then gdr_mr_destroy_all_mappings P mr s.vmas else .ok (mr, s.vmas)
    let (vmas, refcount) ← gdr_free_mr_unlocked P env mr vmas s.gdrdrv_nv_get_pages_refcount
    .ok (0, { s.setFile f (some (info.list_del mr)) with vmas := vmas, gdrdrv_nv_get_pages_refcount := refcount })

/-- The end of both pin ioctls: deliver the handle, or unpin the buffer again. -/
def pinReply (ctu : Bool) (env : PutEnv) (f : Nat) (r : Int × Nat × Kernel) : Except Fault (Reply × Kernel) := do
  if r.1 ≠ 0 then .ok (.err r.1, r.2.2)
  else if ctu then .ok (⟨0, .handle r.2.1⟩, r.2.2)
  else
    match r.2.2.files f with
    | none => .ok (.err (-EFAULT), r.2.2)
    | some info =>
      let (_, s) ← __gdrdrv_unpin_buffer P env r.2.2 f info r.2.1
      .ok (.err (-EFAULT), s)

def gdrdrv_pin_buffer (cfu ctu : Bool) (env : PinEnv) (unpin : PutEnv) (s : Kernel) (f : Nat) (info : Info)
    (addr size p2p_token : BitVec 64) (va_space : BitVec 32) : Except Fault (Reply × Kernel) := do
  if !cfu then .ok (.err (-EFAULT), s)
  else if addr = 0 then .ok (.err (-EINVAL), s)
  else
    let r ← __gdrdrv_pin_buffer P env s f info addr.toNat size.toNat p2p_token.toNat va_space.toNat
      GDRDRV_PIN_BUFFER_FLAG_DEFAULT
    pinReply P ctu unpin f r

def gdrdrv_pin_buffer_v2 (cfu ctu : Bool) (env : PinEnv) (unpin : PutEnv) (s : Kernel) (f : Nat) (info : Info)
    (addr size : BitVec 64) (flags : BitVec 32) : Except Fault (Reply × Kernel) := do
  if !cfu then .ok (.err (-EFAULT), s)
  else if addr = 0 then .ok (.err (-EINVAL), s)
  else if flags &&& ~~~(BitVec.ofNat 32 (GDRDRV_PIN_BUFFER_FLAG_DEFAULT ||| GDRDRV_PIN_BUFFER_FLAG_FORCE_PCIE)) ≠ 0 then
    .ok (.err (-EINVAL), s)
  else
    let r ← __gdrdrv_pin_buffer P env s f info addr.toNat size.toNat 0 0 flags.toNat
    pinReply P ctu unpin f r

def gdrdrv_unpin_buffer (cfu : Bool) (env : PutEnv) (s : Kernel) (f : Nat) (info : Info) (handle : Nat) :
    Except Fault (Reply × Kernel) := do
  if !cfu then .ok (.err (-EFAULT), s)
  else
    let (ret, s) ← __gdrdrv_unpin_buffer P env s f info handle
    .ok (.err ret, s)

/-! ## Handlers that read an mr -/

/-- The body shared by `gdrdrv_get_cb_flag`, `gdrdrv_get_info` and
`gdrdrv_get_info_v2`: find the mr, read `out` of it and deliver it. -/
def readMr (cfu ctu : Bool) (info : Info) (handle : Nat) (out : Mr → Out) : Reply :=
  if !cfu then .err (-EFAULT)
  else
    match gdr_mr_from_handle_unlocked info handle with
    | none => .err (-EINVAL)
    | some mr => copy_to_user ctu 0 (out mr)

def gdrdrv_get_cb_flag (cfu ctu : Bool) (info : Info) (handle : Nat) : Reply :=
  readMr cfu ctu info handle fun mr => .flag mr.cb_flag.toNat

def gdrdrv_get_info (cfu ctu : Bool) (info : Info) (handle : Nat) : Reply :=
  readMr cfu ctu info handle fun mr =>
    .info mr.va mr.mapped_size mr.page_size mr.tm_cycles mr.tsc_khz (gdr_mr_is_mapped mr).toNat
      (mr.cpu_mapping_type == .WC).toNat

def gdrdrv_get_info_v2 (cfu ctu : Bool) (info : Info) (handle : Nat) : Reply :=
  readMr cfu ctu info handle fun mr =>
    .infoV2 mr.va mr.mapped_size mr.page_size mr.tm_cycles mr.tsc_khz mr.cpu_mapping_type.code

/-! ## The other ioctls -/

/-- `val` is the caller's `params.val`, which goes back to it with an unknown attribute. -/
def gdrdrv_get_attr (cfu ctu : Bool) (attr val : Nat) : Reply :=
  if !cfu then .err (-EFAULT)
  else if attr = GDRDRV_ATTR_USE_PERSISTENT_MAPPING then
    copy_to_user ctu 0 (.attr P.gdr_use_persistent_mapping.toNat)
  else if attr = GDRDRV_ATTR_SUPPORT_PIN_FLAG_FORCE_PCIE then
    copy_to_user ctu 0 (.attr P.gdr_support_force_pcie.toNat)
  else copy_to_user ctu (-EINVAL) (.attr val)

/-- The mapping types the platform grants `mr` on request. -/
def typeAllowed (mr : Mr) : MrType → Bool
  | .CACHING => gdr_mr_supports_cache_mapping P mr
  | .WC => !P.gdrdrv_cpu_must_use_device_mapping
  | .DEVICE => P.gdrdrv_cpu_must_use_device_mapping
  | .NONE => true

/-- `gdrdrv_req_mapping_type` while `mr->sem` is held. -/
def reqLocked (mr : Mr) (mapping_type : MrType) : Int × Mr :=
  if gdr_mr_is_mapped mr then (-EBUSY, mr)
  else if !typeAllowed P mr mapping_type then (-EOPNOTSUPP, mr)
  else (0, { mr with req_mapping_type := mapping_type })

def gdrdrv_req_mapping_type (cfu : Bool) (s : Kernel) (f : Nat) (info : Info) (handle mapping_type : Nat) :
    Reply × Kernel :=
  if !cfu then (.err (-EFAULT), s)
  else
    match MrType.ofCode mapping_type with
    | none => (.err (-EINVAL), s)
    | some t =>
      match gdr_mr_from_handle_unlocked info handle with
      | none => (.err (-EINVAL), s)
      | some mr =>
        let r := reqLocked P mr t
        (.err r.1, s.setFile f (some (info.put r.2)))

def gdrdrv_get_version (ctu : Bool) : Reply := copy_to_user ctu 0 (.version GDRDRV_VERSION MINIMUM_GDR_API_VERSION)

/-- The request of an ioctl, with how its copies and NVIDIA calls turn out.
`malformed` has another `_IOC_TYPE`, `other` an unknown number. -/
inductive Cmd where
  | pin_buffer (cfu ctu : Bool) (env : PinEnv) (unpin : PutEnv) (addr size p2p_token : BitVec 64) (va_space : BitVec 32)
  | pin_buffer_v2 (cfu ctu : Bool) (env : PinEnv) (unpin : PutEnv) (addr size : BitVec 64) (flags : BitVec 32)
  | unpin_buffer (cfu : Bool) (env : PutEnv) (handle : Nat)
  | get_cb_flag (cfu ctu : Bool) (handle : Nat)
  | get_info (cfu ctu : Bool) (handle : Nat)
  | get_info_v2 (cfu ctu : Bool) (handle : Nat)
  | get_attr (cfu ctu : Bool) (attr val : Nat)
  | req_mapping_type (cfu : Bool) (handle mapping_type : Nat)
  | get_version (ctu : Bool)
  | malformed
  | other

/-- The `switch` of `gdrdrv_ioctl`. -/
def ioctlSwitch (s : Kernel) (f : Nat) (info : Info) : Cmd → Except Fault (Reply × Kernel)
  | .pin_buffer cfu ctu env unpin addr size p2p_token va_space =>
    gdrdrv_pin_buffer P cfu ctu env unpin s f info addr size p2p_token va_space
  | .pin_buffer_v2 cfu ctu env unpin addr size flags =>
    gdrdrv_pin_buffer_v2 P cfu ctu env unpin s f info addr size flags
  | .unpin_buffer cfu env handle => gdrdrv_unpin_buffer P cfu env s f info handle
  | .get_cb_flag cfu ctu handle => .ok (gdrdrv_get_cb_flag cfu ctu info handle, s)
  | .get_info cfu ctu handle => .ok (gdrdrv_get_info cfu ctu info handle, s)
  | .get_info_v2 cfu ctu handle => .ok (gdrdrv_get_info_v2 cfu ctu info handle, s)
  | .get_attr cfu ctu attr val => .ok (gdrdrv_get_attr P cfu ctu attr val, s)
  | .req_mapping_type cfu handle mapping_type => .ok (gdrdrv_req_mapping_type P cfu s f info handle mapping_type)
  | .get_version ctu => .ok (gdrdrv_get_version ctu, s)
  | .malformed => .ok (.err (-EINVAL), s)
  | .other => .ok (.err (-ENOTTY), s)

def gdrdrv_ioctl (s : Kernel) (f cur : Nat) (cmd : Cmd) : Except Fault (Reply × Kernel) :=
  match cmd with
  | .malformed => .ok (.err (-EINVAL), s)
  | cmd =>
    match s.files f with
    | none => .ok (.err (-EIO_), s)
    | some info =>
      if !gdrdrv_check_same_process info cur then .ok (.err (-EACCES), s)
      else ioctlSwitch P s f info cmd

end

end gdrdrv
