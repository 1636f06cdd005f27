import GdrCopy.Driver.Types
/-!
# Memory regions

The helpers of `gdrdrv.c` that every handler is built from: the search by
handle, the handle generator, the zap, the free callback and the free routine.
-/

namespace gdrdrv

def gdrdrv_check_same_process (info : Info) (cur : Nat) : Bool := info.tgid == cur

/-! ## Mapping state -/

def gdr_mr_supports_cache_mapping (P : Platform) (mr : Mr) : Bool :=
  if !P.gdrdrv_cpu_could_cache_gpu_mappings then false
  else
    match mr.page_table with
    | none => false
    | some pt =>
      match pt.pages with
      | [] => false
      | pa :: _ => P.gdr_pfn_is_ram (pa >>> P.PAGE_SHIFT) || (P.tableFlags && pt.cpu_cacheable)

def gdr_mr_is_mapped (mr : Mr) : Bool := mr.cpu_mapping_type != .NONE

/-- The page offset in the file of a translation of `v`. -/
def Vma.pageOff (P : Platform) (v : Vma) (p : Pte) : Nat := v.vm_pgoff + (p.vaddr - v.vm_start) / P.PAGE_SIZE

/-- Linux: remove the translations of the pages of `mapping` from `holebegin`,
`holelen` bytes long, in every VMA of that address space. -/
def unmap_mapping_range (P : Platform) (mapping holebegin holelen : Nat) (vmas : List Vma) : List Vma :=
  let hba := holebegin >>> P.PAGE_SHIFT
  let hlen := (holelen + P.PAGE_SIZE - 1) >>> P.PAGE_SHIFT
  vmas.map fun v =>
    if v.vm_file = mapping then
      { v with ptes := v.ptes.filter fun p => !(hba ≤ v.pageOff P p && v.pageOff P p < hba + hlen) }
    else v

def gdrdrv_zap_vma (P : Platform) (mapping : Nat) (vma : Vma) (vmas : List Vma) : List Vma :=
  unmap_mapping_range P mapping (u64 (vma.vm_pgoff <<< P.PAGE_SHIFT)) (vma.vm_end - vma.vm_start) vmas

def gdr_mr_destroy_all_mappings (P : Platform) (mr : Mr) (vmas : List Vma) : Except Fault (Mr × List Vma) :=
  match mr.vma with
  | none => .ok ({ mr with cpu_mapping_type := .NONE }, vmas)
  | some v =>
    match mr.mapping, vmas.find? (·.id = v) with
    | some mapping, some vma => .ok ({ mr with cpu_mapping_type := .NONE }, gdrdrv_zap_vma P mapping vma vmas)
    | _, _ => .error .badPointer

/-! ## The list -/

/-- The loop of `gdr_mr_from_handle_unlocked`; `mr` is its variable. -/
def searchLoop (handle : Nat) (mr : Option Mr) : List Mr → Option Mr
  | [] => mr
  | p :: rest => if handle = p.handle then some p else searchLoop handle (some p) rest

/-- The variable keeps the last mr looked at when the list ends without a match. -/
def gdr_mr_from_handle_unlocked (info : Info) (handle : Nat) : Option Mr := searchLoop handle none info.mr_list

def gdrdrv_handle_from_off (off : Nat) : Nat := off

/-- Write `mr` back to where it stands in the list. -/
def Info.put (info : Info) (mr : Mr) : Info :=
  { info with mr_list := info.mr_list.map fun m => if m.ptr = mr.ptr then mr else m }

def Info.list_del (info : Info) (mr : Mr) : Info :=
  { info with mr_list := info.mr_list.filter fun m => m.ptr ≠ mr.ptr }

def Info.list_add (info : Info) (mr : Mr) : Info := { info with mr_list := mr :: info.mr_list }

/-- The handle of an mr of `mapped_size` bytes and the new counters, or `none`
once the handles are used up. -/
def gdr_generate_mr_handle (P : Platform) (info : Info) (mapped_size : Nat) : Option (Nat × Info) :=
  if info.next_handle_overflow then none
  else
    let next_handle := u64 (info.next_handle + max 1 (mapped_size >>> P.PAGE_SHIFT))
    let overflow := next_handle &&& ((2 ^ 64 - 1) >>> P.PAGE_SHIFT) < info.next_handle
    some (info.next_handle,
      { info with next_handle := next_handle, next_handle_overflow := info.next_handle_overflow || overflow })

/-! ## The free callback and the free routine -/

/-- What the callback leaves: the mr, the VMAs and `gdrdrv_nv_get_pages_refcount`. -/
def gdrdrv_get_pages_free_callback (P : Platform) (mr : Mr) (vmas : List Vma) (refcount : Int) :
    Except Fault (Mr × List Vma × Int) := do
  let mr := { mr with cb_flag := true }
  match mr.page_table with
  | some _ =>
    let refcount := refcount - 1
    if gdr_mr_is_mapped mr then
      let (mr, vmas) ← gdr_mr_destroy_all_mappings P mr vmas
      .ok ({ mr with page_table := none }, vmas, refcount)
    else .ok ({ mr with page_table := none }, vmas, refcount)
  | none => .ok ({ mr with page_table := none }, vmas, refcount)

/-- How the NVIDIA driver answers `nvidia_p2p_put_pages*`. -/
structure PutEnv where
  /-- The registered callback runs first, once the semaphore is dropped. -/
  callback : Bool
  /-- The status when the callback does not run. -/
  status : Int
  deriving DecidableEq, Repr

/-- The VMAs and the refcount after `mr` is freed. -/
def gdr_free_mr_unlocked (P : Platform) (env : PutEnv) (mr : Mr) (vmas : List Vma) (refcount : Int) :
    Except Fault (List Vma × Int) := do
  if gdr_mr_is_mapped mr then .error (.bugOn "gdr_mr_is_mapped(mr)")
  else
    match mr.page_table with
    | some _ =>
      if env.callback && !P.gdr_use_persistent_mapping then
        -- The callback has taken the page table back, so `put_pages` fails.
        let (_, vmas, refcount) ← gdrdrv_get_pages_free_callback P mr vmas refcount
        .ok (vmas, refcount)
      else if env.status = 0 then .ok (vmas, refcount - 1)
      else .ok (vmas, refcount)
    | none => .ok (vmas, refcount)

end gdrdrv
