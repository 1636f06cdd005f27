import GdrCopy.Driver.Mr
/-!
# gdrdrv_mmap

The coalescing loop of `gdrdrv_mmap` and the two ways it installs a run of
pages. `p` indexes the page table as in the source, so a read past its end
would be a fault.
-/

set_option linter.style.nameCheck false

namespace gdrdrv

/-- The status of `io_remap_pfn_range(vaddr, pfn, size)`. -/
abbrev RemapEnv := Nat → Nat → Nat → Int

section
variable (P : Platform) (env : RemapEnv)

/-- Linux: on success each host page from `vaddr` translates to the frame at
the same distance from `pfn`. `table` tells which page table they come from. -/
def __gdrdrv_io_remap_pfn_range (table : Nat) (vma : Vma) (vaddr pfn size : Nat) : Int × Vma :=
  if env vaddr pfn size = 0 then
    (0, { vma with ptes := vma.ptes ++
      (List.range ((size + P.PAGE_SIZE - 1) / P.PAGE_SIZE)).map fun j => ⟨vaddr + j * P.PAGE_SIZE, pfn + j, table⟩ })
  else (env vaddr pfn size, vma)

/-- The `while` loop: one call per host page. -/
def remapChunks (table : Nat) (vma : Vma) (chunk_vaddr chunk_pfn remaining_size : Nat) : Int × Vma :=
  if _ : 0 < remaining_size then
    let r := __gdrdrv_io_remap_pfn_range P env table vma chunk_vaddr chunk_pfn P.PAGE_SIZE
    if r.1 ≠ 0 then r
    else remapChunks table r.2 (chunk_vaddr + P.PAGE_SIZE) (chunk_pfn + 1) (remaining_size - P.PAGE_SIZE)
  else (0, vma)
  termination_by remaining_size
  decreasing_by have : 0 < P.PAGE_SIZE := Nat.two_pow_pos _; omega

def gdrdrv_io_remap_pfn_range (table : Nat) (vma : Vma) (vaddr pfn size : Nat) : Except Fault (Int × Vma) :=
  if P.gdrdrv_pat_enabled && !(vaddr == vma.vm_start && size == vma.vm_end - vma.vm_start) then
    if size % P.PAGE_SIZE ≠ 0 then .error (.bugOn "size % PAGE_SIZE != 0")
    else .ok (remapChunks P env table vma vaddr pfn size)
  else .ok (__gdrdrv_io_remap_pfn_range P env table vma vaddr pfn size)

/-- `pgprot_modify_device`: only ARM64 has device mappings. -/
def pgprot_modify_device : Except Fault MrType :=
  match P.arch with
  | .arm64 => .ok .DEVICE
  | _ => .error (.bugOn "pgprot_modify_device")

def gdrdrv_remap_gpu_mem (table : Nat) (vma : Vma) (vaddr paddr size : Nat) (mapping_type : MrType) :
    Except Fault (Int × Vma) := do
  if size = 0 then .ok (0, vma)
  else if paddr % P.PAGE_SIZE ≠ 0 then .ok (-EINVAL, vma)
  else if vaddr % P.PAGE_SIZE ≠ 0 then .ok (-EINVAL, vma)
  else
    let pfn := paddr >>> P.PAGE_SHIFT
    let prot ← match mapping_type with
      | .WC => Except.ok MrType.WC
      | .DEVICE => pgprot_modify_device P
      | _ => .ok vma.prot
    let vma := { vma with VM_DONTCOPY := true, prot := prot }
    let (status, vma) ← gdrdrv_io_remap_pfn_range P env table vma vaddr pfn size
    .ok (if status ≠ 0 then -EAGAIN else 0, vma)

/-- The `for` loop: `p` moves past the pages that continue the one before them. -/
def contigLoop (pt : PageTable) (p prev_page_paddr nentries : Nat) : Except Fault (Nat × Nat) :=
  if _ : p < pt.entries then
    match pt.pages[p]? with
    | none => .error .outOfBounds
    | some cur_page_paddr =>
      if u64 (GPU_PAGE_SIZE + prev_page_paddr) ≠ cur_page_paddr then .ok (p, nentries)
      else contigLoop pt (p + 1) cur_page_paddr (u32 (nentries + 1))
  else .ok (p, nentries)
  termination_by pt.entries - p

theorem contigLoop_le {pt : PageTable} {p prev n p' n' : Nat} (h : contigLoop pt p prev n = .ok (p', n')) :
    p ≤ p' := by
  induction p, prev, n using contigLoop.induct pt with
  | case1 p prev n hp hg => rw [contigLoop, dif_pos hp, hg] at h; cases h
  | case2 p prev n hp cur hg hne =>
    rw [contigLoop, dif_pos hp, hg] at h
    simp only [if_pos hne, Except.ok.injEq, Prod.mk.injEq] at h
    omega
  | case3 p prev n hp cur hg heq ih =>
    rw [contigLoop, dif_pos hp, hg] at h
    simp only [if_neg heq] at h
    have := ih h
    omega
  | case4 p prev n hp =>
    rw [contigLoop, dif_neg hp] at h
    simp only [Except.ok.injEq, Prod.mk.injEq] at h
    omega

/-- The `do` loop, entered with `p` below `entries`. The result is the status, the
VMA and the address reached. -/
def mmapLoop (pt : PageTable) (cpu_mapping_type : MrType) (vma : Vma) (p vaddr size : Nat) :
    Except Fault (Int × Vma × Nat) :=
  match pt.pages[p]? with
  | none => .error .outOfBounds
  | some paddr =>
    match _ : contigLoop pt (p + 1) paddr 1 with
    | .error e => .error e
    | .ok (p', nentries) =>
      let len := min size (GPU_PAGE_SIZE * nentries)
      match gdrdrv_remap_gpu_mem P env pt.id vma vaddr paddr len cpu_mapping_type with
      | .error e => .error e
      | .ok (ret, vma) =>
        if ret ≠ 0 then .ok (ret, vma, vaddr)
        else if size - len ≠ 0 ∧ p' < pt.entries then
          mmapLoop pt cpu_mapping_type vma p' (vaddr + len) (size - len)
        else .ok (0, vma, vaddr + len)
  termination_by pt.entries - p
  decreasing_by have := contigLoop_le ‹_›; omega

/-- The caching attribute of a new mapping. -/
def chooseType (mr : Mr) : MrType :=
  if mr.req_mapping_type ≠ .NONE then mr.req_mapping_type
  else if gdr_mr_supports_cache_mapping P mr then .CACHING
  else if P.gdrdrv_cpu_must_use_device_mapping then .DEVICE
  else .WC

/-- The error exit: the mr is left marked unmapped. -/
def mmapFail (mr : Mr) : Mr := { mr with vma := none, mapping := none, cpu_mapping_type := .NONE }

/-- `gdrdrv_mmap` from the moment `mr->sem` is held until it is dropped. -/
def mmapLocked (f_mapping : Nat) (mr : Mr) (vma : Vma) : Except Fault (Int × Mr × Vma) :=
  let size := vma.vm_end - vma.vm_start
  let fail (ret : Int) : Except Fault (Int × Mr × Vma) := .ok (ret, mmapFail mr, vma)
  if gdr_mr_is_mapped mr then fail (-EINVAL)
  else if mr.cb_flag then fail (-EINVAL)
  else
    match mr.page_table with
    | none => fail (-EINVAL)
    | some pt =>
      if pt.entries = 0 then fail (-EINVAL)
      else if mr.offset ≠ 0 then fail (-EINVAL)
      else if GPU_PAGE_SIZE * pt.entries < mr.offset then fail (-EINVAL)
      else if GPU_PAGE_SIZE * pt.entries < u64 (size + mr.offset) then fail (-EINVAL)
      else
        let cpu_mapping_type := chooseType P mr
        match mmapLoop P env pt cpu_mapping_type vma 0 vma.vm_start size with
        | .error e => .error e
        | .ok (ret, vma, vaddr) =>
          let ret := if ret ≠ 0 then ret else if vaddr ≠ vma.vm_end then -EINVAL else 0
          if ret ≠ 0 then .ok (ret, mmapFail mr, vma)
          else if cpu_mapping_type = .NONE then .error (.bugOn "cpu_mapping_type == GDR_MR_NONE")
          else if mr.force_pci && cpu_mapping_type == .CACHING then
            .error (.bugOn "mr->force_pci && (cpu_mapping_type == GDR_MR_CACHING)")
          else
            .ok (0, { mr with vma := some vma.id, mapping := some f_mapping, cpu_mapping_type := cpu_mapping_type }, vma)

end

end gdrdrv
