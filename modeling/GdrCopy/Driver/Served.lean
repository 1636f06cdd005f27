import GdrCopy.Driver.Physical
/-!
# Requests that are served

What the entry points answer when nothing they call fails: the pin links its mr,
`gdrdrv_mmap` maps the whole region, and an mr that is not mapped is given back.
-/

namespace gdrdrv

section
variable {P : Platform}

/-! ## Pinning -/

/-- The kernel and the NVIDIA driver grant the page table `pt`, of a version and page size that the driver accepts. -/
structure PinEnv.Grants (P : Platform) (env : PinEnv) (pt : PageTable) : Prop where
  kmalloc : env.kmalloc = true
  get_pages : env.get_pages = .ok pt
  version : versionCompatible pt.version P.NVIDIA_P2P_PAGE_TABLE_VERSION = true
  page_size : pt.page_size = .NVIDIA_P2P_PAGE_SIZE_64KB

theorem pin_granted {env : PinEnv} {pt : PageTable} (h : env.Grants P pt) {s : Kernel} {f : Nat} {info info' : Info}
    {addr size p2p_token va_space flags tok va handle : Nat} {force : Bool}
    (hargs : pinArgs P p2p_token va_space flags = .ok (tok, va, force))
    (hgen : gdr_generate_mr_handle P info (mappedSize addr size) = some (handle, info')) :
    __gdrdrv_pin_buffer P env s f info addr size p2p_token va_space flags =
      .ok (0, handle, { s.setFile f
          (some (info'.list_add (pinnedMr env s.fresh addr size tok va force pt GPU_PAGE_SIZE handle))) with
        fresh := s.fresh + 2, gdrdrv_nv_get_pages_refcount := s.gdrdrv_nv_get_pages_refcount + 1 }) := by
  have hcheck : checkPageTable P { pt with id := s.fresh + 1 } = .ok GPU_PAGE_SIZE := by
    unfold checkPageTable
    rw [if_neg (by simp [h.version])]
    dsimp only
    rw [h.page_size]
    rfl
  have hgen' : gdr_generate_mr_handle P info (newMr s.fresh addr size tok va force).mapped_size =
    some (handle, info') := hgen
  unfold __gdrdrv_pin_buffer
  rw [if_neg (by simp [h.kmalloc])]
  simp only [hargs, h.get_pages, hcheck, hgen']
  rfl

/-! ## Mapping -/

theorem remap_remaps {t : MrType} (hdev : t = .DEVICE → P.arch = .arm64) {table vaddr paddr m : Nat} {vma : Vma}
    (hp : paddr % P.PAGE_SIZE = 0) (hv : vaddr % P.PAGE_SIZE = 0) :
    ∃ v, gdrdrv_remap_gpu_mem P remaps table vma vaddr paddr (m * P.PAGE_SIZE) t = .ok (0, v) := by
  unfold gdrdrv_remap_gpu_mem
  split
  · exact ⟨_, rfl⟩
  rw [if_neg (not_not.2 hp), if_neg (not_not.2 hv)]
  cases t with
  | DEVICE =>
    simp only [pgprot_modify_device, hdev rfl, bind, Except.bind, remapRange_remaps]
    exact ⟨_, rfl⟩
  | _ =>
    simp only [bind, Except.bind, remapRange_remaps]
    exact ⟨_, rfl⟩

/-- While every remap succeeds the loop goes through. -/
theorem mmapLoop_remaps {pt : PageTable} (hs : pt.Sane) (ha : ∀ a ∈ pt.pages, a % P.PAGE_SIZE = 0) {t : MrType}
    (hdev : t = .DEVICE → P.arch = .arm64) : ∀ (k p vaddr n : Nat) (vma : Vma), pt.entries - p = k → p < pt.entries →
      vaddr % P.PAGE_SIZE = 0 → ∃ r, mmapLoop P remaps pt t vma p vaddr (n * P.PAGE_SIZE) = .ok (0, r) := by
  intro k
  induction k using Nat.strong_induction_on with
  | _ k ih =>
    intro p vaddr n vma hk hp hv
    have hc1 : Contig pt p 1 := ⟨hp, fun j hj => by rw [Nat.lt_one_iff.1 hj]; simp⟩
    obtain ⟨n', hcl, hn', -⟩ := contigLoop_ok hs one_pos rfl rfl hc1
    rw [mmapLoop_round P remaps t vma vaddr n hp hcl rfl]
    have hpa : pt.addr p % P.PAGE_SIZE = 0 := ha _ (List.mem_of_getElem? (getElem?_addr hp))
    obtain ⟨v1, hr⟩ := @remap_remaps P t hdev pt.id vaddr (pt.addr p) (min n (n' * perGpuPage P)) vma hpa hv
    rw [hr]
    simp only [ne_eq, not_true_eq_false, if_false]
    split
    · next hgo =>
        exact ih (pt.entries - (p + n')) (by omega) (p + n') _ _ v1 rfl hgo.2 (by rw [Nat.add_mul_mod_self_right, hv])
    · exact ⟨_, rfl⟩

/-- An mr that `gdrdrv_mmap` can map `n` host pages of: it holds `pt` and is not mapped. -/
structure Mr.Ready (P : Platform) (mr : Mr) (pt : PageTable) (n : Nat) : Prop where
  page_table : mr.page_table = some pt
  granted : pt.Granted P
  entries : n * P.PAGE_SIZE ≤ GPU_PAGE_SIZE * pt.entries
  unmapped : gdr_mr_is_mapped mr = false
  cb_flag : mr.cb_flag = false
  offset : mr.offset = 0
  device : chooseType P mr = .DEVICE → P.arch = .arm64
  force : mr.force_pci = false

theorem mmapLocked_ready {mr : Mr} {pt : PageTable} {n f : Nat} {vma : Vma} (h : mr.Ready P pt n)
    (hreq : vma.Request P n) :
    mmapLocked P remaps f mr vma = .ok (0, mr.through P f vma.id,
      vma.mapped P pt (chooseType P mr) vma.vm_start 0 n) := by
  have hlt : vma.vm_end - vma.vm_start < 2 ^ 64 := Nat.lt_of_le_of_lt (Nat.sub_le _ _) hreq.vm_end
  have hpos : 0 < pt.entries := by
    refine Nat.pos_of_ne_zero fun h0 => ?_
    have hle := h.entries
    rw [h0, Nat.mul_zero] at hle
    exact absurd (Nat.le_zero.1 hle) (Nat.ne_of_gt (Nat.mul_pos hreq.pos (pageSize_pos P)))
  have hle : n ≤ pt.entries * perGpuPage P := by
    have hsize := h.entries
    rw [← perGpuPage_mul P, Nat.mul_comm (perGpuPage P * P.PAGE_SIZE), ← Nat.mul_assoc] at hsize
    exact Nat.le_of_mul_le_mul_right hsize (pageSize_pos P)
  have hok : refuses mr pt (vma.vm_end - vma.vm_start) = false := by
    have hsize : vma.vm_end - vma.vm_start ≤ GPU_PAGE_SIZE * pt.entries := by
      rw [hreq.size]
      exact h.entries
    rw [refuses, h.unmapped, h.cb_flag, h.offset, Nat.add_zero, u64, Nat.mod_eq_of_lt hlt]
    simp [Nat.ne_of_gt hpos, hsize]
  obtain ⟨start, hstart, -⟩ := hreq.bounds
  have hv : vma.vm_start % P.PAGE_SIZE = 0 := by rw [hstart, Nat.mul_mod_left]
  obtain ⟨⟨v', vaddr'⟩, hloop⟩ := mmapLoop_remaps h.granted.sane h.granted.aligned h.device _ 0 vma.vm_start n
    vma rfl hpos hv
  -- What the loop returns is known: all `n` pages, and the end of the region.
  obtain ⟨hend, hmapped⟩ := (mmapLoop_ok P h.granted.sane _ _ 0 vma.vm_start n vma rfl hpos hreq.pos hle).2 _ _ hloop
  rw [Nat.zero_mul] at hmapped
  have hreach : vaddr' = v'.vm_end := by
    have hsize := hreq.size
    have hps := Nat.mul_pos hreq.pos (pageSize_pos P)
    rw [hend, hmapped]
    show vma.vm_start + n * P.PAGE_SIZE = vma.vm_end
    omega
  rw [mmapLocked_eq h.page_table, if_neg (by simp [hok]), hreq.size, hloop, afterLoop]
  have hforce : (mr.force_pci && chooseType P mr == .CACHING) = false := by rw [h.force, Bool.false_and]
  simp only [ne_eq, not_true_eq_false, if_false, hreach, chooseType_ne_none, hforce, Bool.false_eq_true]
  rw [hmapped]
  rfl

/-- Linux sets a region of whole host pages up. -/
theorem mmapRegion_served {s : Kernel} {f start n : Nat} {off : BitVec 64} (hn : 0 < n)
    (hoff : off.toNat % P.PAGE_SIZE = 0) (hend : (start + n) * P.PAGE_SIZE < 2 ^ 64) :
    mmapRegion P s f start (n * P.PAGE_SIZE) off = .ok
      { id := s.fresh, vm_file := f, vm_start := start * P.PAGE_SIZE, vm_end := (start + n) * P.PAGE_SIZE,
        vm_pgoff := off.toNat >>> P.PAGE_SHIFT, VM_DONTCOPY := false, prot := .CACHING, ptes := [] } := by
  unfold mmapRegion
  rw [pages_of_mul]
  dsimp only
  rw [if_neg (not_or.2 ⟨not_not.2 hoff, Nat.ne_of_gt hn⟩), if_neg (Nat.not_le.2 hend)]

/-- The new VMA maps the page table of the mr, and the mr is mapped through it. -/
theorem sysMmap_served {s : Kernel} {f cur start n : Nat} {off : BitVec 64} {info : Info} {mr : Mr} {pt : PageTable}
    (hf : s.files f = some info) (hsame : gdrdrv_check_same_process info cur = true)
    (hs : gdr_mr_from_handle_unlocked info (off.toNat >>> P.PAGE_SHIFT) = some mr) (h : mr.Ready P pt n) (hn : 0 < n)
    (hoff : off.toNat % P.PAGE_SIZE = 0) (hend : (start + n) * P.PAGE_SIZE < 2 ^ 64) :
    ∃ v, sysMmap P remaps s f cur start (n * P.PAGE_SIZE) off =
        .ok (.err 0, { s.setFile f (some (info.put (mr.through P f v.id))) with
          vmas := v :: s.vmas, fresh := s.fresh + 1 }) ∧
      v.id = s.fresh ∧ v.vm_file = f ∧ v.vm_pgoff = off.toNat >>> P.PAGE_SHIFT ∧ v.vm_start = start * P.PAGE_SIZE ∧
      v.vm_end = (start + n) * P.PAGE_SIZE ∧ Mapping P v pt := by
  have hreg := @mmapRegion_served P s f start n off hn hoff hend
  generalize hvma : (⟨s.fresh, f, start * P.PAGE_SIZE, (start + n) * P.PAGE_SIZE, off.toNat >>> P.PAGE_SHIFT,
    false, .CACHING, []⟩ : Vma) =
    vma at hreg
  have hreq : vma.Request P n := by
    subst hvma
    exact ⟨hn, ⟨start, rfl, rfl⟩, hend, rfl⟩
  have hle : n ≤ pt.entries * perGpuPage P := by
    have hsize := h.entries
    rw [← perGpuPage_mul P, Nat.mul_comm (perGpuPage P * P.PAGE_SIZE), ← Nat.mul_assoc] at hsize
    exact Nat.le_of_mul_le_mul_right hsize (pageSize_pos P)
  have hmap : Mapping P (vma.mapped P pt (chooseType P mr) vma.vm_start 0 n) pt := by
    refine ⟨h.granted, mapped_exactly _ hreq h.granted.aligned hle, ?_⟩
    have hpages : (vma.mapped P pt (chooseType P mr) vma.vm_start 0 n).pages P = n := hreq.pages
    rw [hpages]
    exact hreq.size
  have hcall : gdrdrv_mmap P remaps { s with fresh := s.fresh + 1 } f cur vma =
      .ok (0, vma.mapped P pt (chooseType P mr) vma.vm_start 0 n,
      ({ s with fresh := s.fresh + 1 } : Kernel).setFile f (some (info.put (mr.through P f vma.id)))) := by
    have hs' : gdr_mr_from_handle_unlocked info (gdrdrv_handle_from_off vma.vm_pgoff) = some mr := by
      subst hvma
      exact hs
    have hf' : ({ s with fresh := s.fresh + 1 } : Kernel).files f = some info := hf
    rw [mmap_cases hf' hsame hs', mmapLocked_ready h hreq]
    rfl
  refine ⟨vma.mapped P pt (chooseType P mr) vma.vm_start 0 n, ?_, ?_⟩
  · unfold sysMmap
    rw [hreg]
    dsimp only
    rw [hcall]
    rfl
  · subst hvma
    exact ⟨rfl, rfl, rfl, rfl, rfl, hmap⟩

/-! ## Unpinning -/

/-- An mr that is not mapped is given back. -/
theorem unpin_served {s : Kernel} {f handle : Nat} {info : Info} {mr : Mr} {pt : PageTable}
    (hs : gdr_mr_from_handle_unlocked info handle = some mr) (hm : gdr_mr_is_mapped mr = false)
    (hpt : mr.page_table = some pt) :
    __gdrdrv_unpin_buffer P ⟨false, 0⟩ s f info handle = .ok (0, { s.setFile f (some (info.list_del mr)) with
      gdrdrv_nv_get_pages_refcount := s.gdrdrv_nv_get_pages_refcount - 1 }) := by
  have hfree : gdr_free_mr_unlocked P ⟨false, 0⟩ mr s.vmas s.gdrdrv_nv_get_pages_refcount =
      .ok (s.vmas, s.gdrdrv_nv_get_pages_refcount - 1) := by
    rw [gdr_free_mr_unlocked, if_neg (by simp [hm]), hpt]
    rfl
  rw [unpin_eq hs, zapIfMapped_unmapped hm]
  simp only [bind, Except.bind, hfree]
  rfl

end

end gdrdrv
