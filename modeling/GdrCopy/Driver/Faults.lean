import GdrCopy.Driver.Represent
import GdrCopy.Driver.Translate
/-!
# No BUG_ON

What stops the kernel, and that no `BUG_ON` does: `no_bug_on`. The guard of a
device mapping is in `gdrdrv_req_mapping_type` and in the default choice of
`gdrdrv_mmap`; that of a mapped mr is in the callers of the free routine; and the
sizes of the chunks come out of the coalescing loop. That a forced mr is not mapped
as cached rests on the driver's test for RAM, which the proprietary build for PPC64 only
approximates (`bug_on_forced`). A `BUG_ON` on a null `mr` or `vma` has no counterpart
here, where both are arguments.
-/

namespace gdrdrv

/-! ## gdrdrv_init -/

def GDRDRV_BF3_PCI_ROOT_DEV_VENDOR_ID : Nat := 0x15b3
def GDRDRV_BF3_PCI_ROOT_DEV_DEVICE_ID : List Nat := [0xa2da, 0xa2db]

/-- The part of `gdrdrv_init` that looks at the platform. `power9` is `pvr_version_is(PVR_POWER9)`,
and `pci_get_device` tells whether there is such a device. -/
def gdrdrv_init (build : Platform) (power9 : Bool) (pci_get_device : Nat → Nat → Bool) : Platform :=
  { build with
    gdrdrv_cpu_could_cache_gpu_mappings :=
      match build.arch with
      | .x86 => false
      | .ppc64 => power9
      | .arm64 => true
    gdrdrv_cpu_must_use_device_mapping :=
      match build.arch with
      | .arm64 => GDRDRV_BF3_PCI_ROOT_DEV_DEVICE_ID.any (pci_get_device GDRDRV_BF3_PCI_ROOT_DEV_VENDOR_ID)
      | _ => false }

/-- Device mappings are for ARM64 only. -/
theorem gdrdrv_init_device {build : Platform} {power9 : Bool} {pci_get_device : Nat → Nat → Bool}
    (h : (gdrdrv_init build power9 pci_get_device).gdrdrv_cpu_must_use_device_mapping = true) :
    (gdrdrv_init build power9 pci_get_device).arch = .arm64 := by
  unfold gdrdrv_init at h ⊢
  dsimp only at h ⊢
  cases ha : build.arch with
  | arm64 => rfl
  | _ =>
    rw [ha] at h
    cases h

section
variable (P : Platform)

/-! ## Operations that stop the kernel -/

/-- A call of the driver that stops the kernel. `munmap` and `open` cannot. -/
inductive OpStops : Kernel → Op → Fault → Prop
  | ioctl {s f cur cmd e} : gdrdrv_ioctl P s f cur cmd = .error e → OpStops s (.ioctl f cur cmd) e
  | mmap {s f cur start len off env e} : sysMmap P env s f cur start len off = .error e →
    OpStops s (.mmap f cur start len off env) e
  | callback {s f info mr e} : P.gdr_use_persistent_mapping = false → s.files f = some info → mr ∈ info.mr_list →
    nvCallback P s f info mr = .error e → OpStops s (.callback f mr.ptr) e
  | release {s f env e} : gdrdrv_release P env s f = .error e → OpStops s (.release f env) e

inductive Stops : Kernel → SysOp → Fault → Prop
  | op {s o e} : OpStops P s o e → Stops s (.op o) e
  | stale {s o vma e} : (∀ v ∈ s.vmas, v.id ≠ vma.id) → OpStops P (s.withStale vma) o e → Stops s (.stale o vma) e

/-- The operation is a pin with `NVIDIA_P2P_FLAGS_FORCE_BAR1_MAPPING`, and NVIDIA grants `pt`. -/
def Forces (o : SysOp) (pt : PageTable) : Prop :=
  ∃ f cur cmd q tok va, o.call = some (.ioctl f cur cmd) ∧ cmd.request = some q ∧
    pinArgs P q.p2p_token q.va_space q.flags = .ok (tok, va, true) ∧ q.env.get_pages = .ok pt

/-- NVIDIA: pages obtained with the flag are not CPU-cacheable and not RAM. -/
def ForcedIsBar1 (o : SysOp) : Prop :=
  ∀ pt, Forces P o pt → pt.cpu_cacheable = false ∧ ∀ pa ∈ pt.pages, P.page_is_ram (pa >>> P.PAGE_SHIFT) = false

/-- The proprietary build for PPC64 takes every address below `2 ^ 47` for RAM, where the CPU can cache GPU memory. -/
def LooksLikeRam (pa : Nat) : Prop :=
  P.arch = .ppc64 ∧ P.opensource = false ∧ P.gdrdrv_cpu_could_cache_gpu_mappings = true ∧
    u64 (pa >>> P.PAGE_SHIFT <<< P.PAGE_SHIFT) < 2 ^ 47

/-- The operation is a pin with the flag, and the first page it is granted lies there. -/
def ForcedLow (o : SysOp) : Prop := ∃ pt pa, Forces P o pt ∧ pt.pages.head? = some pa ∧ LooksLikeRam P pa

variable {P}

/-! ## The free routine -/

/-- An mr that is not mapped is freed without a fault. -/
theorem free_total {env : PutEnv} {mr : Mr} (hm : gdr_mr_is_mapped mr = false) (vmas : List Vma) (n : Int) :
    ∃ r, gdr_free_mr_unlocked P env mr vmas n = .ok r := by
  unfold gdr_free_mr_unlocked
  rw [if_neg (by simp [hm])]
  cases hpt : mr.page_table with
  | none => exact ⟨_, rfl⟩
  | some pt =>
    dsimp only
    split
    · unfold gdrdrv_get_pages_free_callback
      simp only [hpt]
      rw [if_neg (by simpa [gdr_mr_is_mapped] using hm)]
      exact ⟨_, rfl⟩
    · split <;> exact ⟨_, rfl⟩

theorem destroy_error {mr : Mr} {vmas : List Vma} {e : Fault} (h : gdr_mr_destroy_all_mappings P mr vmas = .error e) :
    e = .badPointer := by
  unfold gdr_mr_destroy_all_mappings at h
  split at h
  · cases h
  · split at h
    · cases h
    · exact (Except.error.inj h).symm

theorem zapIfMapped_error {mr : Mr} {vmas : List Vma} {e : Fault} (h : zapIfMapped P mr vmas = .error e) :
    e = .badPointer := by
  unfold zapIfMapped at h
  split at h
  · exact destroy_error h
  · cases h

theorem callback_error {mr : Mr} {vmas : List Vma} {n : Int} {e : Fault}
    (h : gdrdrv_get_pages_free_callback P mr vmas n = .error e) : e = .badPointer := by
  unfold gdrdrv_get_pages_free_callback at h
  dsimp only at h
  split at h
  · split at h
    · generalize hd : gdr_mr_destroy_all_mappings P _ vmas = d at h
      cases d with
      | error e' =>
        rw [← Except.error.inj h]
        exact destroy_error hd
      | ok d => cases h
    · cases h
  · cases h

/-- Unpinning zaps, if it has to, and frees: its only fault is a bad pointer. -/
theorem unpin_error {env : PutEnv} {s : Kernel} {f : Nat} {info : Info} {handle : Nat} {e : Fault}
    (h : __gdrdrv_unpin_buffer P env s f info handle = .error e) : e = .badPointer := by
  cases hs : gdr_mr_from_handle_unlocked info handle with
  | none =>
    rw [__gdrdrv_unpin_buffer, hs] at h
    cases h
  | some mr =>
    rw [unpin_eq hs] at h
    generalize hz : zapIfMapped P mr s.vmas = z at h
    cases z with
    | error e' =>
      rw [← Except.error.inj h]
      exact zapIfMapped_error hz
    | ok z =>
      obtain ⟨m1, v1⟩ := z
      obtain ⟨rfl, -⟩ := zapIfMapped_cases hz
      obtain ⟨r, hr⟩ := @free_total P env { mr with cpu_mapping_type := .NONE } rfl v1 s.gdrdrv_nv_get_pages_refcount
      simp only [bind, Except.bind, hr] at h
      cases h

theorem releaseLoop_error {env : Nat → PutEnv} {l : List Mr} {vmas : List Vma} {n : Int} {e : Fault}
    (h : releaseLoop P env l vmas n = .error e) : e = .badPointer := by
  induction l generalizing vmas n with
  | nil => cases h
  | cons mr rest ih =>
    rw [releaseLoop_cons] at h
    generalize hz : zapIfMapped P mr vmas = z at h
    cases z with
    | error e' =>
      rw [← Except.error.inj h]
      exact zapIfMapped_error hz
    | ok z =>
      obtain ⟨m1, v1⟩ := z
      obtain ⟨rfl, -⟩ := zapIfMapped_cases hz
      obtain ⟨r, hr⟩ := @free_total P (env mr.ptr) { mr with cpu_mapping_type := .NONE } rfl v1 n
      simp only [bind, Except.bind, hr] at h
      exact ih h

theorem pinFail_total {env : PutEnv} {mr : Mr} (hm : gdr_mr_is_mapped mr = false) (s : Kernel) (ret : Int) :
    ∃ r, pinFail P env mr s ret = .ok r := by
  obtain ⟨r, hr⟩ := @free_total P env mr hm s.vmas s.gdrdrv_nv_get_pages_refcount
  exact ⟨_, by rw [pinFail, hr]; rfl⟩

/-- A pin frees an mr only before it could be mapped. -/
theorem pin_total (env : PinEnv) (s : Kernel) (f : Nat) (info : Info) (addr size p2p_token va_space flags : Nat) :
    ∃ r, __gdrdrv_pin_buffer P env s f info addr size p2p_token va_space flags = .ok r := by
  unfold __gdrdrv_pin_buffer
  split
  · exact ⟨_, rfl⟩
  dsimp only
  cases pinArgs P p2p_token va_space flags with
  | error e => exact pinFail_total rfl _ e
  | ok args =>
    obtain ⟨tok, va, force⟩ := args
    dsimp only
    cases env.get_pages with
    | error n => exact pinFail_total rfl _ _
    | ok pt =>
      dsimp only
      cases checkPageTable P { pt with id := s.fresh + 1 } with
      | error e => exact pinFail_total rfl _ e
      | ok page_size =>
        dsimp only
        split
        · exact pinFail_total rfl _ _
        · exact ⟨_, rfl⟩

theorem pinReply_error {ctu : Bool} {env : PutEnv} {f : Nat} {r : Int × Nat × Kernel} {e : Fault}
    (h : pinReply P ctu env f r = .error e) : e = .badPointer := by
  unfold pinReply at h
  split at h
  · cases h
  split at h
  · cases h
  split at h
  · cases h
  · rename_i info hf
    generalize hu : __gdrdrv_unpin_buffer P env r.2.2 f info r.2.1 = u at h
    cases u with
    | error e' =>
      rw [← Except.error.inj h]
      exact unpin_error hu
    | ok u => cases h

theorem ioctl_error {s : Kernel} {f cur : Nat} {cmd : Cmd} {e : Fault} (h : gdrdrv_ioctl P s f cur cmd = .error e) :
    e = .badPointer := by
  cases gdrdrv_ioctl_runs P s f cur cmd with
  | same _ hx =>
    rw [hx] at h
    cases h
  | pins _ _ hx =>
    rename_i q info unpin _ _
    obtain ⟨r, hr⟩ := @pin_total P q.env s f info q.addr q.size q.p2p_token q.va_space q.flags
    rw [hx, hr] at h
    exact pinReply_error h
  | unpins _ _ hx =>
    rename_i env info handle _ _
    rw [hx] at h
    generalize hu : __gdrdrv_unpin_buffer P env s f info handle = u at h
    cases u with
    | error e' =>
      rw [← Except.error.inj h]
      exact unpin_error hu
    | ok u => cases h
  | requests _ _ _ hx =>
    rw [hx] at h
    cases h

/-! ## gdrdrv_mmap -/

/-- The coalescing loop reads inside the page table. -/
theorem contigLoop_total (pt : PageTable) (p prev n : Nat) : ∃ r, contigLoop pt p prev n = .ok r := by
  induction p, prev, n using contigLoop.induct pt with
  | case1 p prev n hp hg => rw [List.getElem?_eq_getElem hp] at hg; cases hg
  | case2 p prev n hp cur hg hne => rw [contigLoop, dif_pos hp, hg]; exact ⟨_, if_pos hne⟩
  | case3 p prev n hp cur hg heq ih =>
    rw [contigLoop, dif_pos hp, hg]
    simp only [if_neg heq]
    exact ih
  | case4 p prev n hp => rw [contigLoop, dif_neg hp]; exact ⟨_, rfl⟩

/-- Chunks of whole host pages are remapped without a fault, where the platform has the mapping type. -/
theorem remap_total {env : RemapEnv} {t : MrType} (hdev : t = .DEVICE → P.arch = .arm64) (table : Nat) (vma : Vma)
    (vaddr paddr m : Nat) : ∃ r, gdrdrv_remap_gpu_mem P env table vma vaddr paddr (m * P.PAGE_SIZE) t = .ok r := by
  have range : ∀ v : Vma, ∃ r, gdrdrv_io_remap_pfn_range P env table v vaddr (paddr >>> P.PAGE_SHIFT)
      (m * P.PAGE_SIZE) =
      .ok r := by
    intro v
    unfold gdrdrv_io_remap_pfn_range
    split
    · rw [if_neg (by simp)]
      exact ⟨_, rfl⟩
    · exact ⟨_, rfl⟩
  unfold gdrdrv_remap_gpu_mem
  split
  · exact ⟨_, rfl⟩
  split
  · exact ⟨_, rfl⟩
  split
  · exact ⟨_, rfl⟩
  cases t with
  | DEVICE =>
    obtain ⟨r, hr⟩ := range { vma with VM_DONTCOPY := true, prot := .DEVICE }
    simp only [pgprot_modify_device, hdev rfl, bind, Except.bind, hr]
    exact ⟨_, rfl⟩
  | WC =>
    obtain ⟨r, hr⟩ := range { vma with VM_DONTCOPY := true, prot := .WC }
    simp only [bind, Except.bind, hr]
    exact ⟨_, rfl⟩
  | _ =>
    obtain ⟨r, hr⟩ := range { vma with VM_DONTCOPY := true, prot := vma.prot }
    simp only [bind, Except.bind, hr]
    exact ⟨_, rfl⟩

/-- The loop is entered inside the page table and leaves before its end, so it does not fault. -/
theorem mmapLoop_total {env : RemapEnv} {pt : PageTable} {t : MrType} (hdev : t = .DEVICE → P.arch = .arm64) :
    ∀ (k p vaddr n : Nat) (vma : Vma), pt.entries - p = k → p < pt.entries →
      ∃ r, mmapLoop P env pt t vma p vaddr (n * P.PAGE_SIZE) = .ok r := by
  intro k
  induction k using Nat.strong_induction_on with
  | _ k ih =>
    intro p vaddr n vma hk hp
    rw [mmapLoop, List.getElem?_eq_getElem hp]
    dsimp only
    obtain ⟨⟨p', nentries⟩, hcl⟩ := contigLoop_total pt (p + 1) pt.pages[p] 1
    have hle := contigLoop_le hcl
    split
    · rename_i e he
      rw [hcl] at he
      cases he
    rename_i q m he
    rw [hcl] at he
    obtain ⟨rfl, rfl⟩ := Prod.mk.inj (Except.ok.inj he)
    simp only [min_len]
    obtain ⟨⟨ret, v1⟩, hr⟩ := @remap_total P env t hdev pt.id vma vaddr pt.pages[p] (min n (nentries * perGpuPage P))
    rw [hr]
    dsimp only
    split
    · exact ⟨_, rfl⟩
    split
    · rename_i hgo
      rw [← Nat.sub_mul]
      exact ih (pt.entries - p') (by omega) p' _ _ v1 rfl hgo.2
    · exact ⟨_, rfl⟩

theorem chooseType_ne_none (mr : Mr) : chooseType P mr ≠ .NONE := by
  unfold chooseType
  split
  · assumption
  split
  · nofun
  split <;> nofun

theorem mmapLocked_none {env : RemapEnv} {f : Nat} {mr : Mr} {vma : Vma} (hpt : mr.page_table = none) :
    ∃ r, mmapLocked P env f mr vma = .ok r := by
  unfold mmapLocked
  dsimp only
  rw [hpt]
  by_cases hmap : gdr_mr_is_mapped mr = true
  · exact ⟨_, if_pos hmap⟩
  · rw [if_neg hmap]
    by_cases hcb : mr.cb_flag = true
    · exact ⟨_, if_pos hcb⟩
    · exact ⟨_, if_neg hcb⟩

/-- `gdrdrv_mmap` of whole host pages, where the type it chooses suits the platform and the mr. -/
theorem mmapLocked_total {env : RemapEnv} {f n : Nat} {mr : Mr} {vma : Vma}
    (hn : vma.vm_end - vma.vm_start = n * P.PAGE_SIZE) (hdev : chooseType P mr = .DEVICE → P.arch = .arm64)
    (hforce : (mr.force_pci && chooseType P mr == .CACHING) = false) :
    ∃ r, mmapLocked P env f mr vma = .ok r := by
  cases hpt : mr.page_table with
  | none => exact mmapLocked_none hpt
  | some pt =>
    rw [mmapLocked_eq hpt]
    by_cases hr : refuses mr pt (vma.vm_end - vma.vm_start) = true
    · rw [if_pos hr]
      exact ⟨_, rfl⟩
    rw [if_neg hr, hn]
    have hent : 0 < pt.entries := by
      refine Nat.pos_of_ne_zero fun h0 => hr ?_
      simp [refuses, h0]
    obtain ⟨⟨ret, v', vaddr⟩, hloop⟩ := @mmapLoop_total P env pt _ hdev pt.entries 0 vma.vm_start n vma rfl hent
    rw [hloop]
    unfold afterLoop
    dsimp only
    generalize (if ret ≠ 0 then ret else if vaddr ≠ v'.vm_end then -EINVAL else 0) = e
    by_cases he : e ≠ 0
    · rw [if_pos he]
      exact ⟨_, rfl⟩
    · rw [if_neg he, if_neg (chooseType_ne_none mr), if_neg (by simp [hforce])]
      exact ⟨_, rfl⟩

/-! ## Pins with the flag for BAR1 -/

/-- An mr pinned with the flag cannot be mapped as cached. -/
def Mr.NotCached (P : Platform) (mr : Mr) : Prop := mr.force_pci = true → gdr_mr_supports_cache_mapping P mr = false

theorem looksLikeRam_iff {pa : Nat} (ha : P.arch = .ppc64) (ho : P.opensource = false) :
    P.gdr_pfn_is_ram (pa >>> P.PAGE_SHIFT) = true ↔ LooksLikeRam P pa := by
  unfold Platform.gdr_pfn_is_ram LooksLikeRam
  simp only [ha, ho, Bool.false_eq_true, if_false, Bool.and_eq_true, beq_iff_eq, true_and]
  rw [Nat.shiftRight_eq_div_pow, Nat.div_eq_zero_iff_lt (Nat.two_pow_pos 47)]

/-- Apart from these pages, the driver takes only RAM for RAM. -/
theorem not_pfn_is_ram {pa : Nat} (hram : P.page_is_ram (pa >>> P.PAGE_SHIFT) = false) (hlow : ¬ LooksLikeRam P pa) :
    P.gdr_pfn_is_ram (pa >>> P.PAGE_SHIFT) = false := by
  rw [← Bool.not_eq_true]
  cases ha : P.arch with
  | x86 => simp [Platform.gdr_pfn_is_ram, ha]
  | ppc64 =>
    by_cases ho : P.opensource = true
    · simp [Platform.gdr_pfn_is_ram, ha, ho, hram]
    · rwa [looksLikeRam_iff ha (Bool.eq_false_of_not_eq_true ho)]
  | arm64 => simp [Platform.gdr_pfn_is_ram, ha, hram]

theorem Mr.MadeBy.notCached {fresh : Nat} {o : SysOp} {mr : Mr} (hnv : ForcedIsBar1 P o) (hlow : ¬ ForcedLow P o)
    (h : mr.MadeBy P fresh o) : mr.NotCached P := by
  obtain ⟨f, cur, cmd, q, info, info', ho, hq, -, tok, va, force, pt, page_size, hargs, hget, -, he⟩ := h
  rw [he]
  rintro (rfl : force = true)
  have hforces : Forces P o pt := ⟨f, cur, cmd, q, tok, va, ho, hq, hargs, hget⟩
  obtain ⟨hcache, hram⟩ := hnv pt hforces
  unfold gdr_mr_supports_cache_mapping
  split
  · rfl
  · simp only [pinnedMr]
    cases hp : pt.pages with
    | nil => rfl
    | cons pa rest =>
      have hpa : P.gdr_pfn_is_ram (pa >>> P.PAGE_SHIFT) = false := by
        apply not_pfn_is_ram (hram pa (by rw [hp]; exact List.mem_cons_self))
        exact fun hl => hlow ⟨pt, pa, hforces, by rw [hp]; rfl, hl⟩
      simp only [hpa, hcache, Bool.and_false, Bool.or_false]

/-- The mr of such a pin is mapped as cached, unless another type is asked for. -/
theorem Mr.MadeBy.cached {fresh : Nat} {o : SysOp} {mr : Mr} {pt : PageTable} {pa : Nat} (hf : Forces P o pt)
    (hhead : pt.pages.head? = some pa) (hl : LooksLikeRam P pa) (h : mr.MadeBy P fresh o) :
    mr.force_pci = true ∧ chooseType P mr = .CACHING := by
  obtain ⟨f, cur, cmd, q, info, info', ho, hq, -, tok, va, force, pt', page_size, hargs, hget, -, he⟩ := h
  obtain ⟨f', cur', cmd', q', tok', va', ho', hq', hargs', hget'⟩ := hf
  rw [ho] at ho'
  cases ho'
  rw [hq] at hq'
  cases hq'
  rw [hargs] at hargs'
  cases hargs'
  rw [hget] at hget'
  cases hget'
  obtain ⟨rest, hp⟩ : ∃ rest, pt.pages = pa :: rest := List.head?_eq_some_iff.1 hhead
  have hram := (looksLikeRam_iff hl.1 hl.2.1).2 hl
  rw [he]
  refine ⟨rfl, ?_⟩
  have hsup : gdr_mr_supports_cache_mapping P
      (pinnedMr q.env fresh q.addr q.size tok va true pt page_size mr.handle) = true := by
    simp only [gdr_mr_supports_cache_mapping, pinnedMr, hp, hram, hl.2.2.1, Bool.not_true, Bool.false_eq_true,
      if_false, Bool.true_or]
  unfold chooseType
  rw [hsup]
  rfl

theorem supports_congr {mr mr' : Mr} (h : mr'.page_table = mr.page_table) :
    gdr_mr_supports_cache_mapping P mr' = gdr_mr_supports_cache_mapping P mr := typeAllowed_congr h .CACHING

theorem Mr.Change.notCached {mr mr' : Mr} (h : mr.Change P mr') (hi : mr.NotCached P) : mr'.NotCached P := by
  cases h with
  | invalidated =>
    intro _
    unfold gdr_mr_supports_cache_mapping
    split <;> rfl
  | _ => exact fun hforce => (supports_congr rfl).trans (hi hforce)

/-- A mapping as cached is of an mr that supports it, so not of one pinned with the flag. -/
theorem forced_not_caching {mr : Mr} (hg : mr.Granted P) (hn : mr.NotCached P) (hpt : mr.page_table.isSome = true) :
    (mr.force_pci && chooseType P mr == .CACHING) = false := by
  by_cases hf : mr.force_pci = true
  swap
  · rw [Bool.eq_false_of_not_eq_true hf, Bool.false_and]
  by_cases hc : chooseType P mr = .CACHING
  · have hyes := chooseType_allowed (hg.requested hpt)
    rw [hc, typeAllowed, hn hf] at hyes
    cases hyes
  · rw [beq_false_of_ne hc, Bool.and_false]

/-! ## The machine -/

/-- What makes an mr fit for `gdrdrv_mmap`. -/
structure Mr.Mappable (P : Platform) (mr : Mr) : Prop where
  granted : mr.Granted P
  notCached : mr.NotCached P
  device : mr.page_table.isSome = true → chooseType P mr = .DEVICE → P.arch = .arm64

/-- An `mmap` does not stop the kernel, where the listed mrs are fit for it. -/
theorem sysMmap_total {env : RemapEnv} {s : Kernel} {f cur start len : Nat} {off : BitVec 64} {e : Fault}
    (hlist : ∀ f info mr, s.files f = some info → mr ∈ info.mr_list → mr.Mappable P) :
    sysMmap P env s f cur start len off ≠ .error e := by
  intro he
  unfold sysMmap at he
  cases hreg : mmapRegion P s f start len off with
  | error e' => rw [hreg] at he; cases he
  | ok vma =>
    obtain ⟨pages, -, -, h1, h2, -⟩ := mmapRegion_ok hreg
    have hn : vma.vm_end - vma.vm_start = pages * P.PAGE_SIZE := by
      rw [h1, h2, Nat.add_mul, Nat.add_sub_cancel_left]
    rw [hreg] at he
    dsimp only at he
    generalize hg : gdrdrv_mmap P env _ f cur vma = g at he
    cases g with
    | ok g =>
      dsimp only at he
      split at he <;> cases he
    | error e' =>
      unfold gdrdrv_mmap at hg
      dsimp only at hg
      split at hg
      · cases hg
      rename_i info hf
      split at hg
      · cases hg
      split at hg
      · cases hg
      rename_i mr hsearch
      have hfit := hlist f info mr hf (search_mem hsearch)
      have htotal : ∃ r, mmapLocked P env f mr vma = .ok r := by
        by_cases hpt : mr.page_table.isSome = true
        · exact mmapLocked_total hn (hfit.device hpt) (forced_not_caching hfit.granted hfit.notCached hpt)
        · exact mmapLocked_none (Option.not_isSome_iff_eq_none.1 hpt)
      obtain ⟨r, hr⟩ := htotal
      rw [hr] at hg
      cases hg

/-- Where the listed mrs are fit for it, the only fault of a call is a bad pointer. -/
theorem opStops_badPointer {s : Kernel} (hlist : ∀ f info mr, s.files f = some info → mr ∈ info.mr_list → mr.Mappable P)
    {o : Op} {e : Fault} (hs : OpStops P s o e) : e = .badPointer := by
  cases hs with
  | ioctl he => exact ioctl_error he
  | mmap he => exact absurd he (sysMmap_total hlist)
  | callback _ _ _ he =>
    unfold nvCallback at he
    generalize hc : gdrdrv_get_pages_free_callback P _ s.vmas s.gdrdrv_nv_get_pages_refcount = c at he
    cases c with
    | error e' =>
      rw [← Except.error.inj he]
      exact callback_error hc
    | ok c => cases he
  | release he =>
    rename_i f env
    unfold gdrdrv_release at he
    split at he
    · cases he
    · rename_i info hf
      generalize hl : releaseLoop P env info.mr_list s.vmas s.gdrdrv_nv_get_pages_refcount = l at he
      cases l with
      | error e' =>
        rw [← Except.error.inj he]
        exact releaseLoop_error hl
      | ok l => cases he

section
variable {build : Platform} {power9 : Bool} {pci_get_device : Nat → Nat → Bool}

/-- On a platform that `gdrdrv_init` has set up, every listed mr is fit for `gdrdrv_mmap`. -/
theorem mappable (hP : P = gdrdrv_init build power9 pci_get_device) {s : Kernel} {os : List SysOp}
    (h : Runs.Run (· = init) (Runs.only (fun _ o => ForcedIsBar1 P o ∧ ¬ ForcedLow P o) (SysStep P)) s os)
    {f : Nat} {info : Info} {mr : Mr}
    (hf : s.files f = some info) (hm : mr ∈ info.mr_list) : mr.Mappable P := by
  have hg : mr.Granted P := SysRun.granted h.of_only hf hm
  refine ⟨hg, listed_inv (fun hok => Mr.MadeBy.notCached hok.1 hok.2) Mr.Change.notCached h f info hf mr hm,
    fun hpt ht => ?_⟩
  have hdev := chooseType_allowed (hg.requested hpt)
  rw [ht, typeAllowed, hP] at hdev
  rw [hP]
  exact gdrdrv_init_device hdev

/-- No `BUG_ON` is reached, whatever processes ask for, with VMAs split and forks
in between, as long as forced pins are given BAR1 pages, and none that look like RAM. -/
theorem no_bug_on {s : Kernel} {os : List SysOp}
    (h : Runs.Run (· = init)
      (Runs.only (fun _ o => ForcedIsBar1 (gdrdrv_init build power9 pci_get_device) o ∧
        ¬ ForcedLow (gdrdrv_init build power9 pci_get_device) o)
        (SysStep (gdrdrv_init build power9 pci_get_device))) s os) (o : SysOp) (what : String) :
    ¬ Stops (gdrdrv_init build power9 pci_get_device) s o (.bugOn what) := by
  have hlist : ∀ f info mr, s.files f = some info → mr ∈ info.mr_list → mr.Mappable _ := fun _ _ _ => mappable rfl h
  intro hs
  cases hs with
  | op hs => cases opStops_badPointer hlist hs
  | stale _ hs => cases opStops_badPointer (s := s.withStale _) hlist hs

end

end

/-- The proprietary driver on PPC64, with 64 KB pages, persistent mappings and pins that can be forced. 64 GB
are RAM. -/
def ppc64Build : Platform where
  arch := .ppc64
  opensource := false
  PAGE_SHIFT := 16
  page_shift_le := by decide
  gdrdrv_cpu_could_cache_gpu_mappings := false
  gdrdrv_cpu_must_use_device_mapping := false
  use_persistent_mapping := true
  gdr_support_persistent_mapping := true
  force_bar1 := true
  NVIDIA_P2P_PAGE_TABLE_VERSION := 0x00010003
  gdrdrv_pat_enabled := false
  page_is_ram := fun pfn => pfn < 0x100000

/-- The same on POWER9. -/
def power9Host : Platform := gdrdrv_init ppc64Build true fun _ _ => false

/-- A process pins a GPU page with the flag and is granted the page at `pa`. -/
def pinForced (pa : Nat) : List Op :=
  [.openFile 0 1 true, .ioctl 0 1 (.pin_buffer_v2 true true
    ⟨true, .ok ⟨0, 0x00010003, .NVIDIA_P2P_PAGE_SIZE_64KB, [pa], false⟩, 0, 0, ⟨false, 0⟩⟩ ⟨false,
      0⟩ 0x10000 0x10000 1)]

/-- The page is BAR1. -/
theorem pinForced_isBar1 {pa : Nat} (h : 0x100000 ≤ pa >>> 16) (o : SysOp) (ho : o ∈ (pinForced pa).map .op) :
    ForcedIsBar1 power9Host o := by
  rintro pt ⟨f, cur, cmd, q, tok, va, hcall, hq, -, hget⟩
  simp only [pinForced, List.map_cons, List.map_nil, List.mem_cons, List.not_mem_nil, or_false] at ho
  rcases ho with rfl | rfl
  · cases hcall
  · cases hcall
    cases hq
    cases hget
    refine ⟨rfl, fun pa' hm => ?_⟩
    rw [List.mem_singleton.1 hm]
    exact decide_eq_false (Nat.not_lt.2 h)

/-- A forced pin of a page at `0x6000000000000`, where POWER9 has its BARs, and the attempt to map it. -/
theorem no_bug_on_forced : ∃ s, SysRun power9Host s ((pinForced 0x6000000000000).map .op) ∧
    (∃ mr ∈ ((s.files 0).elim [] Info.mr_list), mr.force_pci = true) ∧
    ¬ Stops power9Host s (.op (mmapOp 0 1 0x2000 0x10000 0))
      (.bugOn "mr->force_pci && (cpu_mapping_type == GDR_MR_CACHING)") := by
  obtain ⟨s, hs, hm⟩ : ∃ s, execAll power9Host (fun _ _ => true) init (pinForced 0x6000000000000) = some s ∧
      (((s.files 0).elim [] Info.mr_list).any (·.force_pci)) = true :=
    Option.any_eq_true _ _ |>.1 (by decide +kernel)
  have hr := Run.sysRun (execAll_run hs).of_only
  refine ⟨s, hr, List.any_eq_true.1 hm, no_bug_on (hr.only_of fun o ho => ⟨pinForced_isBar1 (by decide) o ho, ?_⟩) _ _⟩
  rintro ⟨pt, pa, ⟨f, cur, cmd, q, tok, va, hcall, hq, -, hget⟩, hhead, -, -, -, hlow⟩
  simp only [pinForced, List.map_cons, List.map_nil, List.mem_cons, List.not_mem_nil, or_false] at ho
  rcases ho with rfl | rfl
  · cases hcall
  · cases hcall
    cases hq
    cases hget
    cases hhead
    revert hlow
    decide

/-- A forced pin of a page at `0x100000000000`, which is no RAM either. -/
theorem bug_on_forced : ∃ s, Runs.Run (· = init)
    (Runs.only (fun _ o => ForcedIsBar1 power9Host o) (SysStep power9Host)) s
      ((pinForced 0x100000000000).map .op) ∧
    Stops power9Host s (.op (mmapOp 0 1 0x2000 0x10000 0))
    (.bugOn "mr->force_pci && (cpu_mapping_type == GDR_MR_CACHING)") := by
  obtain ⟨s, hs, hm⟩ : ∃ s, execAll power9Host (fun _ _ => true) init (pinForced 0x100000000000) = some s ∧
      (match sysMmap power9Host (fun _ _ _ => 0) s 0 1 0x2000 0x10000 0 with
        | .error (.bugOn what) => what == "mr->force_pci && (cpu_mapping_type == GDR_MR_CACHING)"
        | _ => false) = true :=
    Option.any_eq_true _ _ |>.1 (by decide +kernel)
  have hr := Run.sysRun (execAll_run hs).of_only
  refine ⟨s, hr.only_of (pinForced_isBar1 (by decide)), .op (.mmap ?_)⟩
  split at hm
  · rename_i what he
    rw [he, eq_of_beq hm]
  · cases hm

end gdrdrv
