import Mathlib.Data.List.Nodup
import GdrCopy.Driver.Refine
/-!
# What a mapped address translates to

`mmap_translates`: a successful `gdrdrv_mmap` maps every host page of the VMA
once, to the physical address that the page table has for its offset, on every
page size, for every mix of contiguous entries, and with or without PAT.
-/

namespace gdrdrv

section
variable (P : Platform)

/-- `vma` maps its host pages in order, page `k` to the physical address of byte `k * PAGE_SIZE` of the buffer. -/
structure MapsExactly (pt : PageTable) (vma : Vma) : Prop where
  pages : vma.ptes.map (·.vaddr) = (List.range (vma.pages P)).map fun k => vma.vm_start + k * P.PAGE_SIZE
  physical : ∀ k, k < vma.pages P → ∃ p pa, vma.ptes[k]? = some p ∧
    pt.pages[k * P.PAGE_SIZE / GPU_PAGE_SIZE]? = some pa ∧ p.pfn * P.PAGE_SIZE = pa + k * P.PAGE_SIZE % GPU_PAGE_SIZE

/-- A region of `n` host pages, before the driver fills it. -/
structure Vma.Request (vma : Vma) (n : Nat) : Prop where
  pos : 0 < n
  bounds : ∃ start, vma.vm_start = start * P.PAGE_SIZE ∧ vma.vm_end = (start + n) * P.PAGE_SIZE
  vm_end : vma.vm_end < 2 ^ 64
  ptes : vma.ptes = []

variable {P}

theorem Vma.Request.size {vma : Vma} {n : Nat} (h : vma.Request P n) : vma.vm_end - vma.vm_start = n * P.PAGE_SIZE := by
  obtain ⟨start, hs, he⟩ := h.bounds
  rw [hs, he, Nat.add_mul, Nat.add_sub_cancel_left]

theorem Vma.Request.pages {vma : Vma} {n : Nat} (h : vma.Request P n) : vma.pages P = n := by
  rw [Vma.pages, h.size, Nat.mul_div_cancel _ (pageSize_pos P)]

/-- Each page is mapped once. -/
theorem MapsExactly.nodup {pt : PageTable} {vma : Vma} (h : MapsExactly P pt vma) : (vma.ptes.map (·.vaddr)).Nodup := by
  rw [h.pages]
  exact List.Nodup.map (fun a b he => Nat.eq_of_mul_eq_mul_right (pageSize_pos P) (Nat.add_left_cancel he))
    List.nodup_range

/-- Nothing is mapped outside the region. -/
theorem MapsExactly.inside {pt : PageTable} {vma : Vma} {n : Nat} (h : MapsExactly P pt vma)
    (hn : vma.vm_end - vma.vm_start = n * P.PAGE_SIZE) {p : Pte} (hp : p ∈ vma.ptes) :
    vma.vm_start ≤ p.vaddr ∧ p.vaddr + P.PAGE_SIZE ≤ vma.vm_end := by
  have hm : p.vaddr ∈ vma.ptes.map (·.vaddr) := List.mem_map.2 ⟨p, hp, rfl⟩
  rw [h.pages, Vma.pages, hn, Nat.mul_div_cancel _ (pageSize_pos P)] at hm
  obtain ⟨k, hk, he⟩ := List.mem_map.1 hm
  have hle : (k + 1) * P.PAGE_SIZE ≤ n * P.PAGE_SIZE := Nat.mul_le_mul_right _ (List.mem_range.1 hk)
  rw [Nat.succ_mul] at hle
  have := pageSize_pos P
  omega

/-! ## The checks before the loop -/

/-- The checks of `gdrdrv_mmap` on an mr that holds `pt`. -/
def refuses (mr : Mr) (pt : PageTable) (size : Nat) : Bool :=
  gdr_mr_is_mapped mr || mr.cb_flag || pt.entries == 0 || mr.offset != 0 || GPU_PAGE_SIZE * pt.entries < mr.offset ||
    GPU_PAGE_SIZE * pt.entries < u64 (size + mr.offset)

/-- What `gdrdrv_mmap` makes of the result of its loop. -/
def afterLoop (f_mapping : Nat) (mr : Mr) (t : MrType) :
    Except Fault (Int × Vma × Nat) → Except Fault (Int × Mr × Vma)
  | .error e => .error e
  | .ok (ret, vma, vaddr) =>
    let ret := if ret ≠ 0 then ret else if vaddr ≠ vma.vm_end then -EINVAL else 0
    if ret ≠ 0 then .ok (ret, mmapFail mr, vma)
    else if t = .NONE then .error (.bugOn "cpu_mapping_type == GDR_MR_NONE")
    else if mr.force_pci && t == .CACHING then .error (.bugOn "mr->force_pci && (cpu_mapping_type == GDR_MR_CACHING)")
    else .ok (0, { mr with vma := some vma.id, mapping := some f_mapping, cpu_mapping_type := t }, vma)

theorem mmapLocked_eq {env : RemapEnv} {f : Nat} {mr : Mr} {pt : PageTable} {vma : Vma}
    (hpt : mr.page_table = some pt) :
    mmapLocked P env f mr vma =
      if refuses mr pt (vma.vm_end - vma.vm_start) then .ok (-EINVAL, mmapFail mr, vma)
      else afterLoop f mr (chooseType P mr)
        (mmapLoop P env pt (chooseType P mr) vma 0 vma.vm_start (vma.vm_end - vma.vm_start)) := by
  obtain ⟨ptr, handle, offset, tok, va_space, page_size, va, size, cpu, req, table, cb_flag, tm, tsc, v,
    mapping, force⟩ := mr
  obtain rfl : table = some pt := hpt
  unfold mmapLocked refuses
  dsimp only
  generalize gdr_mr_is_mapped _ = mapped
  cases mapped
  swap
  · rw [if_pos rfl]
    simp only [Bool.true_or, if_true]
  cases cb_flag
  swap
  · rw [if_neg Bool.false_ne_true, if_pos rfl]
    simp only [Bool.true_or, Bool.or_true, if_true]
  rw [if_neg Bool.false_ne_true, if_neg Bool.false_ne_true]
  by_cases h3 : pt.entries = 0
  · simp [h3]
  by_cases h4 : offset = 0
  swap
  · simp [h3, h4]
  subst h4
  by_cases h5 : GPU_PAGE_SIZE * pt.entries < u64 (vma.vm_end - vma.vm_start + 0)
  · simp only [h3, h5, Nat.not_lt_zero, ne_eq, not_true_eq_false, if_false, if_true, decide_true, Bool.or_true]
  · rw [if_neg h3, if_neg (not_not.2 rfl), if_neg (Nat.not_lt_zero _), if_neg h5, if_neg (by simpa [h3] using h5)]
    generalize mmapLoop P env pt _ vma 0 vma.vm_start _ = r
    cases r <;> rfl

/-! ## A success maps every page -/

theorem gpuPage_of_page (k : Nat) : k * P.PAGE_SIZE / GPU_PAGE_SIZE = k / perGpuPage P ∧
    k * P.PAGE_SIZE % GPU_PAGE_SIZE = k % perGpuPage P * P.PAGE_SIZE := by
  rw [← perGpuPage_mul P]
  exact ⟨Nat.mul_div_mul_right _ _ (pageSize_pos P), Nat.mul_mod_mul_right _ _ _⟩

/-- Filling an empty region with its first `n` pages maps it exactly. -/
theorem mapped_exactly {pt : PageTable} {vma : Vma} {n : Nat} (t : MrType) (h : vma.Request P n)
    (ha : ∀ a ∈ pt.pages, a % P.PAGE_SIZE = 0) (hle : n ≤ pt.entries * perGpuPage P) :
    MapsExactly P pt (vma.mapped P pt t vma.vm_start 0 n) := by
  have hptes : (vma.mapped P pt t vma.vm_start 0 n).ptes = ptesFrom P pt vma.vm_start 0 n := by
    simp only [Vma.mapped, h.ptes, List.nil_append]
  have hpages : (vma.mapped P pt t vma.vm_start 0 n).pages P = n := h.pages
  refine ⟨?_, fun k hk => ?_⟩
  · rw [hptes, hpages, ptesFrom, List.map_map]
    rfl
  · rw [hpages] at hk
    obtain ⟨hdiv, hmod⟩ := gpuPage_of_page (P := P) k
    have hlt : k / perGpuPage P < pt.entries := by
      rw [Nat.div_lt_iff_lt_mul (perGpuPage_pos P)]; omega
    have hget := getElem?_addr hlt
    have hdvd : P.PAGE_SIZE ∣ pt.addr (k / perGpuPage P) := Nat.dvd_of_mod_eq_zero (ha _ (List.mem_of_getElem? hget))
    refine ⟨⟨vma.vm_start + k * P.PAGE_SIZE, frame P pt (0 + k), pt.id⟩, _, ?_, by rw [hdiv]; exact hget, ?_⟩
    · rw [hptes, ptesFrom, List.getElem?_map, List.getElem?_range hk]
      rfl
    · simp only [frame, Nat.zero_add]
      rw [hmod, Nat.div_mul_cancel (Nat.dvd_add hdvd (Nat.dvd_mul_left _ _))]

/-- A successful `mmapLocked` has filled the region from the page table of the mr. -/
theorem mmapLocked_maps {env : RemapEnv} {f n : Nat} {mr mr' : Mr} {pt : PageTable} {vma v' : Vma}
    (hpt : mr.page_table = some pt) (hs : pt.Sane) (h : vma.Request P n)
    (hm : mmapLocked P env f mr vma = .ok (0, mr', v')) :
    n ≤ pt.entries * perGpuPage P ∧ v' = vma.mapped P pt (chooseType P mr) vma.vm_start 0 n ∧
      mr' = { mr with vma := some vma.id, mapping := some f, cpu_mapping_type := chooseType P mr } := by
  obtain ⟨hne, -⟩ | ⟨-, -, -, -, -, -, hmr, pt', hpt', hpos, hsize, hloop⟩ := mmapLocked_cases P hm
  · exact absurd rfl hne
  obtain rfl : pt' = pt := Option.some.inj (hpt'.symm.trans hpt)
  have hlt : vma.vm_end - vma.vm_start < 2 ^ 64 := Nat.lt_of_le_of_lt (Nat.sub_le _ _) h.vm_end
  rw [u64, Nat.mod_eq_of_lt hlt, h.size, ← perGpuPage_mul P, Nat.mul_comm (perGpuPage P * P.PAGE_SIZE),
    ← Nat.mul_assoc] at hsize
  have hle : n ≤ pt'.entries * perGpuPage P := Nat.le_of_mul_le_mul_right hsize (pageSize_pos P)
  rw [h.size] at hloop
  obtain ⟨-, hv⟩ := (mmapLoop_ok P hs (chooseType P mr) _ 0 vma.vm_start n vma rfl hpos h.pos hle).2 _ _ hloop
  rw [Nat.zero_mul] at hv
  subst hv
  exact ⟨hle, rfl, hmr⟩

theorem afterLoop_error {f : Nat} {mr : Mr} {t : MrType} {r : Except Fault (Int × Vma × Nat)}
    (h : afterLoop f mr t r = .error .outOfBounds) : r = .error .outOfBounds := by
  match r with
  | .error e =>
    cases h
    rfl
  | .ok (ret, vma, vaddr) =>
    simp only [afterLoop] at h
    split_ifs at h <;> cases h

/-- No entry past the end of the page table is read. -/
theorem mmapLocked_bounds {env : RemapEnv} {f n : Nat} {mr : Mr} {pt : PageTable} {vma : Vma}
    (hpt : mr.page_table = some pt) (hs : pt.Sane) (h : vma.Request P n) :
    mmapLocked P env f mr vma ≠ .error .outOfBounds := by
  rw [mmapLocked_eq hpt]
  split
  · simp
  rename_i hr
  have hchk : ¬(pt.entries = 0) ∧ mr.offset = 0 ∧ u64 (vma.vm_end - vma.vm_start + mr.offset) ≤
      GPU_PAGE_SIZE * pt.entries := by
    simp only [refuses, Bool.or_eq_true, not_or, decide_eq_true_eq, not_lt, beq_iff_eq, bne_iff_ne, ne_eq,
      not_not] at hr
    exact ⟨hr.1.1.1.2, hr.1.1.2, hr.2⟩
  obtain ⟨hpos, hoff, hsize⟩ := hchk
  have hlt : vma.vm_end - vma.vm_start < 2 ^ 64 := Nat.lt_of_le_of_lt (Nat.sub_le _ _) h.vm_end
  rw [hoff, Nat.add_zero, u64, Nat.mod_eq_of_lt hlt, h.size, ← perGpuPage_mul P,
    Nat.mul_comm (perGpuPage P * P.PAGE_SIZE), ← Nat.mul_assoc] at hsize
  have hle : n ≤ pt.entries * perGpuPage P := Nat.le_of_mul_le_mul_right hsize (pageSize_pos P)
  have hloop : mmapLoop P env pt (chooseType P mr) vma 0 vma.vm_start (n * P.PAGE_SIZE) ≠ .error .outOfBounds :=
    (mmapLoop_ok P hs (chooseType P mr) _ 0 vma.vm_start n vma rfl (Nat.pos_of_ne_zero hpos) h.pos hle).1
  rw [← h.size] at hloop
  exact fun he => hloop (afterLoop_error he)

/-- A region larger than the pinned pages is refused untouched. -/
theorem mmapLocked_large {env : RemapEnv} {f n : Nat} {mr : Mr} {pt : PageTable} {vma : Vma}
    (hpt : mr.page_table = some pt) (h : vma.Request P n)
    (hlarge : GPU_PAGE_SIZE * pt.entries < vma.vm_end - vma.vm_start) :
    mmapLocked P env f mr vma = .ok (-EINVAL, mmapFail mr, vma) := by
  have hlt : vma.vm_end - vma.vm_start < 2 ^ 64 := Nat.lt_of_le_of_lt (Nat.sub_le _ _) h.vm_end
  have hr : refuses mr pt (vma.vm_end - vma.vm_start) = true := by
    unfold refuses
    by_cases hoff : mr.offset = 0
    · rw [hoff, Nat.add_zero, u64, Nat.mod_eq_of_lt hlt, decide_eq_true hlarge, Bool.or_true]
    · rw [(bne_iff_ne).2 hoff]
      simp only [Bool.or_true, Bool.true_or]
  rw [mmapLocked_eq hpt, if_pos hr]

/-! ## With and without PAT -/

/-- The same host with PAT on or off. -/
def Platform.withPat (P : Platform) (b : Bool) : Platform := { P with gdrdrv_pat_enabled := b }

/-- Every `io_remap_pfn_range` succeeds. -/
def remaps : RemapEnv := fun _ _ _ => 0

theorem remapChunks_remaps {table : Nat} (m : Nat) : ∀ (vma : Vma) (vaddr pfn : Nat),
    remapChunks P remaps table vma vaddr pfn (m * P.PAGE_SIZE) = (0, vma.install P table vaddr pfn m) := by
  have one : ∀ (vma : Vma) (vaddr pfn : Nat),
      __gdrdrv_io_remap_pfn_range P remaps table vma vaddr pfn P.PAGE_SIZE = (0, vma.install P table vaddr pfn 1) := by
    intro vma vaddr pfn
    have h1 := pages_of_mul P 1
    rw [one_mul] at h1
    simp only [__gdrdrv_io_remap_pfn_range, remaps, if_true, h1, Vma.install]
  induction m with
  | zero =>
    intro vma vaddr pfn
    rw [remapChunks, dif_neg (by simp)]
    simp [Vma.install]
  | succ m ih =>
    intro vma vaddr pfn
    rw [remapChunks, dif_pos (Nat.mul_pos (Nat.succ_pos m) (pageSize_pos P)), one, Nat.succ_mul, Nat.add_sub_cancel]
    simp only [ne_eq, not_true_eq_false, if_false]
    rw [ih, install_succ]

/-- One call for the range and one call per page install the same pages. -/
theorem remapRange_remaps {table vaddr pfn m : Nat} {vma : Vma} :
    gdrdrv_io_remap_pfn_range P remaps table vma vaddr pfn (m * P.PAGE_SIZE) =
      .ok (0, vma.install P table vaddr pfn m) := by
  unfold gdrdrv_io_remap_pfn_range
  split
  · rw [if_neg (not_not.2 (Nat.mul_mod_left _ _)), remapChunks_remaps]
  · simp only [__gdrdrv_io_remap_pfn_range, remaps, if_true, pages_of_mul, Vma.install]

theorem remap_pat (b : Bool) {table vaddr paddr m : Nat} {vma : Vma} {t : MrType} :
    gdrdrv_remap_gpu_mem (P.withPat b) remaps table vma vaddr paddr (m * P.PAGE_SIZE) t =
      gdrdrv_remap_gpu_mem P remaps table vma vaddr paddr (m * P.PAGE_SIZE) t := by
  have key : ∀ vma : Vma, gdrdrv_io_remap_pfn_range (P.withPat b) remaps table vma vaddr (paddr >>> P.PAGE_SHIFT)
      (m * P.PAGE_SIZE) = gdrdrv_io_remap_pfn_range P remaps table vma vaddr (paddr >>> P.PAGE_SHIFT)
        (m * P.PAGE_SIZE) := by
    intro vma
    have h1 : gdrdrv_io_remap_pfn_range (P.withPat b) remaps table vma vaddr (paddr >>> P.PAGE_SHIFT)
        (m * P.PAGE_SIZE) =
        .ok (0, vma.install P table vaddr (paddr >>> P.PAGE_SHIFT) m) := remapRange_remaps (P := P.withPat b)
    rw [h1, remapRange_remaps]
  have hp : (P.withPat b).PAGE_SHIFT = P.PAGE_SHIFT := rfl
  have hs : (P.withPat b).PAGE_SIZE = P.PAGE_SIZE := rfl
  have hd : pgprot_modify_device (P.withPat b) = pgprot_modify_device P := rfl
  simp only [gdrdrv_remap_gpu_mem, hp, hs, hd, key]

theorem mmapLoop_pat (b : Bool) {pt : PageTable} (t : MrType) : ∀ (k p vaddr n : Nat) (vma : Vma), pt.entries - p = k →
    mmapLoop (P.withPat b) remaps pt t vma p vaddr (n * P.PAGE_SIZE) =
    mmapLoop P remaps pt t vma p vaddr (n * P.PAGE_SIZE) := by
  intro k
  induction k using Nat.strong_induction_on with
  | _ k ih =>
    intro p vaddr n vma hk
    rw [mmapLoop, mmapLoop]
    cases hp : pt.pages[p]? with
    | none => rfl
    | some paddr =>
      have hlt : p < pt.entries := (List.getElem?_eq_some_iff.1 hp).1
      dsimp only
      split
      · rfl
      rename_i p' nentries hcl
      have hle := contigLoop_le hcl
      simp only [min_len, remap_pat]
      generalize gdrdrv_remap_gpu_mem P remaps pt.id vma vaddr paddr _ t = r
      cases r with
      | error e => rfl
      | ok r =>
        obtain ⟨ret, v1⟩ := r
        dsimp only
        split
        · rfl
        · rw [← Nat.sub_mul, ih (pt.entries - p') (by omega) p' _ _ _ rfl]

theorem mmapLocked_pat (b : Bool) {f n : Nat} {mr : Mr} {vma : Vma} (h : vma.Request P n) :
    mmapLocked (P.withPat b) remaps f mr vma = mmapLocked P remaps f mr vma := by
  cases hpt : mr.page_table with
  | none => simp only [mmapLocked, hpt]
  | some pt =>
    have ht : chooseType (P.withPat b) mr = chooseType P mr := rfl
    rw [mmapLocked_eq hpt, mmapLocked_eq hpt, ht, h.size, mmapLoop_pat b (chooseType P mr) _ 0 _ n vma rfl]

/-! ## gdrdrv_mmap -/

theorem mmap_cases {env : RemapEnv} {s : Kernel} {f cur : Nat} {info : Info} {mr : Mr} {vma : Vma}
    (hf : s.files f = some info) (hsame : gdrdrv_check_same_process info cur = true)
    (hs : gdr_mr_from_handle_unlocked info (gdrdrv_handle_from_off vma.vm_pgoff) = some mr) :
    gdrdrv_mmap P env s f cur vma = (mmapLocked P env f mr vma).map fun r =>
      (r.1, r.2.2, s.setFile f (some (info.put r.2.1))) := by
  simp only [gdrdrv_mmap, hf, hsame, hs, Bool.not_true, Bool.false_eq_true, if_false]
  match mmapLocked P env f mr vma with
  | .error e => rfl
  | .ok (ret, mr', v') => rfl

/-- For every page table with addresses aligned to host pages, and every region of
whole host pages: `gdrdrv_mmap` never reads past the page table. If it returns 0,
the region is mapped exactly, by the same VMA and state on every path. A region
larger than the page table is refused untouched. While every remap succeeds, PAT
makes no difference at all. -/
theorem mmap_translates {s : Kernel} {f cur n : Nat} {info : Info} {mr : Mr} {pt : PageTable} {vma : Vma}
    (hf : s.files f = some info) (hsame : gdrdrv_check_same_process info cur = true)
    (hs : gdr_mr_from_handle_unlocked info (gdrdrv_handle_from_off vma.vm_pgoff) = some mr)
    (hpt : mr.page_table = some pt) (hsane : pt.Sane) (halign : ∀ a ∈ pt.pages, a % P.PAGE_SIZE = 0)
    (h : vma.Request P n) :
    (∀ env, gdrdrv_mmap P env s f cur vma ≠ .error .outOfBounds) ∧
      (∀ env v' s', gdrdrv_mmap P env s f cur vma = .ok (0, v', s') →
        v'.vm_start = vma.vm_start ∧ v'.vm_end = vma.vm_end ∧ MapsExactly P pt v' ∧
        ∀ b env' w s1, gdrdrv_mmap (P.withPat b) env' s f cur vma = .ok (0, w, s1) → w = v' ∧ s1 = s') ∧
      (GPU_PAGE_SIZE * pt.entries < vma.vm_end - vma.vm_start →
        ∀ env, ∃ s', gdrdrv_mmap P env s f cur vma = .ok (-EINVAL, vma, s')) ∧
      ∀ b, gdrdrv_mmap (P.withPat b) remaps s f cur vma = gdrdrv_mmap P remaps s f cur vma := by
  have success : ∀ (Q : Platform) env v' s', gdrdrv_mmap Q env s f cur vma = .ok (0, v', s') →
      ∃ mr', mmapLocked Q env f mr vma = .ok (0, mr', v') ∧ s' = s.setFile f (some (info.put mr')) := by
    intro Q env v' s' hm
    rw [mmap_cases hf hsame hs] at hm
    match hl : mmapLocked Q env f mr vma with
    | .error e =>
      rw [hl] at hm
      cases hm
    | .ok (ret, mr', v1) =>
      rw [hl] at hm
      simp only [Except.map, Except.ok.injEq, Prod.mk.injEq] at hm
      obtain ⟨rfl, rfl, rfl⟩ := hm
      exact ⟨mr', rfl, rfl⟩
  refine ⟨fun env he => ?_, fun env v' s' hm => ?_, fun hlarge env => ?_, fun b => ?_⟩
  · rw [mmap_cases hf hsame hs] at he
    match hl : mmapLocked P env f mr vma with
    | .error e =>
      rw [hl] at he
      cases he
      exact mmapLocked_bounds hpt hsane h hl
    | .ok r =>
      rw [hl] at he
      cases he
  · obtain ⟨mr', hl, rfl⟩ := success P env v' s' hm
    obtain ⟨hle, rfl, rfl⟩ := mmapLocked_maps hpt hsane h hl
    refine ⟨rfl, rfl, mapped_exactly _ h halign hle, fun b env' w s1 hw => ?_⟩
    obtain ⟨mr'', hl', rfl⟩ := success (P.withPat b) env' w s1 hw
    obtain ⟨-, rfl, rfl⟩ := mmapLocked_maps hpt hsane (⟨h.pos, h.bounds, h.vm_end, h.ptes⟩ :
      vma.Request (P.withPat b) n) hl'
    exact ⟨rfl, rfl⟩
  · rw [mmap_cases hf hsame hs, mmapLocked_large hpt h hlarge]
    exact ⟨_, rfl⟩
  · rw [mmap_cases hf hsame hs, mmap_cases hf hsame hs, mmapLocked_pat b h]

end

/-- Three GPU pages, of which the first two are contiguous. -/
def threePages : PageTable := ⟨2, 0x00010002, .NVIDIA_P2P_PAGE_SIZE_64KB, [0x30000, 0x40000, 0x90000], false⟩

/-- A file with one mr that holds `threePages`. -/
def threePagesPinned : Kernel :=
  { init with
    files := fun f =>
      if f = 0 then some ⟨[{ newMr 1 0x10000 0x30000 0 0 false with page_table := some threePages }], 7, 48, false⟩
      else none }

/-- A region of two and a half GPU pages. -/
def halfOfThree : Vma := ⟨3, 0, 0x1000000, 0x1028000, 0, false, .CACHING, []⟩

theorem mmap_translates_three_pages :
    ∃ v' s', gdrdrv_mmap x86Host remaps threePagesPinned 0 7 halfOfThree = .ok (0, v', s') ∧
      MapsExactly x86Host threePages v' := by
  obtain ⟨r, hr, h0⟩ : ∃ r, (gdrdrv_mmap x86Host remaps threePagesPinned 0 7 halfOfThree).toOption = some r ∧
      (r.1 == 0) = true := Option.any_eq_true _ _ |>.1 (by decide +kernel)
  obtain ⟨ret, v', s'⟩ := r
  obtain rfl : ret = 0 := by simpa using h0
  have hsane : threePages.Sane := ⟨by decide, by decide⟩
  have hreq : halfOfThree.Request x86Host 40 := ⟨by decide, ⟨0x1000, by decide, by decide⟩, by decide, rfl⟩
  have hall := @mmap_translates x86Host threePagesPinned 0 7 40 _ _ _ halfOfThree rfl rfl rfl rfl hsane (by decide) hreq
  exact ⟨v', s', toOption_ok hr, (hall.2.1 _ _ _ (toOption_ok hr)).2.2.1⟩

end gdrdrv
