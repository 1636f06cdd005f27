import Mathlib.Tactic.Ring
import GdrCopy.Driver.Kernel
/-!
# What gdrdrv_mmap maps

A successful `mmapLoop` installs, for every host page of the VMA in order, the
frame that the page table gives for it, however the entries are grouped into
contiguous runs and however each run is cut into calls.
-/

namespace gdrdrv

section
variable (P : Platform)

/-- Host pages in a GPU page. -/
def perGpuPage : Nat := 2 ^ (GPU_PAGE_SHIFT - P.PAGE_SHIFT)

theorem perGpuPage_pos : 0 < perGpuPage P := Nat.two_pow_pos _

theorem pageSize_pos : 0 < P.PAGE_SIZE := Nat.two_pow_pos _

theorem perGpuPage_mul : perGpuPage P * P.PAGE_SIZE = GPU_PAGE_SIZE := by
  rw [perGpuPage, Platform.PAGE_SIZE, ← pow_add, Nat.sub_add_cancel P.page_shift_le]; rfl

/-- The host pages of a region. -/
def Vma.pages (v : Vma) : Nat := (v.vm_end - v.vm_start) / P.PAGE_SIZE

/-- Entry `i` of the page table. -/
def PageTable.addr (pt : PageTable) (i : Nat) : Nat := pt.pages.getD i 0

/-- The frame of host page `k` of a mapping of `pt`. -/
def frame (pt : PageTable) (k : Nat) : Nat :=
  (pt.addr (k / perGpuPage P) + k % perGpuPage P * P.PAGE_SIZE) / P.PAGE_SIZE

/-- The translations of `m` host pages at `vaddr`, the first being page `k`. -/
def ptesFrom (pt : PageTable) (vaddr k m : Nat) : List Pte :=
  (List.range m).map fun j => ⟨vaddr + j * P.PAGE_SIZE, frame P pt (k + j), pt.id⟩

theorem ptesFrom_add (pt : PageTable) (vaddr k m n : Nat) :
    ptesFrom P pt vaddr k (m + n) = ptesFrom P pt vaddr k m ++ ptesFrom P pt (vaddr + m * P.PAGE_SIZE) (k + m) n := by
  simp only [ptesFrom, List.range_add, List.map_append, List.map_map]
  congr 1
  refine List.map_congr_left fun j _ => ?_
  simp only [Function.comp_apply, Pte.mk.injEq, and_true]
  exact ⟨by ring, by rw [Nat.add_assoc]⟩

/-! ## One call, or one call per host page -/

/-- `vma` with `m` more translations, to the frames from `pfn`. -/
def Vma.install (table : Nat) (vma : Vma) (vaddr pfn m : Nat) : Vma :=
  { vma with ptes := vma.ptes ++ (List.range m).map fun j => ⟨vaddr + j * P.PAGE_SIZE, pfn + j, table⟩ }

theorem pages_of_mul (m : Nat) : (m * P.PAGE_SIZE + P.PAGE_SIZE - 1) / P.PAGE_SIZE = m := by
  have h := pageSize_pos P
  rw [Nat.add_sub_assoc (show 1 ≤ P.PAGE_SIZE from h), Nat.mul_comm, Nat.mul_add_div h,
    Nat.div_eq_of_lt (Nat.sub_lt h one_pos), Nat.add_zero]

theorem ioRemap_ok {env : RemapEnv} {table vaddr pfn m : Nat} {vma v' : Vma}
    (h : __gdrdrv_io_remap_pfn_range P env table vma vaddr pfn (m * P.PAGE_SIZE) = (0, v')) :
    v' = vma.install P table vaddr pfn m := by
  unfold __gdrdrv_io_remap_pfn_range at h
  split at h
  · rw [pages_of_mul] at h
    exact (Prod.mk.inj h).2.symm
  · exact absurd (Prod.mk.inj h).1 ‹_›

theorem install_succ (table : Nat) (vma : Vma) (vaddr pfn m : Nat) :
    (vma.install P table vaddr pfn 1).install P table (vaddr + P.PAGE_SIZE) (pfn + 1) m =
      vma.install P table vaddr pfn (m + 1) := by
  simp only [Vma.install, List.append_assoc, Nat.add_comm m 1, List.range_add, List.map_append, List.map_map]
  congr 3
  refine List.map_congr_left fun j _ => ?_
  simp only [Function.comp_apply, Pte.mk.injEq, and_true]
  exact ⟨by ring, by ring⟩

theorem remapChunks_ok {env : RemapEnv} {table : Nat} (m : Nat) :
    ∀ {vma v' : Vma} {vaddr pfn : Nat}, remapChunks P env table vma vaddr pfn (m * P.PAGE_SIZE) = (0, v') →
      v' = vma.install P table vaddr pfn m := by
  induction m with
  | zero =>
    intro vma v' vaddr pfn h
    rw [remapChunks, dif_neg (by simp)] at h
    rw [← (Prod.mk.inj h).2]; simp [Vma.install]
  | succ m ih =>
    intro vma v' vaddr pfn h
    have hpos : 0 < (m + 1) * P.PAGE_SIZE := Nat.mul_pos (Nat.succ_pos m) (pageSize_pos P)
    rw [remapChunks, dif_pos hpos] at h
    generalize hr : __gdrdrv_io_remap_pfn_range P env table vma vaddr pfn P.PAGE_SIZE = r at h
    obtain ⟨status, v1⟩ := r
    dsimp only at h
    split at h
    · exact absurd (Prod.mk.inj h).1 ‹_›
    · rename_i hs
      rw [ne_eq, not_not] at hs
      subst hs
      have hv1 : v1 = vma.install P table vaddr pfn 1 := ioRemap_ok P (by rw [one_mul]; exact hr)
      rw [show (m + 1) * P.PAGE_SIZE - P.PAGE_SIZE = m * P.PAGE_SIZE by rw [Nat.succ_mul, Nat.add_sub_cancel]] at h
      rw [ih h, hv1, install_succ]

/-- Both ways of installing `m` pages leave the same VMA. -/
theorem remapRange_ok {env : RemapEnv} {table vaddr pfn m : Nat} {vma v' : Vma}
    (h : gdrdrv_io_remap_pfn_range P env table vma vaddr pfn (m * P.PAGE_SIZE) = .ok (0, v')) :
    v' = vma.install P table vaddr pfn m := by
  unfold gdrdrv_io_remap_pfn_range at h
  split at h
  · split at h
    · cases h
    · exact remapChunks_ok P m (Except.ok.inj h)
  · exact ioRemap_ok P (Except.ok.inj h)

/-! ## One contiguous run -/

/-- `vm_page_prot` after a mapping of the given type. -/
def protOf (mapping_type prot : MrType) : MrType :=
  match mapping_type with
  | .WC => .WC
  | .DEVICE => .DEVICE
  | _ => prot

/-- `vma` with the flags of a mapping of the given type. -/
def Vma.flagged (vma : Vma) (mapping_type : MrType) : Vma :=
  { vma with VM_DONTCOPY := true, prot := protOf mapping_type vma.prot }

theorem remap_ok {env : RemapEnv} {table vaddr paddr m : Nat} {vma v' : Vma} {t : MrType} (hm : 0 < m)
    (h : gdrdrv_remap_gpu_mem P env table vma vaddr paddr (m * P.PAGE_SIZE) t = .ok (0, v')) :
    paddr % P.PAGE_SIZE = 0 ∧ vaddr % P.PAGE_SIZE = 0 ∧
      v' = (vma.flagged t).install P table vaddr (paddr / P.PAGE_SIZE) m := by
  have hpos : m * P.PAGE_SIZE ≠ 0 := Nat.ne_of_gt (Nat.mul_pos hm (pageSize_pos P))
  unfold gdrdrv_remap_gpu_mem at h
  rw [if_neg hpos] at h
  split at h
  · cases h
  split at h
  · cases h
  rename_i hp hv
  rw [ne_eq, not_not] at hp hv
  refine ⟨hp, hv, ?_⟩
  have key : ∀ prot, prot = protOf t vma.prot →
      ((gdrdrv_io_remap_pfn_range P env table { vma with VM_DONTCOPY := true, prot := prot } vaddr
        (paddr >>> P.PAGE_SHIFT) (m * P.PAGE_SIZE)).bind fun r =>
          .ok (if r.1 ≠ 0 then -EAGAIN else 0, r.2)) = .ok (0, v') →
      v' = (vma.flagged t).install P table vaddr (paddr / P.PAGE_SIZE) m := by
    rintro prot rfl h
    generalize hr : gdrdrv_io_remap_pfn_range P env table _ vaddr (paddr >>> P.PAGE_SHIFT) (m * P.PAGE_SIZE) = r at h
    cases r with
    | error e => cases h
    | ok r =>
      obtain ⟨status, v1⟩ := r
      simp only [Except.bind, Except.ok.injEq, Prod.mk.injEq] at h
      obtain ⟨hs, rfl⟩ := h
      have h0 : status = 0 := by
        by_contra hne
        rw [if_pos hne] at hs
        exact absurd hs (by decide)
      subst h0
      rw [Nat.shiftRight_eq_div_pow] at hr
      exact remapRange_ok P hr
  cases t with
  | WC => exact key _ rfl h
  | CACHING => exact key _ rfl h
  | NONE => exact key _ rfl h
  | DEVICE =>
    simp only [pgprot_modify_device] at h
    split at h
    · exact key _ rfl h
    · cases h

/-- A page table as the NVIDIA driver fills it in: the entries fit an `int` and
the addresses are below `2 ^ 63`. -/
structure PageTable.Sane (pt : PageTable) : Prop where
  entries : pt.entries < 2 ^ 31
  addrs : ∀ a ∈ pt.pages, a < 2 ^ 63

theorem getElem?_addr {pt : PageTable} {p : Nat} (hp : p < pt.entries) : pt.pages[p]? = some (pt.addr p) := by
  rw [PageTable.addr, List.getD_eq_getElem?_getD, List.getElem?_eq_getElem hp]; rfl

theorem addr_lt {pt : PageTable} (hs : pt.Sane) {p : Nat} (hp : p < pt.entries) : pt.addr p < 2 ^ 63 := by
  have := getElem?_addr hp
  exact hs.addrs _ (List.mem_of_getElem? this)

/-- `n` entries from `p` on continue the first one. -/
def Contig (pt : PageTable) (p n : Nat) : Prop :=
  p + n ≤ pt.entries ∧ ∀ j < n, pt.addr (p + j) = pt.addr p + j * GPU_PAGE_SIZE

/-- The scan never reads past the table, and stops after a contiguous run. -/
theorem contigLoop_ok {pt : PageTable} (hs : pt.Sane) {p q prev n : Nat} (hn : 0 < n) (hq : q = p + n)
    (hprev : prev = pt.addr (p + (n - 1))) (hc : Contig pt p n) :
    ∃ n', contigLoop pt q prev n = .ok (p + n', n') ∧ 0 < n' ∧ Contig pt p n' := by
  induction q, prev, n using contigLoop.induct pt with
  | case1 q prev n hlt hg => rw [getElem?_addr hlt] at hg; cases hg
  | case2 q prev n hlt cur hg hne =>
    refine ⟨n, ?_, hn, hc⟩
    rw [contigLoop, dif_pos hlt, hg]
    simp only [if_pos hne, hq]
  | case3 q prev n hlt cur hg heq ih =>
    rw [getElem?_addr hlt, Option.some.injEq] at hg
    rw [ne_eq, not_not] at heq
    have hn32 : u32 (n + 1) = n + 1 := Nat.mod_eq_of_lt (by have := hs.entries; omega)
    have hb : prev < 2 ^ 63 := hprev ▸ addr_lt hs (by omega)
    have hcur : cur = pt.addr p + n * GPU_PAGE_SIZE := by
      rw [← heq, u64, Nat.mod_eq_of_lt (by simp only [GPU_PAGE_SIZE, GPU_PAGE_SHIFT]; omega), hprev,
        hc.2 (n - 1) (by omega)]
      obtain ⟨m, rfl⟩ : ∃ m, n = m + 1 := ⟨n - 1, by omega⟩
      rw [Nat.add_sub_cancel]; ring
    have hc' : Contig pt p (n + 1) := by
      refine ⟨by omega, fun j hj => ?_⟩
      rcases Nat.lt_succ_iff_lt_or_eq.1 hj with hj | rfl
      · exact hc.2 j hj
      · rw [← hq, hg, hcur]
    rw [contigLoop, dif_pos hlt, getElem?_addr hlt, hg]
    simp only [heq, ne_eq, not_true_eq_false, if_false, hn32]
    rw [hn32] at ih
    exact ih (by omega) (by omega) (by rw [← hg, hq]; rfl) hc'
  | case4 q prev n hlt =>
    exact ⟨n, by rw [contigLoop, dif_neg hlt, hq], hn, hc⟩

/-- In a contiguous run the frames follow one another. -/
theorem frame_of_contig {pt : PageTable} {p n j : Nat} (hc : Contig pt p n) (ha : pt.addr p % P.PAGE_SIZE = 0)
    (hj : j < n * perGpuPage P) : frame P pt (p * perGpuPage P + j) = pt.addr p / P.PAGE_SIZE + j := by
  have hper := perGpuPage_pos P
  have hq : j / perGpuPage P < n := Nat.div_lt_of_lt_mul (by rwa [Nat.mul_comm])
  have hdvd : P.PAGE_SIZE ∣ pt.addr p := Nat.dvd_of_mod_eq_zero ha
  rw [frame, Nat.mul_comm p, Nat.mul_add_div hper, Nat.mul_add_mod, hc.2 _ hq, ← perGpuPage_mul P]
  have e : pt.addr p + j / perGpuPage P * (perGpuPage P * P.PAGE_SIZE) + j % perGpuPage P * P.PAGE_SIZE =
      pt.addr p + j * P.PAGE_SIZE := by
    calc _ = pt.addr p + (perGpuPage P * (j / perGpuPage P) + j % perGpuPage P) * P.PAGE_SIZE := by ring
      _ = _ := by rw [Nat.div_add_mod]
  rw [e, Nat.add_mul_div_right _ _ (pageSize_pos P)]

/-! ## The whole loop -/

/-- `vma` after `n` host pages of `pt` are mapped at `vaddr`, the first being page `k`. -/
def Vma.mapped (pt : PageTable) (vma : Vma) (t : MrType) (vaddr k n : Nat) : Vma :=
  { vma.flagged t with ptes := vma.ptes ++ ptesFrom P pt vaddr k n }

/-- Mapping `m` pages and then `n` more is mapping `m + n`. -/
theorem mapped_add (pt : PageTable) (vma : Vma) (t : MrType) (vaddr k m n : Nat) :
    (vma.mapped P pt t vaddr k m).mapped P pt t (vaddr + m * P.PAGE_SIZE) (k + m) n =
      vma.mapped P pt t vaddr k (m + n) := by
  have e : (vma.mapped P pt t vaddr k m).flagged t =
      { vma.flagged t with ptes := vma.ptes ++ ptesFrom P pt vaddr k m } := by
    cases t <;> rfl
  unfold Vma.mapped at e ⊢
  rw [e, ptesFrom_add, List.append_assoc]

/-- A run installed in one go maps the pages that the page table gives. -/
theorem install_contig {pt : PageTable} {p n m vaddr : Nat} {vma : Vma} (t : MrType) (hc : Contig pt p n)
    (ha : pt.addr p % P.PAGE_SIZE = 0) (hm : m ≤ n * perGpuPage P) :
    (vma.flagged t).install P pt.id vaddr (pt.addr p / P.PAGE_SIZE) m =
    vma.mapped P pt t vaddr (p * perGpuPage P) m := by
  rw [Vma.install, Vma.mapped, ptesFrom]
  congr 2
  refine List.map_congr_left fun j hj => ?_
  rw [frame_of_contig P hc ha (Nat.lt_of_lt_of_le (List.mem_range.1 hj) hm)]

/-- The length of a run, in host pages. -/
theorem min_len (n n' : Nat) :
    min (n * P.PAGE_SIZE) (GPU_PAGE_SIZE * n') = min n (n' * perGpuPage P) * P.PAGE_SIZE := by
  rw [Nat.mul_comm GPU_PAGE_SIZE, ← perGpuPage_mul P, ← Nat.mul_assoc, ← Nat.mul_min_mul_right]

/-- One round of the loop: the run at `p` has `n'` entries, of which `m` host pages are wanted. -/
theorem mmapLoop_round (env : RemapEnv) {pt : PageTable} {p n' : Nat} (t : MrType) (vma : Vma) (vaddr n : Nat)
    (hp : p < pt.entries) (hcl : contigLoop pt (p + 1) (pt.addr p) 1 = .ok (p + n', n')) {m : Nat}
    (hm : min n (n' * perGpuPage P) = m) :
    mmapLoop P env pt t vma p vaddr (n * P.PAGE_SIZE) =
      match gdrdrv_remap_gpu_mem P env pt.id vma vaddr (pt.addr p) (m * P.PAGE_SIZE) t with
      | .error e => .error e
      | .ok (ret, vma) =>
        if ret ≠ 0 then .ok (ret, vma, vaddr)
        else if m < n ∧ p + n' < pt.entries then
          mmapLoop P env pt t vma (p + n') (vaddr + m * P.PAGE_SIZE) ((n - m) * P.PAGE_SIZE)
        else .ok (0, vma, vaddr + m * P.PAGE_SIZE) := by
  have hlt : (n - m) * P.PAGE_SIZE ≠ 0 ↔ m < n := by
    rw [Nat.mul_ne_zero_iff, ne_eq, Nat.sub_eq_zero_iff_le, not_le]
    exact and_iff_left (Nat.ne_of_gt (pageSize_pos P))
  rw [mmapLoop, getElem?_addr hp]
  simp only [min_len]
  split
  · rename_i e he
    rw [hcl] at he; cases he
  · rename_i p' nentries he
    rw [hcl] at he
    obtain ⟨rfl, rfl⟩ := Prod.mk.inj (Except.ok.inj he)
    rw [hm, ← Nat.sub_mul]
    cases gdrdrv_remap_gpu_mem P env pt.id vma vaddr (pt.addr p) (m * P.PAGE_SIZE) t with
    | error e => rfl
    | ok r => exact if_congr Iff.rfl rfl (if_congr (and_congr_left fun _ => hlt) rfl rfl)

theorem remapRange_error {env : RemapEnv} {table vaddr pfn size : Nat} {vma : Vma} :
    gdrdrv_io_remap_pfn_range P env table vma vaddr pfn size ≠ .error .outOfBounds := by
  unfold gdrdrv_io_remap_pfn_range
  split
  · split <;> simp
  · simp

theorem remap_error {env : RemapEnv} {table vaddr paddr size : Nat} {vma : Vma} {t : MrType} :
    gdrdrv_remap_gpu_mem P env table vma vaddr paddr size t ≠ .error .outOfBounds := by
  have key : ∀ vma : Vma,
      ((gdrdrv_io_remap_pfn_range P env table vma vaddr (paddr >>> P.PAGE_SHIFT) size).bind fun r =>
        .ok (if r.1 ≠ 0 then -EAGAIN else 0, r.2)) ≠ .error .outOfBounds := by
    intro vma h
    generalize hr : gdrdrv_io_remap_pfn_range P env table vma vaddr (paddr >>> P.PAGE_SHIFT) size = r at h
    cases r with
    | error e => cases h; exact remapRange_error P hr
    | ok r => cases h
  unfold gdrdrv_remap_gpu_mem
  split
  · simp
  split
  · simp
  split
  · simp
  cases t with
  | DEVICE =>
    simp only [pgprot_modify_device]
    split
    · exact key _
    · simp [bind, Except.bind]
  | _ => exact key _

/-- With enough of the table left the loop stays inside it and covers `n` host pages. -/
theorem mmapLoop_ok {env : RemapEnv} {pt : PageTable} (hs : pt.Sane) (t : MrType) :
    ∀ (k p vaddr n : Nat) (vma : Vma), pt.entries - p = k → p < pt.entries → 0 < n →
      n ≤ (pt.entries - p) * perGpuPage P →
      mmapLoop P env pt t vma p vaddr (n * P.PAGE_SIZE) ≠ .error .outOfBounds ∧
      ∀ v' vaddr', mmapLoop P env pt t vma p vaddr (n * P.PAGE_SIZE) = .ok (0, v', vaddr') →
        vaddr' = vaddr + n * P.PAGE_SIZE ∧ v' = vma.mapped P pt t vaddr (p * perGpuPage P) n := by
  intro k
  induction k using Nat.strong_induction_on with
  | _ k ih =>
    intro p vaddr n vma hk hp hn hle
    have hc1 : Contig pt p 1 := ⟨hp, fun j hj => by rw [Nat.lt_one_iff.1 hj]; simp⟩
    obtain ⟨n', hcl, hn', hc⟩ : ∃ n', contigLoop pt (p + 1) (pt.addr p) 1 = .ok (p + n', n') ∧ 0 < n' ∧
        Contig pt p n' :=
      contigLoop_ok hs one_pos rfl rfl hc1
    have hper := perGpuPage_pos P
    -- What is left of the table is this run of pages and the rest.
    have hsplit : (pt.entries - p) * perGpuPage P = n' * perGpuPage P + (pt.entries - (p + n')) * perGpuPage P := by
      have := hc.1
      rw [← Nat.add_mul]; congr 1; omega
    obtain ⟨m, hmeq⟩ : ∃ m, min n (n' * perGpuPage P) = m := ⟨_, rfl⟩
    have hm : 0 < m := hmeq ▸ Nat.lt_min.2 ⟨hn, Nat.mul_pos hn' hper⟩
    rw [mmapLoop_round P env t vma vaddr n hp hcl hmeq]
    generalize hr : gdrdrv_remap_gpu_mem P env pt.id vma vaddr (pt.addr p) (m * P.PAGE_SIZE) t = r
    match r with
    | .error e =>
      refine ⟨fun he => ?_, fun _ _ he => by cases he⟩
      dsimp only at he
      cases he
      exact remap_error P hr
    | .ok (ret, v1) =>
      by_cases hret : ret = 0
      · subst hret
        obtain ⟨ha, -, rfl⟩ := remap_ok P hm hr
        rw [install_contig P t hc ha (hmeq ▸ Nat.min_le_right _ _)]
        simp only [ne_eq, not_true_eq_false, if_false]
        by_cases hmore : m < n ∧ p + n' < pt.entries
        · rw [if_pos hmore]
          have hmfull : m = n' * perGpuPage P := by omega
          have hih := ih (pt.entries - (p + n')) (by omega) (p + n') (vaddr + m * P.PAGE_SIZE) (n - m)
            (vma.mapped P pt t vaddr (p * perGpuPage P) m) rfl hmore.2 (by omega) (by omega)
          refine ⟨hih.1, fun v' vaddr' hv => ?_⟩
          obtain ⟨rfl, rfl⟩ := hih.2 v' vaddr' hv
          have hnm : m + (n - m) = n := by omega
          rw [Nat.add_mul, ← hmfull, mapped_add, hnm, Nat.add_assoc, ← Nat.add_mul, hnm]
          exact ⟨rfl, rfl⟩
        · rw [if_neg hmore]
          -- The loop ends with the table only if the length ends with it too.
          have hmn : m = n := by
            by_contra hne
            have hlt : m < n := by omega
            have : pt.entries - (p + n') = 0 := by have := hc.1; omega
            rw [this, Nat.zero_mul] at hsplit
            omega
          subst hmn
          refine ⟨by simp, fun v' vaddr' hv => ?_⟩
          simp only [Except.ok.injEq, Prod.mk.injEq, true_and] at hv
          exact ⟨hv.2.symm, hv.1.symm⟩
      · simp only [ne_eq, hret, not_false_eq_true, if_true]
        refine ⟨by simp, fun v' vaddr' hv => ?_⟩
        simp only [Except.ok.injEq, Prod.mk.injEq] at hv
        exact absurd hv.1 hret

/-! ## Where the translations are -/

/-- `v'` is the region `v`, with translations added between `lo` and `hi` from page table `table`. -/
structure Vma.Grows (table lo hi : Nat) (v v' : Vma) : Prop where
  id : v'.id = v.id
  vm_file : v'.vm_file = v.vm_file
  vm_start : v'.vm_start = v.vm_start
  vm_end : v'.vm_end = v.vm_end
  vm_pgoff : v'.vm_pgoff = v.vm_pgoff
  ptes : ∀ p ∈ v'.ptes, p ∈ v.ptes ∨ p.table = table ∧ lo ≤ p.vaddr ∧ p.vaddr < hi

theorem grows_install (table : Nat) (vma : Vma) (t : MrType) (vaddr pfn m : Nat) :
    vma.Grows table vaddr (vaddr + m * P.PAGE_SIZE) ((vma.flagged t).install P table vaddr pfn m) := by
  refine ⟨rfl, rfl, rfl, rfl, rfl, fun p hp => ?_⟩
  rcases List.mem_append.1 hp with hp | hp
  · exact .inl hp
  · obtain ⟨j, hj, rfl⟩ := List.mem_map.1 hp
    have := Nat.mul_lt_mul_of_pos_right (List.mem_range.1 hj) (pageSize_pos P)
    exact .inr ⟨rfl, Nat.le_add_right _ _, by simp only; omega⟩

theorem Vma.Grows.trans {table lo mid hi : Nat} {v v1 v2 : Vma} (h1 : v.Grows table lo mid v1)
    (h2 : v1.Grows table mid hi v2) (hlm : lo ≤ mid) (hmh : mid ≤ hi) : v.Grows table lo hi v2 := by
  refine ⟨h2.id.trans h1.id, h2.vm_file.trans h1.vm_file, h2.vm_start.trans h1.vm_start, h2.vm_end.trans h1.vm_end,
    h2.vm_pgoff.trans h1.vm_pgoff, fun p hp => ?_⟩
  rcases h2.ptes p hp with hp | ⟨ht, hl, hh⟩
  · rcases h1.ptes p hp with hp | ⟨ht, hl, hh⟩
    · exact .inl hp
    · exact .inr ⟨ht, hl, by omega⟩
  · exact .inr ⟨ht, by omega, hh⟩

/-- Whatever the page table holds, a successful loop installs translations only
between the address it starts at and the one it reaches. -/
theorem mmapLoop_grows {env : RemapEnv} {pt : PageTable} (t : MrType) :
    ∀ (k p vaddr n : Nat) (vma : Vma), pt.entries - p = k →
      ∀ v' vaddr', mmapLoop P env pt t vma p vaddr (n * P.PAGE_SIZE) = .ok (0, v', vaddr') →
        vaddr ≤ vaddr' ∧ vaddr' ≤ vaddr + n * P.PAGE_SIZE ∧ vma.Grows pt.id vaddr vaddr' v' := by
  intro k
  induction k using Nat.strong_induction_on with
  | _ k ih =>
    intro p vaddr n vma hk v' vaddr' h
    rw [mmapLoop] at h
    split at h
    · cases h
    rename_i paddr hp
    split at h
    · cases h
    rename_i p' nentries hcl
    have hlt : p < pt.entries := (List.getElem?_eq_some_iff.1 hp).1
    have hle := contigLoop_le hcl
    simp only [min_len] at h
    obtain ⟨m, hm⟩ : ∃ m, min n (nentries * perGpuPage P) = m := ⟨_, rfl⟩
    have hmn : m ≤ n := hm ▸ Nat.min_le_left _ _
    have hmul : m * P.PAGE_SIZE ≤ n * P.PAGE_SIZE := Nat.mul_le_mul_right _ hmn
    rw [hm, ← Nat.sub_mul] at h
    generalize hr : gdrdrv_remap_gpu_mem P env pt.id vma vaddr paddr (m * P.PAGE_SIZE) t = r at h
    cases r with
    | error e => cases h
    | ok r =>
      obtain ⟨ret, v1⟩ := r
      dsimp only at h
      split at h
      · simp only [Except.ok.injEq, Prod.mk.injEq] at h
        exact absurd h.1 ‹_›
      rename_i hret
      rw [ne_eq, not_not] at hret
      subst hret
      -- A round with no length left remaps nothing.
      have hg : vma.Grows pt.id vaddr (vaddr + m * P.PAGE_SIZE) v1 := by
        rcases Nat.eq_zero_or_pos m with rfl | hpos
        · rw [Nat.zero_mul, gdrdrv_remap_gpu_mem, if_pos rfl] at hr
          simp only [Except.ok.injEq, Prod.mk.injEq, true_and] at hr
          subst hr
          exact ⟨rfl, rfl, rfl, rfl, rfl, fun _ hp => .inl hp⟩
        · obtain ⟨-, -, rfl⟩ := remap_ok P hpos hr
          exact grows_install P _ _ _ _ _ _
      split at h
      · obtain ⟨h1, h2, h3⟩ := ih (pt.entries - p') (by omega) p' (vaddr + m * P.PAGE_SIZE) (n - m) v1 rfl v' vaddr' h
        rw [Nat.sub_mul] at h2
        exact ⟨by omega, by omega, hg.trans h3 (Nat.le_add_right _ _) h1⟩
      · simp only [Except.ok.injEq, Prod.mk.injEq, true_and] at h
        obtain ⟨rfl, rfl⟩ := h
        exact ⟨Nat.le_add_right _ _, by omega, hg⟩

/-! ## gdrdrv_mmap under the semaphore -/

/-- A failed `gdrdrv_mmap` leaves the mr marked unmapped. A successful one found
it unmapped and valid, and marks it mapped through the VMA that the loop filled. -/
theorem mmapLocked_cases {env : RemapEnv} {f : Nat} {mr mr' : Mr} {vma v' : Vma} {ret : Int}
    (h : mmapLocked P env f mr vma = .ok (ret, mr', v')) :
    (ret ≠ 0 ∧ mr' = mmapFail mr) ∨
      (ret = 0 ∧ gdr_mr_is_mapped mr = false ∧ mr.cb_flag = false ∧ mr.offset = 0 ∧ chooseType P mr ≠ .NONE ∧
        (mr.force_pci && chooseType P mr == .CACHING) = false ∧
        mr' = { mr with vma := some v'.id, mapping := some f, cpu_mapping_type := chooseType P mr } ∧
        ∃ pt, mr.page_table = some pt ∧ 0 < pt.entries ∧
          u64 (vma.vm_end - vma.vm_start) ≤ GPU_PAGE_SIZE * pt.entries ∧
          mmapLoop P env pt (chooseType P mr) vma 0 vma.vm_start (vma.vm_end - vma.vm_start) =
          .ok (0, v', v'.vm_end)) := by
  have hE : (-EINVAL : Int) ≠ 0 := by decide
  -- Every failure goes through the label `out`.
  have fail : ∀ {e : Int} {v : Vma}, e ≠ 0 → (Except.ok (e, mmapFail mr, v) : Except Fault _) = .ok (ret, mr', v') →
      ret ≠ 0 ∧ mr' = mmapFail mr := by
    rintro e v he h
    simp only [Except.ok.injEq, Prod.mk.injEq] at h
    exact ⟨h.1 ▸ he, h.2.1.symm⟩
  unfold mmapLocked at h
  dsimp only at h
  by_cases hmap : gdr_mr_is_mapped mr = true
  · rw [if_pos hmap] at h
    exact .inl (fail hE h)
  by_cases hcb : mr.cb_flag = true
  · rw [if_neg hmap, if_pos hcb] at h
    exact .inl (fail hE h)
  rw [if_neg hmap, if_neg hcb] at h
  cases hpt : mr.page_table with
  | none =>
    rw [hpt] at h
    exact .inl (fail hE h)
  | some pt =>
  rw [hpt] at h
  dsimp only at h
  by_cases hent : pt.entries = 0
  · rw [if_pos hent] at h
    exact .inl (fail hE h)
  by_cases hoff : mr.offset = 0
  swap
  · rw [if_neg hent, if_pos hoff] at h
    exact .inl (fail hE h)
  rw [if_neg hent, if_neg (not_not.2 hoff), if_neg (by rw [hoff]; exact Nat.not_lt_zero _)] at h
  by_cases hsize : GPU_PAGE_SIZE * pt.entries < u64 (vma.vm_end - vma.vm_start + mr.offset)
  · rw [if_pos hsize] at h
    exact .inl (fail hE h)
  rw [if_neg hsize] at h
  rw [hoff, Nat.add_zero] at hsize
  split at h
  · cases h
  rename_i ret1 v1 vaddr1 hloop
  by_cases hret : ret1 = 0
  · by_cases hend : vaddr1 = v1.vm_end
    · subst hret hend
      simp only [ne_eq, not_true_eq_false, if_false] at h
      split at h
      · cases h
      split at h
      · cases h
      rename_i hnone hforce
      simp only [Except.ok.injEq, Prod.mk.injEq] at h
      obtain ⟨rfl, rfl, rfl⟩ := h
      simp only [Bool.not_eq_true] at hmap hcb hforce
      exact .inr ⟨rfl, hmap, hcb, hoff, hnone, hforce, rfl, pt, rfl, Nat.pos_of_ne_zero hent, not_lt.1 hsize, hloop⟩
    · simp only [hret, hend, ne_eq, not_true_eq_false, not_false_eq_true, if_false, if_true] at h
      exact .inl (fail hE h)
  · simp only [hret, ne_eq, not_false_eq_true, if_true] at h
    exact .inl (fail hret h)

end

end gdrdrv
