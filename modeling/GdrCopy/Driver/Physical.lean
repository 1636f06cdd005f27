import GdrCopy.Driver.Faults
import GdrCopy.Lib.Paging
/-!
# The physical memory behind a mapping

The address space of a process that has mapped a buffer: its own memory, and the VMA
with the translations that `gdrdrv_mmap` has put there. `MapsExactly.translate_eq`: byte
`o` of the VMA is byte `o` of the pinned buffer.
-/

namespace gdrdrv

open Bytes (Space)

section
variable {P : Platform}

/-- Where byte `o` of the buffer is. -/
def PageTable.byte (pt : PageTable) (o : Nat) : Nat := pt.addr (o / GPU_PAGE_SIZE) + o % GPU_PAGE_SIZE

variable (P) in
/-- The MMU: the translation of the host page that `a` is in. -/
def Vma.translate (v : Vma) : Space := fun a =>
  (v.ptes.find? fun p => p.vaddr ≤ a ∧ a < p.vaddr + P.PAGE_SIZE).map fun p => p.pfn * P.PAGE_SIZE + (a - p.vaddr)

/-- NVIDIA: a page table fits its types, its pages start at multiples of the host page size and do not overlap. -/
structure PageTable.Granted (P : Platform) (pt : PageTable) : Prop where
  sane : pt.Sane
  aligned : ∀ a ∈ pt.pages, a % P.PAGE_SIZE = 0
  apart : pt.pages.Pairwise fun a b => a + GPU_PAGE_SIZE ≤ b ∨ b + GPU_PAGE_SIZE ≤ a

/-- The memory of a process that has mapped `v`: it is not at two addresses, lies outside
the VMA, and is no memory of the GPU. -/
structure Ram (v : Vma) (pt : PageTable) (ram : Space) : Prop where
  inj : ram.Inj
  outside : ∀ a, v.vm_start ≤ a → a < v.vm_end → ram a = none
  apart : ∀ a p, ram a = some p → ∀ q ∈ pt.pages, p < q ∨ q + GPU_PAGE_SIZE ≤ p

variable (P) in
/-- The address space of the process. -/
def space (v : Vma) (ram : Space) : Space := fun a => (v.translate P a).or (ram a)

/-! ## The translations -/

theorem page_div (k r : Nat) (hr : r < P.PAGE_SIZE) :
    (k * P.PAGE_SIZE + r) / GPU_PAGE_SIZE = k * P.PAGE_SIZE / GPU_PAGE_SIZE ∧
    (k * P.PAGE_SIZE + r) % GPU_PAGE_SIZE = k * P.PAGE_SIZE % GPU_PAGE_SIZE + r := by
  have hdiv : (k * P.PAGE_SIZE + r) / P.PAGE_SIZE = k := by
    rw [Nat.mul_comm, Nat.mul_add_div (pageSize_pos P), Nat.div_eq_of_lt hr, Nat.add_zero]
  have hmod : (k * P.PAGE_SIZE + r) % P.PAGE_SIZE = r := by
    rw [Nat.mul_comm, Nat.mul_add_mod, Nat.mod_eq_of_lt hr]
  rw [(gpuPage_of_page (P := P) k).1, (gpuPage_of_page (P := P) k).2, ← perGpuPage_mul P, Nat.mul_comm (perGpuPage P)]
  constructor
  · rw [← Nat.div_div_eq_div_mul, hdiv]
  · rw [Nat.mod_mul, hmod, hdiv, Nat.mul_comm, Nat.add_comm]

/-- What a mapped address translates to. -/
theorem MapsExactly.translate_eq {pt : PageTable} {v : Vma} (h : MapsExactly P pt v)
    (hs : v.vm_end - v.vm_start = v.pages P * P.PAGE_SIZE) {o : Nat} (ho : o < v.vm_end - v.vm_start) :
    v.translate P (v.vm_start + o) = some (pt.byte o) ∧ o / GPU_PAGE_SIZE < pt.entries := by
  have hpos := pageSize_pos P
  have hk : o / P.PAGE_SIZE < v.pages P := (Nat.div_lt_iff_lt_mul hpos).2 (hs ▸ ho)
  have hdm : o / P.PAGE_SIZE * P.PAGE_SIZE + o % P.PAGE_SIZE = o := by
    rw [Nat.mul_comm]; exact Nat.div_add_mod o P.PAGE_SIZE
  have hr := Nat.mod_lt o hpos
  obtain ⟨p, pa, hp, hpa, hpfn⟩ := h.physical _ hk
  -- The host page of number `k` is at `k` pages into the VMA.
  have hat : ∀ {k q}, v.ptes[k]? = some q → q.vaddr = v.vm_start + k * P.PAGE_SIZE := by
    intro k q hq
    have hmap : (v.ptes.map (·.vaddr))[k]? = some q.vaddr := by rw [List.getElem?_map, hq]; rfl
    rw [h.pages, List.getElem?_map] at hmap
    obtain ⟨j, hj, he⟩ := Option.map_eq_some_iff.1 hmap
    obtain ⟨hlt, hjk⟩ := List.getElem?_eq_some_iff.1 hj
    rw [List.getElem_range] at hjk
    rw [← he, ← hjk]
  have hpv := hat hp
  have hfind : v.ptes.find? (fun q => q.vaddr ≤ v.vm_start + o ∧ v.vm_start + o < q.vaddr + P.PAGE_SIZE) = some p := by
    have hpin : p.vaddr ≤ v.vm_start + o ∧ v.vm_start + o < p.vaddr + P.PAGE_SIZE := by omega
    cases hq : v.ptes.find? (fun q => q.vaddr ≤ v.vm_start + o ∧ v.vm_start + o < q.vaddr + P.PAGE_SIZE) with
    | none => exact absurd hpin (by simpa using List.find?_eq_none.1 hq p (List.mem_of_getElem? hp))
    | some q =>
      have hqin : q.vaddr ≤ v.vm_start + o ∧ v.vm_start + o < q.vaddr + P.PAGE_SIZE := by simpa using List.find?_some hq
      obtain ⟨k, hkq⟩ := List.getElem?_of_mem (List.mem_of_find?_eq_some hq)
      have hqv := hat hkq
      have he : k = o / P.PAGE_SIZE := by
        refine Nat.eq_of_lt_succ_of_not_lt ?_ ?_
        · refine Nat.lt_of_mul_lt_mul_right (a := P.PAGE_SIZE) ?_
          rw [Nat.succ_mul]
          omega
        · intro hlt
          have hle : (k + 1) * P.PAGE_SIZE ≤ o / P.PAGE_SIZE * P.PAGE_SIZE := Nat.mul_le_mul_right _ hlt
          rw [Nat.succ_mul] at hle
          omega
      rw [he] at hkq
      exact hkq.symm.trans hp
  obtain ⟨hdiv, hmod⟩ := page_div (P := P) (o / P.PAGE_SIZE) _ hr
  rw [hdm] at hdiv hmod
  rw [← hdiv] at hpa
  have hlt : o / GPU_PAGE_SIZE < pt.entries := (List.getElem?_eq_some_iff.1 hpa).1
  refine ⟨?_, hlt⟩
  have haddr : pa = pt.addr (o / GPU_PAGE_SIZE) := Option.some.inj (hpa.symm.trans (getElem?_addr hlt))
  rw [Vma.translate, hfind, Option.map_some, PageTable.byte, hmod, ← haddr, ← Nat.add_assoc, ← hpfn, hpv]
  congr 2
  omega

theorem MapsExactly.translate_none {pt : PageTable} {v : Vma} {n : Nat} (h : MapsExactly P pt v)
    (hs : v.vm_end - v.vm_start = n * P.PAGE_SIZE) {a : Nat} (ha : a < v.vm_start ∨ v.vm_end ≤ a) :
    v.translate P a = none := by
  rw [Vma.translate, List.find?_eq_none.2, Option.map_none]
  intro p hp
  have := h.inside hs hp
  simp only [decide_eq_true_eq]
  omega

/-! ## The address space -/

/-- Bytes of the pages do not overlap. -/
theorem PageTable.Granted.byte_inj {pt : PageTable} (h : pt.Granted P) {a b : Nat} (ha : a / GPU_PAGE_SIZE < pt.entries)
    (hb : b / GPU_PAGE_SIZE < pt.entries) (he : pt.byte a = pt.byte b) : a = b := by
  have hG : 0 < GPU_PAGE_SIZE := by decide
  have hma := Nat.mod_lt a hG
  have hmb := Nat.mod_lt b hG
  have entry : ∀ {k : Nat} (hk : k < pt.pages.length), pt.pages[k] = pt.addr k := fun hk =>
    (List.getElem?_eq_some_iff.1 (getElem?_addr hk)).2
  have key : ∀ {i j : Nat}, i < j → j < pt.entries → pt.addr i + GPU_PAGE_SIZE ≤ pt.addr j ∨
      pt.addr j + GPU_PAGE_SIZE ≤ pt.addr i := by
    intro i j hij hj
    have hjl : j < pt.pages.length := hj
    have hp := List.pairwise_iff_getElem.1 h.apart i j (Nat.lt_trans hij hjl) hjl hij
    rwa [entry, entry] at hp
  unfold PageTable.byte at he
  have hdiv : a / GPU_PAGE_SIZE = b / GPU_PAGE_SIZE := by
    rcases Nat.lt_trichotomy (a / GPU_PAGE_SIZE) (b / GPU_PAGE_SIZE) with hlt | heq | hlt
    · have := key hlt hb
      omega
    · exact heq
    · have := key hlt ha
      omega
  rw [hdiv] at he
  have h1 := Nat.div_add_mod a GPU_PAGE_SIZE
  have h2 := Nat.div_add_mod b GPU_PAGE_SIZE
  rw [hdiv] at h1
  omega

/-- A VMA that maps a granted page table, seen together with the memory of its process. -/
structure Mapping (P : Platform) (v : Vma) (pt : PageTable) : Prop where
  granted : pt.Granted P
  exact : MapsExactly P pt v
  size : v.vm_end - v.vm_start = v.pages P * P.PAGE_SIZE

variable {v : Vma} {pt : PageTable} {ram : Space}

theorem Mapping.space_in (h : Mapping P v pt) {o : Nat} (ho : o < v.vm_end - v.vm_start) :
    space P v ram (v.vm_start + o) = some (pt.byte o) := by
  rw [space, (h.exact.translate_eq h.size ho).1]
  rfl

theorem Mapping.space_out (h : Mapping P v pt) {a : Nat} (ha : a < v.vm_start ∨ v.vm_end ≤ a) :
    space P v ram a = ram a := by
  rw [space, h.exact.translate_none h.size ha, Option.none_or]

/-- An address of the memory of the process lies outside the VMA. -/
theorem Ram.out (hr : Ram v pt ram) {a p : Nat} (h : ram a = some p) : a < v.vm_start ∨ v.vm_end ≤ a := by
  by_contra hin
  rw [hr.outside a (by omega) (by omega)] at h
  cases h

theorem Ram.space (h : Mapping P v pt) (hr : Ram v pt ram) {a p : Nat} (ha : ram a = some p) :
    space P v ram a = some p :=
  (h.space_out (hr.out ha)).trans ha

/-- Memory of the process is not in the buffer. -/
theorem Ram.ne_byte (hr : Ram v pt ram) {a p o : Nat} (ha : ram a = some p)
    (ho : o / GPU_PAGE_SIZE < pt.entries) : p ≠ pt.byte o := by
  have hmem := List.mem_of_getElem? (getElem?_addr ho)
  have hlt := Nat.mod_lt o (show 0 < GPU_PAGE_SIZE by decide)
  have := hr.apart a p ha _ hmem
  unfold PageTable.byte
  omega

theorem Mapping.space_inj (h : Mapping P v pt) (hr : Ram v pt ram) : (space P v ram).Inj := by
  -- An address is in the VMA, at an offset, or outside.
  have split : ∀ {a p}, space P v ram a = some p → (∃ o < v.vm_end - v.vm_start, a = v.vm_start + o ∧ p = pt.byte o ∧
      o / GPU_PAGE_SIZE < pt.entries) ∨ ram a = some p := by
    intro a p ha
    by_cases hin : v.vm_start ≤ a ∧ a < v.vm_end
    · obtain ⟨o, rfl⟩ := Nat.exists_eq_add_of_le hin.1
      have ho : o < v.vm_end - v.vm_start := by omega
      rw [h.space_in ho] at ha
      exact .inl ⟨o, ho, rfl, (Option.some.inj ha).symm, (h.exact.translate_eq h.size ho).2⟩
    · rw [h.space_out (by omega)] at ha
      exact .inr ha
  intro a b p ha hb
  rcases split ha with ⟨o, ho, rfl, hp, hoe⟩ | ha <;> rcases split hb with ⟨o', ho', rfl, hp', hoe'⟩ | hb
  · rw [h.granted.byte_inj hoe hoe' (hp.symm.trans hp')]
  · exact absurd hp (hr.ne_byte hb hoe)
  · exact absurd hp' (hr.ne_byte ha hoe')
  · exact hr.inj a b p ha hb

/-! ## The system call -/

/-- An `mmap` that succeeds adds a VMA that maps the page table of the mr it finds. -/
theorem sysMmap_mapping {env : RemapEnv} {s s' : Kernel} {f cur start len : Nat} {off : BitVec 64}
    (h : sysMmap P env s f cur start len off = .ok (.err 0, s'))
    (hg : ∀ info mr pt, s.files f = some info → mr ∈ info.mr_list → mr.page_table = some pt → pt.Granted P) :
    ∃ info mr pt v, s.files f = some info ∧ gdr_mr_from_handle_unlocked info (off.toNat >>> P.PAGE_SHIFT) = some mr ∧
      mr.page_table = some pt ∧ mr.offset = 0 ∧ s'.vmas = v :: s.vmas ∧ v.vm_start = start * P.PAGE_SIZE ∧
      v.vm_end = (start + (len + P.PAGE_SIZE - 1) / P.PAGE_SIZE) * P.PAGE_SIZE ∧ Mapping P v pt := by
  unfold sysMmap at h
  cases hreg : mmapRegion P s f start len off with
  | error e =>
    rw [hreg] at h
    obtain ⟨he, -⟩ := Prod.mk.inj (Except.ok.inj h)
    exact absurd (Reply.mk.inj he).1 (mmapRegion_error hreg)
  | ok vma =>
    obtain ⟨pages, hpos, hlt, hstart, hend, -, -, hptes, hpg, -⟩ := mmapRegion_ok hreg
    obtain ⟨-, hend'⟩ := mmapRegion_eq hreg
    have hreq : vma.Request P pages := ⟨hpos, ⟨start, hstart, hend⟩, by rw [hend]; exact hlt, hptes⟩
    rw [hreg] at h
    dsimp only at h
    generalize hm : gdrdrv_mmap P env _ f cur vma = r at h
    cases r with
    | error e => cases h
    | ok r =>
      obtain ⟨ret, v', s1⟩ := r
      dsimp only at h
      cases gdrdrv_mmap_ends hm with
      | unreached hne | refused hne =>
        rw [if_neg hne] at h
        obtain ⟨he, -⟩ := Prod.mk.inj (Except.ok.inj h)
        exact absurd (Reply.mk.inj he).1 hne
      | @mapped info mr pt h0 hmaps hs1 =>
        rw [if_pos h0] at h
        obtain ⟨-, rfl⟩ := Prod.mk.inj (Except.ok.inj h)
        subst hs1
        have hgr : pt.Granted P := hg info mr pt hmaps.file (search_mem hmaps.search) hmaps.page_table
        -- The region is no larger than the page table, so the loop fills it exactly.
        have hsz := hmaps.size
        have h64 : vma.vm_end - vma.vm_start < 2 ^ 64 := Nat.lt_of_le_of_lt (Nat.sub_le _ _) hreq.vm_end
        rw [u64, Nat.mod_eq_of_lt h64, hreq.size, ← perGpuPage_mul P, Nat.mul_comm (perGpuPage P * P.PAGE_SIZE),
          ← Nat.mul_assoc] at hsz
        have hle : pages ≤ pt.entries * perGpuPage P := Nat.le_of_mul_le_mul_right hsz (pageSize_pos P)
        have hloop := hmaps.loop
        rw [hreq.size] at hloop
        obtain ⟨-, hv⟩ := (mmapLoop_ok P hgr.sane (chooseType P mr) _ 0 vma.vm_start pages vma rfl hmaps.entries
          hpos hle).2 _ _ hloop
        rw [Nat.zero_mul] at hv
        have hpages : v'.pages P = pages := by
          rw [hv]
          exact hreq.pages
        refine ⟨info, mr, pt, v', hmaps.file, hpg ▸ hmaps.search, hmaps.page_table, hmaps.offset, rfl, ?_,
          ?_, hgr, ?_, ?_⟩
        · rw [hv]
          exact hstart
        · rw [hv]
          exact hend'
        · rw [hv]
          exact mapped_exactly _ hreq hgr.aligned hle
        · rw [hpages, hv]
          exact hreq.size

end

end gdrdrv
