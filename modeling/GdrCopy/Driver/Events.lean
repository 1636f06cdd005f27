import GdrCopy.Driver.Coalesce
import GdrCopy.Driver.Handles
/-!
# What an operation does

Every operation of the driver is a sequence of a few events on its files and
VMAs: an mr is linked, changed or unlinked, a VMA appears or goes away, a file
opens or shuts. `run_events` turns a run of the driver into a run of events, and
the invariants of the other modules are proved for events.
-/

namespace gdrdrv

/-! ## Events -/

inductive Event where
  | quiet
  | opened (f : Nat)
  | linked (f : Nat) (mr : Mr)
  | unlinked (f : Nat) (mr : Mr)
  | requested (f : Nat) (mr : Mr) (t : MrType)
  | refused (f : Nat) (mr : Mr)
  | mapped (f : Nat) (mr : Mr) (vma : Vma)
  | closed (vma : Vma) (found : Option (Info × Mr))
  | invalidated (f : Nat) (mr : Mr)
  | shut (f : Nat)

/-- The mr a successful pin adds to the list. -/
structure Mr.New (mr : Mr) (fresh : Nat) (pt : PageTable) : Prop where
  ptr : mr.ptr = fresh
  page_table : mr.page_table = some pt
  table : pt.id = fresh + 1
  cpu_mapping_type : mr.cpu_mapping_type = .NONE
  cb_flag : mr.cb_flag = false
  vma : mr.vma = none
  mapped_size : mr.mapped_size < 2 ^ 64

/-- The VMA a successful mmap adds: no larger than the page table it maps. -/
structure Vma.New (P : Platform) (vma : Vma) (fresh f : Nat) (pt : PageTable) : Prop where
  id : vma.id = fresh
  vm_file : vma.vm_file = f
  bounds : ∃ start pages, vma.vm_start = start * P.PAGE_SIZE ∧ vma.vm_end = (start + pages) * P.PAGE_SIZE ∧
    pages * P.PAGE_SIZE ≤ GPU_PAGE_SIZE * pt.entries
  vm_pgoff : vma.vm_pgoff < handleEnd P
  ptes : ∀ p ∈ vma.ptes, p.table = pt.id ∧ vma.vm_start ≤ p.vaddr ∧ p.vaddr < vma.vm_end

section
variable (P : Platform)

/-- The mr a page offset of file `f` leads to. -/
def Kernel.lookup (s : Kernel) (f pgoff : Nat) : Option (Info × Mr) :=
  match s.files f with
  | none => none
  | some info => (gdr_mr_from_handle_unlocked info pgoff).map (info, ·)

/-- The mappings of an mr are destroyed before it goes away, if it is marked mapped. -/
def zapIfMapped (mr : Mr) (vmas : List Vma) : Except Fault (Mr × List Vma) :=
  if gdr_mr_is_mapped mr then gdr_mr_destroy_all_mappings P mr vmas else .ok (mr, vmas)

/-- The mr after its callback. -/
def invalid (mr : Mr) : Mr :=
  { mr with
    cb_flag := true, page_table := none,
    cpu_mapping_type := if mr.page_table.isSome then .NONE else mr.cpu_mapping_type }

inductive Does : Kernel → Event → Kernel → Prop
  | quiet {s s' : Kernel} : s'.files = s.files → s'.vmas = s.vmas → s.fresh ≤ s'.fresh → Does s .quiet s'
  | opened {s s' : Kernel} {cur : Nat} : s'.files = Function.update s.files s.fresh (some ⟨[], cur, 0, false⟩) →
    s'.vmas = s.vmas → s'.fresh = s.fresh + 1 → Does s (.opened s.fresh) s'
  | linked {s s' : Kernel} {f : Nat} {info info' : Info} {mr : Mr} {pt : PageTable} : s.files f = some info →
    gdr_generate_mr_handle P info mr.mapped_size = some (mr.handle, info') → mr.New s.fresh pt →
    s'.files = Function.update s.files f (some (info'.list_add mr)) → s'.vmas = s.vmas → s'.fresh = s.fresh + 2 →
    Does s (.linked f mr) s'
  | unlinked {s s' : Kernel} {f : Nat} {info : Info} {mr mr' : Mr} : s.files f = some info → mr ∈ info.mr_list →
    zapIfMapped P mr s.vmas = .ok (mr', s'.vmas) →
    s'.files = Function.update s.files f (some (info.list_del mr)) → s'.fresh = s.fresh → Does s (.unlinked f mr) s'
  | requested {s s' : Kernel} {f : Nat} {info : Info} {mr : Mr} {t : MrType} : s.files f = some info →
    mr ∈ info.mr_list →
    s'.files = Function.update s.files f (some (info.put { mr with req_mapping_type := t })) → s'.vmas = s.vmas →
    s'.fresh = s.fresh → Does s (.requested f mr t) s'
  | refused {s s' : Kernel} {f : Nat} {info : Info} {mr : Mr} : s.files f = some info → mr ∈ info.mr_list →
    s'.files = Function.update s.files f (some (info.put (mmapFail mr))) → s'.vmas = s.vmas →
    s.fresh ≤ s'.fresh → Does s (.refused f mr) s'
  | mapped {s s' : Kernel} {f : Nat} {info : Info} {mr : Mr} {pt : PageTable} {vma : Vma} {t : MrType} :
    s.files f = some info → mr ∈ info.mr_list → gdr_mr_is_mapped mr = false →
    mr.cb_flag = false → mr.page_table = some pt → t ≠ .NONE → vma.New P s.fresh f pt →
    s'.files = Function.update s.files f
      (some (info.put { mr with vma := some vma.id, mapping := some f, cpu_mapping_type := t })) →
    s'.vmas = vma :: s.vmas → s'.fresh = s.fresh + 1 → Does s (.mapped f mr vma) s'
  | closed {s s' : Kernel} {vma : Vma} : vma ∈ s.vmas →
    s'.files = (match s.lookup vma.vm_file vma.vm_pgoff with
      | none => s.files
      | some (info, mr) => Function.update s.files vma.vm_file (some (info.put (closeMr mr)))) →
    s'.vmas = s.vmas.filter (fun v => v.id ≠ vma.id) → s'.fresh = s.fresh →
    Does s (.closed vma (s.lookup vma.vm_file vma.vm_pgoff)) s'
  | invalidated {s s' : Kernel} {f : Nat} {info : Info} {mr mr' : Mr} : s.files f = some info → mr ∈ info.mr_list →
    (if mr.page_table.isSome then zapIfMapped P mr s.vmas else .ok (mr, s.vmas)) = .ok (mr', s'.vmas) →
    s'.files = Function.update s.files f (some (info.put (invalid mr))) → s'.fresh = s.fresh →
    Does s (.invalidated f mr) s'
  | shut {s s' : Kernel} {f : Nat} {info : Info} : s.files f = some info → info.mr_list = [] →
    s'.files = Function.update s.files f none → s'.vmas = s.vmas → s'.fresh = s.fresh → Does s (.shut f) s'

/-! ## Zapping -/

/-- `vmas'` is `vmas` with some translations removed. -/
def Pruned (vmas vmas' : List Vma) : Prop :=
  ∃ keep : Vma → Pte → Bool, vmas' = vmas.map fun v => { v with ptes := v.ptes.filter (keep v) }

theorem Pruned.refl (vmas : List Vma) : Pruned vmas vmas := ⟨fun _ _ => true, by simp⟩

theorem Pruned.trans {a b c : List Vma} (h : Pruned a b) (h' : Pruned b c) : Pruned a c := by
  obtain ⟨keep, rfl⟩ := h
  obtain ⟨keep', rfl⟩ := h'
  refine ⟨fun v p => keep v p && keep' { v with ptes := v.ptes.filter (keep v) } p, ?_⟩
  simp only [List.map_map]
  refine List.map_congr_left fun v _ => ?_
  simp only [Function.comp_apply, List.filter_filter, Vma.mk.injEq, true_and]
  exact List.filter_congr fun p _ => Bool.and_comm _ _

theorem Pruned.mem {vmas vmas' : List Vma} (h : Pruned vmas vmas') {v' : Vma} (hv : v' ∈ vmas') :
    ∃ v ∈ vmas, ∃ ptes, v' = { v with ptes := ptes } ∧ ptes ⊆ v.ptes := by
  obtain ⟨keep, rfl⟩ := h
  obtain ⟨v, hmem, rfl⟩ := List.mem_map.1 hv
  exact ⟨v, hmem, _, rfl, List.filter_subset_self _⟩

theorem Pruned.inj {vmas vmas' : List Vma} (h : Pruned vmas vmas')
    (hi : ∀ v ∈ vmas, ∀ w ∈ vmas, v.id = w.id → v = w) : ∀ v ∈ vmas', ∀ w ∈ vmas', v.id = w.id → v = w := by
  obtain ⟨keep, rfl⟩ := h
  intro v' hv' w' hw' he
  obtain ⟨v, hv, rfl⟩ := List.mem_map.1 hv'
  obtain ⟨w, hw, rfl⟩ := List.mem_map.1 hw'
  rw [hi v hv w hw he]

variable {P}

theorem zap_pruned (mapping : Nat) (vma : Vma) (vmas : List Vma) : Pruned vmas (gdrdrv_zap_vma P mapping vma vmas) := by
  refine ⟨fun v p => if v.vm_file = mapping then
    !(u64 (vma.vm_pgoff <<< P.PAGE_SHIFT) >>> P.PAGE_SHIFT ≤ v.pageOff P p &&
    v.pageOff P p < u64 (vma.vm_pgoff <<< P.PAGE_SHIFT) >>> P.PAGE_SHIFT +
      (vma.vm_end - vma.vm_start + P.PAGE_SIZE - 1) >>> P.PAGE_SHIFT) else true, ?_⟩
  unfold gdrdrv_zap_vma unmap_mapping_range
  refine List.map_congr_left fun v _ => ?_
  by_cases hv : v.vm_file = mapping <;> simp [hv]

/-- Destroying the mappings of `mr` zaps its VMA, if it has one. -/
theorem destroy_cases {mr mr' : Mr} {vmas vmas' : List Vma}
    (h : gdr_mr_destroy_all_mappings P mr vmas = .ok (mr', vmas')) :
    mr' = { mr with cpu_mapping_type := .NONE } ∧
      (mr.vma = none ∧ vmas' = vmas ∨
        ∃ m v, mr.mapping = some m ∧ mr.vma = some v.id ∧ v ∈ vmas ∧ vmas' = gdrdrv_zap_vma P m v vmas) := by
  unfold gdr_mr_destroy_all_mappings at h
  cases hv : mr.vma with
  | none =>
    rw [hv] at h
    obtain ⟨rfl, rfl⟩ := Prod.mk.inj (Except.ok.inj h)
    exact ⟨rfl, .inl ⟨rfl, rfl⟩⟩
  | some v =>
    rw [hv] at h
    dsimp only at h
    split at h
    · rename_i m vma hm hfind
      obtain ⟨rfl, rfl⟩ := Prod.mk.inj (Except.ok.inj h)
      have hid : vma.id = v := by simpa using List.find?_some hfind
      exact ⟨rfl, .inr ⟨m, vma, hm, by rw [hid], List.mem_of_find?_eq_some hfind, rfl⟩⟩
    · cases h

/-- `zapIfMapped` leaves an unmapped mr and fewer translations. -/
theorem zapIfMapped_cases {mr mr' : Mr} {vmas vmas' : List Vma} (h : zapIfMapped P mr vmas = .ok (mr', vmas')) :
    mr' = { mr with cpu_mapping_type := .NONE } ∧
      ((gdr_mr_is_mapped mr = false ∨ mr.vma = none) ∧ vmas' = vmas ∨ gdr_mr_is_mapped mr = true ∧
        ∃ m v, mr.mapping = some m ∧ mr.vma = some v.id ∧ v ∈ vmas ∧ vmas' = gdrdrv_zap_vma P m v vmas) := by
  unfold zapIfMapped at h
  by_cases hm : gdr_mr_is_mapped mr = true
  · rw [if_pos hm] at h
    obtain ⟨hmr, ⟨hv, hvm⟩ | hz⟩ := destroy_cases h
    · exact ⟨hmr, .inl ⟨.inr hv, hvm⟩⟩
    · exact ⟨hmr, .inr ⟨hm, hz⟩⟩
  · rw [if_neg hm] at h
    obtain ⟨rfl, rfl⟩ := Prod.mk.inj (Except.ok.inj h)
    have hn : mr.cpu_mapping_type = .NONE := by simpa [gdr_mr_is_mapped] using hm
    refine ⟨?_, .inl ⟨.inl (by simpa using hm), rfl⟩⟩
    rw [← hn]

theorem zapIfMapped_pruned {mr mr' : Mr} {vmas vmas' : List Vma} (h : zapIfMapped P mr vmas = .ok (mr', vmas')) :
    Pruned vmas vmas' := by
  obtain ⟨-, ⟨-, rfl⟩ | ⟨-, m, v, -, -, -, rfl⟩⟩ := zapIfMapped_cases h
  · exact .refl _
  · exact zap_pruned _ _ _

/-! ## Well-formed states -/

/-- A listed mr: its addresses are used up, and it holds a page table exactly
until its callback runs. -/
structure Mr.Ok (mr : Mr) (fresh : Nat) : Prop where
  ptr : mr.ptr + 1 < fresh
  mapped_size : mr.mapped_size < 2 ^ 64
  table : ∀ pt, mr.page_table = some pt → pt.id = mr.ptr + 1
  cb_flag : mr.cb_flag = mr.page_table.isNone
  mapped : gdr_mr_is_mapped mr = true → mr.page_table.isSome
  vma : ∀ v, mr.vma = some v → v < fresh

theorem Mr.Ok.mono {mr : Mr} {n n' : Nat} (h : mr.Ok n) (hn : n ≤ n') : mr.Ok n' :=
  ⟨Nat.lt_of_lt_of_le h.ptr hn, h.mapped_size, h.table, h.cb_flag, h.mapped,
    fun v hv => Nat.lt_of_lt_of_le (h.vma v hv) hn⟩

variable (P) in
/-- The open files: their handles are spaced out and no mr is on two lists. -/
structure FilesOk (files : Nat → Option Info) (fresh : Nat) : Prop where
  file : ∀ {f info}, files f = some info → f < fresh
  spaced : ∀ {f info}, files f = some info → Spaced P info
  mr : ∀ {f info}, files f = some info → ∀ {m}, m ∈ info.mr_list → m.Ok fresh
  ptr_inj : ∀ {f g info info'}, files f = some info → files g = some info' → ∀ {m n}, m ∈ info.mr_list →
    n ∈ info'.mr_list → m.ptr = n.ptr → f = g ∧ m = n

variable (P) in
/-- A region is a whole number of host pages, and its translations lie in it. -/
structure Vma.Shaped (vma : Vma) : Prop where
  bounds : ∃ start pages, vma.vm_start = start * P.PAGE_SIZE ∧ vma.vm_end = (start + pages) * P.PAGE_SIZE
  vm_pgoff : vma.vm_pgoff < handleEnd P
  ptes : ∀ p ∈ vma.ptes, vma.vm_start ≤ p.vaddr ∧ p.vaddr < vma.vm_end

variable (P) in
structure VmasOk (vmas : List Vma) (fresh : Nat) : Prop where
  id : ∀ {v}, v ∈ vmas → v.id < fresh
  vm_file : ∀ {v}, v ∈ vmas → v.vm_file < fresh
  shaped : ∀ {v}, v ∈ vmas → v.Shaped P
  table : ∀ {v}, v ∈ vmas → ∀ p ∈ v.ptes, p.table < fresh
  inj : ∀ v ∈ vmas, ∀ w ∈ vmas, v.id = w.id → v = w

variable (P) in
structure Wf (s : Kernel) : Prop where
  files : FilesOk P s.files s.fresh
  vmas : VmasOk P s.vmas s.fresh

/-! ## The lists -/

theorem mem_put {info : Info} {mr m : Mr} (h : m ∈ (info.put mr).mr_list) :
    m = mr ∧ (∃ m0 ∈ info.mr_list, m0.ptr = mr.ptr) ∨ m ∈ info.mr_list ∧ m.ptr ≠ mr.ptr := by
  obtain ⟨m0, hm0, rfl⟩ := List.mem_map.1 h
  by_cases he : m0.ptr = mr.ptr
  · rw [if_pos he]; exact .inl ⟨rfl, m0, hm0, he⟩
  · rw [if_neg he]; exact .inr ⟨hm0, he⟩

theorem put_mem {info : Info} {mr m : Mr} (hm : m ∈ info.mr_list) (he : m.ptr = mr.ptr) : mr ∈ (info.put mr).mr_list :=
  List.mem_map.2 ⟨m, hm, by rw [if_pos he]⟩

theorem put_mem_other {info : Info} {mr m : Mr} (hm : m ∈ info.mr_list) (he : m.ptr ≠ mr.ptr) :
    m ∈ (info.put mr).mr_list := List.mem_map.2 ⟨m, hm, by rw [if_neg he]⟩

theorem mem_list_del {info : Info} {mr m : Mr} : m ∈ (info.list_del mr).mr_list ↔ m ∈ info.mr_list ∧
    m.ptr ≠ mr.ptr := by
  simp [Info.list_del]

theorem Spaced.put {info : Info} {mr : Mr} (h : Spaced P info)
    (hs : ∀ m ∈ info.mr_list, m.ptr = mr.ptr → mr.handle = m.handle ∧ mr.stop P = m.stop P) :
    Spaced P (info.put mr) := by
  have hh : ∀ m ∈ info.mr_list, (if m.ptr = mr.ptr then mr else m).handle = m.handle ∧
      (if m.ptr = mr.ptr then mr else m).stop P = m.stop P := by
    intro m hm
    by_cases he : m.ptr = mr.ptr
    · rw [if_pos he]; exact hs m hm he
    · rw [if_neg he]; exact ⟨rfl, rfl⟩
  refine ⟨?_, fun ho => ⟨(h.next ho).1, fun m hm => ?_⟩, fun m hm => ?_⟩
  · rw [Info.put, List.pairwise_map]
    refine h.ranges.imp_of_mem fun {a b} ha hb hab => ?_
    rw [(hh a ha).1, (hh b hb).2]
    exact hab
  · obtain ⟨m0, hm0, rfl⟩ := List.mem_map.1 hm
    rw [(hh m0 hm0).2]
    exact (h.next ho).2 m0 hm0
  · obtain ⟨m0, hm0, rfl⟩ := List.mem_map.1 hm
    rw [(hh m0 hm0).1]
    exact h.handles m0 hm0

theorem Spaced.list_del {info : Info} (mr : Mr) (h : Spaced P info) : Spaced P (info.list_del mr) :=
  ⟨h.ranges.filter _, fun ho => ⟨(h.next ho).1, fun m hm => (h.next ho).2 m (mem_list_del.1 hm).1⟩,
    fun m hm => h.handles m (mem_list_del.1 hm).1⟩

theorem Spaced.list_add {info info' : Info} {mr : Mr} (h : Spaced P info) (hn : mr.mapped_size < 2 ^ 64)
    (hg : gdr_generate_mr_handle P info mr.mapped_size = some (mr.handle, info')) : Spaced P (info'.list_add mr) := by
  obtain ⟨ho, hh, hl, -, hov, hnext⟩ := generate_spec hn (fun ho => (h.next ho).1) hg
  have hnext0 := h.next ho
  refine ⟨?_, fun ho' => ?_, ?_⟩
  · simp only [Info.list_add, hl, List.pairwise_cons, hh]
    exact ⟨hnext0.2, h.ranges⟩
  · have hlt := hov.1 ho'
    have he : (info'.list_add mr).next_handle = info.next_handle + span P mr.mapped_size := hnext ho'
    refine ⟨by rw [he]; exact hlt, fun m hm => ?_⟩
    simp only [Info.list_add, hl, List.mem_cons] at hm
    rcases hm with rfl | hm
    · rw [he, Mr.stop, hh]
    · have := hnext0.2 m hm
      omega
  · intro m hm
    simp only [Info.list_add, hl, List.mem_cons] at hm
    rcases hm with rfl | hm
    · rw [hh]; exact hnext0.1
    · exact h.handles m hm

/-! ## Events keep states well formed -/

theorem get_update {files : Nat → Option Info} {f g : Nat} {x : Option Info} {i : Info}
    (h : Function.update files f x g = some i) : g = f ∧ x = some i ∨ g ≠ f ∧ files g = some i := by
  by_cases he : g = f
  · subst he
    rw [Function.update_self] at h
    exact .inl ⟨rfl, h⟩
  · rw [Function.update_of_ne he] at h
    exact .inr ⟨he, h⟩

theorem FilesOk.mono {files : Nat → Option Info} {n n' : Nat} (h : FilesOk P files n) (hn : n ≤ n') :
    FilesOk P files n' :=
  ⟨fun hf => Nat.lt_of_lt_of_le (h.file hf) hn, h.spaced, fun hf _ hm => (h.mr hf hm).mono hn, h.ptr_inj⟩

/-- A list whose mrs stand for mrs of the old one replaces it. -/
theorem FilesOk.update {files : Nat → Option Info} {n f : Nat} {info info' : Info} (h : FilesOk P files n)
    (hf : files f = some info) (hsp : Spaced P info') (hok : ∀ m ∈ info'.mr_list, m.Ok n)
    (hsub : ∀ m ∈ info'.mr_list, ∃ m0 ∈ info.mr_list, m0.ptr = m.ptr)
    (hinj : ∀ m ∈ info'.mr_list, ∀ m' ∈ info'.mr_list, m.ptr = m'.ptr → m = m') :
    FilesOk P (Function.update files f (some info')) n := by
  have hget : ∀ {g i}, Function.update files f (some info') g = some i → g = f ∧ i = info' ∨ g ≠ f ∧
      files g = some i := fun hg =>
    (get_update hg).imp_left (And.imp_right fun h => (Option.some.inj h).symm)
  refine ⟨fun hg => ?_, fun hg => ?_, fun hg m hm => ?_, fun hg hg' m m' hm hm' he => ?_⟩
  · rcases hget hg with ⟨rfl, -⟩ | ⟨-, hg⟩
    · exact h.file hf
    · exact h.file hg
  · rcases hget hg with ⟨-, rfl⟩ | ⟨-, hg⟩
    · exact hsp
    · exact h.spaced hg
  · rcases hget hg with ⟨-, rfl⟩ | ⟨-, hg⟩
    · exact hok m hm
    · exact h.mr hg hm
  · rcases hget hg with ⟨rfl, rfl⟩ | ⟨hne, hg1⟩ <;> rcases hget hg' with ⟨rfl, rfl⟩ | ⟨hne', hg1'⟩
    · exact ⟨rfl, hinj m hm m' hm' he⟩
    · obtain ⟨m0, hm0, he0⟩ := hsub m hm
      exact absurd (h.ptr_inj hf hg1' hm0 hm' (he0.trans he)).1.symm hne'
    · obtain ⟨m0, hm0, he0⟩ := hsub m' hm'
      exact absurd (h.ptr_inj hg1 hf hm hm0 (he.trans he0.symm)).1 hne
    · exact h.ptr_inj hg1 hg1' hm hm' he

theorem FilesOk.put {files : Nat → Option Info} {n f : Nat} {info : Info} {mr mr' : Mr} (h : FilesOk P files n)
    (hf : files f = some info) (hm : mr ∈ info.mr_list) (hptr : mr'.ptr = mr.ptr) (hhandle : mr'.handle = mr.handle)
    (hsize : mr'.mapped_size = mr.mapped_size) (hok : mr'.Ok n) :
    FilesOk P (Function.update files f (some (info.put mr'))) n := by
  have huniq : ∀ m ∈ info.mr_list, m.ptr = mr'.ptr → m = mr := fun m hm' he =>
    (h.ptr_inj hf hf hm' hm (he.trans hptr)).2
  refine h.update hf ((h.spaced hf).put fun m hm' he => ?_) (fun m hm' => ?_) (fun m hm' => ?_) fun m hm1
    m' hm2 he => ?_
  · rw [huniq m hm' he, Mr.stop, Mr.stop, hhandle, hsize]
    exact ⟨rfl, rfl⟩
  · rcases mem_put hm' with ⟨rfl, -⟩ | ⟨hm', -⟩
    · exact hok
    · exact h.mr hf hm'
  · rcases mem_put hm' with ⟨rfl, h0⟩ | ⟨hm', -⟩
    · exact h0
    · exact ⟨m, hm', rfl⟩
  · rcases mem_put hm1 with ⟨rfl, -⟩ | ⟨hm1, hne1⟩ <;> rcases mem_put hm2 with ⟨rfl, -⟩ | ⟨hm2, hne2⟩
    · rfl
    · exact absurd he.symm hne2
    · exact absurd he hne1
    · exact (h.ptr_inj hf hf hm1 hm2 he).2

theorem FilesOk.list_del {files : Nat → Option Info} {n f : Nat} {info : Info} (mr : Mr) (h : FilesOk P files n)
    (hf : files f = some info) : FilesOk P (Function.update files f (some (info.list_del mr))) n :=
  h.update hf ((h.spaced hf).list_del mr) (fun _ hm => h.mr hf (mem_list_del.1 hm).1)
    (fun m hm => ⟨m, (mem_list_del.1 hm).1, rfl⟩)
    fun _ hm _ hm' he => (h.ptr_inj hf hf (mem_list_del.1 hm).1 (mem_list_del.1 hm').1 he).2

/-- A file that holds an mr after a new one is linked: it is the new one, or it was there. -/
theorem get_list_add {files : Nat → Option Info} {f g : Nat} {info info' i : Info} {mr m : Mr}
    (hf : files f = some info) (hl : info'.mr_list = info.mr_list)
    (hg : Function.update files f (some (info'.list_add mr)) g = some i) (hm : m ∈ i.mr_list) :
    g = f ∧ m = mr ∨ ∃ i0, files g = some i0 ∧ m ∈ i0.mr_list := by
  rcases get_update hg with ⟨rfl, hi⟩ | ⟨-, hg⟩
  · cases hi
    rw [Info.list_add, hl] at hm
    rcases List.mem_cons.1 hm with rfl | hm
    · exact .inl ⟨rfl, rfl⟩
    · exact .inr ⟨info, hf, hm⟩
  · exact .inr ⟨i, hg, hm⟩

theorem Mr.New.ok {n : Nat} {mr : Mr} {pt : PageTable} (h : mr.New n pt) : mr.Ok (n + 2) := by
  refine ⟨by rw [h.ptr]; omega, h.mapped_size, fun pt' hpt => ?_, ?_, fun hm => ?_, fun v hv => ?_⟩
  · rw [h.page_table] at hpt
    cases hpt
    rw [h.table, h.ptr]
  · rw [h.cb_flag, h.page_table]
    rfl
  · rw [h.page_table]
    rfl
  · rw [h.vma] at hv
    cases hv

/-- A new mr is linked into its file. -/
theorem FilesOk.list_add {files : Nat → Option Info} {n f : Nat} {info info' : Info} {mr : Mr} {pt : PageTable}
    (h : FilesOk P files n) (hf : files f = some info)
    (hg : gdr_generate_mr_handle P info mr.mapped_size = some (mr.handle, info')) (hnew : mr.New n pt) :
    FilesOk P (Function.update files f (some (info'.list_add mr))) (n + 2) := by
  have hl : info'.mr_list = info.mr_list :=
    (generate_spec hnew.mapped_size (fun ho => ((h.spaced hf).next ho).1) hg).2.2.1
  -- The new mr is numbered after all the others.
  have hold : ∀ {g i m}, files g = some i → m ∈ i.mr_list → m.ptr ≠ mr.ptr := by
    intro g i m hi hm he
    have := (h.mr hi hm).ptr
    have := hnew.ptr
    omega
  refine ⟨fun {g i} hg => ?_, fun {g i} hg => ?_, fun hg m hm => ?_, fun hg hg' m m' hm hm' he => ?_⟩
  · rcases get_update hg with ⟨rfl, -⟩ | ⟨-, hg⟩
    · exact Nat.lt_add_right 2 (h.file hf)
    · exact Nat.lt_add_right 2 (h.file hg)
  · rcases get_update hg with ⟨-, hi⟩ | ⟨-, hg⟩
    · cases hi
      exact (h.spaced hf).list_add hnew.mapped_size ‹_›
    · exact h.spaced hg
  · rcases get_list_add hf hl hg hm with ⟨-, rfl⟩ | ⟨i0, hi, hm⟩
    · exact hnew.ok
    · exact (h.mr hi hm).mono (Nat.le_add_right n 2)
  · rcases get_list_add hf hl hg hm with ⟨rfl, rfl⟩ | ⟨i, hi, h1⟩ <;>
      rcases get_list_add hf hl hg' hm' with ⟨rfl, rfl⟩ | ⟨i', hi', h1'⟩
    · exact ⟨rfl, rfl⟩
    · exact absurd he.symm (hold hi' h1')
    · exact absurd he (hold hi h1)
    · exact h.ptr_inj hi hi' h1 h1' he

theorem FilesOk.open {files : Nat → Option Info} {n : Nat} (cur : Nat) (h : FilesOk P files n) :
    FilesOk P (Function.update files n (some ⟨[], cur, 0, false⟩)) (n + 1) := by
  have hnil : ∀ {g i m}, Function.update files n (some ⟨[], cur, 0, false⟩) g = some i → m ∈ i.mr_list →
      files g = some i := by
    intro g i m hg hm
    by_cases he : g = n
    · subst he
      rw [Function.update_self] at hg
      cases hg
      cases hm
    · rwa [Function.update_of_ne he] at hg
  refine ⟨fun {g i} hg => ?_, fun {g i} hg => ?_, fun hg m hm => (h.mr (hnil hg hm) hm).mono (by omega),
    fun hg hg' m m' hm hm' he => h.ptr_inj (hnil hg hm) (hnil hg' hm') hm hm' he⟩
  · by_cases he : g = n
    · omega
    · rw [Function.update_of_ne he] at hg
      have := h.file hg
      omega
  · by_cases he : g = n
    · subst he
      rw [Function.update_self] at hg
      cases hg
      exact ⟨.nil, fun _ => ⟨Nat.two_pow_pos _, by simp⟩, by simp⟩
    · rw [Function.update_of_ne he] at hg
      exact h.spaced hg

theorem FilesOk.shut {files : Nat → Option Info} {n : Nat} (f : Nat) (h : FilesOk P files n) :
    FilesOk P (Function.update files f none) n := by
  have hget : ∀ {g i}, Function.update files f none g = some i → files g = some i := by
    intro g i hg
    by_cases he : g = f
    · subst he
      rw [Function.update_self] at hg
      cases hg
    · rwa [Function.update_of_ne he] at hg
  exact ⟨fun hg => h.file (hget hg), fun hg => h.spaced (hget hg), fun hg => h.mr (hget hg),
    fun hg hg' => h.ptr_inj (hget hg) (hget hg')⟩

theorem VmasOk.mono {vmas : List Vma} {n n' : Nat} (h : VmasOk P vmas n) (hn : n ≤ n') : VmasOk P vmas n' :=
  ⟨fun hv => Nat.lt_of_lt_of_le (h.id hv) hn, fun hv => Nat.lt_of_lt_of_le (h.vm_file hv) hn, h.shaped,
    fun hv p hp => Nat.lt_of_lt_of_le (h.table hv p hp) hn, h.inj⟩

theorem Vma.Shaped.pruned {v : Vma} {ptes : List Pte} (h : v.Shaped P) (hs : ptes ⊆ v.ptes) :
    Vma.Shaped P { v with ptes := ptes } := ⟨h.bounds, h.vm_pgoff, fun p hp => h.ptes p (hs hp)⟩

theorem VmasOk.pruned {vmas vmas' : List Vma} {n : Nat} (h : VmasOk P vmas n) (hp : Pruned vmas vmas') :
    VmasOk P vmas' n := by
  refine ⟨fun hv => ?_, fun hv => ?_, fun hv => ?_, fun hv p hpt => ?_, hp.inj h.inj⟩ <;>
    obtain ⟨v, hmem, ptes, rfl, hsub⟩ := hp.mem hv
  · exact show v.id < n from h.id hmem
  · exact show v.vm_file < n from h.vm_file hmem
  · exact (h.shaped hmem).pruned hsub
  · exact h.table hmem p (hsub hpt)

theorem VmasOk.filter {vmas : List Vma} {n : Nat} (q : Vma → Bool) (h : VmasOk P vmas n) : VmasOk P (vmas.filter q) n :=
  ⟨fun hv => h.id (List.mem_filter.1 hv).1, fun hv => h.vm_file (List.mem_filter.1 hv).1,
    fun hv => h.shaped (List.mem_filter.1 hv).1, fun hv => h.table (List.mem_filter.1 hv).1,
    fun v hv w hw => h.inj v (List.mem_filter.1 hv).1 w (List.mem_filter.1 hw).1⟩

theorem VmasOk.cons {vmas : List Vma} {n f : Nat} {vma : Vma} {pt : PageTable} (h : VmasOk P vmas n)
    (hnew : vma.New P n f pt) (hf : f < n) (ht : pt.id < n) : VmasOk P (vma :: vmas) (n + 1) := by
  have hid := hnew.id
  refine ⟨fun {v} hv => ?_, fun {v} hv => ?_, fun {v} hv => ?_, fun {v} hv p hp => ?_, fun v hv w hw he => ?_⟩
  · rcases List.mem_cons.1 hv with rfl | hv
    · omega
    · have := h.id hv
      omega
  · rcases List.mem_cons.1 hv with rfl | hv
    · have := hnew.vm_file
      omega
    · have := h.vm_file hv
      omega
  · rcases List.mem_cons.1 hv with rfl | hv
    · obtain ⟨start, pages, h1, h2, -⟩ := hnew.bounds
      exact ⟨⟨start, pages, h1, h2⟩, hnew.vm_pgoff, fun p hp => (hnew.ptes p hp).2⟩
    · exact h.shaped hv
  · rcases List.mem_cons.1 hv with rfl | hv
    · rw [(hnew.ptes p hp).1]; omega
    · have := h.table hv p hp
      omega
  · rcases List.mem_cons.1 hv with rfl | hv1 <;> rcases List.mem_cons.1 hw with rfl | hw1
    · rfl
    · have := h.id hw1
      omega
    · have := h.id hv1
      omega
    · exact h.inj v hv1 w hw1 he

theorem search_listed {s : Kernel} {f pgoff : Nat} {info : Info} {mr : Mr} (h : s.lookup f pgoff = some (info, mr)) :
    s.files f = some info ∧ mr ∈ info.mr_list ∧ gdr_mr_from_handle_unlocked info pgoff = some mr := by
  unfold Kernel.lookup at h
  split at h
  · cases h
  · rename_i info' hf
    obtain ⟨mr', hs, he⟩ := Option.map_eq_some_iff.1 h
    cases he
    exact ⟨hf, search_mem hs, hs⟩

theorem Mr.Ok.invalid {mr : Mr} {n : Nat} (h : mr.Ok n) : (invalid mr).Ok n := by
  refine ⟨h.ptr, h.mapped_size, fun pt hpt => (by cases hpt), rfl, fun hm => ?_, h.vma⟩
  by_cases hpt : mr.page_table.isSome = true
  · simp [gdrdrv.invalid, gdr_mr_is_mapped, hpt] at hm
  · exact absurd (h.mapped (by simpa [gdrdrv.invalid, gdr_mr_is_mapped, hpt] using hm)) hpt

theorem Mr.Ok.closeMr {mr : Mr} {n : Nat} (o : mr.Ok n) : (closeMr mr).Ok n :=
  ⟨o.ptr, o.mapped_size, o.table, o.cb_flag, fun hm => (by simp [gdrdrv.closeMr, gdr_mr_is_mapped] at hm),
    fun v hv => (by cases hv)⟩

/-- Every event keeps the files well formed, whatever the VMAs. -/
theorem Does.filesOk {s s' : Kernel} {e : Event} (h : FilesOk P s.files s.fresh) (hd : Does P s e s') :
    FilesOk P s'.files s'.fresh := by
  have hok : ∀ {f info}, s.files f = some info → ∀ {m}, m ∈ info.mr_list → m.Ok s.fresh := h.mr
  cases hd with
  | quiet hfiles hvmas hfresh => exact hfiles ▸ h.mono hfresh
  | opened hfiles hvmas hfresh => rw [hfiles, hfresh]; exact h.open _
  | linked hf hg hnew hfiles hvmas hfresh => rw [hfiles, hfresh]; exact h.list_add hf hg hnew
  | unlinked hf hm hz hfiles hfresh => rw [hfiles, hfresh]; exact h.list_del _ hf
  | requested hf hm hfiles hvmas hfresh =>
    have o := hok hf hm
    rw [hfiles, hfresh]
    exact h.put hf hm rfl rfl rfl ⟨o.ptr, o.mapped_size, o.table, o.cb_flag, o.mapped, o.vma⟩
  | refused hf hm hfiles hvmas hfresh =>
    have o := hok hf hm
    rw [hfiles]
    refine FilesOk.mono (h.put hf hm rfl rfl rfl ?_) hfresh
    exact ⟨o.ptr, o.mapped_size, o.table, o.cb_flag, fun hm => (by simp [mmapFail, gdr_mr_is_mapped] at hm),
      fun v hv => (by cases hv)⟩
  | mapped hf hm hn hcb hpt ht hnew hfiles hvmas hfresh =>
    have o := hok hf hm
    have hid := hnew.id
    rw [hfiles, hfresh]
    exact (h.mono (Nat.le_succ _)).put hf hm rfl rfl rfl
      ⟨by have := o.ptr; simp only; omega, o.mapped_size, o.table, o.cb_flag, fun _ => by rw [hpt]; rfl,
        fun v hv => by cases hv; omega⟩
  | closed hv hfiles hvmas hfresh =>
    rw [hfiles, hfresh]
    split
    · exact h
    · rename_i info mr hl
      obtain ⟨hf, hm, -⟩ := search_listed hl
      exact h.put hf hm rfl rfl rfl (hok hf hm).closeMr
  | invalidated hf hm hz hfiles hfresh => rw [hfiles, hfresh]; exact h.put hf hm rfl rfl rfl (hok hf hm).invalid
  | shut hf hl hfiles hvmas hfresh => rw [hfiles, hfresh]; exact h.shut _

/-- Every event keeps states well formed. -/
theorem Does.wf {s s' : Kernel} {e : Event} (h : Wf P s) (hd : Does P s e s') : Wf P s' := by
  refine ⟨hd.filesOk h.files, ?_⟩
  cases hd with
  | quiet hfiles hvmas hfresh => exact hvmas ▸ h.vmas.mono hfresh
  | opened hfiles hvmas hfresh => rw [hvmas, hfresh]; exact h.vmas.mono (by omega)
  | linked hf hg hnew hfiles hvmas hfresh => rw [hvmas, hfresh]; exact h.vmas.mono (by omega)
  | unlinked hf hm hz hfiles hfresh => rw [hfresh]; exact h.vmas.pruned (zapIfMapped_pruned hz)
  | requested hf hm hfiles hvmas hfresh => rw [hvmas, hfresh]; exact h.vmas
  | refused hf hm hfiles hvmas hfresh => rw [hvmas]; exact h.vmas.mono hfresh
  | mapped hf hm hn hcb hpt ht hnew hfiles hvmas hfresh =>
    have o := h.files.mr hf hm
    have := o.ptr
    rw [hvmas, hfresh]
    exact h.vmas.cons hnew (h.files.file hf) (by rw [o.table _ hpt]; omega)
  | closed hv hfiles hvmas hfresh => rw [hvmas, hfresh]; exact h.vmas.filter _
  | invalidated hf hm hz hfiles hfresh =>
    rw [hfresh]
    split at hz
    · exact h.vmas.pruned (zapIfMapped_pruned hz)
    · rw [← (Prod.mk.inj (Except.ok.inj hz)).2]
      exact h.vmas
  | shut hf hl hfiles hvmas hfresh => rw [hvmas, hfresh]; exact h.vmas

variable (P) in
/-- Runs of events that all meet `ok`. -/
abbrev EventRun (ok : Event → Prop) := Runs.Run (· = init) (Runs.only (fun _ e => ok e) (Does P))

theorem EventRun.wf {ok : Event → Prop} {s : Kernel} {es : List Event} (h : EventRun P ok s es) : Wf P s := by
  refine Runs.Run.inv (Wf P) ?_ (fun s e s' hi hd => hd.2.wf hi) h
  rintro s rfl
  exact ⟨⟨nofun, nofun, nofun, nofun⟩, ⟨nofun, nofun, nofun, nofun, nofun⟩⟩

/-! ## What a zap removes -/

theorem Vma.Shaped.size {v : Vma} (h : v.Shaped P) : v.vm_end - v.vm_start = v.pages P * P.PAGE_SIZE := by
  obtain ⟨start, pages, hs, he⟩ := h.bounds
  rw [Vma.pages, hs, he, Nat.add_mul, Nat.add_sub_cancel_left, Nat.mul_div_cancel _ (pageSize_pos P)]

theorem pageOff_bounds {v : Vma} (hs : v.vm_end - v.vm_start = v.pages P * P.PAGE_SIZE) {p : Pte}
    (hb : v.vm_start ≤ p.vaddr ∧ p.vaddr < v.vm_end) :
    v.vm_pgoff ≤ v.pageOff P p ∧ v.pageOff P p < v.vm_pgoff + v.pages P := by
  have : (p.vaddr - v.vm_start) / P.PAGE_SIZE < v.pages P :=
    (Nat.div_lt_iff_lt_mul (pageSize_pos P)).2 (by omega)
  exact ⟨Nat.le_add_right _ _, Nat.add_lt_add_left this _⟩

theorem Vma.Shaped.pageOff {v : Vma} (h : v.Shaped P) {p : Pte} (hp : p ∈ v.ptes) :
    v.vm_pgoff ≤ v.pageOff P p ∧ v.pageOff P p < v.vm_pgoff + v.pages P := pageOff_bounds h.size (h.ptes p hp)

/-- A zap removes the translations of the page offsets of `v`, in every VMA of that
file, after the first of them has been taken to bytes and back on 64 bits. -/
theorem zap_wraps {v : Vma} (hsize : v.vm_end - v.vm_start = v.pages P * P.PAGE_SIZE) (mapping : Nat)
    (vmas : List Vma) :
    gdrdrv_zap_vma P mapping v vmas = vmas.map fun w =>
      if w.vm_file = mapping then
        { w with ptes := w.ptes.filter fun p => !(v.vm_pgoff % handleEnd P ≤ w.pageOff P p &&
          w.pageOff P p < v.vm_pgoff % handleEnd P + v.pages P) }
      else w := by
  have hk : P.PAGE_SHIFT ≤ 16 := P.page_shift_le
  have hoff : u64 (v.vm_pgoff <<< P.PAGE_SHIFT) >>> P.PAGE_SHIFT = v.vm_pgoff % handleEnd P := by
    have h64 : handleEnd P * 2 ^ P.PAGE_SHIFT = 2 ^ 64 := by rw [handleEnd, ← pow_add, Nat.sub_add_cancel (by omega)]
    rw [Nat.shiftLeft_eq, u64, ← h64, Nat.mul_mod_mul_right, Nat.shiftRight_eq_div_pow,
      Nat.mul_div_cancel _ (Nat.two_pow_pos _)]
  have hlen : (v.vm_end - v.vm_start + P.PAGE_SIZE - 1) >>> P.PAGE_SHIFT = v.pages P := by
    rw [hsize, Nat.shiftRight_eq_div_pow]
    exact pages_of_mul P _
  unfold gdrdrv_zap_vma unmap_mapping_range
  rw [hoff, hlen]

/-- A zap removes the translations of the page offsets of `v`, in every VMA of that file. -/
theorem zap_eq {v : Vma} (h : v.Shaped P) (mapping : Nat) (vmas : List Vma) :
    gdrdrv_zap_vma P mapping v vmas = vmas.map fun w =>
      if w.vm_file = mapping then
        { w with ptes := w.ptes.filter fun p => !(v.vm_pgoff ≤ w.pageOff P p && w.pageOff P p < v.vm_pgoff + v.pages P) }
      else w := by
  rw [zap_wraps h.size, Nat.mod_eq_of_lt h.vm_pgoff]

/-- The zapped VMA has no translations left. -/
theorem zap_clears {v : Vma} {vmas : List Vma} {n : Nat} (h : VmasOk P vmas n) (hv : v ∈ vmas) {w : Vma}
    (hw : w ∈ gdrdrv_zap_vma P v.vm_file v vmas) (hid : w.id = v.id) : w.ptes = [] := by
  rw [zap_eq (h.shaped hv)] at hw
  obtain ⟨w0, hw0, rfl⟩ := List.mem_map.1 hw
  have he : w0 = v := h.inj _ hw0 _ hv (by rw [← hid]; split <;> rfl)
  subst he
  rw [if_pos rfl]
  refine List.filter_eq_nil_iff.2 fun p hp => ?_
  have := (h.shaped hv).pageOff hp
  simp [this.1, this.2]

end

end gdrdrv
