import GdrCopy.Driver.Refine
/-!
# Stale mappings

No VMA may translate to a page table that its mr has given up. The driver zaps
through `mr->vma` when `mr->cpu_mapping_type` says that the mr is mapped, so this
holds as long as these two fields track the VMAs. A second `mmap` of a mapped mr
clears them in the shared error exit, and so can closing the VMA of an mr that is
no longer the one its page offset finds: `Tracked` is the condition that neither
happens.
-/

namespace gdrdrv

section
variable {P : Platform}

/-! ## The invariant -/

/-- Every translation comes from a page table that a listed mr still holds. -/
def NoStale (s : Kernel) : Prop :=
  ∀ v ∈ s.vmas, ∀ p ∈ v.ptes, ∃ f info mr pt, s.files f = some info ∧ mr ∈ info.mr_list ∧ mr.page_table = some pt ∧
    mr.cb_flag = false ∧ pt.id = p.table

/-- The mr that a translation in `v` to page table `table` belongs to. -/
structure Owner (s : Kernel) (v : Vma) (table : Nat) (info : Info) (mr : Mr) : Prop where
  file : s.files v.vm_file = some info
  listed : mr ∈ info.mr_list
  mapped : gdr_mr_is_mapped mr = true
  vma : mr.vma = some v.id
  table : ∃ pt, mr.page_table = some pt ∧ pt.id = table

/-- `mr->vma` and `mr->cpu_mapping_type` track the VMAs. -/
structure Tracks (s : Kernel) : Prop where
  vma : ∀ {f info m v}, s.files f = some info → m ∈ info.mr_list → m.vma = some v →
    m.mapping = some f ∧ ∃ w ∈ s.vmas, w.id = v ∧ w.vm_file = f
  owned : ∀ v ∈ s.vmas, ∀ p ∈ v.ptes, ∃ info mr, Owner s v p.table info mr

theorem Tracks.noStale {s : Kernel} (h : Tracks s) (hwf : Wf P s) : NoStale s := by
  intro v hv p hp
  obtain ⟨info, mr, o⟩ := h.owned v hv p hp
  obtain ⟨pt, hpt, ht⟩ := o.table
  refine ⟨v.vm_file, info, mr, pt, o.file, o.listed, hpt, ?_, ht⟩
  rw [(hwf.files.mr o.file o.listed).cb_flag, hpt]; rfl

/-- The events that keep the fields right: a refused `mmap` did not clear them, and a
VMA that goes away was tracked by the mr it leads to, or by none. -/
def Event.Keeps : Event → Prop
  | .refused _ mr => gdr_mr_is_mapped mr = false
  | .closed vma (some (info, mr)) =>
    (gdr_mr_is_mapped mr = true → mr.vma = some vma.id) ∧ ∀ m ∈ info.mr_list, m.vma = some vma.id → m = mr
  | _ => True

/-- An owner stays one where it is still on the list of its file. -/
theorem Owner.follow {s s' : Kernel} {v w : Vma} {table : Nat} {info info' : Info} {mr : Mr}
    (o : Owner s v table info mr) (hid : w.id = v.id) (hvf : w.vm_file = v.vm_file)
    (hf : s'.files v.vm_file = some info') (hm : mr ∈ info'.mr_list) :
    Owner s' w table info' mr where
  file := by rw [hvf]; exact hf
  listed := hm
  mapped := o.mapped
  vma := by rw [hid]; exact o.vma
  table := o.table

/-- An owner stays one while file `f` gets a list that it is still on. -/
theorem Owner.update {s s' : Kernel} {f : Nat} {x : Option Info} {info : Info} {mr : Mr} {v w : Vma} {table : Nat}
    (o : Owner s v table info mr) (hid : w.id = v.id) (hvf : w.vm_file = v.vm_file)
    (hfiles : s'.files = Function.update s.files f x)
    (hx : f = v.vm_file → s.files f = some info → ∃ info', x = some info' ∧ mr ∈ info'.mr_list) :
    ∃ info' mr1, Owner s' w table info' mr1 := by
  by_cases he : v.vm_file = f
  · obtain ⟨info', rfl, hm⟩ := hx he.symm (he ▸ o.file)
    exact ⟨info', mr, o.follow hid hvf (by rw [hfiles, he, Function.update_self]) hm⟩
  · exact ⟨info, mr, o.follow hid hvf (by rw [hfiles, Function.update_of_ne he]; exact o.file) o.listed⟩

/-- An owner stays one while its mr is not the one replaced. -/
theorem Owner.put {s s' : Kernel} {f : Nat} {info0 info : Info} {mr mr' : Mr} {v w : Vma} {table : Nat}
    (o : Owner s v table info mr) (hf : s.files f = some info0) (hid : w.id = v.id) (hvf : w.vm_file = v.vm_file)
    (hfiles : s'.files = Function.update s.files f (some (info0.put mr')))
    (hne : f = v.vm_file → mr.ptr ≠ mr'.ptr) : ∃ info' mr1, Owner s' w table info' mr1 := by
  refine o.update hid hvf hfiles fun he hf' => ⟨_, rfl, ?_⟩
  obtain rfl : info0 = info := Option.some.inj (hf.symm.trans hf')
  exact put_mem_other o.listed (hne he)

/-- `Tracks.vma` after file `f` gets another list: the mrs on it are old ones, or point to a VMA. -/
theorem Tracks.update_vma {s s' : Kernel} {f : Nat} {x : Option Info} (h : Tracks s)
    (hfiles : s'.files = Function.update s.files f x)
    (hkeep : ∀ w ∈ s.vmas, ∃ w' ∈ s'.vmas, w'.id = w.id ∧ w'.vm_file = w.vm_file)
    (hx : ∀ info', x = some info' → ∀ m ∈ info'.mr_list, (∃ info, s.files f = some info ∧ m ∈ info.mr_list) ∨
      ∀ v, m.vma = some v → m.mapping = some f ∧ ∃ w ∈ s'.vmas, w.id = v ∧ w.vm_file = f) :
    ∀ {g i m v}, s'.files g = some i → m ∈ i.mr_list → m.vma = some v →
      m.mapping = some g ∧ ∃ w ∈ s'.vmas, w.id = v ∧ w.vm_file = g := by
  intro g i m v hg hm hv
  have old : ∀ {j}, s.files g = some j → m ∈ j.mr_list →
      m.mapping = some g ∧ ∃ w ∈ s'.vmas, w.id = v ∧ w.vm_file = g := by
    intro j hj hmj
    obtain ⟨h1, w, hw, h2, h3⟩ := h.vma hj hmj hv
    obtain ⟨w', hw', h4, h5⟩ := hkeep w hw
    exact ⟨h1, w', hw', h4.trans h2, h5.trans h3⟩
  rw [hfiles] at hg
  rcases get_update hg with ⟨rfl, hi⟩ | ⟨-, hg⟩
  · rcases hx i hi m hm with ⟨info, hf, hm⟩ | hnew
    · exact old hf hm
    · exact hnew v hv
  · exact old hg hm

/-- `Tracks.vma` after `mr'` is put in its place on the list. -/
theorem Tracks.put_vma {s s' : Kernel} {f : Nat} {info : Info} {mr' : Mr} (h : Tracks s) (hf : s.files f = some info)
    (hfiles : s'.files = Function.update s.files f (some (info.put mr')))
    (hkeep : ∀ w ∈ s.vmas, ∃ w' ∈ s'.vmas, w'.id = w.id ∧ w'.vm_file = w.vm_file)
    (hmr : ∀ v, mr'.vma = some v → mr'.mapping = some f ∧ ∃ w ∈ s'.vmas, w.id = v ∧ w.vm_file = f) :
    ∀ {g i m v}, s'.files g = some i → m ∈ i.mr_list → m.vma = some v →
      m.mapping = some g ∧ ∃ w ∈ s'.vmas, w.id = v ∧ w.vm_file = g := by
  refine h.update_vma hfiles hkeep fun info' hi m hm => ?_
  cases hi
  rcases mem_put hm with ⟨rfl, -⟩ | ⟨hm, -⟩
  · exact .inr hmr
  · exact .inl ⟨info, hf, hm⟩

/-- Another mr than `mr` has another address. -/
theorem Owner.ptr_ne {s : Kernel} {f : Nat} {v : Vma} {table : Nat} {info info' : Info} {mr mr' : Mr} (hwf : Wf P s)
    (o : Owner s v table info mr) (hf : s.files f = some info') (hm : mr' ∈ info'.mr_list) (hne : mr ≠ mr') :
    mr.ptr ≠ mr'.ptr := fun he => hne (hwf.files.ptr_inj o.file hf o.listed hm he).2

/-- No translation is left that belongs to a zapped mr. -/
theorem Tracks.zap {s : Kernel} {mr mr' : Mr} {vmas' : List Vma} (h : Tracks s) (hwf : Wf P s)
    (hz : zapIfMapped P mr s.vmas = .ok (mr', vmas')) :
    ∀ w ∈ vmas', ∀ p ∈ w.ptes, ∃ v ∈ s.vmas, w.id = v.id ∧ w.vm_file = v.vm_file ∧
      ∃ info1 mr1, Owner s v p.table info1 mr1 ∧ mr1 ≠ mr := by
  intro w hw p hp
  obtain ⟨v, hv, ptes, rfl, hsub⟩ := (zapIfMapped_pruned hz).mem hw
  obtain ⟨info1, mr1, o⟩ := h.owned v hv p (hsub hp)
  refine ⟨v, hv, rfl, rfl, info1, mr1, o, ?_⟩
  rintro rfl
  obtain ⟨-, ⟨hn, -⟩ | ⟨-, m, u, hmap, hu, hmem, rfl⟩⟩ := zapIfMapped_cases hz
  · rcases hn with hn | hn
    · rw [o.mapped] at hn; cases hn
    · rw [o.vma] at hn; cases hn
  · rw [o.vma] at hu
    obtain rfl : v = u := hwf.vmas.inj v hv u hmem (Option.some.inj hu)
    have hmap' := (h.vma o.file o.listed o.vma).1
    rw [hmap] at hmap'
    cases hmap'
    have := zap_clears hwf.vmas hv hw rfl
    dsimp only at this
    rw [this] at hp
    cases hp

theorem pruned_keep {vmas vmas' : List Vma} (hp : Pruned vmas vmas') :
    ∀ w ∈ vmas, ∃ w' ∈ vmas', w'.id = w.id ∧ w'.vm_file = w.vm_file := by
  obtain ⟨keep, rfl⟩ := hp
  exact fun w hw => ⟨_, List.mem_map.2 ⟨w, hw, rfl⟩, rfl, rfl⟩

/-- The translations in other files, and those of other mrs, keep their owner. -/
theorem Tracks.owned_put {s s' : Kernel} {f : Nat} {info : Info} {mr mr' : Mr} (hwf : Wf P s)
    (hf : s.files f = some info) (hfiles : s'.files = Function.update s.files f (some (info.put mr')))
    (hm : mr ∈ info.mr_list) (hptr : mr'.ptr = mr.ptr)
    (hown : ∀ w ∈ s'.vmas, ∀ p ∈ w.ptes, ∃ v ∈ s.vmas, w.id = v.id ∧ w.vm_file = v.vm_file ∧
      ∃ info1 mr1, Owner s v p.table info1 mr1 ∧ mr1 ≠ mr) :
    ∀ w ∈ s'.vmas, ∀ p ∈ w.ptes, ∃ info mr, Owner s' w p.table info mr := by
  intro w hw p hp
  obtain ⟨v, -, hid, hvf, info1, mr1, o, hne⟩ := hown w hw p hp
  exact o.put hf hid hvf hfiles fun _ => hptr ▸ o.ptr_ne hwf hf hm hne

/-- Without a zap, an mr that is not mapped owns nothing. -/
theorem Tracks.owned_unmapped {s : Kernel} {mr : Mr} (h : Tracks s) (hn : gdr_mr_is_mapped mr = false) :
    ∀ w ∈ s.vmas, ∀ p ∈ w.ptes, ∃ v ∈ s.vmas, w.id = v.id ∧ w.vm_file = v.vm_file ∧
      ∃ info1 mr1, Owner s v p.table info1 mr1 ∧ mr1 ≠ mr := by
  intro w hw p hp
  obtain ⟨info1, mr1, o⟩ := h.owned w hw p hp
  refine ⟨w, hw, rfl, rfl, info1, mr1, o, ?_⟩
  rintro rfl
  rw [o.mapped] at hn; cases hn

theorem vmas_keep {s s' : Kernel} (hvmas : s'.vmas = s.vmas) :
    ∀ w ∈ s.vmas, ∃ w' ∈ s'.vmas, w'.id = w.id ∧ w'.vm_file = w.vm_file := by
  intro w hw
  rw [hvmas]
  exact ⟨w, hw, rfl, rfl⟩

/-! ### One event -/

theorem Tracks.quiet {s s' : Kernel} (h : Tracks s) (hfiles : s'.files = s.files) (hvmas : s'.vmas = s.vmas) :
    Tracks s' := by
  refine ⟨?_, fun v hv p hp => ?_⟩
  · rw [hvmas, hfiles]
    exact h.vma
  · rw [hvmas] at hv
    obtain ⟨info, mr, o⟩ := h.owned v hv p hp
    exact ⟨info, mr, o.follow rfl rfl (by rw [hfiles]; exact o.file) o.listed⟩

theorem Tracks.opened {s s' : Kernel} {cur : Nat} (hwf : Wf P s) (h : Tracks s)
    (hfiles : s'.files = Function.update s.files s.fresh (some ⟨[], cur, 0, false⟩))
    (hvmas : s'.vmas = s.vmas) : Tracks s' := by
  refine ⟨h.update_vma hfiles (vmas_keep hvmas) fun info' hi m hm => ?_, fun v hv p hp => ?_⟩
  · cases hi
    cases hm
  · rw [hvmas] at hv
    obtain ⟨info, mr, o⟩ := h.owned v hv p hp
    exact o.update rfl rfl hfiles fun he => absurd he.symm (Nat.ne_of_lt (hwf.vmas.vm_file hv))

theorem Tracks.linked {s s' : Kernel} {f : Nat} {info info' : Info} {mr : Mr} {pt : PageTable} (hwf : Wf P s)
    (h : Tracks s) (hf : s.files f = some info)
    (hg : gdr_generate_mr_handle P info mr.mapped_size = some (mr.handle, info')) (hnew : mr.New s.fresh pt)
    (hfiles : s'.files = Function.update s.files f (some (info'.list_add mr))) (hvmas : s'.vmas = s.vmas) :
    Tracks s' := by
  have hl : (info'.list_add mr).mr_list = mr :: info.mr_list :=
    congrArg (mr :: ·) (generate_spec hnew.mapped_size (fun ho => ((hwf.files.spaced hf).next ho).1) hg).2.2.1
  refine ⟨h.update_vma hfiles (vmas_keep hvmas) fun i hi m hm => ?_, fun v hv p hp => ?_⟩
  · cases hi
    rw [hl] at hm
    rcases List.mem_cons.1 hm with rfl | hm
    · exact .inr fun v hv => by rw [hnew.vma] at hv; cases hv
    · exact .inl ⟨info, hf, hm⟩
  · rw [hvmas] at hv
    obtain ⟨info1, mr1, o⟩ := h.owned v hv p hp
    refine o.update rfl rfl hfiles fun _ hf' => ⟨_, rfl, ?_⟩
    obtain rfl : info = info1 := Option.some.inj (hf.symm.trans hf')
    rw [hl]
    exact List.mem_cons_of_mem _ o.listed

theorem Tracks.unlinked {s s' : Kernel} {f : Nat} {info : Info} {mr mr' : Mr} (hwf : Wf P s) (h : Tracks s)
    (hf : s.files f = some info) (hm : mr ∈ info.mr_list) (hz : zapIfMapped P mr s.vmas = .ok (mr', s'.vmas))
    (hfiles : s'.files = Function.update s.files f (some (info.list_del mr))) : Tracks s' := by
  refine ⟨h.update_vma hfiles (pruned_keep (zapIfMapped_pruned hz)) fun i hi m hm => ?_, fun w hw p hp => ?_⟩
  · cases hi
    exact .inl ⟨info, hf, (mem_list_del.1 hm).1⟩
  · obtain ⟨v, -, hid, hvf, info1, mr1, o, hne⟩ := h.zap hwf hz w hw p hp
    refine o.update hid hvf hfiles fun _ hf' => ⟨_, rfl, ?_⟩
    obtain rfl : info = info1 := Option.some.inj (hf.symm.trans hf')
    exact mem_list_del.2 ⟨o.listed, o.ptr_ne hwf hf hm hne⟩

theorem Tracks.requested {s s' : Kernel} {f : Nat} {info : Info} {mr : Mr} {t : MrType} (hwf : Wf P s) (h : Tracks s)
    (hf : s.files f = some info) (hm : mr ∈ info.mr_list)
    (hfiles : s'.files = Function.update s.files f (some (info.put { mr with req_mapping_type := t })))
    (hvmas : s'.vmas = s.vmas) : Tracks s' := by
  refine ⟨h.put_vma hf hfiles (vmas_keep hvmas) fun v hv => ?_, fun w hw p hp => ?_⟩
  · rw [hvmas]
    exact h.vma (m := mr) hf hm hv
  rw [hvmas] at hw
  obtain ⟨info1, mr1, o⟩ := h.owned w hw p hp
  by_cases hmr : mr1 = mr
  · subst hmr
    have hwf' : f = w.vm_file := (hwf.files.ptr_inj hf o.file hm o.listed rfl).1
    exact ⟨_, { mr1 with req_mapping_type := t }, by rw [hfiles, ← hwf', Function.update_self], put_mem hm rfl,
      o.mapped, o.vma, o.table⟩
  · have hne : mr1.ptr ≠ mr.ptr := o.ptr_ne hwf hf hm hmr
    exact o.put hf rfl rfl hfiles fun _ => hne

theorem Tracks.refused {s s' : Kernel} {f : Nat} {info : Info} {mr : Mr} (hwf : Wf P s) (h : Tracks s)
    (hn : gdr_mr_is_mapped mr = false) (hf : s.files f = some info) (hm : mr ∈ info.mr_list)
    (hfiles : s'.files = Function.update s.files f (some (info.put (mmapFail mr)))) (hvmas : s'.vmas = s.vmas) :
    Tracks s' := by
  refine ⟨h.put_vma hf hfiles (vmas_keep hvmas) fun v hv => ?_, Tracks.owned_put hwf hf hfiles hm rfl ?_⟩
  · cases hv
  · rw [hvmas]
    exact h.owned_unmapped hn

theorem Tracks.mapped {s s' : Kernel} {f : Nat} {info : Info} {mr : Mr} {pt : PageTable} {vma : Vma}
    {t : MrType} (hwf : Wf P s) (h : Tracks s) (hf : s.files f = some info) (hm : mr ∈ info.mr_list)
    (hn : gdr_mr_is_mapped mr = false) (hpt : mr.page_table = some pt) (ht : t ≠ .NONE) (hnew : vma.New P s.fresh f pt)
    (hfiles : s'.files = Function.update s.files f
      (some (info.put { mr with vma := some vma.id, mapping := some f, cpu_mapping_type := t })))
    (hvmas : s'.vmas = vma :: s.vmas) : Tracks s' := by
  refine ⟨h.put_vma hf hfiles (fun w hw => ?_) (fun v hv => ?_), fun w hw p hp => ?_⟩
  · rw [hvmas]
    exact ⟨w, List.mem_cons_of_mem _ hw, rfl, rfl⟩
  · cases hv
    rw [hvmas]
    exact ⟨rfl, vma, List.mem_cons_self, rfl, hnew.vm_file⟩
  rw [hvmas] at hw
  rcases List.mem_cons.1 hw with rfl | hw
  · refine ⟨_, { mr with vma := some w.id, mapping := some f, cpu_mapping_type := t },
      by rw [hfiles, hnew.vm_file, Function.update_self], put_mem hm rfl, ?_, rfl, pt, hpt, (hnew.ptes p hp).1.symm⟩
    simpa [gdr_mr_is_mapped] using ht
  · obtain ⟨v, -, hid, hvf, info1, mr1, o, hne⟩ := h.owned_unmapped hn w hw p hp
    have hne' : mr1.ptr ≠ mr.ptr := o.ptr_ne hwf hf hm hne
    exact o.put hf hid hvf hfiles fun _ => hne'

/-- An mr that does not point to the VMA that goes away still points to one. -/
theorem Tracks.vma_closed {s s' : Kernel} {vma : Vma} (hwf : Wf P s) (h : Tracks s) (hv : vma ∈ s.vmas)
    (hvmas : s'.vmas = s.vmas.filter fun v => v.id ≠ vma.id) {g v : Nat} {i : Info} {m : Mr} (hg : s.files g = some i)
    (hm : m ∈ i.mr_list) (hmv : m.vma = some v) (hne : g = vma.vm_file → m.vma ≠ some vma.id) :
    m.mapping = some g ∧ ∃ w ∈ s'.vmas, w.id = v ∧ w.vm_file = g := by
  obtain ⟨h1, w, hw, h2, h3⟩ := h.vma hg hm hmv
  have hid : w.id ≠ vma.id := by
    intro he
    have hwv := hwf.vmas.inj w hw vma hv he
    subst hwv
    exact hne h3.symm (by rw [hmv, h2])
  refine ⟨h1, w, ?_, h2, h3⟩
  rw [hvmas]
  exact List.mem_filter.2 ⟨hw, by simpa using hid⟩

/-- The page offset of the VMA leads to no mr, so none of its file points to it. -/
theorem Tracks.closed_none {s s' : Kernel} {vma : Vma} (hwf : Wf P s) (h : Tracks s) (hv : vma ∈ s.vmas)
    (hl : s.lookup vma.vm_file vma.vm_pgoff = none) (hfiles : s'.files = s.files)
    (hvmas : s'.vmas = s.vmas.filter fun v => v.id ≠ vma.id) : Tracks s' := by
  have hnil : ∀ {i m}, s.files vma.vm_file = some i → m ∈ i.mr_list → False := by
    intro i m hi hm
    unfold Kernel.lookup at hl
    rw [hi] at hl
    rw [search_none (Option.map_eq_none_iff.1 hl)] at hm
    cases hm
  refine ⟨fun {g i m v} hg hm hmv => ?_, fun w hw p hp => ?_⟩
  · rw [hfiles] at hg
    exact h.vma_closed hwf hv hvmas hg hm hmv fun he => (hnil (he ▸ hg) hm).elim
  · rw [hvmas] at hw
    obtain ⟨info1, mr1, o⟩ := h.owned w (List.mem_filter.1 hw).1 p hp
    exact ⟨info1, mr1, o.follow rfl rfl (by rw [hfiles]; exact o.file) o.listed⟩

theorem Tracks.closed_some {s s' : Kernel} {vma : Vma} {info : Info} {mr : Mr} (hwf : Wf P s) (h : Tracks s)
    (hv : vma ∈ s.vmas) (hk : (Event.closed vma (some (info, mr))).Keeps) (hf : s.files vma.vm_file = some info)
    (hm : mr ∈ info.mr_list) (hfiles : s'.files = Function.update s.files vma.vm_file (some (info.put (closeMr mr))))
    (hvmas : s'.vmas = s.vmas.filter fun v => v.id ≠ vma.id) : Tracks s' := by
  refine ⟨fun {g i m v} hg hmm hmv => ?_, Tracks.owned_put hwf hf hfiles hm rfl fun w hw p hp => ?_⟩
  · rw [hfiles] at hg
    rcases get_update hg with ⟨rfl, hi⟩ | ⟨hg', hg⟩
    · cases hi
      rcases mem_put hmm with ⟨rfl, -⟩ | ⟨hmm, hne⟩
      · cases hmv
      · exact h.vma_closed hwf hv hvmas hf hmm hmv fun _ he => hne (by rw [hk.2 m hmm he]; rfl)
    · exact h.vma_closed hwf hv hvmas hg hmm hmv fun he => absurd he hg'
  · rw [hvmas] at hw
    obtain ⟨hw, hwne⟩ := List.mem_filter.1 hw
    obtain ⟨info1, mr1, o⟩ := h.owned w hw p hp
    refine ⟨w, hw, rfl, rfl, info1, mr1, o, ?_⟩
    -- what the mr tracks is the VMA that goes away
    rintro rfl
    have hid := hk.1 o.mapped
    rw [o.vma] at hid
    exact absurd (Option.some.inj hid) (by simpa using hwne)

theorem Tracks.invalidated {s s' : Kernel} {f : Nat} {info : Info} {mr mr' : Mr} (hwf : Wf P s) (h : Tracks s)
    (hf : s.files f = some info) (hm : mr ∈ info.mr_list)
    (hz : (if mr.page_table.isSome then zapIfMapped P mr s.vmas else .ok (mr, s.vmas)) = .ok (mr', s'.vmas))
    (hfiles : s'.files = Function.update s.files f (some (info.put (invalid mr)))) : Tracks s' := by
  by_cases hpt : mr.page_table.isSome
  · rw [if_pos hpt] at hz
    have hkeep := pruned_keep (zapIfMapped_pruned hz)
    refine ⟨h.put_vma hf hfiles hkeep fun v hv => ?_, Tracks.owned_put hwf hf hfiles hm rfl (h.zap hwf hz)⟩
    obtain ⟨h1, w, hw, h2, h3⟩ := h.vma (m := mr) hf hm hv
    obtain ⟨w', hw', h4, h5⟩ := hkeep w hw
    exact ⟨h1, w', hw', h4.trans h2, h5.trans h3⟩
  · rw [if_neg hpt] at hz
    have hvmas : s'.vmas = s.vmas := (Prod.mk.inj (Except.ok.inj hz)).2.symm
    -- an mr without page table is not mapped
    have hn : gdr_mr_is_mapped mr = false := by
      by_contra hc
      exact hpt ((hwf.files.mr hf hm).mapped (by simpa using hc))
    refine ⟨h.put_vma hf hfiles (vmas_keep hvmas) fun v hv => ?_, Tracks.owned_put hwf hf hfiles hm rfl ?_⟩
    · rw [hvmas]
      exact h.vma (m := mr) hf hm hv
    · rw [hvmas]
      exact h.owned_unmapped hn

theorem Tracks.shut {s s' : Kernel} {f : Nat} {info : Info} (h : Tracks s) (hf : s.files f = some info)
    (hl : info.mr_list = []) (hfiles : s'.files = Function.update s.files f none) (hvmas : s'.vmas = s.vmas) :
    Tracks s' := by
  refine ⟨h.update_vma hfiles (vmas_keep hvmas) fun info' hi => ?_, fun v hv p hp => ?_⟩
  · cases hi
  · rw [hvmas] at hv
    obtain ⟨info1, mr1, o⟩ := h.owned v hv p hp
    refine o.update rfl rfl hfiles fun _ hf' => ?_
    -- an owner is listed, but the list is empty
    obtain rfl : info = info1 := Option.some.inj (hf.symm.trans hf')
    have hlisted := o.listed
    rw [hl] at hlisted
    cases hlisted

/-- Every event that keeps the fields right keeps the VMAs tracked. -/
theorem Does.tracks {s s' : Kernel} {e : Event} (hwf : Wf P s) (h : Tracks s) (hk : e.Keeps) (hd : Does P s e s') :
    Tracks s' := by
  cases hd with
  | quiet hfiles hvmas _ => exact h.quiet hfiles hvmas
  | opened hfiles hvmas _ => exact h.opened hwf hfiles hvmas
  | linked hf hg hnew hfiles hvmas _ => exact h.linked hwf hf hg hnew hfiles hvmas
  | unlinked hf hm hz hfiles _ => exact h.unlinked hwf hf hm hz hfiles
  | requested hf hm hfiles hvmas _ => exact h.requested hwf hf hm hfiles hvmas
  | refused hf hm hfiles hvmas _ => exact h.refused hwf hk hf hm hfiles hvmas
  | mapped hf hm hn _ hpt ht hnew hfiles hvmas _ => exact h.mapped hwf hf hm hn hpt ht hnew hfiles hvmas
  | closed hv hfiles hvmas hfresh =>
    rename_i vma
    cases hl : s.lookup vma.vm_file vma.vm_pgoff with
    | none =>
      rw [hl] at hfiles
      exact h.closed_none hwf hv hl hfiles hvmas
    | some r =>
      rw [hl] at hfiles hk
      obtain ⟨hf, hm, -⟩ := search_listed hl
      exact h.closed_some hwf hv hk hf hm hfiles hvmas
  | invalidated hf hm hz hfiles _ => exact h.invalidated hwf hf hm hz hfiles
  | shut hf hl hfiles hvmas _ => exact h.shut hf hl hfiles hvmas

theorem EventRun.tracks {s : Kernel} {es : List Event} (h : EventRun P Event.Keeps s es) : Tracks s := by
  refine Runs.Run.inv_of (Wf P) Tracks (fun s es hr => EventRun.wf hr) ?_
    (fun s e s' hwf hi hd => hd.2.tracks hwf hi hd.1) h
  rintro s rfl
  exact ⟨nofun, nofun⟩

/-! ## The condition on operations -/

variable (P) in
/-- `o` does not make the driver lose track of a VMA: an `mmap` that passes the
process check finds an mr that is not marked mapped, and a VMA that is unmapped is
the one of the mr its page offset finds, and of no other mr of the file. -/
def tracked (s : Kernel) : Op → Bool
  | .mmap f cur start len off _ =>
    match mmapRegion P s f start len off, s.files f with
    | .ok vma, some info =>
      !gdrdrv_check_same_process info cur ||
        (match gdr_mr_from_handle_unlocked info vma.vm_pgoff with
        | none => true
        | some mr => !gdr_mr_is_mapped mr)
    | _, _ => true
  | .munmap v =>
    match s.vmas.find? (·.id = v) with
    | none => true
    | some vma =>
      match s.lookup vma.vm_file vma.vm_pgoff with
      | none => true
      | some (info, mr) =>
        (!gdr_mr_is_mapped mr || mr.vma = some v) && info.mr_list.all fun m => m.vma ≠ some v ∨ m = mr
  | _ => true

theorem tracked_keeps {s : Kernel} {o : Op} (hwf : Wf P s) (ht : tracked P s o = true) {e : Event} (he : e.Of P s o) :
    e.Keeps := by
  cases e with
  | refused f mr =>
    obtain ⟨vma, cur, start, len, off, env, info, rfl, hreg, hf, hsame, hs⟩ := he
    simpa [Event.Keeps, tracked, hreg, hf, hsame, hs] using ht
  | closed vma found =>
    obtain ⟨rfl, hv, rfl⟩ := he
    obtain ⟨w, hw⟩ : ∃ w, s.vmas.find? (·.id = vma.id) = some w :=
      Option.isSome_iff_exists.1 (by simpa using ⟨vma, hv, rfl⟩)
    have hid : w.id = vma.id := by simpa using List.find?_some hw
    obtain rfl := hwf.vmas.inj w (List.mem_of_find?_eq_some hw) vma hv hid
    simp only [tracked, hw] at ht
    cases hl : s.lookup w.vm_file w.vm_pgoff with
    | none => trivial
    | some r =>
      obtain ⟨info, mr⟩ := r
      rw [hl] at ht
      simp only [Bool.and_eq_true, Bool.or_eq_true, Bool.not_eq_true', decide_eq_true_eq, List.all_eq_true] at ht
      refine ⟨fun hm => ?_, fun m hm hmv => ?_⟩
      · rcases ht.1 with h | h
        · rw [hm] at h; cases h
        · exact h
      · exact (ht.2 m hm).resolve_left (by simp [hmv])
  | _ => trivial

/-- `o` takes the page table away from `mr`, which is on the list of file `f`. -/
def Op.Ends (o : Op) (f : Nat) (info : Info) (mr : Mr) : Prop :=
  match o with
  | .callback g ptr => g = f ∧ ptr = mr.ptr
  | .ioctl g cur (.unpin_buffer cfu _ handle) =>
    g = f ∧ cfu = true ∧ gdrdrv_check_same_process info cur = true ∧ gdr_mr_from_handle_unlocked info handle = some mr
  | .release g _ => g = f
  | _ => False

theorem Op.Ends.tracked {s : Kernel} {o : Op} {f : Nat} {info : Info} {mr : Mr} (h : o.Ends f info mr) :
    tracked P s o = true := by
  unfold Op.Ends at h
  split at h
  · rfl
  · rfl
  · rfl
  · cases h

/-- After such an operation no mr at that address holds a page table. -/
theorem ends_gone {s s' : Kernel} {o : Op} {f : Nat} {info : Info} {mr : Mr} (hwf : Wf P s) (hf : s.files f = some info)
    (hm : mr ∈ info.mr_list) (he : o.Ends f info mr) (h : step P s o s') :
    (∀ g, g ≠ f → s'.files g = s.files g) ∧
      ∀ i, s'.files f = some i → ∀ m ∈ i.mr_list, m.ptr = mr.ptr → m.page_table = none := by
  obtain ⟨r, h⟩ := h
  cases h with
  | openFile => cases he
  | mmap h => cases he
  | munmap hv => cases he
  | callback hnp hg hm1 hc =>
    rename_i f1 info1 mr1
    obtain ⟨rfl, hptr⟩ := he
    obtain rfl : info1 = info := Option.some.inj (hg.symm.trans hf)
    obtain rfl := (hwf.files.ptr_inj hf hf hm1 hm hptr).2
    cases callback_path hf hm hc with
    | invalidated hf' _ _ hfiles _ =>
      obtain rfl := Option.some.inj (hf.symm.trans hf')
      refine ⟨fun g hg => by rw [hfiles, Function.update_of_ne hg], fun i hi m hmi hp => ?_⟩
      rw [hfiles, Function.update_self] at hi
      cases hi
      -- The callback has taken the page table of this mr, and no other has its address.
      rcases mem_put hmi with ⟨rfl, -⟩ | ⟨-, hne⟩
      · rfl
      · exact absurd hp hne
  | ioctl h =>
    rename_i g cur cmd
    cases cmd with
    | unpin_buffer cfu env handle =>
      obtain ⟨rfl, rfl, hsame, hs⟩ := he
      simp only [gdrdrv_ioctl, hf, hsame, Bool.not_true, Bool.false_eq_true, if_false, ioctlSwitch,
        gdrdrv_unpin_buffer] at h
      generalize hu : __gdrdrv_unpin_buffer P env s g info handle = u at h
      cases u with
      | error e => cases h
      | ok u =>
        obtain ⟨ret, s1⟩ := u
        obtain ⟨-, rfl⟩ := Prod.mk.inj (Except.ok.inj h)
        rcases unpin_cases hf hu with ⟨hn, -, -⟩ | ⟨-, mr1, hs1, hd⟩
        · rw [hs] at hn; cases hn
        · obtain rfl := Option.some.inj (hs.symm.trans hs1)
          cases hd with
          | unlinked hf' _ _ hfiles _ =>
            obtain rfl := Option.some.inj (hf.symm.trans hf')
            refine ⟨fun g hg => by rw [hfiles, Function.update_of_ne hg], fun i hi m hmi hp => ?_⟩
            rw [hfiles, Function.update_self] at hi
            cases hi
            exact absurd hp (mem_list_del.1 hmi).2
    | _ => cases he
  | release h =>
    rename_i g env
    obtain rfl : g = f := he
    unfold gdrdrv_release at h
    rw [hf] at h
    dsimp only at h
    -- The file is closed, so none of its mrs is listed.
    generalize releaseLoop P env info.mr_list s.vmas s.gdrdrv_nv_get_pages_refcount = l at h
    cases l with
    | error e => cases h
    | ok l =>
      obtain ⟨vmas', n'⟩ := l
      obtain ⟨-, rfl⟩ := Prod.mk.inj (Except.ok.inj h)
      refine ⟨fun g hg => Function.update_of_ne hg _ _, fun i hi => ?_⟩
      simp only [Kernel.setFile, Function.update_self] at hi
      cases hi

/-- In a run whose operations all are `tracked`, every translation comes from a page
table that a listed mr holds. Once the callback, the unpin or the release of an mr
has finished, no VMA translates to its page table. -/
theorem no_stale_mapping {s : Kernel} {os : List Op}
    (h : Runs.Run (· = init) (Runs.only (fun s o => tracked P s o = true) (step P)) s os) :
    NoStale s ∧ ∀ o s' f info mr pt, s.files f = some info → mr ∈ info.mr_list → mr.page_table = some pt →
      o.Ends f info mr → step P s o s' → ∀ v ∈ s'.vmas, ∀ p ∈ v.ptes, p.table ≠ pt.id := by
  have hok : ∀ s o, Wf P s → tracked P s o = true → ∀ e, Event.Of P s o e → e.Keeps :=
    fun s o hwf ht e he => tracked_keeps hwf ht he
  obtain ⟨es, he⟩ := run_events hok h
  refine ⟨he.tracks.noStale he.wf, fun o s' f info mr pt hf hm hpt hends hstep v hv p hp ht => ?_⟩
  obtain ⟨es', he'⟩ := run_events hok (h.next ⟨hends.tracked, hstep⟩)
  obtain ⟨hother, hgone⟩ := ends_gone he.wf hf hm hends hstep
  obtain ⟨g, i, m, pt', hg, hmi, hpt', -, hid⟩ := he'.tracks.noStale he'.wf v hv p hp
  have hptr : m.ptr = mr.ptr := by
    have h1 := (he'.wf.files.mr hg hmi).table pt' hpt'
    have h2 := (he.wf.files.mr hf hm).table pt hpt
    omega
  by_cases hgf : g = f
  · subst hgf
    rw [hgone i hg m hmi hptr] at hpt'
    cases hpt'
  · rw [hother g hgf] at hg
    exact hgf (he.wf.files.ptr_inj hg hf hmi hm hptr).1

end

/-- A buffer is pinned, mapped, and invalidated while it is mapped. -/
def mapThenFree : List Op :=
  [.openFile 0 7 true, pinOp 0 7 0x10000 0x20000 [0x30000, 0x50000], mmapOp 0 7 0x1000 0x20000 0, .callback 0 1]

theorem no_stale_mapping_map_then_free :
    ∃ s, execAll x86Host (tracked x86Host) init mapThenFree = some s ∧ s.vmas.length = 1 ∧ NoStale s := by
  obtain ⟨s, hs, hl⟩ : ∃ s, execAll x86Host (tracked x86Host) init mapThenFree = some s ∧ (s.vmas.length == 1) = true :=
    Option.any_eq_true _ _ |>.1 (by decide +kernel)
  exact ⟨s, hs, by simpa using hl, (no_stale_mapping (execAll_run hs)).1⟩

/-! ## A second mmap -/

/-- A listed mr of an open file holds page table `table`. -/
def Kernel.held (s : Kernel) (table : Nat) : Bool :=
  (List.range s.fresh).any fun f =>
    match s.files f with
    | none => false
    | some info => info.mr_list.any fun mr => mr.page_table.any (fun pt => pt.id == table) && !mr.cb_flag

theorem not_noStale {P : Platform} {s : Kernel} (hwf : Wf P s)
    (h : (s.vmas.any fun v => v.ptes.any fun p => !s.held p.table) = true) : ¬ NoStale s := by
  intro hn
  obtain ⟨v, hv, h⟩ := List.any_eq_true.1 h
  obtain ⟨p, hp, h⟩ := List.any_eq_true.1 h
  obtain ⟨f, info, mr, pt, hf, hm, hpt, hcb, hid⟩ := hn v hv p hp
  have : s.held p.table = true := by
    refine List.any_eq_true.2 ⟨f, List.mem_range.2 (hwf.files.file hf), ?_⟩
    rw [hf]
    exact List.any_eq_true.2 ⟨mr, hm, by simp [hpt, hcb, hid]⟩
  rw [this] at h
  cases h

/-- A mapped buffer is mapped again, which fails, and then invalidated. -/
def remapThenFree : List Op :=
  [.openFile 0 7 true, pinOp 0 7 0x10000 0x10000 [0x30000], mmapOp 0 7 0x1000 0x10000 0, mmapOp 0 7 0x2000 0x10000 0,
    .callback 0 1]

/-- After the refused `mmap` the callback does not zap, and the process keeps its translations. -/
theorem stale_after_second_mmap : ¬ ∀ P s os, Run P s os → NoStale s := by
  intro h
  obtain ⟨s, hs, hst⟩ : ∃ s, execAll x86Host (fun _ _ => true) init remapThenFree = some s ∧
      (s.vmas.any fun v => v.ptes.any fun p => !s.held p.table) = true :=
        Option.any_eq_true _ _ |>.1 (by decide +kernel)
  have hr : Run x86Host s remapThenFree := (execAll_run hs).of_only
  exact not_noStale (Reachable.wf ⟨_, hr⟩) hst (h _ _ _ hr)

end gdrdrv
