import GdrCopy.Driver.Refine
/-!
# Isolation of the zap

A zap works on page offsets, so it is harmless to other mrs only because their
VMAs lie elsewhere in the file. `Apart` is the invariant: a VMA starts at the
handle of its mr and stays in its range, or lies outside the range of every mr.
-/

namespace gdrdrv

section
variable {P : Platform}

/-- The events of runs whose mmaps name a live handle and whose page tables cover their mrs. -/
def Event.Live : Event → Prop
  | .linked _ mr => ∀ pt, mr.page_table = some pt → pt.entries = mr.mapped_size / GPU_PAGE_SIZE
  | .mapped _ mr vma => mr.handle = vma.vm_pgoff
  | _ => True

variable (P) in
/-- `v` is a mapping of `mr`, or outside its range. -/
def Vma.OnOff (v : Vma) (mr : Mr) : Prop :=
  (v.vm_pgoff = mr.handle ∧ v.pages P ≤ span P mr.mapped_size ∧ ∀ p ∈ v.ptes, p.table = mr.ptr + 1) ∨
    v.vm_pgoff + v.pages P ≤ mr.handle ∨ mr.stop P ≤ v.vm_pgoff

variable (P) in
structure Apart (s : Kernel) : Prop where
  next : ∀ {v info}, v ∈ s.vmas → s.files v.vm_file = some info → info.next_handle_overflow = false →
    v.vm_pgoff + v.pages P ≤ info.next_handle
  range : ∀ {v info mr}, v ∈ s.vmas → s.files v.vm_file = some info → mr ∈ info.mr_list → v.OnOff P mr
  own : ∀ {f info mr v}, s.files f = some info → mr ∈ info.mr_list → v ∈ s.vmas → mr.vma = some v.id →
    v.vm_file = f ∧ mr.mapping = some f ∧ v.vm_pgoff = mr.handle
  size : ∀ {f info mr pt}, s.files f = some info → mr ∈ info.mr_list → mr.page_table = some pt →
    pt.entries = mr.mapped_size / GPU_PAGE_SIZE

/-! ## Events that only take things away -/

/-- `mr` stands for `mr0`, with nothing new. -/
structure Mr.Within (mr mr0 : Mr) : Prop where
  ptr : mr.ptr = mr0.ptr
  handle : mr.handle = mr0.handle
  mapped_size : mr.mapped_size = mr0.mapped_size
  vma : ∀ v, mr.vma = some v → mr0.vma = some v ∧ mr.mapping = mr0.mapping
  page_table : ∀ pt, mr.page_table = some pt → mr0.page_table = some pt

theorem Mr.Within.refl (mr : Mr) : mr.Within mr := ⟨rfl, rfl, rfl, fun _ h => ⟨h, rfl⟩, fun _ h => h⟩

structure Info.Within (info info0 : Info) : Prop where
  next_handle : info.next_handle = info0.next_handle
  next_handle_overflow : info.next_handle_overflow = info0.next_handle_overflow
  mrs : ∀ m ∈ info.mr_list, ∃ m0 ∈ info0.mr_list, m.Within m0

theorem Info.Within.refl (info : Info) : info.Within info := ⟨rfl, rfl, fun m hm => ⟨m, hm, .refl m⟩⟩

structure Shrinks (s s' : Kernel) : Prop where
  files : ∀ g i, s'.files g = some i → ∃ i0, s.files g = some i0 ∧ i.Within i0
  vmas : ∀ v ∈ s'.vmas, ∃ v0 ∈ s.vmas, ∃ ptes, v = { v0 with ptes := ptes } ∧ ptes ⊆ v0.ptes

theorem Apart.shrinks {s s' : Kernel} (h : Apart P s) (hs : Shrinks s s') : Apart P s' := by
  refine ⟨fun hv hf ho => ?_, fun hv hf hm => ?_, fun hf hm hv hmv => ?_, fun hf hm hpt => ?_⟩
  · obtain ⟨v0, hv0, ptes, rfl, -⟩ := hs.vmas _ hv
    obtain ⟨i0, hi0, hw⟩ := hs.files _ _ hf
    have := h.next hv0 hi0 (hw.next_handle_overflow ▸ ho)
    rw [hw.next_handle]
    exact this
  · obtain ⟨v0, hv0, ptes, rfl, hsub⟩ := hs.vmas _ hv
    obtain ⟨i0, hi0, hw⟩ := hs.files _ _ hf
    obtain ⟨m0, hm0, hwm⟩ := hw.mrs _ hm
    have := h.range hv0 hi0 hm0
    unfold Vma.OnOff Mr.stop at this ⊢
    rw [hwm.handle, hwm.mapped_size, hwm.ptr]
    rcases this with ⟨h1, h2, h3⟩ | h1
    · exact .inl ⟨h1, h2, fun p hp => h3 p (hsub hp)⟩
    · exact .inr h1
  · obtain ⟨v0, hv0, ptes, rfl, -⟩ := hs.vmas _ hv
    obtain ⟨i0, hi0, hw⟩ := hs.files _ _ hf
    obtain ⟨m0, hm0, hwm⟩ := hw.mrs _ hm
    obtain ⟨h1, h2⟩ := hwm.vma _ hmv
    have := h.own hi0 hm0 hv0 h1
    rw [h2, hwm.handle]
    exact this
  · obtain ⟨i0, hi0, hw⟩ := hs.files _ _ hf
    obtain ⟨m0, hm0, hwm⟩ := hw.mrs _ hm
    rw [hwm.mapped_size]
    exact h.size hi0 hm0 (hwm.page_table _ hpt)

theorem same_vmas {s s' : Kernel} (h : s'.vmas = s.vmas) :
    ∀ v ∈ s'.vmas, ∃ v0 ∈ s.vmas, ∃ ptes, v = { v0 with ptes := ptes } ∧ ptes ⊆ v0.ptes := by
  rw [h]
  exact fun v hv => ⟨v, hv, v.ptes, rfl, fun _ hp => hp⟩

/-- One file has a list within its old one. -/
theorem Shrinks.update {s s' : Kernel} {f : Nat} {info info' : Info} (hf : s.files f = some info)
    (hfiles : s'.files = Function.update s.files f (some info')) (hw : info'.Within info)
    (hv : ∀ v ∈ s'.vmas, ∃ v0 ∈ s.vmas, ∃ ptes, v = { v0 with ptes := ptes } ∧ ptes ⊆ v0.ptes) : Shrinks s s' := by
  refine ⟨fun g i hg => ?_, hv⟩
  rw [hfiles] at hg
  rcases get_update hg with ⟨rfl, hi⟩ | ⟨-, hg⟩
  · cases hi
    exact ⟨info, hf, hw⟩
  · exact ⟨i, hg, .refl i⟩

theorem put_within {info : Info} {mr mr' : Mr} (hm : mr ∈ info.mr_list) (hw : mr'.Within mr) :
    (info.put mr').Within info := by
  refine ⟨rfl, rfl, fun m hm' => ?_⟩
  rcases mem_put hm' with ⟨rfl, -⟩ | ⟨hm', -⟩
  · exact ⟨mr, hm, hw⟩
  · exact ⟨m, hm', .refl m⟩

theorem list_del_within (info : Info) (mr : Mr) : (info.list_del mr).Within info :=
  ⟨rfl, rfl, fun m hm => ⟨m, (mem_list_del.1 hm).1, .refl m⟩⟩

/-! ## Events that add something -/

theorem Apart.opened {s s' : Kernel} {cur : Nat} (hwf : Wf P s) (h : Apart P s)
    (hfiles : s'.files = Function.update s.files s.fresh (some ⟨[], cur, 0, false⟩)) (hvmas : s'.vmas = s.vmas) :
    Apart P s' := by
  have hold : ∀ {v i}, v ∈ s.vmas → s'.files v.vm_file = some i → s.files v.vm_file = some i := by
    intro v i hv hi
    rw [hfiles] at hi
    rcases get_update hi with ⟨he, -⟩ | ⟨-, hi⟩
    · exact absurd he (Nat.ne_of_lt (hwf.vmas.vm_file hv))
    · exact hi
  have hlist : ∀ {f i m}, s'.files f = some i → m ∈ i.mr_list → s.files f = some i := by
    intro f i m hi hm
    rw [hfiles] at hi
    rcases get_update hi with ⟨-, he⟩ | ⟨-, hi⟩
    · cases he
      cases hm
    · exact hi
  refine ⟨fun hv hf ho => ?_, fun hv hf hm => ?_, fun hf hm hv hmv => ?_, fun hf hm hpt => h.size (hlist hf hm) hm hpt⟩
  · rw [hvmas] at hv
    exact h.next hv (hold hv hf) ho
  · rw [hvmas] at hv
    exact h.range hv (hold hv hf) hm
  · rw [hvmas] at hv
    exact h.own (hlist hf hm) hm hv hmv

/-- The range of a new mr starts where no VMA has been. -/
theorem Apart.linked {s s' : Kernel} {f : Nat} {info info' : Info} {mr : Mr} {pt : PageTable} (hwf : Wf P s)
    (h : Apart P s) (hf : s.files f = some info)
    (hg : gdr_generate_mr_handle P info mr.mapped_size = some (mr.handle, info')) (hnew : mr.New s.fresh pt)
    (hsize : ∀ pt, mr.page_table = some pt → pt.entries = mr.mapped_size / GPU_PAGE_SIZE)
    (hfiles : s'.files = Function.update s.files f (some (info'.list_add mr))) (hvmas : s'.vmas = s.vmas) :
    Apart P s' := by
  obtain ⟨ho, hh, hl, -, -, hnext⟩ := generate_spec hnew.mapped_size (fun ho => ((hwf.files.spaced hf).next ho).1) hg
  have hget : ∀ {g i m}, s'.files g = some i → m ∈ i.mr_list → g = f ∧ m = mr ∨ ∃ i0, s.files g = some i0 ∧
      m ∈ i0.mr_list :=
    fun hg => get_list_add hf hl (hfiles ▸ hg)
  refine ⟨fun {v i} hv hg ho' => ?_, fun {v i m} hv hg hm => ?_, fun hg hm hv hmv => ?_, fun hg hm hpt => ?_⟩
  · rw [hvmas] at hv
    rw [hfiles] at hg
    rcases get_update hg with ⟨he, hi⟩ | ⟨-, hg⟩
    · cases hi
      have h1 := h.next hv (he ▸ hf) ho
      have h2 : (info'.list_add mr).next_handle = info.next_handle + span P mr.mapped_size := hnext ho'
      omega
    · exact h.next hv hg ho'
  -- No VMA has an offset at or past the counter, where the new range starts.
  · rw [hvmas] at hv
    rcases hget hg hm with ⟨he, rfl⟩ | ⟨i0, hi0, hm⟩
    · refine .inr (.inl ?_)
      rw [hh]
      exact h.next hv (he ▸ hf) ho
    · exact h.range hv hi0 hm
  · rw [hvmas] at hv
    rcases hget hg hm with ⟨-, rfl⟩ | ⟨i0, hi0, hm⟩
    · rw [hnew.vma] at hmv
      cases hmv
    · exact h.own hi0 hm hv hmv
  · rcases hget hg hm with ⟨-, rfl⟩ | ⟨i0, hi0, hm⟩
    · exact hsize _ hpt
    · exact h.size hi0 hm hpt

/-- A VMA is no longer than the range of the mr whose page table it maps. -/
theorem new_pages_le {vma : Vma} {mr : Mr} {pt : PageTable} {fresh f : Nat} (hnew : vma.New P fresh f pt)
    (hsize : pt.entries = mr.mapped_size / GPU_PAGE_SIZE) : vma.pages P ≤ span P mr.mapped_size := by
  obtain ⟨start, pages, hs, he, hle⟩ := hnew.bounds
  have hp : vma.pages P = pages := by
    rw [Vma.pages, hs, he, Nat.add_mul, Nat.add_sub_cancel_left, Nat.mul_div_cancel _ (pageSize_pos P)]
  rw [hp, span, Nat.shiftRight_eq_div_pow]
  refine Nat.le_trans ?_ (Nat.le_max_right _ _)
  rw [Nat.le_div_iff_mul_le (Nat.two_pow_pos _)]
  calc pages * 2 ^ P.PAGE_SHIFT ≤ GPU_PAGE_SIZE * pt.entries := hle
    _ = mr.mapped_size / GPU_PAGE_SIZE * GPU_PAGE_SIZE := by rw [hsize, Nat.mul_comm]
    _ ≤ mr.mapped_size := Nat.div_mul_le_self _ _

theorem Apart.mapped {s s' : Kernel} {f : Nat} {info : Info} {mr : Mr} {pt : PageTable} {vma : Vma} {t : MrType}
    (hwf : Wf P s) (h : Apart P s) (hf : s.files f = some info) (hm : mr ∈ info.mr_list) (hpt : mr.page_table = some pt)
    (hnew : vma.New P s.fresh f pt) (hlive : mr.handle = vma.vm_pgoff)
    (hfiles : s'.files = Function.update s.files f
      (some (info.put { mr with vma := some vma.id, mapping := some f, cpu_mapping_type := t })))
    (hvmas : s'.vmas = vma :: s.vmas) : Apart P s' := by
  have hlen := new_pages_le hnew (h.size hf hm hpt)
  have htable : ∀ p ∈ vma.ptes, p.table = mr.ptr + 1 := fun p hp => by
    rw [(hnew.ptes p hp).1, (hwf.files.mr hf hm).table _ hpt]
  -- What a listed mr was before: the same, except that the mapped one had another `vma`.
  have hget : ∀ {g i}, s'.files g = some i → ∃ i0, s.files g = some i0 ∧ i.next_handle = i0.next_handle ∧
      i.next_handle_overflow = i0.next_handle_overflow ∧ ∀ m ∈ i.mr_list, ∃ m0 ∈ i0.mr_list, m.ptr = m0.ptr ∧
        m.handle = m0.handle ∧ m.mapped_size = m0.mapped_size ∧ m.page_table = m0.page_table ∧
        (m = m0 ∨ g = f ∧ m0 = mr ∧ m.vma = some vma.id ∧ m.mapping = some f) := by
    intro g i hg
    rw [hfiles] at hg
    rcases get_update hg with ⟨rfl, hi⟩ | ⟨-, hg⟩
    · cases hi
      refine ⟨info, hf, rfl, rfl, fun m hm' => ?_⟩
      rcases mem_put hm' with ⟨rfl, -⟩ | ⟨hm', -⟩
      · exact ⟨mr, hm, rfl, rfl, rfl, rfl, .inr ⟨rfl, rfl, rfl, rfl⟩⟩
      · exact ⟨m, hm', rfl, rfl, rfl, rfl, .inl rfl⟩
    · exact ⟨i, hg, rfl, rfl, fun m hm => ⟨m, hm, rfl, rfl, rfl, rfl, .inl rfl⟩⟩
  refine ⟨fun {v i} hv hg ho => ?_, fun {v i m} hv hg hm' => ?_, fun {g i m v} hg hm' hv hmv => ?_,
    fun hg hm' hpt' => ?_⟩
  · obtain ⟨i0, hi0, hn, ho0, -⟩ := hget hg
    rw [hvmas] at hv
    rw [hn]
    rcases List.mem_cons.1 hv with rfl | hv
    · have hi : i0 = info := by
        rw [hnew.vm_file, hf] at hi0
        exact (Option.some.inj hi0).symm
      subst hi
      have := ((hwf.files.spaced hf).next (ho0 ▸ ho)).2 mr hm
      rw [Mr.stop] at this
      omega
    · exact h.next hv hi0 (ho0 ▸ ho)
  · obtain ⟨i0, hi0, -, -, hmrs⟩ := hget hg
    obtain ⟨m0, hm0, h1, h2, h3, -⟩ := hmrs m hm'
    rw [hvmas] at hv
    unfold Vma.OnOff Mr.stop
    rw [h1, h2, h3]
    rcases List.mem_cons.1 hv with rfl | hv
    · have hi : i0 = info := by
        rw [hnew.vm_file, hf] at hi0
        exact (Option.some.inj hi0).symm
      subst hi
      rcases (hwf.files.spaced hf).disjoint hm hm0 with rfl | hd | hd
      · exact .inl ⟨hlive.symm, hlen, htable⟩
      · rw [Mr.stop] at hd
        exact .inr (.inl (by omega))
      · rw [Mr.stop] at hd
        exact .inr (.inr (by omega))
    · exact h.range hv hi0 hm0
  · obtain ⟨i0, hi0, -, -, hmrs⟩ := hget hg
    obtain ⟨m0, hm0, -, hh, -, -, hvma⟩ := hmrs m hm'
    rw [hvmas] at hv
    rcases hvma with rfl | ⟨rfl, rfl, hmv', hmap⟩
    · rcases List.mem_cons.1 hv with rfl | hv
      · have := (hwf.files.mr hi0 hm0).vma _ hmv
        have := hnew.id
        omega
      · exact h.own hi0 hm0 hv hmv
    · have hid : vma.id = v.id := Option.some.inj (hmv'.symm.trans hmv)
      rcases List.mem_cons.1 hv with rfl | hv
      · exact ⟨hnew.vm_file, hmap, by rw [hh, hlive]⟩
      · have := hwf.vmas.id hv
        have := hnew.id
        omega
  · obtain ⟨i0, hi0, -, -, hmrs⟩ := hget hg
    obtain ⟨m0, hm0, -, -, h3, h4, -⟩ := hmrs _ hm'
    rw [h3]
    exact h.size hi0 hm0 (h4 ▸ hpt')

/-! ## The invariant -/

theorem Does.apart {s s' : Kernel} {e : Event} (hwf : Wf P s) (h : Apart P s) (hl : e.Live) (hd : Does P s e s') :
    Apart P s' := by
  have pruned : ∀ {vmas' : List Vma}, Pruned s.vmas vmas' →
      ∀ v ∈ vmas', ∃ v0 ∈ s.vmas, ∃ ptes, v = { v0 with ptes := ptes } ∧ ptes ⊆ v0.ptes := fun hp v hv => hp.mem hv
  cases hd with
  | quiet hfiles hvmas hfresh =>
    exact h.shrinks ⟨fun g i hg => ⟨i, hfiles ▸ hg, .refl i⟩, same_vmas hvmas⟩
  | opened hfiles hvmas hfresh => exact h.opened hwf hfiles hvmas
  | linked hf hg hnew hfiles hvmas hfresh => exact h.linked hwf hf hg hnew hl hfiles hvmas
  | unlinked hf hm hz hfiles hfresh =>
    exact h.shrinks (.update hf hfiles (list_del_within _ _) (pruned (zapIfMapped_pruned hz)))
  | requested hf hm hfiles hvmas hfresh =>
    exact h.shrinks (.update hf hfiles (put_within hm ⟨rfl, rfl, rfl, fun _ h => ⟨h, rfl⟩, fun _ h => h⟩)
      (same_vmas hvmas))
  | refused hf hm hfiles hvmas hfresh =>
    exact h.shrinks (.update hf hfiles (put_within hm ⟨rfl, rfl, rfl, nofun, fun _ h => h⟩) (same_vmas hvmas))
  | mapped hf hm hn hcb hpt ht hnew hfiles hvmas hfresh => exact h.mapped hwf hf hm hpt hnew hl hfiles hvmas
  | closed hv hfiles hvmas hfresh =>
    rename_i vma
    have hvm : ∀ v ∈ s'.vmas, ∃ v0 ∈ s.vmas, ∃ ptes, v = { v0 with ptes := ptes } ∧ ptes ⊆ v0.ptes := by
      rw [hvmas]
      exact fun v hv => ⟨v, (List.mem_filter.1 hv).1, v.ptes, rfl, fun _ hp => hp⟩
    cases hlk : s.lookup vma.vm_file vma.vm_pgoff with
    | none =>
      have hsame : s'.files = s.files := by rw [hfiles, hlk]
      exact h.shrinks ⟨fun g i hg => ⟨i, hsame ▸ hg, .refl i⟩, hvm⟩
    | some r =>
      obtain ⟨info, mr⟩ := r
      rw [hlk] at hfiles
      obtain ⟨hf, hm, -⟩ := search_listed hlk
      exact h.shrinks (.update hf hfiles (put_within hm ⟨rfl, rfl, rfl, nofun, fun _ h => h⟩) hvm)
  | invalidated hf hm hz hfiles hfresh =>
    refine h.shrinks (.update hf hfiles (put_within hm ⟨rfl, rfl, rfl, fun _ h => ⟨h, rfl⟩, nofun⟩) (pruned ?_))
    split at hz
    · exact zapIfMapped_pruned hz
    · rw [(Prod.mk.inj (Except.ok.inj hz)).2]
      exact .refl _
  | shut hf hl hfiles hvmas hfresh =>
    refine h.shrinks ⟨fun g i hg => ?_, same_vmas hvmas⟩
    rw [hfiles] at hg
    rcases get_update hg with ⟨-, hi⟩ | ⟨-, hg⟩
    · cases hi
    · exact ⟨i, hg, .refl i⟩

theorem EventRun.apart {s : Kernel} {es : List Event} (h : EventRun P Event.Live s es) : Apart P s := by
  refine Runs.Run.inv_of (Wf P) (Apart P) (fun s es hr => EventRun.wf hr) ?_
    (fun s e s' hwf hi hd => hd.2.apart hwf hi hd.1) h
  rintro s rfl
  exact ⟨nofun, nofun, nofun, nofun⟩

/-! ## The zap -/

/-- Every translation that does not come from the page table of `mr` survives. -/
def Spares (mr : Mr) (vmas vmas' : List Vma) : Prop :=
  ∀ v ∈ vmas, ∀ p ∈ v.ptes, (∀ pt, mr.page_table = some pt → p.table ≠ pt.id) → ∃ v' ∈ vmas', v'.id = v.id ∧ p ∈ v'.ptes

theorem Spares.refl (mr : Mr) (vmas : List Vma) : Spares mr vmas vmas := fun v hv _ hp _ => ⟨v, hv, rfl, hp⟩

/-- In a state whose VMAs lie apart, and after other zaps, zapping `mr` spares all others. -/
theorem Apart.spares {s : Kernel} {f : Nat} {info : Info} {mr mr' : Mr} {vmas vmas' : List Vma} (hwf : Wf P s)
    (h : Apart P s) (hf : s.files f = some info) (hm : mr ∈ info.mr_list) (hp : Pruned s.vmas vmas)
    (hz : zapIfMapped P mr vmas = .ok (mr', vmas')) : Spares mr vmas vmas' := by
  obtain ⟨-, ⟨-, rfl⟩ | ⟨hmap, m, u, hmapping, hu, humem, rfl⟩⟩ := zapIfMapped_cases hz
  · exact .refl _ _
  intro v hv p hpt htable
  obtain ⟨pt, hpt'⟩ := Option.isSome_iff_exists.1 ((hwf.files.mr hf hm).mapped hmap)
  have htab : p.table ≠ mr.ptr + 1 := by
    rw [← (hwf.files.mr hf hm).table pt hpt']
    exact htable pt hpt'
  obtain ⟨u0, hu0, uptes, rfl, -⟩ := hp.mem humem
  obtain ⟨v0, hv0, vptes, rfl, hvsub⟩ := hp.mem hv
  obtain ⟨-, hmap', hoff⟩ := h.own hf hm hu0 hu
  obtain rfl : m = f := Option.some.inj (hmapping.symm.trans hmap')
  have hushape : ({ u0 with ptes := uptes } : Vma).Shaped P := ((hwf.vmas.pruned hp).shaped humem)
  -- The VMA that is zapped is no longer than the handles of its mr.
  have hlen : u0.pages P ≤ span P mr.mapped_size := by
    rcases h.range hu0 ((h.own hf hm hu0 hu).1 ▸ hf) hm with ⟨-, hlen, -⟩ | hd | hd
    · exact hlen
    · rw [hoff] at hd
      have := span_pos P mr.mapped_size
      omega
    · rw [hoff, Mr.stop] at hd
      have := span_pos P mr.mapped_size
      omega
  rw [zap_eq hushape]
  refine ⟨_, List.mem_map.2 ⟨_, hv, rfl⟩, by split <;> rfl, ?_⟩
  by_cases hfile : v0.vm_file = m
  swap
  · rw [if_neg hfile]
    exact hpt
  rw [if_pos hfile]
  refine List.mem_filter.2 ⟨hpt, ?_⟩
  have hpos := (hwf.vmas.shaped hv0).pageOff (hvsub hpt)
  have hin : Vma.pageOff P { v0 with ptes := vptes } p = v0.pageOff P p := rfl
  have hup : Vma.pages P { u0 with ptes := uptes } = u0.pages P := rfl
  rw [hin, hup]
  -- A translation in that range belongs to this mr; every other lies before it or after it.
  rcases h.range hv0 (hfile ▸ hf) hm with ⟨-, -, ht⟩ | hd | hd
  · exact absurd (ht p (hvsub hpt)) htab
  · simp only [Bool.not_eq_true', Bool.and_eq_false_iff, decide_eq_false_iff_not, not_le, not_lt]
    left
    omega
  · rw [Mr.stop] at hd
    simp only [Bool.not_eq_true', Bool.and_eq_false_iff, decide_eq_false_iff_not, not_le, not_lt]
    right
    omega

theorem releaseLoop_pruned {env : Nat → PutEnv} : ∀ (l : List Mr) {vmas vmas' : List Vma} {n n' : Int},
    releaseLoop P env l vmas n = .ok (vmas', n') → Pruned vmas vmas' := by
  intro l
  induction l with
  | nil =>
    intro vmas vmas' n n' h
    rw [(Prod.mk.inj (Except.ok.inj h)).1]
    exact .refl _
  | cons mr rest ih =>
    intro vmas vmas' n n' h
    rw [releaseLoop_cons] at h
    generalize hz : zapIfMapped P mr vmas = z at h
    cases z with
    | error e => cases h
    | ok z =>
      obtain ⟨m1, v1⟩ := z
      obtain ⟨rfl, -⟩ := zapIfMapped_cases hz
      simp only [bind, Except.bind] at h
      generalize hfree : gdr_free_mr_unlocked P _ _ v1 n = x at h
      cases x with
      | error e => cases h
      | ok x =>
        obtain ⟨v2, n2⟩ := x
        have hv : v2 = v1 := free_unmapped rfl hfree
        subst hv
        exact (zapIfMapped_pruned hz).trans (ih h)

/-! ## The condition on operations -/

variable (P) in
/-- An `mmap` that reaches the driver names a handle that is on the list, and a page
table has an entry for every GPU page of the buffer it is granted for. -/
def live (s : Kernel) : Op → Bool
  | .mmap f _ start len off _ =>
    match mmapRegion P s f start len off, s.files f with
    | .ok vma, some info => info.mr_list.any fun mr => mr.handle = vma.vm_pgoff
    | _, _ => true
  | .ioctl _ _ cmd =>
    match cmd.pinned with
    | none => true
    | some (addr, size, pt) => pt.entries = mappedSize addr size / GPU_PAGE_SIZE
  | _ => true

theorem live_events {s : Kernel} {o : Op} (hl : live P s o = true) {e : Event} (he : e.Of P s o) : e.Live := by
  cases e with
  | linked f mr =>
    obtain ⟨cur, cmd, addr, size, pt, t, rfl, hpin, hsize, hpt⟩ := he
    simp only [live, hpin, decide_eq_true_eq] at hl
    intro pt' hpt'
    obtain rfl := Option.some.inj (hpt.symm.trans hpt')
    rw [hsize]
    exact hl
  | mapped f mr vma =>
    obtain ⟨v, ⟨cur, start, len, off, env, info, rfl, hreg, hf, hsame, hs⟩, hoff⟩ := he
    simp only [live, hreg, hf, List.any_eq_true, decide_eq_true_eq] at hl
    obtain ⟨m, -, hh, hs'⟩ := searchLoop_hit none hl
    obtain rfl : m = mr := by
      rw [gdr_mr_from_handle_unlocked, hs'] at hs
      exact Option.some.inj hs
    rw [Event.Live, hoff, hh]
  | _ => trivial

/-- In a run whose operations all are `live`, invalidating `a` spares every
translation that does not come from `a`'s page table, and no two mrs share one. The
invalidation is its callback, its unpin, or its turn in the release of its file. -/
theorem zap_isolated {s : Kernel} {os : List Op}
    (h : Runs.Run (· = init) (Runs.only (fun s o => live P s o = true) (step P)) s os) {f : Nat} {info : Info} {a : Mr}
    (hf : s.files f = some info) (ha : a ∈ info.mr_list) :
    (∀ s', nvCallback P s f info a = .ok s' → Spares a s.vmas s'.vmas) ∧
      (∀ env ret s', __gdrdrv_unpin_buffer P env s f info a.handle = .ok (ret, s') → Spares a s.vmas s'.vmas) ∧
      (∀ env before after vmas n a' vmas', info.mr_list = before ++ a :: after →
        releaseLoop P env before s.vmas s.gdrdrv_nv_get_pages_refcount = .ok (vmas, n) →
        zapIfMapped P a vmas = .ok (a', vmas') → Spares a vmas vmas') ∧
      ∀ g info' b pt pt', s.files g = some info' → b ∈ info'.mr_list → a.page_table = some pt →
      b.page_table = some pt' →
        pt.id = pt'.id → a = b ∧ f = g := by
  obtain ⟨es, he⟩ : ∃ es, EventRun P Event.Live s es := run_events (fun s o _ hl e => live_events hl) h
  have hwf := he.wf
  have hz : ∀ {vmas a' vmas'}, Pruned s.vmas vmas → zapIfMapped P a vmas = .ok (a', vmas') → Spares a vmas vmas' :=
    fun hp hz => he.apart.spares hwf hf ha hp hz
  refine ⟨fun s' hc => ?_, fun env ret s' hu => ?_, fun env before after vmas n a' vmas' _ hloop hz' => ?_,
    fun g info' b pt pt' hg hb hpt hpt' hid => ?_⟩
  · cases callback_path hf ha hc with
    | invalidated hf' hm hzap hfiles hfresh =>
      split at hzap
      · exact hz (.refl _) hzap
      · rw [← (Prod.mk.inj (Except.ok.inj hzap)).2]
        exact .refl _ _
  · rcases unpin_cases hf hu with ⟨-, -, rfl⟩ | ⟨-, mr, hs, hd⟩
    · exact .refl _ _
    · obtain rfl : a = mr := Option.some.inj (((hwf.files.spaced hf).search ha).symm.trans hs)
      cases hd with
      | unlinked hf' hm hzap hfiles hfresh => exact hz (.refl _) hzap
  · exact hz (releaseLoop_pruned before hloop) hz'
  · have h1 := (hwf.files.mr hf ha).table pt hpt
    have h2 := (hwf.files.mr hg hb).table pt' hpt'
    have := hwf.files.ptr_inj hf hg ha hb (by omega)
    exact ⟨this.2, this.1⟩

end

/-- Two buffers of one file are pinned and mapped, one GPU page and two. -/
def mapTwo : List Op :=
  [.openFile 0 7 true, pinOp 0 7 0x10000 0x10000 [0x30000], pinOp 0 7 0x20000 0x20000 [0x50000, 0x60000],
    mmapOp 0 7 0x1000 0x10000 0, mmapOp 0 7 0x2000 0x20000 0x10000]

theorem zap_isolated_mapTwo :
    ∃ s info a s', execAll x86Host (live x86Host) init mapTwo = some s ∧ s.files 0 = some info ∧ a ∈ info.mr_list ∧
      nvCallback x86Host s 0 info a = .ok s' ∧ (s'.vmas.map (·.ptes.length) = [32, 0]) ∧ Spares a s.vmas s'.vmas := by
  obtain ⟨s, hs, hc⟩ : ∃ s, execAll x86Host (live x86Host) init mapTwo = some s ∧
      ((s.files 0).any fun info => info.mr_list.any fun a => (nvCallback x86Host s 0 info a).toOption.any fun s' =>
        s'.vmas.map (·.ptes.length) == [32, 0]) = true := Option.any_eq_true _ _ |>.1 (by decide +kernel)
  obtain ⟨info, hf, hc⟩ := Option.any_eq_true _ _ |>.1 hc
  obtain ⟨a, ha, hc⟩ := List.any_eq_true.1 hc
  obtain ⟨s', hcb, hl⟩ := Option.any_eq_true _ _ |>.1 hc
  have hcb := toOption_ok hcb
  exact ⟨s, info, a, s', hs, hf, ha, hcb, by simpa using hl, (zap_isolated (execAll_run hs) hf ha).1 s' hcb⟩

end gdrdrv
