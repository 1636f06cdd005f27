import GdrCopy.Driver.Tracking
import GdrCopy.Driver.Faults
/-!
# Orderly use of the driver

A user is orderly when every `mmap` is of an mr that is listed under its page offset and
not mapped, and every VMA goes away while its mr is listed. `orderly_no_stale`: such users
never make the driver lose track of a VMA. This asks nothing about the fields of the
driver, unlike `tracked`, which follows from it.
-/

namespace gdrdrv

section
variable {P : Platform}

variable (P) in
def orderly (s : Kernel) : Op → Bool
  | .mmap f cur start len off _ =>
    match mmapRegion P s f start len off, s.files f with
    | .ok vma, some info =>
      !gdrdrv_check_same_process info cur ||
        (match gdr_mr_from_handle_unlocked info vma.vm_pgoff with
        | none => true
        | some mr => !gdr_mr_is_mapped mr && mr.handle == vma.vm_pgoff)
    | _, _ => true
  | .munmap v =>
    match s.vmas.find? (·.id = v) with
    | none => true
    | some vma =>
      match s.lookup vma.vm_file vma.vm_pgoff with
      | none => true
      | some (_, mr) => mr.handle == vma.vm_pgoff
  | _ => true

/-- The events of orderly users. -/
def Event.Orderly : Event → Prop
  | .mapped _ mr vma => vma.vm_pgoff = mr.handle
  | .refused _ mr => gdr_mr_is_mapped mr = false
  | .closed vma (some (_, mr)) => mr.handle = vma.vm_pgoff
  | _ => True

theorem orderly_event {s : Kernel} {o : Op} (hwf : Wf P s) (ho : orderly P s o = true) {e : Event}
    (he : e.Of P s o) : e.Orderly := by
  cases e with
  | mapped f mr vma =>
    obtain ⟨v, ⟨cur, start, len, off, env, info, rfl, hreg, hf, hsame, hs⟩, hpg⟩ := he
    simp only [orderly, hreg, hf, hsame, hs, Bool.not_true, Bool.false_or, Bool.and_eq_true, beq_iff_eq] at ho
    exact hpg.trans ho.2.symm
  | refused f mr =>
    obtain ⟨v, cur, start, len, off, env, info, rfl, hreg, hf, hsame, hs⟩ := he
    simp only [orderly, hreg, hf, hsame, hs, Bool.not_true, Bool.false_or, Bool.and_eq_true] at ho
    simpa [Event.Orderly] using ho.1
  | closed vma found =>
    obtain ⟨rfl, hv, rfl⟩ := he
    obtain ⟨w, hw⟩ : ∃ w, s.vmas.find? (·.id = vma.id) = some w :=
      Option.isSome_iff_exists.1 (by simpa using ⟨vma, hv, rfl⟩)
    have hid : w.id = vma.id := by simpa using List.find?_some hw
    obtain rfl := hwf.vmas.inj w (List.mem_of_find?_eq_some hw) vma hv hid
    simp only [orderly, hw] at ho
    cases hl : s.lookup w.vm_file w.vm_pgoff with
    | none => trivial
    | some r =>
      rw [hl] at ho
      exact beq_iff_eq.1 ho
  | _ => trivial

/-! ## VMAs and mrs -/

/-- A VMA of its file under the handle of the mr is the one it is mapped through, or the mr has been invalidated. -/
structure Mr.Pairs (mr : Mr) (v : Vma) : Prop where
  mapped : v.vm_pgoff = mr.handle → gdr_mr_is_mapped mr = true → mr.vma = some v.id
  unmapped : v.vm_pgoff = mr.handle → gdr_mr_is_mapped mr = false → mr.cb_flag = true
  vma : mr.vma = some v.id → v.vm_pgoff = mr.handle

/-- Each VMA was mapped under the handle of an mr that is listed or gone. -/
structure Neat (s : Kernel) : Prop where
  pgoff : ∀ {f info v}, s.files f = some info → v ∈ s.vmas → v.vm_file = f → info.next_handle_overflow = false →
    v.vm_pgoff < info.next_handle
  pairs : ∀ {f info mr v}, s.files f = some info → mr ∈ info.mr_list → v ∈ s.vmas → v.vm_file = f → mr.Pairs v

/-- The VMAs of `s'` are among those of `s`, translations apart. -/
def Remain (s s' : Kernel) : Prop := ∀ v ∈ s'.vmas, ∃ w ∈ s.vmas, w.id = v.id ∧ w.vm_file = v.vm_file ∧
    w.vm_pgoff = v.vm_pgoff

theorem Remain.of_eq {s s' : Kernel} (h : s'.vmas = s.vmas) : Remain s s' := fun v hv => ⟨v, h ▸ hv, rfl, rfl, rfl⟩

theorem Remain.pruned {s s' : Kernel} (h : Pruned s.vmas s'.vmas) : Remain s s' := by
  intro v hv
  obtain ⟨w, hw, ptes, rfl, -⟩ := h.mem hv
  exact ⟨w, hw, rfl, rfl, rfl⟩

theorem Remain.filter {s s' : Kernel} {q : Vma → Bool} (h : s'.vmas = s.vmas.filter q) : Remain s s' := by
  intro v hv
  rw [h] at hv
  exact ⟨v, (List.mem_filter.1 hv).1, rfl, rfl, rfl⟩

theorem Mr.Pairs.same {mr : Mr} {v w : Vma} (h : mr.Pairs w) (hid : w.id = v.id)
    (hpg : w.vm_pgoff = v.vm_pgoff) : mr.Pairs v :=
  ⟨fun he => hid ▸ h.mapped (hpg.trans he), fun he => h.unmapped (hpg.trans he), fun he => hpg ▸ h.vma (hid ▸ he)⟩

/-- A change of one file, where no VMA is new. -/
theorem Neat.update {s s' : Kernel} {f : Nat} {x : Option Info} (h : Neat s) (hr : Remain s s')
    (hfiles : s'.files = Function.update s.files f x)
    (hnext : ∀ info', x = some info' → info'.next_handle_overflow = false → ∀ v ∈ s.vmas, v.vm_file = f →
      v.vm_pgoff < info'.next_handle)
    (hx : ∀ info', x = some info' → ∀ m ∈ info'.mr_list, ∀ v ∈ s'.vmas, v.vm_file = f → m.Pairs v) : Neat s' := by
  refine ⟨fun {g info v} hg hv hvf ho => ?_, fun {g info m v} hg hm hv hvf => ?_⟩
  · obtain ⟨w, hw, -, hwf, hpg⟩ := hr v hv
    rw [hfiles] at hg
    rw [← hpg]
    rcases get_update hg with ⟨rfl, hi⟩ | ⟨-, hg⟩
    · exact hnext info hi ho w hw (hwf.trans hvf)
    · exact h.pgoff hg hw (hwf.trans hvf) ho
  · rw [hfiles] at hg
    rcases get_update hg with ⟨rfl, hi⟩ | ⟨-, hg⟩
    · exact hx info hi m hm v hv hvf
    · obtain ⟨w, hw, hid, hwf, hpg⟩ := hr v hv
      exact (h.pairs hg hm hw (hwf.trans hvf)).same hid hpg

/-- A change of one mr, where no VMA is new. -/
theorem Neat.put {s s' : Kernel} {f : Nat} {info : Info} {mr mr' : Mr} (h : Neat s) (hr : Remain s s')
    (hf : s.files f = some info) (hm : mr ∈ info.mr_list)
    (hfiles : s'.files = Function.update s.files f (some (info.put mr')))
    (hpairs : ∀ v ∈ s'.vmas, v.vm_file = f → mr.Pairs v → mr'.Pairs v) : Neat s' := by
  have old : ∀ {m v}, m ∈ info.mr_list → v ∈ s'.vmas → v.vm_file = f → m.Pairs v := by
    intro m v hm hv hvf
    obtain ⟨w, hw, hid, hwf, hpg⟩ := hr v hv
    exact (h.pairs hf hm hw (hwf.trans hvf)).same hid hpg
  refine h.update hr hfiles (fun info' hi ho v hv hvf => ?_) fun info' hi m hmem v hv hvf => ?_
  · cases hi
    have hlt : v.vm_pgoff < info.next_handle := h.pgoff hf hv hvf ho
    exact hlt
  · cases hi
    rcases mem_put hmem with ⟨rfl, -⟩ | ⟨hmem, -⟩
    · exact hpairs v hv hvf (old hm hv hvf)
    · exact old hmem hv hvf

/-! ### One event -/

theorem Neat.linked {s s' : Kernel} {f : Nat} {info info' : Info} {mr : Mr} {pt : PageTable} (hwf : Wf P s) (h : Neat s)
    (hf : s.files f = some info) (hg : gdr_generate_mr_handle P info mr.mapped_size = some (mr.handle, info'))
    (hnew : mr.New s.fresh pt) (hfiles : s'.files = Function.update s.files f (some (info'.list_add mr)))
    (hvmas : s'.vmas = s.vmas) :
    Neat s' := by
  obtain ⟨ho, hh, hl, -, -, hnext⟩ := generate_spec hnew.mapped_size (fun ho => ((hwf.files.spaced hf).next ho).1) hg
  have hpos := span_pos P mr.mapped_size
  refine h.update (.of_eq hvmas) hfiles (fun i hi ho' v hv hvf => ?_) fun i hi m hm v hv hvf => ?_
  · cases hi
    have hlt := h.pgoff hf hv hvf ho
    have hn : (info'.list_add mr).next_handle = info.next_handle + span P mr.mapped_size := hnext ho'
    omega
  · cases hi
    rw [hvmas] at hv
    have hmem : m ∈ mr :: info.mr_list := hl ▸ hm
    rcases List.mem_cons.1 hmem with rfl | hmem
    -- The handle of the new mr is above all page offsets that are mapped.
    · have hlt := h.pgoff hf hv hvf ho
      have hne : v.vm_pgoff ≠ m.handle := by omega
      refine ⟨fun he => absurd he hne, fun he => absurd he hne, fun he => ?_⟩
      rw [hnew.vma] at he
      cases he
    · exact h.pairs hf hmem hv hvf

theorem Neat.unlinked {s s' : Kernel} {f : Nat} {info : Info} {mr mr' : Mr} (h : Neat s) (hf : s.files f = some info)
    (hz : zapIfMapped P mr s.vmas = .ok (mr', s'.vmas))
    (hfiles : s'.files = Function.update s.files f (some (info.list_del mr))) :
    Neat s' := by
  have hr := Remain.pruned (zapIfMapped_pruned hz)
  refine h.update hr hfiles (fun i hi ho v hv hvf => ?_) fun i hi m hm v hv hvf => ?_
  · cases hi
    have hlt : v.vm_pgoff < info.next_handle := h.pgoff hf hv hvf ho
    exact hlt
  · cases hi
    obtain ⟨w, hw, hid, hwf, hpg⟩ := hr v hv
    exact (h.pairs hf (mem_list_del.1 hm).1 hw (hwf.trans hvf)).same hid hpg

theorem Neat.mapped {s s' : Kernel} {f : Nat} {info : Info} {mr : Mr} {pt : PageTable} {vma : Vma} {t : MrType}
    (hwf : Wf P s) (h : Neat s) (hk : vma.vm_pgoff = mr.handle) (hf : s.files f = some info) (hm : mr ∈ info.mr_list)
    (hn : gdr_mr_is_mapped mr = false) (hcb : mr.cb_flag = false) (ht : t ≠ .NONE) (hnew : vma.New P s.fresh f pt)
    (hfiles : s'.files = Function.update s.files f
      (some (info.put { mr with vma := some vma.id, mapping := some f, cpu_mapping_type := t })))
    (hvmas : s'.vmas = vma :: s.vmas) : Neat s' := by
  have hspaced := hwf.files.spaced hf
  refine ⟨fun {g i v} hg hv hvf ho => ?_, fun {g i m v} hg hmem hv hvf => ?_⟩
  · rw [hvmas] at hv
    rw [hfiles] at hg
    rcases List.mem_cons.1 hv with rfl | hv
    · rcases get_update hg with ⟨rfl, hi⟩ | ⟨hne, -⟩
      · cases hi
        have hstop := (hspaced.next ho).2 mr hm
        have hpos := span_pos P mr.mapped_size
        have hnext : (info.put { mr with vma := some v.id, mapping := some g, cpu_mapping_type := t }).next_handle =
            info.next_handle := rfl
        rw [Mr.stop] at hstop
        omega
      · exact absurd (hvf.symm.trans hnew.vm_file) hne
    · rcases get_update hg with ⟨rfl, hi⟩ | ⟨-, hg⟩
      · cases hi
        have hlt : v.vm_pgoff < info.next_handle := h.pgoff hf hv hvf ho
        exact hlt
      · exact h.pgoff hg hv hvf ho
  · -- No VMA is under the handle of the mr yet, as it is neither mapped nor invalidated.
    have hfree : ∀ w ∈ s.vmas, w.vm_file = f → w.vm_pgoff ≠ mr.handle := by
      intro w hw hwf' he
      have hflag := (h.pairs hf hm hw hwf').unmapped he hn
      rw [hcb] at hflag
      cases hflag
    rw [hvmas] at hv
    rw [hfiles] at hg
    rcases get_update hg with ⟨rfl, hi⟩ | ⟨hne, hg⟩
    · cases hi
      rcases mem_put hmem with ⟨rfl, -⟩ | ⟨hold, hptr⟩ <;> rcases List.mem_cons.1 hv with rfl | hv
      · refine ⟨fun _ _ => rfl, fun _ hu => ?_, fun _ => hk⟩
        exact absurd (by simpa [gdr_mr_is_mapped] using hu) ht
      · have hlt := hwf.vmas.id hv
        have hid : vma.id ≠ v.id := by
          rw [hnew.id]
          omega
        exact ⟨fun he => absurd he (hfree v hv hvf), fun he => absurd he (hfree v hv hvf),
          fun he => absurd (Option.some.inj he) hid⟩
      · have hne : v.vm_pgoff ≠ m.handle := by
          intro he
          have heq : m = mr := hspaced.handle_inj hold hm (he.symm.trans hk)
          exact hptr (by rw [heq])
        refine ⟨fun he => absurd he hne, fun he => absurd he hne, fun he => ?_⟩
        have hlt := (hwf.files.mr hf hold).vma _ he
        rw [hnew.id] at hlt
        exact absurd hlt (Nat.lt_irrefl _)
      · exact h.pairs hf hold hv hvf
    · rcases List.mem_cons.1 hv with rfl | hv
      · exact absurd (hvf.symm.trans hnew.vm_file) hne
      · exact h.pairs hg hmem hv hvf

theorem Neat.closed {s s' : Kernel} {vma : Vma} {info : Info} {mr : Mr} (h : Neat s) (hv : vma ∈ s.vmas)
    (hk : mr.handle = vma.vm_pgoff) (hf : s.files vma.vm_file = some info) (hm : mr ∈ info.mr_list)
    (hfiles : s'.files = Function.update s.files vma.vm_file (some (info.put (closeMr mr))))
    (hvmas : s'.vmas = s.vmas.filter fun v => v.id ≠ vma.id) : Neat s' := by
  refine h.put (.filter hvmas) hf hm hfiles fun w hw hwf' hp => ?_
  rw [hvmas] at hw
  obtain ⟨hw, hne⟩ := List.mem_filter.1 hw
  have hid : w.id ≠ vma.id := by simpa using hne
  refine ⟨fun _ hmap => ?_, fun he _ => ?_, fun he => ?_⟩
  · cases hmap
  rotate_left
  · cases he
  by_cases hmap : gdr_mr_is_mapped mr = true
  -- A mapped mr has one VMA under its handle, and it is the one that goes away.
  · have h1 := hp.mapped he hmap
    have h2 := (h.pairs hf hm hv rfl).mapped hk.symm hmap
    exact absurd (Option.some.inj (h1.symm.trans h2)) hid
  · exact hp.unmapped he (by simpa using hmap)

theorem Neat.invalidated {s s' : Kernel} {f : Nat} {info : Info} {mr mr' : Mr} (h : Neat s) (hf : s.files f = some info)
    (hm : mr ∈ info.mr_list) (hok : mr.Ok s.fresh)
    (hz : (if mr.page_table.isSome then zapIfMapped P mr s.vmas else .ok (mr, s.vmas)) = .ok (mr', s'.vmas))
    (hfiles : s'.files = Function.update s.files f (some (info.put (invalid mr)))) : Neat s' := by
  have hr : Remain s s' := by
    split at hz
    · exact .pruned (zapIfMapped_pruned hz)
    · exact .of_eq (Prod.mk.inj (Except.ok.inj hz)).2.symm
  refine h.put hr hf hm hfiles fun v _ _ hp => ⟨fun he hmap => ?_, fun _ _ => rfl, hp.vma⟩
  -- An mr that is still mapped had no page table, but then it was not mapped.
  by_cases hpt : mr.page_table.isSome = true
  · simp [gdr_mr_is_mapped, invalid, hpt] at hmap
  · have hmap' : gdr_mr_is_mapped mr = true := by simpa [gdr_mr_is_mapped, invalid, hpt] using hmap
    exact absurd (hok.mapped hmap') hpt

theorem Does.neat {s s' : Kernel} {e : Event} (hwf : Wf P s) (h : Neat s) (hk : e.Orderly)
    (hd : Does P s e s') : Neat s' := by
  cases hd with
  | quiet hfiles hvmas _ =>
    refine ⟨fun hf hv => ?_, fun hf hm hv => ?_⟩
    · rw [hfiles] at hf
      exact h.pgoff hf (hvmas ▸ hv)
    · rw [hfiles] at hf
      exact h.pairs hf hm (hvmas ▸ hv)
  | opened hfiles hvmas _ =>
    refine h.update (.of_eq hvmas) hfiles (fun i hi _ v hv hvf => ?_) fun i hi m hm => ?_
    · exact absurd hvf (Nat.ne_of_lt (hwf.vmas.vm_file hv))
    · cases hi
      cases hm
  | linked hf hg hnew hfiles hvmas _ => exact h.linked hwf hf hg hnew hfiles hvmas
  | unlinked hf hm hz hfiles _ => exact h.unlinked hf hz hfiles
  | requested hf hm hfiles hvmas _ =>
    exact h.put (.of_eq hvmas) hf hm hfiles fun v _ _ hp => ⟨hp.mapped, hp.unmapped, hp.vma⟩
  | refused hf hm hfiles hvmas _ =>
    refine h.put (.of_eq hvmas) hf hm hfiles fun v _ _ hp =>
      ⟨fun _ hmap => ?_, fun he _ => hp.unmapped he hk, fun he => ?_⟩
    · cases hmap
    · cases he
  | mapped hf hm hn hcb hpt ht hnew hfiles hvmas _ => exact h.mapped hwf hk hf hm hn hcb ht hnew hfiles hvmas
  | closed hv hfiles hvmas hfresh =>
    rename_i vma
    cases hl : s.lookup vma.vm_file vma.vm_pgoff with
    | none =>
      rw [hl] at hfiles
      refine ⟨fun hf hw => ?_, fun hf hm hw => ?_⟩
      · rw [hfiles] at hf
        exact h.pgoff hf (List.mem_filter.1 (hvmas ▸ hw)).1
      · rw [hfiles] at hf
        exact h.pairs hf hm (List.mem_filter.1 (hvmas ▸ hw)).1
    | some r =>
      rw [hl] at hfiles hk
      obtain ⟨hf, hm, -⟩ := search_listed hl
      exact h.closed hv hk hf hm hfiles hvmas
  | invalidated hf hm hz hfiles _ => exact h.invalidated hf hm (hwf.files.mr hf hm) hz hfiles
  | shut hf hl hfiles hvmas _ =>
    refine h.update (.of_eq hvmas) hfiles (fun i hi => ?_) fun i hi => ?_ <;> cases hi

/-! ## Orderly events are tracked -/

theorem Event.Orderly.keeps {s s' : Kernel} {e : Event} (hwf : Wf P s) (h : Neat s) (hk : e.Orderly)
    (hd : Does P s e s') : e.Keeps := by
  cases hd with
  | refused => exact hk
  | closed hv hfiles hvmas hfresh =>
    rename_i vma
    cases hl : s.lookup vma.vm_file vma.vm_pgoff with
    | none => trivial
    | some r =>
      obtain ⟨info, mr⟩ := r
      rw [hl] at hk
      obtain ⟨hf, hm, -⟩ := search_listed hl
      have hh : mr.handle = vma.vm_pgoff := hk
      refine ⟨(h.pairs hf hm hv rfl).mapped hh.symm, fun m hmem hvma => ?_⟩
      have hpg := (h.pairs hf hmem hv rfl).vma hvma
      exact (hwf.files.spaced hf).handle_inj hmem hm (hpg.symm.trans hh.symm)
  | _ => trivial

theorem EventRun.neat {s : Kernel} {es : List Event} (h : EventRun P Event.Orderly s es) : Neat s ∧ Tracks s := by
  refine Runs.Run.inv_of (Wf P) (fun s => Neat s ∧ Tracks s) (fun s es hr => EventRun.wf hr) ?_
    (fun s e s' hwf hi hd => ?_) h
  · rintro s rfl
    exact ⟨⟨nofun, nofun⟩, nofun, nofun⟩
  · exact ⟨hd.2.neat hwf hi.1 hd.1, hd.2.tracks hwf hi.2 (hd.1.keeps hwf hi.1 hd.2)⟩

variable (P) in
/-- Runs of orderly users. -/
abbrev OrderlyRun := Runs.Run (· = init) (Runs.only (fun s o => orderly P s o = true) (step P))

theorem orderly_tracks {s : Kernel} {os : List Op} (h : OrderlyRun P s os) : Wf P s ∧ Tracks s := by
  obtain ⟨es, he⟩ := run_events (fun s o hwf ho e => orderly_event hwf ho) h
  exact ⟨he.wf, he.neat.2⟩

/-- Orderly users leave no stale translation. -/
theorem orderly_no_stale {s : Kernel} {os : List Op} (h : OrderlyRun P s os) : NoStale s := by
  obtain ⟨hwf, ht⟩ := orderly_tracks h
  exact ht.noStale hwf

/-! ## Unpinning in order -/

/-- The NVIDIA driver takes the page table back, in the callback or in `nvidia_p2p_put_pages*`. -/
def PutEnv.Returns (P : Platform) (env : PutEnv) : Prop :=
  (env.callback = true ∧ P.gdr_use_persistent_mapping = false) ∨ env.status = 0

theorem free_returns {env : PutEnv} {mr : Mr} (hm : gdr_mr_is_mapped mr = false) (vmas : List Vma) (n : Int) :
    ∃ n', gdr_free_mr_unlocked P env mr vmas n = .ok (vmas, n') ∧
      (env.Returns P → n' + mr.page_table.isSome.toNat = n) := by
  obtain ⟨⟨vmas', n'⟩, h⟩ := @free_total P env mr hm vmas n
  obtain rfl := free_unmapped hm h
  refine ⟨n', h, fun hr => ?_⟩
  unfold gdr_free_mr_unlocked at h
  rw [if_neg (by simp [hm])] at h
  cases hpt : mr.page_table with
  | none =>
    rw [hpt] at h
    obtain ⟨-, rfl⟩ := Prod.mk.inj (Except.ok.inj h)
    exact Int.add_zero n
  | some pt =>
    rw [hpt] at h
    have hn : n' = n - 1 := by
      dsimp only at h
      split at h
      · unfold gdrdrv_get_pages_free_callback at h
        simp only [hpt] at h
        rw [if_neg (by simpa [gdr_mr_is_mapped] using hm)] at h
        exact (Prod.mk.inj (Except.ok.inj h)).2.symm
      · next hcb =>
        rw [if_pos (hr.resolve_left fun hcall => hcb (by simp [hcall]))] at h
        exact (Prod.mk.inj (Except.ok.inj h)).2.symm
    rw [hn]
    exact Int.sub_add_cancel n 1

theorem zap_filter (f : Nat) (vma : Vma) (vmas : List Vma) :
    (gdrdrv_zap_vma P f vma vmas).filter (·.vm_file ≠ f) = vmas.filter (·.vm_file ≠ f) := by
  unfold gdrdrv_zap_vma unmap_mapping_range
  induction vmas with
  | nil => rfl
  | cons v vmas ih =>
    rw [List.map_cons]
    by_cases hv : v.vm_file = f
    · rw [if_pos hv, List.filter_cons_of_neg (by simpa using hv), List.filter_cons_of_neg (by simpa using hv), ih]
    · rw [if_neg hv, List.filter_cons_of_pos (by simpa using hv), List.filter_cons_of_pos (by simpa using hv), ih]

/-- The zap of an mr that the driver tracks is within its file. -/
theorem zap_tracked {s : Kernel} {f : Nat} {info : Info} {mr : Mr} (ht : Tracks s) (hf : s.files f = some info)
    (hm : mr ∈ info.mr_list) : ∃ vmas, zapIfMapped P mr s.vmas = .ok ({ mr with cpu_mapping_type := .NONE }, vmas) ∧
      vmas.filter (·.vm_file ≠ f) = s.vmas.filter (·.vm_file ≠ f) := by
  have hnone : mr.cpu_mapping_type = .NONE → ({ mr with cpu_mapping_type := .NONE } : Mr) = mr := fun h => by rw [← h]
  unfold zapIfMapped
  by_cases hmap : gdr_mr_is_mapped mr = true
  swap
  · rw [if_neg hmap]
    refine ⟨s.vmas, ?_, rfl⟩
    rw [hnone (by simpa [gdr_mr_is_mapped] using hmap)]
  rw [if_pos hmap]
  unfold gdr_mr_destroy_all_mappings
  cases hv : mr.vma with
  | none => exact ⟨s.vmas, rfl, rfl⟩
  | some v =>
    obtain ⟨hmapping, w, hw, hid, hwf⟩ := ht.vma hf hm hv
    obtain ⟨u, hu⟩ : ∃ u, s.vmas.find? (·.id = v) = some u :=
      Option.isSome_iff_exists.1 (by simpa using ⟨w, hw, hid⟩)
    simp only [hmapping, hu]
    exact ⟨_, rfl, zap_filter f u s.vmas⟩

/-- While the driver tracks its VMAs, unpinning a listed mr cannot stop the kernel, and it stays within the file. -/
theorem unpin_tracked {s : Kernel} {f handle : Nat} {info : Info} {mr : Mr} {env : PutEnv} (ht : Tracks s)
    (hf : s.files f = some info) (hs : gdr_mr_from_handle_unlocked info handle = some mr) :
    ∃ s', __gdrdrv_unpin_buffer P env s f info handle = .ok (0, s') ∧
      s'.files = Function.update s.files f (some (info.list_del mr)) ∧ Pruned s.vmas s'.vmas ∧
      s'.vmas.filter (·.vm_file ≠ f) = s.vmas.filter (·.vm_file ≠ f) ∧
      (env.Returns P → s'.gdrdrv_nv_get_pages_refcount + mr.page_table.isSome.toNat =
        s.gdrdrv_nv_get_pages_refcount) := by
  obtain ⟨vmas, hz, hfilter⟩ := @zap_tracked P s f info mr ht hf (search_mem hs)
  obtain ⟨n, hfree, hn⟩ := @free_returns P env { mr with cpu_mapping_type := .NONE } rfl vmas
    s.gdrdrv_nv_get_pages_refcount
  rw [unpin_eq hs, hz]
  simp only [bind, Except.bind, hfree]
  exact ⟨_, rfl, rfl, zapIfMapped_pruned hz, hfilter, hn⟩

end

end gdrdrv
