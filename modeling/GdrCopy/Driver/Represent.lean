import GdrCopy.Driver.Mapping
/-!
# The life of an mr

Every operation changes a listed mr in one of a few ways (`Mr.Change`), however the
VMAs split: `SysStep.listed`. What each change keeps then holds of every listed mr in
every reachable state. `mr_representation` is the invariant that the library's
choice of fences and its asserts rely on.
-/

namespace gdrdrv

open Runs (Path)

section
variable (P : Platform)

/-! ## One change -/

/-- How one operation changes a listed mr. -/
inductive Mr.Change : Mr → Mr → Prop
  | same {mr} : Change mr mr
  | requested {mr t} : gdr_mr_is_mapped mr = false → typeAllowed P mr t = true →
    Change mr { mr with req_mapping_type := t }
  | refused {mr} : Change mr (mmapFail mr)
  | mapped {mr pt v f} : gdr_mr_is_mapped mr = false → mr.cb_flag = false → mr.page_table = some pt → 0 < pt.entries →
    mr.offset = 0 → chooseType P mr ≠ .NONE →
    Change mr { mr with vma := some v, mapping := some f, cpu_mapping_type := chooseType P mr }
  | closed {mr} : Change mr (closeMr mr)
  | invalidated {mr} : Change mr (invalid mr)

/-- The mr is the one that the pin `o` lists when the next unused address is `fresh`. -/
def Mr.MadeBy (mr : Mr) (fresh : Nat) (o : SysOp) : Prop :=
  ∃ f cur cmd q info info', o.call = some (.ioctl f cur cmd) ∧ cmd.request = some q ∧ Pinned P q fresh info mr info'

/-- The mrs on the lists of `files'` come from those of `files` by one change each, or are `made`. -/
def Listed (made : Mr → Prop) (files files' : Nat → Option Info) : Prop :=
  ∀ f info', files' f = some info' → ∀ mr' ∈ info'.mr_list,
    (∃ info mr, files f = some info ∧ mr ∈ info.mr_list ∧ mr.Change P mr') ∨ made mr'

variable {P}
variable {made : Mr → Prop} {files files' : Nat → Option Info}

theorem Mr.Change.ptr {mr mr' : Mr} (h : mr.Change P mr') : mr'.ptr = mr.ptr := by
  cases h <;> rfl

theorem Listed.same (h : files' = files) : Listed P made files files' := by
  rintro f info' hf mr' hm
  exact .inl ⟨info', mr', by rw [← h, hf], hm, .same⟩

/-- One list is replaced by `info'`. -/
theorem Listed.update {f : Nat} {info info' : Info} (hf : files f = some info)
    (h : ∀ mr' ∈ info'.mr_list, (∃ mr ∈ info.mr_list, mr.Change P mr') ∨ made mr') :
    Listed P made files (Function.update files f (some info')) := by
  rintro g i hg mr' hm
  rcases get_update hg with ⟨rfl, he⟩ | ⟨-, hg⟩
  · obtain rfl := Option.some.inj he
    rcases h mr' hm with ⟨mr, hmr, hc⟩ | hmade
    · exact .inl ⟨info, mr, hf, hmr, hc⟩
    · exact .inr hmade
  · exact .inl ⟨i, mr', hg, hm, .same⟩

theorem Listed.put {f : Nat} {info : Info} {mr mr' : Mr} (hf : files f = some info) (hm : mr ∈ info.mr_list)
    (hc : mr.Change P mr') : Listed P made files (Function.update files f (some (info.put mr'))) := by
  refine .update hf fun m hm' => ?_
  rcases mem_put hm' with ⟨rfl, -⟩ | ⟨hm', -⟩
  · exact .inl ⟨mr, hm, hc⟩
  · exact .inl ⟨m, hm', .same⟩

theorem Listed.list_del {f : Nat} {info : Info} (mr : Mr) (hf : files f = some info) :
    Listed P made files (Function.update files f (some (info.list_del mr))) :=
  .update hf fun m hm => .inl ⟨m, (mem_list_del.1 hm).1, .same⟩

theorem Listed.list_add {f : Nat} {info info' : Info} {mr : Mr} (hf : files f = some info)
    (hl : info'.mr_list = info.mr_list) (hmade : made mr) :
    Listed P made files (Function.update files f (some (info'.list_add mr))) := by
  refine .update hf fun m hm => ?_
  rw [Info.list_add, hl] at hm
  rcases List.mem_cons.1 hm with rfl | hm
  · exact .inr hmade
  · exact .inl ⟨m, hm, .same⟩

theorem Listed.forget (f : Nat) : Listed P made files (Function.update files f none) := by
  rintro g i hg mr' hm
  rcases get_update hg with ⟨-, he⟩ | ⟨-, hg⟩
  · cases he
  · exact .inl ⟨i, mr', hg, hm, .same⟩

/-! ## One operation -/

theorem reqLocked_change (mr : Mr) (t : MrType) : mr.Change P (reqLocked P mr t).2 := by
  unfold reqLocked
  by_cases hm : gdr_mr_is_mapped mr = true
  · rw [if_pos hm]
    exact .same
  rw [if_neg hm]
  by_cases ht : typeAllowed P mr t = true
  · rw [if_neg (by simp [ht])]
    exact .requested (by simpa using hm) ht
  · rw [if_pos (by simpa using ht)]
    exact .same

/-- A failed pin lists nothing; a successful one lists its mr, unless the handle does not reach the caller. -/
theorem pinCall_listed {s s' : Kernel} {f : Nat} {q : PinRequest} {info : Info} {unpin : PutEnv}
    {ctu : Bool} {r : Reply} (hc : PinCall P s f q info unpin ctu r s')
    (hmade : ∀ mr info', Pinned P q s.fresh info mr info' → made mr) :
    Listed P made s.files s'.files := by
  have hf := hc.file
  obtain ⟨ret, handle, s1, hp, h⟩ := hc.ends
  rcases pin_inv hp with ⟨hne, hfail⟩ | ⟨rfl, mr, info', hpin, rfl, hs⟩
  · rcases pinReply_cases h with ⟨-, -, rfl⟩ | ⟨h0, -⟩ | ⟨h0, -⟩
    · exact .same hfail.same.1
    · exact absurd h0 hne
    · exact absurd h0 hne
  · have hadd : Listed P made s.files s1.files := by
      rw [hs]
      exact .list_add hf hpin.list (hmade mr info' hpin)
    have hf1 : s1.files f = some (info'.list_add mr) := by rw [hs]; exact Function.update_self _ _ _
    rcases pinReply_cases h with ⟨hne, -⟩ | ⟨-, -, rfl⟩ | ⟨-, -, rfl | ⟨info1, ret2, hf1', hu⟩⟩
    · exact absurd rfl hne
    · exact hadd
    · exact hadd
    obtain rfl := Option.some.inj (hf1.symm.trans hf1')
    rcases unpin_cases hf1 hu with ⟨-, -, rfl⟩ | ⟨-, m, hsearch, hd⟩
    · exact hadd
    cases hd with
    | unlinked hf2 hm hz hfiles hfresh =>
      rw [hf1] at hf2
      obtain rfl := Option.some.inj hf2
      rw [hfiles, hs]
      simp only [Kernel.setFile, Function.update_idem]
      refine .update hf fun m' hm' => ?_
      have hmem := (mem_list_del.1 hm').1
      rw [Info.list_add, hpin.list] at hmem
      rcases List.mem_cons.1 hmem with rfl | hmem
      · exact .inr (hmade _ _ hpin)
      · exact .inl ⟨m', hmem, .same⟩

theorem ioctl_listed {s s' : Kernel} {f cur : Nat} {cmd : Cmd} {r : Reply}
    (h : gdrdrv_ioctl P s f cur cmd = .ok (r, s')) :
    Listed P (·.MadeBy P s.fresh (.op (.ioctl f cur cmd))) s.files s'.files := by
  cases gdrdrv_ioctl_runs P s f cur cmd with
  | same _ hx =>
    rw [hx] at h
    obtain ⟨-, rfl⟩ := Prod.mk.inj (Except.ok.inj h)
    exact .same rfl
  | pins hq hf hx =>
    exact pinCall_listed ⟨hf, hx ▸ h⟩ fun mr info' hpin => ⟨f, cur, cmd, _, _, info', rfl, hq, hpin⟩
  | unpins _ hf hx =>
    rename_i env info handle _
    rw [hx] at h
    generalize hu : __gdrdrv_unpin_buffer P env s f info handle = u at h
    cases u with
    | error e => cases h
    | ok u =>
      obtain ⟨ret, s1⟩ := u
      obtain ⟨-, rfl⟩ := Prod.mk.inj (Except.ok.inj h)
      rcases unpin_cases hf hu with ⟨-, -, rfl⟩ | ⟨-, mr, -, hd⟩
      · exact .same rfl
      · cases hd with
        | unlinked hf1 hm hz hfiles hfresh =>
          rw [hfiles]
          exact .list_del _ hf1
  | requests _ hf hs hx =>
    rw [hx] at h
    obtain ⟨-, rfl⟩ := Prod.mk.inj (Except.ok.inj h)
    exact .put hf (search_mem hs) (reqLocked_change _ _)

theorem mmap_listed {env : RemapEnv} {s s' : Kernel} {f cur start len : Nat} {off : BitVec 64} {r : Reply}
    (h : sysMmap P env s f cur start len off = .ok (r, s')) : Listed P made s.files s'.files := by
  cases sysMmap_ends h with
  | same _ hfiles _ _ => exact .same hfiles
  | refused _ hf hs heq =>
    rw [heq]
    exact .put hf (search_mem hs) .refused
  | mapped _ hm heq =>
    rw [heq]
    exact .put hm.file (search_mem hm.search)
      (.mapped hm.unmapped hm.cb_flag hm.page_table hm.entries hm.offset hm.type)

theorem vma_close_listed (s : Kernel) (v : Vma) : Listed P made s.files (gdrdrv_vma_close s v).files := by
  rw [vma_close_files]
  cases hl : s.lookup v.vm_file v.vm_pgoff with
  | none => exact .same rfl
  | some r =>
    obtain ⟨info, mr⟩ := r
    obtain ⟨hf, hm, -⟩ := search_listed hl
    exact .put hf hm .closed

/-- Closing an mr twice is closing it once. -/
theorem closeMr_closeMr (mr : Mr) : closeMr (closeMr mr) = closeMr mr := rfl

/-- Several pieces that go at once close each mr they lead to. -/
theorem closes_listed (gone : List Vma) (s : Kernel) : Listed P made s.files (gone.foldl gdrdrv_vma_close s).files := by
  suffices h : ∀ f info', (gone.foldl gdrdrv_vma_close s).files f = some info' → ∀ mr' ∈ info'.mr_list,
      ∃ info mr, s.files f = some info ∧ mr ∈ info.mr_list ∧ (mr' = mr ∨ mr' = closeMr mr) by
    intro f info' hf mr' hm
    obtain ⟨info, mr, hf0, hm0, rfl | rfl⟩ := h f info' hf mr' hm
    · exact .inl ⟨info, _, hf0, hm0, .same⟩
    · exact .inl ⟨info, mr, hf0, hm0, .closed⟩
  induction gone generalizing s with
  | nil => exact fun f info' hf mr' hm => ⟨info', mr', hf, hm, .inl rfl⟩
  | cons g gone ih =>
    intro f info' hf mr' hm
    obtain ⟨info1, mr1, hf1, hm1, h1⟩ := ih (gdrdrv_vma_close s g) f info' hf mr' hm
    rw [vma_close_files] at hf1
    cases hl : s.lookup g.vm_file g.vm_pgoff with
    | none =>
      rw [hl] at hf1
      exact ⟨info1, mr1, hf1, hm1, h1⟩
    | some r =>
      rw [hl] at hf1
      rcases get_update hf1 with ⟨rfl, he⟩ | ⟨-, hf1⟩
      · obtain ⟨info0, mr0⟩ := r
        obtain ⟨hf0, hm0, -⟩ := search_listed hl
        rw [← Option.some.inj he] at hm1
        rcases mem_put hm1 with ⟨rfl, -⟩ | ⟨hm1, -⟩
        · refine ⟨info0, mr0, hf0, hm0, .inr ?_⟩
          rcases h1 with rfl | rfl
          · rfl
          · exact closeMr_closeMr mr0
        · exact ⟨info0, mr1, hf0, hm1, h1⟩
      · exact ⟨info1, mr1, hf1, hm1, h1⟩

theorem step_listed {s s' : Kernel} {o : Op} (h : step P s o s') :
    Listed P (·.MadeBy P s.fresh (.op o)) s.files s'.files := by
  obtain ⟨r, h⟩ := h
  cases h with
  | openFile =>
    rename_i minor cur kzalloc
    unfold gdrdrv_open
    split
    · exact .same rfl
    split
    · exact .same rfl
    · intro f info' hf mr' hm
      rcases get_update hf with ⟨-, he⟩ | ⟨-, hf⟩
      · obtain rfl := Option.some.inj he
        cases hm
      · exact .inl ⟨info', mr', hf, hm, .same⟩
  | ioctl h => exact ioctl_listed h
  | mmap h => exact mmap_listed h
  | munmap hv => exact vma_close_listed _ _
  | callback _ hf hm h =>
    cases callback_path hf hm h with
    | invalidated hf1 hm1 hz hfiles hfresh =>
      rw [hfiles]
      exact .put hf1 hm1 .invalidated
  | release h =>
    rename_i f env
    unfold gdrdrv_release at h
    cases hf : s.files f with
    | none =>
      rw [hf] at h
      rw [← (Prod.mk.inj (Except.ok.inj h)).2]
      exact .same rfl
    | some info =>
      rw [hf] at h
      dsimp only at h
      generalize releaseLoop P env info.mr_list s.vmas s.gdrdrv_nv_get_pages_refcount = l at h
      cases l with
      | error e => cases h
      | ok l =>
        rw [← (Prod.mk.inj (Except.ok.inj h)).2]
        exact .forget f

/-- What an operation does to the lists, whether or not VMAs are split. -/
theorem SysStep.listed {s s' : Kernel} {o : SysOp} (h : SysStep P s o s') :
    Listed P (·.MadeBy P s.fresh o) s.files s'.files := by
  cases h with
  | op h => exact step_listed h
  | stale _ h =>
    have hl := step_listed h
    exact hl
  | munmapRange hcs hd => exact closes_listed _ _
  | fork => exact .same rfl

/-- Where the operations of a run meet `ok`, what a new mr has and every change keeps
holds of every listed mr. -/
theorem listed_inv {ok : Kernel → SysOp → Prop} {I : Mr → Prop}
    (hmade : ∀ {s o} {mr : Mr}, ok s o → mr.MadeBy P s.fresh o → I mr)
    (hchange : ∀ {mr mr' : Mr}, mr.Change P mr' → I mr → I mr') {s : Kernel} {os : List SysOp}
    (h : Runs.Run (· = init) (Runs.only ok (SysStep P)) s os) :
    ∀ f info, s.files f = some info → ∀ mr ∈ info.mr_list, I mr := by
  refine h.inv (fun s => ∀ f info, s.files f = some info → ∀ mr ∈ info.mr_list, I mr) ?_ fun s o s' hi ht => ?_
  · rintro s rfl f info hf
    cases hf
  · intro f info' hf mr' hm
    rcases ht.2.listed f info' hf mr' hm with ⟨info, mr, hf0, hm0, hc⟩ | hnew
    · exact hchange hc (hi f info hf0 mr hm0)
    · exact hmade ht.1 hnew

/-! ## The representation invariant -/

/-- What the fields of an mr say about one another. -/
structure Mr.Represents (P : Platform) (mr : Mr) : Prop where
  mapped : mr.cpu_mapping_type ≠ .NONE → (∃ pt, mr.page_table = some pt ∧ 0 < pt.entries) ∧ mr.cb_flag = false ∧
    mr.offset = 0 ∧ mr.vma.isSome ∧ mr.mapping.isSome
  caching : mr.cpu_mapping_type = .CACHING → gdr_mr_supports_cache_mapping P mr = true
  device : mr.cpu_mapping_type = .DEVICE → P.gdrdrv_cpu_must_use_device_mapping = true
  wc : mr.cpu_mapping_type = .WC → P.gdrdrv_cpu_must_use_device_mapping = false
  invalidated : mr.cb_flag = true → mr.page_table = none ∧ mr.cpu_mapping_type = .NONE

/-- The same, with the type that a later `mmap` will use: it was granted for the
page table the mr still has. -/
structure Mr.Granted (P : Platform) (mr : Mr) : Prop where
  mapped : mr.cpu_mapping_type ≠ .NONE → (∃ pt, mr.page_table = some pt ∧ 0 < pt.entries) ∧ mr.cb_flag = false ∧
    mr.offset = 0 ∧ mr.vma.isSome ∧ mr.mapping.isSome
  type : typeAllowed P mr mr.cpu_mapping_type = true
  requested : mr.page_table.isSome → typeAllowed P mr mr.req_mapping_type = true
  invalidated : mr.cb_flag = true → mr.page_table = none

/-- Which types are allowed depends on the page table only. -/
theorem typeAllowed_congr {mr mr' : Mr} (h : mr'.page_table = mr.page_table) (t : MrType) :
    typeAllowed P mr' t = typeAllowed P mr t := by
  cases t <;> simp only [typeAllowed, gdr_mr_supports_cache_mapping, h]

/-- The type that a `mmap` chooses is one the platform allows. -/
theorem chooseType_allowed {mr : Mr} (h : typeAllowed P mr mr.req_mapping_type = true) :
    typeAllowed P mr (chooseType P mr) = true := by
  unfold chooseType
  by_cases hr : mr.req_mapping_type ≠ .NONE
  · rw [if_pos hr]
    exact h
  rw [if_neg hr]
  by_cases hc : gdr_mr_supports_cache_mapping P mr = true
  · rw [if_pos hc]
    exact hc
  rw [if_neg hc]
  by_cases hd : P.gdrdrv_cpu_must_use_device_mapping = true
  · rw [if_pos hd]
    exact hd
  · rw [if_neg hd]
    simpa [typeAllowed] using hd

theorem Mr.MadeBy.granted {fresh : Nat} {o : SysOp} {mr : Mr} (h : mr.MadeBy P fresh o) : mr.Granted P := by
  obtain ⟨f, cur, cmd, q, info, info', -, -, -, tok, va, force, pt, page_size, -, -, -, he⟩ := h
  rw [he]
  exact ⟨fun hn => absurd rfl hn, rfl, fun _ => rfl, fun hc => (by cases hc)⟩

/-- An mr left unmapped, with its page table and its request as they were. -/
theorem Mr.Granted.unmapped {mr mr' : Mr} (h : mr.Granted P) (ht : mr'.cpu_mapping_type = .NONE)
    (hpt : mr'.page_table = mr.page_table) (hreq : mr'.req_mapping_type = mr.req_mapping_type)
    (hcb : mr'.cb_flag = mr.cb_flag) : mr'.Granted P := by
  refine ⟨fun hn => absurd ht hn, by rw [ht]; rfl, fun hs => ?_, fun hc => ?_⟩
  · rw [typeAllowed_congr hpt, hreq]
    exact h.requested (hpt ▸ hs)
  · rw [hpt]
    exact h.invalidated (hcb ▸ hc)

theorem Mr.Change.granted {mr mr' : Mr} (h : mr.Change P mr') (hi : mr.Granted P) : mr'.Granted P := by
  cases h with
  | same => exact hi
  | requested hm ht =>
    refine ⟨hi.mapped, ?_, fun _ => ?_, hi.invalidated⟩
    · exact hi.type
    · exact ht
  | refused => exact hi.unmapped rfl rfl rfl rfl
  | mapped hm hcb hpt hent hoff ht =>
    rename_i pt v f
    refine ⟨fun _ => ⟨⟨pt, hpt, hent⟩, hcb, hoff, rfl, rfl⟩, ?_, fun hs => ?_, hi.invalidated⟩
    · exact chooseType_allowed (hi.requested (by rw [hpt]; rfl))
    · exact hi.requested hs
  | closed => exact hi.unmapped rfl rfl rfl rfl
  | invalidated =>
    -- Without a page table the mr was unmapped already.
    have hn : (invalid mr).cpu_mapping_type = .NONE := by
      by_cases hpt : mr.page_table.isSome = true
      · exact if_pos hpt
      · by_contra hne
        rw [invalid, if_neg hpt] at hne
        obtain ⟨⟨pt, hsome, -⟩, -⟩ := hi.mapped hne
        rw [hsome] at hpt
        exact hpt rfl
    exact ⟨fun h => absurd hn h, by rw [hn]; rfl, fun hs => (by cases hs), fun _ => rfl⟩

theorem Mr.Granted.represents {mr : Mr} (h : mr.Granted P) : mr.Represents P := by
  have ht := h.type
  refine ⟨h.mapped, fun he => ?_, fun he => ?_, fun he => ?_, fun hcb => ⟨h.invalidated hcb, ?_⟩⟩
  · rw [he] at ht
    exact ht
  · rw [he] at ht
    exact ht
  · rw [he] at ht
    simpa [typeAllowed] using ht
  · by_contra hne
    rw [(h.mapped hne).2.1] at hcb
    cases hcb

theorem Mr.Change.cb_flag {mr mr' : Mr} (h : mr.Change P mr') (hcb : mr.cb_flag = true) : mr'.cb_flag = true := by
  cases h <;> first | exact hcb | rfl

/-- An mr whose callback has run keeps `cb_flag` for as long as it is listed. -/
theorem stays_invalidated {s s' : Kernel} {os : List SysOp} (hp : Path (SysStep P) s os s') {ptr : Nat}
    (hok : FilesOk P s.files s.fresh) (hlt : ptr < s.fresh)
    (hcb : ∀ f info, s.files f = some info → ∀ mr ∈ info.mr_list, mr.ptr = ptr → mr.cb_flag = true) :
    ∀ f info, s'.files f = some info → ∀ mr ∈ info.mr_list, mr.ptr = ptr → mr.cb_flag = true := by
  induction hp with
  | nil => exact hcb
  | cons ht _ ih =>
    refine ih (ht.filesOk hok) (Nat.lt_of_lt_of_le hlt (ht.fresh_le hok)) fun f info' hf mr' hm hptr => ?_
    rcases ht.listed f info' hf mr' hm with ⟨info, mr, hf0, hm0, hc⟩ | hnew
    · exact hc.cb_flag (hcb f info hf0 mr hm0 (hc.ptr.symm.trans hptr))
    · obtain ⟨g, cur, cmd, q, i, i', -, -, -, tok, va, force, pt, page_size, -, -, -, he⟩ := hnew
      rw [he] at hptr
      exact absurd hptr (Nat.ne_of_gt hlt)

theorem SysRun.granted {s : Kernel} {os : List SysOp} (h : SysRun P s os) {f : Nat} {info : Info} {mr : Mr}
    (hf : s.files f = some info) (hm : mr ∈ info.mr_list) : mr.Granted P :=
  listed_inv (fun (_ : True) => Mr.MadeBy.granted) Mr.Change.granted (h.mono fun _ _ _ ht => ⟨trivial, ht⟩)
    f info hf mr hm

/-- Every listed mr of every reachable state satisfies the invariant. One whose
callback has run stays without a page table, and unmapped, until it is freed. -/
theorem mr_representation {s : Kernel} {os : List SysOp} (h : SysRun P s os) {f : Nat} {info : Info} {mr : Mr}
    (hf : s.files f = some info) (hm : mr ∈ info.mr_list) :
    mr.Represents P ∧
      (mr.cb_flag = true → ∀ os' s', Path (SysStep P) s os' s' → ∀ g info' mr', s'.files g = some info' →
        mr' ∈ info'.mr_list → mr'.ptr = mr.ptr →
        mr'.cb_flag = true ∧ mr'.page_table = none ∧ mr'.cpu_mapping_type = .NONE) := by
  refine ⟨(h.granted hf hm).represents, fun hcb os' s' hp g info' mr' hg hm' hptr => ?_⟩
  have hok := h.filesOk
  have hlt : mr.ptr < s.fresh := Nat.lt_of_succ_lt (hok.mr hf hm).ptr
  have hcb' : mr'.cb_flag = true := by
    refine stays_invalidated hp hok hlt (fun g0 i0 hg0 m hm0 he => ?_) g info' hg mr' hm' hptr
    rw [(hok.ptr_inj hg0 hf hm0 hm he).2]
    exact hcb
  exact ⟨hcb', (SysRun.granted (h.path hp) hg hm').represents.invalidated hcb'⟩

end

theorem mr_representation_pinAndMap : ∃ s info mr, SysRun x86Host s (pinAndMap.map .op) ∧ s.files 0 = some info ∧
    mr ∈ info.mr_list ∧ mr.cpu_mapping_type = .WC ∧ mr.Represents x86Host := by
  obtain ⟨s, hs, hc⟩ : ∃ s, execAll x86Host (fun _ _ => true) init pinAndMap = some s ∧
      ((s.files 0).any fun info => info.mr_list.any fun mr => mr.cpu_mapping_type == .WC) = true :=
    Option.any_eq_true _ _ |>.1 (by decide +kernel)
  obtain ⟨info, hf, hc⟩ := Option.any_eq_true _ _ |>.1 hc
  obtain ⟨mr, hm, ht⟩ := List.any_eq_true.1 hc
  have hr : SysRun x86Host s (pinAndMap.map .op) := Run.sysRun (execAll_run hs).of_only
  exact ⟨s, info, mr, hr, hf, hm, by simpa using ht, (mr_representation hr hf hm).1⟩

end gdrdrv
