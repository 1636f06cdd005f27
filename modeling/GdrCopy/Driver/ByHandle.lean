import GdrCopy.Driver.Refine
/-!
# Operations by handle

What the operations that take a handle should do, and when the driver does it:
they act on the mr with that handle and on nothing else. The search answers a
handle that is not on the list with the last mr of the list, so they do
exactly when the handle is on the list or the list is empty.
-/

namespace gdrdrv

/-- An operation that names an mr by handle, with the rest of its request. -/
inductive HandleOp where
  | unpin_buffer (env : PutEnv)
  | get_cb_flag (ctu : Bool)
  | get_info (ctu : Bool)
  | get_info_v2 (ctu : Bool)
  | req_mapping_type (mapping_type : Nat)
  | mmap (env : RemapEnv) (vma : Vma)
  | vma_close (vma : Vma)

/-- The region of an `mmap` or of a close, at page offset `h` of file `f`. -/
def Vma.at (vma : Vma) (f h : Nat) : Vma := { vma with vm_file := f, vm_pgoff := h }

section
variable (P : Platform)

/-- The driver, called by the process that opened `f`. An `mmap` also yields its VMA. -/
def HandleOp.run (s : Kernel) (f : Nat) (info : Info) (h : Nat) (o : HandleOp) :
    Except Fault ((Reply × Option Vma) × Kernel) :=
  let ioctl (cmd : Cmd) := (gdrdrv_ioctl P s f info.tgid cmd).map fun r => ((r.1, none), r.2)
  match o with
  | .unpin_buffer env => ioctl (.unpin_buffer true env h)
  | .get_cb_flag ctu => ioctl (.get_cb_flag true ctu h)
  | .get_info ctu => ioctl (.get_info true ctu h)
  | .get_info_v2 ctu => ioctl (.get_info_v2 true ctu h)
  | .req_mapping_type t => ioctl (.req_mapping_type true h t)
  | .mmap env vma => (gdrdrv_mmap P env s f info.tgid (vma.at f h)).map fun r => ((.err r.1, some r.2.1), r.2.2)
  | .vma_close vma => .ok ((.err 0, none), gdrdrv_vma_close s (vma.at f h))

/-! ## What they should do -/

/-- The mr with handle `h`. -/
def Info.named (info : Info) (h : Nat) : Option Mr := info.mr_list.find? fun mr => mr.handle = h

/-- The list with `mr` in the place of the mr with handle `h`, or without it. -/
def Info.set (info : Info) (h : Nat) (mr : Option Mr) : Info :=
  { info with mr_list := info.mr_list.filterMap fun m => if m.handle = h then mr else some m }

/-- What an operation makes of the mr it names: the reply, the mr (or its removal),
the VMAs and the refcount. -/
structure OnMr where
  reply : Reply × Option Vma
  mr : Option Mr
  vmas : List Vma
  refcount : Int

/-- The operation on the mr `mr`. -/
def HandleOp.onMr (s : Kernel) (f h : Nat) (mr : Mr) (o : HandleOp) : Except Fault OnMr :=
  let same (reply : Reply) (mr : Mr) : Except Fault OnMr :=
    .ok ⟨(reply, none), some mr, s.vmas, s.gdrdrv_nv_get_pages_refcount⟩
  match o with
  | .unpin_buffer env => do
    let (mr, vmas) ← zapIfMapped P mr s.vmas
    let (vmas, refcount) ← gdr_free_mr_unlocked P env mr vmas s.gdrdrv_nv_get_pages_refcount
    .ok ⟨(.err 0, none), none, vmas, refcount⟩
  | .get_cb_flag ctu => same (copy_to_user ctu 0 (.flag mr.cb_flag.toNat)) mr
  | .get_info ctu =>
    same (copy_to_user ctu 0 (.info mr.va mr.mapped_size mr.page_size mr.tm_cycles mr.tsc_khz
      (gdr_mr_is_mapped mr).toNat (mr.cpu_mapping_type == .WC).toNat)) mr
  | .get_info_v2 ctu =>
    same (copy_to_user ctu 0 (.infoV2 mr.va mr.mapped_size mr.page_size mr.tm_cycles mr.tsc_khz
      mr.cpu_mapping_type.code)) mr
  | .req_mapping_type t =>
    match MrType.ofCode t with
    | none => same (.err (-EINVAL)) mr
    | some t => same (.err (reqLocked P mr t).1) (reqLocked P mr t).2
  | .mmap env vma =>
    (mmapLocked P env f mr (vma.at f h)).map fun r =>
      ⟨(.err r.1, some r.2.2), some r.2.1, s.vmas, s.gdrdrv_nv_get_pages_refcount⟩
  | .vma_close _ => same (.err 0) (closeMr mr)

/-- The answer when no mr has the handle. -/
def HandleOp.miss (f h : Nat) : HandleOp → Reply × Option Vma
  | .vma_close _ => (.err 0, none)
  | .mmap _ vma => (.err (-EINVAL), some (vma.at f h))
  | _ => (.err (-EINVAL), none)

/-- Act on the mr with handle `h` alone, or leave everything as it is. -/
def HandleOp.spec (s : Kernel) (f : Nat) (info : Info) (h : Nat) (o : HandleOp) :
    Except Fault ((Reply × Option Vma) × Kernel) :=
  match info.named h with
  | none => .ok (o.miss f h, s)
  | some mr =>
    (o.onMr P s f h mr).map fun r =>
      (r.reply, { s.setFile f (some (info.set h r.mr)) with vmas := r.vmas, gdrdrv_nv_get_pages_refcount := r.refcount })

/-! ## A handle on the list -/

variable {P} {s : Kernel} {f : Nat} {info : Info} {h : Nat}

theorem named_mem {mr : Mr} (hn : info.named h = some mr) : mr ∈ info.mr_list ∧ mr.handle = h :=
  ⟨List.mem_of_find?_eq_some hn, by simpa using List.find?_some hn⟩

theorem named_search {mr : Mr} (hwf : Wf P s) (hf : s.files f = some info) (hn : info.named h = some mr) :
    gdr_mr_from_handle_unlocked info h = some mr := by
  obtain ⟨hm, rfl⟩ := named_mem hn
  exact (hwf.files.spaced hf).search hm

/-- Address and handle tell the same mr. -/
theorem ptr_iff_handle {mr m : Mr} (hwf : Wf P s) (hf : s.files f = some info) (hn : info.named h = some mr)
    (hm : m ∈ info.mr_list) : m.ptr = mr.ptr ↔ m.handle = h := by
  obtain ⟨hmr, rfl⟩ := named_mem hn
  constructor
  · intro he
    rw [(hwf.files.ptr_inj hf hf hm hmr he).2]
  · intro he
    rw [(hwf.files.spaced hf).handle_inj hm hmr he]

theorem put_eq_set {mr mr' : Mr} (hwf : Wf P s) (hf : s.files f = some info) (hn : info.named h = some mr)
    (hptr : mr'.ptr = mr.ptr) : info.put mr' = info.set h (some mr') := by
  rw [Info.put, Info.set, ← List.filterMap_eq_map]
  congr 1
  refine List.filterMap_congr fun m hm => ?_
  rw [hptr]
  simp only [Function.comp_apply, ptr_iff_handle hwf hf hn hm]
  by_cases he : m.handle = h <;> simp [he]

theorem list_del_eq_set {mr mr' : Mr} (hwf : Wf P s) (hf : s.files f = some info) (hn : info.named h = some mr)
    (hptr : mr'.ptr = mr.ptr) : info.list_del mr' = info.set h none := by
  rw [Info.list_del, Info.set, ← List.filterMap_eq_filter]
  congr 1
  refine List.filterMap_congr fun m hm => ?_
  rw [hptr]
  simp only [Option.guard, ne_eq, ptr_iff_handle hwf hf hn hm]
  by_cases he : m.handle = h <;> simp [he]

/-- Putting back the mr that is there changes nothing. -/
theorem set_same {mr : Mr} (hwf : Wf P s) (hf : s.files f = some info) (hn : info.named h = some mr) :
    info.set h (some mr) = info := by
  obtain ⟨hmr, rfl⟩ := named_mem hn
  rw [Info.set]
  have : (info.mr_list.filterMap fun m => if m.handle = mr.handle then some mr else some m) =
      info.mr_list.filterMap some := by
    refine List.filterMap_congr fun m hm => ?_
    by_cases he : m.handle = mr.handle
    · rw [if_pos he, (hwf.files.spaced hf).handle_inj hm hmr he]
    · rw [if_neg he]
  rw [this, List.filterMap_some]

theorem setFile_same (hf : s.files f = some info) : s.setFile f (some info) = s := by
  unfold Kernel.setFile
  rw [← hf, Function.update_eq_self]

theorem unpin_named {env : PutEnv} {mr : Mr} (hwf : Wf P s) (hf : s.files f = some info) (hn : info.named h = some mr) :
    (HandleOp.unpin_buffer env).run P s f info h = (HandleOp.unpin_buffer env).spec P s f info h := by
  simp only [HandleOp.run, HandleOp.spec, HandleOp.onMr, hn, ioctl_own hf (by simp : Cmd.unpin_buffer true env h ≠ _),
    ioctlSwitch, gdrdrv_unpin_buffer, unpin_eq (named_search hwf hf hn), Bool.not_true, Bool.false_eq_true, if_false]
  generalize hz : zapIfMapped P mr s.vmas = z
  cases z with
  | error e => rfl
  | ok z =>
    obtain ⟨m1, v1⟩ := z
    obtain ⟨rfl, -⟩ := zapIfMapped_cases hz
    simp only [bind, Except.bind]
    cases gdr_free_mr_unlocked P env { mr with cpu_mapping_type := .NONE } v1 s.gdrdrv_nv_get_pages_refcount with
    | error e => rfl
    | ok w =>
      obtain ⟨v2, n2⟩ := w
      rw [list_del_eq_set hwf hf hn (rfl : ({ mr with cpu_mapping_type := .NONE } : Mr).ptr = mr.ptr)]
      rfl

theorem same_state {mr : Mr} (hwf : Wf P s) (hf : s.files f = some info) (hn : info.named h = some mr) :
    ({ s.setFile f (some (info.set h (some mr))) with
      vmas := s.vmas, gdrdrv_nv_get_pages_refcount := s.gdrdrv_nv_get_pages_refcount } : Kernel) = s := by
  rw [set_same hwf hf hn]
  exact setFile_same hf

theorem mmapLocked_ptr {env : RemapEnv} {mr mr' : Mr} {vma v' : Vma} {ret : Int}
    (hm : mmapLocked P env f mr vma = .ok (ret, mr', v')) : mr'.ptr = mr.ptr := by
  rcases mmapLocked_cases P hm with ⟨-, rfl⟩ | ⟨-, -, -, -, -, -, rfl, -⟩ <;> rfl

theorem mmap_named {env : RemapEnv} {vma : Vma} {mr : Mr} (hwf : Wf P s) (hf : s.files f = some info)
    (hn : info.named h = some mr) :
    (HandleOp.mmap env vma).run P s f info h = (HandleOp.mmap env vma).spec P s f info h := by
  have hsame : gdrdrv_check_same_process info info.tgid = true := beq_self_eq_true _
  have hs : gdr_mr_from_handle_unlocked info (gdrdrv_handle_from_off (vma.at f h).vm_pgoff) = some mr :=
    named_search hwf hf hn
  simp only [HandleOp.run, HandleOp.spec, HandleOp.onMr, hn, gdrdrv_mmap, hf, hsame, hs, Bool.not_true,
    Bool.false_eq_true, if_false]
  generalize hm : mmapLocked P env f mr (vma.at f h) = m
  cases m with
  | error e => rfl
  | ok m =>
    obtain ⟨ret, mr', v'⟩ := m
    simp only [Except.map, put_eq_set hwf hf hn (mmapLocked_ptr hm)]
    rfl

/-- On a handle that is on the list every operation does what it should. -/
theorem run_named {mr : Mr} (hwf : Wf P s) (hf : s.files f = some info) (hn : info.named h = some mr) (o : HandleOp) :
    o.run P s f info h = o.spec P s f info h := by
  have hs := named_search hwf hf hn
  have hsame := same_state hwf hf hn
  cases o with
  | unpin_buffer env => exact unpin_named hwf hf hn
  | mmap env vma => exact mmap_named hwf hf hn
  | vma_close vma =>
    have hs' : gdr_mr_from_handle_unlocked info (gdrdrv_handle_from_off (vma.at f h).vm_pgoff) = some mr := hs
    have hf' : s.files (vma.at f h).vm_file = some info := hf
    simp only [HandleOp.run, HandleOp.spec, HandleOp.onMr, hn, gdrdrv_vma_close, hf', hs']
    rw [put_eq_set hwf hf hn (rfl : (closeMr mr).ptr = mr.ptr)]
    rfl
  | req_mapping_type t =>
    simp only [HandleOp.run, HandleOp.spec, HandleOp.onMr, hn,
      ioctl_own hf (by simp : Cmd.req_mapping_type true h t ≠ _), ioctlSwitch, gdrdrv_req_mapping_type, hs,
        Bool.not_true, Bool.false_eq_true, if_false]
    cases ht : MrType.ofCode t with
    | none => simp only [Except.map, hsame]
    | some t' =>
      have hptr : (reqLocked P mr t').2.ptr = mr.ptr := by
        unfold reqLocked
        split
        · rfl
        · split <;> rfl
      simp only [Except.map, put_eq_set hwf hf hn hptr]
      rfl
  | get_cb_flag ctu =>
    simp only [HandleOp.run, HandleOp.spec, HandleOp.onMr, hn, ioctl_own hf (by simp : Cmd.get_cb_flag true ctu h ≠ _),
      ioctlSwitch, gdrdrv_get_cb_flag, readMr, hs, Bool.not_true, Bool.false_eq_true, if_false, Except.map, hsame]
  | get_info ctu =>
    simp only [HandleOp.run, HandleOp.spec, HandleOp.onMr, hn, ioctl_own hf (by simp : Cmd.get_info true ctu h ≠ _),
      ioctlSwitch, gdrdrv_get_info, readMr, hs, Bool.not_true, Bool.false_eq_true, if_false, Except.map, hsame]
  | get_info_v2 ctu =>
    simp only [HandleOp.run, HandleOp.spec, HandleOp.onMr, hn, ioctl_own hf (by simp : Cmd.get_info_v2 true ctu h ≠ _),
      ioctlSwitch, gdrdrv_get_info_v2, readMr, hs, Bool.not_true, Bool.false_eq_true, if_false, Except.map, hsame]

/-! ## A handle that is not on the list -/

/-- With no mr to find, every operation reports so and changes nothing. -/
theorem run_empty (hf : s.files f = some info) (hl : info.mr_list = []) (o : HandleOp) :
    o.run P s f info h = .ok (o.miss f h, s) := by
  have hs : gdr_mr_from_handle_unlocked info h = none := search_nil h hl
  cases o with
  | mmap env vma =>
    have hs' : gdr_mr_from_handle_unlocked info (gdrdrv_handle_from_off (vma.at f h).vm_pgoff) = none := hs
    have hsame : gdrdrv_check_same_process info info.tgid = true := beq_self_eq_true _
    simp only [HandleOp.run, gdrdrv_mmap, hf, hsame, hs', Bool.not_true, Bool.false_eq_true, if_false]
    rfl
  | vma_close vma =>
    have hs' : gdr_mr_from_handle_unlocked info (gdrdrv_handle_from_off (vma.at f h).vm_pgoff) = none := hs
    have hf' : s.files (vma.at f h).vm_file = some info := hf
    simp only [HandleOp.run, gdrdrv_vma_close, hf', hs']
    rfl
  | req_mapping_type t =>
    simp only [HandleOp.run, ioctl_own hf (by simp : Cmd.req_mapping_type true h t ≠ _), ioctlSwitch,
      gdrdrv_req_mapping_type, hs, Bool.not_true, Bool.false_eq_true, if_false]
    split <;> rfl
  | unpin_buffer env =>
    simp only [HandleOp.run, ioctl_own hf (by simp : Cmd.unpin_buffer true env h ≠ _), ioctlSwitch, gdrdrv_unpin_buffer,
      __gdrdrv_unpin_buffer, hs, Bool.not_true, Bool.false_eq_true, if_false]
    rfl
  | get_cb_flag ctu =>
    simp only [HandleOp.run, ioctl_own hf (by simp : Cmd.get_cb_flag true ctu h ≠ _), ioctlSwitch, gdrdrv_get_cb_flag,
      readMr, hs, Bool.not_true, Bool.false_eq_true, if_false]
    rfl
  | get_info ctu =>
    simp only [HandleOp.run, ioctl_own hf (by simp : Cmd.get_info true ctu h ≠ _), ioctlSwitch, gdrdrv_get_info, readMr,
      hs, Bool.not_true, Bool.false_eq_true, if_false]
    rfl
  | get_info_v2 ctu =>
    simp only [HandleOp.run, ioctl_own hf (by simp : Cmd.get_info_v2 true ctu h ≠ _), ioctlSwitch, gdrdrv_get_info_v2,
      readMr, hs, Bool.not_true, Bool.false_eq_true, if_false]
    rfl

/-- On a list without the handle but not empty, `get_cb_flag` reads the last mr. -/
theorem cb_flag_miss {mr : Mr} (hf : s.files f = some info) (hh : ∀ m ∈ info.mr_list, m.handle ≠ h)
    (hl : info.mr_list.getLast? = some mr) :
    (HandleOp.get_cb_flag true).run P s f info h = .ok ((⟨0, .flag mr.cb_flag.toNat⟩, none), s) := by
  simp only [HandleOp.run, ioctl_own hf (by simp : Cmd.get_cb_flag true true h ≠ _), ioctlSwitch, gdrdrv_get_cb_flag,
    readMr, search_miss hh, hl, Bool.not_true, Bool.false_eq_true, if_false]
  rfl

/-- In every reachable state, all operations by handle `h` act on the mr with that
handle and on nothing else exactly when `h` is on the list or the list is empty. -/
theorem acts_on_named (hr : Reachable P s) (hf : s.files f = some info) (h : Nat) :
    (∀ o : HandleOp, o.run P s f info h = o.spec P s f info h) ↔
      info.mr_list = [] ∨ ∃ mr ∈ info.mr_list, mr.handle = h := by
  have hwf := hr.wf
  constructor
  · intro hall
    by_contra hc
    obtain ⟨hne, hh⟩ := not_or.1 hc
    push Not at hh
    have hnone : info.named h = none := by simpa [Info.named] using hh
    have hget := hall (.get_cb_flag true)
    rw [cb_flag_miss hf hh (List.getLast?_eq_some_getLast hne), HandleOp.spec, hnone] at hget
    simp only [HandleOp.miss, Reply.err, Except.ok.injEq, Prod.mk.injEq, Reply.mk.injEq] at hget
    exact absurd hget.1.1.1 (by decide)
  · rintro (hl | ⟨mr, hm, rfl⟩) o
    · have hnone : info.named h = none := by simp [Info.named, hl]
      rw [run_empty hf hl, HandleOp.spec, hnone]
    · obtain ⟨mr', hn⟩ : ∃ mr', info.named mr.handle = some mr' :=
        Option.isSome_iff_exists.1 (by simpa [Info.named] using ⟨mr, hm, rfl⟩)
      exact run_named hwf hf hn o

end

/-- Two buffers are pinned and the first one is unpinned. -/
def unpinOnce : List Op :=
  [.openFile 0 7 true, pinOp 0 7 0x10000 0x10000 [0x30000], pinOp 0 7 0x20000 0x10000 [0x50000], unpinOp 0 7 0]

theorem acts_on_named_unpinOnce :
    ∃ s info, execAll x86Host (fun _ _ => true) init unpinOnce = some s ∧ s.files 0 = some info ∧
      (info.mr_list.map (·.handle) = [16]) ∧
      ((∀ o : HandleOp, o.run x86Host s 0 info 16 = o.spec x86Host s 0 info 16) ↔
        info.mr_list = [] ∨ ∃ mr ∈ info.mr_list, mr.handle = 16) := by
  obtain ⟨s, hs, hc⟩ : ∃ s, execAll x86Host (fun _ _ => true) init unpinOnce = some s ∧
      ((s.files 0).any fun info => info.mr_list.map (·.handle) == [16]) = true :=
    Option.any_eq_true _ _ |>.1 (by decide +kernel)
  obtain ⟨info, hf, hl⟩ := Option.any_eq_true _ _ |>.1 hc
  have hr : Reachable x86Host s := ⟨_, (execAll_run hs).of_only⟩
  exact ⟨s, info, hs, hf, by simpa using hl, acts_on_named hr hf 16⟩

/-- Unpinned again, the first buffer takes the second one with it: the unpin returns 0. -/
theorem second_unpin_acts : ¬ ∀ P s f info h, Reachable P s → s.files f = some info →
    ∀ o : HandleOp, o.run P s f info h = o.spec P s f info h := by
  intro hall
  obtain ⟨s, hs, hc⟩ : ∃ s, execAll x86Host (fun _ _ => true) init unpinOnce = some s ∧
      ((s.files 0).any fun info => (info.named 0).isNone &&
        ((HandleOp.unpin_buffer ⟨false, 0⟩).run x86Host s 0 info 0).toOption.any fun r => r.1.1.ret == 0) = true :=
    Option.any_eq_true _ _ |>.1 (by decide +kernel)
  obtain ⟨info, hf, hc⟩ := Option.any_eq_true _ _ |>.1 hc
  obtain ⟨hn, hc⟩ := (Bool.and_eq_true _ _).mp hc
  obtain ⟨r, hrun, hret⟩ := Option.any_eq_true _ _ |>.1 hc
  have hr : Reachable x86Host s := ⟨_, (execAll_run hs).of_only⟩
  have h := hall x86Host s 0 info 0 hr hf (.unpin_buffer ⟨false, 0⟩)
  rw [toOption_ok hrun, HandleOp.spec, Option.isNone_iff_eq_none.1 hn] at h
  rw [Except.ok.inj h] at hret
  exact absurd (show ((-EINVAL : Int) == 0) = true from hret) (by decide)

end gdrdrv
