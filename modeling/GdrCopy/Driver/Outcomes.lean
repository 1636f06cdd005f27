import GdrCopy.Driver.Events
/-!
# What the entry points can do

One inversion lemma for each of the calls that can end in many ways, and all that
later modules know of them: the free callback, a pin with the mr it lists written
out, the ioctls and `gdrdrv_mmap`.
-/

namespace gdrdrv

section
variable {P : Platform}

/-! ## The callback and the free routine -/

/-- The callback leaves an invalid mr. It zaps exactly when the mr still held its
page table and was marked mapped. -/
theorem callback_cases {mr mr' : Mr} {vmas vmas' : List Vma} {n n' : Int}
    (h : gdrdrv_get_pages_free_callback P mr vmas n = .ok (mr', vmas', n')) :
    mr' = invalid mr ∧
      ∃ m1, (if mr.page_table.isSome then zapIfMapped P mr vmas else .ok (mr, vmas)) = .ok (m1, vmas') := by
  unfold gdrdrv_get_pages_free_callback at h
  dsimp only at h
  cases hpt : mr.page_table with
  | none =>
    rw [hpt] at h
    simp only [Except.ok.injEq, Prod.mk.injEq] at h
    obtain ⟨rfl, rfl, -⟩ := h
    refine ⟨by rw [invalid, hpt]; rfl, mr, rfl⟩
  | some pt =>
    rw [hpt] at h
    dsimp only at h
    by_cases hm : gdr_mr_is_mapped mr = true
    · have hflag : gdr_mr_is_mapped { mr with cb_flag := true, page_table := some pt } = true := hm
      rw [if_pos hflag] at h
      generalize hd : gdr_mr_destroy_all_mappings P _ vmas = d at h
      cases d with
      | error e => cases h
      | ok d =>
        obtain ⟨m1, v1⟩ := d
        simp only [bind, Except.bind, Except.ok.injEq, Prod.mk.injEq] at h
        obtain ⟨rfl, rfl, -⟩ := h
        obtain ⟨rfl, -⟩ := destroy_cases hd
        refine ⟨by rw [invalid, hpt]; rfl, { mr with cpu_mapping_type := .NONE }, ?_⟩
        rw [Option.isSome_some, if_pos rfl, zapIfMapped, if_pos hm]
        unfold gdr_mr_destroy_all_mappings at hd ⊢
        dsimp only at hd
        cases hv : mr.vma with
        | none =>
          rw [hv] at hd
          rw [(Prod.mk.inj (Except.ok.inj hd)).2]
        | some v =>
          rw [hv] at hd
          dsimp only at hd ⊢
          split at hd
          · rw [(Prod.mk.inj (Except.ok.inj hd)).2]
          · cases hd
    · have hflag : gdr_mr_is_mapped { mr with cb_flag := true, page_table := some pt } ≠ true := hm
      rw [if_neg hflag] at h
      simp only [Except.ok.injEq, Prod.mk.injEq] at h
      obtain ⟨rfl, rfl, -⟩ := h
      -- An mr that is not mapped only gives its page table up.
      have hn : mr.cpu_mapping_type = .NONE := by simpa [gdr_mr_is_mapped] using hm
      refine ⟨by rw [invalid, hpt, hn]; rfl, mr, ?_⟩
      rw [Option.isSome_some, if_pos rfl, zapIfMapped, if_neg hm]

theorem zapIfMapped_unmapped {mr : Mr} (hm : gdr_mr_is_mapped mr = false) (vmas : List Vma) :
    zapIfMapped P mr vmas = .ok (mr, vmas) := by rw [zapIfMapped, if_neg (by simp [hm])]

/-- Freeing an mr that is not mapped leaves the VMAs alone. -/
theorem free_unmapped {env : PutEnv} {mr : Mr} {vmas vmas' : List Vma} {n n' : Int}
    (hm : gdr_mr_is_mapped mr = false) (h : gdr_free_mr_unlocked P env mr vmas n = .ok (vmas', n')) : vmas' = vmas := by
  unfold gdr_free_mr_unlocked at h
  rw [if_neg (by simp [hm])] at h
  split at h
  · split at h
    · generalize hc : gdrdrv_get_pages_free_callback P mr vmas n = c at h
      cases c with
      | error e => cases h
      | ok c =>
        obtain ⟨m1, v1, n1⟩ := c
        obtain ⟨-, m2, hz⟩ := callback_cases hc
        rw [zapIfMapped_unmapped hm, ite_self] at hz
        rw [(Prod.mk.inj (Except.ok.inj hz)).2]
        exact (Prod.mk.inj (Except.ok.inj h)).1.symm
    · split at h <;> exact (Prod.mk.inj (Except.ok.inj h)).1.symm
  · exact (Prod.mk.inj (Except.ok.inj h)).1.symm

/-! ## A pin -/

theorem pinFail_cases {env : PutEnv} {mr : Mr} {s s' : Kernel} {ret r : Int} {h : Nat}
    (hm : gdr_mr_is_mapped mr = false) (hp : pinFail P env mr s ret = .ok (r, h, s')) :
    r = ret ∧ s'.files = s.files ∧ s'.vmas = s.vmas ∧ s'.fresh = s.fresh := by
  unfold pinFail at hp
  generalize hfree : gdr_free_mr_unlocked P env mr s.vmas s.gdrdrv_nv_get_pages_refcount = x at hp
  cases x with
  | error e => cases hp
  | ok x =>
    obtain ⟨vmas, n⟩ := x
    simp only [bind, Except.bind, Except.ok.injEq, Prod.mk.injEq] at hp
    obtain ⟨rfl, -, rfl⟩ := hp
    exact ⟨rfl, rfl, free_unmapped hm hfree, rfl⟩

/-- The `mapped_size` of a new mr. -/
def mappedSize (addr size : Nat) : Nat := u64 (2 ^ 64 + round_up (u64 (addr + size)) - (addr &&& GPU_PAGE_MASK))

theorem pinArgs_error {p2p_token va_space flags : Nat} {ret : Int}
    (h : pinArgs P p2p_token va_space flags = .error ret) :
    ret ≠ 0 := by
  have hE : (-EINVAL : Int) ≠ 0 := by decide
  unfold pinArgs at h
  split at h
  · split at h
    · cases h; exact hE
    · cases h
  · split at h
    · cases h; exact hE
    · split at h
      · split at h
        · cases h
        · cases h; exact hE
      · cases h

theorem checkPageTable_error {pt : PageTable} {ret : Int} (h : checkPageTable P pt = .error ret) : ret ≠ 0 := by
  unfold checkPageTable at h
  split at h
  · cases h; decide
  · split at h
    · cases h; decide
    · cases h
    · cases h; decide
    · cases h; decide

/-- The arguments of a pin, with how the calls it makes turn out. -/
structure PinRequest where
  addr : Nat
  size : Nat
  p2p_token : Nat
  va_space : Nat
  flags : Nat
  env : PinEnv

/-- The mr that a successful pin lists. -/
def pinnedMr (env : PinEnv) (fresh addr size p2p_token va_space : Nat) (force_pci : Bool) (pt : PageTable)
    (page_size handle : Nat) : Mr :=
  { newMr fresh addr size p2p_token va_space force_pci with
    page_table := some { pt with id := fresh + 1 }, tm_cycles := env.tm_cycles, tsc_khz := env.tsc_khz,
    page_size := page_size, handle := handle }

/-- The mr of a pin that succeeds, with the checks it has passed. -/
structure Pinned (P : Platform) (q : PinRequest) (fresh : Nat) (info : Info) (mr : Mr) (info' : Info) : Prop where
  handle : gdr_generate_mr_handle P info (mappedSize q.addr q.size) = some (mr.handle, info')
  made : ∃ p2p_token va_space force_pci pt page_size,
    pinArgs P q.p2p_token q.va_space q.flags = .ok (p2p_token, va_space, force_pci) ∧ q.env.get_pages = .ok pt ∧
      checkPageTable P { pt with id := fresh + 1 } = .ok page_size ∧
      mr = pinnedMr q.env fresh q.addr q.size p2p_token va_space force_pci pt page_size mr.handle

/-- How a pin fails: before it allocates, before it holds a page table, or with one to give back. -/
inductive PinFailed (P : Platform) (env : PinEnv) (s : Kernel) (ret : Int) (h : Nat) (s' : Kernel) : Prop
  | kmalloc : s' = s → PinFailed P env s ret h s'
  | early {mr : Mr} : mr.page_table = none → gdr_mr_is_mapped mr = false →
    pinFail P env.put mr { s with fresh := s.fresh + 2 } ret = .ok (ret, h, s') → PinFailed P env s ret h s'
  | late {mr : Mr} {pt : PageTable} : mr.page_table = some pt → gdr_mr_is_mapped mr = false →
    pinFail P env.put mr
      { s with fresh := s.fresh + 2, gdrdrv_nv_get_pages_refcount := s.gdrdrv_nv_get_pages_refcount + 1 } ret =
        .ok (ret, h, s') →
    PinFailed P env s ret h s'

/-- A pin that fails leaves the files and the VMAs as they were. -/
theorem PinFailed.same {env : PinEnv} {s s' : Kernel} {ret : Int} {h : Nat} (hp : PinFailed P env s ret h s') :
    s'.files = s.files ∧ s'.vmas = s.vmas ∧ s.fresh ≤ s'.fresh := by
  cases hp with
  | kmalloc hs =>
    subst hs
    exact ⟨rfl, rfl, Nat.le_refl _⟩
  | early _ hm hf =>
    obtain ⟨-, hfiles, hvmas, hfresh⟩ := pinFail_cases hm hf
    exact ⟨hfiles, hvmas, hfresh ▸ Nat.le_add_right _ 2⟩
  | late _ hm hf =>
    obtain ⟨-, hfiles, hvmas, hfresh⟩ := pinFail_cases hm hf
    exact ⟨hfiles, hvmas, hfresh ▸ Nat.le_add_right _ 2⟩

theorem pin_inv {q : PinRequest} {s s' : Kernel} {f : Nat} {info : Info} {ret : Int} {h : Nat}
    (hp : __gdrdrv_pin_buffer P q.env s f info q.addr q.size q.p2p_token q.va_space q.flags = .ok (ret, h, s')) :
    (ret ≠ 0 ∧ PinFailed P q.env s ret h s') ∨
      ret = 0 ∧ ∃ mr info', Pinned P q s.fresh info mr info' ∧ mr.handle = h ∧
        s' = { s.setFile f (some (info'.list_add mr)) with
          fresh := s.fresh + 2, gdrdrv_nv_get_pages_refcount := s.gdrdrv_nv_get_pages_refcount + 1 } := by
  have code : ∀ {mr : Mr} {s0 : Kernel} {e : Int}, gdr_mr_is_mapped mr = false →
      pinFail P q.env.put mr s0 e = .ok (ret, h, s') → ret = e := fun hm hf => (pinFail_cases hm hf).1
  -- The errors in the order of the source, then the mr that is linked.
  unfold __gdrdrv_pin_buffer at hp
  by_cases hk : q.env.kmalloc = true
  swap
  · rw [if_pos (by simp [hk])] at hp
    simp only [Except.ok.injEq, Prod.mk.injEq] at hp
    obtain ⟨rfl, -, rfl⟩ := hp
    exact .inl ⟨by decide, .kmalloc rfl⟩
  rw [if_neg (by simp [hk])] at hp
  dsimp only at hp
  cases hargs : pinArgs P q.p2p_token q.va_space q.flags with
  | error e =>
    rw [hargs] at hp
    dsimp only at hp
    obtain rfl := code rfl hp
    exact .inl ⟨pinArgs_error hargs, .early rfl rfl hp⟩
  | ok args =>
    obtain ⟨tok, va, force⟩ := args
    rw [hargs] at hp
    dsimp only at hp
    cases hget : q.env.get_pages with
    | error n =>
      rw [hget] at hp
      dsimp only at hp
      obtain rfl := code rfl hp
      exact .inl ⟨by omega, .early rfl rfl hp⟩
    | ok pt =>
      rw [hget] at hp
      dsimp only at hp
      cases hcheck : checkPageTable P { pt with id := s.fresh + 1 } with
      | error e =>
        rw [hcheck] at hp
        dsimp only at hp
        obtain rfl := code rfl hp
        exact .inl ⟨checkPageTable_error hcheck, .late rfl rfl hp⟩
      | ok page_size =>
        rw [hcheck] at hp
        dsimp only at hp
        split at hp
        · obtain rfl := code rfl hp
          exact .inl ⟨by decide, .late rfl rfl hp⟩
        · rename_i handle info' hgen
          simp only [Except.ok.injEq, Prod.mk.injEq] at hp
          obtain ⟨rfl, rfl, rfl⟩ := hp
          exact .inr ⟨rfl, pinnedMr q.env s.fresh q.addr q.size tok va force pt page_size handle, info',
            ⟨hgen, tok, va, force, pt, page_size, hargs, hget, hcheck, rfl⟩, rfl, rfl⟩

/-- The handle is delivered, or the pin has failed, or the buffer is unpinned again. -/
theorem pinReply_cases {ctu : Bool} {unpin : PutEnv} {f : Nat} {p : Int × Nat × Kernel} {reply : Reply} {s' : Kernel}
    (h : pinReply P ctu unpin f p = .ok (reply, s')) :
    p.1 ≠ 0 ∧ reply.ret ≠ 0 ∧ s' = p.2.2 ∨ p.1 = 0 ∧ reply = ⟨0, .handle p.2.1⟩ ∧ s' = p.2.2 ∨
      p.1 = 0 ∧ reply.ret ≠ 0 ∧ (s' = p.2.2 ∨ ∃ info ret, p.2.2.files f = some info ∧
        __gdrdrv_unpin_buffer P unpin p.2.2 f info p.2.1 = .ok (ret, s')) := by
  have hE : (-EFAULT : Int) ≠ 0 := by decide
  unfold pinReply at h
  by_cases h0 : p.1 = 0
  swap
  · rw [if_pos h0] at h
    obtain ⟨rfl, rfl⟩ := Prod.mk.inj (Except.ok.inj h)
    exact .inl ⟨h0, h0, rfl⟩
  rw [if_neg (not_not.2 h0)] at h
  by_cases hc : ctu = true
  · rw [if_pos hc] at h
    obtain ⟨rfl, rfl⟩ := Prod.mk.inj (Except.ok.inj h)
    exact .inr (.inl ⟨h0, rfl, rfl⟩)
  rw [if_neg hc] at h
  cases hf : p.2.2.files f with
  | none =>
    rw [hf] at h
    obtain ⟨rfl, rfl⟩ := Prod.mk.inj (Except.ok.inj h)
    exact .inr (.inr ⟨h0, hE, .inl rfl⟩)
  | some info =>
    rw [hf] at h
    dsimp only at h
    generalize hu : __gdrdrv_unpin_buffer P unpin p.2.2 f info p.2.1 = u at h
    cases u with
    | error e => cases h
    | ok u =>
      obtain ⟨rfl, rfl⟩ := Prod.mk.inj (Except.ok.inj h)
      exact .inr (.inr ⟨h0, hE, .inr ⟨info, u.1, rfl, hu⟩⟩)

/-! ## The outcomes of an ioctl -/

/-- What a pin ioctl asks for, once it has passed the checks on its arguments. -/
def Cmd.request : Cmd → Option PinRequest
  | .pin_buffer _ _ env _ addr size p2p_token va_space =>
    some ⟨addr.toNat, size.toNat, p2p_token.toNat, va_space.toNat, GDRDRV_PIN_BUFFER_FLAG_DEFAULT, env⟩
  | .pin_buffer_v2 _ _ env _ addr size flags => some ⟨addr.toNat, size.toNat, 0, 0, flags.toNat, env⟩
  | _ => none

/-- The answer of a pin ioctl can be copied to the caller. -/
def Cmd.ctu : Cmd → Bool
  | .pin_buffer _ ctu .. => ctu
  | .pin_buffer_v2 _ ctu .. => ctu
  | _ => true

/-- The part of a pin ioctl after the checks on its arguments. -/
structure PinCall (P : Platform) (s : Kernel) (f : Nat) (q : PinRequest) (info : Info) (unpin : PutEnv) (ctu : Bool)
    (r : Reply) (s' : Kernel) : Prop where
  file : s.files f = some info
  runs : (do
    let p ← __gdrdrv_pin_buffer P q.env s f info q.addr q.size q.p2p_token q.va_space q.flags
    pinReply P ctu unpin f p) = .ok (r, s')

theorem PinCall.ends {s s' : Kernel} {f : Nat} {q : PinRequest} {info : Info} {unpin : PutEnv} {ctu : Bool} {r : Reply}
    (h : PinCall P s f q info unpin ctu r s') :
    ∃ ret handle s1, __gdrdrv_pin_buffer P q.env s f info q.addr q.size q.p2p_token q.va_space q.flags =
    .ok (ret, handle, s1) ∧
      pinReply P ctu unpin f (ret, handle, s1) = .ok (r, s') := by
  have hr := h.runs
  generalize hp : __gdrdrv_pin_buffer P q.env s f info _ _ _ _ _ = p at hr
  cases p with
  | error e => cases hr
  | ok p => exact ⟨p.1, p.2.1, p.2.2, rfl, hr⟩

/-- An ioctl reads, or it runs one of the handlers that change the state. -/
inductive IoctlRuns (P : Platform) (s : Kernel) (f : Nat) (cmd : Cmd) (x : Except Fault (Reply × Kernel)) : Prop
  | same {r : Reply} : (cmd.request.isSome → r.ret ≠ 0) → x = .ok (r, s) → IoctlRuns P s f cmd x
  | pins {q : PinRequest} {info : Info} {unpin : PutEnv} : cmd.request = some q → s.files f = some info →
    x = (do
      let p ← __gdrdrv_pin_buffer P q.env s f info q.addr q.size q.p2p_token q.va_space q.flags
      pinReply P cmd.ctu unpin f p) → IoctlRuns P s f cmd x
  | unpins {env : PutEnv} {info : Info} {handle : Nat} : cmd = .unpin_buffer true env handle → s.files f = some info →
    x = (__gdrdrv_unpin_buffer P env s f info handle).map (fun r => (.err r.1, r.2)) → IoctlRuns P s f cmd x
  | requests {info : Info} {handle mapping_type : Nat} {mr : Mr} {t : MrType} :
    cmd = .req_mapping_type true handle mapping_type → s.files f = some info →
    gdr_mr_from_handle_unlocked info handle = some mr →
    x = .ok (.err (reqLocked P mr t).1, s.setFile f (some (info.put (reqLocked P mr t).2))) → IoctlRuns P s f cmd x

variable (P) in
theorem gdrdrv_ioctl_runs (s : Kernel) (f cur : Nat) (cmd : Cmd) :
    IoctlRuns P s f cmd (gdrdrv_ioctl P s f cur cmd) := by
  have refused : ∀ {e : Int} {x : Except Fault (Reply × Kernel)}, e ≠ 0 → x = .ok (.err e, s) → IoctlRuns P s f cmd x :=
    fun he hx => .same (fun _ => he) hx
  unfold gdrdrv_ioctl
  split
  · exact refused (by decide) rfl
  cases hf : s.files f with
  | none => exact refused (by decide) rfl
  | some info =>
    dsimp only
    split
    · exact refused (by decide) rfl
    cases cmd with
    | pin_buffer cfu ctu env unpin addr size tok va =>
      simp only [ioctlSwitch, gdrdrv_pin_buffer]
      split_ifs
      · exact refused (by decide) rfl
      · exact refused (by decide) rfl
      · exact .pins rfl hf rfl
    | pin_buffer_v2 cfu ctu env unpin addr size flags =>
      simp only [ioctlSwitch, gdrdrv_pin_buffer_v2]
      split_ifs
      · exact refused (by decide) rfl
      · exact refused (by decide) rfl
      · exact refused (by decide) rfl
      · exact .pins rfl hf rfl
    | unpin_buffer cfu env handle =>
      cases cfu with
      | false => exact refused (by decide) rfl
      | true => exact .unpins rfl hf rfl
    | req_mapping_type cfu handle mapping_type =>
      cases cfu with
      | false => exact refused (by decide) rfl
      | true =>
        simp only [ioctlSwitch, gdrdrv_req_mapping_type, Bool.not_true, Bool.false_eq_true, if_false]
        split
        · exact refused (by decide) rfl
        split
        · exact refused (by decide) rfl
        · next hs => exact .requests rfl hf hs rfl
    | _ => exact .same (fun h => absurd h Bool.false_ne_true) rfl

/-- A pin ioctl is refused on its arguments, or it pins. -/
theorem pin_ioctl_cases {s s' : Kernel} {f cur : Nat} {cmd : Cmd} {q : PinRequest} {r : Reply}
    (hq : cmd.request = some q) (h : gdrdrv_ioctl P s f cur cmd = .ok (r, s')) :
    (r.ret ≠ 0 ∧ s' = s) ∨ ∃ info unpin, PinCall P s f q info unpin cmd.ctu r s' := by
  cases gdrdrv_ioctl_runs P s f cur cmd with
  | same hret hx =>
    rw [hx] at h
    obtain ⟨rfl, rfl⟩ := Prod.mk.inj (Except.ok.inj h)
    exact .inl ⟨hret (by rw [hq]; rfl), rfl⟩
  | pins hq' hf hx =>
    obtain rfl := Option.some.inj (hq.symm.trans hq')
    exact .inr ⟨_, _, hf, hx ▸ h⟩
  | unpins hcmd _ _ =>
    subst hcmd
    cases hq
  | requests hcmd _ _ _ =>
    subst hcmd
    cases hq

/-! ## The outcomes of gdrdrv_mmap -/

/-- A call that succeeds: the mr it found, the page table it mapped and the VMA it filled. -/
structure MapsTo (P : Platform) (env : RemapEnv) (s : Kernel) (f cur : Nat) (vma : Vma) (info : Info) (mr : Mr)
    (pt : PageTable)
    (v' : Vma) : Prop where
  file : s.files f = some info
  same : gdrdrv_check_same_process info cur = true
  search : gdr_mr_from_handle_unlocked info vma.vm_pgoff = some mr
  unmapped : gdr_mr_is_mapped mr = false
  cb_flag : mr.cb_flag = false
  offset : mr.offset = 0
  type : chooseType P mr ≠ .NONE
  page_table : mr.page_table = some pt
  entries : 0 < pt.entries
  size : u64 (vma.vm_end - vma.vm_start) ≤ GPU_PAGE_SIZE * pt.entries
  loop : mmapLoop P env pt (chooseType P mr) vma 0 vma.vm_start (vma.vm_end - vma.vm_start) = .ok (0, v', v'.vm_end)

/-- `mr` once it is mapped through the VMA `v` of file `f`. -/
def Mr.through (P : Platform) (mr : Mr) (f v : Nat) : Mr :=
  { mr with vma := some v, mapping := some f, cpu_mapping_type := chooseType P mr }

/-- A call reaches no mr, or runs the cleanup on the one it finds, or maps it. -/
inductive MmapEnds (P : Platform) (env : RemapEnv) (s : Kernel) (f cur : Nat) (vma : Vma) (ret : Int) (v' : Vma)
    (s' : Kernel) : Prop
  | unreached : ret ≠ 0 → s' = s →
    (∀ info, s.files f = some info → gdrdrv_check_same_process info cur = true →
      gdr_mr_from_handle_unlocked info vma.vm_pgoff = none) → MmapEnds P env s f cur vma ret v' s'
  | refused {info : Info} {mr : Mr} : ret ≠ 0 → s.files f = some info → gdrdrv_check_same_process info cur = true →
    gdr_mr_from_handle_unlocked info vma.vm_pgoff = some mr → s' = s.setFile f (some (info.put (mmapFail mr))) →
    MmapEnds P env s f cur vma ret v' s'
  | mapped {info : Info} {mr : Mr} {pt : PageTable} : ret = 0 → MapsTo P env s f cur vma info mr pt v' →
    s' = s.setFile f (some (info.put (mr.through P f v'.id))) → MmapEnds P env s f cur vma ret v' s'

theorem gdrdrv_mmap_ends {env : RemapEnv} {s s' : Kernel} {f cur : Nat} {vma v' : Vma} {ret : Int}
    (h : gdrdrv_mmap P env s f cur vma = .ok (ret, v', s')) : MmapEnds P env s f cur vma ret v' s' := by
  have hE : (-EINVAL : Int) ≠ 0 := by decide
  unfold gdrdrv_mmap at h
  cases hf : s.files f with
  | none =>
    rw [hf] at h
    obtain ⟨rfl, -, rfl⟩ : -EIO_ = ret ∧ vma = v' ∧ s = s' := by simpa using h
    refine .unreached (by decide) rfl fun info hi => ?_
    rw [hf] at hi
    cases hi
  | some info =>
    rw [hf] at h
    dsimp only at h
    by_cases hsame : gdrdrv_check_same_process info cur = true
    swap
    · rw [if_pos (by simp [hsame])] at h
      obtain ⟨rfl, -, rfl⟩ : -EACCES = ret ∧ vma = v' ∧ s = s' := by simpa using h
      refine .unreached (by decide) rfl fun i hi hc => ?_
      rw [← Option.some.inj (hf.symm.trans hi)] at hc
      exact absurd hc hsame
    rw [if_neg (by simp [hsame])] at h
    cases hs : gdr_mr_from_handle_unlocked info vma.vm_pgoff with
    | none =>
      rw [gdrdrv_handle_from_off, hs] at h
      obtain ⟨rfl, -, rfl⟩ : -EINVAL = ret ∧ vma = v' ∧ s = s' := by simpa using h
      refine .unreached hE rfl fun i hi _ => ?_
      rw [← Option.some.inj (hf.symm.trans hi)]
      exact hs
    | some mr =>
      rw [gdrdrv_handle_from_off, hs] at h
      dsimp only at h
      generalize hm : mmapLocked P env f mr vma = m at h
      cases m with
      | error e => cases h
      | ok m =>
        obtain ⟨ret', mr', v1⟩ := m
        obtain ⟨rfl, rfl, rfl⟩ : ret' = ret ∧ v1 = v' ∧ s.setFile f (some (info.put mr')) = s' := by simpa using h
        rcases mmapLocked_cases P hm with ⟨hne, rfl⟩ | ⟨rfl, hmap, hcb, hoff, ht, -, rfl, pt, hpt, hent, hsize, hloop⟩
        · exact .refused hne hf hsame hs rfl
        · exact .mapped rfl ⟨hf, hsame, hs, hmap, hcb, hoff, ht, hpt, hent, hsize, hloop⟩ rfl

end

end gdrdrv
