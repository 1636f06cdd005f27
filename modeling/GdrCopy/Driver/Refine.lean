import GdrCopy.Driver.Outcomes
/-!
# Operations are sequences of events

One inversion lemma per entry point, and from them `run_events`: a run of the
driver is a run of events that can only be the ones its operations name.
-/

namespace gdrdrv

open Runs (Path)

section
variable {P : Platform}

/-! ## Pinning and unpinning -/

/-- A failed pin leaves the files and the VMAs as they were. A successful one
links a new mr that holds the page table just obtained. -/
theorem pin_cases {env : PinEnv} {s s' : Kernel} {f : Nat} {info : Info} {addr size p2p_token va_space flags : Nat}
    {ret : Int} {h : Nat} (hf : s.files f = some info)
    (hp : __gdrdrv_pin_buffer P env s f info addr size p2p_token va_space flags = .ok (ret, h, s')) :
    (ret ≠ 0 ∧ s'.files = s.files ∧ s'.vmas = s.vmas ∧ s.fresh ≤ s'.fresh) ∨
      (ret = 0 ∧ ∃ mr pt, Does P s (.linked f mr) s' ∧ mr.handle = h ∧ env.get_pages = .ok pt ∧
        mr.mapped_size = mappedSize addr size ∧ ∃ t, mr.page_table = some { pt with id := t }) := by
  rcases @pin_inv P ⟨addr, size, p2p_token, va_space, flags, env⟩ s s' f info ret h hp with ⟨hret,
    hfail⟩ | ⟨hret, mr, info', hpin, rfl, rfl⟩
  · exact .inl ⟨hret, hfail.same⟩
  · have hgen := hpin.handle
    obtain ⟨tok, va, force, pt, page_size, -, hget, -, hmr⟩ := hpin.made
    generalize mr.handle = handle at hgen hmr
    subst hmr
    refine .inr ⟨hret, _, pt, .linked hf hgen ⟨rfl, rfl, rfl, rfl, rfl, rfl, ?_⟩ rfl rfl rfl, rfl, hget, rfl, _, rfl⟩
    exact Nat.mod_lt _ (Nat.two_pow_pos 64)

theorem unpin_eq {env : PutEnv} {s : Kernel} {f : Nat} {info : Info} {h : Nat} {mr : Mr}
    (hs : gdr_mr_from_handle_unlocked info h = some mr) :
    __gdrdrv_unpin_buffer P env s f info h = (do
      let (mr, vmas) ← zapIfMapped P mr s.vmas
      let (vmas, refcount) ← gdr_free_mr_unlocked P env mr vmas s.gdrdrv_nv_get_pages_refcount
      .ok (0, { s.setFile f (some (info.list_del mr)) with vmas := vmas, gdrdrv_nv_get_pages_refcount := refcount })) := by
  rw [__gdrdrv_unpin_buffer, hs, zapIfMapped]
  by_cases hm : gdr_mr_is_mapped mr = true
  · simp only [hm, if_true]
  · simp only [hm, Bool.false_eq_true, if_false]

/-- Unpinning does nothing on an empty list. Else it unlinks the mr that the search returns. -/
theorem unpin_cases {env : PutEnv} {s s' : Kernel} {f : Nat} {info : Info} {h : Nat} {ret : Int}
    (hf : s.files f = some info) (hu : __gdrdrv_unpin_buffer P env s f info h = .ok (ret, s')) :
    (gdr_mr_from_handle_unlocked info h = none ∧ ret = -EINVAL ∧ s' = s) ∨
      (ret = 0 ∧ ∃ mr, gdr_mr_from_handle_unlocked info h = some mr ∧ Does P s (.unlinked f mr) s') := by
  cases hs : gdr_mr_from_handle_unlocked info h with
  | none =>
    rw [__gdrdrv_unpin_buffer, hs] at hu
    obtain ⟨rfl, rfl⟩ := Prod.mk.inj (Except.ok.inj hu)
    exact .inl ⟨rfl, rfl, rfl⟩
  | some mr =>
    rw [unpin_eq hs] at hu
    generalize hz : zapIfMapped P mr s.vmas = z at hu
    cases z with
    | error e => cases hu
    | ok z =>
      obtain ⟨m1, v1⟩ := z
      obtain ⟨rfl, -⟩ := zapIfMapped_cases hz
      simp only [bind, Except.bind] at hu
      generalize hfree : gdr_free_mr_unlocked P env _ v1 s.gdrdrv_nv_get_pages_refcount = x at hu
      cases x with
      | error e => cases hu
      | ok x =>
        obtain ⟨v2, n2⟩ := x
        obtain ⟨rfl, rfl⟩ := Prod.mk.inj (Except.ok.inj hu)
        have hv : v2 = v1 := free_unmapped rfl hfree
        exact .inr ⟨rfl, mr, rfl, .unlinked hf (search_mem hs) (hv ▸ hz) rfl rfl⟩

/-! ## Which operation an event comes from -/

/-- The address, the size and the page table of a pin request, if the NVIDIA driver grants it. -/
def Cmd.pinned : Cmd → Option (Nat × Nat × PageTable)
  | .pin_buffer _ _ env _ addr size _ _ => env.get_pages.toOption.map (addr.toNat, size.toNat, ·)
  | .pin_buffer_v2 _ _ env _ addr size _ => env.get_pages.toOption.map (addr.toNat, size.toNat, ·)
  | _ => none

/-- A request that can unpin a buffer: its own, when the reply does not reach the caller, or the one it names. -/
def Cmd.unpins : Cmd → Bool
  | .pin_buffer .. => true
  | .pin_buffer_v2 .. => true
  | .unpin_buffer .. => true
  | _ => false

/-- An `mmap` that reaches `mr`: its region is `vma`, and the search from its page offset returns `mr`. -/
structure Op.Maps (P : Platform) (s : Kernel) (o : Op) (f : Nat) (mr : Mr) (vma : Vma) : Prop where
  reaches : ∃ cur start len off env info, o = .mmap f cur start len off env ∧ mmapRegion P s f start len off = .ok vma ∧
    s.files f = some info ∧ gdrdrv_check_same_process info cur = true ∧
    gdr_mr_from_handle_unlocked info vma.vm_pgoff = some mr

/-- `e` is an event of the operation `o` in state `s`. -/
def Event.Of (P : Platform) (s : Kernel) (o : Op) : Event → Prop
  | .linked f mr => ∃ cur cmd addr size pt t, o = .ioctl f cur cmd ∧ cmd.pinned = some (addr, size, pt) ∧
      mr.mapped_size = mappedSize addr size ∧ mr.page_table = some { pt with id := t }
  | .unlinked f _ => (∃ cur cmd, o = .ioctl f cur cmd ∧ cmd.unpins = true) ∨ ∃ env, o = .release f env
  | .mapped f mr vma => ∃ v, o.Maps P s f mr v ∧ vma.vm_pgoff = v.vm_pgoff
  | .refused f mr => ∃ v, o.Maps P s f mr v
  | .closed vma found => o = .munmap vma.id ∧ vma ∈ s.vmas ∧ found = s.lookup vma.vm_file vma.vm_pgoff
  | .opened f => f = s.fresh ∧ ∃ minor cur kzalloc, o = .openFile minor cur kzalloc
  | .shut f => ∃ env, o = .release f env
  | _ => True

theorem quiet_path {s : Kernel} {o : Op} (s' : Kernel) (h1 : s'.files = s.files) (h2 : s'.vmas = s.vmas)
    (h3 : s.fresh ≤ s'.fresh) : ∃ es, Path (Does P) s es s' ∧ ∀ e ∈ es, e.Of P s o :=
  ⟨[.quiet], .one (.quiet h1 h2 h3), by simp [Event.Of]⟩

/-! ## The ioctls -/

theorem Cmd.request_pinned {cmd : Cmd} {q : PinRequest} (h : cmd.request = some q) :
    cmd.pinned = q.env.get_pages.toOption.map (q.addr, q.size, ·) ∧ cmd.unpins = true := by
  cases cmd <;> cases h <;> exact ⟨rfl, rfl⟩

/-- A pin links an mr, or nothing; the reply may unlink one. -/
theorem pinCall_path {s s' : Kernel} {f cur : Nat} {cmd : Cmd} {q : PinRequest} {info : Info}
    {unpin : PutEnv} {ctu : Bool} {reply : Reply} (hq : cmd.request = some q)
    (hc : PinCall P s f q info unpin ctu reply s') :
    ∃ es, Path (Does P) s es s' ∧ ∀ e ∈ es, e.Of P s (.ioctl f cur cmd) := by
  obtain ⟨hpinned, hunpins⟩ := Cmd.request_pinned hq
  have hf := hc.file
  obtain ⟨ret, handle, s1, hp, h⟩ := hc.ends
  rcases pin_cases hf hp with ⟨hret, h1, h2, h3⟩ | ⟨rfl, mr, pt, hdoes, -, hget, hsize, t, hpt⟩
  · rcases pinReply_cases h with ⟨-, -, rfl⟩ | ⟨h0, -⟩ | ⟨h0, -⟩
    · exact quiet_path _ h1 h2 h3
    · exact absurd h0 hret
    · exact absurd h0 hret
  · have hof : Event.Of P s (.ioctl f cur cmd) (.linked f mr) :=
      ⟨cur, cmd, q.addr, q.size, pt, t, rfl, by rw [hpinned, hget]; rfl, hsize, hpt⟩
    have linked : ∃ es, Path (Does P) s es s1 ∧ ∀ e ∈ es, e.Of P s (.ioctl f cur cmd) :=
      ⟨[_], .one hdoes, by simpa using hof⟩
    rcases pinReply_cases h with ⟨hne, -⟩ | ⟨-, -, rfl⟩ | ⟨-, -, rfl | ⟨info1, ret2, hf1, hu⟩⟩
    · exact absurd rfl hne
    · exact linked
    · exact linked
    · rcases unpin_cases hf1 hu with ⟨-, -, rfl⟩ | ⟨-, mr', -, hd⟩
      · exact linked
      · refine ⟨[_, _], .cons hdoes (.one hd), fun e he => ?_⟩
        rcases List.mem_cons.1 he with rfl | he
        · exact hof
        · rw [List.mem_singleton.1 he]
          exact .inl ⟨cur, cmd, rfl, hunpins⟩

/-- An ioctl by the process that opened the file reaches its handler. -/
theorem ioctl_own {s : Kernel} {f : Nat} {info : Info} {cmd : Cmd} (hf : s.files f = some info)
    (hc : cmd ≠ .malformed) :
    gdrdrv_ioctl P s f info.tgid cmd = ioctlSwitch P s f info cmd := by
  have hsame : gdrdrv_check_same_process info info.tgid = true := beq_self_eq_true _
  cases cmd with
  | malformed => exact absurd rfl hc
  | _ => simp only [gdrdrv_ioctl, hf, hsame, Bool.not_true, Bool.false_eq_true, if_false]

theorem ioctl_path {s s' : Kernel} {f cur : Nat} {cmd : Cmd} {r : Reply}
    (h : gdrdrv_ioctl P s f cur cmd = .ok (r, s')) :
    ∃ es, Path (Does P) s es s' ∧ ∀ e ∈ es, e.Of P s (.ioctl f cur cmd) := by
  cases gdrdrv_ioctl_runs P s f cur cmd with
  | same _ hx =>
    rw [hx] at h
    obtain ⟨-, rfl⟩ := Prod.mk.inj (Except.ok.inj h)
    exact quiet_path s rfl rfl (Nat.le_refl _)
  | pins hq hf hx => exact pinCall_path hq ⟨hf, hx ▸ h⟩
  | unpins hcmd hf hx =>
    rename_i env info handle
    rw [hx] at h
    generalize hu : __gdrdrv_unpin_buffer P env s f info handle = u at h
    cases u with
    | error e => cases h
    | ok u =>
      obtain ⟨ret, s1⟩ := u
      obtain ⟨-, rfl⟩ := Prod.mk.inj (Except.ok.inj h)
      rcases unpin_cases hf hu with ⟨-, -, rfl⟩ | ⟨-, mr, -, hun⟩
      · exact quiet_path s1 rfl rfl (Nat.le_refl _)
      · exact ⟨[_], .one hun, by simp [Event.Of, Cmd.unpins, hcmd]⟩
  | requests hcmd hf hs hx =>
    rename_i info handle mapping_type mr t
    rw [hx] at h
    obtain ⟨-, rfl⟩ := Prod.mk.inj (Except.ok.inj h)
    obtain ⟨t', ht'⟩ : ∃ t', (reqLocked P mr t).2 = { mr with req_mapping_type := t' } := by
      unfold reqLocked
      split
      · exact ⟨mr.req_mapping_type, rfl⟩
      split
      · exact ⟨mr.req_mapping_type, rfl⟩
      · exact ⟨t, rfl⟩
    exact ⟨[.requested f mr t'], .one (.requested hf (search_mem hs) (by rw [ht']; rfl) rfl rfl), by simp [Event.Of]⟩

/-! ## mmap and munmap -/

theorem mmapRegion_ok {s : Kernel} {f start len : Nat} {off : BitVec 64} {vma : Vma}
    (h : mmapRegion P s f start len off = .ok vma) :
    ∃ pages, 0 < pages ∧ (start + pages) * P.PAGE_SIZE < 2 ^ 64 ∧ vma.vm_start = start * P.PAGE_SIZE ∧
      vma.vm_end = (start + pages) * P.PAGE_SIZE ∧ vma.id = s.fresh ∧ vma.vm_file = f ∧ vma.ptes = [] ∧
      vma.vm_pgoff = off.toNat >>> P.PAGE_SHIFT ∧ vma.vm_pgoff < handleEnd P := by
  have hk : P.PAGE_SHIFT ≤ 16 := P.page_shift_le
  unfold mmapRegion at h
  dsimp only at h
  split at h
  · cases h
  rename_i hp
  split at h
  · cases h
  rename_i hend
  cases h
  refine ⟨_, Nat.pos_of_ne_zero (not_or.1 hp).2, not_le.1 hend, rfl, rfl, rfl, rfl, rfl, rfl, ?_⟩
  dsimp only
  rw [Nat.shiftRight_eq_div_pow, Nat.div_lt_iff_lt_mul (Nat.two_pow_pos _), handleEnd, ← pow_add,
    Nat.sub_add_cancel (by omega)]
  exact off.isLt

/-- The region keeps its place; the translations put in it are the loop's. -/
theorem mapped_new {env : RemapEnv} {s : Kernel} {f start pages : Nat} {pt : PageTable} {t : MrType}
    {vma v' : Vma} (hlt : (start + pages) * P.PAGE_SIZE < 2 ^ 64) (hs : vma.vm_start = start * P.PAGE_SIZE)
    (he : vma.vm_end = (start + pages) * P.PAGE_SIZE) (hid : vma.id = s.fresh) (hf : vma.vm_file = f)
    (hptes : vma.ptes = []) (hoff : vma.vm_pgoff < handleEnd P)
    (hsize : u64 (vma.vm_end - vma.vm_start) ≤ GPU_PAGE_SIZE * pt.entries)
    (hloop : mmapLoop P env pt t vma 0 vma.vm_start (vma.vm_end - vma.vm_start) = .ok (0, v', v'.vm_end)) :
    v'.New P s.fresh f pt ∧ v'.vm_pgoff = vma.vm_pgoff := by
  have hn : vma.vm_end - vma.vm_start = pages * P.PAGE_SIZE := by
    rw [hs, he, Nat.add_mul, Nat.add_sub_cancel_left]
  rw [hn] at hloop hsize
  obtain ⟨-, -, hg⟩ := mmapLoop_grows P t _ _ _ _ _ rfl _ _ hloop
  have hle : pages * P.PAGE_SIZE ≤ (start + pages) * P.PAGE_SIZE := Nat.mul_le_mul_right _ (Nat.le_add_left _ _)
  rw [u64, Nat.mod_eq_of_lt (by omega)] at hsize
  refine ⟨⟨hg.id.trans hid, hg.vm_file.trans hf, ⟨start, pages, hg.vm_start.trans hs, hg.vm_end.trans he, hsize⟩,
    by rw [hg.vm_pgoff]; exact hoff, fun p hp => ?_⟩, hg.vm_pgoff⟩
  rcases hg.ptes p hp with hp | ⟨ht, hl, hh⟩
  · rw [hptes] at hp; cases hp
  · exact ⟨ht, by rw [hg.vm_start]; exact hl, hh⟩

theorem mmap_path {env : RemapEnv} {s s' : Kernel} {f cur start len : Nat} {off : BitVec 64} {r : Reply}
    (h : sysMmap P env s f cur start len off = .ok (r, s')) :
    ∃ es, Path (Does P) s es s' ∧ ∀ e ∈ es, e.Of P s (.mmap f cur start len off env) := by
  unfold sysMmap at h
  cases hreg : mmapRegion P s f start len off with
  | error e =>
    rw [hreg] at h
    obtain ⟨-, rfl⟩ := Prod.mk.inj (Except.ok.inj h)
    exact quiet_path s rfl rfl (Nat.le_refl _)
  | ok vma =>
    obtain ⟨pages, -, hlt, hs, he, hid, hvf, hptes, -, hoff⟩ := mmapRegion_ok hreg
    rw [hreg] at h
    dsimp only at h
    generalize hg : gdrdrv_mmap P env _ f cur vma = g at h
    cases g with
    | error e => cases h
    | ok g =>
      obtain ⟨ret, v', s1⟩ := g
      dsimp only at h
      cases gdrdrv_mmap_ends hg with
      | unreached hne hs1 _ =>
        rw [if_neg hne] at h
        obtain ⟨-, rfl⟩ := Prod.mk.inj (Except.ok.inj h)
        subst hs1
        exact quiet_path _ rfl rfl (Nat.le_succ _)
      | @refused info mr hne hf hsame hsr hs1 =>
        rw [if_neg hne] at h
        obtain ⟨-, rfl⟩ := Prod.mk.inj (Except.ok.inj h)
        subst hs1
        have hmaps : (Op.mmap f cur start len off env).Maps P s f mr vma :=
          ⟨cur, start, len, off, env, info, rfl, hreg, hf, hsame, hsr⟩
        exact ⟨[.refused f mr], .one (.refused hf (search_mem hsr) rfl rfl (Nat.le_succ _)),
          by simpa [Event.Of] using ⟨vma, hmaps⟩⟩
      | @mapped info mr pt h0 hm hs1 =>
        rw [if_pos h0] at h
        obtain ⟨-, rfl⟩ := Prod.mk.inj (Except.ok.inj h)
        subst hs1
        have hmaps : (Op.mmap f cur start len off env).Maps P s f mr vma :=
          ⟨cur, start, len, off, env, info, rfl, hreg, hm.file, hm.same, hm.search⟩
        obtain ⟨hnew, hpg⟩ := mapped_new hlt hs he hid hvf hptes hoff hm.size hm.loop
        exact ⟨[.mapped f mr v'], .one (.mapped hm.file (search_mem hm.search) hm.unmapped hm.cb_flag
          hm.page_table hm.type hnew rfl rfl rfl), by simpa [Event.Of] using ⟨vma, hmaps, hpg⟩⟩

theorem munmap_path {s : Kernel} {vma : Vma} (hv : vma ∈ s.vmas) :
    ∃ es, Path (Does P) s es (sysMunmap s vma) ∧ ∀ e ∈ es, e.Of P s (.munmap vma.id) := by
  refine ⟨[.closed vma (s.lookup vma.vm_file vma.vm_pgoff)], .one (.closed hv ?_ ?_ ?_), ?_⟩
  · unfold sysMunmap gdrdrv_vma_close Kernel.lookup gdrdrv_handle_from_off
    dsimp only
    cases hf : s.files vma.vm_file with
    | none => rfl
    | some info => cases hs : gdr_mr_from_handle_unlocked info vma.vm_pgoff <;> simp [hs, Kernel.setFile]
  · unfold sysMunmap gdrdrv_vma_close
    split
    · rfl
    · split <;> rfl
  · unfold sysMunmap gdrdrv_vma_close
    split
    · rfl
    · split <;> rfl
  · simpa [Event.Of] using hv

/-! ## The callback and release -/

theorem callback_path {s s' : Kernel} {f : Nat} {info : Info} {mr : Mr} (hf : s.files f = some info)
    (hm : mr ∈ info.mr_list) (h : nvCallback P s f info mr = .ok s') : Does P s (.invalidated f mr) s' := by
  unfold nvCallback at h
  generalize hc : gdrdrv_get_pages_free_callback P mr s.vmas s.gdrdrv_nv_get_pages_refcount = c at h
  cases c with
  | error e => cases h
  | ok c =>
    obtain ⟨mr', vmas', n'⟩ := c
    obtain ⟨rfl, m1, hz⟩ := callback_cases hc
    cases h
    exact .invalidated hf hm hz rfl rfl

theorem releaseLoop_cons {env : Nat → PutEnv} (mr : Mr) (rest : List Mr) (vmas : List Vma) (n : Int) :
    releaseLoop P env (mr :: rest) vmas n = (do
      let (mr, vmas) ← zapIfMapped P mr vmas
      let (vmas, refcount) ← gdr_free_mr_unlocked P (env mr.ptr) mr vmas n
      releaseLoop P env rest vmas refcount) := by
  rw [releaseLoop, zapIfMapped]
  by_cases hm : gdr_mr_is_mapped mr = true
  · simp only [hm, if_true]
  · simp only [hm, Bool.false_eq_true, if_false]

/-- Releasing a file unlinks its mrs in turn. -/
theorem releaseLoop_path {env : Nat → PutEnv} {f : Nat} : ∀ (l : List Mr) {s : Kernel} {info : Info} {n n' : Int}
    {vmas' : List Vma}, FilesOk P s.files s.fresh → s.files f = some info → info.mr_list = l →
    releaseLoop P env l s.vmas n = .ok (vmas', n') →
    ∃ es s1, Path (Does P) s es s1 ∧ (∀ e ∈ es, ∃ mr, e = .unlinked f mr) ∧
      s1.files = Function.update s.files f (some { info with mr_list := [] }) ∧ s1.vmas = vmas' ∧
      s1.fresh = s.fresh := by
  intro l
  induction l with
  | nil =>
    intro s info n n' vmas' _ hf hl h
    refine ⟨[], s, .nil, by simp, ?_, (Prod.mk.inj (Except.ok.inj h)).1, rfl⟩
    rw [← hl, ← hf, Function.update_eq_self]
  | cons mr rest ih =>
    intro s info n n' vmas' hwf hf hl h
    have hmr : mr ∈ info.mr_list := hl ▸ List.mem_cons_self
    rw [releaseLoop_cons] at h
    generalize hz : zapIfMapped P mr s.vmas = z at h
    cases z with
    | error e => cases h
    | ok z =>
      obtain ⟨m1, v1⟩ := z
      obtain ⟨rfl, -⟩ := zapIfMapped_cases hz
      simp only [bind, Except.bind] at h
      generalize hfree : gdr_free_mr_unlocked P _ _ v1 n = x at h
      cases x with
      | error e => cases h
      | ok x =>
        obtain ⟨v2, n2⟩ := x
        have hv : v2 = v1 := free_unmapped rfl hfree
        subst hv
        have hd : Does P s (.unlinked f mr) { s.setFile f (some (info.list_del mr)) with vmas := v2 } :=
          .unlinked hf hmr hz rfl rfl
        -- Removing the head by its address leaves the rest, for no other mr of the list has that address.
        have hrest : (info.list_del mr).mr_list = rest := by
          have hsub : ∀ m ∈ rest, m.ptr ≠ mr.ptr := by
            intro m hm he
            have hmem : m ∈ info.mr_list := hl ▸ List.mem_cons_of_mem _ hm
            have hpw := (hwf.spaced hf).ranges
            rw [hl, List.pairwise_cons] at hpw
            have h1 := hpw.1 m hm
            rw [(hwf.ptr_inj hf hf hmem hmr he).2, Mr.stop] at h1
            have := span_pos P mr.mapped_size
            omega
          rw [Info.list_del, hl, List.filter_cons_of_neg (by simp)]
          exact List.filter_eq_self.2 fun m hm => by simpa using hsub m hm
        obtain ⟨es, s1, hp, hes, hfiles, hvmas, hfresh⟩ := ih (hd.filesOk hwf) (Function.update_self _ _ _) hrest h
        refine ⟨.unlinked f mr :: es, s1, .cons hd hp, fun e he => ?_, ?_, hvmas, hfresh⟩
        · rcases List.mem_cons.1 he with rfl | he
          · exact ⟨mr, rfl⟩
          · exact hes e he
        · rw [hfiles]
          simp only [Kernel.setFile, Function.update_idem]
          rfl

theorem release_path {env : Nat → PutEnv} {s s' : Kernel} {f : Nat} {r : Reply} (hwf : FilesOk P s.files s.fresh)
    (h : gdrdrv_release P env s f = .ok (r, s')) :
    ∃ es, Path (Does P) s es s' ∧ ∀ e ∈ es, e.Of P s (.release f env) := by
  unfold gdrdrv_release at h
  cases hf : s.files f with
  | none =>
    rw [hf] at h
    obtain ⟨-, rfl⟩ := Prod.mk.inj (Except.ok.inj h)
    exact quiet_path s rfl rfl (Nat.le_refl _)
  | some info =>
    rw [hf] at h
    dsimp only at h
    generalize hl : releaseLoop P env info.mr_list s.vmas s.gdrdrv_nv_get_pages_refcount = l at h
    cases l with
    | error e => cases h
    | ok l =>
      obtain ⟨vmas', n'⟩ := l
      obtain ⟨-, rfl⟩ := Prod.mk.inj (Except.ok.inj h)
      obtain ⟨es, s1, hp, hes, hfiles, hvmas, hfresh⟩ := releaseLoop_path info.mr_list hwf hf rfl hl
      have hshut : Does P s1 (.shut f) { s.setFile f none with vmas := vmas', gdrdrv_nv_get_pages_refcount := n' } :=
        .shut (by rw [hfiles, Function.update_self]) rfl (by rw [hfiles, Function.update_idem]; rfl)
          hvmas.symm hfresh.symm
      refine ⟨es ++ [.shut f], hp.append (.one hshut), fun e he => ?_⟩
      rcases List.mem_append.1 he with he | he
      · obtain ⟨mr, rfl⟩ := hes e he
        exact .inr ⟨env, rfl⟩
      · rw [List.mem_singleton.1 he]
        exact ⟨env, rfl⟩

/-! ## Runs -/

/-- Where the files are well formed every operation is a sequence of its own events. -/
theorem step_path {s s' : Kernel} {o : Op} (hwf : FilesOk P s.files s.fresh) (h : step P s o s') :
    ∃ es, Path (Does P) s es s' ∧ ∀ e ∈ es, e.Of P s o := by
  obtain ⟨r, h⟩ := h
  cases h with
  | openFile =>
    rename_i minor cur kzalloc
    unfold gdrdrv_open
    split
    · exact quiet_path s rfl rfl (Nat.le_refl _)
    split
    · exact quiet_path s rfl rfl (Nat.le_refl _)
    · exact ⟨[.opened s.fresh], .one (.opened rfl rfl rfl), by simp [Event.Of]⟩
  | ioctl h => exact ioctl_path h
  | mmap h => exact mmap_path h
  | munmap hv => exact munmap_path hv
  | callback _ hf hm h => exact ⟨[_], .one (callback_path hf hm h), by simp [Event.Of]⟩
  | release h => exact release_path hwf h

/-- The driver refines its events: where the operations of a run meet `cond`, and
the events of such an operation meet `ok`, the run is a run of events that meet `ok`. -/
theorem run_events {cond : Kernel → Op → Prop} {ok : Event → Prop}
    (hok : ∀ s o, Wf P s → cond s o → ∀ e, e.Of P s o → ok e) {s : Kernel} {os : List Op}
    (h : Runs.Run (· = init) (Runs.only cond (step P)) s os) : ∃ es, EventRun P ok s es := by
  refine Runs.Run.refine (Wf P) (fun s es hr => EventRun.wf hr) (fun s o s' hwf ht => ?_) h
  obtain ⟨es, hp, hes⟩ := step_path hwf.files ht.2
  exact ⟨es, hp.imp fun s e he s' hd => ⟨hok _ _ hwf ht.1 e (hes e he), hd⟩⟩

theorem Reachable.wf {s : Kernel} (h : Reachable P s) : Wf P s := by
  obtain ⟨os, h⟩ := h
  have h' : Runs.Run (· = init) (Runs.only (fun _ _ => True) (step P)) s os := h.mono fun _ _ _ ht => ⟨trivial, ht⟩
  obtain ⟨es, he⟩ : ∃ es, EventRun P (fun _ => True) s es := run_events (fun _ _ _ _ _ _ => trivial) h'
  exact he.wf

/-! ## What other operations leave of a file -/

/-- The part of a file's data that only pinning and unpinning change. -/
structure View where
  keys : List (Nat × Nat)
  tgid : Nat
  next_handle : Nat
  next_handle_overflow : Bool

/-- Addresses and handles of the mrs of an open file, with its owner and its counters. -/
def Info.view (info : Info) : View :=
  ⟨info.mr_list.map fun mr => (mr.ptr, mr.handle), info.tgid, info.next_handle, info.next_handle_overflow⟩

/-- The event does not add mrs to file `f` or take them away. -/
def Event.Leaves (f : Nat) : Event → Prop
  | .opened g => g ≠ f
  | .linked g _ => g ≠ f
  | .unlinked g _ => g ≠ f
  | .shut g => g ≠ f
  | _ => True

theorem put_view {info : Info} {mr mr' : Mr} (huniq : ∀ m ∈ info.mr_list, m.ptr = mr.ptr → m = mr)
    (hptr : mr'.ptr = mr.ptr) (hh : mr'.handle = mr.handle) : (info.put mr').view = info.view := by
  have : (info.put mr').mr_list.map (fun mr => (mr.ptr, mr.handle)) = info.mr_list.map fun mr =>
      (mr.ptr, mr.handle) := by
    rw [Info.put, List.map_map]
    refine List.map_congr_left fun m hm => ?_
    simp only [Function.comp_apply]
    by_cases he : m.ptr = mr'.ptr
    · rw [if_pos he, huniq m hm (he.trans hptr), hptr, hh]
    · rw [if_neg he]
  rw [Info.view, this]
  rfl

/-- An event that does not pin or unpin on `f` leaves its view as it is. -/
theorem Does.view {s s' : Kernel} {e : Event} {f : Nat} {info : Info} (hok : FilesOk P s.files s.fresh)
    (hd : Does P s e s') (hl : e.Leaves f) (hf : s.files f = some info) : ∃ info', s'.files f = some info' ∧
    info'.view = info.view := by
  have same : s'.files = s.files → ∃ info', s'.files f = some info' ∧ info'.view = info.view :=
    fun h => ⟨info, by rw [h]; exact hf, rfl⟩
  have other : ∀ {g x}, s'.files = Function.update s.files g x → g ≠ f →
      ∃ info', s'.files f = some info' ∧ info'.view = info.view := fun h hne =>
    ⟨info, by rw [h, Function.update_of_ne (Ne.symm hne)]; exact hf, rfl⟩
  have put : ∀ {g i mr mr'}, s.files g = some i → mr ∈ i.mr_list →
      s'.files = Function.update s.files g (some (i.put mr')) →
      mr'.ptr = mr.ptr → mr'.handle = mr.handle → ∃ info', s'.files f = some info' ∧ info'.view = info.view := by
    intro g i mr mr' hg hm h hptr hh
    by_cases he : g = f
    · subst he
      obtain rfl := Option.some.inj (hf.symm.trans hg)
      exact ⟨_, by rw [h, Function.update_self],
        put_view (fun m hm' he => (hok.ptr_inj hf hf hm' hm he).2) hptr hh⟩
    · exact other h he
  cases hd with
  | quiet hfiles _ _ => exact same hfiles
  | opened hfiles _ _ => exact other hfiles hl
  | linked hg _ _ hfiles _ _ => exact other hfiles hl
  | unlinked hg _ _ hfiles _ => exact other hfiles hl
  | requested hg hm hfiles _ _ => exact put hg hm hfiles rfl rfl
  | refused hg hm hfiles _ _ => exact put hg hm hfiles rfl rfl
  | mapped hg hm _ _ _ _ _ hfiles _ _ => exact put hg hm hfiles rfl rfl
  | closed hv hfiles _ _ =>
    rename_i vma _ _
    cases hlk : s.lookup vma.vm_file vma.vm_pgoff with
    | none => exact same (by rw [hfiles, hlk])
    | some r =>
      obtain ⟨i, mr⟩ := r
      rw [hlk] at hfiles
      obtain ⟨hg, hm, -⟩ := search_listed hlk
      exact put hg hm hfiles rfl rfl
  | invalidated hg hm _ hfiles _ => exact put hg hm hfiles rfl rfl
  | shut hg _ hfiles _ _ => exact other hfiles hl

theorem path_view {s s' : Kernel} {es : List Event} (hp : Path (Does P) s es s') {f : Nat} {info : Info}
    (hok : FilesOk P s.files s.fresh) (hl : ∀ e ∈ es, e.Leaves f) (hf : s.files f = some info) :
    ∃ info', s'.files f = some info' ∧ info'.view = info.view := by
  induction hp generalizing info with
  | nil => exact ⟨info, hf, rfl⟩
  | cons hd _ ih =>
    obtain ⟨i1, h1, hv1⟩ := hd.view hok (hl _ List.mem_cons_self) hf
    obtain ⟨i2, h2, hv2⟩ := ih (hd.filesOk hok) (fun e he => hl e (List.mem_cons_of_mem _ he)) h1
    exact ⟨i2, h2, hv2.trans hv1⟩

theorem path_wf {s s' : Kernel} {es : List Event} (hp : Path (Does P) s es s') (hwf : Wf P s) : Wf P s' := by
  induction hp with
  | nil => exact hwf
  | cons hd _ ih => exact ih (hd.wf hwf)

/-- The operation does not pin or unpin on file `f`, nor release it. -/
def Op.Leaves (f : Nat) : Op → Prop
  | .ioctl g _ cmd => g ≠ f ∨ (cmd.pinned = none ∧ cmd.unpins = false)
  | .release g _ => g ≠ f
  | _ => True

/-- An operation that does not pin or unpin on `f` leaves its view as it is. -/
theorem step_view {s s' : Kernel} {o : Op} {f : Nat} {info : Info} (hok : FilesOk P s.files s.fresh) (h : step P s o s')
    (hl : o.Leaves f) (hf : s.files f = some info) : ∃ info', s'.files f = some info' ∧ info'.view = info.view := by
  obtain ⟨es, hp, hes⟩ := step_path hok h
  refine path_view hp hok (fun e he => ?_) hf
  have hof := hes e he
  cases e with
  | opened g =>
    obtain ⟨rfl, -⟩ := hof
    have := hok.file hf
    exact Nat.ne_of_gt this
  | linked g mr =>
    obtain ⟨cur, cmd, addr, size, pt, t, rfl, hpin, -⟩ := hof
    rcases hl with hl | ⟨hn, -⟩
    · exact hl
    · rw [hn] at hpin
      cases hpin
  | unlinked g mr =>
    rcases hof with ⟨cur, cmd, rfl, hun⟩ | ⟨env, rfl⟩
    · rcases hl with hl | ⟨-, hn⟩
      · exact hl
      · rw [hn] at hun
        cases hun
    · exact hl
  | shut g =>
    obtain ⟨env, rfl⟩ := hof
    exact hl
  | _ => trivial

end

end gdrdrv
