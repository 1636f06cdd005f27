import GdrCopy.Driver.Served
import GdrCopy.Api.MapV2
/-!
# One use of a buffer

A buffer is pinned, mapped, queried, unmapped and unpinned. `buffer_lifecycle`: from
every state that a run of the library reaches, and as long as the kernel and the NVIDIA
driver serve it, every call succeeds, and what it took is given back at the end.
-/

namespace gdrapi

open gdrdrv

/-- The arguments of the calls, and what `nvidia_p2p_get_pages` answers. -/
structure Use where
  env : PinEnv
  unpin : PutEnv
  addr : BitVec 64
  size : BitVec 64
  p2p_token : BitVec 64
  va_space : BitVec 32
  start : Nat
  len : BitVec 64
  flags : Nat

/-- An mr that holds `pt`, with a request for the mapping type numbered `flags`. -/
def holding (pt : PageTable) (flags : Nat) : Mr :=
  { newMr 0 0 0 0 0 false with page_table := some pt, req_mapping_type := (MrType.ofCode flags).getD .NONE }

section
variable (P : Platform)

/-- Nothing that the use asks for is refused: `pt` is granted for the buffer, which starts at a GPU
page, `len` bytes of it are mapped at host page `start`, and the platform has the type asked for. -/
structure Use.Served (u : Use) (pt : PageTable) : Prop where
  grants : u.env.Grants P pt
  granted : pt.Granted P
  entries : u.size.toNat ≤ GPU_PAGE_SIZE * pt.entries
  token : P.gdr_use_persistent_mapping = true → u.p2p_token = 0 ∧ u.va_space = 0
  addr : u.addr ≠ 0 ∧ u.addr.toNat % GPU_PAGE_SIZE = 0
  fits : u.addr.toNat + u.size.toNat ≤ 2 ^ 64
  len : 0 < u.len.toNat ∧ u.len.toNat ≤ u.size.toNat
  place : (u.start + (u.len.toNat + P.PAGE_SIZE - 1) / P.PAGE_SIZE) * P.PAGE_SIZE < 2 ^ 64
  flags : ∃ t, MrType.ofCode u.flags = some t ∧ typeAllowed P (holding pt u.flags) t = true

/-- What the queries report of the buffer while it is mapped. -/
def Use.info (u : Use) (pt : PageTable) : InfoV2 :=
  let t := chooseType P (holding pt u.flags)
  { va := u.addr.toNat
    mapped_size := (u.size.toNat + (GPU_PAGE_SIZE - 1)) / GPU_PAGE_SIZE * GPU_PAGE_SIZE
    page_size := GPU_PAGE_SIZE
    tm_cycles := u.env.tm_cycles
    cycles_per_ms := u.env.tsc_khz
    mapped := true
    wc_mapping := t == .WC
    mapping_type := t.code }

/-- The driver and the `gdr_t` are as in `s`, but for the numbers that are used up. -/
structure Restored (s s' : Session) : Prop where
  files : ∀ f, f ≠ s.gdr.fd → s'.kernel.files f = s.kernel.files f
  file : ∀ info, s.kernel.files s.gdr.fd = some info → ∃ info', s'.kernel.files s.gdr.fd = some info' ∧
    info'.mr_list = info.mr_list ∧ info'.tgid = info.tgid
  vmas : s'.kernel.vmas = s.kernel.vmas
  refcount : s'.kernel.gdrdrv_nv_get_pages_refcount = s.kernel.gdrdrv_nv_get_pages_refcount
  gdr : s'.gdr = s.gdr
  cur : s'.cur = s.cur

/-- The five calls of a use, from `s` to `s5`, which all return 0. While the buffer is mapped, as `v`,
the VMA holds the pages of `pt`, and the queries report the buffer as it was asked for. -/
structure Use.Lives (u : Use) (pt : PageTable) (s s1 s2 s3 s4 s5 : Session) (m1 m2 m3 : Memh) (v : Vma) : Prop where
  pin : gdr_pin_buffer P s true u.env u.unpin u.addr u.size u.p2p_token u.va_space = .ok (0, some m1.ptr, s1)
  pinned : s1.gdr.memhs = m1 :: s.gdr.memhs
  map : gdr_map_v2 P s1 m1 remaps u.start u.len.toNat u.flags = some (0, some v.vm_start, s2)
  mapped : s2.gdr.memhs = m2 :: s.gdr.memhs ∧ m2.ptr = m1.ptr
  vma : s2.kernel.vmas = v :: s.kernel.vmas ∧ v.vm_start = u.start * P.PAGE_SIZE ∧ v.vm_start + u.len.toNat ≤ v.vm_end
  mapping : ∃ id, Mapping P v { pt with id := id }
  info : gdr_get_info_v2 P s2 m2 = .ok (0, some (u.info P pt), s3)
  unmap : ∀ env, env.errno = 0 → gdr_unmap P s3 m2 env v.vm_start u.len.toNat = (0, s4)
  unmapped : s4.gdr.memhs = m3 :: s.gdr.memhs ∧ m3.ptr = m1.ptr
  unpin : gdr_unpin_buffer P s4 m3 ⟨false, 0⟩ = .ok (0, s5)
  restored : Restored s s5

variable {P}

/-- In every run the library has the page size of the kernel, and the version of the driver. -/
theorem Run.gdr {s : Session} {cs : List (Option Call)} (h : Run P s cs) :
    s.gdr.Suits P ∧ s.gdr.gdrdrv_version = GDRDRV_VERSION := ⟨(Run.inv h).base.suits, (Run.inv h).base.version⟩

/-! ## The mr at the head of the list -/

theorem search_head (info : Info) (m : Mr) : gdr_mr_from_handle_unlocked (info.list_add m) m.handle =
    some m := if_pos rfl

theorem map_absent {α : Type} {q : α → Prop} [DecidablePred q] {f : α → α} {l : List α} (h : ∀ x ∈ l, ¬ q x) :
    l.map (fun x => if q x then f x else x) = l :=
    (List.map_congr_left fun x hx => if_neg (h x hx)).trans (List.map_id' l)

theorem put_head {info : Info} {m m' : Mr} (hptr : m'.ptr = m.ptr) (hnew : ∀ x ∈ info.mr_list, x.ptr ≠ m.ptr) :
    (info.list_add m).put m' = info.list_add m' := by
  unfold Info.put Info.list_add
  dsimp only
  rw [List.map_cons, hptr, if_pos rfl, map_absent hnew]

theorem del_head {info : Info} {m : Mr} (hnew : ∀ x ∈ info.mr_list, x.ptr ≠ m.ptr) :
    (info.list_add m).list_del m = info := by
  unfold Info.list_del Info.list_add
  dsimp only
  rw [List.filter_cons_of_neg (by simp), List.filter_eq_self.2 fun x hx => decide_eq_true (hnew x hx)]

/-- Part of the way through a use that began at `s0`: the new mr is `m`, its `gdr_memh_t` is `mh`, and the VMAs
`added` are there. -/
structure Holds (s0 : Session) (info : Info) (mh : Memh) (m : Mr) (added : List Vma) (s : Session) : Prop where
  files : s.kernel.files = Function.update s0.kernel.files s0.gdr.fd (some (info.list_add m))
  vmas : s.kernel.vmas = added ++ s0.kernel.vmas
  refcount : s.kernel.gdrdrv_nv_get_pages_refcount = s0.kernel.gdrdrv_nv_get_pages_refcount + 1
  fresh : s0.kernel.fresh ≤ s.kernel.fresh
  gdr : s.gdr = { s0.gdr with memhs := mh :: s0.gdr.memhs }
  cur : s.cur = s0.cur
  ptr : m.ptr = s0.kernel.fresh
  handle : m.handle = mh.handle

/-- What is known where the use begins. -/
structure Begins (P : Platform) (s0 : Session) (info : Info) (mh : Memh) : Prop where
  suits : s0.gdr.Suits P
  version : s0.gdr.gdrdrv_version = GDRDRV_VERSION
  tgid : info.tgid = s0.cur
  ptrs : ∀ x ∈ info.mr_list, x.ptr ≠ s0.kernel.fresh
  ids : ∀ v ∈ s0.kernel.vmas, v.id < s0.kernel.fresh
  memhs : ∀ x ∈ s0.gdr.memhs, x.ptr ≠ mh.ptr
  handle : mh.handle < 2 ^ 32

section
variable {s0 s : Session} {info : Info} {mh : Memh} {m : Mr} {added : List Vma}

theorem Holds.fd (h : Holds s0 info mh m added s) : s.gdr.fd = s0.gdr.fd := by rw [h.gdr]

theorem Holds.file (h : Holds s0 info mh m added s) : s.kernel.files s.gdr.fd = some (info.list_add m) := by
  rw [h.fd, h.files, Function.update_self]

theorem Holds.same (h : Holds s0 info mh m added s) (hb : Begins P s0 info mh) :
    gdrdrv_check_same_process (info.list_add m) s.cur = true := by
  rw [h.cur]
  exact beq_iff_eq.2 hb.tgid

theorem Holds.search (h : Holds s0 info mh m added s) :
    gdr_mr_from_handle_unlocked (info.list_add m) mh.handle = some m := by
  rw [← h.handle]
  exact search_head info m

theorem Holds.suits (h : Holds s0 info mh m added s) (hb : Begins P s0 info mh) : s.gdr.Suits P := by
  rw [h.gdr]
  exact ⟨hb.suits.page_size, hb.suits.page_shift, hb.suits.gdrdrv_version⟩

/-- An ioctl is handled, and its request is recorded. -/
theorem Holds.ioctlOn (h : Holds s0 info mh m added s) (hb : Begins P s0 info mh) {cmd : Nat → Cmd}
    {r : Reply} {k : Kernel} (hc : cmd mh.handle ≠ .malformed)
    (hk : ioctlSwitch P s.kernel s.gdr.fd (info.list_add m) (cmd mh.handle) = .ok (r, k)) :
    ioctlOn P s mh cmd = .ok (r, { s.log mh (.ioctl (cmd mh.handle)) with kernel := k }) := by
  have hown : gdrdrv_ioctl P (s.log mh (.ioctl (cmd mh.handle))).kernel (s.log mh (.ioctl (cmd mh.handle))).gdr.fd
      (s.log mh (.ioctl (cmd mh.handle))).cur (cmd mh.handle) = .ok (r, k) := by
    have hcur : s.cur = (info.list_add m).tgid := (beq_iff_eq.1 (h.same hb)).symm
    rw [← hk, ← ioctl_own h.file hc, ← hcur]
    rfl
  rw [gdrapi.ioctlOn, gdrapi.ioctl, hown]
  rfl

/-- The mr is rewritten. -/
theorem Holds.put (h : Holds s0 info mh m added s) (hb : Begins P s0 info mh) (m' : Mr) (s' : Session)
    (hptr : m'.ptr = m.ptr) (hhandle : m'.handle = m.handle)
    (hfiles : s'.kernel.files = (s.kernel.setFile s.gdr.fd (some ((info.list_add m).put m'))).files)
    (hrest : s'.kernel.vmas = s.kernel.vmas ∧ s'.kernel.gdrdrv_nv_get_pages_refcount =
      s.kernel.gdrdrv_nv_get_pages_refcount ∧ s.kernel.fresh ≤ s'.kernel.fresh) (hgdr : s'.gdr = s.gdr) (hcur :
      s'.cur = s.cur) : Holds s0 info mh m' added s' := by
  refine ⟨?_, hrest.1.trans h.vmas, hrest.2.1.trans h.refcount, h.fresh.trans hrest.2.2, hgdr.trans h.gdr,
    hcur.trans h.cur, hptr.trans h.ptr, hhandle.trans h.handle⟩
  rw [hfiles, put_head hptr fun x hx => h.ptr ▸ hb.ptrs x hx, Kernel.setFile, h.fd]
  dsimp only
  rw [h.files, Function.update_idem]

/-! ## The calls -/

theorem Holds.req (h : Holds s0 info mh m [] s) (hb : Begins P s0 info mh) (hm : gdr_mr_is_mapped m = false)
    {flags : Nat} {t : MrType} (ht : MrType.ofCode flags = some t) (hallow : typeAllowed P m t = true) :
    ∃ s', reqMappingType P s mh flags = .ok (0, s') ∧ Holds s0 info mh { m with req_mapping_type := t } [] s' := by
  have hk : ioctlSwitch P s.kernel s.gdr.fd (info.list_add m) (.req_mapping_type true mh.handle flags) =
      .ok (.err 0, s.kernel.setFile s.gdr.fd (some ((info.list_add m).put { m with req_mapping_type := t }))) := by
    simp only [ioctlSwitch, gdrdrv_req_mapping_type, Bool.not_true, Bool.false_eq_true, if_false, ht, h.search,
      reqLocked, hm, hallow]
  have hon := @Holds.ioctlOn P s0 s info mh m [] h hb (fun handle => .req_mapping_type true handle flags)
    _ _ (by simp) hk
  have hv : GDRDRV_MINIMUM_VERSION_WITH_REQ_MAPPING_TYPE ≤ s.gdr.gdrdrv_version := by
    rw [h.gdr]
    dsimp only
    rw [hb.version]
    decide
  refine ⟨{ s.log mh (.ioctl (.req_mapping_type true mh.handle flags)) with
    kernel := s.kernel.setFile s.gdr.fd (some ((info.list_add m).put { m with req_mapping_type := t })) }, ?_, ?_⟩
  · rw [reqMappingType, if_pos hv, hon]
    rfl
  · exact h.put hb _ _ rfl rfl rfl ⟨rfl, rfl, Nat.le_refl _⟩ rfl rfl

theorem Holds.mmap (h : Holds s0 info mh m [] s) (hb : Begins P s0 info mh) {pt : PageTable} {start : Nat}
    {len : BitVec 64} {n : Nat} (hn : roundedSize s0.gdr len.toNat = n * P.PAGE_SIZE) (hpos : 0 < n)
    (hready : m.Ready P pt n) (hend : (start + n) * P.PAGE_SIZE < 2 ^ 64) :
    ∃ s' v, mmapOn P s mh remaps start len.toNat = .ok (.err 0, s') ∧
    Holds s0 info mh (m.through P s.gdr.fd v.id) [v] s' ∧
      s0.kernel.fresh ≤ v.id ∧ v.vm_file = s.gdr.fd ∧ v.vm_pgoff = mh.handle ∧ v.vm_start = start * P.PAGE_SIZE ∧
      v.vm_end = (start + n) * P.PAGE_SIZE ∧ Mapping P v pt := by
  have hoff : (magicOff s.gdr mh).toNat >>> P.PAGE_SHIFT = mh.handle := magicOff_handle (h.suits hb) hb.handle
  have haligned : (magicOff s.gdr mh).toNat % P.PAGE_SIZE = 0 := by
    have hk : P.PAGE_SHIFT ≤ 64 := P.page_shift_le.trans (by decide)
    have hdvd : 2 ^ P.PAGE_SHIFT ∣ 2 ^ 64 := pow_dvd_pow 2 hk
    rw [magicOff, (h.suits hb).page_shift, BitVec.toNat_ofNat, Nat.shiftLeft_eq, Platform.PAGE_SIZE,
      Nat.mod_mod_of_dvd _ hdvd, Nat.mul_mod_left]
  have hsize : roundedSize s.gdr len.toNat = n * P.PAGE_SIZE := by
    rw [h.gdr]
    exact hn
  obtain ⟨v, hcall, hid, hfile, hpgoff, hstart, hvend, hmap⟩ :=
    sysMmap_served h.file (h.same hb) (by rw [hoff]; exact h.search)
    hready hpos haligned hend
  refine ⟨{ s.log mh (.mmap (magicOff s.gdr mh)) with
    kernel := { s.kernel.setFile s.gdr.fd (some ((info.list_add m).put (m.through P s.gdr.fd v.id))) with
      vmas := v :: s.kernel.vmas, fresh := s.kernel.fresh + 1 } }, v, ?_, ?_, ?_, hfile, hpgoff.trans hoff,
        hstart, hvend, hmap⟩
  · rw [mmapOn, hsize, hcall]
    rfl
  · have hput := h.put hb (m.through P s.gdr.fd v.id)
      { s with kernel := s.kernel.setFile s.gdr.fd (some ((info.list_add m).put (m.through P s.gdr.fd v.id))) } rfl rfl rfl
      ⟨rfl, rfl, Nat.le_refl _⟩ rfl rfl
    exact ⟨hput.files, congrArg (v :: ·) h.vmas, hput.refcount, h.fresh.trans (Nat.le_succ _), hput.gdr,
      hput.cur, hput.ptr, hput.handle⟩
  · rw [hid]
    exact h.fresh

theorem Holds.get_info (h : Holds s0 info mh m added s) (hb : Begins P s0 info mh) :
    ∃ s', gdr_get_info_v2 P s mh = .ok (0, some ⟨m.va, m.mapped_size, m.page_size, m.tm_cycles, m.tsc_khz,
        gdr_is_mapped m.cpu_mapping_type.code, m.cpu_mapping_type.code == GDR_MAPPING_TYPE_WC,
        m.cpu_mapping_type.code⟩, s') ∧
      Holds s0 info mh m added s' := by
  have hk : ioctlSwitch P s.kernel s.gdr.fd (info.list_add m) (.get_info_v2 true true mh.handle) =
      .ok (⟨0, .infoV2 m.va m.mapped_size m.page_size m.tm_cycles m.tsc_khz m.cpu_mapping_type.code⟩, s.kernel) := by
    simp only [ioctlSwitch, gdrdrv_get_info_v2, readMr, Bool.not_true, Bool.false_eq_true, if_false, h.search,
      copy_to_user, if_true]
  have hon := @Holds.ioctlOn P s0 s info mh m added h hb (fun handle => .get_info_v2 true true handle) _ _ (by simp) hk
  have hv : GDRDRV_MINIMUM_VERSION_WITH_GET_INFO_V2 ≤ s.gdr.gdrdrv_version := by
    rw [h.gdr]
    dsimp only
    rw [hb.version]
    decide
  refine ⟨s.log mh (.ioctl (.get_info_v2 true true mh.handle)), ?_,
    ⟨h.files, h.vmas, h.refcount, h.fresh, h.gdr, h.cur, h.ptr, h.handle⟩⟩
  rw [gdr_get_info_v2, if_pos hv, hon]
  rfl

theorem Holds.setType (h : Holds s0 info mh m added s) (hb : Begins P s0 info mh) (t : Nat) :
    Holds s0 info { mh with mapping_type := t } m added (s.setType mh t) := by
  refine ⟨h.files, h.vmas, h.refcount, h.fresh, ?_, h.cur, h.ptr, h.handle⟩
  unfold Session.setType
  dsimp only
  rw [h.gdr]
  dsimp only
  rw [List.map_cons, if_pos rfl, map_absent hb.memhs]

theorem Holds.munmap {v : Vma} (h : Holds s0 info mh m [v] s) (hb : Begins P s0 info mh) (hid : s0.kernel.fresh ≤ v.id)
    (hfile : v.vm_file = s.gdr.fd) (hpgoff : v.vm_pgoff = mh.handle) {len : Nat} (hend : v.vm_end = v.vm_start + len)
    (haligned : v.vm_start % P.PAGE_SIZE = 0) (hpos : 0 < len) (hlt : v.vm_end < 2 ^ 64)
    (request : List Cut → Request) :
    ∃ s', (∀ env, env.errno = 0 → munmapOn P s mh request env v.vm_start len = (0, s')) ∧
      Holds s0 info mh (closeMr m) [] s' := by
  have hvmas : s.kernel.vmas = v :: s0.kernel.vmas := h.vmas
  have hfind : s.kernel.vmas.find? (fun w => w.vm_file = s.gdr.fd ∧ w.vm_start = v.vm_start ∧
      w.vm_end = v.vm_start + len) = some v := by
    rw [hvmas, List.find?_cons_of_pos]
    exact decide_eq_true ⟨hfile, rfl, hend⟩
  have hgone : s.kernel.vmas.filter (fun w => w.id ≠ v.id) = s0.kernel.vmas := by
    rw [hvmas, List.filter_cons_of_neg (by simp)]
    refine List.filter_eq_self.2 fun w hw => ?_
    have := hb.ids w hw
    exact decide_eq_true (by omega)
  have hs : gdr_mr_from_handle_unlocked (info.list_add m) (gdrdrv_handle_from_off v.vm_pgoff) = some m := by
    rw [hpgoff]
    exact h.search
  have hclose : sysMunmap s.kernel v =
      { s.kernel.setFile s.gdr.fd (some ((info.list_add m).put (closeMr m))) with vmas := s0.kernel.vmas } := by
    rw [sysMunmap, hgone, gdrdrv_vma_close, hfile]
    dsimp only
    rw [h.file]
    dsimp only
    rw [hs]
    rfl
  refine ⟨_, fun env => munmapOn_region hfind haligned hpos (hend ▸ hlt), ?_⟩
  · have hput := h.put hb (closeMr m)
      { s with kernel := s.kernel.setFile s.gdr.fd (some ((info.list_add m).put (closeMr m))) } rfl rfl rfl
        ⟨rfl, rfl, Nat.le_refl _⟩ rfl rfl
    rw [hclose]
    exact ⟨hput.files, rfl, hput.refcount, hput.fresh, hput.gdr, hput.cur, hput.ptr, hput.handle⟩

theorem Holds.unpin (h : Holds s0 info mh m [] s) (hb : Begins P s0 info mh) (hm : gdr_mr_is_mapped m = false)
    (hpt : m.page_table.isSome = true) :
    ∃ s', gdr_unpin_buffer P s mh ⟨false, 0⟩ = .ok (0, s') ∧
      s'.kernel.files = Function.update s0.kernel.files s0.gdr.fd (some info) ∧ s'.kernel.vmas = s0.kernel.vmas ∧
      s'.kernel.gdrdrv_nv_get_pages_refcount = s0.kernel.gdrdrv_nv_get_pages_refcount ∧ s'.gdr = s0.gdr ∧
      s'.cur = s0.cur := by
  obtain ⟨pt, hpt⟩ := Option.isSome_iff_exists.1 hpt
  have hk := @unpin_served P s.kernel s.gdr.fd mh.handle (info.list_add m) m pt h.search hm hpt
  have hk' : ioctlSwitch P s.kernel s.gdr.fd (info.list_add m) (.unpin_buffer true ⟨false, 0⟩ mh.handle) =
      .ok (.err 0, { s.kernel.setFile s.gdr.fd (some ((info.list_add m).list_del m)) with
        gdrdrv_nv_get_pages_refcount := s.kernel.gdrdrv_nv_get_pages_refcount - 1 }) := by
    simp only [ioctlSwitch, gdrdrv_unpin_buffer, Bool.not_true, Bool.false_eq_true, if_false, hk]
    rfl
  have hon := @Holds.ioctlOn P s0 s info mh m [] h hb (fun handle => .unpin_buffer true ⟨false, 0⟩ handle)
    _ _ (by simp) hk'
  refine ⟨{ s.log mh (.ioctl (.unpin_buffer true ⟨false, 0⟩ mh.handle)) with
    kernel := { s.kernel.setFile s.gdr.fd (some ((info.list_add m).list_del m)) with
      gdrdrv_nv_get_pages_refcount := s.kernel.gdrdrv_nv_get_pages_refcount - 1 }
    gdr := { s.gdr with memhs := s.gdr.memhs.filter fun x => x.ptr ≠ mh.ptr } }, ?_, ?_, h.vmas, ?_, ?_, h.cur⟩
  · rw [gdr_unpin_buffer, hon]
    rfl
  · simp only [Kernel.setFile, del_head fun x hx => h.ptr ▸ hb.ptrs x hx, h.fd, h.files, Function.update_idem]
  · dsimp only
    rw [h.refcount, Int.add_sub_cancel]
  · dsimp only [Session.log]
    rw [h.gdr]
    dsimp only
    rw [List.filter_cons_of_neg (by simp), List.filter_eq_self.2 fun x hx => decide_eq_true (hb.memhs x hx)]

end

/-! ## The pin -/

/-- The mr that the pin of `u` makes in `s`. -/
def Use.mr (u : Use) (pt : PageTable) (s : Session) (tok va_space : Nat) : Mr :=
  pinnedMr u.env s.kernel.fresh u.addr.toNat u.size.toNat tok va_space false pt GPU_PAGE_SIZE s.pages

theorem Use.pinArgs {u : Use} {pt : PageTable} (hu : u.Served P pt) :
    ∃ tok va_space, gdrdrv.pinArgs P u.p2p_token.toNat u.va_space.toNat GDRDRV_PIN_BUFFER_FLAG_DEFAULT =
    .ok (tok, va_space, false) := by
  unfold gdrdrv.pinArgs
  by_cases hp : P.gdr_use_persistent_mapping = true
  · obtain ⟨htok, hva⟩ := hu.token hp
    rw [if_neg (by simp [hp]), htok, hva, if_neg (by simp), if_neg (by decide)]
    exact ⟨0, 0, rfl⟩
  · rw [if_pos (by simp [hp]), if_neg (by simp)]
    exact ⟨_, _, rfl⟩

theorem Use.pins {u : Use} {pt : PageTable} (hu : u.Served P pt) {s : Session} {info : Info} (hi : Inv P s)
    (hf : s.kernel.files s.gdr.fd = some info) (hover : info.next_handle_overflow = false) (hpages : s.pages < 2 ^ 32) :
    ∃ tok va_space info' s1, info'.mr_list = info.mr_list ∧ info'.tgid = info.tgid ∧
      gdr_pin_buffer P s true u.env u.unpin u.addr u.size u.p2p_token u.va_space = .ok (0, some s.fresh, s1) ∧
      Holds s info' ⟨s.fresh, s.pages, GDR_MAPPING_TYPE_NONE⟩ (u.mr pt s tok va_space) [] s1 := by
  obtain ⟨info0, hf0, -, hnext⟩ := hi.base.file
  obtain rfl := Option.some.inj (hf.symm.trans hf0)
  obtain ⟨tok, va_space, hargs⟩ := Use.pinArgs hu
  -- The handle is the number of host pages pinned before.
  obtain ⟨info', hgen⟩ : ∃ info', gdr_generate_mr_handle P info (mappedSize u.addr.toNat u.size.toNat) =
      some (s.pages, info') := by
    rw [← hnext hover, gdr_generate_mr_handle, if_neg (by simp [hover])]
    exact ⟨_, rfl⟩
  have hkeep : info'.mr_list = info.mr_list ∧ info'.tgid = info.tgid := by
    unfold gdr_generate_mr_handle at hgen
    rw [if_neg (by simp [hover])] at hgen
    rw [← (Prod.mk.inj (Option.some.inj hgen)).2]
    exact ⟨rfl, rfl⟩
  have hpin := @pin_granted P u.env pt hu.grants s.kernel s.gdr.fd info info' u.addr.toNat u.size.toNat
    _ _ _ tok va_space s.pages
    false hargs hgen
  obtain ⟨info1, hf1, hown⟩ := hi.base.ioctl
  obtain rfl := Option.some.inj (hf.symm.trans hf1)
  have haddr : ¬u.addr = 0 := hu.addr.1
  have hioctl := hown (.pin_buffer true true u.env u.unpin u.addr u.size u.p2p_token u.va_space) (by simp)
  simp only [ioctlSwitch, gdrdrv_pin_buffer, Bool.not_true, Bool.false_eq_true, if_false, haddr, hpin] at hioctl
  obtain ⟨s1, hcall, hkernel, hgdr, hcur⟩ : ∃ s1,
      gdr_pin_buffer P s true u.env u.unpin u.addr u.size u.p2p_token u.va_space = .ok (0, some s.fresh, s1) ∧
      s1.kernel = { s.kernel.setFile s.gdr.fd (some (info'.list_add (u.mr pt s tok va_space))) with
        fresh := s.kernel.fresh + 2, gdrdrv_nv_get_pages_refcount := s.kernel.gdrdrv_nv_get_pages_refcount + 1 } ∧
      s1.gdr = { s.gdr with memhs := ⟨s.fresh, u32 s.pages, GDR_MAPPING_TYPE_NONE⟩ :: s.gdr.memhs } ∧
        s1.cur = s.cur := by
    rw [gdr_pin_buffer, if_neg (by simp), gdrapi.ioctl, hioctl]
    exact ⟨_, rfl, rfl, rfl, rfl⟩
  rw [u32_fits hpages] at hgdr
  refine ⟨tok, va_space, info', s1, hkeep.1, hkeep.2, hcall, ?_⟩
  refine ⟨?_, ?_, ?_, ?_, hgdr, hcur, rfl, rfl⟩ <;> rw [hkernel]
  · rfl
  · rfl
  · exact Nat.le_add_right _ 2

theorem Use.begins {s : Session} {cs : List (Option Call)} {info info' : Info} (hr : Run P s cs)
    (hf : s.kernel.files s.gdr.fd = some info) (hl : info'.mr_list = info.mr_list) (ht : info'.tgid = info.tgid)
    (hpages : s.pages < 2 ^ 32) : Begins P s info' ⟨s.fresh, s.pages, GDR_MAPPING_TYPE_NONE⟩ := by
  have hi := Run.inv hr
  obtain ⟨os, hsys⟩ := Run.sysRun hr
  obtain ⟨info0, hf0, htg, -⟩ := hi.base.file
  obtain rfl := Option.some.inj (hf.symm.trans hf0)
  refine ⟨hi.base.suits, hi.base.version, ht.trans htg, fun x hx => ?_, hsys.vma_id, fun x hx => ?_, hpages⟩
  · rw [hl] at hx
    have := (hi.base.files.mr hf hx).ptr
    omega
  · exact Nat.ne_of_lt (hi.base.fresh x hx)

/-! ## The types and sizes -/

theorem typeAllowed_holding {pt : PageTable} {mr : Mr} {id : Nat}
    (h : mr.page_table = some { pt with id := id }) (flags : Nat) (t : MrType) :
    typeAllowed P mr t = typeAllowed P (holding pt flags) t := by
  cases t <;> simp only [typeAllowed, gdr_mr_supports_cache_mapping, h, holding]

theorem chooseType_holding {pt : PageTable} {mr : Mr} {id flags : Nat} {t : MrType}
    (h : mr.page_table = some { pt with id := id }) (ht : MrType.ofCode flags = some t)
    (hr : mr.req_mapping_type = t) : chooseType P mr = chooseType P (holding pt flags) := by
  have hs : gdr_mr_supports_cache_mapping P mr = gdr_mr_supports_cache_mapping P (holding pt flags) :=
    typeAllowed_holding h flags .CACHING
  have hq : (holding pt flags).req_mapping_type = t := by
    rw [holding, ht]
    rfl
  rw [chooseType, chooseType, hs, hq, hr]

/-- A type asked for by number is the type that the driver chooses. -/
theorem chooseType_code {pt : PageTable} {flags : Nat} {t : MrType} (ht : MrType.ofCode flags = some t)
    (h0 : flags ≠ GDR_MAP_FLAG_DEFAULT) : (chooseType P (holding pt flags)).code = flags := by
  have hq : (holding pt flags).req_mapping_type = t := by
    rw [holding, ht]
    rfl
  have hne : t ≠ .NONE ∧ t.code = flags := by
    unfold MrType.ofCode at ht
    split at ht <;> cases ht
    · exact absurd rfl h0
    · exact ⟨by simp, rfl⟩
    · exact ⟨by simp, rfl⟩
    · exact ⟨by simp, rfl⟩
  rw [chooseType, hq, if_pos hne.1, hne.2]

theorem ofCode_le {flags : Nat} {t : MrType} (h : MrType.ofCode flags = some t) : flags ≤ 3 := by
  unfold MrType.ofCode at h
  split at h <;> first | decide | cases h

/-- The host pages that `len` bytes take. -/
theorem Use.rounded {u : Use} {pt : PageTable} (hu : u.Served P pt) {g : Gdr} (hg : g.Suits P) :
    roundedSize g u.len.toNat = (u.len.toNat + P.PAGE_SIZE - 1) / P.PAGE_SIZE * P.PAGE_SIZE ∧
      0 < (u.len.toNat + P.PAGE_SIZE - 1) / P.PAGE_SIZE ∧
      (u.len.toNat + P.PAGE_SIZE - 1) / P.PAGE_SIZE * P.PAGE_SIZE ≤ GPU_PAGE_SIZE * pt.entries := by
  have hpos := pageSize_pos P
  have hmul := perGpuPage_mul P
  have hple : P.PAGE_SIZE ≤ 65536 := by
    have := Nat.le_mul_of_pos_left P.PAGE_SIZE (perGpuPage_pos P)
    rw [hmul] at this
    exact this
  have haddr : 65536 ≤ u.addr.toNat := by
    have h0 : u.addr.toNat ≠ 0 := fun h => hu.addr.1 (BitVec.eq_of_toNat_eq (by simpa using h))
    have h1 := hu.addr.2
    rw [gpuPageSize_eq] at h1
    omega
  have hlen := hu.len
  have hfits := hu.fits
  refine ⟨?_, ?_, ?_⟩
  · rw [roundedSize_eq hg, u64, Nat.mod_eq_of_lt (by omega), Nat.add_comm (P.PAGE_SIZE - 1), Nat.add_sub_assoc hpos]
  · exact Nat.div_pos (by omega) hpos
  · -- The page table ends with a host page, so rounding up does not pass it.
    have hle : u.len.toNat ≤ pt.entries * perGpuPage P * P.PAGE_SIZE := by
      have := hu.entries
      rw [Nat.mul_assoc, hmul, Nat.mul_comm]
      omega
    have hceil : (u.len.toNat + P.PAGE_SIZE - 1) / P.PAGE_SIZE ≤ pt.entries * perGpuPage P := by
      rw [← Nat.lt_succ_iff, Nat.div_lt_iff_lt_mul hpos, Nat.succ_mul]
      omega
    calc (u.len.toNat + P.PAGE_SIZE - 1) / P.PAGE_SIZE * P.PAGE_SIZE ≤ pt.entries * perGpuPage P * P.PAGE_SIZE :=
          Nat.mul_le_mul_right _ hceil
      _ = GPU_PAGE_SIZE * pt.entries := by rw [Nat.mul_assoc, hmul, Nat.mul_comm]

theorem Use.geometry {u : Use} {pt : PageTable} (hu : u.Served P pt) (s : Session) (tok va_space : Nat) :
    (u.mr pt s tok va_space).va = u.addr.toNat ∧ (u.mr pt s tok va_space).offset = 0 ∧
      (u.mr pt s tok va_space).mapped_size = (u.size.toNat + (GPU_PAGE_SIZE - 1)) / GPU_PAGE_SIZE * GPU_PAGE_SIZE := by
  have h1 := hu.addr.2
  have h0 : u.addr.toNat ≠ 0 := fun h => hu.addr.1 (BitVec.eq_of_toNat_eq (by simpa using h))
  have hfits := hu.fits
  have hlen := hu.len
  have hlt := u.addr.isLt
  rw [gpuPageSize_eq] at h1
  refine ⟨?_, ?_, ?_⟩
  · show u.addr.toNat &&& GPU_PAGE_MASK = u.addr.toNat
    rw [gpuPageStart hlt]
    omega
  · show u.addr.toNat &&& GPU_PAGE_OFFSET = 0
    rw [gpuPageOffset, h1]
  · show mappedSize u.addr.toNat u.size.toNat = _
    rw [mappedSize_eq hlt, gpuPageSize_eq]
    omega

/-- The mr of the pin, with the request of the map, is one that `gdrdrv_mmap` can map. -/
theorem Use.ready {build : Platform} {power9 : Bool} {pci_get_device : Nat → Nat → Bool}
    (hP : P = gdrdrv_init build power9 pci_get_device) {u : Use} {pt : PageTable} (hu : u.Served P pt)
    {s : Session} {tok va_space : Nat} {t : MrType} (hallow : typeAllowed P (u.mr pt s tok va_space) t = true)
    (hg : s.gdr.Suits P) :
    ({ u.mr pt s tok va_space with req_mapping_type := t } : Mr).Ready P { pt with id := s.kernel.fresh + 1 }
      ((u.len.toNat + P.PAGE_SIZE - 1) / P.PAGE_SIZE) := by
  refine ⟨rfl, ⟨⟨hu.granted.sane.entries, hu.granted.sane.addrs⟩, hu.granted.aligned, hu.granted.apart⟩,
    (Use.rounded hu hg).2.2, rfl, rfl, (Use.geometry hu s tok va_space).2.1, fun hdev => ?_, rfl⟩
  have hreq : typeAllowed P ({ u.mr pt s tok va_space with req_mapping_type := t } : Mr) t = true :=
    (typeAllowed_congr rfl t).trans hallow
  have hyes := chooseType_allowed hreq
  rw [hdev] at hyes
  rw [hP] at hyes ⊢
  exact gdrdrv_init_device hyes

theorem Begins.retype {s0 : Session} {info : Info} {mh : Memh} (h : Begins P s0 info mh) (t : Nat) :
    Begins P s0 info { mh with mapping_type := t } := ⟨h.suits, h.version, h.tgid, h.ptrs, h.ids, h.memhs, h.handle⟩

theorem code_mapped {t : MrType} (h : t ≠ .NONE) : gdr_is_mapped t.code = true := by
  cases t
  · exact absurd rfl h
  all_goals rfl

theorem code_wc (t : MrType) : (t.code == GDR_MAPPING_TYPE_WC) = (t == .WC) := by
  cases t <;> rfl

/-- `gdr_map_v2` and everything it calls succeed. -/
theorem Holds.map {s0 s : Session} {info : Info} {mh : Memh} {m : Mr} (h : Holds s0 info mh m [] s)
    (hb : Begins P s0 info mh) (hmh : mh.mapping_type = GDR_MAPPING_TYPE_NONE) (hm : gdr_mr_is_mapped m = false)
    {flags start n : Nat} {len : BitVec 64} {t : MrType} {pt : PageTable} (ht : MrType.ofCode flags = some t)
    (hallow : typeAllowed P m t = true) (hcode : flags ≠ GDR_MAP_FLAG_DEFAULT →
      (chooseType P { m with req_mapping_type := t }).code = flags)
    (hn : roundedSize s0.gdr len.toNat = n * P.PAGE_SIZE) (hpos : 0 < n)
    (hready : ({ m with req_mapping_type := t } : Mr).Ready P pt n) (hend : (start + n) * P.PAGE_SIZE < 2 ^ 64) :
    ∃ s' v, gdr_map_v2 P s mh remaps start len.toNat flags = some (0, some (start * P.PAGE_SIZE), s') ∧
      Holds s0 info { mh with mapping_type := (chooseType P { m with req_mapping_type := t }).code }
        (({ m with req_mapping_type := t } : Mr).through P s0.gdr.fd v.id) [v] s' ∧
      s0.kernel.fresh ≤ v.id ∧ v.vm_file = s0.gdr.fd ∧ v.vm_pgoff = mh.handle ∧ v.vm_start = start * P.PAGE_SIZE ∧
      v.vm_end = (start + n) * P.PAGE_SIZE ∧ Mapping P v pt := by
  obtain ⟨s1, hreq, h1⟩ := h.req hb hm ht hallow
  obtain ⟨s2, v, hmmap, h2, hid, hfile, hpgoff, hstart, hvend, hmap⟩ := h1.mmap hb hn hpos hready hend
  obtain ⟨s3, hinfo, h3⟩ := h2.get_info hb
  rw [h1.fd] at h3 hfile hinfo
  refine ⟨s3.setType mh (chooseType P { m with req_mapping_type := t }).code, v, ?_, h3.setType hb _, hid,
    hfile, hpgoff, hstart, hvend, hmap⟩
  have hcheck : checkMapped P s2 mh flags = .ok (0,
      s3.setType mh (chooseType P { m with req_mapping_type := t }).code) := by
    have hmapped : gdr_is_mapped (chooseType P { m with req_mapping_type := t }).code = true :=
      code_mapped (chooseType_ne_none _)
    have htype : ¬(flags ≠ GDR_MAP_FLAG_DEFAULT ∧ (chooseType P { m with req_mapping_type := t }).code ≠ flags) :=
      fun hne => hne.2 (hcode hne.1)
    rw [checkMapped, hinfo]
    dsimp only [bind, Except.bind, Mr.through]
    rw [hmapped, if_neg (by simp), if_neg htype]
  unfold gdr_map_v2
  rw [hmh, if_neg (by decide), if_neg (Nat.not_lt.2 (ofCode_le ht)), hreq]
  simp only [Except.toOption, Option.bind_eq_bind, Option.bind_some, ne_eq, not_true_eq_false, if_false, hmmap,
    Reply.err, hcheck]

theorem Holds.unmap {s0 s : Session} {info : Info} {mh : Memh} {m : Mr} {v : Vma} (h : Holds s0 info mh m [v] s)
    (hb : Begins P s0 info mh) (hmh : gdr_is_mapped mh.mapping_type = true) (hid : s0.kernel.fresh ≤ v.id)
    (hfile : v.vm_file = s0.gdr.fd) (hpgoff : v.vm_pgoff = mh.handle) {len : Nat}
    (hend : v.vm_end = v.vm_start + roundedSize s0.gdr len) (haligned : v.vm_start % P.PAGE_SIZE = 0)
    (hpos : 0 < roundedSize s0.gdr len) (hlt : v.vm_end < 2 ^ 64) :
    ∃ s', (∀ env, env.errno = 0 → gdr_unmap P s mh env v.vm_start len = (0, s')) ∧
      Holds s0 info { mh with mapping_type := GDR_MAPPING_TYPE_NONE } (closeMr m) [] s' := by
  have hlen : roundedSize s.gdr len = roundedSize s0.gdr len := by
    rw [h.gdr]
    rfl
  obtain ⟨s1, hmunmap, h1⟩ := h.munmap hb hid (hfile.trans h.fd.symm) hpgoff hend haligned hpos hlt .munmap
  refine ⟨s1.setType mh GDR_MAPPING_TYPE_NONE, fun env herrno => ?_, h1.setType hb _⟩
  rw [gdr_unmap, if_neg (by simp [hmh]), hlen, hmunmap env herrno]
  rfl

/-! ## The lifecycle -/

/-- In every state that a run of the library reaches, with fewer than `2 ^ 32` host pages pinned so far:
a use that is served goes through. Every call returns 0, the VMA holds the pages of the buffer, the
queries report it, and at the end the driver and the `gdr_t` are as they were. -/
theorem buffer_lifecycle {build : Platform} {power9 : Bool} {pci_get_device : Nat → Nat → Bool}
    (hP : P = gdrdrv_init build power9 pci_get_device) {s : Session} {cs : List (Option Call)} (hr : Run P s cs)
    (hopen : ∀ info, s.kernel.files s.gdr.fd = some info → info.next_handle_overflow = false)
    (hpages : s.pages < 2 ^ 32) {u : Use} {pt : PageTable} (hu : u.Served P pt) :
    ∃ s1 s2 s3 s4 s5 m1 m2 m3 v, u.Lives P pt s s1 s2 s3 s4 s5 m1 m2 m3 v := by
  have hi := Run.inv hr
  obtain ⟨info, hf, -⟩ := hi.base.file
  obtain ⟨tok, va_space, info', s1, hl, htg, hpin, h1⟩ := Use.pins hu hi hf (hopen info hf) hpages
  have hb : Begins P s info' ⟨s.fresh, s.pages, GDR_MAPPING_TYPE_NONE⟩ := Use.begins hr hf hl htg hpages
  obtain ⟨t, ht, hallow⟩ := hu.flags
  have hpt : (u.mr pt s tok va_space).page_table = some { pt with id := s.kernel.fresh + 1 } := rfl
  rw [← typeAllowed_holding hpt] at hallow
  have hchoose : chooseType P { u.mr pt s tok va_space with req_mapping_type := t } =
      chooseType P (holding pt u.flags) :=
    chooseType_holding hpt ht rfl
  obtain ⟨hround, hpos, -⟩ := Use.rounded hu hb.suits
  have hready := Use.ready hP hu hallow hb.suits
  obtain ⟨s2, v, hmap, h2, hid, hfile, hpgoff, hstart, hend, hmapping⟩ := h1.map hb rfl rfl ht hallow
    (fun h0 => by rw [hchoose]; exact chooseType_code ht h0) hround hpos hready hu.place
  obtain ⟨s3, hinfo, h3⟩ := h2.get_info (hb.retype _)
  have hvend : v.vm_end = v.vm_start + roundedSize s.gdr u.len.toNat := by rw [hstart, hend, hround, Nat.add_mul]
  have hne : 0 < roundedSize s.gdr u.len.toNat := by
    rw [hround]
    exact Nat.mul_pos hpos (pageSize_pos P)
  obtain ⟨s4, hunmap, h4⟩ := h3.unmap (hb.retype _) (code_mapped (chooseType_ne_none _)) hid hfile hpgoff hvend
    (by rw [hstart, Nat.mul_mod_left]) hne (hend ▸ hu.place)
  obtain ⟨s5, hunpin, hfiles, hvmas, hcount, hgdr, hcur⟩ := h4.unpin ((hb.retype _).retype _) rfl rfl
  obtain ⟨hva, -, hsize⟩ := Use.geometry hu s tok va_space
  refine ⟨s1, s2, s3, s4, s5, ⟨s.fresh, s.pages, GDR_MAPPING_TYPE_NONE⟩,
    ⟨s.fresh, s.pages, (chooseType P { u.mr pt s tok va_space with req_mapping_type := t }).code⟩,
    ⟨s.fresh, s.pages, GDR_MAPPING_TYPE_NONE⟩, v, hpin, ?_, ?_, ⟨?_, rfl⟩, ⟨h2.vmas, hstart, ?_⟩, ⟨_, hmapping⟩,
      ?_, hunmap, ⟨?_, rfl⟩,
    hunpin, ?_⟩
  · rw [h1.gdr]
  · rw [hstart]
    exact hmap
  · rw [h2.gdr]
  · rw [hvend]
    exact Nat.add_le_add_left ((roundedSize_covers hb.suits u.len).resolve_left hne.ne') _
  · have hreport : u.info P pt = ⟨u.addr.toNat,
        (u.size.toNat + (GPU_PAGE_SIZE - 1)) / GPU_PAGE_SIZE * GPU_PAGE_SIZE, GPU_PAGE_SIZE,
        u.env.tm_cycles, u.env.tsc_khz, true, chooseType P (holding pt u.flags) == .WC,
          (chooseType P (holding pt u.flags)).code⟩ := rfl
    rw [hreport, hinfo, ← hchoose, ← code_wc, ← hva, ← hsize,
      ← code_mapped (chooseType_ne_none { u.mr pt s tok va_space with req_mapping_type := t })]
    rfl
  · rw [h4.gdr]
  · refine ⟨fun f hne => ?_, fun i hfi => ⟨info', ?_, ?_, ?_⟩, hvmas, hcount, hgdr, hcur⟩
    · rw [hfiles, Function.update_of_ne hne]
    · rw [hfiles, Function.update_self]
    · rw [hl, Option.some.inj (hf.symm.trans hfi)]
    · rw [htg, Option.some.inj (hf.symm.trans hfi)]

end

/-! ## A third buffer -/

/-- Two GPU pages that are not neighbours. -/
def twoPages : PageTable := ⟨0, 0x00010002, .NVIDIA_P2P_PAGE_SIZE_64KB, [0x70000, 0x90000], false⟩

/-- 96 KB at 0x30000, of which 68 KB are mapped write-combined. -/
def thirdBuffer : Use :=
  ⟨⟨true, .ok twoPages, 0, 0, ⟨false, 0⟩⟩, ⟨false, 0⟩, 0x30000, 0x18000, 0, 0, 0x2000, 0x11000, 1⟩

theorem thirdBuffer_served : thirdBuffer.Served x86Host twoPages where
  grants := ⟨rfl, rfl, by decide, rfl⟩
  granted := ⟨⟨by decide, by decide⟩, by decide, by decide⟩
  entries := by decide
  token := by decide
  addr := by decide
  fits := by decide
  len := by decide
  place := by decide
  flags := ⟨.WC, rfl, rfl⟩

/-- Two buffers are there already, and one of them is mapped. -/
theorem buffer_lifecycle_third : ∃ s0 s, gdr_open x86Host init 7 true = some s0 ∧ runAll x86Host s0 mapSecond = some s ∧
    ∃ s1 s2 s3 s4 s5 m1 m2 m3 v, thirdBuffer.Lives x86Host twoPages s s1 s2 s3 s4 s5 m1 m2 m3 v := by
  obtain ⟨s0, h0, h⟩ : ∃ s0, gdr_open x86Host init 7 true = some s0 ∧ ((runAll x86Host s0 mapSecond).any fun s =>
      (s.kernel.files s.gdr.fd).all (fun info => !info.next_handle_overflow) && decide (s.pages < 2 ^ 32)) = true :=
    Option.any_eq_true _ _ |>.1 (by decide +kernel)
  obtain ⟨s, hs, h⟩ := Option.any_eq_true _ _ |>.1 h
  obtain ⟨hopen, hpages⟩ := (Bool.and_eq_true _ _).mp h
  have hr : Run x86Host s (mapSecond.map some) := runAll_run ⟨init, 7, true, [], .start rfl, h0⟩ hs
  refine ⟨s0, s, h0, hs, buffer_lifecycle (show x86Host = gdrdrv_init x86Host false fun _ _ => false from rfl)
    hr (fun info hf => ?_)
    (of_decide_eq_true hpages) thirdBuffer_served⟩
  rw [hf] at hopen
  simpa using hopen

end gdrapi
