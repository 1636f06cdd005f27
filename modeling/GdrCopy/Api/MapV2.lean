import GdrCopy.Api.Agree
import GdrCopy.Driver.Splitting
/-!
# gdr_map_v2

`gdr_map_v2` with the counters of mapping types, and with the free callback of the
buffer placed between its system calls. `map_all_or_nothing`: a call that succeeds
has added one VMA and counted its type; a call that fails has left neither.
-/

namespace gdrapi

open gdrdrv

def GDR_MAP_FLAG_REQ_WC_MAPPING : Nat := 1
def GDR_MAP_FLAG_REQ_CACHE_MAPPING : Nat := 2
def GDR_MAP_FLAG_REQ_DEVICE_MAPPING : Nat := 3

/-! ## The counters -/

/-- A `gdr_t` with the static data of the library. -/
structure Process where
  session : Session
  gdr_mapping_type_counters : Nat → Int

/-- `++gdr_mapping_type_counters[t]`, which C defines inside the array and below `INT_MAX`. -/
def increment (gdr_mapping_type_counters : Nat → Int) (t : Nat) : Option (Nat → Int) :=
  if t < GDR_MAPPING_TYPE_MAX ∧ gdr_mapping_type_counters t < 2 ^ 31 - 1 then
    some (Function.update gdr_mapping_type_counters t (gdr_mapping_type_counters t + 1))
  else none

/-! ## The call -/

/-- Where the callback runs. -/
structure Placement where
  beforeMmap : Bool
  beforeInfo : Bool
  afterInfo : Bool

/-- `params.mapping_type`, if `flags` is known. -/
def params_mapping_type (flags : Int) : Option MrType :=
  if flags = GDR_MAP_FLAG_DEFAULT then some .NONE
  else if flags = GDR_MAP_FLAG_REQ_WC_MAPPING then some .WC
  else if flags = GDR_MAP_FLAG_REQ_CACHE_MAPPING then some .CACHING
  else if flags = GDR_MAP_FLAG_REQ_DEVICE_MAPPING then some .DEVICE
  else none

/-- The checks on what `gdr_get_info_v2` returned: the status of the call, or the type the mapping got. -/
def checkInfo (flags : Int) (t : MrType) (status : Int) : Option InfoV2 → Except Int Nat
  | none => .error status
  | some info =>
    if !gdr_is_mapped info.mapping_type then .error EAGAIN
    else if flags ≠ GDR_MAP_FLAG_DEFAULT ∧ info.mapping_type ≠ t.code then .error EINVAL
    else .ok info.mapping_type

section
variable (P : Platform)

/-- The callback of the mr that `mh` names, if it runs here. None is registered for a persistent mapping. -/
def freeCallback (runs : Bool) (s : Session) (mh : Memh) : Except Fault Session :=
  if runs && !P.gdr_use_persistent_mapping then
    match s.kernel.lookup s.gdr.fd mh.handle with
    | none => .ok s
    | some (info, mr) => (nvCallback P s.kernel s.gdr.fd info mr).map fun k => { s with kernel := k }
  else .ok s

/-- The status, what is stored at `ptr_va`, and the process. -/
def gdr_map_v2_placed (p : Process) (mh : Memh) (callback : Placement) (env : RemapEnv) (start : Nat) (size : BitVec 64)
    (flags : Int) : Option (Int × Option Nat × Process) := do
  if gdr_is_mapped mh.mapping_type then some (EAGAIN, none, p)
  else
    match params_mapping_type flags with
    | none => some (EINVAL, none, p)
    | some t =>
      let (status, s) ← (reqMappingType P p.session mh t.code).toOption
      if status ≠ 0 then some (status, none, { p with session := s })
      else
        let s ← (freeCallback P callback.beforeMmap s mh).toOption
        let (r, s) ← (mmapOn P s mh env start size.toNat).toOption
        if r.ret ≠ 0 then some (errno r, none, { p with session := s })
        else
          let va := start * P.PAGE_SIZE
          let s ← (freeCallback P callback.beforeInfo s mh).toOption
          let (status, info, s) ← (gdr_get_info_v2 P s mh).toOption
          let s ← (freeCallback P callback.afterInfo s mh).toOption
          match checkInfo flags t status info with
          | .error status =>
            some (status, some va,
              { p with session := (munmapOn P s mh .undo wholeEnv va (roundedSize s.gdr size.toNat)).2 })
          | .ok mapping_type =>
            let counters ← increment p.gdr_mapping_type_counters mapping_type
            some (0, some va, ⟨s.setType mh mapping_type, counters⟩)

end

/-- What `gdr_get_info(_v2)` makes of an answer of the driver: the mapping type. -/
def reportedType : Out → Option Nat
  | .infoV2 _ _ _ _ _ mapping_type => some mapping_type
  | .info _ _ _ _ _ mapped wc_mapping =>
    some (if mapped ≠ 0 then if wc_mapping ≠ 0 then GDR_MAPPING_TYPE_WC else GDR_MAPPING_TYPE_CACHING
      else GDR_MAPPING_TYPE_NONE)
  | _ => none

/-- The two ioctls that report the mapping type. -/
def AsksType (mh : Memh) (cmd : Cmd) : Prop := cmd = .get_info true true mh.handle ∨
    cmd = .get_info_v2 true true mh.handle

/-- A VMA without its translations. -/
def region (v : Vma) : Vma := { v with ptes := [] }

def regions (k : Kernel) : List Vma := k.vmas.map region

section
variable (P : Platform)

/-- The handle stored in `mh`, a `uint32_t`, is that of the live mr `mr`. -/
structure Memh.Names (mh : Memh) (s : Session) (info : Info) (mr : Mr) : Prop where
  lt : mh.handle < 2 ^ 32
  file : s.kernel.files s.gdr.fd = some info
  mem : mr ∈ info.mr_list
  handle : mr.handle = mh.handle

variable {P}

/-! ## Rounding -/

/-- The rounded size covers the size, unless the sum has wrapped and it is 0. -/
theorem roundedSize_covers {g : Gdr} (hg : g.Suits P) (size : BitVec 64) :
    roundedSize g size.toNat = 0 ∨ size.toNat ≤ roundedSize g size.toNat := by
  have hpos : 0 < P.PAGE_SIZE := Nat.two_pow_pos _
  have hlt := size.isLt
  rw [roundedSize_eq hg]
  by_cases hw : P.PAGE_SIZE - 1 + size.toNat < 2 ^ 64
  · right
    rw [u64, Nat.mod_eq_of_lt hw]
    have h := Nat.div_add_mod (P.PAGE_SIZE - 1 + size.toNat) P.PAGE_SIZE
    have hmod := Nat.mod_lt (P.PAGE_SIZE - 1 + size.toNat) hpos
    rw [Nat.mul_comm]
    omega
  · left
    have hsmall : u64 (P.PAGE_SIZE - 1 + size.toNat) < P.PAGE_SIZE := by
      rw [u64]
      omega
    rw [Nat.div_eq_of_lt hsmall, Nat.zero_mul]

/-! ## The mr of the call -/

theorem put_put {info : Info} {m m' : Mr} (h : m'.ptr = m.ptr) : (info.put m).put m' = info.put m' := by
  unfold Info.put
  rw [List.map_map]
  refine congrArg (fun l => { info with mr_list := l }) (List.map_congr_left fun x _ => ?_)
  rw [Function.comp_apply, h]
  by_cases hx : x.ptr = m.ptr
  · rw [if_pos hx, if_pos rfl, if_pos hx]
  · rw [if_neg hx, if_neg hx]

/-- The search finds what has been written over the mr it found. -/
theorem search_put {info : Info} {mr m : Mr} {h : Nat} (huniq : ∀ x ∈ info.mr_list, x.ptr = mr.ptr → x = mr)
    (hptr : m.ptr = mr.ptr) (hh : m.handle = mr.handle) (hs : gdr_mr_from_handle_unlocked info h = some mr) :
    gdr_mr_from_handle_unlocked (info.put m) h = some m := by
  have hput : info.put m = info.mapMrs fun x => if x = mr then m else x := by
    refine congrArg (fun l => { info with mr_list := l }) (List.map_congr_left fun x hx => ?_)
    by_cases he : x = mr
    · rw [if_pos he, if_pos (by rw [he, hptr])]
    · rw [if_neg he, if_neg fun hp => he (huniq x hx (hp.trans hptr))]
  have hφ : ∀ x, (if x = mr then m else x).handle = x.handle := by
    intro x
    split
    · next he => rw [he, hh]
    · rfl
  rw [hput, search_mapMrs hφ, hs, Option.map_some, if_pos rfl]

/-- Part of the way through a call on the `gdr_mh_t` of `mr`: only that mr has changed, to
`m`, and the VMAs `added` are there. -/
structure Stage (s0 : Session) (info : Info) (mr : Mr) (added : List Vma) (m : Mr) (s : Session) : Prop where
  gdr : s.gdr = s0.gdr
  cur : s.cur = s0.cur
  files : s.kernel.files = Function.update s0.kernel.files s0.gdr.fd (some (info.put m))
  ptr : m.ptr = mr.ptr
  handle : m.handle = mr.handle
  vmas : regions s.kernel = added.map region ++ regions s0.kernel
  fresh : s0.kernel.fresh ≤ s.kernel.fresh

section
variable {s0 s s' : Session} {mh : Memh} {info : Info} {mr m : Mr} {added : List Vma}

theorem Memh.Names.uniq (hn : mh.Names s0 info mr) (hok : FilesOk P s0.kernel.files s0.kernel.fresh) :
    ∀ x ∈ info.mr_list, x.ptr = mr.ptr → x = mr := fun _ hx hp => (hok.ptr_inj hn.file hn.file hx hn.mem hp).2

theorem Memh.Names.search (hn : mh.Names s0 info mr) (hok : FilesOk P s0.kernel.files s0.kernel.fresh) :
    gdr_mr_from_handle_unlocked info mh.handle = some mr := by
  rw [← hn.handle]
  exact (hok.spaced hn.file).search hn.mem

theorem Stage.start (hn : mh.Names s0 info mr) (hok : FilesOk P s0.kernel.files s0.kernel.fresh) :
    Stage s0 info mr [] mr s0 := by
  have hput : info.put mr = info := by
    refine congrArg (fun l => { info with mr_list := l }) ((List.map_congr_left fun x hx => ?_).trans (List.map_id' _))
    by_cases hp : x.ptr = mr.ptr
    · rw [if_pos hp, hn.uniq hok x hx hp]
    · rw [if_neg hp]
  refine ⟨rfl, rfl, ?_, rfl, rfl, rfl, Nat.le_refl _⟩
  rw [hput, ← hn.file, Function.update_eq_self]

theorem Stage.file (h : Stage s0 info mr added m s) : s.kernel.files s.gdr.fd = some (info.put m) := by
  rw [h.files, h.gdr, Function.update_self]

theorem Stage.search (h : Stage s0 info mr added m s) (hn : mh.Names s0 info mr)
    (hok : FilesOk P s0.kernel.files s0.kernel.fresh) : gdr_mr_from_handle_unlocked (info.put m) mh.handle = some m :=
  search_put (hn.uniq hok) h.ptr h.handle (hn.search hok)

/-- A system call that writes `m'` over the mr and leaves the VMAs where they are. -/
theorem Stage.put {m' : Mr} (h : Stage s0 info mr added m s) (hgdr : s'.gdr = s.gdr) (hcur : s'.cur = s.cur)
    (hfiles : s'.kernel.files = Function.update s.kernel.files s.gdr.fd (some ((info.put m).put m')))
    (hptr : m'.ptr = m.ptr) (hhandle : m'.handle = m.handle) (hvmas : regions s'.kernel = regions s.kernel)
    (hfresh : s.kernel.fresh ≤ s'.kernel.fresh) : Stage s0 info mr added m' s' := by
  refine ⟨hgdr.trans h.gdr, hcur.trans h.cur, ?_, hptr.trans h.ptr, hhandle.trans h.handle, hvmas.trans h.vmas,
    h.fresh.trans hfresh⟩
  rw [hfiles, put_put hptr, h.files, h.gdr, Function.update_idem]

/-- A system call that only reads. -/
theorem Stage.same (h : Stage s0 info mr added m s) (hgdr : s'.gdr = s.gdr) (hcur : s'.cur = s.cur)
    (hfiles : s'.kernel.files = s.kernel.files) (hvmas : s'.kernel.vmas = s.kernel.vmas)
    (hfresh : s.kernel.fresh ≤ s'.kernel.fresh) :
    Stage s0 info mr added m s' :=
  ⟨hgdr.trans h.gdr, hcur.trans h.cur, hfiles.trans h.files, h.ptr, h.handle,
    (congrArg (List.map region) hvmas).trans h.vmas, h.fresh.trans hfresh⟩

/-! ## The system calls -/

/-- An ioctl on an open file is refused for another process, or handled. -/
theorem ioctl_inv {k k' : Kernel} {f cur : Nat} {i : Info} {cmd : Cmd} {r : Reply} (hf : k.files f = some i)
    (hc : cmd ≠ .malformed) (h : gdrdrv_ioctl P k f cur cmd = .ok (r, k')) :
    r = .err (-EACCES) ∧ k' = k ∨ gdrdrv_check_same_process i cur = true ∧ ioctlSwitch P k f i cmd = .ok (r, k') := by
  by_cases hsame : gdrdrv_check_same_process i cur = true
  · refine .inr ⟨hsame, ?_⟩
    have hcur : cur = i.tgid := (beq_iff_eq.1 hsame).symm
    rw [hcur, ioctl_own hf hc] at h
    exact h
  · cases cmd with
    | malformed => exact absurd rfl hc
    | _ =>
      simp only [gdrdrv_ioctl, hf, hsame, Bool.not_false, if_true] at h
      obtain ⟨rfl, rfl⟩ := Prod.mk.inj (Except.ok.inj h)
      exact .inl ⟨rfl, rfl⟩

theorem Stage.req (h : Stage s0 info mr added m s) (hn : mh.Names s0 info mr)
    (hok : FilesOk P s0.kernel.files s0.kernel.fresh) {t : MrType} {status : Int}
    (hr : reqMappingType P s mh t.code = .ok (status, s')) :
    ∃ m', Stage s0 info mr added m' s' ∧ m'.cpu_mapping_type = m.cpu_mapping_type := by
  unfold reqMappingType at hr
  split at hr
  swap
  · obtain ⟨-, rfl⟩ := Prod.mk.inj (Except.ok.inj hr)
    exact ⟨m, h, rfl⟩
  generalize hx : ioctlOn P s mh _ = x at hr
  cases x with
  | error e => cases hr
  | ok x =>
    obtain ⟨r, s1⟩ := x
    obtain ⟨-, rfl⟩ := Prod.mk.inj (Except.ok.inj hr)
    obtain ⟨k, hk, rfl⟩ := ioctlOn_inv hx
    rcases ioctl_inv h.file (by simp) hk with ⟨-, rfl⟩ | ⟨-, hk⟩
    · exact ⟨m, h.same rfl rfl rfl rfl (Nat.le_refl _), rfl⟩
    · have hcode : MrType.ofCode t.code = some t := by cases t <;> rfl
      dsimp only [ioctlSwitch, gdrdrv_req_mapping_type] at hk
      rw [if_neg (by simp), hcode, h.search hn hok] at hk
      obtain ⟨-, rfl⟩ := Prod.mk.inj (Except.ok.inj hk)
      have hkeep : (reqLocked P m t).2.ptr = m.ptr ∧ (reqLocked P m t).2.handle = m.handle ∧
          (reqLocked P m t).2.cpu_mapping_type = m.cpu_mapping_type := by
        unfold reqLocked
        split_ifs <;> exact ⟨rfl, rfl, rfl⟩
      exact ⟨_, h.put rfl rfl rfl hkeep.1 hkeep.2.1 rfl (Nat.le_refl _), hkeep.2.2⟩

theorem zap_regions (mapping : Nat) (v : Vma) (vmas : List Vma) :
    (gdrdrv_zap_vma P mapping v vmas).map region = vmas.map region := by
  unfold gdrdrv_zap_vma unmap_mapping_range
  dsimp only
  rw [List.map_map]
  refine List.map_congr_left fun w _ => ?_
  rw [Function.comp_apply]
  split <;> rfl

/-- The callback leaves the VMAs where they are. -/
theorem Stage.callback (h : Stage s0 info mr added m s) (hn : mh.Names s0 info mr)
    (hok : FilesOk P s0.kernel.files s0.kernel.fresh) {runs : Bool} (hc : freeCallback P runs s mh = .ok s') :
    ∃ m', Stage s0 info mr added m' s' ∧ (m' = m ∨ m' = invalid m) := by
  unfold freeCallback at hc
  split at hc
  swap
  · rw [← Except.ok.inj hc]
    exact ⟨m, h, .inl rfl⟩
  have hl : s.kernel.lookup s.gdr.fd mh.handle = some (info.put m, m) := by
    rw [Kernel.lookup, h.file]
    exact congrArg (Option.map _) (h.search hn hok)
  rw [hl] at hc
  dsimp only at hc
  generalize hx : nvCallback P s.kernel s.gdr.fd (info.put m) m = x at hc
  cases x with
  | error e => cases hc
  | ok k =>
    rw [← Except.ok.inj hc]
    unfold nvCallback at hx
    generalize hcb : gdrdrv_get_pages_free_callback P m _ _ = c at hx
    cases c with
    | error e => cases hx
    | ok c =>
      obtain ⟨m', vmas, n⟩ := c
      have hk : { s.kernel.setFile s.gdr.fd (some ((info.put m).put m')) with
          vmas := vmas, gdrdrv_nv_get_pages_refcount := n } = k := Except.ok.inj hx
      obtain ⟨rfl, m1, hzap⟩ := callback_cases hcb
      have hvmas : vmas.map region = s.kernel.vmas.map region := by
        split at hzap
        · obtain ⟨-, ⟨-, rfl⟩ | ⟨-, mapping, v, -, -, -, rfl⟩⟩ := zapIfMapped_cases hzap
          · rfl
          · exact zap_regions mapping v _
        · rw [(Prod.mk.inj (Except.ok.inj hzap)).2]
      rw [← hk]
      exact ⟨_, h.put rfl rfl rfl rfl rfl hvmas (Nat.le_refl _), .inr rfl⟩

/-- Each of these calls is an operation of the driver. -/
theorem req_reach {t : Nat} {status : Int} {os : List SysOp} (hr : SysRun P s.kernel os)
    (h : reqMappingType P s mh t = .ok (status, s')) : ∃ os', SysRun P s'.kernel os' := by
  unfold reqMappingType at h
  split at h
  swap
  · obtain ⟨-, rfl⟩ := Prod.mk.inj (Except.ok.inj h)
    exact ⟨os, hr⟩
  generalize hx : ioctlOn P s mh _ = x at h
  cases x with
  | error e => cases h
  | ok x =>
    obtain ⟨r, s1⟩ := x
    obtain ⟨-, rfl⟩ := Prod.mk.inj (Except.ok.inj h)
    obtain ⟨k, hk, rfl⟩ := ioctlOn_inv hx
    exact ⟨_, hr.next (.op ⟨r, .ioctl hk⟩)⟩

theorem callback_reach {runs : Bool} {os : List SysOp} (hr : SysRun P s.kernel os)
    (h : freeCallback P runs s mh = .ok s') :
    ∃ os', SysRun P s'.kernel os' := by
  unfold freeCallback at h
  split at h
  swap
  · rw [← Except.ok.inj h]
    exact ⟨os, hr⟩
  next hruns =>
  cases hl : s.kernel.lookup s.gdr.fd mh.handle with
  | none =>
    rw [hl] at h
    rw [← Except.ok.inj h]
    exact ⟨os, hr⟩
  | some r =>
    obtain ⟨i, m⟩ := r
    rw [hl] at h
    dsimp only at h
    generalize hx : nvCallback P s.kernel s.gdr.fd i m = x at h
    cases x with
    | error e => cases h
    | ok k =>
      obtain ⟨hf, hm, -⟩ := search_listed hl
      have hlegacy : P.gdr_use_persistent_mapping = false := by simpa using ((Bool.and_eq_true _ _).mp hruns).2
      rw [← Except.ok.inj h]
      exact ⟨_, hr.next (.op ⟨_, .callback hlegacy hf hm hx⟩)⟩

theorem mmap_reach {env : RemapEnv} {start size : Nat} {r : Reply} {os : List SysOp} (hr : SysRun P s.kernel os)
    (h : mmapOn P s mh env start size = .ok (r, s')) : ∃ os', SysRun P s'.kernel os' := by
  unfold mmapOn at h
  generalize hx : sysMmap P env _ _ _ _ _ _ = x at h
  cases x with
  | error e => cases h
  | ok x =>
    obtain ⟨r1, k⟩ := x
    obtain ⟨rfl, rfl⟩ := Prod.mk.inj (Except.ok.inj h)
    exact ⟨_, hr.next (.op ⟨_, .mmap hx⟩)⟩

/-- A region that `mmapOn` has added. -/
structure Adds (P : Platform) (s0 : Session) (mh : Memh) (start : Nat) (size : BitVec 64) (v : Vma) : Prop where
  fresh : s0.kernel.fresh ≤ v.id
  vm_file : v.vm_file = s0.gdr.fd
  vm_pgoff : v.vm_pgoff = mh.handle
  vm_start : v.vm_start = start * P.PAGE_SIZE
  vm_end : v.vm_end = start * P.PAGE_SIZE + roundedSize s0.gdr size.toNat
  pos : 0 < roundedSize s0.gdr size.toNat
  below : v.vm_end < 2 ^ 64
  covers : size.toNat ≤ roundedSize s0.gdr size.toNat

theorem Stage.mmap (h : Stage s0 info mr [] m s) (hn : mh.Names s0 info mr)
    (hok : FilesOk P s0.kernel.files s0.kernel.fresh) (hg : s0.gdr.Suits P) {env : RemapEnv} {start : Nat}
    {size : BitVec 64} {r : Reply} (hr : mmapOn P s mh env start size.toNat = .ok (r, s')) :
    (r.ret ≠ 0 ∧ ∃ m', Stage s0 info mr [] m' s' ∧ (m' = m ∨ m' = mmapFail m)) ∨
      r.ret = 0 ∧ gdr_mr_is_mapped m = false ∧ gdrdrv_check_same_process info s0.cur = true ∧
        ∃ v, Adds P s0 mh start size v ∧ Stage s0 info mr [v] (m.through P s0.gdr.fd v.id) s' := by
  have hoff : (magicOff s.gdr mh).toNat >>> P.PAGE_SHIFT = mh.handle := by
    rw [h.gdr]
    exact magicOff_handle hg hn.lt
  unfold mmapOn at hr
  generalize hx : sysMmap P env _ _ _ _ _ _ = x at hr
  cases x with
  | error e => cases hr
  | ok x =>
    obtain ⟨r1, k⟩ := x
    obtain ⟨rfl, rfl⟩ := Prod.mk.inj (Except.ok.inj hr)
    cases sysMmap_ends hx with
    | same hne hfiles hvmas hfresh => exact .inl ⟨hne, m, h.same rfl rfl hfiles hvmas hfresh, .inl rfl⟩
    | refused hne hf hs hk =>
      obtain rfl := Option.some.inj (h.file.symm.trans hf)
      rw [hoff] at hs
      obtain rfl := Option.some.inj ((h.search hn hok).symm.trans hs)
      rw [hk]
      exact .inl ⟨hne, _, h.put rfl rfl rfl rfl rfl rfl (Nat.le_succ _), .inr rfl⟩
    | @mapped i m1 pt v h0 hm hk =>
      obtain rfl := Option.some.inj (h.file.symm.trans hm.file)
      have hpgoff : v.vm_pgoff = mh.handle := hm.vm_pgoff.trans hoff
      have hs := hm.search
      rw [hpgoff] at hs
      obtain rfl := Option.some.inj ((h.search hn hok).symm.trans hs)
      have hend := hm.vm_end
      have hpos := hm.pos
      rw [h.gdr, Nat.add_mul, roundedSize_pages hg] at hend
      -- A length of 0 is refused, so the rounded size has not wrapped.
      have hlen : 0 < roundedSize s0.gdr size.toNat := by
        refine Nat.pos_of_ne_zero fun hzero => ?_
        have hps : 0 < P.PAGE_SIZE := Nat.two_pow_pos _
        rw [h.gdr, hzero, Nat.zero_add, Nat.div_eq_of_lt (Nat.sub_lt hps one_pos)] at hpos
        exact absurd hpos (Nat.lt_irrefl 0)
      have hcovers : size.toNat ≤ roundedSize s0.gdr size.toNat := (roundedSize_covers hg size).resolve_left hlen.ne'
      have hid : v.id = s.kernel.fresh := hm.new.id
      refine .inr ⟨by rw [h0]; rfl, hm.unmapped, ?_, v,
        ⟨by rw [hid]; exact h.fresh, by rw [hm.new.vm_file, h.gdr], hpgoff, hm.vm_start, hend, hlen, hm.below, hcovers⟩, ?_⟩
      · have hsame := hm.same
        rw [h.cur] at hsame
        exact hsame
      · rw [hk, h.gdr]
        refine ⟨h.gdr, h.cur, ?_, h.ptr, h.handle, ?_, h.fresh.trans (Nat.le_succ _)⟩
        · have hput : (info.put m).put (m.through P s0.gdr.fd v.id) =
            info.put (m.through P s0.gdr.fd v.id) := put_put rfl
          rw [← hput]
          simp only [Kernel.setFile, h.files, Function.update_idem]
        · exact congrArg (region v :: ·) h.vmas

/-- A handler that reads an mr answers about the one of the call. -/
theorem Stage.reads (h : Stage s0 info mr added m s) (hn : mh.Names s0 info mr)
    (hok : FilesOk P s0.kernel.files s0.kernel.fresh) (hsame : gdrdrv_check_same_process info s0.cur = true)
    {cmd : Nat → Cmd} {out : Mr → Out} (hc : cmd mh.handle ≠ .malformed)
    (hcmd : ∀ k f i, ioctlSwitch P k f i (cmd mh.handle) = .ok (readMr true true i mh.handle out, k)) :
    gdrdrv_ioctl P s.kernel s.gdr.fd s.cur (cmd mh.handle) = .ok (⟨0, out m⟩, s.kernel) ∧
      ioctlOn P s mh cmd = .ok (⟨0, out m⟩, s.log mh (.ioctl (cmd mh.handle))) := by
  have hcur : s.cur = (info.put m).tgid := by
    rw [h.cur]
    exact (beq_iff_eq.1 hsame).symm
  have hreply : gdrdrv_ioctl P s.kernel s.gdr.fd s.cur (cmd mh.handle) = .ok (⟨0, out m⟩, s.kernel) := by
    rw [hcur, ioctl_own h.file hc, hcmd, readMr, h.search hn hok]
    rfl
  refine ⟨hreply, ?_⟩
  have hlog : gdrdrv_ioctl P (s.log mh (.ioctl (cmd mh.handle))).kernel (s.log mh (.ioctl (cmd mh.handle))).gdr.fd
      (s.log mh (.ioctl (cmd mh.handle))).cur (cmd mh.handle) = .ok (⟨0, out m⟩, s.kernel) := hreply
  rw [ioctlOn, ioctl, hlog]
  rfl

/-- The query succeeds, on either interface, and returns the type the driver reports. -/
theorem Stage.get_info (h : Stage s0 info mr added m s) (hn : mh.Names s0 info mr)
    (hok : FilesOk P s0.kernel.files s0.kernel.fresh) (hsame : gdrdrv_check_same_process info s0.cur = true)
    {status : Int} {out : Option InfoV2} (hr : gdr_get_info_v2 P s mh = .ok (status, out, s')) :
    ∃ cmd r i, s' = s.log mh (.ioctl cmd) ∧ AsksType mh cmd ∧ gdrdrv_ioctl P s.kernel s.gdr.fd s.cur cmd =
    .ok (r, s.kernel) ∧
      r.ret = 0 ∧ out = some i ∧ reportedType r.out = some i.mapping_type := by
  unfold gdr_get_info_v2 at hr
  split at hr
  · obtain ⟨hioctl, hon⟩ : _ ∧ ioctlOn P s mh (fun handle => .get_info_v2 true true handle) = .ok (⟨0, _⟩, _) :=
      h.reads hn hok hsame (by simp) fun _ _ _ => rfl
    rw [hon] at hr
    obtain ⟨-, hrest⟩ := Prod.mk.inj (Except.ok.inj hr)
    obtain ⟨rfl, rfl⟩ := Prod.mk.inj hrest
    exact ⟨_, _, _, rfl, .inr rfl, hioctl, rfl, rfl, rfl⟩
  · obtain ⟨hioctl, hon⟩ : _ ∧ ioctlOn P s mh (fun handle => .get_info true true handle) = .ok (⟨0, _⟩, _) :=
      h.reads hn hok hsame (by simp) fun _ _ _ => rfl
    rw [hon] at hr
    obtain ⟨-, hrest⟩ := Prod.mk.inj (Except.ok.inj hr)
    obtain ⟨rfl, rfl⟩ := Prod.mk.inj hrest
    exact ⟨_, _, _, rfl, .inl rfl, hioctl, rfl, rfl, rfl⟩

/-- The region that has been added is found by its place, and the handler of its end finds the mr of the call. -/
theorem Stage.found {start : Nat} {size : BitVec 64} {v : Vma} (h : Stage s0 info mr [v] m s) (hn : mh.Names s0 info mr)
    (hok : FilesOk P s0.kernel.files s0.kernel.fresh) (hv : Adds P s0 mh start size v) :
    ∃ w rest, s.kernel.vmas = w :: rest ∧ region w = region v ∧ rest.map region = regions s0.kernel ∧
      s.kernel.vmas.find? (fun u => u.vm_file = s.gdr.fd ∧ u.vm_start = start * P.PAGE_SIZE ∧
        u.vm_end = start * P.PAGE_SIZE + roundedSize s.gdr size.toNat) = some w ∧
      s.kernel.lookup w.vm_file w.vm_pgoff = some (info.put m, m) := by
  obtain ⟨w, rest, hvmas, hw, hrest⟩ := List.map_eq_cons_iff.1 h.vmas
  have hfile : w.vm_file = v.vm_file := (congrArg Vma.vm_file hw :)
  have hpgoff : w.vm_pgoff = v.vm_pgoff := (congrArg Vma.vm_pgoff hw :)
  have hstart : w.vm_start = v.vm_start := (congrArg Vma.vm_start hw :)
  have hend : w.vm_end = v.vm_end := (congrArg Vma.vm_end hw :)
  refine ⟨w, rest, hvmas, hw, hrest, ?_, ?_⟩
  · rw [hvmas, List.find?_cons_of_pos]
    rw [h.gdr, hfile, hstart, hend, hv.vm_file, hv.vm_start, hv.vm_end]
    exact decide_eq_true ⟨rfl, rfl, rfl⟩
  · rw [hfile, hv.vm_file, hpgoff, hv.vm_pgoff, Kernel.lookup, ← h.gdr, h.file]
    exact congrArg (Option.map _) (h.search hn hok)

/-- The unmap of the region that was added, and of nothing else. -/
theorem Stage.munmap {start : Nat} {size : BitVec 64} {v : Vma} (h : Stage s0 info mr [v] m s)
    (hn : mh.Names s0 info mr) (hok : FilesOk P s0.kernel.files s0.kernel.fresh)
    (hids : ∀ w ∈ s0.kernel.vmas, w.id < s0.kernel.fresh) (hv : Adds P s0 mh start size v) :
    Stage s0 info mr [] (closeMr m)
      (munmapOn P s mh .undo wholeEnv (start * P.PAGE_SIZE) (roundedSize s.gdr size.toNat)).2 := by
  obtain ⟨w, rest, hvmas, hw, hrest, hfind, hl⟩ := h.found hn hok hv
  have hfile : w.vm_file = s.gdr.fd := (congrArg Vma.vm_file hw :).trans (hv.vm_file.trans (congrArg Gdr.fd h.gdr).symm)
  have hid : w.id = v.id := (congrArg Vma.id hw :)
  have hfilter : s.kernel.vmas.filter (fun u => u.id ≠ w.id) = rest := by
    rw [hvmas, List.filter_cons_of_neg (by simp)]
    refine List.filter_eq_self.2 fun u hu => ?_
    have hmem : region u ∈ regions s0.kernel := hrest ▸ List.mem_map_of_mem hu
    obtain ⟨u0, hu0, he⟩ := List.mem_map.1 hmem
    have hlt := hids u0 hu0
    have heq : u0.id = u.id := (congrArg Vma.id he :)
    have hge := hv.fresh
    exact decide_eq_true (by omega)
  have hfiles : (sysMunmap s.kernel w).files =
      Function.update s.kernel.files s.gdr.fd (some ((info.put m).put (closeMr m))) := by
    have hl' : ({ s.kernel with vmas := rest } : Kernel).lookup w.vm_file w.vm_pgoff = some (info.put m, m) := hl
    rw [sysMunmap, hfilter, vma_close_files, hl', hfile]
  have hput : (info.put m).put (closeMr m) = info.put (closeMr m) := put_put rfl
  have hbelow := hv.below
  rw [hv.vm_end, ← h.gdr] at hbelow
  rw [munmapOn_region hfind (Nat.mul_mod_left _ _) (h.gdr ▸ hv.pos) hbelow rfl]
  refine ⟨h.gdr, h.cur, ?_, h.ptr, h.handle, ?_, ?_⟩
  · rw [hfiles, hput, h.files, h.gdr, Function.update_idem]
  · rw [regions, sysMunmap, hfilter, (vma_close_rest _ w).1]
    exact hrest
  · rw [sysMunmap, (vma_close_rest _ w).2]
    exact h.fresh

end

/-! ## All or nothing -/

/-- What `gdr_map_v2` has done when it returns 0: there is one more VMA, of at least `size` bytes, `mh`
has the type that the driver reported, which is the one asked for, and that type is counted. -/
structure Mapped (P : Platform) (p p' : Process) (mh : Memh) (size : BitVec 64) (flags : Int)
    (va : Option Nat) : Prop where
  added : ∃ v, regions p'.session.kernel = region v :: regions p.session.kernel ∧
    (∀ w ∈ p.session.kernel.vmas, w.id ≠ v.id) ∧ v.vm_file = p.session.gdr.fd ∧ va = some v.vm_start ∧
      v.vm_start + size.toNat ≤ v.vm_end
  typed : ∃ t, gdr_is_mapped t = true ∧
    (∃ c os cmd r, p'.session.calls.getLast? = some c ∧ SysRun P c.kernel os ∧ c.request = .ioctl cmd ∧
      AsksType mh cmd ∧ gdrdrv_ioctl P c.kernel p.session.gdr.fd p.session.cur cmd = .ok (r, c.kernel) ∧
        r.ret = 0 ∧ reportedType r.out = some t) ∧
    (flags ≠ GDR_MAP_FLAG_DEFAULT → ∃ T, params_mapping_type flags = some T ∧ t = T.code) ∧
    p'.session.gdr = (p.session.setType mh t).gdr ∧
    p'.gdr_mapping_type_counters = Function.update p.gdr_mapping_type_counters t (p.gdr_mapping_type_counters t + 1)

/-- What it has done when it returns an error: the VMAs are those that were there, `mh` and the counters have not
changed, and in the driver at most the mr of `mh` has, which is unmapped if it was. -/
structure Undone (p p' : Process) (info : Info) (mr : Mr) : Prop where
  vmas : regions p'.session.kernel = regions p.session.kernel
  gdr : p'.session.gdr = p.session.gdr
  counters : p'.gdr_mapping_type_counters = p.gdr_mapping_type_counters
  mr : ∃ m, p'.session.kernel.files = Function.update p.session.kernel.files p.session.gdr.fd
    (some (info.put m)) ∧ m.ptr = mr.ptr ∧ m.handle = mr.handle ∧
      (gdr_mr_is_mapped mr = false → gdr_mr_is_mapped m = false)

theorem Stage.undone {p : Process} {s : Session} {info : Info} {mr m : Mr} (h : Stage p.session info mr [] m s)
    (hm : gdr_mr_is_mapped mr = false → gdr_mr_is_mapped m = false) : Undone p { p with session := s } info mr :=
  ⟨h.vmas, h.gdr, rfl, m, h.files, h.ptr, h.handle, hm⟩

theorem invalid_unmapped {m : Mr} (h : gdr_mr_is_mapped m = false) : gdr_mr_is_mapped (invalid m) = false := by
  have hn : m.cpu_mapping_type = .NONE := by simpa [gdr_mr_is_mapped] using h
  simp [gdr_mr_is_mapped, invalid, hn]

/-- With an answer of the driver at hand, the checks end in one of two errors or let its type through. -/
theorem checkInfo_some {flags : Int} {t : MrType} {status : Int} {i : InfoV2} :
    (∃ e, checkInfo flags t status (some i) = .error e ∧ e ≠ 0) ∨
      checkInfo flags t status (some i) = .ok i.mapping_type ∧ gdr_is_mapped i.mapping_type = true ∧
        (flags ≠ GDR_MAP_FLAG_DEFAULT → i.mapping_type = t.code) := by
  unfold checkInfo
  dsimp only
  split_ifs with h1 h2
  · exact .inl ⟨EAGAIN, rfl, by decide⟩
  · exact .inl ⟨EINVAL, rfl, by decide⟩
  · refine .inr ⟨rfl, by simpa using h1, fun hf => ?_⟩
    by_contra hne
    exact h2 ⟨hf, hne⟩

/-- The region that was added covers the request. -/
theorem Stage.added {s0 s : Session} {mh : Memh} {info : Info} {mr m : Mr} {v : Vma} {start : Nat} {size : BitVec 64}
    (h : Stage s0 info mr [v] m s) (hids : ∀ w ∈ s0.kernel.vmas, w.id < s0.kernel.fresh)
    (hv : Adds P s0 mh start size v) :
    ∃ v, regions s.kernel = region v :: regions s0.kernel ∧ (∀ w ∈ s0.kernel.vmas, w.id ≠ v.id) ∧
      v.vm_file = s0.gdr.fd ∧ some (start * P.PAGE_SIZE) = some v.vm_start ∧ v.vm_start + size.toNat ≤ v.vm_end := by
  refine ⟨v, h.vmas, fun w hw => ?_, hv.vm_file, by rw [hv.vm_start], ?_⟩
  · exact Nat.ne_of_lt (Nat.lt_of_lt_of_le (hids w hw) hv.fresh)
  · rw [hv.vm_end, hv.vm_start]
    exact Nat.add_le_add_left hv.covers _

theorem callback_calls {s s' : Session} {mh : Memh} {runs : Bool} (h : freeCallback P runs s mh = .ok s') :
    s'.calls = s.calls := by
  unfold freeCallback at h
  split at h
  swap
  · rw [← Except.ok.inj h]
  split at h
  · rw [← Except.ok.inj h]
  · generalize nvCallback P _ _ _ _ = x at h
    cases x with
    | error e => cases h
    | ok k => rw [← Except.ok.inj h]

theorem increment_eq {c c' : Nat → Int} {t : Nat} (h : increment c t = some c') :
    c' = Function.update c t (c t + 1) := by
  unfold increment at h
  split at h
  · exact (Option.some.inj h).symm
  · cases h

/-- A call ends in one of two ways, by its status. -/
theorem map_v2_ends {p p' : Process} {os : List SysOp} {mh : Memh} {info : Info} {mr : Mr} {callback : Placement}
    {env : RemapEnv} {start : Nat} {size : BitVec 64} {flags ret : Int} {va : Option Nat}
    (hr : SysRun P p.session.kernel os) (hg : p.session.gdr.Suits P) (hn : mh.Names p.session info mr)
    (h : gdr_map_v2_placed P p mh callback env start size flags = some (ret, va, p')) :
    ret = 0 ∧ Mapped P p p' mh size flags va ∨ ret ≠ 0 ∧ Undone p p' info mr := by
  have hok := hr.filesOk
  have hids := hr.vma_id
  have hstart : Stage p.session info mr [] mr p.session := .start hn hok
  have fails : ∀ {s : Session} {m : Mr} {e : Int} {va' : Option Nat}, e ≠ 0 → Stage p.session info mr [] m s →
      (gdr_mr_is_mapped mr = false → gdr_mr_is_mapped m = false) → some (e, va', { p with session := s }) =
        some (ret, va, p') →
      ret = 0 ∧ Mapped P p p' mh size flags va ∨ ret ≠ 0 ∧ Undone p p' info mr := by
    intro s m e va' he hs hm heq
    cases heq
    exact .inr ⟨he, hs.undone hm⟩
  have keep : ∀ {m m' : Mr}, (gdr_mr_is_mapped mr = false → gdr_mr_is_mapped m = false) → m' = m ∨ m' = invalid m →
      gdr_mr_is_mapped mr = false → gdr_mr_is_mapped m' = false := by
    rintro m m' hm (rfl | rfl) hmr
    · exact hm hmr
    · exact invalid_unmapped (hm hmr)
  unfold gdr_map_v2_placed at h
  split at h
  · exact fails (by decide) hstart id h
  cases hT : params_mapping_type flags with
  | none =>
    rw [hT] at h
    exact fails (by decide) hstart id h
  | some T =>
    rw [hT] at h
    dsimp only at h
    obtain ⟨⟨status, s1⟩, h1, h⟩ := Option.bind_eq_some_iff.1 h
    obtain ⟨m1, hs1, hm1⟩ := hstart.req hn hok (toOption_ok h1)
    have hu1 : gdr_mr_is_mapped mr = false → gdr_mr_is_mapped m1 = false := by
      rw [gdr_mr_is_mapped, gdr_mr_is_mapped, hm1]
      exact id
    dsimp only at h
    split at h
    · next hne => exact fails hne hs1 hu1 h
    obtain ⟨s2, h2, h⟩ := Option.bind_eq_some_iff.1 h
    obtain ⟨m2, hs2, hm2⟩ := hs1.callback hn hok (toOption_ok h2)
    have hu2 := keep hu1 hm2
    obtain ⟨⟨r, s3⟩, h3, h⟩ := Option.bind_eq_some_iff.1 h
    dsimp only at h
    rcases hs2.mmap hn hok hg (toOption_ok h3) with ⟨hne, m3, hs3, hm3⟩ | ⟨h0, hmap2, hsame, v, hadds, hs3⟩
    · rw [if_pos hne] at h
      refine fails (neg_ne_zero.2 hne) hs3 (fun hmr => ?_) h
      rcases hm3 with rfl | rfl
      · exact hu2 hmr
      · rfl
    rw [if_neg (not_not_intro h0)] at h
    obtain ⟨s4, h4, h⟩ := Option.bind_eq_some_iff.1 h
    obtain ⟨m4, hs4, hm4⟩ := hs3.callback hn hok (toOption_ok h4)
    obtain ⟨⟨status, out, s5⟩, h5, h⟩ := Option.bind_eq_some_iff.1 h
    obtain ⟨cmd, r5, i, rfl, hasks, hioctl, hr5, rfl, hrep⟩ := hs4.get_info hn hok hsame (toOption_ok h5)
    have hs5 : Stage p.session info mr [v] m4 (s4.log mh (.ioctl cmd)) := hs4.same rfl rfl rfl rfl (Nat.le_refl _)
    dsimp only at h
    obtain ⟨s6, h6, h⟩ := Option.bind_eq_some_iff.1 h
    obtain ⟨m6, hs6, hm6⟩ := hs5.callback hn hok (toOption_ok h6)
    rcases @checkInfo_some flags T status i with ⟨e, hcheck, he⟩ | ⟨hcheck, hmapped, htype⟩
    · -- The region goes, and its `.close` marks the mr unmapped.
      rw [hcheck] at h
      dsimp only at h
      exact fails he (hs6.munmap hn hok hids hadds) (fun _ => rfl) h
    · rw [hcheck] at h
      dsimp only at h
      obtain ⟨counters, hinc, h⟩ := Option.bind_eq_some_iff.1 h
      cases h
      obtain ⟨os1, hr1⟩ := req_reach hr (toOption_ok h1)
      obtain ⟨os2, hr2⟩ := callback_reach hr1 (toOption_ok h2)
      obtain ⟨os3, hr3⟩ := mmap_reach hr2 (toOption_ok h3)
      obtain ⟨os4, hr4⟩ := callback_reach hr3 (toOption_ok h4)
      refine .inl ⟨rfl, hs6.added hids hadds, i.mapping_type, hmapped, ?_, fun hf => ⟨T, hT, htype hf⟩, ?_,
        increment_eq hinc⟩
      · -- the query is the last call, made where the driver has got to
        refine ⟨⟨s4.kernel, .ioctl cmd, s4.pins mh.ptr⟩, os4, cmd, r5, ?_, hr4, rfl, hasks, ?_, hr5, hrep⟩
        · exact (congrArg List.getLast? (callback_calls (toOption_ok h6))).trans List.getLast?_concat
        · rw [← hs4.gdr, ← hs4.cur]
          exact hioctl
      · rw [Session.setType, Session.setType, hs6.gdr]

/-- `gdr_map_v2` either adds one VMA of the type asked for and counts it, or leaves nothing
behind, wherever the free callback of the buffer runs. -/
theorem map_all_or_nothing {p p' : Process} {os : List SysOp} {mh : Memh} {info : Info} {mr : Mr} {callback : Placement}
    {env : RemapEnv} {start : Nat} {size : BitVec 64} {flags ret : Int} {va : Option Nat}
    (hr : SysRun P p.session.kernel os) (hg : p.session.gdr.Suits P) (hn : mh.Names p.session info mr)
    (h : gdr_map_v2_placed P p mh callback env start size flags = some (ret, va, p')) :
    (ret = 0 → Mapped P p p' mh size flags va) ∧ (ret ≠ 0 → Undone p p' info mr) := by
  rcases map_v2_ends hr hg hn h with ⟨h0, hmapped⟩ | ⟨hne, hundone⟩
  · exact ⟨fun _ => hmapped, fun hne => absurd h0 hne⟩
  · exact ⟨fun h0 => absurd h0 hne, fun _ => hundone⟩

/-! ## Without a callback -/

/-- A query that returns nothing has failed. -/
theorem get_info_none {s s' : Session} {mh : Memh} {status : Int}
    (h : gdr_get_info_v2 P s mh = .ok (status, none, s')) :
    status ≠ 0 := by
  have answers : ∀ {k k' : Kernel} {f cur handle : Nat} {cmd : Cmd} {r : Reply} {out : Mr → Out}, cmd ≠ .malformed →
      (∀ i, ioctlSwitch P k f i cmd = .ok (readMr true true i handle out, k)) →
        gdrdrv_ioctl P k f cur cmd = .ok (r, k') →
      r.ret ≠ 0 ∨ ∃ m, r = ⟨0, out m⟩ := by
    intro k k' f cur handle cmd r out hc hcmd hr
    cases hf : k.files f with
    | none =>
      cases cmd with
      | malformed => exact absurd rfl hc
      | _ =>
        simp only [gdrdrv_ioctl, hf] at hr
        rw [← (Prod.mk.inj (Except.ok.inj hr)).1]
        exact .inl (by decide)
    | some i =>
      rcases ioctl_inv hf hc hr with ⟨rfl, -⟩ | ⟨-, hs⟩
      · exact .inl (by decide)
      · rw [hcmd] at hs
        rw [← (Prod.mk.inj (Except.ok.inj hs)).1, readMr, if_neg (by simp)]
        cases gdr_mr_from_handle_unlocked i handle with
        | none => exact .inl (show (-EINVAL : Int) ≠ 0 by decide)
        | some m => exact .inr ⟨m, rfl⟩
  unfold gdr_get_info_v2 at h
  -- the query of either version ends in `readMr`
  split at h
  all_goals
    generalize hx : ioctlOn P s mh _ = x at h
    cases x with
    | error e => cases h
    | ok x =>
      obtain ⟨r, s1⟩ := x
      obtain ⟨k, hk, -⟩ := ioctlOn_inv hx
      rcases answers (by simp) (fun i => rfl) hk with hne | ⟨m, rfl⟩
      · dsimp only [bind, Except.bind] at h
        split at h
        · exact absurd rfl hne
        · obtain ⟨rfl, -⟩ := Prod.mk.inj (Except.ok.inj h)
          exact neg_ne_zero.2 hne
      · cases h

theorem params_mapping_type_code (flags : Nat) :
    params_mapping_type flags = none ∧ 3 < flags ∨ ∃ t, params_mapping_type flags = some t ∧ t.code = flags ∧
    flags ≤ 3 := by
  by_cases h : flags ≤ 3
  · right
    obtain rfl | rfl | rfl | rfl : flags = 0 ∨ flags = 1 ∨ flags = 2 ∨ flags = 3 := by omega
    · exact ⟨.NONE, rfl, rfl, by decide⟩
    · exact ⟨.WC, rfl, rfl, by decide⟩
    · exact ⟨.CACHING, rfl, rfl, by decide⟩
    · exact ⟨.DEVICE, rfl, rfl, by decide⟩
  · left
    refine ⟨?_, by omega⟩
    have hne : ∀ k : Nat, k ≤ 3 → (flags : Int) ≠ k := by omega
    unfold params_mapping_type
    rw [if_neg (hne _ (by decide)), if_neg (hne _ (by decide)), if_neg (hne _ (by decide)), if_neg (hne _ (by decide))]

theorem checkInfo_error {s s' : Session} {mh : Memh} {flags : Int} {t : MrType} {status e : Int} {out : Option InfoV2}
    (h : gdr_get_info_v2 P s mh = .ok (status, out, s')) (he : checkInfo flags t status out = .error e) : e ≠ 0 := by
  cases out with
  | none =>
    rw [← Except.error.inj he]
    exact get_info_none h
  | some i =>
    rcases @checkInfo_some flags t status i with ⟨e', hcheck, hne⟩ | ⟨hcheck, -, -⟩
    · rw [← Except.error.inj (hcheck.symm.trans he)]
      exact hne
    · rw [hcheck] at he
      cases he

/-- The end of `gdr_map_v2` in `Gdrapi.lean`, by the checks here. -/
theorem checkMapped_eq {s s' : Session} {mh : Memh} {flags : Nat} {t : MrType} {status : Int} {out : Option InfoV2}
    (hcode : t.code = flags) (h : gdr_get_info_v2 P s mh = .ok (status, out, s')) :
    (∃ e, checkInfo flags t status out = .error e ∧ checkMapped P s mh flags = .ok (e, s')) ∨
      ∃ mt, checkInfo flags t status out = .ok mt ∧ checkMapped P s mh flags = .ok (0, s'.setType mh mt) := by
  simp only [checkMapped, h, bind, Except.bind]
  cases out with
  | none => exact .inl ⟨status, rfl, rfl⟩
  | some i =>
    dsimp only [checkInfo]
    rw [hcode]
    have hcast : ((flags : Int) ≠ GDR_MAP_FLAG_DEFAULT) ↔ flags ≠ GDR_MAP_FLAG_DEFAULT := Nat.cast_inj.not
    simp only [hcast]
    split_ifs with h1 h2
    · exact .inl ⟨_, rfl, rfl⟩
    · exact .inl ⟨_, rfl, rfl⟩
    · exact .inr ⟨_, rfl, rfl⟩

/-- Where no callback runs, the session goes through `gdr_map_v2` as `Gdrapi.lean` has it. -/
theorem gdr_map_v2_plain {p p' : Process} {mh : Memh} {env : RemapEnv} {start flags : Nat}
    {size : BitVec 64} {ret : Int} {va : Option Nat}
    (h : gdr_map_v2_placed P p mh ⟨false, false, false⟩ env start size flags = some (ret, va, p')) :
    gdr_map_v2 P p.session mh env start size.toNat flags = some (ret, if ret = 0 then va else none, p'.session) := by
  unfold gdr_map_v2_placed at h
  unfold gdr_map_v2
  by_cases hm : gdr_is_mapped mh.mapping_type = true
  · rw [if_pos hm] at h ⊢
    cases h
    rfl
  rw [if_neg hm] at h ⊢
  rcases params_mapping_type_code flags with ⟨hT, h3⟩ | ⟨t, hT, hcode, h3⟩
  · rw [hT] at h
    cases h
    rw [if_pos h3]
    rfl
  rw [hT] at h
  rw [if_neg (Nat.not_lt.2 h3)]
  dsimp only at h
  rw [hcode] at h
  obtain ⟨⟨status, s1⟩, h1, h⟩ := Option.bind_eq_some_iff.1 h
  simp only [h1, Option.bind_eq_bind, Option.bind_some]
  dsimp only at h
  by_cases hstatus : status ≠ 0
  · rw [if_pos hstatus] at h ⊢
    cases h
    rw [ite_self]
  rw [if_neg hstatus] at h ⊢
  obtain ⟨s2, h2, h⟩ := Option.bind_eq_some_iff.1 h
  cases h2
  obtain ⟨⟨r, s3⟩, h3, h⟩ := Option.bind_eq_some_iff.1 h
  simp only [h3, Option.bind_some]
  dsimp only at h
  by_cases hr : r.ret ≠ 0
  · rw [if_pos hr] at h ⊢
    cases h
    rw [ite_self]
  rw [if_neg hr] at h ⊢
  obtain ⟨s4, h4, h⟩ := Option.bind_eq_some_iff.1 h
  cases h4
  obtain ⟨⟨status', out, s5⟩, h5, h⟩ := Option.bind_eq_some_iff.1 h
  obtain ⟨s6, h6, h⟩ := Option.bind_eq_some_iff.1 h
  cases h6
  have h5 := toOption_ok h5
  rcases checkMapped_eq hcode h5 with ⟨e, hcheck, hold⟩ | ⟨mt, hcheck, hold⟩
  · have he := checkInfo_error h5 hcheck
    rw [hcheck] at h
    cases h
    simp only [hold, Except.toOption, Option.bind_some, if_pos he, if_neg he]
  · rw [hcheck] at h
    obtain ⟨counters, hinc, h⟩ := Option.bind_eq_some_iff.1 h
    cases h
    simp only [hold, Except.toOption, Option.bind_some]
    rfl

end

/-- The library of a process that has pinned one buffer. -/
def pinnedOne (k : Kernel) : Process :=
  ⟨⟨k, ⟨0, [⟨5, 0, 0⟩], 0x1000, 12, 0x20005⟩, 1, 6, fun _ => none, 16, []⟩, fun _ => 0⟩

/-- The buffer is mapped write-combining; if it is freed just after `mmap`, there is no mapping. -/
theorem map_all_or_nothing_pinOnly : ∃ k info mr va p' q', SysRun x86Host k (pinOnly.map .op) ∧
    Mapped x86Host (pinnedOne k) p' ⟨5, 0, 0⟩ 0x8001 1 va ∧ Undone (pinnedOne k) q' info mr := by
  have hrun : (execAll x86Host (fun _ _ => true) init pinOnly).any (fun k => (k.files 0).any fun info =>
      info.mr_list.head?.any fun mr =>
      mr.handle == 0 &&
      (gdr_map_v2_placed x86Host (pinnedOne k) ⟨5, 0, 0⟩ ⟨false, false, false⟩ (fun _ _ _ => 0) 0x1000 0x8001 1).any
        (fun r => r.1 == 0) &&
      (gdr_map_v2_placed x86Host (pinnedOne k) ⟨5, 0, 0⟩ ⟨false, true, false⟩ (fun _ _ _ => 0) 0x1000 0x8001 1).any
        fun r => r.1 != 0) = true := by decide +kernel
  obtain ⟨k, hk, hrun⟩ := Option.any_eq_true _ _ |>.1 hrun
  obtain ⟨info, hf, hrun⟩ := Option.any_eq_true _ _ |>.1 hrun
  obtain ⟨mr, hm, hrun⟩ := Option.any_eq_true _ _ |>.1 hrun
  simp only [Bool.and_eq_true] at hrun
  obtain ⟨⟨hhandle, hsome⟩, hcall⟩ := hrun
  obtain ⟨⟨ret, va, p'⟩, hp, h0⟩ := Option.any_eq_true _ _ |>.1 hsome
  obtain ⟨⟨ret', va', q'⟩, hq, hne⟩ := Option.any_eq_true _ _ |>.1 hcall
  have hr : SysRun x86Host (pinnedOne k).session.kernel _ := gdrdrv.Run.sysRun (execAll_run hk).of_only
  have hg : (pinnedOne k).session.gdr.Suits x86Host := ⟨rfl, rfl, show MINIMUM_GDRDRV_VERSION ≤ 0x20005 by decide⟩
  have hn : Memh.Names ⟨5, 0, 0⟩ (pinnedOne k).session info mr :=
    ⟨by decide, hf, List.mem_of_mem_head? hm, by simpa using hhandle⟩
  exact ⟨k, info, mr, va, p', q', hr, (map_all_or_nothing hr hg hn hp).1 (by simpa using h0),
    (map_all_or_nothing hr hg hn hq).2 (by simpa using hne)⟩

end gdrapi
