import GdrCopy.Driver.Munmap
/-!
# What an mmap leaves

One inversion lemma for the system call around `gdrdrv_mmap`. The driver raises its
errors before and after it has begun to change the mr, and one cleanup block serves
them all: it marks the mr unmapped. `failed_mmap_leaves` says for which mrs that
changes nothing.
-/

namespace gdrdrv

section
variable {P : Platform}

/-! ## The system call -/

/-- A `mmap` that succeeds: the mr, the page table, and the VMA that is there now. -/
structure SysMapped (P : Platform) (s : Kernel) (f cur start len : Nat) (off : BitVec 64) (info : Info)
    (mr : Mr) (pt : PageTable)
    (v : Vma) : Prop where
  file : s.files f = some info
  same : gdrdrv_check_same_process info cur = true
  search : gdr_mr_from_handle_unlocked info v.vm_pgoff = some mr
  unmapped : gdr_mr_is_mapped mr = false
  cb_flag : mr.cb_flag = false
  offset : mr.offset = 0
  type : chooseType P mr ≠ .NONE
  page_table : mr.page_table = some pt
  entries : 0 < pt.entries
  new : v.New P s.fresh f pt
  vm_pgoff : v.vm_pgoff = off.toNat >>> P.PAGE_SHIFT
  vm_start : v.vm_start = start * P.PAGE_SIZE
  vm_end : v.vm_end = (start + (len + P.PAGE_SIZE - 1) / P.PAGE_SIZE) * P.PAGE_SIZE
  pos : 0 < (len + P.PAGE_SIZE - 1) / P.PAGE_SIZE
  below : v.vm_end < 2 ^ 64

inductive SysMmapEnds (P : Platform) (s : Kernel) (f cur start len : Nat) (off : BitVec 64) (r : Reply)
    (s' : Kernel) : Prop
  | same : r.ret ≠ 0 → s'.files = s.files → s'.vmas = s.vmas → s.fresh ≤ s'.fresh →
    SysMmapEnds P s f cur start len off r s'
  | refused {info : Info} {mr : Mr} : r.ret ≠ 0 → s.files f = some info →
    gdr_mr_from_handle_unlocked info (off.toNat >>> P.PAGE_SHIFT) = some mr →
    s' = { s.setFile f (some (info.put (mmapFail mr))) with fresh := s.fresh + 1 } →
    SysMmapEnds P s f cur start len off r s'
  | mapped {info : Info} {mr : Mr} {pt : PageTable} {v : Vma} :
    r = .err 0 → SysMapped P s f cur start len off info mr pt v →
    s' = { s.setFile f (some (info.put (mr.through P f v.id))) with vmas := v :: s.vmas, fresh := s.fresh + 1 } →
    SysMmapEnds P s f cur start len off r s'

theorem mmapRegion_eq {s : Kernel} {f start len : Nat} {off : BitVec 64} {vma : Vma}
    (h : mmapRegion P s f start len off = .ok vma) :
    0 < (len + P.PAGE_SIZE - 1) / P.PAGE_SIZE ∧
    vma.vm_end = (start + (len + P.PAGE_SIZE - 1) / P.PAGE_SIZE) * P.PAGE_SIZE := by
  unfold mmapRegion at h
  dsimp only at h
  split at h
  · cases h
  rename_i hp
  split at h
  · cases h
  cases h
  exact ⟨Nat.pos_of_ne_zero (not_or.1 hp).2, rfl⟩

theorem mmapRegion_error {s : Kernel} {f start len : Nat} {off : BitVec 64} {e : Int}
    (h : mmapRegion P s f start len off = .error e) : e ≠ 0 := by
  unfold mmapRegion at h
  dsimp only at h
  split at h
  · cases h; decide
  split at h
  · cases h; decide
  · cases h

theorem sysMmap_ends {env : RemapEnv} {s s' : Kernel} {f cur start len : Nat} {off : BitVec 64} {r : Reply}
    (h : sysMmap P env s f cur start len off = .ok (r, s')) : SysMmapEnds P s f cur start len off r s' := by
  unfold sysMmap at h
  cases hreg : mmapRegion P s f start len off with
  | error e =>
    rw [hreg] at h
    obtain ⟨rfl, rfl⟩ := Prod.mk.inj (Except.ok.inj h)
    exact .same (mmapRegion_error hreg) rfl rfl (Nat.le_refl _)
  | ok vma =>
    obtain ⟨pages, -, hlt, hstart, hend, hid, hvf, hptes, hpg, hoff⟩ := mmapRegion_ok hreg
    obtain ⟨hpos, hend'⟩ := mmapRegion_eq hreg
    rw [hreg] at h
    dsimp only at h
    generalize hg : gdrdrv_mmap P env _ f cur vma = g at h
    cases g with
    | error e => cases h
    | ok g =>
      obtain ⟨ret, v', s1⟩ := g
      dsimp only at h
      cases gdrdrv_mmap_ends hg with
      | unreached hne hs _ =>
        rw [if_neg hne] at h
        obtain ⟨rfl, rfl⟩ := Prod.mk.inj (Except.ok.inj h)
        subst hs
        exact .same hne rfl rfl (Nat.le_succ _)
      | refused hne hf hsame hsr hs =>
        rw [if_neg hne] at h
        obtain ⟨rfl, rfl⟩ := Prod.mk.inj (Except.ok.inj h)
        rw [hpg] at hsr
        exact .refused hne hf hsr hs
      | mapped h0 hm hs =>
        rw [if_pos h0] at h
        obtain ⟨rfl, rfl⟩ := Prod.mk.inj (Except.ok.inj h)
        obtain ⟨hnew, hpg'⟩ := mapped_new hlt hstart hend hid hvf hptes hoff hm.size hm.loop
        obtain ⟨-, -, hgrow⟩ := mmapLoop_grows P _ _ 0 _ pages _ rfl _ _ (by
          have hn : vma.vm_end - vma.vm_start = pages * P.PAGE_SIZE := by
            rw [hstart, hend, Nat.add_mul, Nat.add_sub_cancel_left]
          rw [← hn]
          exact hm.loop)
        subst hs
        exact .mapped rfl ⟨hm.file, hm.same, by rw [hpg']; exact hm.search, hm.unmapped, hm.cb_flag, hm.offset, hm.type,
          hm.page_table, hm.entries, hnew, hpg'.trans hpg, hgrow.vm_start.trans hstart, hgrow.vm_end.trans hend', hpos,
          by rw [hgrow.vm_end, hend]; exact hlt⟩ rfl

/-! ## A failed mmap -/

/-- The fields that mappings, requests and invalidation go by. -/
structure Tracking where
  ptr : Nat
  vma : Option Nat
  mapping : Option Nat
  cpu_mapping_type : MrType
  req_mapping_type : MrType
  page_table : Option PageTable
  cb_flag : Bool
  deriving DecidableEq

def Mr.tracking (mr : Mr) : Tracking :=
  ⟨mr.ptr, mr.vma, mr.mapping, mr.cpu_mapping_type, mr.req_mapping_type, mr.page_table, mr.cb_flag⟩

/-- The mrs of file `f` in turn, as far as `Tracking` goes. -/
def Kernel.tracked (s : Kernel) (f : Nat) : Option (List Tracking) :=
  (s.files f).map fun info => info.mr_list.map (·.tracking)

/-- What the cleanup of a failed `mmap` sets is what `mr` has. -/
def Mr.Untracked (mr : Mr) : Prop := mr.vma = none ∧ mr.mapping = none ∧ mr.cpu_mapping_type = .NONE

/-- Writing the cleaned up mr back changes nothing tracked exactly when it was so before. -/
theorem cleanup_iff {info : Info} {mr : Mr} (hm : mr ∈ info.mr_list)
    (huniq : ∀ m ∈ info.mr_list, m.ptr = mr.ptr → m = mr) :
    (info.put (mmapFail mr)).mr_list.map (·.tracking) = info.mr_list.map (·.tracking) ↔ mr.Untracked := by
  have hsame : (mmapFail mr).tracking = mr.tracking ↔ mr.Untracked := by
    simp only [Mr.tracking, mmapFail, Tracking.mk.injEq, Mr.Untracked, true_and, and_true, eq_comm]
  rw [Info.put, List.map_map, List.map_inj_left]
  constructor
  · intro h
    have := h mr hm
    rwa [Function.comp_apply, if_pos (show mr.ptr = (mmapFail mr).ptr from rfl), hsame] at this
  · intro hu m hmem
    rw [Function.comp_apply]
    by_cases he : m.ptr = (mmapFail mr).ptr
    · rw [if_pos he, hsame.2 hu, huniq m hmem he]
    · rw [if_neg he]

/-- An `mmap` that fails, for whatever reason, leaves the mrs of the file as they
were exactly when it reaches none, or one with nothing to clean up. -/
theorem failed_mmap_leaves {env : RemapEnv} {s s' : Kernel} {os : List SysOp} {f cur : Nat} {vma v' : Vma} {ret : Int}
    (hr : SysRun P s os) (h : gdrdrv_mmap P env s f cur vma = .ok (ret, v', s')) (hret : ret ≠ 0) :
    s'.tracked f = s.tracked f ↔
      ∀ info mr, s.files f = some info → gdrdrv_check_same_process info cur = true →
        gdr_mr_from_handle_unlocked info vma.vm_pgoff = some mr → mr.Untracked := by
  cases gdrdrv_mmap_ends h with
  | mapped h0 _ _ => exact absurd h0 hret
  | unreached _ hs hnone =>
    subst hs
    refine ⟨fun _ info mr hf hsame hs => ?_, fun _ => rfl⟩
    rw [hnone info hf hsame] at hs
    cases hs
  | refused _ hf hsame hs heq =>
    rename_i info mr _
    subst heq
    have hm := search_mem hs
    have hiff := cleanup_iff hm fun m hm' he => (hr.filesOk.ptr_inj hf hf hm' hm he).2
    simp only [Kernel.tracked, Kernel.setFile, Function.update_self, hf, Option.map_some, Option.some.injEq]
    rw [hiff]
    constructor
    · rintro hu i m rfl - hs'
      rw [hs] at hs'
      rwa [← Option.some.inj hs']
    · exact fun h => h info mr rfl hsame hs

end

/-- Host page `start` of an address space, before the driver maps it to the mr with handle 0. -/
def regionAt (start : Nat) : Vma := ⟨7, 0, start * 0x1000, start * 0x1000 + 0x10000, 0, false, .CACHING, []⟩

/-- A `gdrdrv_mmap` after the operations `os` of one process, with what it returns. -/
theorem mmap_after (os : List Op) (env : RemapEnv) (f cur : Nat) (vma : Vma) (q : Kernel → Int × Vma × Kernel → Bool)
    (h : ((execAll x86Host (fun _ _ => true) init os).any fun s =>
      (gdrdrv_mmap x86Host env s f cur vma).toOption.any (q s)) = true) :
    ∃ s ret v' s', SysRun x86Host s (os.map .op) ∧ gdrdrv_mmap x86Host env s f cur vma = .ok (ret, v', s') ∧
      q s (ret, v', s') = true := by
  obtain ⟨s, hs, h⟩ := Option.any_eq_true _ _ |>.1 h
  obtain ⟨r, hr, hq⟩ := Option.any_eq_true _ _ |>.1 h
  exact ⟨s, r.1, r.2.1, r.2.2, Run.sysRun (execAll_run hs).of_only, toOption_ok hr, hq⟩

/-- One process pins a GPU page and maps it. -/
def pinAndMap : List Op := [.openFile 0 1 true, pinOp 0 1 0x10000 0x10000 [0x10000000], mmapOp 0 1 0x1000 0x10000 0]

/-- One process pins a GPU page. -/
def pinOnly : List Op := [.openFile 0 1 true, pinOp 0 1 0x10000 0x10000 [0x10000000]]

/-- A first `mmap` whose remap fails leaves the mr as it was. -/
theorem failed_mmap_leaves_pinOnly : ∃ s ret v' s', SysRun x86Host s (pinOnly.map .op) ∧
    gdrdrv_mmap x86Host (fun _ _ _ => 1) s 0 1 (regionAt 0x1000) = .ok (ret, v', s') ∧ ret ≠ 0 ∧
      s'.tracked 0 = s.tracked 0 := by
  obtain ⟨s, ret, v', s', hr, h, hq⟩ := mmap_after pinOnly (fun _ _ _ => 1) 0 1 (regionAt 0x1000)
    (fun s r => r.1 != 0 && (s.files 0).any fun info => info.mr_list.all fun mr => mr.vma.isNone && mr.mapping.isNone &&
      mr.cpu_mapping_type == .NONE) (by decide +kernel)
  obtain ⟨hret, hall⟩ := (Bool.and_eq_true _ _).mp hq
  obtain ⟨info, hf, hall⟩ := Option.any_eq_true _ _ |>.1 hall
  have hret : ret ≠ 0 := by simpa using hret
  refine ⟨s, ret, v', s', hr, h, hret, (failed_mmap_leaves hr h hret).2 fun i mr hi _ hs => ?_⟩
  rw [← Option.some.inj (hf.symm.trans hi)] at hs
  have := List.all_eq_true.1 hall mr (search_mem hs)
  simpa [Mr.Untracked, and_assoc] using this

/-- A second `mmap` of a mapped buffer is refused, and the mapping is no longer tracked. -/
theorem refused_mmap_untracks : ¬ ∀ P env s os f cur vma ret v' s', SysRun P s os →
    gdrdrv_mmap P env s f cur vma = .ok (ret, v', s') → ret ≠ 0 → s'.tracked f = s.tracked f := by
  intro hall
  obtain ⟨s, ret, v', s', hr, h, hq⟩ := mmap_after pinAndMap (fun _ _ _ => 0) 0 1 (regionAt 0x2000)
    (fun s r => r.1 != 0 && !(r.2.2.tracked 0 == s.tracked 0)) (by decide +kernel)
  obtain ⟨hret, hne⟩ := (Bool.and_eq_true _ _).mp hq
  have he := hall _ _ s _ _ _ _ ret v' s' hr h (by simpa using hret)
  rw [he] at hne
  simp at hne

end gdrdrv
