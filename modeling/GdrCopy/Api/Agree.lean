import GdrCopy.Api.Gdrapi
import GdrCopy.Driver.Mapping
/-!
# Handles of the library and of the driver

The driver numbers mrs with 64-bit handles that are never reused, the library
keeps 32 bits of them. `handles_agree` says when the calls of a run reach the mrs that
the pins created: the requests that carry a handle, exactly for the buffers that were pinned
before `2 ^ 32` host pages; `gdr_unmap`, exactly for the ranges in which the pages of
each VMA begin at the page offset of the buffer.
-/

namespace gdrapi

open gdrdrv

section
variable (P : Platform)

/-- The driver searches for the handle that the pin returned, and finds the mr that the pin created. -/
def Sys.Reaches (fd cur : Nat) (c : Sys) : Prop :=
  ∃ pin, c.pin = some pin ∧ c.searches P fd ≠ [] ∧ (∀ x ∈ c.searches P fd, x = (fd, pin.handle)) ∧
    ∃ info mr, c.kernel.files fd = some info ∧ gdrdrv_check_same_process info cur = true ∧
      gdr_mr_from_handle_unlocked info pin.handle = some mr ∧ mr.ptr = pin.mr

/-- The range of a `gdr_unmap` meets VMAs of `fd` only, and in each the first host page of the range is at page offset
`handle` of the file. -/
def BeginsAt (fd handle : Nat) (cs : List Cut) : Prop :=
  cs ≠ [] ∧ ∀ c ∈ cs, c.vma.vm_file = fd ∧ c.vma.vm_pgoff + c.a = handle

/-- The request is for a buffer pinned after fewer than `2 ^ 32` host pages; a `gdr_unmap` is for a range that
begins where the buffer does. -/
def Sys.Fits (fd : Nat) (c : Sys) : Prop :=
  ∃ pin, c.pin = some pin ∧
    match c.request with
    | .munmap cs => BeginsAt fd pin.handle cs
    | _ => pin.before < 2 ^ 32

/-- The library has the page size of the kernel, and a version it accepts. -/
structure Gdr.Suits (g : Gdr) : Prop where
  page_size : g.page_size = P.PAGE_SIZE
  page_shift : g.page_shift = P.PAGE_SHIFT
  gdrdrv_version : MINIMUM_GDRDRV_VERSION ≤ g.gdrdrv_version

/-- Only the list of the `gdr_t` differs. -/
def Gdr.Like (g g' : Gdr) : Prop := g' = { g with memhs := g'.memhs }

/-! ## The invariant -/

/-- The request is all of the library's making. A `gdr_unmap` is not: its range comes from the caller. -/
def Request.Own : Request → Prop
  | .munmap _ => False
  | _ => True

/-- What holds of any run: the library keeps the low 32 bits of each handle, which
numbers the host pages pinned before. -/
structure Base (s : Session) : Prop where
  files : FilesOk P s.kernel.files s.kernel.fresh
  suits : s.gdr.Suits P
  version : s.gdr.gdrdrv_version = GDRDRV_VERSION
  file : ∃ info, s.kernel.files s.gdr.fd = some info ∧ info.tgid = s.cur ∧
    (info.next_handle_overflow = false → info.next_handle = s.pages)
  fresh : ∀ m ∈ s.gdr.memhs, m.ptr < s.fresh
  memhs : ∀ m ∈ s.gdr.memhs, ∃ pin, s.pins m.ptr = some pin ∧ m.handle = u32 pin.handle ∧ pin.handle = pin.before
  calls : ∀ c ∈ s.calls, ∃ pin, c.pin = some pin ∧ pin.handle = pin.before ∧
    (c.request.Own → c.searches P s.gdr.fd = [(s.gdr.fd, u32 pin.handle)])

/-- What holds while the library's own requests fit: each `gdr_mh_t` has an mr of its own on the list. -/
structure Linked (s : Session) : Prop where
  listed : ∀ m ∈ s.gdr.memhs, ∀ pin info, s.pins m.ptr = some pin → s.kernel.files s.gdr.fd = some info →
    (pin.mr, pin.handle) ∈ info.view.keys
  apart : ∀ m ∈ s.gdr.memhs, ∀ m' ∈ s.gdr.memhs, ∀ pin pin', s.pins m.ptr = some pin → s.pins m'.ptr = some pin' →
    m.ptr ≠ m'.ptr → pin.mr ≠ pin'.mr
  calls : ∀ c ∈ s.calls, c.Fits s.gdr.fd → c.Reaches P s.gdr.fd s.cur

structure Inv (s : Session) : Prop where
  base : Base P s
  linked : (∀ c ∈ s.calls, c.request.Own → c.Fits s.gdr.fd) → Linked P s

/-- The same view of the `gdr_t`'s file. -/
def SameView (fd : Nat) (k k' : Kernel) : Prop :=
  FilesOk P k'.files k'.fresh ∧ ∀ info, k.files fd = some info → ∃ info', k'.files fd = some info' ∧
    info'.view = info.view

/-- Where every VMA has a structure of its own, operations of the driver lead from `k` to `k'`. -/
def Follows (k k' : Kernel) : Prop := k.OwnStructures → ∃ os, Runs.Path (SysStep P) k os k'

/-- The session goes on without pinning or unpinning, with requests for `m` only. -/
structure Quiet (m : Memh) (s s' : Session) : Prop where
  gdr : s.gdr.Like s'.gdr
  memhs : s'.gdr.memhs.map (fun m => (m.ptr, m.handle)) = s.gdr.memhs.map fun m => (m.ptr, m.handle)
  cur : s'.cur = s.cur
  fresh : s'.fresh = s.fresh
  pins : s'.pins = s.pins
  pages : s'.pages = s.pages
  kernel : SameView P s.gdr.fd s.kernel s'.kernel
  follows : Follows P s.kernel s'.kernel
  calls : ∃ l, s'.calls = s.calls ++ l ∧ ∀ c ∈ l, c.pin = s.pins m.ptr ∧ SameView P s.gdr.fd s.kernel c.kernel ∧
    (c.request.Own → c.searches P s.gdr.fd = [(s.gdr.fd, m.handle)])

variable {P}

theorem Gdr.Like.refl (g : Gdr) : g.Like g := rfl

theorem Gdr.Like.trans {g g' g'' : Gdr} (h : g.Like g') (h' : g'.Like g'') : g.Like g'' := by
  unfold Gdr.Like at *
  rw [h', h]

theorem Gdr.Like.fd {g g' : Gdr} (h : g.Like g') : g'.fd = g.fd := by
  rw [h]

theorem Gdr.Like.suits {g g' : Gdr} (h : g.Like g') (hg : g.Suits P) : g'.Suits P := by
  rw [h]
  exact ⟨hg.page_size, hg.page_shift, hg.gdrdrv_version⟩

theorem SameView.refl {fd : Nat} {k : Kernel} (h : FilesOk P k.files k.fresh) : SameView P fd k k :=
  ⟨h, fun info hi => ⟨info, hi, rfl⟩⟩

theorem SameView.trans {fd : Nat} {k k' k'' : Kernel} (h : SameView P fd k k') (h' : SameView P fd k' k'') :
    SameView P fd k k'' := by
  refine ⟨h'.1, fun info hi => ?_⟩
  obtain ⟨i1, h1, hv1⟩ := h.2 info hi
  obtain ⟨i2, h2, hv2⟩ := h'.2 i1 h1
  exact ⟨i2, h2, hv2.trans hv1⟩

theorem Follows.refl (k : Kernel) : Follows P k k := fun _ => ⟨[], .nil⟩

theorem Follows.step {k k' : Kernel} {o : SysOp} (h : SysStep P k o k') : Follows P k k' := fun _ => ⟨[o], .one h⟩

theorem Follows.trans {k k' k'' : Kernel} (hok : FilesOk P k.files k.fresh) (h : Follows P k k')
    (h' : Follows P k' k'') :
    Follows P k k'' := by
  intro hs
  obtain ⟨os, hp⟩ := h hs
  obtain ⟨os', hp'⟩ := h' (sysPath_structures hp hok hs)
  exact ⟨os ++ os', hp.append hp'⟩

theorem Quiet.refl (m : Memh) {s : Session} (h : FilesOk P s.kernel.files s.kernel.fresh) : Quiet P m s s :=
  ⟨rfl, rfl, rfl, rfl, rfl, rfl, .refl h, .refl _, [], by simp, by simp⟩

theorem Quiet.trans {m : Memh} {s s' s'' : Session} (hok : FilesOk P s.kernel.files s.kernel.fresh) (h : Quiet P m s s')
    (h' : Quiet P m s' s'') : Quiet P m s s'' := by
  obtain ⟨l, hl, hc⟩ := h.calls
  obtain ⟨l', hl', hc'⟩ := h'.calls
  have hfd := h.gdr.fd
  refine ⟨h.gdr.trans h'.gdr, h'.memhs.trans h.memhs, h'.cur.trans h.cur, h'.fresh.trans h.fresh, h'.pins.trans h.pins,
    h'.pages.trans h.pages, h.kernel.trans (hfd ▸ h'.kernel), h.follows.trans hok h'.follows, l ++ l',
    by rw [hl', hl, List.append_assoc], fun c hm => ?_⟩
  rcases List.mem_append.1 hm with hm | hm
  · exact hc c hm
  · obtain ⟨h1, h2, h3⟩ := hc' c hm
    exact ⟨h1.trans (by rw [h.pins]), h.kernel.trans (hfd ▸ h2), fun ho => hfd ▸ h3 ho⟩

/-- A key of a view is an mr that the search finds. -/
theorem search_of_key {k : Kernel} {fd : Nat} {info : Info} {ptr handle : Nat} (hok : FilesOk P k.files k.fresh)
    (hf : k.files fd = some info) (hk : (ptr, handle) ∈ info.view.keys) :
    ∃ mr, gdr_mr_from_handle_unlocked info handle = some mr ∧ mr.ptr = ptr := by
  obtain ⟨mr, hm, he⟩ := List.mem_map.1 hk
  obtain ⟨rfl, rfl⟩ := Prod.mk.inj he
  exact ⟨mr, (hok.spaced hf).search hm, rfl⟩

theorem u32_fits {n : Nat} (h : n < 2 ^ 32) : u32 n = n := Nat.mod_eq_of_lt h

theorem u32_lt (n : Nat) : u32 n < 2 ^ 32 := Nat.mod_lt _ (Nat.two_pow_pos 32)

theorem Sys.Fits.own {fd : Nat} {c : Sys} {pin : Pin} (h : c.Fits fd) (ho : c.request.Own)
    (hp : c.pin = some pin) : pin.before < 2 ^ 32 := by
  obtain ⟨pin', hp', h⟩ := h
  obtain rfl := Option.some.inj (hp.symm.trans hp')
  cases hr : c.request with
  | munmap cs =>
    rw [hr] at ho
    exact ho.elim
  | _ =>
    rw [hr] at h
    exact h

/-- The pieces that go are searched for in the file and at the page offset where they begin. -/
theorem goneAll_searches (cs : List Cut) (fresh : Nat) :
    (goneAll P cs fresh).map (fun v => (v.vm_file, gdrdrv_handle_from_off v.vm_pgoff)) = cs.map fun c =>
    (c.vma.vm_file, c.vma.vm_pgoff + c.a) := by
  induction cs generalizing fresh with
  | nil => rfl
  | cons c cs ih => exact congrArg₂ List.cons rfl (ih _)

/-- What a `gdr_unmap` searches for. -/
theorem unmap_searches {c : Sys} {cs : List Cut} (hr : c.request = .munmap cs) (fd handle : Nat) :
    (c.searches P fd ≠ [] ∧ ∀ x ∈ c.searches P fd, x = (fd, handle)) ↔ BeginsAt fd handle cs := by
  have hs : c.searches P fd = cs.map fun c => (c.vma.vm_file, c.vma.vm_pgoff + c.a) := by
    rw [Sys.searches, hr]
    exact goneAll_searches cs _
  rw [hs, BeginsAt, ne_eq, List.map_eq_nil_iff]
  simp only [List.mem_map, forall_exists_index, and_imp, forall_apply_eq_imp_iff₂, Prod.mk.injEq]

/-- A request of `m` reaches the mr of its pin, if it fits and that mr is listed. -/
theorem reaches_of_fits {fd cur : Nat} {c : Sys} {pin : Pin} {info : Info} (hp : c.pin = some pin)
    (hb : pin.handle = pin.before) (hs : c.request.Own → c.searches P fd = [(fd, u32 pin.handle)])
    (hfits : c.Fits fd) (hok : FilesOk P c.kernel.files c.kernel.fresh) (hf : c.kernel.files fd = some info)
    (htg : info.tgid = cur) (hkey : (pin.mr, pin.handle) ∈ info.view.keys) : c.Reaches P fd cur := by
  obtain ⟨mr, hsearch, hptr⟩ := search_of_key hok hf hkey
  have hwhere : c.searches P fd ≠ [] ∧ ∀ x ∈ c.searches P fd, x = (fd, pin.handle) := by
    have hown (ho : c.request.Own) : c.searches P fd ≠ [] ∧ ∀ x ∈ c.searches P fd, x = (fd, pin.handle) := by
      rw [hs ho, u32_fits (hb ▸ hfits.own ho hp)]
      exact ⟨List.cons_ne_nil _ _, fun x hx => List.mem_singleton.1 hx⟩
    cases hr : c.request with
    | munmap cs =>
      obtain ⟨pin', hp', hfit⟩ := hfits
      obtain rfl := Option.some.inj (hp.symm.trans hp')
      rw [hr] at hfit
      exact (unmap_searches hr fd _).2 hfit
    | _ => exact hown (by rw [hr]; trivial)
  exact ⟨pin, hp, hwhere.1, hwhere.2, info, mr, hf, beq_iff_eq.2 htg, hsearch, hptr⟩

/-- The structures are those of before. -/
theorem Quiet.memh {m m' : Memh} {s s' : Session} (hq : Quiet P m s s') (hm : m' ∈ s'.gdr.memhs) :
    ∃ m0 ∈ s.gdr.memhs, m0.ptr = m'.ptr ∧ m0.handle = m'.handle := by
  have hmem : (m'.ptr, m'.handle) ∈ s.gdr.memhs.map fun m => (m.ptr, m.handle) :=
    hq.memhs ▸ List.mem_map.2 ⟨m', hm, rfl⟩
  obtain ⟨m0, hm0, he⟩ := List.mem_map.1 hmem
  obtain ⟨h1, h2⟩ := Prod.mk.inj he
  exact ⟨m0, hm0, h1, h2⟩

theorem Base.quiet {m : Memh} {s s' : Session} (h : Base P s) (hm : m ∈ s.gdr.memhs ∨ s'.calls = s.calls)
    (hq : Quiet P m s s') : Base P s' := by
  obtain ⟨l, hl, hc⟩ := hq.calls
  have hfd := hq.gdr.fd
  obtain ⟨info, hf, htgid, hnext⟩ := h.file
  obtain ⟨info', hf', hv⟩ := hq.kernel.2 info hf
  refine ⟨hq.kernel.1, hq.gdr.suits h.suits, ?_, ?_, fun m' hm' => ?_, fun m' hm' => ?_, fun c hc' => ?_⟩
  · rw [hq.gdr]
    exact h.version
  · rw [hfd, hq.cur, hq.pages]
    refine ⟨info', hf', (congrArg View.tgid hv).trans htgid, fun ho => ?_⟩
    exact (congrArg View.next_handle hv).trans (hnext ((congrArg View.next_handle_overflow hv).symm.trans ho))
  · obtain ⟨m0, hm0, h1, -⟩ := hq.memh hm'
    rw [hq.fresh, ← h1]
    exact h.fresh m0 hm0
  · obtain ⟨m0, hm0, h1, h2⟩ := hq.memh hm'
    rw [hq.pins, ← h1, ← h2]
    exact h.memhs m0 hm0
  · rw [hfd]
    rcases List.mem_append.1 (hl ▸ hc') with hc' | hc'
    · exact h.calls c hc'
    · obtain ⟨h1, -, h3⟩ := hc c hc'
      rcases hm with hmem | he
      · obtain ⟨pin, hp, hh, hb⟩ := h.memhs m hmem
        exact ⟨pin, h1.trans hp, hb, fun ho => hh ▸ h3 ho⟩
      · obtain rfl : l = [] := by rw [hl] at he; simpa using he
        cases hc'

/-- A quiet part of the session keeps the invariant. -/
theorem Inv.quiet {m : Memh} {s s' : Session} (h : Inv P s) (hm : m ∈ s.gdr.memhs ∨ s'.calls = s.calls)
    (hq : Quiet P m s s') : Inv P s' := by
  refine ⟨h.base.quiet hm hq, fun hfits => ?_⟩
  -- `l` are the calls of this part, all of them through `m`.
  obtain ⟨l, hl, hc⟩ := hq.calls
  have hfd := hq.gdr.fd
  obtain ⟨info, hf, htgid, -⟩ := h.base.file
  -- If all requests fit, the earlier ones do, so the pins were linked before.
  rw [hfd] at hfits
  have hlk := h.linked fun c hc => hfits c (hl ▸ List.mem_append_left _ hc)
  refine ⟨fun m' hm' pin info' hp hf' => ?_, fun m1 hm1 m2 hm2 pin pin' hp hp' hne => ?_, fun c hc' hfit => ?_⟩
  · obtain ⟨m0, hm0, h1, -⟩ := hq.memh hm'
    rw [hq.pins, ← h1] at hp
    rw [hfd] at hf'
    obtain ⟨i2, hf2, hv⟩ := hq.kernel.2 info hf
    obtain rfl := Option.some.inj (hf'.symm.trans hf2)
    rw [hv]
    exact hlk.listed m0 hm0 pin info hp hf
  · obtain ⟨n1, hn1, h1, -⟩ := hq.memh hm1
    obtain ⟨n2, hn2, h2, -⟩ := hq.memh hm2
    rw [hq.pins] at hp hp'
    exact hlk.apart n1 hn1 n2 hn2 pin pin' (h1 ▸ hp) (h2 ▸ hp') (by rw [h1, h2]; exact hne)
  · rw [hfd] at hfit
    rw [hfd, hq.cur]
    rcases List.mem_append.1 (hl ▸ hc') with hc0 | hc0
    · exact hlk.calls c hc0 hfit
    · obtain ⟨h1, hk, h3⟩ := hc c hc0
      rcases hm with hmem | he
      · obtain ⟨pin, hp, hh, hb⟩ := h.base.memhs m hmem
        obtain ⟨i2, hf2, hv⟩ := hk.2 info hf
        have hkey : (pin.mr, pin.handle) ∈ i2.view.keys := hv ▸ hlk.listed m hmem pin info hp hf
        exact reaches_of_fits (h1.trans hp) hb (fun ho => hh ▸ h3 ho) hfit hk.1 hf2
          ((congrArg View.tgid hv).trans htgid) hkey
      · obtain rfl : l = [] := by rw [hl] at he; simpa using he
        cases hc0

/-- The invariant is about the files. -/
theorem Inv.same_files {s : Session} {k : Kernel} (h : Inv P s) (hfiles : k.files = s.kernel.files)
    (hfresh : k.fresh = s.kernel.fresh) :
    Inv P { s with kernel := k } := by
  obtain ⟨⟨hok, hsuits, hversion, hfile, hptr, hmemhs, hcalls⟩, hlinked⟩ := h
  refine ⟨⟨?_, hsuits, hversion, ?_, hptr, hmemhs, hcalls⟩, fun hfits => ?_⟩
  · dsimp only
    rw [hfiles, hfresh]
    exact hok
  · dsimp only
    rw [hfiles]
    exact hfile
  · obtain ⟨hlisted, hapart, hreach⟩ := hlinked hfits
    refine ⟨?_, hapart, hreach⟩
    dsimp only
    rw [hfiles]
    exact hlisted

/-! ## Rounding -/

theorem roundedSize_eq {g : Gdr} (hg : g.Suits P) (size : Nat) :
    roundedSize g size = u64 (P.PAGE_SIZE - 1 + size) / P.PAGE_SIZE * P.PAGE_SIZE := by
  have hk : P.PAGE_SHIFT ≤ 16 := P.page_shift_le
  rw [roundedSize, hg.page_size]
  exact Words.and_high_mask (Nat.mod_lt _ (by decide)) (by omega)

/-- Linux has nothing left to round. -/
theorem roundedSize_pages {g : Gdr} (hg : g.Suits P) (size : Nat) :
    (roundedSize g size + P.PAGE_SIZE - 1) / P.PAGE_SIZE * P.PAGE_SIZE = roundedSize g size := by
  have hpos : 0 < P.PAGE_SIZE := Nat.two_pow_pos _
  rw [roundedSize_eq hg]
  generalize u64 (P.PAGE_SIZE - 1 + size) / P.PAGE_SIZE = q
  have hq : (q * P.PAGE_SIZE + (P.PAGE_SIZE - 1)) / P.PAGE_SIZE = q := by
    rw [Nat.mul_comm, Nat.mul_add_div hpos, Nat.div_eq_of_lt (Nat.sub_lt hpos one_pos), Nat.add_zero]
  rw [Nat.add_sub_assoc hpos, hq]

/-! ## munmap -/

/-- How a `munmap` ends. -/
inductive MunmapEnds (P : Platform) (k : Kernel) (fd : Nat) (env : MunmapEnv) (va len : Nat) :
    Int × List Cut × Kernel → Prop
  | refused {e : Int} : e ≠ 0 → MunmapEnds P k fd env va len (e, [], k)
  | whole {vma : Vma} : k.vmas.find? (fun v => v.vm_file = fd ∧ v.vm_start = va ∧ v.vm_end = va + len) = some vma →
    MunmapEnds P k fd env va len (0, [⟨vma, 0, vma.pages P, true⟩], sysMunmap k vma)
  | range : k.vmas.find? (fun v => v.vm_file = fd ∧ v.vm_start = va ∧ v.vm_end = va + len) = none →
    MunmapEnds P k fd env va len (0, cutsOf P k fd env va len, sysMunmapRange P k (cutsOf P k fd env va len))

theorem munmap_ends (k : Kernel) (fd : Nat) (env : MunmapEnv) (va len : Nat) :
    MunmapEnds P k fd env va len (munmap P k fd env va len) := by
  unfold munmap
  split
  · exact .refused (by decide)
  split
  · rename_i herrno
    exact .refused herrno
  split
  · rename_i vma hv
    exact .whole hv
  · rename_i hv
    exact .range hv

/-- A range that is one region goes, unless Linux refuses it. -/
theorem munmapOn_region {s : Session} {m : Memh} {request : List Cut → Request} {env : MunmapEnv}
    {va len : Nat} {v : Vma} (hv : s.kernel.vmas.find? (fun v => v.vm_file = s.gdr.fd ∧ v.vm_start = va ∧
      v.vm_end = va + len) = some v)
    (haligned : va % P.PAGE_SIZE = 0) (hpos : 0 < len) (hlt : va + len < 2 ^ 64) (herrno : env.errno = 0) :
    munmapOn P s m request env va len =
      (0, { s.log m (request [⟨v, 0, v.pages P, true⟩]) with kernel := sysMunmap s.kernel v }) := by
  have hvalid : ¬(va % P.PAGE_SIZE ≠ 0 ∨ len = 0 ∨ 2 ^ 64 ≤ va + len) := by omega
  rw [munmapOn, munmap, if_neg hvalid, if_neg (not_not_intro herrno), hv]
  rfl

/-- The cuts are of VMAs that are there, and no VMA is cut twice. -/
theorem cutsOf_spec {k : Kernel} (hk : k.OwnStructures) (fd : Nat) (env : MunmapEnv) (va len : Nat) :
    (∀ c ∈ cutsOf P k fd env va len, c.vma ∈ k.vmas ∧ c.Fits P) ∧
    ((cutsOf P k fd env va len).map (·.vma.id)).Nodup := by
  constructor
  · intro c hc
    obtain ⟨hc, hab⟩ := List.mem_filter.1 hc
    obtain ⟨v, hv, rfl⟩ := List.mem_map.1 hc
    refine ⟨(List.mem_filter.1 hv).1, of_decide_eq_true hab, Nat.div_le_div_right ?_⟩
    exact Nat.sub_le_sub_right (Nat.min_le_right _ _) _
  · have hsub : ((cutsOf P k fd env va len).map (·.vma.id)).Sublist (k.vmas.map (·.id)) := by
      have hmap : ∀ l : List Vma, (l.map (cutOf P env va len)).map (·.vma.id) = l.map (·.id) := fun l => by
        rw [List.map_map]
        rfl
      refine (List.filter_sublist.map _).trans ?_
      rw [hmap]
      exact List.filter_sublist.map _
    exact hk.nodup.sublist hsub

theorem munmap_view {k : Kernel} (hok : FilesOk P k.files k.fresh) (fd : Nat) (env : MunmapEnv) (va len : Nat) :
    SameView P fd k (munmap P k fd env va len).2.2 := by
  have hends := munmap_ends (P := P) k fd env va len
  generalize munmap P k fd env va len = r at hends ⊢
  cases hends with
  | refused => exact .refl hok
  | whole hv =>
    have hstep : SysStep P k (.op (.munmap _)) (sysMunmap k _) := .op ⟨_, .munmap (List.mem_of_find?_eq_some hv)⟩
    exact ⟨hstep.filesOk hok, fun info hf => hstep.view hok (fun o ho => by cases ho; trivial) hf⟩
  | range => exact ⟨sysMunmapRange_filesOk hok _, fun info hf => sysMunmapRange_view hok _ hf⟩

theorem munmap_follows (k : Kernel) (fd : Nat) (env : MunmapEnv) (va len : Nat) :
    Follows P k (munmap P k fd env va len).2.2 := by
  intro hk
  have hends := munmap_ends (P := P) k fd env va len
  generalize munmap P k fd env va len = r at hends ⊢
  cases hends with
  | refused => exact ⟨[], .nil⟩
  | whole hv => exact ⟨[_], .one (.op ⟨_, .munmap (List.mem_of_find?_eq_some hv)⟩)⟩
  | range =>
    obtain ⟨hcs, hnd⟩ := cutsOf_spec (P := P) hk fd env va len
    exact ⟨[_], .one (.munmapRange hcs hnd)⟩

/-- A `munmap` for `m` is quiet, where what it searches for is the handle of `m` or comes from the caller. -/
theorem munmapOn_quiet {m : Memh} {s : Session} {request : List Cut → Request} {env : MunmapEnv} {va len : Nat}
    (hok : FilesOk P s.kernel.files s.kernel.fresh)
    (hown : (request (munmap P s.kernel s.gdr.fd env va len).2.1).Own →
      Sys.searches P s.gdr.fd ⟨s.kernel, request (munmap P s.kernel s.gdr.fd env va len).2.1, s.pins m.ptr⟩ =
      [(s.gdr.fd, m.handle)]) :
    Quiet P m s (munmapOn P s m request env va len).2 := by
  unfold munmapOn
  dsimp only
  split
  · exact .refl m hok
  · exact ⟨rfl, rfl, rfl, rfl, rfl, rfl, munmap_view hok .., munmap_follows _ _ _ _ _, [_], rfl,
      fun c hc => by rw [List.mem_singleton.1 hc]; exact ⟨rfl, .refl hok, hown⟩⟩

/-! ## Calls that do not pin or unpin -/

theorem step_same {k k' : Kernel} {o : SysOp} {fd : Nat} (hok : FilesOk P k.files k.fresh)
    (h : SysStep P k o k') (hl : o.Leaves fd) :
    SameView P fd k k' := ⟨h.filesOk hok, fun _ hf => h.view hok hl hf⟩

theorem leaves_op {o : Op} {fd : Nat} (h : o.Leaves fd) : (SysOp.op o).Leaves fd := fun o' ho => by
  rw [← Option.some.inj ho]
  exact h

/-- A kernel step that does not pin or unpin on the file, with the request that caused it. -/
theorem quiet_sys {m : Memh} {s : Session} {k : Kernel} {o : Op} {r : Request}
    (hok : FilesOk P s.kernel.files s.kernel.fresh) (h : step P s.kernel o k) (hl : o.Leaves s.gdr.fd)
    (hr : Sys.searches P s.gdr.fd ⟨s.kernel, r, s.pins m.ptr⟩ = [(s.gdr.fd, m.handle)]) :
    Quiet P m s { s.log m r with kernel := k } :=
  ⟨rfl, rfl, rfl, rfl, rfl, rfl, step_same hok (.op h) (leaves_op hl), .step (.op h), [_], rfl,
    fun c hc => by rw [List.mem_singleton.1 hc]; exact ⟨rfl, .refl hok, fun _ => hr⟩⟩

theorem quiet_step (m : Memh) {s : Session} {k : Kernel} {o : SysOp} (hok : FilesOk P s.kernel.files s.kernel.fresh)
    (h : SysStep P s.kernel o k) (hl : o.Leaves s.gdr.fd) : Quiet P m s { s with kernel := k } :=
  ⟨rfl, rfl, rfl, rfl, rfl, rfl, step_same hok h hl, .step h, [], by simp, by simp⟩

theorem ioctlOn_inv {s s' : Session} {mh : Memh} {cmd : Nat → Cmd} {r : Reply} (h : ioctlOn P s mh cmd = .ok (r, s')) :
    ∃ k, gdrdrv_ioctl P s.kernel s.gdr.fd s.cur (cmd mh.handle) = .ok (r, k) ∧
      s' = { s.log mh (.ioctl (cmd mh.handle)) with kernel := k } := by
  unfold ioctlOn ioctl at h
  generalize hk : gdrdrv_ioctl P _ _ _ (cmd mh.handle) = x at h
  cases x with
  | error e => cases h
  | ok x =>
    obtain ⟨r1, k⟩ := x
    obtain ⟨rfl, rfl⟩ := Prod.mk.inj (Except.ok.inj h)
    exact ⟨k, hk, rfl⟩

theorem ioctlOn_quiet {m : Memh} {s s' : Session} {cmd : Nat → Cmd} {r : Reply}
    (hok : FilesOk P s.kernel.files s.kernel.fresh) (hr : handleField (cmd m.handle) = some m.handle)
    (hpin : (cmd m.handle).pinned = none) (hun : (cmd m.handle).unpins = false)
    (h : ioctlOn P s m cmd = .ok (r, s')) : Quiet P m s s' := by
  obtain ⟨k, hk, rfl⟩ := ioctlOn_inv h
  refine quiet_sys hok ⟨_, .ioctl hk⟩ (.inr ⟨hpin, hun⟩) ?_
  simp only [Sys.searches, hr]
  rfl

/-- The page offset that the driver sees is the library's handle. -/
theorem magicOff_handle {g : Gdr} {m : Memh} (hg : g.Suits P) (hm : m.handle < 2 ^ 32) :
    (magicOff g m).toNat >>> P.PAGE_SHIFT = m.handle := by
  have hk : P.PAGE_SHIFT ≤ 16 := P.page_shift_le
  have hlt : m.handle * 2 ^ P.PAGE_SHIFT < 2 ^ 64 := by
    calc m.handle * 2 ^ P.PAGE_SHIFT < 2 ^ 32 * 2 ^ P.PAGE_SHIFT := Nat.mul_lt_mul_of_pos_right hm (Nat.two_pow_pos _)
      _ ≤ 2 ^ 32 * 2 ^ 16 := Nat.mul_le_mul_left _ (Nat.pow_le_pow_right two_pos hk)
      _ ≤ 2 ^ 64 := by decide
  rw [magicOff, hg.page_shift, BitVec.toNat_ofNat, Nat.shiftLeft_eq, Nat.mod_eq_of_lt hlt, Nat.shiftRight_eq_div_pow,
    Nat.mul_div_cancel _ (Nat.two_pow_pos _)]

/-- An `mmap` that succeeds has put the region of `m` first. -/
theorem mmapOn_quiet {m : Memh} {s s' : Session} {env : RemapEnv} {start size : Nat} {r : Reply}
    (hok : FilesOk P s.kernel.files s.kernel.fresh) (hg : s.gdr.Suits P) (hm : m.handle < 2 ^ 32)
    (h : mmapOn P s m env start size = .ok (r, s')) :
    Quiet P m s s' ∧ s'.gdr = s.gdr ∧ (r.ret = 0 → ∃ v rest, s'.kernel.vmas = v :: rest ∧ v.vm_file = s.gdr.fd ∧
      v.vm_pgoff = m.handle ∧ v.vm_start = start * P.PAGE_SIZE ∧
      v.vm_end = start * P.PAGE_SIZE + roundedSize s.gdr size) := by
  unfold mmapOn at h
  generalize hk : sysMmap P env s.kernel s.gdr.fd s.cur start (roundedSize s.gdr size) (magicOff s.gdr m) = x at h
  cases x with
  | error e => cases h
  | ok x =>
    obtain ⟨r1, k⟩ := x
    cases h
    refine ⟨quiet_sys hok ⟨_, .mmap hk⟩ trivial ?_, rfl, fun h0 => ?_⟩
    · simp only [Sys.searches, magicOff_handle hg hm]
      rfl
    · cases sysMmap_ends hk with
      | same hne => exact absurd h0 hne
      | refused hne => exact absurd h0 hne
      | @mapped info mr pt v _ hmap hs =>
        refine ⟨v, s.kernel.vmas, by rw [hs], hmap.new.vm_file,
          hmap.vm_pgoff.trans (magicOff_handle hg hm), hmap.vm_start, ?_⟩
        rw [hmap.vm_end, Nat.add_mul, roundedSize_pages hg]

theorem setType_quiet (m m0 : Memh) {s : Session} (t : Nat) (hok : FilesOk P s.kernel.files s.kernel.fresh) :
    Quiet P m s (s.setType m0 t) := by
  refine ⟨rfl, ?_, rfl, rfl, rfl, rfl, .refl hok, .refl _, [], by simp [Session.setType], by simp⟩
  simp only [Session.setType, List.map_map]
  refine List.map_congr_left fun x _ => ?_
  simp only [Function.comp_apply]
  split <;> rfl

/-- An ioctl that only reads leaves the driver as it is. -/
theorem ioctl_reads {k k' : Kernel} {fd cur : Nat} {cmd : Cmd} {r : Reply}
    (hreads : ∀ info, ∃ r, ioctlSwitch P k fd info cmd = .ok (r, k))
    (h : gdrdrv_ioctl P k fd cur cmd = .ok (r, k')) : k' = k := by
  unfold gdrdrv_ioctl at h
  split at h
  · exact (Prod.mk.inj (Except.ok.inj h)).2.symm
  split at h
  · exact (Prod.mk.inj (Except.ok.inj h)).2.symm
  split at h
  · exact (Prod.mk.inj (Except.ok.inj h)).2.symm
  · rename_i info _ _
    obtain ⟨r', hr⟩ := hreads info
    exact (Prod.mk.inj (Except.ok.inj (hr.symm.trans h))).2.symm

theorem get_info_quiet {m : Memh} {s s' : Session} {ret : Int} {info : Option InfoV2}
    (hok : FilesOk P s.kernel.files s.kernel.fresh) (h : gdr_get_info_v2 P s m = .ok (ret, info, s')) :
    Quiet P m s s' ∧ s'.kernel = s.kernel ∧ s'.gdr = s.gdr := by
  unfold gdr_get_info_v2 at h
  split at h
  · generalize hi : ioctlOn P s m _ = x at h
    cases x with
    | error e => cases h
    | ok x =>
      obtain ⟨r, s1⟩ := x
      have hq : Quiet P m s s1 := ioctlOn_quiet hok rfl rfl rfl hi
      obtain ⟨k, hk, rfl⟩ := ioctlOn_inv hi
      obtain rfl := ioctl_reads (fun info => ⟨_, rfl⟩) hk
      simp only [bind, Except.bind] at h
      split at h <;> cases h <;> exact ⟨hq, rfl, rfl⟩
  · generalize hi : ioctlOn P s m _ = x at h
    cases x with
    | error e => cases h
    | ok x =>
      obtain ⟨r, s1⟩ := x
      have hq : Quiet P m s s1 := ioctlOn_quiet hok rfl rfl rfl hi
      obtain ⟨k, hk, rfl⟩ := ioctlOn_inv hi
      obtain rfl := ioctl_reads (fun info => ⟨_, rfl⟩) hk
      simp only [bind, Except.bind] at h
      split at h <;> cases h <;> exact ⟨hq, rfl, rfl⟩

theorem flag_quiet {m : Memh} {s s' : Session} {ret : Int} {flag : Option Nat}
    (hok : FilesOk P s.kernel.files s.kernel.fresh) (h : gdr_get_callback_flag P s m = .ok (ret, flag, s')) :
    Quiet P m s s' := by
  unfold gdr_get_callback_flag at h
  generalize hi : ioctlOn P s m _ = x at h
  cases x with
  | error e => cases h
  | ok x =>
    obtain ⟨r, s1⟩ := x
    have hq : Quiet P m s s1 := ioctlOn_quiet hok rfl rfl rfl hi
    simp only [bind, Except.bind] at h
    split at h <;> cases h <;> exact hq

theorem req_quiet {m : Memh} {s s' : Session} {flags : Nat} {ret : Int} (hok : FilesOk P s.kernel.files s.kernel.fresh)
    (h : reqMappingType P s m flags = .ok (ret, s')) : Quiet P m s s' := by
  unfold reqMappingType at h
  split at h
  · generalize hi : ioctlOn P s m _ = x at h
    cases x with
    | error e => cases h
    | ok x =>
      obtain ⟨r, s1⟩ := x
      cases h
      exact ioctlOn_quiet hok rfl rfl rfl hi
  · cases h
    exact .refl m hok

theorem checkMapped_quiet {m : Memh} {s s' : Session} {flags : Nat} {ret : Int}
    (hok : FilesOk P s.kernel.files s.kernel.fresh) (h : checkMapped P s m flags = .ok (ret, s')) :
    Quiet P m s s' ∧ s'.kernel = s.kernel := by
  unfold checkMapped at h
  generalize hi : gdr_get_info_v2 P s m = x at h
  cases x with
  | error e => cases h
  | ok x =>
    obtain ⟨status, info, s1⟩ := x
    obtain ⟨hq, hk, -⟩ := get_info_quiet hok hi
    simp only [bind, Except.bind] at h
    split at h
    · cases h
      exact ⟨hq, hk⟩
    · split at h
      · cases h
        exact ⟨hq, hk⟩
      split at h
      · cases h
        exact ⟨hq, hk⟩
      · cases h
        exact ⟨hq.trans hok (setType_quiet m m _ hq.kernel.1), hk⟩

/-- The region of the last `mmap` is the one that the error exit finds. -/
theorem undo_quiet {m : Memh} {s : Session} {v : Vma} {rest : List Vma} {env : MunmapEnv} {len : Nat}
    (hok : FilesOk P s.kernel.files s.kernel.fresh) (hvmas : s.kernel.vmas = v :: rest) (hfile : v.vm_file = s.gdr.fd)
    (hpgoff : v.vm_pgoff = m.handle) (hend : v.vm_end = v.vm_start + len) :
    Quiet P m s (munmapOn P s m .undo env v.vm_start len).2 := by
  by_cases hret : (munmap P s.kernel s.gdr.fd env v.vm_start len).1 ≠ 0
  · rw [munmapOn, if_pos hret]
    exact .refl m hok
  refine munmapOn_quiet hok fun _ => ?_
  have hfind : s.kernel.vmas.find? (fun w => w.vm_file = s.gdr.fd ∧ w.vm_start = v.vm_start ∧
      w.vm_end = v.vm_start + len) = some v := by
    rw [hvmas, List.find?_cons_of_pos]
    exact decide_eq_true ⟨hfile, rfl, hend⟩
  have hends := munmap_ends (P := P) s.kernel s.gdr.fd env v.vm_start len
  generalize munmap P s.kernel s.gdr.fd env v.vm_start len = r at hends hret ⊢
  cases hends with
  | refused hne => exact absurd hne hret
  | whole hv =>
    obtain rfl := Option.some.inj (hfind.symm.trans hv)
    rw [Sys.searches]
    exact congrArg (fun x => [x]) (Prod.ext hfile ((Nat.add_zero _).trans hpgoff))
  | range hnone =>
    rw [hfind] at hnone
    cases hnone

theorem map_quiet {m : Memh} {s s' : Session} {env : RemapEnv} {start size flags : Nat} {ret : Int} {va : Option Nat}
    (hok : FilesOk P s.kernel.files s.kernel.fresh) (hg : s.gdr.Suits P) (hm : m.handle < 2 ^ 32)
    (h : gdr_map_v2 P s m env start size flags = some (ret, va, s')) : Quiet P m s s' := by
  unfold gdr_map_v2 at h
  split at h
  · cases h
    exact .refl m hok
  split at h
  · cases h
    exact .refl m hok
  obtain ⟨⟨status, s1⟩, h1, h⟩ := Option.bind_eq_some_iff.1 h
  have q1 : Quiet P m s s1 := req_quiet hok (toOption_ok h1)
  dsimp only at h
  split at h
  · cases h
    exact q1
  obtain ⟨⟨r, s2⟩, h2, h⟩ := Option.bind_eq_some_iff.1 h
  obtain ⟨qm, hgdr, hadds⟩ := mmapOn_quiet q1.kernel.1 (q1.gdr.suits hg) hm (toOption_ok h2)
  have q2 : Quiet P m s s2 := q1.trans hok qm
  dsimp only at h
  split at h
  · cases h
    exact q2
  rename_i hret
  obtain ⟨⟨status3, s3⟩, h3, h⟩ := Option.bind_eq_some_iff.1 h
  obtain ⟨qc, hk3⟩ := checkMapped_quiet q2.kernel.1 (toOption_ok h3)
  have q3 : Quiet P m s s3 := q2.trans hok qc
  dsimp only at h
  split at h
  · cases h
    obtain ⟨v, rest, hvmas, hfile, hpgoff, hstart, hend⟩ := hadds (not_not.1 hret)
    have hround : roundedSize s3.gdr size = roundedSize s1.gdr size := by
      rw [qc.gdr, hgdr]
      rfl
    refine q3.trans hok ?_
    rw [hround, ← hstart]
    exact undo_quiet q3.kernel.1 (hk3 ▸ hvmas) (by rw [hfile, qc.gdr.fd, hgdr]) hpgoff (by rw [hend, hstart])
  · cases h
    exact q3

theorem unmap_quiet {m : Memh} {s : Session} {env : MunmapEnv} {va size : Nat}
    (hok : FilesOk P s.kernel.files s.kernel.fresh) :
    Quiet P m s (gdr_unmap P s m env va size).2 := by
  unfold gdr_unmap
  split
  · exact .refl m hok
  have q1 : Quiet P m s (munmapOn P s m .munmap env va (roundedSize s.gdr size)).2 :=
    munmapOn_quiet hok fun ho => ho.elim
  dsimp only
  split
  · exact q1
  · exact q1.trans hok (setType_quiet m m _ q1.kernel.1)

/-! ## Pinning -/

/-- A pin ioctl links one mr and returns its handle, or fails and links none. -/
def PinResult (P : Platform) (s : Session) (addr size : BitVec 64) (r : Reply × Session) : Prop :=
  ∃ k o, r.2 = { s with kernel := k } ∧ step P s.kernel o k ∧
    (SameView P s.gdr.fd s.kernel k ∧ r.1.ret ≠ 0 ∨ ∃ mr, r.1 = ⟨0, .handle mr.handle⟩ ∧
      Does P s.kernel (.linked s.gdr.fd mr) k ∧ mr.mapped_size = mappedSize addr.toNat size.toNat)

theorem quiet_view {k k' : Kernel} {fd : Nat} (hok : FilesOk P k.files k.fresh) (h1 : k'.files = k.files)
    (h3 : k.fresh ≤ k'.fresh) :
    SameView P fd k k' :=
  ⟨h1 ▸ hok.mono h3, fun info hf => ⟨info, by rw [h1]; exact hf, rfl⟩⟩

/-- The library's ioctls pass the process check. -/
theorem Base.ioctl {s : Session} (hb : Base P s) : ∃ info, s.kernel.files s.gdr.fd = some info ∧
    ∀ cmd, cmd ≠ .malformed → gdrdrv_ioctl P s.kernel s.gdr.fd s.cur cmd =
    ioctlSwitch P s.kernel s.gdr.fd info cmd := by
  obtain ⟨info, hf, htg, -⟩ := hb.file
  refine ⟨info, hf, fun cmd hc => ?_⟩
  rw [← htg]
  exact ioctl_own hf hc

theorem map_ok {α β : Type} {x : Except Fault α} {f : α → β} {b : β} (h : x.map f = .ok b) :
    ∃ a, x = .ok a ∧ b = f a := by
  cases x with
  | error e => cases h
  | ok a => exact ⟨a, rfl, (Except.ok.inj h).symm⟩

theorem pin_result {s : Session} {cmd : Cmd} {q : PinRequest} {addr size : BitVec 64} {r : Reply × Session}
    (hb : Base P s) (hq : cmd.request = some q) (hctu : cmd.ctu = true) (haddr : q.addr = addr.toNat)
    (hsize : q.size = size.toNat) (h : ioctl P s cmd = .ok r) : PinResult P s addr size r := by
  obtain ⟨⟨reply, k⟩, hi, rfl⟩ := map_ok h
  refine ⟨k, _, rfl, ⟨_, .ioctl hi⟩, ?_⟩
  rcases pin_ioctl_cases hq hi with ⟨hne, rfl⟩ | ⟨info, unpin, hc⟩
  · exact .inl ⟨.refl hb.files, hne⟩
  obtain ⟨ret, handle, k1, hp, hreply⟩ := hc.ends
  rw [hctu] at hreply
  rcases pin_cases hc.file hp with ⟨hret, h1, -, h3⟩ | ⟨rfl, mr, pt, hd, rfl, -, hmapped, -⟩
  · rcases pinReply_cases hreply with ⟨-, hne, rfl⟩ | ⟨h0, -⟩ | ⟨h0, -⟩
    · exact .inl ⟨quiet_view hb.files h1 h3, hne⟩
    · exact absurd h0 hret
    · exact absurd h0 hret
  · -- the handle is delivered, as the answer can be copied
    obtain ⟨rfl, rfl⟩ := Prod.mk.inj (Except.ok.inj hreply)
    exact .inr ⟨mr, rfl, hd, by rw [hmapped, haddr, hsize]⟩

theorem pinned_kernel (s : Session) (addr size : BitVec 64) (r : Reply × Session) :
    (gdrapi.pinned P s addr size r).2.2.kernel = r.2.kernel := by
  unfold gdrapi.pinned
  split <;> rfl

/-- A pin keeps the invariant: its handle is the number of host pages pinned before. -/
theorem Inv.pinned {s : Session} {addr size : BitVec 64} {r : Reply × Session} (h : Inv P s)
    (hr : PinResult P s addr size r) : Inv P (pinned P s addr size r).2.2 := by
  obtain ⟨reply, s1⟩ := r
  obtain ⟨k, o, rfl, hstep, ⟨hsame, hret⟩ | ⟨mr, rfl, hd, hsize⟩⟩ := hr
  -- No handle came back, so there is no new structure.
  · have he : (gdrapi.pinned P s addr size (reply, { s with kernel := k })).2.2 = { s with kernel := k } := by
      unfold gdrapi.pinned
      split
      · rename_i heq
        rw [heq] at hret
        exact absurd rfl hret
      · rfl
    rw [he]
    exact h.quiet (m := ⟨0, 0, 0⟩) (.inr rfl) ⟨rfl, rfl, rfl, rfl, rfl, rfl, hsame, .step (.op hstep),
      [], by simp, by simp⟩
  have hok' := hd.filesOk h.base.files
  cases hd with
  | linked hf hg hnew hfiles hvmas hfresh =>
    rename_i info info' pt
    obtain ⟨info0, hf0, htg, hnext⟩ := h.base.file
    obtain rfl := Option.some.inj (hf.symm.trans hf0)
    obtain ⟨ho, hh, hl, htg', hov, hnext'⟩ :=
      generate_spec hnew.mapped_size (fun ho => ((h.base.files.spaced hf).next ho).1) hg
    have hpages : mr.handle = s.pages := hh.trans (hnext ho)
    have hk : k.files s.gdr.fd = some (info'.list_add mr) := by rw [hfiles, Function.update_self]
    have hhead : ((k.files s.gdr.fd).bind fun info => info.mr_list.head?.map (·.ptr)).getD 0 = mr.ptr := by
      rw [hk]; rfl
    have hkeys : (info'.list_add mr).view.keys = (mr.ptr, mr.handle) :: info.view.keys := by
      simp only [Info.view, Info.list_add, hl, List.map_cons]
    have hself : Function.update s.pins s.fresh (some ⟨mr.handle, mr.ptr, s.pages⟩) s.fresh =
        some ⟨mr.handle, mr.ptr, s.pages⟩ := Function.update_self _ _ _
    have hold : ∀ m ∈ s.gdr.memhs, Function.update s.pins s.fresh (some ⟨mr.handle, mr.ptr, s.pages⟩) m.ptr =
        s.pins m.ptr :=
      fun m hm => Function.update_of_ne (Nat.ne_of_lt (h.base.fresh m hm)) _ _
    -- The new mr is numbered after the mrs of the earlier pins.
    have hptr : ∀ m ∈ s.gdr.memhs, ∀ pin, s.pins m.ptr = some pin → (pin.mr, pin.handle) ∈ info.view.keys →
        pin.mr ≠ mr.ptr := by
      intro m _ pin _ hkey he
      obtain ⟨mr0, hm0, he0⟩ := List.mem_map.1 hkey
      have h1 := (h.base.files.mr hf hm0).ptr
      have h2 : mr0.ptr = pin.mr := (Prod.mk.inj he0).1
      have h3 := hnew.ptr
      omega
    simp only [gdrapi.pinned, hhead]
    refine ⟨⟨hok', Gdr.Like.suits (g := s.gdr) rfl h.base.suits, h.base.version, ⟨_, hk, htg'.trans htg, fun ho' => ?_⟩,
      fun m hm => ?_, fun m hm => ?_, h.base.calls⟩, fun hfits => ?_⟩
    · have h1 : (info'.list_add mr).next_handle = info.next_handle + span P mr.mapped_size := hnext' ho'
      rw [h1, hnext ho, hsize]
    · rcases List.mem_cons.1 hm with rfl | hm
      · exact Nat.lt_succ_self _
      · exact Nat.lt_succ_of_lt (h.base.fresh m hm)
    · rcases List.mem_cons.1 hm with rfl | hm
      · exact ⟨_, Function.update_self _ _ _, rfl, hpages⟩
      · simp only [hold m hm]
        exact h.base.memhs m hm
    · have hlk := h.linked hfits
      refine ⟨fun m hm pin info1 hp hf1 => ?_, fun m1 hm1 m2 hm2 pin pin' hp hp' hne => ?_, hlk.calls⟩
      · obtain rfl := Option.some.inj (hk.symm.trans hf1)
        rw [hkeys]
        rcases List.mem_cons.1 hm with rfl | hm
        · obtain rfl := Option.some.inj (hself.symm.trans hp)
          exact List.mem_cons_self
        · simp only [hold m hm] at hp
          exact List.mem_cons_of_mem _ (hlk.listed m hm pin info hp hf)
      · rcases List.mem_cons.1 hm1 with rfl | hm1 <;> rcases List.mem_cons.1 hm2 with rfl | hm2
        · exact absurd rfl hne
        · obtain rfl := Option.some.inj (hself.symm.trans hp)
          simp only [hold m2 hm2] at hp'
          exact (hptr m2 hm2 pin' hp' (hlk.listed m2 hm2 pin' info hp' hf)).symm
        · obtain rfl := Option.some.inj (hself.symm.trans hp')
          simp only [hold m1 hm1] at hp
          exact hptr m1 hm1 pin hp (hlk.listed m1 hm1 pin info hp hf)
        · simp only [hold m1 hm1] at hp
          simp only [hold m2 hm2] at hp'
          exact hlk.apart m1 hm1 m2 hm2 pin pin' hp hp' hne

/-! ## Unpinning -/

/-- The list either keeps its keys or loses that of the mr that the search finds. -/
theorem unpin_keys {env : PutEnv} {k k' : Kernel} {fd handle : Nat} {info : Info} {ret : Int}
    (hok : FilesOk P k.files k.fresh) (hf : k.files fd = some info)
    (hu : __gdrdrv_unpin_buffer P env k fd info handle = .ok (ret, k')) :
    FilesOk P k'.files k'.fresh ∧ ∃ info', k'.files fd = some info' ∧ info'.tgid = info.tgid ∧
    info'.next_handle = info.next_handle ∧
      info'.next_handle_overflow = info.next_handle_overflow ∧ ∀ key ∈ info.view.keys, key ∈ info'.view.keys ∨
        ∃ mr, gdr_mr_from_handle_unlocked info handle = some mr ∧ mr.ptr = key.1 := by
  rcases unpin_cases hf hu with ⟨-, -, rfl⟩ | ⟨-, mr, hs, hd⟩
  · exact ⟨hok, info, hf, rfl, rfl, rfl, fun key hkey => .inl hkey⟩
  · refine ⟨hd.filesOk hok, ?_⟩
    cases hd with
    | unlinked hf1 _ _ hfiles _ =>
      obtain rfl := Option.some.inj (hf.symm.trans hf1)
      refine ⟨info.list_del mr, by rw [hfiles, Function.update_self], rfl, rfl, rfl, fun key hkey => ?_⟩
      obtain ⟨mr0, hm0, rfl⟩ := List.mem_map.1 hkey
      by_cases he : mr0.ptr = mr.ptr
      · exact .inr ⟨mr, hs, he.symm⟩
      · exact .inl (List.mem_map.2 ⟨mr0, mem_list_del.2 ⟨hm0, he⟩, rfl⟩)

/-- The driver's part of an unpin. -/
theorem unpin_step {s s' : Session} {m : Memh} {env : PutEnv} {ret : Int}
    (h : gdr_unpin_buffer P s m env = .ok (ret, s')) :
    step P s.kernel (.ioctl s.gdr.fd s.cur (.unpin_buffer true env m.handle)) s'.kernel := by
  unfold gdr_unpin_buffer at h
  generalize hi : ioctlOn P s m _ = x at h
  cases x with
  | error e => cases h
  | ok x =>
    obtain ⟨r, s1⟩ := x
    obtain ⟨k, hk, rfl⟩ := ioctlOn_inv hi
    cases h
    exact ⟨_, .ioctl hk⟩

theorem Inv.unpinned {s s' : Session} {m : Memh} {env : PutEnv} {ret : Int} (h : Inv P s) (hm : m ∈ s.gdr.memhs)
    (hu : gdr_unpin_buffer P s m env = .ok (ret, s')) : Inv P s' := by
  obtain ⟨pin, hpin, hhandle, hbefore⟩ := h.base.memhs m hm
  obtain ⟨info, hf, hown⟩ := h.base.ioctl
  obtain ⟨info0, hf0, htg, hnext⟩ := h.base.file
  obtain rfl := Option.some.inj (hf.symm.trans hf0)
  unfold gdr_unpin_buffer ioctlOn gdrapi.ioctl at hu
  have hown' : gdrdrv_ioctl P (s.log m (.ioctl (.unpin_buffer true env m.handle))).kernel
      (s.log m (.ioctl (.unpin_buffer true env m.handle))).gdr.fd
        (s.log m (.ioctl (.unpin_buffer true env m.handle))).cur
      (.unpin_buffer true env m.handle) = ioctlSwitch P s.kernel s.gdr.fd info (.unpin_buffer true env m.handle) :=
    hown _ (by simp)
  rw [hown'] at hu
  simp only [ioctlSwitch, gdrdrv_unpin_buffer, Bool.not_true, Bool.false_eq_true, if_false] at hu
  generalize hx : __gdrdrv_unpin_buffer P env s.kernel s.gdr.fd info m.handle = x at hu
  cases x with
  | error e => cases hu
  | ok x =>
    obtain ⟨r, k⟩ := x
    obtain ⟨-, rfl⟩ := Prod.mk.inj (Except.ok.inj hu)
    have hmem : ∀ m' ∈ s.gdr.memhs.filter (fun x => x.ptr ≠ m.ptr), m' ∈ s.gdr.memhs ∧ m'.ptr ≠ m.ptr := by
      intro m' hm'
      simpa using List.mem_filter.1 hm'
    have hcalls : ∀ c ∈ s.calls ++ [⟨s.kernel, .ioctl (.unpin_buffer true env m.handle), s.pins m.ptr⟩],
        c ∈ s.calls ∨ c = ⟨s.kernel, .ioctl (.unpin_buffer true env m.handle), s.pins m.ptr⟩ :=
      fun c hc => (List.mem_append.1 hc).imp id List.mem_singleton.1
    have hsearches : Sys.searches P s.gdr.fd ⟨s.kernel, .ioctl (.unpin_buffer true env m.handle), s.pins m.ptr⟩ =
        [(s.gdr.fd, u32 pin.handle)] := by
      rw [← hhandle]
      rfl
    obtain ⟨hok', info', hf', htg', hn', ho', hkeys⟩ := unpin_keys h.base.files hf hx
    refine ⟨⟨hok', Gdr.Like.suits (g := s.gdr) rfl h.base.suits, h.base.version,
      ⟨info', hf', htg'.trans htg, fun ho => ?_⟩, fun m' hm' => h.base.fresh m' (hmem m' hm').1,
        fun m' hm' => h.base.memhs m' (hmem m' hm').1, fun c hc => ?_⟩,
      fun hfits => ?_⟩
    · rw [hn']
      exact hnext (ho' ▸ ho)
    · rcases hcalls c hc with hc | rfl
      · exact h.base.calls c hc
      · exact ⟨pin, hpin, hbefore, fun _ => hsearches⟩
    · have hlk := h.linked fun c hc => hfits c (List.mem_append_left _ hc)
      -- The call itself fits, so what the driver unlinks is the mr of this pin.
      have hfit := hfits _ (List.mem_append_right _ List.mem_cons_self) trivial
      have hh : m.handle = pin.handle := by rw [hhandle, u32_fits (hbefore ▸ hfit.own trivial hpin)]
      have hkey := hlk.listed m hm pin info hpin hf
      obtain ⟨mr, hs, hptr⟩ := search_of_key h.base.files hf hkey
      refine ⟨fun m' hm' p i hp hi => ?_, fun m1 hm1 m2 hm2 => hlk.apart m1 (hmem m1 hm1).1 m2 (hmem m2 hm2).1,
        fun c hc hfit' => ?_⟩
      · obtain ⟨hm0, hne⟩ := hmem m' hm'
        obtain rfl := Option.some.inj (hi.symm.trans hf')
        rcases hkeys _ (hlk.listed m' hm0 p info hp hf) with hkey' | ⟨mr', hs', he⟩
        · exact hkey'
        · rw [hh] at hs'
          obtain rfl := Option.some.inj (hs.symm.trans hs')
          exact absurd (he.symm.trans hptr) (hlk.apart m' hm0 m hm p pin hp hpin hne)
      · rcases hcalls c hc with hc | rfl
        · exact hlk.calls c hc hfit'
        · exact reaches_of_fits hpin hbefore (fun _ => hsearches) hfit h.base.files hf htg hkey

/-! ## Runs -/

/-- A pin call keeps the invariant, whether or not it gives out a handle. -/
theorem Inv.pin_buffer {s : Session} {calloc : Bool} {env : PinEnv} {unpin : PutEnv} {addr size tok : BitVec 64}
    {va : BitVec 32} {r : Int × Option Nat × Session} (h : Inv P s)
    (hr : gdr_pin_buffer P s calloc env unpin addr size tok va = .ok r) :
    Inv P r.2.2 ∧ Follows P s.kernel r.2.2.kernel := by
  unfold gdr_pin_buffer at hr
  split at hr
  · cases hr
    exact ⟨h, .refl _⟩
  · obtain ⟨x, hi, rfl⟩ := map_ok hr
    have hpin : PinResult P s addr size x := pin_result h.base rfl rfl rfl rfl hi
    refine ⟨h.pinned hpin, ?_⟩
    obtain ⟨k, o, he, hstep, -⟩ := hpin
    rw [pinned_kernel, he]
    exact .step (.op hstep)

theorem Inv.pin_buffer_v2 {s : Session} {calloc : Bool} {env : PinEnv} {unpin : PutEnv}
    {addr size : BitVec 64} {flags : Nat} {r : Int × Option Nat × Session} (h : Inv P s)
    (hr : gdr_pin_buffer_v2 P s calloc env unpin addr size flags = .ok r) :
    Inv P r.2.2 ∧ Follows P s.kernel r.2.2.kernel := by
  unfold gdr_pin_buffer_v2 gdr_pin_buffer_v2_internal at hr
  split at hr
  · split at hr
    · cases hr
      exact ⟨h, .refl _⟩
    · obtain ⟨x, hi, rfl⟩ := map_ok hr
      have hpin : PinResult P s addr size x := pin_result h.base rfl rfl rfl rfl hi
      refine ⟨h.pinned hpin, ?_⟩
      obtain ⟨k, o, he, hstep, -⟩ := hpin
      rw [pinned_kernel, he]
      exact .step (.op hstep)
  split at hr
  · exact h.pin_buffer hr
  · cases hr
    exact ⟨h, .refl _⟩

theorem memh_lt {s : Session} (h : Base P s) {m : Memh} (hm : m ∈ s.gdr.memhs) : m.handle < 2 ^ 32 := by
  obtain ⟨pin, -, he, -⟩ := h.memhs m hm
  rw [he]
  exact u32_lt _

theorem Inv.call {s s' : Session} {c : Call} {ret : Int} (h : Inv P s) (hc : c.run P s = some (ret, s')) :
    Inv P s' ∧ Follows P s.kernel s'.kernel := by
  have found : ∀ {mh : Nat} {f : Memh → Option (Int × Session)}, (do let m ← s.gdr.memhs.find? (·.ptr = mh); f m) =
      some (ret, s') → ∃ m ∈ s.gdr.memhs, f m = some (ret, s') := by
    intro mh f hb
    obtain ⟨m, hm, hb⟩ := Option.bind_eq_some_iff.1 hb
    exact ⟨m, List.mem_of_find?_eq_some hm, hb⟩
  have quiet {m : Memh} {s' : Session} (hm : m ∈ s.gdr.memhs) (hq : Quiet P m s s') : Inv P s' ∧
      Follows P s.kernel s'.kernel :=
    ⟨h.quiet (.inl hm) hq, hq.follows⟩
  have hok := h.base.files
  cases c with
  | pin_buffer calloc env unpin addr size tok va =>
    obtain ⟨r, hr, he⟩ := Option.map_eq_some_iff.1 hc
    cases he
    exact h.pin_buffer (toOption_ok hr)
  | pin_buffer_v2 calloc env unpin addr size flags =>
    obtain ⟨r, hr, he⟩ := Option.map_eq_some_iff.1 hc
    cases he
    exact h.pin_buffer_v2 (toOption_ok hr)
  | unpin_buffer mh env =>
    obtain ⟨m, hm, hr⟩ := found hc
    exact ⟨h.unpinned hm (toOption_ok hr), .step (.op (unpin_step (toOption_ok hr)))⟩
  | get_callback_flag mh =>
    obtain ⟨m, hm, hr⟩ := found hc
    obtain ⟨⟨_, _, s1⟩, hr1, he⟩ := Option.map_eq_some_iff.1 hr
    cases he
    exact quiet hm (flag_quiet hok (toOption_ok hr1))
  | get_info_v2 mh =>
    obtain ⟨m, hm, hr⟩ := found hc
    obtain ⟨⟨_, _, s1⟩, hr1, he⟩ := Option.map_eq_some_iff.1 hr
    cases he
    exact quiet hm (get_info_quiet hok (toOption_ok hr1)).1
  | map_v2 mh env start size flags =>
    obtain ⟨m, hm, hr⟩ := found hc
    obtain ⟨⟨_, _, s1⟩, hr1, he⟩ := Option.map_eq_some_iff.1 hr
    cases he
    exact quiet hm (map_quiet hok h.base.suits (memh_lt h.base hm) hr1)
  | unmap mh env va size =>
    obtain ⟨m, hm, hr⟩ := found hc
    have he : s' = (gdr_unmap P s m env va size).2 := congrArg Prod.snd (Option.some.inj hr).symm
    rw [he]
    exact quiet hm (unmap_quiet hok)

theorem two_pow_succ_even (k : Nat) : 2 ^ (k + 1) &&& 0x1 ≠ 1 := by
  rw [Nat.and_one_is_mod, pow_succ, Nat.mul_mod_left]
  decide

/-- The loop of `gdr_open` finds the shift of a page size. -/
theorem pageShiftLoop_pow (k s : Nat) (hs : s + k < 255) : pageShiftLoop (2 ^ k) s = s + k + 1 := by
  induction k generalizing s with
  | zero =>
    rw [pageShiftLoop, dif_pos (by decide), if_pos (by decide)]
    omega
  | succ k ih =>
    rw [pageShiftLoop, dif_pos (Nat.two_pow_pos _), if_neg (two_pow_succ_even k), Nat.shiftRight_eq_div_pow,
      pow_succ, pow_one, Nat.mul_div_cancel _ (by decide), Nat.mod_eq_of_lt (by omega), ih _ (by omega)]
    omega

theorem pageShift_eq : pageShiftLoop P.PAGE_SIZE 255 = P.PAGE_SHIFT := by
  have hk : P.PAGE_SHIFT ≤ 16 := P.page_shift_le
  rw [Platform.PAGE_SIZE]
  cases hp : P.PAGE_SHIFT with
  | zero =>
    rw [pageShiftLoop, dif_pos (by decide), if_pos (by decide)]
  | succ k =>
    rw [pageShiftLoop, dif_pos (Nat.two_pow_pos _), if_neg (two_pow_succ_even k), Nat.shiftRight_eq_div_pow,
      pow_succ, pow_one, Nat.mul_div_cancel _ (by decide), pageShiftLoop_pow _ _ (by omega)]
    omega

/-- The driver is open, with the page size and the version of the kernel's side. -/
theorem Opened.inv {s : Session} (h : Opened P s) : Inv P s ∧ ∃ os, SysRun P s.kernel os := by
  obtain ⟨k, cur, kzalloc, os, hr, ho⟩ := h
  have hok := hr.filesOk
  unfold gdr_open gdrdrv_open at ho
  cases kzalloc with
  | false => cases ho
  | true =>
    set k1 : Kernel := { k.setFile k.fresh (some ⟨[], cur, 0, false⟩) with fresh := k.fresh + 1 } with hk1
    have hopen : step P k (.openFile 0 cur true) k1 := ⟨_, .openFile⟩
    have hf : k1.files k.fresh = some ⟨[], cur, 0, false⟩ := Function.update_self _ _ _
    have hioctl : gdrdrv_ioctl P k1 k.fresh cur (.get_version true) = .ok (gdrdrv_get_version true, k1) :=
      ioctl_own hf (by simp)
    simp only [show ¬(1 ≤ 0) by decide, Bool.not_true, Bool.false_eq_true, if_false, ne_eq, not_true_eq_false, hioctl] at ho
    simp only [gdrdrv_get_version, copy_to_user, if_true] at ho
    split at ho
    · cases ho
    · rename_i hver
      cases ho
      have none : ∀ {α : Type} {p : α → Prop}, ∀ x ∈ ([] : List α), p x := fun x hx => absurd hx List.not_mem_nil
      refine ⟨⟨⟨step_filesOk hok hopen, ?_, rfl, ⟨_, hf, rfl, fun _ => rfl⟩, none, none, none⟩,
        fun _ => ⟨none, none, none⟩⟩, _, hr.next (.op hopen)⟩
      exact ⟨rfl, pageShift_eq, Nat.le_of_not_lt fun hlt => hver (.inl hlt)⟩

/-- The invariant holds in every run, and every run of the library is one of the driver. -/
theorem Run.inv_run {s : Session} {cs : List (Option Call)} (h : Run P s cs) :
    Inv P s ∧ ∃ os, SysRun P s.kernel os := by
  refine Runs.Run.inv (fun s => Inv P s ∧ ∃ os, SysRun P s.kernel os) (fun s h => Opened.inv h)
    (fun s c s' hi ht => ?_) h
  obtain ⟨hinv, os, hr⟩ := hi
  cases ht with
  | call hc =>
    obtain ⟨hinv', hfollows⟩ := hinv.call hc
    obtain ⟨os', hp⟩ := hfollows hr.structures
    exact ⟨hinv', _, hr.path hp⟩
  | @stale s1 mh env vma ret hvma hc =>
    -- The driver's files do not depend on what the zap reads.
    have hinv' := ((hinv.same_files (k := s.kernel.withStale vma) rfl rfl).call hc).1
    obtain ⟨m, hm, hu⟩ := Option.bind_eq_some_iff.1 hc
    exact ⟨hinv'.same_files rfl rfl, _, hr.next (.stale hvma (unpin_step (toOption_ok hu)))⟩
  | other hl ho => exact ⟨hinv.quiet (m := ⟨0, 0, 0⟩) (.inr rfl) (quiet_step _ hinv.base.files ho hl), _, hr.next ho⟩

theorem Run.inv {s : Session} {cs : List (Option Call)} (h : Run P s cs) : Inv P s := h.inv_run.1

/-- Every run of the library is one of the driver. -/
theorem Run.sysRun {s : Session} {cs : List (Option Call)} (h : Run P s cs) : ∃ os, SysRun P s.kernel os := h.inv_run.2

/-- In every run, every call of the library reaches the mr which the pin of its `gdr_mh_t` created, and no other,
exactly when every request is for a buffer pinned after fewer than `2 ^ 32` host pages, and every
`gdr_unmap` for a range that begins where the buffer does. -/
theorem handles_agree {s : Session} {cs : List (Option Call)} (h : Run P s cs) :
    (∀ c ∈ s.calls, c.Reaches P s.gdr.fd s.cur) ↔ ∀ c ∈ s.calls, c.Fits s.gdr.fd := by
  have hi := Run.inv h
  refine ⟨fun hall c hc => ?_, fun hfits c hc => (hi.linked fun c hc _ => hfits c hc).calls c hc (hfits c hc)⟩
  obtain ⟨pin, hpin, hb, hown⟩ := hi.base.calls c hc
  obtain ⟨pin', hpin', hne, hsearches, -⟩ := hall c hc
  obtain rfl := Option.some.inj (hpin.symm.trans hpin')
  refine ⟨pin, hpin, ?_⟩
  have fits (ho : c.request.Own) : pin.before < 2 ^ 32 := by
    have he := hsearches (s.gdr.fd, u32 pin.handle) (by rw [hown ho]; exact List.mem_cons_self)
    rw [← hb, ← (Prod.mk.inj he).2]
    exact u32_lt _
  cases hr : c.request with
  | munmap cs => exact (unmap_searches hr _ _).1 ⟨hne, hsearches⟩
  | _ => exact fits (by rw [hr]; trivial)

end

/-! ## 128 GB, 128 times -/

/-- Make the calls in turn. -/
def runAll (P : Platform) (s : Session) : List Call → Option Session
  | [] => some s
  | c :: cs => (c.run P s).bind fun r => runAll P r.2 cs

theorem runAll_run {P : Platform} {s0 s : Session} {cs : List Call} (h0 : Opened P s0) (h : runAll P s0 cs = some s) :
    Run P s (cs.map some) := by
  suffices hp : ∀ (cs : List Call) (s0 : Session), runAll P s0 cs = some s → Runs.Path (Step P) s0 (cs.map some) s by
    have hr : Run P s0 [] := .start h0
    simpa using hr.path (hp cs s0 h)
  intro cs
  induction cs with
  | nil =>
    intro s0 h
    rw [Option.some.inj h]
    exact .nil
  | cons c cs ih =>
    intro s0 h
    obtain ⟨⟨ret, s1⟩, hc, h⟩ := Option.bind_eq_some_iff.1 h
    exact .cons (.call hc) (ih s1 h)

/-- Pin `size` bytes at `addr`, for which the driver gets `pages`. -/
def pinCall (addr size : BitVec 64) (pages : List Nat) : Call :=
  .pin_buffer true ⟨true, .ok ⟨0, 0x00010002, .NVIDIA_P2P_PAGE_SIZE_64KB, pages, false⟩, 0, 0, ⟨false, 0⟩⟩
    ⟨false, 0⟩ addr size 0 0

/-- Two buffers are pinned, and the second one is mapped and queried. -/
def mapSecond : List Call :=
  [pinCall 0x10000 0x10000 [0x30000], pinCall 0x20000 0x10000 [0x50000], .map_v2 1 remapAll 0x1000 0x10000 0,
    .get_info_v2 1]
where remapAll : RemapEnv := fun _ _ _ => 0

/-- A buffer of 128 GB is pinned and unpinned 128 times. The next one has handle `2 ^ 32`. -/
def pinAndUnpin : List Call :=
  ((List.range 128).flatMap fun k =>
    [pinCall 0x7f0000000000 0x2000000000 (List.replicate 0x200000 0x10000), .unpin_buffer k ⟨false, 0⟩]) ++
    [pinCall 0x7f0000000000 0x10000 [0x10000], pinCall 0x7f0000010000 0x10000 [0x20000], .get_callback_flag 128]

/-- The same, and the second buffer is unmapped. -/
def unmapSecond : List Call := mapSecond ++ [.unmap 1 wholeEnv 0x1000000 0x10000]

theorem handles_agree_unmapSecond :
    ∃ s0 s, gdr_open x86Host init 7 true = some s0 ∧ runAll x86Host s0 unmapSecond = some s ∧ s.calls.length = 5 ∧
      ∀ c ∈ s.calls, c.Reaches x86Host s.gdr.fd s.cur := by
  obtain ⟨s0, h0, h⟩ : ∃ s0, gdr_open x86Host init 7 true = some s0 ∧ ((runAll x86Host s0 unmapSecond).any fun s =>
      s.calls.length == 5 && s.calls.all fun c => c.pin.any fun pin =>
        match c.request with
        | .munmap cs =>
          !cs.isEmpty && cs.all fun cut => cut.vma.vm_file = s.gdr.fd ∧ cut.vma.vm_pgoff + cut.a = pin.handle
        | _ => pin.before < 2 ^ 32) = true :=
    Option.any_eq_true _ _ |>.1 (by decide +kernel)
  obtain ⟨s, hs, h⟩ := Option.any_eq_true _ _ |>.1 h
  obtain ⟨hl, hfits⟩ := (Bool.and_eq_true _ _).mp h
  have hr : Run x86Host s (unmapSecond.map some) := runAll_run ⟨init, 7, true, [], .start rfl, h0⟩ hs
  refine ⟨s0, s, h0, hs, by simpa using hl, (handles_agree hr).2 fun c hc => ?_⟩
  obtain ⟨pin, hp, hb⟩ := Option.any_eq_true _ _ |>.1 (List.all_eq_true.1 hfits c hc)
  refine ⟨pin, hp, ?_⟩
  cases hreq : c.request with
  | munmap cs =>
    rw [hreq] at hb
    obtain ⟨hne, hall⟩ := (Bool.and_eq_true _ _).mp hb
    exact ⟨by simpa using hne, fun cut hcut => of_decide_eq_true (List.all_eq_true.1 hall cut hcut)⟩
  | _ =>
    rw [hreq] at hb
    exact of_decide_eq_true hb

/-- The request for the buffer with handle `2 ^ 32` carries 0. -/
theorem truncated_handle : ¬ ∀ P s cs, Run P s cs → ∀ c ∈ s.calls, c.Reaches P s.gdr.fd s.cur := by
  intro hall
  obtain ⟨s0, h0, h⟩ : ∃ s0, gdr_open x86Host init 7 true = some s0 ∧ ((runAll x86Host s0 pinAndUnpin).any fun s =>
      s.calls.any fun c => (c.searches x86Host s.gdr.fd).any fun x => c.pin.all fun pin => x.2 ≠ pin.handle) = true :=
    Option.any_eq_true _ _ |>.1 (by decide +kernel)
  obtain ⟨s, hs, h⟩ := Option.any_eq_true _ _ |>.1 h
  obtain ⟨c, hc, hne⟩ := List.any_eq_true.1 h
  obtain ⟨x, hx, hne⟩ := List.any_eq_true.1 hne
  have hr : Run x86Host s (pinAndUnpin.map some) := runAll_run ⟨init, 7, true, [], .start rfl, h0⟩ hs
  obtain ⟨pin, hp, -, hsearches, -⟩ := hall _ _ _ hr c hc
  rw [hp, hsearches x hx] at hne
  simp at hne

end gdrapi
