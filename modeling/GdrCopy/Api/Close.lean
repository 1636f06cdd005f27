import GdrCopy.Api.Contract
/-!
# Closing a gdr_t

`gdr_close` unpins the buffers that are left, one by one, and stops at the first error. The
driver's list is the library's (`Run.mirrors`), so in a run that honours the
contract there is no error and nothing stays behind (`gdr_close_releases`).
-/

namespace gdrapi

open gdrdrv

section
variable (P : Platform)

/-- The loop of `gdr_close`. -/
def closeLoop (env : Nat → PutEnv) : List Memh → Session → Except Fault (Int × Session)
  | [], s => .ok (0, s)
  | mh :: rest, s => do
    let (ret, s) ← gdr_unpin_buffer P s mh (env mh.ptr)
    if ret ≠ 0 then .ok (ret, s) else closeLoop env rest s

/-- Linux: the driver releases the file once its `last` descriptor is closed and no VMA of it is left. -/
def sysClose (env : Nat → PutEnv) (last : Bool) (k : Kernel) (f : Nat) : Except Fault Kernel :=
  if last && !k.vmas.any (·.vm_file = f) then (gdrdrv_release P env k f).map (·.2) else .ok k

/-- The status, the `gdr_t` unless it is freed, and the driver. `close` is the `errno` of the system call, or 0. -/
def gdr_close (s : Session) (env : Nat → PutEnv) (last : Bool) (close : Int) :
    Except Fault (Int × Option Session × Kernel) := do
  let (ret, s) ← closeLoop P env s.gdr.memhs s
  if ret ≠ 0 then .ok (ret, some s, s.kernel)
  else
    let k ← sysClose P env last s.kernel s.gdr.fd
    .ok (close, none, k)

/-! ## The two lists -/

/-- The mr, by address and handle, that the pin of a `gdr_memh_t` created. -/
def Session.key (s : Session) (m : Memh) : Option (Nat × Nat) := (s.pins m.ptr).map fun pin => (pin.mr, pin.handle)

/-- The driver lists the mrs of the library's `gdr_memh_t`s, in their order, and no others. -/
def Mirrors (s : Session) : Prop := ∀ info, s.kernel.files s.gdr.fd = some info →
    s.gdr.memhs.map s.key = info.view.keys.map some

variable {P}

theorem map_filter_some {α β : Type} {g : α → Option β} {q : α → Bool} {p : β → Bool} {l : List α} {ks : List β}
    (h : l.map g = ks.map some) (hq : ∀ a ∈ l, ∀ k, g a = some k → q a = p k) :
    (l.filter q).map g = (ks.filter p).map some := by
  have hfilter : l.filter q = l.filter (Option.any p ∘ g) := by
    refine List.filter_congr fun a ha => ?_
    obtain ⟨k, -, hk⟩ := List.mem_map.1 (h ▸ List.mem_map_of_mem ha)
    rw [Function.comp_apply, ← hk]
    exact hq a ha k hk.symm
  rw [hfilter, ← List.filter_map, h, List.filter_map]
  rfl

theorem mrs_nodup {info : Info} (h : Spaced P info) : info.mr_list.Nodup := by
  refine h.ranges.imp fun {a b} hab he => ?_
  subst he
  have hpos := span_pos P a.mapped_size
  rw [Mr.stop] at hab
  omega

/-- One mr less is counted. -/
theorem count_del {info : Info} {mr : Mr} (q : Mr → Bool) (hm : mr ∈ info.mr_list) (hnodup : info.mr_list.Nodup)
    (hinj : ∀ x ∈ info.mr_list, x.ptr = mr.ptr → x = mr) :
    (info.list_del mr).mr_list.countP q + (q mr).toNat = info.mr_list.countP q := by
  have herase : (info.list_del mr).mr_list = info.mr_list.erase mr := by
    rw [hnodup.erase_eq_filter]
    refine List.filter_congr fun x hx => ?_
    have hiff : x.ptr = mr.ptr ↔ x = mr := ⟨hinj x hx, fun he => by rw [he]⟩
    rw [decide_not, decide_eq_decide.2 hiff]
    rfl
  rw [herase, (List.perm_cons_erase hm).countP_eq, List.countP_cons]
  cases q mr <;> rfl

theorem Mirrors.quiet {s s' : Session} {m : Memh} (hb : Base P s) (h : Mirrors s) (hq : Quiet P m s s') :
    Mirrors s' := by
  intro info' hf'
  obtain ⟨info, hf, -⟩ := hb.file
  obtain ⟨info1, hf1, hview⟩ := hq.kernel.2 info hf
  rw [hq.gdr.fd] at hf'
  obtain rfl := Option.some.inj (hf1.symm.trans hf')
  rw [hview, ← h info hf]
  have hkey : ∀ l : List Memh, l.map s'.key = (l.map fun m => (m.ptr, m.handle)).map fun x =>
      (s.pins x.1).map fun pin => (pin.mr, pin.handle) := by
    intro l
    rw [List.map_map]
    exact List.map_congr_left fun m _ => by rw [Session.key, hq.pins]; rfl
  rw [hkey, hq.memhs, List.map_map]
  rfl

theorem Mirrors.pinned {s : Session} {addr size : BitVec 64} {r : Reply × Session} (hi : Inv P s) (h : Mirrors s)
    (hr : PinResult P s addr size r) : Mirrors (pinned P s addr size r).2.2 := by
  obtain ⟨reply, s1⟩ := r
  obtain ⟨info, hf, -⟩ := hi.base.file
  obtain ⟨k, o, rfl, hstep, ⟨hsame, hret⟩ | ⟨mr, rfl, hd, -⟩⟩ := hr
  · have he : (gdrapi.pinned P s addr size (reply, { s with kernel := k })).2.2 = { s with kernel := k } := by
      unfold gdrapi.pinned
      split
      · rename_i heq
        rw [heq] at hret
        exact absurd rfl hret
      · rfl
    rw [he]
    exact h.quiet (m := ⟨0, 0, 0⟩) hi.base ⟨rfl, rfl, rfl, rfl, rfl, rfl, hsame, .step (.op hstep),
      [], by simp, by simp⟩
  cases hd with
  | linked hf1 hg hnew hfiles hvmas hfresh =>
    rename_i info1 info' pt
    obtain rfl := Option.some.inj (hf.symm.trans hf1)
    obtain ⟨-, -, hl, -⟩ := generate_spec hnew.mapped_size (fun ho => ((hi.base.files.spaced hf).next ho).1) hg
    have hk : k.files s.gdr.fd = some (info'.list_add mr) := by rw [hfiles, Function.update_self]
    have hhead : ((k.files s.gdr.fd).bind fun info => info.mr_list.head?.map (·.ptr)).getD 0 = mr.ptr := by
      rw [hk]
      rfl
    intro i hfi
    simp only [gdrapi.pinned, hhead] at hfi ⊢
    obtain rfl := Option.some.inj (hk.symm.trans hfi)
    have hkeys : (info'.list_add mr).view.keys = (mr.ptr, mr.handle) :: info.view.keys := by
      simp only [Info.view, Info.list_add, hl, List.map_cons]
    rw [hkeys, List.map_cons, List.map_cons, ← h info hf]
    have hself : Function.update s.pins s.fresh (some ⟨mr.handle, mr.ptr, s.pages⟩) s.fresh =
        some ⟨mr.handle, mr.ptr, s.pages⟩ :=
      Function.update_self _ _ _
    refine congrArg₂ List.cons ?_ (List.map_congr_left fun m hm => ?_)
    · exact congrArg (Option.map fun pin : Pin => (pin.mr, pin.handle)) hself
    -- The older structures have older addresses.
    · have hold : Function.update s.pins s.fresh (some ⟨mr.handle, mr.ptr, s.pages⟩) m.ptr = s.pins m.ptr :=
        Function.update_of_ne (Nat.ne_of_lt (hi.base.fresh m hm)) _ _
      exact congrArg (Option.map fun pin : Pin => (pin.mr, pin.handle)) hold

/-- The driver has given up the mrs of the file that are not in `l`, and nothing else. -/
structure Sheds (P : Platform) (f : Nat) (info : Info) (env : Nat → PutEnv) (k : Kernel) (l : List Mr)
    (k' : Kernel) : Prop where
  files : k'.files = Function.update k.files f (some { info with mr_list := l })
  vmas : Pruned k.vmas k'.vmas
  elsewhere : k'.vmas.filter (·.vm_file ≠ f) = k.vmas.filter (·.vm_file ≠ f)
  refcount : (∀ p, (env p).Returns P) →
    k'.gdrdrv_nv_get_pages_refcount + info.mr_list.countP (·.page_table.isSome) =
      k.gdrdrv_nv_get_pages_refcount + l.countP (·.page_table.isSome)

/-- `gdr_unpin_buffer` on a `gdr_memh_t` that names its mr. -/
theorem unpin_names {s : Session} {m : Memh} {info : Info} {mr : Mr} {env : Nat → PutEnv}
    (hn : m.Names s info mr) (htg : info.tgid = s.cur) (hwf : Wf P s.kernel) (ht : Tracks s.kernel) :
    ∃ k, Sheds P s.gdr.fd info env s.kernel (info.list_del mr).mr_list k ∧
      gdr_unpin_buffer P s m (env m.ptr) = .ok (0, { s.log m (.ioctl (.unpin_buffer true (env m.ptr) m.handle)) with
        kernel := k, gdr := { s.gdr with memhs := s.gdr.memhs.filter fun x => x.ptr ≠ m.ptr } }) := by
  obtain ⟨k, hk, hfiles, hvmas, helse, hcount⟩ :=
    @unpin_tracked P s.kernel s.gdr.fd m.handle info mr (env m.ptr) ht hn.file (hn.search hwf.files)
  have hioctl : gdrdrv_ioctl P s.kernel s.gdr.fd s.cur (.unpin_buffer true (env m.ptr) m.handle) = .ok (.err 0, k) := by
    rw [← htg, ioctl_own hn.file (by simp)]
    simp only [ioctlSwitch, gdrdrv_unpin_buffer, Bool.not_true, Bool.false_eq_true, if_false, hk]
    rfl
  refine ⟨k, ⟨hfiles, hvmas, helse, fun hret => ?_⟩, ?_⟩
  · have h1 := hcount (hret m.ptr)
    have h2 := count_del (·.page_table.isSome) hn.mem (mrs_nodup (hwf.files.spaced hn.file)) (hn.uniq hwf.files)
    omega
  · unfold gdr_unpin_buffer ioctlOn gdrapi.ioctl
    have hlog : gdrdrv_ioctl P (s.log m (.ioctl (.unpin_buffer true (env m.ptr) m.handle))).kernel
        (s.log m (.ioctl (.unpin_buffer true (env m.ptr) m.handle))).gdr.fd
          (s.log m (.ioctl (.unpin_buffer true (env m.ptr) m.handle))).cur
        (.unpin_buffer true (env m.ptr) m.handle) = .ok (.err 0, k) := hioctl
    rw [hlog]
    rfl

/-- Both lists lose the mr of the call. -/
theorem Mirrors.unpinned {s s' : Session} {m : Memh} {env : PutEnv} {ret : Int} (hi : Inv P s) (hl : Linked P s)
    (hwf : Wf P s.kernel) (ht : Tracks s.kernel) (h : Mirrors s) (hm : m ∈ s.gdr.memhs) (hfits : s.Fits m.ptr)
    (hu : gdr_unpin_buffer P s m env = .ok (ret, s')) : Mirrors s' := by
  obtain ⟨pin, hpin, hhandle, hbefore⟩ := hi.base.memhs m hm
  have hh : m.handle = pin.handle := by rw [hhandle, u32_fits (hbefore ▸ hfits pin hpin)]
  obtain ⟨info, mr, hn, htg⟩ := hl.names hi.base hm hfits
  obtain ⟨mr', hs, hptr⟩ := search_of_key hi.base.files hn.file (hl.listed m hm pin info hpin hn.file)
  obtain rfl : mr = mr' := by
    rw [← hh, hn.search hi.base.files] at hs
    exact Option.some.inj hs
  obtain ⟨k, hk, hu'⟩ := @unpin_names P s m info mr (fun _ => env) hn htg hwf ht
  obtain ⟨-, rfl⟩ := Prod.mk.inj (Except.ok.inj (hu.symm.trans hu'))
  intro i hfi
  have hi' : k.files s.gdr.fd = some (info.list_del mr) := by
    rw [hk.files, Function.update_self]
    rfl
  obtain rfl := Option.some.inj (hi'.symm.trans hfi)
  have hkeys : (info.list_del mr).view.keys = info.view.keys.filter fun key => key.1 ≠ mr.ptr := by
    simp only [Info.view, Info.list_del, List.filter_map]
    rfl
  rw [hkeys]
  refine map_filter_some (h info hn.file) fun x hx key hkey => ?_
  obtain ⟨pin', hpin', rfl⟩ := Option.map_eq_some_iff.1 hkey
  have hiff : x.ptr = m.ptr ↔ pin'.mr = mr.ptr := by
    constructor
    · intro he
      rw [he] at hpin'
      obtain rfl := Option.some.inj (hpin.symm.trans hpin')
      exact hptr.symm
    · intro he
      by_contra hne
      exact hl.apart x hx m hm pin' pin hpin' hpin hne (he.trans hptr)
  simp only [ne_eq, hiff]

/-- In a run that honours the contract, the driver's list is the library's. -/
theorem ContractRun.mirrors {s : Session} {cs : List (Option Call)} (h : ContractRun P s cs) : Mirrors s := by
  induction h with
  | start h =>
    obtain ⟨k, cur, kzalloc, os, -, ho⟩ := h
    obtain ⟨-, hmemhs, hfile⟩ := open_new ho
    intro info hf
    obtain rfl := Option.some.inj (hfile.symm.trans hf)
    rw [hmemhs]
    rfl
  | next hr ht ih =>
    have hi := Run.inv (ContractRun.run hr)
    cases ht with
    | other _ hl ho => exact ih.quiet (m := ⟨0, 0, 0⟩) hi.base (quiet_step _ hi.base.files (.op ho) (leaves_op hl))
    | call hh hc =>
      have hl := hi.linked (ContractRun.fits hr)
      obtain ⟨os, horderly⟩ := ContractRun.orderly hr
      obtain ⟨hwf, htracks⟩ := orderly_tracks horderly
      have he := Call.ends hi hc
      generalize hmh : Call.mh _ = mh at he
      cases he with
      | same => exact ih
      | pinned hp => exact ih.pinned hi hp
      | unpinned hm hu => exact ih.unpinned hi hl hwf htracks hm (hh.fits _ hmh) hu
      | quiet hm hq => exact ih.quiet hi.base hq

/-! ## The loop -/

theorem Sheds.refl {f : Nat} {info : Info} {env : Nat → PutEnv} {k : Kernel} (hf : k.files f = some info) :
    Sheds P f info env k info.mr_list k := by
  refine ⟨?_, .refl _, rfl, fun _ => rfl⟩
  rw [← hf, Function.update_eq_self]

theorem Sheds.trans {f : Nat} {info : Info} {env : Nat → PutEnv} {k k' k'' : Kernel} {l l' : List Mr}
    (h : Sheds P f info env k l k') (h' : Sheds P f { info with mr_list := l } env k' l' k'') :
    Sheds P f info env k l' k'' := by
  refine ⟨?_, h.vmas.trans h'.vmas, h'.elsewhere.trans h.elsewhere, fun hret => ?_⟩
  · rw [h'.files, h.files, Function.update_idem]
  · have h1 := h.refcount hret
    have h2 := h'.refcount hret
    dsimp only at h2
    omega

/-- The `gdr_memh_t`s of a list have addresses of their own, as their mrs have. -/
theorem Mirrors.nodup {s : Session} (hb : Base P s) (h : Mirrors s) : (s.gdr.memhs.map (·.ptr)).Nodup := by
  obtain ⟨info, hf, -⟩ := hb.file
  have hkeys : info.view.keys.Nodup :=
    (mrs_nodup (hb.files.spaced hf)).map_on fun a ha b hb' he => (hb.files.ptr_inj hf hf ha hb' (Prod.mk.inj he).1).2
  have hmap : (s.gdr.memhs.map s.key).Nodup := by
    rw [h info hf]
    exact hkeys.map (Option.some_injective _)
  have hcomp : s.gdr.memhs.map s.key = (s.gdr.memhs.map (·.ptr)).map fun p => (s.pins p).map fun pin =>
      (pin.mr, pin.handle) := by
    rw [List.map_map]
    rfl
  rw [hcomp] at hmap
  exact hmap.of_map _

/-- The first `gdr_memh_t` of the list is unpinned. -/
theorem unpin_first {s : Session} {cs : List (Option Call)} {m : Memh} {rest : List Memh} {info : Info}
    (env : Nat → PutEnv) (h : ContractRun P s cs) (hmemhs : s.gdr.memhs = m :: rest)
    (hfits : ∀ x ∈ s.gdr.memhs, s.Fits x.ptr) (hf : s.kernel.files s.gdr.fd = some info) :
    ∃ s' l, gdr_unpin_buffer P s m (env m.ptr) = .ok (0, s') ∧ (∃ cs', ContractRun P s' cs') ∧
      s'.gdr = { s.gdr with memhs := rest } ∧ s'.pins = s.pins ∧ Sheds P s.gdr.fd info env s.kernel l s'.kernel := by
  have hi := Run.inv (ContractRun.run h)
  obtain ⟨os, horderly⟩ := ContractRun.orderly h
  obtain ⟨hwf, htracks⟩ := orderly_tracks horderly
  have hm : m ∈ s.gdr.memhs := by
    rw [hmemhs]
    exact List.mem_cons_self
  obtain ⟨info', mr, hn, htg⟩ := (hi.linked (ContractRun.fits h)).names hi.base hm (hfits m hm)
  obtain rfl := Option.some.inj (hf.symm.trans hn.file)
  obtain ⟨k, hk, hu⟩ := @unpin_names P s m info mr env hn htg hwf htracks
  have hnodup := (ContractRun.mirrors h).nodup hi.base
  rw [hmemhs] at hnodup
  have hrest : s.gdr.memhs.filter (fun x => x.ptr ≠ m.ptr) = rest := by
    rw [hmemhs, List.filter_cons_of_neg (by simp)]
    refine List.filter_eq_self.2 fun x hx => decide_eq_true fun he => ?_
    exact (List.nodup_cons.1 hnodup).1 (List.mem_map.2 ⟨x, hx, he⟩)
  rw [hrest] at hu
  have hhonours : (Call.unpin_buffer m.ptr (env m.ptr)).Honours P s := by
    refine ⟨fun mh hmh => ?_, fun mh env va size he => ?_, fun mh env va size he => ?_⟩
    · cases hmh
      exact hfits m hm
    · cases he
    · cases he
  have hcall : ∀ s', gdr_unpin_buffer P s m (env m.ptr) = .ok (0, s') →
      (Call.unpin_buffer m.ptr (env m.ptr)).run P s = some (0, s') := by
    intro s' hu
    have hfind : s.gdr.memhs.find? (·.ptr = m.ptr) = some m := by
      rw [hmemhs]
      exact List.find?_cons_of_pos (decide_eq_true rfl)
    simp only [Call.run, hfind, Option.bind_eq_bind, Option.bind_some, hu]
    rfl
  exact ⟨_, _, hu, ⟨_, h.next (.call hhonours (hcall _ hu))⟩, rfl, rfl, hk⟩

/-- The loop of `gdr_close` unpins everything. -/
theorem closeLoop_sheds (env : Nat → PutEnv) (ms : List Memh) : ∀ {s : Session} {cs : List (Option Call)}
    {info : Info}, ContractRun P s cs → s.gdr.memhs = ms → (∀ m ∈ ms, s.Fits m.ptr) →
    s.kernel.files s.gdr.fd = some info →
    ∃ s' l, closeLoop P env ms s = .ok (0, s') ∧ (∃ cs', ContractRun P s' cs') ∧ s'.gdr = { s.gdr with memhs := [] } ∧
      Sheds P s.gdr.fd info env s.kernel l s'.kernel := by
  induction ms with
  | nil =>
    intro s cs info h hmemhs _ hf
    refine ⟨s, info.mr_list, rfl, ⟨cs, h⟩, ?_, .refl hf⟩
    rw [← hmemhs]
  | cons m rest ih =>
    intro s cs info h hmemhs hfits hf
    obtain ⟨s1, l1, hu, ⟨cs1, hr1⟩, hgdr, hpins, hsheds⟩ := unpin_first env h hmemhs (hmemhs ▸ hfits) hf
    have hf1 : s1.kernel.files s1.gdr.fd = some { info with mr_list := l1 } := by
      rw [hgdr, hsheds.files, Function.update_self]
    have hfits1 : ∀ x ∈ rest, s1.Fits x.ptr := by
      intro x hx
      rw [Session.Fits, hpins]
      exact hfits x (List.mem_cons_of_mem _ hx)
    obtain ⟨s2, l2, hloop, hr2, hgdr2, hsheds2⟩ := ih hr1 (by rw [hgdr]) hfits1 hf1
    rw [hgdr] at hgdr2 hsheds2
    refine ⟨s2, l2, ?_, hr2, hgdr2, hsheds.trans hsheds2⟩
    rw [closeLoop, hu]
    exact hloop

/-! ## Closing -/

/-- What is left of a `gdr_t` that has been closed. -/
structure Closed (P : Platform) (s : Session) (env : Nat → PutEnv) (last : Bool) (k : Kernel) : Prop where
  others : ∀ f, f ≠ s.gdr.fd → k.files f = s.kernel.files f
  file : ∀ info, s.kernel.files s.gdr.fd = some info →
    k.files s.gdr.fd = if last && !s.kernel.vmas.any (·.vm_file = s.gdr.fd) then none
      else some { info with mr_list := [] }
  regions : regions k = regions s.kernel
  here : ∀ v ∈ k.vmas, v.vm_file = s.gdr.fd → v.ptes = []
  elsewhere : k.vmas.filter (·.vm_file ≠ s.gdr.fd) = s.kernel.vmas.filter (·.vm_file ≠ s.gdr.fd)
  refcount : (∀ p, (env p).Returns P) → ∀ info, s.kernel.files s.gdr.fd = some info →
    k.gdrdrv_nv_get_pages_refcount + info.mr_list.countP (·.page_table.isSome) = s.kernel.gdrdrv_nv_get_pages_refcount

theorem regions_any {k k' : Kernel} (h : regions k' = regions k) (f : Nat) :
    k'.vmas.any (·.vm_file = f) = k.vmas.any (·.vm_file = f) := by
  have hmap : ∀ k : Kernel, k.vmas.any (·.vm_file = f) = (regions k).any (·.vm_file = f) := by
    intro k
    rw [regions, List.any_map]
    rfl
  rw [hmap, hmap, h]

theorem pruned_regions {k k' : Kernel} (h : Pruned k.vmas k'.vmas) : regions k' = regions k := by
  obtain ⟨keep, he⟩ := h
  rw [regions, regions, he, List.map_map]
  rfl

/-- Closing a `gdr_t` gives every buffer back that is still pinned, whatever the NVIDIA driver answers. No error
stops the loop, no translation of the file is left, and the rest of the system is as it was. -/
theorem gdr_close_releases {s : Session} {cs : List (Option Call)} (h : ContractRun P s cs)
    (hfits : ∀ m ∈ s.gdr.memhs, s.Fits m.ptr) (env : Nat → PutEnv) (last : Bool) (close : Int) :
    ∃ k, gdr_close P s env last close = .ok (close, none, k) ∧ Closed P s env last k := by
  obtain ⟨info, hf, -⟩ := (Run.inv (ContractRun.run h)).base.file
  obtain ⟨s', l, hloop, ⟨cs', hr⟩, hgdr, hsheds⟩ := closeLoop_sheds env s.gdr.memhs h rfl hfits hf
  have hf' : s'.kernel.files s.gdr.fd = some { info with mr_list := l } := by rw [hsheds.files, Function.update_self]
  have hfd : s'.gdr.fd = s.gdr.fd := by rw [hgdr]
  -- The library has no structure left, so the driver has no mr.
  have hnil : l = [] := by
    have hkeys := ContractRun.mirrors hr _ (hfd ▸ hf')
    rw [hgdr] at hkeys
    simpa [Info.view] using hkeys.symm
  subst hnil
  have hregions : regions s'.kernel = regions s.kernel := pruned_regions hsheds.vmas
  have hhere : ∀ v ∈ s'.kernel.vmas, v.vm_file = s.gdr.fd → v.ptes = [] := by
    obtain ⟨os, horderly⟩ := ContractRun.orderly hr
    intro v hv hvf
    refine List.eq_nil_iff_forall_not_mem.2 fun p hp => ?_
    obtain ⟨info1, mr, o⟩ := (orderly_tracks horderly).2.owned v hv p hp
    have hlisted := o.listed
    obtain rfl := Option.some.inj ((hvf ▸ o.file).symm.trans hf')
    exact absurd hlisted List.not_mem_nil
  have hothers : ∀ f, f ≠ s.gdr.fd → s'.kernel.files f = s.kernel.files f :=
    fun f hne => by rw [hsheds.files, Function.update_of_ne hne]
  have hcount : (∀ p, (env p).Returns P) → ∀ i, s.kernel.files s.gdr.fd = some i →
      s'.kernel.gdrdrv_nv_get_pages_refcount + i.mr_list.countP (·.page_table.isSome) =
        s.kernel.gdrdrv_nv_get_pages_refcount := by
    intro hret i hi
    obtain rfl := Option.some.inj (hf.symm.trans hi)
    have hc := hsheds.refcount hret
    rwa [List.countP_nil, Nat.cast_zero, Int.add_zero] at hc
  have hclose : ∀ k, sysClose P env last s'.kernel s.gdr.fd = .ok k →
      gdr_close P s env last close = .ok (close, none, k) := by
    intro k hk
    rw [gdr_close, hloop]
    simp only [bind, Except.bind, ne_eq, not_true_eq_false, if_false, hfd, hk]
  have hany := regions_any hregions s.gdr.fd
  cases hlast : last && !s.kernel.vmas.any (·.vm_file = s.gdr.fd) with
  | false =>
    refine ⟨s'.kernel, hclose _ ?_, hothers, fun i hi => ?_, hregions, hhere, hsheds.elsewhere, hcount⟩
    · rw [sysClose, hany, hlast]
      rfl
    · rw [hlast, hf', Option.some.inj (hf.symm.trans hi)]
      rfl
  | true =>
    have hrelease : gdrdrv_release P env s'.kernel s.gdr.fd = .ok (.err 0, s'.kernel.setFile s.gdr.fd none) := by
      rw [gdrdrv_release, hf']
      rfl
    refine ⟨s'.kernel.setFile s.gdr.fd none, hclose _ ?_, fun f hne => ?_, fun i hi => ?_, hregions, hhere,
      hsheds.elsewhere, hcount⟩
    · rw [sysClose, hany, hlast, if_pos rfl, hrelease]
      rfl
    · rw [← hothers f hne]
      exact Function.update_of_ne hne _ _
    · rw [hlast, if_pos rfl]
      exact Function.update_self _ _ _

end

/-- Two buffers are pinned and one of them is mapped. The region stays, and with it the file. -/
theorem gdr_close_releases_mapSecond : ∃ s0 s k, gdr_open x86Host init 7 true = some s0 ∧
    runHonest x86Host s0 mapSecond = some s ∧ s.kernel.gdrdrv_nv_get_pages_refcount = 2 ∧
    s.kernel.vmas.any (·.vm_file = s.gdr.fd) = true ∧
    gdr_close x86Host s (fun _ => ⟨true, 0⟩) true 0 = .ok (0, none, k) ∧
    Closed x86Host s (fun _ => ⟨true, 0⟩) true k := by
  obtain ⟨s0, h0, h⟩ : ∃ s0, gdr_open x86Host init 7 true = some s0 ∧ ((runHonest x86Host s0 mapSecond).any fun s =>
      s.kernel.gdrdrv_nv_get_pages_refcount = 2 ∧ s.kernel.vmas.any (·.vm_file = s.gdr.fd) ∧
        ∀ m ∈ s.gdr.memhs, (s.pins m.ptr).all (·.before < 2 ^ 32)) = true :=
    Option.any_eq_true _ _ |>.1 (by decide +kernel)
  obtain ⟨s, hs, h⟩ := Option.any_eq_true _ _ |>.1 h
  obtain ⟨hcount, hany, hfits⟩ := of_decide_eq_true h
  have hr : ContractRun x86Host s0 [] := .start ⟨init, 7, true, [], .start rfl, h0⟩
  obtain ⟨k, hk, hclosed⟩ := gdr_close_releases (hr.path (runHonest_path mapSecond s0 hs)) (fun m hm pin hpin => by
    have hall := hfits m hm
    rw [hpin] at hall
    exact of_decide_eq_true hall) (fun _ => ⟨true, 0⟩) true 0
  exact ⟨s0, s, k, h0, hs, hcount, hany, hk, hclosed⟩

end gdrapi
