import GdrCopy.Driver.Orderly
import GdrCopy.Api.Lifecycle
/-!
# The contract of the library

`gdr_unmap` is for the region that `gdr_map_v2` returned for the same `gdr_mh_t`. A thread
that keeps to this uses the driver in an orderly way, as `gdr_map_v2` asks for a mapping type
before each `mmap` and so never maps twice. `library_no_stale`: the driver then
tracks every VMA, and no translation outlives its page table.
-/

namespace gdrapi

open gdrdrv

/-- The buffer was pinned after fewer than `2 ^ 32` host pages. -/
def Session.Fits (s : Session) (mh : Nat) : Prop := ∀ pin, s.pins mh = some pin → pin.before < 2 ^ 32

/-- The `gdr_mh_t` of a call. -/
def Call.mh : Call → Option Nat
  | .pin_buffer .. => none
  | .pin_buffer_v2 .. => none
  | .unpin_buffer mh _ => some mh
  | .get_callback_flag mh => some mh
  | .get_info_v2 mh => some mh
  | .map_v2 mh .. => some mh
  | .unmap mh .. => some mh

section
variable (P : Platform)

/-- The handle of the call has not been cut off, and a range that it unmaps is a region mapped for the same `gdr_mh_t`,
or has none. -/
structure Call.Honours (s : Session) (c : Call) : Prop where
  fits : ∀ mh, c.mh = some mh → s.Fits mh
  unmap : ∀ mh env va size, c = .unmap mh env va size → ∀ m ∈ s.gdr.memhs, m.ptr = mh → ∀ v ∈ s.kernel.vmas,
    v.vm_file = s.gdr.fd → v.vm_start = va → v.vm_end = va + roundedSize s.gdr size → v.vm_pgoff = m.handle
  whole : ∀ mh env va size, c = .unmap mh env va size →
    (∃ v ∈ s.kernel.vmas, v.vm_file = s.gdr.fd ∧ v.vm_start = va ∧ v.vm_end = va + roundedSize s.gdr size) ∨
      cutsOf P s.kernel s.gdr.fd env va (roundedSize s.gdr size) = []

/-- A call of the thread that honours the contract, or an orderly operation of someone else. -/
inductive ContractStep : Session → Option Call → Session → Prop
  | call {s s' : Session} {c : Call} {ret : Int} : c.Honours P s → c.run P s = some (ret, s') →
    ContractStep s (some c) s'
  | other {s : Session} {o : Op} {k : Kernel} : orderly P s.kernel o = true → o.Leaves s.gdr.fd → step P s.kernel o k →
    ContractStep s none { s with kernel := k }

/-- `gdr_open` on a driver that orderly users have used. -/
def ContractOpened (s : Session) : Prop := ∃ k cur kzalloc os, OrderlyRun P k os ∧ gdr_open P k cur kzalloc = some s

abbrev ContractRun := Runs.Run (ContractOpened P) (ContractStep P)

/-- Orderly operations. -/
abbrev OrderlyPath := Runs.Path (Runs.only (fun s o => orderly P s o = true) (step P))

variable {P}

theorem ContractRun.run {s : Session} {cs : List (Option Call)} (h : ContractRun P s cs) : Run P s cs := by
  induction h with
  | start h =>
    obtain ⟨k, cur, kzalloc, os, hr, ho⟩ := h
    exact .start ⟨k, cur, kzalloc, _, gdrdrv.Run.sysRun hr.of_only, ho⟩
  | next _ ht ih =>
    cases ht with
    | call _ hc => exact ih.next (.call hc)
    | other _ hl ho => exact ih.next (.other (leaves_op hl) (.op ho))

/-! ## The requests fit -/

/-- What a call comes to: nothing, a pin, an unpin, or requests for its `gdr_mh_t` that do neither. -/
inductive CallEnds (P : Platform) (s : Session) : Option Nat → Session → Prop
  | same : CallEnds P s none s
  | pinned {addr size : BitVec 64} {r : Reply × Session} : PinResult P s addr size r →
    CallEnds P s none (gdrapi.pinned P s addr size r).2.2
  | unpinned {m : Memh} {env : PutEnv} {ret : Int} {s' : Session} : m ∈ s.gdr.memhs →
    gdr_unpin_buffer P s m env = .ok (ret, s') → CallEnds P s (some m.ptr) s'
  | quiet {m : Memh} {s' : Session} : m ∈ s.gdr.memhs → Quiet P m s s' → CallEnds P s (some m.ptr) s'

theorem CallEnds.pin_buffer {s : Session} {calloc : Bool} {env : PinEnv} {unpin : PutEnv}
    {addr size tok : BitVec 64} {va : BitVec 32} {r : Int × Option Nat × Session} (hb : Base P s)
    (h : gdr_pin_buffer P s calloc env unpin addr size tok va = .ok r) :
    CallEnds P s none r.2.2 := by
  unfold gdr_pin_buffer at h
  split at h
  · cases h
    exact .same
  · obtain ⟨x, hi, rfl⟩ := map_ok h
    exact .pinned (pin_result hb rfl rfl rfl rfl hi)

theorem CallEnds.pin_buffer_v2 {s : Session} {calloc : Bool} {env : PinEnv} {unpin : PutEnv}
    {addr size : BitVec 64} {flags : Nat} {r : Int × Option Nat × Session} (hb : Base P s)
    (h : gdr_pin_buffer_v2 P s calloc env unpin addr size flags = .ok r) :
    CallEnds P s none r.2.2 := by
  unfold gdr_pin_buffer_v2 gdr_pin_buffer_v2_internal at h
  split at h
  · split at h
    · cases h
      exact .same
    · obtain ⟨x, hi, rfl⟩ := map_ok h
      exact .pinned (pin_result hb rfl rfl rfl rfl hi)
  split at h
  · exact .pin_buffer hb h
  · cases h
    exact .same

theorem Call.ends {s s' : Session} {c : Call} {ret : Int} (hi : Inv P s) (h : c.run P s = some (ret, s')) :
    CallEnds P s c.mh s' := by
  have found : ∀ {mh : Nat} {f : Memh → Option (Int × Session)},
      (do let m ← s.gdr.memhs.find? (·.ptr = mh); f m) = some (ret, s') →
      ∃ m ∈ s.gdr.memhs, m.ptr = mh ∧ f m = some (ret, s') := by
    intro mh f hb
    obtain ⟨m, hm, hb⟩ := Option.bind_eq_some_iff.1 hb
    exact ⟨m, List.mem_of_find?_eq_some hm, by simpa using List.find?_some hm, hb⟩
  cases c with
  | pin_buffer =>
    obtain ⟨r, hr, he⟩ := Option.map_eq_some_iff.1 h
    cases he
    exact .pin_buffer hi.base (toOption_ok hr)
  | pin_buffer_v2 =>
    obtain ⟨r, hr, he⟩ := Option.map_eq_some_iff.1 h
    cases he
    exact .pin_buffer_v2 hi.base (toOption_ok hr)
  | unpin_buffer mh env =>
    obtain ⟨m, hm, rfl, hr⟩ := found h
    exact .unpinned hm (toOption_ok hr)
  | get_callback_flag mh =>
    obtain ⟨m, hm, rfl, hr⟩ := found h
    obtain ⟨⟨_, _, s1⟩, hr1, he⟩ := Option.map_eq_some_iff.1 hr
    cases he
    exact .quiet hm (flag_quiet hi.base.files (toOption_ok hr1))
  | get_info_v2 mh =>
    obtain ⟨m, hm, rfl, hr⟩ := found h
    obtain ⟨⟨_, _, s1⟩, hr1, he⟩ := Option.map_eq_some_iff.1 hr
    cases he
    exact .quiet hm (get_info_quiet hi.base.files (toOption_ok hr1)).1
  | map_v2 mh env start size flags =>
    obtain ⟨m, hm, rfl, hr⟩ := found h
    obtain ⟨⟨_, _, s1⟩, hr1, he⟩ := Option.map_eq_some_iff.1 hr
    cases he
    exact .quiet hm (map_quiet hi.base.files hi.base.suits (memh_lt hi.base hm) hr1)
  | unmap mh env va size =>
    obtain ⟨m, hm, rfl, hr⟩ := found h
    have he : s' = (gdr_unmap P s m env va size).2 := congrArg Prod.snd (Option.some.inj hr).symm
    rw [he]
    exact .quiet hm (unmap_quiet hi.base.files)

theorem unpin_inv {s s' : Session} {m : Memh} {env : PutEnv} {ret : Int}
    (h : gdr_unpin_buffer P s m env = .ok (ret, s')) :
    ∃ r k, gdrdrv_ioctl P s.kernel s.gdr.fd s.cur (.unpin_buffer true env m.handle) = .ok (r, k) ∧ ret = errno r ∧
      s' = { s.log m (.ioctl (.unpin_buffer true env m.handle)) with
        kernel := k, gdr := { s.gdr with memhs := s.gdr.memhs.filter fun x => x.ptr ≠ m.ptr } } := by
  unfold gdr_unpin_buffer at h
  generalize hx : ioctlOn P s m _ = x at h
  cases x with
  | error e => cases h
  | ok x =>
    obtain ⟨r, s1⟩ := x
    obtain ⟨k, hk, rfl⟩ := ioctlOn_inv hx
    obtain ⟨hret, rfl⟩ := Prod.mk.inj (Except.ok.inj h)
    exact ⟨r, k, hk, hret.symm, rfl⟩

/-- The requests of a call are for its `gdr_mh_t`. -/
theorem CallEnds.calls {s s' : Session} {mh : Option Nat} (h : CallEnds P s mh s') :
    s'.calls = s.calls ∨ ∃ m l, mh = some m.ptr ∧ m ∈ s.gdr.memhs ∧ s'.calls = s.calls ++ l ∧
    ∀ x ∈ l, x.pin = s.pins m.ptr := by
  cases h with
  | same => exact .inl rfl
  | pinned hr =>
    obtain ⟨k, o, hk, -⟩ := hr
    rename_i r
    obtain ⟨reply, s1⟩ := r
    obtain rfl : s1 = { s with kernel := k } := hk
    left
    unfold gdrapi.pinned
    split <;> rfl
  | unpinned hm hu =>
    obtain ⟨r, k, -, -, rfl⟩ := unpin_inv hu
    exact .inr ⟨_, [_], rfl, hm, rfl, fun x hx => by rw [List.mem_singleton.1 hx]⟩
  | quiet hm hq =>
    obtain ⟨l, hl, hall⟩ := hq.calls
    exact .inr ⟨_, l, rfl, hm, hl, fun x hx => (hall x hx).1⟩

/-- A new `gdr_t` has no `gdr_memh_t`, and its file no mr. -/
theorem open_new {k : Kernel} {cur : Nat} {kzalloc : Bool} {s : Session} (h : gdr_open P k cur kzalloc = some s) :
    s.calls = [] ∧ s.gdr.memhs = [] ∧ s.kernel.files s.gdr.fd = some ⟨[], cur, 0, false⟩ := by
  unfold gdr_open gdrdrv_open at h
  cases kzalloc with
  | false => cases h
  | true =>
    have hf : ({ k.setFile k.fresh (some ⟨[], cur, 0, false⟩) with fresh := k.fresh + 1 } : Kernel).files k.fresh =
        some ⟨[], cur, 0, false⟩ := Function.update_self _ _ _
    have hioctl := @ioctl_own P _ _ _ (.get_version true) hf (by simp)
    simp only [show ¬(1 ≤ 0) by decide, Bool.not_true, Bool.false_eq_true, if_false, ne_eq, not_true_eq_false, hioctl] at h
    simp only [ioctlSwitch, gdrdrv_get_version, copy_to_user, if_true] at h
    split at h
    · cases h
    · cases h
      exact ⟨rfl, rfl, hf⟩

/-- In a run that honours the contract no request of the library has a handle that has been cut off. -/
theorem ContractRun.fits {s : Session} {cs : List (Option Call)} (h : ContractRun P s cs) :
    ∀ c ∈ s.calls, c.request.Own → c.Fits s.gdr.fd := by
  have hbefore : ∀ c ∈ s.calls, ∃ pin, c.pin = some pin ∧ pin.before < 2 ^ 32 := by
    refine Runs.Run.inv_of (Inv P) (fun s => ∀ c ∈ s.calls, ∃ pin, c.pin = some pin ∧ pin.before < 2 ^ 32)
      (fun s cs hr => Run.inv (ContractRun.run hr)) (fun s h => ?_) (fun s c s' hi hfits ht => ?_) h
    · obtain ⟨k, cur, kzalloc, os, -, ho⟩ := h
      intro c hc
      rw [(open_new ho).1] at hc
      cases hc
    · cases ht with
      | other => exact hfits
      | call hh hc =>
        rcases (Call.ends hi hc).calls with he | ⟨m, l, hmh, hm, he, hall⟩
        · rw [he]
          exact hfits
        · intro x hx
          rw [he] at hx
          rcases List.mem_append.1 hx with hx | hx
          · exact hfits x hx
          · obtain ⟨pin, hpin, -⟩ := hi.base.memhs m hm
            exact ⟨pin, (hall x hx).trans hpin, hh.fits _ hmh pin hpin⟩
  intro c hc ho
  obtain ⟨pin, hpin, hlt⟩ := hbefore c hc
  refine ⟨pin, hpin, ?_⟩
  cases hr : c.request with
  | munmap cs =>
    rw [hr] at ho
    exact ho.elim
  | _ => exact hlt

/-! ## The operations are orderly -/

/-- A `gdr_mh_t` whose handle has not been cut off names its mr. -/
theorem Linked.names {s : Session} {m : Memh} (hb : Base P s) (hl : Linked P s) (hm : m ∈ s.gdr.memhs)
    (hfits : s.Fits m.ptr) :
    ∃ info mr, m.Names s info mr ∧ info.tgid = s.cur := by
  obtain ⟨pin, hpin, hh, hbefore⟩ := hb.memhs m hm
  obtain ⟨info, hf, htg, -⟩ := hb.file
  obtain ⟨mr, hmem, he⟩ := List.mem_map.1 (hl.listed m hm pin info hpin hf)
  have hhandle : m.handle = pin.handle := by rw [hh, u32_fits (hbefore ▸ hfits pin hpin)]
  exact ⟨info, mr, ⟨memh_lt hb hm, hf, hmem, (Prod.mk.inj he).2.trans hhandle.symm⟩, htg⟩

theorem OrderlyPath.wf {k k' : Kernel} {os : List Op} (hp : OrderlyPath P k os k') (hwf : Wf P k) : Wf P k' := by
  induction hp with
  | nil => exact hwf
  | cons ht _ ih =>
    obtain ⟨es, he, -⟩ := step_path hwf.files ht.2
    exact ih (path_wf he hwf)

theorem ioctl_orderly {k k' : Kernel} {f cur : Nat} {cmd : Cmd} {r : Reply}
    (h : gdrdrv_ioctl P k f cur cmd = .ok (r, k')) :
    OrderlyPath P k [.ioctl f cur cmd] k' := .one ⟨rfl, r, .ioctl h⟩

theorem pin_orderly {s s1 : Session} {addr size : BitVec 64} {cmd : Cmd} {r : Reply} (h : ioctl P s cmd = .ok (r, s1)) :
    ∃ os, OrderlyPath P s.kernel os (gdrapi.pinned P s addr size (r, s1)).2.2.kernel := by
  obtain ⟨⟨r1, k⟩, hk, he⟩ := map_ok h
  obtain ⟨rfl, rfl⟩ := Prod.mk.inj he
  refine ⟨[.ioctl s.gdr.fd s.cur cmd], ?_⟩
  have hkernel : (gdrapi.pinned P s addr size (r, { s with kernel := k })).2.2.kernel = k := by
    unfold gdrapi.pinned
    split <;> rfl
  rw [hkernel]
  exact ioctl_orderly hk

theorem pin_buffer_orderly {s s' : Session} {calloc : Bool} {env : PinEnv} {unpin : PutEnv}
    {addr size tok : BitVec 64} {va : BitVec 32} {ret : Int} {mh : Option Nat}
    (h : gdr_pin_buffer P s calloc env unpin addr size tok va = .ok (ret, mh, s')) :
    ∃ os, OrderlyPath P s.kernel os s'.kernel := by
  unfold gdr_pin_buffer at h
  split at h
  · cases h
    exact ⟨[], .nil⟩
  · obtain ⟨⟨r, s1⟩, hi, he⟩ := map_ok h
    have hp := @pin_orderly P s s1 addr size _ r hi
    rw [← he] at hp
    exact hp

theorem pin_buffer_v2_orderly {s s' : Session} {calloc : Bool} {env : PinEnv} {unpin : PutEnv}
    {addr size : BitVec 64} {flags : Nat} {ret : Int} {mh : Option Nat}
    (h : gdr_pin_buffer_v2 P s calloc env unpin addr size flags = .ok (ret, mh, s')) :
    ∃ os, OrderlyPath P s.kernel os s'.kernel := by
  unfold gdr_pin_buffer_v2 gdr_pin_buffer_v2_internal at h
  split at h
  · split at h
    · cases h
      exact ⟨[], .nil⟩
    · obtain ⟨⟨r, s1⟩, hi, he⟩ := map_ok h
      have hp := @pin_orderly P s s1 addr size _ r hi
      rw [← he] at hp
      exact hp
  split at h
  · exact pin_buffer_orderly h
  · cases h
    exact ⟨[], .nil⟩

section
variable {s s' : Session} {mh : Memh}

theorem ioctlOn_orderly {cmd : Nat → Cmd} {r : Reply} (h : ioctlOn P s mh cmd = .ok (r, s')) :
    ∃ os, OrderlyPath P s.kernel os s'.kernel := by
  obtain ⟨k, hk, rfl⟩ := ioctlOn_inv h
  exact ⟨_, ioctl_orderly hk⟩

theorem unpin_orderly {env : PutEnv} {ret : Int} (h : gdr_unpin_buffer P s mh env = .ok (ret, s')) :
    ∃ os, OrderlyPath P s.kernel os s'.kernel := by
  obtain ⟨r, k, hk, -, rfl⟩ := unpin_inv h
  exact ⟨_, ioctl_orderly hk⟩

theorem flag_orderly {ret : Int} {flag : Option Nat} (h : gdr_get_callback_flag P s mh = .ok (ret, flag, s')) :
    ∃ os, OrderlyPath P s.kernel os s'.kernel := by
  unfold gdr_get_callback_flag at h
  generalize hx : ioctlOn P s mh _ = x at h
  cases x with
  | error e => cases h
  | ok x =>
    simp only [bind, Except.bind] at h
    split at h <;> cases h <;> exact ioctlOn_orderly hx

theorem info_orderly {ret : Int} {info : Option InfoV2} (h : gdr_get_info_v2 P s mh = .ok (ret, info, s')) :
    ∃ os, OrderlyPath P s.kernel os s'.kernel := by
  unfold gdr_get_info_v2 at h
  split at h
  · generalize hx : ioctlOn P s mh _ = x at h
    cases x with
    | error e => cases h
    | ok x =>
      simp only [bind, Except.bind] at h
      split at h <;> cases h <;> exact ioctlOn_orderly hx
  · generalize hx : ioctlOn P s mh _ = x at h
    cases x with
    | error e => cases h
    | ok x =>
      simp only [bind, Except.bind] at h
      split at h <;> cases h <;> exact ioctlOn_orderly hx

theorem munmapOn_kernel {request : List Cut → Request} {env : MunmapEnv} {va len : Nat} :
    (munmapOn P s mh request env va len).2.kernel = (munmap P s.kernel s.gdr.fd env va len).2.2 := by
  have hends := munmap_ends (P := P) s.kernel s.gdr.fd env va len
  unfold munmapOn
  dsimp only
  generalize munmap P s.kernel s.gdr.fd env va len = r at hends ⊢
  cases hends with
  | refused hne => rw [if_pos hne]
  | whole => rfl
  | range => rfl

/-- An `munmap` of a region is orderly if the mr that it finds is listed. -/
theorem munmap_orderly {k : Kernel} {fd : Nat} (env : MunmapEnv) {va len : Nat} (hwf : Wf P k)
    (hwhole : (∃ v ∈ k.vmas, v.vm_file = fd ∧ v.vm_start = va ∧ v.vm_end = va + len) ∨ cutsOf P k fd env va len = [])
    (hfound : ∀ v, k.vmas.find? (fun v => v.vm_file = fd ∧ v.vm_start = va ∧ v.vm_end = va + len) = some v →
      ∀ info mr, k.lookup v.vm_file v.vm_pgoff = some (info, mr) → mr.handle = v.vm_pgoff) :
    ∃ os, OrderlyPath P k os (munmap P k fd env va len).2.2 := by
  have hends := munmap_ends (P := P) k fd env va len
  generalize munmap P k fd env va len = r at hends ⊢
  cases hends with
  | refused => exact ⟨[], .nil⟩
  | whole hv =>
    rename_i v
    have hmem := List.mem_of_find?_eq_some hv
    refine ⟨[.munmap v.id], .one ⟨?_, _, .munmap hmem⟩⟩
    -- The driver's VMA with this id is the region.
    obtain ⟨w, hw⟩ : ∃ w, k.vmas.find? (·.id = v.id) = some w :=
      Option.isSome_iff_exists.1 (by simpa using ⟨v, hmem, rfl⟩)
    obtain rfl := hwf.vmas.inj w (List.mem_of_find?_eq_some hw) v hmem (by simpa using List.find?_some hw)
    cases hl : k.lookup w.vm_file w.vm_pgoff with
    | none => simp only [orderly, hw, hl]
    | some r => simp only [orderly, hw, hl, hfound w hv r.1 r.2 hl, beq_self_eq_true]
  | range hnone =>
    rcases hwhole with ⟨v, hv, hplace⟩ | hnil
    · exact absurd (decide_eq_true hplace) (List.find?_eq_none.1 hnone v hv)
    · rw [hnil]
      exact ⟨[], .nil⟩

/-! ### gdr_map_v2 -/

theorem roundedSize_ofNat (g : Gdr) (size : Nat) :
    roundedSize g (BitVec.ofNat 64 size).toNat = roundedSize g size := by
  unfold roundedSize u64
  rw [BitVec.toNat_ofNat, Nat.add_mod_mod]

/-- The driver grants a mapping type only to an mr that is not mapped. -/
theorem req_unmapped {info : Info} {mr : Mr} (hn : mh.Names s info mr) (hok : FilesOk P s.kernel.files s.kernel.fresh)
    (hv : GDRDRV_MINIMUM_VERSION_WITH_REQ_MAPPING_TYPE ≤ s.gdr.gdrdrv_version) {flags : Nat}
    (h : reqMappingType P s mh flags = .ok (0, s')) : gdr_mr_is_mapped mr = false := by
  unfold reqMappingType at h
  rw [if_pos hv] at h
  generalize hx : ioctlOn P s mh _ = x at h
  cases x with
  | error e => cases h
  | ok x =>
    obtain ⟨r, s1⟩ := x
    obtain ⟨hret, rfl⟩ := Prod.mk.inj (Except.ok.inj h)
    obtain ⟨k, hk, rfl⟩ := ioctlOn_inv hx
    have hzero : r.ret = 0 := by
      have : -r.ret = 0 := hret
      omega
    rcases ioctl_inv hn.file (by simp) hk with ⟨rfl, -⟩ | ⟨-, hk⟩
    · exact absurd hzero (by decide)
    · dsimp only [ioctlSwitch, gdrdrv_req_mapping_type] at hk
      rw [if_neg (by simp), hn.search hok] at hk
      split at hk
      · obtain ⟨rfl, -⟩ := Prod.mk.inj (Except.ok.inj hk)
        exact absurd hzero (by decide)
      · obtain ⟨rfl, -⟩ := Prod.mk.inj (Except.ok.inj hk)
        by_contra hmap
        have hbusy : ∀ t, (reqLocked P mr t).1 = -EBUSY := by
          intro t
          rw [reqLocked, if_pos (by simpa using hmap)]
        rw [Reply.err, hbusy] at hzero
        exact absurd hzero (by decide)

theorem mmapOn_orderly {s0 : Session} {info : Info} {mr m : Mr} (h : Stage s0 info mr [] m s) (hn : mh.Names s0 info mr)
    (hok : FilesOk P s0.kernel.files s0.kernel.fresh) (hg : s0.gdr.Suits P) (hm : gdr_mr_is_mapped m = false)
    {env : RemapEnv} {start size : Nat} {r : Reply} (hr : mmapOn P s mh env start size = .ok (r, s')) :
    ∃ os, OrderlyPath P s.kernel os s'.kernel := by
  have hoff : (magicOff s.gdr mh).toNat >>> P.PAGE_SHIFT = mh.handle := by
    rw [h.gdr]
    exact magicOff_handle hg hn.lt
  unfold mmapOn at hr
  generalize hx : sysMmap P env _ _ _ _ _ _ = x at hr
  cases x with
  | error e => cases hr
  | ok x =>
    obtain ⟨r1, k⟩ := x
    obtain ⟨rfl, rfl⟩ := Prod.mk.inj (Except.ok.inj hr)
    refine ⟨_, .one ⟨?_, _, .mmap hx⟩⟩
    cases hreg : mmapRegion P s.kernel s.gdr.fd start (roundedSize s.gdr size) (magicOff s.gdr mh) with
    | error e => simp only [orderly, hreg]
    | ok vma =>
      obtain ⟨-, -, -, -, -, -, -, -, hpg, -⟩ := mmapRegion_ok hreg
      rw [hoff] at hpg
      have hhandle : m.handle = mh.handle := h.handle.trans hn.handle
      simp only [orderly, hreg, h.file, hpg, h.search hn hok, hm, hhandle, Bool.not_false, beq_self_eq_true,
        Bool.and_self, Bool.or_true]

theorem checkMapped_kernel {flags : Nat} {ret : Int} (h : checkMapped P s mh flags = .ok (ret, s')) :
    ∃ s1 status out, gdr_get_info_v2 P s mh = .ok (status, out, s1) ∧ s'.kernel = s1.kernel ∧ (ret ≠ 0 → s' = s1) := by
  unfold checkMapped at h
  generalize hx : gdr_get_info_v2 P s mh = x at h
  cases x with
  | error e => cases h
  | ok x =>
    obtain ⟨status, out, s1⟩ := x
    refine ⟨s1, status, out, rfl, ?_⟩
    simp only [bind, Except.bind] at h
    split at h
    · cases h
      exact ⟨rfl, fun _ => rfl⟩
    · split at h
      · cases h
        exact ⟨rfl, fun _ => rfl⟩
      split at h
      · cases h
        exact ⟨rfl, fun _ => rfl⟩
      · cases h
        exact ⟨rfl, fun h0 => absurd rfl h0⟩

theorem reqMappingType_orderly {flags : Nat} {status : Int} (h : reqMappingType P s mh flags = .ok (status, s')) :
    ∃ os, OrderlyPath P s.kernel os s'.kernel := by
  unfold reqMappingType at h
  split at h
  · obtain ⟨⟨r, s1⟩, hx, he⟩ := map_ok h
    obtain ⟨-, rfl⟩ := Prod.mk.inj he
    exact ioctlOn_orderly hx
  · cases h
    exact ⟨[], .nil⟩

/-- The flags that `gdr_map_v2` accepts are the codes of the mapping types. -/
theorem code_of_lt {flags : Nat} (h : flags < 4) : ∃ t : MrType, t.code = flags := by
  match flags, h with
  | 0, _ => exact ⟨.NONE, rfl⟩
  | 1, _ => exact ⟨.WC, rfl⟩
  | 2, _ => exact ⟨.CACHING, rfl⟩
  | 3, _ => exact ⟨.DEVICE, rfl⟩
  | n + 4, hlt => exact absurd hlt (by omega)

/-- The region that the error exit takes away is the one that the `mmap` has added. -/
theorem undo_orderly {s0 : Session} {info : Info} {mr m : Mr} {start : Nat} {size : BitVec 64} {v : Vma}
    (h : Stage s0 info mr [v] m s) (hn : mh.Names s0 info mr) (hok : FilesOk P s0.kernel.files s0.kernel.fresh)
    (hv : Adds P s0 mh start size v) (hwf : Wf P s.kernel) :
    ∃ os, OrderlyPath P s.kernel os
      (munmapOn P s mh .undo wholeEnv (start * P.PAGE_SIZE) (roundedSize s.gdr size.toNat)).2.kernel := by
  obtain ⟨w, rest, -, hw, -, hfind, hl⟩ := h.found hn hok hv
  have hplace := List.find?_some hfind
  have hpgoff : w.vm_pgoff = v.vm_pgoff := (congrArg Vma.vm_pgoff hw :)
  rw [munmapOn_kernel]
  refine munmap_orderly wholeEnv hwf (.inl ⟨w, List.mem_of_find?_eq_some hfind, of_decide_eq_true hplace⟩)
    fun u hu i m' hlu => ?_
  obtain rfl := Option.some.inj (hfind.symm.trans hu)
  obtain ⟨-, rfl⟩ := Prod.mk.inj (Option.some.inj (hl.symm.trans hlu))
  rw [hpgoff, hv.vm_pgoff, h.handle, hn.handle]

theorem map_orderly {info : Info} {mr : Mr} (hn : mh.Names s info mr) (hwf : Wf P s.kernel) (hg : s.gdr.Suits P)
    (hver : s.gdr.gdrdrv_version = GDRDRV_VERSION) {env : RemapEnv} {start size flags : Nat} {ret : Int}
    {va : Option Nat} (h : gdr_map_v2 P s mh env start size flags = some (ret, va, s')) :
    ∃ os, OrderlyPath P s.kernel os s'.kernel := by
  have hok := hwf.files
  unfold gdr_map_v2 at h
  split at h
  · cases h
    exact ⟨[], .nil⟩
  split at h
  · cases h
    exact ⟨[], .nil⟩
  next hflags =>
  obtain ⟨t, ht⟩ := code_of_lt (show flags < 4 by omega)
  obtain ⟨⟨status, s1⟩, h1, h⟩ := Option.bind_eq_some_iff.1 h
  have h1 := toOption_ok h1
  obtain ⟨os1, p1⟩ := reqMappingType_orderly h1
  dsimp only at h
  split at h
  · cases h
    exact ⟨os1, p1⟩
  next hstatus =>
  obtain rfl : status = 0 := not_not.1 hstatus
  -- The request has been granted, so the mr that the `mmap` finds is not mapped.
  have hunmapped := req_unmapped hn hok (by rw [hver]; decide) h1
  rw [← ht] at h1
  obtain ⟨m, st1, hcpu⟩ := (Stage.start hn hok).req hn hok h1
  have hm : gdr_mr_is_mapped m = false := by
    unfold gdr_mr_is_mapped
    rw [hcpu]
    exact hunmapped
  obtain ⟨⟨r, s2⟩, h2, h⟩ := Option.bind_eq_some_iff.1 h
  have h2 := toOption_ok h2
  obtain ⟨os2, p2⟩ := mmapOn_orderly st1 hn hok hg hm h2
  dsimp only at h
  split at h
  · cases h
    exact ⟨_, p1.append p2⟩
  next hr =>
  obtain ⟨⟨status3, s3⟩, h3, h⟩ := Option.bind_eq_some_iff.1 h
  obtain ⟨s3', status, out, hinfo, hkernel, hsame⟩ := checkMapped_kernel (toOption_ok h3)
  obtain ⟨os3, p3⟩ := info_orderly hinfo
  rw [← hkernel] at p3
  dsimp only at h
  split at h
  swap
  · cases h
    exact ⟨_, (p1.append p2).append p3⟩
  next hstatus3 =>
  obtain rfl := hsame hstatus3
  cases h
  have hsize : roundedSize s1.gdr (BitVec.ofNat 64 size).toNat = roundedSize s1.gdr size := roundedSize_ofNat _ size
  have h2' : mmapOn P s1 mh env start (BitVec.ofNat 64 size).toNat = .ok (r, s2) := by
    rw [mmapOn, hsize]
    exact h2
  rcases st1.mmap hn hok hg h2' with ⟨hne, -⟩ | ⟨-, -, hproc, v, hadds, st2⟩
  · exact absurd hne hr
  obtain ⟨cmd, r', i, rfl, -, hcall, -⟩ := st2.get_info hn hok hproc hinfo
  have st3 : Stage s info mr [v] (m.through P s.gdr.fd v.id) (s2.log mh (.ioctl cmd)) :=
    st2.same rfl rfl rfl rfl (Nat.le_refl _)
  have hwf3 : Wf P (s2.log mh (.ioctl cmd)).kernel := OrderlyPath.wf (p1.append p2) hwf
  obtain ⟨os4, p4⟩ := undo_orderly st3 hn hok hadds hwf3
  rw [roundedSize_ofNat] at p4
  exact ⟨_, ((p1.append p2).append p3).append p4⟩

/-- The region that the thread unmaps finds the mr that its `gdr_mh_t` names. -/
theorem unmap_orderly {info : Info} {mr : Mr} (hn : mh.Names s info mr) (hwf : Wf P s.kernel) {env : MunmapEnv}
    {va size : Nat} (hmine : ∀ v ∈ s.kernel.vmas, v.vm_file = s.gdr.fd → v.vm_start = va →
      v.vm_end = va + roundedSize s.gdr size → v.vm_pgoff = mh.handle)
    (hwhole : (∃ v ∈ s.kernel.vmas, v.vm_file = s.gdr.fd ∧ v.vm_start = va ∧ v.vm_end = va + roundedSize s.gdr size) ∨
      cutsOf P s.kernel s.gdr.fd env va (roundedSize s.gdr size) = []) :
    ∃ os, OrderlyPath P s.kernel os (gdr_unmap P s mh env va size).2.kernel := by
  unfold gdr_unmap
  split
  · exact ⟨[], .nil⟩
  · have hkernel : ∀ r : Int × Session, (if r.1 ≠ 0 then (r.1, r.2)
        else (0, r.2.setType mh GDR_MAPPING_TYPE_NONE)).2.kernel = r.2.kernel := by
      intro r
      split <;> rfl
    rw [hkernel, munmapOn_kernel]
    refine munmap_orderly env hwf hwhole fun v hv info' mr' hl => ?_
    have hplace : v.vm_file = s.gdr.fd ∧ v.vm_start = va ∧ v.vm_end = va + roundedSize s.gdr size := by
      simpa using List.find?_some hv
    have hpgoff := hmine v (List.mem_of_find?_eq_some hv) hplace.1 hplace.2.1 hplace.2.2
    have hlookup : s.kernel.lookup v.vm_file v.vm_pgoff = some (info, mr) := by
      rw [hplace.1, hpgoff, Kernel.lookup, hn.file]
      exact congrArg (Option.map _) (hn.search hwf.files)
    rw [hlookup] at hl
    obtain ⟨-, rfl⟩ := Prod.mk.inj (Option.some.inj hl)
    rw [hpgoff, hn.handle]

end

/-- A call that honours the contract uses the driver in an orderly way. -/
theorem Call.orderly {s s' : Session} {c : Call} {ret : Int} (hb : Base P s) (hl : Linked P s) (hwf : Wf P s.kernel)
    (hh : c.Honours P s) (h : c.run P s = some (ret, s')) :
    ∃ os, OrderlyPath P s.kernel os s'.kernel := by
  have found : ∀ {mh : Nat} {f : Memh → Option (Int × Session)}, c.mh = some mh →
      (do let m ← s.gdr.memhs.find? (·.ptr = mh); f m) = some (ret, s') →
      ∃ m info mr, m ∈ s.gdr.memhs ∧ m.ptr = mh ∧ f m = some (ret, s') ∧ m.Names s info mr := by
    intro mh f hmh hr
    obtain ⟨m, hm, hr⟩ := Option.bind_eq_some_iff.1 hr
    have hptr : m.ptr = mh := by simpa using List.find?_some hm
    have hmem := List.mem_of_find?_eq_some hm
    obtain ⟨info, mr, hn, -⟩ := hl.names hb hmem (hptr ▸ hh.fits mh hmh)
    exact ⟨m, info, mr, hmem, hptr, hr, hn⟩
  cases c with
  | pin_buffer =>
    obtain ⟨⟨_, _, s1⟩, hr, he⟩ := Option.map_eq_some_iff.1 h
    cases he
    exact pin_buffer_orderly (toOption_ok hr)
  | pin_buffer_v2 =>
    obtain ⟨⟨_, _, s1⟩, hr, he⟩ := Option.map_eq_some_iff.1 h
    cases he
    exact pin_buffer_v2_orderly (toOption_ok hr)
  | unpin_buffer mh env =>
    obtain ⟨m, _, _, -, -, hr, -⟩ := found rfl h
    exact unpin_orderly (toOption_ok hr)
  | get_callback_flag mh =>
    obtain ⟨m, _, _, -, -, hr, -⟩ := found rfl h
    obtain ⟨⟨_, _, s1⟩, hr1, he⟩ := Option.map_eq_some_iff.1 hr
    cases he
    exact flag_orderly (toOption_ok hr1)
  | get_info_v2 mh =>
    obtain ⟨m, _, _, -, -, hr, -⟩ := found rfl h
    obtain ⟨⟨_, _, s1⟩, hr1, he⟩ := Option.map_eq_some_iff.1 hr
    cases he
    exact info_orderly (toOption_ok hr1)
  | map_v2 mh env start size flags =>
    obtain ⟨m, _, _, -, -, hr, hn⟩ := found rfl h
    obtain ⟨⟨_, _, s1⟩, hr1, he⟩ := Option.map_eq_some_iff.1 hr
    cases he
    exact map_orderly hn hwf hb.suits hb.version hr1
  | unmap mh env va size =>
    obtain ⟨m, _, _, hm, hptr, hr, hn⟩ := found rfl h
    have he : s' = (gdr_unmap P s m env va size).2 := congrArg Prod.snd (Option.some.inj hr).symm
    rw [he]
    exact unmap_orderly hn hwf (hh.unmap mh env va size rfl m hm hptr) (hh.whole mh env va size rfl)

theorem open_orderly {k : Kernel} {cur : Nat} {kzalloc : Bool} {s : Session} (h : gdr_open P k cur kzalloc = some s) :
    ∃ os, OrderlyPath P k os s.kernel := by
  unfold gdr_open at h
  dsimp only at h
  split at h
  · cases h
  split at h
  · next hv =>
    split at h
    · cases h
    · cases h
      refine ⟨[.openFile 0 cur kzalloc, .ioctl k.fresh cur (.get_version true)], .cons ⟨rfl, _, .openFile⟩ ?_⟩
      exact ioctl_orderly hv
  · cases h

/-- What a run that honours the contract has done to the driver. -/
theorem ContractRun.orderly {s : Session} {cs : List (Option Call)} (h : ContractRun P s cs) :
    ∃ os, OrderlyRun P s.kernel os := by
  induction h with
  | start h =>
    obtain ⟨k, cur, kzalloc, os, hr, ho⟩ := h
    obtain ⟨os', hp⟩ := open_orderly ho
    exact ⟨os ++ os', hr.path hp⟩
  | next hr ht ih =>
    obtain ⟨os, ih⟩ := ih
    cases ht with
    | call hh hc =>
      have hi := Run.inv (ContractRun.run hr)
      obtain ⟨os', hp⟩ := Call.orderly hi.base (hi.linked (ContractRun.fits hr)) (orderly_tracks ih).1 hh hc
      exact ⟨os ++ os', ih.path hp⟩
    | other hok _ ho => exact ⟨_, ih.next ⟨hok, ho⟩⟩

/-- While a thread unmaps only what it has mapped for the same `gdr_mh_t`, and the rest of the system uses
the driver in an orderly way too, no translation outlives the page table that it came from. -/
theorem library_no_stale {s : Session} {cs : List (Option Call)} (h : ContractRun P s cs) :
    NoStale s.kernel ∧ ∃ os, OrderlyRun P s.kernel os := by
  obtain ⟨os, hr⟩ := ContractRun.orderly h
  exact ⟨orderly_no_stale hr, os, hr⟩

end

/-! ## A run -/

/-- `Call.Honours` as a check. -/
def Call.honours (P : Platform) (s : Session) (c : Call) : Bool :=
  (c.mh.bind s.pins).all (fun pin => pin.before < 2 ^ 32) &&
    match c with
    | .unmap mh env va size =>
      let here (v : Vma) : Bool := v.vm_file = s.gdr.fd ∧ v.vm_start = va ∧ v.vm_end = va + roundedSize s.gdr size
      (s.gdr.memhs.all fun m => m.ptr != mh || s.kernel.vmas.all fun v => !here v || v.vm_pgoff == m.handle) &&
        (s.kernel.vmas.any here || (cutsOf P s.kernel s.gdr.fd env va (roundedSize s.gdr size)).isEmpty)
    | _ => true

theorem Call.honours_spec {P : Platform} {s : Session} {c : Call} (h : c.honours P s = true) : c.Honours P s := by
  obtain ⟨hfits, hunmap⟩ := (Bool.and_eq_true _ _).mp h
  refine ⟨fun mh hmh pin hpin => ?_, fun mh env va size he m hm hp v hv hf hs hend => ?_, fun mh env va size he => ?_⟩
  · have hbind : c.mh.bind s.pins = some pin := by rw [hmh, Option.bind_some, hpin]
    rw [hbind] at hfits
    exact of_decide_eq_true hfits
  · subst he
    have hor := (Bool.or_eq_true _ _).mp (List.all_eq_true.1 ((Bool.and_eq_true _ _).mp hunmap).1 m hm)
    have hor := (Bool.or_eq_true _ _).mp (List.all_eq_true.1 (hor.resolve_left (by simp [hp])) v hv)
    exact beq_iff_eq.1 (hor.resolve_left (by simp [hf, hs, hend]))
  · subst he
    refine ((Bool.or_eq_true _ _).mp ((Bool.and_eq_true _ _).mp hunmap).2).imp (fun hany => ?_) List.isEmpty_iff.1
    obtain ⟨v, hv, hplace⟩ := List.any_eq_true.1 hany
    exact ⟨v, hv, of_decide_eq_true hplace⟩

/-- Make the calls in turn, while they honour the contract. -/
def runHonest (P : Platform) (s : Session) : List Call → Option Session
  | [] => some s
  | c :: cs => if c.honours P s then (c.run P s).bind fun r => runHonest P r.2 cs else none

theorem runHonest_path {P : Platform} {s : Session} (cs : List Call) : ∀ s0, runHonest P s0 cs = some s →
    Runs.Path (ContractStep P) s0 (cs.map some) s := by
  induction cs with
  | nil =>
    intro s0 h
    rw [Option.some.inj h]
    exact .nil
  | cons c cs ih =>
    intro s0 h
    unfold runHonest at h
    split at h
    · next hh =>
      obtain ⟨⟨ret, s1⟩, hc, h⟩ := Option.bind_eq_some_iff.1 h
      exact .cons (.call (Call.honours_spec hh) hc) (ih s1 h)
    · cases h

/-- A buffer is mapped, unmapped, mapped again and unpinned. -/
def mapTwice : List Call :=
  [pinCall 0x10000 0x10000 [0x30000], .map_v2 0 mapSecond.remapAll 0x1000 0x10000 0,
    .unmap 0 wholeEnv 0x1000000 0x10000, .map_v2 0 mapSecond.remapAll 0x2000 0x10000 0, .unpin_buffer 0 ⟨false, 0⟩]

/-- The second region is still there, with no translation. -/
theorem library_no_stale_mapTwice : ∃ s0 s, gdr_open x86Host init 7 true = some s0 ∧
    runHonest x86Host s0 mapTwice = some s ∧ s.kernel.vmas.map (fun v => (v.vm_start, v.ptes)) = [(0x2000000, [])] ∧
    NoStale s.kernel ∧ ∃ os, OrderlyRun x86Host s.kernel os := by
  obtain ⟨s0, h0, h⟩ : ∃ s0, gdr_open x86Host init 7 true = some s0 ∧ ((runHonest x86Host s0 mapTwice).any fun s =>
      s.kernel.vmas.map (fun v => (v.vm_start, v.ptes)) = [(0x2000000, [])]) = true :=
    Option.any_eq_true _ _ |>.1 (by decide +kernel)
  obtain ⟨s, hs, h⟩ := Option.any_eq_true _ _ |>.1 h
  have hr : ContractRun x86Host s0 [] := .start ⟨init, 7, true, [], .start rfl, h0⟩
  exact ⟨s0, s, h0, hs, of_decide_eq_true h, library_no_stale (hr.path (runHonest_path mapTwice s0 hs))⟩

end gdrapi
