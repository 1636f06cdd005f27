import GdrCopy.Api.Gdrapi
import GdrCopy.Driver.Faults
/-!
# A pin that fails

A pin that cannot deliver its handle unpins the buffer again, and the free callback
may run before it gets that far. `failed_pin_leaves`: whatever fails, and wherever the
callback of that pin runs, the driver and the library are as they were but for the
counters that handles come from.
-/

namespace gdrdrv

/-! ## Where the callback of a pin runs -/

section
variable (P : Platform)

/-- The callback of the mr that has just been listed, where callbacks are registered. -/
def newCallback (s : Kernel) (f : Nat) : Except Fault Kernel :=
  match s.files f with
  | none => .ok s
  | some info =>
    match info.mr_list with
    | [] => .ok s
    | mr :: _ => if P.gdr_use_persistent_mapping then .ok s else nvCallback P s f info mr

/-- `pinReply` when the callback of a pin that succeeded runs before anything else, if `between`. -/
def pinReplyPlaced (between ctu : Bool) (env : PutEnv) (f : Nat) (r : Int × Nat × Kernel) :
    Except Fault (Reply × Kernel) :=
  if r.1 = 0 ∧ between = true then
    match newCallback P r.2.2 f with
    | .error e => .error e
    | .ok s => pinReply P ctu env f (r.1, r.2.1, s)
  else pinReply P ctu env f r

def gdrdrv_pin_buffer_placed (between cfu ctu : Bool) (env : PinEnv) (unpin : PutEnv) (s : Kernel)
    (f : Nat) (info : Info) (addr size p2p_token : BitVec 64) (va_space : BitVec 32) :
    Except Fault (Reply × Kernel) := do
  if !cfu then .ok (.err (-EFAULT), s)
  else if addr = 0 then .ok (.err (-EINVAL), s)
  else
    let r ← __gdrdrv_pin_buffer P env s f info addr.toNat size.toNat p2p_token.toNat va_space.toNat
      GDRDRV_PIN_BUFFER_FLAG_DEFAULT
    pinReplyPlaced P between ctu unpin f r

def gdrdrv_pin_buffer_v2_placed (between cfu ctu : Bool) (env : PinEnv) (unpin : PutEnv) (s : Kernel)
    (f : Nat) (info : Info) (addr size : BitVec 64) (flags : BitVec 32) : Except Fault (Reply × Kernel) := do
  if !cfu then .ok (.err (-EFAULT), s)
  else if addr = 0 then .ok (.err (-EINVAL), s)
  else if flags &&& ~~~(BitVec.ofNat 32 (GDRDRV_PIN_BUFFER_FLAG_DEFAULT ||| GDRDRV_PIN_BUFFER_FLAG_FORCE_PCIE)) ≠ 0 then
    .ok (.err (-EINVAL), s)
  else
    let r ← __gdrdrv_pin_buffer P env s f info addr.toNat size.toNat 0 0 flags.toNat
    pinReplyPlaced P between ctu unpin f r

/-- `gdrdrv_ioctl` for the two pins. -/
def pinIoctl (between : Bool) (s : Kernel) (f cur : Nat) (cmd : Cmd) : Except Fault (Reply × Kernel) :=
  match s.files f with
  | none => .ok (.err (-EIO_), s)
  | some info =>
    if !gdrdrv_check_same_process info cur then .ok (.err (-EACCES), s)
    else
      match cmd with
      | .pin_buffer cfu ctu env unpin addr size p2p_token va_space =>
        gdrdrv_pin_buffer_placed P between cfu ctu env unpin s f info addr size p2p_token va_space
      | .pin_buffer_v2 cfu ctu env unpin addr size flags =>
        gdrdrv_pin_buffer_v2_placed P between cfu ctu env unpin s f info addr size flags
      | _ => .ok (.err (-ENOTTY), s)

end

/-- `put_pages` succeeds unless the callback has run. -/
def Cmd.PutsBack : Cmd → Prop
  | .pin_buffer _ _ env unpin _ _ _ _ => env.put.status = 0 ∧ unpin.status = 0
  | .pin_buffer_v2 _ _ env unpin _ _ _ => env.put.status = 0 ∧ unpin.status = 0
  | _ => True

/-- File `f` and everything else is in `s'` as in `s`, but for the counters its handles come from. -/
structure LeavesNothing (s s' : Kernel) (f : Nat) : Prop where
  file : (s'.files f).map (fun info => (info.mr_list, info.tgid)) = (s.files f).map fun info =>
    (info.mr_list, info.tgid)
  others : ∀ g, g ≠ f → s'.files g = s.files g
  vmas : s'.vmas = s.vmas
  refcount : s'.gdrdrv_nv_get_pages_refcount = s.gdrdrv_nv_get_pages_refcount

theorem LeavesNothing.refl (s : Kernel) (f : Nat) : LeavesNothing s s f := ⟨rfl, fun _ _ => rfl, rfl, rfl⟩

section
variable {P : Platform}

/-- With no callback in between it is the driver's ioctl. -/
theorem pinIoctl_false {s : Kernel} {f cur : Nat} {cmd : Cmd} {q : PinRequest} (hq : cmd.request = some q) :
    pinIoctl P false s f cur cmd = gdrdrv_ioctl P s f cur cmd := by
  have hreply : ∀ ctu env f r, pinReplyPlaced P false ctu env f r = pinReply P ctu env f r := fun ctu env f r =>
    if_neg fun h => by cases h.2
  unfold pinIoctl gdrdrv_ioctl
  cases cmd with
  | pin_buffer cfu ctu env unpin addr size tok va =>
    dsimp only [ioctlSwitch]
    simp only [gdrdrv_pin_buffer_placed, hreply]
    rfl
  | pin_buffer_v2 cfu ctu env unpin addr size flags =>
    dsimp only [ioctlSwitch]
    simp only [gdrdrv_pin_buffer_v2_placed, hreply]
    rfl
  | _ => cases hq

/-! ## Giving the page table back -/

/-- The callback of an mr that is not mapped takes its page table back. -/
theorem callback_unmapped {mr : Mr} {pt : PageTable} (hm : gdr_mr_is_mapped mr = false) (hpt : mr.page_table = some pt)
    (vmas : List Vma) (n : Int) : gdrdrv_get_pages_free_callback P mr vmas n =
      .ok ({ mr with cb_flag := true, page_table := none }, vmas, n - 1) := by
  unfold gdrdrv_get_pages_free_callback
  rw [hpt]
  dsimp only
  have hflag : gdr_mr_is_mapped { mr with cb_flag := true, page_table := some pt } ≠ true := by
    have hsame : gdr_mr_is_mapped { mr with cb_flag := true, page_table := some pt } = gdr_mr_is_mapped mr := rfl
    rw [hsame, hm]
    exact Bool.false_ne_true
  rw [if_neg hflag]

/-- Freeing an mr that is not mapped gives its page table back, by `put_pages` or in the callback. -/
theorem free_puts {env : PutEnv} {mr : Mr} {vmas vmas' : List Vma} {n n' : Int} (hm : gdr_mr_is_mapped mr = false)
    (hput : env.status = 0) (h : gdr_free_mr_unlocked P env mr vmas n = .ok (vmas', n')) :
    vmas' = vmas ∧ n' = if mr.page_table.isSome then n - 1 else n := by
  refine ⟨free_unmapped hm h, ?_⟩
  unfold gdr_free_mr_unlocked at h
  rw [if_neg (by simp [hm])] at h
  cases hpt : mr.page_table with
  | none =>
    rw [hpt] at h
    exact (Prod.mk.inj (Except.ok.inj h)).2.symm
  | some pt =>
    rw [hpt] at h
    dsimp only at h
    rw [callback_unmapped hm hpt, if_pos hput] at h
    split at h
    · exact (Prod.mk.inj (Except.ok.inj h)).2.symm
    · exact (Prod.mk.inj (Except.ok.inj h)).2.symm

/-- A pin that fails leaves the driver as it was. -/
theorem PinFailed.leaves {env : PinEnv} {s s' : Kernel} {ret : Int} {h : Nat} (hp : PinFailed P env s ret h s')
    (hput : env.put.status = 0) (f : Nat) : LeavesNothing s s' f := by
  have fails : ∀ {mr : Mr} {s0 : Kernel}, gdr_mr_is_mapped mr = false → pinFail P env.put mr s0 ret = .ok (ret, h, s') →
      s'.files = s0.files ∧ s'.vmas = s0.vmas ∧ s'.gdrdrv_nv_get_pages_refcount =
        if mr.page_table.isSome then s0.gdrdrv_nv_get_pages_refcount - 1 else s0.gdrdrv_nv_get_pages_refcount := by
    intro mr s0 hm hf
    refine ⟨(pinFail_cases hm hf).2.1, (pinFail_cases hm hf).2.2.1, ?_⟩
    unfold pinFail at hf
    generalize hfree : gdr_free_mr_unlocked P env.put mr s0.vmas s0.gdrdrv_nv_get_pages_refcount = x at hf
    cases x with
    | error e => cases hf
    | ok x =>
      obtain ⟨vmas, n⟩ := x
      simp only [bind, Except.bind, Except.ok.injEq, Prod.mk.injEq] at hf
      obtain ⟨-, -, rfl⟩ := hf
      exact (free_puts hm hput hfree).2
  cases hp with
  | kmalloc hs => exact hs ▸ .refl s f
  | early hpt hm hf =>
    obtain ⟨h1, h2, h3⟩ := fails hm hf
    rw [hpt] at h3
    exact ⟨by rw [h1], fun g _ => by rw [h1], h2, h3⟩
  | late hpt hm hf =>
    obtain ⟨h1, h2, h3⟩ := fails hm hf
    rw [hpt] at h3
    exact ⟨by rw [h1], fun g _ => by rw [h1], h2, h3.trans (Int.add_sub_cancel _ _)⟩

/-! ## Undoing a pin -/

/-- The driver right after a pin of file `f` has succeeded. -/
structure JustPinned (s s1 : Kernel) (f : Nat) (info info' : Info) (mr : Mr) (pt : PageTable) : Prop where
  file : s.files f = some info
  list : info'.mr_list = info.mr_list
  tgid : info'.tgid = info.tgid
  ptr : ∀ m ∈ info.mr_list, m.ptr ≠ mr.ptr
  unmapped : gdr_mr_is_mapped mr = false
  page_table : mr.page_table = some pt
  after : s1 = { s.setFile f (some (info'.list_add mr)) with
    fresh := s1.fresh, gdrdrv_nv_get_pages_refcount := s.gdrdrv_nv_get_pages_refcount + 1 }

/-- Unpinning the mr at the head of the list. -/
theorem unpin_head {env : PutEnv} {s s' : Kernel} {f : Nat} {info : Info} {mr : Mr} {ret : Int}
    (hm : gdr_mr_is_mapped mr = false) (hput : env.status = 0)
    (h : __gdrdrv_unpin_buffer P env s f (info.list_add mr) mr.handle = .ok (ret, s')) :
    s'.files = Function.update s.files f (some ((info.list_add mr).list_del mr)) ∧ s'.vmas = s.vmas ∧
      s'.gdrdrv_nv_get_pages_refcount =
        if mr.page_table.isSome then s.gdrdrv_nv_get_pages_refcount - 1 else s.gdrdrv_nv_get_pages_refcount := by
  have hs : gdr_mr_from_handle_unlocked (info.list_add mr) mr.handle = some mr := if_pos rfl
  rw [unpin_eq hs, zapIfMapped_unmapped hm] at h
  simp only [bind, Except.bind] at h
  generalize hfree : gdr_free_mr_unlocked P env mr s.vmas s.gdrdrv_nv_get_pages_refcount = x at h
  cases x with
  | error e => cases h
  | ok x =>
    obtain ⟨vmas, n⟩ := x
    obtain ⟨hvmas, hn⟩ := free_puts hm hput hfree
    obtain ⟨-, rfl⟩ := Prod.mk.inj (Except.ok.inj h)
    exact ⟨rfl, hvmas, hn⟩

theorem list_del_add {info : Info} {mr : Mr} (h : ∀ m ∈ info.mr_list, m.ptr ≠ mr.ptr) :
    ((info.list_add mr).list_del mr).mr_list = info.mr_list := by
  simp only [Info.list_add, Info.list_del, ne_eq, List.filter_cons, not_true, decide_false,
    Bool.false_eq_true, if_false]
  exact List.filter_eq_self.2 fun m hm => by simpa using h m hm

/-- A handle that cannot be delivered takes its mr along. -/
theorem JustPinned.undo {s s1 s2 s' : Kernel} {f : Nat} {info info' : Info} {mr mr2 : Mr} {pt : PageTable}
    {env : PutEnv} {r : Reply} (hj : JustPinned s s1 f info info' mr pt)
    (hfile : s2.files = Function.update s.files f (some (info'.list_add mr2))) (hvmas : s2.vmas = s.vmas)
    (hptr : mr2.ptr = mr.ptr) (hhandle : mr2.handle = mr.handle) (hm : gdr_mr_is_mapped mr2 = false)
    (hn : s2.gdrdrv_nv_get_pages_refcount =
      if mr2.page_table.isSome then s.gdrdrv_nv_get_pages_refcount + 1 else s.gdrdrv_nv_get_pages_refcount)
    (hput : env.status = 0) (h : pinReply P false env f (0, mr.handle, s2) = .ok (r, s')) : LeavesNothing s s' f := by
  have hf : s2.files f = some (info'.list_add mr2) := by rw [hfile, Function.update_self]
  unfold pinReply at h
  rw [if_neg (by simp), if_neg (by simp)] at h
  dsimp only at h
  rw [hf] at h
  dsimp only at h
  rw [← hhandle] at h
  generalize hu : __gdrdrv_unpin_buffer P env s2 f (info'.list_add mr2) mr2.handle = u at h
  cases u with
  | error e => cases h
  | ok u =>
    obtain ⟨ret, s3⟩ := u
    obtain ⟨-, rfl⟩ := Prod.mk.inj (Except.ok.inj h)
    obtain ⟨h1, h2, h3⟩ := unpin_head hm hput hu
    have hlist : ((info'.list_add mr2).list_del mr2).mr_list = info.mr_list := by
      rw [list_del_add (by rw [hj.list, hptr]; exact hj.ptr), hj.list]
    refine ⟨?_, fun g hg => ?_, h2.trans hvmas, ?_⟩
    · rw [h1, Function.update_self, hj.file, Option.map_some, Option.map_some, hlist]
      exact congrArg (fun t => some (info.mr_list, t)) hj.tgid
    · rw [h1, Function.update_of_ne hg, hfile, Function.update_of_ne hg]
    · rw [h3, hn]
      split
      · exact Int.add_sub_cancel _ _
      · rfl

/-- A pin that succeeded and is not delivered leaves the driver as it was, wherever the callback ran. -/
theorem JustPinned.leaves {s s1 s' : Kernel} {f : Nat} {info info' : Info} {mr : Mr} {pt : PageTable}
    {env : PutEnv} {r : Reply} {between ctu : Bool} (hj : JustPinned s s1 f info info' mr pt) (hput : env.status = 0)
    (h : pinReplyPlaced P between ctu env f (0, mr.handle, s1) = .ok (r, s')) (hr : r.ret ≠ 0) :
    LeavesNothing s s' f := by
  have delivered : ∀ {s2 : Kernel}, pinReply P true env f (0, mr.handle, s2) = .ok (r, s') → r.ret = 0 := by
    intro s2 h
    rw [pinReply, if_neg (by simp), if_pos rfl] at h
    rw [← (Prod.mk.inj (Except.ok.inj h)).1]
  have hfile : s1.files = Function.update s.files f (some (info'.list_add mr)) := by rw [hj.after]; rfl
  have hplain : pinReply P ctu env f (0, mr.handle, s1) = .ok (r, s') → LeavesNothing s s' f := by
    intro h
    cases ctu with
    | true => exact absurd (delivered h) hr
    | false =>
      refine hj.undo hfile (by rw [hj.after]; rfl) rfl rfl hj.unmapped ?_ hput h
      rw [hj.page_table, hj.after]
      rfl
  unfold pinReplyPlaced at h
  by_cases hb : between = true
  swap
  · rw [if_neg fun h => hb h.2] at h
    exact hplain h
  rw [if_pos ⟨rfl, hb⟩, newCallback] at h
  dsimp only at h
  rw [hfile, Function.update_self] at h
  dsimp only [Info.list_add] at h
  by_cases hp : P.gdr_use_persistent_mapping = true
  · rw [if_pos hp] at h
    exact hplain h
  rw [if_neg hp, nvCallback, callback_unmapped hj.unmapped hj.page_table] at h
  -- The callback has taken the page table, and the mr stays on the list until it is unpinned.
  cases ctu with
  | true => exact absurd (delivered h) hr
  | false =>
    have hlist : (info'.list_add mr).put { mr with cb_flag := true, page_table := none } =
        info'.list_add { mr with cb_flag := true, page_table := none } := by
      have hold : info'.mr_list.map (fun m => if m.ptr = mr.ptr then
          { mr with cb_flag := true, page_table := none } else m) =
          info'.mr_list := by
        rw [hj.list]
        exact (List.map_congr_left fun m hm => if_neg (hj.ptr m hm)).trans (List.map_id' _)
      simp only [Info.put, Info.list_add, List.map_cons, if_true, hold]
    have hfile2 : Function.update s1.files f (some
        ((info'.list_add mr).put { mr with cb_flag := true, page_table := none })) =
        Function.update s.files f (some (info'.list_add { mr with cb_flag := true, page_table := none })) := by
      rw [hlist, hfile, Function.update_idem]
    refine @JustPinned.undo P s s1 _ s' f info info' mr { mr with cb_flag := true, page_table := none } pt env r
      hj ?_ ?_ rfl rfl
      hj.unmapped ?_ hput h
    · exact hfile2
    · exact (show s1.vmas = s.vmas by rw [hj.after]; rfl)
    · have hn : s1.gdrdrv_nv_get_pages_refcount = s.gdrdrv_nv_get_pages_refcount + 1 := by rw [hj.after]
      exact (show s1.gdrdrv_nv_get_pages_refcount - 1 = s.gdrdrv_nv_get_pages_refcount by rw [hn, Int.add_sub_cancel])

/-- The pin is delivered or undone, without a fault. -/
theorem JustPinned.returns {s s1 : Kernel} {f : Nat} {info info' : Info} {mr : Mr} {pt : PageTable} {env : PutEnv}
    {between ctu : Bool} (hj : JustPinned s s1 f info info' mr pt) :
    ∃ x, pinReplyPlaced P between ctu env f (0, mr.handle, s1) = .ok x := by
  have hf : s1.files f = some (info'.list_add mr) := by
    rw [hj.after]
    exact Function.update_self ..
  -- Whatever the callback left of the mr at the head of the list, it is not mapped.
  have undone : ∀ (s2 : Kernel) (mr2 : Mr) (i : Info), s2.files f = some (i.list_add mr2) → mr2.handle = mr.handle →
      gdr_mr_is_mapped mr2 = false → ∃ x, pinReply P ctu env f (0, mr.handle, s2) = .ok x := by
    intro s2 mr2 i hf2 hhandle hm
    unfold pinReply
    rw [if_neg (by simp)]
    cases ctu with
    | true => exact ⟨_, rfl⟩
    | false =>
      have hs : gdr_mr_from_handle_unlocked (i.list_add mr2) mr.handle = some mr2 := by
        rw [← hhandle]
        exact if_pos rfl
      obtain ⟨x, hx⟩ := @free_total P env mr2 hm s2.vmas s2.gdrdrv_nv_get_pages_refcount
      rw [if_neg Bool.false_ne_true]
      dsimp only
      rw [hf2]
      dsimp only
      rw [unpin_eq hs, zapIfMapped_unmapped hm]
      simp only [bind, Except.bind, hx]
      exact ⟨_, rfl⟩
  unfold pinReplyPlaced
  split_ifs with hb
  swap
  · exact undone s1 mr info' hf rfl hj.unmapped
  unfold newCallback
  dsimp only
  rw [hf]
  dsimp only [Info.list_add]
  split_ifs with hp
  · exact undone s1 mr info' hf rfl hj.unmapped
  · rw [nvCallback, callback_unmapped hj.unmapped hj.page_table]
    refine undone _ { mr with cb_flag := true, page_table := none }
      (info'.put { mr with cb_flag := true, page_table := none }) ?_ rfl
      hj.unmapped
    rw [Kernel.setFile]
    dsimp only
    rw [Function.update_self]
    simp only [Info.put, Info.list_add, List.map_cons, if_true]

theorem Pinned.just {q : PinRequest} {s : Kernel} {f : Nat} {info info' : Info} {mr : Mr}
    (hp : Pinned P q s.fresh info mr info') (hok : FilesOk P s.files s.fresh) (hf : s.files f = some info) :
    ∃ pt, JustPinned s { s.setFile f (some (info'.list_add mr)) with
      fresh := s.fresh + 2, gdrdrv_nv_get_pages_refcount :=
      s.gdrdrv_nv_get_pages_refcount + 1 } f info info' mr pt := by
  obtain ⟨tok, va, force, pt, page_size, -, -, -, hmr⟩ := hp.made
  have htgid : info'.tgid = info.tgid := by
    have hg := hp.handle
    unfold gdr_generate_mr_handle at hg
    split at hg
    · cases hg
    · rw [← (Prod.mk.inj (Option.some.inj hg)).2]
  have hptr : mr.ptr = s.fresh := by rw [hmr]; rfl
  refine ⟨{ pt with id := s.fresh + 1 }, hf, hp.list, htgid, fun m hm he => ?_, by rw [hmr]; rfl, by rw [hmr]; rfl, rfl⟩
  have := (hok.mr hf hm).ptr
  omega

/-- A pin ioctl is refused on its arguments, or it pins and replies. -/
theorem pinIoctl_cases {s s' : Kernel} {between : Bool} {f cur : Nat} {cmd : Cmd} {q : PinRequest} {r : Reply}
    (hq : cmd.request = some q) (hput : cmd.PutsBack) (h : pinIoctl P between s f cur cmd = .ok (r, s')) :
    s' = s ∨ ∃ info unpin ctu p, s.files f = some info ∧ q.env.put.status = 0 ∧ unpin.status = 0 ∧
      __gdrdrv_pin_buffer P q.env s f info q.addr q.size q.p2p_token q.va_space q.flags = .ok p ∧
      pinReplyPlaced P between ctu unpin f p = .ok (r, s') := by
  -- The checks before the pin return without a change.
  have refused : ∀ {e : Int}, (Except.ok (Reply.err e, s) : Except Fault (Reply × Kernel)) = .ok (r, s') →
      s' = s := fun hx =>
    (Prod.mk.inj (Except.ok.inj hx)).2.symm
  have pins : ∀ {x : Except Fault (Int × Nat × Kernel)} {k : Int × Nat × Kernel → Except Fault (Reply × Kernel)},
      (x >>= k) = .ok (r, s') → ∃ p, x = .ok p ∧ k p = .ok (r, s') := by
    intro x k hx
    cases x with
    | error e => cases hx
    | ok p => exact ⟨p, rfl, hx⟩
  unfold pinIoctl at h
  cases hf : s.files f with
  | none =>
    rw [hf] at h
    exact .inl (refused h)
  | some info =>
    rw [hf] at h
    dsimp only at h
    by_cases hsame : gdrdrv_check_same_process info cur = true
    swap
    · rw [if_pos (by simp [hsame])] at h
      exact .inl (refused h)
    rw [if_neg (by simp [hsame])] at h
    cases cmd with
    | pin_buffer cfu ctu env unpin a n tok va =>
      cases hq
      simp only [gdrdrv_pin_buffer_placed] at h
      split_ifs at h with h1 h2
      · exact .inl (refused h)
      · exact .inl (refused h)
      · obtain ⟨p, hp, hr⟩ := pins h
        exact .inr ⟨info, unpin, ctu, p, rfl, hput.1, hput.2, hp, hr⟩
    | pin_buffer_v2 cfu ctu env unpin a n flags =>
      cases hq
      simp only [gdrdrv_pin_buffer_v2_placed] at h
      split_ifs at h with h1 h2 h3
      · exact .inl (refused h)
      · exact .inl (refused h)
      · exact .inl (refused h)
      · obtain ⟨p, hp, hr⟩ := pins h
        exact .inr ⟨info, unpin, ctu, p, rfl, hput.1, hput.2, hp, hr⟩
    | _ => cases hq

/-- A pin ioctl that fails leaves the driver as it was. -/
theorem pinIoctl_leaves {s s' : Kernel} {between : Bool} {f cur : Nat} {cmd : Cmd} {q : PinRequest} {r : Reply}
    (hok : FilesOk P s.files s.fresh) (hq : cmd.request = some q) (hput : cmd.PutsBack)
    (h : pinIoctl P between s f cur cmd = .ok (r, s')) (hr : r.ret ≠ 0) : LeavesNothing s s' f := by
  rcases pinIoctl_cases hq hput h with rfl | ⟨info, unpin, ctu, ⟨ret, handle, s1⟩, hf, hput1, hput2, hpin, hreply⟩
  · exact .refl s' f
  rcases pin_inv hpin with ⟨hret, hfail⟩ | ⟨rfl, mr, info', hpinned, rfl, rfl⟩
  · unfold pinReplyPlaced at hreply
    rw [if_neg fun h => hret h.1, pinReply, if_pos hret] at hreply
    obtain ⟨-, rfl⟩ := Prod.mk.inj (Except.ok.inj hreply)
    exact hfail.leaves hput1 f
  · obtain ⟨pt, hj⟩ := hpinned.just hok hf
    exact hj.leaves hput2 hreply hr

/-- A pin ioctl returns. -/
theorem pinIoctl_returns {s : Kernel} (between : Bool) (f cur : Nat) {cmd : Cmd} {q : PinRequest}
    (hok : FilesOk P s.files s.fresh) (hq : cmd.request = some q) : ∃ x, pinIoctl P between s f cur cmd = .ok x := by
  -- A failed pin has nothing to undo; a delivered or undone one is `JustPinned.returns`.
  have pins : ∀ {info : Info} {ctu : Bool} {unpin : PutEnv}, s.files f = some info →
      ∃ x, (__gdrdrv_pin_buffer P q.env s f info q.addr q.size q.p2p_token q.va_space q.flags >>=
        pinReplyPlaced P between ctu unpin f) =
        .ok x := by
    intro info ctu unpin hf
    obtain ⟨⟨ret, handle, s1⟩, hp⟩ := @pin_total P q.env s f info q.addr q.size q.p2p_token q.va_space q.flags
    rw [hp]
    rcases pin_inv hp with ⟨hret, -⟩ | ⟨rfl, mr, info', hpinned, rfl, rfl⟩
    · refine ⟨(.err ret, s1), ?_⟩
      have hplaced : pinReplyPlaced P between ctu unpin f (ret, handle, s1) =
          pinReply P ctu unpin f (ret, handle, s1) :=
        if_neg fun h => hret h.1
      exact hplaced.trans (if_pos hret)
    · obtain ⟨pt, hj⟩ := hpinned.just hok hf
      exact hj.returns
  unfold pinIoctl
  cases hf : s.files f with
  | none => exact ⟨_, rfl⟩
  | some info =>
    dsimp only
    split_ifs with hsame
    · exact ⟨_, rfl⟩
    cases cmd with
    | pin_buffer cfu ctu env unpin a n tok va =>
      cases hq
      simp only [gdrdrv_pin_buffer_placed]
      split_ifs with h1 h2
      · exact ⟨_, rfl⟩
      · exact ⟨_, rfl⟩
      · exact pins hf
    | pin_buffer_v2 cfu ctu env unpin a n flags =>
      cases hq
      simp only [gdrdrv_pin_buffer_v2_placed]
      split_ifs with h1 h2 h3
      · exact ⟨_, rfl⟩
      · exact ⟨_, rfl⟩
      · exact ⟨_, rfl⟩
      · exact pins hf
    | _ => cases hq

end

end gdrdrv

namespace gdrapi

open gdrdrv

/-! ## The library -/

/-- What is around a pin call: whether the pointer for the handle is there, whether `calloc`, the copies
and the NVIDIA calls succeed, and where the callback runs. -/
structure PinSetting where
  handle : Bool
  calloc : Bool
  cfu : Bool
  ctu : Bool
  env : PinEnv
  unpin : PutEnv
  between : Bool

inductive PinCall where
  | v1 (p2p_token : BitVec 64) (va_space : BitVec 32)
  | v2 (flags : Nat)

section
variable (P : Platform)

def ioctlPlaced (s : Session) (between : Bool) (cmd : Cmd) : Except Fault (Reply × Session) :=
  (pinIoctl P between s.kernel s.gdr.fd s.cur cmd).map fun r => (r.1, { s with kernel := r.2 })

def gdr_pin_buffer_placed (s : Session) (e : PinSetting) (addr size p2p_token : BitVec 64) (va_space : BitVec 32) :
    Except Fault (Int × Option Nat × Session) :=
  if !e.handle then .ok (EINVAL, none, s)
  else if !e.calloc then .ok (ENOMEM, none, s)
  else (ioctlPlaced P s e.between (.pin_buffer e.cfu e.ctu e.env e.unpin addr size p2p_token va_space)).map
    (pinned P s addr size)

def gdr_pin_buffer_v2_internal_placed (s : Session) (e : PinSetting) (addr size : BitVec 64) (flags : Nat) :
    Except Fault (Int × Option Nat × Session) :=
  if !e.handle then .ok (EINVAL, none, s)
  else if !e.calloc then .ok (ENOMEM, none, s)
  else
    let params_flags : BitVec 32 :=
      if flags &&& GDR_PIN_FLAG_FORCE_PCIE ≠ 0 then BitVec.ofNat 32 GDRDRV_PIN_BUFFER_FLAG_FORCE_PCIE else 0
    (ioctlPlaced P s e.between (.pin_buffer_v2 e.cfu e.ctu e.env e.unpin addr size params_flags)).map
      (pinned P s addr size)

def gdr_pin_buffer_v2_placed (s : Session) (e : PinSetting) (addr size : BitVec 64) (flags : Nat) :
    Except Fault (Int × Option Nat × Session) :=
  if GDRDRV_MINIMUM_VERSION_WITH_PIN_BUFFER_V2 ≤ s.gdr.gdrdrv_version then
    gdr_pin_buffer_v2_internal_placed P s e addr size flags
  else if flags = GDR_PIN_FLAG_DEFAULT then gdr_pin_buffer_placed P s e addr size 0 0
  else .ok (EINVAL, none, s)

/-- The status, what is stored at `handle`, and the `gdr_t` with its driver. -/
def PinCall.run (s : Session) (e : PinSetting) (addr size : BitVec 64) :
    PinCall → Except Fault (Int × Option Nat × Session)
  | .v1 p2p_token va_space => gdr_pin_buffer_placed P s e addr size p2p_token va_space
  | .v2 flags => gdr_pin_buffer_v2_placed P s e addr size flags

variable {P}

/-- The pins of a setting with nothing unusual are the library's. -/
theorem gdr_pin_buffer_v2_plain (s : Session) (calloc : Bool) (env : PinEnv) (unpin : PutEnv)
    (addr size : BitVec 64) (flags : Nat) :
    gdr_pin_buffer_v2_placed P s ⟨true, calloc, true, true, env, unpin, false⟩ addr size flags =
      gdr_pin_buffer_v2 P s calloc env unpin addr size flags := by
  have h1 : ∀ tok va, ioctlPlaced P s false (.pin_buffer true true env unpin addr size tok va) =
      ioctl P s (.pin_buffer true true env unpin addr size tok va) :=
        fun tok va => by rw [ioctlPlaced, ioctl, pinIoctl_false rfl]
  have h2 : ∀ flags, ioctlPlaced P s false (.pin_buffer_v2 true true env unpin addr size flags) =
      ioctl P s (.pin_buffer_v2 true true env unpin addr size flags) :=
        fun flags => by rw [ioctlPlaced, ioctl, pinIoctl_false rfl]
  simp only [gdr_pin_buffer_v2_placed, gdr_pin_buffer_v2, gdr_pin_buffer_v2_internal_placed, gdr_pin_buffer_v2_internal,
    gdr_pin_buffer_placed, gdr_pin_buffer, Bool.not_true, Bool.false_eq_true, if_false, h1, h2]

/-- The library's end of a pin: it stores nothing unless the ioctl succeeded. -/
theorem pinned_fails {s s' : Session} {addr size : BitVec 64} {x : Except Fault (Reply × Session)} {ret : Int}
    {mh : Option Nat} (h : x.map (pinned P s addr size) = .ok (ret, mh, s')) (hret : ret ≠ 0) :
    ∃ r, x = .ok (r, s') ∧ r.ret ≠ 0 ∧ mh = none := by
  cases x with
  | error e => cases h
  | ok r =>
    obtain ⟨⟨n, out⟩, s1⟩ := r
    have h : pinned P s addr size (⟨n, out⟩, s1) = (ret, mh, s') := Except.ok.inj h
    unfold pinned at h
    split at h
    · exact absurd (Prod.mk.inj h).1.symm hret
    · obtain ⟨hcode, hm⟩ := Prod.mk.inj h
      obtain ⟨rfl, rfl⟩ := Prod.mk.inj hm
      refine ⟨⟨n, out⟩, rfl, fun h0 => hret ?_, rfl⟩
      have h0 : n = 0 := h0
      rw [← hcode, errno, h0]
      rfl

/-- `put_pages` succeeds unless the callback has run. -/
def PinSetting.PutsBack (e : PinSetting) : Prop := e.env.put.status = 0 ∧ e.unpin.status = 0

variable (P) in
/-- How a pin of the library fails: without asking the driver, or because the driver fails. -/
inductive PinCall.Failed (s : Session) (e : PinSetting) : Session → Prop
  | early : Failed s e s
  | ioctl {cmd : Cmd} {q : PinRequest} {r : Reply} {k : Kernel} : cmd.request = some q → cmd.PutsBack →
    pinIoctl P e.between s.kernel s.gdr.fd s.cur cmd = .ok (r, k) → r.ret ≠ 0 → Failed s e { s with kernel := k }

section
variable {s s' : Session} {e : PinSetting} {addr size : BitVec 64} {ret : Int} {mh : Option Nat}

theorem early_fails {n : Int} (h : (Except.ok (n, none, s) : Except Fault (Int × Option Nat × Session)) =
    .ok (ret, mh, s')) :
    mh = none ∧ PinCall.Failed P s e s' := by
  obtain ⟨-, hm⟩ := Prod.mk.inj (Except.ok.inj h)
  obtain ⟨rfl, rfl⟩ := Prod.mk.inj hm
  exact ⟨rfl, .early⟩

theorem ioctl_fails {cmd : Cmd} {q : PinRequest} (hq : cmd.request = some q) (hput : cmd.PutsBack)
    (h : (ioctlPlaced P s e.between cmd).map (pinned P s addr size) = .ok (ret, mh, s')) (hret : ret ≠ 0) :
    mh = none ∧ PinCall.Failed P s e s' := by
  obtain ⟨r, hx, hr, hmh⟩ := pinned_fails h hret
  unfold ioctlPlaced at hx
  cases hi : pinIoctl P e.between s.kernel s.gdr.fd s.cur cmd with
  | error err => rw [hi] at hx; cases hx
  | ok x =>
    obtain ⟨r', k⟩ := x
    rw [hi] at hx
    obtain ⟨rfl, rfl⟩ := Prod.mk.inj (Except.ok.inj hx)
    exact ⟨hmh, .ioctl hq hput hi hr⟩

theorem gdr_pin_buffer_fails {tok : BitVec 64} {va : BitVec 32}
    (h : gdr_pin_buffer_placed P s e addr size tok va = .ok (ret, mh, s')) (hret : ret ≠ 0)
    (hput : e.PutsBack) : mh = none ∧ PinCall.Failed P s e s' := by
  unfold gdr_pin_buffer_placed at h
  split_ifs at h with h1 h2
  · exact early_fails h
  · exact early_fails h
  · exact ioctl_fails rfl (by exact hput) h hret

/-- A pin of the library that fails has stored nothing, and only the driver may have moved. -/
theorem PinCall.fails {c : PinCall} (h : c.run P s e addr size = .ok (ret, mh, s')) (hret : ret ≠ 0)
    (hput : e.PutsBack) :
    mh = none ∧ PinCall.Failed P s e s' := by
  cases c with
  | v1 tok va => exact gdr_pin_buffer_fails h hret hput
  | v2 flags =>
    have h : gdr_pin_buffer_v2_placed P s e addr size flags = .ok (ret, mh, s') := h
    unfold gdr_pin_buffer_v2_placed at h
    split_ifs at h with h1 h2
    · unfold gdr_pin_buffer_v2_internal_placed at h
      by_cases h3 : e.handle = true
      swap
      · rw [if_pos (by simp [h3])] at h
        exact early_fails h
      rw [if_neg (by simp [h3])] at h
      by_cases h4 : e.calloc = true
      swap
      · rw [if_pos (by simp [h4])] at h
        exact early_fails h
      rw [if_neg (by simp [h4])] at h
      exact ioctl_fails rfl (by exact hput) h hret
    · exact gdr_pin_buffer_fails h hret hput
    · exact early_fails h

end

/-- A pin of the library returns, like its ioctl. -/
theorem PinCall.returns {s : Session} (e : PinSetting) (addr size : BitVec 64) (c : PinCall)
    (hok : FilesOk P s.kernel.files s.kernel.fresh) : ∃ x, c.run P s e addr size = .ok x := by
  have asks : ∀ {cmd : Cmd} {q : PinRequest}, cmd.request = some q →
      ∃ x, (ioctlPlaced P s e.between cmd).map (pinned P s addr size) = .ok x := by
    intro cmd q hq
    obtain ⟨x, hx⟩ := pinIoctl_returns e.between s.gdr.fd s.cur hok hq
    rw [ioctlPlaced, hx]
    exact ⟨_, rfl⟩
  have plain : ∀ tok va, ∃ x, gdr_pin_buffer_placed P s e addr size tok va = .ok x := by
    intro tok va
    unfold gdr_pin_buffer_placed
    split_ifs
    · exact ⟨_, rfl⟩
    · exact ⟨_, rfl⟩
    · exact asks rfl
  cases c with
  | v1 tok va => exact plain tok va
  | v2 flags =>
    unfold PinCall.run gdr_pin_buffer_v2_placed gdr_pin_buffer_v2_internal_placed
    dsimp only
    by_cases hv : GDRDRV_MINIMUM_VERSION_WITH_PIN_BUFFER_V2 ≤ s.gdr.gdrdrv_version
    swap
    · rw [if_neg hv]
      split_ifs
      · exact plain 0 0
      · exact ⟨_, rfl⟩
    rw [if_pos hv]
    by_cases hhandle : e.handle = true
    swap
    · exact ⟨_, if_pos (by simp [hhandle])⟩
    rw [if_neg (by simp [hhandle])]
    by_cases hcalloc : e.calloc = true
    swap
    · exact ⟨_, if_pos (by simp [hcalloc])⟩
    rw [if_neg (by simp [hcalloc])]
    exact asks rfl

/-- A pin that fails, as an ioctl or as a call of the library, leaves nothing behind. -/
theorem failed_pin_leaves {s : Session} {os : List SysOp} (hr : SysRun P s.kernel os) :
    (∀ between f cur cmd q, cmd.request = some q → cmd.PutsBack →
      ∃ r k, pinIoctl P between s.kernel f cur cmd = .ok (r, k) ∧ (r.ret ≠ 0 → LeavesNothing s.kernel k f)) ∧
    ∀ e addr size (c : PinCall), e.PutsBack → ∃ ret mh s', c.run P s e addr size = .ok (ret, mh, s') ∧ (ret ≠ 0 →
      mh = none ∧ s' = { s with kernel := s'.kernel } ∧ LeavesNothing s.kernel s'.kernel s.gdr.fd) := by
  constructor
  · intro between f cur cmd q hq hput
    obtain ⟨⟨r, k⟩, h⟩ := pinIoctl_returns between f cur hr.filesOk hq
    exact ⟨r, k, h, pinIoctl_leaves hr.filesOk hq hput h⟩
  · intro e addr size c hput
    obtain ⟨⟨ret, mh, s'⟩, h⟩ := PinCall.returns e addr size c hr.filesOk
    refine ⟨ret, mh, s', h, fun hret => ?_⟩
    obtain ⟨hmh, hfailed⟩ := PinCall.fails h hret hput
    cases hfailed with
    | early => exact ⟨hmh, rfl, .refl _ _⟩
    | ioctl hq hput' hi hret' => exact ⟨hmh, rfl, pinIoctl_leaves hr.filesOk hq hput' hi hret'⟩

end

/-- A pin of one GPU page whose handle cannot be copied to the caller. -/
def undelivered : Cmd :=
  .pin_buffer true false ⟨true, .ok ⟨0, 0x00010002, .NVIDIA_P2P_PAGE_SIZE_64KB, [0x10000000], false⟩, 0, 0, ⟨false, 0⟩⟩
    ⟨false, 0⟩ 0x10000 0x10000 0 0

/-- The callback runs while the handle is being delivered, and then the delivery fails. -/
theorem failed_pin_leaves_undelivered : ∃ k r k', SysRun x86Host k ([.openFile 0 1 true].map .op) ∧
    pinIoctl x86Host true k 0 1 undelivered = .ok (r, k') ∧ r.ret = -EFAULT ∧ LeavesNothing k k' 0 := by
  have hrun : (execAll x86Host (fun _ _ => true) init [.openFile 0 1 true]).any (fun s =>
      (pinIoctl x86Host true s 0 1 undelivered).toOption.any fun p => p.1.ret == -EFAULT) = true := by decide +kernel
  obtain ⟨k, hk, hrun⟩ := Option.any_eq_true _ _ |>.1 hrun
  obtain ⟨⟨r, k'⟩, hp, hret⟩ := Option.any_eq_true _ _ |>.1 hrun
  have hret : r.ret = -EFAULT := by simpa using hret
  have hr : SysRun x86Host k _ := gdrdrv.Run.sysRun (execAll_run hk).of_only
  have hq : undelivered.request = some ⟨0x10000, 0x10000, 0, 0, GDRDRV_PIN_BUFFER_FLAG_DEFAULT, _⟩ := rfl
  obtain ⟨r', k1, h, hleaves⟩ :=
    (@failed_pin_leaves _ ⟨k, ⟨0, [], 4096, 12, 0⟩, 1, 0, fun _ => none, 0, []⟩ _ hr).1 true 0 1 undelivered
      _ hq ⟨rfl, rfl⟩
  obtain ⟨rfl, rfl⟩ := Prod.mk.inj (Except.ok.inj ((toOption_ok hp).symm.trans h))
  exact ⟨k, r, k', hr, h, hret, hleaves (by rw [hret]; decide)⟩

end gdrapi
