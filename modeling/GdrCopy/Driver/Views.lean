import GdrCopy.Driver.Faults
import GdrCopy.Driver.Isolation
/-!
# What one file sees of the others

`Kernel.only` is the state with one file in it and its VMAs. An operation on that file
does there what it does among all the others (`step_only`), and an operation on another
file does nothing there (`step_other`). So a run of the driver, seen from one file, is a
run of the driver with that file alone, and with the same replies.
-/

namespace gdrdrv

section
variable {P : Platform}

/-! ## One file -/

/-- The VMAs of file `f`. -/
def keep (f : Nat) (vmas : List Vma) : List Vma := vmas.filter (·.vm_file = f)

/-- The state with file `f` alone. -/
def Kernel.only (s : Kernel) (f : Nat) : Kernel :=
  { s with files := fun g => if g = f then s.files g else none, vmas := keep f s.vmas }

/-- The VMA `mr` points to, if it is there, is one of file `f`. -/
def Mr.Mine (f : Nat) (vmas : List Vma) (mr : Mr) : Prop := ∀ v ∈ vmas, mr.vma = some v.id → v.vm_file = f

theorem mem_keep {f : Nat} {vmas : List Vma} {v : Vma} : v ∈ keep f vmas ↔ v ∈ vmas ∧ v.vm_file = f := by
  simp [keep]

@[simp] theorem only_fresh (s : Kernel) (f : Nat) : (s.only f).fresh = s.fresh := rfl

@[simp] theorem only_vmas (s : Kernel) (f : Nat) : (s.only f).vmas = keep f s.vmas := rfl

@[simp] theorem only_refcount (s : Kernel) (f : Nat) :
    (s.only f).gdrdrv_nv_get_pages_refcount = s.gdrdrv_nv_get_pages_refcount := rfl

@[simp] theorem only_self (s : Kernel) (f : Nat) : (s.only f).files f = s.files f := if_pos rfl

theorem only_setFile (s : Kernel) (f : Nat) (x : Option Info) : (s.setFile f x).only f = (s.only f).setFile f x := by
  simp only [Kernel.only, Kernel.setFile, Kernel.mk.injEq, and_true]
  funext g
  by_cases hg : g = f
  · subst hg
    simp
  · simp [hg]

/-- Two states have the same file `f` and the same VMAs of it. -/
theorem only_congr {s s' : Kernel} {f : Nat} (hf : s'.files f = s.files f) (hv : keep f s'.vmas = keep f s.vmas) :
    s'.only f = { s.only f with
      gdrdrv_nv_get_pages_refcount := s'.gdrdrv_nv_get_pages_refcount, fresh := s'.fresh } := by
  simp only [Kernel.only, Kernel.mk.injEq, hv, and_true]
  funext g
  by_cases hg : g = f
  · rw [if_pos hg, if_pos hg, hg, hf]
  · rw [if_neg hg, if_neg hg]

/-! ## The helpers -/

theorem find_keep {f v : Nat} {vmas : List Vma} (h : ∀ w ∈ vmas, v = w.id → w.vm_file = f) :
    (keep f vmas).find? (·.id = v) = vmas.find? (·.id = v) := by
  induction vmas with
  | nil => rfl
  | cons w vmas ih =>
    have ih := ih fun x hx => h x (List.mem_cons_of_mem _ hx)
    have hw := h w List.mem_cons_self
    rw [keep] at ih ⊢
    by_cases hf : w.vm_file = f
    · rw [List.filter_cons_of_pos (by simpa using hf), List.find?_cons, List.find?_cons, ih]
    · have hid : w.id ≠ v := fun he => hf (hw he.symm)
      rw [List.filter_cons_of_neg (by simpa using hf), List.find?_cons_of_neg (by simpa using hid), ih]

theorem zap_keep (f mapping : Nat) (vma : Vma) (vmas : List Vma) :
    gdrdrv_zap_vma P mapping vma (keep f vmas) = keep f (gdrdrv_zap_vma P mapping vma vmas) := by
  unfold gdrdrv_zap_vma unmap_mapping_range keep
  dsimp only
  rw [List.filter_map]
  congr 1
  refine List.filter_congr fun v _ => ?_
  simp only [Function.comp_apply]
  split <;> rfl

theorem destroy_keep {f : Nat} {mr : Mr} {vmas : List Vma} (h : mr.Mine f vmas) :
    gdr_mr_destroy_all_mappings P mr (keep f vmas) =
      (gdr_mr_destroy_all_mappings P mr vmas).map fun r => (r.1, keep f r.2) := by
  unfold gdr_mr_destroy_all_mappings
  cases hv : mr.vma with
  | none => rfl
  | some v =>
    have hfind : (keep f vmas).find? (·.id = v) = vmas.find? (·.id = v) :=
      find_keep fun w hw he => h w hw (by rw [hv, he])
    dsimp only
    rw [hfind]
    cases mr.mapping with
    | none => rfl
    | some m =>
      cases vmas.find? (·.id = v) with
      | none => rfl
      | some vma => simp only [Except.map, zap_keep]

theorem zapIfMapped_keep {f : Nat} {mr : Mr} {vmas : List Vma} (h : mr.Mine f vmas) :
    zapIfMapped P mr (keep f vmas) = (zapIfMapped P mr vmas).map fun r => (r.1, keep f r.2) := by
  unfold zapIfMapped
  split
  · exact destroy_keep h
  · rfl

theorem callback_keep {f : Nat} {mr : Mr} {vmas : List Vma} {n : Int} (h : mr.Mine f vmas) :
    gdrdrv_get_pages_free_callback P mr (keep f vmas) n =
      (gdrdrv_get_pages_free_callback P mr vmas n).map fun r => (r.1, keep f r.2.1, r.2.2) := by
  unfold gdrdrv_get_pages_free_callback
  have hd := @destroy_keep P f { mr with cb_flag := true } vmas h
  dsimp only
  rw [hd]
  generalize gdr_mr_destroy_all_mappings P { mr with cb_flag := true } vmas = x
  cases mr.page_table with
  | none => rfl
  | some pt =>
    dsimp only
    split
    · cases x <;> rfl
    · rfl

theorem free_keep {f : Nat} {env : PutEnv} {mr : Mr} {vmas : List Vma} {n : Int} (h : mr.Mine f vmas) :
    gdr_free_mr_unlocked P env mr (keep f vmas) n =
      (gdr_free_mr_unlocked P env mr vmas n).map fun r => (keep f r.1, r.2) := by
  unfold gdr_free_mr_unlocked
  split
  · rfl
  cases mr.page_table with
  | none => rfl
  | some pt =>
    dsimp only
    split
    · rw [callback_keep h]
      cases gdrdrv_get_pages_free_callback P mr vmas n <;> rfl
    · split <;> rfl

theorem Mr.Mine.pruned {f : Nat} {mr : Mr} {vmas vmas' : List Vma} (h : mr.Mine f vmas) (hp : Pruned vmas vmas') :
    mr.Mine f vmas' := by
  intro v hv he
  obtain ⟨w, hw, ptes, rfl, -⟩ := hp.mem hv
  exact h w hw he

theorem releaseLoop_keep {f : Nat} {env : Nat → PutEnv} {l : List Mr} {vmas : List Vma} {n : Int}
    (h : ∀ mr ∈ l, mr.Mine f vmas) :
    releaseLoop P env l (keep f vmas) n = (releaseLoop P env l vmas n).map fun r => (keep f r.1, r.2) := by
  induction l generalizing vmas n with
  | nil => rfl
  | cons mr rest ih =>
    have hmr := h mr List.mem_cons_self
    rw [releaseLoop_cons, releaseLoop_cons, zapIfMapped_keep hmr]
    cases hz : zapIfMapped P mr vmas with
    | error e => rfl
    | ok z =>
      obtain ⟨m1, v1⟩ := z
      obtain ⟨rfl, -⟩ := zapIfMapped_cases hz
      have hp := zapIfMapped_pruned hz
      simp only [Except.map, bind, Except.bind]
      rw [@free_keep P f _ { mr with cpu_mapping_type := .NONE } v1 n (hmr.pruned hp)]
      cases hfree : gdr_free_mr_unlocked P (env mr.ptr) { mr with cpu_mapping_type := .NONE } v1 n with
      | error e => rfl
      | ok x =>
        obtain ⟨v2, n2⟩ := x
        obtain rfl : v2 = v1 := free_unmapped rfl hfree
        exact ih fun m hm => (h m (List.mem_cons_of_mem _ hm)).pruned hp

/-! ## The ioctls -/

/-- Every listed mr of file `f` points to a VMA of `f`, or to none. -/
def Kernel.Own (s : Kernel) (f : Nat) : Prop := ∀ info, s.files f = some info → ∀ mr ∈ info.mr_list, mr.Mine f s.vmas

theorem unpin_only {env : PutEnv} {s : Kernel} {f : Nat} {info : Info} {handle : Nat}
    (h : ∀ mr ∈ info.mr_list, mr.Mine f s.vmas) :
    __gdrdrv_unpin_buffer P env (s.only f) f info handle =
      (__gdrdrv_unpin_buffer P env s f info handle).map fun r => (r.1, r.2.only f) := by
  cases hs : gdr_mr_from_handle_unlocked info handle with
  | none =>
    unfold __gdrdrv_unpin_buffer
    rw [hs]
    rfl
  | some mr =>
    have hmr := h mr (search_mem hs)
    rw [unpin_eq hs, unpin_eq hs, only_vmas, zapIfMapped_keep hmr]
    cases hz : zapIfMapped P mr s.vmas with
    | error e => rfl
    | ok z =>
      obtain ⟨m1, v1⟩ := z
      obtain ⟨rfl, -⟩ := zapIfMapped_cases hz
      have hp := zapIfMapped_pruned hz
      simp only [Except.map, bind, Except.bind, only_refcount]
      rw [@free_keep P f _ { mr with cpu_mapping_type := .NONE } v1 _ (hmr.pruned hp)]
      cases gdr_free_mr_unlocked P env { mr with cpu_mapping_type := .NONE } v1 s.gdrdrv_nv_get_pages_refcount with
      | error e => rfl
      | ok x =>
        simp only [Except.map]
        rw [← only_setFile]
        rfl

theorem pinFail_only {env : PutEnv} {mr : Mr} {s : Kernel} {ret : Int} {f : Nat} (h : mr.vma = none) :
    pinFail P env mr (s.only f) ret = (pinFail P env mr s ret).map fun r => (r.1, r.2.1, r.2.2.only f) := by
  have hm : mr.Mine f s.vmas := fun v _ he => by rw [h] at he; cases he
  unfold pinFail
  rw [only_vmas, only_refcount, free_keep hm]
  cases gdr_free_mr_unlocked P env mr s.vmas s.gdrdrv_nv_get_pages_refcount <;> rfl

theorem pin_only {env : PinEnv} {s : Kernel} {f : Nat} {info : Info} {addr size p2p_token va_space flags : Nat} :
    __gdrdrv_pin_buffer P env (s.only f) f info addr size p2p_token va_space flags =
      (__gdrdrv_pin_buffer P env s f info addr size p2p_token va_space flags).map fun r =>
      (r.1, r.2.1, r.2.2.only f) := by
  unfold __gdrdrv_pin_buffer
  split
  · rfl
  dsimp only [only_fresh, only_refcount]
  -- The error exits in the order of the source, then the mr that is linked.
  cases pinArgs P p2p_token va_space flags with
  | error e => exact pinFail_only (s := { s with fresh := s.fresh + 2 }) rfl
  | ok args =>
    dsimp only
    cases env.get_pages with
    | error n => exact pinFail_only (s := { s with fresh := s.fresh + 2 }) rfl
    | ok pt =>
      dsimp only
      cases checkPageTable P { pt with id := s.fresh + 1 } with
      | error e => exact pinFail_only (s := { s with fresh := s.fresh + 2, gdrdrv_nv_get_pages_refcount := _ }) rfl
      | ok page_size =>
        dsimp only
        split
        · exact pinFail_only (s := { s with fresh := s.fresh + 2, gdrdrv_nv_get_pages_refcount := _ }) rfl
        · simp only [Except.map, only_setFile]
          rfl

/-- A pin adds an mr that points to no VMA. -/
theorem Kernel.Own.pin {q : PinRequest} {s s' : Kernel} {f handle : Nat} {info : Info} {ret : Int} (h : s.Own f)
    (hf : s.files f = some info)
    (hp : __gdrdrv_pin_buffer P q.env s f info q.addr q.size q.p2p_token q.va_space q.flags = .ok (ret, handle, s')) :
    s'.Own f := by
  rcases pin_inv hp with ⟨-, hfail⟩ | ⟨-, mr, info', hpin, -, rfl⟩
  · obtain ⟨hfiles, hvmas, -⟩ := hfail.same
    intro i hi mr hm
    rw [hvmas]
    exact h i (hfiles ▸ hi) mr hm
  · intro i hi m hm
    obtain rfl : info'.list_add mr = i := by simpa [Kernel.setFile] using hi
    rcases List.mem_cons.1 hm with rfl | hm
    · obtain ⟨_, _, _, _, _, -, -, -, he⟩ := hpin.made
      intro v _ hv
      rw [he] at hv
      cases hv
    · exact h info hf m (hpin.list ▸ hm)

theorem pinReply_only {ctu : Bool} {env : PutEnv} {f : Nat} {r : Int × Nat × Kernel} (h : r.2.2.Own f) :
    pinReply P ctu env f (r.1, r.2.1, r.2.2.only f) = (pinReply P ctu env f r).map fun r => (r.1, r.2.only f) := by
  unfold pinReply
  dsimp only
  split
  · rfl
  split
  · rfl
  rw [only_self]
  cases hf : r.2.2.files f with
  | none => rfl
  | some info =>
    dsimp only
    rw [unpin_only (h info hf)]
    cases __gdrdrv_unpin_buffer P env r.2.2 f info r.2.1 <;> rfl

theorem pins_only {q : PinRequest} {s : Kernel} {f : Nat} {info : Info} {ctu : Bool} {unpin : PutEnv} (h : s.Own f)
    (hf : s.files f = some info) :
    (do
      let p ← __gdrdrv_pin_buffer P q.env (s.only f) f info q.addr q.size q.p2p_token q.va_space q.flags
      pinReply P ctu unpin f p) =
    Except.map (fun r => (r.1, r.2.only f)) (do
      let p ← __gdrdrv_pin_buffer P q.env s f info q.addr q.size q.p2p_token q.va_space q.flags
      pinReply P ctu unpin f p) := by
  rw [pin_only]
  cases hp : __gdrdrv_pin_buffer P q.env s f info q.addr q.size q.p2p_token q.va_space q.flags with
  | error e => rfl
  | ok r => exact pinReply_only (h.pin hf hp)

theorem ioctl_only {s : Kernel} {f cur : Nat} {cmd : Cmd} (h : s.Own f) :
    gdrdrv_ioctl P (s.only f) f cur cmd = (gdrdrv_ioctl P s f cur cmd).map fun r => (r.1, r.2.only f) := by
  unfold gdrdrv_ioctl
  split
  · rfl
  rw [only_self]
  cases hf : s.files f with
  | none => rfl
  | some info =>
    dsimp only
    split
    · rfl
    cases cmd with
    | pin_buffer cfu ctu env unpin addr size tok va =>
      simp only [ioctlSwitch, gdrdrv_pin_buffer]
      split
      · rfl
      split
      · rfl
      · exact pins_only (q := ⟨addr.toNat, size.toNat, tok.toNat, va.toNat, GDRDRV_PIN_BUFFER_FLAG_DEFAULT, env⟩) h hf
    | pin_buffer_v2 cfu ctu env unpin addr size flags =>
      simp only [ioctlSwitch, gdrdrv_pin_buffer_v2]
      split
      · rfl
      split
      · rfl
      split
      · rfl
      · exact pins_only (q := ⟨addr.toNat, size.toNat, 0, 0, flags.toNat, env⟩) h hf
    | unpin_buffer cfu env handle =>
      simp only [ioctlSwitch, gdrdrv_unpin_buffer]
      split
      · rfl
      rw [unpin_only (h info hf)]
      cases __gdrdrv_unpin_buffer P env s f info handle <;> rfl
    | req_mapping_type cfu handle mapping_type =>
      simp only [ioctlSwitch, gdrdrv_req_mapping_type]
      split
      · rfl
      split
      · rfl
      split
      · rfl
      · simp only [Except.map, only_setFile]
    | _ => rfl

/-! ## The other entry points -/

theorem open_only {s : Kernel} {minor cur : Nat} {kzalloc : Bool} :
    gdrdrv_open (s.only s.fresh) minor cur kzalloc =
      ((gdrdrv_open s minor cur kzalloc).1, (gdrdrv_open s minor cur kzalloc).2.only s.fresh) := by
  unfold gdrdrv_open
  split
  · rfl
  split
  · rfl
  · rw [only_fresh, ← only_setFile]
    rfl

theorem gdrdrv_mmap_only {env : RemapEnv} {s : Kernel} {f cur : Nat} {vma : Vma} :
    gdrdrv_mmap P env (s.only f) f cur vma = (gdrdrv_mmap P env s f cur vma).map fun r =>
    (r.1, r.2.1, r.2.2.only f) := by
  unfold gdrdrv_mmap
  rw [only_self]
  cases s.files f with
  | none => rfl
  | some info =>
    dsimp only
    split
    · rfl
    cases gdr_mr_from_handle_unlocked info (gdrdrv_handle_from_off vma.vm_pgoff) with
    | none => rfl
    | some mr =>
      dsimp only
      cases mmapLocked P env f mr vma with
      | error e => rfl
      | ok r => simp only [Except.map, only_setFile]

theorem mmap_only {env : RemapEnv} {s : Kernel} {f cur start len : Nat} {off : BitVec 64} :
    sysMmap P env (s.only f) f cur start len off = (sysMmap P env s f cur start len off).map fun r =>
    (r.1, r.2.only f) := by
  have hregion : mmapRegion P (s.only f) f start len off = mmapRegion P s f start len off := rfl
  have hcall : ∀ vma, gdrdrv_mmap P env { s.only f with fresh := s.fresh + 1 } f cur vma =
      (gdrdrv_mmap P env { s with fresh := s.fresh + 1 } f cur vma).map fun r => (r.1, r.2.1, r.2.2.only f) :=
    fun vma => gdrdrv_mmap_only (s := { s with fresh := s.fresh + 1 })
  unfold sysMmap
  rw [hregion]
  cases hreg : mmapRegion P s f start len off with
  | error e => rfl
  | ok vma =>
    dsimp only
    rw [only_fresh, hcall]
    cases hg : gdrdrv_mmap P env { s with fresh := s.fresh + 1 } f cur vma with
    | error e => rfl
    | ok r =>
      obtain ⟨ret, v', s1⟩ := r
      simp only [Except.map]
      by_cases h0 : ret = 0
      swap
      · rw [if_neg h0, if_neg h0]
      -- The new VMA is one of file `f`.
      have hfile : v'.vm_file = f := by
        obtain ⟨pages, -, hlt, hstart, hend, hid, hvf, hptes, -, hoff⟩ := mmapRegion_ok hreg
        cases gdrdrv_mmap_ends hg with
        | unreached hne => exact absurd h0 hne
        | refused hne => exact absurd h0 hne
        | mapped _ hm => exact (mapped_new hlt hstart hend hid hvf hptes hoff hm.size hm.loop).1.vm_file
      rw [if_pos h0, if_pos h0]
      simp [Kernel.only, keep, hfile]

theorem munmap_only {s : Kernel} {vma : Vma} :
    sysMunmap (s.only vma.vm_file) vma = (sysMunmap s vma).only vma.vm_file := by
  have hv : ({ s.only vma.vm_file with vmas := (s.only vma.vm_file).vmas.filter fun v => v.id ≠ vma.id } : Kernel) =
      ({ s with vmas := s.vmas.filter fun v => v.id ≠ vma.id } : Kernel).only vma.vm_file := by
    simp only [Kernel.only, keep, List.filter_filter, Bool.and_comm]
  unfold sysMunmap
  rw [hv]
  generalize ({ s with vmas := s.vmas.filter fun v => v.id ≠ vma.id } : Kernel) = t
  unfold gdrdrv_vma_close
  rw [only_self]
  cases t.files vma.vm_file with
  | none => rfl
  | some info =>
    dsimp only
    cases gdr_mr_from_handle_unlocked info (gdrdrv_handle_from_off vma.vm_pgoff) with
    | none => rfl
    | some mr => exact (only_setFile t vma.vm_file _).symm

theorem nvCallback_only {s : Kernel} {f : Nat} {info : Info} {mr : Mr} (h : mr.Mine f s.vmas) :
    nvCallback P (s.only f) f info mr = (nvCallback P s f info mr).map fun s' => s'.only f := by
  unfold nvCallback
  rw [only_vmas, only_refcount, callback_keep h]
  cases gdrdrv_get_pages_free_callback P mr s.vmas s.gdrdrv_nv_get_pages_refcount with
  | error e => rfl
  | ok r =>
    simp only [Except.map, bind, Except.bind]
    rw [← only_setFile]
    rfl

theorem release_only {env : Nat → PutEnv} {s : Kernel} {f : Nat} (h : s.Own f) :
    gdrdrv_release P env (s.only f) f = (gdrdrv_release P env s f).map fun r => (r.1, r.2.only f) := by
  unfold gdrdrv_release
  rw [only_self]
  cases hf : s.files f with
  | none => rfl
  | some info =>
    dsimp only
    rw [only_vmas, only_refcount, releaseLoop_keep (h info hf)]
    cases releaseLoop P env info.mr_list s.vmas s.gdrdrv_nv_get_pages_refcount with
    | error e => rfl
    | ok r =>
      simp only [Except.map, bind, Except.bind]
      rw [← only_setFile]
      rfl

/-! ## Whose VMA it is -/

/-- An mr that points to a VMA points to its own file's address space, and the VMA is one of that file. -/
structure OwnVmas (s : Kernel) : Prop where
  mapping : ∀ {f info mr}, s.files f = some info → mr ∈ info.mr_list → mr.vma.isSome = true → mr.mapping = some f
  vma : ∀ {f}, s.Own f

theorem OwnVmas.shrinks {s s' : Kernel} (h : OwnVmas s) (hs : Shrinks s s') : OwnVmas s' := by
  refine ⟨fun hf hm hv => ?_, fun {f} info hf mr hm v hv he => ?_⟩
  · obtain ⟨i0, hi0, hw⟩ := hs.files _ _ hf
    obtain ⟨m0, hm0, hwm⟩ := hw.mrs _ hm
    obtain ⟨v, hv⟩ := Option.isSome_iff_exists.1 hv
    obtain ⟨h1, h2⟩ := hwm.vma v hv
    rw [h2]
    exact h.mapping hi0 hm0 (by rw [h1]; rfl)
  · obtain ⟨i0, hi0, hw⟩ := hs.files _ _ hf
    obtain ⟨m0, hm0, hwm⟩ := hw.mrs _ hm
    obtain ⟨v0, hv0, ptes, rfl, -⟩ := hs.vmas _ hv
    exact h.vma i0 hi0 m0 hm0 v0 hv0 (hwm.vma _ he).1

/-- The events that add nothing. -/
def Event.Shrinks : Event → Prop
  | .opened _ => False
  | .linked _ _ => False
  | .mapped _ _ _ => False
  | _ => True

theorem Does.shrinks {s s' : Kernel} {e : Event} (hd : Does P s e s') (he : e.Shrinks) : Shrinks s s' := by
  have pruned : ∀ {vmas' : List Vma}, Pruned s.vmas vmas' →
      ∀ v ∈ vmas', ∃ v0 ∈ s.vmas, ∃ ptes, v = { v0 with ptes := ptes } ∧ ptes ⊆ v0.ptes := fun hp v hv => hp.mem hv
  cases hd with
  | opened | linked | mapped => exact he.elim
  | quiet hfiles hvmas _ => exact ⟨fun g i hg => ⟨i, hfiles ▸ hg, .refl i⟩, same_vmas hvmas⟩
  | unlinked hf hm hz hfiles _ => exact .update hf hfiles (list_del_within _ _) (pruned (zapIfMapped_pruned hz))
  | requested hf hm hfiles hvmas _ =>
    exact .update hf hfiles (put_within hm ⟨rfl, rfl, rfl, fun _ h => ⟨h, rfl⟩, fun _ h => h⟩) (same_vmas hvmas)
  | refused hf hm hfiles hvmas _ =>
    exact .update hf hfiles (put_within hm ⟨rfl, rfl, rfl, nofun, fun _ h => h⟩) (same_vmas hvmas)
  | @closed _ vma hv hfiles hvmas _ =>
    have hvm : ∀ v ∈ s'.vmas, ∃ v0 ∈ s.vmas, ∃ ptes, v = { v0 with ptes := ptes } ∧ ptes ⊆ v0.ptes := by
      rw [hvmas]
      exact fun v hv => ⟨v, (List.mem_filter.1 hv).1, v.ptes, rfl, fun _ hp => hp⟩
    cases hlk : s.lookup vma.vm_file vma.vm_pgoff with
    | none =>
      have hsame : s'.files = s.files := by rw [hfiles, hlk]
      exact ⟨fun g i hg => ⟨i, hsame ▸ hg, .refl i⟩, hvm⟩
    | some r =>
      obtain ⟨info, mr⟩ := r
      rw [hlk] at hfiles
      obtain ⟨hf, hm, -⟩ := search_listed hlk
      exact .update hf hfiles (put_within hm ⟨rfl, rfl, rfl, nofun, fun _ h => h⟩) hvm
  | invalidated hf hm hz hfiles _ =>
    refine .update hf hfiles (put_within hm ⟨rfl, rfl, rfl, fun _ h => ⟨h, rfl⟩, nofun⟩) (pruned ?_)
    split at hz
    · exact zapIfMapped_pruned hz
    · rw [(Prod.mk.inj (Except.ok.inj hz)).2]
      exact .refl _
  | shut hf hl hfiles hvmas _ =>
    refine ⟨fun g i hg => ?_, same_vmas hvmas⟩
    rw [hfiles] at hg
    rcases get_update hg with ⟨-, hi⟩ | ⟨-, hg⟩
    · cases hi
    · exact ⟨i, hg, .refl i⟩

/-- Every event keeps VMAs where they belong. -/
theorem Does.ownVmas {s s' : Kernel} {e : Event} (hwf : Wf P s) (h : OwnVmas s) (hd : Does P s e s') : OwnVmas s' := by
  cases e with
  | opened f =>
    cases hd with
    | opened hfiles hvmas _ =>
      refine ⟨fun hf hm hv => ?_, fun {f} info hf mr hm => ?_⟩
      · rw [hfiles] at hf
        rcases get_update hf with ⟨-, hi⟩ | ⟨-, hf⟩
        · cases hi
          cases hm
        · exact h.mapping hf hm hv
      · rw [hfiles] at hf
        rw [hvmas]
        rcases get_update hf with ⟨-, hi⟩ | ⟨-, hf⟩
        · cases hi
          cases hm
        · exact h.vma info hf mr hm
  | linked f mr =>
    cases hd with
    | linked hf hg hnew hfiles hvmas _ =>
      obtain ⟨-, -, hl, -⟩ := generate_spec hnew.mapped_size (fun ho => ((hwf.files.spaced hf).next ho).1) hg
      refine ⟨fun hg hm hv => ?_, fun {g} info hg m hm => ?_⟩
      · rcases get_list_add hf hl (hfiles ▸ hg) hm with ⟨-, rfl⟩ | ⟨i0, hi0, hm⟩
        · rw [hnew.vma] at hv
          cases hv
        · exact h.mapping hi0 hm hv
      · rw [hvmas]
        rcases get_list_add hf hl (hfiles ▸ hg) hm with ⟨-, rfl⟩ | ⟨i0, hi0, hm⟩
        · intro v _ hv
          rw [hnew.vma] at hv
          cases hv
        · exact h.vma i0 hi0 m hm
  | mapped f mr vma =>
    cases hd with
    | mapped hf hm _ _ _ _ hnew hfiles hvmas _ =>
      have hid := hnew.id
      refine ⟨fun {g i m} hg hm' hv => ?_, fun {g} i hg m hm' v hv he => ?_⟩
      · rw [hfiles] at hg
        rcases get_update hg with ⟨rfl, hi⟩ | ⟨-, hg⟩
        · cases hi
          rcases mem_put hm' with ⟨rfl, -⟩ | ⟨hm', -⟩
          · rfl
          · exact h.mapping hf hm' hv
        · exact h.mapping hg hm' hv
      -- Nothing else points to the new VMA, and its mr to no other.
      · rw [hvmas] at hv
        have old : ∀ {g i}, s.files g = some i → m ∈ i.mr_list → v.vm_file = g := by
          intro g i hg hm'
          rcases List.mem_cons.1 hv with rfl | hv
          · have := (hwf.files.mr hg hm').vma _ he
            omega
          · exact h.vma i hg m hm' v hv he
        rw [hfiles] at hg
        rcases get_update hg with ⟨rfl, hi⟩ | ⟨-, hg⟩
        · cases hi
          rcases mem_put hm' with ⟨rfl, -⟩ | ⟨hm', -⟩
          · have hid' : vma.id = v.id := Option.some.inj he
            rcases List.mem_cons.1 hv with rfl | hv
            · exact hnew.vm_file
            · have := hwf.vmas.id hv
              omega
          · exact old hf hm'
        · exact old hg hm'
  | quiet | unlinked | requested | refused | closed | invalidated | shut => exact h.shrinks (hd.shrinks trivial)

/-- In every state reached the VMA an mr points to is one of its file. -/
theorem Reachable.ownVmas {s : Kernel} (h : Reachable P s) : OwnVmas s := by
  obtain ⟨os, h⟩ := h
  have h' : Runs.Run (· = init) (Runs.only (fun _ _ => True) (step P)) s os := h.mono fun _ _ _ ht => ⟨trivial, ht⟩
  obtain ⟨es, he⟩ : ∃ es, EventRun P (fun _ => True) s es := run_events (fun _ _ _ _ _ _ => trivial) h'
  refine he.inv_of (Wf P) OwnVmas (fun s es hr => EventRun.wf hr) ?_ fun s e s' hwf ho hd => hd.2.ownVmas hwf ho
  rintro s rfl
  exact ⟨nofun, nofun⟩

/-! ## The operations on the file -/

/-- The file an operation works on. -/
def Op.file (s : Kernel) : Op → Option Nat
  | .openFile minor _ kzalloc => if minor < 1 ∧ kzalloc = true then some s.fresh else none
  | .ioctl f _ _ => some f
  | .mmap f _ _ _ _ _ => some f
  | .munmap v => (s.vmas.find? (·.id = v)).map (·.vm_file)
  | .callback f _ => some f
  | .release f _ => some f

theorem map_ok {ε α β : Type} {x : Except ε α} {g : α → β} {b : β} : x.map g = .ok b ↔ ∃ a, x = .ok a ∧ g a = b := by
  cases x with
  | error e => simp [Except.map]
  | ok a => simp [Except.map]

theorem munmap_file {s : Kernel} {vma : Vma} (hwf : Wf P s) (hv : vma ∈ s.vmas) :
    (Op.munmap vma.id).file s = some vma.vm_file := by
  rw [Op.file]
  cases hfind : s.vmas.find? (·.id = vma.id) with
  | none =>
    have hne := List.find?_eq_none.1 hfind vma hv
    simp at hne
  | some w =>
    have hid : w.id = vma.id := by simpa using List.find?_some hfind
    rw [hwf.vmas.inj w (List.mem_of_find?_eq_some hfind) vma hv hid]
    rfl

/-- With file `f` alone an operation on it can do what it can do among the others, and answers the same. -/
theorem step_only {s t : Kernel} {f : Nat} {o : Op} {r : Reply} (hwf : Wf P s) (how : OwnVmas s)
    (ho : o.file s = some f) :
    Step P (s.only f) o r t ↔ ∃ s', Step P s o r s' ∧ s'.only f = t := by
  cases o with
  | openFile minor cur kzalloc =>
    rw [Op.file] at ho
    split at ho
    swap
    · cases ho
    cases ho
    have he := @open_only s minor cur kzalloc
    constructor
    · intro h
      cases h
      rw [he]
      exact ⟨_, .openFile, rfl⟩
    · rintro ⟨s', h, rfl⟩
      cases h
      have h : Step P (s.only s.fresh) (.openFile minor cur kzalloc) _ _ := .openFile
      rwa [he] at h
  | ioctl g cur cmd =>
    cases ho
    constructor
    · intro h
      cases h with
      | ioctl h =>
        rw [ioctl_only how.vma] at h
        obtain ⟨a, ha, he⟩ := map_ok.1 h
        cases he
        exact ⟨a.2, .ioctl ha, rfl⟩
    · rintro ⟨s', h, rfl⟩
      cases h with
      | ioctl h => exact .ioctl (by rw [ioctl_only how.vma]; exact map_ok.2 ⟨_, h, rfl⟩)
  | mmap g cur start len off env =>
    cases ho
    constructor
    · intro h
      cases h with
      | mmap h =>
        rw [mmap_only] at h
        obtain ⟨a, ha, he⟩ := map_ok.1 h
        cases he
        exact ⟨a.2, .mmap ha, rfl⟩
    · rintro ⟨s', h, rfl⟩
      cases h with
      | mmap h => exact .mmap (by rw [mmap_only]; exact map_ok.2 ⟨_, h, rfl⟩)
  | munmap v =>
    constructor
    · intro h
      cases h with
      | @munmap vma hv =>
        obtain ⟨hmem, rfl⟩ := mem_keep.1 hv
        exact ⟨_, .munmap hmem, munmap_only.symm⟩
    · rintro ⟨s', h, rfl⟩
      cases h with
      | @munmap vma hv =>
        obtain rfl : vma.vm_file = f := Option.some.inj ((munmap_file hwf hv).symm.trans ho)
        rw [← munmap_only]
        exact .munmap (mem_keep.2 ⟨hv, rfl⟩)
  | callback g ptr =>
    cases ho
    constructor
    · intro h
      cases h with
      | @callback _ info mr _ hp hf hm h =>
        rw [only_self] at hf
        rw [nvCallback_only (how.vma info hf mr hm)] at h
        obtain ⟨s', hs, rfl⟩ := map_ok.1 h
        exact ⟨s', .callback hp hf hm hs, rfl⟩
    · rintro ⟨s', h, rfl⟩
      cases h with
      | @callback _ info mr _ hp hf hm h =>
        refine .callback hp ((only_self _ _).trans hf) hm ?_
        rw [nvCallback_only (how.vma info hf mr hm)]
        exact map_ok.2 ⟨_, h, rfl⟩
  | release g env =>
    cases ho
    constructor
    · intro h
      cases h with
      | release h =>
        rw [release_only how.vma] at h
        obtain ⟨a, ha, he⟩ := map_ok.1 h
        cases he
        exact ⟨a.2, .release ha, rfl⟩
    · rintro ⟨s', h, rfl⟩
      cases h with
      | release h => exact .release (by rw [release_only how.vma]; exact map_ok.2 ⟨_, h, rfl⟩)

/-! ## The operations on other files -/

/-- Nothing of file `f` has changed, and no address is taken back. -/
structure Leaves (f : Nat) (s s' : Kernel) : Prop where
  file : s'.files f = s.files f
  vmas : keep f s'.vmas = keep f s.vmas
  fresh : s.fresh ≤ s'.fresh

theorem Leaves.refl (f : Nat) (s : Kernel) : Leaves f s s := ⟨rfl, rfl, Nat.le_refl _⟩

theorem Leaves.trans {f : Nat} {s s' s'' : Kernel} (h : Leaves f s s') (h' : Leaves f s' s'') : Leaves f s s'' :=
  ⟨h'.file.trans h.file, h'.vmas.trans h.vmas, Nat.le_trans h.fresh h'.fresh⟩

theorem update_leaves {s s' : Kernel} {f g : Nat} {x : Option Info} (hg : g ≠ f)
    (hfiles : s'.files = Function.update s.files g x) (hv : keep f s'.vmas = keep f s.vmas)
    (hfresh : s.fresh ≤ s'.fresh) : Leaves f s s' :=
  ⟨by rw [hfiles, Function.update_of_ne hg.symm], hv, hfresh⟩

theorem zap_leaves {f g : Nat} (hg : g ≠ f) (vma : Vma) (vmas : List Vma) :
    keep f (gdrdrv_zap_vma P g vma vmas) = keep f vmas := by
  rw [← zap_keep]
  unfold gdrdrv_zap_vma unmap_mapping_range
  refine (List.map_congr_left fun v hv => ?_).trans (List.map_id _)
  have hvf : v.vm_file = f := (mem_keep.1 hv).2
  rw [if_neg fun he => hg (he.symm.trans hvf)]
  rfl

/-- Destroying the mappings of an mr of file `g`. -/
theorem zapIfMapped_leaves {f g : Nat} {mr m : Mr} {vmas vmas' : List Vma} (hg : g ≠ f)
    (hm : mr.vma.isSome = true → mr.mapping = some g) (h : zapIfMapped P mr vmas = .ok (m, vmas')) :
    keep f vmas' = keep f vmas := by
  obtain ⟨-, ⟨-, rfl⟩ | ⟨-, k, v, hk, hv, -, rfl⟩⟩ := zapIfMapped_cases h
  · rfl
  · have hmg := hm (by rw [hv]; rfl)
    obtain rfl : k = g := Option.some.inj (hk.symm.trans hmg)
    exact zap_leaves hg v vmas

theorem unpin_leaves {env : PutEnv} {s s' : Kernel} {f g handle : Nat} {info : Info} {ret : Int} (hg : g ≠ f)
    (hm : ∀ mr ∈ info.mr_list, mr.vma.isSome = true → mr.mapping = some g) (hf : s.files g = some info)
    (hu : __gdrdrv_unpin_buffer P env s g info handle = .ok (ret, s')) : Leaves f s s' := by
  rcases unpin_cases hf hu with ⟨-, -, rfl⟩ | ⟨-, mr, hs, hd⟩
  · exact .refl f s'
  · cases hd with
    | unlinked hf' hmr hz hfiles hfresh =>
      exact update_leaves hg hfiles (zapIfMapped_leaves hg (hm mr (search_mem hs)) hz) (Nat.le_of_eq hfresh.symm)

theorem pin_leaves {q : PinRequest} {s s' : Kernel} {f g handle : Nat} {info : Info} {ret : Int} (hg : g ≠ f)
    (hp : __gdrdrv_pin_buffer P q.env s g info q.addr q.size q.p2p_token q.va_space q.flags = .ok (ret, handle, s')) :
    Leaves f s s' := by
  rcases pin_inv hp with ⟨-, hfail⟩ | ⟨-, mr, info', -, -, rfl⟩
  · obtain ⟨hfiles, hvmas, hfresh⟩ := hfail.same
    exact ⟨by rw [hfiles], by rw [hvmas], hfresh⟩
  · exact update_leaves hg rfl rfl (Nat.le_add_right _ _)

theorem releaseLoop_leaves {env : Nat → PutEnv} {f g : Nat} {l : List Mr} {vmas vmas' : List Vma}
    {n n' : Int} (hg : g ≠ f) (hm : ∀ mr ∈ l, mr.vma.isSome = true → mr.mapping = some g)
    (h : releaseLoop P env l vmas n = .ok (vmas', n')) :
    keep f vmas' = keep f vmas := by
  induction l generalizing vmas n with
  | nil =>
    obtain ⟨rfl, -⟩ := Prod.mk.inj (Except.ok.inj h)
    rfl
  | cons mr rest ih =>
    rw [releaseLoop_cons] at h
    cases hz : zapIfMapped P mr vmas with
    | error e => rw [hz] at h; cases h
    | ok z =>
      obtain ⟨m1, v1⟩ := z
      obtain ⟨rfl, -⟩ := zapIfMapped_cases hz
      rw [hz] at h
      simp only [bind, Except.bind] at h
      generalize hfree : gdr_free_mr_unlocked P _ _ v1 n = x at h
      cases x with
      | error e => cases h
      | ok x =>
        obtain ⟨v2, n2⟩ := x
        obtain rfl : v2 = v1 := free_unmapped rfl hfree
        have hrest := ih (fun m hm' => hm m (List.mem_cons_of_mem _ hm')) h
        exact hrest.trans (zapIfMapped_leaves hg (hm mr List.mem_cons_self) hz)

theorem ioctl_leaves {s s' : Kernel} {f g cur : Nat} {cmd : Cmd} {r : Reply} (how : OwnVmas s) (hg : g ≠ f)
    (h : gdrdrv_ioctl P s g cur cmd = .ok (r, s')) : Leaves f s s' := by
  cases gdrdrv_ioctl_runs P s g cur cmd with
  | same _ hx =>
    rw [hx] at h
    obtain ⟨-, rfl⟩ := Prod.mk.inj (Except.ok.inj h)
    exact .refl f s
  | @pins q info unpin hq hf hx =>
    obtain ⟨ret, handle, s1, hp, hreply⟩ := (PinCall.mk hf (hx ▸ h)).ends
    have hs1 : Leaves f s s1 := pin_leaves hg hp
    rcases pinReply_cases hreply with ⟨-, -, rfl⟩ | ⟨-, -, rfl⟩ | ⟨-, -, rfl | ⟨info1, ret2, hf1, hu⟩⟩
    · exact hs1
    · exact hs1
    · exact hs1
    · refine hs1.trans (unpin_leaves hg (fun mr hm hv => ?_) hf1 hu)
      -- The mr just linked points to no VMA.
      rcases pin_inv hp with ⟨-, hfail⟩ | ⟨-, mr', info', hpin, -, rfl⟩
      · exact how.mapping (hfail.same.1 ▸ hf1) hm hv
      · obtain rfl : info'.list_add mr' = info1 := by simpa [Kernel.setFile] using hf1
        rcases List.mem_cons.1 hm with rfl | hm
        · obtain ⟨_, _, _, _, _, -, -, -, he⟩ := hpin.made
          rw [he] at hv
          cases hv
        · exact how.mapping hf (hpin.list ▸ hm) hv
  | @unpins env info handle _ hf hx =>
    rw [hx] at h
    cases hu : __gdrdrv_unpin_buffer P env s g info handle with
    | error e => rw [hu] at h; cases h
    | ok u =>
      rw [hu] at h
      obtain ⟨-, rfl⟩ := Prod.mk.inj (Except.ok.inj h)
      exact unpin_leaves hg (fun mr hm => how.mapping hf hm) hf hu
  | requests _ hf _ hx =>
    rw [hx] at h
    obtain ⟨-, rfl⟩ := Prod.mk.inj (Except.ok.inj h)
    exact update_leaves hg rfl rfl (Nat.le_refl _)

theorem vma_close_leaves {s : Kernel} {f : Nat} {vma : Vma} (hg : vma.vm_file ≠ f) :
    Leaves f s (gdrdrv_vma_close s vma) := by
  unfold gdrdrv_vma_close
  split
  · exact .refl f s
  split
  · exact .refl f s
  · exact update_leaves hg rfl rfl (Nat.le_refl _)

/-- An operation on another file, or on none, leaves file `f` and its VMAs as they are. -/
theorem step_other {s s' : Kernel} {f : Nat} {o : Op} {r : Reply} (hwf : Wf P s) (how : OwnVmas s)
    (ho : o.file s ≠ some f) (h : Step P s o r s') : Leaves f s s' := by
  have other : ∀ {g}, some g ≠ some f → g ≠ f := fun hg he => hg (congrArg some he)
  cases h with
  | @openFile minor cur kzalloc =>
    unfold gdrdrv_open
    split
    · exact .refl f s
    rename_i hminor
    split
    · exact .refl f s
    rename_i hk
    have hg : s.fresh ≠ f := by
      rw [Op.file, if_pos ⟨Nat.lt_of_not_le hminor, by simpa using hk⟩] at ho
      exact other ho
    exact update_leaves hg rfl rfl (Nat.le_succ _)
  | ioctl h => exact ioctl_leaves how (other ho) h
  | @mmap g cur start len off env _ _ h =>
    have hg := other ho
    cases sysMmap_ends h with
    | same _ hfiles hvmas hfresh => exact ⟨by rw [hfiles], by rw [hvmas], hfresh⟩
    | refused _ _ _ hs =>
      subst hs
      exact update_leaves hg rfl rfl (Nat.le_succ _)
    | @mapped info mr pt v _ hm hs =>
      subst hs
      have hv : v.vm_file = g := hm.new.vm_file
      refine update_leaves hg rfl ?_ (Nat.le_succ _)
      rw [keep, List.filter_cons_of_neg (by simpa [hv] using hg)]
      rfl
  | @munmap vma hv =>
    have hg : vma.vm_file ≠ f := other (munmap_file hwf hv ▸ ho)
    refine @Leaves.trans f s { s with vmas := s.vmas.filter fun v => v.id ≠ vma.id } _ ⟨rfl, ?_, Nat.le_refl _⟩
      (vma_close_leaves hg)
    -- No VMA of file `f` has the structure that goes.
    simp only [keep, List.filter_filter]
    refine List.filter_congr fun v hv' => ?_
    by_cases hvf : v.vm_file = f
    · have hid : v.id ≠ vma.id := fun he => hg (hwf.vmas.inj v hv' vma hv he ▸ hvf)
      simp [hvf, hid]
    · simp [hvf]
  | @callback g info mr _ _ hf hm h =>
    have hd := callback_path hf hm h
    cases hd with
    | invalidated hf' _ hz hfiles hfresh =>
      refine update_leaves (other ho) hfiles ?_ (Nat.le_of_eq hfresh.symm)
      split at hz
      · exact zapIfMapped_leaves (other ho) (how.mapping hf hm) hz
      · rw [(Prod.mk.inj (Except.ok.inj hz)).2]
  | @release g env _ _ h =>
    unfold gdrdrv_release at h
    cases hf : s.files g with
    | none =>
      rw [hf] at h
      obtain ⟨-, rfl⟩ := Prod.mk.inj (Except.ok.inj h)
      exact .refl f s
    | some info =>
      rw [hf] at h
      dsimp only at h
      generalize hl : releaseLoop P env info.mr_list s.vmas s.gdrdrv_nv_get_pages_refcount = l at h
      cases l with
      | error e => cases h
      | ok l =>
        obtain ⟨-, rfl⟩ := Prod.mk.inj (Except.ok.inj h)
        exact update_leaves (other ho) rfl (releaseLoop_leaves (other ho) (fun mr hm => how.mapping hf hm) hl)
          (Nat.le_refl _)

/-! ## Runs, seen from one file -/

variable (P) in
/-- Steps of the driver, labelled as file `f` sees them: its own with their replies, and the others. -/
inductive Seen (f : Nat) : Kernel → Option (Op × Reply) → Kernel → Prop
  | own {s o r s'} : o.file s = some f → Step P s o r s' → Seen f s (some (o, r)) s'
  | other {s o r s'} : o.file s ≠ some f → Step P s o r s' → Seen f s none s'

variable (P) in
/-- Steps of the driver when nobody uses another file than `f`. Addresses may be taken by
others, who also move the counter of pinned buffers, which no handler reads. -/
inductive Alone (f : Nat) : Kernel → Option (Op × Reply) → Kernel → Prop
  | own {s o r s'} : o.file s = some f → Step P s o r s' → Alone f s (some (o, r)) s'
  | other {s refcount fresh} : s.fresh ≤ fresh →
    Alone f s none { s with gdrdrv_nv_get_pages_refcount := refcount, fresh := fresh }

theorem only_file {s : Kernel} {f : Nat} {o : Op} (hwf : Wf P s) (h : o.file s = some f) :
    o.file (s.only f) = some f := by
  cases o with
  | munmap v =>
    rw [Op.file] at h ⊢
    obtain ⟨vma, hfind, hf⟩ := Option.map_eq_some_iff.1 h
    have hid : vma.id = v := by simpa using List.find?_some hfind
    rw [only_vmas, find_keep, hfind, Option.map_some, hf]
    intro w hw he
    rw [hwf.vmas.inj w hw vma (List.mem_of_find?_eq_some hfind) (he.symm.trans hid.symm), hf]
  | _ => exact h

theorem Seen.reachable {s : Kernel} {f : Nat} {ls : List (Option (Op × Reply))}
    (h : Runs.Run (· = init) (Seen P f) s ls) :
    Reachable P s := by
  induction h with
  | start h => exact ⟨[], .start h⟩
  | next _ ht ih =>
    obtain ⟨os, ho⟩ := ih
    cases ht with
    | own _ ht | other _ ht => exact ⟨_, ho.next ⟨_, ht⟩⟩

/-- What other files do is not to be seen on file `f`. Every run is for `f` a run with the same
operations and replies in which no other file is used, and it leaves the same mrs and translations; and
in the state it reaches, an operation on `f` can do exactly what it could do there. -/
theorem noninterference {s : Kernel} {f : Nat} {ls : List (Option (Op × Reply))}
    (h : Runs.Run (· = init) (Seen P f) s ls) :
    Runs.Run (· = init) (Alone P f) (s.only f) ls ∧
      ∀ o r t, o.file s = some f → (Step P (s.only f) o r t ↔ ∃ s', Step P s o r s' ∧ s'.only f = t) := by
  refine ⟨h.project (·.only f) (fun s => Wf P s ∧ OwnVmas s) (fun s ls h => ?_) ?_ fun s l s' ⟨hwf, how⟩ ht => ?_,
    fun o r t ho => step_only (Seen.reachable h).wf (Seen.reachable h).ownVmas ho⟩
  · exact ⟨(Seen.reachable h).wf, (Seen.reachable h).ownVmas⟩
  · rintro s rfl
    simp [Kernel.only, init, keep]
  · cases ht with
    | own ho ht => exact .own (only_file hwf ho) ((step_only hwf how ho).2 ⟨_, ht, rfl⟩)
    | other ho ht =>
      have hl := step_other hwf how ho ht
      rw [only_congr hl.file hl.vmas]
      exact .other hl.fresh

variable (P) in
/-- Execute `os` in turn, with what file `f` sees of it. -/
def seeAll (f : Nat) (s : Kernel) : List Op → Option (Kernel × List (Option (Op × Reply)))
  | [] => some (s, [])
  | o :: os => do
    let r ← exec P s o
    let (s', ls) ← seeAll f r.2 os
    some (s', (if o.file s = some f then some (o, r.1) else none) :: ls)

theorem seeAll_path {f : Nat} {os : List Op} {s s' : Kernel} {ls : List (Option (Op × Reply))}
    (h : seeAll P f s os = some (s', ls)) :
    Runs.Path (Seen P f) s ls s' := by
  induction os generalizing s ls with
  | nil =>
    obtain ⟨rfl, rfl⟩ := Prod.mk.inj (Option.some.inj h)
    exact .nil
  | cons o os ih =>
    obtain ⟨r, hr, h⟩ := Option.bind_eq_some_iff.1 h
    obtain ⟨⟨s1, ls1⟩, h1, h⟩ := Option.bind_eq_some_iff.1 h
    obtain ⟨rfl, rfl⟩ := Prod.mk.inj (Option.some.inj h)
    refine .cons ?_ (ih h1)
    by_cases ho : o.file s = some f
    · rw [if_pos ho]
      exact .own ho (exec_step hr)
    · rw [if_neg ho]
      exact .other ho (exec_step hr)

end

/-- Two processes pin a GPU page each and map it, then the first one unpins its page and closes its file. -/
def twoFiles : List Op :=
  [.openFile 0 1 true, .openFile 0 2 true, pinOp 0 1 0x10000 0x10000 [0x10000000],
    pinOp 1 2 0x10000 0x10000 [0x20000000], mmapOp 0 1 0x1000 0x10000 0, mmapOp 1 2 0x1000 0x10000 0,
      unpinOp 0 1 0, .release 0 fun _ => ⟨false, 0⟩]

/-- What the first process does is not to be seen on the file of the second. -/
theorem noninterference_twoFiles : ∃ s ls, Runs.Run (· = init) (Seen x86Host 1) s ls ∧ ls.map Option.isSome =
    [false, true, false, true, false, true, false, false] ∧ Runs.Run (· = init) (Alone x86Host 1) (s.only 1) ls := by
  have hex : ((seeAll x86Host 1 init twoFiles).any fun r => r.2.map Option.isSome ==
      [false, true, false, true, false, true, false, false]) = true := by decide +kernel
  obtain ⟨⟨s, ls⟩, hr, hls⟩ := Option.any_eq_true _ _ |>.1 hex
  have h0 : Runs.Run (· = init) (Seen x86Host 1) init [] := .start rfl
  have hrun : Runs.Run (· = init) (Seen x86Host 1) s ls := by simpa using h0.path (seeAll_path hr)
  exact ⟨s, ls, hrun, by simpa using hls, (noninterference hrun).1⟩

end gdrdrv
