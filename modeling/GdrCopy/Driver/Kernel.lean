import GdrCopy.Lib.Runs
import GdrCopy.Driver.Ioctl
/-!
# The driver as a machine

The entry points of the driver as operations on its state: what processes,
the kernel and the NVIDIA driver can make it do, one complete operation at a
time. An operation that would stop the kernel has no next state.
-/

namespace gdrdrv

section
variable (P : Platform)

/-- The new file and the state, or the error for a minor number other than 0 or a failed allocation. -/
def gdrdrv_open (s : Kernel) (minor cur : Nat) (kzalloc : Bool) : Int × Kernel :=
  if 1 ≤ minor then (-ENXIO_, s)
  else if !kzalloc then (-ENOMEM, s)
  else (0, { s.setFile s.fresh (some ⟨[], cur, 0, false⟩) with fresh := s.fresh + 1 })

/-- The loop of `gdrdrv_release`. -/
def releaseLoop (env : Nat → PutEnv) : List Mr → List Vma → Int → Except Fault (List Vma × Int)
  | [], vmas, refcount => .ok (vmas, refcount)
  | mr :: rest, vmas, refcount => do
    let (mr, vmas) ← if gdr_mr_is_mapped mr then gdr_mr_destroy_all_mappings P mr vmas else .ok (mr, vmas)
    let (vmas, refcount) ← gdr_free_mr_unlocked P (env mr.ptr) mr vmas refcount
    releaseLoop env rest vmas refcount

def gdrdrv_release (env : Nat → PutEnv) (s : Kernel) (f : Nat) : Except Fault (Reply × Kernel) := do
  match s.files f with
  | none => .ok (.err (-EIO_), s)
  | some info =>
    let (vmas, refcount) ← releaseLoop P env info.mr_list s.vmas s.gdrdrv_nv_get_pages_refcount
    .ok (.err 0, { s.setFile f none with vmas := vmas, gdrdrv_nv_get_pages_refcount := refcount })

/-- The mr found by handle and the VMA, once the process check has passed. -/
def gdrdrv_mmap (env : RemapEnv) (s : Kernel) (f cur : Nat) (vma : Vma) : Except Fault (Int × Vma × Kernel) :=
  match s.files f with
  | none => .ok (-EIO_, vma, s)
  | some info =>
    if !gdrdrv_check_same_process info cur then .ok (-EACCES, vma, s)
    else
      match gdr_mr_from_handle_unlocked info (gdrdrv_handle_from_off vma.vm_pgoff) with
      | none => .ok (-EINVAL, vma, s)
      | some mr =>
        match mmapLocked P env f mr vma with
        | .error e => .error e
        | .ok (ret, mr, vma) => .ok (ret, vma, s.setFile f (some (info.put mr)))

/-- Linux: the region that `mmap` sets up at host page `start` before it calls the
driver. It rounds the length up to pages, refuses 0, an offset inside a page
and a region past the end of the address space. -/
def mmapRegion (s : Kernel) (f start len : Nat) (off : BitVec 64) : Except Int Vma :=
  let pages := (len + P.PAGE_SIZE - 1) / P.PAGE_SIZE
  if off.toNat % P.PAGE_SIZE ≠ 0 ∨ pages = 0 then .error (-EINVAL)
  else if 2 ^ 64 ≤ (start + pages) * P.PAGE_SIZE then .error (-ENOMEM)
  else .ok
    { id := s.fresh, vm_file := f, vm_start := start * P.PAGE_SIZE, vm_end := (start + pages) * P.PAGE_SIZE,
      vm_pgoff := off.toNat >>> P.PAGE_SHIFT, VM_DONTCOPY := false, prot := .CACHING, ptes := [] }

/-- Linux: the region is kept when the driver returns 0. -/
def sysMmap (env : RemapEnv) (s : Kernel) (f cur start len : Nat) (off : BitVec 64) : Except Fault (Reply × Kernel) :=
  match mmapRegion P s f start len off with
  | .error e => .ok (.err e, s)
  | .ok vma =>
    match gdrdrv_mmap P env { s with fresh := s.fresh + 1 } f cur vma with
    | .error e => .error e
    | .ok (ret, vma, s) =>
      if ret = 0 then .ok (.err 0, { s with vmas := vma :: s.vmas }) else .ok (.err ret, s)

/-- `mr->vma` and `mr->cpu_mapping_type` are reset for whatever mr the page offset finds. -/
def closeMr (mr : Mr) : Mr := { mr with vma := none, cpu_mapping_type := .NONE }

def gdrdrv_vma_close (s : Kernel) (vma : Vma) : Kernel :=
  match s.files vma.vm_file with
  | none => s
  | some info =>
    match gdr_mr_from_handle_unlocked info (gdrdrv_handle_from_off vma.vm_pgoff) with
    | none => s
    | some mr => s.setFile vma.vm_file (some (info.put (closeMr mr)))

/-- Linux: the whole VMA goes away, its translations first, then `.close` runs once. -/
def sysMunmap (s : Kernel) (vma : Vma) : Kernel :=
  gdrdrv_vma_close { s with vmas := s.vmas.filter fun v => v.id ≠ vma.id } vma

/-- NVIDIA: the callback registered for the mr at `ptr` on file `f` runs. -/
def nvCallback (s : Kernel) (f : Nat) (info : Info) (mr : Mr) : Except Fault Kernel := do
  let (mr, vmas, refcount) ←
    gdrdrv_get_pages_free_callback P mr s.vmas s.gdrdrv_nv_get_pages_refcount
  .ok { s.setFile f (some (info.put mr)) with vmas := vmas, gdrdrv_nv_get_pages_refcount := refcount }

/-- What can happen to the driver. -/
inductive Op where
  | openFile (minor cur : Nat) (kzalloc : Bool)
  | ioctl (f cur : Nat) (cmd : Cmd)
  | mmap (f cur start len : Nat) (off : BitVec 64) (env : RemapEnv)
  | munmap (vma : Nat)
  | callback (f ptr : Nat)
  | release (f : Nat) (env : Nat → PutEnv)

/-- One operation. A callback needs a listed mr and a non-persistent mapping. Linux
releases a file after its last VMA is gone; nothing here depends on that. -/
inductive Step : Kernel → Op → Reply → Kernel → Prop
  | openFile {s minor cur kzalloc} :
    Step s (.openFile minor cur kzalloc) (.err (gdrdrv_open s minor cur kzalloc).1) (gdrdrv_open s minor cur kzalloc).2
  | ioctl {s f cur cmd r s'} : gdrdrv_ioctl P s f cur cmd = .ok (r, s') → Step s (.ioctl f cur cmd) r s'
  | mmap {s f cur start len off env r s'} : sysMmap P env s f cur start len off = .ok (r, s') →
    Step s (.mmap f cur start len off env) r s'
  | munmap {s vma} : vma ∈ s.vmas → Step s (.munmap vma.id) (.err 0) (sysMunmap s vma)
  | callback {s f info mr s'} : P.gdr_use_persistent_mapping = false → s.files f = some info → mr ∈ info.mr_list →
    nvCallback P s f info mr = .ok s' → Step s (.callback f mr.ptr) (.err 0) s'
  | release {s f env r s'} : gdrdrv_release P env s f = .ok (r, s') → Step s (.release f env) r s'

/-- The module has just been loaded. -/
def init : Kernel := ⟨fun _ => none, [], 0, 0⟩

def step (s : Kernel) (o : Op) (s' : Kernel) : Prop := ∃ r, Step P s o r s'

/-- Runs of the driver. -/
abbrev Run := Runs.Run (· = init) (step P)

def Reachable (s : Kernel) : Prop := ∃ os, Run P s os

/-! ## Executing operations -/

/-- The operation `o` as a function, where it is possible and does not stop the kernel. -/
def exec (s : Kernel) : Op → Option (Reply × Kernel)
  | .openFile minor cur kzalloc => some (.err (gdrdrv_open s minor cur kzalloc).1, (gdrdrv_open s minor cur kzalloc).2)
  | .ioctl f cur cmd => (gdrdrv_ioctl P s f cur cmd).toOption
  | .mmap f cur start len off env => (sysMmap P env s f cur start len off).toOption
  | .munmap v => (s.vmas.find? (·.id = v)).map fun vma => (.err 0, sysMunmap s vma)
  | .callback f ptr =>
    if P.gdr_use_persistent_mapping then none
    else do
      let info ← s.files f
      let mr ← info.mr_list.find? (·.ptr = ptr)
      let s' ← (nvCallback P s f info mr).toOption
      some (.err 0, s')
  | .release f env => (gdrdrv_release P env s f).toOption

/-- Execute `os` in turn, as long as each operation meets `ok`. -/
def execAll (ok : Kernel → Op → Bool) (s : Kernel) : List Op → Option Kernel
  | [] => some s
  | o :: os => if ok s o then (exec P s o).bind fun r => execAll ok r.2 os else none

variable {P}

theorem toOption_ok {ε α : Type} {x : Except ε α} {a : α} (h : x.toOption = some a) : x = .ok a := by
  cases x with
  | error e => cases h
  | ok b => rw [Option.some.inj h]

theorem exec_step {s s' : Kernel} {o : Op} {r : Reply} (h : exec P s o = some (r, s')) : Step P s o r s' := by
  cases o with
  | openFile minor cur kzalloc =>
    cases h
    exact .openFile
  | ioctl f cur cmd => exact .ioctl (toOption_ok h)
  | mmap f cur start len off env => exact .mmap (toOption_ok h)
  | munmap v =>
    obtain ⟨vma, hv, he⟩ := Option.map_eq_some_iff.1 h
    cases he
    have hid : vma.id = v := by simpa using List.find?_some hv
    rw [← hid]
    exact .munmap (List.mem_of_find?_eq_some hv)
  | callback f ptr =>
    by_cases hp : P.gdr_use_persistent_mapping = true
    · rw [exec, if_pos hp] at h
      cases h
    rw [exec, if_neg hp] at h
    obtain ⟨info, hf, h⟩ := Option.bind_eq_some_iff.1 h
    obtain ⟨mr, hm, h⟩ := Option.bind_eq_some_iff.1 h
    obtain ⟨s1, hc, h⟩ := Option.bind_eq_some_iff.1 h
    cases h
    have hptr : mr.ptr = ptr := by simpa using List.find?_some hm
    rw [← hptr]
    exact .callback (by simpa using hp) hf (List.mem_of_find?_eq_some hm) (toOption_ok hc)
  | release f env => exact .release (toOption_ok h)

/-- Executed operations are a run. -/
theorem execAll_run {ok : Kernel → Op → Bool} {os : List Op} {s : Kernel} (h : execAll P ok init os = some s) :
    Runs.Run (· = init) (Runs.only (fun s o => ok s o = true) (step P)) s os := by
  suffices hp : ∀ (os : List Op) (s0 : Kernel), execAll P ok s0 os = some s →
      Runs.Path (Runs.only (fun s o => ok s o = true) (step P)) s0 os s by
    have h0 : Runs.Run (· = init) (Runs.only (fun s o => ok s o = true) (step P)) init [] := .start rfl
    simpa using h0.path (hp os init h)
  intro os
  induction os with
  | nil =>
    intro s0 h
    rw [Option.some.inj h]
    exact .nil
  | cons o os ih =>
    intro s0 h
    rw [execAll] at h
    split at h
    · rename_i hok
      obtain ⟨⟨r, s1⟩, he, h⟩ := Option.bind_eq_some_iff.1 h
      exact .cons ⟨hok, r, exec_step he⟩ (ih s1 h)
    · cases h

end

/-- An x86 host with 4 KB pages and the legacy, non-persistent mappings. -/
def x86Host : Platform where
  arch := .x86
  opensource := false
  PAGE_SHIFT := 12
  page_shift_le := by decide
  gdrdrv_cpu_could_cache_gpu_mappings := false
  gdrdrv_cpu_must_use_device_mapping := false
  use_persistent_mapping := false
  gdr_support_persistent_mapping := false
  force_bar1 := false
  NVIDIA_P2P_PAGE_TABLE_VERSION := 0x00010002
  gdrdrv_pat_enabled := false
  page_is_ram := fun _ => false

/-- Process `cur` pins `size` bytes at `addr` through file `f` and is granted the pages `pages`. -/
def pinOp (f cur : Nat) (addr size : BitVec 64) (pages : List Nat) : Op :=
  .ioctl f cur (.pin_buffer true true ⟨true, .ok ⟨0, 0x00010002, .NVIDIA_P2P_PAGE_SIZE_64KB, pages, false⟩,
    0, 0, ⟨false, 0⟩⟩
    ⟨false, 0⟩ addr size 0 0)

/-- `mmap` at host page `start`, when every remap succeeds. -/
def mmapOp (f cur start len : Nat) (off : BitVec 64) : Op := .mmap f cur start len off fun _ _ _ => 0

def unpinOp (f cur handle : Nat) : Op := .ioctl f cur (.unpin_buffer true ⟨false, 0⟩ handle)

end gdrdrv
