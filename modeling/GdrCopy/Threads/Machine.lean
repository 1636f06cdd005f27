import GdrCopy.Lib.Locks
import GdrCopy.Lib.Places
import GdrCopy.Lib.Runs
import GdrCopy.Driver.Kernel
/-!
# Threads in the driver

The driver step by step: a thread moves from one lock operation or call of the NVIDIA
driver to the next, and other threads and free callbacks move in between. What a
handler does between two such points is the code of `GdrCopy.Driver`. VMAs are left
out, of which an mr only knows its own fields, and so are the timings of a pin.
-/

set_option linter.style.nameCheck false

namespace gdrdrv.Threads

open Locks (Sem)
open Places (Place)

/-! ## Where a thread stands -/

/-- Threads, and the free callback that the NVIDIA driver may run for each mr. -/
inductive Party where
  | thread (t : Nat)
  | callback (m : Nat)
  deriving DecidableEq, Repr

/-- What a handler does with the mr it got by handle, while it holds the semaphore. -/
inductive Use where
  /-- `gdrdrv_get_cb_flag`, `gdrdrv_get_info` and `gdrdrv_get_info_v2`. -/
  | read
  /-- `gdrdrv_req_mapping_type`. -/
  | req (t : MrType)
  /-- `gdrdrv_mmap`. -/
  | mmap (env : RemapEnv) (vma : Vma)
  /-- `gdrdrv_vma_close`. -/
  | close

/-- What an mr is looked up for. -/
inductive Goal where
  | use (u : Use)
  | unpin

/-- The lookup takes the semaphore for writing. -/
def Goal.write : Goal → Bool
  | .use .read => false
  | .use (.req _) => true
  | .use (.mmap _ _) => true
  | .use .close => true
  | .unpin => true

/-- Where `gdr_free_mr_unlocked` returns to: an ioctl on file `f`, or the loop of `gdrdrv_release`. -/
inductive Ret where
  | ioctl (f : Nat)
  | release (f : Nat)

/-- The parameters of a pin. -/
structure PinReq where
  addr : Nat
  size : Nat
  p2p_token : Nat
  va_space : Nat
  flags : Nat

/-- The next step of a party, with the local variables it still needs. -/
inductive Pc where
  | idle
  -- `gdr_get_mr_from_handle`, the handler and `gdr_put_mr`
  | getLock (f handle : Nat) (g : Goal)
  | getFind (f handle : Nat) (g : Goal)
  | getDown (f m : Nat) (g : Goal)
  | getNone (f : Nat)
  | getUnlock (f m : Nat) (u : Use)
  | use (f m : Nat) (u : Use)
  | put (f m : Nat) (u : Use)
  -- `__gdrdrv_unpin_buffer`, once it has the semaphore
  | unpinDel (f m : Nat)
  | unpinUnlock (f m : Nat)
  -- `gdr_free_mr_unlocked`; `held` unless `__gdrdrv_pin_buffer` failed before `down_write`
  | free (m : Nat) (held : Bool) (r : Ret)
  | putCall (m : Nat) (r : Ret)
  | putIn (m : Nat) (r : Ret)
  | putDone (m : Nat) (r : Ret)
  | kfree (m : Nat) (r : Ret)
  -- `__gdrdrv_pin_buffer` and the `copy_to_user` after it
  | pin (f : Nat) (q : PinReq)
  | pinDown (f m : Nat)
  | pinGet (f m : Nat)
  | pinGetIn (f m : Nat)
  | pinInc (f m : Nat) (pt : PageTable)
  | pinLock (f m : Nat)
  | pinAdd (f m : Nat)
  | pinFail (f m : Nat)
  | pinUp (f m handle : Nat)
  | pinUnlock (f handle : Nat)
  | pinCopy (f handle : Nat)
  -- `gdrdrv_release`
  | relLock (f : Nat)
  | relNext (f : Nat)
  | relDown (f m : Nat)
  | relDel (f m : Nat)
  -- `gdrdrv_get_pages_free_callback`, from its registration on
  | armed
  | cbDown (m : Nat)
  | cbBody (m : Nat)
  | cbDec (m : Nat)
  | cbUp (m : Nat)
  | cbRet
  | ran
  | dead

/-- The thread goes on from `gdr_free_mr_unlocked`. -/
def Ret.pc : Ret → Pc
  | .ioctl _ => .idle
  | .release f => .relNext f

/-- The callback has been called and has not returned. -/
def Pc.running : Pc → Prop
  | .cbDown _ => True
  | .cbBody _ => True
  | .cbDec _ => True
  | .cbUp _ => True
  | .cbRet => True
  | _ => False

/-- The file that `gdrdrv_release` is at work on. -/
def Pc.releasing : Pc → Option Nat
  | .relLock f => some f
  | .relNext f => some f
  | .relDown f _ => some f
  | .relDel f _ => some f
  | .free _ _ (.release f) => some f
  | .putCall _ (.release f) => some f
  | .putIn _ (.release f) => some f
  | .putDone _ (.release f) => some f
  | .kfree _ (.release f) => some f
  | _ => none

def Ret.file : Ret → Nat
  | .ioctl f => f
  | .release f => f

/-- The file that a thread has an operation in progress on. -/
def Pc.file : Pc → Option Nat
  | .getLock f _ _ => some f
  | .getFind f _ _ => some f
  | .getDown f _ _ => some f
  | .getNone f => some f
  | .getUnlock f _ _ => some f
  | .use f _ _ => some f
  | .put f _ _ => some f
  | .unpinDel f _ => some f
  | .unpinUnlock f _ => some f
  | .free _ _ r => some r.file
  | .putCall _ r => some r.file
  | .putIn _ r => some r.file
  | .putDone _ r => some r.file
  | .kfree _ r => some r.file
  | .pin f _ => some f
  | .pinDown f _ => some f
  | .pinGet f _ => some f
  | .pinGetIn f _ => some f
  | .pinInc f _ _ => some f
  | .pinLock f _ => some f
  | .pinAdd f _ => some f
  | .pinFail f _ => some f
  | .pinUp f _ _ => some f
  | .pinUnlock f _ => some f
  | .pinCopy f _ => some f
  | .relLock f => some f
  | .relNext f => some f
  | .relDown f _ => some f
  | .relDel f _ => some f
  | _ => none

/-! ## The state -/

/-- `struct gdr_info` of a file, while it is open. -/
structure File where
  isOpen : Bool
  lock : Option Party
  mr_list : List Nat
  next_handle : Nat
  next_handle_overflow : Bool

/-- What has become of the page table obtained for an mr. -/
inductive Table where
  | none
  | held
  | returned
  | taken
  deriving DecidableEq, Repr

/-- An mr is named by the number of its allocation, so that memory used after it was
freed is never mistaken for a new mr. `mrs` is the memory: reading a freed mr gives what was there. -/
structure State where
  pc : Party → Pc
  files : Nat → File
  mrs : Nat → Mr
  sem : Nat → Sem Party
  /-- The holder of the lock inside the NVIDIA driver. -/
  nv : Option Party
  gdrdrv_nv_get_pages_refcount : Int
  fresh : Nat
  /-- ghost: the page table of each mr, and whether `put_pages` failed to return it. -/
  table : Nat → Table
  failed : Nat → Bool
  /-- ghost: increments and decrements of the refcount for the page table of each mr. -/
  incs : Nat → Nat
  decs : Nat → Nat
  /-- ghost: how often each mr has been freed, and where it is. -/
  kfrees : Nat → Nat
  place : Nat → Place Party Nat

namespace State
variable (s : State)

def go (p : Party) (x : Pc) : State := { s with pc := Function.update s.pc p x }

def setLock (f : Nat) (o : Option Party) : State :=
  { s with files := Function.update s.files f { s.files f with lock := o } }

def setList (f : Nat) (l : List Nat) : State :=
  { s with files := Function.update s.files f { s.files f with mr_list := l } }

def down (m : Nat) (p : Party) (write : Bool) : State :=
  { s with sem := Function.update s.sem m ((s.sem m).down p write) }

def up (m : Nat) (p : Party) (write : Bool) : State := { s with sem := Function.update s.sem m ((s.sem m).up p write) }

def setMr (m : Nat) (mr : Mr) : State := { s with mrs := Function.update s.mrs m mr }

def setTable (m : Nat) (t : Table) : State := { s with table := Function.update s.table m t }

/-- `atomic64_fetch_inc`, for the page table of `m`. -/
def inc (m : Nat) : State :=
  { s with
    gdrdrv_nv_get_pages_refcount := s.gdrdrv_nv_get_pages_refcount + 1
    incs := Function.update s.incs m (s.incs m + 1) }

/-- `atomic64_fetch_dec`, for the page table of `m`. -/
def dec (m : Nat) : State :=
  { s with
    gdrdrv_nv_get_pages_refcount := s.gdrdrv_nv_get_pages_refcount - 1
    decs := Function.update s.decs m (s.decs m + 1) }

def close (f : Nat) : State := { s with files := Function.update s.files f { s.files f with isOpen := false } }

def setPlace (m : Nat) (x : Place Party Nat) : State := { s with place := Function.update s.place m x }

/-- `kmalloc` and `init_rwsem`. -/
def alloc (p : Party) (mr : Mr) : State :=
  { (s.setMr s.fresh mr).setPlace s.fresh (.owned p) with
    fresh := s.fresh + 1
    sem := Function.update s.sem s.fresh .unlocked }

/-- `gdr_mr_destroy_all_mappings`, if the mr is mapped, and `list_del`. -/
def unlink (p : Party) (f m : Nat) (mr : Mr) : State :=
  ((s.setMr m mr).setList f ((s.files f).mr_list.filter (· ≠ m))).setPlace m (.owned p)

def setNv (o : Option Party) : State := { s with nv := o }

/-- A new operation on `f` can begin: the file is open and not being released. -/
def Usable (f : Nat) : Prop := (s.files f).isOpen = true ∧ ∀ p, (s.pc p).releasing ≠ some f

end State

/-! ## Between two steps -/

/-- The loop of `gdr_mr_from_handle_unlocked`, over the addresses of the mrs. -/
def findLoop (mrs : Nat → Mr) (handle : Nat) (mr : Option Nat) : List Nat → Option Nat
  | [] => mr
  | p :: rest => if handle = (mrs p).handle then some p else findLoop mrs handle (some p) rest

/-- `gdr_mr_destroy_all_mappings`, if the mr is mapped. -/
def unmapped (mr : Mr) : Mr := if gdr_mr_is_mapped mr then { mr with cpu_mapping_type := .NONE } else mr

section
variable (P : Platform)

/-- What the handler leaves of the mr, unless it stops the kernel. -/
def Use.run (f : Nat) (mr : Mr) : Use → Option Mr
  | .read => some mr
  | .req t => some (reqLocked P mr t).2
  | .mmap env vma => (mmapLocked P env f mr vma).toOption.map fun r => r.2.1
  | .close => some (closeMr mr)

/-- The mr once it has its page table, and whether the checks accept that. -/
def tableSet (mr : Mr) (pt : PageTable) : Mr × Bool :=
  match checkPageTable P pt with
  | .error _ => ({ mr with page_table := some pt }, false)
  | .ok page_size => ({ mr with page_table := some pt, page_size := page_size }, true)

/-- The handle for `mr`, and the file with its new counters. -/
def newHandle (file : File) (mr : Mr) : Option (Nat × File) :=
  (gdr_generate_mr_handle P ⟨[], 0, file.next_handle, file.next_handle_overflow⟩ mr.mapped_size).map fun r =>
    (r.1, { file with next_handle := r.2.next_handle, next_handle_overflow := r.2.next_handle_overflow })

/-! ## Steps -/

-- The NVIDIA driver has one lock around `get_pages`, `put_pages` and callbacks.
variable (serial : Bool)

/-- The NVIDIA driver can start on a call. -/
def State.NvFree (s : State) : Prop := serial = true → s.nv = none

def State.takeNv (s : State) (p : Party) : State := s.setNv (if serial then some p else none)

/-- One step of party `p`. A lock is taken only when it is free; a call of the NVIDIA
driver is one step to get in and one to return. -/
inductive Step : State → Party → State → Prop
  | openFile {s t f} : s.pc (.thread t) = .idle → (s.files f).isOpen = false →
    Step s (.thread t) { s with files := Function.update s.files f ⟨true, none, [], 0, false⟩ }
  -- operations by handle
  | get {s t f handle g} : s.pc (.thread t) = .idle → s.Usable f →
    Step s (.thread t) (s.go (.thread t) (.getLock f handle g))
  | getLock {s t f handle g} : s.pc (.thread t) = .getLock f handle g → (s.files f).lock = none →
    Step s (.thread t) ((s.setLock f (some (.thread t))).go (.thread t) (.getFind f handle g))
  | found {s t f handle g m} : s.pc (.thread t) = .getFind f handle g →
    findLoop s.mrs handle none (s.files f).mr_list = some m → Step s (.thread t) (s.go (.thread t) (.getDown f m g))
  | notFound {s t f handle g} : s.pc (.thread t) = .getFind f handle g →
    findLoop s.mrs handle none (s.files f).mr_list = none → Step s (.thread t) (s.go (.thread t) (.getNone f))
  | getNone {s t f} : s.pc (.thread t) = .getNone f → Step s (.thread t) ((s.setLock f none).go (.thread t) .idle)
  | getDown {s t f m u} : s.pc (.thread t) = .getDown f m (.use u) → (s.sem m).Free (Goal.use u).write →
    Step s (.thread t) ((s.down m (.thread t) (Goal.use u).write).go (.thread t) (.getUnlock f m u))
  | getUnlock {s t f m u} : s.pc (.thread t) = .getUnlock f m u →
    Step s (.thread t) ((s.setLock f none).go (.thread t) (.use f m u))
  | use {s t f m u mr} : s.pc (.thread t) = .use f m u → u.run P f (s.mrs m) = some mr →
    Step s (.thread t) ((s.setMr m mr).go (.thread t) (.put f m u))
  | put {s t f m u} : s.pc (.thread t) = .put f m u →
    Step s (.thread t) ((s.up m (.thread t) (Goal.use u).write).go (.thread t) .idle)
  -- unpin
  | unpinDown {s t f m} : s.pc (.thread t) = .getDown f m .unpin → (s.sem m).Free true →
    Step s (.thread t) ((s.down m (.thread t) true).go (.thread t) (.unpinDel f m))
  | unpinDel {s t f m} : s.pc (.thread t) = .unpinDel f m →
    Step s (.thread t) ((s.unlink (.thread t) f m (unmapped (s.mrs m))).go (.thread t) (.unpinUnlock f m))
  | unpinUnlock {s t f m} : s.pc (.thread t) = .unpinUnlock f m →
    Step s (.thread t) ((s.setLock f none).go (.thread t) (.free m true (.ioctl f)))
  -- the free routine
  | freeTable {s t m held r} : s.pc (.thread t) = .free m held r → gdr_mr_is_mapped (s.mrs m) = false →
    (s.mrs m).page_table ≠ none → Step s (.thread t) ((s.up m (.thread t) true).go (.thread t) (.putCall m r))
  | freeNone {s t m held r} : s.pc (.thread t) = .free m held r → gdr_mr_is_mapped (s.mrs m) = false →
    (s.mrs m).page_table = none → Step s (.thread t) ((s.up m (.thread t) true).go (.thread t) (.kfree m r))
  | putCall {s t m r} : s.pc (.thread t) = .putCall m r → s.NvFree serial →
    Step s (.thread t) ((s.takeNv serial (.thread t)).go (.thread t) (.putIn m r))
  | putReturn {s t m r} : s.pc (.thread t) = .putIn m r → s.pc (.callback m) = .armed →
    Step s (.thread t) ((((s.setNv none).setTable m .returned).go (.callback m) .dead).go (.thread t) (.putDone m r))
  | putPersistent {s t m r} : s.pc (.thread t) = .putIn m r → s.pc (.callback m) = .idle →
    Step s (.thread t) (((s.setNv none).setTable m .returned).go (.thread t) (.putDone m r))
  | putLate {s t m r} : s.pc (.thread t) = .putIn m r → s.pc (.callback m) = .ran →
    Step s (.thread t) ((s.setNv none).go (.thread t) (.kfree m r))
  | putFails {s t m r} : s.pc (.thread t) = .putIn m r → s.pc (.callback m) = .armed ∨ s.pc (.callback m) = .idle →
    Step s (.thread t) (({ s.setNv none with failed := Function.update s.failed m true }.go (.callback m) .dead).go
      (.thread t) (.kfree m r))
  | putDec {s t m r} : s.pc (.thread t) = .putDone m r → Step s (.thread t) ((s.dec m).go (.thread t) (.kfree m r))
  | kfree {s t m r} : s.pc (.thread t) = .kfree m r →
    Step s (.thread t) ({ s.setPlace m .freed with kfrees := Function.update s.kfrees m (s.kfrees m + 1) }.go
    (.thread t) r.pc)
  -- pin
  | pin {s t f q} : s.pc (.thread t) = .idle → s.Usable f → Step s (.thread t) (s.go (.thread t) (.pin f q))
  | pinNoMem {s t f q} : s.pc (.thread t) = .pin f q → Step s (.thread t) (s.go (.thread t) .idle)
  | pinRefused {s t f q ret} : s.pc (.thread t) = .pin f q → pinArgs P q.p2p_token q.va_space q.flags = .error ret →
    Step s (.thread t) ((s.alloc (.thread t) (newMr s.fresh q.addr q.size 0 0 false)).go (.thread t)
    (.free s.fresh false (.ioctl f)))
  | pinAlloc {s t f q a} : s.pc (.thread t) = .pin f q → pinArgs P q.p2p_token q.va_space q.flags = .ok a →
    Step s (.thread t) ((s.alloc (.thread t) (newMr s.fresh q.addr q.size a.1 a.2.1 a.2.2)).go (.thread t)
    (.pinDown f s.fresh))
  | pinDown {s t f m} : s.pc (.thread t) = .pinDown f m → (s.sem m).Free true →
    Step s (.thread t) ((s.down m (.thread t) true).go (.thread t) (.pinGet f m))
  | pinGet {s t f m} : s.pc (.thread t) = .pinGet f m → s.NvFree serial →
    Step s (.thread t) ((s.takeNv serial (.thread t)).go (.thread t) (.pinGetIn f m))
  | pinGot {s t f m pt} : s.pc (.thread t) = .pinGetIn f m →
    Step s (.thread t) ((((s.setNv none).setTable m .held).go (.callback m)
      (if P.gdr_use_persistent_mapping then .idle else .armed)).go (.thread t) (.pinInc f m pt))
  | pinGetFails {s t f m} : s.pc (.thread t) = .pinGetIn f m →
    Step s (.thread t) ((s.setNv none).go (.thread t) (.free m true (.ioctl f)))
  | pinInc {s t f m pt} : s.pc (.thread t) = .pinInc f m pt →
    Step s (.thread t) (((s.inc m).setMr m (tableSet P (s.mrs m) pt).1).go (.thread t)
      (if (tableSet P (s.mrs m) pt).2 then .pinLock f m else .free m true (.ioctl f)))
  | pinLock {s t f m} : s.pc (.thread t) = .pinLock f m → (s.files f).lock = none →
    Step s (.thread t) ((s.setLock f (some (.thread t))).go (.thread t) (.pinAdd f m))
  | pinAdd {s t f m handle file} : s.pc (.thread t) = .pinAdd f m → newHandle P (s.files f)
    (s.mrs m) = some (handle, file) →
    Step s (.thread t) ({ (s.setMr m { s.mrs m with handle := handle }).setPlace m (.listed f) with
      files := Function.update s.files f { file with mr_list := m :: (s.files f).mr_list } }.go (.thread t)
      (.pinUp f m handle))
  | pinNoHandle {s t f m} : s.pc (.thread t) = .pinAdd f m → newHandle P (s.files f) (s.mrs m) = none →
    Step s (.thread t) (s.go (.thread t) (.pinFail f m))
  | pinFail {s t f m} : s.pc (.thread t) = .pinFail f m →
    Step s (.thread t) ((s.setLock f none).go (.thread t) (.free m true (.ioctl f)))
  | pinUp {s t f m handle} : s.pc (.thread t) = .pinUp f m handle →
    Step s (.thread t) ((s.up m (.thread t) true).go (.thread t) (.pinUnlock f handle))
  | pinUnlock {s t f handle} : s.pc (.thread t) = .pinUnlock f handle →
    Step s (.thread t) ((s.setLock f none).go (.thread t) (.pinCopy f handle))
  | pinDone {s t f handle} : s.pc (.thread t) = .pinCopy f handle → Step s (.thread t) (s.go (.thread t) .idle)
  | pinUndo {s t f handle} : s.pc (.thread t) = .pinCopy f handle →
    Step s (.thread t) (s.go (.thread t) (.getLock f handle .unpin))
  -- release, with no other operation on the file in progress
  | release {s t f} : s.pc (.thread t) = .idle → (s.files f).isOpen = true → (∀ p, (s.pc p).file ≠ some f) →
    Step s (.thread t) (s.go (.thread t) (.relLock f))
  | relLock {s t f} : s.pc (.thread t) = .relLock f → (s.files f).lock = none →
    Step s (.thread t) ((s.setLock f (some (.thread t))).go (.thread t) (.relNext f))
  | relNext {s t f m rest} : s.pc (.thread t) = .relNext f → (s.files f).mr_list = m :: rest →
    Step s (.thread t) (s.go (.thread t) (.relDown f m))
  | relDown {s t f m} : s.pc (.thread t) = .relDown f m → (s.sem m).Free true →
    Step s (.thread t) ((s.down m (.thread t) true).go (.thread t) (.relDel f m))
  | relDel {s t f m} : s.pc (.thread t) = .relDel f m →
    Step s (.thread t) ((s.unlink (.thread t) f m (unmapped (s.mrs m))).go (.thread t) (.free m true (.release f)))
  | relUnlock {s t f} : s.pc (.thread t) = .relNext f → (s.files f).mr_list = [] →
    Step s (.thread t) (((s.setLock f none).close f).go (.thread t) .idle)
  -- the callback of mr `m`
  | cbStart {s m} : s.pc (.callback m) = .armed → s.NvFree serial →
    Step s (.callback m) ((s.takeNv serial (.callback m)).go (.callback m) (.cbDown m))
  | cbDown {s m n} : s.pc (.callback m) = .cbDown n → (s.sem n).Free true →
    Step s (.callback m) ((s.down n (.callback m) true).go (.callback m) (.cbBody n))
  | cbTable {s m n} : s.pc (.callback m) = .cbBody n → (s.mrs n).page_table ≠ none →
    Step s (.callback m) (((s.setMr n { s.mrs n with cb_flag := true }).setTable n .taken).go (.callback m) (.cbDec n))
  | cbNone {s m n} : s.pc (.callback m) = .cbBody n → (s.mrs n).page_table = none →
    Step s (.callback m) ((s.setMr n { s.mrs n with cb_flag := true }).go (.callback m) (.cbUp n))
  | cbDec {s m n} : s.pc (.callback m) = .cbDec n →
    Step s (.callback m) (((s.dec n).setMr n { unmapped (s.mrs n) with page_table := none }).go (.callback m) (.cbUp n))
  | cbUp {s m n} : s.pc (.callback m) = .cbUp n → Step s (.callback m)
    ((s.up n (.callback m) true).go (.callback m) .cbRet)
  | cbRet {s m} : s.pc (.callback m) = .cbRet → Step s (.callback m) ((s.setNv none).go (.callback m) .ran)

/-- The module has just been loaded. -/
def Loaded (s : State) : Prop :=
  (∀ p, s.pc p = .idle) ∧ (∀ f, s.files f = ⟨false, none, [], 0, false⟩) ∧ (∀ m, s.sem m = .unlocked) ∧ s.nv = none ∧
    s.gdrdrv_nv_get_pages_refcount = 0 ∧ s.fresh = 0 ∧ (∀ m, s.table m = .none) ∧ (∀ m, s.failed m = false) ∧
    (∀ m, s.incs m = 0) ∧ (∀ m, s.decs m = 0) ∧ (∀ m, s.kfrees m = 0) ∧ ∀ m, s.place m = .unborn

/-- Every interleaving of the steps of any number of threads and callbacks. -/
abbrev Run := Runs.Run Loaded (Step P serial)

end

end gdrdrv.Threads
