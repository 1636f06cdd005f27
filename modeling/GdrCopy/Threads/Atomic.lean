import GdrCopy.Lib.Shared
import GdrCopy.Threads.Sections
/-!
# The driver as a shared object

`atomicDriver` is the driver whose operations take effect at once, on lists of mrs as in
`GdrCopy.Driver`. `State.atom` reads its state off the threads: where a thread or a callback has the
semaphore of an mr and is yet to write it, what it will have written.
-/

namespace gdrdrv.Threads

/-! ## The specification -/

/-- An operation of a thread. A lookup is an ioctl, an `mmap` or the close of a VMA. -/
inductive Entry where
  | lookup (f handle : Nat) (g : Goal)
  | pin (f : Nat) (q : PinReq)
  | release (f : Nat)

/-- How an operation ends: nothing was found, a handler found `mr` and left `mr'`, an mr has been freed (also by a pin
that failed), there was no memory, a pin got its handle, or the file is gone. -/
inductive Result where
  | missed
  | used (mr mr' : Mr)
  | freed
  | noMem
  | pinned (f handle : Nat)
  | released

/-- What can be seen of a thread. -/
abbrev Visible := Shared.Event Nat Entry Result

/-- What can be seen of each step of a run. -/
abbrev Trace := List (Option Visible)

/-- The open files. -/
abbrev Files := Nat → Option Info

/-- The mr once `gdrdrv_get_pages_free_callback` has run. -/
def revoked (mr : Mr) : Mr := { unmapped { mr with cb_flag := true } with page_table := none }

section
variable (P : Platform)

/-- The mr that a pin has set up, and whether the driver accepts its page table. -/
def setUp (ptr : Nat) (q : PinReq) (args : Nat × Nat × Bool) (pt : PageTable) : Mr × Bool :=
  tableSet P (newMr ptr q.addr q.size args.1 args.2.1 args.2.2) pt

/-- What an operation does at once. -/
inductive Applies : Files → Entry → Result → Files → Prop
  | missed {a f handle g info} : a f = some info → gdr_mr_from_handle_unlocked info handle = none →
    Applies a (.lookup f handle g) .missed a
  | used {a f handle u info mr mr'} : a f = some info → gdr_mr_from_handle_unlocked info handle = some mr →
    u.run P f mr = some mr' → Applies a (.lookup f handle (.use u)) (.used mr mr')
    (Function.update a f (some (info.put mr')))
  | unpinned {a f handle info mr} : a f = some info → gdr_mr_from_handle_unlocked info handle = some mr →
    Applies a (.lookup f handle .unpin) .freed (Function.update a f (some (info.list_del mr)))
  | pinned {a f q args ptr pt info info' handle} : a f = some info →
    pinArgs P q.p2p_token q.va_space q.flags = .ok args → (setUp P ptr q args pt).2 = true →
    gdr_generate_mr_handle P info (setUp P ptr q args pt).1.mapped_size = some (handle, info') →
    (∀ g i, a g = some i → ∀ mr ∈ i.mr_list, mr.ptr ≠ ptr) →
    Applies a (.pin f q) (.pinned f handle)
      (Function.update a f (some (info'.list_add { (setUp P ptr q args pt).1 with handle := handle })))
  | pinFailed {a f q} : Applies a (.pin f q) .freed a
  | noMem {a f q} : Applies a (.pin f q) .noMem a
  | released {a f info} : a f = some info → Applies a (.release f) .released (Function.update a f none)

/-- A file is opened, or the callback of an mr runs. -/
inductive Happens : Files → Files → Prop
  | opened {a f} : a f = none → Happens a (Function.update a f (some ⟨[], 0, 0, false⟩))
  | revoked {a f info mr} : a f = some info → mr ∈ info.mr_list → mr.page_table ≠ none →
    Happens a (Function.update a f (some (info.put (revoked mr))))

/-- A pin whose handle cannot be delivered goes on with an unpin. -/
def Undoes (r : Result) (e : Entry) : Prop := ∃ f handle, r = .pinned f handle ∧ e = .lookup f handle .unpin

def atomicDriver : Shared.Object Files Entry Result where
  init _ := none
  apply := Applies P
  again := Undoes
  env := Happens

/-! ## The state of the threads, seen at once -/

/-- The mr as the party that has it for writing will leave it. -/
def Pc.settle (x : Pc) (mr : Mr) : Mr :=
  match x with
  | .getUnlock f _ u => (u.run P f mr).getD mr
  | .use f _ u => (u.run P f mr).getD mr
  | .cbDec _ => { unmapped mr with page_table := none }
  | _ => mr

namespace State
variable (s : State)

def settled (m : Nat) : Mr :=
  match (s.sem m).writer with
  | none => s.mrs m
  | some p => (s.pc p).settle P (s.mrs m)

/-- The list of a file with the mrs on it. Who opened the file is left out, as all callers pass that check. -/
def info (f : Nat) : Info :=
  ⟨(s.files f).mr_list.map (s.settled P), 0, (s.files f).next_handle, (s.files f).next_handle_overflow⟩

open Classical in
/-- The files as the operations under way will have left them, so far as these have taken effect. -/
noncomputable def atom : Files := fun f => if s.Usable f then some (s.info P f) else none

/-- What can be seen of a step of a party to `s'`. A handler has its answer once it has run, and then only drops the
semaphore. -/
def seen (s' : State) : Party → Option Visible
  | .thread t =>
    match s.pc (.thread t), s'.pc (.thread t) with
    | .idle, .getLock f handle g => some (.call t (.lookup f handle g))
    | .idle, .pin f q => some (.call t (.pin f q))
    | .idle, .relLock f => some (.call t (.release f))
    | .getNone _, _ => some (.ret t .missed)
    | .use _ m _, _ => some (.ret t (.used (s.mrs m) (s'.mrs m)))
    | .kfree _ (.ioctl _), _ => some (.ret t .freed)
    | .pin _ _, .idle => some (.ret t .noMem)
    | .pinCopy f handle, .idle => some (.ret t (.pinned f handle))
    | .relNext _, .idle => some (.ret t .released)
    | _, _ => none
  | .callback _ => none

end State

variable (serial : Bool)

/-- A step of any party, with what can be seen of it. -/
def SeenStep (s : State) (e : Option Visible) (s' : State) : Prop :=
  ∃ p, Step P serial s p s' ∧ e = s.seen s' p

/-- Every interleaving, with what can be seen of it. -/
abbrev SeenRun := Runs.Run Loaded (SeenStep P serial)

variable {P serial}

theorem Run.seen {s : State} {os : List Party} (h : Run P serial s os) : ∃ es, SeenRun P serial s es := by
  induction h with
  | start h => exact ⟨[], .start h⟩
  | next _ ht ih =>
    obtain ⟨es, hr⟩ := ih
    exact ⟨_, hr.next ⟨_, ht, rfl⟩⟩

theorem SeenRun.run {s : State} {es : Trace} (h : SeenRun P serial s es) :
    ∃ os, Run P serial s os := by
  induction h with
  | start h => exact ⟨[], .start h⟩
  | next _ ht ih =>
    obtain ⟨os, hr⟩ := ih
    obtain ⟨p, hp, -⟩ := ht
    exact ⟨_, hr.next hp⟩

end

end gdrdrv.Threads
