import GdrCopy.Threads.Machine
/-!
# The invariant of the driver's threads

What a party holds, owns and refers to is read off where it stands. Three things are
then kept by every step: the locks record what the parties hold (`Locks.View.Ok`),
every mr is in one place (`Places.View.Ok`), and page table, counters and callback of
every mr fit the stage it is in (`Good`).
-/

namespace gdrdrv.Threads

open Locks (Sem)
open Places (Place)

/-! ## What a party has -/

def Ret.lock : Ret → Option Nat
  | .ioctl _ => none
  | .release f => some f

/-- The file whose `info->lock` the party holds. -/
def Pc.lock : Pc → Option Nat
  | .getFind f _ _ => some f
  | .getDown f _ _ => some f
  | .getNone f => some f
  | .getUnlock f _ _ => some f
  | .unpinDel f _ => some f
  | .unpinUnlock f _ => some f
  | .free _ _ r => r.lock
  | .putCall _ r => r.lock
  | .putIn _ r => r.lock
  | .putDone _ r => r.lock
  | .kfree _ r => r.lock
  | .pinAdd f _ => some f
  | .pinFail f _ => some f
  | .pinUp f _ _ => some f
  | .pinUnlock f _ => some f
  | .relNext f => some f
  | .relDown f _ => some f
  | .relDel f _ => some f
  | _ => none

/-- The mr whose semaphore the party holds, and whether for writing. -/
def Pc.sem : Pc → Option (Nat × Bool)
  | .getUnlock _ m u => some (m, (Goal.use u).write)
  | .use _ m u => some (m, (Goal.use u).write)
  | .put _ m u => some (m, (Goal.use u).write)
  | .unpinDel _ m => some (m, true)
  | .unpinUnlock _ m => some (m, true)
  | .free m true _ => some (m, true)
  | .pinGet _ m => some (m, true)
  | .pinGetIn _ m => some (m, true)
  | .pinInc _ m _ => some (m, true)
  | .pinLock _ m => some (m, true)
  | .pinAdd _ m => some (m, true)
  | .pinFail _ m => some (m, true)
  | .pinUp _ m _ => some (m, true)
  | .relDel _ m => some (m, true)
  | .cbBody m => some (m, true)
  | .cbDec m => some (m, true)
  | .cbUp m => some (m, true)
  | _ => none

/-- The listed mr that the thread has a pointer to, with its file. -/
def Pc.refers : Pc → Option (Nat × Nat)
  | .getDown f m _ => some (f, m)
  | .getUnlock f m _ => some (f, m)
  | .use f m _ => some (f, m)
  | .put f m _ => some (f, m)
  | .unpinDel f m => some (f, m)
  | .pinUp f m _ => some (f, m)
  | .relDown f m => some (f, m)
  | .relDel f m => some (f, m)
  | _ => none

/-- How far an mr is. -/
inductive Stage where
  | unborn
  /-- allocated -/
  | allocated
  /-- `get_pages` has returned a page table that is not counted yet -/
  | got
  /-- set up, listed or not -/
  | main
  /-- in `put_pages` -/
  | putting
  /-- `put_pages` has returned 0 -/
  | put
  /-- about to be freed -/
  | done
  | freed
  deriving DecidableEq, Repr

/-- The mr that is off every list and in the thread's hands. -/
def Pc.owns : Pc → Option (Nat × Stage)
  | .unpinUnlock _ m => some (m, .main)
  | .free m true _ => some (m, .main)
  | .free m false _ => some (m, .allocated)
  | .putCall m _ => some (m, .putting)
  | .putIn m _ => some (m, .putting)
  | .putDone m _ => some (m, .put)
  | .kfree m _ => some (m, .done)
  | .pinDown _ m => some (m, .allocated)
  | .pinGet _ m => some (m, .allocated)
  | .pinGetIn _ m => some (m, .allocated)
  | .pinInc _ m _ => some (m, .got)
  | .pinLock _ m => some (m, .main)
  | .pinAdd _ m => some (m, .main)
  | .pinFail _ m => some (m, .main)
  | _ => none

/-- The mr in the party's hands, if it has one. -/
def Pc.owned (x : Pc) : Option Nat := x.owns.map Prod.fst

def State.locks (s : State) : Locks.View Party Nat Nat :=
  ⟨fun f => (s.files f).lock, s.sem, fun p => (s.pc p).lock, fun p => (s.pc p).sem⟩

def State.places (s : State) : Places.View Party Nat Nat :=
  ⟨s.place, fun f => (s.files f).mr_list, fun p => (s.pc p).owned, fun p => (s.pc p).refers⟩

/-- The stage of an mr follows from where it is. -/
def State.stage (s : State) (m : Nat) : Stage :=
  match s.place m with
  | .unborn => .unborn
  | .owned p => ((s.pc p).owns.map Prod.snd).getD .main
  | .listed _ => .main
  | .freed => .freed

/-! ## Page table, counters and callback -/

/-- What is recorded of one mr. -/
structure Facts where
  callback : Pc
  hasTable : Bool
  table : Table
  failed : Bool
  incs : Nat
  decs : Nat
  kfrees : Nat

def State.facts (s : State) (m : Nat) : Facts :=
  ⟨s.pc (.callback m), (s.mrs m).page_table.isSome, s.table m, s.failed m, s.incs m, s.decs m, s.kfrees m⟩

/-- The callback of `m` has not taken the page table yet. -/
def Pc.Ahead (m : Nat) (c : Pc) : Prop := c = .idle ∨ c = .armed ∨ c = .cbDown m ∨ c = .cbBody m

/-- The callback has run, or never will: it does not touch the mr any more. -/
def Pc.Over (c : Pc) : Prop := c = .idle ∨ c = .cbRet ∨ c = .ran ∨ c = .dead

/-- What the records of mr `m` may be between the time its page table is counted and
the time `put_pages` returns: the callback has not taken the page table, or it has
taken it and not counted that, or it has done both. -/
inductive Counted (m : Nat) : Facts → Prop
  | ahead {c k} : Pc.Ahead m c → Counted m ⟨c, true, .held, false, 1, 0, k⟩
  | dec {k} : Counted m ⟨.cbDec m, true, .taken, false, 1, 0, k⟩
  | past {c k} : c = .cbUp m ∨ c = .cbRet ∨ c = .ran → Counted m ⟨c, false, .taken, false, 1, 1, k⟩

/-- Every increment for the page table is matched, or `put_pages` failed to return it. -/
def Balanced (x : Facts) : Prop :=
  x.table = .none ∧ x.incs = 0 ∧ x.decs = 0 ∨ x.table = .held ∧ x.failed = true ∧ x.incs = 1 ∧ x.decs = 0 ∨
    (x.table = .returned ∨ x.table = .taken) ∧ x.incs = 1 ∧ x.decs = 1

/-- What the records of mr `m` may be in each stage. -/
def Good (m : Nat) (x : Facts) : Stage → Prop
  | .unborn => x.callback = .idle ∧ x.table = .none ∧ x.failed = false ∧ x.incs = 0 ∧ x.decs = 0 ∧ x.kfrees = 0
  | .allocated => x = ⟨.idle, false, .none, false, 0, 0, 0⟩
  | .got => ∃ c, Pc.Ahead m c ∧ c ≠ .cbBody m ∧ x = ⟨c, false, .held, false, 0, 0, 0⟩
  | .main => x.kfrees = 0 ∧ (x = ⟨.idle, false, .none, false, 0, 0, 0⟩ ∨ Counted m x)
  | .putting => x.kfrees = 0 ∧ Counted m x
  | .put => x.kfrees = 0 ∧ x.callback.Over ∧ x.table = .returned ∧ x.failed = false ∧ x.incs = 1 ∧ x.decs = 0
  | .done => x.kfrees = 0 ∧ x.callback.Over ∧ Balanced x
  | .freed => x.kfrees = 1 ∧ x.callback.Over ∧ Balanced x

/-- A step of `gdrdrv_get_pages_free_callback` or its registration. -/
def Pc.OfCallback : Pc → Prop
  | .armed => True
  | .cbDown _ => True
  | .cbBody _ => True
  | .cbDec _ => True
  | .cbUp _ => True
  | .cbRet => True
  | .ran => True
  | .dead => True
  | _ => False

/-- The party is inside the NVIDIA driver. -/
def Pc.InNv : Pc → Prop
  | .pinGetIn _ _ => True
  | .putIn _ _ => True
  | .cbDown _ => True
  | .cbBody _ => True
  | .cbDec _ => True
  | .cbUp _ => True
  | .cbRet => True
  | _ => False

structure Inv (s : State) : Prop where
  locks : s.locks.Ok
  places : s.places.Ok
  good : ∀ m, Good m (s.facts m) (s.stage m)
  born : ∀ m, s.place m = .unborn ↔ s.fresh ≤ m
  thread : ∀ t, ¬ (s.pc (.thread t)).OfCallback
  file : ∀ p f, (s.pc p).file = some f → (s.files f).isOpen = true
  closed : ∀ f, (s.files f).isOpen = false → (s.files f).mr_list = []
  releasing : ∀ p q f, (s.pc p).releasing = some f → (s.pc q).file = some f → q = p
  nv : ∀ p, s.nv = some p → (s.pc p).InNv

end gdrdrv.Threads
