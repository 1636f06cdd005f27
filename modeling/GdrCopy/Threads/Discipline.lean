import GdrCopy.Threads.Reach
/-!
# Who unlocks

`gdr_free_mr_unlocked` must be entered with the semaphore held, and drops it. A pin
that is refused before it takes the semaphore goes there as well. `lock_discipline`
says that nothing else drops a lock it does not hold, or returns with one.
-/

namespace gdrdrv.Threads

open Locks (Sem)

/-! ## The operations on locks -/

inductive LockOp where
  | mutex_lock (f : Nat)
  | mutex_unlock (f : Nat)
  | down (m : Nat) (write : Bool)
  | up (m : Nat) (write : Bool)
  deriving DecidableEq, Repr

/-- The operation on a lock that the party is about to make. -/
def State.lockOp (s : State) (p : Party) : Option LockOp :=
  match s.pc p with
  | .getLock f _ _ => some (.mutex_lock f)
  | .getDown _ m g => some (.down m g.write)
  | .getNone f => some (.mutex_unlock f)
  | .getUnlock f _ _ => some (.mutex_unlock f)
  | .put _ m u => some (.up m (Goal.use u).write)
  | .unpinUnlock f _ => some (.mutex_unlock f)
  | .free m _ _ => some (.up m true)
  | .pinDown _ m => some (.down m true)
  | .pinLock f _ => some (.mutex_lock f)
  | .pinFail f _ => some (.mutex_unlock f)
  | .pinUp _ m _ => some (.up m true)
  | .pinUnlock f _ => some (.mutex_unlock f)
  | .relLock f => some (.mutex_lock f)
  | .relNext f => if (s.files f).mr_list = [] then some (.mutex_unlock f) else none
  | .relDown _ m => some (.down m true)
  | .cbDown m => some (.down m true)
  | .cbUp m => some (.up m true)
  | _ => none

/-- The holder of the lock of file `f` after `op`. -/
def LockOp.mutex (p : Party) (op : Option LockOp) (f : Nat) (lock : Option Party) : Option Party :=
  match op with
  | some (.mutex_lock g) => if f = g then some p else lock
  | some (.mutex_unlock g) => if f = g then none else lock
  | _ => lock

/-- The semaphore of mr `m` after `op`. -/
def LockOp.sem (p : Party) (op : Option LockOp) (m : Nat) (sem : Sem Party) : Sem Party :=
  match op with
  | some (.down n write) => if m = n then sem.down p write else sem
  | some (.up n write) => if m = n then sem.up p write else sem
  | _ => sem

/-- Party `p` goes from `s` to `s'` with the operation it was about to make, and no other on the
locks of open files and of mrs that exist. -/
structure Acts (s : State) (p : Party) (s' : State) : Prop where
  mutex : ∀ f, (s.files f).isOpen = true → (s'.files f).lock = LockOp.mutex p (s.lockOp p) f (s.files f).lock
  sem : ∀ m, m ≠ s.fresh → s'.sem m = LockOp.sem p (s.lockOp p) m (s.sem m)

section
variable {P : Platform} {serial : Bool} {s s' : State} {p : Party} {x y : Pc} {f m : Nat} {w : Bool}

theorem Acts.none (h : s.lockOp p = none) (hf : ∀ f, (s'.files f).lock = (s.files f).lock)
    (hs : ∀ m, m ≠ s.fresh → s'.sem m = s.sem m) : Acts s p s' :=
  ⟨fun f _ => by rw [h]; exact hf f, fun m hm => by rw [h]; exact hs m hm⟩

theorem Acts.mutex_lock (h : s.lockOp p = some (.mutex_lock f)) : Acts s p ((s.setLock f (some p)).go p x) := by
  refine ⟨fun g _ => ?_, fun m _ => by rw [h]; rfl⟩
  rw [h]
  show (Function.update s.files f { s.files f with lock := some p } g).lock = if g = f then some p else (s.files g).lock
  rw [Function.update_apply]
  split <;> rfl

theorem Acts.mutex_unlock (h : s.lockOp p = some (.mutex_unlock f)) : Acts s p ((s.setLock f .none).go p x) := by
  refine ⟨fun g _ => ?_, fun m _ => by rw [h]; rfl⟩
  rw [h]
  show (Function.update s.files f { s.files f with lock := .none } g).lock = if g = f then .none else (s.files g).lock
  rw [Function.update_apply]
  split <;> rfl

theorem Acts.down (h : s.lockOp p = some (.down m w)) : Acts s p ((s.down m p w).go p x) := by
  refine ⟨fun g _ => by rw [h]; rfl, fun n _ => ?_⟩
  rw [h]
  show Function.update s.sem m ((s.sem m).down p w) n = if n = m then (s.sem n).down p w else s.sem n
  rw [Function.update_apply]
  split
  · rename_i he
    rw [he]
  · rfl

theorem Acts.up (h : s.lockOp p = some (.up m w)) : Acts s p ((s.up m p w).go p x) := by
  refine ⟨fun g _ => by rw [h]; rfl, fun n _ => ?_⟩
  rw [h]
  show Function.update s.sem m ((s.sem m).up p w) n = if n = m then (s.sem n).up p w else s.sem n
  rw [Function.update_apply]
  split
  · rename_i he
    rw [he]
  · rfl

theorem step_acts (h : Step P serial s p s') : Acts s p s' := by
  cases h with
  | @openFile t _ h hclosed =>
    have hop : s.lockOp (.thread t) = .none := by simp [State.lockOp, h]
    refine ⟨fun g hg => ?_, fun _ _ => by rw [hop]; rfl⟩
    have hne : g ≠ _ := fun he => by rw [he, hclosed] at hg; cases hg
    rw [hop]
    exact congrArg File.lock (Function.update_of_ne hne ..)
  | getLock h _ | pinLock h _ | relLock h _ => exact .mutex_lock (by simp [State.lockOp, h])
  | getNone h | getUnlock h | unpinUnlock h | pinFail h | pinUnlock h => exact .mutex_unlock (by simp [State.lockOp, h])
  | @relUnlock t f h hl =>
    have hacts := Acts.mutex_unlock (x := .idle) (show s.lockOp (.thread t) =
      some (.mutex_unlock f) by simp [State.lockOp, h, hl])
    refine ⟨fun g hg => ?_, hacts.sem⟩
    have hclose := keep File.lock (x := { (s.setLock f .none).files f with isOpen := false }) (i := f)
      (a := (s.setLock f .none).files) rfl rfl g
    exact hclose.trans (hacts.mutex g hg)
  | getDown h _ | pinDown h _ | relDown h _ | cbDown h _ => exact .down (by simp [State.lockOp, h])
  | unpinDown h _ => exact .down (by simp [State.lockOp, h, Goal.write])
  | put h | freeTable h _ _ | freeNone h _ _ | pinUp h | cbUp h => exact .up (by simp [State.lockOp, h])
  | unpinDel h | relDel h => exact .none (by simp [State.lockOp, h]) (keep File.lock rfl rfl) fun _ _ => rfl
  | pinAdd h hn =>
    exact .none (by simp [State.lockOp, h]) (keep File.lock rfl (newHandle_file hn).1) fun _ _ => rfl
  | pinRefused h _ | pinAlloc h _ =>
    exact .none (by simp [State.lockOp, h]) (fun _ => rfl) fun _ hm => Function.update_of_ne hm ..
  | _ => exact .none (by simp [State.lockOp, *]) (fun _ => rfl) fun _ _ => rfl

/-! ## Discipline -/

/-- The party holds the lock that `op` drops, in that mode. -/
def State.Holds (s : State) (p : Party) : LockOp → Prop
  | .mutex_unlock f => (s.files f).lock = some p
  | .up m true => (s.sem m).writer = some p
  | .up m false => p ∈ (s.sem m).readers
  | .mutex_lock _ => True
  | .down _ _ => True

/-- The party is not in the driver. -/
def Pc.Outside : Pc → Prop
  | .idle => True
  | .armed => True
  | .ran => True
  | .dead => True
  | _ => False

/-- Who drops a lock holds it, and who is not in the driver holds none. -/
structure Disciplined (s : State) : Prop where
  drops : ∀ p op, s.lockOp p = some op → s.Holds p op
  mutex : ∀ p, (s.pc p).Outside → ∀ f, (s.files f).lock ≠ some p
  sem : ∀ p, (s.pc p).Outside → ∀ m, (s.sem m).writer ≠ some p ∧ p ∉ (s.sem m).readers

/-- The mr that a pin is about to free without its semaphore. -/
def Pc.unheld : Pc → Option Nat
  | .free m false _ => some m
  | _ => none

theorem Pc.Outside.holds {x : Pc} (h : x.Outside) : x.lock = none ∧ x.sem = none := by
  cases x with
  | idle => exact ⟨rfl, rfl⟩
  | armed => exact ⟨rfl, rfl⟩
  | ran => exact ⟨rfl, rfl⟩
  | dead => exact ⟨rfl, rfl⟩
  | _ => cases h

/-- A party at this place has the lock that `op` drops. -/
def Pc.Has (x : Pc) : LockOp → Prop
  | .mutex_unlock f => x.lock = some f
  | .up m w => x.sem = some (m, w)
  | .mutex_lock _ => True
  | .down _ _ => True

theorem lockOp_has (hu : (s.pc p).unheld = none) {op : LockOp} (hop : s.lockOp p = some op) : (s.pc p).Has op := by
  unfold State.lockOp at hop
  generalize s.pc p = x at hu hop ⊢
  cases x with
  | relNext f =>
    dsimp only at hop
    split at hop
    · cases hop
      rfl
    · cases hop
  | free m held r =>
    cases held with
    | false => cases hu
    | true =>
      cases hop
      rfl
  | _ => cases hop <;> first | rfl | trivial

theorem Inv.holds (hi : Inv s) {op : LockOp} (h : (s.pc p).Has op) : s.Holds p op := by
  cases op with
  | mutex_lock f => trivial
  | mutex_unlock f => exact (hi.locks.mutex f p).2 h
  | down m w => trivial
  | up m w =>
    cases w with
    | true => exact (hi.locks.writer m p).2 h
    | false => exact (hi.locks.reader m p).2 h

/-- Where no mr is freed without its semaphore, what a party's place says it holds is what it drops. -/
theorem Inv.disciplined (hi : Inv s) (hu : ∀ p, (s.pc p).unheld = none) : Disciplined s := by
  refine ⟨fun p op hop => hi.holds (lockOp_has (hu p) hop), fun p ho f hf => ?_,
    fun p ho m => ⟨fun hm => ?_, fun hm => ?_⟩⟩
  · have hl : (s.pc p).lock = some f := (hi.locks.mutex f p).1 hf
    rw [ho.holds.1] at hl
    cases hl
  · have hs : (s.pc p).sem = some (m, true) := (hi.locks.writer m p).1 hm
    rw [ho.holds.2] at hs
    cases hs
  · have hs : (s.pc p).sem = some (m, false) := (hi.locks.reader m p).1 hm
    rw [ho.holds.2] at hs
    cases hs

/-! ## Refused pins -/

variable (P serial) in
/-- A step, with the answer of `kmalloc` if it is the one that calls it. -/
def KStep (s : State) (o : Party × Bool) (s' : State) : Prop :=
  Step P serial s o.1 s' ∧ ∀ f q, s.pc o.1 = .pin f q → (o.2 = true ↔ s'.pc o.1 ≠ .idle)

/-- Every step is one with some answer. -/
theorem Step.kstep (h : Step P serial s p s') : ∃ k, KStep P serial s (p, k) s' := by
  by_cases hi : s'.pc p = .idle
  · exact ⟨false, h, fun _ _ _ => by simp [hi]⟩
  · exact ⟨true, h, fun _ _ _ => by simp [hi]⟩

variable (P) in
/-- The party has not been given memory for a pin with flags or tokens that are refused. -/
def PinAccepted (s : State) (o : Party × Bool) : Prop :=
  o.2 = true → ∀ f q, s.pc o.1 = .pin f q → ∀ ret, pinArgs P q.p2p_token q.va_space q.flags ≠ .error ret

/-- Only a refused pin leads to a free without the semaphore. -/
theorem KStep.unheld {o : Party × Bool} (h : KStep P serial s o s') (ha : PinAccepted P s o)
    (hu : ∀ p, (s.pc p).unheld = none) :
    ∀ p, (s'.pc p).unheld = none := by
  suffices hs : ∀ p m, (s'.pc p).unheld = some m → (s.pc p).unheld = some m from fun p => by
    cases hp : (s'.pc p).unheld with
    | none => rfl
    | some m =>
      have hold := hs p m hp
      rw [hu p] at hold
      cases hold
  obtain ⟨p, k⟩ := o
  obtain ⟨hstep, hk⟩ := h
  dsimp only at hstep hk
  cases hstep with
  | openFile _ _ => exact fun _ _ h => h
  | pinRefused h hargs =>
    have hmem := (hk _ _ h).2 (by simp [State.go])
    exact absurd hargs (ha hmem _ _ h _)
  | putReturn h hc => exact fewer_both _ h (.inr rfl) hc (.inr rfl)
  | putFails h _ => exact fewer_both _ h (.inr rfl) rfl (.inr rfl)
  | pinGot h => exact fewer_both _ h (.inr rfl) rfl (.inr (by split <;> rfl))
  | pinInc h => exact fewer _ h (.inr (by split <;> rfl))
  | @kfree t m r h => exact fewer _ h (.inr (by cases r <;> rfl))
  | _ => exact fewer _ (by assumption) (.inr rfl)

/-- A refused pin is about to drop the semaphore it has just initialized. -/
theorem not_disciplined {f : Nat} {q : PinReq} {ret : Int} (h : Step P serial s p s') (hpin : s.pc p = .pin f q)
    (hmem : s'.pc p ≠ .idle) (hargs : pinArgs P q.p2p_token q.va_space q.flags = .error ret) : ¬ Disciplined s' := by
  intro hd
  cases h with
  | pinNoMem _ => exact hmem (Function.update_self ..)
  | @pinRefused t g q' ret' h hargs' =>
    have hop : State.lockOp ((s.alloc (.thread t) (newMr s.fresh q'.addr q'.size 0 0 false)).go (.thread t)
        (.free s.fresh false (.ioctl g))) (.thread t) = some (.up s.fresh true) := by simp [State.lockOp, State.go]
    have hw := hd.drops _ _ hop
    simp [State.Holds, State.go, State.alloc, Sem.unlocked] at hw
  | pinAlloc h hargs' =>
    rw [hpin] at h
    cases h
    rw [hargs] at hargs'
    cases hargs'
  | _ => simp_all

/-- The driver drops the locks it holds, and returns without any, in the runs in which no pin is refused
for its flags or tokens once it has its memory. -/
theorem lock_discipline {os : List (Party × Bool)} :
    Runs.Always Disciplined Loaded (KStep P serial) s os ↔
    Runs.Run Loaded (Runs.only (PinAccepted P) (KStep P serial)) s os := by
  refine Runs.Run.always_iff (fun s => Inv s ∧ ∀ p, (s.pc p).unheld = none) ?_ ?_ (fun s h => h.1.disciplined h.2) ?_
  · intro s h
    exact ⟨h.inv, fun p => by rw [h.1 p]; rfl⟩
  · rintro s o s' ⟨hi, hu⟩ ha h
    exact ⟨hi.step h.1, h.unheld ha hu⟩
  · rintro s ⟨p, k⟩ s' - ⟨hstep, hk⟩ hd hmem f q hpin ret hargs
    exact not_disciplined hstep hpin ((hk f q hpin).1 hmem) hargs hd

end

/-- A pin with a flag, in the mode without persistent mappings, drops a semaphore that nobody holds. -/
theorem refused_pin_unlocks : ¬ ∀ P serial s os, Run P serial s os → Disciplined s := by
  intro hall
  have h0 : Run x86Host false loaded [] := .start loaded_loaded
  have h1 := h0.next (.openFile (t := 0) (f := 0) rfl rfl)
  have h2 := h1.next (.pin (t := 0) (f := 0) (q := ⟨65536, 65536, 0, 0, 1⟩) rfl ⟨rfl, fun p hp => by cases hp⟩)
  have h3 := h2.next (.pinRefused (t := 0) (f := 0) (q := ⟨65536, 65536, 0, 0, 1⟩) rfl rfl)
  have hw : (none : Option Party) = some (.thread 0) := (hall _ _ _ _ h3).drops (.thread 0) (.up 0 true) rfl
  cases hw

end gdrdrv.Threads
