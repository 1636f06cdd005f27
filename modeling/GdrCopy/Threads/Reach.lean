import GdrCopy.Threads.Records
/-!
# The invariant holds in every state reached

What is left are the numbers of mrs, the files in use and the lock of the NVIDIA
driver; then every run keeps `Inv`.
-/

namespace gdrdrv.Threads

open Places (Place)

section
variable {P : Platform} {serial : Bool} {s s' : State} {p : Party} {x y : Pc}

/-! ## Numbers of mrs -/

theorem born_alloc {mr : Mr} (hi : Inv s) (m : Nat) : (s.alloc p mr).place m = .unborn ↔ (s.alloc p mr).fresh ≤ m := by
  show Function.update s.place s.fresh (.owned p) m = .unborn ↔ s.fresh + 1 ≤ m
  have := hi.born m
  by_cases hm : m = s.fresh
  · subst hm
    simp
  · rw [Function.update_of_ne hm, this]
    omega

/-- An mr that exists goes somewhere else. -/
theorem born_place {m : Nat} {x : Place Party Nat} (hi : Inv s) (hm : s.place m ≠ .unborn)
    (ht : x ≠ .unborn) (n : Nat) :
    Function.update s.place m x n = .unborn ↔ s.fresh ≤ n := by
  by_cases hn : n = m
  · subst hn
    rw [Function.update_self, ← hi.born n]
    exact iff_of_false ht hm
  · rw [Function.update_of_ne hn]
    exact hi.born n

theorem Inv.owned_born {m : Nat} {st : Stage} (hi : Inv s) (h : (s.pc p).owns = some (m, st)) :
    s.place m ≠ .unborn := by
  rw [place_owned hi.places h]
  nofun

theorem Inv.refers_born {f m : Nat} (hi : Inv s) (h : (s.pc p).refers = some (f, m)) : s.place m ≠ .unborn := by
  have hp : s.place m = .listed f := hi.places.refers p f m h
  rw [hp]
  nofun

theorem step_born (hi : Inv s) (h : Step P serial s p s') : ∀ m, s'.place m = .unborn ↔ s'.fresh ≤ m := by
  cases h with
  | unpinDel h | relDel h => exact born_place (s := s) hi (hi.refers_born (by rw [h]; rfl)) nofun
  | kfree h | pinAdd h _ => exact born_place (s := s) hi (hi.owned_born (by rw [h]; rfl)) nofun
  | pinRefused h _ | pinAlloc h _ => exact born_alloc hi
  | _ => exact hi.born

/-! ## Threads are not callbacks -/

theorem thread_go {pc : Party → Pc} {t : Nat} (h : ∀ u, ¬ (pc (.thread u)).OfCallback) (hx : ¬ x.OfCallback) (u : Nat) :
    ¬ (Function.update pc (.thread t) x (.thread u)).OfCallback := by
  by_cases hu : u = t
  · rwa [hu, Function.update_self]
  · rw [Function.update_of_ne (by simpa using hu)]
    exact h u

theorem step_thread (hi : Inv s) (h : Step P serial s p s') : ∀ t, ¬ (s'.pc (.thread t)).OfCallback := by
  cases h with
  | openFile _ _ | cbStart _ _ | cbDown _ _ | cbTable _ _ | cbNone _ _ | cbDec _ | cbUp _ | cbRet _ => exact hi.thread
  | kfree h =>
    rename_i t m r
    exact thread_go hi.thread (by cases r <;> exact id)
  | pinInc h => exact thread_go hi.thread (by split <;> exact id)
  | _ => exact thread_go hi.thread id

/-! ## Inside the NVIDIA driver -/

theorem nv_go (hi : Inv s) (h : s.pc p = y) (hx : y.InNv → x.InNv) (q : Party) (hq : s.nv = some q) :
    (Function.update s.pc p x q).InNv := by
  have hn := hi.nv q hq
  by_cases hqp : q = p
  · subst hqp
    rw [h] at hn
    rw [Function.update_self]
    exact hx hn
  · rwa [Function.update_of_ne hqp]

theorem nv_take {pc : Party → Pc} (hx : x.InNv) (q : Party) (hq : (if serial then some p else none) = some q) :
    (Function.update pc p x q).InNv := by
  cases serial with
  | true =>
    obtain rfl := Option.some.inj hq
    rwa [Function.update_self]
  | false => cases hq

theorem step_nv (hi : Inv s) (h : Step P serial s p s') : ∀ q, s'.nv = some q → (s'.pc q).InNv := by
  cases h with
  | openFile _ _ => exact hi.nv
  | putCall _ _ | pinGet _ _ | cbStart _ _ => exact nv_take trivial
  | putReturn _ _ | putPersistent _ _ | putLate _ _ | putFails _ _ | pinGot _ | pinGetFails _ | cbRet _ => nofun
  | cbDown h _ | cbTable h _ | cbNone h _ | cbDec h | cbUp h => exact nv_go hi h id
  | _ => exact nv_go hi (by assumption) False.elim

/-! ## Files in use -/

/-- No party but the one that moves starts on a file. -/
theorem fewer (g : Pc → Option Nat) {pc : Party → Pc} (h : pc p = y) (hx : g x = g y ∨ g x = none) (q : Party) (f : Nat)
    (hq : g (Function.update pc p x q) = some f) : g (pc q) = some f := by
  by_cases hqp : q = p
  · subst hqp
    rw [Function.update_self] at hq
    rw [h]
    rcases hx with hx | hx
    · rwa [hx] at hq
    · rw [hx] at hq
      cases hq
  · rwa [Function.update_of_ne hqp] at hq

/-- `fewer` when the callback of an mr moves as well. -/
theorem fewer_both (g : Pc → Option Nat) {pc : Party → Pc} {t m : Nat} {c c' : Pc} (h : pc (.thread t) = y)
    (hx : g x = g y ∨ g x = none) (hc : pc (.callback m) = c) (hc' : g c' = g c ∨ g c' = none) (q : Party) (f : Nat)
    (hq : g (Function.update (Function.update pc (.callback m) c') (.thread t) x q) = some f) : g (pc q) = some f := by
  have hne : Party.thread t ≠ .callback m := nofun
  have h' : Function.update pc (.callback m) c' (.thread t) = y := by rwa [Function.update_of_ne hne]
  exact fewer g hc hc' q f (fewer g h' hx q f hq)

/-- Inside `gdr_free_mr_unlocked` a thread is in `gdrdrv_release` if it will go back there. -/
@[simp] theorem free_releasing (m : Nat) (held : Bool) (r : Ret) : (Pc.free m held r).releasing = r.lock := by
  cases r <;> rfl
@[simp] theorem putCall_releasing (m : Nat) (r : Ret) : (Pc.putCall m r).releasing = r.lock := by cases r <;> rfl
@[simp] theorem putIn_releasing (m : Nat) (r : Ret) : (Pc.putIn m r).releasing = r.lock := by cases r <;> rfl
@[simp] theorem putDone_releasing (m : Nat) (r : Ret) : (Pc.putDone m r).releasing = r.lock := by cases r <;> rfl
@[simp] theorem kfree_releasing (m : Nat) (r : Ret) : (Pc.kfree m r).releasing = r.lock := by cases r <;> rfl

/-- A file in use is open, a closed one has no mrs, and a file that is being released is in no other use. -/
structure InUse (s : State) : Prop where
  file : ∀ p f, (s.pc p).file = some f → (s.files f).isOpen = true
  closed : ∀ f, (s.files f).isOpen = false → (s.files f).mr_list = []
  releasing : ∀ p q f, (s.pc p).releasing = some f → (s.pc q).file = some f → q = p

theorem Inv.inUse (hi : Inv s) : InUse s := ⟨hi.file, hi.closed, hi.releasing⟩

theorem InUse.fewer (hu : InUse s) (hf : ∀ q f, (s'.pc q).file = some f → (s.pc q).file = some f)
    (hr : ∀ q f, (s'.pc q).releasing = some f → (s.pc q).releasing = some f)
    (ho : ∀ f, (s'.files f).isOpen = (s.files f).isOpen)
    (hl : ∀ f, (s.files f).isOpen = false → (s'.files f).mr_list = (s.files f).mr_list) : InUse s' :=
  ⟨fun q f hq => (ho f).trans (hu.file q f (hf q f hq)),
    fun f hc => (hl f ((ho f).symm.trans hc)).trans (hu.closed f ((ho f).symm.trans hc)),
    fun q r f hq hr' => hu.releasing q r f (hr q f hq) (hf r f hr')⟩

/-- An operation begins on a file that is open and not being released. -/
theorem InUse.begin {f : Nat} (hu : InUse s) (hf : s.Usable f) (hx : x.file = some f) (hr : x.releasing = none) :
    InUse (s.go p x) := by
  have other {q : Party} (hq : q ≠ p) : (s.go p x).pc q = s.pc q := Function.update_of_ne hq ..
  have self : (s.go p x).pc p = x := Function.update_self ..
  refine ⟨fun q g hq => ?_, hu.closed, fun q r g hq hr' => ?_⟩
  · by_cases hqp : q = p
    · rw [hqp, self, hx] at hq
      exact Option.some.inj hq ▸ hf.1
    · exact hu.file q g (by rwa [other hqp] at hq)
  · have hqp : q ≠ p := by
      rintro rfl
      rw [self, hr] at hq
      cases hq
    rw [other hqp] at hq
    by_cases hrp : r = p
    · rw [hrp, self, hx] at hr'
      obtain rfl := Option.some.inj hr'
      exact absurd hq (hf.2 q)
    · exact hu.releasing q r g hq (other hrp ▸ hr')

/-- `gdrdrv_release` begins when nothing else is in progress on the file. -/
theorem InUse.release {f : Nat} (hu : InUse s) (ho : (s.files f).isOpen = true) (hf : ∀ q, (s.pc q).file ≠ some f)
    (hx : x.file = some f) (hr : x.releasing = some f) : InUse (s.go p x) := by
  have other {q : Party} (hq : q ≠ p) : (s.go p x).pc q = s.pc q := Function.update_of_ne hq ..
  have self : (s.go p x).pc p = x := Function.update_self ..
  refine ⟨fun q g hq => ?_, hu.closed, fun q r g hq hr' => ?_⟩
  · by_cases hqp : q = p
    · rw [hqp, self, hx] at hq
      exact Option.some.inj hq ▸ ho
    · exact hu.file q g (by rwa [other hqp] at hq)
  · by_cases hqp : q = p
    · rw [hqp, self, hr] at hq
      obtain rfl := Option.some.inj hq
      by_cases hrp : r = p
      · exact hrp.trans hqp.symm
      · exact absurd (other hrp ▸ hr') (hf r)
    · rw [other hqp] at hq
      by_cases hrp : r = p
      · rw [hrp, self, hx] at hr'
        obtain rfl := Option.some.inj hr'
        exact absurd (Pc.file_of_releasing hq) (hf q)
      · exact hu.releasing q r g hq (other hrp ▸ hr')

theorem lists_open {f : Nat} {file : File} (ho : (s.files f).isOpen = true) (g : Nat)
    (hg : (s.files g).isOpen = false) :
    (Function.update s.files f file g).mr_list = (s.files g).mr_list := by
  rw [Function.update_of_ne]
  rintro rfl
  rw [ho] at hg
  cases hg

theorem setLock_isOpen (s : State) (f : Nat) (o : Option Party) (g : Nat) :
    ((s.setLock f o).files g).isOpen = (s.files g).isOpen :=
  keep (a := s.files) (i := f) File.isOpen rfl (x := { s.files f with lock := o }) rfl g

/-- A party moves, the files stay. -/
theorem InUse.move {s1 : State} (hu : InUse s) (h : s.pc p = y) (hf : x.file = y.file ∨ x.file = none)
    (hr : x.releasing = y.releasing ∨ x.releasing = none) (hpc : s1.pc = s.pc) (hfiles : s1.files = s.files) :
    InUse (s1.go p x) := by
  refine hu.fewer ?_ ?_ (fun f => ?_) (fun f _ => ?_)
  · rw [State.go, hpc]
    exact Threads.fewer Pc.file h hf
  · rw [State.go, hpc]
    exact Threads.fewer Pc.releasing h hr
  · exact congrArg (fun files : Nat → File => (files f).isOpen) hfiles
  · exact congrArg (fun files : Nat → File => (files f).mr_list) hfiles

/-- A party moves and changes the file it is at work on, which stays open. -/
theorem InUse.moveIn {s1 : State} {f : Nat} {file : File} (hu : InUse s) (h : s.pc p = y) (hy : y.file = some f)
    (hf : x.file = y.file ∨ x.file = none) (hr : x.releasing = y.releasing ∨ x.releasing = none)
    (hpc : s1.pc = s.pc) (hfiles : s1.files = Function.update s.files f file) (ho : file.isOpen = (s.files f).isOpen) :
    InUse (s1.go p x) := by
  have hopen : (s.files f).isOpen = true := hu.file p f (by rw [h, hy])
  refine hu.fewer ?_ ?_ (fun g => ?_) (fun g hg => ?_)
  · rw [State.go, hpc]
    exact Threads.fewer Pc.file h hf
  · rw [State.go, hpc]
    exact Threads.fewer Pc.releasing h hr
  · exact (congrArg (fun files : Nat → File => (files g).isOpen) hfiles).trans (keep File.isOpen rfl ho g)
  · exact (congrArg (fun files : Nat → File => (files g).mr_list) hfiles).trans (lists_open hopen g hg)

/-- A thread moves, and a callback that is in no use of a file. -/
theorem InUse.moveBoth {s1 : State} {t m : Nat} {c c' : Pc} (hu : InUse s) (h : s.pc (.thread t) = y)
    (hf : x.file = y.file ∨ x.file = none) (hr : x.releasing = y.releasing ∨ x.releasing = none)
    (hc : s.pc (.callback m) = c) (hcf : c'.file = none) (hcr : c'.releasing = none) (hpc : s1.pc = s.pc)
    (hfiles : s1.files = s.files) : InUse ((s1.go (.callback m) c').go (.thread t) x) := by
  refine hu.fewer ?_ ?_ (fun f => ?_) (fun f _ => ?_)
  · rw [State.go, State.go, hpc]
    exact fewer_both Pc.file h hf hc (.inr hcf)
  · rw [State.go, State.go, hpc]
    exact fewer_both Pc.releasing h hr hc (.inr hcr)
  · exact congrArg (fun files : Nat → File => (files f).isOpen) hfiles
  · exact congrArg (fun files : Nat → File => (files f).mr_list) hfiles

theorem InUse.openFile {f : Nat} {file : File} (hu : InUse s) (ho : file.isOpen = true) :
    InUse { s with files := Function.update s.files f file } := by
  have files {g : Nat} (hg : g ≠ f) : Function.update s.files f file g = s.files g := Function.update_of_ne hg ..
  refine ⟨fun q g hq => ?_, fun g hg => ?_, hu.releasing⟩
  · by_cases hgf : g = f
    · subst hgf
      simpa using ho
    · exact (congrArg File.isOpen (files hgf)).trans (hu.file q g hq)
  · by_cases hgf : g = f
    · subst hgf
      simp [ho] at hg
    · exact (congrArg File.mr_list (files hgf)).trans (hu.closed g ((congrArg File.isOpen (files hgf)).symm.trans hg))

/-- `gdrdrv_release` ends: it alone had the file in use. -/
theorem InUse.close {t f : Nat} (hu : InUse s) (h : s.pc (.thread t) = .relNext f) (hl : (s.files f).mr_list = []) :
    InUse (((s.setLock f none).close f).go (.thread t) .idle) := by
  have others : ∀ q g, ((Function.update s.pc (.thread t) .idle) q).file = some g → (s.pc q).file = some g ∧ g ≠ f := by
    intro q g hq
    have hq' : (s.pc q).file = some g := Threads.fewer Pc.file h (.inr rfl) q g hq
    refine ⟨hq', ?_⟩
    rintro rfl
    obtain rfl := hu.releasing (.thread t) q g (by rw [h]; rfl) hq'
    rw [Function.update_self] at hq
    cases hq
  refine ⟨fun q g hq => ?_, fun g hg => ?_, fun q r g hq hr => ?_⟩
  · obtain ⟨hq', hg⟩ := others q g hq
    exact (congrArg File.isOpen (Function.update_of_ne hg ..)).trans
      ((setLock_isOpen s f none g).trans (hu.file q g hq'))
  · refine (close_list s f none g).trans ?_
    by_cases hgf : g = f
    · rw [hgf, hl]
    · exact hu.closed g (((setLock_isOpen s f none g).symm.trans
        (congrArg File.isOpen (Function.update_of_ne hgf ..)).symm).trans hg)
  · exact hu.releasing q r g (Threads.fewer Pc.releasing h (.inr rfl) q g hq) (others r g hr).1

theorem step_inUse (hi : Inv s) (h : Step P serial s p s') : InUse s' := by
  have hu := hi.inUse
  cases h with
  | openFile _ _ => exact hu.openFile rfl
  | get _ hf | pin _ hf => exact hu.begin hf rfl rfl
  | release _ ho hf => exact hu.release ho hf rfl rfl
  | found h _ | notFound h _ | getDown h _ | use h _ | unpinDown h _ | pinRefused h _ | pinAlloc h _ | pinDown h _
  | pinGet h _ | pinGetFails h | pinNoHandle h _ | pinUp h | pinUndo h | relNext h _ | relDown h _
  | cbStart h _ | cbDown h _ | cbTable h _ | cbNone h _ | cbDec h | cbUp h | cbRet h =>
    exact hu.move h (.inl rfl) (.inl rfl) rfl rfl
  | put h | pinNoMem h | pinDone h => exact hu.move h (.inr rfl) (.inr rfl) rfl rfl
  | freeTable h _ _ | freeNone h _ _ | putCall h _ | putPersistent h _ | putLate h _ | putDec h =>
    exact hu.move h (.inl rfl) (.inl (by simp)) rfl rfl
  | putReturn h hc => exact hu.moveBoth h (.inl rfl) (.inl (by simp)) hc rfl rfl rfl rfl
  | putFails h _ => exact hu.moveBoth h (.inl rfl) (.inl (by simp)) rfl rfl rfl rfl rfl
  | kfree h =>
    rename_i t m r
    have hf : r.pc.file = some r.file ∨ r.pc.file = none := by
      cases r
      · exact .inr rfl
      · exact .inl rfl
    exact hu.move h hf (by cases r <;> exact .inl rfl) rfl rfl
  | pinGot h => exact hu.moveBoth h (.inl rfl) (.inl rfl) rfl (by split <;> rfl) (by split <;> rfl) rfl rfl
  | pinInc h => exact hu.move h (.inl (by split <;> rfl)) (.inl (by split <;> rfl)) rfl rfl
  | getLock h _ | getUnlock h | unpinUnlock h | pinLock h _ | pinFail h | pinUnlock h | relLock h _ | unpinDel h
  | relDel h =>
    exact hu.moveIn h rfl (.inl rfl) (.inl rfl) rfl rfl rfl
  | getNone h => exact hu.moveIn h rfl (.inr rfl) (.inr rfl) rfl rfl rfl
  | pinAdd h hn => exact hu.moveIn h rfl (.inl rfl) (.inl rfl) rfl rfl (newHandle_file hn).2.1
  | relUnlock h hl => exact hu.close h hl

/-! ## Every run -/

theorem Inv.step (hi : Inv s) (h : Step P serial s p s') : Inv s' where
  locks := hi.locks.step (step_locks hi h)
  places := hi.places.step (step_places hi h)
  good := step_good hi h
  born := step_born hi h
  thread := step_thread hi h
  file := (step_inUse hi h).file
  closed := (step_inUse hi h).closed
  releasing := (step_inUse hi h).releasing
  nv := step_nv hi h

theorem Loaded.inv (h : Loaded s) : Inv s := by
  obtain ⟨hpc, hfiles, hsem, hnv, -, hfresh, htable, hfailed, hincs, hdecs, hkfrees, hplace⟩ := h
  constructor
  · constructor <;> simp [State.locks, hpc, hfiles, hsem, Pc.lock, Pc.sem, Locks.Sem.unlocked]
  · constructor <;> simp [State.places, hpc, hfiles, hplace, Pc.owned, Pc.owns, Pc.refers]
  · intro m
    simp [State.stage, State.facts, hplace, Good, hpc, htable, hfailed, hincs, hdecs, hkfrees]
  · simp [hplace, hfresh]
  · simp [hpc, Pc.OfCallback]
  · simp [hpc, Pc.file]
  · simp [hfiles]
  · simp [hpc, Pc.file]
  · simp [hnv]

/-- The mr of a callback at work is not freed. -/
theorem Inv.live_callback {n m : Nat} (hi : Inv s) (h : (s.pc (.callback n)).touching = some m) : s.places.Live m := by
  obtain ⟨rfl, hst⟩ := (hi.good n).touching h
  refine ⟨fun hp => ?_, fun hp => ?_⟩
  · have hp : s.place m = .unborn := hp
    simp [State.stage, hp] at hst
  · have hp : s.place m = .freed := hp
    simp [State.stage, hp] at hst

/-- `Inv` holds in every state reached. -/
theorem run_inv {os : List Party} (h : Run P serial s os) : Inv s :=
  Runs.Run.inv Inv (fun _ => Loaded.inv) (fun _ _ _ hi ht => hi.step ht) h

end

/-! ## A race

A run in which an mr is unpinned by another thread than the one that pinned it, and its
callback comes after `gdr_free_mr_unlocked` has read `page_table`. -/

def loaded : State where
  pc _ := .idle
  files _ := ⟨false, none, [], 0, false⟩
  mrs _ := newMr 0 0 0 0 0 false
  sem _ := .unlocked
  nv := none
  gdrdrv_nv_get_pages_refcount := 0
  fresh := 0
  table _ := .none
  failed _ := false
  incs _ := 0
  decs _ := 0
  kfrees _ := 0
  place _ := .unborn

def onePage : PageTable := ⟨0, 0x00010002, .NVIDIA_P2P_PAGE_SIZE_64KB, [0], false⟩

theorem loaded_loaded : Loaded loaded :=
  ⟨fun _ => rfl, fun _ => rfl, fun _ => rfl, rfl, rfl, rfl, fun _ => rfl, fun _ => rfl, fun _ => rfl,
    fun _ => rfl, fun _ => rfl, fun _ => rfl⟩

/-- The race, while the thread is inside `put_pages` and the callback goes for the semaphore, and its end. -/
theorem race : ∃ s os s' os', Run x86Host false s os ∧ s.pc (.thread 1) = .putIn 0 (.ioctl 0) ∧
    s.pc (.callback 0) = .cbDown 0 ∧
    Run x86Host false s' os' ∧ s'.kfrees 0 = 1 ∧ s'.table 0 = .taken ∧ (∀ f, (s'.files f).isOpen = false) ∧
    ∀ m, s'.failed m = false := by
  have h0 : Run x86Host false loaded [] := .start loaded_loaded
  have h1 := h0.next (.openFile (t := 0) (f := 0) rfl rfl)
  have h2 := h1.next (.pin (t := 0) (f := 0) (q := ⟨65536, 65536, 0, 0, 0⟩) rfl ⟨rfl, fun p => by exact nofun⟩)
  have h3 := h2.next (.pinAlloc (t := 0) (f := 0) (a := (0, 0, false)) rfl (by decide))
  have h4 := h3.next (.pinDown (t := 0) (f := 0) (m := 0) rfl (by rintro p (h | ⟨-, h⟩) <;> cases h))
  have h5 := h4.next (.pinGet (t := 0) (f := 0) (m := 0) rfl nofun)
  have h6 := h5.next (@Step.pinGot _ _ _ 0 0 0 onePage rfl)
  have h7 := h6.next (@Step.pinInc _ _ _ 0 0 0 onePage rfl)
  have h8 := h7.next (.pinLock (t := 0) (f := 0) (m := 0) rfl rfl)
  have h9 := h8.next (.pinAdd (t := 0) (f := 0) (m := 0) rfl rfl)
  have h10 := h9.next (.pinUp (t := 0) (f := 0) (m := 0) rfl)
  have h11 := h10.next (.pinUnlock (t := 0) (f := 0) rfl)
  have h12 := h11.next (.pinDone (t := 0) (f := 0) rfl)
  have h13 := h12.next (@Step.get _ _ _ 1 0 0 .unpin rfl ⟨rfl, by rintro ((_ | t) | (_ | m)) <;> exact nofun⟩)
  have h14 := h13.next (.getLock (t := 1) (f := 0) rfl rfl)
  have h15 := h14.next (.found (t := 1) (f := 0) (m := 0) rfl rfl)
  have h16 := h15.next (.unpinDown (t := 1) (f := 0) (m := 0) rfl (by rintro p (h | ⟨-, h⟩) <;> cases h))
  have h17 := h16.next (.unpinDel (t := 1) rfl)
  have h18 := h17.next (.unpinUnlock (t := 1) rfl)
  have h19 := h18.next (.cbStart (m := 0) rfl nofun)
  have h20 := h19.next (.freeTable (t := 1) rfl rfl nofun)
  have h21 := h20.next (.putCall (t := 1) rfl nofun)
  have h22 := h21.next (.cbDown (m := 0) (n := 0) rfl (by rintro p (h | ⟨-, h⟩) <;> cases h))
  have h23 := h22.next (.cbTable (m := 0) (n := 0) rfl nofun)
  have h24 := h23.next (.cbDec (m := 0) rfl)
  have h25 := h24.next (.cbUp (m := 0) rfl)
  have h26 := h25.next (.cbRet (m := 0) rfl)
  have h27 := h26.next (.putLate (t := 1) rfl rfl)
  have h28 := h27.next (.kfree (t := 1) rfl)
  have h29 := h28.next (.release (t := 0) (f := 0) rfl rfl (by rintro ((_ | _ | t) | (_ | m)) <;> exact nofun))
  have h30 := h29.next (.relLock (t := 0) (f := 0) rfl rfl)
  have h31 := h30.next (.relUnlock (t := 0) rfl rfl)
  exact ⟨_, _, _, _, h21, rfl, rfl, h31, rfl, rfl, by rintro (_ | f) <;> rfl, fun _ => rfl⟩

end gdrdrv.Threads
