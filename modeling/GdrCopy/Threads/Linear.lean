import GdrCopy.Threads.Atomic
import GdrCopy.Threads.Drain
/-!
# Every interleaving is one of operations at once

What the threads do is followed step by step on the driver whose operations take effect at
once (`Related.step`), so their interleavings show no calls and results that it does not
(`linearizable`). A handler takes effect as it gets the semaphore, an unpin as it
takes the mr off its list, a pin as it puts it there, and the callback as it sets `cb_flag`.
-/

namespace gdrdrv.Threads

open Shared (Status Config)

section
variable {P : Platform} {serial : Bool} {s s' : State} {p q : Party} {x y : Pc} {f m n : Nat} {w : Bool}

/-! ## What becomes of an mr -/

theorem SameButRest.ptr {a b : Mr} (h : SameButRest a b) : a.ptr = b.ptr := by
  have hptr : (onlyArgs a).ptr = (onlyArgs b).ptr := by rw [h.2]
  exact hptr

/-- A step writes at most one mr, which it has locked or allocates. -/
theorem Step.mrs (h : Step P serial s p s') : s'.fresh = s.fresh ∧ s'.mrs = s.mrs ∨
    (∃ m mr, s'.fresh = s.fresh ∧ (s.pc p).sem = some (m, true) ∧ mr.ptr = (s.mrs m).ptr ∧
      s'.mrs = Function.update s.mrs m mr) ∨
    ∃ mr, s'.fresh = s.fresh + 1 ∧ mr.ptr = s.fresh ∧ s'.mrs = Function.update s.mrs s.fresh mr := by
  have write {m : Nat} {mr : Mr} (hs : (s.pc p).sem = some (m, true)) (hm : SameButRest mr (s.mrs m)) :=
    show ∃ n mr', s.fresh = s.fresh ∧ (s.pc p).sem = some (n, true) ∧ mr'.ptr = (s.mrs n).ptr ∧
      Function.update s.mrs m mr = Function.update s.mrs n mr' from ⟨m, mr, rfl, hs, hm.ptr, rfl⟩
  cases h with
  | @use t f m u mr h hu =>
    cases u with
    | read =>
      obtain rfl := Option.some.inj hu
      exact .inl ⟨rfl, Function.update_eq_self ..⟩
    | _ => exact .inr (.inl (write (by rw [h]; rfl) (Use.run_rest hu)))
  | unpinDel h | relDel h => exact .inr (.inl (write (by rw [h]; rfl) (unmapped_rest _)))
  | pinRefused _ _ | pinAlloc _ _ => exact .inr (.inr ⟨_, rfl, rfl, rfl⟩)
  | pinInc h => exact .inr (.inl (write (by rw [h]; rfl) (tableSet_rest _ _)))
  | @pinAdd t f m handle file h hn =>
    have hs : (s.pc (.thread t)).sem = some (m, true) := by rw [h]; rfl
    exact .inr (.inl ⟨m, { s.mrs m with handle := handle }, rfl, hs, rfl, rfl⟩)
  | cbTable h _ | cbNone h _ => exact .inr (.inl (write (by rw [h]; rfl) (cb_rest _)))
  | cbDec h => exact .inr (.inl (write (by rw [h]; rfl) (taken_rest _)))
  | _ => exact .inl ⟨rfl, rfl⟩

/-- Every mr has the number of its allocation. -/
def State.Named (s : State) : Prop := ∀ m < s.fresh, (s.mrs m).ptr = m

theorem State.Named.step (hn : s.Named) (h : Step P serial s p s') : s'.Named := by
  intro m hm
  obtain ⟨hfresh, hmrs⟩ | ⟨k, mr, hfresh, -, hptr, hmrs⟩ | ⟨mr, hfresh, hptr, hmrs⟩ := h.mrs
  · rw [hmrs]
    exact hn m (hfresh ▸ hm)
  · have hold : (s.mrs m).ptr = m := hn m (hfresh ▸ hm)
    by_cases hk : m = k
    · subst hk
      rw [hmrs, Function.update_self, hptr, hold]
    · rw [hmrs, Function.update_of_ne hk, hold]
  · by_cases hk : m = s.fresh
    · rw [hmrs, hk, Function.update_self, hptr]
    · rw [hmrs, Function.update_of_ne hk]
      exact hn m (by omega)

/-- A step of another party leaves an mr that is locked or not known to others yet. -/
theorem Step.mr_kept (hi : Inv s) (h : Step P serial s p s') (hne : p ≠ q)
    (hq : (∃ w, (s.pc q).sem = some (m, w)) ∨ (s.pc q).owns = some (m, .allocated) ∧ (s.pc q).sem = none) :
    s'.mrs m = s.mrs m := by
  have hborn : s.place m ≠ .unborn := by
    rcases hq with ⟨w, hs⟩ | ⟨ho, -⟩
    · intro hp
      have := (hi.born m).1 hp
      have := hi.has_guarded (p := q) (c := .rest m) ⟨w, hs⟩
      simp only [State.Has] at this
      omega
    · exact hi.owned_born ho
  have hfresh : m ≠ s.fresh := by
    rintro rfl
    exact hborn ((hi.born _).2 (Nat.le_refl _))
  obtain ⟨-, hmrs⟩ | ⟨k, mr, -, hs, -, hmrs⟩ | ⟨mr, -, -, hmrs⟩ := h.mrs
  · rw [hmrs]
  · have hmk : m ≠ k := by
      rintro rfl
      rcases hq with ⟨w, hq⟩ | ⟨ho, hq⟩
      · exact hne (hi.locks.writer_alone hs hq)
      · have hw : (s.sem m).writer = some p := (hi.locks.writer m p).2 hs
        rw [hi.unheld ho hq] at hw
        cases hw
    rw [hmrs, Function.update_of_ne hmk]
  · rw [hmrs, Function.update_of_ne hfresh]

/-! ## What the holder of a semaphore will leave -/

theorem Pc.settle_rest (x : Pc) (mr : Mr) : SameButRest (x.settle P mr) mr := by
  have run {f : Nat} {u : Use} : SameButRest ((u.run P f mr).getD mr) mr := by
    cases hu : u.run P f mr with
    | none => exact ⟨rfl, rfl⟩
    | some mr' => exact Use.run_rest hu
  cases x with
  | getUnlock f _ u | use f _ u => exact run
  | cbDec _ => exact taken_rest mr
  | _ => exact ⟨rfl, rfl⟩

theorem settled_free (h : (s.sem m).writer = none) : s.settled P m = s.mrs m := by
  simp only [State.settled, h]

theorem settled_held (h : (s.sem m).writer = some p) : s.settled P m = (s.pc p).settle P (s.mrs m) := by
  simp only [State.settled, h]

theorem settled_rest (m : Nat) : SameButRest (s.settled P m) (s.mrs m) := by
  cases h : (s.sem m).writer with
  | none =>
    rw [settled_free h]
    exact ⟨rfl, rfl⟩
  | some p =>
    rw [settled_held h]
    exact Pc.settle_rest _ _

theorem settled_same (hm : s'.mrs m = s.mrs m) (hw : (s'.sem m).writer = (s.sem m).writer)
    (hpc : ∀ q, (s'.pc q).settle P = (s.pc q).settle P) : s'.settled P m = s.settled P m := by
  unfold State.settled
  rw [hw, hm]
  cases (s.sem m).writer with
  | none => rfl
  | some q => exact congrFun (hpc q) _

/-- Another party holds the semaphore, if any does, and nothing changes for it. -/
theorem settled_other (hi : Inv s) (hm : s'.mrs m = s.mrs m) (hw : (s'.sem m).writer = (s.sem m).writer)
    (hp : (s.pc p).sem ≠ some (m, true)) (hpc : ∀ q, q ≠ p → s'.pc q = s.pc q) : s'.settled P m = s.settled P m := by
  cases h : (s.sem m).writer with
  | none => rw [settled_free h, settled_free (hw.trans h), hm]
  | some q =>
    have hqp : q ≠ p := by
      rintro rfl
      exact hp ((hi.locks.writer m q).1 h)
    rw [settled_held h, settled_held (hw.trans h), hm, hpc q hqp]

/-- A party gets a semaphore. -/
theorem settled_down (hi : Inv s) (h : s.pc p = y) (hf : (s.sem n).Free w) (hy : y.sem = none)
    (hx : w = true → n = m → x.settle P (s.mrs m) = s.mrs m) : ((s.down n p w).go p x).settled P m = s.settled P m := by
  have hpc (q : Party) (hq : q ≠ p) : ((s.down n p w).go p x).pc q = s.pc q := go_other hq
  by_cases hn : m = n
  · subst hn
    have hfree : (s.sem m).writer = none := Option.eq_none_iff_forall_ne_some.2 fun q hq => hf q (.inl hq)
    rw [settled_free hfree]
    have hsem : ((s.down m p w).go p x).sem m = (s.sem m).down p w := Function.update_self ..
    have hself : ((s.down m p w).go p x).pc p = x := Function.update_self ..
    cases w with
    | true =>
      rw [settled_held (p := p) (by rw [hsem]; rfl), hself]
      exact hx rfl rfl
    | false =>
      rw [settled_free (by rw [hsem]; exact hfree)]
      rfl
  · have hsem : ((s.down n p w).go p x).sem m = s.sem m := Function.update_of_ne hn ..
    exact settled_other hi rfl (by rw [hsem]) (by simp [h, hy]) hpc

/-- A party that has written an mr drops its semaphore. -/
theorem settled_up (hi : Inv s) (h : s.pc p = y) (hs : y.sem = some (n, w)) (hy : y.settle P (s.mrs n) = s.mrs n) :
    ((s.up n p w).go p x).settled P m = s.settled P m := by
  have hpc (q : Party) (hq : q ≠ p) : ((s.up n p w).go p x).pc q = s.pc q := go_other hq
  have hp : (s.pc p).sem = some (n, w) := by rw [h, hs]
  by_cases hn : m = n
  · subst hn
    have hsem : ((s.up m p w).go p x).sem m = (s.sem m).up p w := Function.update_self ..
    cases w with
    | true =>
      have hheld : (s.sem m).writer = some p := (hi.locks.writer m p).2 hp
      rw [settled_held hheld, settled_free (by rw [hsem]; rfl), h, hy]
      rfl
    | false => exact settled_other hi rfl (by rw [hsem]; rfl) (by rw [hp]; simp) hpc
  · have hsem : ((s.up n p w).go p x).sem m = s.sem m := Function.update_of_ne hn ..
    exact settled_other hi rfl (by rw [hsem]) (by rw [hp]; simp [Ne.symm hn]) hpc

/-- A party writes an mr that it keeps locked. -/
theorem settled_write {mr : Mr} (hi : Inv s) (h : s.pc p = y) (hs : y.sem = some (n, true)) (hsem : s'.sem = s.sem)
    (hmrs : s'.mrs = Function.update s.mrs n mr) (hpc : s'.pc = Function.update s.pc p x)
    (hx : m = n → x.settle P mr = y.settle P (s.mrs n)) : s'.settled P m = s.settled P m := by
  have hp : (s.pc p).sem = some (n, true) := by rw [h, hs]
  by_cases hn : m = n
  · subst hn
    have hheld : (s.sem m).writer = some p := (hi.locks.writer m p).2 hp
    rw [settled_held hheld, settled_held (p := p) (by rw [hsem]; exact hheld), hmrs, hpc, Function.update_self,
      Function.update_self, hx rfl, h]
  · refine settled_other hi (by rw [hmrs, Function.update_of_ne hn]) (by rw [hsem])
      (by rw [hp]; simp [Ne.symm hn]) fun q hq => ?_
    rw [hpc, Function.update_of_ne hq]

/-- The mr whose part in the files changes as the party takes its next step. -/
def Pc.commits : Pc → Option Nat
  | .getDown _ m (.use _) => some m
  | .unpinDel _ m => some m
  | .pinInc _ m _ => some m
  | .pinAdd _ m => some m
  | .relDel _ m => some m
  | .cbBody m => some m
  | _ => none

/-- All other steps leave what an mr will be. -/
theorem Step.settled_same (hi : Inv s) (h : Step P serial s p s') (hm : m < s.fresh) (hc : (s.pc p).commits ≠ some m) :
    s'.settled P m = s.settled P m := by
  have hfresh : m ≠ s.fresh := Nat.ne_of_lt hm
  cases h with
  | openFile h hf => exact Threads.settled_same rfl rfl fun _ => rfl
  | get h _ | getLock h _ | found h _ | notFound h _ | getNone h | getUnlock h | unpinUnlock h | putCall h _
  | putPersistent h _
  | putLate h _ | putDec h | pin h _ | pinNoMem h | pinGet h _ | pinGetFails h | pinLock h _ | pinNoHandle h _
  | pinFail h
  | pinUnlock h | pinDone h | pinUndo h | release h _ _ | relLock h _ | relNext h _ | relUnlock h _
  | cbStart h _ | cbRet h =>
    exact Threads.settled_same rfl rfl (keep (Pc.settle P) h rfl)
  | @getDown t f n u h hf =>
    have hn : n ≠ m := by simpa [h, Pc.commits] using hc
    exact settled_down hi h hf rfl fun _ he => absurd he hn
  | unpinDown h hf | pinDown h hf | relDown h hf | cbDown h hf => exact settled_down hi h hf rfl fun _ _ => rfl
  | put h | pinUp h | cbUp h => exact settled_up hi h rfl rfl
  | @use t f n u mr h hu =>
    cases u with
    | read =>
      obtain rfl := Option.some.inj hu
      exact Threads.settled_same (congrFun (Function.update_eq_self ..) m) rfl (keep (Pc.settle P) h rfl)
    | _ => exact settled_write hi h rfl rfl rfl rfl fun _ => by simp only [Pc.settle, hu, Option.getD_some]
  | @unpinDel t _ n h | @relDel t _ n h | @pinInc t _ n _ h | @pinAdd t _ n _ _ h _ =>
    have hn : n ≠ m := by simpa [h, Pc.commits] using hc
    exact settled_write hi h rfl rfl rfl rfl fun he => absurd he.symm hn
  | @cbTable k n h _ | @cbNone k n h _ =>
    have hn : n ≠ m := by simpa [h, Pc.commits] using hc
    exact settled_write hi h rfl rfl rfl rfl fun he => absurd he.symm hn
  | cbDec h => exact settled_write hi h rfl rfl rfl rfl fun _ => rfl
  | @freeTable t n held r h _ _ | @freeNone t n held r h _ _ =>
    cases held with
    | true => exact settled_up hi h rfl rfl
    | false =>
      have hu : s.sem n = .unlocked := hi.unheld (by rw [h]; rfl) (by rw [h]; rfl)
      refine Threads.settled_same rfl ?_ (keep (Pc.settle P) h rfl)
      have hsem : Function.update s.sem n ((s.sem n).up (.thread t) true) = s.sem :=
        Function.update_eq_self_iff.2 (by rw [hu]; rfl)
      exact congrArg (fun sem : Nat → Locks.Sem Party => (sem m).writer) hsem
  | putReturn h hcb => exact Threads.settled_same rfl rfl (keep_both (Pc.settle P) h rfl hcb rfl)
  | putFails h hcb =>
    rcases hcb with hcb | hcb <;> exact Threads.settled_same rfl rfl (keep_both (Pc.settle P) h rfl hcb rfl)
  | @kfree t n r h => exact Threads.settled_same rfl rfl (keep (Pc.settle P) h (by cases r <;> rfl))
  | pinRefused h _ | pinAlloc h _ =>
    exact Threads.settled_same (Function.update_of_ne hfresh ..)
      (congrArg Locks.Sem.writer (Function.update_of_ne hfresh ..))
      (keep (Pc.settle P) h rfl)
  | pinGot h =>
    have hidle := hi.callback_idle (by rw [h]; rfl)
    exact Threads.settled_same rfl rfl (keep_both (Pc.settle P) h rfl hidle (by split <;> rfl))

/-! ## What becomes of the files -/

theorem usable_same (ho : (s'.files f).isOpen = (s.files f).isOpen)
    (hr : ∀ q, ((s'.pc q).releasing = some f) = ((s.pc q).releasing = some f)) : s'.Usable f ↔ s.Usable f := by
  simp only [State.Usable, ho, ne_eq, hr]

/-- A file becomes usable as it is opened, and stays so until it is released. -/
theorem Step.usable_same (hi : Inv s) (h : Step P serial s p s') (hp : s.pc p ≠ .idle) (f : Nat) :
    s'.Usable f ↔ s.Usable f := by
  have same {g : Nat} {file : File} (ho : file.isOpen = (s.files g).isOpen) :
      (Function.update s.files g file f).isOpen = (s.files f).isOpen := keep File.isOpen rfl ho f
  let going (x : Pc) : Prop := x.releasing = some f
  cases h with
  | openFile h _ | get h _ | pin h _ | release h _ _ => exact absurd h hp
  | found h _ | notFound h _ | getDown h _ | use h _ | put h | unpinDown h _ | pinNoMem h | pinRefused h _
  | pinAlloc h _ | pinDown h _
  | pinGet h _ | pinGetFails h | pinNoHandle h _ | pinUp h | pinDone h | pinUndo h | relNext h _ | relDown h _
  | cbStart h _
  | cbDown h _ | cbTable h _ | cbNone h _ | cbDec h | cbUp h | cbRet h =>
    exact Threads.usable_same rfl (keep going h rfl)
  | freeTable h _ _ | freeNone h _ _ | putCall h _ | putPersistent h _ | putLate h _ | putDec h =>
    exact Threads.usable_same rfl (keep going h (by simp [going]))
  | getLock h _ | getNone h | getUnlock h | unpinDel h | unpinUnlock h | pinLock h _ | pinFail h | pinUnlock h
  | relLock h _
  | relDel h => exact Threads.usable_same (same rfl) (keep going h rfl)
  | pinAdd h hn => exact Threads.usable_same (same (newHandle_file hn).2.1) (keep going h rfl)
  | putReturn h hc => exact Threads.usable_same rfl (keep_both going h (by simp [going]) hc rfl)
  | putFails h hc =>
    rcases hc with hc | hc <;> exact Threads.usable_same rfl (keep_both going h (by simp [going]) hc rfl)
  | @kfree t m r h => exact Threads.usable_same rfl (keep going h (by cases r <;> rfl))
  | pinGot h =>
    have hidle := hi.callback_idle (by rw [h]; rfl)
    exact Threads.usable_same rfl (keep_both going h rfl hidle (by split <;> rfl))
  | pinInc h => exact Threads.usable_same rfl (keep going h (by split <;> rfl))
  | @relUnlock t g h hl =>
    by_cases hg : f = g
    · subst hg
      have hopen : (((s.setLock f none).close f).files f).isOpen = false := by simp [State.close]
      refine iff_of_false (fun hu => ?_) fun hu => hu.2 (.thread t) (by rw [h]; rfl)
      have := hu.1.symm.trans hopen
      cases this
    · have hgone : (Pc.idle.releasing = some f) = ((Pc.relNext g).releasing = some f) := by
        simp [Pc.releasing, Ne.symm hg]
      have hopen : (((s.setLock g none).close g).files f).isOpen = (s.files f).isOpen := by
        simp [State.close, State.setLock, hg]
      exact Threads.usable_same hopen (keep going h hgone)

theorem atom_usable (h : s.Usable f) : s.atom P f = some (s.info P f) := if_pos h

theorem atom_unusable (h : ¬ s.Usable f) : s.atom P f = none := if_neg h

/-- What a thread has an operation in progress on is usable, unless that is its release. -/
theorem Inv.usable (hi : Inv s) (hf : (s.pc p).file = some f) (hr : (s.pc p).releasing ≠ some f) : s.Usable f := by
  refine ⟨hi.file p f hf, fun q hq => hr ?_⟩
  rwa [hi.releasing q p f hq hf]

theorem Inv.listed_born (hi : Inv s) (hm : m ∈ (s.files f).mr_list) : m < s.fresh :=
  (hi.live (hi.places.live_listed hm)).1

/-- The next step of the party does nothing that shows in file `f`. -/
def State.Hides (s : State) (p : Party) (f : Nat) : Prop :=
  .info f ∉ s.writes p ∧ ∀ m ∈ (s.files f).mr_list, (s.pc p).commits ≠ some m

theorem Step.info_same (hi : Inv s) (h : Step P serial s p s') (hu : s.Usable f) (hh : s.Hides p f) :
    s'.info P f = s.info P f := by
  have hcontent : s'.content (.info f) = s.content (.info f) := h.writes_only hh.1 hu.1
  obtain ⟨hlist, hnext, hover⟩ := Content.info.inj hcontent
  have hsettled : (s.files f).mr_list.map (s'.settled P) = (s.files f).mr_list.map (s.settled P) :=
    List.map_congr_left fun m hm => h.settled_same hi (hi.listed_born hm) (hh.2 m hm)
  rw [State.info, State.info, hlist, hnext, hover, hsettled]

/-- What a step does shows in file `f` at most. -/
theorem Step.atom_at (hi : Inv s) (h : Step P serial s p s') (hp : s.pc p ≠ .idle) (hu : s.Usable f)
    (hh : ∀ g, g ≠ f → s.Hides p g) : s'.atom P = Function.update (s.atom P) f (some (s'.info P f)) := by
  funext g
  by_cases hg : g = f
  · subst hg
    rw [Function.update_self, atom_usable ((h.usable_same hi hp g).2 hu)]
  rw [Function.update_of_ne hg]
  by_cases hug : s.Usable g
  · rw [atom_usable hug, atom_usable ((h.usable_same hi hp g).2 hug), h.info_same hi hug (hh g hg)]
  · rw [atom_unusable hug, atom_unusable fun hu' => hug ((h.usable_same hi hp g).1 hu')]

/-- A step that shows nowhere. -/
theorem Step.atom_same (hi : Inv s) (h : Step P serial s p s') (hp : s.pc p ≠ .idle)
    (hh : ∀ g, s.Usable g → s.Hides p g) :
    s'.atom P = s.atom P := by
  funext g
  by_cases hug : s.Usable g
  · rw [atom_usable hug, atom_usable ((h.usable_same hi hp g).2 hug), h.info_same hi hug (hh g hug)]
  · rw [atom_unusable hug, atom_unusable fun hu' => hug ((h.usable_same hi hp g).1 hu')]

/-- Most steps write no list and change no mr for others. -/
theorem Step.atom_quiet (hi : Inv s) (h : Step P serial s p s') (hx : s.pc p = x) (hp : x ≠ .idle)
    (hw : ∀ f, .info f ∉ x.writes s.files) (hc : x.commits = none) : s'.atom P = s.atom P := by
  refine h.atom_same hi (by rwa [hx]) fun g _ => ⟨?_, fun m _ => ?_⟩
  · rw [State.writes, hx]
    exact hw g
  · simp [hx, hc]

/-! ## Files and lists of mrs -/

theorem searchLoop_map {mrs a : Nat → Mr} {handle : Nat} {l : List Nat} (h : ∀ m, (a m).handle = (mrs m).handle)
    (o : Option Nat) :
    searchLoop handle (o.map a) (l.map a) = (findLoop mrs handle o l).map a := by
  induction l generalizing o with
  | nil => rfl
  | cons m l ih =>
    simp only [List.map_cons, searchLoop, findLoop, h m]
    split_ifs with hm
    · rfl
    · exact ih (some m)

/-- The lookup in the list is the lookup on the addresses. -/
theorem info_find (handle : Nat) : gdr_mr_from_handle_unlocked (s.info P f) handle =
    (findLoop s.mrs handle none (s.files f).mr_list).map (s.settled P) :=
  searchLoop_map (fun m => (settled_rest m).1) none

theorem settled_ptr (hn : s.Named) (hm : m < s.fresh) : (s.settled P m).ptr = m := (settled_rest m).ptr.trans (hn m hm)

/-- A step that changes one listed mr for others puts it on the list. -/
theorem Step.info_put (hi : Inv s) (hn : s.Named) (h : Step P serial s p s') (hu : s.Usable f)
    (hw : .info f ∉ s.writes p) (hc : (s.pc p).commits = some m) (hm : m ∈ (s.files f).mr_list) :
    s'.info P f = (s.info P f).put (s'.settled P m) := by
  have hcontent : s'.content (.info f) = s.content (.info f) := h.writes_only hw hu.1
  obtain ⟨hlist, hnext, hover⟩ := Content.info.inj hcontent
  have hborn : m < s'.fresh := (hi.step h).listed_born (f := f) (by rwa [hlist])
  have hptr : (s'.settled P m).ptr = m := settled_ptr (hn.step h) hborn
  have hmap : (s.files f).mr_list.map (s'.settled P) =
      ((s.files f).mr_list.map (s.settled P)).map fun mr => if mr.ptr = (s'.settled P m).ptr then
        s'.settled P m else mr := by
    rw [List.map_map]
    refine List.map_congr_left fun k hk => ?_
    have hkptr : (s.settled P k).ptr = k := settled_ptr hn (hi.listed_born hk)
    simp only [Function.comp_apply, hptr, hkptr]
    split_ifs with hkm
    · rw [hkm]
    · exact h.settled_same hi (hi.listed_born hk) (by rw [hc]; simpa using Ne.symm hkm)
  rw [State.info, hlist, hnext, hover, hmap]
  rfl

/-- What has been taken off the addresses has been taken off the list. -/
theorem info_del (hi : Inv s) (hn : s.Named) (hm : m < s.fresh) : (s.info P f).list_del (s.settled P m) =
    ⟨((s.files f).mr_list.filter (· ≠ m)).map (s.settled P), 0, (s.files f).next_handle,
      (s.files f).next_handle_overflow⟩ := by
  have hfilter : ((s.files f).mr_list.map (s.settled P)).filter (fun mr => mr.ptr ≠ (s.settled P m).ptr) =
      ((s.files f).mr_list.filter (· ≠ m)).map (s.settled P) := by
    rw [List.filter_map]
    congr 1
    refine List.filter_congr fun k hk => ?_
    simp only [Function.comp_apply, settled_ptr hn (hi.listed_born hk), settled_ptr hn hm]
  rw [Info.list_del, State.info, hfilter]

/-! ## Where a thread stands, and its operation -/

def Ret.result : Ret → Result
  | .ioctl _ => .freed
  | .release _ => .released

/-- The mr has been found on the list of the file, which is locked. -/
def Found (s : State) (f m : Nat) (g : Goal) (st : Status Entry Result) : Prop :=
  ∃ handle, st = .asked (.lookup f handle g) ∧ findLoop s.mrs handle none (s.files f).mr_list = some m

/-- The handler has taken effect before it runs, unless it will stop the kernel. -/
def Bound (P : Platform) (s : State) (f m : Nat) (u : Use) (st : Status Entry Result) : Prop :=
  (∃ mr', u.run P f (s.mrs m) = some mr' ∧ st = .done (.used (s.mrs m) mr')) ∨
    u.run P f (s.mrs m) = none ∧ ∃ handle, st = .asked (.lookup f handle (.use u))

/-- The mr of a pin has what the pin asks for. -/
def Made (P : Platform) (s : State) (f m : Nat) (st : Status Entry Result) : Prop :=
  ∃ q a, st = .asked (.pin f q) ∧ pinArgs P q.p2p_token q.va_space q.flags = .ok a ∧
    s.mrs m = newMr m q.addr q.size a.1 a.2.1 a.2.2

/-- The mr of a pin has its page table as well. -/
def Ready (P : Platform) (s : State) (f m : Nat) (st : Status Entry Result) : Prop :=
  ∃ q a pt, st = .asked (.pin f q) ∧ pinArgs P q.p2p_token q.va_space q.flags = .ok a ∧
    s.mrs m = (setUp P m q a pt).1 ∧ (setUp P m q a pt).2 = true

/-- How far a thread is tells how far its operation is. -/
def Shows (P : Platform) (s : State) (st : Status Entry Result) : Pc → Prop
  | .idle => st = .idle
  | .getLock f handle g => st = .asked (.lookup f handle g)
  | .getFind f handle g => st = .asked (.lookup f handle g)
  | .getDown f m g => Found s f m g st
  | .getNone _ => st = .done .missed
  | .getUnlock f m u => Bound P s f m u st
  | .use f m u => Bound P s f m u st
  | .put _ _ _ => st = .idle
  | .unpinDel f m => Found s f m .unpin st
  | .unpinUnlock _ _ => st = .done .freed
  | .free _ _ r => st = .done r.result
  | .putCall _ r => st = .done r.result
  | .putIn _ r => st = .done r.result
  | .putDone _ r => st = .done r.result
  | .kfree _ r => st = .done r.result
  | .pin f q => st = .asked (.pin f q)
  | .pinDown f m => Made P s f m st
  | .pinGet f m => Made P s f m st
  | .pinGetIn f m => Made P s f m st
  | .pinInc f m _ => Made P s f m st
  | .pinLock f m => Ready P s f m st
  | .pinAdd f m => Ready P s f m st
  | .pinFail _ _ => st = .done .freed
  | .pinUp f _ handle => st = .done (.pinned f handle)
  | .pinUnlock f handle => st = .done (.pinned f handle)
  | .pinCopy f handle => st = .done (.pinned f handle)
  | .relLock _ => st = .done .released
  | .relNext _ => st = .done .released
  | .relDown _ _ => st = .done .released
  | .relDel _ _ => st = .done .released
  | _ => False

variable {st : Status Entry Result} {g : Goal} {u : Use}

/-- What a lookup has found under `info->lock` it would find again. -/
theorem Found.step (hi : Inv s) (h : Step P serial s p s') (hne : p ≠ q) (hl : (s.pc q).lock = some f)
    (hf : Found s f m g st) :
    Found s' f m g st := by
  obtain ⟨handle, rfl, hfound⟩ := hf
  refine ⟨handle, rfl, ?_⟩
  have hcontent : s'.content (.info f) = s.content (.info f) := (h.guarded hi hne (c := .info f) hl).1
  rw [(Content.info.inj hcontent).1, ← hfound]
  refine findLoop_follows (fun k hk => ?_) none
  have hhandle : s'.content (.handle k) = s.content (.handle k) := (h.guarded hi hne (c := .handle k) ⟨f, hl, hk⟩).1
  exact Content.handle.inj hhandle

/-- The step of another party. -/
theorem Shows.step (hi : Inv s) (h : Step P serial s p s') (hne : p ≠ q) (hs : Shows P s st (s.pc q)) :
    Shows P s' st (s.pc q) := by
  have locked {m : Nat} {w : Bool} (hq : (s.pc q).sem = some (m, w)) : s'.mrs m = s.mrs m :=
    h.mr_kept hi hne (.inl ⟨w, hq⟩)
  have bound {f m : Nat} {u : Use} (hm : s'.mrs m = s.mrs m) (hb : Bound P s f m u st) :
    Bound P s' f m u st := by rwa [Bound, hm]
  have made {f m : Nat} (hm : s'.mrs m = s.mrs m) (hb : Made P s f m st) : Made P s' f m st := by rwa [Made, hm]
  have ready {f m : Nat} (hm : s'.mrs m = s.mrs m) (hb : Ready P s f m st) : Ready P s' f m st := by rwa [Ready, hm]
  cases hx : s.pc q with
  | getDown f m g | unpinDel f m =>
    rw [hx] at hs
    exact Found.step (q := q) hi h hne (by rw [hx]; rfl) hs
  | getUnlock f m u | use f m u =>
    rw [hx] at hs
    exact bound (locked (by rw [hx]; rfl)) hs
  | pinDown f m =>
    rw [hx] at hs
    exact made (h.mr_kept hi hne (.inr ⟨by rw [hx]; rfl, by rw [hx]; rfl⟩)) hs
  | pinGet f m | pinGetIn f m | pinInc f m _ =>
    rw [hx] at hs
    exact made (locked (by rw [hx]; rfl)) hs
  | pinLock f m | pinAdd f m =>
    rw [hx] at hs
    exact ready (locked (by rw [hx]; rfl)) hs
  | _ =>
    rw [hx] at hs
    exact hs

/-- The object has the files of the threads, and each operation is as far on both sides. -/
structure Related (P : Platform) (s : State) (x : Config Files Nat Entry Result) : Prop where
  state : x.state = s.atom P
  client : ∀ t, Shows P s (x.client t) (s.pc (.thread t))

theorem Loaded.related (h : Loaded s) {a : Config Files Nat Entry Result} (ha : (atomicDriver P).Start a) :
    Related P s a := by
  subst ha
  refine ⟨?_, fun t => ?_⟩
  · funext f
    have hclosed : ¬ s.Usable f := by simp [State.Usable, h.2.1]
    rw [atom_unusable hclosed]
    rfl
  · rw [h.1]
    rfl

section
variable {t : Nat} {a a' : Config Files Nat Entry Result} {e : Option Visible}

/-- A thread moves on, and so does its operation. -/
theorem Related.go (hi : Inv s) (hr : Related P s a) (h : Step P serial s (.thread t) s') (hx : s'.pc (.thread t) = x)
    (hst : Shows P s' st x) : Related P s' ({ a with state := s'.atom P }.set t st) := by
  refine ⟨rfl, fun u => ?_⟩
  by_cases hu : u = t
  · subst hu
    rwa [hx, Config.set_self]
  · have hne : Party.thread t ≠ .thread u := by simpa using Ne.symm hu
    rw [Config.set_other hu, h.pc_thread hne]
    exact (hr.client u).step hi h hne

/-- The files stay as they are. -/
theorem Related.move (hi : Inv s) (hr : Related P s a) (h : Step P serial s (.thread t) s') (ha : s'.atom P = s.atom P)
    (hx : s'.pc (.thread t) = x) (hst : Shows P s' st x) : Related P s' (a.set t st) := by
  have hgo : Related P s' ({ a with state := s'.atom P }.set t st) := hr.go hi h hx hst
  rwa [ha, ← hr.state] at hgo

/-- A thread moves on where nobody sees it. -/
theorem Related.stay (hi : Inv s) (hr : Related P s a) (h : Step P serial s (.thread t) s') (ha : s'.atom P = s.atom P)
    (hx : s'.pc (.thread t) = x) (hst : Shows P s' (a.client t) x) : ∃ a', (atomicDriver P).Follows a none a' ∧
    Related P s' a' := by
  have hsame : a.set t (a.client t) = a := by simp only [Config.set, Function.update_eq_self]
  exact ⟨a, .refl, hsame ▸ hr.move hi h ha hx hst⟩

theorem unseen (he : s.seen s' p = none) (h : ∃ a', (atomicDriver P).Follows a none a' ∧ Related P s' a') :
    ∃ a', (atomicDriver P).Follows a (s.seen s' p) a' ∧ Related P s' a' := by
  rwa [he]

/-- What most steps do. -/
theorem Related.quiet (hi : Inv s) (hr : Related P s a) (h : Step P serial s (.thread t) s') (hy : s.pc (.thread t) = y)
    (hx : s'.pc (.thread t) = x) (he : s.seen s' (.thread t) = none) (hp : y ≠ .idle)
    (hw : ∀ f, .info f ∉ y.writes s.files) (hc : y.commits = none)
    (hst : Shows P s (a.client t) y → Shows P s' (a.client t) x) :
    ∃ a', (atomicDriver P).Follows a (s.seen s' (.thread t)) a' ∧ Related P s' a' := by
  exact unseen he (hr.stay hi h (h.atom_quiet hi hy hp hw hc) hx (hst (hy ▸ hr.client t)))

/-- A step that leaves the threads where they are. -/
theorem Related.aside (hi : Inv s) (hr : Related P s a) (h : Step P serial s p s')
    (hp : ∀ t, p = .thread t → s.pc p = .idle ∧ s'.pc p = .idle) : Related P s' { a with state := s'.atom P } := by
  refine ⟨rfl, fun t => ?_⟩
  have hs := hr.client t
  by_cases ht : p = .thread t
  · obtain ⟨hidle, hidle'⟩ := hp t ht
    subst ht
    rw [hidle] at hs
    rw [hidle']
    exact hs
  · rw [h.pc_thread ht]
    exact hs.step hi h ht

/-! ## Where operations take effect -/

/-- A thread that does nothing to files or mrs yet. -/
theorem atom_go (h : s.pc p = y) (hs : x.settle P = y.settle P) (hr : x.releasing = y.releasing) :
    (s.go p x).atom P = s.atom P := by
  funext f
  have hu : (s.go p x).Usable f ↔ s.Usable f := usable_same rfl fun q => by rw [State.go, keep Pc.releasing h hr q]
  have hinfo : (s.go p x).info P f = s.info P f := by
    have hsettled : (s.go p x).settled P = s.settled P := funext fun m => settled_same rfl rfl (keep (Pc.settle P) h hs)
    simp only [State.info, hsettled]
    rfl
  by_cases hf : s.Usable f
  · rw [atom_usable hf, atom_usable (hu.2 hf), hinfo]
  · rw [atom_unusable hf, atom_unusable fun hf' => hf (hu.1 hf')]

/-- Nobody lists an mr twice. -/
theorem Inv.listed_once (hi : Inv s) (hf : m ∈ (s.files f).mr_list) {g : Nat}
    (hg : m ∈ (s.files g).mr_list) : g = f := by
  have hpf : s.place m = .listed f := (hi.places.listed f m).1 hf
  have hpg : s.place m = .listed g := (hi.places.listed g m).1 hg
  rw [hpf] at hpg
  cases hpg
  rfl

/-- A step that changes a listed mr shows in its file only. -/
theorem Inv.hides (hi : Inv s) (hm : m ∈ (s.files f).mr_list) (hc : (s.pc p).commits = some m)
    (hw : ∀ g, g ≠ f → .info g ∉ s.writes p) (g : Nat) (hg : g ≠ f) : s.Hides p g := by
  refine ⟨hw g hg, fun k hk hk' => hg ?_⟩
  obtain rfl : m = k := by simpa using hc.symm.trans hk'
  exact hi.listed_once hm hk

theorem put_self (hi : Inv s) (hn : s.Named) (hm : m ∈ (s.files f).mr_list) :
    (s.info P f).put (s.settled P m) = s.info P f := by
  have hmap : ((s.files f).mr_list.map (s.settled P)).map (fun mr => if mr.ptr = (s.settled P m).ptr then
      s.settled P m else mr) =
      (s.files f).mr_list.map (s.settled P) := by
    rw [List.map_map]
    refine List.map_congr_left fun k hk => ?_
    simp only [Function.comp_apply, settled_ptr hn (hi.listed_born hk), settled_ptr hn (hi.listed_born hm)]
    split_ifs with hkm
    · rw [hkm]
    · rfl
  exact congrArg (fun l => Info.mk l 0 (s.files f).next_handle (s.files f).next_handle_overflow) hmap

/-- A handler gets the semaphore. -/
theorem Related.getDown (hi : Inv s) (hn : s.Named) (hr : Related P s a) (hstep : Step P serial s (.thread t) s')
    (h : s.pc (.thread t) = .getDown f m (.use u)) (hf : (s.sem m).Free (Goal.use u).write)
    (hs' : s' = (s.down m (.thread t) (Goal.use u).write).go (.thread t) (.getUnlock f m u)) :
    ∃ a', (atomicDriver P).Follows a none a' ∧ Related P s' a' := by
  have hidle : s.pc (.thread t) ≠ .idle := by simp [h]
  have hself : s'.pc (.thread t) = .getUnlock f m u := by rw [hs']; exact Function.update_self ..
  have hmrs : s'.mrs = s.mrs := by rw [hs']; rfl
  have hc : (s.pc (.thread t)).commits = some m := by rw [h]; rfl
  have hw (g : Nat) : .info g ∉ s.writes (.thread t) := by simp [State.writes, h, Pc.writes]
  have hu : s.Usable f := hi.usable (p := .thread t) (by rw [h]; rfl) (by simp [h, Pc.releasing])
  have hstatus : Found s f m (.use u) (a.client t) := by have := hr.client t; rwa [h] at this
  obtain ⟨handle, hasked, hfound⟩ := hstatus
  have hm : m ∈ (s.files f).mr_list := (findLoop_mem hfound).resolve_right (by simp)
  have hfree : (s.sem m).writer = none := Option.eq_none_iff_forall_ne_some.2 fun q hq => hf q (.inl hq)
  have hfind : gdr_mr_from_handle_unlocked (s.info P f) handle = some (s.mrs m) := by
    rw [info_find, hfound, Option.map_some, settled_free hfree]
  have hsem : s'.sem m = (s.sem m).down (.thread t) (Goal.use u).write := by rw [hs']; exact Function.update_self ..
  have hatom : s'.atom P = Function.update (s.atom P) f (some ((s.info P f).put (s'.settled P m))) := by
    rw [← hstep.info_put hi hn hu (hw f) hc hm]
    exact hstep.atom_at hi hidle hu (hi.hides hm hc fun g _ => hw g)
  -- for a reader nothing will change
  have hsettled : s'.settled P m = (u.run P f (s.mrs m)).getD (s.mrs m) := by
    cases hwrite : (Goal.use u).write with
    | true =>
      rw [hwrite] at hsem
      rw [settled_held (p := .thread t) (by rw [hsem]; rfl), hself, hmrs]
      rfl
    | false =>
      rw [hwrite] at hsem
      rw [settled_free (by rw [hsem]; exact hfree), hmrs]
      cases u <;> first | rfl | cases hwrite
  cases hrun : u.run P f (s.mrs m) with
  | none =>
    have hsame : s'.settled P m = s.settled P m := by rw [hsettled, hrun, settled_free hfree]; rfl
    refine hr.stay hi hstep ?_ hself (.inr ⟨by rw [hmrs, hrun], handle, hasked⟩)
    rw [hatom, hsame, put_self hi hn hm, ← atom_usable hu, Function.update_eq_self]
  | some mr' =>
    have hafter : s'.settled P m = mr' := by rw [hsettled, hrun]; rfl
    have happly : Applies P a.state (.lookup f handle (.use u)) (.used (s.mrs m) mr') (s'.atom P) := by
      rw [hatom, hafter, ← hr.state]
      exact .used (by rw [hr.state, atom_usable hu]) hfind hrun
    exact ⟨_, .one (.effect hasked happly), hr.go hi hstep hself (.inl ⟨mr', by rw [hmrs, hrun], by rw [hmrs]⟩)⟩

theorem Inv.writer (hi : Inv s) (h : s.pc p = x) (hs : x.sem = some (m, true)) : (s.sem m).writer = some p :=
  (hi.locks.writer m p).2 (by show (s.pc p).sem = some (m, true); rw [h, hs])

/-- An unpin takes the mr off its list. -/
theorem Related.unpinDel (hi : Inv s) (hn : s.Named) (hr : Related P s a) (hstep : Step P serial s (.thread t) s')
    (h : s.pc (.thread t) = .unpinDel f m)
    (hs' : s' = (s.unlink (.thread t) f m (unmapped (s.mrs m))).go (.thread t) (.unpinUnlock f m)) :
    ∃ a', (atomicDriver P).Follows a none a' ∧ Related P s' a' := by
  have hidle : s.pc (.thread t) ≠ .idle := by simp [h]
  have hself : s'.pc (.thread t) = .unpinUnlock f m := by rw [hs']; exact Function.update_self ..
  have hc : (s.pc (.thread t)).commits = some m := by rw [h]; rfl
  have hu : s.Usable f := hi.usable (p := .thread t) (by rw [h]; rfl) (by simp [h, Pc.releasing])
  have hstatus : Found s f m .unpin (a.client t) := by have := hr.client t; rwa [h] at this
  obtain ⟨handle, hasked, hfound⟩ := hstatus
  have hm : m ∈ (s.files f).mr_list := (findLoop_mem hfound).resolve_right (by simp)
  have hheld : (s.sem m).writer = some (.thread t) := hi.writer h rfl
  have hsettled : s.settled P m = s.mrs m := by rw [settled_held hheld, h]; rfl
  have hfind : gdr_mr_from_handle_unlocked (s.info P f) handle = some (s.mrs m) := by
    rw [info_find, hfound, Option.map_some, hsettled]
  have hw (g : Nat) (hg : g ≠ f) : .info g ∉ s.writes (.thread t) := by simp [State.writes, h, Pc.writes, hg]
  have hfiles : s'.files f = { s.files f with mr_list := (s.files f).mr_list.filter (· ≠ m) } := by
    rw [hs']
    exact Function.update_self ..
  have hinfo : s'.info P f = (s.info P f).list_del (s.mrs m) := by
    have hrest : ((s.files f).mr_list.filter (· ≠ m)).map (s'.settled P) =
        ((s.files f).mr_list.filter (· ≠ m)).map (s.settled P) := by
      refine List.map_congr_left fun k hk => ?_
      obtain ⟨hk, hkm⟩ := List.mem_filter.1 hk
      exact hstep.settled_same hi (hi.listed_born hk) (by rw [hc]; simpa using Ne.symm (of_decide_eq_true hkm))
    rw [← hsettled, info_del hi hn (hi.listed_born hm), State.info, hfiles, hrest]
  have hatom : s'.atom P = Function.update (s.atom P) f (some ((s.info P f).list_del (s.mrs m))) := by
    rw [← hinfo]
    exact hstep.atom_at hi hidle hu (hi.hides hm hc hw)
  have happly : Applies P a.state (.lookup f handle .unpin) .freed (s'.atom P) := by
    rw [hatom, ← hr.state]
    exact .unpinned (by rw [hr.state, atom_usable hu]) hfind
  exact ⟨_, .one (.effect hasked happly), hr.go hi hstep hself rfl⟩

/-- The handle does not depend on the list. -/
theorem generate_list {info info' : Info} {size handle : Nat} {l : List Mr} {owner : Nat}
    (h : gdr_generate_mr_handle P info size = some (handle, info')) :
    gdr_generate_mr_handle P { info with mr_list := l, tgid := owner } size =
    some (handle, { info' with mr_list := l, tgid := owner }) := by
  unfold gdr_generate_mr_handle at h ⊢
  split at h
  · cases h
  · rename_i hover
    rw [if_neg hover]
    cases h
    rfl

/-- A pin puts its mr on the list. -/
theorem Related.pinAdd {handle : Nat} {file : File} (hi : Inv s) (hn : s.Named) (hr : Related P s a)
    (hstep : Step P serial s (.thread t) s') (h : s.pc (.thread t) = .pinAdd f m)
    (hnew : newHandle P (s.files f) (s.mrs m) = some (handle, file))
    (hs' : s' = { (s.setMr m { s.mrs m with handle := handle }).setPlace m (.listed f) with
      files := Function.update s.files f { file with mr_list := m :: (s.files f).mr_list } }.go (.thread t)
      (.pinUp f m handle)) :
    ∃ a', (atomicDriver P).Follows a none a' ∧ Related P s' a' := by
  have hidle : s.pc (.thread t) ≠ .idle := by simp [h]
  have hself : s'.pc (.thread t) = .pinUp f m handle := by rw [hs']; exact Function.update_self ..
  have hc : (s.pc (.thread t)).commits = some m := by rw [h]; rfl
  have hu : s.Usable f := hi.usable (p := .thread t) (by rw [h]; rfl) (by simp [h, Pc.releasing])
  have howned : (s.pc (.thread t)).owned = some m := by rw [h]; rfl
  have hunlisted {k g : Nat} (hk : k ∈ (s.files g).mr_list) : k ≠ m := by
    rintro rfl
    exact hi.owned_not_listed howned hk
  have hstatus : Ready P s f m (a.client t) := by have := hr.client t; rwa [h] at this
  obtain ⟨q, args, pt, hasked, hargs, hmr, haccepted⟩ := hstatus
  obtain ⟨⟨handle', info'⟩, hgen, hpair⟩ := Option.map_eq_some_iff.1 hnew
  obtain ⟨rfl, rfl⟩ := Prod.mk.inj hpair
  have hgen' : gdr_generate_mr_handle P (s.info P f) (setUp P m q args pt).1.mapped_size =
      some (handle', { info' with mr_list := (s.info P f).mr_list, tgid := 0 }) := by
    rw [← hmr]
    exact generate_list hgen
  have hw (g : Nat) (hg : g ≠ f) : .info g ∉ s.writes (.thread t) := by simp [State.writes, h, Pc.writes, hg]
  have hhides (g : Nat) (hg : g ≠ f) : s.Hides (.thread t) g := by
    refine ⟨hw g hg, fun k hk hk' => hunlisted hk ?_⟩
    simpa using hk'.symm.trans hc
  have hheld : (s'.sem m).writer = some (.thread t) := by
    rw [hs']
    exact hi.writer h rfl
  have hmr' : s'.mrs m = { s.mrs m with handle := handle' } := by rw [hs']; exact Function.update_self ..
  have hsettled : s'.settled P m = { (setUp P m q args pt).1 with handle := handle' } := by
    rw [settled_held hheld, hself, hmr', hmr]
    rfl
  have hfiles : s'.files f = { s.files f with
      next_handle := info'.next_handle, next_handle_overflow := info'.next_handle_overflow, mr_list :=
        m :: (s.files f).mr_list } := by
    rw [hs']
    exact Function.update_self ..
  have hrest : (s.files f).mr_list.map (s'.settled P) = (s.files f).mr_list.map (s.settled P) :=
    List.map_congr_left fun k hk => hstep.settled_same hi (hi.listed_born hk)
      (by rw [hc]; simpa using Ne.symm (hunlisted hk))
  have hinfo : s'.info P f = ({ info' with mr_list := (s.info P f).mr_list, tgid := 0 } : Info).list_add
      { (setUp P m q args pt).1 with handle := handle' } := by
    rw [State.info, hfiles]
    simp only [List.map_cons, hrest, hsettled]
    rfl
  have hatom : s'.atom P = Function.update (s.atom P) f (some (s'.info P f)) := hstep.atom_at hi hidle hu hhides
  have hfresh : ∀ g i, s.atom P g = some i → ∀ mr ∈ i.mr_list, mr.ptr ≠ m := by
    intro g i hg mr hmem
    by_cases hug : s.Usable g
    · rw [atom_usable hug] at hg
      obtain rfl := Option.some.inj hg
      obtain ⟨k, hk, rfl⟩ := List.mem_map.1 hmem
      rw [settled_ptr hn (hi.listed_born hk)]
      exact hunlisted hk
    · rw [atom_unusable hug] at hg
      cases hg
  have happly : Applies P a.state (.pin f q) (.pinned f handle') (s'.atom P) := by
    rw [hatom, hinfo, ← hr.state]
    exact .pinned (by rw [hr.state, atom_usable hu]) hargs haccepted hgen' (by rw [hr.state]; exact hfresh)
  exact ⟨_, .one (.effect hasked happly), hr.go hi hstep hself rfl⟩

/-- The last reference to a file is gone. -/
theorem Related.release (hi : Inv s) (hr : Related P s a) (hstep : Step P serial s (.thread t) s')
    (h : s.pc (.thread t) = .idle) (ho : (s.files f).isOpen = true) (hf : ∀ p, (s.pc p).file ≠ some f)
    (hs' : s' = s.go (.thread t) (.relLock f)) :
    ∃ a', (atomicDriver P).Follows a (some (.call t (.release f))) a' ∧ Related P s' a' := by
  have hself : s'.pc (.thread t) = .relLock f := by rw [hs']; exact Function.update_self ..
  have hu : s.Usable f := ⟨ho, fun p hp => hf p (Pc.file_of_releasing hp)⟩
  have hclient : a.client t = .idle := by have := hr.client t; rwa [h] at this
  have hatom : s'.atom P = Function.update (s.atom P) f none := by
    funext g
    by_cases hg : g = f
    · subst hg
      rw [Function.update_self, atom_unusable fun hu' => hu'.2 (.thread t) (by rw [hself]; rfl)]
    have hug : s'.Usable g ↔ s.Usable g := by
      have hgone : ((Pc.relLock f).releasing = some g) = (Pc.idle.releasing = some g) := by
        simp [Pc.releasing, Ne.symm hg]
      rw [hs']
      exact usable_same rfl (keep (fun x : Pc => x.releasing = some g) h hgone)
    have hsettled : s'.settled P = s.settled P := by
      rw [hs']
      exact funext fun m => settled_same rfl rfl (keep (Pc.settle P) h rfl)
    have hinfo : s'.info P g = s.info P g := by
      rw [State.info, State.info, hsettled, hs']
      rfl
    rw [Function.update_of_ne hg]
    by_cases hs : s.Usable g
    · rw [atom_usable hs, atom_usable (hug.2 hs), hinfo]
    · rw [atom_unusable hs, atom_unusable fun hs' => hs (hug.1 hs')]
  have happly : Applies P a.state (.release f) .released (s'.atom P) := by
    rw [hatom, ← hr.state]
    exact .released (by rw [hr.state, atom_usable hu])
  exact ⟨_, .callEffect hclient happly, hr.go hi hstep hself rfl⟩

/-- A file is opened. -/
theorem Related.openFile (hi : Inv s) (hr : Related P s a) (hstep : Step P serial s (.thread t) s')
    (h : s.pc (.thread t) = .idle) (ho : (s.files f).isOpen = false)
    (hs' : s' = { s with files := Function.update s.files f ⟨true, none, [], 0, false⟩ }) :
    ∃ a', (atomicDriver P).Follows a none a' ∧ Related P s' a' := by
  have hclosed : ¬ s.Usable f := fun hu => by
    have := hu.1.symm.trans ho
    cases this
  have hatom : s'.atom P = Function.update (s.atom P) f (some ⟨[], 0, 0, false⟩) := by
    funext g
    by_cases hg : g = f
    · subst hg
      have hu : s'.Usable g := by
        rw [hs']
        refine ⟨by simp, fun p hp => ?_⟩
        have := (hi.file p g (Pc.file_of_releasing hp)).symm.trans ho
        cases this
      rw [Function.update_self, atom_usable hu, hs']
      simp [State.info]
    have hfiles : s'.files g = s.files g := by rw [hs']; exact Function.update_of_ne hg ..
    have hug : s'.Usable g ↔ s.Usable g := by
      refine usable_same (by rw [hfiles]) fun q => ?_
      rw [hs']
    have hinfo : s'.info P g = s.info P g := by
      rw [State.info, State.info, hfiles, hs']
      rfl
    rw [Function.update_of_ne hg]
    by_cases hs : s.Usable g
    · rw [atom_usable hs, atom_usable (hug.2 hs), hinfo]
    · rw [atom_unusable hs, atom_unusable fun hs' => hs (hug.1 hs')]
  have hhappens : Happens a.state (s'.atom P) := by
    rw [hatom, ← hr.state]
    exact .opened (by rw [hr.state, atom_unusable hclosed])
  refine ⟨_, .one (.env hhappens), hr.aside hi hstep fun u hu => ?_⟩
  cases hu
  exact ⟨h, by rw [hs']; exact h⟩

/-- The callback finds the page table. -/
theorem Related.cbTable (hi : Inv s) (hn : s.Named) (hr : Related P s a) (hstep : Step P serial s (.callback m) s')
    (h : s.pc (.callback m) = .cbBody n) (hp : (s.mrs n).page_table ≠ none)
    (hs' : s' = ((s.setMr n { s.mrs n with cb_flag := true }).setTable n .taken).go (.callback m) (.cbDec n)) :
    ∃ a', (atomicDriver P).Follows a none a' ∧ Related P s' a' := by
  have hidle : s.pc (.callback m) ≠ .idle := by simp [h]
  have hself : s'.pc (.callback m) = .cbDec n := by rw [hs']; exact Function.update_self ..
  have hc : (s.pc (.callback m)).commits = some n := by rw [h]; rfl
  have hw (g : Nat) : .info g ∉ s.writes (.callback m) := by simp [State.writes, h, Pc.writes]
  have hheld : (s.sem n).writer = some (.callback m) := hi.writer h rfl
  have hrelated : Related P s' { a with state := s'.atom P } := hr.aside hi hstep (by simp)
  by_cases hlisted : ∃ f, s.Usable f ∧ n ∈ (s.files f).mr_list
  · obtain ⟨f, hu, hm⟩ := hlisted
    have hsettled : s.settled P n = s.mrs n := by rw [settled_held hheld, h]; rfl
    have hafter : s'.settled P n = revoked (s.mrs n) := by
      have hheld' : (s'.sem n).writer = some (.callback m) := by rw [hs']; exact hheld
      have hmr : s'.mrs n = { s.mrs n with cb_flag := true } := by rw [hs']; exact Function.update_self ..
      rw [settled_held hheld', hself, hmr]
      rfl
    have hatom : s'.atom P = Function.update (s.atom P) f (some ((s.info P f).put (revoked (s.mrs n)))) := by
      rw [← hafter, ← hstep.info_put hi hn hu (hw f) hc hm]
      exact hstep.atom_at hi hidle hu (hi.hides hm hc fun g _ => hw g)
    have hmem : s.mrs n ∈ (s.info P f).mr_list := hsettled ▸ List.mem_map_of_mem hm
    have hhappens : Happens a.state (s'.atom P) := by
      rw [hatom, ← hr.state]
      exact .revoked (by rw [hr.state, atom_usable hu]) hmem hp
    exact ⟨_, .one (.env hhappens), hrelated⟩
  · -- the mr is off its list, or its file is being released
    have hatom : s'.atom P = s.atom P := by
      refine hstep.atom_same hi hidle fun g hg => ⟨hw g, fun k hk hk' => hlisted ⟨g, hg, ?_⟩⟩
      obtain rfl : n = k := by simpa using hc.symm.trans hk'
      exact hk
    rw [hatom, ← hr.state] at hrelated
    exact ⟨a, .refl, hrelated⟩

/-- A callback moves on where nobody sees it. -/
theorem Related.callback (hi : Inv s) (hr : Related P s a) (h : Step P serial s (.callback m) s')
    (hx : s.pc (.callback m) = x) (hp : x ≠ .idle) (hw : ∀ f, .info f ∉ x.writes s.files) (hc : x.commits = none) :
    ∃ a', (atomicDriver P).Follows a none a' ∧ Related P s' a' := by
  have hrelated : Related P s' { a with state := s'.atom P } := hr.aside hi h (by simp)
  rw [h.atom_quiet hi hx hp hw hc, ← hr.state] at hrelated
  exact ⟨a, .refl, hrelated⟩

/-- A pin fails. -/
theorem Related.pinFails {q : PinReq} (hi : Inv s) (hr : Related P s a) (h : Step P serial s (.thread t) s')
    (ha : s'.atom P = s.atom P) (hasked : a.client t = .asked (.pin f q)) (hx : s'.pc (.thread t) = x)
    (hst : Shows P s' (.done .freed) x) (he : s.seen s' (.thread t) = none) :
    ∃ a', (atomicDriver P).Follows a (s.seen s' (.thread t)) a' ∧ Related P s' a' := by
  rw [he]
  exact ⟨_, .one (.effect hasked .pinFailed), hr.move hi h ha hx hst⟩

/-- An operation returns. -/
theorem Related.ret {r : Result} (hi : Inv s) (hr : Related P s a) (h : Step P serial s (.thread t) s')
    (ha : s'.atom P = s.atom P) (hdone : a.client t = .done r) (hx : s'.pc (.thread t) = x) (hst : Shows P s' .idle x)
    (he : s.seen s' (.thread t) = some (.ret t r)) :
    ∃ a', (atomicDriver P).Follows a (s.seen s' (.thread t)) a' ∧ Related P s' a' := by
  rw [he]
  exact ⟨_, .one (.ret hdone), hr.move hi h ha hx hst⟩

/-- An operation is called. -/
theorem Related.call {o : Entry} (hi : Inv s) (hr : Related P s a) (h : Step P serial s (.thread t) s')
    (ha : s'.atom P = s.atom P) (hidle : a.client t = .idle) (hx : s'.pc (.thread t) = x)
    (hst : Shows P s' (.asked o) x) (he : s.seen s' (.thread t) = some (.call t o)) :
    ∃ a', (atomicDriver P).Follows a (s.seen s' (.thread t)) a' ∧ Related P s' a' := by
  rw [he]
  exact ⟨_, .one (.call hidle), hr.move hi h ha hx hst⟩

theorem Inv.listed_refers (hi : Inv s) (h : (s.pc p).refers = some (f, m)) : m ∈ (s.files f).mr_list :=
  (hi.places.listed f m).2 (hi.places.refers p f m h)

/-- The mr of a pin is on no list. -/
theorem Inv.owned_hides (hi : Inv s) (ho : (s.pc p).owned = some m) (hc : (s.pc p).commits = some m)
    (hw : ∀ g, .info g ∉ s.writes p) (g : Nat) : s.Hides p g := by
  refine ⟨hw g, fun k hk hk' => hi.owned_not_listed ho (f := g) ?_⟩
  obtain rfl : m = k := by simpa using hc.symm.trans hk'
  exact hk

/-- A file that is being released cannot be used. -/
theorem Inv.not_usable (hr : (s.pc p).releasing = some f) : ¬ s.Usable f := fun hu => hu.2 p hr

/-- What any step does the object can follow. -/
theorem Related.step (hi : Inv s) (hn : s.Named) (hr : Related P s a) (h : Step P serial s p s') :
    ∃ a', (atomicDriver P).Follows a (s.seen s' p) a' ∧ Related P s' a' := by
  have hstep := h
  have self {s1 : State} {t : Nat} {x : Pc} : (s1.go (.thread t) x).pc (.thread t) = x := Function.update_self ..
  have shows {t : Nat} {x : Pc} (hx : s.pc (.thread t) = x) : Shows P s (a.client t) x := hx ▸ hr.client t
  cases h with
  | @openFile t f h ho =>
    exact unseen (by simp only [State.seen, h]) (hr.openFile hi hstep h ho rfl)
  | getLock h _ | getUnlock h | freeTable h _ _ | freeNone h _ _ | unpinDown h _ | unpinUnlock h | putCall h _
  | putReturn h _
  | putPersistent h _ | putLate h _ | putFails h _ | putDec h | pinDown h _ | pinGet h _ | pinGot h
  | pinLock h _ | pinFail h
  | pinUp h | pinUnlock h | relLock h _ | relDown h _ | put h =>
    exact hr.quiet hi hstep h self (by simp only [State.seen, h]) (by simp) (by simp [Pc.writes]) rfl id
  -- lookups
  | get h _ | pin h _ =>
    exact hr.call hi hstep (atom_go h rfl rfl) (shows h) self rfl (by simp only [State.seen, h, self])
  | @found t f handle g m h hm =>
    exact hr.quiet hi hstep h self (by simp only [State.seen, h]) (by simp) (by simp [Pc.writes]) rfl fun hs =>
      ⟨handle, hs, hm⟩
  | @notFound t f handle g h hm =>
    have hu : s.Usable f := hi.usable (p := .thread t) (by rw [h]; rfl) (by simp [h, Pc.releasing])
    have hmissed : Applies P a.state (.lookup f handle g) .missed a.state := by
      have hmiss : gdr_mr_from_handle_unlocked (s.info P f) handle = none := by rw [info_find, hm, Option.map_none]
      exact .missed (by rw [hr.state, atom_usable hu]) hmiss
    exact unseen (by simp only [State.seen, h]) ⟨_, .one (.effect (shows h) hmissed),
      hr.move hi hstep (atom_go h rfl rfl) self rfl⟩
  | getNone h =>
    exact hr.ret hi hstep (hstep.atom_quiet hi h (by simp) (by simp [Pc.writes]) rfl) (shows h) self rfl
      (by simp only [State.seen, h])
  | @getDown t f m u h hf =>
    exact unseen (by simp only [State.seen, h]) (hr.getDown hi hn hstep h hf rfl)
  | @use t f m u mr h hu =>
    have hquiet := hstep.atom_quiet hi h (by simp) (by cases u <;> simp [Pc.writes]) rfl
    have hmr : ((s.setMr m mr).go (.thread t) (.put f m u)).mrs m = mr := Function.update_self ..
    rcases shows h with ⟨mr', hrun, hdone⟩ | ⟨hrun, -⟩
    · obtain rfl := Option.some.inj (hu.symm.trans hrun)
      exact hr.ret hi hstep hquiet hdone self rfl (by simp only [State.seen, h, hmr])
    · rw [hu] at hrun
      cases hrun
  -- unpin and the free routine
  | @unpinDel t f m h =>
    exact unseen (by simp only [State.seen, h]) (hr.unpinDel hi hn hstep h rfl)
  | @kfree t m r h =>
    have hquiet := hstep.atom_quiet hi h (by simp) (by simp [Pc.writes]) rfl
    cases r with
    | ioctl f => exact hr.ret hi hstep hquiet (shows h) self rfl (by simp only [State.seen, h, Ret.result])
    | release f => exact hr.quiet hi hstep h self (by simp only [State.seen, h]) (by simp) (by simp [Pc.writes]) rfl id
  -- pin
  | @pinNoMem t f q h =>
    have he : s.seen (s.go (.thread t) .idle) (.thread t) = some (.ret t .noMem) := by simp only [State.seen, h, self]
    rw [he]
    exact ⟨_, .effectRet (shows h) .noMem, hr.move hi hstep (atom_go h rfl rfl) self rfl⟩
  | pinRefused h _ =>
    exact hr.pinFails hi hstep (hstep.atom_quiet hi h (by simp) (by simp [Pc.writes]) rfl) (shows h) self rfl
      (by simp only [State.seen, h, self])
  | @pinAlloc t f q args h ha =>
    exact hr.quiet hi hstep h self (by simp only [State.seen, h, self]) (by simp) (by simp [Pc.writes]) rfl fun hs =>
      ⟨q, args, hs, ha, Function.update_self ..⟩
  | pinGetFails h =>
    obtain ⟨q, args, hasked, -, -⟩ := shows h
    exact hr.pinFails hi hstep (hstep.atom_quiet hi h (by simp) (by simp [Pc.writes]) rfl) hasked self rfl
      (by simp only [State.seen, h])
  | @pinInc t f m pt h =>
    obtain ⟨q, args, hasked, hargs, hmr⟩ := shows h
    have hw (g : Nat) : .info g ∉ s.writes (.thread t) := by simp [State.writes, h, Pc.writes]
    have hhides := hi.owned_hides (p := .thread t) (m := m) (by rw [h]; rfl) (by rw [h]; rfl) hw
    have hatom := hstep.atom_same hi (by simp [h]) fun g _ => hhides g
    have hseen : s.seen (((s.inc m).setMr m (tableSet P (s.mrs m) pt).1).go (.thread t)
      (if (tableSet P (s.mrs m) pt).2 then .pinLock f m else .free m true (.ioctl f))) (.thread t) = none := by
      simp only [State.seen, h]
    by_cases haccepted : (tableSet P (s.mrs m) pt).2 = true
    · rw [hseen]
      refine hr.stay hi hstep hatom (self.trans (if_pos haccepted)) ⟨q, args, pt, hasked, hargs, ?_, ?_⟩
      · rw [setUp, ← hmr]
        exact Function.update_self ..
      · rwa [setUp, ← hmr]
    · exact hr.pinFails hi hstep hatom hasked (self.trans (if_neg haccepted)) rfl hseen
  | @pinAdd t f m handle file h hnew =>
    exact unseen (by simp only [State.seen, h]) (hr.pinAdd hi hn hstep h hnew rfl)
  | pinNoHandle h _ =>
    obtain ⟨q, args, pt, hasked, -, -, -⟩ := shows h
    exact hr.pinFails hi hstep (atom_go h rfl rfl) hasked self rfl (by simp only [State.seen, h])
  | pinDone h => exact hr.ret hi hstep (atom_go h rfl rfl) (shows h) self rfl (by simp only [State.seen, h, self])
  | @pinUndo t f handle h =>
    have hagain : (atomicDriver P).Step a none (a.set t (.asked (.lookup f handle .unpin))) :=
      .again (shows h) ⟨f, handle, rfl, rfl⟩
    exact unseen (by simp only [State.seen, h, self]) ⟨_, .one hagain, hr.move hi hstep (atom_go h rfl rfl) self rfl⟩
  -- release
  | @release t f h ho hf =>
    have he : s.seen (s.go (.thread t) (.relLock f)) (.thread t) = some (.call t (.release f)) := by
      simp only [State.seen, h, self]
    rw [he]
    exact hr.release hi hstep h ho hf rfl
  | @relNext t f m rest h hl =>
    exact unseen (by simp only [State.seen, h, self]) (hr.stay hi hstep (atom_go h rfl rfl) self (shows h))
  | @relDel t f m h =>
    have hm : m ∈ (s.files f).mr_list := hi.listed_refers (p := .thread t) (by rw [h]; rfl)
    have hw (g : Nat) (hg : g ≠ f) : .info g ∉ s.writes (.thread t) := by simp [State.writes, h, Pc.writes, hg]
    have hatom := hstep.atom_same hi (by simp [h]) fun g hg => hi.hides hm (by rw [h]; rfl) hw g fun hgf =>
      Inv.not_usable (p := .thread t) (by rw [h]; rfl) (hgf ▸ hg)
    exact unseen (by simp only [State.seen, h]) (hr.stay hi hstep hatom self (shows h))
  | @relUnlock t f h hl =>
    have hatom := hstep.atom_same hi (by simp [h]) fun g hg => ⟨?_, ?_⟩
    · exact hr.ret hi hstep hatom (shows h) self rfl (by simp only [State.seen, h, self])
    · have hgf : g ≠ f := fun hgf => Inv.not_usable (p := .thread t) (by rw [h]; rfl) (hgf ▸ hg)
      simp [State.writes, h, Pc.writes, hl, hgf]
    · simp [h, Pc.commits]
  -- the callback
  | cbStart h _ | cbDown h _ | cbDec h | cbUp h | cbRet h =>
    exact hr.callback hi hstep h (by simp) (by simp [Pc.writes]) rfl
  | cbTable h hp => exact hr.cbTable hi hn hstep h hp rfl
  -- this step is not taken
  | @cbNone m n h hp =>
    obtain rfl := hi.callback_own (m := m) (n := n) (by rw [h]; rfl)
    have hs : (s.mrs n).page_table.isSome = true := ((hi.good n).body h).1
    rw [hp] at hs
    cases hs

end

/-! ## Every run -/

theorem SeenRun.named {es : Trace} (h : SeenRun P serial s es) : s.Named := by
  induction h with
  | @start s h =>
    intro m hm
    have hfresh : s.fresh = 0 := h.2.2.2.2.2.1
    omega
  | next _ ht ih =>
    obtain ⟨p, hp, -⟩ := ht
    exact ih.step hp

theorem SeenRun.inv {es : Trace} (h : SeenRun P serial s es) : Inv s ∧ s.Named := by
  obtain ⟨os, hr⟩ := h.run
  exact ⟨run_inv hr, h.named⟩

/-- The object can follow every run. -/
theorem SeenRun.follows {es : Trace} (h : SeenRun P serial s es) :
    ∃ a es', Runs.Run (atomicDriver P).Start (atomicDriver P).Step a es' ∧ es'.reduceOption = es.reduceOption ∧
    Related P s a := by
  have hstep : ∀ s a e s', Inv s ∧ s.Named → Related P s a → SeenStep P serial s e s' →
      ∃ a', (atomicDriver P).Follows a e a' ∧ Related P s' a' := by
    rintro s a e s' ⟨hi, hn⟩ hr ⟨p, hp, rfl⟩
    exact hr.step hi hn hp
  exact Shared.Object.simulation (fun s => Inv s ∧ s.Named) (fun s es hr => SeenRun.inv hr) (Related P)
    (fun s h a => h.related) hstep h

/-- The driver is linearizable: what can be seen of any interleaving of any number of threads and callbacks can
be seen of the driver whose operations take effect at once, each between its call and its return. That driver
then has the files of the threads, but for what is under way. -/
theorem linearizable {es : Trace} (h : SeenRun P serial s es) :
    ∃ a es', Runs.Run (atomicDriver P).Start (atomicDriver P).Step a es' ∧ es'.reduceOption = es.reduceOption ∧
      a.state = s.atom P ∧ ∀ t, s.pc (.thread t) = .idle → a.client t = .idle := by
  obtain ⟨a, es', hrun, hes, hrel⟩ := h.follows
  refine ⟨a, es', hrun, hes, hrel.state, fun t ht => ?_⟩
  have hs := hrel.client t
  rwa [ht] at hs

end

/-- A lookup that is called after an unpin and returns before it, and finds nothing. -/
theorem linearizable_unpinned : ∃ s es a es', SeenRun x86Host false s es ∧
    es.reduceOption = [.call 0 (.pin 0 ⟨65536, 65536, 0, 0, 0⟩), .ret 0 (.pinned 0 0), .call 1 (.lookup 0 0 .unpin),
      .call 0 (.lookup 0 0 (.use .read)), .ret 0 .missed, .ret 1 .freed] ∧
    Runs.Run (atomicDriver x86Host).Start (atomicDriver x86Host).Step a es' ∧ es'.reduceOption = es.reduceOption ∧
    a.state = s.atom x86Host := by
  have h0 : SeenRun x86Host false loaded [] := .start loaded_loaded
  have h1 := h0.next ⟨_, .openFile (t := 0) (f := 0) rfl rfl, rfl⟩
  have h2 := h1.next ⟨_, .pin (t := 0) (f := 0) (q := ⟨65536, 65536, 0, 0, 0⟩) rfl ⟨rfl, fun p => by exact nofun⟩, rfl⟩
  have h3 := h2.next ⟨_, .pinAlloc (t := 0) (f := 0) (a := (0, 0, false)) rfl (by decide), rfl⟩
  have h4 := h3.next ⟨_, .pinDown (t := 0) (f := 0) (m := 0) rfl (by rintro p (h | ⟨-, h⟩) <;> cases h), rfl⟩
  have h5 := h4.next ⟨_, .pinGet (t := 0) (f := 0) (m := 0) rfl nofun, rfl⟩
  have h6 := h5.next ⟨_, @Step.pinGot _ _ _ 0 0 0 onePage rfl, rfl⟩
  have h7 := h6.next ⟨_, @Step.pinInc _ _ _ 0 0 0 onePage rfl, rfl⟩
  have h8 := h7.next ⟨_, .pinLock (t := 0) (f := 0) (m := 0) rfl rfl, rfl⟩
  have h9 := h8.next ⟨_, .pinAdd (t := 0) (f := 0) (m := 0) rfl rfl, rfl⟩
  have h10 := h9.next ⟨_, .pinUp (t := 0) (f := 0) (m := 0) rfl, rfl⟩
  have h11 := h10.next ⟨_, .pinUnlock (t := 0) (f := 0) rfl, rfl⟩
  have h12 := h11.next ⟨_, .pinDone (t := 0) (f := 0) rfl, rfl⟩
  have h13 := h12.next ⟨_, @Step.get _ _ _ 1 0 0 .unpin rfl ⟨rfl, by rintro ((_ | t) | (_ | m)) <;> exact nofun⟩, rfl⟩
  have h14 := h13.next ⟨_, @Step.get _ _ _ 0 0 0 (.use .read) rfl
    ⟨rfl, by rintro ((_ | _ | t) | (_ | m)) <;> exact nofun⟩, rfl⟩
  have h15 := h14.next ⟨_, .getLock (t := 1) (f := 0) rfl rfl, rfl⟩
  have h16 := h15.next ⟨_, .found (t := 1) (f := 0) (m := 0) rfl rfl, rfl⟩
  have h17 := h16.next ⟨_, .unpinDown (t := 1) (f := 0) (m := 0) rfl (by rintro p (h | ⟨-, h⟩) <;> cases h), rfl⟩
  have h18 := h17.next ⟨_, .unpinDel (t := 1) rfl, rfl⟩
  have h19 := h18.next ⟨_, .unpinUnlock (t := 1) rfl, rfl⟩
  have h20 := h19.next ⟨_, .getLock (t := 0) (f := 0) rfl rfl, rfl⟩
  have h21 := h20.next ⟨_, .notFound (t := 0) (f := 0) rfl rfl, rfl⟩
  have h22 := h21.next ⟨_, .getNone (t := 0) rfl, rfl⟩
  have h23 := h22.next ⟨_, .freeTable (t := 1) rfl rfl nofun, rfl⟩
  have h24 := h23.next ⟨_, .putCall (t := 1) rfl nofun, rfl⟩
  have h25 := h24.next ⟨_, .putReturn (t := 1) rfl rfl, rfl⟩
  have h26 := h25.next ⟨_, .putDec (t := 1) rfl, rfl⟩
  have h27 := h26.next ⟨_, .kfree (t := 1) rfl, rfl⟩
  obtain ⟨a, es', hrun, hes, hstate, -⟩ := linearizable h27
  exact ⟨_, _, a, es', h27, rfl, hrun, hes, hstate⟩

end gdrdrv.Threads
