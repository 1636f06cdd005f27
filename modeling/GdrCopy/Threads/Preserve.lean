import GdrCopy.Threads.Invariant
/-!
# Every step keeps the invariant

One lemma says what any step does to the locks, and one what it does to the places of
mrs; the libraries do the rest. The records of an mr are checked where they change.
-/

namespace gdrdrv.Threads

open Locks (Sem)
open Places (Place)

/-! ## Where a party can be -/

namespace Pc
variable {x : Pc} {f m : Nat} {w : Bool}

theorem file_of_lock (h : x.lock = some f) : x.file = some f := by
  unfold Pc.lock Ret.lock at h
  unfold Pc.file Ret.file
  grind

theorem file_of_releasing (h : x.releasing = some f) : x.file = some f := by
  unfold Pc.releasing at h
  unfold Pc.file Ret.file
  grind

theorem file_of_owned (h : x.owned = some m) : ∃ f, x.file = some f := by
  cases x with
  | free n held r => exact ⟨_, rfl⟩
  | _ => simp_all [Pc.owned, Pc.owns, Pc.file]

/-- A listed mr is only referred to by who holds the lock of its file or its semaphore. -/
theorem held_of_refers (h : x.refers = some (f, m)) : x.lock = some f ∨ ∃ w, x.sem = some (m, w) := by
  cases x <;> simp_all [Pc.refers, Pc.lock, Pc.sem]

/-- A thread with a semaphore owns its mr or refers to it. -/
theorem has_of_sem (h : x.sem = some (m, w)) (hc : ¬ x.OfCallback) :
    (∃ st, x.owns = some (m, st)) ∨ ∃ f, x.refers = some (f, m) := by
  cases x with
  | free m held r => cases held <;> simp_all [Pc.refers, Pc.owns, Pc.sem]
  | _ => simp_all [Pc.refers, Pc.owns, Pc.sem, Pc.OfCallback]

end Pc

/-- What is read off one entry stays as it is everywhere when the new entry keeps it. -/
theorem keep {ι α β : Type} [DecidableEq ι] (g : β → α) {a : ι → β} {i : ι} {x y : β} (h : a i = y)
    (hg : g x = g y) (j : ι) :
    g (Function.update a i x j) = g (a j) := by
  by_cases hj : j = i
  · rw [hj, Function.update_self, hg, h]
  · rw [Function.update_of_ne hj]

/-- `keep` when the callback of an mr moves as well. -/
theorem keep_both {α : Type} (g : Pc → α) {pc : Party → Pc} {t m : Nat} {x y c c' : Pc} (h : pc (.thread t) = y)
    (hg : g x = g y) (hc : pc (.callback m) = c) (hg' : g c' = g c) (q : Party) :
    g (Function.update (Function.update pc (.callback m) c') (.thread t) x q) = g (pc q) := by
  have hne : Party.thread t ≠ .callback m := nofun
  have h' : Function.update pc (.callback m) c' (.thread t) = y := by rwa [Function.update_of_ne hne]
  rw [keep g h' hg, keep g hc hg']

/-! ## Locks -/

section
variable {s s' : State} {p : Party} {x y : Pc} {f m : Nat} {w : Bool}

/-- Nothing changes of the locks. -/
theorem locks_same (hl : ∀ q, (s'.pc q).lock = (s.pc q).lock) (hs : ∀ q, (s'.pc q).sem = (s.pc q).sem)
    (hf : ∀ f, (s'.files f).lock = (s.files f).lock) (hsem : s'.sem = s.sem) : s.locks.Step s'.locks := by
  have : s'.locks = s.locks := by
    simp only [State.locks, Locks.View.mk.injEq]
    exact ⟨funext hf, hsem, funext hl, funext hs⟩
  rw [this]
  exact .same

theorem locks_lock (h : s.pc p = y) (hf : (s.files f).lock = none) (hy : y.lock = none) (hx : x.lock = some f)
    (hs : x.sem = y.sem) : s.locks.Step ((s.setLock f (some p)).go p x).locks := by
  have : ((s.setLock f (some p)).go p x).locks = { s.locks with
      mutex := Function.update s.locks.mutex f (some p), hasMutex := Function.update s.locks.hasMutex p (some f) } := by
    simp only [State.locks, Locks.View.mk.injEq]
    exact ⟨Function.comp_update File.lock .., rfl, (Function.comp_update Pc.lock ..).trans (by rw [hx]; rfl),
      funext (keep Pc.sem h hs)⟩
  rw [this]
  exact .lock hf (by show (s.pc p).lock = none; rw [h, hy])

theorem locks_unlock (hpc : s'.pc = Function.update s.pc p x)
    (hfiles : (fun g => (s'.files g).lock) = Function.update (fun g => (s.files g).lock) f none) (hsem : s'.sem = s.sem)
    (h : s.pc p = y) (hy : y.lock = some f) (hx : x.lock = none) (hs : x.sem = y.sem) : s.locks.Step s'.locks := by
  have : s'.locks = { s.locks with
      mutex := Function.update s.locks.mutex f none, hasMutex := Function.update s.locks.hasMutex p none } := by
    simp only [State.locks, Locks.View.mk.injEq, hpc]
    exact ⟨hfiles, hsem, (Function.comp_update Pc.lock ..).trans (by rw [hx]; rfl), funext (keep Pc.sem h hs)⟩
  rw [this]
  exact .unlock (by show (s.pc p).lock = some f; rw [h, hy])

theorem locks_down (h : s.pc p = y) (hf : (s.sem m).Free w) (hy : y.sem = none) (hx : x.sem = some (m, w))
    (hl : x.lock = y.lock) : s.locks.Step ((s.down m p w).go p x).locks := by
  have : ((s.down m p w).go p x).locks = { s.locks with
      sem := Function.update s.locks.sem m ((s.locks.sem m).down p w)
      hasSem := Function.update s.locks.hasSem p (some (m, w)) } := by
    simp only [State.locks, Locks.View.mk.injEq]
    exact ⟨rfl, rfl, funext (keep Pc.lock h hl), (Function.comp_update Pc.sem ..).trans (by rw [hx]; rfl)⟩
  rw [this]
  exact .down hf (by show (s.pc p).sem = none; rw [h, hy])

theorem locks_up (h : s.pc p = y) (hy : y.sem = some (m, w)) (hx : x.sem = none) (hl : x.lock = y.lock) :
    s.locks.Step ((s.up m p w).go p x).locks := by
  have : ((s.up m p w).go p x).locks = { s.locks with
      sem := Function.update s.locks.sem m ((s.locks.sem m).up p w), hasSem :=
        Function.update s.locks.hasSem p none } := by
    simp only [State.locks, Locks.View.mk.injEq]
    exact ⟨rfl, rfl, funext (keep Pc.lock h hl), (Function.comp_update Pc.sem ..).trans (by rw [hx]; rfl)⟩
  rw [this]
  exact .up (by show (s.pc p).sem = some (m, w); rw [h, hy])

end

/-! ## Who holds a semaphore -/

/-- The mr that a callback is about to touch. -/
def Pc.touching : Pc → Option Nat
  | .cbDown m => some m
  | .cbBody m => some m
  | .cbDec m => some m
  | .cbUp m => some m
  | _ => none

/-- While a callback touches an mr, the mr has a page table or had one. -/
theorem Good.touching {n m : Nat} {x : Facts} {st : Stage} (h : Good n x st) (hm : x.callback.touching = some m) :
    m = n ∧ (st = .got ∨ st = .main ∨ st = .putting) := by
  have ahead : ∀ {c : Pc}, c.Ahead n → c.touching = some m → m = n := by
    rintro c (rfl | rfl | rfl | rfl) hc <;> simp_all [Pc.touching]
  have ended : ∀ {c : Pc}, c.Over → c.touching ≠ some m := by
    rintro c (rfl | rfl | rfl | rfl) hc <;> simp [Pc.touching] at hc
  have counted : Counted n x → m = n := by
    intro hc
    cases hc with
    | ahead hc => exact ahead hc hm
    | dec =>
      cases hm
      rfl
    | past hc => rcases hc with rfl | rfl | rfl <;> simp_all [Pc.touching]
  cases st with
  | unborn =>
    rw [h.1] at hm
    cases hm
  | allocated =>
    rw [h] at hm
    cases hm
  | got =>
    obtain ⟨c, hc, -, rfl⟩ := h
    exact ⟨ahead hc hm, .inl rfl⟩
  | main =>
    refine ⟨?_, .inr (.inl rfl)⟩
    rcases h.2 with rfl | hc
    · cases hm
    · exact counted hc
  | putting => exact ⟨counted h.2, .inr (.inr rfl)⟩
  | put => exact absurd hm (ended h.2.1)
  | done => exact absurd hm (ended h.2.1)
  | freed => exact absurd hm (ended h.2.1)

section
variable {s : State} {p q : Party} {f m : Nat} {w : Bool} {st : Stage}

theorem place_owned (hi : s.places.Ok) (h : (s.pc p).owns = some (m, st)) : s.place m = .owned p :=
  (hi.owned p m).1 (by show (s.pc p).owned = some m; rw [Pc.owned, h]; rfl)

theorem stage_owned (hi : s.places.Ok) (h : (s.pc p).owns = some (m, st)) : s.stage m = st := by
  simp [State.stage, place_owned hi h, h]

theorem Inv.stage_refers (hi : Inv s) (h : (s.pc p).refers = some (f, m)) : s.stage m = .main := by
  have hp : s.place m = .listed f := hi.places.refers p f m h
  simp [State.stage, hp]

/-- A party that holds a semaphore owns the mr, refers to it, or is its callback. -/
theorem Inv.holder (hi : Inv s) (h : (s.pc q).sem = some (m, w)) :
    (∃ st, (s.pc q).owns = some (m, st)) ∨ (∃ f, (s.pc q).refers = some (f, m)) ∨
      (q = .callback m ∧ (s.stage m = .got ∨ s.stage m = .main ∨ s.stage m = .putting)) := by
  by_cases hc : (s.pc q).OfCallback
  · cases q with
    | thread t => exact absurd hc (hi.thread t)
    | callback n =>
      have ht : (s.facts n).callback.touching = some m := by
        show (s.pc (.callback n)).touching = some m
        cases hx : s.pc (.callback n) <;> simp_all [Pc.sem, Pc.touching, Pc.OfCallback]
      obtain ⟨rfl, hst⟩ := (hi.good n).touching ht
      exact .inr (.inr ⟨rfl, hst⟩)
  · rcases Pc.has_of_sem h hc with ho | hr
    · exact .inl ho
    · exact .inr (.inl hr)

/-- Nobody holds the semaphore of an mr that a thread owns but has not locked, before it has a page table. -/
theorem Inv.unheld (hi : Inv s) (hp : (s.pc p).owns = some (m, .allocated)) (hs : (s.pc p).sem = none) :
    (s.sem m) = .unlocked := by
  refine hi.locks.unlocked fun q w hq => ?_
  rcases hi.holder hq with ⟨st, ho⟩ | ⟨f, hr⟩ | ⟨-, hst⟩
  · obtain rfl : p = q := by simpa using (place_owned hi.places hp).symm.trans (place_owned hi.places ho)
    have : (s.pc p).sem = some (m, w) := hq
    rw [hs] at this
    cases this
  · have := (hi.stage_refers hr).symm.trans (stage_owned hi.places hp)
    cases this
  · rw [stage_owned hi.places hp] at hst
    simp at hst

/-- Nobody holds the semaphore of an mr that does not exist yet. -/
theorem Inv.unlocked_fresh (hi : Inv s) : s.sem s.fresh = .unlocked := by
  have hb : s.place s.fresh = .unborn := (hi.born s.fresh).2 (Nat.le_refl _)
  have hst : s.stage s.fresh = .unborn := by simp [State.stage, hb]
  refine hi.locks.unlocked fun q w hq => ?_
  rcases hi.holder hq with ⟨st, ho⟩ | ⟨f, hr⟩ | ⟨-, h⟩
  · exact absurd (hb.symm.trans (place_owned hi.places ho)) nofun
  · exact absurd (hst.symm.trans (hi.stage_refers hr)) nofun
  · rw [hst] at h
    simp at h

end

/-! ## What a step does to the locks -/

section
variable {P : Platform} {serial : Bool} {s s' : State} {p : Party}

/-- The callback of an mr whose `get_pages` has not returned is not registered. -/
theorem Inv.callback_idle (hi : Inv s) {m : Nat} (h : (s.pc p).owns = some (m, .allocated)) :
    s.pc (.callback m) = .idle := by
  have hg := hi.good m
  rw [stage_owned hi.places h] at hg
  exact congrArg Facts.callback hg

/-- `gdr_free_mr_unlocked` drops the semaphore, also where `__gdrdrv_pin_buffer` never took it. -/
theorem locks_free {t m : Nat} {held : Bool} {r : Ret} {x : Pc} (hi : Inv s) (h : s.pc (.thread t) = .free m held r)
    (hl : x.lock = r.lock) (hx : x.sem = none) : s.locks.Step ((s.up m (.thread t) true).go (.thread t) x).locks := by
  cases held with
  | true => exact locks_up h rfl hx hl
  | false =>
    have hu : s.sem m = .unlocked := hi.unheld (by rw [h]; rfl) (by rw [h]; rfl)
    exact locks_same (keep Pc.lock h hl) (keep Pc.sem h hx) (fun _ => rfl)
      (Function.update_eq_self_iff.2 (by rw [hu]; rfl))

theorem newHandle_file {file file' : File} {mr : Mr} {handle : Nat} (h : newHandle P file mr = some (handle, file')) :
    file'.lock = file.lock ∧ file'.isOpen = file.isOpen ∧ file'.mr_list = file.mr_list := by
  obtain ⟨r, -, hr⟩ := Option.map_eq_some_iff.1 h
  obtain ⟨-, rfl⟩ := Prod.mk.inj hr
  exact ⟨rfl, rfl, rfl⟩

theorem close_lock (s : State) (f : Nat) (o : Option Party) :
    (fun g => (((s.setLock f o).close f).files g).lock) = Function.update (fun g => (s.files g).lock) f o := by
  have h1 := funext (keep File.lock (x := { (s.setLock f o).files f with isOpen := false }) (i := f)
    (a := (s.setLock f o).files)
    rfl rfl)
  exact h1.trans (Function.comp_update File.lock ..)

theorem step_locks (hi : Inv s) (h : Step P serial s p s') : s.locks.Step s'.locks := by
  cases h with
  | openFile h hf =>
    rename_i t f
    have hl : (s.files f).lock = none := Option.eq_none_iff_forall_ne_some.2 fun q hq => by
      have := hi.file q f (Pc.file_of_lock ((hi.locks.mutex f q).1 hq))
      rw [hf] at this
      cases this
    exact locks_same (fun _ => rfl) (fun _ => rfl) (keep File.lock rfl hl.symm) rfl
  | get h _ | found h _ | notFound h _ | use h _ | putCall h _ | putPersistent h _ | putLate h _ | putDec h | pin h _
  | pinNoMem h | pinGet h _ | pinGetFails h | pinNoHandle h _ | pinDone h | pinUndo h | release h _ _ | relNext h _
  | cbStart h _ | cbTable h _ | cbNone h _ | cbDec h | cbRet h =>
    exact locks_same (keep Pc.lock h rfl) (keep Pc.sem h rfl) (fun _ => rfl) rfl
  -- The steps that take or give back a lock of the file or of an mr.
  | getLock h hf | pinLock h hf | relLock h hf => exact locks_lock h hf rfl rfl rfl
  | getNone h | getUnlock h | unpinUnlock h | pinFail h | pinUnlock h =>
    exact locks_unlock rfl (Function.comp_update File.lock ..) rfl h rfl rfl rfl
  | getDown h hf | unpinDown h hf | pinDown h hf | relDown h hf | cbDown h hf => exact locks_down h hf rfl rfl rfl
  | put h | pinUp h | cbUp h => exact locks_up h rfl rfl rfl
  | unpinDel h | relDel h => exact locks_same (keep Pc.lock h rfl) (keep Pc.sem h rfl) (keep File.lock rfl rfl) rfl
  | freeTable h _ _ | freeNone h _ _ => exact locks_free hi h rfl rfl
  -- These move the callback too.
  | putReturn h hc =>
    exact locks_same (keep_both Pc.lock h rfl hc rfl) (keep_both Pc.sem h rfl hc rfl) (fun _ => rfl) rfl
  | putFails h hc =>
    rcases hc with hc | hc
    · exact locks_same (keep_both Pc.lock h rfl hc rfl) (keep_both Pc.sem h rfl hc rfl) (fun _ => rfl) rfl
    · exact locks_same (keep_both Pc.lock h rfl hc rfl) (keep_both Pc.sem h rfl hc rfl) (fun _ => rfl) rfl
  | kfree h =>
    rename_i t m r
    have hl : r.pc.lock = r.lock := by cases r <;> rfl
    have hs : r.pc.sem = none := by cases r <;> rfl
    exact locks_same (keep Pc.lock h hl) (keep Pc.sem h hs) (fun _ => rfl) rfl
  | pinRefused h _ | pinAlloc h _ =>
    exact locks_same (keep Pc.lock h rfl) (keep Pc.sem h rfl) (fun _ => rfl)
      (Function.update_eq_self_iff.2 hi.unlocked_fresh.symm)
  | pinGot h =>
    have hc := hi.callback_idle (by rw [h]; rfl)
    exact locks_same (keep_both Pc.lock h rfl hc (by split <;> rfl)) (keep_both Pc.sem h rfl hc (by split <;> rfl))
      (fun _ => rfl) rfl
  | pinInc h =>
    exact locks_same (keep Pc.lock h (by split <;> rfl)) (keep Pc.sem h (by split <;> rfl)) (fun _ => rfl) rfl
  | pinAdd h hn =>
    exact locks_same (keep Pc.lock h rfl) (keep Pc.sem h rfl) (keep File.lock rfl (newHandle_file hn).1) rfl
  | relUnlock h _ => exact locks_unlock rfl (close_lock _ _ _) rfl h rfl rfl rfl

/-! ## What a step does to the places -/

/-- Nothing changes of the places. -/
theorem places_same (hp : s'.place = s.place) (hl : ∀ f, (s'.files f).mr_list = (s.files f).mr_list)
    (ho : ∀ q, (s'.pc q).owned = (s.pc q).owned) (hr : ∀ q, (s'.pc q).refers = (s.pc q).refers) :
    s.places.Step s'.places := by
  have : s'.places = s.places := by
    simp only [State.places, Places.View.mk.injEq]
    exact ⟨hp, funext hl, funext ho, funext hr⟩
  rw [this]
  exact .same

theorem places_find {x y : Pc} {f m : Nat} (h : s.pc p = y) (hm : m ∈ (s.files f).mr_list) (ho : x.owned = y.owned)
    (hx : x.refers = some (f, m)) : s.places.Step (s.go p x).places := by
  have : (s.go p x).places = { s.places with refers := Function.update s.places.refers p (some (f, m)) } := by
    simp only [State.places, Places.View.mk.injEq]
    exact ⟨rfl, rfl, funext (keep Pc.owned h ho), (Function.comp_update Pc.refers ..).trans (by rw [hx]; rfl)⟩
  rw [this]
  exact .find hm

theorem places_drop {x y : Pc} {m : Nat} {w : Bool} (h : s.pc p = y) (ho : x.owned = y.owned) (hx : x.refers = none) :
    s.places.Step ((s.up m p w).go p x).places := by
  have : ((s.up m p w).go p x).places = { s.places with refers := Function.update s.places.refers p none } := by
    simp only [State.places, Places.View.mk.injEq]
    exact ⟨rfl, rfl, funext (keep Pc.owned h ho), (Function.comp_update Pc.refers ..).trans (by rw [hx]; rfl)⟩
  rw [this]
  exact .drop

theorem places_alloc {x y : Pc} {mr : Mr} (hi : Inv s) (h : s.pc p = y) (hy : y.owned = none)
    (hx : x.owned = some s.fresh) (hr : x.refers = y.refers) : s.places.Step ((s.alloc p mr).go p x).places := by
  have : ((s.alloc p mr).go p x).places = { s.places with
      place := Function.update s.places.place s.fresh (.owned p)
      owns := Function.update s.places.owns p (some s.fresh) } := by
    simp only [State.places, Places.View.mk.injEq]
    exact ⟨rfl, rfl, (Function.comp_update Pc.owned ..).trans (by rw [hx]; rfl), funext (keep Pc.refers h hr)⟩
  rw [this]
  exact .alloc ((hi.born _).2 (Nat.le_refl _)) (by show (s.pc p).owned = none; rw [h, hy])

/-- `kfree`, on the way out of `gdr_free_mr_unlocked`. -/
theorem places_free {x y : Pc} {m : Nat} {kfrees : Nat → Nat} (h : s.pc p = y) (hy : y.owned = some m)
    (hx : x.owned = none) (hr : x.refers = y.refers) :
    s.places.Step ({ s.setPlace m .freed with kfrees := kfrees }.go p x).places := by
  have : ({ s.setPlace m .freed with kfrees := kfrees }.go p x).places = { s.places with
      place := Function.update s.places.place m .freed, owns := Function.update s.places.owns p none } := by
    simp only [State.places, Places.View.mk.injEq]
    exact ⟨rfl, rfl, (Function.comp_update Pc.owned ..).trans (by rw [hx]; rfl), funext (keep Pc.refers h hr)⟩
  rw [this]
  exact .free (by show (s.pc p).owned = some m; rw [h, hy])

/-- `list_add`, of an mr that may have got a handle. -/
theorem places_link {x y : Pc} {f m : Nat} {mr : Mr} {file : File} (h : s.pc p = y) (hy : y.owned = some m)
    (hx : x.owned = none) (hr : x.refers = some (f, m)) : s.places.Step ({ (s.setMr m mr).setPlace m (.listed f) with
      files := Function.update s.files f { file with mr_list := m :: (s.files f).mr_list } }.go p x).places := by
  have : ({ (s.setMr m mr).setPlace m (.listed f) with
      files := Function.update s.files f { file with mr_list := m :: (s.files f).mr_list } }.go p x).places =
        { s.places with
      place := Function.update s.places.place m (.listed f)
      list := Function.update s.places.list f (m :: s.places.list f)
      owns := Function.update s.places.owns p none, refers := Function.update s.places.refers p (some (f, m)) } := by
    simp only [State.places, Places.View.mk.injEq]
    exact ⟨rfl, Function.comp_update File.mr_list .., (Function.comp_update Pc.owned ..).trans (by rw [hx]; rfl),
      (Function.comp_update Pc.refers ..).trans (by rw [hr]; rfl)⟩
  rw [this]
  exact .link (by show (s.pc p).owned = some m; rw [h, hy])

/-- Who takes an mr off its list holds `info->lock` and the semaphore, so nobody else refers to it. -/
theorem places_unlink {x y : Pc} {f m : Nat} {mr : Mr} (hi : Inv s) (h : s.pc p = y) (hy : y.refers = some (f, m))
    (hl : y.lock = some f) (hs : y.sem = some (m, true)) (ho : y.owned = none) (hx : x.owned = some m)
    (hr : x.refers = none) : s.places.Step ((s.unlink p f m mr).go p x).places := by
  have : ((s.unlink p f m mr).go p x).places = { s.places with
      place := Function.update s.places.place m (.owned p)
      list := Function.update s.places.list f ((s.places.list f).filter (· ≠ m))
      owns := Function.update s.places.owns p (some m), refers := Function.update s.places.refers p none } := by
    simp only [State.places, Places.View.mk.injEq]
    exact ⟨rfl, Function.comp_update File.mr_list .., (Function.comp_update Pc.owned ..).trans (by rw [hx]; rfl),
      (Function.comp_update Pc.refers ..).trans (by rw [hr]; rfl)⟩
  rw [this]
  refine .unlink (by show (s.pc p).refers = _; rw [h, hy]) (by show (s.pc p).owned = none; rw [h, ho]) fun q
    hq hqr => hq ?_
  rcases Pc.held_of_refers hqr with hql | ⟨w, hqs⟩
  · exact hi.locks.mutex_unique hql (by show (s.pc p).lock = some f; rw [h, hl])
  · exact (hi.locks.writer_alone (by show (s.pc p).sem = some (m, true); rw [h, hs]) hqs).symm

theorem findLoop_mem {mrs : Nat → Mr} {handle m : Nat} : ∀ {l : List Nat} {o : Option Nat},
    findLoop mrs handle o l = some m → m ∈ l ∨ o = some m
  | [], o, h => .inr h
  | p :: rest, o, h => by
    rw [findLoop] at h
    split at h
    · rw [Option.some.inj h]
      exact .inl List.mem_cons_self
    · rcases findLoop_mem h with hm | hm
      · exact .inl (List.mem_cons_of_mem _ hm)
      · rw [Option.some.inj hm]
        exact .inl List.mem_cons_self

theorem free_owned (m : Nat) (held : Bool) (r : Ret) : (Pc.free m held r).owned = some m := by cases held <;> rfl

theorem close_list (s : State) (f : Nat) (o : Option Party) (g : Nat) :
    (((s.setLock f o).close f).files g).mr_list = (s.files g).mr_list := by
  have h1 := keep File.mr_list (x := { (s.setLock f o).files f with isOpen := false }) (i := f)
    (a := (s.setLock f o).files)
    rfl rfl g
  exact h1.trans (keep File.mr_list (x := { s.files f with lock := o }) (i := f) (a := s.files) rfl rfl g)

theorem step_places (hi : Inv s) (h : Step P serial s p s') : s.places.Step s'.places := by
  cases h with
  | openFile h hf =>
    exact places_same rfl (keep File.mr_list rfl (hi.closed _ hf).symm) (fun _ => rfl) (fun _ => rfl)
  | get h _ | notFound h _ | getDown h _ | use h _ | unpinDown h _ | putCall h _ | putPersistent h _ | putLate h _
  | putDec h | pin h _ | pinNoMem h | pinDown h _ | pinGet h _ | pinGetFails h | pinNoHandle h _ | pinDone h | pinUndo h
  | release h _ _ | relDown h _ | cbStart h _ | cbDown h _ | cbTable h _ | cbNone h _ | cbDec h | cbUp h | cbRet h =>
    exact places_same rfl (fun _ => rfl) (keep Pc.owned h rfl) (keep Pc.refers h rfl)
  | getLock h _ | getNone h | getUnlock h | unpinUnlock h | pinLock h _ | pinFail h | pinUnlock h | relLock h _ =>
    exact places_same rfl (keep File.mr_list rfl rfl) (keep Pc.owned h rfl) (keep Pc.refers h rfl)
  | found h hm =>
    rcases findLoop_mem hm with hm | hm
    · exact places_find h hm rfl rfl
    · cases hm
  | put h | pinUp h => exact places_drop h rfl rfl
  | unpinDel h | relDel h => exact places_unlink hi h rfl rfl rfl rfl rfl rfl
  | freeTable h _ _ | freeNone h _ _ =>
    exact places_same rfl (fun _ => rfl) (keep Pc.owned h (free_owned _ _ _).symm) (keep Pc.refers h rfl)
  | putReturn h hc =>
    exact places_same rfl (fun _ => rfl) (keep_both Pc.owned h rfl hc rfl) (keep_both Pc.refers h rfl hc rfl)
  | putFails h hc =>
    rcases hc with hc | hc
    · exact places_same rfl (fun _ => rfl) (keep_both Pc.owned h rfl hc rfl) (keep_both Pc.refers h rfl hc rfl)
    · exact places_same rfl (fun _ => rfl) (keep_both Pc.owned h rfl hc rfl) (keep_both Pc.refers h rfl hc rfl)
  | kfree h =>
    rename_i t m r
    exact places_free h rfl (by cases r <;> rfl) (by cases r <;> rfl)
  | pinRefused h _ | pinAlloc h _ => exact places_alloc hi h rfl rfl rfl
  | pinGot h =>
    have hc := hi.callback_idle (by rw [h]; rfl)
    exact places_same rfl (fun _ => rfl) (keep_both Pc.owned h rfl hc (by split <;> rfl))
      (keep_both Pc.refers h rfl hc (by split <;> rfl))
  | pinInc h =>
    exact places_same rfl (fun _ => rfl) (keep Pc.owned h (by split <;> rfl)) (keep Pc.refers h (by split <;> rfl))
  | pinAdd h hn => exact places_link h rfl rfl rfl
  | relNext h hl => exact places_find h (by rw [hl]; exact List.mem_cons_self) rfl rfl
  | relUnlock h _ =>
    exact places_same rfl (close_list s _ _) (keep Pc.owned h rfl) (keep Pc.refers h rfl)

end

end gdrdrv.Threads
