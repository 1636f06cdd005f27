import GdrCopy.Driver.Coalesce
import GdrCopy.Threads.Preserve
/-!
# The records of an mr

Page table, counters and callback of an mr change with the stage it is in. Each step
is one transition of the records of one mr, and leaves those of all others.
-/

namespace gdrdrv.Threads

open Locks (Sem)
open Places (Place)

/-! ## The records of one mr -/

namespace Good
variable {m : Nat} {x : Facts} {st : Stage}

/-- A callback that has been called is past its registration. -/
theorem start (h : Good m x st) (hc : x.callback = .armed) : Good m { x with callback := .cbDown m } st := by
  have ended : ¬ x.callback.Over := by rw [hc]; rintro (h | h | h | h) <;> cases h
  have counted : Counted m x → Counted m { x with callback := .cbDown m } := fun hx => by
    cases hx with
    | ahead _ => exact .ahead (.inr (.inr (.inl rfl)))
    | dec => cases hc
    | past hp => rcases hp with rfl | rfl | rfl <;> cases hc
  cases st with
  | unborn => rw [h.1] at hc; cases hc
  | allocated => rw [h] at hc; cases hc
  | got =>
    obtain ⟨c, -, -, rfl⟩ := h
    exact ⟨_, .inr (.inr (.inl rfl)), nofun, rfl⟩
  | main =>
    refine ⟨h.1, .inr (counted (h.2.resolve_left ?_))⟩
    rintro rfl
    cases hc
  | putting => exact ⟨h.1, counted h.2⟩
  | put => exact absurd h.2.1 ended
  | done => exact absurd h.2.1 ended
  | freed => exact absurd h.2.1 ended

/-- Before its last access a callback finds the mr counted, unless it is still waiting for `__gdrdrv_pin_buffer`. -/
theorem counted (h : Good m x st) (hm : x.callback.touching = some m) (hg : st ≠ .got) :
    (st = .main ∨ st = .putting) ∧ x.kfrees = 0 ∧ Counted m x := by
  obtain ⟨-, rfl | rfl | rfl⟩ := h.touching hm
  · exact absurd rfl hg
  · refine ⟨.inl rfl, h.1, h.2.resolve_left ?_⟩
    rintro rfl
    cases hm
  · exact ⟨.inr rfl, h⟩

theorem of_counted (hst : st = .main ∨ st = .putting) (hk : x.kfrees = 0) (hx : Counted m x) : Good m x st := by
  rcases hst with rfl | rfl
  · exact ⟨hk, .inr hx⟩
  · exact ⟨hk, hx⟩

theorem lock (h : Good m x st) (hc : x.callback = .cbDown m) (hg : st ≠ .got) :
    Good m { x with callback := .cbBody m } st := by
  obtain ⟨hst, hk, hx⟩ := h.counted (by rw [hc]; rfl) hg
  refine of_counted hst hk ?_
  cases hx with
  | ahead _ => exact .ahead (.inr (.inr (.inr rfl)))
  | dec => cases hc
  | past hp => rcases hp with rfl | rfl | rfl <;> cases hc

/-- A callback that holds the semaphore finds the page table. -/
theorem body (h : Good m x st) (hc : x.callback = .cbBody m) :
    x.hasTable = true ∧ Good m { x with callback := .cbDec m, table := .taken } st := by
  have hg : st ≠ .got := by
    rintro rfl
    obtain ⟨c, -, hne, rfl⟩ := h
    exact hne hc
  obtain ⟨hst, hk, hx⟩ := h.counted (by rw [hc]; rfl) hg
  cases hx with
  | ahead _ => exact ⟨rfl, of_counted hst hk .dec⟩
  | dec => cases hc
  | past hp => rcases hp with rfl | rfl | rfl <;> cases hc

theorem dec (h : Good m x st) (hc : x.callback = .cbDec m) :
    Good m { x with callback := .cbUp m, hasTable := false, decs := x.decs + 1 } st := by
  have hg : st ≠ .got := by
    rintro rfl
    obtain ⟨c, hc', -, rfl⟩ := h
    rcases hc' with rfl | rfl | rfl | rfl <;> cases hc
  obtain ⟨hst, hk, hx⟩ := h.counted (by rw [hc]; rfl) hg
  refine of_counted hst hk ?_
  cases hx with
  | ahead ha => rcases ha with rfl | rfl | rfl | rfl <;> cases hc
  | dec => exact .past (.inl rfl)
  | past hp => rcases hp with rfl | rfl | rfl <;> cases hc

theorem up (h : Good m x st) (hc : x.callback = .cbUp m) : Good m { x with callback := .cbRet } st := by
  have hg : st ≠ .got := by
    rintro rfl
    obtain ⟨c, hc', -, rfl⟩ := h
    rcases hc' with rfl | rfl | rfl | rfl <;> cases hc
  obtain ⟨hst, hk, hx⟩ := h.counted (by rw [hc]; rfl) hg
  refine of_counted hst hk ?_
  cases hx with
  | ahead ha => rcases ha with rfl | rfl | rfl | rfl <;> cases hc
  | dec => cases hc
  | past _ => exact .past (.inr (.inl rfl))

theorem ret (h : Good m x st) (hc : x.callback = .cbRet) : Good m { x with callback := .ran } st := by
  have ahead : ¬ x.callback.Ahead m := by rw [hc]; rintro (h | h | h | h) <;> cases h
  have counted : Counted m x → Counted m { x with callback := .ran } := fun hx => by
    cases hx with
    | ahead ha => exact absurd ha ahead
    | dec => cases hc
    | past _ => exact .past (.inr (.inr rfl))
  cases st with
  | unborn => rw [h.1] at hc; cases hc
  | allocated => rw [h] at hc; cases hc
  | got =>
    obtain ⟨c, hc', -, rfl⟩ := h
    exact absurd hc' ahead
  | main =>
    refine ⟨h.1, .inr (counted (h.2.resolve_left ?_))⟩
    rintro rfl
    cases hc
  | putting => exact ⟨h.1, counted h.2⟩
  | put => exact ⟨h.1, .inr (.inr (.inl rfl)), h.2.2⟩
  | done => exact ⟨h.1, .inr (.inr (.inl rfl)), h.2.2⟩
  | freed => exact ⟨h.1, .inr (.inr (.inl rfl)), h.2.2⟩

theorem alloc (h : Good m x .unborn) : Good m { x with hasTable := false } .allocated := by
  obtain ⟨hc, ht, hf, hi, hd, hk⟩ := h
  show (⟨x.callback, false, x.table, x.failed, x.incs, x.decs, x.kfrees⟩ : Facts) = _
  rw [hc, ht, hf, hi, hd, hk]

/-- `get_pages` succeeds, and registers the callback or not. -/
theorem get (h : Good m x .allocated) {c : Pc} (hc : c = .idle ∨ c = .armed) :
    Good m { x with callback := c, table := .held } .got := by
  obtain rfl := h
  exact ⟨c, hc.elim .inl (fun h => .inr (.inl h)), by rcases hc with rfl | rfl <;> nofun, rfl⟩

theorem getFails (h : Good m x .allocated) : Good m x .main := by
  obtain rfl := h
  exact ⟨rfl, .inl rfl⟩

theorem inc (h : Good m x .got) : Good m { x with hasTable := true, incs := x.incs + 1 } .main := by
  obtain ⟨c, hc, -, rfl⟩ := h
  exact ⟨rfl, .inr (.ahead hc)⟩

/-- `gdr_free_mr_unlocked` finds a page table. -/
theorem free (h : Good m x st) (hst : st = .main ∨ st = .allocated) (ht : x.hasTable = true) : Good m x .putting := by
  rcases hst with rfl | rfl
  · refine ⟨h.1, h.2.resolve_left ?_⟩
    rintro rfl
    cases ht
  · obtain rfl := h
    cases ht

/-- `gdr_free_mr_unlocked` finds no page table, and no callback is at work on the mr. -/
theorem freeNone (h : Good m x st) (hst : st = .main ∨ st = .allocated) (ht : x.hasTable = false)
    (hc : x.callback ≠ .cbUp m) :
    Good m x .done := by
  rcases hst with rfl | rfl
  · obtain ⟨hk, rfl | hx⟩ := h
    · exact ⟨hk, .inl rfl, .inl ⟨rfl, rfl, rfl⟩⟩
    · cases hx with
      | ahead _ => cases ht
      | dec => cases ht
      | past hp =>
        refine ⟨hk, ?_, .inr (.inr ⟨.inr rfl, rfl, rfl⟩)⟩
        rcases hp with rfl | rfl | rfl
        · exact absurd rfl hc
        · exact .inr (.inl rfl)
        · exact .inr (.inr (.inl rfl))
  · obtain rfl := h
    exact ⟨rfl, .inl rfl, .inl ⟨rfl, rfl, rfl⟩⟩

/-- Inside `put_pages`, a callback that has not been called has not taken the page table. -/
theorem ahead (h : Good m x .putting) (hc : x.callback = .armed ∨ x.callback = .idle) :
    x.table = .held ∧ x.failed = false ∧ x.incs = 1 ∧ x.decs = 0 := by
  obtain ⟨-, hx⟩ := h
  cases hx with
  | ahead _ => exact ⟨rfl, rfl, rfl, rfl⟩
  | dec => rcases hc with hc | hc <;> cases hc
  | past hp => rcases hp with rfl | rfl | rfl <;> rcases hc with hc | hc <;> cases hc

theorem putReturn (h : Good m x .putting) (hc : x.callback = .armed ∨ x.callback = .idle) {c : Pc} (ho : c.Over) :
    Good m { x with callback := c, table := .returned } .put := by
  obtain ⟨-, hf, hi, hd⟩ := h.ahead hc
  exact ⟨h.1, ho, rfl, hf, hi, hd⟩

theorem putLate (h : Good m x .putting) (hc : x.callback = .ran) : Good m x .done := by
  obtain ⟨hk, hx⟩ := h
  cases hx with
  | ahead ha => rcases ha with rfl | rfl | rfl | rfl <;> cases hc
  | dec => cases hc
  | past _ =>
    obtain rfl := hc
    exact ⟨hk, .inr (.inr (.inl rfl)), .inr (.inr ⟨.inr rfl, rfl, rfl⟩)⟩

theorem putFails (h : Good m x .putting) (hc : x.callback = .armed ∨ x.callback = .idle) :
    Good m { x with callback := .dead, failed := true } .done := by
  obtain ⟨ht, -, hi, hd⟩ := h.ahead hc
  exact ⟨h.1, .inr (.inr (.inr rfl)), .inr (.inl ⟨ht, rfl, hi, hd⟩)⟩

theorem putDec (h : Good m x .put) : Good m { x with decs := x.decs + 1 } .done := by
  obtain ⟨hk, ho, ht, -, hi, hd⟩ := h
  exact ⟨hk, ho, .inr (.inr ⟨.inl ht, hi, by show x.decs + 1 = 1; rw [hd]⟩)⟩

theorem kfrees (h : Good m x st) (hst : st ≠ .freed) : x.kfrees = 0 := by
  cases st with
  | unborn => exact h.2.2.2.2.2
  | allocated => rw [h]
  | got =>
    obtain ⟨c, -, -, rfl⟩ := h
    rfl
  | main => exact h.1
  | putting => exact h.1
  | put => exact h.1
  | done => exact h.1
  | freed => exact absurd rfl hst

theorem kfree (h : Good m x .done) : Good m { x with kfrees := x.kfrees + 1 } .freed := by
  obtain ⟨hk, ho, hb⟩ := h
  exact ⟨by show x.kfrees + 1 = 1; rw [hk], ho, hb⟩

end Good

/-! ## What a step does to the records -/

section
variable {P : Platform} {serial : Bool} {s s' : State} {p : Party} {m : Nat} {st : Stage}

/-- The records stay as they are. -/
theorem good_same (hi : Inv s) (hplace : s'.place = s.place) (ho : ∀ q, (s'.pc q).owns = (s.pc q).owns)
    (hf : ∀ m, s'.facts m = s.facts m) (m : Nat) : Good m (s'.facts m) (s'.stage m) := by
  have hst : s'.stage m = s.stage m := by simp only [State.stage, hplace, ho]
  rw [hf, hst]
  exact hi.good m

/-- The step of a party that owns at most `m0` changes the records of no other mr. -/
theorem good_at (hi : Inv s) (m0 : Nat) (hp : ∀ m, (s.pc p).owned = some m → m = m0)
    (ho : ∀ q, q ≠ p → (s'.pc q).owns = (s.pc q).owns) (hplace : ∀ m, m ≠ m0 → s'.place m = s.place m)
    (hf : ∀ m, m ≠ m0 → s'.facts m = s.facts m) (h0 : Good m0 (s'.facts m0) (s'.stage m0)) (m : Nat) :
    Good m (s'.facts m) (s'.stage m) := by
  by_cases hm : m = m0
  · rw [hm]
    exact h0
  have hst : s'.stage m = s.stage m := by
    simp only [State.stage, hplace m hm]
    cases hpl : s.place m with
    | owned q =>
      have hq : q ≠ p := by
        rintro rfl
        exact hm (hp m ((hi.places.owned q m).2 hpl))
      simp only [ho q hq]
    | _ => rfl
  rw [hf m hm, hst]
  exact hi.good m

theorem Inv.at (hi : Inv s) (h : (s.pc p).owns = some (m, st)) : Good m (s.facts m) st :=
  stage_owned hi.places h ▸ hi.good m

/-- `good_at` for a thread that owns `m0` after the step. -/
theorem good_owner {t m0 : Nat} {x : Pc} (hi : Inv s) (hok : s'.places.Ok) (hpc : s'.pc (.thread t) = x)
    (hx : x.owns = some (m0, st)) (hp : ∀ m, (s.pc (.thread t)).owned = some m → m = m0)
    (ho : ∀ q, q ≠ .thread t → (s'.pc q).owns = (s.pc q).owns) (hplace : ∀ m, m ≠ m0 → s'.place m = s.place m)
    (hf : ∀ m, m ≠ m0 → s'.facts m = s.facts m) (h0 : Good m0 (s'.facts m0) st) : ∀ m, Good m (s'.facts m)
    (s'.stage m) :=
  good_at hi m0 hp ho hplace hf (by rw [stage_owned hok (by rw [hpc, hx])]; exact h0)

/-- `good_owner` for a thread that owned `m0` before, in a step that puts no mr elsewhere. -/
theorem good_move {t m0 : Nat} {x y : Pc} {s1 : State} (hi : Inv s) (hok : (s1.go (.thread t) x).places.Ok)
    (h : s.pc (.thread t) = y) (hy : y.owned = some m0) (hx : x.owns = some (m0, st))
    (ho : ∀ q, (s1.pc q).owns = (s.pc q).owns) (hplace : s1.place = s.place)
    (hf : ∀ m, m ≠ m0 → (s1.go (.thread t) x).facts m = s.facts m) (h0 : Good m0 ((s1.go (.thread t) x).facts m0) st) :
    ∀ m, Good m ((s1.go (.thread t) x).facts m) ((s1.go (.thread t) x).stage m) := by
  refine good_owner hi hok (Function.update_self ..) hx (fun m hm => ?_) (fun q hq => ?_)
    (fun m _ => congrFun hplace m) hf h0
  · rw [h, hy] at hm
    exact (Option.some.inj hm).symm
  · exact (congrArg Pc.owns (Function.update_of_ne hq ..)).trans (ho q)

/-- The handlers other than `__gdrdrv_pin_buffer` leave the page table alone. -/
theorem Use.run_page_table {f : Nat} {mr mr' : Mr} {u : Use} (h : u.run P f mr = some mr') :
    mr'.page_table = mr.page_table := by
  cases u with
  | read =>
    obtain rfl := Option.some.inj h
    rfl
  | req t =>
    obtain rfl := Option.some.inj h
    simp only [reqLocked]
    split_ifs <;> rfl
  | mmap env vma =>
    obtain ⟨⟨ret, mr'', vma'⟩, hr, rfl⟩ := Option.map_eq_some_iff.1 h
    cases hm : mmapLocked P env f mr vma with
    | error e =>
      rw [hm] at hr
      cases hr
    | ok r =>
      rw [hm] at hr
      obtain rfl := Option.some.inj hr
      rcases mmapLocked_cases P hm with ⟨-, rfl⟩ | ⟨-, -, -, -, -, -, rfl, -⟩ <;> rfl
  | close =>
    obtain rfl := Option.some.inj h
    rfl

theorem unmapped_page_table (mr : Mr) : (unmapped mr).page_table = mr.page_table := by
  unfold unmapped
  split <;> rfl

/-- The records of every mr, when the new memory of one keeps its page table. -/
theorem facts_setMr {m0 : Nat} {mr : Mr} (h : mr.page_table = (s.mrs m0).page_table) (m : Nat) :
    (s.setMr m0 mr).facts m = s.facts m := by
  have := keep (fun mr : Mr => mr.page_table.isSome) (a := s.mrs) (i := m0) (x := mr) rfl (by rw [h]) m
  show (⟨_, (Function.update s.mrs m0 mr m).page_table.isSome, _, _, _, _, _⟩ : Facts) = s.facts m
  rw [this]
  rfl

/-- The mr of a callback at work is its own. -/
theorem Inv.callback_own {n : Nat} (hi : Inv s) (h : (s.pc (.callback m)).touching = some n) : n = m :=
  ((hi.good m).touching h).1

/-- A callback only changes the records of its own mr. -/
theorem good_callback {x y : Pc} (hi : Inv s) (h : s.pc (.callback m) = y) (hy : y.owns = none)
    (hpc : s'.pc = Function.update s.pc (.callback m) x) (hx : x.owns = none) (hplace : s'.place = s.place)
    (hf : ∀ n, n ≠ m → s'.facts n = s.facts n) (h0 : Good m (s'.facts m) (s.stage m)) :
    ∀ n, Good n (s'.facts n) (s'.stage n) := by
  have ho : ∀ q, (s'.pc q).owns = (s.pc q).owns := hpc ▸ keep Pc.owns h (hx.trans hy.symm)
  have hst : s'.stage = s.stage := funext fun n => by simp only [State.stage, hplace, ho]
  refine good_at (p := .callback m) hi m (fun n hn => ?_) (fun q _ => ho q) (fun _ _ => by rw [hplace]) hf
    (by rw [hst]; exact h0)
  rw [h, Pc.owned, hy] at hn
  cases hn

/-- Taking an mr off its list is no event for its records. -/
theorem good_unlink {t f : Nat} {x y : Pc} {mr : Mr} (hi : Inv s)
    (hok : ((s.unlink (.thread t) f m mr).go (.thread t) x).places.Ok) (h : s.pc (.thread t) = y)
    (hy : y.refers = some (f, m)) (hn : y.owns = none) (hx : x.owns = some (m, .main))
    (hpt : mr.page_table = (s.mrs m).page_table) :
    ∀ n, Good n (((s.unlink (.thread t) f m mr).go (.thread t) x).facts n)
    (((s.unlink (.thread t) f m mr).go (.thread t) x).stage n) := by
  refine good_owner hi hok (Function.update_self ..) hx (fun n hn' => ?_)
    (fun q hq => congrArg Pc.owns (Function.update_of_ne hq ..))
    (fun n hn => Function.update_of_ne hn ..) (fun n _ => facts_setMr hpt n) ?_
  · rw [h, Pc.owned, hn] at hn'
    cases hn'
  · have hg := hi.good m
    rw [hi.stage_refers (by rw [h, hy])] at hg
    exact (facts_setMr hpt m).symm ▸ hg

/-- What `gdr_free_mr_unlocked` finds. -/
theorem Inv.at_free {t : Nat} {held : Bool} {r : Ret} (hi : Inv s) (h : s.pc (.thread t) = .free m held r) :
    ∃ st, (st = .main ∨ st = .allocated) ∧ Good m (s.facts m) st := by
  cases held with
  | true => exact ⟨.main, .inl rfl, hi.at (by rw [h]; rfl)⟩
  | false => exact ⟨.allocated, .inr rfl, hi.at (by rw [h]; rfl)⟩

/-- While a thread is in `gdr_free_mr_unlocked` with the semaphore, no callback is at work on the mr. -/
theorem Inv.callback_out {t : Nat} {held : Bool} {r : Ret} (hi : Inv s) (h : s.pc (.thread t) = .free m held r) :
    s.pc (.callback m) ≠ .cbUp m := by
  intro hc
  cases held with
  | true =>
    have := hi.locks.writer_alone (m := m) (p := .thread t) (q := .callback m) (w := true)
      (by show (s.pc _).sem = _; rw [h]; rfl)
      (by show (s.pc _).sem = _; rw [hc]; rfl)
    cases this
  | false =>
    have := hi.callback_idle (p := .thread t) (m := m) (by rw [h]; rfl)
    rw [hc] at this
    cases this

theorem tableSet_page_table (mr : Mr) (pt : PageTable) : (tableSet P mr pt).1.page_table = some pt := by
  unfold tableSet
  split <;> rfl

/-- A new mr starts without records. -/
theorem good_alloc {t : Nat} {x y : Pc} {mr : Mr} (hi : Inv s)
    (hok : ((s.alloc (.thread t) mr).go (.thread t) x).places.Ok) (h : s.pc (.thread t) = y)
    (hn : y.owns = none) (hx : x.owns = some (s.fresh, .allocated)) (hpt : mr.page_table = none) :
    ∀ n, Good n (((s.alloc (.thread t) mr).go (.thread t) x).facts n)
    (((s.alloc (.thread t) mr).go (.thread t) x).stage n) := by
  refine good_owner hi hok (Function.update_self ..) hx (fun n hn' => ?_)
    (fun q hq => congrArg Pc.owns (Function.update_of_ne hq ..))
    (fun n hn => Function.update_of_ne hn ..) (fun n hn => ?_) ?_
  · rw [h, Pc.owned, hn] at hn'
    cases hn'
  · simp [State.facts, State.go, State.alloc, State.setMr, State.setPlace, hn]
  · have hg := hi.good s.fresh
    have hst : s.stage s.fresh = .unborn := by simp [State.stage, (hi.born s.fresh).2 (Nat.le_refl _)]
    rw [hst] at hg
    simpa [State.facts, State.go, State.alloc, State.setMr, State.setPlace, hpt] using hg.alloc

/-- Until `__gdrdrv_pin_buffer` has counted the page table it keeps the semaphore. -/
theorem Inv.not_got (hi : Inv s) (hf : (s.sem m).Free true) : s.stage m ≠ .got := by
  intro hg
  cases hpl : s.place m with
  | owned q =>
    have hs : (s.pc q).sem = some (m, true) := by
      have ho : (s.pc q).owned = some m := (hi.places.owned q m).2 hpl
      simp only [State.stage, hpl] at hg
      cases hq : s.pc q with
      | free n held r => cases held <;> simp_all [Pc.owns, Pc.owned]
      | _ => simp_all [Pc.owns, Pc.owned, Pc.sem]
    exact hf q (.inl ((hi.locks.writer m q).2 hs))
  | _ => simp [State.stage, hpl] at hg

theorem step_good (hi : Inv s) (h : Step P serial s p s') : ∀ m, Good m (s'.facts m) (s'.stage m) := by
  have hok : s'.places.Ok := hi.places.step (step_places hi h)
  -- what most steps of a thread leave alone
  have others {pc : Party → Pc} {t : Nat} {x : Pc} : ∀ q, q ≠ Party.thread t →
      (Function.update pc (Party.thread t) x q).owns = (pc q).owns :=
        fun q hq => congrArg Pc.owns (Function.update_of_ne hq ..)
  have own {t m : Nat} {x : Pc} (h : s.pc (.thread t) = x) (hx : x.owned = some m) :
      ∀ n, (s.pc (.thread t)).owned = some n → n = m := fun n hn => by
    rw [h, hx] at hn
    exact (Option.some.inj hn).symm
  cases h with
  | openFile h _ => exact good_same hi rfl (fun _ => rfl) (fun _ => rfl)
  | get h _ | getLock h _ | found h _ | notFound h _ | getNone h | getDown h _ | getUnlock h | put h | unpinDown h _
  | unpinUnlock h | putCall h _ | pin h _ | pinNoMem h | pinDown h _ | pinGet h _ | pinLock h _ | pinNoHandle h _
  | pinFail h | pinUp h | pinUnlock h | pinDone h | pinUndo h | release h _ _ | relLock h _ | relNext h _ | relDown h _
  | relUnlock h _ =>
    exact good_same hi rfl (keep Pc.owns h rfl) (fun _ => rfl)
  | use h hu => exact good_same hi rfl (keep Pc.owns h rfl) (facts_setMr (Use.run_page_table hu))
  -- The mr leaves its list with its page table.
  | unpinDel h | relDel h => exact good_unlink hi hok h rfl rfl rfl (unmapped_page_table _)
  | freeTable h _ ht =>
    rename_i t m held r
    obtain ⟨st, hst, hg⟩ := hi.at_free h
    exact good_move hi hok h (free_owned ..) rfl (fun _ => rfl) rfl (fun _ _ => rfl)
      (hg.free hst (Option.isSome_iff_ne_none.2 ht))
  | freeNone h _ ht =>
    rename_i t m held r
    obtain ⟨st, hst, hg⟩ := hi.at_free h
    exact good_move hi hok h (free_owned ..) rfl (fun _ => rfl) rfl (fun _ _ => rfl)
      (hg.freeNone hst (by show Option.isSome _ = false; rw [ht]; rfl) (hi.callback_out h))
  -- A `put_pages` that succeeds takes the registration of the callback with it.
  | putReturn h hc =>
    rename_i t m r
    refine good_move hi hok h rfl rfl (keep Pc.owns hc (x := .dead) rfl) rfl (fun n hn => ?_) ?_
    · simp [State.facts, State.go, State.setTable, State.setNv, hn]
    · have hg : Good m (s.facts m) .putting := hi.at (by rw [h]; rfl)
      have := hg.putReturn (.inl hc) (c := .dead) (.inr (.inr (.inr rfl)))
      simpa [State.facts, State.go, State.setTable, State.setNv] using this
  | putPersistent h hc =>
    rename_i t m r
    refine good_move hi hok h rfl rfl (fun _ => rfl) rfl (fun n hn => ?_) ?_
    · simp [State.facts, State.go, State.setTable, State.setNv, hn]
    · have hg : Good m (s.facts m) .putting := hi.at (by rw [h]; rfl)
      have := hg.putReturn (.inr hc) (c := .idle) (.inl rfl)
      simpa [State.facts, State.go, State.setTable, State.setNv, hc] using this
  | putLate h hc =>
    have hg := hi.at (p := .thread _) (by rw [h]; rfl)
    exact good_move hi hok h rfl rfl (fun _ => rfl) rfl (fun _ _ => rfl) (hg.putLate hc)
  | putFails h hc =>
    rename_i t m r
    have hown : (s.pc (.callback m)).owns = none := by rcases hc with hc | hc <;> rw [hc] <;> rfl
    refine good_move hi hok h rfl rfl (keep Pc.owns rfl (x := .dead) hown.symm) rfl (fun n hn => ?_) ?_
    · simp [State.facts, State.go, State.setNv, hn]
    · have hg : Good m (s.facts m) .putting := hi.at (by rw [h]; rfl)
      simpa [State.facts, State.go, State.setNv] using hg.putFails hc
  | putDec h =>
    rename_i t m r
    refine good_move hi hok h rfl rfl (fun _ => rfl) rfl (fun n hn => ?_) ?_
    · simp [State.facts, State.go, State.dec, hn]
    · have hg : Good m (s.facts m) .put := hi.at (by rw [h]; rfl)
      simpa [State.facts, State.go, State.dec] using hg.putDec
  | kfree h =>
    rename_i t m r
    refine good_at hi m (own h rfl) others (fun n hn => Function.update_of_ne hn ..) (fun n hn => ?_) ?_
    · simp [State.facts, State.go, State.setPlace, hn]
    · have hg : Good m (s.facts m) .done := hi.at (by rw [h]; rfl)
      simpa [State.facts, State.stage, State.go, State.setPlace] using hg.kfree
  | pinRefused h _ | pinAlloc h _ => exact good_alloc hi hok h rfl rfl rfl
  | pinGot h =>
    rename_i t f m pt
    have hc := hi.callback_idle (p := .thread t) (m := m) (by rw [h]; rfl)
    refine good_move hi hok h rfl rfl (keep Pc.owns hc (by split <;> rfl)) rfl (fun n hn => ?_) ?_
    · simp [State.facts, State.go, State.setTable, State.setNv, hn]
    · have hg : Good m (s.facts m) .allocated := hi.at (by rw [h]; rfl)
      have hp : (if P.gdr_use_persistent_mapping then Pc.idle else .armed) = .idle ∨
          (if P.gdr_use_persistent_mapping then Pc.idle else .armed) = .armed := by split <;> simp
      simpa [State.facts, State.go, State.setTable, State.setNv] using hg.get hp
  | pinGetFails h =>
    have hg := hi.at (p := .thread _) (by rw [h]; rfl)
    exact good_move hi hok h rfl rfl (fun _ => rfl) rfl (fun _ _ => rfl) hg.getFails
  | pinInc h =>
    rename_i t f m pt
    have hx : ∀ b : Bool, (if b then Pc.pinLock f m else .free m true (.ioctl f)).owns = some (m, .main) := by
      intro b
      cases b <;> rfl
    refine good_move hi hok h rfl (hx _) (fun _ => rfl) rfl (fun n hn => ?_) ?_
    · simp [State.facts, State.go, State.inc, State.setMr, hn]
    · have hg : Good m (s.facts m) .got := hi.at (by rw [h]; rfl)
      simpa [State.facts, State.go, State.inc, State.setMr, tableSet_page_table] using hg.inc
  | pinAdd h hn =>
    rename_i t f m handle file
    have hmr : ∀ n, (s.setMr m { s.mrs m with handle := handle }).facts n = s.facts n := facts_setMr rfl
    refine good_at hi m (own h rfl) others (fun n hn => Function.update_of_ne hn ..) (fun n _ => hmr n) ?_
    have hg : Good m (s.facts m) .main := hi.at (by rw [h]; rfl)
    have hst : ({ (s.setMr m { s.mrs m with handle := handle }).setPlace m (.listed f) with
        files := Function.update s.files f { file with mr_list := m :: (s.files f).mr_list } }.go (.thread t)
          (.pinUp f m handle)).stage m = .main := by
      simp [State.stage, State.go, State.setPlace]
    rw [hst]
    exact (hmr m).symm ▸ hg
  | cbStart h _ =>
    refine good_callback hi h rfl rfl rfl rfl (fun n hn => ?_) ?_
    · simp [State.facts, State.go, State.takeNv, State.setNv, hn]
    · simpa [State.facts, State.go, State.takeNv, State.setNv] using (hi.good _).start h
  | cbDown h hf =>
    rename_i m n
    obtain rfl := hi.callback_own (m := m) (n := n) (by rw [h]; rfl)
    refine good_callback hi h rfl rfl rfl rfl (fun n hn => ?_) ?_
    · simp [State.facts, State.go, State.down, hn]
    · simpa [State.facts, State.go, State.down] using (hi.good _).lock h (hi.not_got hf)
  | cbTable h ht =>
    rename_i m n
    obtain rfl := hi.callback_own (m := m) (n := n) (by rw [h]; rfl)
    refine good_callback hi h rfl rfl rfl rfl (fun n hn => ?_) ?_
    · simp [State.facts, State.go, State.setMr, State.setTable, hn]
    · simpa [State.facts, State.go, State.setMr, State.setTable] using ((hi.good _).body h).2
  -- A callback that got the semaphore finds the page table, so this step is not taken.
  | cbNone h ht =>
    rename_i m n
    obtain rfl := hi.callback_own (m := m) (n := n) (by rw [h]; rfl)
    have hs : (s.mrs n).page_table.isSome = true := ((hi.good n).body h).1
    rw [ht] at hs
    cases hs
  | cbDec h =>
    rename_i m n
    obtain rfl := hi.callback_own (m := m) (n := n) (by rw [h]; rfl)
    refine good_callback hi h rfl rfl rfl rfl (fun n hn => ?_) ?_
    · simp [State.facts, State.go, State.dec, State.setMr, hn]
    · simpa [State.facts, State.go, State.dec, State.setMr] using (hi.good _).dec h
  | cbUp h =>
    rename_i m n
    obtain rfl := hi.callback_own (m := m) (n := n) (by rw [h]; rfl)
    refine good_callback hi h rfl rfl rfl rfl (fun n hn => ?_) ?_
    · simp [State.facts, State.go, State.up, hn]
    · simpa [State.facts, State.go, State.up] using (hi.good _).up h
  | cbRet h =>
    refine good_callback hi h rfl rfl rfl rfl (fun n hn => ?_) ?_
    · simp [State.facts, State.go, State.setNv, hn]
    · simpa [State.facts, State.go, State.setNv] using (hi.good _).ret h

end

end gdrdrv.Threads
