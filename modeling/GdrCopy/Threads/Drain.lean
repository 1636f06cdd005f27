import GdrCopy.Threads.Deadlock
import GdrCopy.Threads.Discipline
import GdrCopy.Threads.Races
import Mathlib.Algebra.BigOperators.Group.Finset.Basic
import Mathlib.Algebra.BigOperators.Group.Finset.Piecewise
/-!
# Operations come to an end

Where a party stands bounds how many steps its operation has left (`Pc.work`), if a pin
also pays for the callback it registers and for the release of the mr it lists. Every step
but the start of a new operation lowers the sum over all parties (`Step.work_lt`). Since
nobody waits in a circle, somebody can go on for as long as a party is in the driver, or
a handler has stopped the kernel (`operations_end`).
-/

namespace gdrdrv.Threads

open Places (Place)

/-! ## What is left to do -/

/-- What is left once `gdr_free_mr_unlocked` has returned. -/
def Ret.work : Ret → Nat
  | .ioctl _ => 0
  | .release _ => 3

/-- What is left to do for a party at this place. -/
def Pc.work : Pc → Nat
  | .idle => 0
  | .getLock _ _ _ => 10
  | .getFind _ _ _ => 9
  | .getDown _ _ _ => 8
  | .getNone _ => 1
  | .getUnlock _ _ _ => 3
  | .use _ _ _ => 2
  | .put _ _ _ => 1
  | .unpinDel _ _ => 7
  | .unpinUnlock _ _ => 6
  | .free _ _ r => r.work + 5
  | .putCall _ r => r.work + 4
  | .putIn _ r => r.work + 3
  | .putDone _ r => r.work + 2
  | .kfree _ r => r.work + 1
  | .pin _ _ => 34
  | .pinDown _ _ => 33
  | .pinGet _ _ => 32
  -- with the callback that will be registered
  | .pinGetIn _ _ => 31
  | .pinInc _ _ _ => 24
  | .pinLock _ _ => 23
  -- with the release of the mr that will be on the list
  | .pinAdd _ _ => 22
  | .pinFail _ _ => 6
  | .pinUp _ _ _ => 13
  | .pinUnlock _ _ => 12
  | .pinCopy _ _ => 11
  | .relLock _ => 4
  | .relNext _ => 3
  | .relDown _ _ => 2
  | .relDel _ _ => 1
  | .armed => 6
  | .cbDown _ => 5
  | .cbBody _ => 4
  | .cbDec _ => 3
  | .cbUp _ => 2
  | .cbRet => 1
  | .ran => 0
  | .dead => 0

/-- A listed mr is a turn of the loop of `gdrdrv_release`. -/
def placeWork : Place Party Nat → Nat
  | .listed _ => 8
  | _ => 0

/-- What is left to do for the first `n` threads, all callbacks and all lists. -/
def State.work (s : State) (n : Nat) : Nat :=
  ∑ t ∈ Finset.range n, (s.pc (.thread t)).work + ∑ m ∈ Finset.range s.fresh, (s.pc (.callback m)).work +
    ∑ m ∈ Finset.range s.fresh, placeWork (s.place m)

/-- The party is among those that `State.work` counts. -/
def State.Counts (s : State) (n : Nat) : Party → Prop
  | .thread t => t < n
  | .callback m => m < s.fresh

section
variable {P : Platform} {serial : Bool} {s s' w : State} {p q : Party} {x y : Pc} {t m n : Nat}

/-! ## The sum -/

theorem sum_replace {β : Type} (g : β → Nat) (f : Nat → β) (v : β) (hm : m < n) :
    ∑ k ∈ Finset.range n, g (Function.update f m v k) + g (f m) = ∑ k ∈ Finset.range n, g (f k) + g v := by
  have hmem : m ∈ Finset.range n := Finset.mem_range.2 hm
  have hupdate : ∀ k, g (Function.update f m v k) = Function.update (fun k => g (f k)) m (g v) k := by
    intro k
    simp only [Function.update_apply]
    split <;> rfl
  simp only [hupdate]
  rw [Finset.sum_update_of_mem hmem, ← Finset.add_sum_erase _ (fun k => g (f k)) hmem, Finset.sdiff_singleton_eq_erase]
  omega

theorem threads_go (pc : Party → Pc) (t : Nat) (x : Pc) :
    (fun u => Function.update pc (.thread t) x (.thread u)) = Function.update (fun u => pc (.thread u)) t x :=
  Function.update_comp_eq_of_injective pc (fun _ _ h => Party.thread.inj h) t x

theorem callbacks_go (pc : Party → Pc) (m : Nat) (x : Pc) :
    (fun k => Function.update pc (.callback m) x (.callback k)) = Function.update (fun k => pc (.callback k)) m x :=
  Function.update_comp_eq_of_injective pc (fun _ _ h => Party.callback.inj h) m x

theorem go_other (h : q ≠ p) : (s.go p x).pc q = s.pc q := Function.update_of_ne h ..

/-- A party that moves takes its part of the sum along. -/
theorem work_go (hp : s.Counts n p) : (s.go p x).work n + (s.pc p).work = s.work n + x.work := by
  cases p with
  | thread t =>
    have hsum := sum_replace Pc.work (fun u => s.pc (.thread u)) x (m := t) (n := n) hp
    have hthreads : ∀ u, (s.go (.thread t) x).pc (.thread u) = Function.update (fun u => s.pc (.thread u)) t x u :=
      congrFun (threads_go s.pc t x)
    have hcallbacks : ∀ k, (s.go (.thread t) x).pc (.callback k) = s.pc (.callback k) := fun k => go_other nofun
    have hfresh : (s.go (.thread t) x).fresh = s.fresh := rfl
    have hplace : (s.go (.thread t) x).place = s.place := rfl
    simp only [State.work, hthreads, hcallbacks, hfresh, hplace]
    omega
  | callback m =>
    have hsum := sum_replace Pc.work (fun k => s.pc (.callback k)) x (m := m) (n := s.fresh) hp
    have hthreads : ∀ u, (s.go (.callback m) x).pc (.thread u) = s.pc (.thread u) := fun u => go_other nofun
    have hcallbacks : ∀ k, (s.go (.callback m) x).pc (.callback k) =
        Function.update (fun k => s.pc (.callback k)) m x k :=
      congrFun (callbacks_go s.pc m x)
    have hfresh : (s.go (.callback m) x).fresh = s.fresh := rfl
    have hplace : (s.go (.callback m) x).place = s.place := rfl
    simp only [State.work, hthreads, hcallbacks, hfresh, hplace]
    omega

theorem work_setPlace {l : Place Party Nat} (hm : m < s.fresh) :
    (s.setPlace m l).work n + placeWork (s.place m) = s.work n + placeWork l := by
  have hsum := sum_replace placeWork s.place l (m := m) (n := s.fresh) hm
  have hpc : (s.setPlace m l).pc = s.pc := rfl
  have hfresh : (s.setPlace m l).fresh = s.fresh := rfl
  have hplace : ∀ k, (s.setPlace m l).place k = Function.update s.place m l k := fun _ => rfl
  simp only [State.work, hpc, hfresh, hplace]
  omega

/-- A new mr has no callback and is on no list. -/
theorem work_alloc {mr : Mr} (hi : Inv s) : (s.alloc p mr).work n = s.work n := by
  have hg := hi.good s.fresh
  have hst : s.stage s.fresh = .unborn := by simp [State.stage, (hi.born s.fresh).2 (Nat.le_refl _)]
  rw [hst] at hg
  have hc : s.pc (.callback s.fresh) = .idle := hg.1
  have hplaces : ∑ k ∈ Finset.range s.fresh, placeWork ((s.alloc p mr).place k) = ∑ k ∈ Finset.range s.fresh,
      placeWork (s.place k) := by
    refine Finset.sum_congr rfl fun k hk => ?_
    have hne : k ≠ s.fresh := Nat.ne_of_lt (Finset.mem_range.1 hk)
    exact congrArg placeWork (Function.update_of_ne hne ..)
  have hself : (s.alloc p mr).place s.fresh = .owned p := Function.update_self ..
  have hpc : (s.alloc p mr).pc = s.pc := rfl
  have hfresh : (s.alloc p mr).fresh = s.fresh + 1 := rfl
  simp only [State.work, hpc, hfresh, Finset.sum_range_succ, hplaces, hself, hc]
  rfl

/-- A party moves to a place with less to do, where what it does besides adds `b` and takes away `a`. -/
theorem work_lt_go {a b : Nat} (hp : w.Counts n p) (h : w.pc p = y) (hw : w.work n + a ≤ s.work n + b)
    (hlt : x.work + b < y.work + a) : (w.go p x).work n < s.work n := by
  have hgo := work_go (x := x) hp
  rw [h] at hgo
  omega

/-! ## Every step lowers it -/

/-- The threads from number `n` on are in no operation. -/
def State.Within (s : State) (n : Nat) : Prop := ∀ t, n ≤ t → s.pc (.thread t) = .idle

/-- A party that is in an operation is counted. -/
theorem Inv.counts (hi : Inv s) (hn : s.Within n) (hp : s.pc p ≠ .idle) : s.Counts n p := by
  cases p with
  | thread t => exact Nat.lt_of_not_le fun hle => hp (hn t hle)
  | callback m =>
    refine Nat.lt_of_not_le fun hle => hp ?_
    have hg := hi.good m
    have hst : s.stage m = .unborn := by simp [State.stage, (hi.born m).2 hle]
    rw [hst] at hg
    exact hg.1

theorem Inv.born_lt (hi : Inv s) (h : s.place m ≠ .unborn) : m < s.fresh :=
  Nat.lt_of_not_le fun hle => h ((hi.born m).2 hle)

theorem Step.work_lt (hi : Inv s) (hn : s.Within n) (h : Step P serial s p s') (hp : s.pc p ≠ .idle) :
    s'.work n < s.work n := by
  have hc : s.Counts n p := hi.counts hn hp
  cases h with
  | openFile h _ | get h _ | pin h _ | release h _ _ => exact absurd h hp
  | @kfree t m r h =>
    have hplace : s.place m = .owned (.thread t) := place_owned hi.places (by rw [h]; rfl)
    have hset := work_setPlace (n := n) (l := .freed) (hi.born_lt (m := m) (by simp [hplace]))
    rw [hplace] at hset
    refine work_lt_go (s := s)
      (w := { s.setPlace m .freed with kfrees := Function.update s.kfrees m (s.kfrees m + 1) }) (a := 0) (b := 0)
      hc h (Nat.le_of_eq hset) ?_
    cases r <;> simp [Ret.pc, Pc.work, Ret.work]
  | @unpinDel t f m h | @relDel t f m h =>
    have hplace : s.place m = .listed f := hi.places.refers _ f m (by show (s.pc _).refers = _; rw [h]; rfl)
    have hset := work_setPlace (n := n) (l := .owned (.thread t)) (hi.born_lt (m := m) (by simp [hplace]))
    rw [hplace] at hset
    exact work_lt_go (s := s) (w := s.unlink (.thread t) f m (unmapped (s.mrs m))) (a := 8) (b := 0) hc h
      (Nat.le_of_eq hset)
      (by simp [Pc.work, Ret.work])
  | @putReturn t m r h hcb =>
    have hcount : s.Counts n (.callback m) := hi.counts hn (by simp [hcb])
    have hgo := work_go (x := .dead) hcount
    rw [hcb] at hgo
    have hpc : (((s.setNv none).setTable m .returned).go (.callback m) .dead).pc (.thread t) = .putIn m r :=
      (go_other (q := .thread t) (p := .callback m) (by simp)).trans h
    exact work_lt_go (s := s) (a := 6) (b := 0) hc hpc (Nat.le_of_eq hgo) (by simp [Pc.work])
  | @putFails t m r h hcb =>
    have hlt : m < s.fresh := hi.born_lt (hi.owned_born (p := .thread t) (by rw [h]; rfl))
    have hgo := work_go (n := n) (p := .callback m) (x := .dead) hlt
    have hpc : (({ s.setNv none with failed := Function.update s.failed m true } : State).go (.callback m)
        .dead).pc (.thread t) =
        .putIn m r := (go_other (q := .thread t) (p := .callback m) (by simp)).trans h
    refine work_lt_go (s := s) (a := 0) (b := 0) hc hpc ?_ (by simp [Pc.work])
    exact Nat.le_trans (Nat.le_add_right _ _) (Nat.le_of_eq hgo)
  | @pinRefused t f q ret h ha =>
    exact work_lt_go (w := s.alloc (.thread t) (newMr s.fresh q.addr q.size 0 0 false)) (a := 0) (b := 0) hc h
      (Nat.le_of_eq (work_alloc hi)) (by simp [Pc.work, Ret.work])
  | @pinAlloc t f q a h ha =>
    exact work_lt_go (w := s.alloc (.thread t) (newMr s.fresh q.addr q.size a.1 a.2.1 a.2.2)) (a := 0) (b := 0) hc h
      (Nat.le_of_eq (work_alloc hi)) (by simp [Pc.work])
  | @pinGot t f m pt h =>
    have hlt : m < s.fresh := hi.born_lt (hi.owned_born (p := .thread t) (by rw [h]; rfl))
    have hidle : s.pc (.callback m) = .idle := hi.callback_idle (p := .thread t) (by rw [h]; rfl)
    have hgo := work_go (n := n) (p := .callback m) (x := if P.gdr_use_persistent_mapping then .idle else .armed) hlt
    rw [hidle] at hgo
    have hx : (if P.gdr_use_persistent_mapping then Pc.idle else .armed).work ≤ 6 := by split <;> simp [Pc.work]
    have hpc : (((s.setNv none).setTable m .held).go (.callback m) (if P.gdr_use_persistent_mapping then .idle
        else .armed)).pc
        (.thread t) = .pinGetIn f m := (go_other (q := .thread t) (p := .callback m) (by simp)).trans h
    refine work_lt_go (s := s) (a := 0) (b := 6) hc hpc ?_ (by simp [Pc.work])
    exact Nat.le_trans (Nat.le_of_eq hgo) (Nat.add_le_add_left hx _)
  | @pinInc t f m pt h =>
    refine work_lt_go (s := s) (w := (s.inc m).setMr m (tableSet P (s.mrs m) pt).1) (a := 0) (b := 0) hc h
      (Nat.le_refl _) ?_
    split <;> simp [Pc.work, Ret.work]
  | @pinAdd t f m handle file h hnew =>
    have hplace : s.place m = .owned (.thread t) := place_owned hi.places (by rw [h]; rfl)
    have hset := work_setPlace (n := n) (l := .listed f) (hi.born_lt (m := m) (by simp [hplace]))
    rw [hplace] at hset
    exact work_lt_go (s := s) (w := { (s.setMr m { s.mrs m with handle := handle }).setPlace m (.listed f) with
      files := Function.update s.files f { file with mr_list := m :: (s.files f).mr_list } }) (a := 0) (b := 8) hc h
      (Nat.le_of_eq hset) (by simp [Pc.work])
  | _ => exact work_lt_go (a := 0) (b := 0) hc (by assumption) (Nat.le_refl _) (by simp [Pc.work, Ret.work])

/-- A step moves no thread but the one that makes it. -/
theorem Step.pc_thread {u : Nat} (h : Step P serial s p s') (hne : p ≠ .thread u) :
    s'.pc (.thread u) = s.pc (.thread u) := by
  have hcb (m : Nat) : Party.thread u ≠ .callback m := nofun
  cases h with
  | openFile _ _ => rfl
  | @putReturn _ m _ _ _ | @putFails _ m _ _ _ | @pinGot _ _ m _ _ =>
    exact (go_other hne.symm).trans (go_other (hcb m))
  | _ => exact go_other hne.symm

theorem Step.within (hn : s.Within n) (h : Step P serial s p s') (hp : s.pc p ≠ .idle) : s'.Within n := by
  intro u hu
  have hidle : s.pc (.thread u) = .idle := hn u hu
  refine (h.pc_thread ?_).trans hidle
  rintro rfl
  exact hp hidle

/-- After any run all but finitely many threads are in no operation. -/
theorem run_within {os : List Party} (h : Run P serial s os) : ∃ n, s.Within n := by
  induction h with
  | start hl => exact ⟨0, fun t _ => hl.1 (.thread t)⟩
  | @next s s' p _ _ ht ih =>
    obtain ⟨n, hn⟩ := ih
    cases p with
    | thread t =>
      refine ⟨max n (t + 1), fun u hu => ?_⟩
      have hne : Party.thread t ≠ .thread u := by
        intro he
        have := Party.thread.inj he
        omega
      exact (ht.pc_thread hne).trans (hn u (by omega))
    | callback m =>
      have hne (u : Nat) : Party.callback m ≠ .thread u := nofun
      exact ⟨n, fun u hu => (ht.pc_thread (hne u)).trans (hn u hu)⟩

/-! ## What is freed is not mapped -/

/-- An mr that is on no list is not mapped: no handler can have got hold of it since it was unmapped. -/
def OwnedUnmapped (s : State) : Prop := ∀ p m, s.place m = .owned p → gdr_mr_is_mapped (s.mrs m) = false

theorem unmapped_is (mr : Mr) : gdr_mr_is_mapped (unmapped mr) = false := by
  unfold unmapped
  split
  · rfl
  · rename_i h
    exact Bool.eq_false_iff.2 h

/-- The mr that changes is not mapped, or it is on a list. -/
theorem OwnedUnmapped.setMr {mr : Mr} (hu : OwnedUnmapped s)
    (h : ∀ p, s.place m = .owned p → gdr_mr_is_mapped mr = false) : OwnedUnmapped (s.setMr m mr) := by
  intro p k hk
  have hk : s.place k = .owned p := hk
  show gdr_mr_is_mapped (Function.update s.mrs m mr k) = false
  by_cases hkm : k = m
  · rw [hkm, Function.update_self]
    exact h p (hkm ▸ hk)
  · rw [Function.update_of_ne hkm]
    exact hu p k hk

theorem OwnedUnmapped.setPlace {l : Place Party Nat} (hu : OwnedUnmapped s)
    (h : ∀ p, l = .owned p → gdr_mr_is_mapped (s.mrs m) = false) : OwnedUnmapped (s.setPlace m l) := by
  intro p k hk
  have hk : Function.update s.place m l k = .owned p := hk
  by_cases hkm : k = m
  · rw [hkm, Function.update_self] at hk
    rw [hkm]
    exact h p hk
  · rw [Function.update_of_ne hkm] at hk
    exact hu p k hk

/-- A new mr goes to the party that made it. -/
theorem OwnedUnmapped.alloc {mr : Mr} (hu : OwnedUnmapped (s.setMr s.fresh mr)) (hmr : gdr_mr_is_mapped mr = false) :
    OwnedUnmapped (s.alloc p mr) := by
  refine OwnedUnmapped.setPlace (s := s.setMr s.fresh mr) (m := s.fresh) (l := .owned p) hu fun _ _ => ?_
  show gdr_mr_is_mapped (Function.update s.mrs s.fresh mr s.fresh) = false
  rw [Function.update_self]
  exact hmr

theorem OwnedUnmapped.unlink {f : Nat} (hu : OwnedUnmapped s) :
    OwnedUnmapped (s.unlink p f m (unmapped (s.mrs m))) := by
  have hset : OwnedUnmapped (s.setMr m (unmapped (s.mrs m))) := hu.setMr fun _ _ => unmapped_is _
  refine OwnedUnmapped.setPlace (s := (s.setMr m (unmapped (s.mrs m))).setList f
    ((s.files f).mr_list.filter (· ≠ m))) hset fun _ _ => ?_
  show gdr_mr_is_mapped (Function.update s.mrs m (unmapped (s.mrs m)) m) = false
  rw [Function.update_self]
  exact unmapped_is _

theorem step_unmapped (hi : Inv s) (hu : OwnedUnmapped s) (h : Step P serial s p s') : OwnedUnmapped s' := by
  cases h with
  | @use t f m u mr h _ =>
    have hm : s.place m = .listed f := hi.places.refers _ f m (by show (s.pc _).refers = _; rw [h]; rfl)
    exact OwnedUnmapped.setMr (s := s) hu fun q hq => by rw [hm] at hq; cases hq
  | unpinDel h | relDel h => exact OwnedUnmapped.unlink (s := s) hu
  | @pinRefused t f q ret h ha =>
    have hset : OwnedUnmapped (s.setMr s.fresh (newMr s.fresh q.addr q.size 0 0 false)) := hu.setMr fun _ _ => rfl
    exact hset.alloc rfl
  | @pinAlloc t f q a h ha =>
    have hset : OwnedUnmapped (s.setMr s.fresh (newMr s.fresh q.addr q.size a.1 a.2.1 a.2.2)) := hu.setMr fun _ _ => rfl
    exact hset.alloc rfl
  | @pinInc t f m pt h =>
    refine OwnedUnmapped.setMr (s := s) hu fun q hq => ?_
    have hmr := hu q m hq
    unfold tableSet
    split <;> exact hmr
  | @pinAdd t f m handle file h _ =>
    have hset : OwnedUnmapped (s.setMr m { s.mrs m with handle := handle }) := hu.setMr fun q hq => hu q m hq
    exact OwnedUnmapped.setPlace (s := s.setMr m { s.mrs m with handle := handle }) hset nofun
  | kfree h => exact OwnedUnmapped.setPlace (s := s) hu nofun
  | @cbTable m n h _ | @cbNone m n h _ => exact OwnedUnmapped.setMr (s := s) hu fun q hq => hu q n hq
  | @cbDec m n h => exact OwnedUnmapped.setMr (s := s) hu fun q hq => unmapped_is (s.mrs n)
  | _ => exact hu

/-- `BUG_ON(gdr_mr_is_mapped(mr))` of `gdr_free_mr_unlocked` does not fire. -/
theorem run_unmapped {os : List Party} (h : Run P serial s os) : OwnedUnmapped s :=
  Runs.Run.inv_of Inv OwnedUnmapped (fun _ _ => run_inv)
    (fun s hl p m hm => by
      obtain ⟨-, -, -, -, -, -, -, -, -, -, -, hplace⟩ := hl
      rw [hplace] at hm
      cases hm)
    (fun _ _ _ hi hu ht => step_unmapped hi hu ht) h

/-! ## Somebody can go on -/

/-- The handler that the party is in stops the kernel. -/
def State.Stopped (P : Platform) (s : State) (p : Party) : Prop :=
  ∃ f m u, s.pc p = .use f m u ∧ u.run P f (s.mrs m) = none

theorem Inv.goes_thread (hi : Inv s) (hu : OwnedUnmapped s) (ho : ¬ (s.pc (.thread t)).Outside)
    (hm : ¬ (s.pc (.thread t)).MayWait) : (∃ s', Step P serial s (.thread t) s') ∨ s.Stopped P (.thread t) := by
  have hcb := hi.thread t
  cases hx : s.pc (.thread t) with
  | getFind f handle g =>
    cases hf : findLoop s.mrs handle none (s.files f).mr_list with
    | none => exact .inl ⟨_, .notFound hx hf⟩
    | some m => exact .inl ⟨_, .found hx hf⟩
  | getNone f => exact .inl ⟨_, .getNone hx⟩
  | getUnlock f m u => exact .inl ⟨_, .getUnlock hx⟩
  | use f m u =>
    cases hr : u.run P f (s.mrs m) with
    | none => exact .inr ⟨f, m, u, hx, hr⟩
    | some mr => exact .inl ⟨_, .use hx hr⟩
  | put f m u => exact .inl ⟨_, .put hx⟩
  | unpinDel f m => exact .inl ⟨_, .unpinDel hx⟩
  | unpinUnlock f m => exact .inl ⟨_, .unpinUnlock hx⟩
  | free m held r =>
    have hpl : s.place m = .owned (.thread t) := by
      cases held with
      | true => exact place_owned hi.places (by rw [hx]; rfl)
      | false => exact place_owned hi.places (by rw [hx]; rfl)
    have hunmapped := hu _ m hpl
    by_cases hp : (s.mrs m).page_table = none
    · exact .inl ⟨_, .freeNone hx hunmapped hp⟩
    · exact .inl ⟨_, .freeTable hx hunmapped hp⟩
  | putDone m r => exact .inl ⟨_, .putDec hx⟩
  | kfree m r => exact .inl ⟨_, .kfree hx⟩
  | pin f q => exact .inl ⟨_, .pinNoMem hx⟩
  | pinGetIn f m => exact .inl ⟨_, .pinGetFails hx⟩
  | pinInc f m pt => exact .inl ⟨_, .pinInc hx⟩
  | pinAdd f m =>
    cases hn : newHandle P (s.files f) (s.mrs m) with
    | none => exact .inl ⟨_, .pinNoHandle hx hn⟩
    | some r => exact .inl ⟨_, .pinAdd hx hn⟩
  | pinFail f m => exact .inl ⟨_, .pinFail hx⟩
  | pinUp f m handle => exact .inl ⟨_, .pinUp hx⟩
  | pinUnlock f handle => exact .inl ⟨_, .pinUnlock hx⟩
  | pinCopy f handle => exact .inl ⟨_, .pinDone hx⟩
  | relNext f =>
    cases hl : (s.files f).mr_list with
    | nil => exact .inl ⟨_, .relUnlock hx hl⟩
    | cons m rest => exact .inl ⟨_, .relNext hx hl⟩
  | relDel f m => exact .inl ⟨_, .relDel hx⟩
  | _ => simp_all [Pc.MayWait, Pc.wantsLock, Pc.wantsSem, Pc.wantsNv, Pc.OfCallback, Pc.Outside]

/-- A party in the driver goes on, or waits for another, or has stopped the kernel. -/
theorem Inv.goes (hi : Inv s) (hu : OwnedUnmapped s) (ho : ¬ (s.pc p).Outside) :
    (∃ s', Step P serial s p s') ∨ (∃ q, Waits s p q) ∨ s.Stopped P p := by
  by_cases hm : (s.pc p).MayWait
  · by_cases hq : ∃ q, Waits s p q
    · exact .inr (.inl hq)
    · exact .inl (hi.moves hm fun q hw => hq ⟨q, hw⟩)
  cases p with
  | thread t =>
    rcases hi.goes_thread hu ho hm with h | h
    · exact .inl h
    · exact .inr (.inr h)
  | callback n =>
    have hpc : s.pc (.callback n) = .idle ∨ (s.pc (.callback n)).OfCallback := (hi.good n).callback_pc
    cases hx : s.pc (.callback n) with
    | cbBody m =>
      by_cases hp : (s.mrs m).page_table = none
      · exact .inl ⟨_, .cbNone hx hp⟩
      · exact .inl ⟨_, .cbTable hx hp⟩
    | cbDec m => exact .inl ⟨_, .cbDec hx⟩
    | cbUp m => exact .inl ⟨_, .cbUp hx⟩
    | cbRet => exact .inl ⟨_, .cbRet hx⟩
    | _ => simp_all [Pc.MayWait, Pc.wantsLock, Pc.wantsSem, Pc.wantsNv, Pc.OfCallback, Pc.Outside]

theorem Pc.InNv.inside (h : x.InNv) : ¬ x.Outside := by
  cases x <;> simp_all [Pc.InNv, Pc.Outside]

theorem Pc.running.inside (h : x.running) : ¬ x.Outside := by
  cases x <;> simp_all [Pc.running, Pc.Outside]

/-- Whom a party waits for is in the driver itself. -/
theorem Inv.waits_inside (hi : Inv s) (h : Waits s p q) : ¬ (s.pc q).Outside := by
  cases h with
  | @lock f _ _ hq =>
    intro ho
    have hl : (s.pc q).lock = some f := (hi.locks.mutex f q).1 hq
    rw [ho.holds.1] at hl
    cases hl
  | @sem m w _ _ hq =>
    intro ho
    obtain ⟨w', hs⟩ := hi.locks.blocker hq
    have hs : (s.pc q).sem = some (m, w') := hs
    rw [ho.holds.2] at hs
    cases hs
  | nv _ hq => exact (hi.nv q hq).inside
  | callback _ hr => exact hr.inside

/-- While a party is in the driver, that party or one it waits for through others goes on, or has stopped the kernel. -/
theorem Inv.progress (hi : Inv s) (hu : OwnedUnmapped s) (ho : ¬ (s.pc p).Outside) :
    (∃ q s', ¬ (s.pc q).Outside ∧ Step P serial s q s') ∨ ∃ q, s.Stopped P q := by
  induction hr : (s.pc p).rank using Nat.strong_induction_on generalizing p with
  | _ r ih =>
    rcases hi.goes (P := P) hu ho with ⟨s', h⟩ | ⟨q, hw⟩ | h
    · exact .inl ⟨p, s', ho, h⟩
    · exact ih _ (hr ▸ hi.waits_rank hw) (hi.waits_inside hw) rfl
    · exact .inr ⟨p, h⟩

/-! ## The end -/

/-- A step of a party that is in an operation, or of a callback that is registered. -/
def Working (s : State) (p : Party) : Prop := s.pc p ≠ .idle

/-- From every state that is reached, and whatever the order of the steps, only finitely many steps can be made without
starting a new operation. After any of them nobody is in the driver any more, or somebody in it can go on, or a
handler has stopped the kernel. -/
theorem operations_end {os : List Party} (h : Run P serial s os) :
    ∃ n, ∀ ps s', Runs.Path (Runs.only Working (Step P serial)) s ps s' → ps.length ≤ n ∧
      ((∀ p, (s'.pc p).Outside) ∨ (∃ p s'', ¬ (s'.pc p).Outside ∧ Step P serial s' p s'') ∨ ∃ p, s'.Stopped P p) := by
  obtain ⟨n, hn⟩ := run_within h
  refine ⟨s.work n, fun ps s' hp => ?_⟩
  have hstep : ∀ s p s', (Inv s ∧ OwnedUnmapped s ∧ s.Within n) → Runs.only Working (Step P serial) s p s' →
      (Inv s' ∧ OwnedUnmapped s' ∧ s'.Within n) ∧ s'.work n < s.work n := by
    rintro s p s' ⟨hi, hu, hn⟩ ⟨hw, ht⟩
    exact ⟨⟨hi.step ht, step_unmapped hi hu ht, ht.within hn hw⟩, ht.work_lt hi hn hw⟩
  obtain ⟨⟨hi, hu, -⟩, hle⟩ := hp.length_le hstep ⟨run_inv h, run_unmapped h, hn⟩
  refine ⟨by omega, ?_⟩
  by_cases ho : ∀ p, (s'.pc p).Outside
  · exact .inl ho
  · obtain ⟨p, hp⟩ := not_forall.1 ho
    exact .inr (hi.progress hu hp)

end

/-- A pin is in the driver, and the callback for its page table waits: both come to an end. -/
theorem operations_end_callback : ∃ s os, Run x86Host false s os ∧ s.pc (.thread 0) = .pinInc 0 0 onePage ∧
    s.pc (.callback 0) = .cbDown 0 ∧ ∃ n, ∀ ps s', Runs.Path (Runs.only Working (Step x86Host false)) s ps s' →
    ps.length ≤ n ∧
      ((∀ p, (s'.pc p).Outside) ∨ (∃ p s'', ¬ (s'.pc p).Outside ∧ Step x86Host false s' p s'') ∨
        ∃ p, s'.Stopped x86Host p) := by
  obtain ⟨s, s', os, h, hs, -, ht, hc⟩ := called_early
  exact ⟨s', _, h.next hs, ht, hc, operations_end (h.next hs)⟩

end gdrdrv.Threads
