import GdrCopy.Threads.Reach
/-!
# No deadlock with the NVIDIA driver

Locks are not taken in one order: `__gdrdrv_pin_buffer` takes `info->lock` under the
semaphore, every other handler the semaphore under `info->lock`, and a callback takes the
semaphore inside the NVIDIA driver. What orders the parties is where they stand
(`Pc.rank`): a party only waits for parties of lower rank.
-/

namespace gdrdrv.Threads

/-! ## Who waits for whom -/

/-- The file whose lock the party is about to take. -/
def Pc.wantsLock : Pc → Option Nat
  | .getLock f _ _ => some f
  | .pinLock f _ => some f
  | .relLock f => some f
  | _ => none

/-- The mr whose semaphore the party is about to take, and whether for writing. -/
def Pc.wantsSem : Pc → Option (Nat × Bool)
  | .getDown _ m g => some (m, g.write)
  | .pinDown _ m => some (m, true)
  | .relDown _ m => some (m, true)
  | .cbDown m => some (m, true)
  | _ => none

/-- The party is about to call the NVIDIA driver, or to be called by it. -/
def Pc.wantsNv : Pc → Bool
  | .pinGet _ _ => true
  | .putCall _ _ => true
  | .armed => true
  | _ => false

/-- `p` waits for a lock that `q` holds, or for the callback `q` to return. -/
inductive Waits (s : State) (p : Party) : Party → Prop
  | lock {f q} : (s.pc p).wantsLock = some f → (s.files f).lock = some q → Waits s p q
  | sem {m w q} : (s.pc p).wantsSem = some (m, w) → (s.sem m).Blocks w q → Waits s p q
  | nv {q} : (s.pc p).wantsNv = true → s.nv = some q → Waits s p q
  | callback {m r} : s.pc p = .putIn m r → (s.pc (.callback m)).running → Waits s p (.callback m)

/-- A party that waits does so for a party of lower rank. -/
def Pc.rank : Pc → Nat
  | .getDown _ _ _ => 1
  | .relDown _ _ => 1
  | .getLock _ _ _ => 2
  | .pinLock _ _ => 2
  | .relLock _ => 2
  | .cbDown _ => 3
  | .putIn _ _ => 4
  | .pinGet _ _ => 5
  | .putCall _ _ => 5
  | .armed => 6
  | _ => 0

section
variable {P : Platform} {serial : Bool} {s s' : State} {p q : Party} {f m : Nat} {w : Bool} {x : Pc}

/-! ## What a holder may wait for itself -/

/-- Who holds `info->lock` only waits for a semaphore, unless it is in `gdrdrv_release`. -/
theorem Pc.rank_of_lock (h : x.lock = some f) : x.rank ≤ 1 ∨ x.releasing = some f := by
  cases x with
  | free n held r => exact .inl (Nat.zero_le 1)
  | putCall n r => cases r <;> simp_all [Pc.lock, Ret.lock, Pc.releasing]
  | putIn n r => cases r <;> simp_all [Pc.lock, Ret.lock, Pc.releasing]
  | _ => simp_all [Pc.lock, Pc.rank]

/-- Who holds the semaphore of a listed mr waits for nothing. -/
theorem Pc.rank_of_refers (h : x.refers = some (f, m)) (hs : x.sem = some (m, w)) : x.rank = 0 := by
  cases x <;> simp_all [Pc.refers, Pc.sem, Pc.rank]

/-- Who holds the semaphore of an mr that is on no list may wait for `info->lock`, or for `get_pages`. -/
theorem Pc.rank_of_owns {st : Stage} (h : x.owns = some (m, st)) (hs : x.sem = some (m, w)) :
    x.rank ≤ 2 ∨ st = .allocated := by
  cases x with
  | free n held r => exact .inl (Nat.zero_le 2)
  | _ => simp_all [Pc.owns, Pc.sem, Pc.rank]

theorem Pc.rank_of_callback (h : x.OfCallback) (hs : x.sem = some (m, w)) : x.rank = 0 := by
  cases x <;> simp_all [Pc.OfCallback, Pc.sem, Pc.rank]

/-- Who is inside the NVIDIA driver waits for a semaphore or a callback at most. -/
theorem Pc.rank_of_inNv (h : x.InNv) : x.rank ≤ 4 := by
  cases x <;> simp_all [Pc.InNv, Pc.rank]

theorem Pc.rank_of_running (h : x.running) : x.rank ≤ 3 := by
  cases x <;> simp_all [Pc.running, Pc.rank]

/-! ## The order -/

theorem Inv.lock_rank (hi : Inv s) (hp : (s.pc p).wantsLock = some f) (hq : (s.files f).lock = some q) :
    (s.pc q).rank < (s.pc p).rank := by
  have hl : (s.pc q).lock = some f := (hi.locks.mutex f q).1 hq
  have hr : (s.pc p).rank = 2 := by cases hx : s.pc p <;> simp_all [Pc.wantsLock, Pc.rank]
  have hpf : (s.pc p).file = some f := by cases hx : s.pc p <;> simp_all [Pc.wantsLock, Pc.file]
  rcases Pc.rank_of_lock hl with h | h
  · omega
  · -- then nobody else is at work on the file
    obtain rfl := hi.releasing q p f h hpf
    have : (s.pc p).lock = none := by cases hx : s.pc p <;> simp_all [Pc.wantsLock, Pc.lock]
    rw [hl] at this
    cases this

theorem Inv.sem_rank (hi : Inv s) (hp : (s.pc p).wantsSem = some (m, w)) (hq : (s.sem m).Blocks w q) :
    (s.pc q).rank < (s.pc p).rank := by
  obtain ⟨w', hs⟩ := hi.locks.blocker hq
  have hs : (s.pc q).sem = some (m, w') := hs
  by_cases hd : (s.pc p).owns = some (m, .allocated)
  · -- nobody else knows a new mr
    have hn : (s.pc p).sem = none := by cases hx : s.pc p <;> simp_all [Pc.wantsSem, Pc.sem]
    rw [hi.unheld hd hn] at hq
    rcases hq with hq | ⟨-, hq⟩ <;> cases hq
  have hp' : (s.pc p).rank = 3 ∧ s.pc p = .cbDown m ∨ (s.pc p).rank = 1 ∧ ∃ f, (s.pc p).refers = some (f, m) := by
    cases hx : s.pc p <;> simp_all [Pc.wantsSem, Pc.rank, Pc.refers, Pc.owns]
  by_cases hc : (s.pc q).OfCallback
  · have := Pc.rank_of_callback hc hs
    omega
  rcases Pc.has_of_sem hs hc with ⟨st, ho⟩ | ⟨g, hr⟩
  · rcases hp' with ⟨hrank, hx⟩ | ⟨-, g, hr⟩
    · rcases Pc.rank_of_owns ho hs with h | rfl
      · omega
      · -- the callback that waits is registered, so `get_pages` has returned
        have hcb : s.pc (.callback m) = .idle := hi.callback_idle ho
        cases p with
        | thread t =>
          have := hi.thread t
          rw [hx] at this
          exact absurd trivial this
        | callback n =>
          obtain rfl := hi.callback_own (m := n) (n := m) (by rw [hx]; rfl)
          rw [hx] at hcb
          cases hcb
    · have hm : s.place m = .listed g := hi.places.refers p g m hr
      have := (place_owned hi.places ho).symm.trans hm
      cases this
  · have := Pc.rank_of_refers hr hs
    omega

theorem Inv.waits_rank (hi : Inv s) (h : Waits s p q) : (s.pc q).rank < (s.pc p).rank := by
  cases h with
  | lock hp hq => exact hi.lock_rank hp hq
  | sem hp hq => exact hi.sem_rank hp hq
  | nv hp hq =>
    have := Pc.rank_of_inNv (hi.nv q hq)
    have : 5 ≤ (s.pc p).rank := by cases hx : s.pc p <;> simp_all [Pc.wantsNv, Pc.rank]
    omega
  | callback hp hr =>
    have := Pc.rank_of_running hr
    rw [hp]
    show _ < 4
    omega

/-! ## Waiting is all that stops a party -/

/-- The party is about to take a lock, to call the NVIDIA driver or to return from it. -/
def Pc.MayWait (x : Pc) : Prop :=
  x.wantsLock.isSome ∨ x.wantsSem.isSome ∨ x.wantsNv = true ∨ ∃ m r, x = .putIn m r

/-- A callback of an mr in `put_pages` has not been called, is at work, or has returned. -/
theorem Good.callback_of_putting {y : Facts} (h : Good m y .putting) :
    y.callback = .idle ∨ y.callback = .armed ∨ y.callback.running ∨ y.callback = .ran := by
  obtain ⟨-, hc⟩ := h
  cases hc with
  | ahead ha => rcases ha with rfl | rfl | rfl | rfl <;> simp [Pc.running]
  | dec => simp [Pc.running]
  | past hp => rcases hp with rfl | rfl | rfl <;> simp [Pc.running]

theorem Inv.moves_thread {t : Nat} (hi : Inv s) (hm : (s.pc (.thread t)).MayWait) (hn : ∀ q, ¬ Waits s (.thread t) q) :
    ∃ s', Step P serial s (.thread t) s' := by
  have lock {f : Nat} (h : (s.pc (.thread t)).wantsLock = some f) : (s.files f).lock = none :=
    Option.eq_none_iff_forall_ne_some.2 fun q hq => hn q (.lock h hq)
  have sem {m : Nat} {w : Bool} (h : (s.pc (.thread t)).wantsSem = some (m, w)) : (s.sem m).Free w :=
    fun q hq => hn q (.sem h hq)
  have nv (h : (s.pc (.thread t)).wantsNv = true) : s.NvFree serial := fun _ =>
    Option.eq_none_iff_forall_ne_some.2 fun q hq => hn q (.nv h hq)
  have hc := hi.thread t
  cases hx : s.pc (.thread t) with
  | getLock f handle g => exact ⟨_, .getLock hx (lock (by rw [hx]; rfl))⟩
  | pinLock f m => exact ⟨_, .pinLock hx (lock (by rw [hx]; rfl))⟩
  | relLock f => exact ⟨_, .relLock hx (lock (by rw [hx]; rfl))⟩
  | getDown f m g =>
    cases g with
    | use u => exact ⟨_, .getDown hx (sem (by rw [hx]; rfl))⟩
    | unpin => exact ⟨_, .unpinDown hx (sem (by rw [hx]; rfl))⟩
  | pinDown f m => exact ⟨_, .pinDown hx (sem (by rw [hx]; rfl))⟩
  | relDown f m => exact ⟨_, .relDown hx (sem (by rw [hx]; rfl))⟩
  | pinGet f m => exact ⟨_, .pinGet hx (nv (by rw [hx]; rfl))⟩
  | putCall m r => exact ⟨_, .putCall hx (nv (by rw [hx]; rfl))⟩
  | putIn m r =>
    have hg : Good m (s.facts m) .putting := hi.at (by rw [hx]; rfl)
    rcases hg.callback_of_putting with h | h | h | h
    · exact ⟨_, .putPersistent hx h⟩
    · exact ⟨_, .putReturn hx h⟩
    · exact absurd (.callback hx h) (hn _)
    · exact ⟨_, .putLate hx h⟩
  | _ => simp_all [Pc.MayWait, Pc.wantsLock, Pc.wantsSem, Pc.wantsNv, Pc.OfCallback]

theorem Good.callback_pc {y : Facts} {st : Stage} (h : Good m y st) : y.callback = .idle ∨ y.callback.OfCallback := by
  have ahead {c : Pc} (hc : c.Ahead m) : c = .idle ∨ c.OfCallback := by
    rcases hc with rfl | rfl | rfl | rfl <;> simp [Pc.OfCallback]
  have ended {c : Pc} (hc : c.Over) : c = .idle ∨ c.OfCallback := by
    rcases hc with rfl | rfl | rfl | rfl <;> simp [Pc.OfCallback]
  have counted (hc : Counted m y) : y.callback = .idle ∨ y.callback.OfCallback := by
    cases hc with
    | ahead ha => exact ahead ha
    | dec => exact .inr trivial
    | past hp => rcases hp with rfl | rfl | rfl <;> exact .inr trivial
  cases st with
  | unborn => exact .inl h.1
  | allocated => exact .inl (congrArg Facts.callback h)
  | got =>
    obtain ⟨c, hc, -, rfl⟩ := h
    exact ahead hc
  | main =>
    obtain ⟨-, rfl | hc⟩ := h
    · exact .inl rfl
    · exact counted hc
  | putting => exact counted h.2
  | put => exact ended h.2.1
  | done => exact ended h.2.1
  | freed => exact ended h.2.1

/-- A party that may wait and waits for nobody can go on. -/
theorem Inv.moves (hi : Inv s) (hm : (s.pc p).MayWait) (hn : ∀ q, ¬ Waits s p q) : ∃ s', Step P serial s p s' := by
  cases p with
  | thread t => exact hi.moves_thread hm hn
  | callback n =>
    have hpc : s.pc (.callback n) = .idle ∨ (s.pc (.callback n)).OfCallback := (hi.good n).callback_pc
    cases hx : s.pc (.callback n) with
    | armed =>
      exact ⟨_, .cbStart hx fun _ => Option.eq_none_iff_forall_ne_some.2 fun q hq => hn q (.nv (by rw [hx]; rfl) hq)⟩
    | cbDown m => exact ⟨_, .cbDown hx fun q hq => hn q (.sem (by rw [hx]; rfl) hq)⟩
    | _ => simp_all [Pc.MayWait, Pc.wantsLock, Pc.wantsSem, Pc.wantsNv, Pc.OfCallback]

/-- In every interleaving, no party waits for itself through any number of others. -/
theorem no_deadlock {os : List Party} (h : Run P serial s os) (p : Party) : ¬ Relation.TransGen (Waits s) p p :=
  Locks.no_cycle (fun p => (s.pc p).rank) (fun _ _ hw => (run_inv h).waits_rank hw) p

end

/-- In the race the thread inside `put_pages` waits for the callback, and not for itself. -/
theorem no_deadlock_race : ∃ s os, Run x86Host false s os ∧ Waits s (.thread 1) (.callback 0) ∧
    ¬ Relation.TransGen (Waits s) (.thread 1) (.thread 1) := by
  obtain ⟨s, os, -, -, h, ht, hc, -⟩ := race
  exact ⟨s, os, h, .callback ht (by rw [hc]; trivial), no_deadlock h (.thread 1)⟩

end gdrdrv.Threads
