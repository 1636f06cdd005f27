import GdrCopy.Tools.Handshake
/-!
# All rounds are completed

With one block only finitely many steps lie in front of the last round, failed loads
aside (`steps_bounded`), and from every state the host can get there
(`rounds_complete`). Behind it a block may still hang: with the largest number of
iterations the loop of the producing kernel has no end (`kernel_never_returns`).
-/

namespace pplat

open Runs (Path only)

section
variable (c : Options)

/-- What is left of round `i` for the block, with its pass over the data. -/
def answerPhase (i : Word) (k : Block) : Nat :=
  if k.pc = .poll then if k.i = i then c.num_elements + 8 else 3
  else if k.pc = .data then c.num_elements - k.idx + 5
  else if k.pc = .answer then 4
  else 3

/-- What is left of the round of `h`. -/
def phase (h : Host) (k : Block) : Nat :=
  match h.pc with
  | .ready => if k.pc = .start then c.num_elements + 13 else c.num_elements + 12
  | .notify => c.num_elements + 11
  | .produce => c.num_elements + 10
  | .publish => if c.benchmark_mode = .CPU_PRODUCE_GPU_CONSUME then c.num_elements + 9 else 1
  | .consume => 2
  | .answers => answerPhase c h.i k
  | .done => 0

/-- The work of the rounds to come, and of this one. -/
def rank (h : Host) (k : Block) : Nat :=
  if h.pc = .done then 0 else (c.num_iters.toNat - h.i.toNat) * (c.num_elements + 14) + phase c h k

end

/-- A load that does not see what its loop waits for. -/
def Fails (s : State) : Op → Prop
  | .hostLoad _ val => val ≠ s.host.expected
  | .load b val => val ≠ (s.blocks b).i
  | _ => False

variable {c : Options}

section
variable {h h' : Host} {gpu cpu : Word} {k k' : Block}

theorem answerPhase_bounds (i : Word) (k : Block) : 3 ≤ answerPhase c i k ∧ answerPhase c i k ≤ c.num_elements + 8 := by
  unfold answerPhase
  split_ifs <;> omega

@[simp] theorem rank_done (hd : h.pc = .done) (k : Block) : rank c h k = 0 := if_pos hd

theorem rank_of (hd : h.pc ≠ .done) (k : Block) :
    rank c h k = (c.num_iters.toNat - h.i.toNat) * (c.num_elements + 14) + phase c h k := if_neg hd

/-- A step inside a round. -/
theorem rank_lt (hd : h.pc ≠ .done) (hi : h'.i = h.i) (hlt : phase c h' k' < phase c h k) :
    rank c h' k' < rank c h k := by
  rw [rank_of hd]
  by_cases hd' : h'.pc = .done
  · rw [rank_done hd']
    omega
  · rw [rank_of hd', hi]
    omega

/-- The condition of the loop, in front of round `h.i`. -/
theorem rank_enter (k : Block) : rank c (h.enter c) k = 0 ∨
    (h.i ≤ c.num_iters ∧ rank c (h.enter c) k ≤ (c.num_iters.toNat - h.i.toNat) * (c.num_elements + 14) +
      (c.num_elements + 10)) := by
  by_cases hle : h.i ≤ c.num_iters
  · refine .inr ⟨hle, ?_⟩
    rw [Host.enter, if_pos hle]
    cases hm : c.benchmark_mode with
    | CPU_PRODUCE_GPU_CONSUME => simp [rank, phase]
    | GPU_PRODUCE_CPU_CONSUME =>
      have hbounds := (answerPhase_bounds (c := c) h.i k).2
      simp only [rank, phase, reduceCtorEq, if_false]
      omega
  · refine .inl (rank_done ?_ k)
    rw [Host.enter, if_neg hle]

/-- The next round has less to come. -/
theorem rank_next (hn : c.Counts) (hle : h.i ≤ c.num_iters) (hd : h.pc ≠ .done) (hi : h'.i = h.i + 1)
    (hpos : 0 < phase c h k) :
    rank c (h'.enter c) k' < rank c h k := by
  rw [rank_of hd]
  rcases rank_enter (c := c) (h := h') k' with h0 | ⟨hle', hrank⟩
  · omega
  · have hsucc : h'.i.toNat = h.i.toNat + 1 := by rw [hi, succ_toNat hn hle]
    have hle' : h'.i.toNat ≤ c.num_iters.toNat := hle'
    obtain ⟨d, hd⟩ : ∃ d, c.num_iters.toNat - h.i.toNat = d + 1 := ⟨c.num_iters.toNat - h.i.toNat - 1, by omega⟩
    have hd' : c.num_iters.toNat - h'.i.toNat = d := by omega
    rw [hd'] at hrank
    rw [hd, Nat.succ_mul]
    omega

theorem hostLoad_lt (hn : c.Counts) (hok : HostOk c h) (h1 : c.num_blocks = 1)
    (hpc : h.pc = .ready ∨ h.pc = .answers) (hval : cpu = h.expected) : rank c (h.poll c cpu) k < rank c h k := by
  have hlast : ¬ h.cpu_flag_idx + 1 < c.num_blocks := by omega
  have hd : h.pc ≠ .done := by rcases hpc with hp | hp <;> simp [hp]
  rw [Host.poll, if_pos hval, if_neg hlast]
  rcases hpc with hp | hp
  · -- from the wait for the start of the block
    have hphase : c.num_elements + 12 ≤ phase c h k := by
      simp only [phase, hp]
      split_ifs <;> omega
    cases hm : c.benchmark_mode with
    | CPU_PRODUCE_GPU_CONSUME =>
      have hnot : ¬ h.pc = .answers := by simp [hp]
      rw [Host.answered, hm]
      dsimp only
      rw [if_neg hnot, rank_of hd]
      rcases rank_enter (c := c) (h := { h with val := cpu, cpu_flag_idx := h.cpu_flag_idx + 1 }) k with h0 | ⟨-, hle⟩
      · omega
      · dsimp only at hle
        omega
    | GPU_PRODUCE_CPU_CONSUME =>
      simp only [Host.answered, hm, hp, reduceCtorEq, if_false]
      refine rank_lt hd rfl (Nat.lt_of_lt_of_le ?_ hphase)
      simp [phase]
  · have hle := hok.in_round hp
    have hphase : 3 ≤ phase c h k := by
      simp only [phase, hp]
      exact (answerPhase_bounds _ _).1
    rw [Host.expected, if_pos hp] at hval
    cases hm : c.benchmark_mode with
    | CPU_PRODUCE_GPU_CONSUME =>
      simp only [Host.answered, hm, hp, if_true]
      exact rank_next hn hle hd hval (by omega)
    | GPU_PRODUCE_CPU_CONSUME =>
      simp only [Host.answered, hm, hp, if_true]
      refine rank_lt hd rfl (Nat.lt_of_lt_of_le ?_ hphase)
      simp [phase]

theorem copied_lt (hok : HostOk c h) (hpc : h.pc = .produce ∨ h.pc = .consume) :
    rank c { h with pc := .publish } k < rank c h k := by
  cases hok with
  | produce hm _ => exact rank_lt (by simp) rfl (by simp [phase, hm])
  | consume hm _ => exact rank_lt (by simp) rfl (by simp [phase, hm])
  | _ => simp at hpc

theorem published_lt (hn : c.Counts) (hok : HostOk c h) (hpc : h.pc = .publish ∨ h.pc = .notify) :
    rank c (h.published c) k < rank c h k := by
  cases hok with
  | @offer i idx hm _ =>
    have hbounds := (answerPhase_bounds (c := c) i k).2
    rw [Host.published, hm]
    refine rank_lt (by simp) rfl ?_
    simp only [phase, hm, if_true]
    omega
  | @notify idx hm =>
    have hrank : rank c ⟨.notify, 1, 1, idx⟩ k =
        (c.num_iters.toNat - (1 : Word).toNat) * (c.num_elements + 14) + (c.num_elements + 11) :=
      rank_of (by simp) k
    simp only [Host.published, hm, reduceCtorEq, if_false]
    rw [hrank]
    rcases rank_enter (c := c) (h := ⟨.notify, 1, 1, idx⟩) k with h0 | ⟨-, hle⟩
    · omega
    · dsimp only at hle
      omega
  | @request i idx hm hle =>
    simp only [Host.published, hm, if_true]
    exact rank_next hn hle (by simp) rfl (by simp [phase, hm])
  | _ => simp at hpc

theorem started_lt (hl : Lockstep c h gpu cpu k) (hn : c.Counts) (hpc : k.pc = .start) (hd : h.pc ≠ .done) :
    rank c h (k.started c 0) < rank c h k := by
  obtain ⟨hr, -, -, hki⟩ := hl.start_inv hpc hd
  rw [started_poll hn hki]
  exact rank_lt hd rfl (by simp [phase, hr, hpc])

theorem load_lt (hl : Lockstep c h gpu cpu k) (hn : c.Counts) (hok : HostOk c h) (hpc : k.pc = .poll)
    (hval : gpu = k.i) (hd : h.pc ≠ .done) :
    rank c h (k.load c 0 gpu) < rank c h k := by
  obtain ⟨ha, -, hki⟩ := hl.asked_inv hpc hval hd
  have hphase : phase c h k = c.num_elements + 8 := by simp [phase, ha, answerPhase, hpc, hki]
  refine rank_lt hd rfl ?_
  rw [hphase, hval, load_eq hn (hki ▸ hok.in_round ha)]
  cases c.benchmark_mode with
  | CPU_PRODUCE_GPU_CONSUME =>
    simp only [phase, ha, answerPhase, reduceCtorEq, if_false, if_true]
    omega
  | GPU_PRODUCE_CPU_CONSUME =>
    simp only [phase, ha, answerPhase, reduceCtorEq, if_false, if_true]
    omega

/-- The only thread 0 goes on through the data. -/
theorem num_threads_pos (h1 : c.num_blocks = 1) : 0 < c.num_threads := by
  rw [Options.num_threads, h1, Nat.one_mul, Nat.mod_eq_of_lt c.threads_lt]
  exact c.threads_pos

theorem touch_lt (hl : Lockstep c h gpu cpu k) (h1 : c.num_blocks = 1) (hpc : k.pc = .data) (hd : h.pc ≠ .done)
    (elem : Word) :
    rank c h (k.touch c elem) < rank c h k := by
  obtain ⟨ha, -⟩ := hl.working_inv (.inl hpc) hd
  have hthreads := num_threads_pos h1
  have hphase : phase c h k = c.num_elements - k.idx + 5 := by simp [phase, ha, answerPhase, hpc]
  refine rank_lt hd rfl ?_
  rw [hphase, Block.touch]
  by_cases hidx : k.idx < c.num_elements
  · rw [if_pos hidx]
    cases c.benchmark_mode with
    | CPU_PRODUCE_GPU_CONSUME =>
      simp only [phase, ha, answerPhase, hpc, reduceCtorEq, if_false, if_true]
      omega
    | GPU_PRODUCE_CPU_CONSUME =>
      simp only [phase, ha, answerPhase, hpc, reduceCtorEq, if_false, if_true]
      omega
  · rw [if_neg hidx]
    simp only [phase, ha, answerPhase, reduceCtorEq, if_false, if_true]
    omega

theorem answer_lt (hl : Lockstep c h gpu cpu k) (hn : c.Counts) (hok : HostOk c h) (hpc : k.pc = .answer)
    (hd : h.pc ≠ .done) :
    rank c h (k.answered c 0) < rank c h k := by
  obtain ⟨ha, -, -, hans, -⟩ := hl.working_inv (.inr hpc) hd
  have hphase : phase c h k = 4 := by simp [phase, ha, answerPhase, hpc]
  refine rank_lt hd rfl ?_
  rw [hphase]
  have hl' := hl.answer hn hok hpc
  rw [hans] at hl'
  generalize k.answered c 0 = k' at hl'
  cases hl' with
  | answered _ _ _ hk =>
    rcases hk with ⟨hk, hki⟩ | ⟨-, hk, -⟩
    · have hne : k'.i ≠ h.i := hki ▸ succ_ne h.i
      simp [phase, ha, answerPhase, hk, hne]
    · simp [phase, ha, answerPhase, hk]
  | boot hr => simp [ha] at hr
  | ready hr => simp [ha] at hr
  | turn ht => simp [ha] at ht
  | asked _ _ hcpu => exact absurd hcpu (succ_ne _)
  | working _ _ hcpu => exact absurd hcpu (succ_ne _)
  | done h => exact absurd h hd

end

/-! ## Completion -/

section
variable {s s' : State} {os : List Op} {o : Op}

def State.rank (c : Options) (s : State) : Nat := pplat.rank c s.host (s.blocks 0)

theorem step_lt (hn : c.Counts) (h1 : c.num_blocks = 1) (h : Run c s os) (ht : Step c s o s') (hf : ¬ Fails s o)
    (hd : s.host.pc ≠ .done) :
    s'.rank c < s.rank c := by
  have hl := lockstep hn h1 h
  have hok := host_ok h
  have hzero {b : Nat} (hb : b < c.num_blocks) : b = 0 := by omega
  unfold State.rank
  cases ht with
  | hostLoad hpc =>
    have hval : s.cpu_flag_buf s.host.cpu_flag_idx = s.host.expected := not_not.1 hf
    exact hostLoad_lt hn hok h1 hpc hval
  | produce hpc => exact copied_lt hok (.inl hpc)
  | consume hpc => exact copied_lt hok (.inr hpc)
  | publish hpc => exact published_lt hn hok hpc
  | start hb hpc =>
    obtain rfl := hzero hb
    dsimp only
    rw [setBlock_self]
    exact started_lt hl hn hpc hd
  | load hb hpc =>
    obtain rfl := hzero hb
    rw [setBlock_self]
    exact load_lt hl hn hok hpc (not_not.1 hf) hd
  | touch hb hpc =>
    obtain rfl := hzero hb
    dsimp only
    rw [setBlock_self]
    exact touch_lt hl h1 hpc hd _
  | answer hb hpc =>
    obtain rfl := hzero hb
    dsimp only
    rw [setBlock_self]
    exact answer_lt hl hn hok hpc hd

/-- Until the host is done there is a step that is not a failed load. -/
theorem moves (hn : c.Counts) (h1 : c.num_blocks = 1) (h : Run c s os) (hd : s.host.pc ≠ .done) :
    ∃ o s', Step c s o s' ∧ ¬ Fails s o := by
  have hok := host_ok h
  have hb := c.blocks_pos
  have hidx (hpc : s.host.pc = .ready ∨ s.host.pc = .answers) : s.host.cpu_flag_idx = 0 := by
    have := hok.idx_lt hpc
    omega
  cases lockstep hn h1 h with
  | boot _ _ _ _ hk => exact ⟨_, _, .start hb hk, id⟩
  | ready hr hi _ hcpu =>
    have hval : s.cpu_flag_buf s.host.cpu_flag_idx = s.host.expected := by
      simp [hidx (.inl hr), Host.expected, hr, hi, hcpu]
    exact ⟨_, _, .hostLoad (.inl hr), not_not.2 hval⟩
  | turn ht =>
    rcases ht with hp | hp | hp | hp
    · exact ⟨_, _, .produce hp, id⟩
    · exact ⟨_, _, .consume hp, id⟩
    · exact ⟨_, _, @Step.publish c s 0 (.inl hp), id⟩
    · exact ⟨_, _, @Step.publish c s 0 (.inr hp), id⟩
  | asked _ hgpu _ hk hki => exact ⟨_, _, .load hb hk, not_not.2 (hgpu.trans hki.symm)⟩
  | working _ _ _ hk =>
    rcases hk with hk | hk
    · exact ⟨_, _, .touch hb hk, id⟩
    · exact ⟨_, _, .answer hb hk, id⟩
  | answered ha _ hcpu =>
    have hval : s.cpu_flag_buf s.host.cpu_flag_idx = s.host.expected := by
      simp [hidx (.inr ha), Host.expected, ha, hcpu]
    exact ⟨_, _, .hostLoad (.inr ha), not_not.2 hval⟩
  | done h => exact absurd h hd

/-- In any order of steps, the loads that succeed and the steps that are not loads come to an end. -/
theorem steps_bounded (hn : c.Counts) (h1 : c.num_blocks = 1) (h : Run c s os) {os' : List Op}
    (hp : Path (only (fun s o => s.host.pc ≠ .done ∧ ¬ Fails s o) (Step c)) s os' s') :
    os'.length + s'.rank c ≤ s.rank c := by
  induction hp generalizing os with
  | nil => exact Nat.le_of_eq (Nat.zero_add _)
  | cons ht _ ih =>
    obtain ⟨⟨hd, hf⟩, ht⟩ := ht
    have hlt := step_lt hn h1 h ht hf hd
    have hle := ih (h.next ht)
    rw [List.length_cons]
    omega

/-- From every state that is reached the host can complete all rounds. -/
theorem rounds_complete (hn : c.Counts) (h1 : c.num_blocks = 1) (h : Run c s os) :
    ∃ os' s', Path (Step c) s os' s' ∧ s'.host.pc = .done := by
  induction hr : s.rank c using Nat.strong_induction_on generalizing s os with
  | _ r ih =>
    by_cases hd : s.host.pc = .done
    · exact ⟨[], s, .nil, hd⟩
    · obtain ⟨o, s', ht, hf⟩ := moves hn h1 h hd
      obtain ⟨os', s'', hp, hdone⟩ := ih _ (hr ▸ step_lt hn h1 h ht hf hd) (h.next ht) rfl
      exact ⟨o :: os', s'', .cons ht hp, hdone⟩

/-- With the largest number of iterations `i <= num_iters + 1` holds for every `i`. -/
theorem kernel_never_returns (hm : c.benchmark_mode = .GPU_PRODUCE_CPU_CONSUME)
    (hmax : c.num_iters.toNat = 2 ^ 32 - 2) (h : Run c s os) {b : Nat} (hb : b < c.num_blocks) :
    (s.blocks b).pc ≠ .finished := by
  have hle (i : Word) : i ≤ c.num_iters + 1 := by
    have hone : (1 : Word).toNat = 1 := rfl
    rw [BitVec.le_def, BitVec.toNat_add, hmax, hone]
    exact Nat.le_of_lt_succ i.isLt
  have hcheck (b : Nat) (k : Block) : (k.check c b).pc ≠ .finished := by
    rw [check_produce hm, if_pos (hle _)]
    simp
  refine h.inv (fun s => ∀ b < c.num_blocks, (s.blocks b).pc ≠ .finished) (fun s hl b hb => ?_)
    (fun s o s' hi ht b' hb' => ?_) b hb
  · simp [(hl.blocks b hb).1]
  have hset {b : Nat} {k : Block} (hk : k.pc ≠ .finished) : ((s.setBlock b k).blocks b').pc ≠ .finished := by
    by_cases he : b' = b
    · subst he
      rwa [setBlock_self]
    · rw [setBlock_of_ne s k he]
      exact hi b' hb'
  cases ht with
  | start _ _ => exact hset (by simp [Block.started, hm])
  | @load b _ hpc =>
    refine hset ?_
    rw [Block.load, hm]
    split_ifs
    · exact hcheck _ _
    · simp [hpc]
  | @touch b _ hpc =>
    refine hset ?_
    rw [Block.touch, hm]
    split_ifs
    · simp [hpc]
    · simp
  | answer _ _ => exact hset (by simp [Block.answered, hm])
  | _ => exact hi b' hb'

end

end pplat
