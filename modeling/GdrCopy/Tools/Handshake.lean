import GdrCopy.Tools.Lockstep
/-!
# Who gets stuck

The handshake keeps what it is for with one block (`handshake_iff`). The buffer of the
flag that the host writes has one word, and each block polls a word of its own: the
second block waits for a word that no round writes (`second_block_unserved`).
-/

namespace pplat

variable {c : Options} {s : State} {os : List Op}

/-! ## One block -/

/-- Of the host and the only block one can go on. -/
theorem Lockstep.alive (hl : Lockstep c s.host (s.gpu_flag_buf 0) (s.cpu_flag_buf 0) (s.blocks 0))
    (hok : HostOk c s.host) (h1 : c.num_blocks = 1) : ¬ Deadlock c s := by
  rintro ⟨⟨hpc, hflag⟩, hblocks⟩
  have hidx : s.host.cpu_flag_idx = 0 := by
    have := hok.idx_lt hpc
    omega
  rw [hidx, Host.expected] at hflag
  have hblock := hblocks 0 c.blocks_pos
  cases hl with
  | boot _ _ _ _ hk => rcases hblock with hb | ⟨hb, -⟩ <;> simp [hk] at hb
  | ready hr hi _ hcpu => exact hflag (by simp [hr, hi, hcpu])
  | turn ht => rcases hpc with hp | hp <;> simp [hp] at ht
  | asked ha hgpu _ hk hki =>
    rcases hblock with hb | ⟨-, hne⟩
    · simp [hk] at hb
    · exact hne (hgpu.trans hki.symm)
  | working _ _ _ hk => rcases hblock with hb | ⟨hb, -⟩ <;> simp [hb] at hk
  | answered ha _ hcpu => exact hflag (by rw [if_pos ha, hcpu])
  | done hd => rcases hpc with hp | hp <;> simp [hp] at hd

/-- The host leaves a round behind the flag of the last block. -/
theorem leaves_answered (hn : c.Counts) (h : Run c s os) {o : Op} {s' : State} (ht : Step c s o s')
    (ha : s.host.pc = .answers) (hleft : s'.host.pc ≠ .answers) {b : Nat} (hb : b < c.num_blocks) :
    .store b (s.host.i + 1) ∈ os := by
  have hr := recorded hn h
  have hok := host_ok h
  cases ht with
  | hostLoad _ =>
    rcases poll_cases (c := c) s.host (s.cpu_flag_buf s.host.cpu_flag_idx) with ⟨-, he⟩ | ⟨-, -, he⟩ | ⟨hval, hlast, -⟩
    · exact absurd ha (by rwa [he] at hleft)
    · exact absurd ha (by rwa [he] at hleft)
    · rw [Host.expected, if_pos ha] at hval
      rcases Nat.lt_or_ge b s.host.cpu_flag_idx with hlt | hge
      · exact hr.seen ha b hlt
      · obtain rfl : b = s.host.cpu_flag_idx := by omega
        exact hr.answer hn (hok.in_round ha) hb hval
  | produce hpc => exact HostAt.noConfusion (hpc.symm.trans ha)
  | consume hpc => exact HostAt.noConfusion (hpc.symm.trans ha)
  | publish hpc => rcases hpc with hp | hp <;> exact HostAt.noConfusion (hp.symm.trans ha)
  | start => exact absurd ha hleft
  | load => exact absurd ha hleft
  | touch => exact absurd ha hleft
  | answer => exact absurd ha hleft

/-- Block 0 gets past its poll only with a value that the host has published. -/
theorem load_published (hn : c.Counts) (h : Run c s os) {s' : State} (ht : Step c s (.load 0 (s.blocks 0).i) s') :
    ∃ behind, .publish (s.blocks 0).i behind ∈ os := by
  have hval : s.gpu_flag_buf 0 = (s.blocks 0).i := by
    generalize ho : Op.load 0 (s.blocks 0).i = o at ht
    cases ht with
    | load _ _ =>
      obtain ⟨rfl, hval⟩ := Op.load.inj ho
      exact hval.symm
    | _ => cases ho
  rcases (recorded hn h).flag with ⟨h0, -, hi⟩ | hpub
  · rw [h0, hi] at hval
    exact absurd hval (by decide)
  · rwa [hval] at hpub

theorem handshake_of_one (hn : c.Counts) (h1 : c.num_blocks = 1) : Handshake c := by
  have hzero {b : Nat} (hb : b < c.num_blocks) : b = 0 := by omega
  refine ⟨fun s os _ b hb _ => ?_, fun s os h => ⟨(recorded hn h).round, fun val behind s' ht b hb => ?_⟩,
    fun s os h b s' ht => ?_, fun s os h o s' ht ha hleft b hb => leaves_answered hn h ht ha hleft hb,
      fun s os h => (lockstep hn h1 h).alive (host_ok h) h1⟩
  · rw [hzero hb]
    decide
  · rw [hzero hb]
    cases ht with
    | publish _ => exact writeFlag_zero _ _ _
  · have hb : b < c.num_blocks := by
      generalize ho : Op.load b (s.blocks b).i = o at ht
      cases ht with
      | load hb _ =>
        obtain ⟨rfl, -⟩ := Op.load.inj ho
        exact hb
      | _ => cases ho
    obtain rfl := hzero hb
    exact load_published hn h ht

/-! ## More blocks -/

/-- A launch where all memory is zero. -/
def launch : State where
  gpu_flag_buf _ := 0
  cpu_flag_buf _ := 0
  A _ := 0
  init_buf _ := 0
  host := ⟨.ready, 1, 0, 0⟩
  blocks _ := ⟨.start, 1, 0, 0⟩

theorem launch_launched (c : Options) : Launched c launch :=
  ⟨rfl, fun _ _ => rfl, fun _ _ => rfl, fun _ _ => rfl, rfl, rfl, rfl, fun _ _ => ⟨rfl, rfl⟩⟩

/-- The second block polls behind the end of the buffer as soon as it has started. -/
theorem not_handshake (hn : c.Counts) (h2 : 2 ≤ c.num_blocks) : ¬ Handshake c := by
  intro h
  have hrun := Runs.Run.one (launch_launched c) (@Step.start c launch 1 h2 rfl)
  have hin := h.inside _ _ hrun 1 h2 (by
    dsimp only
    rw [setBlock_self, started_poll hn rfl])
  exact absurd hin (by decide)

/-- The second block waits for the first round, and the word it polls is not 1. -/
structure Unserved (c : Options) (s : State) : Prop where
  ok : HostOk c s.host
  i : s.host.i = 1
  pc : s.host.pc ≠ .consume ∧ s.host.pc ≠ .done
  mode : s.host.pc = .publish → c.benchmark_mode = .CPU_PRODUCE_GPU_CONSUME
  idx : s.host.pc = .answers → s.host.cpu_flag_idx ≤ 1
  flag : s.gpu_flag_buf 1 ≠ 1
  answer : s.cpu_flag_buf 1 = 0 ∨ s.cpu_flag_buf 1 = 1
  block : ((s.blocks 1).pc = .start ∨ (s.blocks 1).pc = .poll) ∧ (s.blocks 1).i = 1

/-- A step of a block, which changes no flag of the GPU and leaves the second block where it is. -/
theorem Unserved.of_block (hu : Unserved c s) {s' : State} (hhost : s'.host = s.host)
    (hgpu : s'.gpu_flag_buf = s.gpu_flag_buf) (hanswer : s'.cpu_flag_buf 1 = s.cpu_flag_buf 1 ∨ s'.cpu_flag_buf 1 = 1)
    (hblock : ((s'.blocks 1).pc = .start ∨ (s'.blocks 1).pc = .poll) ∧ (s'.blocks 1).i = 1) : Unserved c s' := by
  refine ⟨hhost ▸ hu.ok, hhost ▸ hu.i, hhost ▸ hu.pc, hhost ▸ hu.mode, hhost ▸ hu.idx, hgpu ▸ hu.flag, ?_, hblock⟩
  rcases hanswer with he | h1
  · rw [he]
    exact hu.answer
  · exact .inr h1

/-- The host does not see an answer of the second block. -/
theorem Unserved.no_answer (hu : Unserved c s) (hpc : s.host.pc = .answers) (hidx : s.host.cpu_flag_idx = 1) :
    s.cpu_flag_buf s.host.cpu_flag_idx ≠ s.host.expected := by
  rw [hidx, Host.expected, if_pos hpc, hu.i]
  rcases hu.answer with h0 | h1
  · rw [h0]
    decide
  · rw [h1]
    decide

theorem Unserved.hostLoad (hu : Unserved c s) (hn : c.Counts) (h2 : 2 ≤ c.num_blocks)
    (hpc : s.host.pc = .ready ∨ s.host.pc = .answers) :
    Unserved c { s with host := s.host.poll c (s.cpu_flag_buf s.host.cpu_flag_idx) } := by
  have hok : HostOk c (s.host.poll c (s.cpu_flag_buf s.host.cpu_flag_idx)) := hu.ok.poll hpc
  rcases poll_cases (c := c) s.host (s.cpu_flag_buf s.host.cpu_flag_idx) with ⟨-, he⟩ | ⟨hval, -,
    he⟩ | ⟨hval, hlast, he⟩
  all_goals rw [he] at hok ⊢
  · exact ⟨hok, hu.i, hu.pc, hu.mode, hu.idx, hu.flag, hu.answer, hu.block⟩
  · refine ⟨hok, hu.i, hu.pc, hu.mode, fun ha => ?_, hu.flag, hu.answer, hu.block⟩
    have ha : s.host.pc = .answers := ha
    have hne : s.host.cpu_flag_idx ≠ 1 := fun h1 => hu.no_answer ha h1 hval
    have hle := hu.idx ha
    show s.host.cpu_flag_idx + 1 ≤ 1
    omega
  · rcases hpc with hr | ha
    · have hi : s.host.i ≤ c.num_iters := hu.i ▸ one_le_iters hn
      cases hm : c.benchmark_mode with
      | CPU_PRODUCE_GPU_CONSUME =>
        have hans : Host.answered c { s.host with
              val := s.cpu_flag_buf s.host.cpu_flag_idx, cpu_flag_idx := s.host.cpu_flag_idx + 1 } =
            ⟨.produce, s.host.i, s.cpu_flag_buf s.host.cpu_flag_idx, s.host.cpu_flag_idx + 1⟩ := by
          simp [Host.answered, Host.enter, hm, hr, hi]
        rw [hans] at hok ⊢
        exact ⟨hok, hu.i, by simp, by simp, by simp, hu.flag, hu.answer, hu.block⟩
      | GPU_PRODUCE_CPU_CONSUME =>
        have hans : Host.answered c { s.host with
              val := s.cpu_flag_buf s.host.cpu_flag_idx, cpu_flag_idx := s.host.cpu_flag_idx + 1 } =
            ⟨.notify, s.host.i, s.cpu_flag_buf s.host.cpu_flag_idx, s.host.cpu_flag_idx + 1⟩ := by
          simp [Host.answered, hm, hr]
        rw [hans] at hok ⊢
        exact ⟨hok, hu.i, by simp, by simp, by simp, hu.flag, hu.answer, hu.block⟩
    · -- the last flag is not in front of that of the second block
      have hle := hu.idx ha
      exact absurd hval (hu.no_answer ha (by omega))

theorem Unserved.publish (hu : Unserved c s) (hn : c.Counts) (hpc : s.host.pc = .publish ∨ s.host.pc = .notify)
    {behind : Word} (hbehind : behind ≠ 1) :
    Unserved c { s with gpu_flag_buf := writeFlag c s.gpu_flag_buf s.host.val behind, host := s.host.published c } := by
  have hok : HostOk c (s.host.published c) := hu.ok.published hpc
  have hi : s.host.i ≤ c.num_iters := hu.i ▸ one_le_iters hn
  have hpub : s.host.published c = ⟨.answers, s.host.i, s.host.val, 0⟩ := by
    cases hm : c.benchmark_mode with
    | CPU_PRODUCE_GPU_CONSUME => simp [Host.published, hm]
    | GPU_PRODUCE_CPU_CONSUME =>
      rcases hpc with hp | hp
      · exact BenchmarkMode.noConfusion (hm.symm.trans (hu.mode hp))
      · simp [Host.published, Host.enter, hm, hp, hi]
  have hflag : writeFlag c s.gpu_flag_buf s.host.val behind 1 ≠ 1 := by
    unfold writeFlag
    cases c.gpu_flag_loc with
    | GPU =>
      dsimp only
      rwa [Function.update_self]
    | HOST =>
      dsimp only
      rw [Function.update_of_ne Nat.one_ne_zero]
      exact hu.flag
  rw [hpub] at hok ⊢
  exact ⟨hok, hu.i, by simp, by simp, fun _ => Nat.zero_le 1, hflag, hu.answer, hu.block⟩

theorem Unserved.step (hu : Unserved c s) (hn : c.Counts) (h2 : 2 ≤ c.num_blocks) {o : Op} {s' : State}
    (ho : ∀ val, o ≠ .publish val 1) (ht : Step c s o s') : Unserved c s' := by
  have hok' := hu.ok.step ht
  cases ht with
  | hostLoad hpc => exact hu.hostLoad hn h2 hpc
  | produce hpc =>
    have hm : c.benchmark_mode = .CPU_PRODUCE_GPU_CONSUME := by
      have hok := hu.ok
      generalize s.host = h at hok hpc
      cases hok with
      | produce hm _ => exact hm
      | _ => simp at hpc
    exact ⟨hok', hu.i, by simp, fun _ => hm, by simp, hu.flag, hu.answer, hu.block⟩
  | consume hpc => exact absurd hpc hu.pc.1
  | publish hpc => exact hu.publish hn hpc fun h1 => ho _ (by rw [h1])
  | @start b hb hpc =>
    by_cases h1 : b = 1
    · subst h1
      refine hu.of_block rfl rfl (.inr ?_) ?_
      · dsimp only
        rw [Function.update_self]
        exact hu.block.2
      · dsimp only
        rw [setBlock_self, started_poll hn hu.block.2]
        exact ⟨.inr rfl, hu.block.2⟩
    · refine hu.of_block rfl rfl (.inl (Function.update_of_ne (Ne.symm h1) _ _)) ?_
      dsimp only
      rw [setBlock_of_ne s _ (Ne.symm h1)]
      exact hu.block
  -- The second block polls the word behind the flag, which is not 1.
  | @load b hb hpc =>
    by_cases h1 : b = 1
    · subst h1
      refine hu.of_block rfl rfl (.inl rfl) ?_
      have hne : s.gpu_flag_buf 1 ≠ (s.blocks 1).i := by
        rw [hu.block.2]
        exact hu.flag
      rw [setBlock_self, load_ne hne]
      exact hu.block
    · refine hu.of_block rfl rfl (.inl rfl) ?_
      rw [setBlock_of_ne s _ (Ne.symm h1)]
      exact hu.block
  -- The second block has not got past its poll.
  | @touch b hb hpc =>
    have h1 : b ≠ 1 := by
      rintro rfl
      rcases hu.block.1 with hp | hp <;> simp [hpc] at hp
    refine hu.of_block rfl rfl (.inl rfl) ?_
    dsimp only
    rw [setBlock_of_ne s _ (Ne.symm h1)]
    exact hu.block
  | @answer b hb hpc =>
    have h1 : b ≠ 1 := by
      rintro rfl
      rcases hu.block.1 with hp | hp <;> simp [hpc] at hp
    refine hu.of_block rfl rfl (.inl (Function.update_of_ne (Ne.symm h1) _ _)) ?_
    dsimp only
    rw [setBlock_of_ne s _ (Ne.symm h1)]
    exact hu.block

/-- Unless the word behind the flag happens to be 1, the host never gets past the first round. -/
theorem second_block_unserved (hn : c.Counts) (h2 : 2 ≤ c.num_blocks)
    (h : Runs.Run (fun s => Launched c s ∧ s.gpu_flag_buf 1 ≠ 1)
      (Runs.only (fun _ o => ∀ val, o ≠ .publish val 1) (Step c)) s os) :
    s.host.i = 1 ∧ s.host.pc ≠ .done := by
  have hu : Unserved c s := by
    refine h.inv (Unserved c) (fun s hl => ?_) fun s o s' hu ht => hu.step hn h2 ht.1 ht.2
    obtain ⟨hl, hflag⟩ := hl
    have hpc := hl.pc
    exact ⟨hl.host_ok, hl.i, by simp [hpc], by simp [hpc], by simp [hpc], hflag, .inl (hl.cpu_flag_buf 1 h2),
      .inl (hl.blocks 1 h2).1, (hl.blocks 1 h2).2⟩
  exact ⟨hu.i, hu.pc.2⟩

/-- Every flag that is polled is inside the buffer and written in every round, no block enters a round that is not
published, the host waits for all answers and nobody waits forever: exactly with one block. -/
theorem handshake_iff (hn : c.Counts) : Handshake c ↔ c.num_blocks = 1 := by
  refine ⟨fun h => ?_, handshake_of_one hn⟩
  by_contra hne
  have hpos := c.blocks_pos
  exact not_handshake hn (by omega) h

/-- One block, where the word behind the flag is written too. -/
theorem handshake_one_block : Handshake ⟨.GPU_PRODUCE_CPU_CONSUME, .GPU, 1000, 1, 1024,
    4096, by decide, by decide, by decide, by decide, by decide⟩ :=
  (handshake_iff ⟨by decide, by decide⟩).2 rfl

/-- Two blocks, one round, one word of data. -/
def twoBlocks : Options := ⟨.CPU_PRODUCE_GPU_CONSUME, .HOST, 1, 2, 1,
    4, by decide, by decide, by decide, by decide, by decide⟩

theorem two_blocks_deadlock : ¬ Handshake twoBlocks ∧ ∃ s os, Run twoBlocks s os ∧ Deadlock twoBlocks s := by
  refine ⟨not_handshake ⟨by decide, by decide⟩ (by decide), ?_⟩
  have h := (Runs.Run.start (launch_launched twoBlocks) : Run twoBlocks launch [])
  have h := h.next (@Step.start twoBlocks _ 0 (by decide) rfl)
  have h := h.next (@Step.start twoBlocks _ 1 (by decide) rfl)
  have h := h.next (@Step.hostLoad twoBlocks _ (by decide +kernel))
  have h := h.next (@Step.hostLoad twoBlocks _ (by decide +kernel))
  have h := h.next (@Step.produce twoBlocks _ (by decide +kernel))
  have h := h.next (@Step.publish twoBlocks _ 0 (by decide +kernel))
  have h := h.next (@Step.load twoBlocks _ 0 (by decide) (by decide +kernel))
  have h := h.next (@Step.touch twoBlocks _ 0 (by decide) (by decide +kernel))
  have h := h.next (@Step.touch twoBlocks _ 0 (by decide) (by decide +kernel))
  have h := h.next (@Step.answer twoBlocks _ 0 (by decide) (by decide +kernel))
  have h := h.next (@Step.hostLoad twoBlocks _ (by decide +kernel))
  refine ⟨_, _, h, ⟨by decide +kernel, by decide +kernel⟩, fun b hb => ?_⟩
  have hb : b = 0 ∨ b = 1 := by
    have : b < 2 := hb
    omega
  rcases hb with rfl | rfl
  · exact .inl (by decide +kernel)
  · exact .inr ⟨by decide +kernel, by decide +kernel⟩

end pplat
