import GdrCopy.Tools.Pingpong
/-!
# One block in lockstep

With one block the host and the block answer each other: at any time exactly one of them
has something to do (`Lockstep`). With more the flag of the second block is not inside
the buffer, and the host does not write it (`handshake_iff`, `second_block_unserved`).
-/

namespace pplat

variable {c : Options}

/-- The rounds and the answer to the last one are words that are not 0. -/
def Options.Counts (c : Options) : Prop := 1 ≤ c.num_iters.toNat ∧ c.num_iters.toNat < 2 ^ 32 - 1

section
variable {i : Word}

theorem succ_ne (i : Word) : i + 1 ≠ i := by
  intro h
  have h := congrArg BitVec.toNat h
  rw [BitVec.toNat_add] at h
  have hlt := i.isLt
  have hone : (1 : Word).toNat = 1 := rfl
  omega

/-- A round of the host does not overflow. -/
theorem succ_toNat (hn : c.Counts) (hi : i ≤ c.num_iters) : (i + 1).toNat = i.toNat + 1 := by
  have hle : i.toNat ≤ c.num_iters.toNat := hi
  have hlt := hn.2
  have hone : (1 : Word).toNat = 1 := rfl
  rw [BitVec.toNat_add, hone, Nat.mod_eq_of_lt]
  omega

theorem succ_ne_zero (hn : c.Counts) (hi : i ≤ c.num_iters) : i + 1 ≠ 0 := by
  intro h
  have h := congrArg BitVec.toNat h
  rw [succ_toNat hn hi] at h
  exact absurd h (Nat.succ_ne_zero _)

theorem succ_le_succ (hn : c.Counts) (hi : i ≤ c.num_iters) : i + 1 ≤ c.num_iters + 1 := by
  rw [BitVec.le_def, succ_toNat hn hi, succ_toNat hn (BitVec.le_refl _)]
  exact Nat.succ_le_succ hi

theorem one_le_iters (hn : c.Counts) : (1 : Word) ≤ c.num_iters := hn.1

end

/-! ## The host -/

/-- What the host knows at each place, for any number of blocks. -/
inductive HostOk (c : Options) : Host → Prop
  | ready {val idx} : idx < c.num_blocks → HostOk c ⟨.ready, 1, val, idx⟩
  | produce {i idx} : c.benchmark_mode = .CPU_PRODUCE_GPU_CONSUME → i ≤ c.num_iters → HostOk c ⟨.produce, i, i, idx⟩
  | offer {i idx} : c.benchmark_mode = .CPU_PRODUCE_GPU_CONSUME → i ≤ c.num_iters → HostOk c ⟨.publish, i, i, idx⟩
  | notify {idx} : c.benchmark_mode = .GPU_PRODUCE_CPU_CONSUME → HostOk c ⟨.notify, 1, 1, idx⟩
  | consume {i idx} : c.benchmark_mode = .GPU_PRODUCE_CPU_CONSUME → i ≤ c.num_iters → HostOk c ⟨.consume, i, i + 1, idx⟩
  | request {i idx} : c.benchmark_mode = .GPU_PRODUCE_CPU_CONSUME → i ≤ c.num_iters → HostOk c ⟨.publish, i, i + 1, idx⟩
  | answers {i val idx} : i ≤ c.num_iters → idx < c.num_blocks → HostOk c ⟨.answers, i, val, idx⟩
  | done {i val idx} : HostOk c ⟨.done, i, val, idx⟩

section
variable {h : Host} {val : Word}

theorem HostOk.of_enter (hval : h.val = h.i) : HostOk c (h.enter c) := by
  obtain ⟨pc, i, val, idx⟩ := h
  obtain rfl : val = i := hval
  unfold Host.enter
  by_cases hi : val ≤ c.num_iters
  · rw [if_pos hi]
    cases hm : c.benchmark_mode with
    | CPU_PRODUCE_GPU_CONSUME => exact .produce hm hi
    | GPU_PRODUCE_CPU_CONSUME => exact .answers hi c.blocks_pos
  · rw [if_neg hi]
    exact .done

/-- One load of the host, which stays where it is unless it has seen the last flag. -/
theorem poll_cases (h : Host) (val : Word) :
    (val ≠ h.expected ∧ h.poll c val = { h with val := val }) ∨
      (val = h.expected ∧ h.cpu_flag_idx + 1 < c.num_blocks ∧
        h.poll c val = { h with val := val, cpu_flag_idx := h.cpu_flag_idx + 1 }) ∨
      (val = h.expected ∧ ¬ h.cpu_flag_idx + 1 < c.num_blocks ∧
        h.poll c val = { h with val := val, cpu_flag_idx := h.cpu_flag_idx + 1 }.answered c) := by
  unfold Host.poll
  by_cases hval : val = h.expected
  · by_cases hidx : h.cpu_flag_idx + 1 < c.num_blocks
    · exact .inr (.inl ⟨hval, hidx, by rw [if_pos hval, if_pos hidx]⟩)
    · exact .inr (.inr ⟨hval, hidx, by rw [if_pos hval, if_neg hidx]⟩)
  · exact .inl ⟨hval, by rw [if_neg hval]⟩

theorem HostOk.poll (hok : HostOk c h) (hpc : h.pc = .ready ∨ h.pc = .answers) : HostOk c (h.poll c val) := by
  rcases poll_cases (c := c) h val with ⟨-, he⟩ | ⟨-, hidx, he⟩ | ⟨hval, -, he⟩
  all_goals rw [he]
  · cases hok with
    | ready hidx => exact .ready hidx
    | answers hi hidx => exact .answers hi hidx
    | _ => simp at hpc
  · cases hok with
    | ready _ => exact .ready hidx
    | answers hi _ => exact .answers hi hidx
    | _ => simp at hpc
  · unfold Host.answered
    cases hok with
    | ready _ =>
      obtain rfl : val = 1 := hval
      cases hm : c.benchmark_mode with
      | CPU_PRODUCE_GPU_CONSUME => exact .of_enter rfl
      | GPU_PRODUCE_CPU_CONSUME => exact .notify hm
    | answers hi _ =>
      obtain rfl := hval
      cases hm : c.benchmark_mode with
      | CPU_PRODUCE_GPU_CONSUME => exact .of_enter rfl
      | GPU_PRODUCE_CPU_CONSUME => exact .consume hm hi
    | _ => simp at hpc

theorem HostOk.published (hok : HostOk c h) (hpc : h.pc = .publish ∨ h.pc = .notify) : HostOk c (h.published c) := by
  unfold Host.published
  cases hok with
  | offer hm hi =>
    rw [hm]
    exact .answers hi c.blocks_pos
  | notify hm =>
    rw [hm]
    exact .of_enter rfl
  | request hm hi =>
    rw [hm]
    exact .of_enter rfl
  | _ => simp at hpc

theorem HostOk.copied (hok : HostOk c h) (hpc : h.pc = .produce ∨ h.pc = .consume) :
    HostOk c { h with pc := .publish } := by
  cases hok with
  | produce hm hi => exact .offer hm hi
  | consume hm hi => exact .request hm hi
  | _ => simp at hpc

end

theorem Launched.host_ok {s : State} (h : Launched c s) : HostOk c s.host := by
  have heq : s.host = ⟨.ready, 1, s.host.val, 0⟩ := by
    rw [← h.pc, ← h.i, ← h.cpu_flag_idx]
  rw [heq]
  exact .ready c.blocks_pos

theorem HostOk.step {s s' : State} {o : Op} (hok : HostOk c s.host) (ht : Step c s o s') : HostOk c s'.host := by
  cases ht with
  | hostLoad hpc => exact hok.poll hpc
  | produce hpc => exact hok.copied (.inl hpc)
  | consume hpc => exact hok.copied (.inr hpc)
  | publish hpc => exact hok.published hpc
  | _ => exact hok

theorem host_ok {s : State} {os : List Op} (h : Run c s os) : HostOk c s.host :=
  h.inv (fun s => HostOk c s.host) (fun _ hl => hl.host_ok) fun _ _ _ hok ht => hok.step ht

section
variable {h : Host}

@[simp] theorem enter_i (h : Host) : (h.enter c).i = h.i := by
  unfold Host.enter
  split_ifs
  · cases c.benchmark_mode <;> rfl
  · rfl

theorem enter_idx (ha : (h.enter c).pc = .answers) : (h.enter c).cpu_flag_idx = 0 := by
  unfold Host.enter at ha ⊢
  split_ifs at ha ⊢
  cases hm : c.benchmark_mode with
  | CPU_PRODUCE_GPU_CONSUME => simp [hm] at ha
  | GPU_PRODUCE_CPU_CONSUME => rfl

theorem answered_pc (h : Host) : (h.answered c).pc ≠ .answers := by
  unfold Host.answered
  cases hm : c.benchmark_mode with
  | CPU_PRODUCE_GPU_CONSUME =>
    unfold Host.enter
    dsimp only
    split_ifs <;> simp [hm]
  | GPU_PRODUCE_CPU_CONSUME =>
    dsimp only
    split_ifs <;> simp

/-- What is published is the round that is entered. -/
theorem published_answers (hok : HostOk c h) (hpc : h.pc = .publish ∨ h.pc = .notify)
    (ha : (h.published c).pc = .answers) :
    (h.published c).i = h.val ∧ (h.published c).cpu_flag_idx = 0 := by
  unfold Host.published at ha ⊢
  cases hok with
  | offer hm _ =>
    rw [hm]
    exact ⟨rfl, rfl⟩
  | notify hm =>
    rw [hm] at ha ⊢
    exact ⟨enter_i _, enter_idx ha⟩
  | request hm _ =>
    rw [hm] at ha ⊢
    exact ⟨enter_i _, enter_idx ha⟩
  | _ => simp at hpc

end

/-! ## What the operations record -/

theorem writeFlag_zero (buf : Nat → Word) (val behind : Word) : writeFlag c buf val behind 0 = val := by
  unfold writeFlag
  cases c.gpu_flag_loc with
  | GPU => exact (Function.update_of_ne Nat.zero_ne_one _ _).trans (Function.update_self _ _ _)
  | HOST => exact Function.update_self _ _ _

/-- Where the values come from that the parties see, for any number of blocks. -/
structure Recorded (c : Options) (s : State) (os : List Op) : Prop where
  stored : ∀ b < c.num_blocks, s.cpu_flag_buf b = 0 ∨ .store b (s.cpu_flag_buf b) ∈ os
  seen : s.host.pc = .answers → ∀ b < s.host.cpu_flag_idx, .store b (s.host.i + 1) ∈ os
  round : s.host.pc = .answers → ∃ behind, .publish s.host.i behind ∈ os
  /-- Block 0 waits for the first round, or its flag was published. -/
  flag : (s.gpu_flag_buf 0 = 0 ∧ ((s.blocks 0).pc = .start ∨ (s.blocks 0).pc = .poll) ∧ (s.blocks 0).i = 1) ∨
    ∃ behind, .publish (s.gpu_flag_buf 0) behind ∈ os

theorem Launched.recorded {s : State} (h : Launched c s) : Recorded c s [] := by
  obtain ⟨hstart, hi⟩ := h.blocks 0 c.blocks_pos
  refine ⟨fun b hb => .inl (h.cpu_flag_buf b hb), fun ha => ?_, fun ha => ?_, .inl ⟨h.gpu_flag_buf, .inl hstart, hi⟩⟩
  · exact HostAt.noConfusion (h.pc.symm.trans ha)
  · exact HostAt.noConfusion (h.pc.symm.trans ha)

section
variable {s s' : State} {os : List Op} {b : Nat}

/-- The flag that the host sees in a round was stored in answer to it. -/
theorem Recorded.answer (hr : Recorded c s os) (hn : c.Counts) (hi : s.host.i ≤ c.num_iters) (hb : b < c.num_blocks)
    (hval : s.cpu_flag_buf b = s.host.i + 1) : .store b (s.host.i + 1) ∈ os := by
  rcases hr.stored b hb with h0 | hmem
  · exact absurd (hval.symm.trans h0) (succ_ne_zero hn hi)
  · exact hval ▸ hmem

theorem HostOk.in_round {h : Host} (hok : HostOk c h) (ha : h.pc = .answers) : h.i ≤ c.num_iters := by
  cases hok with
  | answers hi _ => exact hi
  | _ => simp at ha

theorem HostOk.idx_lt {h : Host} (hok : HostOk c h) (hpc : h.pc = .ready ∨ h.pc = .answers) :
    h.cpu_flag_idx < c.num_blocks := by
  cases hok with
  | ready hidx => exact hidx
  | answers _ hidx => exact hidx
  | _ => simp at hpc

/-- A step that leaves the host where it is and the flags of the GPU alone. -/
theorem Recorded.quiet (hr : Recorded c s os) (o : Op) (hhost : s'.host = s.host)
    (hgpu : s'.gpu_flag_buf = s.gpu_flag_buf)
    (hstored : ∀ b < c.num_blocks, s'.cpu_flag_buf b = s.cpu_flag_buf b ∨ o = .store b (s'.cpu_flag_buf b))
    (hblock : s.gpu_flag_buf 0 = 0 → ((s.blocks 0).pc = .start ∨ (s.blocks 0).pc = .poll) → (s.blocks 0).i = 1 →
      ((s'.blocks 0).pc = .start ∨ (s'.blocks 0).pc = .poll) ∧ (s'.blocks 0).i = 1) : Recorded c s' (os ++ [o]) := by
  refine ⟨fun b hb => ?_, fun ha b hb => ?_, fun ha => ?_, ?_⟩
  · rcases hstored b hb with he | rfl
    · rw [he]
      exact (hr.stored b hb).imp_right (List.mem_append_left _)
    · exact .inr List.mem_concat_self
  · rw [hhost] at ha hb ⊢
    exact List.mem_append_left _ (hr.seen ha b hb)
  · rw [hhost] at ha ⊢
    obtain ⟨behind, hmem⟩ := hr.round ha
    exact ⟨behind, List.mem_append_left _ hmem⟩
  · rw [hgpu]
    rcases hr.flag with ⟨h0, hpc, hi⟩ | ⟨behind, hmem⟩
    · exact .inl ⟨h0, hblock h0 hpc hi⟩
    · exact .inr ⟨behind, List.mem_append_left _ hmem⟩

/-- The host goes on to another place only behind a flag that is what it waits for. -/
theorem Recorded.hostLoad (hr : Recorded c s os) (hn : c.Counts) (hok : HostOk c s.host) (o : Op) :
    Recorded c { s with host := s.host.poll c (s.cpu_flag_buf s.host.cpu_flag_idx) } (os ++ [o]) := by
  refine ⟨fun b hb => (hr.stored b hb).imp_right (List.mem_append_left _), fun ha b hb => ?_, fun ha => ?_, ?_⟩
  · dsimp only at ha hb ⊢
    refine List.mem_append_left _ ?_
    rcases poll_cases (c := c) s.host (s.cpu_flag_buf s.host.cpu_flag_idx) with ⟨-, he⟩ | ⟨hval, -, he⟩ | ⟨-, -, he⟩
    all_goals rw [he] at ha hb ⊢
    · exact hr.seen ha b hb
    · have hpc : s.host.pc = .answers := ha
      rcases Nat.lt_succ_iff_lt_or_eq.1 hb with hlt | rfl
      · exact hr.seen ha b hlt
      · rw [Host.expected, if_pos hpc] at hval
        exact hr.answer hn (hok.in_round hpc) (hok.idx_lt (.inr hpc)) hval
    · exact absurd ha (answered_pc _)
  · dsimp only at ha ⊢
    rcases poll_cases (c := c) s.host (s.cpu_flag_buf s.host.cpu_flag_idx) with ⟨-, he⟩ | ⟨-, -, he⟩ | ⟨-, -, he⟩
    all_goals rw [he] at ha ⊢
    · obtain ⟨behind, hmem⟩ := hr.round ha
      exact ⟨behind, List.mem_append_left _ hmem⟩
    · obtain ⟨behind, hmem⟩ := hr.round ha
      exact ⟨behind, List.mem_append_left _ hmem⟩
    · exact absurd ha (answered_pc _)
  · exact hr.flag.imp_right fun ⟨behind, hmem⟩ => ⟨behind, List.mem_append_left _ hmem⟩

theorem Recorded.publish (hr : Recorded c s os) (hok : HostOk c s.host)
    (hpc : s.host.pc = .publish ∨ s.host.pc = .notify) (behind : Word) :
    Recorded c { s with gpu_flag_buf := writeFlag c s.gpu_flag_buf s.host.val behind, host := s.host.published c }
      (os ++ [.publish s.host.val behind]) := by
  refine ⟨fun b hb => (hr.stored b hb).imp_right (List.mem_append_left _), fun ha b hb => ?_, fun ha => ?_,
    .inr ⟨behind, ?_⟩⟩
  · dsimp only at ha hb
    rw [(published_answers hok hpc ha).2] at hb
    exact absurd hb (Nat.not_lt_zero b)
  · dsimp only at ha ⊢
    rw [(published_answers hok hpc ha).1]
    exact ⟨behind, List.mem_concat_self⟩
  · dsimp only
    rw [writeFlag_zero]
    exact List.mem_concat_self

/-- A copy of the data leaves the flags alone, and the host is not in a loop behind it. -/
theorem Recorded.copied (hr : Recorded c s os) (hblocks : s'.blocks = s.blocks)
    (hcpu : s'.cpu_flag_buf = s.cpu_flag_buf) (hgpu : s'.gpu_flag_buf = s.gpu_flag_buf)
    (hpc : s'.host.pc = .publish) : Recorded c s' (os ++ [.hostCopy]) := by
  refine ⟨fun b hb => ?_, fun ha => ?_, fun ha => ?_, ?_⟩
  · rw [hcpu]
    exact (hr.stored b hb).imp_right (List.mem_append_left _)
  · exact HostAt.noConfusion (hpc.symm.trans ha)
  · exact HostAt.noConfusion (hpc.symm.trans ha)
  · rw [hgpu, hblocks]
    exact hr.flag.imp_right fun ⟨behind, hmem⟩ => ⟨behind, List.mem_append_left _ hmem⟩

theorem stored_update (buf : Nat → Word) (b b' : Nat) (val : Word) :
    Function.update buf b val b' = buf b' ∨ Op.store b val = .store b' (Function.update buf b val b') := by
  by_cases hb : b' = b
  · subst hb
    exact .inr (by rw [Function.update_self])
  · exact .inl (Function.update_of_ne hb _ _)

@[simp] theorem setBlock_self (s : State) (b : Nat) (k : Block) : (s.setBlock b k).blocks b = k := by
  exact Function.update_self b k s.blocks

theorem setBlock_of_ne (s : State) (k : Block) {b b' : Nat} (h : b' ≠ b) :
    (s.setBlock b k).blocks b' = s.blocks b' := by
  exact Function.update_of_ne h k s.blocks

/-- Before the first round the only block that a step can change block 0 into is one that polls for it. -/
theorem setBlock_waiting {k : Block} (hold : (s.blocks 0).pc = .start ∨ (s.blocks 0).pc = .poll)
    (hi : (s.blocks 0).i = 1) (hk : b = 0 → (k.pc = .start ∨ k.pc = .poll) ∧ k.i = 1) :
    (((s.setBlock b k).blocks 0).pc = .start ∨ ((s.setBlock b k).blocks 0).pc = .poll) ∧
    ((s.setBlock b k).blocks 0).i = 1 := by
  by_cases hb : b = 0
  · subst hb
    rw [setBlock_self]
    exact hk rfl
  · rw [setBlock_of_ne s k (Ne.symm hb)]
    exact ⟨hold, hi⟩

theorem started_poll (hn : c.Counts) {k : Block} (hi : k.i = 1) (b : Nat) : k.started c b = { k with pc := .poll } := by
  unfold Block.started Block.check
  cases c.benchmark_mode with
  | CPU_PRODUCE_GPU_CONSUME => exact if_pos (hi ▸ one_le_iters hn)
  | GPU_PRODUCE_CPU_CONSUME => rfl

theorem check_consume (hm : c.benchmark_mode = .CPU_PRODUCE_GPU_CONSUME) (b : Nat) (k : Block) :
    k.check c b = if k.i ≤ c.num_iters then { k with pc := .poll } else { k with pc := .finished } := by
  unfold Block.check
  rw [hm]

theorem check_produce (hm : c.benchmark_mode = .GPU_PRODUCE_CPU_CONSUME) (b : Nat) (k : Block) :
    k.check c b = if k.i ≤ c.num_iters + 1 then { k with pc := .data, flag_val := k.flag_val + 1, idx := c.my_tid b }
      else { k with pc := .finished } := by
  unfold Block.check
  rw [hm]

theorem load_ne {k : Block} {val : Word} (h : val ≠ k.i) (b : Nat) :
    k.load c b val = { k with flag_val := val } := if_neg h

/-- A load that sees the round it waits for starts the pass over the data. -/
theorem load_eq (hn : c.Counts) {k : Block} (hle : k.i ≤ c.num_iters) (b : Nat) : k.load c b k.i =
    match c.benchmark_mode with
    | .CPU_PRODUCE_GPU_CONSUME => { k with pc := .data, flag_val := k.i, idx := c.my_tid b }
    | .GPU_PRODUCE_CPU_CONSUME => ⟨.data, k.i + 1, k.i + 1, c.my_tid b⟩ := by
  rw [Block.load, if_pos rfl]
  cases hm : c.benchmark_mode with
  | CPU_PRODUCE_GPU_CONSUME => rfl
  | GPU_PRODUCE_CPU_CONSUME =>
    have hnext : k.i + 1 ≤ c.num_iters + 1 := succ_le_succ hn hle
    dsimp only
    rw [check_produce hm, if_pos hnext]

theorem Recorded.step {o : Op} (hr : Recorded c s os) (hn : c.Counts) (hok : HostOk c s.host) (ht : Step c s o s') :
    Recorded c s' (os ++ [o]) := by
  cases ht with
  | hostLoad _ => exact hr.hostLoad hn hok _
  | produce _ => exact hr.copied rfl rfl rfl rfl
  | consume _ => exact hr.copied rfl rfl rfl rfl
  | publish hpc => exact hr.publish hok hpc _
  | @start b _ _ =>
    refine hr.quiet _ rfl rfl (fun b' _ => stored_update _ _ _ _) fun _ hold hi => setBlock_waiting hold hi ?_
    rintro rfl
    rw [started_poll hn hi]
    exact ⟨.inr rfl, hi⟩
  | @load b _ hpc =>
    refine hr.quiet _ rfl rfl (fun b' _ => .inl rfl) fun h0 hold hi => setBlock_waiting hold hi ?_
    rintro rfl
    have hne : s.gpu_flag_buf 0 ≠ (s.blocks 0).i := by
      rw [h0, hi]
      decide
    rw [load_ne hne]
    exact ⟨.inr hpc, hi⟩
  | @touch b _ hpc =>
    refine hr.quiet _ rfl rfl (fun b' _ => .inl rfl) fun _ hold hi => setBlock_waiting hold hi ?_
    rintro rfl
    rw [hpc] at hold
    simp at hold
  | @answer b _ hpc =>
    refine hr.quiet _ rfl rfl (fun b' _ => stored_update _ _ _ _) fun _ hold hi => setBlock_waiting hold hi ?_
    rintro rfl
    rw [hpc] at hold
    simp at hold

theorem recorded (hn : c.Counts) (h : Run c s os) : Recorded c s os := by
  induction h with
  | start hl => exact hl.recorded
  | next hr ht ih => exact ih.step hn (host_ok hr) ht

end

/-! ## One block -/

/-- The data is zero, so that reading it changes no flag. -/
structure Zero (c : Options) (s : State) : Prop where
  A : ∀ j < c.num_elements, s.A j = 0
  init_buf : ∀ j < c.num_elements, s.init_buf j = 0

theorem zero {s : State} {os : List Op} (h : Run c s os) : Zero c s := by
  refine h.inv (Zero c) (fun s hl => ⟨hl.A, hl.init_buf⟩) fun s o s' hz ht => ?_
  cases ht with
  | produce _ => exact ⟨fun j hj => (if_pos hj).trans (hz.init_buf j hj), hz.init_buf⟩
  | consume _ => exact ⟨hz.A, fun j hj => (if_pos hj).trans (hz.A j hj)⟩
  | @touch b _ _ =>
    refine ⟨fun j hj => ?_, hz.init_buf⟩
    dsimp only [touchData]
    cases c.benchmark_mode with
    | CPU_PRODUCE_GPU_CONSUME => exact hz.A j hj
    | GPU_PRODUCE_CPU_CONSUME =>
      dsimp only
      split_ifs with hidx
      · by_cases he : j = (s.blocks b).idx
        · rw [he, Function.update_self]
        · rw [Function.update_of_ne he]
          exact hz.A j hj
      · exact hz.A j hj
  | _ => exact ⟨hz.A, hz.init_buf⟩

/-- The host, the two flags and the block. Up to `turn` the block waits for the host, in `asked` and `working`
the host for the block. -/
inductive Lockstep (c : Options) (h : Host) (gpu cpu : Word) (k : Block) : Prop
  | boot : h.pc = .ready → h.i = 1 → gpu = 0 → cpu = 0 → k.pc = .start → k.i = 1 → Lockstep c h gpu cpu k
  | ready : h.pc = .ready → h.i = 1 → gpu = 0 → cpu = 1 → k.pc = .poll → k.i = 1 → Lockstep c h gpu cpu k
  | turn : h.pc = .produce ∨ h.pc = .consume ∨ h.pc = .publish ∨ h.pc = .notify → h.val = gpu + 1 → cpu = gpu + 1 →
    k.pc = .poll → k.i = gpu + 1 → Lockstep c h gpu cpu k
  | asked : h.pc = .answers → gpu = h.i → cpu = h.i → k.pc = .poll → k.i = h.i → Lockstep c h gpu cpu k
  | working : h.pc = .answers → gpu = h.i → cpu = h.i → k.pc = .data ∨ k.pc = .answer → k.answer c = h.i + 1 →
    k.i = (match c.benchmark_mode with | .CPU_PRODUCE_GPU_CONSUME => h.i | .GPU_PRODUCE_CPU_CONSUME => h.i + 1) →
    Lockstep c h gpu cpu k
  | answered : h.pc = .answers → gpu = h.i → cpu = h.i + 1 →
    (k.pc = .poll ∧ k.i = h.i + 1) ∨ (c.benchmark_mode = .CPU_PRODUCE_GPU_CONSUME ∧ k.pc = .finished ∧
    h.i = c.num_iters) → Lockstep c h gpu cpu k
  | done : h.pc = .done → Lockstep c h gpu cpu k

section
variable {h : Host} {gpu cpu : Word} {k : Block}

/-! ### Who can go on -/

theorem Lockstep.turn_inv (hl : Lockstep c h gpu cpu k)
    (hpc : h.pc = .produce ∨ h.pc = .consume ∨ h.pc = .publish ∨ h.pc = .notify) :
    h.val = gpu + 1 ∧ cpu = gpu + 1 ∧ k.pc = .poll ∧ k.i = gpu + 1 := by
  cases hl with
  | boot hr => simp [hr] at hpc
  | ready hr => simp [hr] at hpc
  | turn _ hval hcpu hk hki => exact ⟨hval, hcpu, hk, hki⟩
  | asked ha => simp [ha] at hpc
  | working ha => simp [ha] at hpc
  | answered ha => simp [ha] at hpc
  | done hd => simp [hd] at hpc

theorem Lockstep.start_inv (hl : Lockstep c h gpu cpu k) (hpc : k.pc = .start) (hd : h.pc ≠ .done) :
    h.pc = .ready ∧ h.i = 1 ∧ gpu = 0 ∧ k.i = 1 := by
  cases hl with
  | boot hr hi hgpu _ _ hki => exact ⟨hr, hi, hgpu, hki⟩
  | ready _ _ _ _ hk => simp [hpc] at hk
  | turn _ _ _ hk => simp [hpc] at hk
  | asked _ _ _ hk => simp [hpc] at hk
  | working _ _ _ hk => simp [hpc] at hk
  | answered _ _ _ hk => simp [hpc] at hk
  | done h => exact absurd h hd

/-- A block that sees the round it waits for has been asked. -/
theorem Lockstep.asked_inv (hl : Lockstep c h gpu cpu k) (hpc : k.pc = .poll) (hval : gpu = k.i) (hd : h.pc ≠ .done) :
    h.pc = .answers ∧ cpu = h.i ∧ k.i = h.i := by
  cases hl with
  | boot _ _ _ _ hk => simp [hpc] at hk
  | ready _ _ hgpu _ _ hki =>
    rw [hgpu, hki] at hval
    exact absurd hval (by decide)
  | turn _ _ _ _ hki => exact absurd (hki.symm.trans hval.symm) (succ_ne _)
  | asked ha _ hcpu _ hki => exact ⟨ha, hcpu, hki⟩
  | working _ _ _ hk => simp [hpc] at hk
  | answered _ hgpu _ hk =>
    rcases hk with ⟨-, hki⟩ | ⟨-, hfin, -⟩
    · rw [hgpu, hki] at hval
      exact absurd hval.symm (succ_ne _)
    · simp [hpc] at hfin
  | done h => exact absurd h hd

/-- A block that works does so in a round, for its answer to it. -/
theorem Lockstep.working_inv (hl : Lockstep c h gpu cpu k) (hpc : k.pc = .data ∨ k.pc = .answer) (hd : h.pc ≠ .done) :
    h.pc = .answers ∧ gpu = h.i ∧ cpu = h.i ∧ k.answer c = h.i + 1 ∧
      k.i = (match c.benchmark_mode with | .CPU_PRODUCE_GPU_CONSUME => h.i | .GPU_PRODUCE_CPU_CONSUME => h.i + 1) := by
  cases hl with
  | boot _ _ _ _ hk => simp [hk] at hpc
  | ready _ _ _ _ hk => simp [hk] at hpc
  | turn _ _ _ hk => simp [hk] at hpc
  | asked _ _ _ hk => simp [hk] at hpc
  | working ha hgpu hcpu _ hans hki => exact ⟨ha, hgpu, hcpu, hans, hki⟩
  | answered _ _ _ hk => rcases hk with ⟨hk, -⟩ | ⟨-, hk, -⟩ <;> simp [hk] at hpc
  | done h => exact absurd h hd

/-- A host that sees the flag it waits for has been answered. -/
theorem Lockstep.answered_inv (hl : Lockstep c h gpu cpu k) (hpc : h.pc = .ready ∨ h.pc = .answers)
    (hval : cpu = h.expected) :
    (h.pc = .ready ∧ h.i = 1 ∧ gpu = 0 ∧ k.pc = .poll ∧ k.i = 1) ∨
      (h.pc = .answers ∧ gpu = h.i ∧
        ((k.pc = .poll ∧ k.i = h.i + 1) ∨ (c.benchmark_mode = .CPU_PRODUCE_GPU_CONSUME ∧ k.pc = .finished ∧
          h.i = c.num_iters))) := by
  unfold Host.expected at hval
  cases hl with
  | boot hr hi _ hcpu => simp [hr, hi, hcpu] at hval
  | ready hr hi hgpu _ hk hki => exact .inl ⟨hr, hi, hgpu, hk, hki⟩
  | turn ht => rcases hpc with hp | hp <;> simp [hp] at ht
  | asked ha _ hcpu =>
    rw [if_pos ha, hcpu] at hval
    exact absurd hval.symm (succ_ne _)
  | working ha _ hcpu =>
    rw [if_pos ha, hcpu] at hval
    exact absurd hval.symm (succ_ne _)
  | answered ha hgpu _ hk => exact .inr ⟨ha, hgpu, hk⟩
  | done hd => simp [hd] at hpc

/-! ### One step -/

/-- With the next round to come, the host is in front of its write, in the mode where it waits before it publishes. -/
theorem Lockstep.of_enter_turn (hm : c.benchmark_mode = .CPU_PRODUCE_GPU_CONSUME) (hval : h.val = h.i)
    (hi : h.i = gpu + 1) (hcpu : cpu = gpu + 1) (hk : h.i ≤ c.num_iters → k.pc = .poll ∧ k.i = gpu + 1) :
    Lockstep c (h.enter c) gpu cpu k := by
  unfold Host.enter
  by_cases hle : h.i ≤ c.num_iters
  · rw [if_pos hle, hm]
    exact .turn (.inl rfl) (hval.trans hi) hcpu (hk hle).1 (hk hle).2
  · rw [if_neg hle]
    exact .done rfl

/-- In the other mode it waits for the answers to what it has published. -/
theorem Lockstep.of_enter_asked (hm : c.benchmark_mode = .GPU_PRODUCE_CPU_CONSUME) (hgpu : gpu = h.i)
    (hcpu : cpu = h.i) (hpc : k.pc = .poll) (hk : k.i = h.i) : Lockstep c (h.enter c) gpu cpu k := by
  unfold Host.enter
  by_cases hle : h.i ≤ c.num_iters
  · rw [if_pos hle, hm]
    exact .asked rfl hgpu hcpu hpc hk
  · rw [if_neg hle]
    exact .done rfl

/-- A wait of the host that goes on. -/
theorem Lockstep.spin (hl : Lockstep c h gpu cpu k) (val : Word) (hpc : h.pc = .ready ∨ h.pc = .answers) :
    Lockstep c { h with val := val } gpu cpu k := by
  cases hl with
  | boot h1 h2 h3 h4 h5 h6 => exact .boot h1 h2 h3 h4 h5 h6
  | ready h1 h2 h3 h4 h5 h6 => exact .ready h1 h2 h3 h4 h5 h6
  | turn h1 => rcases hpc with hp | hp <;> simp [hp] at h1
  | asked h1 h2 h3 h4 h5 => exact .asked h1 h2 h3 h4 h5
  | working h1 h2 h3 h4 h5 h6 => exact .working h1 h2 h3 h4 h5 h6
  | answered h1 h2 h3 h4 => exact .answered h1 h2 h3 h4
  | done h1 => exact .done h1

theorem Lockstep.hostLoad (hl : Lockstep c h gpu cpu k) (hn : c.Counts) (hpc : h.pc = .ready ∨ h.pc = .answers)
    (h1 : c.num_blocks = 1) :
    Lockstep c (h.poll c cpu) gpu cpu k := by
  rcases poll_cases (c := c) h cpu with ⟨-, he⟩ | ⟨-, hidx, -⟩ | ⟨hval, -, he⟩
  · rw [he]
    exact hl.spin cpu hpc
  · exact absurd hidx (by omega)
  rw [he]
  unfold Host.answered
  rcases hl.answered_inv hpc hval with ⟨hr, hi, rfl, hk, hki⟩ | ⟨ha, rfl, hk⟩
  · have hcpu : cpu = 1 := hval.trans (by simp [Host.expected, hr, hi])
    cases hm : c.benchmark_mode with
    | CPU_PRODUCE_GPU_CONSUME =>
      simp only [hr, reduceCtorEq, if_false]
      exact .of_enter_turn hm (hcpu.trans hi.symm) hi hcpu fun _ => ⟨hk, hki⟩
    | GPU_PRODUCE_CPU_CONSUME =>
      simp only [hr, reduceCtorEq, if_false]
      exact .turn (by simp) hcpu hcpu hk hki
  · have hcpu : cpu = h.i + 1 := hval.trans (if_pos ha)
    cases hm : c.benchmark_mode with
    | CPU_PRODUCE_GPU_CONSUME =>
      simp only [ha, if_true]
      refine .of_enter_turn hm rfl hcpu hcpu fun hle => ?_
      rcases hk with hk | ⟨-, -, hlast⟩
      · exact hk
      · -- the block finished in the last round, and there is none behind it
        have hle : cpu ≤ c.num_iters := hle
        rw [hcpu, BitVec.le_def, succ_toNat hn (hlast ▸ BitVec.le_refl _), hlast] at hle
        exact absurd hle (Nat.not_succ_le_self _)
    | GPU_PRODUCE_CPU_CONSUME =>
      simp only [ha, if_true]
      rcases hk with ⟨hk, hki⟩ | ⟨hmode, -⟩
      · exact .turn (by simp) hcpu hcpu hk hki
      · exact BenchmarkMode.noConfusion (hm.symm.trans hmode)

theorem Lockstep.copied (hl : Lockstep c h gpu cpu k) (hpc : h.pc = .produce ∨ h.pc = .consume) :
    Lockstep c { h with pc := .publish } gpu cpu k := by
  obtain ⟨hval, hcpu, hk, hki⟩ := hl.turn_inv (hpc.imp_right .inl)
  exact .turn (by simp) hval hcpu hk hki

theorem Lockstep.publish (hl : Lockstep c h gpu cpu k) (hok : HostOk c h) (hpc : h.pc = .publish ∨ h.pc = .notify) :
    Lockstep c (h.published c) h.val cpu k := by
  obtain ⟨hval, hcpu, hk, hki⟩ := hl.turn_inv (.inr (.inr hpc))
  rw [← hval] at hcpu hki
  unfold Host.published
  cases hok with
  | offer hm =>
    rw [hm]
    exact .asked rfl rfl hcpu hk hki
  | notify hm =>
    rw [hm]
    exact .of_enter_asked hm rfl hcpu hk hki
  | request hm =>
    rw [hm]
    exact .of_enter_asked hm rfl hcpu hk hki
  | _ => simp at hpc

theorem Lockstep.start (hl : Lockstep c h gpu cpu k) (hn : c.Counts) (hpc : k.pc = .start) :
    Lockstep c h gpu k.i (k.started c 0) := by
  by_cases hd : h.pc = .done
  · exact .done hd
  · obtain ⟨hr, hi, hgpu, hki⟩ := hl.start_inv hpc hd
    rw [started_poll hn hki]
    exact .ready hr hi hgpu hki rfl hki

/-- A poll that fails. -/
theorem Lockstep.load_spin (hl : Lockstep c h gpu cpu k) (hpc : k.pc = .poll) (val : Word) :
    Lockstep c h gpu cpu { k with flag_val := val } := by
  cases hl with
  | boot _ _ _ _ hk => simp [hpc] at hk
  | ready h1 h2 h3 h4 h5 h6 => exact .ready h1 h2 h3 h4 h5 h6
  | turn h1 h2 h3 h4 h5 => exact .turn h1 h2 h3 h4 h5
  | asked h1 h2 h3 h4 h5 => exact .asked h1 h2 h3 h4 h5
  | working _ _ _ hk => simp [hpc] at hk
  | answered h1 h2 h3 h4 => exact .answered h1 h2 h3 h4
  | done h1 => exact .done h1

theorem Lockstep.load (hl : Lockstep c h gpu cpu k) (hn : c.Counts) (hok : HostOk c h) (hpc : k.pc = .poll) :
    Lockstep c h gpu cpu (k.load c 0 gpu) := by
  by_cases hd : h.pc = .done
  · exact .done hd
  by_cases hval : gpu = k.i
  · obtain ⟨ha, hcpu, hki⟩ := hl.asked_inv hpc hval hd
    rw [hval, load_eq hn (hki ▸ hok.in_round ha)]
    cases hm : c.benchmark_mode with
    | CPU_PRODUCE_GPU_CONSUME =>
      exact .working ha hki hcpu (.inl rfl) (by simp [Block.answer, hm, hki]) (by rw [hm]; exact hki)
    | GPU_PRODUCE_CPU_CONSUME =>
      exact .working ha hki hcpu (.inl rfl) (by simp [Block.answer, hm, hki]) (by rw [hm]; exact congrArg (· + 1) hki)
  · rw [load_ne hval]
    exact hl.load_spin hpc gpu

theorem Lockstep.touch (hl : Lockstep c h gpu cpu k) (hpc : k.pc = .data) {elem : Word}
    (helem : k.idx < c.num_elements → elem = 0) :
    Lockstep c h gpu cpu (k.touch c elem) := by
  by_cases hd : h.pc = .done
  · exact .done hd
  obtain ⟨ha, hgpu, hcpu, hans, hki⟩ := hl.working_inv (.inl hpc) hd
  unfold Block.touch
  by_cases hidx : k.idx < c.num_elements
  · rw [if_pos hidx]
    unfold Block.answer at hans
    cases hm : c.benchmark_mode with
    | CPU_PRODUCE_GPU_CONSUME =>
      rw [hm] at hans hki
      refine .working ha hgpu hcpu (.inl hpc) ?_ (by rw [hm]; exact hki)
      unfold Block.answer
      rw [hm, helem hidx]
      exact (congrArg (· + 1) (BitVec.add_zero _)).trans hans
    | GPU_PRODUCE_CPU_CONSUME =>
      rw [hm] at hans hki
      refine .working ha hgpu hcpu (.inl hpc) ?_ (by rw [hm]; exact hki)
      unfold Block.answer
      rw [hm]
      exact hans
  · rw [if_neg hidx]
    exact .working ha hgpu hcpu (.inr rfl) hans hki

theorem Lockstep.answer (hl : Lockstep c h gpu cpu k) (hn : c.Counts) (hok : HostOk c h) (hpc : k.pc = .answer) :
    Lockstep c h gpu (k.answer c) (k.answered c 0) := by
  by_cases hd : h.pc = .done
  · exact .done hd
  obtain ⟨ha, hgpu, -, hans, hki⟩ := hl.working_inv (.inr hpc) hd
  have hle := hok.in_round ha
  refine .answered ha hgpu hans ?_
  unfold Block.answered
  cases hm : c.benchmark_mode with
  | CPU_PRODUCE_GPU_CONSUME =>
    rw [hm] at hki
    have hki : k.i = h.i := hki
    dsimp only
    rw [check_consume hm]
    by_cases hnext : k.i + 1 ≤ c.num_iters
    · rw [if_pos hnext]
      exact .inl ⟨rfl, congrArg (· + 1) hki⟩
    · rw [if_neg hnext]
      refine .inr ⟨rfl, rfl, BitVec.eq_of_toNat_eq ?_⟩
      rw [hki, BitVec.le_def, succ_toNat hn hle] at hnext
      exact Nat.le_antisymm hle (Nat.le_of_not_lt hnext)
  | GPU_PRODUCE_CPU_CONSUME =>
    rw [hm] at hki
    exact .inl ⟨rfl, hki⟩

end

/-- The only block and the host, in any order of steps. -/
theorem lockstep {s : State} {os : List Op} (hn : c.Counts) (h1 : c.num_blocks = 1) (h : Run c s os) :
    Lockstep c s.host (s.gpu_flag_buf 0) (s.cpu_flag_buf 0) (s.blocks 0) := by
  refine h.inv_of (fun s => HostOk c s.host ∧
    Zero c s) (fun s => Lockstep c s.host (s.gpu_flag_buf 0) (s.cpu_flag_buf 0) (s.blocks 0))
    (fun _ _ h => ⟨host_ok h, zero h⟩) (fun s hl => ?_) fun s o s' ⟨hok, hz⟩ hl ht => ?_
  · obtain ⟨hpc, hi⟩ := hl.blocks 0 c.blocks_pos
    exact .boot hl.pc hl.i hl.gpu_flag_buf (hl.cpu_flag_buf 0 c.blocks_pos) hpc hi
  have hzero {b : Nat} (hb : b < c.num_blocks) : b = 0 := by omega
  cases ht with
  | hostLoad hpc =>
    have hidx : s.host.cpu_flag_idx = 0 := hzero (hok.idx_lt hpc)
    rw [hidx]
    exact hl.hostLoad hn hpc h1
  | produce hpc => exact hl.copied (.inl hpc)
  | consume hpc => exact hl.copied (.inr hpc)
  | publish hpc =>
    dsimp only
    rw [writeFlag_zero]
    exact hl.publish hok hpc
  | start hb hpc =>
    obtain rfl := hzero hb
    dsimp only
    rw [setBlock_self, Function.update_self]
    exact hl.start hn hpc
  | load hb hpc =>
    obtain rfl := hzero hb
    rw [setBlock_self]
    exact hl.load hn hok hpc
  | touch hb hpc =>
    obtain rfl := hzero hb
    dsimp only
    rw [setBlock_self]
    exact hl.touch hpc fun hidx => hz.A _ hidx
  | answer hb hpc =>
    obtain rfl := hzero hb
    dsimp only
    rw [setBlock_self, Function.update_self]
    exact hl.answer hn hok hpc

end pplat
