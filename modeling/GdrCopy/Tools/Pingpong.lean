import GdrCopy.Lib.Runs
import Mathlib.Algebra.Ring.Nat
import Mathlib.Logic.Function.Basic
/-!
# The handshake of pplat

`pplat` with data. The host and the blocks of a kernel take turns through two arrays of
flags: the host publishes a round in `gpu_flag_buf`, and every block answers it in
`cpu_flag_buf`. Of each block only thread 0 is modelled, the others do not touch the
flags. `check_timeout`, which ends the program after some seconds, is left out.
-/

namespace pplat

/-- `uint32_t`. -/
abbrev Word := BitVec 32

inductive MemLoc where
  | GPU
  | HOST
  deriving DecidableEq, Repr

inductive BenchmarkMode where
  | CPU_PRODUCE_GPU_CONSUME
  | GPU_PRODUCE_CPU_CONSUME
  deriving DecidableEq, Repr

/-- Options that pass the checks of `main`, with data. -/
structure Options where
  benchmark_mode : BenchmarkMode
  gpu_flag_loc : MemLoc
  num_iters : Word
  num_blocks : Nat
  num_threads_per_block : Nat
  data_size : Nat
  blocks_pos : 0 < num_blocks
  threads_pos : 0 < num_threads_per_block
  threads_lt : num_threads_per_block < 2 ^ 32
  data_pos : 0 < data_size
  data_dvd : 4 ∣ data_size

/-- The size of `gpu_flag_mhandle`, `sizeof(uint32_t)`. -/
def gpuFlagSize : Nat := 4

/-! ## The host -/

/-- Where the host is. `notify` is its first write to the flag in the mode where the GPU produces. -/
inductive HostAt where
  | ready
  | produce
  | publish
  | notify
  | answers
  | consume
  | done
  deriving DecidableEq, Repr

structure Host where
  pc : HostAt
  i : Word
  val : Word
  cpu_flag_idx : Nat
  deriving DecidableEq, Repr

variable (c : Options)

/-- `while (i <= num_iters)`. -/
def Host.enter (h : Host) : Host :=
  if h.i ≤ c.num_iters then
    match c.benchmark_mode with
    | .CPU_PRODUCE_GPU_CONSUME => { h with pc := .produce }
    | .GPU_PRODUCE_CPU_CONSUME => { h with pc := .answers, cpu_flag_idx := 0 }
  else { h with pc := .done }

/-- What a loop over the flags of the blocks waits for. -/
def Host.expected (h : Host) : Word := if h.pc = .answers then h.i + 1 else h.i

/-- Behind such a loop. -/
def Host.answered (h : Host) : Host :=
  match c.benchmark_mode with
  | .CPU_PRODUCE_GPU_CONSUME => if h.pc = .answers then { h with i := h.val }.enter c else h.enter c
  | .GPU_PRODUCE_CPU_CONSUME => if h.pc = .answers then { h with pc := .consume } else { h with pc := .notify }

/-- One round of such a loop, which read `val`. -/
def Host.poll (h : Host) (val : Word) : Host :=
  if val = h.expected then
    if h.cpu_flag_idx + 1 < c.num_blocks then { h with val := val, cpu_flag_idx := h.cpu_flag_idx + 1 }
    else { h with val := val, cpu_flag_idx := h.cpu_flag_idx + 1 }.answered c
  else { h with val := val }

/-- Behind a write to the flag of the GPU. -/
def Host.published (h : Host) : Host :=
  match c.benchmark_mode with
  | .CPU_PRODUCE_GPU_CONSUME => { h with pc := .answers, cpu_flag_idx := 0 }
  | .GPU_PRODUCE_CPU_CONSUME => if h.pc = .publish then { h with i := h.val }.enter c else h.enter c

/-! ## A block -/

inductive BlockAt where
  | start
  | poll
  | data
  | answer
  | finished
  deriving DecidableEq, Repr

structure Block where
  pc : BlockAt
  i : Word
  flag_val : Word
  idx : Nat
  deriving DecidableEq, Repr

def Options.num_elements : Nat := c.data_size / 4

/-- `blockIdx.x * blockDim.x + threadIdx.x` of thread 0, in 32 bits. -/
def Options.my_tid (b : Nat) : Nat := b * c.num_threads_per_block % 2 ^ 32

/-- `gridDim.x * blockDim.x`. -/
def Options.num_threads : Nat := c.num_blocks * c.num_threads_per_block % 2 ^ 32

/-- The condition of the loop of block `b`, and the start of its body. -/
def Block.check (b : Nat) (k : Block) : Block :=
  match c.benchmark_mode with
  | .CPU_PRODUCE_GPU_CONSUME => if k.i ≤ c.num_iters then { k with pc := .poll } else { k with pc := .finished }
  | .GPU_PRODUCE_CPU_CONSUME =>
    if k.i ≤ c.num_iters + 1 then { k with pc := .data, flag_val := k.flag_val + 1, idx := c.my_tid b }
      else { k with pc := .finished }

/-- Behind the first store. -/
def Block.started (b : Nat) (k : Block) : Block :=
  match c.benchmark_mode with
  | .CPU_PRODUCE_GPU_CONSUME => k.check c b
  | .GPU_PRODUCE_CPU_CONSUME => { k with pc := .poll }

/-- One round of `while (flag_val != i)`, which read `val`. -/
def Block.load (b : Nat) (k : Block) (val : Word) : Block :=
  if val = k.i then
    match c.benchmark_mode with
    | .CPU_PRODUCE_GPU_CONSUME => { k with pc := .data, flag_val := val, idx := c.my_tid b }
    -- `i = 2` behind the first loop, `++i` later
    | .GPU_PRODUCE_CPU_CONSUME => { k with flag_val := val, i := k.i + 1 }.check c b
  else { k with flag_val := val }

/-- One round of the loop over the data, where `A[idx]` is `elem`. -/
def Block.touch (k : Block) (elem : Word) : Block :=
  if k.idx < c.num_elements then
    match c.benchmark_mode with
    | .CPU_PRODUCE_GPU_CONSUME => { k with flag_val := k.flag_val + elem, idx := k.idx + c.num_threads }
    | .GPU_PRODUCE_CPU_CONSUME => { k with idx := k.idx + c.num_threads }
  else { k with pc := .answer }

/-- What the block stores in its flag. -/
def Block.answer (k : Block) : Word :=
  match c.benchmark_mode with
  | .CPU_PRODUCE_GPU_CONSUME => k.flag_val + 1
  | .GPU_PRODUCE_CPU_CONSUME => k.flag_val

def Block.answered (b : Nat) (k : Block) : Block :=
  match c.benchmark_mode with
  | .CPU_PRODUCE_GPU_CONSUME => { k with flag_val := k.flag_val + 1, i := k.i + 1 }.check c b
  | .GPU_PRODUCE_CPU_CONSUME => { k with pc := .poll }

/-! ## The machine -/

/-- Memory by words, from the first word of each buffer on. -/
structure State where
  gpu_flag_buf : Nat → Word
  cpu_flag_buf : Nat → Word
  A : Nat → Word
  init_buf : Nat → Word
  host : Host
  blocks : Nat → Block

/-- The write of `val` to the flag of the GPU. `gdr_copy_to_mapping` is asked for `sizeof(gpu_flag_mhandle.size)`
bytes, so `behind`, the word behind `val`, goes to the word behind the flag. -/
def writeFlag (buf : Nat → Word) (val behind : Word) : Nat → Word :=
  match c.gpu_flag_loc with
  | .GPU => Function.update (Function.update buf 0 val) 1 behind
  | .HOST => Function.update buf 0 val

/-- A copy of `data_size` bytes. -/
def copyData (dst src : Nat → Word) : Nat → Word := fun j => if j < c.num_elements then src j else dst j

/-- What a block does to `A` in one round of the loop over the data. -/
def touchData (A : Nat → Word) (idx : Nat) : Nat → Word :=
  match c.benchmark_mode with
  | .CPU_PRODUCE_GPU_CONSUME => A
  | .GPU_PRODUCE_CPU_CONSUME => if idx < c.num_elements then Function.update A idx 0 else A

def State.setBlock (s : State) (b : Nat) (k : Block) : State := { s with blocks := Function.update s.blocks b k }

/-- Accesses to the flags, with the value, and to the data. -/
inductive Op where
  | hostLoad (idx : Nat) (val : Word)
  | hostCopy
  | publish (val behind : Word)
  | load (b : Nat) (val : Word)
  | touch (b : Nat)
  | store (b : Nat) (val : Word)
  deriving DecidableEq, Repr

inductive Step : State → Op → State → Prop
  | hostLoad {s} : s.host.pc = .ready ∨ s.host.pc = .answers →
    Step s (.hostLoad s.host.cpu_flag_idx (s.cpu_flag_buf s.host.cpu_flag_idx))
      { s with host := s.host.poll c (s.cpu_flag_buf s.host.cpu_flag_idx) }
  | produce {s} : s.host.pc = .produce →
    Step s .hostCopy { s with A := copyData c s.A s.init_buf, host := { s.host with pc := .publish } }
  | consume {s} : s.host.pc = .consume →
    Step s .hostCopy { s with init_buf := copyData c s.init_buf s.A, host := { s.host with pc := .publish } }
  | publish {s behind} : s.host.pc = .publish ∨ s.host.pc = .notify →
    Step s (.publish s.host.val behind)
      { s with gpu_flag_buf := writeFlag c s.gpu_flag_buf s.host.val behind, host := s.host.published c }
  | start {s b} : b < c.num_blocks → (s.blocks b).pc = .start →
    Step s (.store b (s.blocks b).i)
      { s.setBlock b ((s.blocks b).started c b) with cpu_flag_buf := Function.update s.cpu_flag_buf b (s.blocks b).i }
  | load {s b} : b < c.num_blocks → (s.blocks b).pc = .poll →
    Step s (.load b (s.gpu_flag_buf b)) (s.setBlock b ((s.blocks b).load c b (s.gpu_flag_buf b)))
  | touch {s b} : b < c.num_blocks → (s.blocks b).pc = .data →
    Step s (.touch b)
      { s.setBlock b ((s.blocks b).touch c (s.A (s.blocks b).idx)) with A := touchData c s.A (s.blocks b).idx }
  | answer {s b} : b < c.num_blocks → (s.blocks b).pc = .answer →
    Step s (.store b ((s.blocks b).answer c))
      { s.setBlock b ((s.blocks b).answered c b) with
        cpu_flag_buf := Function.update s.cpu_flag_buf b ((s.blocks b).answer c) }

/-- After the launch: the buffers are zero, but nothing is known of the words behind them. -/
structure Launched (s : State) : Prop where
  gpu_flag_buf : s.gpu_flag_buf 0 = 0
  cpu_flag_buf : ∀ b < c.num_blocks, s.cpu_flag_buf b = 0
  A : ∀ j < c.num_elements, s.A j = 0
  init_buf : ∀ j < c.num_elements, s.init_buf j = 0
  pc : s.host.pc = .ready
  i : s.host.i = 1
  cpu_flag_idx : s.host.cpu_flag_idx = 0
  blocks : ∀ b < c.num_blocks, (s.blocks b).pc = .start ∧ (s.blocks b).i = 1

abbrev Run : State → List Op → Prop := Runs.Run (Launched c) (Step c)

/-! ## What the handshake is for -/

/-- The host is in a loop over the flags, and the next one is not what it waits for. -/
def HostWaits (s : State) : Prop :=
  (s.host.pc = .ready ∨ s.host.pc = .answers) ∧ s.cpu_flag_buf s.host.cpu_flag_idx ≠ s.host.expected

def BlockWaits (s : State) (b : Nat) : Prop := (s.blocks b).pc = .poll ∧ s.gpu_flag_buf b ≠ (s.blocks b).i

/-- The host and all blocks that are not finished wait. -/
def Deadlock (s : State) : Prop := HostWaits s ∧ ∀ b < c.num_blocks, (s.blocks b).pc = .finished ∨ BlockWaits s b

structure Handshake : Prop where
  /-- The flag that a block polls is inside the buffer. -/
  inside : ∀ s os, Run c s os → ∀ b < c.num_blocks, (s.blocks b).pc = .poll → 4 * b + 4 ≤ gpuFlagSize
  /-- In every round the host writes a flag, and every write of the round is one to all flags that are polled. -/
  written : ∀ s os, Run c s os → (s.host.pc = .answers → ∃ behind, .publish s.host.i behind ∈ os) ∧
    ∀ val behind s', Step c s (.publish val behind) s' → ∀ b < c.num_blocks, s'.gpu_flag_buf b = val
  /-- A block gets past its poll only in a round that the host has published. -/
  enters : ∀ s os, Run c s os → ∀ b s', Step c s (.load b (s.blocks b).i) s' →
    ∃ behind, .publish (s.blocks b).i behind ∈ os
  /-- The host leaves round `i` only when all blocks have answered it. -/
  advances : ∀ s os, Run c s os → ∀ o s', Step c s o s' → s.host.pc = .answers → s'.host.pc ≠ .answers →
    ∀ b < c.num_blocks, .store b (s.host.i + 1) ∈ os
  alive : ∀ s os, Run c s os → ¬ Deadlock c s

end pplat
