import GdrCopy.Lib.Bytes
/-!
# SIMD copies

`memcpy_avx.c`, `memcpy_sse.c` and `memcpy_sse41.c`. The five routines have one
shape: a `memcpy` up to the next vector boundary of one pointer, an unrolled loop and
a loop of single vectors, both chosen by the alignment of the other pointer, a
`memcpy` of the rest, and a store fence. They are lists of instructions; a pointer is
a number, and no buffer reaches past `2 ^ 64`.
-/

set_option linter.style.nameCheck false

namespace gdrapi

open Bytes (Cursor Apart)

/-! ## Instructions -/

/-- C reads of 1, 2, 4 and 8 bytes, and the intrinsics that load a vector. -/
inductive Load where
  | u8
  | u16
  | u32
  | u64
  | _mm_loadu_ps
  | _mm_load_ps
  | _mm256_loadu_pd
  | _mm256_load_pd
  | _mm_stream_load_si128
  deriving DecidableEq, Repr

def Load.width : Load → Nat
  | .u8 => 1
  | .u16 => 2
  | .u32 => 4
  | .u64 => 8
  | ._mm_loadu_ps => 16
  | ._mm_load_ps => 16
  | ._mm256_loadu_pd => 32
  | ._mm256_load_pd => 32
  | ._mm_stream_load_si128 => 16

inductive Store where
  | u8
  | u16
  | u32
  | u64
  | _mm_store_ps
  | _mm_stream_ps
  | _mm256_store_pd
  | _mm256_stream_pd
  | _mm_storeu_si128
  | _mm_stream_si128
  deriving DecidableEq, Repr

def Store.width : Store → Nat
  | .u8 => 1
  | .u16 => 2
  | .u32 => 4
  | .u64 => 8
  | ._mm_store_ps => 16
  | ._mm_stream_ps => 16
  | ._mm256_store_pd => 32
  | ._mm256_stream_pd => 32
  | ._mm_storeu_si128 => 16
  | ._mm_stream_si128 => 16

inductive Fence where
  | _mm_sfence
  | wc_store_fence
  | memory_fence
  deriving DecidableEq, Repr

abbrev Instr := Bytes.Instr Load Store Fence

abbrev Part := Bytes.Part Instr

def exec (t : List Instr) (st : Bytes.State) : Bytes.State := Bytes.exec Store.width t st

abbrev Copies (t : List Instr) (d s n : Nat) : Prop := Bytes.Copies Store.width t d s n

abbrev Advances (p : Part) : Prop := Bytes.Advances Store.width p

/-- How a loop moves data: a load and a store of the same width, `unroll` of them a turn. -/
structure Moves where
  load : Load
  store : Store
  unroll : Nat
  width_eq : load.width = store.width

def Moves.width (v : Moves) : Nat := v.store.width

theorem Store.width_pos (op : Store) : 0 < op.width := by cases op <;> decide

/-- The next `k` vectors: all loads, then all stores. -/
def Moves.block (v : Moves) (k : Nat) (c : Cursor) : List Instr :=
  Bytes.block Load.width Store.width v.load v.store k c.d c.s

theorem Moves.block_copies (v : Moves) (k : Nat) (c : Cursor) : Copies (v.block k c) c.d c.s (k * v.width) :=
  .block v.store.width_pos v.width_eq k c.d c.s

/-! ## The routines -/

/-- `while (n >= k*sizeof(..))`. -/
def vectorLoop (v : Moves) (k : Nat) : Part :=
  Bytes.Part.loop fun c => if k * v.width ≤ c.n then some (v.block k c, k * v.width) else none

/-- The `memcpy` that brings the pointer `p` to a multiple of `align`. -/
def alignHead (align : Nat) (p : Cursor → Nat) : Part := fun c =>
  if p c &&& (align - 1) ≠ 0 then
    let nh := min (align - (p c &&& (align - 1))) c.n
    ([.memcpy c.d c.s nh], c.advance nh)
  else ([], c)

def vectorLoops (v : Moves) : Part := (vectorLoop v v.unroll).seq (vectorLoop v 1)

/-- `if (n) memcpy(d, s, n)`. -/
def copyTail : Part := fun c => (if c.n ≠ 0 then [.memcpy c.d c.s c.n] else [], c.advance c.n)

/-- The routine that aligns `p`, and moves data by `unaligned` or `aligned` as `q` is then aligned or not. -/
def simdMemcpy (align : Nat) (p q : Cursor → Nat) (unaligned aligned : Moves) (dest src n_bytes : Nat) : List Instr :=
  (((alignHead align p).seq fun c => if q c &&& (align - 1) ≠ 0 then vectorLoops unaligned c
    else vectorLoops aligned c).seq
    copyTail ⟨dest, src, n_bytes⟩).1 ++ [.fence ._mm_sfence]

def memcpy_uncached_store_avx : (dest src n_bytes : Nat) → List Instr :=
  simdMemcpy 0x20 (·.d) (·.s) ⟨._mm256_loadu_pd, ._mm256_stream_pd, 4, rfl⟩ ⟨._mm256_load_pd, ._mm256_stream_pd, 8, rfl⟩

def memcpy_cached_store_avx : (dest src n_bytes : Nat) → List Instr :=
  simdMemcpy 0x20 (·.d) (·.s) ⟨._mm256_loadu_pd, ._mm256_store_pd, 4, rfl⟩ ⟨._mm256_load_pd, ._mm256_store_pd, 4, rfl⟩

def memcpy_uncached_store_sse : (dest src n_bytes : Nat) → List Instr :=
  simdMemcpy 0x10 (·.d) (·.s) ⟨._mm_loadu_ps, ._mm_stream_ps, 4, rfl⟩ ⟨._mm_load_ps, ._mm_stream_ps, 4, rfl⟩

def memcpy_cached_store_sse : (dest src n_bytes : Nat) → List Instr :=
  simdMemcpy 0x10 (·.d) (·.s) ⟨._mm_loadu_ps, ._mm_store_ps, 4, rfl⟩ ⟨._mm_load_ps, ._mm_store_ps, 4, rfl⟩

/-- The only one that aligns the source, which is the mapping. -/
def memcpy_uncached_load_sse41 : (dest src n_bytes : Nat) → List Instr :=
  simdMemcpy 0x10 (·.s) (·.d) ⟨._mm_stream_load_si128, ._mm_storeu_si128, 8, rfl⟩
    ⟨._mm_stream_load_si128, ._mm_stream_si128, 8, rfl⟩

/-! ## They are copies -/

section
variable {R : List Instr → Nat → Nat → Nat → Prop}

theorem vectorLoop_goes (hR : Bytes.Part.Chains R)
    (hblock : ∀ (v : Moves) k c, R (v.block k c) c.d c.s (k * v.width)) (v : Moves) (k : Nat) :
    Bytes.Part.Goes R (vectorLoop v k) := by
  refine .loop hR fun c t m h => ?_
  split at h
  · cases h
    exact hblock v k c
  · cases h

theorem alignHead_goes (hR : Bytes.Part.Chains R) (hmemcpy : ∀ d s n, R [.memcpy d s n] d s n) (align : Nat)
    (p : Cursor → Nat) :
    Bytes.Part.Goes R (alignHead align p) := by
  intro c
  unfold alignHead
  split
  · exact ⟨_, Nat.min_le_right _ _, rfl, hmemcpy _ _ _⟩
  · exact ⟨0, Nat.zero_le _, rfl, hR.nil _ _⟩

theorem copyTail_goes (hR : Bytes.Part.Chains R) (hmemcpy : ∀ d s n, R [.memcpy d s n] d s n) :
    Bytes.Part.Goes R copyTail := by
  intro c
  refine ⟨c.n, Nat.le_refl _, rfl, ?_⟩
  by_cases hn : c.n = 0
  · rw [copyTail, if_neg (not_not_intro hn), hn]
    exact hR.nil _ _
  · rw [copyTail, if_pos hn]
    exact hmemcpy _ _ _

/-- What holds of a `memcpy` and of the turns of the loops holds of a SIMD routine, up to its fence. -/
theorem simdMemcpy_goes (hR : Bytes.Part.Chains R) (hmemcpy : ∀ d s n, R [.memcpy d s n] d s n)
    (hblock : ∀ (v : Moves) k c, R (v.block k c) c.d c.s (k * v.width)) (align : Nat) (p q : Cursor → Nat)
    (unaligned aligned : Moves) (dest src n_bytes : Nat) :
    ∃ t, simdMemcpy align p q unaligned aligned dest src n_bytes = t ++ [.fence ._mm_sfence] ∧
    R t dest src n_bytes := by
  have hloop := vectorLoop_goes hR hblock
  have hloops : Bytes.Part.Goes R fun c => if q c &&& (align - 1) ≠ 0 then vectorLoops unaligned c
      else vectorLoops aligned c := by
    intro c
    beta_reduce
    split
    · exact (hloop unaligned _).seq hR (hloop unaligned _) c
    · exact (hloop aligned _).seq hR (hloop aligned _) c
  have hall := ((alignHead_goes hR hmemcpy align p).seq hR hloops).seq hR (copyTail_goes hR hmemcpy)
  exact ⟨_, rfl, hall.all (c := ⟨dest, src, n_bytes⟩) (Nat.sub_self _)⟩

end

/-- Whatever it aligns and moves data by, a SIMD routine copies its `n_bytes`. -/
theorem simdMemcpy_copies (align : Nat) (p q : Cursor → Nat) (unaligned aligned : Moves) (dest src n_bytes : Nat) :
    Copies (simdMemcpy align p q unaligned aligned dest src n_bytes) dest src n_bytes := by
  obtain ⟨t, ht, hc⟩ := simdMemcpy_goes Bytes.Copies.chains .memcpy Moves.block_copies align p q unaligned
    aligned dest src n_bytes
  rw [ht]
  exact hc.fence _

end gdrapi
