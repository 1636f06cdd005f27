import GdrCopy.Api.Gdrapi
import GdrCopy.Api.Simd
/-!
# Copies to and from a mapping

`gdr_copy_to_mapping` and `gdr_copy_from_mapping` choose among a dozen copy
routines by the size, both alignments, the CPU and the mapping type. Whatever they
choose is a copy of the bytes.
-/

namespace gdrapi

open gdrdrv
open Bytes (Cursor Apart)

/-! ## The platform -/

/-- The architecture the library is built for, and the bits of `cpuid` on x86. -/
structure Cpu where
  arch : Arch
  bit_SSE : Bool
  bit_SSE4_1 : Bool
  bit_AVX : Bool
  deriving DecidableEq, Repr

namespace Cpu
variable (c : Cpu)

/-- Only `gdr_init_cpu_flags` on x86 sets these flags. -/
def has_sse : Bool := c.arch == .x86 && c.bit_SSE
def has_sse4_1 : Bool := c.arch == .x86 && c.bit_SSE4_1
def has_avx : Bool := c.arch == .x86 && c.bit_AVX

end Cpu

def PREFERS_STORE_UNROLL4 : Arch → Bool
  | .x86 => false
  | .ppc64 => true
  | .arm64 => false

def PREFERS_STORE_UNROLL8 : Arch → Bool
  | .x86 => false
  | .ppc64 => false
  | .arm64 => false

def PREFERS_LOAD_UNROLL4 : Arch → Bool
  | .x86 => false
  | .ppc64 => false
  | .arm64 => false

def PREFERS_LOAD_UNROLL8 : Arch → Bool
  | .x86 => false
  | .ppc64 => true
  | .arm64 => false

/-- More than one of the `gdr_mapping_type_counters` is not 0. -/
def gdr_has_mix_mapping (gdr_mapping_type_counters : Nat → Int) : Bool :=
  ((List.range GDR_MAPPING_TYPE_MAX).countP fun i => gdr_mapping_type_counters i != 0) > 1

def is_aligned (value powof2 : Nat) : Bool := value &&& (powof2 - 1) == 0

def ptr_is_aligned (ptr powof2 : Nat) : Bool := is_aligned ptr powof2

/-! ## Routines of plain loads and stores -/

/-- One C assignment of `m.width` bytes. -/
def single (v : Moves) (c : Cursor) : List Instr := v.block 1 c

def word8 : Moves := ⟨.u8, .u8, 1, rfl⟩
def word16 : Moves := ⟨.u16, .u16, 1, rfl⟩
def word32 : Moves := ⟨.u32, .u32, 1, rfl⟩
def word64 : Moves := ⟨.u64, .u64, 1, rfl⟩

/-- A turn of the unrolled loops: 4, 2 or 1 of the `nw` words left. -/
def unrollTurn (v : Moves) (c : Cursor) : Option (List Instr × Nat) :=
  let nw := c.n / v.width
  if nw = 0 then none
  else if nw &&& 3 = 0 then some (v.block 4 c, 4 * v.width)
  else if nw &&& 1 = 0 then some (v.block 2 c, 2 * v.width)
  else some (v.block 1 c, 1 * v.width)

/-- The body of `unroll8_memcpy` and `unroll4_memcpy`. The assertion fails when the
size is not a whole number of words. -/
def unrollMemcpy (v : Moves) (dst src size : Nat) : Option (List Instr) :=
  if size % v.width ≠ 0 then none else some (Bytes.Part.loop (unrollTurn v) ⟨dst, src, size⟩).1

def unroll8_memcpy : (dst src size : Nat) → Option (List Instr) := unrollMemcpy word64

def unroll4_memcpy : (dst src size : Nat) → Option (List Instr) := unrollMemcpy word32

/-- A turn of the device-mapping loops. `map` is the pointer into the mapping, whose accesses must be aligned. -/
def deviceTurn (map : Cursor → Nat) (c : Cursor) : Option (List Instr × Nat) :=
  if c.n = 0 then none
  else if is_aligned c.n 8 && ptr_is_aligned c.d 8 && ptr_is_aligned c.s 8 then some ([.memcpy c.d c.s c.n], c.n)
  else if 8 ≤ c.n && ptr_is_aligned (map c) 8 then some (single word64 c, 8)
  else if 4 ≤ c.n && ptr_is_aligned (map c) 4 then some (single word32 c, 4)
  else if 2 ≤ c.n && ptr_is_aligned (map c) 2 then some (single word16 c, 2)
  else some (single word8 c, 1)

def memcpy_to_device_mapping (dst src size : Nat) : List Instr :=
  (Bytes.Part.loop (deviceTurn (·.d)) ⟨dst, src, size⟩).1

def memcpy_from_device_mapping (dst src size : Nat) : List Instr :=
  (Bytes.Part.loop (deviceTurn (·.s)) ⟨dst, src, size⟩).1

/-! ## Dispatch -/

section
variable (c : Cpu) (gdr_mapping_type_counters : Nat → Int)

/-- The store that copies 1, 2, 4 or 8 bytes to an aligned address. -/
def smallStore (map_d_ptr h_ptr size : Nat) : Option (List Instr) :=
  if size = 1 then some (single word8 ⟨map_d_ptr, h_ptr, size⟩)
  else if size = 2 && ptr_is_aligned map_d_ptr 2 then some (single word16 ⟨map_d_ptr, h_ptr, size⟩)
  else if size = 4 && ptr_is_aligned map_d_ptr 4 then some (single word32 ⟨map_d_ptr, h_ptr, size⟩)
  else if size = 8 && ptr_is_aligned map_d_ptr 8 then some (single word64 ⟨map_d_ptr, h_ptr, size⟩)
  else none

/-- `do_fence`. -/
def storeFence (wc_mapping : Bool) : List Instr :=
  if gdr_has_mix_mapping gdr_mapping_type_counters then [.fence .memory_fence]
  else if wc_mapping then [.fence .wc_store_fence]
  else []

/-- The instructions, or `none` where an assertion fails. -/
def gdr_copy_to_mapping_internal (map_d_ptr h_ptr size mapping_type : Nat) : Option (List Instr) :=
  let wc_mapping := mapping_type == GDR_MAPPING_TYPE_WC
  let device_mapping := mapping_type == GDR_MAPPING_TYPE_DEVICE
  let do_fence (t : List Instr) : List Instr := t ++ storeFence gdr_mapping_type_counters wc_mapping
  match smallStore map_d_ptr h_ptr size with
  | some t => some (do_fence t)
  | none =>
    if c.has_avx then if wc_mapping then some (memcpy_uncached_store_avx map_d_ptr h_ptr size) else none
    else if c.has_sse then if wc_mapping then some (memcpy_uncached_store_sse map_d_ptr h_ptr size) else none
    else if wc_mapping && PREFERS_STORE_UNROLL8 c.arch && is_aligned size 8 && ptr_is_aligned map_d_ptr 8 &&
        ptr_is_aligned h_ptr 8 then
      (unroll8_memcpy map_d_ptr h_ptr size).map do_fence
    else if wc_mapping && PREFERS_STORE_UNROLL4 c.arch && is_aligned size 4 && ptr_is_aligned map_d_ptr 4 &&
        ptr_is_aligned h_ptr 4 then
      (unroll4_memcpy map_d_ptr h_ptr size).map do_fence
    else if device_mapping then some (do_fence (memcpy_to_device_mapping map_d_ptr h_ptr size))
    else some (do_fence [.memcpy map_d_ptr h_ptr size])

def gdr_copy_from_mapping_internal (h_ptr map_d_ptr size mapping_type : Nat) : Option (List Instr) :=
  let wc_mapping := mapping_type == GDR_MAPPING_TYPE_WC
  let device_mapping := mapping_type == GDR_MAPPING_TYPE_DEVICE
  let copied :=
    if c.has_sse4_1 then if wc_mapping then some (memcpy_uncached_load_sse41 h_ptr map_d_ptr size) else none
    else if c.has_avx then if wc_mapping then some (memcpy_cached_store_avx h_ptr map_d_ptr size) else none
    else if c.has_sse then if wc_mapping then some (memcpy_cached_store_sse h_ptr map_d_ptr size) else none
    else if wc_mapping && PREFERS_LOAD_UNROLL8 c.arch && is_aligned size 8 && ptr_is_aligned map_d_ptr 8 &&
        ptr_is_aligned h_ptr 8 then
      unroll8_memcpy h_ptr map_d_ptr size
    else if wc_mapping && PREFERS_LOAD_UNROLL4 c.arch && is_aligned size 4 && ptr_is_aligned map_d_ptr 4 &&
        ptr_is_aligned h_ptr 4 then
      unroll4_memcpy h_ptr map_d_ptr size
    else if device_mapping then some (memcpy_from_device_mapping h_ptr map_d_ptr size)
    else some [.memcpy h_ptr map_d_ptr size]
  copied.map fun t => if gdr_has_mix_mapping gdr_mapping_type_counters then t ++ [.fence .memory_fence] else t

/-- The status and the instructions. -/
def gdr_copy_to_mapping (mh : Memh) (map_d_ptr h_ptr size : Nat) : Option (Int × List Instr) :=
  if !gdr_is_mapped mh.mapping_type then some (EINVAL, [])
  else if size = 0 then some (0, [])
  else (gdr_copy_to_mapping_internal c gdr_mapping_type_counters map_d_ptr h_ptr size mh.mapping_type).map (0, ·)

def gdr_copy_from_mapping (mh : Memh) (h_ptr map_d_ptr size : Nat) : Option (Int × List Instr) :=
  if !gdr_is_mapped mh.mapping_type then some (EINVAL, [])
  else if size = 0 then some (0, [])
  else (gdr_copy_from_mapping_internal c gdr_mapping_type_counters h_ptr map_d_ptr size mh.mapping_type).map (0, ·)

end

/-! ## Every routine is a copy -/

theorem unrollTurn_copies {v : Moves} {c : Cursor} {t : List Instr} {m : Nat} (h : unrollTurn v c = some (t, m)) :
    (0 < m ∧ m ≤ c.n) ∧ v.width ∣ m ∧ Copies t c.d c.s m := by
  have hw : 0 < v.width := v.store.width_pos
  have hle : ∀ k, k ≤ c.n / v.width → k * v.width ≤ c.n := fun k hk => (Nat.le_div_iff_mul_le hw).1 hk
  simp only [unrollTurn] at h
  generalize c.n / v.width = nw at h hle
  split_ifs at h with h0 h3 h1
  all_goals obtain ⟨rfl, rfl⟩ := Prod.mk.inj (Option.some.inj h)
  · have h4 : nw % 2 ^ 2 = 0 := by rw [← Nat.and_two_pow_sub_one_eq_mod]; exact h3
    exact ⟨⟨by omega, hle 4 (by omega)⟩, Nat.dvd_mul_left _ _, v.block_copies 4 c⟩
  · have h2 : nw % 2 ^ 1 = 0 := by rw [← Nat.and_two_pow_sub_one_eq_mod]; exact h1
    exact ⟨⟨by omega, hle 2 (by omega)⟩, Nat.dvd_mul_left _ _, v.block_copies 2 c⟩
  · exact ⟨⟨by omega, hle 1 (by omega)⟩, Nat.dvd_mul_left _ _, v.block_copies 1 c⟩

/-- An unrolled copy of a whole number of words. -/
theorem unrollMemcpy_copies (v : Moves) {dst src size : Nat} (h : size % v.width = 0) :
    ∃ t, unrollMemcpy v dst src size = some t ∧ Copies t dst src size := by
  have hw : 0 < v.width := v.store.width_pos
  have hadv : Advances (Bytes.Part.loop (unrollTurn v)) := .loop fun c t m ht => (unrollTurn_copies ht).2.2
  refine ⟨_, if_neg (not_not_intro h), hadv.copies (c := ⟨dst, src, size⟩) ?_⟩
  have hdvd : v.width ∣ (Bytes.Part.loop (unrollTurn v) ⟨dst, src, size⟩).2.n :=
    Bytes.loop_inv (fun c => v.width ∣ c.n) (fun c t m hc ht => Nat.dvd_sub hc (unrollTurn_copies ht).2.1) _
      (Nat.dvd_of_mod_eq_zero h)
  have hstop : unrollTurn v (Bytes.Part.loop (unrollTurn v) ⟨dst, src, size⟩).2 = none :=
    Bytes.loop_stops (fun c t m ht => (unrollTurn_copies ht).1) _
  generalize (Bytes.Part.loop (unrollTurn v) ⟨dst, src, size⟩).2 = c at hdvd hstop ⊢
  simp only [unrollTurn] at hstop
  split_ifs at hstop with h0
  rw [← Nat.div_mul_cancel hdvd, h0, Nat.zero_mul]

theorem deviceTurn_copies {map : Cursor → Nat} {c : Cursor} {t : List Instr} {m : Nat}
    (h : deviceTurn map c = some (t, m)) :
    (0 < m ∧ m ≤ c.n) ∧ Copies t c.d c.s m := by
  unfold deviceTurn at h
  split_ifs at h with h0 h1 h2 h3 h4
  all_goals obtain ⟨rfl, rfl⟩ := Prod.mk.inj (Option.some.inj h)
  · exact ⟨⟨Nat.pos_of_ne_zero h0, Nat.le_refl _⟩, .memcpy _ _ _⟩
  · exact ⟨⟨by decide, (by simpa using h2 : 8 ≤ c.n ∧ _).1⟩, word64.block_copies 1 c⟩
  · exact ⟨⟨by decide, (by simpa using h3 : 4 ≤ c.n ∧ _).1⟩, word32.block_copies 1 c⟩
  · exact ⟨⟨by decide, (by simpa using h4 : 2 ≤ c.n ∧ _).1⟩, word16.block_copies 1 c⟩
  · exact ⟨⟨by decide, Nat.pos_of_ne_zero h0⟩, word8.block_copies 1 c⟩

/-- Each turn makes progress, so the loop goes on until nothing is left. -/
theorem device_loop_ends (map : Cursor → Nat) (c : Cursor) : (Bytes.Part.loop (deviceTurn map) c).2.n = 0 := by
  have hstop : deviceTurn map (Bytes.Part.loop (deviceTurn map) c).2 = none :=
    Bytes.loop_stops (fun c t m ht => (deviceTurn_copies ht).1) _
  generalize (Bytes.Part.loop (deviceTurn map) c).2 = c' at hstop ⊢
  unfold deviceTurn at hstop
  split_ifs at hstop with h0
  exact h0

theorem device_copies (map : Cursor → Nat) (dst src size : Nat) :
    Copies (Bytes.Part.loop (deviceTurn map) ⟨dst, src, size⟩).1 dst src size := by
  have hadv : Advances (Bytes.Part.loop (deviceTurn map)) := .loop fun c t m ht => (deviceTurn_copies ht).2
  exact hadv.copies (c := ⟨dst, src, size⟩) (device_loop_ends map _)

theorem smallStore_copies {d s n : Nat} {t : List Instr} (h : smallStore d s n = some t) : Copies t d s n := by
  unfold smallStore at h
  split_ifs at h with h1 h2 h4 h8
  all_goals obtain rfl := Option.some.inj h
  · rw [h1]
    exact word8.block_copies 1 _
  · rw [(by simpa using h2 : n = 2 ∧ _).1]
    exact word16.block_copies 1 _
  · rw [(by simpa using h4 : n = 4 ∧ _).1]
    exact word32.block_copies 1 _
  · rw [(by simpa using h8 : n = 8 ∧ _).1]
    exact word64.block_copies 1 _

theorem storeFence_copies {counters : Nat → Int} {t : List Instr} {d s n : Nat} (h : Copies t d s n) (wc : Bool) :
    Copies (t ++ storeFence counters wc) d s n := by
  unfold storeFence
  split_ifs
  · exact h.fence _
  · exact h.fence _
  · rwa [List.append_nil]

theorem is_aligned_two_pow {x k : Nat} (h : is_aligned x (2 ^ k) = true) : x % 2 ^ k = 0 := by
  rw [← Nat.and_two_pow_sub_one_eq_mod]
  exact beq_iff_eq.1 h

theorem unroll_copies (v : Moves) (k : Nat) (hv : v.width = 2 ^ k) {d s n : Nat} {b : Bool}
    (h : (b && is_aligned n (2 ^ k) && ptr_is_aligned d (2 ^ k) && ptr_is_aligned s (2 ^ k)) = true) :
    ∃ t, unrollMemcpy v d s n = some t ∧ Copies t d s n := by
  simp only [Bool.and_eq_true] at h
  exact unrollMemcpy_copies v (by rw [hv]; exact is_aligned_two_pow h.1.1.2)

/-! ## The dispatch -/

section
variable {c : Cpu} {mapping_type : Nat}

/-- The SIMD routines run on x86 only, where the mapping is write-combining and the assertions hold. -/
theorem wc_of_flag {bit : Bool} (hx : c.arch = .x86 → mapping_type = GDR_MAPPING_TYPE_WC)
    (h : (c.arch == .x86 && bit) = true) :
    (mapping_type == GDR_MAPPING_TYPE_WC) = true := by
  rw [Bool.and_eq_true, beq_iff_eq] at h
  exact beq_iff_eq.2 (hx h.1)

theorem copy_to_internal (hx : c.arch = .x86 → mapping_type = GDR_MAPPING_TYPE_WC) (counters : Nat → Int)
    (d s n : Nat) :
    ∃ t, gdr_copy_to_mapping_internal c counters d s n mapping_type = some t ∧ Copies t d s n := by
  unfold gdr_copy_to_mapping_internal
  cases hsmall : smallStore d s n with
  | some t => exact ⟨_, rfl, storeFence_copies (smallStore_copies hsmall) _⟩
  | none =>
    by_cases havx : c.has_avx = true
    · simp only [if_pos havx, if_pos (wc_of_flag hx havx)]
      exact ⟨_, rfl, simdMemcpy_copies _ _ _ _ _ _ _ _⟩
    by_cases hsse : c.has_sse = true
    · simp only [if_neg havx, if_pos hsse, if_pos (wc_of_flag hx hsse)]
      exact ⟨_, rfl, simdMemcpy_copies _ _ _ _ _ _ _ _⟩
    simp only [if_neg havx, if_neg hsse]
    split_ifs with h8 h4 hdev
    · obtain ⟨t, ht, hc⟩ := unroll_copies word64 3 rfl h8
      exact ⟨_, by rw [unroll8_memcpy, ht, Option.map_some], storeFence_copies hc _⟩
    · obtain ⟨t, ht, hc⟩ := unroll_copies word32 2 rfl h4
      exact ⟨_, by rw [unroll4_memcpy, ht, Option.map_some], storeFence_copies hc _⟩
    · exact ⟨_, rfl, storeFence_copies (device_copies _ _ _ _) _⟩
    · exact ⟨_, rfl, storeFence_copies (.memcpy _ _ _) _⟩

theorem copy_from_internal (hx : c.arch = .x86 → mapping_type = GDR_MAPPING_TYPE_WC) (counters : Nat → Int)
    (d s n : Nat) :
    ∃ t, gdr_copy_from_mapping_internal c counters d s n mapping_type = some t ∧ Copies t d s n := by
  have fenced : ∀ {o : Option (List Instr)}, (∃ t, o = some t ∧ Copies t d s n) →
      ∃ t, o.map (fun t => if gdr_has_mix_mapping counters then t ++ [.fence .memory_fence] else t) = some t ∧
        Copies t d s n := by
    rintro _ ⟨t, rfl, hc⟩
    refine ⟨_, rfl, ?_⟩
    split_ifs
    · exact hc.fence _
    · exact hc
  refine fenced ?_
  by_cases hsse4 : c.has_sse4_1 = true
  · simp only [if_pos hsse4, if_pos (wc_of_flag hx hsse4)]
    exact ⟨_, rfl, simdMemcpy_copies _ _ _ _ _ _ _ _⟩
  by_cases havx : c.has_avx = true
  · simp only [if_neg hsse4, if_pos havx, if_pos (wc_of_flag hx havx)]
    exact ⟨_, rfl, simdMemcpy_copies _ _ _ _ _ _ _ _⟩
  by_cases hsse : c.has_sse = true
  · simp only [if_neg hsse4, if_neg havx, if_pos hsse, if_pos (wc_of_flag hx hsse)]
    exact ⟨_, rfl, simdMemcpy_copies _ _ _ _ _ _ _ _⟩
  simp only [if_neg hsse4, if_neg havx, if_neg hsse]
  split_ifs with h8 h4 hdev
  · rw [Bool.and_right_comm] at h8
    exact unroll_copies word64 3 rfl h8
  · rw [Bool.and_right_comm] at h4
    exact unroll_copies word32 2 rfl h4
  · exact ⟨_, rfl, device_copies _ _ _ _⟩
  · exact ⟨_, rfl, .memcpy _ _ _⟩

end

/-- `m'` is `m` with the `n` bytes from `s` on also at `d`. -/
structure Copied (m m' : Bytes.Mem) (d s n : Nat) : Prop where
  bytes : ∀ i < n, m' (d + i) = m (s + i)
  rest : ∀ a, a < d ∨ d + n ≤ a → m' a = m a

theorem Copies.copied {t : List Instr} {d s n : Nat} (h : Copies t d s n) (ha : Apart d s n) (st : Bytes.State) :
    Copied st.mem (exec t st).mem d s n := by
  have he : (exec t st).mem = st.mem.copy d s n := h st ha
  rw [he]
  exact ⟨fun i hi => st.mem.copy_dst d s hi, fun a ha => st.mem.copy_other d s ha⟩

/-- The copies end the same way: status 0, and instructions that copy. -/
theorem mapped_copies {mh : Memh} {d s n : Nat} {o : Option (List Instr)} (hm : gdr_is_mapped mh.mapping_type = true)
    (h : ∃ t, o = some t ∧ Copies t d s n) :
    ∃ t, (if !gdr_is_mapped mh.mapping_type then some (EINVAL, []) else if n = 0 then some (0, []) else o.map (0, ·)) =
      some (0, t) ∧ Copies t d s n := by
  rw [hm]
  by_cases hn : n = 0
  · exact ⟨[], by simp [hn], by rw [hn]; exact .nil _ _⟩
  · obtain ⟨t, rfl, hc⟩ := h
    exact ⟨t, by simp [hn], hc⟩

/-- On every platform, for every size and alignment, both copies of non-overlapping
buffers copy the bytes and change nothing else. Copying to the mapping and back from
it returns the buffer. -/
theorem gdr_copy_is_memcpy {c : Cpu} {mh : Memh} {map_d_ptr h_ptr size : Nat} (counters : Nat → Int)
    (hx : c.arch = .x86 → mh.mapping_type = GDR_MAPPING_TYPE_WC) (hm : gdr_is_mapped mh.mapping_type = true)
    (ha : Apart map_d_ptr h_ptr size) (st : Bytes.State) :
    (∃ t, gdr_copy_to_mapping c counters mh map_d_ptr h_ptr size = some (0, t) ∧
      Copied st.mem (exec t st).mem map_d_ptr h_ptr size ∧
      ∀ back, Apart back map_d_ptr size → ∃ t', gdr_copy_from_mapping c counters mh back map_d_ptr size = some (0, t') ∧
        ∀ i < size, (exec t' (exec t st)).mem (back + i) = st.mem (h_ptr + i)) ∧
    ∃ t, gdr_copy_from_mapping c counters mh h_ptr map_d_ptr size = some (0, t) ∧
      Copied st.mem (exec t st).mem h_ptr map_d_ptr size := by
  obtain ⟨t, ht, hc⟩ := mapped_copies hm (copy_to_internal hx counters map_d_ptr h_ptr size)
  obtain ⟨u, hu, hcu⟩ := mapped_copies hm (copy_from_internal hx counters h_ptr map_d_ptr size)
  refine ⟨⟨t, ht, hc.copied ha st, fun back hb => ?_⟩, u, hu, hcu.copied (Or.symm ha) st⟩
  obtain ⟨t', ht', hc'⟩ := mapped_copies hm (copy_from_internal hx counters back map_d_ptr size)
  refine ⟨t', ht', fun i hi => ?_⟩
  rw [(hc'.copied hb _).bytes i hi, (hc.copied ha st).bytes i hi]

/-- 100 bytes through a write-combining mapping on an x86 with AVX, from an odd address. -/
theorem gdr_copy_is_memcpy_avx :
    ∃ t, gdr_copy_to_mapping ⟨.x86, true, true, true⟩ (fun _ => 0) ⟨0, 0, 1⟩ 0x1003 0x2001 100 = some (0, t) ∧
      Copied (fun a => UInt8.ofNat a) (exec t ⟨fun _ _ => 0, fun a => UInt8.ofNat a⟩).mem 0x1003 0x2001 100 := by
  obtain ⟨⟨t, ht, hc, -⟩, -⟩ := @gdr_copy_is_memcpy ⟨.x86, true, true, true⟩ ⟨0, 0, 1⟩ 0x1003 0x2001 100 (fun _ => 0)
    (fun _ => rfl) rfl (.inl (by decide)) ⟨fun _ _ => 0, fun a => UInt8.ofNat a⟩
  exact ⟨t, ht, hc⟩

end gdrapi
