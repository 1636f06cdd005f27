import GdrCopy.Lib.Accesses
import GdrCopy.Api.Copy
/-!
# Aligned accesses

Which addresses the copy routines access, and how wide. A device mapping is only
accessed in aligned words (`device_mapping_aligned`), and the SIMD routines give an
instruction that wants an aligned address nothing else (`simd_aligned`). Both go
through their two ranges in order.
-/

set_option linter.style.nameCheck false

namespace gdrapi

open gdrdrv
open Bytes (Access Cursor Once Sweep Within reads writes)

abbrev Sweeps (t : List Instr) (d s n : Nat) : Prop := Bytes.Sweeps Load.width Store.width t d s n

theorem Moves.block_sweeps (v : Moves) (k : Nat) (c : Cursor) : Sweeps (v.block k c) c.d c.s (k * v.width) :=
  .block v.width_eq k c.d c.s

/-! ## Device mappings -/

/-- 1, 2, 4 or 8 bytes at a multiple of as many. -/
def Word (addr width : Nat) : Prop := width ∈ [1, 2, 4, 8] ∧ width ∣ addr

/-- The bulk `memcpy` moves whole words between aligned pointers. -/
def Instr.WordStore : Instr → Prop
  | .store op _ addr => Word addr op.width
  | .memcpy d s n => 8 ∣ d ∧ 8 ∣ s ∧ 8 ∣ n
  | _ => True

def Instr.WordLoad : Instr → Prop
  | .load op _ addr => Word addr op.width
  | .memcpy d s n => 8 ∣ d ∧ 8 ∣ s ∧ 8 ∣ n
  | _ => True

/-- How a copy to a device mapping may access it, and what it accesses. -/
structure DeviceStores (t : List Instr) (map h size : Nat) : Prop where
  words : ∀ i ∈ t, Instr.WordStore i
  mapping : Once (writes Store.width t) map size
  host : Once (reads Load.width t) h size

structure DeviceLoads (t : List Instr) (h map size : Nat) : Prop where
  words : ∀ i ∈ t, Instr.WordLoad i
  mapping : Once (reads Load.width t) map size
  host : Once (writes Store.width t) h size

theorem dvd_of_is_aligned {x : Nat} (k : Nat) (h : is_aligned x (2 ^ k) = true) : 2 ^ k ∣ x :=
  Nat.dvd_of_mod_eq_zero (is_aligned_two_pow h)

theorem single_stores {v : Moves} {c : Cursor} (h : Word c.d v.width) : ∀ i ∈ single v c, Instr.WordStore i := by
  intro i hi
  rcases List.mem_append.1 hi with hi | hi <;> obtain ⟨j, hj, rfl⟩ := List.mem_map.1 hi
  · trivial
  · obtain rfl := Nat.lt_one_iff.1 (List.mem_range.1 hj)
    simpa only [Instr.WordStore, Moves.width, Nat.zero_mul, Nat.add_zero] using h

theorem single_loads {v : Moves} {c : Cursor} (h : Word c.s v.width) : ∀ i ∈ single v c, Instr.WordLoad i := by
  intro i hi
  rcases List.mem_append.1 hi with hi | hi <;> obtain ⟨j, hj, rfl⟩ := List.mem_map.1 hi
  · obtain rfl := Nat.lt_one_iff.1 (List.mem_range.1 hj)
    simpa only [Instr.WordLoad, Moves.width, Nat.zero_mul, Nat.add_zero, v.width_eq] using h
  · trivial

/-- A turn of the device-mapping loops: everything that is left by `memcpy`, or one word at an aligned address. -/
theorem deviceTurn_cases {map : Cursor → Nat} {c : Cursor} {t : List Instr} {m : Nat}
    (h : deviceTurn map c = some (t, m)) :
    (t = [.memcpy c.d c.s c.n] ∧ m = c.n ∧ 8 ∣ c.d ∧ 8 ∣ c.s ∧ 8 ∣ c.n) ∨
    ∃ v : Moves, t = single v c ∧ m = 1 * v.width ∧ Word (map c) v.width := by
  unfold deviceTurn at h
  split_ifs at h with h0 h1 h2 h3 h4
  all_goals obtain ⟨rfl, rfl⟩ := Prod.mk.inj (Option.some.inj h)
  · simp only [Bool.and_eq_true] at h1
    exact .inl ⟨rfl, rfl, dvd_of_is_aligned 3 h1.1.2, dvd_of_is_aligned 3 h1.2, dvd_of_is_aligned 3 h1.1.1⟩
  · exact .inr ⟨word64, rfl, rfl, by decide, dvd_of_is_aligned 3 (Bool.and_eq_true_iff.1 h2).2⟩
  · exact .inr ⟨word32, rfl, rfl, by decide, dvd_of_is_aligned 2 (Bool.and_eq_true_iff.1 h3).2⟩
  · exact .inr ⟨word16, rfl, rfl, by decide, dvd_of_is_aligned 1 (Bool.and_eq_true_iff.1 h4).2⟩
  · exact .inr ⟨word8, rfl, rfl, by decide, Nat.one_dvd _⟩

theorem deviceTurn_sweeps {map : Cursor → Nat} {c : Cursor} {t : List Instr} {m : Nat}
    (h : deviceTurn map c = some (t, m)) :
    Sweeps t c.d c.s m := by
  rcases deviceTurn_cases h with ⟨rfl, rfl, -⟩ | ⟨v, rfl, rfl, -⟩
  · exact .memcpy _ _ _
  · exact v.block_sweeps 1 c

theorem device_sweeps (map : Cursor → Nat) (dst src size : Nat) :
    Sweeps (Bytes.Part.loop (deviceTurn map) ⟨dst, src, size⟩).1 dst src size := by
  have hgoes : Bytes.Part.Goes (Bytes.Sweeps Load.width Store.width) (Bytes.Part.loop (deviceTurn map)) :=
    .loop Bytes.Sweeps.chains fun c t m ht => deviceTurn_sweeps ht
  exact hgoes.all (c := ⟨dst, src, size⟩) (device_loop_ends map _)

/-- What holds of `memcpy` at aligned addresses and of single words at the mapping holds of the loop. -/
theorem device_words {I : Instr → Prop} {map : Cursor → Nat}
    (hmemcpy : ∀ c : Cursor, 8 ∣ c.d ∧ 8 ∣ c.s ∧ 8 ∣ c.n → I (.memcpy c.d c.s c.n))
    (hsingle : ∀ (v : Moves) (c : Cursor), Word (map c) v.width → ∀ i ∈ single v c, I i) (c : Cursor) :
    ∀ i ∈ (Bytes.Part.loop (deviceTurn map) c).1, I i := by
  have hwords : Bytes.Part.Triple I (fun _ => True) (Bytes.Part.loop (deviceTurn map)) fun _ => True := by
    refine .loop fun c t m _ ht _ _ => ⟨?_, trivial⟩
    rcases deviceTurn_cases ht with ⟨rfl, -, hd⟩ | ⟨v, rfl, -, hw⟩
    · intro i hi
      rw [List.mem_singleton.1 hi]
      exact hmemcpy c hd
    · exact hsingle v c hw
  exact (hwords c trivial).1

theorem memcpy_to_device_stores (map h size : Nat) : DeviceStores (memcpy_to_device_mapping map h size) map h size := by
  have hs : Sweeps (memcpy_to_device_mapping map h size) map h size := device_sweeps _ _ _ _
  exact ⟨device_words (fun _ hd => hd) (fun _ _ => single_stores) _, hs.writes.once, hs.reads.once⟩

theorem memcpy_from_device_loads (h map size : Nat) :
    DeviceLoads (memcpy_from_device_mapping h map size) h map size := by
  have hs : Sweeps (memcpy_from_device_mapping h map size) h map size := device_sweeps _ _ _ _
  exact ⟨device_words (fun _ hd => hd) (fun _ _ => single_loads) _, hs.reads.once, hs.writes.once⟩

theorem smallStore_stores {map h size : Nat} {t : List Instr} (ht : smallStore map h size = some t) :
    DeviceStores t map h size := by
  have hv : ∃ v : Moves, t = single v ⟨map, h, size⟩ ∧ size = 1 * v.width ∧ Word map v.width := by
    unfold smallStore at ht
    split_ifs at ht with h1 h2 h4 h8
    all_goals obtain rfl := Option.some.inj ht
    · exact ⟨word8, rfl, h1, by decide, Nat.one_dvd _⟩
    · simp only [Bool.and_eq_true, decide_eq_true_eq] at h2
      exact ⟨word16, rfl, h2.1, by decide, dvd_of_is_aligned 1 h2.2⟩
    · simp only [Bool.and_eq_true, decide_eq_true_eq] at h4
      exact ⟨word32, rfl, h4.1, by decide, dvd_of_is_aligned 2 h4.2⟩
    · simp only [Bool.and_eq_true, decide_eq_true_eq] at h8
      exact ⟨word64, rfl, h8.1, by decide, dvd_of_is_aligned 3 h8.2⟩
  obtain ⟨v, rfl, hsize, hw⟩ := hv
  have hs : Sweeps (single v ⟨map, h, size⟩) map h size := by
    have := v.block_sweeps 1 ⟨map, h, size⟩
    rwa [← hsize] at this
  exact ⟨single_stores hw, hs.writes.once, hs.reads.once⟩

/-- A fence accesses nothing. -/
theorem DeviceStores.fence {t : List Instr} {map h size : Nat} (ht : DeviceStores t map h size) (f : Fence) :
    DeviceStores (t ++ [.fence f]) map h size := by
  refine ⟨fun i hi => (List.mem_append.1 hi).elim (ht.words i) fun hf => ?_, ?_, ?_⟩
  · rw [List.mem_singleton.1 hf]
    trivial
  · rw [Bytes.writes_fence]
    exact ht.mapping
  · rw [Bytes.reads_fence]
    exact ht.host

theorem DeviceLoads.fence {t : List Instr} {h map size : Nat} (ht : DeviceLoads t h map size) (f : Fence) :
    DeviceLoads (t ++ [.fence f]) h map size := by
  refine ⟨fun i hi => (List.mem_append.1 hi).elim (ht.words i) fun hf => ?_, ?_, ?_⟩
  · rw [List.mem_singleton.1 hf]
    trivial
  · rw [Bytes.reads_fence]
    exact ht.mapping
  · rw [Bytes.writes_fence]
    exact ht.host

theorem DeviceStores.storeFence {t : List Instr} {map h size : Nat} (ht : DeviceStores t map h size)
    (counters : Nat → Int) (wc : Bool) :
    DeviceStores (t ++ storeFence counters wc) map h size := by
  unfold gdrapi.storeFence
  split_ifs
  · exact ht.fence _
  · exact ht.fence _
  · rwa [List.append_nil]

/-- What is dispatched for a device mapping: a single store, or the routine for device mappings. -/
theorem to_device_dispatch {c : Cpu} {counters : Nat → Int} {map h size : Nat} {t : List Instr}
    (ht : gdr_copy_to_mapping_internal c counters map h size GDR_MAPPING_TYPE_DEVICE = some t) :
    ∃ u, (smallStore map h size = some u ∨ u = memcpy_to_device_mapping map h size) ∧
    t = u ++ storeFence counters false := by
  unfold gdr_copy_to_mapping_internal at ht
  have hwc : (GDR_MAPPING_TYPE_DEVICE == GDR_MAPPING_TYPE_WC) = false := rfl
  have hdev : (GDR_MAPPING_TYPE_DEVICE == GDR_MAPPING_TYPE_DEVICE) = true := rfl
  simp only [hwc, hdev, Bool.false_and, Bool.false_eq_true, if_false, if_true] at ht
  cases hsmall : smallStore map h size with
  | some u =>
    rw [hsmall] at ht
    exact ⟨u, .inl rfl, (Option.some.inj ht).symm⟩
  | none =>
    rw [hsmall] at ht
    dsimp only at ht
    split_ifs at ht
    exact ⟨_, .inr rfl, (Option.some.inj ht).symm⟩

theorem from_device_dispatch {c : Cpu} {counters : Nat → Int} {h map size : Nat} {t : List Instr}
    (ht : gdr_copy_from_mapping_internal c counters h map size GDR_MAPPING_TYPE_DEVICE = some t) :
    t = memcpy_from_device_mapping h map size ∨
    t = memcpy_from_device_mapping h map size ++ [.fence .memory_fence] := by
  obtain ⟨u, hu, rfl⟩ := Option.map_eq_some_iff.1 ht
  have hwc : (GDR_MAPPING_TYPE_DEVICE == GDR_MAPPING_TYPE_WC) = false := rfl
  have hdev : (GDR_MAPPING_TYPE_DEVICE == GDR_MAPPING_TYPE_DEVICE) = true := rfl
  simp only [hwc, hdev, Bool.false_and, Bool.false_eq_true, if_false, if_true] at hu
  have hu : u = memcpy_from_device_mapping h map size := by
    split_ifs at hu
    exact (Option.some.inj hu).symm
  rw [hu]
  split_ifs
  · exact .inr rfl
  · exact .inl rfl

/-- For every size and every two addresses, both loops for device mappings end, and access
each byte of the mapping once, in aligned words, and nothing else there. So do the single
stores, and whatever is dispatched for a device mapping. -/
theorem device_mapping_aligned (map h size : Nat) :
    (DeviceStores (memcpy_to_device_mapping map h size) map h size ∧
      (Bytes.Part.loop (deviceTurn (·.d)) ⟨map, h, size⟩).2.n = 0) ∧
    (DeviceLoads (memcpy_from_device_mapping h map size) h map size ∧
      (Bytes.Part.loop (deviceTurn (·.s)) ⟨h, map, size⟩).2.n = 0) ∧
    (∀ t, smallStore map h size = some t → DeviceStores t map h size) ∧
    ∀ c counters t,
      (gdr_copy_to_mapping_internal c counters map h size GDR_MAPPING_TYPE_DEVICE = some t →
        DeviceStores t map h size) ∧
      (gdr_copy_from_mapping_internal c counters h map size GDR_MAPPING_TYPE_DEVICE = some t →
        DeviceLoads t h map size) := by
  have hto := memcpy_to_device_stores map h size
  have hfrom := memcpy_from_device_loads h map size
  refine ⟨⟨hto, device_loop_ends _ _⟩, ⟨hfrom, device_loop_ends _ _⟩, fun t => smallStore_stores,
    fun c counters t => ⟨fun ht => ?_, fun ht => ?_⟩⟩
  · obtain ⟨u, hu, rfl⟩ := to_device_dispatch ht
    rcases hu with hu | rfl
    · exact (smallStore_stores hu).storeFence _ _
    · exact hto.storeFence _ _
  · rcases from_device_dispatch ht with rfl | rfl
    · exact hfrom
    · exact hfrom.fence _

/-- 8 bytes to an aligned address are a single store, 11 to an odd one start with a byte and two. -/
theorem device_mapping_aligned_arm : DeviceStores (single word64 ⟨0x1008, 0x2001, 8⟩) 0x1008 0x2001 8 ∧
    DeviceStores (memcpy_to_device_mapping 0x1001 0x2000 11 ++ [.fence .memory_fence]) 0x1001 0x2000 11 :=
  ⟨(device_mapping_aligned 0x1008 0x2001 8).2.2.1 _ rfl,
    ((device_mapping_aligned 0x1001 0x2000 11).2.2.2 ⟨.arm64, false, false, false⟩ (fun _ => 1) _).1 rfl⟩

/-! ## SIMD routines -/

/-- The alignment an intrinsic wants of its address. -/
def Load.align : Load → Nat
  | ._mm_load_ps => 16
  | ._mm256_load_pd => 32
  | ._mm_stream_load_si128 => 16
  | _ => 1

def Store.align : Store → Nat
  | ._mm_store_ps => 16
  | ._mm_stream_ps => 16
  | ._mm256_store_pd => 32
  | ._mm256_stream_pd => 32
  | ._mm_stream_si128 => 16
  | _ => 1

def Instr.Aligned : Instr → Prop
  | .load op _ addr => op.align ∣ addr
  | .store op _ addr => op.align ∣ addr
  | _ => True

/-- How a SIMD copy accesses memory: all `n_bytes` are read and written, inside the two buffers. -/
structure SimdAccesses (t : List Instr) (dest src n_bytes : Nat) : Prop where
  aligned : ∀ i ∈ t, Instr.Aligned i
  reads : Within (reads Load.width t) src n_bytes
  writes : Within (writes Store.width t) dest n_bytes
  read : ((Bytes.reads Load.width t).map (·.len)).sum = n_bytes
  written : ((Bytes.writes Store.width t).map (·.len)).sum = n_bytes

theorem Load.align_dvd_width (op : Load) : op.align ∣ op.width := by cases op <;> decide

theorem Store.align_dvd_width (op : Store) : op.align ∣ op.width := by cases op <;> decide

/-- What a loop wants of the cursor, unless it makes no turn. -/
def Moves.Fits (v : Moves) (c : Cursor) : Prop := c.n = 0 ∨ v.load.align ∣ c.s ∧ v.store.align ∣ c.d

theorem Moves.block_aligned {v : Moves} {k : Nat} {c : Cursor} (hs : v.load.align ∣ c.s) (hd : v.store.align ∣ c.d) :
    ∀ i ∈ v.block k c, Instr.Aligned i := by
  intro i hi
  rcases List.mem_append.1 hi with hi | hi <;> obtain ⟨j, -, rfl⟩ := List.mem_map.1 hi
  · exact Nat.dvd_add hs (v.load.align_dvd_width.mul_left j)
  · exact Nat.dvd_add hd (v.store.align_dvd_width.mul_left j)

theorem vectorLoop_aligned (v : Moves) (k : Nat) : Bytes.Part.Triple Instr.Aligned v.Fits (vectorLoop v k) v.Fits := by
  refine .loop fun c t m hc hb hpos hle => ?_
  split_ifs at hb with hk
  obtain ⟨rfl, rfl⟩ := Prod.mk.inj (Option.some.inj hb)
  obtain ⟨hs, hd⟩ := hc.resolve_left (Nat.ne_of_gt (Nat.lt_of_lt_of_le hpos hle))
  refine ⟨v.block_aligned hs hd, .inr ⟨?_, ?_⟩⟩
  · rw [Moves.width, ← v.width_eq]
    exact Nat.dvd_add hs (v.load.align_dvd_width.mul_left k)
  · exact Nat.dvd_add hd (v.store.align_dvd_width.mul_left k)

theorem vectorLoops_aligned (v : Moves) : Bytes.Part.Triple Instr.Aligned v.Fits (vectorLoops v) v.Fits :=
  (vectorLoop_aligned v _).seq (vectorLoop_aligned v _)

/-- The head copy aligns `p`, or uses up all the bytes there are. -/
theorem alignHead_aligns {k : Nat} {p : Cursor → Nat} (hp : ∀ c m, p (c.advance m) = p c + m) :
    Bytes.Part.Triple Instr.Aligned (fun _ => True) (alignHead (2 ^ k) p) fun c => c.n = 0 ∨ 2 ^ k ∣ p c := by
  intro c _
  unfold alignHead
  split_ifs with h
  · refine ⟨fun i hi => ?_, ?_⟩
    · rw [List.mem_singleton.1 hi]
      trivial
    · rw [Nat.and_two_pow_sub_one_eq_mod] at h ⊢
      have hlt : p c % 2 ^ k < 2 ^ k := Nat.mod_lt _ (Nat.two_pow_pos k)
      by_cases hle : 2 ^ k - p c % 2 ^ k ≤ c.n
      · refine .inr ?_
        rw [hp, Nat.min_eq_left hle]
        have he : p c + (2 ^ k - p c % 2 ^ k) = 2 ^ k * (p c / 2 ^ k + 1) := by
          have := Nat.div_add_mod (p c) (2 ^ k)
          rw [Nat.mul_succ]
          omega
        exact he ▸ Nat.dvd_mul_right _ _
      · refine .inl ?_
        rw [Nat.min_eq_right (by omega)]
        exact Nat.sub_self _
  · rw [not_not, Nat.and_two_pow_sub_one_eq_mod] at h
    exact ⟨fun i hi => absurd hi List.not_mem_nil, .inr (Nat.dvd_of_mod_eq_zero h)⟩

/-- The loops leave less than one vector for the last `memcpy`. -/
theorem vectorLoops_left (v : Moves) (c : Cursor) : (vectorLoops v c).2.n < v.width := by
  have hw : 0 < v.width := v.store.width_pos
  have hstop := @Bytes.loop_stops _ (fun c => if 1 * v.width ≤ c.n then some (v.block 1 c, 1 * v.width) else none)
    (fun c t m h => by split_ifs at h; cases h; omega) (vectorLoop v v.unroll c).2
  split_ifs at hstop with hle
  have hlt : (vectorLoops v c).2.n < 1 * v.width := Nat.lt_of_not_le hle
  rwa [Nat.one_mul] at hlt

/-- One routine, given what its loops want once `p` is aligned, and where `q` then is too. -/
theorem simdMemcpy_accesses {k : Nat} {p q : Cursor → Nat} {unaligned aligned : Moves}
    (hp : ∀ c m, p (c.advance m) = p c + m)
    (hu : ∀ c, 2 ^ k ∣ p c → unaligned.load.align ∣ c.s ∧ unaligned.store.align ∣ c.d)
    (ha : ∀ c, 2 ^ k ∣ p c → 2 ^ k ∣ q c → aligned.load.align ∣ c.s ∧ aligned.store.align ∣ c.d)
    (dest src n_bytes : Nat) : SimdAccesses (simdMemcpy (2 ^ k) p q unaligned aligned dest src n_bytes) dest
    src n_bytes := by
  let loops : Part := fun c => if q c &&& (2 ^ k - 1) ≠ 0 then vectorLoops unaligned c else vectorLoops aligned c
  have hloops : Bytes.Part.Triple Instr.Aligned (fun c => c.n = 0 ∨ 2 ^ k ∣ p c) loops fun _ => True := by
    intro c hc
    by_cases hq : q c &&& (2 ^ k - 1) ≠ 0
    · rw [show loops c = vectorLoops unaligned c from if_pos hq]
      exact ⟨(vectorLoops_aligned unaligned c (hc.imp_right (hu c))).1, trivial⟩
    · rw [show loops c = vectorLoops aligned c from if_neg hq]
      rw [not_not, Nat.and_two_pow_sub_one_eq_mod] at hq
      exact ⟨(vectorLoops_aligned aligned c (hc.imp_right fun h => ha c h (Nat.dvd_of_mod_eq_zero hq))).1, trivial⟩
  have htail : Bytes.Part.Triple Instr.Aligned (fun _ => True) copyTail fun _ => True := by
    intro c _
    refine ⟨fun i hi => ?_, trivial⟩
    unfold copyTail at hi
    split_ifs at hi
    · rw [List.mem_singleton.1 hi]
      trivial
    · cases hi
  have hok := (((alignHead_aligns hp).seq hloops).seq htail) ⟨dest, src, n_bytes⟩ trivial
  obtain ⟨t, ht, hsweeps⟩ := simdMemcpy_goes Bytes.Sweeps.chains .memcpy Moves.block_sweeps (2 ^ k) p q
    unaligned aligned dest src n_bytes
  have hs := hsweeps.fence Fence._mm_sfence
  rw [← ht] at hs
  refine ⟨fun i hi => (List.mem_append.1 hi).elim (hok.1 i) fun hf => ?_, hs.reads.within, hs.writes.within,
    hs.reads.total, hs.writes.total⟩
  rw [List.mem_singleton.1 hf]
  trivial

/-- For every two addresses and every size, the SIMD routines give an aligned instruction only aligned
addresses, and stay in their buffers. Their loops end with less than a vector left, and after the tail nothing is. -/
theorem simd_aligned (dest src n_bytes : Nat) :
    SimdAccesses (memcpy_uncached_store_avx dest src n_bytes) dest src n_bytes ∧
    SimdAccesses (memcpy_cached_store_avx dest src n_bytes) dest src n_bytes ∧
    SimdAccesses (memcpy_uncached_store_sse dest src n_bytes) dest src n_bytes ∧
    SimdAccesses (memcpy_cached_store_sse dest src n_bytes) dest src n_bytes ∧
    SimdAccesses (memcpy_uncached_load_sse41 dest src n_bytes) dest src n_bytes ∧
    ∀ v c, (vectorLoops v c).2.n < v.width ∧ (copyTail (vectorLoops v c).2).2.n = 0 := by
  refine ⟨?_, ?_, ?_, ?_, ?_, fun v c => ⟨vectorLoops_left v c, Nat.sub_self _⟩⟩
  · exact simdMemcpy_accesses (k := 5) (fun _ _ => rfl) (fun c hd => ⟨Nat.one_dvd _, hd⟩)
      (fun c hd hs => ⟨hs, hd⟩) dest src n_bytes
  · exact simdMemcpy_accesses (k := 5) (fun _ _ => rfl) (fun c hd => ⟨Nat.one_dvd _, hd⟩)
      (fun c hd hs => ⟨hs, hd⟩) dest src n_bytes
  · exact simdMemcpy_accesses (k := 4) (fun _ _ => rfl) (fun c hd => ⟨Nat.one_dvd _, hd⟩)
      (fun c hd hs => ⟨hs, hd⟩) dest src n_bytes
  · exact simdMemcpy_accesses (k := 4) (fun _ _ => rfl) (fun c hd => ⟨Nat.one_dvd _, hd⟩)
      (fun c hd hs => ⟨hs, hd⟩) dest src n_bytes
  · exact simdMemcpy_accesses (k := 4) (fun _ _ => rfl) (fun c hs => ⟨hs, Nat.one_dvd _⟩)
      (fun c hs hd => ⟨hs, hd⟩) dest src n_bytes

end gdrapi
