import GdrCopy.Lib.Blocks
import GdrCopy.Lib.Words
import GdrCopy.Tools.Sizes
/-!
# Slices of the workers

`pcibarstreambw` and `pcibardsabw` map a range of a BAR and give every worker a slice
of it. `main` computes the length of the mapping, the tests the slices. The sizes are
64 bits wide, and only the product of size and threads is checked for an overflow
(`slices_iff`).
-/

namespace pcibarlat

open Blocks

/-- `size_t`. -/
abbrev Size := BitVec 64

def PAGE_ROUND_DOWN (x n : Size) : Size := x &&& ~~~(n - 1)

def PAGE_ROUND_UP (x n : Size) : Size := (x + (n - 1)) &&& ~~~(n - 1)

/-- A number of threads that passed the checks of `main`: a positive `int`. -/
structure Threads where
  count : Nat
  pos : 0 < count
  lt : count < 2 ^ 31
  deriving DecidableEq

/-- The checks; `online` is what `get_online_cpus` returns. -/
def checkThreads (num_threads online : BitVec 32) : Option Threads :=
  if num_threads.toInt < 0 then none
  else
    let n := if num_threads = 0 then online else num_threads
    if h : n.toInt ≤ 0 then none
    else some ⟨n.toInt.toNat, by omega, by have := @BitVec.toInt_lt 32 n; omega⟩

/-- What `main` computes before it maps the BAR. -/
structure Layout where
  map_offset : Size
  page_delta : Size
  total_stream_size : Size
  map_size : Size

/-- `none` is an error exit. -/
def layout (page_size per_thread_size bar_offset : Size) (num_threads : Threads) : Option Layout :=
  let threads : Size := BitVec.ofNat 64 num_threads.count
  let map_offset := PAGE_ROUND_DOWN bar_offset page_size
  let page_delta := bar_offset - map_offset
  let total_stream_size := per_thread_size * threads
  if threads ≠ 0 ∧ total_stream_size / threads ≠ per_thread_size then none
  else some ⟨map_offset, page_delta, total_stream_size, PAGE_ROUND_UP (page_delta + total_stream_size) page_size⟩

/-- The size of a slice in `run_stream_test`, unless it dies. -/
def streamSize (worker_size : Size) : Option Size :=
  let worker_size := worker_size / 64 * 64
  if worker_size = 0 then none else some worker_size

/-- The same in `run_dsa_test`. -/
def dsaSize (worker_size : Size) : Option Size :=
  if worker_size = 0 then none else if worker_size > 0xffffffff then none else some worker_size

/-- `args[i].bar_ptr` and `args[i].size`. -/
def slice (bar_ptr worker_size : Size) (i : Nat) : Block :=
  ⟨(bar_ptr + BitVec.ofNat 64 i * worker_size).toNat, worker_size.toNat⟩

/-- A run of a tool: where the BAR is mapped, how long the mapping is, and the slices. `mmap` is asked for a length. -/
def run (workerSize : Size → Option Size) (mmap : Size → Option Size) (page_size_long per_thread_size bar_offset : Size)
    (num_threads : Threads) : Option (Size × Size × List Block) := do
  if page_size_long.toInt ≤ 0 then none
  else
    let l ← layout page_size_long per_thread_size bar_offset num_threads
    let map_base ← mmap l.map_size
    let bar_ptr := map_base + l.page_delta
    let worker_size ← workerSize per_thread_size
    some (map_base, l.map_size, (List.range num_threads.count).map (slice bar_ptr worker_size))

/-- The whole of a tool: `num_threads` is what was asked for. -/
def tool (workerSize : Size → Option Size) (mmap : Size → Option Size) (num_threads online : BitVec 32)
    (page_size_long per_thread_size bar_offset : Size) : Option (Size × Size × List Block) := do
  let threads ← checkThreads num_threads online
  run workerSize mmap page_size_long per_thread_size bar_offset threads

/-- The slices lie in the mapping, and no two overlap. -/
def Sliced (r : Size × Size × List Block) : Prop :=
  Within r.1.toNat (r.1.toNat + r.2.1.toNat) r.2.2 ∧ r.2.2.Pairwise Block.Disjoint

/-- A mapping is not empty, and lies in the address space. -/
def Maps (mmap : Size → Option Size) : Prop := ∀ size base, mmap size = some base → size ≠ 0 ∧
    base.toNat + size.toNat ≤ 2 ^ 64

/-! ## The mapping -/

section
variable {page_size per_thread_size bar_offset : Size} {k : Nat} {n : Threads} {l : Layout}

/-- The check of the product is exact. -/
theorem layout_total (h : layout page_size per_thread_size bar_offset n = some l) :
    l.total_stream_size.toNat = per_thread_size.toNat * n.count ∧
      l.page_delta = bar_offset - PAGE_ROUND_DOWN bar_offset page_size ∧
      l.map_size = PAGE_ROUND_UP (l.page_delta + l.total_stream_size) page_size := by
  have hn : (BitVec.ofNat 64 n.count : Size).toNat = n.count := by
    rw [BitVec.toNat_ofNat, Nat.mod_eq_of_lt]
    have := n.lt
    omega
  unfold layout at h
  dsimp only at h
  split_ifs at h with hover
  obtain rfl := Option.some.inj h
  refine ⟨?_, rfl, rfl⟩
  have hne : (BitVec.ofNat 64 n.count : Size) ≠ 0 := by
    intro h0
    have h0 := congrArg BitVec.toNat h0
    rw [hn] at h0
    exact absurd n.pos (by rw [h0]; decide)
  have hdiv : per_thread_size * BitVec.ofNat 64 n.count / BitVec.ofNat 64 n.count = per_thread_size := by
    by_contra hd
    exact hover ⟨hne, hd⟩
  have hdiv := congrArg BitVec.toNat hdiv
  rw [BitVec.toNat_udiv, BitVec.toNat_mul, hn] at hdiv
  rw [BitVec.toNat_mul, hn]
  -- the quotient is the size only if nothing was lost
  have hle := Nat.div_mul_le_self (per_thread_size.toNat * n.count % 2 ^ 64) n.count
  rw [hdiv] at hle
  exact Nat.le_antisymm (Nat.mod_le _ _) hle

theorem page_delta_toNat (hk : page_size.toNat = 2 ^ k) :
    (bar_offset - PAGE_ROUND_DOWN bar_offset page_size).toNat = bar_offset.toNat % 2 ^ k := by
  have hdown : (PAGE_ROUND_DOWN bar_offset page_size).toNat = bar_offset.toNat / 2 ^ k * 2 ^ k :=
    Words.round_down_toNat hk _
  have hle : PAGE_ROUND_DOWN bar_offset page_size ≤ bar_offset := by
    rw [BitVec.le_def, hdown]
    exact Nat.div_mul_le_self _ _
  have hmod := Nat.mod_add_div' bar_offset.toNat (2 ^ k)
  rw [BitVec.toNat_sub_of_le hle, hdown]
  omega

/-- The length of the mapping is rounded modulo `2 ^ 64`. -/
theorem map_size_toNat (hk : page_size.toNat = 2 ^ k) (h : layout page_size per_thread_size bar_offset n = some l) :
    l.map_size.toNat = (bar_offset.toNat % 2 ^ k + per_thread_size.toNat * n.count + (2 ^ k - 1)) % 2 ^ 64 / 2 ^
    k * 2 ^ k := by
  obtain ⟨htotal, hdelta, hsize⟩ := layout_total h
  have hpred := Words.add_pred (l.page_delta + l.total_stream_size) page_size
  rw [hsize, PAGE_ROUND_UP, ← hpred, Words.round_up_toNat hk, BitVec.toNat_add, htotal, hdelta,
    page_delta_toNat hk, Nat.mod_add_mod]

/-- The address of a slice, modulo `2 ^ 64`. -/
theorem slice_addr (base delta w : Size) (i : Nat) :
    (slice (base + delta) w i).addr = (base.toNat + delta.toNat + i * w.toNat) % 2 ^ 64 := by
  simp only [slice, BitVec.toNat_add, BitVec.toNat_mul, BitVec.toNat_ofNat, Nat.mod_mul_mod, Nat.mod_add_mod,
    Nat.add_mod_mod]

/-! ## The slices -/

section
variable {workerSize mmap : Size → Option Size} {r : Size × Size × List Block}

theorem run_eq_some (h : run workerSize mmap page_size per_thread_size bar_offset n = some r) :
    ∃ l w base, layout page_size per_thread_size bar_offset n = some l ∧ workerSize per_thread_size = some w ∧
      mmap l.map_size = some base ∧ 0 < page_size.toInt ∧
      r = (base, l.map_size, (List.range n.count).map (slice (base + l.page_delta) w)) := by
  unfold run at h
  split_ifs at h with hpos
  obtain ⟨l, hl, h⟩ := Option.bind_eq_some_iff.1 h
  obtain ⟨base, hbase, h⟩ := Option.bind_eq_some_iff.1 h
  obtain ⟨w, hw, h⟩ := Option.bind_eq_some_iff.1 h
  exact ⟨l, w, base, hl, hw, hbase, Int.not_le.1 hpos, (Option.some.inj h).symm⟩

/-- `sysconf` returns a `long`, so a page has less than half of the addresses. -/
theorem page_exponent_le (hk : page_size.toNat = 2 ^ k) (hpos : 0 < page_size.toInt) : k ≤ 62 := by
  have hlt : page_size.toNat < 2 ^ 63 := by
    rw [BitVec.toInt_eq_toNat_cond] at hpos
    split_ifs at hpos with hhalf
    · omega
    · have := page_size.isLt
      omega
  rw [hk] at hlt
  exact Nat.le_of_lt_succ ((Nat.pow_lt_pow_iff_right (by decide)).1 hlt)

/-- Where the mapping holds all slices, they are a row of blocks in it. -/
theorem sliced_of_fit {base delta map_size w : Size} (haddr : base.toNat + map_size.toNat ≤ 2 ^ 64)
    (hfit : delta.toNat + n.count * w.toNat ≤ map_size.toNat) (hw : w ≠ 0) :
    Sliced (base, map_size, (List.range n.count).map (slice (base + delta) w)) := by
  have hw : 0 < w.toNat := Nat.pos_of_ne_zero fun h0 => hw (BitVec.eq_of_toNat_eq h0)
  have hrow : (List.range n.count).map (slice (base + delta) w) = row (base.toNat + delta.toNat) w.toNat n.count := by
    refine List.map_congr_left fun i hi => ?_
    have hle : (i + 1) * w.toNat ≤ n.count * w.toNat := Nat.mul_le_mul_right _ (List.mem_range.1 hi)
    rw [Nat.succ_mul] at hle
    have haddr : (slice (base + delta) w i).addr = base.toNat + delta.toNat + i * w.toNat := by
      rw [slice_addr, Nat.mod_eq_of_lt]
      omega
    exact congrArg (Block.mk · w.toNat) haddr
  rw [hrow]
  have hend : base.toNat + delta.toNat + n.count * w.toNat ≤ base.toNat + map_size.toNat := by omega
  refine ⟨fun b hb => ?_, (row_ordered _ _ _).disjoint⟩
  obtain ⟨hlo, hhi⟩ := row_within _ _ _ b hb
  exact ⟨Nat.le_trans (Nat.le_add_right _ _) hlo, Nat.le_trans hhi hend⟩

/-- Without a carry the mapping holds what was asked for. -/
theorem le_map_size (hk : page_size.toNat = 2 ^ k) (h : layout page_size per_thread_size bar_offset n = some l)
    (hcarry : bar_offset.toNat % 2 ^ k + per_thread_size.toNat * n.count + (2 ^ k - 1) < 2 ^ 64) :
    bar_offset.toNat % 2 ^ k + per_thread_size.toNat * n.count ≤ l.map_size.toNat := by
  rw [map_size_toNat hk h, Nat.mod_eq_of_lt hcarry]
  have hdiv := Nat.div_add_mod (bar_offset.toNat % 2 ^ k + per_thread_size.toNat * n.count + (2 ^ k - 1)) (2 ^ k)
  have hmod := Nat.mod_lt (bar_offset.toNat % 2 ^ k + per_thread_size.toNat * n.count + (2 ^ k - 1)) (Nat.two_pow_pos k)
  rw [Nat.mul_comm] at hdiv
  omega

/-- With one it is a single page, or empty. -/
theorem map_size_of_carry (hk : page_size.toNat = 2 ^ k) (hk62 : k ≤ 62)
    (h : layout page_size per_thread_size bar_offset n = some l)
    (hcarry : ¬ bar_offset.toNat % 2 ^ k + per_thread_size.toNat * n.count + (2 ^ k - 1) < 2 ^ 64) :
    l.map_size.toNat = 0 ∨ l.map_size.toNat = 2 ^ k := by
  have hdelta := Nat.mod_lt bar_offset.toNat (Nat.two_pow_pos k)
  have htotal : per_thread_size.toNat * n.count < 2 ^ 64 := (layout_total h).1 ▸ l.total_stream_size.isLt
  have hpage : 2 ^ k ≤ 2 ^ 62 := Nat.pow_le_pow_right (by decide) hk62
  have hmod : (bar_offset.toNat % 2 ^ k + per_thread_size.toNat * n.count + (2 ^ k - 1)) % 2 ^ 64 < 2 * 2 ^ k := by
    rw [Nat.mod_eq_sub_mod (Nat.not_lt.1 hcarry), Nat.mod_eq_of_lt] <;> omega
  have hdiv := (Nat.div_lt_iff_lt_mul (Nat.two_pow_pos k)).2 hmod
  rw [map_size_toNat hk h]
  obtain h0 | h1 := Nat.le_one_iff_eq_zero_or_eq_one.1 (Nat.le_of_lt_succ hdiv)
  · exact .inl (by rw [h0, Nat.zero_mul])
  · exact .inr (by rw [h1, Nat.one_mul])

/-- The slice that covers the end of the page leaves the mapping. -/
theorem slice_leaves {base delta map_size w : Size} (haddr : base.toNat + map_size.toNat ≤ 2 ^ 64)
    (hdelta : delta.toNat ≤ map_size.toNat) (hw : 0 < w.toNat)
    (hout : map_size.toNat < delta.toNat + n.count * w.toNat) :
    ¬ Sliced (base, map_size, (List.range n.count).map (slice (base + delta) w)) := by
  rintro ⟨hin, -⟩
  let i := (map_size.toNat - delta.toNat) / w.toNat
  have hi : i < n.count := (Nat.div_lt_iff_lt_mul hw).2 (by omega)
  have hle : i * w.toNat ≤ map_size.toNat - delta.toNat := Nat.div_mul_le_self _ _
  have hgt : map_size.toNat - delta.toNat < i * w.toNat + w.toNat := Nat.lt_div_mul_add hw
  obtain ⟨hlo, hhi⟩ := hin _ (List.mem_map.2 ⟨i, List.mem_range.2 hi, rfl⟩)
  rw [slice_addr] at hlo hhi
  have hsize : (slice (base + delta) w i).size = w.toNat := rfl
  rw [hsize] at hhi
  dsimp only at hlo hhi
  by_cases hend : base.toNat + delta.toNat + i * w.toNat < 2 ^ 64
  · rw [Nat.mod_eq_of_lt hend] at hhi
    omega
  · -- the slice starts at the end of the address space
    have hend : base.toNat + delta.toNat + i * w.toNat = 2 ^ 64 := by omega
    rw [hend, Nat.mod_self] at hlo
    omega

end

theorem streamSize_eq_some {w : Size} (h : streamSize per_thread_size = some w) :
    0 < w.toNat ∧ w.toNat ≤ per_thread_size.toNat ∧ per_thread_size.toNat < 2 * w.toNat := by
  unfold streamSize at h
  dsimp only at h
  split_ifs at h with h0
  obtain rfl := Option.some.inj h
  have hlt := per_thread_size.isLt
  have hnat : (per_thread_size / 64 * 64).toNat = per_thread_size.toNat / 64 * 64 := by
    rw [BitVec.toNat_mul, BitVec.toNat_udiv, Nat.mod_eq_of_lt (Nat.lt_of_le_of_lt (Nat.div_mul_le_self _ _) hlt)]
    rfl
  have hpos : 0 < (per_thread_size / 64 * 64).toNat := Nat.pos_of_ne_zero fun hz => h0 (BitVec.eq_of_toNat_eq hz)
  omega

theorem dsaSize_eq_some {w : Size} (h : dsaSize per_thread_size = some w) : w = per_thread_size ∧ w ≠ 0 ∧
    w.toNat < 2 ^ 32 := by
  unfold dsaSize at h
  split_ifs at h with h0 hbig
  obtain rfl := Option.some.inj h
  refine ⟨rfl, h0, ?_⟩
  have hle := Nat.not_lt.1 fun hlt => hbig (BitVec.lt_def.2 hlt)
  exact Nat.lt_of_le_of_lt hle (by decide)

section
variable {mmap : Size → Option Size} {r : Size × Size × List Block}

/-- The streaming workers stay in the mapping and in their slices exactly where the sum of the offset in the
page, the size of all slices and the rounding fits 64 bits. -/
theorem stream_sliced (hk : page_size.toNat = 2 ^ k) (hm : Maps mmap)
    (h : run streamSize mmap page_size per_thread_size bar_offset n = some r) :
    Sliced r ↔ bar_offset.toNat % 2 ^ k + per_thread_size.toNat * n.count + (2 ^ k - 1) < 2 ^ 64 := by
  obtain ⟨l, w, base, hl, hw, hbase, hpos, rfl⟩ := run_eq_some h
  obtain ⟨hne, haddr⟩ := hm _ _ hbase
  obtain ⟨hw0, hwle, hwlt⟩ := streamSize_eq_some hw
  have hk62 := page_exponent_le hk hpos
  have hdelta : l.page_delta.toNat = bar_offset.toNat % 2 ^ k := by
    rw [(layout_total hl).2.1, page_delta_toNat hk]
  constructor
  · intro hs
    by_contra hcarry
    have hsize := (map_size_of_carry hk hk62 hl hcarry).resolve_left fun h0 => hne (BitVec.eq_of_toNat_eq h0)
    have hpage : 2 ^ k ≤ 2 ^ 62 := Nat.pow_le_pow_right (by decide) hk62
    have hmod := Nat.mod_lt bar_offset.toNat (Nat.two_pow_pos k)
    have hrounded : per_thread_size.toNat * n.count ≤ 2 * (n.count * w.toNat) := by
      rw [Nat.mul_comm, Nat.mul_left_comm]
      exact Nat.mul_le_mul_left _ hwlt.le
    refine slice_leaves haddr ?_ hw0 ?_ hs
    · omega
    · omega
  · intro hcarry
    have hle := le_map_size hk hl hcarry
    have hslices : n.count * w.toNat ≤ per_thread_size.toNat * n.count := by
      rw [Nat.mul_comm]
      exact Nat.mul_le_mul_right _ hwle
    refine sliced_of_fit haddr (by omega) ?_
    rintro rfl
    exact absurd hw0 (by decide)

/-- The copies of the DSA workers are too small for a carry. -/
theorem dsa_sliced (hk : page_size.toNat = 2 ^ k) (hm : Maps mmap)
    (h : run dsaSize mmap page_size per_thread_size bar_offset n = some r) :
    Sliced r := by
  obtain ⟨l, w, base, hl, hw, hbase, hpos, rfl⟩ := run_eq_some h
  obtain ⟨rfl, hw0, hwlt⟩ := dsaSize_eq_some hw
  have hk62 := page_exponent_le hk hpos
  have hdelta : l.page_delta.toNat = bar_offset.toNat % 2 ^ k := by
    rw [(layout_total hl).2.1, page_delta_toNat hk]
  have hcarry : bar_offset.toNat % 2 ^ k + w.toNat * n.count + (2 ^ k - 1) < 2 ^ 64 := by
    have hpage : 2 ^ k ≤ 2 ^ 62 := Nat.pow_le_pow_right (by decide) hk62
    have hmod := Nat.mod_lt bar_offset.toNat (Nat.two_pow_pos k)
    have htotal : w.toNat * n.count ≤ 2 ^ 32 * 2 ^ 31 := Nat.mul_le_mul hwlt.le n.lt.le
    have := (layout_total hl).1
    omega
  have hle := le_map_size hk hl hcarry
  rw [Nat.mul_comm] at hle
  exact sliced_of_fit (hm _ _ hbase).2 (by omega) hw0

/-- Both tools: the slices lie in the mapping and are disjoint, in the streaming tool exactly where no carry is lost. -/
theorem slices_iff {num_threads online : BitVec 32} (hk : page_size.toNat = 2 ^ k) (hm : Maps mmap) :
    (tool streamSize mmap num_threads online page_size per_thread_size bar_offset = some r →
      (Sliced r ↔ ∀ n ∈ checkThreads num_threads online,
        bar_offset.toNat % 2 ^ k + per_thread_size.toNat * n.count + (2 ^ k - 1) < 2 ^ 64)) ∧
    (tool dsaSize mmap num_threads online page_size per_thread_size bar_offset = some r → Sliced r) := by
  refine ⟨fun h => ?_, fun h => ?_⟩
  · obtain ⟨n, hn, h⟩ := Option.bind_eq_some_iff.1 h
    rw [stream_sliced hk hm h]
    refine ⟨fun hcarry n' hn' => ?_, fun hall => hall n hn⟩
    obtain rfl := Option.some.inj (hn.symm.trans hn')
    exact hcarry
  · obtain ⟨n, -, h⟩ := Option.bind_eq_some_iff.1 h
    exact dsa_sliced hk hm h

end

end

/-- `mmap` of a device of 1 TiB. -/
def deviceMmap (size : Size) : Option Size := if size = 0 ∨ 2 ^ 40 < size.toNat then none else some 0x7f0000000000

theorem deviceMmap_maps : Maps deviceMmap := by
  intro size base h
  unfold deviceMmap at h
  split_ifs at h with hsize
  obtain rfl := Option.some.inj h
  have hle : size.toNat ≤ 2 ^ 40 := Nat.not_lt.1 fun hlt => hsize (.inr hlt)
  exact ⟨fun h0 => hsize (.inl h0), Nat.le_trans (Nat.add_le_add_left hle _) (by decide)⟩

/-- Two workers with 4 KiB each, from the middle of a page. -/
theorem slices_two_workers : ∃ r, tool streamSize deviceMmap 2 8 4096 4096 64 = some r ∧ Sliced r := by
  have h : tool streamSize deviceMmap 2 8 4096 4096 64 =
      some (0x7f0000000000, 12288, [⟨0x7f0000000040, 4096⟩, ⟨0x7f0000001040, 4096⟩]) := by decide +kernel
  refine ⟨_, h, ((@slices_iff 4096 4096 64 12 deviceMmap _ 2 8 (by decide) deviceMmap_maps).1 h).2 fun n hn => ?_⟩
  have hn' : checkThreads 2 8 = some ⟨2, by decide, by decide⟩ := by decide +kernel
  obtain rfl := Option.some.inj (hn'.symm.trans hn)
  decide

/-- A size that the parser takes: the mapping is one page, the slice of the only worker all but 64 of the `2 ^
64` addresses. -/
theorem slice_leaves_page : Maps deviceMmap ∧
    (∀ binary, parse_size binary "18446744073709551615".toList false = some 0xffffffffffffffff) ∧
    tool streamSize deviceMmap 1 8 4096 0xffffffffffffffff 2 =
    some (0x7f0000000000, 4096, [⟨0x7f0000000002, 0xffffffffffffffc0⟩]) ∧
      ¬ Sliced (0x7f0000000000, 4096, [⟨0x7f0000000002, 0xffffffffffffffc0⟩]) := by
  refine ⟨deviceMmap_maps, by decide +kernel, by decide +kernel, fun h => ?_⟩
  have hle := (h.1 _ (List.mem_singleton.2 rfl)).2
  exact absurd hle (by decide)

end pcibarlat
