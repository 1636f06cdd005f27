import GdrCopy.Lib.Words
import Mathlib.Order.Bounds.Defs
/-!
# The range of copy sizes

The list of sizes that `copybw` measures. With `-l` the usage text promises sizes up to
`ROUND_DOWN_POW_2(copy_size)`, but the loop ends before it (`range_misses_last`).
-/

namespace copybw

open Words

/-- `size_t` and `uint64_t`. -/
abbrev Size := BitVec 64

def UINT32_MAX : Size := 0xffffffff

def round_down_pow_2 (x : Size) : Size :=
  if x = 0 then 0
  else
    let x := x ||| x >>> 1
    let x := x ||| x >>> 2
    let x := x ||| x >>> 4
    let x := x ||| x >>> 8
    let x := x ||| x >>> 16
    let x := if x > UINT32_MAX then x ||| x >>> 32 else x
    x - x >>> 1

/-- `for (size_t i = 1; i < bound; i <<= 1)`, or `none` if `fuel` runs out. -/
def sizesLoop (bound : Size) : Nat → Size → Option (List Size)
  | 0, _ => none
  | fuel + 1, i => if i < bound then (sizesLoop bound fuel (i <<< 1)).map (i :: ·) else some []

def upper (size copy_size_upper_bound : Size) : Size :=
  if copy_size_upper_bound = 0 then size else if size < copy_size_upper_bound then size else copy_size_upper_bound

/-- The list `copy_size`. -/
def copySizes (fuel : Nat) (copy_size_range : Bool) (size copy_size_upper_bound : Size) : Option (List Size) :=
  if !copy_size_range then
    if copy_size_upper_bound = 0 then some [size] else some [copy_size_upper_bound]
  else sizesLoop (round_down_pow_2 (upper size copy_size_upper_bound)) fuel 1

/-- The sizes from 1 byte to `last`, a power of two. -/
def promised (last : Nat) : List Nat := (List.range (Nat.log2 last + 1)).map (2 ^ ·)

/-! ## Rounding down -/

section
variable {k m : Nat} {x : Size}

theorem smear (h : Smeared k m x.toNat) : Smeared k (m + m) (x ||| x >>> m).toNat := by
  rw [BitVec.toNat_or, BitVec.toNat_ushiftRight]
  exact h.step

/-- Below `UINT32_MAX` all lower bits are already set, above it one more step sets them. -/
theorem highest_bit (h : Smeared k 32 x.toNat) (hk : k < 64) :
    ((if x > UINT32_MAX then x ||| x >>> 32 else x) -
      (if x > UINT32_MAX then x ||| x >>> 32 else x) >>> 1).toNat = 2 ^ k := by
  have hfull : (if x > UINT32_MAX then x ||| x >>> 32 else x).toNat = 2 ^ (k + 1) - 1 := by
    by_cases hbig : x > UINT32_MAX
    · rw [if_pos hbig]
      exact (smear h).full hk
    · rw [if_neg hbig]
      have hlt : x.toNat < 2 ^ 32 := Nat.lt_succ_of_le (Nat.not_lt.1 hbig)
      have hpow : 2 ^ k < 2 ^ 32 := Nat.lt_of_le_of_lt (h.two_pow_le (by decide)) hlt
      exact h.full ((Nat.pow_lt_pow_iff_right (by decide)).1 hpow)
  generalize (if x > UINT32_MAX then x ||| x >>> 32 else x) = y at hfull ⊢
  have hhalf : (y >>> 1).toNat = y.toNat / 2 := by rw [BitVec.toNat_ushiftRight, Nat.shiftRight_eq_div_pow, pow_one]
  have hle : y >>> 1 ≤ y := by
    rw [BitVec.le_def, hhalf]
    exact Nat.div_le_self _ _
  rw [BitVec.toNat_sub_of_le hle, hhalf, hfull, pow_succ]
  have hpos := Nat.two_pow_pos k
  omega

theorem round_down_pow_2_toNat (h : x ≠ 0) : (round_down_pow_2 x).toNat = 2 ^ Nat.log2 x.toNat := by
  have hne : x.toNat ≠ 0 := fun h0 => h (BitVec.eq_of_toNat_eq h0)
  rw [round_down_pow_2, if_neg h]
  exact highest_bit (smear (smear (smear (smear (smear (Smeared.start hne)))))) ((Nat.log2_lt hne).2 x.isLt)

/-- The result is the largest power of two that is not above `x`. -/
theorem round_down_pow_2_greatest (h : x ≠ 0) : IsGreatest {p | (∃ j, p = 2 ^ j) ∧ p ≤ x.toNat}
    (round_down_pow_2 x).toNat := by
  have hne : x.toNat ≠ 0 := fun h0 => h (BitVec.eq_of_toNat_eq h0)
  rw [round_down_pow_2_toNat h]
  refine ⟨⟨⟨_, rfl⟩, Nat.log2_self_le hne⟩, ?_⟩
  rintro p ⟨⟨j, rfl⟩, hle⟩
  exact Nat.pow_le_pow_right two_pos ((Nat.le_log2 hne).2 hle)

end

/-! ## The loop -/

theorem ofNat_two_pow {j : Nat} (hj : j < 64) : (BitVec.ofNat 64 (2 ^ j)).toNat = 2 ^ j := by
  rw [BitVec.toNat_ofNat, Nat.mod_eq_of_lt (Nat.pow_lt_pow_right (by decide) hj)]

theorem two_pow_shiftLeft_one (j : Nat) : BitVec.ofNat 64 (2 ^ j) <<< 1 = BitVec.ofNat 64 (2 ^ (j + 1)) := by
  apply BitVec.eq_of_toNat_eq
  rw [BitVec.toNat_shiftLeft, BitVec.toNat_ofNat, BitVec.toNat_ofNat, Nat.shiftLeft_eq, pow_one,
    Nat.mod_mul_mod, pow_succ 2 j]

/-- From `2 ^ j` the loop goes through the powers below the bound, `d` of them. -/
theorem sizesLoop_two_pow {bound : Size} {k : Nat} (hk : k < 64) (hb : bound.toNat = 2 ^ k) (d : Nat) :
    ∀ j fuel, j + d = k → d < fuel →
      sizesLoop bound fuel (BitVec.ofNat 64 (2 ^ j)) =
      some ((List.range' j d).map fun e => BitVec.ofNat 64 (2 ^ e)) := by
  induction d with
  | zero =>
    intro j fuel hj hfuel
    obtain ⟨fuel, rfl⟩ := Nat.exists_eq_succ_of_ne_zero (Nat.ne_of_gt hfuel)
    have hend : ¬ BitVec.ofNat 64 (2 ^ j) < bound := by
      rw [BitVec.lt_def, ofNat_two_pow (by omega), hb, ← hj]
      exact Nat.lt_irrefl _
    rw [sizesLoop, if_neg hend]
    rfl
  | succ d ih =>
    intro j fuel hj hfuel
    obtain ⟨fuel, rfl⟩ := Nat.exists_eq_succ_of_ne_zero (Nat.ne_of_gt (Nat.zero_lt_of_lt hfuel))
    have hlt : BitVec.ofNat 64 (2 ^ j) < bound := by
      rw [BitVec.lt_def, ofNat_two_pow (by omega), hb]
      exact Nat.pow_lt_pow_right (by decide) (by omega)
    rw [sizesLoop, if_pos hlt, two_pow_shiftLeft_one, ih (j + 1) fuel (by omega) (by omega)]
    rfl

section
variable {size copy_size_upper_bound : Size}

/-- With `-l` the list ends, whatever the sizes are, and is the promised one without its last size. -/
theorem range_misses_last (h : upper size copy_size_upper_bound ≠ 0) :
    IsGreatest {p | (∃ j, p = 2 ^ j) ∧ p ≤ (upper size copy_size_upper_bound).toNat}
      (round_down_pow_2 (upper size copy_size_upper_bound)).toNat ∧
    ∃ sizes, (∀ fuel, 64 ≤ fuel → copySizes fuel true size copy_size_upper_bound = some sizes) ∧
      sizes.map BitVec.toNat = (promised (round_down_pow_2 (upper size copy_size_upper_bound)).toNat).dropLast ∧
      sizes.map BitVec.toNat ≠ promised (round_down_pow_2 (upper size copy_size_upper_bound)).toNat := by
  have hround := round_down_pow_2_toNat h
  have hne : (upper size copy_size_upper_bound).toNat ≠ 0 := fun h0 => h (BitVec.eq_of_toNat_eq h0)
  have hk : Nat.log2 (upper size copy_size_upper_bound).toNat < 64 := (Nat.log2_lt hne).2 (BitVec.isLt _)
  generalize hlog : Nat.log2 (upper size copy_size_upper_bound).toNat = k at hround hk
  have hprom : promised (2 ^ k) = (List.range k).map (2 ^ ·) ++ [2 ^ k] := by
    rw [promised, Nat.log2_two_pow, List.range_succ, List.map_append]
    rfl
  have hsizes : ((List.range' 0 k).map fun e => BitVec.ofNat 64 (2 ^ e)).map BitVec.toNat =
      (List.range k).map (2 ^ ·) := by
    rw [List.map_map, ← List.range_eq_range']
    refine List.map_congr_left fun e he => ofNat_two_pow (Nat.lt_trans (List.mem_range.1 he) hk)
  refine ⟨round_down_pow_2_greatest h, (List.range' 0 k).map fun e => BitVec.ofNat 64 (2 ^ e),
    fun fuel hfuel => ?_, ?_, ?_⟩
  · rw [copySizes]
    exact sizesLoop_two_pow hk hround k 0 fuel (Nat.zero_add k) (Nat.lt_of_lt_of_le hk hfuel)
  · rw [hround, hprom, List.dropLast_concat, hsizes]
  · rw [hround, hprom, hsizes]
    intro heq
    have hlen := congrArg List.length heq
    rw [List.length_append] at hlen
    exact absurd hlen (Nat.ne_of_lt (Nat.lt_add_of_pos_right Nat.one_pos))

end

/-- Up to 8 bytes the sizes are 1, 2 and 4. -/
theorem range_to_eight : copySizes 64 true 8 0 = some [1, 2, 4] ∧
    promised (round_down_pow_2 (upper 8 0)).toNat = [1, 2, 4, 8] ∧
    (copySizes 64 true 8 0).map (·.map BitVec.toNat) ≠ some (promised (round_down_pow_2 (upper 8 0)).toNat) := by
  decide +kernel

/-- The default size with an upper bound of 1000 bytes. -/
theorem range_to_thousand : ∃ sizes, copySizes 64 true 131072 1000 = some sizes ∧
    sizes.map BitVec.toNat = (promised 512).dropLast ∧ sizes.map BitVec.toNat ≠ promised 512 := by
  have hround : (round_down_pow_2 (upper 131072 1000)).toNat = 512 := by decide +kernel
  obtain ⟨-, sizes, hrun, hlist, hne⟩ := @range_misses_last 131072 1000 (by decide +kernel)
  rw [hround] at hlist hne
  exact ⟨sizes, hrun 64 (Nat.le_refl 64), hlist, hne⟩

end copybw
