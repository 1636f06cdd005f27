import Mathlib.Tactic.Ring
/-!
# Masks and shifts as arithmetic

C code aligns addresses with bit masks. On a word below `2 ^ w` these are a
division and a remainder, which `omega` can use.
-/

namespace Words

theorem shiftRight_ones (w k : Nat) (h : k ≤ w) : (2 ^ w - 1) >>> k = 2 ^ (w - k) - 1 := by
  have hw : 2 ^ w = 2 ^ (w - k) * 2 ^ k := by rw [← pow_add, Nat.sub_add_cancel h]
  have hk : 0 < 2 ^ k := Nat.two_pow_pos k
  have hd : 0 < 2 ^ (w - k) := Nat.two_pow_pos _
  rw [Nat.shiftRight_eq_div_pow, hw]
  refine Nat.div_eq_of_lt_le ?_ ?_
  · rw [Nat.sub_mul, one_mul]; omega
  · rw [Nat.sub_add_cancel hd]; exact Nat.sub_lt (Nat.mul_pos hd hk) one_pos

/-- The mask of the bits from `k` up clears the low `k` bits. -/
theorem and_high_mask {x w k : Nat} (hx : x < 2 ^ w) (hk : k ≤ w) :
    x &&& (2 ^ w - 1 - (2 ^ k - 1)) = x / 2 ^ k * 2 ^ k := by
  have hlow : 2 ^ k - 1 < 2 ^ w :=
    Nat.lt_of_lt_of_le (Nat.sub_lt (Nat.two_pow_pos k) one_pos) (Nat.pow_le_pow_right two_pos hk)
  have hmask : 2 ^ w - 1 - (2 ^ k - 1) = 2 ^ w - (2 ^ k - 1 + 1) := by omega
  apply Nat.eq_of_testBit_eq
  intro i
  rw [hmask, Nat.testBit_and, Nat.testBit_two_pow_sub_succ hlow, Nat.testBit_two_pow_sub_one, ← Nat.shiftLeft_eq,
    Nat.testBit_shiftLeft, Nat.testBit_div_two_pow]
  by_cases hik : i < k
  · simp [hik]
  · have e : i - k + k = i := Nat.sub_add_cancel (by omega)
    by_cases hiw : i < w
    · simp [hik, hiw, e, show k ≤ i by omega]
    · simp [hik, hiw, e, Nat.testBit_lt_two_pow
        (Nat.lt_of_lt_of_le hx (Nat.pow_le_pow_right two_pos (Nat.le_of_not_lt hiw)))]

/-- Setting the low `k` bits. -/
theorem or_low_mask (x k : Nat) : x ||| (2 ^ k - 1) = x / 2 ^ k * 2 ^ k + (2 ^ k - 1) := by
  have hk : 0 < 2 ^ k := Nat.two_pow_pos k
  have hl : 2 ^ k - 1 < 2 ^ k := Nat.sub_lt hk one_pos
  rw [← Nat.shiftLeft_eq, Nat.shiftLeft_add_eq_or_of_lt hl]
  apply Nat.eq_of_testBit_eq
  intro i
  simp only [Nat.testBit_or, Nat.testBit_shiftLeft, Nat.testBit_div_two_pow, Nat.testBit_two_pow_sub_one]
  by_cases hik : i < k
  · simp [hik]
  · simp [hik, show k ≤ i by omega]

/-! ## Rounding to a power of two -/

section
variable {w k : Nat} {align : BitVec w}

theorem lt_of_two_pow (ha : align.toNat = 2 ^ k) : k < w := by
  have hlt := align.isLt
  rw [ha] at hlt
  exact (Nat.pow_lt_pow_iff_right (by decide)).1 hlt

theorem two_pow_pred (ha : align.toNat = 2 ^ k) : (align - 1).toNat = 2 ^ k - 1 := by
  have hkw := lt_of_two_pow ha
  have hone : (1 : BitVec w).toNat = 1 := BitVec.toNat_one (by omega)
  have hle : (1 : BitVec w) ≤ align := by
    rw [BitVec.le_def, ha, hone]
    exact Nat.two_pow_pos k
  rw [BitVec.toNat_sub_of_le hle, ha, hone]

theorem add_pred (value align : BitVec w) : value + align - 1 = value + (align - 1) := by
  rw [BitVec.sub_eq_add_neg, BitVec.add_assoc, ← BitVec.sub_eq_add_neg]

/-- Rounding down by a mask. -/
theorem round_down_toNat (ha : align.toNat = 2 ^ k) (value : BitVec w) :
    (value &&& ~~~(align - 1)).toNat = value.toNat / 2 ^ k * 2 ^ k := by
  rw [BitVec.toNat_and, BitVec.toNat_not, two_pow_pred ha, and_high_mask value.isLt (lt_of_two_pow ha).le]

/-- Rounding up by a mask, with the carry out of the word lost. -/
theorem round_up_toNat (ha : align.toNat = 2 ^ k) (value : BitVec w) :
    ((value + align - 1) &&& ~~~(align - 1)).toNat = (value.toNat + (2 ^ k - 1)) % 2 ^ w / 2 ^ k * 2 ^ k := by
  rw [round_down_toNat ha, add_pred, BitVec.toNat_add, two_pow_pred ha]

/-- Without a carry the result is the next multiple. -/
theorem round_up_le (ha : align.toNat = 2 ^ k) {value : BitVec w} (h : value.toNat + (2 ^ k - 1) < 2 ^ w) :
    value.toNat ≤ ((value + align - 1) &&& ~~~(align - 1)).toNat ∧
      ((value + align - 1) &&& ~~~(align - 1)).toNat ≤ value.toNat + (2 ^ k - 1) := by
  have hk : 0 < 2 ^ k := Nat.two_pow_pos k
  rw [round_up_toNat ha, Nat.mod_eq_of_lt h]
  have hdiv := Nat.div_add_mod (value.toNat + (2 ^ k - 1)) (2 ^ k)
  have hmod := Nat.mod_lt (value.toNat + (2 ^ k - 1)) hk
  rw [Nat.mul_comm] at hdiv
  omega

theorem dvd_round_up (ha : align.toNat = 2 ^ k) (value : BitVec w) :
    2 ^ k ∣ ((value + align - 1) &&& ~~~(align - 1)).toNat := by
  rw [round_up_toNat ha]
  exact Nat.dvd_mul_left _ _

/-- The result is no more than any multiple from the value on. -/
theorem round_up_least (ha : align.toNat = 2 ^ k) {value : BitVec w} {n : Nat} (hle : value.toNat ≤ n)
    (hn : n < 2 ^ w) (hdvd : 2 ^ k ∣ n) :
    ((value + align - 1) &&& ~~~(align - 1)).toNat ≤ n := by
  have hk : 0 < 2 ^ k := Nat.two_pow_pos k
  have hw : 2 ^ k ∣ 2 ^ w := Nat.pow_dvd_pow 2 (lt_of_two_pow ha).le
  have hgap : n + 2 ^ k ≤ 2 ^ w := by
    have hd := Nat.le_of_dvd (Nat.sub_pos_of_lt hn) (Nat.dvd_sub hw hdvd)
    omega
  rw [round_up_toNat ha, Nat.mod_eq_of_lt (by omega)]
  obtain ⟨q, rfl⟩ := hdvd
  have hq : (value.toNat + (2 ^ k - 1)) / 2 ^ k ≤ q := by
    apply Nat.le_of_lt_succ
    rw [Nat.div_lt_iff_lt_mul hk, Nat.succ_mul, Nat.mul_comm q]
    omega
  rw [Nat.mul_comm]
  exact Nat.mul_le_mul_left _ hq

theorem and_pred_of_two_pow (ha : align.toNat = 2 ^ k) : align &&& (align - 1) = 0 := by
  apply BitVec.eq_of_toNat_eq
  rw [BitVec.toNat_and, two_pow_pred ha, ha, Nat.and_two_pow_sub_one_eq_mod, Nat.mod_self]
  rfl

/-- A word with one bit. -/
theorem two_pow_of_and_pred {a : BitVec w} (h0 : a ≠ 0) (h : a &&& (a - 1) = 0) : ∃ k, a.toNat = 2 ^ k := by
  have hne : a.toNat ≠ 0 := fun he => h0 (BitVec.eq_of_toNat_eq (he.trans BitVec.toNat_zero.symm))
  have hw : w ≠ 0 := by
    rintro rfl
    exact h0 (BitVec.eq_nil a ▸ rfl)
  have hone : (1 : BitVec w).toNat = 1 := BitVec.toNat_one (Nat.pos_of_ne_zero hw)
  have hpred : (a - 1).toNat = a.toNat - 1 := by
    rw [BitVec.toNat_sub_of_le (by rw [BitVec.le_def, hone]; exact Nat.pos_of_ne_zero hne), hone]
  have hand : a.toNat &&& (a.toNat - 1) = 0 := by
    rw [← hpred, ← BitVec.toNat_and, h]
    exact BitVec.toNat_zero
  exact (Nat.and_sub_one_eq_zero_iff_isPowerOfTwo hne).1 hand

end

/-! ## Smearing the highest bit -/

/-- `k` is the highest bit of `y`, and the `m` bits from there down are set. -/
structure Smeared (k m y : Nat) : Prop where
  lt : y < 2 ^ (k + 1)
  ones : ∀ j, j ≤ k → k < j + m → y.testBit j = true

section
variable {k m y : Nat}

theorem Smeared.start (h : y ≠ 0) : Smeared (Nat.log2 y) 1 y := by
  refine ⟨Nat.lt_log2_self, fun j hle hlt => ?_⟩
  obtain rfl : j = Nat.log2 y := Nat.le_antisymm hle (Nat.le_of_lt_succ hlt)
  exact Nat.testBit_log2 h

/-- A shift by the number of bits already set sets as many again. -/
theorem Smeared.step (h : Smeared k m y) : Smeared k (m + m) (y ||| y >>> m) := by
  refine ⟨Nat.or_lt_two_pow h.lt (Nat.lt_of_le_of_lt (Nat.shiftRight_le _ _) h.lt), fun j hle hlt => ?_⟩
  rw [Nat.testBit_or, Nat.testBit_shiftRight, Bool.or_eq_true]
  by_cases hj : k < j + m
  · exact .inl (h.ones j hle hj)
  · exact .inr (h.ones (m + j) (by omega) (by omega))

theorem Smeared.full (h : Smeared k m y) (hm : k < m) : y = 2 ^ (k + 1) - 1 := by
  apply Nat.eq_of_testBit_eq
  intro j
  rw [Nat.testBit_two_pow_sub_one]
  by_cases hj : j < k + 1
  · rw [h.ones j (Nat.le_of_lt_succ hj) (by omega), decide_eq_true hj]
  · rw [decide_eq_false hj]
    exact Nat.testBit_lt_two_pow (Nat.lt_of_lt_of_le h.lt (Nat.pow_le_pow_right two_pos (Nat.le_of_not_lt hj)))

theorem Smeared.two_pow_le (h : Smeared k m y) (hm : 0 < m) : 2 ^ k ≤ y :=
  Nat.ge_two_pow_of_testBit (h.ones k (Nat.le_refl k) (Nat.lt_add_of_pos_right hm))

end

end Words
