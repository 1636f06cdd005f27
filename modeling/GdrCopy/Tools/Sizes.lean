import GdrCopy.Lib.Strtoull
import Mathlib.Tactic.Ring
/-!
# Size arguments

`parse_size` of the pcibarlat tools, four copies of one text, and `parse_size_env` of
the MLC shim. Both read a number with `strtoull`, which may or may not know `0b`, and
shift it by a suffix. Neither looks for a sign or for bits lost by the shift, and
`parse_size_env` does not look behind the suffix (`sizes_exact_iff`).
-/

namespace pcibarlat

open Strtoull

/-- `result <<= k` on an `unsigned long long`. -/
def shl (result k : Nat) : Nat := (result <<< k) % 2 ^ 64

/-- `die_msg("size must be non-zero")`. -/
def nonZero (allow_zero : Bool) (result : Nat) : Option Nat := if !allow_zero && result = 0 then none else some result

section
variable (binary : Bool)

/-- `none` is an error exit. -/
def parse_size (value : List Char) (allow_zero : Bool) : Option Nat :=
  let s := strtoull binary value
  if s.errno || s.rest = value then none
  else
    match s.rest with
    | [] => nonZero allow_zero s.result
    | c :: more =>
      if more ≠ [] || (c ≠ 'k' && c ≠ 'K' && c ≠ 'm' && c ≠ 'M' && c ≠ 'g' && c ≠ 'G') then none
      else if c = 'k' || c = 'K' then nonZero allow_zero (shl s.result 10)
      else if c = 'm' || c = 'M' then nonZero allow_zero (shl s.result 20)
      else nonZero allow_zero (shl s.result 30)

/-- `value` is what `getenv` returned. -/
def parse_size_env (value : Option (List Char)) (default_value : Nat) : Nat :=
  match value with
  | none => default_value
  | some [] => default_value
  | some (c :: t) =>
    let s := strtoull binary (c :: t)
    if s.errno || s.rest = c :: t then default_value
    else
      match s.rest with
      | [] => s.result
      | e :: _ =>
        if e = 'k' || e = 'K' then shl s.result 10
        else if e = 'm' || e = 'M' then shl s.result 20
        else if e = 'g' || e = 'G' then shl s.result 30
        else default_value

/-! ## Sizes -/

/-- The power of two that a letter stands for. -/
def letterShift (c : Char) : Option Nat :=
  if c = 'k' || c = 'K' then some 10
  else if c = 'm' || c = 'M' then some 20
  else if c = 'g' || c = 'G' then some 30
  else none

/-- Nothing or exactly one letter. -/
def suffixShift : List Char → Option Nat
  | [] => some 0
  | [c] => letterShift c
  | _ => none

/-- `value` is a literal that is not negative and a suffix, and `v` is the size it stands for. -/
def Exact (value : List Char) (v : Nat) : Prop :=
  ∃ lit suffix neg mag shift, value = lit ++ suffix ∧ Literal binary lit neg mag ∧ (neg = true → mag = 0) ∧
    suffixShift suffix = some shift ∧ v = mag * 2 ^ shift ∧ v < 2 ^ 64

/-- An accepted size is the size that was written. -/
def SizeExact (value : List Char) (allow_zero : Bool) : Prop :=
  ∀ v, parse_size binary value allow_zero = some v → Exact binary value v

/-- The size that was written, or the default. -/
def EnvExact (value : List Char) : Prop :=
  (∃ v, Exact binary value v ∧ ∀ d, parse_size_env binary (some value) d = v) ∨
    ∀ d, parse_size_env binary (some value) d = d

/-- A literal within `strtoull`'s range that is negative, or that the suffix takes past 64 bits. -/
def Unfit (neg : Bool) (mag shift : Nat) : Prop := mag < 2 ^ 64 ∧ ((neg = true ∧ 0 < mag) ∨ 2 ^ 64 ≤ mag * 2 ^ shift)

/-- An unfit size. The tools still refuse it where its low 64 bits are 0 and a size must not be. -/
def SizeSlip (value : List Char) (allow_zero : Bool) : Prop :=
  ∃ lit suffix neg mag shift, value = lit ++ suffix ∧ Literal binary lit neg mag ∧
    suffixShift suffix = some shift ∧ Unfit neg mag shift ∧ (allow_zero = true ∨ ¬ 2 ^ 64 ∣ mag * 2 ^ shift)

/-- An unfit size, or more text after the letter. -/
def EnvSlip (value : List Char) : Prop :=
  ∃ lit suffix neg mag shift more, value = lit ++ (suffix ++ more) ∧ Literal binary lit neg mag ∧
    suffixShift suffix = some shift ∧ (suffix = [] → more = []) ∧ mag < 2 ^ 64 ∧ (Unfit neg mag shift ∨ more ≠ [])

end

variable {binary : Bool}

/-! ## What is read -/

theorem letterShift_cases {c : Char} {k : Nat} (h : letterShift c = some k) : c ∈ ['k', 'K', 'm', 'M', 'g', 'G'] := by
  unfold letterShift at h
  split_ifs at h with hk hm hg
  all_goals simp only [Bool.or_eq_true, decide_eq_true_eq] at *
  · rcases hk with rfl | rfl <;> decide
  · rcases hm with rfl | rfl <;> decide
  · rcases hg with rfl | rfl <;> decide

theorem stops_letter {c : Char} {k : Nat} (h : letterShift c = some k) (t : List Char) : Stops (c :: t) := by
  intro d u he
  rw [← (List.cons.inj he).1]
  have hall : (['k', 'K', 'm', 'M', 'g', 'G'].all fun c => !isDigit 16 c && c ≠ 'x' && c ≠ 'X') = true := by decide
  have hc := List.all_eq_true.1 hall c (letterShift_cases h)
  simp only [Bool.and_eq_true, Bool.not_eq_true', decide_eq_true_eq] at hc
  exact ⟨hc.1.1, hc.1.2, hc.2⟩

theorem stops_suffix {suffix : List Char} {k : Nat} (h : suffixShift suffix = some k) {more : List Char}
    (hmore : suffix = [] → more = []) : Stops (suffix ++ more) := by
  cases suffix with
  | nil =>
    rw [hmore rfl]
    exact fun c t he => absurd he (List.cons_ne_nil c t).symm
  | cons c t =>
    cases t with
    | nil => exact stops_letter h more
    | cons d t => cases h

/-- `strtoull` where a literal in range is read. -/
theorem strtoull_of {value rest : List Char} {neg : Bool} {mag : Nat}
    (h : subject binary value = some (neg, mag, rest)) (hmag : mag < 2 ^ 64) :
    strtoull binary value = ⟨if neg then (2 ^ 64 - mag) % 2 ^ 64 else mag, rest, false⟩ := by
  rw [strtoull, h]
  exact if_neg (Nat.not_le.2 hmag)

/-- The two ways `strtoull` is refused: nothing read, or out of range. -/
theorem strtoull_refused {value : List Char} (h : ∀ neg mag rest, subject binary value = some (neg, mag, rest) →
    2 ^ 64 ≤ mag) :
    ((strtoull binary value).errno || (strtoull binary value).rest = value) = true := by
  cases hs : subject binary value with
  | none =>
    have hr : strtoull binary value = ⟨0, value, false⟩ := by rw [strtoull, hs]
    simp [hr]
  | some r =>
    obtain ⟨neg, mag, rest⟩ := r
    have hr : strtoull binary value = ⟨2 ^ 64 - 1, rest, true⟩ := by
      rw [strtoull, hs]
      exact if_pos (h neg mag rest hs)
    rw [hr]
    rfl

/-- What the shift leaves of the number that `strtoull` returns. -/
def shifted (neg : Bool) (mag shift : Nat) : Nat := shl (if neg then (2 ^ 64 - mag) % 2 ^ 64 else mag) shift

theorem shifted_fit {neg : Bool} {mag shift : Nat} (hneg : neg = true → mag = 0) (h : mag * 2 ^ shift < 2 ^ 64) :
    shifted neg mag shift = mag * 2 ^ shift := by
  have he : (if neg then (2 ^ 64 - mag) % 2 ^ 64 else mag) = mag := by
    cases neg with
    | false => rfl
    | true => rw [hneg rfl]; rfl
  rw [shifted, he, shl, Nat.shiftLeft_eq, Nat.mod_eq_of_lt h]

theorem shifted_eq_zero {neg : Bool} {mag shift : Nat} (h : mag < 2 ^ 64) : shifted neg mag shift = 0 ↔
    2 ^ 64 ∣ mag * 2 ^ shift := by
  rw [shifted, shl, Nat.shiftLeft_eq, ← Nat.dvd_iff_mod_eq_zero]
  cases neg with
  | false => rfl
  | true =>
    have hsum : (2 ^ 64 - mag) * 2 ^ shift + mag * 2 ^ shift = 2 ^ 64 * 2 ^ shift := by
      rw [← Nat.add_mul, Nat.sub_add_cancel h.le]
    have hdvd : 2 ^ 64 ∣ (2 ^ 64 - mag) * 2 ^ shift + mag * 2 ^ shift := hsum ▸ Nat.dvd_mul_right _ _
    have hmod : 2 ^ 64 ∣ (2 ^ 64 - mag) % 2 ^ 64 * 2 ^ shift ↔ 2 ^ 64 ∣ (2 ^ 64 - mag) * 2 ^ shift := by
      rw [Nat.dvd_iff_mod_eq_zero, Nat.dvd_iff_mod_eq_zero, Nat.mod_mul_mod]
    rw [if_pos rfl, hmod]
    exact ⟨fun h1 => (Nat.dvd_add_right h1).1 hdvd, fun h2 => (Nat.dvd_add_left h2).1 hdvd⟩

theorem shifted_zero {neg : Bool} {mag : Nat} (h : mag < 2 ^ 64) :
    shifted neg mag 0 = if neg then (2 ^ 64 - mag) % 2 ^ 64 else mag := by
  rw [shifted, shl, Nat.shiftLeft_zero, Nat.mod_eq_of_lt]
  split_ifs
  · exact Nat.mod_lt _ (by decide)
  · exact h

theorem nonZero_eq_some {allow_zero : Bool} {r v : Nat} : nonZero allow_zero r = some v ↔ v = r ∧
    (allow_zero = true ∨ v ≠ 0) := by
  unfold nonZero
  cases allow_zero with
  | true => simp [eq_comm]
  | false =>
    by_cases hr : r = 0
    · simp [hr]
    · simp only [hr, Bool.not_false, decide_false, Bool.and_false, Bool.false_eq_true, if_false,
        Option.some.injEq, false_or]
      constructor
      · rintro rfl
        exact ⟨rfl, hr⟩
      · rintro ⟨rfl, -⟩
        rfl

/-- `parse_size_env` looks at one letter and not behind it. -/
def envShift : List Char → Option Nat
  | [] => some 0
  | c :: _ => letterShift c

/-- The end of `parse_size`, once the number is read. -/
theorem parse_size_read {value rest : List Char} {neg : Bool} {mag : Nat}
    (hs : subject binary value = some (neg, mag, rest)) (hmag : mag < 2 ^ 64) (allow_zero : Bool) :
    parse_size binary value allow_zero = (suffixShift rest).bind fun shift =>
    nonZero allow_zero (shifted neg mag shift) := by
  have hne : (false || decide (rest = value)) = false := by simp [subject_rest_ne hs]
  unfold parse_size
  simp only [strtoull_of hs hmag, hne, Bool.false_eq_true, if_false]
  cases rest with
  | nil => simp only [suffixShift, Option.bind_some, shifted_zero hmag]
  | cons c more =>
    cases more with
    | nil =>
      have hsh (k : Nat) : shl (if neg then (2 ^ 64 - mag) % 2 ^ 64 else mag) k = shifted neg mag k := rfl
      simp only [hsh, suffixShift, letterShift]
      split_ifs <;> simp_all
    | cons d more => simp [suffixShift]

theorem parse_size_refused {value : List Char}
    (h : ∀ neg mag rest, subject binary value = some (neg, mag, rest) → 2 ^ 64 ≤ mag) (allow_zero : Bool) :
    parse_size binary value allow_zero = none := if_pos (strtoull_refused h)

theorem parse_size_env_read {value rest : List Char} {neg : Bool} {mag : Nat}
    (hs : subject binary value = some (neg, mag, rest)) (hmag : mag < 2 ^ 64) (d : Nat) :
    parse_size_env binary (some value) d = (envShift rest).elim d (shifted neg mag) := by
  have hne : (false || decide (rest = value)) = false := by simp [subject_rest_ne hs]
  cases value with
  | nil => cases hs
  | cons v t =>
    unfold parse_size_env
    simp only [strtoull_of hs hmag, hne, Bool.false_eq_true, if_false]
    cases rest with
    | nil => simp only [envShift, Option.elim_some, shifted_zero hmag]
    | cons c more =>
      have hsh (k : Nat) : shl (if neg then (2 ^ 64 - mag) % 2 ^ 64 else mag) k = shifted neg mag k := rfl
      simp only [hsh, envShift, letterShift]
      split_ifs <;> rfl

theorem parse_size_env_refused {value : List Char}
    (h : ∀ neg mag rest, subject binary value = some (neg, mag, rest) → 2 ^ 64 ≤ mag) (d : Nat) :
    parse_size_env binary (some value) d = d := by
  cases value with
  | nil => rfl
  | cons c t => exact if_pos (strtoull_refused h)

/-! ## Exact sizes -/

/-- What a literal and a suffix make up is read that way. -/
theorem subject_suffix {value lit suffix : List Char} {neg : Bool} {mag shift : Nat}
    (he : value = lit ++ suffix) (hlit : Literal binary lit neg mag) (hsuf : suffixShift suffix = some shift) :
    subject binary value = some (neg, mag, suffix) := by
  have hstops := @stops_suffix _ _ hsuf [] fun _ => rfl
  rw [List.append_nil] at hstops
  rw [he]
  exact literal_subject hlit hstops

/-- The size that was written is unique, and fits. -/
theorem Exact.read {value rest : List Char} {v mag shift : Nat} {neg : Bool} (h : Exact binary value v)
    (hs : subject binary value = some (neg, mag, rest)) (hsuf : suffixShift rest = some shift) :
    ¬ Unfit neg mag shift := by
  obtain ⟨lit, suffix, neg', mag', shift', he, hlit, hneg, hsuf', rfl, hlt⟩ := h
  have hs' := subject_suffix he hlit hsuf'
  rw [hs] at hs'
  obtain ⟨rfl, hrest⟩ := Prod.mk.inj (Option.some.inj hs')
  obtain ⟨rfl, rfl⟩ := Prod.mk.inj hrest
  rw [hsuf] at hsuf'
  obtain rfl := Option.some.inj hsuf'
  rintro ⟨-, ⟨hn, hpos⟩ | hge⟩
  · exact absurd (hneg hn) (Nat.ne_of_gt hpos)
  · exact absurd hge (Nat.not_le.2 hlt)

/-- A fit size is exact. -/
theorem exact_of_fit {value rest : List Char} {neg : Bool} {mag shift : Nat}
    (hs : subject binary value = some (neg, mag, rest)) (hmag : mag < 2 ^ 64)
    (hsuf : suffixShift rest = some shift) (h : ¬ Unfit neg mag shift) :
    Exact binary value (shifted neg mag shift) := by
  obtain ⟨lit, he, hlit⟩ := subject_literal hs
  have hneg : neg = true → mag = 0 := fun hn => by
    by_contra hne
    exact h ⟨hmag, .inl ⟨hn, Nat.pos_of_ne_zero hne⟩⟩
  have hlt : mag * 2 ^ shift < 2 ^ 64 := by
    by_contra hge
    exact h ⟨hmag, .inr (Nat.le_of_not_lt hge)⟩
  rw [shifted_fit hneg hlt]
  exact ⟨lit, rest, neg, mag, shift, he, hlit, hneg, hsuf, rfl, hlt⟩

theorem sizeSlip_of_read {value rest : List Char} {neg : Bool} {mag shift : Nat} {allow_zero : Bool}
    (hs : subject binary value = some (neg, mag, rest)) (hsuf : suffixShift rest = some shift)
    (hunfit : Unfit neg mag shift) (hzero : allow_zero = true ∨ ¬ 2 ^ 64 ∣ mag * 2 ^ shift) :
    SizeSlip binary value allow_zero := by
  obtain ⟨lit, he, hlit⟩ := subject_literal hs
  exact ⟨lit, rest, neg, mag, shift, he, hlit, hsuf, hunfit, hzero⟩

theorem envSlip_of_read {value suffix more : List Char} {neg : Bool} {mag shift : Nat}
    (hs : subject binary value = some (neg, mag, suffix ++ more)) (hsuf : suffixShift suffix = some shift)
    (hmore : suffix = [] → more = []) (hmag : mag < 2 ^ 64) (hslip : Unfit neg mag shift ∨ more ≠ []) :
    EnvSlip binary value := by
  obtain ⟨lit, he, hlit⟩ := subject_literal hs
  exact ⟨lit, suffix, neg, mag, shift, more, he, hlit, hsuf, hmore, hmag, hslip⟩

theorem size_exact_iff (value : List Char) (allow_zero : Bool) : SizeExact binary value allow_zero ↔
    ¬ SizeSlip binary value allow_zero := by
  constructor
  · rintro h ⟨lit, suffix, neg, mag, shift, he, hlit, hsuf, hunfit, hzero⟩
    have hs := subject_suffix he hlit hsuf
    have hacc : parse_size binary value allow_zero = some (shifted neg mag shift) := by
      rw [parse_size_read hs hunfit.1, hsuf, Option.bind_some, nonZero_eq_some]
      exact ⟨rfl, hzero.imp_right fun hn hz => hn ((shifted_eq_zero hunfit.1).1 hz)⟩
    exact (h _ hacc).read hs hsuf hunfit
  · intro h v hv
    by_cases hread : ∃ neg mag rest, subject binary value = some (neg, mag, rest) ∧ mag < 2 ^ 64
    · obtain ⟨neg, mag, rest, hs, hmag⟩ := hread
      rw [parse_size_read hs hmag] at hv
      obtain ⟨shift, hsuf, hv⟩ := Option.bind_eq_some_iff.1 hv
      obtain ⟨rfl, hzero⟩ := nonZero_eq_some.1 hv
      refine exact_of_fit hs hmag hsuf fun hunfit => h (sizeSlip_of_read hs hsuf hunfit ?_)
      exact hzero.imp_right fun hne hdvd => hne ((shifted_eq_zero hmag).2 hdvd)
    · rw [parse_size_refused (fun neg mag rest hs => Nat.le_of_not_lt fun hlt => hread ⟨neg, mag, rest, hs, hlt⟩)] at hv
      cases hv

/-- The suffix that `parse_size_env` sees has the letter it looks at, and what follows. -/
theorem envShift_split {rest : List Char} {shift : Nat} (h : envShift rest = some shift) :
    ∃ suffix more, rest = suffix ++ more ∧ suffixShift suffix = some shift ∧ (suffix = [] → more = []) := by
  cases rest with
  | nil => exact ⟨[], [], rfl, h, fun _ => rfl⟩
  | cons c t => exact ⟨[c], t, rfl, h, fun he => absurd he (List.cons_ne_nil c [])⟩

theorem envShift_append {suffix more : List Char} {shift : Nat} (h : suffixShift suffix = some shift)
    (hmore : suffix = [] → more = []) :
    envShift (suffix ++ more) = some shift := by
  cases suffix with
  | nil =>
    rw [hmore rfl]
    exact h
  | cons c t =>
    cases t with
    | nil => exact h
    | cons d t => cases h

/-- A suffix is not part of a longer one. -/
theorem suffixShift_append {suffix more : List Char} {shift shift' : Nat} (h : suffixShift suffix = some shift)
    (h' : suffixShift (suffix ++ more) = some shift') (hmore : suffix = [] → more = []) : more = [] := by
  cases suffix with
  | nil => exact hmore rfl
  | cons c t =>
    cases t with
    | nil =>
      cases more with
      | nil => rfl
      | cons d u => cases h'
    | cons d t => cases h

theorem env_exact_iff (value : List Char) : EnvExact binary value ↔ ¬ EnvSlip binary value := by
  constructor
  · rintro h ⟨lit, suffix, neg, mag, shift, more, he, hlit, hsuf, hmore, hmag, hslip⟩
    have hs : subject binary value = some (neg, mag, suffix ++ more) :=
      he ▸ literal_subject hlit (stops_suffix hsuf hmore)
    rcases h with ⟨v, hv, -⟩ | hdef
    · have hnil : more = [] := by
        obtain ⟨lit', suffix', neg', mag', shift', he', hlit', -, hsuf', -⟩ := hv
        have hs' := subject_suffix he' hlit' hsuf'
        rw [hs] at hs'
        have hrest : suffix ++ more = suffix' := congrArg (·.2.2) (Option.some.inj hs')
        exact suffixShift_append hsuf (hrest ▸ hsuf') hmore
      rcases hslip with hunfit | hne
      · rw [hnil, List.append_nil] at hs
        exact hv.read hs hsuf hunfit
      · exact hne hnil
    · -- the result does not depend on the default
      have hres (d : Nat) : parse_size_env binary (some value) d = shifted neg mag shift := by
        rw [parse_size_env_read hs hmag, envShift_append hsuf hmore]
        rfl
      have h01 : (0 : Nat) = 1 := (hdef 0).symm.trans ((hres 0).trans ((hres 1).symm.trans (hdef 1)))
      cases h01
  · intro h
    by_cases hread : ∃ neg mag rest, subject binary value = some (neg, mag, rest) ∧ mag < 2 ^ 64
    · obtain ⟨neg, mag, rest, hs, hmag⟩ := hread
      have hres := parse_size_env_read hs hmag
      cases hshift : envShift rest with
      | none =>
        rw [hshift] at hres
        exact .inr hres
      | some shift =>
        rw [hshift] at hres
        obtain ⟨suffix, more, rfl, hsuf, hmore⟩ := envShift_split hshift
        have hnil : more = [] := by
          by_contra hne
          exact h (envSlip_of_read hs hsuf hmore hmag (.inr hne))
        have hfit : ¬ Unfit neg mag shift := fun hunfit => h (envSlip_of_read hs hsuf hmore hmag (.inl hunfit))
        rw [hnil, List.append_nil] at hs
        exact .inl ⟨_, exact_of_fit hs hmag hsuf hfit, hres⟩
    · exact .inr (parse_size_env_refused fun neg mag rest hs => Nat.le_of_not_lt fun hlt =>
        hread ⟨neg, mag, rest, hs, hlt⟩)

/-- Whether or not `strtoull` knows `0b`: both parsers return the size that was written, or refuse, exactly for the
strings that are neither a negative number nor a product past 64 bits, and for `parse_size_env` have no text
after the letter. -/
theorem sizes_exact_iff (binary : Bool) (value : List Char) :
    (∀ allow_zero, SizeExact binary value allow_zero ↔ ¬ SizeSlip binary value allow_zero) ∧
    (EnvExact binary value ↔ ¬ EnvSlip binary value) :=
  ⟨size_exact_iff value, env_exact_iff value⟩

/-- `-1` is taken for `2 ^ 64 - 1`, `17179869185G` for `1G`, and `1Kfoo` for `1K`; where `0b` is known, `-0b1`
for `2 ^ 64 - 1`. -/
theorem sizes_not_exact : ¬ SizeExact false "-1".toList false ∧ ¬ SizeExact false "17179869185G".toList false ∧
    ¬ EnvExact false "1Kfoo".toList ∧ ¬ SizeExact true "-0b1".toList false := by
  refine ⟨fun h => (size_exact_iff _ _).1 h ?_, fun h => (size_exact_iff _ _).1 h ?_, fun h => (env_exact_iff _).1 h ?_,
    fun h => (size_exact_iff _ _).1 h ?_⟩
  · exact @sizeSlip_of_read _ _ [] true 1 0 _ (by decide) rfl ⟨by decide, .inl ⟨rfl, by decide⟩⟩ (.inr (by decide))
  · exact @sizeSlip_of_read _ _ ['G'] false 17179869185 30 _ (by decide) rfl ⟨by decide, .inr (by decide)⟩
      (.inr (by decide))
  · exact @envSlip_of_read _ _ ['K'] "foo".toList false 1 10 (by decide) rfl (fun h => absurd h (by decide))
      (by decide) (.inr (by decide))
  · exact @sizeSlip_of_read _ _ [] true 1 0 _ (by decide) rfl ⟨by decide, .inl ⟨rfl, by decide⟩⟩ (.inr (by decide))

end pcibarlat
