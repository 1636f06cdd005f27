import Mathlib.Algebra.Ring.Nat
import Mathlib.Data.List.TakeWhile
/-!
# `strtoull` with base 0

What the C library's `strtoull(s, &end, 0)` reads from the front of a string: white
space, a sign, and the longest integer constant in base 16, 8 or 10 by its prefix
(`subject`). A newer library reads `0b` as well, so `binary` is a parameter. `Literal`
is the grammar of that text; `subject_literal` and `literal_subject` say that the
function reads it.
-/

namespace Strtoull

/-! ## The function -/

/-- White space in the C locale: the blank, and tab to carriage return. -/
def isspace (c : Char) : Bool := c = ' ' || (9 ≤ c.toNat && c.toNat ≤ 13)

/-- The value of a digit or letter, and 36 for anything else. -/
def digitVal (c : Char) : Nat :=
  if '0' ≤ c ∧ c ≤ '9' then c.toNat - '0'.toNat
  else if 'a' ≤ c ∧ c ≤ 'z' then c.toNat - 'a'.toNat + 10
  else if 'A' ≤ c ∧ c ≤ 'Z' then c.toNat - 'A'.toNat + 10
  else 36

def isDigit (base : Nat) (c : Char) : Bool := digitVal c < base

def magnitude (base : Nat) (ds : List Char) : Nat := ds.foldl (fun n c => base * n + digitVal c) 0

def signed : List Char → Bool × List Char
  | '-' :: t => (true, t)
  | '+' :: t => (false, t)
  | t => (false, t)

section
variable (binary : Bool)

/-- The base, and where its digits start. `0x` counts only before a digit, and so does `0b`. -/
def radix : List Char → Nat × List Char
  | '0' :: x :: d :: t =>
    if (x = 'x' || x = 'X') && isDigit 16 d then (16, d :: t)
    else if binary && (x = 'b' || x = 'B') && isDigit 2 d then (2, d :: t)
    else (8, '0' :: x :: d :: t)
  | '0' :: t => (8, '0' :: t)
  | t => (10, t)

/-- The sign, the magnitude without any limit, and the rest of the string; `none` if no digit is there. -/
def subject (s : List Char) : Option (Bool × Nat × List Char) :=
  let sign := signed (s.dropWhile isspace)
  let base := (radix binary sign.2).1
  let ds := (radix binary sign.2).2.takeWhile (isDigit base)
  if ds = [] then none else some (sign.1, magnitude base ds, (radix binary sign.2).2.dropWhile (isDigit base))

/-- What the call leaves: its result, `end`, and whether `errno` is set. -/
structure Result where
  result : Nat
  rest : List Char
  errno : Bool
  deriving DecidableEq, Repr

/-- A magnitude of 64 bits or less is negated modulo `2 ^ 64`; a larger one is `ERANGE`. -/
def strtoull (s : List Char) : Result :=
  match subject binary s with
  | none => ⟨0, s, false⟩
  | some (neg, mag, rest) =>
    if 2 ^ 64 ≤ mag then ⟨2 ^ 64 - 1, rest, true⟩ else ⟨if neg then (2 ^ 64 - mag) % 2 ^ 64 else mag, rest, false⟩

/-! ## The grammar -/

/-- An integer constant without a sign, and its value. -/
inductive Numeral : List Char → Nat → Prop
  | hex {x : Char} {ds : List Char} (hx : x = 'x' ∨ x = 'X') (hne : ds ≠ []) (hds : ∀ c ∈ ds, isDigit 16 c = true) :
      Numeral ('0' :: x :: ds) (magnitude 16 ds)
  | bin {x : Char} {ds : List Char} (hb : binary = true) (hx : x = 'b' ∨ x = 'B') (hne : ds ≠ [])
      (hds : ∀ c ∈ ds, isDigit 2 c = true) : Numeral ('0' :: x :: ds) (magnitude 2 ds)
  | oct {ds : List Char} (hds : ∀ c ∈ ds, isDigit 8 c = true) : Numeral ('0' :: ds) (magnitude 8 ds)
  | dec {d : Char} {ds : List Char} (hd : d ≠ '0') (hds : ∀ c ∈ d :: ds, isDigit 10 c = true) :
    Numeral (d :: ds) (magnitude 10 (d :: ds))

def Sign : List Char → Bool → Prop
  | sign, neg => (sign = [] ∧ neg = false) ∨ (sign = ['+'] ∧ neg = false) ∨ (sign = ['-'] ∧ neg = true)

/-- White space, a sign and a numeral. -/
def Literal (s : List Char) (neg : Bool) (mag : Nat) : Prop :=
  ∃ ws sign ds, s = ws ++ (sign ++ ds) ∧ (∀ c ∈ ws, isspace c = true) ∧ Sign sign neg ∧ Numeral binary ds mag

end

variable {binary : Bool}

/-- No numeral goes on into this text. -/
def Stops (rest : List Char) : Prop := ∀ c t, rest = c :: t → isDigit 16 c = false ∧ c ≠ 'x' ∧ c ≠ 'X'

theorem isDigit_mono {b b' : Nat} (h : b ≤ b') {c : Char} (hc : isDigit b c = true) : isDigit b' c = true :=
  decide_eq_true (Nat.lt_of_lt_of_le (of_decide_eq_true hc) h)

theorem Stops.not_digit {rest : List Char} (h : Stops rest) {b : Nat} (hb : b ≤ 16) (c : Char) (t : List Char)
    (he : rest = c :: t) :
    isDigit b c = false := by
  by_contra hd
  have := isDigit_mono hb (eq_true_of_ne_false hd)
  rw [(h c t he).1] at this
  cases this

/-- The longest run of digits ends where the digits do. -/
theorem takeWhile_digits {b : Nat} (hb : b ≤ 16) {ds rest : List Char} (hds : ∀ c ∈ ds, isDigit b c = true)
    (hr : Stops rest) :
    (ds ++ rest).takeWhile (isDigit b) = ds ∧ (ds ++ rest).dropWhile (isDigit b) = rest := by
  rw [List.takeWhile_append_of_pos hds, List.dropWhile_append_of_pos hds]
  cases rest with
  | nil => exact ⟨List.append_nil ds, rfl⟩
  | cons c t =>
    have hc := hr.not_digit hb c t rfl
    rw [List.takeWhile_cons_of_neg (by rw [hc]; decide), List.dropWhile_cons_of_neg (by rw [hc]; decide)]
    exact ⟨List.append_nil ds, rfl⟩

theorem magnitude_zero (base : Nat) (ds : List Char) : magnitude base ('0' :: ds) = magnitude base ds := by
  have h0 : digitVal '0' = 0 := rfl
  rw [magnitude, List.foldl_cons, Nat.mul_zero, h0, Nat.zero_add, magnitude]

/-- A leading 0 is not the start of a prefix: what follows is an octal digit, or text that stops the number. -/
theorem radix_oct {ds rest : List Char} (hds : ∀ c ∈ ds, isDigit 8 c = true) (hr : Stops rest) :
    radix binary ('0' :: (ds ++ rest)) = (8, '0' :: (ds ++ rest)) := by
  have hx : ∀ x t, ds ++ rest = x :: t → x ∉ ['x', 'X', 'b', 'B'] := by
    intro x t he hmem
    cases ds with
    | nil =>
      obtain ⟨hdigit, hx, hX⟩ := hr x t he
      simp only [List.mem_cons, hx, hX, List.not_mem_nil, or_false, false_or] at hmem
      rcases hmem with rfl | rfl <;> exact absurd hdigit (by decide)
    | cons d ds =>
      have hd := hds d List.mem_cons_self
      rw [(List.cons.inj he).1] at hd
      simp only [List.mem_cons, List.not_mem_nil, or_false] at hmem
      rcases hmem with rfl | rfl | rfl | rfl <;> exact absurd hd (by decide)
  generalize ds ++ rest = t at hx
  cases t with
  | nil => rfl
  | cons x t =>
    cases t with
    | nil => rfl
    | cons d t =>
      have hmem := hx x _ rfl
      simp only [List.mem_cons, List.not_mem_nil, or_false, not_or] at hmem
      obtain ⟨hx, hX, hb, hB⟩ := hmem
      simp [radix, hx, hX, hb, hB]

/-- A numeral is read back by the base it selects. -/
theorem Numeral.radix {ds rest : List Char} {mag : Nat} (h : Numeral binary ds mag) (hr : Stops rest) :
    ∃ b ts, Strtoull.radix binary (ds ++ rest) = (b, ts ++ rest) ∧ b ≤ 16 ∧ ts ≠ [] ∧
    (∀ c ∈ ts, isDigit b c = true) ∧ magnitude b ts = mag := by
  cases h with
  | @hex x ds hx hne hds =>
    cases ds with
    | nil => exact absurd rfl hne
    | cons d ds =>
      refine ⟨16, d :: ds, ?_, Nat.le_refl _, List.cons_ne_nil _ _, hds, rfl⟩
      have hif : ((x = 'x' || x = 'X') && isDigit 16 d) = true := by
        rw [Bool.and_eq_true, Bool.or_eq_true, decide_eq_true_eq, decide_eq_true_eq]
        exact ⟨hx, hds d List.mem_cons_self⟩
      exact if_pos hif
  | @bin x ds hb hx hne hds =>
    cases ds with
    | nil => exact absurd rfl hne
    | cons d ds =>
      refine ⟨2, d :: ds, ?_, by decide, List.cons_ne_nil _ _, hds, rfl⟩
      have hhex : ¬((x = 'x' || x = 'X') && isDigit 16 d) = true := by rcases hx with rfl | rfl <;> simp
      have hbin : (binary && (x = 'b' || x = 'B') && isDigit 2 d) = true := by
        simp only [hb, hds d List.mem_cons_self, Bool.true_and, Bool.and_true, Bool.or_eq_true, decide_eq_true_eq]
        exact hx
      exact (if_neg hhex).trans (if_pos hbin)
  | @oct ds hds =>
    refine ⟨8, '0' :: ds, ?_, by decide, List.cons_ne_nil _ _, ?_, magnitude_zero 8 ds⟩
    · exact radix_oct hds hr
    · intro c hc
      rcases List.mem_cons.1 hc with rfl | hc
      · rfl
      · exact hds c hc
  | @dec d ds hd hds =>
    refine ⟨10, d :: ds, ?_, by decide, List.cons_ne_nil _ _, hds, rfl⟩
    change Strtoull.radix binary (d :: (ds ++ rest)) = (10, d :: (ds ++ rest))
    unfold Strtoull.radix
    split
    · rename_i he
      exact absurd (List.cons.inj he).1 hd
    · rename_i he
      exact absurd (List.cons.inj he).1 hd
    · rfl

/-- Every literal is read in full. -/
theorem literal_subject {s rest : List Char} {neg : Bool} {mag : Nat} (h : Literal binary s neg mag) (hr : Stops rest) :
    subject binary (s ++ rest) = some (neg, mag, rest) := by
  obtain ⟨ws, sign, ds, rfl, hws, hsign, hds⟩ := h
  obtain ⟨b, ts, hradix, hb, hne, hts, hmag⟩ := hds.radix hr
  obtain ⟨htake, hdrop⟩ := takeWhile_digits hb hts hr
  -- The digits do not begin with a blank or a sign, so these end where the literal says.
  have hhead : ∃ d t, ds = d :: t ∧ isspace d = false ∧ d ≠ '-' ∧ d ≠ '+' := by
    cases hds with
    | hex => exact ⟨_, _, rfl, rfl, by decide, by decide⟩
    | bin => exact ⟨_, _, rfl, rfl, by decide, by decide⟩
    | oct => exact ⟨_, _, rfl, rfl, by decide, by decide⟩
    | @dec d t _ hall =>
      have hd := hall d List.mem_cons_self
      refine ⟨d, t, rfl, ?_, ?_, ?_⟩
      · by_contra hsp
        have hsp : isspace d = true := eq_true_of_ne_false hsp
        simp only [isspace, Bool.or_eq_true, Bool.and_eq_true, decide_eq_true_eq] at hsp
        rcases hsp with rfl | ⟨hge, hle⟩
        · exact absurd hd (by decide)
        · have hv : digitVal d = 36 := by
            have hnot (c : Char) (hc : 14 ≤ c.toNat) : ¬ c ≤ d := fun hcd => by
              have : c.toNat ≤ d.toNat := hcd
              omega
            rw [digitVal, if_neg fun h => hnot '0' (by decide) h.1, if_neg fun h => hnot 'a' (by decide) h.1,
              if_neg fun h => hnot 'A' (by decide) h.1]
          simp only [isDigit, hv] at hd
          exact absurd hd (by decide)
      · rintro rfl
        exact absurd hd (by decide)
      · rintro rfl
        exact absurd hd (by decide)
  have hsigned : signed ((ws ++ (sign ++ ds) ++ rest).dropWhile isspace) = (neg, ds ++ rest) := by
    obtain ⟨d, t, rfl, hsp, hminus, hplus⟩ := hhead
    rw [List.append_assoc, List.dropWhile_append_of_pos hws]
    rcases hsign with ⟨rfl, rfl⟩ | ⟨rfl, rfl⟩ | ⟨rfl, rfl⟩
    · rw [List.nil_append, List.cons_append, List.dropWhile_cons_of_neg (by rw [hsp]; decide)]
      unfold signed
      split
      · rename_i he
        exact absurd (List.cons.inj he).1 hminus
      · rename_i he
        exact absurd (List.cons.inj he).1 hplus
      · rfl
    · rfl
    · rfl
  unfold subject
  simp only [hsigned, hradix, htake, hdrop, hmag, if_neg hne]

theorem signed_sign (s : List Char) : ∃ sign, s = sign ++ (signed s).2 ∧ Sign sign (signed s).1 := by
  unfold signed
  split
  · exact ⟨['-'], rfl, .inr (.inr ⟨rfl, rfl⟩)⟩
  · exact ⟨['+'], rfl, .inr (.inl ⟨rfl, rfl⟩)⟩
  · exact ⟨[], rfl, .inl ⟨rfl, rfl⟩⟩

theorem mem_takeWhile {p : Char → Bool} {s : List Char} : ∀ c ∈ s.takeWhile p, p c = true :=
  fun _ h => List.mem_takeWhile_imp h

/-- What `radix` makes of a string. -/
inductive RadixCases (binary : Bool) (s : List Char) : Nat × List Char → Prop
  | hex {x : Char} {t : List Char} (hs : s = '0' :: x :: t) (hx : x = 'x' ∨ x = 'X') : RadixCases binary s (16, t)
  | bin {x : Char} {t : List Char} (hs : s = '0' :: x :: t) (hb : binary = true) (hx : x = 'b' ∨ x = 'B') :
    RadixCases binary s (2, t)
  | oct {t : List Char} (hs : s = '0' :: t) : RadixCases binary s (8, s)
  | dec (hs : ∀ t, s ≠ '0' :: t) : RadixCases binary s (10, s)

theorem radix_cases (s : List Char) : RadixCases binary s (radix binary s) := by
  unfold radix
  split
  · split_ifs with hhex hbin
    · exact .hex rfl (by simpa using (Bool.and_eq_true_iff.1 hhex).1)
    · obtain ⟨hb, hx⟩ := Bool.and_eq_true_iff.1 (Bool.and_eq_true_iff.1 hbin).1
      exact .bin rfl hb (by simpa using hx)
    · exact .oct rfl
  · exact .oct rfl
  · rename_i hzero
    exact .dec hzero

/-- What `radix` selects, if there is a digit, is a numeral. -/
theorem radix_numeral {s : List Char} (h : (radix binary s).2.takeWhile (isDigit (radix binary s).1) ≠ []) :
    ∃ ds, s = ds ++ (radix binary s).2.dropWhile (isDigit (radix binary s).1) ∧
      Numeral binary ds (magnitude (radix binary s).1 ((radix binary s).2.takeWhile (isDigit (radix binary s).1))) := by
  have hcases : RadixCases binary s (radix binary s) := radix_cases s
  generalize radix binary s = r at h hcases
  cases hcases with
  | @hex x t hs hx =>
    refine ⟨'0' :: x :: t.takeWhile (isDigit 16), ?_, .hex hx h mem_takeWhile⟩
    rw [hs]
    exact congrArg ('0' :: x :: ·) (List.takeWhile_append_dropWhile).symm
  | @bin x t hs hb hx =>
    refine ⟨'0' :: x :: t.takeWhile (isDigit 2), ?_, .bin hb hx h mem_takeWhile⟩
    rw [hs]
    exact congrArg ('0' :: x :: ·) (List.takeWhile_append_dropWhile).symm
  | @oct t hs =>
    subst hs
    have he : ('0' :: t).takeWhile (isDigit 8) = '0' :: t.takeWhile (isDigit 8) := List.takeWhile_cons_of_pos rfl
    refine ⟨'0' :: t.takeWhile (isDigit 8), congrArg ('0' :: ·) (List.takeWhile_append_dropWhile).symm, ?_⟩
    rw [he, magnitude_zero]
    exact .oct mem_takeWhile
  | dec hzero =>
    cases s with
    | nil => exact absurd rfl h
    | cons d t =>
      have hd : isDigit 10 d = true := by
        by_contra hd
        exact h (List.takeWhile_cons_of_neg hd)
      have he : (d :: t).takeWhile (isDigit 10) = d :: t.takeWhile (isDigit 10) := List.takeWhile_cons_of_pos hd
      refine ⟨(d :: t).takeWhile (isDigit 10), List.takeWhile_append_dropWhile.symm, ?_⟩
      have hall : ∀ c ∈ (d :: t).takeWhile (isDigit 10), isDigit 10 c = true := mem_takeWhile
      dsimp only
      rw [he] at hall ⊢
      exact .dec (fun h0 => hzero t (h0 ▸ rfl)) hall

/-- What is read is a literal, and the rest is what follows it. -/
theorem subject_literal {s rest : List Char} {neg : Bool} {mag : Nat} (h : subject binary s = some (neg, mag, rest)) :
    ∃ lit, s = lit ++ rest ∧ Literal binary lit neg mag := by
  unfold subject at h
  dsimp only at h
  split_ifs at h with hne
  obtain ⟨rfl, hrest⟩ := Prod.mk.inj (Option.some.inj h)
  obtain ⟨rfl, rfl⟩ := Prod.mk.inj hrest
  obtain ⟨sign, hs, hsign⟩ := signed_sign (s.dropWhile isspace)
  obtain ⟨ds, hds, hnum⟩ := radix_numeral hne
  refine ⟨s.takeWhile isspace ++ (sign ++ ds), ?_, _, sign, ds, rfl, mem_takeWhile, hsign, hnum⟩
  rw [List.append_assoc, List.append_assoc, ← hds, ← hs, List.takeWhile_append_dropWhile]

/-- Something is read, so the rest is shorter. -/
theorem subject_rest_ne {s rest : List Char} {neg : Bool} {mag : Nat}
    (h : subject binary s = some (neg, mag, rest)) : rest ≠ s := by
  obtain ⟨lit, he, ws, sign, ds, rfl, -, -, hnum⟩ := subject_literal h
  have hpos : 0 < ds.length := by cases hnum <;> exact Nat.succ_pos _
  intro hrs
  have := congrArg List.length he
  simp only [List.length_append, hrs] at this
  omega

end Strtoull
