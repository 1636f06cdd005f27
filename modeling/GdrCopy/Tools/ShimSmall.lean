import GdrCopy.Tools.ShimBlocks
/-!
# Small allocations

Which calls the shim leaves to the C library. `mmap` and `malloc` compare the size with
`min_alloc` before they refuse a call; the calls for aligned memory do not, and take
a size that is too small, or an alignment that is no power of two, for an exhausted window
(`left_alone_iff`).
-/

namespace mlc

variable {env : Env} {s : Shim}

/-- The calls that the two flags stand for. -/
def Shim.selects (s : Shim) : Request → Bool
  | .mmap _ => s.intercept_mmap
  | .mmap64 _ => s.intercept_mmap
  | _ => s.intercept_alloc

/-- The same by the README, where `malloc` belongs to `all` alone. -/
def Env.documented (env : Env) : Request → Bool
  | .mmap _ => env.intercept_mmap
  | .mmap64 _ => env.intercept_mmap
  | .malloc _ => env.PCIBAR_MLC_INTERCEPT = some "all".toList
  | _ => env.intercept_alloc

/-- The bytes that a call needs: `pvalloc` is for whole pages. -/
def Request.bytes (s : Shim) : Request → Nat
  | .pvalloc size => (size.toNat + (s.page_size.toNat - 1)) / s.page_size.toNat * s.page_size.toNat
  | k => k.size.toNat

/-- What a slice for the call is aligned to: to what it asks for, and to a page at least. -/
def Request.aligns (s : Shim) (k : Request) : Nat := max (k.carve s).2.toNat s.page_size.toNat

/-- Wherever a slice for the call starts behind those handed out, it ends past the window. -/
def Shim.Exhausted (s : Shim) (k : Request) : Prop :=
  ∀ start, s.bar_next.toNat ≤ start → k.aligns s ∣ start → s.bar_size.toNat < start + k.bytes s

/-- A call that is too small, not selected, or made while no BAR is mapped. -/
def Request.Spared (s : Shim) (selected : Request → Bool) (k : Request) : Prop :=
  k.size < s.min_alloc ∨ selected k = false ∨ s.bar_base = 0

/-- A call that is spared returns what the C library does. Only the others get a slice, or are refused
where the window is exhausted. -/
structure LeftAlone (env : Env) (s : Shim) (selected : Request → Bool) (k : Request) : Prop where
  alone : k.Spared (s.init_once env) selected →
    ∀ real, (s.request env real k).1.ret = some (real (k.forward (s.init_once env)))
  only : ∀ real, ((s.request env real k).1 = .enomem ∨ ∃ ptr, (s.request env real k).1 = .bar ptr) →
    ¬ k.Spared (s.init_once env) selected
  exhausted : ∀ real, (s.request env real k).1 = .enomem → (s.init_once env).Exhausted k

/-- The five calls that do not look at `min_alloc` themselves. -/
def Request.aligned : Request → Bool
  | .mmap _ => false
  | .mmap64 _ => false
  | .malloc _ => false
  | _ => true

/-- A small call for aligned memory, intercepted while a BAR is mapped. -/
def SmallAligned (s : Shim) (k : Request) : Prop :=
  k.aligned = true ∧ s.intercept_alloc = true ∧ s.bar_base ≠ 0 ∧ k.size < s.min_alloc

/-- A call that is intercepted and large enough, for which there is room, at an alignment that is no power of two. -/
def OddAlignment (s : Shim) (k : Request) : Prop :=
  s.intercepts k = true ∧ s.bar_base ≠ 0 ∧ s.min_alloc ≤ k.size ∧ (¬ ∃ j, k.aligns s = 2 ^ j) ∧ ¬ s.Exhausted k

/-- A call that is spared, while the shim has no pointer to the C library's function. -/
def Unresolved (s : Shim) (selected : Request → Bool) (k : Request) : Prop := k.known s = false ∧ k.Spared s selected

/-- A `malloc` that is redirected in the mode `alloc`. -/
def MallocInAlloc (env : Env) (s : Shim) (k : Request) : Prop :=
  (∃ size, k = .malloc size) ∧ env.PCIBAR_MLC_INTERCEPT = some "alloc".toList ∧ s.bar_base ≠ 0 ∧ s.min_alloc ≤ k.size

/-! ## Who answers -/

/-- Where `bar_alloc` has nothing to give or no BAR to give it from. -/
theorem bar_alloc_nothing (hstarted : (s.init_done || s.init_running) = true) {size align : Size}
    (h : s.bar_base = 0 ∨ size < s.min_alloc) :
    s.bar_alloc env size align = (0, s) := by
  rcases bar_alloc_cases env hstarted size align with he | ⟨a, start, stop, -, -, -, -, -, -, -, -, hbase, hmin, -⟩
  · exact he
  · rcases h with h0 | hlt
    · exact absurd h0 hbase
    · exact absurd hlt (BitVec.not_lt.2 hmin)

/-- The call is passed on. -/
theorem request_passed {real : Request → Ret} {k : Request}
    (h : (s.init_once env).intercepts k = false ∨ (s.init_once env).bar_base = 0 ∨
      ((k.carve (s.init_once env)).1 < (s.init_once env).min_alloc ∧ (s.init_once env).refuses k = false)) :
    (s.request env real k).1 = k.passed (s.init_once env) real := by
  have hstarted := Shim.started_init_once env s
  rw [request_eq]
  dsimp only
  by_cases hi : (s.init_once env).intercepts k = true
  swap
  · rw [if_neg hi]
  rw [if_pos hi]
  rcases h with h | h | ⟨h, href⟩
  · rw [h] at hi
    cases hi
  · rw [bar_alloc_nothing hstarted (.inl h), if_neg (not_not_intro rfl), if_neg]
    simp [h]
  · rw [bar_alloc_nothing hstarted (.inr h), if_neg (not_not_intro rfl), if_neg]
    rw [href, Bool.and_false]
    decide

/-- The call is not passed on: it gets what `bar_alloc` returns, or is refused. -/
theorem request_kept {real : Request → Ret} {k : Request} (hi : (s.init_once env).intercepts k = true)
    (hbase : (s.init_once env).bar_base ≠ 0) (href : (s.init_once env).refuses k = true) :
    (s.request env real k).1 =
      if ((s.init_once env).bar_alloc env (k.carve (s.init_once env)).1 (k.carve (s.init_once env)).2).1 ≠ 0 then
        .bar ((s.init_once env).bar_alloc env (k.carve (s.init_once env)).1 (k.carve (s.init_once env)).2).1
      else .enomem := by
  have hstarted := Shim.started_init_once env s
  rw [request_eq, if_pos hi]
  dsimp only
  rcases bar_alloc_cases env hstarted (k.carve (s.init_once env)).1 (k.carve (s.init_once env)).2 with
    he | ⟨a, start, stop, -, -, -, -, -, -, -, -, -, -, he⟩
  · rw [he, if_neg (not_not_intro rfl), if_neg (not_not_intro rfl), if_pos]
    rw [href, Bool.and_true]
    exact decide_eq_true hbase
  · rw [he]
    dsimp only
    split_ifs with h0 hr
    · rfl
    · rfl
    · -- The refusal looks at nothing that `bar_alloc` changes.
      refine absurd (Bool.and_eq_true_iff.2 ⟨decide_eq_true hbase, ?_⟩) hr
      cases k <;> exact href

theorem selects_of_intercepts {k : Request} (h : s.intercepts k = true) : s.selects k = true := by
  cases k with
  | mmap a =>
    simp only [Shim.intercepts, Bool.and_eq_true] at h
    exact h.1.1.1.2
  | mmap64 a =>
    simp only [Shim.intercepts, Bool.and_eq_true] at h
    exact h.1.1.1.2
  | malloc size => exact (Bool.and_eq_true_iff.1 h).2
  | _ => exact h

/-- A call goes one of two ways, whatever the C library would answer. -/
inductive Goes (env : Env) (s : Shim) (k : Request) : Prop
  | passed (h : ∀ real, (s.request env real k).1 = k.passed (s.init_once env) real)
      (hno : (s.init_once env).intercepts k = true → (s.init_once env).bar_base ≠ 0 →
      k.size < (s.init_once env).min_alloc ∧ k.aligned = false)
  | kept (hi : (s.init_once env).intercepts k = true) (hbase : (s.init_once env).bar_base ≠ 0)
    (href : (s.init_once env).refuses k = true)

theorem request_goes (env : Env) (s : Shim) (k : Request) : Goes env s k := by
  by_cases hi : (s.init_once env).intercepts k = true
  swap
  · exact .passed (fun real => request_passed (.inl (Bool.eq_false_iff.2 hi))) fun h => absurd h hi
  by_cases hbase : (s.init_once env).bar_base = 0
  · exact .passed (fun real => request_passed (.inr (.inl hbase))) fun _ h => absurd hbase h
  by_cases href : (s.init_once env).refuses k = true
  · exact .kept hi hbase href
  · cases k with
    | malloc size =>
      have hlt : size < (s.init_once env).min_alloc := by
        simpa [Shim.refuses] using href
      exact .passed (fun real => request_passed (.inr (.inr ⟨hlt, Bool.eq_false_iff.2 href⟩))) fun _ _ => ⟨hlt, rfl⟩
    | _ => exact absurd rfl href

/-! ## The window -/

/-- Rounding up past the end of the word is more than a word holds. -/
theorem pvalloc_bytes_ge {j : Nat} (hj : s.page_size.toNat = 2 ^ j) {size : Size}
    (hw : 2 ^ 64 ≤ size.toNat + (2 ^ j - 1)) :
    2 ^ 64 ≤ (Request.pvalloc size).bytes s := by
  obtain ⟨q, hq⟩ : 2 ^ j ∣ 2 ^ 64 := Nat.pow_dvd_pow 2 (Words.lt_of_two_pow hj).le
  have hle : q ≤ (size.toNat + (2 ^ j - 1)) / 2 ^ j := by
    rw [Nat.le_div_iff_mul_le (Nat.two_pow_pos j), Nat.mul_comm, ← hq]
    exact hw
  rw [Request.bytes, hj, hq, Nat.mul_comm]
  exact Nat.mul_le_mul_right _ hle

/-- The size that `bar_alloc` gets is what the call needs, unless that is more than a word holds. -/
theorem carve_bytes (hf : env.Fits) (hc : Config env s) (k : Request) : (k.carve s).1.toNat = k.bytes s ∨
    2 ^ 64 ≤ k.bytes s := by
  cases k with
  | pvalloc size =>
    obtain ⟨j, hj⟩ := hf.page
    rw [← hc.page_size] at hj
    have hround := Words.round_up_toNat hj size
    by_cases hw : size.toNat + (2 ^ j - 1) < 2 ^ 64
    · left
      simp only [Request.carve, Request.bytes, round_up_pow2, hround, hj]
      rw [Nat.mod_eq_of_lt hw]
    · exact .inr (pvalloc_bytes_ge hj (Nat.le_of_not_lt hw))
  | _ => exact .inl rfl

/-- The alignment that `bar_alloc` uses. -/
theorem raised_aligns (s : Shim) (k : Request) :
    (if (k.carve s).2 < s.page_size then s.page_size else (k.carve s).2).toNat = k.aligns s := by
  rw [Request.aligns]
  split_ifs with h
  · exact (Nat.max_eq_right (BitVec.lt_def.1 h).le).symm
  · exact (Nat.max_eq_left (BitVec.le_def.1 (BitVec.not_lt.1 h))).symm

/-- An alignment that is no power of two gets nothing. -/
theorem odd_gets_nothing (hf : env.Fits) (hc : Config env s) {k : Request} (hodd : ¬ ∃ j, k.aligns s = 2 ^ j) :
    s.bar_alloc env (k.carve s).1 (k.carve s).2 = (0, s) := by
  unfold Shim.bar_alloc
  rw [Shim.init_once_started hc.started]
  dsimp only
  by_cases hoff : (decide (s.bar_base = 0) || decide ((k.carve s).1 < s.min_alloc)) = true
  · rw [if_pos hoff]
  rw [if_neg hoff, if_pos]
  intro hpow
  apply hodd
  rw [← raised_aligns]
  refine Words.two_pow_of_and_pred (fun h0 => ?_) hpow
  -- The alignment is a page at least.
  obtain ⟨j, hj⟩ := hf.page
  have hpage : 2 ^ j ≤ k.aligns s := by
    rw [← hj, ← hc.page_size]
    exact Nat.le_max_right _ _
  rw [← raised_aligns, h0] at hpage
  exact absurd (Nat.two_pow_pos j) (Nat.not_lt.2 hpage)

/-- A call that is large enough, at a power of two, gets a slice while there is room for it. -/
theorem refused_exhausted (hf : env.Fits) (hc : Config env s) {k : Request} {j : Nat} (hbase : s.bar_base ≠ 0)
    (hmin : s.min_alloc ≤ k.size) (hpow : k.aligns s = 2 ^ j)
    (h : (s.bar_alloc env (k.carve s).1 (k.carve s).2).1 = 0) : s.Exhausted k := by
  intro start hnext hdvd
  by_contra hroom
  have hroom := Nat.le_of_not_lt hroom
  have hsize64 := s.bar_size.isLt
  -- There is room, so the size that `bar_alloc` gets is the one that is needed, and not too small.
  have hbytes : (k.carve s).1.toNat = k.bytes s := (carve_bytes hf hc k).resolve_right fun hge => by omega
  have hsize : k.size.toNat ≤ (k.carve s).1.toNat := by
    rcases carve_size hf hc k with hle | ⟨size, rfl, hwrap, -⟩
    · exact hle
    · exfalso
      obtain ⟨p, hp⟩ := hf.page
      rw [← hc.page_size] at hp
      have hge : 2 ^ 64 ≤ (Request.pvalloc size).bytes s := pvalloc_bytes_ge hp (by omega)
      omega
  obtain ⟨a, ha⟩ : ∃ a, a = if (k.carve s).2 < s.page_size then s.page_size else (k.carve s).2 := ⟨_, rfl⟩
  have hpow' : a.toNat = 2 ^ j := by rw [ha, raised_aligns, hpow]
  have hstart : (round_up_pow2 s.bar_next a).toNat ≤ start :=
    Words.round_up_least hpow' hnext (by omega) (hpow ▸ hdvd)
  have hstop : (round_up_pow2 s.bar_next a + (k.carve s).1).toNat =
      (round_up_pow2 s.bar_next a).toNat + (k.carve s).1.toNat := by
    rw [BitVec.toNat_add, Nat.mod_eq_of_lt (by omega)]
  have hoff : ¬(decide (s.bar_base = 0) || decide ((k.carve s).1 < s.min_alloc)) = true := by
    simp only [Bool.or_eq_true, decide_eq_true_eq, not_or]
    refine ⟨hbase, BitVec.not_lt.2 ?_⟩
    exact BitVec.le_def.2 ((BitVec.le_def.1 hmin).trans hsize)
  obtain ⟨hb0, -, hwin⟩ := hf.window _ (hc.base hbase)
  rw [← hc.bar_size] at hwin
  unfold Shim.bar_alloc at h
  rw [Shim.init_once_started hc.started] at h
  dsimp only at h
  rw [if_neg hoff, ← ha, if_neg (not_not_intro (Words.and_pred_of_two_pow hpow')), if_pos] at h
  · -- The slice lies in the window, which does not reach the end of the address space.
    have h0 := congrArg BitVec.toNat h
    rw [BitVec.toNat_add, Nat.mod_eq_of_lt (by omega)] at h0
    exact hb0 (BitVec.eq_of_toNat_eq (Nat.eq_zero_of_add_eq_zero_right h0))
  · constructor
    · exact BitVec.le_def.2 (by rw [hstop]; exact Nat.le_add_right _ _)
    · exact BitVec.le_def.2 (by rw [hstop]; omega)

/-! ## The calls that are left alone -/

/-- A call that is passed on is left alone, unless the shim has no pointer for it. -/
theorem passed_alone {selected : Request → Bool} {k : Request}
    (h : ∀ real, (s.request env real k).1 = k.passed (s.init_once env) real)
    (hmalloc : (∃ size, k = .malloc size) → k.Spared (s.init_once env) selected) :
    LeftAlone env s selected k ↔ ¬ Unresolved (s.init_once env) selected k := by
  cases hk : k.known (s.init_once env) with
  | true =>
    have hreal (real : Request → Ret) : (s.request env real k).1 = .real (real (k.forward (s.init_once env))) := by
      rw [h, Request.passed, if_pos hk]
    refine iff_of_true ⟨fun _ real => ?_, fun real hkept => ?_, fun real hno => ?_⟩ fun hun => ?_
    · rw [hreal]
      rfl
    · simp [hreal] at hkept
    · simp [hreal] at hno
    · rw [hun.1] at hk
      cases hk
  | false =>
    have hreal (real : Request → Ret) : (s.request env real k).1 = k.unknown := by
      rw [h, Request.passed, if_neg (by simp [hk])]
    by_cases hsp : k.Spared (s.init_once env) selected
    · refine iff_of_false (fun hl => ?_) (not_not_intro ⟨hk, hsp⟩)
      -- The C library might return a pointer.
      have hret := hl.alone hsp fun _ => .ptr 1
      rw [hreal] at hret
      cases k <;> simp [Request.unknown, Answer.ret] at hret
    · have hunknown : k.unknown = .crash := by
        cases k with
        | malloc size => exact absurd (hmalloc ⟨size, rfl⟩) hsp
        | _ => rfl
      refine iff_of_true ⟨fun hs => absurd hs hsp, fun real hkept => ?_, fun real hno => ?_⟩ fun hun => hsp hun.2
      · simp [hreal, hunknown] at hkept
      · simp [hreal, hunknown] at hno

/-- A call that is kept is left alone if it is not spared, and its alignment is a power of two or the window is
exhausted. -/
theorem kept_alone (hf : env.Fits) (hr : Ready env (s.init_once env)) {selected : Request → Bool} {k : Request}
    (hi : (s.init_once env).intercepts k = true) (hbase : (s.init_once env).bar_base ≠ 0)
    (href : (s.init_once env).refuses k = true) :
    LeftAlone env s selected k ↔ ¬ k.Spared (s.init_once env) selected ∧ ¬ OddAlignment (s.init_once env) k := by
  have hc := hr.config (Shim.started_init_once env s) hi
  have hkept (real : Request → Ret) := @request_kept _ _ real _ hi hbase href
  constructor
  · intro h
    constructor
    · apply h.only fun _ => .fail 0
      rw [hkept]
      split_ifs
      · exact .inr ⟨_, rfl⟩
      · exact .inl rfl
    · rintro ⟨-, -, -, hodd, hroom⟩
      apply hroom (h.exhausted (fun _ => .fail 0) _)
      rw [hkept, odd_gets_nothing hf hc hodd]
      rfl
  · rintro ⟨hsp, hodd⟩
    refine ⟨fun h => absurd h hsp, fun _ _ => hsp, fun real hno => ?_⟩
    by_contra hroom
    have hmin : (s.init_once env).min_alloc ≤ k.size := BitVec.not_lt.1 fun hlt => hsp (.inl hlt)
    obtain ⟨j, hj⟩ : ∃ j, k.aligns (s.init_once env) = 2 ^ j := by
      by_contra hno2
      exact hodd ⟨hi, hbase, hmin, hno2, hroom⟩
    apply hroom (refused_exhausted hf hc hbase hmin hj _)
    rw [hkept] at hno
    split_ifs at hno with h0
    exact not_not.1 h0

/-- A call that is kept although it is too small is for aligned memory. -/
theorem kept_small {k : Request} (hi : s.intercepts k = true) (hbase : s.bar_base ≠ 0) (href : s.refuses k = true)
    (hlt : k.size < s.min_alloc) : SmallAligned s k := by
  -- The other calls compare the size before they are kept.
  have hsmall (hge : s.min_alloc ≤ k.size) : False := BitVec.not_lt.2 hge hlt
  cases k with
  | mmap a =>
    simp only [Shim.intercepts, Bool.and_eq_true, decide_eq_true_eq] at hi
    exact (hsmall hi.2).elim
  | mmap64 a =>
    simp only [Shim.intercepts, Bool.and_eq_true, decide_eq_true_eq] at hi
    exact (hsmall hi.2).elim
  | malloc size => exact (hsmall (of_decide_eq_true href)).elim
  | _ => exact ⟨rfl, hi, hbase, hlt⟩

/-- Whatever counts as selected: the calls that are not left alone, if a call that is intercepted is selected
or `malloc` in the wrong mode. -/
theorem left_alone (hf : env.Fits) (hr : Ready env (s.init_once env)) {selected : Request → Bool}
    {other : Prop} {k : Request} (hother : other → (s.init_once env).bar_base ≠ 0 ∧
      (s.init_once env).min_alloc ≤ k.size ∧ (s.init_once env).intercepts k = true ∧
      selected k = false)
    (hsel : (s.init_once env).intercepts k = true → (s.init_once env).bar_base ≠ 0 →
      (s.init_once env).min_alloc ≤ k.size → selected k = false → other)
    (hmalloc : (∃ size, k = .malloc size) → selected k = true → (s.init_once env).bar_base ≠ 0 →
      (s.init_once env).intercepts k = true) :
    LeftAlone env s selected k ↔ ¬ SmallAligned (s.init_once env) k ∧ ¬ OddAlignment (s.init_once env) k ∧
      ¬ Unresolved (s.init_once env) selected k ∧ ¬ other := by
  cases request_goes env s k with
  | passed h hno =>
    rw [passed_alone h]
    · refine ⟨fun hun => ⟨?_, ?_, hun, ?_⟩, fun hall => hall.2.2.1⟩
      · rintro ⟨hal, halloc, hbase, -⟩
        have hi : (s.init_once env).intercepts k = true := by
          cases k <;> first | exact halloc | cases hal
        rw [(hno hi hbase).2] at hal
        cases hal
      · rintro ⟨hi, hbase, hmin, -⟩
        exact BitVec.not_lt.2 hmin (hno hi hbase).1
      · intro ho
        obtain ⟨hbase, hmin, hi, -⟩ := hother ho
        exact BitVec.not_lt.2 hmin (hno hi hbase).1
    · intro hm
      by_contra hsp
      simp only [Request.Spared, not_or, Bool.not_eq_false] at hsp
      exact hsp.1 (hno (hmalloc hm hsp.2.1 hsp.2.2) hsp.2.2).1
  | kept hi hbase href =>
    rw [kept_alone hf hr hi hbase href]
    constructor
    · rintro ⟨hsp, hodd⟩
      refine ⟨fun hsmall => hsp (.inl hsmall.2.2.2), hodd, fun hun => hsp hun.2, fun ho => ?_⟩
      exact hsp (.inr (.inl (hother ho).2.2.2))
    · rintro ⟨hsmall, hodd, -, hno⟩
      refine ⟨?_, hodd⟩
      rintro (hlt | hs | h0)
      · exact hsmall (kept_small hi hbase href hlt)
      · by_cases hmin : (s.init_once env).min_alloc ≤ k.size
        · exact hno (hsel hi hbase hmin hs)
        · exact hsmall (kept_small hi hbase href (BitVec.not_le.1 hmin))
      · exact hbase h0

/-- The flags and the README differ on `malloc` in the mode `alloc`. -/
theorem selects_undocumented {k : Request} (hc : Config env s) (hsel : s.selects k = true)
    (hdoc : env.documented k = false) :
    (∃ size, k = .malloc size) ∧ env.PCIBAR_MLC_INTERCEPT = some "alloc".toList := by
  have hmmap (hs : s.intercept_mmap = true) (hd : env.intercept_mmap = false) : False := by
    rw [hc.intercept_mmap, hd] at hs
    cases hs
  have halloc (hs : s.intercept_alloc = true) (hd : env.intercept_alloc = false) : False := by
    rw [hc.intercept_alloc, hd] at hs
    cases hs
  cases k with
  | mmap a => exact (hmmap hsel hdoc).elim
  | mmap64 a => exact (hmmap hsel hdoc).elim
  | malloc size =>
    refine ⟨⟨size, rfl⟩, ?_⟩
    have hs : env.intercept_alloc = true := hc.intercept_alloc ▸ hsel
    have hall : env.PCIBAR_MLC_INTERCEPT ≠ some "all".toList := of_decide_eq_false hdoc
    unfold Env.intercept_alloc at hs
    cases hm : env.PCIBAR_MLC_INTERCEPT with
    | none =>
      rw [hm] at hs
      cases hs
    | some mode =>
      rw [hm] at hs hall
      simp only [Bool.or_eq_true, decide_eq_true_eq] at hs
      exact congrArg some (hs.resolve_right fun h => hall (congrArg some h))
  | _ => exact (halloc hsel hdoc).elim

/-- While a BAR is mapped, `init_once` is over, and `malloc` is intercepted when allocations are. -/
theorem malloc_intercepted (hr : Ready env s) (hbase : s.bar_base ≠ 0) {size : Size}
    (halloc : s.intercept_alloc = true) :
    s.intercepts (.malloc size) = true := by
  have hrun : s.init_running = false := by
    by_contra hr'
    exact hbase (hr.unmapped (.inr (eq_true_of_ne_false hr')))
  simp [Shim.intercepts, hrun, halloc]

theorem left_alone_flags (hf : env.Fits) (hr : Ready env (s.init_once env)) (k : Request) :
    LeftAlone env s (s.init_once env).selects k ↔ ¬ SmallAligned (s.init_once env) k ∧
    ¬ OddAlignment (s.init_once env) k ∧
      ¬ Unresolved (s.init_once env) (s.init_once env).selects k := by
  have h := @left_alone env s hf hr (s.init_once env).selects False k False.elim
    (fun hi _ _ hs => by simp [selects_of_intercepts hi] at hs) fun ⟨size, he⟩ hs hbase => by
      subst he
      exact malloc_intercepted hr hbase hs
  simpa using h

theorem left_alone_documented (hf : env.Fits) (hr : Ready env (s.init_once env)) (k : Request) :
    LeftAlone env s env.documented k ↔ ¬ SmallAligned (s.init_once env) k ∧ ¬ OddAlignment (s.init_once env) k ∧
      ¬ Unresolved (s.init_once env) env.documented k ∧ ¬ MallocInAlloc env (s.init_once env) k := by
  -- A BAR that is mapped has been found in the environment.
  have hconfig (hbase : (s.init_once env).bar_base ≠ 0) : Config env (s.init_once env) :=
    hr.resolve_left fun he => hbase he.bar_base
  refine left_alone hf hr ?_ ?_ ?_
  · rintro ⟨⟨size, rfl⟩, hmode, hbase, hmin⟩
    refine ⟨hbase, hmin, malloc_intercepted hr hbase ?_, ?_⟩
    · rw [(hconfig hbase).intercept_alloc, Env.intercept_alloc, hmode]
      rfl
    · rw [Env.documented, hmode]
      decide
  · intro hi hbase hmin hdoc
    obtain ⟨hk, hmode⟩ := selects_undocumented (hconfig hbase) (selects_of_intercepts hi) hdoc
    exact ⟨hk, hmode, hbase, hmin⟩
  · rintro ⟨size, rfl⟩ hdoc hbase
    have hall : env.PCIBAR_MLC_INTERCEPT = some "all".toList := of_decide_eq_true hdoc
    apply malloc_intercepted hr hbase
    rw [(hconfig hbase).intercept_alloc, Env.intercept_alloc, hall]
    rfl

/-- In every state of every run, a call is left alone as it should be, unless it is a small call for aligned
memory that is intercepted while a BAR is mapped, asks for an alignment that is no power of two while there is room,
or finds no pointer to the C library's function. By the README, `malloc` in the mode `alloc` is another exception. -/
theorem left_alone_iff (hf : env.Fits) {os : List Op} (h : ShimRun env s os) (k : Request) :
    (LeftAlone env s (s.init_once env).selects k ↔ ¬ SmallAligned (s.init_once env) k ∧
      ¬ OddAlignment (s.init_once env) k ∧ ¬ Unresolved (s.init_once env) (s.init_once env).selects k) ∧
    (LeftAlone env s env.documented k ↔ ¬ SmallAligned (s.init_once env) k ∧ ¬ OddAlignment (s.init_once env) k ∧
      ¬ Unresolved (s.init_once env) env.documented k ∧ ¬ MallocInAlloc env (s.init_once env) k) :=
  ⟨left_alone_flags hf (init_once_ready h.ready) k, left_alone_documented hf (init_once_ready h.ready) k⟩

/-- 4 MiB of BAR for every call of at least 1 MiB. -/
def redirectAll : Env :=
  ⟨some "/dev/pcibarlat_physmem".toList, some "1M".toList, some "4M".toList, some "all".toList, 4096,
    fun _ => true, true, true, true, some 0x7f0000000000⟩

theorem redirectAll_fits : redirectAll.Fits := by
  refine ⟨⟨12, by decide⟩, fun base h => ?_⟩
  obtain rfl := Option.some.inj h
  exact ⟨by decide, by decide +kernel, by decide +kernel⟩

/-- `posix_memalign` of 100 bytes is refused with `ENOMEM`. -/
theorem small_aligned_refused : ∃ s os, ShimRun redirectAll s os ∧
    ¬ LeftAlone redirectAll s (s.init_once redirectAll).selects (.posix_memalign 64 100) ∧
    (s.request redirectAll (fun _ => .ptr 16) (.posix_memalign 64 100)).1 = .enomem := by
  refine ⟨Shim.initial, [], .start rfl, fun h => ?_, by decide +kernel⟩
  have hret := h.alone (.inl (by decide +kernel)) fun _ => .ptr 16
  exact absurd hret (by decide +kernel)

/-- `malloc` of 1 MiB from what is left of the window after another one. -/
theorem left_alone_malloc : ∃ s os, ShimRun redirectAll s os ∧ blocks os = [⟨0x7f0000000000, 0x100000⟩] ∧
    LeftAlone redirectAll s redirectAll.documented (.malloc 0x100000) := by
  have h0 : ShimRun redirectAll Shim.initial [] := .start rfl
  have h1 := h0.next (@step_request redirectAll Shim.initial (.malloc 0x100000) (.bar 0x7f0000000000)
    (by decide) (by decide +kernel))
  refine ⟨_, _, h1, rfl, (left_alone_iff redirectAll_fits h1 (.malloc 0x100000)).2.2 ⟨?_, ?_, ?_, ?_⟩⟩
  · exact fun h => absurd h.1 (by decide)
  · exact fun h => h.2.2.2.1 ⟨12, by decide +kernel⟩
  · exact fun h => absurd h.1 (by decide +kernel)
  · exact fun h => absurd h.2.1 (by decide)

end mlc
