import GdrCopy.Lib.Blocks
import GdrCopy.Lib.Words
import GdrCopy.Tools.Shim
/-!
# Slices of the BAR

The slices the shim hands out lie in its window and do not overlap, except for what
`pvalloc` returns when its rounding wraps (`bar_blocks`). A slice has the alignment
that was asked for if the window itself has it (`bar_alignment_iff`).
-/

namespace mlc

open Blocks

variable {env : Env} {s s' : Shim}

/-! ## The window -/

/-- The page size is a power of two, and the real `mmap` provided the window within the address space. -/
structure Env.Fits (env : Env) : Prop where
  page : ∃ k, env.page_size.toNat = 2 ^ k
  window : ∀ base, env.mapped = some base → base ≠ 0 ∧ env.bar_size.toNat < 2 ^ 63 ∧
    base.toNat + env.bar_size.toNat < 2 ^ 64

/-- The block that a call returned from the BAR, with the size that was asked for. -/
def Op.block : Op → Option Block
  | .request k _ (.bar ptr) => some ⟨ptr.toNat, k.size.toNat⟩
  | _ => none

def blocks (os : List Op) : List Block := os.filterMap Op.block

/-- The blocks lie in the window and do not overlap. -/
structure Window (s : Shim) (os : List Op) : Prop where
  inside : Within s.bar_base.toNat (s.bar_base.toNat + s.bar_size.toNat) (blocks os)
  disjoint : (blocks os).Pairwise Block.Disjoint

/-- `pvalloc` rounds its size past `2 ^ 64` to 0, and `bar_alloc` accepts it: no size is too small for it, and
the window is not used up. -/
def PvallocWraps (env : Env) (s : Shim) : Op → Prop
  | .request (.pvalloc size) _ _ =>
    let s := s.init_once env
    2 ^ 64 < size.toNat + s.page_size.toNat ∧ s.intercept_alloc = true ∧ s.bar_base ≠ 0 ∧ s.min_alloc = 0 ∧
      round_up_pow2 s.bar_next s.page_size ≤ s.bar_size
  | _ => False

/-- The invariant: everything handed out is below `bar_next`. -/
structure Packed (env : Env) (s : Shim) (bs : List Block) : Prop where
  ready : Ready env s
  none : s.bar_base = 0 → bs = []
  within : Within s.bar_base.toNat (s.bar_base.toNat + min s.bar_next.toNat s.bar_size.toNat) bs
  ordered : Ordered bs
  next_le : s.bar_next.toNat ≤ 2 ^ 63

theorem Packed.window {os : List Op} (h : Packed env s (blocks os)) : Window s os :=
  ⟨h.within.mono (Nat.add_le_add_left (Nat.min_le_right _ _) _), h.ordered.disjoint⟩

theorem Packed.nil (hr : Ready env s) (hn : s.bar_next.toNat ≤ 2 ^ 63) : Packed env s [] :=
  ⟨hr, fun _ => rfl, fun _ hb => absurd hb List.not_mem_nil, .nil, hn⟩

/-- Nothing is handed out until `init_once` is over, so the base is the same for all blocks. -/
theorem Packed.init_once {bs : List Block} (h : Packed env s bs) : Packed env (s.init_once env) bs := by
  cases hs : s.init_done || s.init_running with
  | true =>
    rw [Shim.init_once_started hs]
    exact h
  | false =>
    obtain ⟨hd, -⟩ := Bool.or_eq_false_iff.1 hs
    rw [h.none (h.ready.unmapped (.inl hd))]
    refine .nil (init_once_ready h.ready) ?_
    rw [init_once_bar_next h.ready]
    exact h.next_le

theorem two_pow_le {a : Size} {k : Nat} (h : a.toNat = 2 ^ k) : 2 ^ k ≤ 2 ^ 63 := by
  have hlt : 2 ^ k < 2 ^ 64 := h ▸ a.isLt
  exact Nat.pow_le_pow_right (by decide) (Nat.le_of_lt_succ ((Nat.pow_lt_pow_iff_right (by decide)).1 hlt))

/-- The slice that `bar_alloc` takes starts behind everything that was handed out, and ends in the window. -/
structure Slice (s : Shim) (size : Size) (a start next : Size) : Prop where
  ge : s.bar_next.toNat ≤ start.toNat
  stop_le : start.toNat + size.toNat ≤ s.bar_size.toNat
  le_next : start.toNat + size.toNat ≤ next.toNat
  next_le : next.toNat ≤ 2 ^ 63
  start_eq : start = round_up_pow2 s.bar_next a
  aligned : ∃ k, a.toNat = 2 ^ k

theorem bar_alloc_slice (hf : env.Fits) (hc : Config env s) (hnext : s.bar_next.toNat ≤ 2 ^ 63) (size align : Size) :
    s.bar_alloc env size align = (0, s) ∨
    ∃ a start next, (a = align ∨ a = s.page_size) ∧ Slice s size a start next ∧ s.bar_base ≠ 0 ∧ s.min_alloc ≤ size ∧
      (s.bar_base + start).toNat = s.bar_base.toNat + start.toNat ∧ s.bar_base + start ≠ 0 ∧
      s.bar_alloc env size align = (s.bar_base + start, { s with bar_next := next }) := by
  rcases bar_alloc_cases env hc.started size align with he | ⟨a, start, stop, hor, hpage, -, hand, hstart, rfl,
    hle, hstop, hbase, hmin, he⟩
  · exact .inl he
  obtain ⟨k, hk⟩ := hf.page
  rw [← hc.page_size] at hk
  obtain ⟨hb0, hsize, hwin⟩ := hf.window _ (hc.base hbase)
  rw [← hc.bar_size] at hsize hwin
  have hpos : 0 < 2 ^ k := Nat.two_pow_pos k
  have ha0 : a ≠ 0 := by
    rintro rfl
    rw [BitVec.le_def, hk] at hpage
    exact absurd hpos (Nat.not_lt.2 hpage)
  obtain ⟨j, hj⟩ := Words.two_pow_of_and_pred ha0 hand
  have hj63 := two_pow_le hj
  have hk63 := two_pow_le hk
  have hge : s.bar_next.toNat ≤ start.toNat := by
    rw [hstart]
    exact (Words.round_up_le hj (by omega)).1
  -- the end is not computed modulo `2 ^ 64` where the check passes
  have hend : (start + size).toNat = start.toNat + size.toNat := by
    rw [BitVec.le_def, BitVec.toNat_add] at hle
    rw [BitVec.toNat_add]
    have := start.isLt
    have := size.isLt
    omega
  rw [BitVec.le_def, hend] at hstop
  have hround := @Words.round_up_le _ _ _ hk (start + size) (by omega)
  have hdvd := Words.dvd_round_up hk (start + size)
  have hnext' : (round_up_pow2 (start + size) s.page_size).toNat ≤ 2 ^ 63 := by
    -- the next multiple of the page size, which divides `2 ^ 63`
    have hk' : k ≤ 63 := (Nat.pow_le_pow_iff_right (by decide)).1 hk63
    obtain ⟨q, hq⟩ := hdvd
    have hlt : 2 ^ k * q < 2 ^ k * (2 ^ (63 - k) + 1) := by
      rw [Nat.mul_succ, ← pow_add, Nat.add_sub_cancel' hk']
      have h2 := hround.2
      rw [hq] at h2
      omega
    rw [round_up_pow2, hq]
    calc 2 ^ k * q ≤ 2 ^ k * 2 ^ (63 - k) := Nat.mul_le_mul_left _ (Nat.le_of_lt_succ (Nat.lt_of_mul_lt_mul_left hlt))
      _ = 2 ^ 63 := by rw [← pow_add, Nat.add_sub_cancel' hk']
  have hsum : (s.bar_base + start).toNat = s.bar_base.toNat + start.toNat := by
    rw [BitVec.toNat_add, Nat.mod_eq_of_lt (by omega)]
  refine .inr ⟨a, start, _, hor, ⟨hge, hstop, ?_, hnext', hstart, j, hj⟩, hbase, hmin, hsum, ?_, he⟩
  · rw [← hend]
    exact hround.1
  · intro h0
    have h0 := congrArg BitVec.toNat h0
    rw [hsum] at h0
    have hz : s.bar_base.toNat = 0 := Nat.eq_zero_of_add_eq_zero_right h0
    exact hb0 (BitVec.eq_of_toNat_eq hz)

/-! ## A step -/

/-- A call returns no slice and moves nothing, or returns the slice of `bar_alloc`. -/
theorem request_slice (hf : env.Fits) (hr : Ready env (s.init_once env))
    (hnext : (s.init_once env).bar_next.toNat ≤ 2 ^ 63) (real : Request → Ret) (k : Request) :
    ((∀ ptr, (s.request env real k).1 ≠ .bar ptr) ∧ (s.request env real k).2 = s.init_once env) ∨
    ∃ a start next, (s.init_once env).intercepts k = true ∧
    (a = (k.carve (s.init_once env)).2 ∨ a = (s.init_once env).page_size) ∧
      Slice (s.init_once env) (k.carve (s.init_once env)).1 a start next ∧ (s.init_once env).bar_base ≠ 0 ∧
      (s.init_once env).min_alloc ≤ (k.carve (s.init_once env)).1 ∧
      ((s.init_once env).bar_base + start).toNat = (s.init_once env).bar_base.toNat + start.toNat ∧
      s.request env real k = (.bar ((s.init_once env).bar_base + start),
        { s.init_once env with bar_next := next }) := by
  rw [request_eq]
  by_cases hi : (s.init_once env).intercepts k = true
  swap
  · rw [if_neg hi]
    exact .inl ⟨passed_ne_bar real k, rfl⟩
  rw [if_pos hi]
  have hc := hr.config (Shim.started_init_once env s) hi
  rcases bar_alloc_slice hf hc hnext (k.carve (s.init_once env)).1 (k.carve (s.init_once env)).2 with
    he | ⟨a, start, next, hor, hslice, hbase, hmin, hsum, hne, he⟩
  · rw [he]
    refine .inl ?_
    dsimp only
    rw [if_neg (not_not_intro rfl)]
    split_ifs
    · exact ⟨fun ptr he => (Answer.noConfusion he : False), rfl⟩
    · exact ⟨passed_ne_bar real k, rfl⟩
  · rw [he]
    exact .inr ⟨a, start, next, hi, hor, hslice, hbase, hmin, hsum, if_pos hne⟩

theorem round_up_wraps {size page : Size} {k : Nat} (hk : page.toNat = 2 ^ k) (h : 2 ^ 64 < size.toNat + page.toNat) :
    round_up_pow2 size page = 0 := by
  have hlt := page.isLt
  have hsize := size.isLt
  have hmod : (size.toNat + (2 ^ k - 1)) % 2 ^ 64 < 2 ^ k := by
    rw [hk] at hlt h
    omega
  have hz : (round_up_pow2 size page).toNat = 0 := by
    rw [round_up_pow2, Words.round_up_toNat hk, Nat.div_eq_of_lt hmod, Nat.zero_mul]
  exact BitVec.eq_of_toNat_eq hz

/-- The size that `bar_alloc` gets is no less than the one asked for, or `pvalloc` has wrapped it to 0. -/
theorem carve_size (hf : env.Fits) (hc : Config env s) (k : Request) :
    k.size.toNat ≤ (k.carve s).1.toNat ∨
    ∃ size, k = .pvalloc size ∧ 2 ^ 64 < size.toNat + s.page_size.toNat ∧ (k.carve s).1 = 0 := by
  cases k with
  | pvalloc size =>
    obtain ⟨j, hj⟩ := hf.page
    rw [← hc.page_size] at hj
    by_cases hw : size.toNat + (2 ^ j - 1) < 2 ^ 64
    · exact .inl (Words.round_up_le hj hw).1
    · have hwrap : 2 ^ 64 < size.toNat + s.page_size.toNat := by
        have := Nat.two_pow_pos j
        omega
      exact .inr ⟨size, rfl, hwrap, round_up_wraps hj hwrap⟩
  | _ => exact .inl (Nat.le_refl _)

/-- A slice joins the blocks: it starts behind all of them and holds what was asked for. -/
theorem Packed.snoc {bs : List Block} {size asked a start next : Size} (h : Packed env s bs)
    (hc : Config env { s with bar_next := next }) (hbase : s.bar_base ≠ 0) (hslice : Slice s size a start next)
    (hsum : (s.bar_base + start).toNat = s.bar_base.toNat + start.toNat) (hsize : asked.toNat ≤ size.toNat) :
    Packed env { s with bar_next := next } (bs ++ [⟨(s.bar_base + start).toNat, asked.toNat⟩]) := by
  have hge := hslice.ge
  have hstop := hslice.stop_le
  have hle := hslice.le_next
  refine ⟨.inr hc, fun h0 => absurd h0 hbase, ?_, ?_, hslice.next_le⟩
  · refine h.within.snoc ?_ ?_ ?_
    · rw [hsum]
      exact Nat.le_add_right _ _
    · dsimp only
      omega
    · rw [hsum]
      dsimp only
      omega
  · refine h.ordered.snoc h.within ?_
    rw [hsum]
    dsimp only
    omega

/-- What one step keeps: the slices stay apart, and `bar_next` only moves with a slice. -/
theorem Packed.step {bs : List Block} {o : Op} (hf : env.Fits) (h : Packed env s bs)
    (hok : ¬ PvallocWraps env s o) (ht : Step env s o s') :
    Packed env s' (bs ++ o.block.toList) ∧ s.bar_next ≤ s'.bar_next ∧
    (o.block = Option.none → s'.bar_next = s.bar_next) := by
  have hready := step_ready h.ready ht
  have hb1 := init_once_bar_next h.ready
  have hstill (hs : s' = s.init_once env) (hblock : o.block = Option.none) :
      Packed env s' (bs ++ o.block.toList) ∧ s.bar_next ≤ s'.bar_next ∧
        (o.block = Option.none → s'.bar_next = s.bar_next) := by
    rw [hs, hblock, hb1]
    exact ⟨(List.append_nil bs).symm ▸ h.init_once, BitVec.le_refl _, fun _ => rfl⟩
  -- No block has been handed out before `init_once` ends.
  have hstarting (hs : s.init_done = false ∨ s.init_running = true) (hblock : o.block = Option.none)
      (hnext : s'.bar_next = s.bar_next) :
      Packed env s' (bs ++ o.block.toList) ∧ s.bar_next ≤ s'.bar_next ∧
        (o.block = Option.none → s'.bar_next = s.bar_next) := by
    rw [h.none (h.ready.unmapped hs), hblock, hnext]
    exact ⟨.nil hready (hnext ▸ h.next_le), BitVec.le_refl _, fun _ => rfl⟩
  cases o with
  | request k real a =>
    have hr1 := init_once_ready h.ready
    have h1 := h.init_once
    have hreq : s.request env real k = (a, s') := ht.2
    rcases request_slice hf hr1 h1.next_le real k with ⟨hno, hs⟩ | ⟨al, start, next, hi, hor, hslice, hbase,
      hmin, hsum, he⟩
    · rw [hreq] at hno hs
      refine hstill hs ?_
      cases a with
      | bar ptr => exact absurd rfl (hno ptr)
      | _ => rfl
    · have hc1 := hr1.config (Shim.started_init_once env s) hi
      rw [hreq] at he
      obtain ⟨rfl, rfl⟩ := Prod.mk.inj he
      have hsize : k.size.toNat ≤ (k.carve (s.init_once env)).1.toNat := by
        rcases carve_size hf hc1 k with hle | ⟨size, rfl, hwrap, hzero⟩
        · exact hle
        · refine absurd ⟨hwrap, hi, hbase, ?_, ?_⟩ hok
          · rw [hzero, BitVec.le_def] at hmin
            exact BitVec.eq_of_toNat_eq (Nat.le_zero.1 hmin)
          · -- `pvalloc` aligns to a page
            have hal : al = (s.init_once env).page_size := hor.elim id id
            rw [BitVec.le_def, ← hal, ← hslice.start_eq]
            exact Nat.le_trans (Nat.le_add_right _ _) hslice.stop_le
      refine ⟨h1.snoc (hc1.next next) hbase hslice hsum hsize, ?_, fun hn => absurd hn (by exact Option.some_ne_none _)⟩
      rw [← hb1, BitVec.le_def]
      exact Nat.le_trans hslice.ge (Nat.le_trans (Nat.le_add_right _ _) hslice.le_next)
  | free ptr r => exact hstill (Prod.mk.inj ht).2.symm rfl
  | munmap addr length r => exact hstill (Prod.mk.inj ht.2).2.symm rfl
  | initStart =>
    obtain ⟨hdone, -, rfl⟩ := ht
    exact hstarting (.inl hdone) rfl rfl
  | initSymbol x left =>
    obtain ⟨hinit, rfl⟩ := ht
    exact hstarting (.inr (by simp [Shim.init_running, hinit])) rfl rfl
  | initRead =>
    obtain ⟨hinit, rfl⟩ := ht
    exact hstarting (.inr (by simp [Shim.init_running, hinit])) rfl rfl
  | initFinish =>
    obtain ⟨hinit, rfl⟩ := ht
    exact hstarting (.inr (by simp [Shim.init_running, hinit])) rfl (initFinish_bar_next env s)

/-! ## Runs -/

/-- The runs in which no `pvalloc` wraps. -/
abbrev CleanRun (env : Env) := Runs.Run (· = Shim.initial) (Runs.only (fun s o => ¬ PvallocWraps env s o) (Step env))

theorem CleanRun.packed (hf : env.Fits) {os : List Op} (h : CleanRun env s os) : Packed env s (blocks os) := by
  induction h with
  | start h =>
    rw [h]
    exact .nil (.inl initial_early) (Nat.zero_le _)
  | @next s s' o os _ ht ih =>
    have hb : blocks (os ++ [o]) = blocks os ++ o.block.toList := by
      rw [blocks, List.filterMap_append]
      cases h : o.block <;> simp [blocks, h]
    rw [hb]
    exact (ih.step hf ht.1 ht.2).1

/-- No size is refused where `min_alloc` is 0 and the window is not used up. -/
theorem bar_alloc_zero (env : Env) (hstarted : (s.init_done || s.init_running) = true) (hbase : s.bar_base ≠ 0)
    (hmin : s.min_alloc = 0) (hpow : s.page_size &&& (s.page_size - 1) = 0)
    (hle : round_up_pow2 s.bar_next s.page_size ≤ s.bar_size) :
    (s.bar_alloc env 0 s.page_size).1 = s.bar_base + round_up_pow2 s.bar_next s.page_size := by
  have hoff : ¬(decide (s.bar_base = 0) || decide ((0 : Size) < s.min_alloc)) = true := by
    rw [hmin]
    simpa using hbase
  have hadd : round_up_pow2 s.bar_next s.page_size + 0 = round_up_pow2 s.bar_next s.page_size := BitVec.add_zero _
  have hpage : (if s.page_size < s.page_size then s.page_size else s.page_size) = s.page_size :=
    if_neg (BitVec.lt_irrefl _)
  unfold Shim.bar_alloc
  rw [Shim.init_once_started hstarted]
  dsimp only
  rw [if_neg hoff, hpage, if_neg (not_not_intro hpow), hadd, if_pos ⟨BitVec.le_refl _, hle⟩]

theorem bar_alloc_keeps (env : Env) (hstarted : (s.init_done || s.init_running) = true) (size align : Size) :
    (s.bar_alloc env size align).2.bar_base = s.bar_base ∧ (s.bar_alloc env size align).2.bar_size = s.bar_size := by
  rcases bar_alloc_cases env hstarted size align with he | ⟨a, start, stop, -, -, -, -, -, -, -, -, -, -, he⟩
  · rw [he]
    exact ⟨rfl, rfl⟩
  · rw [he]
    exact ⟨rfl, rfl⟩

/-- A `pvalloc` that wraps returns a block that leaves the window. -/
theorem PvallocWraps.leaves {bs : List Block} {o : Op} (hf : env.Fits) (h : Packed env s bs)
    (hw : PvallocWraps env s o) (ht : Step env s o s') :
    ∃ b, o.block = some b ∧ s'.bar_base.toNat + s'.bar_size.toNat < b.addr + b.size := by
  unfold PvallocWraps at hw
  split at hw
  swap
  · exact hw.elim
  rename_i size real a
  obtain ⟨hwrap, halloc, hbase, hmin, hle⟩ := hw
  have hc1 := (init_once_ready h.ready).config (Shim.started_init_once env s) (k := .pvalloc size) halloc
  obtain ⟨k, hk⟩ := hf.page
  rw [← hc1.page_size] at hk
  obtain ⟨-, hsize63, hwin⟩ := hf.window _ (hc1.base hbase)
  rw [← hc1.bar_size] at hsize63 hwin
  have hpow := Words.and_pred_of_two_pow hk
  -- The rounded size is 0, so the block starts at the aligned `bar_next`; what was asked for is almost 2^64 bytes.
  have hptr := bar_alloc_zero env hc1.started hbase hmin hpow hle
  have hsum : ((s.init_once env).bar_base + round_up_pow2 (s.init_once env).bar_next
      (s.init_once env).page_size).toNat =
      (s.init_once env).bar_base.toNat + (round_up_pow2 (s.init_once env).bar_next
        (s.init_once env).page_size).toNat := by
    rw [BitVec.le_def] at hle
    rw [BitVec.toNat_add, Nat.mod_eq_of_lt (by omega)]
  have hne : (s.init_once env).bar_base + round_up_pow2 (s.init_once env).bar_next (s.init_once env).page_size ≠ 0 := by
    intro h0
    have h0 := congrArg BitVec.toNat h0
    rw [hsum] at h0
    exact hbase (BitVec.eq_of_toNat_eq (Nat.eq_zero_of_add_eq_zero_right h0))
  have hreq : s.request env real (.pvalloc size) = (a, s') := ht.2
  have hi : (s.init_once env).intercepts (.pvalloc size) = true := halloc
  rw [request_eq, if_pos hi] at hreq
  dsimp only [Request.carve] at hreq
  rw [round_up_wraps hk hwrap, hptr, if_pos hne] at hreq
  obtain ⟨rfl, rfl⟩ := Prod.mk.inj hreq
  obtain ⟨hb, hs⟩ := bar_alloc_keeps env hc1.started 0 (s.init_once env).page_size
  refine ⟨_, rfl, ?_⟩
  rw [hb, hs]
  dsimp only [Request.size]
  have hk63 := two_pow_le hk
  rw [hsum]
  omega

/-- In every run without a wrapped `pvalloc`, the blocks from the BAR lie in the window and are disjoint,
`bar_next` never decreases, and a call that gets no block leaves it. A wrapped `pvalloc` gets a block outside
the window. -/
theorem bar_blocks (hf : env.Fits) {os : List Op} (h : CleanRun env s os) :
    Window s os ∧ ∀ o s', Step env s o s' →
      (¬ PvallocWraps env s o → s.bar_next ≤ s'.bar_next ∧ (o.block = none → s'.bar_next = s.bar_next)) ∧
      (PvallocWraps env s o → ¬ Window s' (os ++ [o])) := by
  have hp := h.packed hf
  refine ⟨hp.window, fun o s' ht => ⟨fun hok => (hp.step hf hok ht).2, fun hw hwin => ?_⟩⟩
  obtain ⟨b, hb, hout⟩ := hw.leaves hf hp ht
  have hmem : b ∈ blocks (os ++ [o]) := List.mem_filterMap.2 ⟨o,
    List.mem_append_right _ (List.mem_singleton_self o), hb⟩
  exact absurd (hwin.inside b hmem).2 (Nat.not_le.2 hout)

/-- A window of 1 MiB, for calls of every size. -/
def smallWindow : Env :=
  ⟨some "/dev/pcibarlat_physmem".toList, some "0".toList, some "1M".toList, some "all".toList, 4096,
    fun _ => true, true, true, true, some 0x7f0000001000⟩

theorem smallWindow_fits : smallWindow.Fits := by
  refine ⟨⟨12, by decide⟩, fun base h => ?_⟩
  obtain rfl := Option.some.inj h
  exact ⟨by decide, by decide, by decide⟩

def noMemory : Request → Ret := fun _ => .fail ENOMEM

theorem step_request {k : Request} {a : Answer} (ha : a ≠ .crash) (h : (s.request env noMemory k).1 = a) :
    Step env s (.request k noMemory a) (s.request env noMemory k).2 := ⟨ha, Prod.ext h rfl⟩

/-- `pvalloc` of 16 bytes less than `2 ^ 64` gets a block of no bytes. -/
theorem pvalloc_leaves_window : smallWindow.Fits ∧
    ∃ s os, ShimRun smallWindow s os ∧
      os = [.request (.pvalloc 0xfffffffffffffff0) noMemory (.bar 0x7f0000001000)] ∧ ¬ Window s os := by
  have h0 : ShimRun smallWindow Shim.initial [] := .start rfl
  have t1 := @step_request smallWindow Shim.initial (.pvalloc 0xfffffffffffffff0) (.bar 0x7f0000001000)
    (by decide) (by decide +kernel)
  refine ⟨smallWindow_fits, _, _, h0.next t1, rfl, fun h => ?_⟩
  have hin := (h.inside ⟨0x7f0000001000, 0xfffffffffffffff0⟩ (List.mem_singleton.2 rfl)).2
  exact absurd hin (by decide +kernel)

/-- Two blocks from that window, a page and 16 bytes long. -/
theorem bar_blocks_smallWindow : ∃ s os, CleanRun smallWindow s os ∧
    blocks os = [⟨0x7f0000001000, 0x1000⟩, ⟨0x7f0000002000, 16⟩] ∧ Window s os := by
  have t1 := @step_request smallWindow Shim.initial (.malloc 0x1000) (.bar 0x7f0000001000) (by decide)
    (by decide +kernel)
  have t2 := @step_request smallWindow (Shim.initial.request smallWindow noMemory (.malloc 0x1000)).2
    (.posix_memalign 64 16)
    (.bar 0x7f0000002000) (by decide) (by decide +kernel)
  have h0 : CleanRun smallWindow Shim.initial [] := .start rfl
  have clean (s : Shim) (k : Request) (a : Answer) (hk : ∀ size, k ≠ .pvalloc size) :
      ¬ PvallocWraps smallWindow s (.request k noMemory a) := by
    cases k with
    | pvalloc size => exact absurd rfl (hk size)
    | _ => exact not_false
  have h1 := h0.next ⟨clean _ _ _ fun _ h => (Request.noConfusion h : False), t1⟩
  have h2 := h1.next ⟨clean _ _ _ fun _ h => (Request.noConfusion h : False), t2⟩
  exact ⟨_, _, h2, rfl, (bar_blocks smallWindow_fits h2).1⟩

/-! ## Alignment -/

/-- A call that gets a slice returns what `bar_alloc` returned. -/
theorem request_bar {real : Request → Ret} {k : Request} {ptr : Size} (h : (s.request env real k).1 = .bar ptr) :
    (s.init_once env).intercepts k = true ∧
      s.request env real k = (.bar ptr, ((s.init_once env).bar_alloc env (k.carve (s.init_once env)).1
        (k.carve (s.init_once env)).2).2) ∧
      ptr = ((s.init_once env).bar_alloc env (k.carve (s.init_once env)).1
        (k.carve (s.init_once env)).2).1 ∧ ptr ≠ 0 := by
  rw [request_eq] at h ⊢
  dsimp only at h ⊢
  by_cases hi : (s.init_once env).intercepts k = true
  swap
  · rw [if_neg hi] at h
    exact absurd h (passed_ne_bar real k ptr)
  rw [if_pos hi] at h ⊢
  split_ifs at h ⊢ with hne href
  · obtain rfl := Answer.bar.inj h
    exact ⟨hi, rfl, rfl, hne⟩
  · exact absurd h (passed_ne_bar real k ptr)

/-- The calls for aligned memory. -/
def Request.alignment : Request → Option Size
  | .posix_memalign alignment _ => some alignment
  | .aligned_alloc alignment _ => some alignment
  | .memalign alignment _ => some alignment
  | _ => none

theorem Request.carve_alignment {k : Request} {alignment : Size} (h : k.alignment = some alignment) (s : Shim) :
    (k.carve s).2 = alignment := by
  cases k <;> first | exact Option.some.inj h | cases h

/-- In every run and for every size, a BAR pointer for a power-of-two alignment is a multiple of it
if and only if the base of the window is. Up to the page size it always is. -/
theorem bar_alignment_iff {os : List Op} (h : ShimRun env s os) (hpage : ∃ k, env.page_size.toNat = 2 ^ k)
    (hmapped : ∀ base, env.mapped = some base → env.page_size.toNat ∣ base.toNat) {real : Request → Ret}
    {k : Request} {alignment ptr : Size} {j : Nat} (hk : k.alignment = some alignment)
    (ha : alignment.toNat = 2 ^ j) (hbar : (s.request env real k).1 = .bar ptr) :
    (alignment.toNat ∣ ptr.toNat ↔ alignment.toNat ∣ (s.request env real k).2.bar_base.toNat) ∧
      (alignment ≤ env.page_size → alignment.toNat ∣ ptr.toNat) := by
  obtain ⟨hi, he, hptr, hne⟩ := request_bar hbar
  have hc := (init_once_ready h.ready).config (Shim.started_init_once env s) hi
  rw [Request.carve_alignment hk] at he hptr
  rcases bar_alloc_cases env hc.started (k.carve (s.init_once env)).1 alignment with
    hnone | ⟨a, start, stop, -, -, hle, hand, hstart, -, -, -, hbase, -, halloc⟩
  · rw [hnone] at hptr
    exact absurd hptr hne
  rw [halloc] at he hptr
  have ha0 : a ≠ 0 := by
    rintro rfl
    rw [BitVec.le_def, ha] at hle
    exact absurd (Nat.two_pow_pos j) (Nat.not_lt.2 hle)
  obtain ⟨i, hi⟩ := Words.two_pow_of_and_pred ha0 hand
  -- `a` is the alignment that `bar_alloc` uses, at least the one that is asked for.
  have hji : j ≤ i := by
    rw [BitVec.le_def, ha, hi] at hle
    exact (Nat.pow_le_pow_iff_right (by decide)).1 hle
  have hdvd : alignment.toNat ∣ start.toNat := by
    rw [ha, hstart]
    exact (Nat.pow_dvd_pow 2 hji).trans (Words.dvd_round_up hi _)
  -- A sum that wraps still has the alignment, which divides 2^64.
  have h64 : alignment.toNat ∣ 2 ^ 64 := by
    have hlt : 2 ^ j < 2 ^ 64 := ha ▸ alignment.isLt
    rw [ha]
    exact Nat.pow_dvd_pow 2 ((Nat.pow_lt_pow_iff_right (by decide)).1 hlt).le
  have hiff : alignment.toNat ∣ ptr.toNat ↔ alignment.toNat ∣ (s.init_once env).bar_base.toNat := by
    rw [hptr, BitVec.toNat_add, Nat.dvd_mod_iff h64]
    exact ⟨fun h => (Nat.dvd_add_left hdvd).1 h, fun h => Nat.dvd_add h hdvd⟩
  refine ⟨he ▸ hiff, fun hsmall => hiff.2 ?_⟩
  obtain ⟨p, hp⟩ := hpage
  have hpa : alignment.toNat ∣ env.page_size.toNat := by
    rw [BitVec.le_def, ha, hp] at hsmall
    rw [ha, hp]
    exact Nat.pow_dvd_pow 2 ((Nat.pow_le_pow_iff_right (by decide)).1 hsmall)
  exact hpa.trans (hmapped _ (hc.base hbase))

/-- 8 KiB of alignment, at the start of a window that is aligned to 4 KiB. -/
theorem not_aligned_8k : ∃ s os, ShimRun smallWindow s os ∧ ∃ ptr, smallWindow.page_size.toNat ∣ 0x7f0000001000 ∧
    (s.request smallWindow noMemory (.posix_memalign 0x2000 0x1000)).1 = .bar ptr ∧
    ¬ (0x2000 : Size).toNat ∣ ptr.toNat :=
  ⟨Shim.initial, [], .start rfl, 0x7f0000001000, by decide, by decide +kernel, by decide⟩

/-- The same window, aligned to 1 MiB. -/
def alignedWindow : Env := { smallWindow with mapped := some 0x7f0000000000 }

/-- 16 KiB of alignment, behind the page that an earlier call got. -/
theorem bar_alignment_16k : ∃ s os ptr, ShimRun alignedWindow s os ∧ blocks os = [⟨0x7f0000000000, 0x1000⟩] ∧
    (s.request alignedWindow noMemory (.memalign 0x4000 0x1000)).1 = .bar ptr ∧ (0x4000 : Size).toNat ∣ ptr.toNat := by
  have h0 : ShimRun alignedWindow Shim.initial [] := .start rfl
  have h1 := h0.next (@step_request alignedWindow Shim.initial (.malloc 0x1000) (.bar 0x7f0000000000)
    (by decide) (by decide +kernel))
  refine ⟨_, _, 0x7f0000004000, h1, rfl, by decide +kernel, ?_⟩
  refine (@bar_alignment_iff alignedWindow _ _ h1 smallWindow_fits.page (fun base h => ?_) noMemory
    (.memalign 0x4000 0x1000) 0x4000
    0x7f0000004000 14 rfl (by decide) (by decide +kernel)).1.2 (by decide +kernel)
  obtain rfl := Option.some.inj h
  decide

end mlc
