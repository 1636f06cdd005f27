import GdrCopy.Lib.Blocks
import GdrCopy.Driver.Handles
import GdrCopy.Driver.Kernel
/-!
# Handles of a whole history

The calls of the handle generator on one file, from `open` on. Handles are never given
back, so the ranges of all mrs the file ever had are blocks in a row, and the flag is
set by the call that leaves no room for another one (`handles_exact`).
-/

namespace gdrdrv

open Blocks

/-- A call, with the handle it gave. -/
structure Generated where
  mapped_size : BitVec 64
  handle : Option Nat
  deriving DecidableEq, Repr

section
variable (P : Platform)

/-- A call under `info->lock`. One that fails returns before it writes. -/
def Info.generate (info : Info) (mapped_size : BitVec 64) : Option Nat × Info :=
  match gdr_generate_mr_handle P info mapped_size.toNat with
  | some (handle, info') => (some handle, info')
  | none => (none, info)

def GenerateStep (info : Info) (g : Generated) (info' : Info) : Prop :=
  info.generate P g.mapped_size = (g.handle, info')

instance (info : Info) (g : Generated) (info' : Info) : Decidable (GenerateStep P info g info') :=
  inferInstanceAs (Decidable (_ = _))

/-- What `gdrdrv_open` leaves. -/
def Opened (info : Info) : Prop := ∃ cur, info = ⟨[], cur, 0, false⟩

abbrev GenerateRun : Info → List Generated → Prop := Runs.Run Opened (GenerateStep P)

/-- The page offsets asked for, as an integer. -/
def spans (gs : List Generated) : Nat := (gs.map fun g => span P g.mapped_size.toNat).sum

/-- The page offsets given out. -/
def ranges (gs : List Generated) : List Block :=
  gs.filterMap fun g => g.handle.map fun h => ⟨h, span P g.mapped_size.toNat⟩

/-- The handle survives the shift into the offset of `mmap`, and the driver reads it back. -/
def Decodes (handle : Nat) : Prop :=
  u64 (handle <<< P.PAGE_SHIFT) = handle <<< P.PAGE_SHIFT ∧
    gdrdrv_handle_from_off (u64 (handle <<< P.PAGE_SHIFT) >>> P.PAGE_SHIFT) = handle

end

section
variable {P : Platform} {info info' : Info} {g : Generated} {gs : List Generated}

theorem opened_of_open {s : Kernel} {cur : Nat} (h : (gdrdrv_open s 0 cur true).2.files s.fresh = some info) :
    Opened info := by
  have hf : (gdrdrv_open s 0 cur true).2.files s.fresh = some ⟨[], cur, 0, false⟩ := Function.update_self _ _ _
  exact ⟨cur, Option.some.inj (h.symm.trans hf)⟩

theorem decodes_of_lt {h : Nat} (hlt : h < handleEnd P) : Decodes P h := by
  have hk : P.PAGE_SHIFT ≤ 16 := P.page_shift_le
  have hend : handleEnd P * 2 ^ P.PAGE_SHIFT = 2 ^ 64 := by
    rw [handleEnd, ← pow_add, Nat.sub_add_cancel (by omega)]
  have hbits : u64 (h <<< P.PAGE_SHIFT) = h <<< P.PAGE_SHIFT := by
    rw [u64, Nat.shiftLeft_eq, Nat.mod_eq_of_lt]
    exact hend ▸ Nat.mul_lt_mul_of_pos_right hlt (Nat.two_pow_pos _)
  refine ⟨hbits, ?_⟩
  rw [hbits, gdrdrv_handle_from_off, Nat.shiftLeft_eq, Nat.shiftRight_eq_div_pow,
    Nat.mul_div_cancel _ (Nat.two_pow_pos _)]

/-! ## One call -/

/-- Everything a call does: it fails and writes nothing, or it gives the counter and moves it on. -/
theorem generate_cases (hlt : info.next_handle_overflow = false → info.next_handle < handleEnd P)
    (h : GenerateStep P info g info') :
    (info.next_handle_overflow = true ∧ g.handle = none ∧ info' = info) ∨
      (info.next_handle_overflow = false ∧ g.handle = some info.next_handle ∧
        (info'.next_handle_overflow = true ↔ handleEnd P ≤ info.next_handle + span P g.mapped_size.toNat) ∧
        (info'.next_handle_overflow = false → info'.next_handle = info.next_handle + span P g.mapped_size.toNat)) := by
  unfold GenerateStep Info.generate at h
  cases hg : gdr_generate_mr_handle P info g.mapped_size.toNat with
  | none =>
    rw [hg] at h
    obtain ⟨hnone, hsame⟩ := Prod.mk.inj h
    cases hov : info.next_handle_overflow with
    | true => exact .inl ⟨rfl, hnone.symm, hsame.symm⟩
    | false =>
      rw [gdr_generate_mr_handle, hov, if_neg Bool.false_ne_true] at hg
      cases hg
  | some r =>
    obtain ⟨handle, info1⟩ := r
    rw [hg] at h
    obtain ⟨hsome, rfl⟩ := Prod.mk.inj h
    obtain ⟨hov, rfl, -, -, hflag, hnext⟩ := generate_spec g.mapped_size.isLt hlt hg
    refine .inr ⟨hov, hsome.symm, ?_, hnext⟩
    rw [← Nat.not_lt, ← hflag, Bool.not_eq_false]

/-! ## All calls -/

/-- While the flag is clear the counter is the sum of all spans, and everything given out lies below it. -/
structure Counted (P : Platform) (info : Info) (gs : List Generated) : Prop where
  counter : info.next_handle_overflow = false → info.next_handle = spans P gs ∧ spans P gs < handleEnd P
  flag : info.next_handle_overflow = true → handleEnd P ≤ spans P gs
  below : Within 0 (spans P gs) (ranges P gs)
  ordered : Ordered (ranges P gs)
  handles : ∀ b ∈ ranges P gs, b.addr < handleEnd P ∧ 0 < b.size

theorem spans_snoc : spans P (gs ++ [g]) = spans P gs + span P g.mapped_size.toNat := by
  rw [spans, List.map_append, List.sum_append]
  rfl

theorem ranges_refused (h : g.handle = none) : ranges P (gs ++ [g]) = ranges P gs := by
  rw [ranges, List.filterMap_append, List.filterMap_cons_none (by rw [h]; rfl), List.filterMap_nil, List.append_nil]
  rfl

theorem ranges_given {handle : Nat} (h : g.handle = some handle) :
    ranges P (gs ++ [g]) = ranges P gs ++ [⟨handle, span P g.mapped_size.toNat⟩] := by
  rw [ranges, List.filterMap_append, List.filterMap_cons_some (by rw [h]; rfl), List.filterMap_nil]
  rfl

theorem Counted.step (hc : Counted P info gs) (h : GenerateStep P info g info') : Counted P info' (gs ++ [g]) := by
  have hle : spans P gs ≤ spans P (gs ++ [g]) := spans_snoc ▸ Nat.le_add_right _ _
  rcases generate_cases (fun hov => (hc.counter hov).1 ▸ (hc.counter hov).2) h with ⟨hov, hnone, rfl⟩ | ⟨hov,
    hsome, hflag, hnext⟩
  · refine ⟨fun hclear => ?_, fun _ => Nat.le_trans (hc.flag hov) hle, ?_, ?_, ?_⟩
    · exact absurd (hov.symm.trans hclear) (by decide)
    all_goals rw [ranges_refused hnone]
    · exact hc.below.mono hle
    · exact hc.ordered
    · exact hc.handles
  · obtain ⟨hcounter, hroom⟩ := hc.counter hov
    rw [hcounter] at hsome hflag hnext
    rw [← spans_snoc] at hflag hnext
    refine ⟨fun hclear => ⟨hnext hclear, ?_⟩, hflag.1, ?_, ?_, ?_⟩
    · exact Nat.not_le.1 fun hfull => absurd (hclear.symm.trans (hflag.2 hfull)) (by decide)
    all_goals rw [ranges_given hsome]
    · exact hc.below.snoc (Nat.zero_le _) hle (Nat.le_of_eq spans_snoc.symm)
    · exact hc.ordered.snoc hc.below (Nat.le_refl _)
    · intro b hb
      rcases List.mem_append.1 hb with hb | hb
      · exact hc.handles b hb
      · rw [List.mem_singleton.1 hb]
        exact ⟨hroom, span_pos P _⟩

theorem counted (h : GenerateRun P info gs) : Counted P info gs := by
  induction h with
  | start hopen =>
    obtain ⟨cur, rfl⟩ := hopen
    refine ⟨fun _ => ⟨rfl, Nat.two_pow_pos _⟩, fun hset => Bool.noConfusion hset, ?_, .nil, ?_⟩
    · exact fun b hb => absurd hb List.not_mem_nil
    · exact fun b hb => absurd hb List.not_mem_nil
  | next _ ht ih => exact ih.step ht

/-- The handles are the first offsets of the ranges. -/
theorem handles_eq_ranges : gs.filterMap Generated.handle = (ranges P gs).map Block.addr := by
  rw [ranges, List.map_filterMap]
  refine List.filterMap_congr fun g _ => ?_
  cases hg : g.handle with
  | none => rfl
  | some handle => rfl

/-- Over any calls on one file the handles increase, the ranges are disjoint and every handle can be decoded.
The next call gives the counter and sets the flag exactly if the successor is no handle, or, with the flag set,
fails and changes nothing. -/
theorem handles_exact (h : GenerateRun P info gs) :
    (gs.filterMap Generated.handle).Pairwise (· < ·) ∧ (ranges P gs).Pairwise Block.Disjoint ∧
      (∀ handle ∈ gs.filterMap Generated.handle, handle < 2 ^ (64 - P.PAGE_SHIFT) ∧ Decodes P handle) ∧
      (info.next_handle_overflow = true ↔ 2 ^ (64 - P.PAGE_SHIFT) ≤ spans P gs) ∧
      ∀ g info', GenerateStep P info g info' →
        (info.next_handle_overflow = false → g.handle = some (spans P gs) ∧
          (info'.next_handle_overflow = true ↔
            2 ^ (64 - P.PAGE_SHIFT) ≤ spans P gs + max 1 (g.mapped_size.toNat >>> P.PAGE_SHIFT))) ∧
        (info.next_handle_overflow = true → g.handle = none ∧ info' = info) := by
  have hc := counted h
  refine ⟨?_, hc.ordered.disjoint, fun handle hmem => ?_, ⟨hc.flag, fun hfull => ?_⟩, fun g info' ht =>
    ⟨fun hov => ?_, fun hov => ?_⟩⟩
  · rw [handles_eq_ranges (P := P)]
    exact hc.ordered.addr_lt fun b hb => (hc.handles b hb).2
  · rw [handles_eq_ranges (P := P)] at hmem
    obtain ⟨b, hb, rfl⟩ := List.mem_map.1 hmem
    have hlt := (hc.handles b hb).1
    exact ⟨hlt, decodes_of_lt hlt⟩
  · by_contra hov
    exact absurd (hc.counter (eq_false_of_ne_true hov)).2 (Nat.not_lt.2 hfull)
  all_goals have hcases := generate_cases (fun hov => (hc.counter hov).1 ▸ (hc.counter hov).2) ht
  · rcases hcases with ⟨hset, -⟩ | ⟨-, hsome, hflag, -⟩
    · exact absurd (hset.symm.trans hov) (by decide)
    · rw [(hc.counter hov).1] at hsome hflag
      exact ⟨hsome, hflag⟩
  · rcases hcases with ⟨-, hnone, hsame⟩ | ⟨hclear, -⟩
    · exact ⟨hnone, hsame⟩
    · exact absurd (hclear.symm.trans hov) (by decide)

end

/-- An empty buffer and one as long as can be use up the handles of a file: the next call fails. -/
theorem handles_exhausted : ∃ info, GenerateRun x86Host info [⟨0, some 0⟩, ⟨0xffffffffffffffff, some 1⟩] ∧
    ∀ g info', GenerateStep x86Host info g info' → g.handle = none ∧ info' = info := by
  have h0 : GenerateRun x86Host ⟨[], 7, 0, false⟩ [] := .start (@opened_of_open _ init 7 rfl)
  have t1 : GenerateStep x86Host ⟨[], 7, 0, false⟩ ⟨0, some 0⟩ ⟨[], 7, 1, false⟩ := by decide +kernel
  have t2 : GenerateStep x86Host ⟨[], 7, 1, false⟩ ⟨0xffffffffffffffff, some 1⟩ ⟨[], 7, 2 ^ 52, true⟩ := by
    decide +kernel
  have h := (h0.next t1).next t2
  exact ⟨_, h, fun g info' ht => ((handles_exact h).2.2.2.2 g info' ht).2 rfl⟩

end gdrdrv
