import Mathlib.Data.List.Pairwise
import GdrCopy.Lib.Words
import GdrCopy.Driver.Kernel
/-!
# Handles

What the search by handle finds, and how the generator spaces handles out: an
mr's handle is the first page offset of a range as long as the pinned buffer,
and the ranges of one file never meet.
-/

namespace gdrdrv

/-! ## The search -/

theorem searchLoop_hit {h : Nat} (mr : Option Mr) {l : List Mr} (hh : ∃ m ∈ l, m.handle = h) :
    ∃ m ∈ l, m.handle = h ∧ searchLoop h mr l = some m := by
  induction l generalizing mr with
  | nil => obtain ⟨m, hm, -⟩ := hh; cases hm
  | cons p rest ih =>
    by_cases hp : h = p.handle
    · exact ⟨p, List.mem_cons_self, hp.symm, by simp [searchLoop, hp]⟩
    · obtain ⟨m, hm, he⟩ := hh
      rcases List.mem_cons.1 hm with rfl | hm
      · exact absurd he.symm hp
      · obtain ⟨m', hm', he', hs⟩ := ih (some p) ⟨m, hm, he⟩
        exact ⟨m', List.mem_cons_of_mem _ hm', he', by simp [searchLoop, hp, hs]⟩

theorem searchLoop_miss {h : Nat} (mr : Option Mr) {l : List Mr} (hh : ∀ m ∈ l, m.handle ≠ h) :
    searchLoop h mr l = l.getLast?.or mr := by
  induction l generalizing mr with
  | nil => rfl
  | cons p rest ih =>
    have hp : h ≠ p.handle := fun e => hh p List.mem_cons_self e.symm
    rw [searchLoop, if_neg hp, ih _ fun m hm => hh m (List.mem_cons_of_mem _ hm)]
    cases rest with
    | nil => rfl
    | cons q rest =>
      obtain ⟨l, hl⟩ : ∃ l, (q :: rest).getLast? = some l := ⟨_, List.getLast?_eq_getLast_of_ne_nil (by simp)⟩
      rw [List.getLast?_cons_cons, hl]; rfl

/-- Every mr the search returns is on the list. -/
theorem search_mem {info : Info} {h : Nat} {mr : Mr} (hs : gdr_mr_from_handle_unlocked info h = some mr) :
    mr ∈ info.mr_list := by
  unfold gdr_mr_from_handle_unlocked at hs
  by_cases hh : ∃ m ∈ info.mr_list, m.handle = h
  · obtain ⟨m, hm, -, hs'⟩ := searchLoop_hit none hh
    rw [hs'] at hs; cases hs; exact hm
  · push Not at hh
    rw [searchLoop_miss none hh, Option.or_none] at hs
    exact List.mem_of_getLast? hs

/-- With no match the search returns the last mr of the list. -/
theorem search_miss {info : Info} {h : Nat} (hh : ∀ m ∈ info.mr_list, m.handle ≠ h) :
    gdr_mr_from_handle_unlocked info h = info.mr_list.getLast? := by
  rw [gdr_mr_from_handle_unlocked, searchLoop_miss none hh, Option.or_none]

theorem search_nil {info : Info} (h : Nat) (hl : info.mr_list = []) : gdr_mr_from_handle_unlocked info h = none := by
  rw [search_miss (by simp [hl]), hl]; rfl

theorem search_none {info : Info} {h : Nat} (hs : gdr_mr_from_handle_unlocked info h = none) : info.mr_list = [] := by
  by_cases hh : ∃ m ∈ info.mr_list, m.handle = h
  · obtain ⟨m, -, -, hs'⟩ := searchLoop_hit none hh
    rw [gdr_mr_from_handle_unlocked, hs'] at hs; cases hs
  · push Not at hh
    rw [search_miss hh] at hs
    exact List.getLast?_eq_none_iff.1 hs

/-! ## Spacing -/

/-- The number of page offsets a buffer of `mapped_size` bytes takes. -/
def span (P : Platform) (mapped_size : Nat) : Nat := max 1 (mapped_size >>> P.PAGE_SHIFT)

theorem span_pos (P : Platform) (n : Nat) : 0 < span P n := Nat.lt_of_lt_of_le one_pos (Nat.le_max_left _ _)

/-- The first page offset after those of `mr`. -/
def Mr.stop (P : Platform) (mr : Mr) : Nat := mr.handle + span P mr.mapped_size

/-- Page offsets at or above this do not survive the shift into a byte offset. -/
def handleEnd (P : Platform) : Nat := 2 ^ (64 - P.PAGE_SHIFT)

/-- The ranges of the listed mrs, newest first, lie above one another. While
handles last, the next one is above them all. -/
structure Spaced (P : Platform) (info : Info) : Prop where
  ranges : info.mr_list.Pairwise fun a b => b.stop P ≤ a.handle
  next : info.next_handle_overflow = false →
    info.next_handle < handleEnd P ∧ ∀ m ∈ info.mr_list, m.stop P ≤ info.next_handle
  handles : ∀ m ∈ info.mr_list, m.handle < handleEnd P

/-- Two listed mrs are the same or have disjoint ranges. -/
theorem Spaced.disjoint {P : Platform} {info : Info} (h : Spaced P info) {m n : Mr} (hm : m ∈ info.mr_list)
    (hn : n ∈ info.mr_list) : m = n ∨ m.stop P ≤ n.handle ∨ n.stop P ≤ m.handle := by
  have hp : info.mr_list.Pairwise fun a b => a.stop P ≤ b.handle ∨ b.stop P ≤ a.handle := h.ranges.imp .inr
  have : Std.Symm fun a b : Mr => a.stop P ≤ b.handle ∨ b.stop P ≤ a.handle := ⟨fun _ _ => Or.symm⟩
  by_cases hmn : m = n
  · exact .inl hmn
  · exact .inr (hp.forall hm hn hmn)

theorem Spaced.handle_inj {P : Platform} {info : Info} (h : Spaced P info) {m n : Mr} (hm : m ∈ info.mr_list)
    (hn : n ∈ info.mr_list) (he : m.handle = n.handle) : m = n := by
  have h1 := span_pos P m.mapped_size
  have h2 := span_pos P n.mapped_size
  rcases h.disjoint hm hn with rfl | hd | hd
  · rfl
  all_goals simp only [Mr.stop] at hd; omega

/-- The search on a spaced list finds exactly the mr with that handle. -/
theorem Spaced.search {P : Platform} {info : Info} (h : Spaced P info) {m : Mr} (hm : m ∈ info.mr_list) :
    gdr_mr_from_handle_unlocked info m.handle = some m := by
  obtain ⟨m', hm', he, hs⟩ := searchLoop_hit none ⟨m, hm, rfl⟩
  rw [gdr_mr_from_handle_unlocked, hs, h.handle_inj hm' hm he]

/-! ## The generator -/

theorem span_lt (P : Platform) {n : Nat} (hn : n < 2 ^ 64) : span P n < handleEnd P := by
  have hk : P.PAGE_SHIFT ≤ 16 := P.page_shift_le
  refine Nat.max_lt.2 ⟨Nat.one_lt_two_pow (by omega), ?_⟩
  rw [Nat.shiftRight_eq_div_pow, Nat.div_lt_iff_lt_mul (Nat.two_pow_pos _), handleEnd, ← pow_add,
    Nat.sub_add_cancel (by omega)]
  exact hn

/-- The masked comparison detects exactly that the next handle leaves the range. -/
theorem overflow_iff {P : Platform} {cur n : Nat} (hn : n < 2 ^ 64) (hcur : cur < handleEnd P) :
    u64 (cur + span P n) &&& ((2 ^ 64 - 1) >>> P.PAGE_SHIFT) < cur ↔ handleEnd P ≤ cur + span P n := by
  have hk : P.PAGE_SHIFT ≤ 16 := P.page_shift_le
  have hs : span P n < handleEnd P := span_lt P hn
  have hend : handleEnd P * 2 ^ P.PAGE_SHIFT = 2 ^ 64 := by
    rw [handleEnd, ← pow_add, Nat.sub_add_cancel (by omega)]
  have hmask : u64 (cur + span P n) &&& ((2 ^ 64 - 1) >>> P.PAGE_SHIFT) = (cur + span P n) % handleEnd P := by
    rw [Words.shiftRight_ones 64 _ (by omega), Nat.and_two_pow_sub_one_eq_mod, u64]
    exact Nat.mod_mod_of_dvd _ (Dvd.intro _ hend)
  rw [hmask]
  by_cases hlt : cur + span P n < handleEnd P
  · rw [Nat.mod_eq_of_lt hlt]; omega
  · rw [Nat.mod_eq_sub_mod (by omega), Nat.mod_eq_of_lt (by omega)]; omega

theorem handleEnd_le (P : Platform) : handleEnd P ≤ 2 ^ 64 := Nat.pow_le_pow_right two_pos (Nat.sub_le _ _)

/-- A generated handle is the old counter. The counter moves on by the span of
the buffer, or the overflow flag is set. -/
theorem generate_spec {P : Platform} {info info' : Info} {n h : Nat} (hn : n < 2 ^ 64)
    (hlt : info.next_handle_overflow = false → info.next_handle < handleEnd P)
    (hg : gdr_generate_mr_handle P info n = some (h, info')) :
    info.next_handle_overflow = false ∧ h = info.next_handle ∧ info'.mr_list = info.mr_list ∧ info'.tgid = info.tgid ∧
      (info'.next_handle_overflow = false ↔ info.next_handle + span P n < handleEnd P) ∧
      (info'.next_handle_overflow = false → info'.next_handle = info.next_handle + span P n) := by
  unfold gdr_generate_mr_handle at hg
  by_cases ho : info.next_handle_overflow = true
  · simp [ho] at hg
  rw [Bool.not_eq_true] at ho
  have hov := overflow_iff hn (hlt ho)
  unfold span at hov ⊢
  simp only [ho, Bool.false_eq_true, if_false, Option.some.injEq, Prod.mk.injEq, Bool.false_or, hov] at hg
  obtain ⟨rfl, rfl⟩ := hg
  refine ⟨ho, rfl, rfl, rfl, by simp, fun h => ?_⟩
  simp only [decide_eq_false_iff_not, not_le] at h
  exact Nat.mod_eq_of_lt (Nat.lt_of_lt_of_le h (handleEnd_le P))

end gdrdrv
