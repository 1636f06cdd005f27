import GdrCopy.Threads.Reach
import Mathlib.Algebra.BigOperators.Group.Finset.Basic
import Mathlib.Algebra.BigOperators.Group.Finset.Piecewise
import Mathlib.Algebra.Order.BigOperators.Group.Finset
/-!
# The page table count

`gdrdrv_nv_get_pages_refcount` is the sum over all mrs of the increments less the
decrements made for their page tables (`Summed`). What these are for one mr is among its
records (`Good`).
-/

namespace gdrdrv.Threads

section
variable {P : Platform} {serial : Bool} {s s' : State} {p : Party} {m : Nat}

/-- Some party is between a call of the NVIDIA driver and the update of the count that follows it. -/
def Pc.Updating : Pc → Prop
  | .pinInc _ _ _ => True
  | .putDone _ _ => True
  | .cbDec _ => True
  | _ => False

/-- How many page tables have been obtained, and neither returned nor taken back. -/
def State.outstanding (s : State) : Nat := ((List.range s.fresh).filter fun m => s.table m = .held).length

/-! ## The sum -/

/-- The increments less the decrements for the page table of `m`. -/
def State.net (s : State) (m : Nat) : Int := s.incs m - s.decs m

def Summed (s : State) : Prop := s.gdrdrv_nv_get_pages_refcount = ∑ m ∈ Finset.range s.fresh, s.net m

theorem sum_update {f : Nat → Int} {n : Nat} (d : Int) (hm : m < n) :
    ∑ k ∈ Finset.range n, Function.update f m (f m + d) k = ∑ k ∈ Finset.range n, f k + d := by
  have : ∀ k, Function.update f m (f m + d) k = f k + if k = m then d else 0 := by
    intro k
    by_cases hk : k = m
    · subst hk
      simp
    · simp [hk]
  simp only [this, Finset.sum_add_distrib, Finset.sum_ite_eq', Finset.mem_range, hm, if_true]

theorem Summed.inc (h : Summed s) (hm : m < s.fresh) : Summed (s.inc m) := by
  have : (s.inc m).net = Function.update s.net m (s.net m + 1) := by
    funext k
    by_cases hk : k = m
    · subst hk
      simp [State.net, State.inc]
      omega
    · simp [State.net, State.inc, hk]
  show s.gdrdrv_nv_get_pages_refcount + 1 = ∑ k ∈ Finset.range s.fresh, (s.inc m).net k
  rw [this, sum_update 1 hm, h]

theorem Summed.dec (h : Summed s) (hm : m < s.fresh) : Summed (s.dec m) := by
  have : (s.dec m).net = Function.update s.net m (s.net m + -1) := by
    funext k
    by_cases hk : k = m
    · subst hk
      simp [State.net, State.dec]
      omega
    · simp [State.net, State.dec, hk]
  show s.gdrdrv_nv_get_pages_refcount - 1 = ∑ k ∈ Finset.range s.fresh, (s.dec m).net k
  rw [this, sum_update (-1) hm, h]
  rfl

/-- The mr allocated next adds nothing. -/
theorem Summed.alloc (h : Summed s) (hi : Inv s) :
    s.gdrdrv_nv_get_pages_refcount = ∑ m ∈ Finset.range (s.fresh + 1), s.net m := by
  have hg := hi.good s.fresh
  have hst : s.stage s.fresh = .unborn := by simp [State.stage, (hi.born s.fresh).2 (Nat.le_refl _)]
  rw [hst] at hg
  obtain ⟨-, -, -, hinc, hdec, -⟩ := hg
  have h0 : s.net s.fresh = 0 := by
    have hinc : s.incs s.fresh = 0 := hinc
    have hdec : s.decs s.fresh = 0 := hdec
    simp [State.net, hinc, hdec]
  rw [Finset.sum_range_succ, h0, h, add_zero]

theorem step_summed (hi : Inv s) (hs : Summed s) (h : Step P serial s p s') : Summed s' := by
  have born {m : Nat} (hm : s.place m ≠ .unborn) : m < s.fresh := Nat.lt_of_not_le fun hle => hm ((hi.born m).2 hle)
  cases h with
  | pinRefused _ _ | pinAlloc _ _ => exact hs.alloc hi
  | pinInc h => exact hs.inc (born (hi.owned_born (by rw [h]; rfl)))
  | putDec h => exact hs.dec (born (hi.owned_born (by rw [h]; rfl)))
  | cbDec h =>
    rename_i m n
    have ht : (s.pc (.callback m)).touching = some n := by rw [h]; rfl
    exact hs.dec (born (hi.live_callback ht).1)
  | _ => exact hs

theorem run_summed {os : List Party} (h : Run P serial s os) : Summed s :=
  Runs.Run.inv_of Inv Summed (fun _ _ => run_inv)
    (fun s hl => by
      obtain ⟨-, -, -, -, hc, hf, -⟩ := hl
      simp [Summed, hc, hf])
    (fun _ _ _ hi hs ht => step_summed hi hs ht) h

/-! ## One mr -/

/-- Once the steps that are owed to the count are made, an mr counts one for a page table that is still held. -/
def Net (x : Facts) : Prop := (x.incs : Int) - x.decs = if x.table = .held then 1 else 0

theorem Balanced.net {x : Facts} (h : Balanced x) : Net x := by
  obtain ⟨ht, hi, hd⟩ | ⟨ht, -, hi, hd⟩ | ⟨ht | ht, hi, hd⟩ := h <;> simp [Net, ht, hi, hd]

theorem Counted.net {x : Facts} (h : Counted m x) (hc : x.callback ≠ .cbDec m) : Net x := by
  cases h with
  | ahead _ => rfl
  | dec => exact absurd rfl hc
  | past _ => rfl

theorem Good.net {x : Facts} {st : Stage} (h : Good m x st) (hst : st ≠ .got ∧ st ≠ .put)
    (hc : x.callback ≠ .cbDec m) : Net x := by
  cases st with
  | unborn =>
    obtain ⟨-, ht, -, hi, hd, -⟩ := h
    simp [Net, ht, hi, hd]
  | allocated =>
    obtain rfl := h
    rfl
  | got => exact absurd rfl hst.1
  | main =>
    obtain ⟨-, rfl | h⟩ := h
    · rfl
    · exact h.net hc
  | putting => exact h.2.net hc
  | put => exact absurd rfl hst.2
  | done => exact h.2.2.net
  | freed => exact h.2.2.net

/-- A page table is counted at most once in each direction, and down only after up. -/
theorem Good.once {x : Facts} {st : Stage} (h : Good m x st) : x.decs ≤ x.incs ∧
    x.incs ≤ if x.table = .none then 0 else 1 := by
  have balanced (hb : Balanced x) : x.decs ≤ x.incs ∧ x.incs ≤ if x.table = .none then 0 else 1 := by
    obtain ⟨ht, hi, hd⟩ | ⟨ht, -, hi, hd⟩ | ⟨ht | ht, hi, hd⟩ := hb <;> simp [ht, hi, hd]
  have counted (hc : Counted m x) : x.decs ≤ x.incs ∧ x.incs ≤ if x.table = .none then 0 else 1 := by
    cases hc <;> simp
  cases st with
  | unborn =>
    obtain ⟨-, ht, -, hi, hd, -⟩ := h
    simp [ht, hi, hd]
  | allocated =>
    obtain rfl := h
    simp
  | got =>
    obtain ⟨c, -, -, rfl⟩ := h
    simp
  | main =>
    obtain ⟨-, rfl | h⟩ := h
    · simp
    · exact counted h
  | putting => exact counted h.2
  | put =>
    obtain ⟨-, -, ht, -, hi, hd⟩ := h
    simp [ht, hi, hd]
  | done => exact balanced h.2.2
  | freed => exact balanced h.2.2

/-! ## All mrs -/

/-- A stage in which the count is owed a step is the work of a party that is about to make it. -/
theorem stage_updating (hu : ∀ p, ¬ (s.pc p).Updating) (m : Nat) : s.stage m ≠ .got ∧ s.stage m ≠ .put := by
  cases hpl : s.place m with
  | owned q =>
    have hq := hu q
    simp only [State.stage, hpl]
    cases hx : s.pc q with
    | free n held r => cases held <;> simp [Pc.owns]
    | _ => simp_all [Pc.owns, Pc.Updating]
  | _ => simp [State.stage, hpl]

theorem Inv.net (hi : Inv s) (hu : ∀ p, ¬ (s.pc p).Updating) (m : Nat) :
    s.net m = if s.table m = .held then 1 else 0 := by
  have hc : (s.facts m).callback ≠ .cbDec m := fun hc => hu (.callback m) (by
    have hc : s.pc (.callback m) = .cbDec m := hc
    rw [hc]
    trivial)
  exact (hi.good m).net (stage_updating hu m) hc

theorem sum_indicator (q : Nat → Prop) [DecidablePred q] (n : Nat) :
    ∑ m ∈ Finset.range n, (if q m then (1 : Int) else 0) = ((List.range n).filter fun m => q m).length := by
  induction n with
  | zero => rfl
  | succ n ih =>
    rw [Finset.sum_range_succ, ih, List.range_succ, List.filter_append, List.length_append]
    by_cases hn : q n <;> simp [hn]

/-- With every file closed no mr is left. -/
theorem Inv.all_closed (hi : Inv s) (hf : ∀ f, (s.files f).isOpen = false) (m : Nat) : s.stage m = .unborn ∨
    s.stage m = .freed := by
  cases hpl : s.place m with
  | unborn => exact .inl (by simp [State.stage, hpl])
  | freed => exact .inr (by simp [State.stage, hpl])
  | listed f =>
    have hm : m ∈ (s.files f).mr_list := (hi.places.listed f m).2 hpl
    rw [hi.closed f (hf f)] at hm
    cases hm
  | owned q =>
    have ho : (s.pc q).owned = some m := (hi.places.owned q m).2 hpl
    obtain ⟨f, hq⟩ := Pc.file_of_owned ho
    have := hi.file q f hq
    rw [hf] at this
    cases this

/-- In every interleaving the count is that of the page tables that are still held, when no
party is about to update it. It is counted down at most once for each page table, it is
never negative, and it is 0 once every file is closed, if `put_pages` never failed while
it still had the page table. -/
theorem page_table_accounting {os : List Party} (h : Run P serial s os) :
    ((∀ p, ¬ (s.pc p).Updating) → s.gdrdrv_nv_get_pages_refcount = s.outstanding) ∧
      (∀ m, s.decs m ≤ s.incs m ∧ s.incs m ≤ if s.table m = .none then 0 else 1) ∧
      0 ≤ s.gdrdrv_nv_get_pages_refcount ∧
      ((∀ f, (s.files f).isOpen = false) → (∀ m, s.failed m = false) → s.gdrdrv_nv_get_pages_refcount = 0) := by
  have hi : Inv s := run_inv h
  have hs : Summed s := run_summed h
  have once : ∀ m, s.decs m ≤ s.incs m ∧ s.incs m ≤ if s.table m = .none then 0 else 1 := fun m => (hi.good m).once
  refine ⟨fun hu => ?_, once, ?_, fun hf hn => ?_⟩
  · rw [hs, Finset.sum_congr rfl fun m _ => hi.net hu m]
    exact sum_indicator _ _
  · rw [hs]
    refine Finset.sum_nonneg fun m _ => ?_
    have := (once m).1
    simp only [State.net]
    omega
  · rw [hs]
    refine Finset.sum_eq_zero fun m _ => ?_
    have hg := hi.good m
    rcases hi.all_closed hf m with hst | hst
    · rw [hst] at hg
      obtain ⟨-, -, -, hinc, hdec, -⟩ := hg
      have hinc : s.incs m = 0 := hinc
      have hdec : s.decs m = 0 := hdec
      simp [State.net, hinc, hdec]
    · rw [hst] at hg
      obtain ⟨-, -, ⟨-, hinc, hdec⟩ | ⟨-, hfail, -⟩ | ⟨-, hinc, hdec⟩⟩ := hg
      · have hinc : s.incs m = 0 := hinc
        have hdec : s.decs m = 0 := hdec
        simp [State.net, hinc, hdec]
      · have hfail : s.failed m = true := hfail
        rw [hn] at hfail
        cases hfail
      · have hinc : s.incs m = 1 := hinc
        have hdec : s.decs m = 1 := hdec
        simp [State.net, hinc, hdec]

end

/-- After the race the callback has taken the page table, and the count is 0 again. -/
theorem page_table_accounting_race : ∃ s os, Run x86Host false s os ∧ s.table 0 = .taken ∧
    (∀ m, s.decs m ≤ s.incs m ∧ s.incs m ≤ if s.table m = .none then 0 else 1) ∧
    s.gdrdrv_nv_get_pages_refcount = 0 := by
  obtain ⟨-, -, s, os, -, -, -, h, -, ht, hf, hn⟩ := race
  obtain ⟨-, honce, -, hzero⟩ := page_table_accounting h
  exact ⟨s, os, h, ht, honce, hzero hf hn⟩

end gdrdrv.Threads
