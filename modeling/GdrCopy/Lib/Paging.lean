import GdrCopy.Lib.Accesses
import Mathlib.Logic.Function.Basic
/-!
# Copies through a translation

A program sees memory through a translation of its addresses, and an access to an address
without one is a fault. Where no two addresses translate to the same byte, running
instructions on the physical memory and looking at it commute (`execVia_view`): what is
proved of a routine on a flat memory holds behind the translation (`Copies.via`).
-/

namespace Bytes

/-- Where the byte at an address is in physical memory, if anywhere. -/
abbrev Space := Nat → Option Nat

/-- No byte is at two addresses. -/
def Space.Inj (τ : Space) : Prop := ∀ a b p, τ a = some p → τ b = some p → a = b

/-- The `n` bytes from `a` on have translations. -/
def Space.Maps (τ : Space) (a n : Nat) : Prop := ∀ i < n, (τ (a + i)).isSome = true

instance (τ : Space) (a n : Nat) : Decidable (τ.Maps a n) := inferInstanceAs (Decidable (∀ i < n, _))

/-- Memory as it is seen through `τ`. -/
def view (τ : Space) (m : Mem) : Mem := fun a => (τ a).elim 0 m

/-- Write the bytes `b` to the addresses from `a` on. -/
def poke (τ : Space) (m : Mem) (a n : Nat) (b : Nat → UInt8) : Mem :=
  (List.range n).foldl (fun m i => (τ (a + i)).elim m fun p => Function.update m p (b i)) m

section
variable {τ : Space} {m : Mem} {a n : Nat} {b : Nat → UInt8}

theorem poke_succ : poke τ m a (n + 1) b = (τ (a + n)).elim (poke τ m a n b) fun p =>
    Function.update (poke τ m a n b) p (b n) := by
  rw [poke, List.range_succ, List.foldl_append]
  rfl

/-- Bytes that none of the addresses is translated to stay. -/
theorem poke_other {p : Nat} (h : ∀ i < n, τ (a + i) ≠ some p) : poke τ m a n b p = m p := by
  induction n with
  | zero => rfl
  | succ n ih =>
    have ih := ih fun i hi => h i (Nat.lt_succ_of_lt hi)
    rw [poke_succ]
    cases hq : τ (a + n) with
    | none => exact ih
    | some q =>
      have hne : p ≠ q := by
        rintro rfl
        exact h n (Nat.lt_succ_self n) hq
      exact (Function.update_of_ne hne ..).trans ih

/-- What is written is seen where it is written, and nowhere else. -/
theorem view_poke (hinj : τ.Inj) (hm : τ.Maps a n) :
    view τ (poke τ m a n b) = fun x => if a ≤ x ∧ x < a + n then b (x - a) else view τ m x := by
  funext x
  cases hx : τ x with
  | none =>
    have hout : ¬ (a ≤ x ∧ x < a + n) := by
      rintro ⟨hle, hlt⟩
      have := hm (x - a) (by omega)
      rw [Nat.add_sub_cancel' hle, hx] at this
      cases this
    rw [if_neg hout, view, view, hx]
    rfl
  | some p =>
    rw [view, hx, Option.elim_some]
    by_cases hin : a ≤ x ∧ x < a + n
    · rw [if_pos hin]
      induction n with
      | zero => omega
      | succ n ih =>
        rw [poke_succ]
        by_cases hlast : x = a + n
        · subst hlast
          rw [hx, Option.elim_some, Function.update_self, Nat.add_sub_cancel_left]
        · have ih := ih (fun i hi => hm i (Nat.lt_succ_of_lt hi)) ⟨hin.1, by omega⟩
          obtain ⟨q, hq⟩ := Option.isSome_iff_exists.1 (hm n (Nat.lt_succ_self n))
          have hne : p ≠ q := by
            rintro rfl
            exact hlast (hinj _ _ _ hx hq)
          rw [hq, Option.elim_some, Function.update_of_ne hne]
          exact ih
    · rw [if_neg hin, view, hx, Option.elim_some]
      refine poke_other fun i hi he => hin ?_
      rw [hinj _ _ _ hx he]
      omega

end

/-! ## Instructions -/

section
variable {L S F : Type} (wl : L → Nat) (ws : S → Nat) (τ : Space)

/-- Every byte that is accessed has a translation. -/
def Instr.Mapped (i : Instr L S F) : Prop := ∀ x ∈ i.reads wl ++ i.writes ws, τ.Maps x.addr x.len

instance (i : Instr L S F) : Decidable (i.Mapped wl ws τ) := inferInstanceAs (Decidable (∀ x ∈ _, _))

/-- One instruction on physical memory, or `none` for a fault. -/
def exec1Via (st : State) (i : Instr L S F) : Option State :=
  if i.Mapped wl ws τ then
    some (match i with
      | .load _ r addr => { st with regs := fun x => if x = r then fun i => view τ st.mem (addr + i) else st.regs x }
      | .store op r addr => { st with mem := poke τ st.mem addr (ws op) (st.regs r) }
      | .memcpy d s n => { st with mem := poke τ st.mem d n fun i => view τ st.mem (s + i) }
      | .fence _ => st)
  else none

def execVia (t : List (Instr L S F)) (st : State) : Option State := t.foldlM (exec1Via wl ws τ) st

variable {wl ws τ}

/-- What a program sees of a state. -/
def State.seen (τ : Space) (st : State) : State := { st with mem := view τ st.mem }

/-- An instruction on the physical memory does to what is seen of it what it does to a flat memory. -/
theorem exec1Via_view (hinj : τ.Inj) {i : Instr L S F} (hm : i.Mapped wl ws τ) (st : State) :
    ∃ st', exec1Via wl ws τ st i = some st' ∧ st'.seen τ = exec1 ws (st.seen τ) i ∧
      ∀ p, (∀ x ∈ i.writes ws, ∀ k < x.len, τ (x.addr + k) ≠ some p) → st'.mem p = st.mem p := by
  refine ⟨_, if_pos hm, ?_⟩
  cases i with
  | load op r addr => exact ⟨rfl, fun _ _ => rfl⟩
  | store op r addr =>
    have hw : τ.Maps addr (ws op) := hm ⟨addr, ws op⟩ (by simp [Instr.writes])
    refine ⟨?_, fun p hp => poke_other (hp ⟨addr, ws op⟩ (by simp [Instr.writes]))⟩
    simp only [State.seen, exec1, view_poke hinj hw]
  | memcpy d s n =>
    have hw : τ.Maps d n := hm ⟨d, n⟩ (by simp [Instr.writes])
    refine ⟨?_, fun p hp => poke_other (hp ⟨d, n⟩ (by simp [Instr.writes]))⟩
    simp only [State.seen, exec1, view_poke hinj hw]
    rfl
  | fence f => exact ⟨rfl, fun _ _ => rfl⟩

/-- The same for a list of instructions. -/
theorem execVia_view (hinj : τ.Inj) {t : List (Instr L S F)} (hm : ∀ i ∈ t, i.Mapped wl ws τ) (st : State) :
    ∃ st', execVia wl ws τ t st = some st' ∧ st'.seen τ = exec ws t (st.seen τ) ∧
      ∀ p, (∀ x ∈ writes ws t, ∀ k < x.len, τ (x.addr + k) ≠ some p) → st'.mem p = st.mem p := by
  induction t generalizing st with
  | nil => exact ⟨st, rfl, rfl, fun _ _ => rfl⟩
  | cons i t ih =>
    obtain ⟨s1, h1, hseen1, hrest1⟩ := exec1Via_view hinj (hm i List.mem_cons_self) st
    obtain ⟨s2, h2, hseen2, hrest2⟩ := ih (fun j hj => hm j (List.mem_cons_of_mem _ hj)) s1
    refine ⟨s2, ?_, ?_, fun p hp => ?_⟩
    · rw [execVia, List.foldlM_cons, h1]
      exact h2
    · rw [hseen2, hseen1]
      rfl
    · have hw : ∀ x, x ∈ i.writes ws ∨ x ∈ writes ws t → ∀ k < x.len, τ (x.addr + k) ≠ some p :=
        fun x hx => hp x (List.mem_append.2 hx)
      rw [hrest2 p fun x hx => hw x (.inr hx), hrest1 p fun x hx => hw x (.inl hx)]

/-- What goes through two ranges that have translations is mapped. -/
theorem Sweeps.mapped {t : List (Instr L S F)} {d s n : Nat} (h : Sweeps wl ws t d s n) (hd : τ.Maps d n)
    (hs : τ.Maps s n) :
    ∀ i ∈ t, i.Mapped wl ws τ := by
  have inside : ∀ {a : Nat} {x : Access}, τ.Maps a n → a ≤ x.addr ∧ x.addr + x.len ≤ a + n → τ.Maps x.addr x.len := by
    intro a x ha hx k hk
    have := ha (x.addr - a + k) (by omega)
    rwa [← Nat.add_assoc, Nat.add_sub_cancel' hx.1] at this
  intro i hi x hx
  rcases List.mem_append.1 hx with hx | hx
  · exact inside hs (h.reads.within x (List.mem_flatMap.2 ⟨i, hi, hx⟩))
  · exact inside hd (h.writes.within x (List.mem_flatMap.2 ⟨i, hi, hx⟩))

/-- A copy routine behind a translation: no fault, the bytes are copied as they are seen, and
bytes of the physical memory that the destination is not translated to stay. -/
theorem Copies.via {t : List (Instr L S F)} {d s n : Nat} (h : Copies ws t d s n) (hsw : Sweeps wl ws t d s n)
    (hinj : τ.Inj) (ha : Apart d s n) (hd : τ.Maps d n) (hs : τ.Maps s n) (st : State) :
    ∃ st', execVia wl ws τ t st = some st' ∧ view τ st'.mem = (view τ st.mem).copy d s n ∧
      ∀ p, (∀ i < n, τ (d + i) ≠ some p) → st'.mem p = st.mem p := by
  obtain ⟨st', hrun, hseen, hrest⟩ := execVia_view hinj (hsw.mapped hd hs) st
  refine ⟨st', hrun, (congrArg State.mem hseen).trans (h _ ha), fun p hp => hrest p fun x hx k hk he => ?_⟩
  have hin := hsw.writes.within x hx
  refine hp (x.addr - d + k) (by omega) ?_
  rwa [← Nat.add_assoc, Nat.add_sub_cancel' hin.1]

end

end Bytes
