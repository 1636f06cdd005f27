import Mathlib.Data.List.Basic
/-!
# Copies of bytes

A byte memory, the instructions a copy routine is made of, and what it means
that such a routine is a copy (`Copies`). A routine is put together from parts
that each go on from where the last one stopped (`Part.Goes`): one part after another
(`Goes.seq`), a part repeated while there is enough left (`Goes.loop`).
-/

namespace Bytes

abbrev Mem := Nat → UInt8

/-- The `n` bytes from `s` on are written to `d`. -/
def Mem.copy (m : Mem) (d s n : Nat) : Mem := fun a => if d ≤ a ∧ a < d + n then m (s + (a - d)) else m a

/-- Two ranges of `n` bytes do not overlap. -/
def Apart (d s n : Nat) : Prop := d + n ≤ s ∨ s + n ≤ d

namespace Mem
variable (m : Mem) (d s : Nat)

theorem copy_dst {i n : Nat} (h : i < n) : m.copy d s n (d + i) = m (s + i) := by
  rw [copy, if_pos ⟨Nat.le_add_right d i, Nat.add_lt_add_left h d⟩, Nat.add_sub_cancel_left]

theorem copy_other {a n : Nat} (h : a < d ∨ d + n ≤ a) : m.copy d s n a = m a := by
  rw [copy, if_neg]
  omega

theorem copy_zero : m.copy d s 0 = m := funext fun a => copy_other m d s (by omega)

theorem copy_add {k n : Nat} (h : Apart d s (k + n)) : (m.copy d s k).copy (d + k) (s + k) n = m.copy d s (k + n) := by
  funext a
  unfold Apart at h
  by_cases h1 : a < d ∨ d + (k + n) ≤ a
  · rw [copy_other _ _ _ (by omega), copy_other _ _ _ (by omega), copy_other _ _ _ h1]
  obtain ⟨i, rfl⟩ : ∃ i, a = d + i := ⟨a - d, by omega⟩
  rw [copy_dst m d s (n := k + n) (by omega)]
  by_cases hi : i < k
  · rw [copy_other _ _ _ (by omega), copy_dst m d s hi]
  · obtain ⟨j, rfl⟩ : ∃ j, i = k + j := ⟨i - k, by omega⟩
    rw [← Nat.add_assoc d k j, copy_dst _ _ _ (by omega), copy_other _ _ _ (by omega), Nat.add_assoc s k j]

end Mem

/-! ## Instructions -/

/-- Loads `L` and stores `S` move a few bytes between memory and a numbered register. -/
inductive Instr (L S F : Type) where
  | load (op : L) (r addr : Nat)
  | store (op : S) (r addr : Nat)
  | memcpy (d s n : Nat)
  | fence (op : F)
  deriving DecidableEq, Repr

structure State where
  regs : Nat → Nat → UInt8
  mem : Mem

section
variable {L S F : Type} (wl : L → Nat) (ws : S → Nat)

/-- `wl` and `ws` give the bytes an instruction moves. -/
def exec1 (st : State) : Instr L S F → State
  | .load _ r addr => { st with regs := fun x => if x = r then fun i => st.mem (addr + i) else st.regs x }
  | .store op r addr =>
    { st with mem := fun a => if addr ≤ a ∧ a < addr + ws op then st.regs r (a - addr) else st.mem a }
  | .memcpy d s n => { st with mem := st.mem.copy d s n }
  | .fence _ => st

def exec (t : List (Instr L S F)) (st : State) : State := t.foldl (exec1 ws) st

/-- `k` loads in a row from `s`, each into its own register, and then the stores to `d`. -/
def block (ld : L) (sto : S) (k d s : Nat) : List (Instr L S F) :=
  (List.range k).map (fun i => .load ld i (s + i * wl ld)) ++ (List.range k).map fun i => .store sto i (d + i * ws sto)

/-- The instructions copy `n` bytes, when the two ranges do not overlap. -/
def Copies (t : List (Instr L S F)) (d s n : Nat) : Prop := ∀ st, Apart d s n → (exec ws t st).mem = st.mem.copy d s n

variable {wl ws}

theorem exec_append (t u : List (Instr L S F)) (st : State) : exec ws (t ++ u) st = exec ws u (exec ws t st) :=
  List.foldl_append

theorem Copies.nil (d s : Nat) : Copies ws ([] : List (Instr L S F)) d s 0 := fun st _ => (st.mem.copy_zero d s).symm

theorem Copies.append {t u : List (Instr L S F)} {d s k n : Nat} (ht : Copies ws t d s k)
    (hu : Copies ws u (d + k) (s + k) n) : Copies ws (t ++ u) d s (k + n) := by
  intro st h
  have hk : Apart d s k := by unfold Apart at *; omega
  have hn : Apart (d + k) (s + k) n := by unfold Apart at *; omega
  rw [exec_append, hu _ hn, ht _ hk, Mem.copy_add _ _ _ h]

theorem Copies.memcpy (d s n : Nat) : Copies ws ([.memcpy d s n] : List (Instr L S F)) d s n := fun _ _ => rfl

theorem Copies.fence {t : List (Instr L S F)} {d s n : Nat} (h : Copies ws t d s n) (f : F) :
    Copies ws (t ++ [.fence f]) d s n := by
  have hf : Copies ws ([.fence f] : List (Instr L S F)) (d + n) (s + n) 0 := fun st _ => (st.mem.copy_zero _ _).symm
  exact h.append hf

theorem exec_loads (ld : L) (s : Nat) (st : State) (k : Nat) :
    (exec ws ((List.range k).map fun i => (.load ld i (s + i * wl ld) : Instr L S F)) st).mem = st.mem ∧
      ∀ i < k, (exec ws ((List.range k).map fun i => (.load ld i (s + i * wl ld) : Instr L S F)) st).regs i =
        fun b => st.mem (s + i * wl ld + b) := by
  induction k with
  | zero => exact ⟨rfl, fun i hi => absurd hi (Nat.not_lt_zero i)⟩
  | succ k ih =>
    obtain ⟨hm, hr⟩ := ih
    rw [List.range_succ, List.map_append, exec_append]
    refine ⟨hm, fun i hi => ?_⟩
    simp only [exec, List.map_cons, List.map_nil, List.foldl_cons, List.foldl_nil, exec1]
    by_cases he : i = k
    · rw [if_pos he, he]
      exact funext fun b => congrFun hm _
    · rw [if_neg he]
      exact hr i (by omega)

theorem exec_stores (sto : S) (d : Nat) (hw : 0 < ws sto) (st : State) (k : Nat) :
    (exec ws ((List.range k).map fun i => (.store sto i (d + i * ws sto) : Instr L S F)) st).regs = st.regs ∧
      (exec ws ((List.range k).map fun i => (.store sto i (d + i * ws sto) : Instr L S F)) st).mem = fun a =>
        if d ≤ a ∧ a < d + k * ws sto then st.regs ((a - d) / ws sto) ((a - d) % ws sto) else st.mem a := by
  induction k with
  | zero => exact ⟨rfl, funext fun a => by rw [if_neg (by omega)]; rfl⟩
  | succ k ih =>
    obtain ⟨hr, hm⟩ := ih
    rw [List.range_succ, List.map_append, exec_append]
    refine ⟨hr, funext fun a => ?_⟩
    simp only [exec, List.map_cons, List.map_nil, List.foldl_cons, List.foldl_nil, exec1] at hr hm ⊢
    rw [hr, hm, Nat.succ_mul]
    beta_reduce
    by_cases hlast : d + k * ws sto ≤ a ∧ a < d + k * ws sto + ws sto
    · have ha : a - d = ws sto * k + (a - (d + k * ws sto)) := by rw [Nat.mul_comm]; omega
      have hlt : a - (d + k * ws sto) < ws sto := by omega
      rw [if_pos hlast, if_pos ⟨by omega, by omega⟩, ha, Nat.mul_add_div hw, Nat.mul_add_mod, Nat.div_eq_of_lt hlt,
        Nat.mod_eq_of_lt hlt, Nat.add_zero]
    · rw [if_neg hlast]
      by_cases hin : d ≤ a ∧ a < d + k * ws sto
      · rw [if_pos hin, if_pos ⟨hin.1, by omega⟩]
      · rw [if_neg hin, if_neg (by omega)]

theorem Copies.block {ld : L} {sto : S} (hw : 0 < ws sto) (he : wl ld = ws sto) (k d s : Nat) :
    Copies ws (block wl ws ld sto k d s : List (Instr L S F)) d s (k * ws sto) := by
  intro st _
  obtain ⟨hm, hr⟩ := @exec_loads L S F wl ws ld s st k
  rw [Bytes.block, exec_append, (exec_stores sto d hw _ k).2, hm]
  funext a
  rw [Mem.copy]
  by_cases hin : d ≤ a ∧ a < d + k * ws sto
  · have hlt : (a - d) / ws sto < k := Nat.div_lt_of_lt_mul (by rw [Nat.mul_comm]; omega)
    rw [if_pos hin, if_pos hin, hr _ hlt, he]
    beta_reduce
    rw [Nat.add_assoc, Nat.mul_comm, Nat.div_add_mod]
  · rw [if_neg hin, if_neg hin]

/-! ## Routines -/

/-- Where a routine stands: the next destination and source address, and the bytes left. -/
structure Cursor where
  d : Nat
  s : Nat
  n : Nat
  deriving DecidableEq, Repr

def Cursor.advance (c : Cursor) (m : Nat) : Cursor := ⟨c.d + m, c.s + m, c.n - m⟩

theorem Cursor.advance_advance (c : Cursor) (k m : Nat) : (c.advance k).advance m = c.advance (k + m) := by
  simp only [advance, Cursor.mk.injEq]
  omega

/-- A part of a routine: its instructions, and where it leaves the cursor. -/
abbrev Part (I : Type) := Cursor → List I × Cursor

namespace Part
variable {I : Type}

def seq (p q : Part I) : Part I := fun c => ((p c).1 ++ (q (p c).2).1, (q (p c).2).2)

/-- Copy the bytes `body` gives instructions for, and again from there until it gives none. -/
def loop (body : Cursor → Option (List I × Nat)) (c : Cursor) : List I × Cursor :=
  match body c with
  | none => ([], c)
  | some (t, m) =>
    if _ : 0 < m ∧ m ≤ c.n then (t ++ (loop body (c.advance m)).1, (loop body (c.advance m)).2) else ([], c)
  termination_by c.n
  decreasing_by all_goals simp only [Cursor.advance]; omega

section
variable {R : List I → Nat → Nat → Nat → Prop} {p q : Part I}

/-- The part does `R` to the next bytes, as many as it moves the cursor. -/
def Goes (R : List I → Nat → Nat → Nat → Prop) (p : Part I) : Prop :=
  ∀ c, ∃ m ≤ c.n, (p c).2 = c.advance m ∧ R (p c).1 c.d c.s m

/-- What holds of one list of instructions and of the next holds of both together. -/
structure Chains (R : List I → Nat → Nat → Nat → Prop) : Prop where
  nil : ∀ d s, R [] d s 0
  append : ∀ {t u d s k n}, R t d s k → R u (d + k) (s + k) n → R (t ++ u) d s (k + n)

theorem Goes.seq (hR : Chains R) (hp : Goes R p) (hq : Goes R q) : Goes R (p.seq q) := by
  intro c
  obtain ⟨k, hk, he, hc⟩ := hp c
  obtain ⟨m, hm, he', hc'⟩ := hq (p c).2
  rw [he] at hm he' hc'
  refine ⟨k + m, by simp only [Cursor.advance] at hm; omega, ?_, ?_⟩
  · rw [Part.seq, he, he', Cursor.advance_advance]
  · rw [Part.seq, he]
    exact hR.append hc hc'

theorem Goes.loop (hR : Chains R) {body : Cursor → Option (List I × Nat)}
    (h : ∀ c t m, body c = some (t, m) → R t c.d c.s m) : Goes R (Part.loop body) := by
  intro c
  induction c using Part.loop.induct body with
  | case1 c hb =>
    rw [Part.loop, hb]
    exact ⟨0, Nat.zero_le _, rfl, hR.nil _ _⟩
  | case2 c t m hb hm ih =>
    obtain ⟨k, hk, he, hc⟩ := ih
    rw [Part.loop, hb]
    simp only [dif_pos hm]
    refine ⟨m + k, by simp only [Cursor.advance] at hk; omega, ?_, hR.append (h c t m hb) hc⟩
    rw [he, Cursor.advance_advance]
  | case3 c t m hb hm =>
    rw [Part.loop, hb]
    simp only [dif_neg hm]
    exact ⟨0, Nat.zero_le _, rfl, hR.nil _ _⟩

/-- A part that leaves nothing does `R` to all of it. -/
theorem Goes.all (h : Goes R p) {c : Cursor} (hc : (p c).2.n = 0) : R (p c).1 c.d c.s c.n := by
  obtain ⟨m, hm, he, hr⟩ := h c
  have : m = c.n := by
    simp only [he, Cursor.advance] at hc
    omega
  rwa [this] at hr

end

end Part

variable (ws) in
/-- The part copies the next bytes, as many as it moves the cursor. -/
def Advances (p : Part (Instr L S F)) : Prop := ∀ c, ∃ m ≤ c.n, (p c).2 = c.advance m ∧ Copies ws (p c).1 c.d c.s m

theorem Copies.chains : Part.Chains (Copies (L := L) (F := F) ws) := ⟨.nil, .append⟩

/-- A loop copies the next bytes if each turn of it does. -/
theorem Advances.loop {body : Cursor → Option (List (Instr L S F) × Nat)}
    (h : ∀ c t m, body c = some (t, m) → Copies ws t c.d c.s m) : Advances ws (Part.loop body) :=
  Part.Goes.loop Copies.chains h

/-- A loop whose turns make progress stops where its body gives nothing more. -/
theorem loop_stops {I : Type} {body : Cursor → Option (List I × Nat)}
    (h : ∀ c t m, body c = some (t, m) → 0 < m ∧ m ≤ c.n) (c : Cursor) : body (Part.loop body c).2 = none := by
  induction c using Part.loop.induct body with
  | case1 c hb => rw [Part.loop, hb, hb]
  | case2 c t m hb hm ih =>
    rw [Part.loop, hb]
    simpa only [dif_pos hm] using ih
  | case3 c t m hb hm => exact absurd (h c t m hb) hm

/-- What every turn of a loop keeps holds when the loop stops. -/
theorem loop_inv {I : Type} {body : Cursor → Option (List I × Nat)} (J : Cursor → Prop)
    (h : ∀ c t m, J c → body c = some (t, m) → J (c.advance m)) (c : Cursor) (hc : J c) : J (Part.loop body c).2 := by
  induction c using Part.loop.induct body with
  | case1 c hb =>
    rw [Part.loop, hb]
    exact hc
  | case2 c t m hb hm ih =>
    rw [Part.loop, hb]
    simpa only [dif_pos hm] using ih (h c t m hc hb)
  | case3 c t m hb hm =>
    rw [Part.loop, hb]
    simpa only [dif_neg hm] using hc

/-- A part that leaves nothing is a copy. -/
theorem Advances.copies {p : Part (Instr L S F)} (h : Advances ws p) {c : Cursor} (hc : (p c).2.n = 0) :
    Copies ws (p c).1 c.d c.s c.n := Part.Goes.all h hc

end

end Bytes
