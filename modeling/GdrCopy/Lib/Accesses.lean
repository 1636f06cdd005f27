import GdrCopy.Lib.Bytes
import Mathlib.Algebra.Order.Group.Nat
import Mathlib.Algebra.Ring.Nat
/-!
# Accesses of a copy routine

Which bytes the instructions of a routine read and write. A routine that goes through
a range in order (`Sweep`) accesses each byte of it once and no other byte (`Once`,
`Within`). What every instruction of a routine meets, such as an alignment, follows
from what is known of the cursor before each part (`Triple`).
-/

namespace Bytes

structure Access where
  addr : Nat
  len : Nat
  deriving DecidableEq, Repr

def Access.covers (x : Access) (b : Nat) : Bool := x.addr ≤ b && b < x.addr + x.len

/-- Each byte of the range is accessed exactly once, and no other byte is. -/
def Once (as : List Access) (a n : Nat) : Prop := ∀ b, as.countP (·.covers b) = if a ≤ b ∧ b < a + n then 1 else 0

def Within (as : List Access) (a n : Nat) : Prop := ∀ x ∈ as, a ≤ x.addr ∧ x.addr + x.len ≤ a + n

/-- The accesses go through the range in order, each from where the last one ended. -/
def Sweep : List Access → Nat → Nat → Prop
  | [], _, n => n = 0
  | x :: as, a, n => x.addr = a ∧ x.len ≤ n ∧ Sweep as (a + x.len) (n - x.len)

namespace Sweep

theorem one (a n : Nat) : Sweep [⟨a, n⟩] a n := ⟨rfl, Nat.le_refl n, Nat.sub_self n⟩

theorem append {as bs : List Access} {k n : Nat} : ∀ {a m : Nat}, m = k + n → Sweep as a k →
    Sweep bs (a + k) n → Sweep (as ++ bs) a m := by
  induction as generalizing k with
  | nil =>
    rintro a m rfl rfl hb
    rwa [Nat.zero_add]
  | cons x as ih =>
    rintro a m rfl ⟨hx, hle, has⟩ hb
    refine ⟨hx, Nat.le_trans hle (Nat.le_add_right k n), ih (by omega) has ?_⟩
    have he : a + x.len + (k - x.len) = a + k := by omega
    rwa [he]

/-- `k` accesses of `w` bytes in a row. -/
theorem row (a w : Nat) (k : Nat) : Sweep ((List.range k).map fun i => ⟨a + i * w, w⟩) a (k * w) := by
  induction k with
  | zero => exact Nat.zero_mul w
  | succ k ih =>
    rw [List.range_succ, List.map_append]
    exact ih.append (Nat.succ_mul k w) (one _ _)

theorem within {as : List Access} {a n : Nat} (h : Sweep as a n) : Within as a n := by
  induction as generalizing a n with
  | nil => exact fun x hx => absurd hx List.not_mem_nil
  | cons x as ih =>
    obtain ⟨hx, hle, has⟩ := h
    intro y hy
    rcases List.mem_cons.1 hy with rfl | hy
    · omega
    · have := ih has y hy
      omega

theorem once {as : List Access} {a n : Nat} (h : Sweep as a n) : Once as a n := by
  induction as generalizing a n with
  | nil =>
    intro b
    rw [List.countP_nil, if_neg]
    have hn : n = 0 := h
    omega
  | cons x as ih =>
    obtain ⟨hx, hle, has⟩ := h
    intro b
    rw [List.countP_cons, ih has b]
    -- the byte is before the first access, in it, or behind it
    simp only [Access.covers, Bool.and_eq_true, decide_eq_true_eq]
    split_ifs <;> omega

/-- The lengths add up to the range. -/
theorem total {as : List Access} {a n : Nat} (h : Sweep as a n) : (as.map (·.len)).sum = n := by
  induction as generalizing a n with
  | nil => exact (h : n = 0).symm
  | cons x as ih =>
    obtain ⟨-, hle, has⟩ := h
    rw [List.map_cons, List.sum_cons, ih has, Nat.add_sub_cancel' hle]

end Sweep

/-! ## Instructions -/

section
variable {L S F : Type} (wl : L → Nat) (ws : S → Nat)

def Instr.reads : Instr L S F → List Access
  | .load op _ addr => [⟨addr, wl op⟩]
  | .store _ _ _ => []
  | .memcpy _ s n => [⟨s, n⟩]
  | .fence _ => []

def Instr.writes : Instr L S F → List Access
  | .load _ _ _ => []
  | .store op _ addr => [⟨addr, ws op⟩]
  | .memcpy d _ n => [⟨d, n⟩]
  | .fence _ => []

def reads (t : List (Instr L S F)) : List Access := t.flatMap (·.reads wl)

def writes (t : List (Instr L S F)) : List Access := t.flatMap (·.writes ws)

/-- The reads go through the source and the writes through the destination. -/
structure Sweeps (t : List (Instr L S F)) (d s n : Nat) : Prop where
  reads : Sweep (reads wl t) s n
  writes : Sweep (writes ws t) d n

variable {wl ws}

theorem reads_fence (t : List (Instr L S F)) (f : F) : reads wl (t ++ [.fence f]) = reads wl t := by
  rw [reads, List.flatMap_append]
  exact List.append_nil _

theorem writes_fence (t : List (Instr L S F)) (f : F) : writes ws (t ++ [.fence f]) = writes ws t := by
  rw [writes, List.flatMap_append]
  exact List.append_nil _

theorem Sweeps.nil (d s : Nat) : Sweeps wl ws ([] : List (Instr L S F)) d s 0 := ⟨rfl, rfl⟩

theorem Sweeps.append {t u : List (Instr L S F)} {d s k n : Nat} (ht : Sweeps wl ws t d s k)
    (hu : Sweeps wl ws u (d + k) (s + k) n) : Sweeps wl ws (t ++ u) d s (k + n) := by
  refine ⟨?_, ?_⟩
  · rw [Bytes.reads, List.flatMap_append]
    exact ht.reads.append rfl hu.reads
  · rw [Bytes.writes, List.flatMap_append]
    exact ht.writes.append rfl hu.writes

theorem Sweeps.memcpy (d s n : Nat) : Sweeps wl ws ([.memcpy d s n] : List (Instr L S F)) d s n := ⟨.one s n, .one d n⟩

theorem Sweeps.fence {t : List (Instr L S F)} {d s n : Nat} (h : Sweeps wl ws t d s n) (f : F) :
    Sweeps wl ws (t ++ [.fence f]) d s n := ⟨(reads_fence t f).symm ▸ h.reads, (writes_fence t f).symm ▸ h.writes⟩

theorem Sweeps.block {ld : L} {sto : S} (he : wl ld = ws sto) (k d s : Nat) :
    Sweeps wl ws (block wl ws ld sto k d s : List (Instr L S F)) d s (k * ws sto) := by
  have hmap {α β : Type} (f : Nat → α) (g : Nat → β) (u : α → List β) (h : ∀ i, u (f i) = [g i]) :
      ((List.range k).map f).flatMap u = (List.range k).map g := by
    rw [List.flatMap_map, List.map_eq_flatMap]
    exact congrArg (List.flatMap · _) (funext h)
  have hnone {α β : Type} (f : Nat → α) (u : α → List β) (h : ∀ i, u (f i) = []) :
      ((List.range k).map f).flatMap u = [] := by
    rw [List.flatMap_map]
    exact List.flatMap_eq_nil_iff.2 fun i _ => h i
  refine ⟨?_, ?_⟩
  · rw [Bytes.reads, Bytes.block, List.flatMap_append, hmap _ (fun i => ⟨s + i * wl ld, wl ld⟩) _ fun _ => rfl,
      hnone _ _ fun _ => rfl, List.append_nil, ← he]
    exact .row s (wl ld) k
  · rw [Bytes.writes, Bytes.block, List.flatMap_append, hnone _ _ fun _ => rfl,
      hmap _ (fun i => ⟨d + i * ws sto, ws sto⟩) _ fun _ => rfl, List.nil_append]
    exact .row d (ws sto) k

end

/-! ## Routines -/

namespace Part
variable {I : Type} {Ok : I → Prop} {J K M : Cursor → Prop} {p q : Part I}

/-- From a cursor that meets `J`, every instruction of the part meets `Ok`, and the cursor then meets `K`. -/
def Triple (Ok : I → Prop) (J : Cursor → Prop) (p : Part I) (K : Cursor → Prop) : Prop :=
  ∀ c, J c → (∀ i ∈ (p c).1, Ok i) ∧ K (p c).2

theorem Triple.seq (hp : Triple Ok J p K) (hq : Triple Ok K q M) : Triple Ok J (p.seq q) M := by
  intro c hc
  obtain ⟨hi, hk⟩ := hp c hc
  obtain ⟨hi', hm⟩ := hq _ hk
  exact ⟨fun i hmem => (List.mem_append.1 hmem).elim (hi i) (hi' i), hm⟩

theorem Triple.mono (h : Triple Ok J p K) {J' K' : Cursor → Prop} (hj : ∀ c, J' c → J c)
    (hk : ∀ c, K c → K' c) : Triple Ok J' p K' :=
  fun c hc => ⟨(h c (hj c hc)).1, hk _ (h c (hj c hc)).2⟩

/-- The invariant `J` of a loop need hold only where a turn is made. -/
theorem Triple.loop {body : Cursor → Option (List I × Nat)}
    (h : ∀ c t m, J c → body c = some (t, m) → 0 < m → m ≤ c.n → (∀ i ∈ t, Ok i) ∧ J (c.advance m)) :
    Triple Ok J (Part.loop body) J := by
  intro c
  induction c using Part.loop.induct body with
  | case1 c hb =>
    intro hc
    rw [Part.loop, hb]
    exact ⟨fun i hi => absurd hi List.not_mem_nil, hc⟩
  | case2 c t m hb hm ih =>
    intro hc
    obtain ⟨hi, hj⟩ := h c t m hc hb hm.1 hm.2
    obtain ⟨hi', hk⟩ := ih hj
    rw [Part.loop, hb]
    simp only [dif_pos hm]
    exact ⟨fun i hmem => (List.mem_append.1 hmem).elim (hi i) (hi' i), hk⟩
  | case3 c t m hb hm =>
    intro hc
    rw [Part.loop, hb]
    simp only [dif_neg hm]
    exact ⟨fun i hi => absurd hi List.not_mem_nil, hc⟩

end Part

theorem Sweeps.chains {L S F : Type} {wl : L → Nat} {ws : S → Nat} : Part.Chains (@Sweeps L S F wl ws) :=
  ⟨.nil, .append⟩

end Bytes
