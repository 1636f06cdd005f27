import Mathlib.Data.List.Basic
/-!
# Blocks handed out in order

Blocks of addresses, or of any other numbers, that are handed out one after the other:
each starts where everything before it has ended (`Ordered.snoc`), so no two overlap.
-/

namespace Blocks

structure Block where
  addr : Nat
  size : Nat
  deriving DecidableEq, Repr

/-- No address is in both. An empty block is disjoint from every block. -/
def Block.Disjoint (b b' : Block) : Prop := ∀ a, ¬((b.addr ≤ a ∧ a < b.addr + b.size) ∧ b'.addr ≤ a ∧
    a < b'.addr + b'.size)

def Within (lo hi : Nat) (bs : List Block) : Prop := ∀ b ∈ bs, lo ≤ b.addr ∧ b.addr + b.size ≤ hi

def Ordered (bs : List Block) : Prop := bs.Pairwise fun b b' => b.addr + b.size ≤ b'.addr

variable {bs : List Block} {b : Block} {lo hi hi' : Nat}

theorem Ordered.disjoint (h : Ordered bs) : bs.Pairwise Block.Disjoint := by
  refine h.imp fun {b b'} hle a hin => ?_
  obtain ⟨⟨-, hlt⟩, hge, -⟩ := hin
  exact absurd (Nat.lt_of_lt_of_le hlt hle) (Nat.not_lt.2 hge)

theorem Within.mono (h : Within lo hi bs) (hle : hi ≤ hi') : Within lo hi' bs :=
  fun b hb => ⟨(h b hb).1, Nat.le_trans (h b hb).2 hle⟩

theorem Within.snoc (h : Within lo hi bs) (hlo : lo ≤ b.addr) (hle : hi ≤ hi') (hb : b.addr + b.size ≤ hi') :
    Within lo hi' (bs ++ [b]) := by
  intro c hc
  rcases List.mem_append.1 hc with hc | hc
  · exact h.mono hle c hc
  · rw [List.mem_singleton.1 hc]
    exact ⟨hlo, hb⟩

theorem Ordered.snoc (h : Ordered bs) (hw : Within lo hi bs) (hb : hi ≤ b.addr) : Ordered (bs ++ [b]) := by
  refine List.pairwise_append.2 ⟨h, List.pairwise_singleton _ b, fun c hc d hd => ?_⟩
  rw [List.mem_singleton.1 hd]
  exact Nat.le_trans (hw c hc).2 hb

/-- Blocks in order that are not empty have increasing addresses. -/
theorem Ordered.addr_lt (h : Ordered bs) (hpos : ∀ b ∈ bs, 0 < b.size) : (bs.map Block.addr).Pairwise (· < ·) := by
  refine List.pairwise_map.2 (h.imp_of_mem fun {b b'} hb _ hle => ?_)
  exact Nat.lt_of_lt_of_le (Nat.lt_add_of_pos_right (hpos b hb)) hle

/-- `n` blocks of one size, in a row. -/
def row (base w n : Nat) : List Block := (List.range n).map fun i => ⟨base + i * w, w⟩

theorem row_succ (base w n : Nat) : row base w (n + 1) = row base w n ++ [⟨base + n * w, w⟩] := by
  rw [row, List.range_succ, List.map_append]
  rfl

theorem row_within (base w n : Nat) : Within base (base + n * w) (row base w n) := by
  induction n with
  | zero => exact fun b hb => absurd hb List.not_mem_nil
  | succ n ih =>
    rw [row_succ]
    refine ih.snoc (Nat.le_add_right _ _) ?_ ?_
    · exact Nat.add_le_add_left (Nat.mul_le_mul_right w (Nat.le_succ n)) base
    · exact Nat.le_of_eq (by rw [Nat.succ_mul, Nat.add_assoc])

theorem row_ordered (base w n : Nat) : Ordered (row base w n) := by
  induction n with
  | zero => exact .nil
  | succ n ih =>
    rw [row_succ]
    exact ih.snoc (row_within base w n) (Nat.le_refl _)

end Blocks
