import Mathlib.Data.List.Nodup
import Mathlib.Data.List.Perm.Subperm
/-!
# Counting entries of a keyed list

A list of entries with distinct keys, and what overwriting the entry with a key does
to a count over the list.
-/

namespace Tally

variable {α β κ : Type} [DecidableEq κ]

/-- The entries with key `x` go through `f`. -/
def update (key : α → κ) (x : κ) (f : α → α) (l : List α) : List α := l.map fun a => if key a = x then f a else a

variable {key : α → κ} {x : κ} {f : α → α} {l : List α} {a b : α}

theorem map_key_update (hf : ∀ a, key (f a) = key a) (x : κ) (l : List α) : (update key x f l).map key = l.map key := by
  unfold update
  rw [List.map_map]
  refine List.map_congr_left fun a _ => ?_
  rw [Function.comp_apply]
  split
  · exact hf a
  · rfl

theorem mem_update (h : b ∈ update key x f l) : b ∈ l ∨ ∃ a ∈ l, key a = x ∧ b = f a := by
  obtain ⟨a, ha, rfl⟩ := List.mem_map.1 h
  split
  · next hk => exact .inr ⟨a, ha, hk, rfl⟩
  · exact .inl ha

theorem update_of_notMem (h : x ∉ l.map key) : update key x f l = l := by
  refine (List.map_congr_left fun a ha => ?_).trans (List.map_id' l)
  refine if_neg fun hk => h ?_
  rw [← hk]
  exact List.mem_map_of_mem ha

theorem update_cons_self (h : key a ∉ l.map key) : update key (key a) f (a :: l) = f a :: l := by
  rw [update, List.map_cons, if_pos rfl]
  exact congrArg (f a :: ·) (update_of_notMem h)

theorem update_cons_of_ne (h : key b ≠ x) : update key x f (b :: l) = b :: update key x f l := by
  rw [update, List.map_cons, if_neg h]
  rfl

/-- Overwriting one entry changes a count by that entry. -/
theorem countP_update (p : α → Bool) (hl : (l.map key).Nodup) (ha : a ∈ l) :
    (update key (key a) f l).countP p + (if p a then 1 else 0) = l.countP p + if p (f a) then 1 else 0 := by
  induction l with
  | nil => cases ha
  | cons b l ih =>
    rw [List.map_cons, List.nodup_cons] at hl
    rcases List.mem_cons.1 ha with rfl | ha
    · rw [update_cons_self hl.1, List.countP_cons, List.countP_cons]
      omega
    · have hne : key b ≠ key a := fun he => hl.1 (he ▸ List.mem_map_of_mem ha)
      have ih := ih hl.2 ha
      rw [update_cons_of_ne hne, List.countP_cons, List.countP_cons]
      omega

/-- Overwriting an entry by one that holds one more element. -/
theorem flatMap_update {h : α → List β} {m : β} (hl : (l.map key).Nodup) (ha : a ∈ l) (hm : h (f a) = m :: h a) :
    (update key (key a) f l).flatMap h |>.Perm (m :: l.flatMap h) := by
  induction l with
  | nil => cases ha
  | cons b l ih =>
    rw [List.map_cons, List.nodup_cons] at hl
    rcases List.mem_cons.1 ha with rfl | ha
    · rw [update_cons_self hl.1, List.flatMap_cons, List.flatMap_cons, hm]
      exact .refl _
    · have hne : key b ≠ key a := fun he => hl.1 (he ▸ List.mem_map_of_mem ha)
      rw [update_cons_of_ne hne, List.flatMap_cons, List.flatMap_cons]
      exact ((ih hl.2 ha).append_left (h b)).trans List.perm_middle

/-- Two entries that count are two. -/
theorem two_le_countP {p : α → Bool} (ha : a ∈ l) (hb : b ∈ l) (hne : a ≠ b) (hpa : p a = true) (hpb : p b = true) :
    2 ≤ l.countP p := by
  have hsub : [a, b] ⊆ l.filter p := by
    intro x hx
    rcases List.mem_cons.1 hx with rfl | hx
    · exact List.mem_filter.2 ⟨ha, hpa⟩
    · rw [List.mem_singleton.1 hx]
      exact List.mem_filter.2 ⟨hb, hpb⟩
  have hnodup : [a, b].Nodup := List.nodup_cons.2 ⟨fun h => hne (List.mem_singleton.1 h), List.nodup_singleton b⟩
  rw [List.countP_eq_length_filter]
  exact (List.subperm_of_subset hnodup hsub).length_le

end Tally
