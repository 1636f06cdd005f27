import Mathlib.Data.List.Basic
import Mathlib.Logic.Function.Basic
/-!
# Where objects are

Each object `M` is in one place: not made yet, in the hands of one party `T`, on one
list `F`, or freed. Parties refer to listed objects as well. An object leaves
its list only when nobody but the party that takes it refers to it (`View.Step`), so
what a party owns or refers to is never freed (`View.Ok`).
-/

set_option linter.unusedSectionVars false

namespace Places

inductive Place (T F : Type) where
  | unborn
  | owned (p : T)
  | listed (f : F)
  | freed
  deriving DecidableEq, Repr

variable {T F M : Type} [DecidableEq T] [DecidableEq F] [DecidableEq M]

structure View (T F M : Type) where
  place : M → Place T F
  list : F → List M
  owns : T → Option M
  refers : T → Option (F × M)

namespace View

/-- Places, lists and hands agree. -/
structure Ok (v : View T F M) : Prop where
  owned : ∀ p m, v.owns p = some m ↔ v.place m = .owned p
  listed : ∀ f m, m ∈ v.list f ↔ v.place m = .listed f
  nodup : ∀ f, (v.list f).Nodup
  refers : ∀ p f m, v.refers p = some (f, m) → v.place m = .listed f

inductive Step : View T F M → View T F M → Prop
  | same {v} : Step v v
  | find {v p f m} : m ∈ v.list f → Step v { v with refers := Function.update v.refers p (some (f, m)) }
  | drop {v p} : Step v { v with refers := Function.update v.refers p none }
  | alloc {v p m} : v.place m = .unborn → v.owns p = none →
    Step v { v with place := Function.update v.place m (.owned p), owns := Function.update v.owns p (some m) }
  | link {v p f m} : v.owns p = some m →
    Step v { v with
      place := Function.update v.place m (.listed f), list := Function.update v.list f (m :: v.list f),
      owns := Function.update v.owns p none, refers := Function.update v.refers p (some (f, m)) }
  | unlink {v p f m} : v.refers p = some (f, m) → v.owns p = none → (∀ q, q ≠ p → v.refers q ≠ some (f, m)) →
    Step v { v with
      place := Function.update v.place m (.owned p), list := Function.update v.list f ((v.list f).filter (· ≠ m)),
      owns := Function.update v.owns p (some m), refers := Function.update v.refers p none }
  | free {v p m} : v.owns p = some m →
    Step v { v with place := Function.update v.place m .freed, owns := Function.update v.owns p none }

variable {v v' : View T F M}

theorem Ok.step (h : v.Ok) (hs : Step v v') : v'.Ok := by
  cases hs with
  | same => exact h
  | find hm =>
    rename_i p f m
    refine ⟨h.owned, h.listed, h.nodup, fun q g n hq => ?_⟩
    have h1 := h.refers q g n
    have h2 := (h.listed f m).1 hm
    grind [Function.update_apply]
  | drop =>
    refine ⟨h.owned, h.listed, h.nodup, fun q g n hq => ?_⟩
    have h1 := h.refers q g n
    grind [Function.update_apply]
  | alloc hm hp =>
    rename_i p m
    refine ⟨fun q n => ?_, fun g n => ?_, h.nodup, fun q g n hq => ?_⟩
    · have h1 := h.owned q n
      have h2 := h.owned p n
      grind [Function.update_apply]
    · have h1 := h.listed g n
      grind [Function.update_apply]
    · have h1 := h.refers q g n
      grind [Function.update_apply]
  | link hp =>
    rename_i p f m
    have h0 := (h.owned p m).1 hp
    refine ⟨fun q n => ?_, fun g n => ?_, fun g => ?_, fun q g n hq => ?_⟩
    · have h1 := h.owned q n
      have h2 := h.owned p n
      grind [Function.update_apply]
    · have h1 := h.listed g n
      grind [Function.update_apply]
    · have h1 := h.nodup g
      have h2 := h.listed g m
      grind [Function.update_apply]
    · have h1 := h.refers q g n
      grind [Function.update_apply]
  | unlink hp ho hq =>
    rename_i p f m
    have h0 := h.refers p f m hp
    refine ⟨fun q n => ?_, fun g n => ?_, fun g => ?_, fun q g n hq' => ?_⟩
    · have h1 := h.owned q n
      have h2 := h.owned p n
      grind [Function.update_apply]
    · have h1 := h.listed g n
      have h2 := h.listed f n
      simp only [Function.update_apply]
      by_cases hg : g = f
      · subst hg
        simp only [if_true, List.mem_filter, decide_eq_true_eq]
        grind
      · grind
    · simp only [Function.update_apply]
      split
      · exact (h.nodup f).filter _
      · exact h.nodup g
    · have h1 := h.refers q g n
      -- Nobody else refers to the object that leaves its list.
      have h2 := hq q
      grind [Function.update_apply]
  | free hp =>
    rename_i p m
    have h0 := (h.owned p m).1 hp
    refine ⟨fun q n => ?_, fun g n => ?_, h.nodup, fun q g n hq => ?_⟩
    · have h1 := h.owned q n
      have h2 := h.owned p n
      grind [Function.update_apply]
    · have h1 := h.listed g n
      grind [Function.update_apply]
    · have h1 := h.refers q g n
      grind [Function.update_apply]

/-- An object can be used: it is made and not freed. -/
def Live (v : View T F M) (m : M) : Prop := v.place m ≠ .unborn ∧ v.place m ≠ .freed

theorem Ok.live_owned {p : T} {m : M} (h : v.Ok) (hp : v.owns p = some m) : v.Live m := by
  rw [Live, (h.owned p m).1 hp]
  exact ⟨nofun, nofun⟩

theorem Ok.live_listed {f : F} {m : M} (h : v.Ok) (hm : m ∈ v.list f) : v.Live m := by
  rw [Live, (h.listed f m).1 hm]
  exact ⟨nofun, nofun⟩

theorem Ok.live_refers {p : T} {f : F} {m : M} (h : v.Ok) (hp : v.refers p = some (f, m)) : v.Live m :=
  h.live_listed ((h.listed f m).2 (h.refers p f m hp))

end View

end Places
