import Mathlib.Logic.Function.Basic
import Mathlib.Logic.Relation
/-!
# Mutexes and readers-writer semaphores

What each mutex `F` and semaphore `M` records agrees with what each party `T` is in
the course of holding (`View.Ok`). Every transition takes or drops one lock
(`View.Step`). A holder then excludes the others, and a relation of who waits for
whom has no cycle if a rank goes down along it.
-/

set_option linter.unusedSectionVars false

namespace Locks

/-- A readers-writer semaphore. -/
structure Sem (T : Type) where
  writer : Option T
  readers : List T
  deriving DecidableEq, Repr

variable {T F M : Type} [DecidableEq T] [DecidableEq F] [DecidableEq M]

namespace Sem

def unlocked : Sem T := ⟨none, []⟩

/-- `p` holds the semaphore in a mode that keeps one who wants it from taking it. -/
def Blocks (s : Sem T) (write : Bool) (p : T) : Prop := s.writer = some p ∨ (write = true ∧ p ∈ s.readers)

/-- The semaphore can be taken. -/
def Free (s : Sem T) (write : Bool) : Prop := ∀ p, ¬ s.Blocks write p

def down (s : Sem T) (p : T) (write : Bool) : Sem T :=
  if write then { s with writer := some p } else { s with readers := p :: s.readers }

def up (s : Sem T) (p : T) (write : Bool) : Sem T :=
  if write then { s with writer := none } else { s with readers := s.readers.filter (· ≠ p) }

end Sem

/-- The locks, and what each party holds: a mutex, and a semaphore for writing or reading. -/
structure View (T F M : Type) where
  mutex : F → Option T
  sem : M → Sem T
  hasMutex : T → Option F
  hasSem : T → Option (M × Bool)

namespace View

/-- The locks record exactly what the parties hold, and a writer is alone. -/
structure Ok (v : View T F M) : Prop where
  mutex : ∀ f p, v.mutex f = some p ↔ v.hasMutex p = some f
  writer : ∀ m p, (v.sem m).writer = some p ↔ v.hasSem p = some (m, true)
  reader : ∀ m p, p ∈ (v.sem m).readers ↔ v.hasSem p = some (m, false)
  alone : ∀ m p q, (v.sem m).writer = some p → q ∉ (v.sem m).readers

/-- A transition of the locks. -/
inductive Step : View T F M → View T F M → Prop
  | same {v} : Step v v
  | lock {v f p} : v.mutex f = none → v.hasMutex p = none →
    Step v { v with mutex := Function.update v.mutex f (some p), hasMutex := Function.update v.hasMutex p (some f) }
  | unlock {v f p} : v.hasMutex p = some f →
    Step v { v with mutex := Function.update v.mutex f none, hasMutex := Function.update v.hasMutex p none }
  | down {v m p w} : (v.sem m).Free w → v.hasSem p = none →
    Step v { v with
      sem := Function.update v.sem m ((v.sem m).down p w), hasSem := Function.update v.hasSem p (some (m, w)) }
  | up {v m p w} : v.hasSem p = some (m, w) →
    Step v { v with sem := Function.update v.sem m ((v.sem m).up p w), hasSem := Function.update v.hasSem p none }

variable {v : View T F M}

theorem Ok.lock {f : F} {p : T} (h : v.Ok) (hf : v.mutex f = none) (hp : v.hasMutex p = none) :
    ({ v with mutex := Function.update v.mutex f (some p), hasMutex := Function.update v.hasMutex p (some f) } :
      View T F M).Ok := by
  refine ⟨fun g q => ?_, h.writer, h.reader, h.alone⟩
  have hm := h.mutex g q
  simp only [Function.update_apply]
  by_cases hg : g = f <;> by_cases hq : q = p <;> grind

theorem Ok.unlock {f : F} {p : T} (h : v.Ok) (hp : v.hasMutex p = some f) :
    ({ v with mutex := Function.update v.mutex f none, hasMutex := Function.update v.hasMutex p none } :
      View T F M).Ok := by
  refine ⟨fun g q => ?_, h.writer, h.reader, h.alone⟩
  have hm := h.mutex g q
  have hf := (h.mutex f p).2 hp
  simp only [Function.update_apply]
  by_cases hg : g = f <;> by_cases hq : q = p <;> grind

theorem Ok.down {m : M} {p : T} {w : Bool} (h : v.Ok) (hf : (v.sem m).Free w) (hp : v.hasSem p = none) :
    ({ v with sem := Function.update v.sem m ((v.sem m).down p w), hasSem := Function.update v.hasSem p (some (m, w)) } :
      View T F M).Ok := by
  have hfw : ∀ q, (v.sem m).writer ≠ some q := fun q hq => hf q (.inl hq)
  have hfr : w = true → ∀ q, q ∉ (v.sem m).readers := fun hw q hq => hf q (.inr ⟨hw, hq⟩)
  refine ⟨h.mutex, fun n q => ?_, fun n q => ?_, fun n q r => ?_⟩
  · have := h.writer n q
    simp only [Function.update_apply]
    by_cases hn : n = m <;> by_cases hq : q = p <;> cases w <;> grind [Sem.down]
  · have := h.reader n q
    simp only [Function.update_apply]
    by_cases hn : n = m <;> by_cases hq : q = p <;> cases w <;> grind [Sem.down]
  · have := h.alone n q r
    simp only [Function.update_apply]
    by_cases hn : n = m <;> cases w <;> grind [Sem.down]

theorem Ok.up {m : M} {p : T} {w : Bool} (h : v.Ok) (hp : v.hasSem p = some (m, w)) :
    ({ v with sem := Function.update v.sem m ((v.sem m).up p w), hasSem := Function.update v.hasSem p none } :
      View T F M).Ok := by
  refine ⟨h.mutex, fun n q => ?_, fun n q => ?_, fun n q r => ?_⟩
  · have h1 := h.writer n q
    have h2 := h.writer m p
    simp only [Function.update_apply]
    by_cases hn : n = m <;> by_cases hq : q = p <;> cases w <;> grind [Sem.up]
  · have h1 := h.reader n q
    have h2 := h.writer m p
    simp only [Function.update_apply]
    by_cases hn : n = m <;> by_cases hq : q = p <;> cases w <;> grind [Sem.up]
  · have := h.alone n q r
    simp only [Function.update_apply]
    by_cases hn : n = m <;> cases w <;> grind [Sem.up]

theorem Ok.step {v' : View T F M} (h : v.Ok) (hs : Step v v') : v'.Ok := by
  cases hs with
  | same => exact h
  | lock hf hp => exact h.lock hf hp
  | unlock hp => exact h.unlock hp
  | down hf hp => exact h.down hf hp
  | up hp => exact h.up hp

/-- Only one party holds a mutex. -/
theorem Ok.mutex_unique {f : F} {p q : T} (h : v.Ok) (hp : v.hasMutex p = some f)
    (hq : v.hasMutex q = some f) : p = q :=
  Option.some.inj (((h.mutex f p).2 hp).symm.trans ((h.mutex f q).2 hq))

/-- Nobody else holds a semaphore that is held for writing. -/
theorem Ok.writer_alone {m : M} {p q : T} {w : Bool} (h : v.Ok) (hp : v.hasSem p = some (m, true))
    (hq : v.hasSem q = some (m, w)) : p = q := by
  have hw := (h.writer m p).2 hp
  cases w with
  | true => exact Option.some.inj (hw.symm.trans ((h.writer m q).2 hq))
  | false => exact absurd ((h.reader m q).2 hq) (h.alone m p q hw)

/-- A semaphore that nobody holds is unlocked. -/
theorem Ok.unlocked {m : M} (h : v.Ok) (hm : ∀ p w, v.hasSem p ≠ some (m, w)) : v.sem m = .unlocked := by
  have hw : (v.sem m).writer = none := Option.eq_none_iff_forall_ne_some.2 fun p hp => hm p true ((h.writer m p).1 hp)
  have hr : (v.sem m).readers = [] := List.eq_nil_iff_forall_not_mem.2 fun p hp => hm p false ((h.reader m p).1 hp)
  show (⟨(v.sem m).writer, (v.sem m).readers⟩ : Sem T) = ⟨none, []⟩
  rw [hw, hr]

/-- Who keeps a party from taking a semaphore holds it. -/
theorem Ok.blocker {m : M} {q : T} {w : Bool} (h : v.Ok) (hb : (v.sem m).Blocks w q) :
    ∃ w', v.hasSem q = some (m, w') := by
  rcases hb with hb | ⟨-, hb⟩
  · exact ⟨true, (h.writer m q).1 hb⟩
  · exact ⟨false, (h.reader m q).1 hb⟩

end View

/-- If who waits is of higher rank than whom it waits for, nobody waits for itself. -/
theorem no_cycle {waits : T → T → Prop} (rank : T → Nat) (h : ∀ p q, waits p q → rank q < rank p) (p : T) :
    ¬ Relation.TransGen waits p p := by
  have hlt : ∀ {p q}, Relation.TransGen waits p q → rank q < rank p := by
    intro p q hpq
    induction hpq with
    | single hw => exact h _ _ hw
    | tail _ hw ih => exact Nat.lt_trans (h _ _ hw) ih
  exact fun hp => Nat.lt_irrefl _ (hlt hp)

end Locks
