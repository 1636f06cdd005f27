import GdrCopy.Lib.Runs
import Mathlib.Logic.Function.Basic
import Mathlib.Data.List.ReduceOption
/-!
# Shared objects

An object is specified by what each operation does to it at once. Any number of clients
share it (`Object.Step`): a client calls an operation, the operation takes effect at one
moment, and then the client returns with its result. A machine with the same calls and
returns is linearizable when every trace of it is one of the object: `simulation` shows
that by following the machine step by step.
-/

namespace Shared

/-- What a client does that others can see. -/
inductive Event (T O R : Type) where
  | call (t : T) (o : O)
  | ret (t : T) (r : R)

/-- How far a client is with its operation. -/
inductive Status (O R : Type) where
  | idle
  | asked (o : O)
  | done (r : R)

structure Object (S O R : Type) where
  init : S
  /-- The operation can end with the result and leave the object so. -/
  apply : S → O → R → S → Prop
  /-- Before it returns, a client with this result may go on with another operation. -/
  again : R → O → Prop
  /-- What can happen to the object by itself. -/
  env : S → S → Prop

/-- The object and its clients. -/
structure Config (S T O R : Type) where
  state : S
  client : T → Status O R

variable {S T O R : Type} [DecidableEq T]

def Config.set (x : Config S T O R) (t : T) (st : Status O R) : Config S T O R :=
  { x with client := Function.update x.client t st }

@[simp] theorem Config.set_state (x : Config S T O R) (t : T) (st : Status O R) : (x.set t st).state = x.state := rfl

@[simp] theorem Config.set_self (x : Config S T O R) (t : T) (st : Status O R) : (x.set t st).client t = st :=
  Function.update_self ..

theorem Config.set_other {t u : T} (h : u ≠ t) (x : Config S T O R) (st : Status O R) :
    (x.set t st).client u = x.client u :=
  Function.update_of_ne h ..

namespace Object
variable (A : Object S O R)

/-- One step of a client or of the object, with what can be seen of it. -/
inductive Step : Config S T O R → Option (Event T O R) → Config S T O R → Prop
  | call {x t o} : x.client t = .idle → Step x (some (.call t o)) (x.set t (.asked o))
  | effect {x t o r a} : x.client t = .asked o → A.apply x.state o r a →
    Step x none ({ x with state := a }.set t (.done r))
  | again {x t o r} : x.client t = .done r → A.again r o → Step x none (x.set t (.asked o))
  | ret {x t r} : x.client t = .done r → Step x (some (.ret t r)) (x.set t .idle)
  | env {x a} : A.env x.state a → Step x none { x with state := a }

def Start (x : Config S T O R) : Prop := x = ⟨A.init, fun _ => .idle⟩

/-- Steps from one configuration to another with `e` in sight. -/
def Follows (x : Config S T O R) (e : Option (Event T O R)) (x' : Config S T O R) : Prop :=
  ∃ es, Runs.Path A.Step x es x' ∧ es.reduceOption = e.toList

variable {A} {x x' x'' : Config S T O R} {t : T} {o : O} {r : R} {a : S}

theorem Follows.refl : A.Follows x none x := ⟨[], .nil, rfl⟩

theorem Follows.one {e : Option (Event T O R)} (h : A.Step x e x') : A.Follows x e x' := by
  refine ⟨[e], .one h, ?_⟩
  cases e <;> rfl

/-- A step that nobody sees comes first. -/
theorem Follows.after {e : Option (Event T O R)} (h : A.Step x none x') (h' : A.Follows x' e x'') :
    A.Follows x e x'' := by
  obtain ⟨es, hp, he⟩ := h'
  exact ⟨none :: es, .cons h hp, he⟩

/-- A call takes effect at once. -/
theorem Follows.callEffect (hc : x.client t = .idle) (ha : A.apply x.state o r a) :
    A.Follows x (some (.call t o)) ({ x with state := a }.set t (.done r)) := by
  have hasked : (x.set t (.asked o)).client t = .asked o := x.set_self t _
  have hset : ({ x.set t (.asked o) with state := a } : Config S T O R).set t (.done r) =
      { x with state := a }.set t (.done r) := by
    simp only [Config.set, Function.update_idem]
  refine ⟨[_, none], .cons (.call hc) (.one ?_), rfl⟩
  rw [← hset]
  exact .effect hasked ha

/-- An operation takes effect and returns. -/
theorem Follows.effectRet (hc : x.client t = .asked o) (ha : A.apply x.state o r a) :
    A.Follows x (some (.ret t r)) ({ x with state := a }.set t .idle) := by
  have hdone : ({ x with state := a }.set t (.done r) : Config S T O R).client t = .done r := Config.set_self ..
  have hset : (({ x with state := a }.set t (.done r) : Config S T O R)).set t .idle =
      { x with state := a }.set t .idle := by
    simp only [Config.set, Function.update_idem]
  refine .after (.effect hc ha) (.one ?_)
  rw [← hset]
  exact .ret hdone

/-- Forward simulation: what can be seen of a machine can be seen of the object, and what is related stays related. -/
theorem simulation {C : Type} {init : C → Prop} {step : C → Option (Event T O R) → C → Prop} (J : C → Prop)
    (hJ : ∀ s es, Runs.Run init step s es → J s) (rel : C → Config S T O R → Prop)
    (h0 : ∀ s, init s → ∀ x, A.Start x → rel s x) (hs : ∀ s x e s', J s → rel s x → step s e s' →
      ∃ x', A.Follows x e x' ∧ rel s' x') {s : C} {es : List (Option (Event T O R))}
    (h : Runs.Run init step s es) : ∃ x es', Runs.Run A.Start A.Step x es' ∧
    es'.reduceOption = es.reduceOption ∧ rel s x := by
  induction h with
  | start h => exact ⟨_, [], .start rfl, rfl, h0 _ h _ rfl⟩
  | @next s s' e es hr ht ih =>
    obtain ⟨x, es', hx, he, hrel⟩ := ih
    obtain ⟨x', ⟨ps, hp, hps⟩, hrel'⟩ := hs _ _ _ _ (hJ _ _ hr) hrel ht
    refine ⟨x', es' ++ ps, hx.path hp, ?_, hrel'⟩
    rw [List.reduceOption_append, List.reduceOption_append, he, hps]
    cases e <;> rfl

end Object

end Shared
