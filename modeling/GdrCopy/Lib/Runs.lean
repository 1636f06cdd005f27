import Mathlib.Data.List.Basic
/-!
# Runs of a machine

A machine is a relation between a state, an operation and the next state. A
`Run` lists the operations from an initial state, in order. An invariant is
proved once per operation (`Run.inv`); a run under a condition on its steps is
a run of the machine cut down to the steps that meet it (`only`).
-/

namespace Runs

variable {S O : Type}

/-- The states a machine reaches, with the operations that led there. -/
inductive Run (init : S → Prop) (step : S → O → S → Prop) : S → List O → Prop
  | start {s} : init s → Run init step s []
  | next {s s' o os} : Run init step s os → step s o s' → Run init step s' (os ++ [o])

/-- The steps of `step` that meet `ok`. -/
def only (ok : S → O → Prop) (step : S → O → S → Prop) : S → O → S → Prop :=
  fun s o s' => ok s o ∧ step s o s'

variable {init : S → Prop} {step : S → O → S → Prop}

/-- What holds initially and is kept by every step holds in every state reached. -/
theorem Run.inv (I : S → Prop) (h0 : ∀ s, init s → I s) (hs : ∀ s o s', I s → step s o s' → I s')
    {s os} (h : Run init step s os) : I s := by
  induction h with
  | start h => exact h0 _ h
  | next _ ht ih => exact hs _ _ _ ih ht

/-- `Run.inv` with another invariant already known of every state reached. -/
theorem Run.inv_of (J I : S → Prop) (hJ : ∀ s os, Run init step s os → J s) (h0 : ∀ s, init s → I s)
    (hs : ∀ s o s', J s → I s → step s o s' → I s') {s os} (h : Run init step s os) : I s := by
  induction h with
  | start h => exact h0 _ h
  | next hr ht ih => exact hs _ _ _ (hJ _ _ hr) ih ht

/-- A run of a machine with fewer steps is a run of the machine. -/
theorem Run.mono {step' : S → O → S → Prop} (hle : ∀ s o s', step s o s' → step' s o s') {s os}
    (h : Run init step s os) : Run init step' s os := by
  induction h with
  | start h => exact .start h
  | next _ ht ih => exact .next ih (hle _ _ _ ht)

/-- The steps from one state to another, in order. -/
inductive Path (step : S → O → S → Prop) : S → List O → S → Prop
  | nil {s} : Path step s [] s
  | cons {s s' s'' o os} : step s o s' → Path step s' os s'' → Path step s (o :: os) s''

theorem Path.one {s s' : S} {o : O} (h : step s o s') : Path step s [o] s' := .cons h .nil

theorem Path.append {s s' s'' : S} {os ps : List O} (h : Path step s os s') (hp : Path step s' ps s'') :
    Path step s (os ++ ps) s'' := by
  induction h with
  | nil => exact hp
  | cons ht _ ih => exact .cons ht (ih hp)

/-- A path whose steps all are steps of another machine, as `h` shows for each operation on it. -/
theorem Path.imp {step' : S → O → S → Prop} {s s' : S} {os : List O} (hp : Path step s os s')
    (h : ∀ s, ∀ o ∈ os, ∀ s', step s o s' → step' s o s') : Path step' s os s' := by
  induction hp with
  | nil => exact .nil
  | cons ht _ ih =>
    exact .cons (h _ _ List.mem_cons_self _ ht) (ih fun s o ho => h s o (List.mem_cons_of_mem _ ho))

/-- Where an invariant `I` is kept and a measure goes down with every step, a path is no longer than the measure. -/
theorem Path.length_le {I : S → Prop} {μ : S → Nat} (hs : ∀ s o s', I s → step s o s' → I s' ∧ μ s' < μ s)
    {s s' : S} {os : List O} (hp : Path step s os s') (hi : I s) : I s' ∧ os.length + μ s' ≤ μ s := by
  induction hp with
  | nil => exact ⟨hi, Nat.le_of_eq (Nat.zero_add _)⟩
  | cons ht _ ih =>
    obtain ⟨hi', hlt⟩ := hs _ _ _ hi ht
    obtain ⟨hi'', hle⟩ := ih hi'
    refine ⟨hi'', ?_⟩
    rw [List.length_cons]
    omega

theorem Run.path {s s' : S} {os ps : List O} (h : Run init step s os) (hp : Path step s ps s') :
    Run init step s' (os ++ ps) := by
  induction hp generalizing os with
  | nil => rwa [List.append_nil]
  | cons ht _ ih =>
    have := ih (h.next ht)
    rwa [List.append_assoc] at this

/-- Refinement: where every step of one machine is a path of another's, from the
states where an invariant `J` of the other holds, the other follows every run. -/
theorem Run.refine {E : Type} {astep : S → E → S → Prop} (J : S → Prop) (hJ : ∀ s es, Run init astep s es → J s)
    (hs : ∀ s o s', J s → step s o s' → ∃ es, Path astep s es s') {s os} (h : Run init step s os) :
    ∃ es, Run init astep s es := by
  induction h with
  | start h => exact ⟨[], .start h⟩
  | next _ ht ih =>
    obtain ⟨es, he⟩ := ih
    obtain ⟨es', hp⟩ := hs _ _ _ (hJ _ _ he) ht
    exact ⟨es ++ es', he.path hp⟩

/-- Projection: where every step, from the states where `J` holds, is one of another machine
through `g`, every run is one of the other machine through `g`. -/
theorem Run.project {T : Type} {init' : T → Prop} {step' : T → O → T → Prop} (g : S → T) (J : S → Prop)
    (hJ : ∀ s os, Run init step s os → J s) (h0 : ∀ s, init s → init' (g s))
    (hs : ∀ s o s', J s → step s o s' → step' (g s) o (g s')) {s os} (h : Run init step s os) :
    Run init' step' (g s) os := by
  induction h with
  | start h => exact .start (h0 _ h)
  | next hr ht ih => exact ih.next (hs _ _ _ (hJ _ _ hr) ht)

/-- A run in which every state is good, the first one included. -/
def Always (good : S → Prop) (init : S → Prop) (step : S → O → S → Prop) : S → List O → Prop :=
  Run (fun s => init s ∧ good s) fun s o s' => step s o s' ∧ good s'

theorem Always.good {good : S → Prop} {s os} (h : Always good init step s os) : good s :=
  Run.inv good (fun _ h => h.2) (fun _ _ _ _ ht => ht.2) h

/-- Where an invariant `J` that the steps meeting `ok` keep makes states good, and a
step from `J` into a good state meets `ok`, the runs through good states are
exactly the runs whose steps meet `ok`. -/
theorem Run.always_iff {ok : S → O → Prop} {good : S → Prop} (J : S → Prop) (h0 : ∀ s, init s → J s)
    (hs : ∀ s o s', J s → ok s o → step s o s' → J s') (hgood : ∀ s, J s → good s)
    (hok : ∀ s o s', J s → step s o s' → good s' → ok s o) {s os} :
    Always good init step s os ↔ Run init (only ok step) s os := by
  have hJ : ∀ s os, Run init (only ok step) s os → J s := fun s os h =>
    h.inv J h0 fun s o s' hj ht => hs s o s' hj ht.1 ht.2
  constructor
  · intro h
    induction h with
    | start h => exact .start h.1
    | next _ ht ih => exact ih.next ⟨hok _ _ _ (hJ _ _ ih) ht.1 ht.2, ht.1⟩
  · intro h
    induction h with
    | start h => exact .start ⟨h, hgood _ (h0 _ h)⟩
    | next hr ht ih => exact ih.next ⟨ht.2, hgood _ (hJ _ _ (hr.next ht))⟩

theorem Run.one {s s' : S} {o : O} (h : init s) (ht : step s o s') : Run init step s' [o] := (Run.start h).next ht

/-- A run of operations that all meet `ok`. -/
theorem Run.only_of {ok : O → Prop} {s os} (h : Run init step s os) (hok : ∀ o ∈ os, ok o) :
    Run init (only (fun _ o => ok o) step) s os := by
  induction h with
  | start h => exact .start h
  | next _ ht ih =>
    exact (ih fun o ho => hok o (List.mem_append_left _ ho)).next
      ⟨hok _ (List.mem_append_right _ (List.mem_singleton.2 rfl)), ht⟩

theorem Run.of_only {ok : S → O → Prop} {s os} (h : Run init (only ok step) s os) : Run init step s os :=
  h.mono fun _ _ _ ht => ht.2

end Runs
