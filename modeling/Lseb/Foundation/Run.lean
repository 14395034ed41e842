import Mathlib.Data.List.Basic

/-!
# Labelled runs of a step relation

A run keeps the labels of the steps taken, oldest first, so that a statement
may speak of the whole history as well as of the state reached. Invariants of
a state and its history are proved once per step; a run of a composed system
projects onto a run of each of its parts.
-/

namespace Foundation

universe u v w z

variable {State : Type u} {Label : Type v}

/-- The finite runs of `step` from `start`, with their labels and final state. -/
inductive Run (step : State → Label → State → Prop) (start : State) :
    List Label → State → Prop where
  | nil : Run step start [] start
  | snoc {trace : List Label} {state next : State} {label : Label} :
      Run step start trace state → step state label next →
      Run step start (trace ++ [label]) next

namespace Run

variable {step : State → Label → State → Prop} {start : State}

/-- The induction rule: what holds at the start and is kept by every step,
history included, holds after every run. -/
theorem invariant {I : List Label → State → Prop} (initial : I [] start)
    (kept : ∀ trace state label next, Run step start trace state →
      I trace state → step state label next → I (trace ++ [label]) next)
    {trace : List Label} {state : State} (run : Run step start trace state) :
    I trace state := by
  induction run with
  | nil => exact initial
  | snoc before taken ih => exact kept _ _ _ _ before ih taken

theorem append {first second : List Label} {middle final : State}
    (before : Run step start first middle) (after : Run step middle second final) :
    Run step start (first ++ second) final := by
  induction after with
  | nil => simpa using before
  | snoc _ taken ih =>
    rw [← List.append_assoc]
    exact ih.snoc taken

theorem single {label : Label} {next : State} (taken : step start label next) :
    Run step start [label] next :=
  nil.snoc taken

theorem mono {step' : State → Label → State → Prop}
    (weaker : ∀ state label next, step state label next → step' state label next)
    {trace : List Label} {state : State} (run : Run step start trace state) :
    Run step' start trace state := by
  induction run with
  | nil => exact nil
  | snoc _ taken ih => exact ih.snoc (weaker _ _ _ taken)

/-- Every step of the whole is a run, possibly empty, of the part. -/
theorem project {Part : Type w} {PartLabel : Type z}
    {partStep : Part → PartLabel → Part → Prop}
    (view : State → Part) (labels : Label → List PartLabel)
    (simulated : ∀ state label next, step state label next →
      Run partStep (view state) (labels label) (view next))
    {trace : List Label} {state : State} (run : Run step start trace state) :
    Run partStep (view start) (trace.flatMap labels) (view state) := by
  induction run with
  | nil => exact nil
  | snoc _ taken ih =>
    rw [List.flatMap_append]
    simpa using ih.append (simulated _ _ _ taken)

/-- What never exceeds a bound stops growing in some run. -/
theorem exists_last (measure : List Label → State → ℕ) {bound : ℕ}
    (bounded : ∀ trace state, Run step start trace state → measure trace state ≤ bound) :
    ∃ trace state, Run step start trace state ∧ ∀ more next, Run step state more next →
      measure (trace ++ more) next ≤ measure trace state := by
  by_contra none
  have grows : ∀ trace state, Run step start trace state → ∃ more next,
      Run step state more next ∧ measure trace state < measure (trace ++ more) next := by
    intro trace state run
    by_contra last
    exact none ⟨trace, state, run, fun more next further =>
      Nat.not_lt.mp fun raised => last ⟨more, next, further, raised⟩⟩
  have beyond : ∀ n, ∃ trace state, Run step start trace state ∧ n ≤ measure trace state := by
    intro n
    induction n with
    | zero => exact ⟨[], start, nil, Nat.zero_le _⟩
    | succ n ih =>
      obtain ⟨trace, state, run, above⟩ := ih
      obtain ⟨more, next, further, raised⟩ := grows trace state run
      exact ⟨_, next, run.append further, Nat.lt_of_le_of_lt above raised⟩
  obtain ⟨trace, state, run, above⟩ := beyond (bound + 1)
  have := bounded trace state run
  omega

/-- Where the runs are bounded, one of them cannot be continued. -/
theorem exists_final {bound : ℕ}
    (bounded : ∀ trace state, Run step start trace state → trace.length ≤ bound) :
    ∃ trace state, Run step start trace state ∧ ∀ label next, ¬step state label next := by
  obtain ⟨trace, state, run, last⟩ := exists_last (fun trace _ => trace.length) bounded
  refine ⟨trace, state, run, fun label next taken => ?_⟩
  have longer := last [label] next (single taken)
  rw [List.length_append, List.length_singleton] at longer
  omega

end Run

end Foundation
