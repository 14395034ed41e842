import Mathlib.Algebra.Order.Group.Nat
import Lseb.Foundation.Run

/-!
# What a system can always get to

`Leads` says that no state reached is a dead end: some continuation gets from
one property to another. Properties of the history that are kept once true can
be gained one after the other, and a measure that can always be raised can be
raised beyond any bound.
-/

namespace Foundation

universe u v

variable {State : Type u} {Label : Type v} {step : State → Label → State → Prop} {start : State}

/-- From every state reached with `before`, some run leads to one with `after`. -/
def Leads (step : State → Label → State → Prop) (start : State)
    (before after : List Label → State → Prop) : Prop :=
  ∀ trace state, Run step start trace state → before trace state →
    ∃ more next, Run step state more next ∧ after (trace ++ more) next

/-- A property that no step of a run takes away. -/
def Stable (step : State → Label → State → Prop) (start : State)
    (property : List Label → State → Prop) : Prop :=
  ∀ trace state label next, Run step start trace state → step state label next →
    property trace state → property (trace ++ [label]) next

section Rules

variable {before middle after first second : List Label → State → Prop}

theorem Stable.run (stable : Stable step start before) {trace more : List Label}
    {state next : State} (reached : Run step start trace state) (run : Run step state more next)
    (holds : before trace state) : before (trace ++ more) next := by
  induction run with
  | nil => rwa [List.append_nil]
  | snoc earlier taken ih =>
    rw [← List.append_assoc]
    exact stable _ _ _ _ (reached.append earlier) taken ih

theorem Stable.and (left : Stable step start first) (right : Stable step start second) :
    Stable step start fun trace state => first trace state ∧ second trace state :=
  fun _ _ _ _ reached taken both =>
    ⟨left _ _ _ _ reached taken both.1, right _ _ _ _ reached taken both.2⟩

theorem Leads.of_imp (weaker : ∀ trace state, Run step start trace state →
    before trace state → after trace state) : Leads step start before after :=
  fun trace state reached holds =>
    ⟨[], state, .nil, (List.append_nil trace).symm ▸ weaker trace state reached holds⟩

theorem Leads.trans (left : Leads step start before middle)
    (right : Leads step start middle after) : Leads step start before after := by
  intro trace state reached holds
  obtain ⟨more, next, run, between⟩ := left trace state reached holds
  obtain ⟨rest, last, run', done⟩ := right _ _ (reached.append run) between
  exact ⟨more ++ rest, last, run.append run', (List.append_assoc trace more rest) ▸ done⟩

/-- Two goals are reached one after the other, if the first one is kept. -/
theorem Leads.and (left : Leads step start before first) (right : Leads step start before second)
    (keepsBefore : Stable step start before) (keepsFirst : Stable step start first) :
    Leads step start before fun trace state => first trace state ∧ second trace state := by
  intro trace state reached holds
  obtain ⟨more, next, run, done⟩ := left trace state reached holds
  have still := keepsBefore.run reached run holds
  obtain ⟨rest, last, run', done'⟩ := right _ _ (reached.append run) still
  have kept := keepsFirst.run (reached.append run) run' done
  rw [List.append_assoc] at kept done'
  exact ⟨more ++ rest, last, run.append run', kept, done'⟩

/-- Any number of goals that are kept can be reached together. -/
theorem Leads.forall_lt (goal : ℕ → List Label → State → Prop) {count : ℕ}
    (each : ∀ n < count, Leads step start before (goal n)) (keepsBefore : Stable step start before)
    (keeps : ∀ n, Stable step start (goal n)) :
    Leads step start before fun trace state => ∀ n < count, goal n trace state := by
  induction count with
  | zero => exact .of_imp fun _ _ _ _ n impossible => absurd impossible (Nat.not_lt_zero n)
  | succ count ih =>
    have earlier := ih fun n inside => each n (inside.trans (Nat.lt_succ_self count))
    have all : Stable step start fun trace state => ∀ n < count, goal n trace state :=
      fun _ _ _ _ reached taken holds n inside =>
        keeps n _ _ _ _ reached taken (holds n inside)
    have both := earlier.and (each count (Nat.lt_succ_self count)) keepsBefore all
    refine both.trans (.of_imp ?_)
    rintro trace state - ⟨lower, last⟩ n inside
    rcases Nat.lt_succ_iff_lt_or_eq.mp inside with below | rfl
    · exact lower n below
    · exact last

/-- What can always be raised exceeds every bound at some time. -/
theorem Leads.atLeast (measure : List Label → State → ℕ)
    (more : ∀ n, Leads step start (fun trace state => n ≤ measure trace state)
      fun trace state => n + 1 ≤ measure trace state) (bound : ℕ) :
    Leads step start (fun _ _ => True) fun trace state => bound ≤ measure trace state := by
  induction bound with
  | zero => exact .of_imp fun _ _ _ _ => Nat.zero_le _
  | succ bound ih => exact ih.trans (more bound)

end Rules

end Foundation
