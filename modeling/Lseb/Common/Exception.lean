import Mathlib.Init

/-!
# Failures of the program

A failed `assert` aborts the process; an exception leaves a thread of `run`
and ends it as well, so both are errors of one type. `fault` stands for a read
the language leaves undefined, such as the front of an empty vector, and
`exitFailure` for the message with which `main` gives up.
-/

namespace Lseb

inductive Error where
  | assertion (text : String)
  | socketError (text : String)
  | runtimeError (text : String)
  | fault (text : String)
  | exitFailure (text : String)
  deriving DecidableEq, Repr

def assertThat (condition : Prop) [Decidable condition] (text : String) : Except Error Unit :=
  if condition then .ok () else .error (.assertion text)

@[simp] theorem assertThat_of {condition : Prop} [Decidable condition] (holds : condition)
    (text : String) : assertThat condition text = .ok () := if_pos holds

@[simp] theorem assertThat_eq_ok {condition : Prop} [Decidable condition] {text : String}
    {u : Unit} : assertThat condition text = .ok u ↔ condition := by
  unfold assertThat
  split <;> simp [*]

@[simp] theorem ok_bind {α β : Type} (a : α) (f : α → Except Error β) :
    (Except.ok a >>= f) = f a := rfl

@[simp] theorem error_bind {α β : Type} (e : Error) (f : α → Except Error β) :
    (Except.error e >>= f) = .error e := rfl

/-- A sequence of two computations succeeds exactly when both do. -/
theorem bind_eq_ok {α β : Type} {x : Except Error α} {f : α → Except Error β} {b : β} :
    x >>= f = .ok b ↔ ∃ a, x = .ok a ∧ f a = .ok b := by
  cases x with
  | error e => simp
  | ok a => simp

theorem bind_eq_error {α β : Type} {x : Except Error α} {f : α → Except Error β} {e : Error} :
    x >>= f = .error e ↔ x = .error e ∨ ∃ a, x = .ok a ∧ f a = .error e := by
  cases x with
  | error e' => simp
  | ok a => simp

end Lseb
