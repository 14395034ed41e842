import Lseb.Foundation.Stateful

/-!
# Scopes that are unwound

Local variables live beside the state of their function. They are destroyed on
every way out of their scope, with a result or with an exception.
-/

namespace Foundation

universe u

variable {ε σ τ L α β : Type u}

/-- Run a body with local variables, and destroy what they are at its end. -/
def scope (enter : σ → τ) (leave : τ → σ) (body : EStateM ε τ α) : EStateM ε σ α := fun s =>
  match body (enter s) with
  | .ok a t => .ok a (leave t)
  | .error e t => .error e (leave t)

/-- A computation on the state alone, within a scope. -/
def outer (x : EStateM ε σ α) : EStateM ε (L × σ) α := zoom Prod.snd (fun t s => (t.1, s)) x

/-- Local variables are assigned. -/
def assign (update : L → L) : EStateM ε (L × σ) PUnit := modify fun t => (update t.1, t.2)

/-- From a state with `P`, the computation ends with `R`, or fails and leaves a state with `E`. -/
def Ends (P : σ → Prop) (x : EStateM ε σ α) (R : α → σ → Prop) (E : σ → Prop) : Prop :=
  ∀ s, P s →
    match x s with
    | .ok a s' => R a s'
    | .error _ s' => E s'

namespace Ends

variable {P Q E : σ → Prop} {R : α → σ → Prop} {S : β → σ → Prop} {x : EStateM ε σ α}
  {f : α → EStateM ε σ β}

theorem pure {a : α} (holds : ∀ s, P s → R a s) : Ends P (pure a : EStateM ε σ α) R E := holds

theorem throw {e : ε} (holds : ∀ s, P s → E s) : Ends P (throw e : EStateM ε σ α) R E := holds

theorem modify {g : σ → σ} {R : PUnit → σ → Prop} (holds : ∀ s, P s → R ⟨⟩ (g s)) :
    Ends P (modify g : EStateM ε σ PUnit) R E := holds

theorem bind (first : Ends P x R E) (second : ∀ a, Ends (R a) (f a) S E) :
    Ends P (x >>= f) S E := by
  intro s before
  have middle := first s before
  cases run : x s with
  | ok a s' =>
    rw [run] at middle
    rw [bind_of_ok run]
    exact second a s' middle
  | error e s' =>
    rw [run] at middle
    rw [bind_of_error run]
    exact middle

theorem get_bind {f : σ → EStateM ε σ β} (rest : ∀ s, P s → Ends (fun s' => s' = s) (f s) S E) :
    Ends P ((get : EStateM ε σ σ) >>= f) S E := fun s before => rest s before s rfl

theorem weaken (ends : Ends P x R E) (before : ∀ s, Q s → P s) : Ends Q x R E :=
  fun s holds => ends s (before s holds)

theorem of_fact {fact : Prop} (holds : ∀ s, P s → fact) (ends : fact → Ends P x R E) :
    Ends P x R E := fun s before => ends (holds s before) s before

theorem of_exists {ι : Sort*} {P : ι → σ → Prop} (ends : ∀ i, Ends (P i) x R E) :
    Ends (fun s => ∃ i, P i s) x R E := by
  rintro s ⟨i, before⟩
  exact ends i s before

/-- A computation on the state alone; what holds after a failure may depend on the locals. -/
theorem outer {l : L} {E : L → σ → Prop} (ends : Ends P x R (E l)) :
    Ends (fun t => t.1 = l ∧ P t.2) (outer x) (fun a t => t.1 = l ∧ R a t.2)
      (fun t => E t.1 t.2) := by
  rintro ⟨l, s⟩ ⟨rfl, before⟩
  have result := ends s before
  cases run : x s with
  | ok a s' =>
    rw [run] at result
    rw [Foundation.outer, zoom_of_ok run]
    exact ⟨rfl, result⟩
  | error e s' =>
    rw [run] at result
    rw [Foundation.outer, zoom_of_error run]
    exact result

/-- The locals are destroyed on both ways out. -/
theorem scope {enter : σ → τ} {leave : τ → σ} {body : EStateM ε τ α} {G F : τ → Prop}
    {S : α → τ → Prop} (ends : Ends G body S F) (before : ∀ s, P s → G (enter s))
    (after : ∀ a t, S a t → R a (leave t)) (failed : ∀ t, F t → E (leave t)) :
    Ends P (scope enter leave body) R E := by
  intro s holds
  have result := ends (enter s) (before s holds)
  unfold Foundation.scope
  cases run : body (enter s) with
  | ok a t =>
    rw [run] at result
    exact after a t result
  | error e t =>
    rw [run] at result
    exact failed t result

/-- What the computation leaves behind. -/
theorem final (ends : Ends P x (fun _ => Q) Q) {s : σ} (before : P s) :
    Q (final (x s)) := by
  have result := ends s before
  cases run : x s with
  | ok a s' =>
    rw [run] at result
    exact result
  | error e s' =>
    rw [run] at result
    exact result

end Ends

end Foundation
