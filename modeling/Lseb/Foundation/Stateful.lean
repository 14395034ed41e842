import Mathlib.Init

/-!
# Computations that keep their state when they fail

`EStateM` models imperative code with exceptions: what was changed before the
exception stays changed. A computation on a part of a state is one on the
whole state, through a way to read the part and a way to write it back.
-/

namespace Foundation

universe u

variable {ε σ τ α β : Type u}

theorem bind_of_ok {x : EStateM ε σ α} {f : α → EStateM ε σ β} {s s' : σ} {a : α}
    (first : x s = .ok a s') : (x >>= f) s = f a s' := by
  simp [bind, EStateM.bind, first]

theorem bind_of_error {x : EStateM ε σ α} {f : α → EStateM ε σ β} {s s' : σ} {e : ε}
    (first : x s = .error e s') : (x >>= f) s = .error e s' := by
  simp [bind, EStateM.bind, first]

/-- A sequence ends well exactly when both of its parts do. -/
theorem estate_bind_eq_ok {x : EStateM ε σ α} {f : α → EStateM ε σ β} {s s' : σ} {b : β} :
    (x >>= f) s = .ok b s' ↔ ∃ a middle, x s = .ok a middle ∧ f a middle = .ok b s' := by
  cases first : x s with
  | ok a middle =>
    rw [bind_of_ok first]
    constructor
    · exact fun second => ⟨a, middle, rfl, second⟩
    · rintro ⟨_, _, ⟨⟩, second⟩
      exact second
  | error e middle => simp [bind_of_error first]

@[simp] theorem estate_pure (a : α) (s : σ) : (pure a : EStateM ε σ α) s = .ok a s := rfl

@[simp] theorem estate_throw (e : ε) (s : σ) : (throw e : EStateM ε σ α) s = .error e s := rfl

@[simp] theorem estate_modify (g : σ → σ) (s : σ) :
    (modify g : EStateM ε σ PUnit) s = .ok ⟨⟩ (g s) := rfl

theorem estate_throw_bind (e : ε) (f : α → EStateM ε σ β) (s : σ) :
    ((throw e : EStateM ε σ α) >>= f) s = .error e s := rfl

theorem estate_get_bind {f : σ → EStateM ε σ α} {s : σ} :
    ((get : EStateM ε σ σ) >>= f) s = f s s := rfl

theorem estate_modify_bind {g : σ → σ} {f : PUnit → EStateM ε σ α} {s : σ} :
    ((modify g : EStateM ε σ PUnit) >>= f) s = f ⟨⟩ (g s) := rfl

/-- Run a computation on a part of the state. -/
def zoom (part : σ → τ) (put : σ → τ → σ) (x : EStateM ε τ α) : EStateM ε σ α := fun s =>
  match x (part s) with
  | .ok a t => .ok a (put s t)
  | .error e t => .error e (put s t)

variable {part : σ → τ} {put : σ → τ → σ}

theorem zoom_of_ok {x : EStateM ε τ α} {s : σ} {t : τ} {a : α} (inner : x (part s) = .ok a t) :
    zoom part put x s = .ok a (put s t) := by
  simp [zoom, inner]

theorem zoom_of_error {x : EStateM ε τ α} {s : σ} {t : τ} {e : ε}
    (inner : x (part s) = .error e t) : zoom part put x s = .error e (put s t) := by
  simp [zoom, inner]

theorem zoom_eq_ok {x : EStateM ε τ α} {s s' : σ} {a : α} :
    zoom part put x s = .ok a s' ↔ ∃ t, x (part s) = .ok a t ∧ s' = put s t := by
  unfold zoom
  cases x (part s) with
  | ok b t =>
    constructor
    · rintro ⟨⟩
      exact ⟨t, rfl, rfl⟩
    · rintro ⟨_, ⟨⟩, rfl⟩
      rfl
  | error e t => simp

/-- A computation that can only fail leaves the state alone. -/
def attempt (x : Except ε α) : EStateM ε σ α := fun s =>
  match x with
  | .ok a => .ok a s
  | .error e => .error e s

@[simp] theorem attempt_eq_ok {x : Except ε α} {s s' : σ} {a : α} :
    attempt x s = .ok a s' ↔ x = .ok a ∧ s' = s := by
  unfold attempt
  cases x <;> simp [eq_comm]

@[simp] theorem attempt_eq_error {x : Except ε α} {s s' : σ} {e : ε} :
    attempt x s = .error e s' ↔ x = .error e ∧ s' = s := by
  unfold attempt
  cases x <;> simp [eq_comm]

section Frame

universe v

variable {γ : Type v} {view : σ → γ}

/-- The state a computation leaves behind, whether it failed or not. -/
def final : EStateM.Result ε σ α → σ
  | .ok _ s => s
  | .error _ s => s

/-- The part of the state that a view shows is never changed. -/
def Preserves (view : σ → γ) (x : EStateM ε σ α) : Prop := ∀ s, view (final (x s)) = view s

theorem Preserves.pure (a : α) : Preserves view (pure a : EStateM ε σ α) := fun _ => rfl

theorem Preserves.throw (e : ε) : Preserves view (throw e : EStateM ε σ α) := fun _ => rfl

theorem Preserves.attempt (x : Except ε α) : Preserves view (attempt x : EStateM ε σ α) := by
  intro s
  unfold Foundation.attempt
  cases x <;> rfl

theorem Preserves.modify {g : σ → σ} (same : ∀ s, view (g s) = view s) :
    Preserves view (modify g : EStateM ε σ PUnit) := same

theorem Preserves.bind {x : EStateM ε σ α} {f : α → EStateM ε σ β} (first : Preserves view x)
    (second : ∀ a, Preserves view (f a)) : Preserves view (x >>= f) := by
  intro s
  have kept := first s
  cases run : x s with
  | ok a middle =>
    rw [run] at kept
    rw [bind_of_ok run, second a middle]
    exact kept
  | error e middle =>
    rw [run] at kept
    rw [bind_of_error run]
    exact kept

theorem Preserves.get_bind {f : σ → EStateM ε σ α} (rest : ∀ s, Preserves view (f s)) :
    Preserves view ((get : EStateM ε σ σ) >>= f) := fun s => rest s s

theorem Preserves.zoom (outside : ∀ s t, view (put s t) = view s) (x : EStateM ε τ α) :
    Preserves view (zoom part put x) := by
  intro s
  unfold Foundation.zoom
  cases x (part s) <;> exact outside _ _

end Frame

end Foundation
