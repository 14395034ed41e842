import Lseb.Foundation.Run
import Lseb.Foundation.Stateful

/-!
# Computations and runs in lockstep

A view hides a part of a state. Two computations are in lockstep if, begun in
states that look the same, they return the same and leave states that look the
same, whenever both return. Nothing is said of how they fail. Two step
relations are in lockstep if each step of the one can be answered by the other.
-/

namespace Foundation

section Computations

universe u v

variable {ε σ τ α β : Type u} {γ δ : Type v} {view : σ → γ} {whole : τ → δ}

def Lockstep (view : σ → γ) (x y : EStateM ε σ α) : Prop :=
  ∀ ⦃s s' u u' a b⦄, view s = view s' → x s = .ok a u → y s' = .ok b u' →
    a = b ∧ view u = view u'

theorem Lockstep.pure (a : α) : Lockstep view (pure a : EStateM ε σ α) (pure a) := by
  rintro s s' u u' b c same ⟨⟩ ⟨⟩
  exact ⟨rfl, same⟩

theorem Lockstep.throw (e e' : ε) :
    Lockstep view (throw e : EStateM ε σ α) (throw e') := by
  rintro s s' u u' a b same ⟨⟩

theorem Lockstep.attempt {x y : Except ε α} (equal : x = y) :
    Lockstep view (attempt x) (attempt y) := by
  subst equal
  intro s s' u u' a b same first second
  obtain ⟨returned, rfl⟩ := attempt_eq_ok.mp first
  obtain ⟨returned', rfl⟩ := attempt_eq_ok.mp second
  exact ⟨Except.ok.inj (returned.symm.trans returned'), same⟩

theorem Lockstep.modify {g g' : σ → σ}
    (kept : ∀ s s', view s = view s' → view (g s) = view (g' s')) :
    Lockstep view (modify g : EStateM ε σ PUnit) (modify g') := by
  rintro s s' u u' a b same ⟨⟩ ⟨⟩
  exact ⟨rfl, kept s s' same⟩

theorem Lockstep.set {s s' : σ} (same : view s = view s') :
    Lockstep view (set s : EStateM ε σ PUnit) (set s') := by
  rintro _ _ u u' a b - ⟨⟩ ⟨⟩
  exact ⟨rfl, same⟩

theorem Lockstep.bind {x y : EStateM ε σ α} {f g : α → EStateM ε σ β}
    (first : Lockstep view x y) (second : ∀ a, Lockstep view (f a) (g a)) :
    Lockstep view (x >>= f) (y >>= g) := by
  intro s s' u u' a b same left right
  obtain ⟨c, middle, before, after⟩ := estate_bind_eq_ok.mp left
  obtain ⟨c', middle', before', after'⟩ := estate_bind_eq_ok.mp right
  obtain ⟨rfl, between⟩ := first same before before'
  exact second c between after after'

/-- What is read from the state may differ in what the view hides. -/
theorem Lockstep.get_bind {f g : σ → EStateM ε σ α}
    (rest : ∀ s s', view s = view s' → Lockstep view (f s) (g s')) :
    Lockstep view ((get : EStateM ε σ σ) >>= f) ((get : EStateM ε σ σ) >>= g) :=
  fun s s' _ _ _ _ same left right => rest s s' same same left right

theorem Lockstep.zoom {part : τ → σ} {put : τ → σ → τ} {x y : EStateM ε σ α}
    (inner : Lockstep view x y)
    (parts : ∀ s s', whole s = whole s' → view (part s) = view (part s'))
    (puts : ∀ s s' t t', whole s = whole s' → view t = view t' →
      whole (put s t) = whole (put s' t')) :
    Lockstep whole (zoom part put x) (zoom part put y) := by
  intro s s' u u' a b same left right
  obtain ⟨t, returned, rfl⟩ := zoom_eq_ok.mp left
  obtain ⟨t', returned', rfl⟩ := zoom_eq_ok.mp right
  obtain ⟨rfl, kept⟩ := inner (parts s s' same) returned returned'
  exact ⟨rfl, puts s s' t t' same kept⟩

/-- Where both return, so do the states that are left behind look the same. -/
theorem Lockstep.final {x y : EStateM ε σ α} {s s' u u' : σ} {a b : α}
    (lockstep : Lockstep view x y) (same : view s = view s') (left : x s = .ok a u)
    (right : y s' = .ok b u') : view (final (x s)) = view (final (y s')) := by
  rw [left, right]
  exact (lockstep same left right).2

end Computations

namespace Run

universe u v w

variable {State State' : Type u} {Label : Type v} {Seen : Type w} {start : State}
  {start' : State'} {step : State → Label → State → Prop}
  {step' : State' → Label → State' → Prop} {view : State → Seen} {view' : State' → Seen}

/-- If every step from a state reached can be answered by one with the same label from a
reached state that looks the same, every run can be answered. -/
theorem lockstep (initial : view start = view' start')
    (answered : ∀ trace state state' label next, Run step start trace state →
      Run step' start' trace state' → view state = view' state' → step state label next →
      ∃ next', step' state' label next' ∧ view next = view' next')
    {trace : List Label} {state : State} (run : Run step start trace state) :
    ∃ state', Run step' start' trace state' ∧ view state = view' state' := by
  induction run with
  | nil => exact ⟨start', nil, initial⟩
  | snoc before taken ih =>
    obtain ⟨state', reached, same⟩ := ih
    obtain ⟨next', answer, seen⟩ := answered _ _ _ _ _ before reached same taken
    exact ⟨next', reached.snoc answer, seen⟩

end Run

end Foundation
