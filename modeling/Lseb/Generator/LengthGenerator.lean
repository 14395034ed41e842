import Mathlib.Data.Nat.Basic
import Mathlib.Tactic.SplitIfs
import Lseb.Common.Exception

/-!
# Payload lengths

The samples of the normal distribution are arbitrary, except that a
distribution without deviation only ever yields its mean. What is returned is
the sample clamped between the two limits.
-/

namespace Lseb

structure LengthGenerator where
  mMean : ℕ
  mStddev : ℕ
  mMax : ℕ
  mMin : ℕ
  deriving DecidableEq, Repr

namespace LengthGenerator

def construct (mean stddev max min : ℕ) : Except Error LengthGenerator := do
  let mMax := if max ≠ 0 then max else mean + 5 * stddev
  let mMin := if stddev ≠ 0 then min else mean
  assertThat (mMin ≤ mean ∧ mean ≤ mMax) "m_min <= mean && mean <= m_max"
  return ⟨mean, stddev, mMax, mMin⟩

def clamp (value lo hi : ℕ) : ℕ :=
  if value < lo then lo else if hi < value then hi else value

def generate (generator : LengthGenerator) (sample : ℕ) : ℕ :=
  clamp sample generator.mMin generator.mMax

/-- The sequences of lengths that successive calls of `generate` can return. -/
def Returns (generator : LengthGenerator) (draws : ℕ → ℕ) : Prop :=
  ∃ samples : ℕ → ℕ, ∀ call, (generator.mStddev = 0 → samples call = generator.mMean) ∧
    draws call = generator.generate (samples call)

theorem clamp_le {value lo hi : ℕ} (ordered : lo ≤ hi) : clamp value lo hi ≤ hi := by
  unfold clamp
  split_ifs <;> omega

theorem le_clamp {value lo hi : ℕ} (ordered : lo ≤ hi) : lo ≤ clamp value lo hi := by
  unfold clamp
  split_ifs <;> omega

theorem clamp_of_mem {value lo hi : ℕ} (lower : lo ≤ value) (upper : value ≤ hi) :
    clamp value lo hi = value := by
  unfold clamp
  split_ifs <;> omega

theorem construct_eq_ok {mean stddev max min : ℕ} {generator : LengthGenerator}
    (h : construct mean stddev max min = .ok generator) :
    generator = ⟨mean, stddev, if max ≠ 0 then max else mean + 5 * stddev,
      if stddev ≠ 0 then min else mean⟩ ∧
      generator.mMin ≤ mean ∧ mean ≤ generator.mMax := by
  obtain ⟨_, checked, returned⟩ := bind_eq_ok.mp h
  have limits := assertThat_eq_ok.mp checked
  cases returned
  exact ⟨rfl, limits⟩

theorem Returns.bounds {generator : LengthGenerator} {draws : ℕ → ℕ}
    (returns : generator.Returns draws) (limits : generator.mMin ≤ generator.mMax) (call : ℕ) :
    generator.mMin ≤ draws call ∧ draws call ≤ generator.mMax := by
  obtain ⟨samples, returned⟩ := returns
  rw [(returned call).2]
  exact ⟨le_clamp limits, clamp_le limits⟩

/-- With a deviation, every sequence within the limits can be returned. -/
theorem returns_of_bounds {generator : LengthGenerator} {draws : ℕ → ℕ}
    (deviates : generator.mStddev ≠ 0)
    (bounds : ∀ call, generator.mMin ≤ draws call ∧ draws call ≤ generator.mMax) :
    generator.Returns draws :=
  ⟨draws, fun call => ⟨fun none => absurd none deviates,
    (clamp_of_mem (bounds call).1 (bounds call).2).symm⟩⟩

end LengthGenerator

end Lseb
