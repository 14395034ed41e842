import Mathlib.Data.Int.Order.Lemmas
import Mathlib.Tactic.Linarith
import Lseb.Common.Exception
import Lseb.Foundation.RingCount

/-!
# Ranges and cursors in a ring

Pointers are element positions and `ssize_t` arithmetic is on integers, with
the truncating remainder of the language. A range may be a wrapped sub-range,
whose begin lies behind its end.
-/

namespace Lseb

structure Range where
  mBegin : ℕ
  mEnd : ℕ
  deriving DecidableEq, Repr

def validateSubrange (subRange range : Range) : Except Error Unit := do
  assertThat (range.mBegin ≤ range.mEnd) "std::begin(range) <= std::end(range)"
  assertThat (subRange.mBegin ≥ range.mBegin ∧ subRange.mBegin ≤ range.mEnd)
    "std::begin(sub_range) >= std::begin(range) && std::begin(sub_range) <= std::end(range)"
  assertThat (subRange.mEnd ≥ range.mBegin ∧ subRange.mEnd ≤ range.mEnd)
    "std::end(sub_range) >= std::begin(range) && std::end(sub_range) <= std::end(range)"

def distanceInRange (subRange range : Range) : Except Error ℕ := do
  validateSubrange subRange range
  let d : ℤ := (subRange.mEnd : ℤ) - subRange.mBegin
  return (if d < 0 then d + ((range.mEnd : ℤ) - range.mBegin) else d).toNat

def advanceInRange (current : ℕ) (advance : ℤ) (range : Range) : Except Error ℕ := do
  assertThat (range.mBegin ≤ current ∧ current < range.mEnd)
    "std::begin(range) <= current && current < std::end(range)"
  let size : ℤ := (range.mEnd : ℤ) - range.mBegin
  let offset := ((current : ℤ) - range.mBegin + advance).tmod size
  return ((range.mBegin : ℤ) + offset + (if offset < 0 then size else 0)).toNat

/-- `std::find_if`: the first position in `[first, last)` that satisfies `op`, else `last`. -/
def findIf (first last : ℕ) (op : ℕ → Bool) : ℕ :=
  ((List.range' first (last - first)).find? op).getD last

def findInRange (subRange range : Range) (op : ℕ → Bool) : Except Error ℕ := do
  validateSubrange subRange range
  if subRange.mBegin < subRange.mEnd then
    return findIf subRange.mBegin subRange.mEnd op
  else
    let it := findIf subRange.mBegin range.mEnd op
    return if it = range.mEnd then findIf range.mBegin subRange.mEnd op else it

/-- `std::accumulate` over the positions in `[first, last)`. -/
def accumulate {β : Type} (first last : ℕ) (init : β) (op : β → ℕ → β) : β :=
  (List.range' first (last - first)).foldl op init

def accumulateInRange {β : Type} (subRange range : Range) (init : β) (op : β → ℕ → β) :
    Except Error β := do
  validateSubrange subRange range
  if subRange.mBegin < subRange.mEnd then
    return accumulate subRange.mBegin subRange.mEnd init op
  else
    let init := accumulate subRange.mBegin range.mEnd init op
    return accumulate range.mBegin subRange.mEnd init op

theorem validateSubrange_ok {subRange range : Range} (ordered : range.mBegin ≤ range.mEnd)
    (first : range.mBegin ≤ subRange.mBegin ∧ subRange.mBegin ≤ range.mEnd)
    (last : range.mBegin ≤ subRange.mEnd ∧ subRange.mEnd ≤ range.mEnd) :
    validateSubrange subRange range = .ok () := by
  simp [validateSubrange, assertThat, ordered, first, last]

/-- The truncating remainder with its correction is the remainder of Euclid. -/
theorem tmod_corrected (a : ℤ) {size : ℤ} (positive : 0 < size) :
    a.tmod size + (if a.tmod size < 0 then size else 0) = a % size := by
  have bounds := Int.emod_nonneg a positive.ne'
  have := Int.emod_lt_of_pos a positive
  have := Int.tmod_add_mul_tdiv a size
  have := Int.emod_add_mul_ediv a size
  rw [Int.tmod_eq_emod]
  split_ifs <;> omega

theorem advanceInRange_eq {current : ℕ} {advance : ℤ} {range : Range}
    (inside : range.mBegin ≤ current ∧ current < range.mEnd) :
    advanceInRange current advance range = .ok (range.mBegin +
      (((current : ℤ) - range.mBegin + advance) % ((range.mEnd : ℤ) - range.mBegin)).toNat) := by
  have positive : 0 < (range.mEnd : ℤ) - range.mBegin := by omega
  have corrected := tmod_corrected ((current : ℤ) - range.mBegin + advance) positive
  have nonneg := Int.emod_nonneg ((current : ℤ) - range.mBegin + advance) positive.ne'
  simp only [advanceInRange, assertThat_of inside, ok_bind, add_assoc, corrected]
  simp only [pure, Except.pure, Except.ok.injEq]
  omega

/-- On a ring of `size` slots, advancing is addition modulo the size. -/
theorem advanceInRange_add {size current : ℕ} (n : ℕ) (inside : current < size) :
    advanceInRange current n ⟨0, size⟩ = .ok ((current + n) % size) := by
  rw [advanceInRange_eq ⟨Nat.zero_le _, inside⟩]
  have cast : ((current : ℤ) + n) % size = ((current + n) % size : ℕ) := by push_cast; rfl
  simp only [Nat.cast_zero, sub_zero, zero_add, cast, Int.toNat_natCast]

theorem advanceInRange_back {size current : ℕ} (inside : current < size) :
    advanceInRange current (-1) ⟨0, size⟩ = .ok ((current + size - 1) % size) := by
  rw [advanceInRange_eq ⟨Nat.zero_le _, inside⟩]
  have shifted : ((current : ℤ) + -1) % size = ((current + size - 1 : ℕ) : ℤ) % size := by
    rw [← Int.add_emod_right]
    congr 1
    omega
  have cast : ((current + size - 1 : ℕ) : ℤ) % size = ((current + size - 1) % size : ℕ) := by
    push_cast; rfl
  simp only [Nat.cast_zero, sub_zero, zero_add, shifted, cast, Int.toNat_natCast]

/-- Between two cursors of one ring, less than a lap apart, the distance is the
difference of the totals behind them. -/
theorem distanceInRange_cursors {size first last : ℕ} (ordered : first ≤ last)
    (bounded : last < first + size) :
    distanceInRange ⟨first % size, last % size⟩ ⟨0, size⟩ = .ok (last - first) := by
  have positive : 0 < size := by omega
  have firstLt := Nat.mod_lt first positive
  have lastLt := Nat.mod_lt last positive
  have distance := Foundation.cursor_signed_distance ordered bounded
  rw [distanceInRange, validateSubrange_ok (Nat.zero_le _) ⟨Nat.zero_le _, firstLt.le⟩
    ⟨Nat.zero_le _, lastLt.le⟩]
  simp only [ok_bind, Nat.cast_zero, sub_zero] at distance ⊢
  rw [distance]
  rfl

/-- A search that no element of the sub-range stops ends at its end. -/
theorem findIf_none {first last : ℕ} {op : ℕ → Bool}
    (none : ∀ position, first ≤ position → position < last → op position = false) :
    findIf first last op = last := by
  have absent : (List.range' first (last - first)).find? op = Option.none := by
    rw [List.find?_eq_none]
    intro position member
    have := List.mem_range'_1.mp member
    simp [none position (by omega) (by omega)]
  simp [findIf, absent]

end Lseb
