import Lseb.Common.Range
import Lseb.Foundation.RingWalk

/-!
# Moving and searching in a ring

Advancing a cursor is addition modulo the size, and the distance to it is the
remainder. A search or a sum over a sub-range passes the slots that the
distance counts, in the order of the ring, but takes a sub-range that begins
where it ends for the whole ring.
-/

namespace Lseb

open Foundation

section Cursors

variable {range : Range} {current p q : ℕ}

/-- The size of a range, as `std::distance` has it. -/
def Range.size (range : Range) : ℤ := (range.mEnd : ℤ) - range.mBegin

/-- The position of a slot that is given by any integer, modulo the size. -/
def Range.slot (range : Range) (n : ℤ) : ℕ := range.mBegin + (n % range.size).toNat

theorem advanceInRange_slot (inside : range.mBegin ≤ current ∧ current < range.mEnd)
    (advance : ℤ) : advanceInRange current advance range =
      .ok (range.slot ((current : ℤ) - range.mBegin + advance)) :=
  advanceInRange_eq inside

section Slots

variable (nonempty : range.mBegin < range.mEnd)

include nonempty

theorem Range.slot_inside (n : ℤ) :
    range.mBegin ≤ range.slot n ∧ range.slot n < range.mEnd := by
  have positive : 0 < range.size := by
    unfold Range.size
    omega
  have nonneg := Int.emod_nonneg n positive.ne'
  have below := Int.emod_lt_of_pos n positive
  simp only [Range.slot, Range.size] at *
  omega

theorem Range.slot_offset (n : ℤ) :
    ((range.slot n : ℕ) : ℤ) - range.mBegin = n % range.size := by
  have positive : 0 < range.size := by
    unfold Range.size
    omega
  have nonneg := Int.emod_nonneg n positive.ne'
  rw [Range.slot]
  omega

theorem Range.slot_add_slot (n m : ℤ) :
    range.slot (((range.slot n : ℕ) : ℤ) - range.mBegin + m) = range.slot (n + m) := by
  rw [range.slot_offset nonempty, Range.slot, Int.emod_add_emod, Range.slot]

end Slots

theorem Range.slot_of_inside (inside : range.mBegin ≤ current ∧ current < range.mEnd) (laps : ℤ) :
    range.slot ((current : ℤ) - range.mBegin + laps * range.size) = current := by
  have below : (current : ℤ) - range.mBegin < range.size := by
    unfold Range.size
    omega
  have small := Int.emod_eq_of_lt (by omega : 0 ≤ (current : ℤ) - range.mBegin) below
  rw [Range.slot, Int.add_mul_emod_self_right, small]
  omega

/-- The distance between two positions is the smallest advance from one to the other. -/
theorem distanceInRange_inside (first : range.mBegin ≤ p ∧ p < range.mEnd)
    (last : range.mBegin ≤ q ∧ q < range.mEnd) :
    distanceInRange ⟨p, q⟩ range = .ok (((q : ℤ) - p) % range.size).toNat := by
  have valid := @validateSubrange_ok ⟨p, q⟩ range (by omega) ⟨first.1, first.2.le⟩
    ⟨last.1, last.2.le⟩
  rw [distanceInRange, valid, ok_bind]
  simp only [pure, Except.pure, Except.ok.injEq]
  congr 1
  split_ifs with behind
  · rw [← Int.add_emod_right, Range.size, Int.emod_eq_of_lt (by omega) (by omega)]
  · rw [Range.size, Int.emod_eq_of_lt (by omega) (by omega)]

/-- Cursors in a ring are positions modulo the size, whatever the signs, and the
distance is what is left of an advance. -/
theorem advanceInRange_algebra (inside : range.mBegin ≤ current ∧ current < range.mEnd) :
    (∀ a : ℤ, ∃ next, advanceInRange current a range = .ok next ∧
        range.mBegin ≤ next ∧ next < range.mEnd) ∧
      (∀ a b : ℤ, (advanceInRange current a range >>= fun next => advanceInRange next b range) =
        advanceInRange current (a + b) range) ∧
      (∀ laps : ℤ, advanceInRange current (laps * range.size) range = .ok current) ∧
      (∀ k : ℕ, (advanceInRange current k range >>= fun next =>
        distanceInRange ⟨current, next⟩ range) = .ok (k % (range.mEnd - range.mBegin))) ∧
      ∀ p q, range.mBegin ≤ p ∧ p < range.mEnd → range.mBegin ≤ q ∧ q < range.mEnd →
        (distanceInRange ⟨p, q⟩ range >>= fun d => advanceInRange p d range) = .ok q := by
  have nonempty : range.mBegin < range.mEnd := inside.1.trans_lt inside.2
  refine ⟨?_, ?_, ?_, ?_, ?_⟩
  · intro a
    exact ⟨_, advanceInRange_slot inside a, range.slot_inside nonempty _⟩
  · intro a b
    rw [advanceInRange_slot inside, ok_bind,
      advanceInRange_slot (range.slot_inside nonempty _), range.slot_add_slot nonempty, add_assoc,
      advanceInRange_slot inside]
  · intro laps
    rw [advanceInRange_slot inside, range.slot_of_inside inside]
  · intro k
    have size : range.size = ((range.mEnd - range.mBegin : ℕ) : ℤ) := by
      unfold Range.size
      omega
    have offset := range.slot_offset nonempty ((current : ℤ) - range.mBegin + k)
    have gap : ((range.slot ((current : ℤ) - range.mBegin + k) : ℕ) : ℤ) - current =
        ((current : ℤ) - range.mBegin + k) % range.size - ((current : ℤ) - range.mBegin) := by
      omega
    rw [advanceInRange_slot inside, ok_bind,
      distanceInRange_inside inside (range.slot_inside nonempty _), gap, Int.emod_sub_emod,
      add_sub_cancel_left, size]
    rfl
  · intro p q first last
    have positive : 0 < range.size := by
      unfold Range.size
      omega
    have nonneg := Int.emod_nonneg ((q : ℤ) - p) positive.ne'
    have start : (p : ℤ) - range.mBegin + (((q : ℤ) - p) % range.size).toNat =
        (p : ℤ) - range.mBegin + ((q : ℤ) - p) % range.size := by
      rw [Int.toNat_of_nonneg nonneg]
    have target : (p : ℤ) - range.mBegin + ((q : ℤ) - p) =
        (q : ℤ) - range.mBegin + 0 * range.size := by
      ring
    rw [distanceInRange_inside first last, ok_bind, advanceInRange_slot first, start, Range.slot,
      Int.add_emod_emod, target]
    congr 1
    exact range.slot_of_inside last 0

/-- A ring of five positions from 10 on, left backwards from position 12. -/
theorem advanceInRange_algebra_five :
    (∀ a : ℤ, ∃ next, advanceInRange 12 a ⟨10, 15⟩ = .ok next ∧ 10 ≤ next ∧ next < 15) ∧
      advanceInRange 12 (-7) ⟨10, 15⟩ = .ok 10 :=
  ⟨(@advanceInRange_algebra ⟨10, 15⟩ 12 (by decide)).1, by decide⟩

end Cursors

section Traversals

variable {subRange range : Range} {β : Type}

/-- So many positions of a range in ring order, from the begin of the sub-range on. -/
def ringOrder (subRange range : Range) (count : ℕ) : List ℕ :=
  (ringWalk (range.mEnd - range.mBegin) (subRange.mBegin - range.mBegin) count).map
    (range.mBegin + ·)

/-- The positions that the traversals pass. -/
def visited (subRange range : Range) : List ℕ :=
  if subRange.mBegin < subRange.mEnd then
    List.range' subRange.mBegin (subRange.mEnd - subRange.mBegin)
  else
    List.range' subRange.mBegin (range.mEnd - subRange.mBegin) ++
      List.range' range.mBegin (subRange.mEnd - range.mBegin)

/-- Sums and searches pass as many positions as the distance counts. -/
structure TraversalsAgree (subRange range : Range) (count : ℕ) : Prop where
  distance : distanceInRange subRange range = .ok count
  accumulates : ∀ (β : Type) (init : β) (op : β → ℕ → β),
    accumulateInRange subRange range init op = .ok ((ringOrder subRange range count).foldl op init)
  finds : ∀ op, findInRange subRange range op =
    .ok (((ringOrder subRange range count).find? op).getD subRange.mEnd)

theorem validateSubrange_eq_ok : validateSubrange subRange range = .ok () ↔
    range.mBegin ≤ range.mEnd ∧
      (subRange.mBegin ≥ range.mBegin ∧ subRange.mBegin ≤ range.mEnd) ∧
      (subRange.mEnd ≥ range.mBegin ∧ subRange.mEnd ≤ range.mEnd) := by
  simp [validateSubrange, bind_eq_ok]

theorem accumulateInRange_eq (valid : validateSubrange subRange range = .ok ()) (init : β)
    (op : β → ℕ → β) :
    accumulateInRange subRange range init op = .ok ((visited subRange range).foldl op init) := by
  rw [accumulateInRange, valid, ok_bind, visited]
  split_ifs
  · rfl
  · rw [List.foldl_append]
    rfl

/-- The iterator of the first part is a position unless that part is passed. -/
theorem findInRange_eq (valid : validateSubrange subRange range = .ok ()) (op : ℕ → Bool) :
    findInRange subRange range op =
      .ok (((visited subRange range).find? op).getD subRange.mEnd) := by
  rw [findInRange, valid, ok_bind, visited]
  split_ifs
  · rfl
  · rw [List.find?_append]
    dsimp only
    cases found : (List.range' subRange.mBegin (range.mEnd - subRange.mBegin)).find? op with
    | none =>
      have passed : findIf subRange.mBegin range.mEnd op = range.mEnd := by
        rw [findIf, found]
        rfl
      rw [passed, if_pos rfl]
      rfl
    | some position =>
      have member := List.mem_range'_1.mp (List.mem_of_find?_eq_some found)
      have here : findIf subRange.mBegin range.mEnd op = position := by
        rw [findIf, found]
        rfl
      rw [here, if_neg (by omega)]
      rfl

theorem distanceInRange_eq (valid : validateSubrange subRange range = .ok ()) :
    distanceInRange subRange range = .ok (if subRange.mEnd < subRange.mBegin then
      range.mEnd - subRange.mBegin + (subRange.mEnd - range.mBegin)
    else subRange.mEnd - subRange.mBegin) := by
  obtain ⟨_, first, last⟩ := validateSubrange_eq_ok.mp valid
  rw [distanceInRange, valid, ok_bind]
  simp only [pure, Except.pure, Except.ok.injEq]
  split_ifs <;> omega

/-- A sub-range that does not begin where it ends is passed as far as its distance goes. -/
theorem visited_eq (valid : validateSubrange subRange range = .ok ())
    (proper : subRange.mBegin ≠ subRange.mEnd ∨ range.mBegin = range.mEnd) :
    visited subRange range = ringOrder subRange range (if subRange.mEnd < subRange.mBegin then
      range.mEnd - subRange.mBegin + (subRange.mEnd - range.mBegin)
    else subRange.mEnd - subRange.mBegin) := by
  obtain ⟨_, first, last⟩ := validateSubrange_eq_ok.mp valid
  have start : range.mBegin + (subRange.mBegin - range.mBegin) = subRange.mBegin := by omega
  rw [visited, ringOrder]
  by_cases plain : subRange.mBegin < subRange.mEnd
  · rw [if_pos plain, if_neg plain.le.not_gt, ringWalk_plain (by omega), List.map_add_range', start]
  · rw [if_neg plain]
    by_cases wrapped : subRange.mEnd < subRange.mBegin
    · have split : range.mEnd - subRange.mBegin =
          range.mEnd - range.mBegin - (subRange.mBegin - range.mBegin) := by omega
      rw [if_pos wrapped, split, ringWalk_wrapped (by omega) (by omega), List.map_append,
        List.map_add_range', List.map_add_range', start, add_zero]
    · have empty : range.mBegin = range.mEnd := proper.resolve_left (by omega)
      have here : subRange.mBegin = range.mEnd := by omega
      have there : subRange.mEnd = range.mBegin := by omega
      simp [here, there, empty, ringWalk]

/-- A sub-range that begins where it ends is passed as the whole ring. -/
theorem visited_length (valid : validateSubrange subRange range = .ok ())
    (empty : subRange.mBegin = subRange.mEnd) :
    (visited subRange range).length = range.mEnd - range.mBegin := by
  obtain ⟨_, first, last⟩ := validateSubrange_eq_ok.mp valid
  rw [visited, if_neg empty.not_lt, List.length_append, List.length_range', List.length_range']
  omega

/-- The traversals agree with the distance on every sub-range but an empty one of a
range that is not. -/
theorem traversals_agree_iff (valid : validateSubrange subRange range = .ok ()) :
    (∃ count, TraversalsAgree subRange range count) ↔
      subRange.mBegin ≠ subRange.mEnd ∨ range.mBegin = range.mEnd := by
  constructor
  · rintro ⟨count, distance, accumulates, _⟩
    by_contra improper
    obtain ⟨empty, nonempty⟩ := not_or.mp improper
    have empty := not_not.mp empty
    have counted := accumulates ℕ 0 fun total _ => total + 1
    rw [accumulateInRange_eq valid, Except.ok.injEq, List.foldl_add_const, List.foldl_add_const,
      visited_length valid empty] at counted
    have zero : count = 0 := by
      have := (distanceInRange_eq valid).symm.trans distance
      rw [if_neg empty.not_gt, empty, Nat.sub_self] at this
      exact (Except.ok.inj this).symm
    have ordered := (validateSubrange_eq_ok.mp valid).1
    simp [zero, ringOrder] at counted
    omega
  · intro proper
    have same := visited_eq valid proper
    refine ⟨_, distanceInRange_eq valid, ?_, ?_⟩
    · intro β init op
      rw [accumulateInRange_eq valid, same]
    · intro op
      rw [findInRange_eq valid, same]

/-- The last position and the first one of a ring of five. -/
theorem traversals_agree_wrapped : ∃ count, TraversalsAgree ⟨14, 11⟩ ⟨10, 15⟩ count :=
  (traversals_agree_iff (by decide)).mpr (by decide)

/-- An empty sub-range at position 12: all five positions are counted. -/
theorem not_traversals_agree : ¬∀ subRange range, validateSubrange subRange range = .ok () →
    ∃ count, TraversalsAgree subRange range count := by
  intro always
  obtain ⟨count, distance, accumulates, _⟩ := always ⟨12, 12⟩ ⟨10, 15⟩ (by decide)
  cases distance
  have counted := accumulates ℕ 0 fun total _ => total + 1
  revert counted
  decide

end Traversals

end Lseb
