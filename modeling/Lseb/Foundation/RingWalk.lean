import Mathlib.Data.List.Basic

/-!
# Walks around a ring

The slots that a cursor passes on its way around a ring, in order. A walk that
gets to the end of the ring goes on at slot zero, so that less than a lap is
one stretch of consecutive slots, or two.
-/

namespace Foundation

/-- So many slots of a ring of `size`, from slot `first` on. -/
def ringWalk (size first count : ℕ) : List ℕ :=
  (List.range count).map fun step => (first + step) % size

section Walks

variable {size first count more : ℕ}

@[simp] theorem ringWalk_length : (ringWalk size first count).length = count := by
  simp [ringWalk]

theorem ringWalk_add : ringWalk size first (count + more) =
    ringWalk size first count ++ ringWalk size (first + count) more := by
  simp [ringWalk, List.range_add, Nat.add_assoc]

theorem ringWalk_lap : ringWalk size (first + size) count = ringWalk size first count := by
  simp only [ringWalk, Nat.add_right_comm first size, Nat.add_mod_right]

/-- A walk that stays in front of the end. -/
theorem ringWalk_plain (inside : first + count ≤ size) :
    ringWalk size first count = List.range' first count := by
  rw [List.range'_eq_map_range]
  apply List.map_congr_left
  intro step member
  have := List.mem_range.mp member
  exact Nat.mod_eq_of_lt (by omega)

/-- A walk that goes on at the beginning. -/
theorem ringWalk_wrapped (inside : first ≤ size) (below : more ≤ size) :
    ringWalk size first (size - first + more) =
      List.range' first (size - first) ++ List.range' 0 more := by
  have lap : first + (size - first) = 0 + size := by omega
  rw [ringWalk_add, ringWalk_plain (by omega), lap, ringWalk_lap, ringWalk_plain (by omega)]

end Walks

end Foundation
