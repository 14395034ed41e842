import Mathlib.Data.List.Nodup
import Mathlib.Data.Nat.ModEq
import Mathlib.Tactic.Ring

/-!
# Bounded rings as totals

A ring of `capacity` slots is described by two totals that never decrease: the
slots ever written and the slots ever read. The cursors of an implementation
are these totals modulo the capacity, shifted by a fixed origin. As long as one
slot stays free, the totals can be recovered from the cursors.
-/

namespace Foundation

/-- Totals of a ring in which at least one slot is always free. -/
@[ext]
structure RingCount (capacity : ℕ) where
  readTotal : ℕ
  writtenTotal : ℕ
  ordered : readTotal ≤ writtenTotal
  bounded : writtenTotal < readTotal + capacity

namespace RingCount

variable {capacity : ℕ}

def ready (ring : RingCount capacity) : ℕ := ring.writtenTotal - ring.readTotal

theorem ready_lt (ring : RingCount capacity) : ring.ready < capacity := by
  have := ring.ordered
  have := ring.bounded
  unfold ready
  omega

def write (ring : RingCount capacity) (n : ℕ) (room : ring.ready + n < capacity) :
    RingCount capacity where
  readTotal := ring.readTotal
  writtenTotal := ring.writtenTotal + n
  ordered := by have := ring.ordered; omega
  bounded := by have := ring.ordered; unfold ready at room; omega

def read (ring : RingCount capacity) (n : ℕ) (filled : n ≤ ring.ready) :
    RingCount capacity where
  readTotal := ring.readTotal + n
  writtenTotal := ring.writtenTotal
  ordered := by have := ring.ordered; unfold ready at filled; omega
  bounded := by have := ring.bounded; omega

theorem ready_write {ring : RingCount capacity} {n : ℕ} (room : ring.ready + n < capacity) :
    (ring.write n room).ready = ring.ready + n := by
  have := ring.ordered
  simp only [ready, write]
  omega

theorem ready_read {ring : RingCount capacity} {n : ℕ} (filled : n ≤ ring.ready) :
    (ring.read n filled).ready + n = ring.ready := by
  simp only [ready, read] at filled ⊢
  omega

/-- Two writes are one. -/
theorem write_write {ring : RingCount capacity} {n m : ℕ} (room : ring.ready + n < capacity)
    (room' : (ring.write n room).ready + m < capacity)
    (room'' : ring.ready + (n + m) < capacity) :
    (ring.write n room).write m room' = ring.write (n + m) room'' := by
  ext
  · rfl
  · exact Nat.add_assoc _ _ _

theorem read_read {ring : RingCount capacity} {n m : ℕ} (filled : n ≤ ring.ready)
    (filled' : m ≤ (ring.read n filled).ready) (filled'' : n + m ≤ ring.ready) :
    (ring.read n filled).read m filled' = ring.read (n + m) filled'' := by
  ext
  · exact Nat.add_assoc _ _ _
  · rfl

end RingCount

/-- The distance from one cursor to a later one, less than a lap ahead. -/
theorem cursor_distance {capacity first last : ℕ} (ordered : first ≤ last)
    (bounded : last < first + capacity) :
    (capacity + last % capacity - first % capacity) % capacity = last - first := by
  have positive : 0 < capacity := by omega
  have firstLt := Nat.mod_lt first positive
  obtain ⟨gap, rfl⟩ := Nat.exists_eq_add_of_le ordered
  have gapLt : gap < capacity := by omega
  rw [Nat.add_mod, Nat.mod_eq_of_lt gapLt]
  generalize first % capacity = cursor at firstLt ⊢
  rcases Nat.lt_or_ge (cursor + gap) capacity with below | above
  · rw [Nat.mod_eq_of_lt below,
      show capacity + (cursor + gap) - cursor = gap + capacity by omega, Nat.add_mod_right,
      Nat.mod_eq_of_lt gapLt]
    omega
  · have wrapped : (cursor + gap) % capacity = cursor + gap - capacity := by
      rw [Nat.mod_eq_sub_mod above, Nat.mod_eq_of_lt (by omega)]
    rw [wrapped, show capacity + (cursor + gap - capacity) - cursor = gap by omega,
      Nat.mod_eq_of_lt gapLt]
    omega

/-- The same distance as a signed difference corrected by one lap. -/
theorem cursor_signed_distance {capacity first last : ℕ} (ordered : first ≤ last)
    (bounded : last < first + capacity) :
    let d : ℤ := ((last % capacity : ℕ) : ℤ) - (first % capacity : ℕ)
    (if d < 0 then d + capacity else d) = ((last - first : ℕ) : ℤ) := by
  have positive : 0 < capacity := by omega
  have firstLt := Nat.mod_lt first positive
  have lastLt := Nat.mod_lt last positive
  have distance := cursor_distance ordered bounded
  have gapLt : last - first < capacity := by omega
  generalize last % capacity = after at lastLt distance ⊢
  generalize first % capacity = before at firstLt distance ⊢
  dsimp only
  split <;> rename_i sign
  · rw [Nat.mod_eq_of_lt (by omega)] at distance
    omega
  · rw [show capacity + after - before = after - before + capacity by omega,
      Nat.add_mod_right, Nat.mod_eq_of_lt (by omega)] at distance
    omega

/-- Cursors at multiples of a block size move over whole blocks. -/
theorem block_cursor (block blocks index : ℕ) :
    index * block % (block * blocks) = index % blocks * block := by
  rw [mul_comm block blocks, Nat.mul_mod_mul_right]

theorem block_fits {block blocks index : ℕ} (inside : index < blocks) :
    index * block + block ≤ block * blocks := by
  rw [mul_comm block blocks, ← Nat.succ_mul]
  exact Nat.mul_le_mul_right _ inside

/-- Fewer than a full lap of consecutive blocks are pairwise distinct. -/
theorem blocks_nodup {blocks count : ℕ} (first : ℕ) (fits : count ≤ blocks) :
    ((List.range count).map fun index => (first + index) % blocks).Nodup := by
  apply List.nodup_range.map_on
  intro i hi j hj same
  have hi := List.mem_range.mp hi
  have hj := List.mem_range.mp hj
  have congruent : i ≡ j [MOD blocks] := Nat.ModEq.add_left_cancel' first same
  rwa [Nat.ModEq, Nat.mod_eq_of_lt (by omega), Nat.mod_eq_of_lt (by omega)] at congruent

end Foundation
