import Mathlib.Algebra.Order.Ring.Int
import Mathlib.Tactic.Ring

/-!
# Integers of a fixed width

An integer is stored in `width` bits by its representative, signed or
unsigned. Sums and products may be narrowed at every step or once at the end,
and passing through a wider type in between changes nothing.
-/

namespace Foundation

/-- The signed number of `width` bits that represents an integer. -/
def signed (width : ℕ) (n : ℤ) : ℤ := n.bmod (2 ^ width)

/-- The unsigned number of `width` bits that represents an integer. -/
def unsigned (width : ℕ) (n : ℤ) : ℕ := (n % 2 ^ width).toNat

section Narrowing

variable {width wider : ℕ} {n m : ℤ}

theorem unsigned_cast (width : ℕ) (n : ℤ) : (unsigned width n : ℤ) = n % 2 ^ width :=
  Int.toNat_of_nonneg (Int.emod_nonneg _ (pow_ne_zero _ two_ne_zero))

theorem signed_emod (fits : width ≤ wider) (n : ℤ) :
    signed width (n % 2 ^ wider) = signed width n := by
  obtain ⟨gap, rfl⟩ := Nat.exists_eq_add_of_le fits
  have split : n % 2 ^ (width + gap) =
      n - ((2 ^ width : ℕ) : ℤ) * (2 ^ gap * (n / 2 ^ (width + gap))) := by
    rw [Int.emod_def, pow_add]
    push_cast
    ring
  rw [signed, split]
  exact Int.sub_mul_bmod_self_left _ _ _

theorem signed_signed : signed width (signed width n) = signed width n := Int.bmod_bmod

theorem signed_signed_add : signed width (signed width n + m) = signed width (n + m) :=
  Int.bmod_add_bmod

theorem signed_signed_mul : signed width (signed width n * m) = signed width (n * m) :=
  Int.bmod_mul_bmod

theorem signed_mul_signed : signed width (n * signed width m) = signed width (n * m) :=
  Int.mul_bmod_bmod

end Narrowing

section Bounds

variable {bits : ℕ} {n : ℤ}

theorem signed_lt (bits : ℕ) (n : ℤ) : signed (bits + 1) n < 2 ^ bits := by
  have below := @Int.bmod_lt n (2 ^ (bits + 1)) (Nat.two_pow_pos _)
  rw [signed]
  push_cast [pow_succ] at below ⊢
  omega

theorem signed_eq_self (lower : -2 ^ bits ≤ n) (upper : n < 2 ^ bits) :
    signed (bits + 1) n = n := by
  rw [signed]
  apply Int.bmod_eq_of_le <;> push_cast [pow_succ] <;> omega

end Bounds

end Foundation
