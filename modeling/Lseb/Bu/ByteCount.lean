import Lseb.Bu.Phases

/-!
# The byte count of a release

The fold of `iovec_length` starts from an `int`, so every partial sum passes
through 32 signed bits before it is a `size_t` again. What comes out is the
total read as a signed 32-bit number and extended to 64 bits.
-/

namespace Lseb

open Foundation

/-- The bytes that a vector describes. -/
def totalLength (iov : List Iovec) : ℕ := (iov.map Iovec.iovLen).sum

/-- The totals that the sign extension of their last 32 bits brings back. -/
def Extends (total : ℕ) : Prop := total < 2 ^ 31 ∨ 2 ^ 64 - 2 ^ 31 ≤ total

/-- The totals whose extensions add up to that of their sum. -/
def ExtendsSum (first second : ℕ) : Prop :=
  first % 2 ^ 32 + second % 2 ^ 32 < 2 ^ 31 ∨
    (2 ^ 31 ≤ first % 2 ^ 32 ∨ 2 ^ 31 ≤ second % 2 ^ 32) ∧
      first % 2 ^ 32 + second % 2 ^ 32 < 2 ^ 32

/-- The totals whose extensions add up to that of their sum in 64 bits. -/
def WrapsSum (first second : ℕ) : Prop :=
  first % 2 ^ 32 + second % 2 ^ 32 < 2 ^ 31 ∨
    (first % 2 ^ 32 < 2 ^ 31 ↔ 2 ^ 31 ≤ second % 2 ^ 32) ∨
      3 * 2 ^ 31 ≤ first % 2 ^ 32 + second % 2 ^ 32

section Counts

variable {iov first second : List Iovec}

theorem totalLength_append :
    totalLength (first ++ second) = totalLength first + totalLength second := by
  simp [totalLength]

/-- One step of the fold: what is added in 64 bits is narrowed to 32. -/
theorem toInt_step (partialSum : ℤ) (n : ℕ) :
    toInt ((toSize partialSum + n) % 2 ^ 64) = signed 32 (partialSum + n) := by
  have wrapped : (((toSize partialSum + n) % 2 ^ 64 : ℕ) : ℤ) = (partialSum + n) % 2 ^ 64 := by
    rw [toSize_eq_unsigned, Int.natCast_mod, Nat.cast_add, unsigned_cast]
    exact Int.emod_add_emod _ _ _
  rw [toInt_eq_signed, wrapped, signed_emod (by decide)]

theorem foldl_signed {partialSum : ℤ} (narrow : signed 32 partialSum = partialSum) :
    iov.foldl (fun total v => toInt ((toSize total + v.iovLen) % 2 ^ 64)) partialSum =
      signed 32 (partialSum + totalLength iov) := by
  induction iov generalizing partialSum with
  | nil => simpa [totalLength] using narrow.symm
  | cons v iov ih =>
    have shifted : partialSum + (v.iovLen : ℤ) + (totalLength iov : ℤ) =
        partialSum + (totalLength (v :: iov) : ℤ) := by
      simp only [totalLength, List.map_cons, List.sum_cons, Nat.cast_add]
      ring
    rw [List.foldl_cons, toInt_step, ih signed_signed, signed_signed_add, shifted]

/-- The length that is computed is the total, narrowed and extended again. -/
theorem iovecLength_eq (iov : List Iovec) :
    iovecLength iov = unsigned 64 (signed 32 (totalLength iov)) := by
  rw [iovecLength, foldl_signed rfl, zero_add]
  rfl

/-- The last 32 bits, with copies of their sign in front. -/
theorem extend_eq (total : ℕ) : unsigned 64 (signed 32 total) =
    if total % 2 ^ 32 < 2 ^ 31 then total % 2 ^ 32 else 2 ^ 64 - 2 ^ 32 + total % 2 ^ 32 := by
  unfold unsigned signed Int.bmod
  dsimp only
  split_ifs <;> omega

theorem extend_eq_iff {total : ℕ} (small : total < 2 ^ 64) :
    unsigned 64 (signed 32 total) = total ↔ Extends total := by
  rw [extend_eq, Extends]
  split_ifs <;> omega

theorem extend_add_iff {total other : ℕ} :
    unsigned 64 (signed 32 (total + other : ℕ)) =
      unsigned 64 (signed 32 total) + unsigned 64 (signed 32 other) ↔ ExtendsSum total other := by
  rw [extend_eq, extend_eq, extend_eq, Nat.add_mod, ExtendsSum]
  have firstLt := Nat.mod_lt total (Nat.two_pow_pos 32)
  have secondLt := Nat.mod_lt other (Nat.two_pow_pos 32)
  generalize total % 2 ^ 32 = first at firstLt ⊢
  generalize other % 2 ^ 32 = second at secondLt ⊢
  split_ifs <;> omega

theorem extend_add_mod_iff {total other : ℕ} :
    unsigned 64 (signed 32 (total + other : ℕ)) =
      (unsigned 64 (signed 32 total) + unsigned 64 (signed 32 other)) % 2 ^ 64 ↔
        WrapsSum total other := by
  rw [extend_eq, extend_eq, extend_eq, Nat.add_mod, WrapsSum]
  have firstLt := Nat.mod_lt total (Nat.two_pow_pos 32)
  have secondLt := Nat.mod_lt other (Nat.two_pow_pos 32)
  generalize total % 2 ^ 32 = first at firstLt ⊢
  generalize other % 2 ^ 32 = second at secondLt ⊢
  split_ifs <;> omega

theorem releaseData_bytes {t : Transport} {refused : ℕ → Option String} {id n bytes : ℕ}
    {bu bu' : BuilderUnit} (released : BuilderUnit.releaseData t refused id n bu = .ok bytes bu') :
    bytes = iovecLength ((bu.mDataVect id).take n) := by
  rw [BuilderUnit.releaseData, estate_get_bind] at released
  obtain ⟨_, middle, _, released⟩ := estate_bind_eq_ok.mp released
  rw [estate_modify_bind, estate_get_bind] at released
  obtain ⟨_, _, _, returned⟩ := estate_bind_eq_ok.mp released
  cases returned
  rfl

/-- The length computed is the total exactly when the sign extension restores it,
and so is the byte count that a release returns. -/
theorem iovecLength_exact_iff (iov first second : List Iovec) (t : Transport)
    (refused : ℕ → Option String) (id n : ℕ) (bu : BuilderUnit) :
    (totalLength iov < 2 ^ 64 →
        (iovecLength iov = totalLength iov ↔ Extends (totalLength iov))) ∧
      (totalLength (first ++ second) < 2 ^ 64 →
        (iovecLength (first ++ second) = iovecLength first + iovecLength second ↔
          ExtendsSum (totalLength first) (totalLength second)) ∧
        (iovecLength (first ++ second) = (iovecLength first + iovecLength second) % 2 ^ 64 ↔
          WrapsSum (totalLength first) (totalLength second))) ∧
      ∀ bytes bu', BuilderUnit.releaseData t refused id n bu = .ok bytes bu' →
        totalLength ((bu.mDataVect id).take n) < 2 ^ 64 →
        (bytes = totalLength ((bu.mDataVect id).take n) ↔
          Extends (totalLength ((bu.mDataVect id).take n))) := by
  refine ⟨?_, ?_, ?_⟩
  · intro small
    rw [iovecLength_eq, extend_eq_iff small]
  · intro _
    rw [iovecLength_eq, iovecLength_eq, iovecLength_eq, totalLength_append]
    exact ⟨extend_add_iff, extend_add_mod_iff⟩
  · intro bytes bu' released small
    rw [releaseData_bytes released, iovecLength_eq, extend_eq_iff small]

/-- Two buffers of a gigabyte each are counted as `2 ^ 64 - 2 ^ 31` bytes. -/
theorem iovecLength_not_exact :
    ¬∀ iov, totalLength iov < 2 ^ 64 → iovecLength iov = totalLength iov := by
  intro exact
  have counted := exact [⟨0, 2 ^ 30⟩, ⟨2 ^ 30, 2 ^ 30⟩] (by decide)
  revert counted
  decide

end Counts

end Lseb
