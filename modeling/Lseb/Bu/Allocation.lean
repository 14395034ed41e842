import Lseb.Bu.BuilderUnit
import Lseb.Generator.SelfDescription

/-!
# The memory of the posted chunks

The builder unit allocates a product of four `int`s and cuts the chunks out of
it with products of `size_t`. The two agree as long as the first one does not
wrap around.
-/

namespace Lseb

open Foundation

namespace BuilderUnit

variable {bu : BuilderUnit} {i i' j j' : ℕ}

theorem chunk_eq : bu.chunk i j = bu.mDataPtr + (i * bu.mCredits + j) * bu.chunkSize := by
  unfold chunk
  ring

/-- Different chunks do not overlap. -/
theorem chunk_apart (inside : j < bu.mCredits) (inside' : j' < bu.mCredits)
    (differ : i ≠ i' ∨ j ≠ j') : bu.chunk i j + bu.chunkSize ≤ bu.chunk i' j' ∨
      bu.chunk i' j' + bu.chunkSize ≤ bu.chunk i j := by
  have apart : i * bu.mCredits + j ≠ i' * bu.mCredits + j' := by
    intro same
    have quotient := congrArg (· / bu.mCredits) same
    have remainder := congrArg (· % bu.mCredits) same
    have positive : 0 < bu.mCredits := Nat.zero_lt_of_lt inside
    simp only [Nat.mul_add_mod', Nat.mod_eq_of_lt inside, Nat.mod_eq_of_lt inside'] at remainder
    simp only [Nat.add_comm (_ * _), Nat.add_mul_div_right _ _ positive,
      Nat.div_eq_of_lt inside, Nat.div_eq_of_lt inside', Nat.zero_add] at quotient
    exact differ.elim (absurd quotient) (absurd remainder)
  have step : ∀ {low high : ℕ}, low < high → low * bu.chunkSize + bu.chunkSize ≤
      high * bu.chunkSize := by
    intro low high less
    rw [← Nat.succ_mul]
    exact Nat.mul_le_mul_right _ less
  rw [chunk_eq, chunk_eq]
  rcases Nat.lt_or_gt_of_ne apart with before | after
  · have := step before
    omega
  · have := step after
    omega

/-- Chunks are as aligned as the memory they are cut from. -/
theorem chunk_aligned (start : bu.mDataPtr % 8 = 0) (size : bu.chunkSize % 8 = 0) :
    bu.chunk i j % 8 = 0 := by
  rw [chunk_eq, Nat.add_mod, start, Nat.mul_mod, size]
  rfl

end BuilderUnit

/-- A product of two 32-bit `int`s. -/
def intMul (a b : ℤ) : ℤ := signed 32 (a * b)

namespace Configuration

section Definitions

variable (c : Configuration) (nodes : ℕ)

/-- The bytes that the builder unit asks for. -/
def allocatedSize : ℤ :=
  intMul (intMul (intMul c.maxFragmentSize c.bulkSize) c.credits) (toInt nodes)

/-- The `chunk_size` of the posted buffers, converted from `int`. -/
def postedSize : ℕ := toSize (intMul c.maxFragmentSize c.bulkSize)

/-- Where the chunk `j` of the connection `i` is posted, from the start of the allocation. -/
def chunkOffset (i j : ℕ) : ℕ :=
  (i * c.postedSize % 2 ^ 64 * c.credits % 2 ^ 64 + j * c.postedSize % 2 ^ 64) % 2 ^ 64

/-- Every posted chunk lies in the allocation. When the product is negative, the constructor
throws before any chunk is posted. -/
def ChunksInside : Prop :=
  ∀ i < nodes, ∀ j < c.credits,
    (c.chunkOffset i j + c.postedSize : ℤ) ≤ c.allocatedSize nodes

/-- Posted chunks do not overlap. -/
def ChunksApart : Prop :=
  ∀ i < nodes, ∀ j < c.credits, ∀ i' < nodes, ∀ j' < c.credits, i ≠ i' ∨ j ≠ j' →
    c.chunkOffset i j + c.postedSize ≤ c.chunkOffset i' j' ∨
      c.chunkOffset i' j' + c.postedSize ≤ c.chunkOffset i j

end Definitions

section Sizes

variable {c : Configuration} {nodes : ℕ}

theorem chunkSize_pos : 0 < c.chunkSize := Nat.mul_pos c.maxFragmentSize_pos c.bulkSize_pos

theorem chunkSize_lt (representable : c.dataSize < 2 ^ 31) : c.chunkSize < 2 ^ 31 :=
  lt_of_le_of_lt (Nat.le_mul_of_pos_right _ blocks_pos) representable

theorem postedSize_eq (representable : c.dataSize < 2 ^ 31) : c.postedSize = c.chunkSize := by
  have small := chunkSize_lt representable
  have exact : intMul c.maxFragmentSize c.bulkSize = c.chunkSize := by
    rw [intMul, ← Nat.cast_mul]
    exact @signed_eq_self 31 c.chunkSize (by omega) (by omega)
  rw [postedSize, exact, toSize]
  omega

/-- The size of the allocation is the product, narrowed once. -/
theorem allocatedSize_eq :
    c.allocatedSize nodes = signed 32 (c.chunkSize * c.credits * nodes : ℕ) := by
  rw [allocatedSize, toInt_eq_signed]
  simp only [intMul, signed_signed_mul, signed_mul_signed, chunkSize, Nat.cast_mul]

theorem chunkOffset_eq (representable : c.dataSize < 2 ^ 31) {i j : ℕ}
    (small : (i * c.credits + j) * c.chunkSize < 2 ^ 64) :
    c.chunkOffset i j = (i * c.credits + j) * c.chunkSize := by
  have regrouped : i * c.chunkSize * c.credits + j * c.chunkSize =
      (i * c.credits + j) * c.chunkSize := by ring
  rw [chunkOffset, postedSize_eq representable, Nat.mod_mul_mod, ← Nat.add_mod, regrouped,
    Nat.mod_eq_of_lt small]

/-- The offsets are those of the chunks of the builder unit that is constructed. -/
theorem chunk_chunkOffset (representable : c.dataSize < 2 ^ 31) {i j dataPtr : ℕ}
    (small : (i * c.credits + j) * c.chunkSize < 2 ^ 64) :
    (BuilderUnit.construct nodes c.bulkSize c.credits c.maxFragmentSize dataPtr).chunk i j =
      dataPtr + c.chunkOffset i j := by
  rw [chunkOffset_eq representable small, BuilderUnit.chunk_eq]
  rfl

end Sizes

section Bounds

variable {c : Configuration} {nodes i j : ℕ}

/-- The end of a chunk in an allocation of the exact size. -/
theorem chunk_end_le (connected : i < nodes) (posted : j < c.credits) :
    (i * c.credits + j + 1) * c.chunkSize ≤ c.chunkSize * c.credits * nodes := by
  have below : i * c.credits + j + 1 ≤ nodes * c.credits :=
    calc i * c.credits + j + 1 ≤ i * c.credits + c.credits := by omega
      _ = (i + 1) * c.credits := by ring
      _ ≤ nodes * c.credits := Nat.mul_le_mul_right _ connected
  calc (i * c.credits + j + 1) * c.chunkSize ≤ nodes * c.credits * c.chunkSize :=
        Nat.mul_le_mul_right _ below
    _ = c.chunkSize * c.credits * nodes := by ring

theorem chunksInside_of_small (representable : c.dataSize < 2 ^ 31)
    (small : c.chunkSize * c.credits * nodes < 2 ^ 31) : c.ChunksInside nodes := by
  intro i connected j posted
  have inside := chunk_end_le connected posted
  have exact : c.allocatedSize nodes = (c.chunkSize * c.credits * nodes : ℕ) := by
    rw [allocatedSize_eq]
    exact @signed_eq_self 31 _ (by omega) (by omega)
  rw [Nat.succ_mul] at inside
  rw [postedSize_eq representable, chunkOffset_eq representable (by omega), exact]
  omega

theorem chunksApart_of_small (representable : c.dataSize < 2 ^ 31)
    (small : c.chunkSize * c.credits * nodes < 2 ^ 31) : c.ChunksApart nodes := by
  intro i connected j posted i' connected' j' posted' differ
  have inside := chunk_end_le connected posted
  have inside' := chunk_end_le connected' posted'
  rw [Nat.succ_mul] at inside inside'
  let unit := BuilderUnit.construct nodes c.bulkSize c.credits c.maxFragmentSize 0
  have apart := @BuilderUnit.chunk_apart unit i i' j j' posted posted' differ
  rw [chunk_chunkOffset representable (by omega), chunk_chunkOffset representable (by omega),
    zero_add, zero_add] at apart
  rwa [postedSize_eq representable]

/-- When the size wraps around, the chunk that crosses `2 ^ 31` is outside. -/
theorem small_of_chunksInside (representable : c.dataSize < 2 ^ 31)
    (inside : c.ChunksInside nodes) : c.chunkSize * c.credits * nodes < 2 ^ 31 := by
  by_contra large
  obtain ⟨crossing, start, stop⟩ : ∃ k, k * c.chunkSize ≤ 2 ^ 31 - 1 ∧
      2 ^ 31 - 1 < c.chunkSize * (k + 1) :=
    ⟨_, Nat.div_mul_le_self _ _, Nat.lt_mul_div_succ _ chunkSize_pos⟩
  have posted : crossing % c.credits < c.credits := Nat.mod_lt _ c.credits_pos
  have connected : crossing / c.credits < nodes := by
    apply Nat.div_lt_of_lt_mul
    apply Nat.lt_of_mul_lt_mul_left (a := c.chunkSize)
    rw [← mul_assoc, mul_comm _ crossing]
    omega
  have position : crossing / c.credits * c.credits + crossing % c.credits = crossing :=
    Nat.div_add_mod' _ _
  have ends := inside _ connected _ posted
  have bound := signed_lt 31 (c.chunkSize * c.credits * nodes : ℕ)
  rw [← allocatedSize_eq] at bound
  rw [postedSize_eq representable, chunkOffset_eq representable (by rw [position]; omega),
    position] at ends
  have past : (2 ^ 31 : ℤ) ≤ (crossing * c.chunkSize : ℕ) + c.chunkSize := by
    rw [mul_add_one, mul_comm] at stop
    exact_mod_cast Nat.le_of_pred_lt stop
  exact absurd (past.trans ends) (not_le.mpr bound)

/-- The posted chunks lie in the allocation, and apart, exactly when the size of the
allocation is representable as an `int`. -/
theorem chunks_inside_iff (representable : c.dataSize < 2 ^ 31) :
    c.ChunksInside nodes ∧ c.ChunksApart nodes ↔
      c.maxFragmentSize * c.bulkSize * c.credits * nodes < 2 ^ 31 := by
  constructor
  · intro ⟨inside, _⟩
    exact small_of_chunksInside representable inside
  · intro small
    exact ⟨chunksInside_of_small representable small, chunksApart_of_small representable small⟩

/-- Two nodes of the example configuration allocate 192 bytes. -/
theorem chunks_inside_spread :
    spread.ChunksInside 2 ∧ spread.ChunksApart 2 ↔ 96 * 1 * 1 * 2 < 2 ^ 31 :=
  chunks_inside_iff (by decide)

/-- A configuration whose own buffers are far from the bound. -/
def wide : Configuration where
  maxFragmentSize := 2400
  bulkSize := 1000
  credits := 10
  generatorFrequency := 1000
  mean := 200
  stddev := 20
  maxFragmentSize_pos := by decide
  maxFragmentSize_mod := by decide
  bulkSize_pos := by decide
  credits_pos := by decide
  generatorFrequency_pos := by decide
  mean_pos := by decide

/-- With 200 nodes the 4.8 gigabytes are allocated as 505032704 bytes. -/
theorem chunks_not_inside :
    ¬∀ c : Configuration, c.dataSize < 2 ^ 31 → ∀ nodes, 0 < nodes →
      c.ChunksInside nodes ∧ c.ChunksApart nodes := by
  intro always
  have ⟨inside, _⟩ := always wide (by decide) 200 (by decide)
  have last := inside 199 (by decide) 9 (by decide)
  revert last
  decide

end Bounds

end Configuration

end Lseb
