import Mathlib.Data.List.Rotate
import Lseb.Common.Exception
import Lseb.Foundation.RingCount
import Lseb.Foundation.Wrapping

/-!
# Ring buffers, buffer descriptors and the send order

`Buffer` is the ring with a read and a write cursor, one slot of which is never
filled. Element positions and sizes are natural numbers; a ring of this program
has at most `2 ^ 31` slots, so its `size_t` sums are exact.
-/

namespace Lseb

open Foundation

structure Buffer where
  mBegin : ℕ
  mEnd : ℕ
  mNextRead : ℕ
  mNextWrite : ℕ
  deriving DecidableEq, Repr

namespace Buffer

def construct (first last : ℕ) : Except Error Buffer := do
  assertThat (first < last) "m_begin < m_end"
  return ⟨first, last, first, first⟩

def size (buffer : Buffer) : ℕ := buffer.mEnd - buffer.mBegin

def ready (buffer : Buffer) : ℕ :=
  (buffer.size + buffer.mNextWrite - buffer.mNextRead) % buffer.size

def available (buffer : Buffer) : ℕ := buffer.size - buffer.ready

def release (buffer : Buffer) (n : ℕ) : Except Error Buffer := do
  assertThat (buffer.ready ≥ n) "ready() >= n"
  return { buffer with
    mNextRead := buffer.mBegin + (buffer.mNextRead - buffer.mBegin + n) % buffer.size }

def reserve (buffer : Buffer) (n : ℕ) : Except Error Buffer := do
  assertThat (buffer.available > n) "available() > n"
  return { buffer with
    mNextWrite := buffer.mBegin + (buffer.mNextWrite - buffer.mBegin + n) % buffer.size }

theorem release_of {buffer : Buffer} {n : ℕ} (admitted : buffer.ready ≥ n) :
    buffer.release n = .ok { buffer with
      mNextRead := buffer.mBegin + (buffer.mNextRead - buffer.mBegin + n) % buffer.size } := by
  rw [release, assertThat_of admitted]
  rfl

theorem reserve_of {buffer : Buffer} {n : ℕ} (admitted : buffer.available > n) :
    buffer.reserve n = .ok { buffer with
      mNextWrite := buffer.mBegin + (buffer.mNextWrite - buffer.mBegin + n) % buffer.size } := by
  rw [reserve, assertThat_of admitted]
  rfl

/-- The cursors are the totals of `ring`, modulo its capacity, from slot `origin` on. -/
structure Represents {capacity : ℕ} (buffer : Buffer) (origin : ℕ) (ring : RingCount capacity) :
    Prop where
  last : buffer.mEnd = buffer.mBegin + capacity
  nextRead : buffer.mNextRead = buffer.mBegin + (origin + ring.readTotal) % capacity
  nextWrite : buffer.mNextWrite = buffer.mBegin + (origin + ring.writtenTotal) % capacity

section Represents

variable {capacity origin : ℕ} {buffer : Buffer} {ring : RingCount capacity}

theorem Represents.size (rep : buffer.Represents origin ring) : buffer.size = capacity := by
  have := rep.last
  unfold Buffer.size
  omega

theorem Represents.ready (rep : buffer.Represents origin ring) : buffer.ready = ring.ready := by
  have distance := cursor_distance (Nat.add_le_add_left ring.ordered origin)
    (by have := ring.bounded; omega : origin + ring.writtenTotal <
      origin + ring.readTotal + capacity)
  rw [Buffer.ready, rep.size, rep.nextRead, rep.nextWrite,
    show ∀ a b : ℕ, capacity + (buffer.mBegin + a) - (buffer.mBegin + b) = capacity + a - b by
      omega, distance]
  unfold RingCount.ready
  omega

theorem Represents.available (rep : buffer.Represents origin ring) :
    buffer.available = capacity - ring.ready := by
  rw [Buffer.available, rep.size, rep.ready]

theorem Represents.release (rep : buffer.Represents origin ring) {n : ℕ}
    (filled : n ≤ ring.ready) :
    ∃ buffer', buffer.release n = .ok buffer' ∧ buffer'.mBegin = buffer.mBegin ∧
      buffer'.Represents origin (ring.read n filled) := by
  have admitted : buffer.ready ≥ n := by rw [rep.ready]; exact filled
  refine ⟨_, release_of admitted, rfl, rep.last, ?_, rep.nextWrite⟩
  simp only [rep.size, rep.nextRead, Nat.add_sub_cancel_left, Nat.mod_add_mod, RingCount.read,
    add_assoc]

theorem Represents.reserve (rep : buffer.Represents origin ring) {n : ℕ}
    (room : ring.ready + n < capacity) :
    ∃ buffer', buffer.reserve n = .ok buffer' ∧ buffer'.mBegin = buffer.mBegin ∧
      buffer'.Represents origin (ring.write n room) := by
  have admitted : buffer.available > n := by rw [rep.available]; omega
  refine ⟨_, reserve_of admitted, rfl, rep.last, rep.nextRead, ?_⟩
  simp only [rep.size, rep.nextWrite, Nat.add_sub_cancel_left, Nat.mod_add_mod, RingCount.write,
    add_assoc]

theorem Represents.unique {buffer' : Buffer} (rep : buffer.Represents origin ring)
    (rep' : buffer'.Represents origin ring) (first : buffer'.mBegin = buffer.mBegin) :
    buffer' = buffer := by
  have last := rep.last
  have last' := rep'.last
  have read := rep.nextRead
  have read' := rep'.nextRead
  have write := rep.nextWrite
  have write' := rep'.nextWrite
  cases buffer
  cases buffer'
  simp only [Buffer.mk.injEq] at *
  omega

end Represents

end Buffer

structure Iovec where
  iovBase : ℕ
  iovLen : ℕ
  deriving DecidableEq, Repr

/-- Conversion to a 32-bit `int`. -/
def toInt (n : ℕ) : ℤ := Int.bmod n (2 ^ 32)

/-- Conversion to a 64-bit `size_t`. -/
def toSize (n : ℤ) : ℕ := (n % 2 ^ 64).toNat

theorem toInt_eq_signed (n : ℕ) : toInt n = signed 32 n := rfl

theorem toSize_eq_unsigned (n : ℤ) : toSize n = unsigned 64 n := rfl

/-- The accumulator of the fold has the type of its initial value, `int`. -/
def iovecLength (iov : List Iovec) : ℕ :=
  toSize (iov.foldl (fun total v => toInt ((toSize total + v.iovLen) % 2 ^ 64)) 0)

def createSequence (id total : ℕ) : List ℕ :=
  let firstId := if id ≠ total - 1 then id + 1 else 0
  (List.range total).rotate firstId

@[simp] theorem createSequence_length (id total : ℕ) :
    (createSequence id total).length = total := by
  simp [createSequence]

/-- The order of a node starts behind its own id and wraps around. -/
theorem createSequence_eq {id total : ℕ} (inside : id < total) :
    createSequence id total = (List.range total).map fun k => (id + 1 + k) % total := by
  apply List.ext_getElem
  · simp
  · intro k _ hk
    simp only [createSequence, List.getElem_rotate, List.getElem_range, List.length_range,
      List.getElem_map]
    split
    · rw [add_comm]
    · rename_i last
      rw [show id + 1 + k = k + total by omega, Nat.add_mod_right, add_zero]

theorem createSequence_perm (id total : ℕ) :
    (createSequence id total).Perm (List.range total) :=
  List.rotate_perm _ _

end Lseb
