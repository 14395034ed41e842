import Mathlib.Data.Nat.Notation
import Lseb.Common.Exception

/-!
# Event metadata, event headers and the memory they live in

Both records are three 64-bit words. The data memory is addressed in bytes and
holds one word at each aligned address; a header is read and written word by
word, so that a later header may overwrite part of an earlier one. The
metadata memory is an array of records, addressed by slot.
-/

namespace Lseb

structure EventMetaData where
  id : ℕ
  length : ℕ
  offset : ℕ
  deriving DecidableEq, Repr

structure EventHeader where
  id : ℕ
  length : ℕ
  flags : ℕ
  deriving DecidableEq, Repr

def sizeofEventHeader : ℕ := 24

abbrev MetaDataMemory := ℕ → EventMetaData

abbrev Memory := ℕ → ℕ

/-- `pointer_cast` to a record of 64-bit words. -/
def pointerCast (p : ℕ) : Except Error ℕ := do
  assertThat (p % 8 = 0) "is_aligned_for<T>(p)"
  return p

def writeHeader (memory : Memory) (p : ℕ) (header : EventHeader) : Memory := fun word =>
  if word = p then header.id
  else if word = p + 8 then header.length
  else if word = p + 16 then header.flags
  else memory word

def readHeader (memory : Memory) (p : ℕ) : EventHeader :=
  ⟨memory p, memory (p + 8), memory (p + 16)⟩

theorem pointerCast_of {p : ℕ} (aligned : p % 8 = 0) : pointerCast p = .ok p := by
  rw [pointerCast, assertThat_of aligned]
  rfl

@[simp] theorem readHeader_writeHeader (memory : Memory) (p : ℕ) (header : EventHeader) :
    readHeader (writeHeader memory p header) p = header := by
  simp [readHeader, writeHeader]

theorem readHeader_writeHeader_disjoint {p q : ℕ} (memory : Memory) (header : EventHeader)
    (disjoint : p + sizeofEventHeader ≤ q ∨ q + sizeofEventHeader ≤ p) :
    readHeader (writeHeader memory p header) q = readHeader memory q := by
  unfold sizeofEventHeader at disjoint
  simp only [readHeader, writeHeader, EventHeader.mk.injEq]
  refine ⟨?_, ?_, ?_⟩ <;>
    rw [if_neg (by omega), if_neg (by omega), if_neg (by omega)]

end Lseb
