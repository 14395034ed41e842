import Lseb.Common.Utility
import Lseb.Foundation.Run

/-!
# The memory pool

A stack of descriptors over one buffer. The constructor cuts the buffer into
chunks by a loop whose step is the chunk length and whose counter has 64 bits;
its assertion lets a length of zero through, and then it has no end.
-/

namespace Lseb

open Foundation

structure MemoryPool where
  mBuffer : ℕ
  mChunkLen : ℕ
  mBufferLen : ℕ
  mPool : List Iovec
  deriving DecidableEq, Repr

/-- The counter of the constructor's loop and the descriptors pushed so far. -/
structure FillState where
  curLen : ℕ
  pool : List Iovec
  deriving DecidableEq, Repr

namespace MemoryPool

section Constructor

variable (buffer chunkLen endLen : ℕ)

def fillTurn (s : FillState) : FillState :=
  ⟨(s.curLen + chunkLen) % 2 ^ 64, s.pool ++ [⟨buffer + s.curLen, chunkLen⟩]⟩

/-- The loop, for at most `fuel` tests of its condition. -/
def fill : ℕ → FillState → Except Error (List Iovec)
  | 0, _ => .error (.fault "pool constructor still running")
  | fuel + 1, s =>
    if s.curLen ≤ endLen then fill fuel (fillTurn buffer chunkLen s) else .ok s.pool

def construct (fuel buffer bufferLen chunkLen : ℕ) : Except Error MemoryPool := do
  assertThat (chunkLen ≤ bufferLen) "m_chunk_len <= m_buffer_len && \"Wrong sizes\""
  let endLen := bufferLen - chunkLen
  let pool ← fill buffer chunkLen endLen fuel ⟨0, []⟩
  return ⟨buffer, chunkLen, bufferLen, pool⟩

/-- A turn of the loop, with the counter it starts from. -/
inductive FillStep : FillState → ℕ → FillState → Prop where
  | turn {s : FillState} (inside : s.curLen ≤ endLen) :
      FillStep s s.curLen (fillTurn buffer chunkLen s)

end Constructor

def alloc (pool : MemoryPool) : Except Error (Iovec × MemoryPool) :=
  match pool.mPool.getLast? with
  | none => .error (.assertion "!m_pool.empty()")
  | some iov => .ok (iov, { pool with mPool := pool.mPool.dropLast })

def free (pool : MemoryPool) (iov : Iovec) : Except Error MemoryPool := do
  assertThat (iov.iovLen ≤ pool.mChunkLen) "iov.iov_len <= m_chunk_len"
  assertThat (iov.iovBase ≥ pool.mBuffer) "static_cast<unsigned char*>(iov.iov_base) >= m_buffer"
  assertThat (iov.iovBase + iov.iovLen ≤ pool.mBuffer + pool.mBufferLen)
    "static_cast<unsigned char*>(iov.iov_base) + iov.iov_len <= m_buffer + m_buffer_len"
  return { pool with mPool := pool.mPool ++ [iov] }

def available (pool : MemoryPool) : ℕ := pool.mPool.length

def empty (pool : MemoryPool) : Bool := pool.mPool.isEmpty

/-- Consecutive chunks from the beginning of a buffer on. -/
def chunks (buffer chunkLen count : ℕ) : List Iovec :=
  (List.range count).map fun j => ⟨buffer + j * chunkLen, chunkLen⟩

/-- The loop ends, its counter never wraps around, and the pool holds all the chunks that
fit in the buffer. -/
structure Tiles (buffer bufferLen chunkLen : ℕ) : Prop where
  terminates : ∃ fuel pool, construct fuel buffer bufferLen chunkLen = .ok pool
  unwrapped : ∀ trace s, Run (FillStep buffer chunkLen (bufferLen - chunkLen)) ⟨0, []⟩ trace s →
    s.curLen = trace.length * chunkLen
  holds : ∀ fuel pool, construct fuel buffer bufferLen chunkLen = .ok pool →
    pool = ⟨buffer, chunkLen, bufferLen, chunks buffer chunkLen (bufferLen / chunkLen)⟩

section Tiling

variable {buffer bufferLen chunkLen count fuel : ℕ}

theorem chunks_succ : chunks buffer chunkLen (count + 1) =
    chunks buffer chunkLen count ++ [⟨buffer + count * chunkLen, chunkLen⟩] := by
  simp [chunks, List.range_succ]

/-- A chunk length of zero leaves the counter where it is. -/
theorem fill_zero (s : FillState) (inside : s.curLen = 0) :
    fill buffer 0 bufferLen fuel s = .error (.fault "pool constructor still running") := by
  induction fuel generalizing s with
  | zero => rfl
  | succ fuel ih =>
    have zero : s.curLen ≤ bufferLen := by omega
    rw [fill, if_pos zero]
    apply ih
    simp [fillTurn, inside]

theorem inside_iff (positive : 0 < chunkLen) (sizes : chunkLen ≤ bufferLen) :
    count * chunkLen ≤ bufferLen - chunkLen ↔ count < bufferLen / chunkLen := by
  rw [← Nat.succ_le_iff, Nat.le_div_iff_mul_le positive, Nat.succ_mul]
  omega

section Small

variable (sizes : chunkLen ≤ bufferLen) (small : bufferLen < 2 ^ 64)

include sizes small

/-- One turn adds the next chunk. -/
theorem fillTurn_chunks (inside : count * chunkLen ≤ bufferLen - chunkLen) :
    fillTurn buffer chunkLen ⟨count * chunkLen, chunks buffer chunkLen count⟩ =
      ⟨(count + 1) * chunkLen, chunks buffer chunkLen (count + 1)⟩ := by
  have unwrapped : count * chunkLen + chunkLen < 2 ^ 64 := by omega
  rw [fillTurn, chunks_succ, Nat.mod_eq_of_lt unwrapped, Nat.succ_mul]

/-- By induction on the tests left, the loop ends exactly if they are enough. -/
theorem fill_chunks (positive : 0 < chunkLen) (bounded : count ≤ bufferLen / chunkLen) :
    fill buffer chunkLen (bufferLen - chunkLen) fuel
        ⟨count * chunkLen, chunks buffer chunkLen count⟩ =
      if bufferLen / chunkLen - count < fuel then
        .ok (chunks buffer chunkLen (bufferLen / chunkLen))
      else .error (.fault "pool constructor still running") := by
  induction fuel generalizing count with
  | zero => rfl
  | succ fuel ih =>
    have test := @inside_iff bufferLen chunkLen count positive sizes
    rw [fill]
    dsimp only
    by_cases inside : count * chunkLen ≤ bufferLen - chunkLen
    · have below := test.mp inside
      rw [if_pos inside, fillTurn_chunks sizes small inside, ih below]
      congr 1
      apply propext
      omega
    · have done : count = bufferLen / chunkLen :=
        Nat.le_antisymm bounded (not_lt.mp (test.not.mp inside))
      rw [if_neg inside, done, Nat.sub_self, if_pos (Nat.succ_pos fuel)]

theorem fill_of_positive (positive : 0 < chunkLen) :
    fill buffer chunkLen (bufferLen - chunkLen) fuel ⟨0, []⟩ =
      if bufferLen / chunkLen < fuel then
        .ok (chunks buffer chunkLen (bufferLen / chunkLen))
      else .error (.fault "pool constructor still running") := by
  have filled := @fill_chunks buffer bufferLen chunkLen 0 fuel sizes small positive
    (Nat.zero_le _)
  rwa [Nat.zero_mul, Nat.sub_zero] at filled

/-- The counter in every turn is that of the next chunk. -/
theorem fillRun_chunks {trace : List ℕ} {s : FillState}
    (run : Run (FillStep buffer chunkLen (bufferLen - chunkLen)) ⟨0, []⟩ trace s) :
    s = ⟨trace.length * chunkLen, chunks buffer chunkLen trace.length⟩ := by
  induction run with
  | nil => simp [chunks]
  | snoc _ step ih =>
    subst ih
    obtain ⟨inside⟩ := step
    rw [List.length_append, List.length_singleton, fillTurn_chunks sizes small inside]

end Small

theorem construct_of_sizes (sizes : chunkLen ≤ bufferLen) (fuel : ℕ) :
    construct fuel buffer bufferLen chunkLen =
      (fill buffer chunkLen (bufferLen - chunkLen) fuel ⟨0, []⟩ >>= fun pool =>
        .ok ⟨buffer, chunkLen, bufferLen, pool⟩) := by
  rw [construct, assertThat_of sizes]
  rfl

/-- The constructor tiles the buffer exactly if the chunks are not empty. -/
theorem construct_tiles_iff (sizes : chunkLen ≤ bufferLen) (small : bufferLen < 2 ^ 64) :
    Tiles buffer bufferLen chunkLen ↔ 0 < chunkLen := by
  constructor
  · rintro ⟨⟨fuel, pool, built⟩, _, _⟩
    by_contra zero
    obtain rfl : chunkLen = 0 := by omega
    rw [construct_of_sizes sizes, fill_zero _ rfl] at built
    cases built
  · intro positive
    refine ⟨?_, ?_, ?_⟩
    · refine ⟨bufferLen / chunkLen + 1,
        ⟨buffer, chunkLen, bufferLen, chunks buffer chunkLen (bufferLen / chunkLen)⟩, ?_⟩
      rw [construct_of_sizes sizes, fill_of_positive sizes small positive,
        if_pos (Nat.lt_succ_self _)]
      rfl
    · intro trace s run
      rw [fillRun_chunks sizes small run]
    · intro fuel pool built
      rw [construct_of_sizes sizes, fill_of_positive sizes small positive] at built
      split_ifs at built
      · cases built
        rfl
      · cases built

/-- A buffer of a hundred bytes holds three chunks of thirty-two. -/
theorem construct_tiles_hundred : Tiles 0 100 32 :=
  (construct_tiles_iff (by decide) (by decide)).mpr (by decide)

/-- Chunks of no bytes pass the assertion. -/
theorem not_construct_tiles : ¬∀ buffer bufferLen chunkLen, chunkLen ≤ bufferLen →
    bufferLen < 2 ^ 64 → Tiles buffer bufferLen chunkLen := by
  intro always
  obtain ⟨⟨fuel, pool, built⟩, _, _⟩ := always 0 64 0 (by decide) (by decide)
  rw [construct_of_sizes (by decide), fill_zero _ rfl] at built
  cases built

end Tiling

end MemoryPool

end Lseb
