import Lseb.Common.Utility
import Lseb.Foundation.Run

/-!
# A ring buffer as a bounded counter

The members of `Buffer` compute with `size_t` and `ptrdiff_t`. Below `2 ^ 63`
slots their sums are exact, so that the two cursors stand for the totals
reserved and released, of which neither gets ahead by a lap.
-/

namespace Lseb

open Foundation

namespace Buffer

section Words

variable (buffer : Buffer)

/-- `size()` in 64 bits. -/
def size64 : ℕ := unsigned 64 ((buffer.mEnd : ℤ) - buffer.mBegin)

/-- `ready()` in 64 bits; the signed distance is converted before it is added. -/
def ready64 : ℕ :=
  (buffer.size64 + unsigned 64 ((buffer.mNextWrite : ℤ) - buffer.mNextRead)) % 2 ^ 64 %
    buffer.size64

def available64 : ℕ := unsigned 64 ((buffer.size64 : ℤ) - buffer.ready64)

def release64 (n : ℕ) : Except Error Buffer := do
  assertThat (buffer.ready64 ≥ n) "ready() >= n"
  return { buffer with
    mNextRead := buffer.mBegin +
      (unsigned 64 ((buffer.mNextRead : ℤ) - buffer.mBegin) + n) % 2 ^ 64 % buffer.size64 }

def reserve64 (n : ℕ) : Except Error Buffer := do
  assertThat (buffer.available64 > n) "available() > n"
  return { buffer with
    mNextWrite := buffer.mBegin +
      (unsigned 64 ((buffer.mNextWrite : ℤ) - buffer.mBegin) + n) % 2 ^ 64 % buffer.size64 }

end Words

end Buffer

inductive BufferCall where
  | reserve (n : ℕ)
  | release (n : ℕ)
  deriving DecidableEq, Repr

/-- A call that passes its assertion. -/
def BufferStep (buffer : Buffer) (call : BufferCall) (next : Buffer) : Prop :=
  match call with
  | .reserve n => buffer.reserve64 n = .ok next
  | .release n => buffer.release64 n = .ok next

namespace BufferCall

def reserved : BufferCall → ℕ
  | .reserve n => n
  | .release _ => 0

def released : BufferCall → ℕ
  | .reserve _ => 0
  | .release n => n

def reservedTotal (trace : List BufferCall) : ℕ := (trace.map reserved).sum

def releasedTotal (trace : List BufferCall) : ℕ := (trace.map released).sum

end BufferCall

open BufferCall

/-- The buffer is the counter of what its history reserved and released. -/
structure BoundedCounter (first slots : ℕ) (trace : List BufferCall) (buffer : Buffer) : Prop where
  range : buffer.mBegin = first ∧ buffer.mEnd = first + slots
  writeInside : buffer.mBegin ≤ buffer.mNextWrite ∧ buffer.mNextWrite < buffer.mEnd
  readInside : buffer.mBegin ≤ buffer.mNextRead ∧ buffer.mNextRead < buffer.mEnd
  ready : buffer.ready64 + releasedTotal trace = reservedTotal trace
  bounded : buffer.ready64 ≤ slots - 1
  available : buffer.available64 = slots - buffer.ready64 ∧ 1 ≤ buffer.available64
  nextWrite : buffer.mNextWrite = first + reservedTotal trace % slots
  nextRead : buffer.mNextRead = first + releasedTotal trace % slots

/-- Calls of one kind add up, and calls of both kinds commute. -/
structure CallsCompose (buffer : Buffer) : Prop where
  reserves : ∀ a b, a + b < 2 ^ 64 →
    (buffer.reserve64 a >>= fun next => next.reserve64 b) = buffer.reserve64 (a + b)
  releases : ∀ a b, a + b < 2 ^ 64 →
    (buffer.release64 a >>= fun next => next.release64 b) = buffer.release64 (a + b)
  commute : ∀ a b reserved released, buffer.reserve64 a = .ok reserved →
    buffer.release64 b = .ok released →
    ∃ last, reserved.release64 b = .ok last ∧ released.reserve64 a = .ok last

namespace Buffer.Represents

variable {capacity origin n : ℕ} {buffer : Buffer} {ring : RingCount capacity}
  (rep : buffer.Represents origin ring) (small : capacity < 2 ^ 63)

include rep

theorem cursors : (buffer.mBegin ≤ buffer.mNextWrite ∧ buffer.mNextWrite < buffer.mEnd) ∧
    buffer.mBegin ≤ buffer.mNextRead ∧ buffer.mNextRead < buffer.mEnd := by
  have positive : 0 < capacity := (Nat.zero_le _).trans_lt ring.ready_lt
  have write := Nat.mod_lt (origin + ring.writtenTotal) positive
  have read := Nat.mod_lt (origin + ring.readTotal) positive
  have last := rep.last
  have nextWrite := rep.nextWrite
  have nextRead := rep.nextRead
  omega

include small

theorem size64 : buffer.size64 = buffer.size := by
  have last := rep.last
  unfold Buffer.size64 Buffer.size unsigned
  omega

/-- Adding the size makes up for a distance that was negative. -/
theorem ready64 : buffer.ready64 = buffer.ready := by
  obtain ⟨write, read⟩ := rep.cursors
  have last := rep.last
  have sum : (buffer.size + unsigned 64 ((buffer.mNextWrite : ℤ) - buffer.mNextRead)) % 2 ^ 64 =
      buffer.size + buffer.mNextWrite - buffer.mNextRead := by
    unfold Buffer.size unsigned
    omega
  rw [Buffer.ready64, rep.size64 small, sum, Buffer.ready]

theorem available64 : buffer.available64 = buffer.available := by
  have ready := ring.ready_lt
  have exact := rep.ready
  have size := rep.size
  rw [Buffer.available64, rep.size64 small, rep.ready64 small, Buffer.available]
  unfold unsigned
  omega

theorem release64 : buffer.release64 n = buffer.release n := by
  rw [Buffer.release64, Buffer.release, rep.ready64 small, rep.size64 small]
  by_cases admitted : buffer.ready ≥ n
  · obtain ⟨_, read⟩ := rep.cursors
    have last := rep.last
    have exact := rep.ready
    have ready := ring.ready_lt
    have sum : (unsigned 64 ((buffer.mNextRead : ℤ) - buffer.mBegin) + n) % 2 ^ 64 =
        buffer.mNextRead - buffer.mBegin + n := by
      unfold unsigned
      omega
    rw [sum]
  · rw [assertThat, if_neg admitted]
    rfl

theorem reserve64 : buffer.reserve64 n = buffer.reserve n := by
  rw [Buffer.reserve64, Buffer.reserve, rep.available64 small, rep.size64 small]
  by_cases admitted : buffer.available > n
  · obtain ⟨write, _⟩ := rep.cursors
    have last := rep.last
    have exact := rep.available
    have sum : (unsigned 64 ((buffer.mNextWrite : ℤ) - buffer.mBegin) + n) % 2 ^ 64 =
        buffer.mNextWrite - buffer.mBegin + n := by
      unfold unsigned
      omega
    rw [sum]
  · rw [assertThat, if_neg admitted]
    rfl

/-- A reservation writes to the ring, or there is no room for it. -/
theorem reserve64_cases (n : ℕ) :
    (∃ (room : ring.ready + n < capacity) (next : Buffer), buffer.reserve64 n = .ok next ∧
        next.mBegin = buffer.mBegin ∧ next.Represents origin (ring.write n room)) ∨
      capacity ≤ ring.ready + n ∧ buffer.reserve64 n = .error (.assertion "available() > n") := by
  rw [rep.reserve64 small]
  rcases Nat.lt_or_ge (ring.ready + n) capacity with room | full
  · exact .inl ⟨room, rep.reserve room⟩
  · have refused : ¬buffer.available > n := by
      rw [rep.available]
      omega
    refine .inr ⟨full, ?_⟩
    rw [Buffer.reserve, assertThat, if_neg refused]
    rfl

theorem release64_cases (n : ℕ) :
    (∃ (filled : n ≤ ring.ready) (next : Buffer), buffer.release64 n = .ok next ∧
        next.mBegin = buffer.mBegin ∧ next.Represents origin (ring.read n filled)) ∨
      ring.ready < n ∧ buffer.release64 n = .error (.assertion "ready() >= n") := by
  rw [rep.release64 small]
  rcases Nat.lt_or_ge ring.ready n with short | filled
  · have refused : ¬buffer.ready ≥ n := by
      rw [rep.ready]
      omega
    refine .inr ⟨short, ?_⟩
    rw [Buffer.release, assertThat, if_neg refused]
    rfl
  · exact .inl ⟨filled, rep.release filled⟩

theorem reserves (a b : ℕ) :
    (buffer.reserve64 a >>= fun next => next.reserve64 b) = buffer.reserve64 (a + b) := by
  rcases rep.reserve64_cases small a with ⟨room, middle, first, begin₁, rep₁⟩ | ⟨full, failed⟩
  · have ready := RingCount.ready_write room
    rw [first, ok_bind]
    rcases rep₁.reserve64_cases small b with ⟨room', last, second, begin₂, rep₂⟩ | ⟨full, failed⟩
    · rcases rep.reserve64_cases small (a + b) with ⟨_, whole, both, begin₃, rep₃⟩ | ⟨full, _⟩
      · rw [RingCount.write_write room room' (by omega)] at rep₂
        rw [second, both, rep₃.unique rep₂ (begin₂.trans (begin₁.trans begin₃.symm))]
      · omega
    · rcases rep.reserve64_cases small (a + b) with ⟨_, _⟩ | ⟨_, failed'⟩
      · omega
      · rw [failed, failed']
  · rcases rep.reserve64_cases small (a + b) with ⟨_, _⟩ | ⟨_, failed'⟩
    · omega
    · rw [failed, failed']
      rfl

theorem releases (a b : ℕ) :
    (buffer.release64 a >>= fun next => next.release64 b) = buffer.release64 (a + b) := by
  rcases rep.release64_cases small a with ⟨filled, middle, first, begin₁, rep₁⟩ | ⟨short, failed⟩
  · have ready := RingCount.ready_read filled
    rw [first, ok_bind]
    rcases rep₁.release64_cases small b with ⟨filled', last, second, begin₂, rep₂⟩ |
      ⟨short, failed⟩
    · rcases rep.release64_cases small (a + b) with ⟨_, whole, both, begin₃, rep₃⟩ | ⟨short, _⟩
      · rw [RingCount.read_read filled filled' (by omega)] at rep₂
        rw [second, both, rep₃.unique rep₂ (begin₂.trans (begin₁.trans begin₃.symm))]
      · omega
    · rcases rep.release64_cases small (a + b) with ⟨_, _⟩ | ⟨_, failed'⟩
      · omega
      · rw [failed, failed']
  · rcases rep.release64_cases small (a + b) with ⟨_, _⟩ | ⟨_, failed'⟩
    · omega
    · rw [failed, failed']
      rfl

/-- Either order leads to the ring with both totals moved. -/
theorem commute {a b : ℕ} {reserved released : Buffer} (room : buffer.reserve64 a = .ok reserved)
    (filled : buffer.release64 b = .ok released) :
    ∃ last, reserved.release64 b = .ok last ∧ released.reserve64 a = .ok last := by
  rcases rep.reserve64_cases small a with ⟨free, _, first, begin₁, rep₁⟩ | ⟨_, failed⟩
  · rcases rep.release64_cases small b with ⟨used, _, second, begin₂, rep₂⟩ | ⟨_, failed⟩
    · cases first.symm.trans room
      cases second.symm.trans filled
      have written := RingCount.ready_write free
      have read := RingCount.ready_read used
      rcases rep₁.release64_cases small b with ⟨_, last, released', begin₃, rep₃⟩ | ⟨short, _⟩
      · rcases rep₂.reserve64_cases small a with ⟨_, last', reserved', begin₄, rep₄⟩ | ⟨full, _⟩
        · refine ⟨last, released', ?_⟩
          rw [reserved', rep₃.unique rep₄]
          rw [begin₄, begin₃, begin₂, begin₁]
        · omega
      · omega
    · cases failed.symm.trans filled
  · cases failed.symm.trans room

end Buffer.Represents

section Run

variable {first last : ℕ} {start buffer : Buffer} {trace : List BufferCall}

/-- The ring that a history of calls leaves behind. -/
theorem bufferRun_represents (built : Buffer.construct first last = .ok start)
    (small : last - first < 2 ^ 63) (run : Run BufferStep start trace buffer) :
    ∃ ring : RingCount (last - first), buffer.Represents 0 ring ∧ buffer.mBegin = first ∧
      ring.writtenTotal = reservedTotal trace ∧ ring.readTotal = releasedTotal trace := by
  obtain ⟨_, nonempty, built⟩ := bind_eq_ok.mp built
  have nonempty := assertThat_eq_ok.mp nonempty
  cases built
  induction run with
  | nil =>
    refine ⟨⟨0, 0, le_rfl, by omega⟩, ⟨?_, ?_, ?_⟩, rfl, rfl, rfl⟩
    · dsimp only
      omega
    · simp
    · simp
  | @snoc trace state next call _ step ih =>
    obtain ⟨ring, rep, begin, written, read⟩ := ih
    cases call with
    | reserve n =>
      rcases rep.reserve64_cases small n with ⟨room, _, reserved, begin', rep'⟩ | ⟨_, failed⟩
      · cases reserved.symm.trans step
        refine ⟨_, rep', begin'.trans begin, ?_, ?_⟩
        · simp [RingCount.write, reservedTotal, BufferCall.reserved, written]
        · simp [RingCount.write, releasedTotal, BufferCall.released, read]
      · cases failed.symm.trans step
    | release n =>
      rcases rep.release64_cases small n with ⟨filled, _, released, begin', rep'⟩ | ⟨_, failed⟩
      · cases released.symm.trans step
        refine ⟨_, rep', begin'.trans begin, ?_, ?_⟩
        · simp [RingCount.read, reservedTotal, BufferCall.reserved, written]
        · simp [RingCount.read, releasedTotal, BufferCall.released, read]
      · cases failed.symm.trans step

/-- In every run of admitted calls, the buffer counts what its history reserved and
released, and its calls compose. -/
theorem buffer_boundedCounter (built : Buffer.construct first last = .ok start)
    (small : last - first < 2 ^ 63) (run : Run BufferStep start trace buffer) :
    BoundedCounter first (last - first) trace buffer ∧ CallsCompose buffer := by
  obtain ⟨ring, rep, begin, written, read⟩ := bufferRun_represents built small run
  obtain ⟨write, readCursor⟩ := rep.cursors
  have ready := (rep.ready64 small).trans rep.ready
  have available := (rep.available64 small).trans rep.available
  have ordered := ring.ordered
  have below := ring.ready_lt
  have nextWrite := rep.nextWrite
  have nextRead := rep.nextRead
  rw [zero_add, begin, written] at nextWrite
  rw [zero_add, begin, read] at nextRead
  refine ⟨⟨⟨begin, ?_⟩, write, readCursor, ?_, ?_, ⟨?_, ?_⟩, nextWrite, nextRead⟩, ?_⟩
  · rw [rep.last, begin]
  · rw [ready, RingCount.ready]
    omega
  · omega
  · omega
  · omega
  · exact ⟨fun a b _ => rep.reserves small a b, fun a b _ => rep.releases small a b,
      fun _ _ _ _ => rep.commute small⟩

/-- Two of three slots are reserved, and one of them is released. -/
theorem buffer_boundedCounter_three :
    BoundedCounter 0 (3 - 0) [.reserve 2, .release 1] ⟨0, 3, 1, 2⟩ ∧ CallsCompose ⟨0, 3, 1, 2⟩ :=
  have reserved : Run BufferStep ⟨0, 3, 0, 0⟩ [.reserve 2] ⟨0, 3, 0, 2⟩ := Run.single rfl
  buffer_boundedCounter rfl (by decide) (reserved.snoc rfl)

end Run

end Lseb
