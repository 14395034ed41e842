import Lseb.Common.PoolRun
import Lseb.Ru.Polling
import Lseb.Test.Bandwidth

/-!
# Runs of the bandwidth tests

Each chunk is in the pool or pending in one direction, and always whole: a send
is freed with the size of a chunk, and a receive with the size it was posted
with. The pool is as large as the credits of the directions in use together, so
whenever a direction has a credit left, there is a chunk for it.
-/

namespace Lseb

open Foundation PendingMap MemoryPool

section Balance

variable {bases : List ℕ} {chunkSize credits : ℕ} {descriptors iovs rest : List Iovec}
  {first second first' : PendingMap ℕ ℕ} {iov : Iovec}

/-- Each chunk is in the pool or in one of the two tables, with its full length. -/
structure Balanced (bases : List ℕ) (chunkSize credits : ℕ) (descriptors : List Iovec)
    (first second : PendingMap ℕ ℕ) : Prop where
  places : (descriptors.map Iovec.iovBase : Multiset ℕ) + keySet first + keySet second = bases
  whole : ∀ iov ∈ descriptors, iov.iovLen = chunkSize
  firstWhole : ∀ key len, first.lookup key = some len → len = chunkSize
  secondWhole : ∀ key len, second.lookup key = some len → len = chunkSize
  first_le : size first ≤ credits
  second_le : size second ≤ credits

theorem Balanced.symm (balanced : Balanced bases chunkSize credits descriptors first second) :
    Balanced bases chunkSize credits descriptors second first :=
  ⟨by rw [add_right_comm]; exact balanced.places, balanced.whole, balanced.secondWhole,
    balanced.firstWhole, balanced.second_le, balanced.first_le⟩

/-- Completed requests go back to the pool. -/
theorem Balanced.collect (balanced : Balanced bases chunkSize credits descriptors first second)
    (keys : keySet first = (iovs.map Iovec.iovBase : Multiset ℕ) + keySet first')
    (kept : ∀ key len, first'.lookup key = some len → first.lookup key = some len)
    (whole : ∀ iov ∈ iovs, iov.iovLen = chunkSize) :
    Balanced bases chunkSize credits (descriptors ++ iovs) first' second := by
  refine ⟨?_, List.forall_mem_append.mpr ⟨balanced.whole, whole⟩,
    fun key len found => balanced.firstWhole key len (kept key len found), balanced.secondWhole,
    ?_, balanced.second_le⟩
  · rw [List.map_append, ← Multiset.coe_add, add_assoc (descriptors.map Iovec.iovBase : Multiset ℕ),
      ← keys]
    exact balanced.places
  · refine le_trans ?_ balanced.first_le
    rw [size_eq_card, size_eq_card, keys, Multiset.card_add]
    exact Nat.le_add_left _ _

/-- The last descriptor of the pool is not pending, and may be. -/
theorem Balanced.post
    (balanced : Balanced bases chunkSize credits (rest ++ [iov]) first second)
    (distinct : bases.Nodup) (room : size first < credits) : iov.iovBase ∉ first ∧
      Balanced bases chunkSize credits rest (first.insert iov.iovBase iov.iovLen) second := by
  have places := balanced.places
  rw [List.map_append, List.map_singleton, ← Multiset.coe_add, Multiset.coe_singleton] at places
  have fresh : iov.iovBase ∉ first := by
    intro pending
    have nodup : ((rest.map Iovec.iovBase : Multiset ℕ) + {iov.iovBase} + keySet first +
        keySet second).Nodup := places ▸ Multiset.coe_nodup.mpr distinct
    have apart := (Multiset.nodup_add.mp (Multiset.nodup_add.mp nodup).1).2.2
    exact Multiset.disjoint_left.mp apart
      (Multiset.mem_add.mpr (.inr (Multiset.mem_singleton_self _))) (mem_keySet.mpr pending)
  refine ⟨fresh, ?_, fun other member => balanced.whole other (List.mem_append_left _ member), ?_,
    balanced.secondWhole, ?_, balanced.second_le⟩
  · rw [keySet_insert fresh, ← Multiset.singleton_add, ← add_assoc]
    exact places
  · intro key len found
    by_cases same : key = iov.iovBase
    · subst same
      rw [AList.lookup_insert] at found
      obtain rfl := Option.some.inj found
      exact balanced.whole iov (List.mem_append_right _ (List.mem_singleton_self _))
    · rw [AList.lookup_insert_ne same] at found
      exact balanced.firstWhole key len found
  · rw [size_eq_card, keySet_insert fresh, Multiset.card_cons, ← size_eq_card]
    exact room

end Balance

namespace Direction

variable {t : Transport} {socket socket' : Socket} {read : CqRead} {iovs : List Iovec}
  {iov : Iovec} {refused : Option String} {direction : Direction}

def other : Direction → Direction
  | send => recv
  | recv => send

/-- The name of the completion queue in the error texts. -/
def cq : Direction → String
  | send => "send_cq"
  | recv => "recv_cq"

theorem poll_eq_ok : direction.poll t read socket = .ok iovs socket' ↔
    ∃ table, t.poll direction.cq read (socket.pending direction) = .ok iovs table ∧
      socket' = socket.setPending direction table := by
  cases direction with
  | send =>
    rw [poll, Socket.pollCompletedSend, Socket.onSend, zoom_eq_ok]
    rfl
  | recv => exact Socket.pollCompletedRecv_eq_ok

theorem post_eq_ok : direction.post t iov refused socket = .ok () socket' ↔
    size (socket.pending direction) < socket.mCredits ∧ t.checkMr socket.mMrs iov = .ok () ∧
      refused = none ∧ iov.iovBase ∉ socket.pending direction ∧
      socket' = socket.setPending direction
        ((socket.pending direction).insert iov.iovBase iov.iovLen) := by
  cases direction
  · exact Socket.perform_eq_ok.symm.trans Socket.postSend_eq_ok
  · exact Socket.postRecv_eq_ok

theorem available_eq : direction.available socket =
    decide (size (socket.pending direction) < socket.mCredits) := by
  cases direction <;> rfl

end Direction

namespace BandwidthTest

variable {t : Transport} {buffer chunkSize bufferSize credits : ℕ} {test : BandwidthTest}
  {input : BandwidthInput} {batch : List ℕ} {iovs : List Iovec}

/-- The sizes stay, and every chunk is accounted for. -/
structure Kept (t : Transport) (buffer chunkSize bufferSize credits : ℕ) (test : BandwidthTest) :
    Prop where
  mBuffer : test.pool.mBuffer = buffer
  mChunkLen : test.pool.mChunkLen = chunkSize
  mBufferLen : test.pool.mBufferLen = bufferSize
  mCredits : test.socket.mCredits = credits
  mMrs : test.socket.mMrs = (Socket.connected t ⟨buffer, buffer + bufferSize⟩ credits).mMrs
  balanced : Balanced ((chunks buffer chunkSize (bufferSize / chunkSize)).map Iovec.iovBase)
    chunkSize credits test.pool.mPool test.socket.mPendingSend test.socket.mPendingRecv

/-- The test with other descriptors in its pool. -/
def stock (test : BandwidthTest) (descriptors : List Iovec) : BandwidthTest :=
  { test with pool := { test.pool with mPool := descriptors } }

theorem freeAll_total (inside : ∀ iov ∈ iovs, iov.iovLen ≤ test.pool.mChunkLen ∧
      test.pool.mBuffer ≤ iov.iovBase ∧
      iov.iovBase + iov.iovLen ≤ test.pool.mBuffer + test.pool.mBufferLen) :
    freeAll iovs test = .ok () (test.stock (test.pool.mPool ++ iovs)) := by
  induction iovs generalizing test with
  | nil => simp [freeAll, stock]
  | cons iov rest ih =>
    obtain ⟨⟨short, behind, before⟩, later⟩ := List.forall_mem_cons.mp inside
    have freed : test.pool.free iov = .ok (test.stock (test.pool.mPool ++ [iov])).pool := by
      rw [free, assertThat_of short, ok_bind, assertThat_of behind, ok_bind, assertThat_of before]
      rfl
    have next := @ih (test.stock (test.pool.mPool ++ [iov])) later
    simp only [stock, List.append_assoc, List.singleton_append] at next ⊢
    rw [freeAll, estate_get_bind, bind_of_ok (attempt_eq_ok.mpr ⟨freed, rfl⟩), estate_modify_bind]
    exact next

theorem alloc_of_append {rest : List Iovec} {iov : Iovec}
    (stocked : test.pool.mPool = rest ++ [iov]) : alloc test = .ok iov (test.stock rest) := by
  have taken : test.pool.alloc = .ok (iov, (test.stock rest).pool) :=
    alloc_eq_ok.mpr ⟨stocked, rfl⟩
  rw [alloc, estate_get_bind, bind_of_ok (attempt_eq_ok.mpr ⟨taken, rfl⟩)]
  rfl

section Phases

variable (kept : test.Kept t buffer chunkSize bufferSize credits)

include kept

/-- Every descriptor in the pool is a chunk of the registered buffer. -/
theorem Kept.checkMr {iov : Iovec} (member : iov ∈ test.pool.mPool) :
    t.checkMr test.socket.mMrs iov = .ok () := by
  have base : iov.iovBase ∈
      (chunks buffer chunkSize (bufferSize / chunkSize)).map Iovec.iovBase := by
    rw [← Multiset.mem_coe, ← kept.balanced.places]
    exact Multiset.mem_add.mpr (.inl (Multiset.mem_add.mpr (.inl (List.mem_map_of_mem member))))
  obtain ⟨first, last⟩ := base_inside base
  rw [kept.mMrs]
  exact Socket.checkMr_connected credits first (by rw [kept.balanced.whole iov member]; exact last)

/-- Whole chunks are taken back. -/
theorem Kept.freeAll (socket : Socket) (whole : ∀ iov ∈ iovs, iov.iovLen = chunkSize)
    (listed : ∀ iov ∈ iovs,
      iov.iovBase ∈ (chunks buffer chunkSize (bufferSize / chunkSize)).map Iovec.iovBase) :
    freeAll iovs { test with socket := socket } =
      .ok () ({ test with socket := socket }.stock (test.pool.mPool ++ iovs)) := by
  apply freeAll_total
  intro iov member
  obtain ⟨first, last⟩ := base_inside (listed iov member)
  dsimp only
  rw [kept.mBuffer, kept.mChunkLen, kept.mBufferLen, whole iov member]
  exact ⟨le_rfl, first, last⟩

/-- The tables as seen from one direction. -/
theorem Kept.balancedOf (direction : Direction) :
    Balanced ((chunks buffer chunkSize (bufferSize / chunkSize)).map Iovec.iovBase)
      chunkSize credits test.pool.mPool (test.socket.pending direction)
      (test.socket.pending direction.other) := by
  cases direction
  · exact kept.balanced
  · exact kept.balanced.symm

/-- How many chunks there are. -/
theorem Kept.total (direction : Direction) : test.pool.mPool.length +
    size (test.socket.pending direction) + size (test.socket.pending direction.other) =
      bufferSize / chunkSize := by
  have count := congrArg Multiset.card (kept.balancedOf direction).places
  simp only [Multiset.card_add, Multiset.coe_card, List.length_map, chunks,
    List.length_range] at count
  rw [size_eq_card, size_eq_card]
  exact count

/-- Other descriptors and another table for one direction. -/
theorem Kept.enter {direction : Direction} {descriptors : List Iovec} {table : PendingMap ℕ ℕ}
    (balanced : Balanced ((chunks buffer chunkSize (bufferSize / chunkSize)).map Iovec.iovBase)
      chunkSize credits descriptors table (test.socket.pending direction.other)) :
    (({ test with socket := test.socket.setPending direction table }).stock descriptors).Kept t
      buffer
      chunkSize bufferSize credits := by
  cases direction
  · exact ⟨kept.mBuffer, kept.mChunkLen, kept.mBufferLen, kept.mCredits, kept.mMrs, balanced⟩
  · exact ⟨kept.mBuffer, kept.mChunkLen, kept.mBufferLen, kept.mCredits, kept.mMrs, balanced.symm⟩

/-- With a credit and a chunk left, the next chunk is posted. -/
theorem Kept.post {direction : Direction} (positive : 0 < chunkSize)
    (credit : size (test.socket.pending direction) < credits) (stocked : test.pool.mPool ≠ []) :
    ∃ iov middle test', alloc test = .ok iov middle ∧
      onSocket (direction.post t iov none) middle = .ok () test' ∧
      test'.Kept t buffer chunkSize bufferSize credits ∧
      test'.socket.pending direction.other = test.socket.pending direction.other ∧
      size (test'.socket.pending direction) = size (test.socket.pending direction) + 1 := by
  obtain ⟨rest, iov, taken⟩ := (List.eq_nil_or_concat test.pool.mPool).resolve_left stocked
  rw [List.concat_eq_append] at taken
  have balanced := kept.balancedOf direction
  rw [taken] at balanced
  obtain ⟨fresh, after⟩ := balanced.post (bases_nodup positive) credit
  have region := kept.checkMr (taken ▸ List.mem_append_right _ (List.mem_singleton_self iov))
  have posted : direction.post t iov none test.socket = .ok () _ :=
    Direction.post_eq_ok.mpr ⟨by rw [kept.mCredits]; exact credit, region, rfl, fresh, rfl⟩
  refine ⟨iov, test.stock rest, _, alloc_of_append taken, zoom_of_ok posted, kept.enter after,
    ?_, ?_⟩
  · cases direction <;> rfl
  · rw [size_eq_card, size_eq_card, ← Multiset.card_cons, ← keySet_insert fresh]
    cases direction <;> rfl

/-- A phase ends well, and uses a credit if there is one and a chunk for it. -/
theorem Kept.phase {direction : Direction} (positive : 0 < chunkSize)
    (delivers : (input.completions direction).Delivers batch)
    (part : (batch : Multiset ℕ) ≤ keySet (test.socket.pending direction))
    (accepted : input.refused direction = none) :
    ∃ test', BandwidthTest.phase t chunkSize input direction test = .ok () test' ∧
      test'.Kept t buffer chunkSize bufferSize credits ∧
      test'.socket.pending direction.other = test.socket.pending direction.other ∧
      (credits + size (test.socket.pending direction.other) ≤ bufferSize / chunkSize →
        size (test'.socket.pending direction) =
          min credits (size (test.socket.pending direction) - batch.length + 1)) := by
  have balanced := kept.balancedOf direction
  obtain ⟨iovs, table, polled, bases⟩ := @poll_delivers _ t direction.cq _ _ delivers part
  have keys := poll_keySet polled
  obtain ⟨entered, left⟩ := poll_lookup polled
  have freed : (direction.freed chunkSize iovs).map Iovec.iovBase = iovs.map Iovec.iovBase := by
    cases direction <;> simp [Direction.freed]
  have whole : ∀ iov ∈ direction.freed chunkSize iovs, iov.iovLen = chunkSize := by
    cases direction with
    | send => simp [Direction.freed]
    | recv => exact fun iov member => balanced.firstWhole _ _ (entered iov member)
  have listed : ∀ iov ∈ direction.freed chunkSize iovs,
      iov.iovBase ∈ (chunks buffer chunkSize (bufferSize / chunkSize)).map Iovec.iovBase := by
    intro iov member
    have here : iov.iovBase ∈ iovs.map Iovec.iovBase := freed ▸ List.mem_map_of_mem member
    rw [← Multiset.mem_coe, ← balanced.places, keys]
    exact Multiset.mem_add.mpr (.inl (Multiset.mem_add.mpr (.inr
      (Multiset.mem_add.mpr (.inl here)))))
  have collected := kept.enter (balanced.collect (by rw [freed]; exact keys) left whole)
  have count : size (test.socket.pending direction) = batch.length + size table := by
    rw [size_eq_card, size_eq_card, keys, bases, Multiset.card_add, Multiset.coe_card]
  generalize same : ({ test with socket := test.socket.setPending direction table }.stock
    (test.pool.mPool ++ direction.freed chunkSize iovs)) = after at collected
  have table_eq : after.socket.pending direction = table := by
    rw [← same]
    cases direction <;> rfl
  have other_eq : after.socket.pending direction.other =
      test.socket.pending direction.other := by
    rw [← same]
    cases direction <;> rfl
  have credit : direction.available after.socket = decide (size table < credits) := by
    rw [Direction.available_eq, table_eq, collected.mCredits]
  have total := collected.total direction
  have limit := (collected.balancedOf direction).first_le
  rw [table_eq, other_eq] at total
  rw [table_eq] at limit
  have answered : onSocket (direction.poll t (input.completions direction)) test = .ok iovs
      { test with socket := test.socket.setPending direction table } :=
    zoom_of_ok (Direction.poll_eq_ok.mpr ⟨table, polled, rfl⟩)
  have opened : BandwidthTest.phase t chunkSize input direction test =
      (if direction.available after.socket && !after.pool.empty then do
        let iov ← alloc
        onSocket (direction.post t iov none)
      else pure ()) after := by
    rw [BandwidthTest.phase, bind_of_ok answered, bind_of_ok (kept.freeAll _ whole listed), same,
      estate_get_bind, accepted]
  rw [opened, credit]
  by_cases empty : after.pool.mPool = []
  · have drained : after.pool.empty = true := by rw [MemoryPool.empty, empty]; rfl
    rw [drained, Bool.not_true, Bool.and_false, if_neg Bool.false_ne_true]
    refine ⟨after, rfl, collected, other_eq, ?_⟩
    intro enough
    rw [empty, List.length_nil] at total
    rw [table_eq]
    omega
  · have filled : after.pool.empty = false := by rw [MemoryPool.empty]; simpa using empty
    rw [filled, Bool.not_false, Bool.and_true]
    by_cases room : size table < credits
    · rw [if_pos (decide_eq_true room)]
      obtain ⟨iov, middle, test', taken, posted, kept', others, grown⟩ :=
        collected.post positive (by rw [table_eq]; exact room) empty
      refine ⟨test', by rw [bind_of_ok taken, posted], kept', others.trans other_eq, ?_⟩
      intro _
      rw [grown, table_eq]
      omega
    · rw [if_neg (by simpa using room)]
      refine ⟨after, rfl, collected, other_eq, ?_⟩
      intro _
      rw [table_eq]
      omega

/-- As many receives are posted as there are credits and chunks for. -/
theorem Kept.postRecvs {count : ℕ} (positive : 0 < chunkSize)
    (credit : size test.socket.mPendingRecv + count ≤ credits)
    (stocked : count ≤ test.pool.mPool.length) :
    ∃ test', BandwidthTest.postRecvs t count test = .ok () test' ∧
      test'.Kept t buffer chunkSize bufferSize credits ∧
      test'.socket.mPendingSend = test.socket.mPendingSend ∧
      size test'.socket.mPendingRecv = size test.socket.mPendingRecv + count := by
  induction count generalizing test with
  | zero => exact ⟨test, rfl, kept, rfl, rfl⟩
  | succ count ih =>
    have room : size test.socket.mPendingRecv < credits := by omega
    have filled : test.pool.mPool ≠ [] := List.ne_nil_of_length_pos (by omega)
    obtain ⟨iov, middle, next, taken, posted, kept', others, grown⟩ :=
      @Kept.post _ _ _ _ _ _ kept .recv positive room filled
    have before := kept.total .recv
    have after := kept'.total .recv
    rw [others] at after
    dsimp only [Socket.pending] at grown before after
    obtain ⟨test', rest, last, sends, recvs⟩ := ih kept' (by omega) (by omega)
    refine ⟨test', ?_, last, sends.trans others, by omega⟩
    rw [BandwidthTest.postRecvs, bind_of_ok taken]
    exact (bind_of_ok posted).trans rest

/-- With nothing sent, the whole pool can be posted: by induction on the chunks left. -/
theorem Kept.postWhole {fuel : ℕ} (positive : 0 < chunkSize)
    (sends : size test.socket.mPendingSend = 0) (credit : bufferSize / chunkSize ≤ credits)
    (enough : test.pool.mPool.length < fuel) :
    ∃ test', BandwidthTest.postWhole t fuel test = .ok () test' ∧
      test'.Kept t buffer chunkSize bufferSize credits ∧
      test'.socket.mPendingSend = test.socket.mPendingSend ∧
      size test'.socket.mPendingRecv = bufferSize / chunkSize := by
  induction fuel generalizing test with
  | zero => cases enough
  | succ fuel ih =>
    have before := kept.total .recv
    dsimp only [Socket.pending, Direction.other] at before
    rw [BandwidthTest.postWhole, estate_get_bind, MemoryPool.empty]
    by_cases filled : test.pool.mPool = []
    · rw [filled, List.length_nil] at before
      refine ⟨test, by rw [filled]; rfl, kept, rfl, by omega⟩
    · have left := List.length_pos_iff.mpr filled
      obtain ⟨iov, middle, next, taken, posted, kept', others, grown⟩ :=
        @Kept.post _ _ _ _ _ _ kept .recv positive (by dsimp only [Socket.pending]; omega) filled
      have after := kept'.total .recv
      dsimp only [Socket.pending, Direction.other] at others grown after
      rw [others] at after
      obtain ⟨test', rest, last, same, recvs⟩ :=
        ih kept' (by rw [others]; exact sends) (by omega)
      refine ⟨test', ?_, last, same.trans others, recvs⟩
      rw [if_pos (by simpa using filled), bind_of_ok taken]
      exact (bind_of_ok posted).trans rest

end Phases

end BandwidthTest

namespace BandwidthProgram

/-- While a program runs, a direction that it does not use has no request. -/
structure Running (program : BandwidthProgram) (t : Transport) (buffer chunkSize credits : ℕ)
    (test : BandwidthTest) : Prop where
  kept : test.Kept t buffer chunkSize (program.bufferSize chunkSize credits) credits
  idle : ∀ direction ∉ program.loop, size (test.socket.pending direction) = 0

/-- What a fabric that refuses nothing may answer to a turn: requests in progress complete. -/
structure Answers (program : BandwidthProgram) (test : BandwidthTest) (input : BandwidthInput)
    (batch : Direction → List ℕ) : Prop where
  delivers : ∀ direction, (input.completions direction).Delivers (batch direction)
  part : ∀ direction ∈ program.loop,
    (batch direction : Multiset ℕ) ≤ keySet (test.socket.pending direction)
  accepted : ∀ direction, input.refused direction = none

/-- A turn of the loop, with the requests that have completed. -/
inductive Step (program : BandwidthProgram) (t : Transport) (chunkSize : ℕ) :
    BandwidthTest → (Direction → List ℕ) → BandwidthTest → Prop where
  | turn {test test' : BandwidthTest} {input : BandwidthInput} {batch : Direction → List ℕ}
      (answers : program.Answers test input batch)
      (turned : BandwidthTest.turn t chunkSize input program.loop test = .ok () test') :
      Step program t chunkSize test batch test'

variable {program : BandwidthProgram} {t : Transport} {buffer chunkSize credits fuel : ℕ}
  {test : BandwidthTest} {input : BandwidthInput} {batch : Direction → List ℕ}

theorem loop_nodup : program.loop.Nodup := by
  cases program <;> decide

section Sizes

variable (small : chunkSize * credits * 2 < 2 ^ 64)

include small

/-- The buffer has a chunk for each credit of each direction in use. -/
theorem bufferSize_eq :
    program.bufferSize chunkSize credits = chunkSize * (credits * program.loop.length) := by
  have one : chunkSize * credits % 2 ^ 64 = chunkSize * credits := Nat.mod_eq_of_lt (by omega)
  have two : chunkSize * credits * 2 % 2 ^ 64 = chunkSize * credits * 2 := Nat.mod_eq_of_lt small
  cases program <;> simp only [bufferSize, loop, List.length_cons, List.length_nil, one, two] <;>
    ring

theorem chunks_eq (positive : 0 < chunkSize) :
    program.bufferSize chunkSize credits / chunkSize = credits * program.loop.length := by
  rw [bufferSize_eq small, Nat.mul_div_cancel_left _ positive]

/-- The chunks that the other direction cannot hold are enough for the credits. -/
theorem Running.enough (running : program.Running t buffer chunkSize credits test)
    (positive : 0 < chunkSize) {direction : Direction} (used : direction ∈ program.loop) :
    credits + size (test.socket.pending direction.other) ≤
      program.bufferSize chunkSize credits / chunkSize := by
  rw [chunks_eq small positive]
  by_cases both : direction.other ∈ program.loop
  · have limit := (running.kept.balancedOf direction).second_le
    have two : program.loop.length = 2 := by
      cases program <;> cases direction <;> first | rfl | exact absurd both (by decide) |
        exact absurd used (by decide)
    rw [two]
    omega
  · rw [running.idle _ both]
    exact Nat.le_mul_of_pos_right _ (List.length_pos_of_mem used)

/-- A phase keeps the other direction and uses a credit if one is left. -/
theorem Running.phase (running : program.Running t buffer chunkSize credits test)
    (positive : 0 < chunkSize) {direction : Direction} (used : direction ∈ program.loop)
    (delivers : (input.completions direction).Delivers (batch direction))
    (part : (batch direction : Multiset ℕ) ≤ keySet (test.socket.pending direction))
    (accepted : input.refused direction = none) :
    ∃ test', BandwidthTest.phase t chunkSize input direction test = .ok () test' ∧
      program.Running t buffer chunkSize credits test' ∧
      (∀ other ≠ direction, test'.socket.pending other = test.socket.pending other) ∧
      size (test'.socket.pending direction) =
        min credits (size (test.socket.pending direction) - (batch direction).length + 1) := by
  obtain ⟨test', ended, kept, others, used'⟩ :=
    running.kept.phase positive delivers part accepted
  have apart : ∀ other ≠ direction, test'.socket.pending other = test.socket.pending other := by
    intro other differ
    have same : other = direction.other := by
      cases other <;> cases direction <;> first | rfl | exact absurd rfl differ
    rw [same, others]
  refine ⟨test', ended, ⟨kept, ?_⟩, apart, used' (running.enough small positive used)⟩
  intro other absent
  rw [apart other (fun same => absent (same ▸ used))]
  exact running.idle other absent

/-- By induction on the directions of a turn: each phase leaves the others as they are. -/
theorem Running.turn {order : List Direction}
    (running : program.Running t buffer chunkSize credits test) (positive : 0 < chunkSize)
    (distinct : order.Nodup) (used : ∀ direction ∈ order, direction ∈ program.loop)
    (delivers : ∀ direction, (input.completions direction).Delivers (batch direction))
    (part : ∀ direction ∈ order,
      (batch direction : Multiset ℕ) ≤ keySet (test.socket.pending direction))
    (accepted : ∀ direction, input.refused direction = none) :
    ∃ test', BandwidthTest.turn t chunkSize input order test = .ok () test' ∧
      program.Running t buffer chunkSize credits test' ∧
      (∀ other ∉ order, test'.socket.pending other = test.socket.pending other) ∧
      ∀ direction ∈ order, size (test'.socket.pending direction) =
        min credits (size (test.socket.pending direction) - (batch direction).length + 1) := by
  induction order generalizing test with
  | nil => exact ⟨test, rfl, running, fun _ _ => rfl, by simp⟩
  | cons direction order ih =>
    obtain ⟨fresh, tail⟩ := List.nodup_cons.mp distinct
    obtain ⟨here, later⟩ := List.forall_mem_cons.mp used
    obtain ⟨next, ended, kept, apart, grown⟩ := running.phase small positive here
      (delivers direction) (part direction List.mem_cons_self) (accepted direction)
    have behind : ∀ other ∈ order, next.socket.pending other = test.socket.pending other :=
      fun other member => apart other (fun same => fresh (same ▸ member))
    obtain ⟨test', rest, last, outside, inside⟩ := ih kept tail later fun other member => by
      rw [behind other member]
      exact part other (List.mem_cons_of_mem _ member)
    refine ⟨test', ?_, last, ?_, ?_⟩
    · rw [BandwidthTest.turn, bind_of_ok ended, rest]
    · intro other absent
      obtain ⟨differ, absent⟩ := not_or.mp (mt List.mem_cons.mpr absent)
      rw [outside other absent, apart other differ]
    · intro other member
      rcases List.mem_cons.mp member with rfl | member
      · rw [outside other fresh, grown]
      · rw [inside other member, behind other member]

/-- The pool is built, and nothing is in progress. -/
theorem construct_running (positive : 0 < chunkSize) (credited : 0 < credits)
    (enough : credits * program.loop.length < fuel) :
    ∃ test, BandwidthTest.construct t chunkSize fuel buffer
        (program.bufferSize chunkSize credits) credits = .ok test ∧
      program.Running t buffer chunkSize credits test ∧
      ∀ direction : Direction, size (test.socket.pending direction) = 0 := by
  have whole : program.bufferSize chunkSize credits =
      chunkSize * (credits * program.loop.length) := bufferSize_eq small
  have count : program.bufferSize chunkSize credits / chunkSize = credits * program.loop.length :=
    chunks_eq small positive
  have used : 0 < program.loop.length := by cases program <;> decide
  have sizes : chunkSize ≤ program.bufferSize chunkSize credits := by
    rw [whole]
    exact Nat.le_mul_of_pos_right _ (Nat.mul_pos credited used)
  have bounded : program.bufferSize chunkSize credits < 2 ^ 64 := by
    cases program <;> exact Nat.mod_lt _ (by norm_num)
  have cut : MemoryPool.construct fuel buffer (program.bufferSize chunkSize credits) chunkSize =
      .ok ⟨buffer, chunkSize, program.bufferSize chunkSize credits,
        chunks buffer chunkSize (program.bufferSize chunkSize credits / chunkSize)⟩ := by
    rw [construct_of_sizes sizes, fill_of_positive sizes bounded positive,
      if_pos (by rw [count]; exact enough)]
    rfl
  refine ⟨_, bind_eq_ok.mpr ⟨_, cut, rfl⟩, ⟨⟨rfl, rfl, rfl, ?_, rfl, ?_⟩, ?_⟩, ?_⟩
  · cases t <;> rfl
  · have initial : Balanced ((chunks buffer chunkSize
        (program.bufferSize chunkSize credits / chunkSize)).map Iovec.iovBase) chunkSize credits
        (chunks buffer chunkSize (program.bufferSize chunkSize credits / chunkSize)) ∅ ∅ := by
      refine ⟨by simp, ?_, by simp, by simp, Nat.zero_le _, Nat.zero_le _⟩
      intro iov member
      obtain ⟨j, _, rfl⟩ := List.mem_map.mp member
      rfl
    cases t <;> exact initial
  · intro direction _
    cases t <;> cases direction <;> rfl
  · intro direction
    cases t <;> cases direction <;> rfl

section Prepare

variable (running : program.Running t buffer chunkSize credits test) (positive : 0 < chunkSize)
  (idle : ∀ direction : Direction, size (test.socket.pending direction) = 0)

include running positive idle

/-- A program of both directions posts a receive for each credit. -/
theorem postRecvs_running (both : ∀ direction, direction ∈ program.loop) :
    ∃ test', BandwidthTest.postRecvs t credits test = .ok () test' ∧
      program.Running t buffer chunkSize credits test' ∧
      size test'.socket.mPendingRecv = credits := by
  have total := running.kept.total .recv
  rw [idle, idle, Nat.add_zero, chunks_eq small positive] at total
  have fewer := Nat.le_mul_of_pos_right credits (List.length_pos_of_mem (both .recv))
  have recvs : size test.socket.mPendingRecv = 0 := idle .recv
  obtain ⟨test', posted, kept, _, grown⟩ :=
    @BandwidthTest.Kept.postRecvs _ _ _ _ _ _ running.kept credits positive (by omega) (by omega)
  exact ⟨test', posted, ⟨kept, fun direction absent => absurd (both direction) absent⟩, by omega⟩

/-- A program that only receives posts its whole pool, which is one receive for each credit. -/
theorem postWhole_running (only : program.loop = [.recv]) (enough : credits < fuel) :
    ∃ test', BandwidthTest.postWhole t fuel test = .ok () test' ∧
      program.Running t buffer chunkSize credits test' ∧
      size test'.socket.mPendingRecv = credits := by
  have count : program.bufferSize chunkSize credits / chunkSize = credits * program.loop.length :=
    chunks_eq small positive
  rw [only, List.length_singleton, Nat.mul_one] at count
  have total := running.kept.total .recv
  rw [idle, idle, Nat.add_zero] at total
  obtain ⟨test', posted, kept, sends, recvs⟩ :=
    @BandwidthTest.Kept.postWhole _ _ _ _ _ _ running.kept fuel positive (idle .send) count.le
      (by omega)
  refine ⟨test', posted, ⟨kept, ?_⟩, recvs.trans count⟩
  intro direction absent
  cases direction with
  | send => exact (congrArg size sends).trans (idle .send)
  | recv => exact absurd (only ▸ List.mem_singleton_self _) absent

end Prepare

/-- A program enters its loop with a receive posted for each credit, if it receives. -/
theorem start_running (positive : 0 < chunkSize) (credited : 0 < credits)
    (enough : credits * program.loop.length < fuel) :
    ∃ test, program.start t fuel buffer chunkSize credits = .ok test ∧
      program.Running t buffer chunkSize credits test ∧
      (.recv ∈ program.loop → size test.socket.mPendingRecv = credits) := by
  obtain ⟨first, built, running, idle⟩ :=
    @construct_running program t buffer chunkSize credits fuel small positive credited enough
  have prepared : ∃ test, program.prepare t credits fuel first = .ok () test ∧
      program.Running t buffer chunkSize credits test ∧
      (.recv ∈ program.loop → size test.socket.mPendingRecv = credits) := by
    cases program with
    | tClient => exact ⟨first, rfl, running, by simp [loop]⟩
    | tServer =>
      obtain ⟨test, posted, last, recvs⟩ := postWhole_running small running positive idle rfl
        (by simpa [loop] using enough)
      exact ⟨test, posted, last, fun _ => recvs⟩
    | tClient2 | tServer2 =>
      obtain ⟨test, posted, last, recvs⟩ := postRecvs_running small running positive idle
        (by intro direction; cases direction <;> decide)
      exact ⟨test, posted, last, fun _ => recvs⟩
  obtain ⟨test, prepared, last, recvs⟩ := prepared
  refine ⟨test, ?_, last, recvs⟩
  rw [start, built, ok_bind, prepared]
  rfl

/-- Every turn ends well: by induction on the run. -/
theorem run_running {first : BandwidthTest} {trace : List (Direction → List ℕ)}
    (positive : 0 < chunkSize) (running : program.Running t buffer chunkSize credits first)
    (run : Run (program.Step t chunkSize) first trace test) :
    program.Running t buffer chunkSize credits test := by
  induction run with
  | nil => exact running
  | snoc _ step ih =>
    obtain ⟨answers, turned⟩ := step
    obtain ⟨_, ended, last, _⟩ := ih.turn small positive loop_nodup (fun _ used => used)
      answers.delivers answers.part answers.accepted
    rw [turned] at ended
    cases ended
    exact last

/-- The four programs start with every receive credit in use. Then no turn fails, however the
fabric completes requests in progress: each chunk is in the pool or in one table with its whole
length, and a direction that has a credit left after its poll always has a chunk for it, so that
each turn ends with as many requests as the credits and one post a turn allow. -/
theorem bandwidth_runs (positive : 0 < chunkSize) (credited : 0 < credits)
    (enough : credits * program.loop.length < fuel) :
    ∃ first, program.start t fuel buffer chunkSize credits = .ok first ∧
      (.recv ∈ program.loop → size first.socket.mPendingRecv = credits) ∧
      ∀ trace test, Run (program.Step t chunkSize) first trace test →
        test.Kept t buffer chunkSize (program.bufferSize chunkSize credits) credits ∧
        ∀ input batch, program.Answers test input batch → ∃ test',
          BandwidthTest.turn t chunkSize input program.loop test = .ok () test' ∧
          ∀ direction ∈ program.loop, size (test'.socket.pending direction) =
            min credits (size (test.socket.pending direction) - (batch direction).length + 1) := by
  obtain ⟨first, started, running, recvs⟩ :=
    @start_running program t buffer chunkSize credits fuel small positive credited enough
  refine ⟨first, started, recvs, ?_⟩
  intro trace test run
  have last := run_running small positive running run
  refine ⟨last.kept, ?_⟩
  intro input batch answers
  obtain ⟨test', turned, _, _, used⟩ := last.turn small positive loop_nodup (fun _ used => used)
    answers.delivers answers.part answers.accepted
  exact ⟨test', turned, used⟩

end Sizes

/-- Two chunks of eight bytes in each direction. -/
theorem bandwidth_runs_two : ∃ first, tServer2.start .verbs 9 64 8 2 = .ok first ∧
    (.recv ∈ tServer2.loop → size first.socket.mPendingRecv = 2) ∧
    ∀ trace test, Run (tServer2.Step .verbs 8) first trace test →
      test.Kept .verbs 64 8 (tServer2.bufferSize 8 2) 2 ∧
      ∀ input batch, tServer2.Answers test input batch → ∃ test',
        BandwidthTest.turn .verbs 8 input tServer2.loop test = .ok () test' ∧
        ∀ direction ∈ tServer2.loop, size (test'.socket.pending direction) =
          min 2 (size (test.socket.pending direction) - (batch direction).length + 1) :=
  bandwidth_runs (by decide) (by decide) (by decide) (by decide)

end BandwidthProgram

end Lseb
