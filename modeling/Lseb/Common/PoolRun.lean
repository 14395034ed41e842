import Lseb.Common.MemoryPool

/-!
# The memory pool in use

The users of a pool hand back the base of a chunk they hold, with the length that
they posted or with one that they write by hand. The pool keeps it with the base,
so that the bases stay those of the chunks but the lengths are whatever came
back.
-/

namespace Lseb

open Foundation

/-- A pool and the chunks that its users hold. -/
structure PoolUse where
  pool : MemoryPool
  allocated : List Iovec
  deriving DecidableEq, Repr

inductive PoolEvent where
  | alloc (iov : Iovec)
  | free (iov : Iovec)
  deriving DecidableEq, Repr

/-- A chunk is returned by its base, with any length that the assertions let through. -/
inductive PoolStep : PoolUse → PoolEvent → PoolUse → Prop where
  | alloc {use : PoolUse} {iov : Iovec} {pool : MemoryPool}
      (taken : use.pool.alloc = .ok (iov, pool)) :
      PoolStep use (.alloc iov) ⟨pool, iov :: use.allocated⟩
  | free {use : PoolUse} {iov chunk : Iovec} {pool : MemoryPool} (held : chunk ∈ use.allocated)
      (base : iov.iovBase = chunk.iovBase) (returned : use.pool.free iov = .ok pool) :
      PoolStep use (.free iov) ⟨pool, use.allocated.erase chunk⟩

def AllocsWhole (chunkLen : ℕ) (trace : List PoolEvent) : Prop :=
  ∀ iov, PoolEvent.alloc iov ∈ trace → iov.iovLen = chunkLen

def FreesWhole (chunkLen : ℕ) (trace : List PoolEvent) : Prop :=
  ∀ iov, PoolEvent.free iov ∈ trace → iov.iovLen = chunkLen

section Traces

variable {chunkLen : ℕ} {first second : List PoolEvent} {iov : Iovec}

theorem allocsWhole_append : AllocsWhole chunkLen (first ++ second) ↔
    AllocsWhole chunkLen first ∧ AllocsWhole chunkLen second := by
  simp [AllocsWhole, or_imp, forall_and]

theorem freesWhole_append : FreesWhole chunkLen (first ++ second) ↔
    FreesWhole chunkLen first ∧ FreesWhole chunkLen second := by
  simp [FreesWhole, or_imp, forall_and]

@[simp] theorem allocsWhole_nil : AllocsWhole chunkLen [] := by
  simp [AllocsWhole]

@[simp] theorem allocsWhole_alloc : AllocsWhole chunkLen [.alloc iov] ↔ iov.iovLen = chunkLen := by
  simp [AllocsWhole]

@[simp] theorem allocsWhole_free : AllocsWhole chunkLen [.free iov] := by
  simp [AllocsWhole]

@[simp] theorem freesWhole_nil : FreesWhole chunkLen [] := by
  simp [FreesWhole]

@[simp] theorem freesWhole_alloc : FreesWhole chunkLen [.alloc iov] := by
  simp [FreesWhole]

@[simp] theorem freesWhole_free : FreesWhole chunkLen [.free iov] ↔ iov.iovLen = chunkLen := by
  simp [FreesWhole]

end Traces

/-- No chunk is lost, and the next one is in the buffer and apart from those in use. -/
structure PoolUse.Accounted (buffer bufferLen chunkLen : ℕ) (use : PoolUse) : Prop where
  count : use.pool.available + use.allocated.length = bufferLen / chunkLen
  inside : ∀ iov pool, use.pool.alloc = .ok (iov, pool) →
    buffer ≤ iov.iovBase ∧ iov.iovBase + chunkLen ≤ buffer + bufferLen
  apart : ∀ iov pool, use.pool.alloc = .ok (iov, pool) → ∀ chunk ∈ use.allocated,
    iov.iovBase + chunkLen ≤ chunk.iovBase ∨ chunk.iovBase + chunkLen ≤ iov.iovBase

namespace MemoryPool

theorem alloc_eq_ok {pool next : MemoryPool} {iov : Iovec} :
    pool.alloc = .ok (iov, next) ↔
      pool.mPool = next.mPool ++ [iov] ∧ next = { pool with mPool := next.mPool } := by
  constructor
  · intro taken
    rw [alloc] at taken
    split at taken
    · cases taken
    · rename_i last found
      cases taken
      exact ⟨(List.dropLast_append_getLast? _ found).symm, rfl⟩
  · rintro ⟨split, same⟩
    rw [alloc, split, List.getLast?_concat, List.dropLast_concat, same]

theorem free_eq_ok {pool next : MemoryPool} {iov : Iovec} (returned : pool.free iov = .ok next) :
    next = { pool with mPool := pool.mPool ++ [iov] } := by
  obtain ⟨_, _, returned⟩ := bind_eq_ok.mp returned
  obtain ⟨_, _, returned⟩ := bind_eq_ok.mp returned
  obtain ⟨_, _, returned⟩ := bind_eq_ok.mp returned
  cases returned
  rfl

section Chunks

variable {buffer bufferLen chunkLen count : ℕ}

theorem mem_bases {base : ℕ} : base ∈ (chunks buffer chunkLen count).map Iovec.iovBase ↔
    ∃ j < count, base = buffer + j * chunkLen := by
  simp [chunks, eq_comm]

theorem bases_nodup (positive : 0 < chunkLen) :
    ((chunks buffer chunkLen count).map Iovec.iovBase).Nodup := by
  rw [chunks, List.map_map]
  apply List.nodup_range.map
  intro i j same
  exact Nat.eq_of_mul_eq_mul_right positive (Nat.add_left_cancel same)

theorem base_inside {base : ℕ}
    (member : base ∈ (chunks buffer chunkLen (bufferLen / chunkLen)).map Iovec.iovBase) :
    buffer ≤ base ∧ base + chunkLen ≤ buffer + bufferLen := by
  obtain ⟨j, below, rfl⟩ := mem_bases.mp member
  have last : (j + 1) * chunkLen ≤ bufferLen :=
    (Nat.mul_le_mul_right _ below).trans (Nat.div_mul_le_self _ _)
  rw [Nat.succ_mul] at last
  omega

/-- Different chunks do not overlap. -/
theorem bases_apart {first second : ℕ}
    (memberFirst : first ∈ (chunks buffer chunkLen count).map Iovec.iovBase)
    (memberSecond : second ∈ (chunks buffer chunkLen count).map Iovec.iovBase)
    (differ : first ≠ second) :
    first + chunkLen ≤ second ∨ second + chunkLen ≤ first := by
  obtain ⟨i, _, rfl⟩ := mem_bases.mp memberFirst
  obtain ⟨j, _, rfl⟩ := mem_bases.mp memberSecond
  rcases Nat.lt_trichotomy i j with below | rfl | above
  · left
    have next := Nat.mul_le_mul_right chunkLen below
    rw [Nat.succ_mul] at next
    omega
  · exact absurd rfl differ
  · right
    have next := Nat.mul_le_mul_right chunkLen above
    rw [Nat.succ_mul] at next
    omega

end Chunks

end MemoryPool

open MemoryPool

namespace PoolUse

/-- The bases of the descriptors in the pool and of those in use are those of all chunks. -/
structure Sound (buffer bufferLen chunkLen : ℕ) (use : PoolUse) : Prop where
  length : use.pool.mChunkLen = chunkLen
  bases : ((use.pool.mPool ++ use.allocated).map Iovec.iovBase).Perm
    ((chunks buffer chunkLen (bufferLen / chunkLen)).map Iovec.iovBase)

namespace Sound

variable {buffer bufferLen chunkLen : ℕ} {use next : PoolUse} {event : PoolEvent}

theorem step (sound : use.Sound buffer bufferLen chunkLen) (taken : PoolStep use event next) :
    next.Sound buffer bufferLen chunkLen := by
  cases taken with
  | @alloc iov pool taken =>
    obtain ⟨split, same⟩ := alloc_eq_ok.mp taken
    constructor
    · rw [same]
      exact sound.length
    · have bases := sound.bases
      rwa [split, List.append_assoc] at bases
  | @free iov chunk pool held base returned =>
    cases free_eq_ok returned
    constructor
    · exact sound.length
    · refine List.Perm.trans ?_ sound.bases
      have moved := (List.perm_cons_erase held).map Iovec.iovBase
      simp only [List.map_append, List.append_assoc, List.map_cons,
        List.singleton_append] at moved ⊢
      rw [base]
      exact moved.symm.append_left _

/-- The bases differ, and each is that of a chunk. -/
theorem accounted (sound : use.Sound buffer bufferLen chunkLen) (positive : 0 < chunkLen) :
    use.Accounted buffer bufferLen chunkLen := by
  refine ⟨?_, ?_, ?_⟩
  · have total := sound.bases.length_eq
    simpa [MemoryPool.available, chunks] using total
  · intro iov pool taken
    obtain ⟨split, _⟩ := alloc_eq_ok.mp taken
    apply base_inside
    apply sound.bases.subset
    simp [split]
  · intro iov pool taken chunk held
    obtain ⟨split, _⟩ := alloc_eq_ok.mp taken
    have distinct := sound.bases.nodup_iff.mpr (bases_nodup positive)
    rw [split, List.map_append, List.nodup_append] at distinct
    have here : iov.iovBase ∈ (pool.mPool ++ [iov]).map Iovec.iovBase := by simp
    have there := List.mem_map_of_mem (f := Iovec.iovBase) held
    have differ := distinct.2.2 _ here _ there
    refine bases_apart (sound.bases.subset ?_) (sound.bases.subset ?_) differ
    · rw [split, List.map_append]
      exact List.mem_append_left _ here
    · rw [List.map_append]
      exact List.mem_append_right _ there

end Sound

end PoolUse

section Run

variable {buffer bufferLen chunkLen fuel : ℕ} {pool : MemoryPool} {use : PoolUse}
  {trace : List PoolEvent}

/-- While the pool holds whole chunks, so do its users. -/
theorem allocsWhole_of_freesWhole (stocked : ∀ iov ∈ pool.mPool, iov.iovLen = chunkLen)
    (run : Run PoolStep ⟨pool, []⟩ trace use) (whole : FreesWhole chunkLen trace) :
    (∀ iov ∈ use.pool.mPool, iov.iovLen = chunkLen) ∧ AllocsWhole chunkLen trace := by
  induction run with
  | nil => exact ⟨stocked, allocsWhole_nil⟩
  | @snoc trace use next event before taken ih =>
    obtain ⟨earlier, here⟩ := freesWhole_append.mp whole
    obtain ⟨kept, allocs⟩ := ih earlier
    cases taken with
    | @alloc iov pool taken =>
      obtain ⟨split, _⟩ := alloc_eq_ok.mp taken
      rw [split, List.forall_mem_append, List.forall_mem_singleton] at kept
      obtain ⟨below, top⟩ := kept
      exact ⟨below, allocsWhole_append.mpr ⟨allocs, allocsWhole_alloc.mpr top⟩⟩
    | @free iov chunk pool held base returned =>
      cases free_eq_ok returned
      constructor
      · rw [List.forall_mem_append, List.forall_mem_singleton]
        exact ⟨kept, freesWhole_free.mp here⟩
      · exact allocsWhole_append.mpr ⟨allocs, allocsWhole_free⟩

/-- A length that was returned stays in the pool until it is handed out again. -/
theorem returned_stocked_or_allocated {start : PoolUse} {iov : Iovec}
    (run : Run PoolStep start trace use) (returned : PoolEvent.free iov ∈ trace) :
    iov ∈ use.pool.mPool ∨ PoolEvent.alloc iov ∈ trace := by
  induction run with
  | nil => cases returned
  | @snoc trace use next event before taken ih =>
    cases taken with
    | @alloc other pool taken =>
      obtain ⟨split, _⟩ := alloc_eq_ok.mp taken
      rcases List.mem_append.mp returned with earlier | here
      · rcases ih earlier with stocked | again
        · rw [split] at stocked
          rcases List.mem_append.mp stocked with below | top
          · exact .inl below
          · cases List.mem_singleton.mp top
            exact .inr List.mem_concat_self
        · exact .inr (List.mem_append_left _ again)
      · cases List.mem_singleton.mp here
    | @free other chunk pool held base accepted =>
      cases free_eq_ok accepted
      rcases List.mem_append.mp returned with earlier | here
      · exact (ih earlier).imp (List.mem_append_left _) (List.mem_append_left _)
      · cases List.mem_singleton.mp here
        exact .inl List.mem_concat_self

/-- By induction on the descriptors above it, whatever the pool has will be handed out. -/
theorem exists_allocs {iov : Iovec} (descriptors : List Iovec)
    (stocked : iov ∈ descriptors) (use : PoolUse) (same : use.pool.mPool = descriptors) :
    ∃ more later, Run PoolStep use more later ∧ PoolEvent.alloc iov ∈ more ∧
      FreesWhole chunkLen more := by
  induction descriptors using List.reverseRecOn generalizing use with
  | nil => cases stocked
  | append_singleton rest last ih =>
    have taken : use.pool.alloc = .ok (last, { use.pool with mPool := rest }) :=
      alloc_eq_ok.mpr ⟨same, rfl⟩
    have first : Run PoolStep use [.alloc last] _ := Run.single (.alloc taken)
    rcases List.mem_append.mp stocked with below | top
    · obtain ⟨more, later, run, again, whole⟩ :=
        ih below ⟨{ use.pool with mPool := rest }, last :: use.allocated⟩ rfl
      exact ⟨[.alloc last] ++ more, later, first.append run, List.mem_append_right _ again,
        freesWhole_append.mpr ⟨freesWhole_alloc, whole⟩⟩
    · cases List.mem_singleton.mp top
      exact ⟨_, _, first, List.mem_singleton_self _, freesWhole_alloc⟩

/-- Whatever lengths come back, no chunk is lost or handed out twice; but all chunks handed
out from then on are whole exactly if all that came back were. -/
theorem memoryPool_whole_iff (positive : 0 < chunkLen) (sizes : chunkLen ≤ bufferLen)
    (small : bufferLen < 2 ^ 64) (built : construct fuel buffer bufferLen chunkLen = .ok pool)
    (run : Run PoolStep ⟨pool, []⟩ trace use) :
    use.Accounted buffer bufferLen chunkLen ∧
      ((∀ more later, Run PoolStep use more later → FreesWhole chunkLen more →
        AllocsWhole chunkLen (trace ++ more)) ↔ FreesWhole chunkLen trace) := by
  rw [construct_of_sizes sizes, fill_of_positive sizes small positive] at built
  split_ifs at built
  · cases built
    constructor
    · have sound : use.Sound buffer bufferLen chunkLen := by
        refine run.invariant (I := fun _ use => use.Sound buffer bufferLen chunkLen) ?_ ?_
        · exact ⟨rfl, by simp⟩
        · exact fun _ _ _ _ _ sound taken => sound.step taken
      exact sound.accounted positive
    constructor
    · intro always iov returned
      rcases returned_stocked_or_allocated run returned with stocked | again
      · obtain ⟨more, later, further, handed, whole⟩ :=
          @exists_allocs chunkLen iov _ stocked use rfl
        exact always more later further whole iov (List.mem_append_right _ handed)
      · exact always [] use .nil freesWhole_nil iov (List.mem_append_left _ again)
    · intro whole more later further wholeMore
      refine (allocsWhole_of_freesWhole ?_ (run.append further)
        (freesWhole_append.mpr ⟨whole, wholeMore⟩)).2
      intro iov member
      obtain ⟨j, _, rfl⟩ := List.mem_map.mp member
      rfl
  · cases built

/-- Of three chunks, the last is handed out and comes back whole. -/
theorem memoryPool_whole_three :
    (PoolUse.mk ⟨4096, 32, 100, chunks 4096 32 3⟩ []).Accounted 4096 100 32 ∧
      ((∀ more later, Run PoolStep ⟨⟨4096, 32, 100, chunks 4096 32 3⟩, []⟩ more later →
        FreesWhole 32 more → AllocsWhole 32 ([.alloc ⟨4160, 32⟩, .free ⟨4160, 32⟩] ++ more)) ↔
        FreesWhole 32 [.alloc ⟨4160, 32⟩, .free ⟨4160, 32⟩]) :=
  have taken : Run PoolStep ⟨⟨4096, 32, 100, chunks 4096 32 3⟩, []⟩ [.alloc ⟨4160, 32⟩]
      ⟨⟨4096, 32, 100, chunks 4096 32 2⟩, [⟨4160, 32⟩]⟩ := Run.single (.alloc rfl)
  @memoryPool_whole_iff 4096 100 32 5 _ _ _ (by decide) (by decide) (by decide) rfl
    (taken.snoc (.free List.mem_cons_self rfl rfl))

/-- A chunk that comes back with eight bytes has eight bytes for the next user. -/
theorem not_memoryPool_whole : ¬∀ buffer bufferLen chunkLen fuel pool trace use,
    0 < chunkLen → chunkLen ≤ bufferLen → bufferLen < 2 ^ 64 →
    construct fuel buffer bufferLen chunkLen = .ok pool → Run PoolStep ⟨pool, []⟩ trace use →
    use.Accounted buffer bufferLen chunkLen ∧ AllocsWhole chunkLen trace := by
  intro always
  have taken : Run PoolStep ⟨⟨4096, 32, 64, chunks 4096 32 2⟩, []⟩ [.alloc ⟨4128, 32⟩]
      ⟨⟨4096, 32, 64, chunks 4096 32 1⟩, [⟨4128, 32⟩]⟩ := Run.single (.alloc rfl)
  have returned := taken.snoc (@PoolStep.free _ ⟨4128, 8⟩ _ _ List.mem_cons_self rfl rfl)
  have again := returned.snoc (.alloc rfl)
  have whole := (always 4096 64 32 4 _ _ _ (by decide) (by decide) (by decide) rfl again).2
  have eight := whole ⟨4128, 8⟩ (by simp)
  cases eight

end Run

end Lseb
