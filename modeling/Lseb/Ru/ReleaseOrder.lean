import Lseb.Ru.Availability

/-!
# The order of releases

Completions are reported in any order and in batches of any size. A release
only flags entries and frees the front of the queue as far as it is flagged, so
what a series of batches leaves behind depends on their union alone.
-/

namespace Lseb

open Foundation

theorem Generator.releaseEvents_id {generator generator' : Generator} {n : ℕ}
    (released : generator.releaseEvents n = .ok generator') : generator'.mId = generator.mId := by
  obtain ⟨_, _, released⟩ := bind_eq_ok.mp released
  split_ifs at released
  · obtain ⟨_, _, released⟩ := bind_eq_ok.mp released
    obtain ⟨_, _, returned⟩ := bind_eq_ok.mp released
    cases returned
    rfl
  · cases released
    rfl

namespace Accumulator

variable {block blocks dataBegin : ℕ} {length : ℕ → ℕ} {ledger ledger' : Ledger block blocks}
  {acc acc' : Accumulator} {vect first second : List ℕ}

/-- No release changes the generator's id or the data. -/
theorem releaseMultievents_kept (released : acc.releaseMultievents vect = .ok acc') :
    acc'.mController.mGenerator.mId = acc.mController.mGenerator.mId ∧
      acc'.mDataRange = acc.mDataRange := by
  obtain ⟨queue, _, released⟩ := bind_eq_ok.mp released
  obtain ⟨_, freed, returned⟩ := bind_eq_ok.mp released
  cases returned
  unfold releaseContiguousMemory at freed
  dsimp only at freed
  split_ifs at freed
  · obtain ⟨_, _, freed⟩ := bind_eq_ok.mp freed
    obtain ⟨_, controller, returned⟩ := bind_eq_ok.mp freed
    obtain ⟨_, _, controller⟩ := bind_eq_ok.mp controller
    obtain ⟨_, generator, kept⟩ := bind_eq_ok.mp controller
    cases returned
    cases kept
    exact ⟨Generator.releaseEvents_id generator, rfl⟩
  · cases freed
    exact ⟨rfl, rfl⟩

/-- The books and the queue determine the rest of an accumulator. -/
theorem Accounts.unique (accounts : acc.Accounts ledger) (accounts' : acc'.Accounts ledger')
    (acquired : ledger'.acquired = ledger.acquired)
    (generated : ledger'.generated = ledger.generated)
    (queue : acc'.mIovMultievents = acc.mIovMultievents)
    (id : acc'.mController.mGenerator.mId = acc.mController.mGenerator.mId)
    (data : acc'.mDataRange = acc.mDataRange) : acc' = acc := by
  have outstanding := accounts.outstanding
  have outstanding' := accounts'.outstanding
  obtain rfl : ledger' = ledger := by
    cases ledger
    cases ledger'
    simp only [Ledger.mk.injEq] at *
    rw [queue] at outstanding'
    omega
  have buffer := accounts.generatorRing.unique accounts'.generatorRing
    (accounts'.generatorFirst.trans accounts.generatorFirst.symm)
  have count := accounts'.unbundled.trans accounts.unbundled.symm
  obtain ⟨range, controllerRange, events, _, _, controllerCursor, controllerCount, cursor,
    releaseCursor, _, _⟩ := accounts
  obtain ⟨range', controllerRange', events', _, _, controllerCursor', controllerCount', cursor',
    releaseCursor', _, _⟩ := accounts'
  obtain ⟨⟨⟨_, _⟩, _, _, _⟩, _, _, _, _, _, _, _⟩ := acc
  obtain ⟨⟨⟨_, _⟩, _, _, _⟩, _, _, _, _, _, _, _⟩ := acc'
  simp only [Nat.add_right_cancel_iff] at *
  subst_vars
  rfl

theorem Releasable.unmarked (releasable : acc.Releasable vect) :
    ∀ address ∈ vect, address ∈ acc.mIovMultievents.unmarked :=
  fun address member => MarkedQueue.mem_unmarked.mpr (releasable.waiting address member)

theorem Releasable.markAll (releasable : acc.Releasable vect) :
    MarkedQueue.markAll vect acc.mIovMultievents =
      .ok (MarkedQueue.flag vect acc.mIovMultievents) :=
  MarkedQueue.markAll_eq_flag releasable.addresses releasable.distinct releasable.unmarked

/-- The queue that a release leaves behind. -/
def released (acc : Accumulator) (vect : List ℕ) : MarkedQueue ℕ :=
  (MarkedQueue.flag vect acc.mIovMultievents).dropWhile (·.2)

/-- How many entries at the front a release frees. -/
def freed (acc : Accumulator) (vect : List ℕ) : ℕ :=
  (MarkedQueue.flag vect acc.mIovMultievents).completed

/-- A release of a batch, in terms of the entries it flags. -/
theorem Tracks.releaseMultievents_flag (tracks : acc.Tracks ledger dataBegin length)
    (releasable : acc.Releasable vect) :
    ∃ acc', ∃ outstanding : ledger.released + acc.freed vect ≤ ledger.acquired,
      acc.releaseMultievents vect = .ok acc' ∧
      acc'.Tracks (ledger.release _ outstanding) dataBegin length ∧
      acc'.mIovMultievents = acc.released vect := by
  obtain ⟨outstanding, acc', release, tracks', dropped, _⟩ :=
    releaseMultievents_of tracks releasable.markAll
  rw [MarkedQueue.drop_completed] at dropped
  exact ⟨acc', outstanding, release, tracks', dropped⟩

/-- Only the set of flagged addresses matters. -/
theorem releaseMultievents_perm (releasable : acc.Releasable second) (same : first.Perm second) :
    acc.releaseMultievents first = acc.releaseMultievents second := by
  have releasable' : acc.Releasable first := ⟨same.nodup_iff.mpr releasable.distinct,
    fun address member => releasable.waiting address (same.mem_iff.mp member),
    releasable.addresses⟩
  rw [releaseMultievents, releaseMultievents, flagCompleted_eq_ok.mpr releasable.markAll,
    flagCompleted_eq_ok.mpr releasable'.markAll,
    MarkedQueue.flag_congr fun address => same.mem_iff]

theorem Releasable.left (releasable : acc.Releasable (first ++ second)) : acc.Releasable first :=
  ⟨releasable.distinct.of_append_left,
    fun address member => releasable.waiting address (List.mem_append_left _ member),
    releasable.addresses⟩

/-- What is left of a batch can still be released after its first part. -/
theorem Releasable.right (releasable : acc.Releasable (first ++ second))
    (queue : acc'.mIovMultievents = acc.released first) : acc'.Releasable second := by
  obtain ⟨_, distinct, apart⟩ := List.nodup_append'.mp releasable.distinct
  refine ⟨distinct, ?_, ?_⟩
  · intro address member
    have waiting := releasable.unmarked address (List.mem_append_right _ member)
    rw [queue, released, ← MarkedQueue.mem_unmarked, ← MarkedQueue.drop_completed,
      MarkedQueue.unmarked_drop_completed, MarkedQueue.mem_unmarked_flag]
    exact ⟨waiting, fun earlier => apart earlier member⟩
  · have part := (List.dropWhile_suffix (·.2)
      (l := MarkedQueue.flag first acc.mIovMultievents)).sublist.map Prod.fst
    have keys : (MarkedQueue.flag first acc.mIovMultievents).keys.Nodup := by
      rw [MarkedQueue.keys_flag]
      exact releasable.addresses
    rw [queue]
    exact part.nodup keys

/-- Two releases in a row do what one of both batches does. -/
theorem Tracks.releaseMultievents_append (tracks : acc.Tracks ledger dataBegin length)
    (releasable : acc.Releasable (first ++ second)) :
    (acc.releaseMultievents first >>= fun acc' => acc'.releaseMultievents second) =
      acc.releaseMultievents (first ++ second) := by
  obtain ⟨middle, _, release₁, tracks₁, queue₁⟩ :=
    tracks.releaseMultievents_flag releasable.left
  obtain ⟨last, _, release₂, tracks₂, queue₂⟩ :=
    tracks₁.releaseMultievents_flag (releasable.right queue₁)
  obtain ⟨whole, _, release, tracks', queue⟩ := tracks.releaseMultievents_flag releasable
  have id := (releaseMultievents_kept release₂).1.trans (releaseMultievents_kept release₁).1
  have data := (releaseMultievents_kept release₂).2.trans (releaseMultievents_kept release₁).2
  have queues : last.mIovMultievents = whole.mIovMultievents := by
    rw [queue₂, released, queue₁, released, MarkedQueue.dropWhile_flag, MarkedQueue.flag_flag,
      queue, released]
  have same : last = whole := tracks'.toAccounts.unique tracks₂.toAccounts rfl rfl queues
    (id.trans (releaseMultievents_kept release).1.symm)
    (data.trans (releaseMultievents_kept release).2.symm)
  rw [release₁, ok_bind, release₂, release, same]

/-- Nothing happens when nothing is released. -/
theorem Tracks.releaseMultievents_nil (tracks : acc.Tracks ledger dataBegin length) :
    acc.releaseMultievents [] = .ok acc := by
  have none : acc.mIovMultievents.completed = 0 := by
    cases queue : acc.mIovMultievents with
    | nil => rfl
    | cons entry rest =>
      have front : entry.2 = false := tracks.settled entry (by simp [queue])
      simp [MarkedQueue.completed, front]
  have flagged : flagCompleted [] acc.mIovMultievents = .ok acc.mIovMultievents := rfl
  rw [Accumulator.releaseMultievents, flagged, ok_bind, releaseContiguousMemory, none]
  rfl

/-- By induction over the batches, they amount to one release of all of them. -/
theorem Tracks.releaseMultievents_flatten (tracks : acc.Tracks ledger dataBegin length)
    {batches : List (List ℕ)} (releasable : acc.Releasable batches.flatten) :
    batches.foldlM Accumulator.releaseMultievents acc = acc.releaseMultievents batches.flatten := by
  induction batches generalizing acc ledger with
  | nil => exact tracks.releaseMultievents_nil.symm
  | cons batch rest ih =>
    rw [List.flatten_cons] at releasable ⊢
    obtain ⟨middle, _, release, tracks', queue⟩ := tracks.releaseMultievents_flag releasable.left
    rw [List.foldlM_cons, ← tracks.releaseMultievents_append releasable, release, ok_bind, ok_bind]
    exact ih tracks' (releasable.right queue)

/-- What a release of the batch `vect` does to a ring of `slots` events: the longest
completed prefix of the queue is gone, and its events are back with the generator. -/
structure FreesPrefix (block slots : ℕ) (acc acc' : Accumulator) (vect : List ℕ) : Prop where
  queue : acc'.mIovMultievents = acc.released vect
  removed : acc'.mIovMultievents.length + acc.freed vect = acc.mIovMultievents.length
  releaseCursor : acc'.mReleaseMetadata = (acc.mReleaseMetadata + acc.freed vect * block) % slots
  generatorReady : acc'.mController.mGenerator.mMetadataBuffer.ready + acc.freed vect * block =
    acc.mController.mGenerator.mMetadataBuffer.ready
  generatorCursor : acc'.mController.mGenerator.mMetadataBuffer.mNextRead =
    (acc.mController.mGenerator.mMetadataBuffer.mNextRead + acc.freed vect * block) % slots
  unbundled : acc'.mGeneratedEvents = acc.mGeneratedEvents
  all : (∀ address, (address, false) ∈ acc.mIovMultievents → address ∈ vect) →
    acc'.mIovMultievents = [] ∧
      acc'.mController.mGenerator.mMetadataBuffer.ready = acc'.mGeneratedEvents

theorem Tracks.freesPrefix (tracks : acc.Tracks ledger dataBegin length)
    {outstanding : ledger.released + acc.freed vect ≤ ledger.acquired}
    (tracks' : acc'.Tracks (ledger.release _ outstanding) dataBegin length)
    (queue : acc'.mIovMultievents = acc.released vect) :
    FreesPrefix block (block * blocks) acc acc' vect := by
  have ready := tracks.generatorRing.ready
  have ready' := tracks'.generatorRing.ready
  have count := tracks.outstanding
  have count' := tracks'.outstanding
  have unbundled := tracks.unbundled
  have unbundled' := tracks'.unbundled
  have ordered := (ledger.release _ outstanding).ring.ordered
  simp only [Ledger.ring, Ledger.release, RingCount.ready, Nat.add_mul] at ready ready' ordered
  simp only [Ledger.release] at count' unbundled'
  refine ⟨queue, by omega, ?_, by omega, ?_, by omega, ?_⟩
  · rw [tracks'.releaseCursor, tracks.releaseCursor, Nat.mod_add_mod, Ledger.release, Nat.add_mul]
  · rw [tracks'.generatorRing.nextRead, tracks.generatorRing.nextRead, tracks'.generatorFirst,
      tracks.generatorFirst, zero_add, zero_add, Nat.mod_add_mod]
    simp only [Ledger.ring, Ledger.release, Nat.add_mul, add_assoc]
  · intro everything
    have none : (MarkedQueue.flag vect acc.mIovMultievents).unmarked = [] := by
      refine List.eq_nil_iff_forall_not_mem.mpr fun address waiting => ?_
      obtain ⟨waiting, unreleased⟩ := MarkedQueue.mem_unmarked_flag.mp waiting
      exact unreleased (everything address (MarkedQueue.mem_unmarked.mp waiting))
    have empty : acc'.mIovMultievents = [] := queue.trans (MarkedQueue.dropWhile_of_marked none)
    have closed : ledger.released + acc.freed vect = ledger.acquired := by
      rw [empty] at count'
      simpa using count'
    refine ⟨empty, ?_⟩
    have := congrArg (· * block) closed
    simp only [Nat.add_mul] at this
    omega

end Accumulator

section Reachable

variable {block blocks id : ℕ} {draws : ℕ → ℕ} {dataRange : Range} {metadata : MetaDataMemory}
  {data : Memory} {layout : Layout} {trace : List AccumulatorEvent} {acc : Accumulator}

/-- Batches of completed multievents in any order end in the state that one call with
all of them ends in. -/
theorem releaseMultievents_batches (positive : 0 < block * blocks)
    (built : Generator.construct draws ⟨0, block * blocks⟩ dataRange id metadata data = .ok layout)
    (calls : AccumulatorCalls block blocks layout dataRange trace acc) {whole : List ℕ}
    (releasable : acc.Releasable whole) {batches : List (List ℕ)}
    (split : batches.flatten.Perm whole) :
    ∃ acc', acc.releaseMultievents whole = .ok acc' ∧
      batches.foldlM Accumulator.releaseMultievents acc = .ok acc' ∧
      acc.FreesPrefix block (block * blocks) acc' whole := by
  obtain ⟨ledger, tracks, _⟩ := calls.tracks positive built
  have releasable' : acc.Releasable batches.flatten := ⟨split.nodup_iff.mpr releasable.distinct,
    fun address member => releasable.waiting address (split.mem_iff.mp member),
    releasable.addresses⟩
  obtain ⟨acc', _, release, tracks', queue⟩ := tracks.releaseMultievents_flag releasable
  refine ⟨acc', release, ?_, tracks.freesPrefix tracks' queue⟩
  rw [tracks.releaseMultievents_flatten releasable',
    Accumulator.releaseMultievents_perm releasable split, release]

/-- Two of three events are outstanding, and the second is reported first. -/
theorem releaseMultievents_batches_reverse : ∃ acc',
    Accumulator.releaseMultievents ⟨⟨⟨⟨0, 3, 2, 1⟩, 0⟩, ⟨0, 3⟩, 2, 2⟩, ⟨0, 3⟩, ⟨0, 96⟩, 2, 1, 0,
      [(0, false), (32, false)], 0⟩ [0, 32] = .ok acc' ∧
    [[32], [0]].foldlM Accumulator.releaseMultievents ⟨⟨⟨⟨0, 3, 2, 1⟩, 0⟩, ⟨0, 3⟩, 2, 2⟩, ⟨0, 3⟩,
      ⟨0, 96⟩, 2, 1, 0, [(0, false), (32, false)], 0⟩ = .ok acc' ∧
    Accumulator.FreesPrefix 1 (1 * 3) ⟨⟨⟨⟨0, 3, 2, 1⟩, 0⟩, ⟨0, 3⟩, 2, 2⟩, ⟨0, 3⟩, ⟨0, 96⟩, 2, 1, 0,
      [(0, false), (32, false)], 0⟩ acc' [0, 32] := by
  have first : AccumulatorCalls 1 3 uniformLayout ⟨0, 96⟩ [.got 2 (some ⟨0, 32⟩)]
      ⟨⟨⟨⟨0, 3, 2, 1⟩, 0⟩, ⟨0, 3⟩, 2, 2⟩, ⟨0, 3⟩, ⟨0, 96⟩, 1, 1, 1, [(0, false)], 0⟩ :=
    Run.single (.get rfl)
  have calls : AccumulatorCalls 1 3 uniformLayout ⟨0, 96⟩
      [.got 2 (some ⟨0, 32⟩), .got 2 (some ⟨32, 32⟩)]
      ⟨⟨⟨⟨0, 3, 2, 1⟩, 0⟩, ⟨0, 3⟩, 2, 2⟩, ⟨0, 3⟩, ⟨0, 96⟩, 2, 1, 0, [(0, false), (32, false)], 0⟩ :=
    first.snoc (.get rfl)
  exact releaseMultievents_batches (by decide) uniformLayout_built calls
    ⟨by decide, by decide, by decide⟩ (List.Perm.swap 0 32 [])

end Reachable

end Lseb
