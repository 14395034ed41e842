import Lseb.Foundation.RingWalk
import Lseb.Ru.Availability

/-!
# The cursors of generator, controller and accumulator

Each of the three keeps a position in the ring of metadata. The constructor of
the generator reserves all events but one and then releases them, so that its
own cursors start at the last slot and those of the others at the first. The
distances agree for ever, and the positions are one slot apart.
-/

namespace Lseb

open Foundation

/-- The slots between the two cursors, oldest first. -/
def Buffer.slotsInUse (buffer : Buffer) : List ℕ :=
  (ringWalk buffer.size (buffer.mNextRead - buffer.mBegin) buffer.ready).map (buffer.mBegin + ·)

namespace Generator

/-- `releaseEvents`, with the slot of the metadata it looks up. -/
def releaseEventsAt (generator : Generator) (nEvents : ℕ) :
    Except Error (Option ℕ × Generator) := do
  assertThat (generator.mMetadataBuffer.ready ≥ nEvents) "m_metadata_buffer.ready() >= n_events"
  if nEvents ≠ 0 then
    let buffer ← generator.mMetadataBuffer.release (nEvents - 1)
    let metadata := buffer.mNextRead
    let buffer ← buffer.release 1
    return (some metadata, { generator with mMetadataBuffer := buffer })
  else
    return (none, generator)

/-- `generateEvents`, with the slot of the metadata it looks up. -/
def generateEventsAt (generator : Generator) (nEvents : ℕ) :
    Except Error (ℕ × Option ℕ × Generator) := do
  let availEvents :=
    if nEvents ≤ generator.mMetadataBuffer.available - 1 then nEvents
    else generator.mMetadataBuffer.available - 1
  if availEvents ≠ 0 then
    let buffer ← generator.mMetadataBuffer.reserve (availEvents - 1)
    let metadata := buffer.mNextWrite
    let buffer ← buffer.reserve 1
    return (availEvents, some metadata, { generator with mMetadataBuffer := buffer })
  else
    return (availEvents, none, generator)

variable {generator next : Generator}

/-- Nothing else depends on what is looked up. -/
theorem releaseEvents_eq_map (generator : Generator) (nEvents : ℕ) :
    generator.releaseEvents nEvents = Prod.snd <$> generator.releaseEventsAt nEvents := by
  rw [releaseEvents, releaseEventsAt]
  cases assertThat (generator.mMetadataBuffer.ready ≥ nEvents)
      "m_metadata_buffer.ready() >= n_events" with
  | error failed => rfl
  | ok _ =>
    rw [ok_bind, ok_bind]
    split_ifs
    · cases generator.mMetadataBuffer.release (nEvents - 1) with
      | error failed => rfl
      | ok buffer =>
        rw [ok_bind, ok_bind]
        cases buffer.release 1 <;> rfl
    · rfl

theorem generateEvents_eq_map (generator : Generator) (nEvents : ℕ) :
    generator.generateEvents nEvents =
      (fun (count, _, next) => (count, next)) <$> generator.generateEventsAt nEvents := by
  rw [generateEvents, generateEventsAt]
  dsimp only
  generalize (if nEvents ≤ generator.mMetadataBuffer.available - 1 then nEvents
    else generator.mMetadataBuffer.available - 1) = availEvents
  split_ifs
  · cases generator.mMetadataBuffer.reserve (availEvents - 1) with
    | error failed => rfl
    | ok buffer =>
      rw [ok_bind, ok_bind]
      cases buffer.reserve 1 <;> rfl
  · rfl

section Represents

variable {capacity origin nEvents count slot : ℕ} {ring : RingCount capacity}

/-- The slot read last, where the generator has it. -/
theorem releaseEventsAt_slot (rep : generator.mMetadataBuffer.Represents origin ring)
    (looked : generator.releaseEventsAt nEvents = .ok (some slot, next)) :
    0 < nEvents ∧ nEvents ≤ ring.ready ∧ slot = generator.mMetadataBuffer.mBegin +
      (origin + (ring.readTotal + nEvents - 1)) % capacity := by
  obtain ⟨_, admitted, looked⟩ := bind_eq_ok.mp looked
  have filled := assertThat_eq_ok.mp admitted
  rw [rep.ready] at filled
  split_ifs at looked with some
  · obtain ⟨first, released, first', rep₁⟩ := rep.release (by omega : nEvents - 1 ≤ ring.ready)
    rw [released, ok_bind] at looked
    obtain ⟨_, _, looked⟩ := bind_eq_ok.mp looked
    cases looked
    refine ⟨Nat.pos_of_ne_zero some, filled, ?_⟩
    rw [rep₁.nextRead, first', RingCount.read, Nat.add_sub_assoc (Nat.pos_of_ne_zero some)]
  · cases looked

/-- The slot written last, where the generator has it. -/
theorem generateEventsAt_slot (rep : generator.mMetadataBuffer.Represents origin ring)
    (looked : generator.generateEventsAt nEvents = .ok (count, some slot, next)) :
    0 < count ∧ ring.ready + count < capacity ∧ slot = generator.mMetadataBuffer.mBegin +
      (origin + (ring.writtenTotal + count - 1)) % capacity := by
  rw [generateEventsAt] at looked
  dsimp only at looked
  have room : (if nEvents ≤ generator.mMetadataBuffer.available - 1 then nEvents
      else generator.mMetadataBuffer.available - 1) ≤ capacity - ring.ready - 1 := by
    rw [rep.available]
    split_ifs <;> omega
  generalize (if nEvents ≤ generator.mMetadataBuffer.available - 1 then nEvents
    else generator.mMetadataBuffer.available - 1) = availEvents at looked room
  split_ifs at looked with some
  · obtain ⟨first, reserved, first', rep₁⟩ :=
      rep.reserve (by omega : ring.ready + (availEvents - 1) < capacity)
    rw [reserved, ok_bind] at looked
    obtain ⟨_, _, looked⟩ := bind_eq_ok.mp looked
    cases looked
    refine ⟨Nat.pos_of_ne_zero some, by omega, ?_⟩
    rw [rep₁.nextWrite, first', RingCount.write, Nat.add_sub_assoc (Nat.pos_of_ne_zero some)]
  · cases looked

end Represents

end Generator

open AccumulatorEvent (releasedTotal)

/-- Each slot of the generator is read as the one that `seen` makes of it. Then its cursors are
those of the controller and the accumulator, its slots in use are those of the events handed
out and not released, and it looks up the last event generated or released. -/
structure CursorsAgree (block slots : ℕ) (seen : ℕ → ℕ) (trace : List AccumulatorEvent)
    (acc : Accumulator) : Prop where
  write : seen acc.mController.mGenerator.mMetadataBuffer.mNextWrite =
    acc.mController.mCurrentMetadata
  read : seen acc.mController.mGenerator.mMetadataBuffer.mNextRead = acc.mReleaseMetadata
  inUse : acc.mController.mGenerator.mMetadataBuffer.slotsInUse.map seen =
    ringWalk slots (releasedTotal trace * block)
      (acc.mController.mGeneratedEvents - releasedTotal trace * block)
  generated : ∀ nEvents count slot next,
    acc.mController.mGenerator.generateEventsAt nEvents = .ok (count, some slot, next) →
    seen slot = (acc.mController.mGeneratedEvents + count - 1) % slots
  released : ∀ nEvents slot next,
    acc.mController.mGenerator.releaseEventsAt nEvents = .ok (some slot, next) →
    seen slot = (releasedTotal trace * block + nEvents - 1) % slots

namespace Accumulator.Accounts

variable {block blocks : ℕ} {seen : ℕ → ℕ} {trace : List AccumulatorEvent} {acc : Accumulator}
  {ledger : Ledger block blocks} (accounts : acc.Accounts ledger)

include accounts

/-- It is enough to see every slot at the place that the constructor's lap moved it from. -/
theorem cursorsAgree (counted : releasedTotal trace = ledger.released)
    (moved : ∀ total, seen ((block * blocks - 1 + total) % (block * blocks)) =
      total % (block * blocks)) :
    CursorsAgree block (block * blocks) seen trace acc := by
  have rep := accounts.generatorRing
  have first := accounts.generatorFirst
  have count := accounts.controllerCount
  have read : acc.mController.mGenerator.mMetadataBuffer.mNextRead =
      (block * blocks - 1 + ledger.released * block) % (block * blocks) := by
    rw [rep.nextRead, first, zero_add]
    rfl
  constructor
  · rw [rep.nextWrite, first, zero_add, moved, accounts.controllerCursor]
    rfl
  · rw [read, moved, accounts.releaseCursor]
  · rw [Buffer.slotsInUse, rep.size, rep.ready, first, read, counted, count, Nat.sub_zero]
    simp only [ringWalk, List.map_map]
    apply List.map_congr_left
    intro step _
    simp only [Function.comp_apply, zero_add, Nat.mod_add_mod, Nat.add_assoc, moved]
  · intro nEvents count' slot next looked
    obtain ⟨_, _, rfl⟩ := Generator.generateEventsAt_slot rep looked
    rw [first, zero_add, moved, count]
    rfl
  · intro nEvents slot next looked
    obtain ⟨_, _, rfl⟩ := Generator.releaseEventsAt_slot rep looked
    rw [first, zero_add, moved, counted]
    rfl

/-- The last slot of a ring is its first one only if there is no other. -/
theorem slots_eq_one (agree : CursorsAgree block (block * blocks) (fun slot => slot) trace acc) :
    block * blocks = 1 := by
  have write := agree.write
  have positive := ledger.positive
  rw [accounts.generatorRing.nextWrite, accounts.generatorFirst, zero_add,
    accounts.controllerCursor] at write
  have congruent : block * blocks - 1 + ledger.generated ≡ 0 + ledger.generated
      [MOD block * blocks] := by
    rw [zero_add]
    exact write
  have lap := Nat.ModEq.add_right_cancel' _ congruent
  rw [Nat.ModEq, Nat.mod_eq_of_lt (Nat.sub_lt positive Nat.one_pos), Nat.zero_mod] at lap
  omega

end Accumulator.Accounts

section Reachable

variable {block credits id : ℕ} {draws : ℕ → ℕ} {dataRange : Range} {metadata : MetaDataMemory}
  {data : Memory} {layout : Layout} {trace : List AccumulatorEvent} {acc : Accumulator}

/-- In every state of every run, the slots of the generator are one behind those of the
controller and the accumulator; only in a ring of one slot are they the same. -/
theorem ringCursors_agree_iff (positive : 0 < block)
    (built : Generator.construct draws ⟨0, block * (2 * credits + 1)⟩ dataRange id metadata data =
      .ok layout)
    (calls : AccumulatorCalls block (2 * credits + 1) layout dataRange trace acc) :
    CursorsAgree block (block * (2 * credits + 1))
        (fun slot => (slot + 1) % (block * (2 * credits + 1))) trace acc ∧
      (CursorsAgree block (block * (2 * credits + 1)) (fun slot => slot) trace acc ↔
        block * (2 * credits + 1) = 1) := by
  have slots : 0 < block * (2 * credits + 1) := Nat.mul_pos positive (Nat.succ_pos _)
  obtain ⟨ledger, tracks, released⟩ := calls.tracks slots built
  constructor
  · apply tracks.cursorsAgree released
    intro total
    rw [Nat.mod_add_mod, Nat.add_right_comm, Nat.sub_add_cancel slots, Nat.add_mod_left]
  constructor
  · exact tracks.slots_eq_one
  · intro one
    apply tracks.cursorsAgree released
    intro total
    rw [one, Nat.mod_one, Nat.mod_one]

/-- After a multievent was acquired and released, the generator is at slot zero and one. -/
theorem ringCursors_agree_three :
    CursorsAgree 1 3 (fun slot => (slot + 1) % 3) [.got 2 (some ⟨0, 32⟩), .released [0] 1]
        ⟨⟨⟨⟨0, 3, 0, 1⟩, 0⟩, ⟨0, 3⟩, 2, 2⟩, ⟨0, 3⟩, ⟨0, 96⟩, 1, 1, 1, [], 1⟩ ∧
      (CursorsAgree 1 3 (fun slot => slot) [.got 2 (some ⟨0, 32⟩), .released [0] 1]
        ⟨⟨⟨⟨0, 3, 0, 1⟩, 0⟩, ⟨0, 3⟩, 2, 2⟩, ⟨0, 3⟩, ⟨0, 96⟩, 1, 1, 1, [], 1⟩ ↔ 3 = 1) :=
  ringCursors_agree_iff (by decide) uniformLayout_built uniformLayout_run.calls

/-- Freshly constructed, the generator is at slot two and the controller at slot zero. -/
theorem not_ringCursors_agree : ¬∀ block credits draws dataRange id metadata data layout trace acc,
    0 < block →
    Generator.construct draws ⟨0, block * (2 * credits + 1)⟩ dataRange id metadata data =
      .ok layout →
    AccumulatorCalls block (2 * credits + 1) layout dataRange trace acc →
    CursorsAgree block (block * (2 * credits + 1)) (fun slot => slot) trace acc := by
  intro always
  have fresh := always 1 1 (fun _ => 8) ⟨0, 96⟩ 0 (fun _ => ⟨0, 0, 0⟩) (fun _ => 0) uniformLayout
    [] _ (by decide) uniformLayout_built Run.nil
  cases fresh.write

end Reachable

end Lseb
