import Mathlib.Algebra.Order.BigOperators.Group.Finset
import Lseb.Generator.Layout
import Lseb.Ru.Accumulator

/-!
# The books of the readout side

A ledger counts multievents released and acquired and events generated since
the start; it is valid by construction. The generator's ring, the controller's
cursor, the accumulator's counter and cursor and the queue with its release
cursor are five views of one ledger, and every operation moves all of them.
-/

namespace Lseb

open Foundation

/-- Totals since the start, for multievents of `block` events and a ring of `blocks` of them. -/
structure Ledger (block blocks : ℕ) where
  released : ℕ
  acquired : ℕ
  generated : ℕ
  released_le : released ≤ acquired
  acquired_le : acquired * block ≤ generated
  bounded : generated < released * block + block * blocks

namespace Ledger

variable {block blocks : ℕ}

def start (positive : 0 < block * blocks) : Ledger block blocks where
  released := 0
  acquired := 0
  generated := 0
  released_le := le_rfl
  acquired_le := by simp
  bounded := by simpa using positive

theorem released_mul_le (ledger : Ledger block blocks) :
    ledger.released * block ≤ ledger.acquired * block :=
  Nat.mul_le_mul_right _ ledger.released_le

/-- The ring of generated events, as the generator sees it. -/
def ring (ledger : Ledger block blocks) : RingCount (block * blocks) where
  readTotal := ledger.released * block
  writtenTotal := ledger.generated
  ordered := ledger.released_mul_le.trans ledger.acquired_le
  bounded := ledger.bounded

theorem positive (ledger : Ledger block blocks) : 0 < block * blocks := by
  have := ledger.ring.ready_lt
  omega

/-- Fewer multievents are outstanding than the ring has blocks. -/
theorem outstanding_lt (ledger : Ledger block blocks) :
    ledger.acquired - ledger.released < blocks := by
  have := ledger.released_le
  have := ledger.acquired_le
  have := ledger.bounded
  by_contra full
  have : (ledger.released + blocks) * block ≤ ledger.acquired * block :=
    Nat.mul_le_mul_right _ (by omega)
  rw [Nat.add_mul, mul_comm blocks] at this
  omega

/-- The events that a read adds when `due` events are due. -/
def fresh (ledger : Ledger block blocks) (due : ℕ) : ℕ :=
  if ledger.generated - ledger.acquired * block < block then
    min (due - ledger.generated) (block * blocks - 1 - ledger.ring.ready)
  else 0

theorem fresh_le (ledger : Ledger block blocks) (due : ℕ) :
    ledger.ring.ready + ledger.fresh due < block * blocks := by
  have := ledger.ring.ready_lt
  unfold fresh
  split_ifs <;> omega

theorem fresh_bounded (ledger : Ledger block blocks) (due : ℕ) :
    ledger.generated + ledger.fresh due < ledger.released * block + block * blocks := by
  have := ledger.fresh_le due
  have := ledger.ring.ordered
  simp only [ring, RingCount.ready] at *
  omega

def read (ledger : Ledger block blocks) (due : ℕ) : Ledger block blocks where
  released := ledger.released
  acquired := ledger.acquired
  generated := ledger.generated + ledger.fresh due
  released_le := ledger.released_le
  acquired_le := ledger.acquired_le.trans (Nat.le_add_right _ _)
  bounded := ledger.fresh_bounded due

def acquire (ledger : Ledger block blocks)
    (ready : (ledger.acquired + 1) * block ≤ ledger.generated) : Ledger block blocks where
  released := ledger.released
  acquired := ledger.acquired + 1
  generated := ledger.generated
  released_le := ledger.released_le.trans (Nat.le_succ _)
  acquired_le := ready
  bounded := ledger.bounded

def release (ledger : Ledger block blocks) (count : ℕ)
    (outstanding : ledger.released + count ≤ ledger.acquired) : Ledger block blocks where
  released := ledger.released + count
  acquired := ledger.acquired
  generated := ledger.generated
  released_le := outstanding
  acquired_le := ledger.acquired_le
  bounded := by
    have := ledger.bounded
    rw [Nat.add_mul]
    omega

/-- The ledger after a call of `get_multievent`. -/
def get (ledger : Ledger block blocks) (due : ℕ) : Ledger block blocks :=
  if ready : (ledger.acquired + 1) * block ≤ (ledger.read due).generated then
    (ledger.read due).acquire ready
  else ledger.read due

/-- Never more events are generated than were due. -/
theorem read_generated_le {ledger : Ledger block blocks} {due : ℕ}
    (reading : ledger.generated ≤ due) : (ledger.read due).generated ≤ due := by
  simp only [read, fresh]
  split_ifs <;> omega

/-- Another multievent can be had exactly when a block of the ring is left for
it, given enough events due. -/
theorem acquire_iff {ledger : Ledger block blocks} {due : ℕ} (positive : 0 < block)
    (enough : (ledger.acquired + 1) * block ≤ due) :
    (ledger.acquired + 1) * block ≤ (ledger.read due).generated ↔
      ledger.acquired + 1 < ledger.released + blocks := by
  have ordered := ledger.ring.ordered
  have bounded := (ledger.read due).bounded
  constructor
  · intro ready
    by_contra full
    have : (ledger.released + blocks) * block ≤ (ledger.acquired + 1) * block :=
      Nat.mul_le_mul_right _ (by omega)
    simp only [read, Nat.add_mul, mul_comm blocks] at *
    omega
  · intro room
    have fits : (ledger.acquired + 1 + 1) * block ≤ (ledger.released + blocks) * block :=
      Nat.mul_le_mul_right _ room
    simp only [read, fresh, ring, RingCount.ready, Nat.add_mul, mul_comm blocks] at *
    split_ifs <;> omega

end Ledger

namespace Accumulator

/-- All cursors and counters are those of one ledger. -/
structure Accounts {block blocks : ℕ} (acc : Accumulator) (ledger : Ledger block blocks) :
    Prop where
  metadataRange : acc.mMetadataRange = ⟨0, block * blocks⟩
  controllerRange : acc.mController.mMetadataRange = ⟨0, block * blocks⟩
  eventsInMultievent : acc.mEventsInMultievent = block
  generatorFirst : acc.mController.mGenerator.mMetadataBuffer.mBegin = 0
  generatorRing : acc.mController.mGenerator.mMetadataBuffer.Represents
    (block * blocks - 1) ledger.ring
  controllerCursor : acc.mController.mCurrentMetadata = ledger.generated % (block * blocks)
  controllerCount : acc.mController.mGeneratedEvents = ledger.generated
  cursor : acc.mCurrentMetadata = ledger.acquired * block % (block * blocks)
  releaseCursor : acc.mReleaseMetadata = ledger.released * block % (block * blocks)
  unbundled : acc.mGeneratedEvents + ledger.acquired * block = ledger.generated
  outstanding : acc.mIovMultievents.length + ledger.released = ledger.acquired

variable {block blocks : ℕ} {ledger : Ledger block blocks} {acc : Accumulator}

/-- A read of the controller moves its cursor by the events it returns. -/
theorem Accounts.read (accounts : acc.Accounts ledger) {due : ℕ}
    (reading : ledger.generated ≤ due) :
    ∃ acc', acc.readIfShort due = .ok acc' ∧ acc'.Accounts (ledger.read due) ∧
      acc'.mIovMultievents = acc.mIovMultievents ∧ acc'.mDataRange = acc.mDataRange := by
  have positive := ledger.positive
  have unbundled := accounts.unbundled
  by_cases short : acc.mGeneratedEvents < acc.mEventsInMultievent
  · have fresh : min (due - ledger.generated) (block * blocks - 1 - ledger.ring.ready) =
        ledger.fresh due := by
      rw [accounts.eventsInMultievent] at short
      rw [Ledger.fresh, if_pos (by omega)]
    have room := ledger.fresh_le due
    obtain ⟨generator, hgenerate, first, rep⟩ :=
      Generator.generateEvents_represents accounts.generatorRing (due - ledger.generated)
        (by rw [fresh]; exact room)
    simp only [fresh] at hgenerate rep
    have admitted : due ≥ acc.mController.mGeneratedEvents := by
      rw [accounts.controllerCount]
      exact reading
    have cursor : acc.mController.mCurrentMetadata < block * blocks := by
      rw [accounts.controllerCursor]
      exact Nat.mod_lt _ positive
    have advanced := advanceInRange_add (ledger.fresh due) cursor
    rw [accounts.controllerCursor, Nat.mod_add_mod] at advanced
    have distance := @distanceInRange_cursors (block * blocks)
      _ _ (Nat.le_add_right ledger.generated (ledger.fresh due)) (by omega)
    rw [Nat.add_sub_cancel_left] at distance
    refine ⟨{ acc with
        mController := { acc.mController with
          mGenerator := generator
          mCurrentMetadata := (ledger.generated + ledger.fresh due) % (block * blocks)
          mGeneratedEvents := acc.mController.mGeneratedEvents + ledger.fresh due }
        mGeneratedEvents := acc.mGeneratedEvents + ledger.fresh due }, ?_, ?_, rfl, rfl⟩
    · rw [readIfShort, if_pos short, Controller.read, assertThat_of admitted,
        accounts.controllerCount, hgenerate]
      simp only [ok_bind, accounts.controllerRange, accounts.controllerCursor, advanced]
      simp only [pure_bind, accounts.metadataRange, distance, ok_bind]
      rfl
    · refine { accounts with
        generatorFirst := first.trans accounts.generatorFirst
        generatorRing := rep
        controllerCursor := rfl
        controllerCount := by simp only [accounts.controllerCount, Ledger.read]
        unbundled := ?_ }
      simp only [Ledger.read]
      omega
  · have same : ledger.read due = ledger := by
      rw [accounts.eventsInMultievent] at short
      have none : ledger.fresh due = 0 := if_neg (by omega)
      simp only [Ledger.read, none, Nat.add_zero]
    refine ⟨acc, ?_, by rwa [same], rfl, rfl⟩
    rw [readIfShort, if_neg short]
    rfl

section Bundle

variable {metadata : MetaDataMemory} {length : ℕ → ℕ}

/-- The offsets of a block that ends at the ring's end at the latest never fall
below the first one. -/
theorem checkDataWrap_eq {slots first count : ℕ} (laid : WellLaid metadata length slots)
    (range : acc.mMetadataRange = ⟨0, slots⟩) (some : 0 < count) (inside : first + count ≤ slots) :
    acc.checkDataWrap metadata ⟨first, (first + count) % slots⟩ = .ok false := by
  have nothing : ∀ last ≤ slots, findIf first last
      (fun m => decide ((metadata m).offset < (metadata first).offset)) = last := by
    intro last bound
    apply findIf_none
    intro position behind before
    have mono : ∑ event ∈ Finset.range first, length event ≤
        ∑ event ∈ Finset.range position, length event :=
      Finset.sum_le_sum_of_subset (Finset.range_mono behind)
    rw [(laid first (by omega)).2, (laid position (by omega)).2]
    simpa using mono
  have valid : validateSubrange ⟨first, (first + count) % slots⟩ ⟨0, slots⟩ = .ok () :=
    validateSubrange_ok (Nat.zero_le _) ⟨Nat.zero_le _, by simp only; omega⟩
      ⟨Nat.zero_le _, (Nat.mod_lt _ (by omega)).le⟩
  simp only [checkDataWrap, range, findInRange, valid, ok_bind]
  rcases Nat.lt_or_eq_of_le inside with before | atEnd
  · rw [Nat.mod_eq_of_lt before, if_pos (by omega), nothing _ inside]
    simp [pure, Except.pure]
  · have empty : ∀ op, findIf 0 0 op = 0 := fun op => rfl
    rw [atEnd, Nat.mod_self, if_neg (by omega), nothing _ le_rfl, if_pos rfl, empty]
    simp [pure, Except.pure]

theorem last_of_block {slots first count : ℕ} (some : 0 < count) (inside : first + count ≤ slots) :
    ((first + count) % slots + slots - 1) % slots = first + (count - 1) := by
  rcases Nat.lt_or_eq_of_le inside with before | atEnd
  · rw [Nat.mod_eq_of_lt before,
      show first + count + slots - 1 = first + (count - 1) + slots by omega, Nat.add_mod_right,
      Nat.mod_eq_of_lt (by omega)]
  · rw [atEnd, Nat.mod_self, Nat.mod_eq_of_lt (by omega)]
    omega

/-- The multievent returned is the block of the ring that its index selects. -/
theorem Accounts.bundle (laid : WellLaid metadata length (block * blocks))
    (accounts : acc.Accounts ledger) (positive : 0 < block)
    (ready : (ledger.acquired + 1) * block ≤ ledger.generated) :
    ∃ acc', acc.bundle metadata = .ok (eventsIovec acc.mDataRange.mBegin length
        (ledger.acquired % blocks * block) block, acc') ∧
      acc'.Accounts (ledger.acquire ready) ∧
      acc'.mIovMultievents = acc.mIovMultievents ++ [((eventsIovec acc.mDataRange.mBegin length
        (ledger.acquired % blocks * block) block).iovBase, false)] ∧
      acc'.mDataRange = acc.mDataRange := by
  have blocksPositive : 0 < blocks := Nat.pos_of_mul_pos_left ledger.positive
  have cursor := accounts.cursor
  rw [block_cursor] at cursor
  have inside : ledger.acquired % blocks * block + block ≤ block * blocks :=
    block_fits (Nat.mod_lt _ blocksPositive)
  have advanced := advanceInRange_add block
    (by omega : ledger.acquired % blocks * block < block * blocks)
  have back := advanceInRange_back
    (Nat.mod_lt (ledger.acquired % blocks * block + block) ledger.positive)
  rw [last_of_block positive inside] at back
  have checked := checkDataWrap_eq laid accounts.metadataRange positive inside
  have firstRecord := laid (ledger.acquired % blocks * block) (by omega)
  have lastRecord := laid (ledger.acquired % blocks * block + (block - 1)) (by omega)
  have total : acc.mDataRange.mBegin +
      (metadata (ledger.acquired % blocks * block + (block - 1))).offset +
      (metadata (ledger.acquired % blocks * block + (block - 1))).length -
      (acc.mDataRange.mBegin + (metadata (ledger.acquired % blocks * block)).offset) =
      ∑ event ∈ Finset.range block, length (ledger.acquired % blocks * block + event) := by
    rw [firstRecord.2, lastRecord.1, lastRecord.2, add_assoc acc.mDataRange.mBegin,
      ← Finset.sum_range_succ, Nat.add_assoc, Nat.sub_add_cancel positive, Finset.sum_range_add]
    omega
  refine ⟨{ acc with
      mIovMultievents := acc.mIovMultievents ++
        [(acc.mDataRange.mBegin + (metadata (ledger.acquired % blocks * block)).offset, false)]
      mGeneratedEvents := acc.mGeneratedEvents - acc.mEventsInMultievent
      mCurrentMetadata := (ledger.acquired % blocks * block + block) % (block * blocks) },
    ?_, ?_, ?_, rfl⟩
  · simp only [Accumulator.bundle, cursor, accounts.eventsInMultievent, accounts.metadataRange,
      advanced, ok_bind, checked, assertThat_of, back, total, eventsIovec, ← firstRecord.2]
    rfl
  · have unbundled := accounts.unbundled
    have outstanding := accounts.outstanding
    rw [Nat.add_mul, one_mul] at ready
    refine { accounts with
      cursor := ?_
      unbundled := ?_
      outstanding := ?_ }
    · simp only [Ledger.acquire, Nat.add_mul, one_mul]
      rw [← block_cursor, Nat.mod_add_mod]
    · simp only [Ledger.acquire, accounts.eventsInMultievent, Nat.add_mul, one_mul]
      omega
    · simp only [Ledger.acquire, List.length_append, List.length_singleton]
      omega
  · simp only [eventsIovec, firstRecord.2]

/-- A call of `get_multievent` returns the next block, or nothing if the read
left too few events; in either case it does not fail. -/
theorem Accounts.getMultievent (laid : WellLaid metadata length (block * blocks))
    (accounts : acc.Accounts ledger) (positive : 0 < block) {due : ℕ}
    (reading : ledger.generated ≤ due) :
    ∃ result acc', acc.getMultievent metadata due = .ok (result, acc') ∧
      acc'.Accounts (ledger.get due) ∧ acc'.mDataRange = acc.mDataRange ∧
      ((ledger.acquired + 1) * block ≤ (ledger.read due).generated ∧
          result = some (eventsIovec acc.mDataRange.mBegin length
            (ledger.acquired % blocks * block) block) ∧
          acc'.mIovMultievents = acc.mIovMultievents ++ [((eventsIovec acc.mDataRange.mBegin length
            (ledger.acquired % blocks * block) block).iovBase, false)] ∨
        (ledger.read due).generated < (ledger.acquired + 1) * block ∧ result = none ∧
          acc'.mIovMultievents = acc.mIovMultievents) := by
  obtain ⟨middle, hread, accounts₁, queue₁, data₁⟩ := accounts.read reading
  have unbundled := accounts₁.unbundled
  have counter : middle.mGeneratedEvents ≥ middle.mEventsInMultievent ↔
      (ledger.acquired + 1) * block ≤ (ledger.read due).generated := by
    rw [accounts₁.eventsInMultievent, Nat.add_mul, one_mul, ← unbundled]
    simp only [Ledger.read]
    omega
  by_cases ready : (ledger.acquired + 1) * block ≤ (ledger.read due).generated
  · obtain ⟨acc', hbundle, accounts₂, queue₂, data₂⟩ := accounts₁.bundle laid positive ready
    rw [data₁, queue₁] at *
    refine ⟨_, acc', ?_, ?_, data₂, .inl ⟨ready, rfl, queue₂⟩⟩
    · rw [Accumulator.getMultievent, hread, ok_bind, if_pos (counter.mpr ready), hbundle]
      rfl
    · rw [Ledger.get, dif_pos ready]
      exact accounts₂
  · refine ⟨none, middle, ?_, ?_, data₁, .inr ⟨by omega, rfl, queue₁⟩⟩
    · rw [Accumulator.getMultievent, hread, ok_bind, if_neg (counter.not.mpr ready)]
      rfl
    · rw [Ledger.get, dif_neg ready]
      exact accounts₁

end Bundle

section Release

theorem releaseContiguousMemory_accounts (accounts : acc.Accounts ledger) :
    ∃ (outstanding : ledger.released + acc.mIovMultievents.completed ≤ ledger.acquired) (acc' : _),
      acc.releaseContiguousMemory = .ok (acc.mIovMultievents.completed, acc') ∧
      acc'.Accounts (ledger.release acc.mIovMultievents.completed outstanding) ∧
      acc'.mIovMultievents = acc.mIovMultievents.drop acc.mIovMultievents.completed ∧
      acc'.mDataRange = acc.mDataRange := by
  have queued := accounts.outstanding
  have prefixed := MarkedQueue.completed_le acc.mIovMultievents
  have outstanding : ledger.released + acc.mIovMultievents.completed ≤ ledger.acquired := by omega
  refine ⟨outstanding, ?_⟩
  generalize hcount : acc.mIovMultievents.completed = count at outstanding prefixed ⊢
  rcases Nat.eq_zero_or_pos count with rfl | positive
  · refine ⟨acc, ?_, ?_, by simp, rfl⟩
    · rw [releaseContiguousMemory, hcount]
      rfl
    · simpa [Ledger.release] using accounts
  · have released : count * block ≤ ledger.ring.ready := by
      have := Nat.mul_le_mul_right block outstanding
      have := ledger.acquired_le
      rw [Nat.add_mul] at *
      simp only [Ledger.ring, RingCount.ready]
      omega
    have room := ledger.ring.ready_lt
    have cursor : acc.mReleaseMetadata < block * blocks := by
      rw [accounts.releaseCursor]
      exact Nat.mod_lt _ ledger.positive
    have advanced := advanceInRange_add (count * block) cursor
    rw [accounts.releaseCursor, Nat.mod_add_mod] at advanced
    have distance := @distanceInRange_cursors (block * blocks)
      _ _ (Nat.le_add_right (ledger.released * block) (count * block)) (by omega)
    rw [Nat.add_sub_cancel_left] at distance
    obtain ⟨generator, hrelease, first, rep⟩ :=
      Generator.releaseEvents_represents accounts.generatorRing released
    refine ⟨{ acc with
        mController := { acc.mController with mGenerator := generator }
        mReleaseMetadata := (ledger.released * block + count * block) % (block * blocks)
        mIovMultievents := acc.mIovMultievents.drop count }, ?_, ?_, rfl, rfl⟩
    · simp only [releaseContiguousMemory, hcount, if_pos positive.ne', accounts.eventsInMultievent,
        accounts.releaseCursor, accounts.metadataRange, mul_comm block count, advanced, ok_bind,
        Controller.release, accounts.controllerRange, distance, hrelease]
      rfl
    · refine { accounts with
        generatorFirst := first.trans accounts.generatorFirst
        generatorRing := ?_
        releaseCursor := ?_
        outstanding := ?_ }
      · convert rep using 1
        ext
        · simp only [Ledger.ring, Ledger.release, RingCount.read, Nat.add_mul]
        · rfl
      · simp only [Ledger.release, Nat.add_mul]
      · simp only [Ledger.release, List.length_drop]
        omega

end Release

end Accumulator

end Lseb
