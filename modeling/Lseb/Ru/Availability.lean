import Lseb.Ru.AccumulatorRuns

/-!
# When a multievent is available

Whether a call returns a multievent is decided by the events not yet bundled,
the events due and the free slots of the generator's ring, one of which is
never filled. States are reached by calls that succeed, at whatever readings
of the clock.
-/

namespace Lseb

open Foundation

inductive AccumulatorCall (metadata : MetaDataMemory) :
    Accumulator → AccumulatorEvent → Accumulator → Prop where
  | get {acc acc' : Accumulator} {due : ℕ} {result : Option Iovec}
      (got : acc.getMultievent metadata due = .ok (result, acc')) :
      AccumulatorCall metadata acc (.got due result) acc'
  | release {acc acc' : Accumulator} {count : ℕ} {vect : List ℕ}
      (released : acc.releaseMultievents vect = .ok acc')
      (erased : acc'.mIovMultievents.length + count = acc.mIovMultievents.length) :
      AccumulatorCall metadata acc (.released vect count) acc'

/-- What successful calls lead to, from the construction on. -/
def AccumulatorCalls (block blocks : ℕ) (layout : Layout) (dataRange : Range) :
    List AccumulatorEvent → Accumulator → Prop :=
  Run (AccumulatorCall layout.metadata) (.construct
    (.construct layout.generator ⟨0, block * blocks⟩) ⟨0, block * blocks⟩ dataRange block)

section Reachable

variable {block blocks id : ℕ} {draws : ℕ → ℕ} {dataRange : Range} {metadata : MetaDataMemory}
  {data : Memory} {layout : Layout} {trace : List AccumulatorEvent} {acc : Accumulator}

/-- A run under a clock is a run of calls. -/
theorem AccumulatorRun.calls {state : ClockedAccumulator}
    (run : AccumulatorRun block blocks layout dataRange trace state) :
    AccumulatorCalls block blocks layout dataRange trace state.accumulator := by
  induction run with
  | nil => exact Run.nil
  | snoc _ taken ih =>
    cases taken with
    | get _ got => exact ih.snoc (.get got)
    | release released erased => exact ih.snoc (.release released erased)

/-- One call moves the ledger, whatever the clock says. -/
theorem Accumulator.Tracks.call {event : AccumulatorEvent} {next : Accumulator} {dataBegin : ℕ}
    {length : ℕ → ℕ} {ledger : Ledger block blocks}
    (laid : WellLaid metadata length (block * blocks)) (positive : 0 < block)
    (tracks : acc.Tracks ledger dataBegin length)
    (taken : AccumulatorCall metadata acc event next) :
    ∃ ledger' : Ledger block blocks, next.Tracks ledger' dataBegin length ∧
      ledger'.released = ledger.released + AccumulatorEvent.releasedTotal [event] := by
  cases taken with
  | @get _ due _ got =>
    rcases tracks.toAccounts.getMultievent_reading metadata due with ⟨failed, _⟩ | effective
    · cases failed.symm.trans got
    · obtain ⟨_, got', tracks', _⟩ :=
        tracks.getMultievent laid positive (le_max_right due ledger.generated)
      cases (got.symm.trans effective).trans got'
      exact ⟨_, tracks', ledger.get_released _⟩
  | release released erased =>
    obtain ⟨_, tracks'⟩ := tracks.releaseMultievents_erased released erased
    exact ⟨_, tracks', rfl⟩

/-- After every run of calls, there is a ledger. -/
theorem AccumulatorCalls.tracks (positive : 0 < block * blocks)
    (built : Generator.construct draws ⟨0, block * blocks⟩ dataRange id metadata data = .ok layout)
    (calls : AccumulatorCalls block blocks layout dataRange trace acc) :
    ∃ ledger : Ledger block blocks, acc.Tracks ledger dataRange.mBegin
        (eventLength (block * blocks) (dataRange.mEnd - dataRange.mBegin) draws) ∧
      AccumulatorEvent.releasedTotal trace = ledger.released := by
  have laid := Generator.construct_wellLaid positive built
  obtain ⟨_, _, rfl⟩ := Generator.construct_eq_ok positive built
  induction calls with
  | nil => exact ⟨Ledger.start positive, Accumulator.construct_tracks positive rfl rfl, rfl⟩
  | snoc _ taken ih =>
    obtain ⟨ledger, tracks, released⟩ := ih
    obtain ⟨ledger', tracks', released'⟩ :=
      tracks.call laid (Nat.pos_of_mul_pos_right positive) taken
    refine ⟨ledger', tracks', ?_⟩
    rw [AccumulatorEvent.releasedTotal_append, released, released']

end Reachable

/-- A call that returned nothing: the events read are counted everywhere, and
nothing else moved. -/
structure OnlyRead (slots : ℕ) (acc acc' : Accumulator) (events : ℕ) : Prop where
  queue : acc'.mIovMultievents = acc.mIovMultievents
  cursor : acc'.mCurrentMetadata = acc.mCurrentMetadata
  releaseCursor : acc'.mReleaseMetadata = acc.mReleaseMetadata
  unbundled : acc'.mGeneratedEvents = acc.mGeneratedEvents + events
  controllerCount : acc'.mController.mGeneratedEvents = acc.mController.mGeneratedEvents + events
  controllerCursor : acc'.mController.mCurrentMetadata =
    (acc.mController.mCurrentMetadata + events) % slots
  generatorReady : acc'.mController.mGenerator.mMetadataBuffer.ready =
    acc.mController.mGenerator.mMetadataBuffer.ready + events
  generatorCursor : acc'.mController.mGenerator.mMetadataBuffer.mNextWrite =
    (acc.mController.mGenerator.mMetadataBuffer.mNextWrite + events) % slots

namespace Accumulator

variable {block blocks : ℕ} {acc acc' : Accumulator} {ledger : Ledger block blocks}

/-- A block is ready, or the read makes it so. -/
theorem Accounts.available_iff (accounts : acc.Accounts ledger) (due : ℕ) :
    (ledger.acquired + 1) * block ≤ (ledger.read due).generated ↔
      block ≤ acc.mGeneratedEvents ∨ block ≤ acc.mGeneratedEvents +
        min (due - acc.mController.mGeneratedEvents)
          (block * blocks - 1 - acc.mGeneratedEvents - acc.mIovMultievents.length * block) := by
  have unbundled := accounts.unbundled
  have acquired : ledger.acquired * block =
      acc.mIovMultievents.length * block + ledger.released * block := by
    rw [← Nat.add_mul, accounts.outstanding]
  rw [accounts.controllerCount, Nat.add_mul, one_mul]
  simp only [Ledger.read, Ledger.fresh, Ledger.ring, RingCount.ready]
  split_ifs <;> omega

/-- Events read without a multievent to show for it. -/
theorem Accounts.onlyRead {due : ℕ} (before : acc.Accounts ledger)
    (after : acc'.Accounts (ledger.read due))
    (queue : acc'.mIovMultievents = acc.mIovMultievents) :
    OnlyRead (block * blocks) acc acc' (ledger.fresh due) := by
  have unbundled := before.unbundled
  have unbundled' := after.unbundled
  have ordered := ledger.ring.ordered
  simp only [Ledger.read] at unbundled'
  refine ⟨queue, ?_, ?_, by omega, ?_, ?_, ?_, ?_⟩
  · rw [after.cursor, before.cursor]
    rfl
  · rw [after.releaseCursor, before.releaseCursor]
    rfl
  · rw [after.controllerCount, before.controllerCount]
    rfl
  · rw [after.controllerCursor, before.controllerCursor, Nat.mod_add_mod]
    rfl
  · rw [after.generatorRing.ready, before.generatorRing.ready]
    simp only [Ledger.ring, Ledger.read, RingCount.ready] at ordered ⊢
    omega
  · rw [after.generatorRing.nextWrite, before.generatorRing.nextWrite, after.generatorFirst,
      before.generatorFirst, zero_add, zero_add, Nat.mod_add_mod, add_assoc]
    rfl

end Accumulator

section Available

variable {block credits id : ℕ} {draws : ℕ → ℕ} {dataRange : Range} {metadata : MetaDataMemory}
  {data : Memory} {layout : Layout} {trace : List AccumulatorEvent} {acc : Accumulator}

/-- A multievent is returned exactly if enough events are ready or can be read; with
enough of them due, if less than two blocks per credit are outstanding. -/
theorem getMultievent_available (positive : 0 < block)
    (built : Generator.construct draws ⟨0, block * (2 * credits + 1)⟩ dataRange id metadata data =
      .ok layout)
    (calls : AccumulatorCalls block (2 * credits + 1) layout dataRange trace acc) {due : ℕ}
    (reading : acc.mGeneratedEvents < block → acc.mController.mGeneratedEvents ≤ due) :
    ∃ result acc', acc.getMultievent layout.metadata due = .ok (result, acc') ∧
      (result.isSome ↔ block ≤ acc.mGeneratedEvents ∨ block ≤ acc.mGeneratedEvents +
        min (due - acc.mController.mGeneratedEvents) (block * (2 * credits + 1) - 1 -
          acc.mGeneratedEvents - acc.mIovMultievents.length * block)) ∧
      (block ≤ due - acc.mController.mGeneratedEvents →
        (result.isSome ↔ acc.mIovMultievents.length < 2 * credits)) ∧
      (result = none → ∃ events, OnlyRead (block * (2 * credits + 1)) acc acc' events) := by
  have slots : 0 < block * (2 * credits + 1) := Nat.mul_pos positive (Nat.succ_pos _)
  obtain ⟨ledger, tracks, _⟩ := calls.tracks slots built
  have laid := Generator.construct_wellLaid slots built
  have effective : acc.getMultievent layout.metadata due =
      acc.getMultievent layout.metadata (max due ledger.generated) := by
    rcases tracks.toAccounts.getMultievent_reading layout.metadata due with
      ⟨_, short, behind⟩ | effective
    · have := tracks.controllerCount ▸ reading short
      omega
    · exact effective
  have dueEvents : max due ledger.generated - acc.mController.mGeneratedEvents =
      due - acc.mController.mGeneratedEvents := by
    rw [tracks.controllerCount]
    omega
  have available := tracks.toAccounts.available_iff (max due ledger.generated)
  rw [dueEvents] at available
  obtain ⟨result, acc', got, accounts, _, outcome⟩ :=
    tracks.toAccounts.getMultievent laid positive (le_max_right due ledger.generated)
  have returned : result.isSome ↔ (ledger.acquired + 1) * block ≤
      (ledger.read (max due ledger.generated)).generated := by
    rcases outcome with ⟨ready, rfl, _⟩ | ⟨short, rfl, _⟩
    · exact iff_of_true rfl ready
    · exact iff_of_false nofun (not_le.mpr short)
  refine ⟨result, acc', effective.trans got, returned.trans available, ?_, ?_⟩
  · intro unlimited
    have outstanding := tracks.outstanding
    have enough : (ledger.acquired + 1) * block ≤ max due ledger.generated := by
      have := ledger.acquired_le
      rw [tracks.controllerCount] at unlimited
      rw [Nat.add_mul, one_mul]
      omega
    rw [returned, Ledger.acquire_iff positive enough]
    omega
  · rintro rfl
    obtain ⟨_, some, _⟩ | ⟨short, _, queue⟩ := outcome
    · cases some
    · rw [Ledger.get, dif_neg (not_le.mpr short)] at accounts
      exact ⟨_, tracks.toAccounts.onlyRead accounts queue⟩

/-- With one multievent outstanding of the two that can be, the next one is available. -/
theorem getMultievent_available_next : ∃ result acc',
    Accumulator.getMultievent uniformLayout.metadata
      ⟨⟨⟨⟨0, 3, 0, 1⟩, 0⟩, ⟨0, 3⟩, 2, 2⟩, ⟨0, 3⟩, ⟨0, 96⟩, 2, 1, 0, [(32, false)], 1⟩ 5 =
        .ok (result, acc') ∧ result.isSome := by
  obtain ⟨result, acc', got, _, unlimited, _⟩ := getMultievent_available (by decide)
    uniformLayout_built uniformLayout_second.calls fun _ => (by decide : 2 ≤ 5)
  exact ⟨result, acc', got, (unlimited (by decide)).mpr (by decide)⟩

end Available

end Lseb
