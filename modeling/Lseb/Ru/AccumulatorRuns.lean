import Lseb.Foundation.Run
import Lseb.Foundation.Wrapping
import Lseb.Ru.Multievent

/-!
# Runs of an accumulator

An accumulator on top of a freshly constructed generator is asked for
multievents, at nondecreasing clock readings, and told about completed ones in
any order. The ledger of its books exists after every run, so what the n-th
multievent is, and where all the cursors stand, depends on the totals alone.
-/

namespace Lseb

open Foundation

/-- One operation, with the events due by the clock and what came of it. -/
inductive AccumulatorEvent where
  | got (due : ℕ) (result : Option Iovec)
  | released (vect : List ℕ) (count : ℕ)
  deriving DecidableEq, Repr

/-- An accumulator and the events due at the last reading of the clock. -/
structure ClockedAccumulator where
  accumulator : Accumulator
  due : ℕ
  deriving DecidableEq, Repr

inductive AccumulatorStep (metadata : MetaDataMemory) :
    ClockedAccumulator → AccumulatorEvent → ClockedAccumulator → Prop where
  | get {acc acc' : Accumulator} {clock due : ℕ} {result : Option Iovec} (later : clock ≤ due)
      (got : acc.getMultievent metadata due = .ok (result, acc')) :
      AccumulatorStep metadata ⟨acc, clock⟩ (.got due result) ⟨acc', due⟩
  | release {acc acc' : Accumulator} {clock count : ℕ} {vect : List ℕ}
      (released : acc.releaseMultievents vect = .ok acc')
      (erased : acc'.mIovMultievents.length + count = acc.mIovMultievents.length) :
      AccumulatorStep metadata ⟨acc, clock⟩ (.released vect count) ⟨acc', clock⟩

/-- Runs from the construction on, over a ring of `block * blocks` events. -/
def AccumulatorRun (block blocks : ℕ) (layout : Layout) (dataRange : Range) :
    List AccumulatorEvent → ClockedAccumulator → Prop :=
  Run (AccumulatorStep layout.metadata)
    ⟨.construct (.construct layout.generator ⟨0, block * blocks⟩) ⟨0, block * blocks⟩ dataRange
      block, 0⟩

namespace AccumulatorEvent

def multievents (trace : List AccumulatorEvent) : List Iovec :=
  trace.filterMap fun
    | .got _ result => result
    | .released _ _ => none

/-- How many multievents had their memory released. -/
def releasedTotal (trace : List AccumulatorEvent) : ℕ :=
  (trace.map fun
    | .got _ _ => 0
    | .released _ count => count).sum

theorem releasedTotal_append (first second : List AccumulatorEvent) :
    releasedTotal (first ++ second) = releasedTotal first + releasedTotal second := by
  rw [releasedTotal, List.map_append, List.sum_append]
  rfl

end AccumulatorEvent

/-- A release counted by the multievents that it took off the queue. -/
theorem Accumulator.Tracks.releaseMultievents_erased {block blocks dataBegin count : ℕ}
    {length : ℕ → ℕ} {ledger : Ledger block blocks} {acc acc' : Accumulator} {vect : List ℕ}
    (tracks : acc.Tracks ledger dataBegin length)
    (released : acc.releaseMultievents vect = .ok acc')
    (erased : acc'.mIovMultievents.length + count = acc.mIovMultievents.length) :
    ∃ outstanding : ledger.released + count ≤ ledger.acquired,
      acc'.Tracks (ledger.release count outstanding) dataBegin length := by
  obtain ⟨freed, outstanding, tracks', _⟩ := tracks.releaseMultievents released
  have before := tracks.outstanding
  have after := tracks'.outstanding
  simp only [Ledger.release] at before after
  obtain rfl : freed = count := by omega
  exact ⟨outstanding, tracks'⟩

section Books

variable {block blocks id : ℕ} {draws : ℕ → ℕ} {dataRange : Range} {metadata : MetaDataMemory}
  {data : Memory} {layout : Layout} {trace : List AccumulatorEvent} {state : ClockedAccumulator}

/-- The ledger that a state's history and clock admit. -/
structure ClockedAccumulator.Tracks (state : ClockedAccumulator) (trace : List AccumulatorEvent)
    (ledger : Ledger block blocks) (dataBegin : ℕ) (length : ℕ → ℕ) : Prop
    extends state.accumulator.Tracks ledger dataBegin length where
  due : ledger.generated ≤ state.due
  returned : AccumulatorEvent.multievents trace =
    (List.range ledger.acquired).map (multievent dataBegin length block blocks)
  released : AccumulatorEvent.releasedTotal trace = ledger.released

theorem Ledger.returned_toList (ledger : Ledger block blocks) (dataBegin : ℕ) (length : ℕ → ℕ)
    (due : ℕ) : (List.range (ledger.get due).acquired).map
        (multievent dataBegin length block blocks) =
      (List.range ledger.acquired).map (multievent dataBegin length block blocks) ++
        (ledger.returned dataBegin length due).toList := by
  unfold Ledger.get Ledger.returned
  split_ifs
  · simp [Ledger.acquire, Ledger.read, List.range_succ]
  · simp [Ledger.read]

theorem Ledger.get_generated (ledger : Ledger block blocks) (due : ℕ) :
    (ledger.get due).generated = (ledger.read due).generated := by
  unfold Ledger.get
  split_ifs <;> rfl

theorem Ledger.get_released (ledger : Ledger block blocks) (due : ℕ) :
    (ledger.get due).released = ledger.released := by
  unfold Ledger.get
  split_ifs <;> rfl

/-- Asking for a multievent at a later reading of the clock moves the ledger. -/
theorem ClockedAccumulator.Tracks.get {dataBegin due : ℕ} {length : ℕ → ℕ}
    {ledger : Ledger block blocks} (laid : WellLaid metadata length (block * blocks))
    (positive : 0 < block) (tracks : state.Tracks trace ledger dataBegin length)
    (later : state.due ≤ due) :
    ∃ acc', state.accumulator.getMultievent metadata due =
        .ok (ledger.returned dataBegin length due, acc') ∧
      (⟨acc', due⟩ : ClockedAccumulator).Tracks
        (trace ++ [.got due (ledger.returned dataBegin length due)]) (ledger.get due) dataBegin
        length := by
  have reading : ledger.generated ≤ due := tracks.due.trans later
  obtain ⟨acc', got, tracks', _⟩ := tracks.toTracks.getMultievent laid positive reading
  refine ⟨acc', got, tracks', ?_, ?_, ?_⟩
  · rw [ledger.get_generated]
    exact Ledger.read_generated_le reading
  · rw [ledger.returned_toList, ← tracks.returned, AccumulatorEvent.multievents,
      List.filterMap_append]
    cases ledger.returned dataBegin length due <;> rfl
  · rw [ledger.get_released, AccumulatorEvent.releasedTotal_append, tracks.released]
    rfl

/-- One operation moves the ledger by what it returned or released. -/
theorem ClockedAccumulator.Tracks.step {dataBegin : ℕ} {length : ℕ → ℕ}
    {ledger : Ledger block blocks} {event : AccumulatorEvent} {next : ClockedAccumulator}
    (laid : WellLaid metadata length (block * blocks)) (positive : 0 < block)
    (tracks : state.Tracks trace ledger dataBegin length)
    (taken : AccumulatorStep metadata state event next) :
    ∃ ledger' : Ledger block blocks, next.Tracks (trace ++ [event]) ledger' dataBegin length := by
  cases taken with
  | @get acc acc' clock due result later got =>
    obtain ⟨acc'', got', tracks'⟩ := tracks.get laid positive later
    obtain ⟨rfl, rfl⟩ : ledger.returned dataBegin length due = result ∧ acc'' = acc' :=
      Prod.mk.inj (Except.ok.inj (got'.symm.trans got))
    exact ⟨ledger.get due, tracks'⟩
  | @release acc acc' clock count vect released erased =>
    obtain ⟨outstanding, tracks'⟩ := tracks.toTracks.releaseMultievents_erased released erased
    refine ⟨ledger.release count outstanding, tracks', tracks.due, ?_, ?_⟩
    · rw [AccumulatorEvent.multievents, List.filterMap_append]
      exact (List.append_nil _).trans tracks.returned
    · rw [AccumulatorEvent.releasedTotal_append, tracks.released]
      rfl

/-- After every run, there is a ledger. -/
theorem AccumulatorRun.tracks (positive : 0 < block * blocks)
    (built : Generator.construct draws ⟨0, block * blocks⟩ dataRange id metadata data = .ok layout)
    (run : AccumulatorRun block blocks layout dataRange trace state) :
    ∃ ledger : Ledger block blocks, state.Tracks trace ledger dataRange.mBegin
      (eventLength (block * blocks) (dataRange.mEnd - dataRange.mBegin) draws) := by
  obtain ⟨_, _, rfl⟩ := Generator.construct_eq_ok positive built
  refine Run.invariant (I := fun trace state => ∃ ledger : Ledger block blocks,
    state.Tracks trace ledger dataRange.mBegin
      (eventLength (block * blocks) (dataRange.mEnd - dataRange.mBegin) draws)) ?_ ?_ run
  · exact ⟨Ledger.start positive, Accumulator.construct_tracks positive rfl rfl, le_rfl, rfl, rfl⟩
  · rintro trace state event next - ⟨ledger, tracks⟩ taken
    exact tracks.step writtenMetadata_wellLaid (Nat.pos_of_mul_pos_right positive) taken

/-- Without any release, all blocks of the ring but one can be acquired. -/
theorem exists_run_acquired (positive : 0 < block * blocks)
    (built : Generator.construct draws ⟨0, block * blocks⟩ dataRange id metadata data = .ok layout)
    {count : ℕ} (spare : count < blocks) :
    ∃ trace state, AccumulatorRun block blocks layout dataRange trace state ∧
      AccumulatorEvent.multievents trace = (List.range count).map (multievent dataRange.mBegin
        (eventLength (block * blocks) (dataRange.mEnd - dataRange.mBegin) draws) block blocks) := by
  have laid := Generator.construct_wellLaid positive built
  obtain ⟨trace, state, ledger, run, tracks, acquired, _⟩ :
      ∃ trace state, ∃ ledger : Ledger block blocks,
        AccumulatorRun block blocks layout dataRange trace state ∧
        state.Tracks trace ledger dataRange.mBegin
          (eventLength (block * blocks) (dataRange.mEnd - dataRange.mBegin) draws) ∧
        ledger.acquired = count ∧ ledger.released = 0 := by
    induction count with
    | zero =>
      refine ⟨[], _, Ledger.start positive, Run.nil, ?_, rfl, rfl⟩
      obtain ⟨_, _, rfl⟩ := Generator.construct_eq_ok positive built
      exact ⟨Accumulator.construct_tracks positive rfl rfl, le_rfl, rfl, rfl⟩
    | succ count ih =>
      obtain ⟨trace, state, ledger, run, tracks, acquired, released⟩ := ih (by omega)
      have someEvents : 0 < block := Nat.pos_of_mul_pos_right positive
      have later : state.due ≤ max state.due ((ledger.acquired + 1) * block) := le_max_left _ _
      have ready : (ledger.acquired + 1) * block ≤
          (ledger.read (max state.due ((ledger.acquired + 1) * block))).generated :=
        (Ledger.acquire_iff someEvents (le_max_right _ _)).mpr (by omega)
      obtain ⟨acc', got, tracks'⟩ := tracks.get laid someEvents later
      refine ⟨_, _, ledger.get _, run.snoc (.get later got), tracks', ?_, ?_⟩
      · rw [Ledger.get, dif_pos ready]
        exact congrArg Nat.succ acquired
      · rw [ledger.get_released]
        exact released
  exact ⟨trace, state, run, acquired ▸ tracks.returned⟩

/-- If each multievent is released before the next one is asked for, any number of them can
be acquired. -/
theorem exists_run_released (positive : 0 < block * blocks)
    (built : Generator.construct draws ⟨0, block * blocks⟩ dataRange id metadata data = .ok layout)
    (nonzero : ∀ slot < block * blocks, eventLength (block * blocks)
      (dataRange.mEnd - dataRange.mBegin) draws slot ≠ 0) (some : 1 < blocks) (count : ℕ) :
    ∃ trace state, ∃ ledger : Ledger block blocks,
      AccumulatorRun block blocks layout dataRange trace state ∧
      state.Tracks trace ledger dataRange.mBegin
        (eventLength (block * blocks) (dataRange.mEnd - dataRange.mBegin) draws) ∧
      ledger.acquired = count ∧ ledger.released = count := by
  have laid := Generator.construct_wellLaid positive built
  have someEvents : 0 < block := Nat.pos_of_mul_pos_right positive
  induction count with
  | zero =>
    refine ⟨[], _, Ledger.start positive, Run.nil, ?_, rfl, rfl⟩
    obtain ⟨_, _, rfl⟩ := Generator.construct_eq_ok positive built
    exact ⟨Accumulator.construct_tracks positive rfl rfl, le_rfl, rfl, rfl⟩
  | succ count ih =>
    obtain ⟨trace, state, ledger, run, tracks, acquired, released⟩ := ih
    have later : state.due ≤ max state.due ((ledger.acquired + 1) * block) := le_max_left _ _
    have ready : (ledger.acquired + 1) * block ≤
        (ledger.read (max state.due ((ledger.acquired + 1) * block))).generated :=
      (Ledger.acquire_iff someEvents (le_max_right _ _)).mpr (by omega)
    obtain ⟨acc', got, tracks'⟩ := tracks.get laid someEvents later
    have next : (ledger.get (max state.due ((ledger.acquired + 1) * block))).acquired =
        count + 1 := by
      rw [Ledger.get, dif_pos ready]
      exact congrArg Nat.succ acquired
    obtain ⟨acc'', given⟩ := tracks'.toTracks.releaseMultievents_total
      (Ledger.addresses_nodup _ _ nonzero) (Multiset.coe_le.mpr (List.Perm.refl _).subperm)
    obtain ⟨freed, _, freedTracks, unmarked⟩ := tracks'.toTracks.releaseMultievents given
    have empty : acc''.mIovMultievents = [] := by
      apply freedTracks.settled.eq_nil
      exact (Multiset.coe_eq_zero _).mp (left_eq_add.mp unmarked)
    obtain ⟨outstanding, tracks''⟩ :=
      tracks'.toTracks.releaseMultievents_erased given (by rw [empty]; exact Nat.zero_add _)
    have all := tracks''.outstanding
    rw [empty] at all
    simp only [List.length_nil, Nat.zero_add, Ledger.release] at all
    refine ⟨_, _, _, (run.snoc (.get later got)).snoc (.release given (by
      rw [empty]
      exact Nat.zero_add _)), ⟨tracks'', tracks'.due, ?_, ?_⟩, next, all.trans next⟩
    · rw [AccumulatorEvent.multievents, List.filterMap_append]
      exact (List.append_nil _).trans tracks'.returned
    · rw [AccumulatorEvent.releasedTotal_append, tracks'.released]
      rfl

end Books

section Blocks

variable {block credits id : ℕ} {draws : ℕ → ℕ} {dataRange : Range} {metadata : MetaDataMemory}
  {data : Memory} {layout : Layout} {trace : List AccumulatorEvent} {state : ClockedAccumulator}

/-- The bytes of the events of one block of the ring, as the records have them. -/
structure IsBlock (metadata : MetaDataMemory) (dataBegin block index : ℕ) (iov : Iovec) :
    Prop where
  ids : ∀ event < block, (metadata (index * block + event)).id = index * block + event
  base : iov.iovBase = dataBegin + (metadata (index * block)).offset
  len : iov.iovLen = ∑ event ∈ Finset.range block, (metadata (index * block + event)).length
  contiguous : ∀ event < block, (metadata (index * block + event)).offset =
    (metadata (index * block)).offset +
      ∑ earlier ∈ Finset.range event, (metadata (index * block + earlier)).length

/-- The bytes lie inside the data range. -/
def Iovec.Inside (iov : Iovec) (dataRange : Range) : Prop :=
  dataRange.mBegin ≤ iov.iovBase ∧ iov.iovBase + iov.iovLen ≤ dataRange.mEnd

theorem WellLaid.isBlock {blocks dataBegin index : ℕ} {length : ℕ → ℕ}
    (laid : WellLaid metadata length (block * blocks))
    (ids : ∀ slot < block * blocks, (metadata slot).id = slot) (positive : 0 < block)
    (inside : index < blocks) :
    IsBlock metadata dataBegin block index
      (eventsIovec dataBegin length (index * block) block) := by
  have fits := @block_fits block _ _ inside
  have record : ∀ event < block, (metadata (index * block + event)).length =
      length (index * block + event) := fun event before => (laid _ (by omega)).1
  have sums : ∀ count ≤ block,
      ∑ event ∈ Finset.range count, (metadata (index * block + event)).length =
        ∑ event ∈ Finset.range count, length (index * block + event) := by
    intro count bound
    refine Finset.sum_congr rfl fun event member => record event ?_
    exact (Finset.mem_range.mp member).trans_le bound
  refine ⟨fun event before => ids _ (by omega), ?_, ?_, ?_⟩
  · rw [(laid (index * block) (by omega)).2]
    rfl
  · rw [sums block le_rfl]
    rfl
  · intro event before
    rw [sums event before.le, (laid _ (by omega)).2, (laid (index * block) (by omega)).2,
      Finset.sum_range_add]

theorem range_isPrefix {first last : ℕ} (ordered : first ≤ last) :
    List.range first <+: List.range last := by
  obtain ⟨gap, rfl⟩ := Nat.exists_eq_add_of_le ordered
  exact ⟨_, (List.range_add ..).symm⟩

/-- What a run returned, and the next call: the n-th multievent is block
`n mod (2 * credits + 1)` of the ring, any two runs return the same sequence as far as both
go, and asking for the next one does not fail. -/
structure ReturnsBlocks (layout : Layout) (dataRange : Range) (block credits : ℕ)
    (trace : List AccumulatorEvent) (state : ClockedAccumulator) : Prop where
  nth : ∀ n iov, (AccumulatorEvent.multievents trace)[n]? = some iov →
    IsBlock layout.metadata dataRange.mBegin block (n % (2 * credits + 1)) iov
  sequence : ∀ trace' state',
    AccumulatorRun block (2 * credits + 1) layout dataRange trace' state' →
      AccumulatorEvent.multievents trace <+: AccumulatorEvent.multievents trace' ∨
      AccumulatorEvent.multievents trace' <+: AccumulatorEvent.multievents trace
  next : ∀ due ≥ state.due, ∃ result acc',
    state.accumulator.getMultievent layout.metadata due = .ok (result, acc')

theorem AccumulatorRun.returnsBlocks (positive : 0 < block)
    (built : Generator.construct draws ⟨0, block * (2 * credits + 1)⟩ dataRange id metadata data =
      .ok layout)
    (run : AccumulatorRun block (2 * credits + 1) layout dataRange trace state) :
    ReturnsBlocks layout dataRange block credits trace state := by
  have slots : 0 < block * (2 * credits + 1) := Nat.mul_pos positive (Nat.succ_pos _)
  obtain ⟨ledger, tracks⟩ := run.tracks slots built
  have records : layout.metadata = Generator.writtenMetadata (block * (2 * credits + 1))
      (dataRange.mEnd - dataRange.mBegin) draws metadata (block * (2 * credits + 1)) := by
    rw [(Generator.construct_eq_ok slots built).2.2]
  have laid := Generator.construct_wellLaid slots built
  refine ⟨?_, ?_, ?_⟩
  · intro n iov nth
    rw [tracks.returned, List.getElem?_map, Option.map_eq_some_iff] at nth
    obtain ⟨index, found, rfl⟩ := nth
    obtain ⟨_, rfl⟩ := List.getElem?_eq_some_iff.mp found
    rw [List.getElem_range]
    refine laid.isBlock ?_ positive (Nat.mod_lt _ (Nat.succ_pos _))
    intro slot inside
    rw [records, Generator.writtenMetadata, if_pos inside]
  · intro trace' state' run'
    obtain ⟨ledger', tracks'⟩ := run'.tracks slots built
    rw [tracks.returned, tracks'.returned]
    rcases Nat.le_total ledger.acquired ledger'.acquired with less | more
    · exact .inl ((range_isPrefix less).map _)
    · exact .inr ((range_isPrefix more).map _)
  · intro due later
    obtain ⟨acc', got, _⟩ :=
      tracks.toTracks.getMultievent laid positive (tracks.due.trans later)
    exact ⟨_, acc', got⟩

/-- All multievents of a run lie inside, if the events do. -/
theorem AccumulatorRun.inside (positive : 0 < block)
    (built : Generator.construct draws ⟨0, block * (2 * credits + 1)⟩ dataRange id metadata data =
      .ok layout)
    (ends : eventOffset (block * (2 * credits + 1)) (dataRange.mEnd - dataRange.mBegin) draws
      (block * (2 * credits + 1)) ≤ dataRange.mEnd - dataRange.mBegin)
    (run : AccumulatorRun block (2 * credits + 1) layout dataRange trace state) {iov : Iovec}
    (member : iov ∈ AccumulatorEvent.multievents trace) : iov.Inside dataRange := by
  have slots : 0 < block * (2 * credits + 1) := Nat.mul_pos positive (Nat.succ_pos _)
  obtain ⟨ledger, tracks⟩ := run.tracks slots built
  have begins := (Generator.construct_eq_ok slots built).2.1
  rw [tracks.returned] at member
  obtain ⟨index, _, rfl⟩ := List.mem_map.mp member
  have inside := @multievent_inside dataRange.mBegin block (2 * credits + 1)
    (eventLength (block * (2 * credits + 1)) (dataRange.mEnd - dataRange.mBegin) draws) index
    (Nat.succ_pos _)
  rw [eventOffset_eq_sum] at ends
  exact ⟨inside.1, by omega⟩

/-- If the events do not end inside, some run returns a multievent that does not. -/
theorem exists_run_outside (positive : 0 < block) (credit : 0 < credits)
    (built : Generator.construct draws ⟨0, block * (2 * credits + 1)⟩ dataRange id metadata data =
      .ok layout)
    (few : dataRange.mEnd - dataRange.mBegin < block * (2 * credits + 1) * sizeofEventHeader)
    (long : ∀ slot < block * (2 * credits + 1), 8 ≤ draws slot) :
    ∃ trace state, AccumulatorRun block (2 * credits + 1) layout dataRange trace state ∧
      ∃ iov ∈ AccumulatorEvent.multievents trace, dataRange.mEnd < iov.iovBase + iov.iovLen := by
  have slots : 0 < block * (2 * credits + 1) := Nat.mul_pos positive (Nat.succ_pos _)
  have begins := (Generator.construct_eq_ok slots built).2.1
  have ends := (eventOffset_slots_le_iff slots begins).not.mpr (by
    rintro (fits | ⟨slot, inside, small⟩)
    · exact absurd fits (not_le.mpr few)
    · exact absurd small (not_lt.mpr (long slot inside)))
  obtain ⟨trace, state, ledger, run, tracks, acquired, _⟩ := exists_run_released slots built
    (fun slot inside => eventLength_ne_zero (long slot inside)) (by omega) (2 * credits + 1)
  refine ⟨trace, state, run, multievent dataRange.mBegin
    (eventLength (block * (2 * credits + 1)) (dataRange.mEnd - dataRange.mBegin) draws) block
    (2 * credits + 1) (2 * credits), ?_, ?_⟩
  · rw [tracks.returned, acquired]
    exact List.mem_map.mpr ⟨2 * credits, List.mem_range.mpr (Nat.lt_succ_self _), rfl⟩
  · rw [multievent_last_end, ← eventOffset_eq_sum]
    omega

/-- The n-th multievent is block `n mod (2 * credits + 1)` of the ring, whatever the clock and
the releases were, and asking for the next one never fails. All of them lie inside the data
range exactly if that has room for a header per event or some payload is rounded away. -/
theorem getMultievent_returns_block_iff (positive : 0 < block) (credit : 0 < credits)
    (built : Generator.construct draws ⟨0, block * (2 * credits + 1)⟩ dataRange id metadata data =
      .ok layout) :
    ((∀ trace state, AccumulatorRun block (2 * credits + 1) layout dataRange trace state →
        ReturnsBlocks layout dataRange block credits trace state ∧
          ∀ iov ∈ AccumulatorEvent.multievents trace, iov.Inside dataRange) ↔
      block * (2 * credits + 1) * sizeofEventHeader ≤ dataRange.mEnd - dataRange.mBegin ∨
        ∃ slot < block * (2 * credits + 1), draws slot < 8) ∧
    ∀ trace state, AccumulatorRun block (2 * credits + 1) layout dataRange trace state →
      ReturnsBlocks layout dataRange block credits trace state := by
  have slots : 0 < block * (2 * credits + 1) := Nat.mul_pos positive (Nat.succ_pos _)
  have begins := (Generator.construct_eq_ok slots built).2.1
  refine ⟨⟨?_, ?_⟩, fun trace state run => run.returnsBlocks positive built⟩
  · intro always
    by_contra neither
    obtain ⟨few, long⟩ := not_or.mp neither
    obtain ⟨trace, state, run, iov, member, outside⟩ :=
      exists_run_outside positive credit built (not_le.mp few) fun slot inside =>
        not_lt.mp fun small => long ⟨slot, inside, small⟩
    have inside := (always trace state run).2 iov member
    exact absurd inside.2 (not_le.mpr outside)
  · intro room trace state run
    refine ⟨run.returnsBlocks positive built, fun iov member => ?_⟩
    exact run.inside positive built ((eventOffset_slots_le_iff slots begins).mpr room) member

/-- A ring of three events of 32 bytes. -/
def uniformLayout : Layout where
  generator := ⟨⟨0, 3, 2, 2⟩, 0⟩
  metadata := Generator.writtenMetadata 3 96 (fun _ => 8) (fun _ => ⟨0, 0, 0⟩) 3
  data := writtenHeaders 3 96 (fun _ => 8) 0 0 (fun _ => 0) 3

theorem uniformLayout_built : Generator.construct (fun _ => 8) ⟨0, 1 * (2 * 1 + 1)⟩ ⟨0, 96⟩ 0
    (fun _ => ⟨0, 0, 0⟩) (fun _ => 0) = .ok uniformLayout :=
  @Generator.construct_eq 3 96 0 0 _ _ _ (by decide) (by decide) (by decide) (by decide)

theorem uniformLayout_run : AccumulatorRun 1 (2 * 1 + 1) uniformLayout ⟨0, 96⟩
    [.got 2 (some ⟨0, 32⟩), .released [0] 1]
    ⟨⟨⟨⟨⟨0, 3, 0, 1⟩, 0⟩, ⟨0, 3⟩, 2, 2⟩, ⟨0, 3⟩, ⟨0, 96⟩, 1, 1, 1, [], 1⟩, 2⟩ :=
  have got : AccumulatorRun 1 (2 * 1 + 1) uniformLayout ⟨0, 96⟩ [.got 2 (some ⟨0, 32⟩)]
      ⟨⟨⟨⟨⟨0, 3, 2, 1⟩, 0⟩, ⟨0, 3⟩, 2, 2⟩, ⟨0, 3⟩, ⟨0, 96⟩, 1, 1, 1, [(0, false)], 0⟩, 2⟩ :=
    Run.single (.get (by decide) rfl)
  got.snoc (.release rfl rfl)

theorem uniformLayout_second : AccumulatorRun 1 (2 * 1 + 1) uniformLayout ⟨0, 96⟩
    [.got 2 (some ⟨0, 32⟩), .released [0] 1, .got 3 (some ⟨32, 32⟩)]
    ⟨⟨⟨⟨⟨0, 3, 0, 1⟩, 0⟩, ⟨0, 3⟩, 2, 2⟩, ⟨0, 3⟩, ⟨0, 96⟩, 2, 1, 0, [(32, false)], 1⟩, 3⟩ :=
  uniformLayout_run.snoc (.get (by decide) rfl)

/-- The third multievent ends where the ring begins again, and all that can be are outstanding. -/
theorem uniformLayout_lap : AccumulatorRun 1 (2 * 1 + 1) uniformLayout ⟨0, 96⟩
    [.got 2 (some ⟨0, 32⟩), .released [0] 1, .got 3 (some ⟨32, 32⟩), .got 3 (some ⟨64, 32⟩)]
    ⟨⟨⟨⟨⟨0, 3, 0, 2⟩, 0⟩, ⟨0, 3⟩, 0, 3⟩, ⟨0, 3⟩, ⟨0, 96⟩, 0, 1, 0, [(32, false), (64, false)], 1⟩,
      3⟩ :=
  uniformLayout_second.snoc (.get le_rfl rfl)

theorem getMultievent_returns_block_last : IsBlock uniformLayout.metadata 0 1 2 ⟨64, 32⟩ ∧
    (⟨64, 32⟩ : Iovec).Inside ⟨0, 96⟩ := by
  obtain ⟨blocks, inside⟩ := (getMultievent_returns_block_iff (by decide) (by decide)
    uniformLayout_built).1.mpr (.inl (by decide)) _ _ uniformLayout_lap
  exact ⟨blocks.nth 2 _ rfl, inside _ (by decide)⟩

/-- With fragments of 1227133536 bytes and three credits, the 32 bits of the buffer's size are
160, in which the seventh header does not fit any more. -/
theorem not_getMultievent_inside : signed 32 (1227133536 * 1 * (3 * 2 + 1)) = 160 ∧
    ¬∀ block credits draws dataRange id metadata data layout, 0 < block → 0 < credits →
      Generator.construct draws ⟨0, block * (2 * credits + 1)⟩ dataRange id metadata data =
        .ok layout →
      ∀ trace state, AccumulatorRun block (2 * credits + 1) layout dataRange trace state →
        ReturnsBlocks layout dataRange block credits trace state ∧
          ∀ iov ∈ AccumulatorEvent.multievents trace, iov.Inside dataRange := by
  refine ⟨by decide, fun always => ?_⟩
  have built := @Generator.construct_of_begins 7 160 0 0 (fun _ => 200) (fun _ => ⟨0, 0, 0⟩)
    (fun _ => 0) (by decide) (by decide) (by decide) (by decide)
  obtain ⟨trace, state, run, iov, member, outside⟩ :=
    @exists_run_outside 1 3 _ _ ⟨0, 160⟩ _ _ _ (by decide) (by decide) built (by decide) (by decide)
  have inside := (always 1 3 _ _ _ _ _ _ (by decide) (by decide) built trace state run).2 iov member
  exact absurd inside.2 (not_le.mpr outside)

/-- A batch of completed multievents: outstanding, not completed yet, and told
apart by their addresses. -/
structure Accumulator.Releasable (acc : Accumulator) (vect : List ℕ) : Prop where
  distinct : vect.Nodup
  waiting : ∀ address ∈ vect, (address, false) ∈ acc.mIovMultievents
  addresses : acc.mIovMultievents.keys.Nodup

/-- The occupancy of the ring as generator, controller, accumulator and queue
have it, for `released` multievents released so far. -/
structure RingAccounting (metadata : MetaDataMemory) (dataBegin block credits released due : ℕ)
    (acc : Accumulator) : Prop where
  ready : acc.mController.mGenerator.mMetadataBuffer.ready =
    acc.mGeneratedEvents + acc.mIovMultievents.length * block
  spare : acc.mGeneratedEvents + acc.mIovMultievents.length * block ≤
    block * (2 * credits + 1) - 1
  controllerCursor : acc.mController.mCurrentMetadata =
    (acc.mCurrentMetadata + acc.mGeneratedEvents) % (block * (2 * credits + 1))
  cursor : acc.mCurrentMetadata = (acc.mReleaseMetadata + acc.mIovMultievents.length * block) %
    (block * (2 * credits + 1))
  aligned : block ∣ acc.mCurrentMetadata ∧ block ∣ acc.mReleaseMetadata
  outstanding : acc.mIovMultievents.length ≤ 2 * credits
  addresses : ∀ position (inside : position < acc.mIovMultievents.length),
    acc.mIovMultievents[position].1 = dataBegin + (metadata
      ((acc.mReleaseMetadata + position * block) % (block * (2 * credits + 1)))).offset
  distinct : ((List.range acc.mIovMultievents.length).map fun position =>
    (acc.mReleaseMetadata + position * block) % (block * (2 * credits + 1))).Nodup
  generated : acc.mController.mGeneratedEvents =
    block * released + acc.mIovMultievents.length * block + acc.mGeneratedEvents
  bounded : acc.mController.mGeneratedEvents ≤ due

theorem Accumulator.Tracks.ringAccounting {length : ℕ → ℕ} {acc : Accumulator} {dataBegin due : ℕ}
    {ledger : Ledger block (2 * credits + 1)} (positive : 0 < block)
    (laid : WellLaid metadata length (block * (2 * credits + 1)))
    (tracks : acc.Tracks ledger dataBegin length) (reading : ledger.generated ≤ due) :
    RingAccounting metadata dataBegin block credits ledger.released due acc := by
  have unbundled := tracks.unbundled
  have outstanding := tracks.outstanding
  have acquired : ledger.acquired * block =
      ledger.released * block + acc.mIovMultievents.length * block := by
    rw [← outstanding]
    ring
  have ready := tracks.generatorRing.ready
  have room := ledger.ring.ready_lt
  have below := ledger.outstanding_lt
  simp only [Ledger.ring, RingCount.ready] at ready room
  have slot : ∀ position,
      (acc.mReleaseMetadata + position * block) % (block * (2 * credits + 1)) =
        (ledger.released + position) % (2 * credits + 1) * block := by
    intro position
    rw [tracks.releaseCursor, Nat.mod_add_mod, ← Nat.add_mul, block_cursor]
  refine ⟨by omega, by omega, ?_, ?_, ⟨?_, ?_⟩, by omega, ?_, ?_, ?_, ?_⟩
  · rw [tracks.controllerCursor, tracks.cursor, Nat.mod_add_mod]
    congr 1
    omega
  · rw [slot, tracks.cursor, block_cursor, ← outstanding, Nat.add_comm ledger.released]
  · rw [tracks.cursor, block_cursor]
    exact Nat.dvd_mul_left _ _
  · rw [tracks.releaseCursor, block_cursor]
    exact Nat.dvd_mul_left _ _
  · intro position inside
    have entry : acc.mIovMultievents.keys[position]? = some acc.mIovMultievents[position].1 := by
      simp [MarkedQueue.keys, inside]
    rw [tracks.keys, Ledger.addresses, List.getElem?_map, List.getElem?_range (by omega)] at entry
    have fits : (ledger.released + position) % (2 * credits + 1) * block + block ≤
        block * (2 * credits + 1) := block_fits (Nat.mod_lt _ (Nat.succ_pos _))
    rw [← Option.some.inj entry, slot, (laid _ (by omega)).2]
    rfl
  · simp only [slot]
    have blocks := blocks_nodup ledger.released below.le
    rw [← outstanding, Nat.add_sub_cancel, List.Nodup, List.pairwise_map] at *
    exact blocks.imp fun differ same => differ (Nat.eq_of_mul_eq_mul_right positive same)
  · rw [tracks.controllerCount, mul_comm block]
    omega
  · rw [tracks.controllerCount]
    exact reading

/-- In every state reached, the accounts of the ring agree, and neither asking
for a multievent nor releasing completed ones fails. -/
theorem accumulatorRun_accounting (positive : 0 < block)
    (built : Generator.construct draws ⟨0, block * (2 * credits + 1)⟩ dataRange id metadata data =
      .ok layout)
    (run : AccumulatorRun block (2 * credits + 1) layout dataRange trace state) :
    RingAccounting layout.metadata dataRange.mBegin block credits
        (AccumulatorEvent.releasedTotal trace) state.due state.accumulator ∧
      (∀ due ≥ state.due, ∃ result acc',
        state.accumulator.getMultievent layout.metadata due = .ok (result, acc')) ∧
      ∀ vect, state.accumulator.Releasable vect →
        ∃ acc', state.accumulator.releaseMultievents vect = .ok acc' := by
  have slots : 0 < block * (2 * credits + 1) := Nat.mul_pos positive (Nat.succ_pos _)
  obtain ⟨ledger, tracks⟩ := run.tracks slots built
  have laid := Generator.construct_wellLaid slots built
  refine ⟨?_, ?_, ?_⟩
  · rw [tracks.released]
    exact tracks.toTracks.ringAccounting positive laid tracks.due
  · intro due later
    obtain ⟨acc', got, _⟩ :=
      tracks.toTracks.getMultievent laid positive (tracks.due.trans later)
    exact ⟨_, acc', got⟩
  · intro vect releasable
    apply tracks.toTracks.releaseMultievents_total
    · rw [← tracks.keys]
      exact releasable.addresses
    · apply (Multiset.le_iff_subset (Multiset.coe_nodup.mpr releasable.distinct)).mpr
      intro address member
      exact MarkedQueue.mem_unmarked.mpr (releasable.waiting address member)

/-- One multievent is released and two are outstanding, in a ring that has begun again. -/
theorem accumulatorRun_accounting_full : RingAccounting uniformLayout.metadata 0 1 1 1 3
      ⟨⟨⟨⟨0, 3, 0, 2⟩, 0⟩, ⟨0, 3⟩, 0, 3⟩, ⟨0, 3⟩, ⟨0, 96⟩, 0, 1,
        0, [(32, false), (64, false)], 1⟩ ∧
    ∃ acc', Accumulator.releaseMultievents ⟨⟨⟨⟨0, 3, 0, 2⟩, 0⟩, ⟨0, 3⟩, 0, 3⟩, ⟨0, 3⟩, ⟨0, 96⟩, 0, 1,
      0, [(32, false), (64, false)], 1⟩ [64] = .ok acc' := by
  obtain ⟨accounting, _, releases⟩ :=
    accumulatorRun_accounting (by decide) uniformLayout_built uniformLayout_lap
  exact ⟨accounting, releases [64] ⟨by decide, by decide, by decide⟩⟩

end Blocks

end Lseb
