import Lseb.Generator.SelfDescription
import Lseb.Ru.AccumulatorRuns

/-!
# Multievents and the chunks that receive them

A receive chunk holds one fragment of the maximal size per event. The length
generator keeps every event below that size through its upper limit, except
that a limit of zero stands for a default: with fragments as small as a header,
the payload limit is zero and the default takes its place.
-/

namespace Lseb

open Foundation

namespace Configuration

variable {c : Configuration} {draws : ℕ → ℕ}

/-- Every multievent of a run fits the chunk if no event exceeds a fragment. -/
theorem multievents_le_chunkSize {dataPtr id : ℕ} {metadata : MetaDataMemory} {data : Memory}
    {layout : Layout} {trace : List AccumulatorEvent} {state : ClockedAccumulator}
    (built : c.generator draws dataPtr id metadata data = .ok layout)
    (run : AccumulatorRun c.bulkSize c.blocks layout (c.dataRange dataPtr) trace state)
    (bounded : ∀ event < c.slots, c.lengths draws event ≤ c.maxFragmentSize) :
    ∀ iov ∈ AccumulatorEvent.multievents trace, iov.iovLen ≤ c.chunkSize := by
  obtain ⟨ledger, tracks⟩ := run.tracks slots_pos built
  rw [dataRange_size] at tracks
  intro iov member
  rw [tracks.returned] at member
  obtain ⟨index, _, rfl⟩ := List.mem_map.mp member
  have inside : index % c.blocks * c.bulkSize + c.bulkSize ≤ c.slots :=
    block_fits (Nat.mod_lt _ blocks_pos)
  calc (multievent dataPtr (c.lengths draws) c.bulkSize c.blocks index).iovLen
      = ∑ event ∈ Finset.range c.bulkSize,
          c.lengths draws (index % c.blocks * c.bulkSize + event) := rfl
    _ ≤ ∑ _ ∈ Finset.range c.bulkSize, c.maxFragmentSize :=
        Finset.sum_le_sum fun event before =>
          bounded _ (by have := Finset.mem_range.mp before; omega)
    _ = c.chunkSize := by
        rw [Finset.sum_const_nat fun _ _ => rfl, Finset.card_range, mul_comm]
        rfl

/-- If every draw is within the payload limit, no event exceeds a fragment. -/
theorem lengths_le_of_draws (limited : ∀ call, draws call ≤ c.maxFragmentSize - sizeofEventHeader)
    (event : ℕ) : c.lengths draws event ≤ c.maxFragmentSize := by
  have header := c.sizeofEventHeader_le
  have draw := limited event
  have rounded := roundedSize_le (draws event)
  rcases @eventLength_cases c.slots c.dataSize draws event with small | large
  · exact small.trans_le header
  · rw [lengths, large]
    omega

section HeaderSized

variable (header : c.maxFragmentSize = sizeofEventHeader)

include header

/-- A payload that is rounded away leaves no event at all. -/
theorem lengths_le_of_short (short : ∀ call, draws call < 8) (event : ℕ) :
    c.lengths draws event ≤ c.maxFragmentSize := by
  rcases @eventLength_cases c.slots c.dataSize draws event with small | none
  · exact small.trans_le header.ge
  · rw [lengths, none, roundedSize_eq_zero_iff.mpr (short event)]
    exact Nat.zero_le _

/-- If every event is larger than a header, none finds room for more than one. -/
theorem eventOffset_of_long (long : ∀ call, 8 ≤ draws call) {event : ℕ} (inside : event ≤ c.slots) :
    eventOffset c.slots c.dataSize draws event = event * sizeofEventHeader := by
  induction event with
  | zero => simp [eventOffset]
  | succ event ih =>
    have bytes := c.dataSize_eq
    have large : 32 ≤ roundedSize (draws event) := by
      have := long event
      unfold roundedSize sizeofEventHeader dataPadding
      omega
    rw [header] at bytes
    have short : c.dataSize - event * sizeofEventHeader <
        roundedSize (draws event) + (c.slots - 1 - event) * sizeofEventHeader := by
      unfold sizeofEventHeader at *
      omega
    rw [eventOffset_succ, eventLength, ih (by omega), fittedSize, if_pos short, Nat.succ_mul]

theorem lengths_le_of_long (long : ∀ call, 8 ≤ draws call) (event : ℕ) (inside : event < c.slots) :
    c.lengths draws event ≤ c.maxFragmentSize := by
  have before := eventOffset_of_long header long inside.le
  have after := eventOffset_of_long header long inside
  rw [eventOffset_succ, before, Nat.succ_mul] at after
  rw [header, lengths]
  omega

/-- One block of empty events leaves the next one more room than its chunk has. -/
theorem lengths_of_gap {event : ℕ} (behind : c.bulkSize ≤ event) (inside : event < 2 * c.bulkSize) :
    c.lengths (fun call => if call < c.bulkSize then 0 else 8) event = 32 := by
  have some := c.bulkSize_pos
  have blocks : 3 * c.bulkSize ≤ c.slots := by
    rw [slots, blocks, mul_comm c.bulkSize]
    exact Nat.mul_le_mul_right _ (by have := c.credits_pos; omega)
  have bytes := c.dataSize_eq
  rw [header] at bytes
  have empty : ∀ event ≤ c.bulkSize, eventOffset c.slots c.dataSize
      (fun call => if call < c.bulkSize then 0 else 8) event = 0 := by
    intro event
    induction event with
    | zero => intro; rfl
    | succ event ih =>
      intro below
      rw [eventOffset_succ, ih (by omega), eventLength, ih (by omega), fittedSize,
        if_pos (by omega : event < c.bulkSize)]
      simp only [show roundedSize 0 = 0 from rfl, Nat.zero_add, Nat.sub_zero, sizeofEventHeader]
        at *
      rw [if_neg (by omega)]
  have full : ∀ extra < c.bulkSize, eventOffset c.slots c.dataSize
      (fun call => if call < c.bulkSize then 0 else 8) (c.bulkSize + extra) = 32 * extra ∧
      c.lengths (fun call => if call < c.bulkSize then 0 else 8) (c.bulkSize + extra) = 32 := by
    have fitted : ∀ extra < c.bulkSize, fittedSize c.slots c.dataSize 8 (c.bulkSize + extra)
        (32 * extra) = 32 := by
      intro extra below
      simp only [fittedSize, show roundedSize 8 = 32 from rfl, sizeofEventHeader] at *
      rw [if_neg (by omega)]
    intro extra
    induction extra with
    | zero =>
      intro below
      refine ⟨empty _ le_rfl, ?_⟩
      rw [lengths, eventLength, Nat.add_zero, empty _ le_rfl, if_neg (lt_irrefl _)]
      exact fitted 0 below
    | succ extra ih =>
      intro below
      obtain ⟨offset, length⟩ := ih (by omega)
      have next : eventOffset c.slots c.dataSize
          (fun call => if call < c.bulkSize then 0 else 8) (c.bulkSize + (extra + 1)) =
            32 * (extra + 1) := by
        rw [← Nat.add_assoc, eventOffset_succ, offset]
        exact congrArg (32 * extra + ·) length
      refine ⟨next, ?_⟩
      rw [lengths, eventLength, next, if_neg (by omega)]
      exact fitted _ below
  obtain ⟨extra, rfl⟩ := Nat.exists_eq_add_of_le behind
  exact (full extra (by omega)).2

/-- With a spread of payloads around the padding, some multievent is too long. -/
theorem exists_multievent_gt_chunkSize {g : LengthGenerator}
    (limits : c.payloadSizeGenerator = .ok g) (padded : c.dataSize % dataPadding = 0)
    (deviates : c.stddev ≠ 0) (long : 8 ≤ c.mean + 5 * c.stddev) :
    ∃ draws layout trace state, g.Returns draws ∧
      c.generator draws 0 0 (fun _ => ⟨0, 0, 0⟩) (fun _ => 0) = .ok layout ∧
      AccumulatorRun c.bulkSize c.blocks layout (c.dataRange 0) trace state ∧
      ∃ iov ∈ AccumulatorEvent.multievents trace, c.chunkSize < iov.iovLen := by
  have limit := (LengthGenerator.construct_eq_ok limits).1
  obtain ⟨layout, built⟩ := @generator_total c 0 rfl padded
    (fun call => if call < c.bulkSize then 0 else 8) 0 (fun _ => ⟨0, 0, 0⟩) fun _ => 0
  have spare : 2 < c.blocks := by
    have := c.credits_pos
    unfold blocks
    omega
  obtain ⟨trace, state, run, returned⟩ := exists_run_acquired slots_pos built spare
  rw [dataRange_size] at returned
  refine ⟨_, layout, trace, state, ?_, built, run,
    multievent 0 (c.lengths fun call => if call < c.bulkSize then 0 else 8) c.bulkSize c.blocks 1,
    ?_, ?_⟩
  · apply LengthGenerator.returns_of_bounds (by rw [limit]; exact deviates)
    intro call
    rw [limit, header]
    simp only [if_pos deviates, ne_eq, Nat.sub_self, not_true_eq_false, if_false]
    split_ifs <;> omega
  · rw [returned]
    exact List.mem_map.mpr ⟨1, List.mem_range.mpr one_lt_two, rfl⟩
  · have some := c.bulkSize_pos
    rw [multievent, eventsIovec, Nat.mod_eq_of_lt (by omega), one_mul]
    calc c.chunkSize = sizeofEventHeader * c.bulkSize := by rw [chunkSize, header]
      _ < c.bulkSize * 32 := by unfold sizeofEventHeader; omega
      _ = ∑ event ∈ Finset.range c.bulkSize,
            c.lengths (fun call => if call < c.bulkSize then 0 else 8) (c.bulkSize + event) := by
          rw [Finset.sum_const_nat fun event before => ?_, Finset.card_range]
          have := Finset.mem_range.mp before
          exact lengths_of_gap header (by omega) (by omega)

end HeaderSized

/-- Every multievent of every run fits its chunk exactly when the payload limit
is not the one that stands for a default, or that default does no harm. -/
theorem multievents_fit_chunk_iff {g : LengthGenerator} (limits : c.payloadSizeGenerator = .ok g)
    (padded : c.dataSize % dataPadding = 0) :
    (∀ draws dataPtr id metadata data layout trace state, g.Returns draws →
      c.generator draws dataPtr id metadata data = .ok layout →
      AccumulatorRun c.bulkSize c.blocks layout (c.dataRange dataPtr) trace state →
      ∀ iov ∈ AccumulatorEvent.multievents trace, iov.iovLen ≤ c.chunkSize) ↔
    c.maxFragmentSize ≠ sizeofEventHeader ∨ c.stddev = 0 ∨ c.mean + 5 * c.stddev < 8 := by
  obtain ⟨limit, lower, upper⟩ := LengthGenerator.construct_eq_ok limits
  constructor
  · intro fit
    by_contra fails
    simp only [not_or, not_not, not_lt] at fails
    obtain ⟨header, deviates, long⟩ := fails
    obtain ⟨draws, layout, trace, state, returns, built, run, iov, member, exceeds⟩ :=
      exists_multievent_gt_chunkSize header limits padded deviates long
    exact absurd (fit _ _ _ _ _ _ _ _ returns built run iov member) (not_le.mpr exceeds)
  · intro condition draws dataPtr id metadata data layout trace state returns built run
    have bounds := returns.bounds (lower.trans upper)
    apply multievents_le_chunkSize built run
    by_cases header : c.maxFragmentSize = sizeofEventHeader
    · rw [limit, header] at bounds
      simp only [ne_eq, Nat.sub_self, not_true_eq_false, if_false] at bounds
      rcases condition.resolve_left (not_not.mpr header) with constant | small
      · rw [constant] at bounds
        simp only [not_true_eq_false, if_false, Nat.mul_zero, Nat.add_zero] at bounds
        rcases Nat.lt_or_ge c.mean 8 with short | long
        · exact fun event _ => lengths_le_of_short header (fun call => by
            have := bounds call
            omega) event
        · exact fun event inside => lengths_le_of_long header (fun call => by
            have := bounds call
            omega) event inside
      · exact fun event _ => lengths_le_of_short header (fun call => by
          have := bounds call
          omega) event
    · have room : c.maxFragmentSize - sizeofEventHeader ≠ 0 := by
        have := c.sizeofEventHeader_le
        omega
      rw [limit] at bounds
      simp only [if_pos room] at bounds
      exact fun event _ => lengths_le_of_draws (fun call => (bounds call).2) event

theorem multievents_fit_chunk_iff_spread : ∃ layout trace state,
    spread.generator (fun _ => 40) 0 0 (fun _ => ⟨0, 0, 0⟩) (fun _ => 0) = .ok layout ∧
      AccumulatorRun 1 3 layout (spread.dataRange 0) trace state ∧
      (AccumulatorEvent.multievents trace).length = 2 ∧
      ∀ iov ∈ AccumulatorEvent.multievents trace, iov.iovLen ≤ 96 := by
  obtain ⟨layout, built⟩ := spread_generator fun _ => 40
  obtain ⟨trace, state, run, returned⟩ :=
    @exists_run_acquired 1 3 _ _ _ _ _ _ (by decide) built 2 (by decide)
  have returns : (⟨40, 20, 72, 0⟩ : LengthGenerator).Returns fun _ => 40 :=
    LengthGenerator.returns_of_bounds (by decide) fun _ => by decide
  have fit := (multievents_fit_chunk_iff (c := spread) rfl (by decide)).mpr (.inl (by decide))
  refine ⟨layout, trace, state, built, run, ?_, fit _ _ _ _ _ _ _ _ returns built run⟩
  rw [returned]
  rfl

/-- Fragments of the size of a header, and payloads around the padding. -/
def headerSized : Configuration where
  maxFragmentSize := 24
  bulkSize := 4
  credits := 1
  generatorFrequency := 1
  mean := 8
  stddev := 1
  maxFragmentSize_pos := by decide
  maxFragmentSize_mod := by decide
  bulkSize_pos := by decide
  credits_pos := Nat.one_pos
  generatorFrequency_pos := Nat.one_pos
  mean_pos := by decide

/-- Four payloads that are rounded away, and the next multievent has 128 bytes
for a chunk of 96. -/
theorem not_multievents_fit_chunk : ¬∀ (c : Configuration) (g : LengthGenerator),
    c.payloadSizeGenerator = .ok g →
    ∀ draws dataPtr id metadata data layout trace state, g.Returns draws →
      c.generator draws dataPtr id metadata data = .ok layout →
      AccumulatorRun c.bulkSize c.blocks layout (c.dataRange dataPtr) trace state →
      ∀ iov ∈ AccumulatorEvent.multievents trace, iov.iovLen ≤ c.chunkSize := by
  intro fit
  have limits : headerSized.payloadSizeGenerator = .ok ⟨8, 1, 13, 0⟩ := rfl
  obtain ⟨draws, layout, trace, state, returns, built, run, iov, member, exceeds⟩ :=
    exists_multievent_gt_chunkSize rfl limits (by decide) (by decide) (by decide)
  exact absurd (fit _ _ limits _ _ _ _ _ _ _ _ returns built run iov member) (not_le.mpr exceeds)

end Configuration

end Lseb
