import Mathlib.Algebra.Group.Nat.Even
import Mathlib.Data.Nat.Prime.Basic
import Lseb.Main

/-!
# From the configuration to the accumulator

`main` checks the configuration and then constructs the objects that readout
works with. Their constructors assert more than was checked: the mean has to
lie below the largest payload, and the data has to fill whole paddings.
-/

namespace Lseb

def sizeofEventMetaData : ℕ := 24

namespace LengthGenerator

theorem construct_of_limits {mean stddev max min : ℕ}
    (lower : (if stddev ≠ 0 then min else mean) ≤ mean)
    (upper : mean ≤ if max ≠ 0 then max else mean + 5 * stddev) :
    ∃ generator, construct mean stddev max min = .ok generator :=
  ⟨_, by rw [construct, assertThat_of ⟨lower, upper⟩]; rfl⟩

end LengthGenerator

theorem Generator.construct_padded {draws : ℕ → ℕ} {metadataRange dataRange : Range} {id : ℕ}
    {metadata : MetaDataMemory} {data : Memory} {layout : Layout}
    (built : construct draws metadataRange dataRange id metadata data = .ok layout) :
    (dataRange.mEnd - dataRange.mBegin) % dataPadding = 0 := by
  obtain ⟨_, _, built⟩ := bind_eq_ok.mp built
  obtain ⟨_, ring, built⟩ := bind_eq_ok.mp built
  obtain ⟨_, _, returned⟩ := bind_eq_ok.mp ring
  cases returned
  obtain ⟨_, _, built⟩ := bind_eq_ok.mp built
  obtain ⟨_, padding, _⟩ := bind_eq_ok.mp built
  exact assertThat_eq_ok.mp padding

namespace Configuration

section Definitions

variable (c : Configuration)

def metaSize : ℕ := sizeofEventMetaData * c.bulkSize * c.blocks

/-- What `main` constructs on the memory it allocated, in its order. The payload
lengths that are drawn on the way are `draws`. -/
def start (draws : ℕ → ℕ) (metadataPtr dataPtr id : ℕ) (metadata : MetaDataMemory)
    (data : Memory) : Except Error Accumulator := do
  let _ ← pointerCast metadataPtr
  let _ ← pointerCast (metadataPtr + c.metaSize)
  let _ ← c.payloadSizeGenerator
  let layout ← c.generator draws dataPtr id metadata data
  return c.accumulator layout dataPtr

/-- Every construction succeeds on aligned memory, whatever is drawn. -/
def Starts : Prop :=
  ∀ draws metadataPtr dataPtr id metadata data, metadataPtr % 8 = 0 → dataPtr % 8 = 0 →
    ∃ acc, c.start draws metadataPtr dataPtr id metadata data = .ok acc

/-- The mean is not above the largest payload; a size of one header sets no limit. -/
def MeanFits : Prop :=
  c.maxFragmentSize = sizeofEventHeader ∨ c.mean + sizeofEventHeader ≤ c.maxFragmentSize

end Definitions

variable {c : Configuration} {draws : ℕ → ℕ} {metadataPtr dataPtr id : ℕ}
  {metadata : MetaDataMemory} {data : Memory}

theorem payloadSizeGenerator_ok_iff :
    (∃ generator, c.payloadSizeGenerator = .ok generator) ↔ c.MeanFits := by
  have large := sizeofEventHeader_le (c := c)
  constructor
  · rintro ⟨generator, built⟩
    obtain ⟨rfl, _, upper⟩ := LengthGenerator.construct_eq_ok built
    dsimp only at upper
    unfold MeanFits
    split_ifs at upper <;> omega
  · intro fits
    apply LengthGenerator.construct_of_limits
    · split_ifs <;> omega
    · unfold MeanFits at fits
      split_ifs <;> omega

/-- The number of blocks is odd, so that it adds nothing to the padding. -/
theorem dataSize_padded_iff :
    c.dataSize % dataPadding = 0 ↔ c.chunkSize % dataPadding = 0 := by
  have odd : Nat.Coprime (2 ^ 5) c.blocks :=
    Nat.Coprime.pow_left 5 (Nat.coprime_two_left.mpr ⟨c.credits, by rw [blocks, mul_comm]⟩)
  rw [← Nat.dvd_iff_mod_eq_zero, ← Nat.dvd_iff_mod_eq_zero]
  exact ⟨odd.dvd_of_dvd_mul_right, fun padded => padded.mul_right _⟩

theorem metaSize_mod : c.metaSize % 8 = 0 := by
  rw [metaSize, sizeofEventMetaData, mul_assoc, Nat.mul_mod]
  simp

/-- What the constructors assert, once `start` went through. -/
theorem start_eq_ok {acc : Accumulator}
    (started : c.start draws metadataPtr dataPtr id metadata data = .ok acc) :
    c.MeanFits ∧ c.chunkSize % dataPadding = 0 := by
  obtain ⟨_, _, started⟩ := bind_eq_ok.mp started
  obtain ⟨_, _, started⟩ := bind_eq_ok.mp started
  obtain ⟨lengths, limits, started⟩ := bind_eq_ok.mp started
  obtain ⟨_, built, _⟩ := bind_eq_ok.mp started
  refine ⟨payloadSizeGenerator_ok_iff.mp ⟨lengths, limits⟩, dataSize_padded_iff.mp ?_⟩
  rw [← dataRange_size (c := c) dataPtr]
  exact Generator.construct_padded built

theorem start_total (mean : c.MeanFits) (padded : c.chunkSize % dataPadding = 0)
    (metadataAligned : metadataPtr % 8 = 0) (dataAligned : dataPtr % 8 = 0) :
    ∃ acc, c.start draws metadataPtr dataPtr id metadata data = .ok acc := by
  have lastAligned : (metadataPtr + c.metaSize) % 8 = 0 := by
    rw [Nat.add_mod, metadataAligned, metaSize_mod]
  obtain ⟨lengths, limits⟩ := payloadSizeGenerator_ok_iff.mpr mean
  obtain ⟨layout, built⟩ := generator_total dataAligned (dataSize_padded_iff.mpr padded) draws id
    metadata data
  refine ⟨c.accumulator layout dataPtr, ?_⟩
  rw [start, pointerCast_of metadataAligned, pointerCast_of lastAligned, limits, built]
  rfl

/-- The checks are enough exactly when the mean fits and a chunk fills whole paddings. -/
theorem starts_iff (c : Configuration) : c.Starts ↔
    (c.maxFragmentSize = 24 ∨ c.mean + 24 ≤ c.maxFragmentSize) ∧
      c.maxFragmentSize * c.bulkSize % 32 = 0 := by
  constructor
  · intro starts
    obtain ⟨_, started⟩ := starts (fun _ => 0) 0 0 0 (fun _ => ⟨0, 0, 0⟩) (fun _ => 0) rfl rfl
    exact start_eq_ok started
  · rintro ⟨mean, padded⟩ _ _ _ _ _ _ metadataAligned dataAligned
    exact start_total mean padded metadataAligned dataAligned

/-- The 360 bytes of three blocks are no multiple of the padding. -/
def unpadded : Configuration where
  maxFragmentSize := 120
  bulkSize := 1
  credits := 1
  generatorFrequency := 1
  mean := 50
  stddev := 5
  maxFragmentSize_pos := by decide
  maxFragmentSize_mod := by decide
  bulkSize_pos := Nat.one_pos
  credits_pos := Nat.one_pos
  generatorFrequency_pos := Nat.one_pos
  mean_pos := by decide

theorem unpadded_not_starts : ¬∀ c : Configuration, c.Starts := by
  intro always
  obtain ⟨_, started⟩ := always unpadded (fun _ => 0) 0 0 0 (fun _ => ⟨0, 0, 0⟩) (fun _ => 0)
    rfl rfl
  exact absurd (start_eq_ok started).2 (by decide)

end Configuration

end Lseb
