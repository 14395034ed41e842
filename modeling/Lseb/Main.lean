import Lseb.Generator.LengthGenerator
import Lseb.Ru.Multievent

/-!
# The configuration checks and the construction of a node

`Settings` are the integers of the configuration file; a `Configuration` is
what is left of them once every check has passed, and carries the checks as
fields. Sizes are exact integers.
-/

namespace Lseb

@[ext]
structure Settings where
  maxFragmentSize : ℤ
  bulkSize : ℤ
  credits : ℤ
  generatorFrequency : ℤ
  mean : ℤ
  stddev : ℤ
  deriving DecidableEq, Repr

/-- Settings that passed the checks and assertions before the constructors. -/
structure Configuration where
  maxFragmentSize : ℕ
  bulkSize : ℕ
  credits : ℕ
  generatorFrequency : ℕ
  mean : ℕ
  stddev : ℕ
  maxFragmentSize_pos : 0 < maxFragmentSize
  maxFragmentSize_mod : maxFragmentSize % sizeofEventHeader = 0
  bulkSize_pos : 0 < bulkSize
  credits_pos : 0 < credits
  generatorFrequency_pos : 0 < generatorFrequency
  mean_pos : 0 < mean
  deriving DecidableEq, Repr

/-- The checks of `main`, in its order. -/
def configure (s : Settings) : Except Error Configuration :=
  if fragment : s.maxFragmentSize ≤ 0 ∨ s.maxFragmentSize % sizeofEventHeader ≠ 0 then
    .error (.exitFailure s!"Wrong MAX_FRAGMENT_SIZE: {s.maxFragmentSize}")
  else if bulk : s.bulkSize ≤ 0 then
    .error (.exitFailure s!"Wrong BULKED_EVENTS: {s.bulkSize}")
  else if credits : s.credits < 1 then
    .error (.exitFailure s!"Wrong CREDITS: {s.credits}")
  else if frequency : ¬ s.generatorFrequency > 0 then
    .error (.assertion "generator_frequency > 0")
  else if mean : ¬ s.mean > 0 then
    .error (.assertion "mean > 0")
  else if s.stddev < 0 then
    .error (.assertion "stddev >= 0")
  else
    .ok {
      maxFragmentSize := s.maxFragmentSize.toNat
      bulkSize := s.bulkSize.toNat
      credits := s.credits.toNat
      generatorFrequency := s.generatorFrequency.toNat
      mean := s.mean.toNat
      stddev := s.stddev.toNat
      maxFragmentSize_pos := by omega
      maxFragmentSize_mod := by
        unfold sizeofEventHeader at *
        omega
      bulkSize_pos := by omega
      credits_pos := by omega
      generatorFrequency_pos := by omega
      mean_pos := by omega }

namespace Configuration

variable (c : Configuration)

/-- The settings a configuration comes from. -/
def settings : Settings :=
  ⟨c.maxFragmentSize, c.bulkSize, c.credits, c.generatorFrequency, c.mean, c.stddev⟩

/-- Every configuration is accepted, and nothing else is. -/
theorem configure_eq_ok {s : Settings} : configure s = .ok c ↔ s = c.settings := by
  constructor
  · intro accepted
    unfold configure at accepted
    split_ifs at accepted
    cases accepted
    ext <;> simp only [settings] <;> omega
  · rintro rfl
    have fragment : ¬(c.settings.maxFragmentSize ≤ 0 ∨
        c.settings.maxFragmentSize % sizeofEventHeader ≠ 0) := by
      have := c.maxFragmentSize_pos
      have := c.maxFragmentSize_mod
      simp only [settings, sizeofEventHeader] at *
      omega
    have bulk : ¬c.settings.bulkSize ≤ 0 := by simp [settings, c.bulkSize_pos.ne']
    have credits : ¬c.settings.credits < 1 := by simp [settings, c.credits_pos.ne']
    have frequency : ¬¬c.settings.generatorFrequency > 0 := by
      simp [settings, c.generatorFrequency_pos]
    have mean : ¬¬c.settings.mean > 0 := by simp [settings, c.mean_pos]
    have stddev : ¬c.settings.stddev < 0 := by simp [settings]
    rw [configure, dif_neg fragment, dif_neg bulk, dif_neg credits, dif_neg frequency,
      dif_neg mean, if_neg stddev]
    rfl

def blocks : ℕ := c.credits * 2 + 1

def slots : ℕ := c.bulkSize * c.blocks

def dataSize : ℕ := c.maxFragmentSize * c.bulkSize * c.blocks

/-- The size of the chunks that the receiving side posts. -/
def chunkSize : ℕ := c.maxFragmentSize * c.bulkSize

def metadataRange : Range := ⟨0, c.slots⟩

/-- The data of a node, allocated at the address `dataPtr`. -/
def dataRange (dataPtr : ℕ) : Range := ⟨dataPtr, dataPtr + c.dataSize⟩

def payloadSizeGenerator : Except Error LengthGenerator :=
  LengthGenerator.construct c.mean c.stddev (c.maxFragmentSize - sizeofEventHeader) 0

/-- The sequences of payload lengths that the configured generator can draw. -/
def Draws (draws : ℕ → ℕ) : Prop :=
  ∃ generator, c.payloadSizeGenerator = .ok generator ∧ generator.Returns draws

/-- Lay the events of node `id` out. -/
def generator (draws : ℕ → ℕ) (dataPtr id : ℕ) (metadata : MetaDataMemory) (data : Memory) :
    Except Error Layout :=
  Generator.construct draws c.metadataRange (c.dataRange dataPtr) id metadata data

def accumulator (layout : Layout) (dataPtr : ℕ) : Accumulator :=
  .construct (.construct layout.generator c.metadataRange) c.metadataRange (c.dataRange dataPtr)
    c.bulkSize

/-- The lengths of the events that are laid out for a sequence of draws. -/
def lengths (draws : ℕ → ℕ) : ℕ → ℕ := eventLength c.slots c.dataSize draws

variable {c}

theorem blocks_pos : 0 < c.blocks := Nat.succ_pos _

theorem slots_pos : 0 < c.slots := Nat.mul_pos c.bulkSize_pos blocks_pos

theorem sizeofEventHeader_le : sizeofEventHeader ≤ c.maxFragmentSize :=
  Nat.le_of_dvd c.maxFragmentSize_pos (Nat.dvd_of_mod_eq_zero c.maxFragmentSize_mod)

theorem dataSize_eq : c.dataSize = c.slots * c.maxFragmentSize := by
  unfold dataSize slots
  ring

/-- The data always has room for a header per slot. -/
theorem fits : c.slots * sizeofEventHeader ≤ c.dataSize := by
  rw [dataSize_eq]
  exact Nat.mul_le_mul_left _ sizeofEventHeader_le

theorem dataRange_size (dataPtr : ℕ) :
    (c.dataRange dataPtr).mEnd - (c.dataRange dataPtr).mBegin = c.dataSize :=
  Nat.add_sub_cancel_left _ _

/-- What a constructed generator left behind, in closed form. -/
theorem generator_eq_ok {draws : ℕ → ℕ} {dataPtr id : ℕ} {metadata : MetaDataMemory}
    {data : Memory} {layout : Layout}
    (h : c.generator draws dataPtr id metadata data = .ok layout) :
    dataPtr % 8 = 0 ∧ layout = ⟨⟨⟨0, c.slots, c.slots - 1, c.slots - 1⟩, id⟩,
      Generator.writtenMetadata c.slots c.dataSize draws metadata c.slots,
      writtenHeaders c.slots c.dataSize draws dataPtr id data c.slots⟩ := by
  obtain ⟨aligned, _, laid⟩ := Generator.construct_eq_ok slots_pos h
  rw [dataRange_size] at laid
  exact ⟨aligned, laid⟩

/-- The constructor succeeds on aligned memory of a padded size. -/
theorem generator_total {dataPtr : ℕ} (aligned : dataPtr % 8 = 0)
    (padded : c.dataSize % dataPadding = 0) (draws : ℕ → ℕ) (id : ℕ) (metadata : MetaDataMemory)
    (data : Memory) : ∃ layout, c.generator draws dataPtr id metadata data = .ok layout :=
  ⟨_, Generator.construct_eq slots_pos fits aligned padded⟩

end Configuration

end Lseb
