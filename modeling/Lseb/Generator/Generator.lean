import Lseb.Common.DataFormat
import Lseb.Common.Range
import Lseb.Common.Utility

/-!
# The event generator

The constructor lays the events of the whole ring out once, one drawn length
after the other; afterwards events are only handed out and taken back by
moving the two cursors of the metadata ring.
-/

namespace Lseb

def dataPadding : ℕ := 32

structure Generator where
  mMetadataBuffer : Buffer
  mId : ℕ
  deriving DecidableEq, Repr

/-- The locals of the constructor's loop and the memory it writes. -/
structure LayoutState where
  metadataBuffer : Buffer
  dataBuffer : Buffer
  eventsCounter : ℕ
  offset : ℕ
  metadata : MetaDataMemory
  data : Memory

/-- What a constructed generator leaves behind: its own state and the two memories. -/
structure Layout where
  generator : Generator
  metadata : MetaDataMemory
  data : Memory

namespace Generator

/-- One turn of the layout loop, with the next value of `metadata_avail`. -/
def layoutEvent (id draw : ℕ) (s : LayoutState) : Except Error (LayoutState × Bool) := do
  let drawnSize := sizeofEventHeader + draw
  let roundedSize := drawnSize - drawnSize % dataPadding
  let eventSize :=
    if s.dataBuffer.available <
        roundedSize + (s.metadataBuffer.available - 1) * sizeofEventHeader then
      sizeofEventHeader
    else roundedSize
  let metadataAvail := s.metadataBuffer.available ≠ 1
  let metadata := Function.update s.metadata s.metadataBuffer.mNextWrite
    ⟨s.eventsCounter, eventSize, s.offset⟩
  let header ← pointerCast s.dataBuffer.mNextWrite
  let data := writeHeader s.data header ⟨s.eventsCounter, eventSize, id⟩
  let offset := (s.offset + eventSize) % s.dataBuffer.size
  if s.metadataBuffer.available ≠ 1 then
    let metadataBuffer ← s.metadataBuffer.reserve 1
    let dataBuffer ← s.dataBuffer.reserve eventSize
    return (⟨metadataBuffer, dataBuffer, s.eventsCounter + 1, offset, metadata, data⟩,
      decide metadataAvail)
  else
    return (⟨s.metadataBuffer, s.dataBuffer, s.eventsCounter + 1, offset, metadata, data⟩,
      decide metadataAvail)

/-- The layout loop, for at most `fuel` turns; `draws` are the lengths drawn in turn. -/
def layoutLoop (id : ℕ) (draws : ℕ → ℕ) : ℕ → LayoutState → Except Error LayoutState
  | 0, _ => .error (.fault "layout loop still running")
  | fuel + 1, s => do
    let (next, metadataAvail) ← layoutEvent id (draws s.eventsCounter) s
    if metadataAvail then layoutLoop id draws fuel next else return next

def construct (draws : ℕ → ℕ) (metadataRange dataRange : Range) (id : ℕ)
    (metadata : MetaDataMemory) (data : Memory) : Except Error Layout := do
  let metadataBuffer ← Buffer.construct metadataRange.mBegin metadataRange.mEnd
  let dataBuffer ← Buffer.construct dataRange.mBegin dataRange.mEnd
  assertThat (dataPadding ≥ sizeofEventHeader) "data_padding >= sizeof(EventHeader)"
  assertThat (dataBuffer.size % dataPadding = 0) "data_buffer.size() % data_padding == 0"
  let s ← layoutLoop id draws metadataBuffer.size ⟨metadataBuffer, dataBuffer, 0, 0, metadata, data⟩
  let metadataBuffer ← s.metadataBuffer.release s.metadataBuffer.ready
  let dataBuffer ← s.dataBuffer.release s.dataBuffer.ready
  assertThat (metadataBuffer.ready = 0 ∧ dataBuffer.ready = 0)
    "!m_metadata_buffer.ready() && !data_buffer.ready()"
  return ⟨⟨metadataBuffer, id⟩, s.metadata, s.data⟩

def releaseEvents (generator : Generator) (nEvents : ℕ) : Except Error Generator := do
  assertThat (generator.mMetadataBuffer.ready ≥ nEvents) "m_metadata_buffer.ready() >= n_events"
  if nEvents ≠ 0 then
    let buffer ← generator.mMetadataBuffer.release (nEvents - 1)
    let buffer ← buffer.release 1
    return { generator with mMetadataBuffer := buffer }
  else
    return generator

def generateEvents (generator : Generator) (nEvents : ℕ) : Except Error (ℕ × Generator) := do
  let availEvents :=
    if nEvents ≤ generator.mMetadataBuffer.available - 1 then nEvents
    else generator.mMetadataBuffer.available - 1
  if availEvents ≠ 0 then
    let buffer ← generator.mMetadataBuffer.reserve (availEvents - 1)
    let buffer ← buffer.reserve 1
    return (availEvents, { generator with mMetadataBuffer := buffer })
  else
    return (availEvents, generator)

section Represents

open Foundation

variable {capacity origin : ℕ} {ring : RingCount capacity} {generator : Generator}

/-- As many events are generated as asked for, up to the one slot that stays free. -/
theorem generateEvents_represents (rep : generator.mMetadataBuffer.Represents origin ring)
    (nEvents : ℕ) (room : ring.ready + min nEvents (capacity - 1 - ring.ready) < capacity) :
    ∃ generator', generator.generateEvents nEvents =
        .ok (min nEvents (capacity - 1 - ring.ready), generator') ∧
      generator'.mMetadataBuffer.mBegin = generator.mMetadataBuffer.mBegin ∧
      generator'.mMetadataBuffer.Represents origin
        (ring.write (min nEvents (capacity - 1 - ring.ready)) room) := by
  have avail : (if nEvents ≤ generator.mMetadataBuffer.available - 1 then nEvents
      else generator.mMetadataBuffer.available - 1) = min nEvents (capacity - 1 - ring.ready) := by
    rw [rep.available, min_def, Nat.sub_right_comm]
  rw [generateEvents]
  simp only [avail]
  generalize min nEvents (capacity - 1 - ring.ready) = n at room
  rcases Nat.eq_zero_or_pos n with rfl | positive
  · exact ⟨generator, rfl, rfl, rep⟩
  · have before : ring.ready + (n - 1) < capacity := by omega
    have more : (ring.write (n - 1) before).ready + 1 < capacity := by
      rw [RingCount.ready_write]
      omega
    obtain ⟨first, hfirst, begin₁, rep₁⟩ := rep.reserve before
    obtain ⟨second, hsecond, begin₂, rep₂⟩ := rep₁.reserve more
    refine ⟨{ generator with mMetadataBuffer := second }, ?_, begin₂.trans begin₁, ?_⟩
    · rw [if_pos positive.ne', hfirst, ok_bind, hsecond, ok_bind]
      rfl
    · rw [RingCount.write_write before more (by omega)] at rep₂
      simpa only [Nat.sub_add_cancel positive] using rep₂

theorem releaseEvents_represents (rep : generator.mMetadataBuffer.Represents origin ring)
    {nEvents : ℕ} (filled : nEvents ≤ ring.ready) :
    ∃ generator', generator.releaseEvents nEvents = .ok generator' ∧
      generator'.mMetadataBuffer.mBegin = generator.mMetadataBuffer.mBegin ∧
      generator'.mMetadataBuffer.Represents origin (ring.read nEvents filled) := by
  have admitted : generator.mMetadataBuffer.ready ≥ nEvents := by
    rw [rep.ready]
    exact filled
  rw [releaseEvents, assertThat_of admitted, ok_bind]
  rcases Nat.eq_zero_or_pos nEvents with rfl | positive
  · exact ⟨generator, rfl, rfl, rep⟩
  · have before : nEvents - 1 ≤ ring.ready := by omega
    have more : 1 ≤ (ring.read (nEvents - 1) before).ready := by
      have := RingCount.ready_read before
      omega
    obtain ⟨first, hfirst, begin₁, rep₁⟩ := rep.release before
    obtain ⟨second, hsecond, begin₂, rep₂⟩ := rep₁.release more
    refine ⟨{ generator with mMetadataBuffer := second }, ?_, begin₂.trans begin₁, ?_⟩
    · rw [if_pos positive.ne', hfirst, ok_bind, hsecond, ok_bind]
      rfl
    · rw [RingCount.read_read before more (by omega)] at rep₂
      simpa only [Nat.sub_add_cancel positive] using rep₂

end Represents

end Generator

end Lseb
