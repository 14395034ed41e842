import Lseb.Foundation.MarkedQueue
import Lseb.Ru.Controller

/-!
# The accumulator

Events read from the controller are bundled into multievents of a fixed number
of events. Outstanding multievents are kept in acquisition order, each with a
flag that is set when its transmission is complete; their memory goes back to
the controller as a prefix of the queue only.
-/

namespace Lseb

open Foundation

structure Accumulator where
  mController : Controller
  mMetadataRange : Range
  mDataRange : Range
  mCurrentMetadata : ℕ
  mEventsInMultievent : ℕ
  mGeneratedEvents : ℕ
  mIovMultievents : MarkedQueue ℕ
  mReleaseMetadata : ℕ
  deriving DecidableEq, Repr

namespace Accumulator

def construct (controller : Controller) (metadataRange dataRange : Range)
    (eventsInMultievent : ℕ) : Accumulator where
  mController := controller
  mMetadataRange := metadataRange
  mDataRange := dataRange
  mCurrentMetadata := metadataRange.mBegin
  mEventsInMultievent := eventsInMultievent
  mGeneratedEvents := 0
  mIovMultievents := []
  mReleaseMetadata := metadataRange.mBegin

def checkDataWrap (metadata : MetaDataMemory) (acc : Accumulator) (multieventMetadata : Range) :
    Except Error Bool := do
  let firstOffset := (metadata multieventMetadata.mBegin).offset
  let it ← findInRange multieventMetadata acc.mMetadataRange
    fun m => decide ((metadata m).offset < firstOffset)
  return decide (it ≠ multieventMetadata.mEnd)

/-- If not enough data is ready, read data from the controller. -/
def readIfShort (acc : Accumulator) (eventsToGenerate : ℕ) : Except Error Accumulator := do
  if acc.mGeneratedEvents < acc.mEventsInMultievent then
    let (unread, controller) ← acc.mController.read eventsToGenerate
    let n ← distanceInRange unread acc.mMetadataRange
    return { acc with
      mController := controller
      mGeneratedEvents := acc.mGeneratedEvents + n }
  else
    return acc

/-- Bundle the next block of events, of which enough are ready. -/
def bundle (metadata : MetaDataMemory) (acc : Accumulator) :
    Except Error (Iovec × Accumulator) := do
  let last ← advanceInRange acc.mCurrentMetadata acc.mEventsInMultievent acc.mMetadataRange
  let multieventMetadata : Range := ⟨acc.mCurrentMetadata, last⟩
  let wrap ← acc.checkDataWrap metadata multieventMetadata
  assertThat (wrap = false) "wrap == 0 && \"Wrap found!\""
  let dataBegin := acc.mDataRange.mBegin + (metadata multieventMetadata.mBegin).offset
  let lastMetadata ← advanceInRange multieventMetadata.mEnd (-1) acc.mMetadataRange
  let dataEnd :=
    acc.mDataRange.mBegin + (metadata lastMetadata).offset + (metadata lastMetadata).length
  return (⟨dataBegin, dataEnd - dataBegin⟩, { acc with
    mIovMultievents := acc.mIovMultievents ++ [(dataBegin, false)]
    mGeneratedEvents := acc.mGeneratedEvents - acc.mEventsInMultievent
    mCurrentMetadata := multieventMetadata.mEnd })

def getMultievent (metadata : MetaDataMemory) (acc : Accumulator) (eventsToGenerate : ℕ) :
    Except Error (Option Iovec × Accumulator) := do
  let acc ← acc.readIfShort eventsToGenerate
  if acc.mGeneratedEvents ≥ acc.mEventsInMultievent then
    let (iov, acc) ← acc.bundle metadata
    return (some iov, acc)
  else
    return (none, acc)

def releaseContiguousMemory (acc : Accumulator) : Except Error (ℕ × Accumulator) := do
  let multieventsToRelease := acc.mIovMultievents.completed
  if multieventsToRelease ≠ 0 then
    let last ← advanceInRange acc.mReleaseMetadata
      ((acc.mEventsInMultievent * multieventsToRelease : ℕ) : ℤ) acc.mMetadataRange
    let metadataToRelease : Range := ⟨acc.mReleaseMetadata, last⟩
    let controller ← acc.mController.release metadataToRelease
    return (multieventsToRelease, { acc with
      mController := controller
      mReleaseMetadata := metadataToRelease.mEnd
      mIovMultievents := acc.mIovMultievents.drop multieventsToRelease })
  else
    return (multieventsToRelease, acc)

/-- Flag the first entry with each address; the entry must exist and not be flagged yet. -/
def flagCompleted (vect : List ℕ) (queue : MarkedQueue ℕ) : Except Error (MarkedQueue ℕ) :=
  match MarkedQueue.markAll vect queue with
  | .ok queue' => .ok queue'
  | .error .absent => .error (.assertion "it != std::end(m_iov_multievents)")
  | .error .alreadyMarked => .error (.assertion "it->second == false")

def releaseMultievents (acc : Accumulator) (vect : List ℕ) : Except Error Accumulator := do
  let queue ← flagCompleted vect acc.mIovMultievents
  let (_, acc) ← { acc with mIovMultievents := queue }.releaseContiguousMemory
  return acc

end Accumulator

end Lseb
