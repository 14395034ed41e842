import Lseb.Generator.Generator

/-!
# The controller

The clock enters as the number of events due since the start, which is the
elapsed time times the generator frequency; each call of `read` is given the
value it computed.
-/

namespace Lseb

structure Controller where
  mGenerator : Generator
  mMetadataRange : Range
  mCurrentMetadata : ℕ
  mGeneratedEvents : ℕ
  deriving DecidableEq, Repr

namespace Controller

def construct (generator : Generator) (metadataRange : Range) : Controller :=
  ⟨generator, metadataRange, metadataRange.mBegin, 0⟩

def read (controller : Controller) (eventsToGenerate : ℕ) : Except Error (Range × Controller) := do
  assertThat (eventsToGenerate ≥ controller.mGeneratedEvents)
    "events_to_generate >= m_generated_events"
  let (currentGeneratedEvents, generator) ←
    controller.mGenerator.generateEvents (eventsToGenerate - controller.mGeneratedEvents)
  let previousMetadata := controller.mCurrentMetadata
  let currentMetadata ← advanceInRange controller.mCurrentMetadata currentGeneratedEvents
    controller.mMetadataRange
  return (⟨previousMetadata, currentMetadata⟩, { controller with
    mGenerator := generator
    mCurrentMetadata := currentMetadata
    mGeneratedEvents := controller.mGeneratedEvents + currentGeneratedEvents })

def release (controller : Controller) (metadataRange : Range) : Except Error Controller := do
  let eventsToRelease ← distanceInRange metadataRange controller.mMetadataRange
  let generator ← controller.mGenerator.releaseEvents eventsToRelease
  return { controller with mGenerator := generator }

/-- The assertion that fails when the clock is behind the events generated. -/
def clockBehind : Error := .assertion "events_to_generate >= m_generated_events"

theorem read_behind {controller : Controller} {eventsToGenerate : ℕ}
    (behind : eventsToGenerate < controller.mGeneratedEvents) :
    controller.read eventsToGenerate = .error clockBehind := by
  rw [read, assertThat, if_neg (not_le.mpr behind)]
  rfl

end Controller

end Lseb
