import Lseb.Main
import Lseb.Ru.Custody

/-!
# The readout unit of a configured node

`main` hands the readout unit an accumulator over freshly laid out events; the
memory it allocates has room for all of them, so the invariant holds of every
run.
-/

namespace Lseb

open Foundation

namespace Configuration

variable {c : Configuration} {t : Transport} {id nodes dataPtr : ℕ} {draws : ℕ → ℕ}
  {metadata : MetaDataMemory} {data : Memory} {layout : Layout} {trace : List ReadoutReport}
  {s : ReadoutSystem}

/-- A readout unit of the configuration, connected to all builder units. -/
def readoutStart (c : Configuration) (t : Transport) (id nodes dataPtr : ℕ) (layout : Layout) :
    ReadoutSystem :=
  .start t (c.accumulator layout dataPtr) (c.dataRange dataPtr) c.credits id nodes

theorem lengths_eq_zero_iff {slot : ℕ} (inside : slot < c.slots) :
    c.lengths draws slot = 0 ↔ draws slot < 8 :=
  eventLength_eq_zero_iff fits inside

/-- The invariant of the runs of a configured node. -/
theorem custody_of_run (own : id < nodes)
    (built : c.generator draws dataPtr id metadata data = .ok layout)
    (run : Run (CarriedTurn layout.metadata t) (c.readoutStart t id nodes dataPtr layout) trace s) :
    ∃ ledger : Ledger c.bulkSize c.blocks, Custody s.unit s.inFlight t id nodes c.credits
      (c.dataRange dataPtr) ledger (c.lengths draws) (ReadoutReport.acquisitions trace)
      (ReadoutReport.posts trace) := by
  have laid := Generator.construct_wellLaid slots_pos built
  rw [dataRange_size] at laid
  obtain ⟨_, rfl⟩ := generator_eq_ok built
  exact custody_run laid slots_pos own (Accumulator.construct_tracks slots_pos rfl rfl) rfl run

theorem wellLaid_of_built (built : c.generator draws dataPtr id metadata data = .ok layout) :
    WellLaid layout.metadata (c.lengths draws) (c.bulkSize * c.blocks) := by
  have laid := Generator.construct_wellLaid slots_pos built
  rwa [dataRange_size] at laid

theorem lengths_room (draws : ℕ → ℕ) (dataPtr : ℕ) :
    ∑ slot ∈ Finset.range (c.bulkSize * c.blocks), c.lengths draws slot ≤
      (c.dataRange dataPtr).mEnd - (c.dataRange dataPtr).mBegin := by
  have room := @eventOffset_room _ _ draws (fits (c := c)) _ le_rfl
  rw [eventOffset_eq_sum] at room
  rw [dataRange_size]
  exact le_trans (Nat.le_add_right _ _) room

end Configuration

end Lseb
