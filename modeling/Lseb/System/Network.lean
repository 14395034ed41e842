import Lseb.Bu.Conservation
import Lseb.Foundation.OrderedChannel
import Lseb.Ru.Node

/-!
# All nodes and the connections between them

Every node runs a readout unit and a builder unit of one configuration. The
connections are reliable and ordered, and a message that arrives is copied into
the posted chunk, as far as it fits. A step is a turn of one thread, at any
clock reading and with any completions, or one arrival.
-/

namespace Lseb

open Foundation PendingMap

/-- The bytes of a message in the chunk where it arrived. -/
def arrived (source : Memory) (iov : Iovec) (base chunkSize : ℕ) (memory : Memory) : Memory :=
  fun word =>
    if base ≤ word ∧ word < base + min iov.iovLen chunkSize then
      source (iov.iovBase + (word - base))
    else memory word

/-- A chunk holds a message, as far as that fits. -/
def Memory.Holds (memory : Memory) (source : Memory) (iov : Iovec) (base chunkSize : ℕ) : Prop :=
  ∀ offset < min iov.iovLen chunkSize, memory (base + offset) = source (iov.iovBase + offset)

section Copies

variable {source source' memory : Memory} {iov iov' : Iovec} {base base' chunkSize : ℕ}

theorem arrived_holds : (arrived source iov base chunkSize memory).Holds source iov base
    chunkSize := by
  intro offset inside
  rw [arrived, if_pos ⟨Nat.le_add_right _ _, Nat.add_lt_add_left inside _⟩,
    Nat.add_sub_cancel_left]

theorem Memory.Holds.arrived (holds : memory.Holds source iov base chunkSize)
    (disjoint : base + chunkSize ≤ base' ∨ base' + chunkSize ≤ base) :
    (arrived source' iov' base' chunkSize memory).Holds source iov base chunkSize := by
  intro offset inside
  have short : offset < chunkSize := inside.trans_le (min_le_right _ _)
  have other : min iov'.iovLen chunkSize ≤ chunkSize := min_le_right _ _
  rw [Lseb.arrived, if_neg (by omega)]
  exact holds offset inside

/-- The first header comes through. -/
theorem Memory.Holds.readHeader (holds : memory.Holds source iov base chunkSize)
    (long : sizeofEventHeader ≤ iov.iovLen) (wide : sizeofEventHeader ≤ chunkSize) :
    Lseb.readHeader memory base = Lseb.readHeader source iov.iovBase := by
  have whole : sizeofEventHeader ≤ min iov.iovLen chunkSize := le_min long wide
  unfold sizeofEventHeader at whole
  simp only [Lseb.readHeader, EventHeader.mk.injEq]
  exact ⟨holds 0 (by omega), holds 8 (by omega), holds 16 (by omega)⟩

end Copies

/-- Nodes of one configuration, their data laid out without an empty event, and
the order in which each builder unit accepted the readout units. -/
structure Cluster where
  configuration : Configuration
  transport : Transport
  nodes : ℕ
  draws : ℕ → ℕ → ℕ
  dataPtr : ℕ → ℕ
  metadata : ℕ → MetaDataMemory
  data : ℕ → Memory
  layout : ℕ → Layout
  built : ∀ node < nodes, configuration.generator (draws node) (dataPtr node) node (metadata node)
    (data node) = .ok (layout node)
  nonzero : ∀ node < nodes, ∀ slot < configuration.slots,
    ((layout node).metadata slot).length ≠ 0
  receivePtr : ℕ → ℕ
  aligned : ∀ node < nodes, receivePtr node % 8 = 0
  received : ℕ → Memory
  peer : ℕ → ℕ → ℕ
  peer_lt : ∀ node < nodes, ∀ i < nodes, peer node i < nodes
  peer_inj : ∀ node < nodes, Set.InjOn (peer node) (Set.Iio nodes)

/-- The threads, the memory of the builder units, and the connections: `wires b i`
is the one that the builder unit of node `b` accepted as its `i`-th. -/
structure Network where
  readout : ℕ → ReadoutSystem
  builder : ℕ → BuilderUnit
  memory : ℕ → Memory
  wires : ℕ → ℕ → OrderedChannel Iovec ℕ

inductive NetworkEvent where
  | readout (node : ℕ) (report : ReadoutReport)
  | deliver (node connection : ℕ)
  | build (node : ℕ) (report : BuilderReport)

namespace NetworkEvent

/-- The turns of the readout unit of a node. -/
def reportsOf (node : ℕ) (trace : List NetworkEvent) : List ReadoutReport :=
  trace.flatMap fun
    | .readout other report => if other = node then [report] else []
    | .deliver _ _ => []
    | .build _ _ => []

/-- The rounds that the builder unit of a node has released. -/
def roundsOf (node : ℕ) (trace : List NetworkEvent) : ℕ :=
  (trace.map fun
    | .readout _ _ => 0
    | .deliver _ _ => 0
    | .build other report => if other = node then report.rounds else 0).sum

theorem roundsOf_append {node : ℕ} {trace trace' : List NetworkEvent} :
    roundsOf node (trace ++ trace') = roundsOf node trace + roundsOf node trace' := by
  simp [roundsOf]

theorem roundsOf_build {node : ℕ} {report : BuilderReport} :
    roundsOf node [.build node report] = report.rounds := by
  simp [roundsOf]

end NetworkEvent

namespace Cluster

variable (k : Cluster)

/-- A builder unit before it accepts its connections. -/
def constructed (node : ℕ) : BuilderUnit :=
  .construct k.nodes k.configuration.bulkSize k.configuration.credits
    k.configuration.maxFragmentSize (k.receivePtr node)

/-- All threads enter their loops. -/
def start : Network where
  readout node := k.configuration.readoutStart k.transport node k.nodes (k.dataPtr node)
    (k.layout node)
  builder node :=
    final (BuilderUnit.connect k.transport (fun _ _ => none) k.nodes (k.constructed node))
  memory := k.received
  wires node i := .start ((k.constructed node).chunks i)

inductive Step : Network → NetworkEvent → Network → Prop where
  | readout {s : Network} {node : ℕ} {report : ReadoutReport} {unit : ReadoutSystem}
      (inside : node < k.nodes)
      (turned : CarriedTurn (k.layout node).metadata k.transport (s.readout node) report unit) :
      Step s (.readout node report) { s with
        readout := Function.update s.readout node unit
        wires := fun b i =>
          if k.peer b i = node then
            (s.wires b i).send (ReadoutReport.postsOn b report.posted.toList)
          else s.wires b i }
  | deliver {s : Network} {node i : ℕ} (inside : node < k.nodes) (connection : i < k.nodes)
      (message : (s.wires node i).delivered < (s.wires node i).sent.length)
      (buffer : (s.wires node i).delivered < (s.wires node i).posted.length) :
      Step s (.deliver node i) { s with
        memory := Function.update s.memory node (arrived (k.layout (k.peer node i)).data
          (s.wires node i).sent[(s.wires node i).delivered]
          (s.wires node i).posted[(s.wires node i).delivered]
          k.configuration.chunkSize (s.memory node))
        wires := Function.update s.wires node
          (Function.update (s.wires node) i ((s.wires node i).deliver message buffer)) }
  | build {s : Network} {node : ℕ} {completions : ℕ → CqRead} {count : ℕ → ℕ}
      {report : BuilderReport} {unit : BuilderUnit} (inside : node < k.nodes)
      (inTime : ∀ i, (s.wires node i).reported + count i ≤ (s.wires node i).delivered)
      (delivers : ∀ i, (completions i).Delivers ((s.wires node i).next (count i)))
      (turned : BuilderUnit.iteration k.transport ⟨completions, s.memory node, fun _ _ => none⟩
        (s.builder node) = .ok report unit) :
      Step s (.build node report) { s with
        builder := Function.update s.builder node unit
        wires := Function.update s.wires node fun i =>
          ((s.wires node i).report (count i) (inTime i)).post (report.released i) }

end Cluster

end Lseb
