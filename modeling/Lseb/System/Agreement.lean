import Mathlib.Tactic.IntervalCases
import Lseb.Generator.SelfDescription
import Lseb.System.Serving

/-!
# The multievents of a round belong together

The n-th message on the connection from a readout unit to the builder unit `b`
is the multievent `n * nodes + b` of that unit, whatever the other threads do.
So what a builder unit finds in front after `n` rounds are the multievents of
one index, with one event id in their first headers.
-/

namespace Lseb

open Foundation NetworkEvent ReadoutReport

/-- The n-th multievent posted on a connection is the one with that index. -/
theorem ReadoutUnit.Assigned.postsOn_getElem? {σ : Type} {ru : ReadoutUnit σ}
    {id nodes connection round : ℕ} {acquired : List Iovec} {posts : List (ℕ × Iovec)}
    {iov : Iovec} (assigned : ru.Assigned id nodes acquired posts) (own : id < nodes)
    (inside : connection < nodes) (posted : (postsOn connection posts)[round]? = some iov) :
    acquired[round * nodes + connection]? = some iov := by
  have history := congrArg (fun list => list[round]?) (assigned.postsOn_eq own inside)
  simp only [List.getElem?_map, posted, Option.map_some] at history
  obtain ⟨index, within, same⟩ := Option.map_eq_some_iff.mp history.symm
  obtain ⟨_, rfl⟩ := List.getElem?_eq_some_iff.mp within
  simpa using same

namespace Cluster

variable {k : Cluster} {trace : List NetworkEvent} {s s' : Network} {event : NetworkEvent}
  {node b i : ℕ}

section Projections

/-- The readout unit of a node runs as if it were alone. -/
theorem readout_project {first : Network} (run : Run k.Step first trace s) (node : ℕ) :
    Run (CarriedTurn (k.layout node).metadata k.transport) (first.readout node)
      (reportsOf node trace) (s.readout node) := by
  refine Run.project (fun s => s.readout node) _ ?_ run
  intro s event s' taken
  cases taken with
  | @readout other report unit inside turned =>
    by_cases same : other = node
    · subst same
      simpa using Run.single turned
    · simpa [same, Function.update_of_ne (Ne.symm same)] using Run.nil
  | deliver => exact Run.nil
  | build => exact Run.nil

theorem readout_run (run : Run k.Step k.start trace s) (node : ℕ) :
    Run (CarriedTurn (k.layout node).metadata k.transport)
      (k.configuration.readoutStart k.transport node k.nodes (k.dataPtr node) (k.layout node))
      (reportsOf node trace) (s.readout node) :=
  k.readout_project run node

theorem Step.sent_eq (taken : k.Step s event s') (b i : ℕ) : (s'.wires b i).sent =
    (s.wires b i).sent ++ postsOn b (posts (reportsOf (k.peer b i) [event])) := by
  cases taken with
  | @readout node report unit inside turned =>
    by_cases own : k.peer b i = node
    · simp [reportsOf, posts, own, OrderedChannel.send]
    · simp [reportsOf, posts, postsOn, own, Ne.symm own]
  | @deliver node j inside connection message buffer =>
    by_cases here : b = node
    · subst here
      by_cases there : i = j
      · subst there
        simp [reportsOf, posts, postsOn, OrderedChannel.deliver]
      · simp [reportsOf, posts, postsOn, there]
    · simp [reportsOf, posts, postsOn, here]
  | @build node completions count report unit inside inTime delivers turned =>
    by_cases here : b = node
    · subst here
      simp [reportsOf, posts, postsOn, OrderedChannel.report, OrderedChannel.post]
    · simp [reportsOf, posts, postsOn, here]

/-- What was sent over a connection is what its readout unit posted on it. -/
theorem sent_eq (run : Run k.Step k.start trace s) (b i : ℕ) :
    (s.wires b i).sent = postsOn b (posts (reportsOf (k.peer b i) trace)) := by
  induction run with
  | nil => rfl
  | snoc _ taken ih =>
    rw [taken.sent_eq, ih]
    simp [reportsOf, posts, postsOn]

end Projections

section Builders

/-- A builder unit when it has accepted all connections, apart from the posts. -/
def connected (k : Cluster) (node : ℕ) : BuilderUnit :=
  { k.constructed node with connections := k.nodes }

theorem chunkSize_ge : sizeofEventHeader ≤ k.configuration.chunkSize :=
  Configuration.sizeofEventHeader_le.trans
    (Nat.le_mul_of_pos_right _ k.configuration.bulkSize_pos)

theorem chunkSize_pos : 0 < k.configuration.chunkSize :=
  Nat.lt_of_lt_of_le (by decide) k.chunkSize_ge

theorem start_builder (node : ℕ) : ∃ conns,
    k.start.builder node = { k.connected node with mConnectionIds := conns } ∧
      ∀ i < k.nodes, (k.start.builder node).Channel k.transport i := by
  obtain ⟨bu, accepted, ⟨conns, rfl⟩, channels⟩ := @BuilderUnit.connect_total k.transport k.nodes
    k.configuration.bulkSize k.configuration.credits k.configuration.maxFragmentSize
    (k.receivePtr node) k.chunkSize_pos
  have reached : k.start.builder node = final (.ok () _) := congrArg final accepted
  rw [reached]
  exact ⟨conns, rfl, channels⟩

/-- The memory of the readout unit at the other end of each connection. -/
def sources (k : Cluster) (node : ℕ) : ℕ → Memory := fun i => (k.layout (k.peer node i)).data

/-- Whatever the threads do, every builder unit agrees with its connections. -/
theorem serving_run (run : Run k.Step k.start trace s) (node : ℕ) :
    Serving k.transport (k.connected node) (k.sources node) (roundsOf node trace)
      (s.builder node) (s.memory node) (s.wires node) := by
  induction run with
  | nil =>
    obtain ⟨conns, shape, channels⟩ := k.start_builder node
    exact start_serving shape rfl channels
  | @snoc trace s s' event _ taken ih =>
    have rounds : roundsOf node (trace ++ [event]) = roundsOf node trace +
        roundsOf node [event] := by simp [roundsOf]
    rw [rounds]
    cases taken with
    | @readout other report unit inside turned =>
      apply ih.send
      intro i
      by_cases own : k.peer node i = other
      · exact ⟨postsOn node report.posted.toList, by simp [own]⟩
      · exact ⟨[], by simp [own, OrderedChannel.send]⟩
    | @deliver other j inside' connection message buffer =>
      by_cases here : node = other
      · subst here
        simp only [Function.update_self]
        exact ih.deliver k.chunkSize_pos connection
      · simp only [Function.update_of_ne here]
        exact ih
    | @build other completions count report unit inside' inTime delivers turned =>
      by_cases here : node = other
      · subst here
        simp only [Function.update_self, roundsOf, List.map_cons, if_pos]
        exact ih.turn k.chunkSize_pos inTime delivers turned
      · simp only [Function.update_of_ne here, roundsOf, List.map_cons, if_neg (Ne.symm here)]
        exact ih

end Builders

section Headers

variable {index : ℕ}

/-- The multievent of a node with an index. -/
def multieventOf (k : Cluster) (node index : ℕ) : Iovec :=
  multievent (k.dataPtr node) (k.configuration.lengths (k.draws node)) k.configuration.bulkSize
    k.configuration.blocks index

/-- The n-th message on a connection is the multievent with its index. -/
theorem sent_multievent (run : Run k.Step k.start trace s) (inside : b < k.nodes)
    (connection : i < k.nodes) {round : ℕ} {mevt : Iovec}
    (sent : (s.wires b i).sent[round]? = some mevt) :
    (acquisitions (reportsOf (k.peer b i) trace))[round * k.nodes + b]? = some mevt ∧
      mevt = k.multieventOf (k.peer b i) (round * k.nodes + b) := by
  have own := k.peer_lt b inside i connection
  obtain ⟨ledger, custody⟩ :=
    Configuration.custody_of_run own (k.built _ own) (k.readout_run run (k.peer b i))
  rw [k.sent_eq run] at sent
  have acquired := custody.postsOn_getElem? own inside sent
  refine ⟨acquired, ?_⟩
  rw [custody.origin, List.getElem?_map] at acquired
  obtain ⟨index, listed, same⟩ := Option.map_eq_some_iff.mp acquired
  obtain ⟨_, rfl⟩ := List.getElem?_eq_some_iff.mp listed
  rw [List.getElem_range] at same
  exact same.symm

theorem lengths_nonzero (inside : node < k.nodes) : ∀ slot < k.configuration.slots,
    k.configuration.lengths (k.draws node) slot ≠ 0 := by
  intro slot within
  rw [← (Configuration.wellLaid_of_built (k.built node inside) slot within).1]
  exact k.nonzero node inside slot within

theorem firstSlot_lt : index % k.configuration.blocks * k.configuration.bulkSize <
    k.configuration.slots := by
  have fits : index % k.configuration.blocks * k.configuration.bulkSize +
      k.configuration.bulkSize ≤ k.configuration.slots :=
    block_fits (Nat.mod_lt _ Configuration.blocks_pos)
  have := k.configuration.bulkSize_pos
  omega

/-- A multievent starts with a whole header, which carries the id of its first event. -/
theorem readHeader_multieventOf (inside : node < k.nodes) :
    readHeader (k.layout node).data (k.multieventOf node index).iovBase =
      ⟨index % k.configuration.blocks * k.configuration.bulkSize,
        k.configuration.lengths (k.draws node)
          (index % k.configuration.blocks * k.configuration.bulkSize), node⟩ ∧
      sizeofEventHeader ≤ (k.multieventOf node index).iovLen := by
  have nonzero := k.lengths_nonzero inside
  obtain ⟨_, closed⟩ := Configuration.generator_eq_ok (k.built node inside)
  constructor
  · have written := @readHeader_writtenHeaders k.configuration.slots k.configuration.dataSize
      (k.draws node) (k.dataPtr node) node _ _ (k.data node) nonzero (@firstSlot_lt k index)
    rw [eventOffset_eq_sum] at written
    rw [closed]
    exact written
  · apply (header_le_eventLength (nonzero _ (@firstSlot_lt k index))).trans
    exact Finset.single_le_sum (f := fun event => k.configuration.lengths (k.draws node)
      (index % k.configuration.blocks * k.configuration.bulkSize + event))
      (fun _ _ => Nat.zero_le _) (Finset.mem_range.mpr k.configuration.bulkSize_pos)

end Headers

section Rounds

variable {completions : ℕ → CqRead} {count : ℕ → ℕ} {minWrs : ℕ} {bu₁ : BuilderUnit}

theorem chunk_aligned (inside : b < k.nodes) {j : ℕ} : (k.connected b).chunk i j % 8 = 0 := by
  apply BuilderUnit.chunk_aligned (k.aligned b inside)
  have padded : k.configuration.maxFragmentSize % 8 = 0 :=
    Nat.mod_eq_zero_of_dvd ((by decide : 8 ∣ sizeofEventHeader).trans
      (Nat.dvd_of_mod_eq_zero k.configuration.maxFragmentSize_mod))
  have size : (k.connected b).chunkSize =
      k.configuration.maxFragmentSize * k.configuration.bulkSize := rfl
  rw [size, Nat.mul_mod, padded, Nat.zero_mul]

/-- An entry is the multievent of the round of the builder unit, with a header
that can be read. -/
structure Front (k : Cluster) (trace : List NetworkEvent) (memory : Memory) (b i : ℕ)
    (iov : Iovec) : Prop where
  acquired : ∃ mevt, (acquisitions (reportsOf (k.peer b i) trace))[
      roundsOf b trace * k.nodes + b]? = some mevt ∧
    memory.Holds (k.layout (k.peer b i)).data mevt iov.iovBase k.configuration.chunkSize
  aligned : iov.iovBase % 8 = 0
  id : (readHeader memory iov.iovBase).id = (roundsOf b trace * k.nodes + b) %
    (2 * k.configuration.credits + 1) * k.configuration.bulkSize
  whole : (readHeader memory iov.iovBase).length ≠ 0

theorem front_of_message (run : Run k.Step k.start trace s) (inside : b < k.nodes)
    (connection : i < k.nodes) {iov mevt : Iovec} {j : ℕ}
    (sent : (s.wires b i).sent[roundsOf b trace]? = some mevt)
    (holds : (s.memory b).Holds (k.layout (k.peer b i)).data mevt iov.iovBase
      k.configuration.chunkSize) (chunk : iov.iovBase = (k.connected b).chunk i j) :
    k.Front trace (s.memory b) b i iov := by
  have own := k.peer_lt b inside i connection
  obtain ⟨acquired, rfl⟩ := k.sent_multievent run inside connection sent
  obtain ⟨header, long⟩ := @readHeader_multieventOf k _ (roundsOf b trace * k.nodes + b) own
  have received := (holds.readHeader long k.chunkSize_ge).trans header
  refine ⟨⟨_, acquired, holds⟩, ?_, ?_, ?_⟩
  · rw [chunk]
    exact k.chunk_aligned inside
  · rw [received, mul_comm 2]
    rfl
  · rw [received]
    exact k.lengths_nonzero own _ k.firstSlot_lt

/-- With anything in front of all vectors, it is the next round, and the check passes. -/
theorem fronts_of_acquire (run : Run k.Step k.start trace s) (inside : b < k.nodes)
    (inTime : ∀ i, (s.wires b i).reported + count i ≤ (s.wires b i).delivered)
    (delivers : ∀ i, (completions i).Delivers ((s.wires b i).next (count i)))
    (reads : BuilderUnit.acquire k.transport completions (s.builder b).mCredits
      (List.range (s.builder b).connections) (s.builder b) = .ok minWrs bu₁)
    (ready : minWrs ≠ 0) :
    (∀ i < k.nodes, ∃ iov, (bu₁.mDataVect i)[0]? = some iov ∧
      k.Front trace (s.memory b) b i iov) ∧ bu₁.checkData (s.memory b) = .ok true := by
  have serving := k.serving_run run b
  have fronts : ∀ i < k.nodes, ∃ iov, (bu₁.mDataVect i)[0]? = some iov ∧
      k.Front trace (s.memory b) b i iov := by
    intro i connection
    obtain ⟨iov, mevt, front, sent, holds, j, _, chunk⟩ :=
      serving.front inTime delivers reads ready connection
    exact ⟨iov, front, k.front_of_message run inside connection sent holds chunk⟩
  have sameNodes : bu₁.nodes = k.nodes :=
    (BuilderUnit.acquire_connections List.nodup_range reads).2.1.trans serving.sizes.2.1
  refine ⟨fronts, (BuilderUnit.checkData_eq_ok ?_).mpr ⟨(roundsOf b trace * k.nodes + b) %
    (2 * k.configuration.credits + 1) * k.configuration.bulkSize, ?_⟩⟩
  · rw [sameNodes]
    exact Nat.zero_lt_of_lt inside
  · intro i connection
    obtain ⟨iov, front, entry⟩ := fronts i (sameNodes ▸ connection)
    exact ⟨iov, front, entry.aligned, entry.id, entry.whole⟩

/-- In every state reached, no turn of a thread fails, whatever completes in it, as long
as the clock does not run backwards. -/
theorem turns_total (run : Run k.Step k.start trace s) (inside : node < k.nodes) :
    (∀ due reads batch, Carried (s.readout node) reads batch →
      (s.readout node).unit.InTime due → ∃ report unit,
        (s.readout node).unit.iteration (accumulatorSource (k.layout node).metadata) k.transport
          ⟨due, reads, none⟩ = .ok (report, unit)) ∧
      ∀ (completions : ℕ → CqRead) (count : ℕ → ℕ),
        (∀ i, (s.wires node i).reported + count i ≤ (s.wires node i).delivered) →
        (∀ i, (completions i).Delivers ((s.wires node i).next (count i))) →
        ∃ report unit, BuilderUnit.iteration k.transport
          ⟨completions, s.memory node, fun _ _ => none⟩ (s.builder node) = .ok report unit := by
  constructor
  · intro due reads batch carried inTime
    obtain ⟨ledger, custody⟩ :=
      Configuration.custody_of_run inside (k.built _ inside) (k.readout_run run node)
    exact custody.iteration_inTime (Configuration.wellLaid_of_built (k.built _ inside))
      k.configuration.bulkSize_pos (.inl (k.lengths_nonzero inside))
      (Configuration.lengths_room _ _) (Nat.le_add_right _ _) inside carried inTime
  · intro completions count inTime delivers
    have serving := k.serving_run run node
    obtain ⟨sameConnections, _, _, sameSize⟩ := serving.sizes
    obtain ⟨minWrs, bu₁, reads⟩ := serving.acquire_total delivers
    obtain ⟨conns, data, turned, _⟩ := BuilderUnit.iteration_conserves
      (by rw [sameSize]; exact k.chunkSize_pos) (by rw [sameConnections]; exact serving.channels)
      delivers reads fun ready => (k.fronts_of_acquire run inside inTime delivers reads ready).2
    exact ⟨_, _, turned⟩

/-- In every state reached, when a builder unit has read from its connections and
checks what it got, the front entries are the multievents of one index of all
readout units, and the check passes. -/
theorem builderUnit_agreement (run : Run k.Step k.start trace s) (inside : b < k.nodes)
    (inTime : ∀ i, (s.wires b i).reported + count i ≤ (s.wires b i).delivered)
    (delivers : ∀ i, (completions i).Delivers ((s.wires b i).next (count i))) :
    ∃ minWrs bu₁, BuilderUnit.acquire k.transport completions (s.builder b).mCredits
        (List.range (s.builder b).connections) (s.builder b) = .ok minWrs bu₁ ∧
      (minWrs ≠ 0 →
        (∀ i < k.nodes, ∃ iov, (bu₁.mDataVect i)[0]? = some iov ∧
          k.Front trace (s.memory b) b i iov) ∧
        bu₁.checkData (s.memory b) = .ok true) := by
  obtain ⟨minWrs, bu₁, reads⟩ := (k.serving_run run b).acquire_total delivers
  exact ⟨minWrs, bu₁, reads, k.fronts_of_acquire run inside inTime delivers reads⟩

end Rounds

section Pair

/-- Two nodes with three events of 64 bytes each. -/
def pairLayout (node : ℕ) : Layout :=
  ⟨⟨⟨0, 3, 2, 2⟩, node⟩,
    Generator.writtenMetadata 3 288 (fun _ => 40) (fun _ => ⟨0, 0, 0⟩) 3,
    writtenHeaders 3 288 (fun _ => 40) 0 node (fun _ => 0) 3⟩

def pair : Cluster where
  configuration := Configuration.spread
  transport := .verbs
  nodes := 2
  draws := fun _ _ => 40
  dataPtr := fun _ => 0
  metadata := fun _ _ => ⟨0, 0, 0⟩
  data := fun _ _ => 0
  layout := pairLayout
  built node _ := Generator.construct_eq Configuration.slots_pos Configuration.fits rfl rfl
  nonzero node _ := by
    have : ∀ slot < 3, (Generator.writtenMetadata 3 288 (fun _ => 40) (fun _ => ⟨0, 0, 0⟩) 3
      slot).length ≠ 0 := by decide
    exact this
  receivePtr := fun _ => 0
  aligned _ _ := rfl
  received := fun _ _ => 0
  peer := fun _ i => i
  peer_lt _ _ _ inside := inside
  peer_inj _ _ := Set.injOn_id _

/-- A turn of a readout unit over completion queues that are all empty. -/
theorem quiet_turn {metadata : MetaDataMemory} {t : Transport} {s : ReadoutSystem}
    {report : ReadoutReport} {unit : ReadoutUnit Accumulator} (due : ℕ → ℕ)
    (turned : s.unit.iteration (accumulatorSource metadata) t ⟨due, fun _ => .again, none⟩ =
      .ok (report, unit)) :
    CarriedTurn metadata t s report (s.advance (fun _ => []) report unit) :=
  .turn ⟨fun _ => .again, fun _ => Multiset.zero_le _⟩ turned

/-- The first connection in the order of node 0 is the one to node 1. -/
def pairTrace : List NetworkEvent :=
  [.readout 0 ⟨[⟨0, 64⟩, ⟨64, 64⟩], [], some (1, ⟨64, 64⟩)⟩,
    .readout 0 ⟨[], [], some (0, ⟨0, 64⟩)⟩, .readout 1 ⟨[⟨0, 64⟩], [], some (0, ⟨0, 64⟩)⟩]

theorem pair_sent : ∃ s, Run pair.Step pair.start pairTrace s ∧
    s.builder 0 = pair.start.builder 0 ∧
    ∀ i < 2, s.wires 0 i = .send [⟨0, 64⟩] (.start ((pair.constructed 0).chunks i)) := by
  refine ⟨_, .snoc (.snoc (.snoc .nil (.readout (by decide) (quiet_turn (fun _ => 2) rfl)))
    (.readout (by decide) (quiet_turn (fun _ => 2) rfl)))
    (.readout (by decide) (quiet_turn (fun _ => 2) rfl)), rfl, ?_⟩
  intro i inside
  interval_cases i <;> rfl

/-- The message of node 0 arrives before that of node 1. -/
theorem pair_arriving : ∃ s s', Run pair.Step pair.start (pairTrace ++ [.deliver 0 0]) s ∧
    pair.Step s (.deliver 0 1) s' ∧ (s.wires 0 0).delivered = 1 ∧
    s'.builder 0 = pair.start.builder 0 ∧
    ∀ i < 2, s'.wires 0 i = .deliver (.send [⟨0, 64⟩] (.start ((pair.constructed 0).chunks i)))
      Nat.zero_lt_one Nat.zero_lt_one := by
  obtain ⟨s, run, builder, wires⟩ := pair_sent
  have first := wires 0 (by decide)
  have second := wires 1 (by decide)
  refine ⟨_, _, run.snoc (.deliver (by decide) (by decide) ?_ ?_),
    .deliver (by decide) (by decide) ?_ ?_, ?_, builder, ?_⟩
  · rw [first]
    decide
  · rw [first]
    decide
  · simp only [Function.update_self, Function.update_of_ne one_ne_zero, second]
    decide
  · simp only [Function.update_self, Function.update_of_ne one_ne_zero, second]
    decide
  · simp only [Function.update_self, first]
    rfl
  · intro i inside
    interval_cases i <;> simp [first, second]

theorem pair_delivered : ∃ s, Run pair.Step pair.start (pairTrace ++ [.deliver 0 0] ++
    [.deliver 0 1]) s ∧ s.builder 0 = pair.start.builder 0 ∧
    ∀ i < 2, s.wires 0 i = .deliver (.send [⟨0, 64⟩] (.start ((pair.constructed 0).chunks i)))
      Nat.zero_lt_one Nat.zero_lt_one := by
  obtain ⟨_, s, run, taken, _, builder, wires⟩ := pair_arriving
  exact ⟨s, run.snoc taken, builder, wires⟩

/-- One chunk is completed on both connections. -/
def pairReads (i : ℕ) : CqRead := if i < 2 then .completions [⟨i * 96, none⟩] else .again

theorem pairReads_delivers {s : Network} (wires : ∀ i < 2, s.wires 0 i =
      .deliver (.send [⟨0, 64⟩] (.start ((pair.constructed 0).chunks i)))
        Nat.zero_lt_one Nat.zero_lt_one) :
    (∀ i, (s.wires 0 i).reported + (if i < 2 then 1 else 0) ≤ (s.wires 0 i).delivered) ∧
      ∀ i, (pairReads i).Delivers ((s.wires 0 i).next (if i < 2 then 1 else 0)) := by
  constructor
  · intro i
    split_ifs with inside
    · rw [wires i inside]
      exact le_rfl
    · exact (s.wires 0 i).reported_le
  · intro i
    unfold pairReads
    split_ifs with inside
    · rw [wires i inside]
      interval_cases i
      · exact .completions [0]
      · exact .completions [96]
    · exact .again

theorem builderUnit_agreement_pair : ∃ trace s, Run pair.Step pair.start trace s ∧ ∃ bu₁,
    BuilderUnit.acquire .verbs pairReads 1 (List.range 2) (s.builder 0) = .ok 1 bu₁ ∧
      (∀ i < 2, ∃ iov, (bu₁.mDataVect i)[0]? = some iov ∧
        pair.Front trace (s.memory 0) 0 i iov) ∧ bu₁.checkData (s.memory 0) = .ok true := by
  obtain ⟨s, run, builder, wires⟩ := pair_delivered
  obtain ⟨inTime, delivers⟩ := pairReads_delivers wires
  obtain ⟨minWrs, bu₁, reads, good⟩ :=
    builderUnit_agreement run (by decide) inTime delivers
  rw [builder] at reads
  have here : BuilderUnit.acquire .verbs pairReads 1 (List.range 2) (pair.start.builder 0) =
      .ok 1 _ := rfl
  obtain ⟨rfl, rfl⟩ := EStateM.Result.ok.inj (reads.symm.trans here)
  exact ⟨_, s, run, _, by rw [builder]; exact here, good one_ne_zero⟩

end Pair

end Cluster

end Lseb
