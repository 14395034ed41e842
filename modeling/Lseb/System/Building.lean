import Lseb.System.Agreement

/-!
# What a builder unit builds

A turn may release several rounds at once, and checks the headers of the first
one only. Still each of them is complete: its chunks hold one multievent of every readout unit,
and the events of a multievent that is not longer than a chunk can be told
apart by their headers there. A chunk keeps what arrived until it is released.
-/

namespace Lseb

open Foundation NetworkEvent ReadoutReport

section Hops

variable {source memory : Memory} {origin target bytes : ℕ}

/-- Hopping over a copy finds the headers of the original. -/
theorem hopHeaders_of_copy
    (copied : ∀ offset < bytes, memory (target + offset) = source (origin + offset))
    (count gone : ℕ)
    (whole : ∀ hop ∈ hopHeaders source (origin + gone) count, sizeofEventHeader ≤ hop.2.length)
    (room : gone + ((hopHeaders source (origin + gone) count).map fun hop => hop.2.length).sum ≤
      bytes) :
    hopHeaders memory (target + gone) count =
      (hopHeaders source (origin + gone) count).map fun hop =>
        (target + (hop.1 - origin), hop.2) := by
  induction count generalizing gone with
  | zero => rfl
  | succ count ih =>
    simp only [hopHeaders, List.mem_cons, forall_eq_or_imp, List.map_cons, List.sum_cons] at *
    obtain ⟨first, rest⟩ := whole
    have same : readHeader memory (target + gone) = readHeader source (origin + gone) := by
      unfold sizeofEventHeader at first
      simp only [readHeader, Nat.add_assoc, EventHeader.mk.injEq]
      exact ⟨copied _ (by omega), copied _ (by omega), copied _ (by omega)⟩
    rw [Nat.add_assoc] at rest room
    rw [same, Nat.add_assoc, ih _ rest (by omega), Nat.add_assoc, Nat.add_sub_cancel_left]

end Hops

section Invariant

variable {t : Transport} {first bu bu₁ : BuilderUnit} {source : ℕ → Memory} {rounds i j : ℕ}
  {memory : Memory} {wires : ℕ → OrderedChannel Iovec ℕ} {completions : ℕ → CqRead}
  {count : ℕ → ℕ} {minWrs : ℕ}

/-- Every round that is complete after the reading phase is in the chunks. -/
theorem Serving.entry (serving : Serving t first source rounds bu memory wires)
    (inTime : ∀ i, (wires i).reported + count i ≤ (wires i).delivered)
    (delivers : ∀ i, (completions i).Delivers ((wires i).next (count i)))
    (reads : BuilderUnit.acquire t completions bu.mCredits (List.range bu.connections) bu =
      .ok minWrs bu₁) (complete : j < minWrs) (inside : i < first.connections) :
    ∃ iov mevt, (bu₁.mDataVect i)[j]? = some iov ∧ (wires i).sent[rounds + j]? = some mevt ∧
      memory.Holds (source i) mevt iov.iovBase first.chunkSize := by
  obtain ⟨sameConnections, _⟩ := serving.sizes
  obtain ⟨_, answered, _, least⟩ := BuilderUnit.acquire_eq_ok List.nodup_range reads
  have member : i ∈ List.range bu.connections := by
    rw [sameConnections]
    exact List.mem_range.mpr inside
  have queued := ((answered i member).delivered (delivers i)).1
  rw [serving.held i inside,
    ← @OrderedChannel.held_report _ _ (wires i) rounds (count i) (inTime i)
      (serving.released i inside)] at queued
  have long : j < (bu₁.mDataVect i).length := ((least j).mp complete).2 i member
  have lengths := congrArg List.length queued
  rw [List.length_map, OrderedChannel.held_length] at lengths
  have reported : rounds + j < (wires i).reported + count i := by
    simp only [OrderedChannel.report] at lengths
    omega
  have delivered : rounds + j < (wires i).delivered := reported.trans_le (inTime i)
  have here := congrArg (fun list => list[j]?) queued
  simp only [List.getElem?_map, List.getElem?_eq_getElem long, Option.map_some] at here
  rw [OrderedChannel.held_getElem? reported] at here
  have message := List.getElem?_eq_getElem (delivered.trans_le (wires i).delivered_le_sent)
  exact ⟨_, _, List.getElem?_eq_getElem long, message,
    serving.content i inside _ (Nat.le_add_right _ _) delivered _ _ message here.symm⟩

end Invariant

namespace Cluster

variable {k : Cluster} {trace trace' : List NetworkEvent} {s s' : Network} {b i j : ℕ}
  {report : BuilderReport}

section Rounds

/-- Each builder unit has a connection to every readout unit. -/
theorem exists_connection {node : ℕ} (inside : b < k.nodes) (target : node < k.nodes) :
    ∃ i < k.nodes, k.peer b i = node := by
  have onto := Finset.surjOn_of_injOn_of_card_le (s := Finset.range k.nodes)
    (t := Finset.range k.nodes) (k.peer b) (by
      intro i member
      simp only [Finset.coe_range, Set.mem_Iio] at member ⊢
      exact k.peer_lt b inside i member) (by
      rw [Finset.coe_range]
      exact k.peer_inj b inside) le_rfl
  obtain ⟨i, member, same⟩ := onto (Finset.mem_coe.mpr (Finset.mem_range.mpr target))
  exact ⟨i, Finset.mem_range.mp member, same⟩

/-- A chunk holds the multievent of a round, as far as that fits. -/
def Entry (k : Cluster) (trace : List NetworkEvent) (memory : Memory) (b i round : ℕ)
    (iov : Iovec) : Prop :=
  ∃ mevt, (acquisitions (reportsOf (k.peer b i) trace))[round * k.nodes + b]? = some mevt ∧
    mevt = k.multieventOf (k.peer b i) (round * k.nodes + b) ∧
    memory.Holds (k.layout (k.peer b i)).data mevt iov.iovBase k.configuration.chunkSize

/-- A chunk that a turn releases, with the multievent in it. -/
theorem released_entry (run : Run k.Step k.start trace s)
    (taken : k.Step s (.build b report) s') (complete : j < report.rounds)
    (connection : i < k.nodes) : ∃ iov, (report.queued i)[j]? = some iov ∧
      k.Entry trace (s.memory b) b i (roundsOf b trace + j) iov := by
  cases taken with
  | @build _ completions count _ unit inside inTime delivers turned =>
    obtain ⟨bu₁, reads, queued⟩ := BuilderUnit.iteration_reads turned
    obtain ⟨iov, mevt, found, sent, holds⟩ :=
      (k.serving_run run b).entry inTime delivers reads complete connection
    obtain ⟨acquired, origin⟩ := k.sent_multievent run inside connection sent
    exact ⟨iov, queued ▸ found, mevt, acquired, origin, holds⟩

/-- Every round that a turn releases consists of the multievents of one index of all
readout units, each in a chunk of the one connection to its unit. -/
theorem rounds_complete (run : Run k.Step k.start trace s)
    (taken : k.Step s (.build b report) s') (complete : j < report.rounds) {node : ℕ}
    (target : node < k.nodes) : ∃ i < k.nodes, k.peer b i = node ∧
      (∀ other < k.nodes, k.peer b other = node → other = i) ∧
      ∃ iov, (report.queued i)[j]? = some iov ∧
        k.Entry trace (s.memory b) b i (roundsOf b trace + j) iov := by
  have inside : b < k.nodes := by
    cases taken
    assumption
  obtain ⟨i, connection, peer⟩ := k.exists_connection inside target
  refine ⟨i, connection, peer, fun other within same => ?_, ?_⟩
  · exact k.peer_inj b inside within connection (same.trans peer.symm)
  · exact k.released_entry run taken complete connection

/-- The slot of the first event of a multievent. -/
def firstSlot (k : Cluster) (index : ℕ) : ℕ :=
  index % k.configuration.blocks * k.configuration.bulkSize

/-- The events of a multievent, at the offsets that the metadata gives them from its start. -/
def describedEvents (k : Cluster) (node index base : ℕ) : List (ℕ × EventHeader) :=
  (List.range k.configuration.bulkSize).map fun event =>
    (base + (((k.layout node).metadata (k.firstSlot index + event)).offset -
        ((k.layout node).metadata (k.firstSlot index)).offset),
      ⟨k.firstSlot index + event, ((k.layout node).metadata (k.firstSlot index + event)).length,
        node⟩)

variable {node index : ℕ}

theorem metadata_eq (inside : node < k.nodes) {slot : ℕ} (within : slot < k.configuration.slots) :
    (k.layout node).metadata slot = ⟨slot, k.configuration.lengths (k.draws node) slot,
      eventOffset k.configuration.slots k.configuration.dataSize (k.draws node) slot⟩ := by
  obtain ⟨_, closed⟩ := Configuration.generator_eq_ok (k.built node inside)
  rw [closed]
  exact if_pos within

/-- Where the multievent was generated, its events are found where the metadata says. -/
theorem hopHeaders_multieventOf (inside : node < k.nodes) :
    hopHeaders (k.layout node).data (k.multieventOf node index).iovBase
        k.configuration.bulkSize =
      k.describedEvents node index (k.multieventOf node index).iovBase := by
  obtain ⟨_, closed⟩ := Configuration.generator_eq_ok (k.built node inside)
  have fits : k.firstSlot index + k.configuration.bulkSize ≤ k.configuration.slots :=
    block_fits (Nat.mod_lt _ Configuration.blocks_pos)
  have base : (k.multieventOf node index).iovBase = k.dataPtr node + eventOffset
      k.configuration.slots k.configuration.dataSize (k.draws node) (k.firstSlot index) := by
    rw [eventOffset_eq_sum]
    rfl
  have hops := @hopHeaders_writtenHeaders k.configuration.slots k.configuration.dataSize
    (k.dataPtr node) node (k.draws node) (k.data node) (k.lengths_nonzero inside)
    k.configuration.bulkSize (k.firstSlot index) fits
  have stored : (k.layout node).data = writtenHeaders k.configuration.slots
      k.configuration.dataSize (k.draws node) (k.dataPtr node) node (k.data node)
      k.configuration.slots := by rw [closed]
  rw [base, stored, hops, describedEvents, List.range'_eq_map_range, List.map_map]
  apply List.map_congr_left
  intro event member
  have event_lt := List.mem_range.mp member
  have later := @eventOffset_mono k.configuration.slots k.configuration.dataSize (k.draws node)
    _ _ (Nat.le_add_right (k.firstSlot index) event)
  have first := k.configuration.bulkSize_pos
  rw [k.metadata_eq inside (by omega), k.metadata_eq inside (by omega)]
  simp only [Function.comp_apply, Prod.mk.injEq]
  exact ⟨by omega, rfl⟩

/-- Multievents fit if no event is longer than a fragment. -/
theorem multieventOf_le (inside : node < k.nodes)
    (short : ∀ slot < k.configuration.slots, ((k.layout node).metadata slot).length ≤
      k.configuration.maxFragmentSize) :
    (k.multieventOf node index).iovLen ≤ k.configuration.chunkSize := by
  have slots : k.firstSlot index + k.configuration.bulkSize ≤ k.configuration.slots :=
    block_fits (Nat.mod_lt _ Configuration.blocks_pos)
  calc (k.multieventOf node index).iovLen
      = ∑ event ∈ Finset.range k.configuration.bulkSize,
          k.configuration.lengths (k.draws node) (k.firstSlot index + event) := rfl
    _ ≤ ∑ _ ∈ Finset.range k.configuration.bulkSize, k.configuration.maxFragmentSize := by
        apply Finset.sum_le_sum
        intro event member
        have event_lt := Finset.mem_range.mp member
        have within : k.firstSlot index + event < k.configuration.slots := by omega
        have limit := short _ within
        rwa [k.metadata_eq inside within] at limit
    _ = k.configuration.chunkSize := by
        rw [Finset.sum_const_nat fun _ _ => rfl, Finset.card_range, mul_comm]
        rfl

/-- The events of a multievent that fits are found in the chunk as well. -/
theorem hopHeaders_of_holds (inside : node < k.nodes) {memory : Memory} {base : ℕ}
    (holds : memory.Holds (k.layout node).data (k.multieventOf node index) base
      k.configuration.chunkSize)
    (fits : (k.multieventOf node index).iovLen ≤ k.configuration.chunkSize) :
    hopHeaders memory base k.configuration.bulkSize = k.describedEvents node index base := by
  have slots : k.firstSlot index + k.configuration.bulkSize ≤ k.configuration.slots :=
    block_fits (Nat.mod_lt _ Configuration.blocks_pos)
  have hops := @hopHeaders_multieventOf k node index inside
  have copied : ∀ offset < (k.multieventOf node index).iovLen, memory (base + offset) =
      (k.layout node).data ((k.multieventOf node index).iovBase + offset) := by
    intro offset within
    exact holds offset (lt_min within (within.trans_le fits))
  have lengths : (k.describedEvents node index (k.multieventOf node index).iovBase).map
      (fun hop => hop.2.length) = (List.range k.configuration.bulkSize).map fun event =>
        k.configuration.lengths (k.draws node) (k.firstSlot index + event) := by
    rw [describedEvents, List.map_map]
    apply List.map_congr_left
    intro event member
    have event_lt := List.mem_range.mp member
    simp only [Function.comp_apply, k.metadata_eq inside
      (show k.firstSlot index + event < k.configuration.slots by omega)]
  have copy := hopHeaders_of_copy copied k.configuration.bulkSize 0 ?_ ?_
  · rw [Nat.add_zero, Nat.add_zero, hops, describedEvents, List.map_map] at copy
    rw [copy, describedEvents]
    apply List.map_congr_left
    intro event _
    simp only [Function.comp_apply, Nat.add_sub_cancel_left]
  · rw [Nat.add_zero, hops]
    intro hop member
    obtain ⟨event, listed, rfl⟩ := List.mem_map.mp member
    have event_lt := List.mem_range.mp listed
    have within : k.firstSlot index + event < k.configuration.slots := by omega
    simp only [k.metadata_eq inside within]
    exact header_le_eventLength (k.lengths_nonzero inside _ within)
  · rw [Nat.add_zero, hops, lengths, Nat.zero_add]
    exact le_rfl

/-- A turn that can read some completions ends, and releases the rounds that are then complete. -/
theorem exists_build (run : Run k.Step k.start trace s) (inside : b < k.nodes)
    {completions : ℕ → CqRead} {count : ℕ → ℕ} {minWrs : ℕ} {bu₁ : BuilderUnit}
    (inTime : ∀ i, (s.wires b i).reported + count i ≤ (s.wires b i).delivered)
    (delivers : ∀ i, (completions i).Delivers ((s.wires b i).next (count i)))
    (reads : BuilderUnit.acquire k.transport completions (s.builder b).mCredits
      (List.range (s.builder b).connections) (s.builder b) = .ok minWrs bu₁) :
    ∃ report s', k.Step s (.build b report) s' ∧ report.rounds = minWrs := by
  obtain ⟨report, unit, turned⟩ := (k.turns_total run inside).2 _ _ inTime delivers
  obtain ⟨bu₂, again, _⟩ := BuilderUnit.iteration_reads turned
  obtain ⟨rounds, _⟩ := EStateM.Result.ok.inj (again.symm.trans reads)
  exact ⟨report, _, .build inside inTime delivers turned, rounds⟩

/-- The pair, when the builder unit of node 0 builds its first round. -/
theorem pair_built : ∃ s report s',
    Run pair.Step pair.start (pairTrace ++ [.deliver 0 0] ++ [.deliver 0 1]) s ∧
      pair.Step s (.build 0 report) s' ∧ report.rounds = 1 := by
  obtain ⟨s, run, builder, wires⟩ := pair_delivered
  obtain ⟨inTime, delivers⟩ := pairReads_delivers wires
  obtain ⟨report, s', taken, rounds⟩ := pair.exists_build run (by decide) inTime delivers
    (by rw [builder]; rfl)
  exact ⟨s, report, s', run, taken, rounds⟩

theorem rounds_complete_pair : ∃ trace s report s', Run pair.Step pair.start trace s ∧
    pair.Step s (.build 0 report) s' ∧ ∃ i < 2, pair.peer 0 i = 1 ∧
      ∃ iov, (report.queued i)[0]? = some iov ∧
        pair.Entry trace (s.memory 0) 0 i (roundsOf 0 trace + 0) iov := by
  obtain ⟨s, report, s', run, taken, rounds⟩ := pair_built
  have complete : 0 < report.rounds := by
    rw [rounds]
    exact Nat.one_pos
  have target : 1 < pair.nodes := by decide
  obtain ⟨i, inside, peer, _, entry⟩ := rounds_complete run taken complete target
  exact ⟨_, s, report, s', run, taken, i, inside, peer, entry⟩

/-- A builder unit can tell all events of a released round apart by the headers in its own
memory, and they are those that the readout unit generated, as long as no event is
longer than a fragment. -/
theorem rounds_readable (run : Run k.Step k.start trace s)
    (taken : k.Step s (.build b report) s') (complete : j < report.rounds)
    (connection : i < k.nodes)
    (short : ∀ slot < k.configuration.slots, ((k.layout (k.peer b i)).metadata slot).length ≤
      k.configuration.maxFragmentSize) :
    ∃ iov, (report.queued i)[j]? = some iov ∧
      hopHeaders (s.memory b) iov.iovBase k.configuration.bulkSize =
        k.describedEvents (k.peer b i) ((roundsOf b trace + j) * k.nodes + b) iov.iovBase := by
  have inside : b < k.nodes := by
    cases taken
    assumption
  have own := k.peer_lt b inside i connection
  obtain ⟨iov, found, _, _, rfl, holds⟩ := k.released_entry run taken complete connection
  exact ⟨iov, found, k.hopHeaders_of_holds own holds (k.multieventOf_le own short)⟩

/-- Two events in each multievent, of at most 96 bytes each. -/
def bulky : Configuration :=
  { Configuration.spread with
    bulkSize := 2
    bulkSize_pos := Nat.two_pos }

/-- A node that sends to itself, with six events of 64 bytes. -/
def lone : Cluster where
  configuration := bulky
  transport := .verbs
  nodes := 1
  draws := fun _ _ => 40
  dataPtr := fun _ => 0
  metadata := fun _ _ => ⟨0, 0, 0⟩
  data := fun _ _ => 0
  layout := fun node => ⟨⟨⟨0, 6, 5, 5⟩, node⟩,
    Generator.writtenMetadata 6 576 (fun _ => 40) (fun _ => ⟨0, 0, 0⟩) 6,
    writtenHeaders 6 576 (fun _ => 40) 0 node (fun _ => 0) 6⟩
  built node _ := Generator.construct_eq Configuration.slots_pos Configuration.fits rfl rfl
  nonzero node _ := by
    have : ∀ slot < 6, (Generator.writtenMetadata 6 576 (fun _ => 40) (fun _ => ⟨0, 0, 0⟩) 6
      slot).length ≠ 0 := by decide
    exact this
  receivePtr := fun _ => 0
  aligned _ _ := rfl
  received := fun _ _ => 0
  peer := fun _ i => i
  peer_lt _ _ _ inside := inside
  peer_inj _ _ := Set.injOn_id _

/-- The node has posted its first two events to itself. -/
def loneTrace : List NetworkEvent := [.readout 0 ⟨[⟨0, 128⟩], [], some (0, ⟨0, 128⟩)⟩]

theorem lone_sent : ∃ s, Run lone.Step lone.start loneTrace s ∧
    s.builder 0 = lone.start.builder 0 ∧
    s.wires 0 0 = .send [⟨0, 128⟩] (.start ((lone.constructed 0).chunks 0)) :=
  ⟨_, .snoc .nil (.readout (by decide) (quiet_turn (fun _ => 2) rfl)), rfl, rfl⟩

theorem lone_delivered : ∃ s, Run lone.Step lone.start (loneTrace ++ [.deliver 0 0]) s ∧
    s.builder 0 = lone.start.builder 0 ∧
    s.wires 0 0 = .deliver (.send [⟨0, 128⟩] (.start ((lone.constructed 0).chunks 0)))
      Nat.zero_lt_one Nat.zero_lt_one := by
  obtain ⟨s, run, builder, wires⟩ := lone_sent
  refine ⟨_, run.snoc (.deliver (by decide) (by decide) ?_ ?_), builder, ?_⟩
  · rw [wires]
    decide
  · rw [wires]
    decide
  · simp [wires]

def loneReads (i : ℕ) : CqRead := if i < 1 then .completions [⟨0, none⟩] else .again

theorem lone_built : ∃ s report s',
    Run lone.Step lone.start (loneTrace ++ [.deliver 0 0]) s ∧
      lone.Step s (.build 0 report) s' ∧ report.rounds = 1 := by
  obtain ⟨s, run, builder, wires⟩ := lone_delivered
  have inTime : ∀ i, (s.wires 0 i).reported + (if i < 1 then 1 else 0) ≤
      (s.wires 0 i).delivered := by
    intro i
    split_ifs with inside
    · obtain rfl : i = 0 := Nat.lt_one_iff.mp inside
      rw [wires]
      exact le_rfl
    · exact (s.wires 0 i).reported_le
  have delivers : ∀ i, (loneReads i).Delivers ((s.wires 0 i).next (if i < 1 then 1 else 0)) := by
    intro i
    unfold loneReads
    split_ifs with inside
    · obtain rfl : i = 0 := Nat.lt_one_iff.mp inside
      rw [wires]
      exact .completions [0]
    · exact .again
  obtain ⟨report, s', taken, rounds⟩ := lone.exists_build run (by decide) inTime delivers
    (by rw [builder]; rfl)
  exact ⟨s, report, s', run, taken, rounds⟩

/-- The header of the second event is found by hopping over the first one. -/
theorem rounds_readable_lone : ∃ trace s report s', Run lone.Step lone.start trace s ∧
    lone.Step s (.build 0 report) s' ∧ ∃ iov, (report.queued 0)[0]? = some iov ∧
      hopHeaders (s.memory 0) iov.iovBase 2 =
        [(iov.iovBase + 0, ⟨0, 64, 0⟩), (iov.iovBase + 64, ⟨1, 64, 0⟩)] := by
  obtain ⟨s, report, s', run, taken, rounds⟩ := lone_built
  have short : ∀ slot < 6, ((lone.layout 0).metadata slot).length ≤ 96 := by decide
  obtain ⟨iov, found, hops⟩ := @rounds_readable _ _ _ _ _ 0 0 _ run taken
    (by rw [rounds]; exact Nat.one_pos) (by decide) short
  exact ⟨_, s, report, s', run, taken, iov, found, hops⟩

end Rounds

section Kept

theorem Step.extends_wires {event : NetworkEvent} (taken : k.Step s event s') (b i : ℕ) :
    (s'.wires b i).Extends (s.wires b i) := by
  cases taken with
  | @readout node report unit inside turned =>
    by_cases own : k.peer b i = node
    · simp only [own, if_true]
      exact OrderedChannel.extends_send
    · simp only [own, if_false]
      exact .refl _
  | @deliver node j inside connection message buffer =>
    by_cases here : b = node
    · subst here
      by_cases there : i = j
      · subst there
        simp only [Function.update_self]
        exact OrderedChannel.extends_deliver
      · simp only [Function.update_self, Function.update_of_ne there]
        exact .refl _
    · simp only [Function.update_of_ne here]
      exact .refl _
  | @build node completions count report unit inside inTime delivers turned =>
    by_cases here : b = node
    · subst here
      simp only [Function.update_self]
      exact OrderedChannel.extends_report_post
    · simp only [Function.update_of_ne here]
      exact .refl _

theorem extends_wires (later : Run k.Step s trace' s') (b i : ℕ) :
    (s'.wires b i).Extends (s.wires b i) := by
  induction later with
  | nil => exact .refl _
  | snoc _ taken ih => exact (taken.extends_wires b i).trans ih

/-- Whatever the threads do, a chunk that was filled holds its message until the builder unit
releases its round. -/
theorem received_kept (run : Run k.Step k.start trace s) (later : Run k.Step s trace' s')
    (connection : i < k.nodes) {position : ℕ} (arrived : position < (s.wires b i).delivered)
    (unreleased : roundsOf b (trace ++ trace') ≤ position) :
    ∃ mevt base, (s.wires b i).sent[position]? = some mevt ∧
      (s.wires b i).posted[position]? = some base ∧
      (s'.memory b).Holds (k.layout (k.peer b i)).data mevt base k.configuration.chunkSize := by
  have extended := k.extends_wires later b i
  have message := arrived.trans_le (s.wires b i).delivered_le_sent
  have buffer := arrived.trans_le (s.wires b i).delivered_le_posted
  have serving := k.serving_run (run.append later) b
  refine ⟨_, _, List.getElem?_eq_getElem message, List.getElem?_eq_getElem buffer, ?_⟩
  apply serving.content i connection position unreleased (arrived.trans_le extended.delivered)
  · rw [extended.sent_getElem? message, List.getElem?_eq_getElem message]
  · rw [extended.posted_getElem? buffer, List.getElem?_eq_getElem buffer]

/-- The first message stays in its chunk while the second one arrives. -/
theorem received_kept_pair : ∃ trace s s', Run pair.Step pair.start trace s ∧
    pair.Step s (.deliver 0 1) s' ∧
    ∃ mevt base, (s.wires 0 0).sent[0]? = some mevt ∧ (s.wires 0 0).posted[0]? = some base ∧
      (s'.memory 0).Holds (pairLayout 0).data mevt base 96 := by
  obtain ⟨s, s', run, taken, delivered, _⟩ := pair_arriving
  have arrived : 0 < (s.wires 0 0).delivered := by
    rw [delivered]
    exact Nat.one_pos
  exact ⟨_, s, s', run, taken, received_kept run (.single taken) (by decide) arrived le_rfl⟩

end Kept

end Cluster

end Lseb
