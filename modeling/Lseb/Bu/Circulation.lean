import Lseb.Bu.Conservation

/-!
# Runs of the builder unit

The fabric completes each posted receive once, in any order and in batches of
any size. Over every run, each chunk is at exactly one place, and what every
connection was given back is the front of what it had received.
-/

namespace Lseb

open Foundation PendingMap

/-- A builder unit with the receives in flight on each connection. -/
structure BuilderSystem where
  unit : BuilderUnit
  inFlight : ℕ → Multiset ℕ

/-- All receives that were posted are in flight. -/
def BuilderSystem.start (bu : BuilderUnit) : BuilderSystem :=
  ⟨bu, fun i => keySet (bu.mConnectionIds i).mPendingRecv⟩

/-- A turn with the chunks that were completed on each connection. -/
structure BuilderEvent extends BuilderReport where
  received : ℕ → List ℕ

namespace BuilderEvent

def receivedOn (i : ℕ) (trace : List BuilderEvent) : List ℕ :=
  trace.flatMap fun event => event.received i

def releasedOn (i : ℕ) (trace : List BuilderEvent) : List ℕ :=
  trace.flatMap fun event => event.released i

def totalRounds (trace : List BuilderEvent) : ℕ :=
  (trace.map fun event => event.rounds).sum

end BuilderEvent

/-- Completions of receives in flight. -/
structure Delivered (s : BuilderSystem) (completions : ℕ → CqRead) (batch : ℕ → List ℕ) : Prop where
  delivers : ∀ i, (completions i).Delivers (batch i)
  part : ∀ i, (batch i : Multiset ℕ) ≤ s.inFlight i

/-- A turn over a fabric that accepts the posts and completes receives in flight. -/
inductive DeliveredTurn (t : Transport) : BuilderSystem → BuilderEvent → BuilderSystem → Prop where
  | turn {s : BuilderSystem} {completions : ℕ → CqRead} {batch : ℕ → List ℕ} {memory : Memory}
      {report : BuilderReport} {unit : BuilderUnit} (delivered : Delivered s completions batch)
      (turned : BuilderUnit.iteration t ⟨completions, memory, fun _ _ => none⟩ s.unit =
        .ok report unit) :
      DeliveredTurn t s ⟨report, batch⟩ ⟨unit, fun i =>
        s.inFlight i - batch i + report.released i⟩

namespace BuilderUnit

/-- The chunks of a connection as addresses: each is at exactly one place, posted
with its full length or received, and there is nothing else. -/
structure ChunksPlaced (bu : BuilderUnit) (dataPtr chunkSize credits i : ℕ) : Prop where
  once : ∀ j < credits, Xor
    ((bu.mConnectionIds i).mPendingRecv.lookup
      (dataPtr + i * chunkSize * credits + j * chunkSize) = some chunkSize)
    (dataPtr + i * chunkSize * credits + j * chunkSize ∈ (bu.mDataVect i).map Iovec.iovBase)
  pending : ∀ key len, (bu.mConnectionIds i).mPendingRecv.lookup key = some len →
    len = chunkSize ∧ ∃ j < credits, key = dataPtr + i * chunkSize * credits + j * chunkSize
  received : ∀ base ∈ (bu.mDataVect i).map Iovec.iovBase,
    ∃ j < credits, base = dataPtr + i * chunkSize * credits + j * chunkSize
  distinct : ((bu.mDataVect i).map Iovec.iovBase).Nodup
  bounded : (bu.mDataVect i).length ≤ credits

variable {t : Transport} {bu first : BuilderUnit} {i : ℕ}

theorem Channel.chunksPlaced (channel : Channel t bu i) (positive : 0 < bu.chunkSize) :
    ChunksPlaced bu bu.mDataPtr bu.chunkSize bu.mCredits i := by
  obtain ⟨_, dataDistinct, disjoint⟩ := Multiset.nodup_add.mp (channel.distinct positive)
  have known : ∀ key, key ∈ (bu.mConnectionIds i).mPendingRecv ∨
      key ∈ (bu.mDataVect i).map Iovec.iovBase ↔ key ∈ bu.chunks i := by
    intro key
    rw [← Multiset.mem_coe (l := bu.chunks i), ← channel.places, Multiset.mem_add, mem_keySet]
    rfl
  refine ⟨?_, ?_, ?_, Multiset.coe_nodup.mp dataDistinct, ?_⟩
  · intro j inside
    have listed : bu.chunk i j ∈ bu.chunks i := List.mem_map_of_mem (List.mem_range.mpr inside)
    cases (known _).mpr listed with
    | inl pending =>
      obtain ⟨len, found⟩ := Option.isSome_iff_exists.mp (AList.lookup_isSome.mpr pending)
      obtain rfl := channel.lengths _ _ found
      exact .inl ⟨found, Multiset.disjoint_left.mp disjoint (mem_keySet.mpr pending)⟩
    | inr received =>
      refine .inr ⟨received, fun found => ?_⟩
      have pending : bu.chunk i j ∈ (bu.mConnectionIds i).mPendingRecv :=
        AList.lookup_isSome.mp (Option.isSome_iff_exists.mpr ⟨_, found⟩)
      exact Multiset.disjoint_left.mp disjoint (mem_keySet.mpr pending) received
  · intro key len found
    have pending : key ∈ (bu.mConnectionIds i).mPendingRecv :=
      AList.lookup_isSome.mp (Option.isSome_iff_exists.mpr ⟨_, found⟩)
    obtain ⟨j, inside, same⟩ := List.mem_map.mp ((known key).mp (.inl pending))
    exact ⟨channel.lengths _ _ found, j, List.mem_range.mp inside, same.symm⟩
  · intro base member
    obtain ⟨j, inside, same⟩ := List.mem_map.mp ((known base).mp (.inr member))
    exact ⟨j, List.mem_range.mp inside, same.symm⟩
  · have := channel.count
    omega

end BuilderUnit

section Runs

variable {t : Transport} {first : BuilderUnit} {trace : List BuilderEvent}
  {s s' : BuilderSystem} {event : BuilderEvent} {completions : ℕ → CqRead} {batch : ℕ → List ℕ}

/-- The invariant: the addresses stay, every connection is in order, and its
history is that of a queue. -/
structure Circulation (t : Transport) (first : BuilderUnit) (trace : List BuilderEvent)
    (s : BuilderSystem) : Prop where
  shape : ∃ conns data, s.unit = first.withChannels conns data
  channels : ∀ i < first.connections, s.unit.Channel t i
  inFlight : ∀ i < first.connections,
    s.inFlight i = keySet (s.unit.mConnectionIds i).mPendingRecv
  history : ∀ i < first.connections, BuilderEvent.releasedOn i trace ++
    (s.unit.mDataVect i).map Iovec.iovBase = BuilderEvent.receivedOn i trace
  rounds : ∀ i < first.connections,
    (BuilderEvent.releasedOn i trace).length = BuilderEvent.totalRounds trace

theorem start_circulation (channels : ∀ i < first.connections, first.Channel t i)
    (empty : ∀ i, first.mDataVect i = []) : Circulation t first [] (.start first) where
  shape := ⟨first.mConnectionIds, first.mDataVect, rfl⟩
  channels := channels
  inFlight _ _ := rfl
  history i _ := by
    rw [BuilderSystem.start, empty]
    rfl
  rounds _ _ := rfl

theorem Circulation.sizes (circulation : Circulation t first trace s) :
    s.unit.connections = first.connections ∧ s.unit.chunkSize = first.chunkSize := by
  obtain ⟨conns, data, same⟩ := circulation.shape
  rw [same]
  exact ⟨rfl, rfl⟩

theorem Circulation.part (circulation : Circulation t first trace s)
    (delivered : Delivered s completions batch) {i : ℕ} (inside : i < first.connections) :
    (batch i : Multiset ℕ) ≤ keySet (s.unit.mConnectionIds i).mPendingRecv := by
  rw [← circulation.inFlight i inside]
  exact delivered.part i

/-- What a turn reported is what it found after reading. -/
theorem BuilderUnit.iteration_reads {input : BuilderInput} {bu bu' : BuilderUnit}
    {report : BuilderReport} (turned : iteration t input bu = .ok report bu') :
    ∃ bu₁, acquire t input.completions bu.mCredits (List.range bu.connections) bu =
      .ok report.rounds bu₁ ∧ report.queued = bu₁.mDataVect := by
  rw [iteration, estate_get_bind] at turned
  obtain ⟨minWrs, bu₁, reads, turned⟩ := estate_bind_eq_ok.mp turned
  rw [estate_get_bind] at turned
  obtain ⟨_, bu₂, _, returned⟩ := estate_bind_eq_ok.mp turned
  obtain ⟨rfl, _⟩ := EStateM.Result.ok.inj returned
  exact ⟨bu₁, reads, rfl⟩

/-- A turn that ended well passed the check. -/
theorem BuilderUnit.iteration_eq_ok {input : BuilderInput} {bu bu' : BuilderUnit}
    {report : BuilderReport} (turned : iteration t input bu = .ok report bu') :
    ∃ minWrs bu₁, acquire t input.completions bu.mCredits (List.range bu.connections) bu =
        .ok minWrs bu₁ ∧ (minWrs ≠ 0 → checkData input.memory bu₁ = .ok true) := by
  rw [iteration, estate_get_bind] at turned
  obtain ⟨minWrs, bu₁, reads, turned⟩ := estate_bind_eq_ok.mp turned
  rw [estate_get_bind] at turned
  obtain ⟨_, _, built, _⟩ := estate_bind_eq_ok.mp turned
  refine ⟨minWrs, bu₁, reads, fun rounds => ?_⟩
  rw [build, if_pos rounds, estate_get_bind] at built
  obtain ⟨passed, _, checked, built⟩ := estate_bind_eq_ok.mp built
  obtain ⟨checked, rfl⟩ := attempt_eq_ok.mp checked
  cases passed with
  | true => exact checked
  | false =>
    rw [Bool.not_false, if_pos rfl] at built
    obtain ⟨_, _, ⟨⟩, _⟩ := estate_bind_eq_ok.mp built

/-- A turn keeps the invariant. -/
theorem Circulation.step (positive : 0 < first.chunkSize)
    (circulation : Circulation t first trace s) (taken : DeliveredTurn t s event s') :
    Circulation t first (trace ++ [event]) s' := by
  obtain ⟨sameConnections, sameSize⟩ := circulation.sizes
  cases taken with
  | @turn completions batch memory report unit delivered turned =>
    obtain ⟨minWrs, bu₁, reads, passes⟩ := BuilderUnit.iteration_eq_ok turned
    obtain ⟨conns, data, turned', served⟩ := BuilderUnit.iteration_conserves
      (by rw [sameSize]; exact positive) (by rw [sameConnections]; exact circulation.channels)
      delivered.delivers reads passes
    obtain ⟨rfl, rfl⟩ := EStateM.Result.ok.inj (turned'.symm.trans turned)
    rw [sameConnections] at served
    obtain ⟨conns₀, data₀, same⟩ := circulation.shape
    refine ⟨⟨conns, data, by rw [same]; rfl⟩, fun i inside => (served i inside).1, ?_, ?_, ?_⟩
    · intro i inside
      have whole := circulation.part delivered inside
      have moved := (served i inside).2.pending
      rw [← tsub_add_cancel_of_le whole, add_right_comm, add_left_inj] at moved
      simp only [circulation.inFlight i inside]
      exact moved.symm
    · intro i inside
      obtain ⟨queued, _, rest, _⟩ := (served i inside).2
      have before := circulation.history i inside
      have split := List.take_append_drop minWrs (bu₁.mDataVect i)
      simp only [BuilderEvent.releasedOn, BuilderEvent.receivedOn, List.flatMap_append,
        List.flatMap_singleton] at before ⊢
      rw [← before, rest, List.append_assoc, List.append_assoc, ← queued, BuilderReport.released,
        ← List.map_append, split]
    · intro i inside
      have before := circulation.rounds i inside
      have enough := (served i inside).2.enough
      simp only [BuilderEvent.releasedOn, BuilderEvent.totalRounds, List.flatMap_append,
        List.flatMap_singleton, List.map_append, List.sum_append, List.length_append,
        BuilderReport.released, List.length_map, List.length_take, List.map_cons, List.map_nil,
        List.sum_singleton] at before enough ⊢
      omega

theorem circulation_run (positive : 0 < first.chunkSize)
    (channels : ∀ i < first.connections, first.Channel t i) (empty : ∀ i, first.mDataVect i = [])
    (run : Run (DeliveredTurn t) (.start first) trace s) : Circulation t first trace s := by
  refine Run.invariant (I := Circulation t first) (start_circulation channels empty) ?_ run
  intro trace s event s' _ circulation taken
  exact circulation.step positive taken

/-- Connecting succeeds, and in every state reached from there each chunk is at
exactly one place; all connections have released the same number of chunks, in
the order received; and a turn only fails if the check does. -/
theorem builderUnit_conservation (t : Transport)
    {nodes bulkSize credits maxFragmentSize dataPtr : ℕ}
    (positive : 0 < maxFragmentSize * bulkSize) :
    ∃ bu, BuilderUnit.connect t (fun _ _ => none) nodes
        (.construct nodes bulkSize credits maxFragmentSize dataPtr) = .ok () bu ∧
      ∀ trace s, Run (DeliveredTurn t) (.start bu) trace s →
        (∀ i < nodes, s.unit.ChunksPlaced dataPtr (maxFragmentSize * bulkSize) credits i) ∧
        (∀ i < nodes,
          (BuilderEvent.releasedOn i trace).length = BuilderEvent.totalRounds trace ∧
          BuilderEvent.releasedOn i trace ++ (s.unit.mDataVect i).map Iovec.iovBase =
            BuilderEvent.receivedOn i trace) ∧
        ∀ completions batch memory, Delivered s completions batch → ∃ minWrs bu₁,
          BuilderUnit.acquire t completions credits (List.range nodes) s.unit =
            .ok minWrs bu₁ ∧
          (∀ i < nodes, bu₁.ChunksPlaced dataPtr (maxFragmentSize * bulkSize) credits i) ∧
          ((minWrs ≠ 0 → bu₁.checkData memory = .ok true) → ∃ report unit,
            BuilderUnit.iteration t ⟨completions, memory, fun _ _ => none⟩ s.unit =
              .ok report unit) := by
  obtain ⟨bu, connected, ⟨conns, rfl⟩, channels⟩ := @BuilderUnit.connect_total t nodes bulkSize
    credits maxFragmentSize dataPtr positive
  refine ⟨_, connected, fun trace s run => ?_⟩
  have circulation : Circulation t
      { BuilderUnit.construct nodes bulkSize credits maxFragmentSize dataPtr with
        mConnectionIds := conns
        connections := nodes } trace s :=
    circulation_run positive channels (fun _ => rfl) run
  obtain ⟨conns', data, same⟩ := circulation.shape
  refine ⟨?_, fun i inside => ⟨circulation.rounds i inside, circulation.history i inside⟩, ?_⟩
  · intro i inside
    have placed := (circulation.channels i inside).chunksPlaced (by rw [same]; exact positive)
    rw [same] at placed ⊢
    exact placed
  · intro completions batch memory delivered
    have sizes : s.unit.connections = nodes ∧ s.unit.mCredits = credits := by
      rw [same]
      exact ⟨rfl, rfl⟩
    obtain ⟨minWrs, bu₁, reads, channels₁⟩ := BuilderUnit.acquire_conserves
      (by rw [sizes.1]; exact circulation.channels) delivered.delivers
      (by rw [sizes.1]; exact fun i inside => circulation.part delivered inside)
    obtain ⟨⟨conns₁, data₁, shape⟩, _⟩ := BuilderUnit.acquire_eq_ok List.nodup_range reads
    refine ⟨minWrs, bu₁, by rw [sizes.1, sizes.2] at reads; exact reads, ?_, ?_⟩
    · intro i inside
      have placed := (channels₁ i (by rw [sizes.1]; exact inside)).chunksPlaced
        (by rw [shape, same]; exact positive)
      rw [shape, same] at placed ⊢
      exact placed
    · intro passes
      obtain ⟨conns₂, data₂, turned, _⟩ := BuilderUnit.iteration_conserves
        (by rw [same]; exact positive) (by rw [sizes.1]; exact circulation.channels)
        delivered.delivers reads passes
      exact ⟨_, _, turned⟩

/-- The second chunk of a connection is completed before its first one. -/
def swappedBatch (i : ℕ) : List ℕ := if i = 0 then [24, 0] else if i = 1 then [48] else []

def swappedReads (i : ℕ) : CqRead := .completions ((swappedBatch i).map fun base => ⟨base, none⟩)

/-- A header with the length 24 at the begin of each chunk of 24 bytes. -/
def wholeChunks : Memory := fun p => if p % 24 = 8 then 24 else 0

theorem swapped_acquire : ∃ bu bu₁, BuilderUnit.connect .verbs (fun _ _ => none) 2
      (.construct 2 1 2 24 0) = .ok () bu ∧ Delivered (.start bu) swappedReads swappedBatch ∧
    BuilderUnit.acquire .verbs swappedReads 2 (List.range 2) bu = .ok 1 bu₁ ∧
    bu₁.checkData wholeChunks = .ok true := by
  refine ⟨_, _, rfl, ⟨fun i => .completions _, fun i => ?_⟩, rfl, rfl⟩
  unfold swappedBatch
  split_ifs with first second
  · subst first
    decide
  · subst second
    decide
  · exact Multiset.zero_le _

/-- Two nodes with two chunks of 24 bytes for each: one round is released and posted again,
and the chunk at 0 waits for the next one. -/
theorem builderUnit_conservation_two : ∃ bu trace s,
    BuilderUnit.connect .verbs (fun _ _ => none) 2 (.construct 2 1 2 24 0) = .ok () bu ∧
    Run (DeliveredTurn .verbs) (.start bu) trace s ∧ BuilderEvent.totalRounds trace = 1 ∧
    (∀ i < 2, s.unit.ChunksPlaced 0 24 2 i) ∧ (BuilderEvent.releasedOn 0 trace).length = 1 ∧
    BuilderEvent.releasedOn 0 trace ++ (s.unit.mDataVect 0).map Iovec.iovBase = [24, 0] := by
  obtain ⟨bu, connected, conserved⟩ :=
    @builderUnit_conservation .verbs 2 1 2 24 0 (by decide)
  obtain ⟨bu', bu₁, connected', delivered, reads, checked⟩ := swapped_acquire
  obtain ⟨-, rfl⟩ := EStateM.Result.ok.inj (connected.symm.trans connected')
  obtain ⟨minWrs, bu₂, reads', _, turns⟩ :=
    (conserved [] _ .nil).2.2 swappedReads swappedBatch wholeChunks delivered
  obtain ⟨rfl, rfl⟩ := EStateM.Result.ok.inj (reads'.symm.trans reads)
  obtain ⟨report, unit, turned⟩ := turns fun _ => checked
  obtain ⟨bu₂, again, _⟩ := BuilderUnit.iteration_reads turned
  have shape : bu.mCredits = 2 ∧ bu.connections = 2 := by
    cases connected'
    exact ⟨rfl, rfl⟩
  have rounds : report.rounds = 1 := by
    rw [BuilderSystem.start, shape.1, shape.2] at again
    exact (EStateM.Result.ok.inj (again.symm.trans reads)).1
  have run := Run.single (DeliveredTurn.turn delivered turned)
  obtain ⟨placed, history, _⟩ := conserved _ _ run
  exact ⟨bu, _, _, connected, run, rounds, placed, (history 0 (by decide)).1.trans rounds,
    (history 0 (by decide)).2⟩

end Runs

end Lseb
