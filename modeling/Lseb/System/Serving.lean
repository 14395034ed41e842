import Lseb.Bu.Allocation
import Lseb.Bu.Circulation
import Lseb.System.Network

/-!
# A builder unit on ordered connections

The vector of a connection holds the chunks that were reported and not released,
the table those that wait for their report, and each filled chunk still holds
its message: chunks do not overlap, and none is posted twice at a time.
-/

namespace Lseb

open Foundation PendingMap

section Invariant

variable {t : Transport} {first bu unit : BuilderUnit} {source : ℕ → Memory} {rounds i : ℕ}
  {memory : Memory} {wires : ℕ → OrderedChannel Iovec ℕ}

/-- The builder unit and its memory, after some rounds, agree with the channels that
fill the chunks from the memories of the senders. -/
structure Serving (t : Transport) (first : BuilderUnit) (source : ℕ → Memory) (rounds : ℕ)
    (bu : BuilderUnit) (memory : Memory) (wires : ℕ → OrderedChannel Iovec ℕ) : Prop where
  shape : ∃ conns data, bu = first.withChannels conns data
  channels : ∀ i < first.connections, bu.Channel t i
  released : ∀ i < first.connections, rounds ≤ (wires i).reported
  held : ∀ i < first.connections, (bu.mDataVect i).map Iovec.iovBase = (wires i).held rounds
  waiting : ∀ i < first.connections,
    keySet (bu.mConnectionIds i).mPendingRecv = (wires i).waiting
  content : ∀ i < first.connections, ∀ position, rounds ≤ position →
    position < (wires i).delivered → ∀ iov base, (wires i).sent[position]? = some iov →
      (wires i).posted[position]? = some base → memory.Holds (source i) iov base first.chunkSize

/-- A builder unit that has just connected. -/
theorem start_serving {conns : ℕ → Socket} (connected : bu = { first with mConnectionIds := conns })
    (empty : first.mDataVect = fun _ => [])
    (channels : ∀ i < first.connections, bu.Channel t i) :
    Serving t first source 0 bu memory fun i => .start (first.chunks i) := by
  subst connected
  refine ⟨⟨conns, first.mDataVect, rfl⟩, channels, fun _ _ => le_rfl, ?_, ?_, ?_⟩
  · intro i _
    rw [empty]
    rfl
  · intro i inside
    have places := (channels i inside).places
    rw [empty, List.map_nil, Multiset.coe_nil, add_zero] at places
    exact places
  · intro i _ position _ before
    exact absurd before (Nat.not_lt_zero _)

variable (serving : Serving t first source rounds bu memory wires)

include serving

/-- The chunks of a connection are the buffers that were not given back. -/
theorem Serving.posted_chunks (inside : i < first.connections) :
    ((wires i).posted.drop rounds : Multiset ℕ) = first.chunks i := by
  have places := (serving.channels i inside).places
  rw [serving.waiting i inside, serving.held i inside, add_comm, Multiset.coe_add,
    OrderedChannel.held_waiting (serving.released i inside)] at places
  obtain ⟨conns, data, rfl⟩ := serving.shape
  exact places

theorem Serving.posted_chunk (inside : i < first.connections) {position base : ℕ}
    (later : rounds ≤ position)
    (posted : (wires i).posted[position]? = some base) :
    ∃ j < first.mCredits, base = first.chunk i j := by
  have member : base ∈ (wires i).posted.drop rounds := by
    rw [← Nat.add_sub_cancel' later, ← List.getElem?_drop] at posted
    exact List.mem_of_getElem? posted
  rw [← Multiset.mem_coe, serving.posted_chunks inside] at member
  obtain ⟨j, listed, same⟩ := List.mem_map.mp member
  exact ⟨j, List.mem_range.mp listed, same.symm⟩

/-- A chunk is posted once at a time. -/
theorem Serving.posted_once (positive : 0 < first.chunkSize) (inside : i < first.connections)
    {position position' base : ℕ} (later : rounds ≤ position) (later' : rounds ≤ position')
    (posted : (wires i).posted[position]? = some base)
    (posted' : (wires i).posted[position']? = some base) : position = position' := by
  have distinct : ((wires i).posted.drop rounds).Nodup := by
    rw [← Multiset.coe_nodup, serving.posted_chunks inside]
    exact BuilderUnit.chunks_nodup positive
  rw [← Nat.add_sub_cancel' later, ← List.getElem?_drop] at posted
  rw [← Nat.add_sub_cancel' later', ← List.getElem?_drop] at posted'
  have same := (List.getElem?_inj (List.getElem?_eq_some_iff.mp posted).1 distinct).mp
    (posted.trans posted'.symm)
  omega

/-- Chunks that were posted and not given back do not overlap. -/
theorem Serving.posted_apart (positive : 0 < first.chunkSize)
    {i' position position' base base' : ℕ}
    (inside : i < first.connections) (inside' : i' < first.connections)
    (later : rounds ≤ position) (later' : rounds ≤ position')
    (posted : (wires i).posted[position]? = some base)
    (posted' : (wires i').posted[position']? = some base')
    (differ : i ≠ i' ∨ position ≠ position') :
    base + first.chunkSize ≤ base' ∨ base' + first.chunkSize ≤ base := by
  obtain ⟨j, chunk, here⟩ := serving.posted_chunk inside later posted
  obtain ⟨j', chunk', there⟩ := serving.posted_chunk inside' later' posted'
  rw [here, there]
  apply BuilderUnit.chunk_apart chunk chunk'
  by_contra same
  obtain ⟨rfl, rfl⟩ : i = i' ∧ j = j' := by simpa using same
  rw [there, ← here] at posted'
  have once := serving.posted_once positive inside later later' posted posted'
  exact differ.elim (absurd rfl) (absurd once)

/-- Sending only makes the logs of messages longer. -/
theorem Serving.send {sent : ℕ → OrderedChannel Iovec ℕ}
    (more : ∀ i, ∃ messages, sent i = (wires i).send messages) :
    Serving t first source rounds bu memory sent := by
  refine ⟨serving.shape, serving.channels, ?_, ?_, ?_, ?_⟩
  · intro i inside
    obtain ⟨messages, same⟩ := more i
    rw [same]
    exact serving.released i inside
  · intro i inside
    obtain ⟨messages, same⟩ := more i
    rw [same, OrderedChannel.held_send]
    exact serving.held i inside
  · intro i inside
    obtain ⟨messages, same⟩ := more i
    rw [same, OrderedChannel.waiting_send]
    exact serving.waiting i inside
  · intro i inside position later before iov base found posted
    obtain ⟨messages, same⟩ := more i
    rw [same] at before found posted
    rw [OrderedChannel.delivered_send] at before
    rw [OrderedChannel.sent_send before] at found
    exact serving.content i inside position later before iov base found posted

section Deliver

variable {message : (wires i).delivered < (wires i).sent.length}
  {buffer : (wires i).delivered < (wires i).posted.length}

/-- An arrival fills a chunk that holds no other message. -/
theorem Serving.deliver (positive : 0 < first.chunkSize) (inside : i < first.connections) :
    Serving t first source rounds bu
      (arrived (source i) (wires i).sent[(wires i).delivered]
        (wires i).posted[(wires i).delivered] first.chunkSize memory)
      (Function.update wires i ((wires i).deliver message buffer)) := by
  have next : rounds ≤ (wires i).delivered :=
    (serving.released i inside).trans (wires i).reported_le
  have here := List.getElem?_eq_getElem buffer
  have same := @OrderedChannel.update_deliver _ _ _ _ wires i message buffer
  refine ⟨serving.shape, serving.channels, ?_, ?_, ?_, ?_⟩
  · intro i' inside'
    rw [(same i').1]
    exact serving.released i' inside'
  · intro i' inside'
    rw [OrderedChannel.held, (same i').1, (same i').2]
    exact serving.held i' inside'
  · intro i' inside'
    rw [OrderedChannel.waiting, (same i').1, (same i').2]
    exact serving.waiting i' inside'
  · intro i' inside' position later before iov base found posted
    rw [Function.update_apply] at before found posted
    split_ifs at before found posted with same
    · subst same
      rcases Nat.lt_succ_iff_lt_or_eq.mp before with earlier | last
      · exact (serving.content i' inside' position later earlier iov base found posted).arrived
          (serving.posted_apart positive inside' inside later next posted here
            (.inr earlier.ne))
      · subst last
        obtain ⟨_, rfl⟩ := List.getElem?_eq_some_iff.mp found
        obtain ⟨_, rfl⟩ := List.getElem?_eq_some_iff.mp posted
        exact arrived_holds
    · exact (serving.content i' inside' position later before iov base found posted).arrived
        (serving.posted_apart positive inside' inside later next posted here (.inl same))

end Deliver

section Turn

variable {completions : ℕ → CqRead} {count : ℕ → ℕ} {report : BuilderReport} {minWrs : ℕ}

theorem Serving.sizes : bu.connections = first.connections ∧ bu.nodes = first.nodes ∧
    bu.mCredits = first.mCredits ∧ bu.chunkSize = first.chunkSize := by
  obtain ⟨conns, data, rfl⟩ := serving.shape
  exact ⟨rfl, rfl, rfl, rfl⟩

/-- A turn releases chunks that were reported, and posts them again. -/
theorem Serving.turn (positive : 0 < first.chunkSize)
    (inTime : ∀ i, (wires i).reported + count i ≤ (wires i).delivered)
    (delivers : ∀ i, (completions i).Delivers ((wires i).next (count i)))
    (turned : BuilderUnit.iteration t ⟨completions, memory, fun _ _ => none⟩ bu =
      .ok report unit) :
    Serving t first source (rounds + report.rounds) unit memory fun i =>
      ((wires i).report (count i) (inTime i)).post (report.released i) := by
  obtain ⟨sameConnections, _, _, sameSize⟩ := serving.sizes
  obtain ⟨minWrs, bu₁, reads, passes⟩ := BuilderUnit.iteration_eq_ok turned
  obtain ⟨conns, data, turned', served⟩ := BuilderUnit.iteration_conserves
    (by rw [sameSize]; exact positive) (by rw [sameConnections]; exact serving.channels)
    delivers reads passes
  obtain ⟨rfl, rfl⟩ := EStateM.Result.ok.inj (turned'.symm.trans turned)
  rw [sameConnections] at served
  have queued : ∀ i < first.connections, (bu₁.mDataVect i).map Iovec.iovBase =
      ((wires i).report (count i) (inTime i)).held rounds := by
    intro i inside
    rw [OrderedChannel.held_report (serving.released i inside), ← serving.held i inside]
    exact (served i inside).2.queued
  refine ⟨?_, fun i inside => (served i inside).1, ?_, ?_, ?_, ?_⟩
  · obtain ⟨conns₀, data₀, rfl⟩ := serving.shape
    exact ⟨conns, data, rfl⟩
  · intro i inside
    have enough := (served i inside).2.enough
    have lengths := congrArg List.length (queued i inside)
    rw [List.length_map, OrderedChannel.held_length] at lengths
    have before := serving.released i inside
    simp only [OrderedChannel.report, OrderedChannel.post] at lengths enough ⊢
    omega
  · intro i inside
    rw [OrderedChannel.held_post, ← OrderedChannel.held_drop, ← queued i inside,
      (served i inside).2.data, List.map_drop]
  · intro i inside
    have moved := (served i inside).2.pending
    rw [serving.waiting i inside, ← @OrderedChannel.next_waiting _ _ (wires i) (count i),
      ← Multiset.coe_add, add_comm ((wires i).next (count i) : Multiset ℕ), add_right_comm,
      add_left_inj] at moved
    rw [OrderedChannel.waiting_post, OrderedChannel.waiting_report, moved]
    rfl
  · intro i inside position later before iov base found posted
    rw [OrderedChannel.delivered_post] at before
    rw [OrderedChannel.posted_post before] at posted
    exact serving.content i inside position (Nat.le_of_add_right_le later) before iov base found
      posted

variable {bu₁ : BuilderUnit}

/-- The reading phase goes through. -/
theorem Serving.acquire_total
    (delivers : ∀ i, (completions i).Delivers ((wires i).next (count i))) :
    ∃ minWrs bu₁, BuilderUnit.acquire t completions bu.mCredits (List.range bu.connections) bu =
      .ok minWrs bu₁ := by
  obtain ⟨sameConnections, _⟩ := serving.sizes
  obtain ⟨minWrs, bu₁, reads, _⟩ := BuilderUnit.acquire_conserves
    (by rw [sameConnections]; exact serving.channels) delivers (by
      intro i inside
      rw [sameConnections] at inside
      rw [serving.waiting i inside, ← @OrderedChannel.next_waiting _ _ (wires i) (count i),
        ← Multiset.coe_add]
      exact Multiset.le_add_right _ _)
  exact ⟨minWrs, bu₁, reads⟩

/-- What is in front after the reading phase is a chunk with the message of the round. -/
theorem Serving.front (inTime : ∀ i, (wires i).reported + count i ≤ (wires i).delivered)
    (delivers : ∀ i, (completions i).Delivers ((wires i).next (count i)))
    (reads : BuilderUnit.acquire t completions bu.mCredits (List.range bu.connections) bu =
      .ok minWrs bu₁) (ready : minWrs ≠ 0) (inside : i < first.connections) :
    ∃ iov mevt, (bu₁.mDataVect i)[0]? = some iov ∧ (wires i).sent[rounds]? = some mevt ∧
      memory.Holds (source i) mevt iov.iovBase first.chunkSize ∧
      ∃ j < first.mCredits, iov.iovBase = first.chunk i j := by
  obtain ⟨sameConnections, _⟩ := serving.sizes
  obtain ⟨_, answered, _, least⟩ := BuilderUnit.acquire_eq_ok List.nodup_range reads
  have member : i ∈ List.range bu.connections := by
    rw [sameConnections]
    exact List.mem_range.mpr inside
  have queued := ((answered i member).delivered (delivers i)).1
  rw [serving.held i inside,
    ← @OrderedChannel.held_report _ _ (wires i) rounds (count i) (inTime i)
      (serving.released i inside)] at queued
  have long : 0 < (bu₁.mDataVect i).length :=
    ((least 0).mp (Nat.pos_of_ne_zero ready)).2 i member
  have lengths := congrArg List.length queued
  rw [List.length_map, OrderedChannel.held_length] at lengths
  have reported : rounds + 0 < (wires i).reported + count i := by
    simp only [OrderedChannel.report] at lengths
    omega
  have delivered : rounds < (wires i).delivered := by
    have := inTime i
    omega
  have here := congrArg (fun list => list[0]?) queued
  simp only [List.getElem?_map, List.getElem?_eq_getElem long, Option.map_some] at here
  rw [OrderedChannel.held_getElem? reported] at here
  have message := List.getElem?_eq_getElem
    (delivered.trans_le (wires i).delivered_le_sent)
  exact ⟨_, _, List.getElem?_eq_getElem long, message,
    serving.content i inside rounds le_rfl delivered _ _ message here.symm,
    serving.posted_chunk inside le_rfl here.symm⟩

end Turn

end Invariant

end Lseb
