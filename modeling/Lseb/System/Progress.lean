import Lseb.Foundation.Leading
import Lseb.Ru.Progress
import Lseb.System.Building

/-!
# When the nodes never come to a standstill

As long as the ring of a readout unit has a block for each node, some further steps
always release another round at every builder unit: the readout units post, the
messages arrive, and a turn finds a multievent on each connection. With more
nodes, the first one can fill its ring with multievents that it cannot post yet;
then it never posts again, and the builder units come to wait for it.
-/

namespace Lseb

open Foundation NetworkEvent ReadoutReport

section Posting

variable {block blocks id nodes credits : ℕ} {length : ℕ → ℕ} {metadata : MetaDataMemory}
  {t : Transport} {dataRange : Range} {ledger : Ledger block blocks} {s : ReadoutSystem}
  {acquired : List Iovec} {posts : List (ℕ × Iovec)}

/-- A turn in which all sends complete, with as many events due as wanted. -/
theorem Custody.exists_turn (laid : WellLaid metadata length (block * blocks))
    (positive : 0 < block) (nonzero : ∀ slot < block * blocks, length slot ≠ 0)
    (room : ∑ slot ∈ Finset.range (block * blocks), length slot ≤
      dataRange.mEnd - dataRange.mBegin)
    (ordered : dataRange.mBegin ≤ dataRange.mEnd) (own : id < nodes)
    (custody : Custody s.unit s.inFlight t id nodes credits dataRange ledger length
      acquired posts) (enough : ℕ) :
    ∃ due reads batch report unit, Carried s reads batch ∧
      (∀ connection, (batch connection : Multiset ℕ) = s.inFlight connection) ∧
      (∀ call, enough ≤ due call) ∧
      s.unit.iteration (accumulatorSource metadata) t ⟨due, reads, none⟩ = .ok (report, unit) := by
  obtain ⟨reads, batch, carried, emptied⟩ := custody.carried_all
  obtain ⟨report, unit, turned⟩ := custody.iteration_inTime laid positive (.inl nonzero) room
    ordered own carried ⟨monotone_const, le_max_left _ enough⟩
  exact ⟨_, reads, batch, report, unit, carried, emptied, fun _ => le_max_right _ _, turned⟩

/-- With a block for each node, at most two turns post the next multievent: the first one
may have to wait for memory. -/
theorem Custody.exists_post (laid : WellLaid metadata length (block * blocks))
    (positive : 0 < block) (nonzero : ∀ slot < block * blocks, length slot ≠ 0)
    (room : ∑ slot ∈ Finset.range (block * blocks), length slot ≤
      dataRange.mEnd - dataRange.mBegin)
    (ordered : dataRange.mBegin ≤ dataRange.mEnd) (own : id < nodes) (credit : 0 < credits)
    (few : nodes < blocks)
    (custody : Custody s.unit s.inFlight t id nodes credits dataRange ledger length
      acquired posts) :
    ∃ trace s', Run (CarriedTurn metadata t) s trace s' ∧ ReadoutReport.posts trace ≠ [] := by
  obtain ⟨due, reads, batch, report, unit, carried, emptied, _, turned⟩ :=
    custody.exists_turn laid positive nonzero room ordered own 0
  have taken := CarriedTurn.turn carried turned
  by_cases posted : report.posted = none
  · obtain ⟨ledger', custody', _⟩ := custody.step laid positive own taken
    rw [posted, Option.toList_none, List.append_nil] at custody'
    have quiet : ∀ connection, (s.advance batch report unit).inFlight connection = 0 := by
      intro connection
      simp [ReadoutReport.postedOn, posted, emptied]
    have released := custody'.le_released quiet custody'.cycle custody'.unsent_le_cycle
    have connection := @turnConnection_lt id nodes posts.length (Nat.zero_lt_of_lt own)
    obtain ⟨due', reads', batch', report', unit', carried', emptied', enough, turned'⟩ :=
      custody'.exists_turn laid positive nonzero room ordered own
        ((turnIndex id nodes posts.length + 1) * block)
    have posted' := custody'.turn_posts laid positive own credit (by rw [turnIndex]; omega)
      carried' emptied' enough turned'
    refine ⟨_, _, (Run.single taken).snoc (.turn carried' turned'), ?_⟩
    simp [ReadoutReport.posts, posted']
  · refine ⟨_, _, Run.single taken, ?_⟩
    simp [ReadoutReport.posts, posted]

end Posting

/-- All connections have had their turn in the cycles that are over. -/
theorem ReadoutUnit.div_le_turnsOf {id nodes connection turns : ℕ} :
    turns / nodes ≤ turnsOf id nodes connection turns := by
  unfold turnsOf
  split_ifs <;> omega

namespace Cluster

variable {k : Cluster} {trace trace' : List NetworkEvent} {s s' : Network} {node b i round : ℕ}

section Sending

/-- What a readout unit can do, it can do among the others. -/
theorem exists_readout_run (inside : node < k.nodes) {reports : List ReadoutReport}
    {system : ReadoutSystem}
    (alone : Run (CarriedTurn (k.layout node).metadata k.transport) (s.readout node) reports
      system) :
    ∃ trace' s', Run k.Step s trace' s' ∧ s'.readout node = system ∧
      reportsOf node trace' = reports := by
  induction alone with
  | nil => exact ⟨[], s, .nil, rfl, rfl⟩
  | @snoc reports system next report _ taken ih =>
    obtain ⟨trace', s', run, same, reported⟩ := ih
    subst same
    refine ⟨_, _, run.snoc (.readout inside taken), Function.update_self _ _ _, ?_⟩
    simp only [reportsOf, List.flatMap_append, List.flatMap_singleton, if_true]
    exact congrArg (· ++ [report]) reported

/-- The posts of a node so far. -/
def postsOf (node : ℕ) (trace : List NetworkEvent) : List (ℕ × Iovec) :=
  posts (reportsOf node trace)

theorem postsOf_append : postsOf node (trace ++ trace') =
    postsOf node trace ++ postsOf node trace' := by
  simp [postsOf, reportsOf, posts]

/-- Every readout unit can post as often as wanted. -/
theorem leads_posts (few : k.nodes ≤ 2 * k.configuration.credits) (inside : node < k.nodes)
    (bound : ℕ) : Leads k.Step k.start (fun _ _ => True)
      fun trace _ => bound ≤ (postsOf node trace).length := by
  apply Leads.atLeast (fun trace (_ : Network) => (postsOf node trace).length)
  intro count trace s run before
  obtain ⟨ledger, custody⟩ :=
    Configuration.custody_of_run inside (k.built _ inside) (k.readout_run run node)
  obtain ⟨reports, system, alone, some⟩ := custody.exists_post
    (Configuration.wellLaid_of_built (k.built _ inside)) k.configuration.bulkSize_pos
    (k.lengths_nonzero inside) (Configuration.lengths_room _ _) (Nat.le_add_right _ _) inside
    k.configuration.credits_pos (by rw [Configuration.blocks_eq]; omega)
  obtain ⟨trace', s', later, _, reported⟩ := k.exists_readout_run inside alone
  have same : postsOf node trace' = posts reports := congrArg posts reported
  have more := List.length_pos_iff.mpr some
  refine ⟨trace', s', later, ?_⟩
  simp only [postsOf_append, List.length_append, same]
  omega

/-- A connection has been sent its share of the posts. -/
theorem sent_length (run : Run k.Step k.start trace s) (inside : b < k.nodes)
    (connection : i < k.nodes) : (s.wires b i).sent.length =
      ReadoutUnit.turnsOf (k.peer b i) k.nodes b (postsOf (k.peer b i) trace).length := by
  have own := k.peer_lt b inside i connection
  obtain ⟨ledger, custody⟩ :=
    Configuration.custody_of_run own (k.built _ own) (k.readout_run run (k.peer b i))
  have history := congrArg List.length (custody.postsOn_eq own inside)
  rw [List.length_map, List.length_map, List.length_range, ← k.sent_eq run] at history
  exact history

theorem leads_sent (few : k.nodes ≤ 2 * k.configuration.credits) (inside : b < k.nodes)
    (bound : ℕ) : Leads k.Step k.start (fun _ _ => True)
      fun _ s => ∀ i < k.nodes, bound ≤ (s.wires b i).sent.length := by
  apply Leads.forall_lt (fun i _ (s : Network) => bound ≤ (s.wires b i).sent.length)
  · intro i connection
    refine (k.leads_posts few (k.peer_lt b inside i connection) (bound * k.nodes)).trans
      (.of_imp ?_)
    intro trace s run posted
    have cycles := (Nat.le_div_iff_mul_le (Nat.zero_lt_of_lt inside)).mpr posted
    rw [k.sent_length run inside connection]
    exact cycles.trans ReadoutUnit.div_le_turnsOf
  · exact fun _ _ _ _ _ _ _ => trivial
  · intro i trace s event s' _ taken before
    exact before.trans (taken.extends_wires b i).sent.length_le

end Sending

section Arriving

/-- The chunks of a connection that are in use. -/
theorem posted_length (run : Run k.Step k.start trace s) (connection : i < k.nodes) :
    (s.wires b i).posted.length = roundsOf b trace + k.configuration.credits := by
  have chunks := congrArg Multiset.card ((k.serving_run run b).posted_chunks connection)
  have some := k.configuration.credits_pos
  simp only [Multiset.coe_card, List.length_drop, BuilderUnit.chunks, List.length_map,
    List.length_range] at chunks
  have credits : (k.connected b).mCredits = k.configuration.credits := rfl
  omega

/-- While a message of the next round is missing, it can arrive. -/
theorem leads_delivered (inside : b < k.nodes) (round : ℕ) : Leads k.Step k.start
    (fun trace s => round ≤ roundsOf b trace ∧ ∀ i < k.nodes, round + 1 ≤ (s.wires b i).sent.length)
    fun trace s => ∀ i < k.nodes,
      round + 1 ≤ roundsOf b trace ∨ round + 1 ≤ (s.wires b i).delivered := by
  have rounds : ∀ bound, Stable k.Step k.start fun trace (_ : Network) =>
      bound ≤ roundsOf b trace := by
    intro bound trace s event s' _ _ before
    rw [roundsOf_append]
    exact before.trans (Nat.le_add_right _ _)
  apply Leads.forall_lt (fun i trace (s : Network) =>
    round + 1 ≤ roundsOf b trace ∨ round + 1 ≤ (s.wires b i).delivered)
  · rintro i connection trace s run ⟨earlier, sent⟩
    have some := k.configuration.credits_pos
    have posted := k.posted_length run (b := b) connection
    have released := ((k.serving_run run b).released i connection).trans
      (s.wires b i).reported_le
    by_cases there : round + 1 ≤ roundsOf b trace ∨ round + 1 ≤ (s.wires b i).delivered
    · exact ⟨[], s, .nil, by simpa using there⟩
    · have message : (s.wires b i).delivered < (s.wires b i).sent.length := by
        have := sent i connection
        omega
      refine ⟨_, _, Run.single (.deliver inside connection message (by omega)), .inr ?_⟩
      simp only [Function.update_self, OrderedChannel.deliver]
      omega
  · exact (rounds round).and fun _ _ _ _ _ taken before i connection =>
      (before i connection).trans (taken.extends_wires b i).sent.length_le
  · intro i trace s event s' run taken before
    cases before with
    | inl more => exact .inl (rounds _ _ _ _ _ run taken more)
    | inr arrived => exact .inr (arrived.trans (taken.extends_wires b i).delivered)

end Arriving

section Releasing

/-- A builder unit that reads all that has arrived. -/
theorem exists_release (run : Run k.Step k.start trace s) (inside : b < k.nodes)
    (arrived : ∀ i < k.nodes, roundsOf b trace < (s.wires b i).delivered) :
    ∃ report s', k.Step s (.build b report) s' ∧ 0 < report.rounds := by
  have inTime : ∀ i, (s.wires b i).reported + ((s.wires b i).delivered - (s.wires b i).reported) ≤
      (s.wires b i).delivered := by
    intro i
    have := (s.wires b i).reported_le
    omega
  have delivers : ∀ i, (CqRead.completions (((s.wires b i).next
      ((s.wires b i).delivered - (s.wires b i).reported)).map fun base => ⟨base, none⟩)).Delivers
        ((s.wires b i).next ((s.wires b i).delivered - (s.wires b i).reported)) :=
    fun i => .completions _
  have serving := k.serving_run run b
  obtain ⟨sameConnections, _, sameCredits, _⟩ := serving.sizes
  obtain ⟨minWrs, bu₁, reads⟩ := serving.acquire_total delivers
  obtain ⟨report, s', taken, rounds⟩ := k.exists_build run inside inTime delivers reads
  obtain ⟨_, answered, _, least⟩ := BuilderUnit.acquire_eq_ok List.nodup_range reads
  refine ⟨report, s', taken, ?_⟩
  rw [rounds, least, sameCredits]
  refine ⟨k.configuration.credits_pos, fun i member => ?_⟩
  have connection : i < k.nodes := by
    rw [sameConnections] at member
    exact List.mem_range.mp member
  have queued := congrArg List.length ((answered i member).delivered (delivers i)).1
  rw [serving.held i connection,
    ← @OrderedChannel.held_report _ _ (s.wires b i) _ _ (inTime i) (serving.released i connection),
    List.length_map, OrderedChannel.held_length] at queued
  have := arrived i connection
  simp only [OrderedChannel.report] at queued
  have := (s.wires b i).reported_le
  omega

end Releasing

section Deadlock

/-- From every state reached, some further steps release as many rounds as wanted at
every builder unit. -/
def NeverStandsStill (k : Cluster) : Prop :=
  ∀ trace s, Run k.Step k.start trace s → ∀ rounds, ∃ trace' s', Run k.Step s trace' s' ∧
    ∀ b < k.nodes, rounds ≤ roundsOf b (trace ++ trace')

theorem leads_rounds (few : k.nodes ≤ 2 * k.configuration.credits) (inside : b < k.nodes)
    (bound : ℕ) : Leads k.Step k.start (fun _ _ => True)
      fun trace _ => bound ≤ roundsOf b trace := by
  apply Leads.atLeast (fun trace (_ : Network) => roundsOf b trace)
  intro round
  have keeps : Stable k.Step k.start fun trace (_ : Network) => round ≤ roundsOf b trace := by
    intro trace s event s' _ _ before
    rw [roundsOf_append]
    exact before.trans (Nat.le_add_right _ _)
  have sent : Leads k.Step k.start (fun trace _ => round ≤ roundsOf b trace)
      fun _ s => ∀ i < k.nodes, round + 1 ≤ (s.wires b i).sent.length :=
    (Leads.of_imp fun _ _ _ _ => trivial).trans (k.leads_sent few inside (round + 1))
  have here : Leads k.Step k.start (fun trace _ => round ≤ roundsOf b trace)
      fun trace _ => round ≤ roundsOf b trace := .of_imp fun _ _ _ holds => holds
  have delivered := (here.and sent keeps keeps).trans (k.leads_delivered inside round)
  refine (here.and delivered keeps keeps).trans ?_
  rintro trace s run ⟨before, arrived⟩
  by_cases done : round + 1 ≤ roundsOf b trace
  · exact ⟨[], s, .nil, by simpa using done⟩
  · obtain ⟨report, s', taken, some⟩ := k.exists_release run inside fun i connection => by
      have := (arrived i connection).resolve_left done
      omega
    refine ⟨_, s', Run.single taken, ?_⟩
    simp only [roundsOf_append, roundsOf_build]
    exact Nat.add_le_add before some

theorem NeverStandsStill.of_few (few : k.nodes ≤ 2 * k.configuration.credits) :
    k.NeverStandsStill := by
  intro trace s run rounds
  have all := Leads.forall_lt (fun b trace (_ : Network) => rounds ≤ roundsOf b trace)
    (fun b inside => k.leads_rounds few inside rounds) (fun _ _ _ _ _ _ _ => trivial) (by
      intro b trace s event s' _ _ before
      rw [roundsOf_append]
      exact before.trans (Nat.le_add_right _ _))
  exact all trace s run trivial

/-- No further steps release a round at any builder unit. -/
def StandsStill (k : Cluster) (s : Network) : Prop :=
  ∀ trace s', Run k.Step s trace s' → ∀ b < k.nodes, roundsOf b trace = 0

/-- With fewer blocks than nodes, the first readout unit can come to post nothing more. -/
theorem exists_silent (many : 2 * k.configuration.credits < k.nodes) :
    ∃ trace s, Run k.Step k.start trace s ∧
      ∀ trace' s', Run k.Step s trace' s' → postsOf 0 trace' = [] := by
  have ring := Configuration.blocks_eq (c := k.configuration)
  have some := k.configuration.credits_pos
  have own : 0 < k.nodes := Nat.zero_lt_of_lt many
  obtain ⟨ledger, custody⟩ :=
    Configuration.custody_of_run own (k.built _ own) (k.readout_run .nil 0)
  have nothing : 0 = ledger.acquired := custody.acquired_length
  have released := ledger.released_le
  have laid := Configuration.wellLaid_of_built (k.built _ own)
  have distance : 0 + 2 + (postsOf 0 []).length + (2 * k.configuration.credits - 1) =
      k.configuration.blocks := by
    rw [show (postsOf 0 []).length = 0 from rfl]
    omega
  obtain ⟨reports, system, acquired, posts, ledger', alone, stuck⟩ :=
    custody.exists_stuck laid k.configuration.bulkSize_pos (k.lengths_nonzero own)
      (Configuration.lengths_room _ _) (Nat.le_add_right _ _) own some (by omega) (by omega)
      distance
  obtain ⟨trace, s, run, rfl, _⟩ := k.exists_readout_run (s := k.start) own alone
  exact ⟨trace, s, run, fun _ _ later =>
    stuck.run laid k.configuration.bulkSize_pos own (k.readout_project later 0)⟩

/-- A builder unit can only release what the first readout unit has sent to it. -/
theorem rounds_le_turnsOf (run : Run k.Step k.start trace s) (inside : b < k.nodes) :
    roundsOf b trace ≤ ReadoutUnit.turnsOf 0 k.nodes b (postsOf 0 trace).length := by
  obtain ⟨i, connection, peer⟩ := k.exists_connection inside (Nat.zero_lt_of_lt inside)
  have released := (k.serving_run run b).released i connection
  have reported := (s.wires b i).reported_le
  have delivered := (s.wires b i).delivered_le_sent
  have sent := k.sent_length run inside connection
  rw [peer] at sent
  omega

/-- With fewer blocks than nodes, some run is the end of all progress. -/
theorem exists_standsStill (many : 2 * k.configuration.credits < k.nodes) :
    ∃ trace s, Run k.Step k.start trace s ∧ k.StandsStill s := by
  obtain ⟨trace, s, run, silent⟩ := k.exists_silent many
  have bounded : ∀ trace' s', Run k.Step s trace' s' →
      ∑ b ∈ Finset.range k.nodes, roundsOf b trace' ≤ ∑ b ∈ Finset.range k.nodes,
        ReadoutUnit.turnsOf 0 k.nodes b (postsOf 0 trace).length := by
    refine fun trace' s' later => Finset.sum_le_sum fun b member => ?_
    have rounds := k.rounds_le_turnsOf (run.append later) (Finset.mem_range.mp member)
    rw [roundsOf_append, postsOf_append, silent _ _ later, List.append_nil] at rounds
    exact (Nat.le_add_left _ _).trans rounds
  obtain ⟨trace', s', later, final⟩ :=
    Run.exists_last (fun trace' _ => ∑ b ∈ Finset.range k.nodes, roundsOf b trace') bounded
  refine ⟨_, s', run.append later, fun more next rest b inside => ?_⟩
  have kept := final more next rest
  simp only [roundsOf_append, Finset.sum_add_distrib] at kept
  have none : ∑ b ∈ Finset.range k.nodes, roundsOf b more = 0 := by omega
  exact Finset.sum_eq_zero_iff.mp none b (Finset.mem_range.mpr inside)

theorem NeverStandsStill.few (never : k.NeverStandsStill) :
    k.nodes ≤ 2 * k.configuration.credits := by
  by_contra many
  rw [Nat.not_le] at many
  obtain ⟨trace, s, run, still⟩ := k.exists_standsStill many
  obtain ⟨trace', s', later, rounds⟩ := never trace s run (roundsOf 0 trace + 1)
  have own : 0 < k.nodes := Nat.zero_lt_of_lt many
  have enough := rounds 0 own
  rw [roundsOf_append, still trace' s' later 0 own] at enough
  omega

/-- The nodes never come to a standstill exactly if there are at most two nodes
per credit; with more, some run leads to a standstill of all of them. -/
theorem neverStandsStill_iff :
    (k.NeverStandsStill ↔ k.nodes ≤ 2 * k.configuration.credits) ∧
      (2 * k.configuration.credits < k.nodes →
        ∃ trace s, Run k.Step k.start trace s ∧ k.StandsStill s) :=
  ⟨⟨NeverStandsStill.few, .of_few⟩, k.exists_standsStill⟩

end Deadlock

end Cluster

end Lseb
