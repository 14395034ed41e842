import Lseb.Foundation.Gathering
import Lseb.System.Progress

/-!
# The nodes as an event builder

The events of the abstract event builder are the indices of multievents, and
its sources the readout units. How far the fragment of a node has come depends
on four counts: the multievents acquired and sent, the messages delivered, and
the rounds released. Every step of the network is a run of the event builder,
so no event is built twice, or without the fragment of a node.
-/

namespace Lseb

open Foundation NetworkEvent ReadoutReport

namespace NetworkEvent

/-- The indices of the events that a step builds, after a history. -/
def builtBy (nodes : ℕ) (before : List NetworkEvent) : NetworkEvent → List ℕ
  | .readout _ _ => []
  | .deliver _ _ => []
  | .build node report =>
      (List.range report.rounds).map fun j => (roundsOf node before + j) * nodes + node

/-- The indices of all events built, in the order of the turns. -/
def builtAfter (nodes : ℕ) : List NetworkEvent → List NetworkEvent → List ℕ
  | _, [] => []
  | before, event :: rest => builtBy nodes before event ++ builtAfter nodes (before ++ [event]) rest

def builtEvents (nodes : ℕ) (trace : List NetworkEvent) : List ℕ := builtAfter nodes [] trace

theorem builtAfter_append {nodes : ℕ} {before trace : List NetworkEvent} {event : NetworkEvent} :
    builtAfter nodes before (trace ++ [event]) =
      builtAfter nodes before trace ++ builtBy nodes (before ++ trace) event := by
  induction trace generalizing before with
  | nil => simp [builtAfter]
  | cons first rest ih => simp [builtAfter, ih]

end NetworkEvent

namespace Cluster

variable {k : Cluster} {trace : List NetworkEvent} {s s' : Network} {event : NetworkEvent}
  {node b i : ℕ}

/-- How far the data of each node has come. -/
def counts (k : Cluster) (trace : List NetworkEvent) (s : Network) : GatherCounts where
  read node := (acquisitions (reportsOf node trace)).length
  sent node b := (postsOn b (postsOf node trace)).length
  received node b :=
    ∑ i ∈ Finset.range k.nodes, if k.peer b i = node then (s.wires b i).delivered else 0
  built b := roundsOf b trace

section Counts

theorem received_eq (inside : b < k.nodes) (connection : i < k.nodes) :
    (k.counts trace s).received (k.peer b i) b = (s.wires b i).delivered := by
  simp only [counts]
  rw [Finset.sum_eq_single_of_mem i (Finset.mem_range.mpr connection), if_pos rfl]
  intro other member differs
  rw [if_neg]
  exact fun same => differs (k.peer_inj b inside (Finset.mem_range.mp member) connection same)

theorem counts_valid (run : Run k.Step k.start trace s) : (k.counts trace s).Valid k.nodes := by
  constructor
  · intro source own b inside
    obtain ⟨i, connection, rfl⟩ := k.exists_connection inside own
    rw [k.received_eq inside connection]
    exact ((k.serving_run run b).released i connection).trans (s.wires b i).reported_le
  · intro source own b inside
    obtain ⟨i, connection, rfl⟩ := k.exists_connection inside own
    have sent := congrArg List.length (k.sent_eq run b i)
    rw [k.received_eq inside connection]
    exact (s.wires b i).delivered_le_sent.trans sent.le
  · intro source own b inside round sent
    obtain ⟨i, connection, rfl⟩ := k.exists_connection inside own
    have message : round < (s.wires b i).sent.length := by
      rw [k.sent_eq run b i]
      exact sent
    have acquired := (k.sent_multievent run inside connection
      (List.getElem?_eq_getElem message)).1
    exact (List.getElem?_eq_some_iff.mp acquired).1

theorem counts_start : (k.counts [] k.start).stage k.nodes = fun _ _ => .fresh := by
  funext source event
  simp [counts, GatherCounts.stage, start, OrderedChannel.start, roundsOf, reportsOf, postsOf,
    posts, postsOn, acquisitions]

theorem length_acquisitions {other : ℕ} {report : ReadoutReport} :
    (acquisitions (reportsOf other (trace ++ [.readout node report]))).length =
      Function.update (fun node => (acquisitions (reportsOf node trace)).length) node
        ((acquisitions (reportsOf node trace)).length + report.acquired.length) other := by
  by_cases own : other = node
  · subst own
    simp [reportsOf, acquisitions]
  · simp [reportsOf, acquisitions, own, Ne.symm own]

theorem length_postsOf {other : ℕ} {report : ReadoutReport} :
    (postsOn b (postsOf other (trace ++ [.readout node report]))).length =
      (postsOn b (postsOf other trace)).length +
        if other = node then (postsOn b report.posted.toList).length else 0 := by
  by_cases own : other = node
  · subst own
    simp [postsOf, reportsOf, posts, postsOn]
  · simp [postsOf, reportsOf, posts, postsOn, own, Ne.symm own]

/-- A turn of a readout unit reads multievents, and sends at most one. -/
theorem counts_readout {report : ReadoutReport} (taken : k.Step s (.readout node report) s') :
    k.counts (trace ++ [.readout node report]) s' =
      match report.posted with
      | none => (k.counts trace s).reading node report.acquired.length
      | some (target, _) =>
        ((k.counts trace s).reading node report.acquired.length).sending node target := by
  have received : (k.counts (trace ++ [.readout node report]) s').received =
      (k.counts trace s).received := by
    funext source b
    simp only [counts]
    refine Finset.sum_congr rfl fun i _ => ?_
    cases taken with
    | readout inside turned =>
      dsimp only
      split_ifs <;> rfl
  have built : (k.counts (trace ++ [.readout node report]) s').built =
      (k.counts trace s).built := by
    funext b
    simp [counts, roundsOf]
  cases posted : report.posted with
  | none =>
    refine GatherCounts.ext (funext fun _ => length_acquisitions) ?_ received built
    funext source b
    simp only [counts, length_postsOf, posted, GatherCounts.reading]
    simp [postsOn]
  | some post =>
    refine GatherCounts.ext (funext fun _ => length_acquisitions) ?_ received built
    funext source b
    by_cases own : source = node
    · subst own
      simp only [counts, length_postsOf, posted, GatherCounts.sending, GatherCounts.reading,
        Function.update_self, if_true]
      by_cases there : b = post.1
      · subst there
        simp [postsOn]
      · simp [postsOn, there, Ne.symm there]
    · simp [counts, length_postsOf, GatherCounts.sending, GatherCounts.reading, own]

/-- An arrival is the next one from its readout unit. -/
theorem counts_deliver (taken : k.Step s (.deliver b i) s') :
    k.counts (trace ++ [.deliver b i]) s' = (k.counts trace s).receiving (k.peer b i) b := by
  have read : (k.counts (trace ++ [.deliver b i]) s').read = (k.counts trace s).read := by
    funext source
    simp [counts, reportsOf]
  have sent : (k.counts (trace ++ [.deliver b i]) s').sent = (k.counts trace s).sent := by
    funext source b
    simp [counts, postsOf, reportsOf]
  have built : (k.counts (trace ++ [.deliver b i]) s').built = (k.counts trace s).built := by
    funext b
    simp [counts, roundsOf]
  refine GatherCounts.ext read sent ?_ built
  cases taken with
  | deliver inside connection message buffer =>
    funext source b'
    by_cases here : b' = b
    · subst here
      by_cases own : source = k.peer b' i
      · subst own
        simp only [GatherCounts.receiving, k.received_eq inside connection, Function.update_self,
          OrderedChannel.deliver]
      · simp only [GatherCounts.receiving, Function.update_of_ne own, counts]
        refine Finset.sum_congr rfl fun j _ => ?_
        by_cases same : j = i
        · subst same
          rw [if_neg (Ne.symm own), if_neg (Ne.symm own)]
        · simp only [Function.update_self, Function.update_of_ne same]
    · have others : (k.counts trace s).received source b' =
          ((k.counts trace s).receiving (k.peer b i) b).received source b' := by
        by_cases own : source = k.peer b i
        · subst own
          simp [GatherCounts.receiving, here]
        · simp [GatherCounts.receiving, own]
      rw [← others]
      simp only [counts]
      refine Finset.sum_congr rfl fun j _ => ?_
      simp only [Function.update_of_ne here]

/-- A turn of a builder unit builds its next rounds. -/
theorem counts_build {report : BuilderReport} (taken : k.Step s (.build b report) s') :
    k.counts (trace ++ [.build b report]) s' =
      (k.counts trace s).building b report.rounds := by
  have read : (k.counts (trace ++ [.build b report]) s').read = (k.counts trace s).read := by
    funext source
    simp [counts, reportsOf]
  have sent : (k.counts (trace ++ [.build b report]) s').sent = (k.counts trace s).sent := by
    funext source b
    simp [counts, postsOf, reportsOf]
  refine GatherCounts.ext read sent ?_ ?_
  · funext source b'
    simp only [counts, GatherCounts.building]
    refine Finset.sum_congr rfl fun i _ => ?_
    cases taken with
    | build inside inTime delivers turned =>
      by_cases here : b' = b
      · subst here
        simp [OrderedChannel.report, OrderedChannel.post]
      · simp [here]
  · funext b'
    by_cases here : b' = b
    · subst here
      simp [counts, GatherCounts.building, roundsOf_append, roundsOf_build]
    · simp [counts, GatherCounts.building, roundsOf, here, Ne.symm here]

end Counts

section Simulation

/-- A readout unit only sends to nodes. -/
theorem target_lt {report : ReadoutReport} {post : ℕ × Iovec} (run : Run k.Step k.start trace s)
    (taken : k.Step s (.readout node report) s') (posted : report.posted = some post) :
    post.1 < k.nodes := by
  have own : node < k.nodes := by
    cases taken
    assumption
  obtain ⟨ledger, custody⟩ :=
    Configuration.custody_of_run own (k.built _ own) (k.readout_run (run.snoc taken) node)
  have last : (posts (reportsOf node (trace ++ [.readout node report])))[
      (posts (reportsOf node trace)).length]? = some post := by
    simp [posts, reportsOf, posted]
  obtain ⟨iov, here, _⟩ := custody.posts _ (List.getElem?_eq_some_iff.mp last).1
  rw [last] at here
  rw [Option.some.inj here]
  exact turnConnection_lt (Nat.zero_lt_of_lt own)

/-- Every step of the network is a run of the event builder. -/
theorem Step.gathers (run : Run k.Step k.start trace s) (taken : k.Step s event s') :
    ∃ labels, Run Gather ((k.counts trace s).stage k.nodes) labels
        ((k.counts (trace ++ [event]) s').stage k.nodes) ∧
      labels.filterMap GatherLabel.builtEvent = builtBy k.nodes trace event := by
  have valid := k.counts_valid run
  have after := k.counts_valid (run.snoc taken)
  cases event with
  | readout node report =>
    have own : node < k.nodes := by
      cases taken
      assumption
    have reads := @GatherCounts.Valid.readAll k.nodes _ ⟨node, own⟩ valid report.acquired.length
    have nothing : ((List.range report.acquired.length).map fun index =>
        GatherLabel.advance (⟨node, own⟩ : Fin k.nodes) ((k.counts trace s).read node + index)
          Stage.read).filterMap GatherLabel.builtEvent = [] := by
      simp [GatherLabel.builtEvent]
    have grown := @k.counts_readout trace _ _ _ _ taken
    rw [grown] at after ⊢
    cases posted : report.posted with
    | none => exact ⟨_, reads, nothing⟩
    | some post =>
      simp only [posted] at after ⊢
      have target := k.target_lt run taken posted
      have sends := @GatherCounts.Valid.send k.nodes
        ((k.counts trace s).reading node report.acquired.length) ⟨node, own⟩ post.1
        (valid.reading node report.acquired.length) target (by
        have sent := after.sent_read node own post.1 target ((k.counts trace s).sent node post.1)
        simpa [GatherCounts.sending, GatherCounts.reading] using sent)
      refine ⟨_, reads.snoc sends, ?_⟩
      rw [List.filterMap_append, nothing]
      rfl
  | deliver b i =>
    rw [k.counts_deliver taken]
    cases taken with
    | deliver inside connection message buffer =>
      have own := k.peer_lt b inside i connection
      have behind : (k.counts trace s).received (k.peer b i) b <
          (k.counts trace s).sent (k.peer b i) b := by
        have sent : (s.wires b i).sent.length = (k.counts trace s).sent (k.peer b i) b :=
          congrArg List.length (k.sent_eq run b i)
        rw [k.received_eq inside connection, ← sent]
        exact message
      exact ⟨_, .single (@GatherCounts.Valid.receive k.nodes _ ⟨_, own⟩ _ valid inside behind), rfl⟩
  | build b report =>
    have inside : b < k.nodes := by
      cases taken
      assumption
    rw [k.counts_build taken] at after ⊢
    refine ⟨_, GatherCounts.buildAll inside report.rounds ?_, ?_⟩
    · intro source own
      have complete := after.built_le source own b inside
      simpa only [GatherCounts.building, Function.update_self] using complete
    · simp only [List.filterMap_map, Function.comp_def, GatherLabel.builtEvent, builtBy,
        counts, List.filterMap_eq_map']

/-- Step by step, a run of the network is a run of the event builder. -/
theorem gathers_of_run (run : Run k.Step k.start trace s) :
    ∃ labels, Run Gather (fun _ _ => .fresh) labels ((k.counts trace s).stage k.nodes) ∧
      labels.filterMap GatherLabel.builtEvent = builtEvents k.nodes trace := by
  induction run with
  | nil =>
    rw [k.counts_start]
    exact ⟨[], .nil, rfl⟩
  | @snoc trace s s' event before taken ih =>
    obtain ⟨labels, reached, built⟩ := ih
    obtain ⟨more, moved, built'⟩ := taken.gathers before
    refine ⟨labels ++ more, reached.append moved, ?_⟩
    rw [List.filterMap_append, built, built']
    exact builtAfter_append.symm

/-- Every run of the network is a run of the event builder that builds the same events in
the same order, and ends where the counts say: with just these events built. -/
theorem network_gathers (run : Run k.Step k.start trace s) :
    ∃ labels, Run Gather (fun _ _ => .fresh) labels ((k.counts trace s).stage k.nodes) ∧
      labels.filterMap GatherLabel.builtEvent = builtEvents k.nodes trace ∧
      ∀ node index, (k.counts trace s).stage k.nodes node index = .built ↔
        index ∈ builtEvents k.nodes trace := by
  obtain ⟨labels, reached, built⟩ := k.gathers_of_run run
  refine ⟨labels, reached, built, fun node index => ?_⟩
  rw [← built]
  exact (mem_builtEvents reached node).symm

/-- The pair builds event 0 first. -/
theorem network_gathers_pair : ∃ trace s labels, Run pair.Step pair.start trace s ∧
    Run Gather (fun _ _ => .fresh) labels ((pair.counts trace s).stage 2) ∧
    labels.filterMap GatherLabel.builtEvent = [0] := by
  obtain ⟨s, report, s', run, taken, rounds⟩ := pair_built
  obtain ⟨labels, reached, built, _⟩ := network_gathers (run.snoc taken)
  refine ⟨_, s', labels, run.snoc taken, reached, built.trans ?_⟩
  rw [builtEvents, builtAfter_append, builtBy, rounds]
  rfl

end Simulation

section Built

/-- A builder unit builds every `nodes`-th event, in order. -/
theorem builtEvents_filter (run : Run k.Step k.start trace s) (inside : b < k.nodes) :
    (builtEvents k.nodes trace).filter (fun index => index % k.nodes = b) =
      (List.range (roundsOf b trace)).map fun round => round * k.nodes + b := by
  induction run with
  | nil => rfl
  | @snoc trace s s' event before taken ih =>
    rw [builtEvents, builtAfter_append, List.filter_append, ← builtEvents, ih, List.nil_append]
    cases event with
    | readout node report => simp [builtBy, roundsOf]
    | deliver node i => simp [builtBy, roundsOf]
    | build node report =>
      have own : node < k.nodes := by
        cases taken
        assumption
      by_cases here : node = b
      · subst here
        rw [roundsOf_append, roundsOf_build, List.range_add, List.map_append, List.map_map]
        congr 1
        apply List.filter_eq_self.mpr
        intro index member
        obtain ⟨j, _, rfl⟩ := List.mem_map.mp member
        simp [Nat.mod_eq_of_lt own]
      · have other : roundsOf b [NetworkEvent.build node report] = 0 := by simp [roundsOf, here]
        have none : (builtBy k.nodes trace (.build node report)).filter
            (fun index => index % k.nodes = b) = [] := by
          apply List.filter_eq_nil_iff.mpr
          intro index member
          obtain ⟨j, _, rfl⟩ := List.mem_map.mp member
          simp [Nat.mod_eq_of_lt own, here]
        rw [none, roundsOf_append, other, List.append_nil, Nat.add_zero]

/-- In every run, no event is built twice, each builder unit builds its events in order and
without a gap, and when an event is built, the multievent of every node with its index had been
acquired, sent on the connection and delivered. -/
theorem events_built_once (run : Run k.Step k.start trace s) :
    (builtEvents k.nodes trace).Nodup ∧
      (∀ b < k.nodes, (builtEvents k.nodes trace).filter (fun index => index % k.nodes = b) =
        (List.range (roundsOf b trace)).map fun round => round * k.nodes + b) ∧
      ∀ index ∈ builtEvents k.nodes trace, ∀ node < k.nodes, ∃ i < k.nodes,
        k.peer (index % k.nodes) i = node ∧
        (acquisitions (reportsOf node trace))[index]? = some (k.multieventOf node index) ∧
        (s.wires (index % k.nodes) i).sent[index / k.nodes]? = some (k.multieventOf node index) ∧
        index / k.nodes < (s.wires (index % k.nodes) i).delivered := by
  obtain ⟨labels, reached, built⟩ := k.gathers_of_run run
  refine ⟨?_, fun b inside => k.builtEvents_filter run inside, ?_⟩
  · cases run with
    | nil => exact List.nodup_nil
    | snoc before taken =>
      have some : 0 < k.nodes := by
        cases taken <;> exact Nat.zero_lt_of_lt (by assumption)
      have : Nonempty (Fin k.nodes) := ⟨⟨0, some⟩⟩
      rw [← built]
      exact builtEvents_nodup reached
  · intro index member node own
    rw [← built] at member
    have stage := (mem_builtEvents reached ⟨node, own⟩).mp member
    have inside := Nat.mod_lt index (Nat.zero_lt_of_lt own)
    have released : index / k.nodes < roundsOf (index % k.nodes) trace := by
      unfold GatherCounts.stage at stage
      split_ifs at stage with released
      exact released
    obtain ⟨i, connection, rfl⟩ := k.exists_connection inside own
    have delivered := released.trans_le (((k.serving_run run _).released i connection).trans
      (s.wires _ i).reported_le)
    have message := List.getElem?_eq_getElem
      (delivered.trans_le (s.wires (index % k.nodes) i).delivered_le_sent)
    obtain ⟨acquired, origin⟩ := k.sent_multievent run inside connection message
    rw [Nat.div_add_mod'] at acquired origin
    exact ⟨i, connection, rfl, origin ▸ acquired, origin ▸ message, delivered⟩

theorem events_built_once_pair : ∃ trace s, Run pair.Step pair.start trace s ∧
    0 ∈ builtEvents 2 trace ∧ (builtEvents 2 trace).Nodup := by
  obtain ⟨s, report, s', run, taken, rounds⟩ := pair_built
  refine ⟨_, s', run.snoc taken, ?_, (events_built_once (run.snoc taken)).1⟩
  rw [builtEvents, builtAfter_append, builtBy, rounds]
  exact List.mem_append_right _ (List.mem_singleton.mpr rfl)

end Built

end Cluster

end Lseb
