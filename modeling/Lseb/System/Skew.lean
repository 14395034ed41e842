import Lseb.System.Progress

/-!
# How far builder units drift apart

A readout unit serves its connections in turn, so it never sends one builder
unit more than a message more than another. Where a send only completes after its
message has arrived, the credits of both sides bound what is underway to the
slowest one, and with that how far any other can be ahead.
-/

namespace Lseb

open Foundation NetworkEvent ReadoutReport PendingMap

section Credits

variable {block blocks id nodes credits : ℕ} {length : ℕ → ℕ} {metadata : MetaDataMemory}
  {t : Transport} {dataRange : Range} {ledger : Ledger block blocks} {s s' : ReadoutSystem}
  {acquired : List Iovec} {posts : List (ℕ × Iovec)} {report : ReadoutReport}

/-- A post needs a credit that is left after the poll. -/
theorem Custody.inFlight_le (own : id < nodes)
    (custody : Custody s.unit s.inFlight t id nodes credits dataRange ledger length
      acquired posts)
    (taken : CarriedTurn metadata t s report s') (connection : ℕ)
    (bounded : (s.inFlight connection).card ≤ credits) :
    (s'.inFlight connection).card ≤ credits := by
  cases taken with
  | @turn due reads batch _ unit carried turned =>
    obtain ⟨seqId, acc₁, acc₂, connAvail, conns, front, _, hpoll, _, hsend⟩ :=
      ReadoutUnit.iteration_eq_ok turned
    rw [custody.seqId own] at front
    obtain rfl := Option.some.inj front
    have fewer : (s.inFlight connection - batch connection).card ≤ credits :=
      (Multiset.card_le_card (Multiset.sub_le_self _ _)).trans bounded
    rw [ReadoutSystem.advance_inFlight, Multiset.card_add]
    obtain ⟨nothing, _⟩ | ⟨iov, conn, _, _, hpost, _, posted⟩ := ReadoutUnit.sendNext_cases hsend
    · rw [ReadoutReport.postedOn, nothing]
      simpa using fewer
    · by_cases served : turnConnection id nodes posts.length = connection
      · obtain ⟨_, polled, _⟩ :=
          ReadoutUnit.pollConnections_polled carried.delivers custody.nodup hpoll
        have here := polled _ (custody.mem_iff.mpr
          (@turnConnection_lt id nodes posts.length (Nat.zero_lt_of_lt own)))
        have credit := (Socket.postSend_eq_ok.mp hpost).1
        dsimp only at credit
        rw [here.credits, (custody.sockets _).1, size_eq_card] at credit
        have left : s.inFlight connection - batch connection =
            keySet (conns connection).mPendingSend := by
          rw [custody.inFlight, ← served, here.keys, add_tsub_cancel_left]
        rw [ReadoutReport.postedOn, posted, left]
        simp only [served, if_true, Multiset.card_singleton] at credit ⊢
        exact credit
      · rw [ReadoutReport.postedOn, posted]
        simpa [served] using fewer

end Credits

/-- Whose turn is over in a cycle is one turn ahead. -/
theorem ReadoutUnit.turnsOf_le {id nodes connection turns : ℕ} :
    turnsOf id nodes connection turns ≤ turns / nodes + 1 := by
  unfold turnsOf
  split_ifs <;> omega

namespace Cluster

variable {k : Cluster} {trace : List NetworkEvent} {s : Network} {node b b' i i' : ℕ}

/-- On each connection, a readout unit has at most one send in flight per credit. -/
theorem inFlight_le (run : Run k.Step k.start trace s) (inside : node < k.nodes) (connection : ℕ) :
    ((s.readout node).inFlight connection).card ≤ k.configuration.credits := by
  have alone := k.readout_run run node
  generalize reportsOf node trace = reports at alone
  generalize s.readout node = system at alone
  induction alone with
  | nil => exact Nat.zero_le _
  | snoc before taken ih =>
    obtain ⟨ledger, custody⟩ :=
      Configuration.custody_of_run inside (k.built _ inside) before
    exact custody.inFlight_le inside taken connection ih

/-- What a readout unit sent to one builder unit, it sent to any other, but for one message. -/
theorem sent_skew (run : Run k.Step k.start trace s) (inside : b < k.nodes) (inside' : b' < k.nodes)
    (connection : i < k.nodes) (connection' : i' < k.nodes) (same : k.peer b i = k.peer b' i') :
    (s.wires b' i').sent.length ≤ (s.wires b i).sent.length + 1 := by
  rw [k.sent_length run inside connection, k.sent_length run inside' connection', same]
  exact ReadoutUnit.turnsOf_le.trans (Nat.succ_le_succ ReadoutUnit.div_le_turnsOf)

/-- No send has completed before its message arrived. -/
def Acknowledged (k : Cluster) (s : Network) : Prop :=
  ∀ b < k.nodes, ∀ i < k.nodes, (s.wires b i).sent.length ≤
    (s.wires b i).delivered + ((s.readout (k.peer b i)).inFlight b).card

/-- In every state reached, a builder unit has released at most one round more than every
readout unit has sent to any other; and at most two rounds per credit and one more than
any other has released, unless a send completed before its message arrived. -/
theorem rounds_skew (run : Run k.Step k.start trace s) (inside : b < k.nodes)
    (inside' : b' < k.nodes) :
    (∀ i < k.nodes, roundsOf b' trace ≤ (s.wires b i).sent.length + 1) ∧
      (k.Acknowledged s →
        roundsOf b' trace ≤ roundsOf b trace + (2 * k.configuration.credits + 1)) := by
  have ahead : ∀ i < k.nodes, roundsOf b' trace ≤ (s.wires b i).sent.length + 1 := by
    intro i connection
    obtain ⟨i', connection', peer⟩ :=
      k.exists_connection inside' (k.peer_lt b inside i connection)
    have released := (k.serving_run run b').released i' connection'
    have reported := (s.wires b' i').reported_le
    have delivered := (s.wires b' i').delivered_le_sent
    have skew := k.sent_skew run inside inside' connection connection' peer.symm
    omega
  refine ⟨ahead, fun acknowledged => ?_⟩
  have own : 0 < k.nodes := Nat.zero_lt_of_lt inside
  have first := ahead 0 own
  have underway := acknowledged b inside 0 own
  have credits := k.inFlight_le run (k.peer_lt b inside 0 own) b
  have posted := k.posted_length run (b := b) own
  have delivered := (s.wires b 0).delivered_le_posted
  omega

/-- After the first post of node 0, its send to node 1 is in flight. -/
theorem rounds_skew_pair : ∃ trace s, Run pair.Step pair.start trace s ∧ pair.Acknowledged s ∧
    (s.wires 1 0).sent = [⟨64, 64⟩] ∧ roundsOf 1 trace ≤ roundsOf 0 trace + 3 := by
  have taken : pair.Step pair.start
      (.readout 0 ⟨[⟨0, 64⟩, ⟨64, 64⟩], [], some (1, ⟨64, 64⟩)⟩) _ :=
    .readout (by decide) (quiet_turn (fun _ => 2) rfl)
  refine ⟨_, _, .single taken, ?acknowledged, rfl,
    (rounds_skew (.single taken) (by decide) (by decide)).2 ?acknowledged⟩
  intro b (inside : b < 2) i (connection : i < 2)
  interval_cases b <;> interval_cases i <;> decide

end Cluster

end Lseb
