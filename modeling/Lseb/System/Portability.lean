import Lseb.Foundation.Lockstep
import Lseb.System.Building

/-!
# The same runs over every transport

The transports check the regions of a post in different ways, report different
failures and blame different calls. Over connections that do no more than to
complete requests in progress, none of this matters: a node over one transport can
answer every turn of a node over another, and their states differ at most in the
regions that the sockets have registered.
-/

namespace Lseb

open Foundation PendingMap NetworkEvent

/-- A socket without the regions it has registered. -/
def Socket.unregistered (socket : Socket) : Socket := { socket with mMrs := [] }

section Sockets

variable {t t' : Transport} {cq : String} {read : CqRead} {batch : List ℕ}

/-- A poll takes the completed batch out of the table, whatever the transport. -/
theorem poll_lockstep (delivers : read.Delivers batch) :
    Lockstep (fun pending => pending) (t.poll cq read) (t'.poll cq read) := by
  intro pending pending' next next' iovs iovs' same first second
  obtain ⟨taken, took, rfl⟩ := poll_taken first
  obtain ⟨taken', took', rfl⟩ := poll_taken second
  rw [poll_batch delivers first, show pending = pending' from same] at took
  rw [poll_batch delivers second] at took'
  obtain ⟨rfl, rfl⟩ := Prod.mk.inj (Option.some.inj (took.symm.trans took'))
  exact ⟨rfl, rfl⟩

namespace Socket

variable {socket socket' next : Socket} {iovs : List Iovec} {iov : Iovec}
  {refused : Option String} {conns conns' : ℕ → Socket} {id : ℕ}

theorem unregistered_eq_iff : socket.unregistered = socket'.unregistered ↔
    socket.mCredits = socket'.mCredits ∧ socket.mPendingSend = socket'.mPendingSend ∧
      socket.mPendingRecv = socket'.mPendingRecv := by
  simp [unregistered]

theorem pollCompletedSend_lockstep (delivers : read.Delivers batch) :
    Lockstep unregistered (pollCompletedSend t read) (pollCompletedSend t' read) := by
  apply (poll_lockstep delivers).zoom
  · intro s s' same
    exact (unregistered_eq_iff.mp same).2.1
  · intro s s' pending pending' same (kept : pending = pending')
    obtain ⟨credits, _, receives⟩ := unregistered_eq_iff.mp same
    exact unregistered_eq_iff.mpr ⟨credits, kept, receives⟩

theorem pollCompletedRecv_lockstep (delivers : read.Delivers batch) :
    Lockstep unregistered (pollCompletedRecv t read) (pollCompletedRecv t' read) := by
  apply (poll_lockstep delivers).zoom
  · intro s s' same
    exact (unregistered_eq_iff.mp same).2.2
  · intro s s' pending pending' same (kept : pending = pending')
    obtain ⟨credits, sends, _⟩ := unregistered_eq_iff.mp same
    exact unregistered_eq_iff.mpr ⟨credits, sends, kept⟩

theorem postRecv_lockstep :
    Lockstep unregistered (postRecv t iov refused) (postRecv t' iov refused) := by
  intro s s' u u' _ _ same first second
  obtain ⟨_, _, _, _, rfl⟩ := postRecv_eq_ok.mp first
  obtain ⟨_, _, _, _, rfl⟩ := postRecv_eq_ok.mp second
  obtain ⟨credits, sends, receives⟩ := unregistered_eq_iff.mp same
  exact ⟨rfl, unregistered_eq_iff.mpr ⟨credits, sends, by simp only [receives]⟩⟩

/-- A poll that goes through on one transport does on another. -/
theorem pollCompletedSend_over (t' : Transport) (delivers : read.Delivers batch)
    (same : socket.unregistered = socket'.unregistered)
    (polled : socket.perform (pollCompletedSend t read) = .ok (iovs, next)) :
    ∃ next', socket'.perform (pollCompletedSend t' read) = .ok (iovs, next') ∧
      next.unregistered = next'.unregistered := by
  have part : (batch : Multiset ℕ) ≤ keySet socket'.mPendingSend := by
    rw [← (unregistered_eq_iff.mp same).2.1, (pollCompletedSend_polled delivers polled).2.keys]
    exact Multiset.le_add_right _ _
  obtain ⟨iovs', next', answered⟩ := pollCompletedSend_total (t := t') delivers part
  obtain ⟨rfl, kept⟩ := pollCompletedSend_lockstep delivers same (perform_eq_ok.mp polled)
    (perform_eq_ok.mp answered)
  exact ⟨next', answered, kept⟩

/-- A post that goes through on one transport does on another that knows the region. -/
theorem postSend_over (same : socket.unregistered = socket'.unregistered)
    (region : t'.checkMr socket'.mMrs iov = .ok ())
    (posted : socket.perform (postSend t iov refused) = .ok ((), next)) :
    ∃ next', socket'.perform (postSend t' iov refused) = .ok ((), next') ∧
      next.unregistered = next'.unregistered := by
  obtain ⟨credits, sends, receives⟩ := unregistered_eq_iff.mp same
  obtain ⟨room, _, accepted, fresh, rfl⟩ := postSend_eq_ok.mp posted
  rw [credits, sends] at room
  rw [sends] at fresh
  exact ⟨_, postSend_eq_ok.mpr ⟨room, region, accepted, fresh, rfl⟩,
    unregistered_eq_iff.mpr ⟨credits, by simp only [sends], receives⟩⟩

theorem registerMemory_unregistered {buffer size : ℕ} :
    (socket.registerMemory t buffer size).unregistered = socket.unregistered := by
  cases t <;> rfl

theorem unregistered_update (same : ∀ i, (conns i).unregistered = (conns' i).unregistered)
    (here : next.unregistered = socket'.unregistered) (i : ℕ) :
    (Function.update conns id next i).unregistered =
      (Function.update conns' id socket' i).unregistered := by
  simp only [Function.update_apply]
  split_ifs
  · exact here
  · exact same i

end Socket

end Sockets

section Readouts

variable {σ : Type} {t t' : Transport} {ru next : ReadoutUnit σ} {conns conns' : ℕ → Socket}
  {completions : ℕ → CqRead} {batch : ℕ → List ℕ} {seqId : ℕ} {released : List ℕ}
  {connAvail : Bool}

def ReadoutUnit.unregistered (ru : ReadoutUnit σ) : ReadoutUnit σ :=
  { ru with mConnectionIds := fun i => (ru.mConnectionIds i).unregistered }

namespace ReadoutUnit

/-- A unit that looks the same has other sockets at most. -/
theorem exists_connections {ru' : ReadoutUnit σ} (same : ru.unregistered = ru'.unregistered) :
    ∃ conns, ru' = { ru with mConnectionIds := conns } ∧
      ∀ i, (ru.mConnectionIds i).unregistered = (conns i).unregistered := by
  obtain ⟨accumulator, id, count, conns, order, position, iovs⟩ := ru
  obtain ⟨accumulator', id', count', conns', order', position', iovs'⟩ := ru'
  simp only [unregistered, mk.injEq] at same
  obtain ⟨rfl, rfl, rfl, kept, rfl, rfl, rfl⟩ := same
  exact ⟨conns', rfl, congrFun kept⟩

theorem pollConnections_over (t' : Transport) {ids : List ℕ} {connAvail' : Bool}
    {last : ℕ → Socket} (delivers : ∀ id, (completions id).Delivers (batch id))
    (same : ∀ i, (conns i).unregistered = (conns' i).unregistered)
    (polled : pollConnections t completions seqId ids connAvail conns =
      .ok (released, connAvail', last)) :
    ∃ last', pollConnections t' completions seqId ids connAvail conns' =
        .ok (released, connAvail', last') ∧
      ∀ i, (last i).unregistered = (last' i).unregistered := by
  induction ids generalizing connAvail conns conns' released with
  | nil =>
    cases polled
    exact ⟨conns', rfl, same⟩
  | cons id ids ih =>
    obtain ⟨⟨iovs, conn⟩, first, polled⟩ := bind_eq_ok.mp polled
    obtain ⟨⟨rest, avail, last⟩, later, polled⟩ := bind_eq_ok.mp polled
    cases polled
    obtain ⟨conn', first', here⟩ :=
      Socket.pollCompletedSend_over t' (delivers id) (same id) first
    obtain ⟨credits, sends, _⟩ := Socket.unregistered_eq_iff.mp here
    have credit : conn.availableSend = conn'.availableSend := by
      rw [Socket.availableSend, Socket.availableSend, credits, sends]
    obtain ⟨last', later', kept⟩ := ih (Socket.unregistered_update same here) later
    rw [credit] at later'
    exact ⟨last', bind_eq_ok.mpr ⟨_, first', bind_eq_ok.mpr ⟨_, later', rfl⟩⟩, kept⟩

/-- The order of sending does not depend on the sockets. -/
theorem incrementSeqIt_over (stepped : ru.incrementSeqIt = .ok next) :
    { ru with mConnectionIds := conns }.incrementSeqIt =
      .ok { next with mConnectionIds := conns } := by
  obtain ⟨atEnd, full, rfl⟩ | ⟨within, rfl⟩ := incrementSeqIt_cases stepped
  · rw [incrementSeqIt, if_pos atEnd, assertThat_of full]
    rfl
  · rw [incrementSeqIt, if_neg within]

theorem sendNext_over {refused : Option String} {posted : Option (ℕ × Iovec)}
    (same : ∀ i, (ru.mConnectionIds i).unregistered = (conns i).unregistered)
    (regions : ∀ iov, ru.iovToSend[seqId]? = some iov →
      t'.checkMr (conns seqId).mMrs iov = .ok ())
    (sent : sendNext t refused seqId connAvail ru = .ok (posted, next)) :
    ∃ next', sendNext t' refused seqId connAvail { ru with mConnectionIds := conns } =
        .ok (posted, next') ∧ next.unregistered = next'.unregistered := by
  unfold sendNext at sent ⊢
  split_ifs at sent ⊢ with ready
  · cases found : ru.iovToSend[seqId]? with
    | none => simp [found] at sent
    | some iov =>
      simp only [found] at sent ⊢
      obtain ⟨⟨_, conn⟩, first, sent⟩ := bind_eq_ok.mp sent
      obtain ⟨stepped, later, sent⟩ := bind_eq_ok.mp sent
      cases sent
      obtain ⟨conn', first', here⟩ := Socket.postSend_over (same seqId) (regions iov found) first
      have later' := @incrementSeqIt_over _
        { ru with mConnectionIds := Function.update ru.mConnectionIds seqId conn } _
        (Function.update conns seqId conn') later
      refine ⟨_, bind_eq_ok.mpr ⟨_, first', bind_eq_ok.mpr ⟨_, later', rfl⟩⟩, ?_⟩
      have sockets := incrementSeqIt_connections later
      simp only [unregistered, sockets, mk.injEq, true_and, and_true]
      exact funext (Socket.unregistered_update same here)
  · cases sent
    exact ⟨_, rfl, congrArg (fun conns => { ru with mConnectionIds := conns }) (funext same)⟩

end ReadoutUnit

section Turns

variable {block blocks id nodes credits : ℕ} {length : ℕ → ℕ} {metadata : MetaDataMemory}
  {t t' : Transport} {dataRange : Range} {ledger : Ledger block blocks}
  {unit next : ReadoutUnit Accumulator} {conns : ℕ → Socket} {inFlight : ℕ → Multiset ℕ}
  {acquired : List Iovec} {posts : List (ℕ × Iovec)} {due : ℕ → ℕ} {reads : ℕ → CqRead}
  {batch : ℕ → List ℕ} {report : ReadoutReport}

/-- A turn over one transport is answered by the same turn over another, in whose sockets
the memory of the events is registered. -/
theorem Custody.iteration_over (laid : WellLaid metadata length (block * blocks))
    (positive : 0 < block)
    (room : ∑ slot ∈ Finset.range (block * blocks), length slot ≤
      dataRange.mEnd - dataRange.mBegin)
    (ordered : dataRange.mBegin ≤ dataRange.mEnd) (own : id < nodes)
    (custody : Custody { unit with mConnectionIds := conns } inFlight t' id nodes credits dataRange
      ledger length acquired posts)
    (carried : Carried ⟨{ unit with mConnectionIds := conns }, inFlight⟩ reads batch)
    (same : ∀ i, (unit.mConnectionIds i).unregistered = (conns i).unregistered)
    (turned : unit.iteration (accumulatorSource metadata) t ⟨due, reads, none⟩ =
      .ok (report, next)) :
    ∃ next', { unit with mConnectionIds := conns }.iteration (accumulatorSource metadata) t'
        ⟨due, reads, none⟩ = .ok (report, next') ∧ next.unregistered = next'.unregistered := by
  obtain ⟨seqId, acc₁, acc₂, connAvail, conns₁, front, hacquire, hpoll, hrelease, hsend⟩ :=
    ReadoutUnit.iteration_eq_ok turned
  have here : unit.idSequence[unit.seqIt]? = some (turnConnection id nodes posts.length) :=
    custody.seqId own
  obtain rfl := Option.some.inj (here.symm.trans front)
  obtain ⟨conns₂, hpoll', polled⟩ :=
    ReadoutUnit.pollConnections_over t' carried.delivers same hpoll
  obtain ⟨ledger', served, _⟩ := custody.serve laid positive own carried hacquire hpoll' hrelease
  have regions : ∀ iov, (unit.iovToSend ++ report.acquired)[turnConnection id nodes
      posts.length]? = some iov →
        t'.checkMr (conns₂ (turnConnection id nodes posts.length)).mMrs iov = .ok () :=
    fun iov found => served.checkMr room ordered (served.toSend_acquired found) _
  obtain ⟨next', hsend', kept⟩ := ReadoutUnit.sendNext_over polled regions hsend
  refine ⟨next', ?_, kept⟩
  simp only [ReadoutUnit.iteration, front, hacquire, ok_bind, hpoll', hrelease]
  rw [hsend']
  rfl

variable {s s' last : ReadoutSystem}

def ReadoutSystem.unregistered (s : ReadoutSystem) : ReadoutSystem :=
  { s with unit := s.unit.unregistered }

theorem Custody.turn_over (laid : WellLaid metadata length (block * blocks))
    (positive : 0 < block)
    (room : ∑ slot ∈ Finset.range (block * blocks), length slot ≤
      dataRange.mEnd - dataRange.mBegin)
    (ordered : dataRange.mBegin ≤ dataRange.mEnd) (own : id < nodes)
    (custody : Custody s'.unit s'.inFlight t' id nodes credits dataRange ledger length acquired
      posts)
    (same : s.unregistered = s'.unregistered) (taken : CarriedTurn metadata t s report last) :
    ∃ last', CarriedTurn metadata t' s' report last' ∧ last.unregistered = last'.unregistered := by
  obtain ⟨unit', inFlight'⟩ := s'
  cases taken with
  | @turn due reads batch _ next carried turned =>
    obtain ⟨unit, inFlight⟩ := s
    obtain ⟨alike, rfl⟩ := ReadoutSystem.mk.inj same
    obtain ⟨conns, rfl, sockets⟩ := ReadoutUnit.exists_connections alike
    have carried' : Carried ⟨{ unit with mConnectionIds := conns }, inFlight⟩ reads batch :=
      ⟨carried.delivers, carried.carried⟩
    obtain ⟨next', turned', kept⟩ :=
      custody.iteration_over laid positive room ordered own carried' sockets turned
    refine ⟨_, .turn carried' turned', ?_⟩
    simp only [ReadoutSystem.unregistered, ReadoutSystem.advance, kept]

end Turns

end Readouts

section Builders

variable {t t' : Transport} {read : CqRead} {batch : List ℕ} {id n : ℕ}

def BuilderUnit.unregistered (bu : BuilderUnit) : BuilderUnit :=
  { bu with mConnectionIds := fun i => (bu.mConnectionIds i).unregistered }

namespace BuilderUnit

theorem unregistered_eq_iff {bu bu' : BuilderUnit} : bu.unregistered = bu'.unregistered ↔
    ∃ conns, bu' = { bu with mConnectionIds := conns } ∧
      ∀ i, (bu.mConnectionIds i).unregistered = (conns i).unregistered := by
  constructor
  · intro same
    obtain ⟨conns, count, data, nodes, bulk, credits, fragment, memory⟩ := bu
    obtain ⟨conns', count', data', nodes', bulk', credits', fragment', memory'⟩ := bu'
    simp only [unregistered, mk.injEq] at same
    obtain ⟨kept, rfl, rfl, rfl, rfl, rfl, rfl, rfl⟩ := same
    exact ⟨conns', rfl, congrFun kept⟩
  · rintro ⟨conns, rfl, same⟩
    exact congrArg (fun conns => { bu with mConnectionIds := conns }) (funext same)

theorem onConn_lockstep {α : Type} {x y : EStateM Error Socket α}
    (inner : Lockstep Socket.unregistered x y) :
    Lockstep unregistered (onConn id x) (onConn id y) := by
  apply inner.zoom
  · intro bu bu' same
    obtain ⟨conns, rfl, kept⟩ := unregistered_eq_iff.mp same
    exact kept id
  · intro bu bu' conn conn' same here
    obtain ⟨conns, rfl, kept⟩ := unregistered_eq_iff.mp same
    exact unregistered_eq_iff.mpr ⟨_, rfl, Socket.unregistered_update kept here⟩

/-- Where a builder unit is read, the two differ in their sockets. -/
theorem get_lockstep {α : Type} {f g : BuilderUnit → BuilderM α}
    (rest : ∀ bu conns, (∀ i, (bu.mConnectionIds i).unregistered = (conns i).unregistered) →
      Lockstep unregistered (f bu) (g { bu with mConnectionIds := conns })) :
    Lockstep unregistered (get >>= f) (get >>= g) := by
  apply Lockstep.get_bind
  intro bu bu' same
  obtain ⟨conns, rfl, sockets⟩ := unregistered_eq_iff.mp same
  exact rest bu conns sockets

theorem setData_lockstep {data : BuilderUnit → List Iovec}
    (same : ∀ bu conns, data { bu with mConnectionIds := conns } = data bu) :
    Lockstep unregistered (modify fun bu => bu.setData id (data bu) : BuilderM Unit)
      (modify fun bu => bu.setData id (data bu)) := by
  apply Lockstep.modify
  intro bu bu' alike
  obtain ⟨conns, rfl, kept⟩ := unregistered_eq_iff.mp alike
  rw [same bu conns]
  exact unregistered_eq_iff.mpr ⟨conns, rfl, kept⟩

theorem readData_lockstep (delivers : read.Delivers batch) :
    Lockstep unregistered (readData t read id) (readData t' read id) := by
  unfold readData
  apply get_lockstep
  intro bu conns _
  apply (onConn_lockstep (Socket.pollCompletedRecv_lockstep delivers)).bind
  intro newData
  have counted : Lockstep unregistered
      (do return ((← get).mDataVect id).length - (bu.mDataVect id).length : BuilderM ℕ)
      (do return ((← get).mDataVect id).length - (bu.mDataVect id).length) := by
    apply get_lockstep
    intro bu conns _
    exact Lockstep.pure _
  split_ifs
  · exact (setData_lockstep fun _ _ => rfl).bind fun _ => counted
  · exact counted

theorem postChunks_lockstep {chunkSize k : ℕ} {refused : ℕ → Option String} {bases : List ℕ} :
    Lockstep unregistered (postChunks t id chunkSize refused k bases)
      (postChunks t' id chunkSize refused k bases) := by
  induction bases generalizing k with
  | nil => exact Lockstep.pure _
  | cons base rest ih => exact (onConn_lockstep Socket.postRecv_lockstep).bind fun _ => ih

theorem releaseData_lockstep {refused : ℕ → Option String} :
    Lockstep unregistered (releaseData t refused id n) (releaseData t' refused id n) := by
  unfold releaseData
  apply get_lockstep
  intro bu conns _
  apply (Lockstep.attempt rfl).bind
  intro _
  apply (setData_lockstep fun _ _ => rfl).bind
  intro _
  apply get_lockstep
  intro bu conns _
  exact postChunks_lockstep.bind fun _ => Lockstep.pure _

theorem release_lockstep {refused : ℕ → ℕ → Option String} {ids : List ℕ} :
    Lockstep unregistered (release t refused n ids) (release t' refused n ids) := by
  induction ids with
  | nil => exact Lockstep.pure _
  | cons i rest ih => exact releaseData_lockstep.bind fun _ => ih

theorem acquire_lockstep {completions : ℕ → CqRead} {batch : ℕ → List ℕ} {minWrs : ℕ}
    {ids : List ℕ} (delivers : ∀ i, (completions i).Delivers (batch i)) :
    Lockstep unregistered (acquire t completions minWrs ids)
      (acquire t' completions minWrs ids) := by
  induction ids generalizing minWrs with
  | nil => exact Lockstep.pure _
  | cons i rest ih =>
    apply (readData_lockstep (delivers i)).bind
    intro _
    apply get_lockstep
    intro bu conns _
    exact ih

theorem build_lockstep {memory : Memory} {refused : ℕ → ℕ → Option String} {minWrs : ℕ} :
    Lockstep unregistered (build t memory refused minWrs) (build t' memory refused minWrs) := by
  unfold build
  split_ifs
  · apply get_lockstep
    intro bu conns _
    apply (Lockstep.attempt rfl).bind
    intro checked
    have released : Lockstep unregistered
        (do release t refused minWrs (List.range (← get).connections) : BuilderM Unit)
        (do release t' refused minWrs (List.range (← get).connections)) := by
      apply get_lockstep
      intro bu conns _
      exact release_lockstep
    split_ifs
    · exact (Lockstep.throw _ _).bind fun _ => released
    · exact released
  · exact Lockstep.pure _

theorem iteration_lockstep {input : BuilderInput} {batch : ℕ → List ℕ}
    (delivers : ∀ i, (input.completions i).Delivers (batch i)) :
    Lockstep unregistered (iteration t input) (iteration t' input) := by
  unfold iteration
  apply get_lockstep
  intro bu conns _
  apply (acquire_lockstep delivers).bind
  intro minWrs
  apply get_lockstep
  intro bu conns _
  exact build_lockstep.bind fun _ => Lockstep.pure _

theorem accept_lockstep {refused : ℕ → Option String} :
    Lockstep unregistered (accept t refused id) (accept t' refused id) := by
  unfold accept
  apply get_lockstep
  intro bu conns kept
  refine Lockstep.bind (Lockstep.set ?_) fun _ => postChunks_lockstep
  refine unregistered_eq_iff.mpr ⟨_, rfl, Socket.unregistered_update kept ?_⟩
  rw [Socket.registerMemory_unregistered, Socket.registerMemory_unregistered]

theorem connect_lockstep {refused : ℕ → ℕ → Option String} {endpoints : ℕ} :
    Lockstep unregistered (connect t refused endpoints) (connect t' refused endpoints) := by
  unfold connect
  induction List.range endpoints with
  | nil => exact Lockstep.pure _
  | cons i rest ih => exact accept_lockstep.bind fun _ => ih

end BuilderUnit

end Builders

section Nodes

/-- The state of all nodes without the regions that their sockets have registered. -/
def Network.unregistered (s : Network) : Network :=
  { s with
    readout := fun node => (s.readout node).unregistered
    builder := fun node => (s.builder node).unregistered }

theorem Network.unregistered_eq_iff {s s' : Network} : s.unregistered = s'.unregistered ↔
    (∀ node, (s.readout node).unregistered = (s'.readout node).unregistered) ∧
    (∀ node, (s.builder node).unregistered = (s'.builder node).unregistered) ∧
      s.memory = s'.memory ∧ s.wires = s'.wires := by
  simp only [unregistered, mk.injEq, funext_iff]

namespace Cluster

variable {k : Cluster} {t : Transport} {trace : List NetworkEvent} {s s' next : Network}
  {event : NetworkEvent}

/-- The same nodes, built with another transport. -/
def withTransport (k : Cluster) (t : Transport) : Cluster := { k with transport := t }

theorem start_over : k.start.unregistered = (k.withTransport t).start.unregistered := by
  apply Network.unregistered_eq_iff.mpr
  refine ⟨fun node => ?_, fun node => ?_, rfl, rfl⟩
  · simp only [start, withTransport, Configuration.readoutStart, ReadoutSystem.start,
      ReadoutUnit.start, ReadoutSystem.unregistered, ReadoutUnit.unregistered, Socket.connected,
      Socket.registerMemory_unregistered]
  · obtain ⟨bu, accepted, _⟩ := BuilderUnit.connect_total k.transport k.chunkSize_pos
    obtain ⟨bu', accepted', _⟩ := BuilderUnit.connect_total t k.chunkSize_pos
    exact BuilderUnit.connect_lockstep.final rfl accepted accepted'

/-- Whatever happens to nodes over one transport can happen to nodes over another. -/
theorem Step.withTransport
    (run' : Run (k.withTransport t).Step (k.withTransport t).start trace s')
    (same : s.unregistered = s'.unregistered) (taken : k.Step s event next) :
    ∃ next', (k.withTransport t).Step s' event next' ∧
      next.unregistered = next'.unregistered := by
  obtain ⟨readouts, builders, memory, wires⟩ := Network.unregistered_eq_iff.mp same
  obtain ⟨readout', builder', memory', wires'⟩ := s'
  -- what the two nodes share is the memory of the builder units and the connections
  subst memory wires
  cases taken with
  | @readout node report last inside turned =>
    obtain ⟨ledger, custody⟩ := Configuration.custody_of_run inside (k.built _ inside)
      ((k.withTransport t).readout_run run' node)
    obtain ⟨last', turned', kept⟩ := custody.turn_over
      (Configuration.wellLaid_of_built (k.built _ inside)) k.configuration.bulkSize_pos
      (Configuration.lengths_room _ _) (Nat.le_add_right _ _) inside (readouts node) turned
    refine ⟨_, @Step.readout (k.withTransport t) ⟨readout', builder', _, _⟩ _ _ _ inside turned',
      Network.unregistered_eq_iff.mpr ⟨fun other => ?_, builders, rfl, rfl⟩⟩
    simp only [Function.update_apply]
    split_ifs
    · exact kept
    · exact readouts other
  | @deliver node i inside connection message buffer =>
    refine ⟨_, @Step.deliver (k.withTransport t) ⟨readout', builder', _, _⟩ node i inside
      connection message buffer, ?_⟩
    exact Network.unregistered_eq_iff.mpr ⟨readouts, builders, rfl, rfl⟩
  | @build node completions count report unit inside inTime delivers turned =>
    obtain ⟨report', unit', turned'⟩ :=
      ((k.withTransport t).turns_total run' inside).2 _ _ inTime delivers
    obtain ⟨rfl, kept⟩ :=
      BuilderUnit.iteration_lockstep delivers (builders node) turned turned'
    refine ⟨_, @Step.build (k.withTransport t) ⟨readout', builder', _, _⟩ _ _ _ _ _ inside inTime
      delivers turned', Network.unregistered_eq_iff.mpr ⟨readouts, fun other => ?_, rfl, rfl⟩⟩
    simp only [Function.update_apply]
    split_ifs
    · exact kept
    · exact builders other

/-- Every run of nodes over one transport is a run of nodes over any other, event for
event: the states differ at most in the regions that the sockets have registered. -/
theorem runs_over (t : Transport) (run : Run k.Step k.start trace s) :
    ∃ s', Run (k.withTransport t).Step (k.withTransport t).start trace s' ∧
      s.unregistered = s'.unregistered :=
  run.lockstep k.start_over fun _ _ _ _ _ _ run' same taken => taken.withTransport run' same

/-- The pair builds its first round over TCP as well, where no region is registered. -/
theorem runs_over_pair : ∃ trace s, Run pair.Step pair.start trace s ∧ roundsOf 0 trace = 1 ∧
    ∃ s', Run (pair.withTransport .fiTcp).Step (pair.withTransport .fiTcp).start trace s' ∧
      s.unregistered = s'.unregistered := by
  obtain ⟨s, report, s', run, taken, rounds⟩ := pair_built
  have built := run.snoc taken
  refine ⟨_, s', built, ?_, runs_over .fiTcp built⟩
  rw [roundsOf_append, roundsOf_build, rounds]
  rfl

end Cluster

end Nodes

end Lseb
