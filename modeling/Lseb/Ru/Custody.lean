import Mathlib.Tactic.Abel
import Lseb.Ru.Acquisition
import Lseb.Ru.AccumulatorRuns
import Lseb.Ru.Assignment
import Lseb.Ru.Polling

/-!
# Where an acquired multievent is

Between its acquisition and the release of its memory, a multievent waits for
its turn, is in flight on one connection, or is completed. The invariant
accounts for the entries of the queue that are not completed, by address: they
are those of the unsent multievents of the cycle and of all tables of pending
sends together. Sends in flight are tracked apart from the tables; the fabric
completes each of them once, in any order and in batches of any size.
-/

namespace Lseb

open Foundation PendingMap

namespace ReadoutUnit

variable {σ : Type} {ru ru' : ReadoutUnit σ} {id nodes : ℕ} {acquired : List Iovec}
  {posts : List (ℕ × Iovec)}

/-- The multievents of the current cycle that still wait for their turn. -/
def unsent (ru : ReadoutUnit σ) : List Iovec :=
  (ru.idSequence.drop ru.seqIt).flatMap fun connection => (ru.iovToSend[connection]?).toList

/-- The addresses pending on the connections. -/
def pendingKeys (ru : ReadoutUnit σ) : List ℕ :=
  ru.idSequence.flatMap fun connection => (ru.mConnectionIds connection).mPendingSend.keys

theorem Assigned.nodup (assigned : ru.Assigned id nodes acquired posts) : ru.idSequence.Nodup := by
  rw [assigned.sequence]
  exact (createSequence_perm id nodes).nodup_iff.mpr List.nodup_range

theorem Assigned.mem_iff (assigned : ru.Assigned id nodes acquired posts) {connection : ℕ} :
    connection ∈ ru.idSequence ↔ connection < nodes := by
  rw [assigned.sequence, (createSequence_perm id nodes).mem_iff, List.mem_range]

/-- A position that is not filled yet has not had its turn. -/
theorem Assigned.remaining (assigned : ru.Assigned id nodes acquired posts) (own : id < nodes)
    {connection : ℕ} (beyond : ru.iovToSend.length ≤ connection) (inside : connection < nodes) :
    connection ∈ ru.idSequence.drop ru.seqIt := by
  have position := cyclePosition_lt own inside
  have later : ru.seqIt ≤ cyclePosition id nodes connection := by
    by_contra served
    rw [assigned.position, not_le] at served
    obtain ⟨quotient, remainder⟩ := @turn_of_cycle nodes posts.length _ position
    have before : posts.length / nodes * nodes + cyclePosition id nodes connection <
        posts.length := by
      have := Nat.div_add_mod' posts.length nodes
      omega
    obtain ⟨_, _, origin⟩ := assigned.posts _ before
    have filled := (List.getElem?_eq_some_iff.mp origin).1
    rw [turnIndex, quotient, (turnConnection_eq_iff own inside).mpr remainder] at filled
    rw [assigned.sent, List.length_drop] at beyond
    omega
  have found : (ru.idSequence.drop ru.seqIt)[cyclePosition id nodes connection - ru.seqIt]? =
      some connection := by
    rw [List.getElem?_drop, Nat.add_sub_cancel' later, assigned.sequence, createSequence_eq own,
      List.getElem?_map, List.getElem?_range position, Option.map_some,
      (cyclePosition_unique own inside position).mpr rfl]
  exact List.mem_of_getElem? found

theorem Assigned.unsent_acquire {fresh : List Iovec}
    (assigned : ru.Assigned id nodes acquired posts) (accumulator : σ) (conns : ℕ → Socket)
    (own : id < nodes) (bounded : ru.iovToSend.length + fresh.length ≤ nodes) :
    (({ ru with
        mAccumulator := accumulator
        mConnectionIds := conns
        iovToSend := ru.iovToSend ++ fresh } : ReadoutUnit σ).unsent : Multiset Iovec) =
      ru.unsent + fresh :=
  coe_flatMap_getElem?_append (assigned.nodup.sublist (List.drop_sublist _ _)) fresh
    fun _ above below => assigned.remaining own above (by omega)

/-- A post takes the first of the unsent multievents. -/
theorem Assigned.unsent_post (assigned : ru.Assigned id nodes acquired posts) (own : id < nodes)
    {conns : ℕ → Socket} {iov : Iovec}
    (found : ru.iovToSend[turnConnection id nodes posts.length]? = some iov)
    (stepped : ({ ru with mConnectionIds := conns } : ReadoutUnit σ).incrementSeqIt = .ok ru') :
    ru.unsent = iov :: ru'.unsent := by
  obtain ⟨inside, front⟩ := List.getElem?_eq_some_iff.mp (assigned.seqId own)
  have split : ru.unsent = iov :: (ru.idSequence.drop (ru.seqIt + 1)).flatMap
      fun connection => (ru.iovToSend[connection]?).toList := by
    rw [unsent, List.drop_eq_getElem_cons inside, front, List.flatMap_cons, found]
    rfl
  rw [split]
  obtain ⟨last, _, rfl⟩ | ⟨_, rfl⟩ := incrementSeqIt_cases stepped
  · rw [show ru.seqIt + 1 = ru.idSequence.length from last, List.drop_length]
    simp [unsent]
  · rfl

end ReadoutUnit

/-- A readout unit with the sends in flight on each connection. -/
structure ReadoutSystem where
  unit : ReadoutUnit Accumulator
  inFlight : ℕ → Multiset ℕ

/-- The state of a node that has just connected. -/
def ReadoutSystem.start (t : Transport) (accumulator : Accumulator) (dataRange : Range)
    (credits id nodes : ℕ) : ReadoutSystem :=
  ⟨.start t accumulator dataRange credits id nodes, fun _ => 0⟩

/-- The address that a turn put in flight on a connection. -/
def ReadoutReport.postedOn (report : ReadoutReport) (connection : ℕ) : Multiset ℕ :=
  match report.posted with
  | some (target, iov) => if target = connection then {iov.iovBase} else 0
  | none => 0

/-- The state after a turn that completed a batch on each connection. -/
def ReadoutSystem.advance (s : ReadoutSystem) (batch : ℕ → List ℕ) (report : ReadoutReport)
    (unit : ReadoutUnit Accumulator) : ReadoutSystem where
  unit := unit
  inFlight connection := s.inFlight connection - batch connection + report.postedOn connection

@[simp] theorem ReadoutSystem.advance_unit {s : ReadoutSystem} {batch : ℕ → List ℕ}
    {report : ReadoutReport} {unit : ReadoutUnit Accumulator} :
    (s.advance batch report unit).unit = unit := rfl

@[simp] theorem ReadoutSystem.advance_inFlight {s : ReadoutSystem} {batch : ℕ → List ℕ}
    {report : ReadoutReport} {unit : ReadoutUnit Accumulator} (connection : ℕ) :
    (s.advance batch report unit).inFlight connection =
      s.inFlight connection - batch connection + report.postedOn connection := rfl

/-- Readings of a clock that has not run backwards. -/
structure ReadoutUnit.InTime (unit : ReadoutUnit Accumulator) (due : ℕ → ℕ) : Prop where
  mono : Monotone due
  later : unit.mAccumulator.mController.mGeneratedEvents ≤ due 0

/-- Completions of sends in flight. -/
structure Carried (s : ReadoutSystem) (reads : ℕ → CqRead) (batch : ℕ → List ℕ) : Prop where
  delivers : ∀ connection, (reads connection).Delivers (batch connection)
  carried : ∀ connection, (batch connection : Multiset ℕ) ≤ s.inFlight connection

/-- While nothing is in flight, nothing completes. -/
theorem Carried.flatMap_eq_nil {s : ReadoutSystem} {reads : ℕ → CqRead}
    {batch : ℕ → List ℕ} (carried : Carried s reads batch)
    (quiet : ∀ connection, s.inFlight connection = 0) (ids : List ℕ) : ids.flatMap batch = [] := by
  apply List.flatMap_eq_nil_iff.mpr
  intro connection _
  have none := carried.carried connection
  rw [quiet, Multiset.le_zero] at none
  exact Multiset.coe_eq_zero _ |>.mp none

/-- A turn over a fabric that accepts the post and completes sends in flight, at any
readings of the clock. -/
inductive CarriedTurn (metadata : MetaDataMemory) (t : Transport) :
    ReadoutSystem → ReadoutReport → ReadoutSystem → Prop where
  | turn {s : ReadoutSystem} {due : ℕ → ℕ} {reads : ℕ → CqRead} {batch : ℕ → List ℕ}
      {report : ReadoutReport} {unit : ReadoutUnit Accumulator}
      (carried : Carried s reads batch)
      (turned : s.unit.iteration (accumulatorSource metadata) t ⟨due, reads, none⟩ =
        .ok (report, unit)) :
      CarriedTurn metadata t s report (s.advance batch report unit)

section Invariant

variable {block blocks id nodes credits : ℕ} {length : ℕ → ℕ} {metadata : MetaDataMemory}
  {t : Transport} {dataRange : Range} {ledger : Ledger block blocks}
  {unit unit' : ReadoutUnit Accumulator} {inFlight : ℕ → Multiset ℕ} {acquired : List Iovec}
  {posts : List (ℕ × Iovec)}

/-- The books, the schedule and the whereabouts of every multievent fit together. -/
structure Custody (unit : ReadoutUnit Accumulator) (inFlight : ℕ → Multiset ℕ)
    (t : Transport) (id nodes credits : ℕ) (dataRange : Range) (ledger : Ledger block blocks)
    (length : ℕ → ℕ) (acquired : List Iovec) (history : List (ℕ × Iovec)) : Prop
    extends unit.Assigned id nodes acquired history where
  tracks : unit.mAccumulator.Tracks ledger dataRange.mBegin length
  origin : acquired =
    (List.range ledger.acquired).map (multievent dataRange.mBegin length block blocks)
  dealt : (acquired : Multiset Iovec) = history.map Prod.snd + unit.unsent
  places : (unit.mAccumulator.mIovMultievents.unmarked : Multiset ℕ) =
    (unit.unsent.map Iovec.iovBase : Multiset ℕ) + unit.pendingKeys
  inFlight : ∀ connection, inFlight connection =
    keySet (unit.mConnectionIds connection).mPendingSend
  idle : ∀ connection, nodes ≤ connection → (unit.mConnectionIds connection).mPendingSend = ∅
  lengths : ∀ connection key len,
    (unit.mConnectionIds connection).mPendingSend.lookup key = some len →
      ∃ index, multievent dataRange.mBegin length block blocks index = ⟨key, len⟩
  sockets : ∀ connection, (unit.mConnectionIds connection).mCredits = credits ∧
    (unit.mConnectionIds connection).mMrs = (Socket.connected t dataRange credits).mMrs

theorem start_custody {accumulator : Accumulator} (positive : 0 < block * blocks)
    (tracks : accumulator.Tracks (Ledger.start positive : Ledger block blocks) dataRange.mBegin
      length)
    (empty : accumulator.mIovMultievents = []) :
    Custody (.start t accumulator dataRange credits id nodes) (fun _ => 0) t id nodes credits
      dataRange (Ledger.start positive : Ledger block blocks) length [] [] := by
  have nothing : (Socket.connected t dataRange credits).mPendingSend = ∅ := by cases t <;> rfl
  have noKeys : (ReadoutUnit.start t accumulator dataRange credits id nodes).pendingKeys = [] := by
    apply List.flatMap_eq_nil_iff.mpr
    intro _ _
    simp only [ReadoutUnit.start, nothing]
    rfl
  have noneSent : (ReadoutUnit.start t accumulator dataRange credits id nodes).unsent = [] :=
    List.flatMap_eq_nil_iff.mpr fun _ _ => rfl
  refine ⟨ReadoutUnit.start_assigned t accumulator dataRange credits, tracks, rfl, ?_, ?_,
    ?_, fun _ _ => nothing, ?_, ?_⟩
  · rw [noneSent]
    rfl
  · rw [noKeys, noneSent]
    simp [ReadoutUnit.start, empty]
  · intro connection
    simp [ReadoutUnit.start, nothing]
  · intro connection key len pending
    simp [ReadoutUnit.start, nothing] at pending
  · intro connection
    cases t <;> exact ⟨rfl, rfl⟩

/-- The pending addresses split into those completed and those still pending. -/
theorem pendingKeys_polled {batch : ℕ → List ℕ} {conns : ℕ → Socket}
    (polled : ∀ connection ∈ unit.idSequence,
      (unit.mConnectionIds connection).Polled (conns connection) (batch connection)) :
    (unit.pendingKeys : Multiset ℕ) = (unit.idSequence.flatMap batch : Multiset ℕ) +
      (unit.idSequence.flatMap fun connection => (conns connection).mPendingSend.keys) :=
  coe_flatMap_add fun connection member => (polled connection member).keys

variable (custody : Custody unit inFlight t id nodes credits dataRange ledger length acquired
  posts)

include custody

/-- A socket's limits and its pending lengths, over one poll. -/
theorem Custody.polled {batch : ℕ → List ℕ} {conns : ℕ → Socket}
    (polled : ∀ connection ∈ unit.idSequence,
      (unit.mConnectionIds connection).Polled (conns connection) (batch connection))
    (outside : ∀ connection ∉ unit.idSequence,
      conns connection = unit.mConnectionIds connection) (connection : ℕ) :
    (conns connection).mCredits = credits ∧
      (conns connection).mMrs = (Socket.connected t dataRange credits).mMrs ∧
      ∀ key len, (conns connection).mPendingSend.lookup key = some len →
        ∃ index, multievent dataRange.mBegin length block blocks index = ⟨key, len⟩ := by
  obtain ⟨limit, regions⟩ := custody.sockets connection
  by_cases member : connection ∈ unit.idSequence
  · have here := polled connection member
    exact ⟨here.credits.trans limit, here.mrs.trans regions,
      fun key len pending => custody.lengths _ _ _ (here.lookup _ _ pending)⟩
  · rw [outside connection member]
    exact ⟨limit, regions, custody.lengths connection⟩

/-- The phases before the send keep the invariant. -/
theorem Custody.serve {due : ℕ → ℕ} {reads : ℕ → CqRead} {batch : ℕ → List ℕ} {fresh : List Iovec}
    {released : List ℕ} {acc₁ acc₂ : Accumulator} {connAvail : Bool} {conns : ℕ → Socket}
    (laid : WellLaid metadata length (block * blocks)) (positive : 0 < block) (own : id < nodes)
    (carried : Carried ⟨unit, inFlight⟩ reads batch)
    (hacquire : ReadoutUnit.acquire (accumulatorSource metadata) due
      (turnConnection id nodes posts.length + 1 - unit.iovToSend.length) 0
      unit.mAccumulator = .ok (fresh, acc₁))
    (hpoll : ReadoutUnit.pollConnections t reads (turnConnection id nodes posts.length)
      unit.idSequence false unit.mConnectionIds = .ok (released, connAvail, conns))
    (hrelease : ReadoutUnit.releaseCompleted (accumulatorSource metadata) released acc₁ =
      .ok acc₂) :
    ∃ ledger' : Ledger block blocks, Custody { unit with
        mAccumulator := acc₂
        mConnectionIds := conns
        iovToSend := unit.iovToSend ++ fresh }
        (fun connection => inFlight connection - batch connection) t id nodes credits dataRange
        ledger' length (acquired ++ fresh) posts ∧
      ledger'.acquired < ledger.released + blocks ∧
      (released = [] → ledger'.released = ledger.released) := by
  have connection := @turnConnection_lt id nodes posts.length (Nat.zero_lt_of_lt own)
  have count := ReadoutUnit.acquire_length_le hacquire
  have filled := custody.length_le
  obtain ⟨ledger₁, after, _⟩ :=
    ReadoutUnit.acquired_of_ok laid positive custody.tracks hacquire
  obtain ⟨rfl, polled, outside, _⟩ :=
    ReadoutUnit.pollConnections_polled carried.delivers custody.nodup hpoll
  obtain ⟨ledger₂, tracks, sameAcquired, sameGenerated, sameReleased, unmarked⟩ :=
    ReadoutUnit.releaseCompleted_tracks after.toTracks hrelease
  have sockets := custody.polled polled outside
  have unsent := custody.unsent_acquire acc₂ conns own (by omega : _ + fresh.length ≤ nodes)
  have below := ledger₁.outstanding_lt
  refine ⟨ledger₂, ⟨custody.toAssigned.acquire acc₂ conns own count, tracks, ?_, ?_, ?_, ?_, ?_,
    fun connection => (sockets connection).2.2,
    fun connection => ⟨(sockets connection).1, (sockets connection).2.1⟩⟩, ?_, ?_⟩
  · rw [sameAcquired, after.acquired, List.range_add, List.map_append, ← custody.origin]
    congr 1
    rw [← List.range'_eq_map_range]
    exact after.origin
  · rw [← Multiset.coe_add, custody.dealt, unsent, add_assoc]
  · have split := pendingKeys_polled polled
    have addresses := congrArg (Multiset.map Iovec.iovBase) unsent
    simp only [Multiset.map_add, Multiset.map_coe] at addresses
    apply add_left_cancel (a := (unit.idSequence.flatMap batch : Multiset ℕ))
    rw [← unmarked, after.unmarked, custody.places, split, addresses]
    simp only [ReadoutUnit.pendingKeys]
    abel
  · intro connection
    by_cases member : connection ∈ unit.idSequence
    · rw [custody.inFlight, (polled connection member).keys]
      exact add_tsub_cancel_left _ _
    · have idle := custody.idle connection (not_lt.mp (custody.mem_iff.not.mp member))
      have none : (batch connection : Multiset ℕ) ≤ 0 := by
        have part : (batch connection : Multiset ℕ) ≤ inFlight connection :=
          carried.carried connection
        rwa [custody.inFlight, idle, keySet_empty] at part
      rw [custody.inFlight]
      simp only [outside connection member, Multiset.le_zero.mp none]
      exact tsub_zero _
  · intro connection beyond
    have outer : connection ∉ unit.idSequence := custody.mem_iff.not.mpr (not_lt.mpr beyond)
    simp only [outside connection outer]
    exact custody.idle connection beyond
  · have := ledger₁.released_le
    have := after.released
    omega
  · intro nothing
    rw [sameReleased nothing, after.released]

/-- A post moves a multievent from the unsent ones to the table of its connection. -/
theorem Custody.post {iov : Iovec} {conn : Socket} (own : id < nodes)
    (found : unit.iovToSend[turnConnection id nodes posts.length]? = some iov)
    (posted : (unit.mConnectionIds (turnConnection id nodes posts.length)).perform
      (Socket.postSend t iov none) = .ok ((), conn))
    (stepped : ({ unit with
        mConnectionIds := Function.update unit.mConnectionIds
          (turnConnection id nodes posts.length) conn } : ReadoutUnit Accumulator).incrementSeqIt =
      .ok unit') :
    Custody unit' (fun connection => inFlight connection +
        if turnConnection id nodes posts.length = connection then {iov.iovBase} else 0) t id nodes
      credits dataRange ledger length acquired
      (posts ++ [(turnConnection id nodes posts.length, iov)]) := by
  have assigned := custody.toAssigned.post own found stepped
  have unsent := custody.unsent_post own found stepped
  obtain ⟨_, _, _, fresh, rfl⟩ := Socket.postSend_eq_ok.mp posted
  have target := @turnConnection_lt id nodes posts.length (Nat.zero_lt_of_lt own)
  have origin : acquired[turnIndex id nodes posts.length]? = some iov := by
    rw [custody.sent, List.getElem?_drop] at found
    exact found
  have sameAccumulator : unit'.mAccumulator = unit.mAccumulator := by
    obtain ⟨_, _, rfl⟩ | ⟨_, rfl⟩ := ReadoutUnit.incrementSeqIt_cases stepped <;> rfl
  have sameSequence : unit'.idSequence = unit.idSequence := by
    obtain ⟨_, _, rfl⟩ | ⟨_, rfl⟩ := ReadoutUnit.incrementSeqIt_cases stepped <;> rfl
  have conns : unit'.mConnectionIds = Function.update unit.mConnectionIds
      (turnConnection id nodes posts.length) _ := ReadoutUnit.incrementSeqIt_connections stepped
  generalize turnConnection id nodes posts.length = seqId at *
  have served : unit'.mConnectionIds seqId = { unit.mConnectionIds seqId with
      mPendingSend := (unit.mConnectionIds seqId).mPendingSend.insert iov.iovBase iov.iovLen } := by
    rw [conns, Function.update_self]
  have others : ∀ connection, connection ≠ seqId →
      unit'.mConnectionIds connection = unit.mConnectionIds connection := by
    intro connection differs
    rw [conns, Function.update_of_ne differs]
  refine ⟨assigned, ?_, custody.origin, ?_, ?_, ?_, ?_, ?_, ?_⟩
  · rw [sameAccumulator]
    exact custody.tracks
  · rw [custody.dealt, unsent, List.map_append, List.map_singleton, ← Multiset.coe_add,
      add_assoc]
    rfl
  · have grown : (unit'.pendingKeys : Multiset ℕ) = iov.iovBase ::ₘ unit.pendingKeys := by
      rw [ReadoutUnit.pendingKeys, sameSequence]
      apply coe_flatMap_cons custody.nodup (custody.mem_iff.mpr target)
      · rw [served]
        exact keySet_insert fresh _
      · intro connection _ differs
        rw [others connection differs]
    rw [sameAccumulator, custody.places, unsent, grown, List.map_cons, ← Multiset.cons_coe,
      Multiset.cons_add, Multiset.add_cons]
  · intro connection
    by_cases same : seqId = connection
    · subst same
      rw [if_pos rfl, served, custody.inFlight, keySet_insert fresh, add_comm,
        Multiset.singleton_add]
    · rw [if_neg same, others connection (Ne.symm same), custody.inFlight, add_zero]
  · intro connection beyond
    rw [others connection (by omega)]
    exact custody.idle connection beyond
  · intro connection key len pending
    by_cases same : connection = seqId
    · subst same
      rw [served] at pending
      by_cases fits : key = iov.iovBase
      · subst fits
        rw [AList.lookup_insert] at pending
        obtain rfl := Option.some.inj pending
        rw [custody.origin, List.getElem?_map, Option.map_eq_some_iff] at origin
        obtain ⟨index, _, rfl⟩ := origin
        exact ⟨index, rfl⟩
      · rw [AList.lookup_insert_ne fits] at pending
        exact custody.lengths _ _ _ pending
    · rw [others connection same] at pending
      exact custody.lengths _ _ _ pending
  · intro connection
    by_cases same : connection = seqId
    · subst same
      rw [served]
      exact custody.sockets connection
    · rw [others connection same]
      exact custody.sockets connection

end Invariant

section Steps

variable {block blocks id nodes credits : ℕ} {length : ℕ → ℕ} {metadata : MetaDataMemory}
  {t : Transport} {dataRange : Range} {ledger : Ledger block blocks} {s s' : ReadoutSystem}
  {unit : ReadoutUnit Accumulator} {inFlight : ℕ → Multiset ℕ} {acquired : List Iovec}
  {posts : List (ℕ × Iovec)} {report : ReadoutReport}

/-- A turn keeps the invariant. -/
theorem Custody.step (laid : WellLaid metadata length (block * blocks)) (positive : 0 < block)
    (own : id < nodes)
    (custody : Custody s.unit s.inFlight t id nodes credits dataRange ledger length
      acquired posts)
    (taken : CarriedTurn metadata t s report s') :
    ∃ ledger' : Ledger block blocks, Custody s'.unit s'.inFlight t id nodes credits
        dataRange ledger' length (acquired ++ report.acquired) (posts ++ report.posted.toList) ∧
      ledger'.acquired < ledger.released + blocks ∧
      (report.released = [] → ledger'.released = ledger.released) := by
  cases taken with
  | @turn due reads batch _ unit carried turned =>
    obtain ⟨seqId, acc₁, acc₂, connAvail, conns, front, hacquire, hpoll, hrelease, hsend⟩ :=
      ReadoutUnit.iteration_eq_ok turned
    rw [custody.seqId own] at front
    obtain rfl := Option.some.inj front
    obtain ⟨ledger', served, books⟩ :=
      custody.serve laid positive own carried hacquire hpoll hrelease
    refine ⟨ledger', ?_, books⟩
    have connections := custody.connections
    obtain ⟨nothing, rfl, _⟩ | ⟨iov, conn, _, found, hpost, hstep, posted⟩ :=
      ReadoutUnit.sendNext_cases hsend
    · have unchanged : ∀ connection, report.postedOn connection = 0 := fun _ => by
        rw [ReadoutReport.postedOn, nothing]
      simpa only [ReadoutSystem.advance, connections, unchanged, add_zero, nothing,
        Option.toList_none, List.append_nil] using served
    · have entered : ∀ connection, report.postedOn connection =
          if turnConnection id nodes posts.length = connection then {iov.iovBase} else 0 :=
        fun _ => by rw [ReadoutReport.postedOn, posted]
      simpa only [ReadoutSystem.advance, connections, entered, posted, Option.toList_some] using
        served.post own found hpost hstep

/-- The invariant holds after every run. -/
theorem custody_run {accumulator : Accumulator} {trace : List ReadoutReport}
    (laid : WellLaid metadata length (block * blocks)) (positive : 0 < block * blocks)
    (own : id < nodes)
    (tracks : accumulator.Tracks (Ledger.start positive : Ledger block blocks) dataRange.mBegin
      length)
    (empty : accumulator.mIovMultievents = [])
    (run : Run (CarriedTurn metadata t)
      (ReadoutSystem.start t accumulator dataRange credits id nodes) trace s) :
    ∃ ledger : Ledger block blocks, Custody s.unit s.inFlight t id nodes credits dataRange
      ledger length (ReadoutReport.acquisitions trace) (ReadoutReport.posts trace) := by
  refine Run.invariant (I := fun trace s => ∃ ledger : Ledger block blocks,
    Custody s.unit s.inFlight t id nodes credits dataRange ledger length
      (ReadoutReport.acquisitions trace) (ReadoutReport.posts trace)) ?_ ?_ run
  · exact ⟨_, start_custody positive tracks empty⟩
  · rintro trace s report s' - ⟨ledger, custody⟩ taken
    obtain ⟨ledger', next, _⟩ := custody.step laid (Nat.pos_of_mul_pos_right positive) own taken
    exact ⟨ledger', by simpa [ReadoutReport.acquisitions, ReadoutReport.posts] using next⟩

variable (custody : Custody unit inFlight t id nodes credits dataRange ledger length acquired
  posts)

include custody

theorem Custody.acquired_length : acquired.length = ledger.acquired := by
  rw [custody.origin, List.length_map, List.length_range]

/-- Every multievent acquired is the one of its index. -/
theorem Custody.acquired_origin {iov : Iovec} (member : iov ∈ acquired) :
    ∃ index, multievent dataRange.mBegin length block blocks index = iov := by
  rw [custody.origin] at member
  obtain ⟨index, _, same⟩ := List.mem_map.mp member
  exact ⟨index, same⟩

/-- What waits for its turn was acquired. -/
theorem Custody.toSend_acquired {connection : ℕ} {iov : Iovec}
    (found : unit.iovToSend[connection]? = some iov) : iov ∈ acquired := by
  have inside := List.mem_of_getElem? found
  rw [custody.sent] at inside
  exact List.mem_of_mem_drop inside

/-- All addresses accounted for are distinct, if no event is empty. -/
theorem Custody.nodup_places (nonzero : ∀ slot < block * blocks, length slot ≠ 0) :
    ((unit.unsent.map Iovec.iovBase : Multiset ℕ) + unit.pendingKeys).Nodup := by
  rw [← custody.places, Multiset.coe_nodup]
  apply (MarkedQueue.unmarked_sublist _).nodup
  rw [custody.tracks.keys]
  exact ledger.addresses_nodup _ nonzero

/-- Whatever was acquired lies in the memory registered with every connection. -/
theorem Custody.checkMr {iov : Iovec}
    (room : ∑ slot ∈ Finset.range (block * blocks), length slot ≤
      dataRange.mEnd - dataRange.mBegin)
    (ordered : dataRange.mBegin ≤ dataRange.mEnd) (member : iov ∈ acquired) (connection : ℕ) :
    t.checkMr (unit.mConnectionIds connection).mMrs iov = .ok () := by
  obtain ⟨index, rfl⟩ := custody.acquired_origin member
  have inside := @multievent_inside dataRange.mBegin block blocks length index
    (Nat.pos_of_mul_pos_left ledger.positive)
  rw [(custody.sockets connection).2]
  exact Socket.checkMr_connected credits inside.1 (by omega)

/-- The multievent whose turn it is, is not pending on its connection. -/
theorem Custody.notMem_pending {iov : Iovec}
    (clear : (∀ slot < block * blocks, length slot ≠ 0) ∨ ∀ connection, inFlight connection = 0)
    (own : id < nodes)
    (found : unit.iovToSend[turnConnection id nodes posts.length]? = some iov) :
    iov.iovBase ∉ (unit.mConnectionIds (turnConnection id nodes posts.length)).mPendingSend := by
  have front := custody.seqId own
  intro pending
  cases clear with
  | inl nonzero =>
    have unsent : iov ∈ unit.unsent := by
      apply List.mem_flatMap.mpr
      refine ⟨turnConnection id nodes posts.length, ?_, by simp [found]⟩
      obtain ⟨inside, front⟩ := List.getElem?_eq_some_iff.mp front
      rw [List.drop_eq_getElem_cons inside, front]
      exact List.mem_cons_self
    have apart := (Multiset.nodup_add.mp (custody.nodup_places nonzero)).2.2
    apply Multiset.disjoint_left.mp apart (List.mem_map_of_mem unsent)
    exact List.mem_flatMap.mpr ⟨_, List.mem_of_getElem? front, pending⟩
  | inr quiet =>
    have none := (custody.inFlight (turnConnection id nodes posts.length)).symm.trans (quiet _)
    exact Multiset.notMem_zero iov.iovBase (none ▸ pending)

/-- A post that the loop attempts is accepted. -/
theorem Custody.send_total {seqId : ℕ} {connAvail : Bool}
    (clear : (∀ slot < block * blocks, length slot ≠ 0) ∨ ∀ connection, inFlight connection = 0)
    (room : ∑ slot ∈ Finset.range (block * blocks), length slot ≤
      dataRange.mEnd - dataRange.mBegin)
    (ordered : dataRange.mBegin ≤ dataRange.mEnd) (own : id < nodes)
    (turn : seqId = turnConnection id nodes posts.length)
    (available : connAvail = true → (unit.mConnectionIds seqId).availableSend = true) :
    ∃ posted unit', unit.sendNext t none seqId connAvail = .ok (posted, unit') := by
  subst turn
  unfold ReadoutUnit.sendNext
  split_ifs with ready
  · obtain ⟨iov, found⟩ : ∃ iov, unit.iovToSend[turnConnection id nodes posts.length]? = some iov :=
      ⟨_, List.getElem?_eq_getElem ready.2⟩
    have credit : size (unit.mConnectionIds (turnConnection id nodes posts.length)).mPendingSend <
        (unit.mConnectionIds (turnConnection id nodes posts.length)).mCredits := by
      simpa [Socket.availableSend] using available ready.1
    have region := custody.checkMr room ordered (custody.toSend_acquired found)
      (turnConnection id nodes posts.length)
    have fresh := custody.notMem_pending clear own found
    have hpost := Socket.postSend_eq_ok.mpr ⟨credit, region, rfl, fresh, rfl⟩
    simp only [found, hpost, ok_bind, ReadoutUnit.incrementSeqIt]
    split_ifs with last
    · have atEnd : posts.length % nodes + 1 = nodes := by
        rw [custody.sequence, createSequence_length, custody.position] at last
        exact last
      have full := custody.length_eq own found atEnd
      rw [assertThat_of (by rw [custody.connections]; exact full)]
      exact ⟨_, _, rfl⟩
    · exact ⟨_, _, rfl⟩
  · exact ⟨_, _, rfl⟩

variable (laid : WellLaid metadata length (block * blocks)) (positive : 0 < block)
  (clear : (∀ slot < block * blocks, length slot ≠ 0) ∨ ∀ connection, inFlight connection = 0)
  (room : ∑ slot ∈ Finset.range (block * blocks), length slot ≤
    dataRange.mEnd - dataRange.mBegin)
  (ordered : dataRange.mBegin ≤ dataRange.mEnd) (own : id < nodes)
  {reads : ℕ → CqRead} {batch : ℕ → List ℕ} (carried : Carried ⟨unit, inFlight⟩ reads batch)

include laid positive clear room ordered own carried

/-- If no event is empty or nothing is in flight, a turn over such a fabric only fails
when the clock is behind. -/
theorem Custody.iteration_total (due : ℕ → ℕ) :
    unit.iteration (accumulatorSource metadata) t ⟨due, reads, none⟩ =
          .error Controller.clockBehind ∧ ReadoutUnit.Behind due 0 ledger ∨
      ∃ report unit', unit.iteration (accumulatorSource metadata) t ⟨due, reads, none⟩ =
        .ok (report, unit') := by
  rcases @ReadoutUnit.acquire_tracks block blocks dataRange.mBegin length metadata ledger
      unit.mAccumulator due laid positive
      (turnConnection id nodes posts.length + 1 - unit.iovToSend.length) 0 custody.tracks with
    ⟨failed, behind⟩ | ⟨fresh, acc₁, ledger₁, hacquire, after, _⟩
  · refine .inl ⟨?_, behind⟩
    simp only [ReadoutUnit.iteration, custody.seqId own, failed]
    rfl
  have part : ∀ connection ∈ unit.idSequence, (batch connection : Multiset ℕ) ≤
      keySet (unit.mConnectionIds connection).mPendingSend := by
    intro connection _
    rw [← custody.inFlight]
    exact carried.carried connection
  obtain ⟨⟨released, connAvail, conns⟩, hpoll⟩ := @ReadoutUnit.pollConnections_total t reads batch
    (turnConnection id nodes posts.length) unit.idSequence false unit.mConnectionIds
    carried.delivers custody.nodup part
  obtain ⟨rfl, polled, outside, available⟩ :=
    ReadoutUnit.pollConnections_polled carried.delivers custody.nodup hpoll
  obtain ⟨acc₂, hrelease⟩ : ∃ acc₂, ReadoutUnit.releaseCompleted (accumulatorSource metadata)
      (unit.idSequence.flatMap batch) acc₁ = .ok acc₂ := by
    cases clear with
    | inl nonzero =>
      apply ReadoutUnit.releaseCompleted_total after.toTracks (ledger₁.addresses_nodup _ nonzero)
      rw [after.unmarked, custody.places, pendingKeys_polled polled]
      refine le_trans ?_ (Multiset.le_add_right _ _)
      exact (Multiset.le_add_right _ _).trans (Multiset.le_add_left _ _)
    | inr quiet =>
      rw [carried.flatMap_eq_nil quiet]
      exact ⟨acc₁, rfl⟩
  obtain ⟨ledger', served, _⟩ := custody.serve laid positive own carried hacquire hpoll hrelease
  have member := custody.mem_iff.mpr
    (@turnConnection_lt id nodes posts.length (Nat.zero_lt_of_lt own))
  rw [if_pos member] at available
  obtain ⟨posted, unit', hsend⟩ := served.send_total
    (clear.imp_right fun quiet connection => by rw [quiet, zero_tsub]) room ordered own rfl
    fun credit => available ▸ credit
  refine .inr ⟨⟨fresh, unit.idSequence.flatMap batch, posted⟩, unit', ?_⟩
  simp only [ReadoutUnit.iteration, custody.seqId own, hacquire, ok_bind, hpoll, hrelease]
  rw [hsend]
  rfl

/-- Such a turn returns, as long as the clock does not run backwards. -/
theorem Custody.iteration_returns (due : ℕ → ℕ) :
    (∃ report unit', unit.iteration (accumulatorSource metadata) t ⟨due, reads, none⟩ =
        .ok (report, unit')) ∨
      unit.iteration (accumulatorSource metadata) t ⟨due, reads, none⟩ =
        .error Controller.clockBehind ∧ ¬unit.InTime due := by
  rcases custody.iteration_total laid positive clear room ordered own carried due with
    ⟨failed, behind⟩ | returned
  · refine .inr ⟨failed, ?_⟩
    intro inTime
    have first := behind.first inTime.mono
    rw [← custody.tracks.controllerCount] at first
    exact absurd inTime.later (not_le.mpr first)
  · exact .inl returned

theorem Custody.iteration_inTime {due : ℕ → ℕ} (inTime : unit.InTime due) :
    ∃ report unit', unit.iteration (accumulatorSource metadata) t ⟨due, reads, none⟩ =
      .ok (report, unit') :=
  (custody.iteration_returns laid positive clear room ordered own carried due).resolve_right
    fun behind => behind.2 inTime

end Steps

end Lseb
