import Lseb.Ru.Accumulator
import Lseb.Transport.Socket

/-!
# The readout unit

`run` is an endless loop; its local variables and the members it changes are
one state, and `iteration` is one turn. The clock, the answers of the
completion queues and the outcome of the post are the input of a turn. An
exception or a failed assertion ends the loop, so its state is not kept.
-/

namespace Lseb

open Foundation

/-- The part of an accumulator that the loop uses. -/
structure MultieventSource (σ : Type) where
  getMultievent : ℕ → σ → Except Error (Option Iovec × σ)
  releaseMultievents : List ℕ → σ → Except Error σ

/-- The accumulator over the metadata of its node. -/
def accumulatorSource (metadata : MetaDataMemory) : MultieventSource Accumulator where
  getMultievent eventsToGenerate acc := acc.getMultievent metadata eventsToGenerate
  releaseMultievents vect acc := acc.releaseMultievents vect

structure ReadoutUnit (σ : Type) where
  mAccumulator : σ
  mId : ℕ
  connections : ℕ
  mConnectionIds : ℕ → Socket
  idSequence : List ℕ
  seqIt : ℕ
  iovToSend : List Iovec

/-- What one turn of the loop reads from outside: the events due at each call of
`get_multievent`, the completion queue of each connection, and the error of a
refused post. -/
structure ReadoutInput where
  due : ℕ → ℕ
  completions : ℕ → CqRead
  refused : Option String

/-- What one turn did: the multievents acquired and the addresses released, in
order, and the post, if there was one. -/
structure ReadoutReport where
  acquired : List Iovec
  released : List ℕ
  posted : Option (ℕ × Iovec)
  deriving DecidableEq, Repr

/-- Use a connection; if that throws, its state is lost with the loop. -/
def Socket.perform {α : Type} (socket : Socket) (x : EStateM Error Socket α) :
    Except Error (α × Socket) :=
  match x socket with
  | .ok a socket' => .ok (a, socket')
  | .error e _ => .error e

namespace ReadoutUnit

variable {σ : Type}

/-- The state in which `run` enters its loop, all connections established. -/
def start (t : Transport) (accumulator : σ) (dataRange : Range) (credits id nodes : ℕ) :
    ReadoutUnit σ where
  mAccumulator := accumulator
  mId := id
  connections := nodes
  mConnectionIds := fun _ => Socket.connected t dataRange credits
  idSequence := createSequence id nodes
  seqIt := 0
  iovToSend := []

/-- Acquire at most `turns` multievents, until the accumulator has none. -/
def acquire (source : MultieventSource σ) (due : ℕ → ℕ) :
    ℕ → ℕ → σ → Except Error (List Iovec × σ)
  | 0, _, accumulator => .ok ([], accumulator)
  | turns + 1, call, accumulator => do
    let (p, accumulator) ← source.getMultievent (due call) accumulator
    match p with
    | some iov =>
      let (rest, accumulator) ← acquire source due turns (call + 1) accumulator
      return (iov :: rest, accumulator)
    | none => return ([], accumulator)

/-- Poll the connections in turn, and note whether `seqId` has a credit left. -/
def pollConnections (t : Transport) (completions : ℕ → CqRead) (seqId : ℕ) :
    List ℕ → Bool → (ℕ → Socket) → Except Error (List ℕ × Bool × (ℕ → Socket))
  | [], connAvail, conns => .ok ([], connAvail, conns)
  | id :: ids, connAvail, conns => do
    let (completedWr, conn) ← (conns id).perform (Socket.pollCompletedSend t (completions id))
    let connAvail := if seqId = id then conn.availableSend else connAvail
    let (rest, connAvail, conns) ←
      pollConnections t completions seqId ids connAvail (Function.update conns id conn)
    return (completedWr.map Iovec.iovBase ++ rest, connAvail, conns)

def releaseCompleted (source : MultieventSource σ) (wrToRelease : List ℕ) (accumulator : σ) :
    Except Error σ :=
  if wrToRelease ≠ [] then source.releaseMultievents wrToRelease accumulator else .ok accumulator

/-- Step the send order, and start over at the end of a cycle. -/
def incrementSeqIt (ru : ReadoutUnit σ) : Except Error (ReadoutUnit σ) :=
  if ru.seqIt + 1 = ru.idSequence.length then do
    assertThat (ru.iovToSend.length = ru.connections)
      "iov_to_send.size() == m_connection_ids.size()"
    return { ru with seqIt := 0, iovToSend := [] }
  else .ok { ru with seqIt := ru.seqIt + 1 }

/-- Send the multievent for `seqId`, if it is there and the connection has a credit. -/
def sendNext (t : Transport) (refused : Option String) (seqId : ℕ) (connAvail : Bool)
    (ru : ReadoutUnit σ) : Except Error (Option (ℕ × Iovec) × ReadoutUnit σ) :=
  if connAvail ∧ ru.iovToSend.length > seqId then
    match ru.iovToSend[seqId]? with
    | none => .error (.fault "iov_to_send[seq_id] out of bounds")
    | some iov => do
      let (_, conn) ← (ru.mConnectionIds seqId).perform (Socket.postSend t iov refused)
      let ru ← { ru with
        mConnectionIds := Function.update ru.mConnectionIds seqId conn }.incrementSeqIt
      return (some (seqId, iov), ru)
  else .ok (none, ru)

/-- One turn of the loop of `run`. -/
def iteration (source : MultieventSource σ) (t : Transport) (input : ReadoutInput)
    (ru : ReadoutUnit σ) : Except Error (ReadoutReport × ReadoutUnit σ) :=
  match ru.idSequence[ru.seqIt]? with
  | none => .error (.fault "seq_it dereferenced at the end")
  | some seqId => do
    let (acquired, accumulator) ←
      acquire source input.due (seqId + 1 - ru.iovToSend.length) 0 ru.mAccumulator
    let (wrToRelease, connAvail, conns) ←
      pollConnections t input.completions seqId ru.idSequence false ru.mConnectionIds
    let accumulator ← releaseCompleted source wrToRelease accumulator
    let (posted, ru) ← sendNext t input.refused seqId connAvail { ru with
      mAccumulator := accumulator
      mConnectionIds := conns
      iovToSend := ru.iovToSend ++ acquired }
    return (⟨acquired, wrToRelease, posted⟩, ru)

section Inversion

variable {source : MultieventSource σ} {t : Transport} {input : ReadoutInput}
  {ru ru' : ReadoutUnit σ} {report : ReadoutReport}

/-- The phases of a turn that ended well. -/
theorem iteration_eq_ok (h : ru.iteration source t input = .ok (report, ru')) :
    ∃ seqId accumulator accumulator' connAvail conns, ru.idSequence[ru.seqIt]? = some seqId ∧
      acquire source input.due (seqId + 1 - ru.iovToSend.length) 0 ru.mAccumulator =
        .ok (report.acquired, accumulator) ∧
      pollConnections t input.completions seqId ru.idSequence false ru.mConnectionIds =
        .ok (report.released, connAvail, conns) ∧
      releaseCompleted source report.released accumulator = .ok accumulator' ∧
      sendNext t input.refused seqId connAvail { ru with
        mAccumulator := accumulator'
        mConnectionIds := conns
        iovToSend := ru.iovToSend ++ report.acquired } = .ok (report.posted, ru') := by
  unfold iteration at h
  cases front : ru.idSequence[ru.seqIt]? with
  | none => simp [front] at h
  | some seqId =>
    simp only [front] at h
    obtain ⟨⟨acquired, accumulator⟩, hacquire, h⟩ := bind_eq_ok.mp h
    obtain ⟨⟨wrToRelease, connAvail, conns⟩, hpoll, h⟩ := bind_eq_ok.mp h
    obtain ⟨accumulator', hrelease, h⟩ := bind_eq_ok.mp h
    obtain ⟨⟨posted, sent⟩, hsend, h⟩ := bind_eq_ok.mp h
    cases h
    exact ⟨seqId, accumulator, accumulator', connAvail, conns, rfl, hacquire, hpoll, hrelease,
      hsend⟩

/-- Either nothing is sent, or the multievent at `seqId` is, on its connection. -/
theorem sendNext_cases {seqId : ℕ} {connAvail : Bool} {refused : Option String}
    {posted : Option (ℕ × Iovec)} (h : sendNext t refused seqId connAvail ru = .ok (posted, ru')) :
    (posted = none ∧ ru' = ru ∧ (connAvail = true → ru.iovToSend.length ≤ seqId)) ∨
      ∃ iov conn, connAvail = true ∧ ru.iovToSend[seqId]? = some iov ∧
        (ru.mConnectionIds seqId).perform (Socket.postSend t iov refused) = .ok ((), conn) ∧
        { ru with mConnectionIds := Function.update ru.mConnectionIds seqId conn }.incrementSeqIt =
          .ok ru' ∧
        posted = some (seqId, iov) := by
  unfold sendNext at h
  split_ifs at h with ready
  · cases found : ru.iovToSend[seqId]? with
    | none => simp [found] at h
    | some iov =>
      simp only [found] at h
      obtain ⟨⟨_, conn⟩, hpost, h⟩ := bind_eq_ok.mp h
      obtain ⟨stepped, hstep, h⟩ := bind_eq_ok.mp h
      cases h
      exact .inr ⟨iov, conn, ready.1, rfl, hpost, hstep, rfl⟩
  · cases h
    exact .inl ⟨rfl, rfl, fun avail => not_lt.mp fun more => ready ⟨avail, more⟩⟩

theorem incrementSeqIt_cases (h : ru.incrementSeqIt = .ok ru') :
    (ru.seqIt + 1 = ru.idSequence.length ∧ ru.iovToSend.length = ru.connections ∧
        ru' = { ru with seqIt := 0, iovToSend := [] }) ∨
      (ru.seqIt + 1 ≠ ru.idSequence.length ∧ ru' = { ru with seqIt := ru.seqIt + 1 }) := by
  unfold incrementSeqIt at h
  split_ifs at h with last
  · obtain ⟨_, checked, h⟩ := bind_eq_ok.mp h
    cases h
    exact .inl ⟨last, assertThat_eq_ok.mp checked, rfl⟩
  · cases h
    exact .inr ⟨last, rfl⟩

theorem incrementSeqIt_connections (h : ru.incrementSeqIt = .ok ru') :
    ru'.mConnectionIds = ru.mConnectionIds := by
  obtain ⟨_, _, rfl⟩ | ⟨_, rfl⟩ := incrementSeqIt_cases h <;> rfl

theorem acquire_length_le {due : ℕ → ℕ} {turns call : ℕ} {accumulator accumulator' : σ}
    {acquired : List Iovec}
    (h : acquire source due turns call accumulator = .ok (acquired, accumulator')) :
    acquired.length ≤ turns := by
  induction turns generalizing call accumulator acquired with
  | zero =>
    cases h
    exact le_rfl
  | succ turns ih =>
    obtain ⟨⟨p, next⟩, _, h⟩ := bind_eq_ok.mp h
    cases p with
    | none =>
      cases h
      exact Nat.zero_le _
    | some iov =>
      obtain ⟨⟨rest, last⟩, hrest, h⟩ := bind_eq_ok.mp h
      cases h
      exact Nat.succ_le_succ (ih hrest)

end Inversion

end ReadoutUnit

end Lseb
