import Mathlib.Logic.Function.Basic
import Lseb.Common.DataFormat
import Lseb.Transport.Socket

/-!
# The builder unit

One chunk of memory is posted per credit and connection; what was received on a
connection waits in its vector until every other connection has a multievent of
the same round. The answers of the completion queues, the contents of the
memory and the outcomes of the posts are inputs. An exception leaves the state
as far as it got.
-/

namespace Lseb

open Foundation

/-- The connections and the vectors of received chunks are numbered from zero. -/
structure BuilderUnit where
  mConnectionIds : ℕ → Socket
  connections : ℕ
  mDataVect : ℕ → List Iovec
  nodes : ℕ
  mBulkSize : ℕ
  mCredits : ℕ
  mMaxFragmentSize : ℕ
  mDataPtr : ℕ

abbrev BuilderM := EStateM Error BuilderUnit

/-- What a turn of the loop reads from outside: the completion queue of each
connection, the memory at the time of the check, and the errors of refused
posts, by connection and order. -/
structure BuilderInput where
  completions : ℕ → CqRead
  memory : Memory
  refused : ℕ → ℕ → Option String

/-- What a turn did: the vectors at the time of the check, and how many rounds
it released. -/
structure BuilderReport where
  queued : ℕ → List Iovec
  rounds : ℕ

/-- The chunks that the turn released on a connection, in order. -/
def BuilderReport.released (report : BuilderReport) (i : ℕ) : List ℕ :=
  ((report.queued i).take report.rounds).map Iovec.iovBase

namespace BuilderUnit

def construct (nodes bulkSize credits maxFragmentSize dataPtr : ℕ) : BuilderUnit where
  mConnectionIds := fun _ => .construct 0
  connections := 0
  mDataVect := fun _ => []
  nodes := nodes
  mBulkSize := bulkSize
  mCredits := credits
  mMaxFragmentSize := maxFragmentSize
  mDataPtr := dataPtr

def chunkSize (bu : BuilderUnit) : ℕ := bu.mMaxFragmentSize * bu.mBulkSize

/-- The chunk `j` of the connection `i`. -/
def chunk (bu : BuilderUnit) (i j : ℕ) : ℕ :=
  bu.mDataPtr + i * bu.chunkSize * bu.mCredits + j * bu.chunkSize

def onConn {α : Type} (id : ℕ) (x : EStateM Error Socket α) : BuilderM α :=
  zoom (fun bu => bu.mConnectionIds id)
    (fun bu conn => { bu with mConnectionIds := Function.update bu.mConnectionIds id conn }) x

def setData (id : ℕ) (iovVect : List Iovec) (bu : BuilderUnit) : BuilderUnit :=
  { bu with mDataVect := Function.update bu.mDataVect id iovVect }

def readData (t : Transport) (read : CqRead) (id : ℕ) : BuilderM ℕ := do
  let oldSize := ((← get).mDataVect id).length
  let newData ← onConn id (Socket.pollCompletedRecv t read)
  if newData ≠ [] then
    modify fun bu => bu.setData id (bu.mDataVect id ++ newData)
  return ((← get).mDataVect id).length - oldSize

/-- The header that the first iovec of a vector points to. -/
def frontHeader (memory : Memory) (data : List Iovec) : Except Error EventHeader :=
  match data with
  | [] => .error (.fault "front() of an empty vector")
  | iov :: _ => do
    let p ← pointerCast iov.iovBase
    return readHeader memory p

def checkFronts (memory : Memory) (firstEvtId : ℕ) : List (List Iovec) → Except Error Bool
  | [] => .ok true
  | data :: rest => do
    let header ← frontHeader memory data
    if header.id ≠ firstEvtId then
      return false
    else if header.length = 0 then
      return false
    else
      checkFronts memory firstEvtId rest

def checkData (memory : Memory) (bu : BuilderUnit) : Except Error Bool := do
  let header ← frontHeader memory (bu.mDataVect 0)
  checkFronts memory header.id ((List.range bu.nodes).map bu.mDataVect)

/-- Post buffers of the size of a chunk, in order. -/
def postChunks (t : Transport) (id chunkSize : ℕ) (refused : ℕ → Option String) :
    ℕ → List ℕ → BuilderM Unit
  | _, [] => pure ()
  | k, base :: rest => do
    onConn id (Socket.postRecv t ⟨base, chunkSize⟩ (refused k))
    postChunks t id chunkSize refused (k + 1) rest

def releaseData (t : Transport) (refused : ℕ → Option String) (id n : ℕ) : BuilderM ℕ := do
  let iovVect := (← get).mDataVect id
  attempt (assertThat (iovVect.length ≥ n) "iov_vect.size() >= n")
  let subVect := iovVect.take n
  modify fun bu => bu.setData id (iovVect.drop n)
  let bytes := iovecLength subVect
  postChunks t id (← get).chunkSize refused 0 (subVect.map Iovec.iovBase)
  return bytes

/-- Accept the connection `i` and post all of its chunks. -/
def accept (t : Transport) (refused : ℕ → Option String) (i : ℕ) : BuilderM Unit := do
  let bu ← get
  let conn := (Socket.construct bu.mCredits).registerMemory t (bu.chunk i 0)
    (bu.chunkSize * bu.mCredits)
  set { bu with
    mConnectionIds := Function.update bu.mConnectionIds i conn
    connections := bu.connections + 1 }
  postChunks t i bu.chunkSize refused 0 ((List.range bu.mCredits).map (bu.chunk i))

def acceptAll (t : Transport) (refused : ℕ → ℕ → Option String) : List ℕ → BuilderM Unit
  | [] => pure ()
  | i :: rest => do
    accept t (refused i) i
    acceptAll t refused rest

def connect (t : Transport) (refused : ℕ → ℕ → Option String) (endpoints : ℕ) : BuilderM Unit :=
  acceptAll t refused (List.range endpoints)

/-- Read from the connections in turn; the rounds that all of them have got, up to `minWrs`. -/
def acquire (t : Transport) (completions : ℕ → CqRead) : ℕ → List ℕ → BuilderM ℕ
  | minWrs, [] => pure minWrs
  | minWrs, i :: rest => do
    let _ ← readData t (completions i) i
    let currentWrs := ((← get).mDataVect i).length
    acquire t completions (if minWrs < currentWrs then minWrs else currentWrs) rest

/-- Release `minWrs` entries of each connection in turn. -/
def release (t : Transport) (refused : ℕ → ℕ → Option String) (minWrs : ℕ) :
    List ℕ → BuilderM Unit
  | [] => pure ()
  | i :: rest => do
    let _ ← releaseData t (refused i) i minWrs
    release t refused minWrs rest

/-- Check the data and release `minWrs` rounds. -/
def build (t : Transport) (memory : Memory) (refused : ℕ → ℕ → Option String) (minWrs : ℕ) :
    BuilderM Unit := do
  if minWrs ≠ 0 then
    let checked ← attempt (checkData memory (← get))
    if !checked then
      throw (.runtimeError "Error checking data")
    release t refused minWrs (List.range (← get).connections)

/-- One turn of the loop of `run`. -/
def iteration (t : Transport) (input : BuilderInput) : BuilderM BuilderReport := do
  let bu ← get
  let minWrs ← acquire t input.completions bu.mCredits (List.range bu.connections)
  let queued := (← get).mDataVect
  build t input.memory input.refused minWrs
  return ⟨queued, minWrs⟩

end BuilderUnit

end Lseb
