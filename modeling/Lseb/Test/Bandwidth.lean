import Lseb.Common.MemoryPool
import Lseb.Transport.Lossless

/-!
# The bandwidth tests

A pool of chunks over one buffer, registered with one socket. Each turn of the
endless loops frees the completed chunks and posts at most one in each
direction; the four programs differ in the size of the pool, in the order of
the directions, and in what they post before the loop. The answers of the
completion queues are inputs. The meter of the bandwidth is left out.
-/

namespace Lseb

open Foundation

structure BandwidthTest where
  pool : MemoryPool
  socket : Socket

abbrev BandwidthM := EStateM Error BandwidthTest

namespace Direction

variable (t : Transport)

def poll (read : CqRead) : Direction → EStateM Error Socket (List Iovec)
  | send => Socket.pollCompletedSend t read
  | recv => Socket.pollCompletedRecv t read

/-- What is freed: sends with the size of a chunk, receives as they were returned. -/
def freed (chunkSize : ℕ) (vect : List Iovec) : Direction → List Iovec
  | send => vect.map fun iov => ⟨iov.iovBase, chunkSize⟩
  | recv => vect

def available (socket : Socket) : Direction → Bool
  | send => socket.availableSend
  | recv => socket.availableRecv

def post (iov : Iovec) (refused : Option String) : Direction → EStateM Error Socket Unit
  | send => Socket.postSend t iov refused
  | recv => Socket.postRecv t iov refused

end Direction

/-- What one turn of a loop reads from outside, by direction: the completion queue
and the error of a refused post. -/
structure BandwidthInput where
  completions : Direction → CqRead
  refused : Direction → Option String

namespace BandwidthTest

section Loops

variable (t : Transport) (chunkSize : ℕ)

def onSocket {α : Type} (x : EStateM Error Socket α) : BandwidthM α :=
  zoom socket (fun test socket => { test with socket := socket }) x

def alloc : BandwidthM Iovec := do
  let (iov, pool) ← attempt (← get).pool.alloc
  modify fun test => { test with pool := pool }
  return iov

def freeAll : List Iovec → BandwidthM Unit
  | [] => pure ()
  | iov :: rest => do
    let pool ← attempt ((← get).pool.free iov)
    modify fun test => { test with pool := pool }
    freeAll rest

/-- Poll one direction, free what has completed, and post the next chunk. -/
def phase (input : BandwidthInput) (direction : Direction) : BandwidthM Unit := do
  let vect ← onSocket (direction.poll t (input.completions direction))
  freeAll (direction.freed chunkSize vect)
  let test ← get
  if direction.available test.socket && !test.pool.empty then
    let iov ← alloc
    onSocket (direction.post t iov (input.refused direction))

def turn (input : BandwidthInput) : List Direction → BandwidthM Unit
  | [] => pure ()
  | direction :: rest => do
    phase t chunkSize input direction
    turn input rest

/-- Post a receive for each credit. -/
def postRecvs : ℕ → BandwidthM Unit
  | 0 => pure ()
  | credits + 1 => do
    let iov ← alloc
    onSocket (Socket.postRecv t iov none)
    postRecvs credits

/-- Post receives while the pool has chunks, for at most `fuel` tests of the condition. -/
def postWhole : ℕ → BandwidthM Unit
  | 0 => throw (.fault "posting loop still running")
  | fuel + 1 => do
    if !(← get).pool.empty then
      let iov ← alloc
      onSocket (Socket.postRecv t iov none)
      postWhole fuel

/-- The pool over the buffer and the socket that it is registered with. -/
def construct (fuel buffer bufferSize credits : ℕ) : Except Error BandwidthTest := do
  let pool ← MemoryPool.construct fuel buffer bufferSize chunkSize
  return ⟨pool, .connected t ⟨buffer, buffer + bufferSize⟩ credits⟩

end Loops

end BandwidthTest

/-- The programs under `test`. -/
inductive BandwidthProgram where
  | tClient
  | tServer
  | tClient2
  | tServer2
  deriving DecidableEq, Repr

namespace BandwidthProgram

/-- The size of the buffer, as a `size_t`. -/
def bufferSize (chunkSize credits : ℕ) : BandwidthProgram → ℕ
  | tClient => chunkSize * credits % 2 ^ 64
  | tServer => chunkSize * credits % 2 ^ 64
  | tClient2 => chunkSize * credits % 2 ^ 64 * 2 % 2 ^ 64
  | tServer2 => chunkSize * credits % 2 ^ 64 * 2 % 2 ^ 64

/-- The directions of a turn, in order. -/
def loop : BandwidthProgram → List Direction
  | tClient => [.send]
  | tServer => [.recv]
  | tClient2 => [.send, .recv]
  | tServer2 => [.recv, .send]

/-- What a program posts before its loop, at a fabric that accepts the posts. -/
def prepare (t : Transport) (credits fuel : ℕ) : BandwidthProgram → BandwidthM Unit
  | tClient => pure ()
  | tServer => BandwidthTest.postWhole t fuel
  | tClient2 => BandwidthTest.postRecvs t credits
  | tServer2 => BandwidthTest.postRecvs t credits

/-- A program until it enters its loop; `fuel` bounds its loops over the pool. -/
def start (program : BandwidthProgram) (t : Transport) (fuel buffer chunkSize credits : ℕ) :
    Except Error BandwidthTest := do
  let test ← BandwidthTest.construct t chunkSize fuel buffer
    (program.bufferSize chunkSize credits) credits
  match program.prepare t credits fuel test with
  | .ok _ test => return test
  | .error e _ => throw e

end BandwidthProgram

end Lseb
