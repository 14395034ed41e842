import Lseb.Common.Range
import Lseb.Common.Utility
import Lseb.Foundation.PendingMap
import Lseb.Foundation.Stateful

/-!
# Sockets

A socket remembers the work requests it has posted, by the address of the
buffer, until their completion is polled. The three builds of the transport
differ in the checks of the memory region and in the texts of the errors. What
the fabric answers to a poll or a post is an input.
-/

namespace Lseb

open Foundation

inductive Transport where
  | verbs
  | fiVerbs
  | fiTcp
  deriving DecidableEq, Repr

structure Socket where
  mMrs : List Range
  mCredits : ℕ
  mPendingSend : PendingMap ℕ ℕ
  mPendingRecv : PendingMap ℕ ℕ

/-- A completed work request; only the verbs interface reports a failed status here. -/
structure Wc where
  wrId : ℕ
  status : Option String
  deriving DecidableEq, Repr

/-- The answer of a completion queue: completions, none for now (libfabric's
`FI_EAGAIN`, for which the verbs interface has zero completions), or an error. -/
inductive CqRead where
  | completions (wcs : List Wc)
  | again
  | failed (text : String)
  deriving DecidableEq, Repr

abbrev PendingM := EStateM Error (PendingMap ℕ ℕ)

/-- Look the completed work requests up and erase them, one after the other. -/
def collect (badStatus notFound : String) : List Wc → PendingM (List Iovec)
  | [] => pure []
  | wc :: wcs => do
    match wc.status with
    | some status => throw (.socketError (badStatus ++ status))
    | none =>
      match (← get).lookup wc.wrId with
      | none => throw (.socketError notFound)
      | some len =>
        modify fun pending => pending.erase wc.wrId
        let rest ← collect badStatus notFound wcs
        return ⟨wc.wrId, len⟩ :: rest

def Transport.poll (t : Transport) (cq : String) : CqRead → PendingM (List Iovec)
  | .failed text =>
    match t with
    | .verbs => throw (.socketError s!"Error on ibv_poll_cq: {text}")
    | .fiVerbs | .fiTcp => throw (.socketError s!"Error on fi_cq_read: {text}")
  | .again => pure []
  | .completions wcs =>
    match t with
    | .verbs =>
      collect s!"Error status in wc of {cq}: " "Error on erase: key element not exists" wcs
    | .fiVerbs | .fiTcp =>
      collect "" "Error on find: key element not exists" (wcs.map fun wc => ⟨wc.wrId, none⟩)

/-- The first registered region that holds the buffer. -/
def findMr (mrs : List Range) (iov : Iovec) : Option Range :=
  mrs.find? fun mr => decide (mr.mBegin ≤ iov.iovBase ∧ mr.mEnd ≥ iov.iovBase + iov.iovLen)

def Transport.checkMr (t : Transport) (mrs : List Range) (iov : Iovec) : Except Error Unit :=
  match t with
  | .verbs =>
    if (findMr mrs iov).isNone then
      .error (.socketError "Error on find_mr: no valid memory regions found")
    else .ok ()
  | .fiVerbs => assertThat ((findMr mrs iov).isSome)
      "mr_it!=std::end(m_mrs) && \"Error on find_if: no valid memory region found\""
  | .fiTcp => .ok ()

/-- Post a work request; `ret` is the error text of a post that the fabric refuses. -/
def Transport.post (t : Transport) (operation failure : String) (mrs : List Range) (credits : ℕ)
    (iov : Iovec) (ret : Option String) : PendingM Unit := do
  if credits ≤ (← get).size then
    throw (.socketError s!"Error on {operation}: no credits available")
  attempt (t.checkMr mrs iov)
  match ret with
  | some text => throw (.socketError (failure ++ text))
  | none =>
    if iov.iovBase ∈ (← get) then
      throw (.socketError "Error on insert: key element already exists")
    else
      modify fun pending => pending.insert iov.iovBase iov.iovLen

namespace Socket

def construct (credits : ℕ) : Socket := ⟨[], credits, ∅, ∅⟩

/-- Without memory registration, nothing is recorded. -/
def registerMemory (t : Transport) (buffer size : ℕ) (socket : Socket) : Socket :=
  match t with
  | .verbs | .fiVerbs => { socket with mMrs := socket.mMrs ++ [⟨buffer, buffer + size⟩] }
  | .fiTcp => socket

/-- Register memory at a fabric that may refuse it. -/
def tryRegisterMemory (t : Transport) (buffer size : ℕ) (ret : Option String) :
    EStateM Error Socket Unit := do
  match t, ret with
  | .verbs, some text => throw (.socketError s!"Error on ibv_reg_mr: {text}")
  | .fiVerbs, some text => throw (.socketError s!"Error on fi_mr_reg: {text}")
  | _, _ => modify (registerMemory t buffer size)

/-- A socket as it is handed over, with one region registered. -/
def connected (t : Transport) (region : Range) (credits : ℕ) : Socket :=
  (construct credits).registerMemory t region.mBegin (region.mEnd - region.mBegin)

def availableSend (socket : Socket) : Bool := socket.mPendingSend.size < socket.mCredits

def availableRecv (socket : Socket) : Bool := socket.mPendingRecv.size < socket.mCredits

def onSend {α : Type} (x : PendingM α) : EStateM Error Socket α :=
  zoom mPendingSend (fun socket pending => { socket with mPendingSend := pending }) x

def onRecv {α : Type} (x : PendingM α) : EStateM Error Socket α :=
  zoom mPendingRecv (fun socket pending => { socket with mPendingRecv := pending }) x

def pollCompletedSend (t : Transport) (read : CqRead) : EStateM Error Socket (List Iovec) :=
  onSend (t.poll "send_cq" read)

def pollCompletedRecv (t : Transport) (read : CqRead) : EStateM Error Socket (List Iovec) :=
  onRecv (t.poll "recv_cq" read)

/-- Libfabric's `post_send` blames `fi_recv` for a refused send. -/
def postSend (t : Transport) (iov : Iovec) (ret : Option String) : EStateM Error Socket Unit := do
  let socket ← get
  onSend (t.post "post_send"
    (match t with
      | .verbs => "Error on ibv_post_send: "
      | .fiVerbs | .fiTcp => "Error on fi_recv: ") socket.mMrs socket.mCredits iov ret)

def postRecv (t : Transport) (iov : Iovec) (ret : Option String) : EStateM Error Socket Unit := do
  let socket ← get
  onRecv (t.post "post_recv"
    (match t with
      | .verbs => "Error on ibv_post_recv: "
      | .fiVerbs | .fiTcp => "Error on fi_recv: ") socket.mMrs socket.mCredits iov ret)

end Socket

end Lseb
