import Lseb.Foundation.Ledger
import Lseb.Foundation.Run
import Lseb.Transport.Socket

/-!
# Endpoints of the verbs transport

`Acceptor` and `Connector` ask the connection manager for endpoints and hand
them over to sockets. The calls made are recorded in order; which of them fail,
and with what text, is an input. A creation that fails leaves no endpoint.
-/

namespace Lseb

open Foundation

/-- A pointer to an `rdma_cm_id`; `none` is `nullptr`. -/
abbrev CmId := Option ℕ

namespace Verbs

def retryCount : ℕ := 7
def rnrRetryCount : ℕ := 7
def minRtrTimer : ℕ := 1

end Verbs

/-- `ibv_qp_init_attr`; the type of the queue pair is `IBV_QPT_RC` throughout. -/
structure QpInitAttr where
  maxSendWr : ℕ
  maxRecvWr : ℕ
  maxSendSge : ℕ
  maxRecvSge : ℕ
  maxInlineData : ℕ
  sqSigAll : Bool
  deriving DecidableEq, Repr

def QpInitAttr.ofCredits (credits : ℕ) : QpInitAttr := ⟨credits, credits, 1, 1, 0, true⟩

structure ConnParam where
  retryCount : ℕ
  rnrRetryCount : ℕ
  deriving DecidableEq, Repr

/-- The calls of the connection manager, creations with the endpoint they create. -/
inductive RdmaCall where
  | getaddrinfo (hostname port : String) (passive : Bool)
  | freeaddrinfo
  | createEp (attr : QpInitAttr) (created : CmId)
  | listen (id : CmId) (backlog : ℕ)
  | getRequest (listener created : CmId)
  | accept (id : CmId) (param : ConnParam)
  | connect (id : CmId) (param : ConnParam)
  | modifyQp (id : CmId) (minRnrTimer : ℕ)
  | deregMr (mr : Range)
  | destroyEp (id : CmId)
  deriving DecidableEq, Repr

/-- What a call does to the endpoints. -/
def RdmaCall.entry : RdmaCall → Option (LedgerEntry CmId)
  | .createEp _ (some id) | .getRequest _ (some id) => some (.acquire (some id))
  | .destroyEp id => some (.release id)
  | _ => none

/-- The connection manager: the next endpoint, and the calls so far. -/
structure Rdma where
  next : ℕ
  calls : List RdmaCall
  deriving Repr

abbrev RdmaM := EStateM Error Rdma

namespace Rdma

def start : Rdma := ⟨0, []⟩

/-- The creations and destructions of endpoints. -/
def ledger (rdma : Rdma) : List (LedgerEntry CmId) := rdma.calls.filterMap RdmaCall.entry

def record (call : RdmaCall) (rdma : Rdma) : Rdma := ⟨rdma.next, rdma.calls ++ [call]⟩

/-- A call created the next endpoint. -/
def created (made : CmId → RdmaCall) (rdma : Rdma) : Rdma :=
  ⟨rdma.next + 1, rdma.calls ++ [made (some rdma.next)]⟩

def call (made : RdmaCall) : RdmaM Unit := modify (record made)

/-- A call whose answer is an error text or none. -/
def tryCall (made : RdmaCall) (answer : Option String) : RdmaM (Option String) := do
  call made
  return answer

/-- A call that creates an endpoint unless it fails; what it gives is written to the
variable for the id. -/
def create (made : CmId → RdmaCall) : Option String → RdmaM (Except String CmId)
  | some text => do
    call (made none)
    return .error text
  | none => fun rdma => .ok (.ok (some rdma.next)) (created made rdma)

end Rdma

/-- The same function, but for the flag, in both classes. -/
def createAddrInfo (hostname port : String) (passive : Bool) (answer : Option String) :
    RdmaM Unit := do
  match ← Rdma.tryCall (.getaddrinfo hostname port passive) answer with
  | some text => throw (.runtimeError s!"Error on rdma_getaddrinfo: {text}")
  | none => pure ()

/-- A socket of the verbs transport, with the endpoint it owns. -/
structure CmSocket where
  mCmId : CmId
  socket : Socket

namespace CmSocket

def construct (cmId : CmId) (credits : ℕ) : CmSocket := ⟨cmId, .construct credits⟩

/-- `Socket::~Socket`. -/
def destroy (socket : CmSocket) : RdmaM Unit := do
  (socket.socket.mMrs.forM fun mr => Rdma.call (.deregMr mr))
  Rdma.call (.destroyEp socket.mCmId)

end CmSocket

/-- Which calls of `listen` fail. -/
structure ListenAnswers where
  getaddrinfo : Option String
  createEp : Option String
  listen : Option String
  deriving DecidableEq, Repr

structure AcceptAnswers where
  getRequest : Option String
  accept : Option String
  modifyQp : Option String
  deriving DecidableEq, Repr

structure ConnectAnswers where
  getaddrinfo : Option String
  createEp : Option String
  connect : Option String
  modifyQp : Option String
  deriving DecidableEq, Repr

structure Acceptor where
  mCredits : ℕ
  mMinRtrTimer : ℕ
  mRnrRetryCount : ℕ
  mCmId : CmId
  deriving DecidableEq, Repr

namespace Acceptor

def construct (credits : ℕ) : Acceptor := ⟨credits, Verbs.minRtrTimer, Verbs.rnrRetryCount, none⟩

/-- `Acceptor::~Acceptor`. -/
def destroy (acceptor : Acceptor) : RdmaM Unit := Rdma.call (.destroyEp acceptor.mCmId)

/-- Calls made by an acceptor that keeps its members. -/
def onRdma {α : Type} (x : RdmaM α) : EStateM Error (Acceptor × Rdma) α :=
  zoom Prod.snd (fun state rdma => (state.1, rdma)) x

def listen (hostname port : String) (answers : ListenAnswers) :
    EStateM Error (Acceptor × Rdma) Unit := do
  onRdma (createAddrInfo hostname port true answers.getaddrinfo)
  let acceptor := (← get).1
  let ret ← onRdma (Rdma.create (.createEp (.ofCredits acceptor.mCredits)) answers.createEp)
  onRdma (Rdma.call .freeaddrinfo)
  match ret with
  | .error text =>
    onRdma (Rdma.call (.destroyEp acceptor.mCmId))
    throw (.runtimeError s!"Error on rdma_create_ep: {text}")
  | .ok cmId =>
    modify fun state => ({ state.1 with mCmId := cmId }, state.2)
    match ← onRdma (Rdma.tryCall (.listen cmId 128) answers.listen) with
    | some text =>
      onRdma (Rdma.call (.destroyEp cmId))
      throw (.runtimeError s!"Error on rdma_listen: {text}")
    | none => pure ()

def accept (acceptor : Acceptor) (answers : AcceptAnswers) : RdmaM CmSocket := do
  match ← Rdma.create (.getRequest acceptor.mCmId) answers.getRequest with
  | .error text => throw (.runtimeError s!"Error on rdma_get_request: {text}")
  | .ok newCmId =>
    match ← Rdma.tryCall (.accept newCmId ⟨0, acceptor.mRnrRetryCount⟩) answers.accept with
    | some text =>
      Rdma.call (.destroyEp newCmId)
      throw (.runtimeError s!"Error on rdma_accept: {text}")
    | none =>
      match ← Rdma.tryCall (.modifyQp newCmId acceptor.mMinRtrTimer) answers.modifyQp with
      | some text =>
        Rdma.call (.destroyEp newCmId)
        throw (.runtimeError s!"Error on ibv_modify_qp: {text}")
      | none => return .construct newCmId acceptor.mCredits

end Acceptor

structure Connector where
  mCredits : ℕ
  mMinRtrTimer : ℕ
  mRetryCount : ℕ
  mRnrRetryCount : ℕ
  deriving DecidableEq, Repr

namespace Connector

def construct (credits : ℕ) : Connector :=
  ⟨credits, Verbs.minRtrTimer, Verbs.retryCount, Verbs.rnrRetryCount⟩

def connect (connector : Connector) (hostname port : String) (answers : ConnectAnswers) :
    RdmaM CmSocket := do
  createAddrInfo hostname port false answers.getaddrinfo
  let ret ← Rdma.create (.createEp (.ofCredits connector.mCredits)) answers.createEp
  Rdma.call .freeaddrinfo
  match ret with
  | .error text => throw (.runtimeError s!"Error on rdma_create_ep: {text}")
  | .ok cmId =>
    match ← Rdma.tryCall (.connect cmId ⟨connector.mRetryCount, connector.mRnrRetryCount⟩)
        answers.connect with
    | some text =>
      Rdma.call (.destroyEp cmId)
      throw (.runtimeError s!"Error on rdma_connect: {text}")
    | none =>
      match ← Rdma.tryCall (.modifyQp cmId connector.mMinRtrTimer) answers.modifyQp with
      | some text =>
        Rdma.call (.destroyEp cmId)
        throw (.runtimeError s!"Error on ibv_modify_qp: {text}")
      | none => return .construct cmId connector.mCredits

end Connector

/-- What becomes of an acceptor: it may listen once, and is destroyed in the end. -/
inductive Tenure where
  | unborn
  | built (acceptor : Acceptor)
  | listened (acceptor : Acceptor)
  | gone

/-- An acceptor and the sockets handed out, by it or by connectors. -/
structure Endpoints where
  acceptor : Tenure
  sockets : List CmSocket
  rdma : Rdma

inductive EndpointCall where
  | construct (credits : ℕ)
  | listen (hostname port : String) (answers : ListenAnswers)
  | accept (answers : AcceptAnswers)
  | destroy
  | connect (credits : ℕ) (hostname port : String) (answers : ConnectAnswers)
  | registerMemory (buffer size : ℕ) (ret : Option String)
  | destroySocket
  deriving DecidableEq, Repr

/-- The socket that a call hands out: none if it throws. -/
def handedOut : EStateM.Result Error Rdma CmSocket → List CmSocket
  | .ok socket _ => [socket]
  | .error _ _ => []

namespace Endpoints

def start : Endpoints := ⟨.unborn, [], .start⟩

/-- The acceptor and all sockets are destroyed. -/
def Ended (ends : Endpoints) : Prop :=
  (ends.acceptor = .unborn ∨ ends.acceptor = .gone) ∧ ends.sockets = []

end Endpoints

/-- Calls in any order, with any of their answers an error. -/
inductive EndpointStep : Endpoints → EndpointCall → Endpoints → Prop where
  | construct {sockets : List CmSocket} {rdma : Rdma} {credits : ℕ} :
      EndpointStep ⟨.unborn, sockets, rdma⟩ (.construct credits)
        ⟨.built (.construct credits), sockets, rdma⟩
  | listen {acceptor : Acceptor} {sockets : List CmSocket} {rdma : Rdma}
      {hostname port : String} {answers : ListenAnswers} :
      EndpointStep ⟨.built acceptor, sockets, rdma⟩ (.listen hostname port answers)
        ⟨.listened (final (Acceptor.listen hostname port answers (acceptor, rdma))).1, sockets,
          (final (Acceptor.listen hostname port answers (acceptor, rdma))).2⟩
  | accept {tenure : Tenure} {acceptor : Acceptor} {sockets : List CmSocket} {rdma : Rdma}
      {answers : AcceptAnswers}
      (alive : tenure = .built acceptor ∨ tenure = .listened acceptor) :
      EndpointStep ⟨tenure, sockets, rdma⟩ (.accept answers)
        ⟨tenure, handedOut (acceptor.accept answers rdma) ++ sockets,
          final (acceptor.accept answers rdma)⟩
  | destroy {tenure : Tenure} {acceptor : Acceptor} {sockets : List CmSocket} {rdma : Rdma}
      (alive : tenure = .built acceptor ∨ tenure = .listened acceptor) :
      EndpointStep ⟨tenure, sockets, rdma⟩ .destroy
        ⟨.gone, sockets, final (acceptor.destroy rdma)⟩
  | connect {tenure : Tenure} {sockets : List CmSocket} {rdma : Rdma} {credits : ℕ}
      {hostname port : String} {answers : ConnectAnswers} :
      EndpointStep ⟨tenure, sockets, rdma⟩ (.connect credits hostname port answers)
        ⟨tenure,
          handedOut ((Connector.construct credits).connect hostname port answers rdma) ++ sockets,
          final ((Connector.construct credits).connect hostname port answers rdma)⟩
  | registerMemory {tenure : Tenure} {front back : List CmSocket} {cmId : CmId} {socket : Socket}
      {rdma : Rdma} {buffer size : ℕ} {ret : Option String} :
      EndpointStep ⟨tenure, front ++ ⟨cmId, socket⟩ :: back, rdma⟩
        (.registerMemory buffer size ret)
        ⟨tenure, front ++
          ⟨cmId, final (Socket.tryRegisterMemory .verbs buffer size ret socket)⟩ :: back, rdma⟩
  | destroySocket {tenure : Tenure} {front back : List CmSocket} {socket : CmSocket}
      {rdma : Rdma} :
      EndpointStep ⟨tenure, front ++ socket :: back, rdma⟩ .destroySocket
        ⟨tenure, front ++ back, final (socket.destroy rdma)⟩

end Lseb
