import Lseb.Foundation.Ownership
import Lseb.Foundation.Unwinding
import Lseb.Transport.Socket

/-!
# Fabric objects of the libfabric transport

Objects are held by unique pointers. Those of a function's local variables are
closed at its end in the reverse order of their declarations, those of a class
with its instance in the same way. The calls made are recorded in order; which
of them fail, and with what text, is an input. The contents of the hints and
the address of the peer are left out.
-/

namespace Lseb

open Foundation

/-- A fabric object, by number. -/
abbrev Fid := ℕ

/-- The calls of libfabric: creations with the object that they create, attempts with whether they
succeed. `connreq` is the event of a request, which comes with an address; `close` is `fi_close`
or `fi_freeinfo`. -/
inductive FiCall where
  | allocinfo (created : Option Fid)
  | getinfo (address : Option (String × String)) (source : Bool) (hints : Fid)
      (created : Option Fid)
  | fabric (info : Fid) (created : Option Fid)
  | domain (fabric info : Fid) (created : Option Fid)
  | passiveEp (fabric info : Fid) (created : Option Fid)
  | eqOpen (fabric : Fid) (created : Option Fid)
  | cqOpen (domain : Fid) (size : ℕ) (created : Option Fid)
  | endpoint (domain info : Fid) (created : Option Fid)
  | mrReg (domain : Fid) (buffer size : ℕ) (created : Option Fid)
  | connreq (eq : Fid) (created : Option Fid)
  | eqSread (eq : Fid)
  | eqReaderr (eq : Fid)
  | bind (ep queue : Fid) (done : Bool)
  | listen (pep : Fid) (done : Bool)
  | accept (ep : Fid) (done : Bool)
  | connect (ep info : Fid) (done : Bool)
  | close (object : Fid)
  deriving DecidableEq, Repr

/-- The objects that a call is given. -/
def FiCall.uses : FiCall → List Fid
  | .allocinfo _ => []
  | .getinfo _ _ hints _ => [hints]
  | .fabric info _ => [info]
  | .domain f info _ | .passiveEp f info _ => [f, info]
  | .eqOpen f _ => [f]
  | .cqOpen d _ _ | .mrReg d _ _ _ => [d]
  | .endpoint d info _ => [d, info]
  | .connreq eq _ | .eqSread eq | .eqReaderr eq => [eq]
  | .bind ep queue _ => [ep, queue]
  | .listen ep _ | .accept ep _ => [ep]
  | .connect ep info _ => [ep, info]
  | .close object => [object]

/-- What a call does to the objects. -/
def FiCall.effect : FiCall → Option (Deed Fid)
  | .allocinfo (some object) | .getinfo _ _ _ (some object) | .fabric _ (some object)
  | .domain _ _ (some object) | .passiveEp _ _ (some object) | .eqOpen _ (some object)
  | .cqOpen _ _ (some object) | .endpoint _ _ (some object) | .mrReg _ _ _ (some object)
  | .connreq _ (some object) => some (.acquire object)
  | .bind ep queue true => some (.attach queue ep)
  | .close object => some (.release object)
  | _ => none

def FiCall.deeds (call : FiCall) : List (Deed Fid) :=
  call.uses.map .touch ++ call.effect.toList

/-- The members of the singleton. -/
structure Domain where
  fabric : Fid
  domain : Fid
  hints : Fid
  deriving DecidableEq, Repr

/-- The static instance, the next object, and the calls so far. -/
structure Fabric where
  domain : Option Domain
  next : ℕ
  calls : List FiCall
  deriving Repr

abbrev FabricM := EStateM Error Fabric

namespace Fabric

def start : Fabric := ⟨none, 0, []⟩

/-- The creations, bindings, uses and closes of objects. -/
def history (fabric : Fabric) : List (Deed Fid) := fabric.calls.flatMap FiCall.deeds

def record (call : FiCall) (fabric : Fabric) : Fabric :=
  { fabric with calls := fabric.calls ++ [call] }

/-- A call created the next object. -/
def created (made : Option Fid → FiCall) (fabric : Fabric) : Fabric :=
  { fabric with
    next := fabric.next + 1
    calls := fabric.calls ++ [made (some fabric.next)] }

def call (made : FiCall) : FabricM Unit := modify (record made)

/-- A call whose answer is an error text or none. -/
def tryCall (made : Bool → FiCall) (answer : Option String) : FabricM (Option String) := do
  call (made answer.isNone)
  return answer

/-- A call that creates an object. -/
def make (made : Option Fid → FiCall) : FabricM Fid := fun fabric =>
  .ok fabric.next (created made fabric)

/-- A call that creates an object unless it fails. -/
def create (made : Option Fid → FiCall) : Option String → FabricM (Except String Fid)
  | some text => do
    call (made none)
    return .error text
  | none => do return .ok (← make made)

def close (object : Fid) (fabric : Fabric) : Fabric := record (.close object) fabric

def closeAll (objects : List Fid) (fabric : Fabric) : Fabric :=
  objects.foldl (fun fabric object => fabric.close object) fabric

end Fabric

/-- Which calls of the constructor fail; after a failed `fi_getinfo`, `info_p` is null or not
initialised. -/
structure DomainAnswers where
  getinfo : Option (String × Bool)
  fabric : Option String
  domain : Option String
  deriving DecidableEq, Repr

namespace Domain

/-- The local variable of the constructor and the members so far. -/
structure Locals where
  info : Option Fid
  hints : Option Fid
  domain : Option Fid
  fabric : Option Fid

def Locals.enter (fabric : Fabric) : Locals × Fabric := (⟨none, none, none, none⟩, fabric)

/-- The variable is destroyed first, then the members in reverse. -/
def Locals.unwind (state : Locals × Fabric) : Fabric :=
  state.2.closeAll
    [state.1.info, state.1.hints, state.1.domain, state.1.fabric].reduceOption

def construct (answers : DomainAnswers) : FabricM Domain :=
  scope Locals.enter Locals.unwind do
    let hints ← outer (Fabric.make .allocinfo)
    assign fun locals => { locals with hints := some hints }
    match answers.getinfo with
    | some (text, null) =>
      outer (Fabric.call (.getinfo none false hints none))
      -- the uninitialised pointer would be freed during the unwinding
      if null then throw (.runtimeError s!"Error on Domain fi_info: {text}")
      else throw (.fault "info_p")
    | none =>
      let info ← outer (Fabric.make (.getinfo none false hints))
      assign fun locals => { locals with info := some info }
      match ← outer (Fabric.create (.fabric info) answers.fabric) with
      | .error text => throw (.runtimeError s!"Error on Domain fi_fabric: {text}")
      | .ok fabric =>
        assign fun locals => { locals with fabric := some fabric }
        match ← outer (Fabric.create (.domain fabric info) answers.domain) with
        | .error text => throw (.runtimeError s!"Error on Domain fi_domain: {text}")
        | .ok domain =>
          assign fun locals => ⟨locals.info, none, none, none⟩
          return ⟨fabric, domain, hints⟩

/-- `Domain::get_instance`; after an exception of the constructor the next call tries again. -/
def getInstance (answers : DomainAnswers) : FabricM Domain := do
  match (← get).domain with
  | some instance_ => return instance_
  | none =>
    let instance_ ← construct answers
    modify fun fabric => { fabric with domain := some instance_ }
    return instance_

end Domain

/-- The answer of an event queue: the expected event or another one, or an error. -/
inductive EqRead where
  | expected
  | unexpected
  | failed (text : String)
  | errorEntry (text : String)
  | readerrFailed (text : String)
  deriving DecidableEq, Repr

namespace Fi

/-- `read_event`, from a queue that may be null. -/
def readEvent (eq : Option Fid) (read : EqRead) : FabricM Unit := do
  match eq with
  | none => throw (.fault "eq.get()")
  | some eq =>
    Fabric.call (.eqSread eq)
    match read with
    | .expected => pure ()
    | .unexpected => throw (.runtimeError "Error on fi_eq_sread: Unexpected CM event")
    | .failed text => throw (.runtimeError s!"Error on fi_eq_sread: {text}")
    | .errorEntry text =>
      Fabric.call (.eqReaderr eq)
      throw (.runtimeError s!"Error on fi_eq_sread: {text}")
    | .readerrFailed text =>
      Fabric.call (.eqReaderr eq)
      throw (.runtimeError s!"Error on fi_eq_readerr: {text}")

/-- `read_event` for a request: the entry has an address that is to be freed. -/
def readRequest (eq : Option Fid) (read : EqRead) : FabricM Fid := do
  readEvent eq read
  Fabric.make (.connreq (eq.getD 0))

/-- The local variables of `accept` and `connect`, in the order of their declarations; `accept`
has no `info`. -/
structure Locals where
  info : Option Fid
  ep : Option Fid
  rxCq : Option Fid
  txCq : Option Fid
  eq : Option Fid
  deriving DecidableEq, Repr

def Locals.enter (fabric : Fabric) : Locals × Fabric := (⟨none, none, none, none, none⟩, fabric)

def Locals.unwind (state : Locals × Fabric) : Fabric :=
  state.2.closeAll
    [state.1.eq, state.1.txCq, state.1.rxCq, state.1.ep, state.1.info].reduceOption

abbrev ScopedM := EStateM Error (Locals × Fabric)

structure QueueAnswers where
  openRx : Option String
  openTx : Option String
  bindRx : Option String
  bindTx : Option String
  openEq : Option String
  bindEq : Option String
  deriving DecidableEq, Repr

/-- `bind_completion_queues`. -/
def bindCompletionQueues (ep : Fid) (size : ℕ) (domain : DomainAnswers) (answers : QueueAnswers) :
    ScopedM Unit := do
  let d ← outer (Domain.getInstance domain)
  match ← outer (Fabric.create (.cqOpen d.domain size) answers.openRx) with
  | .error text => throw (.runtimeError s!"Error on fi_cq_open rx: {text}")
  | .ok rx =>
    assign fun locals => { locals with rxCq := some rx }
    match ← outer (Fabric.create (.cqOpen d.domain size) answers.openTx) with
    | .error text => throw (.runtimeError s!"Error on fi_cq_open tx: {text}")
    | .ok tx =>
      assign fun locals => { locals with txCq := some tx }
      match ← outer (Fabric.tryCall (.bind ep rx) answers.bindRx) with
      | some text => throw (.runtimeError s!"Error on fi_ep_bind rx: {text}")
      | none =>
        match ← outer (Fabric.tryCall (.bind ep tx) answers.bindTx) with
        | some text => throw (.runtimeError s!"Error on fi_ep_bind tx: {text}")
        | none => pure ()

/-- `bind_event_queue`. -/
def bindEventQueue (ep : Fid) (domain : DomainAnswers) (answers : QueueAnswers) :
    ScopedM Unit := do
  let d ← outer (Domain.getInstance domain)
  match ← outer (Fabric.create (.eqOpen d.fabric) answers.openEq) with
  | .error text => throw (.runtimeError s!"Error on fi_eq_open: {text}")
  | .ok eq =>
    assign fun locals => { locals with eq := some eq }
    match ← outer (Fabric.tryCall (.bind ep eq) answers.bindEq) with
    | some text => throw (.runtimeError s!"Error on fi_ep_bind eq: {text}")
    | none => pure ()

end Fi

/-- A socket of the libfabric transport, with the objects that it owns. -/
structure FabricSocket where
  mEp : Option Fid
  mRxCq : Option Fid
  mTxCq : Option Fid
  mMrs : List Fid
  socket : Socket

namespace FabricSocket

/-- The implicit destructor, members in the reverse order of their declarations. -/
def destroy (socket : FabricSocket) (fabric : Fabric) : Fabric :=
  fabric.closeAll (socket.mMrs ++ [socket.mTxCq, socket.mRxCq, socket.mEp].reduceOption)

/-- `Socket::register_memory`, which does nothing over TCP. -/
def registerMemory (t : Transport) (buffer size : ℕ) (domain : DomainAnswers)
    (mrReg : Option String) : EStateM Error (FabricSocket × Fabric) Unit := do
  match t with
  | .fiVerbs =>
    let d ← outer (Domain.getInstance domain)
    match ← outer (Fabric.create (.mrReg d.domain buffer size) mrReg) with
    | .error text => throw (.socketError s!"Error on fi_mr_reg: {text}")
    | .ok mr =>
      modify fun state => ({ state.1 with
        mMrs := state.1.mMrs ++ [mr]
        socket := state.1.socket.registerMemory t buffer size }, state.2)
  | .fiTcp | .verbs => pure ()

end FabricSocket

namespace Fi

/-- `make_unique<Socket>` of the released pointers. -/
def handOver (credits : ℕ) : ScopedM FabricSocket := fun state =>
  .ok ⟨state.1.ep, state.1.rxCq, state.1.txCq, [], .construct credits⟩
    (⟨state.1.info, none, none, none, state.1.eq⟩, state.2)

structure ListenAnswers where
  domain : DomainAnswers
  getinfo : Option String
  passiveEp : Option String
  eqOpen : Option String
  bind : Option String
  listen : Option String
  deriving DecidableEq, Repr

structure AcceptAnswers where
  domain : DomainAnswers
  request : EqRead
  endpoint : Option String
  queues : QueueAnswers
  accept : Option String
  connected : EqRead
  deriving DecidableEq, Repr

structure ConnectAnswers where
  domain : DomainAnswers
  getinfo : Option String
  endpoint : Option String
  queues : QueueAnswers
  connect : Option String
  connected : EqRead
  deriving DecidableEq, Repr

structure Acceptor where
  mCredits : ℕ
  mPep : Option Fid
  mPepEq : Option Fid
  deriving DecidableEq, Repr

namespace Acceptor

def construct (credits : ℕ) : Acceptor := ⟨credits, none, none⟩

/-- The implicit destructor, members in the reverse order of their declarations. -/
def destroy (acceptor : Acceptor) (fabric : Fabric) : Fabric :=
  fabric.closeAll [acceptor.mPepEq, acceptor.mPep].reduceOption

/-- The local variable of `listen` and the members. -/
structure Listening where
  info : Option Fid
  acceptor : Acceptor

def Listening.enter (state : Acceptor × Fabric) : Listening × Fabric := (⟨none, state.1⟩, state.2)

def Listening.unwind (state : Listening × Fabric) : Acceptor × Fabric :=
  (state.1.acceptor, state.2.closeAll state.1.info.toList)

/-- What `listen` does without a passive endpoint. -/
def listenFirst (hostname port : String) (answers : ListenAnswers) :
    EStateM Error (Listening × Fabric) Unit := do
  let d ← outer (Domain.getInstance answers.domain)
  match ← outer
      (Fabric.create (.getinfo (some (hostname, port)) true d.hints) answers.getinfo) with
  | .error text => throw (.runtimeError s!"Error on fi_getinfo: {text}")
  | .ok info =>
    assign fun locals => { locals with info := some info }
    match ← outer (Fabric.create (.passiveEp d.fabric info) answers.passiveEp) with
    | .error text => throw (.runtimeError s!"Error on fi_passive_ep: {text}")
    | .ok pep =>
      assign fun locals => { locals with acceptor.mPep := some pep }
      match ← outer (Fabric.create (.eqOpen d.fabric) answers.eqOpen) with
      | .error text => throw (.runtimeError s!"Error on fi_eq_open: {text}")
      | .ok eq =>
        modify fun state => ({ state.1 with acceptor.mPepEq := some eq },
          state.2.closeAll state.1.acceptor.mPepEq.toList)
        match ← outer (Fabric.tryCall (.bind pep eq) answers.bind) with
        | some text => throw (.runtimeError s!"Error on fi_pep_bind: {text}")
        | none =>
          match ← outer (Fabric.tryCall (.listen pep) answers.listen) with
          | some text => throw (.runtimeError s!"Error on fi_listen: {text}")
          | none => pure ()

/-- `Acceptor::listen`, which does nothing if there is a passive endpoint already. -/
def listen (hostname port : String) (answers : ListenAnswers) :
    EStateM Error (Acceptor × Fabric) Unit := do
  match (← get).1.mPep with
  | some _ => pure ()
  | none => scope Listening.enter Listening.unwind (listenFirst hostname port answers)

def accept (acceptor : Acceptor) (answers : AcceptAnswers) : FabricM FabricSocket :=
  scope Locals.enter Locals.unwind do
    let d ← outer (Domain.getInstance answers.domain)
    let info ← outer (readRequest acceptor.mPepEq answers.request)
    let ret ← outer (Fabric.create (.endpoint d.domain info) answers.endpoint)
    outer (modify (Fabric.close info))
    match ret with
    | .error text => throw (.runtimeError s!"Error on fi_endpoint: {text}")
    | .ok ep =>
      assign fun locals => { locals with ep := some ep }
      bindCompletionQueues ep acceptor.mCredits answers.domain answers.queues
      bindEventQueue ep answers.domain answers.queues
      match ← outer (Fabric.tryCall (.accept ep) answers.accept) with
      | some text => throw (.runtimeError s!"Error on fi_accept: {text}")
      | none =>
        outer (readEvent (← get).1.eq answers.connected)
        handOver acceptor.mCredits

end Acceptor

/-- `Connector::connect` of a connector with so many credits. -/
def connect (credits : ℕ) (hostname port : String) (answers : ConnectAnswers) :
    FabricM FabricSocket :=
  scope Locals.enter Locals.unwind do
    let d ← outer (Domain.getInstance answers.domain)
    match ← outer
        (Fabric.create (.getinfo (some (hostname, port)) false d.hints) answers.getinfo) with
    | .error text => throw (.runtimeError s!"Error on fi_getinfo: {text}")
    | .ok info =>
      assign fun locals => { locals with info := some info }
      match ← outer (Fabric.create (.endpoint d.domain info) answers.endpoint) with
      | .error text => throw (.runtimeError s!"Error on fi_endpoint: {text}")
      | .ok ep =>
        assign fun locals => { locals with ep := some ep }
        bindCompletionQueues ep credits answers.domain answers.queues
        bindEventQueue ep answers.domain answers.queues
        match ← outer (Fabric.tryCall (.connect ep info) answers.connect) with
        | some text => throw (.runtimeError s!"Error on fi_connect: {text}")
        | none =>
          outer (readEvent (← get).1.eq answers.connected)
          handOver credits

end Fi

/-- The acceptors and sockets of a process. -/
structure FabricProcess where
  acceptors : List Fi.Acceptor
  sockets : List FabricSocket
  fabric : Fabric

namespace FabricProcess

def start : FabricProcess := ⟨[], [], .start⟩

/-- The end of the process destroys the singleton, if there is one, members in reverse. -/
def exit (process : FabricProcess) : Fabric :=
  match process.fabric.domain with
  | some d => { process.fabric with domain := none }.closeAll [d.hints, d.domain, d.fabric]
  | none => process.fabric

end FabricProcess

inductive FabricEvent where
  | construct (credits : ℕ)
  | listen (hostname port : String) (answers : Fi.ListenAnswers)
  | accept (answers : Fi.AcceptAnswers)
  | connect (credits : ℕ) (hostname port : String) (answers : Fi.ConnectAnswers)
  | registerMemory (buffer size : ℕ) (domain : DomainAnswers) (mrReg : Option String)
  | destroySocket
  | destroyAcceptor
  deriving DecidableEq, Repr

/-- The socket that a call hands out: none if it throws. -/
def madeSocket : EStateM.Result Error Fabric FabricSocket → List FabricSocket
  | .ok socket _ => [socket]
  | .error _ _ => []

/-- Nothing was done with a pointer that points to nothing. -/
def Defined {σ α : Type} : EStateM.Result Error σ α → Prop
  | .error (.fault _) _ => False
  | _ => True

/-- Calls in any order, with any of their answers an error, as long as their behaviour is
defined. -/
inductive FabricStep (t : Transport) : FabricProcess → FabricEvent → FabricProcess → Prop where
  | construct {acceptors : List Fi.Acceptor} {sockets : List FabricSocket} {fabric : Fabric}
      {credits : ℕ} :
      FabricStep t ⟨acceptors, sockets, fabric⟩ (.construct credits)
        ⟨.construct credits :: acceptors, sockets, fabric⟩
  | listen {front back : List Fi.Acceptor} {acceptor : Fi.Acceptor} {sockets : List FabricSocket}
      {fabric : Fabric} {hostname port : String} {answers : Fi.ListenAnswers}
      (defined : Defined (Fi.Acceptor.listen hostname port answers (acceptor, fabric))) :
      FabricStep t ⟨front ++ acceptor :: back, sockets, fabric⟩ (.listen hostname port answers)
        ⟨front ++ (final (Fi.Acceptor.listen hostname port answers (acceptor, fabric))).1 :: back,
          sockets, (final (Fi.Acceptor.listen hostname port answers (acceptor, fabric))).2⟩
  | accept {acceptors : List Fi.Acceptor} {acceptor : Fi.Acceptor} {sockets : List FabricSocket}
      {fabric : Fabric} {answers : Fi.AcceptAnswers} (alive : acceptor ∈ acceptors)
      (defined : Defined (acceptor.accept answers fabric)) :
      FabricStep t ⟨acceptors, sockets, fabric⟩ (.accept answers)
        ⟨acceptors, madeSocket (acceptor.accept answers fabric) ++ sockets,
          final (acceptor.accept answers fabric)⟩
  | connect {acceptors : List Fi.Acceptor} {sockets : List FabricSocket} {fabric : Fabric}
      {credits : ℕ} {hostname port : String} {answers : Fi.ConnectAnswers}
      (defined : Defined (Fi.connect credits hostname port answers fabric)) :
      FabricStep t ⟨acceptors, sockets, fabric⟩ (.connect credits hostname port answers)
        ⟨acceptors, madeSocket (Fi.connect credits hostname port answers fabric) ++ sockets,
          final (Fi.connect credits hostname port answers fabric)⟩
  | registerMemory {acceptors : List Fi.Acceptor} {front back : List FabricSocket}
      {socket : FabricSocket} {fabric : Fabric} {buffer size : ℕ} {domain : DomainAnswers}
      {mrReg : Option String}
      (defined : Defined (FabricSocket.registerMemory t buffer size domain mrReg
        (socket, fabric))) :
      FabricStep t ⟨acceptors, front ++ socket :: back, fabric⟩
        (.registerMemory buffer size domain mrReg)
        ⟨acceptors,
          front ++ (final (FabricSocket.registerMemory t buffer size domain mrReg
            (socket, fabric))).1 :: back,
          (final (FabricSocket.registerMemory t buffer size domain mrReg (socket, fabric))).2⟩
  | destroySocket {acceptors : List Fi.Acceptor} {front back : List FabricSocket}
      {socket : FabricSocket} {fabric : Fabric} :
      FabricStep t ⟨acceptors, front ++ socket :: back, fabric⟩ .destroySocket
        ⟨acceptors, front ++ back, socket.destroy fabric⟩
  | destroyAcceptor {front back : List Fi.Acceptor} {acceptor : Fi.Acceptor}
      {sockets : List FabricSocket} {fabric : Fabric} :
      FabricStep t ⟨front ++ acceptor :: back, sockets, fabric⟩ .destroyAcceptor
        ⟨front ++ back, sockets, acceptor.destroy fabric⟩

end Lseb
