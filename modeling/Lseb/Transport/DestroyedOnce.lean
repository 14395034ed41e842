import Lseb.Transport.Endpoints

/-!
# Which endpoints are destroyed once

What `accept` and `connect` create they destroy or hand to a socket, which
destroys it. An acceptor destroys whatever its member points to, also if
`listen` was not called, or has destroyed the endpoint after a failure.
-/

namespace Lseb

open Foundation LedgerEntry

namespace Rdma

variable {made : CmId → RdmaCall} {call : RdmaCall} {rdma : Rdma}

@[simp] theorem next_record : (record call rdma).next = rdma.next := rfl

theorem ledger_record : (record call rdma).ledger = rdma.ledger ++ call.entry.toList := by
  cases entered : call.entry <;> simp [ledger, record, entered]

theorem ledger_created (creates : (made (some rdma.next)).entry = some (acquire (some rdma.next))) :
    (created made rdma).ledger = rdma.ledger ++ [acquire (some rdma.next)] := by
  simp [ledger, created, creates]

/-- A call that neither creates nor destroys. -/
theorem ledger_quiet (quiet : call.entry = none) : (record call rdma).ledger = rdma.ledger := by
  rw [ledger_record, quiet]
  exact List.append_nil _

theorem ledger_destroyEp (id : CmId) :
    (record (.destroyEp id) rdma).ledger = rdma.ledger ++ [release id] :=
  ledger_record

/-- An address is looked up, and an endpoint is created for it. -/
theorem ledger_createEp (hostname port : String) (passive : Bool) (attr : QpInitAttr) :
    (created (.createEp attr) (record (.getaddrinfo hostname port passive) rdma)).ledger =
      rdma.ledger ++ [acquire (some rdma.next)] := by
  rw [ledger_created rfl, ledger_quiet rfl, next_record]

end Rdma

open Rdma

/-- What a function that makes a socket does to the endpoints: it creates none, or
destroys the one it creates, or hands it out. -/
inductive Creation (rdma : Rdma) : List CmSocket → Rdma → Prop where
  | nothing {after : Rdma} (ledger : after.ledger = rdma.ledger) (next : after.next = rdma.next) :
      Creation rdma [] after
  | undone {after : Rdma}
      (ledger : after.ledger =
        rdma.ledger ++ [acquire (some rdma.next)] ++ [release (some rdma.next)])
      (next : after.next = rdma.next + 1) : Creation rdma [] after
  | handed {after : Rdma} {socket : CmSocket} (owner : socket.mCmId = some rdma.next)
      (ledger : after.ledger = rdma.ledger ++ [acquire (some rdma.next)])
      (next : after.next = rdma.next + 1) : Creation rdma [socket] after

theorem Acceptor.accept_creation (acceptor : Acceptor) (answers : AcceptAnswers) (rdma : Rdma) :
    Creation rdma (handedOut (acceptor.accept answers rdma))
      (final (acceptor.accept answers rdma)) := by
  obtain ⟨getRequest, accept, modifyQp⟩ := answers
  have requested : (created (.getRequest acceptor.mCmId) rdma).ledger =
      rdma.ledger ++ [acquire (some rdma.next)] := ledger_created rfl
  cases getRequest with
  | some text =>
    refine .nothing ?_ rfl
    exact ledger_quiet rfl
  | none =>
    cases accept with
    | some text =>
      refine .undone ?_ rfl
      refine (ledger_destroyEp _).trans ?_
      rw [ledger_quiet rfl, requested]
    | none =>
      cases modifyQp with
      | some text =>
        refine .undone ?_ rfl
        refine (ledger_destroyEp _).trans ?_
        rw [ledger_quiet rfl, ledger_quiet rfl, requested]
      | none =>
        refine .handed rfl ?_ rfl
        refine (ledger_quiet rfl).trans ?_
        rw [ledger_quiet rfl, requested]

theorem Connector.connect_creation (connector : Connector) (hostname port : String)
    (answers : ConnectAnswers) (rdma : Rdma) :
    Creation rdma (handedOut (connector.connect hostname port answers rdma))
      (final (connector.connect hostname port answers rdma)) := by
  obtain ⟨getaddrinfo, createEp, connect, modifyQp⟩ := answers
  have resolved : (record (.getaddrinfo hostname port false) rdma).ledger = rdma.ledger :=
    ledger_quiet rfl
  have endpoint := @ledger_createEp rdma hostname port false (.ofCredits connector.mCredits)
  cases getaddrinfo with
  | some text =>
    refine .nothing ?_ rfl
    exact resolved
  | none =>
    cases createEp with
    | some text =>
      refine .nothing ?_ rfl
      refine (ledger_quiet rfl).trans ?_
      rw [ledger_quiet rfl, resolved]
    | none =>
      cases connect with
      | some text =>
        refine .undone ?_ rfl
        refine (ledger_destroyEp _).trans ?_
        rw [ledger_quiet rfl, ledger_quiet rfl, endpoint]
        rfl
      | none =>
        cases modifyQp with
        | some text =>
          refine .undone ?_ rfl
          refine (ledger_destroyEp _).trans ?_
          rw [ledger_quiet rfl, ledger_quiet rfl, ledger_quiet rfl, endpoint]
          rfl
        | none =>
          refine .handed rfl ?_ rfl
          refine (ledger_quiet rfl).trans ?_
          rw [ledger_quiet rfl, ledger_quiet rfl, endpoint]

/-- None of the calls of `listen` fails. -/
def ListenAnswers.Succeed (answers : ListenAnswers) : Prop :=
  answers.getaddrinfo = none ∧ answers.createEp = none ∧ answers.listen = none

/-- What `listen` leaves behind: the new endpoint in the member, or a pointer that the
destructor must not destroy any more. -/
inductive Listening (acceptor : Acceptor) (answers : ListenAnswers) (rdma : Rdma) :
    Acceptor × Rdma → Prop where
  | unresolved {after : Rdma} (failed : ¬answers.Succeed) (ledger : after.ledger = rdma.ledger)
      (next : after.next = rdma.next) : Listening acceptor answers rdma (acceptor, after)
  | uncreated {after : Rdma} (failed : ¬answers.Succeed)
      (ledger : after.ledger = rdma.ledger ++ [release acceptor.mCmId])
      (next : after.next = rdma.next) : Listening acceptor answers rdma (acceptor, after)
  | undone {after : Rdma} (failed : ¬answers.Succeed)
      (ledger : after.ledger =
        rdma.ledger ++ [acquire (some rdma.next)] ++ [release (some rdma.next)])
      (next : after.next = rdma.next + 1) :
      Listening acceptor answers rdma ({ acceptor with mCmId := some rdma.next }, after)
  | listens {after : Rdma} (succeeded : answers.Succeed)
      (ledger : after.ledger = rdma.ledger ++ [acquire (some rdma.next)])
      (next : after.next = rdma.next + 1) :
      Listening acceptor answers rdma ({ acceptor with mCmId := some rdma.next }, after)

theorem Acceptor.listen_listening (acceptor : Acceptor) (hostname port : String)
    (answers : ListenAnswers) (rdma : Rdma) :
    Listening acceptor answers rdma
      (final (Acceptor.listen hostname port answers (acceptor, rdma))) := by
  obtain ⟨getaddrinfo, createEp, listen⟩ := answers
  have resolved : (record (.getaddrinfo hostname port true) rdma).ledger = rdma.ledger :=
    ledger_quiet rfl
  have endpoint := @ledger_createEp rdma hostname port true (.ofCredits acceptor.mCredits)
  cases getaddrinfo with
  | some text =>
    refine .unresolved ?_ resolved rfl
    simp [ListenAnswers.Succeed]
  | none =>
    cases createEp with
    | some text =>
      refine .uncreated ?_ ?_ rfl
      · simp [ListenAnswers.Succeed]
      · refine (ledger_destroyEp _).trans ?_
        rw [ledger_quiet rfl, ledger_quiet rfl, resolved]
    | none =>
      cases listen with
      | some text =>
        refine .undone ?_ ?_ rfl
        · simp [ListenAnswers.Succeed]
        · refine (ledger_destroyEp _).trans ?_
          rw [ledger_quiet rfl, ledger_quiet rfl, endpoint]
          rfl
      | none =>
        refine .listens ⟨rfl, rfl, rfl⟩ ?_ rfl
        refine (ledger_quiet rfl).trans ?_
        rw [ledger_quiet rfl, endpoint]

theorem CmSocket.destroy_final (socket : CmSocket) (rdma : Rdma) :
    (final (socket.destroy rdma)).ledger = rdma.ledger ++ [release socket.mCmId] ∧
      (final (socket.destroy rdma)).next = rdma.next := by
  obtain ⟨cmId, ⟨mrs, _, _, _⟩⟩ := socket
  induction mrs generalizing rdma with
  | nil => exact ⟨ledger_destroyEp cmId, rfl⟩
  | cons mr mrs ih =>
    have rest := ih (record (.deregMr mr) rdma)
    rwa [ledger_quiet rfl, next_record] at rest

/-- Every endpoint created has a number below the next one. -/
def Fresh (ledger : List (LedgerEntry CmId)) (next : ℕ) : Prop :=
  ∀ id, acquire id ∈ ledger → ∃ i < next, id = some i

/-- The endpoints not destroyed yet, with every destruction so far a right one. -/
structure Owns (held : Multiset CmId) (ledger : List (LedgerEntry CmId)) (next : ℕ) : Prop where
  holding : Holding ledger held
  fresh : Fresh ledger next

section Ownership

variable {held : Multiset CmId} {ledger : List (LedgerEntry CmId)} {next : ℕ} {id : CmId}

theorem Fresh.acquire (fresh : Fresh ledger next) :
    Fresh (ledger ++ [.acquire (some next)]) (next + 1) := by
  intro id member
  rcases List.mem_append.mp member with earlier | last
  · obtain ⟨i, below, rfl⟩ := fresh id earlier
    exact ⟨i, by omega, rfl⟩
  · cases List.mem_singleton.mp last
    exact ⟨next, by omega, rfl⟩

theorem Fresh.release (fresh : Fresh ledger next) : Fresh (ledger ++ [.release id]) next := by
  intro id member
  refine fresh id ?_
  simpa using member

theorem Fresh.next_not_mem (fresh : Fresh ledger next) :
    LedgerEntry.acquire (some next) ∉ ledger := by
  intro member
  obtain ⟨i, below, same⟩ := fresh _ member
  cases same
  omega

theorem Fresh.null_not_mem (fresh : Fresh ledger next) :
    LedgerEntry.acquire none ∉ ledger := by
  intro member
  obtain ⟨i, _, same⟩ := fresh _ member
  cases same

theorem Owns.acquire (owns : Owns held ledger next) :
    Owns (some next ::ₘ held) (ledger ++ [.acquire (some next)]) (next + 1) :=
  ⟨owns.holding.acquired owns.fresh.next_not_mem, owns.fresh.acquire⟩

theorem Owns.release (owns : Owns (id ::ₘ held) ledger next) :
    Owns held (ledger ++ [.release id]) next :=
  ⟨owns.holding.released, owns.fresh.release⟩

end Ownership

/-- The endpoints that sockets own. -/
def owned (sockets : List CmSocket) : Multiset CmId := sockets.map CmSocket.mCmId

/-- A step that keeps the sockets' endpoints in order, whatever else there is. -/
structure Serves (sockets : List CmSocket) (rdma : Rdma) (sockets' : List CmSocket)
    (rdma' : Rdma) : Prop where
  owns : ∀ rest, Owns (rest + owned sockets) rdma.ledger rdma.next →
    Owns (rest + owned sockets') rdma'.ledger rdma'.next
  fresh : Fresh rdma.ledger rdma.next → Fresh rdma'.ledger rdma'.next
  grows : rdma.ledger <+: rdma'.ledger

section Serving

variable {sockets returned front back : List CmSocket} {rdma rdma' : Rdma}

theorem Creation.serves (creation : Creation rdma returned rdma') :
    Serves sockets rdma (returned ++ sockets) rdma' := by
  cases creation with
  | nothing ledger next =>
    constructor <;> rw [ledger]
    · rw [next]
      exact fun _ owns => owns
    · rw [next]
      exact id
  | undone ledger next =>
    constructor <;> rw [ledger]
    · rw [next]
      exact fun _ owns => owns.acquire.release
    · rw [next]
      exact fun fresh => fresh.acquire.release
    · rw [List.append_assoc]
      exact List.prefix_append _ _
  | @handed _ socket owner ledger next =>
    constructor <;> rw [ledger]
    · intro rest owns
      have added : rest + owned ([socket] ++ sockets) =
          some rdma.next ::ₘ (rest + owned sockets) := by
        simp [owned, owner, ← Multiset.cons_coe]
      rw [next, added]
      exact owns.acquire
    · rw [next]
      exact Fresh.acquire
    · exact List.prefix_append _ _

theorem owned_middle (socket : CmSocket) :
    owned (front ++ socket :: back) = socket.mCmId ::ₘ owned (front ++ back) := by
  simp only [owned, Multiset.cons_coe, List.map_append, List.map_cons]
  exact Multiset.coe_eq_coe.mpr List.perm_middle

theorem CmSocket.destroy_serves (socket : CmSocket) :
    Serves (front ++ socket :: back) rdma (front ++ back) (final (socket.destroy rdma)) := by
  obtain ⟨ledger, next⟩ := socket.destroy_final rdma
  constructor <;> rw [ledger]
  · intro rest owns
    rw [owned_middle, Multiset.add_cons] at owns
    rw [next]
    exact owns.release
  · rw [next]
    exact Fresh.release
  · exact List.prefix_append _ _

theorem Serves.of_owned {sockets' : List CmSocket} (same : owned sockets' = owned sockets) :
    Serves sockets rdma sockets' rdma where
  owns := fun _ owns => same ▸ owns
  fresh := id
  grows := List.prefix_rfl

end Serving

/-- An acceptor is constructed. -/
def Builds (trace : List EndpointCall) : Prop := ∃ credits, .construct credits ∈ trace

/-- `listen` is called, and none of its calls fails. -/
def Listens (trace : List EndpointCall) : Prop :=
  ∃ hostname port answers, .listen hostname port answers ∈ trace ∧ answers.Succeed

/-- Who has to destroy what, by the state of the acceptor. Without an endpoint of its
own, an acceptor is bound to make a wrong destruction in the end. -/
inductive EndpointCustody (trace : List EndpointCall) : Endpoints → Prop where
  | unborn {sockets : List CmSocket} {rdma : Rdma} (unbuilt : ¬Builds trace)
      (silent : ¬Listens trace) (owns : Owns (0 + owned sockets) rdma.ledger rdma.next) :
      EndpointCustody trace ⟨.unborn, sockets, rdma⟩
  | built {acceptor : Acceptor} {sockets : List CmSocket} {rdma : Rdma} (builds : Builds trace)
      (silent : ¬Listens trace) (null : acceptor.mCmId = none)
      (owns : Owns (0 + owned sockets) rdma.ledger rdma.next) :
      EndpointCustody trace ⟨.built acceptor, sockets, rdma⟩
  | listening {acceptor : Acceptor} {sockets : List CmSocket} {rdma : Rdma}
      (listens : Listens trace)
      (owns : Owns ({acceptor.mCmId} + owned sockets) rdma.ledger rdma.next) :
      EndpointCustody trace ⟨.listened acceptor, sockets, rdma⟩
  | doomed {acceptor : Acceptor} {sockets : List CmSocket} {rdma : Rdma} (builds : Builds trace)
      (silent : ¬Listens trace) (fresh : Fresh rdma.ledger rdma.next)
      (wrong : acceptor.mCmId = none ∨ release acceptor.mCmId ∈ rdma.ledger) :
      EndpointCustody trace ⟨.listened acceptor, sockets, rdma⟩
  | released {sockets : List CmSocket} {rdma : Rdma} (listens : Listens trace)
      (owns : Owns (0 + owned sockets) rdma.ledger rdma.next) :
      EndpointCustody trace ⟨.gone, sockets, rdma⟩
  | strayed {sockets : List CmSocket} {rdma : Rdma} (builds : Builds trace)
      (silent : ¬Listens trace) (stray : Stray rdma.ledger) :
      EndpointCustody trace ⟨.gone, sockets, rdma⟩

section Runs

variable {trace : List EndpointCall} {call : EndpointCall} {ends ends' : Endpoints}

theorem builds_snoc :
    Builds (trace ++ [call]) ↔ Builds trace ∨ ∃ credits, call = .construct credits := by
  simp [Builds, exists_or, eq_comm]

theorem listens_snoc :
    Listens (trace ++ [call]) ↔ Listens trace ∨
      ∃ hostname port answers, call = .listen hostname port answers ∧ answers.Succeed := by
  simp [Listens, or_and_right, exists_or, eq_comm]

theorem EndpointCustody.serve {tenure : Tenure} {sockets sockets' : List CmSocket}
    {rdma rdma' : Rdma}
    (custody : EndpointCustody trace ⟨tenure, sockets, rdma⟩)
    (serves : Serves sockets rdma sockets' rdma')
    (plainBuild : ∀ credits, call ≠ .construct credits)
    (plainListen : ∀ hostname port answers, call ≠ .listen hostname port answers) :
    EndpointCustody (trace ++ [call]) ⟨tenure, sockets', rdma'⟩ := by
  have builds : Builds (trace ++ [call]) ↔ Builds trace := by
    simp [builds_snoc, plainBuild]
  have listens : Listens (trace ++ [call]) ↔ Listens trace := by
    simp [listens_snoc, plainListen]
  cases custody with
  | unborn unbuilt silent owns =>
    exact .unborn (mt builds.mp unbuilt) (mt listens.mp silent) (serves.owns _ owns)
  | built built silent null owns =>
    exact .built (builds.mpr built) (mt listens.mp silent) null (serves.owns _ owns)
  | listening listened owns => exact .listening (listens.mpr listened) (serves.owns _ owns)
  | doomed built silent fresh wrong =>
    refine .doomed (builds.mpr built) (mt listens.mp silent) (serves.fresh fresh) ?_
    exact wrong.imp_right fun member => serves.grows.subset member
  | released listened owns => exact .released (listens.mpr listened) (serves.owns _ owns)
  | strayed built silent stray =>
    refine .strayed (builds.mpr built) (mt listens.mp silent) ?_
    obtain ⟨more, grown⟩ := serves.grows
    rw [← grown]
    exact stray.append more

theorem EndpointCustody.listen {acceptor : Acceptor} {sockets : List CmSocket} {rdma : Rdma}
    {hostname port : String} {answers : ListenAnswers} {left : Acceptor × Rdma}
    (custody : EndpointCustody trace ⟨.built acceptor, sockets, rdma⟩)
    (listening : Listening acceptor answers rdma left) :
    EndpointCustody (trace ++ [.listen hostname port answers])
      ⟨.listened left.1, sockets, left.2⟩ := by
  cases custody with
  | built builds silent null owns =>
    have builds : Builds (trace ++ [.listen hostname port answers]) :=
      builds_snoc.mpr (.inl builds)
    have listens : Listens (trace ++ [.listen hostname port answers]) ↔ answers.Succeed := by
      simp [listens_snoc, silent]
    cases listening with
    | unresolved failed ledger next =>
      refine .doomed builds (mt listens.mp failed) ?_ (.inl null)
      rw [ledger, next]
      exact owns.fresh
    | uncreated failed ledger next =>
      refine .doomed builds (mt listens.mp failed) ?_ (.inl null)
      rw [ledger, next]
      exact owns.fresh.release
    | undone failed ledger next =>
      refine .doomed builds (mt listens.mp failed) ?_ (.inr ?_)
      · rw [ledger, next]
        exact owns.fresh.acquire.release
      · rw [ledger]
        exact List.mem_append_right _ List.mem_cons_self
    | listens succeeded ledger next =>
      refine .listening (listens.mpr succeeded) ?_
      rw [ledger, next, Multiset.singleton_add, ← zero_add (owned sockets)]
      exact owns.acquire

theorem EndpointCustody.destroy {tenure : Tenure} {acceptor : Acceptor} {sockets : List CmSocket}
    {rdma : Rdma} (alive : tenure = .built acceptor ∨ tenure = .listened acceptor)
    (custody : EndpointCustody trace ⟨tenure, sockets, rdma⟩) :
    EndpointCustody (trace ++ [.destroy]) ⟨.gone, sockets, final (acceptor.destroy rdma)⟩ := by
  have destroyed : (final (acceptor.destroy rdma)).ledger =
      rdma.ledger ++ [release acceptor.mCmId] := ledger_destroyEp _
  have listens : Listens (trace ++ [.destroy]) ↔ Listens trace := by
    simp [listens_snoc]
  cases custody with
  | unborn | released | strayed => cases alive <;> contradiction
  | built builds silent null owns =>
    obtain ⟨⟨⟩⟩ : Tenure.built _ = Tenure.built acceptor := alive.resolve_right nofun
    refine .strayed (builds_snoc.mpr (.inl builds)) (mt listens.mp silent) ?_
    rw [destroyed, null]
    exact .of_release (.inl owns.fresh.null_not_mem)
  | listening listened owns =>
    obtain ⟨⟨⟩⟩ : Tenure.listened _ = Tenure.listened acceptor := alive.resolve_left nofun
    refine .released (listens.mpr listened) ?_
    rw [Multiset.singleton_add] at owns
    rw [destroyed, zero_add]
    exact owns.release
  | doomed builds silent fresh wrong =>
    obtain ⟨⟨⟩⟩ : Tenure.listened _ = Tenure.listened acceptor := alive.resolve_left nofun
    refine .strayed (builds_snoc.mpr (.inl builds)) (mt listens.mp silent) ?_
    rw [destroyed]
    refine .of_release (wrong.imp_left fun null => ?_)
    rw [null]
    exact fresh.null_not_mem

theorem EndpointCustody.step (custody : EndpointCustody trace ends)
    (taken : EndpointStep ends call ends') :
    EndpointCustody (trace ++ [call]) ends' := by
  cases taken with
  | construct =>
    cases custody with
    | unborn unbuilt silent owns =>
      refine .built (builds_snoc.mpr (.inr ⟨_, rfl⟩)) ?_ rfl owns
      simpa [listens_snoc] using silent
  | listen => exact custody.listen (Acceptor.listen_listening _ _ _ _ _)
  | accept alive => exact custody.serve (Acceptor.accept_creation _ _ _).serves nofun nofun
  | destroy alive => exact custody.destroy alive
  | connect => exact custody.serve (Connector.connect_creation _ _ _ _ _).serves nofun nofun
  | registerMemory => exact custody.serve (.of_owned (by simp [owned])) nofun nofun
  | destroySocket => exact custody.serve (CmSocket.destroy_serves _) nofun nofun

theorem endpointCustody_of_run (run : Run EndpointStep Endpoints.start trace ends) :
    EndpointCustody trace ends := by
  refine run.invariant ?_ fun _ _ _ _ _ custody taken => custody.step taken
  exact .unborn (by simp [Builds]) (by simp [Listens])
    ⟨.start, fun id member => absurd member List.not_mem_nil⟩

/-- Endpoints are destroyed once, and nothing else is, in exactly the runs whose
acceptor, if there is one, has been listening. -/
theorem endpoints_destroyedOnce_iff (trace : List EndpointCall) (ends : Endpoints)
    (run : Run EndpointStep Endpoints.start trace ends) (ended : ends.Ended) :
    ReleasedOnce ends.rdma.ledger ↔ (Builds trace → Listens trace) := by
  obtain ⟨closed, empty⟩ := ended
  cases endpointCustody_of_run run with
  | unborn unbuilt silent owns =>
    cases empty
    exact iff_of_true owns.holding.releasedOnce fun builds => absurd builds unbuilt
  | built | listening | doomed => cases closed <;> contradiction
  | released listens owns =>
    cases empty
    exact iff_of_true owns.holding.releasedOnce fun _ => listens
  | strayed builds silent stray =>
    exact iff_of_false (fun once => once.not_stray stray) fun meets => silent (meets builds)

/-- An endpoint that listens, a request accepted and a connection refused. -/
theorem endpoints_destroyedOnce_accepted : ∃ ends, Run EndpointStep Endpoints.start
    [.construct 4, .listen "localhost" "7000" ⟨none, none, none⟩, .accept ⟨none, none, none⟩,
      .connect 4 "localhost" "7001" ⟨none, none, some "Connection refused", none⟩,
      .destroySocket, .destroy] ends ∧ ReleasedOnce ends.rdma.ledger := by
  have listening := ((@Run.nil _ _ EndpointStep Endpoints.start).snoc
    (@EndpointStep.construct _ _ 4)).snoc
    (@EndpointStep.listen _ _ _ "localhost" "7000" ⟨none, none, none⟩)
  have used := (listening.snoc
    (@EndpointStep.accept _ _ _ _ ⟨none, none, none⟩ (.inr rfl))).snoc
    (@EndpointStep.connect _ _ _ 4 "localhost" "7001"
      ⟨none, none, some "Connection refused", none⟩)
  have run := (used.snoc (@EndpointStep.destroySocket _ [] [] _ _)).snoc
    (EndpointStep.destroy (.inr rfl))
  refine ⟨_, run, (endpoints_destroyedOnce_iff _ _ run ⟨.inr rfl, rfl⟩).mpr fun _ => ?_⟩
  exact ⟨"localhost", "7000", ⟨none, none, none⟩, by decide, rfl, rfl, rfl⟩

/-- A `listen` that fails in `rdma_listen`: the destructor destroys the endpoint again. -/
theorem not_destroyedOnce_listen : ¬∀ trace ends, Run EndpointStep Endpoints.start trace ends →
    ends.Ended → ReleasedOnce ends.rdma.ledger := by
  intro always
  have run := (((@Run.nil _ _ EndpointStep Endpoints.start).snoc
    (@EndpointStep.construct _ _ 4)).snoc
    (@EndpointStep.listen _ _ _ "localhost" "7000" ⟨none, none, some "Address in use"⟩)).snoc
    (EndpointStep.destroy (.inr rfl))
  have settled := (always _ _ run ⟨.inr rfl, rfl⟩).once (some 0)
  exact absurd (settled (by decide)) (by decide)

end Runs

end Lseb
