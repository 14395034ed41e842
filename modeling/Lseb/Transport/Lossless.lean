import Mathlib.Data.List.TakeWhile
import Lseb.Foundation.Run
import Lseb.Transport.WorkRequests

/-!
# Operations that a socket keeps or loses

A post is given to the fabric before it is entered in the pending table, and
the completions of a batch are erased one after the other before any of them
is returned. An exception between the two steps leaves the table behind what
the fabric was given, or ahead of what the caller got back.
-/

namespace Lseb

open Foundation PendingMap

inductive Direction where
  | send
  | recv
  deriving DecidableEq, Repr

/-- A call on a socket, with what the fabric answers to it. -/
inductive SocketCall where
  | registerMemory (buffer size : ℕ)
  | post (d : Direction) (iov : Iovec) (ret : Option String)
  | poll (d : Direction) (read : CqRead)
  deriving DecidableEq, Repr

/-- The buffers of a pending table. -/
def pendingIovecs (pending : PendingMap ℕ ℕ) : Multiset Iovec :=
  (entrySet pending).map fun entry => ⟨entry.1, entry.2⟩

namespace Socket

def pending (socket : Socket) : Direction → PendingMap ℕ ℕ
  | .send => socket.mPendingSend
  | .recv => socket.mPendingRecv

def setPending (socket : Socket) (d : Direction) (table : PendingMap ℕ ℕ) : Socket :=
  match d with
  | .send => { socket with mPendingSend := table }
  | .recv => { socket with mPendingRecv := table }

/-- The iovecs that a call hands back; a post hands nothing back. -/
def call (t : Transport) : SocketCall → EStateM Error Socket (List Iovec)
  | .registerMemory buffer size => do
    modify (registerMemory t buffer size)
    return []
  | .post .send iov ret => do
    postSend t iov ret
    return []
  | .post .recv iov ret => do
    postRecv t iov ret
    return []
  | .poll .send read => pollCompletedSend t read
  | .poll .recv read => pollCompletedRecv t read

/-- The post gets as far as the fabric, and the fabric takes it. -/
def Accepts (t : Transport) (socket : Socket) (d : Direction) (iov : Iovec)
    (ret : Option String) : Prop :=
  size (socket.pending d) < socket.mCredits ∧ t.checkMr socket.mMrs iov = .ok () ∧ ret = none

instance (t : Transport) (socket : Socket) (d : Direction) (iov : Iovec) (ret : Option String) :
    Decidable (socket.Accepts t d iov ret) :=
  inferInstanceAs (Decidable (_ ∧ _ ∧ _))

end Socket

/-- What is left in progress at the fabric after its answer to a poll. Each completion
is one of an operation in progress; an error may be that of some of them. -/
inductive CqRead.Reports : CqRead → Multiset Iovec → Multiset Iovec → Prop where
  | completions {wcs : List Wc} {operations : List Iovec} {before rest : Multiset Iovec}
      (same : operations.map Iovec.iovBase = wcs.map Wc.wrId) (split : before = operations + rest) :
      Reports (.completions wcs) before rest
  | again {rest : Multiset Iovec} : Reports .again rest rest
  | failed {text : String} {before rest : Multiset Iovec} (part : rest ≤ before) :
      Reports (.failed text) before rest

/-- A socket and its fabric: the operations that the fabric took and has not reported, and
those it took that were not handed back. -/
structure Link where
  socket : Socket
  unreported : Direction → Multiset Iovec
  outstanding : Direction → Multiset Iovec

namespace Link

def start (mrs : List Range) (credits : ℕ) : Link where
  socket := ⟨mrs, credits, ∅, ∅⟩
  unreported := fun _ => 0
  outstanding := fun _ => 0

/-- The pending entries are the operations not handed back. -/
def Lossless (link : Link) : Prop :=
  ∀ d, pendingIovecs (link.socket.pending d) = link.outstanding d

/-- The fabric took one more operation. -/
def take (link : Link) (d : Direction) (iov : Iovec) : Link where
  socket := link.socket
  unreported := Function.update link.unreported d (iov ::ₘ link.unreported d)
  outstanding := Function.update link.outstanding d (iov ::ₘ link.outstanding d)

/-- The fabric reported operations, and the caller got some back. -/
def hand (link : Link) (d : Direction) (rest : Multiset Iovec) (iovs : List Iovec) : Link where
  socket := link.socket
  unreported := Function.update link.unreported d rest
  outstanding := Function.update link.outstanding d (link.outstanding d - iovs)

end Link

/-- What a call hands back: nothing if it throws. -/
def handed : EStateM.Result Error Socket (List Iovec) → List Iovec
  | .ok iovs _ => iovs
  | .error _ _ => []

def Throws (result : EStateM.Result Error Socket (List Iovec)) : Prop :=
  ∃ e socket, result = .error e socket

/-- A call, and the state it was made in. -/
structure LinkEvent where
  before : Link
  call : SocketCall

inductive LinkStep (t : Transport) : Link → LinkEvent → Link → Prop where
  | registerMemory {link : Link} {buffer size : ℕ} :
      LinkStep t link ⟨link, .registerMemory buffer size⟩
        { link with
          socket := final (Socket.call t (.registerMemory buffer size) link.socket) }
  | post {link : Link} {d : Direction} {iov : Iovec} {ret : Option String} :
      LinkStep t link ⟨link, .post d iov ret⟩
        { (if link.socket.Accepts t d iov ret then link.take d iov else link) with
          socket := final (Socket.call t (.post d iov ret) link.socket) }
  | poll {link : Link} {d : Direction} {read : CqRead} {rest : Multiset Iovec}
      (reports : read.Reports (link.unreported d) rest) :
      LinkStep t link ⟨link, .poll d read⟩
        { link.hand d rest (handed (Socket.call t (.poll d read) link.socket)) with
          socket := final (Socket.call t (.poll d read) link.socket) }

/-- In the verbs interface, no completion of a batch precedes the first error. -/
def BatchMeets (t : Transport) (wcs : List Wc) : Prop :=
  t = .verbs → (∀ wc ∈ wcs, wc.status = none) ∨ ∃ wc ∈ wcs.head?, wc.status ≠ none

/-- No accepted post finds its address pending, and no completion precedes the
first error in a batch. -/
def LinkEvent.Meets (t : Transport) (event : LinkEvent) : Prop :=
  match event.call with
  | .post d iov ret =>
    event.before.socket.Accepts t d iov ret → iov.iovBase ∉ event.before.socket.pending d
  | .poll _ (.completions wcs) => BatchMeets t wcs
  | _ => True

section Tables

variable {t : Transport} {pending pending' : PendingMap ℕ ℕ} {iov : Iovec}

theorem mem_pendingIovecs :
    iov ∈ pendingIovecs pending ↔ pending.lookup iov.iovBase = some iov.iovLen := by
  rw [← mem_entrySet, pendingIovecs, Multiset.mem_map]
  constructor
  · rintro ⟨entry, inside, rfl⟩
    exact inside
  · intro inside
    exact ⟨_, inside, rfl⟩

theorem pendingIovecs_bases (pending : PendingMap ℕ ℕ) :
    (pendingIovecs pending).map Iovec.iovBase = keySet pending := by
  rw [pendingIovecs, Multiset.map_map, ← entrySet_keys]
  rfl

theorem pendingIovecs_insert (fresh : iov.iovBase ∉ pending) :
    pendingIovecs (pending.insert iov.iovBase iov.iovLen) = iov ::ₘ pendingIovecs pending := by
  rw [pendingIovecs, entrySet_insert fresh, Multiset.map_cons]
  rfl

theorem takeAll_iovecs {batch : List ℕ} {taken : List (ℕ × ℕ)}
    (took : takeAll batch pending = some (taken, pending')) :
    pendingIovecs pending = (toIovecs taken : Multiset Iovec) + pendingIovecs pending' := by
  rw [pendingIovecs, takeAll_entries took, Multiset.map_add, Multiset.map_coe]
  rfl

/-- Pending buffers are told apart by their addresses. -/
theorem iovecs_eq_of_bases {first second : List Iovec}
    (entered : ∀ iov ∈ first, iov ∈ pendingIovecs pending)
    (entered' : ∀ iov ∈ second, iov ∈ pendingIovecs pending)
    (bases : first.map Iovec.iovBase = second.map Iovec.iovBase) : first = second := by
  induction first generalizing second with
  | nil => exact (List.map_eq_nil_iff.mp bases.symm).symm
  | cons iov rest ih =>
    obtain ⟨iov', rest', rfl, base, bases⟩ := List.map_eq_cons_iff.mp bases.symm
    have lookup := mem_pendingIovecs.mp (entered iov List.mem_cons_self)
    have lookup' := mem_pendingIovecs.mp (entered' iov' List.mem_cons_self)
    rw [base] at lookup'
    have length : iov'.iovLen = iov.iovLen := Option.some.inj (lookup'.symm.trans lookup)
    have same : iov' = iov := by
      cases iov
      cases iov'
      simp_all
    rw [same, ih (fun later member => entered later (List.mem_cons_of_mem _ member))
      (fun later member => entered' later (List.mem_cons_of_mem _ member)) bases.symm]

variable {operation failure : String} {mrs : List Range} {credits : ℕ} {ret : Option String}

/-- A post that throws has not changed the table. -/
theorem post_error {e : Error}
    (failed : t.post operation failure mrs credits iov ret pending = .error e pending') :
    pending' = pending := by
  unfold Transport.post at failed
  rw [estate_get_bind] at failed
  by_cases full : credits ≤ size pending
  · rw [if_pos full, estate_throw_bind] at failed
    cases failed
    rfl
  · rw [if_neg full] at failed
    dsimp only at failed
    cases checked : t.checkMr mrs iov with
    | error e' =>
      have unregistered : attempt (t.checkMr mrs iov) pending = .error e' pending :=
        attempt_eq_error.mpr ⟨checked, rfl⟩
      rw [bind_of_error unregistered] at failed
      cases failed
      rfl
    | ok =>
      have registered : attempt (t.checkMr mrs iov) pending = .ok () pending :=
        attempt_eq_ok.mpr ⟨checked, rfl⟩
      rw [bind_of_ok registered] at failed
      cases ret with
      | some text =>
        cases failed
        rfl
      | none =>
        simp only [estate_get_bind] at failed
        by_cases taken : iov.iovBase ∈ pending
        · rw [if_pos taken] at failed
          cases failed
          rfl
        · rw [if_neg taken] at failed
          cases failed

/-- A post enters the buffer or leaves the table alone. -/
theorem post_cases :
    (size pending < credits ∧ t.checkMr mrs iov = .ok () ∧ ret = none) ∧ iov.iovBase ∉ pending ∧
        t.post operation failure mrs credits iov ret pending =
          .ok () (pending.insert iov.iovBase iov.iovLen) ∨
      ¬((size pending < credits ∧ t.checkMr mrs iov = .ok () ∧ ret = none) ∧
          iov.iovBase ∉ pending) ∧
        ∃ e, t.post operation failure mrs credits iov ret pending = .error e pending := by
  cases posted : t.post operation failure mrs credits iov ret pending with
  | ok _ pending' =>
    obtain ⟨room, region, accepted, fresh, rfl⟩ := post_eq_ok.mp posted
    exact .inl ⟨⟨room, region, accepted⟩, fresh, rfl⟩
  | error e pending' =>
    refine .inr ⟨?_, e, by rw [post_error posted]⟩
    rintro ⟨⟨room, region, accepted⟩, fresh⟩
    cases posted.symm.trans (post_eq_ok.mpr ⟨room, region, accepted, fresh, rfl⟩)

/-- The completions in front of the first error. -/
def cleanPrefix (wcs : List Wc) : List Wc := wcs.takeWhile fun wc => wc.status.isNone

/-- As much of a batch in progress is erased as is free of errors, and only a whole
batch is returned. -/
theorem collect_cases {badStatus notFound : String} {wcs : List Wc}
    (part : (wcs.map Wc.wrId : Multiset ℕ) ≤ keySet pending) :
    ∃ taken pending', takeAll ((cleanPrefix wcs).map Wc.wrId) pending = some (taken, pending') ∧
      ((∀ wc ∈ wcs, wc.status = none) ∧
          collect badStatus notFound wcs pending = .ok (toIovecs taken) pending' ∨
        (∃ wc ∈ wcs, wc.status ≠ none) ∧
          ∃ e, collect badStatus notFound wcs pending = .error e pending') := by
  induction wcs generalizing pending with
  | nil => exact ⟨[], pending, rfl, .inl ⟨by simp, rfl⟩⟩
  | cons wc wcs ih =>
    obtain ⟨key, status⟩ := wc
    cases status with
    | some text =>
      exact ⟨[], pending, rfl, .inr ⟨⟨_, List.mem_cons_self, nofun⟩, _, rfl⟩⟩
    | none =>
      obtain ⟨len, found, tail⟩ := exists_lookup_of_cons_le part
      obtain ⟨taken, pending', took, outcome⟩ := ih tail
      refine ⟨(key, len) :: taken, pending', by simp_all [cleanPrefix, takeAll], ?_⟩
      rw [collect_of_lookup found]
      rcases outcome with ⟨clean, collected⟩ | ⟨⟨wc, member, bad⟩, e, failed⟩
      · exact .inl ⟨by simpa using clean, by rw [bind_of_ok collected]; rfl⟩
      · exact .inr ⟨⟨wc, List.mem_cons_of_mem _ member, bad⟩, e, bind_of_error failed⟩

/-- What a poll looks at in a batch: only the verbs interface has a status there. -/
def Transport.seen (t : Transport) (wcs : List Wc) : List Wc :=
  match t with
  | .verbs => wcs
  | .fiVerbs | .fiTcp => wcs.map fun wc => ⟨wc.wrId, none⟩

theorem Transport.seen_keys (wcs : List Wc) :
    (t.seen wcs).map Wc.wrId = wcs.map Wc.wrId := by
  cases t <;> simp [Transport.seen]

theorem poll_completions (cq : String) (wcs : List Wc) : ∃ badStatus notFound,
    t.poll cq (.completions wcs) = collect badStatus notFound (t.seen wcs) := by
  cases t <;> exact ⟨_, _, rfl⟩

/-- The condition on a batch, in terms of the part that is erased. -/
theorem meets_iff_cleanPrefix {wcs : List Wc} : BatchMeets t wcs ↔
    (∀ wc ∈ t.seen wcs, wc.status = none) ∨ cleanPrefix (t.seen wcs) = [] := by
  unfold BatchMeets
  cases t with
  | verbs =>
    rw [Transport.seen]
    cases wcs with
    | nil => simp
    | cons wc rest => cases status : wc.status <;> simp [cleanPrefix, status]
  | fiVerbs => simp [Transport.seen]
  | fiTcp => simp [Transport.seen]

/-- A batch of operations in progress is returned as a whole, or the poll throws at its
first completion, or it throws with some of them erased. -/
theorem poll_batch_cases {cq : String} {wcs : List Wc} {operations : List Iovec}
    {extra : Multiset Iovec} (same : operations.map Iovec.iovBase = wcs.map Wc.wrId)
    (progress : pendingIovecs pending = operations + extra) :
    (BatchMeets t wcs ∧ ∃ table, pendingIovecs pending = operations + pendingIovecs table ∧
        t.poll cq (.completions wcs) pending = .ok operations table) ∨
      (BatchMeets t wcs ∧ ∃ e, t.poll cq (.completions wcs) pending = .error e pending) ∨
      ¬BatchMeets t wcs ∧ ∃ table, pendingIovecs table ≠ pendingIovecs pending ∧
        ∃ e, t.poll cq (.completions wcs) pending = .error e table := by
  have entered : ∀ iov ∈ operations, iov ∈ pendingIovecs pending := by
    intro iov member
    rw [progress]
    simp [member]
  have part : ((t.seen wcs).map Wc.wrId : Multiset ℕ) ≤ keySet pending := by
    rw [Transport.seen_keys, ← same, ← pendingIovecs_bases, progress, Multiset.map_add,
      Multiset.map_coe]
    exact Multiset.le_add_right _ _
  obtain ⟨badStatus, notFound, polls⟩ := @poll_completions t cq wcs
  obtain ⟨taken, table, took, collected⟩ :=
    @collect_cases pending badStatus notFound (t.seen wcs) part
  have erased := takeAll_iovecs took
  have keys := (takeAll_keys took).1
  rw [← polls] at collected
  rcases collected with ⟨clean, polled⟩ | ⟨⟨wc, member, bad⟩, e, polled⟩
  · have whole : cleanPrefix (t.seen wcs) = t.seen wcs :=
      List.takeWhile_eq_self_iff.mpr fun wc member => by simp [clean wc member]
    have given : toIovecs taken = operations := by
      refine iovecs_eq_of_bases ?_ entered ?_
      · intro iov member
        obtain ⟨entry, inside, rfl⟩ := List.mem_map.mp member
        exact mem_pendingIovecs.mpr ((takeAll_lookup took).1 entry inside)
      · rw [toIovecs_bases, keys, whole, Transport.seen_keys, same]
    rw [given] at erased polled
    exact .inl ⟨meets_iff_cleanPrefix.mpr (.inl clean), table, erased, polled⟩
  · right
    by_cases none : cleanPrefix (t.seen wcs) = []
    · rw [none] at took
      cases took
      exact .inl ⟨meets_iff_cleanPrefix.mpr (.inr none), e, polled⟩
    · refine .inr ⟨?_, table, ?_, e, polled⟩
      · intro meets
        rcases meets_iff_cleanPrefix.mp meets with clean | none'
        · exact bad (clean wc member)
        · exact none none'
      · intro kept
        rw [← kept] at erased
        have empty : toIovecs taken = [] :=
          (Multiset.coe_eq_zero _).mp (right_eq_add.mp erased)
        have bases := toIovecs_bases taken
        rw [empty, keys] at bases
        exact none (List.map_eq_nil_iff.mp bases.symm)

end Tables

namespace Socket

variable {t : Transport} {socket : Socket} {d : Direction}

/-- The name that errors of a completion queue carry. -/
def cq : Direction → String
  | .send => "send_cq"
  | .recv => "recv_cq"

@[simp] theorem pending_setPending (table : PendingMap ℕ ℕ) :
    (socket.setPending d table).pending d = table := by
  cases d <;> rfl

theorem pending_setPending_ne {d' : Direction} (table : PendingMap ℕ ℕ) (other : d' ≠ d) :
    (socket.setPending d table).pending d' = socket.pending d' := by
  cases d <;> cases d' <;> first | rfl | exact absurd rfl other

theorem setPending_pending : socket.setPending d (socket.pending d) = socket := by
  cases d <;> rfl

theorem call_poll (read : CqRead) : call t (.poll d read) socket =
    zoom (fun socket => socket.pending d) (fun socket table => socket.setPending d table)
      (t.poll (cq d) read) socket := by
  cases d <;> rfl

/-- An accepted post of a fresh address enters it, any other post throws and changes nothing. -/
theorem call_post_cases (iov : Iovec) (ret : Option String) :
    socket.Accepts t d iov ret ∧ iov.iovBase ∉ socket.pending d ∧
        call t (.post d iov ret) socket = .ok []
          (socket.setPending d ((socket.pending d).insert iov.iovBase iov.iovLen)) ∨
      ¬(socket.Accepts t d iov ret ∧ iov.iovBase ∉ socket.pending d) ∧
        ∃ e, call t (.post d iov ret) socket = .error e socket := by
  obtain ⟨operation, failure, unfolded⟩ : ∃ operation failure, call t (.post d iov ret) socket =
      (zoom (fun socket => socket.pending d) (fun socket table => socket.setPending d table)
        (t.post operation failure socket.mMrs socket.mCredits iov ret) >>= fun _ => pure [])
          socket := by
    cases d <;> exact ⟨_, _, rfl⟩
  rw [unfolded]
  rcases @post_cases t (socket.pending d) iov operation failure socket.mMrs socket.mCredits ret
    with ⟨accepts, fresh, posted⟩ | ⟨refused, e, failed⟩
  · exact .inl ⟨accepts, fresh, bind_of_ok (zoom_of_ok posted)⟩
  · refine .inr ⟨refused, e, bind_of_error ?_⟩
    simp only [zoom, failed, setPending_pending]

end Socket

namespace Link

variable {t : Transport} {link next : Link} {d : Direction}

/-- The link with one direction replaced. -/
def replace (link : Link) (d : Direction) (table : PendingMap ℕ ℕ)
    (unreported outstanding : Multiset Iovec) : Link where
  socket := link.socket.setPending d table
  unreported := Function.update link.unreported d unreported
  outstanding := Function.update link.outstanding d outstanding

theorem replace_lossless {table : PendingMap ℕ ℕ} {unreported outstanding : Multiset Iovec}
    (lossless : link.Lossless) :
    (link.replace d table unreported outstanding).Lossless ↔
      pendingIovecs table = outstanding := by
  constructor
  · intro replaced
    simpa [replace] using replaced d
  · intro same d'
    by_cases other : d' = d
    · subst other
      simpa [replace] using same
    · simpa [replace, other, Socket.pending_setPending_ne table other] using lossless d'

/-- The invariant: nothing is lost, and what the fabric still has was not handed back. -/
structure Kept (link : Link) : Prop where
  lossless : link.Lossless
  unreported : ∀ d, link.unreported d ≤ link.outstanding d

theorem Kept.replace {table : PendingMap ℕ ℕ} {unreported outstanding : Multiset Iovec}
    (kept : link.Kept) (same : pendingIovecs table = outstanding)
    (part : unreported ≤ outstanding) : (link.replace d table unreported outstanding).Kept := by
  refine ⟨(replace_lossless kept.lossless).mpr same, fun d' => ?_⟩
  by_cases other : d' = d
  · subst other
    simpa [Link.replace] using part
  · simpa [Link.replace, other] using kept.unreported d'

/-- What a post can do: it enters what the fabric took, or it throws; then the
fabric may have taken the buffer, if its address was pending. -/
theorem post_step {iov : Iovec} {ret : Option String}
    (step : LinkStep t link ⟨link, .post d iov ret⟩ next) :
    (link.socket.Accepts t d iov ret ∧ iov.iovBase ∉ link.socket.pending d ∧
        ¬Throws (Socket.call t (.post d iov ret) link.socket) ∧
        next = link.replace d ((link.socket.pending d).insert iov.iovBase iov.iovLen)
          (iov ::ₘ link.unreported d) (iov ::ₘ link.outstanding d)) ∨
      (link.socket.Accepts t d iov ret ∧ iov.iovBase ∈ link.socket.pending d ∧
        next = link.replace d (link.socket.pending d) (iov ::ₘ link.unreported d)
          (iov ::ₘ link.outstanding d)) ∨
      (¬link.socket.Accepts t d iov ret ∧ next = link) := by
  cases step
  rcases @Socket.call_post_cases t link.socket d iov ret with
    ⟨accepts, fresh, posted⟩ | ⟨refused, e, failed⟩
  · left
    rw [posted, if_pos accepts]
    exact ⟨accepts, fresh, nofun, rfl⟩
  · right
    rw [failed]
    by_cases accepts : link.socket.Accepts t d iov ret
    · left
      rw [if_pos accepts, replace, Socket.setPending_pending]
      exact ⟨accepts, not_not.mp fun fresh => refused ⟨accepts, fresh⟩, rfl⟩
    · right
      rw [if_neg accepts]
      exact ⟨accepts, rfl⟩

/-- What a poll does to the link, in terms of what it does to the table. -/
theorem poll_inv {read : CqRead} (step : LinkStep t link ⟨link, .poll d read⟩ next) :
    ∃ rest, read.Reports (link.unreported d) rest ∧
      ((∃ iovs table, t.poll (Socket.cq d) read (link.socket.pending d) = .ok iovs table ∧
          ¬Throws (Socket.call t (.poll d read) link.socket) ∧
          next = link.replace d table rest (link.outstanding d - iovs)) ∨
        ∃ e table, t.poll (Socket.cq d) read (link.socket.pending d) = .error e table ∧
          next = link.replace d table rest (link.outstanding d)) := by
  cases step with
  | poll reports =>
    refine ⟨_, reports, ?_⟩
    rw [Socket.call_poll]
    cases polled : t.poll (Socket.cq d) read (link.socket.pending d) with
    | ok iovs table =>
      simp only [zoom, polled]
      refine .inl ⟨iovs, table, rfl, ?_, rfl⟩
      rintro ⟨_, _, ⟨⟩⟩
    | error e table =>
      simp only [zoom, polled, handed]
      refine .inr ⟨e, table, rfl, ?_⟩
      rw [hand, Multiset.coe_nil, tsub_zero]
      rfl

/-- What a poll can do: return operations that were in progress, throw with the table
as it was, or throw with a part of the batch erased. -/
theorem poll_step {read : CqRead} (kept : link.Kept)
    (step : LinkStep t link ⟨link, .poll d read⟩ next) :
    ((LinkEvent.mk link (.poll d read)).Meets t ∧
        ¬Throws (Socket.call t (.poll d read) link.socket) ∧
        ∃ table operations rest, link.unreported d = operations + rest ∧
          link.outstanding d = operations + pendingIovecs table ∧
          next = link.replace d table rest (pendingIovecs table)) ∨
      ((LinkEvent.mk link (.poll d read)).Meets t ∧ ∃ rest ≤ link.unreported d,
        next = link.replace d (link.socket.pending d) rest (link.outstanding d)) ∨
      (¬(LinkEvent.mk link (.poll d read)).Meets t ∧ ∃ table rest,
        pendingIovecs table ≠ link.outstanding d ∧
        next = link.replace d table rest (link.outstanding d)) := by
  have lossless := kept.lossless d
  obtain ⟨rest, reports, outcome⟩ := poll_inv step
  cases reports with
  | again =>
    rcases outcome with ⟨_, _, ⟨⟩, returned, rfl⟩ | ⟨_, _, ⟨⟩, _⟩
    refine .inl ⟨trivial, returned, link.socket.pending d, 0, _, (zero_add _).symm, ?_, ?_⟩
    · rw [zero_add, lossless]
    · rw [lossless, Multiset.coe_nil, tsub_zero]
  | @failed text _ _ part =>
    have threw : ∃ e, t.poll (Socket.cq d) (.failed text) (link.socket.pending d) =
        .error e (link.socket.pending d) := by
      cases t <;> exact ⟨_, rfl⟩
    obtain ⟨_, threw⟩ := threw
    rcases outcome with ⟨_, _, polled, _⟩ | ⟨_, _, polled, rfl⟩
    · cases polled.symm.trans threw
    · cases polled.symm.trans threw
      exact .inr (.inl ⟨trivial, rest, part, rfl⟩)
  | @completions wcs operations _ _ same split =>
    obtain ⟨extra, unreported⟩ := Multiset.le_iff_exists_add.mp (kept.unreported d)
    rw [split, add_assoc, ← lossless] at unreported
    have batch := @poll_batch_cases t (link.socket.pending d) (Socket.cq d) wcs operations _ same
      unreported
    rcases outcome with ⟨_, _, polled, returned, rfl⟩ | ⟨_, _, polled, rfl⟩
    · rcases batch with ⟨meets, _, erased, polled'⟩ | ⟨_, _, polled'⟩ | ⟨_, _, _, _, polled'⟩
      · cases polled.symm.trans polled'
        rw [lossless] at erased
        refine .inl ⟨meets, returned, _, operations, rest, split, erased, ?_⟩
        rw [erased, add_tsub_cancel_left]
      · cases polled.symm.trans polled'
      · cases polled.symm.trans polled'
    · rcases batch with ⟨_, _, _, polled'⟩ | ⟨meets, _, polled'⟩ | ⟨fails, _, short, _, polled'⟩
      · cases polled.symm.trans polled'
      · cases polled.symm.trans polled'
        refine .inr (.inl ⟨meets, rest, ?_, rfl⟩)
        rw [split]
        exact Multiset.le_add_left _ _
      · cases polled.symm.trans polled'
        rw [lossless] at short
        exact .inr (.inr ⟨fails, _, rest, short, rfl⟩)

/-- A call that throws left the socket, and what was not handed back, as they were. -/
structure Unharmed (t : Transport) (link : Link) (event : LinkEvent) (next : Link) : Prop where
  socket : next.socket = link.socket
  outstanding : next.outstanding = link.outstanding
  unreported : ∀ d iov ret, event.call = .post d iov ret → next.unreported = link.unreported

/-- The step lemma: nothing is lost exactly if the call meets the condition; then the
invariant is kept, and a call that throws does no harm. -/
theorem Kept.step {event : LinkEvent} (kept : link.Kept) (step : LinkStep t link event next) :
    (next.Lossless ↔ event.Meets t) ∧ (event.Meets t → next.Kept ∧
      (Throws (Socket.call t event.call link.socket) → Unharmed t link event next)) := by
  obtain ⟨before, call⟩ := event
  obtain rfl : before = link := by cases step <;> rfl
  cases call with
  | registerMemory buffer size =>
    cases step
    have same : ∀ d, (before.socket.registerMemory t buffer size).pending d =
        before.socket.pending d := by
      intro d
      cases t <;> cases d <;> rfl
    have lossless : Lossless { before with
        socket := before.socket.registerMemory t buffer size } := by
      intro d
      rw [same]
      exact kept.lossless d
    exact ⟨iff_of_true lossless trivial, fun _ => ⟨⟨lossless, kept.unreported⟩, nofun⟩⟩
  | post d iov ret =>
    have lossless := kept.lossless d
    rcases post_step step with ⟨accepts, fresh, returned, rfl⟩ | ⟨accepts, taken, rfl⟩ |
      ⟨refused, rfl⟩
    · have entered := (pendingIovecs_insert fresh).trans (congrArg (iov ::ₘ ·) lossless)
      exact ⟨iff_of_true ((replace_lossless kept.lossless).mpr entered) fun _ => fresh, fun _ =>
        ⟨kept.replace entered (Multiset.cons_le_cons _ (kept.unreported d)),
          fun throws => absurd throws returned⟩⟩
    · have more : pendingIovecs (before.socket.pending d) ≠ iov ::ₘ before.outstanding d := by
        rw [lossless]
        exact fun same => absurd (congrArg Multiset.card same) (by simp)
      have fails : ¬(LinkEvent.mk before (.post d iov ret)).Meets t :=
        fun meets => meets accepts taken
      exact ⟨iff_of_false ((replace_lossless kept.lossless).not.mpr more) fails,
        fun meets => absurd meets fails⟩
    · exact ⟨iff_of_true kept.lossless fun accepts => absurd accepts refused,
        fun _ => ⟨kept, fun _ => ⟨rfl, rfl, fun _ _ _ _ => rfl⟩⟩⟩
  | poll d read =>
    rcases poll_step kept step with ⟨meets, returned, table, operations, rest, split, given, rfl⟩ |
      ⟨meets, rest, part, rfl⟩ | ⟨fails, table, rest, short, rfl⟩
    · have behind : rest ≤ pendingIovecs table := by
        have := kept.unreported d
        rwa [split, given, add_le_add_iff_left] at this
      exact ⟨iff_of_true ((replace_lossless kept.lossless).mpr rfl) meets, fun _ =>
        ⟨kept.replace rfl behind, fun throws => absurd throws returned⟩⟩
    · exact ⟨iff_of_true ((replace_lossless kept.lossless).mpr (kept.lossless d)) meets, fun _ =>
        ⟨kept.replace (kept.lossless d) (part.trans (kept.unreported d)), fun _ =>
          ⟨Socket.setPending_pending, Function.update_eq_self _ _, nofun⟩⟩⟩
    · exact ⟨iff_of_false ((replace_lossless kept.lossless).not.mpr short) fails,
        fun meets => absurd meets fails⟩

theorem start_kept (mrs : List Range) (credits : ℕ) : (start mrs credits).Kept :=
  ⟨fun d => by cases d <;> rfl, fun _ => le_rfl⟩

/-- The run lemma: as long as every call meets the condition, the invariant is kept. -/
theorem kept_of_meets {mrs : List Range} {credits : ℕ} {trace : List LinkEvent}
    (run : Run (LinkStep t) (start mrs credits) trace link)
    (meets : ∀ event ∈ trace, event.Meets t) : link.Kept := by
  induction run with
  | nil => exact start_kept mrs credits
  | snoc _ step ih =>
    obtain ⟨earlier, last⟩ := List.forall_mem_append.mp meets
    exact (((ih earlier).step step).2 (last _ List.mem_cons_self)).1

theorem step_before {event : LinkEvent} (step : LinkStep t link event next) :
    event.before = link := by
  cases step <;> rfl

theorem meets_of_lossless {mrs : List Range} {credits : ℕ} {trace : List LinkEvent}
    (run : Run (LinkStep t) (start mrs credits) trace link)
    (befores : ∀ event ∈ trace, event.before.Lossless) (lossless : link.Lossless) :
    ∀ event ∈ trace, event.Meets t := by
  induction run with
  | nil => simp
  | @snoc trace state next event before step ih =>
    obtain ⟨earlier, last⟩ := List.forall_mem_append.mp befores
    have now : state.Lossless := step_before step ▸ last event List.mem_cons_self
    have meets := ih earlier now
    refine List.forall_mem_append.mpr ⟨meets, ?_⟩
    simpa using ((kept_of_meets before meets).step step).1.mp lossless

theorem befores_of_meets {mrs : List Range} {credits : ℕ} {trace : List LinkEvent}
    (run : Run (LinkStep t) (start mrs credits) trace link)
    (meets : ∀ event ∈ trace, event.Meets t) : ∀ event ∈ trace, event.before.Lossless := by
  induction run with
  | nil => simp
  | @snoc trace state next event before step ih =>
    obtain ⟨earlier, _⟩ := List.forall_mem_append.mp meets
    refine List.forall_mem_append.mpr ⟨ih earlier, ?_⟩
    simpa [step_before step] using (kept_of_meets before earlier).lossless

/-- In every run, no state loses an operation exactly if all calls meet the condition,
and then a call that throws does no harm. -/
theorem lossless_iff_meets {mrs : List Range} {credits : ℕ} {trace : List LinkEvent}
    (run : Run (LinkStep t) (start mrs credits) trace link) :
    ((∀ event ∈ trace, event.before.Lossless) ∧ link.Lossless ↔ ∀ event ∈ trace, event.Meets t) ∧
      ((∀ event ∈ trace, event.Meets t) → ∀ event next, LinkStep t link event next →
        event.Meets t → Throws (Socket.call t event.call link.socket) →
        Unharmed t link event next) := by
  refine ⟨⟨?_, ?_⟩, ?_⟩
  · rintro ⟨befores, lossless⟩
    exact meets_of_lossless run befores lossless
  · intro meets
    exact ⟨befores_of_meets run meets, (kept_of_meets run meets).lossless⟩
  · intro meets event next step met throws
    exact (((kept_of_meets run meets).step step).2 met).2 throws

/-- A posted buffer that is reported and returned. -/
theorem lossless_iff_meets_round : ∃ trace link,
    Run (LinkStep .verbs) (start [⟨0, 64⟩] 2) trace link ∧ trace.length = 2 ∧ link.Lossless := by
  have posted := Run.single (@LinkStep.post .verbs (start [⟨0, 64⟩] 2) .recv ⟨0, 32⟩ none)
  have polled := posted.snoc (@LinkStep.poll .verbs _ .recv (.completions [⟨0, none⟩]) 0
    (@CqRead.Reports.completions _ [⟨0, 32⟩] _ _ rfl (by decide)))
  refine ⟨_, _, polled, rfl, ((lossless_iff_meets polled).1.mpr ?_).2⟩
  refine List.forall_mem_append.mpr ⟨?_, ?_⟩ <;> rw [List.forall_mem_singleton]
  · exact fun _ => nofun
  · exact fun _ => .inl (by decide)

/-- The second of two completions in a batch has an error status: the first one is lost. -/
theorem not_lossless_midBatch : ¬∀ t mrs credits trace link,
    Run (LinkStep t) (start mrs credits) trace link → link.Lossless := by
  intro always
  have first := Run.single (@LinkStep.post .verbs (start [⟨0, 64⟩] 2) .recv ⟨0, 32⟩ none)
  have second := first.snoc (@LinkStep.post .verbs _ .recv ⟨32, 32⟩ none)
  have polled := second.snoc (@LinkStep.poll .verbs _ .recv
    (.completions [⟨0, none⟩, ⟨32, some "transport retry counter exceeded"⟩]) 0
    (@CqRead.Reports.completions _ [⟨0, 32⟩, ⟨32, 32⟩] _ _ rfl (by decide)))
  have lossless := always _ _ _ _ _ polled .recv
  revert lossless
  decide

end Link

end Lseb
