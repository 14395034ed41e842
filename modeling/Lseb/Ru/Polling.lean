import Lseb.Foundation.Bags
import Lseb.Ru.ReadoutUnit
import Lseb.Transport.WorkRequests

/-!
# The connections over one turn

Polling all connections takes the completed batch of each out of its table,
and a post enters one address into one table; nothing else of a socket changes.
-/

namespace Lseb

open Foundation PendingMap

namespace Socket

variable {t : Transport} {socket socket' : Socket} {iovs : List Iovec} {read : CqRead}

theorem perform_eq_ok {α : Type} {x : EStateM Error Socket α} {a : α} :
    socket.perform x = .ok (a, socket') ↔ x socket = .ok a socket' := by
  unfold perform
  cases x socket <;> simp

/-- A socket after its pending sends changed, and nothing else. -/
structure Polled (socket socket' : Socket) (batch : List ℕ) : Prop where
  mrs : socket'.mMrs = socket.mMrs
  credits : socket'.mCredits = socket.mCredits
  keys : keySet socket.mPendingSend = (batch : Multiset ℕ) + keySet socket'.mPendingSend
  lookup : ∀ key len, socket'.mPendingSend.lookup key = some len →
    socket.mPendingSend.lookup key = some len

theorem pollCompletedSend_polled {batch : List ℕ} (delivers : read.Delivers batch)
    (polled : socket.perform (pollCompletedSend t read) = .ok (iovs, socket')) :
    iovs.map Iovec.iovBase = batch ∧ socket.Polled socket' batch := by
  obtain ⟨pending, answered, rfl⟩ := zoom_eq_ok.mp (perform_eq_ok.mp polled)
  obtain rfl := poll_batch delivers answered
  exact ⟨rfl, rfl, rfl, poll_keySet answered, (poll_lookup answered).2⟩

theorem pollCompletedSend_total {batch : List ℕ} (delivers : read.Delivers batch)
    (part : (batch : Multiset ℕ) ≤ keySet socket.mPendingSend) :
    ∃ iovs socket', socket.perform (pollCompletedSend t read) = .ok (iovs, socket') := by
  obtain ⟨iovs, pending, polled, _⟩ := @poll_delivers _ t "send_cq" read batch delivers part
  refine ⟨iovs, { socket with mPendingSend := pending }, perform_eq_ok.mpr ?_⟩
  rw [pollCompletedSend, onSend]
  exact zoom_of_ok polled

/-- A post that is accepted is entered. -/
theorem postSend_eq_ok {iov : Iovec} {refused : Option String} :
    socket.perform (postSend t iov refused) = .ok ((), socket') ↔
      size socket.mPendingSend < socket.mCredits ∧ t.checkMr socket.mMrs iov = .ok () ∧
      refused = none ∧ iov.iovBase ∉ socket.mPendingSend ∧
      socket' = { socket with
        mPendingSend := socket.mPendingSend.insert iov.iovBase iov.iovLen } := by
  obtain ⟨failure, unfolded⟩ : ∃ failure, postSend t iov refused socket = onSend
      (t.post "post_send" failure socket.mMrs socket.mCredits iov refused) socket := ⟨_, rfl⟩
  rw [perform_eq_ok, unfolded, onSend, zoom_post_eq_ok]

end Socket

namespace ReadoutUnit

variable {t : Transport} {completions : ℕ → CqRead} {batch : ℕ → List ℕ} {seqId : ℕ}
  {ids : List ℕ} {connAvail connAvail' : Bool} {conns conns' : ℕ → Socket} {released : List ℕ}

/-- Each connection is polled once; the addresses are collected in that order. -/
theorem pollConnections_polled (delivers : ∀ id, (completions id).Delivers (batch id))
    (distinct : ids.Nodup)
    (polled : pollConnections t completions seqId ids connAvail conns =
      .ok (released, connAvail', conns')) :
    released = ids.flatMap batch ∧ (∀ id ∈ ids, (conns id).Polled (conns' id) (batch id)) ∧
      (∀ id ∉ ids, conns' id = conns id) ∧
      connAvail' = if seqId ∈ ids then (conns' seqId).availableSend else connAvail := by
  induction ids generalizing connAvail conns released with
  | nil =>
    cases polled
    simp
  | cons id ids ih =>
    obtain ⟨fresh, tail⟩ := List.nodup_cons.mp distinct
    obtain ⟨⟨iovs, conn⟩, hpoll, polled⟩ := bind_eq_ok.mp polled
    obtain ⟨⟨rest, avail, last⟩, hrest, polled⟩ := bind_eq_ok.mp polled
    cases polled
    obtain ⟨rfl, others, outside, available⟩ := ih tail hrest
    obtain ⟨names, here⟩ := Socket.pollCompletedSend_polled (delivers id) hpoll
    have own : conns' id = conn := by
      rw [outside id fresh, Function.update_self]
    refine ⟨by rw [List.flatMap_cons, names], ?_, ?_, ?_⟩
    · intro other member
      rcases List.mem_cons.mp member with rfl | later
      · rw [own]
        exact here
      · have differs : other ≠ id := fun same => fresh (same ▸ later)
        have polledOther := others other later
        rwa [Function.update_of_ne differs] at polledOther
    · intro other absent
      obtain ⟨differs, absent⟩ := not_or.mp (mt List.mem_cons.mpr absent)
      rw [outside other absent, Function.update_of_ne differs]
    · rw [available]
      by_cases same : seqId = id
      · subst same
        simp [fresh, own]
      · simp [same]

theorem pollConnections_total (delivers : ∀ id, (completions id).Delivers (batch id))
    (distinct : ids.Nodup)
    (part : ∀ id ∈ ids, (batch id : Multiset ℕ) ≤ keySet (conns id).mPendingSend) :
    ∃ result, pollConnections t completions seqId ids connAvail conns = .ok result := by
  induction ids generalizing connAvail conns with
  | nil => exact ⟨_, rfl⟩
  | cons id ids ih =>
    obtain ⟨fresh, tail⟩ := List.nodup_cons.mp distinct
    obtain ⟨iovs, conn, hpoll⟩ :=
      Socket.pollCompletedSend_total (t := t) (delivers id) (part id List.mem_cons_self)
    obtain ⟨rest, hrest⟩ := @ih (if seqId = id then conn.availableSend else connAvail)
      (Function.update conns id conn) tail fun other later => by
        have differs : other ≠ id := fun same => fresh (same ▸ later)
        rw [Function.update_of_ne differs]
        exact part other (List.mem_cons_of_mem _ later)
    exact ⟨_, bind_eq_ok.mpr ⟨_, hpoll, bind_eq_ok.mpr ⟨rest, hrest, rfl⟩⟩⟩

end ReadoutUnit

end Lseb
