import Lseb.Transport.Socket

/-!
# Work requests in progress

A poll takes the completed addresses out of the pending table, each with the
length it was posted with, and a post enters a fresh one below the credits.
The fabric is assumed to do no more than to complete requests in progress.
-/

namespace Lseb

open Foundation PendingMap

/-- A successful answer to a poll that completes a batch of addresses. -/
inductive CqRead.Delivers : CqRead → List ℕ → Prop where
  | completions (batch : List ℕ) : Delivers (.completions (batch.map fun key => ⟨key, none⟩)) batch
  | again : Delivers .again []

def toIovecs (taken : List (ℕ × ℕ)) : List Iovec := taken.map fun entry => ⟨entry.1, entry.2⟩

theorem toIovecs_bases (taken : List (ℕ × ℕ)) :
    (toIovecs taken).map Iovec.iovBase = taken.map Prod.fst := by
  simp [toIovecs]

section Pending

variable {badStatus notFound : String} {wcs : List Wc} {pending pending' : PendingMap ℕ ℕ}
  {iovs : List Iovec} {t : Transport} {cq : String} {read : CqRead}

theorem collect_of_lookup {key len : ℕ} (found : pending.lookup key = some len) :
    collect badStatus notFound (⟨key, none⟩ :: wcs) pending =
      (collect badStatus notFound wcs >>= fun rest => pure (⟨key, len⟩ :: rest))
        (pending.erase key) := by
  rw [collect]
  simp only [estate_get_bind, found, estate_modify_bind]

/-- Collecting succeeds as far as the addresses are in the table. -/
theorem collect_eq_ok : collect badStatus notFound wcs pending = .ok iovs pending' ↔
    (∀ wc ∈ wcs, wc.status = none) ∧ ∃ taken,
      takeAll (wcs.map Wc.wrId) pending = some (taken, pending') ∧ iovs = toIovecs taken := by
  induction wcs generalizing pending pending' iovs with
  | nil =>
    simp only [collect, estate_pure, EStateM.Result.ok.injEq, List.not_mem_nil, false_imp_iff,
      implies_true, true_and, List.map_nil, takeAll, Option.some.injEq, Prod.mk.injEq]
    constructor
    · rintro ⟨rfl, rfl⟩
      exact ⟨[], ⟨rfl, rfl⟩, rfl⟩
    · rintro ⟨_, ⟨rfl, rfl⟩, rfl⟩
      exact ⟨rfl, rfl⟩
  | cons wc wcs ih =>
    obtain ⟨key, status⟩ := wc
    cases status with
    | some text => simp [collect]
    | none =>
      cases found : pending.lookup key with
      | none => simp [collect, takeAll, found, estate_get_bind]
      | some len =>
        rw [collect_of_lookup found, estate_bind_eq_ok]
        simp only [ih, estate_pure, EStateM.Result.ok.injEq, List.map_cons, takeAll, found,
          List.forall_mem_cons, true_and, Option.map_eq_some_iff, Prod.mk.injEq, Prod.exists]
        constructor
        · rintro ⟨rest, _, ⟨clean, taken, took, rfl⟩, rfl, rfl⟩
          exact ⟨clean, _, ⟨taken, _, took, rfl, rfl⟩, rfl⟩
        · rintro ⟨clean, _, ⟨taken, _, took, rfl, rfl⟩, rfl⟩
          exact ⟨_, _, ⟨clean, taken, took, rfl⟩, rfl, rfl⟩

/-- What a poll returns is taken out of the table. -/
theorem poll_taken (polled : t.poll cq read pending = .ok iovs pending') :
    ∃ taken, takeAll (iovs.map Iovec.iovBase) pending = some (taken, pending') ∧
      iovs = toIovecs taken := by
  cases read with
  | failed text => cases t <;> simp [Transport.poll] at polled
  | again =>
    obtain ⟨rfl, rfl⟩ : [] = iovs ∧ pending = pending' := by simpa [Transport.poll] using polled
    exact ⟨[], rfl, rfl⟩
  | completions wcs =>
    have collected : ∃ badStatus notFound wcs,
        collect badStatus notFound wcs pending = .ok iovs pending' := by
      cases t <;> exact ⟨_, _, _, polled⟩
    obtain ⟨_, _, wcs, polled⟩ := collected
    obtain ⟨_, taken, took, rfl⟩ := collect_eq_ok.mp polled
    refine ⟨taken, ?_, rfl⟩
    rw [toIovecs_bases, (takeAll_keys took).1]
    exact took

theorem poll_keySet (polled : t.poll cq read pending = .ok iovs pending') :
    keySet pending = (iovs.map Iovec.iovBase : Multiset ℕ) + keySet pending' := by
  obtain ⟨taken, took, _⟩ := poll_taken polled
  exact (takeAll_keys took).2

theorem poll_lookup (polled : t.poll cq read pending = .ok iovs pending') :
    (∀ iov ∈ iovs, pending.lookup iov.iovBase = some iov.iovLen) ∧
      ∀ key len, pending'.lookup key = some len → pending.lookup key = some len := by
  obtain ⟨taken, took, rfl⟩ := poll_taken polled
  obtain ⟨entered, kept⟩ := takeAll_lookup took
  refine ⟨?_, kept⟩
  intro iov member
  obtain ⟨entry, inside, rfl⟩ := List.mem_map.mp member
  exact entered entry inside

/-- A poll that completes a batch in progress returns that batch, in order. -/
theorem poll_delivers {batch : List ℕ} (delivers : read.Delivers batch)
    (part : (batch : Multiset ℕ) ≤ keySet pending) :
    ∃ iovs pending', t.poll cq read pending = .ok iovs pending' ∧
      iovs.map Iovec.iovBase = batch := by
  cases delivers with
  | again => exact ⟨[], pending, rfl, rfl⟩
  | completions =>
    obtain ⟨taken, pending', took⟩ := takeAll_total part
    refine ⟨toIovecs taken, pending', ?_, by rw [toIovecs_bases, (takeAll_keys took).1]⟩
    have keys : (batch.map fun key => (⟨key, none⟩ : Wc)).map Wc.wrId = batch := by
      simp [Function.comp_def]
    have clean : ∀ wc ∈ batch.map fun key => (⟨key, none⟩ : Wc), wc.status = none := by simp
    have same : ((batch.map fun key => (⟨key, none⟩ : Wc)).map fun wc => ⟨wc.wrId, none⟩) =
        batch.map fun key => (⟨key, none⟩ : Wc) := by simp
    cases t <;> simp only [Transport.poll, same] <;>
      exact collect_eq_ok.mpr ⟨clean, taken, by rw [keys]; exact took, rfl⟩

/-- A batch that a successful poll completes is what the poll returns. -/
theorem poll_batch {batch : List ℕ} (delivers : read.Delivers batch)
    (polled : t.poll cq read pending = .ok iovs pending') : iovs.map Iovec.iovBase = batch := by
  cases delivers with
  | again =>
    obtain ⟨rfl, rfl⟩ : [] = iovs ∧ pending = pending' := by simpa [Transport.poll] using polled
    rfl
  | completions =>
    have collected : ∃ badStatus notFound, collect badStatus notFound
        (batch.map fun key => ⟨key, none⟩) pending = .ok iovs pending' := by
      cases t
      · exact ⟨_, _, polled⟩
      all_goals
        simp only [Transport.poll, List.map_map] at polled
        exact ⟨_, _, polled⟩
    obtain ⟨_, _, polled⟩ := collected
    obtain ⟨_, taken, took, rfl⟩ := collect_eq_ok.mp polled
    rw [toIovecs_bases, (takeAll_keys took).1]
    simp [Function.comp_def]

variable {operation failure : String} {mrs : List Range} {credits : ℕ} {iov : Iovec}
  {ret : Option String}

/-- A post succeeds exactly below the credits, in a registered region, if the
fabric accepts it and the address is not in progress yet. -/
theorem post_eq_ok : t.post operation failure mrs credits iov ret pending = .ok () pending' ↔
    size pending < credits ∧ t.checkMr mrs iov = .ok () ∧ ret = none ∧ iov.iovBase ∉ pending ∧
      pending' = pending.insert iov.iovBase iov.iovLen := by
  unfold Transport.post
  rw [estate_get_bind]
  by_cases full : credits ≤ size pending
  · rw [if_pos full, estate_throw_bind]
    simp [full]
  · rw [if_neg full]
    cases checked : t.checkMr mrs iov with
    | error e =>
      rw [estate_bind_eq_ok]
      simp
    | ok =>
      have registered : attempt (.ok ()) pending =
          (.ok () pending : EStateM.Result Error _ _) := rfl
      dsimp only
      rw [bind_of_ok registered]
      cases ret with
      | some text => simp
      | none =>
        simp only [estate_get_bind]
        by_cases taken : iov.iovBase ∈ pending
        · simp [taken]
        · rw [if_neg taken]
          simp [taken, not_le.mp full, eq_comm]

/-- The same on one of the tables of a socket. -/
theorem zoom_post_eq_ok {σ : Type} {part : σ → PendingMap ℕ ℕ} {put : σ → PendingMap ℕ ℕ → σ}
    {s s' : σ} : zoom part put (t.post operation failure mrs credits iov ret) s = .ok () s' ↔
      size (part s) < credits ∧ t.checkMr mrs iov = .ok () ∧ ret = none ∧
        iov.iovBase ∉ part s ∧ s' = put s ((part s).insert iov.iovBase iov.iovLen) := by
  rw [zoom_eq_ok]
  constructor
  · rintro ⟨pending, posted, rfl⟩
    obtain ⟨room, region, accepted, fresh, rfl⟩ := post_eq_ok.mp posted
    exact ⟨room, region, accepted, fresh, rfl⟩
  · rintro ⟨room, region, accepted, fresh, rfl⟩
    exact ⟨_, post_eq_ok.mpr ⟨room, region, accepted, fresh, rfl⟩, rfl⟩

end Pending

namespace Socket

variable {t : Transport} {socket socket' : Socket} {iovs : List Iovec} {read : CqRead}

/-- Whatever lies in the registered region passes the check of the memory regions. -/
theorem checkMr_connected {region : Range} {iov : Iovec} (credits : ℕ)
    (first : region.mBegin ≤ iov.iovBase) (last : iov.iovBase + iov.iovLen ≤ region.mEnd) :
    t.checkMr (connected t region credits).mMrs iov = .ok () := by
  have found : (findMr [⟨region.mBegin, region.mBegin + (region.mEnd - region.mBegin)⟩]
      iov).isSome := by
    have within : iov.iovBase + iov.iovLen ≤ region.mBegin + (region.mEnd - region.mBegin) := by
      omega
    simp [findMr, first, within]
  cases t with
  | verbs => exact if_neg (Bool.not_eq_true _ ▸ Option.isNone_eq_false_iff.mpr found)
  | fiVerbs => exact assertThat_of found _
  | fiTcp => rfl

theorem pollCompletedRecv_eq_ok : pollCompletedRecv t read socket = .ok iovs socket' ↔
    ∃ pending, t.poll "recv_cq" read socket.mPendingRecv = .ok iovs pending ∧
      socket' = { socket with mPendingRecv := pending } := by
  rw [pollCompletedRecv, onRecv, zoom_eq_ok]

/-- A buffer that is accepted for a receive is entered. -/
theorem postRecv_eq_ok {iov : Iovec} {refused : Option String} :
    postRecv t iov refused socket = .ok () socket' ↔
      size socket.mPendingRecv < socket.mCredits ∧ t.checkMr socket.mMrs iov = .ok () ∧
      refused = none ∧ iov.iovBase ∉ socket.mPendingRecv ∧
      socket' = { socket with
        mPendingRecv := socket.mPendingRecv.insert iov.iovBase iov.iovLen } := by
  obtain ⟨failure, unfolded⟩ : ∃ failure, postRecv t iov refused socket = onRecv
      (t.post "post_recv" failure socket.mMrs socket.mCredits iov refused) socket := ⟨_, rfl⟩
  rw [unfolded, onRecv, zoom_post_eq_ok]

end Socket

end Lseb
