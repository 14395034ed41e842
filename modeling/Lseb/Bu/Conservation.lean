import Mathlib.Tactic.Abel
import Lseb.Bu.Phases
import Lseb.Foundation.Run
import Lseb.Transport.WorkRequests

/-!
# Chunks circulate and none is lost

Each chunk of a connection is either posted for a receive or holds a multievent
in the vector. Reading moves chunks from the table to the vector, releasing
moves them back from its front, so that the credits always suffice.
-/

namespace Lseb

open Foundation PendingMap

/-- A socket with some more receives posted. -/
def Socket.postedAll (chunkSize : ℕ) (bases : List ℕ) (socket : Socket) : Socket :=
  { socket with mPendingRecv := enterAll chunkSize bases socket.mPendingRecv }

namespace BuilderUnit

variable {t : Transport} {bu bu' : BuilderUnit} {i n : ℕ}

/-- The addresses of the chunks of a connection. -/
def chunks (bu : BuilderUnit) (i : ℕ) : List ℕ := (List.range bu.mCredits).map (bu.chunk i)

/-- The memory of a connection, which is registered with it. -/
def region (bu : BuilderUnit) (i : ℕ) : Range :=
  ⟨bu.chunk i 0, bu.chunk i 0 + bu.chunkSize * bu.mCredits⟩

theorem chunks_nodup (positive : 0 < bu.chunkSize) : (bu.chunks i).Nodup := by
  apply List.nodup_range.map
  intro j k same
  simp only [chunk, Nat.add_left_cancel_iff] at same
  exact Nat.eq_of_mul_eq_mul_right positive same

theorem chunk_inside {j : ℕ} (inside : j < bu.mCredits) :
    (bu.region i).mBegin ≤ bu.chunk i j ∧ bu.chunk i j + bu.chunkSize ≤ (bu.region i).mEnd := by
  have fits : j * bu.chunkSize + bu.chunkSize ≤ bu.chunkSize * bu.mCredits := by
    rw [← Nat.succ_mul, mul_comm]
    exact Nat.mul_le_mul_left _ inside
  simp only [region, chunk]
  omega

/-- The state of one connection: its chunks are in the table or in the vector. -/
structure Channel (t : Transport) (bu : BuilderUnit) (i : ℕ) : Prop where
  credits : (bu.mConnectionIds i).mCredits = bu.mCredits
  mrs : (bu.mConnectionIds i).mMrs = (Socket.connected t (bu.region i) bu.mCredits).mMrs
  places : keySet (bu.mConnectionIds i).mPendingRecv +
    ((bu.mDataVect i).map Iovec.iovBase : Multiset ℕ) = bu.chunks i
  lengths : ∀ key len, (bu.mConnectionIds i).mPendingRecv.lookup key = some len →
    len = bu.chunkSize

theorem Channel.distinct (channel : Channel t bu i) (positive : 0 < bu.chunkSize) :
    (keySet (bu.mConnectionIds i).mPendingRecv +
      ((bu.mDataVect i).map Iovec.iovBase : Multiset ℕ)).Nodup := by
  rw [channel.places]
  exact Multiset.coe_nodup.mpr (chunks_nodup positive)

theorem Channel.count (channel : Channel t bu i) :
    size (bu.mConnectionIds i).mPendingRecv + (bu.mDataVect i).length = bu.mCredits := by
  have cards := congrArg Multiset.card channel.places
  simpa [chunks, size_eq_card] using cards

/-- The other connections do not matter. -/
theorem Channel.congr {conns : ℕ → Socket} {data : ℕ → List Iovec} (count : ℕ)
    (channel : Channel t bu i) (sameConn : conns i = bu.mConnectionIds i)
    (sameData : data i = bu.mDataVect i) :
    Channel t { bu with
      mConnectionIds := conns
      connections := count
      mDataVect := data } i := by
  constructor <;> simp only [sameConn, sameData]
  · exact channel.credits
  · exact channel.mrs
  · exact channel.places
  · exact channel.lengths

section Reading

variable {read : CqRead} {batch : List ℕ}

/-- Reading moves the completed chunks from the table to the vector. -/
theorem Channel.acquire {conns : ℕ → Socket} {data : ℕ → List Iovec} (channel : Channel t bu i)
    (answered : ReadFrom t read bu (bu.withChannels conns data) i) :
    Channel t (bu.withChannels conns data) i := by
  obtain ⟨newData, polled, appended⟩ := answered
  obtain ⟨pending, polled, after⟩ := Socket.pollCompletedRecv_eq_ok.mp polled
  have moved := poll_keySet polled
  refine ⟨?_, ?_, ?_, ?_⟩
  · rw [after]
    exact channel.credits
  · rw [after]
    exact channel.mrs
  · have places := channel.places
    rw [moved, add_comm (newData.map Iovec.iovBase : Multiset ℕ), add_assoc] at places
    rw [after, appended, List.map_append, ← Multiset.coe_add,
      add_comm ((bu.mDataVect i).map Iovec.iovBase : Multiset ℕ)]
    exact places
  · intro key len found
    rw [after] at found
    exact channel.lengths key len ((poll_lookup polled).2 key len found)

/-- What a connection delivers is appended in the order of the completions. -/
theorem ReadFrom.delivered (delivers : read.Delivers batch)
    (answered : ReadFrom t read bu bu' i) :
    (bu'.mDataVect i).map Iovec.iovBase = (bu.mDataVect i).map Iovec.iovBase ++ batch ∧
      keySet (bu.mConnectionIds i).mPendingRecv =
        batch + keySet (bu'.mConnectionIds i).mPendingRecv := by
  obtain ⟨newData, polled, appended⟩ := answered
  obtain ⟨pending, polled, after⟩ := Socket.pollCompletedRecv_eq_ok.mp polled
  have moved := poll_keySet polled
  obtain rfl := poll_batch delivers polled
  rw [appended, List.map_append, after]
  exact ⟨rfl, moved⟩

end Reading

section Releasing

variable {chunkSize k : ℕ} {bases : List ℕ}

/-- Fresh buffers within the credits and the region are all posted. -/
theorem postChunks_total
    (room : size (bu.mConnectionIds i).mPendingRecv + bases.length ≤
      (bu.mConnectionIds i).mCredits)
    (region : ∀ base ∈ bases, t.checkMr (bu.mConnectionIds i).mMrs ⟨base, chunkSize⟩ = .ok ())
    (distinct : bases.Nodup) (apart : ∀ base ∈ bases, base ∉ (bu.mConnectionIds i).mPendingRecv) :
    postChunks t i chunkSize (fun _ => none) k bases bu = .ok () { bu with
      mConnectionIds := Function.update bu.mConnectionIds i
        ((bu.mConnectionIds i).postedAll chunkSize bases) } := by
  induction bases generalizing bu k with
  | nil =>
    rw [show (bu.mConnectionIds i).postedAll chunkSize [] = bu.mConnectionIds i from rfl]
    simp [postChunks]
  | cons base rest ih =>
    obtain ⟨fresh, tail⟩ := List.nodup_cons.mp distinct
    have absent := apart base List.mem_cons_self
    have posted := Socket.postRecv_eq_ok.mpr ⟨by simp at room; omega,
      region base List.mem_cons_self, rfl, absent, rfl⟩
    have first := onConn_eq_ok.mpr ⟨_, posted, rfl⟩
    rw [postChunks, bind_of_ok first, ih]
    · simp [Socket.postedAll, enterAll]
    · simp only [Function.update_self]
      rw [size_eq_card, keySet_insert absent, Multiset.card_cons, ← size_eq_card]
      simp only [List.length_cons] at room
      omega
    · simp only [Function.update_self]
      exact fun other member => region other (List.mem_cons_of_mem _ member)
    · exact tail
    · simp only [Function.update_self]
      intro other member present
      cases (AList.mem_insert _).mp present with
      | inl same => exact fresh (same ▸ member)
      | inr old => exact apart other (List.mem_cons_of_mem _ member) old

/-- The fronts of the vector are posted again. -/
theorem releaseData_total (channel : Channel t bu i) (positive : 0 < bu.chunkSize)
    (enough : n ≤ (bu.mDataVect i).length) :
    ∃ bytes conn, releaseData t (fun _ => none) i n bu = .ok bytes (bu.withChannels
        (Function.update bu.mConnectionIds i conn)
        (Function.update bu.mDataVect i ((bu.mDataVect i).drop n))) ∧
      conn.mCredits = (bu.mConnectionIds i).mCredits ∧
      conn.mMrs = (bu.mConnectionIds i).mMrs ∧
      keySet conn.mPendingRecv = (((bu.mDataVect i).take n).map Iovec.iovBase : Multiset ℕ) +
        keySet (bu.mConnectionIds i).mPendingRecv ∧
      ∀ key len, conn.mPendingRecv.lookup key = some len → len = bu.chunkSize := by
  have whole := channel.distinct positive
  obtain ⟨_, dataDistinct, disjoint⟩ := Multiset.nodup_add.mp whole
  have front : (((bu.mDataVect i).take n).map Iovec.iovBase).Sublist
      ((bu.mDataVect i).map Iovec.iovBase) := (List.take_sublist _ _).map _
  have apart : ∀ base ∈ ((bu.mDataVect i).take n).map Iovec.iovBase,
      base ∉ (bu.mConnectionIds i).mPendingRecv := fun base member pending =>
    Multiset.disjoint_left.mp disjoint (mem_keySet.mpr pending) (front.subset member)
  have distinct := front.nodup (Multiset.coe_nodup.mp dataDistinct)
  have posted := @postChunks_total t (bu.setData i ((bu.mDataVect i).drop n)) i bu.chunkSize 0
    (((bu.mDataVect i).take n).map Iovec.iovBase) (by
      have count := channel.count
      have limit := channel.credits
      simp only [setData, List.length_map, List.length_take]
      omega) (by
      intro base member
      have listed : base ∈ bu.chunks i := by
        rw [← Multiset.mem_coe, ← channel.places]
        exact Multiset.mem_add.mpr (.inr (front.subset member))
      obtain ⟨j, inside, rfl⟩ := List.mem_map.mp listed
      obtain ⟨first, last⟩ := @chunk_inside bu i j (List.mem_range.mp inside)
      simp only [setData, channel.mrs]
      exact Socket.checkMr_connected _ first last) distinct apart
  have checked : attempt (assertThat ((bu.mDataVect i).length ≥ n) "iov_vect.size() >= n") bu =
      .ok () bu := attempt_eq_ok.mpr ⟨assertThat_of enough _, rfl⟩
  refine ⟨iovecLength ((bu.mDataVect i).take n), (bu.mConnectionIds i).postedAll bu.chunkSize
    (((bu.mDataVect i).take n).map Iovec.iovBase), ?_, rfl, rfl, enterAll_keys distinct apart, ?_⟩
  · rw [releaseData, estate_get_bind, bind_of_ok checked, estate_modify_bind, estate_get_bind]
    exact bind_of_ok posted
  · intro key len found
    cases enterAll_lookup found with
    | inl new => exact new
    | inr old => exact channel.lengths key len old

/-- What releasing `n` rounds does to one connection. -/
structure Released (bu bu' : BuilderUnit) (n i : ℕ) : Prop where
  data : bu'.mDataVect i = (bu.mDataVect i).drop n
  posted : keySet (bu'.mConnectionIds i).mPendingRecv =
    (((bu.mDataVect i).take n).map Iovec.iovBase : Multiset ℕ) +
      keySet (bu.mConnectionIds i).mPendingRecv

theorem Channel.release {conns : ℕ → Socket} {data : ℕ → List Iovec} (channel : Channel t bu i)
    (credits : (conns i).mCredits = (bu.mConnectionIds i).mCredits)
    (mrs : (conns i).mMrs = (bu.mConnectionIds i).mMrs)
    (lengths : ∀ key len, (conns i).mPendingRecv.lookup key = some len → len = bu.chunkSize)
    (released : Released bu (bu.withChannels conns data) n i) :
    Channel t (bu.withChannels conns data) i := by
  refine ⟨credits.trans channel.credits, mrs.trans channel.mrs, ?_, lengths⟩
  have places := channel.places
  rw [← List.take_append_drop n (bu.mDataVect i), List.map_append, ← Multiset.coe_add] at places
  rw [released.posted, released.data, add_comm (((bu.mDataVect i).take n).map Iovec.iovBase :
    Multiset ℕ), add_assoc]
  exact places

/-- Every connection gets its chunks back, and nothing else changes. -/
theorem release_total {ids : List ℕ} (distinct : ids.Nodup) (positive : 0 < bu.chunkSize)
    (channels : ∀ i ∈ ids, Channel t bu i)
    (enough : ∀ i ∈ ids, n ≤ (bu.mDataVect i).length) :
    ∃ conns data, release t (fun _ _ => none) n ids bu = .ok () (bu.withChannels conns data) ∧
      (∀ i ∈ ids, Channel t (bu.withChannels conns data) i ∧
        Released bu (bu.withChannels conns data) n i) ∧
      ∀ i ∉ ids, conns i = bu.mConnectionIds i ∧ data i = bu.mDataVect i := by
  induction ids generalizing bu with
  | nil => exact ⟨bu.mConnectionIds, bu.mDataVect, rfl, by simp, by simp⟩
  | cons id ids ih =>
    obtain ⟨fresh, tail⟩ := List.nodup_cons.mp distinct
    obtain ⟨bytes, conn, first, credits, mrs, posted, lengths⟩ := releaseData_total
      (channels id List.mem_cons_self) positive (enough id List.mem_cons_self)
    have others : ∀ i ∈ ids, i ≠ id := fun i later same => fresh (same ▸ later)
    obtain ⟨conns, data, rest, inside, outside⟩ := @ih (bu.withChannels
      (Function.update bu.mConnectionIds id conn)
      (Function.update bu.mDataVect id ((bu.mDataVect id).drop n))) tail positive (by
        intro i later
        exact (channels i (List.mem_cons_of_mem _ later)).congr bu.connections
          (Function.update_of_ne (others i later) _ _)
          (Function.update_of_ne (others i later) _ _)) (by
        intro i later
        simp only [withChannels, Function.update_of_ne (others i later)]
        exact enough i (List.mem_cons_of_mem _ later))
    obtain ⟨sameConn, sameData⟩ := outside id fresh
    simp only [withChannels, Function.update_self] at sameConn sameData
    have own : Released bu (bu.withChannels conns data) n id :=
      ⟨sameData, by simp only [withChannels, sameConn]; exact posted⟩
    refine ⟨conns, data, ?_, ?_, unchanged_cons outside⟩
    · rw [BuilderUnit.release, bind_of_ok first]
      exact rest
    · intro i member
      cases List.mem_cons.mp member with
      | inl same =>
        subst same
        refine ⟨(channels i List.mem_cons_self).release ?_ ?_ ?_ own, own⟩
        · rw [sameConn]
          exact credits
        · rw [sameConn]
          exact mrs
        · rw [sameConn]
          exact lengths
      | inr later =>
        obtain ⟨channel, released⟩ := inside i later
        refine ⟨channel, ?_, ?_⟩
        · have data := released.data
          simpa only [withChannels, Function.update_of_ne (others i later)] using data
        · have posted := released.posted
          simpa only [withChannels, Function.update_of_ne (others i later)] using posted

end Releasing

section Connecting

/-- A freshly accepted connection has all of its chunks posted. -/
theorem accept_total (positive : 0 < bu.chunkSize) (empty : bu.mDataVect i = []) :
    ∃ conn, accept t (fun _ => none) i bu = .ok () { bu with
        mConnectionIds := Function.update bu.mConnectionIds i conn
        connections := bu.connections + 1 } ∧
      Channel t { bu with
        mConnectionIds := Function.update bu.mConnectionIds i conn
        connections := bu.connections + 1 } i := by
  have fresh : (Socket.connected t (bu.region i) bu.mCredits).mPendingRecv = ∅ := by
    cases t <;> rfl
  have limit : (Socket.connected t (bu.region i) bu.mCredits).mCredits = bu.mCredits := by
    cases t <;> rfl
  have registered : (Socket.construct bu.mCredits).registerMemory t (bu.chunk i 0)
      (bu.chunkSize * bu.mCredits) = Socket.connected t (bu.region i) bu.mCredits := by
    rw [Socket.connected, region, Nat.add_sub_cancel_left]
  have apart : ∀ base ∈ bu.chunks i,
      base ∉ (Socket.connected t (bu.region i) bu.mCredits).mPendingRecv := by
    rw [fresh]
    exact fun base _ => AList.notMem_empty base
  have posted := @postChunks_total t { bu with
      mConnectionIds := Function.update bu.mConnectionIds i
        (Socket.connected t (bu.region i) bu.mCredits)
      connections := bu.connections + 1 } i bu.chunkSize 0 (bu.chunks i)
    (by
      simp only [Function.update_self, fresh, limit, chunks, List.length_map, List.length_range]
      exact (zero_add _).le)
    (by
      simp only [Function.update_self]
      intro base member
      obtain ⟨j, inside, rfl⟩ := List.mem_map.mp member
      obtain ⟨first, last⟩ := @chunk_inside bu i j (List.mem_range.mp inside)
      exact Socket.checkMr_connected _ first last)
    (chunks_nodup positive) (by simpa only [Function.update_self] using apart)
  simp only [Function.update_self, Function.update_idem] at posted
  refine ⟨(Socket.connected t (bu.region i) bu.mCredits).postedAll bu.chunkSize (bu.chunks i), ?_,
    ?_⟩
  · rw [accept, estate_get_bind]
    simp only [registered]
    exact posted
  · constructor <;> simp only [Function.update_self]
    · exact limit
    · rfl
    · have posted : keySet ((Socket.connected t (bu.region i) bu.mCredits).postedAll bu.chunkSize
          (bu.chunks i)).mPendingRecv = _ := enterAll_keys (chunks_nodup positive) apart
      rw [posted, fresh, empty, keySet_empty, add_zero, List.map_nil, Multiset.coe_nil, add_zero]
      rfl
    · intro key len found
      cases enterAll_lookup found with
      | inl new => exact new
      | inr old =>
        rw [fresh] at old
        simp at old

theorem acceptAll_total {ids : List ℕ} (distinct : ids.Nodup) (positive : 0 < bu.chunkSize)
    (empty : ∀ i ∈ ids, bu.mDataVect i = []) :
    ∃ conns, acceptAll t (fun _ _ => none) ids bu = .ok () { bu with
        mConnectionIds := conns
        connections := bu.connections + ids.length } ∧
      (∀ i ∈ ids, Channel t { bu with
        mConnectionIds := conns
        connections := bu.connections + ids.length } i) ∧
      ∀ i ∉ ids, conns i = bu.mConnectionIds i := by
  induction ids generalizing bu with
  | nil => exact ⟨bu.mConnectionIds, rfl, by simp, by simp⟩
  | cons id ids ih =>
    obtain ⟨fresh, tail⟩ := List.nodup_cons.mp distinct
    obtain ⟨conn, first, channel⟩ := @accept_total t bu id positive (empty id List.mem_cons_self)
    obtain ⟨conns, rest, inside, outside⟩ := @ih { bu with
      mConnectionIds := Function.update bu.mConnectionIds id conn
      connections := bu.connections + 1 } tail positive
      fun i later => empty i (List.mem_cons_of_mem _ later)
    have total : bu.connections + 1 + ids.length = bu.connections + (id :: ids).length := by
      rw [List.length_cons]
      omega
    rw [total] at rest inside
    refine ⟨conns, ?_, ?_, ?_⟩
    · rw [acceptAll, bind_of_ok first]
      exact rest
    · intro i member
      cases List.mem_cons.mp member with
      | inl same =>
        subst same
        exact channel.congr _ (outside i fresh) rfl
      | inr later => exact inside i later
    · intro i absent
      obtain ⟨differs, absent⟩ := not_or.mp (mt List.mem_cons.mpr absent)
      exact (outside i absent).trans (Function.update_of_ne differs _ _)

/-- After the construction and `connect`, all chunks are posted. -/
theorem connect_total (t : Transport) {nodes bulkSize credits maxFragmentSize dataPtr : ℕ}
    (positive : 0 < maxFragmentSize * bulkSize) :
    ∃ bu, connect t (fun _ _ => none) nodes
        (construct nodes bulkSize credits maxFragmentSize dataPtr) = .ok () bu ∧
      (∃ conns, bu = { construct nodes bulkSize credits maxFragmentSize dataPtr with
        mConnectionIds := conns
        connections := nodes }) ∧
      ∀ i < nodes, Channel t bu i := by
  obtain ⟨conns, accepted, channels, _⟩ := @acceptAll_total t
    (construct nodes bulkSize credits maxFragmentSize dataPtr) (List.range nodes)
    List.nodup_range positive fun _ _ => rfl
  simp only [List.length_range] at accepted channels
  rw [show (construct nodes bulkSize credits maxFragmentSize dataPtr).connections + nodes = nodes
    from Nat.zero_add _] at accepted channels
  exact ⟨_, accepted, ⟨conns, rfl⟩, fun i inside => channels i (List.mem_range.mpr inside)⟩

end Connecting

section Turns

variable {completions : ℕ → CqRead} {batch : ℕ → List ℕ} {memory : Memory}
  {report : BuilderReport} {minWrs : ℕ} {bu₁ : BuilderUnit}

/-- What a turn did on one connection: what was delivered is appended to the
vector, and the rounds released leave its front. -/
structure Turned (bu bu' : BuilderUnit) (report : BuilderReport) (batch : List ℕ) (i : ℕ) :
    Prop where
  queued : (report.queued i).map Iovec.iovBase = (bu.mDataVect i).map Iovec.iovBase ++ batch
  enough : report.rounds ≤ (report.queued i).length
  data : bu'.mDataVect i = (report.queued i).drop report.rounds
  pending : keySet (bu'.mConnectionIds i).mPendingRecv + batch =
    keySet (bu.mConnectionIds i).mPendingRecv +
      (((report.queued i).take report.rounds).map Iovec.iovBase : Multiset ℕ)

/-- The reading phase succeeds on any part of the receives in progress. -/
theorem acquire_conserves (channels : ∀ i < bu.connections, Channel t bu i)
    (delivers : ∀ i, (completions i).Delivers (batch i))
    (part : ∀ i < bu.connections,
      (batch i : Multiset ℕ) ≤ keySet (bu.mConnectionIds i).mPendingRecv) :
    ∃ minWrs bu₁, acquire t completions bu.mCredits (List.range bu.connections) bu =
        .ok minWrs bu₁ ∧ ∀ i < bu.connections, Channel t bu₁ i := by
  obtain ⟨minWrs, bu₁, reads⟩ := @acquire_total t bu completions (List.range bu.connections)
    bu.mCredits List.nodup_range fun i member => by
      obtain ⟨iovs, pending, polled, _⟩ := @poll_delivers _ t "recv_cq" (completions i) (batch i)
        (delivers i) (part i (List.mem_range.mp member))
      exact ⟨iovs, _, Socket.pollCompletedRecv_eq_ok.mpr ⟨pending, polled, rfl⟩⟩
  refine ⟨minWrs, bu₁, reads, ?_⟩
  obtain ⟨⟨conns, data, rfl⟩, answered, _⟩ := acquire_eq_ok List.nodup_range reads
  exact fun i inside => (channels i inside).acquire (answered i (List.mem_range.mpr inside))

/-- If the check passes, the turn goes through, and every connection is served alike. -/
theorem iteration_conserves (positive : 0 < bu.chunkSize)
    (channels : ∀ i < bu.connections, Channel t bu i)
    (delivers : ∀ i, (completions i).Delivers (batch i))
    (reads : acquire t completions bu.mCredits (List.range bu.connections) bu = .ok minWrs bu₁)
    (passes : minWrs ≠ 0 → checkData memory bu₁ = .ok true) :
    ∃ conns data, iteration t ⟨completions, memory, fun _ _ => none⟩ bu =
        .ok ⟨bu₁.mDataVect, minWrs⟩ (bu.withChannels conns data) ∧
      ∀ i < bu.connections, Channel t (bu.withChannels conns data) i ∧
        Turned bu (bu.withChannels conns data) ⟨bu₁.mDataVect, minWrs⟩ (batch i) i := by
  obtain ⟨⟨conns₁, data₁, rfl⟩, answered, _, least⟩ := acquire_eq_ok List.nodup_range reads
  have channels₁ : ∀ i ∈ List.range bu.connections, Channel t (bu.withChannels conns₁ data₁) i :=
    fun i member => (channels i (List.mem_range.mp member)).acquire (answered i member)
  have enough : ∀ i ∈ List.range bu.connections, minWrs ≤ (data₁ i).length := by
    intro i member
    rcases Nat.eq_zero_or_pos minWrs with none | some
    · omega
    · have last := ((least (minWrs - 1)).mp (by omega)).2 i member
      simp only [withChannels] at last
      omega
  obtain ⟨conns, data, built, inside⟩ : ∃ conns data,
      build t memory (fun _ _ => none) minWrs (bu.withChannels conns₁ data₁) =
        .ok () (bu.withChannels conns data) ∧
      ∀ i ∈ List.range bu.connections, Channel t (bu.withChannels conns data) i ∧
        Released (bu.withChannels conns₁ data₁) (bu.withChannels conns data) minWrs i := by
    by_cases rounds : minWrs = 0
    · subst rounds
      exact ⟨conns₁, data₁, rfl, fun i member => ⟨channels₁ i member, rfl, (zero_add _).symm⟩⟩
    · obtain ⟨conns, data, released, inside, _⟩ := @release_total t (bu.withChannels conns₁ data₁)
        minWrs (List.range bu.connections) List.nodup_range positive channels₁ enough
      refine ⟨conns, data, ?_, inside⟩
      rw [build, if_pos rounds, estate_get_bind,
        bind_of_ok (attempt_eq_ok.mpr ⟨passes rounds, rfl⟩)]
      exact released
  refine ⟨conns, data, ?_, ?_⟩
  · rw [iteration, estate_get_bind, bind_of_ok reads, estate_get_bind, bind_of_ok built]
    rfl
  · intro i below
    have member := List.mem_range.mpr below
    obtain ⟨channel, released⟩ := inside i member
    obtain ⟨appended, moved⟩ := (answered i member).delivered (delivers i)
    refine ⟨channel, appended, enough i member, released.data, ?_⟩
    rw [released.posted, moved]
    simp only [withChannels]
    abel

end Turns

end BuilderUnit

end Lseb
