import Mathlib.Data.List.Nodup
import Lseb.Bu.BuilderUnit

/-!
# The phases of a turn of the builder unit

Reading appends to the vectors what the polls return and yields the rounds that
all connections have; checking looks at the first entry of each vector;
releasing cuts that many entries off each of them.
-/

namespace Lseb

open Foundation

namespace BuilderUnit

variable {t : Transport} {bu bu' : BuilderUnit} {id n : ℕ}

section Reading

variable {read : CqRead} {completions : ℕ → CqRead} {ids : List ℕ} {minWrs minWrs' : ℕ}

/-- The connections and vectors of a builder unit, exchanged. -/
def withChannels (bu : BuilderUnit) (conns : ℕ → Socket) (data : ℕ → List Iovec) : BuilderUnit :=
  { bu with
    mConnectionIds := conns
    mDataVect := data }

theorem onConn_eq_ok {α : Type} {x : EStateM Error Socket α} {a : α} :
    onConn id x bu = .ok a bu' ↔ ∃ conn, x (bu.mConnectionIds id) = .ok a conn ∧
      bu' = { bu with mConnectionIds := Function.update bu.mConnectionIds id conn } :=
  zoom_eq_ok

/-- What a poll returns is appended. -/
theorem readData_eq_ok : readData t read id bu = .ok n bu' ↔ ∃ newData conn,
    Socket.pollCompletedRecv t read (bu.mConnectionIds id) = .ok newData conn ∧
      bu' = bu.withChannels (Function.update bu.mConnectionIds id conn)
        (Function.update bu.mDataVect id (bu.mDataVect id ++ newData)) ∧
      n = newData.length := by
  rw [readData, estate_get_bind, estate_bind_eq_ok]
  simp only [onConn_eq_ok]
  constructor
  · rintro ⟨newData, _, ⟨conn, polled, rfl⟩, stored⟩
    refine ⟨newData, conn, polled, ?_⟩
    by_cases nothing : newData = []
    · subst nothing
      obtain ⟨rfl, rfl⟩ : (bu.mDataVect id).length - (bu.mDataVect id).length = n ∧
          { bu with mConnectionIds := Function.update bu.mConnectionIds id conn } = bu' := by
        simpa [estate_get_bind] using stored
      simp [withChannels]
    · rw [if_pos nothing, estate_modify_bind, estate_get_bind] at stored
      simp only [setData, estate_pure, EStateM.Result.ok.injEq, Function.update_self,
        List.length_append, Nat.add_sub_cancel_left] at stored
      obtain ⟨rfl, rfl⟩ := stored
      exact ⟨rfl, rfl⟩
  · rintro ⟨newData, conn, polled, rfl, rfl⟩
    refine ⟨newData, _, ⟨conn, polled, rfl⟩, ?_⟩
    by_cases nothing : newData = []
    · subst nothing
      simp [estate_get_bind, withChannels]
    · rw [if_pos nothing, estate_modify_bind, estate_get_bind]
      simp [setData, withChannels]

/-- What a change of one channel and a pass through others leave alone. -/
theorem unchanged_cons {conn : Socket} {newData : List Iovec} {conns : ℕ → Socket}
    {data : ℕ → List Iovec}
    (outside : ∀ i ∉ ids,
      conns i = (bu.withChannels (Function.update bu.mConnectionIds id conn)
        (Function.update bu.mDataVect id newData)).mConnectionIds i ∧
      data i = (bu.withChannels (Function.update bu.mConnectionIds id conn)
        (Function.update bu.mDataVect id newData)).mDataVect i) :
    ∀ i ∉ id :: ids, conns i = bu.mConnectionIds i ∧ data i = bu.mDataVect i := by
  intro i absent
  obtain ⟨differs, absent⟩ := not_or.mp (mt List.mem_cons.mpr absent)
  obtain ⟨keptConn, keptData⟩ := outside i absent
  simp only [withChannels, Function.update_of_ne differs] at keptConn keptData
  exact ⟨keptConn, keptData⟩

/-- What the reading phase did to the connection `i`. -/
def ReadFrom (t : Transport) (read : CqRead) (bu bu' : BuilderUnit) (i : ℕ) : Prop :=
  ∃ newData, Socket.pollCompletedRecv t read (bu.mConnectionIds i) =
      .ok newData (bu'.mConnectionIds i) ∧
    bu'.mDataVect i = bu.mDataVect i ++ newData

/-- Every connection is read once, and nothing else changes. -/
theorem acquire_eq_ok (distinct : ids.Nodup)
    (read : acquire t completions minWrs ids bu = .ok minWrs' bu') :
    (∃ conns data, bu' = bu.withChannels conns data) ∧
      (∀ i ∈ ids, ReadFrom t (completions i) bu bu' i) ∧
      (∀ i ∉ ids, bu'.mConnectionIds i = bu.mConnectionIds i ∧
        bu'.mDataVect i = bu.mDataVect i) ∧
      ∀ round, round < minWrs' ↔
        round < minWrs ∧ ∀ i ∈ ids, round < (bu'.mDataVect i).length := by
  induction ids generalizing minWrs bu with
  | nil =>
    cases read
    exact ⟨⟨_, _, rfl⟩, by simp, by simp, by simp⟩
  | cons id ids ih =>
    obtain ⟨fresh, tail⟩ := List.nodup_cons.mp distinct
    obtain ⟨_, middle, first, read⟩ := estate_bind_eq_ok.mp read
    obtain ⟨newData, conn, polled, rfl, rfl⟩ := readData_eq_ok.mp first
    rw [estate_get_bind] at read
    obtain ⟨⟨conns, data, rfl⟩, inside, outside, rounds⟩ := ih tail read
    obtain ⟨sameConn, sameData⟩ := outside id fresh
    simp only [withChannels, Function.update_self] at sameConn sameData rounds
    refine ⟨⟨conns, data, rfl⟩, ?_, unchanged_cons outside, ?_⟩
    · intro i member
      rcases List.mem_cons.mp member with rfl | later
      · exact ⟨newData, by simp only [withChannels, sameConn]; exact polled, sameData⟩
      · have differs : i ≠ id := fun same => fresh (same ▸ later)
        obtain ⟨others, answered, appended⟩ := inside i later
        simp only [withChannels, Function.update_of_ne differs] at answered appended
        exact ⟨others, answered, appended⟩
    · intro round
      simp only [withChannels, List.forall_mem_cons, sameData]
      rw [rounds round]
      split_ifs with fewer
      · constructor
        · rintro ⟨below, rest⟩
          exact ⟨below, below.trans fewer, rest⟩
        · rintro ⟨below, _, rest⟩
          exact ⟨below, rest⟩
      · constructor
        · rintro ⟨below, rest⟩
          exact ⟨below.trans_le (not_lt.mp fewer), below, rest⟩
        · rintro ⟨_, below, rest⟩
          exact ⟨below, rest⟩

theorem acquire_connections (distinct : ids.Nodup)
    (read : acquire t completions minWrs ids bu = .ok minWrs' bu') :
    bu'.connections = bu.connections ∧ bu'.nodes = bu.nodes ∧ bu'.mCredits = bu.mCredits := by
  obtain ⟨⟨conns, data, rfl⟩, _⟩ := acquire_eq_ok distinct read
  exact ⟨rfl, rfl, rfl⟩

theorem acquire_total (distinct : ids.Nodup)
    (polled : ∀ i ∈ ids, ∃ newData conn,
      Socket.pollCompletedRecv t (completions i) (bu.mConnectionIds i) = .ok newData conn) :
    ∃ minWrs' bu', acquire t completions minWrs ids bu = .ok minWrs' bu' := by
  induction ids generalizing minWrs bu with
  | nil => exact ⟨minWrs, bu, rfl⟩
  | cons id ids ih =>
    obtain ⟨fresh, tail⟩ := List.nodup_cons.mp distinct
    obtain ⟨newData, conn, here⟩ := polled id List.mem_cons_self
    have first := (@readData_eq_ok t bu _ id _ (completions id)).mpr
      ⟨newData, conn, here, rfl, rfl⟩
    obtain ⟨minWrs', bu', rest⟩ := @ih (bu.withChannels
        (Function.update bu.mConnectionIds id conn)
        (Function.update bu.mDataVect id (bu.mDataVect id ++ newData)))
      (if minWrs < (bu.mDataVect id ++ newData).length then minWrs
        else (bu.mDataVect id ++ newData).length) tail (by
      intro i later
      have differs : i ≠ id := fun same => fresh (same ▸ later)
      simp only [withChannels, Function.update_of_ne differs]
      exact polled i (List.mem_cons_of_mem _ later))
    refine ⟨minWrs', bu', ?_⟩
    rw [acquire, bind_of_ok first, estate_get_bind]
    simpa [withChannels] using rest

end Reading

section Checking

variable {memory : Memory} {queues : ℕ → List Iovec} {nodes round : ℕ}

/-- The entries of one round: every connection has one, and their headers can be
read, agree on the event id and have a length. -/
def RoundGood (memory : Memory) (queues : ℕ → List Iovec) (nodes round : ℕ) : Prop :=
  ∃ evtId, ∀ i < nodes, ∃ iov, (queues i)[round]? = some iov ∧ iov.iovBase % 8 = 0 ∧
    (readHeader memory iov.iovBase).id = evtId ∧ (readHeader memory iov.iovBase).length ≠ 0

theorem frontHeader_eq_ok {data : List Iovec} {header : EventHeader} :
    frontHeader memory data = .ok header ↔ ∃ iov, data[0]? = some iov ∧ iov.iovBase % 8 = 0 ∧
      readHeader memory iov.iovBase = header := by
  cases data with
  | nil => simp [frontHeader]
  | cons iov rest =>
    simp only [frontHeader, bind_eq_ok, List.getElem?_cons_zero, Option.some.injEq]
    constructor
    · rintro ⟨p, cast, returned⟩
      obtain ⟨_, aligned, same⟩ := bind_eq_ok.mp cast
      cases same
      cases returned
      exact ⟨iov, rfl, assertThat_eq_ok.mp aligned, rfl⟩
    · rintro ⟨_, rfl, aligned, rfl⟩
      exact ⟨_, pointerCast_of aligned, rfl⟩

theorem checkFronts_eq_ok {firstEvtId : ℕ} {vects : List (List Iovec)} :
    checkFronts memory firstEvtId vects = .ok true ↔ ∀ data ∈ vects, ∃ header,
      frontHeader memory data = .ok header ∧ header.id = firstEvtId ∧ header.length ≠ 0 := by
  induction vects with
  | nil => simp [checkFronts]
  | cons data rest ih =>
    rw [List.forall_mem_cons, ← ih]
    cases front : frontHeader memory data with
    | error e => simp [checkFronts, front]
    | ok header =>
      by_cases same : header.id = firstEvtId
      · by_cases empty : header.length = 0
        · simp [checkFronts, front, same, empty, pure, Except.pure]
        · simp [checkFronts, front, same, empty]
      · simp [checkFronts, front, same, pure, Except.pure]

/-- The check passes exactly if the first round is good; later rounds play no part. -/
theorem checkData_eq_ok (some : 0 < bu.nodes) :
    checkData memory bu = .ok true ↔ RoundGood memory bu.mDataVect bu.nodes 0 := by
  simp only [checkData, bind_eq_ok, checkFronts_eq_ok, List.forall_mem_map, List.mem_range,
    frontHeader_eq_ok]
  constructor
  · rintro ⟨header, _, fronts⟩
    refine ⟨header.id, fun i inside => ?_⟩
    obtain ⟨_, ⟨iov, front, aligned, rfl⟩, same, whole⟩ := fronts i inside
    exact ⟨iov, front, aligned, same, whole⟩
  · rintro ⟨evtId, good⟩
    obtain ⟨first, front, aligned, rfl, _⟩ := good 0 some
    refine ⟨_, ⟨first, front, aligned, rfl⟩, fun i inside => ?_⟩
    obtain ⟨iov, front, aligned, same, whole⟩ := good i inside
    exact ⟨_, ⟨iov, front, aligned, rfl⟩, same, whole⟩

end Checking

section Releasing

variable {chunkSize k : ℕ} {refused : ℕ → Option String} {bases : List ℕ}

theorem postChunks_preserves_data :
    Preserves mDataVect (postChunks t id chunkSize refused k bases) := by
  induction bases generalizing k with
  | nil => exact Preserves.pure _
  | cons base rest ih =>
    have first : Preserves mDataVect
        (onConn id (Socket.postRecv t ⟨base, chunkSize⟩ (refused k))) := by
      refine Preserves.zoom ?_ _
      intro bu conn
      rfl
    exact first.bind fun _ => ih

/-- A release cuts the front off its own vector, posts whatever it may, and
leaves the other vectors alone. -/
theorem releaseData_data (enough : n ≤ (bu.mDataVect id).length) :
    (final (releaseData t refused id n bu)).mDataVect =
      Function.update bu.mDataVect id ((bu.mDataVect id).drop n) := by
  have checked : attempt (assertThat ((bu.mDataVect id).length ≥ n) "iov_vect.size() >= n") bu =
      .ok () bu := attempt_eq_ok.mpr ⟨assertThat_of enough _, rfl⟩
  rw [releaseData, estate_get_bind, bind_of_ok checked, estate_modify_bind, estate_get_bind]
  exact (postChunks_preserves_data.bind fun _ => Preserves.pure _) _

theorem releaseData_preserves {other : ℕ} (differs : other ≠ id) :
    Preserves (fun bu => bu.mDataVect other) (releaseData t refused id n) := by
  refine Preserves.get_bind fun bu => (Preserves.attempt _).bind fun _ =>
    (Preserves.modify fun s => ?_).bind fun _ => Preserves.get_bind fun s =>
      Preserves.bind (fun s => congrFun (postChunks_preserves_data s) other)
        fun _ => Preserves.pure _
  simp [setData, Function.update_of_ne differs]

theorem release_preserves {refused : ℕ → ℕ → Option String} {ids : List ℕ} {other : ℕ}
    (absent : other ∉ ids) :
    Preserves (fun bu => bu.mDataVect other) (release t refused n ids) := by
  induction ids with
  | nil => exact Preserves.pure _
  | cons i rest ih =>
    obtain ⟨differs, absent⟩ := not_or.mp (mt List.mem_cons.mpr absent)
    exact (releaseData_preserves differs).bind fun _ => ih absent

/-- The first vector is cut before anything can go wrong. -/
theorem release_first {refused : ℕ → ℕ → Option String} {rest : List ℕ}
    (enough : n ≤ (bu.mDataVect id).length) (distinct : (id :: rest).Nodup) :
    (final (release t refused n (id :: rest) bu)).mDataVect id = (bu.mDataVect id).drop n := by
  have later := @release_preserves t n refused rest id (List.nodup_cons.mp distinct).1
  have first := congrFun (@releaseData_data t bu id n (refused id) enough) id
  rw [Function.update_self] at first
  rw [release]
  cases released : releaseData t (refused id) id n bu with
  | ok bytes middle =>
    rw [released] at first
    rw [bind_of_ok released]
    exact (later middle).trans first
  | error e middle =>
    rw [released] at first
    rw [bind_of_error released]
    exact first

end Releasing

end BuilderUnit

end Lseb
