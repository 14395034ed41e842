import Mathlib.Data.Nat.ModEq
import Mathlib.Data.Set.Function
import Lseb.Foundation.Run
import Lseb.Ru.ReadoutUnit

/-!
# Which multievent goes to which connection

The posts of a node follow a fixed schedule of turns: in each cycle, one post
per connection, starting behind the node's own. The invariant relates the
vector of multievents to be sent, the position in the cycle and the history of
posts to the multievents acquired so far; it holds for any accumulator and
whatever the fabric answers.
-/

namespace Lseb

open Foundation

section Schedule

variable {id nodes turn : ℕ}

/-- The connection of the post number `turn`. -/
def turnConnection (id nodes turn : ℕ) : ℕ := (id + 1 + turn % nodes) % nodes

/-- The multievent of the post number `turn`, in the order of acquisition. -/
def turnIndex (id nodes turn : ℕ) : ℕ := turn / nodes * nodes + turnConnection id nodes turn

/-- The position of a connection in the cycle. -/
def cyclePosition (id nodes connection : ℕ) : ℕ :=
  if id < connection then connection - (id + 1) else connection + nodes - (id + 1)

theorem turnConnection_lt (positive : 0 < nodes) : turnConnection id nodes turn < nodes :=
  Nat.mod_lt _ positive

theorem cyclePosition_lt {connection : ℕ} (own : id < nodes) (inside : connection < nodes) :
    cyclePosition id nodes connection < nodes := by
  unfold cyclePosition
  split_ifs <;> omega

/-- The positions of a cycle and the connections correspond. -/
theorem cyclePosition_unique {connection position : ℕ} (own : id < nodes)
    (inside : connection < nodes) (before : position < nodes) :
    (id + 1 + position) % nodes = connection ↔ position = cyclePosition id nodes connection := by
  unfold cyclePosition
  rcases Nat.lt_or_ge (id + 1 + position) nodes with below | above
  · rw [Nat.mod_eq_of_lt below]
    split_ifs <;> omega
  · rw [Nat.mod_eq_sub_mod above, Nat.mod_eq_of_lt (by omega)]
    split_ifs <;> omega

theorem turnConnection_eq_iff {connection : ℕ} (own : id < nodes) (inside : connection < nodes) :
    turnConnection id nodes turn = connection ↔
      turn % nodes = cyclePosition id nodes connection :=
  cyclePosition_unique own inside (Nat.mod_lt _ (Nat.zero_lt_of_lt own))

theorem turnIndex_div (positive : 0 < nodes) : turnIndex id nodes turn / nodes = turn / nodes := by
  rw [turnIndex, mul_comm, Nat.mul_add_div positive,
    Nat.div_eq_of_lt (turnConnection_lt positive), Nat.add_zero]

theorem turnIndex_mod (positive : 0 < nodes) :
    turnIndex id nodes turn % nodes = turnConnection id nodes turn := by
  rw [turnIndex, Nat.mul_add_mod', Nat.mod_eq_of_lt (turnConnection_lt positive)]

/-- No multievent has two turns. -/
theorem turnIndex_injective (own : id < nodes) : Function.Injective (turnIndex id nodes) := by
  intro first second same
  have positive : 0 < nodes := Nat.zero_lt_of_lt own
  have cycle : first / nodes = second / nodes := by
    rw [← turnIndex_div positive, same, turnIndex_div positive]
  have connection : turnConnection id nodes first = turnConnection id nodes second := by
    rw [← turnIndex_mod positive, same, turnIndex_mod positive]
  have position : first % nodes = second % nodes := by
    rw [(turnConnection_eq_iff own (turnConnection_lt positive)).mp rfl,
      (turnConnection_eq_iff own (turnConnection_lt positive)).mp rfl, connection]
  rw [← Nat.div_add_mod first nodes, ← Nat.div_add_mod second nodes, cycle, position]

theorem succ_within_cycle (more : turn % nodes + 1 < nodes) :
    (turn + 1) / nodes = turn / nodes ∧ (turn + 1) % nodes = turn % nodes + 1 :=
  (Nat.div_mod_unique (by omega)).mpr ⟨by have := Nat.mod_add_div turn nodes; omega, more⟩

theorem succ_end_of_cycle (last : turn % nodes + 1 = nodes) :
    (turn + 1) / nodes = turn / nodes + 1 ∧ (turn + 1) % nodes = 0 := by
  refine (Nat.div_mod_unique (by omega)).mpr ⟨?_, by omega⟩
  have := Nat.mod_add_div turn nodes
  rw [Nat.mul_add]
  omega

/-- The turns of the current cycle up to some position. -/
theorem turn_of_cycle {position : ℕ} (inside : position < nodes) :
    (turn / nodes * nodes + position) / nodes = turn / nodes ∧
      (turn / nodes * nodes + position) % nodes = position := by
  refine (Nat.div_mod_unique (by omega)).mpr ⟨?_, inside⟩
  rw [mul_comm nodes]
  omega

/-- At a fixed step, different nodes have different targets. -/
theorem step_bijOn (total step : ℕ) :
    Set.BijOn (fun id => (id + 1 + step) % total) (Set.Iio total) (Set.Iio total) := by
  refine ⟨?_, ?_, ?_⟩
  · intro id inside
    exact Nat.mod_lt _ (Nat.zero_lt_of_lt inside)
  · intro first firstInside second secondInside same
    have shifted : first + (1 + step) ≡ second + (1 + step) [MOD total] := by
      simpa only [Nat.ModEq, ← add_assoc] using same
    have congruent := Nat.ModEq.add_right_cancel' _ shifted
    rwa [Nat.ModEq, Nat.mod_eq_of_lt firstInside, Nat.mod_eq_of_lt secondInside] at congruent
  · intro target inside
    have inside : target < total := inside
    have back := Nat.mod_lt (1 + step) (Nat.zero_lt_of_lt inside)
    refine ⟨(target + (total - (1 + step) % total)) % total,
      Nat.mod_lt _ (Nat.zero_lt_of_lt inside), ?_⟩
    dsimp only
    rw [add_assoc, Nat.mod_add_mod, ← Nat.add_mod_mod, add_assoc, Nat.sub_add_cancel back.le,
      Nat.add_mod_right, Nat.mod_eq_of_lt inside]

/-- The send order of every node is a permutation that ends with the node itself,
and at no step do two nodes address the same target. -/
theorem createSequence_collisionFree (total : ℕ) :
    (∀ id < total, (createSequence id total).Perm (List.range total) ∧
        (∀ step < total, (createSequence id total)[step]? = some ((id + 1 + step) % total)) ∧
        (createSequence id total).getLast? = some id) ∧
      ∀ step < total, Set.BijOn (fun id => (createSequence id total).getD step 0) (Set.Iio total)
        (Set.Iio total) := by
  have nth : ∀ id < total, ∀ step < total,
      (createSequence id total)[step]? = some ((id + 1 + step) % total) := by
    intro id own step inside
    rw [createSequence_eq own, List.getElem?_map, List.getElem?_range inside, Option.map_some]
  refine ⟨?_, ?_⟩
  · intro id own
    refine ⟨createSequence_perm id total, nth id own, ?_⟩
    rw [List.getLast?_eq_getElem?, createSequence_length, nth id own _ (by omega),
      show id + 1 + (total - 1) = id + total by omega, Nat.add_mod_right, Nat.mod_eq_of_lt own]
  · intro step inside
    apply (step_bijOn total step).congr
    intro id own
    dsimp only
    rw [List.getD_eq_getElem?_getD, nth id own step inside, Option.getD_some]

end Schedule

namespace ReadoutUnit

variable {σ : Type} {source : MultieventSource σ} {t : Transport} {input : ReadoutInput}
  {ru ru' : ReadoutUnit σ} {report : ReadoutReport} {id nodes : ℕ} {acquired : List Iovec}
  {posts : List (ℕ × Iovec)}

/-- The loop's state, the multievents acquired and the posts made so far fit the schedule. -/
structure Assigned (ru : ReadoutUnit σ) (id nodes : ℕ) (acquired : List Iovec)
    (posts : List (ℕ × Iovec)) : Prop where
  connections : ru.connections = nodes
  sequence : ru.idSequence = createSequence id nodes
  position : ru.seqIt = posts.length % nodes
  cycle : posts.length / nodes * nodes ≤ acquired.length
  sent : ru.iovToSend = acquired.drop (posts.length / nodes * nodes)
  length_le : ru.iovToSend.length ≤ nodes
  posts : ∀ turn < posts.length, ∃ iov, posts[turn]? = some (turnConnection id nodes turn, iov) ∧
    acquired[turnIndex id nodes turn]? = some iov

theorem start_assigned (t : Transport) (accumulator : σ) (dataRange : Range) (credits : ℕ) :
    (start t accumulator dataRange credits id nodes).Assigned id nodes [] [] where
  connections := rfl
  sequence := rfl
  position := (Nat.zero_mod _).symm
  cycle := by simp
  sent := by simp [start]
  length_le := Nat.zero_le _
  posts turn before := absurd before (Nat.not_lt_zero _)

/-- The connection whose turn it is. -/
theorem Assigned.seqId (assigned : ru.Assigned id nodes acquired posts) (own : id < nodes) :
    ru.idSequence[ru.seqIt]? = some (turnConnection id nodes posts.length) := by
  have positive : 0 < nodes := Nat.zero_lt_of_lt own
  rw [assigned.sequence, assigned.position, createSequence_eq own, List.getElem?_map,
    List.getElem?_range (Nat.mod_lt _ positive)]
  rfl

theorem Assigned.acquire {fresh : List Iovec} (accumulator : σ) (conns : ℕ → Socket)
    (assigned : ru.Assigned id nodes acquired posts) (own : id < nodes)
    (bounded : fresh.length ≤ turnConnection id nodes posts.length + 1 - ru.iovToSend.length) :
    ({ ru with
      mAccumulator := accumulator
      mConnectionIds := conns
      iovToSend := ru.iovToSend ++ fresh } : ReadoutUnit σ).Assigned id nodes (acquired ++ fresh)
        posts where
  connections := assigned.connections
  sequence := assigned.sequence
  position := assigned.position
  cycle := assigned.cycle.trans (by simp)
  sent := by
    rw [assigned.sent, List.drop_append_of_le_length assigned.cycle]
  length_le := by
    have := assigned.length_le
    have := @turnConnection_lt id nodes posts.length (Nat.zero_lt_of_lt own)
    simp only [List.length_append]
    omega
  posts turn before := by
    obtain ⟨iov, post, origin⟩ := assigned.posts turn before
    have inside := (List.getElem?_eq_some_iff.mp origin).1
    exact ⟨iov, post, by rw [List.getElem?_append_left inside]; exact origin⟩

/-- When the last connection of a cycle is served, all multievents of the cycle are there. -/
theorem Assigned.length_eq {iov : Iovec} (assigned : ru.Assigned id nodes acquired posts)
    (own : id < nodes)
    (found : ru.iovToSend[turnConnection id nodes posts.length]? = some iov)
    (last : posts.length % nodes + 1 = nodes) : ru.iovToSend.length = nodes := by
  have bounded := assigned.length_le
  have highest : nodes - 1 < nodes := by omega
  have position := cyclePosition_lt own highest
  apply Nat.le_antisymm bounded
  rcases Nat.lt_or_ge (cyclePosition id nodes (nodes - 1)) (posts.length % nodes) with
    earlier | now
  · obtain ⟨quotient, remainder⟩ := @turn_of_cycle nodes posts.length _ position
    have before : posts.length / nodes * nodes + cyclePosition id nodes (nodes - 1) <
        posts.length := by
      have := Nat.div_add_mod' posts.length nodes
      omega
    obtain ⟨_, _, origin⟩ := assigned.posts _ before
    have inside := (List.getElem?_eq_some_iff.mp origin).1
    rw [turnIndex, quotient, (turnConnection_eq_iff own highest).mpr remainder] at inside
    rw [assigned.sent, List.length_drop]
    omega
  · have served := (turnConnection_eq_iff own highest).mpr
      (show posts.length % nodes = cyclePosition id nodes (nodes - 1) by omega)
    have inside := (List.getElem?_eq_some_iff.mp found).1
    omega

/-- A post is the next one of the schedule, and the loop's variables step with it. -/
theorem Assigned.post {iov : Iovec} {conns : ℕ → Socket}
    (assigned : ru.Assigned id nodes acquired posts) (own : id < nodes)
    (found : ru.iovToSend[turnConnection id nodes posts.length]? = some iov)
    (stepped : ({ ru with mConnectionIds := conns } : ReadoutUnit σ).incrementSeqIt = .ok ru') :
    ru'.Assigned id nodes acquired
      (posts ++ [(turnConnection id nodes posts.length, iov)]) := by
  have origin : acquired[turnIndex id nodes posts.length]? = some iov := by
    rw [assigned.sent, List.getElem?_drop] at found
    exact found
  have history : ∀ turn < (posts ++ [(turnConnection id nodes posts.length, iov)]).length,
      ∃ iov', (posts ++ [(turnConnection id nodes posts.length, iov)])[turn]? =
        some (turnConnection id nodes turn, iov') ∧
        acquired[turnIndex id nodes turn]? = some iov' := by
    intro turn before
    rw [List.length_append, List.length_singleton] at before
    rcases Nat.lt_succ_iff_lt_or_eq.mp before with earlier | rfl
    · rw [List.getElem?_append_left earlier]
      exact assigned.posts turn earlier
    · exact ⟨iov, by simp, origin⟩
  have sequence : ru.idSequence.length = nodes := by
    rw [assigned.sequence, createSequence_length]
  have position := assigned.position
  obtain ⟨last, _, rfl⟩ | ⟨more, rfl⟩ := incrementSeqIt_cases stepped
  · have last : posts.length % nodes + 1 = nodes := by simp only at last; omega
    have full := assigned.length_eq own found last
    obtain ⟨quotient, remainder⟩ := succ_end_of_cycle last
    rw [assigned.sent, List.length_drop] at full
    have cycle := assigned.cycle
    have behind : (posts.length / nodes + 1) * nodes = acquired.length := by
      rw [Nat.succ_mul]
      omega
    refine ⟨assigned.connections, assigned.sequence, ?_, ?_, ?_, Nat.zero_le _, history⟩ <;>
      rw [List.length_append, List.length_singleton]
    · exact remainder.symm
    · rw [quotient, behind]
    · rw [quotient, behind, List.drop_length]
  · have more : posts.length % nodes + 1 < nodes := by
      have := Nat.mod_lt posts.length (Nat.zero_lt_of_lt own)
      simp only at more
      omega
    obtain ⟨quotient, remainder⟩ := succ_within_cycle more
    refine ⟨assigned.connections, assigned.sequence, ?_, ?_, ?_, assigned.length_le, history⟩ <;>
      rw [List.length_append, List.length_singleton]
    · rw [remainder, ← position]
    · rw [quotient]
      exact assigned.cycle
    · rw [quotient]
      exact assigned.sent

theorem Assigned.iteration (assigned : ru.Assigned id nodes acquired posts) (own : id < nodes)
    (h : ru.iteration source t input = .ok (report, ru')) :
    ru'.Assigned id nodes (acquired ++ report.acquired) (posts ++ report.posted.toList) := by
  obtain ⟨seqId, accumulator, accumulator', connAvail, conns, front, hacquire, _, _, hsend⟩ :=
    iteration_eq_ok h
  rw [assigned.seqId own] at front
  obtain rfl := Option.some.inj front
  have grown := assigned.acquire accumulator' conns own (acquire_length_le hacquire)
  obtain ⟨none, rfl, _⟩ | ⟨iov, conn, _, found, _, stepped, posted⟩ := sendNext_cases hsend
  · rw [none]
    simpa using grown
  · rw [posted]
    exact grown.post own found stepped

/-- A turn of the loop, with what it did; everything from outside is arbitrary. -/
def Turn (source : MultieventSource σ) (t : Transport) (ru : ReadoutUnit σ)
    (report : ReadoutReport) (ru' : ReadoutUnit σ) : Prop :=
  ∃ input, ru.iteration source t input = .ok (report, ru')

end ReadoutUnit

namespace ReadoutReport

def acquisitions (trace : List ReadoutReport) : List Iovec := trace.flatMap acquired

def posts (trace : List ReadoutReport) : List (ℕ × Iovec) :=
  trace.flatMap fun report => report.posted.toList

/-- What was posted on one connection, in order. -/
def postsOn (connection : ℕ) (posts : List (ℕ × Iovec)) : List Iovec :=
  (posts.filter fun post => post.1 = connection).map Prod.snd

end ReadoutReport

namespace ReadoutUnit

variable {σ : Type} {source : MultieventSource σ} {t : Transport} {input : ReadoutInput}
  {first ru : ReadoutUnit σ} {report : ReadoutReport} {id nodes : ℕ} {acquired : List Iovec}
  {posts : List (ℕ × Iovec)} {trace : List ReadoutReport}

theorem Assigned.run (initial : first.Assigned id nodes [] []) (own : id < nodes)
    (run : Run (Turn source t) first trace ru) :
    ru.Assigned id nodes (ReadoutReport.acquisitions trace) (ReadoutReport.posts trace) := by
  refine Run.invariant (I := fun trace ru => ru.Assigned id nodes
    (ReadoutReport.acquisitions trace) (ReadoutReport.posts trace)) initial ?_ run
  rintro trace ru report ru' - assigned ⟨input, turned⟩
  have next := assigned.iteration own turned
  simpa [ReadoutReport.acquisitions, ReadoutReport.posts] using next

/-- How many of the first `turns` turns belong to a connection. -/
def turnsOf (id nodes connection turns : ℕ) : ℕ :=
  if cyclePosition id nodes connection < turns % nodes then turns / nodes + 1 else turns / nodes

theorem turnsOf_succ {connection turns : ℕ} (own : id < nodes) (inside : connection < nodes) :
    turnsOf id nodes connection (turns + 1) = turnsOf id nodes connection turns +
      if turnConnection id nodes turns = connection then 1 else 0 := by
  have position := cyclePosition_lt own inside
  have remainder := Nat.mod_lt turns (Nat.zero_lt_of_lt own)
  simp only [turnsOf, turnConnection_eq_iff own inside]
  rcases Nat.lt_or_ge (turns % nodes + 1) nodes with more | last
  · obtain ⟨quotient, next⟩ := succ_within_cycle more
    rw [quotient, next]
    split_ifs <;> omega
  · obtain ⟨quotient, next⟩ := @succ_end_of_cycle nodes turns (by omega)
    rw [quotient, next]
    split_ifs <;> omega

/-- A connection gets every `nodes`-th multievent, in order and without a gap. -/
theorem Assigned.postsOn_eq (assigned : ru.Assigned id nodes acquired posts) (own : id < nodes)
    {connection : ℕ} (inside : connection < nodes) :
    (ReadoutReport.postsOn connection posts).map some =
      (List.range (turnsOf id nodes connection posts.length)).map fun round =>
        acquired[round * nodes + connection]? := by
  have upTo : ∀ turns ≤ posts.length,
      (ReadoutReport.postsOn connection (posts.take turns)).map some =
        (List.range (turnsOf id nodes connection turns)).map fun round =>
          acquired[round * nodes + connection]? := by
    intro turns
    induction turns with
    | zero => simp [ReadoutReport.postsOn, turnsOf]
    | succ turns ih =>
      intro before
      obtain ⟨iov, post, origin⟩ := assigned.posts turns before
      rw [List.take_add_one, post, turnsOf_succ own inside]
      simp only [ReadoutReport.postsOn, Option.toList_some, List.filter_append, List.map_append,
        List.map_map] at ih ⊢
      rw [ih (by omega)]
      by_cases served : turnConnection id nodes turns = connection
      · have count : turnsOf id nodes connection turns = turns / nodes := by
          have position := (turnConnection_eq_iff own inside).mp served
          rw [turnsOf, if_neg (by omega)]
        rw [turnIndex, served] at origin
        simp [served, List.range_succ, count, origin]
      · simp [served]
  have whole := upTo posts.length le_rfl
  rwa [List.take_length] at whole

end ReadoutUnit

/-- An error of the accumulator. -/
def MultieventSource.Fails {σ : Type} (source : MultieventSource σ) (e : Error) : Prop :=
  (∃ due accumulator, source.getMultievent due accumulator = .error e) ∨
    ∃ vect accumulator, source.releaseMultievents vect accumulator = .error e

/-- An error of a poll or a post. -/
def Socket.Fails (t : Transport) (e : Error) : Prop :=
  (∃ socket read, Socket.perform socket (Socket.pollCompletedSend t read) = .error e) ∨
    ∃ socket iov refused, Socket.perform socket (Socket.postSend t iov refused) = .error e

namespace ReadoutUnit

variable {σ : Type} {source : MultieventSource σ} {t : Transport} {input : ReadoutInput}
  {ru : ReadoutUnit σ} {id nodes : ℕ} {acquired : List Iovec} {posts : List (ℕ × Iovec)} {e : Error}

theorem acquire_error {due : ℕ → ℕ} {turns call : ℕ} {accumulator : σ}
    (h : acquire source due turns call accumulator = .error e) : source.Fails e := by
  induction turns generalizing call accumulator with
  | zero => cases h
  | succ turns ih =>
    obtain h | ⟨⟨p, next⟩, _, h⟩ := bind_eq_error.mp h
    · exact .inl ⟨_, _, h⟩
    · cases p with
      | none => cases h
      | some iov =>
        obtain h | ⟨_, _, h⟩ := bind_eq_error.mp h
        · exact ih h
        · cases h

theorem pollConnections_error {completions : ℕ → CqRead} {seqId : ℕ} {ids : List ℕ} {avail : Bool}
    {conns : ℕ → Socket} (h : pollConnections t completions seqId ids avail conns = .error e) :
    Socket.Fails t e := by
  induction ids generalizing avail conns with
  | nil => cases h
  | cons id ids ih =>
    obtain h | ⟨_, _, h⟩ := bind_eq_error.mp h
    · exact .inl ⟨_, _, h⟩
    · obtain h | ⟨_, _, h⟩ := bind_eq_error.mp h
      · exact ih h
      · cases h

/-- Whatever goes wrong in a turn is an error of the accumulator or of a socket:
the loop never reads out of bounds, and its own assertion holds. -/
theorem Assigned.iteration_error (assigned : ru.Assigned id nodes acquired posts)
    (own : id < nodes) (h : ru.iteration source t input = .error e) :
    source.Fails e ∨ Socket.Fails t e := by
  rw [ReadoutUnit.iteration, assigned.seqId own] at h
  simp only at h
  obtain h | ⟨⟨fresh, accumulator⟩, hacquire, h⟩ := bind_eq_error.mp h
  · exact .inl (acquire_error h)
  obtain h | ⟨⟨wrToRelease, connAvail, conns⟩, _, h⟩ := bind_eq_error.mp h
  · exact .inr (pollConnections_error h)
  obtain h | ⟨accumulator', _, h⟩ := bind_eq_error.mp h
  · unfold releaseCompleted at h
    split_ifs at h
    exact .inl (.inr ⟨_, _, h⟩)
  obtain h | ⟨_, _, h⟩ := bind_eq_error.mp h
  · have grown := assigned.acquire accumulator' conns own (acquire_length_le hacquire)
    simp only [sendNext] at h
    split_ifs at h with ready
    cases found : (ru.iovToSend ++ fresh)[turnConnection id nodes posts.length]? with
    | none =>
      have := List.getElem?_eq_none_iff.mp found
      omega
    | some iov =>
      simp only [found] at h
      obtain h | ⟨⟨_, conn⟩, _, h⟩ := bind_eq_error.mp h
      · exact .inr (.inr ⟨_, _, _, h⟩)
      obtain h | ⟨_, _, h⟩ := bind_eq_error.mp h
      · simp only [incrementSeqIt] at h
        split_ifs at h with last
        have atEnd : posts.length % nodes + 1 = nodes := by
          rw [assigned.sequence, createSequence_length, assigned.position] at last
          exact last
        have full := grown.length_eq own found atEnd
        rw [assertThat_of (by rw [assigned.connections]; exact full)] at h
        cases h
      · cases h
  · cases h

/-- In every run of the loop, over any accumulator and with any answers of the
fabric: the post number `turn` sends the multievent `turnIndex`, on the
connection with that index modulo the number of nodes, and no other post does;
each connection is sent every `nodes`-th multievent in order; the vector stays
within a cycle; and no turn fails by itself. -/
theorem run_assignment (source : MultieventSource σ) (t : Transport) (accumulator : σ)
    (dataRange : Range) (credits : ℕ) (own : id < nodes) {trace : List ReadoutReport}
    (run : Run (Turn source t) (start t accumulator dataRange credits id nodes) trace ru) :
    (∀ turn connection iov, (ReadoutReport.posts trace)[turn]? = some (connection, iov) →
        connection = turnIndex id nodes turn % nodes ∧
        (ReadoutReport.acquisitions trace)[turnIndex id nodes turn]? = some iov) ∧
      Function.Injective (turnIndex id nodes) ∧
      (∀ connection < nodes,
        (ReadoutReport.postsOn connection (ReadoutReport.posts trace)).map some =
          (List.range (ReadoutReport.postsOn connection (ReadoutReport.posts trace)).length).map
            fun round => (ReadoutReport.acquisitions trace)[round * nodes + connection]?) ∧
      ru.iovToSend.length ≤ nodes ∧
      ∀ input e, ru.iteration source t input = .error e → source.Fails e ∨ Socket.Fails t e := by
  have assigned := (start_assigned t accumulator dataRange credits).run own run
  refine ⟨?_, turnIndex_injective own, ?_, assigned.length_le,
    fun input e => assigned.iteration_error own⟩
  · intro turn connection iov post
    obtain ⟨iov', post', origin⟩ := assigned.posts turn (List.getElem?_eq_some_iff.mp post).1
    obtain ⟨rfl, rfl⟩ := Prod.mk.inj (Option.some.inj (post'.symm.trans post))
    exact ⟨(turnIndex_mod (Nat.zero_lt_of_lt own)).symm, origin⟩
  · intro connection inside
    have history := assigned.postsOn_eq own inside
    have count := congrArg List.length history
    simp only [List.length_map, List.length_range] at count
    rw [history, count]

/-- Multievents of one byte each, one after the other. -/
def countingSource : MultieventSource ℕ where
  getMultievent _ next := .ok (some ⟨next, 1⟩, next + 1)
  releaseMultievents _ next := .ok next

theorem run_assignment_first : ∃ ru,
    Run (Turn countingSource .fiTcp) (start .fiTcp 0 ⟨0, 8⟩ 1 0 2)
      [⟨[⟨0, 1⟩, ⟨1, 1⟩], [], some (1, ⟨1, 1⟩)⟩] ru ∧ ru.iovToSend.length ≤ 2 := by
  have turned : ∃ ru, Turn countingSource .fiTcp (start .fiTcp 0 ⟨0, 8⟩ 1 0 2)
      ⟨[⟨0, 1⟩, ⟨1, 1⟩], [], some (1, ⟨1, 1⟩)⟩ ru :=
    ⟨_, ⟨fun _ => 0, fun _ => .again, none⟩, rfl⟩
  obtain ⟨ru, taken⟩ := turned
  exact ⟨ru, Run.single taken,
    (run_assignment countingSource .fiTcp 0 ⟨0, 8⟩ 1 (by decide) (Run.single taken)).2.2.2.1⟩

end ReadoutUnit

end Lseb
