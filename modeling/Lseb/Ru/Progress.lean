import Lseb.Generator.SelfDescription
import Lseb.Ru.Node

/-!
# When the readout unit gets stuck

The next multievent to be posted can be acquired as long as its index is less
than a ring ahead of the memory released. With nothing in flight, memory is
held only by what is still unsent; since a cycle starts behind the node's own
connection, but acquires from connection zero on, that may be the whole ring.
-/

namespace Lseb

open Foundation PendingMap

/-- All sends posted so far have completed, and were polled and released. -/
def ReadoutSystem.Quiescent (s : ReadoutSystem) : Prop :=
  ∀ connection, s.inFlight connection = 0 ∧
    size (s.unit.mConnectionIds connection).mPendingSend = 0

/-- Every run of this many turns, with enough events due at each reading of the clock,
returns and posts a multievent. -/
def ReadoutSystem.PostsWithin (metadata : MetaDataMemory) (t : Transport) (enough : ℕ) :
    ℕ → ReadoutSystem → Prop
  | 0, _ => False
  | turns + 1, s => ∀ due reads batch, Carried s reads batch → (∀ call, enough ≤ due call) →
    ∃ report unit, s.unit.iteration (accumulatorSource metadata) t ⟨due, reads, none⟩ =
      .ok (report, unit) ∧
      (report.posted ≠ none ∨ PostsWithin metadata t enough turns (s.advance batch report unit))

/-- Finitely many turns with enough events due post the next multievent. -/
def ReadoutSystem.PostsNext (metadata : MetaDataMemory) (t : Transport) (s : ReadoutSystem) :
    Prop :=
  ∃ turns enough, s.PostsWithin metadata t enough turns

section Release

variable {block blocks id nodes credits : ℕ} {length : ℕ → ℕ} {t : Transport}
  {dataRange : Range} {ledger : Ledger block blocks} {unit : ReadoutUnit Accumulator}
  {inFlight : ℕ → Multiset ℕ} {acquired : List Iovec} {posts : List (ℕ × Iovec)}

variable (custody : Custody unit inFlight t id nodes credits dataRange ledger length acquired
  posts)

include custody

/-- The queue holds the addresses of what was acquired and not released. -/
theorem Custody.keys_eq :
    unit.mAccumulator.mIovMultievents.keys =
      (acquired.drop ledger.released).map Iovec.iovBase := by
  rw [custody.tracks.keys, custody.origin, ← List.map_drop, List.map_map, Ledger.addresses]
  apply List.ext_getElem (by simp)
  intro position _ _
  simp

/-- With nothing in flight, all that is not completed is unsent. -/
theorem Custody.unmarked_quiet (quiet : ∀ connection, inFlight connection = 0) :
    (unit.mAccumulator.mIovMultievents.unmarked : Multiset ℕ) =
      unit.unsent.map Iovec.iovBase := by
  have nothing : unit.pendingKeys = [] := by
    apply List.flatMap_eq_nil_iff.mpr
    intro connection _
    have none := (custody.inFlight connection).symm.trans (quiet connection)
    exact Multiset.coe_eq_zero _ |>.mp none
  rw [custody.places, nothing]
  exact add_zero _

/-- With nothing in flight, memory is released up to the first multievent that
may be unsent. -/
theorem Custody.le_released (quiet : ∀ connection, inFlight connection = 0) {first : ℕ}
    (inside : first ≤ acquired.length)
    (waiting : (unit.unsent : Multiset Iovec) ≤ acquired.drop first) :
    first ≤ ledger.released := by
  by_contra held
  have front : ledger.released < acquired.length := by omega
  have split : acquired.drop ledger.released =
      acquired[ledger.released] :: acquired.drop (ledger.released + 1) :=
    List.drop_eq_getElem_cons front
  have keys := custody.keys_eq
  have counted := MarkedQueue.count_front custody.tracks.marksFirst custody.tracks.settled
    (show unit.mAccumulator.mIovMultievents.keys.head? =
      some (acquired[ledger.released]).iovBase by rw [keys, split]; rfl)
  have later : (acquired.drop first).Sublist (acquired.drop (ledger.released + 1)) :=
    List.drop_sublist_drop_left _ (by omega)
  have unsent := congrArg (Multiset.count (acquired[ledger.released]).iovBase)
    (custody.unmarked_quiet quiet)
  simp only [Multiset.coe_count] at unsent
  have most := Multiset.count_le_of_le (acquired[ledger.released]).iovBase
    (Multiset.map_le_map (f := Iovec.iovBase) waiting)
  simp only [Multiset.map_coe, Multiset.coe_count] at most
  have fewer := (later.map Iovec.iovBase).count_le (acquired[ledger.released]).iovBase
  rw [unsent, keys, split, List.map_cons, List.count_cons_self] at counted
  omega

/-- What is unsent is part of the current cycle. -/
theorem Custody.unsent_le_cycle : (unit.unsent : Multiset Iovec) ≤
    acquired.drop (posts.length / nodes * nodes) := by
  rw [← custody.sent]
  exact coe_flatMap_getElem?_le (custody.nodup.sublist (List.drop_sublist _ _)) _

end Release

section Turns

variable {block blocks id nodes credits : ℕ} {length : ℕ → ℕ} {metadata : MetaDataMemory}
  {t : Transport} {dataRange : Range} {ledger ledger' : Ledger block blocks}
  {s s' : ReadoutSystem} {acquired acquired' : List Iovec} {posts : List (ℕ × Iovec)}
  {report : ReadoutReport} {trace : List ReadoutReport}

/-- The fabric may complete everything in flight at once. -/
theorem Custody.carried_all
    (custody : Custody s.unit s.inFlight t id nodes credits dataRange ledger length
      acquired posts) :
    ∃ reads batch, Carried s reads batch ∧
      ∀ connection, (batch connection : Multiset ℕ) = s.inFlight connection :=
  ⟨_, fun connection => (s.unit.mConnectionIds connection).mPendingSend.keys,
    ⟨fun _ => .completions _, fun connection => (custody.inFlight connection).ge⟩,
    fun connection => (custody.inFlight connection).symm⟩

/-- A turn that completes everything in flight posts what is within reach. -/
theorem Custody.turn_posts (laid : WellLaid metadata length (block * blocks)) (positive : 0 < block)
    (own : id < nodes) (credit : 0 < credits)
    (custody : Custody s.unit s.inFlight t id nodes credits dataRange ledger length
      acquired posts)
    (reach : turnIndex id nodes posts.length + 1 < ledger.released + blocks)
    {due : ℕ → ℕ} {reads : ℕ → CqRead} {batch : ℕ → List ℕ} {unit : ReadoutUnit Accumulator}
    (carried : Carried s reads batch)
    (emptied : ∀ connection, (batch connection : Multiset ℕ) = s.inFlight connection)
    (enough : ∀ call, (turnIndex id nodes posts.length + 1) * block ≤ due call)
    (turned : s.unit.iteration (accumulatorSource metadata) t ⟨due, reads, none⟩ =
      .ok (report, unit)) : report.posted ≠ none := by
  obtain ⟨seqId, acc₁, acc₂, connAvail, conns, front, hacquire, hpoll, hrelease, hsend⟩ :=
    ReadoutUnit.iteration_eq_ok turned
  rw [custody.seqId own] at front
  obtain rfl := Option.some.inj front
  have cycle := custody.cycle
  have total := custody.acquired_length
  have filled : s.unit.iovToSend.length = acquired.length - posts.length / nodes * nodes := by
    rw [custody.sent, List.length_drop]
  obtain ⟨_, _, count⟩ := ReadoutUnit.acquired_of_ok laid positive custody.tracks hacquire
  have served : turnConnection id nodes posts.length <
      (s.unit.iovToSend ++ report.acquired).length := by
    rw [List.length_append]
    rw [turnIndex] at reach enough
    rcases Nat.lt_or_ge (turnConnection id nodes posts.length) s.unit.iovToSend.length with
      there | short
    · omega
    · have fresh := count fun call =>
        (Nat.mul_le_mul_right _ (by omega)).trans (enough call)
      omega
  obtain ⟨_, polled, _, available⟩ :=
    ReadoutUnit.pollConnections_polled carried.delivers custody.nodup hpoll
  have member := custody.mem_iff.mpr
    (@turnConnection_lt id nodes posts.length (Nat.zero_lt_of_lt own))
  have here := polled _ member
  have empty : keySet (conns (turnConnection id nodes posts.length)).mPendingSend = 0 := by
    have keys := here.keys
    rw [← custody.inFlight, ← emptied] at keys
    exact left_eq_add.mp keys
  rw [if_pos member, Socket.availableSend, here.credits, (custody.sockets _).1, size_eq_card,
    empty, Multiset.card_zero] at available
  intro nothing
  obtain ⟨_, _, idle⟩ | ⟨_, _, _, _, _, _, posted⟩ := ReadoutUnit.sendNext_cases hsend
  · exact absurd (idle (available.trans (decide_eq_true credit))) (not_le.mpr served)
  · rw [nothing] at posted
    cases posted

/-- Only an acquired multievent is posted. -/
theorem Custody.turnIndex_lt {post : ℕ × Iovec}
    (custody : Custody s.unit s.inFlight t id nodes credits dataRange ledger length
      acquired (posts ++ [post])) : turnIndex id nodes posts.length < ledger.acquired := by
  obtain ⟨_, _, origin⟩ := custody.posts posts.length (by simp)
  rw [← custody.acquired_length]
  exact (List.getElem?_eq_some_iff.mp origin).1

/-- A unit without anything in flight whose next multievent is out of reach. -/
structure Stuck (s : ReadoutSystem) (t : Transport) (id nodes credits : ℕ) (dataRange : Range)
    (ledger : Ledger block blocks) (length : ℕ → ℕ) (acquired : List Iovec)
    (posts : List (ℕ × Iovec)) : Prop where
  custody : Custody s.unit s.inFlight t id nodes credits dataRange ledger length acquired
    posts
  quiet : ∀ connection, s.inFlight connection = 0
  beyond : ledger.released + blocks ≤ turnIndex id nodes posts.length + 1

/-- A stuck unit posts nothing and stays stuck, however many events are due. -/
theorem Stuck.step (laid : WellLaid metadata length (block * blocks)) (positive : 0 < block)
    (own : id < nodes)
    (stuck : Stuck s t id nodes credits dataRange ledger length acquired posts)
    (taken : CarriedTurn metadata t s report s') :
    report.posted = none ∧ ∃ ledger' : Ledger block blocks,
      Stuck s' t id nodes credits dataRange ledger' length (acquired ++ report.acquired) posts := by
  obtain ⟨ledger', custody', bounded, books⟩ := stuck.custody.step laid positive own taken
  have nothing : report.posted = none := by
    cases posted : report.posted with
    | none => rfl
    | some post =>
      rw [posted] at custody'
      have := custody'.turnIndex_lt
      have := stuck.beyond
      omega
  rw [nothing, Option.toList_none, List.append_nil] at custody'
  cases taken with
  | @turn due reads batch _ unit carried turned =>
    have idle : ∀ connection, (batch connection : Multiset ℕ) = 0 := by
      intro connection
      have part := carried.carried connection
      rwa [stuck.quiet, Multiset.le_zero] at part
    obtain ⟨_, _, _, _, _, _, _, hpoll, _, _⟩ := ReadoutUnit.iteration_eq_ok turned
    have released := (ReadoutUnit.pollConnections_polled carried.delivers stuck.custody.nodup
      hpoll).1
    rw [carried.flatMap_eq_nil stuck.quiet] at released
    refine ⟨nothing, ledger', custody', ?_, ?_⟩
    · intro connection
      simp [ReadoutReport.postedOn, nothing, idle, stuck.quiet]
    · rw [books released]
      exact stuck.beyond

/-- Once stuck, no run posts anything. -/
theorem Stuck.run (laid : WellLaid metadata length (block * blocks)) (positive : 0 < block)
    (own : id < nodes)
    (stuck : Stuck s t id nodes credits dataRange ledger length acquired posts)
    (run : Run (CarriedTurn metadata t) s trace s') : ReadoutReport.posts trace = [] := by
  have kept : ReadoutReport.posts trace = [] ∧ ∃ acquired', ∃ ledger' : Ledger block blocks,
      Stuck s' t id nodes credits dataRange ledger' length acquired' posts := by
    refine Run.invariant (I := fun trace s' => ReadoutReport.posts trace = [] ∧
      ∃ acquired', ∃ ledger' : Ledger block blocks,
        Stuck s' t id nodes credits dataRange ledger' length acquired' posts) ?_ ?_ run
    · exact ⟨rfl, acquired, ledger, stuck⟩
    · rintro trace s' report next - ⟨silent, acquired', ledger', stuck'⟩ taken
      obtain ⟨nothing, ledger'', stuck''⟩ := stuck'.step laid positive own taken
      refine ⟨?_, _, ledger'', stuck''⟩
      rw [ReadoutReport.posts, List.flatMap_append, ← ReadoutReport.posts, silent]
      simp [nothing]
  exact kept.1

theorem Stuck.quiescent
    (stuck : Stuck s t id nodes credits dataRange ledger length acquired posts) :
    s.Quiescent := by
  intro connection
  have none := stuck.quiet connection
  refine ⟨none, ?_⟩
  rw [size_eq_card, ← stuck.custody.inFlight, none, Multiset.card_zero]

/-- However many turns a stuck unit gets, it does not post. -/
theorem Stuck.not_postsWithin (laid : WellLaid metadata length (block * blocks))
    (positive : 0 < block) (own : id < nodes) {turns enough : ℕ}
    (stuck : Stuck s t id nodes credits dataRange ledger length acquired posts) :
    ¬s.PostsWithin metadata t enough turns := by
  induction turns generalizing s ledger acquired with
  | zero => exact not_false
  | succ turns ih =>
    intro within
    obtain ⟨reads, batch, carried, _⟩ := stuck.custody.carried_all
    obtain ⟨report, unit, turned, progress⟩ :=
      within (fun _ => enough) reads batch carried fun _ => le_rfl
    obtain ⟨nothing, ledger', stuck'⟩ := stuck.step laid positive own (.turn carried turned)
    cases progress with
    | inl posted => exact posted nothing
    | inr later => exact ih stuck' later

theorem Stuck.not_postsNext (laid : WellLaid metadata length (block * blocks))
    (positive : 0 < block) (own : id < nodes)
    (stuck : Stuck s t id nodes credits dataRange ledger length acquired posts) :
    ¬s.PostsNext metadata t :=
  fun ⟨_, _, within⟩ => stuck.not_postsWithin laid positive own within

end Turns

section Cycle

variable {block blocks id nodes credits : ℕ} {length : ℕ → ℕ} {metadata : MetaDataMemory}
  {t : Transport} {dataRange : Range} {ledger : Ledger block blocks} {s s' : ReadoutSystem}
  {acquired : List Iovec} {posts : List (ℕ × Iovec)} {report : ReadoutReport}

/-- In the first turns, before the cycle wraps. -/
theorem turnIndex_first (early : id + 1 + posts.length < nodes) :
    turnIndex id nodes posts.length = id + 1 + posts.length := by
  have within : posts.length < nodes := by omega
  rw [turnIndex, turnConnection, Nat.div_eq_of_lt within, Nat.mod_eq_of_lt within,
    Nat.mod_eq_of_lt early, Nat.zero_mul, Nat.zero_add]

/-- As long as connection zero has not been served, nothing is released. -/
theorem Custody.released_eq_zero (nonzero : ∀ slot < block * blocks, length slot ≠ 0)
    (custody : Custody s.unit s.inFlight t id nodes credits dataRange ledger length
      acquired posts) (early : id + 1 + posts.length ≤ nodes) (other : id + 1 < nodes)
    (bounded : ledger.acquired < blocks) : ledger.released = 0 := by
  by_contra released
  have total := custody.acquired_length
  have inside := ledger.released_le
  have within : posts.length < nodes := by omega
  have sent : s.unit.iovToSend = acquired := by
    rw [custody.sent, Nat.div_eq_of_lt within, Nat.zero_mul, List.drop_zero]
  have first : s.unit.iovToSend[0]? = some (multievent dataRange.mBegin length block blocks 0) := by
    rw [sent, custody.origin, List.getElem?_map, List.getElem?_range (by omega), Option.map_some]
  have unsent : multievent dataRange.mBegin length block blocks 0 ∈ s.unit.unsent := by
    refine List.mem_flatMap.mpr ⟨0, ?_, by simp [first]⟩
    have position : (id + 1 + (nodes - (id + 1))) % nodes = 0 := by
      rw [Nat.add_sub_cancel' other.le, Nat.mod_self]
    apply List.mem_of_getElem? (i := nodes - (id + 1) - posts.length)
    rw [List.getElem?_drop, custody.position, Nat.mod_eq_of_lt within,
      Nat.add_sub_cancel' (by omega), custody.sequence, createSequence_eq (by omega),
      List.getElem?_map, List.getElem?_range (by omega), Option.map_some, position]
  have listed : (multievent dataRange.mBegin length block blocks 0).iovBase ∈
      s.unit.mAccumulator.mIovMultievents.keys := by
    refine (MarkedQueue.unmarked_sublist _).subset (Multiset.mem_coe.mp ?_)
    rw [custody.places]
    exact Multiset.mem_add.mpr (.inl (List.mem_map_of_mem unsent))
  rw [custody.tracks.keys, Ledger.addresses] at listed
  obtain ⟨position, below, same⟩ := List.mem_map.mp listed
  have below := List.mem_range.mp below
  have equal := multievent_block_eq (Nat.pos_of_mul_pos_right ledger.positive) nonzero
    (Nat.pos_of_mul_pos_left ledger.positive) same
  rw [Nat.mod_eq_of_lt (by omega), Nat.zero_mod] at equal
  omega

/-- One turn towards a full ring: it posts, and still nothing is released. -/
theorem Custody.turn_towards (laid : WellLaid metadata length (block * blocks))
    (positive : 0 < block) (nonzero : ∀ slot < block * blocks, length slot ≠ 0)
    (room : ∑ slot ∈ Finset.range (block * blocks), length slot ≤
      dataRange.mEnd - dataRange.mBegin)
    (ordered : dataRange.mBegin ≤ dataRange.mEnd) (own : id < nodes) (credit : 0 < credits)
    (custody : Custody s.unit s.inFlight t id nodes credits dataRange ledger length
      acquired posts) (released : ledger.released = 0) (small : blocks ≤ nodes)
    (early : id + 1 + posts.length < blocks) :
    ∃ report s', CarriedTurn metadata t s report s' ∧ ∃ ledger' : Ledger block blocks,
      Custody s'.unit s'.inFlight t id nodes credits dataRange ledger' length
        (acquired ++ report.acquired) (posts ++ report.posted.toList) ∧
      ledger'.released = 0 ∧
      (report.posted = none ↔ id + 2 + posts.length = blocks) ∧
      (report.posted = none → ∀ connection, s'.inFlight connection = 0) := by
  have index := @turnIndex_first id nodes posts (by omega)
  obtain ⟨reads, batch, carried, emptied⟩ := custody.carried_all
  obtain ⟨report, unit, turned⟩ := custody.iteration_inTime laid positive (.inl nonzero) room
    ordered own carried
    ⟨monotone_const, le_max_left _ ((turnIndex id nodes posts.length + 1) * block)⟩
  have taken := CarriedTurn.turn carried turned
  obtain ⟨ledger', custody', bounded, _⟩ := custody.step laid positive own taken
  rw [released, Nat.zero_add] at bounded
  have ended : report.posted = none ↔ id + 2 + posts.length = blocks := by
    constructor
    · intro nothing
      by_contra more
      exact custody.turn_posts laid positive own credit (by omega) carried emptied
        (fun _ => le_max_right _ _) turned nothing
    · intro last
      cases posted : report.posted with
      | none => rfl
      | some post =>
        rw [posted] at custody'
        have := custody'.turnIndex_lt
        omega
  refine ⟨report, _, taken, ledger', custody', ?_, ended, ?_⟩
  · refine custody'.released_eq_zero nonzero ?_ (by omega) bounded
    rw [List.length_append]
    cases posted : report.posted with
    | none => simp; omega
    | some post => simp; omega
  · intro nothing connection
    simp [ReadoutReport.postedOn, nothing, emptied]

/-- The turns before the cycle wraps fill a ring with no block for each node. -/
theorem Custody.exists_stuck (laid : WellLaid metadata length (block * blocks))
    (positive : 0 < block) (nonzero : ∀ slot < block * blocks, length slot ≠ 0)
    (room : ∑ slot ∈ Finset.range (block * blocks), length slot ≤
      dataRange.mEnd - dataRange.mBegin)
    (ordered : dataRange.mBegin ≤ dataRange.mEnd) (own : id < nodes) (credit : 0 < credits)
    (small : blocks ≤ nodes) {turns : ℕ}
    (custody : Custody s.unit s.inFlight t id nodes credits dataRange ledger length
      acquired posts) (released : ledger.released = 0)
    (distance : id + 2 + posts.length + turns = blocks) :
    ∃ trace s' acquired' posts', ∃ ledger' : Ledger block blocks,
      Run (CarriedTurn metadata t) s trace s' ∧
      Stuck s' t id nodes credits dataRange ledger' length acquired' posts' := by
  induction turns generalizing s ledger acquired posts with
  | zero =>
    obtain ⟨report, s', taken, ledger', custody', released', ended, quiet⟩ :=
      custody.turn_towards laid positive nonzero room ordered own credit released small (by omega)
    have nothing := ended.mpr distance
    rw [nothing, Option.toList_none, List.append_nil] at custody'
    refine ⟨_, s', _, posts, ledger', Run.single taken, custody', quiet nothing, ?_⟩
    rw [released', turnIndex_first (by omega)]
    omega
  | succ turns ih =>
    obtain ⟨report, s', taken, ledger', custody', released', ended, _⟩ :=
      custody.turn_towards laid positive nonzero room ordered own credit released small (by omega)
    cases posted : report.posted with
    | none =>
      have := ended.mp posted
      omega
    | some post =>
      rw [posted] at custody'
      obtain ⟨trace, s'', acquired', posts', ledger'', run, stuck⟩ := ih custody' released' (by
        simp only [Option.toList_some, List.length_append, List.length_singleton]
        omega)
      exact ⟨_, s'', acquired', posts', ledger'', (Run.single taken).append run, stuck⟩

end Cycle

namespace Configuration

variable {c : Configuration} {t : Transport} {id nodes dataPtr : ℕ} {draws : ℕ → ℕ}
  {metadata : MetaDataMemory} {data : Memory} {layout : Layout} {trace : List ReadoutReport}
  {s : ReadoutSystem}

/-- Whatever was drawn, every quiescent state reached by a node posts its next multievent. -/
def NeverStuck (c : Configuration) (t : Transport) (id nodes : ℕ) : Prop :=
  ∀ draws dataPtr metadata data layout trace s, c.Draws draws →
    c.generator draws dataPtr id metadata data = .ok layout →
    Run (CarriedTurn layout.metadata t) (c.readoutStart t id nodes dataPtr layout) trace s →
    s.Quiescent → s.PostsNext layout.metadata t

/-- Whether the payload limits round every event away. -/
def AllVanish (c : Configuration) : Prop :=
  c.mean + 5 * c.stddev < 8 ∧ (c.stddev = 0 ∨ c.maxFragmentSize = sizeofEventHeader)

instance (c : Configuration) : Decidable c.AllVanish :=
  inferInstanceAs (Decidable (_ ∧ _))

/-- Otherwise all events may have a length. -/
theorem exists_draws_of_not_allVanish {g : LengthGenerator}
    (limits : c.payloadSizeGenerator = .ok g) (vanish : ¬c.AllVanish) :
    ∃ draws, c.Draws draws ∧ ∀ call, 8 ≤ draws call := by
  obtain ⟨known, lower, upper⟩ := LengthGenerator.construct_eq_ok limits
  by_cases constant : c.stddev = 0
  · have long : 8 ≤ c.mean := by
      by_contra short
      exact vanish ⟨by omega, .inl constant⟩
    refine ⟨fun _ => c.mean, ⟨g, limits, fun _ => c.mean, fun call => ⟨fun _ => ?_, ?_⟩⟩,
      fun _ => long⟩
    · rw [known]
    · exact (LengthGenerator.clamp_of_mem lower upper).symm
  · have room : 8 ≤ g.mMax := by
      rw [known]
      dsimp only
      by_cases header : c.maxFragmentSize = sizeofEventHeader
      · by_contra short
        simp only [header, ne_eq, Nat.sub_self, not_true_eq_false, if_false, not_le] at short
        exact vanish ⟨short, .inr header⟩
      · obtain ⟨units, size⟩ := Nat.dvd_of_mod_eq_zero c.maxFragmentSize_mod
        have some := c.maxFragmentSize_pos
        unfold sizeofEventHeader at *
        rw [if_pos (by omega)]
        omega
    refine ⟨fun _ => 8, ⟨g, limits, LengthGenerator.returns_of_bounds ?_ fun call => ?_⟩,
      fun _ => le_rfl⟩
    · rw [known]
      exact constant
    · refine ⟨?_, room⟩
      rw [known]
      simp [constant]

theorem blocks_eq : c.blocks = 2 * c.credits + 1 := by rw [blocks, mul_comm]

/-- The custody a node starts with, for any draws. -/
theorem exists_start (padded : c.dataSize % dataPadding = 0) (own : id < nodes) (t : Transport)
    (draws : ℕ → ℕ) : ∃ layout,
      c.generator draws 0 id (fun _ => ⟨0, 0, 0⟩) (fun _ => 0) = .ok layout ∧
      ∃ ledger : Ledger c.bulkSize c.blocks, ledger.released = 0 ∧
        Custody (c.readoutStart t id nodes 0 layout).unit (fun _ => 0) t id nodes c.credits
          (c.dataRange 0) ledger (c.lengths draws) [] [] := by
  obtain ⟨layout, built⟩ := @generator_total c 0 rfl padded draws id (fun _ => ⟨0, 0, 0⟩)
    fun _ => 0
  obtain ⟨ledger, custody⟩ := @custody_of_run c t id nodes 0 draws _ _ layout [] _ own built
    Run.nil
  have none : 0 = ledger.acquired := custody.acquired_length
  have released := ledger.released_le
  exact ⟨layout, built, ledger, by omega, custody⟩

/-- With fewer blocks than nodes, a node that is not the last one can get stuck. -/
theorem exists_stuck {g : LengthGenerator} (limits : c.payloadSizeGenerator = .ok g)
    (padded : c.dataSize % dataPadding = 0) (own : id < nodes) (t : Transport)
    (other : id + 1 ≠ nodes) (many : 2 * c.credits < nodes)
    (apart : id + 2 ≤ 2 * c.credits → ¬c.AllVanish) :
    ∃ draws layout, c.Draws draws ∧
      c.generator draws 0 id (fun _ => ⟨0, 0, 0⟩) (fun _ => 0) = .ok layout ∧
      ∃ trace s acquired posts, ∃ ledger : Ledger c.bulkSize c.blocks,
        Run (CarriedTurn layout.metadata t) (c.readoutStart t id nodes 0 layout) trace s ∧
        Stuck s t id nodes c.credits (c.dataRange 0) ledger (c.lengths draws) acquired posts := by
  have ring := blocks_eq (c := c)
  by_cases early : id + 2 ≤ 2 * c.credits
  · obtain ⟨draws, returned, long⟩ := exists_draws_of_not_allVanish limits (apart early)
    obtain ⟨layout, built, ledger, released, custody⟩ := exists_start padded own t draws
    have nonzero : ∀ slot < c.bulkSize * c.blocks, c.lengths draws slot ≠ 0 := fun slot inside =>
      (lengths_eq_zero_iff inside).not.mpr (not_lt.mpr (long slot))
    obtain ⟨trace, s, acquired, posts, ledger', run, stuck⟩ := custody.exists_stuck
      (wellLaid_of_built built) c.bulkSize_pos nonzero (lengths_room draws 0)
      (Nat.le_add_right _ _) own c.credits_pos (by omega) released
      (Nat.add_sub_of_le (by simp only [List.length_nil]; omega))
    exact ⟨draws, layout, returned, built, trace, s, acquired, posts, ledger', run, stuck⟩
  · obtain ⟨known, _⟩ := LengthGenerator.construct_eq_ok limits
    obtain ⟨layout, built, ledger, released, custody⟩ :=
      exists_start padded own t fun _ => g.generate c.mean
    refine ⟨_, layout, ⟨g, limits, fun _ => c.mean, fun _ => ⟨fun _ => ?_, rfl⟩⟩, built, [], _, [],
      [], ledger, Run.nil, custody, fun _ => rfl, ?_⟩
    · rw [known]
    · have first := @turnIndex_first id nodes [] (by simp only [List.length_nil]; omega)
      rw [released, first]
      omega

theorem NeverStuck.condition {g : LengthGenerator} (limits : c.payloadSizeGenerator = .ok g)
    (padded : c.dataSize % dataPadding = 0) (own : id < nodes) (never : c.NeverStuck t id nodes) :
    id + 1 = nodes ∨ nodes ≤ 2 * c.credits ∨ (id + 2 ≤ 2 * c.credits ∧ c.AllVanish) := by
  by_contra condition
  simp only [not_or, not_and, not_le] at condition
  obtain ⟨other, many, apart⟩ := condition
  obtain ⟨draws, layout, returned, built, trace, s, acquired, posts, ledger, run, stuck⟩ :=
    exists_stuck limits padded own t other many apart
  exact stuck.not_postsNext (wellLaid_of_built built) c.bulkSize_pos own
    (never _ _ _ _ _ _ _ returned built run stuck.quiescent)

end Configuration

end Lseb
