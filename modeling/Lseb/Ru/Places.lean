import Lseb.Ru.Custody

/-!
# Every acquired multievent is in exactly one place

With no empty event, an address identifies an outstanding multievent, and the
invariant on addresses becomes one on multievents: each entry of the queue is
unsent, pending on exactly one connection with its own length, or completed.
-/

namespace Lseb

open Foundation PendingMap

inductive Place where
  | unsent
  | pending (connection : ℕ)
  | completed

/-- Whether a multievent with this flag in the queue is at a place. -/
def Place.Holds (unit : ReadoutUnit Accumulator) (iov : Iovec) (flag : Bool) : Place → Prop
  | .unsent => iov ∈ unit.unsent
  | .pending connection => connection < unit.connections ∧
      (unit.mConnectionIds connection).mPendingSend.lookup iov.iovBase = some iov.iovLen
  | .completed => flag = true

/-- The entry of the queue at a position, and the acquired multievent it stands for. -/
def ReadoutUnit.EntryAt (unit : ReadoutUnit Accumulator) (acquired : List Iovec) (position : ℕ)
    (iov : Iovec) (flag : Bool) : Prop :=
  unit.mAccumulator.mIovMultievents[position]? = some (iov.iovBase, flag) ∧
    acquired[acquired.length - unit.mAccumulator.mIovMultievents.length + position]? = some iov

section Places

variable {block blocks id nodes credits : ℕ} {length : ℕ → ℕ} {t : Transport}
  {dataRange : Range} {ledger : Ledger block blocks} {unit : ReadoutUnit Accumulator}
  {inFlight : ℕ → Multiset ℕ} {acquired : List Iovec} {posts : List (ℕ × Iovec)}

/-- Without empty events, a multievent is known by its address. -/
theorem multievent_eq_of_iovBase {first second : ℕ} (positive : 0 < block * blocks)
    (nonzero : ∀ slot < block * blocks, length slot ≠ 0)
    (same : (multievent dataRange.mBegin length block blocks first).iovBase =
      (multievent dataRange.mBegin length block blocks second).iovBase) :
    multievent dataRange.mBegin length block blocks first =
      multievent dataRange.mBegin length block blocks second := by
  have block_eq := multievent_block_eq (Nat.pos_of_mul_pos_right positive) nonzero
    (Nat.pos_of_mul_pos_left positive) same
  rw [multievent, multievent, block_eq]

variable (custody : Custody unit inFlight t id nodes credits dataRange ledger length acquired
  posts)

include custody

/-- The entries of the queue are the last multievents acquired. -/
theorem Custody.entryAt {position : ℕ}
    (inside : position < unit.mAccumulator.mIovMultievents.length) :
    ∃ flag, unit.EntryAt acquired position
      (multievent dataRange.mBegin length block blocks (ledger.released + position)) flag := by
  have outstanding := custody.tracks.outstanding
  have count := custody.acquired_length
  have key : (unit.mAccumulator.mIovMultievents.keys)[position]? =
      some (multievent dataRange.mBegin length block blocks
        (ledger.released + position)).iovBase := by
    rw [custody.tracks.keys, Ledger.addresses, List.getElem?_map,
      List.getElem?_range (by omega), Option.map_some]
  rw [MarkedQueue.keys, List.getElem?_map, Option.map_eq_some_iff] at key
  obtain ⟨⟨address, flag⟩, found, rfl⟩ := key
  refine ⟨flag, found, ?_⟩
  rw [show acquired.length - unit.mAccumulator.mIovMultievents.length + position =
    ledger.released + position by omega, custody.origin, List.getElem?_map,
    List.getElem?_range (by omega), Option.map_some]

/-- A multievent whose address is not completed yet is an entry of the queue. -/
theorem Custody.entryAt_of_unmarked (nonzero : ∀ slot < block * blocks, length slot ≠ 0)
    {index : ℕ}
    (waiting : (multievent dataRange.mBegin length block blocks index).iovBase ∈
      unit.mAccumulator.mIovMultievents.unmarked) :
    ∃ position, unit.EntryAt acquired position
      (multievent dataRange.mBegin length block blocks index) false := by
  have positive := ledger.positive
  obtain ⟨position, inside, found⟩ := List.getElem_of_mem (MarkedQueue.mem_unmarked.mp waiting)
  have here := List.getElem?_eq_some_iff.mpr ⟨inside, found⟩
  obtain ⟨flag, entry, origin⟩ := custody.entryAt inside
  obtain ⟨address, -⟩ := Prod.mk.inj (Option.some.inj (entry.symm.trans here))
  have same : multievent dataRange.mBegin length block blocks (ledger.released + position) =
      multievent dataRange.mBegin length block blocks index := by
    rw [multievent, multievent_block_eq (Nat.pos_of_mul_pos_right positive) nonzero
      (Nat.pos_of_mul_pos_left positive) address]
    rfl
  exact ⟨position, here, same ▸ origin⟩

theorem Custody.unsent_acquired {iov : Iovec} (waiting : iov ∈ unit.unsent) : iov ∈ acquired := by
  obtain ⟨connection, _, found⟩ := List.mem_flatMap.mp waiting
  exact custody.toSend_acquired (Option.mem_toList.mp found)

theorem Custody.unsent_entry (nonzero : ∀ slot < block * blocks, length slot ≠ 0) {iov : Iovec}
    (waiting : iov ∈ unit.unsent) :
    ∃ position, unit.EntryAt acquired position iov false := by
  have listed : iov.iovBase ∈ unit.mAccumulator.mIovMultievents.unmarked := by
    rw [← Multiset.mem_coe, custody.places]
    exact Multiset.mem_add.mpr (.inl (List.mem_map_of_mem waiting))
  obtain ⟨index, rfl⟩ := custody.acquired_origin (custody.unsent_acquired waiting)
  exact custody.entryAt_of_unmarked nonzero listed

theorem Custody.mem_pendingKeys {connection key len : ℕ}
    (pending : (unit.mConnectionIds connection).mPendingSend.lookup key = some len) :
    connection < nodes ∧ connection ∈ unit.idSequence ∧
      key ∈ (unit.mConnectionIds connection).mPendingSend.keys := by
  have inside : connection < nodes := by
    by_contra outer
    rw [custody.idle connection (not_lt.mp outer)] at pending
    simp at pending
  exact ⟨inside, custody.mem_iff.mpr inside, AList.lookup_isSome.mp (by simp [pending])⟩

theorem Custody.pending_entry (nonzero : ∀ slot < block * blocks, length slot ≠ 0)
    {connection key len : ℕ}
    (pending : (unit.mConnectionIds connection).mPendingSend.lookup key = some len) :
    ∃ position, unit.EntryAt acquired position ⟨key, len⟩ false := by
  obtain ⟨index, iov⟩ := custody.lengths connection key len pending
  obtain ⟨_, member, present⟩ := custody.mem_pendingKeys pending
  have listed : key ∈ unit.mAccumulator.mIovMultievents.unmarked := by
    rw [← Multiset.mem_coe, custody.places]
    exact Multiset.mem_add.mpr (.inr (List.mem_flatMap.mpr ⟨connection, member, present⟩))
  rw [← iov]
  exact custody.entryAt_of_unmarked nonzero (by rwa [iov])

/-- No address is flagged and waiting at once. -/
theorem Custody.flag_unique (nonzero : ∀ slot < block * blocks, length slot ≠ 0) {key : ℕ}
    {first second : Bool}
    (one : (key, first) ∈ unit.mAccumulator.mIovMultievents)
    (other : (key, second) ∈ unit.mAccumulator.mIovMultievents) : first = second := by
  have distinct := ledger.addresses_nodup dataRange.mBegin nonzero
  rw [← custody.tracks.keys] at distinct
  exact (Prod.mk.inj (List.inj_on_of_nodup_map distinct one other rfl)).2

theorem Place.Holds.waiting {iov : Iovec} {flag : Bool} {place : Place}
    (held : place.Holds unit iov flag) :
    place = .completed ∨ iov.iovBase ∈ unit.mAccumulator.mIovMultievents.unmarked := by
  rw [← Multiset.mem_coe, custody.places]
  cases place with
  | unsent => exact .inr (Multiset.mem_add.mpr (.inl (List.mem_map_of_mem held)))
  | pending connection =>
    obtain ⟨_, member, present⟩ := custody.mem_pendingKeys held.2
    exact .inr (Multiset.mem_add.mpr (.inr (List.mem_flatMap.mpr ⟨connection, member, present⟩)))
  | completed => exact .inl rfl

/-- No entry is at two places. -/
theorem Custody.place_unique (nonzero : ∀ slot < block * blocks, length slot ≠ 0) {iov : Iovec}
    {flag : Bool}
    (listed : (iov.iovBase, flag) ∈ unit.mAccumulator.mIovMultievents) {first second : Place}
    (one : first.Holds unit iov flag) (other : second.Holds unit iov flag) : first = second := by
  obtain ⟨_, pendingDistinct, apart⟩ := Multiset.nodup_add.mp (custody.nodup_places nonzero)
  have unflagged : iov.iovBase ∈ unit.mAccumulator.mIovMultievents.unmarked → flag = false :=
    fun waiting => custody.flag_unique nonzero listed (MarkedQueue.mem_unmarked.mp waiting)
  have tabled : ∀ {connection : ℕ}, Place.Holds unit iov flag (.pending connection) →
      connection ∈ unit.idSequence ∧
        iov.iovBase ∈ (unit.mConnectionIds connection).mPendingSend.keys :=
    fun held => (custody.mem_pendingKeys held.2).2
  have separate : ∀ {connection : ℕ}, Place.Holds unit iov flag .unsent →
      ¬Place.Holds unit iov flag (.pending connection) := by
    intro connection unsent pending
    obtain ⟨member, present⟩ := tabled pending
    exact Multiset.disjoint_left.mp apart (List.mem_map_of_mem unsent)
      (List.mem_flatMap.mpr ⟨connection, member, present⟩)
  have incomplete : ∀ {place : Place}, place.Holds unit iov flag → flag = true →
      place = .completed := by
    intro place held flagged
    obtain done | waiting := held.waiting custody
    · exact done
    · exact absurd flagged (by simp [unflagged waiting])
  cases first with
  | unsent =>
    cases second with
    | unsent => rfl
    | pending connection => exact absurd other (separate one)
    | completed => exact incomplete one other
  | pending connection =>
    cases second with
    | unsent => exact absurd one (separate other)
    | pending connection' =>
      by_contra differs
      obtain ⟨member, present⟩ := tabled one
      obtain ⟨member', present'⟩ := tabled other
      have tables := (List.nodup_flatMap.mp (Multiset.coe_nodup.mp pendingDistinct)).2
      have symmetric : Std.Symm (Function.onFun List.Disjoint fun connection =>
          (unit.mConnectionIds connection).mPendingSend.keys) := ⟨fun _ _ apart => apart.symm⟩
      exact tables.forall member member' (fun same => differs (congrArg Place.pending same))
        present present'
    | completed => exact incomplete one other
  | completed => exact (incomplete other one).symm

/-- Every entry is at one of the places. -/
theorem Custody.exists_place (nonzero : ∀ slot < block * blocks, length slot ≠ 0) {position : ℕ}
    {iov : Iovec} {flag : Bool}
    (entry : unit.EntryAt acquired position iov flag) :
    ∃ place, Place.Holds unit iov flag place := by
  cases flag with
  | true => exact ⟨.completed, rfl⟩
  | false =>
    obtain ⟨own, rfl⟩ := custody.acquired_origin (List.mem_of_getElem? entry.2)
    have waiting := MarkedQueue.mem_unmarked.mpr (List.mem_of_getElem? entry.1)
    rw [← Multiset.mem_coe, custody.places] at waiting
    cases Multiset.mem_add.mp waiting with
    | inl unsent =>
      obtain ⟨iov, listed, same⟩ := List.mem_map.mp unsent
      obtain ⟨index, rfl⟩ := custody.acquired_origin (custody.unsent_acquired listed)
      rw [multievent_eq_of_iovBase ledger.positive nonzero same] at listed
      exact ⟨.unsent, listed⟩
    | inr pending =>
      obtain ⟨connection, _, present⟩ := List.mem_flatMap.mp pending
      obtain ⟨len, found⟩ := Option.isSome_iff_exists.mp (AList.lookup_isSome.mpr present)
      obtain ⟨index, same⟩ := custody.lengths _ _ _ found
      have known : multievent dataRange.mBegin length block blocks index =
          multievent dataRange.mBegin length block blocks own :=
        multievent_eq_of_iovBase ledger.positive nonzero (by rw [same])
      refine ⟨.pending connection, custody.connections ▸ (custody.mem_pendingKeys found).1, ?_⟩
      rw [← known, same]
      exact found

end Places

section Run

variable {block credits id nodes : ℕ} {draws : ℕ → ℕ} {dataRange : Range}
  {metadata : MetaDataMemory} {data : Memory} {layout : Layout} {t : Transport}
  {trace : List ReadoutReport} {s : ReadoutSystem}

/-- The accumulator that `main` hands to a readout unit. -/
def Layout.accumulator (layout : Layout) (dataRange : Range) (block credits : ℕ) : Accumulator :=
  .construct (.construct layout.generator ⟨0, block * (2 * credits + 1)⟩)
    ⟨0, block * (2 * credits + 1)⟩ dataRange block

theorem Layout.accumulator_tracks (positive : 0 < block * (2 * credits + 1))
    (built : Generator.construct draws ⟨0, block * (2 * credits + 1)⟩ dataRange id metadata data =
      .ok layout) :
    (layout.accumulator dataRange block credits).Tracks
      (Ledger.start positive : Ledger block (2 * credits + 1)) dataRange.mBegin
      (eventLength (block * (2 * credits + 1)) (dataRange.mEnd - dataRange.mBegin) draws) := by
  obtain ⟨_, _, rfl⟩ := Generator.construct_eq_ok positive built
  exact Accumulator.construct_tracks positive rfl rfl

/-- In every state reached over a fabric that accepts the posts and completes
each of them once, each entry of the queue is at exactly one place, all that is
unsent or pending is in the queue, and, with the events in the registered memory, no turn fails
unless the clock runs backwards. -/
theorem readoutUnit_custody (positive : 0 < block)
    (built : Generator.construct draws ⟨0, block * (2 * credits + 1)⟩ dataRange id metadata data =
      .ok layout)
    (nonzero : ∀ slot < block * (2 * credits + 1), (layout.metadata slot).length ≠ 0)
    (own : id < nodes)
    (run : Run (CarriedTurn layout.metadata t)
      (ReadoutSystem.start t (layout.accumulator dataRange block credits) dataRange credits id
        nodes) trace s) :
    (∀ position < s.unit.mAccumulator.mIovMultievents.length, ∃ iov flag,
        s.unit.EntryAt (ReadoutReport.acquisitions trace) position iov flag ∧
        ∃! place, Place.Holds s.unit iov flag place) ∧
      (∀ iov ∈ s.unit.unsent, ∃ position,
        s.unit.EntryAt (ReadoutReport.acquisitions trace) position iov false) ∧
      (∀ connection key len, (s.unit.mConnectionIds connection).mPendingSend.lookup key = some len →
        ∃ position, s.unit.EntryAt (ReadoutReport.acquisitions trace) position ⟨key, len⟩ false) ∧
      (∑ slot ∈ Finset.range (block * (2 * credits + 1)), (layout.metadata slot).length ≤
          dataRange.mEnd - dataRange.mBegin →
        ∀ due reads batch, Carried s reads batch →
          (∃ report unit,
            s.unit.iteration (accumulatorSource layout.metadata) t ⟨due, reads, none⟩ =
              .ok (report, unit)) ∨
          s.unit.iteration (accumulatorSource layout.metadata) t ⟨due, reads, none⟩ =
            .error Controller.clockBehind ∧ ¬s.unit.InTime due) := by
  have slots : 0 < block * (2 * credits + 1) := Nat.mul_pos positive (Nat.succ_pos _)
  have laid := Generator.construct_wellLaid slots built
  have lengths : ∀ slot < block * (2 * credits + 1), eventLength (block * (2 * credits + 1))
      (dataRange.mEnd - dataRange.mBegin) draws slot ≠ 0 := by
    intro slot inside
    rw [← (laid slot inside).1]
    exact nonzero slot inside
  have tracks := layout.accumulator_tracks slots built
  obtain ⟨ledger, custody⟩ := custody_run laid slots own tracks rfl run
  refine ⟨?_, fun iov => custody.unsent_entry lengths,
    fun connection key len => custody.pending_entry lengths, ?_⟩
  · intro position inside
    obtain ⟨flag, entry⟩ := custody.entryAt inside
    obtain ⟨place, held⟩ := custody.exists_place lengths entry
    have listed := List.mem_of_getElem? entry.1
    exact ⟨_, flag, entry, place, held,
      fun _ other => custody.place_unique lengths listed other held⟩
  · intro room due reads batch carried
    have begins := (Generator.construct_eq_ok slots built).2.1
    rw [Finset.sum_congr rfl fun slot member => (laid slot (Finset.mem_range.mp member)).1] at room
    exact custody.iteration_returns laid positive (.inl lengths) room (by omega) own carried due

theorem uniformLayout_nonzero : ∀ slot < 1 * (2 * 1 + 1),
    (uniformLayout.metadata slot).length ≠ 0 := by decide

/-- The first of two nodes acquires two events of 32 bytes and posts the second one. -/
theorem uniformLayout_turn : ∃ s, CarriedTurn uniformLayout.metadata .verbs
    (.start .verbs (uniformLayout.accumulator ⟨0, 96⟩ 1 1) ⟨0, 96⟩ 1 0 2)
    ⟨[⟨0, 32⟩, ⟨32, 32⟩], [], some (1, ⟨32, 32⟩)⟩ s ∧
      s.unit.mAccumulator.mIovMultievents.length = 2 := by
  refine ⟨_, @CarriedTurn.turn _ _ _ (fun _ => 2) (fun _ => .again) (fun _ => []) _ _ ?_ rfl, rfl⟩
  exact ⟨fun _ => .again, fun _ => Multiset.zero_le _⟩

/-- One event is unsent then, and the other one is in flight. -/
theorem readoutUnit_custody_uniform : ∃ s, Run (CarriedTurn uniformLayout.metadata .verbs)
      (.start .verbs (uniformLayout.accumulator ⟨0, 96⟩ 1 1) ⟨0, 96⟩ 1 0 2)
      [⟨[⟨0, 32⟩, ⟨32, 32⟩], [], some (1, ⟨32, 32⟩)⟩] s ∧
    s.unit.mAccumulator.mIovMultievents.length = 2 ∧
    (∀ position < 2, ∃ iov flag, s.unit.EntryAt [⟨0, 32⟩, ⟨32, 32⟩] position iov flag ∧
      ∃! place, Place.Holds s.unit iov flag place) ∧
    ∀ due reads batch, Carried s reads batch → s.unit.InTime due → ∃ report unit,
      s.unit.iteration (accumulatorSource uniformLayout.metadata) .verbs ⟨due, reads, none⟩ =
        .ok (report, unit) := by
  obtain ⟨s, taken, two⟩ := uniformLayout_turn
  obtain ⟨places, _, _, returns⟩ := readoutUnit_custody (by decide) uniformLayout_built
    uniformLayout_nonzero (by decide) (Run.single taken)
  refine ⟨s, Run.single taken, two, fun position inside => places position (two ▸ inside), ?_⟩
  intro due reads batch carried inTime
  exact (returns (by decide) due reads batch carried).resolve_right fun behind => behind.2 inTime

end Run

end Lseb
