import Lseb.Ru.Accounting

/-!
# Multievents and the queue of outstanding ones

The multievent `n` is the block `n mod blocks` of the ring, whatever the clock
and the releases did. Next to the books, an accumulator keeps the queue of the
outstanding multievents: their addresses are those of the consecutive indices
from the first one not released to the last one acquired.
-/

namespace Lseb

open Foundation

/-- The multievent with index `n`, in the order of acquisition. -/
def multievent (dataBegin : ℕ) (length : ℕ → ℕ) (block blocks n : ℕ) : Iovec :=
  eventsIovec dataBegin length (n % blocks * block) block

section Addresses

variable {dataBegin block blocks : ℕ} {length : ℕ → ℕ}

/-- Without empty events, blocks that begin at one address are the same block. -/
theorem multievent_block_eq {first second : ℕ} (positive : 0 < block)
    (nonzero : ∀ slot < block * blocks, length slot ≠ 0) (some : 0 < blocks)
    (same : (multievent dataBegin length block blocks first).iovBase =
      (multievent dataBegin length block blocks second).iovBase) :
    first % blocks = second % blocks := by
  have increasing : ∀ low high, low < high → high < blocks →
      ∑ slot ∈ Finset.range (low * block), length slot <
        ∑ slot ∈ Finset.range (high * block), length slot := by
    intro low high less inside
    have before : low * block < high * block := Nat.mul_lt_mul_of_pos_right less positive
    have within : high * block ≤ block * blocks := by
      rw [mul_comm]
      exact Nat.mul_le_mul_left _ inside.le
    exact Finset.sum_lt_sum_of_subset (Finset.range_mono before.le)
      (Finset.mem_range.mpr before) (by simp)
      (Nat.pos_of_ne_zero (nonzero _ (before.trans_le within))) fun _ _ _ => Nat.zero_le _
  have firstInside := Nat.mod_lt first some
  have secondInside := Nat.mod_lt second some
  simp only [multievent, eventsIovec] at same
  rcases Nat.lt_trichotomy (first % blocks) (second % blocks) with less | equal | greater
  · have := increasing _ _ less secondInside
    omega
  · exact equal
  · have := increasing _ _ greater firstInside
    omega

/-- Every multievent lies in the data that the events fill. -/
theorem multievent_inside {index : ℕ} (some : 0 < blocks) :
    dataBegin ≤ (multievent dataBegin length block blocks index).iovBase ∧
      (multievent dataBegin length block blocks index).iovBase +
          (multievent dataBegin length block blocks index).iovLen ≤
        dataBegin + ∑ slot ∈ Finset.range (block * blocks), length slot := by
  have fits : index % blocks * block + block ≤ block * blocks := block_fits (Nat.mod_lt _ some)
  have below : ∑ slot ∈ Finset.range (index % blocks * block + block), length slot ≤
      ∑ slot ∈ Finset.range (block * blocks), length slot :=
    Finset.sum_le_sum_of_subset (Finset.range_mono fits)
  rw [Finset.sum_range_add] at below
  simp only [multievent, eventsIovec]
  omega

/-- The last block ends where the events do. -/
theorem multievent_last_end {last : ℕ} :
    (multievent dataBegin length block (last + 1) last).iovBase +
        (multievent dataBegin length block (last + 1) last).iovLen =
      dataBegin + ∑ slot ∈ Finset.range (block * (last + 1)), length slot := by
  rw [show block * (last + 1) = last * block + block by ring, Finset.sum_range_add]
  simp only [multievent, eventsIovec, Nat.mod_eq_of_lt (Nat.lt_succ_self last)]
  omega

end Addresses

/-- The addresses of the multievents outstanding in a ledger, oldest first. -/
def Ledger.addresses {block blocks : ℕ} (ledger : Ledger block blocks) (dataBegin : ℕ)
    (length : ℕ → ℕ) : List ℕ :=
  (List.range (ledger.acquired - ledger.released)).map fun position =>
    (multievent dataBegin length block blocks (ledger.released + position)).iovBase

/-- Without empty events, outstanding multievents have distinct addresses. -/
theorem Ledger.addresses_nodup {block blocks : ℕ} (ledger : Ledger block blocks) (dataBegin : ℕ)
    {length : ℕ → ℕ} (nonzero : ∀ slot < block * blocks, length slot ≠ 0) :
    (ledger.addresses dataBegin length).Nodup := by
  have positive := ledger.positive
  have blocksDistinct := blocks_nodup ledger.released ledger.outstanding_lt.le
  apply List.nodup_range.map_on
  intro i hi j hj same
  exact List.inj_on_of_nodup_map blocksDistinct hi hj
    (multievent_block_eq (Nat.pos_of_mul_pos_right positive) nonzero
      (Nat.pos_of_mul_pos_left positive) same)

/-- What a call of `get_multievent` returns in a ledger. -/
def Ledger.returned {block blocks : ℕ} (ledger : Ledger block blocks) (dataBegin : ℕ)
    (length : ℕ → ℕ) (due : ℕ) : Option Iovec :=
  if (ledger.acquired + 1) * block ≤ (ledger.read due).generated then
    some (multievent dataBegin length block blocks ledger.acquired)
  else none

namespace Accumulator

/-- The books of an accumulator with the queue that belongs to them. -/
structure Tracks {block blocks : ℕ} (acc : Accumulator) (ledger : Ledger block blocks)
    (dataBegin : ℕ) (length : ℕ → ℕ) : Prop extends Accounts acc ledger where
  dataFirst : acc.mDataRange.mBegin = dataBegin
  keys : acc.mIovMultievents.keys = ledger.addresses dataBegin length
  marksFirst : acc.mIovMultievents.MarksFirst
  settled : acc.mIovMultievents.Settled

variable {block blocks dataBegin : ℕ} {length : ℕ → ℕ} {ledger : Ledger block blocks}
  {acc : Accumulator} {metadata : MetaDataMemory}

/-- A reading that is behind makes a difference only if it is asked for events. -/
theorem Accounts.getMultievent_reading (accounts : acc.Accounts ledger)
    (metadata : MetaDataMemory) (reading : ℕ) :
    acc.getMultievent metadata reading = .error Controller.clockBehind ∧
        acc.mGeneratedEvents < block ∧ reading < ledger.generated ∨
      acc.getMultievent metadata reading =
        acc.getMultievent metadata (max reading ledger.generated) := by
  rcases Nat.lt_or_ge reading ledger.generated with behind | inTime
  · by_cases short : acc.mGeneratedEvents < acc.mEventsInMultievent
    · left
      have failed := Controller.read_behind (accounts.controllerCount ▸ behind)
      rw [Accumulator.getMultievent, Accumulator.readIfShort, if_pos short, failed]
      exact ⟨rfl, accounts.eventsInMultievent ▸ short, behind⟩
    · right
      simp only [Accumulator.getMultievent, Accumulator.readIfShort, if_neg short]
  · right
    rw [max_eq_left inTime]

theorem Tracks.getMultievent (laid : WellLaid metadata length (block * blocks))
    (tracks : acc.Tracks ledger dataBegin length) (positive : 0 < block) {due : ℕ}
    (reading : ledger.generated ≤ due) :
    ∃ acc', acc.getMultievent metadata due =
        .ok (ledger.returned dataBegin length due, acc') ∧
      acc'.Tracks (ledger.get due) dataBegin length ∧
      (acc'.mIovMultievents.unmarked : Multiset ℕ) = acc.mIovMultievents.unmarked +
        ((ledger.returned dataBegin length due).toList.map Iovec.iovBase : Multiset ℕ) := by
  obtain ⟨result, acc', hget, accounts, data, cases⟩ :=
    tracks.toAccounts.getMultievent laid positive reading
  rw [tracks.dataFirst] at cases
  have data := (congrArg Range.mBegin data).trans tracks.dataFirst
  rcases cases with ⟨ready, rfl, queue⟩ | ⟨short, rfl, queue⟩
  · have returned : ledger.returned dataBegin length due =
        some (multievent dataBegin length block blocks ledger.acquired) := if_pos ready
    have got : ledger.get due = (ledger.read due).acquire ready := dif_pos ready
    rw [returned]
    refine ⟨acc', hget, ⟨accounts, data, ?_, ?_, ?_⟩,
      by simp [queue, multievent, ← Multiset.coe_add]⟩
    · have := ledger.released_le
      rw [queue, MarkedQueue.keys_append, tracks.keys, got]
      simp only [Ledger.addresses, Ledger.acquire, Ledger.read]
      rw [show ledger.acquired + 1 - ledger.released = ledger.acquired - ledger.released + 1 by
        omega, List.range_succ, List.map_append]
      simp only [List.map_singleton, MarkedQueue.keys, multievent]
      rw [Nat.add_sub_cancel' ledger.released_le]
    · rw [queue]
      exact tracks.marksFirst.push _
    · rw [queue]
      exact tracks.settled.push _
  · have returned : ledger.returned dataBegin length due = none := if_neg (by omega)
    have got : ledger.get due = ledger.read due := dif_neg (by omega)
    rw [returned]
    refine ⟨acc', hget, ⟨accounts, data, ?_, ?_, ?_⟩, by simp [queue]⟩
    · rw [queue, tracks.keys, got]
      rfl
    · rw [queue]
      exact tracks.marksFirst
    · rw [queue]
      exact tracks.settled

/-- Flagging succeeds exactly as the queue's marking does. -/
theorem flagCompleted_eq_ok {vect : List ℕ} {queue queue' : MarkedQueue ℕ} :
    flagCompleted vect queue = .ok queue' ↔ MarkedQueue.markAll vect queue = .ok queue' := by
  unfold flagCompleted
  split <;> rename_i h <;> simp [h]

theorem releaseMultievents_of {vect : List ℕ} {queue : MarkedQueue ℕ}
    (tracks : acc.Tracks ledger dataBegin length)
    (marked : MarkedQueue.markAll vect acc.mIovMultievents = .ok queue) :
    ∃ (outstanding : ledger.released + queue.completed ≤ ledger.acquired) (acc' : _),
      acc.releaseMultievents vect = .ok acc' ∧
      acc'.Tracks (ledger.release queue.completed outstanding) dataBegin length ∧
      acc'.mIovMultievents = queue.drop queue.completed ∧
      (acc.mIovMultievents.unmarked : Multiset ℕ) = vect + acc'.mIovMultievents.unmarked := by
  have keys := MarkedQueue.markAll_keys marked
  have flagged : Accounts { acc with mIovMultievents := queue } ledger := by
    refine { tracks.toAccounts with outstanding := ?_ }
    have := congrArg List.length keys
    simp only [MarkedQueue.keys_length] at this
    simpa only [this] using tracks.outstanding
  obtain ⟨outstanding, acc', hrelease, accounts, dropped, data⟩ :=
    releaseContiguousMemory_accounts flagged
  refine ⟨outstanding, acc', ?_, ⟨accounts, (congrArg Range.mBegin data).trans tracks.dataFirst,
    ?_, ?_, ?_⟩, dropped, ?_⟩
  · rw [releaseMultievents, flagCompleted_eq_ok.mpr marked, ok_bind, hrelease]
    rfl
  · rw [dropped, MarkedQueue.keys, List.map_drop, ← MarkedQueue.keys, keys, tracks.keys]
    apply List.ext_getElem
    · simp only [Ledger.addresses, Ledger.release, List.length_drop, List.length_map,
        List.length_range]
      omega
    · intro position _ _
      simp [Ledger.addresses, Ledger.release, Nat.add_assoc]
  · rw [dropped]
    exact MarkedQueue.marksFirst_drop (MarkedQueue.markAll_marksFirst marked tracks.marksFirst) _
  · rw [dropped]
    exact MarkedQueue.settled_drop_completed queue
  · rw [dropped, MarkedQueue.unmarked_drop_completed]
    exact MarkedQueue.markAll_unmarked marked

/-- Whatever is released, a call that returns has freed a prefix of the queue. -/
theorem Tracks.releaseMultievents {acc' : Accumulator} {vect : List ℕ}
    (tracks : acc.Tracks ledger dataBegin length)
    (h : acc.releaseMultievents vect = .ok acc') :
    ∃ count, ∃ outstanding : ledger.released + count ≤ ledger.acquired,
      acc'.Tracks (ledger.release count outstanding) dataBegin length ∧
      (acc.mIovMultievents.unmarked : Multiset ℕ) = vect + acc'.mIovMultievents.unmarked := by
  obtain ⟨queue, hflag, _⟩ := bind_eq_ok.mp h
  obtain ⟨outstanding, acc'', hrelease, tracks', _, unmarked⟩ :=
    releaseMultievents_of tracks (flagCompleted_eq_ok.mp hflag)
  obtain rfl : acc'' = acc' := Except.ok.inj (hrelease.symm.trans h)
  exact ⟨queue.completed, outstanding, tracks', unmarked⟩

/-- Outstanding addresses that are not flagged can be released, if none recurs. -/
theorem Tracks.releaseMultievents_total {vect : List ℕ}
    (tracks : acc.Tracks ledger dataBegin length)
    (distinct : (ledger.addresses dataBegin length).Nodup)
    (waiting : (vect : Multiset ℕ) ≤ acc.mIovMultievents.unmarked) :
    ∃ acc', acc.releaseMultievents vect = .ok acc' := by
  obtain ⟨queue, marked⟩ := MarkedQueue.markAll_total (by rwa [tracks.keys]) waiting
  obtain ⟨_, acc', hrelease, _⟩ := releaseMultievents_of tracks marked
  exact ⟨acc', hrelease⟩

/-- The accumulator of a node starts with empty books. -/
theorem construct_tracks {slots : ℕ} {dataRange : Range} {layout : Layout}
    (positive : 0 < block * blocks) (sized : slots = block * blocks)
    (generator : layout.generator.mMetadataBuffer = ⟨0, slots, slots - 1, slots - 1⟩) :
    (construct (.construct layout.generator ⟨0, slots⟩) ⟨0, slots⟩ dataRange block).Tracks
      (Ledger.start positive : Ledger block blocks) dataRange.mBegin length := by
  subst sized
  have cursor : block * blocks - 1 < block * blocks := Nat.sub_lt positive one_pos
  refine ⟨?_, rfl, rfl, List.Pairwise.nil, by simp [construct, MarkedQueue.Settled]⟩
  constructor <;> simp only [construct, Controller.construct, Ledger.start, generator]
  · constructor <;> simp [Ledger.ring, Nat.mod_eq_of_lt cursor]
  all_goals simp

end Accumulator

end Lseb
