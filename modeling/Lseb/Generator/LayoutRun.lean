import Mathlib.Algebra.BigOperators.Group.List.Basic
import Lseb.Foundation.Run
import Lseb.Generator.Layout

/-!
# The layout loop turn by turn

A run of the constructor's loop records what each turn wrote and where. Room
for one header per free slot is the invariant: it admits every reservation,
and it keeps the offsets plain sums that never wrap around.
-/

namespace Lseb

open Foundation

/-- The locals of the loop and its condition, `metadata_avail`. -/
structure LayoutLoop where
  locals : LayoutState
  metadataAvail : Bool

/-- The record that a turn stored, and the address of its header. -/
structure LayoutTurn where
  event : EventMetaData
  header : ℕ
  deriving DecidableEq, Repr

inductive LayoutStep (id : ℕ) (draws : ℕ → ℕ) : LayoutLoop → LayoutTurn → LayoutLoop → Prop where
  | turn {s next : LayoutState} {avail : Bool} :
      Generator.layoutEvent id (draws s.eventsCounter) s = .ok (next, avail) →
      LayoutStep id draws ⟨s, true⟩
        ⟨next.metadata s.metadataBuffer.mNextWrite, s.dataBuffer.mNextWrite⟩ ⟨next, avail⟩

/-- The loop of a constructor, entered with empty buffers. -/
def layoutStart (slots bytes base : ℕ) (metadata : MetaDataMemory) (data : Memory) : LayoutLoop :=
  ⟨⟨⟨0, slots, 0, 0⟩, ⟨base, base + bytes, base, base⟩, 0, 0, metadata, data⟩, true⟩

/-- What is asked of the turn number `k` in a history of turns. -/
structure TurnFits (bytes base : ℕ) (turns : List LayoutTurn) (k : ℕ) (turn : LayoutTurn) :
    Prop where
  id : turn.event.id = k
  offset : turn.event.offset = ((turns.take k).map fun earlier => earlier.event.length).sum
  header : turn.header = base + turn.event.offset
  inside : turn.event.offset + turn.event.length ≤ bytes
  headerInside : turn.event.offset + sizeofEventHeader ≤ bytes

/-- Every free slot finds room for a header, no reservation fails, and the sums
of the next turn are below `2 ^ 64`. -/
structure TurnPossible (id slots : ℕ) (draws : ℕ → ℕ) (s : LayoutState) : Prop where
  room : s.metadataBuffer.available * sizeofEventHeader ≤ s.dataBuffer.available
  succeeds : ∃ next, Generator.layoutEvent id (draws s.eventsCounter) s = .ok next
  representable : draws s.eventsCounter + (slots + 1) * sizeofEventHeader < 2 ^ 64 →
    sizeofEventHeader + draws s.eventsCounter +
      (s.metadataBuffer.available - 1) * sizeofEventHeader < 2 ^ 64

/-- Both buffers can be emptied. -/
def Emptied (s : LayoutState) : Prop :=
  ∃ metadataBuffer dataBuffer,
    s.metadataBuffer.release s.metadataBuffer.ready = .ok metadataBuffer ∧
    s.dataBuffer.release s.dataBuffer.ready = .ok dataBuffer ∧
    metadataBuffer.ready = 0 ∧ dataBuffer.ready = 0

/-- The loop after some turns: it has stopped exactly after `slots` of them. -/
structure LoopFits (id slots bytes base : ℕ) (draws : ℕ → ℕ) (turns : List LayoutTurn)
    (loop : LayoutLoop) : Prop where
  counter : loop.locals.eventsCounter = turns.length
  bounded : turns.length ≤ slots
  running : loop.metadataAvail = true ↔ turns.length < slots
  turns : ∀ k turn, turns[k]? = some turn → TurnFits bytes base turns k turn
  next : loop.metadataAvail = true → TurnPossible id slots draws loop.locals
  stopped : loop.metadataAvail = false → Emptied loop.locals

/-- A finished loop is a run of its turns. -/
theorem layoutLoop_run {id fuel : ℕ} {draws : ℕ → ℕ} {s last : LayoutState}
    (finished : Generator.layoutLoop id draws fuel s = .ok last) :
    ∃ turns, Run (LayoutStep id draws) ⟨s, true⟩ turns ⟨last, false⟩ := by
  induction fuel generalizing s with
  | zero => cases finished
  | succ fuel ih =>
    obtain ⟨⟨next, avail⟩, event, rest⟩ := bind_eq_ok.mp finished
    have turn := Run.single (LayoutStep.turn event)
    cases avail with
    | false =>
      cases rest
      exact ⟨_, turn⟩
    | true =>
      obtain ⟨turns, later⟩ := ih rest
      exact ⟨_, turn.append later⟩

section Run

variable {slots bytes base id : ℕ} {draws : ℕ → ℕ} {metadata : MetaDataMemory} {data : Memory}

/-- What the turn number `k` stores. -/
def layoutTurn (slots bytes base : ℕ) (draws : ℕ → ℕ) (k : ℕ) : LayoutTurn :=
  ⟨⟨k, eventLength slots bytes draws k, eventOffset slots bytes draws k⟩,
    base + eventOffset slots bytes draws k⟩

def layoutTurns (slots bytes base : ℕ) (draws : ℕ → ℕ) (count : ℕ) : List LayoutTurn :=
  (List.range count).map (layoutTurn slots bytes base draws)

/-- The loop after `count` turns. -/
def layoutAfter (slots bytes base id : ℕ) (draws : ℕ → ℕ) (metadata : MetaDataMemory)
    (data : Memory) (count : ℕ) : LayoutLoop :=
  if count < slots then
    ⟨Generator.layoutBefore slots bytes base id draws metadata data count, true⟩
  else ⟨Generator.layoutEnd slots bytes base id draws metadata data (count - 1), false⟩

theorem layoutTurns_succ (count : ℕ) : layoutTurns slots bytes base draws (count + 1) =
    layoutTurns slots bytes base draws count ++ [layoutTurn slots bytes base draws count] := by
  simp [layoutTurns, List.range_succ]

@[simp] theorem layoutTurns_length (count : ℕ) :
    (layoutTurns slots bytes base draws count).length = count := by
  simp [layoutTurns]

/-- The lengths stored so far add up to the next offset. -/
theorem layoutTurns_sum (count : ℕ) : ((layoutTurns slots bytes base draws count).map
    fun turn => turn.event.length).sum = eventOffset slots bytes draws count := by
  induction count with
  | zero => rfl
  | succ count ih =>
    rw [layoutTurns_succ, List.map_append, List.sum_append, ih, eventOffset_succ]
    simp [layoutTurn]

theorem layoutAfter_zero (positive : 0 < slots) :
    layoutAfter slots bytes base id draws metadata data 0 =
      layoutStart slots bytes base metadata data := by
  simp [layoutAfter, positive, Generator.layoutBefore, layoutStart, writtenHeaders, eventOffset]

theorem writtenMetadata_self (k : ℕ) :
    Generator.writtenMetadata slots bytes draws metadata (k + 1) k =
      ⟨k, eventLength slots bytes draws k, eventOffset slots bytes draws k⟩ :=
  if_pos (Nat.lt_succ_self k)

section Loop

variable (fits : slots * sizeofEventHeader ≤ bytes) (aligned : base % 8 = 0)

include fits aligned

/-- The step lemma: one more turn, with the record and the header where they belong. -/
theorem layoutStep_after {count : ℕ} {turn : LayoutTurn} {next : LayoutLoop}
    (step : LayoutStep id draws (layoutAfter slots bytes base id draws metadata data count) turn
      next) :
    count < slots ∧ turn = layoutTurn slots bytes base draws count ∧
      next = layoutAfter slots bytes base id draws metadata data (count + 1) := by
  by_cases inside : count < slots
  · rw [layoutAfter, if_pos inside] at step
    generalize entered : (⟨_, true⟩ : LayoutLoop) = loop at step
    obtain ⟨event⟩ := step
    cases entered
    have written := (@Generator.layoutEvent_eq slots bytes base id draws metadata data aligned
      count inside (eventOffset_lt fits inside) (eventOffset_lt fits)).symm.trans event
    by_cases more : count + 1 < slots
    · rw [if_pos more] at written
      cases written
      rw [layoutAfter, if_pos more]
      exact ⟨inside, by simp [Generator.layoutBefore, writtenMetadata_self, layoutTurn], rfl⟩
    · rw [if_neg more] at written
      cases written
      rw [layoutAfter, if_neg more]
      exact ⟨inside, by
        simp [Generator.layoutBefore, Generator.layoutEnd, writtenMetadata_self, layoutTurn], rfl⟩
  · rw [layoutAfter, if_neg inside] at step
    cases step

/-- The run lemma: history and state are those of the closed form. -/
theorem layoutRun_after (positive : 0 < slots) {turns : List LayoutTurn} {loop : LayoutLoop}
    (run : Run (LayoutStep id draws) (layoutStart slots bytes base metadata data) turns loop) :
    turns.length ≤ slots ∧ turns = layoutTurns slots bytes base draws turns.length ∧
      loop = layoutAfter slots bytes base id draws metadata data turns.length := by
  induction run with
  | nil => exact ⟨Nat.zero_le _, rfl, (layoutAfter_zero positive).symm⟩
  | @snoc turns state next turn _ step ih =>
    obtain ⟨_, history, rfl⟩ := ih
    obtain ⟨inside, rfl, rfl⟩ := layoutStep_after fits aligned step
    rw [List.length_append, List.length_singleton, layoutTurns_succ, ← history]
    exact ⟨inside, rfl, rfl⟩

theorem turnPossible_before {count : ℕ} (inside : count < slots) :
    TurnPossible id slots draws
      (Generator.layoutBefore slots bytes base id draws metadata data count) := by
  have slotsLeft := @Generator.available_of_unread 0 count slots inside
  have bytesLeft := @Generator.available_of_unread base _ bytes
    (@eventOffset_lt slots bytes draws fits count inside)
  have room := @eventOffset_room slots bytes draws fits count inside.le
  simp only [Nat.zero_add] at slotsLeft
  refine ⟨?_, ⟨_, Generator.layoutEvent_eq aligned inside (eventOffset_lt fits inside)
    (eventOffset_lt fits)⟩, ?_⟩
  · simp only [Generator.layoutBefore, slotsLeft, bytesLeft]
    omega
  · intro representable
    have fewer : slots - count - 1 ≤ slots := by omega
    have := Nat.mul_le_mul_right sizeofEventHeader fewer
    simp only [Generator.layoutBefore, slotsLeft] at representable ⊢
    rw [Nat.succ_mul] at representable
    omega

end Loop

theorem emptied_end (fits : slots * sizeofEventHeader ≤ bytes) (positive : 0 < slots) :
    Emptied (Generator.layoutEnd slots bytes base id draws metadata data (slots - 1)) := by
  have inside : slots - 1 < slots := by omega
  have below := @eventOffset_lt slots bytes draws fits (slots - 1) inside
  have slotsReady := @Generator.ready_of_unread 0 (slots - 1) slots inside
  have slotsReleased := @Generator.release_of_unread 0 (slots - 1) slots inside
  have slotsEmpty := @Generator.ready_of_equal 0 (slots - 1) slots
  simp only [Nat.zero_add] at slotsReady slotsReleased slotsEmpty
  have bytesReady := @Generator.ready_of_unread base _ bytes below
  have bytesReleased := @Generator.release_of_unread base _ bytes below
  have bytesEmpty := @Generator.ready_of_equal base
    (eventOffset slots bytes draws (slots - 1)) bytes
  refine ⟨_, _, ?_, ?_, slotsEmpty, bytesEmpty⟩
  · simp only [Generator.layoutEnd, slotsReady, slotsReleased]
  · simp only [Generator.layoutEnd, bytesReady, bytesReleased]

theorem turnFits_turns (fits : slots * sizeofEventHeader ≤ bytes) {count k : ℕ}
    (bounded : count ≤ slots) {turn : LayoutTurn}
    (taken : (layoutTurns slots bytes base draws count)[k]? = some turn) :
    TurnFits bytes base (layoutTurns slots bytes base draws count) k turn := by
  obtain ⟨inside, rfl⟩ := List.getElem?_eq_some_iff.mp taken
  have before : k < count := by simpa [layoutTurns] using inside
  have stored : (layoutTurns slots bytes base draws count)[k] =
      layoutTurn slots bytes base draws k := by simp [layoutTurns]
  have earlier : (layoutTurns slots bytes base draws count).take k =
      layoutTurns slots bytes base draws k := by
    rw [layoutTurns, ← List.map_take, List.take_range, min_eq_left before.le, layoutTurns]
  have whole := @eventOffset_room slots bytes draws fits (k + 1) (by omega)
  have header := @eventOffset_room slots bytes draws fits k (by omega)
  have some : 1 * sizeofEventHeader ≤ (slots - k) * sizeofEventHeader :=
    Nat.mul_le_mul_right _ (by omega)
  rw [eventOffset_succ] at whole
  rw [stored]
  refine ⟨rfl, ?_, rfl, ?_, ?_⟩
  · rw [earlier, layoutTurns_sum]
    rfl
  · exact le_trans (Nat.le_add_right _ _) whole
  · simp only [layoutTurn]
    omega

theorem layoutAfter_fits (positive : 0 < slots) (fits : slots * sizeofEventHeader ≤ bytes)
    (aligned : base % 8 = 0) {count : ℕ} (bounded : count ≤ slots) :
    LoopFits id slots bytes base draws (layoutTurns slots bytes base draws count)
      (layoutAfter slots bytes base id draws metadata data count) := by
  by_cases running : count < slots
  · have after : layoutAfter slots bytes base id draws metadata data count =
        ⟨Generator.layoutBefore slots bytes base id draws metadata data count, true⟩ :=
      if_pos running
    rw [after]
    refine ⟨?_, ?_, ?_, fun k turn taken => turnFits_turns fits bounded taken,
      fun _ => turnPossible_before fits aligned running, nofun⟩
    · rw [layoutTurns_length]
      rfl
    · rwa [layoutTurns_length]
    · rw [layoutTurns_length]
      exact iff_of_true rfl running
  · obtain rfl : count = slots := by omega
    have after : layoutAfter count bytes base id draws metadata data count =
        ⟨Generator.layoutEnd count bytes base id draws metadata data (count - 1), false⟩ :=
      if_neg running
    rw [after]
    refine ⟨?_, ?_, ?_, fun k turn taken => turnFits_turns fits bounded taken, nofun,
      fun _ => emptied_end fits positive⟩
    · rw [layoutTurns_length]
      exact Nat.sub_add_cancel positive
    · rw [layoutTurns_length]
    · rw [layoutTurns_length]
      exact iff_of_false nofun running

/-- Every turn of the loop fits, it stops after one turn per slot, and the constructor
empties both buffers. -/
theorem layout_fits (positive : 0 < slots) (fits : slots * sizeofEventHeader ≤ bytes)
    (padded : bytes % dataPadding = 0) (aligned : base % 8 = 0) :
    (∀ turns loop, Run (LayoutStep id draws) (layoutStart slots bytes base metadata data) turns
        loop → LoopFits id slots bytes base draws turns loop) ∧
      (∃ turns loop, Run (LayoutStep id draws) (layoutStart slots bytes base metadata data) turns
        loop ∧ loop.metadataAvail = false) ∧
      ∃ layout, Generator.construct draws ⟨0, slots⟩ ⟨base, base + bytes⟩ id metadata data =
        .ok layout := by
  refine ⟨?_, ?_, _, Generator.construct_eq positive fits aligned padded⟩
  · intro turns loop run
    obtain ⟨bounded, history, rfl⟩ := layoutRun_after fits aligned positive run
    generalize turns.length = count at bounded history
    subst history
    exact layoutAfter_fits positive fits aligned bounded
  · have finished := @Generator.layoutLoop_eq slots bytes base id draws metadata data aligned
      0 slots positive (Nat.le_add_left slots 0)
      (eventOffset_lt fits (Nat.sub_lt positive Nat.one_pos))
    obtain ⟨turns, run⟩ := layoutLoop_run finished
    have entered := @layoutAfter_zero slots bytes base id draws metadata data positive
    rw [layoutAfter, if_pos positive] at entered
    rw [entered] at run
    exact ⟨turns, _, run, rfl⟩

/-- Three slots over 96 bytes, which the events fill to the last one. -/
theorem layout_fits_slack :
    (∀ turns loop, Run (LayoutStep 0 fun _ => 20)
        (layoutStart 3 96 0 (fun _ => ⟨0, 0, 0⟩) fun _ => 0) turns loop →
        LoopFits 0 3 96 0 (fun _ => 20) turns loop) ∧
      (∃ turns loop, Run (LayoutStep 0 fun _ => 20)
        (layoutStart 3 96 0 (fun _ => ⟨0, 0, 0⟩) fun _ => 0) turns loop ∧
        loop.metadataAvail = false) ∧
      ∃ layout, Generator.construct (fun _ => 20) ⟨0, 3⟩ ⟨0, 96⟩ 0 (fun _ => ⟨0, 0, 0⟩)
        (fun _ => 0) = .ok layout :=
  layout_fits (by decide) (by decide) (by decide) (by decide)

end Run

end Lseb
