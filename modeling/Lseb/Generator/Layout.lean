import Mathlib.Algebra.BigOperators.Group.Finset.Basic
import Mathlib.Tactic.Ring
import Lseb.Generator.Generator

/-!
# What the constructor lays out

`eventLength` and `eventOffset` say, event by event, what a ring of `slots`
records over `bytes` bytes of data receives for a sequence of drawn payload
lengths. As long as the bytes hold a header for every slot, the loop ends after
exactly `slots` events, no assertion fails, and the stored offsets are plain
sums of the lengths before them.
-/

namespace Lseb

open Foundation

def roundedSize (draw : ℕ) : ℕ :=
  (sizeofEventHeader + draw) - (sizeofEventHeader + draw) % dataPadding

/-- The size of the event `index` if `offset` bytes are in use: the rounded one,
unless that leaves too little room for the headers of the events to come. -/
def fittedSize (slots bytes draw index offset : ℕ) : ℕ :=
  if bytes - offset < roundedSize draw + (slots - 1 - index) * sizeofEventHeader then
    sizeofEventHeader
  else roundedSize draw

def eventOffset (slots bytes : ℕ) (draws : ℕ → ℕ) : ℕ → ℕ
  | 0 => 0
  | index + 1 => eventOffset slots bytes draws index +
      fittedSize slots bytes (draws index) index (eventOffset slots bytes draws index)

def eventLength (slots bytes : ℕ) (draws : ℕ → ℕ) (index : ℕ) : ℕ :=
  fittedSize slots bytes (draws index) index (eventOffset slots bytes draws index)

/-- The data memory after the headers of the first `count` events were written. -/
def writtenHeaders (slots bytes : ℕ) (draws : ℕ → ℕ) (base id : ℕ) (data : Memory) : ℕ → Memory
  | 0 => data
  | index + 1 => writeHeader (writtenHeaders slots bytes draws base id data index)
      (base + eventOffset slots bytes draws index)
      ⟨index, eventLength slots bytes draws index, id⟩

section Sizes

variable {slots bytes : ℕ} {draws : ℕ → ℕ}

theorem eventOffset_succ (index : ℕ) : eventOffset slots bytes draws (index + 1) =
    eventOffset slots bytes draws index + eventLength slots bytes draws index := rfl

theorem eventOffset_eq_sum (index : ℕ) : eventOffset slots bytes draws index =
    ∑ earlier ∈ Finset.range index, eventLength slots bytes draws earlier := by
  induction index with
  | zero => rfl
  | succ index ih => rw [eventOffset_succ, ih, Finset.sum_range_succ]

theorem eventOffset_mono {first last : ℕ} (ordered : first ≤ last) :
    eventOffset slots bytes draws first ≤ eventOffset slots bytes draws last := by
  induction last, ordered using Nat.le_induction with
  | base => exact le_rfl
  | succ last _ ih => exact ih.trans (Nat.le_add_right _ _)

theorem eventOffset_add_length_le {first last : ℕ} (ordered : first < last) :
    eventOffset slots bytes draws first + eventLength slots bytes draws first ≤
      eventOffset slots bytes draws last := by
  rw [← eventOffset_succ]
  exact eventOffset_mono ordered

theorem roundedSize_eq_zero_iff {draw : ℕ} : roundedSize draw = 0 ↔ draw < 8 := by
  unfold roundedSize sizeofEventHeader dataPadding
  omega

theorem roundedSize_mod (draw : ℕ) : roundedSize draw % 8 = 0 := by
  unfold roundedSize sizeofEventHeader dataPadding
  omega

theorem roundedSize_le (draw : ℕ) : roundedSize draw ≤ sizeofEventHeader + draw :=
  Nat.sub_le _ _

theorem eventLength_cases (index : ℕ) : eventLength slots bytes draws index = sizeofEventHeader ∨
    eventLength slots bytes draws index = roundedSize (draws index) := by
  unfold eventLength fittedSize
  split_ifs <;> simp

theorem eventLength_mod (index : ℕ) : eventLength slots bytes draws index % 8 = 0 := by
  rcases @eventLength_cases slots bytes draws index with small | rounded
  · rw [small]; rfl
  · rw [rounded]; exact roundedSize_mod _

theorem eventOffset_mod (index : ℕ) : eventOffset slots bytes draws index % 8 = 0 := by
  induction index with
  | zero => rfl
  | succ index ih =>
    rw [eventOffset_succ, Nat.add_mod, ih, eventLength_mod]

/-- Room for a header per event to come, once there, is kept. -/
theorem eventOffset_keeps_room {index last : ℕ} (ordered : index ≤ last) (inside : last ≤ slots)
    (room : eventOffset slots bytes draws index + (slots - index) * sizeofEventHeader ≤ bytes) :
    eventOffset slots bytes draws last + (slots - last) * sizeofEventHeader ≤ bytes := by
  induction last, ordered using Nat.le_induction with
  | base => exact room
  | succ last behind ih =>
    have here := ih (by omega)
    rw [show slots - last = slots - 1 - last + 1 by omega, Nat.add_mul, one_mul] at here
    rw [eventOffset_succ, eventLength, fittedSize,
      show slots - (last + 1) = slots - 1 - last by omega]
    split_ifs with short <;> omega

/-- The room kept for the events to come: a header each. -/
theorem eventOffset_room (fits : slots * sizeofEventHeader ≤ bytes) {index : ℕ}
    (inside : index ≤ slots) :
    eventOffset slots bytes draws index + (slots - index) * sizeofEventHeader ≤ bytes := by
  apply eventOffset_keeps_room (Nat.zero_le index) inside
  rwa [eventOffset, Nat.zero_add, Nat.sub_zero]

theorem eventOffset_lt (fits : slots * sizeofEventHeader ≤ bytes) {index : ℕ}
    (inside : index < slots) : eventOffset slots bytes draws index < bytes := by
  have room := @eventOffset_room slots bytes draws fits index inside.le
  have : 1 * sizeofEventHeader ≤ (slots - index) * sizeofEventHeader :=
    Nat.mul_le_mul_right _ (by omega)
  unfold sizeofEventHeader at *
  omega

/-- An event gets length zero exactly when the drawn payload rounds its header away. -/
theorem eventLength_eq_zero_iff (fits : slots * sizeofEventHeader ≤ bytes) {index : ℕ}
    (inside : index < slots) :
    eventLength slots bytes draws index = 0 ↔ draws index < 8 := by
  have room := @eventOffset_room slots bytes draws fits index inside.le
  rw [show slots - index = slots - 1 - index + 1 by omega, Nat.add_mul, one_mul] at room
  rw [← roundedSize_eq_zero_iff, eventLength, fittedSize]
  split_ifs with short
  · have : roundedSize (draws index) ≠ 0 := by
      intro zero
      rw [zero] at short
      omega
    simp [sizeofEventHeader, this]
  · rfl

/-- Without room for the headers of the events to come, each event is a header, and the room
stays too small. -/
theorem eventOffset_of_short {index last : ℕ} (ordered : index ≤ last) (inside : last < slots)
    (short : bytes < eventOffset slots bytes draws index +
      (slots - 1 - index) * sizeofEventHeader) :
    bytes < eventOffset slots bytes draws last + (slots - 1 - last) * sizeofEventHeader := by
  induction last, ordered using Nat.le_induction with
  | base => exact short
  | succ last behind ih =>
    have here := ih (by omega)
    rw [show slots - 1 - last = slots - 1 - (last + 1) + 1 by omega, Nat.add_mul, one_mul] at here
    have header : eventLength slots bytes draws last = sizeofEventHeader := by
      rw [eventLength, fittedSize, if_pos]
      rw [show slots - 1 - last = slots - 1 - (last + 1) + 1 by omega, Nat.add_mul, one_mul]
      unfold sizeofEventHeader at *
      omega
    rw [eventOffset_succ, header]
    omega

/-- If every event begins inside, the last one ends inside exactly if there is room for a
header per event or some event is empty. -/
theorem eventOffset_slots_le_iff (positive : 0 < slots)
    (begins : eventOffset slots bytes draws (slots - 1) < bytes) :
    eventOffset slots bytes draws slots ≤ bytes ↔
      slots * sizeofEventHeader ≤ bytes ∨ ∃ slot < slots, draws slot < 8 := by
  constructor
  · intro ends
    by_contra neither
    obtain ⟨few, long⟩ := not_or.mp neither
    have headers : ∀ index ≤ slots,
        eventOffset slots bytes draws index = index * sizeofEventHeader := by
      intro index inside
      induction index with
      | zero => rw [eventOffset, Nat.zero_mul]
      | succ index ih =>
        have rounded : 32 ≤ roundedSize (draws index) := by
          have : ¬draws index < 8 := fun small => long ⟨index, inside, small⟩
          unfold roundedSize sizeofEventHeader dataPadding
          omega
        have before := ih (by omega)
        have header : eventLength slots bytes draws index = sizeofEventHeader := by
          rw [eventLength, fittedSize, if_pos]
          rw [before]
          unfold sizeofEventHeader at *
          omega
        rw [eventOffset_succ, header, before, Nat.add_mul, one_mul]
    rw [headers slots le_rfl] at ends
    exact few ends
  · rintro (fits | ⟨slot, inside, small⟩)
    · exact (Nat.le_add_right _ _).trans (eventOffset_room fits le_rfl)
    · have below : eventOffset slots bytes draws slot < bytes :=
        (eventOffset_mono (by omega)).trans_lt begins
      have empty := roundedSize_eq_zero_iff.mpr small
      by_cases short : bytes - eventOffset slots bytes draws slot <
          roundedSize (draws slot) + (slots - 1 - slot) * sizeofEventHeader
      · have stays := @eventOffset_of_short slots bytes draws slot (slots - 1) (by omega)
          (by omega) (by omega)
        rw [Nat.sub_self, Nat.zero_mul] at stays
        omega
      · have size : eventLength slots bytes draws slot = 0 := by
          rw [eventLength, fittedSize, if_neg short, empty]
        have room := @eventOffset_keeps_room slots bytes draws (slot + 1) slots inside le_rfl (by
          rw [eventOffset_succ, size, show slots - (slot + 1) = slots - 1 - slot by omega]
          omega)
        exact (Nat.le_add_right _ _).trans room

/-- A payload that is not rounded away leaves a length. -/
theorem eventLength_ne_zero {index : ℕ} (long : 8 ≤ draws index) :
    eventLength slots bytes draws index ≠ 0 := by
  rcases @eventLength_cases slots bytes draws index with header | rounded
  · rw [header]
    decide
  · rw [rounded, Ne, roundedSize_eq_zero_iff]
    omega

theorem header_le_eventLength {index : ℕ} (nonzero : eventLength slots bytes draws index ≠ 0) :
    sizeofEventHeader ≤ eventLength slots bytes draws index := by
  rcases @eventLength_cases slots bytes draws index with small | rounded
  · rw [small]
  · rw [rounded] at nonzero ⊢
    unfold roundedSize sizeofEventHeader dataPadding at *
    omega

/-- With no event of length zero, each header survives all later ones. -/
theorem readHeader_writtenHeaders {base id count index : ℕ} {data : Memory}
    (nonzero : ∀ event < count, eventLength slots bytes draws event ≠ 0) (inside : index < count) :
    readHeader (writtenHeaders slots bytes draws base id data count)
      (base + eventOffset slots bytes draws index) =
        ⟨index, eventLength slots bytes draws index, id⟩ := by
  induction count with
  | zero => omega
  | succ count ih =>
    rw [writtenHeaders]
    rcases Nat.lt_succ_iff_lt_or_eq.mp inside with earlier | rfl
    · have whole := header_le_eventLength (nonzero index inside)
      have behind := @eventOffset_add_length_le slots bytes draws index count earlier
      rw [readHeader_writeHeader_disjoint _ _ (.inr (by omega))]
      exact ih (fun event before => nonzero event (by omega)) earlier
    · exact readHeader_writeHeader _ _ _

end Sizes

namespace Generator

variable {slots bytes base id : ℕ} {draws : ℕ → ℕ} {metadata : MetaDataMemory} {data : Memory}

/-- The records of the first `count` events. -/
def writtenMetadata (slots bytes : ℕ) (draws : ℕ → ℕ) (metadata : MetaDataMemory) (count : ℕ) :
    MetaDataMemory := fun slot =>
  if slot < count then
    ⟨slot, eventLength slots bytes draws slot, eventOffset slots bytes draws slot⟩
  else metadata slot

/-- The state of the loop before event `index`, while both cursors have not wrapped. -/
def layoutBefore (slots bytes base id : ℕ) (draws : ℕ → ℕ) (metadata : MetaDataMemory)
    (data : Memory) (index : ℕ) : LayoutState where
  metadataBuffer := ⟨0, slots, 0, index⟩
  dataBuffer := ⟨base, base + bytes, base, base + eventOffset slots bytes draws index⟩
  eventsCounter := index
  offset := eventOffset slots bytes draws index
  metadata := writtenMetadata slots bytes draws metadata index
  data := writtenHeaders slots bytes draws base id data index

/-- The state after the last event, whose space is not reserved. -/
def layoutEnd (slots bytes base id : ℕ) (draws : ℕ → ℕ) (metadata : MetaDataMemory)
    (data : Memory) (last : ℕ) : LayoutState where
  metadataBuffer := ⟨0, slots, 0, last⟩
  dataBuffer := ⟨base, base + bytes, base, base + eventOffset slots bytes draws last⟩
  eventsCounter := last + 1
  offset := eventOffset slots bytes draws (last + 1) % bytes
  metadata := writtenMetadata slots bytes draws metadata (last + 1)
  data := writtenHeaders slots bytes draws base id data (last + 1)

@[simp] theorem writtenMetadata_zero : writtenMetadata slots bytes draws metadata 0 = metadata := by
  funext slot
  simp [writtenMetadata]

theorem writtenMetadata_succ (index : ℕ) :
    Function.update (writtenMetadata slots bytes draws metadata index) index
      ⟨index, eventLength slots bytes draws index, eventOffset slots bytes draws index⟩ =
      writtenMetadata slots bytes draws metadata (index + 1) := by
  funext slot
  by_cases same : slot = index
  · subst same
    simp [writtenMetadata]
  · have : slot < index + 1 ↔ slot < index := by omega
    simp [writtenMetadata, same, this]

/-- A ring that was only written, and not up to its end, is as full as its cursor says. -/
theorem ready_of_unread {first count size : ℕ} (unwrapped : count < size) :
    Buffer.ready ⟨first, first + size, first, first + count⟩ = count := by
  simp only [Buffer.ready, Buffer.size]
  rw [show first + size - first + (first + count) - first = count + size by omega,
    show first + size - first = size by omega, Nat.add_mod_right, Nat.mod_eq_of_lt unwrapped]

theorem available_of_unread {first count size : ℕ} (unwrapped : count < size) :
    Buffer.available ⟨first, first + size, first, first + count⟩ = size - count := by
  rw [Buffer.available, ready_of_unread unwrapped]
  simp [Buffer.size]

theorem reserve_of_unread {first count size n : ℕ} (unwrapped : count + n < size) :
    Buffer.reserve ⟨first, first + size, first, first + count⟩ n =
      .ok ⟨first, first + size, first, first + (count + n)⟩ := by
  have room : Buffer.available ⟨first, first + size, first, first + count⟩ > n := by
    rw [available_of_unread (by omega)]
    omega
  simp [Buffer.reserve_of room, Buffer.size, Nat.mod_eq_of_lt unwrapped]

theorem release_of_unread {first count size : ℕ} (unwrapped : count < size) :
    Buffer.release ⟨first, first + size, first, first + count⟩ count =
      .ok ⟨first, first + size, first + count, first + count⟩ := by
  have filled : Buffer.ready ⟨first, first + size, first, first + count⟩ ≥ count :=
    (ready_of_unread unwrapped).ge
  simp [Buffer.release_of filled, Buffer.size, Nat.mod_eq_of_lt unwrapped]

theorem ready_of_equal {first count size : ℕ} :
    Buffer.ready ⟨first, first + size, first + count, first + count⟩ = 0 := by
  simp [Buffer.ready, Buffer.size]

theorem layoutBefore_zero : layoutBefore slots bytes base id draws metadata data 0 =
    ⟨⟨0, slots, 0, 0⟩, ⟨base, base + bytes, base, base⟩, 0, 0, metadata, data⟩ := by
  simp [layoutBefore, writtenHeaders, eventOffset]

/-- What a turn does with the next record and the next bytes, before the data are reserved. -/
theorem layoutEvent_before (aligned : base % 8 = 0) {index : ℕ} (inside : index < slots)
    (below : eventOffset slots bytes draws index < bytes) :
    layoutEvent id (draws index) (layoutBefore slots bytes base id draws metadata data index) =
      if index + 1 < slots then do
        let dataBuffer ← Buffer.reserve
          ⟨base, base + bytes, base, base + eventOffset slots bytes draws index⟩
          (eventLength slots bytes draws index)
        return (⟨⟨0, slots, 0, index + 1⟩, dataBuffer, index + 1,
          (eventOffset slots bytes draws index + eventLength slots bytes draws index) % bytes,
          writtenMetadata slots bytes draws metadata (index + 1),
          writtenHeaders slots bytes draws base id data (index + 1)⟩, true)
      else .ok (layoutEnd slots bytes base id draws metadata data index, false) := by
  have headerAligned : (base + eventOffset slots bytes draws index) % 8 = 0 := by
    rw [Nat.add_mod, aligned, eventOffset_mod]
  have slotsLeft := @available_of_unread 0 index slots inside
  have bytesLeft := @available_of_unread base _ bytes below
  have sized : (if bytes - eventOffset slots bytes draws index <
      sizeofEventHeader + draws index - (sizeofEventHeader + draws index) % dataPadding +
        (slots - index - 1) * sizeofEventHeader then sizeofEventHeader
      else sizeofEventHeader + draws index - (sizeofEventHeader + draws index) % dataPadding) =
        eventLength slots bytes draws index := by
    rw [eventLength, fittedSize, Nat.sub_right_comm]
    rfl
  have bytesSize : ∀ nextWrite, Buffer.size ⟨base, base + bytes, base, nextWrite⟩ = bytes := by
    simp [Buffer.size]
  simp only [Nat.zero_add] at slotsLeft
  simp only [layoutEvent, layoutBefore, slotsLeft, bytesLeft, sized, pointerCast_of headerAligned,
    ok_bind, bytesSize, writtenMetadata_succ]
  by_cases more : index + 1 < slots
  · have slotReserved := @reserve_of_unread 0 index slots 1 more
    simp only [Nat.zero_add] at slotReserved
    have notLast : slots - index ≠ 1 := by omega
    rw [if_pos notLast, if_pos more, slotReserved, ok_bind, decide_eq_true notLast]
    rfl
  · have isLast : slots - index = 1 := by omega
    rw [if_neg (not_not.mpr isLast), if_neg more, decide_eq_false (not_not.mpr isLast)]
    rfl

section Loop

variable (aligned : base % 8 = 0)

include aligned

/-- Every event but the last reserves its record and its bytes. -/
theorem layoutEvent_eq {index : ℕ} (inside : index < slots)
    (below : eventOffset slots bytes draws index < bytes)
    (nextBelow : index + 1 < slots → eventOffset slots bytes draws (index + 1) < bytes) :
    layoutEvent id (draws index) (layoutBefore slots bytes base id draws metadata data index) =
      .ok (if index + 1 < slots then
          (layoutBefore slots bytes base id draws metadata data (index + 1), true)
        else (layoutEnd slots bytes base id draws metadata data index, false)) := by
  rw [layoutEvent_before aligned inside below]
  by_cases more : index + 1 < slots
  · have next := nextBelow more
    rw [eventOffset_succ] at next
    rw [if_pos more, if_pos more, reserve_of_unread next, ok_bind, Nat.mod_eq_of_lt next]
    rfl
  · rw [if_neg more, if_neg more]

/-- The loop goes on only if the next event begins inside as well. -/
theorem layoutEvent_eq_ok {index : ℕ} {result : LayoutState × Bool} (more : index + 1 < slots)
    (below : eventOffset slots bytes draws index < bytes)
    (h : layoutEvent id (draws index) (layoutBefore slots bytes base id draws metadata data index) =
      .ok result) : eventOffset slots bytes draws (index + 1) < bytes := by
  rw [layoutEvent_before aligned (by omega) below, if_pos more] at h
  obtain ⟨dataBuffer, reserved, _⟩ := bind_eq_ok.mp h
  obtain ⟨_, room, _⟩ := bind_eq_ok.mp reserved
  have room := assertThat_eq_ok.mp room
  rw [available_of_unread below] at room
  rw [eventOffset_succ]
  omega

theorem layoutLoop_eq {index fuel : ℕ} (inside : index < slots) (enough : slots ≤ index + fuel)
    (begins : eventOffset slots bytes draws (slots - 1) < bytes) :
    layoutLoop id draws fuel (layoutBefore slots bytes base id draws metadata data index) =
      .ok (layoutEnd slots bytes base id draws metadata data (slots - 1)) := by
  induction fuel generalizing index with
  | zero => omega
  | succ fuel ih =>
    have below : ∀ event < slots, eventOffset slots bytes draws event < bytes := fun event before =>
      (eventOffset_mono (by omega)).trans_lt begins
    have event := @layoutEvent_eq slots bytes base id draws metadata data aligned index inside
      (below index inside) (below (index + 1))
    have counter : (layoutBefore slots bytes base id draws metadata data index).eventsCounter =
      index := rfl
    rw [layoutLoop, counter, event, ok_bind]
    by_cases more : index + 1 < slots
    · simp only [if_pos more]
      exact ih more (by omega)
    · obtain rfl : index = slots - 1 := by omega
      simp only [if_neg more]
      rfl

/-- A loop that ends has found room for the begin of every event. -/
theorem layoutLoop_eq_ok {index fuel : ℕ} {s : LayoutState} (inside : index < slots)
    (below : eventOffset slots bytes draws index < bytes)
    (h : layoutLoop id draws fuel (layoutBefore slots bytes base id draws metadata data index) =
      .ok s) : eventOffset slots bytes draws (slots - 1) < bytes := by
  induction fuel generalizing index with
  | zero => cases h
  | succ fuel ih =>
    obtain ⟨result, event, rest⟩ := bind_eq_ok.mp h
    by_cases more : index + 1 < slots
    · have nextBelow := layoutEvent_eq_ok aligned more below event
      have known := @layoutEvent_eq slots bytes base id draws metadata data aligned index inside
        below fun _ => nextBelow
      rw [if_pos more] at known
      obtain rfl := Except.ok.inj (known.symm.trans event)
      exact ih more nextBelow rest
    · obtain rfl : index = slots - 1 := by omega
      exact below

end Loop

/-- The constructor ends, with every slot laid out and both rings given back. -/
theorem construct_of_begins (positive : 0 < slots)
    (begins : eventOffset slots bytes draws (slots - 1) < bytes) (aligned : base % 8 = 0)
    (padded : bytes % dataPadding = 0) :
    construct draws ⟨0, slots⟩ ⟨base, base + bytes⟩ id metadata data =
      .ok ⟨⟨⟨0, slots, slots - 1, slots - 1⟩, id⟩,
        writtenMetadata slots bytes draws metadata slots,
        writtenHeaders slots bytes draws base id data slots⟩ := by
  have bytesPositive : base < base + bytes := by omega
  have ran := @layoutLoop_eq slots bytes base id draws metadata data aligned 0 slots positive
    (Nat.le_add_left slots 0) begins
  rw [layoutBefore_zero] at ran
  have size : Buffer.size ⟨base, base + bytes, base, base⟩ = bytes := by simp [Buffer.size]
  have slotsReady := @ready_of_unread 0 (slots - 1) slots (by omega)
  have slotsReleased := @release_of_unread 0 (slots - 1) slots (by omega)
  have slotsEmpty := @ready_of_equal 0 (slots - 1) slots
  simp only [Nat.zero_add] at slotsReady slotsReleased slotsEmpty
  have bytesReady := @ready_of_unread base _ bytes begins
  have bytesReleased := @release_of_unread base _ bytes begins
  have bytesEmpty := @ready_of_equal base (eventOffset slots bytes draws (slots - 1)) bytes
  simp only [construct, Buffer.construct, assertThat_of positive, assertThat_of bytesPositive,
    assertThat_of (show dataPadding ≥ sizeofEventHeader by decide), ok_bind, pure_bind, size,
    assertThat_of padded]
  rw [show Buffer.size ⟨0, slots, 0, 0⟩ = slots from rfl, ran, ok_bind]
  simp only [layoutEnd, slotsReady, slotsReleased, bytesReady, bytesReleased, ok_bind,
    assertThat_of (And.intro slotsEmpty bytesEmpty), Nat.sub_add_cancel positive]
  rfl

/-- With room for a header per slot, the constructor ends for every sequence of draws. -/
theorem construct_eq (positive : 0 < slots) (fits : slots * sizeofEventHeader ≤ bytes)
    (aligned : base % 8 = 0) (padded : bytes % dataPadding = 0) :
    construct draws ⟨0, slots⟩ ⟨base, base + bytes⟩ id metadata data =
      .ok ⟨⟨⟨0, slots, slots - 1, slots - 1⟩, id⟩,
        writtenMetadata slots bytes draws metadata slots,
        writtenHeaders slots bytes draws base id data slots⟩ :=
  construct_of_begins positive (eventOffset_lt fits (Nat.sub_lt positive Nat.one_pos)) aligned
    padded

theorem layoutEvent_aligned {draw : ℕ} {s : LayoutState} {result : LayoutState × Bool}
    (h : layoutEvent id draw s = .ok result) : s.dataBuffer.mNextWrite % 8 = 0 := by
  obtain ⟨_, cast, _⟩ := bind_eq_ok.mp h
  obtain ⟨_, checked, _⟩ := bind_eq_ok.mp cast
  exact assertThat_eq_ok.mp checked

/-- A constructed generator laid out every slot of its ring, and every event begins inside
the data range. -/
theorem construct_eq_ok {dataRange : Range} {layout : Layout} (positive : 0 < slots)
    (h : construct draws ⟨0, slots⟩ dataRange id metadata data = .ok layout) :
    dataRange.mBegin % 8 = 0 ∧
      eventOffset slots (dataRange.mEnd - dataRange.mBegin) draws (slots - 1) <
        dataRange.mEnd - dataRange.mBegin ∧
      layout = ⟨⟨⟨0, slots, slots - 1, slots - 1⟩, id⟩,
        writtenMetadata slots (dataRange.mEnd - dataRange.mBegin) draws metadata slots,
        writtenHeaders slots (dataRange.mEnd - dataRange.mBegin) draws dataRange.mBegin id data
          slots⟩ := by
  obtain ⟨metadataBuffer, hmetadata, h'⟩ := bind_eq_ok.mp h
  obtain ⟨dataBuffer, hdata, h'⟩ := bind_eq_ok.mp h'
  obtain ⟨_, _, h'⟩ := bind_eq_ok.mp h'
  obtain ⟨_, padding, h'⟩ := bind_eq_ok.mp h'
  obtain ⟨s, ran, _⟩ := bind_eq_ok.mp h'
  obtain ⟨_, _, returned⟩ := bind_eq_ok.mp hmetadata
  cases returned
  obtain ⟨_, nonempty, returned⟩ := bind_eq_ok.mp hdata
  cases returned
  have ordered := assertThat_eq_ok.mp nonempty
  have padded := assertThat_eq_ok.mp padding
  have aligned : dataRange.mBegin % 8 = 0 := by
    rw [show Buffer.size ⟨0, slots, 0, 0⟩ = slots - 1 + 1 from (Nat.sub_add_cancel positive).symm,
      layoutLoop] at ran
    obtain ⟨_, event, _⟩ := bind_eq_ok.mp ran
    exact layoutEvent_aligned event
  obtain ⟨first, last⟩ := dataRange
  obtain ⟨bytes, rfl⟩ : ∃ bytes, last = first + bytes := Nat.exists_eq_add_of_le ordered.le
  simp only [Buffer.size, Nat.add_sub_cancel_left] at *
  rw [← @layoutBefore_zero slots bytes first id draws metadata data] at ran
  have begins := layoutLoop_eq_ok aligned positive (by simpa [eventOffset] using ordered) ran
  exact ⟨aligned, begins,
    Except.ok.inj (h.symm.trans (construct_of_begins positive begins aligned padded))⟩

end Generator

/-- The events of a ring lie one behind the other, from the start of the data. -/
def WellLaid (metadata : MetaDataMemory) (length : ℕ → ℕ) (slots : ℕ) : Prop :=
  ∀ slot < slots, (metadata slot).length = length slot ∧
    (metadata slot).offset = ∑ earlier ∈ Finset.range slot, length earlier

/-- The bytes of the events `first`, ..., `first + count - 1`. -/
def eventsIovec (dataBegin : ℕ) (length : ℕ → ℕ) (first count : ℕ) : Iovec where
  iovBase := dataBegin + ∑ earlier ∈ Finset.range first, length earlier
  iovLen := ∑ event ∈ Finset.range count, length (first + event)

theorem writtenMetadata_wellLaid {slots bytes : ℕ} {draws : ℕ → ℕ} {metadata : MetaDataMemory} :
    WellLaid (Generator.writtenMetadata slots bytes draws metadata slots)
      (eventLength slots bytes draws) slots := by
  intro slot inside
  simp [Generator.writtenMetadata, inside, eventOffset_eq_sum]

theorem Generator.construct_wellLaid {slots id : ℕ} {draws : ℕ → ℕ} {dataRange : Range}
    {metadata : MetaDataMemory} {data : Memory} {layout : Layout} (positive : 0 < slots)
    (built : construct draws ⟨0, slots⟩ dataRange id metadata data = .ok layout) :
    WellLaid layout.metadata (eventLength slots (dataRange.mEnd - dataRange.mBegin) draws)
      slots := by
  rw [(construct_eq_ok positive built).2.2]
  exact writtenMetadata_wellLaid

end Lseb
