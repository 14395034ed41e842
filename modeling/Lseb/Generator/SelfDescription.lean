import Mathlib.Order.CompletePartialOrder
import Mathlib.Order.Interval.Set.Disjoint
import Lseb.Main

/-!
# Headers in the generated data

Whoever receives a multievent only has the headers in the data to tell the
events apart. They do as long as no event is laid out with length zero, and
that depends on the drawn payloads alone: below eight bytes, rounding down to
the padding removes the whole event, header included.
-/

namespace Lseb

/-- Hop from header to header by the stored lengths, with the position of each. -/
def hopHeaders (memory : Memory) : ℕ → ℕ → List (ℕ × EventHeader)
  | _, 0 => []
  | p, count + 1 =>
      (p, readHeader memory p) :: hopHeaders memory (p + (readHeader memory p).length) count

/-- The data of a ring of `slots` events can be read back from its headers. -/
structure SelfDescribing (layout : Layout) (slots dataPtr id : ℕ) : Prop where
  whole : ∀ event < slots, sizeofEventHeader ≤ (layout.metadata event).length
  disjoint : ∀ first < slots, ∀ second < slots, first ≠ second → Disjoint
    (Set.Ico (layout.metadata first).offset
      ((layout.metadata first).offset + (layout.metadata first).length))
    (Set.Ico (layout.metadata second).offset
      ((layout.metadata second).offset + (layout.metadata second).length))
  headers : ∀ event < slots, readHeader layout.data (dataPtr + (layout.metadata event).offset) =
    ⟨event, (layout.metadata event).length, id⟩
  hops : hopHeaders layout.data dataPtr slots = (List.range slots).map fun event =>
    (dataPtr + (layout.metadata event).offset, ⟨event, (layout.metadata event).length, id⟩)

section Lengths

variable {slots bytes base id : ℕ} {draws : ℕ → ℕ} {metadata : MetaDataMemory} {data : Memory}

theorem eventIntervals_disjoint {first second : ℕ} (differ : first ≠ second) : Disjoint
    (Set.Ico (eventOffset slots bytes draws first)
      (eventOffset slots bytes draws first + eventLength slots bytes draws first))
    (Set.Ico (eventOffset slots bytes draws second)
      (eventOffset slots bytes draws second + eventLength slots bytes draws second)) := by
  rcases Nat.lt_or_gt_of_ne differ with before | after
  · exact Set.Ico_disjoint_Ico.mpr (min_le_of_left_le
      ((eventOffset_add_length_le before).trans (le_max_right _ _)))
  · exact Set.Ico_disjoint_Ico.mpr (min_le_of_right_le
      ((eventOffset_add_length_le after).trans (le_max_left _ _)))

theorem hopHeaders_writtenHeaders
    (nonzero : ∀ event < slots, eventLength slots bytes draws event ≠ 0) (count index : ℕ)
    (inside : index + count ≤ slots) :
    hopHeaders (writtenHeaders slots bytes draws base id data slots)
        (base + eventOffset slots bytes draws index) count =
      (List.range' index count).map fun event =>
        (base + eventOffset slots bytes draws event,
          ⟨event, eventLength slots bytes draws event, id⟩) := by
  induction count generalizing index with
  | zero => rfl
  | succ count ih =>
    rw [hopHeaders, readHeader_writtenHeaders nonzero (by omega), add_assoc, ← eventOffset_succ,
      ih (index + 1) (by omega), List.range'_succ, List.map_cons]

end Lengths

namespace Configuration

variable {c : Configuration} {draws : ℕ → ℕ} {dataPtr id : ℕ} {metadata : MetaDataMemory}
  {data : Memory} {layout : Layout}

/-- The generated data is self-describing exactly when no drawn payload is
shorter than the eight bytes that bring its event up to the padding. -/
theorem selfDescribing_iff (built : c.generator draws dataPtr id metadata data = .ok layout) :
    SelfDescribing layout c.slots dataPtr id ↔ ∀ event < c.slots, 8 ≤ draws event := by
  obtain ⟨_, closed⟩ := generator_eq_ok built
  have record : ∀ event < c.slots, layout.metadata event =
      ⟨event, eventLength c.slots c.dataSize draws event,
        eventOffset c.slots c.dataSize draws event⟩ := by
    intro event inside
    rw [closed]
    exact if_pos inside
  have stored : layout.data =
      writtenHeaders c.slots c.dataSize draws dataPtr id data c.slots := by rw [closed]
  constructor
  · intro describing event inside
    have whole := describing.whole event inside
    have vanished := (@eventLength_eq_zero_iff _ _ draws fits event inside).not
    rw [record event inside] at whole
    simp only [sizeofEventHeader] at whole
    omega
  · intro long
    have nonzero : ∀ event < c.slots, eventLength c.slots c.dataSize draws event ≠ 0 := by
      intro event inside zero
      have := (eventLength_eq_zero_iff fits inside).mp zero
      have := long event inside
      omega
    refine ⟨?_, ?_, ?_, ?_⟩
    · intro event inside
      rw [record event inside]
      exact header_le_eventLength (nonzero event inside)
    · intro first firstInside second secondInside differ
      rw [record first firstInside, record second secondInside]
      exact eventIntervals_disjoint differ
    · intro event inside
      rw [record event inside, stored]
      exact readHeader_writtenHeaders nonzero inside
    · have hopped := @hopHeaders_writtenHeaders c.slots c.dataSize dataPtr id draws data nonzero
        c.slots 0 (by omega)
      rw [eventOffset, Nat.add_zero, ← List.range_eq_range'] at hopped
      rw [stored, hopped]
      apply List.map_congr_left
      intro event member
      rw [record event (List.mem_range.mp member)]

/-- Three events of at most 96 bytes, with normally distributed payloads. -/
def spread : Configuration where
  maxFragmentSize := 96
  bulkSize := 1
  credits := 1
  generatorFrequency := 1
  mean := 40
  stddev := 20
  maxFragmentSize_pos := by decide
  maxFragmentSize_mod := by decide
  bulkSize_pos := Nat.one_pos
  credits_pos := Nat.one_pos
  generatorFrequency_pos := Nat.one_pos
  mean_pos := by decide

theorem spread_draws {draws : ℕ → ℕ} (bounded : ∀ call, draws call ≤ 72) : spread.Draws draws :=
  ⟨⟨40, 20, 72, 0⟩, rfl, LengthGenerator.returns_of_bounds (by decide) fun call =>
    ⟨Nat.zero_le _, bounded call⟩⟩

theorem spread_generator (draws : ℕ → ℕ) : ∃ layout,
    spread.generator draws 0 0 (fun _ => ⟨0, 0, 0⟩) (fun _ => 0) = .ok layout :=
  generator_total (by decide) (by decide) draws 0 _ _

theorem selfDescribing_iff_spread : ∃ layout,
    spread.generator (fun _ => 40) 0 0 (fun _ => ⟨0, 0, 0⟩) (fun _ => 0) = .ok layout ∧
      SelfDescribing layout 3 0 0 :=
  have ⟨layout, built⟩ := spread_generator fun _ => 40
  ⟨layout, built, (selfDescribing_iff built).mpr fun _ _ => by decide⟩

/-- One payload of five bytes, and the first event is gone. -/
theorem not_selfDescribing_shortPayload : ¬∀ (c : Configuration) (draws : ℕ → ℕ) (dataPtr id : ℕ)
    (metadata : MetaDataMemory) (data : Memory) (layout : Layout), c.Draws draws →
    c.generator draws dataPtr id metadata data = .ok layout →
    SelfDescribing layout c.slots dataPtr id := by
  intro always
  have bounded : ∀ call, (if call = 0 then 5 else 40) ≤ 72 := by
    intro call
    split_ifs <;> decide
  obtain ⟨layout, built⟩ := spread_generator fun call => if call = 0 then 5 else 40
  have describing := always _ _ _ _ _ _ _ (spread_draws bounded) built
  obtain ⟨_, rfl⟩ := generator_eq_ok built
  exact absurd (describing.whole 0 (by decide)) (by decide)

end Configuration

end Lseb
