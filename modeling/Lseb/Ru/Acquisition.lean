import Lseb.Ru.Multievent
import Lseb.Ru.ReadoutUnit

/-!
# Acquiring multievents over one turn

The acquisition loop moves the books by as many multievents as it returns, at
any readings of the clock; given enough events due, it only stops short when the
ring is full. A reading may fail an assertion, if the clock has run backwards.
-/

namespace Lseb

open Foundation

namespace ReadoutUnit

variable {block blocks dataBegin : ℕ} {length : ℕ → ℕ} {metadata : MetaDataMemory}
  {ledger : Ledger block blocks} {acc : Accumulator} {due : ℕ → ℕ}

/-- What the acquisition loop did, from the books before to the books after. -/
structure Acquired (acc acc' : Accumulator) (ledger ledger' : Ledger block blocks)
    (dataBegin : ℕ) (length : ℕ → ℕ) (fresh : List Iovec) : Prop
    extends acc'.Tracks ledger' dataBegin length where
  released : ledger'.released = ledger.released
  acquired : ledger'.acquired = ledger.acquired + fresh.length
  origin : fresh = (List.range' ledger.acquired fresh.length).map
    (multievent dataBegin length block blocks)
  unmarked : (acc'.mIovMultievents.unmarked : Multiset ℕ) =
    acc.mIovMultievents.unmarked + (fresh.map Iovec.iovBase : Multiset ℕ)

/-- Some reading of the clock from `call` on is behind the events generated; that
cannot be if no reading falls behind an earlier one, or all are beyond the ring. -/
structure Behind (due : ℕ → ℕ) (call : ℕ) (ledger : Ledger block blocks) : Prop where
  first : Monotone due → due call < ledger.generated
  within : ∃ later, due later < ledger.released * block + block * blocks

/-- The loop returns, unless the clock is behind. -/
theorem acquire_tracks (laid : WellLaid metadata length (block * blocks)) (positive : 0 < block)
    {turns call : ℕ} (tracks : acc.Tracks ledger dataBegin length) :
    acquire (accumulatorSource metadata) due turns call acc = .error Controller.clockBehind ∧
        Behind due call ledger ∨
      ∃ fresh acc', ∃ ledger' : Ledger block blocks,
        acquire (accumulatorSource metadata) due turns call acc = .ok (fresh, acc') ∧
        Acquired acc acc' ledger ledger' dataBegin length fresh ∧
        ((∀ later, (ledger.acquired + turns) * block ≤ due later) →
          fresh.length = min turns (ledger.released + blocks - 1 - ledger.acquired)) := by
  induction turns generalizing call acc ledger with
  | zero => exact .inr ⟨[], acc, ledger, rfl, ⟨tracks, rfl, rfl, rfl, by simp⟩, by simp⟩
  | succ turns ih =>
    rcases tracks.toAccounts.getMultievent_reading metadata (due call) with
      ⟨failed, _, behind⟩ | effective
    · refine .inl ⟨bind_eq_error.mpr (.inl failed), fun _ => behind, call, ?_⟩
      exact behind.trans ledger.bounded
    obtain ⟨acc₁, got, tracks₁, unmarked⟩ :=
      tracks.getMultievent laid positive (le_max_right (due call) ledger.generated)
    rw [← effective] at got
    have generated := Ledger.read_generated_le (le_max_right (due call) ledger.generated)
    generalize hreading : max (due call) ledger.generated = reading at *
    by_cases ready : (ledger.acquired + 1) * block ≤ (ledger.read reading).generated
    · have returned : ledger.returned dataBegin length reading =
          some (multievent dataBegin length block blocks ledger.acquired) := if_pos ready
      have moved : ledger.get reading = (ledger.read reading).acquire ready := dif_pos ready
      rw [returned] at got unmarked
      rw [moved] at tracks₁
      rcases @ih _ acc₁ (call + 1) tracks₁ with
        ⟨failed, behind⟩ | ⟨rest, acc₂, ledger₂, hrest, after, count⟩
      · refine .inl ⟨bind_eq_error.mpr (.inr ⟨_, got, bind_eq_error.mpr (.inl failed)⟩), ?_,
          behind.within⟩
        intro mono
        have later : due call ≤ due (call + 1) := mono (Nat.le_succ call)
        have first := behind.first mono
        simp only [Ledger.acquire] at first
        omega
      · refine .inr ⟨multievent dataBegin length block blocks ledger.acquired :: rest, acc₂,
          ledger₂, ?_, ⟨after.toTracks, after.released, ?_, ?_, ?_⟩, ?_⟩
        · exact bind_eq_ok.mpr ⟨_, got, bind_eq_ok.mpr ⟨_, hrest, rfl⟩⟩
        · rw [after.acquired, List.length_cons]
          simp only [Ledger.acquire, Ledger.read]
          omega
        · rw [List.length_cons, List.range'_succ, List.map_cons]
          congr 1
          exact after.origin
        · rw [after.unmarked, unmarked, add_assoc, Multiset.coe_add]
          rfl
        · intro enough
          have now : (ledger.acquired + 1) * block ≤ reading :=
            (Nat.mul_le_mul_right _ (by omega)).trans ((enough call).trans (by omega))
          have room := (Ledger.acquire_iff positive now).mp ready
          have rest_count := count (by
            intro later
            simp only [Ledger.acquire, Ledger.read]
            rw [show ledger.acquired + 1 + turns = ledger.acquired + (turns + 1) by omega]
            exact enough later)
          simp only [Ledger.acquire, Ledger.read] at rest_count
          rw [List.length_cons, rest_count]
          omega
    · have returned : ledger.returned dataBegin length reading = none := if_neg ready
      have moved : ledger.get reading = ledger.read reading := dif_neg ready
      rw [returned] at got unmarked
      rw [moved] at tracks₁
      refine .inr ⟨[], acc₁, _, ?_, ⟨tracks₁, rfl, rfl, rfl, by simpa using unmarked⟩, ?_⟩
      · exact bind_eq_ok.mpr ⟨_, got, rfl⟩
      · intro enough
        have now : (ledger.acquired + 1) * block ≤ reading :=
          (Nat.mul_le_mul_right _ (by omega)).trans ((enough call).trans (by omega))
        have full := (Ledger.acquire_iff positive now).not.mp ready
        simp only [List.length_nil]
        omega

/-- What the loop did, if it returned. -/
theorem acquired_of_ok (laid : WellLaid metadata length (block * blocks)) (positive : 0 < block)
    {turns call : ℕ} {fresh : List Iovec} {acc' : Accumulator}
    (tracks : acc.Tracks ledger dataBegin length)
    (h : acquire (accumulatorSource metadata) due turns call acc = .ok (fresh, acc')) :
    ∃ ledger' : Ledger block blocks, Acquired acc acc' ledger ledger' dataBegin length fresh ∧
      ((∀ later, (ledger.acquired + turns) * block ≤ due later) →
        fresh.length = min turns (ledger.released + blocks - 1 - ledger.acquired)) := by
  rcases acquire_tracks laid positive tracks with ⟨failed, _⟩ | ⟨_, _, ledger', returned, acquired⟩
  · cases failed.symm.trans h
  · cases returned.symm.trans h
    exact ⟨ledger', acquired⟩

/-- Releasing the completed multievents of a turn moves the books as well. -/
theorem releaseCompleted_tracks {vect : List ℕ} {acc' : Accumulator}
    (tracks : acc.Tracks ledger dataBegin length)
    (h : releaseCompleted (accumulatorSource metadata) vect acc = .ok acc') :
    ∃ ledger' : Ledger block blocks, acc'.Tracks ledger' dataBegin length ∧
      ledger'.acquired = ledger.acquired ∧ ledger'.generated = ledger.generated ∧
      (vect = [] → ledger'.released = ledger.released) ∧
      (acc.mIovMultievents.unmarked : Multiset ℕ) = vect + acc'.mIovMultievents.unmarked := by
  unfold releaseCompleted at h
  split_ifs at h with some
  · obtain ⟨count, outstanding, tracks', unmarked⟩ := tracks.releaseMultievents h
    exact ⟨ledger.release count outstanding, tracks', rfl, rfl, fun none => absurd none some,
      unmarked⟩
  · obtain rfl := not_not.mp some
    cases h
    exact ⟨ledger, tracks, rfl, rfl, fun _ => rfl, by simp⟩

theorem releaseCompleted_total {vect : List ℕ} (tracks : acc.Tracks ledger dataBegin length)
    (distinct : (ledger.addresses dataBegin length).Nodup)
    (waiting : (vect : Multiset ℕ) ≤ acc.mIovMultievents.unmarked) :
    ∃ acc', releaseCompleted (accumulatorSource metadata) vect acc = .ok acc' := by
  unfold releaseCompleted
  split_ifs
  · exact tracks.releaseMultievents_total distinct waiting
  · exact ⟨acc, rfl⟩

end ReadoutUnit

end Lseb
