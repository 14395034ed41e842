import Mathlib.Tactic.IntervalCases
import Lseb.Bu.Phases

/-!
# What is released unchecked

The check looks at the first round, and the release takes as many rounds as all
connections have. So what is built was checked exactly if the first round is
bad, and nothing is built, or all the later ones happen to be good.
-/

namespace Lseb

open Foundation

namespace BuilderUnit

variable {t : Transport} {input : BuilderInput} {bu bu₁ : BuilderUnit} {minWrs : ℕ}

/-- After the reading phase ended in `bu₁`, with `minWrs` rounds on all
connections: released rounds are good, and in front of a bad round the
iteration fails without releasing entries from that round on. -/
structure ReleasesChecked (t : Transport) (input : BuilderInput) (bu bu₁ : BuilderUnit)
    (minWrs : ℕ) : Prop where
  good : ∀ report bu', iteration t input bu = .ok report bu' →
    ∀ round < report.rounds, RoundGood input.memory bu₁.mDataVect bu₁.nodes round
  held : ∀ round < minWrs, ¬RoundGood input.memory bu₁.mDataVect bu₁.nodes round →
    ∃ e bu', iteration t input bu = .error e bu' ∧
      ∀ i < bu₁.nodes, ∃ released ≤ round, bu'.mDataVect i = (bu₁.mDataVect i).drop released

section Phases

variable (reads : acquire t input.completions bu.mCredits (List.range bu.connections) bu =
  .ok minWrs bu₁)

include reads

theorem iteration_of_acquire : iteration t input bu =
    (build t input.memory input.refused minWrs >>= fun _ =>
      pure ⟨bu₁.mDataVect, minWrs⟩ : BuilderM BuilderReport) bu₁ := by
  rw [iteration, estate_get_bind, bind_of_ok reads, estate_get_bind]

theorem iteration_rounds {report : BuilderReport} {bu' : BuilderUnit}
    (turned : iteration t input bu = .ok report bu') : report = ⟨bu₁.mDataVect, minWrs⟩ := by
  rw [iteration_of_acquire reads] at turned
  obtain ⟨_, _, _, returned⟩ := estate_bind_eq_ok.mp turned
  cases returned
  rfl

/-- Without a good first round, the check fails and everything stays where it is. -/
theorem iteration_of_bad_front (connected : bu.connections = bu.nodes) (some : 0 < bu.nodes)
    (rounds : minWrs ≠ 0) (bad : ¬RoundGood input.memory bu₁.mDataVect bu₁.nodes 0) :
    ∃ e, iteration t input bu = .error e bu₁ := by
  have sizes := acquire_connections List.nodup_range reads
  rw [iteration_of_acquire reads, build, if_pos rounds]
  cases checked : checkData input.memory bu₁ with
  | error e =>
    refine ⟨e, bind_of_error ?_⟩
    rw [estate_get_bind]
    exact bind_of_error (attempt_eq_error.mpr ⟨checked, rfl⟩)
  | ok passed =>
    cases passed with
    | true => exact absurd ((checkData_eq_ok (by omega)).mp checked) bad
    | false =>
      refine ⟨.runtimeError "Error checking data", bind_of_error ?_⟩
      rw [estate_get_bind, bind_of_ok (attempt_eq_ok.mpr ⟨checked, rfl⟩)]
      rfl

/-- With a good first round, the first vector loses `minWrs` entries in any case. -/
theorem iteration_of_good_front (connected : bu.connections = bu.nodes) (some : 0 < bu.nodes)
    (rounds : minWrs ≠ 0) (good : RoundGood input.memory bu₁.mDataVect bu₁.nodes 0) :
    (final (iteration t input bu)).mDataVect 0 = (bu₁.mDataVect 0).drop minWrs := by
  obtain ⟨sameConnections, sameNodes, _⟩ := acquire_connections List.nodup_range reads
  obtain ⟨_, _, _, least⟩ := acquire_eq_ok List.nodup_range reads
  have enough : minWrs ≤ (bu₁.mDataVect 0).length := by
    have last := ((least (minWrs - 1)).mp (by omega)).2 0 (List.mem_range.mpr (by omega))
    omega
  have checked := (@checkData_eq_ok bu₁ input.memory (by omega)).mpr good
  obtain ⟨rest, split⟩ : ∃ rest, bu₁.connections = rest + 1 :=
    Nat.exists_eq_succ_of_ne_zero (by omega)
  have released := @release_first t bu₁ 0 minWrs input.refused ((List.range rest).map Nat.succ)
    enough (by rw [← List.range_succ_eq_map]; exact List.nodup_range)
  have built : build t input.memory input.refused minWrs bu₁ =
      release t input.refused minWrs (0 :: (List.range rest).map Nat.succ) bu₁ := by
    rw [build, if_pos rounds, estate_get_bind,
      bind_of_ok (attempt_eq_ok.mpr ⟨checked, rfl⟩), ← List.range_succ_eq_map, ← split]
    rfl
  rw [iteration_of_acquire reads, ← released, ← built]
  cases ended : build t input.memory input.refused minWrs bu₁ with
  | ok _ bu' => rw [bind_of_ok ended]; rfl
  | error e bu' => rw [bind_of_error ended]; rfl

/-- Behind a good first round, every round is released, whatever it contains. -/
theorem ReleasesChecked.later_good (connected : bu.connections = bu.nodes) (some : 0 < bu.nodes)
    (property : ReleasesChecked t input bu bu₁ minWrs)
    (front : RoundGood input.memory bu₁.mDataVect bu.nodes 0) {round : ℕ}
    (below : round < bu.mCredits) (everywhere : ∀ i < bu.nodes, round < (bu₁.mDataVect i).length) :
    RoundGood input.memory bu₁.mDataVect bu.nodes round := by
  obtain ⟨_, sameNodes, _⟩ := acquire_connections List.nodup_range reads
  obtain ⟨_, _, _, least⟩ := acquire_eq_ok List.nodup_range reads
  have within : round < minWrs :=
    (least round).mpr ⟨below, fun i inside => everywhere i (by
      rw [← connected]
      exact List.mem_range.mp inside)⟩
  rw [← sameNodes] at front ⊢
  by_contra bad
  have dropped := iteration_of_good_front reads connected some (by omega) front
  obtain ⟨e, bu', failed, released⟩ := property.held round within bad
  obtain ⟨count, bound, kept⟩ := released 0 (by omega)
  rw [failed] at dropped
  have lengths := congrArg List.length (kept.symm.trans dropped)
  have long := everywhere 0 some
  simp only [List.length_drop] at lengths
  omega

theorem releasesChecked_of_good
    (good : ∀ round < minWrs, RoundGood input.memory bu₁.mDataVect bu₁.nodes round) :
    ReleasesChecked t input bu bu₁ minWrs := by
  refine ⟨?_, fun round within bad => absurd (good round within) bad⟩
  intro report bu' turned round within
  rw [iteration_rounds reads turned] at within
  exact good round within

theorem releasesChecked_of_bad_front (connected : bu.connections = bu.nodes) (some : 0 < bu.nodes)
    (front : ¬RoundGood input.memory bu₁.mDataVect bu₁.nodes 0) :
    ReleasesChecked t input bu bu₁ minWrs := by
  refine ⟨?_, ?_⟩
  · intro report bu' turned round within
    rw [iteration_rounds reads turned] at within
    obtain ⟨e, failed⟩ := iteration_of_bad_front reads connected some
      (Nat.ne_zero_of_lt within) front
    rw [failed] at turned
    cases turned
  · intro round within _
    obtain ⟨e, failed⟩ := iteration_of_bad_front reads connected some
      (Nat.ne_zero_of_lt within) front
    exact ⟨e, bu₁, failed, fun i _ => ⟨0, Nat.zero_le _, rfl⟩⟩

/-- Nothing is released unchecked exactly if the first round is bad or every
later round that all connections have got is good. -/
theorem releasesChecked_iff (connected : bu.connections = bu.nodes) (some : 0 < bu.nodes) :
    ReleasesChecked t input bu bu₁ minWrs ↔
      ¬RoundGood input.memory bu₁.mDataVect bu.nodes 0 ∨
      ∀ round, 0 < round → round < bu.mCredits →
        (∀ i < bu.nodes, round < (bu₁.mDataVect i).length) →
        RoundGood input.memory bu₁.mDataVect bu.nodes round := by
  obtain ⟨_, sameNodes, _⟩ := acquire_connections List.nodup_range reads
  obtain ⟨_, _, _, least⟩ := acquire_eq_ok List.nodup_range reads
  constructor
  · intro property
    by_cases front : RoundGood input.memory bu₁.mDataVect bu.nodes 0
    · exact .inr fun round _ => property.later_good reads connected some front
    · exact .inl front
  · rintro (front | later)
    · exact releasesChecked_of_bad_front reads connected some (by rwa [sameNodes])
    · by_cases front : RoundGood input.memory bu₁.mDataVect bu₁.nodes 0
      · apply releasesChecked_of_good reads
        intro round within
        obtain ⟨below, everywhere⟩ := (least round).mp within
        rcases Nat.eq_zero_or_pos round with rfl | positive
        · exact front
        · rw [sameNodes]
          exact later round positive below fun i inside => everywhere i (by
            rw [connected]
            exact List.mem_range.mpr inside)
      · exact releasesChecked_of_bad_front reads connected some front

end Phases

/-- Two connections with two chunks each, all of them received. -/
def twoRounds : BuilderUnit where
  mConnectionIds := fun i => ⟨[⟨i * 96, i * 96 + 96⟩], 2, ∅, ∅⟩
  connections := 2
  mDataVect := fun i => [⟨i * 96, 48⟩, ⟨i * 96 + 48, 48⟩]
  nodes := 2
  mBulkSize := 1
  mCredits := 2
  mMaxFragmentSize := 48
  mDataPtr := 0

/-- Event 3 and then events with the given ids on the two connections. -/
def roundsMemory (first second : ℕ) : Memory :=
  writeHeader (writeHeader (writeHeader (writeHeader (fun _ => 0) 0 ⟨3, 48, 0⟩) 48 ⟨first, 48, 0⟩)
    96 ⟨3, 48, 1⟩) 144 ⟨second, 48, 1⟩

def roundsInput (first second : ℕ) : BuilderInput :=
  ⟨fun _ => .again, roundsMemory first second, fun _ _ => none⟩

theorem twoRounds_acquire : ∃ bu₁, acquire .verbs (fun _ => .again) 2 (List.range 2) twoRounds =
    .ok 2 bu₁ ∧ bu₁.mDataVect = twoRounds.mDataVect :=
  ⟨_, rfl, rfl⟩

theorem roundGood_first (first second : ℕ) :
    RoundGood (roundsMemory first second) twoRounds.mDataVect 2 0 := by
  refine ⟨3, fun i inside => ⟨⟨i * 96, 48⟩, rfl, ?_⟩⟩
  interval_cases i <;> simp [roundsMemory, readHeader, writeHeader]

theorem releasesChecked_iff_same : ∃ bu₁,
    acquire .verbs (fun _ => .again) 2 (List.range 2) twoRounds = .ok 2 bu₁ ∧
      ReleasesChecked .verbs (roundsInput 4 4) twoRounds bu₁ 2 := by
  obtain ⟨bu₁, reads, same⟩ := twoRounds_acquire
  refine ⟨bu₁, reads, (releasesChecked_iff reads rfl (by decide)).mpr (.inr ?_)⟩
  intro round positive below _
  have below : round < 2 := below
  obtain rfl : round = 1 := by omega
  rw [same]
  refine ⟨4, fun i inside => ⟨⟨i * 96 + 48, 48⟩, rfl, ?_⟩⟩
  have inside : i < 2 := inside
  interval_cases i <;> simp [roundsInput, roundsMemory, readHeader, writeHeader]

/-- The second round has events 4 and 5, and is released with the first. -/
theorem not_releasesChecked : ¬∀ (t : Transport) (input : BuilderInput) (bu bu₁ : BuilderUnit)
    (minWrs : ℕ), bu.connections = bu.nodes → 0 < bu.nodes →
    acquire t input.completions bu.mCredits (List.range bu.connections) bu = .ok minWrs bu₁ →
    ReleasesChecked t input bu bu₁ minWrs := by
  intro always
  obtain ⟨bu₁, reads, same⟩ := twoRounds_acquire
  have property := always .verbs (roundsInput 4 5) twoRounds bu₁ 2 rfl (by decide) reads
  have good := property.later_good reads rfl (by decide)
    (by rw [same]; exact roundGood_first 4 5) one_lt_two fun i _ => by rw [same]; exact one_lt_two
  rw [same] at good
  obtain ⟨evtId, entries⟩ := good
  obtain ⟨_, ⟨⟩, _, first, _⟩ := entries 0 (by decide)
  obtain ⟨_, ⟨⟩, _, second, _⟩ := entries 1 (by decide)
  exact absurd (first.trans second.symm) (by decide)

end BuilderUnit

end Lseb
