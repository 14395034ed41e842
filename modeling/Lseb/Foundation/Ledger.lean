import Mathlib.Data.Multiset.Count

/-!
# Ledgers of acquired and released resources

A ledger records, oldest first, which resources were acquired and which
handles were released, rightly or not. As long as every release is right, it
determines a multiset of resources still to be released, and it is settled
when that is empty. A release that is not right can never be made good.
-/

namespace Foundation

universe u

inductive LedgerEntry (Resource : Type u) where
  | acquire (resource : Resource)
  | release (resource : Resource)
  deriving DecidableEq, Repr

open LedgerEntry

variable {Resource : Type u} {log more : List (LedgerEntry Resource)}
  {held : Multiset Resource} {resource : Resource}

/-- Some release is of a resource that was not acquired before, or already released. -/
def Stray (log : List (LedgerEntry Resource)) : Prop :=
  ∃ before resource after, log = before ++ release resource :: after ∧
    (acquire resource ∉ before ∨ release resource ∈ before)

theorem Stray.append (stray : Stray log) (more : List (LedgerEntry Resource)) :
    Stray (log ++ more) := by
  obtain ⟨before, resource, after, rfl, wrong⟩ := stray
  exact ⟨before, resource, after ++ more, by simp, wrong⟩

theorem Stray.of_release (wrong : acquire resource ∉ log ∨ release resource ∈ log) :
    Stray (log ++ [release resource]) :=
  ⟨log, resource, [], rfl, wrong⟩

/-- No release so far is a stray one, and `held` is what is still to be released. -/
inductive Holding : List (LedgerEntry Resource) → Multiset Resource → Prop where
  | start : Holding [] 0
  | acquired {log : List (LedgerEntry Resource)} {held : Multiset Resource} {resource : Resource} :
      Holding log held → acquire resource ∉ log →
      Holding (log ++ [acquire resource]) (resource ::ₘ held)
  | released {log : List (LedgerEntry Resource)} {held : Multiset Resource} {resource : Resource} :
      Holding log (resource ::ₘ held) → Holding (log ++ [release resource]) held

variable [DecidableEq Resource]

/-- Every resource acquired is released once, and nothing else is. -/
structure ReleasedOnce (log : List (LedgerEntry Resource)) : Prop where
  once : ∀ resource, acquire resource ∈ log → log.count (release resource) = 1
  right : ∀ before resource after, log = before ++ release resource :: after →
    acquire resource ∈ before ∧ release resource ∉ before

theorem ReleasedOnce.not_stray (settled : ReleasedOnce log) : ¬Stray log := by
  rintro ⟨before, resource, after, split, wrong⟩
  obtain ⟨acquired, unreleased⟩ := settled.right before resource after split
  exact wrong.elim (fun absent => absent acquired) fun present => unreleased present

namespace Holding

/-- What was acquired is held or was released, but only once. -/
theorem count_eq (holding : Holding log held) (resource : Resource) :
    held.count resource + log.count (release resource) = log.count (acquire resource) ∧
      log.count (acquire resource) ≤ 1 := by
  induction holding with
  | start => simp
  | @acquired log held other _ fresh ih =>
    by_cases same : resource = other
    · subst same
      have absent := List.count_eq_zero.mpr fresh
      simp only [Multiset.count_cons_self, List.count_append, List.count_singleton_self,
        List.count_singleton, reduceCtorEq, beq_iff_eq, if_false]
      omega
    · have differs : acquire other ≠ acquire resource := fun equal =>
        same (LedgerEntry.acquire.inj equal).symm
      simpa [Multiset.count_cons_of_ne same, List.count_singleton, differs] using ih
  | @released log held other _ ih =>
    by_cases same : resource = other
    · subst same
      rw [Multiset.count_cons_self] at ih
      simp only [List.count_append, List.count_singleton_self, List.count_singleton,
        reduceCtorEq, beq_iff_eq, if_false]
      omega
    · have differs : release other ≠ release resource := fun equal =>
        same (LedgerEntry.release.inj equal).symm
      rw [Multiset.count_cons_of_ne same] at ih
      simpa [List.count_singleton, differs] using ih

theorem of_mem (holding : Holding log held) (member : resource ∈ held) :
    acquire resource ∈ log ∧ release resource ∉ log := by
  have counts := holding.count_eq resource
  have positive := Multiset.count_pos.mpr member
  constructor
  · apply List.count_pos_iff.mp
    omega
  · apply List.count_eq_zero.mp
    omega

/-- Every release of the ledger was right when it was made. -/
theorem right (holding : Holding log held) {before after : List (LedgerEntry Resource)}
    (split : log = before ++ release resource :: after) :
    acquire resource ∈ before ∧ release resource ∉ before := by
  induction holding generalizing after with
  | start => simp at split
  | acquired _ _ ih =>
    rcases List.eq_nil_or_concat after with rfl | ⟨rest, last, rfl⟩
    · simp at split
    · rw [List.concat_eq_append, ← List.cons_append, ← List.append_assoc] at split
      exact ih (List.append_inj_left' split rfl)
  | released holding ih =>
    rcases List.eq_nil_or_concat after with rfl | ⟨rest, last, rfl⟩
    · obtain ⟨rfl, same⟩ := List.append_inj' split rfl
      cases same
      exact holding.of_mem (Multiset.mem_cons_self _ _)
    · rw [List.concat_eq_append, ← List.cons_append, ← List.append_assoc] at split
      exact ih (List.append_inj_left' split rfl)

theorem releasedOnce (holding : Holding log 0) : ReleasedOnce log where
  once := by
    intro resource acquired
    have counts := holding.count_eq resource
    have positive := List.count_pos_iff.mpr acquired
    rw [Multiset.count_zero] at counts
    omega
  right := fun _ _ _ => holding.right

end Holding

end Foundation
