import Mathlib.Algebra.Order.Group.Multiset
import Mathlib.Data.List.Induction
import Mathlib.Data.List.Nodup

/-!
# Lists of batches as multisets

When every member of a list contributes a batch, the whole is the multiset of
all batches. It splits as the batches split, and it grows by one element if
one batch does.
-/

namespace Foundation

universe u v

variable {ι : Type u} {α : Type v}

theorem coe_flatMap_add {members : List ι} {whole first second : ι → List α}
    (split : ∀ i ∈ members, (whole i : Multiset α) = first i + second i) :
    (members.flatMap whole : Multiset α) = members.flatMap first + members.flatMap second := by
  induction members with
  | nil => simp
  | cons i rest ih =>
    have here := split i List.mem_cons_self
    have there := ih fun j member => split j (List.mem_cons_of_mem _ member)
    simp only [List.flatMap_cons, ← Multiset.coe_add, here, there]
    exact add_add_add_comm _ _ _ _

theorem coe_flatMap_congr {members : List ι} {first second : ι → List α}
    (same : ∀ i ∈ members, first i = second i) :
    (members.flatMap first : Multiset α) = members.flatMap second :=
  congrArg _ (List.flatMap_congr same)

/-- If one batch grows by an element, so does the whole. -/
theorem coe_flatMap_cons {members : List ι} {before after : ι → List α} {i : ι} {a : α}
    (distinct : members.Nodup) (member : i ∈ members)
    (grown : (after i : Multiset α) = a ::ₘ (before i : Multiset α))
    (others : ∀ j ∈ members, j ≠ i → after j = before j) :
    (members.flatMap after : Multiset α) = a ::ₘ (members.flatMap before : Multiset α) := by
  induction members with
  | nil => simp at member
  | cons j rest ih =>
    obtain ⟨fresh, tail⟩ := List.nodup_cons.mp distinct
    simp only [List.flatMap_cons, ← Multiset.coe_add]
    rcases List.mem_cons.mp member with rfl | later
    · have unchanged : (rest.flatMap after : Multiset α) = rest.flatMap before :=
        coe_flatMap_congr fun k inside => others k (List.mem_cons_of_mem _ inside)
          fun same => fresh (same ▸ inside)
      rw [grown, unchanged, Multiset.cons_add]
    · have here : after j = before j :=
        others j List.mem_cons_self fun same => fresh (same ▸ later)
      rw [here, ih tail later fun k inside => others k (List.mem_cons_of_mem _ inside),
        Multiset.add_cons]

theorem getElem?_append_singleton_of_ne {items : List α} {last : α} {position : ℕ}
    (differs : position ≠ items.length) : (items ++ [last])[position]? = items[position]? := by
  rcases Nat.lt_or_gt_of_ne differs with below | above
  · rw [List.getElem?_append_left below]
  · rw [List.getElem?_eq_none (by rw [List.length_append]; exact above),
      List.getElem?_eq_none above.le]

/-- Positions without repetition collect no more than the list has. -/
theorem coe_flatMap_getElem?_le {positions : List ℕ} (distinct : positions.Nodup)
    (items : List α) :
    (positions.flatMap fun position => (items[position]?).toList : Multiset α) ≤ items := by
  induction items using List.reverseRecOn with
  | nil =>
    have nothing : (positions.flatMap fun position => (([] : List α)[position]?).toList) = [] :=
      List.flatMap_eq_nil_iff.mpr fun _ _ => rfl
    rw [nothing]
  | append_singleton items last ih =>
    rw [← Multiset.coe_add, Multiset.coe_singleton, add_comm, Multiset.singleton_add]
    by_cases member : items.length ∈ positions
    · have grown := @coe_flatMap_cons ℕ α positions
        (fun position => (items[position]?).toList)
        (fun position => ((items ++ [last])[position]?).toList) items.length last distinct member
        (by simp) fun position _ differs => by rw [getElem?_append_singleton_of_ne differs]
      rw [grown]
      exact Multiset.cons_le_cons last ih
    · have same : (positions.flatMap fun position => ((items ++ [last])[position]?).toList :
          Multiset α) = positions.flatMap fun position => (items[position]?).toList :=
        coe_flatMap_congr fun position inside => by
          rw [getElem?_append_singleton_of_ne fun here => member (here ▸ inside)]
      rw [same]
      exact ih.trans (Multiset.le_cons_self _ _)

/-- Positions that a list reaches only after an extension collect the extension. -/
theorem coe_flatMap_getElem?_append {positions : List ℕ} {items : List α}
    (distinct : positions.Nodup) (extension : List α)
    (covered : ∀ position, items.length ≤ position → position < items.length + extension.length →
      position ∈ positions) :
    (positions.flatMap fun position => ((items ++ extension)[position]?).toList : Multiset α) =
      (positions.flatMap fun position => (items[position]?).toList : Multiset α) + extension := by
  induction extension using List.reverseRecOn with
  | nil => simp
  | append_singleton extension last ih =>
    simp only [List.length_append, List.length_singleton] at covered
    have grown := @coe_flatMap_cons ℕ α positions
      (fun position => ((items ++ extension)[position]?).toList)
      (fun position => ((items ++ (extension ++ [last]))[position]?).toList)
      (items.length + extension.length) last distinct
      (covered _ (Nat.le_add_right _ _) (by omega))
      (by simp [← List.append_assoc]) ?_
    · rw [grown, ih fun position above below => covered position above (by omega),
        ← Multiset.coe_add, ← Multiset.add_cons, Multiset.coe_singleton, ← Multiset.singleton_add,
        add_comm ({last} : Multiset α)]
    · intro position _ differs
      rw [← List.append_assoc,
        getElem?_append_singleton_of_ne (by rwa [List.length_append])]

end Foundation
