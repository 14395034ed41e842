import Mathlib.Data.List.TakeWhile

/-!
# Words of a text

A scanner takes the longest word without a character that ends it. A text
splits into such a word and what follows in one way only.
-/

namespace Foundation

universe u

variable {Letter : Type u} {ends : Letter → Bool} {word rest : List Letter}

/-- No character of a word ends it. -/
def Within (ends : Letter → Bool) (word : List Letter) : Prop := ∀ c ∈ word, ends c = false

instance (ends : Letter → Bool) (word : List Letter) : Decidable (Within ends word) :=
  inferInstanceAs (Decidable (∀ c ∈ word, ends c = false))

/-- What follows a word is nothing, or begins with a character that ends it. -/
def Delimited (ends : Letter → Bool) (rest : List Letter) : Prop := ∀ c ∈ rest.head?, ends c = true

@[simp] theorem within_nil : Within ends [] := by simp [Within]

theorem within_append {other : List Letter} :
    Within ends (word ++ other) ↔ Within ends word ∧ Within ends other := by
  simp [Within, or_imp, forall_and]

@[simp] theorem delimited_nil : Delimited ends [] := by simp [Delimited]

@[simp] theorem delimited_cons {c : Letter} : Delimited ends (c :: rest) ↔ ends c = true := by
  simp [Delimited]

/-- Every text begins with a word, perhaps an empty one. -/
theorem exists_word (ends : Letter → Bool) (text : List Letter) :
    ∃ word rest, text = word ++ rest ∧ Within ends word ∧ Delimited ends rest := by
  induction text with
  | nil => exact ⟨[], [], rfl, within_nil, delimited_nil⟩
  | cons c text ih =>
    by_cases last : ends c = true
    · exact ⟨[], c :: text, rfl, within_nil, delimited_cons.mpr last⟩
    · obtain ⟨word, rest, rfl, within, delimited⟩ := ih
      refine ⟨c :: word, rest, rfl, ?_, delimited⟩
      exact List.forall_mem_cons.mpr ⟨by simpa using last, within⟩

section Scan

variable (within : Within ends word) (delimited : Delimited ends rest)

include within delimited

theorem takeWhile_word : (word ++ rest).takeWhile (fun c => !ends c) = word := by
  rw [List.takeWhile_append_of_pos (by simpa [Within] using within)]
  cases rest with
  | nil => simp
  | cons c rest => simp [delimited_cons.mp delimited]

theorem dropWhile_word : (word ++ rest).dropWhile (fun c => !ends c) = rest := by
  rw [List.dropWhile_append_of_pos (by simpa [Within] using within)]
  cases rest with
  | nil => rfl
  | cons c rest => simp [delimited_cons.mp delimited]

end Scan

end Foundation
