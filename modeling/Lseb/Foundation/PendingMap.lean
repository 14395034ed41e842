import Mathlib.Algebra.Order.Group.Multiset
import Mathlib.Data.List.AList

/-!
# Pending operations by key

A table of operations in progress: each key at most once, with the value it
was entered with. Entering a fresh key and taking out a present one move the
multiset of keys by exactly that key. A batch is taken out key by key.
-/

namespace Foundation

universe u v

abbrev PendingMap (Key : Type u) (Value : Type v) := AList fun _ : Key => Value

namespace PendingMap

variable {Key : Type u} {Value : Type v}

def keySet (pending : PendingMap Key Value) : Multiset Key := pending.keys

@[simp] theorem keySet_empty : keySet (∅ : PendingMap Key Value) = 0 := rfl

@[simp] theorem mem_keySet {key : Key} {pending : PendingMap Key Value} :
    key ∈ keySet pending ↔ key ∈ pending := Iff.rfl

def size (pending : PendingMap Key Value) : ℕ := pending.entries.length

theorem size_eq_card (pending : PendingMap Key Value) : size pending = (keySet pending).card := by
  simp [size, keySet, AList.keys, List.keys]

variable [DecidableEq Key]

theorem keySet_insert {key : Key} {pending : PendingMap Key Value} (fresh : key ∉ pending)
    (value : Value) : keySet (pending.insert key value) = key ::ₘ keySet pending := by
  have absent : key ∉ pending.keys := fresh
  simp [keySet, AList.keys_insert, List.erase_of_not_mem absent]

theorem keySet_erase {key : Key} {pending : PendingMap Key Value} (present : key ∈ pending) :
    keySet pending = key ::ₘ keySet (pending.erase key) := by
  have member : key ∈ pending.keys := present
  rw [keySet, keySet, AList.keys_erase, Multiset.cons_coe]
  exact Multiset.coe_eq_coe.mpr (List.perm_cons_erase member)

/-- The operations in progress, each with its value. -/
def entrySet (pending : PendingMap Key Value) : Multiset (Key × Value) :=
  pending.entries.map fun entry => (entry.1, entry.2)

omit [DecidableEq Key] in
theorem entrySet_keys (pending : PendingMap Key Value) :
    (entrySet pending).map Prod.fst = keySet pending := by
  simp [entrySet, keySet, AList.keys, List.keys, Function.comp_def]

theorem mem_entrySet {key : Key} {value : Value} {pending : PendingMap Key Value} :
    (key, value) ∈ entrySet pending ↔ pending.lookup key = some value := by
  rw [← Option.mem_def, AList.mem_lookup_iff]
  simp [entrySet]

theorem entrySet_insert {key : Key} {pending : PendingMap Key Value} (fresh : key ∉ pending)
    (value : Value) : entrySet (pending.insert key value) = (key, value) ::ₘ entrySet pending := by
  rw [entrySet, AList.entries_insert_of_notMem fresh]
  rfl

theorem entrySet_erase {key : Key} {value : Value} {pending : PendingMap Key Value}
    (found : pending.lookup key = some value) :
    entrySet pending = (key, value) ::ₘ entrySet (pending.erase key) := by
  have present : key ∈ pending.entries.keys := AList.lookup_isSome.mp (by simp [found])
  obtain ⟨stored, before, after, _, split, erased⟩ := List.exists_of_kerase present
  obtain rfl : stored = value := by
    have entry : (key, stored) ∈ entrySet pending := by simp [entrySet, split]
    exact Option.some.inj ((mem_entrySet.mp entry).symm.trans found)
  have rest : (pending.erase key).entries = before ++ after := erased
  rw [entrySet, entrySet, split, rest]
  simp only [List.map_append, List.map_cons, Multiset.cons_coe]
  exact Multiset.coe_eq_coe.mpr List.perm_middle

/-- Take the keys of a batch out, in order, until one of them is absent. -/
def takeAll : List Key → PendingMap Key Value → Option (List (Key × Value) × PendingMap Key Value)
  | [], pending => some ([], pending)
  | key :: rest, pending =>
    match pending.lookup key with
    | none => none
    | some value => (takeAll rest (pending.erase key)).map fun result =>
        ((key, value) :: result.1, result.2)

theorem takeAll_nil_eq_some {pending pending' : PendingMap Key Value}
    {taken : List (Key × Value)} (h : takeAll [] pending = some (taken, pending')) :
    taken = [] ∧ pending' = pending := by
  cases h
  exact ⟨rfl, rfl⟩

theorem takeAll_cons_eq_some {key : Key} {rest : List Key}
    {pending pending' : PendingMap Key Value} {taken : List (Key × Value)}
    (h : takeAll (key :: rest) pending = some (taken, pending')) :
    ∃ value taken', pending.lookup key = some value ∧
      takeAll rest (pending.erase key) = some (taken', pending') ∧
      taken = (key, value) :: taken' := by
  unfold takeAll at h
  cases found : pending.lookup key with
  | none => simp [found] at h
  | some value =>
    simp only [found, Option.map_eq_some_iff] at h
    obtain ⟨⟨taken', last⟩, htaken, same⟩ := h
    simp only [Prod.mk.injEq] at same
    obtain ⟨rfl, rfl⟩ := same
    exact ⟨value, taken', rfl, htaken, rfl⟩

theorem takeAll_keys {batch : List Key} {pending pending' : PendingMap Key Value}
    {taken : List (Key × Value)} (h : takeAll batch pending = some (taken, pending')) :
    taken.map Prod.fst = batch ∧ keySet pending = (batch : Multiset Key) + keySet pending' := by
  induction batch generalizing pending taken with
  | nil =>
    obtain ⟨rfl, rfl⟩ := takeAll_nil_eq_some h
    simp
  | cons key rest ih =>
    obtain ⟨value, taken', found, hrest, rfl⟩ := takeAll_cons_eq_some h
    obtain ⟨names, split⟩ := ih hrest
    have present : key ∈ pending := AList.lookup_isSome.mp (by simp [found])
    refine ⟨by simp [names], ?_⟩
    rw [keySet_erase present, split, ← Multiset.cons_coe, Multiset.cons_add]

/-- What is taken out, and what stays, carries the value it was entered with. -/
theorem takeAll_lookup {batch : List Key} {pending pending' : PendingMap Key Value}
    {taken : List (Key × Value)} (h : takeAll batch pending = some (taken, pending')) :
    (∀ entry ∈ taken, pending.lookup entry.1 = some entry.2) ∧
      ∀ key value, pending'.lookup key = some value → pending.lookup key = some value := by
  induction batch generalizing pending taken with
  | nil =>
    obtain ⟨rfl, rfl⟩ := takeAll_nil_eq_some h
    simp
  | cons key rest ih =>
    obtain ⟨value, taken', found, hrest, rfl⟩ := takeAll_cons_eq_some h
    obtain ⟨names, kept⟩ := ih hrest
    have older : ∀ other value, (pending.erase key).lookup other = some value →
        pending.lookup other = some value := by
      intro other value present
      by_cases same : other = key
      · subst same
        simp at present
      · rwa [AList.lookup_erase_ne same] at present
    refine ⟨?_, fun other value present => older other value (kept other value present)⟩
    intro entry member
    rcases List.mem_cons.mp member with rfl | later
    · exact found
    · exact older _ _ (names entry later)

theorem takeAll_entries {batch : List Key} {pending pending' : PendingMap Key Value}
    {taken : List (Key × Value)} (h : takeAll batch pending = some (taken, pending')) :
    entrySet pending = (taken : Multiset (Key × Value)) + entrySet pending' := by
  induction batch generalizing pending taken with
  | nil =>
    obtain ⟨rfl, rfl⟩ := takeAll_nil_eq_some h
    simp
  | cons key rest ih =>
    obtain ⟨value, taken', found, hrest, rfl⟩ := takeAll_cons_eq_some h
    rw [entrySet_erase found, ih hrest, ← Multiset.cons_coe, Multiset.cons_add]

/-- The first key of a part of the pending ones has a value, and the others stay pending
without it. -/
theorem exists_lookup_of_cons_le {key : Key} {rest : List Key} {pending : PendingMap Key Value}
    (part : ((key :: rest : List Key) : Multiset Key) ≤ keySet pending) :
    ∃ value, pending.lookup key = some value ∧
      (rest : Multiset Key) ≤ keySet (pending.erase key) := by
  have present : key ∈ pending := mem_keySet.mp (Multiset.mem_of_le part (by simp))
  obtain ⟨value, found⟩ := Option.isSome_iff_exists.mp (AList.lookup_isSome.mpr present)
  rw [keySet_erase present, ← Multiset.cons_coe, Multiset.cons_le_cons_iff] at part
  exact ⟨value, found, part⟩

/-- Any part of the pending keys can be taken out, in any order. -/
theorem takeAll_total {batch : List Key} {pending : PendingMap Key Value}
    (part : (batch : Multiset Key) ≤ keySet pending) :
    ∃ taken pending', takeAll batch pending = some (taken, pending') := by
  induction batch generalizing pending with
  | nil => exact ⟨[], pending, rfl⟩
  | cons key rest ih =>
    obtain ⟨value, found, tail⟩ := exists_lookup_of_cons_le part
    obtain ⟨taken, pending', hrest⟩ := ih tail
    exact ⟨(key, value) :: taken, pending', by simp [takeAll, found, hrest]⟩

/-- Enter keys with one value, in order. -/
def enterAll (value : Value) (keys : List Key) (pending : PendingMap Key Value) :
    PendingMap Key Value :=
  keys.foldl (fun pending key => pending.insert key value) pending

theorem enterAll_keys {value : Value} {keys : List Key} {pending : PendingMap Key Value}
    (distinct : keys.Nodup) (apart : ∀ key ∈ keys, key ∉ pending) :
    keySet (enterAll value keys pending) = (keys : Multiset Key) + keySet pending := by
  induction keys generalizing pending with
  | nil => exact (zero_add _).symm
  | cons key rest ih =>
    obtain ⟨fresh, tail⟩ := List.nodup_cons.mp distinct
    have later : ∀ other ∈ rest, other ∉ pending.insert key value := by
      intro other member present
      cases AList.mem_insert _ |>.mp present with
      | inl same => exact fresh (same ▸ member)
      | inr old => exact apart other (List.mem_cons_of_mem _ member) old
    rw [enterAll, List.foldl_cons, ← enterAll, ih tail later,
      keySet_insert (apart key List.mem_cons_self), ← Multiset.cons_coe, Multiset.cons_add,
      Multiset.add_cons]

theorem enterAll_lookup {value found : Value} {keys : List Key} {key : Key}
    {pending : PendingMap Key Value} (h : (enterAll value keys pending).lookup key = some found) :
    found = value ∨ pending.lookup key = some found := by
  induction keys generalizing pending with
  | nil => exact .inr h
  | cons other rest ih =>
    rw [enterAll, List.foldl_cons, ← enterAll] at h
    cases ih h with
    | inl new => exact .inl new
    | inr old =>
      by_cases same : key = other
      · subst same
        rw [AList.lookup_insert] at old
        exact .inl (Option.some.inj old).symm
      · rw [AList.lookup_insert_ne same] at old
        exact .inr old

end PendingMap

end Foundation
