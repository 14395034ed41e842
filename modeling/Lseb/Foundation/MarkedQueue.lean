import Mathlib.Algebra.Order.Group.Multiset

/-!
# Queues released as a completed prefix

Entries are acquired at the back, marked by key in any order, and leave only
as a prefix of marked entries. Marking looks up the first entry with the key,
so keys may recur: per key, the marked entries stay in front of the others.
-/

namespace Foundation

universe u

variable {Key : Type u}

abbrev MarkedQueue (Key : Type u) := List (Key × Bool)

/-- Why an entry cannot be marked. -/
inductive MarkFailure where
  | absent
  | alreadyMarked
  deriving DecidableEq, Repr

namespace MarkedQueue

def keys (queue : MarkedQueue Key) : List Key := queue.map Prod.fst

def unmarked (queue : MarkedQueue Key) : List Key :=
  (queue.filter fun entry => !entry.2).map Prod.fst

@[simp] theorem keys_nil : keys ([] : MarkedQueue Key) = [] := rfl

@[simp] theorem keys_cons (entry : Key × Bool) (queue : MarkedQueue Key) :
    keys (entry :: queue) = entry.1 :: keys queue := rfl

@[simp] theorem keys_append (first second : MarkedQueue Key) :
    keys (first ++ second) = keys first ++ keys second := List.map_append

@[simp] theorem keys_length (queue : MarkedQueue Key) :
    (keys queue).length = queue.length := List.length_map _

@[simp] theorem unmarked_nil : unmarked ([] : MarkedQueue Key) = [] := rfl

@[simp] theorem unmarked_cons_true (key : Key) (queue : MarkedQueue Key) :
    unmarked ((key, true) :: queue) = unmarked queue := rfl

@[simp] theorem unmarked_cons_false (key : Key) (queue : MarkedQueue Key) :
    unmarked ((key, false) :: queue) = key :: unmarked queue := rfl

@[simp] theorem unmarked_append (first second : MarkedQueue Key) :
    unmarked (first ++ second) = unmarked first ++ unmarked second := by
  simp [unmarked]

theorem mem_unmarked {key : Key} {queue : MarkedQueue Key} :
    key ∈ unmarked queue ↔ (key, false) ∈ queue := by
  simp [unmarked]

theorem unmarked_sublist (queue : MarkedQueue Key) :
    (unmarked queue).Sublist (keys queue) :=
  List.filter_sublist.map _

/-- Per key, a marked entry has no unmarked entry in front of it. -/
def MarksFirst (queue : MarkedQueue Key) : Prop :=
  queue.Pairwise fun earlier later =>
    earlier.1 = later.1 → later.2 = true → earlier.2 = true

/-- Nothing is left at the front that could have been released. -/
def Settled (queue : MarkedQueue Key) : Prop :=
  ∀ entry ∈ queue.head?, entry.2 = false

theorem MarksFirst.push {queue : MarkedQueue Key} (first : MarksFirst queue) (key : Key) :
    MarksFirst (queue ++ [(key, false)]) := by
  refine List.pairwise_append.mpr ⟨first, List.pairwise_singleton _ _, ?_⟩
  intro earlier _ later hlater _ marked
  rw [List.mem_singleton.mp hlater] at marked
  cases marked

/-- If all entries are marked, a settled queue is empty. -/
theorem Settled.eq_nil {queue : MarkedQueue Key} (settled : Settled queue)
    (marked : unmarked queue = []) : queue = [] := by
  cases queue with
  | nil => rfl
  | cons entry rest =>
    have front : entry.2 = false := settled entry rfl
    obtain ⟨key, flag⟩ := entry
    subst front
    rw [unmarked_cons_false] at marked
    cases marked

theorem Settled.push {queue : MarkedQueue Key} (settled : Settled queue) (key : Key) :
    Settled (queue ++ [(key, false)]) := by
  cases queue with
  | nil => simp [Settled]
  | cons entry rest => simpa [Settled] using settled

section Marking

variable [DecidableEq Key]

/-- Mark the first entry with this key. -/
def mark (key : Key) : MarkedQueue Key → Except MarkFailure (MarkedQueue Key)
  | [] => .error .absent
  | (other, marked) :: rest =>
    if other = key then
      if marked then .error .alreadyMarked else .ok ((other, true) :: rest)
    else (mark key rest).map ((other, marked) :: ·)

def markAll : List Key → MarkedQueue Key → Except MarkFailure (MarkedQueue Key)
  | [], queue => .ok queue
  | key :: rest, queue => (mark key queue).bind (markAll rest)

/-- The three ways in which marking meets the first entry of a queue. -/
theorem mark_cons_eq_ok {key other : Key} {marked : Bool} {rest queue' : MarkedQueue Key}
    (h : mark key ((other, marked) :: rest) = .ok queue') :
    (other = key ∧ marked = false ∧ queue' = (other, true) :: rest) ∨
      (other ≠ key ∧ ∃ rest', mark key rest = .ok rest' ∧ queue' = (other, marked) :: rest') := by
  unfold mark at h
  split_ifs at h with same flag
  · exact .inl ⟨same, by simpa using flag, by simpa using h.symm⟩
  · cases hrest : mark key rest with
    | error failure => simp [hrest, Except.map] at h
    | ok rest' => exact .inr ⟨same, rest', rfl, by simpa [hrest, Except.map] using h.symm⟩

theorem mark_keys {key : Key} {queue queue' : MarkedQueue Key}
    (h : mark key queue = .ok queue') : keys queue' = keys queue := by
  induction queue generalizing queue' with
  | nil => simp [mark] at h
  | cons entry rest ih =>
    obtain ⟨_, _, rfl⟩ | ⟨_, rest', hrest, rfl⟩ := mark_cons_eq_ok h
    · rfl
    · simp [ih hrest]

theorem mark_unmarked {key : Key} {queue queue' : MarkedQueue Key}
    (h : mark key queue = .ok queue') :
    (unmarked queue : Multiset Key) = key ::ₘ (unmarked queue' : Multiset Key) := by
  induction queue generalizing queue' with
  | nil => simp [mark] at h
  | cons entry rest ih =>
    obtain ⟨other, marked⟩ := entry
    obtain ⟨rfl, rfl, rfl⟩ | ⟨_, rest', hrest, rfl⟩ := mark_cons_eq_ok h
    · simp
    · cases marked
      · simp only [unmarked_cons_false, ← Multiset.cons_coe]
        rw [ih hrest, Multiset.cons_swap]
      · rw [unmarked_cons_true, unmarked_cons_true, ih hrest]

theorem mark_mem {key : Key} {queue queue' : MarkedQueue Key}
    (h : mark key queue = .ok queue') {entry : Key × Bool} (member : entry ∈ queue') :
    entry ∈ queue ∨ (entry = (key, true) ∧ (key, false) ∈ queue) := by
  induction queue generalizing queue' with
  | nil => simp [mark] at h
  | cons first rest ih =>
    obtain ⟨other, marked⟩ := first
    obtain ⟨rfl, rfl, rfl⟩ | ⟨_, rest', hrest, rfl⟩ := mark_cons_eq_ok h
    · rcases List.mem_cons.mp member with rfl | later
      · exact .inr ⟨rfl, List.mem_cons_self⟩
      · exact .inl (List.mem_cons_of_mem _ later)
    · rcases List.mem_cons.mp member with rfl | later
      · exact .inl List.mem_cons_self
      · rcases ih hrest later with old | ⟨new, unmarkedEntry⟩
        · exact .inl (List.mem_cons_of_mem _ old)
        · exact .inr ⟨new, List.mem_cons_of_mem _ unmarkedEntry⟩

theorem mark_marksFirst {key : Key} {queue queue' : MarkedQueue Key}
    (h : mark key queue = .ok queue') (first : MarksFirst queue) : MarksFirst queue' := by
  induction queue generalizing queue' with
  | nil => simp [mark] at h
  | cons entry rest ih =>
    obtain ⟨other, marked⟩ := entry
    obtain ⟨ahead, tail⟩ := List.pairwise_cons.mp first
    obtain ⟨rfl, rfl, rfl⟩ | ⟨differs, rest', hrest, rfl⟩ := mark_cons_eq_ok h
    · exact List.pairwise_cons.mpr ⟨fun _ _ _ _ => rfl, tail⟩
    · refine List.pairwise_cons.mpr ⟨?_, ih hrest tail⟩
      intro later member same flag
      rcases mark_mem hrest member with old | ⟨rfl, _⟩
      · exact ahead later old same flag
      · exact absurd same differs

/-- With distinct keys, every unmarked key can be marked. -/
theorem mark_total {key : Key} {queue : MarkedQueue Key} (distinct : (keys queue).Nodup)
    (waiting : key ∈ unmarked queue) : ∃ queue', mark key queue = .ok queue' := by
  induction queue with
  | nil => simp at waiting
  | cons entry rest ih =>
    obtain ⟨other, marked⟩ := entry
    obtain ⟨fresh, tail⟩ := List.nodup_cons.mp distinct
    by_cases same : other = key
    · subst same
      cases marked with
      | false => exact ⟨(other, true) :: rest, by simp [mark]⟩
      | true =>
        exact absurd ((unmarked_sublist rest).subset waiting) fresh
    · have later : key ∈ unmarked rest := by
        cases marked with
        | false => simpa [Ne.symm same] using waiting
        | true => exact waiting
      obtain ⟨rest', hrest⟩ := ih tail later
      exact ⟨(other, marked) :: rest', by simp [mark, same, hrest, Except.map]⟩

theorem markAll_cons_eq_ok {key : Key} {rest : List Key} {queue queue' : MarkedQueue Key}
    (h : markAll (key :: rest) queue = .ok queue') :
    ∃ middle, mark key queue = .ok middle ∧ markAll rest middle = .ok queue' := by
  cases hmark : mark key queue with
  | error failure => simp [markAll, hmark, Except.bind] at h
  | ok middle => exact ⟨middle, rfl, by simpa [markAll, hmark, Except.bind] using h⟩

theorem markAll_keys {marks : List Key} {queue queue' : MarkedQueue Key}
    (h : markAll marks queue = .ok queue') : keys queue' = keys queue := by
  induction marks generalizing queue with
  | nil => cases h; rfl
  | cons key rest ih =>
    obtain ⟨middle, hmark, hrest⟩ := markAll_cons_eq_ok h
    rw [ih hrest, mark_keys hmark]

theorem markAll_unmarked {marks : List Key} {queue queue' : MarkedQueue Key}
    (h : markAll marks queue = .ok queue') :
    (unmarked queue : Multiset Key) = marks + (unmarked queue' : Multiset Key) := by
  induction marks generalizing queue with
  | nil => cases h; simp
  | cons key rest ih =>
    obtain ⟨middle, hmark, hrest⟩ := markAll_cons_eq_ok h
    rw [mark_unmarked hmark, ih hrest, ← Multiset.cons_coe, Multiset.cons_add]

theorem markAll_marksFirst {marks : List Key} {queue queue' : MarkedQueue Key}
    (h : markAll marks queue = .ok queue') (first : MarksFirst queue) : MarksFirst queue' := by
  induction marks generalizing queue with
  | nil => cases h; exact first
  | cons key rest ih =>
    obtain ⟨middle, hmark, hrest⟩ := markAll_cons_eq_ok h
    exact ih hrest (mark_marksFirst hmark first)

/-- With distinct keys, any part of the unmarked keys can be marked. -/
theorem markAll_total {marks : List Key} {queue : MarkedQueue Key}
    (distinct : (keys queue).Nodup) (waiting : (marks : Multiset Key) ≤ unmarked queue) :
    ∃ queue', markAll marks queue = .ok queue' := by
  induction marks generalizing queue with
  | nil => exact ⟨queue, rfl⟩
  | cons key rest ih =>
    have member : key ∈ unmarked queue :=
      Multiset.mem_coe.mp (Multiset.mem_of_le waiting (by simp))
    obtain ⟨middle, hmark⟩ := mark_total distinct member
    rw [mark_unmarked hmark, ← Multiset.cons_coe, Multiset.cons_le_cons_iff] at waiting
    obtain ⟨queue', hrest⟩ := ih (by rwa [mark_keys hmark]) waiting
    exact ⟨queue', by simp [markAll, hmark, Except.bind, hrest]⟩

end Marking

/-- How many entries at the front are marked. -/
def completed (queue : MarkedQueue Key) : ℕ := (queue.takeWhile (·.2)).length

theorem completed_le (queue : MarkedQueue Key) : queue.completed ≤ queue.length :=
  (List.takeWhile_prefix _).length_le

theorem drop_completed (queue : MarkedQueue Key) :
    queue.drop queue.completed = queue.dropWhile (·.2) := by
  have split : queue.takeWhile (·.2) ++ queue.dropWhile (·.2) = queue :=
    List.takeWhile_append_dropWhile
  calc queue.drop queue.completed
      = (queue.takeWhile (·.2) ++ queue.dropWhile (·.2)).drop queue.completed := by rw [split]
    _ = queue.dropWhile (·.2) := List.drop_left

theorem settled_drop_completed (queue : MarkedQueue Key) :
    Settled (queue.drop queue.completed) := by
  intro entry front
  rw [drop_completed] at front
  have failed := List.head?_dropWhile_not (·.2) queue
  rw [Option.mem_def.mp front] at failed
  simpa using failed

theorem unmarked_drop_completed (queue : MarkedQueue Key) :
    unmarked (queue.drop queue.completed) = unmarked queue := by
  rw [drop_completed]
  induction queue with
  | nil => rfl
  | cons entry rest ih =>
    obtain ⟨key, marked⟩ := entry
    cases marked with
    | false => simp
    | true => simpa [List.dropWhile_cons] using ih

theorem marksFirst_drop {queue : MarkedQueue Key} (first : MarksFirst queue) (count : ℕ) :
    MarksFirst (queue.drop count) :=
  List.Pairwise.sublist (List.drop_sublist count queue) first

/-- The front key of a settled queue has no marked entry anywhere. -/
theorem count_front [DecidableEq Key] {key : Key} {queue : MarkedQueue Key}
    (first : MarksFirst queue) (settled : Settled queue) (front : (keys queue).head? = some key) :
    (unmarked queue).count key = (keys queue).count key := by
  cases queue with
  | nil => simp at front
  | cons entry rest =>
    obtain ⟨other, marked⟩ := entry
    obtain rfl : other = key := by simpa using front
    obtain rfl : marked = false := settled (other, marked) (by simp)
    have ahead := (List.pairwise_cons.mp first).1
    have tail : ∀ rest : MarkedQueue Key, (∀ entry ∈ rest, other = entry.1 → entry.2 = false) →
        (unmarked rest).count other = (keys rest).count other := by
      intro rest
      induction rest with
      | nil => intro; rfl
      | cons entry rest ih =>
        intro clean
        obtain ⟨next, flag⟩ := entry
        have later := ih fun entry member => clean entry (List.mem_cons_of_mem _ member)
        cases flag with
        | false => simp [List.count_cons, later]
        | true =>
          have differs : next ≠ other := fun same =>
            Bool.noConfusion (clean (next, true) List.mem_cons_self same.symm)
          simp [differs, later]
    have clean : ∀ entry ∈ rest, other = entry.1 → entry.2 = false := by
      intro entry member same
      cases flag : entry.2 with
      | false => rfl
      | true => exact absurd (ahead entry member same flag) (by simp)
    simp [tail rest clean]

theorem dropWhile_of_marked {queue : MarkedQueue Key} (marked : unmarked queue = []) :
    queue.dropWhile (·.2) = [] := by
  induction queue with
  | nil => rfl
  | cons entry rest ih =>
    obtain ⟨key, mark⟩ := entry
    cases mark with
    | false => cases marked
    | true => exact ih marked

section Flagging

variable [DecidableEq Key] {key : Key} {marks first second : List Key} {queue : MarkedQueue Key}

/-- Mark every entry with one of these keys. -/
def flag (marks : List Key) (queue : MarkedQueue Key) : MarkedQueue Key :=
  queue.map fun entry => (entry.1, entry.2 || decide (entry.1 ∈ marks))

@[simp] theorem flag_nil_queue (marks : List Key) : flag marks ([] : MarkedQueue Key) = [] := rfl

@[simp] theorem flag_cons (marks : List Key) (entry : Key × Bool) (queue : MarkedQueue Key) :
    flag marks (entry :: queue) =
      (entry.1, entry.2 || decide (entry.1 ∈ marks)) :: flag marks queue := rfl

@[simp] theorem flag_nil (queue : MarkedQueue Key) : flag [] queue = queue := by
  simp [flag]

theorem flag_flag (first second : List Key) (queue : MarkedQueue Key) :
    flag second (flag first queue) = flag (first ++ second) queue := by
  simp [flag, Bool.or_assoc]

theorem flag_congr (same : ∀ key, key ∈ first ↔ key ∈ second) (queue : MarkedQueue Key) :
    flag first queue = flag second queue := by
  simp [flag, same]

@[simp] theorem keys_flag (marks : List Key) (queue : MarkedQueue Key) :
    keys (flag marks queue) = keys queue := by
  simp [keys, flag]

theorem flag_of_absent (absent : ∀ key ∈ marks, key ∉ keys queue) : flag marks queue = queue := by
  induction queue with
  | nil => rfl
  | cons entry rest ih =>
    have outside : entry.1 ∉ marks := fun inside => absent _ inside List.mem_cons_self
    have later := ih fun key inside => fun member =>
      absent key inside (List.mem_cons_of_mem _ member)
    simp [later, outside]

theorem mem_unmarked_flag :
    key ∈ unmarked (flag marks queue) ↔ key ∈ unmarked queue ∧ key ∉ marks := by
  simp [mem_unmarked, flag]

/-- With distinct keys, marking the first entry with a key marks all of them. -/
theorem mark_eq_flag (distinct : (keys queue).Nodup) (waiting : key ∈ unmarked queue) :
    mark key queue = .ok (flag [key] queue) := by
  induction queue with
  | nil => simp at waiting
  | cons entry rest ih =>
    obtain ⟨other, marked⟩ := entry
    obtain ⟨fresh, tail⟩ := List.nodup_cons.mp distinct
    by_cases same : other = key
    · subst same
      have later : flag [other] rest = rest := flag_of_absent fun key inside =>
        List.mem_singleton.mp inside ▸ fresh
      cases marked with
      | false => simp [mark, later]
      | true => exact absurd ((unmarked_sublist rest).subset waiting) fresh
    · have behind : key ∈ unmarked rest := by
        cases marked with
        | false => simpa [Ne.symm same] using waiting
        | true => exact waiting
      simp [mark, same, ih tail behind, Except.map]

/-- The order in which distinct keys are marked makes no difference. -/
theorem markAll_eq_flag (distinct : (keys queue).Nodup) (once : marks.Nodup)
    (waiting : ∀ key ∈ marks, key ∈ unmarked queue) :
    markAll marks queue = .ok (flag marks queue) := by
  induction marks generalizing queue with
  | nil => simp [markAll]
  | cons key rest ih =>
    obtain ⟨fresh, tail⟩ := List.nodup_cons.mp once
    have marked := mark_eq_flag distinct (waiting key List.mem_cons_self)
    have behind : ∀ later ∈ rest, later ∈ unmarked (flag [key] queue) := by
      intro later member
      refine mem_unmarked_flag.mpr ⟨waiting later (List.mem_cons_of_mem _ member), ?_⟩
      rintro same
      rw [List.mem_singleton.mp same] at member
      exact fresh member
    rw [markAll, marked]
    refine (ih (by rwa [keys_flag]) tail behind).trans ?_
    rw [flag_flag]
    rfl

/-- Entries dropped before some marks are set would have been dropped after them. -/
theorem dropWhile_flag (marks : List Key) (queue : MarkedQueue Key) :
    (flag marks (queue.dropWhile (·.2))).dropWhile (·.2) =
      (flag marks queue).dropWhile (·.2) := by
  induction queue with
  | nil => rfl
  | cons entry rest ih =>
    obtain ⟨key, marked⟩ := entry
    cases marked with
    | false => rfl
    | true => simpa [List.dropWhile_cons] using ih

end Flagging

end MarkedQueue

end Foundation
