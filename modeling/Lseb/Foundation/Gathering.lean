import Mathlib.Algebra.Order.Group.Nat
import Mathlib.Data.List.Nodup
import Mathlib.Logic.Function.Basic
import Lseb.Foundation.Run

/-!
# Gathering fragments from many sources

Each source has a fragment of every event. A fragment is read, sent and
received on its own, but an event is built only when the fragments of all
sources have been received, and so only once. How far each fragment has come
can be told from four counts, if its source takes the events in order.
-/

namespace Foundation

universe u v

inductive Stage where
  | fresh
  | read
  | sent
  | received
  | built
  deriving DecidableEq, Repr

namespace Stage

/-- The stage that a fragment reaches by itself. -/
def next : Stage → Option Stage
  | fresh => some read
  | read => some sent
  | sent => some received
  | received => none
  | built => none

theorem next_ne_built {stage : Stage} : stage.next ≠ some built := by
  cases stage <;> simp [next]

end Stage

inductive GatherLabel (Source : Type u) (Event : Type v) where
  | advance (source : Source) (event : Event) (stage : Stage)
  | build (event : Event)

namespace GatherLabel

variable {Source : Type u} {Event : Type v}

def builtEvent : GatherLabel Source Event → Option Event
  | advance _ _ _ => none
  | build event => some event

end GatherLabel

/-- The steps of event building. -/
inductive Gather {Source : Type u} {Event : Type v} [DecidableEq Source] [DecidableEq Event] :
    (Source → Event → Stage) → GatherLabel Source Event → (Source → Event → Stage) → Prop where
  | advance {stages : Source → Event → Stage} {source : Source} {event : Event} {stage : Stage}
      (next : (stages source event).next = some stage) :
      Gather stages (.advance source event stage)
        (Function.update stages source (Function.update (stages source) event stage))
  | build {stages : Source → Event → Stage} {event : Event}
      (all : ∀ source, stages source event = .received) :
      Gather stages (.build event) fun source => Function.update (stages source) event .built

section Runs

variable {Source : Type u} {Event : Type v} [DecidableEq Source] [DecidableEq Event]
  {stages stages' : Source → Event → Stage} {label : GatherLabel Source Event}
  {trace : List (GatherLabel Source Event)} {event : Event}

theorem Gather.of_advance {source : Source} {stage : Stage}
    (next : (stages source event).next = some stage)
    (changed : ∀ source' event', stages' source' event' =
      if source' = source ∧ event' = event then stage else stages source' event') :
    Gather stages (.advance source event stage) stages' := by
  have same : stages' =
      Function.update stages source (Function.update (stages source) event stage) := by
    funext source' event'
    rw [changed]
    by_cases own : source' = source
    · subst own
      by_cases here : event' = event
      · subst here
        simp
      · simp [here]
    · simp [own]
  rw [same]
  exact .advance next

theorem Gather.of_build (all : ∀ source, stages source event = .received)
    (changed : ∀ source' event', stages' source' event' =
      if event' = event then .built else stages source' event') :
    Gather stages (.build event) stages' := by
  have same : stages' = fun source => Function.update (stages source) event .built := by
    funext source' event'
    rw [changed, Function.update_apply]
  rw [same]
  exact .build all

/-- An event was built once it is built, and only then. -/
theorem mem_builtEvents (run : Run Gather (fun _ _ => .fresh) trace stages) (source : Source) :
    event ∈ trace.filterMap GatherLabel.builtEvent ↔ stages source event = .built := by
  induction run with
  | nil => simp
  | @snoc trace stages next label before taken ih =>
    rw [List.filterMap_append, List.mem_append, ih]
    cases taken with
    | @advance other event' stage following =>
      have none : ¬event ∈ [GatherLabel.advance other event' stage].filterMap
          GatherLabel.builtEvent := by simp [GatherLabel.builtEvent]
      rw [or_iff_left none]
      by_cases own : source = other
      · subst own
        by_cases same : event = event'
        · subst same
          have stays : stages source event ≠ .built := by
            intro built
            rw [built] at following
            cases following
          simp only [stays, Function.update_self, false_iff]
          exact fun built => Stage.next_ne_built (built ▸ following)
        · simp [Function.update_of_ne same]
      · simp [Function.update_of_ne own]
    | @build event' all =>
      by_cases same : event = event'
      · subst same
        simp [GatherLabel.builtEvent]
      · simp [GatherLabel.builtEvent, same]

/-- No event is built twice. -/
theorem builtEvents_nodup [Nonempty Source] (run : Run Gather (fun _ _ => .fresh) trace stages) :
    (trace.filterMap GatherLabel.builtEvent).Nodup := by
  obtain ⟨source⟩ := ‹Nonempty Source›
  induction run with
  | nil => exact List.nodup_nil
  | @snoc trace stages next label before taken ih =>
    rw [List.filterMap_append, List.nodup_append]
    refine ⟨ih, ?_, ?_⟩
    · cases label with
      | advance => exact List.nodup_nil
      | build event => exact List.nodup_singleton event
    · rintro event earlier _ now rfl
      cases taken with
      | advance => simp [GatherLabel.builtEvent] at now
      | @build event' all =>
        obtain rfl : event = event' := by simpa [GatherLabel.builtEvent] using now
        have built := (mem_builtEvents before source).mp earlier
        rw [all source] at built
        cases built

end Runs

/-- How far `nodes` sources that deal their fragments to `nodes` builders in turn
have come, by numbers. -/
@[ext]
structure GatherCounts where
  read : ℕ → ℕ
  sent : ℕ → ℕ → ℕ
  received : ℕ → ℕ → ℕ
  built : ℕ → ℕ

namespace GatherCounts

variable {nodes : ℕ}

/-- The fragment of an event goes to the builder `event % nodes`, in the round `event / nodes`. -/
def stage (nodes : ℕ) (c : GatherCounts) (source : Fin nodes) (event : ℕ) : Stage :=
  if event / nodes < c.built (event % nodes) then .built
  else if event / nodes < c.received source (event % nodes) then .received
  else if event / nodes < c.sent source (event % nodes) then .sent
  else if event < c.read source then .read
  else .fresh

structure Valid (nodes : ℕ) (c : GatherCounts) : Prop where
  built_le : ∀ source < nodes, ∀ builder < nodes, c.built builder ≤ c.received source builder
  received_le : ∀ source < nodes, ∀ builder < nodes, c.received source builder ≤
    c.sent source builder
  sent_read : ∀ source < nodes, ∀ builder < nodes, ∀ round < c.sent source builder,
    round * nodes + builder < c.read source

section Operations

variable (c : GatherCounts) (source builder count : ℕ)

def reading : GatherCounts :=
  { c with read := Function.update c.read source (c.read source + count) }

def sending : GatherCounts :=
  { c with
    sent := Function.update c.sent source
      (Function.update (c.sent source) builder (c.sent source builder + 1)) }

def receiving : GatherCounts :=
  { c with
    received := Function.update c.received source
      (Function.update (c.received source) builder (c.received source builder + 1)) }

def building : GatherCounts :=
  { c with built := Function.update c.built builder (c.built builder + count) }

end Operations

variable {c : GatherCounts} {source : Fin nodes} {builder event : ℕ}

theorem event_eq_iff {round : ℕ} (inside : builder < nodes) :
    event = round * nodes + builder ↔ event / nodes = round ∧ event % nodes = builder := by
  constructor
  · rintro rfl
    exact (Nat.div_mod_unique (Nat.zero_lt_of_lt inside)).mpr
      ⟨by rw [mul_comm nodes, add_comm], inside⟩
  · rintro ⟨rfl, rfl⟩
    exact (Nat.div_add_mod' event nodes).symm

/-- One more round at a builder is one more event. -/
theorem lt_update_iff {counts : ℕ → ℕ} (inside : builder < nodes) :
    event / nodes < Function.update counts builder (counts builder + 1) (event % nodes) ↔
      event / nodes < counts (event % nodes) ∨ event = counts builder * nodes + builder := by
  rw [event_eq_iff inside]
  by_cases target : event % nodes = builder
  · rw [target, Function.update_self]
    omega
  · rw [Function.update_of_ne target]
    simp [target]

/-- A fragment that is not read yet was not sent either. -/
theorem Valid.unsent (valid : c.Valid nodes) (unread : c.read source ≤ event) :
    c.sent source (event % nodes) ≤ event / nodes := by
  by_contra sent
  have earlier := valid.sent_read source source.isLt _ (Nat.mod_lt event source.pos) _
    (not_le.mp sent)
  rw [Nat.div_add_mod'] at earlier
  exact absurd earlier (not_lt.mpr unread)

/-- Reading the next fragment. -/
theorem Valid.read (valid : c.Valid nodes) : Gather (c.stage nodes)
    (.advance source (c.read source) .read) ((c.reading source 1).stage nodes) := by
  have inside := Nat.mod_lt (c.read source) source.pos
  have unsent := @Valid.unsent nodes c source _ valid le_rfl
  have received := valid.received_le source source.isLt _ inside
  have built := valid.built_le source source.isLt _ inside
  apply Gather.of_advance
  · rw [stage, if_neg (by omega), if_neg (by omega), if_neg (by omega), if_neg (by omega)]
    rfl
  · intro source' event'
    by_cases own : source' = source
    · subst own
      simp only [stage, reading, Function.update_self, true_and]
      by_cases here : event' = c.read source'
      · subst here
        rw [if_neg (by omega), if_neg (by omega), if_neg (by omega), if_pos (by omega), if_pos rfl]
      · have same : event' < c.read source' + 1 ↔ event' < c.read source' := by omega
        simp only [here, if_false, same]
    · have other : (source' : ℕ) ≠ source := fun equal => own (Fin.ext equal)
      simp only [stage, reading, Function.update_of_ne other, own, false_and, if_false]

/-- Sending the next fragment to a builder. -/
theorem Valid.send (valid : c.Valid nodes) (inside : builder < nodes)
    (ready : c.sent source builder * nodes + builder < c.read source) : Gather (c.stage nodes)
      (.advance source (c.sent source builder * nodes + builder) .sent)
      ((c.sending source builder).stage nodes) := by
  have received := valid.received_le source source.isLt _ inside
  have built := valid.built_le source source.isLt _ inside
  obtain ⟨round, target⟩ := (event_eq_iff inside).mp
    (rfl : c.sent source builder * nodes + builder = c.sent source builder * nodes + builder)
  apply Gather.of_advance
  · rw [stage, round, target, if_neg (by omega), if_neg (by omega), if_neg (by omega), if_pos ready]
    rfl
  · intro source' event'
    by_cases own : source' = source
    · subst own
      simp only [stage, sending, Function.update_self, lt_update_iff inside, true_and]
      by_cases here : event' = c.sent source' builder * nodes + builder
      · rw [if_pos here, here, round, target, if_neg (by omega), if_neg (by omega),
          if_pos (.inr rfl)]
      · simp only [here, or_false, if_false]
        rfl
    · have other : (source' : ℕ) ≠ source := fun equal => own (Fin.ext equal)
      simp only [stage, sending, Function.update_of_ne other, own, false_and, if_false]
      rfl

/-- Receiving the next fragment of a source. -/
theorem Valid.receive (valid : c.Valid nodes) (inside : builder < nodes)
    (behind : c.received source builder < c.sent source builder) : Gather (c.stage nodes)
      (.advance source (c.received source builder * nodes + builder) .received)
      ((c.receiving source builder).stage nodes) := by
  have built := valid.built_le source source.isLt _ inside
  obtain ⟨round, target⟩ := (event_eq_iff inside).mp
    (rfl : c.received source builder * nodes + builder =
      c.received source builder * nodes + builder)
  apply Gather.of_advance
  · rw [stage, round, target, if_neg (by omega), if_neg (by omega), if_pos behind]
    rfl
  · intro source' event'
    by_cases own : source' = source
    · subst own
      simp only [stage, receiving, Function.update_self, lt_update_iff inside, true_and]
      by_cases here : event' = c.received source' builder * nodes + builder
      · rw [if_pos here, here, round, target, if_neg (by omega), if_pos (.inr rfl)]
      · simp only [here, or_false, if_false]
        rfl
    · have other : (source' : ℕ) ≠ source := fun equal => own (Fin.ext equal)
      simp only [stage, receiving, Function.update_of_ne other, own, false_and, if_false]
      rfl

/-- Building the next event of a builder, when it is complete. -/
theorem build (inside : builder < nodes)
    (complete : ∀ source < nodes, c.built builder < c.received source builder) :
    Gather (c.stage nodes) (.build (c.built builder * nodes + builder))
      ((c.building builder 1).stage nodes) := by
  obtain ⟨round, target⟩ := (event_eq_iff inside).mp
    (rfl : c.built builder * nodes + builder = c.built builder * nodes + builder)
  apply Gather.of_build
  · intro source
    rw [stage, round, target, if_neg (lt_irrefl _), if_pos (complete source source.isLt)]
  · intro source' event'
    simp only [stage, building, lt_update_iff inside]
    by_cases here : event' = c.built builder * nodes + builder
    · rw [if_pos here, if_pos (.inr here)]
    · simp only [here, or_false, if_false]
      rfl

theorem Valid.reading (valid : c.Valid nodes) (source count : ℕ) :
    (c.reading source count).Valid nodes := by
  refine ⟨valid.built_le, valid.received_le, ?_⟩
  intro source' inside' builder inside round sent
  refine (valid.sent_read source' inside' builder inside round sent).trans_le ?_
  simp only [GatherCounts.reading, Function.update_apply]
  split_ifs with own
  · rw [own]
    exact Nat.le_add_right _ _
  · exact le_rfl

/-- Reading several fragments in a row. -/
theorem Valid.readAll (valid : c.Valid nodes) (count : ℕ) : Run Gather (c.stage nodes)
    ((List.range count).map fun index => .advance source (c.read source + index) .read)
    ((c.reading source count).stage nodes) := by
  induction count with
  | zero => simpa [GatherCounts.reading] using Run.nil
  | succ count ih =>
    have taken := @Valid.read nodes (c.reading source count) source (valid.reading source count)
    simp only [GatherCounts.reading, Function.update_self, Function.update_idem] at taken ih ⊢
    rw [List.range_succ, List.map_append]
    exact ih.snoc taken

/-- Building several events in a row. -/
theorem buildAll (inside : builder < nodes) (count : ℕ)
    (complete : ∀ source < nodes, c.built builder + count ≤ c.received source builder) :
    Run Gather (c.stage nodes)
      ((List.range count).map fun index => .build ((c.built builder + index) * nodes + builder))
      ((c.building builder count).stage nodes) := by
  induction count with
  | zero => simpa [building] using Run.nil
  | succ count ih =>
    have before := ih fun source inside => (Nat.le_succ _).trans (complete source inside)
    have taken := @build nodes (c.building builder count) builder inside (by
      intro source inside
      simp only [building, Function.update_self]
      exact complete source inside)
    simp only [building, Function.update_self, Function.update_idem] at taken before ⊢
    rw [List.range_succ, List.map_append]
    exact before.snoc taken

end GatherCounts

end Foundation
