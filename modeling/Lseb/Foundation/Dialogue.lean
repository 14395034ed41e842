import Mathlib.Data.List.Basic
import Lseb.Foundation.Stateful

/-!
# Dialogues

A client asks questions and waits for an answer to each. Against answers given
in advance it either ends, having asked its script, or waits for the first
answer that is missing, having asked the question for it. Scripts compose as
the computations do.
-/

namespace Foundation

universe u v w

/-- How the questions asked so far, and the answers not heard yet, show in a state. -/
structure Channel (σ : Type u) (Question : Type v) (Answer : Type w) where
  asked : σ → List Question
  Hears : σ → List Answer → Prop

/-- The channel of a part of the state. -/
def Channel.of {σ : Type u} {Question : Type v} {Answer : Type w}
    (channel : Channel σ Question Answer) {τ : Type u} (part : τ → σ) :
    Channel τ Question Answer :=
  ⟨fun t => channel.asked (part t), fun t => channel.Hears (part t)⟩

/-- A question, and the answers that the client can make use of. -/
structure Exchange (Question : Type v) (Answer : Type w) where
  question : Question
  Fits : Answer → Prop

variable {ε σ τ α β : Type u} {Question : Type v} {Answer : Type w}

/-- The answers fit the questions, as far as they go. -/
def Answered (script : List (Exchange Question Answer)) (answers : List Answer) : Prop :=
  ∀ (i : ℕ) (exchange : Exchange Question Answer) (answer : Answer),
    script[i]? = some exchange → answers[i]? = some answer → exchange.Fits answer

/-- From a state with `P`, the computation asks the questions of a script one after the other,
and ends with `R`, or waits for an answer in the error `stuck`. -/
def Talks (channel : Channel σ Question Answer) (stuck : ε) (P : σ → Prop)
    (script : List (Exchange Question Answer)) (x : EStateM ε σ α) (R : α → σ → Prop) : Prop :=
  ∀ s answers, P s → channel.Hears s answers → Answered script answers →
    (script.length ≤ answers.length → ∃ a s', x s = .ok a s' ∧ R a s' ∧
      channel.Hears s' (answers.drop script.length) ∧
      channel.asked s' = channel.asked s ++ script.map Exchange.question) ∧
    (answers.length < script.length → ∃ s', x s = .error stuck s' ∧
      channel.asked s' =
        channel.asked s ++ (script.take (answers.length + 1)).map Exchange.question)

section Answers

variable {script first second : List (Exchange Question Answer)} {answers : List Answer}

theorem answered_cons {exchange : Exchange Question Answer} {answer : Answer} :
    Answered (exchange :: script) (answer :: answers) ↔
      exchange.Fits answer ∧ Answered script answers := by
  constructor
  · intro all
    exact ⟨all 0 exchange answer rfl rfl, fun i _ _ asked given => all (i + 1) _ _ asked given⟩
  · rintro ⟨first, later⟩ i _ _ asked given
    cases i with
    | zero =>
      cases asked
      cases given
      exact first
    | succ i => exact later i _ _ asked given

theorem answered_append : Answered (first ++ second) answers ↔
    Answered first answers ∧ Answered second (answers.drop first.length) := by
  constructor
  · intro all
    refine ⟨fun i exchange answer asked given => all i exchange answer ?_ given,
      fun i exchange answer asked given => all (first.length + i) exchange answer ?_ ?_⟩
    · obtain ⟨below, _⟩ := List.getElem?_eq_some_iff.mp asked
      rw [List.getElem?_append_left below, asked]
    · rw [List.getElem?_append_right (Nat.le_add_right _ _), Nat.add_sub_cancel_left, asked]
    · rwa [List.getElem?_drop] at given
  · rintro ⟨early, late⟩ i exchange answer asked given
    by_cases below : i < first.length
    · rw [List.getElem?_append_left below] at asked
      exact early i exchange answer asked given
    · have above := Nat.le_of_not_lt below
      rw [List.getElem?_append_right above] at asked
      refine late (i - first.length) exchange answer asked ?_
      rw [List.getElem?_drop, Nat.add_sub_cancel' above, given]

theorem Answered.snoc {exchange : Exchange Question Answer} {answer : Answer}
    (answered : Answered script answers) (asked : script[answers.length]? = some exchange)
    (fits : exchange.Fits answer) : Answered script (answers ++ [answer]) := by
  intro i other given question told
  by_cases below : i < answers.length
  · rw [List.getElem?_append_left below] at told
    exact answered i other given question told
  · rw [List.getElem?_append_right (Nat.le_of_not_lt below)] at told
    rw [List.getElem?_singleton] at told
    split_ifs at told with last
    have same : i = answers.length := by omega
    rw [same, asked] at question
    cases question
    cases told
    exact fits

end Answers

namespace Talks

variable {channel : Channel σ Question Answer} {stuck : ε} {P Q : σ → Prop}
  {script first second : List (Exchange Question Answer)} {x : EStateM ε σ α}
  {f : α → EStateM ε σ β} {R S : α → σ → Prop} {T : β → σ → Prop}

/-- A computation without a question. -/
theorem silent (run : ∀ s, P s → ∃ a s', x s = .ok a s' ∧ R a s' ∧
    channel.asked s' = channel.asked s ∧
    ∀ answers, channel.Hears s answers → channel.Hears s' answers) :
    Talks channel stuck P [] x R := by
  intro s answers before hears _
  obtain ⟨a, s', ended, after, asked, still⟩ := run s before
  refine ⟨fun _ => ⟨a, s', ended, after, still answers hears, by simpa using asked⟩, ?_⟩
  exact fun fewer => absurd fewer (Nat.not_lt_zero _)

/-- What holds whatever the state may be used. -/
theorem of_fact {fact : Prop} (holds : ∀ s, P s → fact)
    (talks : fact → Talks channel stuck P script x R) : Talks channel stuck P script x R :=
  fun s answers before => talks (holds s before) s answers before

theorem pure {a : α} (holds : ∀ s, P s → R a s) :
    Talks channel stuck P [] (pure a : EStateM ε σ α) R :=
  silent fun s before => ⟨a, s, rfl, holds s before, rfl, fun _ hears => hears⟩

/-- Two dialogues, one after the other. -/
theorem bind (one : Talks channel stuck P first x R)
    (two : ∀ a, Talks channel stuck (R a) second (f a) T) :
    Talks channel stuck P (first ++ second) (x >>= f) T := by
  intro s answers before hears answered
  obtain ⟨early, late⟩ := answered_append.mp answered
  obtain ⟨ends, waits⟩ := one s answers before hears early
  by_cases enough : first.length ≤ answers.length
  · obtain ⟨a, middle, ended, between, left, asked⟩ := ends enough
    have follows := two a middle (answers.drop first.length) between left late
    rw [List.length_drop] at follows
    rw [List.length_append, bind_of_ok ended]
    constructor
    · intro all
      obtain ⟨b, s', done, after, rest, asked'⟩ := follows.1 (by omega)
      refine ⟨b, s', done, after, ?_, ?_⟩
      · rwa [List.drop_drop] at rest
      · rw [asked', asked, List.map_append, List.append_assoc]
    · intro fewer
      obtain ⟨s', waiting, asked'⟩ := follows.2 (by omega)
      refine ⟨s', waiting, ?_⟩
      have split : (first ++ second).take (answers.length + 1) =
          first ++ second.take (answers.length - first.length + 1) := by
        rw [List.take_append, List.take_of_length_le (by omega)]
        congr 2
        omega
      rw [asked', asked, split, List.map_append, List.append_assoc]
  · have fewer := Nat.lt_of_not_le enough
    obtain ⟨s', waiting, asked⟩ := waits fewer
    refine ⟨fun all => ?_, fun _ => ⟨s', bind_of_error waiting, ?_⟩⟩
    · rw [List.length_append] at all
      omega
    · rw [asked, List.take_append_of_le_length (by omega)]

/-- What follows a dialogue without another question. -/
theorem bind_silent (one : Talks channel stuck P script x R)
    (two : ∀ a, Talks channel stuck (R a) [] (f a) T) :
    Talks channel stuck P script (x >>= f) T := by
  rw [← List.append_nil script]
  exact one.bind two

/-- A question, and what remains to be done with an answer that fits. -/
theorem ask {exchange : Exchange Question Answer}
    (heard : ∀ s answer answers, P s → channel.Hears s (answer :: answers) →
      exchange.Fits answer → ∃ s' y, x s = y s' ∧ Q s' ∧ Talks channel stuck Q script y R ∧
        channel.Hears s' answers ∧ channel.asked s' = channel.asked s ++ [exchange.question])
    (waits : ∀ s, P s → channel.Hears s [] → ∃ s', x s = .error stuck s' ∧
      channel.asked s' = channel.asked s ++ [exchange.question]) :
    Talks channel stuck P (exchange :: script) x R := by
  intro s answers before hears answered
  cases answers with
  | nil =>
    obtain ⟨s', stopped, asked⟩ := waits s before hears
    exact ⟨fun enough => absurd enough (Nat.not_succ_le_zero _), fun _ => ⟨s', stopped, asked⟩⟩
  | cons answer answers =>
    obtain ⟨fits, answered⟩ := answered_cons.mp answered
    obtain ⟨s', y, same, between, talks, left, asked⟩ := heard s answer answers before hears fits
    obtain ⟨ends, stops⟩ := talks s' answers between left answered
    rw [same]
    constructor
    · intro enough
      obtain ⟨a, last, ended, after, rest, asked'⟩ := ends (Nat.le_of_succ_le_succ enough)
      exact ⟨a, last, ended, after, rest, by rw [asked', asked, List.append_assoc]; rfl⟩
    · intro fewer
      obtain ⟨last, stopped, asked'⟩ := stops (Nat.lt_of_succ_lt_succ fewer)
      exact ⟨last, stopped, by rw [asked', asked, List.append_assoc]; rfl⟩

theorem weaken (talks : Talks channel stuck P script x R) (before : ∀ s, Q s → P s)
    (after : ∀ a s, R a s → S a s) : Talks channel stuck Q script x S := by
  intro s answers holds hears answered
  obtain ⟨ends, waits⟩ := talks s answers (before s holds) hears answered
  refine ⟨fun enough => ?_, waits⟩
  obtain ⟨a, s', ended, result, rest⟩ := ends enough
  exact ⟨a, s', ended, after a s' result, rest⟩

/-- A dialogue on a part of the state keeps what is true of the rest. -/
theorem zoom {part : τ → σ} {put : τ → σ → τ} {F : τ → Prop} (put_part : ∀ t s, part (put t s) = s)
    (frame : ∀ t s, F t → F (put t s)) (talks : Talks channel stuck P script x R) :
    Talks (channel.of part) stuck (fun t => P (part t) ∧ F t) script
      (Foundation.zoom part put x) (fun a t => R a (part t) ∧ F t) := by
  rintro t answers ⟨before, kept⟩ hears answered
  obtain ⟨ends, waits⟩ := talks (part t) answers before hears answered
  constructor
  · intro enough
    obtain ⟨a, s, ended, after, left, asked⟩ := ends enough
    refine ⟨a, put t s, zoom_of_ok ended, ⟨?_, frame t s kept⟩, ?_, ?_⟩
    · rwa [put_part]
    · simpa only [Channel.of, put_part] using left
    · simpa only [Channel.of, put_part] using asked
  · intro fewer
    obtain ⟨s, waiting, asked⟩ := waits fewer
    exact ⟨put t s, zoom_of_error waiting, by simpa only [Channel.of, put_part] using asked⟩

end Talks

end Foundation
