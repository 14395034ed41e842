import Mathlib.Algebra.Order.Group.Nat
import Mathlib.Data.List.Basic
import Mathlib.Logic.Function.Basic

/-!
# Reliable channels between ordered queues

The k-th message sent over a channel fills the k-th buffer posted, and filled
buffers are reported in that order. Both logs are kept whole; cursors count the
deliveries and the reports, and are valid by construction. Of a channel whose
user gives buffers back in order, `held` are those reported and not given back.
-/

namespace Foundation

universe u v

structure OrderedChannel (Message : Type u) (Buffer : Type v) where
  sent : List Message
  posted : List Buffer
  delivered : ℕ
  reported : ℕ
  delivered_le_sent : delivered ≤ sent.length
  delivered_le_posted : delivered ≤ posted.length
  reported_le : reported ≤ delivered

namespace OrderedChannel

variable {Message : Type u} {Buffer : Type v}

def start (buffers : List Buffer) : OrderedChannel Message Buffer where
  sent := []
  posted := buffers
  delivered := 0
  reported := 0
  delivered_le_sent := Nat.zero_le _
  delivered_le_posted := Nat.zero_le _
  reported_le := Nat.le_refl Nat.zero

def send (messages : List Message) (channel : OrderedChannel Message Buffer) :
    OrderedChannel Message Buffer where
  sent := channel.sent ++ messages
  posted := channel.posted
  delivered := channel.delivered
  reported := channel.reported
  delivered_le_sent := channel.delivered_le_sent.trans (List.sublist_append_left _ _).length_le
  delivered_le_posted := channel.delivered_le_posted
  reported_le := channel.reported_le

def post (buffers : List Buffer) (channel : OrderedChannel Message Buffer) :
    OrderedChannel Message Buffer where
  sent := channel.sent
  posted := channel.posted ++ buffers
  delivered := channel.delivered
  reported := channel.reported
  delivered_le_sent := channel.delivered_le_sent
  delivered_le_posted := channel.delivered_le_posted.trans (List.sublist_append_left _ _).length_le
  reported_le := channel.reported_le

/-- The next message arrives in the next buffer. -/
def deliver (channel : OrderedChannel Message Buffer)
    (message : channel.delivered < channel.sent.length)
    (buffer : channel.delivered < channel.posted.length) : OrderedChannel Message Buffer where
  sent := channel.sent
  posted := channel.posted
  delivered := channel.delivered + 1
  reported := channel.reported
  delivered_le_sent := message
  delivered_le_posted := buffer
  reported_le := Nat.le_succ_of_le channel.reported_le

def report (channel : OrderedChannel Message Buffer) (count : ℕ)
    (inTime : channel.reported + count ≤ channel.delivered) : OrderedChannel Message Buffer where
  sent := channel.sent
  posted := channel.posted
  delivered := channel.delivered
  reported := channel.reported + count
  delivered_le_sent := channel.delivered_le_sent
  delivered_le_posted := channel.delivered_le_posted
  reported_le := inTime

/-- The next `count` buffers to be reported. -/
def next (channel : OrderedChannel Message Buffer) (count : ℕ) : List Buffer :=
  (channel.posted.drop channel.reported).take count

/-- The buffers reported, without the first `released`. -/
def held (channel : OrderedChannel Message Buffer) (released : ℕ) : List Buffer :=
  (channel.posted.take channel.reported).drop released

/-- The buffers posted and not reported. -/
def waiting (channel : OrderedChannel Message Buffer) : List Buffer :=
  channel.posted.drop channel.reported

variable {channel : OrderedChannel Message Buffer} {released count : ℕ}

theorem reported_le_posted (channel : OrderedChannel Message Buffer) :
    channel.reported ≤ channel.posted.length :=
  channel.reported_le.trans channel.delivered_le_posted

@[simp] theorem held_send {messages : List Message} :
    (channel.send messages).held released = channel.held released := rfl

@[simp] theorem waiting_send {messages : List Message} :
    (channel.send messages).waiting = channel.waiting := rfl

@[simp] theorem delivered_send {messages : List Message} :
    (channel.send messages).delivered = channel.delivered := rfl

@[simp] theorem delivered_post {buffers : List Buffer} :
    (channel.post buffers).delivered = channel.delivered := rfl

/-- What was delivered stays as it was logged. -/
theorem sent_send {messages : List Message} {position : ℕ}
    (before : position < channel.delivered) :
    (channel.send messages).sent[position]? = channel.sent[position]? :=
  List.getElem?_append_left (before.trans_le channel.delivered_le_sent)

theorem posted_post {buffers : List Buffer} {position : ℕ}
    (before : position < channel.delivered) :
    (channel.post buffers).posted[position]? = channel.posted[position]? :=
  List.getElem?_append_left (before.trans_le channel.delivered_le_posted)

/-- A delivery on one of several channels changes no report. -/
theorem update_deliver {ι : Type u} [DecidableEq ι] {channels : ι → OrderedChannel Message Buffer}
    {i : ι} {message : (channels i).delivered < (channels i).sent.length}
    {buffer : (channels i).delivered < (channels i).posted.length} (j : ι) :
    (Function.update channels i ((channels i).deliver message buffer) j).reported =
        (channels j).reported ∧
      (Function.update channels i ((channels i).deliver message buffer) j).posted =
        (channels j).posted := by
  by_cases here : j = i
  · subst here
    rw [Function.update_self]
    exact ⟨rfl, rfl⟩
  · rw [Function.update_of_ne here]
    exact ⟨rfl, rfl⟩

theorem held_length : (channel.held released).length = channel.reported - released := by
  rw [held, List.length_drop, List.length_take, Nat.min_eq_left channel.reported_le_posted]

theorem next_waiting : channel.next count ++ (channel.waiting).drop count = channel.waiting :=
  List.take_append_drop _ _

/-- What is held and what waits are the buffers not given back. -/
theorem held_waiting (inside : released ≤ channel.reported) :
    channel.held released ++ channel.waiting = channel.posted.drop released := by
  have whole := List.take_append_drop channel.reported channel.posted
  have short : released ≤ (channel.posted.take channel.reported).length := by
    rw [List.length_take]
    exact le_min inside (inside.trans channel.reported_le_posted)
  rw [held, waiting, ← List.drop_append_of_le_length short, whole]

theorem held_getElem? {position : ℕ} (inside : released + position < channel.reported) :
    (channel.held released)[position]? = channel.posted[released + position]? := by
  rw [held, List.getElem?_drop, List.getElem?_take_of_lt inside]

/-- Reported buffers are held in the order of the reports. -/
theorem held_report {inTime : channel.reported + count ≤ channel.delivered}
    (inside : released ≤ channel.reported) :
    (channel.report count inTime).held released = channel.held released ++ channel.next count := by
  have short : released ≤ (channel.posted.take channel.reported).length := by
    rw [List.length_take]
    exact le_min inside (inside.trans channel.reported_le_posted)
  rw [held, held, next, ← List.drop_append_of_le_length short]
  simp only [report]
  rw [List.take_add]

theorem held_post {buffers : List Buffer} :
    (channel.post buffers).held released = channel.held released := by
  rw [held, held]
  simp only [post]
  rw [List.take_append_of_le_length channel.reported_le_posted]

theorem held_drop {more : ℕ} :
    (channel.held released).drop more = channel.held (released + more) := by
  rw [held, held, List.drop_drop]

theorem waiting_post {buffers : List Buffer} :
    (channel.post buffers).waiting = channel.waiting ++ buffers :=
  List.drop_append_of_le_length channel.reported_le_posted

theorem waiting_report {inTime : channel.reported + count ≤ channel.delivered} :
    (channel.report count inTime).waiting = channel.waiting.drop count := by
  rw [waiting, waiting, List.drop_drop]
  rfl

/-- The logs of a channel at a later time: nothing that was logged changes. -/
structure Extends (later channel : OrderedChannel Message Buffer) : Prop where
  sent : channel.sent <+: later.sent
  posted : channel.posted <+: later.posted
  delivered : channel.delivered ≤ later.delivered

section Extends

variable {earlier later : OrderedChannel Message Buffer}

theorem Extends.refl (channel : OrderedChannel Message Buffer) : channel.Extends channel :=
  ⟨List.prefix_rfl, List.prefix_rfl, le_rfl⟩

theorem Extends.trans (second : later.Extends channel) (first : channel.Extends earlier) :
    later.Extends earlier :=
  ⟨first.sent.trans second.sent, first.posted.trans second.posted,
    first.delivered.trans second.delivered⟩

theorem extends_send {messages : List Message} : (channel.send messages).Extends channel :=
  ⟨List.prefix_append _ _, List.prefix_rfl, le_rfl⟩

theorem extends_deliver {message : channel.delivered < channel.sent.length}
    {buffer : channel.delivered < channel.posted.length} :
    (channel.deliver message buffer).Extends channel :=
  ⟨List.prefix_rfl, List.prefix_rfl, Nat.le_succ _⟩

theorem extends_report_post {inTime : channel.reported + count ≤ channel.delivered}
    {buffers : List Buffer} : ((channel.report count inTime).post buffers).Extends channel :=
  ⟨List.prefix_rfl, List.prefix_append _ _, le_rfl⟩

/-- A message keeps its place. -/
theorem Extends.sent_getElem? (extended : later.Extends channel) {position : ℕ}
    (before : position < channel.sent.length) :
    later.sent[position]? = channel.sent[position]? := by
  obtain ⟨more, same⟩ := extended.sent
  rw [← same, List.getElem?_append_left before]

theorem Extends.posted_getElem? (extended : later.Extends channel) {position : ℕ}
    (before : position < channel.posted.length) :
    later.posted[position]? = channel.posted[position]? := by
  obtain ⟨more, same⟩ := extended.posted
  rw [← same, List.getElem?_append_left before]

end Extends

end OrderedChannel

end Foundation
