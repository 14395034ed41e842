import Mathlib.Algebra.BigOperators.Group.Finset.Basic
import Mathlib.Algebra.Order.BigOperators.Group.Finset
import Lseb.Foundation.Run
import Lseb.Launcher.Exchange

/-!
# Jobs

All processes of a job run the exchange against one process manager, which
handles their requests in any order. The manager is not part of the program:
what is assumed of it is that it keeps what is put, finds it again, and lets
the last process into the barrier before it lets any of them out.
-/

namespace Lseb

open Foundation Wire Pmiu Pmi HydraLauncher

/-- A process manager: what it does with a line of a rank, and what it sends to which rank. -/
structure ProcessManager where
  State : Type
  start : State
  handle : ℕ → CString → State → State × (ℕ → List CString)

/-- One line, to one rank. -/
structure Answers (rank : ℕ) (Fits : CString → Prop) (out : ℕ → List CString) : Prop where
  line : ∃ line, out rank = [line] ∧ Line line ∧ Fits line
  silent : ∀ other ≠ rank, out other = []

/-- A value that a message has room for. -/
structure Storable (key value : CString) : Prop where
  proper : Proper (key, value)
  short : value.length ≤ 900

section Board

variable (pm : ProcessManager)

/-- A request that is answered at once; the store may change. -/
structure Handles (store : pm.State → CString → Option CString) (waits : pm.State → Set ℕ)
    (rank : ℕ) (request : CString) (s : pm.State) (left : CString → Option CString)
    (Fits : CString → Prop) : Prop where
  store : store (pm.handle rank request s).1 = left
  waits : waits (pm.handle rank request s).1 = waits s
  answers : Answers rank Fits (pm.handle rank request s).2

/-- What is assumed of the process manager of a job: a key-value space, and a barrier. -/
structure Board (size : ℕ) (kvsname : CString) where
  store : pm.State → CString → Option CString
  waits : pm.State → Set ℕ
  waits_start : waits pm.start = ∅
  init : ∀ rank s,
    Handles pm store waits rank initLine s (store s) (Reply "response_to_init" rcZero)
  maxes : ∀ rank s, Handles pm store waits rank maxesLine s (store s) (Reply "maxes" smallMaxes)
  name : ∀ rank s,
    Handles pm store waits rank nameLine s (store s) (Reply "my_kvsname" (namesKvs kvsname))
  put : ∀ rank key value s, Storable key value →
    Handles pm store waits rank (putLine kvsname key value) s
      (Function.update (store s) key (some value)) (Reply "put_result" rcZero)
  get : ∀ rank key value s, Storable key value → store s key = some value →
    Handles pm store waits rank (getLine kvsname key) s (store s)
      (Reply "get_result" (hasValue value))
  wait : ∀ rank s, (∃ other < size, other ≠ rank ∧ other ∉ waits s) →
    store (pm.handle rank barrierLine s).1 = store s ∧
    waits (pm.handle rank barrierLine s).1 = insert rank (waits s) ∧
    ∀ other, (pm.handle rank barrierLine s).2 other = []
  release : ∀ rank s, (∀ other < size, other ≠ rank → other ∈ waits s) →
    store (pm.handle rank barrierLine s).1 = store s ∧
    waits (pm.handle rank barrierLine s).1 = ∅ ∧
    ∀ other < size, ∃ line, (pm.handle rank barrierLine s).2 other = [line] ∧ Line line ∧
      Reply "barrier_out" (fun _ => True) line

end Board

/-- The manager, what it has sent to each rank, and how many requests of each it has served. -/
structure Job (pm : ProcessManager) where
  manager : pm.State
  replies : ℕ → List CString
  served : ℕ → ℕ

namespace Job

variable {pm : ProcessManager}

def start (pm : ProcessManager) : Job pm := ⟨pm.start, fun _ => [], fun _ => 0⟩

/-- Lines that arrive one by one. -/
def whole : List CString → List FdRead
  | [] => []
  | [] :: lines => whole lines
  | (first :: rest) :: lines => .data first rest :: whole lines

/-- What a rank has asked, with the answers that it has so far. -/
def requests (conf : JobConf) (job : Job pm) (rank : ℕ) : List CString :=
  (final (conf.launch rank (whole (job.replies rank)))).pmi.wire.written

/-- The manager handles a request. -/
def serve (job : Job pm) (rank : ℕ) (request : CString) : Job pm where
  manager := (pm.handle rank request job.manager).1
  replies := fun i => job.replies i ++ (pm.handle rank request job.manager).2 i
  served := Function.update job.served rank (job.served rank + 1)

/-- The next request of a rank is served. -/
inductive Step (conf : JobConf) : Job pm → ℕ → Job pm → Prop where
  | serve {job : Job pm} {rank : ℕ} {request : CString} (below : rank < conf.size)
      (asked : (job.requests conf rank)[job.served rank]? = some request) :
      Step conf job rank (job.serve rank request)

theorem serve_replies (job : Job pm) (rank : ℕ) (request : CString) (i : ℕ) :
    (job.serve rank request).replies i =
      job.replies i ++ (pm.handle rank request job.manager).2 i := rfl

theorem serve_self (job : Job pm) (rank : ℕ) (request : CString) :
    (job.serve rank request).served rank = job.served rank + 1 := Function.update_self ..

theorem serve_other {i : ℕ} (job : Job pm) (rank : ℕ) (request : CString) (differ : i ≠ rank) :
    (job.serve rank request).served i = job.served i := Function.update_of_ne differ ..

theorem whole_gives (lines : List CString) : Gives (whole lines) lines.flatten := by
  induction lines using whole.induct with
  | case1 => exact .nil
  | case2 lines ih => simpa [whole] using ih
  | case3 first rest lines ih => exact .data ih

end Job

namespace JobConf

variable {conf : JobConf} {kvsname : CString} {rank : ℕ} {reads : List FdRead}
  {lines : List CString}

theorem script_length : (conf.script kvsname rank).length = 6 + 2 * conf.size := by
  have two : ∀ i, (conf.asksEndpoint kvsname i).length = 2 := by
    intro i
    rw [asksEndpoint]
    split_ifs <;> rfl
  simp [script, joins, List.length_flatMap, two]
  omega

/-- What is asked after the barrier. -/
theorem script_later {k : ℕ} {exchange : Exchange CString CString} (later : 6 ≤ k)
    (asked : (conf.script kvsname rank)[k]? = some exchange) :
    ∃ i < conf.size, exchange = asksValue kvsname ipKey (conf.ip i) i ∨
      exchange = asksValue kvsname portKey (conf.portStr i) i := by
  rw [script, List.getElem?_append_right later] at asked
  obtain ⟨i, inside, member⟩ := List.mem_flatMap.mp (List.mem_of_getElem? asked)
  refine ⟨i, by simpa using inside, ?_⟩
  rw [asksEndpoint] at member
  split_ifs at member <;> simp only [List.mem_cons, List.not_mem_nil, or_false] at member
  · exact member.symm
  · exact member

section Launch

variable (small : conf.Small kvsname) (below : rank < conf.size)
  (gives : Gives reads lines.flatten) (given : ∀ line ∈ lines, Line line)
  (answered : Answered (conf.script kvsname rank) lines)

include small below gives given answered

/-- With an answer to each of its questions, a process has the endpoints of the job. -/
theorem launch_ends (enough : (conf.script kvsname rank).length ≤ lines.length) :
    ∃ launcher, conf.launch rank reads = .ok (rank, conf.endpoints) launcher ∧
      launcher.pmi.wire.written = (conf.script kvsname rank).map Exchange.question := by
  obtain ⟨_, launcher, ended, rfl, _, asked⟩ :=
    (exchange_talks small below (conf.launcher rank reads) lines ⟨⟨rfl, rfl⟩, trivial⟩
      ⟨given, ⟨_, gives, rfl⟩, rfl⟩ answered).1 enough
  exact ⟨launcher, ended, asked⟩

/-- With fewer, it waits. -/
theorem launch_waits (fewer : lines.length < (conf.script kvsname rank).length) :
    ∃ launcher, conf.launch rank reads = .error waiting launcher ∧
      launcher.pmi.wire.written =
        ((conf.script kvsname rank).take (lines.length + 1)).map Exchange.question :=
  (exchange_talks small below (conf.launcher rank reads) lines ⟨⟨rfl, rfl⟩, trivial⟩
    ⟨given, ⟨_, gives, rfl⟩, rfl⟩ answered).2 fewer

theorem launch_written : (final (conf.launch rank reads)).pmi.wire.written =
    ((conf.script kvsname rank).take (lines.length + 1)).map Exchange.question := by
  by_cases enough : (conf.script kvsname rank).length ≤ lines.length
  · obtain ⟨launcher, ended, written⟩ := launch_ends small below gives given answered enough
    rw [ended, List.take_of_length_le (by omega)]
    exact written
  · obtain ⟨launcher, waited, written⟩ :=
      launch_waits small below gives given answered (Nat.lt_of_not_le enough)
    rw [waited]
    exact written

end Launch

end JobConf

end Lseb
