import Mathlib.Algebra.BigOperators.Group.Finset.Piecewise
import Lseb.Launcher.Manager

/-!
# The job comes up

However the process manager interleaves the requests, each process reads what
the others have put: nobody reads before everybody has put, since the barrier
is between. A process that has no answer yet waits for it.
-/

namespace Lseb

open Foundation Wire Pmiu Pmi HydraLauncher JobConf

section Names

variable {key key' value : CString} {i i' : ℕ}

theorem isDigit_within {c : Char} (digit : c.isDigit = true) : endsKey c = false := by
  simp only [endsKey, endsValue, Bool.or_eq_false_iff, beq_eq_false_iff_ne]
  refine ⟨?_, ⟨?_, ?_⟩, ?_⟩ <;> rintro rfl <;> revert digit <;> decide

theorem toDigits_within (n : ℕ) : Within endsKey (Nat.toDigits 10 n) :=
  fun _ member => isDigit_within (Nat.isDigit_of_mem_toDigits (by decide) (by decide) member)

theorem decimal_within (z : ℤ) : Within endsKey (decimal z) := by
  cases z with
  | ofNat n => exact toDigits_within n
  | negSucc n => exact List.forall_mem_cons.mpr ⟨by decide, toDigits_within _⟩

theorem endsValue_within {word : CString} (within : Within endsKey word) :
    Within endsValue word :=
  fun c member => (Bool.or_eq_false_iff.mp (within c member)).2

theorem decimal_inj {n m : ℕ} (same : decimal n = decimal m) : n = m := by
  have digits : Nat.toDigits 10 n = Nat.toDigits 10 m := same
  rw [← Nat.ofDigitChars_ten_toDigits (n := n), digits, Nat.ofDigitChars_ten_toDigits]

theorem rankName_inj (same : rankName key i = rankName key i') : i = i' := by
  have digits := List.append_cancel_left same
  exact decimal_inj (List.cons.inj digits).2

theorem rankName_ne : rankName ipKey i ≠ rankName portKey i' := by
  intro same
  have first := congrArg List.head? same
  simp [rankName, ipKey, portKey] at first

theorem storable (name : Within endsKey key) (short : key.length ≤ 4)
    (word : Within endsValue value) (fits : value.length ≤ 900) (small : i < 2 ^ 31) :
    Storable (rankName key i) value := by
  have length := rankName_length small short
  refine ⟨⟨?_, ?_, word, ?_, ?_⟩, fits⟩
  · simp [rankName]
  · exact within_append.mpr ⟨name, List.forall_mem_cons.mpr ⟨by decide, decimal_within _⟩⟩
  · rw [maxKeyLen]
    dsimp only
    omega
  · rw [maxValLen]
    dsimp only
    omega

end Names

namespace Job

variable {pm : ProcessManager} {conf : JobConf} {kvsname : CString} {job : Job pm} {rank : ℕ}

/-- The requests served are all in the store. -/
structure Puts (conf : JobConf) (served : ℕ → ℕ) (store : CString → Option CString) : Prop where
  ip : ∀ i < conf.size, 4 ≤ served i → store (rankName ipKey i) = some (conf.ip i)
  port : ∀ i < conf.size, 5 ≤ served i → store (rankName portKey i) = some (conf.portStr i)

section Puts

variable {served : ℕ → ℕ} {store : CString → Option CString} (puts : Puts conf served store)

include puts

/-- A request that puts nothing. -/
theorem Puts.keep (ip : served rank ≠ 3) (port : served rank ≠ 4) :
    Puts conf (Function.update served rank (served rank + 1)) store := by
  constructor <;> intro i below enough <;> by_cases same : i = rank
  · subst same
    rw [Function.update_self] at enough
    exact puts.ip i below (by omega)
  · rw [Function.update_of_ne same] at enough
    exact puts.ip i below enough
  · subst same
    rw [Function.update_self] at enough
    exact puts.port i below (by omega)
  · rw [Function.update_of_ne same] at enough
    exact puts.port i below enough

theorem Puts.putIp (ip : served rank = 3) :
    Puts conf (Function.update served rank (served rank + 1))
      (Function.update store (rankName ipKey rank) (some (conf.ip rank))) := by
  constructor <;> intro i below enough
  · by_cases same : i = rank
    · rw [same, Function.update_self]
    · rw [Function.update_of_ne same] at enough
      rw [Function.update_of_ne fun names => same (rankName_inj names)]
      exact puts.ip i below enough
  · rw [Function.update_of_ne rankName_ne.symm]
    by_cases same : i = rank
    · subst same
      rw [Function.update_self] at enough
      omega
    · rw [Function.update_of_ne same] at enough
      exact puts.port i below enough

theorem Puts.putPort (port : served rank = 4) :
    Puts conf (Function.update served rank (served rank + 1))
      (Function.update store (rankName portKey rank) (some (conf.portStr rank))) := by
  constructor <;> intro i below enough
  · rw [Function.update_of_ne rankName_ne]
    by_cases same : i = rank
    · subst same
      exact puts.ip i below (by omega)
    · rw [Function.update_of_ne same] at enough
      exact puts.ip i below enough
  · by_cases same : i = rank
    · rw [same, Function.update_self]
    · rw [Function.update_of_ne same] at enough
      rw [Function.update_of_ne fun names => same (rankName_inj names)]
      exact puts.port i below enough

end Puts

/-- A rank waits in the barrier when its request has been served and not answered. -/
structure Sound (conf : JobConf) {kvsname : CString} (board : Board pm conf.size kvsname)
    (job : Job pm) : Prop where
  lines : ∀ i < conf.size, ∀ line ∈ job.replies i, Line line
  answered : ∀ i < conf.size, Answered (conf.script kvsname i) (job.replies i)
  bounded : ∀ i < conf.size, (job.replies i).length ≤ 6 + 2 * conf.size
  served : ∀ i < conf.size, i ∉ board.waits job.manager → job.served i = (job.replies i).length
  waiting : ∀ i ∈ board.waits job.manager, i < conf.size →
    (job.replies i).length = 5 ∧ job.served i = 6
  gap : 0 < conf.size → ∃ other < conf.size, other ∉ board.waits job.manager
  puts : Puts conf job.served (board.store job.manager)
  passed : ∀ i < conf.size, 6 ≤ (job.replies i).length → ∀ other < conf.size,
    6 ≤ (job.replies other).length

/-- The values fit the messages. -/
structure Wordy (conf : JobConf) (kvsname : CString) : Prop where
  small : conf.Small kvsname
  word : ∀ i < conf.size, Within endsValue (conf.ip i)

theorem sound_start (board : Board pm conf.size kvsname) : Sound conf board (start pm) where
  lines := by simp [start]
  answered := by simp [start, Answered]
  bounded := by simp [start]
  served := by simp [start]
  waiting := by simp [start, board.waits_start]
  gap := fun positive => ⟨0, positive, by simp [start, board.waits_start]⟩
  puts := ⟨by simp [start], by simp [start]⟩
  passed := by simp [start]

section Values

variable (wordy : Wordy conf kvsname) (below : rank < conf.size)

include wordy below

theorem Wordy.storable_ip : Storable (rankName ipKey rank) (conf.ip rank) := by
  have fits := wordy.small.ip rank below
  have name : Within endsKey ipKey := by decide
  exact storable name (by decide) (wordy.word rank below) (by omega) (wordy.small.digits below)

theorem Wordy.storable_port : Storable (rankName portKey rank) (conf.portStr rank) := by
  have fits := wordy.small.port rank below
  have name : Within endsKey portKey := by decide
  exact storable name (by decide) (endsValue_within (decimal_within _)) (by omega)
    (wordy.small.digits below)

end Values

section Steps

variable {board : Board pm conf.size kvsname} (sound : Sound conf board job)

include sound

theorem Sound.served_le {i : ℕ} (below : i < conf.size) : job.served i ≤ 6 + 2 * conf.size := by
  by_cases waits : i ∈ board.waits job.manager
  · have := (sound.waiting i waits below).2
    omega
  · rw [sound.served i below waits]
    exact sound.bounded i below

/-- What is asked by a rank, after the answers that it has. -/
theorem Sound.requests (small : conf.Small kvsname) (below : rank < conf.size) :
    job.requests conf rank = ((conf.script kvsname rank).take
      ((job.replies rank).length + 1)).map Exchange.question :=
  launch_written small below (whole_gives _) (sound.lines rank below) (sound.answered rank below)

/-- The next request is that of a rank which is not in the barrier. -/
theorem Sound.asks (small : conf.Small kvsname) (below : rank < conf.size) {request : CString}
    (asked : (job.requests conf rank)[job.served rank]? = some request) :
    rank ∉ board.waits job.manager ∧ job.served rank = (job.replies rank).length ∧
      ∃ exchange, (conf.script kvsname rank)[(job.replies rank).length]? = some exchange ∧
        exchange.question = request := by
  rw [sound.requests small below, List.getElem?_map, Option.map_eq_some_iff] at asked
  obtain ⟨exchange, found, question⟩ := asked
  obtain ⟨inside, _⟩ := List.getElem?_eq_some_iff.mp found
  have near := (List.length_take_le _ _).trans_lt' inside
  have free : rank ∉ board.waits job.manager := by
    intro waits
    obtain ⟨replies, served⟩ := sound.waiting rank waits below
    omega
  have level := sound.served rank below free
  rw [level, List.getElem?_take_of_lt (Nat.lt_succ_self _)] at found
  exact ⟨free, level, exchange, found, question⟩

/-- A request that is answered at once, and not at the barrier. -/
theorem Sound.single {exchange : Exchange CString CString} {left : CString → Option CString}
    (below : rank < conf.size) (free : rank ∉ board.waits job.manager)
    (asked : (conf.script kvsname rank)[(job.replies rank).length]? = some exchange)
    (early : (job.replies rank).length ≠ 5)
    (handles : Handles pm board.store board.waits rank exchange.question job.manager left
      exchange.Fits)
    (puts : Puts conf (Function.update job.served rank (job.served rank + 1)) left) :
    Sound conf board (job.serve rank exchange.question) := by
  obtain ⟨line, sent, isLine, fits⟩ := handles.answers.line
  have self : (job.serve rank exchange.question).replies rank = job.replies rank ++ [line] := by
    rw [serve_replies, sent]
  have others : ∀ i ≠ rank, (job.serve rank exchange.question).replies i = job.replies i := by
    intro i differ
    rw [serve_replies, handles.answers.silent i differ, List.append_nil]
  have waits : board.waits (job.serve rank exchange.question).manager =
      board.waits job.manager := handles.waits
  have more : ∀ i, (job.replies i).length ≤
      ((job.serve rank exchange.question).replies i).length :=
    fun i => by simp [serve_replies]
  constructor
  case lines =>
    intro i inside
    by_cases same : i = rank
    · subst same
      rw [self]
      exact List.forall_mem_append.mpr ⟨sound.lines i inside, by simpa using isLine⟩
    · rw [others i same]
      exact sound.lines i inside
  case answered =>
    intro i inside
    by_cases same : i = rank
    · subst same
      rw [self]
      exact (sound.answered i inside).snoc asked fits
    · rw [others i same]
      exact sound.answered i inside
  case bounded =>
    intro i inside
    by_cases same : i = rank
    · subst same
      obtain ⟨short, _⟩ := List.getElem?_eq_some_iff.mp asked
      rw [script_length] at short
      rw [self, List.length_append, List.length_singleton]
      omega
    · rw [others i same]
      exact sound.bounded i inside
  case served =>
    intro i inside out
    rw [waits] at out
    have level := sound.served i inside out
    by_cases same : i = rank
    · subst same
      rw [self, serve_self, List.length_append, List.length_singleton, level]
    · rw [others i same, serve_other job rank _ same, level]
  case waiting =>
    intro i inBarrier inside
    rw [waits] at inBarrier
    have differ : i ≠ rank := fun same => free (same ▸ inBarrier)
    rw [others i differ, serve_other job rank _ differ]
    exact sound.waiting i inBarrier inside
  case gap =>
    rw [waits]
    exact sound.gap
  case puts =>
    rw [← handles.store] at puts
    exact puts
  case passed =>
    intro i inside enough other within
    have old : 6 ≤ (job.replies i).length := by
      by_cases same : i = rank
      · subst same
        rw [self, List.length_append, List.length_singleton] at enough
        omega
      · rwa [others i same] at enough
    exact (sound.passed i inside old other within).trans (more other)

/-- Every request but that at the barrier is answered at once. -/
theorem Sound.handles (wordy : Wordy conf kvsname) (below : rank < conf.size)
    {exchange : Exchange CString CString} (free : rank ∉ board.waits job.manager)
    (asked : (conf.script kvsname rank)[(job.replies rank).length]? = some exchange)
    (early : (job.replies rank).length ≠ 5) :
    ∃ left, Handles pm board.store board.waits rank exchange.question job.manager left
      exchange.Fits ∧ Puts conf (Function.update job.served rank (job.served rank + 1)) left := by
  have level := sound.served rank below free
  by_cases later : 6 ≤ (job.replies rank).length
  · have keeps : Puts conf (Function.update job.served rank (job.served rank + 1))
        (board.store job.manager) := sound.puts.keep (by omega) (by omega)
    have put : ∀ i < conf.size, 6 ≤ job.served i := by
      intro i inside
      have answered := sound.passed rank below later i inside
      rwa [sound.served i inside fun waits => by
        have := (sound.waiting i waits inside).1
        omega]
    obtain ⟨i, inside, rfl | rfl⟩ := script_later later asked
    · have stored := sound.puts.ip i inside (by have := put i inside; omega)
      exact ⟨_, board.get rank _ _ _ (wordy.storable_ip inside) stored, keeps⟩
    · have stored := sound.puts.port i inside (by have := put i inside; omega)
      exact ⟨_, board.get rank _ _ _ (wordy.storable_port inside) stored, keeps⟩
  · rw [script, List.getElem?_append_left (by simpa [joins] using later)] at asked
    obtain first | second | third | fourth | fifth : (job.replies rank).length = 0 ∨
        (job.replies rank).length = 1 ∨ (job.replies rank).length = 2 ∨
        (job.replies rank).length = 3 ∨ (job.replies rank).length = 4 := by omega
    · rw [first] at asked level
      cases asked
      exact ⟨_, board.init rank _, sound.puts.keep (by omega) (by omega)⟩
    · rw [second] at asked level
      cases asked
      exact ⟨_, board.maxes rank _, sound.puts.keep (by omega) (by omega)⟩
    · rw [third] at asked level
      cases asked
      exact ⟨_, board.name rank _, sound.puts.keep (by omega) (by omega)⟩
    · rw [fourth] at asked level
      cases asked
      exact ⟨_, board.put rank _ _ _ (wordy.storable_ip below), sound.puts.putIp level⟩
    · rw [fifth] at asked level
      cases asked
      exact ⟨_, board.put rank _ _ _ (wordy.storable_port below), sound.puts.putPort level⟩

/-- The first processes at the barrier wait. -/
theorem Sound.wait (below : rank < conf.size) (free : rank ∉ board.waits job.manager)
    (fifth : (job.replies rank).length = 5)
    (missing : ∃ other < conf.size, other ≠ rank ∧ other ∉ board.waits job.manager) :
    Sound conf board (job.serve rank barrierLine) := by
  obtain ⟨stores, waits, quiet⟩ := board.wait rank job.manager missing
  have level := sound.served rank below free
  have same : ∀ i, (job.serve rank barrierLine).replies i = job.replies i := by
    intro i
    rw [serve_replies, quiet i, List.append_nil]
  constructor
  case lines => exact fun i inside => same i ▸ sound.lines i inside
  case answered => exact fun i inside => same i ▸ sound.answered i inside
  case bounded => exact fun i inside => same i ▸ sound.bounded i inside
  case served =>
    intro i inside out
    rw [serve, waits, Set.mem_insert_iff, not_or] at out
    rw [same i, serve_other job rank _ out.1, sound.served i inside out.2]
  case waiting =>
    intro i inBarrier inside
    rw [serve, waits] at inBarrier
    rw [same i]
    by_cases self : i = rank
    · subst self
      rw [serve_self, level]
      exact ⟨fifth, congrArg (· + 1) fifth⟩
    · rw [serve_other job rank _ self]
      exact sound.waiting i (Set.mem_of_mem_insert_of_ne inBarrier self) inside
  case gap =>
    obtain ⟨other, inside, differ, out⟩ := missing
    refine fun _ => ⟨other, inside, ?_⟩
    rw [serve, waits, Set.mem_insert_iff, not_or]
    exact ⟨differ, out⟩
  case puts =>
    rw [serve, stores]
    exact sound.puts.keep (by omega) (by omega)
  case passed =>
    intro i inside enough other within
    rw [same i] at enough
    rw [same other]
    exact sound.passed i inside enough other within

/-- The last one lets all of them out. -/
theorem Sound.release (below : rank < conf.size) (free : rank ∉ board.waits job.manager)
    (fifth : (job.replies rank).length = 5)
    (all : ∀ other < conf.size, other ≠ rank → other ∈ board.waits job.manager) :
    Sound conf board (job.serve rank barrierLine) := by
  obtain ⟨stores, waits, tells⟩ := board.release rank job.manager all
  have level := sound.served rank below free
  have five : ∀ i < conf.size, (job.replies i).length = 5 := by
    intro i inside
    by_cases self : i = rank
    · rw [self, fifth]
    · exact (sound.waiting i (all i inside self) inside).1
  have six : ∀ i < conf.size, ((job.serve rank barrierLine).replies i).length = 6 := by
    intro i inside
    obtain ⟨line, sent, _⟩ := tells i inside
    rw [serve_replies, sent, List.length_append, five i inside]
    rfl
  constructor
  case lines =>
    intro i inside
    obtain ⟨line, sent, isLine, _⟩ := tells i inside
    rw [serve_replies, sent]
    exact List.forall_mem_append.mpr ⟨sound.lines i inside, by simpa using isLine⟩
  case answered =>
    intro i inside
    obtain ⟨line, sent, _, fits⟩ := tells i inside
    rw [serve_replies, sent]
    have asked : (conf.script kvsname i)[(job.replies i).length]? =
        some ⟨barrierLine, Reply "barrier_out" fun _ => True⟩ := by
      rw [five i inside]
      rfl
    exact (sound.answered i inside).snoc asked fits
  case bounded =>
    intro i inside
    rw [six i inside]
    omega
  case served =>
    intro i inside _
    rw [six i inside]
    by_cases self : i = rank
    · rw [self, serve_self, level, fifth]
    · rw [serve_other job rank _ self, (sound.waiting i (all i inside self) inside).2]
  case waiting =>
    intro i inBarrier
    rw [serve, waits] at inBarrier
    exact absurd inBarrier (Set.notMem_empty i)
  case gap =>
    refine fun positive => ⟨0, positive, ?_⟩
    rw [serve, waits]
    exact Set.notMem_empty 0
  case puts =>
    rw [serve, stores]
    exact sound.puts.keep (by omega) (by omega)
  case passed =>
    intro i _ _ other within
    rw [six other within]

theorem Sound.step (wordy : Wordy conf kvsname) {job' : Job pm} (step : Step conf job rank job') :
    Sound conf board job' := by
  obtain ⟨below, asked⟩ := step
  obtain ⟨free, _, exchange, found, rfl⟩ := sound.asks wordy.small below asked
  by_cases fifth : (job.replies rank).length = 5
  · rw [fifth] at found
    cases found
    by_cases missing : ∃ other < conf.size, other ≠ rank ∧ other ∉ board.waits job.manager
    · exact sound.wait below free fifth missing
    · push Not at missing
      exact sound.release below free fifth missing
  · obtain ⟨left, handles, puts⟩ := sound.handles wordy below free found fifth
    exact sound.single below free found fifth handles puts

/-- With nothing left to serve, every process has all its answers. -/
theorem Sound.quiet (wordy : Wordy conf kvsname)
    (stuck : ∀ rank job', ¬Step conf job rank job') (below : rank < conf.size) :
    (job.replies rank).length = 6 + 2 * conf.size := by
  have full : ∀ i < conf.size, i ∉ board.waits job.manager →
      (job.replies i).length = 6 + 2 * conf.size := by
    intro i inside free
    by_contra differ
    have fewer := lt_of_le_of_ne (sound.bounded i inside) differ
    have asks : job.served i < (job.requests conf i).length := by
      rw [sound.requests wordy.small inside, sound.served i inside free, List.length_map,
        List.length_take, script_length]
      omega
    exact stuck i _ (.serve inside (List.getElem?_eq_getElem asks))
  obtain ⟨first, inside, free⟩ := sound.gap (Nat.zero_lt_of_lt below)
  refine full rank below fun waits => ?_
  have later : 6 ≤ (job.replies first).length := by
    rw [full first inside free]
    omega
  have passed := sound.passed first inside later rank below
  rw [(sound.waiting rank waits below).1] at passed
  omega

end Steps

section Runs

variable {board : Board pm conf.size kvsname} {trace : List ℕ} (wordy : Wordy conf kvsname)
  (run : Run (Step conf) (start pm) trace job)

include wordy run

theorem sound_of_run : Sound conf board job :=
  run.invariant (I := fun _ => Sound conf board) (sound_start board)
    fun _ _ _ _ _ sound taken => sound.step wordy taken

end Runs

omit kvsname in
theorem served_of_run {trace : List ℕ} (run : Run (Step conf) (start pm) trace job) :
    ∑ i ∈ Finset.range conf.size, job.served i = trace.length := by
  refine run.invariant (I := fun trace job => ∑ i ∈ Finset.range conf.size, job.served i =
    trace.length) (by simp [start]) ?_
  rintro trace job rank next _ total ⟨below, _⟩
  have member := Finset.mem_range.mpr below
  have split := Finset.add_sum_erase _ job.served member
  rw [serve, Finset.sum_update_of_mem member, Finset.sdiff_singleton_eq_erase]
  rw [List.length_append, List.length_singleton, ← total]
  omega

theorem length_of_run (board : Board pm conf.size kvsname) (wordy : Wordy conf kvsname)
    {trace : List ℕ} (run : Run (Step conf) (start pm) trace job) :
    trace.length ≤ conf.size * (6 + 2 * conf.size) := by
  have sound : Sound conf board job := sound_of_run wordy run
  rw [← served_of_run run]
  refine (Finset.sum_le_card_nsmul _ _ _ fun i member =>
    sound.served_le (Finset.mem_range.mp member)).trans ?_
  rw [Finset.card_range, Nat.nsmul_eq_mul]

/-- In every run, however the answers are cut into reads, each process has returned the addresses
of all ranks or waits for an answer. No run is longer than the requests of all processes, and
where nothing is left to serve, every process has returned. -/
theorem exchange_agrees (board : Board pm conf.size kvsname) (wordy : Wordy conf kvsname)
    {trace : List ℕ} (run : Run (Step conf) (start pm) trace job) :
    trace.length ≤ conf.size * (6 + 2 * conf.size) ∧
    ∀ rank < conf.size, ∀ reads, Gives reads (job.replies rank).flatten →
      ((∃ launcher, conf.launch rank reads = .ok (rank, conf.endpoints) launcher) ∨
        ∃ launcher, conf.launch rank reads = .error waiting launcher) ∧
      ((∀ other job', ¬Step conf job other job') →
        ∃ launcher, conf.launch rank reads = .ok (rank, conf.endpoints) launcher) := by
  have sound : Sound conf board job := sound_of_run wordy run
  refine ⟨length_of_run board wordy run, fun rank below reads gives => ?_⟩
  have ends := launch_ends wordy.small below gives (sound.lines rank below)
    (sound.answered rank below)
  have waits := launch_waits wordy.small below gives (sound.lines rank below)
    (sound.answered rank below)
  rw [script_length] at ends waits
  constructor
  · by_cases enough : 6 + 2 * conf.size ≤ (job.replies rank).length
    · obtain ⟨launcher, ended, _⟩ := ends enough
      exact .inl ⟨launcher, ended⟩
    · obtain ⟨launcher, waited, _⟩ := waits (Nat.lt_of_not_le enough)
      exact .inr ⟨launcher, waited⟩
  · intro stuck
    obtain ⟨launcher, ended, _⟩ := ends (sound.quiet wordy stuck below).ge
    exact ⟨launcher, ended⟩

/-- Two processes on two nodes. -/
def twoNodes : JobConf where
  size := 2
  ip := fun i => if i = 0 then "10.0.0.1".toList else "10.0.0.2".toList
  port := 7000
  range := 100
  portFirst := false

theorem twoNodes_wordy : Wordy twoNodes "kvs_0".toList where
  small := {
    size := by decide
    range := by decide
    port := by decide
    ip := by decide }
  word := by decide

theorem exchange_agrees_two : ∃ trace job,
    Run (Step twoNodes) (start (kvsManager 2 "kvs_0".toList)) trace job ∧ trace.length ≤ 20 ∧
    ∀ rank < 2, ∃ launcher, twoNodes.launch rank (whole (job.replies rank)) = .ok
      (rank, [⟨"10.0.0.1".toList, "7000".toList⟩, ⟨"10.0.0.2".toList, "7001".toList⟩])
      launcher := by
  have board : Board (kvsManager 2 "kvs_0".toList) twoNodes.size "kvs_0".toList :=
    managerBoard 2 _ ⟨by decide, by decide⟩
  obtain ⟨trace, job, run, stuck⟩ := Run.exists_final fun trace job =>
    @length_of_run (kvsManager 2 "kvs_0".toList) twoNodes _ job board twoNodes_wordy trace
  obtain ⟨short, returned⟩ := exchange_agrees board twoNodes_wordy run
  refine ⟨trace, job, run, short, fun rank below => ?_⟩
  exact (returned rank below _ (whole_gives _)).2 stuck

end Job

end Lseb
