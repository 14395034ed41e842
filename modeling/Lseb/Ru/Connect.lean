import Lseb.Ru.ReadoutUnit

/-!
# Connecting the readout unit

Each builder unit is tried until an attempt goes through. An attempt enters
the new connection in the map before its memory is registered, so what is left
of a failed one depends on where it failed.
-/

namespace Lseb

open Foundation

/-- What an attempt meets: the error of `Connector::connect`, if there is one, and what
the fabric says to the registration of memory, if it is asked. -/
structure ConnectAttempt where
  refused : Option String
  unregistered : Option String
  deriving DecidableEq, Repr

/-- The connections, by the id of their builder unit. -/
abbrev Connections := ℕ → Option Socket

/-- What `catch (std::exception&)` catches; a failed assertion aborts. -/
def Error.isException : Error → Bool
  | .socketError _ | .runtimeError _ => true
  | .assertion _ | .fault _ | .exitFailure _ => false

namespace Connections

/-- `std::map::emplace`: an entry that is there already stays. -/
def emplace (id : ℕ) (socket : Socket) : EStateM Error Connections Bool := fun conns =>
  match conns id with
  | some _ => .ok false conns
  | none => .ok true (Function.update conns id (some socket))

/-- Use the connection of an id. -/
def onConnection {α : Type} (id : ℕ) (socket : Socket) (x : EStateM Error Socket α) :
    EStateM Error Connections α :=
  zoom (fun conns => (conns id).getD socket)
    (fun conns socket => Function.update conns id (some socket)) x

variable (t : Transport) (dataRange : Range) (credits : ℕ)

/-- The body of the `try` block. -/
def connectAttempt (id : ℕ) (met : ConnectAttempt) : EStateM Error Connections Unit := do
  match met.refused with
  | some text => throw (.runtimeError text)
  | none =>
    let inserted ← emplace id (.construct credits)
    attempt (assertThat (inserted = true) "ret.second && \"Connection already present\"")
    onConnection id (.construct credits) (Socket.tryRegisterMemory t dataRange.mBegin
      (dataRange.mEnd - dataRange.mBegin) met.unregistered)

/-- Try until an attempt goes through. -/
def connectOne (id : ℕ) : List ConnectAttempt → EStateM Error Connections Unit
  | [] => throw (.fault "still connecting")
  | met :: later => fun conns =>
    match connectAttempt t dataRange credits id met conns with
    | .ok _ conns' => .ok () conns'
    | .error e conns' => if e.isException then connectOne id later conns' else .error e conns'

def connectAll (met : ℕ → List ConnectAttempt) : List ℕ → EStateM Error Connections Unit
  | [] => pure ()
  | id :: ids => do
    connectOne t dataRange credits id (met id)
    connectAll met ids

/-- `ReadoutUnit::connect`, with the attempts that each endpoint takes. -/
def connect (id nodes : ℕ) (met : ℕ → List ConnectAttempt) : EStateM Error Connections Unit :=
  connectAll t dataRange credits met (createSequence id nodes)

end Connections

namespace ConnectAttempt

variable (t : Transport) (met : ConnectAttempt)

/-- The attempt gets past `Connector::connect` and fails in `Socket::register_memory`. -/
def FailsToRegister : Prop := met.refused = none ∧ t ≠ .fiTcp ∧ met.unregistered ≠ none

def Fails : Prop := met.refused ≠ none ∨ met.FailsToRegister t

/-- Some attempts that fail, and then one that does not. -/
def Schedule (attempts : List ConnectAttempt) : Prop :=
  ∃ failed last, attempts = failed ++ [last] ∧ (∀ met ∈ failed, met.Fails t) ∧ ¬last.Fails t

end ConnectAttempt

namespace Connections

variable {t : Transport} {dataRange : Range} {credits id : ℕ} {met : ConnectAttempt}
  {attempts : List ConnectAttempt} {conns : Connections}

/-- The assertion that fails when the id of an attempt has an entry already. -/
def present : Error := .assertion "ret.second && \"Connection already present\""

theorem connectAttempt_refused {text : String} (refused : met.refused = some text) :
    connectAttempt t dataRange credits id met conns = .error (.runtimeError text) conns := by
  rw [connectAttempt, refused]
  rfl

theorem connectAttempt_present (reached : met.refused = none) (occupied : (conns id).isSome) :
    connectAttempt t dataRange credits id met conns = .error present conns := by
  obtain ⟨socket, found⟩ := Option.isSome_iff_exists.mp occupied
  have emplaced : emplace id (.construct credits) conns = .ok false conns := by
    rw [emplace, found]
  rw [connectAttempt, reached]
  dsimp only
  rw [bind_of_ok emplaced]
  rfl

theorem connectAttempt_of_free (reached : met.refused = none) (free : conns id = none) :
    connectAttempt t dataRange credits id met conns =
      onConnection id (.construct credits) (Socket.tryRegisterMemory t dataRange.mBegin
        (dataRange.mEnd - dataRange.mBegin) met.unregistered)
        (Function.update conns id (some (.construct credits))) := by
  have emplaced : emplace id (.construct credits) conns =
      .ok true (Function.update conns id (some (.construct credits))) := by
    rw [emplace, free]
  rw [connectAttempt, reached]
  dsimp only
  rw [bind_of_ok emplaced]
  rfl

theorem onConnection_update {socket default : Socket} {α : Type}
    (x : EStateM Error Socket α) :
    onConnection id default x (Function.update conns id (some socket)) =
      zoom (fun _ => socket) (fun conns socket => Function.update conns id (some socket)) x
        conns := by
  simp [onConnection, zoom]

/-- An attempt that does not fail leaves the connection with the data registered. -/
theorem connectAttempt_ok (free : conns id = none) (succeeds : ¬met.Fails t) :
    connectAttempt t dataRange credits id met conns =
      .ok () (Function.update conns id (some (.connected t dataRange credits))) := by
  obtain ⟨reached, registers⟩ := not_or.mp succeeds
  have reached := not_not.mp reached
  have registered : Socket.tryRegisterMemory t dataRange.mBegin
      (dataRange.mEnd - dataRange.mBegin) met.unregistered (.construct credits) =
        .ok () (.connected t dataRange credits) := by
    cases t with
    | fiTcp => cases met.unregistered <;> rfl
    | verbs | fiVerbs =>
      have accepted : met.unregistered = none := by
        by_contra refused
        exact registers ⟨reached, nofun, refused⟩
      rw [accepted]
      rfl
  rw [connectAttempt_of_free reached free, onConnection_update]
  exact zoom_of_ok registered

/-- An attempt that fails to register leaves a connection without it. -/
theorem connectAttempt_unregistered (free : conns id = none) (fails : met.FailsToRegister t) :
    ∃ text, connectAttempt t dataRange credits id met conns =
      .error (.socketError text) (Function.update conns id (some (.construct credits))) := by
  obtain ⟨reached, registers, refused⟩ := fails
  obtain ⟨reason, refused⟩ := Option.ne_none_iff_exists'.mp refused
  have unregistered : ∃ text, Socket.tryRegisterMemory t dataRange.mBegin
      (dataRange.mEnd - dataRange.mBegin) met.unregistered (.construct credits) =
        .error (.socketError text) (.construct credits) := by
    rw [refused]
    cases t with
    | fiTcp => exact absurd rfl registers
    | verbs | fiVerbs => exact ⟨_, rfl⟩
  obtain ⟨text, unregistered⟩ := unregistered
  refine ⟨text, ?_⟩
  rw [connectAttempt_of_free reached free, onConnection_update]
  exact zoom_of_error unregistered

section Loop

variable {later : List ConnectAttempt} {conns' : Connections} {e : Error}

theorem connectOne_of_ok (connected : connectAttempt t dataRange credits id met conns =
    .ok () conns') : connectOne t dataRange credits id (met :: later) conns = .ok () conns' := by
  simp only [connectOne, connected]

theorem connectOne_caught (thrown : connectAttempt t dataRange credits id met conns =
    .error e conns') (caught : e.isException = true) :
    connectOne t dataRange credits id (met :: later) conns =
      connectOne t dataRange credits id later conns' := by
  simp only [connectOne, thrown, if_pos caught]

theorem connectOne_aborts (failed : connectAttempt t dataRange credits id met conns =
    .error e conns') (fatal : e.isException = false) :
    connectOne t dataRange credits id (met :: later) conns = .error e conns' := by
  simp [connectOne, failed, fatal]

end Loop

/-- Once there is an entry, the next attempt that connects aborts. -/
theorem connectOne_present (occupied : (conns id).isSome)
    (reached : ∃ met ∈ attempts, met.refused = none) :
    connectOne t dataRange credits id attempts conns = .error present conns := by
  induction attempts with
  | nil => simp at reached
  | cons met later ih =>
    cases refused : met.refused with
    | none => exact connectOne_aborts (connectAttempt_present refused occupied) rfl
    | some text =>
      rw [connectOne_caught (connectAttempt_refused refused) rfl]
      refine ih ?_
      simpa [refused] using reached

/-- The attempts for one endpoint: they end with its connection, or one of them failed
to register memory and a later one aborts. -/
theorem connectOne_cases (free : conns id = none) (schedule : ConnectAttempt.Schedule t attempts) :
    (∀ met ∈ attempts, ¬met.FailsToRegister t) ∧
        connectOne t dataRange credits id attempts conns =
          .ok () (Function.update conns id (some (.connected t dataRange credits))) ∨
      (∃ met ∈ attempts, met.FailsToRegister t) ∧
        ∃ conns', connectOne t dataRange credits id attempts conns = .error present conns' := by
  obtain ⟨failed, last, rfl, fails, succeeds⟩ := schedule
  induction failed with
  | nil =>
    left
    refine ⟨by simpa using (not_or.mp succeeds).2, ?_⟩
    exact connectOne_of_ok (connectAttempt_ok free succeeds)
  | cons met later ih =>
    obtain ⟨failsFirst, failsLater⟩ := List.forall_mem_cons.mp fails
    have rest := ih failsLater
    rw [List.cons_append]
    by_cases registers : met.FailsToRegister t
    · obtain ⟨text, unregistered⟩ :=
        @connectAttempt_unregistered t dataRange credits id met conns free registers
      have aborted := @connectOne_present t dataRange credits id (later ++ [last])
        (Function.update conns id (some (.construct credits))) (by simp)
        ⟨last, by simp, not_not.mp (not_or.mp succeeds).1⟩
      exact .inr ⟨⟨met, List.mem_cons_self, registers⟩, _,
        (connectOne_caught unregistered rfl).trans aborted⟩
    · obtain ⟨text, refused⟩ := Option.ne_none_iff_exists'.mp (failsFirst.resolve_right registers)
      rw [connectOne_caught (connectAttempt_refused refused) rfl]
      rcases rest with ⟨clean, connected⟩ | ⟨⟨bad, member, failsThere⟩, aborted⟩
      · exact .inl ⟨List.forall_mem_cons.mpr ⟨registers, clean⟩, connected⟩
      · exact .inr ⟨⟨bad, List.mem_cons_of_mem _ member, failsThere⟩, aborted⟩

/-- The endpoints of a list in turn, none of which has an entry yet. -/
theorem connectAll_cases {ids : List ℕ} {met : ℕ → List ConnectAttempt} (distinct : ids.Nodup)
    (free : ∀ id ∈ ids, conns id = none)
    (schedule : ∀ id ∈ ids, ConnectAttempt.Schedule t (met id)) :
    (∀ id ∈ ids, ∀ attempt ∈ met id, ¬attempt.FailsToRegister t) ∧
        connectAll t dataRange credits met ids conns = .ok () (fun id =>
          if id ∈ ids then some (.connected t dataRange credits) else conns id) ∨
      (∃ id ∈ ids, ∃ attempt ∈ met id, attempt.FailsToRegister t) ∧
        ∃ conns', connectAll t dataRange credits met ids conns = .error present conns' := by
  induction ids generalizing conns with
  | nil => exact .inl ⟨by simp, by simp [connectAll]⟩
  | cons id ids ih =>
    obtain ⟨fresh, distinct⟩ := List.nodup_cons.mp distinct
    obtain ⟨freeFirst, freeLater⟩ := List.forall_mem_cons.mp free
    obtain ⟨scheduleFirst, scheduleLater⟩ := List.forall_mem_cons.mp schedule
    rw [connectAll]
    rcases @connectOne_cases t dataRange credits id _ conns freeFirst scheduleFirst with
      ⟨clean, connected⟩ | ⟨bad, _, aborted⟩
    · have freeLater : ∀ other ∈ ids, Function.update conns id
          (some (Socket.connected t dataRange credits)) other = none := by
        intro other member
        have differs : other ≠ id := fun same => fresh (same ▸ member)
        rw [Function.update_of_ne differs]
        exact freeLater other member
      rw [bind_of_ok connected]
      rcases ih distinct freeLater scheduleLater with ⟨cleanLater, all⟩ | ⟨bad, aborted⟩
      · refine .inl ⟨List.forall_mem_cons.mpr ⟨clean, cleanLater⟩, ?_⟩
        rw [all]
        congr 1
        funext other
        by_cases same : other = id <;> simp [same]
      · obtain ⟨other, member, fails⟩ := bad
        exact .inr ⟨⟨other, List.mem_cons_of_mem _ member, fails⟩, aborted⟩
    · rw [bind_of_error aborted]
      exact .inr ⟨⟨id, List.mem_cons_self, bad⟩, _, rfl⟩

theorem connect_cases {id nodes : ℕ} {met : ℕ → List ConnectAttempt}
    (schedule : ∀ i < nodes, ConnectAttempt.Schedule t (met i)) :
    (∀ i < nodes, ∀ attempt ∈ met i, ¬attempt.FailsToRegister t) ∧
        connect t dataRange credits id nodes met (fun _ => none) = .ok () (fun i =>
          if i < nodes then some (.connected t dataRange credits) else none) ∨
      (∃ i < nodes, ∃ attempt ∈ met i, attempt.FailsToRegister t) ∧
        ∃ conns, connect t dataRange credits id nodes met (fun _ => none) =
          .error present conns := by
  have members : ∀ i, i ∈ createSequence id nodes ↔ i < nodes := by
    intro i
    rw [(createSequence_perm id nodes).mem_iff, List.mem_range]
  have outcome := @connectAll_cases t dataRange credits (fun _ => none) (createSequence id nodes)
    met ((createSequence_perm id nodes).nodup_iff.mpr List.nodup_range) (fun _ _ => rfl)
    (fun i member => schedule i ((members i).mp member))
  simp only [members] at outcome
  exact outcome

/-- What is connected is what `run` starts with. -/
theorem connect_start {σ : Type} (accumulator : σ) {id nodes : ℕ}
    {met : ℕ → List ConnectAttempt}
    (schedule : ∀ i < nodes, ConnectAttempt.Schedule t (met i))
    (connected : connect t dataRange credits id nodes met (fun _ => none) = .ok () conns) :
    ∀ i < nodes, conns i =
      some ((ReadoutUnit.start t accumulator dataRange credits id nodes).mConnectionIds i) := by
  intro i inside
  rcases connect_cases schedule with ⟨_, all⟩ | ⟨_, _, aborted⟩
  · cases connected.symm.trans all
    exact if_pos inside
  · cases connected.symm.trans aborted

/-- Connecting ends with a connection to every endpoint, exactly if no attempt fails to
register its memory; otherwise it aborts. Only such an attempt leaves an entry behind. -/
theorem connect_iff (t : Transport) (dataRange : Range) (credits id nodes : ℕ)
    (met : ℕ → List ConnectAttempt)
    (schedule : ∀ i < nodes, ConnectAttempt.Schedule t (met i)) :
    (connect t dataRange credits id nodes met (fun _ => none) = .ok () (fun i =>
        if i < nodes then some (.connected t dataRange credits) else none) ↔
      ∀ i < nodes, ∀ attempt ∈ met i, ¬attempt.FailsToRegister t) ∧
    ((∀ conns, connect t dataRange credits id nodes met (fun _ => none) ≠
        .error present conns) ↔
      ∀ i < nodes, ∀ attempt ∈ met i, ¬attempt.FailsToRegister t) ∧
    ∀ i < nodes, ∀ attempt ∈ met i, attempt.Fails t → ∀ conns : Connections, conns i = none →
      (final (connectAttempt t dataRange credits i attempt conns) i = none ↔
        ¬attempt.FailsToRegister t) := by
  have outcome := @connect_cases t dataRange credits id nodes met schedule
  refine ⟨?_, ?_, ?_⟩
  · rcases outcome with ⟨clean, connected⟩ | ⟨⟨i, inside, attempt, member, bad⟩, _, aborted⟩
    · exact iff_of_true connected clean
    · refine iff_of_false ?_ fun clean => clean i inside attempt member bad
      rw [aborted]
      exact nofun
  · rcases outcome with ⟨clean, connected⟩ | ⟨⟨i, inside, attempt, member, bad⟩, _, aborted⟩
    · refine iff_of_true (fun _ => ?_) clean
      rw [connected]
      exact nofun
    · exact iff_of_false (fun never => never _ aborted)
        fun clean => clean i inside attempt member bad
  · intro i _ attempt _ fails conns free
    by_cases bad : attempt.FailsToRegister t
    · obtain ⟨_, unregistered⟩ :=
        @connectAttempt_unregistered t dataRange credits i attempt conns free bad
      rw [unregistered]
      exact iff_of_false (by simp [final]) (not_not.mpr bad)
    · obtain ⟨_, refused⟩ := Option.ne_none_iff_exists'.mp (fails.resolve_right bad)
      rw [connectAttempt_refused refused]
      exact iff_of_true free bad

/-- An endpoint that refuses once and then connects. -/
theorem connect_iff_refused :
    connect .verbs ⟨0, 64⟩ 1 0 1 (fun _ => [⟨some "Connection refused", none⟩, ⟨none, none⟩])
        (fun _ => none) =
      .ok () (fun i => if i < 1 then some (.connected .verbs ⟨0, 64⟩ 1) else none) := by
  refine (connect_iff .verbs ⟨0, 64⟩ 1 0 1 _ fun _ _ => ⟨[⟨some "Connection refused", none⟩],
    ⟨none, none⟩, rfl, ?_, ?_⟩).1.mpr ?_
  · simp [ConnectAttempt.Fails]
  · simp [ConnectAttempt.Fails, ConnectAttempt.FailsToRegister]
  · simp [ConnectAttempt.FailsToRegister]

/-- Memory that cannot be registered at first: the second attempt aborts. -/
theorem not_connect_unregistered : ¬∀ t dataRange credits id nodes met,
    (∀ i < nodes, ConnectAttempt.Schedule t (met i)) →
    connect t dataRange credits id nodes met (fun _ => none) = .ok () (fun i =>
      if i < nodes then some (.connected t dataRange credits) else none) := by
  intro always
  have connected := always .verbs ⟨0, 64⟩ 1 0 1
    (fun _ => [⟨none, some "Cannot allocate memory"⟩, ⟨none, none⟩])
    fun _ _ => ⟨[⟨none, some "Cannot allocate memory"⟩], ⟨none, none⟩, rfl,
      by simp [ConnectAttempt.Fails, ConnectAttempt.FailsToRegister],
      by simp [ConnectAttempt.Fails, ConnectAttempt.FailsToRegister]⟩
  cases connected

end Connections

end Lseb
