import Mathlib.Algebra.Group.Nat.Defs
import Lseb.Transport.FabricClosing

/-!
# Listening again after a failure

An acceptor that has a passive endpoint does not listen another time. If the
call that created the endpoint failed later on, no call makes up for that, and
none of them fails.
-/

namespace Lseb.Fi

open Foundation

/-- The passive endpoint is created, if the singleton is there. -/
def ListenAnswers.creates (answers : ListenAnswers) : Bool :=
  answers.getinfo.isNone && answers.passiveEp.isNone

/-- Nothing fails after that. -/
def ListenAnswers.listens (answers : ListenAnswers) : Bool :=
  answers.eqOpen.isNone && answers.bind.isNone && answers.listen.isNone

/-- One call of `listen`, with its arguments and what libfabric answers. -/
structure ListenAttempt where
  hostname : String
  port : String
  answers : ListenAnswers

def ListenAttempt.creates (attempt : ListenAttempt) : Bool := attempt.answers.creates

def ListenAttempt.listens (attempt : ListenAttempt) : Bool := attempt.answers.listens

def isListen : FiCall → Bool
  | .listen _ true => true
  | _ => false

/-- How often `fi_listen` has succeeded. -/
def listenCount (fabric : Fabric) : ℕ := fabric.calls.countP isListen

namespace Acceptor

/-- `listen` is called again and again, whatever the earlier calls have thrown. -/
def listenAll (attempts : List ListenAttempt) (state : Acceptor × Fabric) : Acceptor × Fabric :=
  attempts.foldl (fun state attempt =>
    final (listen attempt.hostname attempt.port attempt.answers state)) state

variable {acceptor : Acceptor} {fabric : Fabric} {d : Domain} {hostname port : String}
  {answers : ListenAnswers} {attempts : List ListenAttempt} {credits : ℕ} {pep : Fid}

theorem listen_uncreated (silent : acceptor.mPep = none) (there : fabric.domain = some d)
    (fails : answers.creates = false) :
    ∃ after, final (listen hostname port answers (acceptor, fabric)) = (acceptor, after) ∧
      after.domain = some d ∧ listenCount after = listenCount fabric := by
  obtain ⟨credits, _, eq⟩ := acceptor
  obtain ⟨_, next, calls⟩ := fabric
  obtain rfl : _ = none := silent
  obtain rfl : _ = some d := there
  obtain ⟨domain, getinfo, passiveEp, eqOpen, bind, listen⟩ := answers
  cases getinfo with
  | some text =>
    refine ⟨_, rfl, rfl, ?_⟩
    change (calls ++ [_]).countP _ = calls.countP _
    simp [isListen]
  | none =>
    cases passiveEp with
    | some text =>
      refine ⟨_, rfl, rfl, ?_⟩
      change (calls ++ [_] ++ [_] ++ [_]).countP _ = calls.countP _
      simp [isListen]
    | none => cases fails

theorem listen_created (there : fabric.domain = some d) (creates : answers.creates) :
    ∃ acceptor after pep, final (listen hostname port answers (construct credits, fabric)) =
      (acceptor, after) ∧ acceptor.mPep = some pep ∧
        listenCount after = listenCount fabric + if answers.listens then 1 else 0 := by
  obtain ⟨_, next, calls⟩ := fabric
  obtain rfl : _ = some d := there
  obtain ⟨domain, getinfo, passiveEp, eqOpen, bind, listen⟩ := answers
  cases getinfo with
  | some text => cases creates
  | none =>
  cases passiveEp with
  | some text => cases creates
  | none =>
  cases eqOpen with
  | some text =>
    refine ⟨_, _, next + 1, rfl, rfl, ?_⟩
    change (calls ++ [_] ++ [_] ++ [_] ++ [_]).countP _ = calls.countP _ + _
    simp [isListen, ListenAnswers.listens]
  | none =>
  cases bind with
  | some text =>
    refine ⟨_, _, next + 1, rfl, rfl, ?_⟩
    change (calls ++ [_] ++ [_] ++ [_] ++ [_] ++ [_]).countP _ = calls.countP _ + _
    simp [isListen, ListenAnswers.listens]
  | none =>
  cases listen with
  | some text =>
    refine ⟨_, _, next + 1, rfl, rfl, ?_⟩
    change (calls ++ [_] ++ [_] ++ [_] ++ [_] ++ [_] ++ [_]).countP _ = calls.countP _ + _
    simp [isListen, ListenAnswers.listens]
  | none =>
    refine ⟨_, _, next + 1, rfl, rfl, ?_⟩
    change (calls ++ [_] ++ [_] ++ [_] ++ [_] ++ [_] ++ [_]).countP _ = calls.countP _ + _
    simp [isListen, ListenAnswers.listens]
    rfl

theorem listenAll_of_some (there : acceptor.mPep = some pep) :
    listenAll attempts (acceptor, fabric) = (acceptor, fabric) := by
  induction attempts with
  | nil => rfl
  | cons attempt attempts ih =>
    rw [listenAll, List.foldl_cons, listen_of_some there]
    exact ih

/-- `fi_listen` succeeds once if the first attempt that creates a passive endpoint succeeds, and
never otherwise; after that attempt no call fails. -/
theorem listenAll_once (there : fabric.domain = some d) :
    listenCount (listenAll attempts (construct credits, fabric)).2 =
      listenCount fabric +
        (if (attempts.find? ListenAttempt.creates).any ListenAttempt.listens then 1 else 0) ∧
    (attempts.any ListenAttempt.creates → ∀ hostname port answers,
      listen hostname port answers (listenAll attempts (construct credits, fabric)) =
        .ok ⟨⟩ (listenAll attempts (construct credits, fabric))) := by
  induction attempts generalizing fabric with
  | nil => exact ⟨rfl, fun none => by cases none⟩
  | cons first attempts ih =>
    rw [listenAll, List.foldl_cons]
    cases creates : first.creates with
    | true =>
      obtain ⟨acceptor, after, pep, result, has, count⟩ :=
        @listen_created _ _ first.hostname first.port _ credits there creates
      have rest := @listenAll_of_some _ after attempts _ has
      rw [listenAll] at rest
      rw [result, rest, List.find?_cons_of_pos creates]
      exact ⟨count, fun _ _ _ _ => listen_of_some has⟩
    | false =>
      obtain ⟨after, result, there, count⟩ :=
        @listen_uncreated (construct credits) _ _ first.hostname first.port _ rfl there creates
      rw [result, List.find?_cons_of_neg (by simp [creates]), ← count]
      obtain ⟨counted, quiet⟩ := ih there
      refine ⟨counted, fun some => quiet ?_⟩
      simpa [creates] using some

/-- The second attempt, at another port, fails after it has created the endpoint; the third
one does nothing. -/
theorem listenAll_once_deaf :
    listenCount (listenAll
      [⟨"node", "7000", ⟨none, none, none⟩, some "No data", none, none, none, none⟩,
        ⟨"node", "7001", ⟨none, none, none⟩, none, none, none, none, some "Busy"⟩,
        ⟨"node", "7001", ⟨none, none, none⟩, none, none, none, none, none⟩]
      (construct 4, ⟨some ⟨2, 3, 0⟩, 4, []⟩)).2 = 0 :=
  (listenAll_once rfl).1

end Acceptor

end Lseb.Fi
