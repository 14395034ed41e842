import Mathlib.Data.Multiset.MapFold
import Lseb.Transport.FabricRun

/-!
# Every run over the fabric

The acceptors, sockets and the singleton of a process own what is open, each
object once. What one call does to one of them it does among all the others.
-/

namespace Lseb

open Foundation Deed

namespace FabricProcess

/-- The acceptors and sockets as owners, beside the singleton. -/
def owners (process : FabricProcess) : Multiset (Owner Fid) :=
  (process.acceptors : Multiset Fi.Acceptor).map Fi.Acceptor.owner +
    (process.sockets : Multiset FabricSocket).map FabricSocket.owner

/-- All that unique pointers hold. -/
def held (process : FabricProcess) : Multiset Fid :=
  (process.owners + Domain.owners process.fabric.domain).bind Owner.all

section Among

variable {acceptors front back : List Fi.Acceptor} {acceptor : Fi.Acceptor}
  {sockets ahead behind : List FabricSocket} {socket : FabricSocket} {fabric : Fabric}

theorem owners_acceptor : (mk (front ++ acceptor :: back) sockets fabric).owners =
    acceptor.owner ::ₘ (mk (front ++ back) sockets fabric).owners := by
  rw [owners, Multiset.coe_eq_coe.mpr List.perm_middle, ← Multiset.cons_coe, Multiset.map_cons,
    Multiset.cons_add]
  rfl

theorem owners_socket : (mk acceptors (ahead ++ socket :: behind) fabric).owners =
    socket.owner ::ₘ (mk acceptors (ahead ++ behind) fabric).owners := by
  rw [owners, Multiset.coe_eq_coe.mpr List.perm_middle, ← Multiset.cons_coe, Multiset.map_cons,
    Multiset.add_cons]
  rfl

/-- A function that makes a socket, or throws and leaves nothing open. -/
theorem made_books {x : FabricM FabricSocket}
    (ends : Ends (InOrder (mk acceptors sockets fabric).owners) x
      (fun socket => InOrder (socket.owner ::ₘ (mk acceptors sockets fabric).owners))
      (InOrder (mk acceptors sockets fabric).owners))
    (books : InOrder (mk acceptors sockets fabric).owners fabric) :
    InOrder (mk acceptors (madeSocket (x fabric) ++ sockets) (final (x fabric))).owners
      (final (x fabric)) := by
  have result := ends fabric books
  cases run : x fabric with
  | ok socket after =>
    rw [run] at result
    rw [madeSocket, List.singleton_append]
    exact @owners_socket _ [] _ _ _ ▸ result
  | error e after =>
    rw [run] at result
    exact result

end Among

end FabricProcess

open FabricProcess

variable {t : Transport} {trace : List FabricEvent} {event : FabricEvent}
  {process after : FabricProcess}

/-- Each call keeps the objects in order. -/
theorem FabricStep.keeps (step : FabricStep t process event after)
    (books : InOrder process.owners process.fabric) : InOrder after.owners after.fabric := by
  cases step with
  | construct =>
    rw [← List.nil_append (_ :: _), owners_acceptor]
    exact books_empty.mpr books
  | listen =>
    rw [owners_acceptor] at books ⊢
    exact (Fi.Acceptor.listen_ends _ _ _).final books
  | @accept acceptors acceptor sockets fabric _ alive _ =>
    have owned : acceptor.owner ∈ (mk acceptors sockets fabric).owners :=
      Multiset.mem_add.mpr (.inl (Multiset.mem_map_of_mem _ (Multiset.mem_coe.mpr alive)))
    exact made_books (Fi.Acceptor.accept_ends _ owned _) books
  | connect => exact made_books (Fi.connect_ends _ _ _ _) books
  | registerMemory =>
    rw [owners_socket] at books ⊢
    exact (FabricSocket.registerMemory_ends _ _ _ _ _).final books
  | destroySocket =>
    rw [owners_socket] at books
    exact FabricSocket.destroy_books books
  | destroyAcceptor =>
    rw [owners_acceptor] at books
    exact Fi.Acceptor.destroy_books books

theorem fabric_inOrder (run : Run (FabricStep t) .start trace process) :
    InOrder process.owners process.fabric := by
  refine run.invariant (I := fun _ process => InOrder process.owners process.fabric) ?_ ?_
  · exact ⟨trivial, .start, by simp [FabricProcess.start, Fabric.start, Fabric.history]⟩
  · exact fun _ _ _ _ _ books step => step.keeps books

/-- The singleton goes last, whatever else is still open. -/
theorem FabricProcess.exit_inOrder (books : InOrder process.owners process.fabric) :
    InOrder process.owners process.exit := by
  unfold exit
  cases present : process.fabric.domain with
  | none => exact books
  | some d =>
    obtain ⟨_, orderly, fresh⟩ := books
    have own : InOrder (d.owner ::ₘ process.owners) { process.fabric with domain := none } := by
      refine ⟨trivial, ?_, fresh⟩
      rw [present, Domain.owners, add_comm, Multiset.singleton_add] at orderly
      rw [Domain.owners, add_zero]
      exact orderly
    exact @Books.closeOwner _ _ _ none [] _ own

/-- A call has created the object. -/
def Opened (calls : List FiCall) (object : Fid) : Prop :=
  ∃ call ∈ calls, call.effect = some (acquire object)

/-- Every call, also one that closes, is given objects that are open. -/
def UsesOpen (calls : List FiCall) : Prop :=
  ∀ before call after, calls = before ++ call :: after →
    ∀ object ∈ call.uses, Opened before object ∧ .close object ∉ before

section Calls

variable {calls : List FiCall} {call : FiCall} {object ep queue : Fid}

theorem effect_release : call.effect = some (release object) ↔ call = .close object := by
  fun_cases FiCall.effect call <;> simp_all

theorem effect_attach : call.effect = some (attach queue ep) ↔ call = .bind ep queue true := by
  fun_cases FiCall.effect call <;> simp_all [and_comm]

/-- Which deeds a history has, but for the uses. -/
theorem mem_deeds {deed : Deed Fid} (untouched : ∀ object, touch object ≠ deed) :
    deed ∈ calls.flatMap FiCall.deeds ↔ ∃ call ∈ calls, call.effect = some deed := by
  simp [FiCall.deeds, untouched]

theorem mem_acquire : acquire object ∈ calls.flatMap FiCall.deeds ↔ Opened calls object :=
  mem_deeds (by simp)

theorem mem_release : release object ∈ calls.flatMap FiCall.deeds ↔ .close object ∈ calls := by
  rw [mem_deeds (by simp)]
  simp [effect_release]

theorem mem_attach :
    attach queue ep ∈ calls.flatMap FiCall.deeds ↔ .bind ep queue true ∈ calls := by
  rw [mem_deeds (by simp)]
  simp [effect_attach]

theorem ledger_deeds : ledger call.deeds = call.effect.toList.filterMap entry := by
  have none : ledger (call.uses.map touch) = [] := by
    simp [ledger, List.filterMap_map, Function.comp_def, entry]
  rw [FiCall.deeds, ledger_append, none]
  rfl

theorem count_release : (ledger (calls.flatMap FiCall.deeds)).count (.release object) =
    calls.count (.close object) := by
  induction calls with
  | nil => rfl
  | cons call calls ih =>
    have one : (ledger call.deeds).count (.release object) = [call].count (.close object) := by
      rw [ledger_deeds]
      by_cases closes : call = .close object
      · subst closes
        simp [FiCall.effect, entry]
      · rw [List.count_singleton, if_neg (by simpa using closes)]
        refine List.count_eq_zero.mpr fun member => closes (effect_release.mp ?_)
        obtain ⟨deed, done, entered⟩ := List.mem_filterMap.mp member
        cases deed <;> cases entered
        exact Option.mem_toList.mp done
    rw [List.flatMap_cons, ledger_append, List.count_append, ih, one, ← List.count_append]
    rfl

end Calls

section Orderly

variable {owners : Multiset (Owner Fid)} {fabric : Fabric} {before rest : List FiCall}
  {call : FiCall} {object ep queue : Fid}

/-- What was created is owned once or has been closed once. -/
theorem Books.closed_once (books : InOrder owners fabric) (opened : Opened fabric.calls object) :
    ((owners + Domain.owners fabric.domain).bind Owner.all).count object +
      fabric.calls.count (.close object) = 1 := by
  have counts := books.orderly.holding.count_eq object
  have acquired := List.count_pos_iff.mpr (mem_ledger_acquire.mpr (mem_acquire.mpr opened))
  have closes : (ledger fabric.history).count (.release object) = _ := count_release
  rw [closes] at counts
  change 0 < (ledger fabric.history).count (.acquire object) at acquired
  omega

theorem Books.usesOpen (books : InOrder owners fabric) : UsesOpen fabric.calls := by
  intro before call after split object given
  obtain ⟨first, last, uses⟩ := List.append_of_mem given
  have history : fabric.history = (before.flatMap FiCall.deeds ++ first.map touch) ++
      touch object :: (last.map touch ++ call.effect.toList ++ after.flatMap FiCall.deeds) := by
    simp [Fabric.history, split, FiCall.deeds, uses]
  have there := books.orderly.touched _ object _ history
  simp only [List.mem_append, List.mem_map, reduceCtorEq, and_false, exists_false,
    or_false] at there
  exact ⟨mem_acquire.mp there.1, mem_release.not.mp there.2⟩

/-- The queues bound to an endpoint go first. -/
theorem Books.queue_first (books : InOrder owners fabric)
    (split : fabric.calls = before ++ .close ep :: rest) (bound : .bind ep queue true ∈ before) :
    .close queue ∈ before := by
  have history : fabric.history = (before.flatMap FiCall.deeds ++ [touch ep]) ++
      release ep :: rest.flatMap FiCall.deeds := by
    simp [Fabric.history, split, FiCall.deeds, FiCall.uses, FiCall.effect]
  have first := books.orderly.parts_first history (List.mem_append_left _ (mem_attach.mpr bound))
  exact mem_release.mp (by simpa using first)

end Orderly

namespace FabricProcess

/-- Calls of an acceptor that listens. -/
def listenCalls : List FiCall :=
  [.allocinfo (some 0), .getinfo none false 0 (some 1), .fabric 1 (some 2), .domain 2 1 (some 3),
    .close 1, .getinfo (some ("node", "7000")) true 0 (some 4), .passiveEp 2 4 (some 5),
    .eqOpen 2 (some 6), .bind 5 6 true, .listen 5 true, .close 4]

/-- Calls of an acceptor that accepts a connection after that. -/
def acceptCalls : List FiCall :=
  [.eqSread 6, .connreq 6 (some 7), .endpoint 3 7 (some 8), .close 7, .cqOpen 3 4 (some 9),
    .cqOpen 3 4 (some 10), .bind 8 9 true, .bind 8 10 true, .eqOpen 2 (some 11), .bind 8 11 true,
    .accept 8 true, .eqSread 11, .close 11]

/-- An acceptor of four credits, and a socket. -/
def accepted : FabricProcess :=
  ⟨[⟨4, some 5, some 6⟩], [⟨some 8, some 9, some 10, [], .construct 4⟩],
    ⟨some ⟨2, 3, 0⟩, 12, listenCalls ++ acceptCalls⟩⟩

theorem accepted_run : Run (FabricStep .fiTcp) .start
    [.construct 4, .listen "node" "7000" ⟨⟨none, none, none⟩, none, none, none, none, none⟩,
      .accept ⟨⟨none, none, none⟩, .expected, none, ⟨none, none, none, none, none, none⟩, none,
        .expected⟩] accepted := by
  have listened : Run (FabricStep .fiTcp) .start
      [.construct 4, .listen "node" "7000" ⟨⟨none, none, none⟩, none, none, none, none, none⟩]
      ⟨[⟨4, some 5, some 6⟩], [], ⟨some ⟨2, 3, 0⟩, 7, listenCalls⟩⟩ :=
    (Run.nil.snoc .construct).snoc (@FabricStep.listen _ [] [] _ _ _ _ _ _ (by trivial))
  exact listened.snoc (.accept List.mem_cons_self (by trivial))

/-- The socket and the acceptor are destroyed. -/
def destroyed : FabricProcess :=
  ⟨[], [], ⟨some ⟨2, 3, 0⟩, 12,
    listenCalls ++ acceptCalls ++ [.close 10, .close 9, .close 8, .close 6, .close 5]⟩⟩

theorem destroyed_run : Run (FabricStep .fiTcp) .start
    [.construct 4, .listen "node" "7000" ⟨⟨none, none, none⟩, none, none, none, none, none⟩,
      .accept ⟨⟨none, none, none⟩, .expected, none, ⟨none, none, none, none, none, none⟩, none,
        .expected⟩, .destroySocket, .destroyAcceptor] destroyed :=
  (accepted_run.snoc (@FabricStep.destroySocket _ _ [] [] _ _)).snoc
    (@FabricStep.destroyAcceptor _ [] [] _ _ _)

end FabricProcess

/-- Whatever fails, what is created is held by one pointer until it is closed, once; at the end of
the process nothing is left. -/
theorem fabric_closed_once (run : Run (FabricStep t) .start trace process) :
    (∀ object, Opened process.fabric.calls object →
      process.held.count object + process.fabric.calls.count (.close object) = 1) ∧
    (process.acceptors = [] → process.sockets = [] → ∀ object, Opened process.exit.calls object →
      process.exit.calls.count (.close object) = 1) := by
  have books := fabric_inOrder run
  refine ⟨fun object opened => books.closed_once opened, fun deaf silent object opened => ?_⟩
  have once := (exit_inOrder books).closed_once opened
  have gone : process.exit.domain = none := by
    unfold exit
    cases present : process.fabric.domain with
    | none => exact present
    | some d => rfl
  have nobody : process.owners = 0 := by
    rw [owners, deaf, silent]
    rfl
  rw [gone, nobody, Domain.owners, add_zero, Multiset.zero_bind, Multiset.count_zero,
    zero_add] at once
  exact once

theorem fabric_closed_once_session :
    destroyed.held.count 8 + destroyed.fabric.calls.count (.close 8) = 1 ∧
      destroyed.exit.calls.count (.close 3) = 1 :=
  have once := fabric_closed_once destroyed_run
  ⟨once.1 8 ⟨.endpoint 3 7 (some 8), by decide, rfl⟩,
    once.2 rfl rfl 3 ⟨.domain 2 1 (some 3), by decide, rfl⟩⟩

/-- No call is given an object that is not open, or not open any more. -/
theorem fabric_used_open (run : Run (FabricStep t) .start trace process) :
    UsesOpen process.exit.calls :=
  (exit_inOrder (fabric_inOrder run)).usesOpen

theorem fabric_used_open_session : UsesOpen destroyed.exit.calls :=
  fabric_used_open destroyed_run

/-- An endpoint is closed after the queues bound to it; as long as a socket has it, only the
socket's completion queues are still open. -/
theorem fabric_queues (run : Run (FabricStep t) .start trace process) :
    (∀ before ep after, process.exit.calls = before ++ .close ep :: after →
      ∀ queue, .bind ep queue true ∈ before → .close queue ∈ before) ∧
    (∀ socket ∈ process.sockets, ∀ ep, socket.mEp = some ep →
      ∀ queue, .bind ep queue true ∈ process.fabric.calls →
        .close queue ∈ process.fabric.calls ∨ socket.mRxCq = some queue ∨
          socket.mTxCq = some queue) := by
  have books := fabric_inOrder run
  constructor
  · intro before ep after split queue bound
    exact (exit_inOrder books).queue_first split bound
  · intro socket alive ep has queue bound
    have among : socket.owner ∈ process.owners + Domain.owners process.fabric.domain :=
      Multiset.mem_add.mpr (.inl (Multiset.mem_add.mpr
        (.inr (Multiset.mem_map_of_mem _ (Multiset.mem_coe.mpr alive)))))
    have placed := books.orderly.part_of among has (mem_attach.mpr bound)
    refine placed.imp mem_release.mp fun inside => ?_
    have inside := List.reduceOption_mem_iff.mp (Multiset.mem_coe.mp inside)
    rcases List.mem_pair.mp inside with tx | rx
    · exact .inr tx.symm
    · exact .inl rx.symm

theorem fabric_queues_session :
    FiCall.close 11 ∈ accepted.fabric.calls ∨ some 9 = some 11 ∨ some 10 = some 11 :=
  (fabric_queues accepted_run).2 _ List.mem_cons_self 8 rfl 11 (by decide)

end Lseb
