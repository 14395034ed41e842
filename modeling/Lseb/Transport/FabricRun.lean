import Mathlib.Data.List.ReduceOption
import Lseb.Foundation.Run
import Lseb.Transport.Fabric

/-!
# When fabric objects are closed

Every object has one owner: a local variable, an acceptor, a socket or the
singleton. Whatever fails, it is closed once, by its owner. A queue that is
bound to an endpoint is closed before it.
-/

namespace Lseb

open Foundation Deed

namespace Fabric

variable {fabric : Fabric} {call : FiCall} {made : Option Fid → FiCall}

theorem history_record :
    (record call fabric).history = fabric.history ++ call.uses.map touch ++ call.effect.toList := by
  simp [history, record, FiCall.deeds]

theorem history_created : (created made fabric).history =
    fabric.history ++ (made (some fabric.next)).uses.map touch ++
      (made (some fabric.next)).effect.toList := by
  simp [history, created, FiCall.deeds]

theorem closeAll_append (first second : List Fid) :
    fabric.closeAll (first ++ second) = (fabric.closeAll first).closeAll second :=
  List.foldl_append

end Fabric

/-- The singleton owns what it has opened. -/
@[simps]
def Domain.owner (d : Domain) : Owner Fid := ⟨none, 0, ([d.hints, d.domain, d.fabric] : List Fid)⟩

def Domain.owners : Option Domain → Multiset (Owner Fid)
  | some d => {d.owner}
  | none => 0

/-- The objects are in order, with these owners beside the singleton. -/
structure Books (D : Option Domain → Prop) (owners : Multiset (Owner Fid)) (fabric : Fabric) :
    Prop where
  domain : D fabric.domain
  orderly : Orderly fabric.history (owners + Domain.owners fabric.domain)
  fresh : ∀ object, acquire object ∈ fabric.history → object < fabric.next

/-- The objects are in order, whether or not the singleton exists. -/
abbrev InOrder (owners : Multiset (Owner Fid)) : Fabric → Prop := Books (fun _ => True) owners

theorem Books.inOrder {D : Option Domain → Prop} {owners : Multiset (Owner Fid)} {fabric : Fabric}
    (books : Books D owners fabric) : InOrder owners fabric :=
  ⟨trivial, books.orderly, books.fresh⟩

/-- An object that a call may be given: one that is owned. -/
def Usable (D : Option Domain → Prop) (owners : Multiset (Owner Fid)) (object : Fid) : Prop :=
  ∀ d, D d → object ∈ (owners + Domain.owners d).bind Owner.all

section Usable

variable {D : Option Domain → Prop} {owners rest : Multiset (Owner Fid)} {owner : Owner Fid}
  {object : Fid} {d : Domain}

theorem Usable.own (owned : object ∈ owner.all) : Usable D (owner ::ₘ rest) object := by
  intro d _
  rw [Multiset.cons_add, Multiset.cons_bind]
  exact Multiset.mem_add.mpr (.inl owned)

theorem Usable.among {other : Owner Fid} (member : other ∈ rest) (owned : object ∈ other.all) :
    Usable D (owner ::ₘ rest) object := by
  intro d _
  refine Multiset.mem_bind.mpr ⟨other, ?_, owned⟩
  exact Multiset.mem_add.mpr (.inl (Multiset.mem_cons_of_mem member))

/-- A call on the owner's endpoint. -/
theorem Usable.head {ep : Fid} (head : owner.head = some ep) :
    ∀ object ∈ [ep], Usable D (owner ::ₘ rest) object :=
  fun _ given => List.mem_singleton.mp given ▸ .own (Owner.head_mem head)

@[simp] theorem usable_none : Usable (· = none) (owner ::ₘ rest) object ↔
    object ∈ owner.all ∨ object ∈ rest.bind Owner.all := by
  simp [Usable, Domain.owners]

@[simp] theorem usable_domain : Usable (· = some d) (owner ::ₘ rest) object ↔
    object ∈ owner.all ∨ object ∈ rest.bind Owner.all ∨ object ∈ d.owner.all := by
  simp [Usable, Domain.owners]

end Usable

/-- A call that attempts to create an object, and is given what is owned. -/
structure Creates (D : Option Domain → Prop) (owners : Multiset (Owner Fid))
    (made : Option Fid → FiCall) : Prop where
  done : ∀ object, (made (some object)).effect = some (acquire object)
  failed : (made none).effect = none
  uses : ∀ created, ∀ object ∈ (made created).uses, Usable D owners object

section Deeds

variable {D : Option Domain → Prop} {owners owners' rest : Multiset (Owner Fid)} {owner : Owner Fid}
  {fabric fabric' : Fabric} {call : FiCall} {made : Option Fid → FiCall} {object ep queue : Fid}
  {top : Option Fid} {parts others : Multiset Fid}

theorem Books.touched (books : Books D owners fabric)
    (uses : ∀ object ∈ call.uses, Usable D owners object) :
    Orderly (fabric.history ++ call.uses.map touch) (owners + Domain.owners fabric.domain) :=
  books.orderly.touch_all fun object member => uses object member _ books.domain

/-- The objects created are those created before and the one that a call creates. -/
theorem Books.numbered (books : Books D owners fabric)
    (below : ∀ object, call.effect = some (acquire object) → object < fabric'.next)
    (next : fabric.next ≤ fabric'.next) :
    ∀ object, acquire object ∈ fabric.history ++ call.uses.map touch ++ call.effect.toList →
      object < fabric'.next := by
  intro object member
  simp only [List.mem_append, List.mem_map, reduceCtorEq, and_false, exists_false, or_false,
    Option.mem_toList] at member
  rcases member with earlier | last
  · exact (books.fresh object earlier).trans_le next
  · exact below object last

/-- The next object is new, whatever a call is given. -/
theorem Books.not_acquired (books : Books D owners fabric) (uses : List Fid) :
    acquire fabric.next ∉ fabric.history ++ uses.map touch := by
  intro member
  have earlier : acquire fabric.next ∈ fabric.history := by simpa using member
  exact absurd (books.fresh fabric.next earlier) (Nat.lt_irrefl _)

/-- An owner gets the next object. -/
theorem Books.created {owner' : Owner Fid} (books : Books D (owner ::ₘ rest) fabric)
    (creates : Creates D (owner ::ₘ rest) made)
    (acquires : ∀ history owners, acquire fabric.next ∉ history →
      Orderly history (owner ::ₘ owners) →
      Orderly (history ++ [acquire fabric.next]) (owner' ::ₘ owners)) :
    Books D (owner' ::ₘ rest) (Fabric.created made fabric) where
  domain := books.domain
  orderly := by
    have touched := books.touched (creates.uses (some fabric.next))
    rw [Multiset.cons_add] at touched
    rw [Fabric.history_created, creates.done, Multiset.cons_add]
    exact acquires _ _ (books.not_acquired _) touched
  fresh := by
    rw [Fabric.history_created]
    refine books.numbered (fun object done => ?_) (Nat.le_succ _)
    rw [creates.done] at done
    cases done
    exact Nat.lt_succ_self _

theorem Books.part (books : Books D (owner ::ₘ rest) fabric)
    (creates : Creates D (owner ::ₘ rest) made) :
    Books D (owner.addPart fabric.next ::ₘ rest) (Fabric.created made fabric) :=
  books.created creates fun _ _ fresh orderly => orderly.acquire_part fresh

theorem Books.other (books : Books D (owner ::ₘ rest) fabric)
    (creates : Creates D (owner ::ₘ rest) made) :
    Books D (owner.addOther fabric.next ::ₘ rest) (Fabric.created made fabric) :=
  books.created creates fun _ _ fresh orderly => orderly.acquire_other fresh

theorem Books.head (vacant : owner.head = none) (books : Books D (owner ::ₘ rest) fabric)
    (creates : Creates D (owner ::ₘ rest) made) :
    Books D (owner.setHead fabric.next ::ₘ rest) (Fabric.created made fabric) :=
  books.created creates fun _ _ fresh orderly => orderly.acquire_head vacant fresh

/-- A call that creates nothing. -/
theorem Books.recorded (books : Books D owners fabric)
    (uncreated : ∀ object, call.effect ≠ some (acquire object))
    (orderly : Orderly (fabric.history ++ call.uses.map touch ++ call.effect.toList)
      (owners' + Domain.owners fabric.domain)) : Books D owners' (Fabric.record call fabric) where
  domain := books.domain
  orderly := by
    rw [Fabric.history_record]
    exact orderly
  fresh := by
    rw [Fabric.history_record]
    exact books.numbered (fun object done => absurd done (uncreated object)) le_rfl

/-- A call that neither creates nor binds nor closes. -/
theorem Books.quiet (books : Books D owners fabric) (quiet : call.effect = none)
    (uses : ∀ object ∈ call.uses, Usable D owners object) :
    Books D owners (Fabric.record call fabric) := by
  have touched := books.touched uses
  refine books.recorded (by simp [quiet]) ?_
  rw [quiet, Option.toList_none, List.append_nil]
  exact touched

theorem Books.bind (books : Books D (owner ::ₘ rest) fabric) (head : owner.head = some ep)
    (member : queue ∈ owner.parts) (done : Bool) :
    Books D (owner ::ₘ rest) (Fabric.record (.bind ep queue done) fabric) := by
  have uses : ∀ object ∈ (FiCall.bind ep queue done).uses, Usable D (owner ::ₘ rest) object := by
    intro object given
    refine .own ?_
    rcases List.mem_pair.mp given with rfl | rfl
    · exact Owner.head_mem head
    · exact Owner.part_mem member
  cases done with
  | false => exact books.quiet rfl uses
  | true =>
    have touched := books.touched uses
    rw [Multiset.cons_add] at touched
    refine books.recorded (by simp [FiCall.effect]) ?_
    rw [Multiset.cons_add]
    exact touched.attach_part head member

/-- What is owned is closed. -/
theorem Books.closed (books : Books D (owner ::ₘ rest) fabric) (owned : object ∈ owner.all)
    (release : ∀ history, Orderly history (owner ::ₘ (rest + Domain.owners fabric.domain)) →
      Orderly (history ++ [release object]) (owners' + Domain.owners fabric.domain)) :
    Books D owners' (fabric.close object) := by
  have uses : ∀ used ∈ (FiCall.close object).uses, Usable D (owner ::ₘ rest) used :=
    fun _ given => List.mem_singleton.mp given ▸ .own owned
  have touched := books.touched uses
  rw [Multiset.cons_add] at touched
  exact books.recorded (by simp [FiCall.effect]) (release _ touched)

theorem Books.close_part (books : Books D (owner.addPart object ::ₘ rest) fabric) :
    Books D (owner ::ₘ rest) (fabric.close object) := by
  refine books.closed (Owner.all_addPart ▸ Multiset.mem_cons_self _ _) fun history orderly => ?_
  rw [Multiset.cons_add]
  exact orderly.release_part

theorem Books.close_other (books : Books D (owner.addOther object ::ₘ rest) fabric) :
    Books D (owner ::ₘ rest) (fabric.close object) := by
  refine books.closed (Owner.all_addOther ▸ Multiset.mem_cons_self _ _) fun history orderly => ?_
  rw [Multiset.cons_add]
  exact orderly.release_other

theorem Books.close_head (books : Books D (owner.setHead object ::ₘ rest) fabric)
    (vacant : owner.head = none) (alone : owner.parts = 0) :
    Books D (owner ::ₘ rest) (fabric.close object) := by
  refine books.closed (Owner.head_mem rfl) fun history orderly => ?_
  rw [Multiset.cons_add]
  exact orderly.release_head vacant alone

theorem Books.closeParts {objects : List Fid}
    (books : Books D (⟨top, objects + parts, others⟩ ::ₘ rest) fabric) :
    Books D (⟨top, parts, others⟩ ::ₘ rest) (fabric.closeAll objects) := by
  induction objects generalizing fabric with
  | nil => simpa [Fabric.closeAll] using books
  | cons object objects ih =>
    apply ih
    apply Books.close_part
    rwa [Owner.addPart, ← Multiset.cons_add, Multiset.cons_coe]

theorem Books.closeOthers {objects : List Fid}
    (books : Books D (⟨top, parts, objects + others⟩ ::ₘ rest) fabric) :
    Books D (⟨top, parts, others⟩ ::ₘ rest) (fabric.closeAll objects) := by
  induction objects generalizing fabric with
  | nil => simpa [Fabric.closeAll] using books
  | cons object objects ih =>
    apply ih
    apply Books.close_other
    rwa [Owner.addOther, ← Multiset.cons_add, Multiset.cons_coe]

theorem Books.closeHead (books : Books D (⟨top, 0, others⟩ ::ₘ rest) fabric) :
    Books D (⟨none, 0, others⟩ ::ₘ rest) (fabric.closeAll top.toList) := by
  cases top with
  | none => exact books
  | some object => exact @Books.close_head _ _ ⟨none, 0, others⟩ _ _ books rfl rfl

theorem books_empty : Books D (⟨none, 0, 0⟩ ::ₘ owners) fabric ↔ Books D owners fabric := by
  constructor
  · rintro ⟨domain, orderly, fresh⟩
    rw [Multiset.cons_add] at orderly
    exact ⟨domain, Orderly.cons_empty_iff.mp orderly, fresh⟩
  · rintro ⟨domain, orderly, fresh⟩
    refine ⟨domain, ?_, fresh⟩
    rw [Multiset.cons_add]
    exact Orderly.cons_empty_iff.mpr orderly

/-- What an owner with nothing attached to it owns is closed in any order that is a list of it. -/
theorem Books.closeOwner {queues remains : List Fid}
    (books : Books D (⟨top, queues, remains⟩ ::ₘ rest) fabric) :
    Books D rest (fabric.closeAll (queues ++ top.toList ++ remains)) := by
  rw [Fabric.closeAll_append, Fabric.closeAll_append]
  rw [← add_zero (queues : Multiset Fid), ← add_zero (remains : Multiset Fid)] at books
  exact books_empty.mp books.closeParts.closeHead.closeOthers

end Deeds

section Calls

variable {D : Option Domain → Prop} {owners rest : Multiset (Owner Fid)} {owner : Owner Fid}
  {made : Option Fid → FiCall} {ep queue : Fid} {eq : Option Fid}

/-- The object created is the owner's, or the call has failed. -/
def Grown (D : Option Domain → Prop) (rest : Multiset (Owner Fid)) (owner : Owner Fid)
    (grown : Fid → Owner Fid) : Except String Fid → Fabric → Prop
  | .ok object => Books D (grown object ::ₘ rest)
  | .error _ => Books D (owner ::ₘ rest)

/-- What a new object does to its owner. -/
abbrev Grows (D : Option Domain → Prop) (rest : Multiset (Owner Fid)) (owner : Owner Fid)
    (made : Option Fid → FiCall) (grown : Fid → Owner Fid) : Prop :=
  ∀ fabric, Books D (owner ::ₘ rest) fabric → Creates D (owner ::ₘ rest) made →
    Books D (grown fabric.next ::ₘ rest) (Fabric.created made fabric)

theorem make_ends {grown : Fid → Owner Fid} {E : Fabric → Prop}
    (creates : Creates D (owner ::ₘ rest) made) (grows : Grows D rest owner made grown) :
    Ends (Books D (owner ::ₘ rest)) (Fabric.make made)
      (fun object => Books D (grown object ::ₘ rest)) E :=
  fun fabric books => grows fabric books creates

theorem create_ends {grown : Fid → Owner Fid} {E : Fabric → Prop} (answer : Option String)
    (creates : Creates D (owner ::ₘ rest) made) (grows : Grows D rest owner made grown) :
    Ends (Books D (owner ::ₘ rest)) (Fabric.create made answer) (Grown D rest owner grown) E := by
  cases answer with
  | some text => exact fun fabric books => books.quiet creates.failed (creates.uses none)
  | none => exact make_ends (E := E) creates grows

theorem tryCall_ends {call : Bool → FiCall} {E : Fabric → Prop} (answer : Option String)
    (kept : ∀ fabric done, Books D owners fabric →
      Books D owners (Fabric.record (call done) fabric)) :
    Ends (Books D owners) (Fabric.tryCall call answer) (fun _ => Books D owners) E :=
  fun fabric books => kept fabric _ books

theorem readEvent_ends (usable : ∀ object ∈ eq, Usable D owners object) (read : EqRead) :
    Ends (Books D owners) (Fi.readEvent eq read) (fun _ => Books D owners) (InOrder owners) := by
  cases eq with
  | none => exact fun _ books => books.inOrder
  | some eq =>
    intro fabric books
    have given : ∀ object ∈ [eq], Usable D owners object :=
      fun _ given => List.mem_singleton.mp given ▸ usable eq rfl
    have noted : Books D owners (Fabric.record (.eqSread eq) fabric) := books.quiet rfl given
    have again : Books D owners
        (Fabric.record (.eqReaderr eq) (Fabric.record (.eqSread eq) fabric)) :=
      noted.quiet rfl given
    cases read with
    | expected => exact noted
    | unexpected => exact noted.inOrder
    | failed text => exact noted.inOrder
    | errorEntry text => exact again.inOrder
    | readerrFailed text => exact again.inOrder

theorem readRequest_ends (usable : ∀ object ∈ eq, Usable D (owner ::ₘ rest) object)
    (read : EqRead) : Ends (Books D (owner ::ₘ rest)) (Fi.readRequest eq read)
      (fun info => Books D (owner.addOther info ::ₘ rest)) (InOrder (owner ::ₘ rest)) := by
  cases eq with
  | none => exact fun _ books => books.inOrder
  | some eq =>
    refine (readEvent_ends usable read).bind fun _ => make_ends ⟨fun _ => rfl, rfl, ?_⟩
      fun _ => Books.other
    exact fun _ _ given => List.mem_singleton.mp given ▸ usable eq rfl

end Calls

section Scopes

variable {L α β : Type} {D : Option Domain → Prop} {rest : Multiset (Owner Fid)}
  {owner : Owner Fid} {ownerOf : L → Owner Fid} {l : L} {x : FabricM α}
  {R : α → Fabric → Prop} {S : β → L × Fabric → Prop}

/-- The locals, and an owner of theirs and of what raw pointers point to. -/
def Here (D : Option Domain → Prop) (rest : Multiset (Owner Fid)) (l : L) (owner : Owner Fid)
    (state : L × Fabric) : Prop :=
  state.1 = l ∧ Books D (owner ::ₘ rest) state.2

/-- What an exception leaves: the locals own whatever the function has opened. -/
def Thrown (rest : Multiset (Owner Fid)) (ownerOf : L → Owner Fid) (state : L × Fabric) : Prop :=
  InOrder (ownerOf state.1 ::ₘ rest) state.2

theorem outer_bind {f : α → EStateM Error (L × Fabric) β}
    (first : Ends (Books D (owner ::ₘ rest)) x R (InOrder (ownerOf l ::ₘ rest)))
    (second : ∀ a, Ends (fun state => state.1 = l ∧ R a state.2) (f a) S (Thrown rest ownerOf)) :
    Ends (Here D rest l owner) (outer x >>= f) S (Thrown rest ownerOf) :=
  (Ends.outer (E := fun l => InOrder (ownerOf l ::ₘ rest)) first).bind second

/-- A raw pointer is stored in a local variable, or taken out of one. -/
theorem assign_bind {update : L → L} {f : PUnit → EStateM Error (L × Fabric) β}
    (second : Ends (Here D rest (update l) owner) (f ⟨⟩) S (Thrown rest ownerOf)) :
    Ends (Here D rest l owner) (assign update >>= f) S (Thrown rest ownerOf) := by
  refine Ends.bind (R := fun _ => Here D rest (update l) owner) ?_ fun _ => second
  rintro state ⟨rfl, books⟩
  exact ⟨rfl, books⟩

theorem throw_ends {e : Error} (same : ownerOf l = owner) :
    Ends (Here D rest l owner) (throw e : EStateM Error (L × Fabric) β) S
      (Thrown rest ownerOf) := by
  rintro state ⟨rfl, books⟩
  rw [← same] at books
  exact books.inOrder

/-- An object is created. -/
theorem make_bind {made : Option Fid → FiCall} {grown : Fid → Owner Fid}
    {f : Fid → EStateM Error (L × Fabric) β} (creates : Creates D (owner ::ₘ rest) made)
    (grows : Grows D rest owner made grown)
    (second : ∀ object, Ends (Here D rest l (grown object)) (f object) S (Thrown rest ownerOf)) :
    Ends (Here D rest l owner) (outer (Fabric.make made) >>= f) S (Thrown rest ownerOf) :=
  outer_bind (make_ends creates grows) second

/-- A call that neither creates nor binds nor closes. -/
theorem call_bind {call : FiCall} {f : PUnit → EStateM Error (L × Fabric) β}
    (quiet : call.effect = none) (uses : ∀ object ∈ call.uses, Usable D (owner ::ₘ rest) object)
    (second : Ends (Here D rest l owner) (f ⟨⟩) S (Thrown rest ownerOf)) :
    Ends (Here D rest l owner) (outer (Fabric.call call) >>= f) S (Thrown rest ownerOf) := by
  refine outer_bind (R := fun _ => Books D (owner ::ₘ rest)) ?_ fun _ => second
  exact fun fabric books => books.quiet quiet uses

/-- An attempt to create an object, and what follows in both cases. -/
theorem create_bind {made : Option Fid → FiCall} {answer : Option String} {grown : Fid → Owner Fid}
    {f : Except String Fid → EStateM Error (L × Fabric) β}
    (creates : Creates D (owner ::ₘ rest) made) (grows : Grows D rest owner made grown)
    (failed : ∀ text, Ends (Here D rest l owner) (f (.error text)) S (Thrown rest ownerOf))
    (done : ∀ object, Ends (Here D rest l (grown object)) (f (.ok object)) S
      (Thrown rest ownerOf)) :
    Ends (Here D rest l owner) (outer (Fabric.create made answer) >>= f) S
      (Thrown rest ownerOf) := by
  refine outer_bind (create_ends answer creates grows) fun ret => ?_
  cases ret with
  | error text => exact failed text
  | ok object => exact done object

/-- An attempt that does not create, and what follows in both cases. -/
theorem try_bind {call : Bool → FiCall} {answer : Option String}
    {f : Option String → EStateM Error (L × Fabric) β}
    (kept : ∀ fabric done, Books D (owner ::ₘ rest) fabric →
      Books D (owner ::ₘ rest) (Fabric.record (call done) fabric))
    (second : ∀ ret, Ends (Here D rest l owner) (f ret) S (Thrown rest ownerOf)) :
    Ends (Here D rest l owner) (outer (Fabric.tryCall call answer) >>= f) S
      (Thrown rest ownerOf) :=
  outer_bind (tryCall_ends answer kept) fun ret => second ret

end Scopes

namespace Domain

variable {owners : Multiset (Owner Fid)} {answers : DomainAnswers}

/-- What the constructor has opened so far. -/
def Locals.owner (locals : Locals) : Owner Fid :=
  ⟨none, 0,
    ([locals.info, locals.hints, locals.domain, locals.fabric].reduceOption : List Fid)⟩

theorem Locals.unwind_books {state : Locals × Fabric} (books : Thrown owners Locals.owner state) :
    InOrder owners (Locals.unwind state) :=
  @Books.closeOwner _ _ _ none [] _ books

theorem construct_ends : Ends (Books (· = none) owners) (construct answers)
    (fun d => Books (· = none) (d.owner ::ₘ owners)) (InOrder owners) := by
  apply Ends.scope (G := Here (· = none) owners ⟨none, none, none, none⟩ ⟨none, 0, 0⟩)
    (S := fun d state => ∃ info, Here (· = none) owners ⟨some info, none, none, none⟩
      (d.owner.addOther info) state)
    (F := Thrown owners Locals.owner)
  · refine make_bind ⟨fun _ => rfl, rfl, by simp [FiCall.uses]⟩ (fun _ => Books.other)
      fun hints => ?_
    refine assign_bind ?_
    cases answers.getinfo with
    | some failure =>
      refine call_bind rfl (by simp [FiCall.uses]) ?_
      dsimp only
      split_ifs
      · exact throw_ends rfl
      · exact throw_ends rfl
    | none =>
      refine make_bind ⟨fun _ => rfl, rfl, by simp [FiCall.uses]⟩ (fun _ => Books.other)
        fun info => ?_
      refine assign_bind ?_
      refine create_bind ⟨fun _ => rfl, rfl, by simp [FiCall.uses]⟩ (fun _ => Books.other)
        (fun _ => throw_ends rfl) fun fabric => ?_
      refine assign_bind ?_
      refine create_bind ⟨fun _ => rfl, rfl, by simp [FiCall.uses]⟩ (fun _ => Books.other)
        (fun _ => throw_ends ?_) fun domain => ?_
      · exact Owner.ext rfl rfl
          (Multiset.coe_eq_coe.mpr (@List.perm_append_comm _ [info, hints] [fabric]))
      · refine assign_bind (Ends.pure ?_)
        rintro state ⟨same, books⟩
        have whole : (((⟨none, 0, 0⟩ : Owner Fid).addOther hints).addOther info
            |>.addOther fabric |>.addOther domain) =
            (Domain.owner ⟨fabric, domain, hints⟩).addOther info :=
          Owner.ext rfl rfl (Multiset.coe_eq_coe.mpr
            (@List.perm_append_comm _ [domain, fabric] [info, hints]))
        rw [whole] at books
        exact ⟨info, same, books⟩
  · exact fun fabric books => ⟨rfl, books_empty.mpr books⟩
  · rintro d ⟨locals, fabric⟩ ⟨info, rfl, books⟩
    exact books.close_other
  · exact fun _ books => Locals.unwind_books books

theorem getInstance_ends {D : Option Domain → Prop} : Ends (Books D owners) (getInstance answers)
    (fun d => Books (· = some d) owners) (InOrder owners) := by
  refine Ends.get_bind fun fabric books => ?_
  cases present : fabric.domain with
  | some d =>
    refine Ends.pure ?_
    rintro _ rfl
    exact ⟨present, books.orderly, books.fresh⟩
  | none =>
    refine Ends.bind (construct_ends.weaken ?_) fun d => ?_
    · rintro _ rfl
      exact ⟨present, books.orderly, books.fresh⟩
    · refine Ends.bind (R := fun _ => Books (· = some d) owners) ?_ fun _ =>
        Ends.pure fun _ after => after
      rintro after ⟨absent, orderly, fresh⟩
      refine ⟨rfl, ?_, fresh⟩
      rw [absent, Domain.owners, add_zero] at orderly
      rw [Domain.owners, add_comm, Multiset.singleton_add]
      exact orderly

end Domain

namespace Fi

/-- The event queue, the completion queues, and the endpoint to which they are bound. -/
def Locals.owner (locals : Locals) : Owner Fid :=
  ⟨locals.ep, ([locals.eq, locals.txCq, locals.rxCq].reduceOption : List Fid),
    (locals.info.toList : List Fid)⟩

section Locals

variable {D : Option Domain → Prop} {rest : Multiset (Owner Fid)} {info : Option Fid} {ep : Fid}
  {size : ℕ} {domain : DomainAnswers} {answers : QueueAnswers}

theorem Locals.unwind_books {locals : Locals} {fabric : Fabric}
    (books : Thrown rest Locals.owner (locals, fabric)) :
    InOrder rest (Locals.unwind (locals, fabric)) := by
  have order : [locals.eq, locals.txCq, locals.rxCq, locals.ep, locals.info].reduceOption =
      [locals.eq, locals.txCq, locals.rxCq].reduceOption ++ locals.ep.toList ++
        locals.info.toList := by
    rw [← List.reduceOption_singleton, ← List.reduceOption_singleton, ← List.reduceOption_append,
      ← List.reduceOption_append]
    rfl
  rw [Locals.unwind, order]
  exact Books.closeOwner books

theorem bindCompletionQueues_ends : Ends
    (Here D rest ⟨info, some ep, none, none, none⟩ ⟨some ep, 0, info.toList⟩)
    (bindCompletionQueues ep size domain answers)
    (fun _ state => ∃ rx tx, Here (fun _ => True) rest ⟨info, some ep, some rx, some tx, none⟩
      ⟨some ep, ([tx, rx] : List Fid), info.toList⟩ state)
    (Thrown rest Locals.owner) := by
  refine outer_bind Domain.getInstance_ends fun d => ?_
  refine create_bind ⟨fun _ => rfl, rfl, by simp [FiCall.uses]⟩ (fun _ => Books.part)
    (fun _ => throw_ends rfl) fun rx => ?_
  refine assign_bind ?_
  refine create_bind ⟨fun _ => rfl, rfl, by simp [FiCall.uses]⟩ (fun _ => Books.part)
    (fun _ => throw_ends rfl) fun tx => ?_
  refine assign_bind ?_
  refine try_bind (fun _ done books => books.bind rfl (by simp [Owner.addPart]) done) fun ret => ?_
  cases ret with
  | some text => exact throw_ends rfl
  | none =>
    refine try_bind (fun _ done books => books.bind rfl (by simp [Owner.addPart]) done)
      fun ret => ?_
    cases ret with
    | some text => exact throw_ends rfl
    | none => exact Ends.pure fun state here => ⟨rx, tx, here.1, here.2.inOrder⟩

theorem bindEventQueue_ends {rx tx : Fid} : Ends
    (Here (fun _ => True) rest ⟨info, some ep, some rx, some tx, none⟩
      ⟨some ep, ([tx, rx] : List Fid), info.toList⟩)
    (bindEventQueue ep domain answers)
    (fun _ state => ∃ eq, Here (fun _ => True) rest
      ⟨info, some ep, some rx, some tx, some eq⟩
      ⟨some ep, ([eq, tx, rx] : List Fid), info.toList⟩ state)
    (Thrown rest Locals.owner) := by
  refine outer_bind Domain.getInstance_ends fun d => ?_
  refine create_bind ⟨fun _ => rfl, rfl, by simp [FiCall.uses]⟩ (fun _ => Books.part)
    (fun _ => throw_ends rfl) fun eq => ?_
  refine assign_bind ?_
  refine try_bind (fun _ done books => books.bind rfl (by simp [Owner.addPart]) done) fun ret => ?_
  cases ret with
  | some text => exact throw_ends rfl
  | none => exact Ends.pure fun state here => ⟨eq, here.1, here.2.inOrder⟩

/-- All three queues are opened and bound to the endpoint. -/
theorem queues_bind {α : Type} {f : PUnit → ScopedM α} {S : α → Locals × Fabric → Prop}
    (second : ∀ rx tx eq, Ends (Here (fun _ => True) rest
      ⟨info, some ep, some rx, some tx, some eq⟩ ⟨some ep, ([eq, tx, rx] : List Fid), info.toList⟩)
      (f ⟨⟩) S (Thrown rest Locals.owner)) :
    Ends (Here D rest ⟨info, some ep, none, none, none⟩ ⟨some ep, 0, info.toList⟩)
      (bindCompletionQueues ep size domain answers >>= fun _ =>
        bindEventQueue ep domain answers >>= f) S (Thrown rest Locals.owner) := by
  refine Ends.bind bindCompletionQueues_ends fun _ => Ends.of_exists fun rx =>
    Ends.of_exists fun tx => ?_
  exact Ends.bind bindEventQueue_ends fun _ => Ends.of_exists fun eq => second rx tx eq

end Locals

end Fi

/-- The completion queues, the endpoint to which they are bound, and the regions. -/
def FabricSocket.owner (socket : FabricSocket) : Owner Fid :=
  ⟨socket.mEp, ([socket.mTxCq, socket.mRxCq].reduceOption : List Fid), socket.mMrs⟩

namespace Fi

def Acceptor.owner (acceptor : Acceptor) : Owner Fid :=
  ⟨acceptor.mPep, (acceptor.mPepEq.toList : List Fid), 0⟩

section Functions

variable {rest : Multiset (Owner Fid)}

/-- The end of `accept` and `connect`: the socket has the endpoint and the completion queues,
and the event queue is left to the scope. -/
def Handed (rest : Multiset (Owner Fid)) (socket : FabricSocket) (state : Locals × Fabric) : Prop :=
  ∃ info eq, state.1 = ⟨info, none, none, none, some eq⟩ ∧ socket.mMrs = [] ∧
    InOrder ((⟨socket.mEp, socket.owner.parts, info.toList⟩ : Owner Fid).addPart eq ::ₘ rest)
      state.2

theorem handOver_ends {info : Option Fid} {ep rx tx eq : Fid} (credits : ℕ) : Ends
    (Here (fun _ => True) rest ⟨info, some ep, some rx, some tx, some eq⟩
      ⟨some ep, ([eq, tx, rx] : List Fid), info.toList⟩)
    (handOver credits) (Handed rest) (Thrown rest Locals.owner) := by
  rintro state ⟨same, books⟩
  unfold handOver
  rw [same]
  exact ⟨info, eq, rfl, rfl, books⟩

/-- The last event is awaited, and the socket is made. -/
theorem finish_ends {info : Option Fid} {ep rx tx eq : Fid} (credits : ℕ) (read : EqRead) : Ends
    (Here (fun _ => True) rest ⟨info, some ep, some rx, some tx, some eq⟩
      ⟨some ep, ([eq, tx, rx] : List Fid), info.toList⟩)
    (do
      outer (readEvent (← get).1.eq read)
      handOver credits)
    (Handed rest) (Thrown rest Locals.owner) := by
  intro state here
  have usable : ∀ object ∈ state.1.eq, Usable (fun _ => True)
      ((⟨some ep, ([eq, tx, rx] : List Fid), info.toList⟩ : Owner Fid) ::ₘ rest) object := by
    rw [here.1]
    rintro _ ⟨⟩
    exact .own (Owner.part_mem List.mem_cons_self)
  exact outer_bind (l := ⟨info, some ep, some rx, some tx, some eq⟩) (readEvent_ends usable read)
    (fun _ => handOver_ends credits) state here

/-- A scope that ends with a socket, or closes all that it has opened. -/
theorem scope_ends {body : ScopedM FabricSocket}
    (ends : Ends (Here (fun _ => True) rest ⟨none, none, none, none, none⟩ ⟨none, 0, 0⟩) body
      (Handed rest) (Thrown rest Locals.owner)) :
    Ends (InOrder rest)
      (scope Locals.enter Locals.unwind body)
      (fun socket => InOrder (socket.owner ::ₘ rest)) (InOrder rest) := by
  refine ends.scope (fun fabric books => ⟨rfl, books_empty.mpr books⟩) ?_ ?_
  · rintro socket ⟨locals, fabric⟩ ⟨info, eq, same, unregistered, books⟩
    obtain rfl : locals = ⟨info, none, none, none, some eq⟩ := same
    have closed := books.close_part
    rw [← add_zero (info.toList : Multiset Fid)] at closed
    have left := closed.closeOthers
    rw [FabricSocket.owner, unregistered]
    cases info <;> exact left
  · exact fun _ books => Locals.unwind_books books

theorem Acceptor.accept_ends (acceptor : Acceptor) (alive : acceptor.owner ∈ rest)
    (answers : AcceptAnswers) : Ends (InOrder rest) (acceptor.accept answers)
      (fun socket => InOrder (socket.owner ::ₘ rest)) (InOrder rest) := by
  have usable : ∀ d, ∀ object ∈ acceptor.mPepEq,
      Usable (· = some d) (⟨none, 0, 0⟩ ::ₘ rest) object := fun d object has =>
    .among alive (Owner.part_mem (Multiset.mem_coe.mpr (Option.mem_toList.mpr has)))
  apply scope_ends
  refine outer_bind Domain.getInstance_ends fun d => ?_
  refine outer_bind (readRequest_ends (usable d) _) fun info => ?_
  refine outer_bind (create_ends _ ⟨fun _ => rfl, rfl, by simp [FiCall.uses]⟩
    fun _ => Books.head rfl) fun ret => ?_
  cases ret with
  | error text =>
    refine outer_bind (R := fun _ => InOrder (⟨none, 0, 0⟩ ::ₘ rest))
      (fun _ books => books.close_other.inOrder) fun _ => throw_ends rfl
  | ok ep =>
    refine outer_bind (R := fun _ => InOrder (⟨some ep, 0, 0⟩ ::ₘ rest))
      (fun _ books => (@Books.close_other _ _ ⟨some ep, 0, 0⟩ _ _ books).inOrder) fun _ => ?_
    refine assign_bind ?_
    refine queues_bind fun rx tx eq => ?_
    refine try_bind (fun _ _ books => books.quiet rfl (Usable.head rfl)) fun ret => ?_
    cases ret with
    | some text => exact throw_ends rfl
    | none => exact finish_ends acceptor.mCredits answers.connected

theorem connect_ends (credits : ℕ) (hostname port : String) (answers : ConnectAnswers) :
    Ends (InOrder rest) (connect credits hostname port answers)
      (fun socket => InOrder (socket.owner ::ₘ rest)) (InOrder rest) := by
  apply scope_ends
  refine outer_bind Domain.getInstance_ends fun d => ?_
  refine create_bind ⟨fun _ => rfl, rfl, by simp [FiCall.uses]⟩ (fun _ => Books.other)
    (fun _ => throw_ends rfl) fun info => ?_
  refine assign_bind ?_
  refine create_bind ⟨fun _ => rfl, rfl, by simp [FiCall.uses]⟩ (fun _ => Books.head rfl)
    (fun _ => throw_ends rfl) fun ep => ?_
  refine assign_bind ?_
  refine queues_bind fun rx tx eq => ?_
  refine try_bind (fun _ _ books => books.quiet rfl fun _ given => ?_) fun ret => ?_
  · refine .own (Owner.mem_all.mpr ?_)
    rcases List.mem_pair.mp given with rfl | rfl
    · exact .inl rfl
    · exact .inr (.inr (List.mem_singleton.mpr rfl))
  · cases ret with
    | some text => exact throw_ends rfl
    | none => exact finish_ends credits answers.connected

/-- What is open during `listen` is the acceptor's, but for the address. -/
def Acceptor.Listening.owner (listening : Acceptor.Listening) : Owner Fid :=
  ⟨listening.acceptor.mPep, (listening.acceptor.mPepEq.toList : List Fid),
    (listening.info.toList : List Fid)⟩

theorem Acceptor.listenFirst_ends {acceptor : Acceptor} (silent : acceptor.mPep = none)
    (hostname port : String) (answers : ListenAnswers) :
    Ends (Here (fun _ => True) rest ⟨none, acceptor⟩ acceptor.owner)
      (listenFirst hostname port answers) (fun _ => Thrown rest Listening.owner)
      (Thrown rest Listening.owner) := by
  refine outer_bind Domain.getInstance_ends fun d => ?_
  refine create_bind ⟨fun _ => rfl, rfl, by simp [FiCall.uses]⟩ (fun _ => Books.other)
    (fun _ => throw_ends rfl) fun info => ?_
  refine assign_bind ?_
  refine create_bind ⟨fun _ => rfl, rfl, by simp [FiCall.uses]⟩ (fun _ => Books.head silent)
    (fun _ => throw_ends rfl) fun pep => ?_
  refine assign_bind ?_
  refine create_bind ⟨fun _ => rfl, rfl, by simp [FiCall.uses]⟩ (fun _ => Books.part)
    (fun _ => throw_ends rfl) fun eq => ?_
  refine Ends.bind (R := fun _ => Here (fun _ => True) rest
    ⟨some info, { acceptor with mPep := some pep, mPepEq := some eq }⟩
    ⟨some pep, ([eq] : List Fid), ([info] : List Fid)⟩) (Ends.modify ?_) fun _ => ?_
  · rintro ⟨_, fabric⟩ ⟨rfl, books⟩
    have whole : ((acceptor.owner.addOther info).setHead pep).addPart eq =
        ⟨some pep, acceptor.mPepEq.toList + ([eq] : List Fid), ([info] : List Fid)⟩ :=
      Owner.ext rfl (Multiset.coe_eq_coe.mpr (List.perm_append_singleton _ _).symm) rfl
    rw [whole] at books
    exact ⟨rfl, books.closeParts.inOrder⟩
  · refine try_bind (fun _ done books => books.bind rfl (by simp) done) fun ret => ?_
    cases ret with
    | some text => exact throw_ends rfl
    | none =>
      refine try_bind (fun _ _ books => books.quiet rfl (Usable.head rfl)) fun ret => ?_
      cases ret with
      | some text => exact throw_ends rfl
      | none =>
        refine Ends.pure ?_
        rintro state ⟨same, books⟩
        rw [Thrown, same]
        exact books

theorem Acceptor.listen_of_some {acceptor : Acceptor} {pep : Fid} {fabric : Fabric}
    {hostname port : String} {answers : ListenAnswers} (there : acceptor.mPep = some pep) :
    Acceptor.listen hostname port answers (acceptor, fabric) = .ok ⟨⟩ (acceptor, fabric) := by
  unfold Acceptor.listen
  rw [estate_get_bind, there]
  rfl

theorem Acceptor.listen_of_none {acceptor : Acceptor} {fabric : Fabric} {hostname port : String}
    {answers : ListenAnswers} (silent : acceptor.mPep = none) :
    Acceptor.listen hostname port answers (acceptor, fabric) =
      scope Listening.enter Listening.unwind (listenFirst hostname port answers)
        (acceptor, fabric) := by
  unfold Acceptor.listen
  rw [estate_get_bind, silent]

theorem Acceptor.listen_ends (hostname port : String) (answers : ListenAnswers) :
    Ends (Thrown rest Acceptor.owner) (Acceptor.listen hostname port answers)
      (fun _ => Thrown rest Acceptor.owner)
      (Thrown rest Acceptor.owner) := by
  rintro ⟨acceptor, fabric⟩ books
  -- the address is closed on every way out
  have closed : ∀ state : Listening × Fabric, Thrown rest Listening.owner state →
      Thrown rest Acceptor.owner (Listening.unwind state) := by
    rintro ⟨listening, fabric⟩ books
    apply Books.closeOthers
    rw [add_zero]
    exact books
  cases silent : acceptor.mPep with
  | some pep =>
    rw [Acceptor.listen_of_some silent]
    exact books
  | none =>
    rw [Acceptor.listen_of_none silent]
    refine (Acceptor.listenFirst_ends silent hostname port answers).scope
      (P := (· = (acceptor, fabric))) ?_ (fun _ => closed) closed _ rfl
    rintro _ rfl
    exact ⟨rfl, books⟩

end Functions

end Fi

namespace FabricSocket

variable {rest : Multiset (Owner Fid)}

theorem registerMemory_ends (t : Transport) (buffer size : ℕ) (domain : DomainAnswers)
    (mrReg : Option String) :
    Ends (Thrown rest owner) (registerMemory t buffer size domain mrReg)
      (fun _ => Thrown rest owner) (Thrown rest owner) := by
  rintro ⟨socket, fabric⟩ books
  cases t with
  | verbs => exact books
  | fiTcp => exact books
  | fiVerbs =>
    refine outer_bind (l := socket) Domain.getInstance_ends (fun d => ?_) _ ⟨rfl, books⟩
    refine create_bind ⟨fun _ => rfl, rfl, by simp [FiCall.uses]⟩ (fun _ => Books.other)
      (fun _ => throw_ends rfl) fun mr => Ends.modify ?_
    rintro state ⟨rfl, books⟩
    have same : ({ state.1 with
        mMrs := state.1.mMrs ++ [mr]
        socket := state.1.socket.registerMemory .fiVerbs buffer size } : FabricSocket).owner =
        state.1.owner.addOther mr :=
      Owner.ext rfl rfl (Multiset.coe_eq_coe.mpr List.perm_append_comm)
    rw [← same] at books
    exact books.inOrder

theorem destroy_books {socket : FabricSocket} {fabric : Fabric}
    (books : InOrder (socket.owner ::ₘ rest) fabric) : InOrder rest (socket.destroy fabric) := by
  have order : [socket.mTxCq, socket.mRxCq, socket.mEp].reduceOption =
      [socket.mTxCq, socket.mRxCq].reduceOption ++ socket.mEp.toList := by
    rw [← List.reduceOption_singleton, ← List.reduceOption_append]
    rfl
  unfold owner at books
  rw [destroy, Fabric.closeAll_append, order]
  rw [← add_zero (socket.mMrs : Multiset Fid)] at books
  have left : InOrder rest (Fabric.closeAll (_ ++ _ ++ []) _) := books.closeOthers.closeOwner
  rwa [List.append_nil] at left

end FabricSocket

theorem Fi.Acceptor.destroy_books {rest : Multiset (Owner Fid)} {acceptor : Acceptor}
    {fabric : Fabric} (books : InOrder (acceptor.owner ::ₘ rest) fabric) :
    InOrder rest (acceptor.destroy fabric) := by
  have order : [acceptor.mPepEq, acceptor.mPep].reduceOption =
      acceptor.mPepEq.toList ++ acceptor.mPep.toList ++ [] := by
    rw [List.append_nil, ← List.reduceOption_singleton, ← List.reduceOption_singleton,
      ← List.reduceOption_append]
    rfl
  rw [destroy, order]
  exact Books.closeOwner books

end Lseb
