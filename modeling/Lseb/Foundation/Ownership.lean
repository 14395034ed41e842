import Mathlib.Data.Multiset.Bind
import Lseb.Foundation.Ledger

/-!
# Owners of attached resources

Resources are acquired, attached to one another, touched, and released by their
owners. If whatever is touched is owned, every resource that is attached belongs
to the owner of the one to which it is attached, and an owner gives that one up
last, nothing is touched after its release, and no resource outlives the one to
which it is attached.
-/

namespace Foundation

universe u

inductive Deed (Resource : Type u) where
  | acquire (resource : Resource)
  | attach (part head : Resource)
  | touch (resource : Resource)
  | release (resource : Resource)
  deriving DecidableEq, Repr

variable {Resource : Type u}

namespace Deed

/-- What a deed does to the ledger. -/
def entry : Deed Resource → Option (LedgerEntry Resource)
  | acquire resource => some (.acquire resource)
  | attach _ _ | touch _ => none
  | release resource => some (.release resource)

/-- The ledger of a history. -/
def ledger (history : List (Deed Resource)) : List (LedgerEntry Resource) :=
  history.filterMap entry

variable {history more : List (Deed Resource)} {resource : Resource}

@[simp] theorem ledger_append : ledger (history ++ more) = ledger history ++ ledger more :=
  List.filterMap_append

@[simp] theorem mem_ledger_acquire :
    LedgerEntry.acquire resource ∈ ledger history ↔ acquire resource ∈ history := by
  simp only [ledger, List.mem_filterMap]
  constructor
  · rintro ⟨deed, member, entered⟩
    cases deed <;> cases entered
    exact member
  · exact fun member => ⟨_, member, rfl⟩

@[simp] theorem mem_ledger_release :
    LedgerEntry.release resource ∈ ledger history ↔ release resource ∈ history := by
  simp only [ledger, List.mem_filterMap]
  constructor
  · rintro ⟨deed, member, entered⟩
    cases deed <;> cases entered
    exact member
  · exact fun member => ⟨_, member, rfl⟩

end Deed

open Deed

/-- The resource to which an owner's parts may be attached, these parts, and the rest. -/
@[ext]
structure Owner (Resource : Type u) where
  head : Option Resource
  parts : Multiset Resource
  others : Multiset Resource

namespace Owner

/-- Everything that is owned. -/
def all (owner : Owner Resource) : Multiset Resource :=
  owner.head.toList + owner.parts + owner.others

@[simps]
def addPart (owner : Owner Resource) (resource : Resource) : Owner Resource :=
  { owner with parts := resource ::ₘ owner.parts }

/-- A vacant head is filled. -/
@[simps]
def setHead (owner : Owner Resource) (resource : Resource) : Owner Resource :=
  { owner with head := some resource }

@[simps]
def addOther (owner : Owner Resource) (resource : Resource) : Owner Resource :=
  { owner with others := resource ::ₘ owner.others }

variable {owner : Owner Resource} {resource : Resource}

@[simp] theorem mem_all : resource ∈ owner.all ↔
    owner.head = some resource ∨ resource ∈ owner.parts ∨ resource ∈ owner.others := by
  simp [all, or_assoc]

theorem all_addPart : (owner.addPart resource).all = resource ::ₘ owner.all := by
  simp [all, addPart]

theorem all_addOther : (owner.addOther resource).all = resource ::ₘ owner.all := by
  simp [all, addOther]

theorem all_setHead (vacant : owner.head = none) :
    (owner.setHead resource).all = resource ::ₘ owner.all := by
  simp [all, setHead, vacant, ← Multiset.singleton_add, add_assoc]

theorem head_mem (head : owner.head = some resource) : resource ∈ owner.all := by
  simp [all, head]

theorem part_mem (part : resource ∈ owner.parts) : resource ∈ owner.all :=
  Multiset.mem_add.mpr (.inl (Multiset.mem_add.mpr (.inr part)))

end Owner

/-- Everything acquired and not released is owned; what was touched was acquired and not released
by then; an attached part that is not released belongs to the owner of its head; and no part was
released later than its head. -/
structure Orderly (history : List (Deed Resource)) (owners : Multiset (Owner Resource)) : Prop where
  holding : Holding (ledger history) (owners.bind Owner.all)
  touched : ∀ before resource after, history = before ++ touch resource :: after →
    acquire resource ∈ before ∧ release resource ∉ before
  attached : ∀ part head, attach part head ∈ history → release part ∈ history ∨
    ∃ owner ∈ owners, owner.head = some head ∧ part ∈ owner.parts
  late : ∀ before part after, history = before ++ release part :: after →
    ∀ head, attach part head ∈ before → head ≠ part ∧ release head ∉ before

namespace Orderly

variable {history : List (Deed Resource)} {owners rest : Multiset (Owner Resource)}
  {owner owner' : Owner Resource} {resource part : Resource}

theorem start : Orderly ([] : List (Deed Resource)) 0 where
  holding := .start
  touched := by simp
  attached := by simp
  late := by simp

variable [DecidableEq Resource]

/-- What is owned is acquired and not released. -/
theorem unreleased (orderly : Orderly history owners) (owned : resource ∈ owners.bind Owner.all) :
    acquire resource ∈ history ∧ release resource ∉ history := by
  obtain ⟨acquired, kept⟩ := orderly.holding.of_mem owned
  exact ⟨mem_ledger_acquire.mp acquired, mem_ledger_release.not.mp kept⟩

theorem not_released (orderly : Orderly history owners) (member : owner ∈ owners)
    (owned : resource ∈ owner.all) : release resource ∉ history :=
  (orderly.unreleased (Multiset.mem_bind.mpr ⟨owner, member, owned⟩)).2

/-- Nothing is owned twice. -/
theorem head_ne_part {head : Resource} (orderly : Orderly history owners) (member : owner ∈ owners)
    (same : owner.head = some head) (inside : part ∈ owner.parts) : head ≠ part := by
  rintro rfl
  have twice : 2 ≤ owner.all.count head := by
    have positive := Multiset.count_pos.mpr inside
    simp only [Owner.all, same, Multiset.count_add, Option.toList_some, Multiset.coe_singleton,
      Multiset.count_singleton_self]
    omega
  have among := Multiset.count_le_of_le head (Multiset.le_bind (f := Owner.all) owners member)
  have counts := orderly.holding.count_eq head
  omega

/-- One more deed of one owner. -/
theorem snoc {deed : Deed Resource} (orderly : Orderly history (owner ::ₘ rest))
    (holding : Holding (ledger history ++ ledger [deed]) (owner'.all + rest.bind Owner.all))
    (kept : ∀ head part, owner.head = some head → part ∈ owner.parts →
      deed = release part ∨ owner'.head = some head ∧ part ∈ owner'.parts)
    (touches : ∀ resource, deed = touch resource → resource ∈ (owner ::ₘ rest).bind Owner.all)
    (attaches : ∀ part head, deed = attach part head →
      owner'.head = some head ∧ part ∈ owner'.parts)
    (releases : ∀ resource, deed = release resource → resource ∈ owner.all) :
    Orderly (history ++ [deed]) (owner' ::ₘ rest) where
  holding := by
    rw [ledger_append, Multiset.cons_bind]
    exact holding
  touched := by
    intro before resource after split
    rcases List.eq_nil_or_concat after with rfl | ⟨later, last, rfl⟩
    · obtain ⟨rfl, same⟩ := List.append_inj' split rfl
      exact orderly.unreleased (touches resource (List.singleton_inj.mp same))
    · rw [List.concat_eq_append, ← List.cons_append, ← List.append_assoc] at split
      exact orderly.touched before resource later (List.append_inj_left' split rfl)
  attached := by
    intro part head member
    rcases List.mem_append.mp member with old | new
    · rcases orderly.attached part head old with released | ⟨other, among, same, inside⟩
      · exact .inl (List.mem_append_left _ released)
      · rcases Multiset.mem_cons.mp among with rfl | among
        · rcases kept head part same inside with rfl | still
          · exact .inl (List.mem_append_right _ List.mem_cons_self)
          · exact .inr ⟨owner', Multiset.mem_cons_self _ _, still⟩
        · exact .inr ⟨other, Multiset.mem_cons_of_mem among, same, inside⟩
    · obtain rfl := List.mem_singleton.mp new
      exact .inr ⟨owner', Multiset.mem_cons_self _ _, attaches part head rfl⟩
  late := by
    intro before part after split head attached
    rcases List.eq_nil_or_concat after with rfl | ⟨later, last, rfl⟩
    · obtain ⟨rfl, same⟩ := List.append_inj' split rfl
      obtain rfl := List.singleton_inj.mp same
      have owned := releases part rfl
      rcases orderly.attached part head attached with released | ⟨other, among, same, inside⟩
      · exact absurd released (orderly.not_released (Multiset.mem_cons_self _ _) owned)
      · exact ⟨orderly.head_ne_part among same inside,
          orderly.not_released among (Owner.head_mem same)⟩
    · rw [List.concat_eq_append, ← List.cons_append, ← List.append_assoc] at split
      exact orderly.late before part later (List.append_inj_left' split rfl) head attached

theorem touch (orderly : Orderly history owners) (owned : resource ∈ owners.bind Owner.all) :
    Orderly (history ++ [Deed.touch resource]) owners := by
  obtain ⟨owner, member, _⟩ := Multiset.mem_bind.mp owned
  obtain ⟨rest, rfl⟩ := Multiset.exists_cons_of_mem member
  refine orderly.snoc ?_ (fun _ _ same inside => .inr ⟨same, inside⟩) ?_ (by simp) (by simp)
  · rw [show ledger [Deed.touch resource] = [] from rfl, List.append_nil, ← Multiset.cons_bind]
    exact orderly.holding
  · rintro _ ⟨⟩
    exact owned

theorem touch_all {resources : List Resource} (orderly : Orderly history owners)
    (owned : ∀ resource ∈ resources, resource ∈ owners.bind Owner.all) :
    Orderly (history ++ resources.map Deed.touch) owners := by
  induction resources generalizing history with
  | nil => simpa using orderly
  | cons resource resources ih =>
    have first := orderly.touch (owned resource List.mem_cons_self)
    have more := ih first fun resource member => owned resource (List.mem_cons_of_mem _ member)
    rwa [List.append_assoc] at more

section Rules

variable (orderly : Orderly history (owner ::ₘ rest))

include orderly

theorem acquire_part (fresh : acquire resource ∉ history) :
    Orderly (history ++ [acquire resource]) (owner.addPart resource ::ₘ rest) := by
  have held := orderly.holding
  rw [Multiset.cons_bind] at held
  refine orderly.snoc ?_ ?_ (by simp) (by simp) (by simp)
  · rw [Owner.all_addPart, Multiset.cons_add]
    exact held.acquired (mem_ledger_acquire.not.mpr fresh)
  · exact fun head part same member => .inr ⟨same, Multiset.mem_cons_of_mem member⟩

theorem acquire_other (fresh : acquire resource ∉ history) :
    Orderly (history ++ [acquire resource]) (owner.addOther resource ::ₘ rest) := by
  have held := orderly.holding
  rw [Multiset.cons_bind] at held
  refine orderly.snoc ?_ ?_ (by simp) (by simp) (by simp)
  · rw [Owner.all_addOther, Multiset.cons_add]
    exact held.acquired (mem_ledger_acquire.not.mpr fresh)
  · exact fun head part same member => .inr ⟨same, member⟩

theorem attach_part (head : owner.head = some resource) (member : part ∈ owner.parts) :
    Orderly (history ++ [attach part resource]) (owner ::ₘ rest) := by
  have held := orderly.holding
  rw [Multiset.cons_bind] at held
  refine orderly.snoc ?_ (fun _ _ same inside => .inr ⟨same, inside⟩) (by simp) ?_ (by simp)
  · rw [show ledger [attach part resource] = [] from rfl, List.append_nil]
    exact held
  · rintro _ _ ⟨⟩
    exact ⟨head, member⟩

end Rules

theorem acquire_head (orderly : Orderly history (owner ::ₘ rest)) (vacant : owner.head = none)
    (fresh : acquire resource ∉ history) :
    Orderly (history ++ [acquire resource]) (owner.setHead resource ::ₘ rest) := by
  have held := orderly.holding
  rw [Multiset.cons_bind] at held
  refine orderly.snoc ?_ (by simp [vacant]) (by simp) (by simp) (by simp)
  rw [Owner.all_setHead vacant, Multiset.cons_add]
  exact held.acquired (mem_ledger_acquire.not.mpr fresh)

theorem release_part (orderly : Orderly history (owner.addPart resource ::ₘ rest)) :
    Orderly (history ++ [release resource]) (owner ::ₘ rest) := by
  have held := orderly.holding
  rw [Multiset.cons_bind, Owner.all_addPart, Multiset.cons_add] at held
  refine orderly.snoc held.released ?_ (by simp) (by simp) ?_
  · intro head part same member
    rcases Multiset.mem_cons.mp member with rfl | member
    · exact .inl rfl
    · exact .inr ⟨same, member⟩
  · rintro _ ⟨⟩
    rw [Owner.all_addPart]
    exact Multiset.mem_cons_self _ _

theorem release_other (orderly : Orderly history (owner.addOther resource ::ₘ rest)) :
    Orderly (history ++ [release resource]) (owner ::ₘ rest) := by
  have held := orderly.holding
  rw [Multiset.cons_bind, Owner.all_addOther, Multiset.cons_add] at held
  refine orderly.snoc held.released (fun _ _ same member => .inr ⟨same, member⟩) (by simp)
    (by simp) ?_
  rintro _ ⟨⟩
  rw [Owner.all_addOther]
  exact Multiset.mem_cons_self _ _

/-- A head is released when its parts are. -/
theorem release_head (orderly : Orderly history (owner.setHead resource ::ₘ rest))
    (vacant : owner.head = none) (alone : owner.parts = 0) :
    Orderly (history ++ [release resource]) (owner ::ₘ rest) := by
  have held := orderly.holding
  rw [Multiset.cons_bind, Owner.all_setHead vacant, Multiset.cons_add] at held
  refine orderly.snoc held.released (by simp [Owner.setHead, alone]) (by simp) (by simp) ?_
  rintro _ ⟨⟩
  exact Owner.head_mem rfl

theorem owner_unique (orderly : Orderly history owners) (first : owner ∈ owners)
    (second : owner' ∈ owners) (owned : resource ∈ owner.all) (owned' : resource ∈ owner'.all) :
    owner' = owner := by
  obtain ⟨rest, rfl⟩ := Multiset.exists_cons_of_mem first
  refine (Multiset.mem_cons.mp second).resolve_right fun among => ?_
  have counts := orderly.holding.count_eq resource
  rw [Multiset.cons_bind, Multiset.count_add] at counts
  have once := Multiset.count_pos.mpr owned
  have again := Multiset.count_pos.mpr (Multiset.mem_bind.mpr ⟨owner', among, owned'⟩)
  omega

/-- What was attached to a head that is owned is one of the owner's parts, or released. -/
theorem part_of {head : Resource} (orderly : Orderly history owners) (member : owner ∈ owners)
    (same : owner.head = some head) (attached : attach part head ∈ history) :
    release part ∈ history ∨ part ∈ owner.parts := by
  refine (orderly.attached part head attached).imp_right ?_
  rintro ⟨other, among, same', inside⟩
  rwa [← orderly.owner_unique member among (Owner.head_mem same) (Owner.head_mem same')]

/-- When a head is released, so are all the parts that were attached to it. -/
theorem parts_first (orderly : Orderly history owners) {head : Resource}
    {before after : List (Deed Resource)} (split : history = before ++ release head :: after)
    (attached : attach part head ∈ before) : release part ∈ before := by
  have earlier : attach part head ∈ history := split ▸ List.mem_append_left _ attached
  rcases orderly.attached part head earlier with released | ⟨owner, among, same, _⟩
  · rw [split, List.mem_append, List.mem_cons] at released
    rcases released with first | same | later
    · exact first
    · obtain rfl := Deed.release.inj same
      have wrong := orderly.late before part after split part attached
      exact absurd rfl wrong.1
    · obtain ⟨middle, last, rfl⟩ := List.append_of_mem later
      have wrong := orderly.late (before ++ release head :: middle) part last (by simp [split]) head
        (List.mem_append_left _ attached)
      exact absurd (by simp) wrong.2
  · refine absurd ?_ (orderly.not_released among (Owner.head_mem same))
    rw [split]
    exact List.mem_append_right _ List.mem_cons_self

omit [DecidableEq Resource] in
/-- An owner without anything. -/
theorem cons_empty_iff : Orderly history (⟨none, 0, 0⟩ ::ₘ owners) ↔ Orderly history owners := by
  have nothing : (⟨none, 0, 0⟩ : Owner Resource).all = 0 := rfl
  constructor
  · rintro ⟨holding, touched, attached, late⟩
    refine ⟨?_, touched, fun part head member => ?_, late⟩
    · rwa [Multiset.cons_bind, nothing, zero_add] at holding
    · refine (attached part head member).imp_right ?_
      rintro ⟨owner, among, same, inside⟩
      rcases Multiset.mem_cons.mp among with rfl | among
      · cases same
      · exact ⟨owner, among, same, inside⟩
  · rintro ⟨holding, touched, attached, late⟩
    refine ⟨?_, touched, fun part head member => ?_, late⟩
    · rwa [Multiset.cons_bind, nothing, zero_add]
    · refine (attached part head member).imp_right ?_
      rintro ⟨owner, among, same, inside⟩
      exact ⟨owner, Multiset.mem_cons_of_mem among, same, inside⟩

end Orderly

end Foundation
