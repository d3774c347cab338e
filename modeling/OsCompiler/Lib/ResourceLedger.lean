/-
The history of acquired and released resources of a computation.

A ledger lists what was acquired and what was released, in order. A resource leaks if
it was acquired and never released; a ledger is settled if every acquired resource was
released exactly once. Parts of a computation that only extend a ledger by events about
their own resources do not disturb the account of the others.
-/

import Mathlib.Data.List.Count

namespace OsCompiler

inductive ResourceEvent (Resource : Type)
  | acquired (resource : Resource)
  | released (resource : Resource)
deriving DecidableEq

abbrev ResourceLedger (Resource : Type) := List (ResourceEvent Resource)

namespace ResourceEvent

variable {Resource : Type}

def resource : ResourceEvent Resource → Resource
  | acquired resource => resource
  | released resource => resource

end ResourceEvent

namespace ResourceLedger

open ResourceEvent

variable {Resource : Type}

def acquire (ledger : ResourceLedger Resource) (resource : Resource) : ResourceLedger Resource :=
  ledger ++ [acquired resource]

def release (ledger : ResourceLedger Resource) (resource : Resource) : ResourceLedger Resource :=
  ledger ++ [released resource]

def Leaked (ledger : ResourceLedger Resource) (resource : Resource) : Prop :=
  acquired resource ∈ ledger ∧ released resource ∉ ledger

/-- Whatever was acquired was released, and only once. -/
def Settled [DecidableEq Resource] (ledger : ResourceLedger Resource) : Prop :=
  ∀ resource, acquired resource ∈ ledger → ledger.count (released resource) = 1

def Balanced [DecidableEq Resource] (ledger : ResourceLedger Resource) : Prop :=
  ∀ resource, ledger.count (released resource) = ledger.count (acquired resource)

theorem Leaked.not_settled [DecidableEq Resource] {ledger : ResourceLedger Resource}
    {resource : Resource} (leaked : ledger.Leaked resource) : ¬ ledger.Settled := by
  intro settled
  have once := settled resource leaked.1
  rw [List.count_eq_zero.mpr leaked.2] at once
  cases once

/-! ### Extensions by events about some resources -/

/-- `after` continues `before` with events about resources that satisfy `own` only. -/
def Extends (own : Resource → Prop) (before after : ResourceLedger Resource) : Prop :=
  ∃ events, after = before ++ events ∧ ∀ event ∈ events, own event.resource

variable {own : Resource → Prop} {before middle after : ResourceLedger Resource}
  {resource : Resource}

theorem Extends.refl (own : Resource → Prop) (ledger : ResourceLedger Resource) :
    Extends own ledger ledger :=
  ⟨[], (List.append_nil ledger).symm, fun _ member => by cases member⟩

theorem Extends.mono {wider : Resource → Prop} (extended : Extends own before after)
    (included : ∀ resource, own resource → wider resource) : Extends wider before after := by
  rcases extended with ⟨events, appended, mine⟩
  exact ⟨events, appended, fun event member => included _ (mine event member)⟩

theorem Extends.trans (first : Extends own before middle) (second : Extends own middle after) :
    Extends own before after := by
  rcases first with ⟨early, rfl, earlyOwn⟩
  rcases second with ⟨late, rfl, lateOwn⟩
  refine ⟨early ++ late, List.append_assoc _ _ _, ?_⟩
  intro event member
  rcases List.mem_append.mp member with inEarly | inLate
  · exact earlyOwn event inEarly
  · exact lateOwn event inLate

theorem Extends.acquire (extended : Extends own before after) (mine : own resource) :
    Extends own before (after.acquire resource) :=
  extended.trans ⟨[acquired resource], rfl, fun _ member => List.mem_singleton.mp member ▸ mine⟩

theorem Extends.release (extended : Extends own before after) (mine : own resource) :
    Extends own before (after.release resource) :=
  extended.trans ⟨[released resource], rfl, fun _ member => List.mem_singleton.mp member ▸ mine⟩

/-- Events about other resources are those of the ledger before. -/
theorem Extends.mem_iff (extended : Extends own before after) {event : ResourceEvent Resource}
    (foreign : ¬ own event.resource) : event ∈ after ↔ event ∈ before := by
  rcases extended with ⟨events, rfl, mine⟩
  rw [List.mem_append, or_iff_left fun member => foreign (mine event member)]

theorem Extends.leaked_iff (extended : Extends own before after) (foreign : ¬ own resource) :
    after.Leaked resource ↔ before.Leaked resource := by
  have inAfter : acquired resource ∈ after ↔ acquired resource ∈ before := extended.mem_iff foreign
  have outAfter : released resource ∈ after ↔ released resource ∈ before := extended.mem_iff foreign
  rw [Leaked, Leaked, inAfter, outAfter]

/-! ### Counting the events of a list of resources -/

section Counts

variable [DecidableEq Resource] (resources : List Resource) (resource : Resource)

@[simp] theorem count_acquired_map_acquired :
    (resources.map acquired).count (acquired resource) = resources.count resource :=
  List.count_map_of_injective resources acquired (fun _ _ same => ResourceEvent.acquired.inj same)
    resource

@[simp] theorem count_released_map_released :
    (resources.map released).count (released resource) = resources.count resource :=
  List.count_map_of_injective resources released (fun _ _ same => ResourceEvent.released.inj same)
    resource

@[simp] theorem count_acquired_map_released :
    (resources.map released).count (acquired resource) = 0 := by
  rw [List.count_eq_zero]
  simp

@[simp] theorem count_released_map_acquired :
    (resources.map acquired).count (released resource) = 0 := by
  rw [List.count_eq_zero]
  simp

end Counts

/-! ### Ledgers put together from the parts of several owners -/

section Owners

variable [DecidableEq Resource] {owner : Resource → Option Nat}
  {part : Nat → ResourceLedger Resource} {numbers : List Nat} {event : ResourceEvent Resource}

theorem count_flatMap_foreign
    (own : ∀ index, ∀ event ∈ part index, owner event.resource = some index)
    (foreign : ∀ index ∈ numbers, owner event.resource ≠ some index) :
    (numbers.flatMap part).count event = 0 := by
  rw [List.count_eq_zero]
  intro member
  rcases List.mem_flatMap.mp member with ⟨index, listed, here⟩
  exact foreign index listed (own index event here)

/-- The parts of the others say nothing about a resource of one owner. -/
theorem count_flatMap_own
    (own : ∀ index, ∀ event ∈ part index, owner event.resource = some index)
    (distinct : numbers.Nodup) {index : Nat} (listed : index ∈ numbers)
    (mine : owner event.resource = some index) :
    (numbers.flatMap part).count event = (part index).count event := by
  induction numbers with
  | nil => cases listed
  | cons first rest ih =>
      rw [List.nodup_cons] at distinct
      rw [List.flatMap_cons, List.count_append]
      rcases List.mem_cons.mp listed with rfl | later
      · have none : (rest.flatMap part).count event = 0 := by
          apply count_flatMap_foreign own
          intro other member same
          rw [mine, Option.some.injEq] at same
          exact distinct.1 (same ▸ member)
        rw [none, Nat.add_zero]
      · have notFirst : (part first).count event = 0 := by
          rw [List.count_eq_zero]
          intro member
          have same := (own first event member).symm.trans mine
          rw [Option.some.injEq] at same
          exact distinct.1 (same ▸ later)
        rw [notFirst, Nat.zero_add]
        exact ih distinct.2 later

/-- A ledger that counts like events about resources of no owner and the parts of some owners
is settled exactly if all of these are. -/
theorem settled_iff_of_parts {ledger common : ResourceLedger Resource}
    (own : ∀ index, ∀ event ∈ part index, owner event.resource = some index)
    (distinct : numbers.Nodup) (shared : ∀ event ∈ common, owner event.resource = none)
    (whole : ∀ event, ledger.count event =
      common.count event + (numbers.flatMap part).count event) :
    ledger.Settled ↔ common.Settled ∧ ∀ index ∈ numbers, (part index).Settled := by
  have ofNone (event : ResourceEvent Resource) (none : owner event.resource = none) :
      ledger.count event = common.count event := by
    rw [whole, count_flatMap_foreign own, Nat.add_zero]
    intro index _ mine
    rw [none] at mine
    cases mine
  have notShared {index : Nat} (event : ResourceEvent Resource)
      (mine : owner event.resource = some index) : common.count event = 0 := by
    rw [List.count_eq_zero]
    intro member
    rw [shared event member] at mine
    cases mine
  have ofOwner {index : Nat} (listed : index ∈ numbers) (event : ResourceEvent Resource)
      (mine : owner event.resource = some index) :
      ledger.count event = (part index).count event := by
    rw [whole, notShared event mine, Nat.zero_add]
    exact count_flatMap_own own distinct listed mine
  constructor
  · intro settled
    constructor
    · intro resource member
      have none : owner resource = none := shared (acquired resource) member
      have present := List.count_pos_iff.mpr member
      rw [← ofNone (acquired resource) none] at present
      rw [← ofNone (released resource) none]
      exact settled resource (List.count_pos_iff.mp present)
    · intro index listed resource member
      have mine : owner resource = some index := own index (acquired resource) member
      have present := List.count_pos_iff.mpr member
      rw [← ofOwner listed (acquired resource) mine] at present
      rw [← ofOwner listed (released resource) mine]
      exact settled resource (List.count_pos_iff.mp present)
  · rintro ⟨settled, parts⟩ resource member
    have present := List.count_pos_iff.mpr member
    cases owned : owner resource with
    | none =>
        rw [ofNone (acquired resource) owned] at present
        rw [ofNone (released resource) owned]
        exact settled resource (List.count_pos_iff.mp present)
    | some index =>
        by_cases listed : index ∈ numbers
        · rw [ofOwner listed (acquired resource) owned] at present
          rw [ofOwner listed (released resource) owned]
          exact parts index listed resource (List.count_pos_iff.mp present)
        · -- An owner who has no part has acquired nothing.
          rw [whole, notShared (acquired resource) owned, count_flatMap_foreign own] at present
          · exact absurd present (Nat.lt_irrefl 0)
          · intro other inside mine
            have same : index = other := Option.some.inj (owned.symm.trans mine)
            exact listed (same ▸ inside)

/-- Parts that are balanced do not unbalance a ledger. -/
theorem balanced_iff_of_parts {ledger common : ResourceLedger Resource}
    (parts : ∀ index, (part index).Balanced)
    (whole : ∀ event, ledger.count event =
      common.count event + (numbers.flatMap part).count event) :
    ledger.Balanced ↔ common.Balanced := by
  apply forall_congr'
  intro resource
  have even : (numbers.flatMap part).count (released resource) =
      (numbers.flatMap part).count (acquired resource) := by
    clear whole
    induction numbers with
    | nil => rfl
    | cons index rest ih =>
        rw [List.flatMap_cons, List.count_append, List.count_append, parts index resource, ih]
  rw [whole, whole, even]
  exact Nat.add_right_cancel_iff

end Owners

end ResourceLedger

end OsCompiler
