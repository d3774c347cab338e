/-
Counting semaphores, and a semaphore of value 1 as the guard of a section.

A wait on the value 0 is not possible, which is how a blocked thread shows in a
model whose steps are partial. The guard rules say what entering and leaving the
section do to the value, for any set of threads.
-/

import Mathlib.Logic.Function.Basic

namespace OsCompiler.Semaphore

def semWait : Nat → Option Nat
  | 0 => none
  | value + 1 => some value

def semPost (value : Nat) : Nat := value + 1

@[simp] theorem semWait_eq_some {value after : Nat} :
    semWait value = some after ↔ value = after + 1 := by
  cases value <;> simp [semWait]

theorem exists_semWait {value : Nat} (available : 0 < value) :
    ∃ after, semWait value = some after :=
  ⟨value - 1, semWait_eq_some.mpr (by omega)⟩

variable {Thread : Type}

/-- The value is 1 while no thread is inside and 0 while exactly one is. -/
structure Guards (value : Nat) (inside : Thread → Prop) : Prop where
  atMostOne : ∀ one other, inside one → inside other → one = other
  binary : value ≤ 1
  occupied : value = 0 ↔ ∃ thread, inside thread

namespace Guards

variable {value : Nat} {inside after : Thread → Prop}

theorem initial (outside : ∀ thread, ¬ inside thread) : Guards 1 inside where
  atMostOne one _ oneInside _ := absurd oneInside (outside one)
  binary := Nat.le_refl 1
  occupied := by
    constructor
    · intro zero
      omega
    · intro found
      rcases found with ⟨thread, isInside⟩
      exact absurd isInside (outside thread)

theorem value_eq_one (guards : Guards value inside) (outside : ∀ thread, ¬ inside thread) :
    value = 1 := by
  have binary := guards.binary
  have positive : value ≠ 0 := by
    intro zero
    rcases guards.occupied.mp zero with ⟨thread, isInside⟩
    exact outside thread isInside
  omega

/-! One thread moves; the others are inside or outside as before. -/

variable {thread : Thread}

theorem move (guards : Guards value inside) (same : after thread ↔ inside thread)
    (others : ∀ other, other ≠ thread → (after other ↔ inside other)) : Guards value after := by
  have equal : after = inside := by
    funext other
    by_cases here : other = thread
    · exact propext (here ▸ same)
    · exact propext (others other here)
  exact equal ▸ guards

/-- A wait that is possible lets the thread into an empty section. -/
theorem enter (guards : Guards (value + 1) inside) (entered : after thread)
    (others : ∀ other, other ≠ thread → (after other ↔ inside other)) : Guards value after := by
  have empty : ∀ other, ¬ inside other := by
    intro other isInside
    have zero := guards.occupied.mpr ⟨other, isInside⟩
    omega
  have only : ∀ other, after other → other = thread := by
    intro other isInside
    by_contra different
    exact empty other ((others other different).mp isInside)
  have zero : value = 0 := Nat.succ.inj (guards.value_eq_one empty)
  constructor
  · intro one other oneInside otherInside
    exact (only one oneInside).trans (only other otherInside).symm
  · omega
  · exact iff_of_true zero ⟨thread, entered⟩

theorem leave (guards : Guards value inside) (wasInside : inside thread)
    (left : ¬ after thread)
    (others : ∀ other, other ≠ thread → (after other ↔ inside other)) :
    Guards (semPost value) after := by
  have zero : value = 0 := guards.occupied.mpr ⟨thread, wasInside⟩
  have empty : ∀ other, ¬ after other := by
    intro other isInside
    by_cases here : other = thread
    · exact left (here ▸ isInside)
    · exact here (guards.atMostOne other thread ((others other here).mp isInside) wasInside)
  rw [zero]
  exact Guards.initial empty

end Guards

/-! ### Sections given by the place of each thread -/

section Places

variable [DecidableEq Thread] {Place : Type} {inSection : Place → Prop}
  {place : Thread → Place} {thread : Thread} {target : Place} {value : Nat}

theorem section_others (other : Thread) (different : other ≠ thread) :
    inSection (Function.update place thread target other) ↔ inSection (place other) := by
  rw [Function.update_of_ne different]

theorem Guards.move_at (guards : Guards value fun other => inSection (place other))
    (same : inSection target ↔ inSection (place thread)) :
    Guards value fun other => inSection (Function.update place thread target other) := by
  apply guards.move _ section_others
  rw [Function.update_self]
  exact same

theorem Guards.enter_at (guards : Guards (value + 1) fun other => inSection (place other))
    (entered : inSection target) :
    Guards value fun other => inSection (Function.update place thread target other) := by
  apply guards.enter _ section_others
  rw [Function.update_self]
  exact entered

theorem Guards.leave_at (guards : Guards value fun other => inSection (place other))
    (wasInside : inSection (place thread)) (outside : ¬ inSection target) :
    Guards (semPost value) fun other =>
      inSection (Function.update place thread target other) := by
  apply guards.leave wasInside _ section_others
  rw [Function.update_self]
  exact outside

end Places

end OsCompiler.Semaphore
