/-
An allocator that only moves a cursor: a request takes the next addresses of a fixed
range when they suffice and is refused otherwise. Nothing is ever given back.

The order of start, cursor and limit is part of the arena, so that every arena that can
be built hands out addresses of its own range, each of them once.
-/

import Mathlib.Order.CompletePartialOrder
import Mathlib.Order.Interval.Set.Disjoint

namespace OsCompiler

structure Span where
  first : Nat
  count : Nat

def Span.stop (span : Span) : Nat := span.first + span.count

def Span.addresses (span : Span) : Set Nat := Set.Ico span.first span.stop

structure Arena where
  start : Nat
  cursor : Nat
  limit : Nat
  reached : start ≤ cursor
  bounded : cursor ≤ limit

namespace Arena

def whole (span : Span) : Arena where
  start := span.first
  cursor := span.first
  limit := span.stop
  reached := Nat.le_refl _
  bounded := Nat.le_add_right _ _

/-- The arena after a granted request; the request got the addresses from the old
cursor on. -/
def grant (arena : Arena) (count : Nat) : Option Arena :=
  if enough : count ≤ arena.limit - arena.cursor then
    some
      { arena with
        cursor := arena.cursor + count
        reached := Nat.le_add_right_of_le arena.reached
        bounded := by have bounded := arena.bounded; omega }
  else none

def serve (arena : Arena) : List Nat → Arena
  | [] => arena
  | count :: rest =>
      match arena.grant count with
      | some next => next.serve rest
      | none => arena.serve rest

def spans (arena : Arena) : List Nat → List Span
  | [] => []
  | count :: rest =>
      match arena.grant count with
      | some next => ⟨arena.cursor, count⟩ :: next.spans rest
      | none => arena.spans rest

theorem grant_eq_some {arena next : Arena} {count : Nat} :
    arena.grant count = some next ↔
      arena.cursor + count ≤ arena.limit ∧ next.start = arena.start ∧
        next.cursor = arena.cursor + count ∧ next.limit = arena.limit := by
  have bounded := arena.bounded
  unfold grant
  by_cases enough : count ≤ arena.limit - arena.cursor
  · rw [dif_pos enough, Option.some.injEq]
    constructor
    · rintro rfl
      exact ⟨by omega, rfl, rfl, rfl⟩
    · rintro ⟨_, start, cursor, limit⟩
      cases next
      simp only at start cursor limit
      subst start cursor limit
      rfl
  · rw [dif_neg enough]
    refine iff_of_false (by simp) ?_
    rintro ⟨inside, _⟩
    omega

theorem grant_eq_none {arena : Arena} {count : Nat} :
    arena.grant count = none ↔ arena.limit - arena.cursor < count := by
  unfold grant
  by_cases enough : count ≤ arena.limit - arena.cursor
  · simp [enough]
  · simp [enough, Nat.lt_of_not_le enough]

theorem spans_inside (arena : Arena) (requests : List Nat) :
    ∀ span ∈ arena.spans requests, arena.cursor ≤ span.first ∧ span.stop ≤ arena.limit := by
  induction requests generalizing arena with
  | nil =>
      intro span member
      cases member
  | cons count rest ih =>
      intro span member
      unfold spans at member
      cases granted : arena.grant count with
      | none =>
          rw [granted] at member
          exact ih arena span member
      | some next =>
          rw [granted] at member
          rcases grant_eq_some.mp granted with ⟨enough, _, cursor, limit⟩
          rcases List.mem_cons.mp member with rfl | later
          · exact ⟨Nat.le_refl _, enough⟩
          · rcases ih next span later with ⟨lower, upper⟩
            exact ⟨by omega, limit ▸ upper⟩

/-- No address is handed out twice. -/
theorem spans_disjoint (arena : Arena) (requests : List Nat) :
    (arena.spans requests).Pairwise fun left right => Disjoint left.addresses right.addresses := by
  induction requests generalizing arena with
  | nil => exact List.Pairwise.nil
  | cons count rest ih =>
      unfold spans
      cases granted : arena.grant count with
      | none => exact ih arena
      | some next =>
          rcases grant_eq_some.mp granted with ⟨_, _, cursor, _⟩
          refine List.Pairwise.cons ?_ (ih next)
          intro span later
          have behind := (spans_inside next rest span later).1
          rw [cursor] at behind
          exact Set.Ico_disjoint_Ico.mpr
            ((min_le_left _ _).trans (behind.trans (le_max_right _ _)))

/-- The cursor stands where the last granted span ends. -/
theorem serve_cursor (arena : Arena) (requests : List Nat) :
    (arena.serve requests).cursor =
      ((arena.spans requests).getLast?.map Span.stop).getD arena.cursor := by
  induction requests generalizing arena with
  | nil => rfl
  | cons count rest ih =>
      unfold serve spans
      cases granted : arena.grant count with
      | none => exact ih arena
      | some next =>
          rcases grant_eq_some.mp granted with ⟨_, _, cursor, _⟩
          rw [List.getLast?_cons, ih next, cursor]
          cases (next.spans rest).getLast? <;> rfl

theorem serve_limit (arena : Arena) (requests : List Nat) :
    (arena.serve requests).limit = arena.limit := by
  induction requests generalizing arena with
  | nil => rfl
  | cons count rest ih =>
      unfold serve
      cases granted : arena.grant count with
      | none => exact ih arena
      | some next =>
          rcases grant_eq_some.mp granted with ⟨_, _, _, limit⟩
          rw [ih next, limit]

/-! ### Requests for the same number of addresses -/

/-- A request after a number of equal ones is granted if all of them together fit. -/
theorem grant_after_equal (arena : Arena) (served count : Nat) :
    (((arena.serve (List.replicate served count)).grant count).isSome = true) ↔
      (served + 1) * count ≤ arena.limit - arena.cursor := by
  induction served generalizing arena with
  | zero =>
      rw [List.replicate_zero, serve, Nat.zero_add, Nat.one_mul, ← Nat.not_lt,
        ← grant_eq_none, Option.isSome_iff_ne_none]
  | succ served ih =>
      have expand : (served + 1 + 1) * count = (served + 1) * count + count :=
        Nat.succ_mul _ _
      rw [List.replicate_succ, serve]
      cases granted : arena.grant count with
      | some next =>
          rcases grant_eq_some.mp granted with ⟨enough, _, cursor, limit⟩
          rw [ih next, cursor, limit]
          omega
      | none =>
          have short := grant_eq_none.mp granted
          have one : count ≤ (served + 1) * count := Nat.le_mul_of_pos_left _ (Nat.succ_pos _)
          rw [ih arena]
          omega

/-- All of a number of equal requests are granted exactly if they fit together. -/
theorem grants_all_equal (arena : Arena) (number count : Nat) :
    (∀ served < number,
      ((arena.serve (List.replicate served count)).grant count).isSome = true) ↔
      number * count ≤ arena.limit - arena.cursor := by
  constructor
  · intro all
    cases number with
    | zero => omega
    | succ last => exact (arena.grant_after_equal last count).mp (all last (Nat.lt_succ_self last))
  · intro room served below
    have fewer : (served + 1) * count ≤ number * count := Nat.mul_le_mul_right count below
    exact (arena.grant_after_equal served count).mpr (fewer.trans room)

end Arena

end OsCompiler
