/-
First fit behind the cursor: every occupied position of a range, taken in rising
order, is given the first place behind it that is neither occupied nor given away.

Positions are natural numbers and the places given away are counted rather than
stored: after some turns the places at the cursor and beyond are the vacant ones of
rank below `claimed`. Where each block goes is then a matter of `Nat.nth`.
-/

import Mathlib.Order.Nat
import Mathlib.Data.Nat.Nth

namespace OsCompiler.FirstFit

variable (occupied : Nat → Prop) [DecidablePred occupied]

abbrev Vacant (position : Nat) : Prop := ¬ occupied position

/-- Places given away at the cursor or beyond it, after `turns` turns from `start`. -/
def backlog (start : Nat) : Nat → Nat
  | 0 => 0
  | turns + 1 =>
      if occupied (start + turns) then backlog start turns + 1 else backlog start turns - 1

def claimed (start turns : Nat) : Nat :=
  Nat.count (Vacant occupied) (start + turns) + backlog occupied start turns

noncomputable def slot (start turns : Nat) : Nat :=
  Nat.nth (Vacant occupied) (claimed occupied start turns)

variable {occupied} {start turns : Nat}

theorem claimed_zero : claimed occupied start 0 = Nat.count (Vacant occupied) start := rfl

theorem claimed_succ_of_occupied (taken : occupied (start + turns)) :
    claimed occupied start (turns + 1) = claimed occupied start turns + 1 := by
  rw [claimed, claimed, backlog, if_pos taken, ← Nat.add_assoc start, Nat.count_succ,
    if_neg (not_not.mpr taken)]
  rfl

/-- Passing a vacant position uses up one place given away, if there is any. -/
theorem claimed_succ_of_vacant (vacant : Vacant occupied (start + turns)) :
    claimed occupied start (turns + 1) =
      max (claimed occupied start turns)
        (Nat.count (Vacant occupied) (start + turns + 1)) := by
  rw [claimed, claimed, backlog, if_neg vacant, ← Nat.add_assoc start, Nat.count_succ,
    if_pos vacant]
  omega

theorem claimed_le_succ :
    claimed occupied start turns ≤ claimed occupied start (turns + 1) := by
  by_cases taken : occupied (start + turns)
  · rw [claimed_succ_of_occupied taken]
    exact Nat.le_succ _
  · rw [claimed_succ_of_vacant taken]
    exact Nat.le_max_left _ _

theorem claimed_mono : Monotone (claimed occupied start) :=
  monotone_nat_of_le_succ fun _ => claimed_le_succ

theorem claimed_lt_of_occupied {later : Nat} (taken : occupied (start + turns))
    (before : turns < later) : claimed occupied start turns < claimed occupied start later := by
  calc
    claimed occupied start turns < claimed occupied start (turns + 1) := by
      rw [claimed_succ_of_occupied taken]
      exact Nat.lt_succ_self _
    _ ≤ claimed occupied start later := claimed_mono before

/-! ### The places given away

The vacant positions must not run out; a bound on the occupied ones ensures it. -/

omit [DecidablePred occupied] in
theorem vacant_infinite {bound : Nat} (bounded : ∀ position, occupied position → position < bound) :
    {position | Vacant occupied position}.Infinite := by
  apply Set.infinite_of_forall_exists_gt
  intro position
  refine ⟨max bound (position + 1), fun taken => ?_, ?_⟩
  · exact absurd (bounded _ taken) (Nat.not_lt.mpr (Nat.le_max_left _ _))
  · exact Nat.lt_of_lt_of_le (Nat.lt_succ_self _) (Nat.le_max_right _ _)

section Slots

variable (unbounded : {position | Vacant occupied position}.Infinite)
include unbounded

theorem slot_vacant : Vacant occupied (slot occupied start turns) :=
  Nat.nth_mem_of_infinite unbounded _

theorem count_slot : Nat.count (Vacant occupied) (slot occupied start turns) =
    claimed occupied start turns :=
  Nat.count_nth_of_infinite unbounded _

/-- Every block moves to a place behind its own. -/
theorem lt_slot (taken : occupied (start + turns)) :
    start + turns < slot occupied start turns := by
  have atLeast : start + turns ≤ slot occupied start turns := by
    calc
      start + turns ≤ Nat.nth (Vacant occupied) (Nat.count (Vacant occupied) (start + turns)) :=
        Nat.le_nth_count unbounded _
      _ ≤ slot occupied start turns :=
        Nat.nth_monotone unbounded (Nat.le_add_right _ _)
  apply Nat.lt_of_le_of_ne atLeast
  intro same
  exact slot_vacant unbounded (same ▸ taken)

theorem slot_lt_slot {later : Nat} (taken : occupied (start + turns)) (before : turns < later) :
    slot occupied start turns < slot occupied start later :=
  Nat.nth_strictMono unbounded (claimed_lt_of_occupied taken before)

end Slots

/-- The vacant positions of rank below `claimed` that the cursor has not passed
are the places of the blocks it has. -/
theorem exists_slot_eq {position : Nat} (vacant : Vacant occupied position)
    (ahead : start + turns ≤ position)
    (rank : Nat.count (Vacant occupied) position < claimed occupied start turns) :
    ∃ earlier < turns, occupied (start + earlier) ∧ slot occupied start earlier = position := by
  induction turns with
  | zero =>
      have monotone := Nat.count_monotone (Vacant occupied) ahead
      rw [claimed_zero] at rank
      exact absurd rank (Nat.not_lt.mpr monotone)
  | succ turns ih =>
      have weaken : Nat.count (Vacant occupied) position < claimed occupied start turns →
          ∃ earlier < turns + 1, occupied (start + earlier) ∧
            slot occupied start earlier = position := by
        intro smaller
        rcases ih (by omega) smaller with ⟨earlier, below, taken, place⟩
        exact ⟨earlier, Nat.lt_succ_of_lt below, taken, place⟩
      by_cases taken : occupied (start + turns)
      · rw [claimed_succ_of_occupied taken] at rank
        rcases Nat.lt_succ_iff_lt_or_eq.mp rank with smaller | equal
        · exact weaken smaller
        · refine ⟨turns, Nat.lt_succ_self turns, taken, ?_⟩
          rw [slot, ← equal, Nat.nth_count vacant]
      · rw [claimed_succ_of_vacant taken, lt_max_iff] at rank
        rcases rank with smaller | passed
        · exact weaken smaller
        · have monotone := Nat.count_monotone (Vacant occupied) ahead
          exact absurd passed (Nat.not_lt.mpr monotone)

/-- `slot` is the first fit: whatever lies before it is occupied or given away. -/
theorem occupied_or_slot_of_lt_slot
    (unbounded : {position | Vacant occupied position}.Infinite) {position : Nat}
    (ahead : start + turns ≤ position) (before : position < slot occupied start turns) :
    occupied position ∨
      ∃ earlier < turns, occupied (start + earlier) ∧ slot occupied start earlier = position := by
  by_cases taken : occupied position
  · exact Or.inl taken
  · refine Or.inr (exists_slot_eq taken ahead ?_)
    rw [← count_slot unbounded]
    exact Nat.count_strict_mono (p := Vacant occupied) taken before

/-! ### Room behind a range -/

/-- The positions right behind the range that its overflow takes are all vacant. -/
def RoomBehind (occupied : Nat → Prop) [DecidablePred occupied] (start size : Nat) : Prop :=
  ∀ position, start + size ≤ position → position < start + size + backlog occupied start size →
    Vacant occupied position

variable {size : Nat}

/-- With that room the whole range stays in front of its end. -/
theorem slot_lt_of_roomBehind (room : RoomBehind occupied start size) (inside : turns < size)
    (taken : occupied (start + turns)) :
    slot occupied start turns < start + size + backlog occupied start size := by
  have overflow : Nat.count (Vacant occupied) (start + size + backlog occupied start size) =
      claimed occupied start size := by
    rw [Nat.count_add, claimed, Nat.count_of_forall fun offset below =>
      room _ (Nat.le_add_right _ _) (Nat.add_lt_add_left below _)]
  apply Nat.nth_lt_of_lt_count
  rw [overflow]
  exact claimed_lt_of_occupied taken inside

/-- Without it some block of the range lands right behind an occupied position
that the range does not reach. -/
theorem exists_slot_behind_occupied
    (unbounded : {position | Vacant occupied position}.Infinite)
    (crowded : ¬ RoomBehind occupied start size) :
    ∃ turns < size, occupied (start + turns) ∧
      ∃ position, start + size ≤ position ∧ occupied position ∧
        slot occupied start turns = position + 1 := by
  unfold RoomBehind at crowded
  push Not at crowded
  rcases crowded with ⟨block, behind, near, taken⟩
  -- The first vacant position behind the block closes the block's run.
  have closing := Nat.nth_mem_of_infinite unbounded (Nat.count (Vacant occupied) block)
  have atLeast := Nat.le_nth_count unbounded block
  have rank := Nat.count_nth_of_infinite unbounded (Nat.count (Vacant occupied) block)
  revert closing atLeast rank
  generalize Nat.nth (Vacant occupied) (Nat.count (Vacant occupied) block) = stop
  intro closing atLeast rank
  have beyond : block ≠ stop := fun same => closing (same ▸ taken)
  have few : Nat.count (Vacant occupied) stop < claimed occupied start size := by
    rcases Nat.exists_eq_add_of_le behind with ⟨gap, rfl⟩
    rw [rank, claimed, Nat.count_add]
    have bound := Nat.count_le (p := fun k => Vacant occupied (start + size + k)) (n := gap)
    omega
  rcases exists_slot_eq closing (by omega) few with ⟨turns, inside, mover, place⟩
  refine ⟨turns, inside, mover, stop - 1, by omega, ?_, by omega⟩
  by_contra vacant
  have strict := Nat.count_strict_mono (p := Vacant occupied) vacant (show stop - 1 < stop by omega)
  have monotone := Nat.count_monotone (Vacant occupied) (show block ≤ stop - 1 by omega)
  rw [rank] at strict
  exact absurd strict (Nat.not_lt.mpr monotone)

/-- A vacant overflow place is taken, so a bound on the places bounds the overflow. -/
theorem overflow_le_of_slot_lt {bound : Nat} (room : RoomBehind occupied start size)
    (fits : start + size ≤ bound)
    (below : ∀ turns < size, occupied (start + turns) → slot occupied start turns < bound) :
    start + size + backlog occupied start size ≤ bound := by
  cases overflow : backlog occupied start size with
  | zero => exact fits
  | succ rest =>
      have vacant : Vacant occupied (start + size + rest) :=
        room _ (Nat.le_add_right _ _) (by omega)
      have rank : Nat.count (Vacant occupied) (start + size + rest) <
          claimed occupied start size := by
        rw [claimed, Nat.count_add, overflow]
        have bound := Nat.count_le (p := fun k => Vacant occupied (start + size + k)) (n := rest)
        omega
      rcases exists_slot_eq vacant (Nat.le_add_right _ _) rank with ⟨turns, inside, taken, place⟩
      have last := below turns inside taken
      omega

end OsCompiler.FirstFit
