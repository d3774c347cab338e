/-
Concurrent runs that every step brings nearer to their end.

Each thread has a number of steps left, which its own steps count down and the steps
of the others leave alone. The schedule then determines how far each thread is, no
schedule is longer than the sum of all counts, and every run can be continued to a
state where nothing moves any more.
-/

import Mathlib.Algebra.BigOperators.Group.Finset.Basic
import Mathlib.Algebra.Order.BigOperators.Group.Finset
import OsCompiler.Lib.Transition

namespace OsCompiler.Countdown

open OsCompiler.Transition

variable {State Thread : Type} {step : State → Thread → Option State}

/-- A total over the places of all threads, of which one moves. -/
theorem sum_place_update [Fintype Thread] [DecidableEq Thread] {Place : Type}
    (amount : Place → Nat) (place : Thread → Place) (thread : Thread) (target : Place) :
    (∑ other, amount (Function.update place thread target other)) + amount (place thread) =
      (∑ other, amount (place other)) + amount target := by
  rw [← Finset.add_sum_erase _ _ (Finset.mem_univ thread),
    ← Finset.add_sum_erase (a := thread) _ (fun other => amount (place other))
      (Finset.mem_univ thread), Function.update_self]
  have others : (∑ other ∈ Finset.univ.erase thread,
      amount (Function.update place thread target other)) =
        ∑ other ∈ Finset.univ.erase thread, amount (place other) := by
    apply Finset.sum_congr rfl
    intro other member
    rw [Function.update_of_ne (Finset.ne_of_mem_erase member)]
  rw [others]
  omega

def Stuck (step : State → Thread → Option State) (state : State) : Prop :=
  ∀ thread, step state thread = none

theorem not_stuck_iff {state : State} :
    ¬ Stuck step state ↔ ∃ thread after, step state thread = some after := by
  constructor
  · intro moves
    rcases not_forall.mp moves with ⟨thread, possible⟩
    exact ⟨thread, Option.ne_none_iff_exists'.mp possible⟩
  · intro found stuck
    rcases found with ⟨thread, after, moved⟩
    rw [stuck thread] at moved
    cases moved

/-- The steps that each thread has left. -/
structure CountsDown (step : State → Thread → Option State) (left : State → Thread → Nat) :
    Prop where
  own : ∀ before thread after, step before thread = some after →
    left after thread + 1 = left before thread
  others : ∀ before thread after other, step before thread = some after → other ≠ thread →
    left after other = left before other

variable {left : State → Thread → Nat} {start final : State} {schedule : List Thread}

theorem CountsDown.left_add_count [DecidableEq Thread] (counts : CountsDown step left)
    (run : runAll step start schedule = some final) (thread : Thread) :
    left final thread + schedule.count thread = left start thread := by
  apply runAll_history (fun done state => left state thread + done.count thread =
    left start thread) run
  · rw [List.count_nil, Nat.add_zero]
  · intro done before moving after held moved
    rw [List.count_append]
    by_cases same : thread = moving
    · subst same
      have own := counts.own before thread after moved
      rw [List.count_singleton_self]
      omega
    · have kept := counts.others before moving after thread moved same
      rw [List.count_singleton, if_neg (by simpa using Ne.symm same), kept, Nat.add_zero]
      exact held

theorem CountsDown.total_falls [Fintype Thread] [DecidableEq Thread]
    (counts : CountsDown step left) {before after : State} {thread : Thread}
    (moved : step before thread = some after) :
    (∑ other, left after other) < ∑ other, left before other := by
  apply Finset.sum_lt_sum
  · intro other _
    by_cases same : other = thread
    · subst same
      have own := counts.own before other after moved
      omega
    · exact Nat.le_of_eq (counts.others before thread after other moved same)
  · have own := counts.own before thread after moved
    exact ⟨thread, Finset.mem_univ thread, by omega⟩

/-- Every state can go on until nothing moves. -/
theorem CountsDown.exists_stuck [Fintype Thread] [DecidableEq Thread]
    (counts : CountsDown step left) (state : State) :
    ∃ rest last, runAll step state rest = some last ∧ Stuck step last := by
  generalize bound : (∑ other, left state other) = total
  induction total using Nat.strong_induction_on generalizing state with
  | _ total ih =>
      by_cases stuck : Stuck step state
      · exact ⟨[], state, runAll_nil, stuck⟩
      · rcases not_stuck_iff.mp stuck with ⟨thread, after, moved⟩
        have falls := counts.total_falls moved
        rw [bound] at falls
        rcases ih _ falls after rfl with ⟨rest, last, run, rests⟩
        refine ⟨thread :: rest, last, ?_, rests⟩
        show (step state thread).bind (fun next => runAll step next rest) = some last
        rw [moved]
        exact run

/-- Where a thread that can move always exists while one has steps left, a run is at its
end exactly when every thread has made all its steps. -/
theorem CountsDown.stuck_iff [DecidableEq Thread] (counts : CountsDown step left)
    (run : runAll step start schedule = some final)
    (live : Stuck step final → ∀ thread, left final thread = 0) :
    Stuck step final ↔ ∀ thread, schedule.count thread = left start thread := by
  constructor
  · intro stuck thread
    have spent := counts.left_add_count run thread
    rw [live stuck thread, Nat.zero_add] at spent
    exact spent
  · intro complete thread
    have spent := counts.left_add_count run thread
    cases moved : step final thread with
    | none => rfl
    | some after =>
        have own := counts.own final thread after moved
        have all := complete thread
        omega

end OsCompiler.Countdown
